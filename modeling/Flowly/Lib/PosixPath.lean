/-
  Flowly.Lib.PosixPath — `pathlib.PosixPath`: how a text is taken apart, put together
  again, and made absolute where no component is a symbolic link.
-/

import Flowly.Lib.Text

namespace Flowly.Lib

/-- `_root` and the parts after it. A relative path has no root; two slashes are a root
    of their own. -/
structure PosixPath where
  root : Text
  parts : List Text

namespace PosixPath

/-- `Path(t)`. -/
def parse (t : Text) : PosixPath :=
  let slashes := t.takeWhile (· = '/')
  { root := if slashes.length = 2 then ['/', '/'] else slashes.take 1
    parts := (t.splitOn '/').filter fun x => x ≠ [] ∧ x ≠ ['.'] }

/-- `str(p)`. -/
def render (p : PosixPath) : Text := if p.root = [] ∧ p.parts = [] then ['.'] else p.root ++ Text.join ['/'] p.parts

def name (p : PosixPath) : Text := p.parts.getLastD []

/-- `p.expanduser()`; `homes` knows the directory of a user, and of the empty name the own
    home directory. None where it raises a `RuntimeError`. -/
def expanduser (homes : Text → Option PosixPath) (p : PosixPath) : Option PosixPath :=
  match p.root, p.parts with
  | [], ('~' :: user) :: rest => (homes user).map fun h => { h with parts := h.parts ++ rest }
  | _, _ => some p

/-- The parts with every `..` taken away together with the part before it. -/
def collapse (parts : List Text) : List Text :=
  parts.foldl (fun done x => if x = ['.', '.'] then done.dropLast else done ++ [x]) []

/-- The parts of `p.resolve()`, without links; none where a part has a null byte. -/
def resolve (cwd : List Text) (p : PosixPath) : Option (List Text) :=
  if p.parts.any fun x => x.any (· = Char.ofNat 0) then none
  else some (collapse (if p.root = [] then cwd ++ p.parts else p.parts))

example : resolve [] (parse "/etc//./x/../shadow".toList) = some ["etc".toList, "shadow".toList] := by decide

end PosixPath

end Flowly.Lib
