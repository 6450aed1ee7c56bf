/-
  Flowly.Lib.Regex — regular expressions with word boundaries, and `re.search`.

  A position is the code point before it and the text after it. `ends` are the positions
  where a match that starts here may end, and the search only asks whether there is one.
-/

import Flowly.Lib.Text

namespace Flowly.Lib

inductive Regex where
  | eps
  | one (p : Char → Bool)
  | seq (a b : Regex)
  | alt (a b : Regex)
  | star (a : Regex)
  /-- `\b`. -/
  | boundary

namespace Regex

abbrev Pos := Option Char × Text

/-- The repetitions of a step that takes at least one code point each. -/
def starEnds (step : Pos → List Pos) : Nat → Pos → List Pos
  | 0, p => [p]
  | n + 1, p => p :: ((step p).filter fun q => q.2.length < p.2.length).flatMap (starEnds step n)

/-- `isWord` is `\w`. -/
def ends (isWord : Char → Bool) : Regex → Pos → List Pos
  | eps, p => [p]
  | one f, p =>
    match p.2 with
    | [] => []
    | c :: rest => if f c then [(some c, rest)] else []
  | seq a b, p => (ends isWord a p).flatMap (ends isWord b)
  | alt a b, p => ends isWord a p ++ ends isWord b p
  | star a, p => starEnds (ends isWord a) p.2.length p
  | boundary, p => if p.1.any isWord = p.2.head?.any isWord then [] else [p]

def searchFrom (isWord : Char → Bool) (r : Regex) : Option Char → Text → Bool
  | before, [] => ends isWord r (before, []) ≠ []
  | before, c :: rest => ends isWord r (before, c :: rest) ≠ [] || searchFrom isWord r (some c) rest

/-- `re.search(r, t) is not None`. -/
def search (isWord : Char → Bool) (r : Regex) (t : Text) : Bool := searchFrom isWord r none t

/-! ## Notation of patterns -/

/-- `re.IGNORECASE` of one code point; beside the ASCII letters four others count as one. -/
def fold (c : Char) : Char :=
  let n := c.toNat
  if n = 0x130 ∨ n = 0x131 then 'i'
  else if n = 0x17F then 's'
  else if n = 0x212A then 'k'
  else c.toLower

def char (c : Char) : Regex := one fun d => fold d = fold c

/-- The code points of `s`, one after the other. -/
def lit (s : String) : Regex := s.toList.foldr (fun c r => seq (char c) r) eps

def seqs (rs : List Regex) : Regex := rs.foldr seq eps

/-- One of the words. -/
def words (ws : List String) : Regex := ws.foldr (fun w r => alt (lit w) r) (one fun _ => false)

/-- `.`. -/
def any : Regex := one (· ≠ '\n')

def space : Regex := one Text.isSpace

def plus (r : Regex) : Regex := seq r (star r)

def opt (r : Regex) : Regex := alt r eps

example : search Char.isAlphanum (seqs [boundary, lit "sudo", boundary]) "x; SUDO ls".toList = true := by decide

end Regex

end Flowly.Lib
