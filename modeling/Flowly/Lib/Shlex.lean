/-
  Flowly.Lib.Shlex — `shlex.split` of Python's standard library, as it is called with
  one argument: the POSIX rules, no comments, words apart where there is white space
  (`shlex.read_token` with `whitespace_split`).
-/

import Flowly.Lib.Text

namespace Flowly.Lib.Shlex

/-- `shlex.whitespace`. -/
def isBlank (c : Char) : Bool := c = ' ' || c = '\t' || c = '\r' || c = '\n'

def isQuote (c : Char) : Bool := c = '\x27' || c = '"'

inductive State where
  | blank
  | word
  | quote (q : Char)
  /-- After a backslash; whether it stands inside double quotes. -/
  | escape (quoted : Bool)

/-- `read_token`, token after token, until the input ends; none where it raises. `quoted`
    is set once the token has had a quote, since an empty one counts then. -/
def read : State → Text → Bool → Text → Option (List Text)
  | .blank, tok, quoted, [] | .word, tok, quoted, [] => some (if tok ≠ [] ∨ quoted then [tok] else [])
  | .quote _, _, _, [] | .escape _, _, _, [] => none
  | .blank, tok, quoted, c :: cs =>
    if isBlank c then read .blank tok quoted cs
    else if c = '\\' then read (.escape false) tok quoted cs
    else if isQuote c then read (.quote c) tok quoted cs
    else read .word [c] quoted cs
  | .quote q, tok, _, c :: cs =>
    if c = q then read .word tok true cs
    else if c = '\\' ∧ q = '"' then read (.escape true) tok true cs
    else read (.quote q) (tok ++ [c]) true cs
  | .escape inQuotes, tok, quoted, c :: cs =>
    -- Inside quotes only the quote and the backslash can be escaped.
    let kept := if inQuotes ∧ c ≠ '\\' ∧ c ≠ '"' then ['\\', c] else [c]
    read (if inQuotes then .quote '"' else .word) (tok ++ kept) quoted cs
  | .word, tok, quoted, c :: cs =>
    if isBlank c then
      if tok ≠ [] ∨ quoted then (read .blank [] false cs).map (tok :: ·) else read .blank tok quoted cs
    else if isQuote c then read (.quote c) tok quoted cs
    else if c = '\\' then read (.escape false) tok quoted cs
    else read .word (tok ++ [c]) quoted cs

def split (s : Text) : Option (List Text) := read .blank [] false s

example : split "echo 'a b' \"c\\\"d\" e\\ f ''".toList = some ["echo".toList, "a b".toList, "c\"d".toList, "e f".toList, []] := by
  decide

end Flowly.Lib.Shlex
