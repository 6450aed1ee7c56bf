/-
  Flowly.Exec.ProtectedPaths — the paths no command may name
  (`flowly/protected_paths.py`), on a file system without symbolic links.

  A command is cut into tokens by `shlex.split`, which knows quotes but no operators. A
  token is read as a path once the redirections at its front are dropped, and so is each
  part of it after an equals sign (`readings`).

  Proved: what makes the scan of a command come back with something (`find_nonempty_iff`).
-/

import Flowly.Lib.PosixPath
import Flowly.Lib.Shlex

namespace Flowly.Exec.ProtectedPaths

open Flowly.Lib

/-- What the code asks the system. -/
structure Host where
  /-- The parts of `Path.home()`, which is absolute. -/
  home : List Text
  cwd : List Text
  /-- The home directories of the other users. -/
  users : Text → Option PosixPath
  uid : Nat
  /-- The profiles that have a `desktop` directory, sorted. -/
  profiles : List Text

namespace Host

variable (h : Host)

def homes (user : Text) : Option PosixPath := if user = [] then some { root := ['/'], parts := h.home } else h.users user

/-- `_hardcoded_protected_roots()`, the parts of each. -/
def protectedRoots : List (List Text) :=
  let own (parts : List String) : List Text := h.home ++ parts.map String.toList
  let fixed (parts : List String) : List Text := parts.map String.toList
  [own [".ssh"], own [".aws"], own [".kube"], own [".gnupg"], own [".docker", "config.json"], own [".npmrc"], own [".netrc"],
    own [".pypirc"], own [".cargo", "credentials"], own [".cargo", "credentials.toml"], own ["Library", "Keychains"],
    own ["Library", "Application Support", "Google", "Chrome", "Default", "Cookies"],
    own ["Library", "Application Support", "Google", "Chrome", "Default", "Login Data"],
    own ["Library", "Application Support", "Firefox"], own [".flowly", "credentials"], own [".flowly", "sessions"],
    own [".flowly", "subagents", "sessions"], own [".flowly", "config.json"], own [".flowly", "electron-api.json"],
    own [".flowly", "desktop-client-id"], fixed ["run", "flowly-screen"], fixed ["var", "lib", "flowly-screen-runtime"],
    fixed ["tmp", s!"flowly-screen-{h.uid}"], own [".flowly", "desktop"]] ++
  h.profiles.map (fun profile => own [".flowly", "profiles"] ++ [profile, "desktop".toList]) ++
  [fixed ["etc", "shadow"], fixed ["etc", "sudoers"], fixed ["etc", "sudoers.d"], fixed ["etc", "master.passwd"],
    fixed ["private", "etc", "sudoers"], fixed ["private", "etc", "master.passwd"]]

def Below (parts : List Text) : Prop := ∃ root ∈ h.protectedRoots, PosixPath.collapse root <+: parts

instance (parts : List Text) : Decidable (h.Below parts) := inferInstanceAs (Decidable (∃ root ∈ _, _))

/-- `is_protected_path(Path(t))`; `_normalize` has none where it cannot make sense of `t`. -/
def isProtectedPath (t : Text) : Bool :=
  match ((PosixPath.parse t).expanduser h.homes).bind (PosixPath.resolve h.cwd) with
  | some parts => h.Below parts
  | none => false

/-- `str(root)` and `str(_normalize(root))`. -/
def rootTexts : List Text :=
  h.protectedRoots.flatMap fun root =>
    [PosixPath.render { root := ['/'], parts := root }, PosixPath.render { root := ['/'], parts := PosixPath.collapse root }]

end Host

/-- `strip("\"'")`. -/
def stripQuotes (t : Text) : Text := ((t.dropWhile Shlex.isQuote).reverse.dropWhile Shlex.isQuote).reverse

/-- `_GLOB`. -/
def isGlob (c : Char) : Bool := c = '*' || c = '?' || c = '['

def fixedPart (t : Text) : Option Text := if t.any isGlob then some (t.takeWhile fun c => !isGlob c) else none

def endsWithSlash (t : Text) : Bool := t.getLast? = some '/'

def looksLikePath (t : Text) : Bool := t.head? = some '~' || t.any (· = '/')

section Scan

variable (h : Host)

/-- The expanded prefix of a glob; none where `expanduser` raises. -/
def globPrefix (fixed : Text) : Option Text :=
  if fixed = [] then some []
  else ((PosixPath.parse fixed).expanduser h.homes).map fun p =>
    if endsWithSlash fixed ∧ !endsWithSlash p.render then p.render ++ ['/'] else p.render

/-- A protected root is on the way of the prefix, or the prefix is inside one. -/
def onTheWay (pre : Text) : Bool :=
  1 < pre.length && h.rootTexts.any fun root => Text.startsWith root pre || Text.startsWith pre (root ++ ['/'])

def flagsPath (t : Text) : Option Bool :=
  let t := stripQuotes t
  if !looksLikePath t then some false
  else
    match fixedPart t with
    | none => some (h.isProtectedPath t)
    | some fixed => (globPrefix h fixed).map fun pre => onTheWay h pre || (fixed ≠ [] && h.isProtectedPath fixed)

/-- `any(_flags_path(part, token) for part in parts)`. -/
def anyFlags : List Text → Option Bool
  | [] => some false
  | t :: ts => (flagsPath h t).bind fun hit => if hit then some true else anyFlags ts

/-- The `[<>&0-9]` at the front of a token. -/
def isRedirection (c : Char) : Bool := c = '<' || c = '>' || c = '&' || ('0' ≤ c && c ≤ '9')

def scanToken (token : Text) : Option Bool :=
  let clean := token.dropWhile isRedirection
  if clean = [] then some false
  else
    (anyFlags h (clean.splitOn '=').tail).bind fun hit =>
      if hit then some true
      else if !looksLikePath clean then some false
      else if stripQuotes clean = [] then some false
      else flagsPath h (stripQuotes clean)

def scanTokens : List Text → Option (List Text)
  | [] => some []
  | token :: rest => (scanToken h token).bind fun hit => (scanTokens rest).map fun flagged => if hit then token :: flagged else flagged

/-- The tokens of a command: those of `shlex`, and where it gives up the words without
    their quotes. -/
def tokens (command : Text) : List Text :=
  (Shlex.split command).getD (Text.words (command.filter fun c => !Shlex.isQuote c))

/-- `find_protected_paths_in_command`; none where it raises. -/
def findProtectedPaths (command : Text) : Option (List Text) := scanTokens h (tokens command)

end Scan

/-! ## What is seen -/

/-- How a token is read as a path: what follows an equals sign, and the token itself. -/
def readings (token : Text) : List Text :=
  let clean := token.dropWhile isRedirection
  (clean.splitOn '=').tail ++ if looksLikePath clean then [stripQuotes clean] else []

section Seen

variable (h : Host)

/-- A path at or below a protected root, or a glob that may lead there. -/
def Reaches (t : Text) : Prop :=
  looksLikePath (stripQuotes t) ∧
    match fixedPart (stripQuotes t) with
    | none => h.isProtectedPath (stripQuotes t)
    | some fixed => ∃ pre ∈ globPrefix h fixed, onTheWay h pre ∨ (fixed ≠ [] ∧ h.isProtectedPath fixed)

/-- A glob behind the `~` of a user who is not known. -/
def OfUnknownUser (t : Text) : Prop :=
  looksLikePath (stripQuotes t) ∧ ∃ fixed ∈ fixedPart (stripQuotes t), globPrefix h fixed = none

theorem flagsPath_none_iff {t : Text} : flagsPath h t = none ↔ OfUnknownUser h t := by
  unfold flagsPath OfUnknownUser
  cases hlook : looksLikePath (stripQuotes t) with
  | false => simp [hlook]
  | true =>
    cases hfix : fixedPart (stripQuotes t) with
    | none => simp [hlook, hfix]
    | some fixed => simp [hlook, hfix]

theorem flagsPath_true_iff {t : Text} : flagsPath h t = some true ↔ Reaches h t := by
  unfold flagsPath Reaches
  cases hlook : looksLikePath (stripQuotes t) with
  | false => simp [hlook]
  | true =>
    cases hfix : fixedPart (stripQuotes t) with
    | none => simp [hlook, hfix]
    | some fixed => simp [hlook, hfix]

instance (t : Text) : Decidable (Reaches h t) := decidable_of_iff _ (flagsPath_true_iff h)

instance (t : Text) : Decidable (OfUnknownUser h t) := decidable_of_iff _ (flagsPath_none_iff h)

/-- The first reading that says anything: the others are not looked at. -/
def decisive (token : Text) : Option Text := (readings token).find? fun t => Reaches h t ∨ OfUnknownUser h t

def Raises (token : Text) : Prop := ∃ t ∈ decisive h token, OfUnknownUser h t

instance (token : Text) : Decidable (Raises h token) := inferInstanceAs (Decidable (∃ t ∈ decisive h token, _))

theorem anyFlags_cons (t : Text) (ts : List Text) :
    anyFlags h (t :: ts) = (flagsPath h t).bind fun hit => if hit then some true else anyFlags h ts := rfl

theorem anyFlags_eq (ts : List Text) :
    anyFlags h ts = match ts.find? (fun t => Reaches h t ∨ OfUnknownUser h t) with
      | none => some false
      | some t => if OfUnknownUser h t then none else some true := by
  induction ts with
  | nil => rfl
  | cons t ts ih =>
    rw [anyFlags_cons]
    by_cases hu : OfUnknownUser h t
    · rw [(flagsPath_none_iff h).2 hu, List.find?_cons_of_pos (by simp [hu])]
      exact (if_pos hu).symm
    · by_cases hr : Reaches h t
      · rw [(flagsPath_true_iff h).2 hr, List.find?_cons_of_pos (by simp [hr])]
        exact (if_neg hu).symm
      · have hfalse : flagsPath h t = some false := by
          cases hf : flagsPath h t with
          | none => exact absurd ((flagsPath_none_iff h).1 hf) hu
          | some hit =>
            cases hit with
            | true => exact absurd ((flagsPath_true_iff h).1 hf) hr
            | false => rfl
        rw [hfalse, List.find?_cons_of_neg (by simp [hu, hr])]
        exact ih

theorem anyFlags_append (a b : List Text) :
    anyFlags h (a ++ b) = (anyFlags h a).bind fun hit => if hit then some true else anyFlags h b := by
  induction a with
  | nil => rfl
  | cons t a ih =>
    rw [List.cons_append, anyFlags_cons, anyFlags_cons]
    cases flagsPath h t with
    | none => rfl
    | some hit =>
      cases hit with
      | true => rfl
      | false => exact ih

theorem scanToken_eq (token : Text) : scanToken h token = anyFlags h (readings token) := by
  unfold scanToken readings
  generalize token.dropWhile isRedirection = clean
  dsimp only
  by_cases hnil : clean = []
  · rw [if_pos hnil, hnil]
    rfl
  · rw [if_neg hnil, anyFlags_append]
    congr 1
    funext hit
    cases hit with
    | true => rfl
    | false =>
      rw [if_neg Bool.false_ne_true, if_neg Bool.false_ne_true]
      cases hlook : looksLikePath clean with
      | false => rfl
      | true =>
        show (if stripQuotes clean = [] then some false else flagsPath h (stripQuotes clean)) = anyFlags h [stripQuotes clean]
        rw [anyFlags_cons]
        by_cases hempty : stripQuotes clean = []
        · rw [if_pos hempty, hempty]
          rfl
        · rw [if_neg hempty]
          cases flagsPath h (stripQuotes clean) with
          | none => rfl
          | some hit =>
            cases hit with
            | true => rfl
            | false => rfl

theorem scanToken_none_iff {token : Text} : scanToken h token = none ↔ Raises h token := by
  rw [scanToken_eq, anyFlags_eq]
  unfold Raises decisive
  cases (readings token).find? (fun t => decide (Reaches h t ∨ OfUnknownUser h t)) with
  | none => simp
  | some t => simp

theorem scanToken_true_iff {token : Text} (hno : ¬ Raises h token) : scanToken h token = some true ↔ ∃ t ∈ readings token, Reaches h t := by
  rw [scanToken_eq, anyFlags_eq]
  unfold Raises decisive at hno
  cases hfind : (readings token).find? (fun t => decide (Reaches h t ∨ OfUnknownUser h t)) with
  | none =>
    have hnone : ∀ t ∈ readings token, ¬ Reaches h t := by
      intro t ht hr
      exact absurd (decide_eq_true (Or.inl hr)) (List.find?_eq_none.1 hfind t ht)
    simpa using hnone
  | some t =>
    rw [hfind] at hno
    have hu : ¬ OfUnknownUser h t := fun hu => hno ⟨t, rfl, hu⟩
    have hr : Reaches h t ∨ OfUnknownUser h t := by simpa using List.find?_some hfind
    constructor
    · exact fun _ => ⟨t, List.mem_of_find?_eq_some hfind, hr.resolve_right hu⟩
    · exact fun _ => if_neg hu

theorem scanTokens_cons (token : Text) (rest : List Text) : scanTokens h (token :: rest) =
    (scanToken h token).bind fun hit => (scanTokens h rest).map fun flagged => if hit then token :: flagged else flagged := rfl

theorem scanTokens_some_iff (ts : List Text) : (∃ flagged, scanTokens h ts = some flagged) ↔ ∀ token ∈ ts, ¬ Raises h token := by
  induction ts with
  | nil => simp [scanTokens]
  | cons token rest ih =>
    rw [List.forall_mem_cons, ← ih, ← scanToken_none_iff, scanTokens_cons]
    cases scanToken h token with
    | none => simp
    | some hit => simp

theorem scanTokens_nonempty_iff (ts : List Text) :
    (∃ flagged, scanTokens h ts = some flagged ∧ flagged ≠ []) ↔
      (∀ token ∈ ts, ¬ Raises h token) ∧ ∃ token ∈ ts, ∃ t ∈ readings token, Reaches h t := by
  induction ts with
  | nil => simp [scanTokens]
  | cons token rest ih =>
    rw [List.forall_mem_cons, List.exists_mem_cons_iff, scanTokens_cons]
    by_cases hraise : Raises h token
    · rw [(scanToken_none_iff h).2 hraise]
      simp [hraise]
    · rw [← scanToken_true_iff h hraise]
      cases hscan : scanToken h token with
      | none => exact absurd ((scanToken_none_iff h).1 hscan) hraise
      | some hit =>
        cases hit with
        | true =>
          have hsome := scanTokens_some_iff h rest
          simp only [hraise, not_false_eq_true, true_and, true_or, and_true, ← hsome]
          simp
        | false =>
          simpa [hraise] using ih

/-- When the scan of a command comes back with something. -/
theorem find_nonempty_iff (command : Text) :
    (∃ flagged, findProtectedPaths h command = some flagged ∧ flagged ≠ []) ↔
      (∀ token ∈ tokens command, ¬ Raises h token) ∧ ∃ token ∈ tokens command, ∃ t ∈ readings token, Reaches h t :=
  scanTokens_nonempty_iff h (tokens command)

/-- An absolute path at or below a protected root. -/
def Protected (w : Text) : Prop := w.head? = some '/' ∧ ∃ parts ∈ PosixPath.resolve h.cwd (PosixPath.parse w), h.Below parts

instance (w : Text) : Decidable (Protected h w) := inferInstanceAs (Decidable (_ ∧ ∃ parts ∈ PosixPath.resolve _ _, _))

/-- No `~` is looked for in an absolute path. -/
theorem isProtectedPath_of_protected {w : Text} (hw : Protected h w) : h.isProtectedPath w = true := by
  obtain ⟨hhead, parts, hparts, hbelow⟩ := hw
  have hroot : (PosixPath.parse w).root ≠ [] := by
    obtain ⟨rest, rfl⟩ := List.head?_eq_some_iff.1 hhead
    unfold PosixPath.parse
    dsimp only
    split
    · exact List.cons_ne_nil _ _
    · simp
  have hexpand : (PosixPath.parse w).expanduser h.homes = some (PosixPath.parse w) := by
    unfold PosixPath.expanduser
    split
    · next hnil _ => exact absurd hnil hroot
    · rfl
  unfold Host.isProtectedPath
  rw [hexpand, Option.bind_some, hparts]
  exact decide_eq_true hbelow

/-- A word that is read as it stands: no wildcard in it, and no quote at its ends. -/
def Literal (w : Text) : Prop := w.any isGlob = false ∧ stripQuotes w = w

instance (w : Text) : Decidable (Literal w) := inferInstanceAs (Decidable (_ ∧ _))

/-- A protected word is found in a token that has only a redirection in front of it. -/
theorem reaches_of_redirected {w front : Text} (hfront : ∀ c ∈ front, isRedirection c = true) (hw : Protected h w) (hlit : Literal w) :
    ∃ t ∈ readings (front ++ w), Reaches h t := by
  obtain ⟨rest, hrest⟩ := List.head?_eq_some_iff.1 hw.1
  have hclean : (front ++ w).dropWhile isRedirection = w := by
    rw [List.dropWhile_append_of_pos hfront, hrest]
    exact List.dropWhile_cons_of_neg (by decide)
  have hlook : looksLikePath w = true := by
    unfold looksLikePath
    rw [hrest]
    simp
  refine ⟨w, ?_, ?_⟩
  · unfold readings
    rw [hclean]
    dsimp only
    rw [if_pos hlook, hlit.2]
    exact List.mem_append_right _ (List.mem_singleton_self w)
  · unfold Reaches
    rw [hlit.2]
    refine ⟨hlook, ?_⟩
    unfold fixedPart
    rw [if_neg (by rw [hlit.1]; exact Bool.false_ne_true)]
    exact isProtectedPath_of_protected h hw

end Seen

end Flowly.Exec.ProtectedPaths
