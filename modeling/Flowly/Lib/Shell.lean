/-
  Flowly.Lib.Shell — the words and operators of a command of the POSIX shell, as far as
  they can be told without running anything: blanks, quotes and operator characters. A
  command with an expansion, an escape, a comment or a second line in it is left to the
  shell (`lex` has none).

  (1) What the shell takes for one word and for an operator, `shlex.split` runs together:
  it knows blanks and quotes only. Its tokens are the stretches between blanks, each with
  the quotes taken out and the operators left in (`split_of_lex`).

  (2) The names of the simple commands of a list (`simpleCommands`): `;`, `&`, `&&`, `||`
  and `|` end a command, and the first word of each is its name. A redirection, a
  subshell, an assignment in front and a word that makes the shell do something else with
  what follows are left to the shell.
-/

import Flowly.Lib.Shlex

namespace Flowly.Lib.Shell

inductive Piece where
  /-- A word, or a part of one that ends at an operator. -/
  | word (t : Text)
  /-- One character of an operator. -/
  | op (c : Char)
  | gap
  deriving DecidableEq

def isBlank (c : Char) : Bool := c = ' ' || c = '\t'

def isOp (c : Char) : Bool := [';', '&', '|', '<', '>', '(', ')'].contains c

/-- What begins an expansion or an escape inside double quotes. -/
def isExpansion (c : Char) : Bool := c = '$' || c = Char.ofNat 96 || c = '\\'

/-- What else has a meaning outside quotes, and white space that is no blank. -/
def isOther (c : Char) : Bool := isExpansion c || c = '#' || c = '~' || c = Char.ofNat 0 || Text.isSpace c

def emit (cur : Option Text) : List Piece := (cur.map Piece.word).toList

/-- Inside a quote or not; the word that has begun. -/
def read : Option Char → Option Text → Text → Option (List Piece)
  | none, cur, [] => some (emit cur)
  | some _, _, [] => none
  | some q, cur, c :: cs =>
    if c = q then read none cur cs
    else if q = '"' ∧ isExpansion c then none
    else read (some q) (some (cur.getD [] ++ [c])) cs
  | none, cur, c :: cs =>
    if isBlank c then (read none none cs).map (emit cur ++ .gap :: ·)
    else if isOp c then (read none none cs).map (emit cur ++ .op c :: ·)
    else if Shlex.isQuote c then read (some c) (some (cur.getD [])) cs
    else if isOther c then none
    else read none (some (cur.getD [] ++ [c])) cs

def lex (command : Text) : Option (List Piece) := read none none command

example : lex "a 'b c'|d".toList = some [.word ['a'], .gap, .word "b c".toList, .op '|', .word ['d']] := by decide

/-! ## The tokens of `shlex` -/

/-- The stretches between the gaps, the operators left in; `acc` is the one that has begun. -/
def stretches : Option Text → List Piece → List Text
  | acc, [] => acc.toList
  | acc, .gap :: ps => acc.toList ++ stretches none ps
  | acc, .word t :: ps => stretches (some (acc.getD [] ++ t)) ps
  | acc, .op c :: ps => stretches (some (acc.getD [] ++ [c])) ps

theorem stretches_emit (acc cur : Option Text) (ps : List Piece) :
    stretches acc (emit cur ++ ps) = match cur with
      | none => stretches acc ps
      | some t => stretches (some (acc.getD [] ++ t)) ps := by
  cases cur with
  | none => rfl
  | some t => rfl

section Split

/-- What has been read of the token: the stretch so far and the word in progress. -/
def soFar (acc cur : Option Text) : Text := acc.getD [] ++ cur.getD []

theorem soFar_append (acc cur : Option Text) (c : Char) : soFar acc (some (cur.getD [] ++ [c])) = soFar acc cur ++ [c] := by
  simp [soFar]

theorem stretches_emit_cons {acc cur : Option Text} (h : acc ≠ none ∨ cur ≠ none) (ps : List Piece) :
    stretches acc (emit cur ++ ps) = stretches (some (soFar acc cur)) ps := by
  rw [stretches_emit]
  cases cur with
  | some t => rfl
  | none =>
    cases acc with
    | some t => simp [soFar]
    | none => simp at h

theorem isOp_not {c : Char} (h : isOp c) : Shlex.isBlank c = false ∧ Shlex.isQuote c = false ∧ c ≠ '\\' := by
  have hc : c ∈ [';', '&', '|', '<', '>', '(', ')'] := List.contains_iff_mem.1 h
  simp only [List.mem_cons, List.not_mem_nil, or_false] at hc
  rcases hc with rfl | rfl | rfl | rfl | rfl | rfl | rfl
  all_goals decide

theorem isQuote_not {c : Char} (h : Shlex.isQuote c) : Shlex.isBlank c = false ∧ c ≠ '\\' := by
  unfold Shlex.isQuote at h
  simp only [Bool.or_eq_true, decide_eq_true_eq] at h
  rcases h with rfl | rfl
  · decide
  · decide

/-- A character that is neither blank nor other is none of the blanks of `shlex`. -/
theorem plain_not {c : Char} (hblank : isBlank c = false) (hother : isOther c = false) : Shlex.isBlank c = false ∧ c ≠ '\\' := by
  simp only [isOther, isExpansion, isBlank, Bool.or_eq_false_iff, decide_eq_false_iff_not] at hblank hother
  obtain ⟨⟨⟨⟨⟨⟨_, _⟩, hescape⟩, _⟩, _⟩, _⟩, hspace⟩ := hother
  refine ⟨?_, hescape⟩
  have hr : c ≠ '\r' := by
    rintro rfl
    exact absurd hspace (by decide)
  have hn : c ≠ '\n' := by
    rintro rfl
    exact absurd hspace (by decide)
  simp [Shlex.isBlank, hblank, hr, hn]

theorem shlexBlank_of_isBlank {c : Char} (h : isBlank c) : Shlex.isBlank c := by
  simp only [isBlank, Bool.or_eq_true, decide_eq_true_eq] at h
  rcases h with rfl | rfl
  · decide
  · decide

/-- What a character outside quotes is to both readers. -/
theorem read_cons {cur : Option Text} {c : Char} {cs : Text} {ps : List Piece} (h : read none cur (c :: cs) = some ps) :
    (Shlex.isBlank c = true ∧ ∃ rest, read none none cs = some rest ∧ emit cur ++ .gap :: rest = ps) ∨
    (Shlex.isBlank c = false ∧ c ≠ '\\') ∧
      ((Shlex.isQuote c = true ∧ read (some c) (some (cur.getD [])) cs = some ps) ∨
        Shlex.isQuote c = false ∧ ((∃ rest, read none none cs = some rest ∧ emit cur ++ .op c :: rest = ps) ∨
          read none (some (cur.getD [] ++ [c])) cs = some ps)) := by
  rw [read] at h
  by_cases hblank : isBlank c
  · rw [if_pos hblank] at h
    exact .inl ⟨shlexBlank_of_isBlank hblank, Option.map_eq_some_iff.1 h⟩
  rw [if_neg hblank] at h
  by_cases hop : isOp c
  · rw [if_pos hop] at h
    obtain ⟨hb, hq, hs⟩ := isOp_not hop
    exact .inr ⟨⟨hb, hs⟩, .inr ⟨hq, .inl (Option.map_eq_some_iff.1 h)⟩⟩
  rw [if_neg hop] at h
  by_cases hquote : Shlex.isQuote c
  · rw [if_pos hquote] at h
    exact .inr ⟨isQuote_not hquote, .inl ⟨hquote, h⟩⟩
  rw [if_neg hquote] at h
  by_cases hother : isOther c
  · rw [if_pos hother] at h
    cases h
  rw [if_neg hother] at h
  exact .inr ⟨plain_not (Bool.eq_false_iff.2 hblank) (Bool.eq_false_iff.2 hother), .inr ⟨Bool.eq_false_iff.2 hquote, .inr h⟩⟩

/-- The two readers side by side: between tokens, inside one, and inside a quote. -/
theorem read_agree (cs : Text) :
    (∀ ps, read none none cs = some ps → Shlex.read .blank [] false cs = some (stretches none ps)) ∧
    (∀ acc cur quoted ps, (acc ≠ none ∨ cur ≠ none) → (soFar acc cur ≠ [] ∨ quoted = true) → read none cur cs = some ps →
      Shlex.read .word (soFar acc cur) quoted cs = some (stretches acc ps)) ∧
    ∀ q acc t quoted ps, Shlex.isQuote q → read (some q) (some t) cs = some ps →
      Shlex.read (.quote q) (soFar acc (some t)) quoted cs = some (stretches acc ps) := by
  induction cs with
  | nil =>
    refine ⟨?_, ?_, ?_⟩
    · intro ps h
      obtain rfl := Option.some.inj h
      rfl
    · intro acc cur quoted ps hsome htok h
      obtain rfl := Option.some.inj h
      rw [← List.append_nil (emit cur), stretches_emit_cons hsome]
      show some (if soFar acc cur ≠ [] ∨ quoted then [soFar acc cur] else []) = some [soFar acc cur]
      rw [if_pos htok]
    · intro q acc t quoted ps _ h
      cases h
  | cons c cs ih =>
    obtain ⟨ihBlank, ihWord, ihQuote⟩ := ih
    refine ⟨?_, ?_, ?_⟩
    · intro ps h
      rw [Shlex.read]
      rcases read_cons h with ⟨hb, rest, hrest, rfl⟩ | ⟨⟨hb, hs⟩, ⟨hq, hrest⟩ | ⟨hq, ⟨rest, hrest, rfl⟩ | hrest⟩⟩
      · rw [if_pos hb, ihBlank rest hrest]
        rfl
      all_goals rw [hb, hq, if_neg Bool.false_ne_true, if_neg hs]
      · exact ihQuote c none [] false ps hq hrest
      · exact ihWord (some [c]) none false rest (.inl nofun) (.inl nofun) hrest
      · exact ihWord none (some [c]) false ps (.inr nofun) (.inl nofun) hrest
    · intro acc cur quoted ps hsome htok h
      rw [Shlex.read]
      rcases read_cons h with ⟨hb, rest, hrest, rfl⟩ | ⟨⟨hb, hs⟩, ⟨hq, hrest⟩ | ⟨hq, ⟨rest, hrest, rfl⟩ | hrest⟩⟩
      · rw [if_pos hb, if_pos htok, ihBlank rest hrest, stretches_emit_cons hsome]
        rfl
      all_goals rw [hb, hq, if_neg Bool.false_ne_true]
      · exact ihQuote c acc (cur.getD []) quoted ps hq hrest
      · rw [if_neg Bool.false_ne_true, if_neg hs, stretches_emit_cons hsome]
        have hnext := ihWord (some (soFar acc cur ++ [c])) none quoted rest (.inl nofun) (.inl (by simp [soFar])) hrest
        rw [show soFar (some (soFar acc cur ++ [c])) none = soFar acc cur ++ [c] from List.append_nil _] at hnext
        exact hnext
      · rw [if_neg Bool.false_ne_true, if_neg hs, ← soFar_append]
        exact ihWord acc (some (cur.getD [] ++ [c])) quoted ps (.inr nofun) (.inl (by simp [soFar])) hrest
    · intro q acc t quoted ps hq h
      rw [read] at h
      rw [Shlex.read]
      by_cases hend : c = q
      · rw [if_pos hend] at h ⊢
        exact ihWord acc (some t) true ps (.inr nofun) (.inr rfl) h
      rw [if_neg hend] at h ⊢
      by_cases hexp : q = '"' ∧ isExpansion c
      · rw [if_pos hexp] at h
        cases h
      rw [if_neg hexp] at h
      have hescape : ¬ (c = '\\' ∧ q = '"') := by
        rintro ⟨rfl, rfl⟩
        exact hexp ⟨rfl, rfl⟩
      rw [if_neg hescape, ← soFar_append]
      exact ihQuote q acc (t ++ [c]) true ps hq h

/-- The tokens of `shlex` are the stretches between the blanks. -/
theorem split_of_lex {command : Text} {ps : List Piece} (h : lex command = some ps) : Shlex.split command = some (stretches none ps) :=
  (read_agree command).1 ps h

end Split

/-! ## One word of a stretch -/

/-- The text of the pieces between two gaps. -/
def glue : List Piece → Text
  | [] => []
  | .word t :: ps => t ++ glue ps
  | .op c :: ps => c :: glue ps
  | .gap :: ps => glue ps

theorem stretches_gap (acc : Option Text) (ps qs : List Piece) :
    stretches acc (ps ++ .gap :: qs) = stretches acc ps ++ stretches none qs := by
  induction ps generalizing acc with
  | nil => rfl
  | cons p ps ih =>
    cases p with
    | word t => exact ih _
    | op c => exact ih _
    | gap =>
      show acc.toList ++ stretches none (ps ++ .gap :: qs) = acc.toList ++ stretches none ps ++ _
      rw [ih, List.append_assoc]

theorem stretches_run {acc : Option Text} {run : List Piece} (h : .gap ∉ run) (hne : acc ≠ none ∨ run ≠ []) :
    stretches acc run = [acc.getD [] ++ glue run] := by
  induction run generalizing acc with
  | nil =>
    cases acc with
    | none => simp at hne
    | some t => simp [stretches, glue]
  | cons p run ih =>
    obtain ⟨hp, hrun⟩ := not_or.1 (mt List.mem_cons.2 h)
    cases p with
    | gap => exact absurd rfl hp
    | word t =>
      show stretches (some (acc.getD [] ++ t)) run = _
      rw [ih hrun (.inl (Option.some_ne_none _))]
      simp [glue]
    | op c =>
      show stretches (some (acc.getD [] ++ [c])) run = _
      rw [ih hrun (.inl (Option.some_ne_none _))]
      simp [glue]

/-- A stretch of a command: the pieces between two gaps, or between one and an end. -/
def IsRun (run ps : List Piece) : Prop :=
  .gap ∉ run ∧ run ≠ [] ∧ ∃ before after, ps = before ++ run ++ after ∧
    (before = [] ∨ before.getLast? = some .gap) ∧ (after = [] ∨ after.head? = some .gap)

theorem IsRun.mem_stretches {run ps : List Piece} (h : IsRun run ps) : glue run ∈ stretches none ps := by
  obtain ⟨hgap, hne, before, after, rfl, hbefore, hafter⟩ := h
  have hself : glue run ∈ stretches none (run ++ after) := by
    have hrun : stretches none run = [glue run] := stretches_run hgap (.inr hne)
    rcases hafter with rfl | hafter
    · rw [List.append_nil, hrun]
      exact List.mem_singleton_self _
    · obtain ⟨rest, rfl⟩ := List.head?_eq_some_iff.1 hafter
      rw [stretches_gap, hrun]
      exact List.mem_cons_self
  rcases hbefore with rfl | hbefore
  · exact hself
  · obtain ⟨front, rfl⟩ := List.getLast?_eq_some_iff.1 hbefore
    rw [List.append_assoc, List.append_assoc, List.singleton_append, stretches_gap]
    exact List.mem_append_right _ hself

/-! ## The simple commands of a list -/

/-- What may stand where the reader is: a command, which must come or may; its arguments;
    or the second character of the operator that has begun. -/
inductive Place where
  | must
  | may
  | args
  | amp
  | pipe
  deriving DecidableEq

def Place.next : Place → Char → Option Place
  | .args, ';' => some .may
  | .args, '&' => some .amp
  | .args, '|' => some .pipe
  | .amp, '&' | .pipe, '|' => some .must
  | _, _ => none

/-- An operator ends where a blank or a word comes. -/
def Place.settled : Place → Place
  | .amp => .may
  | .pipe => .must
  | place => place

/-- The words that make the shell do something else with what follows, or run a text. -/
def reserved : List Text :=
  ["if", "then", "else", "elif", "fi", "do", "done", "case", "esac", "while", "until", "for", "in", "function", "select", "time",
    "coproc", "eval", "exec", "command", "builtin", "source", ".", "trap", "mapfile", "readarray"].map String.toList

/-- A word that is the name of a command and nothing else. -/
def isName (w : Text) : Bool :=
  w ≠ [] && w.all (fun c => c.isAlphanum || ['_', '-', '.', '/', '+', ',', ':', '@'].contains c) && !reserved.contains w

def names : Place → List Piece → Option (List Text)
  | place, [] => if place.settled = .must then none else some []
  | place, .gap :: ps => names place.settled ps
  | place, .op c :: ps => (place.next c).bind fun next => names next ps
  | place, .word w :: ps =>
    if place = .args then names .args ps
    else if isName w then (names .args ps).map (w :: ·)
    else none

/-- The names of the simple commands of a list, of its pipes and of its background jobs. -/
def simpleCommands (command : Text) : Option (List Text) := (lex command).bind (names .must)

example : simpleCommands "date ; git log|head & wc -l".toList = some ["date".toList, "git".toList, "head".toList, "wc".toList] := by
  decide +kernel

/-- Without an operator there are only arguments. -/
theorem names_args {ps : List Piece} (h : ∀ c, .op c ∉ ps) : names .args ps = some [] := by
  induction ps with
  | nil => rfl
  | cons p ps ih =>
    have hrest : ∀ c, .op c ∉ ps := fun c hc => h c (.tail _ hc)
    cases p with
    | op c => exact absurd List.mem_cons_self (h c)
    | gap => exact ih hrest
    | word w => exact ih hrest

end Flowly.Lib.Shell
