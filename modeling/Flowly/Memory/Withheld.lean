/-
  Flowly.Memory.Withheld — MEMORY.md as a prompt may state it: notes outside the generated
  block that are no longer active memory are left out
  (`flowly/memory/summary.py`: `fold`, `note_body`, `withhold_retired_notes`).

  Paragraphs are compared one by one, so a note of several is not found by an item that holds
  the whole of it (`several_paragraphs`), and a long retired text also takes an active one away
  that has its words in it (`active_withheld`). Proved (`withholds_iff`): exactly when neither
  happens, and that everything else is as it should be on every input. `str.casefold` is a
  parameter.
-/

import Flowly.Lib.Paragraphs
import Flowly.Memory.Notes

namespace Flowly.Memory.Withheld

open Flowly.Lib Flowly.Lib.Text Flowly.Memory.Summary

/-! ## Notes -/

/-- In a template `0` stands for a digit. -/
def fits (digit : Char → Bool) (c d : Char) : Bool := if c = '0' then digit d else decide (c = d)

def shaped (digit : Char → Bool) : Text → Text → Option Text
  | [], t => some t
  | c :: cs, d :: t => if fits digit c d then shaped digit cs t else none
  | _ :: _, [] => none

def DATE : Text := "0000-00-00 00:00".toList

/-- `\s*$` behind the stamp: what is left. Some of the white space before a line end stays. -/
def toLineEnd (t : Text) : Option Text :=
  let run := t.takeWhile isSpace
  if run = t then some []
  else if '\n' ∈ run then some (t.drop ((toLastNewline run).length - 1))
  else none

/-- `_NOTE_STAMP` at a place that has `before` in front of it: the length of the match. -/
def noteStamp (before : Option Char) (t : Text) : Option Nat :=
  if before = none ∨ before = some '\n' then do
    let t₁ ← shaped (fun _ => false) "<!--".toList (t.dropWhile isSpace)
    let t₂ ← shaped (fun c => (decimal c).isSome) DATE (t₁.dropWhile isSpace)
    let t₃ ← shaped (fun _ => false) "-->".toList (t₂.dropWhile isSpace)
    let t₄ ← toLineEnd t₃
    pure (t.length - t₄.length)
  else none

/-- `_NOTE_STAMP.sub("", t)`; so many code points belong to the match that was found last. -/
def dropStampsFrom : Nat → Option Char → Text → Text
  | _, _, [] => []
  | skip + 1, _, c :: t => dropStampsFrom skip (some c) t
  | 0, before, c :: t =>
    match noteStamp before (c :: t) with
    | some n => dropStampsFrom (n - 1) (some c) t
    | none => c :: dropStampsFrom 0 (some c) t

def dropStamps (t : Text) : Text := dropStampsFrom 0 none t

def noteBody (paragraph : Text) : Text := Text.strip (dropStamps paragraph)

variable (casefold : Text → Text)

def fold (t : Text) : Text := casefold (join [' '] (words t))

/-! ## What is withheld -/

def STATUS_ACTIVE : String := "active"

local instance lawful : LawfulBEq Text := inferInstance

def active (states : List (String × Text)) : List Text :=
  (states.filter fun s => s.1 = STATUS_ACTIVE).map fun s => fold casefold s.2

def retired (states : List (String × Text)) : List Text :=
  ((states.filter fun s => s.1 ≠ STATUS_ACTIVE).map fun s => fold casefold s.2).filter
    fun t => t ∉ active casefold states ∧ t ≠ []

def LONG_TEXT : Nat := 24

def retiredNote (retired : List Text) (chunk : Text) : Bool :=
  let body := fold casefold (noteBody chunk)
  body ∈ retired || (retired.filter fun text => LONG_TEXT ≤ text.length).any fun text => body.contains text

def keep (retired : List Text) (part : Text) : Text :=
  join ['\n', '\n'] ((paragraphs part).filter fun chunk => !retiredNote casefold retired chunk)

def withholdRetiredNotes (memoryMd : Text) (states : List (String × Text)) : Text :=
  let retired := retired casefold states
  if retired = [] then memoryMd
  else
    match findRegion memoryMd with
    | none => keep casefold retired memoryMd
    | some (start, stop) =>
      join ['\n', '\n'] ([keep casefold retired (memoryMd.take start), slice memoryMd start stop,
        keep casefold retired (memoryMd.drop stop)].filter fun part => part ≠ [])

/-! ## What it is for -/

def outside (t : Text) : List Text :=
  match findRegion t with
  | none => [t]
  | some (start, stop) => [t.take start, t.drop stop]

def outsideParagraphs (t : Text) : List (List Text) := (outside t).map paragraphs

def STAMP : Text := "<!-- 0000-00-00 00:00 -->".toList

/-- A paragraph that starts with the line `memory_append` writes: what follows that line. -/
def stamped (chunk : Text) : Option Text :=
  match shaped Char.isDigit STAMP chunk with
  | some ('\n' :: content) => some content
  | _ => none

/-- Paragraphs that make up a note: the text of the first, and the others. -/
def Note (ps : List Text) (content : Text) (rest : List Text) : Prop :=
  ∃ front chunk back, ps = front ++ chunk :: (rest ++ back) ∧ stamped chunk = some content

def Unmentioned (states : List (String × Text)) (chunk : Text) : Prop :=
  ∀ s ∈ states, fold casefold s.2 ≠ [] → ¬ fold casefold s.2 <:+: fold casefold (noteBody chunk)

instance (states : List (String × Text)) (chunk : Text) : Decidable (Unmentioned casefold states chunk) :=
  inferInstanceAs (Decidable (∀ s ∈ states, _))

/-- Retired notes are withheld, and nothing else is. -/
structure Withholds (memoryMd : Text) (states : List (String × Text)) (out : Text) : Prop where
  retired : ∀ ps ∈ outsideParagraphs out, ∀ content rest, Note ps content rest →
    fold casefold (join ['\n', '\n'] (content :: rest)) ∉ retired casefold states
  active : (outsideParagraphs out).map (·.filter fun c => fold casefold (noteBody c) ∈ active casefold states) =
    (outsideParagraphs memoryMd).map (·.filter fun c => fold casefold (noteBody c) ∈ Withheld.active casefold states)
  others : (outsideParagraphs out).map (·.filter fun c => Unmentioned casefold states c) =
    (outsideParagraphs memoryMd).map (·.filter fun c => Unmentioned casefold states c)
  block : regionText out = regionText memoryMd

/-! ## The paragraphs that are left -/

variable {casefold : Text → Text} {memoryMd : Text} {states : List (String × Text)}

theorem kept_isParagraph (f : Text → Bool) (t : Text) : ∀ p ∈ (paragraphs t).filter f, IsParagraph p :=
  fun _ hp => isParagraph_of_mem (List.mem_filter.1 hp).1

theorem paragraphs_keep (retired : List Text) (part : Text) :
    paragraphs (keep casefold retired part) = (paragraphs part).filter fun c => !retiredNote casefold retired c :=
  paragraphs_join (kept_isParagraph _ part)

theorem keep_eq_nil {retired : List Text} {part : Text} :
    keep casefold retired part = [] ↔ (paragraphs part).filter (fun c => !retiredNote casefold retired c) = [] := by
  constructor
  · intro h
    rw [← paragraphs_keep, h]
    decide
  · intro h
    rw [keep, h]
    rfl

/-- A marker of the block is not made by leaving paragraphs out. -/
theorem infix_of_keep {m : Text} (hm : m ≠ []) (hn : '\n' ∉ m) {retired : List Text} {part : Text}
    (h : m <:+: keep casefold retired part) : m <:+: part := by
  obtain ⟨p, hp, hin⟩ := (infix_join_blank hm hn).1 h
  exact hin.trans (((covers_paragraphs part).filter _).infix_of_mem hp)

/-- A start marker with an end marker behind it is a region. -/
theorem findRegion_of_in_order {t x z : Text} (ht : t = x ++ (SENTINEL_START ++ z)) (hz : SENTINEL_END <:+: z) :
    findRegion t ≠ none := by
  intro hnone
  unfold findRegion findFrom at hnone
  split at hnone
  · next h => exact find_eq_none.1 h ⟨x, z, by rw [ht, List.append_assoc]⟩
  · next k hk =>
    obtain ⟨a, b, hab, hlen, hfirst⟩ := find_some hk
    have hle : k ≤ x.length := by
      by_contra hlt
      refine hfirst x.length (by omega) ?_
      rw [ht, List.drop_left]
      exact List.prefix_append _ _
    split at hnone
    · next h =>
      rw [Option.map_eq_none_iff] at h
      refine find_eq_none.1 h (hz.trans ?_)
      have hdrop : z = (t.drop (k + SENTINEL_START.length)).drop (x.length - k) := by
        have hx : k + SENTINEL_START.length + (x.length - k) = (x ++ SENTINEL_START).length := by
          rw [List.length_append]
          omega
        rw [List.drop_drop, hx, ht, ← List.append_assoc, List.drop_left]
      rw [hdrop]
      exact (List.drop_suffix _ _).isInfix
    · cases hnone

theorem findRegion_keep {retired : List Text} (h : findRegion memoryMd = none) : findRegion (keep casefold retired memoryMd) = none := by
  by_contra hsome
  obtain ⟨r, hr⟩ := Option.ne_none_iff_exists'.1 hsome
  obtain ⟨x, body, y, hcut⟩ := exists_cut hr
  have hend : SENTINEL_END <:+: body ++ (SENTINEL_END ++ y) := ⟨body, y, List.append_assoc _ _ _⟩
  obtain ⟨x', z', ht, hz'⟩ := ((covers_paragraphs memoryMd).filter _).in_order start_marker.ne_nil newline_not_mem_start
    end_marker.ne_nil newline_not_mem_end hcut.eq hend
  exact findRegion_of_in_order ht hz' h

def front (before : Text) : Text := if before = [] then [] else before ++ ['\n', '\n']

def back (after : Text) : Text := if after = [] then [] else '\n' :: '\n' :: after

theorem join_parts (before after : Text) {block : Text} (hblock : block ≠ []) :
    join ['\n', '\n'] ([before, block, after].filter fun part => part ≠ []) = front before ++ (block ++ back after) := by
  unfold front back
  by_cases hb : before = [] <;> by_cases ha : after = [] <;> simp [hb, ha, hblock, join, List.intercalate_cons_cons]

theorem withhold_cut {x body y : Text} (h : Cut memoryMd x body y) (hne : retired casefold states ≠ []) :
    let retired := retired casefold states
    Cut (withholdRetiredNotes casefold memoryMd states) (front (keep casefold retired x)) body (back (keep casefold retired y)) := by
  intro retired
  have hslice : slice memoryMd x.length (x.length + SENTINEL_START.length + body.length + SENTINEL_END.length) = regionOf body := by
    have hregion := h.regionText
    rw [regionText, h.findRegion] at hregion
    exact Option.some.inj hregion
  have hout : withholdRetiredNotes casefold memoryMd states =
      front (keep casefold retired x) ++ (regionOf body ++ back (keep casefold retired y)) := by
    unfold withholdRetiredNotes
    simp only [hne, if_false, h.findRegion, hslice, h.take, h.drop]
    exact join_parts _ _ (by simp [regionOf, start_marker.ne_nil])
  rw [hout]
  refine cut_region ?_ h.inside _
  intro hin
  unfold front at hin
  split at hin
  · exact start_marker.ne_nil (List.infix_nil.1 hin)
  · rcases (infix_append_cons newline_not_mem_start).1 hin with hin | hin
    · exact h.before (infix_of_keep start_marker.ne_nil newline_not_mem_start hin)
    · exact absurd (List.infix_nil.1 (infix_of_newline start_marker.ne_nil newline_not_mem_start hin)) start_marker.ne_nil

theorem outside_cut {t x body y : Text} (h : Cut t x body y) : outside t = [x, y] := by
  unfold outside
  rw [h.findRegion]
  simp only [h.take, h.drop]

theorem paragraphs_front (retired : List Text) (part : Text) :
    paragraphs (front (keep casefold retired part)) = (paragraphs part).filter fun c => !retiredNote casefold retired c := by
  unfold front
  split
  · next h => rw [keep_eq_nil.1 h]; decide
  · next h => exact paragraphs_join_blank (fun hnil => h (keep_eq_nil.2 hnil)) (kept_isParagraph _ part)

theorem paragraphs_back (retired : List Text) (part : Text) :
    paragraphs (back (keep casefold retired part)) = (paragraphs part).filter fun c => !retiredNote casefold retired c := by
  unfold back
  split
  · next h => rw [keep_eq_nil.1 h]; decide
  · next h => exact paragraphs_blank_join (fun hnil => h (keep_eq_nil.2 hnil)) (kept_isParagraph _ part)

theorem not_retiredNote_nil (c : Text) : retiredNote casefold [] c = false := rfl

/-- The paragraphs outside the block are those that are no retired note, where they were. -/
theorem outsideParagraphs_withhold (casefold : Text → Text) (memoryMd : Text) (states : List (String × Text)) :
    outsideParagraphs (withholdRetiredNotes casefold memoryMd states) =
      (outsideParagraphs memoryMd).map (·.filter fun c => !retiredNote casefold (retired casefold states) c) := by
  by_cases hne : retired casefold states = []
  · simp [withholdRetiredNotes, hne, not_retiredNote_nil]
  · cases hregion : findRegion memoryMd with
    | none =>
      have hout : withholdRetiredNotes casefold memoryMd states = keep casefold (retired casefold states) memoryMd := by
        simp only [withholdRetiredNotes, hne, if_false, hregion]
      rw [hout, outsideParagraphs, outsideParagraphs, outside, outside, findRegion_keep hregion, hregion]
      simp only [List.map_cons, List.map_nil, paragraphs_keep]
    | some r =>
      obtain ⟨x, body, y, hcut⟩ := exists_cut hregion
      rw [outsideParagraphs, outsideParagraphs, outside_cut (withhold_cut hcut hne), outside_cut hcut]
      simp only [List.map_cons, List.map_nil, paragraphs_front, paragraphs_back]

/-- The generated block is as it was. -/
theorem regionText_withhold (casefold : Text → Text) (memoryMd : Text) (states : List (String × Text)) :
    regionText (withholdRetiredNotes casefold memoryMd states) = regionText memoryMd := by
  by_cases hne : retired casefold states = []
  · simp [withholdRetiredNotes, hne]
  · cases hregion : findRegion memoryMd with
    | none =>
      have hout : withholdRetiredNotes casefold memoryMd states = keep casefold (retired casefold states) memoryMd := by
        simp only [withholdRetiredNotes, hne, if_false, hregion]
      rw [hout, regionText_of_none hregion, regionText_of_none (findRegion_keep hregion)]
    | some r =>
      obtain ⟨x, body, y, hcut⟩ := exists_cut hregion
      rw [(withhold_cut hcut hne).regionText, hcut.regionText]

/-! ## A note of one paragraph -/

theorem words_cons_space {c : Char} (hc : isSpace c = true) (t : Text) : words (c :: t) = words t := by
  rw [words, List.splitOnP_cons_eq_if_modifyHead, if_pos hc]
  rfl

theorem words_append_space {c : Char} (hc : isSpace c = true) (t : Text) : words (t ++ [c]) = words t := by
  rw [words, List.splitOnP_append_cons t [] hc, List.filter_append]
  exact List.append_nil _

theorem words_strip (t : Text) : words (Text.strip t) = words t := by
  have hfront (t : Text) : words (lstrip t) = words t := by
    induction t with
    | nil => rfl
    | cons c t ih =>
      by_cases hc : isSpace c = true
      · rw [words_cons_space hc, ← ih, lstrip, lstrip, List.dropWhile_cons_of_pos hc]
      · rw [lstrip, List.dropWhile_cons_of_neg hc]
  have hback (t : Text) : words (rstrip t) = words t := by
    induction t using List.reverseRecOn with
    | nil => rfl
    | append_singleton t c ih =>
      by_cases hc : isSpace c = true
      · rw [words_append_space hc, ← ih, rstrip_eq, rstrip_eq, List.rdropWhile_concat_pos _ _ _ hc]
      · rw [rstrip_eq, List.rdropWhile_concat_neg _ _ _ hc]
  rw [Text.strip, hback, hfront]

/-- A template without digits is the text itself. -/
theorem shaped_literal {digit : Char → Bool} {pattern t rest : Text} (hd : '0' ∉ pattern) :
    shaped digit pattern t = some rest ↔ t = pattern ++ rest := by
  induction pattern generalizing t with
  | nil => simp [shaped]
  | cons c cs ih =>
    obtain ⟨hc, hcs⟩ := not_or.1 (fun h => hd (List.mem_cons.2 h))
    cases t with
    | nil => simp [shaped]
    | cons d t =>
      simp only [shaped, fits, Ne.symm hc, if_false, decide_eq_true_eq, List.cons_append, List.cons.injEq]
      split
      · next h => simp [h, ih hcs]
      · next h => simp [Ne.symm h]

theorem shaped_append (digit : Char → Bool) (a b t : Text) :
    shaped digit (a ++ b) t = (shaped digit a t).bind (shaped digit b) := by
  induction a generalizing t with
  | nil => rfl
  | cons c a ih =>
    cases t with
    | nil => rfl
    | cons d t =>
      simp only [List.cons_append, shaped]
      split
      · exact ih t
      · rfl

theorem shaped_split {digit : Char → Bool} {pattern t rest : Text} (h : shaped digit pattern t = some rest) :
    ∃ t', t = t' ++ rest ∧ t'.length = pattern.length ∧ ∀ x, shaped digit pattern (t' ++ x) = some x := by
  induction pattern generalizing t with
  | nil => exact ⟨[], Option.some.inj h, rfl, fun _ => rfl⟩
  | cons c cs ih =>
    cases t with
    | nil => cases h
    | cons d t =>
      simp only [shaped] at h
      split at h
      · next hfits =>
        obtain ⟨t', rfl, hlen, hshaped⟩ := ih h
        exact ⟨d :: t', rfl, by simp [hlen], fun x => by simp [shaped, hfits, hshaped]⟩
      · cases h

theorem shaped_mono {digit digit' : Char → Bool} (hd : ∀ c, digit c = true → digit' c = true) {pattern t rest : Text}
    (h : shaped digit pattern t = some rest) : shaped digit' pattern t = some rest := by
  induction pattern generalizing t with
  | nil => exact h
  | cons c cs ih =>
    cases t with
    | nil => cases h
    | cons d t =>
      simp only [shaped] at h ⊢
      split at h
      · next hfits =>
        have hfits' : fits digit' c d = true := by
          unfold fits at hfits ⊢
          split <;> simp_all
        rw [if_pos hfits', ih h]
      · cases h

theorem digit_decimal (c : Char) (h : c.isDigit = true) : (decimal c).isSome = true := by
  simp only [Char.isDigit, Bool.and_eq_true, decide_eq_true_eq] at h
  have h1 : 0x30 ≤ c.toNat := h.1
  have h2 : c.toNat ≤ 0x39 := h.2
  simp only [decimal, DECIMAL_ZEROS, Option.isSome_map, List.find?_cons]
  rw [decide_eq_true (show 0x30 ≤ c.toNat ∧ c.toNat < 0x30 + 10 by omega)]
  rfl

theorem digit_not_space (c : Char) (h : c.isDigit = true) : isSpace c = false := by
  simp only [Char.isDigit, Bool.and_eq_true, decide_eq_true_eq] at h
  have h1 : 0x30 ≤ c.toNat := h.1
  have h2 : c.toNat ≤ 0x39 := h.2
  have hne (n : Nat) (hn : n < 0x30 ∨ 0x39 < n) : c.toNat ≠ n := by omega
  simp [isSpace, hne]
  omega

/-- A stamped paragraph: the date, and the text below its line. -/
theorem stamped_eq {p content : Text} (h : stamped p = some content) :
    ∃ d date, p = "<!-- ".toList ++ ((d :: date) ++ (" -->".toList ++ '\n' :: content)) ∧ d.isDigit = true ∧ date.length = 15 ∧
      ∀ x, shaped Char.isDigit DATE ((d :: date) ++ x) = some x := by
  unfold stamped at h
  split at h
  · next content' hshaped =>
    obtain rfl := Option.some.inj h
    have hstamp : STAMP = "<!-- ".toList ++ (DATE ++ " -->".toList) := rfl
    rw [hstamp, shaped_append] at hshaped
    obtain ⟨t₁, h₁, hrest⟩ := Option.bind_eq_some_iff.1 hshaped
    rw [shaped_append] at hrest
    obtain ⟨t₂, h₂, h₃⟩ := Option.bind_eq_some_iff.1 hrest
    obtain rfl := (shaped_literal (by decide)).1 h₁
    obtain rfl := (shaped_literal (by decide)).1 h₃
    obtain ⟨ds, rfl, hlen, hdate⟩ := shaped_split h₂
    cases ds with
    | nil => cases hlen
    | cons d date =>
      refine ⟨d, date, rfl, ?_, Nat.succ.inj hlen, hdate⟩
      have hfirst := hdate []
      rw [show DATE = '0' :: DATE.tail from rfl] at hfirst
      simp only [List.cons_append, shaped] at hfirst
      split at hfirst
      · next hfits => exact hfits
      · cases hfirst
  · cases h

/-- Behind the stamp only its line end is left, which stays. -/
theorem toLineEnd_newline {content : Text} (hno : NoBlank ('\n' :: content)) (hsolid : ∃ c ∈ content, isSpace c = false) :
    toLineEnd ('\n' :: content) = some ('\n' :: content) := by
  have hrun : ('\n' :: content).takeWhile isSpace = '\n' :: content.takeWhile isSpace :=
    List.takeWhile_cons_of_pos (by decide)
  have hmem : '\n' ∉ content.takeWhile isSpace := (blankLine_newline content).1 hno.1
  have hne : '\n' :: content.takeWhile isSpace ≠ '\n' :: content := by
    intro heq
    obtain ⟨c, hc, hspace⟩ := hsolid
    have hall := List.takeWhile_eq_self_iff.1 (List.cons.inj heq).2 c hc
    rw [hspace] at hall
    cases hall
  have hlast : toLastNewline ('\n' :: content.takeWhile isSpace) = ['\n'] := by
    unfold toLastNewline
    rw [← List.singleton_append]
    generalize content.takeWhile isSpace = r at hmem
    induction r using List.reverseRecOn with
    | nil => rfl
    | append_singleton r c ih =>
      have hc : c ≠ '\n' := fun h => hmem (h ▸ List.mem_append_right _ List.mem_cons_self)
      rw [← List.append_assoc, List.rdropWhile_concat_pos _ _ _ (by simpa using hc)]
      exact ih fun h => hmem (List.mem_append_left _ h)
  unfold toLineEnd
  rw [hrun]
  simp only [hne, if_false, List.mem_cons_self, if_true, hlast]
  rfl

theorem noteStamp_stamped {p content : Text} (hp : IsParagraph p) (h : stamped p = some content) : noteStamp none p = some 25 := by
  obtain ⟨d, date, rfl, hd, hlen, hdate⟩ := stamped_eq h
  have hsolid : ∃ c ∈ content, isSpace c = false := by
    cases hlast : content.getLast? with
    | none =>
      obtain rfl := List.getLast?_eq_none_iff.1 hlast
      have hnewline : isSpace '\n' = false := hp.last (by simp [List.getLast?_append, List.getLast?_cons])
      exact absurd hnewline (by decide)
    | some c =>
      exact ⟨c, List.mem_of_getLast? hlast, hp.last (by simp [List.getLast?_append, List.getLast?_cons, hlast])⟩
  have hno : NoBlank ('\n' :: content) := by
    have hassoc : "<!-- ".toList ++ ((d :: date) ++ (" -->".toList ++ '\n' :: content)) =
        ("<!-- ".toList ++ ((d :: date) ++ " -->".toList)) ++ '\n' :: content := by simp only [List.append_assoc]
    exact NoBlank.suffix (hassoc ▸ hp.noBlank)
  have hdate' := shaped_mono digit_decimal (hdate (" -->".toList ++ '\n' :: content))
  have hword : ((d :: date) ++ (" -->".toList ++ '\n' :: content)).dropWhile isSpace =
      (d :: date) ++ (" -->".toList ++ '\n' :: content) :=
    List.dropWhile_cons_of_neg (by rw [digit_not_space d hd]; decide)
  have hopen : shaped (fun _ => false) "<!--".toList ("<!-- ".toList ++ ((d :: date) ++ (" -->".toList ++ '\n' :: content))) =
      some (' ' :: ((d :: date) ++ (" -->".toList ++ '\n' :: content))) := (shaped_literal (by decide)).2 rfl
  have hclose : shaped (fun _ => false) "-->".toList ("-->".toList ++ '\n' :: content) = some ('\n' :: content) :=
    (shaped_literal (by decide)).2 rfl
  have hlength : ("<!-- ".toList ++ ((d :: date) ++ (" -->".toList ++ '\n' :: content))).length - ('\n' :: content).length = 25 := by
    simp [hlen]
    omega
  have hspace : (' ' :: ((d :: date) ++ (" -->".toList ++ '\n' :: content))).dropWhile isSpace =
      (d :: date) ++ (" -->".toList ++ '\n' :: content) := (List.dropWhile_cons_of_pos (by decide)).trans hword
  have hfront : ("<!-- ".toList ++ ((d :: date) ++ (" -->".toList ++ '\n' :: content))).dropWhile isSpace =
      "<!-- ".toList ++ ((d :: date) ++ (" -->".toList ++ '\n' :: content)) := rfl
  have hback : (" -->".toList ++ '\n' :: content).dropWhile isSpace = "-->".toList ++ '\n' :: content := rfl
  unfold noteStamp
  rw [if_pos (.inl rfl), hfront, hopen]
  simp only [Option.bind_eq_bind, Option.bind_some, hspace, hdate', hback, hclose, toLineEnd_newline hno hsolid, hlength]
  rfl

/-- After a match the scan goes on behind it. -/
theorem dropStampsFrom_skip (a : Text) (before : Option Char) (c : Char) (t : Text) :
    dropStampsFrom (a.length + 1) before (a ++ c :: t) = dropStampsFrom 0 (some c) t := by
  induction a generalizing before with
  | nil => rfl
  | cons d a ih => exact ih (some d)

/-- The start of a text is the start of a line. -/
theorem dropStampsFrom_newline (t : Text) : dropStampsFrom 0 (some '\n') t = dropStamps t := by
  cases t with
  | nil => rfl
  | cons c t => rfl

/-- The words of a stamped paragraph are those of its text, when no stamp is in that. -/
theorem fold_stamped {p content : Text} (hp : IsParagraph p) (h : stamped p = some content) (hno : dropStamps content = content) :
    fold casefold (noteBody p) = fold casefold content := by
  have hstamp := noteStamp_stamped hp h
  obtain ⟨d, date, rfl, -, hlen, -⟩ := stamped_eq h
  have hbody : dropStamps ("<!-- ".toList ++ ((d :: date) ++ (" -->".toList ++ '\n' :: content))) = '\n' :: content := by
    have hlist : "<!-- ".toList ++ ((d :: date) ++ (" -->".toList ++ '\n' :: content)) =
        '<' :: (("!-- ".toList ++ ((d :: date) ++ " --".toList)) ++ '>' :: '\n' :: content) := by simp
    rw [hlist] at hstamp ⊢
    show (match noteStamp none _ with
      | some n => dropStampsFrom (n - 1) (some '<') _
      | none => _) = _
    rw [hstamp]
    have hskip : 25 - 1 = ("!-- ".toList ++ ((d :: date) ++ " --".toList)).length + 1 := by simp [hlen]
    dsimp only
    rw [hskip, dropStampsFrom_skip]
    show '\n' :: dropStampsFrom 0 (some '\n') content = _
    rw [dropStampsFrom_newline, hno]
  rw [fold, fold, noteBody, hbody, words_strip, words_cons_space (by decide)]

/-! ## Exactly when -/

/-- Of the paragraphs that are no retired note themselves, none make up a note that is: of several
paragraphs, or with another stamp in its text. -/
def NotesWhole (casefold : Text → Text) (memoryMd : Text) (states : List (String × Text)) : Prop :=
  ∀ ps ∈ outsideParagraphs memoryMd, ∀ content rest,
    Note (ps.filter fun c => !retiredNote casefold (retired casefold states) c) content rest →
      rest ≠ [] ∨ dropStamps content ≠ content →
        fold casefold (join ['\n', '\n'] (content :: rest)) ∉ retired casefold states

/-- No paragraph that is the text of an active item has a long retired text in it. -/
def ActiveApart (casefold : Text → Text) (memoryMd : Text) (states : List (String × Text)) : Prop :=
  ∀ ps ∈ outsideParagraphs memoryMd, ∀ c ∈ ps, fold casefold (noteBody c) ∈ active casefold states →
    ∀ text ∈ retired casefold states, LONG_TEXT ≤ text.length → ¬ text <:+: fold casefold (noteBody c)

theorem retiredNote_iff {retired : List Text} {c : Text} :
    retiredNote casefold retired c = true ↔ fold casefold (noteBody c) ∈ retired ∨
      ∃ text ∈ retired, LONG_TEXT ≤ text.length ∧ text <:+: fold casefold (noteBody c) := by
  have hcontains (t text : Text) : t.contains text = true ↔ text <:+: t := by
    rw [contains, ← Option.ne_none_iff_isSome, ne_eq, find_eq_none, not_not]
  simp [retiredNote, hcontains]

theorem mem_retired {text : Text} (h : text ∈ retired casefold states) :
    text ∉ active casefold states ∧ text ≠ [] ∧ ∃ s ∈ states, fold casefold s.2 = text := by
  obtain ⟨hmem, hcond⟩ := List.mem_filter.1 h
  obtain ⟨s, hs, rfl⟩ := List.mem_map.1 hmem
  obtain ⟨hactive, hne⟩ := of_decide_eq_true hcond
  exact ⟨hactive, hne, s, (List.mem_filter.1 hs).1, rfl⟩

/-- What a filter takes is left in all parts when it is no retired note. -/
theorem filter_kept {α : Type} {parts : List (List α)} {f k : α → Bool} :
    (parts.map (·.filter k)).map (·.filter f) = parts.map (·.filter f) ↔ ∀ ps ∈ parts, ∀ c ∈ ps, f c = true → k c = true := by
  rw [List.map_map, List.map_inj_left]
  refine forall₂_congr fun ps _ => ?_
  rw [Function.comp_apply, List.filter_filter]
  constructor
  · intro h c hc hf
    have hmem : c ∈ ps.filter f := List.mem_filter.2 ⟨hc, hf⟩
    rw [← h] at hmem
    exact (Bool.and_eq_true_iff.1 (List.mem_filter.1 hmem).2).2
  · intro h
    refine List.filter_congr fun c hc => ?_
    cases hf : f c with
    | false => rfl
    | true => rw [h c hc hf]; rfl

/-- A paragraph that mentions no governed text is no retired note. -/
theorem not_retired_of_unmentioned {c : Text} (h : Unmentioned casefold states c) :
    retiredNote casefold (retired casefold states) c = false := by
  rw [← Bool.not_eq_true, retiredNote_iff]
  rintro (hbody | ⟨text, htext, -, hin⟩)
  · obtain ⟨-, hne, s, hs, heq⟩ := mem_retired hbody
    exact h s hs (heq ▸ hne) (heq ▸ List.infix_rfl)
  · obtain ⟨-, hne, s, hs, rfl⟩ := mem_retired htext
    exact h s hs hne hin

/-- A note of one paragraph, with no other stamp in its text, is left only if it is not retired. -/
theorem single_kept {t content : Text} {ps : List Text} (hmem : ps ∈ outsideParagraphs t)
    (hnote : Note (ps.filter fun c => !retiredNote casefold (retired casefold states) c) content [])
    (hno : dropStamps content = content) : fold casefold (join ['\n', '\n'] [content]) ∉ retired casefold states := by
  intro hretired
  obtain ⟨front, c, back, hps, hstamped⟩ := hnote
  have hc : c ∈ ps.filter fun c => !retiredNote casefold (retired casefold states) c := by
    rw [hps]
    exact List.mem_append_right _ List.mem_cons_self
  obtain ⟨hin, hkept⟩ := List.mem_filter.1 hc
  obtain ⟨part, -, rfl⟩ := List.mem_map.1 hmem
  have hbody : fold casefold (noteBody c) = fold casefold content := fold_stamped (isParagraph_of_mem hin) hstamped hno
  have hrn : retiredNote casefold (retired casefold states) c = true := by
    rw [retiredNote_iff, hbody]
    exact .inl (by simpa [join] using hretired)
  rw [hrn] at hkept
  cases hkept

theorem withholds_iff (casefold : Text → Text) (memoryMd : Text) (states : List (String × Text)) :
    Withholds casefold memoryMd states (withholdRetiredNotes casefold memoryMd states) ↔
      NotesWhole casefold memoryMd states ∧ ActiveApart casefold memoryMd states := by
  have hout := outsideParagraphs_withhold casefold memoryMd states
  have hactive : (∀ ps ∈ outsideParagraphs memoryMd, ∀ c ∈ ps, decide (fold casefold (noteBody c) ∈ active casefold states) = true →
      (!retiredNote casefold (retired casefold states) c) = true) ↔ ActiveApart casefold memoryMd states := by
    refine forall₂_congr fun ps _ => forall₂_congr fun c _ => ?_
    rw [decide_eq_true_eq]
    refine forall_congr' fun hc => ?_
    have hno : fold casefold (noteBody c) ∉ retired casefold states := fun h => (mem_retired h).1 hc
    rw [Bool.not_eq_true', ← Bool.not_eq_true, retiredNote_iff]
    simp only [hno, false_or, not_exists, not_and]
  constructor
  · intro h
    refine ⟨?_, hactive.1 (filter_kept.1 (hout ▸ h.active))⟩
    intro ps hps content rest hnote _
    refine h.retired _ ?_ content rest hnote
    rw [hout]
    exact List.mem_map_of_mem hps
  · rintro ⟨hwhole, hapart⟩
    refine ⟨?_, ?_, ?_, regionText_withhold casefold memoryMd states⟩
    · intro ps hps content rest hnote
      rw [hout] at hps
      obtain ⟨qs, hqs, rfl⟩ := List.mem_map.1 hps
      by_cases hsplit : rest ≠ [] ∨ dropStamps content ≠ content
      · exact hwhole qs hqs content rest hnote hsplit
      · rw [not_or, not_not, not_not] at hsplit
        obtain ⟨rfl, hno⟩ := hsplit
        exact single_kept hqs hnote hno
    · rw [hout]
      exact filter_kept.2 (hactive.2 hapart)
    · rw [hout]
      refine filter_kept.2 fun ps _ c _ hc => ?_
      rw [not_retired_of_unmentioned (of_decide_eq_true hc)]
      rfl

namespace Sample

/-- `str.casefold`, of ASCII letters. -/
def lower (t : Text) : Text := t.map Char.toLower

def note : Text := "<!-- 2026-10-04 15:14 -->\nLikes tea.\n\nAnd cake.".toList

/-- A retired note of two paragraphs is in neither of them, and stays. -/
theorem several_paragraphs :
    let states := [("rejected", "Likes tea.\n\nAnd cake.".toList)]
    withholdRetiredNotes lower note states = note ∧
      ¬ Withholds lower note states (withholdRetiredNotes lower note states) := by
  intro states
  have hsame : withholdRetiredNotes lower note states = note := by decide +kernel
  refine ⟨hsame, fun h => ?_⟩
  rw [hsame] at h
  have hnote : Note (paragraphs note) "Likes tea.".toList ["And cake.".toList] :=
    ⟨[], "<!-- 2026-10-04 15:14 -->\nLikes tea.".toList, [], by decide +kernel, by decide +kernel⟩
  exact h.retired (paragraphs note) (by decide +kernel) _ _ hnote (by decide +kernel)

end Sample

end Flowly.Memory.Withheld
