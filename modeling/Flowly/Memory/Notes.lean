/-
  Flowly.Memory.Notes — the owner's notes and the generated block stay apart in MEMORY.md,
  on the runs where they do.

  Proved, over every run of regenerations and saves whose steps are `Sound`, whatever the
  file was, the governed items and the summaries:
  - `Apart.notes`: the manual content is what the owner saved last, or what was there at
    the beginning, up to blank lines at its edges;
  - `Apart.block`: what is not manual content is exactly the block that was rendered last,
    so nothing of an earlier one is left.

  A step that is not sound breaks one of them: `governed_text_becomes_a_note`.
-/

import Flowly.Lib.Reach
import Flowly.Memory.Summary

namespace Flowly.Memory.Summary

open Flowly.Lib Flowly.Lib.Text

variable {ρ : Type}

/-- Notes and block are where they belong. -/
structure Apart (lower : String → String) (w : World) : Prop where
  notes : trimLines (extractManualContent w.text) = trimLines w.notes
  block : regionText w.text = w.block.map (Block.text lower)

/-! ## The condition on a step -/

def Item.IsShown (i : Item) : Prop := i.status = .active ∧ i.kind ∈ KIND_ORDER.map (·.1)

instance (i : Item) : Decidable (Item.IsShown i) := inferInstanceAs (Decidable (_ ∧ _))

/-- No line of the text but the first is the heading of the graph. -/
def Unheaded (text : Text) : Prop := KG_HEADING ∉ (lines (universal (Text.strip text))).tail

instance (text : Text) : Decidable (Unheaded text) := inferInstanceAs (Decidable (¬_))

/-- The summary of the graph can be told from the items of the block. -/
def Block.Headed : Block → Prop
  | found _ => True
  | rendered items _ => ∀ i ∈ items, Item.IsShown i → Unheaded i.text.toList

/-- The condition on a step. -/
def Sound (env : Env ρ) (w : World) : Step ρ → Prop
  | .regenerate gov kgSummary =>
    -- the notes hold no start marker without an end marker, and no carriage return
    ((findRegion w.text).isNone → find SENTINEL_START w.text = none) ∧ '\r' ∉ extractManualContent w.text ∧
      -- no text that is shown holds the end marker
      (∀ i ∈ shown env (universal w.text) gov, Item.IsShown i → find SENTINEL_END (Text.strip i.text.toList) = none) ∧
      (∀ kg, kgSummary = some kg → find SENTINEL_END kg = none) ∧
      (kgSummary = none → ∀ b, w.block = some b → b.Headed)
  -- beside a block, white space goes from the end of the notes in blank lines only
  | .save text _ => (generatedIn w.text).isSome → trimLines (rstrip text) = trimLines text

/-! ## The markers -/

theorem start_marker : Marker SENTINEL_START := by decide

theorem end_marker : Marker SENTINEL_END := by decide

theorem newline_not_mem_start : '\n' ∉ SENTINEL_START := by decide

theorem newline_not_mem_end : '\n' ∉ SENTINEL_END := by decide

/-! ## Where the region is -/

/-- A text with a region: what stands before it, between the markers and after it. -/
structure Cut (t x body y : Text) : Prop where
  eq : t = x ++ (SENTINEL_START ++ (body ++ (SENTINEL_END ++ y)))
  before : ¬SENTINEL_START <:+: x
  inside : ¬SENTINEL_END <:+: body

variable {t x body y : Text}

theorem Cut.findRegion (h : Cut t x body y) :
    findRegion t = some (x.length, x.length + SENTINEL_START.length + body.length + SENTINEL_END.length) := by
  unfold Summary.findRegion findFrom
  rw [h.eq, start_marker.find_append h.before]
  dsimp only
  have hdrop : (x ++ (SENTINEL_START ++ (body ++ (SENTINEL_END ++ y)))).drop (x.length + SENTINEL_START.length) =
      body ++ (SENTINEL_END ++ y) := by
    rw [← List.append_assoc, ← List.length_append, List.drop_left]
  rw [hdrop, end_marker.find_append h.inside]
  simp only [Option.map_some]
  congr 2
  omega

theorem exists_cut {r : Nat × Nat} (h : Summary.findRegion t = some r) : ∃ x body y, Cut t x body y := by
  unfold Summary.findRegion at h
  cases hs : find SENTINEL_START t with
  | none =>
    rw [hs] at h
    cases h
  | some start =>
    rw [hs] at h
    dsimp only at h
    obtain ⟨x, rest, rfl, rfl, hx⟩ := start_marker.find_some_iff.1 hs
    unfold findFrom at h
    rw [← List.append_assoc, ← List.length_append, List.drop_left] at h
    cases he : find SENTINEL_END rest with
    | none =>
      rw [he] at h
      cases h
    | some stop =>
      obtain ⟨body, y, rfl, -, hbody⟩ := end_marker.find_some_iff.1 he
      exact ⟨x, body, y, rfl, hx, hbody⟩

def regionOf (body : Text) : Text := SENTINEL_START ++ (body ++ SENTINEL_END)

theorem Cut.eq_region (h : Cut t x body y) : t = x ++ (regionOf body ++ y) := by
  rw [h.eq]
  unfold regionOf
  simp only [List.append_assoc]

theorem cut_region (hx : ¬SENTINEL_START <:+: x) (hbody : ¬SENTINEL_END <:+: body) (y : Text) :
    Cut (x ++ (regionOf body ++ y)) x body y := by
  refine ⟨?_, hx, hbody⟩
  unfold regionOf
  simp only [List.append_assoc]

theorem Cut.take (h : Cut t x body y) : t.take x.length = x := by
  rw [h.eq, List.take_left]

theorem Cut.drop (h : Cut t x body y) :
    t.drop (x.length + SENTINEL_START.length + body.length + SENTINEL_END.length) = y := by
  have hlen : x.length + SENTINEL_START.length + body.length + SENTINEL_END.length = (x ++ regionOf body).length := by
    unfold regionOf
    simp only [List.length_append]
    omega
  rw [h.eq_region, hlen, ← List.append_assoc, List.drop_left]

theorem Cut.regionText (h : Cut t x body y) : regionText t = some (regionOf body) := by
  have hlen : x.length + SENTINEL_START.length + body.length + SENTINEL_END.length = (x ++ regionOf body).length := by
    unfold regionOf
    simp only [List.length_append]
    omega
  unfold Summary.regionText slice
  rw [h.findRegion]
  simp only [Option.map_some]
  rw [hlen, h.eq_region, ← List.append_assoc, List.take_left, List.drop_left]

/-- The two parts of the manual content. -/
def joined (before after : Text) : Text :=
  if before ≠ [] ∧ after ≠ [] then before ++ ['\n', '\n'] ++ after
  else if before ≠ [] then before
  else after

theorem Cut.extract (h : Cut t x body y) : extractManualContent t = joined (rstripNewlines x) (lstripNewlines y) := by
  unfold extractManualContent joined
  rw [h.findRegion]
  dsimp only
  rw [h.take, h.drop]

theorem Cut.splice (h : Cut t x body y) (block : Text) : spliceGeneratedBlock t block = x ++ block ++ y := by
  unfold spliceGeneratedBlock
  rw [h.findRegion]
  dsimp only
  rw [h.take, h.drop]

theorem extract_of_none (h : Summary.findRegion t = none) : extractManualContent t = t := by
  unfold extractManualContent
  rw [h]

theorem regionText_of_none (h : Summary.findRegion t = none) : regionText t = none := by
  unfold regionText
  rw [h]
  rfl

theorem findRegion_of_no_start (h : ¬SENTINEL_START <:+: t) : Summary.findRegion t = none := by
  unfold Summary.findRegion
  rw [find_eq_none.2 h]

/-- What follows a marker and starts with the other one. -/
theorem start_prefix {w v : Text} (h : SENTINEL_START <+: w ++ (SENTINEL_END ++ v)) : SENTINEL_START <+: w := by
  cases w with
  | nil =>
    have hend : SENTINEL_END <+: SENTINEL_START :=
      List.prefix_of_prefix_length_le (List.prefix_append _ v) h (by decide)
    exact absurd hend (by decide)
  | cons d w =>
    rcases List.prefix_cons_iff.1 h with hnil | ⟨r, hr, hpre⟩
    · exact absurd hnil (by decide)
    · have hc : '<' ∉ r := by
        rw [← (List.cons.inj hr).2]
        decide
      exact List.prefix_cons_iff.2 (.inr ⟨r, hr, prefix_of_not_mem hc hpre⟩)

/-- What the editor takes for the generated part is the region. -/
theorem cut_of_generatedIn {r : Nat × Nat} (h : generatedIn t = some r) :
    ∃ x body y, Cut t x body y ∧ slice t r.1 r.2 = regionOf body := by
  unfold generatedIn at h
  cases hs : find SENTINEL_START t with
  | none =>
    rw [hs] at h
    cases h
  | some start =>
    cases he : find SENTINEL_END t with
    | none =>
      rw [hs, he] at h
      cases h
    | some stop =>
      rw [hs, he] at h
      dsimp only at h
      split_ifs at h with hle
      obtain rfl := Option.some.inj h
      obtain ⟨x, rest, hx, rfl, hbefore⟩ := start_marker.find_some_iff.1 hs
      obtain ⟨u, v, hu, rfl, hno⟩ := end_marker.find_some_iff.1 he
      have hpre : x <+: u := List.prefix_of_prefix_length_le (hx ▸ List.prefix_append _ _) (hu ▸ List.prefix_append _ _) hle
      obtain ⟨w, rfl⟩ := hpre
      have hrest : SENTINEL_START ++ rest = w ++ (SENTINEL_END ++ v) := by
        rw [hx, List.append_assoc] at hu
        exact List.append_cancel_left hu
      obtain ⟨body, rfl⟩ := start_prefix (hrest ▸ List.prefix_append _ _)
      have hcut : Cut t x body v := by
        refine ⟨?_, hbefore, fun hin => hno ?_⟩
        · rw [hu]
          simp only [List.append_assoc]
        · exact hin.trans ((List.suffix_append _ _).trans (List.suffix_append _ _)).isInfix
      refine ⟨x, body, v, hcut, ?_⟩
      have hregion := hcut.regionText
      unfold regionText at hregion
      rw [hcut.findRegion] at hregion
      have hlen : (x ++ (SENTINEL_START ++ body)).length = x.length + SENTINEL_START.length + body.length := by
        simp only [List.length_append]
        omega
      rw [hlen]
      exact Option.some.inj hregion

/-- A text has one region. -/
theorem Cut.unique {x' body' y' : Text} (h : Cut t x body y) (h' : Cut t x' body' y') : regionOf body = regionOf body' :=
  Option.some.inj (h.regionText.symm.trans h'.regionText)

/-! ## What is rendered -/

def bodyText (lower : String → String) (items : List Item) (kg : Text) : Text :=
  '\n' :: (join ['\n'] (bodyLines lower items kg) ++ ['\n'])

theorem bodyLines_ne_nil (lower : String → String) (items : List Item) (kg : Text) : bodyLines lower items kg ≠ [] := by
  unfold bodyLines
  exact List.append_ne_nil_of_right_ne_nil _ (List.cons_ne_nil _ _)

theorem render_eq (lower : String → String) (items : List Item) (kg : Text) :
    renderGeneratedBlock lower items kg = regionOf (bodyText lower items kg) := by
  unfold renderGeneratedBlock regionOf bodyText
  rw [List.append_assoc, join_append (List.cons_ne_nil _ _) (by simp), join_append (bodyLines_ne_nil lower items kg) (by simp)]
  simp [join]

variable {items : List Item}

/-- The items of a group are items of the list that a block shows. -/
theorem mem_group {lower : String → String} {kind : String} {i : Item} (h : i ∈ group lower items kind) :
    i ∈ items ∧ i.status = .active ∧ i.kind = kind := by
  unfold group at h
  rw [List.mem_insertionSort, List.mem_filter, Bool.and_eq_true, decide_eq_true_eq, decide_eq_true_eq] at h
  exact h

/-- A line of the items is empty, a heading or an item. -/
theorem mem_itemLines {lower : String → String} {l : Text} (h : l ∈ itemLines lower items) :
    l = [] ∨ (∃ kind ∈ KIND_ORDER, l = headingLine kind) ∨ ∃ i ∈ items, Item.IsShown i ∧ l = itemLine i := by
  obtain ⟨kind, hkind, hl⟩ := List.mem_flatMap.1 h
  unfold kindLines at hl
  split at hl
  · cases hl
  · rcases List.mem_cons.1 hl with rfl | hl
    · exact .inl rfl
    · rcases List.mem_cons.1 hl with rfl | hl
      · exact .inr (.inl ⟨kind, hkind, rfl⟩)
      · obtain ⟨i, hi, rfl⟩ := List.mem_map.1 hl
        obtain ⟨hin, hactive, hk⟩ := mem_group hi
        exact .inr (.inr ⟨i, hin, ⟨hactive, hk ▸ List.mem_map.2 ⟨kind, hkind, rfl⟩⟩, rfl⟩)

def fixedLines : List Text := [EDIT_WARNING, [], TITLE] ++ ([[], NO_MEMORY] ++ [[]])

/-- A line between the markers is a fixed one, a line of the items or of the graph. -/
theorem mem_bodyLines {lower : String → String} {kg l : Text} (h : l ∈ bodyLines lower items kg) :
    l ∈ fixedLines ∨ l ∈ itemLines lower items ∨ l ∈ kgLines kg := by
  unfold bodyLines at h
  rcases List.mem_append.1 h with h | h
  · rcases List.mem_append.1 h with h | h
    · rcases List.mem_append.1 h with h | h
      · rcases List.mem_append.1 h with h | h
        · exact .inl (List.mem_append_left _ h)
        · exact .inr (.inl h)
      · exact .inr (.inr h)
    · by_cases hnone : itemLines lower items ++ kgLines kg = []
      · rw [if_pos hnone] at h
        exact .inl (List.mem_append_right _ (List.mem_append_left _ h))
      · rw [if_neg hnone] at h
        cases h
  · exact .inl (List.mem_append_right _ (List.mem_append_right _ h))

theorem itemLine_no_end {i : Item} (h : find SENTINEL_END (Text.strip i.text.toList) = none) : ¬SENTINEL_END <:+: itemLine i := by
  intro hin
  exact find_eq_none.1 h (infix_of_cons (by decide) (by decide) (infix_of_cons (by decide) (by decide) hin))

theorem fixedLines_no_end (l : Text) (h : l ∈ fixedLines) : ¬SENTINEL_END <:+: l :=
  find_eq_none.1 ((by decide +kernel : ∀ l ∈ fixedLines, find SENTINEL_END l = none) l h)

theorem headingLine_no_end (kind : String × String) (h : kind ∈ KIND_ORDER) : ¬SENTINEL_END <:+: headingLine kind :=
  find_eq_none.1 ((by decide +kernel : ∀ kind ∈ KIND_ORDER, find SENTINEL_END (headingLine kind) = none) kind h)

theorem strip_within (t : Text) : Text.strip t <:+: t :=
  ((List.rdropWhile_prefix _ _).isInfix).trans (List.dropWhile_suffix _).isInfix

/-- Nothing between the markers is the end marker, when no text that is shown holds it. -/
theorem bodyText_no_end {lower : String → String} {kg : Text}
    (hitems : ∀ i ∈ items, Item.IsShown i → find SENTINEL_END (Text.strip i.text.toList) = none) (hkg : find SENTINEL_END kg = none) :
    ¬SENTINEL_END <:+: bodyText lower items kg := by
  have hlines : ∀ l ∈ bodyLines lower items kg, ¬SENTINEL_END <:+: l := by
    intro l hl
    rcases mem_bodyLines hl with hl | hl | hl
    · exact fixedLines_no_end l hl
    · rcases mem_itemLines hl with rfl | ⟨kind, hkind, rfl⟩ | ⟨i, hi, hshown, rfl⟩
      · decide
      · exact headingLine_no_end kind hkind
      · exact itemLine_no_end (hitems i hi hshown)
    · unfold kgLines at hl
      split_ifs at hl
      · rcases List.mem_cons.1 hl with rfl | hl
        · decide
        · rcases List.mem_cons.1 hl with rfl | hl
          · decide
          · rw [List.mem_singleton.1 hl]
            exact fun hin => find_eq_none.1 hkg (hin.trans (strip_within kg))
      · cases hl
  intro hin
  have hin' := infix_of_cons (by decide) (by decide) hin
  rcases (infix_append_cons newline_not_mem_end).1 hin' with hin' | hin'
  · obtain ⟨l, hl, hbad⟩ := (infix_join (by decide) newline_not_mem_end).1 hin'
    exact hlines l hl hbad
  · exact absurd hin' (by decide)

/-! ## The summary of the graph that a block shows -/

/-- A line that ends in no carriage return and has no line that is the heading. -/
structure Plain (l : Text) : Prop where
  last : l.getLast? ≠ some '\r'
  heading : KG_HEADING ∉ lines (universal l)

/-- Lines are told apart by their equality test. -/
local instance lawful_line : LawfulBEq Text := inferInstanceAs (LawfulBEq (List Char))

instance (l : Text) : Decidable (Plain l) :=
  decidable_of_iff (l.getLast? ≠ some '\r' ∧ KG_HEADING ∉ lines (universal l)) ⟨fun h => ⟨h.1, h.2⟩, fun h => ⟨h.1, h.2⟩⟩

theorem strip_last (t : Text) : (Text.strip t).getLast? ≠ some '\r' := by
  intro h
  have := getLast?_strip h
  exact absurd this (by decide)

theorem itemLine_plain {i : Item} (h : Unheaded i.text.toList) : Plain (itemLine i) := by
  have hline : itemLine i = '-' :: ' ' :: Text.strip i.text.toList := rfl
  rw [hline]
  constructor
  · have hlast := strip_last i.text.toList
    cases hs : Text.strip i.text.toList with
    | nil => decide
    | cons c s =>
      rw [hs] at hlast
      exact hlast
  · rw [universal_cons (by decide), universal_cons (by decide)]
    obtain ⟨l, ls, hl, hcons⟩ := lines_cons (by decide : ' ' ≠ '\n') (universal (Text.strip i.text.toList))
    obtain ⟨l', ls', hl', hcons'⟩ := lines_cons (by decide : '-' ≠ '\n') (' ' :: universal (Text.strip i.text.toList))
    rw [hcons] at hl'
    obtain ⟨rfl, rfl⟩ := List.cons.inj hl'
    rw [hcons']
    intro hin
    rcases List.mem_cons.1 hin with heq | hin
    · have hhead : KG_HEADING.head? = some '#' := by decide
      rw [heq] at hhead
      exact absurd (Option.some.inj hhead) (by decide)
    · refine h ?_
      rw [hl]
      exact hin

theorem fixedLines_plain : ∀ l ∈ fixedLines, Plain l := by decide +kernel

theorem headingLine_plain : ∀ kind ∈ KIND_ORDER, Plain (headingLine kind) := by decide +kernel

theorem itemLines_plain {lower : String → String} (h : ∀ i ∈ items, Item.IsShown i → Unheaded i.text.toList)
    (l : Text) (hl : l ∈ itemLines lower items) : Plain l := by
  rcases mem_itemLines hl with rfl | ⟨kind, hkind, rfl⟩ | ⟨i, hi, hshown, rfl⟩
  · decide
  · exact headingLine_plain kind hkind
  · exact itemLine_plain (h i hi hshown)

/-- The lines of a block as it is read, where each of its lines is plain. -/
theorem universal_lines {ls : List Text} (hne : ls ≠ []) (h : ∀ l ∈ ls, Plain l) :
    universal (join ['\n'] ls) = join ['\n'] (ls.map universal) ∧ KG_HEADING ∉ lines (join ['\n'] (ls.map universal)) := by
  refine ⟨universal_join fun l hl => (h l hl).last, ?_⟩
  rw [lines_join (by simpa using hne)]
  intro hin
  obtain ⟨l, hl, hin⟩ := List.mem_flatMap.1 hin
  obtain ⟨l₀, hl₀, rfl⟩ := List.mem_map.1 hl
  exact (h l₀ hl₀).heading hin

def upperLines (lower : String → String) (items : List Item) : List Text :=
  [SENTINEL_START] ++ ([EDIT_WARNING, [], TITLE] ++ itemLines lower items)

theorem upperLines_plain {lower : String → String}
    (h : ∀ i ∈ items, Item.IsShown i → Unheaded i.text.toList) (l : Text) (hl : l ∈ upperLines lower items) : Plain l := by
  unfold upperLines at hl
  rcases List.mem_append.1 hl with hl | hl
  · rw [List.mem_singleton.1 hl]
    decide +kernel
  · rcases List.mem_append.1 hl with hl | hl
    · exact fixedLines_plain l (List.mem_append_left _ hl)
    · exact itemLines_plain h l hl

theorem render_without (lower : String → String) (items : List Item) {kg : Text} (hkg : hasText kg = false) :
    ∃ ls, (∀ l ∈ ls, l ∈ fixedLines) ∧ renderGeneratedBlock lower items kg = join ['\n'] (upperLines lower items ++ (ls ++ [SENTINEL_END])) := by
  refine ⟨(if itemLines lower items ++ kgLines kg = [] then [[], NO_MEMORY] else []) ++ [[]], ?_, ?_⟩
  · intro l hl
    rcases List.mem_append.1 hl with hl | hl
    · by_cases hnone : itemLines lower items ++ kgLines kg = []
      · rw [if_pos hnone] at hl
        exact List.mem_append_right _ (List.mem_append_left _ hl)
      · rw [if_neg hnone] at hl
        cases hl
    · exact List.mem_append_right _ (List.mem_append_right _ hl)
  · have hno : kgLines kg = [] := by
      unfold kgLines
      rw [if_neg (by rw [hkg]; decide)]
    unfold renderGeneratedBlock bodyLines upperLines
    rw [hno]
    simp only [List.append_assoc, List.append_nil]

theorem render_with (lower : String → String) (items : List Item) {kg : Text} (hkg : hasText kg = true) :
    renderGeneratedBlock lower items kg =
      join ['\n'] (upperLines lower items ++ ([[]] ++ ([KG_HEADING] ++ ([Text.strip kg] ++ ([[]] ++ [SENTINEL_END]))))) := by
  have hlines : kgLines kg = [[], KG_HEADING, Text.strip kg] := by
    unfold kgLines
    rw [if_pos hkg]
  unfold renderGeneratedBlock bodyLines upperLines
  rw [hlines, if_neg (by simp)]
  simp only [List.append_assoc, List.append_nil, List.cons_append, List.nil_append]

theorem newline_not_mem_heading : '\n' ∉ KG_HEADING := by decide

/-- The summary is read back from the block, when it can be told from the items. -/
theorem summaryOf_render {lower : String → String} {kg : Text}
    (hitems : ∀ i ∈ items, Item.IsShown i → Unheaded i.text.toList) (hkg : find SENTINEL_END kg = none) :
    summaryOf (universal (renderGeneratedBlock lower items kg)) = universal (Text.strip kg) := by
  have hupper : upperLines lower items ≠ [] := List.cons_ne_nil _ _
  have hmarker : Plain SENTINEL_END := by decide +kernel
  cases htext : hasText kg with
  | false =>
    obtain ⟨ls, hls, hrender⟩ := render_without lower items htext
    have hplain : ∀ l ∈ upperLines lower items ++ (ls ++ [SENTINEL_END]), Plain l := by
      intro l hl
      rcases List.mem_append.1 hl with hl | hl
      · exact upperLines_plain hitems l hl
      · rcases List.mem_append.1 hl with hl | hl
        · exact fixedLines_plain l (hls l hl)
        · rw [List.mem_singleton.1 hl]
          exact hmarker
    obtain ⟨hread, hno⟩ := universal_lines (List.append_ne_nil_of_left_ne_nil hupper _) hplain
    have hnil : Text.strip kg = [] := by
      unfold hasText at htext
      simpa using htext
    unfold summaryOf
    rw [hrender, hread, show ['\n'] ++ KG_HEADING ++ ['\n'] = '\n' :: (KG_HEADING ++ ['\n']) from rfl,
      no_line newline_not_mem_heading fun hin => hno (List.mem_of_mem_tail hin), hnil]
    rfl
  | true =>
    have hrender := render_with lower items htext
    have hplain : ∀ l ∈ upperLines lower items ++ [[]], Plain l := by
      intro l hl
      rcases List.mem_append.1 hl with hl | hl
      · exact upperLines_plain hitems l hl
      · rw [List.mem_singleton.1 hl]
        decide
    obtain ⟨hread, hno⟩ := universal_lines (List.append_ne_nil_of_left_ne_nil hupper _) hplain
    obtain ⟨hhead, hlast⟩ : (∀ c, (universal (Text.strip kg)).head? = some c → isSpace c = false) ∧
        ∀ c, (universal (Text.strip kg)).getLast? = some c → isSpace c = false :=
      universal_edges (fun _ hc => head?_strip hc) fun _ hc => getLast?_strip hc
    have hall : universal (renderGeneratedBlock lower items kg) =
        join ['\n'] ((upperLines lower items ++ [[]]).map universal) ++
          ('\n' :: (KG_HEADING ++ ['\n']) ++ (universal (Text.strip kg) ++ ['\n', '\n'] ++ (SENTINEL_END ++ []))) := by
      rw [hrender, ← List.append_assoc, universal_join, List.map_append, join_append]
      · simp only [List.map_append, List.map_cons, List.map_nil]
        rw [show universal KG_HEADING = KG_HEADING from universal_of_not_mem (by decide),
          show universal SENTINEL_END = SENTINEL_END from universal_of_not_mem (by decide), show universal [] = [] from rfl]
        simp [join]
      · simp
      · simp
      · intro l hl
        rcases List.mem_append.1 hl with hl | hl
        · exact (hplain l hl).last
        · simp only [List.mem_append, List.mem_singleton] at hl
          rcases hl with rfl | rfl | rfl | rfl
          · decide
          · exact strip_last kg
          · decide
          · exact hmarker.last
    have hno_end : ¬SENTINEL_END <:+: universal (Text.strip kg) ++ ['\n', '\n'] := by
      intro hin
      rcases (infix_append_cons newline_not_mem_end).1 hin with hin | hin
      · exact find_eq_none.1 hkg ((infix_of_universal newline_not_mem_end hin).trans (strip_within kg))
      · exact absurd hin (by decide)
    unfold summaryOf
    rw [hall, show ['\n'] ++ KG_HEADING ++ ['\n'] = '\n' :: (KG_HEADING ++ ['\n']) from rfl,
      find_line newline_not_mem_heading fun hin => hno (List.mem_of_mem_tail hin)]
    dsimp only
    have hlen (x : Text) : x.length + (KG_HEADING.length + 2) = (x ++ '\n' :: (KG_HEADING ++ ['\n'])).length := by
      simp only [List.length_append, List.length_cons, List.length_nil]
    rw [hlen, ← List.append_assoc (join _ _), List.drop_left, end_marker.find_append hno_end]
    dsimp only
    rw [List.take_left]
    refine strip_append_space hhead hlast fun c hc => ?_
    rw [List.mem_cons, List.mem_singleton, or_self] at hc
    rw [hc]
    decide

theorem summaryOf_no_end (t : Text) : ¬SENTINEL_END <:+: summaryOf t := by
  unfold summaryOf
  split
  · decide
  · dsimp only
    split
    · next hnone => exact fun hin => find_eq_none.1 hnone (hin.trans (strip_within _))
    · next stop hsome =>
      obtain ⟨x, y, heq, rfl, hx⟩ := end_marker.find_some_iff.1 hsome
      rw [heq, List.take_left]
      exact fun hin => hx (hin.trans (strip_within _))

/-! ## The invariant -/

structure Inv (lower : String → String) (w : World) : Prop where
  notes : trimLines (extractManualContent w.text) = trimLines w.notes
  bare : w.block = none → Summary.findRegion w.text = none
  cut : ∀ b, w.block = some b → ∃ x body y, Cut w.text x body y ∧ b.text lower = regionOf body
  summary : ∀ b, w.block = some b → b.Headed → summaryOf (universal (b.text lower)) = b.summary

variable {lower : String → String} {w : World}

theorem Inv.apart (h : Inv lower w) : Apart lower w := by
  refine ⟨h.notes, ?_⟩
  cases hb : w.block with
  | none => exact regionText_of_none (h.bare hb)
  | some b =>
    obtain ⟨x, body, y, hcut, htext⟩ := h.cut b hb
    rw [hcut.regionText, ← htext]
    rfl

theorem Inv.init (lower : String → String) (file : Option Text) : Inv lower (World.init file) := by
  cases hr : Summary.findRegion (file.getD []) with
  | none =>
    have hblock : (World.init file).block = none := by
      unfold World.init
      rw [regionText_of_none hr]
      rfl
    refine ⟨rfl, fun _ => hr, ?_, ?_⟩
    · intro b hb
      rw [hblock] at hb
      cases hb
    · intro b hb
      rw [hblock] at hb
      cases hb
  | some r =>
    obtain ⟨x, body, y, hcut⟩ := exists_cut hr
    have hblock : (World.init file).block = some (.found (regionOf body)) := by
      unfold World.init
      rw [hcut.regionText]
      rfl
    refine ⟨rfl, ?_, ?_, ?_⟩
    · intro hb
      rw [hblock] at hb
      cases hb
    · intro b hb
      rw [hblock] at hb
      obtain rfl := Option.some.inj hb
      exact ⟨x, body, y, hcut, rfl⟩
    · intro b hb _
      rw [hblock] at hb
      obtain rfl := Option.some.inj hb
      rfl

/-! ## A regeneration -/

/-- The region of the text as it is read. -/
theorem Cut.universal (h : Cut t x body y) (hx : '\r' ∉ x) (hy : '\r' ∉ y) : Cut (universal t) x (universal body) y := by
  have hstart : Text.universal SENTINEL_START = SENTINEL_START := universal_of_not_mem (by decide)
  have hend : Text.universal SENTINEL_END = SENTINEL_END := universal_of_not_mem (by decide)
  refine ⟨?_, h.before, fun hin => h.inside (infix_of_universal newline_not_mem_end hin)⟩
  have hnot {c : Option Char} (hc : c = some '<') : c ≠ some '\n' := fun heq => absurd (hc.symm.trans heq) (by decide)
  rw [h.eq, universal_append (.inr (hnot rfl)), universal_append (.inl (by decide)), universal_append (.inr (hnot rfl)),
    universal_append (.inl (by decide)), hstart, hend, universal_of_not_mem hx, universal_of_not_mem hy]

theorem universal_regionOf (body : Text) : Text.universal (regionOf body) = regionOf (Text.universal body) := by
  have hstart : Text.universal SENTINEL_START = SENTINEL_START := universal_of_not_mem (by decide)
  have hend : Text.universal SENTINEL_END = SENTINEL_END := universal_of_not_mem (by decide)
  unfold regionOf
  rw [universal_append (.inl (by decide)), universal_append (.inr (by decide)), hstart, hend]

theorem rstripNewlines_eq (t : Text) : ∃ k, t = rstripNewlines t ++ List.replicate k '\n' := by
  refine ⟨(t.rtakeWhile (· = '\n')).length, ?_⟩
  have hsplit : rstripNewlines t ++ t.rtakeWhile (· = '\n') = t := List.rdropWhile_append_rtakeWhile
  have hrep : t.rtakeWhile (· = '\n') = List.replicate (t.rtakeWhile (· = '\n')).length '\n' :=
    List.eq_replicate_iff.2 ⟨rfl, fun c hc => by simpa using List.mem_rtakeWhile_imp hc⟩
  rw [← hrep, hsplit]

theorem mem_of_mem_joined {before after : Text} {c : Char} (h : c ∈ before ∨ c ∈ after) : c ∈ joined before after := by
  unfold joined
  split_ifs with hboth hbefore
  · rcases h with h | h
    · exact List.mem_append_left _ (List.mem_append_left _ h)
    · exact List.mem_append_right _ h
  · rcases h with h | h
    · exact h
    · refine absurd ⟨hbefore, ?_⟩ hboth
      exact List.ne_nil_of_mem h
  · rcases h with h | h
    · exact absurd (List.ne_nil_of_mem h) hbefore
    · exact h

/-- Around a region that no carriage return is extracted from there is none. -/
theorem Cut.no_return (h : Cut t x body y) (hr : '\r' ∉ extractManualContent t) : '\r' ∉ x ∧ '\r' ∉ y := by
  rw [h.extract] at hr
  constructor
  · intro hin
    obtain ⟨k, hk⟩ := rstripNewlines_eq x
    rw [hk] at hin
    rcases List.mem_append.1 hin with hin | hin
    · exact hr (mem_of_mem_joined (.inl hin))
    · exact absurd (List.eq_of_mem_replicate hin) (by decide)
  · intro hin
    have hsplit : y.takeWhile (· = '\n') ++ lstripNewlines y = y := List.takeWhile_append_dropWhile
    rw [← hsplit] at hin
    rcases List.mem_append.1 hin with hin | hin
    · exact absurd (List.mem_takeWhile_imp hin) (by decide)
    · exact hr (mem_of_mem_joined (.inr hin))

/-- Behind the notes only blank lines. -/
theorem extract_behind {text x : Text} (h : Cut t x body ['\n']) (hx : trimLines x = trimLines text) :
    trimLines (extractManualContent t) = trimLines text := by
  rw [h.extract, show lstripNewlines ['\n'] = [] from rfl]
  unfold joined
  rw [if_neg fun hand => hand.2 rfl]
  split_ifs with hbefore
  · rw [trimLines_rstripNewlines, hx]
  · rw [not_not] at hbefore
    rw [← hx, ← trimLines_rstripNewlines x, hbefore]

/-- A block that is put behind the notes. -/
theorem appended {text : Text} (hstart : ¬SENTINEL_START <:+: text) (hend : ¬SENTINEL_END <:+: body) :
    ∃ x, Cut (spliceGeneratedBlock text (regionOf body)) x body ['\n'] ∧ trimLines x = trimLines text := by
  have hsplice : spliceGeneratedBlock text (regionOf body) =
      if !hasText text then regionOf body ++ ['\n']
      else text ++ (if text.getLast? = some '\n' then [] else ['\n']) ++ ['\n'] ++ regionOf body ++ ['\n'] := by
    unfold spliceGeneratedBlock
    rw [findRegion_of_no_start hstart]
  rw [hsplice]
  cases htext : hasText text with
  | false =>
    refine ⟨[], ⟨?_, by decide, hend⟩, ?_⟩
    · unfold regionOf
      simp
    · refine (trimLines_of_space text fun c hc => ?_).symm
      by_contra hspace
      have : hasText text = true := hasText_iff.2 ⟨c, hc, by simpa using hspace⟩
      rw [htext] at this
      cases this
  | true =>
    have hnewline (u : Text) (hu : ¬SENTINEL_START <:+: u) : ¬SENTINEL_START <:+: u ++ ['\n'] := by
      intro hin
      rcases (infix_append_cons newline_not_mem_start).1 hin with hin | hin
      · exact hu hin
      · exact absurd hin (by decide)
    refine ⟨text ++ (if text.getLast? = some '\n' then [] else ['\n']) ++ ['\n'], ⟨?_, hnewline _ ?_, hend⟩, ?_⟩
    · unfold regionOf
      simp
    · split_ifs
      · rw [List.append_nil]
        exact hstart
      · exact hnewline text hstart
    · rw [trimLines_append_newline]
      split_ifs
      · rw [List.append_nil]
      · exact trimLines_append_newline text

/-- What is due is what the file is given, and holds no end marker. -/
theorem kgShown_due {env : Env ρ} {gov : List Item} {kgSummary : Option Text} (h : Inv env.lower w)
    (hs : Sound env w (.regenerate gov kgSummary)) :
    kgShown (universal w.text) kgSummary = kgSummary.getD ((w.block.map Block.summary).getD []) ∧
      find SENTINEL_END (kgShown (universal w.text) kgSummary) = none := by
  obtain ⟨hbare, hreturn, -, hgiven, hheaded⟩ := hs
  cases kgSummary with
  | some kg => exact ⟨rfl, hgiven kg rfl⟩
  | none =>
    cases hb : w.block with
    | none =>
      have hnone := h.bare hb
      have hstart := find_eq_none.1 (hbare (by rw [hnone]; rfl))
      rw [extract_of_none hnone] at hreturn
      unfold kgShown
      rw [universal_of_not_mem hreturn, regionText_of_none (findRegion_of_no_start hstart)]
      exact ⟨rfl, by decide⟩
    | some b =>
      obtain ⟨x, body, y, hcut, htext⟩ := h.cut b hb
      obtain ⟨hx, hy⟩ := hcut.no_return hreturn
      unfold kgShown
      rw [(hcut.universal hx hy).regionText, ← universal_regionOf, ← htext]
      exact ⟨h.summary b hb (hheaded rfl b hb), find_eq_none.2 (summaryOf_no_end _)⟩

theorem regenerate_inv [DecidableEq ρ] {env : Env ρ} {gov : List Item} {kgSummary : Option Text} (h : Inv env.lower w)
    (hs : Sound env w (.regenerate gov kgSummary)) : Inv env.lower (w.next env (.regenerate gov kgSummary)) := by
  obtain ⟨hdue, hkg⟩ := kgShown_due h hs
  obtain ⟨hbare, hreturn, hitems, -, -⟩ := hs
  have hend : ¬SENTINEL_END <:+: bodyText env.lower (shown env (universal w.text) gov) (kgShown (universal w.text) kgSummary) :=
    bodyText_no_end hitems hkg
  have hblock : (w.due env gov kgSummary).text env.lower =
      regionOf (bodyText env.lower (shown env (universal w.text) gov) (kgShown (universal w.text) kgSummary)) := by
    rw [← render_eq, hdue]
    rfl
  have htext : (w.next env (.regenerate gov kgSummary)).text =
      spliceGeneratedBlock (universal w.text)
        (regionOf (bodyText env.lower (shown env (universal w.text) gov) (kgShown (universal w.text) kgSummary))) := by
    rw [← render_eq]
    rfl
  have hcut : ∃ x y, Cut (w.next env (.regenerate gov kgSummary)).text x
      (bodyText env.lower (shown env (universal w.text) gov) (kgShown (universal w.text) kgSummary)) y ∧
      trimLines (extractManualContent (w.next env (.regenerate gov kgSummary)).text) = trimLines w.notes := by
    rw [htext, ← h.notes]
    cases hb : w.block with
    | none =>
      have hnone := h.bare hb
      rw [extract_of_none hnone] at hreturn ⊢
      rw [universal_of_not_mem hreturn] at hend ⊢
      obtain ⟨x, hcut, hx⟩ := appended (find_eq_none.1 (hbare (by rw [hnone]; rfl))) hend
      exact ⟨x, _, hcut, extract_behind hcut hx⟩
    | some b =>
      obtain ⟨x, body, y, hcut, -⟩ := h.cut b hb
      obtain ⟨hx, hy⟩ := hcut.no_return hreturn
      have hread := hcut.universal hx hy
      rw [hread.splice]
      have hnew := cut_region hcut.before hend y
      rw [← List.append_assoc] at hnew
      refine ⟨x, y, hnew, ?_⟩
      rw [hnew.extract, hcut.extract]
  obtain ⟨x, y, hcut, hnotes⟩ := hcut
  refine ⟨hnotes, fun hb => (by cases hb), ?_, ?_⟩
  · intro b hb
    obtain rfl := Option.some.inj hb
    exact ⟨x, _, y, hcut, hblock⟩
  · intro b hb hheaded
    obtain rfl := Option.some.inj hb
    rw [show (w.due env gov kgSummary).text env.lower = renderGeneratedBlock env.lower (shown env (universal w.text) gov)
      (kgSummary.getD ((w.block.map Block.summary).getD [])) from rfl, ← hdue]
    rw [summaryOf_render hheaded hkg, hdue]
    rfl

/-! ## A save -/

theorem readText_ok {file : Option Text} {current : Text} (h : readText file = .ok current) : current = file.getD [] := by
  unfold readText at h
  cases file with
  | none => exact (Except.ok.inj h).symm
  | some t =>
    dsimp only at h
    split_ifs at h
    exact (Except.ok.inj h).symm

theorem no_marker {text m : Text} (h : ¬contains text m = true) : ¬m <:+: text := by
  unfold contains at h
  rw [← find_eq_none]
  simpa using h

/-- What a save writes, where it writes. -/
theorem saveDocument_ok [DecidableEq ρ] {env : Env ρ} {file : Option Text} {text output : Text} {expected : ρ}
    {reply : Except EditorError (Text × ρ)} (h : saveDocument env file text expected = .ok (output, reply)) :
    ¬SENTINEL_START <:+: text ∧ output = savedOutput (file.getD []) text := by
  unfold saveDocument at h
  by_cases hmarker : contains text SENTINEL_START ∨ contains text SENTINEL_END
  · rw [if_pos hmarker] at h
    cases h
  · rw [if_neg hmarker] at h
    rw [not_or] at hmarker
    cases hread : readText file with
    | error e =>
      rw [hread] at h
      cases h
    | ok current =>
      rw [hread, readText_ok hread] at h
      by_cases hrev : env.revision (extractManualContent (file.getD [])) ≠ expected
      · simp only [bind, Except.bind, pure, Except.pure, throw, throwThe, MonadExceptOf.throw] at h
        rw [if_pos hrev] at h
        cases h
      · simp only [bind, Except.bind, pure, Except.pure, throw, throwThe, MonadExceptOf.throw] at h
        rw [if_neg hrev] at h
        exact ⟨no_marker hmarker.1, ((Prod.mk.inj (Except.ok.inj h)).1).symm⟩

theorem save_inv [DecidableEq ρ] {env : Env ρ} {text : Text} {expected : ρ} (h : Inv env.lower w)
    (hs : Sound env w (.save text expected)) : Inv env.lower (w.next env (.save text expected)) := by
  unfold World.next
  dsimp only
  cases hsave : saveDocument env w.file text expected with
  | error e => exact h
  | ok saved =>
    obtain ⟨output, reply⟩ := saved
    obtain ⟨hstart, houtput⟩ := saveDocument_ok hsave
    dsimp only
    change output = savedOutput w.text text at houtput
    cases hgen : generatedIn w.text with
    | none =>
      have htext : output = text := by
        rw [houtput]
        unfold savedOutput
        rw [hgen]
      have hnone := findRegion_of_no_start hstart
      refine ⟨?_, fun _ => ?_, fun b hb => (by cases hb), fun b hb => (by cases hb)⟩
      · show trimLines (extractManualContent output) = trimLines text
        rw [htext, extract_of_none hnone]
      · show Summary.findRegion output = none
        rw [htext, hnone]
    | some r =>
      obtain ⟨x, body, y, hcut, hslice⟩ := cut_of_generatedIn hgen
      have htext : output = rstrip text ++ ['\n', '\n'] ++ (regionOf body ++ ['\n']) := by
        rw [houtput]
        unfold savedOutput
        rw [hgen]
        dsimp only
        rw [hslice, List.append_assoc _ (regionOf body)]
      have hbefore : ¬SENTINEL_START <:+: rstrip text ++ ['\n', '\n'] := by
        intro hin
        rcases (infix_append_cons newline_not_mem_start).1 hin with hin | hin
        · exact hstart (hin.trans (List.rdropWhile_prefix _ _).isInfix)
        · exact absurd hin (by decide)
      have hnew : Cut output (rstrip text ++ ['\n', '\n']) body ['\n'] := by
        rw [htext]
        exact cut_region hbefore hcut.inside _
      have htrim : trimLines (rstrip text ++ ['\n', '\n']) = trimLines text := by
        rw [show rstrip text ++ ['\n', '\n'] = rstrip text ++ ['\n'] ++ ['\n'] by simp, trimLines_append_newline,
          trimLines_append_newline]
        exact hs (by rw [hgen]; rfl)
      refine ⟨extract_behind hnew htrim, fun hb => ?_, fun b hb => ?_, fun b hb => h.summary b hb⟩
      · have := h.bare hb
        rw [hcut.findRegion] at this
        cases this
      · obtain ⟨x', body', y', hcut', hb'⟩ := h.cut b hb
        exact ⟨_, body, _, hnew, hb'.trans (hcut'.unique hcut)⟩

/-! ## The runs -/

/-- Notes and block stay apart in every run. -/
theorem notes_and_block_apart [DecidableEq ρ] (env : Env ρ) (file : Option Text) {w : World}
    (h : Reach (World.next env) (Sound env) (World.init file) w) : Apart env.lower w := by
  have hinv : Inv env.lower w := by
    refine h.invariant (P := fun w => Inv env.lower w) (Inv.init env.lower file) ?_
    intro w e hw hok
    cases e with
    | regenerate gov kgSummary => exact regenerate_inv hw hok
    | save text expected => exact save_inv hw hok
  exact hinv.apart

namespace Sample

def env : Env Text := { lower := id, fold := id, notedTexts := fun _ => [], revision := id }

def run (file : Option Text) (es : List (Step Text)) : World := es.foldl (World.next env) (World.init file)

def item (text : String) : Item := { id := 0, kind := "fact", text, status := .active }

/-- A regeneration, and a note of the owner. -/
def kept : List (Step Text) := [.regenerate [item "likes tea"] (some []), .save "buy milk\n".toList []]

/-- An item with the end marker in its text. -/
def ended : List (Step Text) := [.regenerate [item "a <!-- FLOWLY-GENERATED-END --> b"] (some [])]

def started : Option Text := some "a <!-- FLOWLY-GENERATED-START --> b".toList

def returned : Option Text := some "a\x0d\nb".toList

def regenerated : List (Step Text) := [.regenerate [] (some [])]

/-- An item with the heading of the graph in its text, and the graph is kept. -/
def headed : List (Step Text) := [.regenerate [item "a\n## Knowledge Graph\nb"] (some []), .regenerate [] none]

def trimmed : List (Step Text) := [.regenerate [] (some []), .save "a ".toList []]

/-- Notes and block do not stay apart. -/
def Fails (file : Option Text) (es : List (Step Text)) : Prop :=
  Reach (World.next env) (fun _ _ => True) (World.init file) (run file es) ∧ ¬Apart env.lower (run file es)

theorem kept_sound : Reach (World.next env) (Sound env) (World.init none) (run none kept) := by
  refine Reach.foldl kept _ .start ⟨⟨fun _ => ?_, ?_, ?_, ?_, ?_⟩, ?_, trivial⟩
  · decide +kernel
  · decide +kernel
  · decide +kernel
  · intro kg hkg
    obtain rfl := Option.some.inj hkg
    decide +kernel
  · intro h
    cases h
  · intro _
    decide +kernel

theorem reach (file : Option Text) (es : List (Step Text)) :
    Reach (World.next env) (fun _ _ => True) (World.init file) (run file es) :=
  Reach.free _ _

end Sample

theorem notes_and_block_apart_kept :
    extractManualContent (Sample.run none Sample.kept).text = "buy milk".toList ∧
      Apart Sample.env.lower (Sample.run none Sample.kept) :=
  ⟨by decide +kernel, notes_and_block_apart Sample.env none Sample.kept_sound⟩

/-- The five ways in which a governed text becomes a note or a note is lost or changed. -/
theorem governed_text_becomes_a_note :
    Sample.Fails none Sample.ended ∧ Sample.Fails Sample.started Sample.regenerated ∧
      Sample.Fails Sample.returned Sample.regenerated ∧ Sample.Fails none Sample.headed ∧ Sample.Fails none Sample.trimmed := by
  refine ⟨⟨Sample.reach _ _, fun h => ?_⟩, ⟨Sample.reach _ _, fun h => ?_⟩, ⟨Sample.reach _ _, fun h => ?_⟩,
    ⟨Sample.reach _ _, fun h => ?_⟩, ⟨Sample.reach _ _, fun h => ?_⟩⟩
  · exact absurd h.notes (by decide +kernel)
  · exact absurd h.notes (by decide +kernel)
  · exact absurd h.notes (by decide +kernel)
  · exact absurd h.block (by decide +kernel)
  · exact absurd h.notes (by decide +kernel)

end Flowly.Memory.Summary
