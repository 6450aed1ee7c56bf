/-
  Flowly.Agent.Microcompact — the cut of old tool results, pass after pass
  (`microcompact_tool_results` of `flowly/compaction/pruning.py`, `extract_spill_pointer`
  of `flowly/agent/tool_result_spill.py`).

  A spill pointer is the bracketed line around the last "FULL output saved to: " of a
  text (`Pointed`, `extractSpillPointer_eq_some`). A cut puts the pointer of the text
  behind what it keeps, unless what it keeps holds the pointer already. Then the last
  marker of the cut text need not be the one of that copy: the cut may run through a
  second copy, and leave a marker whose bracket is the truncation notice's.

  Proved, for every list, `truncate_chars >= 0` and `keep_recent_full >= 1`:
  - `microcompacted_twice`: a cut text is cut to itself.
  - `microcompactToolResults_getElem?`: message by message, only old tool results change.
  - `extract_microcompacted`: the pointer is found after the cut unless the kept text has
    it already, and then exactly when some copy there has no marker behind it.
  - `microcompacts_iff`: the passes are idempotent, touch nothing else and keep every
    pointer exactly when that holds of every old tool result.
-/

import Flowly.Agent.ToolResults
import Flowly.Lib.Marked

namespace Flowly.Agent

open Flowly.Lib

/-! ## The last occurrence -/

section LastOccurrence

variable {m a b t : Text} {n : Nat}

theorem rfind_eq_none (hm : m ≠ []) : rfind m t = none ↔ ¬m <:+: t := by
  induction t with
  | nil => simp [rfind, hm]
  | cons c t ih =>
    rw [List.infix_cons_iff, rfind]
    cases h : rfind m t with
    | some k =>
      have hin : m <:+: t := by
        by_contra hno
        rw [ih.mpr hno] at h
        cases h
      simp [hin]
    | none =>
      simp only [ite_eq_right_iff, reduceCtorEq, imp_false, List.isPrefixOf_iff_prefix, not_or]
      exact ⟨fun hp => ⟨hp, ih.mp h⟩, fun hp => hp.1⟩

/-- The rest of a marker does not help it to occur. -/
theorem infix_of_tail_append (hm : Text.Marker m) (h : m <:+: m.tail ++ b) : m <:+: b := by
  cases m with
  | nil => exact hm.elim
  | cons c r =>
    -- no code point of `s` starts the marker
    have hdrop : ∀ s : Text, c ∉ s → c :: r <:+: s ++ b → c :: r <:+: b := by
      intro s
      induction s with
      | nil => intro _ h; exact h
      | cons d s ih =>
        intro hc h
        refine ih (fun hin => hc (List.mem_cons_of_mem _ hin)) (Text.infix_of_cons (by simp) ?_ h)
        intro he
        exact hc (by rw [Option.some.inj he]; exact List.mem_cons_self)
    exact hdrop r hm h

/-- Where the last marker of a text stands. -/
theorem rfind_eq_some (hm : Text.Marker m) : rfind m t = some n ↔ ∃ a b, t = a ++ (m ++ b) ∧ a.length = n ∧ ¬m <:+: b := by
  constructor
  · intro h
    induction t generalizing n with
    | nil => simp [rfind, hm.ne_nil] at h
    | cons c t ih =>
      rw [rfind] at h
      cases ht : rfind m t with
      | some k =>
        rw [ht] at h
        obtain ⟨a, b, rfl, rfl, hb⟩ := ih ht
        exact ⟨c :: a, b, rfl, Option.some.inj h, hb⟩
      | none =>
        rw [ht] at h
        simp only [Option.ite_none_right_eq_some, Option.some.injEq] at h
        obtain ⟨hp, rfl⟩ := h
        obtain ⟨b, hb⟩ := List.isPrefixOf_iff_prefix.mp hp
        refine ⟨[], b, hb.symm, rfl, fun hin => (rfind_eq_none hm.ne_nil).mp ht ?_⟩
        have htail : t = m.tail ++ b := by
          rw [← List.tail_append_of_ne_nil hm.ne_nil, hb]
          rfl
        rw [htail]
        exact hin.trans (List.suffix_append _ _).isInfix
  · intro h
    obtain ⟨a, b, rfl, rfl, hb⟩ := h
    induction a with
    | nil =>
      cases m with
      | nil => exact hm.elim
      | cons c r =>
        have hnone : rfind (c :: r) (r ++ b) = none :=
          (rfind_eq_none (by simp)).mpr fun hin => hb (infix_of_tail_append hm hin)
        show rfind (c :: r) (c :: (r ++ b)) = _
        rw [rfind, hnone]
        simp
    | cons c a ih =>
      rw [List.cons_append, rfind, ih]
      rfl

end LastOccurrence

/-! ## Spill pointers -/

theorem marker_spill : Text.Marker SPILL_POINTER_MARKER := by decide

theorem marker_open : Text.Marker ['\n', '['] := by decide

theorem close_not_mem_spill : ']' ∉ SPILL_POINTER_MARKER := by decide

/-- The bracketed line `pointer` around the last spill marker of a text, with `b` behind it. -/
def Pointer (pointer b : Text) : Prop :=
  ∃ u v, pointer = ['\n', '['] ++ (u ++ (SPILL_POINTER_MARKER ++ (v ++ [']']))) ∧ ¬['\n', '['] <:+: u ∧ ']' ∉ v ∧
    ¬SPILL_POINTER_MARKER <:+: v ++ ']' :: b

def Pointed (t pointer : Text) : Prop := ∃ a b, t = a ++ (pointer ++ b) ∧ Pointer pointer b

theorem marker_close : Text.Marker [']'] := by decide

theorem extract_of_pointed {t pointer : Text} (h : Pointed t pointer) : extractSpillPointer t = some pointer := by
  obtain ⟨a, b, rfl, u, v, rfl, hu, hv, hb⟩ := h
  let before := a ++ (['\n', '['] ++ u)
  let after := SPILL_POINTER_MARKER ++ (v ++ ']' :: b)
  have ht : a ++ (['\n', '['] ++ (u ++ (SPILL_POINTER_MARKER ++ (v ++ [']']))) ++ b) = before ++ after := by
    simp [before, after]
  have hpos : rfind SPILL_POINTER_MARKER (before ++ after) = some before.length :=
    (rfind_eq_some marker_spill).mpr ⟨before, v ++ ']' :: b, rfl, rfl, hb⟩
  have hstart : rfind ['\n', '['] before = some a.length := (rfind_eq_some marker_open).mpr ⟨a, u, rfl, rfl, hu⟩
  have hend : Text.find [']'] after = some (SPILL_POINTER_MARKER ++ v).length := by
    refine marker_close.find_some_iff.mpr ⟨SPILL_POINTER_MARKER ++ v, b, by simp [after], rfl, ?_⟩
    rw [List.singleton_infix_iff]
    exact fun hin => (List.mem_append.mp hin).elim close_not_mem_spill hv
  rw [ht]
  simp only [extractSpillPointer, hpos, List.take_left, List.drop_left, hstart, hend]
  -- the pointer ends behind the bracket
  have htake : (before ++ after).take (before.length + (SPILL_POINTER_MARKER ++ v).length + 1) =
      a ++ (['\n', '['] ++ (u ++ (SPILL_POINTER_MARKER ++ (v ++ [']'])))) := by
    rw [show before ++ after = (before ++ ((SPILL_POINTER_MARKER ++ v) ++ [']'])) ++ b by simp [after],
      List.take_left' (by simp only [List.length_append, List.length_singleton]; omega)]
    simp [before]
  rw [htake, List.drop_left]

theorem extractSpillPointer_eq_some (t pointer : Text) : extractSpillPointer t = some pointer ↔ Pointed t pointer := by
  refine ⟨fun h => ?_, extract_of_pointed⟩
  have hall := h
  unfold extractSpillPointer at h
  split at h
  · cases h
  · rename_i pos hpos
    split at h
    · cases h
    · rename_i start hstart
      split at h
      · cases h
      · rename_i offset hend
        obtain ⟨before, after, rfl, rfl, hafter⟩ := (rfind_eq_some marker_spill).mp hpos
        rw [List.take_left] at hstart
        obtain ⟨a, u, rfl, _, hu⟩ := (rfind_eq_some marker_open).mp hstart
        rw [List.drop_left] at hend
        obtain ⟨w, b, hw, _, hclose⟩ := marker_close.find_some_iff.mp hend
        rw [List.singleton_infix_iff] at hclose
        -- the bracket is behind the marker, which holds none
        obtain ⟨v, rfl⟩ : SPILL_POINTER_MARKER <+: w :=
          Text.prefix_of_not_mem close_not_mem_spill (hw ▸ List.prefix_append _ _)
        have hafter' : after = v ++ ']' :: b := by
          rw [List.append_assoc] at hw
          exact List.append_cancel_left hw
        have hpointed : Pointed (a ++ (['\n', '['] ++ u) ++ (SPILL_POINTER_MARKER ++ after))
            (['\n', '['] ++ (u ++ (SPILL_POINTER_MARKER ++ (v ++ [']'])))) := by
          refine ⟨a, b, by simp [hafter'], u, v, rfl, hu, ?_, hafter' ▸ hafter⟩
          exact fun hin => hclose (List.mem_append_right _ hin)
        rw [extract_of_pointed hpointed, Option.some.injEq] at hall
        exact hall ▸ hpointed

/-- A pointer put at the end of a text is found there. -/
theorem Pointed.append {t pointer : Text} (h : Pointed t pointer) (x : Text) : Pointed (x ++ pointer) pointer := by
  obtain ⟨a, b, rfl, u, v, hp, hu, hv, hb⟩ := h
  refine ⟨x, [], by simp, u, v, hp, hu, hv, fun hin => hb ?_⟩
  exact hin.trans (List.IsPrefix.isInfix ⟨b, by simp⟩)

/-- A text holding a pointer is found to have it exactly when some copy has no marker behind it. -/
theorem Pointed.copy {t pointer : Text} (h : Pointed t pointer) (x : Text) :
    Pointed x pointer ↔ ∃ a b, x = a ++ (pointer ++ b) ∧ ¬SPILL_POINTER_MARKER <:+: b := by
  constructor
  · intro h'
    obtain ⟨a, b, rfl, u, v, rfl, hu, hv, hb⟩ := h'
    exact ⟨a, b, rfl, fun hin => hb (hin.trans ⟨v ++ [']'], [], by simp⟩)⟩
  · intro h'
    obtain ⟨a, b, rfl, hb⟩ := h'
    obtain ⟨a', b', rfl, u, v, hp, hu, hv, hb'⟩ := h
    refine ⟨a, b, rfl, u, v, hp, hu, hv, fun hin => ?_⟩
    rcases (Text.infix_append_cons close_not_mem_spill).mp hin with hin | hin
    · exact hb' (hin.trans (List.prefix_append _ _).isInfix)
    · exact hb hin

theorem Pointed.within {t pointer : Text} (h : Pointed t pointer) : pointer <:+: t := by
  obtain ⟨a, b, rfl, _⟩ := h
  exact ⟨a, b, by simp⟩

theorem Pointed.ne_nil {t pointer : Text} (h : Pointed t pointer) : pointer ≠ [] := by
  obtain ⟨a, b, rfl, u, v, rfl, _⟩ := h
  simp

/-! ## One text -/

/-- `content[:truncate_chars]` with the notice behind it. -/
def truncatedText (content : Text) (truncateChars : Int) : Text :=
  sliceTo content truncateChars ++ "\n[old tool output truncated]".toList

theorem contains_iff {t sub : Text} : Text.contains t sub = true ↔ sub <:+: t := by
  rw [Text.contains, Option.isSome_iff_ne_none, ne_eq, Text.find_eq_none, not_not]

theorem microcompacted_pointed {content pointer : Text} (h : Pointed content pointer) (truncateChars : Int) :
    microcompacted content truncateChars =
      if pointer <:+: truncatedText content truncateChars then truncatedText content truncateChars
      else truncatedText content truncateChars ++ pointer := by
  rw [microcompacted, extract_of_pointed h]
  simp only [ne_eq, h.ne_nil, not_false_eq_true, true_and]
  by_cases hin : pointer <:+: truncatedText content truncateChars
  · rw [if_pos hin, if_neg]
    · rfl
    · exact fun hno => hno (contains_iff.mpr hin)
  · rw [if_neg hin, if_pos]
    · rfl
    · exact fun hc => hin (contains_iff.mp hc)

variable {content : Text}

theorem microcompacted_unpointed (h : extractSpillPointer content = none) (truncateChars : Int) :
    microcompacted content truncateChars = truncatedText content truncateChars := by
  rw [microcompacted, h]
  rfl

/-- A cut text is what it keeps, with or without a pointer behind it. -/
theorem microcompacted_cases (content : Text) (truncateChars : Int) :
    microcompacted content truncateChars = truncatedText content truncateChars ∨
    ∃ pointer, Pointed content pointer ∧ ¬pointer <:+: truncatedText content truncateChars ∧
      microcompacted content truncateChars = truncatedText content truncateChars ++ pointer := by
  cases h : extractSpillPointer content with
  | none => exact Or.inl (microcompacted_unpointed h truncateChars)
  | some pointer =>
    have hp := (extractSpillPointer_eq_some content pointer).mp h
    rw [microcompacted_pointed hp]
    by_cases hin : pointer <:+: truncatedText content truncateChars
    · exact Or.inl (if_pos hin)
    · exact Or.inr ⟨pointer, hp, hin, if_neg hin⟩

/-- A cut text starts with what the cut keeps of the text, and is longer than that. -/
theorem microcompacted_keeps {truncateChars : Int} (h0 : 0 ≤ truncateChars) (h : truncateChars < content.length) :
    truncateChars < (microcompacted content truncateChars).length ∧
    sliceTo (microcompacted content truncateChars) truncateChars = sliceTo content truncateChars := by
  have hslice : sliceTo content truncateChars = content.take truncateChars.toNat := by rw [sliceTo, if_pos h0]
  have hlen : (content.take truncateChars.toNat).length = truncateChars.toNat := by
    rw [List.length_take]
    omega
  obtain ⟨rest, hrest, hcut⟩ : ∃ rest, rest ≠ [] ∧ microcompacted content truncateChars =
      content.take truncateChars.toNat ++ rest := by
    rcases microcompacted_cases content truncateChars with hc | ⟨pointer, _, _, hc⟩
    · exact ⟨"\n[old tool output truncated]".toList, by decide, by rw [hc, truncatedText, hslice]⟩
    · exact ⟨"\n[old tool output truncated]".toList ++ pointer, by simp,
        by rw [hc, truncatedText, hslice, List.append_assoc]⟩
  have hpos := List.length_pos_iff.mpr hrest
  constructor
  · rw [hcut, List.length_append]
    omega
  · rw [hslice, sliceTo, if_pos h0, hcut, List.take_left' hlen]

theorem truncatedText_microcompacted {truncateChars : Int} (h0 : 0 ≤ truncateChars) (h : truncateChars < content.length) :
    truncatedText (microcompacted content truncateChars) truncateChars = truncatedText content truncateChars := by
  rw [truncatedText, truncatedText, (microcompacted_keeps h0 h).2]

/-- A pass over a cut text leaves it as it is: a pointer found in what was kept is in it, and one
    that was put behind it is found again. -/
theorem microcompacted_twice {truncateChars : Int} (h0 : 0 ≤ truncateChars) (h : truncateChars < content.length) :
    microcompacted (microcompacted content truncateChars) truncateChars = microcompacted content truncateChars := by
  have htrunc := truncatedText_microcompacted h0 h
  rcases microcompacted_cases content truncateChars with hc | ⟨pointer, hp, hin, hc⟩
  · rcases microcompacted_cases (microcompacted content truncateChars) truncateChars with hc' | ⟨pointer, hp, hin, _⟩
    · rw [hc', htrunc, hc]
    · rw [htrunc] at hin
      rw [hc] at hp
      exact absurd hp.within hin
  · have hp' : Pointed (microcompacted content truncateChars) pointer := hc ▸ hp.append _
    rw [microcompacted_pointed hp', htrunc, if_neg hin, hc]

/-- What is kept of a text loses its pointer only by holding it already, with a marker behind every copy. -/
def PointerClear (content pointer : Text) (truncateChars : Int) : Prop :=
  pointer <:+: truncatedText content truncateChars →
    ∃ a b, truncatedText content truncateChars = a ++ (pointer ++ b) ∧ ¬SPILL_POINTER_MARKER <:+: b

theorem extract_microcompacted {content pointer : Text} (h : extractSpillPointer content = some pointer)
    (truncateChars : Int) : extractSpillPointer (microcompacted content truncateChars) = some pointer ↔
      PointerClear content pointer truncateChars := by
  have hp := (extractSpillPointer_eq_some content pointer).mp h
  rw [extractSpillPointer_eq_some, microcompacted_pointed hp]
  by_cases hin : pointer <:+: truncatedText content truncateChars
  · rw [if_pos hin, hp.copy]
    exact ⟨fun hcopy _ => hcopy, fun hclear => hclear hin⟩
  · rw [if_neg hin]
    exact ⟨fun _ hyes => absurd hyes hin, fun _ => hp.append _⟩

/-! ## The list, message by message -/

/-- The `i`-th message is a tool result with `keep_recent_full` newer ones. -/
def OldTool (messages : List Message) (keepRecentFull : Int) (i : Nat) : Prop :=
  ∃ m, messages[i]? = some m ∧ isTool m = true ∧ keepRecentFull ≤ ((messages.drop (i + 1)).countP isTool : Int)

def microcompactedMessage (truncateChars : Int) (m : Message) : Message :=
  match m.getContent with
  | .str content =>
    if (content.length : Int) > truncateChars then { m with content := some (.str (microcompacted content truncateChars)) }
    else m
  | _ => m

/-- The tool indices from `j` on, the newest `keep` left out. -/
theorem mem_take_indices (keep : Nat) : ∀ (ms : List Message) (j i : Nat),
    i ∈ (((ms.zipIdx j).filter fun m => isTool m.1).map (·.2)).take (ms.countP isTool - keep) ↔
      ∃ d m, i = j + d ∧ ms[d]? = some m ∧ isTool m = true ∧ keep ≤ (ms.drop (d + 1)).countP isTool := by
  intro ms
  induction ms with
  | nil => intro j i; simp
  | cons m ms ih =>
    intro j i
    have hsub : ∀ d, (ms.drop d).countP isTool ≤ ms.countP isTool := fun d =>
      (List.drop_sublist d ms).countP_le
    -- the messages behind the first are the list's from `j + 1` on
    have hrest : (∃ d m', i = j + 1 + d ∧ ms[d]? = some m' ∧ isTool m' = true ∧ keep ≤ (ms.drop (d + 1)).countP isTool) ↔
        ∃ d m', i = j + (d + 1) ∧ (m :: ms)[d + 1]? = some m' ∧ isTool m' = true ∧
          keep ≤ ((m :: ms).drop (d + 1 + 1)).countP isTool := by
      simp only [List.getElem?_cons_succ, List.drop_succ_cons, Nat.add_assoc, Nat.add_comm 1]
    have hcases : (∃ d m', i = j + d ∧ (m :: ms)[d]? = some m' ∧ isTool m' = true ∧
          keep ≤ ((m :: ms).drop (d + 1)).countP isTool) ↔
        (i = j ∧ isTool m = true ∧ keep ≤ ms.countP isTool) ∨
        ∃ d m', i = j + 1 + d ∧ ms[d]? = some m' ∧ isTool m' = true ∧ keep ≤ (ms.drop (d + 1)).countP isTool := by
      rw [hrest]
      constructor
      · intro h
        obtain ⟨d, m', hi, hm', ht, hk⟩ := h
        cases d with
        | zero =>
          simp only [List.getElem?_cons_zero, Option.some.injEq] at hm'
          exact Or.inl ⟨hi, hm' ▸ ht, by simpa using hk⟩
        | succ d => exact Or.inr ⟨d, m', hi, hm', ht, hk⟩
      · intro h
        rcases h with ⟨hi, ht, hk⟩ | ⟨d, m', hi, hm', ht, hk⟩
        · exact ⟨0, m, hi, by simp, ht, by simpa using hk⟩
        · exact ⟨d + 1, m', hi, hm', ht, hk⟩
    rw [hcases, ← ih (j + 1) i, List.zipIdx_cons, List.filter_cons, List.countP_cons]
    by_cases hm : isTool m = true
    · simp only [hm, if_true, List.map_cons, true_and]
      by_cases hk : keep ≤ ms.countP isTool
      · rw [show ms.countP isTool + 1 - keep = (ms.countP isTool - keep) + 1 by omega, List.take_succ_cons, List.mem_cons]
        simp [hk]
      · rw [show ms.countP isTool + 1 - keep = 0 by omega, show ms.countP isTool - keep = 0 by omega]
        simp [hk]
    · simp [hm]

theorem length_indicesOf (ms : List Message) : (indicesOf isTool ms).length = ms.countP isTool := by
  rw [indicesOf, List.length_map, ← List.countP_eq_length_filter]
  induction ms using List.reverseRecOn with
  | nil => rfl
  | append_singleton ms m ih => rw [List.zipIdx_append, List.countP_append, ih, List.countP_append]; rfl

variable {ms : List Message}

theorem mem_old_indices {keepRecentFull : Int} (hk : 1 ≤ keepRecentFull) (i : Nat) :
    i ∈ sliceTo (indicesOf isTool ms) (-keepRecentFull) ↔ OldTool ms keepRecentFull i := by
  rw [sliceTo, if_neg (by omega), length_indicesOf, Int.neg_neg, indicesOf, mem_take_indices]
  constructor
  · intro h
    obtain ⟨d, m, hi, hm, ht, hd⟩ := h
    rw [Nat.zero_add] at hi
    subst hi
    exact ⟨m, hm, ht, by omega⟩
  · intro h
    obtain ⟨m, hm, ht, hd⟩ := h
    exact ⟨i, m, (Nat.zero_add i).symm, hm, ht, by omega⟩

/-- Old tool results are cut, the rest stays. -/
theorem microcompactToolResults_getElem? {keepRecentFull : Int} (truncateChars : Int)
    (hk : 1 ≤ keepRecentFull) (i : Nat) (m : Message) (hm : ms[i]? = some m) :
    (OldTool ms keepRecentFull i →
      (microcompactToolResults ms keepRecentFull truncateChars)[i]? = some (microcompactedMessage truncateChars m)) ∧
    (¬OldTool ms keepRecentFull i → (microcompactToolResults ms keepRecentFull truncateChars)[i]? = some m) := by
  unfold microcompactToolResults
  simp only
  split
  · rename_i hfew
    refine ⟨fun hold => ?_, fun _ => hm⟩
    -- an old tool result has `keep_recent_full` newer ones
    rw [length_indicesOf] at hfew
    rw [← mem_old_indices hk, sliceTo, if_neg (by omega), length_indicesOf,
      show ms.countP isTool - (- -keepRecentFull).toNat = 0 by omega] at hold
    simp at hold
  · rw [List.getElem?_map, List.getElem?_zipIdx, hm]
    simp only [Option.map_some, Nat.zero_add]
    constructor
    · intro hold
      have hin := (mem_old_indices hk i).mpr hold
      unfold microcompactedMessage
      cases m.getContent with
      | str content => simp [hin]
      | blocks bs => rfl
      | null => rfl
    · intro hnew
      have hout : i ∉ sliceTo (indicesOf isTool ms) (-keepRecentFull) := fun h => hnew ((mem_old_indices hk i).mp h)
      cases m.getContent with
      | str content => simp [hout]
      | blocks bs => rfl
      | null => rfl

theorem length_microcompactToolResults (ms : List Message) (keepRecentFull truncateChars : Int) :
    (microcompactToolResults ms keepRecentFull truncateChars).length = ms.length := by
  unfold microcompactToolResults
  simp only
  split
  · rfl
  · simp

theorem microcompactedMessage_role (truncateChars : Int) (m : Message) :
    (microcompactedMessage truncateChars m).role = m.role := by
  unfold microcompactedMessage
  split
  · split
    · rfl
    · rfl
  · rfl

variable {keepRecentFull truncateChars : Int}

/-- A pass does not change which messages are tool results. -/
theorem map_isTool_microcompact (hk : 1 ≤ keepRecentFull) :
    (microcompactToolResults ms keepRecentFull truncateChars).map isTool = ms.map isTool := by
  apply List.ext_getElem?
  intro i
  rw [List.getElem?_map, List.getElem?_map]
  cases hm : ms[i]? with
  | none =>
    have : (microcompactToolResults ms keepRecentFull truncateChars)[i]? = none := by
      rw [List.getElem?_eq_none_iff, length_microcompactToolResults]
      exact List.getElem?_eq_none_iff.mp hm
    rw [this]
  | some m =>
    obtain ⟨hold, hnew⟩ := microcompactToolResults_getElem? truncateChars hk i m hm
    by_cases h : OldTool ms keepRecentFull i
    · rw [hold h]
      simp [isTool, microcompactedMessage_role]
    · rw [hnew h]

theorem countP_isTool_drop (ms : List Message) (n : Nat) :
    (ms.drop n).countP isTool = ((ms.map isTool).drop n).countP id := by
  rw [← List.map_drop, List.countP_map]
  rfl

theorem oldTool_iff_map (ms : List Message) (keepRecentFull : Int) (i : Nat) : OldTool ms keepRecentFull i ↔
    (ms.map isTool)[i]? = some true ∧ keepRecentFull ≤ (((ms.map isTool).drop (i + 1)).countP id : Int) := by
  rw [OldTool, List.getElem?_map, ← countP_isTool_drop]
  constructor
  · intro h
    obtain ⟨m, hm, ht, hc⟩ := h
    exact ⟨by rw [hm, Option.map_some, ht], hc⟩
  · intro h
    obtain ⟨m, hm, ht⟩ := Option.map_eq_some_iff.mp h.1
    exact ⟨m, hm, ht, h.2⟩

theorem oldTool_microcompact {keepRecentFull : Int} (truncateChars : Int) (hk : 1 ≤ keepRecentFull)
    (i : Nat) : OldTool (microcompactToolResults ms keepRecentFull truncateChars) keepRecentFull i ↔
      OldTool ms keepRecentFull i := by
  rw [oldTool_iff_map, oldTool_iff_map, map_isTool_microcompact hk]

theorem microcompactedMessage_of_str {m : Message} (hm : m.getContent = .str content) (truncateChars : Int) :
    microcompactedMessage truncateChars m =
      if (content.length : Int) > truncateChars then { m with content := some (.str (microcompacted content truncateChars)) }
      else m := by
  rw [microcompactedMessage, hm]

theorem microcompactedMessage_twice {truncateChars : Int} (h0 : 0 ≤ truncateChars) (m : Message) :
    microcompactedMessage truncateChars (microcompactedMessage truncateChars m) = microcompactedMessage truncateChars m := by
  cases hm : m.getContent with
  | str content =>
    by_cases hlong : (content.length : Int) > truncateChars
    · rw [microcompactedMessage_of_str hm, if_pos hlong]
      have hcut : ({ m with content := some (.str (microcompacted content truncateChars)) } : Message).getContent =
          .str (microcompacted content truncateChars) := rfl
      rw [microcompactedMessage_of_str hcut, if_pos (microcompacted_keeps h0 hlong).1, microcompacted_twice h0 hlong]
    · rw [microcompactedMessage_of_str hm, if_neg hlong, microcompactedMessage_of_str hm, if_neg hlong]
  | blocks | null => simp only [microcompactedMessage, hm]

theorem microcompactToolResults_twice (hk : 1 ≤ keepRecentFull) (h0 : 0 ≤ truncateChars) :
    microcompactToolResults (microcompactToolResults ms keepRecentFull truncateChars) keepRecentFull truncateChars =
      microcompactToolResults ms keepRecentFull truncateChars := by
  apply List.ext_getElem?
  intro i
  cases hm : ms[i]? with
  | none =>
    have hlen := List.getElem?_eq_none_iff.mp hm
    rw [List.getElem?_eq_none_iff.mpr, List.getElem?_eq_none_iff.mpr]
    · rw [length_microcompactToolResults]; exact hlen
    · rw [length_microcompactToolResults, length_microcompactToolResults]; exact hlen
  | some m =>
    obtain ⟨hold, hnew⟩ := microcompactToolResults_getElem? truncateChars hk i m hm
    by_cases h : OldTool ms keepRecentFull i
    · rw [hold h]
      have h' := (oldTool_microcompact truncateChars hk i).mpr h
      rw [(microcompactToolResults_getElem? truncateChars hk i _ (hold h)).1 h', microcompactedMessage_twice h0]
    · rw [hnew h]
      have h' := mt (oldTool_microcompact truncateChars hk i).mp h
      rw [(microcompactToolResults_getElem? truncateChars hk i _ (hnew h)).2 h']

/-- One pass or more of `microcompact_tool_results`. -/
theorem microcompact_passes (hk : 1 ≤ keepRecentFull) (h0 : 0 ≤ truncateChars) (passes : Nat) :
    (fun ms => microcompactToolResults ms keepRecentFull truncateChars)^[passes + 1] ms =
      microcompactToolResults ms keepRecentFull truncateChars := by
  induction passes with
  | zero => rfl
  | succ passes ih => rw [Function.iterate_succ_apply', ih, microcompactToolResults_twice hk h0]

/-! ## What the passes promise -/

/-- The passes are idempotent, change the string content of old tool results and nothing else, and
    every pointer found in one before them is found after them. -/
structure Microcompacts (ms : List Message) (keepRecentFull truncateChars : Int) : Prop where
  idempotent : microcompactToolResults (microcompactToolResults ms keepRecentFull truncateChars) keepRecentFull
    truncateChars = microcompactToolResults ms keepRecentFull truncateChars
  length : (microcompactToolResults ms keepRecentFull truncateChars).length = ms.length
  frame : ∀ (i : Nat) (m : Message), ms[i]? = some m →
    (microcompactToolResults ms keepRecentFull truncateChars)[i]? = some m ∨
    OldTool ms keepRecentFull i ∧ ∃ before after, m.getContent = .str before ∧
      (microcompactToolResults ms keepRecentFull truncateChars)[i]? = some { m with content := some (.str after) }
  pointers : ∀ (i : Nat) (m : Message) (content pointer : Text), ms[i]? = some m → OldTool ms keepRecentFull i →
    m.getContent = .str content → extractSpillPointer content = some pointer → ∀ passes : Nat,
      ∃ m' content', ((fun ms => microcompactToolResults ms keepRecentFull truncateChars)^[passes] ms)[i]? = some m' ∧
        m'.getContent = .str content' ∧ extractSpillPointer content' = some pointer

/-- Every old tool result that is cut is clear of another marker behind the copies of its pointer. -/
def PointersClear (ms : List Message) (keepRecentFull truncateChars : Int) : Prop :=
  ∀ (i : Nat) (m : Message) (content pointer : Text), ms[i]? = some m → OldTool ms keepRecentFull i →
    m.getContent = .str content → extractSpillPointer content = some pointer → truncateChars < content.length →
    PointerClear content pointer truncateChars

theorem microcompact_frame (hk : 1 ≤ keepRecentFull) (i : Nat) (m : Message) (hm : ms[i]? = some m) :
    (microcompactToolResults ms keepRecentFull truncateChars)[i]? = some m ∨
    OldTool ms keepRecentFull i ∧ ∃ before after, m.getContent = .str before ∧
      (microcompactToolResults ms keepRecentFull truncateChars)[i]? = some { m with content := some (.str after) } := by
  obtain ⟨hold, hnew⟩ := microcompactToolResults_getElem? truncateChars hk i m hm
  by_cases h : OldTool ms keepRecentFull i
  · rw [hold h]
    cases hc : m.getContent with
    | str content =>
      rw [microcompactedMessage_of_str hc]
      split
      · exact Or.inr ⟨h, content, _, rfl, rfl⟩
      · exact Or.inl rfl
    | blocks | null => exact Or.inl (by simp only [microcompactedMessage, hc])
  · exact Or.inl (hnew h)

/-- The passes keep their promise exactly when no pointer of a cut tool result is lost behind
    another marker. -/
theorem microcompacts_iff (ms : List Message) {keepRecentFull truncateChars : Int} (hk : 1 ≤ keepRecentFull)
    (h0 : 0 ≤ truncateChars) :
    Microcompacts ms keepRecentFull truncateChars ↔ PointersClear ms keepRecentFull truncateChars := by
  constructor
  · intro h i m content pointer hm hold hc hp hlong
    obtain ⟨m', content', hm', hc', hp'⟩ := h.pointers i m content pointer hm hold hc hp 1
    rw [Function.iterate_one, (microcompactToolResults_getElem? truncateChars hk i m hm).1 hold, microcompactedMessage_of_str hc,
      if_pos hlong, Option.some.injEq] at hm'
    have hcut : content' = microcompacted content truncateChars := by
      rw [← hm'] at hc'
      exact (Content.str.inj hc').symm
    exact (extract_microcompacted hp truncateChars).mp (hcut ▸ hp')
  · intro h
    refine ⟨microcompactToolResults_twice hk h0, length_microcompactToolResults _ _ _, microcompact_frame hk, ?_⟩
    intro i m content pointer hm hold hc hp passes
    cases passes with
    | zero => exact ⟨m, content, hm, hc, hp⟩
    | succ passes =>
      rw [microcompact_passes hk h0, (microcompactToolResults_getElem? truncateChars hk i m hm).1 hold, microcompactedMessage_of_str hc]
      by_cases hlong : (content.length : Int) > truncateChars
      · rw [if_pos hlong]
        exact ⟨_, _, rfl, rfl, (extract_microcompacted hp truncateChars).mpr (h i m content pointer hm hold hc hp hlong)⟩
      · rw [if_neg hlong]
        exact ⟨m, content, rfl, hc, hp⟩

namespace Spilled

def pointer : Text := "\n[FULL output saved to: /t]".toList

def tool (content : Text) : Message := { role := .tool, content := some (.str content) }

def twice : List Message := [tool (pointer ++ pointer), tool ['o', 'k']]

def once : List Message := [tool ('l' :: 'o' :: 'g' :: pointer), tool ['o', 'k']]

/-- What is left of the second copy when the cut is in front of its last character and bracket. -/
def broken : Text := pointer ++ "\n[FULL output saved to: /\n[old tool output truncated]".toList

end Spilled

open Spilled in
/-- The kept text holds one copy of the pointer and the marker of the other, so none is put behind it
    and the pointer that is found runs into the truncation notice. -/
theorem pointer_lost_in_cut_copy : ¬Microcompacts twice 1 52 := by
  intro h
  have hold : OldTool twice 1 0 := ⟨tool (pointer ++ pointer), rfl, rfl, by decide⟩
  obtain ⟨m', content', hm', hc', hp'⟩ := h.pointers 0 (tool (pointer ++ pointer)) (pointer ++ pointer) pointer rfl
    hold rfl (by decide) 1
  have hcut : ((fun ms => microcompactToolResults ms 1 52)^[1] twice)[0]? = some (tool broken) := by decide +kernel
  obtain rfl := Option.some.inj (hcut.symm.trans hm')
  obtain rfl : broken = content' := Content.str.inj hc'
  exact absurd hp' (by decide)

open Spilled in
theorem microcompacts_once : Microcompacts once 1 3 := by
  refine (microcompacts_iff once (by decide) (by decide)).mpr ?_
  intro i m content pointer hm hold hc hp hlong hin
  cases i with
  | zero =>
    obtain rfl := Option.some.inj hm
    obtain rfl := Content.str.inj hc
    have hpointer : extractSpillPointer ('l' :: 'o' :: 'g' :: Spilled.pointer) = some Spilled.pointer := by decide
    obtain rfl := Option.some.inj (hpointer.symm.trans hp)
    exact absurd hin (by decide)
  | succ i =>
    -- the newest result is not old
    obtain ⟨_, _, _, hcount⟩ := hold
    have hnone : (once.drop (i + 1 + 1)) = [] := by simp [once]
    rw [hnone] at hcount
    exact absurd hcount (by decide)

end Flowly.Agent
