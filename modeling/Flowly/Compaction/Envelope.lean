/-
  Flowly.Compaction.Envelope — the envelope a summary is stored in cannot be broken out of,
  and gives back what was put into it (`build_summary_content`, `extract_summary_text`).

  No marker reaches into the text that is put in the place of one (`Foreign`), so the two are
  gone when they have been replaced one after the other.
-/

import Flowly.Compaction.Message
import Flowly.Lib.Replacing

namespace Flowly.Compaction

open Flowly.Lib Flowly.Lib.Text

/-- A summary with both reference markers neutralised. -/
def neutralised (summary : Text) : Text :=
  Text.replace (Text.replace summary SUMMARY_REFERENCE_START MARKER_REMOVED) SUMMARY_REFERENCE_END MARKER_REMOVED

/-- A `system` message with the content built for a summary; its other fields are any. -/
def summaryMessage (m : Message) (summary : Text) : Message := { m with role := .system, content := .text (buildSummaryContent summary) }

def summaryHead : Text := SUMMARY_MARKER ++ ['\n', '\n'] ++ SUMMARY_REFERENCE_PREAMBLE ++ ['\n', '\n']

theorem envelope_assoc (marker preamble opening body closing : Text) :
    marker ++ ['\n', '\n'] ++ preamble ++ ['\n', '\n'] ++ opening ++ ['\n'] ++ body ++ ['\n'] ++ closing =
      marker ++ ['\n', '\n'] ++ preamble ++ ['\n', '\n'] ++ (opening ++ '\n' :: (body ++ '\n' :: closing)) := by
  simp

theorem buildSummaryContent_eq (s : Text) : buildSummaryContent s =
    summaryHead ++ (SUMMARY_REFERENCE_START ++ '\n' :: (neutralised s ++ '\n' :: SUMMARY_REFERENCE_END)) :=
  envelope_assoc _ _ _ _ _

theorem head_assoc (marker preamble : Text) :
    marker ++ ['\n', '\n'] ++ preamble ++ ['\n', '\n'] = marker ++ ['\n', '\n'] ++ preamble ++ ['\n'] ++ ['\n'] := by
  simp

theorem envelope_split (head opening body closing : Text) :
    head ++ (opening ++ '\n' :: (body ++ '\n' :: closing)) = head ++ (opening ++ '\n' :: (body ++ ['\n'])) ++ (closing ++ []) := by
  simp

/-- What follows the opening marker. -/
theorem envelope_drop (head opening body closing : Text) :
    (head ++ (opening ++ '\n' :: (body ++ '\n' :: closing))).drop (head.length + opening.length) =
      '\n' :: (body ++ ['\n']) ++ (closing ++ []) := by
  rw [← List.append_assoc, ← List.length_append, List.drop_left]
  simp

/-! ## The markers -/

theorem start_marker : Marker SUMMARY_REFERENCE_START := by decide

theorem end_marker : Marker SUMMARY_REFERENCE_END := by decide

theorem start_foreign : Foreign SUMMARY_REFERENCE_START MARKER_REMOVED := by
  refine ⟨?_, '[', by decide, by decide⟩
  intro c hc
  obtain rfl : '<' = c := Option.some.inj hc
  decide

theorem end_foreign : Foreign SUMMARY_REFERENCE_END MARKER_REMOVED := by
  refine ⟨?_, '[', by decide, by decide⟩
  intro c hc
  obtain rfl : '<' = c := Option.some.inj hc
  decide

theorem no_start (s : Text) : ¬SUMMARY_REFERENCE_START <:+: neutralised s := fun h =>
  not_infix_replace start_marker.ne_nil start_foreign s (infix_of_replace end_marker.ne_nil start_marker.ne_nil start_foreign h)

theorem no_end (s : Text) : ¬SUMMARY_REFERENCE_END <:+: neutralised s := not_infix_replace end_marker.ne_nil end_foreign _

/-- A text without the markers is stored as it is. -/
theorem neutralised_eq {t : Text} (hstart : ¬SUMMARY_REFERENCE_START <:+: t) (hend : ¬SUMMARY_REFERENCE_END <:+: t) :
    neutralised t = t := by
  unfold neutralised
  rw [replace_absent hstart, replace_absent hend]

theorem angle_not_mem_preamble : '<' ∉ SUMMARY_REFERENCE_PREAMBLE := by
  -- as characters, since the kernel takes long to decode a literal
  unfold SUMMARY_REFERENCE_PREAMBLE
  repeat rw [String.toList_append]
  repeat rw [String.toList_ofList]
  decide

theorem angle_not_mem_head : '<' ∉ summaryHead := by
  unfold summaryHead
  simp only [List.mem_append, not_or]
  exact ⟨⟨⟨by decide, by decide⟩, angle_not_mem_preamble⟩, by decide⟩

theorem not_infix_of_angle {m t : Text} (hm : m.head? = some '<') (ht : '<' ∉ t) : ¬m <:+: t := by
  intro h
  cases m with
  | nil => cases hm
  | cons c m =>
    obtain rfl := Option.some.inj hm
    exact ht (h.subset List.mem_cons_self)

theorem head_no_start : ¬SUMMARY_REFERENCE_START <:+: summaryHead := not_infix_of_angle rfl angle_not_mem_head

/-- The closing marker stands nowhere before the end of the content. -/
theorem before_end_no_end (s : Text) : ¬SUMMARY_REFERENCE_END <:+: summaryHead ++ (SUMMARY_REFERENCE_START ++ '\n' :: (neutralised s ++ ['\n'])) := by
  have hnl : '\n' ∉ SUMMARY_REFERENCE_END := by decide
  obtain ⟨front, hfront⟩ : ∃ front, summaryHead = front ++ ['\n'] :=
    ⟨SUMMARY_MARKER ++ ['\n', '\n'] ++ SUMMARY_REFERENCE_PREAMBLE ++ ['\n'], head_assoc _ _⟩
  have hangle : '<' ∉ front := fun h => angle_not_mem_head (by rw [hfront]; exact List.mem_append_left _ h)
  rw [hfront, List.append_assoc, List.singleton_append, infix_append_cons hnl, infix_append_cons hnl, infix_append_cons hnl]
  intro h
  rcases h with h | h | h | h
  · exact not_infix_of_angle rfl hangle h
  · have hlen : SUMMARY_REFERENCE_START.length < SUMMARY_REFERENCE_END.length := by decide
    have := h.length_le
    omega
  · exact no_end s h
  · exact end_marker.ne_nil (List.infix_nil.1 h)

theorem start_once (s : Text) : OccursOnce SUMMARY_REFERENCE_START (buildSummaryContent s) := by
  rw [buildSummaryContent_eq]
  refine start_marker.occursOnce head_no_start ?_
  have hnl : '\n' ∉ SUMMARY_REFERENCE_START := by decide
  rw [← List.nil_append ('\n' :: _), infix_append_cons hnl, infix_append_cons hnl]
  intro h
  rcases h with h | h | h
  · exact start_marker.ne_nil (List.infix_nil.1 h)
  · exact no_start s h
  · -- the closing marker is `</`, the opening one `<h`
    have hinner : SUMMARY_REFERENCE_START <:+: SUMMARY_REFERENCE_END.drop 1 := by
      rcases List.infix_cons_iff.1 (show SUMMARY_REFERENCE_START <:+: '<' :: SUMMARY_REFERENCE_END.drop 1 from h) with hp | hin
      · exact absurd hp (by decide)
      · exact hin
    exact not_infix_of_angle rfl (by decide) hinner

theorem end_once (s : Text) : OccursOnce SUMMARY_REFERENCE_END (buildSummaryContent s) := by
  rw [buildSummaryContent_eq, envelope_split]
  exact end_marker.occursOnce (before_end_no_end s) fun h => end_marker.ne_nil (List.infix_nil.1 h)

/-! ## What is read back -/

/-- The content has no white space at its edges. -/
theorem strip_buildSummaryContent (s : Text) : Text.strip (buildSummaryContent s) = buildSummaryContent s := by
  have h := strip_append_space (t := buildSummaryContent s) (s := []) ?_ ?_ (fun c hc => by cases hc)
  · rwa [List.append_nil] at h
  · intro c hc
    obtain rfl : '[' = c := Option.some.inj hc
    decide
  · intro c hc
    have hlast : (buildSummaryContent s).getLast? = SUMMARY_REFERENCE_END.getLast? := by
      unfold buildSummaryContent
      rw [List.getLast?_append_of_ne_nil _ end_marker.ne_nil]
    rw [hlast] at hc
    obtain rfl : '>' = c := Option.some.inj ((by decide : SUMMARY_REFERENCE_END.getLast? = some '>').symm.trans hc)
    decide

/-- White space around a text is stripped with what the text has of its own. -/
theorem strip_newlines (t : Text) : Text.strip ('\n' :: (t ++ ['\n'])) = Text.strip t := by
  have hl : Text.lstrip ('\n' :: (t ++ ['\n'])) = Text.lstrip (t ++ ['\n']) := rfl
  unfold Text.strip
  rw [hl]
  unfold Text.lstrip
  by_cases ht : t.dropWhile isSpace = []
  · have hspace : ∀ c ∈ t, isSpace c = true := List.dropWhile_eq_nil_iff.1 ht
    rw [ht, List.dropWhile_eq_nil_iff.2]
    intro c hc
    rcases List.mem_append.1 hc with hc | hc
    · exact hspace c hc
    · rw [List.mem_singleton.1 hc]
      rfl
  · rw [List.dropWhile_append, if_neg (by simpa using ht), rstrip_eq, rstrip_eq, List.rdropWhile_concat_pos _ _ _ rfl]

theorem summaryBody_eq {text : Text} {start stop : Nat} (hstart : Text.find SUMMARY_REFERENCE_START text = some start)
    (hstop : Text.find SUMMARY_REFERENCE_END (text.drop (start + SUMMARY_REFERENCE_START.length)) = some stop) :
    summaryBody text = Text.strip ((text.drop (start + SUMMARY_REFERENCE_START.length)).take stop) := by
  unfold summaryBody
  simp only [hstart, hstop]

theorem summaryBody_buildSummaryContent (s : Text) : summaryBody (buildSummaryContent s) = Text.strip (neutralised s) := by
  have hstart : Text.find SUMMARY_REFERENCE_START (buildSummaryContent s) = some summaryHead.length := by
    rw [buildSummaryContent_eq]
    exact start_marker.find_append head_no_start _
  have hbody : (buildSummaryContent s).drop (summaryHead.length + SUMMARY_REFERENCE_START.length) =
      '\n' :: (neutralised s ++ ['\n']) ++ (SUMMARY_REFERENCE_END ++ []) := by
    rw [buildSummaryContent_eq]
    exact envelope_drop _ _ _ _
  have hno : ¬SUMMARY_REFERENCE_END <:+: '\n' :: (neutralised s ++ ['\n']) := by
    intro h
    refine before_end_no_end s (h.trans ?_)
    exact ((List.suffix_append _ _).trans (List.suffix_append _ _)).isInfix
  have hend := end_marker.find_append hno []
  rw [← hbody] at hend
  rw [summaryBody_eq hstart hend, hbody, List.take_left, strip_newlines]

theorem extractSummaryText_summaryMessage (m : Message) (s : Text) :
    extractSummaryText (summaryMessage m s) = some (Text.strip (neutralised s)) := by
  have hsummary : isSummaryMessage (summaryMessage m s) = true := by
    have hl : Text.lstrip (buildSummaryContent s) = buildSummaryContent s := rfl
    have hstarts : Text.startsWith (buildSummaryContent s) SUMMARY_MARKER = true := by
      unfold Text.startsWith
      rw [List.isPrefixOf_iff_prefix, buildSummaryContent_eq]
      unfold summaryHead
      simp only [List.append_assoc]
      exact List.prefix_append _ _
    unfold isSummaryMessage summaryMessage
    simp only [ne_eq, not_true, if_false, hl]
    split
    · rfl
    · unfold SUMMARY_MARKERS
      rw [List.any_cons, hstarts]
      rfl
  unfold extractSummaryText
  rw [if_pos hsummary]
  show some (summaryBody (Text.strip (buildSummaryContent s))) = _
  rw [strip_buildSummaryContent, summaryBody_buildSummaryContent]

/-- What was read back is stored as it is. -/
theorem neutralised_strip_neutralised (s : Text) : neutralised (Text.strip (neutralised s)) = Text.strip (neutralised s) := by
  have hin : Text.strip (neutralised s) <:+: neutralised s := by
    unfold Text.strip Text.rstrip Text.lstrip
    have hright : ((neutralised s).dropWhile isSpace).reverse.dropWhile isSpace <:+: ((neutralised s).dropWhile isSpace).reverse :=
      (List.dropWhile_suffix _).isInfix
    have := List.reverse_infix.2 hright
    rw [List.reverse_reverse] at this
    exact this.trans (List.dropWhile_suffix _).isInfix
  exact neutralised_eq (fun h => no_start s (h.trans hin)) fun h => no_end s (h.trans hin)

/-- The envelope has each reference marker once, the closing one at its end; it is recognised,
    and gives back the summary with the markers neutralised and stripped; what it gives back
    it gives back again. -/
theorem summary_round_trips (m m' : Message) (s : Text) :
    OccursOnce SUMMARY_REFERENCE_START (buildSummaryContent s) ∧ OccursOnce SUMMARY_REFERENCE_END (buildSummaryContent s) ∧
      SUMMARY_REFERENCE_END <:+ buildSummaryContent s ∧ isSummaryMessage (summaryMessage m s) = true ∧
      extractSummaryText (summaryMessage m s) = some (Text.strip (neutralised s)) ∧
      (extractSummaryText (summaryMessage m s)).bind (fun read => extractSummaryText (summaryMessage m' read)) =
        extractSummaryText (summaryMessage m s) := by
  have hread := extractSummaryText_summaryMessage m s
  refine ⟨start_once s, end_once s, ⟨_, rfl⟩, ?_, hread, ?_⟩
  · by_contra hnot
    rw [extractSummaryText_eq_none.2 (Bool.not_eq_true _ |>.mp hnot)] at hread
    cases hread
  · rw [hread, Option.bind_some, extractSummaryText_summaryMessage, neutralised_strip_neutralised, strip_strip]

end Flowly.Compaction
