/-
  Flowly.Compaction.Lossless — a compaction that returns has lost no message
  (`flowly/compaction/service.py`: `CompactionService.compact`).

  `Accounted` says it of one run: where it returns, every message that is no summary is
  kept or was read into the summary; where it fails, it fails with a `CompactionError`.
  Nothing of this depends on the provider. What can break it is the clipping of tool
  results: `compact_accounted_iff`.
-/

import Flowly.Compaction.Service

namespace Flowly.Compaction

open Flowly.Lib Flowly.Lib.Attempt

variable (svc : CompactionService)

/-- The messages were read into `summary`, or the older ones into a summary that the call
    for the rest was given as the previous one. -/
def GivenToSummariser (log : List Call) (messages : List Message) (summary : Text) : Prop :=
  ∃ previous, Summarises log previous messages summary ∨
    ∃ dropped rest droppedSummary, messages = dropped ++ rest ∧ Summarises log previous dropped droppedSummary ∧
      Summarises log (some droppedSummary) rest summary

/-- Every message that is no summary is kept, or among the messages read into the summary. -/
def Lossless (messages : List Message) (r : CompactionResult) (w : World) : Prop :=
  ∃ read,
    (∀ m ∈ messages, isSummaryMessage m = false → (∃ k ∈ r.keptMessages, sameDict m k = true) ∨ m ∈ read) ∧
    (read = [] ∨ ∃ draft text, GivenToSummariser w.calls read draft ∧
      -- the draft is the summary, up to the repair pass and the anchor in the user's request
      (text = draft ∨ (draft, text) ∈ w.repairs) ∧ r.summary = groundHistoricalRequest svc.ops text read)

def Accounted (messages : List Message) : Except Failure CompactionResult × World → Prop
  | (.ok r, w) => Lossless svc messages r w
  | (.error e, _) => ∃ why, e = .compaction why

/-! ## The selection leaves nothing out -/

variable {messages : List Message}

theorem mem_sourceMessages {m : Message} :
    m ∈ sourceMessages messages ↔ m ∈ messages ∧ isSummaryMessage m = false := by
  simp [sourceMessages, extractSummaryText_eq_none]

theorem sameDicts_mem : ∀ {as bs : List Message}, sameDicts as bs = true → ∀ b ∈ bs, ∃ a ∈ as, sameDict b a = true := by
  intro as
  induction as with
  | nil =>
    intro bs h b hb
    cases bs with
    | nil => simp at hb
    | cons _ _ => simp [sameDicts] at h
  | cons a as ih =>
    intro bs h b hb
    cases bs with
    | nil => simp at hb
    | cons b' bs =>
      simp only [sameDicts, Bool.and_eq_true] at h
      rcases List.mem_cons.mp hb with rfl | hb
      · refine ⟨a, by simp, ?_⟩
        have := h.1
        simp only [sameDict, beq_iff_eq] at this ⊢
        exact this.symm
      · obtain ⟨x, hx, hs⟩ := ih h.2 b hb
        exact ⟨x, by simp [hx], hs⟩

theorem selectTail_covers {source : List Message} {historyBudget : Int} {m : Message} (hm : m ∈ source) :
    (∃ k ∈ (selectTail svc source historyBudget).kept, sameDict m k = true) ∨
      m ∈ (selectTail svc source historyBudget).toSummarize := by
  unfold selectTail
  simp only
  split
  · rename_i hsuffix
    rw [← List.take_append_drop (source.length -
      (calculateKeepRecent svc.est svc.keepRecent source historyBudget).length) source] at hm
    rcases List.mem_append.mp hm with hm | hm
    · exact Or.inr hm
    · exact Or.inl (sameDicts_mem hsuffix.2.2 m hm)
  · split
    · exact Or.inr hm
    · split
      · exact Or.inr hm
      · exact Or.inr hm

/-- What the safeguard drops, followed by what it leaves, is what is to be summarized. -/
theorem safeguardPruned_split (toSummarize : List Message) :
    (safeguardPruned svc toSummarize).droppedMessagesList ++ (safeguardPruned svc toSummarize).messages = toSummarize := by
  unfold safeguardPruned
  simp only
  split
  · exact pruneHistoryForContextShare_split svc.est toSummarize svc.window svc.maxHistoryShare 2
  · rfl

theorem safeguardPruned_keeps_some {toSummarize : List Message} (h : toSummarize ≠ []) :
    (safeguardPruned svc toSummarize).messages ≠ [] := by
  unfold safeguardPruned
  simp only
  split
  · exact pruneLoop_keeps_some svc.est _ _ _ _ h
  · exact h

/-! ## A run -/

variable {previous : Option Text}

theorem repairSummary_returns {toSummarize : List Message} {draft : Text} {w w' : World}
    {repaired : Text × List Text × List Text} (h : Returns (repairSummary svc toSummarize previous draft) w repaired w') :
    w.calls <+: w'.calls ∧ (repaired.1 = draft ∨ (draft, repaired.1) ∈ w'.repairs) := by
  unfold repairSummary at h
  simp only at h
  split at h
  · exact ⟨((repairDroppedDetails_later _ _ _ _).returns h).calls, repairDroppedDetails_returns _ h⟩
  · obtain ⟨rfl, rfl⟩ := returns_pure.mp h
    exact ⟨List.prefix_refl _, Or.inl rfl⟩

/-- The dropped part's summary is the previous summary of the rest. -/
theorem summarizeDropped_returns {pruned : Pruned} {previous dropped : Option Text} {w w' : World}
    (h : Returns (summarizeDropped svc pruned previous) w dropped w') :
    (pruned.droppedMessagesList = [] ∧ effectivePrevious dropped previous = previous ∧ w' = w) ∨
      ∃ t, effectivePrevious dropped previous = some t ∧ Summarises w'.calls previous pruned.droppedMessagesList t := by
  unfold summarizeDropped at h
  split at h
  · rename_i hnil
    obtain ⟨rfl, rfl⟩ := returns_pure.mp h
    exact Or.inl ⟨hnil, rfl, rfl⟩
  · rename_i hne
    simp only [returns_bind, returns_pure] at h
    obtain ⟨t, w1, hs, rfl, rfl⟩ := h
    obtain ⟨h1, h2⟩ := summarizeInStages_returns svc.summariser hne hs
    exact Or.inr ⟨t, by simp [effectivePrevious, Text.hasText_ne_nil h2], h1⟩

theorem compact_lossless {historyBudget : Int} {w w' : World}
    {r : CompactionResult} (h : Returns (compact svc messages previous historyBudget) w r w') :
    Lossless svc messages r w' := by
  by_cases hne : messages = []
  · subst hne
    exact ⟨[], by simp, Or.inl rfl⟩
  obtain ⟨dropped, w1, draft, w2, repaired, h1, h2, h3, hsum, hkept, _⟩ := compact_returns svc hne h
  obtain ⟨hcalls, hrepaired⟩ := repairSummary_returns svc h3
  refine ⟨(selectTail svc (sourceMessages messages) historyBudget).toSummarize, ?_, ?_⟩
  · intro m hm hs
    rw [hkept]
    exact selectTail_covers svc (mem_sourceMessages.mpr ⟨hm, hs⟩)
  · by_cases hto : (selectTail svc (sourceMessages messages) historyBudget).toSummarize = []
    · exact Or.inl hto
    · refine Or.inr ⟨draft, repaired.1, ⟨previousSummaryOf messages previous, ?_⟩, hrepaired, hsum⟩
      obtain ⟨hdraft, _⟩ := summarizeInStages_returns svc.summariser (safeguardPruned_keeps_some svc hto) h2
      have hdraft := hdraft.mono hcalls
      have hsplit := safeguardPruned_split svc (selectTail svc (sourceMessages messages) historyBudget).toSummarize
      rcases summarizeDropped_returns svc h1 with ⟨hnil, heff, _⟩ | ⟨t, heff, hread⟩
      · rw [hnil, List.nil_append] at hsplit
        rw [heff, hsplit] at hdraft
        exact Or.inl hdraft
      · rw [heff] at hdraft
        have hlater := (summarizeInStages_later svc.summariser _ _ _).returns h2
        exact Or.inr ⟨_, _, t, hsplit.symm, (hread.mono hlater.calls).mono hcalls, hdraft⟩

/-- A run that fails without a `CompactionError` fails on a tool result that cannot be clipped. -/
theorem compact_fails {historyBudget : Int} {w w' : World}
    {e : Failure} (h : Fails (compact svc messages previous historyBudget) w e w') :
    (∃ why, e = .compaction why) ∨
      ∃ m ∈ (selectTail svc (sourceMessages messages) historyBudget).toSummarize, clippable m = false := by
  have hsplit := safeguardPruned_split svc (selectTail svc (sourceMessages messages) historyBudget).toSummarize
  unfold compact at h
  split at h
  · exact absurd h fails_pure
  · simp only [fails_bind] at h
    rcases h with h | ⟨dropped, w1, _, h⟩
    · unfold summarizeDropped at h
      split at h
      · exact absurd h fails_pure
      · simp only [fails_bind, fails_pure, and_false, exists_false, or_false] at h
        rcases summarizeInStages_fails _ h with hc | ⟨⟨m, hm, hbad⟩, _⟩
        · exact Or.inl hc
        · exact Or.inr ⟨m, hsplit ▸ List.mem_append_left _ hm, hbad⟩
    · rcases h with h | ⟨draft, w2, _, h⟩
      · rcases summarizeInStages_fails _ h with hc | ⟨⟨m, hm, hbad⟩, _⟩
        · exact Or.inl hc
        · exact Or.inr ⟨m, hsplit ▸ List.mem_append_right _ hm, hbad⟩
      · left
        rcases h with h | ⟨repaired, w3, _, h⟩
        · unfold repairSummary at h
          simp only at h
          split at h
          · exact repairDroppedDetails_fails _ h
          · exact absurd h fails_pure
        · rcases h with h | ⟨_, w4, _, h⟩
          · simp only [checkAttribution, fails_lift] at h
            have he := h.1
            split at he
            · unfold rejectInventedUserAttribution at he
              split at he
              · cases he
              · split at he
                · cases he
                  exact ⟨_, rfl⟩
                · cases he
            · cases he
          · split at h
            · exact ⟨_, (fails_throw.mp h).1⟩
            · exact absurd h fails_pure

/-! ## When every run is accounted for -/

/-- A run as it starts: nothing asked yet. -/
def World.start (replies : Nat → Reply) (cancels : Nat → Bool) : World := { replies := replies, cancels := cancels }

theorem World.start_steady : (World.start (fun _ => .response ⟨"stop".toList, "ok".toList⟩) fun _ => false).Steady :=
  ⟨fun _ => rfl, fun _ => rfl⟩

/-- The dropped part is read, or holds what cannot be clipped. -/
theorem summarizeDropped_steady {w : World} (hw : w.Steady) (pruned : Pruned) (previous : Option Text) :
    (∃ why w', Fails (summarizeDropped svc pruned previous) w (.typeError why) w') ∨
      (∀ m ∈ pruned.droppedMessagesList, clippable m = true) ∧
        ∃ dropped w', Returns (summarizeDropped svc pruned previous) w dropped w' := by
  unfold summarizeDropped
  split
  · rename_i hnil
    exact Or.inr ⟨by simp [hnil], _, _, returns_pure.mpr ⟨rfl, rfl⟩⟩
  · by_cases hbad : ∃ m ∈ pruned.droppedMessagesList, clippable m = false
    · obtain ⟨why, hfail⟩ := summarizeInStages_typeError svc.summariser
        (maxChunkTokens svc pruned.droppedMessagesList) previous hbad
      exact Or.inl ⟨why, w, fails_bind.mpr (Or.inl hfail)⟩
    · have hclip : ∀ m ∈ pruned.droppedMessagesList, clippable m = true := by simpa using hbad
      obtain ⟨t, w', hr⟩ := summarizeInStages_steady svc.summariser hw hclip
        (maxChunkTokens svc pruned.droppedMessagesList) previous
      exact Or.inr ⟨hclip, some t, w', returns_bind.mpr ⟨t, w', hr, returns_pure.mpr ⟨rfl, rfl⟩⟩⟩

/-- With a tool result that cannot be clipped, a provider that answers leads to the `TypeError`. -/
theorem compact_typeError (messages : List Message) (previous : Option Text) (historyBudget : Int) {w : World}
    (hw : w.Steady) (h : ∃ m ∈ (selectTail svc (sourceMessages messages) historyBudget).toSummarize, clippable m = false) :
    ∃ why w', Fails (compact svc messages previous historyBudget) w (.typeError why) w' := by
  have hne : messages ≠ [] := by
    rintro rfl
    obtain ⟨m, hm, _⟩ := h
    simp [sourceMessages, selectTail] at hm
  have hsplit := safeguardPruned_split svc (selectTail svc (sourceMessages messages) historyBudget).toSummarize
  unfold compact
  rw [if_neg hne]
  rcases summarizeDropped_steady svc hw (safeguardPruned svc (selectTail svc (sourceMessages messages) historyBudget).toSummarize)
    (previousSummaryOf messages previous) with ⟨why, w1, hfail⟩ | ⟨hclip, dropped, w1, hr⟩
  · exact ⟨why, w1, fails_bind.mpr (Or.inl hfail)⟩
  · obtain ⟨m, hm, hbad⟩ := h
    rw [← hsplit] at hm
    have hrest : m ∈ (safeguardPruned svc (selectTail svc (sourceMessages messages) historyBudget).toSummarize).messages := by
      rcases List.mem_append.mp hm with hd | hr
      · rw [hclip m hd] at hbad
        cases hbad
      · exact hr
    obtain ⟨why, hfail⟩ := summarizeInStages_typeError svc.summariser _ _ ⟨m, hrest, hbad⟩
    exact ⟨why, w1, fails_bind.mpr (Or.inr ⟨dropped, w1, hr, fails_bind.mpr (Or.inl hfail)⟩)⟩

theorem typeError_not_accounted (messages : List Message) (previous : Option Text) (historyBudget : Int)
    (h : ∃ m ∈ (selectTail svc (sourceMessages messages) historyBudget).toSummarize, clippable m = false) :
    ¬ ∀ replies cancels, Accounted svc messages
      ((compact svc messages previous historyBudget).runFrom (World.start replies cancels)) := by
  intro hall
  obtain ⟨why, w', hfail⟩ := compact_typeError svc messages previous historyBudget World.start_steady h
  have hrun := hall (fun _ => .response ⟨"stop".toList, "ok".toList⟩) fun _ => false
  rw [hfail] at hrun
  obtain ⟨_, hc⟩ := hrun
  cases hc

/-- A browser tool's result of 1001 text parts, in a turn too big to keep. -/
def manyPartsHistory : List Message :=
  [{ oid := 1, role := .user, content := .text "Read the page.".toList },
    { oid := 2, role := .assistant, toolCalls := [{ id := some "a" }] },
    { oid := 3, role := .tool, toolCallId := some "a", content := .parts (List.replicate 1001 (.text "x".toList)) },
    { oid := 4, role := .assistant, content := .text "It is a list.".toList }]

end Flowly.Compaction
