/-
  Flowly.Compaction.Service — `CompactionService.compact` (`flowly/compaction/service.py`):
  the inherited summaries, the kept tail, the safeguard's pruning, the summary and the
  check that it shrinks the context.

  A service carries its effective window and reserve as numbers, as the properties that
  compute them return them. `track_cycle` only counts in the session's state and is left
  out. A run is one of `Flowly.Compaction.Summarizer`.

  Proved: a compaction that returns keeps the newest real user message unless the tail
  covers a history whose last user-role message is a nudge (`compact_keeps_newestUser_iff`).
-/

import Flowly.Compaction.Summarizer

namespace Flowly.Compaction

open Flowly.Lib Flowly.Lib.Attempt

inductive Mode where
  | default
  | safeguard
  deriving DecidableEq

structure CompactionService where
  mode : Mode := .safeguard
  keepRecent : KeepRecentConfig := {}
  maxHistoryShare : ℚ := 3 / 5
  /-- `effective_reserve_tokens`. -/
  reserveTokens : Int
  /-- `effective_context_window`. -/
  window : Nat
  windowPos : 0 < window
  ops : TextOps
  est : Message → Nat

structure CompactionResult where
  summary : Text
  tokensBefore : Nat
  tokensAfter : Nat
  messagesRemoved : Nat
  droppedChunks : Nat := 0
  droppedMessages : Nat := 0
  droppedTokens : Nat := 0
  keptMessages : List Message := []
  detailsMissingBeforeRepair : List Text := []
  detailsMissingAfterRepair : List Text := []

variable (svc : CompactionService)

def CompactionService.summariser : Summariser := ⟨svc.ops, svc.est, svc.reserveTokens, svc.window⟩

def conversational (m : Message) : Bool :=
  (m.role = .user ∨ m.role = .assistant) && m.toolCalls = [] && !m.displayHidden && !isSummaryMessage m &&
    !isContextBoundary m &&
      match m.content with
      | .text t => Text.hasText t
      | .parts ps => ps ≠ []
      | .null => false

def countConversationalMessages (messages : List Message) : Nat := (messages.filter conversational).length

/-! ## The inherited summaries -/

def sourceMessages (messages : List Message) : List Message := messages.filter fun m => extractSummaryText m = none

def inheritedSummaries (messages : List Message) (previous : Option Text) : List Text :=
  ((messages.filterMap extractSummaryText ++ previous.toList).map Text.strip).filter fun t => t ≠ []

/-- `"\n\n".join(dict.fromkeys(inherited_summaries))`, if there are any. -/
def previousSummaryOf (messages : List Message) (previous : Option Text) : Option Text :=
  let inherited := inheritedSummaries messages previous
  if inherited = [] then previous else some (Text.join ['\n', '\n'] inherited.eraseDups)

/-! ## The kept tail -/

/-- `kept_messages` and `messages_to_summarize`. -/
structure Selection where
  kept : List Message
  toSummarize : List Message

/-- `a == b` of two lists of messages. -/
def sameDicts : List Message → List Message → Bool
  | [], [] => true
  | a :: as, b :: bs => sameDict a b && sameDicts as bs
  | _, _ => false

def selectTail (source : List Message) (historyBudget : Int) : Selection :=
  let kept := calculateKeepRecent svc.est svc.keepRecent source historyBudget
  let keptCount := kept.length
  if 0 < keptCount ∧ keptCount < source.length ∧ sameDicts kept (source.drop (source.length - keptCount)) then
    ⟨kept, source.take (source.length - keptCount)⟩
  else if 0 < keptCount ∧ keptCount < source.length then ⟨kept, source⟩
  else if keptCount = source.length ∧ source ≠ [] then
    let newestBlock := (splitIntoTurnBlocks source).getLast?.getD []
    ⟨essentialTurnTail newestBlock, source⟩
  else ⟨[], source⟩

/-! ## `compact` -/

def safeguardPruned (toSummarize : List Message) : Pruned :=
  let pruned := pruneHistoryForContextShare svc.est toSummarize svc.window svc.maxHistoryShare 2
  if svc.mode = .safeguard ∧ pruned.droppedChunks > 0 then pruned else ⟨toSummarize, [], 0, 0, 0⟩

def maxChunkTokens (messages : List Message) : Nat :=
  max 1 (svc.window * computeAdaptiveChunkRatio svc.est messages svc.window).floor.toNat

def summarizeDropped (pruned : Pruned) (previous : Option Text) : Run (Option Text) :=
  if pruned.droppedMessagesList = [] then pure none
  else do
    let summary ← summarizeInStages svc.summariser pruned.droppedMessagesList
      (maxChunkTokens svc pruned.droppedMessagesList) previous
    pure (some summary)

/-- `dropped_summary or previous_summary`. -/
def effectivePrevious (dropped previous : Option Text) : Option Text :=
  match dropped with
  | some t => if t = [] then previous else some t
  | none => previous

def repairSummary (toSummarize : List Message) (previous : Option Text) (draft : Text) :
    Run (Text × List Text × List Text) :=
  let owner := svc.ops.ownerIdentifiers toSummarize
  if Text.hasText (previous.getD []) ∨ owner ≠ [] then
    repairDroppedDetails svc.summariser (previous.getD []) draft owner
  else pure (draft, [], [])

def wouldNotReduce (before after : Nat) : Failure :=
  .compaction ("compaction would not reduce context (".toList ++ (toString before).toList ++ " → ".toList ++
    (toString after).toList ++ " tokens); refusing to commit".toList)

/-- A summary that inherits nothing must not quote a user where none spoke. -/
def checkAttribution (messages source : List Message) (previous : Option Text) (summary : Text) : Run Unit :=
  lift (if inheritedSummaries messages previous = [] then rejectInventedUserAttribution svc.ops summary source else .ok ())

def compact (messages : List Message) (previous : Option Text) (historyBudget : Int) : Run CompactionResult :=
  if messages = [] then
    pure { summary := orFallback previous, tokensBefore := 0, tokensAfter := 0, messagesRemoved := 0 }
  else do
    let source := sourceMessages messages
    let previousSummary := previousSummaryOf messages previous
    let selection := selectTail svc source historyBudget
    let pruned := safeguardPruned svc selection.toSummarize
    let dropped ← summarizeDropped svc pruned previousSummary
    let draft ← summarizeInStages svc.summariser pruned.messages (maxChunkTokens svc pruned.messages)
      (effectivePrevious dropped previousSummary)
    let repaired ← repairSummary svc selection.toSummarize previousSummary draft
    let summary := groundHistoricalRequest svc.ops repaired.1 selection.toSummarize
    checkAttribution svc messages source previous summary
    let tokensBefore := estimateMessagesTokens svc.est messages
    let tokensAfter := estimateMessagesTokens svc.est
      ({ role := .system, content := .text (buildSummaryContent summary) } :: selection.kept)
    if tokensAfter ≥ tokensBefore then throw (wouldNotReduce tokensBefore tokensAfter)
    else
      pure
        { summary := summary
          tokensBefore := tokensBefore
          tokensAfter := tokensAfter
          messagesRemoved := countConversationalMessages messages - countConversationalMessages selection.kept
          droppedChunks := pruned.droppedChunks
          droppedMessages := pruned.droppedMessages
          droppedTokens := pruned.droppedTokens
          keptMessages := selection.kept
          detailsMissingBeforeRepair := repaired.2.1
          detailsMissingAfterRepair := repaired.2.2 }

/-- How a compaction that returned went: every step's result. -/
theorem compact_returns {messages : List Message} {previous : Option Text} {historyBudget : Int} {w w' : World}
    {r : CompactionResult} (hne : messages ≠ []) (h : Returns (compact svc messages previous historyBudget) w r w') :
    let selection := selectTail svc (sourceMessages messages) historyBudget
    let pruned := safeguardPruned svc selection.toSummarize
    let previousSummary := previousSummaryOf messages previous
    ∃ dropped w1 draft w2 repaired,
      Returns (summarizeDropped svc pruned previousSummary) w dropped w1 ∧
      Returns (summarizeInStages svc.summariser pruned.messages (maxChunkTokens svc pruned.messages)
        (effectivePrevious dropped previousSummary)) w1 draft w2 ∧
      Returns (repairSummary svc selection.toSummarize previousSummary draft) w2 repaired w' ∧
      r.summary = groundHistoricalRequest svc.ops repaired.1 selection.toSummarize ∧
      r.keptMessages = selection.kept ∧ r.tokensAfter < r.tokensBefore := by
  unfold compact at h
  rw [if_neg hne] at h
  simp only [checkAttribution, returns_bind, returns_lift] at h
  obtain ⟨dropped, w1, h1, draft, w2, h2, repaired, w3, h3, _, _, ⟨_, rfl⟩, h⟩ := h
  split at h
  · exact absurd h returns_throw
  · rename_i hlt
    obtain ⟨rfl, rfl⟩ := returns_pure.mp h
    exact ⟨dropped, w1, draft, w2, repaired, h1, h2, h3, rfl, rfl, by simpa using hlt⟩

/-! ## The newest user message is kept -/

def lastUserRole (messages : List Message) : Option Message := messages.reverse.find? fun m => m.role = .user

/-- The tail selection covers the whole summary-free history, and behind the newest real user
    message a nudge has the last user-role word. -/
def CoveredBehindNudge (messages : List Message) (historyBudget : Int) : Prop :=
  let source := sourceMessages messages
  calculateKeepRecent svc.est svc.keepRecent source historyBudget = source ∧
    (newestUser source).isSome ∧ ∃ n, lastUserRole source = some n ∧ n.nudge = true

theorem find?_filter_of_imp {p q : Message → Bool} (h : ∀ m, p m = true → q m = true) (ms : List Message) :
    (ms.filter q).reverse.find? p = ms.reverse.find? p := by
  rw [← List.filter_reverse, List.find?_filter]
  congr 1
  funext m
  by_cases hp : p m = true
  · simp [hp, h m hp]
  · simp [hp]

/-- Summaries are not user messages. -/
theorem newestUser_sourceMessages (messages : List Message) :
    newestUser (conversation (sourceMessages messages)) = newestUser (conversation messages) := by
  have hcomm : conversation (sourceMessages messages) = (conversation messages).filter fun m => extractSummaryText m = none := by
    simp only [conversation, sourceMessages, List.filter_filter, Bool.and_comm]
  rw [hcomm, newestUser, newestUser]
  refine find?_filter_of_imp (fun m hm => ?_) _
  simp only [Bool.decide_and, Bool.and_eq_true, decide_eq_true_eq] at hm
  simp [extractSummaryText_eq_none, isSummaryMessage_of_user hm.1]

/-- A history read up to its last block: the block's opener is the last user-role message. -/
theorem lastUserRole_of_blocks (older : List Message) {m : Message} {answers : List Message} (hm : m.role = .user)
    (ha : ∀ x ∈ answers, x.role ≠ .user) : lastUserRole (older ++ m :: answers) = some m := by
  unfold lastUserRole
  rw [List.reverse_append, List.reverse_cons, List.append_assoc, List.find?_append,
    List.find?_eq_none.mpr (by simpa using ha)]
  simp [hm]

theorem newestUser_of_blocks (older : List Message) {m : Message} {answers : List Message} (hm : m.role = .user)
    (hn : m.nudge = false) (ha : ∀ x ∈ answers, x.role ≠ .user) : newestUser (older ++ m :: answers) = some m := by
  unfold newestUser
  rw [List.reverse_append, List.reverse_cons, List.append_assoc, List.find?_append,
    List.find?_eq_none.mpr (by simpa using fun x hx h => absurd h (ha x hx))]
  simp [hm, hn]

theorem mem_essentialTurnTail {m u : Message} {answers : List Message} (hm : m.role = .user) (hu : u.role = .user) :
    u ∈ essentialTurnTail (m :: answers) ↔ u = m := by
  have hfind : (m :: answers).find? (fun x => x.role = .user) = some m := by simp [hm]
  change u ∈ ((m :: answers).find? fun x => x.role = .user).toList ++ ((m :: answers).reverse.find? plainAnswer).toList ↔ _
  rw [hfind]
  constructor
  · intro h
    rcases List.mem_append.mp h with h | h
    · simpa using h
    · have := List.find?_some (Option.mem_toList.mp h)
      simp [plainAnswer, hu] at this
  · rintro rfl
    simp

/-- A block of a history with a user message in it: if it is the last one, a user opens it. -/
theorem last_block {source : List Message} {u : Message} (hu : u ∈ source) (hrole : u.role = .user) :
    ∃ older m answers, splitIntoTurnBlocks source = older ++ [(m : Message) :: answers] ∧ source = older.flatten ++ m :: answers ∧
      m.role = .user ∧ ∀ x ∈ answers, x.role ≠ .user := by
  have hflat := splitIntoTurnBlocks_flatten source
  rcases List.eq_nil_or_concat' (splitIntoTurnBlocks source) with hnil | ⟨older, block, hblocks⟩
  · rw [hnil] at hflat
    simp [← hflat] at hu
  · have hmem : block ∈ splitIntoTurnBlocks source := by simp [hblocks]
    obtain ⟨m, answers, rfl, ha⟩ := turnBlock_tail_no_user hmem
    have hsource : source = older.flatten ++ m :: answers := by
      conv_lhs => rw [← hflat, hblocks]
      simp
    refine ⟨older, m, answers, hblocks, hsource, ?_, ha⟩
    by_cases hold : older = []
    · subst hold
      rw [hsource] at hu
      rcases List.mem_cons.mp (by simpa using hu) with rfl | hin
      · exact hrole
      · exact absurd hrole (ha u hin)
    · obtain ⟨x, xs, h1, h2, _⟩ := turnBlock_opened hblocks hold
      rw [List.cons.injEq] at h1
      exact h1.1 ▸ h2

/-- A tail that does not cover the history is kept as it was selected. -/
theorem selectTail_of_not_covered {source : List Message} {historyBudget : Int}
    (hpos : 0 < (calculateKeepRecent svc.est svc.keepRecent source historyBudget).length)
    (hne : calculateKeepRecent svc.est svc.keepRecent source historyBudget ≠ source) :
    (selectTail svc source historyBudget).kept = calculateKeepRecent svc.est svc.keepRecent source historyBudget := by
  have hsub := calculateKeepRecent_sublist svc.est svc.keepRecent source historyBudget
  have hlt : (calculateKeepRecent svc.est svc.keepRecent source historyBudget).length < source.length := by
    rcases Nat.lt_or_ge (calculateKeepRecent svc.est svc.keepRecent source historyBudget).length source.length with h | h
    · exact h
    · exact absurd (hsub.eq_of_length_le h) hne
  unfold selectTail
  simp only
  split
  · rfl
  · rw [if_pos ⟨hpos, hlt⟩]

/-- A tail that covers the history is reduced to the essential part of the newest block. -/
theorem selectTail_of_covered {source : List Message} {historyBudget : Int} (hsource : source ≠ [])
    (heq : calculateKeepRecent svc.est svc.keepRecent source historyBudget = source) :
    (selectTail svc source historyBudget).kept = essentialTurnTail ((splitIntoTurnBlocks source).getLast?.getD []) := by
  unfold selectTail
  simp only
  rw [heq, if_neg (by simp), if_neg (by simp), if_pos ⟨rfl, hsource⟩]

/-- What is kept of a history is a subsequence of it. -/
theorem selectTail_sublist (source : List Message) (historyBudget : Int) :
    (selectTail svc source historyBudget).kept.Sublist source := by
  have hsub := calculateKeepRecent_sublist svc.est svc.keepRecent source historyBudget
  unfold selectTail
  simp only
  split
  · exact hsub
  · split
    · exact hsub
    · split
      · have hflat := splitIntoTurnBlocks_flatten source
        rcases List.eq_nil_or_concat' (splitIntoTurnBlocks source) with hnil | ⟨older, block, hblocks⟩
        · simp [hnil, essentialTurnTail]
        · have hin : block ∈ splitIntoTurnBlocks source := by simp [hblocks]
          obtain ⟨m, answers, rfl, ha⟩ := turnBlock_tail_no_user hin
          rw [hblocks, List.flatten_append, List.flatten_singleton] at hflat
          rw [hblocks, List.getLast?_concat, Option.getD_some]
          exact (essentialTurnTail_sublist ha).trans (hflat ▸ List.sublist_append_right _ _)
      · exact List.nil_sublist _

theorem selectTail_keeps_newestUser_iff (source : List Message) (historyBudget : Int) :
    (∀ u, newestUser (conversation source) = some u → u ∈ (selectTail svc source historyBudget).kept) ↔
      ¬ (calculateKeepRecent svc.est svc.keepRecent source historyBudget = source ∧
        (newestUser source).isSome ∧ ∃ n, lastUserRole source = some n ∧ n.nudge = true) := by
  by_cases heq : calculateKeepRecent svc.est svc.keepRecent source historyBudget = source
  · rw [conversation_eq_of_covered svc.est heq]
    cases hu : newestUser source with
    | none => simp
    | some u =>
      obtain ⟨hin, hrole, hnudge⟩ := newestUser_spec hu
      obtain ⟨older, m, answers, hblocks, hsource, hm, ha⟩ := last_block hin hrole
      have hkept : (selectTail svc source historyBudget).kept = essentialTurnTail (m :: answers) := by
        rw [selectTail_of_covered svc (List.ne_nil_of_mem hin) heq, hblocks]
        simp
      have hlast : lastUserRole source = some m := by
        rw [hsource]
        exact lastUserRole_of_blocks _ hm ha
      rw [hkept, hlast]
      cases hn : m.nudge with
      | true =>
        -- the newest block is opened by the nudge, and the real user message is dropped
        have hne : u ≠ m := by
          rintro rfl
          rw [hnudge] at hn
          cases hn
        simp [heq, hn, mem_essentialTurnTail hm hrole, hne]
      | false =>
        have hum : u = m := by
          have hnew := newestUser_of_blocks older.flatten hm hn ha
          rw [← hsource, hu] at hnew
          exact Option.some.inj hnew
        simp [hn, hum, mem_essentialTurnTail hm hm]
  · refine ⟨fun _ hc => heq hc.1, fun _ u hu => ?_⟩
    have hkeep := newestUser_mem_calculateKeepRecent svc.est svc.keepRecent source historyBudget hu
    rw [selectTail_of_not_covered svc (List.length_pos_of_mem hkeep) heq]
    exact hkeep

/-- A compaction that returns keeps the newest real user message, unless the tail covers a
    history whose last user-role message is a nudge behind it. -/
theorem compact_keeps_newestUser_iff {messages : List Message} {previous : Option Text} {historyBudget : Int}
    {w w' : World} {r : CompactionResult} (h : Returns (compact svc messages previous historyBudget) w r w') :
    (∀ u, newestUser (conversation messages) = some u → u ∈ r.keptMessages) ↔
      ¬ CoveredBehindNudge svc messages historyBudget := by
  by_cases hne : messages = []
  · subst hne
    simp [CoveredBehindNudge, newestUser, conversation, sourceMessages]
  · obtain ⟨_, _, _, _, _, _, _, _, _, hkept, _⟩ := compact_returns svc hne h
    rw [hkept, ← newestUser_sourceMessages]
    exact selectTail_keeps_newestUser_iff svc _ _

def noPattern : Pattern := ⟨fun t => [.gap t], by simp [Span.source]⟩

def plainOps : TextOps :=
  { secrets := [], closedReasoningBlock := noPattern, leadingOpenReasoning := noPattern
    historicalRequestSection := noPattern, inventedUserAttribution := noPattern
    jsonDumps := fun t => t, ownerIdentifiers := fun _ => [], missingDetails := fun _ _ _ => [] }

def roleTokens (m : Message) : Nat := if m.role = .system then 1 else 10

def defaultService : CompactionService :=
  { mode := .default, reserveTokens := 32000, window := 128000, windowPos := by decide, ops := plainOps, est := roleTokens }

def steadyWorld : World := { replies := fun _ => .response ⟨"stop".toList, "ok".toList⟩, cancels := fun _ => false }

def askedMessage : Message := { oid := 1, role := .user, content := .text "Fix the login test.".toList }

/-- A question and its answer, then a nudge of the agent loop and the answer to that. -/
def nudgedHistory : List Message :=
  [askedMessage, { oid := 2, role := .assistant, content := .text "On it.".toList },
    { oid := 3, role := .user, content := .text "Continue.".toList, nudge := true },
    { oid := 4, role := .assistant, content := .text "Still failing.".toList }]

def keptOf (run : Run CompactionResult) (w : World) : Option (List Message) :=
  match run.runFrom w with
  | (.ok r, _) => some r.keptMessages
  | (.error _, _) => none

theorem returns_of_keptOf {run : Run CompactionResult} {w : World} {kept : List Message} (h : keptOf run w = some kept) :
    ∃ r w', Returns run w r w' ∧ r.keptMessages = kept := by
  unfold keptOf at h
  rcases hr : run.runFrom w with ⟨_ | r, w'⟩
  · rw [hr] at h
    cases h
  · rw [hr] at h
    exact ⟨r, w', hr, Option.some.inj h⟩

theorem nudgedHistory_kept : keptOf (compact defaultService nudgedHistory none 0) steadyWorld = some (nudgedHistory.drop 2) := by
  decide +kernel

/-- The compaction returns without the user's question, the newest real user message. -/
theorem nudge_displaces_the_newest_user : ∃ r w', Returns (compact defaultService nudgedHistory none 0) steadyWorld r w' ∧
    newestUser (conversation nudgedHistory) = some askedMessage ∧ askedMessage ∉ r.keptMessages := by
  obtain ⟨r, w', hr, hkept⟩ := returns_of_keptOf nudgedHistory_kept
  exact ⟨r, w', hr, by decide, by rw [hkept]; decide⟩

theorem nudgedHistory_keeps_iff : ∃ r w', Returns (compact defaultService nudgedHistory none 0) steadyWorld r w' ∧
    ((∀ u, newestUser (conversation nudgedHistory) = some u → u ∈ r.keptMessages) ↔
      ¬ CoveredBehindNudge defaultService nudgedHistory 0) := by
  obtain ⟨r, w', hr, _⟩ := returns_of_keptOf nudgedHistory_kept
  exact ⟨r, w', hr, compact_keeps_newestUser_iff defaultService hr⟩

end Flowly.Compaction
