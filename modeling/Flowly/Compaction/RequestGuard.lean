/-
  Flowly.Compaction.RequestGuard — fitting one provider request to its window
  (`ProviderRequestCoordinator` of `flowly/compaction/request_guard.py`, `microcompact` of
  `flowly/compaction/service.py`).

  The coordinator is made for one model: `inputLimit` is `compaction_threshold_for(model)`.
  A tool is its JSON, and the fingerprint of a payload any function of it. A message that
  the cut replaces is a new object, so its `oid` is fresh. The summary call is `compact`,
  run in whatever world it meets; `on_summary_start` changes nothing and is left out.

  Proved: the partition is of the list (`partition_join`), a request that cannot be fitted
  is given back as it came, and one that is fitted has the fixed messages, the pins and, in
  order, what is kept of the rest, each on its side of a pin (`fit_keeps`). What was kept
  is told apart by the identity of the messages, so a message that stands on both sides of
  the pin is put in front of it (`shared_message_moves`); and a pin that is a summary
  itself stays beside the new one (`pinned_summary_stays`).
-/

import Flowly.Agent.ToolResults
import Flowly.Compaction.Service

namespace Flowly.Compaction.RequestGuard

open Flowly.Lib Flowly.Lib.Attempt

def WIRE_OVERHEAD_TOKENS : Nat := 64

structure Coordinator where
  compaction : CompactionService
  inputLimit : Int
  /-- `config.microcompact`. -/
  microcompactEnabled : Bool := true
  keepRecentFull : Int := 5
  truncateChars : Int := 200
  estimateTokens : Text → Nat
  fingerprint : List Message → Text

structure RequestBudget where
  inputLimit : Int
  messagesTokens : Nat
  toolSchemaTokens : Nat
  fixedPrefixTokens : Nat
  compactableTokens : Nat

def RequestBudget.estimatedInputTokens (b : RequestBudget) : Nat := b.messagesTokens + b.toolSchemaTokens

def RequestBudget.compactableBudget (b : RequestBudget) : Int := b.inputLimit - b.fixedPrefixTokens - b.toolSchemaTokens

structure RequestFit where
  messages : List Message
  before : RequestBudget
  after : RequestBudget
  changed : Bool := false
  compaction : Option CompactionResult := none
  failure : Option Text := none
  retryable : Bool := false

/-- The options of one call of `fit`. -/
structure FitOptions where
  forceReduction : Bool := false
  pinned : Int := 0
  pinAt : Option Int := none

/-! ## The partition -/

def isFixed (m : Message) : Bool := m.role = .system && !isSummaryMessage m

def splitFixedPrefix (messages : List Message) : List Message × List Message :=
  (messages.takeWhile isFixed, messages.dropWhile isFixed)

structure Partition where
  fixed : List Message
  summaries : List Message
  before : List Message
  pins : List Message
  after : List Message

def partition (messages : List Message) (pinned : Int) (pinAt : Option Int) : Partition :=
  let (fixed, tail) := splitFixedPrefix messages
  match pinAt with
  | some at_ =>
    let pin := at_ - fixed.length
    -- the scan for summaries stops at the pin
    let summaries := (tail.take pin.toNat).takeWhile isSummaryMessage
    if (summaries.length : Int) ≤ pin ∧ pin < tail.length then
      ⟨fixed, summaries, (tail.take pin.toNat).drop summaries.length, (tail.drop pin.toNat).take 1, tail.drop (pin.toNat + 1)⟩
    else ⟨fixed, summaries, [], [], tail.drop summaries.length⟩
  | none =>
    let summaries := if pinned > 0 then tail.takeWhile isSummaryMessage else []
    let rest := tail.drop summaries.length
    ⟨fixed, summaries, [], rest.take pinned.toNat, rest.drop pinned.toNat⟩

def Partition.rest (p : Partition) : List Message := p.before ++ p.after

/-! ## The cut of old tool results -/

/-- The identity the first new message gets: none of the list has it or a later one. -/
def freshOid (messages : List Message) : Nat := (messages.map (·.oid)).foldr max 0 + 1

def toolIndices (messages : List Message) : List Nat := (messages.zipIdx.filter fun m => m.1.role = .tool).map (·.2)

/-- What the cut makes of the `i`-th message, if it is old. -/
def microcompactedAt (truncateChars : Int) (fresh i : Nat) (old : Bool) (m : Message) : Message :=
  match m.content with
  | .text t =>
    if old ∧ (t.length : Int) > truncateChars ∧ Agent.microcompacted t truncateChars ≠ t then
      { m with oid := fresh + i, content := .text (Agent.microcompacted t truncateChars) }
    else m
  | _ => m

def Coordinator.microcompact (c : Coordinator) (messages : List Message) : List Message :=
  let indices := toolIndices messages
  if c.microcompactEnabled = false ∨ (indices.length : Int) ≤ c.keepRecentFull then messages
  else
    let truncate := Agent.sliceTo indices (-c.keepRecentFull)
    messages.zipIdx.map fun m => microcompactedAt c.truncateChars (freshOid messages) m.2 (m.2 ∈ truncate) m.1

/-! ## Budgets -/

def Coordinator.toolTokens (c : Coordinator) (tools : List Text) : Nat :=
  if tools = [] then 0 else c.estimateTokens (['['] ++ Text.join [','] tools ++ [']']) + WIRE_OVERHEAD_TOKENS

def Coordinator.budget (c : Coordinator) (messages : List Message) (tools : List Text) (pinned : Int)
    (pinAt : Option Int) : RequestBudget :=
  let p := partition messages pinned pinAt
  { inputLimit := c.inputLimit
    messagesTokens := estimateMessagesTokens c.compaction.est messages
    toolSchemaTokens := c.toolTokens tools
    fixedPrefixTokens := estimateMessagesTokens c.compaction.est (p.fixed ++ p.pins)
    compactableTokens := estimateMessagesTokens c.compaction.est (p.summaries ++ p.before ++ p.after) }

/-- `min(compactable_budget, max(1, int(compactable_tokens * OVERFLOW_RETRY_HISTORY_RATIO)))`; the ratio is 0.65. -/
def forceTarget (before : RequestBudget) : Int := min before.compactableBudget (max 1 (before.compactableTokens * 13 / 20 : Nat))

/-! ## `fit` -/

/-- The message a new summary is put in as. -/
def summaryMessage (summary : Text) : Message :=
  { role := .system, content := .text (buildSummaryContent summary), summaryFlag := true }

/-- `try: ... except CompactionError`. -/
def catchCompaction {α : Type} (x : Run α) : Run (Except Text α) :=
  tryCatch (x >>= fun a => pure (.ok a)) fun
    | .compaction why => pure (.error why)
    | e => throw e

/-- What was kept of the messages before the pins, by identity, and the rest of what was kept. -/
def keptAhead (microAhead kept : List Message) : List Message := kept.filter fun m => m.oid ∈ microAhead.map (·.oid)

def keptBehind (microAhead kept : List Message) : List Message := kept.filter fun m => m.oid ∉ microAhead.map (·.oid)

/-- The end of `fit`, with the summary made. -/
def Coordinator.fitted (c : Coordinator) (original : List Message) (tools : List Text) (o : FitOptions)
    (before : RequestBudget) (p : Partition) (microAhead : List Message) (result : CompactionResult) : RequestFit :=
  let ahead := keptAhead microAhead result.keptMessages
  let behind := keptBehind microAhead result.keptMessages
  let fitted := p.fixed ++ [summaryMessage result.summary] ++ ahead ++ p.pins ++ behind
  let pinAt := if o.pinAt = none ∨ p.pins = [] then none else some ((p.fixed.length + 1 + ahead.length : Nat) : Int)
  let after := c.budget fitted tools o.pinned pinAt
  if c.fingerprint fitted = c.fingerprint original then
    { messages := original, before, after, failure := some "request compaction produced an identical payload".toList }
  else if (after.estimatedInputTokens : Int) > after.inputLimit then
    { messages := original, before, after, changed := true, compaction := some result
      failure := some ("compacted request still needs ".toList ++ (toString after.estimatedInputTokens).toList ++
        " tokens for an input limit of ".toList ++ (toString after.inputLimit).toList) }
  else if o.forceReduction ∧ (after.compactableTokens : Int) > forceTarget before then
    { messages := original, before, after, changed := true, compaction := some result
      failure := some "overflow recovery did not reduce conversation context enough for a safe retry".toList }
  else { messages := fitted, before, after, changed := true, compaction := some result }

def Coordinator.fit (c : Coordinator) (messages : List Message) (tools : List Text) (o : FitOptions) : Run RequestFit :=
  let before := c.budget messages tools o.pinned o.pinAt
  if o.forceReduction = false ∧ (before.estimatedInputTokens : Int) ≤ before.inputLimit then
    pure { messages, before, after := before }
  else
    let p := partition messages o.pinned o.pinAt
    if before.compactableBudget ≤ 0 then
      pure { messages, before, after := before
             failure := some ("fixed system instructions and tool schemas leave no room " ++
               "for conversation context").toList }
    else if p.summaries ++ p.rest = [] then
      pure { messages, before, after := before
             failure := some "request has no compactable conversation history".toList }
    else
      let microRest := c.microcompact p.rest
      let microAhead := microRest.take p.before.length
      let microBehind := microRest.drop p.before.length
      let candidate := p.fixed ++ p.summaries ++ microAhead ++ p.pins ++ microBehind
      let microBudget := c.budget candidate tools o.pinned o.pinAt
      let microChanged := decide (c.fingerprint candidate ≠ c.fingerprint messages)
      if (microBudget.estimatedInputTokens : Int) ≤ microBudget.inputLimit ∧
          (o.forceReduction = false ∨ (microBudget.compactableTokens : Int) ≤ forceTarget before) then
        pure { messages := candidate, before, after := microBudget, changed := microChanged }
      else do
        let target := if o.forceReduction then forceTarget before else before.compactableBudget
        match ← catchCompaction (compact c.compaction (p.summaries ++ microRest) none target) with
        | .error why =>
          pure { messages, before, after := microBudget, changed := microChanged
                 failure := some ("transient request compaction failed: ".toList ++ why), retryable := true }
        | .ok result => pure (c.fitted messages tools o before p microAhead result)

/-! ## The partition is of the list -/

/-- A partition around the message at an index: either it stands behind the summaries, or nothing is pinned. -/
theorem partition_at (messages : List Message) (pinned n : Int) :
    let fixed := messages.takeWhile isFixed
    let tail := messages.dropWhile isFixed
    let k := (n - fixed.length).toNat
    let summaries := (tail.take k).takeWhile isSummaryMessage
    partition messages pinned (some n) =
        ⟨fixed, summaries, (tail.take k).drop summaries.length, (tail.drop k).take 1, tail.drop (k + 1)⟩ ∨
      partition messages pinned (some n) = ⟨fixed, summaries, [], [], tail.drop summaries.length⟩ :=
  ite_eq_or_eq _ _ _

theorem partition_fixed (messages : List Message) (pinned : Int) (pinAt : Option Int) :
    (partition messages pinned pinAt).fixed = messages.takeWhile isFixed := by
  cases pinAt with
  | none => rfl
  | some n =>
    rcases partition_at messages pinned n with h | h
    · rw [h]
    · rw [h]

theorem partition_join (messages : List Message) (pinned : Int) (pinAt : Option Int) :
    let p := partition messages pinned pinAt
    p.fixed ++ (p.summaries ++ (p.before ++ (p.pins ++ p.after))) = messages := by
  have hsplit : messages.takeWhile isFixed ++ messages.dropWhile isFixed = messages := List.takeWhile_append_dropWhile
  cases pinAt with
  | none =>
    simp only [partition, splitFixedPrefix, List.nil_append, List.take_append_drop]
    by_cases hp : pinned > 0
    · rw [if_pos hp, List.prefix_iff_eq_append.mp (List.takeWhile_prefix _), hsplit]
    · rw [if_neg hp]
      exact hsplit
  | some n =>
    have hscan (xs : List Message) : xs.takeWhile isSummaryMessage <+: xs := List.takeWhile_prefix _
    rcases partition_at messages pinned n with h | h
    · rw [h]
      simp only
      rw [← List.append_assoc _ (List.drop _ (List.take _ _)), List.prefix_iff_eq_append.mp (hscan _), ← List.drop_drop,
        List.take_append_drop, List.take_append_drop, hsplit]
    · rw [h]
      simp only [List.nil_append]
      rw [List.prefix_iff_eq_append.mp ((hscan _).trans (List.take_prefix _ _)), hsplit]

variable {messages : List Message}

theorem fixed_not_summary {m : Message} (h : m ∈ messages.takeWhile isFixed) :
    isSummaryMessage m = false := by
  have := List.mem_takeWhile_imp h
  simp only [isFixed, Bool.and_eq_true, Bool.not_eq_true'] at this
  exact this.2

theorem summaries_summary {pinned : Int} {pinAt : Option Int} {m : Message}
    (h : m ∈ (partition messages pinned pinAt).summaries) : isSummaryMessage m = true := by
  cases pinAt with
  | none =>
    simp only [partition, splitFixedPrefix] at h
    by_cases hp : pinned > 0
    · rw [if_pos hp] at h
      exact List.mem_takeWhile_imp h
    · rw [if_neg hp] at h
      cases h
  | some n =>
    rcases partition_at messages pinned n with hn | hn
    · rw [hn] at h
      exact List.mem_takeWhile_imp h
    · rw [hn] at h
      exact List.mem_takeWhile_imp h

/-! ## The cut keeps every message in its place -/

def toolsBehind (messages : List Message) (i : Nat) : Nat := (messages.drop (i + 1)).countP (·.role = .tool)

/-- The message at a place as it was, or the cut of a long tool result that is old: the
    newest `keepRecentFull` tool results stand behind it. -/
def Coordinator.Cut (c : Coordinator) (messages : List Message) (i : Nat) (m m' : Message) : Prop :=
  m' = m ∨ c.microcompactEnabled ∧ m.role = .tool ∧ c.keepRecentFull ≤ toolsBehind messages i ∧
    ∃ t oid, m.content = .text t ∧ c.truncateChars < t.length ∧
      m' = { m with oid, content := .text (Agent.microcompacted t c.truncateChars) }

def Coordinator.CutOld (c : Coordinator) (messages micro : List Message) : Prop :=
  micro.length = messages.length ∧
    ∀ i m m', messages[i]? = some m → micro[i]? = some m' → c.Cut messages i m m'

theorem mem_toolIndices {i : Nat} (h : i ∈ toolIndices messages) :
    ∃ m, messages[i]? = some m ∧ m.role = .tool := by
  obtain ⟨⟨m, j⟩, hm, rfl⟩ := List.mem_map.mp h
  obtain ⟨hin, htool⟩ := List.mem_filter.mp hm
  exact ⟨m, List.mem_zipIdx_iff_getElem?.mp hin, by simpa using htool⟩

/-- The tool results behind the `j`-th one are those the list of places has behind it. -/
theorem length_indices_from (k : Nat) {j i : Nat}
    (h : (((messages.zipIdx k).filter fun m => m.1.role = .tool).map (·.2))[j]? = some i) :
    k ≤ i ∧ (((messages.zipIdx k).filter fun m => m.1.role = .tool).map (·.2)).length =
      j + 1 + toolsBehind messages (i - k) := by
  induction messages generalizing k j with
  | nil => simp at h
  | cons m rest ih =>
    have hbehind : ∀ i, k + 1 ≤ i → toolsBehind (m :: rest) (i - k) = toolsBehind rest (i - (k + 1)) := by
      intro i hi
      unfold toolsBehind
      rw [List.drop_succ_cons, show i - k = i - (k + 1) + 1 by omega]
    rw [List.zipIdx_cons] at h ⊢
    by_cases htool : m.role = .tool
    · rw [List.filter_cons_of_pos (by simpa using htool), List.map_cons] at h ⊢
      cases j with
      | zero =>
        rw [List.getElem?_cons_zero] at h
        obtain rfl := Option.some.inj h
        refine ⟨Nat.le_refl _, ?_⟩
        rw [List.length_cons, List.length_map, Nat.sub_self, toolsBehind, Nat.zero_add, List.drop_succ_cons,
          List.drop_zero, ← List.countP_eq_length_filter]
        have hcount : (rest.zipIdx (k + 1)).countP (fun m => m.1.role = .tool) = rest.countP (·.role = .tool) := by
          conv_rhs => rw [← List.zipIdx_map_fst (k + 1) rest, List.countP_map]
          rfl
        rw [hcount, Nat.add_comm]
      | succ j =>
        rw [List.getElem?_cons_succ] at h
        obtain ⟨hle, hlen⟩ := ih (k + 1) h
        exact ⟨by omega, by rw [List.length_cons, hlen, hbehind _ hle]; omega⟩
    · rw [List.filter_cons_of_neg (by simpa using htool)] at h ⊢
      obtain ⟨hle, hlen⟩ := ih (k + 1) h
      exact ⟨by omega, by rw [hlen, hbehind _ hle]⟩

/-- A place that the slice takes holds an old tool result. -/
theorem old_of_mem_sliceTo {keep : Int} {i : Nat} (h : i ∈ Agent.sliceTo (toolIndices messages) (-keep)) :
    i ∈ toolIndices messages ∧ keep ≤ toolsBehind messages i := by
  unfold Agent.sliceTo at h
  split at h
  · exact ⟨List.mem_of_mem_take h, by omega⟩
  · refine ⟨List.mem_of_mem_take h, ?_⟩
    obtain ⟨j, hj⟩ := List.getElem?_of_mem h
    rw [List.getElem?_take] at hj
    split at hj
    · rename_i hlt
      have := (length_indices_from 0 hj).2
      unfold toolIndices at hlt
      rw [Nat.sub_zero] at this
      omega
    · cases hj

theorem microcompactedAt_cases (truncateChars : Int) (fresh i : Nat) (old : Bool) (m : Message) :
    microcompactedAt truncateChars fresh i old m = m ∨ old = true ∧ ∃ t, m.content = .text t ∧ truncateChars < t.length ∧
      microcompactedAt truncateChars fresh i old m =
        { m with oid := fresh + i, content := .text (Agent.microcompacted t truncateChars) } := by
  unfold microcompactedAt
  split
  · rename_i t ht
    split
    · rename_i hold
      exact Or.inr ⟨hold.1, t, ht, hold.2.1, rfl⟩
    · exact Or.inl rfl
  · exact Or.inl rfl

variable {c : Coordinator}

/-- What stands at a place after the cut: a cut of what stood there, the same object or a new one. -/
theorem microcompact_getElem? {i : Nat} {m : Message} (hm : messages[i]? = some m) :
    ∃ m', (c.microcompact messages)[i]? = some m' ∧ c.Cut messages i m m' ∧
      (m'.oid = m.oid ∨ m'.oid = freshOid messages + i) := by
  unfold Coordinator.microcompact
  simp only
  split
  · exact ⟨m, hm, Or.inl rfl, Or.inl rfl⟩
  · rename_i hmany
    refine ⟨_, by rw [List.getElem?_map, List.getElem?_zipIdx, hm]; rfl, ?_⟩
    simp only [Nat.zero_add]
    rcases microcompactedAt_cases c.truncateChars (freshOid messages) i
      (i ∈ Agent.sliceTo (toolIndices messages) (-c.keepRecentFull)) m with h | ⟨hold, t, ht, hlong, h⟩
    · rw [h]
      exact ⟨Or.inl rfl, Or.inl rfl⟩
    · obtain ⟨hin, hbehind⟩ := old_of_mem_sliceTo (of_decide_eq_true hold)
      obtain ⟨m', hm', htool⟩ := mem_toolIndices hin
      rw [hm] at hm'
      obtain rfl := Option.some.inj hm'
      rw [h]
      have henabled : c.microcompactEnabled = true := by
        cases hc : c.microcompactEnabled
        · exact absurd (Or.inl hc) hmany
        · rfl
      exact ⟨Or.inr ⟨henabled, htool, hbehind, t, _, ht, hlong, rfl⟩, Or.inr rfl⟩

theorem length_microcompact (c : Coordinator) (messages : List Message) :
    (c.microcompact messages).length = messages.length := by
  unfold Coordinator.microcompact
  simp only
  split
  · rfl
  · simp

theorem microcompact_cutOld (c : Coordinator) (messages : List Message) : c.CutOld messages (c.microcompact messages) := by
  refine ⟨length_microcompact c messages, fun i m m' hm hm' => ?_⟩
  obtain ⟨m1, hm1, hcut, _⟩ := microcompact_getElem? (c := c) hm
  rw [hm'] at hm1
  rw [Option.some.inj hm1]
  exact hcut

theorem cutOld_refl (c : Coordinator) (messages : List Message) : c.CutOld messages messages :=
  ⟨rfl, fun _ _ _ hm hm' => Or.inl (Option.some.inj (hm'.symm.trans hm))⟩

theorem oid_lt_freshOid {m : Message} (h : m ∈ messages) : m.oid < freshOid messages := by
  unfold freshOid
  induction messages with
  | nil => cases h
  | cons a rest ih =>
    simp only [List.map_cons, List.foldr_cons]
    rcases List.mem_cons.mp h with rfl | hin
    · omega
    · have := ih hin
      omega

/-- The cut gives no message behind a place the identity of one ahead of it. -/
theorem microcompact_apart (c : Coordinator) {before after : List Message}
    (h : ∀ a ∈ before, ∀ b ∈ after, a.oid ≠ b.oid) {x y : Message}
    (hx : x ∈ (c.microcompact (before ++ after)).take before.length)
    (hy : y ∈ (c.microcompact (before ++ after)).drop before.length) : x.oid ≠ y.oid := by
  obtain ⟨i, hi⟩ := List.getElem?_of_mem hx
  obtain ⟨j, hj⟩ := List.getElem?_of_mem hy
  rw [List.getElem?_take] at hi
  split at hi
  · rename_i hlt
    rw [List.getElem?_drop] at hj
    have hjlt : j < after.length := by
      have := (List.getElem?_eq_some_iff.mp hj).1
      rw [length_microcompact, List.length_append] at this
      omega
    have ha : (before ++ after)[i]? = some before[i] := by
      rw [List.getElem?_append_left hlt, List.getElem?_eq_getElem hlt]
    have hb : (before ++ after)[before.length + j]? = some after[j] := by
      rw [List.getElem?_append_right (Nat.le_add_right _ _), Nat.add_sub_cancel_left, List.getElem?_eq_getElem hjlt]
    have hne := h _ (List.getElem_mem hlt) _ (List.getElem_mem hjlt)
    have hla := oid_lt_freshOid (List.mem_of_getElem? ha)
    have hlb := oid_lt_freshOid (List.mem_of_getElem? hb)
    obtain ⟨x', hx', _, hxo⟩ := microcompact_getElem? (c := c) ha
    obtain ⟨y', hy', _, hyo⟩ := microcompact_getElem? (c := c) hb
    rw [hi] at hx'
    rw [hj] at hy'
    obtain rfl := Option.some.inj hx'
    obtain rfl := Option.some.inj hy'
    omega
  · cases hi

/-! ## What a compaction keeps -/

variable {w w' : World}

/-- What a compaction keeps is a subsequence of what it was given, without the summaries. -/
theorem compact_keeps_sublist {svc : CompactionService} {previous : Option Text}
    {historyBudget : Int} {r : CompactionResult} (h : Returns (compact svc messages previous historyBudget) w r w') :
    r.keptMessages.Sublist (sourceMessages messages) := by
  by_cases hne : messages = []
  · subst hne
    unfold compact at h
    rw [if_pos rfl] at h
    obtain ⟨rfl, _⟩ := returns_pure.mp h
    exact List.nil_sublist _
  · obtain ⟨_, _, _, _, _, _, _, _, _, hkept, _⟩ := compact_returns svc hne h
    rw [hkept]
    exact selectTail_sublist svc _ _

/-- Told apart by identity, what is kept of two runs of messages without a common object is
    what is kept of the one and of the other. -/
theorem kept_apart {ahead behind kept : List Message} (h : kept.Sublist (ahead ++ behind))
    (hne : ∀ x ∈ ahead, ∀ y ∈ behind, x.oid ≠ y.oid) :
    (keptAhead ahead kept).Sublist ahead ∧ (keptBehind ahead kept).Sublist behind := by
  obtain ⟨k1, k2, rfl, h1, h2⟩ := List.sublist_append_iff.mp h
  have hin : ∀ x ∈ k1, decide (x.oid ∈ ahead.map (·.oid)) = true := fun x hx =>
    decide_eq_true (List.mem_map_of_mem (h1.subset hx))
  have hout : ∀ y ∈ k2, decide (y.oid ∈ ahead.map (·.oid)) = false := by
    intro y hy
    refine decide_eq_false fun hmem => ?_
    obtain ⟨x, hx, hxy⟩ := List.mem_map.mp hmem
    exact hne x hx y (h2.subset hy) hxy
  have hahead : keptAhead ahead (k1 ++ k2) = k1 := by
    unfold keptAhead
    rw [List.filter_append, List.filter_eq_self.mpr hin,
      List.filter_eq_nil_iff.mpr fun y hy => by rw [hout y hy]; exact Bool.false_ne_true, List.append_nil]
  have hbehind : keptBehind ahead (k1 ++ k2) = k2 := by
    unfold keptBehind
    rw [List.filter_append, List.filter_eq_nil_iff.mpr fun x hx => by simpa using of_decide_eq_true (hin x hx),
      List.filter_eq_self.mpr fun y hy => by simpa using of_decide_eq_false (hout y hy), List.nil_append]
  rw [hahead, hbehind]
  exact ⟨h1, h2⟩

/-! ## What a fit that returns gives back -/

theorem returns_catchCompaction {α : Type} {x : Run α} {r : Except Text α}
    (h : Returns (catchCompaction x) w r w') : (∃ a, r = .ok a ∧ Returns x w a w') ∨ ∃ why, r = .error why := by
  rcases returns_tryCatch.mp h with h | ⟨e, w1, _, h⟩
  · obtain ⟨a, w1, hx, h⟩ := returns_bind.mp h
    obtain ⟨rfl, rfl⟩ := returns_pure.mp h
    exact Or.inl ⟨a, rfl, hx⟩
  · split at h
    · exact Or.inr ⟨_, (returns_pure.mp h).1⟩
    · exact absurd h returns_throw

/-- The end of a fit gives the request back as it came, or as the summary leaves it. -/
theorem fitted_cases (c : Coordinator) (original : List Message) (tools : List Text) (o : FitOptions)
    (before : RequestBudget) (p : Partition) (microAhead : List Message) (result : CompactionResult) :
    let r := c.fitted original tools o before p microAhead result
    (r.messages = original ∧ r.failure.isSome) ∨
      (r.failure = none ∧ r.compaction = some result ∧ r.messages = p.fixed ++ [summaryMessage result.summary] ++
        keptAhead microAhead result.keptMessages ++ p.pins ++ keptBehind microAhead result.keptMessages) := by
  unfold Coordinator.fitted
  simp only
  generalize (if o.pinAt = none ∨ p.pins = [] then (none : Option Int)
    else some ((p.fixed.length + 1 + (keptAhead microAhead result.keptMessages).length : Nat) : Int)) = pinAt
  split
  · exact Or.inl ⟨rfl, rfl⟩
  · split
    · exact Or.inl ⟨rfl, rfl⟩
    · split
      · exact Or.inl ⟨rfl, rfl⟩
      · exact Or.inr ⟨rfl, rfl, rfl⟩

theorem fit_cases {tools : List Text} {o : FitOptions} {r : RequestFit} (h : Returns (c.fit messages tools o) w r w') :
    let p := partition messages o.pinned o.pinAt
    let microAhead := (c.microcompact p.rest).take p.before.length
    let microBehind := (c.microcompact p.rest).drop p.before.length
    (r.messages = messages ∧ (r.failure = none → r.compaction = none)) ∨
      (r.failure = none ∧ r.compaction = none ∧
        r.messages = p.fixed ++ p.summaries ++ microAhead ++ p.pins ++ microBehind) ∨
      ∃ budget result, Returns (compact c.compaction (p.summaries ++ c.microcompact p.rest) none budget) w result w' ∧
        r.failure = none ∧ r.messages = p.fixed ++ [summaryMessage result.summary] ++
          keptAhead microAhead result.keptMessages ++ p.pins ++ keptBehind microAhead result.keptMessages := by
  unfold Coordinator.fit at h
  simp only at h
  split at h
  · obtain ⟨rfl, _⟩ := returns_pure.mp h
    exact Or.inl ⟨rfl, fun _ => rfl⟩
  · split at h
    · obtain ⟨rfl, _⟩ := returns_pure.mp h
      exact Or.inl ⟨rfl, nofun⟩
    · split at h
      · obtain ⟨rfl, _⟩ := returns_pure.mp h
        exact Or.inl ⟨rfl, nofun⟩
      · split at h
        · obtain ⟨rfl, _⟩ := returns_pure.mp h
          exact Or.inr (Or.inl ⟨rfl, rfl, rfl⟩)
        · obtain ⟨outcome, w1, hcaught, h⟩ := returns_bind.mp h
          rcases returns_catchCompaction hcaught with ⟨result, rfl, hcompact⟩ | ⟨why, rfl⟩
          · obtain ⟨rfl, rfl⟩ := returns_pure.mp h
            rcases fitted_cases c messages tools o (c.budget messages tools o.pinned o.pinAt)
              (partition messages o.pinned o.pinAt) _ result with ⟨hm, hf⟩ | ⟨hf, _, hm⟩
            · exact Or.inl ⟨hm, fun hnone => by rw [hnone] at hf; cases hf⟩
            · exact Or.inr (Or.inr ⟨_, result, hcompact, hf, hm⟩)
          · obtain ⟨rfl, _⟩ := returns_pure.mp h
            exact Or.inl ⟨rfl, nofun⟩

/-! ## What a fit keeps -/

def RequestFit.summarised (r : RequestFit) : Prop := r.failure = none ∧ r.compaction.isSome

/-- One summary directly behind the fixed messages; any other is a pin. -/
def LeadsWithSummary (fixed pins messages : List Message) : Prop :=
  ∃ s rest, messages = fixed ++ s :: rest ∧ isSummaryMessage s = true ∧
    (fixed ++ rest).countP isSummaryMessage = pins.countP isSummaryMessage

theorem summaryMessage_summary (summary : Text) : isSummaryMessage (summaryMessage summary) = true := rfl

theorem countP_kept {kept : List Message} (h : ∀ m ∈ kept, isSummaryMessage m = false) (q : Message → Bool) :
    (kept.filter q).countP isSummaryMessage = 0 :=
  List.countP_eq_zero.mpr fun m hm => by simp [h m (List.mem_of_mem_filter hm)]

/-- No summary is kept by a compaction. -/
theorem kept_not_summary {svc : CompactionService} {previous : Option Text} {historyBudget : Int} {r : CompactionResult}
    (h : Returns (compact svc messages previous historyBudget) w r w') : ∀ m ∈ r.keptMessages, isSummaryMessage m = false := by
  intro m hm
  have hin := List.mem_filter.mp ((compact_keeps_sublist h).subset hm)
  exact extractSummaryText_eq_none.mp (of_decide_eq_true hin.2)

theorem fit_leads {tools : List Text} {o : FitOptions}
    {r : RequestFit} (h : Returns (c.fit messages tools o) w r w') (hs : r.summarised) :
    LeadsWithSummary (messages.takeWhile isFixed) (partition messages o.pinned o.pinAt).pins r.messages := by
  obtain ⟨hf, hc⟩ := hs
  rcases fit_cases h with ⟨_, hnone⟩ | ⟨_, hnone, _⟩ | ⟨budget, result, hcompact, _, hm⟩
  · rw [hnone hf] at hc
    cases hc
  · rw [hnone] at hc
    cases hc
  · have hkept := kept_not_summary hcompact
    have hfixed : (messages.takeWhile isFixed).countP isSummaryMessage = 0 :=
      List.countP_eq_zero.mpr fun m hin => by simp [fixed_not_summary hin]
    rw [partition_fixed] at hm
    simp only [List.append_assoc, List.cons_append, List.nil_append] at hm
    refine ⟨_, _, hm, rfl, ?_⟩
    unfold keptAhead keptBehind
    rw [List.countP_append, List.countP_append, List.countP_append, hfixed, countP_kept hkept, countP_kept hkept]
    omega

theorem takeWhile_leads {fixed pins messages : List Message} (h : LeadsWithSummary fixed pins messages)
    (hfixed : ∀ m ∈ fixed, isFixed m = true) (more : List Message) : (messages ++ more).takeWhile isFixed = fixed := by
  obtain ⟨s, rest, rfl, hs, _⟩ := h
  rw [List.append_assoc, List.takeWhile_append_of_pos hfixed, List.cons_append,
    List.takeWhile_cons_of_neg (by simp [isFixed, hs]), List.append_nil]

/-- What the summaries and the cut rest keep is kept of the rest. -/
theorem keeps_rest {pinned : Int} {pinAt : Option Int} {kept : List Message}
    (h : kept.Sublist (sourceMessages ((partition messages pinned pinAt).summaries ++
      c.microcompact (partition messages pinned pinAt).rest))) :
    kept.Sublist (c.microcompact (partition messages pinned pinAt).rest) := by
  unfold sourceMessages at h
  rw [List.filter_append, List.filter_eq_nil_iff.mpr fun m hm => by
    simp [extractSummaryText_eq_none, summaries_summary hm], List.nil_append] at h
  exact h.trans List.filter_sublist

/-- What a fit gives back. A failure leaves the request as it came. Otherwise the fixed
    messages lead, the pins stand as they did, and what is kept is of the rest with its old
    tool results cut: in order and on its side of the pins, as long as no message stands on
    both sides. If a summary was made it follows the fixed messages and only a pin is
    another one, and so it is when the result is fitted again with whatever was appended. -/
theorem fit_keeps {c : Coordinator} {messages : List Message} {tools : List Text} {o : FitOptions} {w w' : World}
    {r : RequestFit} (h : Returns (c.fit messages tools o) w r w') :
    let fixed := messages.takeWhile isFixed
    let p := partition messages o.pinned o.pinAt
    (r.failure.isSome → r.messages = messages) ∧
    (r.failure = none → ∃ head ahead behind kept micro, r.messages = fixed ++ head ++ ahead ++ p.pins ++ behind ∧
      (head = p.summaries ∨ ∃ s, head = [s] ∧ isSummaryMessage s = true) ∧
      c.CutOld p.rest micro ∧ (ahead ++ behind).Perm kept ∧ kept.Sublist micro ∧
      ((∀ a ∈ p.before, ∀ b ∈ p.after, a.oid ≠ b.oid) →
        ahead.Sublist (micro.take p.before.length) ∧ behind.Sublist (micro.drop p.before.length))) ∧
    (r.summarised → LeadsWithSummary fixed p.pins r.messages) ∧
    ∀ (c2 : Coordinator) (more : List Message) (tools2 : List Text) (o2 : FitOptions) (w2 w3 : World) (r2 : RequestFit),
      Returns (c2.fit (r.messages ++ more) tools2 o2) w2 r2 w3 → r2.summarised →
        LeadsWithSummary ((r.messages ++ more).takeWhile isFixed)
          (partition (r.messages ++ more) o2.pinned o2.pinAt).pins r2.messages ∧
        (r.summarised → (r.messages ++ more).takeWhile isFixed = fixed) := by
  have hfixed : ∀ m ∈ messages.takeWhile isFixed, isFixed m = true := fun m hm => List.mem_takeWhile_imp hm
  refine ⟨fun hf => ?_, fun hf => ?_, fit_leads h, fun c2 more tools2 o2 w2 w3 r2 h2 hs2 =>
    ⟨fit_leads h2 hs2, fun hs => takeWhile_leads (fit_leads h hs) hfixed more⟩⟩
  · rcases fit_cases h with ⟨hm, _⟩ | ⟨hnone, _⟩ | ⟨_, _, _, hnone, _⟩
    · exact hm
    · rw [hnone] at hf
      cases hf
    · rw [hnone] at hf
      cases hf
  · have hcut := microcompact_cutOld c (partition messages o.pinned o.pinAt).rest
    rw [← partition_fixed messages o.pinned o.pinAt]
    rcases fit_cases h with ⟨hm, _⟩ | ⟨_, _, hm⟩ | ⟨budget, result, hcompact, _, hm⟩
    · -- nothing was done
      refine ⟨_, (partition messages o.pinned o.pinAt).before, (partition messages o.pinned o.pinAt).after, _, _, ?_,
        Or.inl rfl, cutOld_refl c (partition messages o.pinned o.pinAt).rest, List.Perm.refl _, List.Sublist.refl _, fun _ => ?_⟩
      · rw [hm]
        simpa only [List.append_assoc] using (partition_join messages o.pinned o.pinAt).symm
      · unfold Partition.rest
        rw [List.take_left, List.drop_left]
        exact ⟨List.Sublist.refl _, List.Sublist.refl _⟩
    · -- the cut alone made it fit
      refine ⟨_, _, _, _, _, hm, Or.inl rfl, hcut, List.Perm.refl _, ?_,
        fun _ => ⟨List.Sublist.refl _, List.Sublist.refl _⟩⟩
      rw [List.take_append_drop]
    · -- a summary was made
      have hsub := keeps_rest (compact_keeps_sublist hcompact)
      refine ⟨_, _, _, result.keptMessages, _, hm, Or.inr ⟨_, rfl, summaryMessage_summary _⟩, hcut, ?_, hsub,
        fun hne => ?_⟩
      · simpa [keptAhead, keptBehind] using List.filter_append_perm
          (fun m => decide (m.oid ∈ ((c.microcompact (partition messages o.pinned o.pinAt).rest).take
            (partition messages o.pinned o.pinAt).before.length).map (·.oid))) result.keptMessages
      · rw [← List.take_append_drop (partition messages o.pinned o.pinAt).before.length
          (c.microcompact (partition messages o.pinned o.pinAt).rest)] at hsub
        exact kept_apart hsub fun x hx y hy => microcompact_apart c hne hx hy

/-! ## Three requests -/

namespace Sample

def textTokens (m : Message) : Nat :=
  match m.content with
  | .text t => if isSummaryMessage m then 1 else t.length
  | _ => 0

def coordinator (inputLimit : Int) : Coordinator :=
  { compaction := { defaultService with est := textTokens }
    inputLimit
    keepRecentFull := 1
    truncateChars := 10
    estimateTokens := List.length
    fingerprint := fun ms => ms.flatMap fun m => (toString m.oid).toList }

def message (oid : Nat) (role : Role) (t : String) : Message := { oid, role, content := .text t.toList }

def rules : Message := message 1 .system "rules"

def asked : Message := message 2 .user "what was asked first, with all of the details"

def task : Message := message 4 .user "the task"

/-- The same message object stands on both sides of the task, which is pinned. -/
def sharedRequest : List Message := [rules, asked, message 3 .user "so", task, message 3 .user "so"]

def summaryRequest : List Message := [rules, asked, summaryMessage "earlier".toList, message 3 .user "so"]

def toolRequest : List Message :=
  [rules, asked, message 3 .tool "a long tool result of forty characters or more", message 5 .tool "short"]

def fitOf (run : Run RequestFit) (w : World) : Option RequestFit :=
  match run.runFrom w with
  | (.ok r, _) => some r
  | (.error _, _) => none

def fitted (inputLimit : Int) (messages : List Message) (pinAt : Option Int) : Option RequestFit :=
  fitOf ((coordinator inputLimit).fit messages [] { pinAt }) steadyWorld

theorem returns_of_fitted {α : Type} {inputLimit : Int} {messages : List Message} {pinAt : Option Int} {f : RequestFit → α}
    {a : α} (h : (fitted inputLimit messages pinAt).map f = some a) :
    ∃ r w', Returns ((coordinator inputLimit).fit messages [] { pinAt }) steadyWorld r w' ∧ f r = a := by
  obtain ⟨r, hr, ha⟩ := Option.map_eq_some_iff.mp h
  unfold fitted fitOf at hr
  split at hr
  · rename_i r' w' hrun
    exact ⟨r, w', by rw [← Option.some.inj hr]; exact hrun, ha⟩
  · cases hr

/-- How many messages with an identity stand ahead of the task. -/
def aheadOfTask (oid : Nat) (messages : List Message) : Nat := (messages.takeWhile (· ≠ task)).countP (·.oid = oid)

theorem sharedRequest_fitted : (fitted 45 sharedRequest (some 3)).map
    (fun r => (r.failure, aheadOfTask 3 r.messages)) = some (none, 2) := by
  decide +kernel

theorem summaryRequest_fitted : (fitted 45 summaryRequest (some 2)).map
    (fun r => (r.failure, r.compaction.isSome, r.messages.countP isSummaryMessage)) = some (none, true, 2) := by
  decide +kernel

theorem toolRequest_fitted : (fitted 95 toolRequest none).map
    (fun r => (r.failure, r.messages.any fun m => m ∉ toolRequest && !isSummaryMessage m)) = some (none, true) := by
  decide +kernel

/-- A message that stands on both sides of the pin is put ahead of it. -/
theorem shared_message_moves : ∃ r w', Returns ((coordinator 45).fit sharedRequest [] { pinAt := some 3 }) steadyWorld r w' ∧
    r.failure = none ∧ aheadOfTask 3 r.messages = 2 ∧ aheadOfTask 3 sharedRequest = 1 := by
  obtain ⟨r, w', hr, hval⟩ := returns_of_fitted sharedRequest_fitted
  simp only [Prod.mk.injEq] at hval
  exact ⟨r, w', hr, hval.1, hval.2, by decide⟩

/-- A pin that is a summary stays beside the new one. -/
theorem pinned_summary_stays : ∃ r w', Returns ((coordinator 45).fit summaryRequest [] { pinAt := some 2 }) steadyWorld r w' ∧
    r.summarised ∧ r.messages.countP isSummaryMessage = 2 := by
  obtain ⟨r, w', hr, hval⟩ := returns_of_fitted summaryRequest_fitted
  simp only [Prod.mk.injEq] at hval
  exact ⟨r, w', hr, ⟨hval.1, hval.2.1⟩, hval.2.2⟩

/-- What is kept of an old tool result is a new message. -/
theorem tool_result_cut : ∃ r w', Returns ((coordinator 95).fit toolRequest [] { pinAt := none }) steadyWorld r w' ∧
    r.failure = none ∧ ∃ m ∈ r.messages, m ∉ toolRequest ∧ isSummaryMessage m = false := by
  obtain ⟨r, w', hr, hval⟩ := returns_of_fitted toolRequest_fitted
  simp only [Prod.mk.injEq, List.any_eq_true, Bool.and_eq_true, decide_eq_true_eq, Bool.not_eq_true'] at hval
  exact ⟨r, w', hr, hval⟩

/-- A request with a pin is not given back as a subsequence on its sides of the pin, with one
    summary, in every case: not with a shared message, a pinned summary or an old tool result. -/
theorem fit_not_verbatim :
    (∃ r w', Returns ((coordinator 45).fit sharedRequest [] { pinAt := some 3 }) steadyWorld r w' ∧
      r.failure = none ∧ aheadOfTask 3 r.messages = 2 ∧ aheadOfTask 3 sharedRequest = 1) ∧
    (∃ r w', Returns ((coordinator 45).fit summaryRequest [] { pinAt := some 2 }) steadyWorld r w' ∧
      r.summarised ∧ r.messages.countP isSummaryMessage = 2) ∧
    ∃ r w', Returns ((coordinator 95).fit toolRequest [] { pinAt := none }) steadyWorld r w' ∧
      r.failure = none ∧ ∃ m ∈ r.messages, m ∉ toolRequest ∧ isSummaryMessage m = false :=
  ⟨shared_message_moves, pinned_summary_stays, tool_result_cut⟩

/-- What comes up after a summary was made. -/
def later : List Message := [message 6 .user "what came up afterwards, with details too", message 7 .user "go on"]

theorem summaryRequest_refitted : ((fitted 45 summaryRequest (some 2)).bind fun r =>
    (fitted 45 (r.messages ++ later) none).map fun r2 =>
      (r.failure, r.compaction.isSome, r2.failure, r2.compaction.isSome)) = some (none, true, none, true) := by
  decide +kernel

/-- The tool request is fitted by the cut of its older result, and the other one by a
    summary, twice. -/
theorem fit_keeps_sample :
    (∃ r w', Returns ((coordinator 95).fit toolRequest [] { pinAt := none }) steadyWorld r w' ∧ r.failure = none ∧
      ∃ head ahead behind kept micro, r.messages = toolRequest.takeWhile isFixed ++ head ++ ahead ++
          (partition toolRequest 0 none).pins ++ behind ∧
        (head = (partition toolRequest 0 none).summaries ∨ ∃ s, head = [s] ∧ isSummaryMessage s = true) ∧
        (coordinator 95).CutOld (partition toolRequest 0 none).rest micro ∧ (ahead ++ behind).Perm kept ∧
        kept.Sublist micro) ∧
    ∃ r w' r2 w3, Returns ((coordinator 45).fit summaryRequest [] { pinAt := some 2 }) steadyWorld r w' ∧
      LeadsWithSummary (summaryRequest.takeWhile isFixed) (partition summaryRequest 0 (some 2)).pins r.messages ∧
      Returns ((coordinator 45).fit (r.messages ++ later) [] { pinAt := none })
        steadyWorld r2 w3 ∧
      LeadsWithSummary (summaryRequest.takeWhile isFixed) [] r2.messages := by
  constructor
  · obtain ⟨r, w', hr, hval⟩ := returns_of_fitted toolRequest_fitted
    simp only [Prod.mk.injEq] at hval
    obtain ⟨head, ahead, behind, kept, micro, hm, hhead, hcut, hperm, hsub, _⟩ := (fit_keeps hr).2.1 hval.1
    exact ⟨r, w', hr, hval.1, head, ahead, behind, kept, micro, hm, hhead, hcut, hperm, hsub⟩
  · obtain ⟨r, hfit, hval⟩ := Option.bind_eq_some_iff.mp summaryRequest_refitted
    obtain ⟨r2, hfit2, hval⟩ := Option.map_eq_some_iff.mp hval
    simp only [Prod.mk.injEq] at hval
    obtain ⟨hf, hc, hf2, hc2⟩ := hval
    obtain ⟨_, w', hr, rfl⟩ := returns_of_fitted (f := id) (a := r) (by rw [hfit]; rfl)
    obtain ⟨_, w3, hr2, rfl⟩ := returns_of_fitted (f := id) (a := r2) (by rw [hfit2]; rfl)
    obtain ⟨_, _, hleads, hagain⟩ := fit_keeps hr
    obtain ⟨hleads2, hsame⟩ := hagain _ _ _ _ _ _ _ hr2 ⟨hf2, hc2⟩
    rw [hsame ⟨hf, hc⟩] at hleads2
    exact ⟨_, w', _, w3, hr, hleads ⟨hf, hc⟩, hr2, hleads2⟩

end Sample

end Flowly.Compaction.RequestGuard
