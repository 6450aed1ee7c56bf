/-
  Flowly.Goals.Records — the file of a goal, and what reading it makes of the record
  (`flowly/goals/models.py`: `__post_init__`, `to_dict`, `from_dict`;
  `flowly/goals/store.py`: `update`).

  A mutation assigns fields; the limits are those of the reader. Reading strips and cuts
  the reasons, puts the counters into their ranges, and raises on a run id of more than
  512 characters. `update` replaces the file first and reads the record afterwards.

  Proved: a record within the limits (`GoalState.Stored`) is read back as it was written,
  up to its reasons (`read_toDict`), and is within them again.
-/

import Flowly.Goals.Judge

namespace Flowly.Goals

open Flowly.Lib Flowly.Lib.Checked

/-! ## The wait barrier in three fields -/

structure WaitFields where
  onPid : Option Int := none
  onSession : Option String := none
  until_ : Int := 0
  reason : Option String := none
  since : Int := 0
  deriving DecidableEq

namespace WaitFields

def targets (w : WaitFields) : Nat :=
  (if w.onPid.any (· ≠ 0) then 1 else 0) + (if w.onSession.any (· ≠ "") then 1 else 0) + if w.until_ ≠ 0 then 1 else 0

end WaitFields

def waitFields : Option Wait → WaitFields
  | none => {}
  | some ⟨.pid pid, reason, since⟩ => { onPid := some pid, reason, since }
  | some ⟨.session id, reason, since⟩ => { onSession := some id, reason, since }
  | some ⟨.time deadline, reason, since⟩ => { until_ := deadline, reason, since }

/-! ## The file's record -/

/-- What `to_dict` writes. -/
structure GoalRecord where
  goalId : String
  revision : Nat
  conversationEpoch : Nat
  goal : String
  status : GoalStatus
  turnsUsed : Nat
  maxTurns : Nat
  createdAt : Int
  updatedAt : Int
  lastTurnAt : Int
  lastRunId : Option String
  lastFailedRunId : Option String
  createdByRunId : Option String
  lastVerdict : Option GoalVerdict
  lastReason : Option String
  pausedReason : Option String
  consecutiveParseFailures : Nat
  consecutiveTransportFailures : Nat
  consecutiveCompactionFailures : Nat
  subgoals : List String
  waiting : WaitFields
  contract : GoalContract
  gates : List GoalGate
  deriving DecidableEq

def GoalState.toDict (s : GoalState) : GoalRecord where
  goalId := s.goalId
  revision := s.revision
  conversationEpoch := s.conversationEpoch
  goal := s.goal
  status := s.status
  turnsUsed := s.turnsUsed
  maxTurns := s.maxTurns
  createdAt := s.createdAt
  updatedAt := s.updatedAt
  lastTurnAt := s.lastTurnAt
  lastRunId := s.lastRunId
  lastFailedRunId := s.lastFailedRunId
  createdByRunId := s.createdByRunId
  lastVerdict := s.lastVerdict
  lastReason := s.lastReason
  pausedReason := s.pausedReason
  consecutiveParseFailures := s.consecutiveParseFailures
  consecutiveTransportFailures := s.consecutiveTransportFailures
  consecutiveCompactionFailures := s.consecutiveCompactionFailures
  subgoals := s.subgoals
  waiting := waitFields s.wait
  contract := s.contract
  gates := s.gates

/-- `GoalContract.from_dict`. -/
def GoalContract.read (c : GoalContract) : Except GoalError GoalContract := do
  let outcome ← cleanText c.outcome 2500 "contract.outcome"
  let verification ← cleanText c.verification 2500 "contract.verification"
  let constraints ← cleanText c.constraints 2500 "contract.constraints"
  let boundaries ← cleanText c.boundaries 2500 "contract.boundaries"
  let stopWhen ← cleanText c.stopWhen 2500 "contract.stop_when"
  return { outcome, verification, constraints, boundaries, stopWhen }

/-- `GoalGate.from_dict`. -/
def GoalGate.read (g : GoalGate) : Except GoalError GoalGate := do
  let command ← cleanText g.command 4000 "gate.command"
  if command = "" then throw (.value "gate command is empty")
  return { g.clone with command, timeoutSeconds := boundedInt g.timeoutSeconds 1 3600
                        maxRetries := boundedInt g.maxRetries 0 100 }

/-- The wait fields of `__post_init__`; without a target there is no barrier. -/
def WaitFields.read (w : WaitFields) : Except GoalError (Option Wait) :=
  let w : WaitFields :=
    { onPid := w.onPid.filter (0 < ·), onSession := cleanOptional 1000 w.onSession, until_ := max 0 w.until_
      reason := cleanOptional maxReasonChars w.reason, since := max 0 w.since }
  if 1 < w.targets then .error (.value "goal state contains multiple wait targets")
  else .ok (match w.onPid, w.onSession with
    | some pid, _ => some ⟨.pid pid, w.reason, w.since⟩
    | none, some id => some ⟨.session id, w.reason, w.since⟩
    | none, none => if w.until_ ≠ 0 then some ⟨.time w.until_, w.reason, w.since⟩ else none)

/-- `GoalState.from_dict`. The goal id is a `uuid4` in hex, which reading leaves. -/
def GoalRecord.read (casefold : String → String) (r : GoalRecord) : Except GoalError GoalState := do
  let contract ← r.contract.read
  let gates ← r.gates.mapM GoalGate.read
  let goal ← cleanText r.goal 2000 "goal"
  if r.status ≠ .cleared ∧ goal = "" then throw (.value "goal is required")
  let lastRunId ← cleanRunId r.lastRunId "last_run_id"
  let lastFailedRunId ← cleanRunId r.lastFailedRunId "lastFailedRunId"
  let createdByRunId ← cleanRunId r.createdByRunId "createdByRunId"
  let subgoals ← cleanUniqueStrings casefold r.subgoals
  if maxGates < gates.length then throw (.value "goal has more than 20 gates")
  let wait ← r.waiting.read
  return { goal, goalId := r.goalId, status := r.status
           revision := boundedInt r.revision 0 (2 ^ 63 - 1)
           conversationEpoch := boundedInt r.conversationEpoch 0 (2 ^ 63 - 1)
           turnsUsed := boundedInt r.turnsUsed 0 1000000
           maxTurns := boundedInt r.maxTurns 1 10000
           createdAt := max 0 r.createdAt, updatedAt := max 0 r.updatedAt, lastTurnAt := max 0 r.lastTurnAt
           lastRunId, lastFailedRunId, createdByRunId, lastVerdict := r.lastVerdict
           lastReason := cleanOptional maxReasonChars r.lastReason
           pausedReason := cleanOptional maxReasonChars r.pausedReason
           consecutiveParseFailures := boundedInt r.consecutiveParseFailures 0 1000000
           consecutiveTransportFailures := boundedInt r.consecutiveTransportFailures 0 1000000
           consecutiveCompactionFailures := boundedInt r.consecutiveCompactionFailures 0 1000000
           subgoals, wait, contract, gates }

/-! ## Within the limits -/

/-- A text that `_clean_text` leaves. -/
def Clean (limit : Nat) (s : String) : Prop := Text.strip s.toList = s.toList ∧ s.toList.length ≤ limit

def CleanRunId (runId : Option String) : Prop := ∀ t ∈ runId, Clean 512 t ∧ t ≠ ""

structure GoalContract.Stored (c : GoalContract) : Prop where
  outcome : Clean 2500 c.outcome
  verification : Clean 2500 c.verification
  constraints : Clean 2500 c.constraints
  boundaries : Clean 2500 c.boundaries
  stopWhen : Clean 2500 c.stopWhen

structure GoalGate.Stored (g : GoalGate) : Prop where
  command : Clean 4000 g.command ∧ g.command ≠ ""
  timeout : 1 ≤ g.timeoutSeconds ∧ g.timeoutSeconds ≤ 3600
  retries : g.maxRetries ≤ 100
  attempts : g.attempts ≤ 1000000
  tail : g.lastOutputTail.toList.length ≤ maxGateOutputChars
  fingerprint : g.lastFailedFingerprint.toList.length ≤ 128

def WaitTarget.Stored : WaitTarget → Prop
  | .pid n => 0 < n
  | .session id => Clean 1000 id ∧ id ≠ ""
  | .time deadline => 0 < deadline

/-- The subgoals as `_clean_unique_strings` leaves them. -/
structure SubgoalsStored (casefold : String → String) (subgoals : List String) : Prop where
  clean : ∀ x ∈ subgoals, Clean 1000 x ∧ x ≠ ""
  distinct : (subgoals.map casefold).Nodup
  bounded : subgoals.length ≤ maxSubgoals

/-- The failures that a record may have counted. They are under the limits as long as the
    goal goes on, and may go on when the user replies. -/
structure GoalState.Counted (s : GoalState) : Prop where
  bounded : s.consecutiveParseFailures ≤ maxParseFailures ∧ s.consecutiveTransportFailures ≤ maxTransportFailures ∧
    s.consecutiveCompactionFailures ≤ maxCompactionFailures
  live : s.status = .active ∨ s.lastVerdict = some .needsInput →
    s.consecutiveParseFailures < maxParseFailures ∧ s.consecutiveTransportFailures < maxTransportFailures ∧
      s.consecutiveCompactionFailures < maxCompactionFailures

structure GoalState.Stored (casefold : String → String) (s : GoalState) : Prop where
  goal : Clean 2000 s.goal
  named : s.status ≠ .cleared → s.goal ≠ ""
  revision : s.revision ≤ 2 ^ 63 - 1
  epoch : s.conversationEpoch ≤ 2 ^ 63 - 1
  turns : s.turnsUsed ≤ 1000000
  budget : 1 ≤ s.maxTurns ∧ s.maxTurns ≤ 10000
  created : 0 ≤ s.createdAt
  updated : 0 ≤ s.updatedAt
  lastTurn : 0 ≤ s.lastTurnAt
  lastRun : CleanRunId s.lastRunId
  lastFailedRun : CleanRunId s.lastFailedRunId
  createdByRun : CleanRunId s.createdByRunId
  counted : s.Counted
  subgoals : SubgoalsStored casefold s.subgoals
  wait : ∀ w ∈ s.wait, w.target.Stored ∧ 0 ≤ w.since ∧ s.status = .active
  contract : s.contract.Stored
  gates : s.gates.length ≤ maxGates ∧ ∀ g ∈ s.gates, g.Stored

def GoalState.truncated (s : GoalState) : GoalState :=
  { s with lastReason := cleanOptional maxReasonChars s.lastReason
           pausedReason := cleanOptional maxReasonChars s.pausedReason
           wait := s.wait.map fun w => { w with reason := cleanOptional maxReasonChars w.reason } }

theorem cleanText_clean {limit : Nat} {s : String} (h : Clean limit s) (fieldName : String) :
    cleanText s limit fieldName = .ok s := by
  unfold cleanText
  rw [h.1]
  dsimp only
  rw [if_neg (Nat.not_lt.2 h.2), String.ofList_toList]

theorem cleanText_ok {limit : Nat} {v s fieldName : String} (h : cleanText v limit fieldName = .ok s) : Clean limit s := by
  unfold cleanText at h
  dsimp only at h
  split at h
  · cases h
  · rename_i hshort
    cases h
    unfold Clean
    rw [String.toList_ofList]
    exact ⟨Text.strip_strip _, Nat.not_lt.1 hshort⟩

theorem cleanRunId_clean {runId : Option String} (h : CleanRunId runId) (fieldName : String) :
    cleanRunId runId fieldName = .ok runId := by
  unfold cleanRunId
  cases runId with
  | none => rfl
  | some t =>
    obtain ⟨hclean, hne⟩ := h t rfl
    rw [Option.getD_some, cleanText_clean hclean]
    dsimp only
    rw [if_neg hne]

theorem cleanRunId_ok {v runId : Option String} {fieldName : String} (h : cleanRunId v fieldName = .ok runId) :
    CleanRunId runId := by
  unfold cleanRunId at h
  split at h
  · cases h
  · rename_i text htext
    cases h
    intro t ht
    split at ht
    · cases ht
    · rename_i hne
      cases ht
      exact ⟨cleanText_ok htext, hne⟩

theorem GoalContract.Stored.read {c : GoalContract} (h : c.Stored) : c.read = .ok c := by
  unfold GoalContract.read
  rw [cleanText_clean h.outcome, cleanText_clean h.verification, cleanText_clean h.constraints, cleanText_clean h.boundaries,
    cleanText_clean h.stopWhen]
  rfl

theorem boundedInt_of_mem {n lo hi : Nat} (h : lo ≤ n ∧ n ≤ hi) : boundedInt n lo hi = n := by
  unfold boundedInt
  omega

theorem GoalGate.Stored.clone {g : GoalGate} (h : g.Stored) : g.clone = g := by
  unfold GoalGate.clone
  rw [boundedInt_of_mem ⟨Nat.zero_le _, h.attempts⟩, Nat.sub_eq_zero_of_le h.tail, List.drop_zero, String.ofList_toList,
    List.take_of_length_le h.fingerprint, String.ofList_toList]

theorem GoalGate.Stored.read {g : GoalGate} (h : g.Stored) : g.read = .ok g := by
  unfold GoalGate.read
  rw [cleanText_clean h.command.1, h.clone, boundedInt_of_mem h.timeout, boundedInt_of_mem ⟨Nat.zero_le _, h.retries⟩]
  show (if g.command = "" then _ else _) = _
  rw [if_neg h.command.2]
  rfl

theorem read_gates : ∀ {gates : List GoalGate}, (∀ g ∈ gates, g.Stored) → gates.mapM GoalGate.read = .ok gates := by
  intro gates
  induction gates with
  | nil => intro _; rfl
  | cons g gates ih =>
    intro h
    rw [List.mapM_cons, (h g List.mem_cons_self).read, ih fun g' hg' => h g' (List.mem_cons_of_mem _ hg')]
    rfl

section
variable {casefold : String → String}

def addUnique (casefold : String → String) (result : List String) (value : String) : Except GoalError (List String) := do
  let text ← cleanText value 1000 "subgoal"
  let result := if text ≠ "" ∧ casefold text ∉ result.map casefold then result ++ [text] else result
  if maxSubgoals < result.length then throw (.value "too many subgoals (maximum 50)")
  return result

theorem cleanUniqueStrings_eq (values : List String) :
    cleanUniqueStrings casefold values = values.foldlM (addUnique casefold) [] := rfl

theorem addUnique_stored {result result' : List String} {value : String} (hr : SubgoalsStored casefold result)
    (h : addUnique casefold result value = .ok result') : SubgoalsStored casefold result' := by
  simp only [addUnique, bind_ok, guard_ok, pure_ok] at h
  obtain ⟨text, htext, hbounded, rfl⟩ := h
  split at hbounded
  · rename_i hnew
    rw [if_pos hnew]
    refine ⟨fun x hx => ?_, ?_, Nat.not_lt.1 hbounded⟩
    · obtain hx | hx := List.mem_append.1 hx
      · exact hr.clean x hx
      · obtain rfl := List.mem_singleton.1 hx
        exact ⟨cleanText_ok htext, hnew.1⟩
    · rw [List.map_append, List.nodup_append]
      refine ⟨hr.distinct, List.pairwise_singleton _ _, fun a ha b hb => ?_⟩
      obtain rfl := List.mem_singleton.1 hb
      exact fun he => hnew.2 (he ▸ ha)
  · rename_i hold
    rw [if_neg hold]
    exact hr

theorem cleanUniqueStrings_ok {values subgoals : List String} (h : cleanUniqueStrings casefold values = .ok subgoals) :
    SubgoalsStored casefold subgoals := by
  rw [cleanUniqueStrings_eq] at h
  suffices hfold : ∀ result, SubgoalsStored casefold result → values.foldlM (addUnique casefold) result = .ok subgoals →
      SubgoalsStored casefold subgoals from hfold [] ⟨nofun, List.nodup_nil, Nat.zero_le _⟩ h
  clear h
  induction values with
  | nil =>
    intro result hr h
    cases h
    exact hr
  | cons value values ih =>
    intro result hr h
    rw [List.foldlM_cons] at h
    obtain ⟨result', hone, h⟩ := bind_ok.1 h
    exact ih result' (addUnique_stored hr hone) h

theorem SubgoalsStored.read {subgoals : List String} (h : SubgoalsStored casefold subgoals) :
    cleanUniqueStrings casefold subgoals = .ok subgoals := by
  rw [cleanUniqueStrings_eq]
  suffices hfold : ∀ result, SubgoalsStored casefold (result ++ subgoals) →
      subgoals.foldlM (addUnique casefold) result = .ok (result ++ subgoals) from hfold [] h
  clear h
  induction subgoals with
  | nil =>
    intro result _
    rw [List.append_nil]
    rfl
  | cons x subgoals ih =>
    intro result h
    obtain ⟨hclean, hne⟩ := h.clean x (by simp)
    have hnew : casefold x ∉ result.map casefold := by
      have hn := h.distinct
      rw [List.map_append, List.nodup_append] at hn
      exact fun hin => hn.2.2 _ hin _ List.mem_cons_self rfl
    have hroom : ¬ maxSubgoals < (result ++ [x]).length := by
      have := h.bounded
      simp only [List.length_append, List.length_cons, List.length_nil] at this ⊢
      omega
    have hone : addUnique casefold result x = .ok (result ++ [x]) := by
      simp only [addUnique, bind_ok, guard_ok, pure_ok]
      refine ⟨x, cleanText_clean hclean _, ?_, if_pos ⟨hne, hnew⟩⟩
      rw [if_pos ⟨hne, hnew⟩]
      exact hroom
    rw [List.foldlM_cons, hone, show result ++ x :: subgoals = (result ++ [x]) ++ subgoals by simp]
    exact ih (result ++ [x]) (by simpa using h)

theorem cleanOptional_clean {limit : Nat} {t : String} (h : Clean limit t) (hne : t ≠ "") :
    cleanOptional limit (some t) = some t := by
  have hlist : t.toList ≠ [] := fun hnil => hne (by rw [← String.ofList_toList (s := t), hnil])
  unfold cleanOptional
  rw [Option.map_some, h.1, List.take_of_length_le h.2, Option.bind_some, if_neg hlist, String.ofList_toList]

/-- The barrier of a record as it is read. -/
theorem read_waitFields {wait : Option Wait} (h : ∀ w ∈ wait, w.target.Stored ∧ 0 ≤ w.since) :
    (waitFields wait).read = .ok (wait.map fun w => { w with reason := cleanOptional maxReasonChars w.reason }) := by
  cases wait with
  | none => rfl
  | some w =>
    obtain ⟨target, reason, since⟩ := w
    obtain ⟨htarget, hsince⟩ := h _ rfl
    have hmax : max 0 since = since := Int.max_eq_right hsince
    cases target with
    | pid n =>
      have hpos : 0 < n := htarget
      have hfilter : (some n).filter (0 < ·) = some n := by simp [Option.filter, hpos]
      simp only [waitFields, WaitFields.read, hfilter, hmax]
      rw [if_neg]
      · rfl
      · simp [WaitFields.targets, cleanOptional]
        split <;> omega
    | session id =>
      obtain ⟨hclean, hne⟩ := htarget
      simp only [waitFields, WaitFields.read, cleanOptional_clean hclean hne, hmax, Option.filter_none]
      rw [if_neg]
      · rfl
      · simp [WaitFields.targets]
        split <;> omega
    | time deadline =>
      have hpos : 0 < deadline := htarget
      have hdeadline : max 0 deadline = deadline := Int.max_eq_right (Int.le_of_lt hpos)
      simp only [waitFields, WaitFields.read, hdeadline, hmax, Option.filter_none]
      rw [if_neg]
      · have hne : deadline ≠ 0 := by omega
        simp [cleanOptional, hne]
      · simp [WaitFields.targets, cleanOptional]
        split <;> omega

/-- A record within the limits is read as it was written, up to its reasons. -/
theorem read_toDict {s : GoalState} (h : s.Stored casefold) : s.toDict.read casefold = .ok s.truncated := by
  simp only [GoalRecord.read, bind_ok, guard_ok, pure_ok]
  refine ⟨_, h.contract.read, _, read_gates h.gates.2, _, cleanText_clean h.goal _, fun hlost => h.named hlost.1 hlost.2, _,
    cleanRunId_clean h.lastRun _, _, cleanRunId_clean h.lastFailedRun _, _, cleanRunId_clean h.createdByRun _, _,
    h.subgoals.read, Nat.not_lt.2 h.gates.1, _, read_waitFields fun w hw => ⟨(h.wait w hw).1, (h.wait w hw).2.1⟩, ?_⟩
  have hbounded := h.counted.bounded
  unfold maxParseFailures maxTransportFailures maxCompactionFailures at hbounded
  unfold GoalState.truncated GoalState.toDict
  dsimp only
  rw [boundedInt_of_mem ⟨Nat.zero_le _, h.revision⟩, boundedInt_of_mem ⟨Nat.zero_le _, h.epoch⟩,
    boundedInt_of_mem ⟨Nat.zero_le _, h.turns⟩, boundedInt_of_mem h.budget, Int.max_eq_right h.created,
    Int.max_eq_right h.updated, Int.max_eq_right h.lastTurn,
    boundedInt_of_mem (n := s.consecutiveParseFailures) ⟨Nat.zero_le _, by omega⟩,
    boundedInt_of_mem (n := s.consecutiveTransportFailures) ⟨Nat.zero_le _, by omega⟩,
    boundedInt_of_mem (n := s.consecutiveCompactionFailures) ⟨Nat.zero_le _, by omega⟩]

theorem GoalState.Stored.truncated {s : GoalState} (h : s.Stored casefold) : s.truncated.Stored casefold :=
  { h with
    counted := { h.counted with }
    wait := by
      intro w hw
      obtain ⟨w', hw', rfl⟩ := Option.map_eq_some_iff.1 hw
      exact h.wait w' hw' }

end

end Flowly.Goals
