/-
  Flowly.Goals.Manager — the controls of a standing goal (`flowly/goals/manager.py`:
  `GoalManager` up to `waiting_state`), each one transaction on the goal store.

  A mutation says what becomes of the record. All but `set`, `resume` and `clear` leave
  the generation, its budget and its failure counters (`Operation.mutation_effect`).
-/

import Flowly.Goals.Store
import Flowly.Lib.Checked
import Mathlib.Algebra.Group.Nat.Defs

namespace Flowly.Goals

open Flowly.Lib

/-- What a step sees of the outside. -/
structure Outside where
  /-- `time.time()`. -/
  now : Int := 0
  pidIsAlive : Int → Bool := fun _ => false
  sessionIsWaiting : String → Bool := fun _ => false
  /-- `str.casefold`. -/
  casefold : String → String := id

def requireGoal : Option GoalState → Except GoalError GoalState
  | none => .error (.notFound "no goal is set")
  | some state => .ok state

def requireLiveGoal (state : Option GoalState) : Except GoalError GoalState := do
  let state ← requireGoal state
  if state.status = .cleared then throw (.notFound "no goal is set")
  return state

def requireActiveGoal (state : Option GoalState) : Except GoalError GoalState := do
  let state ← requireLiveGoal state
  if !state.isActive then throw (.runtime "goal is not active")
  return state

/-- `_pause`. -/
def pauseState (state : GoalState) (reason : String) : GoalState :=
  { state with status := .paused, pausedReason := some reason, wait := none }

def cleanUniqueStrings (casefold : String → String) (values : List String) : Except GoalError (List String) :=
  values.foldlM (fun result value => do
    let text ← cleanText value 1000 "subgoal"
    let result := if text ≠ "" ∧ casefold text ∉ result.map casefold then result ++ [text] else result
    if maxSubgoals < result.length then throw (.value "too many subgoals (maximum 50)")
    return result) []

/-- The controls. `set` has the id that `uuid4` gives the new goal and the budget
    `max_turns or self.default_max_turns`. -/
inductive Operation where
  | set (goal : String) (goalId : String) (maxTurns : Int) (contract : GoalContract) (conversationEpoch : Nat)
      (createdByRunId : Option String)
  | pause (reason : String) (expectedGoalId : Option String) (expectedRevision : Option Nat)
  | resume (expectedGoalId : Option String) (expectedRevision : Option Nat)
  | resumeForUserInput
  | clear (conversationEpoch : Option Nat) (expectedGoalId : Option String) (expectedRevision : Option Nat)
  | attachContract (goalId : String) (contract : GoalContract)
  | addSubgoal (criterion : String)
  | removeSubgoal (index1 : Int)
  | clearSubgoals
  | addGate (command : String) (timeoutSeconds maxRetries : Int)
  | removeGate (index1 : Int)
  | clearGates
  | waitOn (target : WaitTarget) (reason : String)
  | stopWaiting
  | waitingState

def popAt {α : Type*} (xs : List α) (index1 : Int) (message : String) : Except GoalError (List α) :=
  if index1 - 1 < 0 ∨ (xs.length : Int) ≤ index1 - 1 then .error (.index message)
  else .ok (xs.eraseIdx (index1 - 1).toNat)

def stillWaiting (o : Outside) (state : GoalState) : Bool :=
  match state.wait with
  | none => false
  | some w =>
    match w.target with
    | .pid pid => o.pidIsAlive pid
    | .session id => o.sessionIsWaiting id
    | .time deadline => o.now < deadline

namespace Operation

def mutation (o : Outside) : Operation → Option GoalState → Except GoalError GoalState
  | set goal goalId maxTurns contract conversationEpoch createdByRunId, _ => do
    let goal ← cleanText goal 2000 "goal"
    if goal = "" then throw (.value "goal is required")
    let createdByRunId ← cleanRunId createdByRunId "createdByRunId"
    return { goal, goalId, maxTurns := boundedInt maxTurns 1 10000, contract, createdByRunId
             conversationEpoch := boundedInt conversationEpoch 0 (2 ^ 63 - 1), createdAt := o.now, updatedAt := o.now }
  | pause reason _ _, current => do
    let state ← requireGoal current
    if state.status = .cleared then throw (.notFound "no goal to pause")
    return pauseState state reason
  | resume _ _, current => do
    let state ← requireGoal current
    if state.status = .cleared then throw (.notFound "no goal to resume")
    return { state with status := .active, turnsUsed := 0, pausedReason := none, consecutiveParseFailures := 0,
                        consecutiveTransportFailures := 0, consecutiveCompactionFailures := 0, wait := none }
  | resumeForUserInput, current => do
    let state ← requireGoal current
    if state.status ≠ .paused ∨ state.lastVerdict ≠ some .needsInput then
      throw (.conflict "goal is no longer waiting for user input")
    return { state with status := .active, pausedReason := none }
  | clear conversationEpoch _ _, current => do
    let state ← requireGoal current
    return { state with status := .cleared, goal := "", subgoals := [], gates := [], contract := {},
                        lastVerdict := some .inactive, lastReason := some "goal cleared", pausedReason := none,
                        consecutiveParseFailures := 0, consecutiveTransportFailures := 0,
                        consecutiveCompactionFailures := 0, wait := none,
                        conversationEpoch := conversationEpoch.getD state.conversationEpoch }
  | attachContract goalId contract, current => do
    let state ← requireLiveGoal current
    if contract.isEmpty ∨ state.goalId ≠ goalId ∨ !state.contract.isEmpty then throw .superseded
    return { state with contract }
  | addSubgoal criterion, current => do
    let state ← requireLiveGoal current
    if maxSubgoals ≤ state.subgoals.length then throw (.value "a goal may have at most 50 subgoals")
    return { state with subgoals := ← cleanUniqueStrings o.casefold (state.subgoals ++ [criterion]) }
  | removeSubgoal index1, current => do
    let state ← requireLiveGoal current
    return { state with subgoals := ← popAt state.subgoals index1 "subgoal index out of range" }
  | clearSubgoals, current => do
    let state ← requireLiveGoal current
    return { state with subgoals := [] }
  | addGate command timeoutSeconds maxRetries, current => do
    let gate ← GoalGate.make command timeoutSeconds maxRetries
    let state ← requireLiveGoal current
    if maxGates ≤ state.gates.length then throw (.value "a goal may have at most 20 gates")
    return { state with gates := state.gates ++ [gate] }
  | removeGate index1, current => do
    let state ← requireLiveGoal current
    return { state with gates := ← popAt state.gates index1 "gate index out of range" }
  | clearGates, current => do
    let state ← requireLiveGoal current
    return { state with gates := [] }
  | waitOn target reason, current => do
    let state ← requireActiveGoal current
    state.setWait o.now target reason
  | stopWaiting, current => do
    let state ← requireLiveGoal current
    return state.clearWait
  -- The record is read and then set by compare-and-set; a conflict leaves it.
  | waitingState, current => do
    let state ← requireGoal current
    if !state.isActive ∨ !state.hasWait ∨ stillWaiting o state then throw (.conflict "nothing to clear")
    return state.clearWait

def expectedGoalId : Operation → Option String
  | pause _ g _ => g
  | resume g _ => g
  | clear _ g _ => g
  | _ => none

def expectedRevision : Operation → Option Nat
  | pause _ _ n => n
  | resume _ n => n
  | clear _ _ n => n
  | _ => none

def run (o : Outside) (op : Operation) (s : GoalStore) : Except GoalError (GoalState × GoalStore) :=
  s.update o.now (op.mutation o) op.expectedGoalId op.expectedRevision

def apply (o : Outside) (op : Operation) (s : GoalStore) : GoalStore :=
  match op.run o s with
  | .ok (_, s') => s'
  | .error _ => s

end Operation

structure Within (before after : GoalState) : Prop where
  goalId : after.goalId = before.goalId
  maxTurns : after.maxTurns = before.maxTurns
  turnsUsed : after.turnsUsed = before.turnsUsed
  compaction : after.consecutiveCompactionFailures = before.consecutiveCompactionFailures
  live : before.status = .cleared → after.status = .cleared

/-- A control that is none of `set`, `resume` and `clear`. -/
def Operation.keeps : Operation → Bool
  | .set .. | .resume .. | .clear .. => false
  | _ => true

inductive Operation.Effect : Operation → Option GoalState → GoalState → Prop
  | set {goal goalId maxTurns contract epoch run before after} : after.goalId = goalId → after.turnsUsed = 0 →
      1 ≤ after.maxTurns ∧ after.maxTurns ≤ 10000 → Effect (.set goal goalId maxTurns contract epoch run) before after
  | resume {g n before after} : after.goalId = before.goalId → after.maxTurns = before.maxTurns → after.turnsUsed = 0 →
      Effect (.resume g n) (some before) after
  | clear {epoch g n before after} : after.goalId = before.goalId → after.maxTurns = before.maxTurns →
      after.turnsUsed = before.turnsUsed → after.status = .cleared → Effect (.clear epoch g n) (some before) after
  | within {op before after} : op.keeps = true → Within before after → Effect op (some before) after

open Flowly.Lib.Checked

variable {o : Outside} {current : Option GoalState} {state u : GoalState}

@[simp] theorem requireGoal_ok : requireGoal current = .ok state ↔ current = some state := by
  cases current with
  | none => exact ⟨fun h => (by cases h), fun h => (by cases h)⟩
  | some c => exact ⟨fun h => (by cases h; rfl), fun h => (by cases h; rfl)⟩

@[simp] theorem requireLiveGoal_ok : requireLiveGoal current = .ok state ↔ current = some state ∧ state.status ≠ .cleared := by
  simp only [requireLiveGoal, bind_ok, requireGoal_ok, guard_ok, pure_ok]
  constructor
  · intro ⟨s, hs, hlive, heq⟩
    subst heq
    exact ⟨hs, hlive⟩
  · intro ⟨hs, hlive⟩
    exact ⟨state, hs, hlive, rfl⟩

@[simp] theorem requireActiveGoal_ok : requireActiveGoal current = .ok state ↔ current = some state ∧ state.status = .active := by
  simp only [requireActiveGoal, bind_ok, requireLiveGoal_ok, guard_ok, pure_ok]
  constructor
  · intro ⟨s, ⟨hs, _⟩, hact, heq⟩
    subst heq
    exact ⟨hs, by simpa [GoalState.isActive] using hact⟩
  · intro ⟨hs, hact⟩
    exact ⟨state, ⟨hs, by rw [hact]; intro h; cases h⟩, by simp [GoalState.isActive, hact], rfl⟩

/-- What a barrier changes of a record. -/
theorem setWait_ok {s : GoalState} {now : Int} {target : WaitTarget} {reason : String} (h : s.setWait now target reason = .ok u) :
    ∃ w, u = { s with wait := some w } := by
  unfold GoalState.setWait at h
  cases target with
  | pid pid =>
    simp only at h
    split_ifs at h
    cases h
    exact ⟨_, rfl⟩
  | session id =>
    rcases hid : cleanText id 1000 "wait session" with e | id'
    · simp only [hid] at h
      cases h
    · simp only [hid] at h
      split_ifs at h
      cases h
      exact ⟨_, rfl⟩
  | time deadline =>
    simp only at h
    split_ifs at h
    cases h
    exact ⟨_, rfl⟩

/-- A record of a live goal with the same generation, budget and failures. -/
theorem Within.of_live {before after : GoalState} (hlive : before.status ≠ .cleared) (hid : after.goalId = before.goalId)
    (hmax : after.maxTurns = before.maxTurns) (hused : after.turnsUsed = before.turnsUsed)
    (hcomp : after.consecutiveCompactionFailures = before.consecutiveCompactionFailures) : Within before after :=
  ⟨hid, hmax, hused, hcomp, fun hc => absurd hc hlive⟩

namespace Operation

/-- The controls of a live goal keep to its generation and its budget. -/
theorem mutation_effect {op : Operation} (h : op.mutation o current = .ok u) : op.Effect current u := by
  cases op with
    simp only [mutation, bind_ok, guard_ok, pure_ok, requireGoal_ok, requireLiveGoal_ok, requireActiveGoal_ok, not_or, not_not] at h
  | set goal goalId maxTurns contract epoch run =>
    obtain ⟨_, _, _, _, _, rfl⟩ := h
    refine .set rfl rfl ?_
    show 1 ≤ boundedInt maxTurns 1 10000 ∧ boundedInt maxTurns 1 10000 ≤ 10000
    unfold boundedInt
    omega
  | pause reason g n =>
    obtain ⟨s, rfl, hlive, rfl⟩ := h
    exact .within rfl (.of_live hlive rfl rfl rfl rfl)
  | resume g n =>
    obtain ⟨s, rfl, _, rfl⟩ := h
    exact .resume rfl rfl rfl
  | resumeForUserInput =>
    obtain ⟨s, rfl, ⟨hpaused, _⟩, rfl⟩ := h
    exact .within rfl (.of_live (by rw [hpaused]; intro h; cases h) rfl rfl rfl rfl)
  | clear epoch g n =>
    obtain ⟨s, rfl, rfl⟩ := h
    exact .clear rfl rfl rfl rfl
  | attachContract goalId contract =>
    obtain ⟨s, ⟨rfl, hlive⟩, _, rfl⟩ := h
    exact .within rfl (.of_live hlive rfl rfl rfl rfl)
  | addSubgoal criterion =>
    obtain ⟨s, ⟨rfl, hlive⟩, _, _, _, rfl⟩ := h
    exact .within rfl (.of_live hlive rfl rfl rfl rfl)
  | removeSubgoal | removeGate =>
    obtain ⟨s, ⟨rfl, hlive⟩, _, _, rfl⟩ := h
    exact .within rfl (.of_live hlive rfl rfl rfl rfl)
  | clearSubgoals | clearGates | stopWaiting =>
    obtain ⟨s, ⟨rfl, hlive⟩, rfl⟩ := h
    exact .within rfl (.of_live hlive rfl rfl rfl rfl)
  | addGate command timeoutSeconds maxRetries =>
    obtain ⟨_, _, s, ⟨rfl, hlive⟩, _, rfl⟩ := h
    exact .within rfl (.of_live hlive rfl rfl rfl rfl)
  | waitOn target reason =>
    obtain ⟨s, ⟨rfl, hact⟩, h⟩ := h
    obtain ⟨w, rfl⟩ := setWait_ok h
    exact .within rfl (.of_live (by rw [hact]; intro h; cases h) rfl rfl rfl rfl)
  | waitingState =>
    obtain ⟨s, rfl, ⟨hact, _⟩, rfl⟩ := h
    have hact : s.status = .active := by simpa [GoalState.isActive] using hact
    exact .within rfl (.of_live (by rw [hact]; intro h; cases h) rfl rfl rfl rfl)

theorem run_ok {op : Operation} {s s' : GoalStore} {r : GoalState} (h : op.run o s = .ok (r, s')) :
    ∃ u, op.Effect s.get u ∧ r = s.committed o.now u ∧ s' = s.push r := by
  obtain ⟨_, u, hu, hr, hs⟩ := GoalStore.update_ok h
  exact ⟨u, mutation_effect hu, hr, hs⟩

/-- What an operation leaves: the store there was, or one record more. -/
theorem apply_cases (o : Outside) (op : Operation) (s : GoalStore) :
    op.apply o s = s ∨ ∃ u, op.mutation o s.get = .ok u ∧ op.apply o s = s.push (s.committed o.now u) := by
  unfold apply
  rcases hr : op.run o s with e | ⟨r, s'⟩
  · exact .inl rfl
  · obtain ⟨_, u, hu, rfl, rfl⟩ := GoalStore.update_ok hr
    exact .inr ⟨u, hu, rfl⟩

theorem apply_ordered {s : GoalStore} (h : s.Ordered) (o : Outside) (op : Operation) : (op.apply o s).Ordered := by
  rcases op.apply_cases o s with hs | ⟨u, _, hs⟩
  · rw [hs]
    exact h
  · rw [hs]
    exact h.push_committed o.now u

end Operation

end Flowly.Goals
