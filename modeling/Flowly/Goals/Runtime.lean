/-
  Flowly.Goals.Runtime — the worker of one conversation that judges delivered turns and
  starts the next ones (`flowly/goals/runtime.py`: `_worker`, `_after_turn`, `_run_next`,
  `_resume_wait`).

  A step of the worker goes up to its next transaction on the store or its next await.
  The controls, new user messages, deliveries and wake-ups come between. The poller of a
  wait barrier is a `waiting_state` and then a wake-up; notices go to the user and change
  nothing here. What raises, or is cancelled, ends the work in hand.
-/

import Flowly.Goals.Evaluation

namespace Flowly.Goals

open Flowly.Lib

/-- `goal_binding`: a goal's generation and revision, or anything else. -/
inductive GoalBinding where
  | goal (goalId : String) (revision : Int)
  | other

structure DeliveredGoalTurn where
  response : String
  userEpoch : Nat
  succeeded : Bool := true
  aborted : Bool := false
  providerError : Bool := false
  compactionFailed : Bool := false
  runId : Option String := none
  goalBinding : Option GoalBinding := none

inductive Work where
  | delivered (turn : DeliveredGoalTurn)
  | kickoff (goalId : String) (userEpoch : Nat)
  | wake

inductive Cause where
  | kickoff
  /-- A turn was judged, or a gate of it failed. -/
  | judged
  /-- The context could not be recovered. -/
  | retry
  | wake
  deriving DecidableEq

inductive Task where
  | idle
  | turn (t : DeliveredGoalTurn)
  /-- About to park the goal for a plan or for subagents. -/
  | park (session reason : String)
  | evaluating (t : DeliveredGoalTurn) (e : Evaluation)
  | decided (t : DeliveredGoalTurn) (d : GoalDecision)
  /-- `_run_next` has yielded once. -/
  | next (goalId : String) (userEpoch : Nat) (cause : Cause)
  | running (goalId : String) (userEpoch : Nat) (revision : Nat)
  /-- The continuation could not be submitted. -/
  | failing (e : Evaluation)
  | wakeRead
  | wakeClear (waiting : GoalState)
  | wakeReread
  | wakeGet
  /-- `_resume_wait` has its record. -/
  | resumed (state : GoalState)

structure Start where
  goalId : String
  cause : Cause
  turnsUsed : Nat
  maxTurns : Nat
  /-- How often the user had resumed when the turn was decided on, and what was used then. -/
  grant : Nat
  usedThen : Nat

structure Runtime where
  sessionKey : String := "cli:direct"
  store : GoalStore := {}
  userEpoch : Nat := 0
  queue : List Work := []
  task : Task := .idle
  /-- Ghost: the goal ids that were given. -/
  ids : List String := []
  /-- Ghost: how often the user has resumed the goal. -/
  resumes : Nat := 0
  /-- Ghost: the resumes and the turns used at the last step of a decision. -/
  decided : Nat × Nat := (0, 0)
  /-- Ghost: the turns that were started. -/
  starts : List Start := []

inductive Outcome where
  | turn (t : DeliveredGoalTurn)
  | none
  | raised

structure Input extends Surroundings where
  pendingPlan : Option String := none
  pendingSubagents : List String := []
  outcome : Outcome := .none

inductive RuntimeEvent where
  | operate (o : Outside) (op : Operation)
  /-- A user message arrives. -/
  | arrive
  | enqueue (w : Work)
  /-- The work in hand raises or is cancelled. -/
  | drop
  | cancelSession
  | work (x : Input)

namespace Runtime

def DeliveredGoalTurn.unsuccessful (t : DeliveredGoalTurn) : Bool :=
  !t.succeeded || t.providerError || t.aborted || t.compactionFailed || !Text.hasText t.response.toList

/-- The binding is none, or of this goal and not of a later revision. -/
def bound (binding : Option GoalBinding) (state : GoalState) : Bool :=
  match binding with
  | none => true
  | some (.goal goalId revision) => goalId = state.goalId && 0 ≤ revision && revision ≤ state.revision
  | some .other => false

/-- The arguments of `evaluate_after_turn`. -/
def evaluated (t : DeliveredGoalTurn) (state : GoalState) : Evaluation where
  turn :=
    { latestResponse := t.response, turnSucceeded := t.succeeded, aborted := t.aborted, providerError := t.providerError,
      compactionFailed := t.compactionFailed, runId := t.runId, expectedGoalId := some state.goalId,
      expectedRevision := some state.revision }

def subagentsReason (waitingFor : List String) : String :=
  "waiting for " ++ toString waitingFor.length ++ " subagent(s): " ++ ", ".intercalate (waitingFor.take 3) ++
    (if 3 < waitingFor.length then " …" else "")

def afterTurn (w : Runtime) (x : Input) (t : DeliveredGoalTurn) : Task :=
  match w.store.get with
  | none => .idle
  | some state =>
    if !state.isActive ∨ !bound t.goalBinding state then .idle
    else if DeliveredGoalTurn.unsuccessful t ∧ w.userEpoch ≠ t.userEpoch then .idle
    else if !DeliveredGoalTurn.unsuccessful t ∧ !state.hasWait ∧ (x.pendingPlan.any (· ≠ "")) then
      .park ("plan:" ++ x.pendingPlan.getD "") "waiting for plan approval"
    else if !DeliveredGoalTurn.unsuccessful t ∧ !state.hasWait ∧ x.pendingSubagents ≠ [] then
      .park ("subagents:" ++ w.sessionKey) (subagentsReason x.pendingSubagents)
    else .evaluating t (evaluated t state)

def causeOf (t : DeliveredGoalTurn) : Cause := if t.compactionFailed then .retry else .judged

/-- `_after_turn` from the decision on. -/
def afterDecision (t : DeliveredGoalTurn) (d : GoalDecision) : Task :=
  if d.status = some .paused ∨ d.status = some .done then .idle
  else if d.verdict = .wait ∨ d.verdict = .waiting then .idle
  else
    match d.shouldContinue, d.goalId with
    | true, some goalId => .next goalId t.userEpoch (causeOf t)
    | _, _ => .idle

def submissionFailed (goalId : String) (revision : Nat) : Evaluation where
  turn := { latestResponse := "", turnSucceeded := false, expectedGoalId := some goalId, expectedRevision := some revision }

def runNext (w : Runtime) (goalId : String) (epoch : Nat) (cause : Cause) : Runtime :=
  if w.userEpoch ≠ epoch then { w with task := .idle }
  else
    match w.store.get with
    | none => { w with task := .idle }
    | some state =>
      if !state.isActive ∨ state.goalId ≠ goalId then { w with task := .idle }
      else
        { w with
          task := .running goalId epoch state.revision
          starts := { goalId, cause, turnsUsed := state.turnsUsed, maxTurns := state.maxTurns,
                      grant := w.decided.1, usedThen := w.decided.2 } :: w.starts }

def took (w : Runtime) (p : GoalStore × Evaluation) (task : Evaluation → Task) : Runtime :=
  { w with store := p.1, task := task p.2, decided := (w.resumes, (p.1.get.map GoalState.turnsUsed).getD 0) }

def resumeWait (w : Runtime) (state : GoalState) : Task :=
  if !state.isActive ∨ state.hasWait then .idle else .next state.goalId w.userEpoch .wake

def work (w : Runtime) (x : Input) : Runtime :=
  match w.task with
  | .idle =>
    match w.queue with
    | [] => w
    | .delivered t :: rest => { w with queue := rest, task := .turn t }
    | .kickoff goalId epoch :: rest => { w with queue := rest, task := .next goalId epoch .kickoff }
    | .wake :: rest => { w with queue := rest, task := .wakeRead }
  | .turn t => { w with task := w.afterTurn x t }
  | .park session reason =>
    { w with store := (Operation.waitOn (.session session) reason).apply x.toOutside w.store, task := .idle }
  | .evaluating t e =>
    match e.phase with
    | .returned d => { w with task := .decided t d }
    | .raised _ => { w with task := .idle }
    | _ => w.took (e.advance x.toSurroundings w.store) (.evaluating t)
  | .decided t d => { w with task := afterDecision t d }
  | .next goalId epoch cause => w.runNext goalId epoch cause
  | .running goalId epoch revision =>
    match x.outcome with
    | .raised =>
      if w.userEpoch ≠ epoch then { w with task := .idle } else { w with task := .failing (submissionFailed goalId revision) }
    | .none => { w with task := .idle }
    | .turn t => { w with task := .turn { t with goalBinding := some (t.goalBinding.getD (.goal goalId 0)) } }
  | .failing e =>
    match e.phase with
    | .returned _ | .raised _ => { w with task := .idle }
    | _ => w.took (e.advance x.toSurroundings w.store) .failing
  | .wakeRead =>
    match w.store.get with
    | none => { w with task := .wakeGet }
    | some state =>
      if !state.isActive ∨ !state.hasWait then { w with task := .wakeGet }
      else if stillWaiting x.toOutside state then { w with task := .resumed state }
      else { w with task := .wakeClear state }
  | .wakeClear waiting =>
    match w.store.compareAndUpdate x.now waiting (fun current => .ok current.clearWait) with
    | .ok (r, s') => { w with store := s', task := .resumed r }
    | .error (.conflict _) => { w with task := .wakeReread }
    | .error _ => { w with task := .idle }
  | .wakeReread =>
    match w.store.get with
    | none => { w with task := .wakeGet }
    | some state => { w with task := .resumed state }
  | .wakeGet =>
    match w.store.get with
    | none => { w with task := .idle }
    | some state => { w with task := .resumed state }
  | .resumed state => { w with task := w.resumeWait state, decided := (w.resumes, (w.store.get.map GoalState.turnsUsed).getD 0) }

/-- A control of the user, with the ids and the resumes counted; one that raises leaves all. -/
def operate (w : Runtime) (o : Outside) (op : Operation) : Runtime :=
  match op.run o w.store with
  | .error _ => w
  | .ok (_, s') =>
    match op with
    | .set _ goalId _ _ _ _ => { w with store := s', ids := goalId :: w.ids }
    | .resume _ _ => { w with store := s', resumes := w.resumes + 1 }
    | _ => { w with store := s' }

def next (w : Runtime) : RuntimeEvent → Runtime
  | .operate o op => w.operate o op
  | .arrive => { w with userEpoch := w.userEpoch + 1 }
  | .enqueue k => { w with queue := w.queue ++ [k] }
  | .drop => { w with task := .idle }
  | .cancelSession => { w with task := .idle, queue := [] }
  | .work x => w.work x

/-- `uuid4` gives a new goal an id that no goal has had. -/
def fits (w : Runtime) : RuntimeEvent → Prop
  | .operate _ (.set _ goalId _ _ _ _) => goalId ∉ w.ids
  | _ => True

end Runtime

end Flowly.Goals
