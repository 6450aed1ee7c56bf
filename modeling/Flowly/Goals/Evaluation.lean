/-
  Flowly.Goals.Evaluation — the judging of one delivered turn (`flowly/goals/manager.py`:
  `evaluate_after_turn`, `_evaluate_gates`, `waiting_state`; `flowly/goals/gates.py`:
  `GateRunner.run`), step by step.

  A step is one transaction on the store with what is computed up to the next: a read, or
  a compare-and-set on the record the evaluation holds. Anything may happen to the store
  between two steps, and the gates and the judge are awaited there.
-/

import Flowly.Goals.Manager

namespace Flowly.Goals

open Flowly.Lib

def maxParseFailures : Nat := 3
def maxTransportFailures : Nat := 5
def maxCompactionFailures : Nat := 2

inductive ShellRun where
  | exited (exitCode : Int) (tail : String)
  | timedOut (tail : String)
  | failed (text : String)

structure GateResult where
  passed : Bool
  exitCode : Int
  outputTail : String
  fingerprint : String
  skippedUnchanged : Bool := false

structure GoalJudgeResult where
  verdict : GoalVerdict
  reason : String
  /-- The wait's kind and target; a time is a duration. -/
  wait : Option WaitTarget := none
  deriving DecidableEq

/-- What `judge.evaluate` returned or raised. -/
inductive JudgeAnswer where
  | result (r : GoalJudgeResult)
  | parseError (message : String)
  | transportError (message : String)

/-- What an evaluation sees besides: the workspace of its gates, and its judge. -/
structure Surroundings extends Outside where
  cwd : Option String := some ""
  workspaceFingerprint : String := ""
  shell : String → Nat → ShellRun := fun _ _ => .exited 0 ""
  judge : JudgeAnswer

/-- The arguments of `evaluate_after_turn`. -/
structure Turn where
  latestResponse : String
  turnSucceeded : Bool := true
  aborted : Bool := false
  providerError : Bool := false
  compactionFailed : Bool := false
  runId : Option String := none
  expectedGoalId : Option String := none
  expectedRevision : Option Nat := none

def goalContinuationMarker : String := "[Continuing toward the explicitly set standing goal]"

def continuationPrompt (state : GoalState) : String :=
  let numbered := state.subgoals.mapIdx fun i criterion => toString (i + 1) ++ ". " ++ criterion
  "\n\n".intercalate
    ([goalContinuationMarker, "Goal: " ++ state.goal] ++
      (if state.contract.isEmpty then [] else ["Completion contract:\n" ++ state.contract.render]) ++
      (if state.subgoals = [] then [] else ["Additional criteria:\n" ++ "\n".intercalate numbered]) ++
      ["Continue with the next concrete step. Stay within the constraints and " ++
        "verify completion with concrete evidence before claiming success. If " ++
        "progress requires user input, explain exactly what is needed without " ++ "discarding the standing goal."])

def gateContinuation (state : GoalState) (gate : GoalGate) (skipped : Bool) : String :=
  let skipNote :=
    if skipped then "\nThe workspace was unchanged since the previous failure, so the command was not run again." else ""
  goalContinuationMarker ++ "\n\nGoal: " ++ state.goal ++ "\n\nQuality gate failed (attempt " ++ toString gate.attempts ++ "/" ++
    toString gate.maxRetries ++ "):\n$ " ++ gate.command ++ "\nExit code: " ++
    ((gate.lastExitCode.map toString).getD "None") ++ skipNote ++ "\n\nOutput tail:\n```\n" ++
    (if gate.lastOutputTail = "" then "(no output)" else gate.lastOutputTail) ++
    "\n```\n\nFix the underlying issue and verify the gate. Do not claim completion while this gate fails."

def outputTail (text : String) : String :=
  String.ofList (text.toList.drop (text.toList.length - maxGateOutputChars))

/-- `GateRunner.run`. A gate that failed on the same workspace is not run again. -/
def runGate (x : Surroundings) (gate : GoalGate) : GateResult :=
  match x.cwd with
  | none => { passed := false, exitCode := -1, outputTail := "[gate cwd does not exist]", fingerprint := "" }
  | some _ =>
    if x.workspaceFingerprint ≠ "" ∧ gate.lastExitCode ≠ none ∧ gate.lastExitCode ≠ some 0 ∧
        gate.lastFailedFingerprint = x.workspaceFingerprint then
      { passed := false, exitCode := gate.lastExitCode.getD (-1), outputTail := gate.lastOutputTail,
        fingerprint := x.workspaceFingerprint, skippedUnchanged := true }
    else
      match x.shell gate.command gate.timeoutSeconds with
      | .exited exitCode tail => { passed := exitCode = 0, exitCode, outputTail := tail, fingerprint := x.workspaceFingerprint }
      | .timedOut tail =>
        { passed := false, exitCode := -1, fingerprint := x.workspaceFingerprint
          outputTail := outputTail (tail ++ "\n[gate timed out after " ++ toString gate.timeoutSeconds ++ "s]") }
      | .failed text => { passed := false, exitCode := -1, outputTail := outputTail text, fingerprint := x.workspaceFingerprint }

/-! ## What an evaluation makes of the record -/

def consumeTurn (now : Int) (runId : Option String) (state : GoalState) : Except GoalError GoalState := do
  if !state.isActive then throw (.conflict "goal is no longer active")
  return { state with turnsUsed := state.turnsUsed + 1, lastTurnAt := now, lastRunId := runId,
                      consecutiveCompactionFailures := 0 }

def recordTurnFailure (reason : String) (runId : Option String) (state : GoalState) : Except GoalError GoalState := do
  if !state.isActive then throw (.conflict "goal is no longer active")
  return { pauseState state reason with lastVerdict := some .needsInput, lastReason := some reason, lastFailedRunId := runId }

def recordCompactionFailure (state : GoalState) : Except GoalError GoalState := do
  if !state.isActive then throw (.conflict "goal is no longer active")
  let state := { state with consecutiveCompactionFailures := state.consecutiveCompactionFailures + 1,
                            lastVerdict := some .skipped, lastReason := some "context recovery failed" }
  return if maxCompactionFailures ≤ state.consecutiveCompactionFailures then
      pauseState state "context recovery failed twice; conversation history preserved"
    else state

def budgetExhausted (state : GoalState) : String :=
  "turn budget exhausted (" ++ toString state.turnsUsed ++ "/" ++ toString state.maxTurns ++ ")"

def noteVerdict (result : GoalJudgeResult) (parseFailed transportFailed : Bool) (state : GoalState) : GoalState :=
  { state with lastVerdict := some result.verdict, lastReason := some result.reason
               consecutiveParseFailures := if parseFailed then state.consecutiveParseFailures + 1 else 0
               consecutiveTransportFailures := if transportFailed then state.consecutiveTransportFailures + 1 else 0 }

def applyJudgeResult (now : Int) (result : GoalJudgeResult) (parseFailed transportFailed : Bool) (state : GoalState) :
    Except GoalError GoalState := do
  if !state.isActive then throw (.conflict "goal is no longer active")
  let state := noteVerdict result parseFailed transportFailed state
  match result.verdict with
  | .done => return { state with status := .done, wait := none }
  | .wait =>
    match result.wait with
    | none => throw (.judgeParse "wait verdict has no target")
    | some (.time seconds) => state.setWait now (.time (now + seconds)) result.reason
    | some target => state.setWait now target result.reason
  | .needsInput => return pauseState state ("waiting for user input: " ++ result.reason)
  | _ =>
    return if maxTransportFailures ≤ state.consecutiveTransportFailures then
        pauseState state "goal judge was unreachable for five consecutive turns"
      else if maxParseFailures ≤ state.consecutiveParseFailures then
        pauseState state "goal judge returned invalid output for three consecutive turns"
      else if state.maxTurns ≤ state.turnsUsed then pauseState state (budgetExhausted state)
      else state

def gateAfter (result : GateResult) (target : GoalGate) : GoalGate :=
  let target := { target with lastExitCode := some result.exitCode, lastOutputTail := result.outputTail }
  if result.passed then { target with attempts := 0, lastFailedFingerprint := "" }
  else { target with attempts := target.attempts + 1, lastFailedFingerprint := result.fingerprint }

/-- `apply` of `_evaluate_gates`, for the gate it ran as number `index`. -/
def applyGate (index : Nat) (gate : GoalGate) (result : GateResult) (current : GoalState) : Except GoalError GoalState :=
  match current.gates[index]? with
  | none => .error (.conflict "goal gate list changed")
  | some target =>
    if target.command ≠ gate.command then .error (.conflict "goal gate list changed")
    else
      let after := gateAfter result target
      let current := { current with gates := current.gates.set index after }
      .ok (if !result.passed ∧ after.maxRetries < after.attempts then
          pauseState current ("quality gate exhausted " ++ toString after.maxRetries ++ " retries: $ " ++ after.command)
        else current)

/-! ## The steps -/

inductive Phase where
  | start
  | abort (state : GoalState)
  | compaction (state : GoalState)
  | failure (state : GoalState) (reason : String)
  /-- About to read the wait barrier. -/
  | barrier (state : GoalState)
  /-- About to clear the barrier of `waiting`, which is over. -/
  | release (state waiting : GoalState)
  /-- The barrier was not the one to clear; about to read again. -/
  | reread (state : GoalState)
  | consume (state : GoalState)
  /-- The gate of that number runs. -/
  | gate (state : GoalState) (index : Nat)
  /-- The gate failed on the last turn of the budget. -/
  | exhausted (state : GoalState) (command : String)
  /-- Every gate has passed, and `gated` is the record they left. -/
  | judgeRead (gated : GoalState)
  | judge (gated state : GoalState)
  /-- A compare-and-set failed; about to read for the decision. -/
  | lost (reason : String)
  | returned (d : GoalDecision)
  | raised (e : GoalError)

/-- One commit of an evaluation: the record it had read, what the store held, what it wrote. -/
structure Commit where
  base : GoalState
  below : List GoalState
  after : GoalState
  /-- The gates that had passed in this evaluation. -/
  passed : List (String × Nat × Nat)

structure Evaluation where
  turn : Turn
  phase : Phase := .start
  /-- Ghost: the gates that have passed. -/
  passed : List (String × Nat × Nat) := []
  /-- Ghost: what has been committed, the newest first. -/
  commits : List Commit := []

namespace Evaluation

def goto (e : Evaluation) (s : GoalStore) (phase : Phase) : GoalStore × Evaluation := (s, { e with phase })

/-- `store.compare_and_update(base, mutation)`, and where a conflict leads. -/
def commit (e : Evaluation) (now : Int) (s : GoalStore) (base : GoalState) (mutation : GoalState → Except GoalError GoalState)
    (next : GoalState → Phase) (conflict : Phase) : GoalStore × Evaluation :=
  match s.compareAndUpdate now base mutation with
  | .ok (r, s') => (s', { e with phase := next r, commits := ⟨base, s.history, r, e.passed⟩ :: e.commits })
  | .error (.conflict _) => e.goto s conflict
  | .error err => e.goto s (.raised err)

def nextGate (state : GoalState) (index : Nat) : Phase :=
  if index < state.gates.length then .gate state index else .judgeRead state

def failureReason (t : Turn) : String :=
  if t.providerError then "model response failed" else if !t.turnSucceeded then "turn failed" else "empty response"

/-- `evaluate_after_turn` up to the first commit or the wait barrier. -/
def begin_ (t : Turn) (current : Option GoalState) : Phase :=
  match current with
  | none => .returned (decision none .inactive "no active goal" "" none)
  | some state =>
    if !state.isActive then .returned (decision current .inactive "no active goal" "" none)
    else if (t.expectedGoalId.isSome ∧ some state.goalId ≠ t.expectedGoalId) ∨
        (t.expectedRevision.isSome ∧ some state.revision ≠ t.expectedRevision) then
      .returned (decision current .skipped "goal changed before evaluation" "" none)
    else if t.aborted then .abort state
    else if t.compactionFailed then .compaction state
    else if !t.turnSucceeded ∨ t.providerError ∨ Text.hasText t.latestResponse.toList = false then
      .failure state (failureReason t)
    else .barrier state

def compactionDecision (failed : GoalState) : GoalDecision :=
  if failed.status = .paused then
    decision (some failed) .skipped "context recovery failed twice"
      ("⏸ Goal paused after context recovery failed twice. Conversation history was preserved; compact the chat or " ++
        "choose a larger-context model, then resume the goal.")
      none
  else
    decision (some failed) .skipped "context recovery failed; retrying once"
      "⚠ Goal context recovery failed. Retrying once without resetting or truncating the conversation."
      (some (continuationPrompt failed))

/-- `waiting_state`, its read. -/
def readBarrier (o : Outside) (state : GoalState) (current : Option GoalState) : Phase :=
  match current with
  | none => .consume state
  | some waiting =>
    if !waiting.isActive ∨ !waiting.hasWait then .consume state
    else if stillWaiting o waiting then
      .returned (decision current .waiting (((waiting.wait.bind (·.reason)).getD "wait barrier is active"))
        "⏳ Goal is parked until its wait condition is satisfied." none)
    else .release state waiting

/-- What `evaluate_after_turn` makes of the record that `waiting_state` returned. -/
def afterBarrier (state : GoalState) (waiting : Option GoalState) : Phase :=
  match waiting with
  | none => .consume state
  | some w =>
    if w.hasWait then
      .returned (decision waiting .waiting ((w.wait.bind (·.reason)).getD "wait barrier is active")
        "⏳ Goal is parked until its wait condition is satisfied." none)
    else .consume w

def afterGate (index : Nat) (result : GateResult) (state : GoalState) : Phase :=
  if result.passed then nextGate state (index + 1)
  else
    let command := (state.gates[index]?.map (·.command)).getD ""
    if state.status = .paused then
      .returned (decision (some state) .gateFailed ("gate exhausted retries: $ " ++ command)
        ("⏸ Goal paused — quality gate is still failing: $ " ++ command) none)
    else if state.maxTurns ≤ state.turnsUsed then .exhausted state command
    else
      .returned (decision (some state) .gateFailed
        ("gate failed (exit " ++ toString result.exitCode ++ "): $ " ++ command) ("✗ Quality gate failed: $ " ++ command)
        (state.gates[index]?.map fun gate => gateContinuation state gate result.skippedUnchanged))

/-- The judge's result, and which of its failures it stands for. -/
def judged : JudgeAnswer → GoalJudgeResult × Bool × Bool
  | .result r => (r, false, false)
  | .parseError message => ({ verdict := .continues, reason := message }, true, false)
  | .transportError message => ({ verdict := .continues, reason := message }, false, true)

def judgeDecision (result : GoalJudgeResult) (committed : GoalState) : GoalDecision :=
  if committed.status = .done then
    decision (some committed) .done result.reason ("✓ Goal achieved: " ++ result.reason) none
  else if result.verdict = .needsInput then
    decision (some committed) .needsInput result.reason ("◌ Goal is waiting for your input: " ++ result.reason) none
  else if committed.status = .paused then
    decision (some committed) .continues result.reason ("⏸ Goal paused: " ++ committed.pausedReason.getD "None") none
  else if result.verdict = .wait then
    decision (some committed) .wait result.reason ("⏳ Goal parked: " ++ result.reason) none
  else
    decision (some committed) .continues result.reason
      ("↻ Continuing toward goal (" ++ toString committed.turnsUsed ++ "/" ++ toString committed.maxTurns ++ "): " ++
        result.reason)
      (some (continuationPrompt committed))

def failureMessage : String :=
  "⏸ Goal paused because the turn could not finish. Review the error, then reply or resume the goal to continue."

/-- One step of `evaluate_after_turn`. -/
def advance (x : Surroundings) (s : GoalStore) (e : Evaluation) : GoalStore × Evaluation :=
  match e.phase with
  | .start => e.goto s (begin_ e.turn s.get)
  | .abort state =>
    e.commit x.now s state (fun current => .ok (pauseState current "turn interrupted"))
      (fun paused => .returned
        (decision (some paused) .skipped "turn interrupted" "⏸ Goal paused because the turn was interrupted." none))
      (.lost "goal changed")
  | .compaction state =>
    e.commit x.now s state recordCompactionFailure (fun failed => .returned (compactionDecision failed)) (.lost "goal changed")
  | .failure state reason =>
    e.commit x.now s state (recordTurnFailure reason e.turn.runId)
      (fun paused => .returned (decision (some paused) .needsInput reason failureMessage none)) (.lost "goal changed")
  | .barrier state => e.goto s (readBarrier x.toOutside state s.get)
  | .release state waiting =>
    e.commit x.now s waiting (fun current => .ok current.clearWait) (fun cleared => afterBarrier state (some cleared))
      (.reread state)
  | .reread state => e.goto s (afterBarrier state s.get)
  | .consume state => e.commit x.now s state (consumeTurn x.now e.turn.runId) (fun r => nextGate r 0) (.lost "goal changed")
  | .gate state index =>
    match state.gates[index]? with
    | none => e.goto s (.judgeRead state)
    | some gate =>
      let result := runGate x gate
      let e := if result.passed then { e with passed := gate.spec :: e.passed } else e
      e.commit x.now s state (applyGate index gate result) (afterGate index result) (.lost "goal changed during gate")
  | .exhausted state command =>
    e.commit x.now s state (fun current => .ok (pauseState current (budgetExhausted current)))
      (fun paused => .returned (decision (some paused) .gateFailed ("gate failed: $ " ++ command)
        "⏸ Goal paused — the turn budget ended while a quality gate was failing." none))
      (.lost "goal changed")
  | .judgeRead gated =>
    match s.get with
    | none => e.goto s (.returned (decision none .skipped "goal changed" "" none))
    | some state =>
      if !state.isActive then e.goto s (.returned (decision (some state) .skipped "goal changed" "" none))
      else e.goto s (.judge gated state)
  | .judge _ state =>
    let (result, parseFailed, transportFailed) := judged x.judge
    e.commit x.now s state (applyJudgeResult x.now result parseFailed transportFailed)
      (fun committed => .returned (judgeDecision result committed)) (.lost "goal changed during judging")
  | .lost reason => e.goto s (.returned (decision s.get .skipped reason "" none))
  | .returned _ => (s, e)
  | .raised _ => (s, e)

end Evaluation

/-! ## What the commits change -/

open Flowly.Lib.Checked

structure SameGoal (before after : GoalState) : Prop where
  goalId : after.goalId = before.goalId
  maxTurns : after.maxTurns = before.maxTurns
  gateSpecs : after.gateSpecs = before.gateSpecs

structure SameTurns (before after : GoalState) : Prop extends SameGoal before after where
  turnsUsed : after.turnsUsed = before.turnsUsed
  compaction : after.consecutiveCompactionFailures = before.consecutiveCompactionFailures

section Changes

variable {now : Int} {runId : Option String} {reason : String} {state u : GoalState}

theorem isActive_iff : state.isActive = true ↔ state.status = .active := by
  unfold GoalState.isActive
  exact decide_eq_true_iff

theorem consumeTurn_ok : consumeTurn now runId state = .ok u ↔ state.status = .active ∧
    { state with turnsUsed := state.turnsUsed + 1, lastTurnAt := now, lastRunId := runId,
                 consecutiveCompactionFailures := 0 } = u := by
  simp only [consumeTurn, guard_ok, pure_ok, Bool.not_eq_true', Bool.not_eq_false, isActive_iff]

theorem pauseState_same (state : GoalState) (reason : String) : SameTurns state (pauseState state reason) :=
  ⟨⟨rfl, rfl, rfl⟩, rfl, rfl⟩

theorem recordTurnFailure_ok (h : recordTurnFailure reason runId state = .ok u) : SameTurns state u ∧ u.status = .paused := by
  simp only [recordTurnFailure, guard_ok, pure_ok] at h
  obtain ⟨_, rfl⟩ := h
  exact ⟨⟨⟨rfl, rfl, rfl⟩, rfl, rfl⟩, rfl⟩

/-- A second context failure in a row pauses the goal, the first does not. -/
theorem recordCompactionFailure_ok (h : recordCompactionFailure state = .ok u) :
    state.status = .active ∧ SameGoal state u ∧ u.turnsUsed = state.turnsUsed ∧
      u.consecutiveCompactionFailures = state.consecutiveCompactionFailures + 1 ∧
      (u.status = .active ∧ state.consecutiveCompactionFailures = 0 ∨ u.status = .paused) := by
  simp only [recordCompactionFailure, guard_ok, pure_ok, Bool.not_eq_true', Bool.not_eq_false, isActive_iff] at h
  obtain ⟨hact, rfl⟩ := h
  refine ⟨hact, ?_⟩
  split_ifs with hmax
  · exact ⟨⟨rfl, rfl, rfl⟩, rfl, rfl, .inr rfl⟩
  · refine ⟨⟨rfl, rfl, rfl⟩, rfl, rfl, .inl ⟨hact, ?_⟩⟩
    unfold maxCompactionFailures at hmax
    omega

/-- A verdict is only of an active goal; it completes it when it is DONE, and a CONTINUE
    leaves it neither done nor paused only within its budget. -/
theorem applyJudgeResult_ok {result : GoalJudgeResult} {parseFailed transportFailed : Bool}
    (h : applyJudgeResult now result parseFailed transportFailed state = .ok u) :
    state.status = .active ∧ SameTurns state u ∧ (u.status = .done → result.verdict = .done) ∧
      (u.status ≠ .done → u.status ≠ .paused → result.verdict = .wait ∨ u.turnsUsed < u.maxTurns) := by
  simp only [applyJudgeResult, guard_ok, Bool.not_eq_true', Bool.not_eq_false, isActive_iff] at h
  obtain ⟨hact, h⟩ := h
  have hsame : SameTurns state (noteVerdict result parseFailed transportFailed state) := ⟨⟨rfl, rfl, rfl⟩, rfl, rfl⟩
  have hnoted : (noteVerdict result parseFailed transportFailed state).status = .active := hact
  generalize noteVerdict result parseFailed transportFailed state = noted at h hsame hnoted
  refine ⟨hact, ?_⟩
  have hpaused (reason : String) : SameTurns state (pauseState noted reason) := ⟨⟨hsame.goalId, hsame.maxTurns, hsame.gateSpecs⟩,
    hsame.turnsUsed, hsame.compaction⟩
  have hwaits (w : Option Wait) : SameTurns state { noted with wait := w } := ⟨⟨hsame.goalId, hsame.maxTurns, hsame.gateSpecs⟩,
    hsame.turnsUsed, hsame.compaction⟩
  have hnot : noted.status ≠ .done := by
    rw [hnoted]
    intro h
    cases h
  split at h
  · next hv =>
    simp only [pure_ok] at h
    subst h
    exact ⟨⟨⟨hsame.goalId, hsame.maxTurns, hsame.gateSpecs⟩, hsame.turnsUsed, hsame.compaction⟩, fun _ => hv,
      fun h => absurd rfl h⟩
  · next hv =>
    split at h
    · cases h
    · obtain ⟨w, rfl⟩ := setWait_ok h
      exact ⟨hwaits _, fun hd => absurd hd hnot, fun _ _ => .inl hv⟩
    · obtain ⟨w, rfl⟩ := setWait_ok h
      exact ⟨hwaits _, fun hd => absurd hd hnot, fun _ _ => .inl hv⟩
  · simp only [pure_ok] at h
    subst h
    exact ⟨hpaused _, fun h => (by cases h), fun _ h => absurd rfl h⟩
  · simp only [pure_ok] at h
    subst h
    split_ifs with htrans hparse hturns
    · exact ⟨hpaused _, fun h => (by cases h), fun _ h => absurd rfl h⟩
    · exact ⟨hpaused _, fun h => (by cases h), fun _ h => absurd rfl h⟩
    · exact ⟨hpaused _, fun h => (by cases h), fun _ h => absurd rfl h⟩
    · exact ⟨hsame, fun hd => absurd hd hnot, fun _ _ => .inr (by omega)⟩

theorem gateAfter_spec (result : GateResult) (target : GoalGate) : (gateAfter result target).spec = target.spec := by
  unfold gateAfter
  split_ifs <;> rfl

/-- The run of a gate is written to that gate; no gate changes its command. -/
theorem applyGate_ok {index : Nat} {gate : GoalGate} {result : GateResult} (h : applyGate index gate result state = .ok u) :
    SameTurns state u ∧ (u.status = state.status ∨ result.passed = false ∧ u.status = .paused) := by
  unfold applyGate at h
  split at h
  · cases h
  · next target htarget =>
    have hspecs : (state.gates.set index (gateAfter result target)).map GoalGate.spec = state.gates.map GoalGate.spec := by
      obtain ⟨hlt, rfl⟩ := List.getElem?_eq_some_iff.1 htarget
      rw [List.map_set, gateAfter_spec, ← List.getElem_map GoalGate.spec (h := by rwa [List.length_map]), List.set_getElem_self]
    by_cases hcmd : target.command ≠ gate.command
    · rw [if_pos hcmd] at h
      cases h
    · rw [if_neg hcmd] at h
      simp only [Except.ok.injEq] at h
      subst h
      split_ifs with hretry
      · exact ⟨⟨⟨rfl, rfl, hspecs⟩, rfl, rfl⟩, .inr ⟨by simpa using hretry.1, rfl⟩⟩
      · exact ⟨⟨⟨rfl, rfl, hspecs⟩, rfl, rfl⟩, .inl rfl⟩

end Changes

namespace Evaluation

/-- A compare-and-set on a record of the store finds that record, or it leaves the store. -/
theorem commit_cases {s : GoalStore} (hs : s.Ordered) (e : Evaluation) (now : Int) {base : GoalState}
    (hbase : base ∈ s.history) (mutation : GoalState → Except GoalError GoalState) (next : GoalState → Phase) (conflict : Phase) :
    (∃ p, (p = conflict ∨ ∃ err, p = .raised err) ∧ e.commit now s base mutation next conflict = e.goto s p) ∨
      ∃ u, s.get = some base ∧ mutation base = .ok u ∧ e.commit now s base mutation next conflict =
        (s.push (s.committed now u),
          { e with phase := next (s.committed now u)
                   commits := ⟨base, s.history, s.committed now u, e.passed⟩ :: e.commits }) := by
  unfold commit
  rcases hc : s.compareAndUpdate now base mutation with err | ⟨r, s'⟩
  · refine .inl ?_
    cases err with
    | conflict message => exact ⟨_, .inl rfl, rfl⟩
    | notFound | runtime | superseded | judgeParse | value | index => exact ⟨_, .inr ⟨_, rfl⟩, rfl⟩
  · obtain ⟨hget, u, hu, rfl, rfl⟩ := hs.compareAndUpdate hbase hc
    exact .inr ⟨u, hget, hu, rfl⟩

end Evaluation

end Flowly.Goals
