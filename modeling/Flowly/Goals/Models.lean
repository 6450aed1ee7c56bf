/-
  Flowly.Goals.Models — the record of a standing goal (`flowly/goals/models.py`).

  The record belongs to one conversation. Its wait barrier is one optional target: the
  source keeps three fields and refuses a record in which two of them are set.
-/

import Flowly.Lib.Text

namespace Flowly.Goals

open Flowly.Lib

inductive GoalStatus where
  | active
  | paused
  | done
  | cleared
  deriving DecidableEq

inductive GoalVerdict where
  | done
  | continues
  | needsInput
  | wait
  | inactive
  | skipped
  | gateFailed
  | waiting
  deriving DecidableEq

/-- What is raised. The first three are kinds of `RuntimeError`. -/
inductive GoalError where
  | conflict (message : String)
  | notFound (message : String)
  | runtime (message : String)
  | superseded
  | judgeParse (message : String)
  | value (message : String)
  | index (message : String)

def maxReasonChars : Nat := 2000
def maxGateOutputChars : Nat := 3000
def maxSubgoals : Nat := 50
def maxGates : Nat := 20

def cleanText (value : String) (limit : Nat) (fieldName : String) : Except GoalError String :=
  let text := Text.strip value.toList
  if limit < text.length then .error (.value (fieldName ++ " exceeds " ++ toString limit ++ " characters"))
  else .ok (String.ofList text)

/-- `_clean_text(value, limit=512, ...) or None`. -/
def cleanRunId (value : Option String) (fieldName : String) : Except GoalError (Option String) :=
  match cleanText (value.getD "") 512 fieldName with
  | .error e => .error e
  | .ok text => .ok (if text = "" then none else some text)

def cleanOptional (limit : Nat) (value : Option String) : Option String :=
  (value.map fun v => (Text.strip v.toList).take limit).bind fun t => if t = [] then none else some (String.ofList t)

def boundedInt (value : Int) (minimum maximum : Nat) : Nat := max minimum (min maximum value.toNat)

structure GoalContract where
  outcome : String := ""
  verification : String := ""
  constraints : String := ""
  boundaries : String := ""
  stopWhen : String := ""
  deriving DecidableEq

namespace GoalContract

def labels (c : GoalContract) : List (String × String) :=
  [("Outcome", c.outcome), ("Verification", c.verification), ("Constraints", c.constraints),
    ("Boundaries", c.boundaries), ("Stop when", c.stopWhen)]

def isEmpty (c : GoalContract) : Bool := c.labels.all fun l => l.2 = ""

def render (c : GoalContract) : String :=
  "\n".intercalate ((c.labels.filter fun l => l.2 ≠ "").map fun l => "- " ++ l.1 ++ ": " ++ l.2)

end GoalContract

structure GoalGate where
  command : String
  timeoutSeconds : Nat := 300
  maxRetries : Nat := 3
  attempts : Nat := 0
  lastExitCode : Option Int := none
  lastOutputTail : String := ""
  lastFailedFingerprint : String := ""
  deriving DecidableEq

namespace GoalGate

/-- `GoalGate(command, timeout_seconds, max_retries)`. -/
def make (command : String) (timeoutSeconds maxRetries : Int) : Except GoalError GoalGate := do
  let command ← cleanText command 4000 "gate.command"
  if command = "" then throw (.value "gate command is empty")
  return { command, timeoutSeconds := boundedInt timeoutSeconds 1 3600, maxRetries := boundedInt maxRetries 0 100 }

/-- What `__post_init__` makes of a gate that is read again. -/
def clone (g : GoalGate) : GoalGate :=
  { g with attempts := boundedInt g.attempts 0 1000000
           lastOutputTail := String.ofList (g.lastOutputTail.toList.drop (g.lastOutputTail.toList.length - maxGateOutputChars))
           lastFailedFingerprint := String.ofList (g.lastFailedFingerprint.toList.take 128) }

def spec (g : GoalGate) : String × Nat × Nat := (g.command, g.timeoutSeconds, g.maxRetries)

end GoalGate

/-- A `WaitKind` with its target. -/
inductive WaitTarget where
  | pid (pid : Int)
  | session (id : String)
  | time (at_ : Int)
  deriving DecidableEq

structure Wait where
  target : WaitTarget
  reason : Option String := none
  since : Int := 0
  deriving DecidableEq

structure GoalState where
  goal : String
  goalId : String
  status : GoalStatus := .active
  revision : Nat := 0
  conversationEpoch : Nat := 0
  turnsUsed : Nat := 0
  maxTurns : Nat := 20
  createdAt : Int := 0
  updatedAt : Int := 0
  lastTurnAt : Int := 0
  lastRunId : Option String := none
  lastFailedRunId : Option String := none
  createdByRunId : Option String := none
  lastVerdict : Option GoalVerdict := none
  lastReason : Option String := none
  pausedReason : Option String := none
  consecutiveParseFailures : Nat := 0
  consecutiveTransportFailures : Nat := 0
  consecutiveCompactionFailures : Nat := 0
  subgoals : List String := []
  wait : Option Wait := none
  contract : GoalContract := {}
  gates : List GoalGate := []
  deriving DecidableEq

namespace GoalState

def isActive (s : GoalState) : Bool := s.status = .active

def hasWait (s : GoalState) : Bool := s.wait.isSome

def clearWait (s : GoalState) : GoalState := { s with wait := none }

def setWait (s : GoalState) (now : Int) (target : WaitTarget) (reason : String) : Except GoalError GoalState :=
  let waits (target : WaitTarget) : GoalState :=
    { s with wait := some { target, reason := cleanOptional maxReasonChars (some reason), since := now } }
  match target with
  | .pid pid => if pid ≤ 0 then .error (.value "pid must be a positive integer") else .ok (waits (.pid pid))
  | .session id =>
    match cleanText id 1000 "wait session" with
    | .error e => .error e
    | .ok id => if id = "" then .error (.value "session id is required") else .ok (waits (.session id))
  | .time deadline =>
    if deadline ≤ now then .error (.value "wait deadline must be in the future") else .ok (waits (.time deadline))

/-- `from_dict(to_dict(state))`: a record as it is read again. Its revision is clamped at
    2^63 - 1, which no run of commits comes to. -/
def clone (s : GoalState) : GoalState :=
  { s with turnsUsed := boundedInt s.turnsUsed 0 1000000
           lastReason := cleanOptional maxReasonChars s.lastReason
           pausedReason := cleanOptional maxReasonChars s.pausedReason
           consecutiveParseFailures := boundedInt s.consecutiveParseFailures 0 1000000
           consecutiveTransportFailures := boundedInt s.consecutiveTransportFailures 0 1000000
           consecutiveCompactionFailures := boundedInt s.consecutiveCompactionFailures 0 1000000
           gates := s.gates.map GoalGate.clone }

def gateSpecs (s : GoalState) : List (String × Nat × Nat) := s.gates.map GoalGate.spec

@[simp] theorem clone_maxTurns (s : GoalState) : s.clone.maxTurns = s.maxTurns := rfl

theorem clone_turnsUsed (s : GoalState) : s.clone.turnsUsed = min 1000000 s.turnsUsed := by
  show boundedInt s.turnsUsed 0 1000000 = _
  unfold boundedInt
  omega

theorem clone_compaction (s : GoalState) :
    s.clone.consecutiveCompactionFailures = min 1000000 s.consecutiveCompactionFailures := by
  show boundedInt s.consecutiveCompactionFailures 0 1000000 = _
  unfold boundedInt
  omega

@[simp] theorem clone_gateSpecs (s : GoalState) : s.clone.gateSpecs = s.gateSpecs := by
  unfold gateSpecs clone
  rw [List.map_map]
  rfl

end GoalState

structure GoalDecision where
  status : Option GoalStatus
  verdict : GoalVerdict
  shouldContinue : Bool := false
  continuationPrompt : Option String := none
  reason : String := ""
  message : String := ""
  goalId : Option String := none
  revision : Option Nat := none

def decision (state : Option GoalState) (verdict : GoalVerdict) (reason : String) (message : String)
    (continuationPrompt : Option String) : GoalDecision where
  status := state.map (·.status)
  verdict := verdict
  shouldContinue := continuationPrompt.isSome
  continuationPrompt := continuationPrompt
  reason := reason
  message := message
  goalId := state.map (·.goalId)
  revision := state.map (·.revision)

end Flowly.Goals
