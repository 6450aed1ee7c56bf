/-
  Flowly.Plans.Models — plans, their steps and their approvals (`flowly/plans/models.py`),
  and what `PlanManager` makes of one plan (`flowly/plans/manager.py`).

  Every mutation ends in `touch`, which raises the revision.
-/

import Flowly.Lib.Text

namespace Flowly.Plans

open Flowly.Lib

inductive PlanStatus where
  | draft
  | awaitingApproval
  | approved
  | executing
  | paused
  | completed
  | blocked
  | rejected
  | aborted
  deriving DecidableEq

def PlanStatus.value : PlanStatus → String
  | .draft => "draft"
  | .awaitingApproval => "awaiting_approval"
  | .approved => "approved"
  | .executing => "executing"
  | .paused => "paused"
  | .completed => "completed"
  | .blocked => "blocked"
  | .rejected => "rejected"
  | .aborted => "aborted"

/-- `TERMINAL_STATUSES`. -/
def PlanStatus.terminal : PlanStatus → Bool
  | .completed | .blocked | .rejected | .aborted => true
  | _ => false

inductive StepStatus where
  | pending
  | inProgress
  | completed
  | blocked
  | skipped
  deriving DecidableEq

def StepStatus.value : StepStatus → String
  | .pending => "pending"
  | .inProgress => "in_progress"
  | .completed => "completed"
  | .blocked => "blocked"
  | .skipped => "skipped"

inductive PlanMode where
  | auto
  | forced
  deriving DecidableEq

inductive Decision where
  | approve
  | reject
  | revise
  | timeout
  deriving DecidableEq

inductive Via where
  | surface
  | policy
  | timeout
  | cron
  deriving DecidableEq

structure PlanDecision where
  decision : Decision
  feedback : Option String := none
  decisionId : Option String := none
  via : Via := .surface
  deriving DecidableEq

def PlanDecision.recorded (d : PlanDecision) : Option Decision := if d.decision = .timeout then none else some d.decision

structure Revision where
  revision : Nat
  timestamp : Int
  reason : String
  status : PlanStatus
  deriving DecidableEq

structure PlanStep where
  id : Int
  content : String
  activeForm : String := ""
  status : StepStatus := .pending
  note : Option String := none
  startedAt : Option Int := none
  completedAt : Option Int := none
  deriving DecidableEq

structure PlanApproval where
  id : Nat
  revision : Nat
  createdAt : Int
  expiresAt : Int
  decisionId : Option String := none
  resolved : Bool := false
  decision : Option Decision := none
  deriving DecidableEq

structure GeneralPlan where
  id : Nat
  sessionKey : String
  goal : String
  title : String
  steps : List PlanStep
  mode : PlanMode := .forced
  status : PlanStatus := .draft
  revision : Nat := 0
  runId : Option String := none
  detailsMd : Option String := none
  approval : Option PlanApproval := none
  completionSummary : Option String := none
  createdAt : Int := 0
  updatedAt : Int := 0
  revisions : List Revision := []
  deriving DecidableEq

def maxGoalChars : Nat := 2000
def maxNoteChars : Nat := 2000
def maxDetailsChars : Nat := 20000

def strip (s : String) : String := String.ofList (Text.strip s.toList)

def cap (text : String) (limit : Nat) : String :=
  let marker := "… [truncated]"
  if text.toList.length ≤ limit then text
  else String.ofList (text.toList.take (limit - marker.toList.length)) ++ marker

namespace GeneralPlan

def recordRevision (p : GeneralPlan) (reason : String) : GeneralPlan :=
  { p with revisions := p.revisions ++
      [{ revision := p.revision, timestamp := p.updatedAt, reason := if reason = "" then p.status.value else reason,
         status := p.status }] }

def touch (p : GeneralPlan) (reason : String) (now : Int) : GeneralPlan :=
  { p with revision := p.revision + 1, updatedAt := now }.recordRevision reason

def new (id : Nat) (sessionKey goal : String) (steps : List PlanStep) (title : String) (mode : PlanMode)
    (runId detailsMd : Option String) (now : Int) : GeneralPlan :=
  let title := if strip title = "" then strip goal else strip title
  { id, sessionKey, goal := strip goal, title := String.ofList (title.toList.take 200), steps, mode, runId, detailsMd,
    createdAt := now, updatedAt := now : GeneralPlan }.recordRevision "created"

def terminal (p : GeneralPlan) : Bool := p.status.terminal

def specs (p : GeneralPlan) : List (Int × String) := p.steps.map fun s => (s.id, s.content)

end GeneralPlan

def startPending (now : Int) : List PlanStep → List PlanStep
  | [] => []
  | s :: rest =>
    if s.status = .pending then { s with status := .inProgress, startedAt := some (s.startedAt.getD now) } :: rest
    else s :: startPending now rest

def startNextStep (p : GeneralPlan) (now : Int) : GeneralPlan :=
  if p.steps.any fun s => s.status = .inProgress then p else { p with steps := startPending now p.steps }

/-! ## The mutations of a plan -/

/-- `propose` on a plan that is under review. -/
def revisePlan (goal title : String) (steps : List PlanStep) (runId detailsMd : Option String) (now : Int) (p : GeneralPlan) :
    GeneralPlan :=
  { p with
    mode := .forced
    goal := if strip goal = "" then p.goal else strip goal
    title := if strip title = "" then p.title else String.ofList ((strip title).toList.take 200)
    detailsMd := detailsMd <|> p.detailsMd
    runId := (runId.filter (· ≠ "")) <|> p.runId
    steps := steps
    status := .awaitingApproval }.touch "revised" now

def PlanApproval.resolve (d : PlanDecision) (a : PlanApproval) : PlanApproval :=
  { a with resolved := true, decision := d.recorded, decisionId := d.decisionId }

def applyDecision (d : PlanDecision) (liveTurn : Bool) (now : Int) (p : GeneralPlan) : GeneralPlan :=
  let p := { p with approval := p.approval.map (PlanApproval.resolve d) }
  match d.decision with
  | .approve =>
    if liveTurn then (startNextStep { p with status := .executing } now).touch "approved" now
    else { p with status := .approved }.touch "approved" now
  | .reject => { p with status := .rejected }.touch "rejected" now
  | .revise => { p with status := .awaitingApproval }.touch "revise requested" now
  | .timeout => { p with status := .aborted }.touch "approval timed out — not approved" now

structure StepUpdate where
  id : Int
  status : Option StepStatus := none
  note : Option String := none

/-- `u.get("status") or "in_progress"`. -/
def StepUpdate.target (u : StepUpdate) : StepStatus := u.status.getD .inProgress

def applyUpdate (now : Int) (u : StepUpdate) (s : PlanStep) : PlanStep :=
  let status := u.target
  let settled := status = .completed ∨ status = .blocked ∨ status = .skipped
  { s with
    startedAt := if status = .inProgress ∨ settled then some (s.startedAt.getD now) else s.startedAt
    completedAt := if settled then some (s.completedAt.getD now) else s.completedAt
    status := status
    note := (u.note.map fun n => cap n maxNoteChars) <|> s.note }

def updateStep (now : Int) (u : StepUpdate) : List PlanStep → List PlanStep
  | [] => []
  | s :: rest => if s.id = u.id then applyUpdate now u s :: rest else s :: updateStep now u rest

def runUpdates (updates : List StepUpdate) (now : Int) (p : GeneralPlan) : GeneralPlan :=
  { p with steps := updates.foldl (fun steps u => updateStep now u steps) p.steps }

/-- A plan that is approved or paused executes from its first update on. -/
def executes (p : GeneralPlan) : GeneralPlan :=
  if p.status = .approved ∨ p.status = .paused then { p with status := .executing } else p

def finishedAny (updates : List StepUpdate) : Bool := updates.any fun u => u.target = .completed ∨ u.target = .skipped

def goesOn (updates : List StepUpdate) (now : Int) (p : GeneralPlan) : GeneralPlan :=
  if finishedAny updates then startNextStep p now else p

def updateLabel (updates : List StepUpdate) : String :=
  ", ".intercalate (updates.map fun u => "step " ++ toString u.id ++ " → " ++ u.target.value)

def allDone (p : GeneralPlan) : Bool :=
  p.status = .executing ∧ p.steps ≠ [] ∧ p.steps.all fun s => s.status = .completed ∨ s.status = .skipped

def updateSteps (updates : List StepUpdate) (now : Int) (p : GeneralPlan) : GeneralPlan :=
  let p := goesOn updates now (executes (runUpdates updates now p))
  if allDone p then { p with status := .completed }.touch (updateLabel updates ++ "; all steps done") now
  else p.touch (updateLabel updates) now

/-- `complete` and `mark_blocked`. -/
def closePlan (status : PlanStatus) (reason summary : String) (now : Int) (p : GeneralPlan) : GeneralPlan :=
  let summary := cap (strip summary) maxNoteChars
  let p : GeneralPlan := { p with completionSummary := (if summary = "" then none else some summary), status }
  p.touch reason now

def abortPlan (reason : String) (now : Int) (p : GeneralPlan) : GeneralPlan := { p with status := .aborted }.touch reason now

/-- `resume` of a plan that is paused or approved. -/
def resumePlan (now : Int) (p : GeneralPlan) : GeneralPlan :=
  (startNextStep { p with status := .executing } now).touch "resumed" now

def pausePlan (now : Int) (p : GeneralPlan) : GeneralPlan := { p with status := .paused }.touch "paused: bot restarted" now

end Flowly.Plans
