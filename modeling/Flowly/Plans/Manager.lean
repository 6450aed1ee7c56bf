/-
  Flowly.Plans.Manager — the plan manager (`flowly/plans/manager.py`, `approval.py` and the
  reads of `store.py`).

  Actors. A turn that proposes goes step by step: it saves, waits for the broadcast, waits
  for the decision inside a timeout, and applies what no surface applies (a timeout, the
  rejection of a cron run). A surface that resolves records its decision and waits for the
  broadcast before it wakes the turn. Every other operation is one mutation and one save.
  The plans of the store are objects that everybody edits in place, and every edit is
  saved in the step that makes it.
-/

import Flowly.Lib.TimedWait
import Flowly.Plans.Models

namespace Flowly.Plans

open Flowly.Lib

def defaultApprovalTimeoutS : Int := 600

/-- The arguments of `propose`; `cron` is what `_in_cron_context` says in its task. -/
structure Proposal where
  sessionKey : String
  goal : String
  steps : List PlanStep
  title : String := ""
  mode : PlanMode := .forced
  runId : Option String := none
  detailsMd : Option String := none
  timeoutS : Int := defaultApprovalTimeoutS
  cron : Bool := false

inductive Stage where
  /-- The plan it supersedes is aborted; the broadcast of that is awaited. -/
  | superseding
  /-- The plan runs already; its broadcast is awaited. -/
  | started
  /-- The approval is saved; its broadcast is awaited. -/
  | announced
  /-- The future is registered; the notify callbacks are awaited. -/
  | notifying
  | waiting
  /-- The decision that no surface applied is saved; its broadcast is awaited. -/
  | applying (decision : PlanDecision)
  | returned (decision : PlanDecision)
  | cancelled
  deriving DecidableEq

structure Turn where
  args : Proposal
  autoStart : Bool
  plan : Nat := 0
  approval : Option Nat := none
  wait : TimedWait PlanDecision := {}
  /-- Its future is in `_futures`. -/
  registered : Bool := false
  stage : Stage

/-- A surface that has recorded its decision and waits for the broadcast; the future was
    live when it looked. -/
structure Resolver where
  approval : Nat
  decision : PlanDecision

structure PlanManager where
  /-- The plans of the store, in the order of its dict. -/
  plans : List GeneralPlan := []
  sticky : List String := []
  forcedPending : List String := []
  turns : List Turn := []
  resolvers : List Resolver := []
  /-- No plan and no approval has this id, or a greater one. -/
  nextPlan : Nat := 0
  nextApproval : Nat := 0
  /-- Ghost: every plan as it was saved, the newest first. -/
  saved : List GeneralPlan := []
  /-- Ghost: the approvals, each with its plan and the steps it is for. -/
  created : List (Nat × Nat × List (Int × String)) := []
  /-- Ghost: the decisions that were recorded, each with the approval it was recorded on. -/
  decided : List (Nat × Option Decision) := []

def newestPlan : List GeneralPlan → Option GeneralPlan
  | [] => none
  | p :: rest =>
    match newestPlan rest with
    | none => some p
    | some q => if p.updatedAt < q.updatedAt then some q else some p

inductive ResolveReason where
  | resolved
  | alreadyResolved
  | revisionConflict
  | notFound
  | idempotentReplay
  | invalidDecision

structure ResolveResult where
  ok : Bool
  reason : ResolveReason

/-- The arguments of `resolve_approval`. -/
structure Resolve where
  planId : Nat
  decision : String
  feedback : Option String := none
  expectedRevision : Option Nat := none
  decisionId : Option String := none

def Decision.ofSurface : String → Option Decision
  | "approve" => some .approve
  | "reject" => some .reject
  | "revise" => some .revise
  | _ => none

/-- The checks of `resolve_approval`: the answer that decides nothing, or what is decided. -/
def Resolve.check (r : Resolve) (plan : Option GeneralPlan) : Except ResolveResult (GeneralPlan × PlanApproval × PlanDecision) :=
  match plan with
  | none => .error ⟨false, .notFound⟩
  | some p =>
    match p.approval with
    | none => .error ⟨false, .notFound⟩
    | some a =>
      if a.resolved then
        if r.decisionId.any (· ≠ "") ∧ a.decisionId = r.decisionId then .error ⟨true, .idempotentReplay⟩
        else .error ⟨false, .alreadyResolved⟩
      else if r.expectedRevision.any (a.revision ≠ ·) then .error ⟨false, .revisionConflict⟩
      else
        match Decision.ofSurface r.decision with
        | none => .error ⟨false, .invalidDecision⟩
        | some d => .ok (p, a, { decision := d, feedback := r.feedback, decisionId := r.decisionId })

namespace PlanManager

/-! ## The store -/

def get (m : PlanManager) (id : Nat) : Option GeneralPlan := m.plans.find? (·.id = id)

def currentForSession (m : PlanManager) (sessionKey : String) : Option GeneralPlan :=
  newestPlan (m.plans.filter fun p => p.sessionKey = sessionKey ∧ p.terminal = false)

def save (m : PlanManager) (p : GeneralPlan) : PlanManager :=
  { m with
    plans := if m.plans.any (·.id = p.id) then m.plans.map fun q => if q.id = p.id then p else q else m.plans ++ [p]
    saved := p :: m.saved }

def change (m : PlanManager) (id : Nat) (f : GeneralPlan → GeneralPlan) : PlanManager :=
  match m.get id with
  | none => m
  | some p => m.save (f p)

/-! ## The modes of a session -/

def armForced (m : PlanManager) (sessionKey : String) : PlanManager :=
  { m with forcedPending := sessionKey :: m.forcedPending }

def disarmForced (m : PlanManager) (sessionKey : String) : PlanManager :=
  { m with forcedPending := m.forcedPending.filter (· ≠ sessionKey) }

def setSticky (m : PlanManager) (sessionKey : String) (on : Bool) : PlanManager :=
  if on then { m with sticky := sessionKey :: m.sticky }
  else { m with sticky := m.sticky.filter (· ≠ sessionKey) }.disarmForced sessionKey

/-! ## The proposing turn -/

def setTurn (m : PlanManager) (i : Nat) (t : Turn) : PlanManager := { m with turns := m.turns.set i t }

def leavePlanMode (m : PlanManager) (d : PlanDecision) (sessionKey : String) : PlanManager :=
  if d.decision = .approve then m.setSticky sessionKey false else m

def applyDecision (m : PlanManager) (p : GeneralPlan) (d : PlanDecision) (liveTurn : Bool) (now : Int) : PlanManager :=
  let m := m.leavePlanMode d p.sessionKey
  { m.save (Plans.applyDecision d liveTurn now p) with
    decided := (p.approval.map fun a => (a.id, d.recorded)).toList ++ m.decided }

/-- A new approval is asked for. -/
def request (m : PlanManager) (i : Nat) (t : Turn) (p : GeneralPlan) (now : Int) : PlanManager :=
  let a : PlanApproval := { id := m.nextApproval, revision := p.revision, createdAt := now, expiresAt := now + t.args.timeoutS }
  let m := { m with nextApproval := m.nextApproval + 1, created := (a.id, p.id, p.specs) :: m.created }
  (m.save { p with approval := some a }).setTurn i { t with plan := p.id, approval := some a.id, stage := .announced }

def newPlan (m : PlanManager) (t : Turn) (now : Int) : GeneralPlan :=
  let p := GeneralPlan.new m.nextPlan t.args.sessionKey t.args.goal t.args.steps t.args.title
    (if t.autoStart then .auto else .forced) t.args.runId t.args.detailsMd now
  { p with status := if t.autoStart then .executing else .awaitingApproval }.touch
    (if t.autoStart then "auto-started by YOLO policy" else "proposed") now

/-- `propose` from `GeneralPlan.new` on. -/
def create (m : PlanManager) (i : Nat) (t : Turn) (now : Int) : PlanManager :=
  let p := m.newPlan t now
  let m := { m with nextPlan := m.nextPlan + 1 }
  if t.autoStart then (m.save (startNextStep p now)).setTurn i { t with plan := p.id, stage := .started }
  else m.request i t p now

def underReview (p : GeneralPlan) : Bool := p.status = .awaitingApproval ∨ p.status = .draft

/-- The arguments as `propose` bounds them. -/
def capped (args : Proposal) : Proposal :=
  { args with goal := cap (strip args.goal) maxGoalChars, detailsMd := args.detailsMd.map fun d => cap d maxDetailsChars }

/-- `auto_start`. -/
def autoStarts (m : PlanManager) (args : Proposal) : Bool :=
  args.mode = .auto ∧ args.sessionKey ∉ m.forcedPending ∧ args.sessionKey ∉ m.sticky ∧ args.cron = false ∧
    (m.currentForSession args.sessionKey).any underReview = false

def newTurn (m : PlanManager) (args : Proposal) : Turn :=
  { args := capped args, autoStart := m.autoStarts args, stage := .superseding }

def enter (m : PlanManager) (t : Turn) : PlanManager := { m with turns := m.turns ++ [t] }

def propose (m : PlanManager) (args : Proposal) (now : Int) : PlanManager :=
  let t := m.newTurn args
  match m.currentForSession args.sessionKey with
  | none => (m.enter t).create m.turns.length t now
  | some p =>
    if underReview p then
      (m.enter t).request m.turns.length t
        (revisePlan t.args.goal t.args.title t.args.steps t.args.runId t.args.detailsMd now p) now
    else (m.enter t).save (abortPlan "superseded by a new plan" now p)

def applyOwn (m : PlanManager) (i : Nat) (t : Turn) (d : PlanDecision) (now : Int) : PlanManager :=
  match m.get t.plan with
  | none => m
  | some p => (m.applyDecision p d true now).setTurn i { t with stage := .applying d }

def proceed (m : PlanManager) (i : Nat) (now : Int) : PlanManager :=
  match m.turns[i]? with
  | none => m
  | some t =>
    match t.stage with
    | .superseding => m.create i t now
    | .started => m.setTurn i { t with stage := .returned { decision := .approve, via := .policy } }
    | .announced =>
      if t.args.cron then m.applyOwn i t { decision := .reject, via := .cron } now
      else m.setTurn i { t with registered := true, stage := .notifying }
    | .notifying => m.setTurn i { t with stage := .waiting }
    | .waiting =>
      match t.wait.result with
      | none => m
      | some (.returned d) => m.setTurn i { t with registered := false, stage := .returned d }
      | some .timedOut => m.applyOwn i { t with registered := false } { decision := .timeout, via := .timeout } now
      | some .cancelled => m.setTurn i { t with registered := false, stage := .cancelled }
    | .applying d => m.setTurn i { t with stage := .returned d }
    | .returned _ | .cancelled => m

def fire (m : PlanManager) (i : Nat) : PlanManager :=
  match m.turns[i]? with
  | none => m
  | some t => if t.stage = .waiting ∧ t.wait.expiring = false then m.setTurn i { t with wait := t.wait.fire } else m

/-- The task of the turn is cancelled. While the callbacks are awaited nobody takes its
    future out of `_futures`. -/
def abandon (m : PlanManager) (i : Nat) : PlanManager :=
  match m.turns[i]? with
  | none => m
  | some t =>
    match t.stage with
    | .waiting => m.setTurn i { t with wait := t.wait.cancel }
    | .returned _ => m
    | _ => m.setTurn i { t with stage := .cancelled }

/-! ## The surfaces -/

def hasLiveFuture (m : PlanManager) (approval : Nat) : Bool :=
  m.turns.any fun t => t.approval = some approval ∧ t.registered ∧ t.wait.future = .pending

def resolveFuture (m : PlanManager) (approval : Nat) (d : PlanDecision) : PlanManager :=
  { m with turns := m.turns.map fun t =>
      if t.approval = some approval ∧ t.registered ∧ t.wait.future = .pending then { t with wait := t.wait.setResult d } else t }

def resolveApproval (m : PlanManager) (r : Resolve) (now : Int) : ResolveResult × PlanManager :=
  match r.check (m.get r.planId) with
  | .error refused => (refused, m)
  | .ok (p, a, d) =>
    let live := m.hasLiveFuture a.id
    let m := m.applyDecision p d live now
    (⟨true, .resolved⟩, if live then { m with resolvers := m.resolvers ++ [{ approval := a.id, decision := d }] } else m)

def finish (m : PlanManager) (k : Nat) : PlanManager :=
  match m.resolvers[k]? with
  | none => m
  | some r => { m with resolvers := m.resolvers.eraseIdx k }.resolveFuture r.approval r.decision

/-! ## The other mutations -/

def unknownStep (updates : List StepUpdate) (p : GeneralPlan) : Bool :=
  updates.any fun u => p.steps.all fun s => s.id ≠ u.id

def updateSteps (m : PlanManager) (id : Nat) (updates : List StepUpdate) (now : Int) : PlanManager :=
  match m.get id with
  | none => m
  | some p => if unknownStep updates p then m else m.save (Plans.updateSteps updates now p)

def complete (m : PlanManager) (id : Nat) (summary : String) (now : Int) : PlanManager :=
  m.change id (closePlan .completed "completed" summary now)

def markBlocked (m : PlanManager) (id : Nat) (reason : String) (now : Int) : PlanManager :=
  m.change id (closePlan .blocked "blocked" reason now)

def cancel (m : PlanManager) (id : Nat) (now : Int) : PlanManager := m.change id (abortPlan "cancelled" now)

def abortActiveForSession (m : PlanManager) (sessionKey reason : String) (now : Int) : PlanManager :=
  match m.currentForSession sessionKey with
  | none => m
  | some p => m.save (abortPlan ("aborted: " ++ reason) now p)

def resume (m : PlanManager) (id : Nat) (now : Int) : PlanManager :=
  match m.get id with
  | none => m
  | some p => if p.status = .paused ∨ p.status = .approved then m.save (resumePlan now p) else m

/-- One round of the loop of `recover_on_start`. -/
def recoverPlan (now : Int) (m : PlanManager) (p : GeneralPlan) : PlanManager :=
  if p.status = .executing then m.save (pausePlan now p) else m

def recoverOnStart (m : PlanManager) (now : Int) : PlanManager := m.plans.foldl (recoverPlan now) m

/-- The process is gone; the store reads its directory in the order the disk gives. -/
def restart (m : PlanManager) (plans : List GeneralPlan) : PlanManager :=
  { m with plans, forcedPending := [], turns := [], resolvers := [] }

/-! ## Runs -/

inductive Event where
  | propose (args : Proposal)
  | proceed (turn : Nat)
  | fire (turn : Nat)
  | abandon (turn : Nat)
  | resolveApproval (r : Resolve)
  | finish (resolver : Nat)
  /-- The task of a resolver is cancelled in its broadcast. -/
  | dropResolver (resolver : Nat)
  | updateSteps (id : Nat) (updates : List StepUpdate)
  | complete (id : Nat) (summary : String)
  | markBlocked (id : Nat) (reason : String)
  | cancel (id : Nat)
  | abortActiveForSession (sessionKey reason : String)
  | resume (id : Nat)
  | recoverOnStart
  | restart (plans : List GeneralPlan)
  | armForced (sessionKey : String)
  | disarmForced (sessionKey : String)
  | setSticky (sessionKey : String) (on : Bool)

def perform (m : PlanManager) (now : Int) : Event → PlanManager
  | .propose args => m.propose args now
  | .proceed i => m.proceed i now
  | .fire i => m.fire i
  | .abandon i => m.abandon i
  | .resolveApproval r => (m.resolveApproval r now).2
  | .finish k => m.finish k
  | .dropResolver k => { m with resolvers := m.resolvers.eraseIdx k }
  | .updateSteps id updates => m.updateSteps id updates now
  | .complete id summary => m.complete id summary now
  | .markBlocked id reason => m.markBlocked id reason now
  | .cancel id => m.cancel id now
  | .abortActiveForSession sessionKey reason => m.abortActiveForSession sessionKey reason now
  | .resume id => m.resume id now
  | .recoverOnStart => m.recoverOnStart now
  | .restart plans => m.restart plans
  | .armForced sessionKey => m.armForced sessionKey
  | .disarmForced sessionKey => m.disarmForced sessionKey
  | .setSticky sessionKey on => m.setSticky sessionKey on

/-- One step, and the time of it. -/
def next (m : PlanManager) (e : Int × Event) : PlanManager := m.perform e.1 e.2

/-- A restart reads the plans that are there. -/
def fits (m : PlanManager) (e : Int × Event) : Prop :=
  match e.2 with
  | .restart plans => plans.Perm m.plans
  | _ => True

instance (m : PlanManager) (e : Int × Event) : Decidable (m.fits e) := by
  unfold fits
  split <;> infer_instance

end PlanManager

end Flowly.Plans
