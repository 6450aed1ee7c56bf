/-
  Flowly.Cron.Stored — a cron job with all its fields, and its entry in jobs.json
  (`flowly/cron/types.py`; `flowly/cron/service.py`: `_legacy_lifecycle`, `_save_store`,
  `_load_store`).

  An entry may come from an older version, so most of its keys may be missing. Reading
  derives the lifecycle, `enabled` and the due time of a one-shot that never ran.

  Proved: what an entry is read as (`read_toRecord`), and that a job is read back as it was
  saved if and only if it is enabled as its lifecycle says, a one-shot that waits without a
  due time has no time at all, and no text of its origin is empty (`read_toRecord_iff`).
-/

import Flowly.Cron.Job
import Flowly.Flowlets.Json

namespace Flowly.Cron

open Flowly.Lib
open Flowly.Flowlets (Json)

/-! ## Jobs -/

structure CronOrigin where
  platform : Option String := none
  chatId : Option String := none
  chatName : Option String := none
  threadId : Option String := none

inductive PayloadKind where
  | systemEvent
  | agentTurn
  | toolCall

structure CronPayload where
  kind : PayloadKind := .agentTurn
  message : String := ""
  deliver : Bool := false
  channel : Option String := none
  to_ : Option String := none
  toolName : Option String := none
  toolArgs : Option Json := none

structure Job extends CronJob where
  payload : CronPayload := {}
  /-- `state.last_output_error`. -/
  lastOutputError : Option Text := none
  createdAtMs : Int := 0
  source : Option String := none
  sourceId : Option String := none
  deleteAfterRun : Bool := false
  origin : Option CronOrigin := none
  script : Option String := none
  skills : List String := []
  model : Option String := none
  provider : Option String := none

/-! ## jobs.json -/

structure OriginRecord where
  platform : Option String := none
  chatId : Option String := none
  chat_id : Option String := none
  chatName : Option String := none
  chat_name : Option String := none
  threadId : Option String := none
  thread_id : Option String := none

structure PayloadRecord where
  kind : Option PayloadKind := none
  message : Option String := none
  deliver : Option Bool := none
  channel : Option String := none
  to_ : Option String := none
  toolName : Option String := none
  toolArgs : Option Json := none

structure StateRecord where
  nextRunAtMs : Option Int := none
  lastRunAtMs : Option Int := none
  lastStatus : Option Status := none
  lastError : Option Text := none
  lastDeliveryError : Option Text := none
  lastOutputError : Option Text := none
  consecutiveFailures : Option Nat := none
  lastAlertAtMs : Option Int := none
  retryAttempt : Option Nat := none
  lastRunId : Option RunId := none

structure JobRecord where
  id : String
  name : String
  enabled : Option Bool := none
  schedule : CronSchedule
  payload : PayloadRecord
  state : StateRecord := {}
  createdAtMs : Option Int := none
  updatedAtMs : Option Int := none
  lifecycle : Option Lifecycle := none
  completedAtMs : Option Int := none
  archivedAtMs : Option Int := none
  source : Option String := none
  sourceId : Option String := none
  deleteAfterRun : Option Bool := none
  origin : Option OriginRecord := none
  repeatTimes : Option Nat := none
  repeatCompleted : Option Nat := none
  script : Option String := none
  skills : Option (List String) := none
  model : Option String := none
  provider : Option String := none
  retryMaxAttempts : Option Nat := none
  retryBackoffMs : Option (List Int) := none
  failureAlertAfter : Option Nat := none
  failureAlertCooldownMs : Option Int := none

def CronOrigin.toRecord (o : CronOrigin) : OriginRecord where
  platform := o.platform
  chatId := o.chatId
  chatName := o.chatName
  threadId := o.threadId

def CronPayload.toRecord (p : CronPayload) : PayloadRecord where
  kind := some p.kind
  message := some p.message
  deliver := some p.deliver
  channel := p.channel
  to_ := p.to_
  toolName := p.toolName
  toolArgs := p.toolArgs

/-- A job's entry as `_save_store` writes it. -/
def Job.toRecord (j : Job) : JobRecord where
  id := j.id
  name := j.name
  enabled := some j.enabled
  schedule := j.schedule
  payload := j.payload.toRecord
  state :=
    { nextRunAtMs := j.state.nextRunAtMs, lastRunAtMs := j.state.lastRunAtMs, lastStatus := j.state.lastStatus
      lastError := j.state.lastError, lastDeliveryError := j.state.lastDeliveryError, lastOutputError := j.lastOutputError
      consecutiveFailures := some j.state.consecutiveFailures, lastAlertAtMs := j.state.lastAlertAtMs
      retryAttempt := some j.state.retryAttempt, lastRunId := j.state.lastRunId }
  createdAtMs := some j.createdAtMs
  updatedAtMs := some j.updatedAtMs
  lifecycle := some j.lifecycle
  completedAtMs := j.completedAtMs
  archivedAtMs := j.archivedAtMs
  source := j.source
  sourceId := j.sourceId
  deleteAfterRun := some j.deleteAfterRun
  origin := j.origin.map CronOrigin.toRecord
  repeatTimes := j.repeatTimes
  repeatCompleted := some j.repeatCompleted
  script := j.script
  skills := some j.skills
  model := j.model
  provider := j.provider
  retryMaxAttempts := some j.retryMaxAttempts
  retryBackoffMs := some j.retryBackoffMs
  failureAlertAfter := some j.failureAlertAfter
  failureAlertCooldownMs := some j.failureAlertCooldownMs

def JobRecord.legacyLifecycle (r : JobRecord) : Lifecycle :=
  match r.lifecycle with
  | some explicit => explicit
  | none =>
    if r.repeatTimes.any (· ≤ r.repeatCompleted.getD 0) then .completed
    else if r.schedule.kind = .at_ ∧ r.state.lastRunAtMs.isSome then .completed
    else if r.enabled = some false then .paused
    else .scheduled

/-- `a or b`. -/
def orText (a b : Option String) : Option String := (a.filter (· ≠ "")).or b

def OriginRecord.read (o : OriginRecord) : CronOrigin where
  platform := o.platform
  chatId := orText o.chatId o.chat_id
  chatName := orText o.chatName o.chat_name
  threadId := orText o.threadId o.thread_id

def PayloadRecord.read (p : PayloadRecord) : CronPayload where
  kind := p.kind.getD .agentTurn
  message := p.message.getD ""
  deliver := p.deliver.getD false
  channel := p.channel
  to_ := p.to_
  toolName := p.toolName
  toolArgs := p.toolArgs

/-- An entry as `_load_store` reads it. -/
def JobRecord.read (r : JobRecord) : Job :=
  let lifecycle := r.legacyLifecycle
  -- a one-shot that was overdue when the process ended stays due at its time
  let overdue := lifecycle = .scheduled ∧ r.schedule.kind = .at_ ∧ r.state.lastRunAtMs = none ∧ r.state.nextRunAtMs = none
  { id := r.id
    name := r.name
    enabled := lifecycle = .scheduled
    schedule := r.schedule
    payload := r.payload.read
    state :=
      { nextRunAtMs := if overdue then r.schedule.atMs else r.state.nextRunAtMs, lastRunAtMs := r.state.lastRunAtMs
        lastStatus := r.state.lastStatus, lastError := r.state.lastError, lastDeliveryError := r.state.lastDeliveryError
        consecutiveFailures := r.state.consecutiveFailures.getD 0, lastAlertAtMs := r.state.lastAlertAtMs
        retryAttempt := r.state.retryAttempt.getD 0, lastRunId := r.state.lastRunId }
    lastOutputError := r.state.lastOutputError
    createdAtMs := r.createdAtMs.getD 0
    updatedAtMs := r.updatedAtMs.getD 0
    lifecycle
    completedAtMs := r.completedAtMs
    archivedAtMs := r.archivedAtMs
    source := r.source
    sourceId := r.sourceId
    deleteAfterRun := r.deleteAfterRun.getD false
    origin := r.origin.map OriginRecord.read
    repeatTimes := r.repeatTimes
    repeatCompleted := r.repeatCompleted.getD 0
    script := r.script
    skills := r.skills.getD []
    model := r.model
    provider := r.provider
    retryMaxAttempts := r.retryMaxAttempts.getD 0
    retryBackoffMs := r.retryBackoffMs.getD []
    failureAlertAfter := r.failureAlertAfter.getD 3
    failureAlertCooldownMs := r.failureAlertCooldownMs.getD (24 * 60 * 60 * 1000) }

/-! ## What is read back -/

def CronOrigin.reread (o : CronOrigin) : CronOrigin where
  platform := o.platform
  chatId := o.chatId.filter (· ≠ "")
  chatName := o.chatName.filter (· ≠ "")
  threadId := o.threadId.filter (· ≠ "")

theorem orText_none (a : Option String) : orText a none = a.filter (· ≠ "") := by
  unfold orText
  rw [Option.or_none]

/-- Reading an entry of this version: the schedule as the other modules read it, and the
    origin without its empty texts. -/
theorem read_toRecord (j : Job) :
    j.toRecord.read = { j with toCronJob := j.toCronJob.read, origin := j.origin.map CronOrigin.reread } := by
  have horigin : (j.origin.map CronOrigin.toRecord).map OriginRecord.read = j.origin.map CronOrigin.reread := by
    rw [Option.map_map]
    refine congrArg (fun f => j.origin.map f) ?_
    funext o
    unfold CronOrigin.reread
    rw [← orText_none, ← orText_none, ← orText_none]
    rfl
  unfold JobRecord.read
  rw [show j.toRecord.origin = j.origin.map CronOrigin.toRecord from rfl, horigin]
  rfl

def CronOrigin.Filled (o : CronOrigin) : Prop := o.chatId ≠ some "" ∧ o.chatName ≠ some "" ∧ o.threadId ≠ some ""

theorem filter_eq_self_iff {a : Option String} : a.filter (· ≠ "") = a ↔ a ≠ some "" := by
  cases a with
  | none => simp
  | some s => by_cases hs : s = "" <;> simp [hs]

theorem CronOrigin.reread_iff {o : CronOrigin} : o.reread = o ↔ o.Filled := by
  unfold reread Filled
  rw [CronOrigin.mk.injEq]
  simp only [true_and, filter_eq_self_iff]

/-- A one-shot that never ran and waits without a due time has no time either. -/
def CronJob.Dated (j : CronJob) : Prop :=
  j.lifecycle = .scheduled → j.schedule.kind = .at_ → j.state.lastRunAtMs = none → j.state.nextRunAtMs = none →
    j.schedule.atMs = none

/-- The schedule is read back as it was saved. -/
structure CronJob.Kept (j : CronJob) : Prop where
  enabled : j.enabled = true ↔ j.lifecycle = .scheduled
  dated : j.Dated

structure Job.Kept (j : Job) : Prop where
  core : j.toCronJob.Kept
  filled : ∀ o ∈ j.origin, o.Filled

theorem CronJob.read_iff {j : CronJob} : j.read = j ↔ j.Kept := by
  unfold CronJob.read
  constructor
  · intro h
    have henabled := congrArg CronJob.enabled h
    have hnext := congrArg (fun j : CronJob => j.state.nextRunAtMs) h
    refine ⟨by rw [← henabled]; exact decide_eq_true_iff, fun hsched hat hlast hnone => ?_⟩
    dsimp only at hnext
    rw [if_pos ⟨hsched, hat, hlast, hnone⟩] at hnext
    exact hnext.trans hnone
  · rintro ⟨henabled, hdated⟩
    have hnext : (if j.lifecycle = .scheduled ∧ j.schedule.kind = .at_ ∧ j.state.lastRunAtMs = none ∧ j.state.nextRunAtMs = none
        then j.schedule.atMs else j.state.nextRunAtMs) = j.state.nextRunAtMs := by
      split
      · rename_i hover
        obtain ⟨hsched, hat, hlast, hnone⟩ := hover
        rw [hdated hsched hat hlast hnone, hnone]
      · rfl
    have hon : decide (j.lifecycle = .scheduled) = j.enabled := by
      rw [Bool.eq_iff_iff, decide_eq_true_iff, henabled]
    dsimp only
    rw [hnext, hon]

theorem read_toRecord_iff (j : Job) : j.toRecord.read = j ↔ j.Kept := by
  rw [read_toRecord]
  have horigin : j.origin.map CronOrigin.reread = j.origin ↔ ∀ o ∈ j.origin, o.Filled := by
    cases j.origin with
    | none => simp
    | some o => simp [CronOrigin.reread_iff]
  constructor
  · intro h
    exact ⟨CronJob.read_iff.1 (congrArg Job.toCronJob h), horigin.1 (congrArg Job.origin h)⟩
  · intro h
    rw [CronJob.read_iff.2 h.core, horigin.2 h.filled]

end Flowly.Cron
