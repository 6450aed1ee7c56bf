/-
  Flowly.Cron.Job — a cron job, and what each operation of the service makes of one
  (`flowly/cron/types.py`; `flowly/cron/service.py`: `_compute_next_run`,
  `_next_cron_datetime`, `_compute_grace_ms`, `_recompute_next_runs`, `enable_job`,
  `update_job`, `_run_job_body`, `_persist_cancelled_run`, `_maybe_send_failure_alert`,
  `_recover_orphan_archives`).

  Times are milliseconds. What the code takes from outside (zones, croniter, how a local
  time prints) is the `Host`.
-/

import Flowly.Lib.Text

namespace Flowly.Cron

open Flowly.Lib

/-! ## Schedules -/

inductive Kind where
  | at_
  | every
  | cron
  deriving DecidableEq

structure CronSchedule where
  kind : Kind
  atMs : Option Int := none
  everyMs : Option Int := none
  expr : Option String := none
  tz : Option String := none
  deriving DecidableEq

/-- The identity of a run: a `uuid4`, or the digest made up for a transcript without metadata. -/
inductive RunId where
  | uuid (n : Nat)
  | legacy (jobId : String) (startedAtMs : Int) (n : Nat)
  deriving DecidableEq

structure Host where
  /-- `schedule_timezone` does not raise. -/
  zone : Option String → Bool
  /-- The message `croniter(expr)` raises with, if it does. -/
  croniterError : String → Option String
  /-- The `k`-th `cron.get_next` from a time on, as an instant; none for a wall time the zone skips. -/
  getNext : String → Option String → Int → Nat → Option Int
  /-- A run's start as the `Run Time` line of its transcript reads back. -/
  runTime : Int → Int
  /-- The line has no fold: an hour that comes twice is read as its first. -/
  runTime_le : ∀ t, runTime t ≤ t
  /-- The id as the records are sorted by it. -/
  idText : RunId → String

def truthy (n : Option Int) : Option Int := n.filter (· ≠ 0)

/-- The loop of `_next_cron_datetime`, from the `k`-th try on. -/
def firstAfter (instants : Nat → Option Int) (after : Int) : Nat → Nat → Option Int
  | 0, _ => none
  | tries + 1, k =>
    match (instants k).filter (after < ·) with
    | some n => some n
    | none => firstAfter instants after tries (k + 1)

def nextCronDatetime (host : Host) (expr : String) (tz : Option String) (after : Int) : Option Int :=
  if host.zone tz then firstAfter (host.getNext expr tz after) after 100000 0 else none

def computeNextRun (host : Host) (s : CronSchedule) (now : Int) : Option Int :=
  match s.kind with
  | .at_ => (truthy s.atMs).filter (now < ·)
  | .every => (s.everyMs.filter (0 < ·)).map (now + ·)
  | .cron => (s.expr.filter (· ≠ "")).bind fun expr => nextCronDatetime host expr s.tz now

def GRACE_MIN_MS : Int := 120 * 1000

def GRACE_MAX_MS : Int := 7200 * 1000

def clampGrace (grace : Int) : Int := max GRACE_MIN_MS (min grace GRACE_MAX_MS)

def computeGraceMs (host : Host) (s : CronSchedule) (now : Int) : Int :=
  match s.kind with
  | .at_ => GRACE_MIN_MS
  | .every => ((truthy s.everyMs).map fun every => clampGrace (every / 2)).getD GRACE_MIN_MS
  | .cron =>
    ((s.expr.filter (· ≠ "")).bind fun expr => do
      let first ← nextCronDatetime host expr s.tz now
      let second ← nextCronDatetime host expr s.tz first
      pure (clampGrace ((second - first) / 2))).getD GRACE_MIN_MS

theorem firstAfter_gt {instants : Nat → Option Int} {after : Int} :
    ∀ {tries k n}, firstAfter instants after tries k = some n → after < n := by
  intro tries
  induction tries with
  | zero => intro k n h; cases h
  | succ tries ih =>
    intro k n h
    unfold firstAfter at h
    split at h
    · next m hm =>
      cases h
      simpa using (Option.filter_eq_some_iff.mp hm).2
    · exact ih h

theorem nextCronDatetime_gt {host : Host} {expr : String} {tz : Option String} {after n : Int}
    (h : nextCronDatetime host expr tz after = some n) : after < n := by
  unfold nextCronDatetime at h
  split at h
  · exact firstAfter_gt h
  · cases h

/-- A computed due time is still to come. -/
theorem computeNextRun_gt {host : Host} {s : CronSchedule} {now n : Int} (h : computeNextRun host s now = some n) :
    now < n := by
  unfold computeNextRun at h
  split at h
  · simpa using (Option.filter_eq_some_iff.mp h).2
  · obtain ⟨every, he, rfl⟩ := Option.map_eq_some_iff.mp h
    have hpos : 0 < every := by simpa using (Option.filter_eq_some_iff.mp he).2
    omega
  · obtain ⟨expr, -, hexpr⟩ := Option.bind_eq_some_iff.mp h
    exact nextCronDatetime_gt hexpr

/-! ## Jobs -/

inductive Lifecycle where
  | scheduled
  | paused
  | completed
  | archived
  deriving DecidableEq

inductive Status where
  | ok
  | error
  deriving DecidableEq

structure CronJobState where
  nextRunAtMs : Option Int := none
  lastRunAtMs : Option Int := none
  lastStatus : Option Status := none
  lastError : Option Text := none
  lastDeliveryError : Option Text := none
  consecutiveFailures : Nat := 0
  lastAlertAtMs : Option Int := none
  retryAttempt : Nat := 0
  lastRunId : Option RunId := none
  deriving DecidableEq

structure CronJob where
  id : String
  name : String
  enabled : Bool := true
  schedule : CronSchedule
  state : CronJobState := {}
  updatedAtMs : Int := 0
  lifecycle : Lifecycle := .scheduled
  completedAtMs : Option Int := none
  archivedAtMs : Option Int := none
  repeatTimes : Option Nat := none
  repeatCompleted : Nat := 0
  retryMaxAttempts : Nat := 0
  retryBackoffMs : List Int := []
  failureAlertAfter : Nat := 3
  failureAlertCooldownMs : Int := 24 * 60 * 60 * 1000
  deriving DecidableEq

/-- The due time, where one is set and has come. -/
def CronJob.due (j : CronJob) (now : Int) : Prop :=
  j.lifecycle = .scheduled ∧ j.enabled = true ∧ ∃ n ∈ truthy j.state.nextRunAtMs, n ≤ now

instance (j : CronJob) (now : Int) : Decidable (j.due now) := by unfold CronJob.due; infer_instance

/-- A job as `_load_store` reads it. -/
def CronJob.read (j : CronJob) : CronJob :=
  let overdue := j.lifecycle = .scheduled ∧ j.schedule.kind = .at_ ∧ j.state.lastRunAtMs = none ∧ j.state.nextRunAtMs = none
  { j with enabled := j.lifecycle = .scheduled
           state.nextRunAtMs := if overdue then j.schedule.atMs else j.state.nextRunAtMs }

/-- One job of `_recompute_next_runs`. -/
def CronJob.recompute (host : Host) (now : Int) (j : CronJob) : CronJob :=
  if j.lifecycle ≠ .scheduled ∨ j.enabled = false then { j with enabled := false, state.nextRunAtMs := none }
  else if 0 < j.state.retryAttempt ∧ j.state.nextRunAtMs ≠ none then j
  else if j.schedule.kind = .at_ then
    if j.state.lastRunAtMs = none then
      { j with state.nextRunAtMs := (truthy j.state.nextRunAtMs).or j.schedule.atMs }
    else
      { j with lifecycle := .completed, enabled := false, state.nextRunAtMs := none
               completedAtMs := (truthy j.completedAtMs).or j.state.lastRunAtMs }
  else if j.schedule.kind = .cron ∧ computeNextRun host j.schedule now = none then
    { j with lifecycle := .paused, enabled := false, state.nextRunAtMs := none }
  else { j with state.nextRunAtMs := computeNextRun host j.schedule now }

/-- A recurring job overdue by more than its grace goes to its next occurrence without a run. -/
def CronJob.fastForward (host : Host) (now : Int) (j : CronJob) : Option Int :=
  if j.due now ∧ j.schedule.kind ≠ .at_ ∧
      computeGraceMs host j.schedule now < now - j.state.nextRunAtMs.getD 0 then
    truthy (computeNextRun host j.schedule now)
  else none

/-! ## User operations -/

inductive Hand where
  | call
  | reschedule
  | scheduler
  deriving DecidableEq

/-- What a user operation makes of a job; what is `kept` or `refused` is not saved. -/
inductive Edit where
  | kept (job : CronJob)
  | refused (job : CronJob) (message : String)
  | stored (job : CronJob)
  /-- Its lifecycle and due time are set. -/
  | set (job : CronJob) (hand : Hand)

/-- `enable_job`. -/
def CronJob.enable (host : Host) (now : Int) (enabled : Bool) (j : CronJob) : Edit :=
  let j := { j with updatedAtMs := now }
  if enabled then
    if j.lifecycle = .completed ∨ j.lifecycle = .archived then .refused j "completed or archived jobs must be rescheduled"
    else
      match computeNextRun host j.schedule now with
      | none => .refused j "job schedule has no future run; reschedule it"
      | some n => .set { j with lifecycle := .scheduled, enabled := true, state.nextRunAtMs := some n } .call
  else if j.lifecycle ≠ .scheduled then .kept j
  else .set { j with lifecycle := .paused, enabled := false, state.nextRunAtMs := none } .call

structure Updates where
  name : Option String := none
  schedule : Option CronSchedule := none
  reschedule : Bool := false
  /-- `repeat_times`, when the key is there. -/
  repeatTimes : Option (Option Int) := none

def zoneError (tz : Option String) : String :=
  match tz.filter (· ≠ "") with
  | some name => "Invalid cron timezone: " ++ name
  | none => "Unable to determine the execution host timezone"

/-- The message with which croniter refuses the expression of a schedule. -/
def expressionError (host : Host) (s : CronSchedule) : Option String :=
  if s.kind = .cron then (s.expr.filter (· ≠ "")).bind host.croniterError else none

/-- The due time of a new schedule `update_job` accepts; none when it leaves the schedule alone. -/
def CronJob.rescheduled (host : Host) (now : Int) (u : Updates) (j : CronJob) : Except String (Option Int) :=
  match u.schedule with
  | none => .ok none
  | some new =>
    if new.kind = .cron ∧ host.zone new.tz = false then .error (zoneError new.tz)
    else if u.reschedule = false ∧ j.schedule = new then .ok none
    else if new.kind = .every ∧ new.everyMs.getD 0 < 60000 then .error "Minimum interval is 60 seconds"
    else
      match expressionError host new, computeNextRun host new now with
      | some exc, _ => .error ("Invalid cron expression: " ++ exc)
      | none, none => .error "rescheduled job must have a future valid schedule"
      | none, some n => .ok (some n)

/-- `int(raw) if raw and int(raw) > 0 else None`. -/
def normalizedRepeatTimes (raw : Option Int) : Option Nat := (raw.filter (0 < ·)).map Int.toNat

def CronJob.updated (now : Int) (u : Updates) (j : CronJob) : CronJob :=
  { j with name := (u.name.filter (· ≠ "")).getD j.name, updatedAtMs := now
           repeatTimes := (u.repeatTimes.map normalizedRepeatTimes).getD j.repeatTimes }

def CronJob.reschedule (u : Updates) (new : CronSchedule) (next : Int) (j : CronJob) : CronJob :=
  { j with schedule := new, lifecycle := .scheduled, enabled := true, completedAtMs := none, archivedAtMs := none
           state.nextRunAtMs := some next, state.retryAttempt := 0, repeatCompleted := 0
           repeatTimes := if u.repeatTimes = none ∧ j.schedule.kind ≠ new.kind then
               if new.kind = .at_ then some 1 else none
             else j.repeatTimes }

/-- `update_job`. -/
def CronJob.update (host : Host) (now : Int) (u : Updates) (j : CronJob) : Edit :=
  match j.rescheduled host now u, u.schedule with
  | .error message, _ => .refused j message
  | .ok (some next), some new => .set ((j.updated now u).reschedule u new next) .reschedule
  | .ok _, _ => .stored (j.updated now u)

def CronJob.markDeliveryError (error : Option Text) (j : CronJob) : Edit :=
  .stored { j with state.lastDeliveryError := error }

/-- `update_delivery_target`; the target itself is part of the payload. -/
def CronJob.updateDeliveryTarget (now : Int) (j : CronJob) : Edit := .stored { j with updatedAtMs := now }

/-- `remove_job` without `purge`. -/
def CronJob.archive (now : Int) (j : CronJob) : CronJob :=
  { j with lifecycle := .archived, enabled := false, state.nextRunAtMs := none, archivedAtMs := some now
           updatedAtMs := now }

structure NewJob where
  id : String
  name : String
  schedule : CronSchedule
  repeatTimes : Option Int := none
  retryMaxAttempts : Int := 0
  retryBackoffMs : List Int := []
  failureAlertAfter : Int := 3
  failureAlertCooldownMs : Int := 24 * 60 * 60 * 1000

def msText : Option Int → String
  | none => "None"
  | some ms => toString ms

/-- The job `add_job` makes. -/
def NewJob.job (host : Host) (now : Int) (n : NewJob) : Except String CronJob :=
  if n.name = "" ∨ 256 < n.name.length then .error "Job name must be 1-256 characters"
  else if n.schedule.kind = .every ∧ n.schedule.everyMs.getD 0 < 60000 then
    .error ("Minimum interval is 60 seconds (got " ++ msText n.schedule.everyMs ++ "ms)")
  else if n.schedule.kind = .cron ∧ host.zone n.schedule.tz = false then .error (zoneError n.schedule.tz)
  else
    match expressionError host n.schedule with
    | some exc => .error ("Invalid cron expression '" ++ n.schedule.expr.getD "" ++ "': " ++ exc)
    | none =>
      let next := computeNextRun host n.schedule now
      if n.schedule.kind = .cron ∧ next = none then .error "Cron schedule has no resolvable future occurrence"
      else .ok
        { id := n.id, name := n.name, schedule := n.schedule, state := { nextRunAtMs := next }, updatedAtMs := now
          repeatTimes := normalizedRepeatTimes (if n.schedule.kind = .at_ ∧ n.repeatTimes = none then some 1 else n.repeatTimes)
          retryMaxAttempts := n.retryMaxAttempts.toNat, retryBackoffMs := n.retryBackoffMs.filter (0 < ·)
          failureAlertAfter := n.failureAlertAfter.toNat, failureAlertCooldownMs := max 0 n.failureAlertCooldownMs }

/-- A job that was added. -/
theorem NewJob.job_ok {host : Host} {now : Int} {n : NewJob} {job : CronJob} (h : n.job host now = .ok job) :
    job.id = n.id ∧ job.enabled = true ∧ job.lifecycle = .scheduled ∧ job.schedule = n.schedule ∧
      job.state = { nextRunAtMs := computeNextRun host n.schedule now } ∧ job.updatedAtMs = now := by
  unfold NewJob.job at h
  split at h <;> [cases h; skip]
  split at h <;> [cases h; skip]
  split at h <;> [cases h; skip]
  split at h <;> [cases h; skip]
  dsimp only at h
  split at h <;> [cases h; skip]
  cases h
  exact ⟨rfl, rfl, rfl, rfl, rfl, rfl⟩

/-! ## A run of a job -/

inductive Outcome where
  /-- It returned, maybe with a text. -/
  | returned (response : Option Text)
  | raised (message : Text)
  | timedOut

def ERROR_MARKER : Text := "__error__:".toList

def Outcome.errorText : Outcome → Option Text
  | .returned none => none
  | .returned (some response) =>
    if ERROR_MARKER.isPrefixOf response then some ((response.drop ERROR_MARKER.length).take 500) else none
  | .raised message => some (message.take 500)
  | .timedOut => some "Inactivity timeout after 600s".toList

/-- The error is there and not empty. -/
def Outcome.failed (o : Outcome) : Bool := o.errorText.any (· ≠ [])

/-- The record of a run whose callback ended with `o`. -/
def CronJob.ran (run : RunId) (startMs now : Int) (o : Outcome) (j : CronJob) : CronJob :=
  { j with updatedAtMs := now, state.lastStatus := some (if o.errorText.isSome then .error else .ok)
           state.lastError := o.errorText, state.lastRunAtMs := some startMs, state.lastRunId := some run }

def CronJob.retries (manual : Bool) (o : Outcome) (j : CronJob) : Bool :=
  !manual && o.failed && decide (0 < j.retryMaxAttempts) && decide (j.state.retryAttempt < j.retryMaxAttempts)

def CronJob.backoffMs (j : CronJob) : Int :=
  let backoffs := if j.retryBackoffMs = [] then [30000, 60000, 300000] else j.retryBackoffMs
  backoffs.getD (min j.state.retryAttempt (backoffs.length - 1)) 0

def CronJob.retry (now : Int) (j : CronJob) : CronJob :=
  { j with state.retryAttempt := j.state.retryAttempt + 1, state.nextRunAtMs := some (now + j.backoffMs) }

def CronJob.succeed (j : CronJob) : CronJob := { j with state.retryAttempt := 0, state.consecutiveFailures := 0 }

def CronJob.fail (j : CronJob) : CronJob :=
  { j with state.retryAttempt := 0, state.consecutiveFailures := j.state.consecutiveFailures + 1 }

/-- `_maybe_send_failure_alert` gets to the callback. -/
def CronJob.alerts (now : Int) (j : CronJob) : Bool :=
  decide (0 < j.failureAlertAfter) && decide (j.failureAlertAfter ≤ j.state.consecutiveFailures) &&
    decide (j.failureAlertCooldownMs ≤ now - j.state.lastAlertAtMs.getD 0)

def CronJob.reachedLimit (j : CronJob) : Bool := j.repeatTimes.any (· ≤ j.repeatCompleted)

def CronJob.finishes (j : CronJob) : Bool := j.reachedLimit || j.schedule.kind = .at_

/-- A counted fire; the last one ends the schedule. -/
def CronJob.count (fires : Nat) (completedAtMs : Int) (j : CronJob) : CronJob :=
  let j := { j with repeatCompleted := fires }
  if j.finishes then
    { j with lifecycle := .completed, enabled := false, state.nextRunAtMs := none, completedAtMs := some completedAtMs }
  else j

structure Baseline where
  repeatCompleted : Nat
  consecutiveFailures : Nat
  retryAttempt : Nat

def CronJob.baseline (j : CronJob) : Baseline := ⟨j.repeatCompleted, j.state.consecutiveFailures, j.state.retryAttempt⟩

def cancelledText (stopping : Bool) : Text :=
  if stopping then "Cancelled during scheduler shutdown".toList else "Cancelled before completion".toList

def CronJob.interrupted (run : RunId) (startMs now : Int) (stopping manual : Bool) (base : Baseline) (j : CronJob) : CronJob :=
  { j with updatedAtMs := now, state.lastStatus := some .error, state.lastError := some (cancelledText stopping)
           state.lastDeliveryError := none, state.lastRunAtMs := some startMs, state.lastRunId := some run
           state.consecutiveFailures := base.consecutiveFailures + 1
           state.retryAttempt := if manual then base.retryAttempt else 0 }

/-- `_persist_cancelled_run`, before it saves. -/
def CronJob.cancelled (run : RunId) (startMs now : Int) (stopping manual : Bool) (base : Baseline) (j : CronJob) : CronJob :=
  let j := j.interrupted run startMs now stopping manual base
  if manual then j else j.count (base.repeatCompleted + 1) now

/-! ## Run metadata -/

structure Transcript where
  jobId : String
  jobName : String
  startedAtMs : Int
  run : Nat
  failed : Bool

structure RunRecord where
  runId : RunId
  jobId : String
  jobName : String
  startedAtMs : Int
  completedAtMs : Int
  status : Option Status := none
  error : Option Text := none
  deliveryError : Option Text := none
  /-- The start and the id in the name of its output file. -/
  outputFile : Int × Nat
  lifecycleAfterRun : Option Lifecycle := none
  nextRunAtMs : Option Int := none
  retryAttempt : Nat := 0
  repeatCompleted : Nat := 0
  deriving DecidableEq

/-- `completedAtMs or startedAtMs`. -/
def RunRecord.completed (r : RunRecord) : Int := if r.completedAtMs = 0 then r.startedAtMs else r.completedAtMs

def CronJob.record (run : Nat) (startMs completedAtMs : Int) (j : CronJob) : RunRecord :=
  { runId := .uuid run, jobId := j.id, jobName := j.name, startedAtMs := startMs, completedAtMs
    status := j.state.lastStatus, error := j.state.lastError, deliveryError := j.state.lastDeliveryError
    outputFile := (startMs, run), lifecycleAfterRun := some j.lifecycle, nextRunAtMs := j.state.nextRunAtMs
    retryAttempt := j.state.retryAttempt, repeatCompleted := j.repeatCompleted }

def legacyRunRecord (host : Host) (t : Transcript) : RunRecord :=
  { runId := .legacy t.jobId t.startedAtMs t.run, jobId := t.jobId, jobName := t.jobName
    startedAtMs := host.runTime t.startedAtMs, completedAtMs := host.runTime t.startedAtMs
    status := some (if t.failed then .error else .ok), outputFile := (t.startedAtMs, t.run) }

/-- The job record as the newest run of its archive says it should be. -/
def CronJob.replay (latest : RunRecord) (j : CronJob) : CronJob :=
  { j with
    state := { j.state with
      lastRunAtMs := truthy (some latest.startedAtMs), lastRunId := some latest.runId
      lastStatus := latest.status.or j.state.lastStatus, lastError := latest.error
      lastDeliveryError := latest.deliveryError, retryAttempt := latest.retryAttempt
      nextRunAtMs := latest.nextRunAtMs }
    repeatCompleted := max j.repeatCompleted latest.repeatCompleted
    lifecycle := latest.lifecycleAfterRun.getD j.lifecycle
    enabled := (latest.lifecycleAfterRun.map fun after => decide (after = .scheduled)).getD j.enabled
    completedAtMs := if latest.lifecycleAfterRun = some .completed then truthy (some latest.completed) else j.completedAtMs
    updatedAtMs := latest.completed }

/-- jobs.json already has the newest run, or was written after it. -/
def CronJob.knows (latest : RunRecord) (j : CronJob) : Prop :=
  j.state.lastRunId = some latest.runId ∨ latest.completed < j.updatedAtMs

instance (latest : RunRecord) (j : CronJob) : Decidable (j.knows latest) := by unfold CronJob.knows; infer_instance

def CronJob.reconcile (latest : RunRecord) (j : CronJob) : CronJob := if j.knows latest then j else j.replay latest

def recovered (now : Int) (dir : String) (latest : RunRecord) : CronJob :=
  { id := dir, name := if latest.jobName = "" then dir else latest.jobName, enabled := false
    schedule := { kind := .at_ }
    state := { lastRunAtMs := truthy (some latest.startedAtMs), lastStatus := latest.status, lastError := latest.error
               lastDeliveryError := latest.deliveryError, lastRunId := some latest.runId }
    updatedAtMs := latest.completed, lifecycle := .archived, completedAtMs := truthy (some latest.completed)
    archivedAtMs := (truthy (some latest.completed)).or (some now) }

end Flowly.Cron
