/-
  Flowly.Cron.Service — the cron service: the jobs and the runs of one process, what it
  has on disk, and what its tasks do between two awaits (`flowly/cron/service.py`).

  Actors. The scheduler's pass takes the due jobs one after the other and waits for each
  run. `run_job` runs one job, with or without a run that `reserve_run` gave out before.
  A run waits at four places: `on_run_start`, `on_job`, `on_alert`, `on_complete`. User
  operations, `reload`, `stop` and `shutdown` come in between. A task may be cancelled
  wherever it waits.

  An event is what one task does from one await to the next; the clock stands still in it
  and does not go back between two. The timers are left out: a pass may start at any
  moment, and a task may be cancelled without a reason. Every write succeeds, one process
  has the directory, and the callbacks are all there.

  jobs.json, the transcripts and the run metadata outlive the process. The log and
  `Disk.due` are ghosts.
-/

import Flowly.Lib.Durable
import Flowly.Lib.Reach
import Flowly.Cron.Job
import Mathlib.Data.List.Dedup
import Mathlib.Data.List.Sort

namespace Flowly.Cron

open Flowly.Lib Flowly.Lib.Durable

/-! ## The state -/

structure Disk where
  /-- jobs.json. -/
  jobs : List CronJob := []
  transcripts : List Transcript := []
  records : List RunRecord := []
  /-- Ghost: the job record that was to follow the newest metadata, until jobs.json is written. -/
  due : Option CronJob := none

/-- A reserved run, as `_active_runs` has it. -/
structure Run where
  jobId : String
  runId : Nat
  startedAtMs : Int
  manual : Bool

inductive Await where
  | starting
  | running
  | alerting (completedAtMs : Int)
  deriving DecidableEq

/-- A task inside `_execute_job`, and where it waits. -/
structure Execution where
  run : Run
  manual : Bool
  base : Baseline
  place : Await
  /-- The task is the scheduler's pass. -/
  inPass : Bool

/-- A task that waits for `on_complete`; it may have a cancellation to raise after it. -/
structure Publication where
  run : Nat
  inPass : Bool
  raises : Bool

/-- A `run_job` task with a reservation, before its first turn. -/
structure Detached where
  run : Run
  /-- The id or name it looks its job up by. -/
  key : String
  force : Bool

inductive Happening where
  | reserved (jobId : String) (run : Nat)
  /-- A job's schedule was set: its lifecycle and its due time. -/
  | set (jobId : String) (lifecycle : Lifecycle) (next : Option Int) (hand : Hand)
  /-- The task of a reservation was cancelled before its first turn. -/
  | dropped (run : Nat)
  | called (run : Nat)
  /-- jobs.json has the outcome of the run, and this record of its job. -/
  | persisted (run : Nat) (job : CronJob)
  /-- The run left `_active_runs`. -/
  | retired (run : Nat)
  | published (run : Nat)
  deriving DecidableEq

structure World where
  disk : Disk := {}
  /-- `_store` is there. -/
  loaded : Bool := false
  jobs : List CronJob := []
  stopping : Bool := false
  /-- `_active_runs`. -/
  activeRuns : List (String × Run) := []
  /-- `_execution_owners`. -/
  owners : List Execution := []
  detached : List Detached := []
  publishing : List Publication := []
  /-- What `shutdown` has retired and not yet published. -/
  announcing : List Nat := []
  /-- `_run_due_jobs` waits for a run, with these jobs to go. -/
  pass : Option (List String) := none
  /-- The next `uuid4`. -/
  fresh : Nat := 0
  clock : Int := 0
  /-- Ghost: what happened in this process, the newest first. -/
  log : List Happening := []

abbrev Section := Durable World

namespace World

def job? (w : World) (id : String) : Option CronJob := w.jobs.find? (·.id = id)

/-- `job` was changed in place. -/
def put (w : World) (job : CronJob) : World := { w with jobs := w.jobs.map fun j => if j.id = job.id then job else j }

def note (w : World) (h : Happening) : World := { w with log := h :: w.log }

def noteSet (w : World) (job : CronJob) (hand : Hand) : World :=
  w.note (.set job.id job.lifecycle job.state.nextRunAtMs hand)

def saved (w : World) : World := { w with disk := { w.disk with jobs := w.jobs, due := none } }

def activeRun (w : World) (jobId : String) : Option Run := w.activeRuns.lookup jobId

/-- `_active_runs.get(job.id) is run`. -/
def holds (w : World) (run : Run) : Prop := (w.activeRun run.jobId).map (·.runId) = some run.runId

instance (w : World) (run : Run) : Decidable (w.holds run) := by unfold holds; infer_instance

def owner (w : World) (jobId : String) : Option Execution := w.owners.find? (·.run.jobId = jobId)

/-- The run leaves `_active_runs`, and its task `_execution_owners`. -/
def retire (w : World) (run : Run) : World :=
  { w with activeRuns := w.activeRuns.filter fun a => ¬ (a.1 = run.jobId ∧ a.2.runId = run.runId)
           owners := w.owners.filter (·.run.runId ≠ run.runId)
           log := .retired run.runId :: w.log }

def publish (w : World) (p : Publication) : World :=
  { w with publishing := p :: w.publishing, log := .published p.run :: w.log }

end World

/-! ## jobs.json and the archive -/

/-- The transcript's file is the output file of one of these records. -/
def referenced (records : List RunRecord) (t : Transcript) : Prop := (t.startedAtMs, t.run) ∈ records.map (·.outputFile)

instance (records : List RunRecord) (t : Transcript) : Decidable (referenced records t) := by
  unfold referenced; infer_instance

/-- The order of `_read_run_records`, the newest first. -/
def newer (host : Host) (a b : RunRecord) : Prop :=
  b.completed < a.completed ∨ a.completed = b.completed ∧ host.idText b.runId ≤ host.idText a.runId

instance (host : Host) (a b : RunRecord) : Decidable (newer host a b) := by unfold newer; infer_instance

def unsortedRunRecords (host : Host) (disk : Disk) (jobId : String) : List RunRecord :=
  let records := disk.records.filter (·.jobId = jobId)
  records ++ ((disk.transcripts.filter fun t => t.jobId = jobId ∧ ¬ referenced records t).map (legacyRunRecord host))

def readRunRecords (host : Host) (disk : Disk) (jobId : String) : List RunRecord :=
  (unsortedRunRecords host disk jobId).insertionSort (newer host)

def latestRecord (host : Host) (disk : Disk) (jobId : String) : Option RunRecord := (readRunRecords host disk jobId).head?

def reconciled (host : Host) (disk : Disk) (j : CronJob) : CronJob :=
  match latestRecord host disk j.id with
  | some latest => j.reconcile latest
  | none => j

def outputDirs (disk : Disk) : List String := (disk.transcripts.map (·.jobId) ++ disk.records.map (·.jobId)).dedup

def orphans (host : Host) (now : Int) (disk : Disk) (jobs : List CronJob) : List CronJob :=
  ((outputDirs disk).filter (· ∉ jobs.map (·.id))).filterMap fun dir => (latestRecord host disk dir).map (recovered now dir)

/-- The result of `_recover_orphan_archives`. -/
def recoveryChanges (host : Host) (disk : Disk) (jobs : List CronJob) : Bool :=
  (jobs.any fun j => (latestRecord host disk j.id).any (¬ j.knows ·)) ||
    (outputDirs disk).any fun dir => dir ∉ jobs.map (·.id) ∧ (latestRecord host disk dir).isSome

def saveStore : Section Unit := write World.saved

def saveWhen (changed : Bool) : Section Unit := if changed then saveStore else pure ()

section

variable (host : Host) (now : Int)

def World.readFrom (w : World) : World :=
  let jobs := w.disk.jobs.map CronJob.read
  { w with loaded := true, jobs := jobs.map (reconciled host w.disk) ++ orphans host now w.disk jobs }

/-- `_load_store` past its cache. -/
def readStore : Section Unit := do
  let w ← read
  modify (·.readFrom host now)
  saveWhen (recoveryChanges host w.disk (w.disk.jobs.map CronJob.read))

def loadStore : Section Unit := do
  let w ← read
  if w.loaded then pure () else readStore host now

/-- `_recompute_next_runs`. -/
def World.recomputed (w : World) : World :=
  let jobs := w.jobs.map (CronJob.recompute host now)
  { w with jobs, log := (jobs.map fun j => .set j.id j.lifecycle j.state.nextRunAtMs .scheduler) ++ w.log }

def start : Section Unit := do
  modify fun w => { w with stopping := false }
  loadStore host now
  modify (·.recomputed host now)
  saveStore

def keepActive (active jobs : List CronJob) : List CronJob :=
  (jobs.map fun j => (active.find? (·.id = j.id)).getD j) ++ active.filter (·.id ∉ jobs.map (·.id))

def World.keeping (w old : World) : World :=
  { w with jobs := keepActive (old.jobs.filter fun j => (old.activeRun j.id).isSome) w.jobs }

def reload : Section Unit := do
  loadStore host now
  let old ← read
  readStore host now
  modify fun w => (w.keeping old).recomputed host now
  saveStore

/-! ## Reservations and the end of a run -/

def World.reserve (w : World) (jobId : String) (manual : Bool) : World :=
  { w with fresh := w.fresh + 1, activeRuns := w.activeRuns ++ [(jobId, ⟨jobId, w.fresh, now, manual⟩)]
           log := .reserved jobId w.fresh :: w.log }

def reserveRun (jobId : String) (manual : Bool) : Section (Option Run) := do
  let w ← read
  if w.stopping ∨ (w.activeRun jobId).isSome then pure none
  else
    modify (·.reserve now jobId manual)
    pure (some ⟨jobId, w.fresh, now, manual⟩)

def World.withTranscript (w : World) (t : Transcript) : World :=
  { w with disk := { w.disk with transcripts := t :: w.disk.transcripts } }

def World.withRecord (w : World) (r : RunRecord) (job : CronJob) : World :=
  { w with disk := { w.disk with records := r :: w.disk.records, due := some job } }

def saveJobOutput (job : CronJob) (run : Run) (completedAtMs : Int) (failed : Bool) : Section Unit := do
  write (·.withTranscript ⟨job.id, job.name, run.startedAtMs, run.runId, failed⟩)
  write (·.withRecord (job.record run.runId run.startedAtMs completedAtMs) job)

/-- The end of a run: its transcript, its metadata, the job record; then it is no longer active. -/
def persist (job : CronJob) (run : Run) (completedAtMs : Int) (failed : Bool) : Section Unit := do
  modify (·.put job)
  saveJobOutput job run completedAtMs failed
  saveStore
  modify fun w => (w.note (.persisted run.runId job)).retire run

def persistCancelledRun (run : Run) (manual : Bool) (base : Baseline) (job : CronJob) : Section Unit := do
  let w ← read
  persist (job.cancelled (.uuid run.runId) run.startedAtMs now w.stopping manual base) run now true

/-! ## The scheduler's pass -/

/-- `_advance_next_run`. -/
def advanced (job : CronJob) : Option CronJob :=
  if job.schedule.kind = .at_ then none
  else
    match truthy (computeNextRun host job.schedule now) with
    | some n => if some n = job.state.nextRunAtMs then none else some { job with state.nextRunAtMs := some n }
    | none => none

def advanceNextRun (job : CronJob) : Section Unit :=
  match advanced host now job with
  | some job => do
    modify (·.put job)
    saveStore
  | none => pure ()

/-- The task enters `_execute_job` with its run, and waits for `on_run_start`. -/
def World.enter (w : World) (run : Run) (manual inPass : Bool) (base : Baseline) : World :=
  { w with activeRuns := w.activeRuns.map fun a => (a.1, if a.2.runId = run.runId then { a.2 with manual } else a.2)
           owners := ⟨{ run with manual }, manual, base, .starting, inPass⟩ :: w.owners }

/-- `_execute_job` with a reserved run, up to its first await. -/
def executeJob (job : CronJob) (run : Run) (manual inPass : Bool) : Section Unit := do
  let w ← read
  if ¬ w.holds run then pure ()
  else if w.stopping then
    persistCancelledRun now run manual job.baseline job
    modify (·.publish ⟨run.runId, inPass, false⟩)
  else modify (·.enter run manual inPass job.baseline)

def endPass : Section Unit := do
  saveStore
  modify fun w => { w with pass := none }

/-- `_execute_job` in a pass, with these jobs to go. -/
def executeInPass (rest : List String) (job : CronJob) (run : Run) : Section Unit := do
  modify fun w => { w with pass := some rest }
  executeJob now job run false true

/-- The loop of `_run_due_jobs`: up to the first job it waits for. -/
def runDue : List String → Section Unit
  | [] => endPass
  | id :: rest => do
    let w ← read
    if w.stopping then endPass
    else
      match w.job? id with
      | none => runDue rest
      | some job =>
        if ¬ job.due now ∨ (w.activeRun job.id).isSome then runDue rest
        else
          advanceNextRun host now job
          let run ← reserveRun now job.id false
          match run with
          | none => runDue rest
          | some run => executeInPass now rest ((advanced host now job).getD job) run

def forwarded (job : CronJob) : CronJob :=
  match job.fastForward host now with
  | some n => { job with state.nextRunAtMs := some n }
  | none => job

/-- The jobs that missed their time by more than their grace go to the next one. -/
def World.forward (w : World) : World :=
  { w with jobs := w.jobs.map (forwarded host now)
           log := ((w.jobs.filter fun j => (j.fastForward host now).isSome).map fun j =>
             .set j.id j.lifecycle (forwarded host now j).state.nextRunAtMs .scheduler) ++ w.log }

def runDueJobs : Section Unit := do
  let w ← read
  modify (·.forward host now)
  saveWhen (w.jobs.any fun j => (j.fastForward host now).isSome)
  runDue host now ((w.jobs.filter fun j => j.due now ∧ j.fastForward host now = none).map (·.id))

def onTimer : Section Unit := do
  let w ← read
  if w.pass.isSome ∨ w.loaded = false then pure () else runDueJobs host now

def resumePass (inPass : Bool) : Section Unit := do
  let w ← read
  match inPass, w.pass with
  | true, some rest => runDue host now rest
  | _, _ => pure ()

/-! ## A run -/

/-- The run is over; a retry is to come for it or `on_complete` is told. -/
def completeRun (x : Execution) (job : CronJob) (completedAtMs : Int) (retrying failed : Bool) : Section Unit := do
  persist (if x.manual ∨ retrying then job else job.count (job.repeatCompleted + 1) completedAtMs) x.run completedAtMs failed
  if retrying then resumePass host now x.inPass else modify (·.publish ⟨x.run.runId, x.inPass, false⟩)

def World.moveTo (w : World) (x : Execution) (place : Await) : World :=
  { w with owners := w.owners.map fun y => if y.run.runId = x.run.runId then { y with place } else y }

/-- `on_run_start` returned or raised: the body clears the delivery error and calls `on_job`. -/
def beginBody (x : Execution) (job : CronJob) : Section Unit :=
  modify fun w => ((w.put { job with state.lastDeliveryError := none }).moveTo x .running).note (.called x.run.runId)

/-- `on_job` ended with `o`. -/
def endBody (x : Execution) (o : Outcome) (job : CronJob) : Section Unit :=
  let ran := job.ran (.uuid x.run.runId) x.run.startedAtMs now o
  if ran.retries x.manual o then completeRun host now x (ran.retry now) now true true
  else if o.failed = false then completeRun host now x ran.succeed now false false
  else if ran.fail.alerts now then
    modify fun w => (w.put { ran.fail with state.lastAlertAtMs := some now }).moveTo x (.alerting now)
  else completeRun host now x ran.fail now false true

/-- What the task of `x` waits for is there. -/
def resumeRun (o : Outcome) (x : Execution) (job : CronJob) : Section Unit :=
  match x.place with
  | .starting => beginBody x job
  | .running => endBody host now x o job
  | .alerting completedAtMs => completeRun host now x job completedAtMs false true

/-- The task of `x` is cancelled where it waits. -/
def cancelRun (x : Execution) (job : CronJob) : Section Unit := do
  persistCancelledRun now x.run x.manual x.base job
  modify (·.publish ⟨x.run.runId, x.inPass, true⟩)

def World.execution (w : World) (run : Nat) : Option (Execution × CronJob) :=
  (w.owners.find? (·.run.runId = run)).bind fun x => (w.job? x.run.jobId).map (x, ·)

def withExecution (run : Nat) (act : Execution → CronJob → Section Unit) : Section Unit := do
  let w ← read
  match w.execution run with
  | none => pure ()
  | some (x, job) => act x job

/-- `on_complete` returned, or the task was cancelled in it. -/
def endPublication (run : Nat) (cancelled : Bool) : Section Unit := do
  let w ← read
  match w.publishing.find? (·.run = run) with
  | none => pure ()
  | some p =>
    modify fun w => { w with publishing := w.publishing.filter (·.run ≠ run) }
    if p.inPass ∧ (p.raises ∨ cancelled) then modify fun w => { w with pass := none } else resumePass host now p.inPass

/-! ## run_job -/

/-- `reserve_run`, and a task for `run_job(key, force, reserved_run=run)`. -/
def reserveDetached (jobId key : String) (force manual : Bool) : Section Unit := do
  loadStore host now
  let w ← read
  match w.job? jobId with
  | none => pure ()
  | some job =>
    let run ← reserveRun now job.id manual
    match run with
    | none => pure ()
    | some run => modify fun w => { w with detached := ⟨run, key, force⟩ :: w.detached }

/-- The first job with the id or the name, in the order of the store. -/
def World.find (w : World) (key : String) : Option CronJob := w.jobs.find? fun j => j.id = key ∨ j.name = key

/-- `run_job` lets this job run. -/
def admits (force : Bool) (job : CronJob) : Prop := job.lifecycle ≠ .archived ∧ (force = true ∨ job.enabled = true)

instance (force : Bool) (job : CronJob) : Decidable (admits force job) := by unfold admits; infer_instance

def runJob (key : String) (force : Bool) : Section Unit := do
  loadStore host now
  let w ← read
  match w.find key with
  | none => pure ()
  | some job =>
    if ¬ admits force job then pure ()
    else
      let run ← reserveRun now job.id true
      match run with
      | none => pure ()
      | some run => executeJob now job run true false

/-- `run_job` with a reservation, up to its first await. -/
def runReserved (d : Detached) : Section Unit := do
  let w ← read
  match w.find d.key with
  | none => pure ()
  | some job =>
    if ¬ admits d.force job then pure ()
    else if d.run.jobId ≠ job.id then pure ()
    else executeJob now job d.run true false

def World.undetach (w : World) (run : Nat) : World := { w with detached := w.detached.filter (·.run.runId ≠ run) }

/-- A detached task gets its first turn. -/
def turn (run : Nat) : Section Unit := do
  let w ← read
  match w.detached.find? (·.run.runId = run) with
  | none => pure ()
  | some d =>
    loadStore host now
    modify (·.undetach run)
    runReserved now d

/-! ## User operations -/

def addJob (job : CronJob) : Section Unit := do
  loadStore host now
  modify fun w => { w with jobs := w.jobs ++ [job] }
  saveStore

def editJob (select : World → Option CronJob) (edit : CronJob → Edit) : Section (Except String (Option CronJob)) := do
  loadStore host now
  let w ← read
  match select w with
  | none => pure (.ok none)
  | some job =>
    match edit job with
    | .kept job =>
      modify (·.put job)
      pure (.ok (some job))
    | .refused job message =>
      modify (·.put job)
      pure (.error message)
    | .stored job =>
      modify (·.put job)
      saveStore
      pure (.ok (some job))
    | .set job hand =>
      modify fun w => (w.put job).noteSet job hand
      saveStore
      pure (.ok (some job))

def enableJob (jobId : String) (enabled : Bool) : Section (Except String (Option CronJob)) :=
  editJob host now (·.job? jobId) (CronJob.enable host now enabled)

def updateJob (key : String) (u : Updates) : Section (Except String (Option CronJob)) :=
  editJob host now (·.find key) (CronJob.update host now u)

def markDeliveryError (jobId : String) (error : Option Text) : Section (Except String (Option CronJob)) :=
  editJob host now (·.job? jobId) (CronJob.markDeliveryError error)

def updateDeliveryTarget (jobId : String) : Section (Except String (Option CronJob)) :=
  editJob host now (·.job? jobId) (CronJob.updateDeliveryTarget now)

def World.purgeArchives (w : World) (ids : List String) : World :=
  { w with disk := { w.disk with transcripts := w.disk.transcripts.filter (·.jobId ∉ ids)
                                 records := w.disk.records.filter (·.jobId ∉ ids) } }

def removeJob (key : String) (purge : Bool) : Section Bool := do
  loadStore host now
  let w ← read
  let ids := (w.jobs.filter fun j => j.id = key ∨ j.name = key).map (·.id)
  if ids = [] ∨ ids.any fun id => (w.activeRun id).isSome then pure false
  else if purge then
    write (·.purgeArchives ids)
    modify fun w => { w with jobs := w.jobs.filter (·.id ∉ ids) }
    saveStore
    pure true
  else
    modify fun w => { w with jobs := w.jobs.map fun j => if j.id ∈ ids then j.archive now else j }
    saveStore
    pure true

/-! ## Shutdown -/

/-- A reservation whose task has not begun is made durable as a cancelled run. -/
def retireReservation (run : Run) : Section Unit := do
  let w ← read
  match w.job? run.jobId with
  | none => modify (·.retire run)
  | some job =>
    persistCancelledRun now run run.manual job.baseline job
    modify fun w => { w with announcing := w.announcing ++ [run.runId] }

def retireReservations : List Run → Section Unit
  | [] => pure ()
  | run :: rest => do
    retireReservation now run
    retireReservations rest

/-- The reservations no task has taken up. -/
def World.unowned (w : World) : List Run := (w.activeRuns.map (·.2)).filter fun run => (w.owner run.jobId).isNone

/-- `shutdown` up to its first await; the tasks it cancels after the grace period are cancelled one by one. -/
def shutdown : Section Unit := do
  modify fun w => { w with stopping := true }
  let w ← read
  retireReservations now w.unowned

/-- `shutdown` publishes one of the runs it retired, or is cancelled before it does. -/
def announce (run : Nat) (cancelled : Bool) : Section Unit := do
  let w ← read
  if run ∈ w.announcing then
    modify fun w => { w with announcing := w.announcing.filter (· ≠ run) }
    if cancelled then pure () else modify (·.note (.published run))
  else pure ()

end

/-! ## Runs -/

inductive Op where
  | start
  | stop
  | reload
  | shutdown
  | pass
  | reserve (jobId key : String) (force manual : Bool)
  /-- A detached task gets its first turn. -/
  | turn (run : Nat)
  /-- A detached task is cancelled before it. -/
  | drop (run : Nat)
  | runJob (key : String) (force : Bool)
  | resume (run : Nat) (o : Outcome)
  | cancel (run : Nat)
  | delivered (run : Nat) (cancelled : Bool)
  | announce (run : Nat) (cancelled : Bool)
  | add (job : NewJob)
  | enable (jobId : String) (enabled : Bool)
  | update (key : String) (u : Updates)
  | markDeliveryError (jobId : String) (error : Option Text)
  | updateDeliveryTarget (jobId : String)
  | remove (key : String) (purge : Bool)

def ignore {α : Type} (x : Section α) : Section Unit := x >>= fun _ => pure ()

def perform (host : Host) (now : Int) : Op → Section Unit
  | .start => start host now
  | .stop => modify fun w => { w with stopping := true }
  | .reload => reload host now
  | .shutdown => shutdown now
  | .pass => onTimer host now
  | .reserve jobId key force manual => reserveDetached host now jobId key force manual
  | .turn run => turn host now run
  | .drop run => modify fun w => (w.undetach run).note (.dropped run)
  | .runJob key force => runJob host now key force
  | .resume run o => withExecution run (resumeRun host now o)
  | .cancel run => withExecution run (cancelRun now)
  | .delivered run cancelled => endPublication host now run cancelled
  | .announce run cancelled => announce run cancelled
  | .add n =>
    match n.job host now with
    | .ok job => addJob host now job
    | .error _ => pure ()
  | .enable jobId enabled => ignore (enableJob host now jobId enabled)
  | .update key u => ignore (updateJob host now key u)
  | .markDeliveryError jobId error => ignore (markDeliveryError host now jobId error)
  | .updateDeliveryTarget jobId => ignore (updateDeliveryTarget host now jobId)
  | .remove key purge => ignore (removeJob host now key purge)

/-- What a task does at a time, whole or up to the death of the process after some of its writes. -/
structure Event where
  now : Int
  op : Op
  /-- The process dies after so many writes. -/
  dies : Option Nat := none

/-- The next process: it has the disk, and ids are not given twice. -/
def World.reboot (w : World) : World := { disk := w.disk, fresh := w.fresh, clock := w.clock }

def World.at_ (w : World) (now : Int) : World := { w with clock := now }

def step (host : Host) (w : World) (e : Event) : World :=
  match e.dies with
  | none => (perform host e.now e.op (w.at_ e.now)).store
  | some n => ((perform host e.now e.op).left (w.at_ e.now) n).reboot

def World.unused (w : World) (id : String) : Prop :=
  id ∉ w.jobs.map (·.id) ∧ id ∉ w.disk.jobs.map (·.id) ∧ id ∉ outputDirs w.disk

instance (w : World) (id : String) : Decidable (w.unused id) := by unfold World.unused; infer_instance

/-- The clock does not go back, and a new job's id is new. -/
def World.fits (w : World) (e : Event) : Prop :=
  w.clock ≤ e.now ∧ match e.op with | .add n => w.unused n.id | _ => True

instance (w : World) (e : Event) : Decidable (w.fits e) := by
  unfold World.fits
  split <;> infer_instance

namespace Sample

/-- A host with one zone and no cron expressions. -/
def host : Host where
  zone _ := true
  croniterError _ := none
  getNext _ _ _ _ := none
  runTime := id
  runTime_le _ := Int.le_refl _
  idText
    | .uuid n => String.ofList (List.replicate n 'f')
    | .legacy .. => "legacy"

def hourly : NewJob := { id := "a", name := "a", schedule := { kind := .every, everyMs := some 3600000 } }

end Sample

end Flowly.Cron
