/-
  Flowly.Cron.Rules — what the sections of the cron service do, act by act.

  A section is a few acts: the store is read, a job is edited and saved, a run is
  reserved, entered, begun, ended. `Rules` asks of an invariant, and of what must hold of
  the disk at every write, that each act keep them; `Rules.perform` is then every
  operation, and `Rules.step` every event. A proof about the service gives its `Rules`
  and never looks into a section.

  `Demands` is what a proof asks of the events: of a start, of the end of a run, of the
  first turn of a detached task.
-/

import Flowly.Cron.Service
import Flowly.Lib.Assoc

namespace Flowly.Cron

open Flowly.Lib Flowly.Lib.Durable

variable {host : Host}

theorem reconciled_id {disk : Disk} {j : CronJob} : (reconciled host disk j).id = j.id := by
  unfold reconciled
  split
  · unfold CronJob.reconcile
    split <;> rfl
  · rfl

theorem latestRecord_mem {disk : Disk} {id : String} {latest : RunRecord}
    (h : latestRecord host disk id = some latest) : latest ∈ unsortedRunRecords host disk id := by
  have hmem : latest ∈ readRunRecords host disk id := List.mem_of_mem_head? h
  exact (List.perm_insertionSort _ _).mem_iff.mp hmem

/-- An archive with a newest record is there. -/
theorem latestRecord_dir {disk : Disk} {id : String} {latest : RunRecord}
    (h : latestRecord host disk id = some latest) : id ∈ outputDirs disk := by
  refine List.mem_dedup.mpr ?_
  rcases List.mem_append.mp (latestRecord_mem h) with hr | hr
  · obtain ⟨hin, hrid⟩ := List.mem_filter.mp hr
    exact List.mem_append_right _ (List.mem_map.mpr ⟨latest, hin, by simpa using hrid⟩)
  · obtain ⟨t, ht, -⟩ := List.mem_map.mp hr
    obtain ⟨hin, htid⟩ := List.mem_filter.mp ht
    exact List.mem_append_left _ (List.mem_map.mpr ⟨t, hin, (by simpa using htid : _ ∧ _).1⟩)

/-! ## The end of a run -/

inductive Ending where
  /-- `on_job` failed, and a retry is to come. -/
  | retried (o : Outcome)
  | ended (o : Outcome)
  /-- `on_alert` is over. -/
  | alerted (completedAtMs : Int)
  | cancelled (base : Baseline)

namespace Ending

def completedAt (now : Int) : Ending → Int
  | .alerted completedAtMs => completedAtMs
  | _ => now

def failed : Ending → Bool
  | .ended o => o.failed
  | _ => true

def final (now : Int) (stopping : Bool) (run : Run) (manual : Bool) (job : CronJob) : Ending → CronJob
  | .retried o => (job.ran (.uuid run.runId) run.startedAtMs now o).retry now
  | .ended o =>
    let ran := job.ran (.uuid run.runId) run.startedAtMs now o
    let job := if o.failed then ran.fail else ran.succeed
    if manual then job else job.count (job.repeatCompleted + 1) now
  | .alerted completedAtMs => if manual then job else job.count (job.repeatCompleted + 1) completedAtMs
  | .cancelled base => job.cancelled (.uuid run.runId) run.startedAtMs now stopping manual base

/-- The run of this job can end so. -/
def fits (now : Int) (w : World) (run : Run) (manual : Bool) (job : CronJob) : Ending → Prop
  | .retried o => (∃ x ∈ w.owners, x.run = run ∧ x.manual = manual ∧ x.place = .running) ∧
      (job.ran (.uuid run.runId) run.startedAtMs now o).retries manual o = true
  | .ended o => (∃ x ∈ w.owners, x.run = run ∧ x.manual = manual ∧ x.place = .running) ∧
      (job.ran (.uuid run.runId) run.startedAtMs now o).retries manual o = false
  | .alerted completedAtMs => ∃ x ∈ w.owners, x.run = run ∧ x.manual = manual ∧ x.place = .alerting completedAtMs
  | .cancelled base => (∃ x ∈ w.owners, x.run = run ∧ x.manual = manual ∧ x.base = base) ∨
      w.owner run.jobId = none ∧ base = job.baseline

end Ending

inductive Follow where
  | nobody
  | publish (inPass raises : Bool)
  | announce

def World.follow (w : World) (run : Nat) : Follow → World
  | .nobody => w
  | .publish inPass raises => w.publish ⟨run, inPass, raises⟩
  | .announce => { w with announcing := w.announcing ++ [run] }

section

variable (now : Int) (run : Run) (manual : Bool) (e : Ending) (job : CronJob)

def World.transcribed (w : World) : World :=
  let final := e.final now w.stopping run manual job
  (w.put final).withTranscript ⟨final.id, final.name, run.startedAtMs, run.runId, e.failed⟩

def World.recorded (w : World) : World :=
  let final := e.final now w.stopping run manual job
  (w.transcribed now run manual e job).withRecord (final.record run.runId run.startedAtMs (e.completedAt now)) final

def World.over (w : World) : World :=
  ((w.recorded now run manual e job).saved.note (.persisted run.runId (e.final now w.stopping run manual job))).retire run

end

/-! ## Acts -/

def World.detach (w : World) (now : Int) (jobId key : String) (force manual : Bool) : World :=
  let w' := w.reserve now jobId manual
  { w' with detached := ⟨⟨jobId, w.fresh, now, manual⟩, key, force⟩ :: w'.detached }

def World.execute (w : World) (now : Int) (job : CronJob) (manual inPass : Bool) (pass : Option (List String)) : World :=
  World.enter { w.reserve now job.id manual with pass } ⟨job.id, w.fresh, now, manual⟩ manual inPass job.baseline

def World.advance (host : Host) (now : Int) (w : World) (job : CronJob) : World :=
  match advanced host now job with
  | some job => (w.put job).saved
  | none => w

def World.begin (w : World) (x : Execution) (job : CronJob) : World :=
  ((w.put { job with state.lastDeliveryError := none }).moveTo x .running).note (.called x.run.runId)

def World.alert (now : Int) (w : World) (x : Execution) (o : Outcome) (job : CronJob) : World :=
  (w.put { (job.ran (.uuid x.run.runId) x.run.startedAtMs now o).fail with state.lastAlertAtMs := some now }).moveTo x
    (.alerting now)

def World.archive (now : Int) (w : World) (ids : List String) : World :=
  { w with jobs := w.jobs.map fun j => if j.id ∈ ids then j.archive now else j }

def World.purge (w : World) (ids : List String) : World :=
  { w.purgeArchives ids with jobs := w.jobs.filter (·.id ∉ ids) }

inductive UserEdit (host : Host) (now : Int) : (CronJob → Edit) → Prop
  | enable (enabled : Bool) : UserEdit host now (CronJob.enable host now enabled)
  | update (u : Updates) : UserEdit host now (CronJob.update host now u)
  | delivery (error : Option Text) : UserEdit host now (CronJob.markDeliveryError error)
  | target : UserEdit host now (CronJob.updateDeliveryTarget now)

structure Demands where
  /-- Of the world whose due times a start or a reload computes again. -/
  start : World → Prop := fun _ => True
  /-- Of the world in which a reload reads the store again. -/
  reread : World → Prop := fun _ => True
  /-- Of a job that is added. -/
  add : NewJob → Prop := fun _ => True
  ending : World → Run → Bool → Ending → Prop := fun _ _ _ _ => True
  /-- Of the end of `on_job` before an alert. -/
  alert : World → Run → Prop := fun _ _ => True
  /-- Of the world a detached task finds at its first turn. -/
  turn : World → Detached → Prop := fun _ _ => True

/-- Each act keeps `J`, and leaves `I` at each of its writes, in a world with `G`. -/
structure Rules (host : Host) (now : Int) (G : World → Prop) (D : Demands) (I J : World → Prop) : Prop where
  /-- A job has one active run, under its id. -/
  keys : ∀ {w}, G w → J w → (w.activeRuns.map (·.1)).Nodup ∧ ∀ a ∈ w.activeRuns, a.2.jobId = a.1
  /-- A service that has not loaded its store has nothing under way. -/
  idle : ∀ {w}, G w → J w → w.loaded = false → w.pass = none ∧ w.activeRuns = [] ∧ w.owners = []
  unique : ∀ {w}, G w → J w → (w.jobs.map (·.id)).Nodup
  known : ∀ {w a}, G w → J w → a ∈ w.activeRuns → ∃ job, w.job? a.1 = some job
  held : ∀ {w x}, G w → J w → x ∈ w.owners → w.holds x.run
  stopping : ∀ {w} b, G w → J w → J { w with stopping := b }
  load_quiet : ∀ {w}, G w → J w → w.loaded = false →
    recoveryChanges host w.disk (w.disk.jobs.map CronJob.read) = false → J (w.readFrom host now)
  load_saved : ∀ {w}, G w → J w → w.loaded = false →
    recoveryChanges host w.disk (w.disk.jobs.map CronJob.read) = true →
    I (w.readFrom host now).saved ∧ J (w.readFrom host now).saved
  restart : ∀ {w}, G w → J w → w.loaded = true → D.start w → I (w.recomputed host now).saved ∧ J (w.recomputed host now).saved
  reread : ∀ {w}, G w → J w → w.loaded = true → D.reread w →
    recoveryChanges host w.disk (w.disk.jobs.map CronJob.read) = true → I (w.readFrom host now).saved
  reload : ∀ {w}, G w → J w → w.loaded = true → D.reread w → D.start ((w.readFrom host now).keeping w) →
    I (((w.readFrom host now).keeping w).recomputed host now).saved ∧
      J (((w.readFrom host now).keeping w).recomputed host now).saved
  edit_kept : ∀ {w job edit job'}, G w → J w → w.loaded = true → job ∈ w.jobs → UserEdit host now edit →
    (edit job = .kept job' ∨ ∃ m, edit job = .refused job' m) → J (w.put job')
  edit_stored : ∀ {w job edit job'}, G w → J w → w.loaded = true → job ∈ w.jobs → UserEdit host now edit →
    edit job = .stored job' → I (w.put job').saved ∧ J (w.put job').saved
  edit_set : ∀ {w job edit job' hand}, G w → J w → w.loaded = true → job ∈ w.jobs → UserEdit host now edit →
    edit job = .set job' hand → I ((w.put job').noteSet job' hand).saved ∧ J ((w.put job').noteSet job' hand).saved
  archive : ∀ {w ids}, G w → J w → w.loaded = true → (∀ id ∈ ids, w.activeRun id = none) →
    I (w.archive now ids).saved ∧ J (w.archive now ids).saved
  purge : ∀ {w ids}, G w → J w → w.loaded = true → (∀ id ∈ ids, w.activeRun id = none) →
    I (w.purgeArchives ids) ∧ I (w.purge ids).saved ∧ J (w.purge ids).saved
  add : ∀ {w} {n : NewJob} {job}, G w → J w → w.loaded = true → D.add n → n.job host now = .ok job →
    (∀ j ∈ w.jobs, j.id ≠ n.id) → n.id ∉ outputDirs w.disk → I (World.saved { w with jobs := w.jobs ++ [job] }) ∧
      J (World.saved { w with jobs := w.jobs ++ [job] })
  detach : ∀ {w job key force manual}, G w → J w → w.loaded = true → w.stopping = false → job ∈ w.jobs →
    w.activeRun job.id = none → J (w.detach now job.id key force manual)
  drop : ∀ {w run}, G w → J w → J ((w.undetach run).note (.dropped run))
  turn_leaves : ∀ {w d}, G w → J w → d ∈ w.detached → D.turn w d →
    (¬ w.holds d.run ∨ ∀ job, w.find d.key = some job → admits d.force job → d.run.jobId ≠ job.id) →
    J (w.undetach d.run.runId)
  turn_enters : ∀ {w d job}, G w → J w → w.loaded = true → w.stopping = false → d ∈ w.detached → w.holds d.run →
    job ∈ w.jobs → d.run.jobId = job.id → J ((w.undetach d.run.runId).enter d.run true false job.baseline)
  turn_ends : ∀ {w d job}, G w → J w → w.loaded = true → w.stopping = true → d ∈ w.detached → w.holds d.run →
    w.job? d.run.jobId = some job → D.ending w d.run true (.cancelled job.baseline) →
    let w' := w.undetach d.run.runId
    I (w'.transcribed now d.run true (.cancelled job.baseline) job) ∧
      I (w'.recorded now d.run true (.cancelled job.baseline) job) ∧
      I (w'.recorded now d.run true (.cancelled job.baseline) job).saved ∧
      J ((w'.over now d.run true (.cancelled job.baseline) job).follow d.run.runId (.publish false false))
  execute : ∀ {w job}, G w → J w → w.loaded = true → w.stopping = false → job ∈ w.jobs → w.activeRun job.id = none →
    J (w.execute now job true false w.pass)
  fire : ∀ {w job rest}, G w → J w → w.loaded = true → w.stopping = false → w.job? job.id = some job → job.due now →
    w.activeRun job.id = none → ((advanced host now job).isSome → I (w.advance host now job)) ∧
      J ((w.advance host now job).execute now ((advanced host now job).getD job) false true (some rest))
  forward_quiet : ∀ {w}, G w → J w → w.loaded = true → (∀ j ∈ w.jobs, j.fastForward host now = none) →
    J (w.forward host now)
  forward_saved : ∀ {w}, G w → J w → w.loaded = true → I (w.forward host now).saved ∧ J (w.forward host now).saved
  endPass : ∀ {w}, G w → J w → w.loaded = true → I w.saved ∧ J { w.saved with pass := none }
  abandonPass : ∀ {w}, G w → J w → J { w with pass := none }
  begin : ∀ {w x job}, G w → J w → w.loaded = true → x ∈ w.owners → x.place = .starting → w.job? x.run.jobId = some job → J (w.begin x job)
  alert : ∀ {w x o job}, G w → J w → w.loaded = true → x ∈ w.owners → x.place = .running → w.job? x.run.jobId = some job → o.failed = true →
    D.alert w x.run → (job.ran (.uuid x.run.runId) x.run.startedAtMs now o).retries x.manual o = false → J (w.alert now x o job)
  ends : ∀ {w run manual e job follow}, G w → J w → w.loaded = true → w.job? run.jobId = some job → w.holds run →
    e.fits now w run manual job → D.ending w run manual e →
    (follow = .nobody → ∃ o, e = .retried o) →
    I (w.transcribed now run manual e job) ∧ I (w.recorded now run manual e job) ∧
      I (w.recorded now run manual e job).saved ∧ J ((w.over now run manual e job).follow run.runId follow)
  /-- The end of one run leaves what is asked of the end of another. -/
  spares : ∀ {w run manual e job run' manual' base'}, G w → J w → w.job? run.jobId = some job → run.jobId ≠ run'.jobId →
    D.ending w run' manual' (.cancelled base') →
    D.ending ((w.over now run manual e job).follow run.runId .announce) run' manual' (.cancelled base')
  delivered : ∀ {w run}, G w → J w → J { w with publishing := w.publishing.filter (·.run ≠ run) }
  unannounced : ∀ {w run}, G w → J w → J { w with announcing := w.announcing.filter (· ≠ run) }
  announced : ∀ {w run}, G w → J w → run ∈ w.announcing →
    J (World.note { w with announcing := w.announcing.filter (· ≠ run) } (.published run))

/-! ## Operations -/

/-- The world with its store loaded. -/
def World.ready (host : Host) (now : Int) (w : World) : World :=
  if w.loaded then w
  else if recoveryChanges host w.disk (w.disk.jobs.map CronJob.read) then (w.readFrom host now).saved
  else w.readFrom host now

variable {w : World} {now : Int}

@[simp] theorem World.ready_loaded : (w.ready host now).loaded = true := by
  unfold World.ready
  split
  · assumption
  · split <;> rfl

@[simp] theorem World.ready_stopping :
    (w.ready host now).stopping = w.stopping := by
  unfold World.ready
  split <;> [rfl; split <;> rfl]

@[simp] theorem World.ready_detached :
    (w.ready host now).detached = w.detached := by
  unfold World.ready
  split <;> [rfl; split <;> rfl]

@[simp] theorem World.ready_activeRuns :
    (w.ready host now).activeRuns = w.activeRuns := by
  unfold World.ready
  split <;> [rfl; split <;> rfl]

theorem World.ready_outputDirs :
    outputDirs (w.ready host now).disk = outputDirs w.disk := by
  unfold World.ready
  split <;> [rfl; split <;> rfl]

theorem World.job?_mem {id : String} {job : CronJob} (h : w.job? id = some job) : job ∈ w.jobs :=
  List.mem_of_find?_eq_some h

theorem World.job?_of_mem {job : CronJob} (hu : (w.jobs.map (·.id)).Nodup) (h : job ∈ w.jobs) :
    w.job? job.id = some job := by
  cases hj : w.job? job.id with
  | none => simpa using List.find?_eq_none.mp hj job h
  | some job' =>
    have hid : job'.id = job.id := by simpa using List.find?_some hj
    rw [List.inj_on_of_nodup_map hu (List.mem_of_find?_eq_some hj) h hid]

theorem World.put_job? {job : CronJob} {id : String} :
    (w.put job).job? id = if id = job.id then (w.job? id).map fun _ => job else w.job? id := by
  unfold World.put World.job?
  have hp : ((fun j : CronJob => decide (j.id = id)) ∘ fun j => if j.id = job.id then job else j) =
      fun j => decide (j.id = id) := by
    funext j
    by_cases h : j.id = job.id <;> simp [h]
  simp only [List.find?_map, hp]
  cases hj : w.jobs.find? fun j => decide (j.id = id) with
  | none => simp
  | some j =>
    have hid : j.id = id := by simpa using List.find?_some hj
    subst hid
    by_cases h : j.id = job.id <;> simp [h]

theorem World.put_mem {job j : CronJob} (hj : j ∈ (w.put job).jobs) :
    j = job ∨ j ∈ w.jobs ∧ j.id ≠ job.id := by
  obtain ⟨j', hj', rfl⟩ := List.mem_map.mp hj
  split
  · exact .inl rfl
  · next hne => exact .inr ⟨hj', hne⟩

theorem World.job?_id {id : String} {job : CronJob} (h : w.job? id = some job) : job.id = id := by
  simpa using List.find?_some h

/-- How the run of `x` ends when what it waits for is there; none when it goes on. -/
def World.endingOf (now : Int) (x : Execution) (job : CronJob) (o : Outcome) : Option Ending :=
  let ran := job.ran (.uuid x.run.runId) x.run.startedAtMs now o
  match x.place with
  | .starting => none
  | .running =>
    if ran.retries x.manual o then some (.retried o)
    else if o.failed ∧ ran.fail.alerts now then none
    else some (.ended o)
  | .alerting completedAtMs => some (.alerted completedAtMs)

/-- The runs an operation ends, each with whether it is manual and how it ends. -/
def World.endings (w : World) (now : Int) : Op → List (Run × Bool × Ending)
  | .resume run o => ((w.execution run).bind fun xj =>
      (World.endingOf now xj.1 xj.2 o).map fun e => (xj.1.run, xj.1.manual, e)).toList
  | .cancel run => ((w.execution run).map fun xj => (xj.1.run, xj.1.manual, .cancelled xj.1.base)).toList
  | .shutdown => w.unowned.filterMap fun run =>
      (w.job? run.jobId).map fun job => (run, run.manual, .cancelled job.baseline)
  | .turn run =>
    if w.stopping then
      ((w.detached.find? (·.run.runId = run)).bind fun d =>
        (w.job? d.run.jobId).map fun job => (d.run, true, .cancelled job.baseline)).toList
    else []
  | _ => []

def Demands.meets (D : Demands) (host : Host) (now : Int) (w : World) : Op → Prop
  | .start => D.start (World.ready host now { w with stopping := false })
  | .reload => D.reread (w.ready host now) ∧
      D.start (((w.ready host now).readFrom host now).keeping (w.ready host now))
  | .shutdown => ∀ run ∈ w.unowned, ∀ job, w.job? run.jobId = some job →
      D.ending { w with stopping := true } run run.manual (.cancelled job.baseline)
  | .turn run => ∀ d, w.detached.find? (·.run.runId = run) = some d →
      D.turn (w.ready host now) d ∧ (w.stopping = true → (w.ready host now).holds d.run →
        ∀ job, (w.ready host now).job? d.run.jobId = some job →
          D.ending (w.ready host now) d.run true (.cancelled job.baseline))
  | .resume run o => ∀ x job, w.execution run = some (x, job) →
      (∀ e, World.endingOf now x job o = some e → D.ending w x.run x.manual e) ∧
        (x.place = .running → World.endingOf now x job o = none → D.alert w x.run)
  | .cancel run => ∀ x job, w.execution run = some (x, job) → D.ending w x.run x.manual (.cancelled x.base)
  | .add n => w.unused n.id ∧ D.add n
  | _ => True

section

variable {host : Host} {now : Int} {I : World → Prop} {w : World}

variable {Q : Unit → World → Prop}

theorem safe_saveWhen {changed : Bool} (ht : changed = true → I w.saved ∧ Q () w.saved)
    (hf : changed = false → Q () w) : Safe I (saveWhen changed) w Q := by
  unfold saveWhen
  cases changed with
  | true => exact .write (ht rfl).1 (ht rfl).2
  | false => exact .pure (hf rfl)

variable {job : CronJob}

theorem safe_persist {run : Run} {manual : Bool} {e : Ending}
    (hT : I (w.transcribed now run manual e job)) (hR : I (w.recorded now run manual e job))
    (hS : I (w.recorded now run manual e job).saved) (hQ : Q () (w.over now run manual e job)) :
    Safe I (persist (e.final now w.stopping run manual job) run (e.completedAt now) e.failed) w Q :=
  .modify_bind (.bind (.write_bind hT (.write hR (.write_bind hS (.modify hQ)))))

theorem advanced_id {job job' : CronJob} (h : advanced host now job = some job') : job'.id = job.id := by
  unfold advanced at h
  split at h
  · cases h
  · split at h
    · split at h
      · cases h
      · cases h
        rfl
    · cases h

theorem advanced_getD_id : ((advanced host now job).getD job).id = job.id := by
  cases h : advanced host now job with
  | none => rfl
  | some job' => exact advanced_id h

theorem World.reserve_holds {id : String} {manual : Bool} (h : w.activeRun id = none) :
    (w.reserve now id manual).holds ⟨id, w.fresh, now, manual⟩ := by
  have hlookup : (w.activeRuns ++ [(id, (⟨id, w.fresh, now, manual⟩ : Run))]).lookup id =
      some ⟨id, w.fresh, now, manual⟩ := by
    rw [List.lookup_append, show w.activeRuns.lookup id = none from h]
    simp
  show ((w.activeRuns ++ [(id, (⟨id, w.fresh, now, manual⟩ : Run))]).lookup id).map (·.runId) = _
  rw [hlookup]
  rfl

theorem safe_executeJob {run : Run} {manual inPass : Bool}
    (hs : w.stopping = false) (h : w.holds run) (hQ : Q () (w.enter run manual inPass job.baseline)) :
    Safe I (executeJob now job run manual inPass) w Q := by
  unfold executeJob
  refine .read_bind ?_
  rw [if_neg (not_not.mpr h), if_neg (by simp [hs])]
  exact .modify hQ

theorem safe_reserveRun {id : String} {manual : Bool} {Q : Option Run → World → Prop} (hs : w.stopping = false)
    (h : w.activeRun id = none) (hQ : Q (some ⟨id, w.fresh, now, manual⟩) (w.reserve now id manual)) :
    Safe I (reserveRun now id manual) w Q := by
  unfold reserveRun
  refine .read_bind ?_
  rw [if_neg (by simp [hs, h])]
  exact .modify_bind (.pure hQ)

theorem safe_reserveRun_refused {id : String} {manual : Bool} {Q : Option Run → World → Prop}
    (h : ¬ (w.stopping = false ∧ w.activeRun id = none)) (hQ : Q none w) : Safe I (reserveRun now id manual) w Q := by
  unfold reserveRun
  refine .read_bind ?_
  rw [if_pos]
  · exact .pure hQ
  · by_contra hno
    obtain ⟨hstop, hrun⟩ := not_or.mp hno
    exact h ⟨by simpa using hstop, by simpa using hrun⟩

theorem safe_advanceNextRun
    (hI : (advanced host now job).isSome → I (w.advance host now job)) (hQ : Q () (w.advance host now job)) :
    Safe I (advanceNextRun host now job) w Q := by
  unfold advanceNextRun
  unfold World.advance at hI hQ
  cases h : advanced host now job with
  | none =>
    rw [h] at hQ
    exact .pure hQ
  | some job' =>
    rw [h] at hI hQ
    exact .modify_bind (.write (hI rfl) hQ)

theorem World.advance_stopping : (w.advance host now job).stopping = w.stopping := by
  unfold World.advance
  split <;> rfl

theorem World.advance_activeRuns : (w.advance host now job).activeRuns = w.activeRuns := by
  unfold World.advance
  split <;> rfl

end

section

variable {host : Host} {now : Int} {D : Demands} {I J : World → Prop} (R : Rules host now (fun _ => True) D I J) {w : World}

include R

theorem Rules.loadStore {Q : Unit → World → Prop} (hJ : J w) (hQ : J (w.ready host now) → Q () (w.ready host now)) :
    Safe I (loadStore host now) w Q := by
  unfold Cron.loadStore
  refine .read_bind ?_
  cases hl : w.loaded with
  | true =>
    have hready : w.ready host now = w := if_pos hl
    rw [hready] at hQ
    exact .pure (hQ hJ)
  | false =>
    rw [if_neg (by simp)]
    refine .read_bind (.modify_bind (safe_saveWhen (fun hc => ?_) fun hc => ?_))
    · have hready : w.ready host now = (w.readFrom host now).saved := by simp [World.ready, hl, hc]
      rw [hready] at hQ
      obtain ⟨hI, hJ'⟩ := R.load_saved trivial hJ hl hc
      exact ⟨hI, hQ hJ'⟩
    · have hready : w.ready host now = w.readFrom host now := by simp [World.ready, hl, hc]
      rw [hready] at hQ
      exact hQ (R.load_quiet trivial hJ hl hc)

theorem Rules.start (hJ : J w) (hD : D.start (World.ready host now { w with stopping := false })) :
    Safe I (start host now) w fun _ => J := by
  refine .modify_bind (.bind (R.loadStore (R.stopping false trivial hJ) fun hJ' => ?_))
  obtain ⟨hI, hJ''⟩ := R.restart trivial hJ' World.ready_loaded hD
  exact .modify_bind (.write hI hJ'')

theorem Rules.reload' (hJ : J w) (hre : D.reread (w.ready host now))
    (hD : D.start (((w.ready host now).readFrom host now).keeping (w.ready host now))) :
    Safe I (Cron.reload host now) w fun _ => J := by
  refine .bind (R.loadStore hJ fun hJ' => .read_bind (.bind ?_))
  obtain ⟨hI, hJ''⟩ := R.reload trivial hJ' World.ready_loaded hre hD
  refine .read_bind (.modify_bind (safe_saveWhen (fun hc => ⟨?_, .modify_bind (.write hI hJ'')⟩) fun _ => ?_))
  · exact R.reread trivial hJ' World.ready_loaded hre hc
  · exact .modify_bind (.write hI hJ'')

theorem Rules.editJob {select : World → Option CronJob} {edit : CronJob → Edit} (hJ : J w)
    (hs : ∀ {w job}, select w = some job → job ∈ w.jobs) (he : UserEdit host now edit) :
    Safe I (editJob host now select edit) w fun _ => J := by
  refine .bind (R.loadStore hJ fun hJ' => .read_bind ?_)
  cases hj : select (w.ready host now) with
  | none => exact .pure hJ'
  | some job =>
    have hm := hs hj
    dsimp only
    cases hedit : edit job with
    | kept job' => exact .modify_bind (.pure (R.edit_kept trivial hJ' World.ready_loaded hm he (.inl hedit)))
    | refused job' m => exact .modify_bind (.pure (R.edit_kept trivial hJ' World.ready_loaded hm he (.inr ⟨m, hedit⟩)))
    | stored job' =>
      obtain ⟨hI, hJ''⟩ := R.edit_stored trivial hJ' World.ready_loaded hm he hedit
      exact .modify_bind (.write_bind hI (.pure hJ''))
    | set job' hand =>
      obtain ⟨hI, hJ''⟩ := R.edit_set trivial hJ' World.ready_loaded hm he hedit
      exact .modify_bind (.write_bind hI (.pure hJ''))

variable {job : CronJob}

theorem Rules.addJob {n : NewJob} (hJ : J w) (hD : D.add n) (hn : n.job host now = .ok job)
    (hu : ∀ j ∈ (w.ready host now).jobs, j.id ≠ n.id) (hdir : n.id ∉ outputDirs (w.ready host now).disk) :
    Safe I (addJob host now job) w fun _ => J := by
  refine .bind (R.loadStore hJ fun hJ' => .modify_bind ?_)
  obtain ⟨hI, hJ''⟩ := R.add trivial hJ' World.ready_loaded hD hn hu hdir
  exact .write hI hJ''

theorem Rules.removeJob {key : String} {purge : Bool} (hJ : J w) : Safe I (removeJob host now key purge) w fun _ => J := by
  refine .bind (R.loadStore hJ fun hJ' => .read_bind ?_)
  dsimp only
  split
  · exact .pure hJ'
  · next hids =>
    have hidle : ∀ id ∈ (((w.ready host now).jobs.filter fun j => j.id = key ∨ j.name = key).map (·.id)),
        (w.ready host now).activeRun id = none := by
      intro id hid
      by_contra hrun
      exact hids (.inr (List.any_eq_true.mpr ⟨id, hid, by simpa [Option.isSome_iff_ne_none] using hrun⟩))
    split
    · obtain ⟨hI, hI', hJ''⟩ := R.purge trivial hJ' World.ready_loaded hidle
      exact .write_bind hI (.modify_bind (.write_bind hI' (.pure hJ'')))
    · obtain ⟨hI, hJ''⟩ := R.archive trivial hJ' World.ready_loaded hidle
      exact .modify_bind (.write_bind hI (.pure hJ''))

/-! ### Passes -/

theorem Rules.runDue : ∀ (ids : List String) {w : World}, J w → w.loaded = true →
    Safe I (runDue host now ids) w fun _ => J := by
  intro ids
  induction ids with
  | nil =>
    intro w hJ hl
    obtain ⟨hI, hJ'⟩ := R.endPass trivial hJ hl
    exact .write_bind hI (.modify hJ')
  | cons id rest ih =>
    intro w hJ hl
    unfold Cron.runDue
    refine .read_bind ?_
    split
    · obtain ⟨hI, hJ'⟩ := R.endPass trivial hJ hl
      exact .write_bind hI (.modify hJ')
    · next hstop =>
      have hstop' : w.stopping = false := by simpa using hstop
      cases hj : w.job? id with
      | none => exact ih hJ hl
      | some job =>
        dsimp only
        split
        · exact ih hJ hl
        · next hdue =>
          obtain ⟨hd, hrun⟩ := not_or.mp hdue
          have hid : job.id = id := World.job?_id hj
          have hrun' : w.activeRun job.id = none := by simpa using hrun
          have hfire : _ ∧ J ((w.advance host now job).execute now ((advanced host now job).getD job) false true (some rest)) :=
            R.fire trivial hJ hl hstop' (hid ▸ hj) (not_not.mp hd) hrun'
          obtain ⟨hI, hJ'⟩ := hfire
          refine .bind (safe_advanceNextRun hI ?_)
          have hnone : (w.advance host now job).activeRun job.id = none := by
            show (w.advance host now job).activeRuns.lookup job.id = none
            rw [World.advance_activeRuns]
            exact hrun'
          have hgo : (w.advance host now job).stopping = false := World.advance_stopping.trans hstop'
          refine .bind (safe_reserveRun hgo hnone (.modify_bind (safe_executeJob hgo ?_ ?_)))
          · exact World.reserve_holds hnone
          · unfold World.execute at hJ'
            rw [advanced_getD_id] at hJ'
            exact hJ'

theorem Rules.resumePass {inPass : Bool} (hJ : J w) : Safe I (resumePass host now inPass) w fun _ => J := by
  refine .read_bind ?_
  split
  · next rest hrest =>
    refine R.runDue rest hJ ?_
    by_contra hl
    have := (R.idle trivial hJ (by simpa using hl)).1
    rw [hrest] at this
    cases this
  · exact .pure hJ

theorem Rules.onTimer (hJ : J w) : Safe I (onTimer host now) w fun _ => J := by
  refine .read_bind ?_
  split
  · exact .pure hJ
  · next hgo =>
    have hl : w.loaded = true := by simpa using (not_or.mp hgo).2
    refine .read_bind (.modify_bind (.bind (safe_saveWhen (fun _ => ?_) fun hlate => ?_)))
    · obtain ⟨hI, hJ'⟩ := R.forward_saved trivial hJ hl
      exact ⟨hI, R.runDue _ hJ' hl⟩
    · have hnone : ∀ j ∈ w.jobs, j.fastForward host now = none := by
        intro j hj
        simpa using List.any_eq_false.mp hlate j hj
      exact R.runDue _ (R.forward_quiet trivial hJ hl hnone) hl

/-! ### The runs -/

variable {x : Execution}

theorem Rules.loaded_of_owner (hJ : J w) (hx : x ∈ w.owners) : w.loaded = true := by
  by_contra hl
  rw [(R.idle trivial hJ (by simpa using hl)).2.2] at hx
  exact List.not_mem_nil hx

theorem Rules.persist {run : Run} {manual : Bool} {Q : Unit → World → Prop} (e : Ending) (follow : Follow)
    (hJ : J w) (hl : w.loaded = true) (hj : w.job? run.jobId = some job) (hh : w.holds run)
    (hf : e.fits now w run manual job) (hD : D.ending w run manual e) (hfollow : follow = .nobody → ∃ o, e = .retried o)
    (hQ : J ((w.over now run manual e job).follow run.runId follow) → Q () (w.over now run manual e job)) :
    Safe I (persist (e.final now w.stopping run manual job) run (e.completedAt now) e.failed) w Q := by
  obtain ⟨hT, hR, hS, hJ'⟩ := R.ends trivial hJ hl hj hh hf hD hfollow
  exact safe_persist hT hR hS (hQ hJ')

omit R in
theorem completeRun_retried (o : Outcome) (stopping : Bool) :
    completeRun host now x ((job.ran (.uuid x.run.runId) x.run.startedAtMs now o).retry now) now true true =
      (do persist ((Ending.retried o).final now stopping x.run x.manual job) x.run now true
          resumePass host now x.inPass) := by
  unfold completeRun
  rw [if_pos (.inr rfl)]
  rfl

omit R in
theorem completeRun_ended (o : Outcome) (stopping : Bool) :
    (let ran := job.ran (.uuid x.run.runId) x.run.startedAtMs now o
     completeRun host now x (if o.failed then ran.fail else ran.succeed) now false o.failed) =
      (do persist ((Ending.ended o).final now stopping x.run x.manual job) x.run now o.failed
          modify (·.publish ⟨x.run.runId, x.inPass, false⟩)) := by
  unfold completeRun
  simp only [Bool.false_eq_true, or_false, if_false]
  rfl

omit R in
theorem completeRun_alerted (completedAtMs : Int) (stopping : Bool) :
    completeRun host now x job completedAtMs false true =
      (do persist ((Ending.alerted completedAtMs).final now stopping x.run x.manual job) x.run completedAtMs true
          modify (·.publish ⟨x.run.runId, x.inPass, false⟩)) := by
  unfold completeRun
  simp only [Bool.false_eq_true, or_false, if_false]
  rfl

theorem Rules.endBody {o : Outcome} (hJ : J w) (hx : x ∈ w.owners) (hp : x.place = .running)
    (hj : w.job? x.run.jobId = some job)
    (hD : ∀ e, World.endingOf now x job o = some e → D.ending w x.run x.manual e)
    (hA : World.endingOf now x job o = none → D.alert w x.run) :
    Safe I (endBody host now x o job) w fun _ => J := by
  have hl := R.loaded_of_owner hJ hx
  have hh := R.held trivial hJ hx
  unfold World.endingOf at hD hA
  rw [hp] at hD hA
  dsimp only at hD hA
  have hended : (job.ran (.uuid x.run.runId) x.run.startedAtMs now o).retries x.manual o = false →
      D.ending w x.run x.manual (.ended o) → Safe I
        (let ran := job.ran (.uuid x.run.runId) x.run.startedAtMs now o
         completeRun host now x (if o.failed then ran.fail else ran.succeed) now false o.failed) w fun _ => J := by
    intro hr hd
    rw [completeRun_ended o w.stopping]
    exact .bind (R.persist (.ended o) (.publish x.inPass false) hJ hl hj hh ⟨⟨x, hx, rfl, rfl, hp⟩, hr⟩ hd
      (fun h => by cases h) fun h => .modify h)
  unfold Cron.endBody
  dsimp only at hended ⊢
  split
  · next hr =>
    rw [if_pos hr] at hD
    rw [completeRun_retried o w.stopping]
    exact .bind (R.persist (.retried o) .nobody hJ hl hj hh ⟨⟨x, hx, rfl, rfl, hp⟩, hr⟩ (hD _ rfl) (fun _ => ⟨o, rfl⟩)
      R.resumePass)
  · next hr =>
    have hr' := Bool.eq_false_iff.mpr hr
    rw [if_neg hr] at hD hA
    split
    · next ho =>
      rw [if_neg (by simp [ho])] at hD
      have := hended hr' (hD _ rfl)
      rw [ho] at this
      exact this
    · next ho =>
      have ho' : o.failed = true := by simpa using ho
      split
      · next hal => exact .modify (R.alert trivial hJ hl hx hp hj ho' (hA (if_pos ⟨ho', hal⟩)) hr')
      · next hal =>
        rw [if_neg (by simp [hal])] at hD
        have := hended hr' (hD _ rfl)
        rw [ho'] at this
        exact this

theorem Rules.resumeRun {o : Outcome} (hJ : J w) (hx : x ∈ w.owners) (hj : w.job? x.run.jobId = some job)
    (hD : ∀ e, World.endingOf now x job o = some e → D.ending w x.run x.manual e)
    (hA : x.place = .running → World.endingOf now x job o = none → D.alert w x.run) :
    Safe I (resumeRun host now o x job) w fun _ => J := by
  have hl := R.loaded_of_owner hJ hx
  have hh := R.held trivial hJ hx
  unfold Cron.resumeRun
  cases hp : x.place with
  | starting => exact .modify (R.begin trivial hJ hl hx hp hj)
  | running => exact R.endBody hJ hx hp hj hD (hA hp)
  | alerting completedAtMs =>
    have hd := hD (.alerted completedAtMs) (by simp [World.endingOf, hp])
    dsimp only
    rw [completeRun_alerted completedAtMs w.stopping]
    exact .bind (R.persist (.alerted completedAtMs) (.publish x.inPass false) hJ hl hj hh ⟨x, hx, rfl, rfl, hp⟩ hd
      (fun h => by cases h) fun h => .modify h)

theorem Rules.cancelRun (hJ : J w) (hx : x ∈ w.owners)
    (hj : w.job? x.run.jobId = some job) (hD : D.ending w x.run x.manual (.cancelled x.base)) :
    Safe I (cancelRun now x job) w fun _ => J :=
  .bind (.read_bind (R.persist (.cancelled x.base) (.publish x.inPass true) hJ (R.loaded_of_owner hJ hx) hj
    (R.held trivial hJ hx) (.inl ⟨x, hx, rfl, rfl, rfl⟩) hD (fun h => by cases h) fun h => .modify h))

omit R in
theorem safe_withExecution {run : Nat} {act : Execution → CronJob → Section Unit} (hJ : J w)
    (hact : ∀ x job, w.execution run = some (x, job) → x ∈ w.owners → w.job? x.run.jobId = some job →
      Safe I (act x job) w fun _ => J) : Safe I (withExecution run act) w fun _ => J := by
  refine .read_bind ?_
  cases hx : w.execution run with
  | none => exact .pure hJ
  | some xj =>
    obtain ⟨x, hfind, hmap⟩ := Option.bind_eq_some_iff.mp hx
    obtain ⟨job, hjob, rfl⟩ := Option.map_eq_some_iff.mp hmap
    exact hact x job hx (List.mem_of_find?_eq_some hfind) hjob

theorem Rules.endPublication {run : Nat} {cancelled : Bool} (hJ : J w) :
    Safe I (endPublication host now run cancelled) w fun _ => J := by
  refine .read_bind ?_
  cases w.publishing.find? (·.run = run) with
  | none => exact .pure hJ
  | some p =>
    have hJ' : J { w with publishing := w.publishing.filter (·.run ≠ run) } := R.delivered trivial hJ
    refine .modify_bind ?_
    split
    · exact .modify (R.abandonPass trivial hJ')
    · exact R.resumePass hJ'

/-! ### Reservations -/

theorem Rules.reserveDetached {jobId key : String} {force manual : Bool} (hJ : J w) :
    Safe I (reserveDetached host now jobId key force manual) w fun _ => J := by
  refine .bind (R.loadStore hJ fun hJ' => .read_bind ?_)
  cases hj : (w.ready host now).job? jobId with
  | none => exact .pure hJ'
  | some job =>
    by_cases hgo : (w.ready host now).stopping = false ∧ (w.ready host now).activeRun job.id = none
    · refine .bind (safe_reserveRun hgo.1 hgo.2 (.modify ?_))
      exact R.detach trivial hJ' World.ready_loaded hgo.1 (World.job?_mem hj) hgo.2
    · exact .bind (safe_reserveRun_refused hgo (.pure hJ'))

theorem Rules.runJob {key : String} {force : Bool} (hJ : J w) : Safe I (runJob host now key force) w fun _ => J := by
  refine .bind (R.loadStore hJ fun hJ' => .read_bind ?_)
  cases hj : (w.ready host now).find key with
  | none => exact .pure hJ'
  | some job =>
    dsimp only
    split
    · exact .pure hJ'
    · by_cases hgo : (w.ready host now).stopping = false ∧ (w.ready host now).activeRun job.id = none
      · refine .bind (safe_reserveRun hgo.1 hgo.2 (safe_executeJob hgo.1 (World.reserve_holds hgo.2) ?_))
        exact R.execute trivial hJ' World.ready_loaded hgo.1 (List.mem_of_find?_eq_some hj) hgo.2
      · exact .bind (safe_reserveRun_refused hgo (.pure hJ'))

theorem Rules.runReserved {d : Detached} (hJ : J w) (hl : w.loaded = true) (hmem : d ∈ w.detached) (hturn : D.turn w d)
    (hend : w.stopping = true → w.holds d.run → ∀ job, w.job? d.run.jobId = some job →
      D.ending w d.run true (.cancelled job.baseline)) :
    Safe I (runReserved now d) (w.undetach d.run.runId) fun _ => J := by
  have hleaves := R.turn_leaves trivial hJ hmem hturn
  unfold Cron.runReserved
  refine .read_bind ?_
  have hfind : (w.undetach d.run.runId).find d.key = w.find d.key := rfl
  rw [hfind]
  cases hj : w.find d.key with
  | none => exact .pure (hleaves (.inr fun job hjob => by rw [hj] at hjob; cases hjob))
  | some job =>
    dsimp only
    split
    · next hno =>
      refine .pure (hleaves (.inr fun job' hjob ha => ?_))
      rw [hj] at hjob
      cases hjob
      exact absurd ha hno
    · split
      · next hother =>
        refine .pure (hleaves (.inr fun job' hjob _ => ?_))
        rw [hj] at hjob
        cases hjob
        exact hother
      · next hown =>
        have hid : d.run.jobId = job.id := not_not.mp hown
        have hjob : job ∈ w.jobs := List.mem_of_find?_eq_some hj
        refine .read_bind ?_
        by_cases hh : (w.undetach d.run.runId).holds d.run
        · rw [if_neg (not_not.mpr hh)]
          split
          · next hstop =>
            have hj' : w.job? d.run.jobId = some job := by
              rw [hid]
              exact World.job?_of_mem (R.unique trivial hJ) hjob
            obtain ⟨hT, hR, hS, hQ⟩ := R.turn_ends trivial hJ hl hstop hmem hh hj' (hend hstop hh job hj')
            exact .bind (.read_bind (safe_persist (e := .cancelled job.baseline) hT hR hS (.modify hQ)))
          · next hgo =>
            have hgo' : w.stopping = false := Bool.eq_false_iff.mpr hgo
            exact .modify (R.turn_enters trivial hJ hl hgo' hmem hh hjob hid)
        · rw [if_pos hh]
          exact .pure (hleaves (.inl hh))

theorem Rules.turn {run : Nat} (hJ : J w)
    (hD : ∀ d, w.detached.find? (·.run.runId = run) = some d →
      D.turn (w.ready host now) d ∧ (w.stopping = true → (w.ready host now).holds d.run →
        ∀ job, (w.ready host now).job? d.run.jobId = some job →
          D.ending (w.ready host now) d.run true (.cancelled job.baseline))) :
    Safe I (turn host now run) w fun _ => J := by
  refine .read_bind ?_
  cases hd : w.detached.find? (·.run.runId = run) with
  | none => exact .pure hJ
  | some d =>
    obtain ⟨hturn, hend⟩ := hD d hd
    have hrun : d.run.runId = run := by simpa using List.find?_some hd
    subst hrun
    have hmem : d ∈ (w.ready host now).detached := by
      rw [World.ready_detached]
      exact List.mem_of_find?_eq_some hd
    exact .bind (R.loadStore hJ fun hJ' => .modify_bind (R.runReserved hJ' World.ready_loaded hmem hturn
      (by simpa using hend)))

/-! ### Shutdown -/

def World.waits (w : World) (run : Run) : Prop :=
  w.holds run ∧ w.owner run.jobId = none ∧ ∃ job, w.job? run.jobId = some job

omit R in
theorem Ending.final_id {stopping manual : Bool} {run : Run} {e : Ending} :
    (e.final now stopping run manual job).id = job.id := by
  have hcount : ∀ (j : CronJob) (n : Nat) (t : Int), (j.count n t).id = j.id := by
    intro j n t
    unfold CronJob.count
    dsimp only
    split <;> rfl
  cases e with
  | retried o => rfl
  | ended o =>
    unfold Ending.final
    cases manual <;> cases ho : o.failed <;> simp [hcount, ho] <;> rfl
  | alerted completedAtMs =>
    unfold Ending.final
    cases manual <;> simp [hcount]
  | cancelled base =>
    unfold Ending.final CronJob.cancelled
    cases manual <;> simp [hcount] <;> rfl

omit R in
theorem World.over_job? {run : Run} {manual : Bool} {e : Ending} {id : String}
    (hj : w.job? run.jobId = some job) (h : id ≠ run.jobId) :
    (w.over now run manual e job).job? id = w.job? id := by
  have hid : (e.final now w.stopping run manual job).id = run.jobId := Ending.final_id.trans (World.job?_id hj)
  show (w.put (e.final now w.stopping run manual job)).job? id = _
  rw [World.put_job?, if_neg (hid ▸ h)]

omit R in
theorem World.over_waits {run run' : Run} {manual : Bool} {e : Ending} (hj : w.job? run.jobId = some job)
    (hne : run'.jobId ≠ run.jobId) (h : w.waits run') : (w.over now run manual e job).waits run' := by
  obtain ⟨hh, ho, job', hj'⟩ := h
  refine ⟨?_, ?_, job', ?_⟩
  · have hlookup : (w.over now run manual e job).activeRun run'.jobId = w.activeRun run'.jobId :=
      Assoc.lookup_filter fun a _ ha => by simp [ha, hne]
    show Option.map _ _ = _
    rw [hlookup]
    exact hh
  · refine List.find?_eq_none.mpr fun x hx => ?_
    exact List.find?_eq_none.mp ho x (List.mem_filter.mp hx).1
  · rw [World.over_job? hj hne]
    exact hj'

theorem Rules.retireReservations : ∀ (runs : List Run) {w : World}, J w → w.loaded = true →
    (runs.map (·.jobId)).Nodup → (∀ run ∈ runs, w.waits run ∧ ∀ job, w.job? run.jobId = some job →
      D.ending w run run.manual (.cancelled job.baseline)) →
    Safe I (retireReservations now runs) w fun _ => J := by
  intro runs
  induction runs with
  | nil => intro w hJ _ _ _; exact .pure hJ
  | cons run rest ih =>
    intro w hJ hl hnd hall
    obtain ⟨hother, hnd'⟩ := List.nodup_cons.mp hnd
    obtain ⟨⟨hh, ho, job, hj⟩, hD⟩ := hall run List.mem_cons_self
    refine .bind (.read_bind ?_)
    rw [hj]
    refine .bind (.read_bind (R.persist (.cancelled job.baseline) .announce hJ hl hj hh (.inr ⟨ho, rfl⟩) (hD job hj)
      (fun h => by cases h) fun hJ' => .modify (ih hJ' hl hnd' fun run' hrun' => ?_)))
    obtain ⟨hw', hD'⟩ := hall run' (List.mem_cons_of_mem _ hrun')
    have hne : run'.jobId ≠ run.jobId := fun he => hother (List.mem_map.mpr ⟨run', hrun', he⟩)
    refine ⟨World.over_waits hj hne hw', fun job' hj' => ?_⟩
    have hj'' : (w.over now run run.manual (.cancelled job.baseline) job).job? run'.jobId = some job' := hj'
    rw [World.over_job? hj hne] at hj''
    exact R.spares trivial hJ hj hne.symm (hD' job' hj'')

theorem Rules.shutdown (hJ : J w) (hD : ∀ run ∈ w.unowned, ∀ job, w.job? run.jobId = some job →
      D.ending { w with stopping := true } run run.manual (.cancelled job.baseline)) :
    Safe I (shutdown now) w fun _ => J := by
  have hJ' := R.stopping true trivial hJ
  obtain ⟨hkeys, hids⟩ := R.keys trivial hJ
  refine .modify_bind (.read_bind ?_)
  by_cases hl : w.loaded = true
  · refine R.retireReservations _ hJ' hl ?_ fun run hrun => ⟨⟨?_, ?_, ?_⟩, hD run hrun⟩
    · have hsub : ((World.unowned { w with stopping := true }).map (·.jobId)).Sublist (w.activeRuns.map (·.1)) := by
        have hmap : (w.activeRuns.map (·.2)).map (·.jobId) = w.activeRuns.map (·.1) := by
          rw [List.map_map]
          exact List.map_congr_left hids
        rw [← hmap]
        exact List.filter_sublist.map _
      exact hkeys.sublist hsub
    · obtain ⟨a, ha, rfl⟩ := List.mem_map.mp (List.mem_filter.mp hrun).1
      have hlookup : w.activeRuns.lookup a.1 = some a.2 := Assoc.lookup_of_mem hkeys ha
      show (w.activeRuns.lookup a.2.jobId).map (·.runId) = _
      rw [hids a ha, hlookup]
      rfl
    · simpa using (List.mem_filter.mp hrun).2
    · obtain ⟨a, ha, rfl⟩ := List.mem_map.mp (List.mem_filter.mp hrun).1
      rw [hids a ha]
      exact R.known trivial hJ' ha
  · have hnone : World.unowned { w with stopping := true } = [] := by
      show ((w.activeRuns.map (·.2)).filter _) = []
      rw [(R.idle trivial hJ (by simpa using hl)).2.1]
      rfl
    rw [hnone]
    exact .pure hJ'

theorem Rules.announce {run : Nat} {cancelled : Bool} (hJ : J w) : Safe I (announce run cancelled) w fun _ => J := by
  refine .read_bind ?_
  split
  · next hrun =>
    refine .modify_bind ?_
    split
    · exact .pure (R.unannounced trivial hJ)
    · exact .modify (R.announced trivial hJ hrun)
  · exact .pure hJ

/-! ### Operations and events -/

omit R in
theorem World.ready_unused {id : String} (h : w.unused id) : ∀ j ∈ (w.ready host now).jobs, j.id ≠ id := by
  obtain ⟨hjobs, hdisk, hdirs⟩ := h
  have hread : ∀ j ∈ (w.readFrom host now).jobs, j.id ≠ id := by
    intro j hj he
    rcases List.mem_append.mp hj with hj | hj
    · obtain ⟨j', hj', rfl⟩ := List.mem_map.mp hj
      obtain ⟨j₀, hj₀, rfl⟩ := List.mem_map.mp hj'
      rw [reconciled_id] at he
      exact hdisk (List.mem_map.mpr ⟨j₀, hj₀, he⟩)
    · obtain ⟨dir, hdir, hlatest⟩ := List.mem_filterMap.mp hj
      obtain ⟨latest, -, rfl⟩ := Option.map_eq_some_iff.mp hlatest
      have hdir' : dir = id := he
      exact hdirs (hdir' ▸ (List.mem_filter.mp hdir).1)
  unfold World.ready
  split
  · intro j hj he
    exact hjobs (List.mem_map.mpr ⟨j, hj, he⟩)
  · split <;> exact hread

theorem Rules.perform {op : Op} (hJ : J w) (hD : D.meets host now w op) :
    Safe I (perform host now op) w fun _ => J := by
  cases op with
  | start => exact R.start hJ hD
  | stop => exact .modify (R.stopping true trivial hJ)
  | reload => exact R.reload' hJ hD.1 hD.2
  | shutdown => exact R.shutdown hJ hD
  | pass => exact R.onTimer hJ
  | reserve jobId key force manual => exact R.reserveDetached hJ
  | turn run => exact R.turn hJ hD
  | drop run => exact .modify (R.drop trivial hJ)
  | runJob key force => exact R.runJob hJ
  | resume run o =>
    exact safe_withExecution hJ fun x job hx hmem hj => R.resumeRun hJ hmem hj (hD x job hx).1 (hD x job hx).2
  | cancel run => exact safe_withExecution hJ fun x job hx hmem hj => R.cancelRun hJ hmem hj (hD x job hx)
  | delivered run cancelled => exact R.endPublication hJ
  | announce run cancelled => exact R.announce hJ
  | add n =>
    dsimp only [Cron.perform]
    cases hn : n.job host now with
    | error m => exact .pure hJ
    | ok job =>
      obtain ⟨hnew, hadd⟩ := hD
      exact R.addJob hJ hadd hn (World.ready_unused hnew) (by rw [World.ready_outputDirs]; exact hnew.2.2)
  | enable jobId enabled =>
    exact .bind (.mono (R.editJob hJ World.job?_mem (.enable enabled)) fun _ _ h => .pure h)
  | update key u =>
    exact .bind (.mono (R.editJob hJ List.mem_of_find?_eq_some (.update u)) fun _ _ h => .pure h)
  | markDeliveryError jobId error =>
    exact .bind (.mono (R.editJob hJ World.job?_mem (.delivery error)) fun _ _ h => .pure h)
  | updateDeliveryTarget jobId =>
    exact .bind (.mono (R.editJob hJ World.job?_mem .target) fun _ _ h => .pure h)
  | remove key purge => exact .bind (.mono (R.removeJob hJ) fun _ _ h => .pure h)

end

/-- What holds under a guard, with the guard. -/
theorem Rules.under {D : Demands} {G I₀ I J : World → Prop}
    (A : Rules host now (fun _ => True) {} I₀ G) (B : Rules host now G D I J) :
    Rules host now (fun _ => True) D (fun w => I₀ w ∧ I w) fun w => G w ∧ J w where
  keys _ h := A.keys trivial h.1
  idle _ h := A.idle trivial h.1
  unique _ h := A.unique trivial h.1
  known _ h := A.known trivial h.1
  held _ h := A.held trivial h.1
  stopping b _ h := ⟨A.stopping b trivial h.1, B.stopping b h.1 h.2⟩
  load_quiet _ h hl hc := ⟨A.load_quiet trivial h.1 hl hc, B.load_quiet h.1 h.2 hl hc⟩
  load_saved _ h hl hc := and_and_and_comm.1 ⟨A.load_saved trivial h.1 hl hc, B.load_saved h.1 h.2 hl hc⟩
  restart _ h hl hD := and_and_and_comm.1 ⟨A.restart trivial h.1 hl trivial, B.restart h.1 h.2 hl hD⟩
  reread _ h hl hD hc := ⟨A.reread trivial h.1 hl trivial hc, B.reread h.1 h.2 hl hD hc⟩
  reload _ h hl hre hD := and_and_and_comm.1 ⟨A.reload trivial h.1 hl trivial trivial, B.reload h.1 h.2 hl hre hD⟩
  edit_kept _ h hl hj he hedit := ⟨A.edit_kept trivial h.1 hl hj he hedit, B.edit_kept h.1 h.2 hl hj he hedit⟩
  edit_stored _ h hl hj he hedit := and_and_and_comm.1 ⟨A.edit_stored trivial h.1 hl hj he hedit, B.edit_stored h.1 h.2 hl hj he hedit⟩
  edit_set _ h hl hj he hedit := and_and_and_comm.1 ⟨A.edit_set trivial h.1 hl hj he hedit, B.edit_set h.1 h.2 hl hj he hedit⟩
  archive _ h hl hids := and_and_and_comm.1 ⟨A.archive trivial h.1 hl hids, B.archive h.1 h.2 hl hids⟩
  purge _ h hl hids :=
    have a := A.purge trivial h.1 hl hids
    have b := B.purge h.1 h.2 hl hids
    ⟨⟨a.1, b.1⟩, ⟨a.2.1, b.2.1⟩, a.2.2, b.2.2⟩
  add _ h hl hD hn hu hdir := and_and_and_comm.1 ⟨A.add trivial h.1 hl trivial hn hu hdir, B.add h.1 h.2 hl hD hn hu hdir⟩
  detach _ h hl hs hj hrun := ⟨A.detach trivial h.1 hl hs hj hrun, B.detach h.1 h.2 hl hs hj hrun⟩
  drop _ h := ⟨A.drop trivial h.1, B.drop h.1 h.2⟩
  turn_leaves _ h hd hD hno := ⟨A.turn_leaves trivial h.1 hd trivial hno, B.turn_leaves h.1 h.2 hd hD hno⟩
  turn_enters _ h hl hs hd hh hj hid :=
    ⟨A.turn_enters trivial h.1 hl hs hd hh hj hid, B.turn_enters h.1 h.2 hl hs hd hh hj hid⟩
  turn_ends _ h hl hs hd hh hj hD :=
    have a := A.turn_ends trivial h.1 hl hs hd hh hj trivial
    have b := B.turn_ends h.1 h.2 hl hs hd hh hj hD
    ⟨⟨a.1, b.1⟩, ⟨a.2.1, b.2.1⟩, ⟨a.2.2.1, b.2.2.1⟩, a.2.2.2, b.2.2.2⟩
  execute _ h hl hs hj hrun := ⟨A.execute trivial h.1 hl hs hj hrun, B.execute h.1 h.2 hl hs hj hrun⟩
  fire _ h hl hs hj hd hrun :=
    have a := A.fire trivial h.1 hl hs hj hd hrun
    have b := B.fire h.1 h.2 hl hs hj hd hrun
    ⟨fun hsome => ⟨a.1 hsome, b.1 hsome⟩, a.2, b.2⟩
  forward_quiet _ h hl hno := ⟨A.forward_quiet trivial h.1 hl hno, B.forward_quiet h.1 h.2 hl hno⟩
  forward_saved _ h hl := and_and_and_comm.1 ⟨A.forward_saved trivial h.1 hl, B.forward_saved h.1 h.2 hl⟩
  endPass _ h hl := and_and_and_comm.1 ⟨A.endPass trivial h.1 hl, B.endPass h.1 h.2 hl⟩
  abandonPass _ h := ⟨A.abandonPass trivial h.1, B.abandonPass h.1 h.2⟩
  begin _ h hl hx hp hj := ⟨A.begin trivial h.1 hl hx hp hj, B.begin h.1 h.2 hl hx hp hj⟩
  alert _ h hl hx hp hj ho hD hr := ⟨A.alert trivial h.1 hl hx hp hj ho trivial hr, B.alert h.1 h.2 hl hx hp hj ho hD hr⟩
  ends _ h hl hj hh hf hD hfollow :=
    have a := A.ends trivial h.1 hl hj hh hf trivial hfollow
    have b := B.ends h.1 h.2 hl hj hh hf hD hfollow
    ⟨⟨a.1, b.1⟩, ⟨a.2.1, b.2.1⟩, ⟨a.2.2.1, b.2.2.1⟩, a.2.2.2, b.2.2.2⟩
  spares _ h hj hne hD := B.spares h.1 h.2 hj hne hD
  delivered _ h := ⟨A.delivered trivial h.1, B.delivered h.1 h.2⟩
  unannounced _ h := ⟨A.unannounced trivial h.1, B.unannounced h.1 h.2⟩
  announced _ h hrun := ⟨A.announced trivial h.1 hrun, B.announced h.1 h.2 hrun⟩

/-! ## Runs -/

/-- What each act keeps at its time, and each write leaves for the next process, holds in every run. -/
theorem Rules.reach {D : Demands} {I J : Int → World → Prop} {Inv : World → Prop}
    {ok : World → Event → Prop} (R : ∀ now, Rules host now (fun _ => True) D (I now) (J now))
    (hinit : Inv {}) (hbegin : ∀ {w : World} {e}, Inv w → ok w e → J e.now (w.at_ e.now))
    (hend : ∀ {w now}, J now w → Inv w) (hfound : ∀ {w now}, J now w → I now w)
    (hreboot : ∀ {w now}, I now w → Inv w.reboot)
    (hok : ∀ {w e}, Inv w → ok w e → D.meets host e.now (w.at_ e.now) e.op) (h : Reach (step host) ok {} w) : Inv w := by
  refine h.invariant hinit fun w e hw he => ?_
  have hJ := hbegin hw he
  have hsafe := (R e.now).perform hJ (hok hw he)
  unfold step
  split
  · exact hend hsafe.returns
  · exact hreboot (hsafe.left (hfound hJ) _)

/-- The world after these events in a new directory. -/
def after (host : Host) (es : List Event) : World := es.foldl (step host) {}

theorem reach_after {ok : World → Event → Prop} {es : List Event}
    (h : Reach.Allowed (step host) ok {} es) : Reach (step host) ok {} (after host es) := by
  have h0 : Reach (step host) ok {} {} := .start
  exact @Reach.foldl World Event (step host) ok {} es {} h0 h

end Flowly.Cron
