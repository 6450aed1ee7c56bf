/-
  Flowly.Cron.Decisions — what a user decided about a schedule while the job was running.

  Between the reservation of a run and its end, `enable_job` and `update_job` may pause
  the job, resume it or give it a new schedule. The end of a run writes the same fields:
  a retry sets the due time, a counted fire raises `repeat_completed`, and the last fire
  ends the schedule.

  `Upheld`: the record a run ends with has the lifecycle and the due time the schedule was
  last set to, if a call set it while the run was under way, and no fire counted against
  a new schedule. `Tidy`: a job is enabled exactly when it is scheduled, and has no due
  time when it is not. Both hold in every run of the service in which each run that ends
  `yields` to what was decided during it (`decisions_survive`). Elsewhere they do not:
  `a_retry_wakes_a_paused_job`.
-/

import Flowly.Cron.Executions

namespace Flowly.Cron

open Flowly.Lib Flowly.Lib.Durable

/-! ## Tidy jobs -/

structure CronJob.Tidy (j : CronJob) : Prop where
  enabled : j.enabled = true ↔ j.lifecycle = .scheduled
  next : j.lifecycle ≠ .scheduled → j.state.nextRunAtMs = none

def RunRecord.Tidy (r : RunRecord) : Prop :=
  match r.lifecycleAfterRun with
  | some after => after ≠ .scheduled → r.nextRunAtMs = none
  | none => r.nextRunAtMs = none

namespace CronJob.Tidy

variable {host : Host} {now : Int} {j j' : CronJob}

/-- The schedule of the job is as it was. -/
theorem same (h : j.Tidy) (he : j'.enabled = j.enabled) (hl : j'.lifecycle = j.lifecycle)
    (hn : j'.state.nextRunAtMs = j.state.nextRunAtMs) : j'.Tidy := by
  refine ⟨?_, ?_⟩
  · rw [he, hl]; exact h.enabled
  · rw [hl, hn]; exact h.next

theorem of_scheduled (he : j.enabled = true) (hl : j.lifecycle = .scheduled) : j.Tidy :=
  ⟨⟨fun _ => hl, fun _ => he⟩, fun hne => absurd hl hne⟩

theorem of_ended (he : j.enabled = false) (hl : j.lifecycle ≠ .scheduled) (hn : j.state.nextRunAtMs = none) : j.Tidy :=
  ⟨⟨fun h => absurd (he.symm.trans h) (by simp), fun h => absurd h hl⟩, fun _ => hn⟩

theorem read (h : j.Tidy) : j.read.Tidy := by
  refine ⟨?_, ?_⟩
  · show decide (j.lifecycle = .scheduled) = true ↔ j.lifecycle = .scheduled
    exact decide_eq_true_iff
  · intro hl
    show (if _ then j.schedule.atMs else j.state.nextRunAtMs) = none
    rw [if_neg (fun hover => hl hover.1)]
    exact h.next hl

theorem replay {latest : RunRecord} (h : j.Tidy) (hr : latest.Tidy) : (j.replay latest).Tidy := by
  unfold RunRecord.Tidy at hr
  unfold CronJob.replay
  cases ha : latest.lifecycleAfterRun with
  | none =>
    rw [ha] at hr
    exact ⟨h.enabled, fun _ => hr⟩
  | some after =>
    rw [ha] at hr
    exact ⟨decide_eq_true_iff, hr⟩

theorem recompute (h : j.Tidy) : (j.recompute host now).Tidy := by
  unfold CronJob.recompute
  split
  · next hoff =>
    refine of_ended rfl (fun hl => ?_) rfl
    have hen := h.enabled.mpr hl
    rcases hoff with hoff | hoff
    · exact hoff hl
    · rw [hen] at hoff
      cases hoff
  · next hon =>
    obtain ⟨hl, hen⟩ := not_or.mp hon
    have hl' : j.lifecycle = .scheduled := not_not.mp hl
    have hen' : j.enabled = true := by simpa using hen
    split
    · exact h
    · split
      · split
        · exact of_scheduled hen' hl'
        · exact of_ended rfl (by simp) rfl
      · split
        · exact of_ended rfl (by simp) rfl
        · exact of_scheduled hen' hl'

theorem forwarded (h : j.Tidy) : (forwarded host now j).Tidy := by
  unfold Cron.forwarded
  split
  · next n hn =>
    unfold CronJob.fastForward at hn
    split at hn
    · next hdue => exact of_scheduled hdue.1.2.1 hdue.1.1
    · cases hn
  · exact h

theorem advanced (hd : j.due now) (h : advanced host now j = some j') : j'.Tidy := by
  unfold Cron.advanced at h
  split at h
  · cases h
  · split at h
    · split at h
      · cases h
      · cases h
        exact of_scheduled hd.2.1 hd.1
    · cases h

theorem count (h : j.Tidy) (fires : Nat) (completedAtMs : Int) : (j.count fires completedAtMs).Tidy := by
  unfold CronJob.count
  dsimp only
  split
  · exact of_ended rfl (by simp) rfl
  · exact h.same rfl rfl rfl

/-- However a run ends; a retry needs a job that is still scheduled. -/
theorem final {stopping manual : Bool} {run : Run} {e : Ending} (h : j.Tidy)
    (hr : ∀ o, e = .retried o → j.lifecycle = .scheduled) : (e.final now stopping run manual j).Tidy := by
  cases e with
  | retried o =>
    have hl := hr o rfl
    exact of_scheduled (h.enabled.mpr hl) hl
  | ended o =>
    have hran : (if o.failed then (j.ran (.uuid run.runId) run.startedAtMs now o).fail
        else (j.ran (.uuid run.runId) run.startedAtMs now o).succeed).Tidy := by
      split <;> exact h.same rfl rfl rfl
    unfold Ending.final
    dsimp only
    cases manual with
    | true => exact hran
    | false => exact hran.count _ _
  | alerted completedAtMs =>
    unfold Ending.final
    cases manual with
    | true => exact h
    | false => exact h.count _ _
  | cancelled base =>
    have hint : (j.interrupted (.uuid run.runId) run.startedAtMs now stopping manual base).Tidy := h.same rfl rfl rfl
    unfold Ending.final CronJob.cancelled
    dsimp only
    cases manual with
    | true => exact hint
    | false => exact hint.count _ _

theorem record (h : j.Tidy) (run : Nat) (startMs completedAtMs : Int) : (j.record run startMs completedAtMs).Tidy := h.next

end CronJob.Tidy

/-! ## Edits -/

structure CronJob.SameSchedule (j j' : CronJob) : Prop where
  id : j'.id = j.id
  enabled : j'.enabled = j.enabled
  lifecycle : j'.lifecycle = j.lifecycle
  next : j'.state.nextRunAtMs = j.state.nextRunAtMs
  repeats : j'.repeatCompleted = j.repeatCompleted

structure CronJob.Left (now : Int) (j j' : CronJob) : Prop extends j.SameSchedule j' where
  schedule : j'.schedule = j.schedule
  lastRunId : j'.state.lastRunId = j.state.lastRunId
  lastRunAtMs : j'.state.lastRunAtMs = j.state.lastRunAtMs
  updated : j'.updatedAtMs = j.updatedAtMs ∨ j'.updatedAtMs = now

theorem CronJob.SameSchedule.refl (j : CronJob) : j.SameSchedule j := ⟨rfl, rfl, rfl, rfl, rfl⟩

section

variable {host : Host} {now : Int} {edit : CronJob → Edit} {j j' : CronJob}

/-- A call that sets no schedule leaves the schedule and the last run alone. -/
theorem UserEdit.leaves (he : UserEdit host now edit)
    (h : edit j = .kept j' ∨ (∃ m, edit j = .refused j' m) ∨ edit j = .stored j') : j.Left now j' := by
  have hnow : j.Left now { j with updatedAtMs := now } := ⟨⟨rfl, rfl, rfl, rfl, rfl⟩, rfl, rfl, rfl, .inr rfl⟩
  cases he with
  | enable enabled =>
    unfold CronJob.enable at h
    dsimp only at h
    split at h
    · split at h
      · rcases h with h | ⟨m, h⟩ | h <;> cases h
        exact hnow
      · split at h
        · rcases h with h | ⟨m, h⟩ | h <;> cases h
          exact hnow
        · rcases h with h | ⟨m, h⟩ | h <;> cases h
    · split at h
      · rcases h with h | ⟨m, h⟩ | h <;> cases h
        exact hnow
      · rcases h with h | ⟨m, h⟩ | h <;> cases h
  | update u =>
    unfold CronJob.update at h
    split at h
    · rcases h with h | ⟨m, h⟩ | h <;> cases h
      exact ⟨.refl j, rfl, rfl, rfl, .inl rfl⟩
    · rcases h with h | ⟨m, h⟩ | h <;> cases h
    · rcases h with h | ⟨m, h⟩ | h <;> cases h
      exact ⟨⟨rfl, rfl, rfl, rfl, rfl⟩, rfl, rfl, rfl, .inr rfl⟩
  | delivery error =>
    rcases h with h | ⟨m, h⟩ | h <;> cases h
    exact ⟨⟨rfl, rfl, rfl, rfl, rfl⟩, rfl, rfl, rfl, .inl rfl⟩
  | target =>
    rcases h with h | ⟨m, h⟩ | h <;> cases h
    exact hnow

/-- A call that sets the schedule leaves a tidy job; a new schedule starts its count again. -/
theorem UserEdit.set {hand : Hand} (he : UserEdit host now edit) (h : edit j = .set j' hand) :
    j'.id = j.id ∧ j'.Tidy ∧ (hand = .call ∧ j'.repeatCompleted = j.repeatCompleted ∨
      hand = .reschedule ∧ j'.repeatCompleted = 0) := by
  cases he with
  | enable enabled =>
    unfold CronJob.enable at h
    dsimp only at h
    split at h
    · split at h
      · cases h
      · split at h
        · cases h
        · cases h
          exact ⟨rfl, .of_scheduled rfl rfl, .inl ⟨rfl, rfl⟩⟩
    · split at h
      · cases h
      · cases h
        exact ⟨rfl, .of_ended rfl (by simp) rfl, .inl ⟨rfl, rfl⟩⟩
  | update u =>
    unfold CronJob.update at h
    split at h
    · cases h
    · cases h
      exact ⟨rfl, .of_scheduled rfl rfl, .inr ⟨rfl, rfl⟩⟩
    · cases h
  | delivery error => cases h
  | target => cases h

end

theorem NewJob.tidy {host : Host} {now : Int} {n : NewJob} {job : CronJob} (h : n.job host now = .ok job) :
    job.id = n.id ∧ job.Tidy := by
  obtain ⟨hid, hen, hl, -⟩ := job_ok h
  exact ⟨hid, .of_scheduled hen hl⟩

/-! ## What was set during a run -/

def Happening.setting (jobId : String) : Happening → Option (Lifecycle × Option Int × Hand)
  | .set id lifecycle next hand => if id = jobId then some (lifecycle, next, hand) else none
  | _ => none

/-- What was set of a job's schedule since a run of it was reserved, the newest first. -/
def settings (log : List Happening) (jobId : String) (run : Nat) : List (Lifecycle × Option Int × Hand) :=
  (log.takeWhile (· ≠ .reserved jobId run)).filterMap (Happening.setting jobId)

/-- A call to `enable_job` or `update_job` set the schedule during the run. -/
def Decided (log : List Happening) (jobId : String) (run : Nat) : Prop := ∃ s ∈ settings log jobId run, s.2.2 ≠ .scheduler

/-- A call to `update_job` gave the job a new schedule during the run. -/
def Rescheduled (log : List Happening) (jobId : String) (run : Nat) : Prop :=
  ∃ s ∈ settings log jobId run, s.2.2 = .reschedule

instance (log : List Happening) (jobId : String) (run : Nat) : Decidable (Decided log jobId run) := by
  unfold Decided; infer_instance

instance (log : List Happening) (jobId : String) (run : Nat) : Decidable (Rescheduled log jobId run) := by
  unfold Rescheduled; infer_instance

/-- The job is as its schedule was last set during the run, if a call set it. -/
structure Stands (log : List Happening) (jobId : String) (run : Nat) (j : CronJob) : Prop where
  schedule : Decided log jobId run → ((settings log jobId run).head?.map fun s => (s.1, s.2.1)) = some (j.lifecycle, j.state.nextRunAtMs)
  repeats : Rescheduled log jobId run → j.repeatCompleted = 0

/-- Every run in the log ended with a job that stands. -/
def Upheld : List Happening → Prop
  | [] => True
  | .persisted run job :: log => Stands log job.id run job ∧ Upheld log
  | _ :: log => Upheld log

variable {log : List Happening}

theorem Upheld.cons {x : Happening} (h : Upheld log) (hx : ∀ run job, x ≠ .persisted run job) :
    Upheld (x :: log) := by
  cases x with
  | persisted run job => exact absurd rfl (hx run job)
  | _ => exact h

theorem Upheld.append {new log : List Happening} (h : Upheld log) (hnew : ∀ x ∈ new, ∀ run job, x ≠ .persisted run job) :
    Upheld (new ++ log) := by
  induction new with
  | nil => exact h
  | cons x new ih => exact (ih fun y hy => hnew y (List.mem_cons_of_mem _ hy)).cons (hnew x List.mem_cons_self)

variable {jobId : String}

theorem settings_append {new log : List Happening} {run : Nat} (h : .reserved jobId run ∉ new) :
    settings (new ++ log) jobId run = new.filterMap (Happening.setting jobId) ++ settings log jobId run := by
  unfold settings
  rw [List.takeWhile_append_of_pos, List.filterMap_append]
  intro x hx
  have hne : x ≠ .reserved jobId run := fun he => h (he ▸ hx)
  simpa using hne

theorem settings_reserved {run : Nat} :
    settings (.reserved jobId run :: log) jobId run = [] := by simp [settings]

/-- Happenings that set nothing of the job. -/
theorem settings_quiet (new : List Happening) {run : Nat} (h : .reserved jobId run ∉ new)
    (hset : ∀ x ∈ new, x.setting jobId = none) : settings (new ++ log) jobId run = settings log jobId run := by
  rw [settings_append h, List.filterMap_eq_nil_iff.mpr hset, List.nil_append]

theorem Stands.same {log log' : List Happening} {run : Nat} {j j' : CronJob} (h : Stands log jobId run j)
    (hs : settings log' jobId run = settings log jobId run) (hj : j.SameSchedule j') : Stands log' jobId run j' := by
  constructor
  · unfold Decided
    rw [hs, hj.lifecycle, hj.next]
    exact h.schedule
  · unfold Rescheduled
    rw [hs, hj.repeats]
    exact h.repeats

/-- The schedule is set again: by the scheduler, which leaves the count, or by a call. -/
theorem Stands.set {new log : List Happening} {run : Nat} {j j' : CronJob} {hand : Hand}
    (h : Stands log jobId run j) (hnew : .reserved jobId run ∉ new)
    (hset : new.filterMap (Happening.setting jobId) = [(j'.lifecycle, j'.state.nextRunAtMs, hand)])
    (hrep : j'.repeatCompleted = 0 ∨ hand ≠ .reschedule ∧ j'.repeatCompleted = j.repeatCompleted) :
    Stands (new ++ log) jobId run j' := by
  have hs : settings (new ++ log) jobId run = (j'.lifecycle, j'.state.nextRunAtMs, hand) :: settings log jobId run := by
    rw [settings_append hnew, hset]
    rfl
  constructor
  · intro _
    rw [hs]
    rfl
  · intro hre
    rcases hrep with hrep | ⟨hhand, hrep⟩
    · exact hrep
    · rw [hrep]
      refine h.repeats ?_
      obtain ⟨s, hmem, hsr⟩ := hre
      rw [hs] at hmem
      rcases List.mem_cons.mp hmem with rfl | hmem
      · exact absurd hsr hhand
      · exact ⟨s, hmem, hsr⟩

/-- The schedules of some jobs are set, each job's once. -/
theorem filterMap_setting {jobs : List CronJob} (hu : (jobs.map (·.id)).Nodup) {j : CronJob} (hj : j ∈ jobs)
    (lifecycle : CronJob → Lifecycle) (next : CronJob → Option Int) (hand : Hand) :
    (jobs.map fun j => Happening.set j.id (lifecycle j) (next j) hand).filterMap (Happening.setting j.id) =
      [(lifecycle j, next j, hand)] := by
  induction jobs with
  | nil => cases hj
  | cons j' jobs ih =>
    obtain ⟨hother, hu'⟩ := List.nodup_cons.mp hu
    rw [List.map_cons, List.filterMap_cons]
    rcases List.mem_cons.mp hj with rfl | hj
    · have hrest : (jobs.map fun j => Happening.set j.id (lifecycle j) (next j) hand).filterMap
          (Happening.setting j.id) = [] := by
        refine List.filterMap_eq_nil_iff.mpr fun x hx => ?_
        obtain ⟨j', hj', rfl⟩ := List.mem_map.mp hx
        exact if_neg fun he => hother (List.mem_map.mpr ⟨j', hj', he⟩)
      simp [Happening.setting, hrest]
    · have hne : j'.id ≠ j.id := fun he => hother (List.mem_map.mpr ⟨j, hj, he.symm⟩)
      simp only [Happening.setting, if_neg hne]
      exact ih hu' hj

/-- A counted fire leaves what was decided, unless it is the last or counts against a new schedule. -/
theorem Stands.count {run fires : Nat} {t : Int} {j : CronJob} (h : Stands log jobId run j)
    (hd : Decided log jobId run → ¬ Rescheduled log jobId run ∧ CronJob.finishes { j with repeatCompleted := fires } = false) :
    Stands log jobId run (j.count fires t) := by
  have hdecided : Rescheduled log jobId run → Decided log jobId run := by
    intro hre
    obtain ⟨s, hs, he⟩ := hre
    exact ⟨s, hs, by simp [he]⟩
  have hcount : ∀ hf : CronJob.finishes { j with repeatCompleted := fires } = false,
      j.count fires t = { j with repeatCompleted := fires } := by
    intro hf
    exact if_neg (by simp [hf])
  constructor
  · intro hdec
    rw [hcount (hd hdec).2]
    exact h.schedule hdec
  · intro hre
    exact absurd hre (hd (hdecided hre)).1

/-! ## The end of a run -/

def Ending.fires (job : CronJob) : Ending → Nat
  | .cancelled base => base.repeatCompleted + 1
  | _ => job.repeatCompleted + 1

def World.yields (w : World) (run : Run) (manual : Bool) (e : Ending) : Prop :=
  manual = true ∨ ∀ job ∈ w.job? run.jobId,
    match e with
    | .retried _ => ¬ Decided w.log run.jobId run.runId ∧ job.lifecycle = .scheduled
    | e => Decided w.log run.jobId run.runId →
        ¬ Rescheduled w.log run.jobId run.runId ∧ CronJob.finishes { job with repeatCompleted := e.fires job } = false

instance (w : World) (run : Run) (manual : Bool) : (e : Ending) → Decidable (w.yields run manual e)
  | .retried _ => inferInstanceAs (Decidable (_ ∨ ∀ job ∈ w.job? run.jobId, ¬ _ ∧ _))
  | .ended _ => inferInstanceAs (Decidable (_ ∨ ∀ job ∈ w.job? run.jobId, _ → ¬ _ ∧ _))
  | .alerted _ => inferInstanceAs (Decidable (_ ∨ ∀ job ∈ w.job? run.jobId, _ → ¬ _ ∧ _))
  | .cancelled _ => inferInstanceAs (Decidable (_ ∨ ∀ job ∈ w.job? run.jobId, _ → ¬ _ ∧ _))

theorem World.yields_count {w : World} {run : Run} {e : Ending} {job : CronJob} (h : w.yields run false e)
    (hj : w.job? run.jobId = some job) (hr : ∀ o, e ≠ .retried o) : Decided w.log run.jobId run.runId →
      ¬ Rescheduled w.log run.jobId run.runId ∧ CronJob.finishes { job with repeatCompleted := e.fires job } = false := by
  rcases h with h | h
  · cases h
  · have := h job hj
    cases e with
    | retried o => exact absurd rfl (hr o)
    | _ => exact this

section

variable {w : World} {now : Int} {run : Run} {manual : Bool} {e : Ending} {job : CronJob}

theorem Ending.final_tidy (ht : job.Tidy) (hj : w.job? run.jobId = some job)
    (hf : ∀ o, e = .retried o → e.fits now w run manual job) (hy : w.yields run manual e) : (e.final now w.stopping run manual job).Tidy := by
  refine ht.final fun o he => ?_
  subst he
  rcases hy with rfl | hy
  · have hretries := (hf o rfl).2
    simp [CronJob.retries] at hretries
  · exact (hy job hj).2

/-- The record a run ends with stands. -/
theorem Ending.final_stands (hs : Stands w.log run.jobId run.runId job) (hj : w.job? run.jobId = some job)
    (hf : ∀ o, e = .retried o → e.fits now w run manual job) (hy : w.yields run manual e) :
    Stands w.log run.jobId run.runId (e.final now w.stopping run manual job) := by
  cases e with
  | retried o =>
    rcases hy with rfl | hy
    · have hretries := (hf o rfl).2
      simp [CronJob.retries] at hretries
    · have hno := (hy job hj).1
      refine ⟨fun hd => absurd hd hno, fun hre => ?_⟩
      obtain ⟨s, hmem, he⟩ := hre
      exact absurd ⟨s, hmem, by simp [he]⟩ hno
  | ended o =>
    have hsame : Stands w.log run.jobId run.runId (if o.failed then (job.ran (.uuid run.runId) run.startedAtMs now o).fail
        else (job.ran (.uuid run.runId) run.startedAtMs now o).succeed) := by
      split <;> exact hs.same rfl ⟨rfl, rfl, rfl, rfl, rfl⟩
    cases manual with
    | true => exact hsame
    | false =>
      refine hsame.count fun hd => ?_
      have hleft := World.yields_count hy hj (fun o h => by cases h) hd
      cases ho : o.failed <;> exact hleft
  | alerted completedAtMs =>
    cases manual with
    | true => exact hs
    | false => exact hs.count (World.yields_count hy hj fun o h => by cases h)
  | cancelled base =>
    have hsame : Stands w.log run.jobId run.runId
        (job.interrupted (.uuid run.runId) run.startedAtMs now w.stopping manual base) := hs.same rfl ⟨rfl, rfl, rfl, rfl, rfl⟩
    cases manual with
    | true => exact hsame
    | false =>
      have hleft := World.yields_count hy hj fun o h => by cases h
      exact hsame.count hleft

end

/-! ## The invariant -/

structure Disk.Tidy (d : Disk) : Prop where
  jobs : ∀ j ∈ d.jobs, j.Tidy
  records : ∀ r ∈ d.records, r.Tidy

structure Decisions (w : World) : Prop where
  tidy : ∀ j ∈ w.jobs, j.Tidy
  disk : w.disk.Tidy
  /-- A job with an active run is as it was last set during the run. -/
  stands : ∀ a ∈ w.activeRuns, ∀ j ∈ w.jobs, j.id = a.1 → Stands w.log a.1 a.2.runId j
  upheld : Upheld w.log

theorem Disk.Tidy.latest {host : Host} {d : Disk} {id : String} {latest : RunRecord} (h : d.Tidy)
    (hl : latestRecord host d id = some latest) : latest.Tidy := by
  rcases List.mem_append.mp (latestRecord_mem hl) with hr | hr
  · exact h.records _ (List.mem_filter.mp hr).1
  · obtain ⟨t, -, rfl⟩ := List.mem_map.mp hr
    rfl

theorem Disk.Tidy.readFrom {host : Host} {now : Int} {w : World} (h : w.disk.Tidy) :
    ∀ j ∈ (w.readFrom host now).jobs, j.Tidy := by
  intro j hj
  rcases List.mem_append.mp hj with hj | hj
  · obtain ⟨j', hj', rfl⟩ := List.mem_map.mp hj
    obtain ⟨j₀, hj₀, rfl⟩ := List.mem_map.mp hj'
    have hread := (h.jobs j₀ hj₀).read
    unfold reconciled
    split
    · next latest hlatest =>
      unfold CronJob.reconcile
      split
      · exact hread
      · exact hread.replay (h.latest hlatest)
    · exact hread
  · obtain ⟨dir, -, hdir⟩ := List.mem_filterMap.mp hj
    obtain ⟨latest, -, rfl⟩ := Option.map_eq_some_iff.mp hdir
    exact .of_ended rfl (by simp [recovered]) rfl

namespace Decisions

variable {host : Host} {now : Int} {w w' : World}

theorem saved (h : Decisions w) : w.saved.disk.Tidy ∧ Decisions w.saved :=
  ⟨⟨h.tidy, h.disk.records⟩, h.tidy, ⟨h.tidy, h.disk.records⟩, h.stands, h.upheld⟩

/-- Nothing of a job with an active run was set. -/
theorem keep (h : Decisions w) (htidy : ∀ j ∈ w'.jobs, j.Tidy)
    (hjobs : ∀ j' ∈ w'.jobs, ∀ a ∈ w'.activeRuns, j'.id = a.1 → ∃ j ∈ w.jobs, j.SameSchedule j') (hdisk : w'.disk.Tidy)
    (hruns : ∀ a' ∈ w'.activeRuns, ∃ a ∈ w.activeRuns, a.1 = a'.1 ∧ a.2.runId = a'.2.runId)
    (hlog : ∀ a ∈ w.activeRuns, settings w'.log a.1 a.2.runId = settings w.log a.1 a.2.runId) (hup : Upheld w'.log) :
    Decisions w' where
  tidy := htidy
  disk := hdisk
  stands a' ha' j' hj' hid := by
    obtain ⟨a, ha, hkey, hrun⟩ := hruns a' ha'
    obtain ⟨j, hj, hsame⟩ := hjobs j' hj' a' ha' hid
    rw [← hkey] at hid ⊢
    rw [← hrun]
    exact (h.stands a ha j hj (hsame.id.symm.trans hid)).same (hlog a ha) hsame
  upheld := hup

/-- Only what has no part in it is changed. -/
theorem quiet (h : Decisions w) (hjobs : w'.jobs = w.jobs) (hdisk : w'.disk = w.disk) (hruns : w'.activeRuns = w.activeRuns)
    (new : List Happening) (hnew : ∀ x ∈ new, (∀ id, x.setting id = none) ∧ (∀ id run, x ≠ .reserved id run) ∧
      ∀ run job, x ≠ .persisted run job) (hlog : w'.log = new ++ w.log) : Decisions w' := by
  refine h.keep (hjobs ▸ h.tidy) (fun j' hj' a _ _ => ⟨j', hjobs ▸ hj', .refl j'⟩) (hdisk ▸ h.disk) (fun a ha => ?_)
    (fun a _ => ?_) ?_
  · exact ⟨a, hruns ▸ ha, rfl, rfl⟩
  · rw [hlog]
    exact settings_quiet new (fun hin => (hnew _ hin).2.1 _ _ rfl) fun x hx => (hnew x hx).1 _
  · rw [hlog]
    exact h.upheld.append fun x hx => (hnew x hx).2.2

/-- A job's record is changed, its schedule is not. -/
theorem put {job job' : CronJob} (h : Decisions w) (hj : job ∈ w.jobs) (hs : job.SameSchedule job') :
    Decisions (w.put job') := by
  refine h.keep (fun j hj' => ?_) (fun j hj' a _ _ => ?_) h.disk (fun a ha => ⟨a, ha, rfl, rfl⟩) (fun _ _ => rfl) h.upheld
  · rcases World.put_mem hj' with rfl | ⟨hin, -⟩
    · exact (h.tidy job hj).same hs.enabled hs.lifecycle hs.next
    · exact h.tidy j hin
  · rcases World.put_mem hj' with rfl | ⟨hin, -⟩
    · exact ⟨job, hj, hs⟩
    · exact ⟨j, hin, .refl j⟩

/-- The schedule of some jobs is set. -/
theorem set (h : Decisions w) (f : CronJob → CronJob) (hjobs : w'.jobs = w.jobs.map f) (hdisk : w'.disk = w.disk)
    (hruns : w'.activeRuns = w.activeRuns) (htidy : ∀ j ∈ w.jobs, (f j).Tidy) (hid : ∀ j ∈ w.jobs, (f j).id = j.id)
    (new : List Happening) (hlog : w'.log = new ++ w.log) (hnew : ∀ x ∈ new, ∃ id l n hand, x = .set id l n hand)
    (hset : ∀ j ∈ w.jobs, j.SameSchedule (f j) ∧ new.filterMap (Happening.setting j.id) = [] ∨
      ∃ hand, new.filterMap (Happening.setting j.id) = [((f j).lifecycle, (f j).state.nextRunAtMs, hand)] ∧
        ((f j).repeatCompleted = 0 ∨ hand ≠ .reschedule ∧ (f j).repeatCompleted = j.repeatCompleted)) : Decisions w' := by
  have hres : ∀ id run, .reserved id run ∉ new := by
    intro id run hin
    obtain ⟨_, _, _, _, he⟩ := hnew _ hin
    cases he
  refine ⟨fun j' hj' => ?_, hdisk ▸ h.disk, fun a ha j' hj' hid' => ?_, ?_⟩
  · rw [hjobs] at hj'
    obtain ⟨j, hj, rfl⟩ := List.mem_map.mp hj'
    exact htidy j hj
  · rw [hjobs] at hj'
    rw [hruns] at ha
    obtain ⟨j, hj, rfl⟩ := List.mem_map.mp hj'
    have hkey : j.id = a.1 := (hid j hj).symm.trans hid'
    have hs := h.stands a ha j hj hkey
    rw [hlog]
    rcases hset j hj with ⟨hsame, hnone⟩ | ⟨hand, hone, hrep⟩
    · rw [hkey] at hnone
      refine hs.same ?_ hsame
      rw [settings_append (hres _ _), hnone, List.nil_append]
    · rw [hkey] at hone
      exact hs.set (hres _ _) hone hrep
  · rw [hlog]
    refine h.upheld.append fun x hx run job he => ?_
    obtain ⟨_, _, _, _, hx'⟩ := hnew x hx
    rw [hx'] at he
    cases he

/-- A run begins: nothing was decided in it yet. -/
theorem reserve {id : String} {manual : Bool} (g : Control w) (h : Decisions w) : Decisions (w.reserve now id manual) := by
  have hquiet : ∀ a ∈ w.activeRuns, settings (.reserved id w.fresh :: w.log) a.1 a.2.runId = settings w.log a.1 a.2.runId := by
    intro a ha
    have hlt := g.given a ha
    refine settings_quiet [.reserved id w.fresh] (fun hin => ?_) fun x hx => ?_
    · have he := List.mem_singleton.mp hin
      injection he
      omega
    · cases List.mem_singleton.mp hx
      rfl
  refine ⟨h.tidy, h.disk, fun a ha j hj hid => ?_, h.upheld⟩
  rcases List.mem_append.mp ha with ha | ha
  · exact (h.stands a ha j hj hid).same (hquiet a ha) (.refl j)
  · cases List.mem_singleton.mp ha
    have hnone : settings (w.reserve now id manual).log id w.fresh = [] := settings_reserved
    refine ⟨fun hd => ?_, fun hre => ?_⟩
    · obtain ⟨s, hs, -⟩ := hd
      rw [hnone] at hs
      cases hs
    · obtain ⟨s, hs, -⟩ := hre
      rw [hnone] at hs
      cases hs

theorem enter {run : Run} {manual inPass : Bool} {base : Baseline} (h : Decisions w) :
    Decisions (w.enter run manual inPass base) := by
  refine h.keep h.tidy (fun j hj _ _ _ => ⟨j, hj, .refl j⟩) h.disk (fun a' ha' => ?_) (fun _ _ => rfl) h.upheld
  obtain ⟨a, ha, rfl⟩ := List.mem_map.mp ha'
  refine ⟨a, ha, rfl, ?_⟩
  dsimp only
  split <;> rfl

/-- The end of a run that yields. -/
theorem endRun {run : Run} {manual : Bool} {e : Ending} {job : CronJob} {f : Follow} (g : Control w) (h : Decisions w)
    (hj : w.job? run.jobId = some job) (hh : w.holds run) (hf : ∀ o, e = .retried o → e.fits now w run manual job)
    (hy : w.yields run manual e) :
    (w.transcribed now run manual e job).disk.Tidy ∧ (w.recorded now run manual e job).disk.Tidy ∧
      (w.recorded now run manual e job).saved.disk.Tidy ∧ Decisions ((w.over now run manual e job).follow run.runId f) := by
  obtain ⟨r, hr, hrid⟩ := g.holds_iff.mp hh
  have hmem := World.job?_mem hj
  have hjid := World.job?_id hj
  have hstands := h.stands (run.jobId, r) hr job hmem hjid
  rw [show (run.jobId, r).2.runId = run.runId from hrid] at hstands
  have htidy := Ending.final_tidy (h.tidy job hmem) hj hf hy
  have hfinal := Ending.final_stands hstands hj hf hy
  have hfid : (e.final now w.stopping run manual job).id = run.jobId := Ending.final_id.trans hjid
  have hjobs : ∀ j ∈ (w.put (e.final now w.stopping run manual job)).jobs, j.Tidy := by
    intro j hj'
    rcases World.put_mem hj' with rfl | ⟨hin, -⟩
    · exact htidy
    · exact h.tidy j hin
  have hrecords : ∀ x ∈ (w.recorded now run manual e job).disk.records, x.Tidy := by
    intro x hx
    rcases List.mem_cons.mp hx with rfl | hx
    · exact htidy.record _ _ _
    · exact h.disk.records x hx
  have hnew : Decisions (w.over now run manual e job) := by
    refine h.keep hjobs (fun j' hj' a ha hid => ?_) ⟨hjobs, hrecords⟩ (fun a' ha' => ?_) (fun a _ => ?_) ?_
    · rcases World.put_mem hj' with rfl | ⟨hin, -⟩
      · -- the run of this job is no longer active
        obtain ⟨ha, hout⟩ := List.mem_filter.mp ha
        have hkey : a.1 = run.jobId := hid.symm.trans hfid
        have heq : a = (run.jobId, r) := List.inj_on_of_nodup_map g.keys ha hr hkey
        simp [heq, hrid] at hout
      · exact ⟨j', hin, .refl j'⟩
    · exact ⟨a', (List.mem_filter.mp ha').1, rfl, rfl⟩
    · refine settings_quiet [.retired run.runId, .persisted run.runId _] ?_ ?_
      · simp
      · intro x hx
        rcases List.mem_cons.mp hx with rfl | hx
        · rfl
        · cases List.mem_singleton.mp hx
          rfl
    · rw [← hfid] at hfinal
      exact ⟨hfinal, h.upheld⟩
  refine ⟨⟨h.disk.jobs, h.disk.records⟩, ⟨h.disk.jobs, hrecords⟩, ⟨hjobs, hrecords⟩, ?_⟩
  cases f with
  | nobody => exact hnew
  | publish inPass raises =>
    refine hnew.quiet rfl rfl rfl [.published run.runId] (fun x hx => ?_) rfl
    cases List.mem_singleton.mp hx
    exact ⟨fun _ => rfl, by simp, by simp⟩
  | announce => exact hnew.quiet rfl rfl rfl [] (fun x hx => by cases hx) rfl

theorem recompute_repeats (j : CronJob) : (j.recompute host now).repeatCompleted = j.repeatCompleted := by
  unfold CronJob.recompute
  repeat' split
  all_goals rfl

/-- Every job is computed again. -/
theorem recomputed (g : (w.jobs.map (·.id)).Nodup) (h : Decisions w) : Decisions (w.recomputed host now) := by
  have hid : ∀ j, (CronJob.recompute host now j).id = j.id := Control.recompute_id host now
  have hunique : ((w.jobs.map (CronJob.recompute host now)).map (·.id)).Nodup := by
    rw [Control.map_ids hid]
    exact g
  refine h.set (CronJob.recompute host now) rfl rfl rfl (fun j hj => (h.tidy j hj).recompute) (fun j _ => hid j)
    _ rfl (fun x hx => ?_) fun j hj => .inr ⟨.scheduler, ?_, .inr ⟨by simp, recompute_repeats j⟩⟩
  · obtain ⟨j, -, rfl⟩ := List.mem_map.mp hx
    exact ⟨_, _, _, _, rfl⟩
  · have hone := filterMap_setting hunique (List.mem_map_of_mem hj) CronJob.lifecycle (fun j => j.state.nextRunAtMs) .scheduler
    rw [hid] at hone
    exact hone

theorem forwarded_same (host : Host) (now : Int) (j : CronJob) : (forwarded host now j).id = j.id ∧ (forwarded host now j).lifecycle = j.lifecycle ∧
    (forwarded host now j).repeatCompleted = j.repeatCompleted ∧
    (j.fastForward host now = none → forwarded host now j = j) := by
  unfold Cron.forwarded
  cases j.fastForward host now with
  | none => exact ⟨rfl, rfl, rfl, fun _ => rfl⟩
  | some n => exact ⟨rfl, rfl, rfl, fun h => by cases h⟩

/-- The missed jobs are set to their next time. -/
theorem forward (g : (w.jobs.map (·.id)).Nodup) (h : Decisions w) : Decisions (w.forward host now) := by
  refine h.set (forwarded host now) rfl rfl rfl (fun j hj => (h.tidy j hj).forwarded) (fun j _ => (forwarded_same host now j).1)
    _ rfl (fun x hx => ?_) fun j hj => ?_
  · obtain ⟨j, -, rfl⟩ := List.mem_map.mp hx
    exact ⟨_, _, _, _, rfl⟩
  · obtain ⟨-, hlife, hrep, hsame⟩ := forwarded_same host now j
    by_cases hf : (j.fastForward host now).isSome
    · refine .inr ⟨.scheduler, ?_, .inr ⟨by simp, hrep⟩⟩
      rw [hlife]
      exact filterMap_setting (g.sublist (List.filter_sublist.map _)) (List.mem_filter.mpr ⟨hj, hf⟩) CronJob.lifecycle
        (fun j => (forwarded host now j).state.nextRunAtMs) .scheduler
    · refine .inl ⟨?_, List.filterMap_eq_nil_iff.mpr fun x hx => ?_⟩
      · rw [hsame (by simpa using hf)]
        exact .refl j
      · obtain ⟨j', hj', rfl⟩ := List.mem_map.mp hx
        obtain ⟨hin, hsome⟩ := List.mem_filter.mp hj'
        refine if_neg fun he => hf ?_
        rw [← List.inj_on_of_nodup_map g hin hj he]
        exact hsome

/-- The jobs without a run are read again. -/
theorem keeping (g : Control w) (h : Decisions w) : Decisions ((w.readFrom host now).keeping w) := by
  refine h.keep (fun j hj => ?_) (fun j hj a ha hid => ?_) h.disk (fun a ha => ⟨a, ha, rfl, rfl⟩) (fun _ _ => rfl) h.upheld
  · rcases g.keeping_mem hj with hin | ⟨hin, -⟩
    · exact h.tidy j hin
    · exact h.disk.readFrom j hin
  · rcases g.keeping_mem hj with hin | ⟨-, hno⟩
    · exact ⟨j, hin, .refl j⟩
    · exact absurd hid.symm (hno a ha)

def demands : Demands where
  ending := World.yields

/-- A job no run is active of changes, or comes. -/
theorem elsewhere (h : Decisions w) (htidy : ∀ j ∈ w'.jobs, j.Tidy)
    (hjobs : ∀ j' ∈ w'.jobs, j' ∈ w.jobs ∨ ∀ a ∈ w.activeRuns, a.1 ≠ j'.id) (hdisk : w'.disk.Tidy)
    (hruns : w'.activeRuns = w.activeRuns) (hlog : w'.log = w.log) : Decisions w' := by
  refine h.keep htidy (fun j' hj' a ha hid => ?_) hdisk (fun a ha => ⟨a, hruns ▸ ha, rfl, rfl⟩) (fun _ _ => by rw [hlog])
    (hlog ▸ h.upheld)
  rw [hruns] at ha
  rcases hjobs j' hj' with hin | hno
  · exact ⟨j', hin, .refl j'⟩
  · exact absurd hid.symm (hno a ha)

theorem archive {ids : List String} (h : Decisions w) (hids : ∀ id ∈ ids, w.activeRun id = none) :
    Decisions (w.archive now ids) := by
  refine h.elsewhere (fun j hj => ?_) (fun j hj => ?_) h.disk rfl rfl
  all_goals
    obtain ⟨j', hj', rfl⟩ := List.mem_map.mp hj
    split
  · exact .of_ended rfl (by simp [CronJob.archive]) rfl
  · exact h.tidy j' hj'
  · next hin => exact .inr ((Control.activeRun_none w).mp (hids _ hin))
  · exact .inl hj'

theorem purge {ids : List String} (h : Decisions w) :
    (w.purgeArchives ids).disk.Tidy ∧ (w.purge ids).saved.disk.Tidy ∧ Decisions (w.purge ids).saved := by
  have hjobs : ∀ j ∈ (w.purge ids).jobs, j ∈ w.jobs := fun j hj => (List.mem_filter.mp hj).1
  have hrecords : ∀ r ∈ (w.purgeArchives ids).disk.records, r.Tidy := fun r hr =>
    h.disk.records r (List.mem_filter.mp hr).1
  have hpurge : Decisions (w.purge ids) := by
    refine h.elsewhere (fun j hj => h.tidy j (hjobs j hj)) (fun j hj => .inl (hjobs j hj)) ⟨h.disk.jobs, hrecords⟩ rfl rfl
  exact ⟨⟨h.disk.jobs, hrecords⟩, hpurge.saved⟩

theorem advance (host : Host) {job : CronJob} (h : Decisions w) (hd : job.due now) (hrun : w.activeRun job.id = none) :
    Decisions (w.advance host now job) := by
  unfold World.advance
  cases hadv : advanced host now job with
  | none => exact h
  | some job' =>
    have hid := advanced_id hadv
    have hput : Decisions (w.put job') := by
      refine h.elsewhere (fun j hj => ?_) (fun j hj => ?_) h.disk rfl rfl
      · rcases World.put_mem hj with rfl | ⟨hin, -⟩
        · exact .advanced hd hadv
        · exact h.tidy j hin
      · rcases World.put_mem hj with rfl | ⟨hin, -⟩
        · exact .inr (hid ▸ (Control.activeRun_none w).mp hrun)
        · exact .inl hin
    exact hput.saved.2

/-- What is asked of the end of one run is not touched by the end of another. -/
theorem spares {run run' : Run} {manual manual' : Bool} {e : Ending} {base' : Baseline} {job : CronJob}
    (hj : w.job? run.jobId = some job) (hne : run.jobId ≠ run'.jobId) (hy : w.yields run' manual' (.cancelled base')) :
    ((w.over now run manual e job).follow run.runId .announce).yields run' manual' (.cancelled base') := by
  have hlog : settings ((w.over now run manual e job).follow run.runId .announce).log run'.jobId run'.runId =
      settings w.log run'.jobId run'.runId := by
    refine settings_quiet [.retired run.runId, .persisted run.runId _] (by simp) fun x hx => ?_
    rcases List.mem_cons.mp hx with rfl | hx
    · rfl
    · cases List.mem_singleton.mp hx
      rfl
  rcases hy with hm | hy
  · exact .inl hm
  · refine .inr fun job' hj' => ?_
    have hj'' : (w.over now run manual e job).job? run'.jobId = some job' := hj'
    rw [World.over_job? hj hne.symm] at hj''
    have := hy job' hj''
    unfold Decided Rescheduled at this ⊢
    rw [hlog]
    exact this

/-- The user changes a job's lifecycle or due time. -/
theorem edited {host : Host} {job job' : CronJob} {edit : CronJob → Edit} {hand : Hand} (g : Control w) (h : Decisions w)
    (hj : job ∈ w.jobs) (he : UserEdit host now edit) (hedit : edit job = .set job' hand) :
    Decisions ((w.put job').noteSet job' hand) := by
  obtain ⟨hid, htidy, hhand⟩ := he.set hedit
  refine h.set (fun j => if j.id = job'.id then job' else j) rfl rfl rfl (fun j hj' => ?_) (fun j hj' => ?_)
    [.set job'.id job'.lifecycle job'.state.nextRunAtMs hand] rfl (fun x hx => ?_) fun j hj' => ?_
  · split
    · exact htidy
    · exact h.tidy j hj'
  · split
    · next he => exact he.symm
    · rfl
  · cases List.mem_singleton.mp hx
    exact ⟨_, _, _, _, rfl⟩
  · by_cases he : j.id = job'.id
    · have hjob : j = job := List.inj_on_of_nodup_map g.unique hj' hj (he.trans hid)
      refine .inr ⟨hand, ?_, ?_⟩
      · simp [Happening.setting, he]
      · rw [if_pos he, hjob]
        rcases hhand with ⟨rfl, hrep⟩ | ⟨-, hrep⟩
        · exact .inr ⟨by simp, hrep⟩
        · exact .inl hrep
    · refine .inl ⟨?_, ?_⟩
      · rw [if_neg he]
        exact .refl j
      · have hne : job'.id ≠ j.id := fun h => he h.symm
        simp [Happening.setting, hne]

theorem added {host : Host} {n : NewJob} {job : CronJob} (g : Control w) (h : Decisions w) (hn : n.job host now = .ok job)
    (hnew : ∀ j ∈ w.jobs, j.id ≠ n.id) : Decisions { w with jobs := w.jobs ++ [job] } := by
  obtain ⟨hid, htidy⟩ := NewJob.tidy hn
  refine h.elsewhere (fun j hj => ?_) (fun j hj => ?_) h.disk rfl rfl
  · rcases List.mem_append.mp hj with hin | hin
    · exact h.tidy j hin
    · cases List.mem_singleton.mp hin
      exact htidy
  · rcases List.mem_append.mp hj with hin | hin
    · exact .inl hin
    · cases List.mem_singleton.mp hin
      refine .inr fun a ha he => ?_
      obtain ⟨k, hk, hkid⟩ := List.mem_map.mp (g.known a ha)
      exact hnew k hk (hkid.trans (he.trans hid))

theorem rules (host : Host) (now : Int) : Rules host now Control demands (fun w => w.disk.Tidy) Decisions where
  keys g _ := ⟨g.keys, g.ids⟩
  idle g _ := g.idle
  unique g _ := g.unique
  known g _ := (Control.rules host now).known trivial g
  held g _ := (Control.rules host now).held trivial g
  stopping _ _ h := h.quiet rfl rfl rfl [] (fun x hx => by cases hx) rfl
  load_quiet g h hl _ := by
    have hruns := (g.idle hl).2.1
    exact h.elsewhere h.disk.readFrom (fun _ _ => .inr fun a ha => by rw [hruns] at ha; cases ha) h.disk rfl rfl
  load_saved {w} g h hl _ := by
    have hruns := (g.idle hl).2.1
    have hread : Decisions (w.readFrom host now) :=
      h.elsewhere h.disk.readFrom (fun _ _ => .inr fun a ha => by rw [hruns] at ha; cases ha) h.disk rfl rfl
    exact hread.saved
  restart g h _ _ := (h.recomputed g.unique).saved
  reread _ h _ _ _ := ⟨h.disk.readFrom, h.disk.records⟩
  reload {w} g h _ _ _ := ((h.keeping g).recomputed (g.keeping_ids host now).1).saved
  edit_kept _ h _ hj he hedit := by
    refine h.put hj (he.leaves ?_).toSameSchedule
    rcases hedit with hk | hr
    · exact .inl hk
    · exact .inr (.inl hr)
  edit_stored _ h _ hj he hedit := (h.put hj (he.leaves (.inr (.inr hedit))).toSameSchedule).saved
  edit_set g h _ hj he hedit := (h.edited g hj he hedit).saved
  archive _ h _ hids := (h.archive hids).saved
  purge _ h _ _ := h.purge
  add g h _ _ hn hnew _ := (h.added g hn hnew).saved
  detach g h _ _ _ _ := (h.reserve g).quiet rfl rfl rfl [] (fun x hx => by cases hx) rfl
  drop {w run} _ h := by
    refine h.quiet rfl rfl rfl [.dropped run] (fun x hx => ?_) rfl
    cases List.mem_singleton.mp hx
    exact ⟨fun _ => rfl, by simp, by simp⟩
  turn_leaves _ h _ _ _ := h.quiet rfl rfl rfl [] (fun x hx => by cases hx) rfl
  turn_enters _ h _ _ _ _ _ _ := enter (h.quiet rfl rfl rfl [] (fun x hx => by cases hx) rfl)
  turn_ends {w d job} g h _ _ _ hh hj hy := by
    have h' : Decisions (w.undetach d.run.runId) := h.quiet rfl rfl rfl [] (fun x hx => by cases hx) rfl
    exact h'.endRun (g.undetach _) hj hh (fun o he => by cases he) hy
  execute g h _ _ _ _ := enter ((h.reserve g).quiet rfl rfl rfl [] (fun x hx => by cases hx) rfl)
  fire {w job rest} g h hl _ _ hd hrun := by
    have hadv := h.advance host hd hrun
    have hgadv := (g.advance host now job hl).2
    exact ⟨fun _ => hadv.disk, enter ((hadv.reserve hgadv).quiet rfl rfl rfl [] (fun x hx => by cases hx) rfl)⟩
  forward_quiet g h _ _ := h.forward g.unique
  forward_saved g h _ := (h.forward g.unique).saved
  endPass _ h _ := ⟨h.saved.1, h.saved.2.quiet rfl rfl rfl [] (fun x hx => by cases hx) rfl⟩
  abandonPass _ h := h.quiet rfl rfl rfl [] (fun x hx => by cases hx) rfl
  begin {w x job} _ h _ _ _ hj := by
    have hput : Decisions (w.put { job with state.lastDeliveryError := none }) :=
      h.put (World.job?_mem hj) ⟨rfl, rfl, rfl, rfl, rfl⟩
    refine hput.quiet rfl rfl rfl [.called x.run.runId] (fun y hy => ?_) rfl
    cases List.mem_singleton.mp hy
    exact ⟨fun _ => rfl, by simp, by simp⟩
  alert {w x o job} _ h _ _ _ hj _ _ _ := by
    have hput : Decisions
        (w.put { (job.ran (.uuid x.run.runId) x.run.startedAtMs now o).fail with state.lastAlertAtMs := some now }) :=
      h.put (World.job?_mem hj) ⟨rfl, rfl, rfl, rfl, rfl⟩
    exact hput.quiet rfl rfl rfl [] (fun x hx => by cases hx) rfl
  ends g h _ hj hh hf hy _ := h.endRun g hj hh (fun _ _ => hf) hy
  spares _ _ hj hne hy := spares hj hne hy
  delivered _ h := h.quiet rfl rfl rfl [] (fun x hx => by cases hx) rfl
  unannounced _ h := h.quiet rfl rfl rfl [] (fun x hx => by cases hx) rfl
  announced {w run} _ h _ := by
    refine h.quiet rfl rfl rfl [.published run] (fun x hx => ?_) rfl
    cases List.mem_singleton.mp hx
    exact ⟨fun _ => rfl, by simp, by simp⟩

end Decisions

/-! ## Every run of the service -/

/-- Every run the event ends leaves what a call has decided during it. -/
def World.yielding (w : World) (e : Event) : Prop := ∀ x ∈ w.endings e.now e.op, w.yields x.1 x.2.1 x.2.2

instance (w : World) (e : Event) : Decidable (w.yielding e) := by unfold World.yielding; infer_instance

theorem decisions_of_disk {w : World} (hjobs : w.jobs = []) (hruns : w.activeRuns = []) (hlog : w.log = [])
    (hdisk : w.disk.Tidy) : Decisions w where
  tidy j hj := by rw [hjobs] at hj; cases hj
  disk := hdisk
  stands a ha := by rw [hruns] at ha; cases ha
  upheld := by rw [hlog]; trivial

theorem decisions_reach {host : Host} {w : World} (h : Reach (step host) (fun w e => w.fits e ∧ w.yielding e) {} w) :
    Control w ∧ Decisions w := by
  refine Rules.reach (I := fun _ w => (w.disk.jobs.map (·.id)).Nodup ∧ w.disk.Tidy) (J := fun _ w => Control w ∧ Decisions w)
    (fun now => (Control.rules host now).under (Decisions.rules host now))
    ⟨control_init, decisions_of_disk rfl rfl rfl ⟨by simp, by simp⟩⟩ ?_ id ?_ ?_ ?_ h
  · intro w e hw _
    exact ⟨hw.1.at_ e.now, hw.2.quiet rfl rfl rfl [] (fun x hx => by cases hx) rfl⟩
  · intro w _ hw
    exact ⟨hw.1.uniqueDisk, hw.2.disk⟩
  · intro w _ hw
    exact ⟨control_reboot hw.1, decisions_of_disk rfl rfl rfl hw.2⟩
  · intro w e hw he
    exact hw.1.meets he.1 (fun _ => trivial) (fun _ => ⟨trivial, trivial⟩) (fun _ _ => trivial) (fun x hx _ => he.2 x hx)
      (fun _ _ _ _ _ _ _ => trivial) fun _ _ => trivial

theorem decisions_survive {host : Host} {w : World}
    (h : Reach (step host) (fun w e => w.fits e ∧ w.yielding e) {} w) :
    (∀ job, job ∈ w.jobs ∨ job ∈ w.disk.jobs → (job.enabled = true ↔ job.lifecycle = .scheduled) ∧
      (job.lifecycle ≠ .scheduled → job.state.nextRunAtMs = none)) ∧ Upheld w.log := by
  obtain ⟨-, hd⟩ := decisions_reach h
  refine ⟨fun job hjob => ?_, hd.upheld⟩
  rcases hjob with hjob | hjob
  · exact ⟨(hd.tidy job hjob).enabled, (hd.tidy job hjob).next⟩
  · exact ⟨(hd.disk.jobs job hjob).enabled, (hd.disk.jobs job hjob).next⟩

namespace Sample

/-- The job is paused while `on_job` is at a fire of it; then `on_job` fails. -/
def pausedRetry : List Event :=
  [⟨1000, .start, none⟩, ⟨1000, .add { hourly with retryMaxAttempts := 2 }, none⟩, ⟨3601000, .pass, none⟩,
   ⟨3601000, .resume 0 (.returned none), none⟩, ⟨3602000, .enable "a" false, none⟩,
   ⟨3603000, .resume 0 (.raised "x".toList), none⟩]

/-- The retry gives the paused job a due time. -/
theorem a_retry_wakes_a_paused_job :
    ¬ ∀ w, Reach (step host) World.fits {} w →
      (∀ job, job ∈ w.jobs ∨ job ∈ w.disk.jobs → (job.enabled = true ↔ job.lifecycle = .scheduled) ∧
        (job.lifecycle ≠ .scheduled → job.state.nextRunAtMs = none)) ∧ Upheld w.log := by
  intro hall
  have hreach : Reach (step host) World.fits {} (after host pausedRetry) := reach_after (by decide +kernel)
  have hwoken : ∃ job ∈ (after host pausedRetry).jobs, job.lifecycle = .paused ∧ job.state.nextRunAtMs = some 3633000 := by
    decide +kernel
  obtain ⟨job, hjob, hpaused, hnext⟩ := hwoken
  have hnone := ((hall _ hreach).1 job (.inl hjob)).2 (by simp [hpaused])
  rw [hnext] at hnone
  cases hnone

/-- The job is paused while `on_job` is at a fire of it that ends well. -/
def pausedDuringRun : List Event :=
  [⟨1000, .start, none⟩, ⟨1000, .add hourly, none⟩, ⟨3601000, .pass, none⟩, ⟨3601000, .resume 0 (.returned none), none⟩,
   ⟨3602000, .enable "a" false, none⟩, ⟨3603000, .resume 0 (.returned none), none⟩]

theorem a_pause_outlives_a_success : Upheld (after host pausedDuringRun).log :=
  (decisions_survive (w := after host pausedDuringRun) (reach_after (by decide +kernel))).2

end Sample

end Flowly.Cron
