/-
  Flowly.Cron.Recovery — what a crash between the writes of a finished run leaves.

  The end of a run is written three times: the transcript, the run's metadata, and
  jobs.json. `_load_store` replays the newest metadata of a job's archive over its record,
  unless jobs.json names that run as the last one or was updated later.

  In every run in which no run ends in the millisecond the newest run of its job ended in,
  a job record whose save was cut short after the metadata is read back with the schedule
  that save would have written, and a record that was saved is not touched
  (`interrupted_saves_are_recovered`). There is one exception: a failure alert is awaited
  after the record in memory names the run and before its fire is counted. A save of the
  store in between names the run in jobs.json, and the metadata written at the end is then
  taken for known (`a_save_during_an_alert_hides_the_end`).
-/

import Flowly.Cron.Decisions
import Flowly.Lib.Sorting

namespace Flowly.Cron

open Flowly.Lib Flowly.Lib.Durable Flowly.Lib.Sorting

/-! ## The newest record of an archive -/

section

variable {host : Host} {disk : Disk} {id : String} {t : Transcript} {r latest : RunRecord}

theorem newer_total (a b : RunRecord) : newer host a b ∨ newer host b a := by
  unfold newer
  rcases lt_trichotomy a.completed b.completed with hlt | heq | hgt
  · exact .inr (.inl hlt)
  · rcases String.le_total (host.idText b.runId) (host.idText a.runId) with hle | hle
    · exact .inl (.inr ⟨heq, hle⟩)
    · exact .inr (.inr ⟨heq.symm, hle⟩)
  · exact .inl (.inl hgt)

theorem newer_trans (a b c : RunRecord) (hab : newer host a b) (hbc : newer host b c) : newer host a c := by
  unfold newer at *
  rcases hab with hab | ⟨hab, htab⟩ <;> rcases hbc with hbc | ⟨hbc, htbc⟩
  · exact .inl (by omega)
  · exact .inl (by omega)
  · exact .inl (by omega)
  · exact .inr ⟨by omega, String.le_trans htbc htab⟩

/-- An archive another job's run is added to. -/
theorem unsortedRunRecords_other {due : Option CronJob} {jobs : List CronJob} (ht : t.jobId ≠ id) (hr : r.jobId ≠ id) :
    unsortedRunRecords host { jobs, transcripts := t :: disk.transcripts, records := r :: disk.records, due } id =
      unsortedRunRecords host disk id := by
  unfold unsortedRunRecords
  simp [ht, hr]

theorem latestRecord_other {due : Option CronJob} {jobs : List CronJob} (ht : t.jobId ≠ id) (hr : r.jobId ≠ id) :
    latestRecord host { jobs, transcripts := t :: disk.transcripts, records := r :: disk.records, due } id =
      latestRecord host disk id := by
  unfold latestRecord readRunRecords
  rw [unsortedRunRecords_other ht hr]

theorem latestRecord_transcript_other (h : t.jobId ≠ id) :
    latestRecord host { disk with transcripts := t :: disk.transcripts } id = latestRecord host disk id := by
  unfold latestRecord readRunRecords unsortedRunRecords
  simp [h]

theorem latestRecord_congr {disk' : Disk} (ht : disk'.transcripts = disk.transcripts) (hr : disk'.records = disk.records) :
    latestRecord host disk' id = latestRecord host disk id := by
  unfold latestRecord readRunRecords unsortedRunRecords
  rw [ht, hr]

/-- A transcript without metadata is the newest of its archive, or changes nothing. -/
theorem latestRecord_transcript (host : Host) (disk : Disk) (t : Transcript) :
    latestRecord host { disk with transcripts := t :: disk.transcripts } t.jobId = some (legacyRunRecord host t) ∨
      latestRecord host { disk with transcripts := t :: disk.transcripts } t.jobId = latestRecord host disk t.jobId := by
  unfold latestRecord readRunRecords unsortedRunRecords
  by_cases href : referenced (disk.records.filter (·.jobId = t.jobId)) t
  · refine .inr ?_
    simp [href]
  · have hkeep : ((t :: disk.transcripts).filter fun t' => t'.jobId = t.jobId ∧
        ¬ referenced (disk.records.filter (·.jobId = t.jobId)) t') =
        t :: disk.transcripts.filter fun t' => t'.jobId = t.jobId ∧
          ¬ referenced (disk.records.filter (·.jobId = t.jobId)) t' :=
      List.filter_cons_of_pos (by simpa using href)
    dsimp only
    rw [hkeep, List.map_cons]
    exact head?_insertionSort_insert newer_total newer_trans

/-- Every record of the job is older than its run `run` completed at `at_`. -/
def Disk.Older (host : Host) (disk : Disk) (jobId : String) (run : Nat) (at_ : Int) : Prop :=
  ∀ r ∈ unsortedRunRecords host disk jobId,
    r.completed < at_ ∨ r.completed = at_ ∧ host.idText r.runId < host.idText (.uuid run)

instance (host : Host) (disk : Disk) (jobId : String) (run : Nat) (at_ : Int) : Decidable (disk.Older host jobId run at_) := by
  unfold Disk.Older; infer_instance

/-- The metadata of a run, with its transcript, is the newest of its archive. -/
theorem latestRecord_recorded {due : Option CronJob} {jobs : List CronJob} (run : Nat) (hjob : r.jobId = t.jobId)
    (hfile : r.outputFile = (t.startedAtMs, t.run)) (hrun : r.runId = .uuid run)
    (h : disk.Older host t.jobId run r.completed) :
    latestRecord host { jobs, transcripts := t :: disk.transcripts, records := r :: disk.records, due } t.jobId = some r := by
  refine head?_insertionSort_eq newer_total newer_trans ?_ fun b hb => ?_
  · unfold unsortedRunRecords
    simp [hjob]
  · by_cases hbr : b = r
    · exact .inl hbr
    · refine .inr ?_
      have hold : b ∈ unsortedRunRecords host disk t.jobId := by
        unfold unsortedRunRecords at hb ⊢
        rcases List.mem_append.mp hb with hb | hb
        · refine List.mem_append_left _ (List.mem_filter.mpr ⟨?_, (List.mem_filter.mp hb).2⟩)
          rcases List.mem_cons.mp (List.mem_filter.mp hb).1 with hb' | hb'
          · exact absurd hb' hbr
          · exact hb'
        · obtain ⟨t', ht', rfl⟩ := List.mem_map.mp hb
          obtain ⟨hin, hkeep⟩ := List.mem_filter.mp ht'
          obtain ⟨hid, hnoref⟩ := by simpa using hkeep
          refine List.mem_append_right _ (List.mem_map.mpr ⟨t', List.mem_filter.mpr ⟨?_, ?_⟩, rfl⟩)
          · rcases List.mem_cons.mp hin with rfl | hin
            · exact absurd (by simp [referenced, hjob, hfile]) hnoref
            · exact hin
          · have hnoref' : ¬ referenced (disk.records.filter (·.jobId = t.jobId)) t' := by
              intro href
              obtain ⟨x, hx, hxe⟩ := List.mem_map.mp href
              obtain ⟨hxin, hxid⟩ := List.mem_filter.mp hx
              exact hnoref (List.mem_map.mpr ⟨x, List.mem_filter.mpr ⟨List.mem_cons_of_mem _ hxin, hxid⟩, hxe⟩)
            simp [hid, hnoref']
      unfold newer
      intro hnew
      rcases h b hold with hlt | ⟨heq, htext⟩
      · omega
      · rcases hnew with hlt | ⟨-, hle⟩
        · omega
        · rw [hrun] at hle
          exact absurd htext (String.not_lt.mpr hle)

end

/-! ## What a record says of a schedule -/

/-- The same decisions about the schedule, and the same last run. -/
structure CronJob.SameDecision (j d : CronJob) : Prop where
  id : j.id = d.id
  schedule : j.schedule = d.schedule
  lifecycle : j.lifecycle = d.lifecycle
  enabled : j.enabled = d.enabled
  retryAttempt : j.state.retryAttempt = d.state.retryAttempt
  repeatCompleted : j.repeatCompleted = d.repeatCompleted
  lastRunAtMs : j.state.lastRunAtMs = d.state.lastRunAtMs
  lastRunId : j.state.lastRunId = d.state.lastRunId
  nextRunAtMs : j.state.nextRunAtMs = d.state.nextRunAtMs

/-- `_recompute_next_runs` treats the two alike. -/
theorem CronJob.SameDecision.recompute {host : Host} {now : Int} {j d : CronJob} (h : j.SameDecision d) :
    (j.recompute host now).SameDecision (d.recompute host now) := by
  obtain ⟨hid, hs, hl, he, hr, hc, hat, hrun, hn⟩ := h
  have hoff : (j.lifecycle ≠ .scheduled ∨ j.enabled = false) ↔ (d.lifecycle ≠ .scheduled ∨ d.enabled = false) := by
    rw [hl, he]
  have hback : (0 < j.state.retryAttempt ∧ j.state.nextRunAtMs ≠ none) ↔
      (0 < d.state.retryAttempt ∧ d.state.nextRunAtMs ≠ none) := by rw [hr, hn]
  have hone : j.schedule.kind = .at_ ↔ d.schedule.kind = .at_ := by rw [hs]
  have hlast : j.state.lastRunAtMs = none ↔ d.state.lastRunAtMs = none := by rw [hat]
  have hcron : (j.schedule.kind = .cron ∧ computeNextRun host j.schedule now = none) ↔
      (d.schedule.kind = .cron ∧ computeNextRun host d.schedule now = none) := by rw [hs]
  have hnext : (truthy j.state.nextRunAtMs).or j.schedule.atMs = (truthy d.state.nextRunAtMs).or d.schedule.atMs := by
    rw [hn, hs]
  have hcomputed : computeNextRun host j.schedule now = computeNextRun host d.schedule now := by rw [hs]
  unfold CronJob.recompute
  by_cases h₁ : d.lifecycle ≠ .scheduled ∨ d.enabled = false
  · rw [if_pos (hoff.mpr h₁), if_pos h₁]
    exact ⟨hid, hs, hl, rfl, hr, hc, hat, hrun, rfl⟩
  rw [if_neg (mt hoff.mp h₁), if_neg h₁]
  by_cases h₂ : 0 < d.state.retryAttempt ∧ d.state.nextRunAtMs ≠ none
  · rw [if_pos (hback.mpr h₂), if_pos h₂]
    exact ⟨hid, hs, hl, he, hr, hc, hat, hrun, hn⟩
  rw [if_neg (mt hback.mp h₂), if_neg h₂]
  by_cases h₃ : d.schedule.kind = .at_
  · rw [if_pos (hone.mpr h₃), if_pos h₃]
    by_cases h₄ : d.state.lastRunAtMs = none
    · rw [if_pos (hlast.mpr h₄), if_pos h₄]
      exact ⟨hid, hs, hl, he, hr, hc, hat, hrun, hnext⟩
    · rw [if_neg (mt hlast.mp h₄), if_neg h₄]
      exact ⟨hid, hs, rfl, rfl, hr, hc, hat, hrun, rfl⟩
  · rw [if_neg (mt hone.mp h₃), if_neg h₃]
    by_cases h₄ : d.schedule.kind = .cron ∧ computeNextRun host d.schedule now = none
    · rw [if_pos (hcron.mpr h₄), if_pos h₄]
      exact ⟨hid, hs, rfl, rfl, hr, hc, hat, hrun, rfl⟩
    · rw [if_neg (mt hcron.mp h₄), if_neg h₄]
      exact ⟨hid, hs, hl, he, hr, hc, hat, hrun, hcomputed⟩

/-- The job waits for a retry. -/
def CronJob.inBackoff (j : CronJob) : Prop :=
  j.lifecycle = .scheduled ∧ 0 < j.state.retryAttempt ∧ j.state.nextRunAtMs ≠ none

/-- A start ends the schedule by itself: a one-shot that has run, or an expression without a time to come. -/
def CronJob.lapses (host : Host) (now : Int) (j : CronJob) : Prop :=
  j.lifecycle = .scheduled ∧ ¬ j.inBackoff ∧
    (j.schedule.kind = .at_ ∧ j.state.lastRunAtMs ≠ none ∨
      j.schedule.kind = .cron ∧ computeNextRun host j.schedule now = none)

/-- What a start leaves of a record. -/
theorem CronJob.recompute_keeps (host : Host) (now : Int) {d : CronJob} (he : d.enabled = true ↔ d.lifecycle = .scheduled)
    (h : ¬ d.lapses host now) :
    (d.recompute host now).lifecycle = d.lifecycle ∧ (d.recompute host now).enabled = d.enabled ∧
      (d.inBackoff → (d.recompute host now).state.nextRunAtMs = d.state.nextRunAtMs) ∧
      (d.lifecycle ≠ .scheduled → (d.recompute host now).state.nextRunAtMs = none) := by
  unfold CronJob.recompute
  by_cases hl : d.lifecycle = .scheduled
  · have hen : d.enabled = true := he.mpr hl
    rw [if_neg (by simp [hl, hen])]
    by_cases hback : 0 < d.state.retryAttempt ∧ d.state.nextRunAtMs ≠ none
    · rw [if_pos hback]
      exact ⟨rfl, rfl, fun _ => rfl, fun hne => absurd hl hne⟩
    · have hno : ¬ d.inBackoff := fun hb => hback hb.2
      rw [if_neg hback]
      by_cases hat : d.schedule.kind = .at_
      · by_cases hlast : d.state.lastRunAtMs = none
        · rw [if_pos hat, if_pos hlast]
          exact ⟨rfl, rfl, fun hb => absurd hb hno, fun hne => absurd hl hne⟩
        · exact absurd ⟨hl, hno, .inl ⟨hat, hlast⟩⟩ h
      · rw [if_neg hat]
        by_cases hcron : d.schedule.kind = .cron ∧ computeNextRun host d.schedule now = none
        · exact absurd ⟨hl, hno, .inr hcron⟩ h
        · rw [if_neg hcron]
          exact ⟨rfl, rfl, fun hb => absurd hb hno, fun hne => absurd hl hne⟩
  · have hoff : d.lifecycle ≠ .scheduled ∨ d.enabled = false := .inl hl
    have hen : d.enabled = false := by
      cases hen : d.enabled with
      | false => rfl
      | true => exact absurd (he.mp hen) hl
    rw [if_pos hoff]
    exact ⟨rfl, hen.symm, fun hb => absurd hb.1 hl, fun _ => rfl⟩

/-! ## The disk -/

/-- The record was written with its run, not made up for a transcript. -/
def RunRecord.indexed (r : RunRecord) : Prop :=
  match r.runId with
  | .uuid _ => True
  | .legacy .. => False

/-- The newest metadata of the job's archive is known to its record. -/
def CronJob.Settled (host : Host) (disk : Disk) (j : CronJob) : Prop :=
  ∀ latest, latestRecord host disk j.id = some latest → latest.indexed → j.knows latest

/-- jobs.json lacks what the newest metadata of the archive says, and would get the decisions of `d` from it. -/
structure Interrupted (host : Host) (disk : Disk) (d old : CronJob) (r : RunRecord) : Prop where
  latest : latestRecord host disk d.id = some r
  unknown : ¬ old.read.knows r
  restored : (old.read.replay r).SameDecision d
  enabled : d.enabled = true ↔ d.lifecycle = .scheduled

/-- The disk at a write: what a next process makes of it is what was to be there. -/
structure Recoverable (host : Host) (now : Int) (disk : Disk) : Prop where
  unique : (disk.jobs.map (·.id)).Nodup
  settled : ∀ j ∈ disk.jobs, j.Settled host disk ∨
    ∃ d, disk.due = some d ∧ d.id = j.id ∧ j.state.lastRunId ≠ d.state.lastRunId
  known : ∀ d, disk.due = some d → ∃ j ∈ disk.jobs, j.id = d.id
  due : ∀ d, disk.due = some d → ∀ j ∈ disk.jobs, j.id = d.id → j.state.lastRunId ≠ d.state.lastRunId →
    ∃ r, Interrupted host disk d j r
  updated : ∀ j ∈ disk.jobs, j.updatedAtMs ≤ now
  completed : ∀ r ∈ disk.records, r.completed ≤ now
  started : ∀ t ∈ disk.transcripts, t.startedAtMs ≤ now

theorem Recoverable.later {host : Host} {disk : Disk} {now now' : Int} (h : Recoverable host now disk) (hle : now ≤ now') :
    Recoverable host now' disk where
  __ := h
  updated j hj := Int.le_trans (h.updated j hj) hle
  completed r hr := Int.le_trans (h.completed r hr) hle
  started t ht := Int.le_trans (h.started t ht) hle

theorem Recoverable.latest_completed {host : Host} {disk : Disk} {now : Int} {id : String} {latest : RunRecord}
    (h : Recoverable host now disk) (hl : latestRecord host disk id = some latest) : latest.completed ≤ now := by
  rcases List.mem_append.mp (latestRecord_mem hl) with hr | hr
  · exact h.completed _ (List.mem_filter.mp hr).1
  · obtain ⟨t, ht, rfl⟩ := List.mem_map.mp hr
    have hstart := h.started t (List.mem_filter.mp ht).1
    have hle := host.runTime_le t.startedAtMs
    unfold RunRecord.completed legacyRunRecord
    dsimp only
    split <;> omega

/-- Records a process that loads the store gets. -/
theorem readFrom_settled {host : Host} {now : Int} {w : World} :
    ∀ j ∈ (w.readFrom host now).jobs, j.Settled host w.disk := by
  intro j hj latest hlatest _
  rcases List.mem_append.mp hj with hj | hj
  · obtain ⟨j₀, hj₀, rfl⟩ := List.mem_map.mp hj
    rw [reconciled_id] at hlatest
    unfold reconciled
    rw [hlatest]
    show (j₀.reconcile latest).knows latest
    unfold CronJob.reconcile
    split
    · assumption
    · exact .inl rfl
  · obtain ⟨dir, -, hdir⟩ := List.mem_filterMap.mp hj
    obtain ⟨latest', hlatest', rfl⟩ := Option.map_eq_some_iff.mp hdir
    have he : latest' = latest := by
      rw [show (recovered now dir latest').id = dir from rfl, hlatest'] at hlatest
      exact Option.some.inj hlatest
    subst he
    exact .inl rfl

/-! ## Memory and disk -/

/-- What a process that has loaded the store has in common with the disk. -/
structure World.Abreast (w : World) : Prop where
  jobs : ∀ j ∈ w.jobs, ∃ old ∈ w.disk.jobs,
    old.id = j.id ∧ old.schedule = j.schedule ∧ old.repeatCompleted = j.repeatCompleted
  /-- There is nothing left to recover. -/
  due : ∀ d, w.disk.due = some d → ∀ j ∈ w.disk.jobs, j.id = d.id → j.state.lastRunId = d.state.lastRunId

/-- A failure alert is awaited: the record in memory names the run, and jobs.json does or is older. -/
structure Alerting (host : Host) (w : World) (x : Execution) (c : Int) : Prop where
  positive : 0 < c
  past : c ≤ w.clock
  older : w.disk.Older host x.run.jobId x.run.runId c
  named : ∀ j ∈ w.jobs, j.id = x.run.jobId →
    j.state.lastRunId = some (.uuid x.run.runId) ∧ j.state.lastRunAtMs = some x.run.startedAtMs
  saved : ∀ old ∈ w.disk.jobs, old.id = x.run.jobId →
    old.state.lastRunId = some (.uuid x.run.runId) ∨ old.updatedAtMs ≤ c

def World.underWay (w : World) (run : Run) : Prop :=
  run ∈ w.owners.map (·.run) ∨ run ∈ w.detached.map (·.run) ∨ run ∈ w.activeRuns.map (·.2)

structure Recovering (host : Host) (now : Int) (w : World) : Prop where
  clock : w.clock = now
  positive : 0 < now
  disk : Recoverable host now w.disk
  settled : ∀ j ∈ w.jobs, j.Settled host w.disk
  updated : ∀ j ∈ w.jobs, j.updatedAtMs ≤ now
  enabled : ∀ j ∈ w.jobs, (j.enabled = true ↔ j.lifecycle = .scheduled)
  base : ∀ x ∈ w.owners, ∀ j ∈ w.jobs, j.id = x.run.jobId → j.repeatCompleted ≤ x.base.repeatCompleted
  started : ∀ run, w.underWay run → 0 < run.startedAtMs ∧ run.startedAtMs ≤ now
  alerting : ∀ x ∈ w.owners, ∀ c, x.place = .alerting c → Alerting host w x c

structure Found (host : Host) (now : Int) (w : World) : Prop where
  clock : w.clock = now
  positive : 0 < now
  disk : Recoverable host now w.disk

/-- What an operation that is not the end of a run makes of a job. -/
structure CronJob.Evolves (now : Int) (j j' : CronJob) : Prop where
  id : j'.id = j.id
  lastRunId : j'.state.lastRunId = j.state.lastRunId
  lastRunAtMs : j'.state.lastRunAtMs = j.state.lastRunAtMs
  updated : j'.updatedAtMs = j.updatedAtMs ∨ j'.updatedAtMs = now
  enabled : (j.enabled = true ↔ j.lifecycle = .scheduled) → (j'.enabled = true ↔ j'.lifecycle = .scheduled)
  repeats : j'.repeatCompleted ≤ j.repeatCompleted

theorem CronJob.Evolves.refl (now : Int) (j : CronJob) : j.Evolves now j := ⟨rfl, rfl, rfl, .inl rfl, fun h => h, Nat.le_refl _⟩

theorem CronJob.Settled.evolves {host : Host} {disk : Disk} {now : Int} {j j' : CronJob} (h : j.Settled host disk)
    (he : j.Evolves now j') (hu : j.updatedAtMs ≤ now) : j'.Settled host disk := by
  intro latest hlatest hind
  rw [he.id] at hlatest
  rcases h latest hlatest hind with hrun | hlt
  · exact .inl (he.lastRunId.trans hrun)
  · refine .inr ?_
    rcases he.updated with heq | heq
    · rw [heq]; exact hlt
    · rw [heq]; exact Int.lt_of_lt_of_le hlt hu

/-! ### Edits and recomputation -/

section

variable {host : Host} {now : Int} {edit : CronJob → Edit} {j j' : CronJob}

theorem CronJob.Left.evolves (h : j.Left now j') : j.Evolves now j' :=
  ⟨h.id, h.lastRunId, h.lastRunAtMs, h.updated, fun hon => by rw [h.enabled, h.lifecycle]; exact hon, Nat.le_of_eq h.repeats⟩

theorem UserEdit.set_evolves {hand : Hand} (he : UserEdit host now edit) (h : edit j = .set j' hand) : j.Evolves now j' := by
  have hon : (true = true ↔ (Lifecycle.scheduled : Lifecycle) = .scheduled) := by simp
  cases he with
  | enable enabled =>
    unfold CronJob.enable at h
    dsimp only at h
    split at h
    · split at h
      · cases h
      · split at h
        · cases h
        · cases h
          exact ⟨rfl, rfl, rfl, .inr rfl, fun _ => hon, Nat.le_refl _⟩
    · split at h
      · cases h
      · cases h
        exact ⟨rfl, rfl, rfl, .inr rfl, fun _ => by simp, Nat.le_refl _⟩
  | update u =>
    unfold CronJob.update at h
    split at h
    · cases h
    · cases h
      exact ⟨rfl, rfl, rfl, .inr rfl, fun _ => hon, Nat.zero_le _⟩
    · cases h
  | delivery error => cases h
  | target => cases h

theorem CronJob.recompute_evolves : j.Evolves now (j.recompute host now) := by
  unfold CronJob.recompute
  split
  · next hoff =>
    refine ⟨rfl, rfl, rfl, .inl rfl, fun he => ?_, Nat.le_refl _⟩
    have hl : j.lifecycle ≠ .scheduled := by
      intro hl
      rcases hoff with hoff | hoff
      · exact hoff hl
      · rw [he.mpr hl] at hoff
        cases hoff
    simp [hl]
  · split
    · exact .refl now j
    · split
      · split
        · exact ⟨rfl, rfl, rfl, .inl rfl, fun h => h, Nat.le_refl _⟩
        · exact ⟨rfl, rfl, rfl, .inl rfl, fun _ => by simp, Nat.le_refl _⟩
      · split
        · exact ⟨rfl, rfl, rfl, .inl rfl, fun _ => by simp, Nat.le_refl _⟩
        · exact ⟨rfl, rfl, rfl, .inl rfl, fun h => h, Nat.le_refl _⟩

theorem forwarded_evolves : j.Evolves now (forwarded host now j) := by
  unfold forwarded
  split
  · exact ⟨rfl, rfl, rfl, .inl rfl, fun h => h, Nat.le_refl _⟩
  · exact .refl now j

theorem advanced_evolves (h : advanced host now j = some j') :
    j.Evolves now j' ∧ j'.schedule = j.schedule ∧ j'.repeatCompleted = j.repeatCompleted := by
  unfold advanced at h
  split at h
  · cases h
  · split at h
    · split at h
      · cases h
      · cases h
        exact ⟨⟨rfl, rfl, rfl, .inl rfl, fun h => h, Nat.le_refl _⟩, rfl, rfl⟩
    · cases h

end

section

variable {host : Host} {now : Int} {w w' : World}

theorem Alerting.keep {x : Execution} {c : Int} (h : Alerting host w x c) (hclock : w'.clock = w.clock)
    (hdisk : w'.disk = w.disk) (hjobs : ∀ j' ∈ w'.jobs, j'.id = x.run.jobId → ∃ j ∈ w.jobs, j.Evolves now j') :
    Alerting host w' x c where
  positive := h.positive
  past := hclock ▸ h.past
  older := hdisk ▸ h.older
  named j' hj' hid := by
    obtain ⟨j, hj, he⟩ := hjobs j' hj' hid
    obtain ⟨hrun, hat⟩ := h.named j hj (he.id.symm.trans hid)
    exact ⟨he.lastRunId.trans hrun, he.lastRunAtMs.trans hat⟩
  saved := hdisk ▸ h.saved

theorem Recoverable.saved (h : Recoverable host now w.disk) (hu : (w.jobs.map (·.id)).Nodup)
    (hsettled : ∀ j ∈ w.jobs, j.Settled host w.disk) (hupdated : ∀ j ∈ w.jobs, j.updatedAtMs ≤ now) :
    Recoverable host now w.saved.disk where
  unique := hu
  settled j hj := by
    refine .inl fun latest hl => ?_
    rw [show latestRecord host w.saved.disk j.id = latestRecord host w.disk j.id from latestRecord_congr rfl rfl] at hl
    exact hsettled j hj latest hl
  known _ hd := by cases hd
  due _ hd := by cases hd
  updated := hupdated
  completed := h.completed
  started := h.started

theorem World.Abreast.put {job job' : CronJob} (h : w.Abreast) (hj : job ∈ w.jobs) (hid : job'.id = job.id)
    (hs : job'.schedule = job.schedule) (hr : job'.repeatCompleted = job.repeatCompleted) : (w.put job').Abreast := by
  refine ⟨fun j hj' => ?_, h.due⟩
  rcases World.put_mem hj' with rfl | ⟨hin, -⟩
  · obtain ⟨old, hold, h₁, h₂, h₃⟩ := h.jobs job hj
    exact ⟨old, hold, h₁.trans hid.symm, h₂.trans hs.symm, h₃.trans hr.symm⟩
  · exact h.jobs j hin

end

namespace Recovering

variable {host : Host} {now : Int} {w w' : World}

/-- Jobs evolve, runs come or go on; the disk is as it was. -/
theorem keep (h : Recovering host now w) (hclock : w'.clock = w.clock) (hdisk : w'.disk = w.disk)
    (hjobs : ∀ j' ∈ w'.jobs, ∃ j ∈ w.jobs, j.Evolves now j')
    (howners : ∀ x' ∈ w'.owners, x' ∈ w.owners ∨ (∀ c, x'.place ≠ .alerting c) ∧
      ∀ j ∈ w.jobs, j.id = x'.run.jobId → j.repeatCompleted ≤ x'.base.repeatCompleted)
    (hruns : ∀ run, w'.underWay run → 0 < run.startedAtMs ∧ run.startedAtMs ≤ now) : Recovering host now w' where
  clock := hclock.trans h.clock
  positive := h.positive
  disk := hdisk ▸ h.disk
  settled j' hj' := by
    obtain ⟨j, hj, he⟩ := hjobs j' hj'
    rw [hdisk]
    exact (h.settled j hj).evolves he (h.updated j hj)
  updated j' hj' := by
    obtain ⟨j, hj, he⟩ := hjobs j' hj'
    rcases he.updated with heq | heq
    · rw [heq]; exact h.updated j hj
    · rw [heq]
  enabled j' hj' := by
    obtain ⟨j, hj, he⟩ := hjobs j' hj'
    exact he.enabled (h.enabled j hj)
  base x' hx' j' hj' hid := by
    obtain ⟨j, hj, he⟩ := hjobs j' hj'
    have hjid := he.id.symm.trans hid
    rcases howners x' hx' with hin | ⟨-, hbase⟩
    · exact Nat.le_trans he.repeats (h.base x' hin j hj hjid)
    · exact Nat.le_trans he.repeats (hbase j hj hjid)
  started := hruns
  alerting x' hx' c hc := by
    rcases howners x' hx' with hin | ⟨hno, -⟩
    · exact Alerting.keep (h.alerting x' hin c hc) hclock hdisk fun j' hj' _ => hjobs j' hj'
    · exact absurd hc (hno c)

/-- Only jobs evolve. -/
theorem evolve (h : Recovering host now w) (hclock : w'.clock = w.clock) (hdisk : w'.disk = w.disk)
    (howners : w'.owners = w.owners) (hdetached : w'.detached = w.detached)
    (hruns : w'.activeRuns = w.activeRuns) (hjobs : ∀ j' ∈ w'.jobs, ∃ j ∈ w.jobs, j.Evolves now j') :
    Recovering host now w' := by
  refine h.keep hclock hdisk hjobs (fun x hx => .inl (howners ▸ hx)) fun run hrun => h.started run ?_
  unfold World.underWay at hrun ⊢
  rw [howners, hdetached, hruns] at hrun
  exact hrun

/-- The store is saved. -/
theorem saved (hu : (w.jobs.map (·.id)).Nodup) (h : Recovering host now w) :
    Found host now w.saved ∧ Recovering host now w.saved ∧ w.saved.Abreast := by
  have hdisk := Recoverable.saved h.disk hu h.settled h.updated
  refine ⟨⟨h.clock, h.positive, hdisk⟩, ?_, fun j hj => ⟨j, hj, rfl, rfl, rfl⟩, fun _ hd => by cases hd⟩
  exact
    { clock := h.clock, positive := h.positive, disk := hdisk
      settled := fun j hj latest hl => by
        rw [show latestRecord host w.saved.disk j.id = latestRecord host w.disk j.id from latestRecord_congr rfl rfl] at hl
        exact h.settled j hj latest hl
      updated := h.updated, enabled := h.enabled, base := h.base, started := h.started
      alerting := fun x hx c hc =>
        have ha := h.alerting x hx c hc
        { positive := ha.positive, past := ha.past, older := ha.older, named := ha.named
          saved := fun old hold hid => .inl (ha.named old hold hid).1 } }

/-! ### The end of a run -/

/-- What is asked of the end of a run: its times, and that its metadata will be the newest. -/
structure Fresh (host : Host) (w : World) (run : Run) (e : Ending) : Prop where
  started : 0 < run.startedAtMs ∧ run.startedAtMs ≤ w.clock
  older : (∃ c, e = .alerted c) ∨ w.disk.Older host run.jobId run.runId w.clock

/-- What the record of the job says after its run, beside what the metadata does. -/
structure Closes (run : Run) (job final : CronJob) : Prop where
  lastRunId : final.state.lastRunId = some (.uuid run.runId)
  lastRunAtMs : final.state.lastRunAtMs = some run.startedAtMs
  schedule : final.schedule = job.schedule
  enabled : final.enabled = true ↔ final.lifecycle = .scheduled
  repeats : job.repeatCompleted ≤ final.repeatCompleted

section

variable {run : Run} {manual : Bool} {e : Ending} {job final : CronJob}

theorem Closes.count {fires : Nat} {t : Int} (h : Closes run job final) (hle : job.repeatCompleted ≤ fires) :
    Closes run job (final.count fires t) ∧ (final.count fires t).updatedAtMs = final.updatedAtMs := by
  unfold CronJob.count
  dsimp only
  split
  · exact ⟨⟨h.lastRunId, h.lastRunAtMs, h.schedule, by simp, hle⟩, rfl⟩
  · exact ⟨⟨h.lastRunId, h.lastRunAtMs, h.schedule, h.enabled, hle⟩, rfl⟩

/-- An alert apart, the end of a run updates its job now. -/
theorem final_closes (now : Int) (stopping manual : Bool) (ht : ∀ c, e = .alerted c → job.state.lastRunId = some (.uuid run.runId) ∧
      job.state.lastRunAtMs = some run.startedAtMs) (he : job.enabled = true ↔ job.lifecycle = .scheduled)
    (hb : ∀ base, e = .cancelled base → job.repeatCompleted ≤ base.repeatCompleted) :
    Closes run job (e.final now stopping run manual job) ∧
      ((e.final now stopping run manual job).updatedAtMs = job.updatedAtMs ∨
        (e.final now stopping run manual job).updatedAtMs = now) := by
  cases e with
  | retried o => exact ⟨⟨rfl, rfl, rfl, he, Nat.le_refl _⟩, .inr rfl⟩
  | ended o =>
    have hran : Closes run job (if o.failed then (job.ran (.uuid run.runId) run.startedAtMs now o).fail
          else (job.ran (.uuid run.runId) run.startedAtMs now o).succeed) ∧
        (if o.failed then (job.ran (.uuid run.runId) run.startedAtMs now o).fail
          else (job.ran (.uuid run.runId) run.startedAtMs now o).succeed).updatedAtMs = now ∧
        (if o.failed then (job.ran (.uuid run.runId) run.startedAtMs now o).fail
          else (job.ran (.uuid run.runId) run.startedAtMs now o).succeed).repeatCompleted = job.repeatCompleted := by
      split <;> exact ⟨⟨rfl, rfl, rfl, he, Nat.le_refl _⟩, rfl, rfl⟩
    obtain ⟨hcloses, hupdated, hrep⟩ := hran
    cases manual with
    | true => exact ⟨hcloses, .inr hupdated⟩
    | false =>
      obtain ⟨hc, hu⟩ := hcloses.count (t := now) (Nat.le_trans (Nat.le_of_eq hrep.symm) (Nat.le_succ _))
      exact ⟨hc, .inr (hu.trans hupdated)⟩
  | alerted c =>
    obtain ⟨hrun, hat⟩ := ht c rfl
    have hcloses : Closes run job job := ⟨hrun, hat, rfl, he, Nat.le_refl _⟩
    cases manual with
    | true => exact ⟨hcloses, .inl rfl⟩
    | false =>
      obtain ⟨hc, hu⟩ := hcloses.count (t := c) (Nat.le_succ _)
      exact ⟨hc, .inl hu⟩
  | cancelled base =>
    have hcloses : Closes run job (job.interrupted (.uuid run.runId) run.startedAtMs now stopping manual base) :=
      ⟨rfl, rfl, rfl, he, Nat.le_refl _⟩
    cases manual with
    | true => exact ⟨hcloses, .inr rfl⟩
    | false =>
      obtain ⟨hc, hu⟩ := hcloses.count (t := now) (Nat.le_succ_of_le (hb base rfl))
      exact ⟨hc, .inr hu⟩

theorem current_settled (h : Recovering host now w) (ha : w.Abreast) : ∀ j ∈ w.disk.jobs, j.Settled host w.disk := by
  intro j hj
  rcases h.disk.settled j hj with hs | ⟨d, hd, hid, hne⟩
  · exact hs
  · exact absurd (ha.due d hd j hj hid.symm) hne

/-- The transcript of a run without its metadata. -/
theorem transcript (h : Recovering host now w) (ha : w.Abreast) {t : Transcript} (ht : t.startedAtMs ≤ now) :
    Recoverable host now { w.disk with transcripts := t :: w.disk.transcripts } where
  unique := h.disk.unique
  settled j hj := by
    refine .inl fun latest hlatest hind => ?_
    by_cases hid : t.jobId = j.id
    · rw [← hid] at hlatest
      rcases latestRecord_transcript host w.disk t with hlegacy | hsame
      · rw [hlegacy] at hlatest
        cases hlatest
        exact absurd hind id
      · rw [hsame, hid] at hlatest
        exact h.current_settled ha j hj latest hlatest hind
    · rw [latestRecord_transcript_other hid] at hlatest
      exact h.current_settled ha j hj latest hlatest hind
  known := h.disk.known
  due d hd j hj hid hne := absurd (ha.due d hd j hj hid) hne
  updated := h.disk.updated
  completed := h.disk.completed
  started t' ht' := by
    rcases List.mem_cons.mp ht' with rfl | ht'
    · exact ht
    · exact h.disk.started t' ht'

/-- The metadata of a run whose job record is still to be saved. -/
theorem metadata (h : Recovering host now w) (ha : w.Abreast) {t : Transcript} {c : Int}
    (hc : 0 < c ∧ c ≤ now) (hstart : 0 < run.startedAtMs ∧ run.startedAtMs ≤ now)
    (ht : t.jobId = final.id ∧ t.startedAtMs = run.startedAtMs ∧ t.run = run.runId) (hj : job ∈ w.jobs)
    (hid : final.id = job.id) (hcloses : Closes run job final) (holder : w.disk.Older host final.id run.runId c)
    (hsaved : ∀ old ∈ w.disk.jobs, old.id = final.id → old.state.lastRunId = some (.uuid run.runId) ∨ old.updatedAtMs ≤ c) :
    let r := final.record run.runId run.startedAtMs c
    Recoverable host now
        { w.disk with transcripts := t :: w.disk.transcripts, records := r :: w.disk.records, due := some final } ∧
      ∀ jobs due, latestRecord host
        { jobs, transcripts := t :: w.disk.transcripts, records := r :: w.disk.records, due } final.id = some r := by
  intro r
  have hcompleted : r.completed = c := by
    show (if c = 0 then run.startedAtMs else c) = c
    rw [if_neg (by omega)]
  have hlatest : ∀ jobs due, latestRecord host
      { jobs, transcripts := t :: w.disk.transcripts, records := r :: w.disk.records, due } final.id = some r := by
    intro jobs due
    rw [← ht.1]
    refine latestRecord_recorded run.runId ht.1.symm ?_ rfl ?_
    · rw [ht.2.1, ht.2.2]
      rfl
    · rw [ht.1, hcompleted]
      exact holder
  obtain ⟨saved, hsavedMem, hsid, hsched, hrep⟩ := ha.jobs job hj
  have hold : ∀ j ∈ w.disk.jobs, j.id = final.id → j = saved := fun j hj' he =>
    List.inj_on_of_nodup_map h.disk.unique hj' hsavedMem (he.trans (hid.trans hsid.symm))
  refine ⟨⟨h.disk.unique, fun j hj' => ?_, fun d hd => ?_, fun d hd j hj' hjid hne => ?_, h.disk.updated, fun x hx => ?_,
    fun t' ht' => ?_⟩, hlatest⟩
  · by_cases he : final.id = j.id
    · by_cases hrun : j.state.lastRunId = final.state.lastRunId
      · refine .inl fun latest hl' _ => ?_
        rw [← he, hlatest] at hl'
        cases hl'
        exact .inl (hrun.trans hcloses.lastRunId)
      · exact .inr ⟨final, rfl, he, hrun⟩
    · refine .inl fun latest hl' hind => ?_
      rw [latestRecord_other (ht.1 ▸ he) he] at hl'
      exact h.current_settled ha j hj' latest hl' hind
  · cases hd
    exact ⟨saved, hsavedMem, hsid.trans hid.symm⟩
  · cases hd
    have hjs := hold j hj' hjid
    refine ⟨r, hlatest _ _, ?_, ?_, hcloses.enabled⟩
    · intro hknows
      rcases hknows with hrun | hlt
      · exact hne (Eq.trans hrun hcloses.lastRunId.symm)
      · rcases hsaved j hj' hjid with hrun | hle
        · exact hne (hrun.trans hcloses.lastRunId.symm)
        · rw [hcompleted] at hlt
          exact absurd hle (Int.not_le.mpr hlt)
    · refine ⟨hjid, ?_, rfl, ?_, rfl, ?_, ?_, hcloses.lastRunId.symm, rfl⟩
      · show j.schedule = final.schedule
        rw [hjs, hsched, hcloses.schedule]
      · show decide (final.lifecycle = .scheduled) = final.enabled
        have := hcloses.enabled
        cases hen : final.enabled <;> simp_all
      · show max j.repeatCompleted final.repeatCompleted = final.repeatCompleted
        rw [hjs, hrep]
        exact Nat.max_eq_right hcloses.repeats
      · show truthy (some run.startedAtMs) = final.state.lastRunAtMs
        have hne0 : run.startedAtMs ≠ 0 := by omega
        rw [hcloses.lastRunAtMs]
        simp [truthy, hne0]
  · rcases List.mem_cons.mp hx with rfl | hx
    · exact hcompleted ▸ hc.2
    · exact h.disk.completed x hx
  · rcases List.mem_cons.mp ht' with rfl | ht'
    · exact ht.2.1 ▸ hstart.2
    · exact h.disk.started t' ht'

/-- The tasks of other jobs. -/
theorem other_owner (g : Control w) (hh : w.holds run) {x : Execution} (hx : x ∈ w.owners) (hne : x.run.runId ≠ run.runId) :
    x.run.jobId ≠ run.jobId := by
  intro he
  have hx' := g.held _ (List.mem_map_of_mem hx)
  unfold World.holds at hh hx'
  rw [he] at hx'
  exact hne (Option.some.inj (hx'.symm.trans hh))

/-- When a run counts as completed: now, or when its alert began. -/
theorem completed_at (h : Recovering host now w) (hfresh : Fresh host w run e)
    (hal : ∀ c, e = .alerted c → ∃ x ∈ w.owners, x.run = run ∧ x.place = .alerting c) :
    (0 < e.completedAt now ∧ e.completedAt now ≤ now) ∧ w.disk.Older host run.jobId run.runId (e.completedAt now) ∧
      ∀ old ∈ w.disk.jobs, old.id = run.jobId →
        old.state.lastRunId = some (.uuid run.runId) ∨ old.updatedAtMs ≤ e.completedAt now := by
  by_cases hc : ∃ c, e = .alerted c
  · obtain ⟨c, rfl⟩ := hc
    obtain ⟨x, hx, hrun, hp⟩ := hal c rfl
    obtain ⟨hpos, hpast, holder, -, hsaved⟩ := h.alerting x hx c hp
    rw [hrun] at holder hsaved
    exact ⟨⟨hpos, h.clock ▸ hpast⟩, holder, hsaved⟩
  · have hnow : e.completedAt now = now := by
      cases e with
      | alerted c => exact absurd ⟨c, rfl⟩ hc
      | _ => rfl
    rw [hnow]
    exact ⟨⟨h.positive, Int.le_refl _⟩, h.clock ▸ hfresh.older.resolve_left hc, fun old hold _ => .inr (h.disk.updated old hold)⟩

theorem alerted_named (h : Recovering host now w) (hmem : job ∈ w.jobs) (hjid : job.id = run.jobId)
    (hal : ∀ c, e = .alerted c → ∃ x ∈ w.owners, x.run = run ∧ x.place = .alerting c) :
    ∀ c, e = .alerted c → job.state.lastRunId = some (.uuid run.runId) ∧ job.state.lastRunAtMs = some run.startedAtMs := by
  intro c he
  obtain ⟨x, hx, hrun, hp⟩ := hal c he
  have hnamed := (h.alerting x hx c hp).named job hmem (hrun ▸ hjid)
  rw [hrun] at hnamed
  exact hnamed

theorem put_final_mem (hfid : final.id = run.jobId) {j : CronJob} (hj : j ∈ (w.put final).jobs) :
    j = final ∨ j ∈ w.jobs ∧ j.id ≠ run.jobId := by
  rcases World.put_mem hj with rfl | ⟨hin, hne⟩
  · exact .inl rfl
  · exact .inr ⟨hin, hfid ▸ hne⟩

/-- The job record is saved behind the metadata of its run. -/
theorem closed_disk (g : Control w) (h : Recovering host now w) (hmem : job ∈ w.jobs) (hfid : final.id = run.jobId)
    (hcloses : Closes run job final) (hupdated : final.updatedAtMs = job.updatedAtMs ∨ final.updatedAtMs = now)
    {t : Transcript} {r : RunRecord} (ht : t.jobId = final.id) (hr : r.jobId = final.id)
    (hrun : r.runId = .uuid run.runId)
    (hR : Recoverable host now
      { w.disk with transcripts := t :: w.disk.transcripts, records := r :: w.disk.records, due := some final })
    (hlatest : ∀ jobs due, latestRecord host
      { jobs, transcripts := t :: w.disk.transcripts, records := r :: w.disk.records, due } final.id = some r) :
    let disk : Disk :=
      { jobs := (w.put final).jobs, transcripts := t :: w.disk.transcripts, records := r :: w.disk.records, due := none }
    Recoverable host now disk ∧ ∀ j ∈ disk.jobs, j.Settled host disk := by
  intro disk
  have hsettled : ∀ j ∈ disk.jobs, j.Settled host disk := by
    intro j hj latest hlat hind
    rcases put_final_mem hfid hj with rfl | ⟨hin, hne⟩
    · rw [hlatest] at hlat
      cases hlat
      exact .inl (hcloses.lastRunId.trans (congrArg some hrun.symm))
    · have hne' : final.id ≠ j.id := fun he => hne (he.symm.trans hfid)
      rw [latestRecord_other (ht ▸ hne') (hr ▸ hne')] at hlat
      exact h.settled j hin latest hlat hind
  have hup : ∀ j ∈ disk.jobs, j.updatedAtMs ≤ now := by
    intro j hj
    rcases put_final_mem hfid hj with rfl | ⟨hin, -⟩
    · rcases hupdated with he | he
      · exact he ▸ h.updated job hmem
      · exact Int.le_of_eq he
    · exact h.updated j hin
  have hunique : (disk.jobs.map (·.id)).Nodup := by
    show ((w.put final).jobs.map (·.id)).Nodup
    rw [Control.put_ids]
    exact g.unique
  refine ⟨?_, hsettled⟩
  exact
    { unique := hunique, settled := fun j hj => .inl (hsettled j hj), known := fun _ hd => by (cases hd)
      due := fun _ hd => by (cases hd), updated := hup, completed := hR.completed, started := hR.started }

/-- The end of a run. -/
theorem endRun (manual : Bool) (e : Ending) (g : Control w) (h : Recovering host now w) (ha : w.Abreast)
    (hj : w.job? run.jobId = some job) (hh : w.holds run) (hfresh : Fresh host w run e)
    (hal : ∀ c, e = .alerted c → ∃ x ∈ w.owners, x.run = run ∧ x.place = .alerting c)
    (hb : ∀ base, e = .cancelled base → job.repeatCompleted ≤ base.repeatCompleted) (f : Follow) :
    Found host now (w.transcribed now run manual e job) ∧ Found host now (w.recorded now run manual e job) ∧
      Found host now (w.recorded now run manual e job).saved ∧
      Recovering host now ((w.over now run manual e job).follow run.runId f) ∧
      ((w.over now run manual e job).follow run.runId f).Abreast := by
  have hmem := World.job?_mem hj
  have hjid := World.job?_id hj
  have hfid : (e.final now w.stopping run manual job).id = run.jobId := Ending.final_id.trans hjid
  have hstart : 0 < run.startedAtMs ∧ run.startedAtMs ≤ now := h.clock ▸ hfresh.started
  obtain ⟨hpos, holder, hsaved⟩ := h.completed_at hfresh hal
  obtain ⟨hcloses, hupdated⟩ := final_closes now w.stopping manual (h.alerted_named hmem hjid hal) (h.enabled job hmem) hb
  rw [← hfid] at holder
  obtain ⟨hR, hlatest⟩ := h.metadata ha (t := ⟨(e.final now w.stopping run manual job).id,
    (e.final now w.stopping run manual job).name, run.startedAtMs, run.runId, e.failed⟩) hpos hstart ⟨rfl, rfl, rfl⟩ hmem
    Ending.final_id hcloses holder (fun old hold hid => hsaved old hold (hid.trans hfid))
  have hfollow : Recovering host now (w.over now run manual e job) ∧ (w.over now run manual e job).Abreast →
      Recovering host now ((w.over now run manual e job).follow run.runId f) ∧
        ((w.over now run manual e job).follow run.runId f).Abreast := by
    intro ho
    cases f <;> exact ⟨ho.1.evolve rfl rfl rfl rfl rfl fun j hj => ⟨j, hj, .refl now j⟩, ho.2.jobs, ho.2.due⟩
  obtain ⟨hdisk, hsettled⟩ := h.closed_disk g hmem hfid hcloses hupdated rfl rfl rfl hR hlatest
  suffices hover : Recovering host now (w.over now run manual e job) from
    ⟨⟨h.clock, h.positive, h.transcript ha hstart.2⟩, ⟨h.clock, h.positive, hR⟩, ⟨h.clock, h.positive, hdisk⟩,
      hfollow ⟨hover, fun j hj => ⟨j, hj, rfl, rfl, rfl⟩, fun _ hd => by cases hd⟩⟩
  obtain ⟨final, hfinal⟩ : ∃ final, e.final now w.stopping run manual job = final := ⟨_, rfl⟩
  unfold World.over World.recorded World.transcribed
  dsimp only
  rw [hfinal] at hfid hcloses hdisk hsettled ⊢
  exact
    { clock := h.clock, positive := h.positive, disk := hdisk
      settled := hsettled, updated := hdisk.updated
      enabled := fun j hj' => by
        rcases put_final_mem hfid hj' with rfl | ⟨hin, -⟩
        · exact hcloses.enabled
        · exact h.enabled j hin
      base := fun x hx j hj' hid => by
        obtain ⟨hin, hne⟩ := List.mem_filter.mp hx
        have hjob := other_owner g hh hin (by simpa using hne)
        rcases put_final_mem hfid hj' with rfl | ⟨hjin, -⟩
        · exact absurd (hid.symm.trans hfid) hjob
        · exact h.base x hin j hjin hid
      started := fun run' hrun' => by
        refine h.started run' ?_
        rcases hrun' with ho | hd | ha'
        · obtain ⟨x, hx, rfl⟩ := List.mem_map.mp ho
          exact .inl (List.mem_map_of_mem (List.mem_filter.mp hx).1)
        · exact .inr (.inl hd)
        · obtain ⟨a, hx, rfl⟩ := List.mem_map.mp ha'
          exact .inr (.inr (List.mem_map_of_mem (List.mem_filter.mp hx).1))
      alerting := fun x hx c hc => by
        obtain ⟨hin, hne⟩ := List.mem_filter.mp hx
        have hjob := other_owner g hh hin (by simpa using hne)
        have hne' : final.id ≠ x.run.jobId := fun he => hjob (he.symm.trans hfid)
        have hx' := h.alerting x hin c hc
        have hnamed' : ∀ j ∈ (w.put final).jobs, j.id = x.run.jobId →
            j.state.lastRunId = some (.uuid x.run.runId) ∧ j.state.lastRunAtMs = some x.run.startedAtMs := by
          intro j hj' hid
          rcases put_final_mem hfid hj' with rfl | ⟨hjin, -⟩
          · exact absurd hid hne'
          · exact hx'.named j hjin hid
        refine ⟨hx'.positive, hx'.past, fun r hr => hx'.older r ?_, hnamed', fun old hold hid => .inl (hnamed' old hold hid).1⟩
        have hr' : r ∈ unsortedRunRecords host
            { jobs := (w.put final).jobs
              transcripts := ⟨final.id, final.name, run.startedAtMs, run.runId, e.failed⟩ :: w.disk.transcripts
              records := final.record run.runId run.startedAtMs (e.completedAt now) :: w.disk.records, due := none }
            x.run.jobId := hr
        rw [unsortedRunRecords_other hne' hne'] at hr'
        exact hr' }

end

/-! ### The store is read -/

theorem readFrom_facts (h : Recoverable host now w.disk) : ∀ j ∈ (w.readFrom host now).jobs,
    j.updatedAtMs ≤ now ∧ (j.enabled = true ↔ j.lifecycle = .scheduled) := by
  have hread : ∀ j : CronJob, (j.read.enabled = true ↔ j.read.lifecycle = .scheduled) := fun j => decide_eq_true_iff
  intro j hj
  rcases List.mem_append.mp hj with hj | hj
  · obtain ⟨j', hj', rfl⟩ := List.mem_map.mp hj
    obtain ⟨old, hold, rfl⟩ := List.mem_map.mp hj'
    unfold reconciled
    split
    · next latest hlatest =>
      unfold CronJob.reconcile
      split
      · exact ⟨h.updated old hold, hread old⟩
      · refine ⟨h.latest_completed hlatest, ?_⟩
        unfold CronJob.replay
        cases latest.lifecycleAfterRun with
        | none => exact hread old
        | some after => exact decide_eq_true_iff
    · exact ⟨h.updated old hold, hread old⟩
  · obtain ⟨dir, -, hdir⟩ := List.mem_filterMap.mp hj
    obtain ⟨latest, hlatest, rfl⟩ := Option.map_eq_some_iff.mp hdir
    exact ⟨h.latest_completed hlatest, by simp [recovered]⟩

theorem reread (g : Control w) (h : Recovering host now w) : Found host now (w.readFrom host now).saved where
  clock := h.clock
  positive := h.positive
  disk := Recoverable.saved (w := w.readFrom host now) h.disk g.readFrom_unique readFrom_settled fun j hj =>
    (readFrom_facts h.disk j hj).1

/-- The store is read while no run is under way. -/
theorem read (g : Control w) (h : Recovering host now w) (hl : w.loaded = false) : Recovering host now (w.readFrom host now) := by
  have howners := (g.idle hl).2.2
  have hnone : ∀ x, x ∉ (w.readFrom host now).owners := by
    intro x hx
    rw [show (w.readFrom host now).owners = w.owners from rfl, howners] at hx
    cases hx
  exact
    { clock := h.clock, positive := h.positive, disk := h.disk, settled := readFrom_settled
      updated := fun j hj => (readFrom_facts h.disk j hj).1, enabled := fun j hj => (readFrom_facts h.disk j hj).2
      base := fun x hx => absurd hx (hnone x), started := h.started, alerting := fun x hx => absurd hx (hnone x) }

/-- Where nothing was to recover, memory and disk agree. -/
theorem abreast_of_quiet (h : Recovering host now w)
    (hq : recoveryChanges host w.disk (w.disk.jobs.map CronJob.read) = false) : (w.readFrom host now).Abreast := by
  unfold recoveryChanges at hq
  rw [Bool.or_eq_false_iff] at hq
  obtain ⟨hknows, hdirs⟩ := hq
  have hall : ∀ old ∈ w.disk.jobs, ∀ latest, latestRecord host w.disk old.id = some latest → old.read.knows latest := by
    intro old hold latest hlatest
    have := List.any_eq_false.mp hknows old.read (List.mem_map_of_mem hold)
    rw [show old.read.id = old.id from rfl, hlatest] at this
    simpa using this
  refine ⟨fun j hj => ?_, fun d hd j hj hid => ?_⟩
  · rcases List.mem_append.mp hj with hj | hj
    · obtain ⟨j', hj', rfl⟩ := List.mem_map.mp hj
      obtain ⟨old, hold, rfl⟩ := List.mem_map.mp hj'
      refine ⟨old, hold, ?_⟩
      unfold reconciled
      split
      · next latest hlatest =>
        unfold CronJob.reconcile
        rw [if_pos (hall old hold latest hlatest)]
        exact ⟨rfl, rfl, rfl⟩
      · exact ⟨rfl, rfl, rfl⟩
    · obtain ⟨dir, hdir, hmade⟩ := List.mem_filterMap.mp hj
      obtain ⟨latest, hlatest, rfl⟩ := Option.map_eq_some_iff.mp hmade
      obtain ⟨hin, hout⟩ := List.mem_filter.mp hdir
      have hno := List.any_eq_false.mp hdirs dir hin
      rw [decide_eq_true_iff] at hno hout
      exact absurd ⟨hout, by rw [hlatest]; rfl⟩ hno
  · by_contra hne
    obtain ⟨r, hr⟩ := h.disk.due d hd j hj hid hne
    exact hr.unknown (hall j hj r (hid ▸ hr.latest))

/-- The jobs without a run are read again. -/
theorem keeping (g : Control w) (h : Recovering host now w) : Recovering host now ((w.readFrom host now).keeping w) := by
  have howned : ∀ x ∈ w.owners, ∀ j ∈ ((w.readFrom host now).keeping w).jobs, j.id = x.run.jobId → j ∈ w.jobs := by
    intro x hx j hj hid
    obtain ⟨r, hr, -⟩ := g.holds_iff.mp (g.held _ (List.mem_map_of_mem hx))
    rcases g.keeping_mem hj with hin | ⟨-, hno⟩
    · exact hin
    · exact absurd hid.symm (hno _ hr)
  have hfacts : ∀ j ∈ ((w.readFrom host now).keeping w).jobs,
      j.Settled host w.disk ∧ j.updatedAtMs ≤ now ∧ (j.enabled = true ↔ j.lifecycle = .scheduled) := by
    intro j hj
    rcases g.keeping_mem hj with hin | ⟨hin, -⟩
    · exact ⟨h.settled j hin, h.updated j hin, h.enabled j hin⟩
    · exact ⟨readFrom_settled j hin, readFrom_facts h.disk j hin⟩
  exact
    { clock := h.clock, positive := h.positive, disk := h.disk, settled := fun j hj => (hfacts j hj).1
      updated := fun j hj => (hfacts j hj).2.1, enabled := fun j hj => (hfacts j hj).2.2
      base := fun x hx j hj hid => h.base x hx j (howned x hx j hj hid) hid, started := h.started
      alerting := fun x hx c hc =>
        have ha := h.alerting x hx c hc
        { positive := ha.positive, past := ha.past, older := ha.older
          named := fun j hj hid => ha.named j (howned x hx j hj hid) hid, saved := ha.saved } }

theorem recomputed (g : (w.jobs.map (·.id)).Nodup) (h : Recovering host now w) :
    Found host now (w.recomputed host now).saved ∧ Recovering host now (w.recomputed host now).saved ∧
      (w.recomputed host now).saved.Abreast := by
  refine saved ?_ (h.evolve rfl rfl rfl rfl rfl fun j' hj' => ?_)
  · show ((w.jobs.map (CronJob.recompute host now)).map (·.id)).Nodup
    rw [Control.map_ids (Control.recompute_id host now)]
    exact g
  · obtain ⟨j, hj, rfl⟩ := List.mem_map.mp hj'
    exact ⟨j, hj, CronJob.recompute_evolves⟩

/-! ### Acts -/

/-- Nothing but the log, the publications and the pass is changed. -/
theorem quiet (h : Recovering host now w ∧ (w.loaded = true → w.Abreast)) (hclock : w'.clock = w.clock)
    (hdisk : w'.disk = w.disk) (hjobs : w'.jobs = w.jobs) (hloaded : w'.loaded = w.loaded) (howners : w'.owners = w.owners)
    (hruns : ∀ run, w'.underWay run → w.underWay run) :
    Recovering host now w' ∧ (w'.loaded = true → w'.Abreast) := by
  refine ⟨h.1.keep hclock hdisk (fun j hj => ⟨j, hjobs ▸ hj, .refl now j⟩) (fun x hx => .inl (howners ▸ hx))
    fun run hrun => h.1.started run (hruns run hrun), fun hl => ?_⟩
  obtain ⟨hj, hd⟩ := h.2 (hloaded ▸ hl)
  exact ⟨by rw [hjobs, hdisk]; exact hj, by rw [hdisk]; exact hd⟩

theorem put {job job' : CronJob} (h : Recovering host now w) (hj : job ∈ w.jobs) (he : job.Evolves now job') :
    Recovering host now (w.put job') := by
  refine h.evolve rfl rfl rfl rfl rfl fun j hj' => ?_
  rcases World.put_mem hj' with rfl | ⟨hin, -⟩
  · exact ⟨job, hj, he⟩
  · exact ⟨j, hin, .refl now j⟩

theorem undetach_underWay {run : Run} {n : Nat} (h : (w.undetach n).underWay run) : w.underWay run := by
  rcases h with ho | hd | ha
  · exact .inl ho
  · obtain ⟨d, hin, rfl⟩ := List.mem_map.mp hd
    exact .inr (.inl (List.mem_map_of_mem (List.mem_filter.mp hin).1))
  · exact .inr (.inr ha)

theorem enter {run : Run} {manual inPass : Bool} {base : Baseline}
    (h : Recovering host now w) (hstart : 0 < run.startedAtMs ∧ run.startedAtMs ≤ now)
    (hb : ∀ j ∈ w.jobs, j.id = run.jobId → j.repeatCompleted ≤ base.repeatCompleted) :
    Recovering host now (w.enter run manual inPass base) := by
  refine h.keep rfl rfl (fun j hj => ⟨j, hj, .refl now j⟩) (fun x hx => ?_) fun run' hrun' => ?_
  · rcases List.mem_cons.mp hx with rfl | hx
    · exact .inr ⟨fun c hc => (by cases hc), hb⟩
    · exact .inl hx
  · rcases hrun' with ho | hd | ha
    · rcases List.mem_cons.mp ho with rfl | ho
      · exact hstart
      · exact h.started run' (.inl ho)
    · exact h.started run' (.inr (.inl hd))
    · obtain ⟨a, hin, rfl⟩ := List.mem_map.mp ha
      obtain ⟨a', hin', rfl⟩ := List.mem_map.mp hin
      have hs := h.started a'.2 (.inr (.inr (List.mem_map_of_mem hin')))
      dsimp only
      split <;> exact hs

theorem reserve (id : String) (manual : Bool) (h : Recovering host now w) : Recovering host now (w.reserve now id manual) := by
  refine h.keep rfl rfl (fun j hj => ⟨j, hj, .refl now j⟩) (fun x hx => .inl hx) fun run hrun => ?_
  rcases hrun with ho | hd | ha
  · exact h.started run (.inl ho)
  · exact h.started run (.inr (.inl hd))
  · obtain ⟨a, hin, rfl⟩ := List.mem_map.mp ha
    rcases List.mem_append.mp hin with hin | hin
    · exact h.started a.2 (.inr (.inr (List.mem_map_of_mem hin)))
    · cases List.mem_singleton.mp hin
      exact ⟨h.positive, Int.le_refl _⟩

theorem baseline_le (g : (w.jobs.map (·.id)).Nodup) {job : CronJob} (hj : job ∈ w.jobs) :
    ∀ j ∈ w.jobs, j.id = job.id → j.repeatCompleted ≤ job.baseline.repeatCompleted := by
  intro j hj' he
  rw [List.inj_on_of_nodup_map g hj' hj he]
  exact Nat.le_refl _

/-- `on_job` failed, and the alert is awaited. -/
theorem alert {x : Execution} {o : Outcome} {job : CronJob} (g : Control w) (h : Recovering host now w) (ha : w.Abreast)
    (hx : x ∈ w.owners) (hj : w.job? x.run.jobId = some job)
    (hold : ∀ r ∈ unsortedRunRecords host w.disk x.run.jobId, r.completed < w.clock) :
    Recovering host now (w.alert now x o job) ∧ (w.alert now x o job).Abreast := by
  have hmem := World.job?_mem hj
  have hjid := World.job?_id hj
  obtain ⟨failed, hfailed⟩ : ∃ failed : CronJob,
      { (job.ran (.uuid x.run.runId) x.run.startedAtMs now o).fail with state.lastAlertAtMs := some now } = failed := ⟨_, rfl⟩
  have hfacts : failed.id = job.id ∧ failed.schedule = job.schedule ∧ failed.repeatCompleted = job.repeatCompleted ∧
      failed.state.lastRunId = some (.uuid x.run.runId) ∧ failed.state.lastRunAtMs = some x.run.startedAtMs ∧
      failed.updatedAtMs = now ∧ failed.enabled = job.enabled ∧ failed.lifecycle = job.lifecycle := by
    subst hfailed
    exact ⟨rfl, rfl, rfl, rfl, rfl, rfl, rfl, rfl⟩
  obtain ⟨hid, hs, hrep, hrun, hat, hup, hen, hlife⟩ := hfacts
  have hput : ∀ j ∈ (w.put failed).jobs, j = failed ∨ j ∈ w.jobs ∧ j.id ≠ x.run.jobId := by
    intro j hj'
    rcases World.put_mem hj' with rfl | ⟨hin, hne⟩
    · exact .inl rfl
    · exact .inr ⟨hin, fun he => hne (he.trans (hjid.symm.trans hid.symm))⟩
  have howner : ∀ y ∈ ((w.put failed).moveTo x (.alerting now)).owners, y ∈ w.owners ∧ y.run.runId ≠ x.run.runId ∨
      ∃ z ∈ w.owners, z.run.runId = x.run.runId ∧ y = { z with place := .alerting now } := by
    intro y hy
    obtain ⟨z, hz, rfl⟩ := List.mem_map.mp hy
    split
    · next he => exact .inr ⟨z, hz, he, rfl⟩
    · next hne => exact .inl ⟨hz, hne⟩
  have hsame : ∀ z ∈ w.owners, z.run.runId = x.run.runId → z = x := fun z hz he =>
    List.inj_on_of_nodup_map g.ownerIds hz hx he
  have habreast : (w.put failed).Abreast := ha.put hmem hid hs hrep
  unfold World.alert
  rw [hfailed]
  refine ⟨?_, habreast.jobs, habreast.due⟩
  exact
    { clock := h.clock, positive := h.positive, disk := h.disk
      settled := fun j hj' latest hlatest hind => by
        rcases hput j hj' with rfl | ⟨hin, -⟩
        · have hlt := hold latest (hjid ▸ hid ▸ latestRecord_mem hlatest)
          refine .inr ?_
          rw [hup, ← h.clock]
          exact hlt
        · exact h.settled j hin latest hlatest hind
      updated := fun j hj' => by
        rcases hput j hj' with rfl | ⟨hin, -⟩
        · rw [hup]
        · exact h.updated j hin
      enabled := fun j hj' => by
        rcases hput j hj' with rfl | ⟨hin, -⟩
        · rw [hen, hlife]; exact h.enabled job hmem
        · exact h.enabled j hin
      base := fun y hy j hj' hjy => by
        have hbase : ∀ z ∈ w.owners, z.run.jobId = j.id → j.repeatCompleted ≤ z.base.repeatCompleted := by
          intro z hz he
          rcases hput j hj' with rfl | ⟨hin, -⟩
          · rw [hrep]; exact h.base z hz job hmem (hid.symm.trans he.symm)
          · exact h.base z hz j hin he.symm
        rcases howner y hy with ⟨hin, -⟩ | ⟨z, hz, -, rfl⟩
        · exact hbase y hin hjy.symm
        · exact hbase z hz hjy.symm
      started := fun run hrun' => h.started run (by
        have hruns := Control.moveTo_runs (w.put failed) x (.alerting now)
        rcases hrun' with ho | hd | hact
        · exact .inl (hruns ▸ ho)
        · exact .inr (.inl hd)
        · exact .inr (.inr hact))
      alerting := fun y hy c hc => by
        rcases howner y hy with ⟨hin, hne⟩ | ⟨z, hz, he, rfl⟩
        · have hy' := h.alerting y hin c hc
          have hother := other_owner g (g.held _ (List.mem_map_of_mem hx)) hin hne
          refine ⟨hy'.positive, hy'.past, hy'.older, fun j hj' hjy => ?_, hy'.saved⟩
          rcases hput j hj' with rfl | ⟨hjin, -⟩
          · exact absurd (hjy.symm.trans (hid.trans hjid)) hother
          · exact hy'.named j hjin hjy
        · cases hsame z hz he
          cases hc
          refine ⟨h.positive, Int.le_of_eq h.clock.symm, fun r hr => .inl ?_, fun j hj' hjx => ?_, fun old hold' _ => ?_⟩
          · rw [← h.clock]
            exact hold r hr
          · rcases hput j hj' with rfl | ⟨-, hne⟩
            · exact ⟨hrun, hat⟩
            · exact absurd hjx hne
          · exact .inr (h.disk.updated old hold') }

theorem unsortedRunRecords_purged {ids : List String} {id : String} :
    unsortedRunRecords host (w.purgeArchives ids).disk id = if id ∈ ids then [] else unsortedRunRecords host w.disk id := by
  unfold unsortedRunRecords World.purgeArchives
  by_cases hid : id ∈ ids
  · rw [if_pos hid]
    simp only [List.filter_filter, List.append_eq_nil_iff, List.filter_eq_nil_iff, List.map_eq_nil_iff]
    refine ⟨fun r _ hr => ?_, fun t _ ht => ?_⟩
    · obtain ⟨he, hno⟩ : r.jobId = id ∧ r.jobId ∉ ids := by simpa using hr
      exact hno (he ▸ hid)
    · obtain ⟨⟨he, -⟩, hno⟩ : (t.jobId = id ∧ _) ∧ t.jobId ∉ ids := by simpa using ht
      exact hno (he ▸ hid)
  · rw [if_neg hid]
    have hrecords : (w.disk.records.filter (·.jobId ∉ ids)).filter (·.jobId = id) = w.disk.records.filter (·.jobId = id) := by
      rw [List.filter_filter]
      refine List.filter_congr fun r _ => ?_
      by_cases hr : r.jobId = id <;> simp [hr, hid]
    dsimp only
    rw [hrecords, List.filter_filter]
    congr 2
    refine List.filter_congr fun t _ => ?_
    by_cases ht : t.jobId = id <;> simp [ht, hid]

theorem settled_purged {ids : List String} {j : CronJob} (h : j.Settled host w.disk) :
    j.Settled host (w.purgeArchives ids).disk := by
  intro latest hlatest hind
  unfold latestRecord readRunRecords at hlatest
  rw [unsortedRunRecords_purged] at hlatest
  split at hlatest
  · cases hlatest
  · exact h latest hlatest hind

theorem purge {ids : List String} (g : Control w) (h : Recovering host now w) (ha : w.Abreast) :
    Found host now (w.purgeArchives ids) ∧ Found host now (w.purge ids).saved ∧
      Recovering host now (w.purge ids).saved ∧ (w.purge ids).saved.Abreast := by
  have hjobs : ∀ j ∈ (w.purge ids).jobs, j ∈ w.jobs := fun j hj => (List.mem_filter.mp hj).1
  have hdisk : Recoverable host now (w.purgeArchives ids).disk :=
    { unique := h.disk.unique, settled := fun j hj => .inl (settled_purged (h.current_settled ha j hj)), known := h.disk.known
      due := fun d hd j hj hid hne => absurd (ha.due d hd j hj hid) hne, updated := h.disk.updated
      completed := fun r hr => h.disk.completed r (List.mem_filter.mp hr).1
      started := fun t ht => h.disk.started t (List.mem_filter.mp ht).1 }
  have hpurge : Recovering host now (w.purge ids) :=
    { clock := h.clock, positive := h.positive, disk := hdisk, settled := fun j hj => settled_purged (h.settled j (hjobs j hj))
      updated := fun j hj => h.updated j (hjobs j hj), enabled := fun j hj => h.enabled j (hjobs j hj)
      base := fun x hx j hj => h.base x hx j (hjobs j hj), started := h.started
      alerting := fun x hx c hc => by
        have hx' := h.alerting x hx c hc
        refine ⟨hx'.positive, hx'.past, fun r hr => ?_, fun j hj => hx'.named j (hjobs j hj), hx'.saved⟩
        rw [show (w.purge ids).disk = (w.purgeArchives ids).disk from rfl, unsortedRunRecords_purged] at hr
        split at hr
        · cases hr
        · exact hx'.older r hr }
  exact ⟨⟨h.clock, h.positive, hdisk⟩, hpurge.saved (g.unique.sublist (List.filter_sublist.map _))⟩

def demands (host : Host) : Demands where
  ending w run _ e := Fresh host w run e
  alert w run := ∀ r ∈ unsortedRunRecords host w.disk run.jobId, r.completed < w.clock

theorem add {n : NewJob} {job : CronJob} (g : Control w) (h : Recovering host now w) (hn : n.job host now = .ok job)
    (hnew : ∀ j ∈ w.jobs, j.id ≠ n.id) (hdir : n.id ∉ outputDirs w.disk) :
    Recovering host now { w with jobs := w.jobs ++ [job] } := by
  have hid : job.id = n.id := (NewJob.tidy hn).1
  have hen : job.enabled = true ↔ job.lifecycle = .scheduled := (NewJob.tidy hn).2.enabled
  obtain ⟨-, -, -, -, -, hup⟩ := NewJob.job_ok hn
  have hmem : ∀ j ∈ w.jobs ++ [job], j ∈ w.jobs ∨ j = job := by
    intro j hj
    rcases List.mem_append.mp hj with hj | hj
    · exact .inl hj
    · exact .inr (List.mem_singleton.mp hj)
  have hnone : ∀ latest, latestRecord host w.disk n.id ≠ some latest := fun latest hlatest => hdir (latestRecord_dir hlatest)
  have howned : ∀ x ∈ w.owners, x.run.jobId ≠ job.id := by
    intro x hx he
    obtain ⟨r, hr, -⟩ := g.holds_iff.mp (g.held _ (List.mem_map_of_mem hx))
    obtain ⟨j, hj, hjid⟩ := List.mem_map.mp (g.known _ hr)
    exact hnew j hj (hjid.trans (he.trans hid))
  exact
    { clock := h.clock, positive := h.positive, disk := h.disk
      settled := fun j hj latest hlatest hind => by
        rcases hmem j hj with hin | rfl
        · exact h.settled j hin latest hlatest hind
        · exact absurd (hid ▸ hlatest) (hnone latest)
      updated := fun j hj => by
        rcases hmem j hj with hin | rfl
        · exact h.updated j hin
        · exact Int.le_of_eq hup
      enabled := fun j hj => by
        rcases hmem j hj with hin | rfl
        · exact h.enabled j hin
        · exact hen
      base := fun x hx j hj hjx => by
        rcases hmem j hj with hin | rfl
        · exact h.base x hx j hin hjx
        · exact absurd hjx.symm (howned x hx)
      started := h.started
      alerting := fun x hx c hc => by
        have hx' := h.alerting x hx c hc
        refine ⟨hx'.positive, hx'.past, hx'.older, fun j hj hjx => ?_, hx'.saved⟩
        rcases hmem j hj with hin | rfl
        · exact hx'.named j hin hjx
        · exact absurd hjx.symm (howned x hx) }

theorem detached {jobId key : String} {force manual : Bool} (h : Recovering host now w) :
    Recovering host now (w.detach now jobId key force manual) := by
  have hr := h.reserve jobId manual
  refine hr.keep rfl rfl (fun j hj => ⟨j, hj, .refl now j⟩) (fun x hx => .inl hx) fun run hrun => ?_
  rcases hrun with ho | hd | ha
  · exact h.started run (.inl ho)
  · rcases List.mem_cons.mp hd with rfl | hd
    · exact ⟨h.positive, Int.le_refl _⟩
    · exact h.started run (.inr (.inl hd))
  · exact hr.started run (.inr (.inr ha))

/-- What a pass leaves of a job before it runs it. -/
theorem advanced_ok {job : CronJob} (g : Control w) (h : Recovering host now w) (ha : w.Abreast) (hj : job ∈ w.jobs) :
    ((advanced host now job).isSome → Found host now (w.advance host now job)) ∧
      Recovering host now (w.advance host now job) ∧ (w.advance host now job).Abreast ∧
      (advanced host now job).getD job ∈ (w.advance host now job).jobs := by
  unfold World.advance
  cases hadv : advanced host now job with
  | none => exact ⟨fun hs => (by cases hs), h, ha, hj⟩
  | some job' =>
    have hev := (advanced_evolves hadv).1
    have hs := saved ((Control.put_ids w job').symm ▸ g.unique) (h.put hj hev)
    refine ⟨fun _ => hs.1, hs.2.1, hs.2.2, ?_⟩
    exact List.mem_map.mpr ⟨job, hj, by rw [if_pos hev.id.symm]; rfl⟩

theorem fired {job : CronJob} {rest : List String} (g : Control w) (h : Recovering host now w) (ha : w.Abreast)
    (hl : w.loaded = true) (hj : job ∈ w.jobs) :
    Recovering host now ((w.advance host now job).execute now ((advanced host now job).getD job) false true (some rest)) := by
  obtain ⟨-, hR, -, hin⟩ := h.advanced_ok g ha hj
  have hr := hR.reserve ((advanced host now job).getD job).id false
  have hpass : Recovering host now
      { (w.advance host now job).reserve now ((advanced host now job).getD job).id false with pass := some rest } :=
    hr.keep rfl rfl (fun j hj => ⟨j, hj, .refl now j⟩) (fun x hx => .inl hx) hr.started
  exact hpass.enter ⟨h.positive, Int.le_refl _⟩ (baseline_le (g.advance host now job hl).2.unique hin)

theorem begun {x : Execution} {job : CronJob} (h : Recovering host now w) (hj : job ∈ w.jobs) :
    Recovering host now (w.begin x job) := by
  have hev : job.Evolves now { job with state.lastDeliveryError := none } :=
    ⟨rfl, rfl, rfl, .inl rfl, fun h => h, Nat.le_refl _⟩
  have hput := h.put hj hev
  refine hput.keep rfl rfl (fun j hj => ⟨j, hj, .refl now j⟩) (fun y hy => ?_) fun run hrun => h.started run ?_
  · obtain ⟨z, hz, rfl⟩ := List.mem_map.mp hy
    split
    · exact .inr ⟨fun c hc => (by cases hc), hput.base z hz⟩
    · exact .inl hz
  · have hruns := Control.moveTo_runs (w.put { job with state.lastDeliveryError := none }) x .running
    rcases hrun with ho | hd | ha
    · exact .inl (hruns ▸ ho)
    · exact .inr (.inl hd)
    · exact .inr (.inr ha)

/-- The archive of one job's run is not another's. -/
theorem spared {run run' : Run} {manual : Bool} {e : Ending} {job : CronJob} {base' : Baseline} (hj : w.job? run.jobId = some job)
    (hne : run.jobId ≠ run'.jobId) (hD : Fresh host w run' (.cancelled base')) :
    Fresh host ((w.over now run manual e job).follow run.runId .announce) run' (.cancelled base') := by
  refine ⟨hD.started, .inr fun r hr => ?_⟩
  have hne' : job.id ≠ run'.jobId := fun he => hne ((World.job?_id hj).symm.trans he)
  have hfid : (e.final now w.stopping run manual job).id ≠ run'.jobId := by
    rw [Ending.final_id]
    exact hne'
  have hr' : r ∈ unsortedRunRecords host
      { jobs := (w.put (e.final now w.stopping run manual job)).jobs
        transcripts := ⟨(e.final now w.stopping run manual job).id, (e.final now w.stopping run manual job).name,
          run.startedAtMs, run.runId, e.failed⟩ :: w.disk.transcripts
        records := (e.final now w.stopping run manual job).record run.runId run.startedAtMs (e.completedAt now) ::
          w.disk.records, due := none } run'.jobId := hr
  rw [unsortedRunRecords_other hfid hfid] at hr'
  rcases hD.older with ⟨c, hc⟩ | holder
  · cases hc
  · exact holder r hr'

theorem archived {ids : List String} (g : Control w) (h : Recovering host now w) :
    Found host now (w.archive now ids).saved ∧ Recovering host now (w.archive now ids).saved ∧
      (w.archive now ids).saved.Abreast := by
  have hids : (w.archive now ids).jobs.map (·.id) = w.jobs.map (·.id) := Control.map_ids (fun j => by split <;> rfl) _
  refine saved (w := w.archive now ids) (hids ▸ g.unique) (h.evolve rfl rfl rfl rfl rfl fun j' hj' => ?_)
  obtain ⟨j, hj, rfl⟩ := List.mem_map.mp hj'
  refine ⟨j, hj, ?_⟩
  split
  · exact ⟨rfl, rfl, rfl, .inr rfl, fun _ => by simp [CronJob.archive], Nat.le_refl _⟩
  · exact .refl now j

theorem forward (h : Recovering host now w) : Recovering host now (w.forward host now) := by
  refine h.evolve rfl rfl rfl rfl rfl fun j' hj' => ?_
  obtain ⟨j, hj, rfl⟩ := List.mem_map.mp hj'
  exact ⟨j, hj, forwarded_evolves⟩

theorem rules (host : Host) (now : Int) : Rules host now Control (demands host) (Found host now)
    fun w => Recovering host now w ∧ (w.loaded = true → w.Abreast) where
  keys g _ := ⟨g.keys, g.ids⟩
  idle g _ := g.idle
  unique g _ := g.unique
  known g _ := (Control.rules host now).known trivial g
  held g _ := (Control.rules host now).held trivial g
  stopping _ _ h := quiet h rfl rfl rfl rfl rfl fun _ => id
  load_quiet g h hl hc := ⟨h.1.read g hl, fun _ => abreast_of_quiet h.1 hc⟩
  load_saved g h hl _ :=
    have hs := saved g.readFrom_unique (h.1.read g hl)
    ⟨hs.1, hs.2.1, fun _ => hs.2.2⟩
  restart g h _ _ :=
    have hs := h.1.recomputed g.unique
    ⟨hs.1, hs.2.1, fun _ => hs.2.2⟩
  reread g h _ _ _ := h.1.reread g
  reload g h _ _ _ :=
    have hs := (h.1.keeping g).recomputed (g.keeping_ids host now).1
    ⟨hs.1, hs.2.1, fun _ => hs.2.2⟩
  edit_kept _ h hl hj he hedit := by
    have hs := he.leaves (by
      rcases hedit with hk | hm
      · exact .inl hk
      · exact .inr (.inl hm))
    exact ⟨h.1.put hj hs.evolves, fun _ => (h.2 hl).put hj hs.id hs.schedule hs.repeats⟩
  edit_stored {_ _ _ job'} g h _ hj he hedit :=
    have hs := saved ((Control.put_ids _ job').symm ▸ g.unique) (h.1.put hj (he.leaves (.inr (.inr hedit))).evolves)
    ⟨hs.1, hs.2.1, fun _ => hs.2.2⟩
  edit_set {w job edit job' hand} g h _ hj he hedit := by
    have hput : Recovering host now ((w.put job').noteSet job' hand) :=
      (h.1.put hj (he.set_evolves hedit)).evolve rfl rfl rfl rfl rfl fun j hj => ⟨j, hj, .refl now j⟩
    have hs := saved (w := (w.put job').noteSet job' hand) ((Control.put_ids w job').symm ▸ g.unique) hput
    exact ⟨hs.1, hs.2.1, fun _ => hs.2.2⟩
  archive g h _ _ :=
    have hs := h.1.archived g
    ⟨hs.1, hs.2.1, fun _ => hs.2.2⟩
  purge g h hl _ :=
    have hp := h.1.purge g (h.2 hl)
    ⟨hp.1, hp.2.1, hp.2.2.1, fun _ => hp.2.2.2⟩
  add {w n job} g h hl _ hn hnew hdir := by
    have hids : ((w.jobs ++ [job]).map (·.id)).Nodup := ((Control.rules host now).add trivial g hl trivial hn hnew hdir).1
    have hs := saved (w := { w with jobs := w.jobs ++ [job] }) hids (h.1.add g hn hnew hdir)
    exact ⟨hs.1, hs.2.1, fun _ => hs.2.2⟩
  detach _ h hl _ _ _ := ⟨h.1.detached, fun _ => ⟨(h.2 hl).jobs, (h.2 hl).due⟩⟩
  drop {w run} _ h := quiet h rfl rfl rfl rfl rfl fun _ hrun => undetach_underWay (w := w) (n := run) hrun
  turn_leaves _ h _ _ _ := quiet h rfl rfl rfl rfl rfl fun _ => undetach_underWay
  turn_enters {w d job} g h hl _ hd _ hj hid := by
    have hq : Recovering host now (w.undetach d.run.runId) ∧ _ := quiet h rfl rfl rfl rfl rfl fun _ => undetach_underWay
    refine ⟨hq.1.enter (h.1.started d.run (.inr (.inl (List.mem_map_of_mem hd)))) ?_,
      fun _ => ⟨(h.2 hl).jobs, (h.2 hl).due⟩⟩
    rw [hid]
    exact baseline_le g.unique hj
  turn_ends {w d job} g h hl _ hd hh hj hD := by
    have hq : Recovering host now (w.undetach d.run.runId) ∧ _ := quiet h rfl rfl rfl rfl rfl fun _ => undetach_underWay
    have ho := hq.1.endRun true (.cancelled job.baseline) (g.undetach _) (hq.2 hl) hj hh ⟨hD.started, hD.older⟩
      (fun c hc => by cases hc) (fun base hb => by cases hb; exact Nat.le_refl _) (.publish false false)
    exact ⟨ho.1, ho.2.1, ho.2.2.1, ho.2.2.2.1, fun _ => ho.2.2.2.2⟩
  execute {w job} g h hl _ hj _ := by
    refine ⟨?_, fun _ => ⟨(h.2 hl).jobs, (h.2 hl).due⟩⟩
    exact (h.1.reserve job.id true).enter ⟨h.1.positive, Int.le_refl _⟩ (baseline_le g.unique hj)
  fire g h hl _ hj _ _ :=
    have hmem := World.job?_mem hj
    have ha := h.1.advanced_ok g (h.2 hl) hmem
    ⟨ha.1, h.1.fired g (h.2 hl) hl hmem, fun _ => ⟨ha.2.2.1.jobs, ha.2.2.1.due⟩⟩
  forward_quiet {w} g h hl hno := by
    refine ⟨h.1.forward, fun _ => ⟨fun j' hj' => ?_, (h.2 hl).due⟩⟩
    obtain ⟨j, hj, rfl⟩ := List.mem_map.mp hj'
    rw [(Decisions.forwarded_same host now j).2.2.2 (hno j hj)]
    exact (h.2 hl).jobs j hj
  forward_saved {w} g h hl := by
    have hu : ((w.forward host now).jobs.map (·.id)).Nodup := by
      show ((w.jobs.map (forwarded host now)).map (·.id)).Nodup
      rw [Control.map_ids (Control.forwarded_id host now)]
      exact g.unique
    have hs := saved hu h.1.forward
    exact ⟨hs.1, hs.2.1, fun _ => hs.2.2⟩
  endPass g h _ := by
    have hs := saved g.unique h.1
    exact ⟨hs.1, quiet ⟨hs.2.1, fun _ => hs.2.2⟩ rfl rfl rfl rfl rfl fun _ => id⟩
  abandonPass _ h := quiet h rfl rfl rfl rfl rfl fun _ => id
  begin {w x job} g h hl hx hp hj := by
    have hmem := World.job?_mem hj
    have hab : (w.put { job with state.lastDeliveryError := none }).Abreast := (h.2 hl).put hmem rfl rfl rfl
    exact ⟨h.1.begun hmem, fun _ => ⟨hab.jobs, hab.due⟩⟩
  alert g h hl hx hp hj _ hD _ :=
    have ha := h.1.alert g (h.2 hl) hx hj hD
    ⟨ha.1, fun _ => ha.2⟩
  ends {w run manual e job follow} g h hl hj hh hf hD _ := by
    have ho := h.1.endRun manual e g (h.2 hl) hj hh hD (fun c hc => ?_) (fun base hb => ?_) follow
    · exact ⟨ho.1, ho.2.1, ho.2.2.1, ho.2.2.2.1, fun _ => ho.2.2.2.2⟩
    · subst hc
      obtain ⟨x, hx, hrun, -, hp⟩ := hf
      exact ⟨x, hx, hrun, hp⟩
    · subst hb
      rcases hf with ⟨x, hx, hrun, -, hbase⟩ | ⟨-, hbase⟩
      · rw [← hbase]
        exact h.1.base x hx job (World.job?_mem hj) (hrun ▸ World.job?_id hj)
      · rw [hbase]
        exact Nat.le_refl _
  spares _ _ hj hne hD := spared hj hne hD
  delivered _ h := quiet h rfl rfl rfl rfl rfl fun _ => id
  unannounced _ h := quiet h rfl rfl rfl rfl rfl fun _ => id
  announced _ h _ := quiet h rfl rfl rfl rfl rfl fun _ => id

end Recovering

/-! ## Every run of the service -/

/-- No run ends in the millisecond the newest run of its job ended in (with an id that sorts after
its own), and no run of its job ended in the millisecond in which an alert begins. -/
def World.timely (host : Host) (w : World) (e : Event) : Prop :=
  (∀ x ∈ w.endings e.now e.op,
    match x.2.2 with
    | .alerted _ => True
    | _ => w.disk.Older host x.1.jobId x.1.runId e.now) ∧
  match e.op with
  | .resume run o => ∀ xj ∈ w.execution run, xj.1.place = .running → World.endingOf e.now xj.1 xj.2 o = none →
      ∀ r ∈ unsortedRunRecords host w.disk xj.1.run.jobId, r.completed < e.now
  | _ => True

def Ending.isAlerted : Ending → Bool
  | .alerted _ => true
  | _ => false

/-- What an `on_job` that comes back resumes. -/
def Op.resumed : Op → Option (Nat × Outcome)
  | .resume run o => some (run, o)
  | _ => none

theorem World.timely_iff (host : Host) (w : World) (e : Event) : w.timely host e ↔
    (∀ x ∈ w.endings e.now e.op, x.2.2.isAlerted ∨ w.disk.Older host x.1.jobId x.1.runId e.now) ∧
      ∀ ro ∈ e.op.resumed, ∀ xj ∈ w.execution ro.1, xj.1.place = .running → World.endingOf e.now xj.1 xj.2 ro.2 = none →
        ∀ r ∈ unsortedRunRecords host w.disk xj.1.run.jobId, r.completed < e.now := by
  unfold World.timely
  refine and_congr (forall₂_congr fun x _ => ?_) ?_
  · cases x.2.2 <;> simp [Ending.isAlerted]
  · cases e.op <;> simp [Op.resumed]

instance (host : Host) (w : World) (e : Event) : Decidable (w.timely host e) := decidable_of_iff _ (w.timely_iff host e).symm

theorem recovering_of_disk {host : Host} {now : Int} {w : World} (hclock : w.clock = now) (hnow : 0 < now)
    (hdisk : Recoverable host now w.disk) (hl : w.loaded = false) (hjobs : w.jobs = []) (howners : w.owners = [])
    (hdetached : w.detached = []) (hruns : w.activeRuns = []) :
    Recovering host now w ∧ (w.loaded = true → w.Abreast) := by
  have hnojob : ∀ j, j ∉ w.jobs := by simp [hjobs]
  have hnoowner : ∀ x, x ∉ w.owners := by simp [howners]
  refine ⟨?_, fun h => absurd (hl.symm.trans h) (by simp)⟩
  exact
    { clock := hclock, positive := hnow, disk := hdisk, settled := fun j hj => absurd hj (hnojob j)
      updated := fun j hj => absurd hj (hnojob j), enabled := fun j hj => absurd hj (hnojob j)
      base := fun x hx => absurd hx (hnoowner x)
      started := fun run hrun => by simp [World.underWay, howners, hdetached, hruns] at hrun
      alerting := fun x hx => absurd hx (hnoowner x) }

/-- A later moment. -/
theorem Recovering.at_ {host : Host} {now now' : Int} {w : World} (h : Recovering host now w) (hle : now ≤ now') :
    Recovering host now' (w.at_ now') where
  clock := rfl
  positive := Int.lt_of_lt_of_le h.positive hle
  disk := h.disk.later hle
  settled := h.settled
  updated j hj := Int.le_trans (h.updated j hj) hle
  enabled := h.enabled
  base := h.base
  started run hrun := ⟨(h.started run hrun).1, Int.le_trans (h.started run hrun).2 hle⟩
  alerting x hx c hc :=
    have ha := h.alerting x hx c hc
    { positive := ha.positive, past := Int.le_trans ha.past (h.clock ▸ hle), older := ha.older, named := ha.named
      saved := ha.saved }

/-- Only runs under way end. -/
theorem World.endings_underWay {w : World} {now : Int} {op : Op} {x : Run × Bool × Ending} (h : x ∈ w.endings now op) :
    w.underWay x.1 := by
  have hexecution : ∀ {run xj}, w.execution run = some xj → w.underWay xj.1.run := by
    intro run xj hx
    obtain ⟨y, hfind, hmap⟩ := Option.bind_eq_some_iff.mp hx
    obtain ⟨job, -, rfl⟩ := Option.map_eq_some_iff.mp hmap
    exact .inl (List.mem_map_of_mem (List.mem_of_find?_eq_some hfind))
  cases op with
  | resume run o =>
    obtain ⟨xj, hxj, hmap⟩ := Option.bind_eq_some_iff.mp (Option.mem_toList.mp h)
    obtain ⟨e, -, rfl⟩ := Option.map_eq_some_iff.mp hmap
    exact hexecution hxj
  | cancel run =>
    obtain ⟨xj, hxj, rfl⟩ := Option.map_eq_some_iff.mp (Option.mem_toList.mp h)
    exact hexecution hxj
  | shutdown =>
    obtain ⟨run, hrun, hmap⟩ := List.mem_filterMap.mp h
    obtain ⟨job, -, rfl⟩ := Option.map_eq_some_iff.mp hmap
    exact .inr (.inr (List.mem_filter.mp hrun).1)
  | turn run =>
    change x ∈ if w.stopping = true then _ else _ at h
    split at h
    · obtain ⟨d, hfind, hmap⟩ := Option.bind_eq_some_iff.mp (Option.mem_toList.mp h)
      obtain ⟨job, -, rfl⟩ := Option.map_eq_some_iff.mp hmap
      exact .inr (.inl (List.mem_map_of_mem (List.mem_of_find?_eq_some hfind)))
    · cases h
  | _ => cases h

def World.Recoverable (host : Host) (w : World) : Prop :=
  Control w ∧ (w = {} ∨ Recovering host w.clock w ∧ (w.loaded = true → w.Abreast))

theorem recovering_reach {host : Host} {w : World}
    (h : Reach (step host) (fun w e => w.fits e ∧ 0 < e.now ∧ w.timely host e) {} w) :
    w.Recoverable host := by
  refine Rules.reach (D := Recovering.demands host) (I := fun now w => (w.disk.jobs.map (·.id)).Nodup ∧ Found host now w)
    (J := fun now w => Control w ∧ Recovering host now w ∧ (w.loaded = true → w.Abreast))
    (fun now => (Control.rules host now).under (Recovering.rules host now)) ⟨control_init, .inl rfl⟩ ?_ ?_ ?_ ?_ ?_ h
  · intro w e hw he
    refine ⟨hw.1.at_ e.now, ?_⟩
    rcases hw.2 with rfl | ⟨hr, ha⟩
    · refine recovering_of_disk rfl he.2.1 ?_ rfl rfl rfl rfl rfl
      exact ⟨List.nodup_nil, by simp [World.at_], by simp [World.at_], by simp [World.at_], by simp [World.at_],
        by simp [World.at_], by simp [World.at_]⟩
    · exact ⟨hr.at_ he.1.1, fun hl => ⟨(ha hl).jobs, (ha hl).due⟩⟩
  · intro w now hw
    exact ⟨hw.1, .inr (by rw [hw.2.1.clock]; exact hw.2)⟩
  · intro w now hw
    exact ⟨hw.1.uniqueDisk, hw.2.1.clock, hw.2.1.positive, hw.2.1.disk⟩
  · intro w now hw
    refine ⟨control_reboot hw.1, .inr ?_⟩
    have hclock : w.reboot.clock = now := hw.2.clock
    rw [hclock]
    exact recovering_of_disk hclock hw.2.positive hw.2.disk rfl rfl rfl rfl rfl
  · intro w e hw he
    have hstarted : ∀ run, w.underWay run → 0 < run.startedAtMs ∧ run.startedAtMs ≤ e.now := by
      intro run hrun
      rcases hw.2 with rfl | ⟨hr, -⟩
      · simp [World.underWay] at hrun
      · exact ⟨(hr.started run hrun).1, Int.le_trans (hr.started run hrun).2 he.1.1⟩
    refine hw.1.meets he.1 (fun _ => trivial) (fun _ => ⟨trivial, trivial⟩) (fun _ _ => trivial)
      (fun x hx stopping => ⟨?_, ?_⟩) (fun run o hop xj hxj hp hno => ?_) fun _ _ => trivial
    · exact hstarted x.1 (World.endings_underWay hx)
    · have hold := he.2.2.1 x hx
      cases hend : x.2.2 with
      | alerted c => exact .inl ⟨c, rfl⟩
      | _ =>
        rw [hend] at hold
        exact .inr hold
    · have hold := he.2.2.2
      rw [hop] at hold
      exact hold xj hxj hp hno

/-- What a process that loads the store after the crash has of the job. -/
theorem Interrupted.loads {host : Host} {w : World} {d old : CronJob} {r : RunRecord} (g : Control w)
    (hl : w.loaded = false) (hold : old ∈ w.disk.jobs) (hid : old.id = d.id) (h : Interrupted host w.disk d old r) (now : Int) :
    (w.ready host now).job? d.id = some (old.read.replay r) ∧
      ((w.ready host now).jobs.map (·.id)).Nodup ∧ w.ready host now = (w.readFrom host now).saved := by
  have hchanges : recoveryChanges host w.disk (w.disk.jobs.map CronJob.read) = true := by
    unfold recoveryChanges
    rw [Bool.or_eq_true]
    refine .inl (List.any_eq_true.mpr ⟨old.read, List.mem_map_of_mem hold, ?_⟩)
    rw [show old.read.id = d.id from hid, h.latest]
    simpa using h.unknown
  have hready : w.ready host now = (w.readFrom host now).saved := by
    unfold World.ready
    rw [if_neg (by simp [hl]), if_pos hchanges]
  have hmem : old.read.replay r ∈ (w.readFrom host now).jobs := by
    refine List.mem_append_left _ (List.mem_map.mpr ⟨old.read, List.mem_map_of_mem hold, ?_⟩)
    unfold reconciled
    rw [show old.read.id = d.id from hid, h.latest]
    exact if_neg h.unknown
  rw [hready]
  refine ⟨?_, g.readFrom_unique, rfl⟩
  rw [← hid]
  exact World.job?_of_mem (w := w.readFrom host now) g.readFrom_unique hmem

theorem loadStore_ready {host : Host} {now : Int} {w : World} :
    Safe (fun _ => True) (loadStore host now) w fun _ w' => w' = w.ready host now := by
  unfold loadStore World.ready
  refine .read_bind ?_
  by_cases hl : w.loaded = true
  · rw [if_pos hl, if_pos hl]
    exact .pure rfl
  · rw [if_neg hl, if_neg hl]
    refine .read_bind (.modify_bind (safe_saveWhen (fun hc => ?_) fun hc => ?_))
    · rw [if_pos hc]
      exact ⟨trivial, rfl⟩
    · rw [if_neg (by simp [hc])]

theorem step_start {host : Host} {now : Int} {w : World} :
    step host w ⟨now, .start, none⟩ = (World.recomputed host now (World.ready host now { w.at_ now with stopping := false })).saved := by
  have hsafe : Safe (fun _ => True) (start host now) (w.at_ now) fun _ w' =>
      w' = (World.recomputed host now (World.ready host now { w.at_ now with stopping := false })).saved :=
    .modify_bind (.bind (.mono loadStore_ready fun _ w' hw' => hw' ▸ .modify_bind (.write trivial rfl)))
  exact hsafe.returns

/-- A start after the crash. -/
theorem Interrupted.starts {host : Host} {w : World} {d old : CronJob} {r : RunRecord} (g : Control w)
    (hl : w.loaded = false) (hold : old ∈ w.disk.jobs) (hid : old.id = d.id) (h : Interrupted host w.disk d old r) (now : Int) :
    (step host w ⟨now, .start, none⟩).job? d.id = some ((old.read.replay r).recompute host now) := by
  have g' : Control { w.at_ now with stopping := false } := (Control.rules host now).stopping false trivial (g.at_ now)
  obtain ⟨hload, hunique, -⟩ := Interrupted.loads g' hl hold hid h now
  have hjid : ((old.read.replay r).recompute host now).id = d.id := (Control.recompute_id host now _).trans hid
  rw [step_start]
  show World.job? (World.recomputed host now _) d.id = _
  rw [← hjid]
  refine World.job?_of_mem ?_ (List.mem_map_of_mem (World.job?_mem hload))
  show ((List.map (CronJob.recompute host now) _).map (·.id)).Nodup
  rw [Control.map_ids (Control.recompute_id host now)]
  exact hunique

/-- A start does not touch the count, the retries and the last run. -/
theorem CronJob.recompute_same (host : Host) (now : Int) (j : CronJob) :
    (j.recompute host now).repeatCompleted = j.repeatCompleted ∧
      (j.recompute host now).state.retryAttempt = j.state.retryAttempt ∧
      (j.recompute host now).state.lastRunAtMs = j.state.lastRunAtMs ∧
      (j.recompute host now).state.lastRunId = j.state.lastRunId := by
  unfold CronJob.recompute
  repeat' split
  all_goals exact ⟨rfl, rfl, rfl, rfl⟩

theorem interrupted_saves_are_recovered {host : Host} {w : World}
    (h : Reach (step host) (fun w e => w.fits e ∧ 0 < e.now ∧ w.timely host e) {} w) :
    (∀ d, w.loaded = false → w.disk.due = some d →
      (∀ old ∈ w.disk.jobs, old.id = d.id → old.state.lastRunId ≠ d.state.lastRunId) →
      ∀ now, (∃ j, (w.ready host now).job? d.id = some j ∧ j.SameDecision d ∧ (d.lifecycle ≠ .scheduled → ∀ t, ¬ j.due t)) ∧
        ∃ j, (step host w ⟨now, .start, none⟩).job? d.id = some j ∧ j.SameDecision (d.recompute host now) ∧
          j.repeatCompleted = d.repeatCompleted ∧ j.state.retryAttempt = d.state.retryAttempt ∧
          j.state.lastRunAtMs = d.state.lastRunAtMs ∧ j.state.lastRunId = d.state.lastRunId ∧
          (d.lifecycle ≠ .scheduled → ∀ t, ¬ j.due t) ∧
          (¬ d.lapses host now → j.lifecycle = d.lifecycle ∧ j.enabled = d.enabled ∧
            (d.inBackoff → j.state.nextRunAtMs = d.state.nextRunAtMs) ∧
            (d.lifecycle ≠ .scheduled → j.state.nextRunAtMs = none))) ∧
      ∀ old ∈ w.disk.jobs, (∀ d, w.disk.due = some d → d.id = old.id → old.state.lastRunId = d.state.lastRunId) →
        ∀ latest, latestRecord host w.disk old.id = some latest → latest.indexed → old.reconcile latest = old := by
  obtain ⟨g, hw⟩ := recovering_reach h
  have hdisk : ∃ now, Recoverable host now w.disk := by
    rcases hw with rfl | ⟨hr, -⟩
    · exact ⟨0, List.nodup_nil, by simp, by simp, by simp, by simp, by simp, by simp⟩
    · exact ⟨_, hr.disk⟩
  obtain ⟨t₀, hdisk⟩ := hdisk
  constructor
  · intro d hl hdue hunnamed now
    obtain ⟨old, hold, hid⟩ := hdisk.known d hdue
    obtain ⟨r, hr⟩ := hdisk.due d hdue old hold hid (hunnamed old hold hid)
    have hsame := hr.restored
    have hen := hr.enabled
    have hover : ∀ {j : CronJob}, j.lifecycle = d.lifecycle → d.lifecycle ≠ .scheduled → ∀ t, ¬ j.due t :=
      fun hl hne t hdue => hne (hl.symm.trans hdue.1)
    refine ⟨⟨_, (hr.loads g hl hold hid now).1, hsame, hover hsame.lifecycle⟩, _, hr.starts g hl hold hid now, hsame.recompute, ?_⟩
    obtain ⟨hrep, hretry, hat, hrun⟩ := CronJob.recompute_same host now (old.read.replay r)
    refine ⟨hrep.trans hsame.repeatCompleted, hretry.trans hsame.retryAttempt, hat.trans hsame.lastRunAtMs,
      hrun.trans hsame.lastRunId, fun hne => ?_, fun hno => ?_⟩
    · obtain ⟨hlife, -⟩ := CronJob.recompute_keeps host now hen fun hlapse => hne hlapse.1
      exact hover (hsame.recompute.lifecycle.trans hlife) hne
    · obtain ⟨hlife, henab, hback, hover'⟩ := CronJob.recompute_keeps host now hen hno
      exact ⟨hsame.recompute.lifecycle.trans hlife, hsame.recompute.enabled.trans henab,
        fun hb => hsame.recompute.nextRunAtMs.trans (hback hb), fun hne => hsame.recompute.nextRunAtMs.trans (hover' hne)⟩
  · intro old hold hnamed latest hlatest hind
    rcases hdisk.settled old hold with hs | ⟨d, hd, hid, hne⟩
    · exact if_pos (hs latest hlatest hind)
    · exact absurd (hnamed d hd hid) hne

namespace Sample

/-- A job whose first fire is its last, and whose every failure is told. -/
def once : NewJob := { hourly with repeatTimes := some 1, failureAlertAfter := 1, failureAlertCooldownMs := 0 }

/-- The last fire fails, the store is saved during the alert, and the process dies before the last write. -/
def hidden : List Event :=
  [⟨1000, .start, none⟩, ⟨1000, .add once, none⟩, ⟨3601000, .pass, none⟩, ⟨3601000, .resume 0 (.returned none), none⟩,
   ⟨3603000, .resume 0 (.raised "x".toList), none⟩, ⟨3604000, .markDeliveryError "a" none, none⟩,
   ⟨3605000, .resume 0 (.returned none), some 2⟩]

/-- The metadata says that the schedule is completed; the next process goes on with it. -/
theorem a_save_during_an_alert_hides_the_end :
    ¬ ∀ w, Reach (step host) World.fits {} w → ∀ d, w.loaded = false → w.disk.due = some d →
      ∀ now, w.clock ≤ now → ∃ j, (step host w ⟨now, .start, none⟩).job? d.id = some j ∧ j.lifecycle = d.lifecycle ∧
        j.repeatCompleted = d.repeatCompleted := by
  intro hall
  have hreach : Reach (step host) World.fits {} (after host hidden) := reach_after (by decide)
  have hloaded : (after host hidden).loaded = false := by decide
  have hclock : (after host hidden).clock ≤ 3606000 := by decide
  have hdue : ∃ d ∈ (after host hidden).disk.due, d.id = "a" ∧ d.lifecycle = .completed := by decide
  have hgoes : ∀ j ∈ (step host (after host hidden) ⟨3606000, .start, none⟩).job? "a", j.lifecycle = .scheduled := by
    decide
  obtain ⟨d, hd, hid, hcompleted⟩ := hdue
  obtain ⟨j, hj, hlife, -⟩ := hall _ hreach d hloaded hd 3606000 hclock
  rw [hid] at hj
  rw [hgoes j hj, hcompleted] at hlife
  cases hlife

/-- The last fire ends well, and the process dies before the last write. -/
def interruptedEnd : List Event :=
  [⟨1000, .start, none⟩, ⟨1000, .add once, none⟩, ⟨3601000, .pass, none⟩, ⟨3601000, .resume 0 (.returned none), none⟩,
   ⟨3603000, .resume 0 (.returned none), some 2⟩]

theorem an_interrupted_end_is_recovered :
    ∃ d, (after host interruptedEnd).disk.due = some d ∧
      ∃ j, (step host (after host interruptedEnd) ⟨3604000, .start, none⟩).job? d.id = some j ∧
        j.SameDecision (d.recompute host 3604000) := by
  have hdue : ∃ d, (after host interruptedEnd).disk.due = some d ∧
      ∀ old ∈ (after host interruptedEnd).disk.jobs, old.id = d.id → old.state.lastRunId ≠ d.state.lastRunId := by
    cases hd : (after host interruptedEnd).disk.due with
    | none =>
      have hsome : (after host interruptedEnd).disk.due.isSome = true := by decide
      rw [hd] at hsome
      cases hsome
    | some d =>
      have hnew : ∀ d ∈ (after host interruptedEnd).disk.due, ∀ old ∈ (after host interruptedEnd).disk.jobs,
          old.id = d.id → old.state.lastRunId ≠ d.state.lastRunId := by decide
      exact ⟨d, rfl, hnew d hd⟩
  obtain ⟨d, hd, hnew⟩ := hdue
  obtain ⟨-, j, hj, hsame, -⟩ := (interrupted_saves_are_recovered (w := after host interruptedEnd)
    (reach_after (by decide))).1 d (by decide) hd hnew 3604000
  exact ⟨d, hd, j, hj, hsame⟩

end Sample

end Flowly.Cron
