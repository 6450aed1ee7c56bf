/-
  Flowly.Cron.Persistence — the cron store over runs of `add_job`, `update_job`,
  `enable_job`, `remove_job` and completed runs, and what a restart loads of it
  (`flowly/cron/service.py`).

  A restart reads jobs.json, and then takes over the newest run of an archive that a job
  does not know of, and the archives whose job is gone.

  Proved: in every run in which a one-shot is added before its time, no text of an origin
  is empty, and no run of a job ends in the millisecond in which an earlier one of it ended,
  a restart loads the jobs that were saved, field by field (`saved_jobs_are_loaded`). A
  one-shot added after its time waits without a due time, and a restart makes it due
  (`a_past_one_shot_becomes_due`).
-/

import Flowly.Cron.Recovery
import Flowly.Cron.Stored

namespace Flowly.Cron

open Flowly.Lib
open Flowly.Flowlets (Json)

/-! ## Operations -/

/-- `str(raw).strip() if raw and str(raw).strip() else None`. -/
def normalizedText (raw : Option String) : Option String :=
  (raw.map fun text => String.ofList (Text.strip text.toList)).filter (· ≠ "")

def normalizedSkills (skills : List String) : List String :=
  skills.foldl (fun names s =>
    let text := String.ofList (Text.strip s.toList)
    if text ≠ "" ∧ text ∉ names then names ++ [text] else names) []

/-- The arguments of `add_job`, and the id it gives. -/
structure AddJob extends NewJob where
  message : String
  deliver : Bool := false
  channel : Option String := none
  to_ : Option String := none
  deleteAfterRun : Bool := false
  payloadKind : PayloadKind := .agentTurn
  toolName : Option String := none
  toolArgs : Option Json := none
  origin : Option CronOrigin := none
  script : Option String := none
  skills : List String := []
  model : Option String := none
  provider : Option String := none
  source : Option String := none
  sourceId : Option String := none

/-- The job `add_job` makes. -/
def AddJob.newJob (host : Host) (now : Int) (n : AddJob) : Except String Job :=
  if n.name ≠ "" ∧ n.name.length ≤ 256 ∧ 50000 < n.message.length then .error "Job message too long (max 50,000 chars)"
  else (n.toNewJob.job host now).map fun core =>
    let source := normalizedText n.source
    { core with
      payload :=
        { kind := n.payloadKind, message := n.message, deliver := n.deliver, channel := n.channel, to_ := n.to_
          toolName := n.toolName, toolArgs := n.toolArgs }
      createdAtMs := now
      source
      sourceId := (normalizedText n.sourceId).or (if source.isSome then some n.id else none)
      deleteAfterRun := n.deleteAfterRun
      origin := n.origin
      script := normalizedText n.script
      skills := normalizedSkills n.skills
      model := normalizedText n.model
      provider := normalizedText n.provider }

/-- The updates of `update_job`. A key that is there and null is `some none`. -/
structure JobUpdates extends Updates where
  message : Option String := none
  deliver : Option Bool := none
  channel : Option String := none
  to_ : Option String := none
  script : Option (Option String) := none
  skills : Option (List String) := none
  model : Option (Option String) := none
  provider : Option (Option String) := none
  source : Option (Option String) := none
  sourceId : Option (Option String) := none

/-- The job in memory after a call, whether it is saved or not. -/
def Edit.job : Edit → CronJob
  | .kept job | .refused job _ | .stored job | .set job _ => job

def givenText (given old : Option String) : Option String :=
  match given with
  | some text => (some text).filter (· ≠ "")
  | none => old

/-- `update_job`. -/
def Job.update (host : Host) (now : Int) (u : JobUpdates) (j : Job) : Job :=
  match j.toCronJob.update host now u.toUpdates with
  | .refused core _ => { j with toCronJob := core }
  | edit =>
    { j with
      toCronJob := edit.job
      payload :=
        { j.payload with
          message := u.message.getD j.payload.message, deliver := u.deliver.getD j.payload.deliver
          channel := givenText u.channel j.payload.channel, to_ := givenText u.to_ j.payload.to_ }
      deleteAfterRun := match edit with
        | .set _ _ => false
        | _ => j.deleteAfterRun
      script := (u.script.map normalizedText).getD j.script
      skills := (u.skills.map normalizedSkills).getD j.skills
      model := (u.model.map normalizedText).getD j.model
      provider := (u.provider.map normalizedText).getD j.provider
      source := (u.source.map normalizedText).getD j.source
      sourceId := (u.sourceId.map normalizedText).getD j.sourceId }

/-- `enable_job`. -/
def Job.enable (host : Host) (now : Int) (enabled : Bool) (j : Job) : Job :=
  { j with toCronJob := (j.toCronJob.enable host now enabled).job }

inductive RunEnd where
  | callback (o : Outcome)
  | cancelled (stopping : Bool)

def RunEnd.final (now : Int) (run : Run) (j : CronJob) : RunEnd → CronJob
  | .callback o =>
    let ran := j.ran (.uuid run.runId) run.startedAtMs now o
    if ran.retries run.manual o then (Ending.retried o).final now false run run.manual j
    else if o.failed ∧ ran.fail.alerts now then
      (Ending.alerted now).final now false run run.manual { ran.fail with state.lastAlertAtMs := some now }
    else (Ending.ended o).final now false run run.manual j
  | .cancelled stopping => (Ending.cancelled j.baseline).final now stopping run run.manual j

def RunEnd.failed : RunEnd → Bool
  | .callback o => o.failed
  | .cancelled _ => true

/-- What `_save_job_output` wrote; the error of what it did not write. -/
inductive Archived where
  | whole
  | transcript (error : Text)
  | nothing (error : Text)

def Archived.error : Archived → Option Text
  | .whole => none
  | .transcript error | .nothing error => some (error.take 500)

structure CompletedRun where
  manual : Bool
  startedAtMs : Int
  /-- What the callback told `mark_delivery_error`. -/
  deliveryError : Option Text := none
  ending : RunEnd
  archived : Archived := .whole

def CompletedRun.entered (host : Host) (r : CompletedRun) (j : CronJob) : CronJob :=
  let j := if r.manual then j else (advanced host r.startedAtMs j).getD j
  { j with state.lastDeliveryError := r.deliveryError }

/-- The scheduler runs a job that is due, `run_job` one that is not archived. -/
def CompletedRun.admitted (r : CompletedRun) (j : CronJob) : Prop :=
  if r.manual then j.lifecycle ≠ .archived else j.due r.startedAtMs

instance (r : CompletedRun) (j : CronJob) : Decidable (r.admitted j) := by unfold CompletedRun.admitted; infer_instance

/-! ## The store -/

structure Store where
  jobs : List Job := []
  transcripts : List Transcript := []
  records : List RunRecord := []
  /-- The next `uuid4` of a run. -/
  fresh : Nat := 0
  clock : Int := 0

inductive StoreOp where
  | add (n : AddJob)
  | update (key : String) (u : JobUpdates)
  | enable (jobId : String) (enabled : Bool)
  | remove (key : String) (purge : Bool)
  /-- The scheduler moves the jobs that missed their time on. -/
  | forward
  | run (jobId : String) (r : CompletedRun)

structure StoreEvent where
  now : Int
  op : StoreOp

namespace Store

/-- The archives. -/
def archives (s : Store) : Disk := { transcripts := s.transcripts, records := s.records }

/-- The first job that is `wanted` becomes `f` of it. -/
def edit (s : Store) (wanted : Job → Bool) (f : Job → Job) : Store :=
  match s.jobs.find? wanted with
  | none => s
  | some job => { s with jobs := s.jobs.map fun j => if j.id = job.id then f j else j }

def archive (s : Store) (job : CronJob) (run : Run) (now : Int) (failed : Bool) : Archived → Store
  | .whole =>
    { s with transcripts := ⟨job.id, job.name, run.startedAtMs, run.runId, failed⟩ :: s.transcripts
             records := job.record run.runId run.startedAtMs now :: s.records }
  | .transcript _ => { s with transcripts := ⟨job.id, job.name, run.startedAtMs, run.runId, failed⟩ :: s.transcripts }
  | .nothing _ => s

def completeRun (host : Host) (now : Int) (s : Store) (jobId : String) (r : CompletedRun) : Store :=
  match s.jobs.find? (·.id = jobId) with
  | none => s
  | some job =>
    if ¬ r.admitted job.toCronJob then s
    else
      let run : Run := ⟨job.id, s.fresh, r.startedAtMs, r.manual⟩
      let core := r.ending.final now run (r.entered host job.toCronJob)
      let s : Store :=
        { s with fresh := s.fresh + 1
                 jobs := s.jobs.map fun j =>
                   if j.id = job.id then { j with toCronJob := core, lastOutputError := r.archived.error } else j }
      s.archive core run now r.ending.failed r.archived

def remove (now : Int) (s : Store) (key : String) (purge : Bool) : Store :=
  let ids := (s.jobs.filter fun j => j.id = key ∨ j.name = key).map (·.id)
  if purge then
    { s with jobs := s.jobs.filter (·.id ∉ ids), transcripts := s.transcripts.filter (·.jobId ∉ ids)
             records := s.records.filter (·.jobId ∉ ids) }
  else { s with jobs := s.jobs.map fun j => if j.id ∈ ids then { j with toCronJob := j.toCronJob.archive now } else j }

def next (host : Host) (s : Store) (e : StoreEvent) : Store :=
  let s := { s with clock := e.now }
  match e.op with
  | .add n =>
    match n.newJob host e.now with
    | .ok job => { s with jobs := s.jobs ++ [job] }
    | .error _ => s
  | .update key u => s.edit (fun j => j.id = key ∨ j.name = key) (Job.update host e.now u)
  | .enable jobId enabled => s.edit (·.id = jobId) (Job.enable host e.now enabled)
  | .remove key purge => s.remove e.now key purge
  | .forward => { s with jobs := s.jobs.map fun j => { j with toCronJob := forwarded host e.now j.toCronJob } }
  | .run jobId r => s.completeRun host e.now jobId r

/-- jobs.json as `_save_store` writes it. -/
def saved (s : Store) : List JobRecord := s.jobs.map Job.toRecord

def orphan (host : Host) (archives : Disk) (core : CronJob) : Job :=
  let started := (readRunRecords host archives core.id).map (·.startedAtMs)
  { core with createdAtMs := ((started.filter (· ≠ 0)).min?).getD core.updatedAtMs }

/-- `_load_store` of a new process. -/
def load (host : Host) (now : Int) (file : List JobRecord) (archives : Disk) : List Job :=
  let jobs := file.map JobRecord.read
  jobs.map (fun j => { j with toCronJob := reconciled host archives j.toCronJob }) ++
    (orphans host now archives (jobs.map Job.toCronJob)).map (orphan host archives)

end Store

/-! ## What the operations keep -/

namespace CronJob.Dated

variable {host : Host} {now : Int} {j j' : CronJob}

theorem of_next (h : j.state.nextRunAtMs ≠ none) : j.Dated := fun _ _ _ hnone => absurd hnone h

theorem of_run (h : j.state.lastRunAtMs ≠ none) : j.Dated := fun _ _ hnone => absurd hnone h

theorem of_ended (h : j.lifecycle ≠ .scheduled) : j.Dated := fun hl => absurd hl h

theorem enable (h : j.Dated) (enabled : Bool) : (j.enable host now enabled).job.Dated := by
  unfold CronJob.enable
  dsimp only
  split
  · split
    · exact h
    · split
      · exact h
      · exact of_next nofun
  · split
    · exact h
    · exact of_ended nofun

theorem update (h : j.Dated) (u : Updates) : (j.update host now u).job.Dated := by
  unfold CronJob.update
  split
  · exact h
  · exact of_next nofun
  · exact h

theorem forwarded (h : j.Dated) : (Cron.forwarded host now j).Dated := by
  unfold Cron.forwarded
  split
  · exact of_next nofun
  · exact h

end CronJob.Dated

section

variable {host : Host} {now : Int} {j : CronJob}

theorem CronJob.count_keeps (fires : Nat) (completedAtMs : Int) : (j.count fires completedAtMs).id = j.id ∧
    (j.count fires completedAtMs).state.lastRunAtMs = j.state.lastRunAtMs ∧
    (j.count fires completedAtMs).state.lastRunId = j.state.lastRunId ∧
    (j.count fires completedAtMs).updatedAtMs = j.updatedAtMs := by
  unfold CronJob.count
  dsimp only
  split <;> exact ⟨rfl, rfl, rfl, rfl⟩

structure CronJob.Names (j : CronJob) (id : String) (run : Run) (now : Int) : Prop where
  id : j.id = id
  lastRunAtMs : j.state.lastRunAtMs = some run.startedAtMs
  lastRunId : j.state.lastRunId = some (.uuid run.runId)
  updatedAtMs : j.updatedAtMs = now

theorem CronJob.Names.count {id : String} {run : Run} (h : j.Names id run now) (fires : Nat) (completedAtMs : Int) :
    (j.count fires completedAtMs).Names id run now := by
  obtain ⟨hid, hat, hrun, hup⟩ := j.count_keeps fires completedAtMs
  exact ⟨hid.trans h.id, hat.trans h.lastRunAtMs, hrun.trans h.lastRunId, hup.trans h.updatedAtMs⟩

theorem RunEnd.final_names (e : RunEnd) (now : Int) (run : Run) (j : CronJob) : (e.final now run j).Names j.id run now := by
  cases e with
  | callback o =>
    have hran : (j.ran (.uuid run.runId) run.startedAtMs now o).Names j.id run now := ⟨rfl, rfl, rfl, rfl⟩
    unfold RunEnd.final
    dsimp only
    split
    · exact ⟨rfl, rfl, rfl, rfl⟩
    · split
      · unfold Ending.final
        dsimp only
        split
        · exact ⟨rfl, rfl, rfl, rfl⟩
        · exact CronJob.Names.count ⟨rfl, rfl, rfl, rfl⟩ _ _
      · have hended : (if o.failed then (j.ran (.uuid run.runId) run.startedAtMs now o).fail
            else (j.ran (.uuid run.runId) run.startedAtMs now o).succeed).Names j.id run now := by
          split <;> exact ⟨rfl, rfl, rfl, rfl⟩
        unfold Ending.final
        dsimp only
        split
        · exact hended
        · exact hended.count _ _
  | cancelled stopping =>
    unfold RunEnd.final Ending.final CronJob.cancelled
    dsimp only
    split
    · exact ⟨rfl, rfl, rfl, rfl⟩
    · exact CronJob.Names.count ⟨rfl, rfl, rfl, rfl⟩ _ _

theorem edit_tidy {edit : CronJob → Edit} (he : UserEdit host now edit) : (edit j).job.id = j.id ∧ (j.Tidy → (edit j).job.Tidy) := by
  have hsame : ∀ {j'}, (edit j = .kept j' ∨ (∃ m, edit j = .refused j' m) ∨ edit j = .stored j') →
      j'.id = j.id ∧ (j.Tidy → j'.Tidy) := by
    intro j' h
    have hs := he.leaves h
    exact ⟨hs.id, fun htidy => htidy.same hs.enabled hs.lifecycle hs.next⟩
  cases hedit : edit j with
  | kept j' => exact hsame (.inl hedit)
  | refused j' message => exact hsame (.inr (.inl ⟨message, hedit⟩))
  | stored j' => exact hsame (.inr (.inr hedit))
  | set j' hand =>
    obtain ⟨hid, htidy, -⟩ := he.set hedit
    exact ⟨hid, fun _ => htidy⟩

theorem update_keeps (host : Host) (now : Int) (u : Updates) (j : CronJob) : (j.update host now u).job.state.lastRunId = j.state.lastRunId ∧
    ((j.update host now u).job.updatedAtMs = now ∨ (j.update host now u).job.updatedAtMs = j.updatedAtMs) := by
  unfold CronJob.update
  split
  · exact ⟨rfl, .inr rfl⟩
  · exact ⟨rfl, .inl rfl⟩
  · exact ⟨rfl, .inl rfl⟩

theorem enable_keeps (host : Host) (now : Int) (enabled : Bool) (j : CronJob) : (j.enable host now enabled).job.state.lastRunId = j.state.lastRunId ∧
    (j.enable host now enabled).job.updatedAtMs = now := by
  unfold CronJob.enable
  dsimp only
  split
  · split
    · exact ⟨rfl, rfl⟩
    · split <;> exact ⟨rfl, rfl⟩
  · split <;> exact ⟨rfl, rfl⟩

theorem RunEnd.final_tidy {e : RunEnd} {run : Run} (h : j.Tidy) (hl : run.manual = false → j.lifecycle = .scheduled) :
    (e.final now run j).Tidy := by
  cases e with
  | callback o =>
    unfold RunEnd.final
    dsimp only
    split
    · rename_i hretries
      refine h.final fun _ _ => hl ?_
      unfold CronJob.retries at hretries
      simp only [Bool.and_eq_true, Bool.not_eq_true'] at hretries
      exact hretries.1.1.1
    · split
      · exact CronJob.Tidy.final (h.same rfl rfl rfl) nofun
      · exact h.final nofun
  | cancelled stopping =>
    have hfinal : ((Ending.cancelled j.baseline).final now stopping run run.manual j).Tidy := h.final nofun
    exact hfinal

end

/-! ## Every run of the store -/

/-- What is so of each job. -/
structure Job.Sound (host : Host) (archives : Disk) (clock : Int) (j : Job) : Prop where
  tidy : j.toCronJob.Tidy
  dated : j.toCronJob.Dated
  filled : ∀ o ∈ j.origin, o.Filled
  known : ∀ latest ∈ latestRecord host archives j.id, j.toCronJob.knows latest
  updated : j.updatedAtMs ≤ clock

namespace Job.Sound

variable {host : Host} {archives archives' : Disk} {clock now : Int} {j j' : Job}

theorem kept (h : j.Sound host archives clock) : j.Kept := ⟨⟨h.tidy.enabled, h.dated⟩, h.filled⟩

theorem reconciled (h : j.Sound host archives clock) : Cron.reconciled host archives j.toCronJob = j.toCronJob := by
  unfold Cron.reconciled
  split
  · rename_i latest hlatest
    exact if_pos (h.known latest hlatest)
  · rfl

/-- The job was changed at `now`, or not at all, and not by a run. -/
theorem changed (h : j.Sound host archives clock) (hclock : clock ≤ now) (hid : j'.id = j.id) (htidy : j'.toCronJob.Tidy)
    (hdated : j'.toCronJob.Dated) (horigin : j'.origin = j.origin) (hrun : j'.state.lastRunId = j.state.lastRunId)
    (hup : j'.updatedAtMs = now ∨ j'.updatedAtMs = j.updatedAtMs) : j'.Sound host archives now := by
  have hold := h.updated
  refine ⟨htidy, hdated, fun o ho => h.filled o (horigin ▸ ho), fun latest hlatest => ?_, by omega⟩
  rw [hid] at hlatest
  obtain hnamed | hbefore := h.known latest hlatest
  · exact .inl (hrun.trans hnamed)
  · refine .inr ?_
    show latest.completed < j'.updatedAtMs
    omega

theorem later (h : j.Sound host archives clock) (hclock : clock ≤ now) : j.Sound host archives now :=
  h.changed hclock rfl h.tidy h.dated rfl rfl (.inr rfl)

/-- Other archives grew, or went. -/
theorem elsewhere (h : j.Sound host archives clock) (hsame : latestRecord host archives' j.id = latestRecord host archives j.id) :
    j.Sound host archives' clock :=
  { h with known := fun latest hlatest => h.known latest (hsame ▸ hlatest) }

end Job.Sound

namespace Store

variable {host : Host} {s : Store} {now : Int}

structure Inv (host : Host) (s : Store) : Prop where
  unique : (s.jobs.map fun j => j.id).Nodup
  dirs : ∀ dir ∈ outputDirs s.archives, dir ∈ s.jobs.map fun j => j.id
  jobs : ∀ j ∈ s.jobs, j.Sound host s.archives s.clock

/-- The run ends after every run in the archive of its job; with no metadata written, by a
    clock that has moved. -/
def Timely (host : Host) (s : Store) (now : Int) (jobId : String) (r : CompletedRun) : Prop :=
  match r.archived with
  | .whole => s.archives.Older host jobId s.fresh now
  | .transcript _ => (∀ old ∈ unsortedRunRecords host s.archives jobId, old.completed < now) ∧ r.startedAtMs < now
  | .nothing _ => ∀ old ∈ unsortedRunRecords host s.archives jobId, old.completed < now

/-- The clock does not go back, a new job's id is new, a one-shot is added before its time
    and no text of an origin is empty. -/
def Fits (host : Host) (s : Store) (e : StoreEvent) : Prop :=
  s.clock ≤ e.now ∧ 0 < e.now ∧
    match e.op with
    | .add n => n.id ∉ (s.jobs.map fun j => j.id) ∧ n.id ∉ outputDirs s.archives ∧ (∀ o ∈ n.origin, o.Filled) ∧
        (n.schedule.kind = .at_ → ∀ t ∈ n.schedule.atMs, t ≠ 0 ∧ e.now < t)
    | .run jobId r => s.Timely host e.now jobId r
    | _ => True

theorem Inv.start : Inv host {} := by
  refine ⟨List.nodup_nil, fun dir hdir => ?_, List.forall_mem_nil _⟩
  simp [outputDirs, archives] at hdir

/-- Each job is changed by `f`, and the archives are not. -/
theorem Inv.map (h : Inv host s) (f : Job → Job) (hid : ∀ j, (f j).id = j.id)
    (hf : ∀ j ∈ s.jobs, (f j).Sound host s.archives now) : Inv host { s with jobs := s.jobs.map f, clock := now } := by
  have hids : (s.jobs.map f).map (fun j => j.id) = s.jobs.map fun j => j.id := by
    rw [List.map_map]
    exact List.map_congr_left fun j _ => hid j
  constructor
  · show ((s.jobs.map f).map fun j => j.id).Nodup
    rw [hids]
    exact h.unique
  · intro dir hdir
    show dir ∈ (s.jobs.map f).map fun j => j.id
    rw [hids]
    exact h.dirs dir hdir
  · intro j' hj'
    obtain ⟨j, hj, hfj⟩ := List.mem_map.1 hj'
    rw [← hfj]
    exact hf j hj

theorem Inv.later (h : Inv host s) (hclock : s.clock ≤ now) : Inv host { s with clock := now } :=
  ⟨h.unique, h.dirs, fun j hj => (h.jobs j hj).later hclock⟩

theorem Inv.edit (h : Inv host s) (hclock : s.clock ≤ now) {wanted : Job → Bool} {f : Job → Job} (hid : ∀ j, (f j).id = j.id)
    (hf : ∀ j ∈ s.jobs, (f j).Sound host s.archives now) : Inv host (edit { s with clock := now } wanted f) := by
  unfold Store.edit
  split
  · exact h.later hclock
  · rename_i job _
    refine h.map (fun j => if j.id = job.id then f j else j) (fun j => ?_) fun j hj => ?_
    · split
      · exact hid j
      · rfl
    · split
      · exact hf j hj
      · exact (h.jobs j hj).later hclock

theorem newJob_ok {n : AddJob} {job : Job} (h : n.newJob host now = .ok job) : n.toNewJob.job host now = .ok job.toCronJob ∧
    job.origin = n.origin := by
  unfold AddJob.newJob at h
  split at h
  · cases h
  · cases hcore : n.toNewJob.job host now with
    | error e =>
      rw [hcore] at h
      cases h
    | ok core =>
      rw [hcore] at h
      cases h
      exact ⟨rfl, rfl⟩

/-- A job that is added before its time. -/
theorem Inv.add (h : Inv host s) (hclock : s.clock ≤ now) {n : AddJob} {job : Job} (hjob : n.newJob host now = .ok job)
    (hid : n.id ∉ s.jobs.map fun j => j.id) (hdir : n.id ∉ outputDirs s.archives) (hfilled : ∀ o ∈ n.origin, o.Filled)
    (htime : n.schedule.kind = .at_ → ∀ t ∈ n.schedule.atMs, t ≠ 0 ∧ now < t) :
    Inv host { s with clock := now, jobs := s.jobs ++ [job] } := by
  obtain ⟨hcore, horigin⟩ := newJob_ok hjob
  obtain ⟨hjid, hen, hsched, hschedule, hstate, hup⟩ := NewJob.job_ok hcore
  have hdated : job.toCronJob.Dated := by
    intro _ hat _ hnone
    rw [hschedule] at hat ⊢
    rw [hstate] at hnone
    cases hat' : n.schedule.atMs with
    | none => rfl
    | some t =>
      obtain ⟨hne, hlater⟩ := htime hat t hat'
      unfold computeNextRun truthy at hnone
      rw [hat, hat'] at hnone
      have hpast : t ≤ now := by simpa [hne] using hnone
      omega
  have hnorecord : latestRecord host s.archives job.id = none := by
    cases hlatest : latestRecord host s.archives job.id with
    | none => rfl
    | some latest =>
      have hmem := latestRecord_dir hlatest
      rw [hjid] at hmem
      exact absurd hmem hdir
  refine ⟨?_, fun dir hdir' => ?_, fun j hj => ?_⟩
  · show ((s.jobs ++ [job]).map fun j => j.id).Nodup
    rw [List.map_append, List.nodup_append]
    refine ⟨h.unique, List.nodup_singleton _, fun a ha b hb => ?_⟩
    obtain rfl : b = n.id := (List.mem_singleton.1 hb).trans hjid
    rintro rfl
    exact hid ha
  · show dir ∈ (s.jobs ++ [job]).map fun j => j.id
    rw [List.map_append]
    exact List.mem_append_left _ (h.dirs dir hdir')
  · obtain hj | hj := List.mem_append.1 hj
    · exact (h.jobs j hj).later hclock
    · rw [List.mem_singleton.1 hj]
      refine ⟨.of_scheduled hen hsched, hdated, fun o ho => hfilled o (horigin ▸ ho), fun latest hlatest => ?_, hup.le⟩
      have hlatest : latest ∈ latestRecord host s.archives job.id := hlatest
      rw [hnorecord] at hlatest
      cases hlatest

theorem Inv.update (h : Inv host s) (hclock : s.clock ≤ now) (key : String) (u : JobUpdates) :
    Inv host (Store.edit { s with clock := now } (fun j => j.id = key ∨ j.name = key) (Job.update host now u)) := by
  have hcore : ∀ j : Job, (Job.update host now u j).toCronJob = (j.toCronJob.update host now u.toUpdates).job := by
    intro j
    unfold Job.update
    split
    · rename_i hrefused
      rw [hrefused]
      rfl
    · rfl
  have horigin : ∀ j : Job, (Job.update host now u j).origin = j.origin := by
    intro j
    unfold Job.update
    split <;> rfl
  refine h.edit hclock (fun j => ?_) fun j hj => ?_
  · show (Job.update host now u j).toCronJob.id = _
    rw [hcore]
    exact (edit_tidy (.update u.toUpdates)).1
  · obtain ⟨hid, htidy⟩ := edit_tidy (j := j.toCronJob) (UserEdit.update u.toUpdates)
    obtain ⟨hrun, hup⟩ := update_keeps host now u.toUpdates j.toCronJob
    have hs := h.jobs j hj
    refine hs.changed hclock ?_ ?_ ?_ (horigin j) ?_ ?_ <;> rw [hcore]
    · exact hid
    · exact htidy hs.tidy
    · exact hs.dated.update _
    · exact hrun
    · exact hup

theorem Inv.enable (h : Inv host s) (hclock : s.clock ≤ now) (jobId : String) (enabled : Bool) :
    Inv host (Store.edit { s with clock := now } (·.id = jobId) (Job.enable host now enabled)) := by
  refine h.edit hclock (fun j => (edit_tidy (.enable enabled)).1) fun j hj => ?_
  obtain ⟨hid, htidy⟩ := edit_tidy (j := j.toCronJob) (UserEdit.enable enabled)
  obtain ⟨hrun, hup⟩ := enable_keeps host now enabled j.toCronJob
  have hs := h.jobs j hj
  exact hs.changed hclock hid (htidy hs.tidy) (hs.dated.enable _) rfl hrun (.inl hup)

theorem Inv.forward (h : Inv host s) (hclock : s.clock ≤ now) :
    Inv host { s with jobs := s.jobs.map fun j => { j with toCronJob := forwarded host now j.toCronJob }, clock := now } := by
  have hkeeps : ∀ j : CronJob, (forwarded host now j).id = j.id ∧ (forwarded host now j).state.lastRunId = j.state.lastRunId ∧
      (forwarded host now j).updatedAtMs = j.updatedAtMs := by
    intro j
    unfold forwarded
    split <;> exact ⟨rfl, rfl, rfl⟩
  refine h.map _ (fun j => (hkeeps j.toCronJob).1) fun j hj => ?_
  obtain ⟨hid, hrun, hup⟩ := hkeeps j.toCronJob
  have hs := h.jobs j hj
  exact hs.changed hclock hid hs.tidy.forwarded hs.dated.forwarded rfl hrun (.inr hup)

/-- A job of an archive that is kept. -/
theorem latestRecord_purged {ids : List String} {id : String} (hid : id ∉ ids) :
    latestRecord host { transcripts := s.transcripts.filter (·.jobId ∉ ids), records := s.records.filter (·.jobId ∉ ids) } id =
      latestRecord host s.archives id := by
  have h : unsortedRunRecords host (World.purgeArchives { disk := s.archives } ids).disk id = unsortedRunRecords host s.archives id :=
    Recovering.unsortedRunRecords_purged.trans (if_neg hid)
  unfold latestRecord readRunRecords
  exact congrArg (fun l => (l.insertionSort (newer host)).head?) h

theorem outputDirs_purged {ids : List String} {dir : String}
    (h : dir ∈ outputDirs { transcripts := s.transcripts.filter (·.jobId ∉ ids), records := s.records.filter (·.jobId ∉ ids) }) :
    dir ∈ outputDirs s.archives ∧ dir ∉ ids := by
  unfold outputDirs at h ⊢
  rw [List.mem_dedup, List.mem_append] at h ⊢
  obtain h | h := h
  · obtain ⟨t, ht, rfl⟩ := List.mem_map.1 h
    obtain ⟨ht, hkept⟩ := List.mem_filter.1 ht
    exact ⟨.inl (List.mem_map_of_mem ht), by simpa using hkept⟩
  · obtain ⟨r, hr, rfl⟩ := List.mem_map.1 h
    obtain ⟨hr, hkept⟩ := List.mem_filter.1 hr
    exact ⟨.inr (List.mem_map_of_mem hr), by simpa using hkept⟩

theorem Inv.remove (h : Inv host s) (hclock : s.clock ≤ now) (key : String) (purge : Bool) :
    Inv host (Store.remove now { s with clock := now } key purge) := by
  unfold Store.remove
  dsimp only
  generalize (s.jobs.filter fun j => j.id = key ∨ j.name = key).map (·.id) = ids
  cases purge with
  | true =>
    refine ⟨h.unique.sublist (List.filter_sublist.map _), fun dir hdir => ?_, fun j hj => ?_⟩
    · obtain ⟨hold, hkept⟩ := outputDirs_purged hdir
      obtain ⟨j, hj, hid⟩ := List.mem_map.1 (h.dirs dir hold)
      exact List.mem_map.2 ⟨j, List.mem_filter.2 ⟨hj, by simpa [hid] using hkept⟩, hid⟩
    · obtain ⟨hj, hkept⟩ := List.mem_filter.1 hj
      exact ((h.jobs j hj).later hclock).elsewhere (latestRecord_purged (by simpa using hkept))
  | false =>
    refine h.map (fun j => if j.id ∈ ids then { j with toCronJob := j.toCronJob.archive now } else j) (fun j => ?_) fun j hj => ?_
    · split <;> rfl
    · have hs := h.jobs j hj
      split
      · exact hs.changed hclock rfl (.of_ended rfl nofun rfl) (.of_ended nofun) rfl rfl (.inl rfl)
      · exact hs.later hclock

/-- One job is replaced, and its archive grows. -/
theorem Inv.replace (h : Inv host s) (hclock : s.clock ≤ now) {s' : Store} {job : Job} {core : CronJob} {error : Option Text}
    (hjob : job ∈ s.jobs) (hid : core.id = job.id) (hnow : s'.clock = now)
    (hjobs : s'.jobs = s.jobs.map fun j => if j.id = job.id then { j with toCronJob := core, lastOutputError := error } else j)
    (hdirs : ∀ dir ∈ outputDirs s'.archives, dir = job.id ∨ dir ∈ outputDirs s.archives)
    (hother : ∀ id, id ≠ job.id → latestRecord host s'.archives id = latestRecord host s.archives id)
    (htidy : core.Tidy) (hdated : core.Dated) (hup : core.updatedAtMs = now)
    (hknown : ∀ latest ∈ latestRecord host s'.archives core.id, core.knows latest) : Inv host s' := by
  have hids : s'.jobs.map (fun j => j.id) = s.jobs.map fun j => j.id := by
    rw [hjobs, List.map_map]
    refine List.map_congr_left fun j _ => ?_
    show (if j.id = job.id then ({ j with toCronJob := core, lastOutputError := error } : Job) else j).id = j.id
    split
    · rename_i heq
      exact hid.trans heq.symm
    · rfl
  refine ⟨hids ▸ h.unique, fun dir hdir => ?_, fun j' hj' => ?_⟩
  · rw [hids]
    obtain rfl | hold := hdirs dir hdir
    · exact List.mem_map_of_mem hjob
    · exact h.dirs dir hold
  · rw [hjobs] at hj'
    obtain ⟨j, hj, rfl⟩ := List.mem_map.1 hj'
    rw [hnow]
    split
    · exact ⟨htidy, hdated, (h.jobs j hj).filled, hknown, hup.le⟩
    · rename_i hne
      exact ((h.jobs j hj).later hclock).elsewhere (hother j.id hne)

section

variable {core : CronJob} {run : Run} {failed : Bool} {archived : Archived}

theorem archive_jobs : (s.archive core run now failed archived).jobs = s.jobs := by
  unfold Store.archive
  split <;> rfl

theorem archive_clock : (s.archive core run now failed archived).clock = s.clock := by
  unfold Store.archive
  split <;> rfl

theorem archive_dirs {dir : String} (h : dir ∈ outputDirs (s.archive core run now failed archived).archives) :
    dir = core.id ∨ dir ∈ outputDirs s.archives := by
  unfold Store.archive at h
  split at h
  · simp only [outputDirs, archives, List.map_cons, List.cons_append, List.mem_dedup, List.mem_cons, List.mem_append,
      CronJob.record] at h ⊢
    obtain h | h | h | h := h
    · exact .inl h
    · exact .inr (.inl h)
    · exact .inl h
    · exact .inr (.inr h)
  · simpa [outputDirs, archives, or_assoc] using h
  · exact .inr h

theorem archive_other {id : String} (hne : id ≠ core.id) :
    latestRecord host (s.archive core run now failed archived).archives id = latestRecord host s.archives id := by
  unfold Store.archive
  split
  · show latestRecord host
      { transcripts := ⟨core.id, core.name, run.startedAtMs, run.runId, failed⟩ :: s.archives.transcripts
        records := core.record run.runId run.startedAtMs now :: s.archives.records } id = _
    exact latestRecord_other hne.symm hne.symm
  · show latestRecord host
      { s.archives with
        transcripts := ⟨core.id, core.name, run.startedAtMs, run.runId, failed⟩ :: s.archives.transcripts } id = _
    exact latestRecord_transcript_other hne.symm
  · rfl

theorem legacy_completed (host : Host) (t : Transcript) : (legacyRunRecord host t).completed ≤ t.startedAtMs := by
  unfold RunRecord.completed legacyRunRecord
  dsimp only
  split <;> exact host.runTime_le _

/-- The job knows of its run, or of every run in its archive. -/
theorem archive_known {before : Store} {jobId : String} {r : CompletedRun} (htimely : before.Timely host now jobId r) (hpos : 0 < now)
    (hnames : core.Names jobId run now) (hbefore : before.archives = s.archives) (hfresh : before.fresh = run.runId)
    (hstarted : r.startedAtMs = run.startedAtMs) (harchived : r.archived = archived) :
    ∀ latest ∈ latestRecord host (s.archive core run now failed archived).archives core.id, core.knows latest := by
  intro latest hlatest
  have hold : (∀ old ∈ unsortedRunRecords host s.archives jobId, old.completed < now) →
      latestRecord host s.archives core.id = some latest → core.knows latest := by
    intro hold h
    refine .inr ?_
    rw [hnames.updatedAtMs]
    exact hold latest (by rw [← hnames.id]; exact latestRecord_mem h)
  unfold Store.Timely at htimely
  rw [harchived, hbefore] at htimely
  unfold Store.archive at hlatest
  cases archived with
  | whole =>
    have hcompleted : (core.record run.runId run.startedAtMs now).completed = now := if_neg (by show now ≠ 0; omega)
    have hnewest : latestRecord host
        { transcripts := ⟨core.id, core.name, run.startedAtMs, run.runId, failed⟩ :: s.archives.transcripts
          records := core.record run.runId run.startedAtMs now :: s.archives.records } core.id =
        some (core.record run.runId run.startedAtMs now) :=
      latestRecord_recorded run.runId rfl rfl rfl (by rw [hcompleted, ← hfresh, hnames.id]; exact htimely)
    obtain rfl := Option.some.inj (hnewest.symm.trans hlatest)
    exact .inl hnames.lastRunId
  | transcript error =>
    obtain hlegacy | hsame := latestRecord_transcript host s.archives ⟨core.id, core.name, run.startedAtMs, run.runId, failed⟩
    · obtain rfl := Option.some.inj (hlegacy.symm.trans hlatest)
      refine .inr ?_
      rw [hnames.updatedAtMs]
      show (legacyRunRecord host _).completed < now
      refine lt_of_le_of_lt ?_ (hstarted ▸ htimely.2)
      exact legacy_completed host _
    · exact hold htimely.1 (hsame.symm.trans hlatest)
  | nothing error => exact hold htimely hlatest

end

/-- The run of a job begins. -/
theorem entered_keeps (host : Host) {r : CompletedRun} {j : CronJob} (h : j.Tidy) (hadmitted : r.admitted j) :
    (r.entered host j).id = j.id ∧ (r.entered host j).Tidy ∧ (r.manual = false → (r.entered host j).lifecycle = .scheduled) := by
  unfold CompletedRun.entered CompletedRun.admitted at *
  cases hmanual : r.manual with
  | true => exact ⟨rfl, h.same rfl rfl rfl, nofun⟩
  | false =>
    rw [hmanual] at hadmitted
    have hdue : j.due r.startedAtMs := hadmitted
    cases hadvanced : advanced host r.startedAtMs j with
    | none => exact ⟨rfl, h.same rfl rfl rfl, fun _ => hdue.1⟩
    | some j' =>
      have htidy : j'.Tidy := .advanced hdue hadvanced
      have hnext : j'.state.nextRunAtMs ≠ none := by
        unfold advanced at hadvanced
        split at hadvanced
        · cases hadvanced
        · split at hadvanced
          · split at hadvanced
            · cases hadvanced
            · cases hadvanced
              exact nofun
          · cases hadvanced
      have hid : j'.id = j.id := advanced_id hadvanced
      exact ⟨hid, htidy.same rfl rfl rfl, fun _ => not_not.1 fun hl => hnext (htidy.next hl)⟩

theorem Inv.completeRun (h : Inv host s) (hclock : s.clock ≤ now) (hpos : 0 < now) {jobId : String} {r : CompletedRun}
    (htimely : s.Timely host now jobId r) : Inv host (Store.completeRun host now { s with clock := now } jobId r) := by
  unfold Store.completeRun
  dsimp only
  split
  · exact h.later hclock
  rename_i job hfind
  split
  · exact h.later hclock
  rename_i hadmitted
  have hjob : job ∈ s.jobs := List.mem_of_find?_eq_some hfind
  have hjobId : job.id = jobId := by simpa using List.find?_some hfind
  obtain ⟨hid, htidy, hscheduled⟩ := entered_keeps host (h.jobs job hjob).tidy (not_not.1 hadmitted)
  generalize r.entered host job.toCronJob = entered at hid htidy hscheduled
  generalize hrun : (⟨job.id, s.fresh, r.startedAtMs, r.manual⟩ : Run) = run
  have hnames := r.ending.final_names now run entered
  have hfinal : (r.ending.final now run entered).Tidy := RunEnd.final_tidy htidy (by rw [← hrun]; exact hscheduled)
  generalize r.ending.final now run entered = core at hnames hfinal
  have hdated : core.Dated := .of_run (by rw [hnames.lastRunAtMs]; exact nofun)
  have hcoreId : core.id = job.id := hnames.id.trans hid
  refine h.replace hclock hjob hcoreId archive_clock archive_jobs (fun dir hdir => ?_) (fun id hne => ?_) hfinal hdated
    hnames.updatedAtMs (archive_known htimely hpos
      ⟨hcoreId.trans hjobId, hnames.lastRunAtMs, hnames.lastRunId, hnames.updatedAtMs⟩ rfl (by rw [← hrun]) (by rw [← hrun]) rfl)
  · exact (archive_dirs hdir).imp_left fun he => he.trans hcoreId
  · exact archive_other (hcoreId.symm ▸ hne)

theorem Inv.next (h : Inv host s) {e : StoreEvent} (hf : s.Fits host e) : Inv host (Store.next host s e) := by
  obtain ⟨hclock, hpos, hop⟩ := hf
  unfold Store.next
  obtain ⟨now, op⟩ := e
  cases op with
  | add n =>
    dsimp only
    obtain ⟨hid, hdir, hfilled, htime⟩ := hop
    cases hjob : n.newJob host now with
    | error e => exact h.later hclock
    | ok job => exact h.add hclock hjob hid hdir hfilled htime
  | update key u => exact h.update hclock key u
  | enable jobId enabled => exact h.enable hclock jobId enabled
  | remove key purge => exact h.remove hclock key purge
  | forward => exact h.forward hclock
  | run jobId r => exact h.completeRun hclock hpos hop

/-- A restart loads the jobs that were saved. -/
theorem Inv.load (h : Inv host s) (now : Int) : Store.load host now s.saved s.archives = s.jobs := by
  have hread : s.saved.map JobRecord.read = s.jobs := by
    unfold saved
    rw [List.map_map]
    exact (List.map_congr_left fun j hj => (read_toRecord_iff j).2 (h.jobs j hj).kept).trans (List.map_id _)
  have hreconciled : s.jobs.map (fun j => { j with toCronJob := reconciled host s.archives j.toCronJob }) = s.jobs := by
    refine (List.map_congr_left fun j hj => ?_).trans (List.map_id _)
    rw [(h.jobs j hj).reconciled]
    rfl
  have horphans : orphans host now s.archives (s.jobs.map Job.toCronJob) = [] := by
    unfold orphans
    rw [List.map_map, List.filter_eq_nil_iff.2]
    · rfl
    · intro dir hdir
      simpa using h.dirs dir hdir
  unfold Store.load
  dsimp only
  rw [hread, hreconciled, horphans]
  exact List.append_nil _

/-- In every run in which a one-shot is added before its time, no text of an origin is
    empty, and no run of a job ends with the one before it, a restart loads the jobs that
    were saved, and the same ones are due at every time. -/
theorem saved_jobs_are_loaded {host : Host} {s : Store} (h : Reach (next host) (Fits host) {} s) (now : Int) :
    load host now s.saved s.archives = s.jobs ∧
      ∀ t, (load host now s.saved s.archives).filter (fun j => j.toCronJob.due t) = s.jobs.filter fun j => j.toCronJob.due t := by
  have hload := (h.invariant Inv.start fun _ _ hi hf => hi.next hf).load now
  exact ⟨hload, fun t => by rw [hload]⟩

namespace Sample

def report : AddJob := { Cron.Sample.hourly with message := "write the report" }

def added : Store := next Cron.Sample.host {} ⟨1000, .add report⟩

def hour : CompletedRun := { manual := false, startedAtMs := 3601000, ending := .callback (.returned none) }

def ran : Store := next Cron.Sample.host added ⟨3602000, .run "a" hour⟩

def past : AddJob := { id := "b", name := "b", schedule := { kind := .at_, atMs := some 500 }, message := "call back" }

def overdue : Store := next Cron.Sample.host {} ⟨1000, .add past⟩

theorem added_fits : Fits Cron.Sample.host {} ⟨1000, .add report⟩ :=
  ⟨by decide, by decide, List.not_mem_nil, by decide, nofun, nofun⟩

theorem ran_fits : Fits Cron.Sample.host added ⟨3602000, .run "a" hour⟩ := by
  have hclock : added.clock ≤ 3602000 := by decide +kernel
  have holder : added.archives.Older Cron.Sample.host "a" added.fresh 3602000 := by decide +kernel
  exact ⟨hclock, by decide, holder⟩

end Sample

theorem saved_jobs_are_loaded_ran : load Sample.host 3700000 Sample.ran.saved Sample.ran.archives = Sample.ran.jobs ∧
    ∀ t, (load Sample.host 3700000 Sample.ran.saved Sample.ran.archives).filter (fun j => j.toCronJob.due t) =
      Sample.ran.jobs.filter fun j => j.toCronJob.due t :=
  saved_jobs_are_loaded (.step _ (.step _ .start Sample.added_fits) Sample.ran_fits) 3700000

/-- The one-shot waits without a due time, and a restart makes it due. -/
theorem a_past_one_shot_becomes_due :
    (∀ j ∈ Sample.overdue.jobs, ∀ t, ¬ j.toCronJob.due t) ∧
    (∃ j ∈ load Sample.host 2000 Sample.overdue.saved Sample.overdue.archives, j.toCronJob.due 2000) ∧
    load Sample.host 2000 Sample.overdue.saved Sample.overdue.archives ≠ Sample.overdue.jobs := by
  have hnone : ∀ j ∈ Sample.overdue.jobs, j.toCronJob.state.nextRunAtMs = none := by decide +kernel
  have hnever : ∀ j ∈ Sample.overdue.jobs, ∀ t, ¬ j.toCronJob.due t := by
    intro j hj t hdue
    obtain ⟨m, hm, -⟩ := hdue.2.2
    rw [hnone j hj] at hm
    cases hm
  have hdue : ∃ j ∈ load Sample.host 2000 Sample.overdue.saved Sample.overdue.archives, j.toCronJob.due 2000 := by
    decide +kernel
  refine ⟨hnever, hdue, fun hsame => ?_⟩
  obtain ⟨j, hj, hd⟩ := hdue
  rw [hsame] at hj
  exact hnever j hj 2000 hd

end Store

end Flowly.Cron
