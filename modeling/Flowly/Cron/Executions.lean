/-
  Flowly.Cron.Executions — one execution a job, and what becomes of every reservation.

  `Control` holds in every run of the service: a job has one active run and one task at
  most, a run leaves `_active_runs` when its result is on disk, and what is published was
  persisted and had left before.

  A reservation waits for its task's first turn. The task finds its job by id or name
  again, and gives up when that job is not the reserved one, is archived, or is not
  enabled while the run was not forced; the reservation then stays in `_active_runs`
  with nobody to end it (`a_pause_strands_the_reservation`). In a run in which every
  detached task whose reservation still stands finds its own job and may run it, every
  run id given out is persisted exactly once, or is on its way to it
  (`every_reservation_is_settled`).
-/

import Flowly.Cron.Rules

namespace Flowly.Cron

open Flowly.Lib Flowly.Lib.Durable

/-! ## The log -/

/-- The runs whose result is on disk. -/
def persistedRuns (log : List Happening) : List Nat :=
  log.filterMap fun | .persisted run _ => some run | _ => none

def Happening.accounts : Happening → Bool
  | .reserved .. | .persisted .. | .retired _ | .published _ => true
  | _ => false

/-- No result is persisted twice; what is published was persisted, had left, and was not published before. -/
def Ordered : List Happening → Prop
  | [] => True
  | .persisted run _ :: log => run ∉ persistedRuns log ∧ Ordered log
  | .published run :: log => run ∈ persistedRuns log ∧ .retired run ∈ log ∧ .published run ∉ log ∧ Ordered log
  | _ :: log => Ordered log

theorem persistedRuns_append {new log : List Happening} (h : ∀ x ∈ new, x.accounts = false) :
    persistedRuns (new ++ log) = persistedRuns log := by
  unfold persistedRuns
  rw [List.filterMap_append, List.filterMap_eq_nil_iff.mpr, List.nil_append]
  intro x hx
  have := h x hx
  cases x <;> first | rfl | cases this

theorem Ordered.append {new log : List Happening} (h : ∀ x ∈ new, x.accounts = false) (ho : Ordered log) :
    Ordered (new ++ log) := by
  induction new with
  | nil => exact ho
  | cons x new ih =>
    have ih' := ih fun y hy => h y (List.mem_cons_of_mem _ hy)
    have hx := h x List.mem_cons_self
    cases x <;> first | exact ih' | cases hx

theorem Ordered.tail {x : Happening} {log : List Happening} (h : Ordered (x :: log)) : Ordered log := by
  cases x with
  | persisted run job => exact h.2
  | published run => exact h.2.2.2
  | _ => exact h

theorem persistedRuns_mono {run : Nat} {x : Happening} {log : List Happening} (h : run ∈ persistedRuns log) :
    run ∈ persistedRuns (x :: log) := by
  obtain ⟨y, hy, hrun⟩ := List.mem_filterMap.mp h
  exact List.mem_filterMap.mpr ⟨y, List.mem_cons_of_mem _ hy, hrun⟩

/-- What was published was persisted. -/
theorem Ordered.persisted_of_published {run : Nat} {log : List Happening} (ho : Ordered log)
    (h : .published run ∈ log) : run ∈ persistedRuns log := by
  induction log with
  | nil => cases h
  | cons x log ih =>
    rcases List.mem_cons.mp h with hx | hin
    · subst hx
      exact persistedRuns_mono ho.1
    · exact persistedRuns_mono (ih ho.tail hin)

/-! ## The invariant -/

structure Control (w : World) : Prop where
  idle : w.loaded = false → w.pass = none ∧ w.activeRuns = [] ∧ w.owners = []
  keys : (w.activeRuns.map (·.1)).Nodup
  ids : ∀ a ∈ w.activeRuns, a.2.jobId = a.1
  runIds : (w.activeRuns.map (·.2.runId)).Nodup
  given : ∀ a ∈ w.activeRuns, a.2.runId < w.fresh
  known : ∀ a ∈ w.activeRuns, a.1 ∈ w.jobs.map (·.id)
  unique : (w.jobs.map (·.id)).Nodup
  uniqueDisk : (w.disk.jobs.map (·.id)).Nodup
  /-- A task in `_execute_job` has the active run of its job. -/
  held : ∀ run ∈ w.owners.map (·.run), w.holds run
  ownerIds : (w.owners.map (·.run.runId)).Nodup
  detachedGiven : ∀ d ∈ w.detached, d.run.runId < w.fresh
  detachedIds : (w.detached.map (·.run.runId)).Nodup
  /-- A task that has not begun is not in `_execute_job`. -/
  unbegun : ∀ d ∈ w.detached, d.run.runId ∉ w.owners.map (·.run.runId)
  ordered : Ordered w.log
  persistedGiven : ∀ run ∈ persistedRuns w.log, run < w.fresh
  unsettled : ∀ a ∈ w.activeRuns, a.2.runId ∉ persistedRuns w.log
  /-- A reserved run is active, or persisted. -/
  accounted : ∀ jobId run, .reserved jobId run ∈ w.log → run ∈ w.activeRuns.map (·.2.runId) ∨ run ∈ persistedRuns w.log
  announcedIds : w.announcing.Nodup
  announced : ∀ run ∈ w.announcing, run ∈ persistedRuns w.log ∧ .retired run ∈ w.log ∧ .published run ∉ w.log

namespace Control

variable {w w' : World}

theorem holds_iff (h : Control w) {run : Run} :
    w.holds run ↔ ∃ r, (run.jobId, r) ∈ w.activeRuns ∧ r.runId = run.runId := by
  unfold World.holds World.activeRun
  rw [Option.map_eq_some_iff]
  constructor
  · rintro ⟨r, hr, he⟩
    exact ⟨r, Assoc.mem_of_lookup hr, he⟩
  · rintro ⟨r, hr, he⟩
    exact ⟨r, Assoc.lookup_of_mem h.keys hr, he⟩

/-- What an act changes that touches no run: jobs, disk, what the log does not account. -/
structure Quiet (w w' : World) : Prop where
  loaded : w'.loaded = false → w.loaded = false
  pass : w'.loaded = false → w'.pass = w.pass
  runs : w'.activeRuns = w.activeRuns
  owners : w'.owners.map (·.run) = w.owners.map (·.run)
  detached : w'.detached = w.detached
  announcing : w'.announcing = w.announcing
  fresh : w'.fresh = w.fresh
  unique : (w'.jobs.map (·.id)).Nodup
  uniqueDisk : (w'.disk.jobs.map (·.id)).Nodup
  known : ∀ a ∈ w.activeRuns, a.1 ∈ w'.jobs.map (·.id)
  log : ∃ new, (∀ x ∈ new, x.accounts = false) ∧ w'.log = new ++ w.log

theorem quiet (h : Control w) (q : Quiet w w') : Control w' := by
  obtain ⟨new, hnew, hlog⟩ := q.log
  have hp : persistedRuns w'.log = persistedRuns w.log := by rw [hlog, persistedRuns_append hnew]
  have hm : ∀ x : Happening, x.accounts = true → (x ∈ w'.log ↔ x ∈ w.log) := by
    intro x hx
    rw [hlog, List.mem_append]
    constructor
    · rintro (hin | hin)
      · rw [hnew x hin] at hx
        cases hx
      · exact hin
    · exact .inr
  have hownerIds : w'.owners.map (·.run.runId) = w.owners.map (·.run.runId) := by
    have := congrArg (List.map Run.runId) q.owners
    rwa [List.map_map, List.map_map] at this
  have hholds : ∀ run, w'.holds run ↔ w.holds run := by
    intro run
    unfold World.holds World.activeRun
    rw [q.runs]
  refine
    { idle := ?_, keys := ?_, ids := ?_, runIds := ?_, given := ?_, known := ?_, unique := q.unique
      uniqueDisk := q.uniqueDisk, held := ?_, ownerIds := ?_, detachedGiven := ?_, detachedIds := ?_, unbegun := ?_
      ordered := ?_, persistedGiven := ?_, unsettled := ?_, accounted := ?_, announcedIds := ?_, announced := ?_ }
  · intro hl
    obtain ⟨hpass, hruns, howners⟩ := h.idle (q.loaded hl)
    refine ⟨(q.pass hl).trans hpass, q.runs.trans hruns, ?_⟩
    have := q.owners
    rw [howners] at this
    exact List.map_eq_nil_iff.mp this
  · rw [q.runs]; exact h.keys
  · rw [q.runs]; exact h.ids
  · rw [q.runs]; exact h.runIds
  · rw [q.runs, q.fresh]; exact h.given
  · rw [q.runs]; exact q.known
  · intro run hrun
    rw [q.owners] at hrun
    exact (hholds run).mpr (h.held run hrun)
  · rw [hownerIds]; exact h.ownerIds
  · rw [q.detached, q.fresh]; exact h.detachedGiven
  · rw [q.detached]; exact h.detachedIds
  · rw [q.detached, hownerIds]; exact h.unbegun
  · rw [hlog]; exact h.ordered.append hnew
  · rw [hp, q.fresh]; exact h.persistedGiven
  · rw [q.runs, hp]; exact h.unsettled
  · intro jobId run hrun
    rw [q.runs, hp]
    exact h.accounted jobId run ((hm _ rfl).mp hrun)
  · rw [q.announcing]; exact h.announcedIds
  · intro run hrun
    rw [q.announcing] at hrun
    obtain ⟨h₁, h₂, h₃⟩ := h.announced run hrun
    rw [hp]
    exact ⟨h₁, (hm _ rfl).mpr h₂, fun hpub => h₃ ((hm _ rfl).mp hpub)⟩

/-! ### Jobs and disk -/

theorem put_ids (w : World) (job : CronJob) : (w.put job).jobs.map (·.id) = w.jobs.map (·.id) := by
  show (w.jobs.map _).map _ = _
  rw [List.map_map]
  refine List.map_congr_left fun j _ => ?_
  by_cases hj : j.id = job.id <;> simp [hj]

/-- Only jobs, disk and silent happenings differ. -/
theorem Quiet.of (hl : w'.loaded = true) (hruns : w'.activeRuns = w.activeRuns)
    (howners : w'.owners.map (·.run) = w.owners.map (·.run)) (hdetached : w'.detached = w.detached)
    (hannouncing : w'.announcing = w.announcing) (hfresh : w'.fresh = w.fresh) (hunique : (w'.jobs.map (·.id)).Nodup)
    (hdisk : (w'.disk.jobs.map (·.id)).Nodup) (hknown : ∀ a ∈ w.activeRuns, a.1 ∈ w'.jobs.map (·.id))
    (new : List Happening) (hnew : ∀ x ∈ new, x.accounts = false) (hlog : w'.log = new ++ w.log) : Quiet w w' where
  loaded h := by rw [hl] at h; cases h
  pass h := by rw [hl] at h; cases h
  runs := hruns
  owners := howners
  detached := hdetached
  announcing := hannouncing
  fresh := hfresh
  unique := hunique
  uniqueDisk := hdisk
  known := hknown
  log := ⟨new, hnew, hlog⟩

theorem orphans_ids (host : Host) (now : Int) (disk : Disk) (jobs : List CronJob) :
    ((orphans host now disk jobs).map (·.id)).Sublist ((outputDirs disk).filter (· ∉ jobs.map (·.id))) := by
  unfold orphans
  generalize (outputDirs disk).filter _ = dirs
  induction dirs with
  | nil => exact List.Sublist.slnil
  | cons dir dirs ih =>
    rw [List.filterMap_cons]
    cases latestRecord host disk dir with
    | none => exact ih.cons _
    | some latest => exact ih.cons_cons _

theorem readFrom_unique {host : Host} {now : Int} (h : Control w) : ((w.readFrom host now).jobs.map (·.id)).Nodup := by
  have hids : (w.disk.jobs.map CronJob.read).map (·.id) = w.disk.jobs.map (·.id) := by
    rw [List.map_map]
    rfl
  have hread : ((w.disk.jobs.map CronJob.read).map (reconciled host w.disk)).map (·.id) = w.disk.jobs.map (·.id) := by
    rw [← hids, List.map_map]
    exact List.map_congr_left fun j _ => reconciled_id
  have horphans := orphans_ids host now w.disk (w.disk.jobs.map CronJob.read)
  have hnd : (outputDirs w.disk).Nodup := List.nodup_dedup _
  show ((_ ++ _ : List CronJob).map _).Nodup
  rw [List.map_append, hread]
  refine List.nodup_append.mpr ⟨h.uniqueDisk, (hnd.filter _).sublist horphans, fun id hid id' hid' he => ?_⟩
  subst he
  have hout := (List.mem_filter.mp (horphans.subset hid')).2
  rw [hids] at hout
  exact (by simpa using hout : id ∉ w.disk.jobs.map (·.id)) hid

/-! ### Runs -/

theorem activeRun_none (w : World) {id : String} : w.activeRun id = none ↔ ∀ a ∈ w.activeRuns, a.1 ≠ id := by
  unfold World.activeRun
  rw [List.lookup_eq_none_iff]
  constructor
  · intro hno a ha he
    simpa [he] using hno a ha
  · intro hno a ha
    simpa using (hno a ha).symm

theorem reserve (now : Int) {id : String} (manual : Bool) (h : Control w) (hl : w.loaded = true)
    (hrun : w.activeRun id = none) (hid : id ∈ w.jobs.map (·.id)) : Control (w.reserve now id manual) := by
  have hother := (activeRun_none w).mp hrun
  refine
    { idle := fun hl' => ?_, keys := ?_, ids := ?_, runIds := ?_, given := ?_, known := ?_, unique := h.unique
      uniqueDisk := h.uniqueDisk, held := ?_, ownerIds := h.ownerIds, detachedGiven := ?_, detachedIds := h.detachedIds
      unbegun := h.unbegun, ordered := h.ordered, persistedGiven := ?_, unsettled := ?_, accounted := ?_
      announcedIds := h.announcedIds, announced := ?_ }
  · rw [show (w.reserve now id manual).loaded = w.loaded from rfl, hl] at hl'
    cases hl'
  · show ((w.activeRuns ++ [_]).map _).Nodup
    rw [List.map_append]
    refine List.nodup_append.mpr ⟨h.keys, List.nodup_singleton _, fun k hk k' hk' he => ?_⟩
    obtain ⟨a, ha, rfl⟩ := List.mem_map.mp hk
    rw [List.mem_singleton.mp hk'] at he
    exact hother a ha he
  · intro a ha
    rcases List.mem_append.mp ha with ha | ha
    · exact h.ids a ha
    · rw [List.mem_singleton.mp ha]
  · show ((w.activeRuns ++ [_]).map _).Nodup
    rw [List.map_append]
    refine List.nodup_append.mpr ⟨h.runIds, List.nodup_singleton _, fun r hr r' hr' he => ?_⟩
    obtain ⟨a, ha, rfl⟩ := List.mem_map.mp hr
    have hlt := h.given a ha
    rw [List.mem_singleton.mp hr'] at he
    dsimp only at he
    omega
  · intro a ha
    rcases List.mem_append.mp ha with ha | ha
    · exact Nat.lt_succ_of_lt (h.given a ha)
    · rw [List.mem_singleton.mp ha]
      exact Nat.lt_succ_self _
  · intro a ha
    rcases List.mem_append.mp ha with ha | ha
    · exact h.known a ha
    · rw [List.mem_singleton.mp ha]
      exact hid
  · intro run hmem
    have hheld := h.held run hmem
    show ((w.activeRuns ++ [_]).lookup run.jobId).map _ = _
    rw [List.lookup_append]
    obtain ⟨r, hr, he⟩ := Option.map_eq_some_iff.mp hheld
    rw [show w.activeRuns.lookup run.jobId = some r from hr]
    exact congrArg some he
  · intro d hd
    exact Nat.lt_succ_of_lt (h.detachedGiven d hd)
  · intro run hmem
    exact Nat.lt_succ_of_lt (h.persistedGiven run hmem)
  · intro a ha
    rcases List.mem_append.mp ha with ha | ha
    · exact h.unsettled a ha
    · rw [List.mem_singleton.mp ha]
      intro hin
      exact absurd (h.persistedGiven _ hin) (Nat.lt_irrefl _)
  · intro jobId run hin
    show _ ∈ (w.activeRuns ++ [_]).map _ ∨ run ∈ persistedRuns w.log
    rw [List.map_append]
    rcases List.mem_cons.mp hin with he | hin
    · cases he
      exact .inl (List.mem_append_right _ (List.mem_singleton.mpr rfl))
    · rcases h.accounted jobId run hin with hact | hper
      · exact .inl (List.mem_append_left _ hact)
      · exact .inr hper
  · intro run hmem
    obtain ⟨h₁, h₂, h₃⟩ := h.announced run hmem
    refine ⟨h₁, List.mem_cons_of_mem _ h₂, fun hin => ?_⟩
    rcases List.mem_cons.mp hin with he | hin
    · cases he
    · exact h₃ hin

theorem enter_runIds (w : World) (run : Run) (manual inPass : Bool) (base : Baseline) :
    (w.enter run manual inPass base).activeRuns.map (·.2.runId) = w.activeRuns.map (·.2.runId) := by
  show (w.activeRuns.map _).map _ = _
  rw [List.map_map]
  refine List.map_congr_left fun a _ => ?_
  by_cases ha : a.2.runId = run.runId <;> simp [ha]

theorem enter_keys (w : World) (run : Run) (manual inPass : Bool) (base : Baseline) :
    (w.enter run manual inPass base).activeRuns.map (·.1) = w.activeRuns.map (·.1) := by
  show (w.activeRuns.map _).map _ = _
  rw [List.map_map]
  rfl

theorem enter_holds (w : World) (run run' : Run) (manual inPass : Bool) (base : Baseline) :
    (w.enter run manual inPass base).holds run' ↔ w.holds run' := by
  unfold World.holds World.activeRun
  show (((w.activeRuns.map fun a => (a.1, if a.2.runId = run.runId then { a.2 with manual } else a.2)).lookup
    run'.jobId).map _ = _) ↔ _
  rw [Assoc.lookup_map fun r : Run => if r.runId = run.runId then { r with manual } else r, Option.map_map]
  have hid : ((fun r : Run => r.runId) ∘ fun r : Run => if r.runId = run.runId then { r with manual } else r) =
      fun r => r.runId := by
    funext r
    by_cases hr : r.runId = run.runId <;> simp [hr]
  rw [hid]

theorem enter {run : Run} {manual inPass : Bool} {base : Baseline} (h : Control w) (hl : w.loaded = true)
    (hh : w.holds run) (ho : run.runId ∉ w.owners.map (·.run.runId)) (hd : ∀ d ∈ w.detached, d.run.runId ≠ run.runId) :
    Control (w.enter run manual inPass base) := by
  have hmem : ∀ a ∈ (w.enter run manual inPass base).activeRuns, ∃ a' ∈ w.activeRuns,
      a.1 = a'.1 ∧ a.2.runId = a'.2.runId ∧ a.2.jobId = a'.2.jobId := by
    intro a ha
    obtain ⟨a', ha', rfl⟩ := List.mem_map.mp ha
    refine ⟨a', ha', rfl, ?_, ?_⟩ <;> by_cases hr : a'.2.runId = run.runId <;> simp [hr]
  refine
    { idle := fun hl' => ?_, keys := ?_, ids := ?_, runIds := ?_, given := ?_, known := ?_, unique := h.unique
      uniqueDisk := h.uniqueDisk, held := ?_, ownerIds := List.nodup_cons.mpr ⟨ho, h.ownerIds⟩
      detachedGiven := h.detachedGiven, detachedIds := h.detachedIds, unbegun := ?_, ordered := h.ordered
      persistedGiven := h.persistedGiven, unsettled := ?_, accounted := ?_, announcedIds := h.announcedIds
      announced := h.announced }
  · rw [show (w.enter run manual inPass base).loaded = w.loaded from rfl, hl] at hl'
    cases hl'
  · rw [enter_keys]; exact h.keys
  · intro a ha
    obtain ⟨a', ha', h₁, -, h₃⟩ := hmem a ha
    rw [h₁, h₃]
    exact h.ids a' ha'
  · rw [enter_runIds]; exact h.runIds
  · intro a ha
    obtain ⟨a', ha', -, h₂, -⟩ := hmem a ha
    rw [h₂]
    exact h.given a' ha'
  · intro a ha
    obtain ⟨a', ha', h₁, -, -⟩ := hmem a ha
    rw [h₁]
    exact h.known a' ha'
  · intro run' hrun'
    rw [enter_holds]
    rcases List.mem_cons.mp hrun' with rfl | hrun'
    · exact hh
    · exact h.held run' hrun'
  · intro d hdm hin
    rcases List.mem_cons.mp hin with he | hin
    · exact hd d hdm he
    · exact h.unbegun d hdm hin
  · intro a ha
    obtain ⟨a', ha', -, h₂, -⟩ := hmem a ha
    rw [h₂]
    exact h.unsettled a' ha'
  · intro jobId r hin
    rw [enter_runIds]
    exact h.accounted jobId r hin

/-- The run is over: its result is on disk, it has left, and nobody has heard of it. -/
theorem endRun (now : Int) {run : Run} (manual : Bool) (e : Ending) (job : CronJob) (h : Control w) (hl : w.loaded = true)
    (hh : w.holds run) :
    Control (w.over now run manual e job) ∧ run.runId ∉ persistedRuns w.log ∧ .published run.runId ∉ w.log := by
  obtain ⟨r, hr, hrid⟩ := h.holds_iff.mp hh
  have hnew : run.runId ∉ persistedRuns w.log := hrid ▸ h.unsettled _ hr
  have hpub : .published run.runId ∉ w.log := fun hin => hnew (h.ordered.persisted_of_published hin)
  refine ⟨?_, hnew, hpub⟩
  have hmem : ∀ a ∈ (w.over now run manual e job).activeRuns, a ∈ w.activeRuns ∧ a.2.runId ≠ run.runId := by
    intro a ha
    obtain ⟨hin, hout⟩ := List.mem_filter.mp ha
    refine ⟨hin, fun he => ?_⟩
    have haeq : a = (run.jobId, r) := List.inj_on_of_nodup_map h.runIds hin hr (he.trans hrid.symm)
    simp [haeq, hrid] at hout
  have hids : (w.over now run manual e job).jobs.map (·.id) = w.jobs.map (·.id) := put_ids w _
  have hsub : (w.over now run manual e job).activeRuns.Sublist w.activeRuns := List.filter_sublist
  have howners : ∀ x ∈ (w.over now run manual e job).owners, x ∈ w.owners ∧ x.run.runId ≠ run.runId := by
    intro x hx
    obtain ⟨hin, hout⟩ := List.mem_filter.mp hx
    exact ⟨hin, by simpa using hout⟩
  have hkeys : ((w.over now run manual e job).activeRuns.map (·.1)).Nodup := h.keys.sublist (hsub.map _)
  refine
    { idle := fun hl' => ?_, keys := hkeys, ids := ?_, runIds := h.runIds.sublist (hsub.map _), given := ?_, known := ?_
      unique := hids ▸ h.unique, uniqueDisk := hids ▸ h.unique, held := ?_, ownerIds := ?_
      detachedGiven := h.detachedGiven, detachedIds := h.detachedIds, unbegun := ?_, ordered := ⟨hnew, h.ordered⟩
      persistedGiven := ?_, unsettled := ?_, accounted := ?_, announcedIds := h.announcedIds, announced := ?_ }
  · rw [show (w.over now run manual e job).loaded = w.loaded from rfl, hl] at hl'
    cases hl'
  · intro a ha
    exact h.ids a (hmem a ha).1
  · intro a ha
    exact h.given a (hmem a ha).1
  · intro a ha
    rw [hids]
    exact h.known a (hmem a ha).1
  · intro run' hrun'
    obtain ⟨x, hx, rfl⟩ := List.mem_map.mp hrun'
    obtain ⟨hin, hne⟩ := howners x hx
    obtain ⟨r', hr', hrid'⟩ := h.holds_iff.mp (h.held _ (List.mem_map_of_mem hin))
    have hstay : (x.run.jobId, r') ∈ (w.over now run manual e job).activeRuns :=
      List.mem_filter.mpr ⟨hr', by simp [hrid', hne]⟩
    show ((w.over now run manual e job).activeRuns.lookup x.run.jobId).map _ = _
    rw [Assoc.lookup_of_mem hkeys hstay]
    exact congrArg some hrid'
  · exact h.ownerIds.sublist (List.filter_sublist.map _)
  · intro d hd hin
    obtain ⟨x, hx, hxd⟩ := List.mem_map.mp hin
    exact h.unbegun d hd (List.mem_map.mpr ⟨x, (howners x hx).1, hxd⟩)
  · intro run' hrun'
    rcases List.mem_cons.mp hrun' with rfl | hrun'
    · exact hrid ▸ h.given _ hr
    · exact h.persistedGiven run' hrun'
  · intro a ha hin
    obtain ⟨hact, hne⟩ := hmem a ha
    rcases List.mem_cons.mp hin with he | hin
    · exact hne he
    · exact h.unsettled a hact hin
  · intro jobId run' hin
    have hin' : .reserved jobId run' ∈ w.log := by
      rcases List.mem_cons.mp hin with he | hin
      · cases he
      · rcases List.mem_cons.mp hin with he | hin
        · cases he
        · exact hin
    rcases h.accounted jobId run' hin' with hact | hper
    · obtain ⟨a, ha, rfl⟩ := List.mem_map.mp hact
      by_cases he : a.2.runId = run.runId
      · exact .inr (he ▸ List.mem_cons_self)
      · exact .inl (List.mem_map.mpr ⟨a, List.mem_filter.mpr ⟨ha, by simp [he]⟩, rfl⟩)
    · exact .inr (List.mem_cons_of_mem _ hper)
  · intro run' hrun'
    obtain ⟨h₁, h₂, h₃⟩ := h.announced run' hrun'
    refine ⟨List.mem_cons_of_mem _ h₁, List.mem_cons_of_mem _ (List.mem_cons_of_mem _ h₂), fun hin => ?_⟩
    rcases List.mem_cons.mp hin with he | hin
    · cases he
    · rcases List.mem_cons.mp hin with he | hin
      · cases he
      · exact h₃ hin

/-- A run that is on disk, has left and was not published may be published. -/
theorem note_published {run : Nat} (h : Control w) (hp : run ∈ persistedRuns w.log) (hr : .retired run ∈ w.log)
    (hn : .published run ∉ w.log) (ha : run ∉ w.announcing) : Control (w.note (.published run)) where
  __ := h
  held := h.held
  ordered := ⟨hp, hr, hn, h.ordered⟩
  persistedGiven := h.persistedGiven
  unsettled := h.unsettled
  accounted jobId run' hin := by
    rcases List.mem_cons.mp hin with he | hin
    · cases he
    · exact h.accounted jobId run' hin
  announced run' hrun' := by
    obtain ⟨h₁, h₂, h₃⟩ := h.announced run' hrun'
    refine ⟨h₁, List.mem_cons_of_mem _ h₂, fun hin => ?_⟩
    rcases List.mem_cons.mp hin with he | hin
    · cases he
      exact ha hrun'
    · exact h₃ hin

theorem follow {now : Int} {run : Run} {manual : Bool} {e : Ending} {job : CronJob} {f : Follow} (h : Control w)
    (hl : w.loaded = true) (hh : w.holds run) : Control ((w.over now run manual e job).follow run.runId f) := by
  obtain ⟨ho, hnew, hpub⟩ := h.endRun now manual e job hl hh
  have hper : run.runId ∈ persistedRuns (w.over now run manual e job).log := List.mem_cons_self
  have hret : .retired run.runId ∈ (w.over now run manual e job).log := List.mem_cons_self
  have hnot : .published run.runId ∉ (w.over now run manual e job).log := by
    intro hin
    rcases List.mem_cons.mp hin with he | hin
    · cases he
    · rcases List.mem_cons.mp hin with he | hin
      · cases he
      · exact hpub hin
  have hann : run.runId ∉ w.announcing := fun hin => hnew (h.announced _ hin).1
  cases f with
  | nobody => exact ho
  | publish inPass raises =>
    have hn := ho.note_published hper hret hnot hann
    exact { hn with idle := hn.idle, held := hn.held }
  | announce =>
    refine { ho with idle := ho.idle, held := ho.held, announcedIds := ?_, announced := fun run' hrun' => ?_ }
    · refine List.nodup_append.mpr ⟨h.announcedIds, List.nodup_singleton _, fun a ha b hb he => ?_⟩
      rw [he, List.mem_singleton.mp hb] at ha
      exact hann ha
    · rcases List.mem_append.mp hrun' with hin | hin
      · exact ho.announced run' hin
      · rw [List.mem_singleton.mp hin]
        exact ⟨hper, hret, hnot⟩

/-! ### Every act -/

/-- Jobs changed in place. -/
theorem changed {jobs : List CronJob} (new : List Happening) (h : Control w) (hl : w.loaded = true)
    (hj : jobs.map (·.id) = w.jobs.map (·.id)) (hnew : ∀ x ∈ new, x.accounts = false) :
    Control { w with jobs, log := new ++ w.log } :=
  h.quiet (.of hl rfl rfl rfl rfl rfl (hj ▸ h.unique) h.uniqueDisk (by rw [hj]; exact h.known) new hnew rfl)

/-- Jobs changed in place, and saved. -/
theorem changed_saved {jobs : List CronJob} (new : List Happening) (h : Control w) (hl : w.loaded = true)
    (hj : jobs.map (·.id) = w.jobs.map (·.id)) (hnew : ∀ x ∈ new, x.accounts = false) :
    ((World.saved { w with jobs, log := new ++ w.log }).disk.jobs.map (·.id)).Nodup ∧
      Control (World.saved { w with jobs, log := new ++ w.log }) := by
  have hu : (jobs.map (·.id)).Nodup := hj ▸ h.unique
  refine ⟨hu, h.quiet (.of hl rfl rfl rfl rfl rfl hu hu ?_ new hnew rfl)⟩
  intro a ha
  show a.1 ∈ jobs.map (·.id)
  rw [hj]
  exact h.known a ha

theorem sets_silent {jobs : List CronJob} {f : CronJob → Happening} (hf : ∀ j, (f j).accounts = false) :
    ∀ x ∈ jobs.map f, x.accounts = false := by
  intro x hx
  obtain ⟨j, -, rfl⟩ := List.mem_map.mp hx
  exact hf j

theorem moveTo_runs (w : World) (x : Execution) (place : Await) :
    (w.moveTo x place).owners.map (·.run) = w.owners.map (·.run) := by
  show (w.owners.map _).map _ = _
  rw [List.map_map]
  refine List.map_congr_left fun y _ => ?_
  by_cases hy : y.run.runId = x.run.runId <;> simp [hy]

/-- A task goes on: a job changes in place, and the task waits elsewhere. -/
theorem moved {x : Execution} {place : Await} {job : CronJob} (new : List Happening) (h : Control w) (hl : w.loaded = true)
    (hnew : ∀ x ∈ new, x.accounts = false) :
    Control { (w.put job).moveTo x place with log := new ++ w.log } := by
  refine h.quiet (.of hl rfl (moveTo_runs (w.put job) x place) rfl rfl rfl ?_ h.uniqueDisk ?_ new hnew rfl)
  · exact (put_ids w job) ▸ h.unique
  · exact (put_ids w job) ▸ h.known

theorem map_ids {f : CronJob → CronJob} (hf : ∀ j, (f j).id = j.id) (jobs : List CronJob) :
    (jobs.map f).map (·.id) = jobs.map (·.id) := by
  rw [List.map_map]
  exact List.map_congr_left fun j _ => hf j

theorem recompute_id (host : Host) (now : Int) (j : CronJob) : (j.recompute host now).id = j.id := by
  unfold CronJob.recompute
  split
  · rfl
  · split
    · rfl
    · split
      · split <;> rfl
      · split <;> rfl

theorem forwarded_id (host : Host) (now : Int) (j : CronJob) : (forwarded host now j).id = j.id := by
  unfold forwarded
  split <;> rfl

theorem keepActive_ids {active jobs : List CronJob} :
    (keepActive active jobs).map (·.id) = jobs.map (·.id) ++ (active.filter (·.id ∉ jobs.map (·.id))).map (·.id) := by
  unfold keepActive
  rw [List.map_append, map_ids]
  intro j
  cases hf : active.find? (·.id = j.id) with
  | none => rfl
  | some job => simpa using List.find?_some hf

theorem keeping_ids (host : Host) (now : Int) (h : Control w) :
    (((w.readFrom host now).keeping w).jobs.map (·.id)).Nodup ∧
      ∀ a ∈ w.activeRuns, a.1 ∈ ((w.readFrom host now).keeping w).jobs.map (·.id) := by
  show ((keepActive _ _).map _).Nodup ∧ ∀ a ∈ w.activeRuns, a.1 ∈ (keepActive _ _).map _
  rw [keepActive_ids]
  constructor
  · refine List.nodup_append.mpr ⟨h.readFrom_unique, ?_, fun id hid id' hid' he => ?_⟩
    · exact h.unique.sublist ((List.filter_sublist.trans List.filter_sublist).map _)
    · obtain ⟨j, hj, rfl⟩ := List.mem_map.mp hid'
      have hout : j.id ∉ (w.readFrom host now).jobs.map (·.id) := by simpa using (List.mem_filter.mp hj).2
      exact hout (he ▸ hid)
  · intro a ha
    obtain ⟨job, hjob, hid⟩ := List.mem_map.mp (h.known a ha)
    by_cases hin : a.1 ∈ (w.readFrom host now).jobs.map (·.id)
    · exact List.mem_append_left _ hin
    · refine List.mem_append_right _ (List.mem_map.mpr ⟨job, List.mem_filter.mpr ⟨List.mem_filter.mpr ⟨hjob, ?_⟩, ?_⟩, hid⟩)
      · have hlookup : w.activeRuns.lookup job.id = some a.2 := Assoc.lookup_of_mem h.keys (hid ▸ ha)
        show (w.activeRuns.lookup job.id).isSome = true
        rw [hlookup]
        rfl
      · simpa [hid] using hin

/-- A job with an active run is not read again. -/
theorem keeping_mem {host : Host} {now : Int} (h : Control w) {j : CronJob}
    (hj : j ∈ ((w.readFrom host now).keeping w).jobs) :
    j ∈ w.jobs ∨ j ∈ (w.readFrom host now).jobs ∧ ∀ a ∈ w.activeRuns, a.1 ≠ j.id := by
  rcases List.mem_append.mp hj with hj | hj
  · obtain ⟨j', hj', rfl⟩ := List.mem_map.mp hj
    cases hfind : (w.jobs.filter fun k => (w.activeRun k.id).isSome).find? (·.id = j'.id) with
    | some k => exact .inl (List.mem_filter.mp (List.mem_of_find?_eq_some hfind)).1
    | none =>
      refine .inr ⟨hj', fun a ha he => ?_⟩
      obtain ⟨k, hk, hkid⟩ := List.mem_map.mp (h.known a ha)
      have hrun : (w.activeRun k.id).isSome := by
        rw [Option.isSome_iff_ne_none]
        intro hnone
        exact (activeRun_none w).mp hnone a ha hkid.symm
      have hno := List.find?_eq_none.mp hfind k (List.mem_filter.mpr ⟨hk, hrun⟩)
      exact hno (by simpa using hkid.trans he)
  · exact .inl (List.mem_filter.mp (List.mem_filter.mp hj).1).1

theorem advance (host : Host) (now : Int) (job : CronJob) (h : Control w) (hl : w.loaded = true) :
    ((w.advance host now job).disk.jobs.map (·.id)).Nodup ∧ Control (w.advance host now job) := by
  unfold World.advance
  split
  · next job' _ => exact h.changed_saved [] hl (put_ids w job') (by simp)
  · exact ⟨h.uniqueDisk, h⟩

theorem undetach (h : Control w) (run : Nat) : Control (w.undetach run) where
  __ := h
  held := h.held
  detachedGiven d hd := h.detachedGiven d (List.mem_filter.mp hd).1
  detachedIds := h.detachedIds.sublist (List.filter_sublist.map _)
  unbegun d hd := h.unbegun d (List.mem_filter.mp hd).1

/-- The next id of a run is no task's yet. -/
theorem fresh_owner (h : Control w) : w.fresh ∉ w.owners.map (·.run.runId) := by
  intro hin
  obtain ⟨x, hx, he⟩ := List.mem_map.mp hin
  obtain ⟨r, hr, hid⟩ := h.holds_iff.mp (h.held _ (List.mem_map_of_mem hx))
  have hlt := h.given _ hr
  dsimp only at he hlt
  omega

theorem execute {now : Int} {job : CronJob} {manual inPass : Bool} {pass : Option (List String)} (h : Control w)
    (hl : w.loaded = true) (hrun : w.activeRun job.id = none) (hj : job ∈ w.jobs) :
    Control (w.execute now job manual inPass pass) := by
  have hr := h.reserve now manual hl hrun (List.mem_map_of_mem hj)
  have hp : Control { w.reserve now job.id manual with pass } :=
    { hr with idle := fun hl' => absurd (hl.symm.trans hl') (by simp), held := hr.held }
  refine hp.enter hl (World.reserve_holds hrun) h.fresh_owner fun d hd he => ?_
  have hlt := h.detachedGiven d hd
  dsimp only at he
  omega

/-- A run is reserved, and its task is still to begin. -/
theorem detach (now : Int) {job : CronJob} {key : String} {force manual : Bool} (h : Control w) (hl : w.loaded = true)
    (hrun : w.activeRun job.id = none) (hj : job ∈ w.jobs) : Control (w.detach now job.id key force manual) := by
  have hr := h.reserve now manual hl hrun (List.mem_map_of_mem hj)
  refine { hr with idle := hr.idle, held := hr.held, detachedGiven := fun d hd => ?_, detachedIds := ?_, unbegun := fun d hd => ?_ }
  · rcases List.mem_cons.mp hd with rfl | hd
    · exact Nat.lt_succ_self _
    · exact hr.detachedGiven d hd
  · refine List.nodup_cons.mpr ⟨fun hin => ?_, hr.detachedIds⟩
    obtain ⟨d, hd, he⟩ := List.mem_map.mp hin
    have hlt := h.detachedGiven d hd
    dsimp only at he
    omega
  · rcases List.mem_cons.mp hd with rfl | hd
    · exact h.fresh_owner
    · exact hr.unbegun d hd

theorem fire (host : Host) (now : Int) {job : CronJob} {rest : List String} (h : Control w) (hl : w.loaded = true)
    (hj : w.job? job.id = some job) (hrun : w.activeRun job.id = none) :
    Control ((w.advance host now job).execute now ((advanced host now job).getD job) false true (some rest)) := by
  obtain ⟨-, h'⟩ := h.advance host now job hl
  refine h'.execute ?_ ?_ ?_
  · unfold World.advance
    split <;> exact hl
  · rw [advanced_getD_id]
    show (w.advance host now job).activeRuns.lookup job.id = none
    rw [World.advance_activeRuns]
    exact hrun
  · unfold World.advance
    cases ha : advanced host now job with
    | none => exact World.job?_mem hj
    | some job' =>
      have hid := advanced_id ha
      show job' ∈ w.jobs.map _
      exact List.mem_map.mpr ⟨job, World.job?_mem hj, by simp [hid]⟩

theorem purge {ids : List String} (h : Control w) (hl : w.loaded = true) (hids : ∀ id ∈ ids, w.activeRun id = none) :
    ((w.purge ids).jobs.map (·.id)).Nodup ∧ Control (w.purge ids).saved := by
  have hu : ((w.jobs.filter (·.id ∉ ids)).map (·.id)).Nodup := h.unique.sublist (List.filter_sublist.map _)
  refine ⟨hu, h.quiet (.of hl rfl rfl rfl rfl rfl hu hu (fun a ha => ?_) [] (by simp) rfl)⟩
  obtain ⟨job, hjob, hid⟩ := List.mem_map.mp (h.known a ha)
  refine List.mem_map.mpr ⟨job, List.mem_filter.mpr ⟨hjob, ?_⟩, hid⟩
  by_contra hin
  exact (activeRun_none w).mp (hids job.id (by simpa using hin)) a ha hid.symm

theorem add {host : Host} {now : Int} {n : NewJob} {job : CronJob} (h : Control w) (hl : w.loaded = true)
    (hn : n.job host now = .ok job) (hu : ∀ j ∈ w.jobs, j.id ≠ n.id) :
    ((w.jobs ++ [job]).map (·.id)).Nodup ∧ Control (World.saved { w with jobs := w.jobs ++ [job] }) := by
  have hid : job.id = n.id := (NewJob.job_ok hn).1
  have hu' : ((w.jobs ++ [job]).map (·.id)).Nodup := by
    rw [List.map_append]
    refine List.nodup_append.mpr ⟨h.unique, List.nodup_singleton _, fun id hin id' hin' he => ?_⟩
    obtain ⟨j, hj, rfl⟩ := List.mem_map.mp hin
    exact hu j hj (he.trans ((List.mem_singleton.mp hin').trans hid))
  refine ⟨hu', h.quiet (.of hl rfl rfl rfl rfl rfl hu' hu' (fun a ha => ?_) [] (by simp) rfl)⟩
  show a.1 ∈ (w.jobs ++ [job]).map (·.id)
  rw [List.map_append]
  exact List.mem_append_left _ (h.known a ha)

theorem rules (host : Host) (now : Int) :
    Rules host now (fun _ => True) {} (fun w => (w.disk.jobs.map (·.id)).Nodup) Control where
  keys _ h := ⟨h.keys, h.ids⟩
  idle _ h := h.idle
  unique _ h := h.unique
  known {w a} _ h ha := by
    obtain ⟨job, hjob, hid⟩ := List.mem_map.mp (h.known a ha)
    exact ⟨job, hid ▸ World.job?_of_mem h.unique hjob⟩
  held _ h hx := h.held _ (List.mem_map_of_mem hx)
  stopping b _ h := { h with idle := h.idle, held := h.held }
  load_quiet {w} _ h hl hc := by
    have hruns := (h.idle hl).2.1
    exact h.quiet (.of rfl rfl rfl rfl rfl rfl h.readFrom_unique h.uniqueDisk (by simp [hruns]) [] (by simp) rfl)
  load_saved {w} _ h hl hc := by
    have hruns := (h.idle hl).2.1
    exact ⟨h.readFrom_unique, h.quiet (.of rfl rfl rfl rfl rfl rfl h.readFrom_unique h.readFrom_unique (by simp [hruns]) []
      (by simp) rfl)⟩
  restart {w} _ h hl _ := h.changed_saved _ hl (map_ids (recompute_id host now) w.jobs) (sets_silent fun _ => rfl)
  reread _ h _ _ _ := h.readFrom_unique
  reload {w} _ h hl _ _ := by
    obtain ⟨hu, hk⟩ := h.keeping_ids host now
    have hids : (((w.readFrom host now).keeping w).recomputed host now).jobs.map (·.id) =
        ((w.readFrom host now).keeping w).jobs.map (·.id) := map_ids (recompute_id host now) _
    refine ⟨hids ▸ hu, h.quiet (.of rfl rfl rfl rfl rfl rfl (hids ▸ hu) (hids ▸ hu) (fun a ha => ?_) _ ?_ rfl)⟩
    · exact hids ▸ hk a ha
    · exact sets_silent fun _ => rfl
  edit_kept {w job edit job'} _ h hl _ _ _ := h.changed [] hl (put_ids w job') (by simp)
  edit_stored {w job edit job'} _ h hl _ _ _ := h.changed_saved [] hl (put_ids w job') (by simp)
  edit_set {w job edit job' hand} _ h hl _ _ _ :=
    h.changed_saved [.set job'.id job'.lifecycle job'.state.nextRunAtMs hand] hl (put_ids w job')
      (by simp [Happening.accounts])
  archive {w ids} _ h hl _ := by
    refine h.changed_saved [] hl (map_ids (fun j => ?_) w.jobs) (by simp)
    split <;> rfl
  purge _ h hl hids := ⟨h.uniqueDisk, h.purge hl hids⟩
  add _ h hl _ hn hu _ := h.add hl hn hu
  detach _ h hl _ hj hrun := h.detach now hl hrun hj
  drop {w run} _ h := (h.undetach run).quiet
    { loaded := id, pass := fun _ => rfl, runs := rfl, owners := rfl, detached := rfl, announcing := rfl, fresh := rfl
      unique := h.unique, uniqueDisk := h.uniqueDisk, known := h.known, log := ⟨[.dropped run], by simp [Happening.accounts], rfl⟩ }
  turn_leaves _ h _ _ _ := h.undetach _
  turn_enters {w d job} _ h hl _ hd hh _ _ := by
    refine (h.undetach d.run.runId).enter hl hh (h.unbegun d hd) fun d' hd' => ?_
    simpa using (List.mem_filter.mp hd').2
  turn_ends {w d job} _ h hl _ hd hh hj _ := by
    have h' := h.undetach d.run.runId
    have hu : ((w.put (Ending.final now w.stopping d.run true job (.cancelled job.baseline))).jobs.map (·.id)).Nodup := by
      rw [put_ids]
      exact h.unique
    exact ⟨h.uniqueDisk, h.uniqueDisk, hu, h'.follow hl hh⟩
  execute _ h hl _ hj hrun := h.execute hl hrun hj
  fire _ h hl _ hj _ hrun :=
    ⟨fun _ => (h.advance host now _ hl).1, h.fire host now hl hj hrun⟩
  forward_quiet {w} _ h hl _ := h.changed _ hl (map_ids (forwarded_id host now) w.jobs) (sets_silent fun _ => rfl)
  forward_saved {w} _ h hl := h.changed_saved _ hl (map_ids (forwarded_id host now) w.jobs) (sets_silent fun _ => rfl)
  endPass {w} _ h hl := by
    obtain ⟨hI, h'⟩ := h.changed_saved [] hl (Eq.refl (w.jobs.map (·.id))) (by simp)
    exact ⟨hI, { h' with idle := fun hl' => absurd (hl.symm.trans hl') (by simp), held := h'.held }⟩
  abandonPass _ h := { h with idle := fun hl => ⟨rfl, (h.idle hl).2⟩, held := h.held }
  begin {w x job} _ h hl _ _ _ := h.moved [.called x.run.runId] hl (by simp [Happening.accounts])
  alert _ h hl _ _ _ _ _ _ := h.moved [] hl (by simp)
  ends {w run manual e job follow} _ h hl hj hh _ _ _ := by
    have hu : ((w.put (e.final now w.stopping run manual job)).jobs.map (·.id)).Nodup := by
      rw [put_ids]
      exact h.unique
    exact ⟨h.uniqueDisk, h.uniqueDisk, hu, h.follow hl hh⟩
  spares _ _ _ _ _ := trivial
  delivered _ h := { h with idle := h.idle, held := h.held }
  unannounced _ h :=
    { h with idle := h.idle, held := h.held, announcedIds := h.announcedIds.filter _
             announced := fun r hr => h.announced r (List.mem_filter.mp hr).1 }
  announced {w run} _ h hrun := by
    obtain ⟨h₁, h₂, h₃⟩ := h.announced run hrun
    have h' : Control { w with announcing := w.announcing.filter (· ≠ run) } :=
      { h with idle := h.idle, held := h.held, announcedIds := h.announcedIds.filter _
               announced := fun r hr => h.announced r (List.mem_filter.mp hr).1 }
    exact h'.note_published h₁ h₂ h₃ (by simp)

end Control

/-! ## Reservations -/

/-- Every active run has a task in `_execute_job`, or one that has not begun. -/
structure Attended (w : World) : Prop where
  task : ∀ a ∈ w.activeRuns, a.2.runId ∈ w.owners.map (·.run.runId) ∨ a.2.runId ∈ w.detached.map (·.run.runId) ∨
    .dropped a.2.runId ∈ w.log
  reservation : ∀ d ∈ w.detached, ∀ a ∈ w.activeRuns, a.2.runId = d.run.runId → a.1 = d.run.jobId

namespace Attended

variable {w w' : World}

/-- Nothing that attends a run goes. -/
theorem keep (h : Attended w) (hruns : w'.activeRuns = w.activeRuns) (hdetached : w'.detached = w.detached)
    (howners : ∀ run ∈ w.owners.map (·.run.runId), run ∈ w'.owners.map (·.run.runId))
    (hlog : ∀ x ∈ w.log, x ∈ w'.log) : Attended w' where
  task a ha := by
    rw [hruns] at ha
    rw [hdetached]
    rcases h.task a ha with ho | hd | hl
    · exact .inl (howners _ ho)
    · exact .inr (.inl hd)
    · exact .inr (.inr (hlog _ hl))
  reservation d hd a ha := by
    rw [hdetached] at hd
    rw [hruns] at ha
    exact h.reservation d hd a ha

theorem put (h : Attended w) (job : CronJob) : Attended (w.put job) := h.keep rfl rfl (fun _ => id) fun _ => id

theorem moved {x : Execution} {place : Await} {job : CronJob} (new : List Happening) (h : Attended w) :
    Attended { (w.put job).moveTo x place with log := new ++ w.log } := by
  refine h.keep rfl rfl (fun r hr => ?_) fun _ => List.mem_append_right _
  have hruns := congrArg (List.map Run.runId) (Control.moveTo_runs (w.put job) x place)
  rw [List.map_map, List.map_map] at hruns
  exact hruns ▸ hr

theorem undetach (h : Attended w) (run : Nat) (hrun : ∀ a ∈ w.activeRuns, a.2.runId = run → .dropped run ∈ w'.log)
    (hruns : w'.activeRuns = w.activeRuns) (hdetached : w'.detached = w.detached.filter (·.run.runId ≠ run))
    (howners : w'.owners = w.owners) (hlog : ∀ x ∈ w.log, x ∈ w'.log) : Attended w' where
  task a ha := by
    rw [hruns] at ha
    rw [howners, hdetached]
    rcases h.task a ha with ho | hd | hl
    · exact .inl ho
    · by_cases he : a.2.runId = run
      · exact .inr (.inr (he ▸ hrun a ha he))
      · obtain ⟨d, hd, hde⟩ := List.mem_map.mp hd
        exact .inr (.inl (List.mem_map.mpr ⟨d, List.mem_filter.mpr ⟨hd, by simp [hde, he]⟩, hde⟩))
    · exact .inr (.inr (hlog _ hl))
  reservation d hd a ha := by
    rw [hdetached] at hd
    rw [hruns] at ha
    exact h.reservation d (List.mem_filter.mp hd).1 a ha

/-- A run enters `_execute_job`; its task need not be detached any more. -/
theorem enter {run : Run} {manual inPass : Bool} {base : Baseline}
    (h : ∀ a ∈ w.activeRuns, a.2.runId ≠ run.runId → a.2.runId ∈ w.owners.map (·.run.runId) ∨
      a.2.runId ∈ w.detached.map (·.run.runId) ∨ .dropped a.2.runId ∈ w.log)
    (hres : ∀ d ∈ w.detached, ∀ a ∈ w.activeRuns, a.2.runId = d.run.runId → a.1 = d.run.jobId) :
    Attended (w.enter run manual inPass base) where
  task a ha := by
    obtain ⟨a', ha', rfl⟩ := List.mem_map.mp ha
    have hid : (if a'.2.runId = run.runId then { a'.2 with manual } else a'.2).runId = a'.2.runId := by
      split <;> rfl
    dsimp only
    rw [hid]
    by_cases he : a'.2.runId = run.runId
    · exact .inl (he ▸ List.mem_cons_self)
    · rcases h a' ha' he with ho | hd | hl
      · exact .inl (List.mem_cons_of_mem _ ho)
      · exact .inr (.inl hd)
      · exact .inr (.inr hl)
  reservation d hd a ha := by
    obtain ⟨a', ha', rfl⟩ := List.mem_map.mp ha
    have hid : (if a'.2.runId = run.runId then { a'.2 with manual } else a'.2).runId = a'.2.runId := by
      split <;> rfl
    dsimp only
    rw [hid]
    exact hres d hd a' ha'

theorem execute {now : Int} {job : CronJob} {manual inPass : Bool} {pass : Option (List String)} (h : Attended w)
    (hc : Control w) : Attended (w.execute now job manual inPass pass) := by
  refine enter (fun a ha hne => ?_) fun d hd a ha he => ?_
  · rcases List.mem_append.mp ha with ha | ha
    · rcases h.task a ha with ho | hd | hl
      · exact .inl ho
      · exact .inr (.inl hd)
      · exact .inr (.inr (List.mem_cons_of_mem _ hl))
    · rw [List.mem_singleton.mp ha] at hne
      exact absurd rfl hne
  · rcases List.mem_append.mp ha with ha | ha
    · exact h.reservation d hd a ha he
    · rw [List.mem_singleton.mp ha] at he
      have hlt := hc.detachedGiven d hd
      dsimp only at he
      omega

/-- The runs but that of a task that ends. -/
theorem less {id : Nat} {a : String × Run} (h : Attended w) (ha : a ∈ w.activeRuns) (hne : a.2.runId ≠ id) :
    a.2.runId ∈ w.owners.map (·.run.runId) ∨ a.2.runId ∈ (w.undetach id).detached.map (·.run.runId) ∨ .dropped a.2.runId ∈ w.log := by
  rcases h.task a ha with ho | hdet | hl
  · exact .inl ho
  · obtain ⟨d, hd, he⟩ := List.mem_map.mp hdet
    exact .inr (.inl (List.mem_map.mpr ⟨d, List.mem_filter.mpr ⟨hd, by simp [he, hne]⟩, he⟩))
  · exact .inr (.inr hl)

theorem endRun {now : Int} {run : Run} {manual : Bool} {e : Ending} {job : CronJob} {f : Follow} (hc : Control w)
    (hh : w.holds run) (h : ∀ a ∈ w.activeRuns, a.2.runId ≠ run.runId → a.2.runId ∈ w.owners.map (·.run.runId) ∨
      a.2.runId ∈ w.detached.map (·.run.runId) ∨ .dropped a.2.runId ∈ w.log)
    (hres : ∀ d ∈ w.detached, ∀ a ∈ w.activeRuns, a.2.runId = d.run.runId → a.1 = d.run.jobId) :
    Attended ((w.over now run manual e job).follow run.runId f) := by
  obtain ⟨r, hr, hrid⟩ := hc.holds_iff.mp hh
  have ho : Attended (w.over now run manual e job) := by
    constructor
    · intro a ha
      obtain ⟨hin, hout⟩ := List.mem_filter.mp ha
      have hne : a.2.runId ≠ run.runId := by
        intro he
        have haeq : a = (run.jobId, r) := List.inj_on_of_nodup_map hc.runIds hin hr (he.trans hrid.symm)
        simp [haeq, hrid] at hout
      rcases h a hin hne with how | hd | hl
      · obtain ⟨x, hx, hxe⟩ := List.mem_map.mp how
        exact .inl (List.mem_map.mpr ⟨x, List.mem_filter.mpr ⟨hx, by simp [hxe, hne]⟩, hxe⟩)
      · exact .inr (.inl hd)
      · exact .inr (.inr (List.mem_cons_of_mem _ (List.mem_cons_of_mem _ hl)))
    · intro d hd a ha
      exact hres d hd a (List.mem_filter.mp ha).1
  cases f with
  | nobody => exact ho
  | publish inPass raises => exact ho.keep rfl rfl (fun _ => id) fun x => List.mem_cons_of_mem _
  | announce => exact ho.keep rfl rfl (fun _ => id) fun x => id

/-- A detached task whose reservation stands finds its own job, and may run it. -/
def demands : Demands where
  turn w d := w.holds d.run → ∃ job ∈ w.find d.key, admits d.force job ∧ job.id = d.run.jobId

theorem rules (host : Host) (now : Int) : Rules host now Control demands (fun _ => True) Attended where
  keys g _ := ⟨g.keys, g.ids⟩
  idle g _ := g.idle
  unique g _ := g.unique
  known g _ := (Control.rules host now).known trivial g
  held g _ := (Control.rules host now).held trivial g
  stopping b _ h := h.keep rfl rfl (fun _ => id) fun _ => id
  load_quiet _ h _ _ := h.keep rfl rfl (fun _ => id) fun _ => id
  load_saved _ h _ _ := ⟨trivial, h.keep rfl rfl (fun _ => id) fun _ => id⟩
  restart _ h _ _ := ⟨trivial, h.keep rfl rfl (fun _ => id) fun _ => List.mem_append_right _⟩
  reread _ _ _ _ _ := trivial
  reload _ h _ _ _ := ⟨trivial, h.keep rfl rfl (fun _ => id) fun _ => List.mem_append_right _⟩
  edit_kept {_ _ _ job'} _ h _ _ _ _ := h.put job'
  edit_stored {_ _ _ job'} _ h _ _ _ _ := ⟨trivial, (h.put job').keep rfl rfl (fun _ => id) fun _ => id⟩
  edit_set {_ _ _ job' hand} _ h _ _ _ _ :=
    ⟨trivial, (h.put job').keep rfl rfl (fun _ => id) fun _ => List.mem_cons_of_mem _⟩
  archive _ h _ _ := ⟨trivial, h.keep rfl rfl (fun _ => id) fun _ => id⟩
  purge _ h _ _ := ⟨trivial, trivial, h.keep rfl rfl (fun _ => id) fun _ => id⟩
  add _ h _ _ _ _ _ := ⟨trivial, h.keep rfl rfl (fun _ => id) fun _ => id⟩
  detach {w job key force manual} g h _ _ _ _ := by
    constructor
    · intro a ha
      rcases List.mem_append.mp ha with ha | ha
      · rcases h.task a ha with ho | hd | hl
        · exact .inl ho
        · exact .inr (.inl (List.mem_cons_of_mem _ hd))
        · exact .inr (.inr (List.mem_cons_of_mem _ hl))
      · rw [List.mem_singleton.mp ha]
        exact .inr (.inl List.mem_cons_self)
    · intro d hd a ha he
      rcases List.mem_append.mp ha with ha | ha <;> rcases List.mem_cons.mp hd with rfl | hd
      · have hlt := g.given a ha
        dsimp only at he
        omega
      · exact h.reservation d hd a ha he
      · rw [List.mem_singleton.mp ha]
      · rw [List.mem_singleton.mp ha] at he
        have hlt := g.detachedGiven d hd
        dsimp only at he
        omega
  drop {w run} _ h := h.undetach run (fun _ _ _ => List.mem_cons_self) rfl rfl rfl fun _ => List.mem_cons_of_mem _
  turn_leaves {w d} g h hd hD hno := by
    have hnot : ¬ w.holds d.run := by
      intro hh
      rcases hno with hno | hno
      · exact hno hh
      · obtain ⟨job, hj, ha, hid⟩ := hD hh
        exact hno job hj ha hid.symm
    refine h.undetach d.run.runId (fun a ha he => ?_) rfl rfl rfl fun _ => id
    have hkey := h.reservation d hd a ha he
    refine absurd (g.holds_iff.mpr ⟨a.2, ?_, he⟩) hnot
    rw [← hkey]
    exact ha
  turn_enters {w d job} g h _ _ hd _ _ _ :=
    enter (fun _ ha hne => h.less ha hne) fun d' hd' a ha => h.reservation d' (List.mem_filter.mp hd').1 a ha
  turn_ends {w d job} g h _ _ hd hh _ _ :=
    ⟨trivial, trivial, trivial, endRun (g.undetach _) hh (fun _ ha hne => h.less ha hne) fun d' hd' a ha =>
      h.reservation d' (List.mem_filter.mp hd').1 a ha⟩
  execute g h _ _ _ _ := h.execute g
  fire {w job rest} g h hl _ _ _ _ := by
    refine ⟨fun _ => trivial, Attended.execute ?_ (g.advance host now job hl).2⟩
    unfold World.advance
    split
    · next job' _ => exact (h.put job').keep rfl rfl (fun _ => id) fun _ => id
    · exact h
  forward_quiet _ h _ _ := h.keep rfl rfl (fun _ => id) fun _ => List.mem_append_right _
  forward_saved _ h _ := ⟨trivial, h.keep rfl rfl (fun _ => id) fun _ => List.mem_append_right _⟩
  endPass _ h _ := ⟨trivial, h.keep rfl rfl (fun _ => id) fun _ => id⟩
  abandonPass _ h := h.keep rfl rfl (fun _ => id) fun _ => id
  begin {_ x _} _ h _ _ _ _ := h.moved [.called x.run.runId]
  alert _ h _ _ _ _ _ _ _ := h.moved []
  ends g h _ _ hh _ _ _ := ⟨trivial, trivial, trivial, endRun g hh (fun a ha _ => h.task a ha) h.reservation⟩
  spares _ _ _ _ h := h
  delivered _ h := h.keep rfl rfl (fun _ => id) fun _ => id
  unannounced _ h := h.keep rfl rfl (fun _ => id) fun _ => id
  announced _ h _ := h.keep rfl rfl (fun _ => id) fun _ => List.mem_cons_of_mem _

end Attended

/-! ## Shutdown -/

theorem retireReservations_persists {now : Int} : ∀ (runs : List Run) {w : World}, (runs.map (·.jobId)).Nodup →
    (∀ run ∈ runs, w.waits run) → Safe (fun _ => True) (retireReservations now runs) w fun _ w' =>
      (∀ run ∈ runs, run.runId ∈ persistedRuns w'.log) ∧ ∀ run ∈ persistedRuns w.log, run ∈ persistedRuns w'.log := by
  intro runs
  induction runs with
  | nil => intro w _ _; exact .pure ⟨fun _ hrun => by (cases hrun), fun _ => id⟩
  | cons run rest ih =>
    intro w hnd hall
    obtain ⟨hother, hnd'⟩ := List.nodup_cons.mp hnd
    obtain ⟨hh, ho, job, hj⟩ := hall run List.mem_cons_self
    refine .bind (.read_bind ?_)
    rw [hj]
    refine .bind (.read_bind (safe_persist (e := .cancelled job.baseline) trivial trivial trivial (.modify ?_)))
    refine .mono (ih hnd' fun run' hrun' => ?_) fun _ w' hw' => ⟨fun run' hrun' => ?_, fun run' hrun' => ?_⟩
    · have hne : run'.jobId ≠ run.jobId := fun he => hother (List.mem_map.mpr ⟨run', hrun', he⟩)
      exact World.over_waits hj hne (hall run' (List.mem_cons_of_mem _ hrun'))
    · rcases List.mem_cons.mp hrun' with rfl | hrun'
      · exact hw'.2 _ List.mem_cons_self
      · exact hw'.1 run' hrun'
    · exact hw'.2 run' (List.mem_cons_of_mem _ hrun')

theorem Control.unowned_waits {w : World} (h : Control w) :
    (w.unowned.map (·.jobId)).Nodup ∧ ∀ run ∈ w.unowned, w.waits run := by
  constructor
  · have hmap : (w.activeRuns.map (·.2)).map (·.jobId) = w.activeRuns.map (·.1) := by
      rw [List.map_map]
      exact List.map_congr_left h.ids
    have hsub : (w.unowned.map (·.jobId)).Sublist (w.activeRuns.map (·.1)) := hmap ▸ List.filter_sublist.map _
    exact h.keys.sublist hsub
  · intro run hrun
    obtain ⟨hin, howner⟩ := List.mem_filter.mp hrun
    obtain ⟨a, ha, rfl⟩ := List.mem_map.mp hin
    have hid := h.ids a ha
    obtain ⟨job, hjob, hjid⟩ := List.mem_map.mp (h.known a ha)
    refine ⟨h.holds_iff.mpr ⟨a.2, hid ▸ ha, rfl⟩, by simpa using howner, job, ?_⟩
    rw [hid, ← hjid]
    exact World.job?_of_mem h.unique hjob

/-! ## Every run of the service -/

theorem Ordered.nodup {log : List Happening} (h : Ordered log) : (persistedRuns log).Nodup := by
  induction log with
  | nil => exact List.nodup_nil
  | cons x log ih =>
    cases x with
    | persisted run job => exact List.nodup_cons.mpr ⟨h.1, ih h.2⟩
    | _ => exact ih h.tail

theorem Ordered.split {before : List Happening} {run : Nat} : ∀ {after : List Happening},
    Ordered (after ++ .published run :: before) → run ∈ persistedRuns before ∧ .retired run ∈ before ∧ .published run ∉ before := by
  intro after
  induction after with
  | nil => intro h; exact ⟨h.1, h.2.1, h.2.2.1⟩
  | cons x after ih => intro h; exact ih h.tail

/-- A detached task whose reservation stands finds its own job at its first turn, and may run it. -/
def World.findsItsJob (w : World) (e : Event) : Prop :=
  match e.op with
  | .turn run => ∀ d ∈ w.detached.find? (·.run.runId = run), w.holds d.run →
      ∃ job ∈ w.find d.key, admits d.force job ∧ job.id = d.run.jobId
  | _ => True

instance (w : World) (e : Event) : Decidable (w.findsItsJob e) := by
  obtain ⟨now, op⟩ := e
  cases op <;> dsimp only [World.findsItsJob] <;> infer_instance

theorem control_init : Control {} where
  idle _ := ⟨rfl, rfl, rfl⟩
  keys := List.nodup_nil
  ids _ h := by cases h
  runIds := List.nodup_nil
  given _ h := by cases h
  known _ h := by cases h
  unique := List.nodup_nil
  uniqueDisk := List.nodup_nil
  held _ h := by cases h
  ownerIds := List.nodup_nil
  detachedGiven _ h := by cases h
  detachedIds := List.nodup_nil
  unbegun _ h := by cases h
  ordered := trivial
  persistedGiven _ h := by cases h
  unsettled _ h := by cases h
  accounted _ _ h := by cases h
  announcedIds := List.nodup_nil
  announced _ h := by cases h

theorem Control.at_ {w : World} (h : Control w) (now : Int) : Control (w.at_ now) := { h with idle := h.idle, held := h.held }

theorem control_reboot {w : World} (h : (w.disk.jobs.map (·.id)).Nodup) : Control w.reboot where
  __ := control_init
  held := control_init.held
  uniqueDisk := h
  given _ ha := by cases ha
  detachedGiven _ hd := by cases hd
  persistedGiven _ hr := by cases hr

/-- In a loaded service there is nothing to load; in another one there are no runs. -/
theorem Control.ready_holds {host : Host} {now : Int} {w : World} {run : Run} (h : Control w)
    (hh : (w.ready host now).holds run) : w.ready host now = w := by
  by_cases hl : w.loaded = true
  · exact if_pos hl
  · have hlookup : (w.ready host now).activeRun run.jobId = none := by
      show (w.ready host now).activeRuns.lookup run.jobId = none
      rw [World.ready_activeRuns, (h.idle (by simpa using hl)).2.1]
      rfl
    unfold World.holds at hh
    rw [hlookup] at hh
    cases hh

/-- What is asked of the endings of an event, and of nothing else but starts. -/
theorem Control.meets {host : Host} {D : Demands} {w : World} {e : Event} (hc : Control w) (hfits : w.fits e)
    (hstart : e.op = .start → D.start (World.ready host e.now { w.at_ e.now with stopping := false }))
    (hreload : e.op = .reload → D.reread ((w.at_ e.now).ready host e.now) ∧
      D.start ((((w.at_ e.now).ready host e.now).readFrom host e.now).keeping ((w.at_ e.now).ready host e.now)))
    (hadd : ∀ n, e.op = .add n → D.add n)
    (hend : ∀ x ∈ w.endings e.now e.op, ∀ stopping,
      D.ending { w.at_ e.now with stopping } x.1 x.2.1 x.2.2)
    (halert : ∀ run o, e.op = .resume run o → ∀ xj ∈ w.execution run, xj.1.place = .running →
      World.endingOf e.now xj.1 xj.2 o = none → D.alert (w.at_ e.now) xj.1.run)
    (hturn : ∀ w d, D.turn w d) : D.meets host e.now (w.at_ e.now) e.op := by
  cases hop : e.op with
  | start => exact hstart hop
  | reload => exact hreload hop
  | add n =>
    have := hfits.2
    rw [hop] at this
    exact ⟨this, hadd n hop⟩
  | resume run o =>
    rw [hop] at hend
    intro x job hx
    refine ⟨fun ending he => ?_, fun hp hnone => halert run o hop (x, job) hx hp hnone⟩
    refine hend (x.run, x.manual, ending) (Option.mem_toList.mpr ?_) w.stopping
    exact Option.mem_bind_iff.mpr ⟨(x, job), hx, Option.mem_map.mpr ⟨ending, he, rfl⟩⟩
  | cancel run =>
    rw [hop] at hend
    intro x job hx
    exact hend (x.run, x.manual, .cancelled x.base) (Option.mem_toList.mpr (Option.mem_map.mpr ⟨(x, job), hx, rfl⟩)) w.stopping
  | shutdown =>
    rw [hop] at hend
    intro run hrun job hj
    exact hend (run, run.manual, .cancelled job.baseline) (List.mem_filterMap.mpr ⟨run, hrun, Option.mem_map.mpr ⟨job, hj, rfl⟩⟩) true
  | turn run =>
    rw [hop] at hend
    intro d hd
    refine ⟨hturn _ d, fun hstop hh job hj => ?_⟩
    have hready : (w.at_ e.now).ready host e.now = w.at_ e.now := (hc.at_ e.now).ready_holds hh
    rw [hready] at hj ⊢
    have hstop' : w.stopping = true := hstop
    refine hend (d.run, true, .cancelled job.baseline) ?_ w.stopping
    show _ ∈ if w.stopping = true then _ else _
    rw [if_pos hstop']
    exact Option.mem_toList.mpr (Option.mem_bind_iff.mpr ⟨d, hd, Option.mem_map.mpr ⟨job, hj, rfl⟩⟩)
  | _ => trivial

theorem Attended.meets {host : Host} {w : World} {e : Event} (hc : Control w) (hfits : w.fits e) (hfinds : w.findsItsJob e) :
    Attended.demands.meets host e.now (w.at_ e.now) e.op := by
  cases hop : e.op with
  | turn run =>
    intro d hd
    refine ⟨fun hh => ?_, fun _ _ _ _ => trivial⟩
    have hready : (w.at_ e.now).ready host e.now = w.at_ e.now := (hc.at_ e.now).ready_holds hh
    rw [hready] at hh ⊢
    unfold World.findsItsJob at hfinds
    rw [hop] at hfinds
    exact hfinds d hd hh
  | add n =>
    have := hfits.2
    rw [hop] at this
    exact ⟨this, trivial⟩
  | resume run o => exact fun _ _ _ => ⟨fun _ _ => trivial, fun _ _ => trivial⟩
  | shutdown => exact fun _ _ _ _ => trivial
  | cancel run => exact fun _ _ _ => trivial
  | _ => trivial

theorem attended_reach {host : Host} {w : World}
    (h : Reach (step host) (fun w e => w.fits e ∧ w.findsItsJob e) {} w) : Control w ∧ Attended w := by
  have hnobody : ∀ {w : World}, w.activeRuns = [] → w.detached = [] → Attended w := by
    intro w hruns hdetached
    refine ⟨fun a ha => ?_, fun d hd => ?_⟩
    · rw [hruns] at ha
      cases ha
    · rw [hdetached] at hd
      cases hd
  refine Rules.reach (I := fun _ w => (w.disk.jobs.map (·.id)).Nodup ∧ True) (J := fun _ w => Control w ∧ Attended w)
    (fun now => (Control.rules host now).under (Attended.rules host now)) ⟨control_init, hnobody rfl rfl⟩ ?_ id ?_ ?_ ?_ h
  · intro w e hw _
    exact ⟨hw.1.at_ e.now, hw.2.keep rfl rfl (fun _ => id) fun _ => id⟩
  · intro w _ hw
    exact ⟨hw.1.uniqueDisk, trivial⟩
  · intro w _ hw
    exact ⟨control_reboot hw.1, hnobody rfl rfl⟩
  · intro w e hw he
    exact Attended.meets hw.1 he.1 he.2

/-- One call of `on_job` a job is in flight at most. -/
theorem Control.one_call {w : World} (h : Control w) (jobId : String) :
    (w.owners.filter fun x => x.place = .running ∧ x.run.jobId = jobId).length ≤ 1 := by
  have hsame : ∀ x ∈ w.owners, ∀ y ∈ w.owners, x.run.jobId = jobId → y.run.jobId = jobId → x = y := by
    intro x hx y hy hxj hyj
    have hx' := h.held _ (List.mem_map_of_mem hx)
    have hy' := h.held _ (List.mem_map_of_mem hy)
    unfold World.holds at hx' hy'
    rw [hxj] at hx'
    rw [hyj] at hy'
    exact List.inj_on_of_nodup_map h.ownerIds hx hy (Option.some.inj (hx'.symm.trans hy'))
  have hnd : (w.owners.filter fun x => x.place = .running ∧ x.run.jobId = jobId).Nodup :=
    (List.Nodup.of_map _ h.ownerIds).filter _
  match hl : w.owners.filter fun x => x.place = .running ∧ x.run.jobId = jobId with
  | [] => rw [hl]; exact Nat.zero_le 1
  | [x] => rw [hl]; exact Nat.le_refl 1
  | x :: y :: rest =>
    rw [hl] at hnd
    have hx := List.mem_filter.mp (hl ▸ List.mem_cons_self : x ∈ w.owners.filter _)
    have hy := List.mem_filter.mp (hl ▸ List.mem_cons_of_mem _ List.mem_cons_self : y ∈ w.owners.filter _)
    have hxj : x.run.jobId = jobId := by simpa using (by simpa using hx.2 : _ ∧ _).2
    have hyj : y.run.jobId = jobId := by simpa using (by simpa using hy.2 : _ ∧ _).2
    have he := hsame x hx.1 y hy.1 hxj hyj
    rw [he] at hnd
    exact absurd List.mem_cons_self (List.nodup_cons.mp hnd).1

/-- What `shutdown` finds without a task is on disk after it. -/
theorem Control.shutdown_persists {host : Host} {w : World} (h : Control w) (now : Int) {run : Run} (hrun : run ∈ w.unowned) :
    (persistedRuns (step host w ⟨now, .shutdown, none⟩).log).count run.runId = 1 := by
  obtain ⟨hnd, hwaits⟩ := h.unowned_waits
  have hper : Safe (fun _ => True) (shutdown now) (w.at_ now) fun _ w' => ∀ run ∈ w.unowned, run.runId ∈ persistedRuns w'.log :=
    .modify_bind (.read_bind (.mono (retireReservations_persists w.unowned hnd hwaits) fun _ _ h' => h'.1))
  have hmeets : ({} : Demands).meets host now (w.at_ now) .shutdown := fun _ _ _ _ => trivial
  have hc := ((Control.rules host now).perform (h.at_ now) hmeets).returns
  exact List.count_eq_one_of_mem hc.ordered.nodup (hper.returns run hrun)

/-- Where the account of a reserved run stands: it is on disk, once; or a task is at it; or
its task has not had its first turn. -/
def World.settled (w : World) (run : Nat) : Prop :=
  (persistedRuns w.log).count run = 1 ∨ run ∈ w.owners.map (·.run.runId) ∨ run ∈ w.detached.map (·.run.runId) ∨
    .dropped run ∈ w.log

instance (w : World) (run : Nat) : Decidable (w.settled run) := by unfold World.settled; infer_instance

theorem every_reservation_is_settled {host : Host} {w : World}
    (h : Reach (step host) (fun w e => w.fits e ∧ w.findsItsJob e) {} w) :
    (∀ jobId, (w.owners.filter fun x => x.place = .running ∧ x.run.jobId = jobId).length ≤ 1) ∧
      (∀ jobId run, .reserved jobId run ∈ w.log → w.settled run) ∧
      (∀ now, ∀ run ∈ w.unowned,
        (persistedRuns (step host w ⟨now, .shutdown, none⟩).log).count run.runId = 1) ∧
      (∀ run, (persistedRuns w.log).count run ≤ 1) ∧
      ∀ after before run, w.log = after ++ .published run :: before →
        run ∈ persistedRuns before ∧ .retired run ∈ before ∧ .published run ∉ before ∧
          run ∉ w.activeRuns.map (·.2.runId) := by
  obtain ⟨hc, ha⟩ := attended_reach h
  refine ⟨hc.one_call, fun jobId run hres => ?_, fun now run hrun => ?_, fun run => ?_, fun after before run hlog => ?_⟩
  · rcases hc.accounted jobId run hres with hact | hper
    · obtain ⟨a, hin, rfl⟩ := List.mem_map.mp hact
      exact .inr (ha.task a hin)
    · exact .inl (List.count_eq_one_of_mem hc.ordered.nodup hper)
  · exact hc.shutdown_persists now hrun
  · exact List.nodup_iff_count_le_one.mp hc.ordered.nodup run
  · obtain ⟨h₁, h₂, h₃⟩ := Ordered.split (hlog ▸ hc.ordered)
    refine ⟨h₁, h₂, h₃, fun hact => ?_⟩
    obtain ⟨a, hin, rfl⟩ := List.mem_map.mp hact
    exact hc.unsettled a hin (hc.ordered.persisted_of_published (by simp [hlog]))

/-- Also where a reservation is stranded: one call of `on_job` a job, and no result of a run on disk twice. -/
theorem executions_apart {host : Host} {w : World} (h : Reach (step host) World.fits {} w) :
    (∀ jobId, (w.owners.filter fun x => x.place = .running ∧ x.run.jobId = jobId).length ≤ 1) ∧
      (∀ run, (persistedRuns w.log).count run ≤ 1) ∧
      ∀ after before run, w.log = after ++ .published run :: before →
        run ∈ persistedRuns before ∧ .retired run ∈ before ∧ .published run ∉ before := by
  have hc : Control w := Rules.reach (Control.rules host) control_init (fun hw _ => hw.at_ _) id Control.uniqueDisk control_reboot
    (fun {w e} _ he => ?_) h
  · refine ⟨hc.one_call, fun run => List.nodup_iff_count_le_one.mp hc.ordered.nodup run, fun after before run hlog => ?_⟩
    exact Ordered.split (hlog ▸ hc.ordered)
  obtain ⟨now, op⟩ := e
  cases op with
  | add n => exact ⟨he.2, trivial⟩
  | turn => exact fun _ _ => ⟨trivial, fun _ _ _ _ => trivial⟩
  | resume => exact fun _ _ _ => ⟨fun _ _ => trivial, fun _ _ => trivial⟩
  | shutdown => exact fun _ _ _ _ => trivial
  | cancel => exact fun _ _ _ => trivial
  | _ => trivial

namespace Sample

/-- A reservation of a job that may run, a pause, and the task's first turn. -/
def strands : List Event :=
  [⟨1000, .start, none⟩, ⟨1000, .add hourly, none⟩, ⟨2000, .reserve "a" "a" false true, none⟩,
   ⟨2000, .enable "a" false, none⟩, ⟨2000, .turn 0, none⟩]

/-- The task of run 0 had its turn and is gone; the run is active, without a task and without a result. -/
theorem a_pause_strands_the_reservation :
    ¬ ∀ w, Reach (step host) World.fits {} w → ∀ jobId run, .reserved jobId run ∈ w.log → w.settled run := by
  intro hall
  have hreach : Reach (step host) World.fits {} (after host strands) := reach_after (by decide)
  have hreserved : .reserved "a" 0 ∈ (after host strands).log := by decide
  have hstranded : ¬ (after host strands).settled 0 := by decide
  exact hstranded (hall _ hreach "a" 0 hreserved)

/-- A reservation that is taken up, and a shutdown while `on_job` is at it. -/
def takenUp : List Event :=
  [⟨1000, .start, none⟩, ⟨1000, .add hourly, none⟩, ⟨2000, .reserve "a" "a" false true, none⟩, ⟨2000, .turn 0, none⟩,
   ⟨2000, .resume 0 (.returned none), none⟩, ⟨3000, .shutdown, none⟩, ⟨3000, .cancel 0, none⟩]

theorem taken_up_is_settled : (after host takenUp).settled 0 :=
  (every_reservation_is_settled (w := after host takenUp) (reach_after (by decide))).2.1 "a" 0
    (by decide)

/-- The first run is through and its completion is published; the second is in its call of `on_job`. -/
def again : List Event :=
  [⟨1000, .start, none⟩, ⟨1000, .add hourly, none⟩, ⟨2000, .reserve "a" "a" false true, none⟩, ⟨2000, .turn 0, none⟩,
   ⟨2000, .resume 0 (.returned none), none⟩, ⟨3000, .resume 0 (.returned none), none⟩, ⟨4000, .reserve "a" "a" false true, none⟩,
   ⟨4000, .turn 1, none⟩, ⟨4000, .resume 1 (.returned none), none⟩]

theorem executions_apart_again :
    ((after host again).owners.filter fun x => x.place = .running ∧ x.run.jobId = "a").length = 1 ∧
      (∀ run, (persistedRuns (after host again).log).count run ≤ 1) ∧
      ∃ newer before, (after host again).log = newer ++ .published 0 :: before ∧
        0 ∈ persistedRuns before ∧ .retired 0 ∈ before ∧ .published 0 ∉ before := by
  have hreach : Reach (step host) World.fits {} (after host again) := reach_after (by decide)
  obtain ⟨hcalls, hruns, hpublished⟩ := executions_apart hreach
  have hone : 1 ≤ ((after host again).owners.filter fun x => x.place = .running ∧ x.run.jobId = "a").length := by decide
  obtain ⟨newer, before, hlog⟩ := List.append_of_mem (by decide : Happening.published 0 ∈ (after host again).log)
  exact ⟨Nat.le_antisymm (hcalls "a") hone, hruns, newer, before, hlog, hpublished newer before 0 hlog⟩

end Sample

end Flowly.Cron
