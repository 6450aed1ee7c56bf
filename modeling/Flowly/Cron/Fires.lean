/-
  Flowly.Cron.Fires — the due times of recurring jobs, over restarts and reloads.

  Three places set the due time of a scheduled `every` or `cron` job from the clock: a
  start or a reload (`_recompute_next_runs`), the grace window of a pass, and the advance
  before a run. A job should be moved to a later time only when a pass takes it up, when a
  call sets its schedule, or when it is late by more than its grace (`World.DueStands`).

  The grace window keeps to this and so does the advance. A start or a reload does not: it
  looks at the clock and not at the due time, so a job that is due within its grace, and
  an interval that has not run out, are sent on (`a_reload_postpones_a_fire`). A retry may
  also come after the next due time. In every run of the service without such an event
  each step leaves the due times standing, and each pass takes up what is due
  (`due_times_stand`).
-/

import Flowly.Cron.Recovery

namespace Flowly.Cron

open Flowly.Lib Flowly.Lib.Durable

/-! ## Due times -/

def CronJob.dueTime (j : CronJob) : Option Int :=
  if j.lifecycle = .scheduled ∧ j.schedule.kind ≠ .at_ then j.state.nextRunAtMs else none

/-- Past `n` by more than the grace of the job. -/
def CronJob.late (host : Host) (now n : Int) (j : CronJob) : Prop := computeGraceMs host j.schedule now < now - n

instance (host : Host) (now n : Int) (j : CronJob) : Decidable (j.late host now n) := by
  unfold CronJob.late; infer_instance

instance (j : CronJob) : Decidable j.inBackoff := by unfold CronJob.inBackoff; infer_instance

def Happening.isCall (id : String) : Happening → Bool
  | .set id' _ _ hand => decide (id' = id ∧ hand ≠ .scheduler)
  | _ => false

def Ending.isRetry : Ending → Bool
  | .retried _ => true
  | _ => false

namespace World

variable (host : Host)

def listed (w : World) : List CronJob := if w.loaded then w.jobs else w.disk.jobs

/-- Since `w`, a pass has begun a run of the job for its due time `n`. -/
def takenUp (w w' : World) (now : Int) (id : String) (n : Int) : Prop :=
  n ≤ now ∧ ∃ x ∈ w'.owners, x.run.jobId = id ∧ x.inPass = true ∧ w.fresh ≤ x.run.runId

instance (w w' : World) (now : Int) (id : String) (n : Int) : Decidable (w.takenUp w' now id n) := by
  unfold takenUp; infer_instance

/-- Since `w`, a call has set the schedule of the job. -/
def called (w w' : World) (id : String) : Prop :=
  ∃ x ∈ w'.log.take (w'.log.length - w.log.length), Happening.isCall id x = true

instance (w w' : World) (id : String) : Decidable (w.called w' id) := by unfold called; infer_instance

def afterEvent (w : World) (e : Event) : World :=
  match e.dies with
  | none => (perform host e.now e.op (w.at_ e.now)).store
  | some k => (perform host e.now e.op).left (w.at_ e.now) k

/-- No due time is moved to a later one without a reason, and a pass takes up what is due. -/
structure DueStands (w : World) (e : Event) : Prop where
  moved : ∀ j ∈ w.listed, ∀ j' ∈ (step host w e).listed, j'.id = j.id → ∀ n ∈ j.dueTime, ∀ n' ∈ j'.dueTime, n < n' →
    j.late host e.now n ∨ w.takenUp (w.afterEvent host e) e.now j.id n ∨ w.called (w.afterEvent host e) j.id
  fires : e.op = .pass → e.dies = none → w.loaded = true → w.stopping = false → w.pass = none → ∀ j ∈ w.jobs,
    j.due e.now → w.activeRun j.id = none → ∀ n ∈ j.dueTime, ¬ j.late host e.now n →
    w.takenUp (step host w e) e.now j.id n ∨ ∃ rest, (step host w e).pass = some rest ∧ j.id ∈ rest

/-! ## Events that leave them -/

def recomputes (w : World) (now : Int) : Op → List CronJob
  | .start => (w.ready host now).jobs
  | .reload => (((w.ready host now).readFrom host now).keeping (w.ready host now)).jobs
  | _ => []

/-- The jobs as an operation finds or reads them. -/
def reads (w : World) (now : Int) : Op → List CronJob
  | .reload => (w.ready host now).jobs ++ ((w.ready host now).readFrom host now).jobs
  | _ => (w.ready host now).jobs

/-- The event does not postpone the job from `n` by itself. -/
def spares (w : World) (e : Event) (j : CronJob) (n : Int) : Prop :=
  -- no record of a run is replayed over another due time
  (∀ j' ∈ w.reads host e.now e.op, j'.id = j.id → j'.schedule = j.schedule ∧ ∀ n' ∈ j'.dueTime, n' = n) ∧
  -- a start or a reload finds the job in backoff, or computes no later time
  (∀ j' ∈ w.recomputes host e.now e.op, j'.id = j.id → j'.lifecycle = .scheduled →
    j'.inBackoff ∨ ∀ n' ∈ computeNextRun host j'.schedule e.now, n' ≤ n) ∧
  -- a retry does not come after the due time
  (∀ x ∈ w.endings e.now e.op, x.1.jobId = j.id → x.2.2.isRetry = true → 0 < j.backoffMs ∧ e.now + j.backoffMs ≤ n) ∧
  -- the process does not die between two writes while the job is due
  ((∀ k ∈ e.dies, k = 0) ∨ e.now < n)

instance (w : World) (e : Event) (j : CronJob) (n : Int) : Decidable (w.spares host e j n) := by
  unfold spares; infer_instance

/-- The event spares every recurring job that is not late by more than its grace. -/
def sparing (w : World) (e : Event) : Prop :=
  ∀ j ∈ w.listed, ∀ n ∈ j.dueTime, j.late host e.now n ∨ w.spares host e j n

instance (w : World) (e : Event) : Decidable (w.sparing host e) := by unfold sparing; infer_instance

end World

/-! ## What each operation makes of a due time -/

section

variable {host : Host} {now : Int} {j j' : CronJob} {n : Int}

theorem CronJob.dueTime_eq (h : n ∈ j.dueTime) :
    j.lifecycle = .scheduled ∧ j.schedule.kind ≠ .at_ ∧ j.state.nextRunAtMs = some n := by
  unfold CronJob.dueTime at h
  split at h
  · next hs => exact ⟨hs.1, hs.2, h⟩
  · cases h

structure CronJob.NoLater (j j' : CronJob) : Prop where
  id : j'.id = j.id
  schedule : j'.schedule = j.schedule
  due : ∀ n ∈ j'.dueTime, n ∈ j.dueTime

namespace CronJob.NoLater

theorem refl (j : CronJob) : j.NoLater j := ⟨rfl, rfl, fun _ h => h⟩

theorem of_same (hid : j'.id = j.id) (hs : j'.schedule = j.schedule) (hl : j'.lifecycle = j.lifecycle)
    (hn : j'.state.nextRunAtMs = j.state.nextRunAtMs) : j.NoLater j' := by
  refine ⟨hid, hs, fun n h => ?_⟩
  unfold CronJob.dueTime at h ⊢
  rw [hl, hs, hn] at h
  exact h

/-- Its schedule is over, or waits for a call. -/
theorem of_over (hid : j'.id = j.id) (hs : j'.schedule = j.schedule) (hl : j'.lifecycle ≠ .scheduled) : j.NoLater j' :=
  ⟨hid, hs, fun _ h => absurd (dueTime_eq h).1 hl⟩

theorem trans {j'' : CronJob} (h : j.NoLater j') (h' : j'.NoLater j'') : j.NoLater j'' :=
  ⟨h'.id.trans h.id, h'.schedule.trans h.schedule, fun n hn => h.due n (h'.due n hn)⟩

theorem read (j : CronJob) : j.NoLater j.read := by
  refine ⟨rfl, rfl, fun n h => ?_⟩
  obtain ⟨hl, hk, hn⟩ := dueTime_eq h
  have hnext : (if _ then j.schedule.atMs else j.state.nextRunAtMs) = some n := hn
  rw [if_neg (fun hover => hk hover.2.1)] at hnext
  unfold CronJob.dueTime
  rw [if_pos ⟨hl, hk⟩]
  exact hnext

theorem count (j : CronJob) (fires : Nat) (t : Int) : j.NoLater (j.count fires t) := by
  unfold CronJob.count
  dsimp only
  split
  · exact of_over rfl rfl (by simp)
  · exact of_same rfl rfl rfl rfl

/-- A run ends without a retry. -/
theorem final {stopping manual : Bool} {run : Run} {e : Ending} (he : e.isRetry = false) :
    j.NoLater (e.final now stopping run manual j) := by
  cases e with
  | retried o => cases he
  | ended o =>
    have hran : j.NoLater (if o.failed then (j.ran (.uuid run.runId) run.startedAtMs now o).fail
        else (j.ran (.uuid run.runId) run.startedAtMs now o).succeed) := by
      split <;> exact of_same rfl rfl rfl rfl
    unfold Ending.final
    dsimp only
    cases manual with
    | true => exact hran
    | false => exact hran.trans (count _ _ _)
  | alerted completedAtMs =>
    unfold Ending.final
    cases manual with
    | true => exact .refl j
    | false => exact count _ _ _
  | cancelled base =>
    have hint : j.NoLater (j.interrupted (.uuid run.runId) run.startedAtMs now stopping manual base) := of_same rfl rfl rfl rfl
    unfold Ending.final CronJob.cancelled
    dsimp only
    cases manual with
    | true => exact hint
    | false => exact hint.trans (count _ _ _)

end CronJob.NoLater

theorem UserEdit.noLater {edit : CronJob → Edit} (he : UserEdit host now edit)
    (h : edit j = .kept j' ∨ (∃ m, edit j = .refused j' m) ∨ edit j = .stored j') : j.NoLater j' := by
  have hs := he.leaves h
  exact .of_same hs.id hs.schedule hs.lifecycle hs.next

theorem CronJob.recompute_schedule (host : Host) (now : Int) (j : CronJob) : (j.recompute host now).schedule = j.schedule := by
  unfold CronJob.recompute
  repeat' split
  all_goals rfl

/-- What a start or a reload makes of a due time. -/
theorem CronJob.recompute_dueTime (h : n ∈ (j.recompute host now).dueTime) :
    j.lifecycle = .scheduled ∧ (n ∈ j.dueTime ∨ ¬ j.inBackoff ∧ computeNextRun host j.schedule now = some n) := by
  obtain ⟨hl, hk, hn⟩ := CronJob.dueTime_eq h
  rw [CronJob.recompute_schedule] at hk
  unfold CronJob.recompute at h hl hn
  by_cases hoff : j.lifecycle ≠ .scheduled ∨ j.enabled = false
  · rw [if_pos hoff] at hn
    cases hn
  rw [if_neg hoff] at h hl hn
  have hsched : j.lifecycle = .scheduled := not_not.mp (not_or.mp hoff).1
  refine ⟨hsched, ?_⟩
  by_cases hback : 0 < j.state.retryAttempt ∧ j.state.nextRunAtMs ≠ none
  · rw [if_pos hback] at h
    exact .inl h
  rw [if_neg hback, if_neg hk] at hl hn
  by_cases hcron : j.schedule.kind = .cron ∧ computeNextRun host j.schedule now = none
  · rw [if_pos hcron] at hl
    cases hl
  · rw [if_neg hcron] at hn
    exact .inr ⟨fun hb => hback hb.2, hn⟩

end

/-! ## Due times during an event -/

/-- In `w`, which the event in `w₀` has led to, the job is due when it was, or something has happened to it. -/
def Keeps (host : Host) (now : Int) (w₀ w : World) (j : CronJob) : Prop :=
  ∀ j₀ ∈ w₀.listed, j₀.id = j.id → ∀ n ∈ j₀.dueTime,
    j₀.late host now n ∨ w₀.takenUp w now j.id n ∨ w₀.called w j.id ∨
      j.schedule = j₀.schedule ∧ ∀ n' ∈ j.dueTime, n' = n ∨ now < n' ∧ n' ≤ n

structure Later (w₀ w w' : World) : Prop where
  log : w.log <:+ w'.log
  fresh : w.fresh ≤ w'.fresh
  owners : ∀ x ∈ w.owners, w₀.fresh ≤ x.run.runId →
    ∃ x' ∈ w'.owners, x'.run.jobId = x.run.jobId ∧ x'.inPass = x.inPass ∧ x'.run.runId = x.run.runId

section

variable {host : Host} {now : Int} {w₀ w w' : World} {j j' : CronJob}

theorem Later.of (hlog : w.log <:+ w'.log) (hfresh : w.fresh ≤ w'.fresh) (howners : ∀ x ∈ w.owners, x ∈ w'.owners) :
    Later w₀ w w' := ⟨hlog, hfresh, fun x hx _ => ⟨x, howners x hx, rfl, rfl, rfl⟩⟩

theorem Later.same (hlog : w'.log = w.log) (hfresh : w'.fresh = w.fresh) (howners : w'.owners = w.owners) : Later w₀ w w' :=
  .of (hlog ▸ List.suffix_refl _) (Nat.le_of_eq hfresh.symm) fun _ hx => howners ▸ hx

theorem Later.takenUp {id : String} {n : Int} (h : Later w₀ w w') (ht : w₀.takenUp w now id n) :
    w₀.takenUp w' now id n := by
  obtain ⟨hn, x, hx, hid, hpass, hfresh⟩ := ht
  obtain ⟨x', hx', hid', hpass', hrun⟩ := h.owners x hx hfresh
  exact ⟨hn, x', hx', hid'.trans hid, hpass'.trans hpass, hrun ▸ hfresh⟩

theorem Later.called {id : String} (h : Later w₀ w w') (hlog : w₀.log <:+ w.log) (hc : w₀.called w id) :
    w₀.called w' id := by
  obtain ⟨new, hnew⟩ := hlog
  obtain ⟨more, hmore⟩ := h.log
  unfold World.called at hc ⊢
  rw [← hnew] at hc hmore
  rw [← hmore]
  obtain ⟨x, hx, hcall⟩ := hc
  refine ⟨x, ?_, hcall⟩
  have hlen : (more ++ (new ++ w₀.log)).length - w₀.log.length = (more ++ new).length := by
    simp only [List.length_append]
    omega
  have hlen' : (new ++ w₀.log).length - w₀.log.length = new.length := by simp
  rw [hlen', List.take_left'  rfl] at hx
  rw [hlen, ← List.append_assoc, List.take_left' rfl]
  exact List.mem_append_right _ hx

theorem Keeps.later (hl : Later w₀ w w') (hlog : w₀.log <:+ w.log) (h : Keeps host now w₀ w j) (hj : j.NoLater j') :
    Keeps host now w₀ w' j' := by
  intro j₀ hj₀ hid n hn
  rw [hj.id] at hid ⊢
  rcases h j₀ hj₀ hid n hn with hlate | ht | hc | ⟨hs, hd⟩
  · exact .inl hlate
  · exact .inr (.inl (hl.takenUp ht))
  · exact .inr (.inr (.inl (hl.called hlog hc)))
  · exact .inr (.inr (.inr ⟨hj.schedule.trans hs, fun n' hn' => hd n' (hj.due n' hn')⟩))

end

/-- A job as the event finds it: nothing has happened to it since. -/
def AsFound (host : Host) (now : Int) (w₀ : World) (j : CronJob) : Prop :=
  ∀ j₀ ∈ w₀.listed, j₀.id = j.id → ∀ n ∈ j₀.dueTime,
    j₀.late host now n ∨ j.schedule = j₀.schedule ∧ ∀ n' ∈ j.dueTime, n' = n

/-- A start or a reload leaves the due time of the job. -/
def Steady (host : Host) (now : Int) (w₀ : World) (j : CronJob) : Prop :=
  ∀ j₀ ∈ w₀.listed, j₀.id = j.id → ∀ n ∈ j₀.dueTime,
    j₀.late host now n ∨ (j.lifecycle = .scheduled → j.inBackoff ∨ ∀ n' ∈ computeNextRun host j.schedule now, n' ≤ n)

def RetriesInTime (host : Host) (now : Int) (w₀ : World) (j : CronJob) : Prop :=
  ∀ j₀ ∈ w₀.listed, j₀.id = j.id → ∀ n ∈ j₀.dueTime,
    j₀.late host now n ∨ 0 < j.backoffMs ∧ now + j.backoffMs ≤ n

def World.Synced (w : World) : Prop :=
  ∀ j ∈ w.jobs, ∀ d ∈ w.disk.jobs, d.id = j.id → d.schedule = j.schedule ∧ ∀ n ∈ j.dueTime, ∀ n' ∈ d.dueTime, n' = n

/-- A write during the event; a job that is due may have been advanced for its run. -/
def Written (host : Host) (now : Int) (w₀ w : World) : Prop :=
  ∀ d ∈ w.disk.jobs, ∀ j₀ ∈ w₀.listed, j₀.id = d.id → ∀ n ∈ j₀.dueTime,
    j₀.late host now n ∨ w₀.called w d.id ∨ n ≤ now ∨ ∀ n' ∈ d.dueTime, n' ≤ n

structure Timed (host : Host) (now : Int) (w₀ w : World) : Prop where
  memory : w.loaded = true → ∀ j ∈ w.jobs, Keeps host now w₀ w j
  disk : ∀ d ∈ w.disk.jobs, Keeps host now w₀ w d
  synced : w.loaded = true → w.Synced
  unread : w.loaded = false → w₀.loaded = false ∧ w.disk = w₀.disk
  log : w₀.log <:+ w.log
  fresh : w₀.fresh ≤ w.fresh

section

variable {host : Host} {now : Int} {w₀ w w' : World} {j j' : CronJob}

theorem AsFound.keeps (h : AsFound host now w₀ j) : Keeps host now w₀ w j := by
  intro j₀ hj₀ hid n hn
  rcases h j₀ hj₀ hid n hn with hlate | ⟨hs, hd⟩
  · exact .inl hlate
  · exact .inr (.inr (.inr ⟨hs, fun n' hn' => .inl (hd n' hn')⟩))

/-- A start or a reload, where it leaves the due time. -/
theorem Keeps.recompute (h : Keeps host now w₀ w j) (hs : Steady host now w₀ j) : Keeps host now w₀ w (j.recompute host now) := by
  intro j₀ hj₀ hid n hn
  rw [Control.recompute_id] at hid ⊢
  rcases h j₀ hj₀ hid n hn with hlate | ht | hc | ⟨hsched, hd⟩
  · exact .inl hlate
  · exact .inr (.inl ht)
  · exact .inr (.inr (.inl hc))
  rcases hs j₀ hj₀ hid n hn with hlate | hsteady
  · exact .inl hlate
  refine .inr (.inr (.inr ⟨(CronJob.recompute_schedule host now j).trans hsched, fun n' hn' => ?_⟩))
  obtain ⟨hl, hsame | ⟨hno, hcomp⟩⟩ := CronJob.recompute_dueTime hn'
  · exact hd n' hsame
  · rcases hsteady hl with hback | hle
    · exact absurd hback hno
    · exact .inr ⟨computeNextRun_gt hcomp, hle n' hcomp⟩

/-- The grace window of a pass. -/
theorem Keeps.forwarded (h : Keeps host now w₀ w j) : Keeps host now w₀ w (forwarded host now j) := by
  obtain ⟨hid', -, -, hsame⟩ := Decisions.forwarded_same host now j
  cases hf : j.fastForward host now with
  | none =>
    rw [hsame hf]
    exact h
  | some m =>
    intro j₀ hj₀ hid n hn
    rw [hid'] at hid ⊢
    rcases h j₀ hj₀ hid n hn with hlate | ht | hc | ⟨hsched, hd⟩
    · exact .inl hlate
    · exact .inr (.inl ht)
    · exact .inr (.inr (.inl hc))
    · refine .inl ?_
      -- the job is due, so it has kept its due time
      unfold CronJob.fastForward at hf
      split at hf
      · next hdue =>
        obtain ⟨⟨hl, -, m, hm, hle⟩, hk, hgrace⟩ := hdue
        have hnext : j.state.nextRunAtMs = some m := (Option.filter_eq_some_iff.mp hm).1
        have hdueTime : m ∈ j.dueTime := by
          unfold CronJob.dueTime
          rw [if_pos ⟨hl, hk⟩]
          exact hnext
        rcases hd m hdueTime with rfl | ⟨hlt, -⟩
        · rw [hsched, hnext] at hgrace
          exact hgrace
        · omega
      · cases hf

theorem World.called_cons {x : Happening} {id : String} (hlog : w₀.log <:+ w.log) (hx : x.isCall id = true) :
    w₀.called (w.note x) id := by
  obtain ⟨new, hnew⟩ := hlog
  refine ⟨x, ?_, hx⟩
  show x ∈ (x :: w.log).take ((x :: w.log).length - w₀.log.length)
  have hlen : (x :: w.log).length - w₀.log.length = new.length + 1 := by
    rw [← hnew]
    simp only [List.length_cons, List.length_append]
    omega
  rw [hlen, List.take_succ_cons]
  exact List.mem_cons_self

end

namespace Timed

variable {host : Host} {now : Int} {w₀ w w' : World} {j j' : CronJob}

/-- What is on disk now is as good as written. -/
theorem written (h : Timed host now w₀ w) (hdisk : w'.disk.jobs = w.disk.jobs) (hlog : w'.log = w.log) :
    Written host now w₀ w' := by
  intro d hd j₀ hj₀ hid n hn
  rw [hdisk] at hd
  rcases h.disk d hd j₀ hj₀ hid n hn with hlate | ht | hc | ⟨-, hdue⟩
  · exact .inl hlate
  · exact .inr (.inr (.inl ht.1))
  · unfold World.called at hc ⊢
    rw [hlog]
    exact .inr (.inl hc)
  · refine .inr (.inr (.inr fun n' hn' => ?_))
    rcases hdue n' hn' with heq | ⟨-, hle⟩ <;> omega

/-- Nothing is written, and no job gets another due time. -/
theorem keep (h : Timed host now w₀ w) (hlater : Later w₀ w w') (hloaded : w'.loaded = w.loaded) (hdisk : w'.disk = w.disk)
    (hjobs : ∀ j' ∈ w'.jobs, ∃ j ∈ w.jobs, j.NoLater j') : Timed host now w₀ w' where
  memory hl j' hj' := by
    obtain ⟨j, hj, hn⟩ := hjobs j' hj'
    exact (h.memory (hloaded ▸ hl) j hj).later hlater h.log hn
  disk d hd := (h.disk d (hdisk ▸ hd)).later hlater h.log (.refl d)
  synced hl j' hj' d hd hid := by
    obtain ⟨j, hj, hn⟩ := hjobs j' hj'
    obtain ⟨hs, hdue⟩ := h.synced (hloaded ▸ hl) j hj d (hdisk ▸ hd) (hid.trans hn.id)
    exact ⟨hs.trans hn.schedule.symm, fun n hn' => hdue n (hn.due n hn')⟩
  unread hl := by
    rw [hdisk]
    exact h.unread (hloaded ▸ hl)
  log := h.log.trans hlater.log
  fresh := Nat.le_trans h.fresh hlater.fresh

/-- The jobs are saved. -/
theorem saved (hjobs : ∀ j ∈ w.jobs, Keeps host now w₀ w j) (hu : (w.jobs.map (·.id)).Nodup) (hl : w.loaded = true)
    (hdisk : w.disk.jobs = w.jobs) (hlog : w₀.log <:+ w.log) (hfresh : w₀.fresh ≤ w.fresh) : Timed host now w₀ w where
  memory _ := hjobs
  disk d hd := hjobs d (hdisk ▸ hd)
  synced _ j hj d hd hid := by
    have hsame : d = j := List.inj_on_of_nodup_map hu (hdisk ▸ hd) hj hid
    subst hsame
    refine ⟨rfl, fun n hn n' hn' => ?_⟩
    rw [hn] at hn'
    exact (Option.some.inj hn').symm
  unread hl' := absurd (hl.symm.trans hl') (by simp)
  log := hlog
  fresh := hfresh

/-- Nothing but the log, the runs and the tasks is changed. -/
theorem quiet (h : Timed host now w₀ w) (hlater : Later w₀ w w') (hloaded : w'.loaded = w.loaded) (hdisk : w'.disk = w.disk)
    (hjobs : w'.jobs = w.jobs) : Timed host now w₀ w' :=
  h.keep hlater hloaded hdisk fun j hj => ⟨j, hjobs ▸ hj, .refl j⟩

theorem saves (h : Timed host now w₀ w) (hl : w.loaded = true) (hu : (w'.jobs.map (·.id)).Nodup) (hlater : Later w₀ w w')
    (hloaded : w'.loaded = true) (hjobs : ∀ j' ∈ w'.jobs, (∃ j ∈ w.jobs, j.NoLater j') ∨ Keeps host now w₀ w' j') :
    Written host now w₀ w'.saved ∧ Timed host now w₀ w'.saved := by
  have hs : Timed host now w₀ w'.saved := by
    refine saved (fun j' hj' => ?_) hu hloaded rfl (h.log.trans hlater.log) (Nat.le_trans h.fresh hlater.fresh)
    rcases hjobs j' hj' with ⟨j, hj, hn⟩ | hk
    · exact (h.memory hl j hj).later ⟨hlater.log, hlater.fresh, hlater.owners⟩ h.log hn
    · exact hk
  exact ⟨hs.written rfl rfl, hs⟩

theorem put {job : CronJob} (h : Timed host now w₀ w) (hj : j ∈ w.jobs) (hn : j.NoLater job) : Timed host now w₀ (w.put job) := by
  refine h.keep (.same rfl rfl rfl) rfl rfl fun j' hj' => ?_
  rcases World.put_mem hj' with rfl | ⟨hin, -⟩
  · exact ⟨j, hj, hn⟩
  · exact ⟨j', hin, .refl j'⟩

theorem reserve (id : String) (manual : Bool) (h : Timed host now w₀ w) : Timed host now w₀ (w.reserve now id manual) :=
  h.quiet (.of (List.suffix_cons _ _) (Nat.le_succ _) fun _ hx => hx) rfl rfl rfl

theorem enter (run : Run) (manual inPass : Bool) (base : Baseline) (h : Timed host now w₀ w) :
    Timed host now w₀ (w.enter run manual inPass base) :=
  h.quiet (.of (List.suffix_refl _) (Nat.le_refl _) fun _ hx => List.mem_cons_of_mem _ hx) rfl rfl rfl

theorem moved (x : Execution) (place : Await) : Later w₀ w (w.moveTo x place) := by
  refine ⟨List.suffix_refl _, Nat.le_refl _, fun y hy _ => ⟨_, List.mem_map_of_mem hy, ?_⟩⟩
  split <;> exact ⟨rfl, rfl, rfl⟩

def demands (host : Host) (now : Int) (w₀ : World) : Demands where
  start w := ∀ j ∈ w.jobs, Steady host now w₀ j
  reread w := ∀ j ∈ (w.readFrom host now).jobs, AsFound host now w₀ j
  add n := ∀ j₀ ∈ w₀.listed, j₀.id ≠ n.id
  ending w run _ e := run.runId < w₀.fresh ∧
    (e.isRetry = true → ∀ job, w.job? run.jobId = some job → RetriesInTime host now w₀ job)

/-- A run that ended, and was under way before the event. -/
theorem endRun {run : Run} {manual : Bool} {e : Ending} {job : CronJob} {follow : Follow} (g : Control w)
    (h : Timed host now w₀ w) (hl : w.loaded = true) (hj : w.job? run.jobId = some job)
    (hD : (demands host now w₀).ending w run manual e) :
    Written host now w₀ (w.transcribed now run manual e job) ∧ Written host now w₀ (w.recorded now run manual e job) ∧
      Written host now w₀ (w.recorded now run manual e job).saved ∧
      Timed host now w₀ ((w.over now run manual e job).follow run.runId follow) := by
  have hjob := World.job?_mem hj
  have hlater : Later w₀ w (w.over now run manual e job) := by
    refine ⟨⟨[.retired run.runId, .persisted run.runId _], rfl⟩, Nat.le_refl _, fun x hx hfresh => ⟨x, ?_, rfl, rfl, rfl⟩⟩
    refine List.mem_filter.mpr ⟨hx, ?_⟩
    have hne : x.run.runId ≠ run.runId := by
      have := hD.1
      omega
    simpa using hne
  have hfinal : (e.final now w.stopping run manual job).id = job.id := Ending.final_id
  have hkeeps : ∀ w', Later w₀ w w' → Keeps host now w₀ w' (e.final now w.stopping run manual job) := by
    intro w' hlater
    cases he : e.isRetry with
    | false => exact (h.memory hl job hjob).later hlater h.log (.final he)
    | true =>
      intro j₀ hj₀ hid n hn
      rw [hfinal] at hid ⊢
      rcases hD.2 he job hj j₀ hj₀ hid n hn with hlate | ⟨hpos, hle⟩
      · exact .inl hlate
      rcases h.memory hl job hjob j₀ hj₀ hid n hn with hlate | ht | hc | ⟨hs, -⟩
      · exact .inl hlate
      · exact .inr (.inl (hlater.takenUp ht))
      · exact .inr (.inr (.inl (hlater.called h.log hc)))
      cases e with
      | retried o =>
        refine .inr (.inr (.inr ⟨hs, fun n' hn' => ?_⟩))
        obtain ⟨-, -, hnext⟩ := CronJob.dueTime_eq hn'
        have heq : now + job.backoffMs = n' := Option.some.inj hnext
        exact .inr ⟨by omega, by omega⟩
      | _ => cases he
  have hu : ((w.put (e.final now w.stopping run manual job)).jobs.map (·.id)).Nodup := by
    rw [Control.put_ids]
    exact g.unique
  have hsaved : ∀ w', Later w₀ w w' → w'.loaded = true → w'.jobs = (w.put (e.final now w.stopping run manual job)).jobs →
      w'.disk.jobs = w'.jobs → Timed host now w₀ w' := by
    intro w' hlater hl' hjobs hdisk
    refine saved (fun j hj' => ?_) (hjobs ▸ hu) hl' hdisk (h.log.trans hlater.log) (Nat.le_trans h.fresh hlater.fresh)
    rcases World.put_mem (hjobs ▸ hj') with rfl | ⟨hin, -⟩
    · exact hkeeps w' hlater
    · exact (h.memory hl j hin).later hlater h.log (.refl j)
  refine ⟨h.written rfl rfl, h.written rfl rfl, ?_, ?_⟩
  · have hrecorded := hsaved (w.recorded now run manual e job).saved
      (.same rfl rfl rfl) hl rfl rfl
    exact hrecorded.written rfl rfl
  · cases follow with
    | nobody => exact hsaved _ hlater hl rfl rfl
    | publish inPass raises =>
      exact hsaved _ ⟨hlater.log.trans (List.suffix_cons _ _), hlater.fresh, hlater.owners⟩ hl rfl rfl
    | announce => exact hsaved _ ⟨hlater.log, hlater.fresh, hlater.owners⟩ hl rfl rfl

/-- The store is read for the first time. -/
theorem read (g : Control w) (h : Timed host now w₀ w) (hl : w.loaded = false)
    (hfound : w₀.loaded = false → ∀ j ∈ (w₀.readFrom host now).jobs, AsFound host now w₀ j) :
    (∀ j ∈ (w.readFrom host now).jobs, Keeps host now w₀ w j) ∧ ((w.readFrom host now).jobs.map (·.id)).Nodup := by
  obtain ⟨hl₀, hdisk⟩ := h.unread hl
  refine ⟨fun j hj => (hfound hl₀ j ?_).keeps, g.readFrom_unique⟩
  unfold World.readFrom at hj ⊢
  rw [← hdisk]
  exact hj

/-- Where nothing is to recover, the store is read as it is. -/
theorem readFrom_synced (g : Control w) (hq : recoveryChanges host w.disk (w.disk.jobs.map CronJob.read) = false) :
    (w.readFrom host now).Synced := by
  unfold recoveryChanges at hq
  rw [Bool.or_eq_false_iff] at hq
  intro j hj d hd hid
  rcases List.mem_append.mp hj with hj | hj
  · obtain ⟨j', hj', rfl⟩ := List.mem_map.mp hj
    obtain ⟨old, hold, rfl⟩ := List.mem_map.mp hj'
    have hsame : reconciled host w.disk old.read = old.read := by
      unfold reconciled
      split
      · next latest hlatest =>
        have hknown := List.any_eq_false.mp hq.1 old.read (List.mem_map_of_mem hold)
        rw [hlatest] at hknown
        exact if_pos (by simpa using hknown)
      · rfl
    rw [hsame] at hid ⊢
    have hin : d ∈ w.disk.jobs := hd
    have heq : d = old := List.inj_on_of_nodup_map g.uniqueDisk hin hold hid
    subst heq
    have hread := CronJob.NoLater.read d
    refine ⟨hread.schedule.symm, fun n hn n' hn' => ?_⟩
    have hn₀ := hread.due n hn
    rw [hn₀] at hn'
    exact (Option.some.inj hn').symm
  · obtain ⟨dir, hdir, hmade⟩ := List.mem_filterMap.mp hj
    obtain ⟨latest, -, rfl⟩ := Option.map_eq_some_iff.mp hmade
    have hout := (List.mem_filter.mp hdir).2
    have hin : d ∈ w.disk.jobs := hd
    have hid' : d.read.id = dir := hid
    have : dir ∈ (w.disk.jobs.map CronJob.read).map (·.id) :=
      List.mem_map.mpr ⟨d.read, List.mem_map_of_mem hin, hid'⟩
    exact absurd this (by simpa using hout)

/-- The pass advances the job and begins its run. -/
theorem fire {job : CronJob} {rest : List String} (g : Control w) (h : Timed host now w₀ w) (hl : w.loaded = true)
    (hj : w.job? job.id = some job) (hd : job.due now) :
    ((advanced host now job).isSome → Written host now w₀ (w.advance host now job)) ∧
      Timed host now w₀ ((w.advance host now job).execute now ((advanced host now job).getD job) false true (some rest)) := by
  obtain ⟨hsched, -, m, hm, hle⟩ := hd
  have hnext : job.state.nextRunAtMs = some m := (Option.filter_eq_some_iff.mp hm).1
  have hjob := World.job?_mem hj
  unfold World.advance
  cases hadv : advanced host now job with
  | none =>
    refine ⟨fun h => (by cases h), ?_⟩
    have hpass : Timed host now w₀ { w.reserve now job.id false with pass := some rest } :=
      (h.reserve job.id false).quiet (.same rfl rfl rfl) rfl rfl rfl
    exact hpass.enter _ _ _ _
  | some job' =>
    have hid := advanced_id hadv
    obtain ⟨-, hsched', -⟩ := advanced_evolves hadv
    have hkind : job.schedule.kind ≠ .at_ := by
      intro hk
      unfold advanced at hadv
      rw [if_pos hk] at hadv
      cases hadv
    have hdue : m ∈ job.dueTime := by
      unfold CronJob.dueTime
      rw [if_pos ⟨hsched, hkind⟩]
      exact hnext
    -- it was due when it was found
    have hcame : ∀ j₀ ∈ w₀.listed, j₀.id = job.id → ∀ n ∈ j₀.dueTime,
        j₀.late host now n ∨ w₀.takenUp w now job.id n ∨ w₀.called w job.id ∨ n ≤ now := by
      intro j₀ hj₀ hid₀ n hn
      rcases h.memory hl job hjob j₀ hj₀ hid₀ n hn with hlate | ht | hc | ⟨-, hd⟩
      · exact .inl hlate
      · exact .inr (.inl ht)
      · exact .inr (.inr (.inl hc))
      · refine .inr (.inr (.inr ?_))
        rcases hd m hdue with rfl | ⟨hlt, -⟩ <;> omega
    have hu : ((w.put job').jobs.map (·.id)).Nodup := by
      rw [Control.put_ids]
      exact g.unique
    constructor
    · intro _ d hd j₀ hj₀ hid₀ n hn
      rcases World.put_mem hd with rfl | ⟨hin, -⟩
      · rw [hid] at hid₀ ⊢
        rcases hcame j₀ hj₀ hid₀ n hn with hlate | ht | hc | hn
        · exact .inl hlate
        · exact .inr (.inr (.inl ht.1))
        · exact .inr (.inl hc)
        · exact .inr (.inr (.inl hn))
      · rcases h.memory hl d hin j₀ hj₀ hid₀ n hn with hlate | ht | hc | ⟨-, hd⟩
        · exact .inl hlate
        · exact .inr (.inr (.inl ht.1))
        · exact .inr (.inl hc)
        · refine .inr (.inr (.inr fun n' hn' => ?_))
          rcases hd n' hn' with heq | ⟨-, hle⟩ <;> omega
    · have hlater : Later w₀ w ((w.put job').saved.execute now job' false true (some rest)) :=
        .of (List.suffix_cons _ _) (Nat.le_succ _) fun _ hx => List.mem_cons_of_mem _ hx
      refine saved (fun j hj => ?_) hu hl rfl (h.log.trans hlater.log) (Nat.le_trans h.fresh hlater.fresh)
      rcases World.put_mem hj with rfl | ⟨hin, -⟩
      · intro j₀ hj₀ hid₀ n hn
        rw [hid] at hid₀ ⊢
        rcases hcame j₀ hj₀ hid₀ n hn with hlate | ht | hc | hn
        · exact .inl hlate
        · exact .inr (.inl (hlater.takenUp ht))
        · exact .inr (.inr (.inl (hlater.called h.log hc)))
        · exact .inr (.inl ⟨hn, _, List.mem_cons_self, hid, rfl, h.fresh⟩)
      · exact (h.memory hl j hin).later hlater h.log (.refl j)

/-- The due times are computed again, of the jobs there or of those read anew. -/
theorem recomputes {w₁ : World} (h : Timed host now w₀ w) (hl : w.loaded = true) (hu : (w₁.jobs.map (·.id)).Nodup)
    (hlater : Later w₀ w (w₁.recomputed host now)) (hloaded : w₁.loaded = true) (hkeeps : ∀ j ∈ w₁.jobs, Keeps host now w₀ w j)
    (hs : ∀ j ∈ w₁.jobs, Steady host now w₀ j) :
    Written host now w₀ (w₁.recomputed host now).saved ∧ Timed host now w₀ (w₁.recomputed host now).saved := by
  refine h.saves hl ?_ hlater hloaded fun j' hj' => ?_
  · show ((w₁.jobs.map (CronJob.recompute host now)).map (·.id)).Nodup
    rw [Control.map_ids (Control.recompute_id host now)]
    exact hu
  · obtain ⟨j, hj, rfl⟩ := List.mem_map.mp hj'
    exact .inr (((hkeeps j hj).recompute (hs j hj)).later hlater h.log (.refl _))

/-- A job is put in its place and the store saved. -/
theorem stores {job' : CronJob} (g : Control w) (h : Timed host now w₀ w) (hl : w.loaded = true)
    (hjobs : w'.jobs = (w.put job').jobs) (hlater : Later w₀ w w') (hloaded : w'.loaded = true)
    (hnew : (∃ j ∈ w.jobs, j.NoLater job') ∨ Keeps host now w₀ w' job') :
    Written host now w₀ w'.saved ∧ Timed host now w₀ w'.saved := by
  refine h.saves hl ?_ hlater hloaded fun j hj => ?_
  · rw [hjobs, Control.put_ids]
    exact g.unique
  · rw [hjobs] at hj
    rcases World.put_mem hj with rfl | ⟨hin, -⟩
    · exact hnew
    · exact .inl ⟨j, hin, .refl j⟩

theorem archives {ids : List String} (g : Control w) (h : Timed host now w₀ w) (hl : w.loaded = true) :
    Written host now w₀ (w.archive now ids).saved ∧ Timed host now w₀ (w.archive now ids).saved := by
  refine h.saves hl ?_ (.same rfl rfl rfl) hl fun j' hj' => ?_
  · have hids : (w.archive now ids).jobs.map (·.id) = w.jobs.map (·.id) :=
      Control.map_ids (fun j => by split <;> rfl) w.jobs
    exact hids ▸ g.unique
  · obtain ⟨j, hj, rfl⟩ := List.mem_map.mp hj'
    refine .inl ⟨j, hj, ?_⟩
    split
    · exact .of_over rfl rfl (by simp [CronJob.archive])
    · exact .refl j

theorem forwards (g : Control w) (h : Timed host now w₀ w) (hl : w.loaded = true) :
    Written host now w₀ (w.forward host now).saved ∧ Timed host now w₀ (w.forward host now).saved := by
  have hlater : Later w₀ w (w.forward host now) := .of ⟨_, rfl⟩ (Nat.le_refl _) fun _ hx => hx
  refine h.saves hl ?_ hlater hl fun j' hj' => ?_
  · show ((w.jobs.map (forwarded host now)).map (·.id)).Nodup
    rw [Control.map_ids (Control.forwarded_id host now)]
    exact g.unique
  · obtain ⟨j, hj, rfl⟩ := List.mem_map.mp hj'
    exact .inr ((h.memory hl j hj).forwarded.later hlater h.log (.refl _))

theorem rules (hfound : w₀.loaded = false → ∀ j ∈ (w₀.readFrom host now).jobs, AsFound host now w₀ j) :
    Rules host now Control (demands host now w₀) (Written host now w₀) (Timed host now w₀) where
  keys g _ := ⟨g.keys, g.ids⟩
  idle g _ := g.idle
  unique g _ := g.unique
  known g _ := (Control.rules host now).known trivial g
  held g _ := (Control.rules host now).held trivial g
  stopping _ _ h := h.quiet (.same rfl rfl rfl) rfl rfl rfl
  load_quiet {w} g h hl hq := by
    obtain ⟨hkeeps, -⟩ := h.read g hl hfound
    have hlater : Later w₀ w (w.readFrom host now) := .same rfl rfl rfl
    exact
      { memory := fun _ j hj => (hkeeps j hj).later hlater h.log (.refl j)
        disk := fun d hd => (h.disk d hd).later hlater h.log (.refl d)
        synced := fun _ => readFrom_synced g hq, unread := fun hl' => (by cases hl'), log := h.log, fresh := h.fresh }
  load_saved {w} g h hl _ := by
    obtain ⟨hkeeps, hu⟩ := h.read g hl hfound
    have hlater : Later w₀ w (w.readFrom host now).saved := .same rfl rfl rfl
    have hs : Timed host now w₀ (w.readFrom host now).saved :=
      saved (fun j hj => (hkeeps j hj).later hlater h.log (.refl j)) hu rfl rfl h.log h.fresh
    exact ⟨hs.written rfl rfl, hs⟩
  restart g h hl hD :=
    h.recomputes hl g.unique (.of ⟨_, rfl⟩ (Nat.le_refl _) fun _ hx => hx) hl (h.memory hl) hD
  reread {w} _ _ _ hre _ := fun d hd j₀ hj₀ hid n hn => by
    rcases hre d hd j₀ hj₀ hid n hn with hlate | ⟨-, hd⟩
    · exact .inl hlate
    · exact .inr (.inr (.inr fun n' hn' => by rw [hd n' hn']))
  reload {w} g h hl hre hD := by
    refine h.recomputes hl (g.keeping_ids host now).1 (.of ⟨_, rfl⟩ (Nat.le_refl _) fun _ hx => hx) rfl (fun j hj => ?_) hD
    rcases g.keeping_mem hj with hin | ⟨hin, -⟩
    · exact h.memory hl j hin
    · exact (hre j hin).keeps
  edit_kept {w job edit job'} _ h _ hj he hedit := by
    refine h.put hj (he.noLater ?_)
    rcases hedit with hk | hr
    · exact .inl hk
    · exact .inr (.inl hr)
  edit_stored {w job edit job'} g h hl hj he hedit :=
    h.stores g hl rfl (.same rfl rfl rfl) hl (.inl ⟨job, hj, he.noLater (.inr (.inr hedit))⟩)
  edit_set {w job edit job' hand} g h hl hj he hedit := by
    refine h.stores g hl rfl (.of (List.suffix_cons _ _) (Nat.le_refl _) fun _ hx => hx) hl ?_
    obtain ⟨-, -, hhand⟩ := he.set hedit
    have hcall : Happening.isCall job'.id (.set job'.id job'.lifecycle job'.state.nextRunAtMs hand) = true := by
      rcases hhand with ⟨rfl, -⟩ | ⟨rfl, -⟩ <;> simp [Happening.isCall]
    exact .inr fun j₀ _ _ n _ => .inr (.inr (.inl (World.called_cons (w := w.put job') h.log hcall)))
  archive g h hl _ := h.archives g hl
  purge {w ids} g h hl _ := by
    refine ⟨h.written rfl rfl, ?_⟩
    refine h.saves hl ?_ (.same rfl rfl rfl) hl fun j hj => ?_
    · exact g.unique.sublist (List.filter_sublist.map _)
    · exact .inl ⟨j, (List.mem_filter.mp hj).1, .refl j⟩
  add {w n job} g h hl hD hn hnew hdir := by
    obtain ⟨hid, -⟩ := NewJob.tidy hn
    have g' := ((Control.rules host now).add trivial g hl trivial hn hnew hdir).2
    refine h.saves hl g'.unique (.same rfl rfl rfl) hl fun j hj => ?_
    rcases List.mem_append.mp hj with hin | hin
    · exact .inl ⟨j, hin, .refl j⟩
    · rw [List.mem_singleton.mp hin]
      exact .inr fun j₀ hj₀ hid₀ => absurd (hid₀.trans hid) (hD j₀ hj₀)
  detach {w job key force manual} _ h _ _ _ _ :=
    (h.reserve job.id manual).quiet (.same rfl rfl rfl) rfl rfl rfl
  drop {w run} _ h := h.quiet (.of (List.suffix_cons _ _) (Nat.le_refl _) fun _ hx => hx) rfl rfl rfl
  turn_leaves _ h _ _ _ := h.quiet (.same rfl rfl rfl) rfl rfl rfl
  turn_enters {w d job} _ h _ _ _ _ _ _ := by
    have h' : Timed host now w₀ (w.undetach d.run.runId) :=
      h.quiet (.same rfl rfl rfl) rfl rfl rfl
    exact h'.enter _ _ _ _
  turn_ends {w d job} g h hl _ _ _ hj hD := by
    have h' : Timed host now w₀ (w.undetach d.run.runId) :=
      h.quiet (.same rfl rfl rfl) rfl rfl rfl
    exact h'.endRun (g.undetach _) hl hj hD
  execute {w job} _ h _ _ _ _ := by
    have h' : Timed host now w₀ { w.reserve now job.id true with pass := w.pass } :=
      (h.reserve job.id true).quiet (.same rfl rfl rfl) rfl rfl rfl
    exact h'.enter _ _ _ _
  fire g h hl _ hj hd _ := h.fire g hl hj hd
  forward_quiet {w} _ h hl hno := by
    refine h.keep (.of ⟨_, rfl⟩ (Nat.le_refl _) fun _ hx => hx) rfl rfl fun j' hj' => ?_
    obtain ⟨j, hj, rfl⟩ := List.mem_map.mp hj'
    rw [(Decisions.forwarded_same host now j).2.2.2 (hno j hj)]
    exact ⟨j, hj, .refl j⟩
  forward_saved g h hl := h.forwards g hl
  endPass {w} g h hl := by
    obtain ⟨hI, h'⟩ := h.saves hl g.unique (.same rfl rfl rfl) hl fun j hj => .inl ⟨j, hj, .refl j⟩
    exact ⟨hI, h'.quiet (.same rfl rfl rfl) rfl rfl rfl⟩
  abandonPass _ h := h.quiet (.same rfl rfl rfl) rfl rfl rfl
  begin {w x job} _ h _ _ _ hj := by
    have hput : Timed host now w₀ (w.put { job with state.lastDeliveryError := none }) :=
      h.put (World.job?_mem hj) (.of_same rfl rfl rfl rfl)
    have hmoved := hput.quiet (moved x .running) rfl rfl rfl
    exact hmoved.quiet (.of (List.suffix_cons _ _) (Nat.le_refl _) fun _ hx => hx) rfl rfl rfl
  alert {w x o job} _ h _ _ _ hj _ _ _ := by
    have hput : Timed host now w₀
        (w.put { (job.ran (.uuid x.run.runId) x.run.startedAtMs now o).fail with state.lastAlertAtMs := some now }) :=
      h.put (World.job?_mem hj) (.of_same rfl rfl rfl rfl)
    exact hput.quiet (moved x (.alerting now)) rfl rfl rfl
  ends g h hl hj _ _ hD _ := h.endRun g hl hj hD
  spares _ _ _ _ hD := ⟨hD.1, fun h => by cases h⟩
  delivered _ h := h.quiet (.same rfl rfl rfl) rfl rfl rfl
  unannounced _ h := h.quiet (.same rfl rfl rfl) rfl rfl rfl
  announced _ h _ := h.quiet (.of (List.suffix_cons _ _) (Nat.le_refl _) fun _ hx => hx) rfl rfl rfl

end Timed

/-! ## Passes -/

section

variable {host : Host} {now : Int} {w : World}

/-- The loop comes to a due job, or stops before it for another. -/
theorem runDue_takes {id : String} : ∀ {ids : List String} {w : World} {job : CronJob}, id ∈ ids → w.stopping = false →
    w.job? id = some job → job.due now → w.activeRun id = none →
    Safe (fun _ => True) (runDue host now ids) w fun _ w' =>
      (∃ x ∈ w'.owners, x.run.jobId = id ∧ x.inPass = true ∧ w.fresh ≤ x.run.runId) ∨ ∃ rest, w'.pass = some rest ∧ id ∈ rest := by
  intro ids
  induction ids with
  | nil =>
    intro w job hin
    cases hin
  | cons id' rest ih =>
    intro w job hin hstop hj hdue hrun
    have hskip : id' ≠ id → Safe (fun _ => True) (runDue host now rest) w fun _ w' =>
        (∃ x ∈ w'.owners, x.run.jobId = id ∧ x.inPass = true ∧ w.fresh ≤ x.run.runId) ∨
          ∃ rest, w'.pass = some rest ∧ id ∈ rest := by
      intro hne
      rcases List.mem_cons.mp hin with heq | hin'
      · exact absurd heq.symm hne
      · exact ih hin' hstop hj hdue hrun
    unfold runDue
    refine .read_bind ?_
    rw [if_neg (by simp [hstop])]
    cases hj' : w.job? id' with
    | none =>
      refine hskip fun he => ?_
      rw [he, hj] at hj'
      cases hj'
    | some job' =>
      have hid : job'.id = id' := World.job?_id hj'
      dsimp only
      split
      · next hno =>
        refine hskip fun he => ?_
        rw [he, hj] at hj'
        cases hj'
        rcases hno with hno | hno
        · exact hno hdue
        · rw [hid, he, hrun] at hno
          cases hno
      · next hgo =>
        have hnone : w.activeRun job'.id = none := by simpa using (not_or.mp hgo).2
        have hactive : (w.advance host now job').activeRun job'.id = none := by
          unfold World.activeRun
          rw [World.advance_activeRuns]
          exact hnone
        have hstop' : (w.advance host now job').stopping = false := World.advance_stopping.trans hstop
        have hfresh : (w.advance host now job').fresh = w.fresh := by
          unfold World.advance
          split <;> rfl
        refine .bind (safe_advanceNextRun (fun _ => trivial) (.bind (safe_reserveRun hstop' hactive ?_)))
        refine .modify_bind (safe_executeJob hstop' (World.reserve_holds hactive) ?_)
        rcases List.mem_cons.mp hin with heq | hin'
        · exact .inl ⟨_, List.mem_cons_self, hid.trans heq.symm, rfl, Nat.le_of_eq hfresh.symm⟩
        · exact .inr ⟨rest, rfl, hin'⟩

/-- A job that is due within its grace does not wait for its next occurrence. -/
theorem CronJob.fastForward_none {j : CronJob} {n : Int} (hn : n ∈ j.dueTime) (hlate : ¬ j.late host now n) :
    j.fastForward host now = none := by
  unfold CronJob.fastForward
  refine if_neg fun h => hlate ?_
  have hgrace := h.2.2
  rw [(CronJob.dueTime_eq hn).2.2] at hgrace
  exact hgrace

theorem onTimer_takes {job : CronJob} {n : Int} (g : Control w) (hl : w.loaded = true) (hstop : w.stopping = false)
    (hpass : w.pass = none) (hj : job ∈ w.jobs) (hdue : job.due now) (hrun : w.activeRun job.id = none)
    (hn : n ∈ job.dueTime) (hlate : ¬ job.late host now n) :
    Safe (fun _ => True) (onTimer host now) w fun _ w' =>
      (∃ x ∈ w'.owners, x.run.jobId = job.id ∧ x.inPass = true ∧ w.fresh ≤ x.run.runId) ∨
        ∃ rest, w'.pass = some rest ∧ job.id ∈ rest := by
  have hnone := CronJob.fastForward_none hn hlate
  have hforward : (w.forward host now).job? job.id = some job := by
    refine World.job?_of_mem ?_ (List.mem_map.mpr ⟨job, hj, (Decisions.forwarded_same host now job).2.2.2 hnone⟩)
    show ((w.jobs.map (forwarded host now)).map (·.id)).Nodup
    rw [Control.map_ids (Control.forwarded_id host now)]
    exact g.unique
  have hin : job.id ∈ (w.jobs.filter fun j => j.due now ∧ j.fastForward host now = none).map (·.id) :=
    List.mem_map_of_mem (List.mem_filter.mpr ⟨hj, by simp [hdue, hnone]⟩)
  unfold onTimer
  refine .read_bind ?_
  rw [if_neg (by simp [hpass, hl])]
  refine .read_bind (.modify_bind (.bind (safe_saveWhen (fun _ => ⟨trivial, ?_⟩) fun _ => ?_)))
  · exact runDue_takes (w := (w.forward host now).saved) hin hstop hforward hdue hrun
  · exact runDue_takes (w := w.forward host now) hin hstop hforward hdue hrun

end

/-! ## Every run of the service -/

theorem World.ready_at (host : Host) (now now' : Int) (w : World) :
    (w.at_ now').ready host now = (w.ready host now).at_ now' := by
  unfold World.ready World.at_
  dsimp only
  split
  · rfl
  · split <;> rfl

theorem World.ready_stopping_jobs (host : Host) (now : Int) (b : Bool) (w : World) :
    (World.ready host now { w with stopping := b }).jobs = (w.ready host now).jobs := by
  unfold World.ready
  dsimp only
  split
  · rfl
  · split <;> rfl

def World.InTime (w : World) : Prop := Control w ∧ (w.loaded = true → w.Synced)

section

variable {host : Host} {w : World} {e : Event}

theorem World.sparing_found (h : w.sparing host e) :
    ∀ j ∈ w.reads host e.now e.op, AsFound host e.now (w.at_ e.now) j := by
  intro j hj j₀ hj₀ hid n hn
  rcases h j₀ hj₀ n hn with hlate | ⟨hreads, -⟩
  · exact .inl hlate
  · exact .inr (hreads j hj hid.symm)

theorem World.sparing_steady (h : w.sparing host e) :
    ∀ j ∈ w.recomputes host e.now e.op, Steady host e.now (w.at_ e.now) j := by
  intro j hj j₀ hj₀ hid n hn
  rcases h j₀ hj₀ n hn with hlate | ⟨-, hrecomputes, -⟩
  · exact .inl hlate
  · exact .inr (hrecomputes j hj hid.symm)

theorem World.reads_ready {op : Op} {now : Int} {j : CronJob} (h : j ∈ (w.ready host now).jobs) : j ∈ w.reads host now op := by
  cases op with
  | reload => exact List.mem_append_left _ h
  | _ => exact h

/-- Only a run in the hands of a task ends in a retry. -/
theorem World.endings_retry {now : Int} {op : Op} {x : Run × Bool × Ending} (h : x ∈ w.endings now op)
    (hr : x.2.2.isRetry = true) : ∃ y ∈ w.owners, y.run = x.1 := by
  cases op with
  | resume run o =>
    obtain ⟨xj, hxj, hmap⟩ := Option.bind_eq_some_iff.mp (Option.mem_toList.mp h)
    obtain ⟨y, hfind, hjob⟩ := Option.bind_eq_some_iff.mp hxj
    obtain ⟨job, -, rfl⟩ := Option.map_eq_some_iff.mp hjob
    obtain ⟨ending, -, rfl⟩ := Option.map_eq_some_iff.mp hmap
    exact ⟨y, List.mem_of_find?_eq_some hfind, rfl⟩
  | cancel run =>
    obtain ⟨xj, -, rfl⟩ := Option.map_eq_some_iff.mp (Option.mem_toList.mp h)
    cases hr
  | shutdown =>
    obtain ⟨run, -, hmap⟩ := List.mem_filterMap.mp h
    obtain ⟨job, -, rfl⟩ := Option.map_eq_some_iff.mp hmap
    cases hr
  | turn run =>
    change x ∈ if w.stopping = true then _ else _ at h
    split at h
    · obtain ⟨d, -, hmap⟩ := Option.bind_eq_some_iff.mp (Option.mem_toList.mp h)
      obtain ⟨job, -, rfl⟩ := Option.map_eq_some_iff.mp hmap
      cases hr
    · cases h
  | _ => cases h

theorem Control.underWay_given {run : Run} (g : Control w) (h : w.underWay run) : run.runId < w.fresh := by
  rcases h with h | h | h
  · obtain ⟨r, hr, hid⟩ := g.holds_iff.mp (g.held run h)
    have := g.given _ hr
    dsimp only at this
    omega
  · obtain ⟨d, hd, rfl⟩ := List.mem_map.mp h
    exact g.detachedGiven d hd
  · obtain ⟨a, ha, rfl⟩ := List.mem_map.mp h
    exact g.given a ha

theorem Timed.meets (g : Control w) (hfits : w.fits e) (hs : w.sparing host e) :
    (Timed.demands host e.now (w.at_ e.now)).meets host e.now (w.at_ e.now) e.op := by
  have hfound := World.sparing_found hs
  have hsteady := World.sparing_steady hs
  refine g.meets hfits (fun hop => ?_) (fun hop => ⟨?_, ?_⟩) (fun n hop j₀ hj₀ he => ?_) (fun x hx stopping => ⟨?_, ?_⟩)
    (fun _ _ _ _ _ _ _ => trivial) fun _ _ => trivial
  · rw [hop] at hsteady
    intro j hj
    rw [World.ready_stopping_jobs, World.ready_at] at hj
    exact hsteady j hj
  · rw [hop] at hfound
    intro j hj
    rw [World.ready_at] at hj
    exact hfound j (List.mem_append_right _ hj)
  · rw [hop] at hsteady
    intro j hj
    rw [World.ready_at] at hj
    exact hsteady j hj
  · have hnew := hfits.2
    rw [hop] at hnew
    obtain ⟨hjobs, hdisk, -⟩ := hnew
    have hin : j₀ ∈ if w.loaded = true then w.jobs else w.disk.jobs := hj₀
    split at hin
    · exact hjobs (List.mem_map.mpr ⟨j₀, hin, he⟩)
    · exact hdisk (List.mem_map.mpr ⟨j₀, hin, he⟩)
  · exact g.underWay_given (World.endings_underWay hx)
  · intro hr job hj j₀ hj₀ hid n hn
    obtain ⟨y, hy, -⟩ := World.endings_retry hx hr
    have hl : w.loaded = true := by
      by_contra hl
      have hnone := (g.idle (by simpa using hl)).2.2
      rw [hnone] at hy
      cases hy
    have hin : j₀ ∈ if w.loaded = true then w.jobs else w.disk.jobs := hj₀
    rw [if_pos hl] at hin
    have hjob : job ∈ w.jobs := World.job?_mem hj
    have hsame : j₀ = job := List.inj_on_of_nodup_map g.unique hin hjob hid
    subst hsame
    have hrun : x.1.jobId = j₀.id := (World.job?_id hj).symm
    rcases hs j₀ hj₀ n hn with hlate | ⟨-, -, hretries, -⟩
    · exact .inl hlate
    · exact .inr (hretries x hx hrun hr)

theorem Timed.init (now : Int) (h : w.InTime) : Timed host now (w.at_ now) (w.at_ now) := by
  obtain ⟨g, hsync⟩ := h
  have hsame : ∀ {jobs : List CronJob}, (jobs.map (·.id)).Nodup → ∀ j ∈ jobs, ∀ j₀ ∈ jobs, j₀.id = j.id →
      j.schedule = j₀.schedule ∧ ∀ n ∈ j₀.dueTime, ∀ n' ∈ j.dueTime, n' = n := by
    intro jobs hu j hj j₀ hj₀ hid
    have heq : j₀ = j := List.inj_on_of_nodup_map hu hj₀ hj hid
    subst heq
    refine ⟨rfl, fun n hn n' hn' => ?_⟩
    rw [hn] at hn'
    exact (Option.some.inj hn').symm
  have hlisted : ∀ j₀ ∈ (w.at_ now).listed, if w.loaded = true then j₀ ∈ w.jobs else j₀ ∈ w.disk.jobs := by
    intro j₀ hj₀
    have hin : j₀ ∈ if w.loaded = true then w.jobs else w.disk.jobs := hj₀
    split <;> simp_all
  refine ⟨fun hl j hj j₀ hj₀ hid n hn => ?_, fun d hd j₀ hj₀ hid n hn => ?_, hsync, fun hl => ⟨hl, rfl⟩,
    List.suffix_refl _, Nat.le_refl _⟩
  · have hin := hlisted j₀ hj₀
    rw [if_pos (show w.loaded = true from hl)] at hin
    obtain ⟨hs, hd⟩ := hsame g.unique j hj j₀ hin hid
    exact .inr (.inr (.inr ⟨hs, fun n' hn' => .inl (hd n hn n' hn')⟩))
  · have hin := hlisted j₀ hj₀
    by_cases hl : w.loaded = true
    · rw [if_pos hl] at hin
      obtain ⟨hs, hd'⟩ := hsync hl j₀ hin d hd hid.symm
      exact .inr (.inr (.inr ⟨hs, fun n' hn' => .inl (hd' n hn n' hn')⟩))
    · rw [if_neg hl] at hin
      obtain ⟨hs, hd'⟩ := hsame g.uniqueDisk d hd j₀ hin hid
      exact .inr (.inr (.inr ⟨hs, fun n' hn' => .inl (hd' n hn n' hn')⟩))

theorem inTime_step (h : w.InTime) (hfits : w.fits e) (hs : w.sparing host e) :
    (step host w e).InTime ∧ w.DueStands host e := by
  obtain ⟨g, hsync⟩ := h
  have hfound : (w.at_ e.now).loaded = false →
      ∀ j ∈ ((w.at_ e.now).readFrom host e.now).jobs, AsFound host e.now (w.at_ e.now) j := by
    intro hl j hj
    refine World.sparing_found hs j (World.reads_ready ?_)
    unfold World.ready
    have hl' : w.loaded = false := hl
    rw [if_neg (by simp [hl'])]
    split <;> exact hj
  have hinit : Timed host e.now (w.at_ e.now) (w.at_ e.now) := Timed.init e.now ⟨g, hsync⟩
  have hsafe := ((Control.rules host e.now).under (Timed.rules hfound)).perform ⟨g.at_ e.now, hinit⟩
    (Timed.meets g hfits hs)
  have hjudge : ∀ {w' : World} {j j' : CronJob} {n n' : Int}, j ∈ w.listed → j'.id = j.id → n ∈ j.dueTime → n' ∈ j'.dueTime →
      n < n' → Keeps host e.now (w.at_ e.now) w' j' →
      j.late host e.now n ∨ w.takenUp w' e.now j.id n ∨ w.called w' j.id := by
    intro w' j j' n n' hj hid hn hn' hlt hk
    rcases hk j hj hid.symm n hn with hlate | ht | hc | ⟨-, hd⟩
    · exact .inl hlate
    · exact .inr (.inl (hid ▸ ht))
    · exact .inr (.inr (hid ▸ hc))
    · rcases hd n' hn' with heq | ⟨-, hle⟩ <;> omega
  cases hdies : e.dies with
  | none =>
    have hstep : step host w e = (perform host e.now e.op (w.at_ e.now)).store := by
      unfold Cron.step
      rw [hdies]
    have hafter : w.afterEvent host e = (perform host e.now e.op (w.at_ e.now)).store := by
      unfold World.afterEvent
      rw [hdies]
    obtain ⟨g', h'⟩ := hsafe.returns
    rw [← hstep] at g' h'
    refine ⟨⟨g', h'.synced⟩, fun j hj j' hj' hid n hn n' hn' hlt => ?_, fun hop _ hl hstop hpass j hj hdue hrun n hn hlate => ?_⟩
    · rw [hafter, ← hstep]
      have hin : j' ∈ if (step host w e).loaded = true then (step host w e).jobs else (step host w e).disk.jobs := hj'
      split at hin
      · next hl => exact hjudge hj hid hn hn' hlt (h'.memory hl j' hin)
      · exact hjudge hj hid hn hn' hlt (h'.disk j' hin)
    · have htaken := (onTimer_takes (g.at_ e.now) hl hstop hpass hj hdue hrun hn hlate).returns
      rw [hstep, hop]
      obtain ⟨hl', -, m, hm, hle⟩ := hdue
      have hnext := (CronJob.dueTime_eq hn).2.2
      have heq : m = n := Option.some.inj ((Option.filter_eq_some_iff.mp hm).1.symm.trans hnext)
      rcases htaken with hx | hrest
      · exact .inl ⟨heq ▸ hle, hx⟩
      · exact .inr hrest
  | some k =>
    have hstep : step host w e = ((perform host e.now e.op).left (w.at_ e.now) k).reboot := by
      unfold Cron.step
      rw [hdies]
    have hafter : w.afterEvent host e = (perform host e.now e.op).left (w.at_ e.now) k := by
      unfold World.afterEvent
      rw [hdies]
    have hleft := hsafe.left ⟨g.uniqueDisk, hinit.written rfl rfl⟩ k
    refine ⟨⟨?_, fun hl => ?_⟩, fun j hj j' hj' hid n hn n' hn' hlt => ?_, fun _ hd => ?_⟩
    · rw [hstep]
      exact control_reboot hleft.1
    · rw [hstep] at hl
      cases hl
    · rw [hstep] at hj'
      rw [hafter]
      have hin : j' ∈ ((perform host e.now e.op).left (w.at_ e.now) k).disk.jobs := hj'
      rcases hs j hj n hn with hlate | ⟨-, -, -, hk | hnow⟩
      · exact .inl hlate
      · rw [hdies] at hk
        have hzero : k = 0 := hk k rfl
        subst hzero
        exact hjudge hj hid hn hn' hlt (hinit.disk j' hin)
      · rcases hleft.2 j' hin j hj hid.symm n hn with hlate | hc | hdue | hle
        · exact .inl hlate
        · exact .inr (.inr (hid ▸ hc))
        · omega
        · have := hle n' hn'
          omega
    · rw [hdies] at hd
      cases hd

theorem due_times_stand {es : List Event}
    (h : Reach.Allowed (step host) (fun w e => w.fits e ∧ w.sparing host e) {} es) :
    Reach.Allowed (step host) (World.DueStands host) {} es :=
  Reach.Allowed.under (fun _ _ hw hok => inTime_step hw hok.1 hok.2) es
    ⟨control_init, fun hl => by cases hl⟩ h

end

namespace Sample

def reloadedEarly : List Event := [⟨1000, .start, none⟩, ⟨1000, .add hourly, none⟩, ⟨3000000, .reload, none⟩]

/-- The reload starts the hour again. -/
theorem a_reload_postpones_a_fire :
    ¬ ∀ es, Reach.Allowed (step host) World.fits {} es → Reach.Allowed (step host) (World.DueStands host) {} es := by
  intro hall
  obtain ⟨-, -, hstands, -⟩ := hall reloadedEarly (by decide)
  have hmoved : ∃ j ∈ (after host (reloadedEarly.take 2)).listed, ∃ j' ∈ (after host reloadedEarly).listed, j'.id = j.id ∧
      j.dueTime = some 3601000 ∧ j'.dueTime = some 6600000 ∧ ¬ j.late host 3000000 3601000 ∧
      ¬ (after host (reloadedEarly.take 2)).called (after host reloadedEarly) j.id := by
    decide
  obtain ⟨j, hj, j', hj', hid, hn, hn', hlate, hcall⟩ := hmoved
  rcases hstands.moved j hj j' hj' hid 3601000 hn 6600000 hn' (by decide) with h | h | h
  · exact hlate h
  · exact absurd h.1 (by decide)
  · exact hcall h

/-- Two hours with a run at the end of the first; the service is down for the end of the second, and is started late. -/
def hours : List Event :=
  [⟨1000, .start, none⟩, ⟨1000, .add hourly, none⟩, ⟨3601000, .pass, none⟩, ⟨3601000, .resume 0 (.returned none), none⟩,
   ⟨3603000, .resume 0 (.returned none), none⟩, ⟨3603000, .delivered 0 false, none⟩, ⟨3700000, .stop, some 0⟩,
   ⟨9002000, .start, none⟩, ⟨12602000, .pass, none⟩]

theorem a_late_start_goes_on : Reach.Allowed (step host) (World.DueStands host) {} hours :=
  due_times_stand (by decide)

end Sample

end Flowly.Cron
