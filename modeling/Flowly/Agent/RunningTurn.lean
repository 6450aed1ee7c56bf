/-
  Flowly.Agent.RunningTurn — one running turn per thread, across crashes
  (`flowly/agent/subagent_registry.py`).

  That something runs on a thread is written twice: as the thread's `active_run_id` and
  as a run that has not ended. `Tracked` says they agree: every run that has not ended is
  the active run of its thread. Threads are replaced before runs, so a crash in between
  keeps `Tracked` when the new threads agree with the old runs (`Effect.between`): a
  thread may name a run that was never written, and reads as idle.

  It does not when the operation ends a run. Then the thread is idle and its run, in the
  old runs.json, has not ended; the next follow-up is accepted and two runs of the thread
  run (`end_crash_lets_two_run`). `one_running_turn` is about the runs without that crash.
-/

import Flowly.Agent.Registry

namespace Flowly.Agent.Registry

open Flowly.Lib Flowly.Lib.Keyed

/-! ## The two records agree -/

structure Tracked (threads : List Thread) (runs : List Run) : Prop where
  threadIds : (threads.map (·.threadId)).Nodup
  runIds : (runs.map (·.runId)).Nodup
  active : ∀ r ∈ runs, r.endedAt = none → ∀ t, r.threadId = some t →
    ∃ th ∈ threads, th.threadId = t ∧ th.activeRunId = some r.runId

def runningOn (r : Run) : Option Id := if r.endedAt = none then r.threadId else none

/-- No two runs that have not ended have the same thread. -/
def OneRunning (runs : List Run) : Prop := (runs.filterMap runningOn).Nodup

theorem runningOn_eq {r : Run} {t : Id} (h : runningOn r = some t) : r.endedAt = none ∧ r.threadId = some t := by
  unfold runningOn at h
  split at h
  · rename_i hn
    exact ⟨hn, h⟩
  · cases h

namespace Tracked

variable {threads : List Thread} {runs : List Run} (h : Tracked threads runs)

include h

theorem thread_unique {th th' : Thread} (hth : th ∈ threads) (hth' : th' ∈ threads) (hid : th.threadId = th'.threadId) :
    th = th' :=
  List.inj_on_of_nodup_map h.threadIds hth hth' hid

theorem oneRunning : OneRunning runs := by
  unfold OneRunning List.Nodup
  rw [List.pairwise_filterMap]
  have hne : runs.Pairwise (fun r r' => r.runId ≠ r'.runId) := by
    have := h.runIds
    rwa [List.Nodup, List.pairwise_map] at this
  refine hne.imp_of_mem fun {r r'} hr hr' hid t ht t' ht' heq => hid ?_
  obtain ⟨hn, htid⟩ := runningOn_eq ht
  obtain ⟨hn', htid'⟩ := runningOn_eq ht'
  obtain ⟨th, hth, hi, ha⟩ := h.active r hr hn t htid
  obtain ⟨th', hth', hi', ha'⟩ := h.active r' hr' hn' t' htid'
  obtain rfl := h.thread_unique hth hth' (by rw [hi, hi', heq])
  rw [ha] at ha'
  exact Option.some.inj ha'

/-- A change to threads that moves no turn. -/
theorem map {f : Thread → Thread} (hid : ∀ th, (f th).threadId = th.threadId)
    (ha : ∀ th ∈ threads, ∀ r ∈ runs, r.endedAt = none → th.activeRunId = some r.runId → (f th).activeRunId = some r.runId) :
    Tracked (threads.map f) runs where
  threadIds := by
    rw [List.map_map]
    simpa [Function.comp_def, hid] using h.threadIds
  runIds := h.runIds
  active := by
    intro r hr hn t ht
    obtain ⟨th, hth, hi, hact⟩ := h.active r hr hn t ht
    exact ⟨f th, List.mem_map_of_mem hth, by rw [hid, hi], ha th hth r hr hn hact⟩

/-- Reading looks at the runs it keeps: all that have not ended. -/
theorem unpruned {now : Nat} {all : List Run} (hruns : runs = all.filter (keepsRun now))
    (hn : (all.map (·.runId)).Nodup) : Tracked threads all where
  threadIds := h.threadIds
  runIds := hn
  active := by
    intro r hr hend
    exact h.active r (by rw [hruns, List.mem_filter]; exact ⟨hr, by simp [keepsRun, hend]⟩) hend

theorem pruned (now : Nat) : Tracked threads (runs.filter (keepsRun now)) where
  threadIds := h.threadIds
  runIds := h.runIds.sublist (List.filter_sublist.map _)
  active := fun r hr => h.active r (List.mem_of_mem_filter hr)

/-- A run that has not ended stays the active one of its thread. -/
theorem refresh_active (now : Nat) : ∀ th ∈ threads, ∀ r ∈ runs, r.endedAt = none → th.activeRunId = some r.runId →
    (refresh runs now th).activeRunId = some r.runId := by
  intro th _ r hr hn ha
  have hsettle : settleActive runs th = th := by
    simp [settleActive, ha, findRun_mem h.runIds hr, hn]
  simp [refresh, closeIdle, hsettle, ha]

theorem refresh (now : Nat) : Tracked ((threads.map (refresh runs now)).filter fun th => !expired now th || waiting runs th) runs := by
  have hm := h.map (f := Registry.refresh runs now) (refresh_threadId runs now) (h.refresh_active now)
  refine ⟨hm.threadIds.sublist (List.filter_sublist.map _), hm.runIds, ?_⟩
  intro r hr hn t ht
  obtain ⟨th, hth, hi, ha⟩ := hm.active r hr hn t ht
  refine ⟨th, List.mem_filter.mpr ⟨hth, ?_⟩, hi, ha⟩
  simp [expired, ha]

/-- Closing out a run that has ended. -/
theorem closeOut {record : Run} (hr : ∀ r ∈ runs, r.runId = record.runId → r.endedAt ≠ none) (t : Id) :
    Tracked (threads.map fun th => if th.threadId = t then closeOutRun th record else th) runs := by
  refine h.map (fun th => ?_) ?_
  · split
    · exact closeOutRun_threadId th record
    · rfl
  · intro th _ r hmem hn ha
    have hne : r.runId ≠ record.runId := fun hid => hr r hmem hid hn
    split
    · simp [closeOutRun, ha, hne]
    · exact ha

end Tracked

theorem read_tracked {d : Disk} (h : Tracked d.threads d.runs) (now : Nat) :
    Tracked (read now d).threads (read now d).runs :=
  (h.pruned now).refresh now

/-! ## Operations that move no turn -/

structure KeepsTurn (f : Thread → Thread) : Prop where
  threadId : ∀ th, (f th).threadId = th.threadId
  activeRunId : ∀ th, (f th).activeRunId = th.activeRunId
  runs : ∀ th, (f th).runs = th.runs

theorem KeepsTurn.at {p : Thread → Prop} [DecidablePred p] {f : Thread → Thread} (h : KeepsTurn f) :
    KeepsTurn fun th => if p th then f th else th := by
  refine ⟨fun th => ?_, fun th => ?_, fun th => ?_⟩ <;> by_cases hp : p th <;>
    simp [hp, h.threadId, h.activeRunId, h.runs]

/-- The runs stay, and each thread its turns. -/
def Quiet (m m' : Mem) : Prop := m'.runs = m.runs ∧ ∃ f, KeepsTurn f ∧ m'.threads = m.threads.map f

theorem Quiet.refl (m : Mem) : Quiet m m := ⟨rfl, id, ⟨fun _ => rfl, fun _ => rfl, fun _ => rfl⟩, by simp⟩

theorem quiet_modify (m : Mem) (id : Id) {f : Thread → Thread} (h : KeepsTurn f) : Quiet m (modify m id f) :=
  ⟨rfl, _, h.at, rfl⟩

theorem quiet_closeThreads (m : Mem) (p : Thread → Bool) (now : Nat) : Quiet m (closeThreads m p now) :=
  ⟨rfl, _, KeepsTurn.at (p := fun th => p th = true) (f := fun th => { th with isOpen := false, closedAt := some now, pendingMail := [] })
    ⟨fun _ => rfl, fun _ => rfl, fun _ => rfl⟩, rfl⟩

variable {m m' : Mem}

theorem quiet_makeRoom {parent : String} {cap now : Nat} (h : makeRoom m parent cap now = some m') : Quiet m m' := by
  simp only [makeRoom] at h
  split at h
  · cases h
    exact Quiet.refl m
  split at h
  · cases h
  · cases h
    exact quiet_closeThreads m _ now

theorem quiet_takePendingTasks {id : Id} (h : takePendingTasks m id = some m') : Quiet m m' := by
  unfold takePendingTasks at h
  split at h
  · cases h
  split at h
  · cases h
  · cases h
    exact quiet_modify m id ⟨fun _ => rfl, fun _ => rfl, fun _ => rfl⟩

theorem quiet_requeueTasks {id : Id} {tasks : List Mail} (h : requeueTasks m id tasks = some m') : Quiet m m' := by
  unfold requeueTasks at h
  split at h
  · cases h
  split at h
  · cases h
  · cases h
    exact quiet_modify m id ⟨fun _ => rfl, fun _ => rfl, fun _ => rfl⟩

variable {now : Nat}

theorem quiet_closeThread {id : Id} (h : closeThread m id now = some m') : Quiet m m' := by
  unfold closeThread at h
  split at h
  · cases h
  split at h
  · cases h
  · cases h
    exact quiet_closeThreads m _ now

theorem quiet_queueMail {id : Id} {mail : Mail} (h : queueMail m id mail = some m') : Quiet m m' := by
  unfold queueMail at h
  split at h
  · cases h
  split at h
  · cases h
  · cases h
    exact quiet_modify m id ⟨fun _ => rfl, fun _ => rfl, fun _ => rfl⟩

theorem quiet_forgetParent {parent : String} (h : forgetParent m parent now = some m') : Quiet m m' := by
  unfold forgetParent at h
  split at h
  · cases h
    exact quiet_closeThreads m _ now
  · cases h

/-! ## What an operation does to the turns -/

/-- What holds when an operation writes `m'`, having read `m`. -/
structure Effect (m m' : Mem) (nextId : Id) (record : Option Run) (ends : Bool) : Prop where
  tracked : Tracked m'.threads m'.runs
  /-- The new threads agree with the old runs. -/
  between : ends = false → Tracked m'.threads m.runs
  /-- No thread forgets a turn. -/
  grown : ∀ th' ∈ m'.threads, th'.threadId = nextId ∨
    ∃ th ∈ m.threads, th.threadId = th'.threadId ∧ th.runs.length ≤ th'.runs.length
  /-- A registered run's turn is the newest of its thread. -/
  turn : ∀ r ∈ record, ∀ t ∈ r.threadId,
    (t = nextId ∨ ∃ th ∈ m.threads, th.threadId = t ∧ th.runs.length < r.turn) ∧
      ∀ th' ∈ m'.threads, th'.threadId = t → r.turn ≤ th'.runs.length

theorem Quiet.tracked (hq : Quiet m m') (h : Tracked m.threads m.runs) : Tracked m'.threads m'.runs := by
  obtain ⟨hr, f, hf, ht⟩ := hq
  rw [ht, hr]
  exact h.map hf.threadId fun th _ r _ _ ha => by rw [hf.activeRunId, ha]

theorem Quiet.grown (hq : Quiet m m') : ∀ th' ∈ m'.threads,
    ∃ th ∈ m.threads, th.threadId = th'.threadId ∧ th.runs.length = th'.runs.length := by
  obtain ⟨_, f, hf, ht⟩ := hq
  intro th' hth'
  rw [ht] at hth'
  obtain ⟨th, hth, rfl⟩ := List.mem_map.mp hth'
  exact ⟨th, hth, (hf.threadId th).symm, by rw [hf.runs]⟩

theorem Quiet.effect (hq : Quiet m m') (h : Tracked m.threads m.runs) (nextId : Id) (ends : Bool) :
    Effect m m' nextId none ends where
  tracked := hq.tracked h
  between := fun _ => hq.1 ▸ hq.tracked h
  grown := by
    intro th' hth'
    obtain ⟨th, hth, hid, hlen⟩ := hq.grown th' hth'
    exact Or.inr ⟨th, hth, hid, hlen.le⟩
  turn := by simp

variable {threads : List Thread} {runs : List Run}

/-- A new run on no thread, or on one that has it for its active run. -/
theorem Tracked.addRun (h : Tracked threads runs) {record : Run} (hnew : ∀ r ∈ runs, r.runId ≠ record.runId)
    (ha : ∀ t, record.threadId = some t → ∃ th ∈ threads, th.threadId = t ∧ th.activeRunId = some record.runId) :
    Tracked threads (runs ++ [record]) where
  threadIds := h.threadIds
  runIds := nodup_keys_snoc h.runIds hnew
  active := by
    intro r hr hn t ht
    rcases List.mem_append.mp hr with hr | hr
    · exact h.active r hr hn t ht
    · rw [List.mem_singleton.mp hr] at ht ⊢
      exact ha t ht

theorem Tracked.addThread (h : Tracked threads runs) (th : Thread)
    (hnew : ∀ th' ∈ threads, th'.threadId ≠ th.threadId) : Tracked (threads ++ [th]) runs where
  threadIds := nodup_keys_snoc h.threadIds hnew
  runIds := h.runIds
  active := by
    intro r hr hn t ht
    obtain ⟨th', hth', hi, ha⟩ := h.active r hr hn t ht
    exact ⟨th', List.mem_append_left _ hth', hi, ha⟩

/-- The thread a follow-up starts a turn of names it, in its old place. -/
theorem Tracked.startTurn (h : Tracked threads runs) {th : Thread}
    (hth : th ∈ threads) (hidle : th.activeRunId = none) {f : Thread → Thread} (hid : ∀ x, (f x).threadId = x.threadId) :
    Tracked (threads.map fun x => if x.threadId = th.threadId then f x else x) runs := by
  refine h.map (fun x => by split <;> simp [hid]) ?_
  intro x hx r hr hn ha
  by_cases hxt : x.threadId = th.threadId
  · rw [h.thread_unique hx hth hxt, hidle] at ha
    cases ha
  · rw [if_neg hxt, ha]

/-- `register` with a thread of the run's own. -/
theorem register_new_effect (h : Tracked m.threads m.runs) {record : Run} {th : Thread} {cap : Option Nat}
    {r : Run} (hturn : record.turn = 1) (hr : register m record (some th) cap now = some (m', r)) :
    Effect m m' th.threadId (some r) false := by
  obtain ⟨hnewRun, hnewThread, hid, rfl, roomy, hroom, rfl⟩ := register_new hr
  have hq : Quiet m roomy := by
    rcases hroom with rfl | ⟨cap, hroom⟩
    · exact Quiet.refl _
    · exact quiet_makeRoom hroom
  have ht := hq.tracked h
  have hnew : ∀ x ∈ roomy.threads, x.threadId ≠ th.threadId := by
    intro x hx
    obtain ⟨old, hold, hid, _⟩ := hq.grown x hx
    exact hid ▸ hnewThread old hold
  have hadd := ht.addThread { th with runs := [r.runId], activeRunId := some r.runId } hnew
  refine ⟨hadd.addRun (by rw [hq.1]; exact hnewRun) ?_, fun _ => hq.1 ▸ hadd, ?_, ?_⟩
  · intro t htid
    rw [hid] at htid
    exact ⟨_, List.mem_append_right _ (List.mem_singleton_self _), Option.some.inj htid, rfl⟩
  · intro x hx
    rcases List.mem_append.mp hx with hx | hx
    · obtain ⟨old, hold, hid, hlen⟩ := hq.grown x hx
      exact Or.inr ⟨old, hold, hid, hlen.le⟩
    · rw [List.mem_singleton.mp hx]
      exact Or.inl rfl
  · intro r hr t htid
    cases hr
    cases hid.symm.trans htid
    refine ⟨Or.inl rfl, fun x hx hxid => ?_⟩
    rcases List.mem_append.mp hx with hx | hx
    · exact absurd hxid (hnew x hx)
    · rw [List.mem_singleton.mp hx, hturn]
      exact Nat.le_refl _

/-- `register` of a run of an existing thread, or of none. -/
theorem register_next_effect (h : Tracked m.threads m.runs) {record : Run} {cap : Option Nat} {r : Run}
    (nextId : Id) (hr : register m record none cap now = some (m', r)) : Effect m m' nextId (some r) false := by
  obtain ⟨hnewRun, ⟨hnone, rfl, rfl⟩ | ⟨existing, hfind, hid, hidle, rfl, rfl⟩⟩ := register_next hr
  · refine ⟨h.addRun hnewRun (by simp [hnone]), fun _ => h, fun th hth => Or.inr ⟨th, hth, rfl, Nat.le_refl _⟩, ?_⟩
    intro r hr t ht
    cases hr
    rw [hnone] at ht
    cases ht
  · obtain ⟨hmem, _⟩ := findThread_some hfind
    have hstart : Tracked (modify m existing.threadId (·.taking record.runId)).threads m.runs :=
      h.startTurn hmem hidle fun _ => rfl
    refine ⟨hstart.addRun hnewRun ?_, fun _ => hstart, ?_, ?_⟩
    · intro t ht
      cases hid.symm.trans ht
      exact ⟨_, List.mem_map_of_mem hmem, by simp [Thread.taking], by simp [Thread.taking, nextTurn]⟩
    · intro x hx
      obtain ⟨th, hth, rfl⟩ := List.mem_map.mp hx
      refine Or.inr ⟨th, hth, ?_, ?_⟩ <;> split <;> simp [Thread.taking]
    · intro r hr t ht
      cases hr
      cases hid.symm.trans ht
      refine ⟨Or.inr ⟨existing, hmem, rfl, Nat.lt_succ_self _⟩, fun x hx hxid => ?_⟩
      obtain ⟨th, hth, rfl⟩ := List.mem_map.mp hx
      by_cases hthid : th.threadId = existing.threadId
      · rw [h.thread_unique hth hmem hthid]
        simp [Thread.taking, nextTurn]
      · rw [if_neg hthid] at hxid
        exact absurd hxid hthid

/-! ## Runs that change -/

/-- A run that has ended has ended for good. -/
theorem Changes.apply_endedAt {c : Changes} {r : Run} (h : (c.apply r).endedAt = none) : r.endedAt = none := by
  unfold Changes.apply at h
  simp only at h
  cases hc : c.endedAt with
  | none => simpa [hc] using h
  | some e => simp [hc] at h

/-- A changed record in place of the one it was read from. -/
theorem Tracked.setRun (h : Tracked threads runs) {old : Run} (record : Run)
    (hold : old ∈ runs) (hid : record.runId = old.runId) (htid : record.threadId = old.threadId)
    (hend : record.endedAt = none → old.endedAt = none) :
    Tracked threads (runs.map fun r => if r.runId = record.runId then record else r) where
  threadIds := h.threadIds
  runIds := by
    refine nodup_keys_map h.runIds fun r => ?_
    by_cases he : r.runId = record.runId
    · rw [if_pos he, he]
    · rw [if_neg he]
  active := by
    intro r hr hn t ht
    obtain ⟨r', hr', rfl⟩ := List.mem_map.mp hr
    by_cases he : r'.runId = record.runId
    · rw [if_pos he] at hn ht ⊢
      rw [hid]
      exact h.active old hold (hend hn) t (htid ▸ ht)
    · rw [if_neg he] at hn ht ⊢
      exact h.active r' hr' hn t ht

def endsTurn (m : Mem) (id : Id) (endedAt : Option Nat) : Bool :=
  match findRun m.runs id with
  | none => false
  | some r => r.endedAt.isNone && r.threadId.isSome && endedAt.isSome

/-- An update that does not end the run of a thread closes out only what had ended. -/
theorem ended_of_not_endsTurn {m : Mem} (h : Tracked m.threads m.runs) {old : Run} (hold : old ∈ m.runs) {changes : Changes}
    {ended : Nat} {t : Id} (ht : old.threadId = some t)
    (hended : ((if old.endedAt.isSome then changes.afterEnd else changes).apply old).endedAt = some ended)
    (hends : endsTurn m old.runId changes.endedAt = false) : old.endedAt ≠ none := by
  intro hn
  have hsome : changes.endedAt.isSome = true := by
    simp only [hn, Option.isSome_none, Bool.false_eq_true, if_false, Changes.apply] at hended
    cases he : changes.endedAt with
    | none => rw [he] at hended; cases hended
    | some _ => rfl
  rw [endsTurn, findRun_mem h.runIds hold] at hends
  simp [hn, hsome, ht] at hends

theorem update_effect (h : Tracked m.threads m.runs) {id : Id} {changes : Changes} (nextId : Id)
    (hu : update m id changes = some m') : Effect m m' nextId none (endsTurn m id changes.endedAt) := by
  obtain ⟨old, hold, rfl, c, hc, hm'⟩ := update_changes hu
  have hset := h.setRun (c.apply old) hold rfl rfl Changes.apply_endedAt
  rcases hm' with rfl | ⟨ended, t, hended, ht, rfl⟩
  · exact ⟨hset, fun _ => h, fun th hth => Or.inr ⟨th, hth, rfl, Nat.le_refl _⟩, by simp⟩
  refine ⟨?_, fun hends => ?_, ?_, by simp⟩
  · refine hset.closeOut (fun r hr hid => ?_) t
    obtain ⟨r', hr', rfl⟩ := List.mem_map.mp hr
    by_cases he : r'.runId = (c.apply old).runId
    · rw [if_pos he, hended]
      exact Option.some_ne_none ended
    · rw [if_neg he] at hid
      exact absurd hid he
  · -- A run that had ended before: its thread has long been closed out.
    refine h.closeOut (fun r hr hid => ?_) t
    obtain rfl := List.inj_on_of_nodup_map h.runIds hr hold hid
    exact ended_of_not_endsTurn h hr ht (hc ▸ hended) hends
  · intro x hx
    obtain ⟨th, hth, rfl⟩ := List.mem_map.mp hx
    refine Or.inr ⟨th, hth, ?_, ?_⟩ <;> split <;> simp

theorem finish_effect (h : Tracked m.threads m.runs) {id : Id} {outcome : Outcome} {report : Bool}
    (nextId : Id) (hf : finish m id outcome report now = some m') : Effect m m' nextId none (endsTurn m id (some now)) := by
  obtain ⟨changes, hend, hu⟩ := finish_updates hf
  exact hend ▸ update_effect h nextId hu

theorem claim_effect (h : Tracked m.threads m.runs) {id : Id} {owner expectedOwner : Nat} {changes : Changes}
    (nextId : Id) (hc : claim m id owner expectedOwner changes = some m') : Effect m m' nextId none false := by
  obtain ⟨old, hold, c, rfl⟩ := claim_changes hc
  exact ⟨h.setRun _ hold rfl rfl Changes.apply_endedAt, fun _ => h,
    fun th hth => Or.inr ⟨th, hth, rfl, Nat.le_refl _⟩, by simp⟩

/-! ## Runs of the registry -/

def Op.endsTurn (m : Mem) (now : Nat) : Op → Bool
  | .update run changes => Registry.endsTurn m run changes.endedAt
  | .finish run _ _ => Registry.endsTurn m run (some now)
  | _ => false

theorem run_effect (h : Tracked m.threads m.runs) {id : Id} {op : Op} {record : Option Run}
    (hr : run m id now op = some (m', record)) : Effect m m' id record (op.endsTurn m now) := by
  cases op with
  | spawn parent origin cleanupDelete deliveryState openCap =>
    obtain ⟨r, hreg, rfl⟩ := written_some hr
    by_cases ho : origin = .system
    · simp only [ho, if_true] at hreg
      exact register_next_effect h id hreg
    · simp only [ho, if_false] at hreg
      exact register_new_effect h rfl hreg
  | followup thread origin =>
    obtain ⟨r, hreg, rfl⟩ := written_some hr
    exact register_next_effect h id hreg
  | update run changes =>
    obtain ⟨hop, rfl⟩ := written_none hr
    exact update_effect h id hop
  | finish run outcome report =>
    obtain ⟨hop, rfl⟩ := written_none hr
    exact finish_effect h id hop
  | claim run owner expectedOwner changes =>
    obtain ⟨hop, rfl⟩ := written_none hr
    exact claim_effect h id hop
  | closeThread thread =>
    obtain ⟨hop, rfl⟩ := written_none hr
    exact (quiet_closeThread hop).effect h id _
  | queueMail thread mail =>
    obtain ⟨hop, rfl⟩ := written_none hr
    exact (quiet_queueMail hop).effect h id _
  | takePendingTasks thread =>
    obtain ⟨hop, rfl⟩ := written_none hr
    exact (quiet_takePendingTasks hop).effect h id _
  | requeueTasks thread tasks =>
    obtain ⟨hop, rfl⟩ := written_none hr
    exact (quiet_requeueTasks hop).effect h id _
  | forgetParent parent =>
    obtain ⟨hop, rfl⟩ := written_none hr
    exact (quiet_forgetParent hop).effect h id _
  | maintain =>
    cases hr
    exact (Quiet.refl m).effect h id _

/-- The turns `register` gives one thread are distinct, and each is larger than those before it. -/
def TurnsIncrease (handed : List (Id × Nat)) : Prop := handed.Pairwise fun a b => a.1 = b.1 → a.2 < b.2

structure Turns (s : St) : Prop where
  tracked : Tracked s.disk.threads s.disk.runs
  below : ∀ th ∈ s.disk.threads, th.threadId < s.nextId
  handedBelow : ∀ h ∈ s.handed, h.1 < s.nextId
  /-- A thread has as many runs as its newest turn says. -/
  counted : ∀ h ∈ s.handed, ∀ th ∈ s.disk.threads, th.threadId = h.1 → h.2 ≤ th.runs.length
  increasing : TurnsIncrease s.handed

theorem turns_start : Turns start where
  tracked := ⟨by simp [start], by simp [start], by simp [start]⟩
  below := by simp [start]
  handedBelow := by simp [start]
  counted := by simp [start]
  increasing := List.Pairwise.nil

theorem mem_read_threads {d : Disk} {th : Thread} (h : th ∈ (read now d).threads) :
    ∃ old ∈ d.threads, old.threadId = th.threadId ∧ old.runs = th.runs := by
  obtain ⟨old, hold, rfl⟩ := List.mem_map.mp (List.mem_of_mem_filter h)
  exact ⟨old, hold, (refresh_threadId _ now old).symm, (refresh_runs _ now old).symm⟩

/-- No crash between the two replacements of an operation that ends the run of a thread. -/
def EndsWhole (s : St) (e : Ev) : Prop := e.crash = true → e.op.endsTurn (read e.now s.disk) e.now = false

instance (s : St) (e : Ev) : Decidable (EndsWhole s e) := inferInstanceAs (Decidable (_ → _))

theorem Turns.step {s : St} (h : Turns s) {e : Ev} (hok : EndsWhole s e) : Turns (step s e) := by
  unfold Registry.step
  split
  · exact h
  rename_i m record hrun
  have hread := read_tracked h.tracked e.now
  have heff := run_effect hread hrun
  -- A thread that is written was there before, with at most as many runs, or is new.
  have hgrown : ∀ th' ∈ m.threads, th'.threadId = s.nextId ∨
      ∃ th ∈ s.disk.threads, th.threadId = th'.threadId ∧ th.runs.length ≤ th'.runs.length := by
    intro th' hth'
    refine (heff.grown th' hth').imp_right ?_
    rintro ⟨th, hth, hid, hlen⟩
    obtain ⟨old, hold, hid', hruns⟩ := mem_read_threads hth
    exact ⟨old, hold, hid'.trans hid, by rwa [hruns]⟩
  have hnew : ∀ new ∈ (record.bind fun r => r.threadId.map (·, r.turn)).toList, new.1 ≤ s.nextId ∧
      (∀ old ∈ s.handed, old.1 = new.1 → old.2 < new.2) ∧ ∀ th ∈ m.threads, th.threadId = new.1 → new.2 ≤ th.runs.length := by
    intro new hmem
    rw [Option.mem_toList, Option.bind_eq_some_iff] at hmem
    obtain ⟨r, hr, hmap⟩ := hmem
    obtain ⟨t, ht, rfl⟩ := Option.map_eq_some_iff.mp hmap
    obtain ⟨hwhere, hcount⟩ := heff.turn r hr t ht
    refine ⟨?_, ?_, hcount⟩
    · rcases hwhere with rfl | ⟨th, hth, rfl, _⟩
      · exact Nat.le_refl _
      · obtain ⟨old, hold, hid, _⟩ := mem_read_threads hth
        exact hid ▸ (h.below old hold).le
    · intro old hold hid
      simp only at hid
      rcases hwhere with rfl | ⟨th, hth, hthid, hlen⟩
      · exact absurd (h.handedBelow old hold) (by rw [hid]; exact Nat.lt_irrefl _)
      · obtain ⟨before, hbefore, hid', hruns⟩ := mem_read_threads hth
        have := h.counted old hold before hbefore (by rw [hid', hthid, hid])
        rw [hruns] at this
        exact Nat.lt_of_le_of_lt this hlen
  refine ⟨?_, ?_, ?_, ?_, ?_⟩
  · unfold write
    by_cases hcrash : e.crash = true
    · simp only [hcrash, if_true]
      exact (heff.between (hok hcrash)).unpruned rfl h.tracked.runIds
    · simp only [hcrash]
      exact heff.tracked
  · intro th hth
    rcases hgrown th hth with hid | ⟨old, hold, hid, _⟩
    · exact hid ▸ Nat.lt_succ_self _
    · exact hid ▸ Nat.lt_succ_of_lt (h.below old hold)
  · intro x hx
    rcases List.mem_append.mp hx with hx | hx
    · exact Nat.lt_succ_of_lt (h.handedBelow x hx)
    · exact Nat.lt_succ_of_le (hnew x hx).1
  · intro x hx th hth hid
    rcases List.mem_append.mp hx with hx | hx
    · rcases hgrown th hth with hnext | ⟨old, hold, hid', hlen⟩
      · exact absurd (h.handedBelow x hx) (by rw [← hid, hnext]; exact Nat.lt_irrefl _)
      · exact Nat.le_trans (h.counted x hx old hold (hid'.trans hid)) hlen
    · exact (hnew x hx).2.2 th hth hid
  · refine List.pairwise_append.mpr ⟨h.increasing, ?_, fun old hold new hmem => (hnew new hmem).2.1 old hold⟩
    cases record.bind fun r => r.threadId.map (·, r.turn) with
    | none => exact List.Pairwise.nil
    | some x => exact List.pairwise_singleton _ x

/-- In every run without such a crash, at most one run of a thread is running, and the
    turns given out within a thread increase. -/
theorem one_running_turn {s : St} (h : Reach step EndsWhole start s) :
    OneRunning s.disk.runs ∧ TurnsIncrease s.handed :=
  have hinv := h.invariant (P := Turns) turns_start fun _ _ hs hok => hs.step hok
  ⟨hinv.tracked.oneRunning, hinv.increasing⟩

/-- A task ends whole, a follow-up dies between the files, and another one runs. -/
def secondFollowup : List Ev :=
  [{ op := .spawn "cli:direct" .agent false .pending (some 32), now := 100 }, { op := .finish 0 .ok false, now := 200 },
    { op := .followup 0 .agent, now := 300, crash := true }, { op := .followup 0 .agent, now := 400 }]

theorem secondFollowup_one_running :
    OneRunning (secondFollowup.foldl step start).disk.runs ∧ TurnsIncrease (secondFollowup.foldl step start).handed :=
  one_running_turn (Reach.foldl secondFollowup start .start (by decide))

/-- The process dies while it records the end of a task: the thread is idle, the run has not ended. -/
def crashedEnd : List Ev :=
  [{ op := .spawn "cli:direct" .agent false .pending (some 32), now := 100 },
    { op := .finish 0 .ok false, now := 200, crash := true }, { op := .followup 0 .agent, now := 300 }]

/-- The follow-up is accepted, and both runs of the thread are running. -/
theorem end_crash_lets_two_run : ¬ OneRunning (crashedEnd.foldl step start).disk.runs := by
  have htwo : (crashedEnd.foldl step start).disk.runs.filterMap runningOn = [0, 0] := by decide
  rw [OneRunning, htwo]
  simp

end Flowly.Agent.Registry
