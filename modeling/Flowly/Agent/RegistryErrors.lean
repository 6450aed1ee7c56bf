/-
  Flowly.Agent.RegistryErrors — a registry operation whose write fails.

  The handler reads the two files again before it raises (`fails_perform`). Proved: files and
  memory are as before exactly if no file was replaced by other bytes (`asBefore_iff`):
  threads.json failed first, or the operation changes no thread record.
  Otherwise the new threads stand beside the old runs (`close_failed_not_asBefore`).
-/

import Flowly.Agent.RegistryFiles

namespace Flowly.Agent.RegistryErrors

open Flowly.Lib Flowly.Lib.Attempt
open Flowly.Agent.RegistryFiles

/-! ## What a failed replacement leaves -/

/-- The files are those from before, and memory is what they said. -/
structure AsBefore (later : Nat) (w w' : World) : Prop where
  threads : w'.threads = w.threads
  runs : w'.runs = w.runs
  mem : loaded later w = some w'.mem

variable {w w' : World}

theorem loaded_congr (ht : w'.threads = w.threads) (hr : w'.runs = w.runs) (now : Nat) :
    loaded now w' = loaded now w := by
  simp only [loaded, keptRuns, plainRuns, keptThreads, ht, hr]

theorem returns_readLocked {now : Nat} {u : Unit} :
    Returns (readLocked now) w u w' ↔ ∃ mem, loaded now w = some mem ∧ w' = { w with mem } := by
  unfold readLocked
  rw [returns_get_bind]
  cases loaded now w with
  | none => simp
  | some mem => simp

theorem fails_readLocked {now : Nat} {e : Error} (h : Fails (readLocked now) w e w') :
    loaded now w = none ∧ e = .unreadable := by
  unfold readLocked at h
  rw [fails_get_bind] at h
  cases hl : loaded now w with
  | none =>
    rw [hl] at h
    exact ⟨rfl, (fails_throw.1 h).1⟩
  | some mem => simp [hl] at h

variable {fault : Fault} {file : FileName}

theorem fails_atomicWrite {replace : World → World} {e : Error}
    (h : Fails (atomicWrite (some fault) file replace) w e w') :
    fault.file = file ∧ e = .replacement file ∧ w' = if fault.replaced then replace w else w := by
  unfold atomicWrite at h
  by_cases hf : fault.file = file
  · cases hr : fault.replaced <;> simp [hf, hr, fails_bind] at h ⊢ <;> exact h
  · simp [hf] at h

theorem returns_atomicWrite {replace : World → World} {u : Unit}
    (h : Returns (atomicWrite (some fault) file replace) w u w') : fault.file ≠ file ∧ w' = replace w := by
  unfold atomicWrite at h
  by_cases hf : fault.file = file
  · cases hr : fault.replaced <;> simp [hf, hr, returns_bind] at h
  · exact ⟨hf, by simpa [hf] using h⟩

/-- The files when `_write_locked` raises. -/
structure Torn (fault : Fault) (mem : Mem) (w w' : World) : Prop where
  threads : w'.threads =
    if mem.rewrites ∧ (fault.file = .threads → fault.replaced) then .holds (dump mem.threads) else w.threads
  runs : w'.runs = if fault.file = .runs ∧ fault.replaced then .holds (dump mem.runs) else w.runs
  /-- A file that is not replaced does not fail. -/
  rewrites : fault.file = .threads → mem.rewrites

theorem fails_writeLocked {e : Error} (h : Fails (writeLocked (some fault)) w e w') :
    e = .replacement fault.file ∧ Torn fault w.mem w w' := by
  unfold writeLocked at h
  rw [fails_get_bind] at h
  cases hr : w.mem.rewrites with
  | false =>
    rw [hr, if_neg Bool.false_ne_true] at h
    obtain ⟨hf, rfl, rfl⟩ := fails_atomicWrite h
    refine ⟨by rw [hf], ?_, ?_, fun h => by simp [hf] at h⟩ <;> cases hp : fault.replaced <;> simp [hf, hr, replaceRuns]
  | true =>
    rw [hr, if_pos rfl, fails_bind] at h
    obtain h | ⟨_, w1, hthreads, h⟩ := h
    · obtain ⟨hf, rfl, rfl⟩ := fails_atomicWrite h
      refine ⟨by rw [hf], ?_, ?_, fun _ => hr⟩ <;> cases hp : fault.replaced <;> simp [hf, hr, replaceThreads]
    · obtain ⟨-, rfl⟩ := returns_atomicWrite hthreads
      rw [fails_bind] at h
      obtain h | ⟨_, w2, hdisk, h⟩ := h
      · exact absurd h fails_modify
      · rw [returns_modify] at hdisk
        subst hdisk
        obtain ⟨hf, rfl, rfl⟩ := fails_atomicWrite h
        refine ⟨by rw [hf], ?_, ?_, fun _ => hr⟩ <;> cases hp : fault.replaced <;>
          simp [hf, hr, replaceThreads, replaceRuns]

/-- A call that raises because a replacement failed. -/
theorem fails_perform {now later : Nat} {c : Call}
    (h : Fails (perform now later (some fault) c) w (.replacement file) w') :
    ∃ m mem reply, loaded now w = some m ∧ c.decision now m = .writes mem reply ∧ Torn fault mem w w' ∧
      loaded later w' = some w'.mem := by
  unfold perform at h
  rw [fails_bind] at h
  obtain h | ⟨_, w1, hread, h⟩ := h
  · exact absurd (fails_readLocked h).2 (by simp)
  obtain ⟨m, hm, rfl⟩ := returns_readLocked.1 hread
  rw [fails_get_bind] at h
  dsimp only at h
  cases hd : c.decision now m with
  | returns reply => simp [hd] at h
  | raises e =>
    rw [hd] at h
    have hdecides := decision_decides (loaded_unavailable hm) c now
    rw [hd] at hdecides
    cases hdecides with
    | raises hne => exact absurd (fails_throw.1 h).1.symm (hne file)
  | writes mem reply =>
    rw [hd, fails_bind] at h
    obtain h | ⟨_, w1, hmem, h⟩ := h
    · exact absurd h fails_modify
    rw [returns_modify] at hmem
    subst hmem
    rw [fails_bind] at h
    obtain h | ⟨_, w1, -, h⟩ := h
    · obtain ⟨e, w1, hwrite, h⟩ := fails_tryCatch.1 h
      obtain ⟨rfl, torn⟩ := fails_writeLocked hwrite
      rw [fails_bind] at h
      obtain h | ⟨_, w2, hread, h⟩ := h
      · exact absurd (fails_readLocked h).2 (by simp)
      · obtain ⟨mem', hmem', rfl⟩ := returns_readLocked.1 hread
        obtain ⟨-, rfl⟩ := fails_throw.1 h
        exact ⟨m, mem, reply, hm, hd, ⟨torn.threads, torn.runs, torn.rewrites⟩, hmem'⟩
    · simp at h

/-- No file was replaced by other bytes, by the call and what it reads. -/
def NoFileChanged (now : Nat) (fault : Fault) (c : Call) (w : World) : Prop :=
  match fault.file with
  | .threads => fault.replaced = false
  | .runs => ∀ m ∈ loaded now w,
      c.quiet m ∧ { m with threads := m.threads ++ c.newThreads m }.rewrites = false ∧
        (fault.replaced → w.runs = .holds (dump (m.runs ++ c.newRuns m)))

theorem asBefore_iff {now later : Nat} {fault : Fault} {c : Call} {w w' : World} {file : FileName}
    (h : Fails (perform now later (some fault) c) w (.replacement file) w') :
    AsBefore later w w' ↔ NoFileChanged now fault c w := by
  obtain ⟨m, mem, reply, hm, hd, torn, hlater⟩ := fails_perform h
  have hw : Writes c m mem := by
    have hdecides := decision_decides (loaded_unavailable hm) c now
    rw [hd] at hdecides
    cases hdecides with
    | writes hw => exact hw
  have hfiles : AsBefore later w w' ↔ w'.threads = w.threads ∧ w'.runs = w.runs := by
    refine ⟨fun h => ⟨h.threads, h.runs⟩, fun h => ⟨h.1, h.2, ?_⟩⟩
    rw [← hlater, loaded_congr h.1 h.2]
  rw [hfiles, torn.threads, torn.runs]
  cases hf : fault.file with
  | threads =>
    -- threads.json failed: it is the old one unless `os.replace` had been
    have hdiffer := rewrites_differs hm hw (torn.rewrites hf)
    simp [NoFileChanged, hf, torn.rewrites hf, hdiffer]
  | runs =>
    cases hq : c.quiet m with
    | false =>
      have hr := rewrites_of_moved hm hw hq
      simp [NoFileChanged, hf, hm, hq, hr, rewrites_differs hm hw hr]
    | true =>
      obtain ⟨hthreads, hruns⟩ := hw.quiet hq
      have hsame := rewrites_congr hw.unavailable hw.threadsDisk
      rw [hthreads] at hsame
      cases hr : mem.rewrites with
      | true => simp [NoFileChanged, hf, hm, hq, ← hsame, hr, rewrites_differs hm hw hr]
      | false =>
        have hnew : NoFileChanged now fault c w ↔ (fault.replaced → w.runs = .holds (dump mem.runs)) := by
          simp [NoFileChanged, hf, hm, hq, ← hsame, hr, ← hruns]
        rw [hnew]
        cases fault.replaced with
        | false => simp
        | true => simp [eq_comm]

namespace Sample

def thread : ThreadRecord :=
  { thread := { threadId := 1, parent := "chat", createdAt := 1, runs := [1], lastRunEndedAt := some 5 }, revision := 2 }

/-- Its run, ended and told. -/
def run : RunRecord :=
  { run := { runId := 1, threadId := some 1, endedAt := some 5, announced := true }, createdAt := 1, revision := 3 }

def idle : World where
  threads := .holds (dump [thread])
  runs := .holds (dump [run])
  mem := { runs := [run], threads := [thread], threadsDisk := some (dump [thread]) }

end Sample

/-- `close_thread`, as runs.json cannot be replaced: the thread is closed all the same. -/
theorem close_failed_not_asBefore :
    ¬ AsBefore 11 Sample.idle ((perform 10 11 (some { file := .runs }) (.closeThread 1)).runFrom Sample.idle).2 := by
  have h : Fails (perform 10 11 (some { file := .runs }) (.closeThread 1)) Sample.idle (.replacement .runs)
    ((perform 10 11 (some { file := .runs }) (.closeThread 1)).runFrom Sample.idle).2 := rfl
  exact fun hb => absurd ((asBefore_iff h).1 hb _ rfl).1 (by decide)

/-- A failed replacement does not always leave the registry as it was. -/
theorem failed_write_not_undone :
    ¬ ∀ (now later : Nat) (fault : Fault) (c : Call) (w w' : World) (file : FileName),
      Fails (perform now later (some fault) c) w (.replacement file) w' → AsBefore later w w' :=
  fun h => absurd (h 10 11 { file := .runs } (.closeThread 1) Sample.idle _ .runs rfl).threads (by decide)

end Flowly.Agent.RegistryErrors
