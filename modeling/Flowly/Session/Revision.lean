/-
  Flowly.Session.Revision — the revision check of the session store
  (`flowly/session/manager.py`: `_revision`, `_disk_revision_unlocked`, `refresh`,
  `get_or_create`, `read`, `mutate`, `save`, `_save_unlocked`, `delete`).

  Any number of managers work on the canonical file of one key, each operation whole
  under the session file lock. The file is its revision: what else it holds no check
  reads. A manager's cache maps the key to a session object, and an object outlives its
  place in the cache: whoever holds it may save it.

  `stamp` numbers the states of the canonical file: every save and every delete of a
  file makes a new one. `seen` is the state an object was last loaded from, refreshed
  from or saved as. A save is sound if the state it replaces is the one its object knows.

  Proved: a save that passes the check is sound exactly if the file was not deleted
  since its object was last in step with it (`passing_save_sound_iff`), and so no update
  is lost in a run without such saves (`no_update_lost`). A deleted file counts as
  revision 0 and its successor counts from there again, up to the revision a stale
  object still has (`recreated_session_is_overwritten`).
-/

import Flowly.Lib.Reach

namespace Flowly.Session.Revision

open Flowly.Lib

/-- A `Session` object: the `_session_revision` in its metadata. -/
structure Obj where
  revision : Nat
  /-- Ghost: the state of the file it is in step with. -/
  seen : Nat

structure St where
  /-- The revision in the canonical file, if there is one. -/
  disk : Option Nat
  objs : Nat → Obj := fun _ => ⟨0, 0⟩
  nextObj : Nat := 0
  /-- `_cache[key]` of each manager. -/
  cache : Nat → Option Nat := fun _ => none
  /-- Ghost: the number of the file's state. -/
  stamp : Nat := 0
  /-- Ghost: the state after the last delete. -/
  lastDelete : Nat := 0
  /-- Ghost: each save that succeeded: the state its object knew, the state it replaced. -/
  saves : List (Nat × Nat) := []

/-- A file found at the start may have any revision: 0 if it was written before there were any. -/
def start (disk : Option Nat) : St := { disk := disk }

/-- `_disk_revision_unlocked`: an absent file counts as revision 0. -/
def diskRevision (s : St) : Nat := s.disk.getD 0

/-- `_load(key) or Session(key=key)`: a new object in step with the file. -/
def load (s : St) : St × Nat :=
  ({ s with objs := Function.update s.objs s.nextObj ⟨diskRevision s, s.stamp⟩, nextObj := s.nextObj + 1 }, s.nextObj)

def setCache (s : St) (m : Nat) (o : Option Nat) : St := { s with cache := Function.update s.cache m o }

def getOrCreate (s : St) (m : Nat) : St :=
  match s.cache m with
  | some _ => s
  | none =>
    let (s, o) := load s
    setCache s m (some o)

def refresh (s : St) (m o : Nat) : St :=
  match s.disk with
  | none => s
  | some revision =>
    if revision ≤ (s.objs o).revision then s
    else setCache { s with objs := Function.update s.objs o ⟨revision, s.stamp⟩ } m (some o)

/-- The check of `_save_unlocked`. -/
def passes (s : St) (o : Nat) : Bool := diskRevision s = (s.objs o).revision

/-- `_save_unlocked` past the check: the file is replaced. -/
def replace (s : St) (m o : Nat) : St :=
  setCache
    { s with
      disk := some (diskRevision s + 1)
      objs := Function.update s.objs o ⟨diskRevision s + 1, s.stamp + 1⟩
      stamp := s.stamp + 1
      saves := ((s.objs o).seen, s.stamp) :: s.saves } m (some o)

def save (s : St) (m o : Nat) : St := if passes s o then replace s m o else s

def mutate (s : St) (m : Nat) : St :=
  let (s, o) := load s
  save s m o

def delete (s : St) (m : Nat) : St :=
  let s := setCache s m none
  match s.disk with
  | none => s
  | some _ => { s with disk := none, stamp := s.stamp + 1, lastDelete := s.stamp + 1 }

/-- What a manager does. A save or a mutation whose write or callback raises leaves all as it was. -/
inductive Ev where
  | getOrCreate (m : Nat)
  | read
  | evict (m : Nat)
  | refresh (m o : Nat)
  | mutate (m : Nat)
  | save (m o : Nat)
  | delete (m : Nat)
  | raise

def step (s : St) : Ev → St
  | .getOrCreate m => getOrCreate s m
  | .read => (load s).1
  | .evict m => setCache s m none
  | .refresh m o => if o < s.nextObj then refresh s m o else s
  | .mutate m => mutate s m
  | .save m o => if o < s.nextObj then save s m o else s
  | .delete m => delete s m
  | .raise => s

/-- No save meets the revision it expects after the file was deleted behind its object. -/
def NotDeletedBehind (s : St) : Ev → Prop
  | .save _ o => s.lastDelete ≤ (s.objs o).seen ∨ diskRevision s ≠ (s.objs o).revision
  | _ => True

/-- Each save replaced the state of the file its object was in step with. -/
def NoUpdateLost (s : St) : Prop := ∀ p ∈ s.saves, p.1 = p.2

/-! ## Revisions count the saves since the last delete -/

structure Inv (s : St) : Prop where
  deleted : s.lastDelete ≤ s.stamp
  seen : ∀ o < s.nextObj, (s.objs o).seen ≤ s.stamp
  /-- An object not behind a delete is as many revisions behind as there were saves since. -/
  behind : ∀ o < s.nextObj, s.lastDelete ≤ (s.objs o).seen →
    (s.objs o).revision + (s.stamp - (s.objs o).seen) = diskRevision s

theorem inv_start (disk : Option Nat) : Inv (start disk) := by
  refine ⟨Nat.le_refl _, ?_, ?_⟩
  · intro o ho
    exact absurd ho (Nat.not_lt_zero o)
  · intro o ho
    exact absurd ho (Nat.not_lt_zero o)

variable {s : St}

theorem setCache_inv (h : Inv s) (m : Nat) (o : Option Nat) : Inv (setCache s m o) := ⟨h.deleted, h.seen, h.behind⟩

theorem load_inv (h : Inv s) : Inv (load s).1 := by
  refine ⟨h.deleted, ?_, ?_⟩
  · intro o ho
    simp only [load] at ho ⊢
    by_cases hn : o = s.nextObj
    · subst hn
      simp
    · rw [Function.update_of_ne hn]
      exact h.seen o (by omega)
  · intro o ho hd
    simp only [load, diskRevision] at ho hd ⊢
    by_cases hn : o = s.nextObj
    · subst hn
      simp
    · rw [Function.update_of_ne hn] at hd ⊢
      exact h.behind o (by omega) hd

theorem refresh_inv (h : Inv s) (m : Nat) {o : Nat} (ho : o < s.nextObj) : Inv (refresh s m o) := by
  unfold refresh
  split
  · exact h
  · rename_i revision hdisk
    split
    · exact h
    · have h1 : Inv { s with objs := Function.update s.objs o ⟨revision, s.stamp⟩ } := by
        refine ⟨h.deleted, ?_, ?_⟩
        · intro o' ho'
          simp only at ho' ⊢
          by_cases hn : o' = o
          · subst hn
            simp
          · rw [Function.update_of_ne hn]
            exact h.seen o' ho'
        · intro o' ho' hd
          simp only [diskRevision] at ho' hd ⊢
          by_cases hn : o' = o
          · subst hn
            simp [hdisk]
          · rw [Function.update_of_ne hn] at hd ⊢
            exact h.behind o' ho' hd
      exact setCache_inv h1 m _

theorem replace_inv (h : Inv s) (m : Nat) {o : Nat} (ho : o < s.nextObj) : Inv (replace s m o) := by
  refine setCache_inv ⟨by simp only; have := h.deleted; omega, ?_, ?_⟩ m _
  · intro o' ho'
    simp only at ho' ⊢
    by_cases hn : o' = o
    · subst hn
      simp
    · rw [Function.update_of_ne hn]
      have := h.seen o' ho'
      omega
  · intro o' ho' hd
    simp only [diskRevision] at ho' hd ⊢
    by_cases hn : o' = o
    · subst hn
      simp
    · rw [Function.update_of_ne hn] at hd ⊢
      have h1 := h.seen o' ho'
      have h2 := h.behind o' ho' hd
      simp only [diskRevision] at h2
      simp only [Option.getD_some]
      omega

theorem save_inv (h : Inv s) (m : Nat) {o : Nat} (ho : o < s.nextObj) : Inv (save s m o) := by
  unfold save
  split
  · exact replace_inv h m ho
  · exact h

theorem delete_inv (h : Inv s) (m : Nat) : Inv (delete s m) := by
  unfold delete
  simp only
  split
  · exact setCache_inv h m none
  · refine ⟨Nat.le_refl _, ?_, ?_⟩
    · intro o ho
      have := h.seen o ho
      simp only [setCache]
      omega
    · intro o ho hd
      have := h.seen o ho
      simp only [setCache] at hd
      omega

theorem step_inv (h : Inv s) (e : Ev) : Inv (step s e) := by
  cases e with
  | getOrCreate m =>
    simp only [step, getOrCreate]
    split
    · exact h
    · exact setCache_inv (load_inv h) m _
  | read => exact load_inv h
  | evict m => exact setCache_inv h m none
  | refresh m o =>
    simp only [step]
    split
    · exact refresh_inv h m ‹_›
    · exact h
  | mutate m => exact save_inv (load_inv h) m (Nat.lt_succ_self _)
  | save m o =>
    simp only [step]
    split
    · exact save_inv h m ‹_›
    · exact h
  | delete m => exact delete_inv h m
  | raise => exact h

/-- A save that passes the check replaces the state its object knows, unless that state is
    behind a delete. -/
theorem passing_save_sound_iff (h : Inv s) {o : Nat} (ho : o < s.nextObj) (hp : passes s o = true) :
    (s.objs o).seen = s.stamp ↔ s.lastDelete ≤ (s.objs o).seen := by
  simp only [passes, decide_eq_true_eq] at hp
  constructor
  · intro hs
    rw [hs]
    exact h.deleted
  · intro hd
    have h1 := h.seen o ho
    have h2 := h.behind o ho hd
    omega

/-! ## No update is lost -/

theorem save_noUpdateLost (h : Inv s) (hl : NoUpdateLost s) (m : Nat) {o : Nat} (ho : o < s.nextObj)
    (hok : s.lastDelete ≤ (s.objs o).seen ∨ diskRevision s ≠ (s.objs o).revision) : NoUpdateLost (save s m o) := by
  unfold save
  split
  · rename_i hp
    intro p hin
    simp only [replace, setCache] at hin
    rcases List.mem_cons.mp hin with rfl | hin
    · have hd : s.lastDelete ≤ (s.objs o).seen := by
        rcases hok with hok | hok
        · exact hok
        · simp only [passes, decide_eq_true_eq] at hp
          exact absurd hp hok
      exact (passing_save_sound_iff h ho hp).mpr hd
    · exact hl p hin
  · exact hl

/-- A mutation loads what it replaces under the same lock. -/
theorem mutate_noUpdateLost (h : Inv s) (hl : NoUpdateLost s) (m : Nat) : NoUpdateLost (mutate s m) := by
  refine save_noUpdateLost (load_inv h) hl m (Nat.lt_succ_self _) (Or.inl ?_)
  simpa [load] using h.deleted

theorem step_noUpdateLost {e : Ev} (h : Inv s) (hl : NoUpdateLost s) (hok : NotDeletedBehind s e) :
    NoUpdateLost (step s e) := by
  cases e with
  | getOrCreate m =>
    simp only [step, getOrCreate]
    split <;> exact hl
  | read => exact hl
  | evict m => exact hl
  | refresh m o =>
    simp only [step, refresh]
    split
    · split
      · exact hl
      · split <;> exact hl
    · exact hl
  | mutate m => exact mutate_noUpdateLost h hl m
  | save m o =>
    simp only [step]
    split
    · exact save_noUpdateLost h hl m ‹_› hok
    · exact hl
  | delete m =>
    simp only [step, delete]
    split <;> exact hl
  | raise => exact hl

/-- Where no save passes the check behind a delete, every save and mutation replaces the very
    state of the file its object was in step with. -/
theorem no_update_lost {disk : Option Nat} {s : St} (h : Reach step NotDeletedBehind (start disk) s) :
    NoUpdateLost s := by
  have hstart : NoUpdateLost (start disk) := by
    intro p hp
    cases hp
  have hboth := h.invariant (P := fun s => Inv s ∧ NoUpdateLost s) ⟨inv_start disk, hstart⟩ fun s e hs hok =>
    ⟨step_inv hs.1 e, step_noUpdateLost hs.1 hs.2 hok⟩
  exact hboth.2

/-- In every run an object that is not behind a delete is as many revisions behind as saves. -/
theorem revisions_count {disk : Option Nat} {s : St} (h : Reach step (fun _ _ => True) (start disk) s) : Inv s :=
  h.invariant (inv_start disk) fun _ e hs _ => step_inv hs e

instance (s : St) (e : Ev) : Decidable (NotDeletedBehind s e) := by
  cases e <;> unfold NotDeletedBehind <;> exact inferInstance

def takingTurns : List Ev := [.getOrCreate 1, .save 1 0, .getOrCreate 2, .save 2 1, .refresh 1 0, .save 1 0]

theorem takingTurns_no_update_lost : NoUpdateLost (takingTurns.foldl step (start none)) :=
  no_update_lost (.foldl takingTurns (start none) .start (by decide))

/-- Manager 1 keeps its object while manager 2 deletes the session and starts it anew. -/
def recreated : List Ev := [.getOrCreate 1, .save 1 0, .delete 2, .getOrCreate 2, .save 2 1, .save 1 0]

theorem revisions_count_recreated : Inv (recreated.foldl step (start none)) :=
  revisions_count (Reach.free _ _)

/-- The last save replaces the new session, which its object has never seen. -/
theorem recreated_session_is_overwritten : ¬ NoUpdateLost (recreated.foldl step (start none)) := by
  intro h
  have hsave : (1, 3) ∈ (recreated.foldl step (start none)).saves := by decide
  exact absurd (h (1, 3) hsave) (by decide)

end Flowly.Session.Revision
