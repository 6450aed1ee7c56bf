/-
  Flowly.Goals.Store — the goal store of one conversation (`flowly/goals/store.py`:
  `get`, `update`, `compare_and_update`).

  The file holds the newest record; the older ones are kept here for the theorems. Every
  transaction holds the file lock, so it is one step, and every commit raises the revision.
-/

import Flowly.Goals.Models
import Flowly.Lib.Versioned

namespace Flowly.Goals

open Flowly.Lib

structure GoalStore where
  /-- The committed records, the newest first. -/
  history : List GoalState := []

namespace GoalStore

def get (s : GoalStore) : Option GoalState := s.history.head?

def checkPreconditions (state : Option GoalState) (expectedGoalId : Option String) (expectedRevision : Option Nat) :
    Except GoalError Unit :=
  if expectedGoalId.isSome ∧ state.map (·.goalId) ≠ expectedGoalId then .error (.conflict "goal generation changed")
  else if expectedRevision.isSome ∧ state.map (·.revision) ≠ expectedRevision then
    .error (.conflict "goal revision changed")
  else .ok ()

/-- What `update` writes when the mutation returns `updated`. -/
def committed (s : GoalStore) (now : Int) (updated : GoalState) : GoalState :=
  ({ updated with revision := (s.get.map GoalState.revision).getD 0 + 1, updatedAt := now } : GoalState).clone

def push (s : GoalStore) (state : GoalState) : GoalStore := ⟨state :: s.history⟩

def update (s : GoalStore) (now : Int) (mutation : Option GoalState → Except GoalError GoalState)
    (expectedGoalId : Option String) (expectedRevision : Option Nat) : Except GoalError (GoalState × GoalStore) := do
  checkPreconditions s.get expectedGoalId expectedRevision
  let updated ← mutation s.get
  let saved := s.committed now updated
  return (saved, s.push saved)

def compareAndUpdate (s : GoalStore) (now : Int) (snapshot : GoalState) (mutation : GoalState → Except GoalError GoalState) :
    Except GoalError (GoalState × GoalStore) :=
  s.update now
    (fun current =>
      match current with
      | none => .error (.conflict "goal no longer exists")
      | some state => mutation state)
    (some snapshot.goalId) (some snapshot.revision)

def Ordered (s : GoalStore) : Prop := Versioned (·.revision) s.history

variable {s s' : GoalStore} {now : Int} {r u snapshot current : GoalState}
  {mutation : Option GoalState → Except GoalError GoalState} {change : GoalState → Except GoalError GoalState}
  {expectedGoalId : Option String} {expectedRevision : Option Nat}

@[simp] theorem committed_goalId : (s.committed now u).goalId = u.goalId := rfl

@[simp] theorem committed_status : (s.committed now u).status = u.status := rfl

@[simp] theorem committed_gateSpecs : (s.committed now u).gateSpecs = u.gateSpecs := by
  unfold committed
  rw [GoalState.clone_gateSpecs]
  rfl

theorem committed_revision (h : s.get = some current) : (s.committed now u).revision = current.revision + 1 := by
  show (s.get.map GoalState.revision).getD 0 + 1 = current.revision + 1
  rw [h]
  rfl

theorem mem_of_get (h : s.get = some r) : r ∈ s.history := List.mem_of_mem_head? h

theorem checkPreconditions_ok {state : Option GoalState} (h : checkPreconditions state expectedGoalId expectedRevision = .ok ()) :
    (∀ g, expectedGoalId = some g → state.map (·.goalId) = some g) ∧
      ∀ n, expectedRevision = some n → state.map (·.revision) = some n := by
  unfold checkPreconditions at h
  split_ifs at h with hid hrev
  refine ⟨?_, ?_⟩
  · intro g hg
    subst hg
    simpa using hid
  · intro n hn
    subst hn
    simpa using hrev

/-- What an update that succeeds has done. -/
theorem update_ok (h : s.update now mutation expectedGoalId expectedRevision = .ok (r, s')) :
    checkPreconditions s.get expectedGoalId expectedRevision = .ok () ∧
      ∃ u, mutation s.get = .ok u ∧ r = s.committed now u ∧ s' = s.push r := by
  unfold update at h
  rcases hp : checkPreconditions s.get expectedGoalId expectedRevision with e | u
  · rw [hp] at h
    cases h
  · rcases hm : mutation s.get with e | u
    · rw [hp, hm] at h
      cases h
    · rw [hp, hm] at h
      cases h
      exact ⟨rfl, u, rfl, rfl, rfl⟩

/-- A compare-and-set that succeeds found a record of the snapshot's revision. -/
theorem compareAndUpdate_ok (h : s.compareAndUpdate now snapshot change = .ok (r, s')) :
    ∃ current u, s.get = some current ∧ current.goalId = snapshot.goalId ∧ current.revision = snapshot.revision ∧
      change current = .ok u ∧ r = s.committed now u ∧ s' = s.push r := by
  obtain ⟨hpre, u, hu, hr, hs⟩ := update_ok h
  obtain ⟨hid, hrev⟩ := checkPreconditions_ok hpre
  rcases hg : s.get with _ | current
  · rw [hg] at hu
    cases hu
  · rw [hg] at hu hid hrev
    exact ⟨current, u, rfl, by simpa using hid _ rfl, by simpa using hrev _ rfl, hu, hr, hs⟩

namespace Ordered

theorem push_committed (h : s.Ordered) (now : Int) (u : GoalState) : (s.push (s.committed now u)).Ordered := by
  refine Versioned.push h ?_
  intro c hc
  rw [committed_revision (s := s) hc]
  exact Nat.lt_succ_self _

/-- No commit came between the snapshot and a compare-and-set that succeeds. -/
theorem compareAndUpdate (h : s.Ordered) (hmem : snapshot ∈ s.history)
    (hc : s.compareAndUpdate now snapshot change = .ok (r, s')) :
    s.get = some snapshot ∧ ∃ u, change snapshot = .ok u ∧ r = s.committed now u ∧ s' = s.push r := by
  obtain ⟨current, u, hget, _, hrev, hu, hr, hs⟩ := compareAndUpdate_ok hc
  obtain rfl : snapshot = current := Versioned.eq_head h hget hmem hrev
  exact ⟨hget, u, hu, hr, hs⟩

end Ordered

end GoalStore

end Flowly.Goals
