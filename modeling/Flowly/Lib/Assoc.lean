/-
  Flowly.Lib.Assoc — a dict as a list of pairs, in insertion order: what a lookup finds
  when no key comes twice.
-/

import Mathlib.Data.List.Basic

namespace Flowly.Lib.Assoc

variable {κ α : Type} [DecidableEq κ] {d : List (κ × α)} {k : κ} {v : α}

theorem mem_of_lookup (h : d.lookup k = some v) : (k, v) ∈ d := by
  obtain ⟨front, back, rfl, -⟩ := List.lookup_eq_some_iff.mp h
  simp

theorem lookup_of_mem (hd : (d.map (·.1)).Nodup) (h : (k, v) ∈ d) : d.lookup k = some v := by
  induction d with
  | nil => cases h
  | cons p d ih =>
    obtain ⟨hp, hd'⟩ := List.nodup_cons.mp hd
    rw [List.lookup_cons]
    rcases List.mem_cons.mp h with rfl | h
    · simp
    · have hk : k ≠ p.1 := by
        intro he
        exact hp (List.mem_map.mpr ⟨(k, v), h, he⟩)
      rw [beq_false_of_ne hk]
      exact ih hd' h

theorem lookup_map {β : Type} (f : α → β) : (d.map fun a => (a.1, f a.2)).lookup k = (d.lookup k).map f := by
  induction d with
  | nil => rfl
  | cons a d ih =>
    rw [List.map_cons, List.lookup_cons, List.lookup_cons]
    by_cases ha : k = a.1
    · simp [ha]
    · rw [beq_false_of_ne ha]
      exact ih

/-- Entries under other keys may go. -/
theorem lookup_filter {p : κ × α → Bool} (hp : ∀ a ∈ d, a.1 = k → p a = true) :
    (d.filter p).lookup k = d.lookup k := by
  induction d with
  | nil => rfl
  | cons a d ih =>
    have ih' := ih fun b hb => hp b (List.mem_cons_of_mem _ hb)
    rw [List.filter_cons, List.lookup_cons]
    by_cases ha : k = a.1
    · rw [if_pos (hp a List.mem_cons_self ha.symm), List.lookup_cons, ← ha]
      simp
    · rw [beq_false_of_ne ha]
      split
      · rw [List.lookup_cons, beq_false_of_ne ha]
        exact ih'
      · exact ih'

theorem lookup_cons_ite (a : κ × α) (d : List (κ × α)) (k : κ) : (a :: d).lookup k = if k = a.1 then some a.2 else d.lookup k := by
  rw [List.lookup_cons]
  split_ifs with h
  · simp [h]
  · rw [beq_false_of_ne h]

/-- The entry of a key, in its place where the key is known and at the end where it is new. -/
def put (d : List (κ × α)) (k : κ) (v : α) : List (κ × α) :=
  if d.any (·.1 = k) then d.map fun a => if a.1 = k then (k, v) else a else d ++ [(k, v)]

theorem lookup_put (d : List (κ × α)) (k k' : κ) (v : α) :
    (put d k v).lookup k' = if k' = k then some v else d.lookup k' := by
  have hmap (d : List (κ × α)) : (d.map fun a => if a.1 = k then (k, v) else a).lookup k' =
      if k' = k ∧ d.any (·.1 = k) = true then some v else d.lookup k' := by
    induction d with
    | nil => simp
    | cons a d ih =>
      rw [List.map_cons, List.any_cons, lookup_cons_ite, lookup_cons_ite, ih]
      by_cases hk : k' = k
      · subst hk
        by_cases ha : a.1 = k'
        · simp [ha]
        · rw [if_neg (Ne.symm ha), decide_eq_false ha, Bool.false_or, if_neg ha]
          simp [Ne.symm ha]
      · by_cases ha : a.1 = k <;> simp [ha, hk]
  unfold put
  split_ifs with hin hk hk
  · rw [hmap, if_pos ⟨hk, hin⟩]
  · rw [hmap, if_neg fun h => hk h.1]
  · have hnone : d.lookup k' = none := by
      rw [List.lookup_eq_none_iff]
      intro a ha
      simp only [List.any_eq_true, decide_eq_true_eq, not_exists, not_and] at hin
      simpa using fun h => hin a ha (h.symm.trans hk)
    rw [List.lookup_append, hnone, lookup_cons_ite, if_pos hk]
    rfl
  · rw [List.lookup_append, lookup_cons_ite, if_neg hk]
    simp

/-- The entries of a key are gone. -/
theorem lookup_erase (d : List (κ × α)) (k k' : κ) :
    (d.filter (·.1 ≠ k)).lookup k' = if k' = k then none else d.lookup k' := by
  split_ifs with h
  · subst h
    rw [List.lookup_eq_none_iff]
    intro a ha
    have := (List.mem_filter.1 ha).2
    simp only [ne_eq, decide_not, Bool.not_eq_eq_eq_not, Bool.not_true, decide_eq_false_iff_not] at this
    simpa using fun h => this h.symm
  · refine lookup_filter fun a _ ha => ?_
    simpa [ha] using h

end Flowly.Lib.Assoc
