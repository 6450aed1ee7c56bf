/-
  Flowly.Lib.Keyed — records that carry their own key, each key once: the list of a
  dict's values in insertion order, and what building one from records does.
-/

import Mathlib.Data.List.Nodup

namespace Flowly.Lib.Keyed

variable {α κ : Type} {key : α → κ}

/-- Replacing elements by ones with the same key. -/
theorem nodup_keys_map {xs : List α} (hn : (xs.map key).Nodup) {f : α → α}
    (hf : ∀ x, key (f x) = key x) : ((xs.map f).map key).Nodup := by
  rw [List.map_map]
  simpa [Function.comp_def, hf] using hn

/-- One more element, with a key of its own. -/
theorem nodup_keys_snoc {xs : List α} (hn : (xs.map key).Nodup) {x : α}
    (hnew : ∀ y ∈ xs, key y ≠ key x) : ((xs ++ [x]).map key).Nodup := by
  rw [List.map_append, List.nodup_append]
  refine ⟨hn, by simp, ?_⟩
  intro i hi j hj
  obtain ⟨y, hy, rfl⟩ := List.mem_map.mp hi
  rw [List.map_singleton, List.mem_singleton] at hj
  exact hj ▸ hnew y hy

variable [DecidableEq κ]

/-- `d[key x] = x`. -/
def put (key : α → κ) (d : List α) (x : α) : List α :=
  if d.any (key · = key x) then d.map fun y => if key y = key x then x else y else d ++ [x]

/-- `d.update(xs)`. -/
def update (key : α → κ) (d xs : List α) : List α := xs.foldl (put key) d

def dictOf (key : α → κ) (xs : List α) : List α := update key [] xs

theorem nodup_put {d : List α} (hd : (d.map key).Nodup) (x : α) : ((put key d x).map key).Nodup := by
  unfold put
  split
  · refine nodup_keys_map hd fun y => ?_
    split
    · rename_i hy
      exact hy.symm
    · rfl
  · rename_i hnew
    refine nodup_keys_snoc hd fun y hy he => hnew ?_
    exact List.any_eq_true.2 ⟨y, hy, by simpa using he⟩

theorem nodup_update {d : List α} (hd : (d.map key).Nodup) (xs : List α) : ((update key d xs).map key).Nodup := by
  induction xs generalizing d with
  | nil => exact hd
  | cons x xs ih => exact ih (nodup_put hd x)

theorem nodup_dictOf (xs : List α) : ((dictOf key xs).map key).Nodup := nodup_update (d := []) List.nodup_nil xs

theorem mem_update {d xs : List α} {y : α} (h : y ∈ update key d xs) : y ∈ d ∨ y ∈ xs := by
  induction xs generalizing d with
  | nil => exact .inl h
  | cons x xs ih =>
    rcases ih h with hput | hxs
    · unfold put at hput
      split at hput
      · obtain ⟨z, hz, rfl⟩ := List.mem_map.1 hput
        split
        · exact .inr List.mem_cons_self
        · exact .inl hz
      · rcases List.mem_append.1 hput with hd | hx
        · exact .inl hd
        · exact .inr (List.mem_singleton.1 hx ▸ List.mem_cons_self)
    · exact .inr (List.mem_cons_of_mem _ hxs)

theorem update_perm {d d' : List α} (h : d.Perm d') (xs : List α) : (update key d xs).Perm (update key d' xs) := by
  induction xs generalizing d d' with
  | nil => exact h
  | cons x xs ih =>
    refine ih ?_
    unfold put
    rw [h.any_eq]
    split
    · exact h.map _
    · exact h.append_right _

/-- What was a dict is read as it is. -/
theorem dictOf_nodup {xs : List α} (h : (xs.map key).Nodup) : dictOf key xs = xs := by
  suffices hfold : ∀ d : List α, ((d ++ xs).map key).Nodup → xs.foldl (put key) d = d ++ xs by
    exact hfold [] h
  clear h
  induction xs with
  | nil => simp
  | cons x xs ih =>
    intro d hd
    have hput : put key d x = d ++ [x] := by
      refine if_neg fun hany => ?_
      obtain ⟨y, hy, he⟩ := List.any_eq_true.1 hany
      rw [List.map_append, List.nodup_append] at hd
      exact hd.2.2 (key y) (List.mem_map_of_mem hy) (key x) (List.mem_map_of_mem List.mem_cons_self) (by simpa using he)
    have hd' : ((d ++ [x] ++ xs).map key).Nodup := by simpa using hd
    rw [List.foldl_cons, hput, ih _ hd', List.append_assoc, List.singleton_append]

end Flowly.Lib.Keyed
