/-
  Flowly.Lib.Missing — the items of a list whose keys are not known yet, each key once: what
  a merge appends to the list that the known keys are from.
-/

import Mathlib.Data.List.Nodup

namespace Flowly.Lib

variable {α κ : Type*} [DecidableEq κ]

def missing (key : α → κ) (known : List κ) : List α → List α
  | [] => []
  | x :: xs => if key x ∈ known then missing key known xs else x :: missing key (known ++ [key x]) xs

variable {key : α → κ} {known : List κ} {xs : List α}

theorem missing_sublist (key : α → κ) (known : List κ) (xs : List α) : List.Sublist (missing key known xs) xs := by
  induction xs generalizing known with
  | nil => exact .slnil
  | cons x xs ih =>
    rw [missing]
    split
    · exact (ih known).cons x
    · exact (ih _).cons_cons x

theorem missing_not_known {x : α} (h : x ∈ missing key known xs) : key x ∉ known := by
  induction xs generalizing known with
  | nil => cases h
  | cons y xs ih =>
    rw [missing] at h
    split at h
    · exact ih h
    · rename_i hy
      rcases List.mem_cons.mp h with rfl | h
      · exact hy
      · exact fun hin => ih h (List.mem_append_left _ hin)

theorem missing_nodup (key : α → κ) (known : List κ) (xs : List α) : ((missing key known xs).map key).Nodup := by
  induction xs generalizing known with
  | nil => exact .nil
  | cons x xs ih =>
    rw [missing]
    split
    · exact ih known
    · refine List.nodup_cons.mpr ⟨fun hin => ?_, ih _⟩
      obtain ⟨y, hy, hkey⟩ := List.mem_map.mp hin
      exact missing_not_known hy (hkey ▸ List.mem_append_right _ (List.mem_singleton_self _))

/-- Every item's key is known afterwards. -/
theorem key_known {x : α} (h : x ∈ xs) : key x ∈ known ++ (missing key known xs).map key := by
  induction xs generalizing known with
  | nil => cases h
  | cons y xs ih =>
    rw [missing]
    split
    · rename_i hy
      rcases List.mem_cons.mp h with rfl | h
      · exact List.mem_append_left _ hy
      · exact ih h
    · have hmore : known ++ (y :: missing key (known ++ [key y]) xs).map key =
          (known ++ [key y]) ++ (missing key (known ++ [key y]) xs).map key := by
        simp
      rw [hmore]
      rcases List.mem_cons.mp h with rfl | h
      · exact List.mem_append_left _ (List.mem_append_right _ (List.mem_singleton_self _))
      · exact ih h

/-- An item stays where neither the known keys nor those of the items before it have its key. -/
theorem mem_missing {x : α} :
    x ∈ missing key known xs ↔ ∃ before after, xs = before ++ x :: after ∧ key x ∉ known ++ before.map key := by
  induction xs generalizing known with
  | nil => simp [missing]
  | cons y xs ih =>
    rw [missing]
    split
    · rename_i hy
      rw [ih]
      constructor
      · rintro ⟨before, after, rfl, hx⟩
        refine ⟨y :: before, after, rfl, fun hin => hx ?_⟩
        simp only [List.map_cons, List.mem_append, List.mem_cons] at hin ⊢
        rcases hin with hin | heq | hin
        · exact Or.inl hin
        · exact Or.inl (heq ▸ hy)
        · exact Or.inr hin
      · rintro ⟨_ | ⟨z, before⟩, after, heq, hx⟩
        · obtain ⟨rfl, rfl⟩ := List.cons.inj heq
          exact absurd (List.mem_append_left _ hy) hx
        · obtain ⟨rfl, rfl⟩ := List.cons.inj heq
          refine ⟨before, after, rfl, fun hin => hx ?_⟩
          simp only [List.map_cons, List.mem_append, List.mem_cons] at hin ⊢
          exact hin.elim Or.inl fun h => Or.inr (Or.inr h)
    · rename_i hy
      rw [List.mem_cons, ih]
      constructor
      · rintro (rfl | ⟨before, after, rfl, hx⟩)
        · exact ⟨[], xs, rfl, by simpa using hy⟩
        · exact ⟨y :: before, after, rfl, by simpa using hx⟩
      · rintro ⟨_ | ⟨z, before⟩, after, heq, hx⟩
        · exact Or.inl (List.cons.inj heq).1.symm
        · obtain ⟨rfl, rfl⟩ := List.cons.inj heq
          exact Or.inr ⟨before, after, rfl, by simpa using hx⟩

end Flowly.Lib
