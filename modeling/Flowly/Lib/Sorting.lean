/-
  Flowly.Lib.Sorting — the first of a sorted list, and what a strictly sorted list holds.

  `insertionSort` keeps equal elements in order, so its head is the first of the least.
  An element put into the list becomes the head or leaves it as it was
  (`head?_insertionSort_insert`).
-/

import Mathlib.Data.List.Perm.Subperm
import Mathlib.Data.List.Sort

namespace Flowly.Lib.Sorting

variable {α : Type} {r : α → α → Prop} [DecidableRel r]

theorem head?_insertionSort_mem {l : List α} {a : α} (h : (l.insertionSort r).head? = some a) : a ∈ l :=
  (List.perm_insertionSort r l).mem_iff.mp (List.mem_of_mem_head? h)

theorem head?_insertionSort_cons {a : α} {l : List α} :
    ((a :: l).insertionSort r).head? =
      match (l.insertionSort r).head? with
      | none => some a
      | some b => if r a b then some a else some b := by
  rw [List.insertionSort_cons]
  cases l.insertionSort r with
  | nil => rfl
  | cons b rest =>
    rw [List.orderedInsert_cons]
    by_cases hab : r a b <;> simp [hab]

/-- The head is related to every element. -/
theorem head?_insertionSort_le (total : ∀ a b, r a b ∨ r b a) (trans : ∀ a b c, r a b → r b c → r a c) {l : List α} {a : α}
    (h : (l.insertionSort r).head? = some a) : ∀ b ∈ l, r a b := by
  induction l generalizing a with
  | nil => intro b hb; cases hb
  | cons x l ih =>
    rw [head?_insertionSort_cons] at h
    intro b hb
    have hrefl : r x x := (total x x).elim id id
    cases hl : (l.insertionSort r).head? with
    | none =>
      rw [hl] at h
      cases h
      have hnil : l = [] := by
        have hsorted := List.head?_eq_none_iff.mp hl
        have hlen := List.length_insertionSort r l
        rw [hsorted] at hlen
        exact List.eq_nil_of_length_eq_zero hlen.symm
      subst hnil
      cases List.mem_singleton.mp hb
      exact hrefl
    | some y =>
      rw [hl] at h
      dsimp only at h
      by_cases hxy : r x y
      · rw [if_pos hxy] at h
        cases h
        rcases List.mem_cons.mp hb with rfl | hb
        · exact hrefl
        · exact trans _ _ _ hxy (ih hl b hb)
      · rw [if_neg hxy] at h
        cases h
        rcases List.mem_cons.mp hb with rfl | hb
        · exact (total _ _).resolve_left hxy
        · exact ih hl b hb

/-- One more element is the head, or the head is as before. -/
theorem head?_insertionSort_insert (total : ∀ a b, r a b ∨ r b a) (trans : ∀ a b c, r a b → r b c → r a c) {x : α}
    {l₂ : List α} : ∀ {l₁ : List α}, ((l₁ ++ x :: l₂).insertionSort r).head? = some x ∨
      ((l₁ ++ x :: l₂).insertionSort r).head? = ((l₁ ++ l₂).insertionSort r).head? := by
  intro l₁
  induction l₁ with
  | nil =>
    show ((x :: l₂).insertionSort r).head? = _ ∨ ((x :: l₂).insertionSort r).head? = _
    rw [head?_insertionSort_cons, List.nil_append]
    cases (l₂.insertionSort r).head? with
    | none => exact .inl rfl
    | some y =>
      by_cases hxy : r x y
      · exact .inl (if_pos hxy)
      · exact .inr (if_neg hxy)
  | cons a l₁ ih =>
    show ((a :: (l₁ ++ x :: l₂)).insertionSort r).head? = _ ∨ ((a :: (l₁ ++ x :: l₂)).insertionSort r).head? =
      ((a :: (l₁ ++ l₂)).insertionSort r).head?
    rw [head?_insertionSort_cons, head?_insertionSort_cons]
    rcases ih with hx | hsame
    · rw [hx]
      dsimp only
      by_cases hax : r a x
      · refine .inr ?_
        rw [if_pos hax]
        cases hl : ((l₁ ++ l₂).insertionSort r).head? with
        | none => rfl
        | some y =>
          have hy := head?_insertionSort_mem hl
          have hxy : r x y := by
            refine head?_insertionSort_le total trans hx y ?_
            rcases List.mem_append.mp hy with hy | hy
            · exact List.mem_append_left _ hy
            · exact List.mem_append_right _ (List.mem_cons_of_mem _ hy)
          exact (if_pos (trans _ _ _ hax hxy)).symm
      · exact .inl (if_neg hax)
    · rw [hsame]
      exact .inr rfl

/-- An element strictly before all others is the head. -/
theorem head?_insertionSort_eq (total : ∀ a b, r a b ∨ r b a) (trans : ∀ a b c, r a b → r b c → r a c) {l : List α} {x : α}
    (hx : x ∈ l) (h : ∀ b ∈ l, b = x ∨ ¬ r b x) : (l.insertionSort r).head? = some x := by
  cases hl : (l.insertionSort r).head? with
  | none =>
    have hsorted := List.head?_eq_none_iff.mp hl
    have hmem := (List.perm_insertionSort r l).mem_iff.mpr hx
    rw [hsorted] at hmem
    cases hmem
  | some y =>
    have hyx := head?_insertionSort_le total trans hl x hx
    rcases h y (head?_insertionSort_mem hl) with rfl | hno
    · rfl
    · exact absurd hyx hno

/-- Among strictly sorted lists, the elements say which is a part of which. -/
theorem sublist_of_subset {f : α → Nat} {l l' : List α} (h : l.Pairwise fun a b => f a < f b)
    (h' : l'.Pairwise fun a b => f a < f b) (hsub : l ⊆ l') : l.Sublist l' := by
  have : Std.Antisymm fun a b : α => f a < f b := ⟨fun _ _ hab hba => absurd hab (Nat.lt_asymm hba)⟩
  have hnodup : l.Nodup := h.imp fun hab heq => absurd (congrArg f heq) (Nat.ne_of_lt hab)
  exact List.sublist_of_subperm_of_pairwise (hnodup.subperm hsub) h h'

end Flowly.Lib.Sorting
