/-
  Flowly.Lib.Tally — counters over the rows of a table: what a weight of the rows adds up
  to when rows are appended, replaced or edited in place.
-/

import Mathlib.Algebra.GroupWithZero.Nat
import Mathlib.Data.List.Forall2
import Mathlib.Algebra.BigOperators.Group.List.Basic

namespace Flowly.Lib

variable {α : Type}

def tally (w : α → Nat) (l : List α) : Nat := (l.map w).sum

namespace Tally

variable {w : α → Nat} {l l' : List α} {a b : α}

theorem append : tally w (l ++ l') = tally w l + tally w l' := by
  unfold tally
  rw [List.map_append, List.sum_append]

theorem singleton : tally w [a] = w a := by
  unfold tally
  rw [List.map_singleton, List.sum_singleton]

theorem cons : tally w (a :: l) = w a + tally w l := by
  unfold tally
  rw [List.map_cons, List.sum_cons]

/-- One row takes the place of another. -/
theorem set {k : Nat} (h : l[k]? = some a) : tally w (l.set k b) + w a = tally w l + w b := by
  induction l generalizing k with
  | nil => simp at h
  | cons c l ih =>
    cases k with
    | zero =>
      obtain rfl : c = a := by simpa using h
      rw [List.set_cons_zero, cons, cons]
      omega
    | succ k =>
      have := ih (k := k) (by simpa using h)
      rw [List.set_cons_succ, cons, cons]
      omega

/-- Rows of the same weights. -/
theorem congr (h : List.Forall₂ (fun a b => w a = w b) l l') : tally w l = tally w l' := by
  induction h with
  | nil => rfl
  | cons hab _ ih => rw [cons, cons, hab, ih]

/-- What is counted is a weight of one. -/
theorem countP (p : α → Bool) : l.countP p = tally (fun a => if p a then 1 else 0) l := by
  induction l with
  | nil => rfl
  | cons a l ih =>
    rw [cons, List.countP_cons, ih]
    omega

/-- What is summed up over some of the rows. -/
theorem filter (p : α → Bool) (f : α → Nat) : ((l.filter p).map f).sum = tally (fun a => if p a then f a else 0) l := by
  induction l with
  | nil => rfl
  | cons a l ih =>
    rw [cons, List.filter_cons]
    split_ifs
    · rw [List.map_cons, List.sum_cons, ih]
    · rw [ih]
      omega

end Tally

/-! ## Tables edited in place -/

section Rows

variable {R : α → α → Prop} {l l' : List α} {a b : α}

theorem forall₂_refl (hR : ∀ a, R a a) (l : List α) : List.Forall₂ R l l := by
  induction l with
  | nil => exact .nil
  | cons a l ih => exact .cons (hR a) ih

theorem forall₂_map (f : α → α) (hf : ∀ a ∈ l, R a (f a)) : List.Forall₂ R l (l.map f) := by
  induction l with
  | nil => exact .nil
  | cons a l ih => exact .cons (hf a List.mem_cons_self) (ih fun b hb => hf b (List.mem_cons_of_mem _ hb))

theorem forall₂_set (hR : ∀ a, R a a) {k : Nat} (h : l[k]? = some a) (hab : R a b) : List.Forall₂ R l (l.set k b) := by
  induction l generalizing k with
  | nil => simp at h
  | cons c l ih =>
    cases k with
    | zero =>
      obtain rfl : c = a := by simpa using h
      exact .cons hab (forall₂_refl hR l)
    | succ k => exact .cons (hR c) (ih (by simpa using h))

theorem forall₂_modify (hR : ∀ a, R a a) (k : Nat) (f : α → α) (hf : ∀ a, R a (f a)) : List.Forall₂ R l (l.modify k f) := by
  induction l generalizing k with
  | nil => simp
  | cons c l ih =>
    cases k with
    | zero =>
      rw [List.modify_zero_cons]
      exact .cons (hf c) (forall₂_refl hR l)
    | succ k =>
      rw [List.modify_succ_cons]
      exact .cons (hR c) (ih k)

/-- A row and what has become of it. -/
theorem forall₂_getElem {k : Nat} (h : List.Forall₂ R l l') (ha : l[k]? = some a) : ∃ b, l'[k]? = some b ∧ R a b := by
  induction h generalizing k with
  | nil => simp at ha
  | cons hab _ ih =>
    cases k with
    | zero =>
      obtain rfl := by simpa using ha
      exact ⟨_, rfl, hab⟩
    | succ k => exact ih (by simpa using ha)

theorem forall₂_getElem' {k : Nat} (h : List.Forall₂ R l l') (hb : l'[k]? = some b) : ∃ a, l[k]? = some a ∧ R a b :=
  forall₂_getElem h.flip hb

theorem forall₂_mem (h : List.Forall₂ R l l') (ha : a ∈ l) : ∃ b ∈ l', R a b := by
  obtain ⟨k, hk⟩ := List.getElem?_of_mem ha
  obtain ⟨b, hb, hab⟩ := forall₂_getElem h hk
  exact ⟨b, List.mem_of_getElem? hb, hab⟩

theorem forall₂_mem' (h : List.Forall₂ R l l') (hb : b ∈ l') : ∃ a ∈ l, R a b := by
  obtain ⟨k, hk⟩ := List.getElem?_of_mem hb
  obtain ⟨a, ha, hab⟩ := forall₂_getElem' h hk
  exact ⟨a, List.mem_of_getElem? ha, hab⟩

theorem forall₂_trans {l₁ l₂ l₃ : List α} (hR : ∀ a b c, R a b → R b c → R a c) (h : List.Forall₂ R l₁ l₂)
    (h' : List.Forall₂ R l₂ l₃) : List.Forall₂ R l₁ l₃ := by
  induction h generalizing l₃ with
  | nil => cases h'; exact .nil
  | cons hab _ ih =>
    cases h' with
    | cons hbc hrest => exact .cons (hR _ _ _ hab hbc) (ih hrest)

/-- What every row keeps, the list of it keeps. -/
theorem forall₂_map_eq {β : Type} {f : α → β} (h : List.Forall₂ R l l') (hf : ∀ a b, R a b → f b = f a) : l'.map f = l.map f := by
  induction h with
  | nil => rfl
  | cons hab _ ih => rw [List.map_cons, List.map_cons, hf _ _ hab, ih]

end Rows

end Flowly.Lib
