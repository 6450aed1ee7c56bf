/-
  Flowly.Lib.Groups — a dict of lists, with its keys in the order of their first use: what
  `setdefault(k, []).append(x)` makes of a list of records.

  `firsts` are the keys; `values_addAll` is what a key has, `total_addAll` says that no record
  is lost, and `firsts_append_sorted_iff` when the keys stand in order.
-/

import Mathlib.Algebra.BigOperators.Group.List.Basic
import Mathlib.Data.List.Nodup
import Mathlib.Order.Lattice

namespace Flowly.Lib.Groups

variable {κ α : Type} [DecidableEq κ]

/-- `if k not in seen: keys.append(k)`. -/
def push (ks : List κ) (k : κ) : List κ := if k ∈ ks then ks else ks ++ [k]

def firsts (xs : List κ) : List κ := xs.foldl push []

/-- `d.setdefault(k, []).append(x)`. -/
def add (d : List (κ × List α)) (k : κ) (x : α) : List (κ × List α) :=
  if k ∈ d.map (·.1) then d.map fun g => if g.1 = k then (g.1, g.2 ++ [x]) else g else d ++ [(k, [x])]

def addAll (key : α → κ) (d : List (κ × List α)) (xs : List α) : List (κ × List α) := xs.foldl (fun d x => add d (key x) x) d

/-! ## The keys -/

section Keys

variable {ks xs ys : List κ} {k x : κ}

theorem mem_push : x ∈ push ks k ↔ x ∈ ks ∨ x = k := by
  unfold push
  split_ifs with h
  · exact ⟨.inl, fun hx => hx.elim id fun he => he ▸ h⟩
  · rw [List.mem_append, List.mem_singleton]

theorem nodup_push (h : ks.Nodup) : (push ks k).Nodup := by
  unfold push
  split_ifs with hk
  · exact h
  · refine List.nodup_append.2 ⟨h, List.nodup_singleton k, fun a ha b hb => ?_⟩
    obtain rfl := List.mem_singleton.1 hb
    rintro rfl
    exact hk ha

theorem mem_foldl_push : x ∈ xs.foldl push ks ↔ x ∈ ks ∨ x ∈ xs := by
  induction xs generalizing ks with
  | nil => simp
  | cons y xs ih =>
    rw [List.foldl_cons, ih, mem_push, List.mem_cons]
    tauto

theorem nodup_foldl_push (h : ks.Nodup) : (xs.foldl push ks).Nodup := by
  induction xs generalizing ks with
  | nil => exact h
  | cons y xs ih => exact ih (nodup_push h)

theorem mem_firsts : x ∈ firsts xs ↔ x ∈ xs := by
  unfold firsts
  rw [mem_foldl_push]
  simp

theorem nodup_firsts (xs : List κ) : (firsts xs).Nodup := nodup_foldl_push List.nodup_nil

theorem firsts_append : firsts (xs ++ ys) = ys.foldl push (firsts xs) := List.foldl_append

/-- Keys that come each after all it is to come after: the keys before `k` are less, or `k` was there. -/
theorem foldl_push_sorted_iff [LinearOrder κ] : (xs.foldl push ks).Pairwise (· < ·) ↔
    ks.Pairwise (· < ·) ∧ ∀ before k after, xs = before ++ k :: after → (∀ x ∈ ks ++ before, x < k) ∨ k ∈ ks ++ before := by
  induction xs generalizing ks with
  | nil =>
    refine ⟨fun h => ⟨h, fun before k after he => ?_⟩, fun h => h.1⟩
    exact absurd he.symm (by simp)
  | cons y xs ih =>
    rw [List.foldl_cons, ih]
    constructor
    · rintro ⟨hks, hrest⟩
      have hpush : ks.Pairwise (· < ·) ∧ ((∀ x ∈ ks, x < y) ∨ y ∈ ks) := by
        unfold push at hks
        split_ifs at hks with hy
        · exact ⟨hks, .inr hy⟩
        · obtain ⟨hold, -, hlt⟩ := List.pairwise_append.1 hks
          exact ⟨hold, .inl fun x hx => hlt x hx y (List.mem_singleton_self y)⟩
      refine ⟨hpush.1, fun before k after he => ?_⟩
      cases before with
      | nil =>
        obtain ⟨rfl, -⟩ := List.cons.inj he
        simpa using hpush.2
      | cons z before =>
        obtain ⟨rfl, hxs⟩ := List.cons.inj he
        refine (hrest before k after hxs).imp (fun h x hx => h x ?_) fun h => ?_
        all_goals simp only [List.mem_append, List.mem_cons, mem_push] at *
        all_goals tauto
    · rintro ⟨hks, hrest⟩
      have hhead := hrest [] y xs rfl
      rw [List.append_nil] at hhead
      refine ⟨?_, fun before k after he => ?_⟩
      · unfold push
        split_ifs with hy
        · exact hks
        · refine List.pairwise_append.2 ⟨hks, List.pairwise_singleton _ _, fun x hx z hz => ?_⟩
          obtain rfl := List.mem_singleton.1 hz
          exact hhead.resolve_right hy x hx
      · refine (hrest (y :: before) k after (by rw [he]; rfl)).imp (fun h x hx => h x ?_) fun h => ?_
        all_goals simp only [List.mem_append, List.mem_cons, mem_push] at *
        all_goals tauto

theorem firsts_append_sorted_iff [LinearOrder κ] : (firsts (xs ++ ys)).Pairwise (· < ·) ↔
    (firsts xs).Pairwise (· < ·) ∧
      ∀ before k after, ys = before ++ k :: after → (∀ x ∈ xs ++ before, x < k) ∨ k ∈ xs ++ before := by
  rw [firsts_append, foldl_push_sorted_iff]
  simp only [List.mem_append, mem_firsts]

/-- The keys of a sequence stand in order where each is past all before it, or was there. -/
theorem firsts_range_sorted_iff [LinearOrder κ] (f : Nat → κ) (n : Nat) : (firsts ((List.range n).map f)).Pairwise (· < ·) ↔
    ∀ i < n, (∀ j < i, f j < f i) ∨ ∃ j < i, f j = f i := by
  induction n with
  | zero => simp [firsts]
  | succ n ih =>
    have hlast : (∀ before k after, [f n] = before ++ k :: after →
        (∀ x ∈ (List.range n).map f ++ before, x < k) ∨ k ∈ (List.range n).map f ++ before) ↔
        (∀ j < n, f j < f n) ∨ ∃ j < n, f j = f n := by
      constructor
      · intro h
        simpa using h [] (f n) [] rfl
      · intro h before k after he
        obtain ⟨rfl, hrest⟩ | ⟨_, rfl, hrest⟩ := List.cons_eq_append_iff.1 he
        · obtain ⟨rfl, -⟩ := List.cons.inj hrest
          simpa using h
        · cases (List.append_eq_nil_iff.1 hrest.symm).2
    rw [List.range_succ, List.map_append, List.map_singleton, firsts_append_sorted_iff, ih, hlast]
    constructor
    · rintro ⟨hbefore, hn⟩ i hi
      rcases Nat.lt_succ_iff_lt_or_eq.1 hi with hlt | rfl
      · exact hbefore i hlt
      · exact hn
    · intro h
      exact ⟨fun i hi => h i (Nat.lt_succ_of_lt hi), h n (Nat.lt_succ_self n)⟩

end Keys

/-! ## The groups -/

section Groups

variable {d : List (κ × List α)} {key : α → κ}

theorem keys_add (d : List (κ × List α)) (k : κ) (x : α) : (add d k x).map (·.1) = push (d.map (·.1)) k := by
  unfold add push
  split_ifs with h
  · rw [List.map_map]
    refine List.map_congr_left fun g _ => ?_
    show (if g.1 = k then (g.1, g.2 ++ [x]) else g).1 = g.1
    split <;> rfl
  · rw [List.map_append]
    rfl

theorem keys_addAll (key : α → κ) (d : List (κ × List α)) (xs : List α) :
    (addAll key d xs).map (·.1) = (xs.map key).foldl push (d.map (·.1)) := by
  unfold addAll
  induction xs generalizing d with
  | nil => rfl
  | cons x xs ih => rw [List.foldl_cons, ih, keys_add, List.map_cons, List.foldl_cons]

/-- What a group of that key was before. -/
theorem mem_add {k : κ} {x : α} {g : κ × List α} (h : g ∈ add d k x) :
    (g ∈ d ∧ g.1 ≠ k) ∨ (∃ old, (k, old) ∈ d ∧ g = (k, old ++ [x])) ∨ (k ∉ d.map (·.1) ∧ g = (k, [x])) := by
  unfold add at h
  split_ifs at h with hk
  · obtain ⟨g', hg', rfl⟩ := List.mem_map.1 h
    by_cases heq : g'.1 = k
    · rw [if_pos heq]
      exact .inr (.inl ⟨g'.2, heq ▸ hg', by rw [heq]⟩)
    · rw [if_neg heq]
      exact .inl ⟨hg', heq⟩
  · rcases List.mem_append.1 h with h | h
    · exact .inl ⟨h, fun he => hk (he ▸ List.mem_map_of_mem h)⟩
    · exact .inr (.inr ⟨hk, List.mem_singleton.1 h⟩)

omit [DecidableEq κ] in
theorem keys_empty (ks : List κ) : (ks.map fun k => (k, ([] : List α))).map (·.1) = ks := by
  rw [List.map_map]
  exact List.map_id ks

/-- A key has what it had at first, and then its records in their order. -/
theorem values_addAll {g : κ × List α} {xs : List α} (h : g ∈ addAll key d xs) :
    ∃ old, ((g.1, old) ∈ d ∨ g.1 ∉ d.map (·.1) ∧ old = []) ∧ g.2 = old ++ xs.filter fun x => key x = g.1 := by
  unfold addAll at h
  induction xs generalizing d with
  | nil => exact ⟨g.2, .inl h, by simp⟩
  | cons x xs ih =>
    obtain ⟨old, hold, hg⟩ := ih h
    have hkeys := keys_add d (key x) x
    rcases hold with hold | ⟨hnew, rfl⟩
    · rcases mem_add hold with ⟨hin, hne⟩ | ⟨old', hin, heq⟩ | ⟨hnew, heq⟩
      · refine ⟨old, .inl hin, ?_⟩
        rw [hg, List.filter_cons_of_neg (by simpa using Ne.symm hne)]
      · obtain ⟨hkey, rfl⟩ := Prod.mk.inj heq
        refine ⟨old', .inl (hkey ▸ hin), ?_⟩
        rw [hg, List.filter_cons_of_pos (by simpa using hkey.symm), List.append_assoc, List.singleton_append]
      · obtain ⟨hkey, rfl⟩ := Prod.mk.inj heq
        refine ⟨[], .inr ⟨hkey ▸ hnew, rfl⟩, ?_⟩
        rw [hg, List.filter_cons_of_pos (by simpa using hkey.symm)]
        rfl
    · rw [hkeys, mem_push, not_or] at hnew
      refine ⟨[], .inr ⟨hnew.1, rfl⟩, ?_⟩
      rw [hg, List.filter_cons_of_neg (by simpa using Ne.symm hnew.2)]

variable {M : Type} [AddCommMonoid M] (f : α → M)

def total (d : List (κ × List α)) : M := (d.map fun g => (g.2.map f).sum).sum

omit [DecidableEq κ] in
theorem total_empty (ks : List κ) : total f (ks.map fun k => (k, ([] : List α))) = 0 := by
  unfold total
  induction ks with
  | nil => rfl
  | cons k ks ih => rw [List.map_cons, List.map_cons, List.sum_cons, ih, List.map_nil, List.sum_nil, add_zero]

theorem total_add (hd : (d.map (·.1)).Nodup) (k : κ) (x : α) : total f (add d k x) = total f d + f x := by
  unfold add total
  split_ifs with hk
  · induction d with
    | nil => cases hk
    | cons g d ih =>
      obtain ⟨hout, hd⟩ := List.nodup_cons.1 hd
      rw [List.map_cons, List.map_cons, List.map_cons, List.sum_cons, List.sum_cons]
      by_cases hg : g.1 = k
      · have hrest : (d.map fun g => if g.1 = k then (g.1, g.2 ++ [x]) else g) = d := by
          conv_rhs => rw [← List.map_id d]
          refine List.map_congr_left fun g' hg' => ?_
          rw [if_neg fun he => hout (List.mem_map.2 ⟨g', hg', he.trans hg.symm⟩), id_eq]
        rw [if_pos hg, hrest, List.map_append, List.sum_append]
        simp only [List.map_cons, List.map_nil, List.sum_cons, List.sum_nil, add_zero]
        exact add_right_comm _ _ _
      · have hin : k ∈ d.map (·.1) := (List.mem_cons.1 hk).resolve_left fun he => hg he.symm
        rw [if_neg hg, ih hd hin, add_assoc]
  · rw [List.map_append, List.sum_append]
    simp

/-- No record is lost. -/
theorem total_addAll (hd : (d.map (·.1)).Nodup) (xs : List α) : total f (addAll key d xs) = total f d + (xs.map f).sum := by
  unfold addAll
  induction xs generalizing d with
  | nil => simp
  | cons x xs ih =>
    have hd' : ((add d (key x) x).map (·.1)).Nodup := by
      rw [keys_add]
      exact nodup_push hd
    rw [List.foldl_cons, ih hd', total_add f hd, List.map_cons, List.sum_cons, add_assoc]

end Groups

end Flowly.Lib.Groups
