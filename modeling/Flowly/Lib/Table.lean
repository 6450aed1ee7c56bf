/-
  Flowly.Lib.Table — a table of a relational database: its rows, of which no two have the
  same primary key.

  A statement that would give a key to two rows is refused (`insert`) or makes room for the new
  row (`insertOrReplace`); the others keep the keys apart by what they do. `distinct` leaves of
  each group of rows the one with the least key.
-/

import Mathlib.Data.List.Nodup
import Mathlib.Data.List.MinMax

namespace Flowly.Lib

variable {ρ κ γ : Type}

structure Table (key : ρ → κ) where
  rows : List ρ
  nodup : (rows.map key).Nodup

namespace Table

variable {key : ρ → κ} {t : Table key} {r r' : ρ} {k : κ} {p : ρ → Bool} {f : ρ → ρ}

instance : Membership ρ (Table key) := ⟨fun t r => r ∈ t.rows⟩

theorem eq_of_key (hr : r ∈ t) (hr' : r' ∈ t) (h : key r = key r') : r = r' := List.inj_on_of_nodup_map t.nodup hr hr' h

def empty : Table key := ⟨[], List.nodup_nil⟩

/-- `DELETE … WHERE NOT`. -/
def keep (t : Table key) (p : ρ → Bool) : Table key :=
  ⟨t.rows.filter p, t.nodup.sublist (List.filter_sublist.map key)⟩

@[simp] theorem mem_keep : r ∈ t.keep p ↔ r ∈ t ∧ p r = true := List.mem_filter

/-- `UPDATE` of columns other than the key. -/
def update (t : Table key) (f : ρ → ρ) (hf : ∀ r, key (f r) = key r) : Table key :=
  ⟨t.rows.map f, by
    have hkey : key ∘ f = key := funext hf
    rw [List.map_map, hkey]
    exact t.nodup⟩

theorem mem_update (hf : ∀ r, key (f r) = key r) : r ∈ t.update f hf ↔ ∃ r₀ ∈ t, f r₀ = r := List.mem_map

theorem append_nodup {rows : List ρ} (hn : (rows.map key).Nodup) (hr : key r ∉ rows.map key) : ((rows ++ [r]).map key).Nodup := by
  rw [List.map_append, List.map_singleton]
  exact List.nodup_append_comm.1 (List.nodup_cons.2 ⟨hr, hn⟩)

section Keys

variable [DecidableEq κ]

/-- `SELECT … WHERE` the key is. -/
def get? (t : Table key) (k : κ) : Option ρ := t.rows.find? (key · = k)

theorem get?_eq_some_iff : t.get? k = some r ↔ r ∈ t ∧ key r = k := by
  constructor
  · intro h
    exact ⟨List.mem_of_find?_eq_some h, of_decide_eq_true (List.find?_some (p := (key · = k)) h)⟩
  · rintro ⟨hr, rfl⟩
    cases h : t.get? (key r) with
    | none => exact absurd (decide_eq_true rfl) (List.find?_eq_none.1 h r hr)
    | some r' => rw [eq_of_key (List.mem_of_find?_eq_some h) hr (of_decide_eq_true (List.find?_some (p := (key · = key r)) h))]

theorem get?_eq_none_iff : t.get? k = none ↔ ∀ r ∈ t, key r ≠ k :=
  List.find?_eq_none.trans (by simp only [decide_eq_true_eq]; rfl)

/-- `INSERT`, which the database refuses where the key is taken. -/
def insert (t : Table key) (r : ρ) : Option (Table key) :=
  if h : key r ∈ t.rows.map key then none else some ⟨t.rows ++ [r], append_nodup t.nodup h⟩

theorem mem_of_insert {t' : Table key} (h : t.insert r = some t') : r' ∈ t' ↔ r' ∈ t ∨ r' = r := by
  unfold insert at h
  split at h
  · cases h
  · cases h
    exact List.mem_append.trans (or_congr Iff.rfl List.mem_singleton)

def insertOrIgnore (t : Table key) (r : ρ) : Table key := (t.insert r).getD t

theorem mem_insertOrIgnore_of_mem (h : r' ∈ t) : r' ∈ t.insertOrIgnore r := by
  unfold insertOrIgnore
  cases hi : t.insert r with
  | none => exact h
  | some t' => exact (mem_of_insert hi).2 (.inl h)

/-- A row with the key of the new one is there after it. -/
theorem exists_insertOrIgnore (t : Table key) (r : ρ) : ∃ r' ∈ t.insertOrIgnore r, key r' = key r := by
  unfold insertOrIgnore insert
  split
  · next h => exact List.mem_map.1 h
  · exact ⟨r, List.mem_append_right _ List.mem_cons_self, rfl⟩

def insertOrReplace (t : Table key) (r : ρ) : Table key :=
  ⟨t.rows.filter (key · ≠ key r) ++ [r], append_nodup (t.nodup.sublist (List.filter_sublist.map key)) (by simp)⟩

@[simp] theorem mem_insertOrReplace : r' ∈ t.insertOrReplace r ↔ (r' ∈ t ∧ key r' ≠ key r) ∨ r' = r :=
  List.mem_append.trans (or_congr (List.mem_filter.trans (and_congr Iff.rfl decide_eq_true_iff)) List.mem_singleton)

end Keys

section Distinct

variable [LinearOrder κ] [DecidableEq γ] {g : ρ → γ}

def isLeast (t : Table key) (g : ρ → γ) (r : ρ) : Bool := t.rows.all fun r' => g r' ≠ g r ∨ key r ≤ key r'

/-- `DELETE … WHERE id NOT IN (SELECT MIN(id) … GROUP BY g)`. -/
def distinct (t : Table key) (g : ρ → γ) : Table key := t.keep (t.isLeast g)

theorem isLeast_iff : t.isLeast g r = true ↔ ∀ r' ∈ t, g r' = g r → key r ≤ key r' := by
  unfold isLeast
  rw [List.all_eq_true]
  refine forall₂_congr fun r' _ => ?_
  rw [decide_eq_true_iff, ← imp_iff_not_or]

theorem mem_of_mem_distinct (h : r ∈ t.distinct g) : r ∈ t := (mem_keep.1 h).1

/-- One row of a group is left at most. -/
theorem eq_of_mem_distinct (hr : r ∈ t.distinct g) (hr' : r' ∈ t.distinct g) (h : g r = g r') : r = r' := by
  obtain ⟨hm, hl⟩ := mem_keep.1 hr
  obtain ⟨hm', hl'⟩ := mem_keep.1 hr'
  exact eq_of_key hm hm' (le_antisymm (isLeast_iff.1 hl r' hm' h.symm) (isLeast_iff.1 hl' r hm h))

/-- One row of each group is left. -/
theorem exists_mem_distinct (hr : r ∈ t) : ∃ r' ∈ t.distinct g, g r' = g r := by
  have hmem : r ∈ t.rows.filter (g · = g r) := List.mem_filter.2 ⟨hr, decide_eq_true rfl⟩
  cases hleast : List.argmin key (t.rows.filter (g · = g r)) with
  | none =>
    rw [List.argmin_eq_none.1 hleast] at hmem
    cases hmem
  | some least =>
    obtain ⟨hin, hg⟩ := List.mem_filter.1 (List.argmin_mem hleast)
    have hg := of_decide_eq_true hg
    refine ⟨least, mem_keep.2 ⟨hin, isLeast_iff.2 fun r' hr' hr'g => ?_⟩, hg⟩
    exact List.le_of_mem_argmin (List.mem_filter.2 ⟨hr', decide_eq_true (hr'g.trans hg)⟩) hleast

end Distinct

end Table

end Flowly.Lib
