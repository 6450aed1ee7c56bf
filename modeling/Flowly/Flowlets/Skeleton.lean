/-
  Flowly.Flowlets.Skeleton — the empty buckets of a chart (`flowly/flowlets/queries.py`:
  `_iter_bucket_keys`, `aggregate_buckets`).

  The loop steps over wall times, a bucket at a time from the bucket of the window's start to
  that of now; what it adds is the bucket of the instant that a step is read as. So a bucket of
  the window is left out where it is the two thousandth or a later one, where a clock that was
  turned back made it come before the first or after the last, or where the change skips its
  beginning and lands past its end. An event that falls into such a bucket adds it, at the end.

  Proved: the exact condition under which the chart has each bucket once and in order
  (`complete_iff`).
-/

import Flowly.Flowlets.Series

namespace Flowly.Flowlets.Series

open Flowly.Lib Flowly.Cron

/-! ## The steps -/

theorem Bucket.step_pos (b : Bucket) : 0 < b.step := by
  cases b <;> decide

theorem Bucket.start_le_iff {b : Bucket} {k w : Int} : b.start k ≤ w ↔ k ≤ b.ofWall w := by
  unfold Bucket.start Bucket.ofWall
  rw [Int.le_ediv_iff_mul_le b.step_pos]
  omega

theorem Bucket.ofWall_start (b : Bucket) (k : Int) : b.ofWall (b.start k) = k := by
  unfold Bucket.start Bucket.ofWall
  rw [add_sub_cancel_left]
  exact Int.mul_ediv_cancel k (Int.ne_of_gt b.step_pos)

theorem Bucket.start_add_step (b : Bucket) (k : Int) : b.start k + b.step = b.start (k + 1) := by
  unfold Bucket.start
  rw [Int.add_mul, Int.one_mul, Int.add_assoc]

/-- The loop goes over the buckets from `k` to the last, as far as its guard lets it. -/
theorem steps_eq (b : Bucket) (endWall : Int) (fold : Bool) (k : Int) (guard : Nat) :
    steps b endWall guard fold (b.start k) =
      (List.range (min guard (b.ofWall endWall - k + 1).toNat)).map fun i : Nat => (decide (i = 0) && fold, b.start (k + i)) := by
  induction guard generalizing fold k with
  | zero => simp [steps]
  | succ guard ih =>
    unfold steps
    by_cases hle : b.start k ≤ endWall
    · have hk := Bucket.start_le_iff.1 hle
      have hcount : min (guard + 1) (b.ofWall endWall - k + 1).toNat = min guard (b.ofWall endWall - (k + 1) + 1).toNat + 1 := by
        omega
      rw [if_pos hle, Bucket.start_add_step, ih, hcount, List.range_succ_eq_map, List.map_cons, List.map_map]
      congr 1
      · simp
      · refine List.map_congr_left fun i _ => ?_
        simp only [Function.comp_apply, Nat.succ_ne_zero, decide_false, Bool.false_and, Bool.and_false, Nat.cast_succ]
        rw [Int.add_assoc, Int.add_comm 1]
    · have hk : ¬ k ≤ b.ofWall endWall := fun h => hle (Bucket.start_le_iff.2 h)
      have hcount : min (guard + 1) (b.ofWall endWall - k + 1).toNat = 0 := by omega
      rw [if_neg hle, hcount]
      rfl

section Marks

variable (z : Zone) (b : Bucket) (start now : Int) (events : List Event)

/-- Whether the loop takes so many steps: it stops at the bucket of now, or at its guard. -/
def Taken (i : Nat) : Prop := i < maxSteps ∧ bucketKey z b start + i ≤ bucketKey z b now

/-- The bucket that the beginning of the `i`-th bucket from the start is read as. -/
def landing (i : Nat) : Int := stepKey z b (decide (i = 0) && decide (b ≠ .week) && z.fold start, b.start (bucketKey z b start + i))

/-- Every bucket from an instant to now has one entry, in order, and those with no event have 0. -/
structure Complete (entries : List (Int × Rat)) : Prop where
  chronological : (entries.map (·.1)).Pairwise (· < ·)
  every : ∀ k, k ∈ entries.map (·.1) ↔ ∃ t, start ≤ t ∧ t ≤ now ∧ bucketKey z b t = k
  empty : ∀ entry ∈ entries, (∀ e ∈ within (some start) now events, bucketKey z b e.ts ≠ entry.1) → entry.2 = 0

/-- What the clock and the events have to be for that. -/
structure Marked : Prop where
  /-- A bucket that begins is one of the window. -/
  shown : ∀ i, Taken z b start now i → ∃ t, start ≤ t ∧ t ≤ now ∧ bucketKey z b t = landing z b start i
  /-- A bucket of the window begins, or it has an event. -/
  reached : ∀ t, start ≤ t → t ≤ now → (∃ i, Taken z b start now i ∧ landing z b start i = bucketKey z b t) ∨
    ∃ e ∈ within (some start) now events, bucketKey z b e.ts = bucketKey z b t
  /-- The buckets begin in order. -/
  rising : ∀ i, Taken z b start now i →
    (∀ j < i, landing z b start j < landing z b start i) ∨ ∃ j < i, landing z b start j = landing z b start i
  /-- A bucket that does not begin is past those that do, and past those of the events before. -/
  late : ∀ before (e : Event) after, within (some start) now events = before ++ e :: after →
    (∃ i, Taken z b start now i ∧ landing z b start i = bucketKey z b e.ts) ∨
    (∃ e' ∈ before, bucketKey z b e'.ts = bucketKey z b e.ts) ∨
    (∀ i, Taken z b start now i → landing z b start i < bucketKey z b e.ts) ∧
      ∀ e' ∈ before, bucketKey z b e'.ts < bucketKey z b e.ts

end Marks

section Complete

variable {z : Zone} {b : Bucket} {start now : Int} {window : Window} {events : List Event} {agg : Agg}

def stepCount (z : Zone) (b : Bucket) (start now : Int) : Nat :=
  min maxSteps (bucketKey z b now - bucketKey z b start + 1).toNat

theorem lt_stepCount {i : Nat} : i < stepCount z b start now ↔ Taken z b start now i := by
  unfold stepCount Taken
  omega

theorem walk_keys : (walk z b start now).map (stepKey z b) = (List.range (stepCount z b start now)).map (landing z b start) := by
  unfold walk
  rw [steps_eq, List.map_map]
  refine List.map_congr_left fun i _ => ?_
  unfold landing
  rw [Function.comp_apply, Bool.and_assoc]
  cases b <;> rfl

/-- The entries are those of the steps, and then those of the events. -/
theorem keys_aggregateBuckets : (aggregateBuckets z agg b window events now).map (·.1) =
    Groups.firsts ((List.range (stepCount z b (bucketsStart z window events now) now)).map (landing z b (bucketsStart z window events now)) ++
      (within (some (bucketsStart z window events now)) now events).map fun e => bucketKey z b e.ts) := by
  unfold aggregateBuckets grouped iterBucketKeys
  rw [List.map_map]
  refine (Groups.keys_addAll _ _ _).trans ?_
  rw [Groups.keys_empty, walk_keys, Groups.firsts_append]

theorem mem_keys {k : Int} : k ∈ (aggregateBuckets z agg b window events now).map (·.1) ↔
    (∃ i, Taken z b (bucketsStart z window events now) now i ∧ landing z b (bucketsStart z window events now) i = k) ∨
    ∃ e ∈ within (some (bucketsStart z window events now)) now events, bucketKey z b e.ts = k := by
  rw [keys_aggregateBuckets, Groups.mem_firsts, List.mem_append, List.mem_map, List.mem_map]
  simp only [List.mem_range, lt_stepCount]

theorem applyAgg_nil (agg : Agg) : applyAgg [] agg = 0 := by
  cases agg <;> rfl

theorem empty_aggregateBuckets : ∀ entry ∈ aggregateBuckets z agg b window events now,
    (∀ e ∈ within (some (bucketsStart z window events now)) now events, bucketKey z b e.ts ≠ entry.1) → entry.2 = 0 := by
  intro entry hentry hnone
  obtain ⟨g, hg, rfl⟩ := List.mem_map.1 hentry
  obtain ⟨old, hold, hvalues⟩ := Groups.values_addAll hg
  have hold : old = [] := by
    rcases hold with hin | ⟨-, rfl⟩
    · obtain ⟨k, -, he⟩ := List.mem_map.1 hin
      exact (Prod.mk.inj he).2.symm
    · rfl
  have hfilter : ((within (some (bucketsStart z window events now)) now events).filter fun e => bucketKey z b e.ts = g.1) = [] :=
    List.filter_eq_nil_iff.2 fun e he => by simpa using hnone e he
  show applyAgg (g.2.map (·.value)) agg = 0
  rw [hvalues, hold, hfilter]
  exact applyAgg_nil agg

theorem within_mem {e : Event} (h : e ∈ within (some start) now events) : start ≤ e.ts ∧ e.ts ≤ now := by
  simpa using (List.mem_filter.1 h).2

/-- The order of the entries, by the steps and the events. -/
theorem chronological_iff : ((aggregateBuckets z agg b window events now).map (·.1)).Pairwise (· < ·) ↔
    (∀ i, Taken z b (bucketsStart z window events now) now i →
      (∀ j < i, landing z b (bucketsStart z window events now) j < landing z b (bucketsStart z window events now) i) ∨
      ∃ j < i, landing z b (bucketsStart z window events now) j = landing z b (bucketsStart z window events now) i) ∧
    ∀ before (e : Event) after, within (some (bucketsStart z window events now)) now events = before ++ e :: after →
      (∃ i, Taken z b (bucketsStart z window events now) now i ∧ landing z b (bucketsStart z window events now) i = bucketKey z b e.ts) ∨
      (∃ e' ∈ before, bucketKey z b e'.ts = bucketKey z b e.ts) ∨
      (∀ i, Taken z b (bucketsStart z window events now) now i → landing z b (bucketsStart z window events now) i < bucketKey z b e.ts) ∧
        ∀ e' ∈ before, bucketKey z b e'.ts < bucketKey z b e.ts := by
  rw [keys_aggregateBuckets]
  generalize bucketsStart z window events now = start
  rw [Groups.firsts_append_sorted_iff, Groups.firsts_range_sorted_iff]
  simp only [lt_stepCount]
  refine and_congr_right fun _ => ⟨fun h before e after he => ?_, fun h before k after he => ?_⟩
  · have hsplit := h (before.map fun e => bucketKey z b e.ts) (bucketKey z b e.ts) (after.map fun e => bucketKey z b e.ts)
      (by rw [he, List.map_append, List.map_cons])
    simp only [List.mem_append, List.mem_map, List.mem_range, lt_stepCount] at hsplit
    rcases hsplit with hpast | hthere | hthere
    · exact .inr (.inr ⟨fun i hi => hpast _ (.inl ⟨i, hi, rfl⟩), fun e' he' => hpast _ (.inr ⟨e', he', rfl⟩)⟩)
    · exact .inl hthere
    · exact .inr (.inl hthere)
  · obtain ⟨before', rest, hevents, rfl, hrest⟩ := List.map_eq_append_iff.1 he
    obtain ⟨e, after', rfl, rfl, rfl⟩ := List.map_eq_cons_iff.1 hrest
    simp only [List.mem_append, List.mem_map, List.mem_range, lt_stepCount]
    rcases h before' e after' hevents with hthere | hthere | ⟨hpast, hbefore⟩
    · exact .inr (.inl hthere)
    · exact .inr (.inr hthere)
    · refine .inl ?_
      rintro x (⟨i, hi, rfl⟩ | ⟨e', he', rfl⟩)
      · exact hpast i hi
      · exact hbefore e' he'

theorem marked_of_complete
    (h : Complete z b (bucketsStart z window events now) now events (aggregateBuckets z agg b window events now)) :
    Marked z b (bucketsStart z window events now) now events := by
  obtain ⟨hsorted, hevery, -⟩ := h
  obtain ⟨hrising, hlate⟩ := chronological_iff.1 hsorted
  refine ⟨fun i hi => (hevery _).1 (mem_keys.2 (.inl ⟨i, hi, rfl⟩)), fun t hstart hnow => ?_, hrising, hlate⟩
  exact mem_keys.1 ((hevery _).2 ⟨t, hstart, hnow, rfl⟩)

theorem complete_of_marked (h : Marked z b (bucketsStart z window events now) now events) :
    Complete z b (bucketsStart z window events now) now events (aggregateBuckets z agg b window events now) := by
  refine ⟨chronological_iff.2 ⟨h.rising, h.late⟩, fun k => ?_, empty_aggregateBuckets⟩
  rw [mem_keys]
  constructor
  · rintro (⟨i, hi, rfl⟩ | ⟨e, he, rfl⟩)
    · exact h.shown i hi
    · exact ⟨e.ts, (within_mem he).1, (within_mem he).2, rfl⟩
  · rintro ⟨t, hstart, hnow, rfl⟩
    exact h.reached t hstart hnow

end Complete

/-- A chart has every bucket once and in order just where the window's buckets begin in order and in it, as many as
the loop steps through, and those that do not have events, which come last. -/
theorem complete_iff (z : Zone) (agg : Agg) (b : Bucket) (window : Window) (events : List Event) (now : Int) :
    Complete z b (bucketsStart z window events now) now events (aggregateBuckets z agg b window events now) ↔
      Marked z b (bucketsStart z window events now) now events :=
  ⟨marked_of_complete, complete_of_marked⟩

/-! ## A zone without changes -/

section Fixed

variable {z : Zone} {b : Bucket} {start now : Int} {events : List Event}

theorem bucketKey_fixed (hz : z.transitions = []) (t : Int) : bucketKey z b t = b.ofWall (t + z.initial) := by
  unfold bucketKey Zone.wall
  rw [hz]
  rfl

/-- A bucket begins in itself. -/
theorem landing_fixed (hz : z.transitions = []) (i : Nat) : landing z b start i = bucketKey z b start + i := by
  unfold landing stepKey Zone.timestamp
  rw [bucketKey_fixed hz, hz]
  show b.ofWall (b.start (bucketKey z b start + i) - z.initial + z.initial) = _
  rw [sub_add_cancel, Bucket.ofWall_start]

end Fixed

namespace Sample

def ninetieth : Int := 90 * DAY_MS - 1

/-- A chart by hours of the window "90d" stops after 2000 of its 2160 hours. -/
theorem hours_missing :
    ¬ Complete {} .hour (bucketsStart {} .quarter [] ninetieth) ninetieth [] (aggregateBuckets {} .sum .hour .quarter [] ninetieth) := by
  intro h
  have hlast := (h.every (bucketKey {} .hour ninetieth)).2 ⟨ninetieth, by decide, Int.le_refl _, rfl⟩
  rcases mem_keys.1 hlast with ⟨i, hi, hland⟩ | ⟨e, he, -⟩
  · rw [landing_fixed rfl] at hland
    have hfirst : bucketKey {} .hour (bucketsStart {} .quarter [] ninetieth) = 0 := by decide
    have hkey : bucketKey {} .hour ninetieth = 2159 := by decide
    have hguard := hi.1
    unfold maxSteps at hguard
    omega
  · cases he

end Sample

end Flowly.Flowlets.Series
