/-
  Flowly.Flowlets.Series — the views of a series of a flowlet (`flowly/flowlets/queries.py`:
  `_window_bounds`, `_apply_agg`, `aggregate_scalar`, `_bucket_key`, `_iter_bucket_keys`,
  `aggregate_buckets`, `_category_breakdown`).

  A time is in ms. A bucket is the number of its hour, day or week on the local clock, which
  the code writes out as a text. A zone resolves a wall time as `datetime.timestamp` does: one
  that is skipped by the offset before the change, one that comes twice to its first or its
  second instant. Values are exact rationals.

  Proved: a scalar is the sum of its buckets, in every window; it is the sum of the slices of
  a pie too just where the window is not "all" or no event is later than now, since the pie
  of the window "all" has no end (`views_agree_iff`).
-/

import Flowly.Cron.Zones
import Flowly.Flowlets.Actions
import Flowly.Lib.Groups
import Mathlib.Algebra.Ring.Rat
import Mathlib.Data.Nat.Cast.Basic
import Mathlib.Data.String.Basic

namespace Flowly.Flowlets.Series

open Flowly.Lib Flowly.Cron

/-! ## Local time -/

/-- A zone: its first offset, and the instants at which the offset changes, each with the offset from then on. -/
structure Zone where
  initial : Int := 0
  transitions : List (Int × Int) := []

/-- The offset of a wall time: where a change makes it come twice or not at all, `fold` says which. -/
def offsetOf (fold : Bool) (o : Int) : List (Int × Int) → Int → Int
  | [], _ => o
  | (s, o') :: rest, w => if w < s + (if fold then min o o' else max o o') then o else offsetOf fold o' rest w

/-- Whether the wall time of an instant has come before: `fold`, as it is before the transitions. -/
def foldAt (fold : Bool) (o : Int) : List (Int × Int) → Int → Bool
  | [], _ => fold
  | (s, o') :: rest, t => if t < s then fold else foldAt (decide (t - s < o - o')) o' rest t

namespace Zone

/-- `_local_dt`. -/
def wall (z : Zone) (t : Int) : Int := t + offsetAt z.initial z.transitions t

def fold (z : Zone) (t : Int) : Bool := foldAt false z.initial z.transitions t

/-- `datetime.timestamp` of a wall time. -/
def timestamp (z : Zone) (fold : Bool) (w : Int) : Int := w - offsetOf fold z.initial z.transitions w

/-- The local date, in days. -/
def date (z : Zone) (t : Int) : Int := z.wall t / DAY_MS

/-- `_date_start_ms`. -/
def dateStart (z : Zone) (d : Int) : Int := z.timestamp false (d * DAY_MS)

end Zone

/-! ## Windows -/

/-- `WINDOWS`; any other text is a week. -/
inductive Window where
  | today
  | week
  | month
  | quarter
  | all
  deriving DecidableEq

def Window.days : Window → Option Nat
  | .today => some 0
  | .week => some 6
  | .month => some 29
  | .quarter => some 89
  | .all => none

/-- `_window_bounds`: the first instant, if there is one; the last is now. -/
def windowStart (z : Zone) (window : Window) (now : Int) : Option Int := window.days.map fun days : Nat => z.dateStart (z.date now - days)

/-! ## Aggregates -/

structure Event where
  ts : Int
  value : Rat
  /-- `meta.category`. -/
  category : Json := .null

/-- Any other text is a sum. -/
inductive Agg where
  | sum
  | count
  | avg
  | min
  | max
  | last
  deriving DecidableEq

def applyAgg (values : List Rat) : Agg → Rat
  | .count => values.length
  | .sum => values.sum
  | .avg => if values = [] then 0 else values.sum / values.length
  | .min => (values.min?).getD 0
  | .max => (values.max?).getD 0
  | .last => (values.getLast?).getD 0

def within (start : Option Int) (now : Int) (events : List Event) : List Event :=
  events.filter fun e => start.all (· ≤ e.ts) && decide (e.ts ≤ now)

def aggregateScalar (z : Zone) (agg : Agg) (window : Window) (events : List Event) (now : Int) : Rat :=
  applyAgg ((within (windowStart z window now) now events).map (·.value)) agg

/-! ## Buckets -/

/-- `BUCKETS`; any other text is a day. -/
inductive Bucket where
  | hour
  | day
  | week
  deriving DecidableEq

def HOUR_MS : Int := 60 * 60 * 1000

namespace Bucket

def step : Bucket → Int
  | .hour => HOUR_MS
  | .day => DAY_MS
  | .week => 7 * DAY_MS

/-- The beginning of a bucket that is not after the epoch; the epoch was a Thursday. -/
def origin : Bucket → Int
  | .hour | .day => 0
  | .week => -3 * DAY_MS

def ofWall (b : Bucket) (w : Int) : Int := (w - b.origin) / b.step

/-- The wall time a bucket begins at. -/
def start (b : Bucket) (k : Int) : Int := b.origin + k * b.step

end Bucket

def bucketKey (z : Zone) (b : Bucket) (t : Int) : Int := b.ofWall (z.wall t)

/-- The guard of `_iter_bucket_keys`. -/
def maxSteps : Nat := 2000

/-- The loop of `_iter_bucket_keys`: the wall times it steps through, the first with its `fold`. -/
def steps (b : Bucket) (endWall : Int) : Nat → Bool → Int → List (Bool × Int)
  | 0, _, _ => []
  | guard + 1, fold, cur => if cur ≤ endWall then (fold, cur) :: steps b endWall guard false (cur + b.step) else []

def walk (z : Zone) (b : Bucket) (start now : Int) : List (Bool × Int) :=
  steps b (z.wall now) maxSteps (if b = .week then false else z.fold start) (b.start (bucketKey z b start))

def stepKey (z : Zone) (b : Bucket) (s : Bool × Int) : Int := bucketKey z b (z.timestamp s.1 s.2)

def iterBucketKeys (z : Zone) (b : Bucket) (start now : Int) : List Int := Groups.firsts ((walk z b start now).map (stepKey z b))

/-- The first instant of `aggregate_buckets`: of the window "all", that of the earliest event, or now. -/
def bucketsStart (z : Zone) (window : Window) (events : List Event) (now : Int) : Int :=
  (windowStart z window now).getD ((events.map (·.ts)).min?.getD now)

/-- The events by their buckets, which stand in the order of the steps, and then of the events. -/
def grouped (z : Zone) (b : Bucket) (window : Window) (events : List Event) (now : Int) : List (Int × List Event) :=
  let start := bucketsStart z window events now
  Groups.addAll (fun e => bucketKey z b e.ts) ((iterBucketKeys z b start now).map (·, [])) (within (some start) now events)

def aggregateBuckets (z : Zone) (agg : Agg) (b : Bucket) (window : Window) (events : List Event) (now : Int) : List (Int × Rat) :=
  (grouped z b window events now).map fun g => (g.1, applyAgg (g.2.map (·.value)) agg)

/-! ## Slices -/

def maxPieSlices : Nat := 8

-- `str` is Python's.
variable (str : Json → String)

def sliceOf (category : Json) : String :=
  let name := cut maxCategoryLen (strip (if category.truthy then str category else "other"))
  if name = "" then "other" else name

/-- `rows.sort(key=lambda r: (-r["v"], r["k"]))`. -/
def sortRows (rows : List (String × Rat)) : List (String × Rat) :=
  rows.mergeSort fun r r' => decide (r'.2 < r.2) || (decide (r.2 = r'.2) && decide (r.1 ≤ r'.1))

/-- The tail is put into the slice "other" of the head, or made one. -/
def foldTail (head tail : List (String × Rat)) : List (String × Rat) :=
  let rest := (tail.map (·.2)).sum
  if "other" ∈ head.map (·.1) then head.map fun r => if r.1 = "other" then (r.1, r.2 + rest) else r
  else head ++ [("other", rest)]

/-- `_category_breakdown`: of the window "all", every event. -/
def categoryBreakdown (z : Zone) (agg : Agg) (window : Window) (events : List Event) (now : Int) : List (String × Rat) :=
  let start := windowStart z window now
  let kept := events.filter fun e => start.all fun s => decide (s ≤ e.ts) && decide (e.ts ≤ now)
  let rows := sortRows ((Groups.addAll (fun e => sliceOf str e.category) [] kept).map fun g => (g.1, applyAgg (g.2.map (·.value)) agg))
  if maxPieSlices < rows.length then foldTail (rows.take (maxPieSlices - 1)) (rows.drop (maxPieSlices - 1)) else rows

/-! ## Totals -/

def Agg.weight (agg : Agg) (e : Event) : Rat := if agg = .count then 1 else e.value

/-- The aggregates that a total can be of. -/
def Agg.Additive (agg : Agg) : Prop := agg = .sum ∨ agg = .count

theorem applyAgg_eq {agg : Agg} (h : agg.Additive) (events : List Event) :
    applyAgg (events.map (·.value)) agg = (events.map agg.weight).sum := by
  rcases h with rfl | rfl
  · rfl
  · have hone : events.map (Agg.weight .count) = List.replicate events.length 1 :=
      List.map_eq_replicate_iff.2 fun e _ => rfl
    rw [hone, List.sum_replicate, nsmul_one]
    exact congrArg (Nat.cast (R := Rat)) (List.length_map _)

/-- The total of groups whose values were aggregated. -/
theorem sum_groups {κ : Type} {agg : Agg} (h : agg.Additive) (d : List (κ × List Event)) :
    ((d.map fun g => (g.1, applyAgg (g.2.map (·.value)) agg)).map (·.2)).sum = Groups.total agg.weight d := by
  unfold Groups.total
  rw [List.map_map]
  congr 1
  exact List.map_congr_left fun g _ => applyAgg_eq h g.2

section Totals

variable {z : Zone} {b : Bucket} {window : Window} {events : List Event} {now : Int} {agg : Agg}

/-- The earliest event leaves none out. -/
theorem within_bucketsStart :
    within (some (bucketsStart z window events now)) now events = within (windowStart z window now) now events := by
  unfold bucketsStart
  cases windowStart z window now with
  | some s => rfl
  | none =>
    refine List.filter_congr fun e he => ?_
    have hmem : e.ts ∈ events.map (·.ts) := List.mem_map_of_mem he
    have hle : ((events.map (·.ts)).min?.getD now) ≤ e.ts := by
      cases hmin : (events.map (·.ts)).min? with
      | none =>
        rw [List.min?_eq_none_iff.1 hmin] at hmem
        cases hmem
      | some m => exact (List.min?_eq_some_iff.1 hmin).2 _ hmem
    simp [hle]

theorem scalar_eq_sum (h : agg.Additive) :
    aggregateScalar z agg window events now = ((within (windowStart z window now) now events).map agg.weight).sum :=
  applyAgg_eq h _

/-- A scalar is the sum of its buckets. -/
theorem scalar_eq_buckets (h : agg.Additive) :
    aggregateScalar z agg window events now = ((aggregateBuckets z agg b window events now).map (·.2)).sum := by
  have hkeys : (((iterBucketKeys z b (bucketsStart z window events now) now).map fun k => (k, ([] : List Event))).map (·.1)).Nodup := by
    rw [Groups.keys_empty]
    exact Groups.nodup_firsts _
  unfold aggregateBuckets grouped
  rw [sum_groups h, Groups.total_addAll _ hkeys, Groups.total_empty, zero_add, within_bucketsStart, scalar_eq_sum h]

/-! ## Slices add up -/

theorem sum_foldTail (head tail : List (String × Rat)) (hhead : (head.map (·.1)).Nodup) :
    ((foldTail head tail).map (·.2)).sum = (head.map (·.2)).sum + (tail.map (·.2)).sum := by
  unfold foldTail
  dsimp only
  generalize (tail.map (·.2)).sum = rest
  split_ifs with hother
  · induction head with
    | nil => cases hother
    | cons r head ih =>
      obtain ⟨hout, hhead⟩ := List.nodup_cons.1 hhead
      rw [List.map_cons, List.map_cons, List.map_cons, List.sum_cons, List.sum_cons]
      by_cases hr : r.1 = "other"
      · have hsame : (head.map fun r => if r.1 = "other" then (r.1, r.2 + rest) else r) = head := by
          conv_rhs => rw [← List.map_id head]
          refine List.map_congr_left fun r' hr' => ?_
          rw [if_neg fun he => hout (List.mem_map.2 ⟨r', hr', he.trans hr.symm⟩), id_eq]
        rw [if_pos hr, hsame]
        exact add_right_comm _ _ _
      · rw [if_neg hr, ih hhead ((List.mem_cons.1 hother).resolve_left fun he => hr he.symm), add_assoc]
  · rw [List.map_append, List.sum_append]
    simp

theorem keys_foldTail (head tail : List (String × Rat)) : (foldTail head tail).map (·.1) = Groups.push (head.map (·.1)) "other" := by
  unfold foldTail Groups.push
  dsimp only
  split_ifs with hother
  · rw [List.map_map]
    refine List.map_congr_left fun r _ => ?_
    show (if r.1 = "other" then (r.1, _) else r).1 = r.1
    split <;> rfl
  · rw [List.map_append]
    rfl

/-- The fold changes no slice but "other". -/
theorem filter_foldTail (head tail : List (String × Rat)) :
    (foldTail head tail).filter (·.1 ≠ "other") = head.filter (·.1 ≠ "other") := by
  unfold foldTail
  dsimp only
  split_ifs with hother
  · rw [List.filter_map]
    have hpred : ((fun r : String × Rat => decide (r.1 ≠ "other")) ∘ fun r =>
        if r.1 = "other" then (r.1, r.2 + (tail.map (·.2)).sum) else r) = fun r => decide (r.1 ≠ "other") := by
      funext r
      by_cases hr : r.1 = "other" <;> simp [hr]
    rw [hpred]
    conv_rhs => rw [← List.map_id (head.filter _)]
    refine List.map_congr_left fun r hr => ?_
    rw [if_neg (by simpa using (List.mem_filter.1 hr).2), id_eq]
  · rw [List.filter_append]
    simp

theorem sortRows_perm (rows : List (String × Rat)) : (sortRows rows).Perm rows := List.mergeSort_perm _ _

theorem sortRows_sorted (rows : List (String × Rat)) : (sortRows rows).Pairwise fun r r' => r'.2 ≤ r.2 := by
  have hsorted := @List.pairwise_mergeSort _ (fun r r' : String × Rat =>
      decide (r'.2 < r.2) || (decide (r.2 = r'.2) && decide (r.1 ≤ r'.1))) (fun a b c hab hbc => ?_) (fun a b => ?_) rows
  · refine hsorted.imp fun {a c} h => ?_
    rcases (by simpa using h : c.2 < a.2 ∨ a.2 = c.2 ∧ a.1 ≤ c.1) with h | h
    · exact h.le
    · exact h.1.symm.le
  · rcases (by simpa using hab : b.2 < a.2 ∨ a.2 = b.2 ∧ a.1 ≤ b.1) with h | h
    · rcases (by simpa using hbc : c.2 < b.2 ∨ b.2 = c.2 ∧ b.1 ≤ c.1) with h' | h'
      · simp [h'.trans h]
      · simp [← h'.1, h]
    · rcases (by simpa using hbc : c.2 < b.2 ∨ b.2 = c.2 ∧ b.1 ≤ c.1) with h' | h'
      · simp [h.1, h']
      · simp [h.1, h'.1, h.2.trans h'.2]
  · rcases lt_trichotomy a.2 b.2 with h | h | h
    · simp [h]
    · simp [h, le_total]
    · simp [h]

/-- What a pie of so many categories is. -/
structure Pie (categories : Nat) (slices : List (String × Rat)) : Prop where
  few : slices.length ≤ maxPieSlices
  distinct : (slices.map (·.1)).Nodup
  ordered : (slices.filter (·.1 ≠ "other")).Pairwise fun r r' => r'.2 ≤ r.2
  whole : categories ≤ maxPieSlices → slices.Pairwise fun r r' => r'.2 ≤ r.2

theorem pie_foldTail {rows : List (String × Rat)} (hd : (rows.map (·.1)).Nodup) (hs : rows.Pairwise fun r r' => r'.2 ≤ r.2)
    {slices : List (String × Rat)} (hslices : slices =
      if maxPieSlices < rows.length then foldTail (rows.take (maxPieSlices - 1)) (rows.drop (maxPieSlices - 1)) else rows) :
    Pie rows.length slices ∧ (slices.map (·.2)).sum = (rows.map (·.2)).sum := by
  subst hslices
  split_ifs with hmany
  · have hhead : ((rows.take (maxPieSlices - 1)).map (·.1)).Nodup := hd.sublist ((List.take_sublist _ _).map _)
    refine ⟨⟨?_, ?_, ?_, fun hfew => absurd hmany (by omega)⟩, ?_⟩
    · have hlen : (foldTail (rows.take (maxPieSlices - 1)) (rows.drop (maxPieSlices - 1))).length ≤ (maxPieSlices - 1) + 1 := by
        rw [← List.length_map (f := (·.1)), keys_foldTail]
        unfold Groups.push
        have htake : ((rows.take (maxPieSlices - 1)).map (·.1)).length ≤ maxPieSlices - 1 := by
          rw [List.length_map]
          exact List.length_take_le _ _
        split_ifs
        · exact Nat.le_succ_of_le htake
        · rw [List.length_append]
          exact Nat.add_le_add_right htake 1
      exact hlen
    · rw [keys_foldTail]
      exact Groups.nodup_push hhead
    · rw [filter_foldTail]
      exact (hs.sublist (List.take_sublist _ _)).sublist List.filter_sublist
    · rw [sum_foldTail _ _ hhead, ← List.sum_append, ← List.map_append, List.take_append_drop]
  · exact ⟨⟨Nat.not_lt.1 hmany, hd, hs.sublist List.filter_sublist, fun _ => hs⟩, rfl⟩

def inPie (z : Zone) (window : Window) (events : List Event) (now : Int) : List Event :=
  events.filter fun e => (windowStart z window now).all fun s => decide (s ≤ e.ts) && decide (e.ts ≤ now)

/-- The categories of a pie's events. -/
def categories (str : Json → String) (z : Zone) (window : Window) (events : List Event) (now : Int) : List String :=
  Groups.firsts ((inPie z window events now).map fun e => sliceOf str e.category)

/-- The slices of a pie, and what they add up to. -/
theorem breakdown_pie (str : Json → String) (z : Zone) (window : Window) (events : List Event) (now : Int) (h : agg.Additive) :
    Pie (categories str z window events now).length (categoryBreakdown str z agg window events now) ∧
      ((categoryBreakdown str z agg window events now).map (·.2)).sum = ((inPie z window events now).map agg.weight).sum := by
  have hkeys := Groups.keys_addAll (fun e : Event => sliceOf str e.category) [] (inPie z window events now)
  have htotal := @Groups.total_addAll _ _ _ [] (fun e : Event => sliceOf str e.category) _ _ agg.weight List.nodup_nil
    (inPie z window events now)
  generalize hgroups : Groups.addAll (fun e : Event => sliceOf str e.category) [] (inPie z window events now) = groups at hkeys htotal
  have hnames : (groups.map fun g => (g.1, applyAgg (g.2.map (·.value)) agg)).map (·.1) = categories str z window events now := by
    rw [List.map_map]
    exact hkeys
  have hperm := sortRows_perm (groups.map fun g => (g.1, applyAgg (g.2.map (·.value)) agg))
  have hdistinct : ((sortRows (groups.map fun g => (g.1, applyAgg (g.2.map (·.value)) agg))).map (·.1)).Nodup := by
    rw [(hperm.map (·.1)).nodup_iff, hnames]
    exact Groups.nodup_firsts _
  have hlen : (sortRows (groups.map fun g => (g.1, applyAgg (g.2.map (·.value)) agg))).length = (categories str z window events now).length := by
    rw [hperm.length_eq, ← hnames, List.length_map, List.length_map, List.length_map]
  obtain ⟨hpie, hsum⟩ := @pie_foldTail _ hdistinct (sortRows_sorted _) (categoryBreakdown str z agg window events now) (by
    rw [← hgroups]
    rfl)
  rw [hlen] at hpie
  refine ⟨hpie, ?_⟩
  rw [hsum, (hperm.map (·.2)).sum_eq, sum_groups h, htotal]
  simp [Groups.total]

/-- The events of a pie that no other view has. -/
theorem inPie_perm : (inPie z window events now).Perm
    (within (windowStart z window now) now events ++ if window = .all then events.filter fun e => now < e.ts else []) := by
  unfold inPie within windowStart
  cases hdays : window.days with
  | some days =>
    have hall : window ≠ .all := by
      rintro rfl
      cases hdays
    rw [if_neg hall, List.append_nil]
    exact .refl _
  | none =>
    have hall : window = .all := by
      cases window <;> first | rfl | cases hdays
    rw [if_pos hall]
    have hsplit := List.filter_append_perm (fun e : Event => decide (e.ts ≤ now)) events
    have hlater : (events.filter fun e => !decide (e.ts ≤ now)) = events.filter fun e => decide (now < e.ts) := by
      refine List.filter_congr fun e _ => ?_
      rw [← decide_not, decide_eq_decide]
      exact Int.not_le
    rw [hlater] at hsplit
    simpa using hsplit.symm

end Totals

/-- All views of a series agree, and the pie is one, just where the window is not "all" or no event is later than now. -/
theorem views_agree_iff (str : Json → String) (z : Zone) (b : Bucket) (window : Window) (events : List Event) (now : Int) :
    (∀ agg : Agg, agg.Additive →
      aggregateScalar z agg window events now = ((aggregateBuckets z agg b window events now).map (·.2)).sum ∧
      aggregateScalar z agg window events now = ((categoryBreakdown str z agg window events now).map (·.2)).sum ∧
      Pie (categories str z window events now).length (categoryBreakdown str z agg window events now)) ↔
    (window = .all → ∀ e ∈ events, e.ts ≤ now) := by
  have hsum (agg : Agg) (h : agg.Additive) : ((categoryBreakdown str z agg window events now).map (·.2)).sum =
      aggregateScalar z agg window events now +
        ((if window = .all then events.filter fun e => now < e.ts else []).map agg.weight).sum := by
    rw [(breakdown_pie str z window events now h).2, (inPie_perm.map agg.weight).sum_eq, List.map_append, List.sum_append,
      scalar_eq_sum h]
  constructor
  · intro h hall e he
    have hcount := (h .count (.inr rfl)).2.1
    rw [hsum .count (.inr rfl), if_pos hall] at hcount
    have hlen : ((events.filter fun e => now < e.ts).length : Rat) = 0 := by
      rw [← List.length_map (f := Event.value)]
      exact (applyAgg_eq (.inr rfl) _).trans (left_eq_add.1 hcount)
    have hnone : (events.filter fun e => now < e.ts) = [] := List.length_eq_zero_iff.1 (Nat.cast_eq_zero.1 hlen)
    by_contra hlate
    exact List.eq_nil_iff_forall_not_mem.1 hnone e (List.mem_filter.2 ⟨he, by simpa using hlate⟩)
  · intro h agg hagg
    refine ⟨scalar_eq_buckets hagg, ?_, (breakdown_pie str z window events now hagg).1⟩
    have hnone : (if window = .all then events.filter fun e => now < e.ts else []) = [] := by
      split_ifs with hall
      · refine List.filter_eq_nil_iff.2 fun e he => ?_
        simpa using h hall e he
      · rfl
    rw [hsum agg hagg, hnone]
    simp

namespace Sample

/-- An event that is dated a millisecond ahead of now. -/
def ahead : List Event := [{ ts := 1, value := 5 }]

/-- The pie of the window "all" has it, and the scalar does not. -/
theorem pie_without_end :
    ¬ aggregateScalar {} .sum .all ahead 0 = ((categoryBreakdown (fun _ => "") {} .sum .all ahead 0).map (·.2)).sum := by
  decide +kernel

end Sample

end Flowly.Flowlets.Series
