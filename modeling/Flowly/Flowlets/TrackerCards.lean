/-
  Flowly.Flowlets.TrackerCards — a tracker card's number and its chart
  (`flowly/flowlets/composites.py`: `_expand_tracker_card`, and `flowly/flowlets/queries.py`:
  `_aggregate_list`, `_rows_as_events`, and the list-backed charts of `resolve_values`).

  The number keeps rows by the count of days since their date, the chart by whether the midday
  of their date is in its window, whose end is that of the current day. Both read a row's date
  field as one day.

  Proved: they agree just where the rows that only one of the two keeps add up to the same,
  with a row that both keep off by what they count of it (`card_agrees_iff`).
-/

import Flowly.Flowlets.Series

namespace Flowly.Flowlets.Series

open Flowly.Lib Flowly.Cron

/-! ## The card -/

/-- `ITEM_FIELD_TYPES`. -/
inductive FieldType where
  | string
  | number
  | bool
  | date
  | image
  deriving DecidableEq

/-- A list's `item`. -/
abbrev ItemSchema := List (String × FieldType)

inductive ChartKind where
  | bar
  | line
  | area
  | pie
  | donut
  deriving DecidableEq

/-- A `tracker_card`. -/
structure Card where
  field : Option String := none
  agg : Option Agg := none
  window : Window := .month
  chart : Option ChartKind := none
  by_ : Option String := none

/-- A computed over a list. The `where` is the date field and the number of days that it is less than. -/
structure ListSpec where
  agg : Agg
  field : Option String
  window : Option Window := none
  where_ : Option (String × Int) := none

/-- The `data` of a chart over a list. -/
structure ChartData where
  window : Window
  field : Option String
  by_ : Option String := none
  agg : Option Agg := none
  bucket : Option Bucket := none

def categoryNames : List String := ["category", "type", "kind", "tag", "status", "group", "label"]

def categoryField (schema : ItemSchema) : Option String :=
  let strings := (schema.filter fun f => f.2 = .string ∧ f.1 ≠ "id").map (·.1)
  (categoryNames.find? fun name => strings.any (· = name)).or strings.head?

def dateField (schema : ItemSchema) : Option String := (schema.find? fun f => f.2 = .date).map (·.1)

def cardDays : Window → Int
  | .today => 1
  | .week => 7
  | .month => 31
  | .quarter => 91
  | .all => 31

def Card.agg_ (card : Card) : Agg := card.agg.getD (if card.field.isSome then .sum else .count)

/-- The computed of `_expand_tracker_card`. -/
def Card.metric (card : Card) (schema : ItemSchema) : ListSpec :=
  match dateField schema with
  | some name =>
    if card.window = .all then { agg := card.agg_, field := card.field, window := card.window }
    else { agg := card.agg_, field := card.field, where_ := some (name, cardDays card.window) }
  | none => { agg := card.agg_, field := card.field, window := card.window }

/-- The chart's data of `_expand_tracker_card`. -/
def Card.data (card : Card) (schema : ItemSchema) : Option ChartData :=
  card.chart.map fun kind =>
    if kind = .pie ∨ kind = .donut then
      match (card.by_.filter (· ≠ "")).or (categoryField schema) with
      | some cat => { window := card.window, field := card.field, by_ := cat, agg := some (if card.field.isSome then .sum else .count) }
      | none => { window := card.window, field := card.field }
    else { window := card.window, field := card.field, bucket := some .day }

/-! ## The number -/

/-- A row, with the day that its date field names. -/
structure Row where
  date : Int
  fields : Json

def Row.number (r : Row) (field : Option String) : Option Rat := field.bind fun f => (r.fields.get f).num?

def constantNames : List String := ["True", "False", "None"]

def keywords : List String :=
  ["and", "as", "assert", "async", "await", "break", "class", "continue", "def", "del", "elif", "else", "except", "finally",
    "for", "from", "global", "if", "import", "in", "is", "lambda", "nonlocal", "not", "or", "pass", "raise", "return", "try",
    "while", "with", "yield"]

/-- Whether a row passes `days_since(name) >= 0 and days_since(name) < days`; a constant is no date. -/
def passes (name : String) (days today : Int) (r : Row) : Bool :=
  !constantNames.any (· = name) && decide (0 ≤ today - r.date) && decide (today - r.date < days)

/-- The rows that the `where` lets through; one that does not parse raises at the first row. -/
def selected (spec : ListSpec) (rows : List Row) (today : Int) : Option (List Row) :=
  match spec.where_ with
  | none => some rows
  | some (name, days) =>
    if keywords.any (· = name) && !rows.isEmpty then none else some (rows.filter (passes name days today))

def aggregateList (spec : ListSpec) (rows : List Row) (now : Int) (z : Zone) : Option Rat :=
  (selected spec rows (z.date now)).map fun kept =>
    if spec.agg = .count then kept.length else applyAgg (kept.filterMap fun r => r.number spec.field) spec.agg

/-! ## The chart -/

def HALF_DAY_MS : Int := 12 * 3600 * 1000

def rowTs (z : Zone) (day : Int) : Int := z.dateStart day + HALF_DAY_MS

def Row.drawn (r : Row) : Option String → Option Rat
  | some f => (r.fields.get f).num?
  | none => some 1

def rowsAsEvents (z : Zone) (rows : List Row) (field date cat : Option String) (now : Int) : List Event :=
  (rows.filterMap fun r => (r.drawn field).map fun value =>
    { ts := if date.isSome then rowTs z r.date else now, value, category := cat.elim .null r.fields.get }).mergeSort
      fun e e' => e.ts ≤ e'.ts

/-- `eod_ms`. -/
def endOfDay (z : Zone) (now : Int) : Int := z.dateStart (z.date now) + DAY_MS - 1

/-- What `resolve_values` gives a chart over a list: slices, or buckets. -/
def resolveChart (str : Json → String) (z : Zone) (schema : ItemSchema) (data : ChartData) (rows : List Row) (now : Int) :
    List (String × Rat) ⊕ List (Int × Rat) :=
  let events := rowsAsEvents z rows data.field (dateField schema) data.by_ now
  match data.by_ with
  | some _ => .inl (categoryBreakdown str z (data.agg.getD .sum) data.window events (endOfDay z now))
  | none => .inr (aggregateBuckets z (data.agg.getD .sum) (data.bucket.getD .day) data.window events (endOfDay z now))

/-- The sum of a chart's values. -/
def chartTotal : List (String × Rat) ⊕ List (Int × Rat) → Rat
  | .inl slices => (slices.map (·.2)).sum
  | .inr buckets => (buckets.map (·.2)).sum

/-! ## What each of them adds up -/

/-- Whether the number is of a row. -/
def kept (spec : ListSpec) (today : Int) (r : Row) : Bool := spec.where_.all fun w => passes w.1 w.2 today r

def shown (z : Zone) (data : ChartData) (now : Int) (r : Row) : Bool :=
  match windowStart z data.window (endOfDay z now) with
  | some start => decide (start ≤ rowTs z r.date) && decide (rowTs z r.date ≤ endOfDay z now)
  | none => data.by_.isSome || decide (rowTs z r.date ≤ endOfDay z now)

def ListSpec.counts (spec : ListSpec) (r : Row) : Rat := if spec.agg = .count then 1 else (r.number spec.field).getD 0

def ChartData.draws (data : ChartData) (r : Row) : Rat := (r.drawn data.field).getD 0

/-- The rows that only the number keeps and those that only the chart keeps come to the same, with what the two count
of the others. -/
def Even (spec : ListSpec) (data : ChartData) (z : Zone) (rows : List Row) (now : Int) : Prop :=
  ((rows.filter fun r => kept spec (z.date now) r && !shown z data now r).map spec.counts).sum +
      ((rows.filter fun r => kept spec (z.date now) r && shown z data now r).map fun r => spec.counts r - data.draws r).sum =
    ((rows.filter fun r => !kept spec (z.date now) r && shown z data now r).map data.draws).sum

instance (spec : ListSpec) (data : ChartData) (z : Zone) (rows : List Row) (now : Int) : Decidable (Even spec data z rows now) :=
  inferInstanceAs (Decidable (_ = _))

/-- The `where` parses, or it is not looked at. -/
def Parses (spec : ListSpec) (rows : List Row) : Prop := ∀ w, spec.where_ = some w → w.1 ∉ keywords ∨ rows = []

section Sums

variable {α β : Type}

theorem sum_map_filter (p : α → Bool) (f : α → Rat) (xs : List α) :
    ((xs.filter p).map f).sum = (xs.map fun x => if p x then f x else 0).sum := by
  induction xs with
  | nil => rfl
  | cons x xs ih =>
    rw [List.map_cons, List.sum_cons, ← ih]
    by_cases hp : p x
    · rw [List.filter_cons_of_pos hp, List.map_cons, List.sum_cons, if_pos hp]
    · rw [List.filter_cons_of_neg hp, if_neg hp, zero_add]

theorem sum_filterMap (f : α → Option β) (p : β → Bool) (w : β → Rat) (xs : List α) :
    (((xs.filterMap f).filter p).map w).sum = (xs.map fun x => ((f x).filter p).elim 0 w).sum := by
  induction xs with
  | nil => rfl
  | cons x xs ih =>
    rw [List.map_cons, List.sum_cons, ← ih]
    cases hx : f x with
    | none => simp [List.filterMap_cons_none hx]
    | some y =>
      rw [List.filterMap_cons_some hx]
      by_cases hp : p y
      · rw [List.filter_cons_of_pos hp, List.map_cons, List.sum_cons, Option.filter_some_pos hp]
        rfl
      · rw [List.filter_cons_of_neg hp, Option.filter_some_neg (Bool.eq_false_iff.2 hp)]
        exact (zero_add _).symm

/-- Two sums over parts of a list, by where the parts differ. -/
theorem sum_eq_iff (p q : α → Bool) (f g : α → Rat) (xs : List α) :
    ((xs.filter p).map f).sum = ((xs.filter q).map g).sum ↔
      ((xs.filter fun x => p x && !q x).map f).sum + ((xs.filter fun x => p x && q x).map fun x => f x - g x).sum =
        ((xs.filter fun x => !p x && q x).map g).sum := by
  have hleft : ((xs.filter p).map f).sum = ((xs.filter fun x => p x && !q x).map f).sum +
      ((xs.filter fun x => p x && q x).map fun x => f x - g x).sum + ((xs.filter fun x => p x && q x).map g).sum := by
    simp only [sum_map_filter, ← List.sum_map_add]
    congr 1
    refine List.map_congr_left fun x _ => ?_
    cases p x <;> cases q x <;> simp
  have hright : ((xs.filter q).map g).sum =
      ((xs.filter fun x => !p x && q x).map g).sum + ((xs.filter fun x => p x && q x).map g).sum := by
    simp only [sum_map_filter, ← List.sum_map_add]
    congr 1
    refine List.map_congr_left fun x _ => ?_
    cases p x <;> cases q x <;> simp
  rw [hleft, hright, add_left_inj]

end Sums

section Card

variable {z : Zone} {rows : List Row} {now : Int}

theorem aggregateList_eq {spec : ListSpec} (h : spec.agg.Additive) (hparses : Parses spec rows) :
    aggregateList spec rows now z = some ((rows.filter (kept spec (z.date now))).map spec.counts).sum := by
  have hsum (xs : List Row) : (if spec.agg = .count then (xs.length : Rat)
      else applyAgg (xs.filterMap fun r => r.number spec.field) spec.agg) = (xs.map spec.counts).sum := by
    unfold ListSpec.counts
    rcases h with hsum | hcount
    · rw [hsum, if_neg (by decide)]
      have hall := sum_filterMap (fun r : Row => r.number spec.field) (fun _ => true) id xs
      rw [List.filter_true, List.map_id] at hall
      refine hall.trans ?_
      congr 1
      refine List.map_congr_left fun r _ => ?_
      rw [if_neg (by decide)]
      cases r.number spec.field <;> rfl
    · simp [hcount]
  unfold aggregateList selected kept
  cases hwhere : spec.where_ with
  | none =>
    rw [Option.map_some, hsum]
    simp
  | some w =>
    have hgood : (keywords.any (· = w.1) && !rows.isEmpty) = false := by
      rcases hparses w hwhere with hno | rfl
      · have hany : keywords.any (· = w.1) = false := List.any_eq_false.2 fun k hk => by
          rw [decide_eq_true_eq]
          rintro rfl
          exact hno hk
        rw [hany, Bool.false_and]
      · exact Bool.and_false _
    dsimp only
    rw [hgood, if_neg Bool.false_ne_true, Option.map_some, hsum]
    rfl

/-- A `where` that does not parse raises. -/
theorem aggregateList_raises {spec : ListSpec} (h : ¬ Parses spec rows) : aggregateList spec rows now z = none := by
  unfold Parses at h
  push Not at h
  obtain ⟨w, hwhere, hkey, hrows⟩ := h
  have hbad : (keywords.any (· = w.1) && !rows.isEmpty) = true := by
    rw [Bool.and_eq_true, List.any_eq_true]
    exact ⟨⟨w.1, hkey, decide_eq_true rfl⟩, by simpa using hrows⟩
  unfold aggregateList selected
  rw [hwhere]
  dsimp only
  rw [hbad, if_pos rfl]
  rfl

/-- What a chart adds up to, if it counts rows or adds them. -/
theorem chartTotal_eq {schema : ItemSchema} {data : ChartData} {name : String} (str : Json → String)
    (hdate : dateField schema = some name) (h : (data.agg.getD .sum).Additive) (hcount : data.agg = some .count → data.field = none) :
    chartTotal (resolveChart str z schema data rows now) = ((rows.filter (shown z data now)).map data.draws).sum := by
  have hevents (p : Int → Bool) :
      (((rowsAsEvents z rows data.field (dateField schema) data.by_ now).filter fun e => p e.ts).map (data.agg.getD .sum).weight).sum =
        ((rows.filter fun r => p (rowTs z r.date)).map data.draws).sum := by
    unfold rowsAsEvents
    simp only [hdate, Option.isSome_some, if_true]
    rw [(((List.mergeSort_perm _ _).filter _).map _).sum_eq, sum_filterMap, sum_map_filter]
    congr 1
    refine List.map_congr_left fun r _ => ?_
    unfold ChartData.draws
    cases hdrawn : r.drawn data.field with
    | none => simp
    | some v =>
      have hweight : ∀ e : Event, e.value = v → (data.agg.getD .sum).weight e = v := by
        intro e he
        unfold Agg.weight
        split_ifs with hagg
        · have hsome : data.agg = some .count := by
            cases hd : data.agg with
            | none => rw [hd] at hagg; cases hagg
            | some a => rw [hd] at hagg; exact congrArg some hagg
          rw [hcount hsome] at hdrawn
          exact Option.some.inj hdrawn
        · exact he
      rw [Option.map_some, Option.getD_some]
      by_cases hp : p (rowTs z r.date)
      · rw [if_pos hp, Option.filter_some_pos (p := fun e : Event => p e.ts) hp]
        exact hweight _ rfl
      · rw [if_neg hp, Option.filter_some_neg (p := fun e : Event => p e.ts) (Bool.eq_false_iff.2 hp)]
        rfl
  unfold resolveChart shown
  generalize rowsAsEvents z rows data.field (dateField schema) data.by_ now = events at hevents
  cases hby : data.by_ with
  | some cat =>
    refine (breakdown_pie str z data.window events (endOfDay z now) h).2.trans ?_
    unfold inPie
    cases hstart : windowStart z data.window (endOfDay z now) with
    | some start => exact hevents fun ts => decide (start ≤ ts) && decide (ts ≤ endOfDay z now)
    | none => exact hevents fun _ => true
  | none =>
    refine (scalar_eq_buckets h).symm.trans ((scalar_eq_sum h).trans ?_)
    unfold within
    cases hstart : windowStart z data.window (endOfDay z now) with
    | some start => exact hevents fun ts => decide (start ≤ ts) && decide (ts ≤ endOfDay z now)
    | none => exact hevents fun ts => decide (ts ≤ endOfDay z now)

theorem Card.data_count {card : Card} {schema : ItemSchema} {data : ChartData} (h : card.data schema = some data) :
    (data.agg.getD .sum).Additive ∧ (data.agg = some .count → data.field = none) := by
  obtain ⟨kind, -, rfl⟩ := Option.map_eq_some_iff.1 h
  split
  · split
    · cases card.field with
      | none => exact ⟨.inr rfl, fun _ => rfl⟩
      | some f => exact ⟨.inl rfl, fun hcount => by cases hcount⟩
    · exact ⟨.inl rfl, fun hcount => by cases hcount⟩
  · exact ⟨.inl rfl, fun hcount => by cases hcount⟩

end Card

/-- A card's number is the total of its chart just where its `where` parses and the rows that one of the two leaves out
come to the same. -/
theorem card_agrees_iff (str : Json → String) (z : Zone) (schema : ItemSchema) (card : Card) {data : ChartData} {name : String}
    (rows : List Row) (now : Int) (hdate : dateField schema = some name) (hagg : card.agg_.Additive)
    (hdata : card.data schema = some data) :
    aggregateList (card.metric schema) rows now z = some (chartTotal (resolveChart str z schema data rows now)) ↔
      Parses (card.metric schema) rows ∧ Even (card.metric schema) data z rows now := by
  have hspec : (card.metric schema).agg.Additive := by
    unfold Card.metric
    rw [hdate]
    dsimp only
    split_ifs <;> exact hagg
  obtain ⟨hadd, hcount⟩ := Card.data_count hdata
  by_cases hparses : Parses (card.metric schema) rows
  · rw [aggregateList_eq hspec hparses, chartTotal_eq str hdate hadd hcount, Option.some_inj, sum_eq_iff]
    exact (and_iff_right hparses).symm
  · rw [aggregateList_raises hparses]
    exact ⟨nofun, fun h => absurd h.1 hparses⟩

namespace Sample

def spend : Card := { field := some "amount", chart := some .bar }

def expenses : ItemSchema := [("day", .date), ("amount", .number)]

def expense (days : Int) (amount : Rat) : Row := { date := -days, fields := .obj [("amount", .num amount)] }

def spendData : ChartData := { window := .month, field := some "amount", bucket := some .day }

/-- An expense of yesterday is in both. -/
theorem card_agrees_yesterday : aggregateList (spend.metric expenses) [expense 1 5] 0 {} =
    some (chartTotal (resolveChart (fun _ => "") {} expenses spendData [expense 1 5] 0)) :=
  (card_agrees_iff (fun _ => "") {} expenses spend [expense 1 5] 0 rfl (.inl rfl) rfl).2
    ⟨fun w hw => .inl (by cases hw; decide), by decide +kernel⟩

/-- The number has an expense of 30 days ago, and the chart does not. -/
theorem thirty_days_ago : ¬ aggregateList (spend.metric expenses) [expense 30 5] 0 {} =
    some (chartTotal (resolveChart (fun _ => "") {} expenses spendData [expense 30 5] 0)) := by
  decide +kernel

end Sample

end Flowly.Flowlets.Series
