/-
  Flowly.Cron.Zones — a cron schedule across clock changes (`flowly/cron/service.py`:
  `_next_cron_datetime`, and `_compute_next_run` of a cron schedule).

  The search goes over wall times, in their order; the schedule is due at instants, in
  theirs. A zone's offset changes finitely often: between two changes the two orders are
  one, a gap has wall times at no instant and an overlap has them at two, of which the
  code takes the first. The orders agree on the wall times that exist just where no wall
  time that a clock has passed comes for the first time later on (`Zone.NoReturn`): there
  the search finds the least instant, and one fire after another misses no wall time and
  repeats none. A zone breaks it with a gap and, before the clock has gone on by the size
  of the gap, an overlap that brings the skipped wall times back.
-/

import Flowly.Cron.Job
import Mathlib.Data.List.Chain

namespace Flowly.Cron

/-! ## Zones -/

/-- The offset at an instant, in a zone whose offset is `o` before its transitions. -/
def offsetAt (o : Int) : List (Int × Int) → Int → Int
  | [], _ => o
  | (s, o') :: rest, t => if t < s then o else offsetAt o' rest t

def DAY_MS : Int := 24 * 60 * 60 * 1000

/-- A zone: instants at which its offset changes, each with the offset from then on. -/
structure Zone where
  initial : Int
  transitions : List (Int × Int)
  sorted : (transitions.map (·.1)).IsChain (· < ·)
  /-- A gap or an overlap is of a day at most. -/
  jumps : (initial :: transitions.map (·.2)).IsChain (fun a b => b ≤ a + DAY_MS ∧ a ≤ b + DAY_MS)
  /-- `wall.replace(tzinfo=tzinfo, fold=0).timestamp()`. -/
  timestamp : Int → Int
  /-- Of a wall time that is there, it is the first instant; of one that is not, any. -/
  first : ∀ w t, t + offsetAt initial transitions t = w →
    timestamp w + offsetAt initial transitions (timestamp w) = w ∧ timestamp w ≤ t

/-- `datetime.fromtimestamp(t, tz=tzinfo).replace(tzinfo=None)`. -/
def Zone.wall (z : Zone) (t : Int) : Int := t + offsetAt z.initial z.transitions t

def Zone.Has (z : Zone) (w : Int) : Prop := ∃ t, z.wall t = w

/-- The instant of a candidate, unless its wall time does not exist. -/
def Zone.instant (z : Zone) (w : Int) : Option Int :=
  if z.wall (z.timestamp w) ≠ w then none else some (z.timestamp w)

/-- The wall times behind a clock are those it has shown. -/
def Zone.NoReturn (z : Zone) : Prop := ∀ w t₀, z.Has w → w ≤ z.wall t₀ → ∃ t ≤ t₀, z.wall t = w

variable {z : Zone}

theorem Zone.wall_timestamp {w : Int} (h : z.Has w) : z.wall (z.timestamp w) = w := by
  obtain ⟨t, ht⟩ := h
  exact (z.first w t ht).1

theorem Zone.timestamp_le {w t : Int} (h : z.wall t = w) : z.timestamp w ≤ t := (z.first w t h).2

theorem Zone.instant_eq_some {w n : Int} : z.instant w = some n ↔ z.Has w ∧ z.timestamp w = n := by
  unfold Zone.instant
  constructor
  · intro h
    split at h
    · cases h
    · next hw => exact ⟨⟨_, not_not.mp hw⟩, Option.some.inj h⟩
  · rintro ⟨hw, rfl⟩
    rw [if_neg (not_not.mpr (Zone.wall_timestamp hw))]

/-! ### The two orders -/

/-- A wall time still to come by the instants is ahead on the clock. -/
theorem Zone.NoReturn.ahead (hz : z.NoReturn) {w t₀ : Int} (hw : z.Has w) (h : t₀ < z.timestamp w) :
    z.wall t₀ < w := by
  by_contra hle
  obtain ⟨t, ht, htw⟩ := hz w t₀ hw (by omega)
  have := Zone.timestamp_le htw
  omega

theorem Zone.NoReturn.timestamp_lt (hz : z.NoReturn) {v w : Int} (hv : z.Has v) (hw : z.Has w)
    (h : v < w) : z.timestamp v < z.timestamp w := by
  have hwall := Zone.wall_timestamp hw
  obtain ⟨t, ht, htv⟩ := hz v (z.timestamp w) hv (by omega)
  have hle := Zone.timestamp_le htv
  have hne : z.timestamp v ≠ z.timestamp w := by
    intro he
    rw [← he, Zone.wall_timestamp hv] at hwall
    omega
  omega

theorem Zone.NoReturn.timestamp_le_timestamp (hz : z.NoReturn) {v w : Int} (hv : z.Has v) (hw : z.Has w)
    (h : v ≤ w) : z.timestamp v ≤ z.timestamp w := by
  rcases Int.lt_or_eq_of_le h with hlt | rfl
  · exact Int.le_of_lt (hz.timestamp_lt hv hw hlt)
  · exact Int.le_refl _

/-! ### Transitions far apart -/

/-- A day between any two transitions. -/
def Spaced (transitions : List (Int × Int)) : Prop :=
  (transitions.map (·.1)).IsChain (fun s s' => s + DAY_MS ≤ s')

variable {ts : List (Int × Int)}

/-- The clock does not go behind where a piece begins, where the pieces are days and the jumps of a day at most. -/
theorem le_wall_of_spaced {g o : Int} (hs : (g :: ts.map (·.1)).IsChain (fun s s' => s + DAY_MS ≤ s'))
    (hj : (o :: ts.map (·.2)).IsChain (fun a b => b ≤ a + DAY_MS ∧ a ≤ b + DAY_MS)) {t : Int} (ht : g ≤ t) :
    g + o ≤ t + offsetAt o ts t := by
  induction ts generalizing g o with
  | nil => simp only [offsetAt]; omega
  | cons p rest ih =>
    obtain ⟨s, o'⟩ := p
    simp only [List.map_cons, List.isChain_cons_cons] at hs hj
    unfold offsetAt
    split
    · omega
    · next hle =>
      have := ih hs.2 hj.2 (by omega)
      omega

theorem offsetAt_before {s o : Int}
    (hs : (s :: ts.map (·.1)).IsChain (fun s s' => s + DAY_MS ≤ s')) {t : Int} (ht : t < s) : offsetAt o ts t = o := by
  cases ts with
  | nil => rfl
  | cons p rest =>
    simp only [List.map_cons, List.isChain_cons_cons] at hs
    have hday : DAY_MS = 86400000 := by decide
    unfold offsetAt
    rw [if_pos (by omega)]

/-- By the pieces: a wall time is shown in the first, is skipped by its end for good, or is a matter of the rest. -/
theorem noReturn_of_spaced {o : Int} (hs : Spaced ts)
    (hj : (o :: ts.map (·.2)).IsChain (fun a b => b ≤ a + DAY_MS ∧ a ≤ b + DAY_MS)) {t t₀ : Int}
    (hle : t + offsetAt o ts t ≤ t₀ + offsetAt o ts t₀) :
    ∃ t' ≤ t₀, t' + offsetAt o ts t' = t + offsetAt o ts t := by
  induction ts generalizing o with
  | nil => exact ⟨t, by simpa [offsetAt] using hle, rfl⟩
  | cons p rest ih =>
    obtain ⟨s, o'⟩ := p
    have hs' : (s :: rest.map (·.1)).IsChain (fun s s' => s + DAY_MS ≤ s') := hs
    have htail : Spaced rest := List.IsChain.tail hs'
    simp only [List.map_cons, List.isChain_cons_cons] at hj
    generalize hw : t + offsetAt o ((s, o') :: rest) t = w at hle ⊢
    by_cases hfirst : w < s + o ∨ t₀ < s
    · -- the clock of the first piece shows it
      refine ⟨w - o, ?_, ?_⟩
      · unfold offsetAt at hle
        split at hle <;> omega
      · unfold offsetAt at hle ⊢
        split at hle <;> rw [if_pos (by omega)] <;> omega
    · have ht₀ : ¬ t₀ < s := by omega
      have ht : ¬ t < s := by
        intro hlt
        rw [offsetAt, if_pos hlt] at hw
        omega
      rw [offsetAt, if_neg ht] at hw
      rw [offsetAt, if_neg ht₀] at hle
      have hge := le_wall_of_spaced hs' hj.2 (Int.not_lt.mp ht)
      obtain ⟨t', hle', ht'⟩ := ih htail hj.2 (hw ▸ hle)
      refine ⟨t', hle', ?_⟩
      have hnot : ¬ t' < s := by
        intro hlt
        rw [offsetAt_before hs' hlt] at ht'
        omega
      rw [offsetAt, if_neg hnot]
      omega

theorem Zone.noReturn_of_spaced (h : Spaced z.transitions) : z.NoReturn := by
  rintro w t₀ ⟨t, rfl⟩ hle
  exact Cron.noReturn_of_spaced h z.jumps hle

/-! ## Wall times -/

/-- A `croniter`: of the wall times that match its expression, the next after a wall time. -/
structure Croniter where
  Matches : Int → Prop
  /-- None where it raises, having found no more. -/
  getNext : Int → Option Int
  next : ∀ base w, getNext base = some w → Matches w ∧ base < w ∧ ∀ v, Matches v → base < v → w ≤ v

/-- The `k`-th `cron.get_next` from a base on. -/
def Croniter.walls (c : Croniter) (base : Int) : Nat → Option Int
  | 0 => c.getNext base
  | k + 1 => (c.walls base k).bind c.getNext

variable {c : Croniter}

theorem Croniter.walls_matches {base w : Int} {k : Nat} (h : c.walls base k = some w) :
    c.Matches w ∧ base < w := by
  induction k generalizing w with
  | zero =>
    obtain ⟨hm, hlt, -⟩ := c.next base w h
    exact ⟨hm, hlt⟩
  | succ k ih =>
    obtain ⟨u, hu, hw⟩ := Option.bind_eq_some_iff.mp h
    obtain ⟨hm, hlt, -⟩ := c.next u w hw
    exact ⟨hm, Int.lt_trans (ih hu).2 hlt⟩

/-- The search leaves out none. -/
theorem Croniter.walls_complete {base v w : Int} {k : Nat} (h : c.walls base k = some w)
    (hv : c.Matches v) (hb : base < v) (hlt : v < w) : ∃ j < k, c.walls base j = some v := by
  induction k generalizing w with
  | zero =>
    have hle := (c.next base w h).2.2 v hv hb
    omega
  | succ k ih =>
    obtain ⟨u, hu, hw⟩ := Option.bind_eq_some_iff.mp h
    rcases Int.lt_trichotomy v u with hvu | rfl | huv
    · obtain ⟨j, hj, hjv⟩ := ih hu hvu
      exact ⟨j, by omega, hjv⟩
    · exact ⟨k, by omega, hu⟩
    · have hle := (c.next u w hw).2.2 v hv huv
      omega

/-- What the service takes from outside, with the zones and the expressions it can read. -/
structure Calendar where
  zones : Option String → Option Zone
  crons : String → Except String Croniter
  runTime : Int → Int
  runTime_le : ∀ t, runTime t ≤ t
  idText : RunId → String

/-- The loop of `_next_cron_datetime` at its `k`-th turn. -/
def Zone.candidate (z : Zone) (c : Croniter) (after : Int) (k : Nat) : Option Int :=
  (c.walls (z.wall after) k).bind z.instant

def Calendar.host (cal : Calendar) : Host where
  zone tz := (cal.zones tz).isSome
  croniterError expr := match cal.crons expr with
    | .error exc => some exc
    | .ok _ => none
  getNext expr tz after k :=
    match cal.zones tz, cal.crons expr with
    | some z, .ok c => z.candidate c after k
    | _, _ => none
  runTime := cal.runTime
  runTime_le := cal.runTime_le
  idText := cal.idText

/-- The instants at which a schedule is due: the first of each matching wall time that exists. -/
def Zone.Due (z : Zone) (c : Croniter) (n : Int) : Prop := ∃ w, c.Matches w ∧ z.Has w ∧ z.timestamp w = n

theorem Zone.candidate_eq_some {after n : Int} {k : Nat} (h : z.candidate c after k = some n) :
    ∃ w, c.walls (z.wall after) k = some w ∧ z.Has w ∧ z.timestamp w = n := by
  obtain ⟨w, hw, hn⟩ := Option.bind_eq_some_iff.mp h
  exact ⟨w, hw, Zone.instant_eq_some.mp hn⟩

/-- The turn at which the loop returns, and the ones before it. -/
theorem firstAfter_eq_some {instants : Nat → Option Int} {after n : Int} {tries k : Nat}
    (h : firstAfter instants after tries k = some n) :
    ∃ j, instants j = some n ∧ after < n ∧ ∀ i, k ≤ i → i < j → ∀ m, instants i = some m → m ≤ after := by
  induction tries generalizing k with
  | zero => cases h
  | succ tries ih =>
    unfold firstAfter at h
    split at h
    · next m hm =>
      cases h
      obtain ⟨hk, hlt⟩ := Option.filter_eq_some_iff.mp hm
      exact ⟨k, hk, by simpa using hlt, fun i hi hik => by omega⟩
    · next hnone =>
      obtain ⟨j, hj, hlt, hbefore⟩ := ih h
      refine ⟨j, hj, hlt, fun i hi hij m hm => ?_⟩
      rcases Nat.lt_or_eq_of_le hi with hki | rfl
      · exact hbefore i hki hij m hm
      · have := Option.filter_eq_none_iff.mp hnone m hm
        simpa using this

/-- `n` is the first due instant after `after`. -/
structure Zone.IsNext (z : Zone) (c : Croniter) (after n : Int) : Prop where
  due : z.Due c n
  later : after < n
  least : ∀ m, z.Due c m → after < m → n ≤ m

theorem Zone.NoReturn.isNext (hz : z.NoReturn) {after n : Int} {tries : Nat}
    (h : firstAfter (z.candidate c after) after tries 0 = some n) : z.IsNext c after n := by
  obtain ⟨k, hk, hlt, hbefore⟩ := firstAfter_eq_some h
  obtain ⟨w, hw, hhas, rfl⟩ := Zone.candidate_eq_some hk
  refine ⟨⟨w, (Croniter.walls_matches hw).1, hhas, rfl⟩, hlt, ?_⟩
  rintro _ ⟨v, hv, hvhas, rfl⟩ hafter
  by_contra hless
  have hvw : v < w := by
    by_contra hge
    have := hz.timestamp_le_timestamp hhas hvhas (Int.not_lt.mp hge)
    omega
  -- a wall time between the clock at `after` and the one found was tried before it
  obtain ⟨j, hj, hjv⟩ := Croniter.walls_complete hw hv (hz.ahead hvhas hafter) hvw
  have hcand : z.candidate c after j = some (z.timestamp v) :=
    Option.bind_eq_some_iff.mpr ⟨v, hjv, Zone.instant_eq_some.mpr ⟨hvhas, rfl⟩⟩
  have := hbefore j (Nat.zero_le j) hj _ hcand
  omega

/-! ## Fires -/

/-- The `k`-th fire from `start` on, each search starting at the fire before. -/
def fireAt (host : Host) (expr : String) (tz : Option String) (start : Int) : Nat → Option Int
  | 0 => nextCronDatetime host expr tz start
  | k + 1 => (fireAt host expr tz start k).bind (nextCronDatetime host expr tz)

section

variable {host : Host} {expr : String} {tz : Option String} {start : Int}

theorem fireAt_before {j k : Nat} {n : Int} (h : fireAt host expr tz start k = some n) (hjk : j < k) :
    ∃ m, fireAt host expr tz start j = some m ∧ m < n := by
  induction k generalizing n with
  | zero => omega
  | succ k ih =>
    obtain ⟨u, hu, hn⟩ := Option.bind_eq_some_iff.mp h
    have hlt := nextCronDatetime_gt hn
    rcases Nat.lt_or_eq_of_le (Nat.lt_succ_iff.mp hjk) with hj | rfl
    · obtain ⟨m, hm, hmu⟩ := ih hu hj
      exact ⟨m, hm, by omega⟩
    · exact ⟨u, hu, hlt⟩

theorem fireAt_injective {j k : Nat} {n : Int} (hj : fireAt host expr tz start j = some n)
    (hk : fireAt host expr tz start k = some n) : j = k := by
  rcases Nat.lt_trichotomy j k with hlt | rfl | hgt
  · obtain ⟨m, hm, hmn⟩ := fireAt_before hk hlt
    rw [hj] at hm
    cases hm
    omega
  · rfl
  · obtain ⟨m, hm, hmn⟩ := fireAt_before hj hgt
    rw [hk] at hm
    cases hm
    omega

theorem fireAt_gt {k : Nat} {n : Int} (h : fireAt host expr tz start k = some n) : start + k < n := by
  induction k generalizing n with
  | zero =>
    have := nextCronDatetime_gt h
    omega
  | succ k ih =>
    obtain ⟨u, hu, hn⟩ := Option.bind_eq_some_iff.mp h
    have hlt := nextCronDatetime_gt hn
    have := ih hu
    omega

end

variable {cal : Calendar}

theorem Calendar.nextCronDatetime_eq {expr : String} {tz : Option String}
    (hz : cal.zones tz = some z) (hc : cal.crons expr = .ok c) (after : Int) :
    nextCronDatetime cal.host expr tz after = firstAfter (z.candidate c after) after 100000 0 := by
  have hget : cal.host.getNext expr tz after = z.candidate c after := by
    funext k
    simp only [Calendar.host, hz, hc]
  unfold nextCronDatetime
  rw [if_pos (by simp [Calendar.host, hz]), hget]

theorem Calendar.isNext {expr : String} {tz : Option String}
    (hz : cal.zones tz = some z) (hc : cal.crons expr = .ok c) (hn : z.NoReturn) {after n : Int}
    (h : nextCronDatetime cal.host expr tz after = some n) : z.IsNext c after n :=
  hn.isNext (Calendar.nextCronDatetime_eq hz hc after ▸ h)

theorem Calendar.computeNextRun_isNext {s : CronSchedule} {expr : String}
    (hk : s.kind = .cron) (he : s.expr = some expr) (hz : cal.zones s.tz = some z) (hc : cal.crons expr = .ok c)
    (hn : z.NoReturn) {now n : Int} (h : computeNextRun cal.host s now = some n) : z.IsNext c now n := by
  unfold computeNextRun at h
  rw [hk] at h
  obtain ⟨expr', hexpr, hnext⟩ := Option.bind_eq_some_iff.mp h
  obtain rfl : expr = expr' := by
    rw [he] at hexpr
    exact Option.some.inj (Option.filter_eq_some_iff.mp hexpr).1
  exact Calendar.isNext hz hc hn hnext

/-- Each fire is due; what is due by then has been fired. -/
theorem Calendar.fireAt_due {expr : String} {tz : Option String}
    (hz : cal.zones tz = some z) (hc : cal.crons expr = .ok c) (hn : z.NoReturn) {start n : Int} {k : Nat}
    (h : fireAt cal.host expr tz start k = some n) :
    z.Due c n ∧ ∀ m, z.Due c m → start < m → m ≤ n → ∃ j ≤ k, fireAt cal.host expr tz start j = some m := by
  induction k generalizing n with
  | zero =>
    have hnext := Calendar.isNext hz hc hn h
    refine ⟨hnext.due, fun m hm hlt hle => ⟨0, Nat.le_refl 0, ?_⟩⟩
    have := hnext.least m hm hlt
    rw [show m = n by omega]
    exact h
  | succ k ih =>
    obtain ⟨u, hu, hn'⟩ := Option.bind_eq_some_iff.mp h
    have hnext := Calendar.isNext hz hc hn hn'
    refine ⟨hnext.due, fun m hm hlt hle => ?_⟩
    by_cases hmu : m ≤ u
    · obtain ⟨j, hj, hjm⟩ := (ih hu).2 m hm hlt hmu
      exact ⟨j, by omega, hjm⟩
    · have := hnext.least m hm (by omega)
      refine ⟨k + 1, Nat.le_refl _, ?_⟩
      rw [show m = n by omega]
      exact h

/-! ### The zones where it holds -/

theorem offsetAt_bounded (o : Int) (ts : List (Int × Int)) :
    ∃ b ≥ 0, ∀ t, -b ≤ offsetAt o ts t ∧ offsetAt o ts t ≤ b := by
  induction ts generalizing o with
  | nil => exact ⟨max o (-o), by omega, fun t => by simp only [offsetAt]; omega⟩
  | cons p rest ih =>
    obtain ⟨b, hb, hall⟩ := ih p.2
    refine ⟨max b (max o (-o)), by omega, fun t => ?_⟩
    have := hall t
    unfold offsetAt
    split <;> omega

/-- A wall time past those of every instant up to `t₀`. -/
theorem Zone.exists_ahead (z : Zone) (t₀ : Int) : ∃ w, z.Has w ∧ t₀ < z.timestamp w ∧ ∀ t ≤ t₀, z.wall t < w := by
  obtain ⟨b, hb, hall⟩ := offsetAt_bounded z.initial z.transitions
  have hahead : ∀ t ≤ t₀, z.wall t < z.wall (t₀ + 2 * b + 1) := by
    intro t ht
    have h₁ := hall t
    have h₂ := hall (t₀ + 2 * b + 1)
    simp only [Zone.wall]
    omega
  refine ⟨z.wall (t₀ + 2 * b + 1), ⟨_, rfl⟩, ?_, hahead⟩
  by_contra hle
  have hlt := hahead _ (Int.not_lt.mp hle)
  rw [Zone.wall_timestamp ⟨_, rfl⟩] at hlt
  omega

def Croniter.pair (v w : Int) (h : v < w) : Croniter where
  Matches u := u = v ∨ u = w
  getNext base := if base < v then some v else if base < w then some w else none
  next base u hu := by
    split at hu
    · cases hu
      refine ⟨.inl rfl, by omega, ?_⟩
      rintro _ (rfl | rfl) hlt <;> omega
    · split at hu
      · cases hu
        refine ⟨.inr rfl, by omega, ?_⟩
        rintro _ (rfl | rfl) hlt <;> omega
      · cases hu

/-- Where a wall time comes late, the search is past it. -/
theorem Zone.noReturn_of_isNext
    (h : ∀ c after n, firstAfter (z.candidate c after) after 100000 0 = some n → z.IsNext c after n) :
    z.NoReturn := by
  intro v t₀ hv hle
  by_contra hnone
  have hlate : t₀ < z.timestamp v := by
    by_contra hge
    exact hnone ⟨z.timestamp v, Int.not_lt.mp hge, Zone.wall_timestamp hv⟩
  obtain ⟨w, hw, hwlate, hahead⟩ := z.exists_ahead (z.timestamp v)
  have hvw : v < w := by
    have := hahead _ (Int.le_refl _)
    rwa [Zone.wall_timestamp hv] at this
  have ht₀ : z.wall t₀ < w := hahead t₀ (by omega)
  have hfirst : z.candidate (.pair v w hvw) t₀ 0 = some (z.timestamp w) := by
    refine Option.bind_eq_some_iff.mpr ⟨w, ?_, Zone.instant_eq_some.mpr ⟨hw, rfl⟩⟩
    simp only [Croniter.walls, Croniter.pair]
    rw [if_neg (by omega), if_pos ht₀]
  have hfound : firstAfter (z.candidate (.pair v w hvw) t₀) t₀ 100000 0 = some (z.timestamp w) := by
    rw [show (100000 : Nat) = 99999 + 1 from rfl, firstAfter, hfirst,
      Option.filter_some, if_pos (by simpa using Int.lt_trans hlate hwlate)]
  have := (h _ _ _ hfound).least (z.timestamp v) ⟨v, .inl rfl, hv, rfl⟩ hlate
  omega

def Zone.calendar (z : Zone) (c : Croniter) : Calendar where
  zones _ := some z
  crons _ := .ok c
  runTime := id
  runTime_le := Int.le_refl
  idText
    | .uuid _ => "uuid"
    | .legacy .. => "legacy"

/-- The zones in which `_next_cron_datetime` finds the next due instant are those whose clock does not return to
    a time it has skipped, among them those with a day between any two transitions. In such a zone, the fires
    from `start` on are due, each later than the one before, and a matching wall time that exists and is still
    to come at `start` fires once: by the fire that reaches it, and for certain where the search never raises. -/
theorem matching_times_fire_once (z : Zone) :
    (z.NoReturn ↔ ∀ (cal : Calendar) (expr : String) (tz : Option String) (c : Croniter), cal.zones tz = some z →
      cal.crons expr = .ok c → ∀ after n, nextCronDatetime cal.host expr tz after = some n → z.IsNext c after n) ∧
    (Spaced z.transitions → z.NoReturn) ∧
    (z.NoReturn → ∀ (cal : Calendar) (expr : String) (tz : Option String) (c : Croniter), cal.zones tz = some z →
      cal.crons expr = .ok c → ∀ start,
        (∀ k n, fireAt cal.host expr tz start k = some n → start < n ∧ z.Due c n ∧ c.Matches (z.wall n)) ∧
        (∀ j k m n, fireAt cal.host expr tz start j = some m → fireAt cal.host expr tz start k = some n →
          z.wall m = z.wall n → j = k) ∧
        ∀ w, c.Matches w → z.Has w → start < z.timestamp w →
          (∀ k n, fireAt cal.host expr tz start k = some n → z.timestamp w ≤ n →
            ∃! j, fireAt cal.host expr tz start j = some (z.timestamp w)) ∧
          ((∀ k, (fireAt cal.host expr tz start k).isSome) →
            ∃! j, fireAt cal.host expr tz start j = some (z.timestamp w))) := by
  refine ⟨⟨?_, ?_⟩, Zone.noReturn_of_spaced, ?_⟩
  · intro hn cal expr tz c hz hc after n h
    exact Calendar.isNext hz hc hn h
  · intro h
    refine Zone.noReturn_of_isNext fun c after n hfound => ?_
    refine h (z.calendar c) "" none c rfl rfl after n ?_
    rw [Calendar.nextCronDatetime_eq rfl rfl]
    exact hfound
  · intro hn cal expr tz c hz hc start
    have hdue : ∀ {k n}, fireAt cal.host expr tz start k = some n → z.Due c n :=
      fun h => (Calendar.fireAt_due hz hc hn h).1
    have hreached : ∀ {w k n}, c.Matches w → z.Has w → start < z.timestamp w →
        fireAt cal.host expr tz start k = some n → z.timestamp w ≤ n →
        ∃! j, fireAt cal.host expr tz start j = some (z.timestamp w) := by
      intro w k n hm hw hlt hk hle
      obtain ⟨j, -, hj⟩ := (Calendar.fireAt_due hz hc hn hk).2 _ ⟨w, hm, hw, rfl⟩ hlt hle
      exact ⟨j, hj, fun i hi => fireAt_injective hi hj⟩
    refine ⟨fun k n h => ?_, fun j k m n hj hk hwall => ?_, fun w hm hw hlt => ⟨fun k n => hreached hm hw hlt, ?_⟩⟩
    · obtain ⟨w, hm, hw, rfl⟩ := hdue h
      have := fireAt_gt h
      exact ⟨by omega, ⟨w, hm, hw, rfl⟩, by rwa [Zone.wall_timestamp hw]⟩
    · obtain ⟨v, -, hv, rfl⟩ := hdue hj
      obtain ⟨w, -, hw, rfl⟩ := hdue hk
      rw [Zone.wall_timestamp hv, Zone.wall_timestamp hw] at hwall
      subst hwall
      exact fireAt_injective hj hk
    · -- the fires grow by one at least, so one of them reaches the instant
      intro hall
      obtain ⟨n, hn'⟩ := Option.isSome_iff_exists.mp (hall (z.timestamp w - start).toNat)
      have := fireAt_gt hn'
      exact hreached hm hw hlt hn' (by omega)

namespace Sample

/-- Every day, `m` milliseconds after its midnight. -/
def daily (m : Int) : Croniter where
  Matches w := (w - m) % 86400000 = 0
  getNext base := some (((base - m) / 86400000 + 1) * 86400000 + m)
  next base w h := by
    cases h
    refine ⟨?_, ?_, fun v hv hlt => ?_⟩ <;> omega

/-- Central Europe in 2026: summer time from 29 March to 25 October. -/
def berlin : Zone where
  initial := 3600000
  transitions := [(1774746000000, 7200000), (1792890000000, 3600000)]
  sorted := by decide
  jumps := by decide
  timestamp w :=
    if w < 1774746000000 + 7200000 then w - 3600000
    else if w < 1792890000000 + 7200000 then w - 7200000
    else w - 3600000
  first w t h := by
    simp only [offsetAt] at h ⊢
    split_ifs at h ⊢ <;> omega

/-- An hour is skipped at two o'clock, and brought back half an hour later. -/
def hasty : Zone where
  initial := 0
  transitions := [(7200000, 3600000), (9000000, 0)]
  sorted := by decide
  jumps := by decide
  timestamp w := if w < 10800000 then w else if w < 12600000 then w - 3600000 else w
  first w t h := by
    simp only [offsetAt] at h ⊢
    split_ifs at h ⊢ <;> omega

end Sample

open Sample in
/-- Half past two every day, from 28 March on: the 29th has none, and the first of the two of 25 October fires. -/
theorem matching_times_fire_once_berlin :
    nextCronDatetime (berlin.calendar (daily 9000000)).host "30 2 * * *" (some "Europe/Berlin") 1774661400000 =
      some 1774830600000 ∧
    fireAt (berlin.calendar (daily 9000000)).host "30 2 * * *" (some "Europe/Berlin") 1792801800000 0 =
      some 1792888200000 ∧
    fireAt (berlin.calendar (daily 9000000)).host "30 2 * * *" (some "Europe/Berlin") 1792801800000 1 =
      some 1792978200000 ∧
    ∃! j, fireAt (berlin.calendar (daily 9000000)).host "30 2 * * *" (some "Europe/Berlin") 1792801800000 j =
      some 1792888200000 := by
  have hn : berlin.NoReturn := (matching_times_fire_once berlin).2.1 (by unfold Spaced berlin; decide)
  have hfires := (matching_times_fire_once berlin).2.2 hn (berlin.calendar (daily 9000000)) "30 2 * * *"
    (some "Europe/Berlin") (daily 9000000) rfl rfl 1792801800000
  have h₀ : fireAt (berlin.calendar (daily 9000000)).host "30 2 * * *" (some "Europe/Berlin") 1792801800000 0 =
      some 1792888200000 := by decide +kernel
  refine ⟨by decide +kernel, h₀, by decide +kernel, ?_⟩
  have hw := hfires.2.2 1792895400000 (by unfold daily; decide) ⟨1792888200000, by decide⟩ (by decide)
  exact hw.1 0 1792888200000 h₀ (by decide)

open Sample in
theorem computeNextRun_isNext_berlin : berlin.IsNext (daily 9000000) 1774661400000 1774830600000 :=
  Calendar.computeNextRun_isNext (s := { kind := .cron, expr := some "30 2 * * *", tz := some "Europe/Berlin" }) rfl rfl
    (rfl : (berlin.calendar (daily 9000000)).zones _ = some berlin) rfl
    (Zone.noReturn_of_spaced (by unfold Spaced berlin; decide)) (by decide +kernel)

open Sample in
/-- A quarter past two by the clock of no offset, it is a quarter past three; a quarter to three is to come for the
    first time in half an hour, and is passed over for the next day's. -/
theorem a_skipped_time_returns :
    nextCronDatetime (hasty.calendar (daily 9900000)).host "45 2 * * *" none 8100000 = some 96300000 ∧
    (daily 9900000).Matches 9900000 ∧ hasty.Has 9900000 ∧ hasty.timestamp 9900000 = 9900000 ∧
    ¬ hasty.IsNext (daily 9900000) 8100000 96300000 := by
  refine ⟨by decide +kernel, by unfold daily; decide, ⟨9900000, by decide⟩, by decide, fun h => ?_⟩
  have := h.least 9900000 ⟨9900000, by unfold daily; decide, ⟨9900000, by decide⟩, by decide⟩ (by decide)
  omega

end Flowly.Cron
