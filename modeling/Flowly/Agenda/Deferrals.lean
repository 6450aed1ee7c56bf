/-
  Flowly.Agenda.Deferrals — whether a wake-up that is put off comes to its turn
  (`flowly/agenda/policy.py`: `quiet_until`, `next_day_start`, `decide`).

  A zone is an offset that changes at given instants, by any amount. The standard library
  resolves a wall time that a change repeats to its first instant, and one that a change
  skips by the offset before it; the policy leaves `fold` at 0.

  Proved: what may run is inside every limit, and a deferral ends later than now and does
  not repeat itself, exactly when no change that is over has put the clock back from behind
  its end, and a change that skips the end does not lead back into what it waits for
  (`decide_sound_iff`). In the repeated hour a wake-up is put off into the past
  (`deferred_into_the_past`).
-/

import Flowly.Agenda.Policy
import Flowly.Flowlets.Series

namespace Flowly.Agenda

open Flowly.Flowlets Flowly.Cron

/-- A zone: the instants at which its offset changes are in order. -/
structure Clock extends Series.Zone where
  sorted : (transitions.map (·.1)).Pairwise (· < ·)

/-- What the policy asks of a zone. -/
def Clock.wallClock (z : Clock) : WallClock where
  date t := z.wall t / DAY_MS
  minute t := (z.wall t % DAY_MS / MINUTE_MS).toNat
  instant day minute := z.timestamp false (day * DAY_MS + minute * MINUTE_MS)

/-! ## When a wall time comes -/

/-- The clock of `o` and the changes has been at the wall time or past it, and a change that is over put it back. -/
def passed (o : Int) : List (Int × Int) → Int → Int → Prop
  | [], _, _ => False
  | (s, o') :: rest, now, w => if w < s + max o o' then s ≤ now ∧ w ≤ now + o else passed o' rest now w

def skipped (o : Int) : List (Int × Int) → Int → Prop
  | [], _ => False
  | (s, o') :: rest, w => if w < s + max o o' then s + o ≤ w else skipped o' rest w

theorem offsetAt_before {o : Int} {ts : List (Int × Int)} {t s : Int} (hs : ∀ s' ∈ ts.map (·.1), s < s') (ht : t < s) :
    offsetAt o ts t = o := by
  cases ts with
  | nil => rfl
  | cons p rest =>
    have := hs p.1 List.mem_cons_self
    unfold offsetAt
    rw [if_pos (by omega)]

/-- A wall time the clock is before is resolved to an instant that is over, just where it has passed. -/
theorem timestamp_le_iff {o : Int} {ts : List (Int × Int)} (hs : (ts.map (·.1)).Pairwise (· < ·)) {now w : Int}
    (hw : now + offsetAt o ts now < w) : w - Series.offsetOf false o ts w ≤ now ↔ passed o ts now w := by
  induction ts generalizing o with
  | nil =>
    simp only [offsetAt, Series.offsetOf, passed, iff_false] at hw ⊢
    omega
  | cons p rest ih =>
    obtain ⟨s, o'⟩ := p
    obtain ⟨hfirst, hs⟩ := List.pairwise_cons.1 hs
    unfold offsetAt at hw
    unfold Series.offsetOf passed
    simp only [Bool.false_eq_true, if_false]
    by_cases hseg : w < s + max o o'
    · rw [if_pos hseg, if_pos hseg]
      constructor
      · intro hle
        refine ⟨?_, by omega⟩
        by_contra hnow
        rw [if_pos (by omega)] at hw
        omega
      · intro h
        omega
    · rw [if_neg hseg, if_neg hseg]
      refine ih hs ?_
      by_cases hnow : now < s
      · rw [offsetAt_before hfirst hnow]
        omega
      · rwa [if_neg hnow] at hw

/-- A wall time that a change has been followed by is resolved to an instant after the change. -/
theorem timestamp_after {o s : Int} {ts : List (Int × Int)} {w : Int} (hfirst : ∀ s' ∈ ts.map (·.1), s < s')
    (hs : (ts.map (·.1)).Pairwise (· < ·)) (hw : s + o ≤ w) : s ≤ w - Series.offsetOf false o ts w := by
  induction ts generalizing o s with
  | nil =>
    simp only [Series.offsetOf]
    omega
  | cons p rest ih =>
    obtain ⟨s', o'⟩ := p
    obtain ⟨hrest, hs⟩ := List.pairwise_cons.1 hs
    have hlt : s < s' := hfirst s' List.mem_cons_self
    unfold Series.offsetOf
    simp only [Bool.false_eq_true, if_false]
    by_cases hseg : w < s' + max o o'
    · rw [if_pos hseg]
      omega
    · rw [if_neg hseg]
      have : s' ≤ w - Series.offsetOf false o' rest w := ih hrest hs (show s' + o' ≤ w by omega)
      omega

/-- A wall time that is not skipped is shown at its instant. -/
theorem wall_timestamp {o : Int} {ts : List (Int × Int)} {w : Int} (hs : (ts.map (·.1)).Pairwise (· < ·)) (h : ¬skipped o ts w) :
    w - Series.offsetOf false o ts w + offsetAt o ts (w - Series.offsetOf false o ts w) = w := by
  induction ts generalizing o with
  | nil => simp [Series.offsetOf, offsetAt]
  | cons p rest ih =>
    obtain ⟨s, o'⟩ := p
    obtain ⟨hfirst, hs⟩ := List.pairwise_cons.1 hs
    unfold skipped at h
    unfold Series.offsetOf offsetAt
    simp only [Bool.false_eq_true, if_false]
    by_cases hseg : w < s + max o o'
    · rw [if_pos hseg] at h ⊢
      rw [if_pos (by omega)]
      omega
    · rw [if_neg hseg] at h ⊢
      have hle : s ≤ w - Series.offsetOf false o' rest w := timestamp_after hfirst hs (show s + o' ≤ w by omega)
      rw [if_neg (by omega)]
      exact ih hs h

/-! ## What the policy promises -/

/-- The quiet hours, which may go over midnight. -/
def Quiet (wall : WallClock) (start stop : Nat) (t : Int) : Prop :=
  if start < stop then start ≤ wall.minute t ∧ wall.minute t < stop
  else stop < start ∧ (start ≤ wall.minute t ∨ wall.minute t < stop)

def Held (wall : WallClock) (f : Facts) : Prop := Quiet wall f.quietStart f.quietEnd f.nowMs ∧ ownerAwake f = false

/-- What runs is inside the limits. -/
structure Safe (wall : WallClock) (f : Facts) : Prop where
  awake : ¬Held wall f
  agent : f.sentTodayByAgent < DAILY_CAP_BY_LEVEL f.level
  all : f.sentTodayByAll < GLOBAL_DAILY_CAP
  backoff : ∀ last, f.lastProactiveMs = some last → 0 < f.unanswered → last + backoffMs f.unanswered ≤ f.nowMs
  idle : f.sessionBusy = false

/-- The facts at a later time: another day has its own counts, and the conversation is idle. -/
def later (wall : WallClock) (f : Facts) (u : Int) : Facts :=
  { f with
    nowMs := u, sessionBusy := false
    sentTodayByAgent := if wall.date u = wall.date f.nowMs then f.sentTodayByAgent else 0
    sentTodayByAll := if wall.date u = wall.date f.nowMs then f.sentTodayByAll else 0 }

/-- A deferral is to a time to come, and is not repeated then. -/
def Progress (wall : WallClock) (f : Facts) : Prop :=
  ∀ reason u, Policy.decide wall f = .defer reason u → f.nowMs < u ∧ ∀ u', Policy.decide wall (later wall f u) ≠ .defer reason u'

/-- The wake-up is not dropped. -/
structure Kept (f : Facts) : Prop where
  on : f.level ≠ .off
  active : ¬(f.isObjective ∧ f.objectiveStatus ≠ some "active")
  answering : ¬MAX_UNANSWERED ≤ f.unanswered

/-- A limit of the day is reached, and nothing else holds the wake-up back. -/
structure Capped (wall : WallClock) (f : Facts) : Prop where
  awake : ¬Held wall f
  answered : waitsForReply f = none
  spent : DAILY_CAP_BY_LEVEL f.level ≤ f.sentTodayByAgent ∨ GLOBAL_DAILY_CAP ≤ f.sentTodayByAll

/-! ## Where a wait ends -/

namespace Clock

def wallAt (day : Int) (minute : Nat) : Int := day * DAY_MS + minute * MINUTE_MS

def quietEnds (z : Clock) (f : Facts) : Int :=
  wallAt (z.wallClock.date f.nowMs + if f.quietEnd < f.quietStart ∧ f.quietStart ≤ z.wallClock.minute f.nowMs then 1 else 0) f.quietEnd

def dayStarts (z : Clock) (f : Facts) : Int := wallAt (z.wallClock.date f.nowMs + 1) f.quietEnd

/-- The wall time `w` is to come, or no change leads back from it to what is waited for. -/
structure Ends (z : Clock) (f : Facts) (w : Int) (again : Facts → Prop) : Prop where
  ahead : ¬passed z.initial z.transitions f.nowMs w
  noReturn : skipped z.initial z.transitions w → ¬again (later z.wallClock f (z.timestamp false w))

/-- It is still the day of `f`, and not quiet. -/
def SameDay (z : Clock) (f g : Facts) : Prop := z.wallClock.date g.nowMs = z.wallClock.date f.nowMs ∧ ¬Held z.wallClock g

/-- Where the limits keep what they are for. -/
structure Sound (z : Clock) (f : Facts) : Prop where
  quiet : Kept f → Held z.wallClock f → z.Ends f (z.quietEnds f) (Held z.wallClock)
  capped : Kept f → Capped z.wallClock f → z.Ends f (z.dayStarts f) (z.SameDay f)

end Clock

/-! ## The quiet hours -/

variable {z : Clock} {f : Facts}

theorem outside_iff {wall : WallClock} {start stop : Nat} {t : Int} :
    (start = stop ∨ ¬if start < stop then start ≤ wall.minute t ∧ wall.minute t < stop
      else start ≤ wall.minute t ∨ wall.minute t < stop) ↔ ¬Quiet wall start stop t := by
  unfold Quiet
  by_cases hlt : start < stop
  · rw [if_pos hlt, if_pos hlt]
    omega
  · rw [if_neg hlt, if_neg hlt]
    omega

theorem quietHours_of_not_held (h : ¬Held z.wallClock f) : quietHours z.wallClock f = none := by
  unfold quietHours quietUntil
  by_cases hawake : ownerAwake f = true
  · rw [if_pos hawake]
  · rw [if_neg hawake]
    exact if_pos (outside_iff.2 fun hquiet => h ⟨hquiet, by simpa using hawake⟩)

/-- The quiet hours are over when the clock shows their end. -/
theorem quietHours_of_held (h : Held z.wallClock f) : quietHours z.wallClock f = some (z.timestamp false (z.quietEnds f)) := by
  unfold quietHours quietUntil Clock.quietEnds
  rw [if_neg (by simp [h.2])]
  refine (if_neg (mt outside_iff.1 (not_not_intro h.1))).trans ?_
  split_ifs
  · rfl
  · rw [Int.add_zero]
    rfl

theorem not_held (h : quietHours z.wallClock f = none) : ¬Held z.wallClock f := fun hheld => by
  rw [quietHours_of_held hheld] at h
  cases h

/-! ## The ends of the waits -/

section

variable {t d : Int} {m : Nat}

theorem minute_eq : (z.wallClock.minute t : Int) = z.wall t % DAY_MS / MINUTE_MS :=
  Int.toNat_of_nonneg (by unfold DAY_MS MINUTE_MS; omega)

theorem date_of_wall (hm : m < 24 * 60) (h : z.wall t = Clock.wallAt d m) : z.wallClock.date t = d := by
  show z.wall t / DAY_MS = d
  rw [h, Clock.wallAt, DAY_MS, MINUTE_MS]
  omega

theorem minute_of_wall (hm : m < 24 * 60) (h : z.wall t = Clock.wallAt d m) : z.wallClock.minute t = m := by
  have hminute := minute_eq (z := z) (t := t)
  rw [h, Clock.wallAt, DAY_MS, MINUTE_MS] at hminute
  omega

/-- The clock is before a minute of a day: on an earlier day, or at an earlier minute of the day. -/
theorem wall_lt (h : z.wallClock.date t < d ∨ z.wallClock.date t = d ∧ z.wallClock.minute t < m) : z.wall t < Clock.wallAt d m := by
  have hminute := minute_eq (z := z) (t := t)
  have hdate : z.wallClock.date t = z.wall t / DAY_MS := rfl
  rw [DAY_MS, MINUTE_MS] at hminute
  rw [DAY_MS, MINUTE_MS] at hdate
  rw [Clock.wallAt, DAY_MS, MINUTE_MS]
  omega

end

/-- The quiet hours are over at their end. -/
theorem not_quiet_at_stop {wall : WallClock} {start stop : Nat} {t : Int} (h : wall.minute t = stop) : ¬Quiet wall start stop t := by
  unfold Quiet
  rw [h]
  split_ifs <;> omega

theorem wall_lt_quietEnds (h : Held z.wallClock f) : z.wall f.nowMs < z.quietEnds f := by
  have hquiet := h.1
  unfold Quiet at hquiet
  refine wall_lt ?_
  split_ifs at hquiet ⊢ <;> omega

theorem wall_lt_dayStarts (z : Clock) (f : Facts) : z.wall f.nowMs < z.dayStarts f := wall_lt (.inl (by omega))

/-- A wait for a wall time is over later than now, and is not for the same once more, just where that time ends it. -/
theorem ends_iff {w : Int} {again : Facts → Prop} (hw : z.wall f.nowMs < w)
    (hshown : z.wall (z.timestamp false w) = w → ¬again (later z.wallClock f (z.timestamp false w))) :
    z.Ends f w again ↔ f.nowMs < z.timestamp false w ∧ ¬again (later z.wallClock f (z.timestamp false w)) := by
  have hpassed : z.timestamp false w ≤ f.nowMs ↔ passed z.initial z.transitions f.nowMs w := timestamp_le_iff z.sorted hw
  constructor
  · rintro ⟨hahead, hover⟩
    refine ⟨by rw [← hpassed] at hahead; omega, ?_⟩
    by_cases hskip : skipped z.initial z.transitions w
    · exact hover hskip
    · exact hshown (wall_timestamp z.sorted hskip)
  · rintro ⟨hnow, hagain⟩
    exact ⟨by rw [← hpassed]; omega, fun _ => hagain⟩

/-! ## What is put off, and why -/

inductive Why where
  | quiet
  | reply
  | agent
  | all
  | busy
  deriving DecidableEq

def Why.reason : Why → String
  | .quiet => "quiet_hours"
  | .reply => "waiting_for_reply"
  | .agent => "agent_daily_limit"
  | .all => "daily_limit"
  | .busy => "conversation_busy"

theorem Why.reason_inj {a b : Why} (h : a.reason = b.reason) : a = b := by
  revert h
  cases a <;> cases b <;> decide

/-- The daily limit that is reached. -/
def limit (f : Facts) : Why := if DAILY_CAP_BY_LEVEL f.level ≤ f.sentTodayByAgent then .agent else .all

inductive Deferred (z : Clock) (f : Facts) : Why → Int → Prop
  | quiet (h : Held z.wallClock f) : Deferred z f .quiet (z.timestamp false (z.quietEnds f))
  | reply {u : Int} (h : waitsForReply f = some u) : Deferred z f .reply u
  | agent (h : Capped z.wallClock f) : Deferred z f .agent (z.timestamp false (z.dayStarts f))
  | all (h : Capped z.wallClock f) : Deferred z f .all (z.timestamp false (z.dayStarts f))
  | busy (h : f.sessionBusy = true) : Deferred z f .busy (f.nowMs + BUSY_RETRY_MS)

theorem deferred_of_decide {reason : String} {u : Int} (h : Policy.decide z.wallClock f = .defer reason u) :
    Kept f ∧ ∃ why : Why, why.reason = reason ∧ Deferred z f why u := by
  unfold Policy.decide at h
  split at h
  · cases h
  split at h
  · cases h
  split at h
  · cases h
  next hoff hgoal hunanswered =>
  refine ⟨⟨hoff, hgoal, hunanswered⟩, ?_⟩
  split at h
  · next quiet hquiet =>
    cases h
    by_cases hheld : Held z.wallClock f
    · rw [quietHours_of_held hheld] at hquiet
      cases hquiet
      exact ⟨.quiet, rfl, .quiet hheld⟩
    · rw [quietHours_of_not_held hheld] at hquiet
      cases hquiet
  · next hwait =>
    cases h
    exact ⟨.reply, rfl, .reply hwait⟩
  · next hquiet hwait =>
    split_ifs at h with hagent hall hbusy
    · cases h
      exact ⟨.agent, rfl, .agent ⟨not_held hquiet, hwait, .inl hagent⟩⟩
    · cases h
      exact ⟨.all, rfl, .all ⟨not_held hquiet, hwait, .inr hall⟩⟩
    · cases h
      exact ⟨.busy, rfl, .busy hbusy⟩

theorem decide_of_held (hk : Kept f) (h : Held z.wallClock f) :
    Policy.decide z.wallClock f = .defer Why.quiet.reason (z.timestamp false (z.quietEnds f)) := by
  unfold Policy.decide
  rw [if_neg hk.on, if_neg hk.active, if_neg hk.answering, quietHours_of_held h]
  rfl

theorem decide_of_capped (hk : Kept f) (h : Capped z.wallClock f) :
    Policy.decide z.wallClock f = .defer (limit f).reason (z.timestamp false (z.dayStarts f)) := by
  unfold Policy.decide limit
  rw [if_neg hk.on, if_neg hk.active, if_neg hk.answering, quietHours_of_not_held h.awake, h.answered]
  by_cases hagent : DAILY_CAP_BY_LEVEL f.level ≤ f.sentTodayByAgent
  · rw [if_pos hagent, if_pos hagent]
    rfl
  · rw [if_neg hagent, if_neg hagent, if_pos (h.spent.resolve_left hagent)]
    rfl

theorem cap_pos {level : Level} (h : level ≠ .off) : 0 < DAILY_CAP_BY_LEVEL level := by cases level <;> simp_all [DAILY_CAP_BY_LEVEL]

theorem lt_of_waits {u : Int} (h : waitsForReply f = some u) : f.nowMs < u := by
  unfold waitsForReply at h
  split at h
  · dsimp only at h
    split_ifs at h with hwait
    cases h
    exact hwait.2
  · cases h

/-- Once the back-off is over it does not hold anything back again. -/
theorem waitsForReply_later {wall : WallClock} {u : Int} (hnow : f.nowMs ≤ u)
    (h : ∀ a, waitsForReply f = some a → a ≤ u) : waitsForReply (later wall f u) = none := by
  unfold waitsForReply at h ⊢
  rw [show (later wall f u).lastProactiveMs = f.lastProactiveMs from rfl]
  cases hlast : f.lastProactiveMs with
  | none => rfl
  | some last =>
    refine if_neg fun hwait : 0 < f.unanswered ∧ u < last + backoffMs f.unanswered => ?_
    have := h (last + backoffMs f.unanswered) (by rw [hlast]; exact if_pos ⟨hwait.1, by omega⟩)
    omega

/-- What may run is inside the limits. -/
theorem decide_safe (h : Policy.decide z.wallClock f = .run) : Safe z.wallClock f := by
  obtain ⟨-, -, -, hquiet, hwait, hagent, hall, hidle⟩ := Policy.decide_run h
  refine ⟨not_held hquiet, hagent, hall, fun last hlast hunanswered => ?_, hidle⟩
  unfold waitsForReply at hwait
  rw [hlast] at hwait
  by_contra hlt
  dsimp only at hwait
  rw [if_pos ⟨hunanswered, by omega⟩] at hwait
  cases hwait

theorem Kept.later (hk : Kept f) (u : Int) : Kept (later z.wallClock f u) := ⟨hk.on, hk.active, hk.answering⟩

/-- On the same day the same limit is reached. -/
theorem Capped.later {u : Int} (h : Capped z.wallClock f) (hnow : f.nowMs ≤ u) (hdate : z.wallClock.date u = z.wallClock.date f.nowMs)
    (hheld : ¬Held z.wallClock (later z.wallClock f u)) :
    Capped z.wallClock (later z.wallClock f u) ∧ limit (Agenda.later z.wallClock f u) = limit f := by
  have hagent : (Agenda.later z.wallClock f u).sentTodayByAgent = f.sentTodayByAgent := if_pos hdate
  have hall : (Agenda.later z.wallClock f u).sentTodayByAll = f.sentTodayByAll := if_pos hdate
  refine ⟨⟨hheld, waitsForReply_later hnow fun a ha => absurd (h.answered.symm.trans ha) (by simp), ?_⟩, ?_⟩
  · rw [hagent, hall]
    exact h.spent
  · unfold limit
    rw [hagent]
    rfl

/-- On another day none is. -/
theorem Capped.lapsed {u : Int} (hk : Kept f) (hdate : z.wallClock.date u ≠ z.wallClock.date f.nowMs) :
    ¬Capped z.wallClock (Agenda.later z.wallClock f u) := by
  intro h
  have hspent := h.spent
  have hpos := cap_pos hk.on
  simp only [Agenda.later, if_neg hdate] at hspent
  unfold GLOBAL_DAILY_CAP at hspent
  omega

theorem ends_quiet (hend : f.quietEnd < 24 * 60) (h : Held z.wallClock f) : z.Ends f (z.quietEnds f) (Held z.wallClock) ↔
    f.nowMs < z.timestamp false (z.quietEnds f) ∧ ¬Held z.wallClock (later z.wallClock f (z.timestamp false (z.quietEnds f))) :=
  ends_iff (wall_lt_quietEnds h) fun hshown hheld => not_quiet_at_stop (minute_of_wall hend hshown) hheld.1

theorem ends_day (hend : f.quietEnd < 24 * 60) : z.Ends f (z.dayStarts f) (z.SameDay f) ↔
    f.nowMs < z.timestamp false (z.dayStarts f) ∧ ¬z.SameDay f (later z.wallClock f (z.timestamp false (z.dayStarts f))) := by
  refine ends_iff (wall_lt_dayStarts z f) fun hshown hsame => ?_
  have hdate : z.wallClock.date (z.timestamp false (z.dayStarts f)) = z.wallClock.date f.nowMs := hsame.1
  rw [date_of_wall hend hshown] at hdate
  omega

theorem progress_iff (hend : f.quietEnd < 24 * 60) : Progress z.wallClock f ↔ z.Sound f := by
  constructor
  · refine fun hprogress => ⟨fun hk h => (ends_quiet hend h).2 ?_, fun hk h => (ends_day hend).2 ?_⟩
    · obtain ⟨hnow, hagain⟩ := hprogress _ _ (decide_of_held hk h)
      exact ⟨hnow, fun hheld => hagain _ (decide_of_held (hk.later _) hheld)⟩
    · obtain ⟨hnow, hagain⟩ := hprogress _ _ (decide_of_capped hk h)
      refine ⟨hnow, fun ⟨hdate, hheld⟩ => ?_⟩
      obtain ⟨hcapped, hlimit⟩ := h.later hnow.le hdate hheld
      exact hagain _ (hlimit ▸ decide_of_capped (hk.later _) hcapped)
  · intro hsound reason u hdecide
    obtain ⟨hk, why, rfl, hwhy⟩ := deferred_of_decide hdecide
    suffices f.nowMs < u ∧ ∀ u', ¬Deferred z (later z.wallClock f u) why u' by
      refine ⟨this.1, fun u' hdecide' => ?_⟩
      obtain ⟨-, why', hreason, hwhy'⟩ := deferred_of_decide hdecide'
      exact this.2 u' (Why.reason_inj hreason ▸ hwhy')
    cases hwhy with
    | quiet h =>
      obtain ⟨hnow, hagain⟩ := (ends_quiet hend h).1 (hsound.quiet hk h)
      exact ⟨hnow, fun _ (.quiet hheld) => hagain hheld⟩
    | agent h | all h =>
      obtain ⟨hnow, hagain⟩ := (ends_day hend).1 (hsound.capped hk h)
      refine ⟨hnow, fun _ hwhy' => ?_⟩
      have h' : Capped z.wallClock (later z.wallClock f (z.timestamp false (z.dayStarts f))) := by cases hwhy'; assumption
      exact hagain ⟨by_contra fun hdate => Capped.lapsed hk hdate h', h'.awake⟩
    | reply h =>
      have hover : waitsForReply (later z.wallClock f u) = none :=
        waitsForReply_later (lt_of_waits h).le fun a ha => by cases h.symm.trans ha; exact le_rfl
      exact ⟨lt_of_waits h, fun _ (.reply h') => by cases hover.symm.trans h'⟩
    | busy h => exact ⟨by rw [BUSY_RETRY_MS, MINUTE_MS]; omega, fun _ (.busy h') => by cases h'⟩

/-- The decision keeps the limits and makes progress exactly when no change of the clock that is over has put it back from
behind the end of a wait, and none that skips the end leads back into what is waited for. -/
theorem decide_sound_iff (z : Clock) (f : Facts) (hend : f.quietEnd < 24 * 60) :
    ((Policy.decide z.wallClock f = .run → Safe z.wallClock f) ∧ Progress z.wallClock f) ↔ z.Sound f := by
  rw [and_iff_right decide_safe, progress_iff hend]

namespace Sample

/-- The clock goes from 02:00 back to 01:00 in the night of the second day. -/
def autumn : Clock where
  initial := 60 * MINUTE_MS
  transitions := [(DAY_MS + 60 * MINUTE_MS, 0)]
  sorted := List.pairwise_singleton _ _

/-- Quiet hours from 22:00 to 01:30, at 01:10 for the second time. -/
def night : Facts where
  nowMs := DAY_MS + 70 * MINUTE_MS
  level := .normal
  quietStart := 22 * 60
  quietEnd := 90
  unanswered := 0
  lastProactiveMs := none
  sentTodayByAgent := 0
  sentTodayByAll := 0
  sessionBusy := false
  objectiveStatus := none
  isObjective := false
  ownerLastActiveMs := none

end Sample

/-- In the hour that is repeated, a wake-up is put off to the end of the quiet hours that is over. -/
theorem deferred_into_the_past :
    ¬((Policy.decide Sample.autumn.wallClock Sample.night = .run → Safe Sample.autumn.wallClock Sample.night) ∧
      Progress Sample.autumn.wallClock Sample.night) := by
  rintro ⟨-, hprogress⟩
  have hquiet : Quiet Sample.autumn.wallClock (22 * 60) 90 Sample.night.nowMs := by
    unfold Quiet
    decide +kernel
  have hdecide := decide_of_held (z := Sample.autumn) (f := Sample.night) ⟨by decide, by decide, by decide⟩ ⟨hquiet, rfl⟩
  exact absurd (hprogress _ _ hdecide).1 (by decide +kernel)

/-- In a zone without changes the same wake-up waits for the end that is to come. -/
theorem without_changes : Progress (Clock.wallClock ⟨⟨0, []⟩, .nil⟩) Sample.night :=
  have hsound : Clock.Sound ⟨⟨0, []⟩, .nil⟩ Sample.night := ⟨fun _ _ => ⟨id, False.elim⟩, fun _ _ => ⟨id, False.elim⟩⟩
  ((decide_sound_iff ⟨⟨0, []⟩, .nil⟩ Sample.night (by decide)).2 hsound).2

end Flowly.Agenda
