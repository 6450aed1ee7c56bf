/-
  Flowly.Agenda.Policy — the limits on an agent writing first (`flowly/agenda/policy.py`):
  what may run now, what waits and what is dropped.

  A wall clock is what the standard library tells of a zone: the calendar day and the minute
  of an instant, and the instant of a day's minute. The clock texts of the settings are the
  minutes `parse_clock` reads from them, and a level that is none of these is `normal`.

  Proved: what may run is inside every limit (`Policy.decide_run`).
-/

import Mathlib.Algebra.Group.Int.Defs
import Mathlib.Tactic.Common

namespace Flowly.Agenda

def MINUTE_MS : Int := 60 * 1000
def DAY_MS : Int := 24 * 60 * MINUTE_MS

structure WallClock where
  date : Int → Int
  minute : Int → Nat
  instant : Int → Nat → Int

structure Zone extends WallClock where
  /-- A calendar day is over within two days of each of its instants. -/
  date_span : ∀ a b, date a = date b → b - a < 2 * DAY_MS

instance : Coe Zone WallClock := ⟨Zone.toWallClock⟩

inductive Level where
  | off
  | low
  | normal
  | high
  deriving DecidableEq

def DAILY_CAP_BY_LEVEL : Level → Nat
  | .off => 0
  | .low => 1
  | .normal => 2
  | .high => 4

def GLOBAL_DAILY_CAP : Nat := 6
def MAX_UNANSWERED : Nat := 3
def BACKOFF_BASE_MS : Int := 12 * 60 * MINUTE_MS
def BUSY_RETRY_MS : Int := 3 * MINUTE_MS
def OWNER_AWAKE_MS : Int := 30 * MINUTE_MS

inductive Decision where
  | run
  | defer (reason : String) (untilMs : Int)
  | drop (reason : String)

structure Facts where
  nowMs : Int
  level : Level
  quietStart : Nat
  quietEnd : Nat
  unanswered : Nat
  lastProactiveMs : Option Int
  sentTodayByAgent : Nat
  sentTodayByAll : Nat
  sessionBusy : Bool
  objectiveStatus : Option String
  isObjective : Bool
  ownerLastActiveMs : Option Int

def ownerAwake (f : Facts) : Bool :=
  match f.ownerLastActiveMs with
  | some last => 0 ≤ f.nowMs - last ∧ f.nowMs - last ≤ OWNER_AWAKE_MS
  | none => false

def quietUntil (zone : WallClock) (nowMs : Int) (start stop : Nat) : Option Int :=
  let minute := zone.minute nowMs
  let inside := if start < stop then start ≤ minute ∧ minute < stop else start ≤ minute ∨ minute < stop
  if start = stop ∨ ¬ inside then none
  else
    -- a window over midnight ends on the next day
    let endDay := if stop < start ∧ start ≤ minute then zone.date nowMs + 1 else zone.date nowMs
    some (zone.instant endDay stop)

def nextDayStart (zone : WallClock) (nowMs : Int) (quietEnd : Nat) : Int := zone.instant (zone.date nowMs + 1) quietEnd

def backoffMs (unanswered : Nat) : Int := if unanswered = 0 then 0 else BACKOFF_BASE_MS * 2 ^ (unanswered - 1)

def quietHours (zone : WallClock) (f : Facts) : Option Int :=
  if ownerAwake f then none else quietUntil zone f.nowMs f.quietStart f.quietEnd

def waitsForReply (f : Facts) : Option Int :=
  match f.lastProactiveMs with
  | some last =>
    let allowedAt := last + backoffMs f.unanswered
    if 0 < f.unanswered ∧ f.nowMs < allowedAt then some allowedAt else none
  | none => none

def Policy.decide (zone : WallClock) (f : Facts) : Decision :=
  if f.level = .off then .drop "proactivity_off"
  else if f.isObjective ∧ f.objectiveStatus ≠ some "active" then .drop "goal_not_active"
  else if MAX_UNANSWERED ≤ f.unanswered then .drop "owner_not_answering"
  else
    match quietHours zone f, waitsForReply f with
    | some quiet, _ => .defer "quiet_hours" quiet
    | none, some allowedAt => .defer "waiting_for_reply" allowedAt
    | none, none =>
      if DAILY_CAP_BY_LEVEL f.level ≤ f.sentTodayByAgent then
        .defer "agent_daily_limit" (nextDayStart zone f.nowMs f.quietEnd)
      else if GLOBAL_DAILY_CAP ≤ f.sentTodayByAll then .defer "daily_limit" (nextDayStart zone f.nowMs f.quietEnd)
      else if f.sessionBusy then .defer "conversation_busy" (f.nowMs + BUSY_RETRY_MS)
      else .run

/-- What may run is inside every limit. -/
theorem Policy.decide_run {zone : WallClock} {f : Facts} (h : Policy.decide zone f = .run) :
    f.level ≠ .off ∧ (f.isObjective = true → f.objectiveStatus = some "active") ∧ f.unanswered < MAX_UNANSWERED ∧
      quietHours zone f = none ∧ waitsForReply f = none ∧ f.sentTodayByAgent < DAILY_CAP_BY_LEVEL f.level ∧
      f.sentTodayByAll < GLOBAL_DAILY_CAP ∧ f.sessionBusy = false := by
  unfold Policy.decide at h
  by_cases hoff : f.level = .off
  · rw [if_pos hoff] at h
    cases h
  by_cases hgoal : f.isObjective ∧ f.objectiveStatus ≠ some "active"
  · rw [if_neg hoff, if_pos hgoal] at h
    cases h
  by_cases hunanswered : MAX_UNANSWERED ≤ f.unanswered
  · rw [if_neg hoff, if_neg hgoal, if_pos hunanswered] at h
    cases h
  rw [if_neg hoff, if_neg hgoal, if_neg hunanswered] at h
  split at h
  · cases h
  · cases h
  · rename_i hquiet hwait
    split_ifs at h with hagent hall hbusy
    refine ⟨hoff, fun ho => ?_, by omega, hquiet, hwait, by omega, by omega, by simpa using hbusy⟩
    by_contra hs
    exact hgoal ⟨ho, hs⟩

end Flowly.Agenda
