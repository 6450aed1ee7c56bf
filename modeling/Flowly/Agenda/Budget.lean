/-
  Flowly.Agenda.Budget — the daily budget all agents share (`ProactiveBudget` of
  `flowly/agenda/budget.py`): a slot is reserved before a turn runs, confirmed when the
  message went out and released when it did not.

  The lock is always acquired and the file can be read. A token is a number.

  Proved: what a reservation that succeeds leaves (`reserve_spec`), and that an
  unconfirmed slot stops counting (`stale_not_live`).
-/

import Flowly.Agenda.Policy
import Mathlib.Data.List.Basic

namespace Flowly.Agenda

def STALE_RESERVATION_MS : Int := 30 * MINUTE_MS
def KEEP_MS : Int := 3 * DAY_MS

structure Entry (κ : Type) where
  token : Nat
  profile : κ
  at_ : Int
  sent : Bool := false
  deriving DecidableEq

variable {κ : Type}

def isLive (nowMs : Int) (e : Entry κ) : Bool :=
  nowMs - e.at_ < KEEP_MS ∧ ¬ (e.sent = false ∧ nowMs - e.at_ > STALE_RESERVATION_MS)

def live (entries : List (Entry κ)) (nowMs : Int) : List (Entry κ) := entries.filter (isLive nowMs)

def onDay (zone : Zone) (day : Int) (entries : List (Entry κ)) : List (Entry κ) :=
  entries.filter fun e => zone.date e.at_ = day

def today (zone : Zone) (entries : List (Entry κ)) (nowMs : Int) : List (Entry κ) := onDay zone (zone.date nowMs) entries

def counts [DecidableEq κ] (zone : Zone) (profile : κ) (nowMs : Int) (entries : List (Entry κ)) : Nat × Nat :=
  let today := today zone (live entries nowMs) nowMs
  (today.countP (·.profile = profile), today.length)

def reserve [DecidableEq κ] (zone : Zone) (profile : κ) (agentCap globalCap token : Nat) (nowMs : Int) (entries : List (Entry κ)) :
    Option (List (Entry κ)) :=
  let entries := live entries nowMs
  let today := today zone entries nowMs
  if globalCap ≤ today.length ∨ agentCap ≤ today.countP (·.profile = profile) then none
  else some (entries ++ [{ token, profile, at_ := nowMs }])

def confirm (token : Nat) (entries : List (Entry κ)) : List (Entry κ) :=
  entries.map fun e => if e.token = token then { e with sent := true } else e

def release (token : Nat) (entries : List (Entry κ)) : List (Entry κ) := entries.filter (·.token ≠ token)

theorem reserve_spec [DecidableEq κ] {zone : Zone} {profile : κ} {agentCap globalCap token : Nat} {nowMs : Int}
    {entries entries' : List (Entry κ)} (h : reserve zone profile agentCap globalCap token nowMs entries = some entries') :
    entries' = live entries nowMs ++ [{ token, profile, at_ := nowMs }] ∧
      (today zone (live entries nowMs) nowMs).length < globalCap ∧
      (today zone (live entries nowMs) nowMs).countP (·.profile = profile) < agentCap := by
  unfold reserve at h
  simp only at h
  split at h
  · cases h
  · rename_i hroom
    rw [not_or] at hroom
    exact ⟨(Option.some.inj h).symm, by omega, by omega⟩

variable {entries : List (Entry κ)}

theorem stale_not_live {e : Entry κ} {nowMs : Int} (hs : e.sent = false)
    (hold : nowMs - e.at_ > STALE_RESERVATION_MS) : e ∉ live entries nowMs := by
  intro hin
  have := (List.mem_filter.mp hin).2
  simp [isLive, hs, hold] at this

theorem mem_live {e : Entry κ} {nowMs : Int} :
    e ∈ live entries nowMs ↔ e ∈ entries ∧ nowMs - e.at_ < KEEP_MS ∧
      (e.sent = true ∨ nowMs - e.at_ ≤ STALE_RESERVATION_MS) := by
  unfold live isLive
  rw [List.mem_filter]
  cases e.sent <;> simp

@[simp] theorem mem_release {e : Entry κ} {token : Nat} :
    e ∈ release token entries ↔ e ∈ entries ∧ e.token ≠ token := by
  simp [release]

theorem mem_confirm {e : Entry κ} {token : Nat} :
    e ∈ confirm token entries ↔
      (e ∈ entries ∧ e.token ≠ token) ∨ ∃ x ∈ entries, x.token = token ∧ e = { x with sent := true } := by
  unfold confirm
  rw [List.mem_map]
  constructor
  · rintro ⟨x, hx, rfl⟩
    by_cases ht : x.token = token
    · exact Or.inr ⟨x, hx, ht, by rw [if_pos ht]⟩
    · exact Or.inl ⟨by rwa [if_neg ht], by rwa [if_neg ht]⟩
  · rintro (⟨hx, ht⟩ | ⟨x, hx, ht, rfl⟩)
    · exact ⟨e, hx, by rw [if_neg ht]⟩
    · exact ⟨x, hx, by rw [if_pos ht]⟩

end Flowly.Agenda
