/-
  Flowly.Compaction.Breaker — the circuit breaker of one session, shared by services in
  several processes (`should_compact`, `record_compaction_success`,
  `record_compaction_failure`, `reset_session` of `flowly/compaction/service.py`;
  `read_breaker`, `update_breaker`, `clear_breaker` of `flowly/compaction/coordination.py`).

  The durable record is read and updated under its own lock, so one access of it is one
  event, and a check is up to three: `_sync_breaker` reads the record, a first update
  counts the check, and where the copy that update returns has reached
  `FAILURE_PROBE_INTERVAL` a second update sets the count back and the check is allowed as
  a probe. Every check here is over its threshold. A service runs one call at a time; its
  process may die between two events.

  Proved: where no check is counted while another service stands between its two updates,
  `FAILURE_PROBE_INTERVAL` checks are counted from one probe to the next (`probes_apart`).
  Two checks that are both counted before the first of them sets the count back are two
  probes at once (`two_probes_at_once`).
-/

import Flowly.Lib.Reach
import Mathlib.Data.Fintype.Basic

namespace Flowly.Compaction.Breaker

open Flowly.Lib

def MAX_CONSECUTIVE_FAILURES : Nat := 2
def FAILURE_PROBE_INTERVAL : Nat := 10

structure BreakerState where
  consecutiveFailures : Nat := 0
  checksSinceSuppression : Nat := 0

/-- Where a service stands in `should_compact`. -/
inductive Stage where
  | idle
  /-- Before the update that counts the check. -/
  | counting
  /-- Before the update that sets the count back. -/
  | probing
  deriving DecidableEq

structure Service where
  /-- The counters of its `_SessionState`. -/
  state : BreakerState := {}
  stage : Stage := .idle

structure World (n : Nat) where
  durable : BreakerState := {}
  services : Fin n → Service := fun _ => {}
  /-- Ghost: the checks counted since the last probe, with no failure, success or reset since. -/
  sinceProbe : Option Nat := none
  /-- Ghost: for each probe that was allowed, newest first, the checks counted since the one before. -/
  probes : List (Option Nat) := []

inductive Event (n : Nat) where
  | sync (i : Fin n) (breakerProbeAuthorized : Bool)
  | count (i : Fin n)
  | probe (i : Fin n)
  | failure (i : Fin n)
  | success (i : Fin n)
  | reset (i : Fin n)
  | die (i : Fin n)

variable {n : Nat}

def World.set (w : World n) (i : Fin n) (s : Service) : World n := { w with services := Function.update w.services i s }

/-- `_update_breaker`: the record and the copy of the service that updates it. -/
def World.update (w : World n) (i : Fin n) (durable : BreakerState) (stage : Stage) : World n :=
  { w with durable }.set i { state := durable, stage }

def World.counted (durable : BreakerState) : BreakerState :=
  { durable with checksSinceSuppression := durable.checksSinceSuppression + 1 }

def step (w : World n) : Event n → World n
  | .sync i authorized =>
    if (w.services i).stage = .idle then
      let suppressed := MAX_CONSECUTIVE_FAILURES ≤ w.durable.consecutiveFailures ∧ authorized = false
      w.set i { state := w.durable, stage := if suppressed then .counting else .idle }
    else w
  | .count i =>
    if (w.services i).stage = .counting then
      let durable := World.counted w.durable
      let stage := if durable.checksSinceSuppression < FAILURE_PROBE_INTERVAL then Stage.idle else .probing
      { w.update i durable stage with sinceProbe := w.sinceProbe.map (· + 1) }
    else w
  | .probe i =>
    if (w.services i).stage = .probing then
      { w.update i { w.durable with checksSinceSuppression := 0 } .idle with
        sinceProbe := some 0
        probes := w.sinceProbe :: w.probes }
    else w
  | .failure i =>
    if (w.services i).stage = .idle then
      { w.update i ⟨w.durable.consecutiveFailures + 1, 0⟩ .idle with sinceProbe := none }
    else w
  | .success i =>
    if (w.services i).stage = .idle then { w.update i {} .idle with sinceProbe := none } else w
  -- `reset_session` clears the counters of the service and unlinks the record
  | .reset i =>
    if (w.services i).stage = .idle then { w.update i {} .idle with sinceProbe := none } else w
  | .die i => w.set i {}

/-- From one allowed probe to the next, as many checks as the interval asks for. -/
def World.ProbesApart (w : World n) : Prop := ∀ k, some k ∈ w.probes → FAILURE_PROBE_INTERVAL ≤ k

/-- A check is counted while no service stands between its two updates. -/
def World.Alone (w : World n) : Event n → Prop
  | .count _ => ∀ i, (w.services i).stage ≠ .probing
  | _ => True

instance World.Alone.decide (w : World n) : (e : Event n) → Decidable (w.Alone e)
  | .count _ => inferInstanceAs (Decidable (∀ i, (w.services i).stage ≠ .probing))
  | .sync _ _ | .probe _ | .failure _ | .success _ | .reset _ | .die _ => isTrue trivial

/-! ## The invariant -/

structure Inv (w : World n) : Prop where
  /-- The count does not run ahead of the checks since the last probe. -/
  since : ∀ k, w.sinceProbe = some k → w.durable.checksSinceSuppression ≤ k
  one : ∀ i j, (w.services i).stage = .probing → (w.services j).stage = .probing → i = j
  /-- A service that is about to probe has seen enough checks. -/
  probing : ∀ i, (w.services i).stage = .probing → ∀ k, w.sinceProbe = some k → FAILURE_PROBE_INTERVAL ≤ k
  apart : w.ProbesApart

theorem init_inv : Inv ({} : World n) where
  since := by simp
  one := by simp
  probing := by simp
  apart := by simp [World.ProbesApart]

/-- A service that is not about to probe afterwards leaves no new one that is. -/
theorem probing_of_set {w : World n} {i j : Fin n} {s : Service} (hs : s.stage ≠ .probing)
    (h : ((w.set i s).services j).stage = .probing) : j ≠ i ∧ (w.services j).stage = .probing := by
  by_cases hj : j = i
  · subst hj
    simp only [World.set, Function.update_self] at h
    exact absurd h hs
  · simp only [World.set, Function.update_of_ne hj] at h
    exact ⟨hj, h⟩

/-- A step of a service that stays out of the probe and touches neither counter. -/
theorem Inv.set {w : World n} (h : Inv w) (i : Fin n) {s : Service} (hs : s.stage ≠ .probing) : Inv (w.set i s) where
  since := h.since
  one j k hj hk := h.one j k (probing_of_set hs hj).2 (probing_of_set hs hk).2
  probing j hj := h.probing j (probing_of_set hs hj).2
  apart := h.apart

/-- A failure, a success and a reset begin anew. -/
theorem Inv.anew {w : World n} (h : Inv w) (i : Fin n) (durable : BreakerState) :
    Inv { w.update i durable .idle with sinceProbe := none } where
  since := by simp
  one j k hj hk := h.one j k (probing_of_set (s := ⟨durable, .idle⟩) (by simp) hj).2
    (probing_of_set (s := ⟨durable, .idle⟩) (by simp) hk).2
  probing := by simp
  apart := h.apart

/-- A check is counted, and may become the one service that is about to probe. -/
theorem Inv.count {w : World n} (h : Inv w) (i : Fin n) (halone : ∀ j, (w.services j).stage ≠ .probing) (stage : Stage)
    (hstage : stage = .probing → FAILURE_PROBE_INTERVAL ≤ w.durable.checksSinceSuppression + 1) :
    Inv { w.update i (World.counted w.durable) stage with sinceProbe := w.sinceProbe.map (· + 1) } := by
  have honly : ∀ j, ((w.update i (World.counted w.durable) stage).services j).stage = .probing → j = i ∧ stage = .probing := by
    intro j hj
    by_cases hji : j = i
    · subst hji
      simp only [World.update, World.set, Function.update_self] at hj
      exact ⟨rfl, hj⟩
    · simp only [World.update, World.set, Function.update_of_ne hji] at hj
      exact absurd hj (halone j)
  have hsince : ∀ k, w.sinceProbe.map (· + 1) = some k → w.durable.checksSinceSuppression + 1 ≤ k := by
    intro k hk
    obtain ⟨k', hk', rfl⟩ := Option.map_eq_some_iff.mp hk
    have := h.since k' hk'
    omega
  refine ⟨hsince, fun j k hj hk => (honly j hj).1.trans (honly k hk).1.symm, ?_, h.apart⟩
  intro j hj k hk
  have := hstage (honly j hj).2
  have := hsince k hk
  omega

/-- The one service that is about to probe sets the count back. -/
theorem Inv.probe {w : World n} (h : Inv w) (i : Fin n) (hi : (w.services i).stage = .probing) :
    Inv { w.update i { w.durable with checksSinceSuppression := 0 } .idle with
      sinceProbe := some 0, probes := w.sinceProbe :: w.probes } := by
  have hnone : ∀ j, ((w.update i { w.durable with checksSinceSuppression := 0 } .idle).services j).stage ≠ .probing := by
    intro j hj
    have hj' := probing_of_set (s := ⟨{ w.durable with checksSinceSuppression := 0 }, .idle⟩) (by simp) hj
    exact hj'.1 (h.one j i hj'.2 hi)
  refine ⟨fun k hk => ?_, fun j _ hj => absurd hj (hnone j), fun j hj => absurd hj (hnone j), ?_⟩
  · obtain rfl := Option.some.inj hk
    exact Nat.le_refl 0
  · intro k hk
    rcases List.mem_cons.mp hk with hk | hk
    · exact h.probing i hi k hk.symm
    · exact h.apart k hk

theorem step_inv (w : World n) (e : Event n) (h : Inv w) (halone : w.Alone e) : Inv (step w e) := by
  cases e with
  | sync i authorized =>
    simp only [step]
    split
    · refine h.set i ?_
      show (if _ then Stage.counting else Stage.idle) ≠ .probing
      split
      · simp
      · simp
    · exact h
  | count i =>
    simp only [step]
    split
    · refine h.count i halone _ fun hstage => ?_
      by_contra hfew
      rw [if_pos (show (World.counted w.durable).checksSinceSuppression < FAILURE_PROBE_INTERVAL from Nat.lt_of_not_le hfew)]
        at hstage
      cases hstage
    · exact h
  | probe i =>
    simp only [step]
    split
    · rename_i hi
      exact h.probe i hi
    · exact h
  | failure i | success i | reset i =>
    simp only [step]
    split
    · exact h.anew i _
    · exact h
  | die i => exact h.set i (by simp)

/-- Where no check is counted between the two updates of another, the probes of every run are apart. -/
theorem probes_apart {w : World n} (h : Reach step World.Alone {} w) : w.ProbesApart :=
  (Reach.invariant init_inv step_inv h).apart

namespace Sample

def failures : List (Event 2) := [.failure 0, .failure 0]

/-- A check of service `i` that is counted. -/
def check (i : Fin 2) : List (Event 2) := [.sync i false, .count i]

def suppressed (k : Nat) : List (Event 2) := (List.replicate k (check 0)).flatten

/-- Both services count their checks, the tenth and the eleventh, and then both probe. -/
def overlapping : List (Event 2) := failures ++ suppressed 9 ++ check 0 ++ check 1 ++ [Event.probe 0, .probe 1]

def alternating : List (Event 2) :=
  failures ++ suppressed 9 ++ check 1 ++ [Event.probe 1] ++ suppressed 9 ++ check 1 ++ [Event.probe 1]

end Sample

open Sample in
theorem two_probes_at_once : ¬∀ w : World 2, Reach step (fun _ _ => True) {} w → w.ProbesApart := by
  intro h
  have hallowed : Reach.Allowed step (fun _ _ => True) ({} : World 2) overlapping := by decide +kernel
  have hprobes : (overlapping.foldl step ({} : World 2)).probes = [some 0, none] := by decide +kernel
  have := h _ (Reach.foldl overlapping ({} : World 2) Reach.start hallowed) 0 (by rw [hprobes]; simp)
  exact absurd this (by decide +kernel)

open Sample in
theorem probes_apart_alternating : (alternating.foldl step ({} : World 2)).probes = [some 10, none] ∧
    (alternating.foldl step ({} : World 2)).ProbesApart := by
  have hallowed : Reach.Allowed step World.Alone ({} : World 2) alternating := by decide +kernel
  have hreach := Reach.foldl alternating ({} : World 2) Reach.start hallowed
  exact ⟨by decide +kernel, probes_apart hreach⟩

end Flowly.Compaction.Breaker
