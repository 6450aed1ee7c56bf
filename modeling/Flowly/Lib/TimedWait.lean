/-
  Flowly.Lib.TimedWait — a task that awaits one future inside `asyncio.timeout`, as the
  standard library has it.

  The timer and `task.cancel()` do the same to the task: they cancel the future it waits
  for, or, when that future is done already, mark the task, and it gets its
  `CancelledError` the next time it runs. The timeout turns that error into a
  `TimeoutError` when nobody but the timer cancelled the task. asyncio does not say
  whether a timer that is due runs before or after a task that is ready.
-/

import Mathlib.Tactic.Common

namespace Flowly.Lib

inductive Awaited (α : Type) where
  | pending
  | done (a : α)
  | cancelled
  deriving DecidableEq

def Awaited.isDone {α : Type} : Awaited α → Bool
  | .done _ => true
  | _ => false

inductive WaitEnd (α : Type) where
  | returned (a : α)
  | timedOut
  | cancelled
  deriving DecidableEq

structure TimedWait (α : Type) where
  future : Awaited α := .pending
  /-- `_must_cancel`. -/
  mustCancel : Bool := false
  /-- The timer has fired. -/
  expiring : Bool := false
  /-- Somebody else has cancelled the task. -/
  cancelled : Bool := false
  deriving DecidableEq

namespace TimedWait

variable {α : Type}

def setResult (w : TimedWait α) (a : α) : TimedWait α := { w with future := .done a }

/-- `Task.cancel`, from whomever. -/
def interrupt (w : TimedWait α) : TimedWait α :=
  match w.future with
  | .pending => { w with future := .cancelled }
  | _ => { w with mustCancel := true }

def fire (w : TimedWait α) : TimedWait α := { w.interrupt with expiring := true }

def cancel (w : TimedWait α) : TimedWait α := { w.interrupt with cancelled := true }

/-- The `CancelledError` at the end of the timeout. -/
def interrupted (w : TimedWait α) : WaitEnd α := if w.expiring ∧ w.cancelled = false then .timedOut else .cancelled

def result (w : TimedWait α) : Option (WaitEnd α) :=
  match w.future with
  | .pending => none
  | .done a => some (if w.mustCancel then w.interrupted else .returned a)
  | .cancelled => some w.interrupted

/-- Only the timer and the cancellations interrupt the task, and they end the wait. -/
structure Sound (w : TimedWait α) : Prop where
  marked : w.mustCancel = true → w.expiring = true ∨ w.cancelled = true
  quiet : w.future = .pending → w.expiring = false

theorem interrupt_not_pending (w : TimedWait α) : w.interrupt.future ≠ .pending := by
  unfold interrupt
  split
  · intro h
    cases h
  · next h => exact h

variable {w : TimedWait α}

theorem interrupt_done {a : α} (h : w.future = .done a) : w.interrupt.future = .done a := by
  unfold interrupt
  rw [h]

theorem interrupt_isDone (h : w.future.isDone = false) : w.interrupt.future.isDone = false := by
  unfold interrupt
  split
  · rfl
  · exact h

theorem result_not_pending {o : WaitEnd α} (h : w.result = some o) : w.future ≠ .pending := by
  intro hp
  unfold result at h
  rw [hp] at h
  cases h

/-- What the task returns is what the future holds. -/
theorem result_returned {a : α} (h : w.result = some (.returned a)) : w.future = .done a := by
  have hint : w.interrupted ≠ .returned a := by
    unfold interrupted
    split_ifs
    · intro hc
      cases hc
    · intro hc
      cases hc
  unfold result at h
  split at h
  · cases h
  · next b hb =>
    rw [hb]
    split_ifs at h
    · exact absurd (Option.some.inj h) hint
    · cases h
      rfl
  · exact absurd (Option.some.inj h) hint

/-- Who interrupts the task puts no result there. -/
theorem done_of_interrupt {a : α} (h : w.interrupt.future = .done a) : w.future = .done a := by
  unfold interrupt at h
  split at h
  · cases h
  · exact h

theorem interrupt_expiring (w : TimedWait α) : w.interrupt.expiring = w.expiring := by
  unfold interrupt
  split <;> rfl

namespace Sound

variable {w : TimedWait α}

theorem init : Sound ({} : TimedWait α) := ⟨fun h => (by cases h), fun _ => rfl⟩

theorem setResult (h : w.Sound) (a : α) : (w.setResult a).Sound := ⟨h.marked, fun h => (by cases h)⟩

theorem fire (_ : w.Sound) : w.fire.Sound := ⟨fun _ => .inl rfl, fun h => absurd h (interrupt_not_pending w)⟩

theorem cancel (_ : w.Sound) : w.cancel.Sound := ⟨fun _ => .inr rfl, fun h => absurd h (interrupt_not_pending w)⟩

/-- Without the timer, a result that is there is what the task gets, or it was cancelled. -/
theorem result_done (h : w.Sound) {a : α} {o : WaitEnd α} (hf : w.future = .done a) (he : w.expiring = false)
    (hr : w.result = some o) : o = .returned a ∨ o = .cancelled ∧ w.cancelled = true := by
  unfold TimedWait.result at hr
  rw [hf] at hr
  by_cases hm : w.mustCancel = true
  · have hint : w.interrupted = .cancelled := by
      unfold TimedWait.interrupted
      rw [if_neg (by simp [he])]
    simp only [if_pos hm, hint, Option.some.injEq] at hr
    rcases h.marked hm with hexp | hc
    · rw [he] at hexp
      cases hexp
    · exact .inr ⟨hr.symm, hc⟩
  · simp only [if_neg hm, Option.some.injEq] at hr
    exact .inl hr.symm

end Sound

end TimedWait

end Flowly.Lib
