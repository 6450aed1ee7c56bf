/-
  Flowly.Lib.Checked — functions that check what they are given and raise: what a
  `do` block over `Except` did when it returned.
-/

import Mathlib.Tactic.Common

namespace Flowly.Lib.Checked

variable {ε α β : Type} {e : ε}

theorem bind_ok {x : Except ε α} {f : α → Except ε β} {b : β} :
    (x >>= f) = .ok b ↔ ∃ a, x = .ok a ∧ f a = .ok b := by
  cases x with
  | error e => exact ⟨fun h => (by cases h), fun ⟨_, h, _⟩ => (by cases h)⟩
  | ok a =>
    constructor
    · intro h
      exact ⟨a, rfl, h⟩
    · intro ⟨_, h, hf⟩
      cases h
      exact hf

theorem pure_ok {a b : α} : (pure a : Except ε α) = .ok b ↔ a = b := by
  constructor
  · intro h
    cases h
    rfl
  · intro h
    rw [h]
    rfl

/-- `if c then raise` in front of the rest. -/
theorem guard_ok {c : Prop} [Decidable c] {f : α → Except ε β} {y : Except ε β} {b : β} :
    (if c then throw e >>= f else y) = .ok b ↔ ¬ c ∧ y = .ok b := by
  split_ifs with hc
  · exact ⟨fun h => (by cases h), fun h => absurd hc h.1⟩
  · exact ⟨fun h => ⟨hc, h⟩, fun h => h.2⟩

/-- Where what is checked first is all that raises. -/
theorem guard_raises {c : Prop} [Decidable c] {f : α → Except ε β} {b : β} {e' : ε}
    (h : (if c then throw e >>= f else pure b) = .error e') : e = e' := by
  split_ifs at h with hc
  · exact Except.error.inj h
  · cases h

end Flowly.Lib.Checked
