/-
  Flowly.Lib.Attempt — computations over a state that may raise: what they read and
  write before an exception stays read and written.

  `Returns x w a w'` and `Fails x w e w'` say how a run from `w` ends; the rules below
  take a computation apart at its binds and its handlers. `Keeps R x` is the frame rule:
  whatever happens, the state the run leaves is related to the one it found.
-/

import Mathlib.Tactic.Common

namespace Flowly.Lib

abbrev Attempt (ε σ α : Type) := ExceptT ε (StateM σ) α

namespace Attempt

variable {ε σ α β : Type}

def runFrom (x : Attempt ε σ α) (w : σ) : Except ε α × σ := x.run.run w

def Returns (x : Attempt ε σ α) (w : σ) (a : α) (w' : σ) : Prop := x.runFrom w = (.ok a, w')

def Fails (x : Attempt ε σ α) (w : σ) (e : ε) (w' : σ) : Prop := x.runFrom w = (.error e, w')

/-- An `Except` value as a computation that leaves the state alone. -/
def lift (x : Except ε α) : Attempt ε σ α := ExceptT.mk (pure x)

theorem returns_or_fails (x : Attempt ε σ α) (w : σ) : (∃ a w', Returns x w a w') ∨ ∃ e w', Fails x w e w' := by
  rcases h : x.runFrom w with ⟨r, w'⟩
  cases r with
  | ok a => exact Or.inl ⟨a, w', h⟩
  | error e => exact Or.inr ⟨e, w', h⟩

/-! ## Rules -/

variable {w w' : σ}

@[simp] theorem returns_pure {a b : α} : Returns (pure a : Attempt ε σ α) w b w' ↔ b = a ∧ w' = w := by
  constructor
  · intro h; cases h; exact ⟨rfl, rfl⟩
  · rintro ⟨rfl, rfl⟩; rfl

variable {e : ε}

@[simp] theorem fails_pure {a : α} : ¬ Fails (pure a : Attempt ε σ α) w e w' := by
  intro h; cases h

@[simp] theorem returns_throw {a : α} : ¬ Returns (throw e : Attempt ε σ α) w a w' := by
  intro h; cases h

@[simp] theorem fails_throw {e e' : ε} : Fails (throw e : Attempt ε σ α) w e' w' ↔ e' = e ∧ w' = w := by
  constructor
  · intro h; cases h; exact ⟨rfl, rfl⟩
  · rintro ⟨rfl, rfl⟩; rfl

@[simp] theorem returns_lift {x : Except ε α} {a : α} : Returns (lift x) w a w' ↔ x = .ok a ∧ w' = w := by
  constructor
  · intro h; cases h; exact ⟨rfl, rfl⟩
  · rintro ⟨rfl, rfl⟩; rfl

@[simp] theorem fails_lift {x : Except ε α} : Fails (lift x) w e w' ↔ x = .error e ∧ w' = w := by
  constructor
  · intro h; cases h; exact ⟨rfl, rfl⟩
  · rintro ⟨rfl, rfl⟩; rfl

@[simp] theorem returns_modify {f : σ → σ} {u : PUnit} :
    Returns (modify f : Attempt ε σ PUnit) w u w' ↔ w' = f w := by
  constructor
  · intro h; cases h; rfl
  · rintro rfl; rfl

@[simp] theorem fails_modify {f : σ → σ} : ¬ Fails (modify f : Attempt ε σ PUnit) w e w' := by
  intro h; cases h

theorem bind_run (x : Attempt ε σ α) (f : α → Attempt ε σ β) (w : σ) :
    runFrom (x >>= f) w = match x.runFrom w with
      | (.ok a, w1) => runFrom (f a) w1
      | (.error e, w1) => (.error e, w1) := by
  change (ExceptT.bind x f) w = _
  simp only [runFrom, ExceptT.bind, ExceptT.mk, bind, StateT.bind, ExceptT.run, StateT.run]
  rcases x w with ⟨r, w1⟩
  cases r <;> rfl

variable {x : Attempt ε σ α}

theorem returns_bind {f : α → Attempt ε σ β} {b : β} :
    Returns (x >>= f) w b w' ↔ ∃ a w1, Returns x w a w1 ∧ Returns (f a) w1 b w' := by
  unfold Returns
  rw [bind_run]
  rcases x.runFrom w with ⟨r, w1⟩
  cases r with
  | ok a => simp
  | error e => simp

theorem fails_bind {f : α → Attempt ε σ β} :
    Fails (x >>= f) w e w' ↔ Fails x w e w' ∨ ∃ a w1, Returns x w a w1 ∧ Fails (f a) w1 e w' := by
  unfold Returns Fails
  rw [bind_run]
  rcases x.runFrom w with ⟨r, w1⟩
  cases r with
  | ok a => simp
  | error e => simp

/-- Reading the state. -/
@[simp] theorem returns_get_bind {f : σ → Attempt ε σ β} {b : β} :
    Returns (get >>= f) w b w' ↔ Returns (f w) w b w' := by
  unfold Returns
  rw [bind_run]
  rfl

@[simp] theorem fails_get_bind {f : σ → Attempt ε σ β} :
    Fails (get >>= f) w e w' ↔ Fails (f w) w e w' := by
  unfold Fails
  rw [bind_run]
  rfl

theorem tryCatch_run (x : Attempt ε σ α) (handler : ε → Attempt ε σ α) (w : σ) :
    runFrom (tryCatch x handler) w = match x.runFrom w with
      | (.ok a, w1) => (.ok a, w1)
      | (.error e, w1) => runFrom (handler e) w1 := by
  change (ExceptT.tryCatch x handler) w = _
  simp only [runFrom, ExceptT.tryCatch, ExceptT.mk, bind, StateT.bind, ExceptT.run, StateT.run]
  rcases x w with ⟨r, w1⟩
  cases r <;> rfl

theorem returns_tryCatch {handler : ε → Attempt ε σ α} {a : α} :
    Returns (tryCatch x handler) w a w' ↔ Returns x w a w' ∨ ∃ e w1, Fails x w e w1 ∧ Returns (handler e) w1 a w' := by
  unfold Returns Fails
  rw [tryCatch_run]
  rcases x.runFrom w with ⟨r, w1⟩
  cases r with
  | ok a => simp
  | error e => simp

theorem fails_tryCatch {handler : ε → Attempt ε σ α} :
    Fails (tryCatch x handler) w e w' ↔ ∃ e1 w1, Fails x w e1 w1 ∧ Fails (handler e1) w1 e w' := by
  unfold Fails
  rw [tryCatch_run]
  rcases x.runFrom w with ⟨r, w1⟩
  cases r with
  | ok a => simp
  | error e => simp

/-! ## The frame rule -/

def Keeps (R : σ → σ → Prop) (x : Attempt ε σ α) : Prop := ∀ w, R w (x.runFrom w).2

section
variable {R : σ → σ → Prop}

theorem Keeps.returns {x : Attempt ε σ α} (h : Keeps R x) {w w' : σ} {a : α} (hr : Returns x w a w') : R w w' := by
  have := h w
  rwa [show x.runFrom w = (.ok a, w') from hr] at this

theorem keeps_pure [Std.Refl R] (a : α) : Keeps R (pure a : Attempt ε σ α) := fun w => refl_of R w

theorem keeps_throw [Std.Refl R] (e : ε) : Keeps R (throw e : Attempt ε σ α) := fun w => refl_of R w

theorem keeps_lift [Std.Refl R] (x : Except ε α) : Keeps R (lift x : Attempt ε σ α) := fun w => refl_of R w

variable [IsTrans σ R]

theorem Keeps.bind {x : Attempt ε σ α} {f : α → Attempt ε σ β} (hx : Keeps R x) (hf : ∀ a, Keeps R (f a)) :
    Keeps R (x >>= f) := by
  intro w
  have h := hx w
  rw [bind_run]
  rcases hr : x.runFrom w with ⟨r, w1⟩
  rw [hr] at h
  cases r with
  | ok a => exact trans_of R h (hf a w1)
  | error e => exact h

theorem Keeps.tryCatch {x : Attempt ε σ α} {handler : ε → Attempt ε σ α} (hx : Keeps R x)
    (hh : ∀ e, Keeps R (handler e)) : Keeps R (tryCatch x handler) := by
  intro w
  have h := hx w
  rw [tryCatch_run]
  rcases hr : x.runFrom w with ⟨r, w1⟩
  rw [hr] at h
  cases r with
  | ok a => exact h
  | error e => exact trans_of R h (hh e w1)

end

end Attempt

end Flowly.Lib
