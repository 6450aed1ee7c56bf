/-
  Flowly.Lib.Program — programs that change a state and may raise, where what was changed
  before an exception stays changed; and rules for what such a program ends in.

  `Post x s Q`: run from `s`, the program `x` ends in a result and a state of which `Q`
  holds. `Keeps P x`: whatever its result, `x` keeps `P` of the state.
-/

import Mathlib.Tactic.Common

namespace Flowly.Lib

/-- A program over states `σ` that may raise an `ε`. -/
abbrev Program (σ ε α : Type) := ExceptT ε (StateM σ) α

namespace Program

variable {σ ε α β : Type}

def exec (x : Program σ ε α) (s : σ) : Except ε α × σ := x.run.run s

theorem exec_get (s : σ) : exec (get : Program σ ε σ) s = (.ok s, s) := rfl

theorem exec_bind (x : Program σ ε α) (f : α → Program σ ε β) (s : σ) :
    exec (x >>= f) s = match exec x s with
      | (.ok a, s') => exec (f a) s'
      | (.error e, s') => (.error e, s') := by
  show (x >>= f).run.run s = _
  unfold exec
  rw [ExceptT.run_bind]
  show (match (x.run.run s).1 with
    | .ok a => _
    | .error e => _ : StateM σ (Except ε β)).run (x.run.run s).2 = _
  cases hx : x.run.run s with
  | mk r s' => cases r <;> rfl

theorem exec_tryCatch (x : Program σ ε α) (f : ε → Program σ ε α) (s : σ) :
    exec (tryCatch x f) s = match exec x s with
      | (.ok a, s') => (.ok a, s')
      | (.error e, s') => exec (f e) s' := by
  unfold exec
  show (match (x.run.run s).1 with
    | .ok a => _
    | .error e => _ : StateM σ (Except ε α)).run (x.run.run s).2 = _
  cases hx : x.run.run s with
  | mk r s' => cases r <;> rfl

/-- What a run of `x` from `s` ends in. -/
def Post (x : Program σ ε α) (s : σ) (Q : Except ε α → σ → Prop) : Prop := Q (exec x s).1 (exec x s).2

section Post

variable {x : Program σ ε α} {s : σ} {Q : Except ε α → σ → Prop}

/-- A step of which the outcome is known. -/
theorem Post.step {a : α} {s' : σ} {f : α → Program σ ε β} {Q : Except ε β → σ → Prop} (hx : exec x s = (.ok a, s'))
    (h : Post (f a) s' Q) : Post (x >>= f) s Q := by
  unfold Post at h ⊢
  rw [exec_bind, hx]
  exact h

theorem Post.of_exec {r : Except ε α} {s' : σ} (hx : exec x s = (r, s')) (h : Q r s') : Post x s Q := by
  unfold Post
  rw [hx]
  exact h

variable {R : Except ε α → σ → Prop}

theorem Post.mono (h : Post x s R) (hRQ : ∀ r s', R r s' → Q r s') : Post x s Q := hRQ _ _ h

theorem Post.bind {f : α → Program σ ε β} {Q : Except ε β → σ → Prop} (h : Post x s R)
    (hok : ∀ a s', R (.ok a) s' → Post (f a) s' Q) (herr : ∀ e s', R (.error e) s' → Q (.error e) s') : Post (x >>= f) s Q := by
  unfold Post at h ⊢
  rw [exec_bind]
  cases hx : exec x s with
  | mk r s' =>
    rw [hx] at h
    cases r with
    | ok a => exact hok a s' h
    | error e => exact herr e s' h

theorem Post.tryCatch {f : ε → Program σ ε α} (h : Post x s R)
    (hok : ∀ a s', R (.ok a) s' → Q (.ok a) s') (herr : ∀ e s', R (.error e) s' → Post (f e) s' Q) :
    Post (tryCatch x f) s Q := by
  unfold Post at h ⊢
  rw [exec_tryCatch]
  cases hx : exec x s with
  | mk r s' =>
    rw [hx] at h
    cases r with
    | ok a => exact hok a s' h
    | error e => exact herr e s' h

/-- A loop: what each turn keeps, for the elements that are left. -/
theorem Post.forM {f : α → Program σ ε PUnit} {I : List α → σ → Prop} {Q : Except ε PUnit → σ → Prop} :
    ∀ (l : List α) {s : σ}, I l s → (∀ a rest s, I (a :: rest) s → Post (f a) s fun r s' =>
      match r with
      | .ok _ => I rest s'
      | .error e => Q (.error e) s') → (∀ s, I [] s → Q (.ok ⟨⟩) s) → Post (l.forM f) s Q := by
  intro l
  induction l with
  | nil =>
    intro s hI _ hend
    exact hend s hI
  | cons a rest ih =>
    intro s hI hturn hend
    refine Post.bind (hturn a rest s hI) ?_ ?_
    · exact fun _ s' hs' => ih hs' hturn hend
    · exact fun _ s' hs' => hs'

end Post

/-- The program keeps `P`, also when it raises. -/
def Keeps (P : σ → Prop) (x : Program σ ε α) : Prop := ∀ s, P s → Post x s fun _ s' => P s'

section Keeps

variable {P : σ → Prop} {x : Program σ ε α}

theorem Keeps.pure (a : α) : Keeps P (pure a : Program σ ε α) := fun _ h => h

theorem Keeps.throw (e : ε) : Keeps P (throw e : Program σ ε α) := fun _ h => h

theorem Keeps.bind {f : α → Program σ ε β} (hx : Keeps P x) (hf : ∀ a, Keeps P (f a)) : Keeps P (x >>= f) :=
  fun s h => Post.bind (hx s h) (fun a s' hs' => hf a s' hs') fun _ _ hs' => hs'

theorem Keeps.tryCatch {f : ε → Program σ ε α} (hx : Keeps P x) (hf : ∀ e, Keeps P (f e)) : Keeps P (tryCatch x f) :=
  fun s h => Post.tryCatch (hx s h) (fun _ _ hs' => hs') fun e s' hs' => hf e s' hs'

theorem Keeps.ite {c : Prop} [Decidable c] {y : Program σ ε α} (hx : Keeps P x) (hy : Keeps P y) : Keeps P (if c then x else y) := by
  split
  · exact hx
  · exact hy

theorem Keeps.forM {f : α → Program σ ε PUnit} (hf : ∀ a, Keeps P (f a)) (l : List α) : Keeps P (l.forM f) := by
  induction l with
  | nil => exact Keeps.pure _
  | cons a rest ih => exact Keeps.bind (hf a) fun _ => ih

end Keeps

end Program

end Flowly.Lib
