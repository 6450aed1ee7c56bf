/-
  Flowly.Lib.Reach — the states a system reaches when every step it takes is allowed,
  and the induction over its runs.
-/

import Mathlib.Tactic.Common

namespace Flowly.Lib

variable {σ ε : Type*}

/-- `next s e` is the state after event `e`; `ok s e` allows the event. -/
inductive Reach (next : σ → ε → σ) (ok : σ → ε → Prop) (start : σ) : σ → Prop
  | start : Reach next ok start start
  | step {s : σ} (e : ε) : Reach next ok start s → ok s e → Reach next ok start (next s e)

namespace Reach

variable {next : σ → ε → σ} {ok : σ → ε → Prop} {start s : σ}

/-- What holds at the start and is kept by every allowed step holds in every run. -/
theorem invariant {P : σ → Prop} (h0 : P start) (hstep : ∀ s e, P s → ok s e → P (next s e))
    (h : Reach next ok start s) : P s := by
  induction h with
  | start => exact h0
  | step e _ hok ih => exact hstep _ e ih hok

/-- A list of events, each allowed where it is taken. -/
def Allowed (next : σ → ε → σ) (ok : σ → ε → Prop) : σ → List ε → Prop
  | _, [] => True
  | s, e :: es => ok s e ∧ Allowed next ok (next s e) es

instance Allowed.decidable (next : σ → ε → σ) (ok : σ → ε → Prop) [∀ s e, Decidable (ok s e)] :
    ∀ s es, Decidable (Allowed next ok s es)
  | _, [] => isTrue trivial
  | s, e :: es =>
    have := Allowed.decidable next ok (next s e) es
    inferInstanceAs (Decidable (ok s e ∧ Allowed next ok (next s e) es))

theorem foldl : ∀ (es : List ε) (s : σ), Reach next ok start s → Allowed next ok s es →
    Reach next ok start (es.foldl next s) := by
  intro es
  induction es with
  | nil => intro s h _; exact h
  | cons e es ih => intro s h ha; exact ih _ (h.step e ha.1) ha.2

/-- Every list of events is a run where every event is allowed. -/
theorem free (es : List ε) (s : σ) : Reach next (fun _ _ => True) s (es.foldl next s) := by
  refine foldl es s .start ?_
  induction es generalizing s with
  | nil => trivial
  | cons e es ih => exact ⟨trivial, ih _⟩

/-- What each allowed step of a run satisfies, under an invariant of the run. -/
theorem Allowed.under {P : σ → Prop} {ok' : σ → ε → Prop} (h : ∀ s e, P s → ok s e → P (next s e) ∧ ok' s e) :
    ∀ (es : List ε) {s : σ}, P s → Allowed next ok s es → Allowed next ok' s es := by
  intro es
  induction es with
  | nil => intro s _ _; exact trivial
  | cons e es ih =>
    intro s hs ha
    obtain ⟨hnext, hok⟩ := h s e hs ha.1
    exact ⟨hok, ih hnext ha.2⟩

end Reach

end Flowly.Lib
