/-
  Flowly.Lib.Replay — a system that writes a line whenever what is observed of it
  changes, and what the lines give when they are replayed.

  `apply v line` is the observation after `line` when it was `v` before. A trail lists
  each line with the observation right after it was written. It is `Faithful` when
  replaying any part of the lines from the front gives what was observed at its end.
-/

import Mathlib.Data.List.Basic
import Mathlib.Data.List.TakeDrop

namespace Flowly.Lib.Replay

variable {V L R : Type*} (apply : V → L → V) (start : V)

def lines (trail : List (L × V)) : List L := trail.map (·.1)

def Faithful (trail : List (L × V)) : Prop :=
  ∀ n (h : n < trail.length), ((lines trail).take (n + 1)).foldl apply start = trail[n].2

variable {apply start}

@[simp] theorem lines_nil : lines ([] : List (L × V)) = [] := rfl

@[simp] theorem lines_append (trail more : List (L × V)) : lines (trail ++ more) = lines trail ++ lines more := by
  simp [lines]

@[simp] theorem lines_cons (line : L) (v : V) (trail : List (L × V)) : lines ((line, v) :: trail) = line :: lines trail := rfl

@[simp] theorem length_lines (trail : List (L × V)) : (lines trail).length = trail.length := by simp [lines]

theorem Faithful.nil : Faithful apply start ([] : List (L × V)) := fun _ h => absurd h (Nat.not_lt_zero _)

/-- One more line, taking what the lines so far give to what is observed now. -/
theorem Faithful.snoc {trail : List (L × V)} (h : Faithful apply start trail) {line : L} {v : V}
    (hv : apply ((lines trail).foldl apply start) line = v) : Faithful apply start (trail ++ [(line, v)]) := by
  intro n hn
  simp only [List.length_append, List.length_singleton] at hn
  by_cases hlt : n < trail.length
  · have htake : (lines (trail ++ [(line, v)])).take (n + 1) = (lines trail).take (n + 1) := by
      rw [lines_append, List.take_append_of_le_length]
      rw [length_lines]
      omega
    rw [htake, List.getElem_append_left hlt]
    exact h n hlt
  · have hn : n = trail.length := by omega
    subst hn
    rw [List.getElem_append_right (Nat.le_refl _), List.take_of_length_le (by simp)]
    simpa using hv

/-- What is left when the last lines are lost. -/
theorem Faithful.take {trail : List (L × V)} (h : Faithful apply start trail) (n : Nat) :
    Faithful apply start (trail.take n) := by
  intro m hm
  have hlen : m < n ∧ m < trail.length := by
    rw [List.length_take] at hm
    omega
  have hlines : (lines (trail.take n)).take (m + 1) = (lines trail).take (m + 1) := by
    rw [lines, List.map_take, List.take_take, Nat.min_eq_left (by omega)]
    rfl
  rw [hlines, List.getElem_take]
  exact h m hlen.2

/-- A replayer whose own state shows the observation, and whose steps follow `apply`. -/
theorem view_foldl (view : R → V) {step : R → L → R} (hstep : ∀ r line, view (step r line) = apply (view r) line) :
    ∀ (ls : List L) (r : R), view (ls.foldl step r) = ls.foldl apply (view r) := by
  intro ls
  induction ls with
  | nil => intro r; rfl
  | cons line ls ih =>
    intro r
    rw [List.foldl_cons, List.foldl_cons, ih, hstep]

end Flowly.Lib.Replay
