/-
  Flowly.Lib.Versioned — a value whose every commit raises its version, and the
  snapshots taken of it: one whose version is still the newest is the value itself.
-/

import Mathlib.Data.List.Basic
import Mathlib.Data.List.Pairwise

namespace Flowly.Lib

variable {α : Type*}

def Versioned (version : α → Nat) (history : List α) : Prop := history.Pairwise fun a b => version b < version a

namespace Versioned

variable {version : α → Nat} {history : List α} {a b current : α}

theorem nil : Versioned version ([] : List α) := List.Pairwise.nil

theorem head_le (h : Versioned version history) (hc : history.head? = some current) (ha : a ∈ history) :
    version a ≤ version current := by
  cases history with
  | nil => cases hc
  | cons c rest =>
    cases hc
    rcases List.mem_cons.1 ha with rfl | ha
    · exact Nat.le_refl _
    · exact Nat.le_of_lt ((List.pairwise_cons.1 h).1 a ha)

/-- A snapshot of the newest version is the newest value. -/
theorem eq_head (h : Versioned version history) (hc : history.head? = some current) (ha : a ∈ history)
    (hv : version current = version a) : a = current := by
  cases history with
  | nil => cases hc
  | cons c rest =>
    cases hc
    rcases List.mem_cons.1 ha with rfl | ha
    · rfl
    · have := (List.pairwise_cons.1 h).1 a ha
      omega

theorem push (h : Versioned version history) (hb : ∀ c, history.head? = some c → version c < version b) :
    Versioned version (b :: history) := by
  refine List.pairwise_cons.2 ⟨?_, h⟩
  intro a ha
  cases history with
  | nil => cases ha
  | cons c rest => exact Nat.lt_of_le_of_lt (h.head_le rfl ha) (hb c rfl)

end Versioned

end Flowly.Lib
