/-
  Flowly.Lib.Durable — programs that write to a store which outlives their process, and
  what a death between two writes leaves of it.

  A run gives a value, the store after it, and the store after each of its writes. Only
  `write` can be the last thing a process did; what `modify` changes without a write is
  lost with the process unless a later write follows.

  `Safe I x d Q` is a triple with a crash invariant: run from `d`, `x` leaves a store
  with `I` at every write, and returns with `Q`. The rules take a program apart at its
  binds; `Safe.left` is what a death makes of it.
-/

import Mathlib.Tactic.Common

namespace Flowly.Lib

structure Ran (δ α : Type) where
  value : α
  store : δ
  /-- The store after each write. -/
  writes : List δ

def Durable (δ α : Type) := δ → Ran δ α

namespace Durable

variable {δ α β : Type}

instance : Monad (Durable δ) where
  pure a := fun d => ⟨a, d, []⟩
  bind x f := fun d =>
    let r := x d
    let r' := f r.value r.store
    ⟨r'.value, r'.store, r.writes ++ r'.writes⟩

def read : Durable δ δ := fun d => ⟨d, d, []⟩

def modify (f : δ → δ) : Durable δ Unit := fun d => ⟨(), f d, []⟩

def write (f : δ → δ) : Durable δ Unit := fun d => ⟨(), f d, [f d]⟩

/-- The store a process leaves that dies after `n` writes. -/
def left (x : Durable δ α) (d : δ) (n : Nat) : δ := ((x d).writes.take n).getLast?.getD d

/-! ## The triple -/

structure Safe (I : δ → Prop) (x : Durable δ α) (d : δ) (Q : α → δ → Prop) : Prop where
  writes : ∀ d' ∈ (x d).writes, I d'
  returns : Q (x d).value (x d).store

namespace Safe

variable {I : δ → Prop} {x : Durable δ α} {d : δ} {Q Q' : α → δ → Prop}

theorem pure {a : α} (h : Q a d) : Safe I (Pure.pure a) d Q := ⟨List.forall_mem_nil _, h⟩

theorem read {Q : δ → δ → Prop} (h : Q d d) : Safe I Durable.read d Q := ⟨List.forall_mem_nil _, h⟩

theorem modify {f : δ → δ} {Q : Unit → δ → Prop} (h : Q () (f d)) : Safe I (Durable.modify f) d Q :=
  ⟨List.forall_mem_nil _, h⟩

theorem write {f : δ → δ} {Q : Unit → δ → Prop} (hI : I (f d)) (h : Q () (f d)) : Safe I (Durable.write f) d Q :=
  ⟨fun _ hd => List.mem_singleton.mp hd ▸ hI, h⟩

theorem bind {f : α → Durable δ β} {Q : β → δ → Prop} (h : Safe I x d fun a d' => Safe I (f a) d' Q) :
    Safe I (x >>= f) d Q where
  writes := by
    intro d' hd'
    rcases List.mem_append.mp hd' with hx | hf
    · exact h.writes d' hx
    · exact h.returns.writes d' hf
  returns := h.returns.returns

theorem mono (h : Safe I x d Q) (hQ : ∀ a d', Q a d' → Q' a d') : Safe I x d Q' := ⟨h.writes, hQ _ _ h.returns⟩

theorem read_bind {f : δ → Durable δ β} {Q : β → δ → Prop} (h : Safe I (f d) d Q) : Safe I (Durable.read >>= f) d Q :=
  .bind (.read h)

theorem modify_bind {g : δ → δ} {f : Unit → Durable δ β} {Q : β → δ → Prop} (h : Safe I (f ()) (g d) Q) :
    Safe I (Durable.modify g >>= f) d Q := .bind (.modify h)

theorem write_bind {g : δ → δ} {f : Unit → Durable δ β} {Q : β → δ → Prop} (hI : I (g d)) (h : Safe I (f ()) (g d) Q) :
    Safe I (Durable.write g >>= f) d Q := .bind (.write hI h)

/-- A death leaves the store as it was found, or as one of the writes left it. -/
theorem left (h : Safe I x d Q) (hd : I d) (n : Nat) : I (x.left d n) := by
  unfold Durable.left
  cases hlast : ((x d).writes.take n).getLast? with
  | none => exact hd
  | some d' => exact h.writes d' (List.mem_of_mem_take (List.mem_of_getLast? hlast))

end Safe

end Durable

end Flowly.Lib
