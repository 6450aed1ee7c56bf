/-
  Flowly.Providers.KeyRotator — the API keys of a provider and the calls that share them
  (`flowly/providers/key_rotator.py`: `KeyRotator`; `flowly/providers/anthropic_provider.py`:
  `chat`, whose loop `flowly/providers/openrouter_provider.py` has too).

  Actors. Any number of calls, each waiting for the answer to a request it made with the key
  that was current then; a failed one takes no step before the rotation, and reads the key
  after it at once. The clock moves as it likes, also between two readings of a rotation.

  Proved: a rotation leaves the key it should (`rotate_wellChosen`), and a failed request
  raises one fail count, by one, and never again; the key it raises is the one it was made
  with in a run whose every rotation finds that key current, and in no other
  (`onlyFailing_iff`). Two calls that fail together blame a key that neither used
  (`a_fresh_key_is_blamed`).
-/

import Flowly.Lib.Reach
import Mathlib.Data.List.FinRange
import Mathlib.Algebra.Order.Ring.Int

namespace Flowly.Providers

open Flowly.Lib

structure KeyState (κ : Type*) where
  key : κ
  failCount : Nat := 0
  cooldownUntil : Int := 0

variable {κ : Type*} {n : Nat}

namespace KeyState

def isAvailable (s : KeyState κ) (now : Int) : Bool := s.cooldownUntil ≤ now

def markFailed (s : KeyState κ) (cooldown now : Int) : KeyState κ :=
  { s with failCount := s.failCount + 1, cooldownUntil := now + cooldown }

end KeyState

structure KeyRotator (κ : Type*) (n : Nat) where
  states : Fin n → KeyState κ
  cooldown : Int
  currentIdx : Fin n

namespace KeyRotator

def currentKey (r : KeyRotator κ n) : κ := (r.states r.currentIdx).key

def slot (r : KeyRotator κ n) (offset : Nat) : Fin n := ⟨(r.currentIdx + offset) % n, Nat.mod_lt _ r.currentIdx.pos⟩

/-- `_pick_next`; `clock` is the time at the test of each offset. -/
def pickNext (r : KeyRotator κ n) (clock : Nat → Int) : Fin n :=
  match (List.range' 1 n).find? fun offset => (r.states (r.slot offset)).isAvailable (clock offset) with
  | some offset => r.slot offset
  | none => ((List.finRange n).minOn? fun i => (r.states i).cooldownUntil).getD r.currentIdx

def rotate (r : KeyRotator κ n) (clock : Nat → Int) : KeyRotator κ n :=
  let marked := { r with states := Function.update r.states r.currentIdx ((r.states r.currentIdx).markFailed r.cooldown (clock 0)) }
  { marked with currentIdx := marked.pickNext clock }

/-- The current key is not in cooldown if there is such a key, else the one whose cooldown ends first. -/
def WellChosen (r : KeyRotator κ n) (now : Int) : Prop :=
  ((∃ i, (r.states i).isAvailable now) → (r.states r.currentIdx).isAvailable now) ∧
    ((∀ i, (r.states i).isAvailable now = false) → ∀ i, (r.states r.currentIdx).cooldownUntil ≤ (r.states i).cooldownUntil)

theorem pickNext_available {r : KeyRotator κ n} {clock : Nat → Int} {now : Int} (hclock : ∀ k, clock k ≤ now) :
    ((r.states (r.pickNext clock)).isAvailable now) ∨
      ∀ i, (r.states (r.pickNext clock)).cooldownUntil ≤ (r.states i).cooldownUntil := by
  unfold pickNext
  split
  · next offset hfind =>
    left
    have hfree := List.find?_some hfind
    simp only [KeyState.isAvailable, decide_eq_true_eq] at hfree ⊢
    exact hfree.trans (hclock offset)
  · right
    intro i
    rw [← Option.some_get (List.isSome_minOn?_of_mem (List.mem_finRange i)), Option.getD_some]
    exact List.apply_get_minOn?_le_of_mem (f := fun i => (r.states i).cooldownUntil) (List.mem_finRange i)

/-- After a rotation, at any time. -/
theorem rotate_wellChosen (r : KeyRotator κ n) {clock : Nat → Int} {now : Int} (hclock : ∀ k, clock k ≤ now) :
    (r.rotate clock).WellChosen now := by
  unfold rotate
  dsimp only
  generalize Function.update r.states _ _ = states
  rcases pickNext_available (r := { r with states := states }) hclock with hfree | hleast
  · refine ⟨fun _ => hfree, fun hnone => ?_⟩
    rw [hnone] at hfree
    cases hfree
  · refine ⟨fun ⟨i, hi⟩ => ?_, fun _ => hleast⟩
    simp only [KeyState.isAvailable, decide_eq_true_eq] at hi ⊢
    exact (hleast i).trans hi

theorem rotate_states (r : KeyRotator κ n) (clock : Nat → Int) : (r.rotate clock).states =
    Function.update r.states r.currentIdx ((r.states r.currentIdx).markFailed r.cooldown (clock 0)) := rfl

theorem rotate_current_ne (r : KeyRotator κ n) (clock : Nat → Int) : (r.rotate clock).states r.currentIdx ≠ r.states r.currentIdx := by
  rw [rotate_states, Function.update_self]
  exact fun heq => Nat.succ_ne_self _ (congrArg KeyState.failCount heq)

end KeyRotator

/-! ## The calls -/

/-- A call of `chat`: the attempt it is at, and the key of its request. -/
structure Call (κ : Type*) where
  attempt : Nat := 0
  key : κ
  running : Bool := true

structure World (κ : Type*) (n : Nat) where
  rotator : KeyRotator κ n
  now : Int
  calls : List (Call κ) := []
  /-- Ghost: the requests that failed, by call and attempt. -/
  failed : List (Nat × Nat) := []

inductive Event where
  | chat
  | tick (ms : Nat)
  /-- The answer comes, or the call is cancelled. -/
  | leave (call : Nat)
  /-- The request fails; the clock goes on by `delays` while the keys are tested. -/
  | fail (call : Nat) (rotatable : Bool) (delays : List Nat)

namespace World

variable (w : World κ n)

def clock (delays : List Nat) (k : Nat) : Int := w.now + ((delays.take k).sum : Nat)

def failing (i : Nat) : Option (Call κ) := (w.calls[i]?).filter (·.running)

/-- A failure is rotated on before the last attempt, of as many as there are keys. -/
def rotates (c : Call κ) (rotatable : Bool) : Bool := rotatable && c.attempt < n - 1

def setCall (i : Nat) (c : Call κ) : World κ n := { w with calls := w.calls.set i c }

def next : Event → World κ n
  | .chat => { w with calls := w.calls ++ [{ key := w.rotator.currentKey }] }
  | .tick ms => { w with now := w.now + ms }
  | .leave i =>
    match w.failing i with
    | none => w
    | some c => w.setCall i { c with running := false }
  | .fail i rotatable delays =>
    match w.failing i with
    | none => w
    | some c =>
      let w := { w with failed := w.failed ++ [(i, c.attempt)] }
      if rotates (n := n) c rotatable then
        let rotator := w.rotator.rotate (w.clock delays)
        { w with rotator, now := w.now + (delays.sum : Nat) }.setCall i { c with attempt := c.attempt + 1, key := rotator.currentKey }
      else w.setCall i { c with running := false }

variable {w} in
theorem next_rotating {i : Nat} {rotatable : Bool} {c : Call κ} (hc : w.failing i = some c)
    (hrot : rotates (n := n) c rotatable = true) (delays : List Nat) :
    (w.next (.fail i rotatable delays)).rotator = w.rotator.rotate (w.clock delays) ∧
      (w.next (.fail i rotatable delays)).now = w.now + (delays.sum : Nat) := by
  simp only [next, hc, hrot, if_true]
  exact ⟨rfl, rfl⟩

/-- The rotator stays as it is, unless a failed request is rotated on. -/
theorem next_rotator (e : Event) : (w.next e).rotator = w.rotator ∨
    ∃ i rotatable delays c, e = .fail i rotatable delays ∧ w.failing i = some c ∧ rotates (n := n) c rotatable = true := by
  cases e with
  | chat => exact .inl rfl
  | tick ms => exact .inl rfl
  | leave i =>
    left
    unfold next
    dsimp only
    split <;> rfl
  | fail i rotatable delays =>
    cases hc : w.failing i with
    | none =>
      left
      simp only [next, hc]
    | some c =>
      by_cases hrot : rotates (n := n) c rotatable = true
      · exact .inr ⟨i, rotatable, delays, c, rfl, hc, hrot⟩
      · left
        simp only [next, hc, hrot]
        rfl

theorem clock_le (delays : List Nat) (k : Nat) : w.clock delays k ≤ w.now + (delays.sum : Nat) := by
  have hsum := congrArg List.sum (List.take_append_drop k delays)
  rw [List.sum_append] at hsum
  unfold clock
  omega

end World

/-! ## A request fails once -/

def Call.Past (c : Call κ) (attempt : Nat) : Prop := attempt < c.attempt ∨ attempt = c.attempt ∧ c.running = false

def Past (calls : List (Call κ)) (failed : List (Nat × Nat)) : Prop :=
  ∀ request ∈ failed, ∃ c, calls[request.1]? = some c ∧ c.Past request.2

theorem Past.set {calls : List (Call κ)} {failed : List (Nat × Nat)} (h : Past calls failed) {i : Nat} {c c' : Call κ}
    (hc : calls[i]? = some c) (hpast : ∀ attempt ≤ c.attempt, c'.Past attempt) :
    Past (calls.set i c') (failed ++ [(i, c.attempt)]) := by
  have hset : (calls.set i c')[i]? = some c' := List.getElem?_set_self (List.getElem?_eq_some_iff.1 hc).1
  intro request hrequest
  rcases List.mem_append.1 hrequest with hold | hnew
  · obtain ⟨c₀, hc₀, hp⟩ := h request hold
    by_cases hi : i = request.1
    · subst hi
      obtain rfl := Option.some.inj (hc.symm.trans hc₀)
      refine ⟨c', hset, hpast _ ?_⟩
      rcases hp with hlt | ⟨heq, _⟩
      · exact hlt.le
      · exact heq.le
    · exact ⟨c₀, by rwa [List.getElem?_set_ne hi], hp⟩
  · rw [List.mem_singleton.1 hnew]
    exact ⟨c', hset, hpast _ le_rfl⟩

namespace World

variable {w : World κ n}

theorem failing_some {i : Nat} {c : Call κ} (h : w.failing i = some c) : w.calls[i]? = some c ∧ c.running = true :=
  Option.filter_eq_some_iff.1 h

theorem next_past (h : Past w.calls w.failed) (e : Event) : Past (w.next e).calls (w.next e).failed := by
  have hended {c : Call κ} : ∀ attempt ≤ c.attempt, Call.Past { c with running := false } attempt := fun attempt hle =>
    hle.lt_or_eq.imp id fun heq => ⟨heq, rfl⟩
  cases e with
  | chat =>
    intro request hrequest
    obtain ⟨c, hc, hp⟩ := h request hrequest
    exact ⟨c, by rw [next, List.getElem?_append_left (List.getElem?_eq_some_iff.1 hc).1, hc], hp⟩
  | tick ms => exact h
  | leave i =>
    cases hc : w.failing i with
    | none => simpa only [next, hc] using h
    | some c =>
      simp only [next, hc]
      exact fun request hrequest => h.set (failing_some hc).1 hended request (List.mem_append_left _ hrequest)
  | fail i rotatable delays =>
    cases hc : w.failing i with
    | none => simpa only [next, hc] using h
    | some c =>
      by_cases hrot : rotates (n := n) c rotatable = true
      · simp only [next, hc, hrot, if_true]
        exact h.set (failing_some hc).1 fun attempt hle => .inl (Nat.lt_succ_of_le hle)
      · simp only [next, hc, hrot]
        exact h.set (failing_some hc).1 hended

/-! ## Whom a failure is put on -/

variable (w) in
/-- What a step must be: a key's state changes by the failure of a request made with that key,
    which had not failed before; it counts one failure, and no other key's state changes. -/
structure OnlyFailing (e : Event) : Prop where
  made : ∀ k, (w.next e).rotator.states k ≠ w.rotator.states k → ∃ i rotatable delays c, e = .fail i rotatable delays ∧
    w.failing i = some c ∧ (i, c.attempt) ∉ w.failed ∧ c.key = (w.rotator.states k).key
  once : ∀ k, (w.next e).rotator.states k ≠ w.rotator.states k →
    ((w.next e).rotator.states k).failCount = (w.rotator.states k).failCount + 1 ∧
      ∀ k', (w.next e).rotator.states k' ≠ w.rotator.states k' → k' = k
  chosen : (∃ k, (w.next e).rotator.states k ≠ w.rotator.states k) → (w.next e).rotator.WellChosen (w.next e).now

/-- The condition on a step: a rotation finds current the key that the request was made with. -/
def OnCurrent (w : World κ n) : Event → Prop
  | .fail i rotatable _ => ∀ c ∈ w.failing i, rotates (n := n) c rotatable = true → c.key = w.rotator.currentKey
  | _ => True

theorem onlyFailing_step (h : Past w.calls w.failed) (e : Event) : w.OnlyFailing e ↔ w.OnCurrent e := by
  constructor
  · intro honly
    cases e with
    | fail i rotatable delays =>
      intro c hc hrot
      have hchanged : (w.next (.fail i rotatable delays)).rotator.states w.rotator.currentIdx ≠ w.rotator.states w.rotator.currentIdx := by
        rw [(next_rotating hc hrot delays).1]
        exact w.rotator.rotate_current_ne _
      obtain ⟨_, _, _, c', heq, hc', _, hkey⟩ := honly.made _ hchanged
      cases heq
      obtain rfl := Option.some.inj (hc.symm.trans hc')
      exact hkey
    | _ => trivial
  · intro hcurrent
    rcases w.next_rotator e with hsame | ⟨i, rotatable, delays, c, rfl, hc, hrot⟩
    · have hstill (k : Fin n) : ¬(w.next e).rotator.states k ≠ w.rotator.states k := fun hne => hne (by rw [hsame])
      exact ⟨fun k hk => absurd hk (hstill k), fun k hk => absurd hk (hstill k), fun ⟨k, hk⟩ => absurd hk (hstill k)⟩
    · obtain ⟨hrotator, hnow⟩ := next_rotating hc hrot delays
      have hone {k : Fin n} (hk : (w.next (.fail i rotatable delays)).rotator.states k ≠ w.rotator.states k) :
          k = w.rotator.currentIdx := by
        by_contra hne
        rw [hrotator, KeyRotator.rotate_states, Function.update_of_ne hne] at hk
        exact hk rfl
      refine ⟨fun k hk => ?_, fun k hk => ⟨?_, fun k' hk' => (hone hk').trans (hone hk).symm⟩, fun _ => ?_⟩
      · obtain rfl := hone hk
        refine ⟨i, rotatable, delays, c, rfl, hc, fun hin => ?_, hcurrent c hc hrot⟩
        -- a call that waits is not past its attempt
        obtain ⟨c', hc', hp⟩ := h _ hin
        obtain rfl := Option.some.inj ((failing_some hc).1.symm.trans hc')
        rcases hp with hlt | ⟨_, hended⟩
        · exact absurd hlt (Nat.lt_irrefl _)
        · rw [(failing_some hc).2] at hended
          cases hended
      · rw [hone hk, hrotator, KeyRotator.rotate_states, Function.update_self]
        rfl
      · rw [hrotator, hnow]
        exact w.rotator.rotate_wellChosen (w.clock_le delays)

/-- A provider with its keys, before the first call. -/
def start (keys : Fin (n + 1) → κ) (cooldown now : Int) : World κ (n + 1) :=
  { rotator := { states := fun i => { key := keys i }, cooldown, currentIdx := 0 }, now }

end World

open World in
/-- Only failing keys are put on cooldown in a run, exactly when each rotation finds current
    the key that the failed request was made with. -/
theorem onlyFailing_iff (keys : Fin (n + 1) → κ) (cooldown now : Int) (es : List Event) :
    Reach.Allowed next OnlyFailing (start keys cooldown now) es ↔ Reach.Allowed next OnCurrent (start keys cooldown now) es := by
  have hstart : Past (start keys cooldown now).calls (start keys cooldown now).failed := fun request hrequest => by cases hrequest
  constructor
  · exact Reach.Allowed.under (P := fun w => Past w.calls w.failed)
      (fun w e h hok => ⟨next_past h e, (onlyFailing_step h e).1 hok⟩) es hstart
  · exact Reach.Allowed.under (P := fun w => Past w.calls w.failed)
      (fun w e h hok => ⟨next_past h e, (onlyFailing_step h e).2 hok⟩) es hstart

namespace Sample

/-- Two calls are under way with the first key when it is rate-limited. -/
def together : List Event := [.chat, .chat, .fail 0 true [], .fail 1 true []]

def keys : Fin 3 → String := fun i => if i.val = 0 then "sk-1" else if i.val = 1 then "sk-2" else "sk-3"

end Sample

/-- The second failure is put on the key that was just taken up, which no request used. -/
theorem a_fresh_key_is_blamed :
    ¬ Reach.Allowed World.next World.OnlyFailing (World.start Sample.keys 60000 0) Sample.together := by
  rintro ⟨-, -, -, hsecond, -⟩
  have hpast : Past _ _ := World.next_past (World.next_past (World.next_past (w := World.start Sample.keys 60000 0)
    (fun request hrequest => by cases hrequest) .chat) .chat) (.fail 0 true [])
  have hkey : "sk-1" = "sk-2" := (World.onlyFailing_step hpast _).1 hsecond _ rfl rfl
  exact absurd hkey (by decide)

end Flowly.Providers
