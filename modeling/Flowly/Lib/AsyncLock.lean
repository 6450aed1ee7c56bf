/-
  Flowly.Lib.AsyncLock — `asyncio.Lock`, as the standard library has it.

  `acquire` takes an unlocked lock at once when nobody waits for it (a waiter whose
  future is cancelled does not count), and queues a future otherwise. `release` sets the
  lock unlocked and sets the result of the first waiter's future: the waiter itself marks
  the lock locked when its task runs next (`resume`). A cancelled waiter leaves the queue
  when its task runs, and wakes the first of the others if the lock is free.

  Proved: whatever the order of these, one task holds the lock at most (`Exclusive`).
-/

import Mathlib.Data.List.Basic

namespace Flowly.Lib

inductive Future where
  | pending
  | done
  | cancelled
  deriving DecidableEq

structure Waiter (τ : Type) where
  task : τ
  future : Future := .pending
  /-- Cancelled after the future was done: the task still gets its `CancelledError`. -/
  cancelling : Bool := false

/-- It will take the lock when it runs, unless it is cancelled first. -/
def Waiter.live {τ : Type} (w : Waiter τ) : Bool := w.future ≠ .cancelled && !w.cancelling

def Waiter.cancel {τ : Type} (w : Waiter τ) : Waiter τ :=
  match w.future with
  | .pending => { w with future := .cancelled }
  | .done => { w with cancelling := true }
  | .cancelled => w

structure AsyncLock (τ : Type) where
  locked : Bool := false
  waiters : List (Waiter τ) := []
  /-- Ghost: the tasks between `acquire` and `release`. -/
  holders : List τ := []

namespace AsyncLock

variable {τ : Type}

def wakeUpFirst : List (Waiter τ) → List (Waiter τ)
  | [] => []
  | w :: ws => (if w.future = .pending then { w with future := .done } else w) :: ws

def acquire (l : AsyncLock τ) (t : τ) : AsyncLock τ :=
  if l.locked = false ∧ ∀ w ∈ l.waiters, w.future = .cancelled then { l with locked := true, holders := t :: l.holders }
  else { l with waiters := l.waiters ++ [{ task := t }] }

def release [DecidableEq τ] (l : AsyncLock τ) (t : τ) : AsyncLock τ :=
  if t ∈ l.holders then { locked := false, waiters := wakeUpFirst l.waiters, holders := l.holders.erase t } else l

def cancel [DecidableEq τ] (l : AsyncLock τ) (t : τ) : AsyncLock τ :=
  { l with waiters := l.waiters.map fun w => if w.task = t then Waiter.cancel w else w }

def resume [DecidableEq τ] (l : AsyncLock τ) (t : τ) : AsyncLock τ :=
  match l.waiters.find? fun w => w.task = t with
  | none => l
  | some w =>
    if w.future = .pending then l
    else
      let rest := l.waiters.eraseP fun w => w.task = t
      if w.live then { locked := true, waiters := rest, holders := t :: l.holders }
      else { l with waiters := if l.locked then rest else wakeUpFirst rest }

/-! ## Exclusion -/

structure Exclusive (l : AsyncLock τ) : Prop where
  one : l.holders.length ≤ 1
  free : l.locked = false → l.holders = []
  /-- Only the first waiter is woken. -/
  head : ∀ w ∈ l.waiters.tail, w.future ≠ .done
  /-- The lock is free for the waiter that is woken. -/
  woken : ∀ w ∈ l.waiters, w.future = .done → l.locked = false

variable {l : AsyncLock τ}

theorem Exclusive.unique (h : l.Exclusive) {a b : τ} (ha : a ∈ l.holders) (hb : b ∈ l.holders) :
    a = b := by
  obtain ⟨x, hx⟩ | hnil : (∃ x, l.holders = [x]) ∨ l.holders = [] := by
    have hlen := h.one
    cases hl : l.holders with
    | nil => exact Or.inr rfl
    | cons x xs =>
      rw [hl] at hlen
      cases xs with
      | nil => exact Or.inl ⟨x, rfl⟩
      | cons _ _ => simp at hlen
  · rw [hx] at ha hb
    rw [List.mem_singleton.mp ha, List.mem_singleton.mp hb]
  · rw [hnil] at ha
    cases ha

theorem exclusive_new : ({} : AsyncLock τ).Exclusive := ⟨by simp, fun _ => rfl, by simp, by simp⟩

theorem wakeUpFirst_tail (ws : List (Waiter τ)) : (wakeUpFirst ws).tail = ws.tail := by
  cases ws <;> rfl

/-- The waiters after a wake-up: those before, the first one with its future done. -/
theorem mem_wakeUpFirst {ws : List (Waiter τ)} {w : Waiter τ} (h : w ∈ wakeUpFirst ws) :
    ∃ w' ∈ ws, w'.task = w.task ∧ w'.cancelling = w.cancelling ∧ (w.future = w'.future ∨ w'.future = .pending) := by
  cases ws with
  | nil => simp [wakeUpFirst] at h
  | cons x xs =>
    simp only [wakeUpFirst] at h
    rcases List.mem_cons.mp h with rfl | h
    · split
      · exact ⟨x, by simp, rfl, rfl, Or.inr ‹_›⟩
      · exact ⟨x, by simp, rfl, rfl, Or.inl rfl⟩
    · exact ⟨w, by simp [h], rfl, rfl, Or.inl rfl⟩

theorem Exclusive.acquire (h : l.Exclusive) (t : τ) : (l.acquire t).Exclusive := by
  unfold AsyncLock.acquire
  split
  · rename_i hfree
    refine ⟨by simp [h.free hfree.1], by simp, h.head, ?_⟩
    intro w hw hd
    rw [hfree.2 w hw] at hd
    cases hd
  · refine ⟨h.one, h.free, ?_, ?_⟩
    · intro w hw
      cases hl : l.waiters with
      | nil => simp [hl] at hw
      | cons x xs =>
        rw [hl, List.cons_append, List.tail_cons] at hw
        rcases List.mem_append.mp hw with hw | hw
        · exact h.head w (by simp [hl, hw])
        · rw [List.mem_singleton.mp hw]
          simp
    · intro w hw hd
      rcases List.mem_append.mp hw with hw | hw
      · exact h.woken w hw hd
      · rw [List.mem_singleton.mp hw] at hd
        cases hd

theorem Exclusive.release [DecidableEq τ] (h : l.Exclusive) (t : τ) : (l.release t).Exclusive := by
  unfold AsyncLock.release
  split
  · rename_i ht
    have hone := h.one
    have hlen := List.length_erase_of_mem ht
    refine ⟨by simp only; omega, fun _ => List.eq_nil_of_length_eq_zero (by simp only; omega), ?_, fun _ _ _ => rfl⟩
    simp only [wakeUpFirst_tail]
    exact h.head
  · exact h

theorem Waiter.cancel_future (w : Waiter τ) : (Waiter.cancel w).future = .done ↔ w.future = .done := by
  unfold Waiter.cancel
  cases hf : w.future <;> simp [hf]

theorem Exclusive.cancel [DecidableEq τ] (h : l.Exclusive) (t : τ) : (l.cancel t).Exclusive := by
  have hfuture : ∀ w : Waiter τ, (if w.task = t then Waiter.cancel w else w).future = .done ↔ w.future = .done := by
    intro w
    split
    · exact Waiter.cancel_future w
    · rfl
  refine ⟨h.one, h.free, ?_, ?_⟩
  · intro w hw
    simp only [AsyncLock.cancel, ← List.map_tail] at hw
    obtain ⟨w', hw', rfl⟩ := List.mem_map.mp hw
    rw [ne_eq, hfuture]
    exact h.head w' hw'
  · intro w hw hd
    obtain ⟨w', hw', rfl⟩ := List.mem_map.mp hw
    exact h.woken w' hw' ((hfuture w').mp hd)

/-- What is left behind the first of the waiters when one is taken out stood behind it before. -/
theorem mem_tail_eraseP {ws : List (Waiter τ)} {p : Waiter τ → Bool} {w : Waiter τ} (h : w ∈ (ws.eraseP p).tail) :
    w ∈ ws.tail := by
  cases ws with
  | nil => simp at h
  | cons x xs =>
    cases hp : p x with
    | true =>
      rw [List.eraseP_cons_of_pos hp] at h
      exact List.mem_of_mem_tail h
    | false =>
      rw [List.eraseP_cons_of_neg (by simp [hp])] at h
      exact List.mem_of_mem_eraseP h

theorem Exclusive.resume [DecidableEq τ] (h : l.Exclusive) (t : τ) : (l.resume t).Exclusive := by
  unfold AsyncLock.resume
  split
  · exact h
  · rename_i w hw
    have hmem := List.mem_of_find?_eq_some hw
    have htask := List.find?_some hw
    split
    · exact h
    · rename_i hp
      simp only
      split
      · rename_i hlive
        -- the waiter is woken, so it is the first one and the lock is free
        have hdone : w.future = .done := by
          cases hf : w.future with
          | pending => exact absurd hf hp
          | done => rfl
          | cancelled => simp [Waiter.live, hf] at hlive
        have hfree := h.woken w hmem hdone
        obtain ⟨xs, hxs⟩ : ∃ xs, l.waiters = w :: xs := by
          cases hl : l.waiters with
          | nil => simp [hl] at hmem
          | cons x xs =>
            rw [hl] at hmem
            rcases List.mem_cons.mp hmem with rfl | hin
            · exact ⟨xs, rfl⟩
            · exact absurd hdone (h.head w (by simp [hl, hin]))
        have hrest : l.waiters.eraseP (fun w => w.task = t) = xs := by
          rw [hxs]
          exact List.eraseP_cons_of_pos htask
        have hnone : ∀ x ∈ xs, x.future ≠ .done := fun x hx => h.head x (by simp [hxs, hx])
        rw [hrest]
        refine ⟨by simp [h.free hfree], by simp, fun x hx => hnone x (List.mem_of_mem_tail hx), ?_⟩
        intro x hx hd
        exact absurd hd (hnone x hx)
      · refine ⟨h.one, h.free, ?_, ?_⟩
        · intro x hx
          split at hx
          · exact h.head x (mem_tail_eraseP hx)
          · rw [wakeUpFirst_tail] at hx
            exact h.head x (mem_tail_eraseP hx)
        · intro x hx hd
          split at hx
          · exact h.woken x (List.mem_of_mem_eraseP hx) hd
          · rename_i hl
            simpa using hl

/-! ## Who holds the lock or may come to hold it -/

def Involved (l : AsyncLock τ) (t : τ) : Prop := t ∈ l.holders ∨ ∃ w ∈ l.waiters, w.live = true ∧ w.task = t

theorem wakeUpFirst_live {ws : List (Waiter τ)} {t : τ} (h : ∃ w ∈ wakeUpFirst ws, w.live = true ∧ w.task = t) :
    ∃ w ∈ ws, w.live = true ∧ w.task = t := by
  obtain ⟨w, hw, hl, ht⟩ := h
  obtain ⟨w', hw', h1, h2, h3⟩ := mem_wakeUpFirst hw
  refine ⟨w', hw', ?_, h1.trans ht⟩
  unfold Waiter.live at hl ⊢
  rcases h3 with h3 | h3
  · rw [h2, ← h3]
    exact hl
  · simp only [Bool.and_eq_true] at hl
    rw [h2, hl.2, h3]
    rfl

theorem Involved.of_acquire {t x : τ} (h : (l.acquire t).Involved x) : x = t ∨ l.Involved x := by
  unfold acquire at h
  split at h
  · rcases h with h | h
    · rcases List.mem_cons.mp h with h | h
      · exact Or.inl h
      · exact Or.inr (Or.inl h)
    · exact Or.inr (Or.inr h)
  · rcases h with h | ⟨w, hw, hl, ht⟩
    · exact Or.inr (Or.inl h)
    · rcases List.mem_append.mp hw with hw | hw
      · exact Or.inr (Or.inr ⟨w, hw, hl, ht⟩)
      · rw [List.mem_singleton.mp hw] at ht
        exact Or.inl ht.symm

theorem Involved.of_release [DecidableEq τ] {t x : τ} (h : (l.release t).Involved x) : l.Involved x := by
  unfold release at h
  split at h
  · rcases h with h | h
    · exact Or.inl (List.mem_of_mem_erase h)
    · exact Or.inr (wakeUpFirst_live h)
  · exact h

theorem Involved.of_cancel [DecidableEq τ] {t x : τ} (h : (l.cancel t).Involved x) : l.Involved x := by
  rcases h with h | ⟨w, hw, hl, ht⟩
  · exact Or.inl h
  · obtain ⟨w', hw', rfl⟩ := List.mem_map.mp hw
    refine Or.inr ⟨w', hw', ?_⟩
    split at hl
    · rename_i hw
      rw [if_pos hw] at ht
      unfold Waiter.cancel at hl ht
      cases hf : w'.future <;> rw [hf] at hl ht <;> simp [Waiter.live] at hl
      exact absurd hf hl.1
    · rename_i hw
      rw [if_neg hw] at ht
      exact ⟨hl, ht⟩

theorem Involved.of_resume [DecidableEq τ] {t x : τ} (h : (l.resume t).Involved x) : l.Involved x := by
  unfold resume at h
  split at h
  · exact h
  · rename_i w hw
    have hmem := List.mem_of_find?_eq_some hw
    have htask : w.task = t := by simpa using List.find?_some hw
    have sub {ws : List (Waiter τ)} (hs : ws = l.waiters.eraseP fun w => w.task = t)
        (hx : ∃ w ∈ ws, w.live = true ∧ w.task = x) : l.Involved x := by
      obtain ⟨w', hw', h'⟩ := hx
      exact Or.inr ⟨w', List.mem_of_mem_eraseP (hs ▸ hw'), h'⟩
    split at h
    · exact h
    · simp only at h
      split at h
      · rename_i hlive
        rcases h with h | h
        · rcases List.mem_cons.mp h with rfl | h
          · exact Or.inr ⟨w, hmem, hlive, htask⟩
          · exact Or.inl h
        · exact sub rfl h
      · rcases h with h | h
        · exact Or.inl h
        · simp only at h
          split at h
          · exact sub rfl h
          · exact sub rfl (wakeUpFirst_live h)

end AsyncLock

end Flowly.Lib
