/-
  Flowly.Agent.AnnounceQueue — results announced to a busy parent
  (`flowly/agent/subagent_announce_queue.py`), the queues of one session.

  An enqueue starts a drain unless the queue says that one is draining; the drain says so
  only when it first runs. Two enqueues before that start two drains, and then two sends
  are under way at once (`two_sends`). A drain that ends takes whatever queue the store
  has from it, so an enqueue on a queue that left the store does the same.

  Proved: as long as an enqueue finds its queue in the store and no drain waiting to start,
  one send is under way at most, sends start in the order of the enqueues, what was
  enqueued was sent, was dropped, or waits for a drain, each once, and a queue leaves the
  store with nothing of it left (`announced_in_order`).
-/

import Mathlib.Data.List.Perm.Basic
import Mathlib.Data.List.Range
import Flowly.Lib.Reach

namespace Flowly.Agent.AnnounceQueue

open Flowly.Lib

def DEFAULT_CAP : Nat := 20

structure Queue where
  items : List Nat := []
  draining : Bool := false

/-- A `_drain` task has not run yet, or awaits the send of an item. -/
inductive Phase where
  | created
  | sending (item : Nat)
  deriving DecidableEq

structure Task where
  queue : Nat
  phase : Phase
  deriving DecidableEq

structure St where
  /-- `_queues.get(session_key)`. -/
  store : Option Nat := none
  queues : Nat → Queue := fun _ => {}
  nextQueue : Nat := 0
  /-- The tasks that are not done. -/
  tasks : Nat → Option Task := fun _ => none
  nextTask : Nat := 0
  /-- Ghosts: how many items were enqueued, which sends started, and which were dropped. -/
  enqueued : Nat := 0
  started : List Nat := []
  dropped : List Nat := []

def onQueue (s : St) (q : Nat) (f : Queue → Queue) : St := { s with queues := Function.update s.queues q (f (s.queues q)) }

/-- `asyncio.create_task(self._drain())`. -/
def startDrain (s : St) (q : Nat) : St :=
  { s with tasks := Function.update s.tasks s.nextTask (some ⟨q, .created⟩), nextTask := s.nextTask + 1 }

def getOrCreateQueue (s : St) : St :=
  match s.store with
  | some _ => s
  | none => { s with store := some s.nextQueue, nextQueue := s.nextQueue + 1 }

/-- The items of a queue that takes one more: the oldest goes if the cap is reached. -/
def accept (items : List Nat) (n : Nat) : List Nat := (if DEFAULT_CAP ≤ items.length then items.drop 1 else items) ++ [n]

def put (s : St) (q : Nat) : St :=
  { onQueue s q fun Q => { Q with items := accept Q.items s.enqueued } with
    enqueued := s.enqueued + 1
    dropped := s.dropped ++ if DEFAULT_CAP ≤ (s.queues q).items.length then (s.queues q).items.take 1 else [] }

def enqueue (s : St) (q : Nat) : St :=
  let s := put s q
  if (s.queues q).draining then s else startDrain s q

def setDraining (s : St) (q : Nat) (draining : Bool) : St := onQueue s q fun Q => { Q with draining }

/-- Task `i` is done. -/
def ended (s : St) (i q : Nat) : St := { setDraining s q false with tasks := Function.update s.tasks i none }

/-- The `finally` of `_drain`. -/
def drained (s : St) (i q : Nat) : St :=
  match (s.queues q).items with
  | [] => { ended s i q with store := none }
  | _ :: _ => startDrain (ended s i q) q

/-- `self.items.pop(0)`, and its send is awaited. -/
def send (s : St) (i q item : Nat) (rest : List Nat) : St :=
  { onQueue s q fun Q => { Q with items := rest } with
    tasks := Function.update s.tasks i (some ⟨q, .sending item⟩)
    started := s.started ++ [item] }

/-- `while self.items`: send the next, or end. -/
def drain (s : St) (i q : Nat) : St :=
  match (s.queues q).items with
  | [] => drained s i q
  | item :: rest => send s i q item rest

/-- How a send ended: an exception is logged, a cancellation ends the drain. -/
inductive Outcome where
  | ok
  | failed
  | cancelled
  deriving DecidableEq

inductive Ev where
  | getOrCreateQueue
  | enqueue (queue : Nat)
  /-- Task `i` runs to its next await; `outcome` is that of the send it awaited. -/
  | run (i : Nat) (outcome : Outcome)

def step (s : St) : Ev → St
  | .getOrCreateQueue => getOrCreateQueue s
  | .enqueue q => if q < s.nextQueue then enqueue s q else s
  | .run i outcome =>
    match s.tasks i with
    | none => s
    | some ⟨q, .created⟩ => drain (setDraining s q true) i q
    | some ⟨q, .sending _⟩ => if outcome = .cancelled then drained s i q else drain s i q

/-- The enqueue finds its queue in the store, and no drain that has yet to start. -/
def Settled (s : St) : Ev → Prop
  | .enqueue q => s.store = some q ∧ ∀ i < s.nextTask, (s.tasks i).all (·.phase ≠ .created)
  | _ => True

instance (s : St) : ∀ e, Decidable (Settled s e)
  | .enqueue q => inferInstanceAs (Decidable (s.store = some q ∧ ∀ i < s.nextTask, (s.tasks i).all (·.phase ≠ .created)))
  | .getOrCreateQueue | .run _ _ => isTrue trivial

/-! ## Invariant -/

def waiting (s : St) : List Nat :=
  match s.store with
  | some q => (s.queues q).items
  | none => []

/-- The drains that are not done: none, or one of the queue in the store. -/
inductive Drains (s : St) : Prop
  | idle : (∀ i, s.tasks i = none) → waiting s = [] → (∀ q ∈ s.store, (s.queues q).draining = false) → Drains s
  | busy (i q : Nat) (phase : Phase) : s.tasks i = some ⟨q, phase⟩ → (∀ j, j ≠ i → s.tasks j = none) → s.store = some q →
      (phase = .created → (s.queues q).draining = false ∧ (s.queues q).items ≠ []) →
      (phase ≠ .created → (s.queues q).draining = true) → Drains s

structure Ledger (s : St) : Prop where
  stored : ∀ q, s.store = some q → q < s.nextQueue
  tasks : ∀ i t, s.tasks i = some t → i < s.nextTask
  /-- A queue that is not made yet. -/
  fresh : ∀ q, s.nextQueue ≤ q → s.queues q = {}
  order : (s.started ++ waiting s).Pairwise (· < ·)
  once : (s.started ++ waiting s ++ s.dropped).Perm (List.range s.enqueued)

structure Inv (s : St) : Prop extends Ledger s where
  drains : Drains s

variable {s : St} {i q : Nat}

theorem waiting_store (h : s.store = some q) : waiting s = (s.queues q).items := by rw [waiting, h]

@[simp] theorem onQueue_queue (f : Queue → Queue) : (onQueue s q f).queues q = f (s.queues q) := Function.update_self ..

@[simp] theorem onQueue_ne (f : Queue → Queue) {p : Nat} (hp : p ≠ q) : (onQueue s q f).queues p = s.queues p :=
  Function.update_of_ne hp _ _

/-- An update of the store's queue that leaves its items. -/
theorem Ledger.onQueue (hl : Ledger s) (hstore : s.store = some q) {f : Queue → Queue} (hf : ∀ Q, (f Q).items = Q.items) :
    Ledger (onQueue s q f) := by
  have hwaiting : waiting (AnnounceQueue.onQueue s q f) = waiting s := by
    rw [waiting_store hstore, waiting_store (s := AnnounceQueue.onQueue s q f) hstore, onQueue_queue, hf]
  refine ⟨hl.stored, hl.tasks, fun p hp => ?_, by rw [hwaiting]; exact hl.order, by rw [hwaiting]; exact hl.once⟩
  have hne : p ≠ q := fun he => absurd (hl.stored q hstore) (Nat.not_lt.2 (he ▸ hp))
  exact (onQueue_ne f hne).trans (hl.fresh p hp)

/-- A task more. -/
theorem Ledger.startDrain (hl : Ledger s) (p : Nat) : Ledger (startDrain s p) := by
  refine ⟨hl.stored, fun i t ht => ?_, hl.fresh, hl.order, hl.once⟩
  by_cases hi : i = s.nextTask
  · rw [hi]
    exact Nat.lt_succ_self _
  · exact Nat.lt_succ_of_lt (hl.tasks i t ((Function.update_of_ne hi _ _).symm.trans ht))

/-- No drain is left behind the last. -/
theorem ended_tasks (hothers : ∀ j, j ≠ i → s.tasks j = none) (q j : Nat) : (ended s i q).tasks j = none := by
  by_cases hj : j = i
  · rw [hj]
    exact Function.update_self ..
  · exact (Function.update_of_ne hj _ _).trans (hothers j hj)

/-- The drain that is started is the only one. -/
theorem startDrain_drains (hnone : ∀ i, s.tasks i = none) (hstore : s.store = some q)
    (hqueue : (s.queues q).draining = false ∧ (s.queues q).items ≠ []) : Drains (startDrain s q) :=
  .busy s.nextTask q .created (Function.update_self ..) (fun j hj => (Function.update_of_ne hj _ _).trans (hnone j)) hstore
    (fun _ => hqueue) (fun h => absurd rfl h)

theorem inv_start : Inv {} :=
  { drains := .idle (fun _ => rfl) rfl (fun _ h => by cases h)
    stored := fun _ h => by cases h
    tasks := fun _ _ h => by cases h
    fresh := fun _ _ => rfl
    order := List.Pairwise.nil
    once := List.Perm.nil }

/-- What is there now was enqueued before what comes next. -/
theorem Inv.lt_enqueued (hi : Inv s) {n : Nat} (hn : n ∈ s.started ++ waiting s) : n < s.enqueued :=
  List.mem_range.1 (hi.once.subset (List.mem_append_left _ hn))

theorem getOrCreateQueue_inv (hi : Inv s) : Inv (getOrCreateQueue s) := by
  unfold getOrCreateQueue
  split
  · exact hi
  · rename_i hnone
    have hfresh := hi.fresh s.nextQueue (Nat.le_refl _)
    have hold : waiting s = [] := by rw [waiting, hnone]
    have hnew : waiting { s with store := some s.nextQueue, nextQueue := s.nextQueue + 1 } = [] := by
      rw [waiting_store (s := { s with store := some s.nextQueue, nextQueue := s.nextQueue + 1 }) rfl, hfresh]
    refine ⟨⟨fun q hq => ?_, hi.tasks, fun q hq => hi.fresh q (Nat.le_of_succ_le hq), ?_, ?_⟩, ?_⟩
    · cases hq
      exact Nat.lt_succ_self _
    · rw [hnew, ← hold]
      exact hi.order
    · rw [hnew, ← hold]
      exact hi.once
    · cases hi.drains with
      | idle htasks _ _ =>
        refine .idle htasks hnew fun q hq => ?_
        cases hq
        rw [hfresh]
      | busy _ _ _ _ _ hstore => exact absurd (hnone.symm.trans hstore) (by simp)

/-! ## Enqueues -/

/-- The items an enqueue drops, and those it keeps. -/
theorem admit_split (items : List Nat) (n : Nat) : ∃ dropped kept, items = dropped ++ kept ∧
    accept items n = kept ++ [n] ∧ (if DEFAULT_CAP ≤ items.length then items.take 1 else []) = dropped := by
  unfold accept
  by_cases hcap : DEFAULT_CAP ≤ items.length
  · exact ⟨items.take 1, items.drop 1, (List.take_append_drop 1 items).symm, by rw [if_pos hcap], by rw [if_pos hcap]⟩
  · exact ⟨[], items, rfl, by rw [if_neg hcap], by rw [if_neg hcap]⟩

theorem put_queue (s : St) (q : Nat) :
    (put s q).queues q = { s.queues q with items := accept (s.queues q).items s.enqueued } := Function.update_self ..

/-- The new item comes last, and is no item of before. -/
theorem put_ledger (hi : Inv s) (hstore : s.store = some q) : Ledger (put s q) := by
  obtain ⟨dropped, kept, hsplit, hadmit, hdropped⟩ := admit_split (s.queues q).items s.enqueued
  have hwaiting : waiting (put s q) = kept ++ [s.enqueued] := by
    rw [waiting_store (s := put s q) (q := q) hstore, put_queue, hadmit]
  have hold : waiting s = dropped ++ kept := (waiting_store hstore).trans hsplit
  have horder := hi.order
  have honce := hi.once
  rw [hold] at horder honce
  refine ⟨hi.stored, hi.tasks, fun p hp => ?_, ?_, ?_⟩
  · have hne : p ≠ q := fun he => absurd (hi.stored q hstore) (Nat.not_lt.2 (he ▸ hp))
    exact (Function.update_of_ne hne _ _).trans (hi.fresh p hp)
  · rw [hwaiting, ← List.append_assoc, List.pairwise_append]
    refine ⟨horder.sublist ((List.sublist_append_right dropped kept).append_left _), List.pairwise_singleton .., fun a ha b hb => ?_⟩
    rw [List.mem_singleton.1 hb]
    refine hi.lt_enqueued ?_
    rw [hold]
    exact ((List.sublist_append_right dropped kept).append_left _).subset ha
  · have hsent : (put s q).dropped = s.dropped ++ dropped := by rw [put, hdropped]
    rw [hwaiting, hsent, show (put s q).enqueued = s.enqueued + 1 from rfl, List.range_succ, List.perm_iff_count]
    intro n
    have hcount := List.perm_iff_count.1 honce n
    simp only [List.count_append, put, onQueue] at hcount ⊢
    omega

theorem enqueue_inv (hi : Inv s) (hstore : s.store = some q) (hsettled : ∀ i < s.nextTask, (s.tasks i).all (·.phase ≠ .created)) :
    Inv (enqueue s q) := by
  have hl := put_ledger hi hstore
  have hnext : ((put s q).queues q).items ≠ [] := by
    rw [put_queue, accept]
    simp
  unfold enqueue
  dsimp only
  cases hi.drains with
  | idle hnone _ hdraining =>
    have hfree : ((put s q).queues q).draining = false := by
      rw [put_queue]
      exact hdraining q hstore
    rw [if_neg (by rw [hfree]; exact Bool.false_ne_true)]
    exact ⟨hl.startDrain q, startDrain_drains hnone hstore ⟨hfree, hnext⟩⟩
  | busy i p phase htask hothers hstore' hcreated hsending =>
    obtain rfl : p = q := Option.some.inj (hstore'.symm.trans hstore)
    have hphase : phase ≠ .created := by simpa [htask] using hsettled i (hi.tasks i _ htask)
    have hdraining : ((put s p).queues p).draining = true := by
      rw [put_queue]
      exact hsending hphase
    rw [if_pos hdraining]
    exact ⟨hl, .busy i p phase htask hothers hstore (fun h => absurd h hphase) (fun _ => hdraining)⟩

/-! ## A drain's step -/

section Drain

variable (hl : Ledger s) (hstore : s.store = some q) {t : Task} (hlive : s.tasks i = some t)
  (hothers : ∀ j, j ≠ i → s.tasks j = none)

include hl hstore

theorem ended_ledger : Ledger (ended s i q) := by
  have hset : Ledger (setDraining s q false) := hl.onQueue hstore fun _ => rfl
  refine ⟨hset.stored, fun j t ht => ?_, hset.fresh, hset.order, hset.once⟩
  by_cases hj : j = i
  · subst hj
    simp [ended] at ht
  · exact hl.tasks j t ((Function.update_of_ne hj _ _).symm.trans ht)

include hothers

/-- A drain that ends is the only one of its session; what it leaves gets another. -/
theorem drained_inv : Inv (drained s i q) := by
  have hended := ended_ledger (i := i) hl hstore
  have hnone := ended_tasks hothers q
  have hqueue : (ended s i q).queues q = { s.queues q with draining := false } := Function.update_self ..
  have hwaiting : waiting (ended s i q) = (s.queues q).items := by
    rw [waiting_store (s := ended s i q) hstore, hqueue]
  unfold drained
  split
  · rename_i hempty
    have horder := hended.order
    have honce := hended.once
    rw [hwaiting, hempty] at horder honce
    exact ⟨⟨fun _ h => (by cases h), hended.tasks, hended.fresh, horder, honce⟩, .idle hnone rfl fun _ h => by cases h⟩
  · rename_i hleft
    refine ⟨hended.startDrain q, startDrain_drains hnone hstore ?_⟩
    rw [hqueue, hleft]
    exact ⟨rfl, List.cons_ne_nil _ _⟩

include hlive

theorem send_inv (hdraining : (s.queues q).draining = true) {item : Nat} {rest : List Nat}
    (hitems : (s.queues q).items = item :: rest) : Inv (send s i q item rest) := by
  have hqueue : (send s i q item rest).queues q = { s.queues q with items := rest } := Function.update_self ..
  have hwaiting : waiting (send s i q item rest) = rest := by
    rw [waiting_store (s := send s i q item rest) hstore, hqueue]
  have horder := hl.order
  have honce := hl.once
  rw [waiting_store hstore, hitems] at horder honce
  refine ⟨⟨hl.stored, fun j t' ht => ?_, fun p hp => ?_, ?_, ?_⟩, .busy i q (.sending item) (Function.update_self ..)
    (fun j hj => ?_) hstore (fun h => by cases h) (fun _ => ?_)⟩
  · by_cases hj : j = i
    · rw [hj]
      exact hl.tasks i t hlive
    · exact hl.tasks j t' ((Function.update_of_ne hj _ _).symm.trans ht)
  · have hne : p ≠ q := fun he => absurd (hl.stored q hstore) (Nat.not_lt.2 (he ▸ hp))
    exact (Function.update_of_ne hne _ _).trans (hl.fresh p hp)
  · rw [hwaiting, send, List.append_assoc]
    exact horder
  · rw [hwaiting, send, List.append_assoc _ [item]]
    exact honce
  · exact (Function.update_of_ne hj _ _).trans (hothers j hj)
  · rw [hqueue]
    exact hdraining

theorem drain_inv (hdraining : (s.queues q).draining = true) : Inv (drain s i q) := by
  unfold drain
  split
  · exact drained_inv hl hstore hothers
  · rename_i hitems
    exact send_inv hl hstore hlive hothers hdraining hitems

end Drain

theorem run_inv (hi : Inv s) (i : Nat) (outcome : Outcome) : Inv (step s (.run i outcome)) := by
  unfold step
  dsimp only
  cases hi.drains with
  | idle hnone _ _ =>
    rw [hnone i]
    exact hi
  | busy j q phase htask hothers hstore hcreated hsending =>
    by_cases hj : i = j
    · subst hj
      rw [htask]
      cases phase with
      | created =>
        exact drain_inv (s := setDraining s q true) (hi.onQueue hstore fun _ => rfl) hstore htask hothers
          (congrArg Queue.draining (onQueue_queue _))
      | sending item =>
        dsimp only
        split
        · exact drained_inv hi.toLedger hstore hothers
        · exact drain_inv hi.toLedger hstore htask hothers (hsending Phase.noConfusion)
    · rw [hothers i hj]
      exact hi

/-! ## Announced in order -/

theorem settled_inv (h : Reach step Settled {} s) : Inv s :=
  h.invariant inv_start fun s e hi hok => by
    cases e with
    | getOrCreateQueue => exact getOrCreateQueue_inv hi
    | enqueue q =>
      unfold step
      dsimp only
      rw [if_pos (hi.stored q hok.1)]
      exact enqueue_inv hi hok.1 hok.2
    | run i outcome => exact run_inv hi i outcome

/-- A send of queue `q` is under way. -/
def Sending (s : St) (i q item : Nat) : Prop := s.tasks i = some ⟨q, .sending item⟩

/-- What holds in a state, and of the next step, whatever it is. -/
structure InOrder (s : St) : Prop where
  one : ∀ i j q q' m n, Sending s i q m → Sending s j q' n → i = j
  /-- Sends start in the order of the enqueues. -/
  order : s.started.Pairwise (· < ·)
  /-- Each item was sent, was dropped, or waits. -/
  once : (s.started ++ waiting s ++ s.dropped).Perm (List.range s.enqueued)
  /-- What waits has a drain. -/
  alive : waiting s ≠ [] → ∃ i t, s.tasks i = some t ∧ s.store = some t.queue
  /-- A queue leaves the store with nothing queued and nothing being sent. -/
  left : ∀ e q, s.store = some q → (step s e).store ≠ some q →
    ((step s e).queues q).items = [] ∧ ∀ i n, ¬Sending (step s e) i q n

/-- The store changes where a drain of its queue ends with nothing left. -/
theorem drained_left (hothers : ∀ j, j ≠ i → s.tasks j = none) (hgone : (drained s i q).store ≠ s.store) :
    ((drained s i q).queues q).items = [] ∧ ∀ j n, ¬Sending (drained s i q) j q n := by
  unfold drained at hgone ⊢
  split
  · rename_i hempty
    refine ⟨?_, fun j n hsend => ?_⟩
    · simpa [ended, setDraining] using hempty
    · have hdone : (ended s i q).tasks j = some ⟨q, .sending n⟩ := hsend
      rw [ended_tasks hothers] at hdone
      cases hdone
  · rename_i hleft
    rw [hleft] at hgone
    exact absurd rfl hgone

theorem drain_left (hothers : ∀ j, j ≠ i → s.tasks j = none) (hgone : (drain s i q).store ≠ s.store) :
    ((drain s i q).queues q).items = [] ∧ ∀ j n, ¬Sending (drain s i q) j q n := by
  unfold drain at hgone ⊢
  split
  · rename_i hempty
    rw [hempty] at hgone
    exact drained_left hothers hgone
  · rename_i hitems
    rw [hitems] at hgone
    exact absurd rfl hgone

theorem left_empty (hi : Inv s) (e : Ev) (hq : s.store = some q) (hgone : (step s e).store ≠ some q) :
    ((step s e).queues q).items = [] ∧ ∀ i n, ¬Sending (step s e) i q n := by
  cases e with
  | getOrCreateQueue =>
    unfold step getOrCreateQueue at hgone
    rw [hq] at hgone
    exact absurd hq hgone
  | enqueue p =>
    unfold step enqueue at hgone
    dsimp only at hgone
    split at hgone
    · split at hgone <;> exact absurd hq hgone
    · exact absurd hq hgone
  | run i outcome =>
    unfold step at hgone ⊢
    dsimp only at hgone ⊢
    cases hi.drains with
    | idle hnone _ _ =>
      rw [hnone i] at hgone
      exact absurd hq hgone
    | busy j p phase htask hothers hstore hcreated hsending =>
      obtain rfl : p = q := Option.some.inj (hstore.symm.trans hq)
      by_cases hj : i = j
      · subst hj
        rw [htask] at hgone ⊢
        rw [← hq] at hgone
        cases phase with
        | created => exact drain_left (s := setDraining s p true) hothers hgone
        | sending item =>
          dsimp only at hgone ⊢
          split at hgone
          · rename_i hcancelled
            rw [if_pos hcancelled]
            exact drained_left hothers hgone
          · rename_i hcancelled
            rw [if_neg hcancelled]
            exact drain_left hothers hgone
      · rw [hothers i hj] at hgone
        exact absurd hq hgone

theorem announced_in_order (h : Reach step Settled {} s) : InOrder s := by
  have hi := settled_inv h
  refine ⟨fun i j q q' m n hm hn => ?_, hi.order.sublist (List.sublist_append_left ..), hi.once, fun hw => ?_,
    fun e q hq hgone => left_empty hi e hq hgone⟩
  · cases hi.drains with
    | idle hnone _ _ => exact absurd (hm.symm.trans (hnone i)) (by simp)
    | busy k p phase htask hothers _ _ _ =>
      by_cases hik : i = k
      · by_cases hjk : j = k
        · exact hik.trans hjk.symm
        · exact absurd (hn.symm.trans (hothers j hjk)) (by simp)
      · exact absurd (hm.symm.trans (hothers i hik)) (by simp)
  · cases hi.drains with
    | idle _ hempty _ => exact absurd hempty hw
    | busy i p phase htask _ hstore _ _ => exact ⟨i, _, htask, hstore⟩

def apart : List Ev := [.getOrCreateQueue, .enqueue 0, .run 0 .ok, .getOrCreateQueue, .enqueue 0]

theorem apart_in_order : InOrder (apart.foldl step {}) :=
  announced_in_order (Reach.foldl apart _ .start (by decide))

def together : List Ev := [.getOrCreateQueue, .enqueue 0, .enqueue 0, .run 0 .ok, .run 1 .ok]

theorem two_sends : Sending (together.foldl step {}) 0 0 0 ∧ Sending (together.foldl step {}) 1 0 1 := by
  unfold Sending
  decide

end Flowly.Agent.AnnounceQueue
