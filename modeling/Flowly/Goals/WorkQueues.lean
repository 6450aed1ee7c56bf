/-
  Flowly.Goals.WorkQueues — the queues of one conversation's goal work and the workers that
  serve them (`flowly/goals/runtime.py`: `delivered`, `kickoff`, `wake`, `_enqueue`,
  `_worker`, `cancel_session`, `cancel`).

  The runtime keeps the newest queue and the newest worker of the conversation. A worker
  goes on with the queue it was made for. `cancel_session` takes both from the maps and
  cancels the worker, which runs its clean-up when it gets the error: the next time it
  runs, at whatever await it stands, however long the work it is in takes to let go.

  The clean-up gives a queue that is not empty to a new worker if the conversation has
  none. An idle worker only ends when its queue is empty, so this is a cancelled worker's
  queue: its items start after the cancellation, and the new worker keeps what is enqueued
  later from being served (`cancelled_work_starts`).

  Proved: where a cancelled worker cleans up with nothing waiting, or with a newer worker
  there, and nothing is enqueued while a cancelled worker is still in its work, one worker
  is in its work at most, items start in order and once, none that was enqueued before a
  cancellation starts after it, and without a worker nothing waits (`served`).
-/

import Flowly.Lib.Reach

namespace Flowly.Goals.WorkQueues

open Flowly.Lib

/-- A worker has not run yet, waits for its queue, or is in an item of work. -/
inductive Phase where
  | created
  | getting
  | working (item : Nat)
  deriving DecidableEq

structure Worker where
  queue : Nat
  phase : Phase
  /-- `task.cancel()` was called. -/
  cancelled : Bool

/-- Items are numbered in the order they are enqueued. -/
structure St where
  closed : Bool := false
  /-- `_routes` has the conversation. -/
  routed : Bool := false
  /-- `_queues.get(session_key)`. -/
  current : Option Nat := none
  /-- `_workers.get(session_key)`. -/
  worker : Option Nat := none
  queues : Nat → List Nat := fun _ => []
  nextQueue : Nat := 0
  /-- The workers that are not done. -/
  tasks : Nat → Option Worker := fun _ => none
  nextTask : Nat := 0
  /-- Ghosts: how many items were enqueued, how many of them before the last cancellation,
      and the items that were started, each with that number when it was. -/
  enqueued : Nat := 0
  cutoff : Nat := 0
  started : List (Nat × Nat) := []

def setTask (s : St) (i : Nat) (w : Option Worker) : St := { s with tasks := Function.update s.tasks i w }

/-- `asyncio.create_task(self._worker(session_key, queue))`, registered. -/
def startWorker (s : St) (q : Nat) : St :=
  { setTask s s.nextTask (some ⟨q, .created, false⟩) with worker := some s.nextTask, nextTask := s.nextTask + 1 }

/-- `worker is None or worker.done()`. -/
def idle (s : St) : Bool := s.worker.all fun i => (s.tasks i).isNone

/-- `_queues.setdefault(session_key, asyncio.Queue())`. -/
def setdefault (s : St) : St × Nat :=
  match s.current with
  | some q => (s, q)
  | none => ({ s with current := some s.nextQueue, nextQueue := s.nextQueue + 1 }, s.nextQueue)

/-- `queue.put_nowait(work)`. -/
def put (s : St) (q : Nat) : St :=
  { s with queues := Function.update s.queues q (s.queues q ++ [s.enqueued]), enqueued := s.enqueued + 1 }

def enqueue (s : St) : St :=
  let (s, q) := setdefault s
  let s := put s q
  if idle s then startWorker s q else s

/-- `delivered` and `kickoff`. -/
def submit (s : St) : St := if s.closed then s else enqueue { s with routed := true }

def wake (s : St) (delivery : Bool) : St := if s.closed ∨ !(delivery || s.routed) then s else enqueue s

/-- `worker.cancel()`. -/
def cancelTask (s : St) (i : Nat) : St := setTask s i ((s.tasks i).map fun w => { w with cancelled := true })

/-- The worker and the queue leave the maps; the worker is cancelled if it is not done. -/
def dropSession (s : St) : St :=
  let s := match s.worker with
    | none => s
    | some i => cancelTask s i
  { s with worker := none, current := none, routed := false }

def cancelSession (s : St) : St := { dropSession s with cutoff := s.enqueued }

def cancel (s : St) : St := { dropSession s with closed := true }

/-- The `finally` of `_worker`. -/
def cleanUp (s : St) (i q : Nat) : St :=
  let s := { setTask s i none with worker := if s.worker = some i then none else s.worker }
  match s.queues q with
  | [] => { s with current := if s.current = some q then none else s.current }
  | _ :: _ => if !s.closed ∧ s.worker = none then startWorker s q else s

/-- `while not self._closed`: wait for the queue, or end. -/
def goOn (s : St) (i : Nat) (w : Worker) : St :=
  if s.closed then cleanUp s i w.queue
  else setTask s i (some { w with phase := .getting })

/-- The worker starts an item of its queue. -/
def start (s : St) (i : Nat) (w : Worker) (item : Nat) (rest : List Nat) : St :=
  { setTask s i (some { w with phase := .working item }) with
    queues := Function.update s.queues w.queue rest
    started := s.started ++ [(item, s.cutoff)] }

/-- The worker gets the first item of its queue. -/
def take (s : St) (i : Nat) (w : Worker) : St :=
  match s.queues w.queue with
  | [] => s
  | item :: rest => start s i w item rest

/-- `asyncio.TimeoutError`. -/
def timeOut (s : St) (i : Nat) (w : Worker) : St :=
  if (s.queues w.queue).isEmpty then cleanUp s i w.queue else goOn s i w

inductive Ev where
  | submit
  | wake (delivery : Bool)
  | cancelSession
  | cancel
  /-- Worker `i` runs on from its await; `timedOut` if the wait for the queue ran out. -/
  | run (i : Nat) (timedOut : Bool)

/-- A cancelled worker gets `CancelledError`; one that has not run yet never runs. -/
def runWorker (s : St) (i : Nat) (w : Worker) (timedOut : Bool) : St :=
  match w.phase with
  | .created => if w.cancelled then setTask s i none else goOn s i w
  | .getting => if w.cancelled then cleanUp s i w.queue else if timedOut then timeOut s i w else take s i w
  | .working _ => if w.cancelled then cleanUp s i w.queue else goOn s i w

def step (s : St) : Ev → St
  | .submit => submit s
  | .wake delivery => wake s delivery
  | .cancelSession => cancelSession s
  | .cancel => cancel s
  | .run i timedOut =>
    match s.tasks i with
    | none => s
    | some w => runWorker s i w timedOut

def Phase.isWorking : Phase → Bool
  | .working _ => true
  | .created | .getting => false

def lettingGo (s : St) : Bool :=
  (List.range s.nextTask).any fun i => (s.tasks i).any fun w => w.cancelled && w.phase.isWorking

/-- The clean-up of a cancelled worker finds nothing in its queue, or a newer worker. -/
def cleansUp (s : St) (w : Worker) : Bool :=
  !w.cancelled || w.phase = .created || s.closed || (s.queues w.queue).isEmpty || s.worker.isSome

/-- The two conditions on a step. -/
def Orderly (s : St) : Ev → Prop
  | .submit | .wake _ => lettingGo s = false
  | .run i _ => (s.tasks i).all (cleansUp s) = true
  | .cancelSession | .cancel => True

instance (s : St) : ∀ e, Decidable (Orderly s e)
  | .submit | .wake _ => inferInstanceAs (Decidable (lettingGo s = false))
  | .run i _ => inferInstanceAs (Decidable ((s.tasks i).all (cleansUp s) = true))
  | .cancelSession | .cancel => isTrue trivial

/-! ## Invariant -/

def waiting (s : St) : List Nat :=
  match s.current with
  | some q => s.queues q
  | none => []

/-- The workers: one is registered and not cancelled, with the current queue; the others are
    cancelled, and none of them is in its work beside it. -/
structure Workers (s : St) : Prop where
  registered : ∀ i, s.worker = some i → ∃ w, s.tasks i = some w ∧ w.cancelled = false ∧ s.current = some w.queue
  served : s.worker = none → s.current = none
  shut : s.closed = true → s.worker = none
  others : ∀ i w, s.tasks i = some w → w.cancelled = false → s.worker = some i
  apart : ∀ i w, s.tasks i = some w → w.cancelled = true → s.current ≠ some w.queue
  made : ∀ i w, s.tasks i = some w → i < s.nextTask ∧ w.queue < s.nextQueue
  alone : ∀ i w, s.tasks i = some w → w.cancelled = true → w.phase.isWorking = true → s.worker = none ∧
    ∀ j w', s.tasks j = some w' → w'.cancelled = true → w'.phase.isWorking = true → j = i

/-- The items: what was started and what waits is in order, and none was cancelled before. -/
structure Items (s : St) : Prop where
  fresh : ∀ q, s.nextQueue ≤ q → s.queues q = []
  order : (s.started.map Prod.fst ++ waiting s).Pairwise (· < ·)
  enqueued : ∀ n ∈ s.started.map Prod.fst ++ waiting s, n < s.enqueued
  kept : ∀ n ∈ waiting s, s.cutoff ≤ n
  cutoff : s.cutoff ≤ s.enqueued
  late : ∀ p ∈ s.started, p.2 ≤ p.1

structure Inv (s : St) : Prop where
  workers : Workers s
  items : Items s

variable {s : St} {i q : Nat} {w : Worker}

theorem waiting_current (h : s.current = some q) : waiting s = s.queues q := by rw [waiting, h]

theorem inv_start : Inv {} where
  workers :=
    { registered := fun _ h => by cases h
      served := fun _ => rfl
      shut := fun _ => rfl
      others := fun _ _ h => by cases h
      apart := fun _ _ h => by cases h
      made := fun _ _ h => by cases h
      alone := fun _ _ h => by cases h }
  items :=
    { fresh := fun _ _ => rfl
      order := List.Pairwise.nil
      enqueued := fun _ h => by cases h
      kept := fun _ h => by cases h
      cutoff := Nat.le_refl _
      late := fun _ h => by cases h }

/-- The registered worker's queue is below those that are made next. -/
theorem Workers.current_lt (hw : Workers s) (h : s.current = some q) : q < s.nextQueue := by
  cases hworker : s.worker with
  | none => rw [hw.served hworker] at h; cases h
  | some i =>
    obtain ⟨w, htask, -, hq⟩ := hw.registered i hworker
    obtain rfl : w.queue = q := Option.some.inj (hq.symm.trans h)
    exact (hw.made i w htask).2

theorem setTask_self (o : Option Worker) : (setTask s i o).tasks i = o := Function.update_self ..

theorem setTask_ne (o : Option Worker) {j : Nat} (h : j ≠ i) : (setTask s i o).tasks j = s.tasks j :=
  Function.update_of_ne h _ _

theorem setTask_cases {o : Option Worker} {j : Nat} {w' : Worker} (h : (setTask s i o).tasks j = some w') :
    j = i ∧ o = some w' ∨ j ≠ i ∧ s.tasks j = some w' := by
  by_cases hj : j = i
  · subst hj
    exact Or.inl ⟨rfl, (setTask_self o).symm.trans h⟩
  · exact Or.inr ⟨hj, (setTask_ne o hj).symm.trans h⟩

/-! ## A worker's steps -/

/-- A cancelled worker is done; nothing else changes. -/
theorem Workers.remove (hw : Workers s) (htask : s.tasks i = some w) (hc : w.cancelled = true) :
    Workers (setTask s i none) := by
  have hold : ∀ j w', (setTask s i none).tasks j = some w' → s.tasks j = some w' := by
    intro j w' h
    obtain ⟨-, h⟩ | ⟨-, h⟩ := setTask_cases h
    · cases h
    · exact h
  refine ⟨fun j hj => ?_, hw.served, hw.shut, fun j w' h => hw.others j w' (hold j w' h), fun j w' h => hw.apart j w' (hold j w' h),
    fun j w' h => hw.made j w' (hold j w' h), fun j w' h hc' hwork => ?_⟩
  · obtain ⟨w', htask', hc', hq⟩ := hw.registered j hj
    have hne : j ≠ i := by
      rintro rfl
      obtain rfl : w = w' := Option.some.inj (htask.symm.trans htask')
      exact Bool.false_ne_true (hc'.symm.trans hc)
    exact ⟨w', (setTask_ne none hne).trans htask', hc', hq⟩
  · obtain ⟨hnone, honly⟩ := hw.alone j w' (hold j w' h) hc' hwork
    exact ⟨hnone, fun k w'' hk => honly k w'' (hold k w'' hk)⟩

/-- The registered worker goes on in another phase. -/
theorem Workers.move (hw : Workers s) (htask : s.tasks i = some w) (hc : w.cancelled = false) (phase : Phase) :
    Workers (setTask s i (some { w with phase })) := by
  have hworker := hw.others i w htask hc
  have hnew : ∀ j w', (setTask s i (some { w with phase })).tasks j = some w' → w'.cancelled = true →
      s.tasks j = some w' := by
    intro j w' h hc'
    obtain ⟨-, h⟩ | ⟨-, h⟩ := setTask_cases h
    · cases h
      exact absurd (hc.symm.trans hc') Bool.false_ne_true
    · exact h
  refine ⟨fun j hj => ?_, hw.served, hw.shut, fun j w' h hc' => ?_, fun j w' h hc' => hw.apart j w' (hnew j w' h hc') hc', fun j w' h => ?_,
    fun j w' h hc' hwork => ?_⟩
  · obtain rfl : i = j := Option.some.inj (hworker.symm.trans hj)
    obtain ⟨w', htask', -, hq⟩ := hw.registered i hj
    obtain rfl : w = w' := Option.some.inj (htask.symm.trans htask')
    exact ⟨_, setTask_self _, hc, hq⟩
  · obtain ⟨rfl, -⟩ | ⟨-, h⟩ := setTask_cases h
    · exact hworker
    · exact hw.others j w' h hc'
  · obtain ⟨rfl, hnow⟩ | ⟨-, hthen⟩ := setTask_cases h
    · cases hnow
      exact hw.made j w htask
    · exact hw.made j w' hthen
  · exact absurd ((hw.alone j w' (hnew j w' h hc') hc' hwork).1.symm.trans hworker) (by simp)

/-- The registered worker ends: its queue goes with it. -/
theorem Workers.retire (hw : Workers s) (htask : s.tasks i = some w) (hc : w.cancelled = false) :
    Workers { setTask s i none with worker := none, current := none } := by
  have hworker := hw.others i w htask hc
  have hold : ∀ j w', (setTask s i none).tasks j = some w' → s.tasks j = some w' ∧ w'.cancelled = true := by
    intro j w' h
    obtain ⟨-, h⟩ | ⟨hj, h⟩ := setTask_cases h
    · cases h
    · cases hc' : w'.cancelled with
      | true => exact ⟨h, rfl⟩
      | false => exact absurd (Option.some.inj ((hw.others j w' h hc').symm.trans hworker)) hj
  refine ⟨fun _ h => (by cases h), fun _ => rfl, fun _ => rfl, fun j w' h hc' => ?_, fun _ _ _ _ h => (by cases h),
    fun j w' h => hw.made j w' (hold j w' h).1, fun j w' h hc' hwork => ?_⟩
  · exact absurd (hc'.symm.trans (hold j w' h).2) Bool.false_ne_true
  · exact absurd ((hw.alone j w' (hold j w' h).1 hc' hwork).1.symm.trans hworker) (by simp)

/-- Items are as they were where queue, starts and numbers are. -/
theorem Items.congr {s' : St} (hi : Items s) (hcurrent : s'.current = s.current) (hqueues : s'.queues = s.queues)
    (hnext : s'.nextQueue = s.nextQueue) (hstarted : s'.started = s.started) (henqueued : s'.enqueued = s.enqueued)
    (hcutoff : s'.cutoff = s.cutoff) : Items s' := by
  have hwaiting : waiting s' = waiting s := by rw [waiting, waiting, hcurrent, hqueues]
  refine ⟨?_, ?_, ?_, ?_, ?_, ?_⟩
  · rw [hqueues, hnext]
    exact hi.fresh
  · rw [hstarted, hwaiting]
    exact hi.order
  · rw [hstarted, hwaiting, henqueued]
    exact hi.enqueued
  · rw [hwaiting, hcutoff]
    exact hi.kept
  · rw [hcutoff, henqueued]
    exact hi.cutoff
  · rw [hstarted]
    exact hi.late

/-- The queue leaves the map. -/
theorem Items.drop (hi : Items s) {s' : St} (hcurrent : s'.current = none) (hqueues : s'.queues = s.queues)
    (hnext : s'.nextQueue = s.nextQueue) (hstarted : s'.started = s.started) (henqueued : s'.enqueued = s.enqueued)
    (hcutoff : s'.cutoff ≤ s'.enqueued) : Items s' := by
  have hnone : waiting s' = [] := by rw [waiting, hcurrent]
  refine ⟨?_, ?_, ?_, ?_, hcutoff, ?_⟩
  · rw [hqueues, hnext]
    exact hi.fresh
  · rw [hstarted, hnone, List.append_nil]
    exact hi.order.sublist (List.sublist_append_left ..)
  · rw [hstarted, hnone, henqueued, List.append_nil]
    exact fun n hn => hi.enqueued n (List.mem_append_left _ hn)
  · rw [hnone]
    exact List.forall_mem_nil _
  · rw [hstarted]
    exact hi.late

/-- A cancelled worker's clean-up only ends it. -/
theorem cleanUp_cancelled (hw : Workers s) (htask : s.tasks i = some w) (hc : w.cancelled = true)
    (hclean : s.closed = true ∨ (s.queues w.queue) = [] ∨ s.worker ≠ none) : cleanUp s i w.queue = setTask s i none := by
  have hworker : s.worker ≠ some i := by
    intro h
    obtain ⟨w', htask', hc', -⟩ := hw.registered i h
    obtain rfl : w = w' := Option.some.inj (htask.symm.trans htask')
    exact Bool.false_ne_true (hc'.symm.trans hc)
  have hqueue := hw.apart i w htask hc
  unfold cleanUp
  rw [if_neg hworker]
  dsimp only [setTask]
  split
  · rw [if_neg hqueue]
  · rename_i hleft
    rw [if_neg]
    rintro ⟨hopen, hnone⟩
    obtain hclosed | hempty | hsome := hclean
    · rw [hclosed] at hopen
      cases hopen
    · rw [hempty] at hleft
      cases hleft
    · exact hsome hnone

/-- The registered worker's clean-up of an empty queue. -/
theorem cleanUp_registered (hw : Workers s) (htask : s.tasks i = some w) (hc : w.cancelled = false)
    (hempty : s.queues w.queue = []) : cleanUp s i w.queue = { setTask s i none with worker := none, current := none } := by
  have hworker := hw.others i w htask hc
  obtain ⟨w', htask', -, hq⟩ := hw.registered i hworker
  obtain rfl : w = w' := Option.some.inj (htask.symm.trans htask')
  unfold cleanUp
  rw [if_pos hworker]
  dsimp only [setTask]
  split
  · rw [if_pos hq]
  · rename_i hleft
    rw [hempty] at hleft
    cases hleft

theorem start_items (hw : Workers s) (hi : Items s) (hq : s.current = some w.queue) {item : Nat} {rest : List Nat}
    (hitems : s.queues w.queue = item :: rest) : Items (start s i w item rest) := by
  have hwaiting : waiting s = item :: rest := (waiting_current hq).trans hitems
  have hnext : waiting (start s i w item rest) = rest :=
    (waiting_current (s := start s i w item rest) hq).trans (Function.update_self ..)
  have horder := hi.order
  have henqueued := hi.enqueued
  have hkept := hi.kept
  rw [hwaiting] at horder henqueued hkept
  refine ⟨fun q hle => ?_, ?_, ?_, ?_, hi.cutoff, ?_⟩
  · have hne : q ≠ w.queue := fun he => absurd (hw.current_lt hq) (Nat.not_lt.2 (he ▸ hle))
    exact (Function.update_of_ne hne _ _).trans (hi.fresh q hle)
  · rw [hnext, start, List.map_append, List.append_assoc]
    exact horder
  · rw [hnext, start, List.map_append, List.append_assoc]
    exact henqueued
  · rw [hnext]
    exact fun n hn => hkept n (List.mem_cons_of_mem _ hn)
  · intro p hp
    obtain hp | hp := List.mem_append.1 hp
    · exact hi.late p hp
    · rw [List.mem_singleton.1 hp]
      exact hkept item List.mem_cons_self

/-- A step of a worker, where a cancelled one cleans up with nothing waiting or a newer worker there. -/
theorem runWorker_inv (hi : Inv s) (htask : s.tasks i = some w) (hclean : cleansUp s w = true) (timedOut : Bool) :
    Inv (runWorker s i w timedOut) := by
  have hdrop : Items (setTask s i none) := hi.items.congr rfl rfl rfl rfl rfl rfl
  cases hc : w.cancelled with
  | true =>
    have hremoved : Inv (setTask s i none) := ⟨hi.workers.remove htask hc, hdrop⟩
    have hend : w.phase ≠ .created → cleanUp s i w.queue = setTask s i none := by
      intro hphase
      refine cleanUp_cancelled hi.workers htask hc ?_
      simp only [cleansUp, hc, Bool.not_true, Bool.false_or, Bool.or_eq_true, decide_eq_true_eq, List.isEmpty_iff,
        Option.isSome_iff_ne_none, hphase, or_assoc, false_or] at hclean
      exact hclean
    unfold runWorker
    split
    · rw [hc, if_pos rfl]
      exact hremoved
    · rename_i hphase
      rw [hc, if_pos rfl, hend (by simp [hphase])]
      exact hremoved
    · rename_i hphase
      rw [hc, if_pos rfl, hend (by simp [hphase])]
      exact hremoved
  | false =>
    have hworker := hi.workers.others i w htask hc
    obtain ⟨w', htask', -, hq⟩ := hi.workers.registered i hworker
    obtain rfl : w = w' := Option.some.inj (htask.symm.trans htask')
    have hopen : ¬s.closed = true := fun h => by simp [hi.workers.shut h] at hworker
    have hgoOn : Inv (goOn s i w) := by
      unfold goOn
      rw [if_neg hopen]
      exact ⟨hi.workers.move htask hc .getting, hi.items.congr rfl rfl rfl rfl rfl rfl⟩
    unfold runWorker
    rw [hc]
    split
    · exact hgoOn
    · rw [if_neg Bool.false_ne_true]
      split
      · unfold timeOut
        split
        · rename_i hempty
          rw [cleanUp_registered hi.workers htask hc (List.isEmpty_iff.1 hempty)]
          exact ⟨hi.workers.retire htask hc, hi.items.drop rfl rfl rfl rfl rfl hi.items.cutoff⟩
        · exact hgoOn
      · unfold take
        split
        · exact hi
        · rename_i item rest hitems
          have hmoved := hi.workers.move htask hc (.working item)
          exact ⟨{ hmoved with },
            start_items hi.workers hi.items hq hitems⟩
    · exact hgoOn

/-! ## Enqueues -/

theorem not_lettingGo (hw : Workers s) (h : lettingGo s = false) {j : Nat} {w' : Worker} (htask : s.tasks j = some w')
    (hc : w'.cancelled = true) : w'.phase.isWorking = false := by
  have hj := List.any_eq_false.1 h j (List.mem_range.2 (hw.made j w' htask).1)
  simpa [htask, hc] using hj

theorem put_items (hi : Items s) (hq : s.current = some q) (hlt : q < s.nextQueue) : Items (put s q) := by
  have hwaiting : waiting (put s q) = waiting s ++ [s.enqueued] := by
    rw [waiting_current (s := put s q) hq, waiting_current hq]
    exact Function.update_self ..
  refine ⟨fun p hle => ?_, ?_, ?_, ?_, Nat.le_succ_of_le hi.cutoff, hi.late⟩
  · have hne : p ≠ q := fun he => absurd hlt (Nat.not_lt.2 (he ▸ hle))
    exact (Function.update_of_ne hne _ _).trans (hi.fresh p hle)
  · rw [hwaiting, ← List.append_assoc, List.pairwise_append]
    refine ⟨hi.order, List.pairwise_singleton .., fun a ha b hb => ?_⟩
    rw [List.mem_singleton.1 hb]
    exact hi.enqueued a ha
  · rw [hwaiting, ← List.append_assoc]
    intro n hn
    obtain hn | hn := List.mem_append.1 hn
    · exact Nat.lt_succ_of_lt (hi.enqueued n hn)
    · rw [List.mem_singleton.1 hn]
      exact Nat.lt_succ_self _
  · rw [hwaiting]
    intro n hn
    obtain hn | hn := List.mem_append.1 hn
    · exact hi.kept n hn
    · rw [List.mem_singleton.1 hn]
      exact hi.cutoff

/-- The first worker since the last one ended: no cancelled one is in its work. -/
theorem startWorker_workers (hw : Workers s) (hnone : s.worker = none) (hopen : s.closed = false)
    (hgo : lettingGo s = false) :
    Workers (startWorker (put { s with current := some s.nextQueue, nextQueue := s.nextQueue + 1 } s.nextQueue) s.nextQueue) := by
  have hcancelled : ∀ j w', s.tasks j = some w' → w'.cancelled = true := by
    intro j w' h
    cases hc : w'.cancelled with
    | true => rfl
    | false => exact absurd (hnone.symm.trans (hw.others j w' h hc)) (by simp)
  have hcases : ∀ j w', (setTask s s.nextTask (some ⟨s.nextQueue, .created, false⟩)).tasks j = some w' →
      j = s.nextTask ∧ w' = ⟨s.nextQueue, .created, false⟩ ∨ s.tasks j = some w' := by
    intro j w' h
    obtain ⟨hj, hw'⟩ | ⟨-, h⟩ := setTask_cases h
    · exact Or.inl ⟨hj, (Option.some.inj hw').symm⟩
    · exact Or.inr h
  refine ⟨fun j hj => ?_, fun h => (by cases h), fun h => ?_, fun j w' h hc => ?_, fun j w' h hc => ?_, fun j w' h => ?_,
    fun j w' h hc hwork => ?_⟩
  · cases hj
    exact ⟨_, setTask_self _, rfl, rfl⟩
  · exact absurd (hopen.symm.trans h) Bool.false_ne_true
  · obtain ⟨rfl, -⟩ | hold := hcases j w' h
    · rfl
    · exact absurd (hc.symm.trans (hcancelled j w' hold)) Bool.false_ne_true
  · obtain ⟨-, rfl⟩ | hold := hcases j w' h
    · cases hc
    · intro hq
      exact absurd (hw.made j w' hold).2 (Nat.not_lt.2 (Nat.le_of_eq (Option.some.inj hq)))
  · obtain ⟨rfl, rfl⟩ | hold := hcases j w' h
    · exact ⟨Nat.lt_succ_self _, Nat.lt_succ_self _⟩
    · exact ⟨Nat.lt_succ_of_lt (hw.made j w' hold).1, Nat.lt_succ_of_lt (hw.made j w' hold).2⟩
  · obtain ⟨-, rfl⟩ | hold := hcases j w' h
    · cases hc
    · exact absurd ((not_lettingGo hw hgo hold hc).symm.trans hwork) Bool.false_ne_true

theorem enqueue_inv (hi : Inv s) (hopen : s.closed = false) (hgo : lettingGo s = false) : Inv (enqueue s) := by
  cases hworker : s.worker with
  | some i =>
    obtain ⟨w, htask, -, hq⟩ := hi.workers.registered i hworker
    have hset : setdefault s = (s, w.queue) := by rw [setdefault, hq]
    have hbusy : idle (put s w.queue) = false := by simp [idle, put, hworker, htask]
    unfold enqueue
    rw [hset]
    dsimp only
    rw [hbusy, if_neg Bool.false_ne_true]
    have hw := hi.workers
    exact ⟨{ hw with },
      put_items hi.items hq (hw.current_lt hq)⟩
  | none =>
    have hcurrent := hi.workers.served hworker
    have hset : setdefault s = ({ s with current := some s.nextQueue, nextQueue := s.nextQueue + 1 }, s.nextQueue) := by
      rw [setdefault, hcurrent]
    have hnew : Items { s with current := some s.nextQueue, nextQueue := s.nextQueue + 1 } := by
      have hempty : waiting { s with current := some s.nextQueue, nextQueue := s.nextQueue + 1 } = waiting s := by
        rw [waiting, waiting, hcurrent]
        exact hi.items.fresh _ (Nat.le_refl _)
      refine ⟨fun q hle => hi.items.fresh q (Nat.le_of_succ_le hle), ?_, ?_, ?_, hi.items.cutoff, hi.items.late⟩
      · rw [hempty]
        exact hi.items.order
      · rw [hempty]
        exact hi.items.enqueued
      · rw [hempty]
        exact hi.items.kept
    unfold enqueue
    rw [hset]
    dsimp only
    rw [if_pos (by simp [idle, put, hworker])]
    exact ⟨startWorker_workers hi.workers hworker hopen hgo,
      (put_items hnew rfl (Nat.lt_succ_self _)).congr rfl rfl rfl rfl rfl rfl⟩

/-! ## Cancellation -/

/-- The workers after a cancellation: the one that was registered is cancelled too, and may be in its work. -/
theorem dropSession_cases (hw : Workers s) {j : Nat} {w' : Worker} (h : (dropSession s).tasks j = some w') :
    w'.cancelled = true ∧ j < s.nextTask ∧ w'.queue < s.nextQueue ∧
      (w'.phase.isWorking = true → ∀ k w'', (dropSession s).tasks k = some w'' → w''.phase.isWorking = true → k = j) := by
  cases hworker : s.worker with
  | none =>
    have hsame : (dropSession s).tasks = s.tasks := by
      unfold dropSession
      rw [hworker]
    have hcancelled : ∀ k w'', s.tasks k = some w'' → w''.cancelled = true := by
      intro k w'' hk
      cases hc : w''.cancelled with
      | true => rfl
      | false => exact absurd (hworker.symm.trans (hw.others k w'' hk hc)) (by simp)
    rw [hsame] at h ⊢
    refine ⟨hcancelled j w' h, (hw.made j w' h).1, (hw.made j w' h).2, fun hwork k w'' hk hwork' => ?_⟩
    exact (hw.alone j w' h (hcancelled j w' h) hwork).2 k w'' hk (hcancelled k w'' hk) hwork'
  | some i =>
    obtain ⟨w, htask, hc, -⟩ := hw.registered i hworker
    have hnow : (dropSession s).tasks = (setTask s i (some { w with cancelled := true })).tasks := by
      unfold dropSession
      rw [hworker]
      simp only [cancelTask, htask, Option.map_some]
    -- beside the registered worker, no cancelled one is in its work
    have hold : ∀ k w'', (dropSession s).tasks k = some w'' →
        w''.cancelled = true ∧ k < s.nextTask ∧ w''.queue < s.nextQueue ∧ (w''.phase.isWorking = true → k = i) := by
      intro k w'' hk
      rw [hnow] at hk
      obtain ⟨rfl, hthis⟩ | ⟨hne, hk⟩ := setTask_cases hk
      · obtain rfl := Option.some.inj hthis
        exact ⟨rfl, (hw.made k w htask).1, (hw.made k w htask).2, fun _ => rfl⟩
      · cases hc' : w''.cancelled with
        | false => exact absurd (Option.some.inj ((hw.others k w'' hk hc').symm.trans hworker)) hne
        | true =>
          refine ⟨rfl, (hw.made k w'' hk).1, (hw.made k w'' hk).2, fun hwork => ?_⟩
          exact absurd ((hw.alone k w'' hk hc' hwork).1.symm.trans hworker) (by simp)
    obtain ⟨hc', hlt, hqueue, hwork⟩ := hold j w' h
    exact ⟨hc', hlt, hqueue, fun hj k w'' hk hk' => ((hold k w'' hk).2.2.2 hk').trans (hwork hj).symm⟩

theorem dropSession_kept (s : St) : (dropSession s).nextTask = s.nextTask ∧ (dropSession s).nextQueue = s.nextQueue ∧
    (dropSession s).queues = s.queues ∧ (dropSession s).started = s.started ∧ (dropSession s).enqueued = s.enqueued ∧
    (dropSession s).cutoff = s.cutoff := by
  unfold dropSession
  cases s.worker with
  | none | some => exact ⟨rfl, rfl, rfl, rfl, rfl, rfl⟩

/-- A cancellation, of the session or of the runtime. -/
theorem dropped_inv (hi : Inv s) (closed : Bool) (cutoff : Nat) (hcutoff : cutoff ≤ s.enqueued) :
    Inv { dropSession s with closed, cutoff } := by
  obtain ⟨htask, hqueue, hqueues, hstarted, henqueued, -⟩ := dropSession_kept s
  refine ⟨⟨fun _ h => (by cases h), fun _ => rfl, fun _ => rfl, fun j w' h hc => ?_, fun _ _ _ _ h => (by cases h),
    fun j w' h => ?_, fun j w' h hc hwork => ⟨rfl, fun k w'' hk hc' hwork' => ?_⟩⟩, ?_⟩
  · exact absurd (hc.symm.trans (dropSession_cases hi.workers h).1) Bool.false_ne_true
  · obtain ⟨-, hlt, hlt', -⟩ := dropSession_cases hi.workers h
    exact ⟨htask ▸ hlt, hqueue ▸ hlt'⟩
  · exact (dropSession_cases hi.workers h).2.2.2 hwork k w'' hk hwork'
  · exact hi.items.drop rfl hqueues hqueue hstarted henqueued (henqueued ▸ hcutoff)

/-! ## Every run -/

theorem orderly_inv (h : Reach step Orderly {} s) : Inv s :=
  h.invariant inv_start fun s e hi hok => by
    cases e with
    | submit =>
      unfold step submit
      dsimp only
      split
      · exact hi
      · rename_i hopen
        have hw := hi.workers
        exact enqueue_inv ⟨{ hw with },
          hi.items.congr rfl rfl rfl rfl rfl rfl⟩ (by simpa using hopen) hok
    | wake delivery =>
      unfold step wake
      dsimp only
      split
      · exact hi
      · rename_i hopen
        exact enqueue_inv hi (by simpa using fun h => hopen (Or.inl h)) hok
    | cancelSession => exact dropped_inv hi _ _ (Nat.le_refl _)
    | cancel => exact dropped_inv hi _ _ (by rw [(dropSession_kept s).2.2.2.2.2]; exact hi.items.cutoff)
    | run i timedOut =>
      unfold step
      dsimp only
      split
      · exact hi
      · rename_i w htask
        have hclean : (s.tasks i).all (cleansUp s) = true := hok
        rw [htask] at hclean
        exact runWorker_inv hi htask hclean timedOut

/-- What holds in a state. -/
structure Served (s : St) : Prop where
  /-- One worker is in its work at most. -/
  one : ∀ i j w w', s.tasks i = some w → s.tasks j = some w' → w.phase.isWorking = true → w'.phase.isWorking = true → i = j
  /-- Items start in the order they were enqueued, and once. -/
  order : (s.started.map Prod.fst).Pairwise (· < ·)
  /-- None that was enqueued before a cancellation starts after it. -/
  late : ∀ p ∈ s.started, p.2 ≤ p.1
  /-- Without a worker nothing waits. -/
  quiet : s.closed = false → (∀ i, s.tasks i = none) → waiting s = []

theorem served (h : Reach step Orderly {} s) : Served s := by
  have hi := orderly_inv h
  refine ⟨fun i j w w' hwi hwj hi' hj' => ?_, hi.items.order.sublist (List.sublist_append_left ..), hi.items.late, fun _ hnone => ?_⟩
  · cases hc : w.cancelled with
    | true =>
      obtain ⟨hnone, honly⟩ := hi.workers.alone i w hwi hc hi'
      cases hc' : w'.cancelled with
      | true => exact (honly j w' hwj hc' hj').symm
      | false => exact absurd (hnone.symm.trans (hi.workers.others j w' hwj hc')) (by simp)
    | false =>
      have hworker := hi.workers.others i w hwi hc
      cases hc' : w'.cancelled with
      | true => exact absurd ((hi.workers.alone j w' hwj hc' hj').1.symm.trans hworker) (by simp)
      | false => exact Option.some.inj (hworker.symm.trans (hi.workers.others j w' hwj hc'))
  · cases hworker : s.worker with
    | none => rw [waiting, hi.workers.served hworker]
    | some i =>
      obtain ⟨w, htask, -⟩ := hi.workers.registered i hworker
      exact absurd ((hnone i).symm.trans htask) (by simp)

/-- A turn is delivered and judged; the conversation is cancelled while nothing waits, and goes on later. -/
def quietCancellation : List Ev :=
  [.submit, .run 0 false, .run 0 false, .cancelSession, .run 0 false, .submit, .run 1 false, .run 1 false]

theorem quietCancellation_served : Served (quietCancellation.foldl step {}) :=
  served (Reach.foldl quietCancellation _ .start (by decide))

/-- A second turn waits while the first is judged, and the conversation is cancelled. -/
def busyCancellation : List Ev :=
  [.submit, .submit, .run 0 false, .run 0 false, .cancelSession, .run 0 false, .run 1 false, .run 1 false]

theorem cancelled_work_starts : (1, 2) ∈ (busyCancellation.foldl step {}).started := by decide

end Flowly.Goals.WorkQueues
