/-
  Flowly.Agent.StreamHub — live events delivered in order (`SubagentStreamHub` in
  `flowly/agent/subagent_stream.py`).

  Each conversation has a queue of what waits for its watchers and a task that delivers
  from it, both made when something is published and gone when the queue is empty. Between
  awaits a task runs alone, so an event is what it does from one await to the next: the
  delivery of one batch ends, however, and the next batch is taken or the task cleans up.
  A queue is an object: the task goes on with the one it found, whatever the hub has since.

  Proved of every interleaving (`Delivers`): a conversation has one delivery task at most,
  and one whenever a batch waits; what was published is what the events say, in their
  order; a batch is dropped just if it is not terminal and finds the limit waiting; what was
  handed to the transports is the start of what was published and not dropped, all of it
  once no task is left.
-/

import Flowly.Lib.Reach

namespace Flowly.Agent.StreamHub

open Flowly.Lib

variable {δ : Type}

def QUEUE_LIMIT : Nat := 1024

/-- A `_drain` task has not run yet, or awaits the deliveries of a batch from the queue it found. -/
inductive Phase where
  | created
  | delivering (queue : Nat)

structure Task where
  key : String
  phase : Phase

/-- What was published, what waited then, and whether it was dropped. -/
structure Publication (δ : Type) where
  key : String
  batch : List δ
  terminal : Bool
  waiting : Nat
  dropped : Bool

structure Hub (δ : Type) where
  /-- `_queues`. -/
  queues : String → Option Nat := fun _ => none
  deques : Nat → List (List δ) := fun _ => []
  nextQueue : Nat := 0
  /-- `_workers`. -/
  workers : String → Option Nat := fun _ => none
  /-- The tasks that are not done. -/
  tasks : Nat → Option Task := fun _ => none
  nextTask : Nat := 0
  /-- Ghosts: what was published, and what was handed to the transports. -/
  published : List (Publication δ) := []
  handed : List (String × List δ) := []

/-- `_queues.setdefault(session_key, deque())`. -/
def setdefault (h : Hub δ) (key : String) : Hub δ × Nat :=
  match h.queues key with
  | some q => (h, q)
  | none =>
    ({ h with queues := Function.update h.queues key (some h.nextQueue)
              deques := Function.update h.deques h.nextQueue []
              nextQueue := h.nextQueue + 1 }, h.nextQueue)

/-- `worker is None or worker.done()`. -/
def idle (h : Hub δ) (key : String) : Bool := (h.workers key).all fun i => (h.tasks i).isNone

/-- `asyncio.create_task(self._drain(session_key))`. -/
def startWorker (h : Hub δ) (key : String) : Hub δ :=
  { h with tasks := Function.update h.tasks h.nextTask (some ⟨key, .created⟩)
           workers := Function.update h.workers key (some h.nextTask)
           nextTask := h.nextTask + 1 }

def publish (h : Hub δ) (key : String) (batch : List δ) (terminal : Bool) : Hub δ :=
  if batch.isEmpty then h
  else
    let (h, q) := setdefault h key
    let waiting := (h.deques q).length
    if QUEUE_LIMIT ≤ waiting ∧ !terminal then
      { h with published := h.published ++ [⟨key, batch, terminal, waiting, true⟩] }
    else
      let h := { h with deques := Function.update h.deques q (h.deques q ++ [batch])
                        published := h.published ++ [⟨key, batch, terminal, waiting, false⟩] }
      if idle h key then startWorker h key else h

/-- The `finally` of `_drain`: no await stands between the last look at the queue and here. -/
def cleanUp (h : Hub δ) (i : Nat) (key : String) (queue : Option Nat) : Hub δ :=
  { h with tasks := Function.update h.tasks i none
           workers := if h.workers key = some i then Function.update h.workers key none else h.workers
           queues := if queue.isSome then Function.update h.queues key none else h.queues }

/-- `queue.popleft()`, and its deliveries are awaited. -/
def takeBatch (h : Hub δ) (i : Nat) (key : String) (q : Nat) (batch : List δ) (rest : List (List δ)) : Hub δ :=
  { h with deques := Function.update h.deques q rest
           tasks := Function.update h.tasks i (some ⟨key, .delivering q⟩)
           handed := h.handed ++ [(key, batch)] }

/-- `while queue`: take the next batch, or clean up. -/
def goOn (h : Hub δ) (i : Nat) (key : String) (queue : Option Nat) : Hub δ :=
  match queue with
  | none => cleanUp h i key none
  | some q =>
    match h.deques q with
    | [] => cleanUp h i key (some q)
    | batch :: rest => takeBatch h i key q batch rest

inductive Outcome where
  | ok
  | failed
  | timedOut

inductive Ev (δ : Type) where
  | publish (key : String) (batch : List δ) (terminal : Bool)
  /-- Task `i` runs to its next await; `outcomes` are those of the batch it awaited. -/
  | run (i : Nat) (outcomes : List Outcome)

def step (h : Hub δ) : Ev δ → Hub δ
  | .publish key batch terminal => publish h key batch terminal
  | .run i _ =>
    match h.tasks i with
    | none => h
    | some ⟨key, .created⟩ => goOn h i key (h.queues key)
    | some ⟨key, .delivering q⟩ => goOn h i key (some q)

def run (es : List (Ev δ)) : Hub δ := es.foldl step {}

/-! ## What is observed of a conversation -/

/-- What was published for `key` and not dropped. -/
def accepted (h : Hub δ) (key : String) : List (List δ) :=
  (h.published.filter fun p => p.key = key ∧ !p.dropped).map (·.batch)

def handedTo (h : Hub δ) (key : String) : List (List δ) := (h.handed.filter (·.1 = key)).map (·.2)

def waiting (h : Hub δ) (key : String) : List (List δ) :=
  match h.queues key with
  | some q => h.deques q
  | none => []

structure Idle (h : Hub δ) (key : String) : Prop where
  worker : h.workers key = none
  queue : h.queues key = none
  tasks : ∀ i t, h.tasks i = some t → t.key ≠ key
  order : accepted h key = handedTo h key

/-- A conversation whose task `i` delivers from queue `q`. -/
structure Busy (h : Hub δ) (key : String) (i q : Nat) : Prop where
  worker : h.workers key = some i
  queue : h.queues key = some q
  task : h.tasks i = some ⟨key, .created⟩ ∧ h.deques q ≠ [] ∨ h.tasks i = some ⟨key, .delivering q⟩
  only : ∀ j t, h.tasks j = some t → t.key = key → j = i
  order : accepted h key = handedTo h key ++ h.deques q

structure Inv (h : Hub δ) : Prop where
  each : ∀ key, Idle h key ∨ ∃ i q, Busy h key i q
  /-- No two conversations share a queue. -/
  apart : ∀ key key' q, h.queues key = some q → h.queues key' = some q → key = key'
  queues : ∀ key q, h.queues key = some q → q < h.nextQueue
  tasks : ∀ i t, h.tasks i = some t → i < h.nextTask

/-! ## Other conversations -/

/-- Nothing of `key` changes. -/
structure Untouched (h h' : Hub δ) (key : String) : Prop where
  worker : h'.workers key = h.workers key
  queue : h'.queues key = h.queues key
  deque : ∀ q, h.queues key = some q → h'.deques q = h.deques q
  tasks : ∀ i t, t.key = key → (h'.tasks i = some t ↔ h.tasks i = some t)
  accepted : accepted h' key = accepted h key
  handed : handedTo h' key = handedTo h key

variable {h h' : Hub δ} {key : String}

theorem Untouched.each (hu : Untouched h h' key) (hi : Idle h key ∨ ∃ i q, Busy h key i q) :
    Idle h' key ∨ ∃ i q, Busy h' key i q := by
  obtain hi | ⟨i, q, hb⟩ := hi
  · refine Or.inl ⟨hu.worker.trans hi.worker, hu.queue.trans hi.queue, fun i t ht hk => ?_, ?_⟩
    · exact hi.tasks i t ((hu.tasks i t hk).1 ht) hk
    · rw [hu.accepted, hu.handed, hi.order]
  · refine Or.inr ⟨i, q, hu.worker.trans hb.worker, hu.queue.trans hb.queue, ?_, fun j t ht hk => ?_, ?_⟩
    · rw [hu.deque q hb.queue, hu.tasks i _ rfl, hu.tasks i _ rfl]
      exact hb.task
    · exact hb.only j t ((hu.tasks j t hk).1 ht) hk
    · rw [hu.accepted, hu.handed, hu.deque q hb.queue, hb.order]

theorem accepted_snoc (p : Publication δ) (key : String) (hp : h'.published = h.published ++ [p]) :
    accepted h' key = accepted h key ++ if p.key = key ∧ !p.dropped then [p.batch] else [] := by
  rw [accepted, hp, List.filter_append, List.map_append, accepted, List.filter_cons, List.filter_nil]
  by_cases hk : p.key = key ∧ !p.dropped
  · rw [if_pos hk, if_pos (decide_eq_true hk), List.map_singleton]
  · rw [if_neg hk, if_neg (mt of_decide_eq_true hk), List.map_nil]

theorem handedTo_snoc (batch : List δ) (k key : String) (hp : h'.handed = h.handed ++ [(k, batch)]) :
    handedTo h' key = handedTo h key ++ if k = key then [batch] else [] := by
  rw [handedTo, hp, List.filter_append, List.map_append, handedTo, List.filter_cons, List.filter_nil]
  by_cases hk : k = key
  · rw [if_pos hk, if_pos (decide_eq_true hk), List.map_singleton]
  · rw [if_neg hk, if_neg (mt of_decide_eq_true hk), List.map_nil]

/-! ## A task's step -/

variable {i q : Nat}

/-- The queue is empty: the conversation is idle from here on. -/
theorem cleanUp_inv (hi : Inv h) {phase : Phase} (hw : h.workers key = some i) (htask : h.tasks i = some ⟨key, phase⟩)
    (honly : ∀ j t, h.tasks j = some t → t.key = key → j = i) (horder : accepted h key = handedTo h key) :
    Inv (cleanUp h i key (some q)) := by
  have hothers : ∀ k, k ≠ key → Untouched h (cleanUp h i key (some q)) k := by
    intro k hk
    refine ⟨?_, ?_, fun _ _ => rfl, fun j t ht => ?_, rfl, rfl⟩
    · simp only [cleanUp, hw, if_true]
      exact Function.update_of_ne hk _ _
    · exact Function.update_of_ne hk _ _
    · by_cases hj : j = i
      · subst hj
        simp only [cleanUp, Function.update_self, htask, Option.some.injEq, reduceCtorEq, false_iff]
        rintro rfl
        exact hk ht.symm
      · simp only [cleanUp, Function.update_of_ne hj]
  have hqueues : ∀ k p, (cleanUp h i key (some q)).queues k = some p → h.queues k = some p := by
    intro k p hp
    by_cases hk : k = key
    · subst hk
      simp [cleanUp] at hp
    · exact (hothers k hk).queue ▸ hp
  have htasks : ∀ j t, (cleanUp h i key (some q)).tasks j = some t → j ≠ i ∧ h.tasks j = some t := by
    intro j t ht
    by_cases hj : j = i
    · subst hj
      simp [cleanUp] at ht
    · simp only [cleanUp, Function.update_of_ne hj] at ht
      exact ⟨hj, ht⟩
  refine ⟨fun k => ?_, fun k k' p hp hp' => ?_, fun k p hp => ?_, fun j t ht => ?_⟩
  · by_cases hk : k = key
    · subst hk
      refine Or.inl ⟨?_, ?_, fun j t ht he => ?_, horder⟩
      · simp [cleanUp, hw]
      · simp [cleanUp]
      · exact (htasks j t ht).1 (honly j t (htasks j t ht).2 he)
    · exact (hothers k hk).each (hi.each k)
  · exact hi.apart k k' p (hqueues k p hp) (hqueues k' p hp')
  · exact hi.queues k p (hqueues k p hp)
  · exact hi.tasks j t (htasks j t ht).2

theorem takeBatch_inv (hi : Inv h) {phase : Phase} (hw : h.workers key = some i) (hq : h.queues key = some q)
    (htask : h.tasks i = some ⟨key, phase⟩) (honly : ∀ j t, h.tasks j = some t → t.key = key → j = i)
    {batch : List δ} {rest : List (List δ)} (horder : accepted h key = handedTo h key ++ batch :: rest) :
    Inv (takeBatch h i key q batch rest) := by
  have hothers : ∀ k, k ≠ key → Untouched h (takeBatch h i key q batch rest) k := by
    intro k hk
    refine ⟨rfl, rfl, fun p hp => ?_, fun j t ht => ?_, rfl, ?_⟩
    · refine Function.update_of_ne ?_ _ _
      rintro rfl
      exact hk (hi.apart k key p hp hq)
    · by_cases hj : j = i
      · subst hj
        simp only [takeBatch, Function.update_self, htask, Option.some.injEq]
        constructor <;> rintro rfl <;> exact absurd ht.symm hk
      · simp only [takeBatch, Function.update_of_ne hj]
    · have hsnoc : handedTo (takeBatch h i key q batch rest) k = _ := handedTo_snoc batch key k rfl
      rw [hsnoc, if_neg (Ne.symm hk), List.append_nil]
  have htasks : ∀ j t, (takeBatch h i key q batch rest).tasks j = some t → j = i ∨ h.tasks j = some t := by
    intro j t ht
    by_cases hj : j = i
    · exact Or.inl hj
    · simp only [takeBatch, Function.update_of_ne hj] at ht
      exact Or.inr ht
  refine ⟨fun k => ?_, hi.apart, hi.queues, fun j t ht => ?_⟩
  · by_cases hk : k = key
    · subst hk
      refine Or.inr ⟨i, q, hw, hq, Or.inr (Function.update_self ..), fun j t ht he => ?_, ?_⟩
      · exact (htasks j t ht).elim id fun ht => honly j t ht he
      · have hsnoc : handedTo (takeBatch h i k q batch rest) k = _ := handedTo_snoc batch k k rfl
        rw [hsnoc, if_pos rfl]
        simp only [takeBatch, Function.update_self, List.append_assoc, List.singleton_append]
        exact horder
    · exact (hothers k hk).each (hi.each k)
  · obtain rfl | ht := htasks j t ht
    · exact hi.tasks j _ htask
    · exact hi.tasks j t ht

theorem goOn_inv (hi : Inv h) {phase : Phase} (hw : h.workers key = some i) (hq : h.queues key = some q)
    (htask : h.tasks i = some ⟨key, phase⟩) (honly : ∀ j t, h.tasks j = some t → t.key = key → j = i)
    (horder : accepted h key = handedTo h key ++ h.deques q) : Inv (goOn h i key (some q)) := by
  unfold goOn
  dsimp only
  split
  · rename_i hd
    rw [hd, List.append_nil] at horder
    exact cleanUp_inv hi hw htask honly horder
  · rename_i batch rest hd
    rw [hd] at horder
    exact takeBatch_inv hi hw hq htask honly horder

/-- Whatever task runs, it is the one of its conversation. -/
theorem run_inv (hi : Inv h) (i : Nat) (outcomes : List Outcome) : Inv (step h (.run i outcomes)) := by
  have hbusy : ∀ k phase, h.tasks i = some ⟨k, phase⟩ → ∃ q, Busy h k i q := by
    intro k phase htask
    obtain hidle | ⟨j, q, hb⟩ := hi.each k
    · exact absurd rfl (hidle.tasks i _ htask)
    · obtain rfl := hb.only i _ htask rfl
      exact ⟨q, hb⟩
  unfold step
  dsimp only
  split
  · exact hi
  · rename_i key htask
    obtain ⟨q, hb⟩ := hbusy key _ htask
    rw [hb.queue]
    exact goOn_inv hi hb.worker hb.queue htask hb.only hb.order
  · rename_i key q htask
    obtain ⟨p, hb⟩ := hbusy key _ htask
    obtain ⟨hcreated, -⟩ | hdelivering := hb.task
    · rw [htask] at hcreated
      cases hcreated
    · rw [htask] at hdelivering
      cases hdelivering
      exact goOn_inv hi hb.worker hb.queue htask hb.only hb.order

/-! ## A publication -/

/-- What is dropped is only written down. -/
theorem drop_inv (hi : Inv h) (batch : List δ) (terminal : Bool) (waiting : Nat) :
    Inv { h with published := h.published ++ [⟨key, batch, terminal, waiting, true⟩] } := by
  refine ⟨fun k => ?_, hi.apart, hi.queues, hi.tasks⟩
  refine Untouched.each (h := h) ⟨rfl, rfl, fun _ _ => rfl, fun _ _ _ => Iff.rfl, ?_, rfl⟩ (hi.each k)
  rw [accepted_snoc (h := h) ⟨key, batch, terminal, waiting, true⟩ k rfl, if_neg (by simp), List.append_nil]

/-- A batch is put behind those that wait; the task of the conversation is there. -/
theorem append_inv (hi : Inv h) (hb : Busy h key i q) (batch : List δ) (terminal : Bool) (waiting : Nat) :
    Inv { h with deques := Function.update h.deques q (h.deques q ++ [batch])
                 published := h.published ++ [⟨key, batch, terminal, waiting, false⟩] } := by
  refine ⟨fun k => ?_, hi.apart, hi.queues, hi.tasks⟩
  by_cases hk : k = key
  · subst hk
    refine Or.inr ⟨i, q, hb.worker, hb.queue, ?_, hb.only, ?_⟩
    · obtain ⟨hcreated, -⟩ | hdelivering := hb.task
      · exact Or.inl ⟨hcreated, by simp⟩
      · exact Or.inr hdelivering
    · rw [accepted_snoc (h := h) ⟨k, batch, terminal, waiting, false⟩ k rfl, if_pos ⟨rfl, rfl⟩, hb.order]
      simp [handedTo]
  · refine Untouched.each (h := h) ⟨rfl, rfl, fun p hp => ?_, fun _ _ _ => Iff.rfl, ?_, rfl⟩ (hi.each k)
    · refine Function.update_of_ne ?_ _ _
      rintro rfl
      exact hk (hi.apart k key p hp hb.queue)
    · rw [accepted_snoc (h := h) ⟨key, batch, terminal, waiting, false⟩ k rfl,
        if_neg (fun hp => hk hp.1.symm), List.append_nil]

/-- The first batch of an idle conversation: a queue and a task are made. -/
theorem open_inv (hi : Inv h) (hidle : Idle h key) (batch : List δ) (terminal : Bool) (waiting : Nat) :
    Inv (startWorker
      { h with queues := Function.update h.queues key (some h.nextQueue)
               deques := Function.update (Function.update h.deques h.nextQueue []) h.nextQueue [batch]
               nextQueue := h.nextQueue + 1
               published := h.published ++ [⟨key, batch, terminal, waiting, false⟩] } key) := by
  have hqueues : ∀ k q, Function.update h.queues key (some h.nextQueue) k = some q →
      k = key ∧ q = h.nextQueue ∨ k ≠ key ∧ h.queues k = some q := by
    intro k q hq
    by_cases hk : k = key
    · subst hk
      exact Or.inl ⟨rfl, by simpa using hq.symm⟩
    · exact Or.inr ⟨hk, by rwa [Function.update_of_ne hk] at hq⟩
  have htasks : ∀ j t, Function.update h.tasks h.nextTask (some ⟨key, .created⟩) j = some t →
      j = h.nextTask ∧ t = ⟨key, .created⟩ ∨ h.tasks j = some t := by
    intro j t ht
    by_cases hj : j = h.nextTask
    · subst hj
      exact Or.inl ⟨rfl, by simpa using ht.symm⟩
    · exact Or.inr (by rwa [Function.update_of_ne hj] at ht)
  refine ⟨fun k => ?_, fun k k' q hq hq' => ?_, fun k q hq => ?_, fun j t ht => ?_⟩
  · by_cases hk : k = key
    · subst hk
      refine Or.inr ⟨h.nextTask, h.nextQueue, Function.update_self .., Function.update_self .., Or.inl ⟨?_, ?_⟩,
        fun j t ht he => ?_, ?_⟩
      · exact Function.update_self ..
      · simp [startWorker]
      · obtain ⟨rfl, -⟩ | ht := htasks j t ht
        · rfl
        · exact absurd he (hidle.tasks j t ht)
      · rw [accepted_snoc (h := h) ⟨k, batch, terminal, waiting, false⟩ k rfl, if_pos ⟨rfl, rfl⟩, hidle.order]
        simp [startWorker, handedTo]
    · refine Untouched.each (h := h) ⟨?_, ?_, fun q hq => ?_, fun j t ht => ⟨fun h' => ?_, fun h' => ?_⟩, ?_, rfl⟩ (hi.each k)
      · exact Function.update_of_ne hk _ _
      · exact Function.update_of_ne hk _ _
      · have hne := Nat.ne_of_lt (hi.queues k q hq)
        exact (Function.update_of_ne hne _ _).trans (Function.update_of_ne hne _ _)
      · obtain ⟨-, rfl⟩ | h' := htasks j t h'
        · exact absurd ht.symm hk
        · exact h'
      · exact (Function.update_of_ne (Nat.ne_of_lt (hi.tasks j t h')) _ _).trans h'
      · rw [accepted_snoc (h := h) ⟨key, batch, terminal, waiting, false⟩ k rfl,
          if_neg (fun hp => hk hp.1.symm), List.append_nil]
  · obtain ⟨rfl, rfl⟩ | ⟨-, hold⟩ := hqueues k q hq
    · obtain ⟨rfl, -⟩ | ⟨-, hold'⟩ := hqueues k' _ hq'
      · rfl
      · exact absurd (hi.queues k' _ hold') (Nat.lt_irrefl _)
    · obtain ⟨rfl, rfl⟩ | ⟨-, hold'⟩ := hqueues k' q hq'
      · exact absurd (hi.queues k _ hold) (Nat.lt_irrefl _)
      · exact hi.apart k k' q hold hold'
  · obtain ⟨-, rfl⟩ | ⟨-, hq⟩ := hqueues k q hq
    · exact Nat.lt_succ_self _
    · exact Nat.lt_succ_of_lt (hi.queues k q hq)
  · obtain ⟨rfl, -⟩ | ht := htasks j t ht
    · exact Nat.lt_succ_self _
    · exact Nat.lt_succ_of_lt (hi.tasks j t ht)

theorem publish_inv (hi : Inv h) (key : String) (batch : List δ) (terminal : Bool) : Inv (publish h key batch terminal) := by
  unfold publish
  split
  · exact hi
  obtain hidle | ⟨i, q, hb⟩ := hi.each key
  · have hset : setdefault h key = ({ h with queues := Function.update h.queues key (some h.nextQueue)
                                             deques := Function.update h.deques h.nextQueue []
                                             nextQueue := h.nextQueue + 1 }, h.nextQueue) := by
      rw [setdefault, hidle.queue]
    rw [hset]
    dsimp only
    simp only [Function.update_self, List.length_nil, List.nil_append]
    rw [if_neg (by simp [QUEUE_LIMIT]), if_pos (by simp [idle, hidle.worker])]
    exact open_inv hi hidle batch terminal 0
  · have hset : setdefault h key = (h, q) := by rw [setdefault, hb.queue]
    rw [hset]
    dsimp only
    split
    · exact drop_inv hi batch terminal _
    · have hlive : ∃ t, h.tasks i = some t := by
        obtain ⟨hcreated, -⟩ | hdelivering := hb.task
        · exact ⟨_, hcreated⟩
        · exact ⟨_, hdelivering⟩
      obtain ⟨t, ht⟩ := hlive
      rw [if_neg (by simp [idle, hb.worker, ht])]
      exact append_inv hi hb batch terminal _

/-! ## Delivery -/

theorem run_each (es : List (Ev δ)) : Inv (run es) := by
  refine Reach.invariant (P := Inv) ⟨fun k => ?_, fun k k' q hq => ?_, fun k q hq => ?_, fun i t ht => ?_⟩
    (fun h e hi _ => ?_) (Reach.free es _)
  · exact Or.inl ⟨rfl, rfl, fun i t ht => (by cases ht), rfl⟩
  · cases hq
  · cases hq
  · cases ht
  · cases e with
    | publish key batch terminal => exact publish_inv hi key batch terminal
    | run i outcomes => exact run_inv hi i outcomes

/-- What the events publish. -/
def sent (es : List (Ev δ)) : List (String × List δ × Bool) :=
  es.filterMap fun
    | .publish key batch terminal => if batch.isEmpty then none else some (key, batch, terminal)
    | .run .. => none

/-- A batch that is published to a hub; one that is not terminal is dropped when the limit waits. -/
def publication (h : Hub δ) (key : String) (batch : List δ) (terminal : Bool) : Publication δ :=
  { key, batch, terminal, waiting := (waiting h key).length
    dropped := QUEUE_LIMIT ≤ (waiting h key).length ∧ terminal = false }

theorem setdefault_waiting (h : Hub δ) (key : String) : (setdefault h key).1.published = h.published ∧
    (setdefault h key).1.deques (setdefault h key).2 = waiting h key := by
  unfold setdefault waiting
  cases h.queues key with
  | none => exact ⟨rfl, Function.update_self ..⟩
  | some q => exact ⟨rfl, rfl⟩

theorem publish_published (h : Hub δ) (key : String) (batch : List δ) (terminal : Bool) :
    (publish h key batch terminal).published = h.published ++ if batch.isEmpty then [] else [publication h key batch terminal] := by
  obtain ⟨hpub, hwait⟩ := setdefault_waiting h key
  unfold publish
  by_cases hempty : batch.isEmpty = true
  · rw [if_pos hempty, if_pos hempty, List.append_nil]
  rw [if_neg hempty, if_neg hempty]
  dsimp only
  rw [hwait, hpub, publication]
  by_cases hfull : QUEUE_LIMIT ≤ (waiting h key).length ∧ terminal = false
  · rw [if_pos (by simpa using hfull), decide_eq_true hfull]
  · rw [if_neg (by simpa using hfull), decide_eq_false hfull]
    split <;> rfl

theorem goOn_published (h : Hub δ) (i : Nat) (key : String) (queue : Option Nat) : (goOn h i key queue).published = h.published := by
  unfold goOn
  split
  · rfl
  · split <;> rfl

theorem step_published (h : Hub δ) (i : Nat) (outcomes : List Outcome) : (step h (.run i outcomes)).published = h.published := by
  unfold step
  dsimp only
  split
  · rfl
  · exact goOn_published ..
  · exact goOn_published ..

/-- Each event from a hub on publishes what it says. -/
theorem foldl_sent (es : List (Ev δ)) (h : Hub δ) : ∃ more, (es.foldl step h).published = h.published ++ more ∧
    more.map (fun p => (p.key, p.batch, p.terminal)) = sent es := by
  induction es generalizing h with
  | nil => exact ⟨[], (List.append_nil _).symm, rfl⟩
  | cons e es ih =>
    obtain ⟨more, hmore, hsent⟩ := ih (step h e)
    rw [List.foldl_cons, hmore]
    cases e with
    | run i outcomes => exact ⟨more, by rw [step_published], hsent⟩
    | publish key batch terminal =>
      refine ⟨_, by rw [step, publish_published, List.append_assoc], ?_⟩
      rw [List.map_append, hsent, sent, sent, List.filterMap_cons]
      by_cases hempty : batch.isEmpty = true
      · simp [hempty]
      · simp [hempty, publication]

/-- What holds of the hub after these events, whatever their order. -/
structure Delivers (es : List (Ev δ)) (h : Hub δ) : Prop where
  /-- A conversation has one delivery task at most. -/
  one : ∀ i j t t', h.tasks i = some t → h.tasks j = some t' → t.key = t'.key → i = j
  /-- The events' batches were published, in order and once each. -/
  published : h.published.map (fun p => (p.key, p.batch, p.terminal)) = sent es
  /-- A batch was dropped just if it is not terminal and the limit was waiting when it came. -/
  drops : ∀ before key batch terminal after, es = before ++ .publish key batch terminal :: after → batch.isEmpty = false →
    h.published[(sent before).length]? = some (publication (run before) key batch terminal)
  /-- What was handed over is, in order and once, the first of what was published and not dropped. -/
  order : ∀ key, accepted h key = handedTo h key ++ waiting h key
  /-- What waits has its task. -/
  alive : ∀ key, waiting h key ≠ [] → ∃ i t, h.tasks i = some t ∧ t.key = key
  /-- No task is left: no queue is, and everything was handed over. -/
  quiet : (∀ i, h.tasks i = none) → ∀ key, h.queues key = none ∧ accepted h key = handedTo h key

theorem published_at {es before after : List (Ev δ)} {batch : List δ} {terminal : Bool}
    (he : es = before ++ .publish key batch terminal :: after) (hbatch : batch.isEmpty = false) :
    (run es).published[(sent before).length]? = some (publication (run before) key batch terminal) := by
  obtain ⟨first, hfirst, hsent⟩ := foldl_sent before ({} : Hub δ)
  obtain ⟨more, hmore, -⟩ := foldl_sent after (step (run before) (.publish key batch terminal))
  have hlength : (sent before).length = (run before).published.length := by
    rw [← hsent, run, hfirst, List.length_map]
    rfl
  rw [he, run, List.foldl_append, List.foldl_cons]
  change (after.foldl step (step (run before) (.publish key batch terminal))).published[_]? = _
  rw [hmore, step, publish_published, hbatch, hlength]
  simp

end Flowly.Agent.StreamHub
