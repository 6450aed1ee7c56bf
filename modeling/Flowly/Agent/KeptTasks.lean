/-
  Flowly.Agent.KeptTasks — the tasks kept for an idle thread, taken to start them and kept
  again if they cannot start (`flowly/agent/subagent_registry.py`: `queue_mail`,
  `take_pending_tasks`, `requeue_tasks`, `register`; `flowly/agent/subagent.py`:
  `_start_pending_tasks`).

  One thread's mailbox, with its entries told apart by the order `queue_mail` accepted
  them in; the registry does the same with the record of the thread (`registry_refines`). A
  list that `take_pending_tasks` returned stays with its caller until a run takes the tasks
  or they are requeued.

  Proved: where every requeue so far did, requeueing drops none of its tasks and keeps the
  order exactly if they and what waits fit the mailbox, and all that waits was accepted
  after them (`requeue_keeps_iff`); in a run where each requeue is so, every accepted task waits, is
  out or was taken by a run, once, while the thread is open (`tasks_kept`). A mailbox that
  was filled up in between drops the tasks, and one that a message was waiting in gets
  them in front of it (`task_dropped_and_message_overtaken`).
-/

import Flowly.Agent.PendingMail

namespace Flowly.Agent.KeptTasks

open Flowly.Lib
open Flowly.Agent.Registry (Id Mail Mem Thread MAX_PENDING_MAIL findThread)

/-- An entry of `pending_mail`, and the number of entries accepted before it. -/
structure Entry where
  number : Nat
  mail : Mail
  deriving DecidableEq

def Entry.task (e : Entry) : Bool := e.mail.task

structure Box where
  isOpen : Bool := true
  /-- A run of the thread is going on. -/
  active : Bool := false
  pendingMail : List Entry := []
  /-- The lists `take_pending_tasks` returned, until they are requeued or started. -/
  taken : List (List Entry) := []
  /-- Ghost: the entries `queue_mail` accepted. -/
  accepted : List Entry := []
  /-- Ghost: the tasks that runs took. -/
  started : List Entry := []

def queueMail (mail : Mail) (b : Box) : Box :=
  if !b.isOpen || b.active || MAX_PENDING_MAIL ≤ b.pendingMail.length then b
  else
    let entry : Entry := ⟨b.accepted.length, mail⟩
    { b with pendingMail := b.pendingMail ++ [entry], accepted := b.accepted ++ [entry] }

def takePendingTasks (b : Box) : Box :=
  if !b.isOpen || b.active || !b.pendingMail.any (·.task) then b
  else { b with pendingMail := b.pendingMail.filter (!·.task), taken := b.taken ++ [b.pendingMail.filter (·.task)] }

/-- `[*tasks, *pending_mail][-MAX_PENDING_MAIL:]`. -/
def refilled (tasks pending : List Entry) : List Entry := (tasks ++ pending).drop ((tasks ++ pending).length - MAX_PENDING_MAIL)

/-- The list taken `k`-th of those that are out is given back. -/
def requeueTasks (k : Nat) (b : Box) : Box :=
  match b.taken[k]? with
  | none => b
  | some tasks =>
    let b := { b with taken := b.taken.eraseIdx k }
    if !b.isOpen || tasks.isEmpty then b else { b with pendingMail := refilled tasks b.pendingMail }

def startTasks (k : Nat) (b : Box) : Box :=
  match b.taken[k]? with
  | none => b
  | some tasks => { b with taken := b.taken.eraseIdx k, started := b.started ++ tasks }

/-- `register` of a follow-up: the messages that wait become its notes. -/
def register (b : Box) : Box :=
  if !b.isOpen || b.active then b else { b with active := true, pendingMail := b.pendingMail.filter (·.task) }

inductive Ev where
  | queueMail (mail : Mail)
  | takePendingTasks
  | requeueTasks (k : Nat)
  | startTasks (k : Nat)
  | register
  | runEnded
  | close

def step (b : Box) : Ev → Box
  | .queueMail mail => queueMail mail b
  | .takePendingTasks => takePendingTasks b
  | .requeueTasks k => requeueTasks k b
  | .startTasks k => startTasks k b
  | .register => register b
  | .runEnded => { b with active := false }
  | .close => { b with isOpen := false, pendingMail := [] }

/-! ## The thread of the registry -/

structure Shows (b : Box) (th : Thread) : Prop where
  isOpen : th.isOpen = b.isOpen
  active : th.activeRunId.isSome = b.active
  pendingMail : th.pendingMail = b.pendingMail.map (·.mail)

/-- What an operation on the thread makes of it; `none` writes nothing. -/
def Matches (id : Id) (result : Option Mem) (b b' : Box) : Prop :=
  match result with
  | none => b'.isOpen = b.isOpen ∧ b'.active = b.active ∧ b'.pendingMail = b.pendingMail
  | some m => ∃ th, findThread m.threads id = some th ∧ Shows b' th

variable {m : Mem} {id : Id} {th : Thread} {b : Box}

theorem findThread_modify (h : findThread m.threads id = some th) {f : Thread → Thread}
    (hf : ∀ th, (f th).threadId = th.threadId) : findThread (Registry.modify m id f).threads id = some (f th) := by
  have hsame : ∀ th : Thread, (if th.threadId = id then f th else th).threadId = th.threadId := fun th => by
    split
    · exact hf th
    · rfl
  rw [Registry.modify, Registry.findThread_map hsame, h, Option.map_some, if_pos (Registry.findThread_some h).2]

/-- The registry does with the record of a thread what is done with its mailbox. -/
theorem registry_refines (h : findThread m.threads id = some th) (hb : Shows b th) :
    (∀ mail, Matches id (Registry.queueMail m id mail) b (queueMail mail b)) ∧
    Matches id (Registry.takePendingTasks m id) b (takePendingTasks b) ∧
    ∀ k tasks, b.taken[k]? = some tasks →
      Matches id (Registry.requeueTasks m id (tasks.map (·.mail))) b (requeueTasks k b) := by
  refine ⟨fun mail => ?_, ?_, fun k tasks hk => ?_⟩
  · have hlength : th.pendingMail.length = b.pendingMail.length := by rw [hb.pendingMail, List.length_map]
    simp only [Registry.queueMail, h, queueMail, hb.isOpen, hb.active, hlength]
    split
    · exact ⟨rfl, rfl, rfl⟩
    · exact ⟨_, findThread_modify h fun _ => rfl, hb.isOpen, hb.active, by simp [hb.pendingMail]⟩
  · have hany : th.pendingMail.any (·.task) = b.pendingMail.any (·.task) := by
      rw [hb.pendingMail, List.any_map]
      rfl
    simp only [Registry.takePendingTasks, h, takePendingTasks, hb.isOpen, hb.active, hany]
    split
    · exact ⟨rfl, rfl, rfl⟩
    · refine ⟨_, findThread_modify h fun _ => rfl, hb.isOpen, hb.active, ?_⟩
      show th.pendingMail.filter (!·.task) = _
      rw [hb.pendingMail, List.filter_map]
      rfl
  · have hempty : (tasks.map (·.mail)).isEmpty = tasks.isEmpty := by cases tasks <;> rfl
    simp only [Registry.requeueTasks, h, requeueTasks, hk, hb.isOpen, hempty]
    split
    · exact ⟨rfl, rfl, rfl⟩
    · refine ⟨_, findThread_modify h fun _ => rfl, hb.isOpen, hb.active, ?_⟩
      simp only [hb.pendingMail, refilled, List.map_drop, List.map_append, List.length_append, List.length_map]

/-! ## The run -/

/-- The requeued list fits the mailbox, and all that waits was accepted after it. -/
def Fits (b : Box) (tasks : List Entry) : Prop :=
  tasks.length + b.pendingMail.length ≤ MAX_PENDING_MAIL ∧ ∀ e ∈ tasks, ∀ waiting ∈ b.pendingMail, e.number < waiting.number

instance (b : Box) (tasks : List Entry) : Decidable (Fits b tasks) := inferInstanceAs (Decidable (_ ∧ _))

/-- The requeues after which nothing is lost or out of order. -/
def Timely (b : Box) : Ev → Prop
  | .requeueTasks k => b.isOpen = true → ∀ tasks, b.taken[k]? = some tasks → Fits b tasks
  | _ => True

def InOrder (entries : List Entry) : Prop := entries.Pairwise fun a b => a.number < b.number

instance (entries : List Entry) : Decidable (InOrder entries) := inferInstanceAs (Decidable (List.Pairwise _ _))

def places (b : Box) : List Entry := b.pendingMail ++ b.taken.flatten ++ b.started

structure Inv (b : Box) : Prop where
  accepted : InOrder b.accepted
  below : ∀ e ∈ b.accepted, e.number < b.accepted.length
  pending : InOrder b.pendingMail
  known : ∀ e ∈ b.pendingMail, e ∈ b.accepted
  taken : ∀ tasks ∈ b.taken, InOrder tasks ∧ ∀ e ∈ tasks, e.task = true ∧ e ∈ b.accepted
  tasks : b.isOpen = true → ∀ e, e.task = true → (places b).count e = b.accepted.count e

theorem inv_new : Inv {} where
  accepted := .nil
  below := List.forall_mem_nil _
  pending := .nil
  known := List.forall_mem_nil _
  taken := List.forall_mem_nil _
  tasks := fun _ _ _ => rfl

theorem count_places (b : Box) (e : Entry) :
    (places b).count e = b.pendingMail.count e + b.taken.flatten.count e + b.started.count e := by
  rw [places, List.count_append, List.count_append]

/-- A list that is out holds its part of what is out. -/
theorem count_eraseIdx {xss : List (List Entry)} {k : Nat} {xs : List Entry} (h : xss[k]? = some xs) (e : Entry) :
    xss.flatten.count e = xs.count e + (xss.eraseIdx k).flatten.count e := by
  induction xss generalizing k with
  | nil => simp at h
  | cons ys xss ih =>
    cases k with
    | zero =>
      simp only [List.getElem?_cons_zero, Option.some.injEq] at h
      subst h
      rw [List.flatten_cons, List.count_append, List.eraseIdx_cons_zero]
    | succ k =>
      rw [List.getElem?_cons_succ] at h
      simp only [List.flatten_cons, List.eraseIdx_cons_succ, List.count_append, ih h]
      omega

theorem queueMail_inv (h : Inv b) (mail : Mail) : Inv (queueMail mail b) := by
  unfold queueMail
  split
  · exact h
  · have hpush : ∀ entries : List Entry, InOrder entries → (∀ e ∈ entries, e ∈ b.accepted) →
        InOrder (entries ++ [⟨b.accepted.length, mail⟩]) := fun entries horder hin =>
      List.pairwise_append.mpr ⟨horder, List.pairwise_singleton _ _, fun e he x hx => List.mem_singleton.mp hx ▸ h.below e (hin e he)⟩
    refine ⟨hpush _ h.accepted fun _ he => he, fun e he => ?_, hpush _ h.pending h.known, fun e he => ?_, fun tasks ht => ?_,
      fun hopen e he => ?_⟩
    · simp only [List.length_append, List.length_singleton]
      rcases List.mem_append.mp he with he | he
      · exact (h.below e he).trans (Nat.lt_succ_self _)
      · rw [List.mem_singleton.mp he]
        exact Nat.lt_succ_self _
    · rcases List.mem_append.mp he with he | he
      · exact List.mem_append_left _ (h.known e he)
      · exact List.mem_append_right _ he
    · exact ⟨(h.taken tasks ht).1, fun e he => ⟨((h.taken tasks ht).2 e he).1, List.mem_append_left _ ((h.taken tasks ht).2 e he).2⟩⟩
    · have hold := h.tasks hopen e he
      rw [count_places] at hold ⊢
      simp only [List.count_append]
      omega

theorem take_inv (h : Inv b) : Inv (takePendingTasks b) := by
  unfold takePendingTasks
  split
  · exact h
  · refine ⟨h.accepted, h.below, h.pending.filter _, fun e he => h.known e (List.mem_filter.mp he).1, fun tasks ht => ?_,
      fun hopen e he => ?_⟩
    · rcases List.mem_append.mp ht with ht | ht
      · exact h.taken tasks ht
      · rw [List.mem_singleton.mp ht]
        refine ⟨h.pending.filter _, fun e he => ?_⟩
        obtain ⟨hin, htask⟩ := List.mem_filter.mp he
        exact ⟨htask, h.known e hin⟩
    · have hold := h.tasks hopen e he
      have hrest : (b.pendingMail.filter (!·.task)).count e = 0 :=
        List.count_eq_zero.mpr fun hin => by simp [he] at hin
      have hout : (b.pendingMail.filter (·.task)).count e = b.pendingMail.count e := List.count_filter he
      rw [count_places] at hold ⊢
      simp only [List.flatten_append, List.flatten_singleton, List.count_append, hrest, hout]
      omega

theorem mem_of_eraseIdx {xss : List (List Entry)} {k : Nat} {xs : List Entry} (h : xs ∈ xss.eraseIdx k) : xs ∈ xss :=
  (List.eraseIdx_sublist xss k).subset h

/-- What fits is put in front whole. -/
theorem refilled_fits {tasks pending : List Entry} (h : tasks.length + pending.length ≤ MAX_PENDING_MAIL) :
    refilled tasks pending = tasks ++ pending := by
  rw [refilled, Nat.sub_eq_zero_of_le (by rwa [List.length_append]), List.drop_zero]

theorem requeue_inv (h : Inv b) {k : Nat} (hk : Timely b (.requeueTasks k)) : Inv (requeueTasks k b) := by
  unfold requeueTasks
  split
  · exact h
  · rename_i tasks hget
    dsimp only
    have hmem := List.mem_of_getElem? hget
    have herased : ∀ ts ∈ b.taken.eraseIdx k, InOrder ts ∧ ∀ e ∈ ts, e.task = true ∧ e ∈ b.accepted :=
      fun ts ht => h.taken ts (mem_of_eraseIdx ht)
    by_cases hopen : b.isOpen = true
    · obtain ⟨hroom, hlater⟩ := hk hopen tasks hget
      have hplaces : ∀ pending, pending = tasks ++ b.pendingMail → ∀ e, e.task = true →
          (places { b with taken := b.taken.eraseIdx k, pendingMail := pending }).count e = b.accepted.count e := by
        rintro _ rfl e he
        have hold := h.tasks hopen e he
        rw [count_places, count_eraseIdx hget] at hold
        rw [count_places]
        simp only [List.count_append]
        omega
      split
      · rename_i hnone
        have hnil : tasks = [] := by simpa [hopen] using hnone
        refine { h with taken := herased, tasks := fun _ => hplaces _ ?_ }
        rw [hnil, List.nil_append]
      · simp only [refilled_fits hroom]
        refine ⟨h.accepted, h.below, ?_, fun e he => ?_, herased, fun _ => hplaces _ rfl⟩
        · exact List.pairwise_append.mpr ⟨(h.taken tasks hmem).1, h.pending, hlater⟩
        · rcases List.mem_append.mp he with he | he
          · exact ((h.taken tasks hmem).2 e he).2
          · exact h.known e he
    · rw [if_pos (by simp [hopen])]
      exact { h with taken := herased, tasks := fun ho => absurd ho hopen }

theorem start_inv (h : Inv b) (k : Nat) : Inv (startTasks k b) := by
  unfold startTasks
  split
  · exact h
  · rename_i tasks hget
    refine ⟨h.accepted, h.below, h.pending, h.known, fun ts ht => h.taken ts (mem_of_eraseIdx ht), fun hopen e he => ?_⟩
    have hold := h.tasks hopen e he
    rw [count_places, count_eraseIdx hget] at hold
    rw [count_places]
    simp only [List.count_append]
    omega

theorem register_inv (h : Inv b) : Inv (register b) := by
  unfold register
  split
  · exact h
  · refine ⟨h.accepted, h.below, h.pending.filter _, fun e he => h.known e (List.mem_filter.mp he).1, h.taken, fun hopen e he => ?_⟩
    have hold := h.tasks hopen e he
    have hkept : (b.pendingMail.filter (·.task)).count e = b.pendingMail.count e := List.count_filter he
    rw [count_places] at hold ⊢
    simp only [hkept]
    exact hold

theorem step_inv (h : Inv b) {e : Ev} (he : Timely b e) : Inv (step b e) := by
  cases e with
  | queueMail mail => exact queueMail_inv h mail
  | takePendingTasks => exact take_inv h
  | requeueTasks k => exact requeue_inv h he
  | startTasks k => exact start_inv h k
  | register => exact register_inv h
  | runEnded => exact { h with }
  | close =>
    exact ⟨h.accepted, h.below, .nil, List.forall_mem_nil _, h.taken, fun ho => absurd ho Bool.false_ne_true⟩

/-- Each accepted task of an open thread waits, is out or was taken by a run, and what waits
    is in the order it was accepted in. -/
structure Kept (b : Box) : Prop where
  somewhere : ∀ e ∈ b.accepted, e.task = true → (places b).count e = 1
  inOrder : InOrder b.pendingMail
  /-- A requeue keeps what it is given. -/
  requeued : ∀ k tasks, b.taken[k]? = some tasks → Timely b (.requeueTasks k) → ∀ e ∈ tasks, e ∈ (requeueTasks k b).pendingMail

theorem Inv.accepted_nodup (h : Inv b) : b.accepted.Nodup :=
  h.accepted.imp fun hlt heq => absurd (congrArg Entry.number heq) (Nat.ne_of_lt hlt)

theorem Inv.kept (h : Inv b) (hopen : b.isOpen = true) : Kept b := by
  refine ⟨fun e he htask => ?_, h.pending, fun k tasks hget hk e he => ?_⟩
  · rw [h.tasks hopen e htask]
    exact List.count_eq_one_of_mem h.accepted_nodup he
  · obtain ⟨hroom, -⟩ := hk hopen tasks hget
    have hne : tasks.isEmpty = false := List.isEmpty_eq_false_iff.mpr (List.ne_nil_of_mem he)
    simp only [requeueTasks, hget, hopen, hne, Bool.not_true, Bool.or_self, Bool.false_eq_true, if_false, refilled_fits hroom]
    exact List.mem_append_left _ he

theorem inv_of_reach (h : Reach step Timely {} b) : Inv b := h.invariant inv_new fun _ _ hb he => step_inv hb he

/-- In a run whose requeues fit and are in time, no task is lost while the thread is open. -/
theorem tasks_kept (h : Reach step Timely {} b) (hopen : b.isOpen = true) : Kept b := (inv_of_reach h).kept hopen

/-! ## What does not fit -/

/-- After a run whose requeues were in time, requeueing keeps its tasks and the order exactly
    if they fit and what waits is later. -/
theorem requeue_keeps_iff (hrun : Reach step Timely {} b) (hopen : b.isOpen = true) {k : Nat}
    {tasks : List Entry} (hget : b.taken[k]? = some tasks) (hne : tasks ≠ []) :
    ((∀ e ∈ tasks, e ∈ (requeueTasks k b).pendingMail) ∧ InOrder (requeueTasks k b).pendingMail) ↔ Fits b tasks := by
  have h := inv_of_reach hrun
  have hmem := List.mem_of_getElem? hget
  have hpending : (requeueTasks k b).pendingMail = refilled tasks b.pendingMail := by
    have hsome : tasks.isEmpty = false := List.isEmpty_eq_false_iff.mpr hne
    simp only [requeueTasks, hget, hopen, hsome, Bool.not_true, Bool.or_self, Bool.false_eq_true, if_false]
  rw [hpending]
  constructor
  · rintro ⟨hkept, horder⟩
    have hroom : tasks.length + b.pendingMail.length ≤ MAX_PENDING_MAIL := by
      by_contra hfull
      -- the first task is cut off, and it is nowhere else in the mailbox
      obtain ⟨first, rest, rfl⟩ := List.exists_cons_of_ne_nil hne
      have hfirst := hkept first List.mem_cons_self
      have hcut : first ∈ (first :: rest ++ b.pendingMail).drop 1 := by
        rw [refilled] at hfirst
        refine (List.drop_subset_drop_left _ ?_) hfirst
        simp only [List.length_append, List.length_cons] at hfull ⊢
        omega
      have hwaits : first ∈ b.pendingMail := by
        rcases List.mem_append.mp hcut with hrest | hwaits
        · exact absurd ((List.pairwise_cons.mp (h.taken _ hmem).1).1 first hrest) (Nat.lt_irrefl _)
        · exact hwaits
      have hplaces := h.tasks hopen first ((h.taken _ hmem).2 first List.mem_cons_self).1
      have honce := List.nodup_iff_count_le_one.mp h.accepted_nodup first
      have hone := List.count_pos_iff.mpr hwaits
      have htwo := List.count_pos_iff.mpr (List.mem_flatten_of_mem hmem List.mem_cons_self)
      rw [count_places] at hplaces
      omega
    refine ⟨hroom, ?_⟩
    rw [refilled_fits hroom] at horder
    exact (List.pairwise_append.mp horder).2.2
  · rintro ⟨hroom, hlater⟩
    rw [refilled_fits hroom]
    exact ⟨fun e he => List.mem_append_left _ he, List.pairwise_append.mpr ⟨(h.taken tasks hmem).1, h.pending, hlater⟩⟩

namespace Sample

def task : Mail := { text := "task".toList, task := true }
def note : Mail := { text := "note".toList }

/-- The task is out and a message waits, and what the registry has of it. -/
def out : Box := [Ev.queueMail task, .takePendingTasks, .queueMail note].foldl step {}

def thread : Thread := { threadId := 1, parent := "cli:1", createdAt := 0, pendingMail := [note] }

def registry : Mem := ⟨[thread], [], []⟩

theorem registry_refines_out : Matches 1 (Registry.takePendingTasks registry 1) out (takePendingTasks out) ∧
    Matches 1 (Registry.requeueTasks registry 1 [task]) out (requeueTasks 0 out) := by
  have hfound : findThread registry.threads 1 = some thread := rfl
  obtain ⟨-, htake, hrequeue⟩ := registry_refines (b := out) hfound ⟨rfl, rfl, rfl⟩
  exact ⟨htake, hrequeue 0 [⟨0, task⟩] rfl⟩

theorem requeue_keeps_out : ((∀ e ∈ [Entry.mk 0 task], e ∈ (requeueTasks 0 out).pendingMail) ∧
    InOrder (requeueTasks 0 out).pendingMail) ↔ Fits out [⟨0, task⟩] := by
  have hout : Reach step Timely {} out := Reach.foldl _ _ .start ⟨trivial, trivial, trivial, trivial⟩
  exact requeue_keeps_iff hout rfl rfl (by decide)

/-- Given, taken, and kept again in front of a message that came later. -/
def keptAgain : List Ev := [.queueMail task, .takePendingTasks, .queueMail note, .requeueTasks 0]

theorem keptAgain_kept : Kept (keptAgain.foldl step {}) := by
  refine tasks_kept (Reach.foldl keptAgain _ .start ?_) (by decide)
  refine ⟨trivial, trivial, trivial, ?_, trivial⟩
  rintro - tasks htasks
  cases htasks
  decide

def filledUp : List Ev := [Ev.queueMail task, .takePendingTasks] ++ List.replicate 32 (Ev.queueMail note) ++ [Ev.requeueTasks 0]

def overtaken : List Ev := [.queueMail note, .queueMail task, .takePendingTasks, .requeueTasks 0]

set_option maxRecDepth 8000 in
/-- A full mailbox drops the task, and a task requeued overtakes an older message. -/
theorem task_dropped_and_message_overtaken :
    ((filledUp.foldl step {}).isOpen = true ∧ ⟨0, task⟩ ∈ (filledUp.foldl step {}).accepted ∧
      ⟨0, task⟩ ∉ places (filledUp.foldl step {})) ∧
    ¬ InOrder (overtaken.foldl step {}).pendingMail := by
  decide

end Sample

end Flowly.Agent.KeptTasks
