/-
  Flowly.Agent.Registry — the registry of subagent runs and threads
  (`flowly/agent/subagent_registry.py`, `flowly/agent/subagent_threads.py`).

  Every operation holds the file lock: it reads both files, decides, and replaces
  threads.json and then runs.json, each atomically. The process may die in between
  (`Ev.crash`): then the new threads stand beside the old runs. Reading prunes ended
  runs, tells threads whose run is gone or ended that nothing runs, closes idle threads
  and drops those closed long ago; the next write persists what it decided.

  A run and a thread are the fields these decisions read. Ids are drawn by the callers
  (`uuid4`) and never repeat; a thread has the id of its first run.
-/

import Flowly.Lib.Keyed
import Flowly.Lib.Reach
import Flowly.Lib.Text
import Mathlib.Data.List.Sort

namespace Flowly.Agent.Registry

open Flowly.Lib

abbrev Id := Nat

def PRUNE_AFTER_SECONDS : Nat := 30 * 86400
def SYSTEM_PRUNE_AFTER_SECONDS : Nat := 86400
def THREAD_IDLE_CLOSE_SECONDS : Nat := 7 * 86400
def THREAD_RETENTION_SECONDS : Nat := 30 * 86400
def MAX_PENDING_MAIL : Nat := 32

inductive Origin where
  | owner
  | agent
  | system
  deriving DecidableEq

inductive Delivery where
  | pending
  | queued
  | taken
  | delivered
  | undelivered
  | notRequired
  deriving DecidableEq

/-- `_SETTLED_DELIVERY`. -/
def Delivery.settled : Delivery → Bool
  | .notRequired | .delivered | .undelivered => true
  | .pending | .queued | .taken => false

inductive Outcome where
  | ok
  | error
  | timeout
  | cancelled
  | interrupted
  deriving DecidableEq

/-- `SubagentRunRecord`. -/
structure Run where
  runId : Id
  /-- `thread_id`, `none` for "". -/
  threadId : Option Id := none
  turn : Nat := 1
  notes : List Text := []
  endedAt : Option Nat := none
  origin : Origin := .agent
  /-- `cleanup == "delete"`. -/
  cleanupDelete : Bool := false
  announced : Bool := false
  deliveryState : Delivery := .pending
  owner : Nat := 0

/-- An entry of `pending_mail`; `task` is `kind == "task"`. -/
structure Mail where
  text : Text
  task : Bool := false
  deriving DecidableEq

/-- `SubagentThreadRecord`. -/
structure Thread where
  threadId : Id
  parent : String
  isOpen : Bool := true
  createdAt : Nat
  closedAt : Option Nat := none
  runs : List Id := []
  activeRunId : Option Id := none
  lastRunEndedAt : Option Nat := none
  pendingMail : List Mail := []
  deriving DecidableEq

structure Disk where
  /-- threads.json -/
  threads : List Thread
  /-- runs.json -/
  runs : List Run

/-- `_threads` and `_runs` while the lock is held. -/
structure Mem where
  threads : List Thread
  runs : List Run
  /-- Ghost: the threads closed since the files were read. -/
  closings : List Id

/-! ## Reading -/

def retentionSeconds (r : Run) : Nat :=
  if r.origin = .system ∨ r.cleanupDelete then SYSTEM_PRUNE_AFTER_SECONDS else PRUNE_AFTER_SECONDS

def Run.delivered (r : Run) : Bool := r.announced || r.deliveryState.settled

/-- Whether `_read_locked` keeps a run. -/
def keepsRun (now : Nat) (r : Run) : Bool :=
  match r.endedAt with
  | none => true
  | some ended => now ≤ ended + retentionSeconds r || !r.delivered

def findRun (runs : List Run) (id : Id) : Option Run := runs.find? (·.runId = id)

def findThread (threads : List Thread) (id : Id) : Option Thread := threads.find? (·.threadId = id)

/-- `a or b` of two times. -/
def timeOr (a : Option Nat) (b : Nat) : Nat :=
  match a with
  | some time => if time = 0 then b else time
  | none => b

def lastActive (th : Thread) : Nat := timeOr th.lastRunEndedAt th.createdAt

def closeOutRun (th : Thread) (run : Run) : Thread :=
  if th.activeRunId ≠ some run.runId then th
  else { th with activeRunId := none, lastRunEndedAt := run.endedAt }

def settleActive (runs : List Run) (th : Thread) : Thread :=
  match th.activeRunId with
  | none => th
  | some id =>
    match findRun runs id with
    | none => { th with activeRunId := none }
    | some run => if run.endedAt.isSome then closeOutRun th run else th

def closeIdle (now : Nat) (th : Thread) : Thread :=
  if th.isOpen && th.activeRunId.isNone && lastActive th + THREAD_IDLE_CLOSE_SECONDS ≤ now then
    { th with isOpen := false, closedAt := some (lastActive th + THREAD_IDLE_CLOSE_SECONDS), pendingMail := [] }
  else th

def refresh (runs : List Run) (now : Nat) (th : Thread) : Thread := closeIdle now (settleActive runs th)

def expired (now : Nat) (th : Thread) : Bool :=
  !th.isOpen && th.activeRunId.isNone && timeOr th.closedAt th.createdAt + THREAD_RETENTION_SECONDS ≤ now

def waiting (runs : List Run) (th : Thread) : Bool :=
  th.runs.any fun id => match findRun runs id with
    | none => false
    | some run => run.endedAt.isNone || !run.delivered

/-- `_read_locked`, `_read_threads_locked`. -/
def read (now : Nat) (d : Disk) : Mem :=
  let runs := d.runs.filter (keepsRun now)
  { threads := (d.threads.map (refresh runs now)).filter fun th => !expired now th || waiting runs th
    runs := runs
    closings := (d.threads.filter fun th => th.isOpen && !(refresh runs now th).isOpen).map (·.threadId) }

/-- `_write_locked`: threads first. -/
def write (d : Disk) (m : Mem) (crash : Bool) : Disk :=
  { threads := m.threads, runs := if crash then d.runs else m.runs }

/-! ## Operations: `none` writes nothing -/

def modify (m : Mem) (id : Id) (f : Thread → Thread) : Mem :=
  { m with threads := m.threads.map fun th => if th.threadId = id then f th else th }

/-- `_close_locked` of the threads with `p`. -/
def closeThreads (m : Mem) (p : Thread → Bool) (now : Nat) : Mem :=
  { m with
    threads := m.threads.map fun th =>
      if p th then { th with isOpen := false, closedAt := some now, pendingMail := [] } else th
    closings := m.closings ++ (m.threads.filter p).map (·.threadId) }

/-- `none` is `ThreadCapReached`. -/
def makeRoom (m : Mem) (parent : String) (cap : Nat) (now : Nat) : Option Mem :=
  let openThreads := m.threads.filter fun th => th.parent = parent ∧ th.isOpen
  if openThreads.length < cap then some m
  else
    let idle := (openThreads.filter (·.activeRunId.isNone)).mergeSort fun a b => lastActive a ≤ lastActive b
    let excess := openThreads.length - cap + 1
    if idle.length < excess then none
    else some (closeThreads m (fun th => th.threadId ∈ (idle.take excess).map (·.threadId)) now)

def register (m : Mem) (record : Run) (thread : Option Thread) (openCap : Option Nat) (now : Nat) : Option (Mem × Run) :=
  if (findRun m.runs record.runId).isSome then none
  else match thread with
    | some th =>
      if (findThread m.threads th.threadId).isSome ∨ some th.threadId ≠ record.threadId then none
      else
        let th := { th with runs := [record.runId], activeRunId := some record.runId }
        let roomy := match openCap with
          | none => some m
          | some cap => makeRoom m th.parent cap now
        match roomy with
        | none => none
        | some m => some ({ m with threads := m.threads ++ [th], runs := m.runs ++ [record] }, record)
    | none =>
      match record.threadId with
      | none => some ({ m with runs := m.runs ++ [record] }, record)
      | some id =>
        match findThread m.threads id with
        | none => none
        | some existing =>
          if !existing.isOpen || existing.activeRunId.isSome then none
          else
            let record := { record with
              turn := existing.runs.length + 1
              notes := record.notes ++ (existing.pendingMail.filter (!·.task)).map (·.text) }
            let m := modify m id fun th =>
              { th with
                runs := th.runs ++ [record.runId]
                activeRunId := some record.runId
                pendingMail := th.pendingMail.filter (·.task) }
            some ({ m with runs := m.runs ++ [record] }, record)

def takePendingTasks (m : Mem) (id : Id) : Option Mem :=
  match findThread m.threads id with
  | none => none
  | some th =>
    if !th.isOpen || th.activeRunId.isSome || !th.pendingMail.any (·.task) then none
    else some (modify m id fun th => { th with pendingMail := th.pendingMail.filter (!·.task) })

def requeueTasks (m : Mem) (id : Id) (tasks : List Mail) : Option Mem :=
  match findThread m.threads id with
  | none => none
  | some th =>
    if !th.isOpen || tasks.isEmpty then none
    else some (modify m id fun th =>
      { th with
        pendingMail := (tasks ++ th.pendingMail).drop ((tasks ++ th.pendingMail).length - MAX_PENDING_MAIL) })

def closeThread (m : Mem) (id : Id) (now : Nat) : Option Mem :=
  match findThread m.threads id with
  | none => none
  | some th => if !th.isOpen then none else some (closeThreads m (·.threadId = id) now)

def queueMail (m : Mem) (id : Id) (mail : Mail) : Option Mem :=
  match findThread m.threads id with
  | none => none
  | some th =>
    if !th.isOpen || th.activeRunId.isSome || MAX_PENDING_MAIL ≤ th.pendingMail.length then none
    else some (modify m id fun th => { th with pendingMail := th.pendingMail ++ [mail] })

/-- The fields `update` and `claim` are given; `other` is any the model leaves out. -/
structure Changes where
  endedAt : Option Nat := none
  deliveryState : Option Delivery := none
  announced : Option Bool := none
  owner : Option Nat := none
  other : Bool := false
  deriving DecidableEq

def Changes.empty : Changes := {}

def Changes.afterEnd (c : Changes) : Changes := { deliveryState := c.deliveryState, announced := c.announced }

def Changes.apply (c : Changes) (r : Run) : Run :=
  { r with
    endedAt := c.endedAt.orElse fun _ => r.endedAt
    deliveryState := c.deliveryState.getD r.deliveryState
    announced := c.announced.getD r.announced
    owner := c.owner.getD r.owner }

def setRun (m : Mem) (record : Run) : Mem :=
  { m with runs := m.runs.map fun r => if r.runId = record.runId then record else r }

def update (m : Mem) (id : Id) (changes : Changes) : Option Mem :=
  match findRun m.runs id with
  | none => none
  | some record =>
    let changes := if record.endedAt.isSome then changes.afterEnd else changes
    if changes = .empty then none
    else
      let record := changes.apply record
      let m := setRun m record
      match record.endedAt, record.threadId with
      | some _, some t => some (modify m t fun th => closeOutRun th record)
      | _, _ => some m

def finish (m : Mem) (id : Id) (outcome : Outcome) (report : Bool) (now : Nat) : Option Mem :=
  match findRun m.runs id with
  | none => none
  | some record =>
    if record.endedAt.isSome then none
    else
      let delivery := if (outcome = .cancelled ∨ outcome = .interrupted) ∧ !report then .notRequired else record.deliveryState
      update m id { endedAt := some now, deliveryState := some delivery, other := true }

def claim (m : Mem) (id : Id) (owner expectedOwner : Nat) (changes : Changes) : Option Mem :=
  match findRun m.runs id with
  | none => none
  | some record =>
    if record.owner ≠ expectedOwner then none
    else
      let changes := if record.endedAt.isSome then changes.afterEnd else changes
      some (setRun m ({ changes with owner := some owner }.apply record))

def forgetParent (m : Mem) (parent : String) (now : Nat) : Option Mem :=
  if m.threads.any (·.parent = parent) then some (closeThreads m (fun th => th.parent = parent && th.isOpen) now)
  else none

/-! ## The registry over time -/

inductive Op where
  /-- `register` of a new task: of a thread of its own, unless it is system work. -/
  | spawn (parent : String) (origin : Origin) (cleanupDelete : Bool) (deliveryState : Delivery) (openCap : Option Nat)
  /-- `register` of a thread's next task. -/
  | followup (thread : Id) (origin : Origin)
  | update (run : Id) (changes : Changes)
  | finish (run : Id) (outcome : Outcome) (report : Bool)
  | claim (run : Id) (owner expectedOwner : Nat) (changes : Changes)
  | closeThread (thread : Id)
  | queueMail (thread : Id) (mail : Mail)
  | takePendingTasks (thread : Id)
  | requeueTasks (thread : Id) (tasks : List Mail)
  | forgetParent (parent : String)
  | maintain

structure Ev where
  op : Op
  now : Nat
  /-- The process dies between the two replacements. -/
  crash : Bool := false

structure St where
  disk : Disk
  /-- The next run id: `uuid4` never gives one twice. -/
  nextId : Id := 0
  /-- Ghost: the messages `queue_mail` accepted. -/
  accepted : List (Id × Text) := []
  /-- Ghost: the turns `register` gave out, oldest first. -/
  handed : List (Id × Nat) := []
  /-- Ghost: the threads that were ever closed. -/
  closed : List Id := []

def start : St := { disk := ⟨[], []⟩ }

def spawned (id : Id) (parent : String) (origin : Origin) (cleanupDelete : Bool) (deliveryState : Delivery) (now : Nat) :
    Run × Option Thread :=
  let record : Run :=
    { runId := id, origin, cleanupDelete, deliveryState, threadId := if origin = .system then none else some id }
  (record, if origin = .system then none else some { threadId := id, parent, createdAt := now })

/-- What is in memory when the operation writes, and the record it registered. -/
def run (m : Mem) (id : Id) (now : Nat) : Op → Option (Mem × Option Run)
  | .spawn parent origin cleanupDelete deliveryState openCap =>
    let (record, thread) := spawned id parent origin cleanupDelete deliveryState now
    (register m record thread (if thread.isSome then openCap else none) now).map fun (m, r) => (m, some r)
  | .followup thread origin =>
    (register m { runId := id, origin, threadId := some thread } none none now).map fun (m, r) => (m, some r)
  | .update run changes => (update m run changes).map (·, none)
  | .finish run outcome report => (finish m run outcome report now).map (·, none)
  | .claim run owner expectedOwner changes => (claim m run owner expectedOwner changes).map (·, none)
  | .closeThread thread => (closeThread m thread now).map (·, none)
  | .queueMail thread mail => (queueMail m thread mail).map (·, none)
  | .takePendingTasks thread => (takePendingTasks m thread).map (·, none)
  | .requeueTasks thread tasks => (requeueTasks m thread tasks).map (·, none)
  | .forgetParent parent => (forgetParent m parent now).map (·, none)
  | .maintain => some (m, none)

def acceptedBy : Op → List (Id × Text)
  | .queueMail thread mail => if mail.task then [] else [(thread, mail.text)]
  | _ => []

def step (s : St) (e : Ev) : St :=
  match run (read e.now s.disk) s.nextId e.now e.op with
  | none => s
  | some (m, record) =>
    { disk := write s.disk m e.crash
      nextId := s.nextId + 1
      accepted := s.accepted ++ (if e.crash then [] else acceptedBy e.op)
      handed := s.handed ++ (record.bind fun r => r.threadId.map (·, r.turn)).toList
      closed := s.closed ++ m.closings }

/-! ## Lookups -/

theorem findRun_some {runs : List Run} {id : Id} {r : Run} (h : findRun runs id = some r) : r ∈ runs ∧ r.runId = id :=
  ⟨List.mem_of_find?_eq_some h, by simpa using List.find?_some h⟩

theorem findRun_none {runs : List Run} {id : Id} (h : findRun runs id = none) : ∀ r ∈ runs, r.runId ≠ id := by
  simpa [findRun] using h

theorem findRun_mem {runs : List Run} (hn : (runs.map (·.runId)).Nodup) {r : Run} (hr : r ∈ runs) :
    findRun runs r.runId = some r := by
  cases h : findRun runs r.runId with
  | none => exact absurd rfl (findRun_none h r hr)
  | some r' =>
    obtain ⟨hr', hid⟩ := findRun_some h
    rw [List.inj_on_of_nodup_map hn hr' hr hid]

theorem findThread_some {threads : List Thread} {id : Id} {th : Thread} (h : findThread threads id = some th) :
    th ∈ threads ∧ th.threadId = id :=
  ⟨List.mem_of_find?_eq_some h, by simpa using List.find?_some h⟩

theorem findThread_none {threads : List Thread} {id : Id} (h : findThread threads id = none) :
    ∀ th ∈ threads, th.threadId ≠ id := by
  simpa [findThread] using h

/-! ## What an operation that returns has done -/

/-- An operation that registers no run. -/
theorem written_none {written : Option Mem} {m' : Mem} {record : Option Run}
    (h : written.map (·, none) = some (m', record)) : written = some m' ∧ record = none := by
  obtain ⟨m, hm, he⟩ := Option.map_eq_some_iff.mp h
  cases he
  exact ⟨hm, rfl⟩

theorem written_some {written : Option (Mem × Run)} {m' : Mem} {record : Option Run}
    (h : (written.map fun (m, r) => (m, some r)) = some (m', record)) : ∃ r, written = some (m', r) ∧ record = some r := by
  obtain ⟨⟨m, r⟩, hm, he⟩ := Option.map_eq_some_iff.mp h
  cases he
  exact ⟨r, hm, rfl⟩

/-- A task with a thread of its own: idle threads may have made room for it. -/
theorem register_new {m m' : Mem} {record : Run} {th : Thread} {openCap : Option Nat} {now : Nat} {r : Run}
    (h : register m record (some th) openCap now = some (m', r)) :
    (∀ x ∈ m.runs, x.runId ≠ record.runId) ∧ (∀ x ∈ m.threads, x.threadId ≠ th.threadId) ∧
      record.threadId = some th.threadId ∧ r = record ∧
      ∃ roomy, (roomy = m ∨ ∃ cap, makeRoom m th.parent cap now = some roomy) ∧
        m' = { roomy with
          threads := roomy.threads ++ [{ th with runs := [record.runId], activeRunId := some record.runId }]
          runs := roomy.runs ++ [record] } := by
  unfold register at h
  by_cases hrun : (findRun m.runs record.runId).isSome
  · rw [if_pos hrun] at h
    cases h
  rw [if_neg hrun] at h
  have hnewRun : ∀ x ∈ m.runs, x.runId ≠ record.runId := findRun_none (by simpa using hrun)
  by_cases hth : (findThread m.threads th.threadId).isSome ∨ some th.threadId ≠ record.threadId
  · simp only [if_pos hth] at h
    cases h
  simp only [if_neg hth] at h
  rw [not_or, Bool.not_eq_true, Option.isSome_eq_false_iff, Option.isNone_iff_eq_none, not_not] at hth
  refine ⟨hnewRun, findThread_none hth.1, hth.2.symm, ?_⟩
  cases openCap with
  | none =>
    cases h
    exact ⟨rfl, m, Or.inl rfl, rfl⟩
  | some cap =>
    cases hroom : makeRoom m th.parent cap now with
    | none => simp [hroom] at h
    | some roomy =>
      simp only [hroom] at h
      cases h
      exact ⟨rfl, roomy, Or.inr ⟨cap, hroom⟩, rfl⟩

/-- The run of a thread's next task, with the messages that waited for it. -/
def nextTurn (record : Run) (existing : Thread) : Run :=
  { record with
    turn := existing.runs.length + 1
    notes := record.notes ++ (existing.pendingMail.filter (!·.task)).map (·.text) }

/-- A thread whose next task `id` is. -/
def Thread.taking (th : Thread) (id : Id) : Thread :=
  { th with runs := th.runs ++ [id], activeRunId := some id, pendingMail := th.pendingMail.filter (·.task) }

/-- A run of no thread, or the next one of a thread on which nothing runs. -/
theorem register_next {m m' : Mem} {record : Run} {openCap : Option Nat} {now : Nat} {r : Run}
    (h : register m record none openCap now = some (m', r)) :
    (∀ x ∈ m.runs, x.runId ≠ record.runId) ∧
      ((record.threadId = none ∧ r = record ∧ m' = { m with runs := m.runs ++ [record] }) ∨
        ∃ existing, findThread m.threads existing.threadId = some existing ∧ record.threadId = some existing.threadId ∧
          existing.activeRunId = none ∧ r = nextTurn record existing ∧
          m' = { modify m existing.threadId (·.taking record.runId) with runs := m.runs ++ [r] }) := by
  unfold register at h
  by_cases hrun : (findRun m.runs record.runId).isSome
  · rw [if_pos hrun] at h
    cases h
  rw [if_neg hrun] at h
  refine ⟨findRun_none (by simpa using hrun), ?_⟩
  simp only at h
  split at h
  · rename_i hnone
    cases h
    exact Or.inl ⟨hnone, rfl, rfl⟩
  · rename_i id hid
    split at h
    · cases h
    rename_i existing hfind
    obtain ⟨_, rfl⟩ := findThread_some hfind
    by_cases hbusy : (!existing.isOpen || existing.activeRunId.isSome) = true
    · rw [if_pos hbusy] at h
      cases h
    · rw [if_neg hbusy] at h
      cases h
      simp only [Bool.or_eq_true, not_or, Bool.not_eq_true, Option.isSome_eq_false_iff,
        Option.isNone_iff_eq_none] at hbusy
      exact Or.inr ⟨existing, hfind, hid, hbusy.2, rfl, rfl⟩

/-- A record is changed; one that has ended then is closed out of its thread. -/
theorem update_changes {m m' : Mem} {id : Id} {changes : Changes} (h : update m id changes = some m') :
    ∃ old ∈ m.runs, old.runId = id ∧ ∃ c, c = (if old.endedAt.isSome then changes.afterEnd else changes) ∧
      (m' = setRun m (c.apply old) ∨ ∃ ended t, (c.apply old).endedAt = some ended ∧ old.threadId = some t ∧
        m' = modify (setRun m (c.apply old)) t fun th => closeOutRun th (c.apply old)) := by
  unfold update at h
  cases hfind : findRun m.runs id with
  | none => simp [hfind] at h
  | some old =>
    obtain ⟨hold, hid⟩ := findRun_some hfind
    refine ⟨old, hold, hid, _, rfl, ?_⟩
    simp only [hfind] at h
    generalize (if old.endedAt.isSome then changes.afterEnd else changes) = c at h ⊢
    by_cases hempty : c = .empty
    · rw [if_pos hempty] at h
      cases h
    rw [if_neg hempty] at h
    split at h
    · rename_i ended t hended ht
      cases h
      exact Or.inr ⟨ended, t, hended, ht, rfl⟩
    · cases h
      exact Or.inl rfl

theorem claim_changes {m m' : Mem} {id : Id} {owner expectedOwner : Nat} {changes : Changes}
    (h : claim m id owner expectedOwner changes = some m') :
    ∃ old ∈ m.runs, ∃ c : Changes, m' = setRun m (c.apply old) := by
  unfold claim at h
  cases hfind : findRun m.runs id with
  | none => simp [hfind] at h
  | some old =>
    simp only [hfind] at h
    split at h
    · cases h
    · cases h
      exact ⟨old, (findRun_some hfind).1, _, rfl⟩

theorem finish_updates {m m' : Mem} {id : Id} {outcome : Outcome} {report : Bool} {now : Nat}
    (h : finish m id outcome report now = some m') :
    ∃ changes : Changes, changes.endedAt = some now ∧ update m id changes = some m' := by
  unfold finish at h
  split at h
  · cases h
  split at h
  · cases h
  · exact ⟨_, rfl, h⟩

/-! ## What reading keeps of a thread -/

@[simp] theorem closeOutRun_threadId (th : Thread) (r : Run) : (closeOutRun th r).threadId = th.threadId := by
  unfold closeOutRun; split <;> rfl

@[simp] theorem closeOutRun_runs (th : Thread) (r : Run) : (closeOutRun th r).runs = th.runs := by
  unfold closeOutRun; split <;> rfl

@[simp] theorem closeOutRun_isOpen (th : Thread) (r : Run) : (closeOutRun th r).isOpen = th.isOpen := by
  unfold closeOutRun; split <;> rfl

@[simp] theorem closeOutRun_pendingMail (th : Thread) (r : Run) : (closeOutRun th r).pendingMail = th.pendingMail := by
  unfold closeOutRun; split <;> rfl

/-- Settling changes no more than what runs on the thread and when it last did. -/
theorem settleActive_keeps (runs : List Run) (th : Thread) :
    (settleActive runs th).threadId = th.threadId ∧ (settleActive runs th).runs = th.runs ∧
      (settleActive runs th).isOpen = th.isOpen ∧ (settleActive runs th).pendingMail = th.pendingMail := by
  unfold settleActive
  split
  · exact ⟨rfl, rfl, rfl, rfl⟩
  split
  · exact ⟨rfl, rfl, rfl, rfl⟩
  split
  · simp
  · exact ⟨rfl, rfl, rfl, rfl⟩

theorem closeIdle_cases (now : Nat) (th : Thread) :
    closeIdle now th = th ∨ th.isOpen = true ∧ th.activeRunId = none ∧ (closeIdle now th).isOpen = false ∧
      (closeIdle now th).threadId = th.threadId ∧ (closeIdle now th).runs = th.runs ∧ (closeIdle now th).activeRunId = none := by
  unfold closeIdle
  split
  · rename_i h
    simp only [Bool.and_eq_true, Option.isNone_iff_eq_none] at h
    exact Or.inr ⟨h.1.1, h.1.2, rfl, rfl, rfl, h.1.2⟩
  · exact Or.inl rfl

@[simp] theorem refresh_threadId (runs : List Run) (now : Nat) (th : Thread) :
    (refresh runs now th).threadId = th.threadId := by
  unfold refresh
  rcases closeIdle_cases now (settleActive runs th) with h | ⟨_, _, _, h, _⟩
  · rw [h, (settleActive_keeps runs th).1]
  · rw [h, (settleActive_keeps runs th).1]

@[simp] theorem refresh_runs (runs : List Run) (now : Nat) (th : Thread) : (refresh runs now th).runs = th.runs := by
  unfold refresh
  rcases closeIdle_cases now (settleActive runs th) with h | ⟨_, _, _, _, h, _⟩
  · rw [h, (settleActive_keeps runs th).2.1]
  · rw [h, (settleActive_keeps runs th).2.1]

end Flowly.Agent.Registry
