/-
  Flowly.Agent.RegistryFiles — the two files of the subagent registry, and what its
  operations write (`flowly/agent/subagent_registry.py`: `_read_locked`, `_write_locked`,
  `register`, `take_pending_tasks`, `requeue_tasks`, `close_thread`, `queue_mail`,
  `forget_parent`).

  Beside `Flowly.Agent.Registry` the records carry their revision and the files their
  bytes: threads.json is replaced only if its bytes differ from those that were read,
  runs.json always. A replacement fails before `os.replace`, or after it, at the
  directory's `fsync` (`Fault`). The operation then reads the files again, at `later`,
  and raises.

  Every operation moves the revision of a thread it changes, and reading takes none back:
  what it writes is then not what the file holds (`rewrites_of_moved`). `Writes` says this
  of each.
-/

import Flowly.Agent.Registry
import Flowly.Lib.Attempt
import Mathlib.Data.List.ReduceOption

namespace Flowly.Agent.RegistryFiles

open Flowly.Lib Flowly.Lib.Attempt Flowly.Lib.Keyed
open Flowly.Agent.Registry (Id Run Thread Mail keepsRun findRun findThread closeOutRun lastActive expired
  waiting THREAD_IDLE_CLOSE_SECONDS MAX_PENDING_MAIL)

/-- `SubagentRunRecord`, with what tells a client that it changed. -/
structure RunRecord where
  run : Run
  createdAt : Nat := 0
  revision : Nat := 0
  updatedAt : Option Nat := none

/-- `SubagentThreadRecord`. -/
structure ThreadRecord where
  thread : Thread
  revision : Nat := 0
  updatedAt : Option Nat := none
  deriving DecidableEq

def ThreadRecord.touch (th : ThreadRecord) (time : Option Nat) (f : Thread → Thread) : ThreadRecord :=
  { thread := f th.thread, revision := th.revision + 1, updatedAt := time }

/-! ## Files -/

/-- A file's bytes: its records, `none` for one that does not decode, and whether
    `json.dumps` writes them so. -/
structure Bytes (α : Type) where
  items : List (Option α)
  dumped : Bool := true
  deriving DecidableEq

inductive File (α : Type) where
  | absent
  /-- It cannot be read, or is no list. -/
  | unreadable
  | holds (bytes : Bytes α)
  deriving DecidableEq

def dump {α : Type} (records : List α) : Bytes α := { items := records.map some }

def File.bytes {α : Type} : File α → Option (Bytes α)
  | .holds bytes => some bytes
  | .absent | .unreadable => none

/-- The records that decode, in the order of the file. -/
def File.records {α : Type} (file : File α) : List α := (file.bytes.map (·.items.reduceOption)).getD []

structure Mem where
  runs : List RunRecord
  threads : List ThreadRecord
  /-- `_threads_unavailable` -/
  unavailable : Bool := false
  /-- `_threads_disk` -/
  threadsDisk : Option (Bytes ThreadRecord) := none

structure World where
  /-- threads.json -/
  threads : File ThreadRecord
  /-- runs.json -/
  runs : File RunRecord
  mem : Mem

inductive FileName where
  | threads
  | runs
  deriving DecidableEq

inductive Error where
  /-- "Invalid subagent registry" -/
  | unreadable
  /-- "Duplicate subagent run ID" -/
  | duplicate
  /-- "Invalid subagent thread" -/
  | invalidThread
  /-- "This subagent's thread cannot take a new run" -/
  | cannotTake
  /-- `ThreadCapReached` -/
  | capReached (openThreads : Nat)
  /-- A replacement in `_write_locked`. -/
  | replacement (file : FileName)

/-! ## Reading -/

def settleActive (runs : List Run) (th : ThreadRecord) : ThreadRecord :=
  match th.thread.activeRunId with
  | none => th
  | some id =>
    match findRun runs id with
    | none => { th with thread := { th.thread with activeRunId := none } }
    | some run => if run.endedAt.isSome then th.touch run.endedAt (closeOutRun · run) else th

def closeIdle (now : Nat) (th : ThreadRecord) : ThreadRecord :=
  if th.thread.isOpen && th.thread.activeRunId.isNone && lastActive th.thread + THREAD_IDLE_CLOSE_SECONDS ≤ now then
    th.touch (some (lastActive th.thread + THREAD_IDLE_CLOSE_SECONDS)) (Registry.closeIdle now)
  else th

def refresh (runs : List Run) (now : Nat) (th : ThreadRecord) : ThreadRecord := closeIdle now (settleActive runs th)

def keptRuns (now : Nat) (w : World) : List RunRecord :=
  (dictOf (·.run.runId) w.runs.records).filter (keepsRun now ·.run)

def plainRuns (now : Nat) (w : World) : List Run := (keptRuns now w).map (·.run)

/-- `_read_threads_locked`. -/
def keptThreads (now : Nat) (w : World) : List ThreadRecord :=
  ((dictOf (·.thread.threadId) w.threads.records).map (refresh (plainRuns now w) now)).filter
    fun th => !expired now th.thread || waiting (plainRuns now w) th.thread

/-- `_read_locked`: what is in memory after it; `none` raises. -/
def loaded (now : Nat) (w : World) : Option Mem :=
  match w.runs, w.threads with
  | .unreadable, _ => none
  | _, .unreadable => some { runs := keptRuns now w, threads := [], unavailable := true }
  | _, file => some { runs := keptRuns now w, threads := keptThreads now w, threadsDisk := file.bytes }

def readLocked (now : Nat) : Attempt Error World Unit := do
  match loaded now (← get) with
  | none => throw .unreadable
  | some mem => modify fun w => { w with mem }

/-! ## Writing -/

/-- Where a replacement fails. -/
structure Fault where
  file : FileName
  /-- After `os.replace`: the directory's `fsync` raises. -/
  replaced : Bool := false

def atomicWrite (fault : Option Fault) (file : FileName) (replace : World → World) : Attempt Error World Unit := do
  match fault with
  | some f =>
    if f.file = file then
      if f.replaced then modify replace
      throw (.replacement file)
    else modify replace
  | none => modify replace

def Mem.rewrites (m : Mem) : Bool :=
  !m.unavailable && (m.threadsDisk ≠ some (dump m.threads)) && (m.threads ≠ [] || m.threadsDisk.isSome)

def replaceThreads (w : World) : World := { w with threads := .holds (dump w.mem.threads) }

def replaceRuns (w : World) : World := { w with runs := .holds (dump w.mem.runs) }

def writeLocked (fault : Option Fault) : Attempt Error World Unit := do
  if (← get).mem.rewrites then
    atomicWrite fault .threads replaceThreads
    modify fun w => { w with mem.threadsDisk := some (dump w.mem.threads) }
  atomicWrite fault .runs replaceRuns

/-! ## Operations -/

inductive Reply where
  /-- `register`: the threads closed to make room. -/
  | evicted (threads : List ThreadRecord)
  | tasks (tasks : List Mail)
  | requeued
  | closed (thread : Option ThreadRecord)
  /-- `queue_mail`: the thread, or why not. -/
  | mail (thread : Option ThreadRecord) (why : String)
  /-- `forget_parent`. -/
  | forgotten (threads : List Id)

/-- What an operation does with what it read, up to `_write_locked`. -/
inductive Decision where
  | returns (reply : Reply)
  | raises (e : Error)
  | writes (mem : Mem) (reply : Reply)

def Mem.find (m : Mem) (id : Id) : Option ThreadRecord := m.threads.find? (·.thread.threadId = id)

def Mem.modify (m : Mem) (id : Id) (time : Option Nat) (f : Thread → Thread) : Mem :=
  { m with threads := m.threads.map fun th => if th.thread.threadId = id then th.touch time f else th }

def ThreadRecord.close (now : Nat) (th : ThreadRecord) : ThreadRecord :=
  th.touch (some now) fun th => { th with isOpen := false, closedAt := some now, pendingMail := [] }

/-- `_close_locked` of the threads with `p`: the revisions of their runs move with them. -/
def closeLocked (m : Mem) (p : Thread → Bool) (now : Nat) : Mem :=
  let moved := (m.threads.filter fun th => p th.thread).flatMap (·.thread.runs)
  { m with
    threads := m.threads.map fun th => if p th.thread then th.close now else th
    runs := m.runs.map fun r =>
      if r.run.runId ∈ moved then { r with revision := r.revision + moved.count r.run.runId, updatedAt := some now }
      else r }

def Mem.openThreads (m : Mem) (parent : String) : List ThreadRecord :=
  m.threads.filter fun th => th.thread.parent = parent ∧ th.thread.isOpen

def Mem.idle (m : Mem) (parent : String) : List ThreadRecord :=
  ((m.openThreads parent).filter (·.thread.activeRunId.isNone)).mergeSort
    fun a b => lastActive a.thread ≤ lastActive b.thread

/-- `_make_room_locked`, and the threads it closed. -/
def makeRoom (m : Mem) (parent : String) (cap : Nat) (now : Nat) : Except Error (Mem × List ThreadRecord) :=
  let openThreads := m.openThreads parent
  if openThreads.length < cap then .ok (m, [])
  else
    let idle := m.idle parent
    let excess := openThreads.length - cap + 1
    if idle.length < excess then .error (.capReached openThreads.length)
    else
      let evicted := idle.take excess
      .ok (closeLocked m (fun th => th.threadId ∈ evicted.map (·.thread.threadId)) now, evicted.map (·.close now))

/-- The record as `register` keeps it. -/
def RunRecord.registered (r : RunRecord) : RunRecord := { r with revision := 1, updatedAt := some r.createdAt }

def ThreadRecord.started (th : ThreadRecord) (r : RunRecord) : ThreadRecord :=
  { thread := { th.thread with runs := [r.run.runId], activeRunId := some r.run.runId }
    revision := 1
    updatedAt := some r.createdAt }

def roomFor (m : Mem) (th : ThreadRecord) (openCap : Option Nat) (now : Nat) : Except Error (Mem × List ThreadRecord) :=
  match openCap with
  | none => .ok (m, [])
  | some cap => makeRoom m th.thread.parent cap now

/-- `register` with a new thread. -/
def registerNew (m : Mem) (record : RunRecord) (th : ThreadRecord) (openCap : Option Nat) (now : Nat) : Decision :=
  if (m.find th.thread.threadId).isSome ∨ some th.thread.threadId ≠ record.run.threadId then .raises .invalidThread
  else
    match roomFor m th openCap now with
    | .error e => .raises e
    | .ok (m, evicted) => .writes
        { m with threads := m.threads ++ [th.started record], runs := m.runs ++ [record.registered] } (.evicted evicted)

/-- `register` without one: a run of its own, or a thread's next. -/
def registerNext (m : Mem) (record : RunRecord) : Decision :=
  match record.run.threadId with
  | none => .writes { m with runs := m.runs ++ [record.registered] } (.evicted [])
  | some id =>
    match m.find id with
    | none => .raises .cannotTake
    | some existing =>
      if !existing.thread.isOpen || existing.thread.activeRunId.isSome then .raises .cannotTake
      else
        let messages : List Mail := existing.thread.pendingMail.filter (!·.task)
        let turn := { record with
          run.turn := existing.thread.runs.length + 1
          run.notes := record.run.notes ++ messages.map Mail.text }
        let m := m.modify id (some record.createdAt) fun th =>
          { th with
            runs := th.runs ++ [record.run.runId]
            activeRunId := some record.run.runId
            pendingMail := th.pendingMail.filter (·.task) }
        .writes { m with runs := m.runs ++ [turn.registered] } (.evicted [])

def register (m : Mem) (record : RunRecord) (thread : Option ThreadRecord) (openCap : Option Nat) (now : Nat) : Decision :=
  if m.runs.any (·.run.runId = record.run.runId) then .raises .duplicate
  else if m.unavailable then registerNext m { record with run.threadId := none }
  else match thread with
    | some th => registerNew m record th openCap now
    | none => registerNext m record

def takePendingTasks (m : Mem) (id : Id) (now : Nat) : Decision :=
  match m.find id with
  | none => .returns (.tasks [])
  | some th =>
    let tasks := th.thread.pendingMail.filter (·.task)
    if !th.thread.isOpen || th.thread.activeRunId.isSome || tasks.isEmpty then .returns (.tasks [])
    else .writes (m.modify id (some now) fun th => { th with pendingMail := th.pendingMail.filter (!·.task) }) (.tasks tasks)

def requeueTasks (m : Mem) (id : Id) (tasks : List Mail) (now : Nat) : Decision :=
  match m.find id with
  | none => .returns .requeued
  | some th =>
    if !th.thread.isOpen || tasks.isEmpty then .returns .requeued
    else .writes
      (m.modify id (some now) fun th =>
        { th with
          pendingMail := (tasks ++ th.pendingMail).drop ((tasks ++ th.pendingMail).length - MAX_PENDING_MAIL) })
      .requeued

def closeThread (m : Mem) (id : Id) (now : Nat) : Decision :=
  match m.find id with
  | none => .returns (.closed none)
  | some th =>
    if !th.thread.isOpen then .returns (.closed none)
    else .writes (closeLocked m (·.threadId = id) now) (.closed (some (th.close now)))

def queueMail (m : Mem) (id : Id) (mail : Mail) (now : Nat) : Decision :=
  match m.find id with
  | none => .returns (.mail none "unknown")
  | some th =>
    if !th.thread.isOpen then .returns (.mail none "closed")
    else if th.thread.activeRunId.isSome then .returns (.mail none "running")
    else if MAX_PENDING_MAIL ≤ th.thread.pendingMail.length then .returns (.mail none "full")
    else
      let keep := fun th : Thread => { th with pendingMail := th.pendingMail ++ [mail] }
      .writes (m.modify id (some now) keep) (.mail (some (th.touch (some now) keep)) "")

def forgetParent (m : Mem) (parent : String) (now : Nat) : Decision :=
  let owned := m.threads.filter (·.thread.parent = parent)
  let reply := .forgotten (owned.map (·.thread.threadId))
  if owned.isEmpty then .returns reply
  else .writes (closeLocked m (fun th => th.parent = parent && th.isOpen) now) reply

inductive Call where
  | register (record : RunRecord) (thread : Option ThreadRecord) (openCap : Option Nat)
  | takePendingTasks (thread : Id)
  | requeueTasks (thread : Id) (tasks : List Mail)
  | closeThread (thread : Id)
  | queueMail (thread : Id) (mail : Mail)
  | forgetParent (parent : String)

def Call.decision (now : Nat) (m : Mem) : Call → Decision
  | .register record thread openCap => RegistryFiles.register m record thread openCap now
  | .takePendingTasks id => RegistryFiles.takePendingTasks m id now
  | .requeueTasks id tasks => RegistryFiles.requeueTasks m id tasks now
  | .closeThread id => RegistryFiles.closeThread m id now
  | .queueMail id mail => RegistryFiles.queueMail m id mail now
  | .forgetParent parent => RegistryFiles.forgetParent m parent now

/-- A call under the lock; if writing raises, the files are read again, `later`. -/
def perform (now later : Nat) (fault : Option Fault) (c : Call) : Attempt Error World Reply := do
  readLocked now
  match c.decision now (← get).mem with
  | .returns reply => return reply
  | .raises e => throw e
  | .writes mem reply =>
    modify fun w => { w with mem }
    tryCatch (writeLocked fault) fun e => do
      readLocked later
      throw e
    return reply

/-! ## Reading a thread -/

theorem touch_le (th : ThreadRecord) (time : Option Nat) (f : Thread → Thread) : th.revision ≤ (th.touch time f).revision :=
  Nat.le_succ _

theorem settleActive_revision (runs : List Run) (th : ThreadRecord) : th.revision ≤ (settleActive runs th).revision := by
  unfold settleActive
  split
  · exact le_rfl
  · split
    · exact le_rfl
    · split
      · exact touch_le _ _ _
      · exact le_rfl

/-- Reading never takes a revision back. -/
theorem refresh_revision (runs : List Run) (now : Nat) (th : ThreadRecord) :
    th.revision ≤ (refresh runs now th).revision := by
  refine (settleActive_revision runs th).trans ?_
  unfold refresh closeIdle
  split
  · exact touch_le _ _ _
  · exact le_rfl

/-- Reading a thread is what the registry says of it. -/
theorem settleActive_thread (runs : List Run) (th : ThreadRecord) :
    (settleActive runs th).thread = Registry.settleActive runs th.thread := by
  unfold settleActive Registry.settleActive
  cases th.thread.activeRunId with
  | none => rfl
  | some id =>
    dsimp only
    cases findRun runs id with
    | none => rfl
    | some run =>
      dsimp only
      split <;> rfl

theorem closeIdle_thread (now : Nat) (th : ThreadRecord) :
    (closeIdle now th).thread = Registry.closeIdle now th.thread := by
  unfold closeIdle
  split
  · rfl
  · rename_i hidle
    rw [Registry.closeIdle, if_neg hidle]

theorem refresh_thread (runs : List Run) (now : Nat) (th : ThreadRecord) :
    (refresh runs now th).thread = Registry.refresh runs now th.thread := by
  rw [refresh, closeIdle_thread, settleActive_thread, Registry.refresh]

variable {m : Mem} {now : Nat}

theorem loaded_unavailable {w : World} (h : loaded now w = some m) :
    m.unavailable → m.threads = [] := by
  unfold loaded at h
  split at h
  · cases h
  · cases h
    exact fun _ => rfl
  · cases h
    exact fun hu => absurd hu Bool.false_ne_true

structure ReadThreads (now : Nat) (w : World) (m : Mem) : Prop where
  threadsDisk : m.threadsDisk = w.threads.bytes
  threads : ∀ th ∈ m.threads, ∃ old ∈ dictOf (·.thread.threadId) w.threads.records, th = refresh (plainRuns now w) now old
  nodup : (m.threads.map (·.thread.threadId)).Nodup

theorem loaded_threads {w : World} (h : loaded now w = some m) (hu : m.unavailable = false) :
    ReadThreads now w m := by
  unfold loaded at h
  split at h
  · cases h
  · cases h
    cases hu
  · cases h
    refine ⟨rfl, fun th hth => ?_, ?_⟩
    · obtain ⟨old, hold, he⟩ := List.mem_map.1 (List.mem_of_mem_filter hth)
      exact ⟨old, hold, he.symm⟩
    · refine List.Nodup.sublist (List.filter_sublist.map _) ?_
      rw [List.map_map]
      simp only [Function.comp_def, refresh_thread, Registry.refresh_threadId]
      exact nodup_dictOf _

/-! ## The operations -/

def Call.quiet (m : Mem) : Call → Bool
  | .register _ (some th) openCap =>
    m.unavailable || openCap.all fun cap => (m.openThreads th.thread.parent).length < cap
  | .register record none _ => m.unavailable || record.run.threadId.isNone
  | .forgetParent parent => !m.threads.any fun th => th.thread.parent = parent && th.thread.isOpen
  | _ => false

def Call.newThreads (m : Mem) : Call → List ThreadRecord
  | .register record (some th) _ => if m.unavailable then [] else [th.started record]
  | _ => []

def Call.newRuns (m : Mem) : Call → List RunRecord
  | .register record _ _ => [(if m.unavailable then { record with run.threadId := none } else record).registered]
  | _ => []

structure Writes (c : Call) (m mem : Mem) : Prop where
  unavailable : mem.unavailable = m.unavailable
  threadsDisk : mem.threadsDisk = m.threadsDisk
  quiet : c.quiet m → mem.threads = m.threads ++ c.newThreads m ∧ mem.runs = m.runs ++ c.newRuns m
  /-- A record that changes moves its revision. -/
  moved : ¬ c.quiet m → m.unavailable = false ∧ ∃ th ∈ m.threads, ∃ th' ∈ mem.threads,
    th'.thread.threadId = th.thread.threadId ∧ th.revision < th'.revision
  nodup : (m.threads.map (·.thread.threadId)).Nodup → (mem.threads.map (·.thread.threadId)).Nodup

inductive Decides (c : Call) (m : Mem) : Decision → Prop where
  | returns (reply : Reply) : Decides c m (.returns reply)
  | raises {e : Error} (h : ∀ file, e ≠ .replacement file) : Decides c m (.raises e)
  | writes {mem : Mem} (h : Writes c m mem) (reply : Reply) : Decides c m (.writes mem reply)

variable {th : ThreadRecord}

theorem find_some {id : Id} (h : m.find id = some th) :
    th ∈ m.threads ∧ th.thread.threadId = id :=
  ⟨List.mem_of_find?_eq_some h, by simpa using List.find?_some h⟩

variable {c : Call}

/-- Changing the thread with an id. -/
theorem writes_modify {id : Id} (hc : c.quiet m = false)
    (hu : m.unavailable = false) (h : m.find id = some th) {time : Option Nat} {f : Thread → Thread}
    (hf : ∀ th, (f th).threadId = th.threadId) : Writes c m (m.modify id time f) where
  unavailable := rfl
  threadsDisk := rfl
  quiet hq := by simp [hc] at hq
  moved _ := by
    obtain ⟨hmem, hid⟩ := find_some h
    refine ⟨hu, th, hmem, th.touch time f, List.mem_map.2 ⟨th, hmem, if_pos hid⟩, hf _, Nat.lt_succ_self _⟩
  nodup hn := by
    refine nodup_keys_map hn fun th => ?_
    split
    · exact hf th.thread
    · rfl

theorem makeRoom_error {parent : String} {cap now : Nat} {e : Error} (h : makeRoom m parent cap now = .error e) :
    ∃ n, e = .capReached n := by
  unfold makeRoom at h
  dsimp only at h
  split at h
  · cases h
  · split at h
    · exact ⟨_, by cases h; rfl⟩
    · cases h

theorem Writes.withRuns {m mem : Mem} (h : Writes c m mem) (hc : c.quiet m = false) (runs : List RunRecord) :
    Writes c m { mem with runs } where
  unavailable := h.unavailable
  threadsDisk := h.threadsDisk
  quiet hq := by simp [hc] at hq
  moved := h.moved
  nodup := h.nodup

theorem closeLocked_ids (m : Mem) (p : Thread → Bool) (now : Nat) :
    (closeLocked m p now).threads.map (·.thread.threadId) = m.threads.map (·.thread.threadId) := by
  have hsame : ∀ th : ThreadRecord, (if p th.thread then th.close now else th).thread.threadId = th.thread.threadId :=
    fun th => by split <;> rfl
  rw [closeLocked, List.map_map]
  simp only [Function.comp_def, hsame]

/-- A thread that closes. -/
theorem closeLocked_moved {p : Thread → Bool} (hmem : th ∈ m.threads) (hp : p th.thread)
    (now : Nat) : ∃ th' ∈ (closeLocked m p now).threads,
      th'.thread.threadId = th.thread.threadId ∧ th.revision < th'.revision :=
  ⟨th.close now, List.mem_map.2 ⟨th, hmem, if_pos hp⟩, rfl, Nat.lt_succ_self _⟩

theorem available (hu : m.unavailable → m.threads = []) {id : Id} (h : m.find id = some th) :
    m.unavailable = false := by
  by_contra hne
  have hmem := (find_some h).1
  rw [hu (by simpa using hne)] at hmem
  cases hmem

theorem writes_close {p : Thread → Bool} (hc : c.quiet m = false)
    (hu : m.unavailable = false) (hmem : th ∈ m.threads) (hp : p th.thread) : Writes c m (closeLocked m p now) where
  unavailable := rfl
  threadsDisk := rfl
  quiet hq := by simp [hc] at hq
  moved _ := ⟨hu, th, hmem, closeLocked_moved hmem hp now⟩
  nodup hn := by rwa [closeLocked_ids]

/-- Closing none. -/
theorem closeLocked_none {p : Thread → Bool} (hp : ∀ th ∈ m.threads, p th.thread = false) (now : Nat) :
    (closeLocked m p now).threads = m.threads ∧ (closeLocked m p now).runs = m.runs := by
  have hmoved : (m.threads.filter fun th => p th.thread) = [] := by
    rw [List.filter_eq_nil_iff]
    intro th hth
    simp [hp th hth]
  refine ⟨?_, ?_⟩
  · refine (List.map_congr_left fun th hth => ?_).trans (List.map_id _)
    simp [hp th hth]
  · simp [closeLocked, hmoved]

theorem takePendingTasks_decides (hu : m.unavailable → m.threads = []) (id : Id) (now : Nat) :
    Decides (.takePendingTasks id) m (takePendingTasks m id now) := by
  unfold takePendingTasks
  split
  · exact .returns _
  · rename_i th hfind
    dsimp only
    split
    · exact .returns _
    · refine .writes ?_ _
      exact writes_modify rfl (available hu hfind) hfind fun _ => rfl

theorem requeueTasks_decides (hu : m.unavailable → m.threads = []) (id : Id) (tasks : List Mail) (now : Nat) :
    Decides (.requeueTasks id tasks) m (requeueTasks m id tasks now) := by
  unfold requeueTasks
  split
  · exact .returns _
  · rename_i th hfind
    split
    · exact .returns _
    · refine .writes ?_ _
      exact writes_modify rfl (available hu hfind) hfind fun _ => rfl

theorem queueMail_decides (hu : m.unavailable → m.threads = []) (id : Id) (mail : Mail) (now : Nat) :
    Decides (.queueMail id mail) m (queueMail m id mail now) := by
  unfold queueMail
  split
  · exact .returns _
  · rename_i th hfind
    split
    · exact .returns _
    split
    · exact .returns _
    split
    · exact .returns _
    · refine .writes ?_ _
      exact writes_modify rfl (available hu hfind) hfind fun _ => rfl

theorem closeThread_decides (hu : m.unavailable → m.threads = []) (id : Id) (now : Nat) :
    Decides (.closeThread id) m (closeThread m id now) := by
  unfold closeThread
  split
  · exact .returns _
  · rename_i th hfind
    split
    · exact .returns _
    · obtain ⟨hmem, hid⟩ := find_some hfind
      refine .writes ?_ _
      exact writes_close rfl (available hu hfind) hmem (by simpa using hid)

theorem forgetParent_decides (hu : m.unavailable → m.threads = []) (parent : String) (now : Nat) :
    Decides (.forgetParent parent) m (forgetParent m parent now) := by
  unfold forgetParent
  dsimp only
  split
  · exact .returns _
  · refine .writes ?_ _
    cases hq : (Call.forgetParent parent).quiet m with
    | false =>
      have hopen : m.threads.any fun th => th.thread.parent = parent && th.thread.isOpen := by
        simpa only [Call.quiet, Bool.not_eq_eq_eq_not, Bool.not_false] using hq
      obtain ⟨th, hmem, hp⟩ := List.any_eq_true.1 hopen
      refine writes_close hq ?_ hmem hp
      by_contra hne
      rw [hu (by simpa using hne)] at hmem
      cases hmem
    | true =>
      have hnone : ∀ th ∈ m.threads, (th.thread.parent = parent && th.thread.isOpen) = false := by
        simpa only [Call.quiet, Bool.not_eq_true', List.any_eq_false, Bool.not_eq_true] using hq
      obtain ⟨hthreads, hruns⟩ :=
        closeLocked_none (p := fun th => th.parent = parent && th.isOpen) hnone now
      refine ⟨rfl, rfl, fun _ => ?_, fun h => absurd hq h, fun hn => by rwa [closeLocked_ids]⟩
      rw [hthreads, hruns]
      simp [Call.newThreads, Call.newRuns]

/-- Closing the threads that have to make room, or none. -/
theorem makeRoom_ok {m m' : Mem} {parent : String} {cap now : Nat} {evicted : List ThreadRecord}
    (h : makeRoom m parent cap now = .ok (m', evicted)) :
    (m.openThreads parent).length < cap ∧ m' = m ∨
      ¬ (m.openThreads parent).length < cap ∧ ∃ p, m' = closeLocked m p now ∧ ∃ th ∈ m.threads, p th.thread := by
  unfold makeRoom at h
  dsimp only at h
  split at h
  · rename_i hroom
    cases h
    exact Or.inl ⟨hroom, rfl⟩
  · rename_i hroom
    split at h
    · cases h
    · rename_i hidle
      cases h
      refine Or.inr ⟨hroom, _, rfl, ?_⟩
      obtain ⟨th, hth⟩ : ∃ th, th ∈ (m.idle parent).take ((m.openThreads parent).length - cap + 1) := by
        refine List.exists_mem_of_length_pos ?_
        rw [List.length_take]
        omega
      have hmem : th ∈ m.openThreads parent := List.mem_of_mem_filter (List.mem_mergeSort.1 (List.mem_of_mem_take hth))
      exact ⟨th, List.mem_of_mem_filter hmem, decide_eq_true (List.mem_map.2 ⟨th, hth, rfl⟩)⟩

theorem roomFor_ok {m m' : Mem} {openCap : Option Nat} {evicted : List ThreadRecord}
    (h : roomFor m th openCap now = .ok (m', evicted)) :
    (openCap.all fun cap => (m.openThreads th.thread.parent).length < cap) = true ∧ m' = m ∨
      (openCap.all fun cap => (m.openThreads th.thread.parent).length < cap) = false ∧
        ∃ p, m' = closeLocked m p now ∧ ∃ th ∈ m.threads, p th.thread := by
  cases openCap with
  | none =>
    cases h
    exact Or.inl ⟨rfl, rfl⟩
  | some cap =>
    obtain ⟨hroom, rfl⟩ | ⟨hfull, hclosed⟩ := makeRoom_ok h
    · exact Or.inl ⟨decide_eq_true hroom, rfl⟩
    · exact Or.inr ⟨decide_eq_false hfull, hclosed⟩

/-- A run of its own, or a thread's next: `c` is the call it stands in. -/
theorem registerNext_decides {record : RunRecord} (hthreads : c.newThreads m = [])
    (hruns : record.run.threadId = none → c.quiet m ∧ c.newRuns m = [record.registered])
    (hnext : record.run.threadId ≠ none → c.quiet m = false ∧ m.unavailable = false) :
    Decides c m (registerNext m record) := by
  unfold registerNext
  split
  · rename_i hid
    obtain ⟨hq, hnew⟩ := hruns hid
    refine .writes ?_ _
    refine ⟨rfl, rfl, fun _ => ⟨?_, ?_⟩, fun h => absurd hq h, fun hn => hn⟩
    · rw [hthreads, List.append_nil]
    · rw [hnew]
  · rename_i id hid
    obtain ⟨hq, hu⟩ := hnext (by simp [hid])
    split
    · exact .raises (by simp)
    · rename_i existing hfind
      split
      · exact .raises (by simp)
      · exact .writes ((writes_modify hq hu hfind (by intro _; rfl)).withRuns hq _) _

theorem registerNew_decides (hu : m.unavailable = false) (record : RunRecord) (th : ThreadRecord)
    (openCap : Option Nat) (now : Nat) :
    Decides (.register record (some th) openCap) m (registerNew m record th openCap now) := by
  unfold registerNew
  split
  · exact .raises (by simp)
  · rename_i hnew
    split
    · rename_i e he
      refine .raises fun file => ?_
      cases openCap with
      | none => cases he
      | some cap =>
        obtain ⟨n, rfl⟩ := makeRoom_error he
        simp
    · rename_i m' evicted hroom
      refine .writes ?_ _
      have hid : ∀ old ∈ m.threads, old.thread.threadId ≠ (th.started record).thread.threadId := by
        intro old hold he
        exact hnew (Or.inl (List.find?_isSome.2 ⟨old, hold, decide_eq_true he⟩))
      obtain ⟨hfits, rfl⟩ | ⟨hfull, p, rfl, old, hold, hp⟩ := roomFor_ok hroom
      · have hq : (Call.register record (some th) openCap).quiet m' := by
          rw [Call.quiet, hu, Bool.false_or, hfits]
        refine ⟨rfl, rfl, fun _ => ⟨?_, ?_⟩, fun h => absurd hq h, fun hn => nodup_keys_snoc hn hid⟩
        · simp [Call.newThreads, hu]
        · simp [Call.newRuns, hu]
      · have hq : (Call.register record (some th) openCap).quiet m = false := by
          rw [Call.quiet, hu, Bool.false_or, hfull]
        refine ⟨rfl, rfl, fun h => absurd h (by simp [hq]), fun _ => ?_, fun hn => ?_⟩
        · obtain ⟨th', hth', hmoved⟩ := closeLocked_moved hold hp now
          exact ⟨hu, old, hold, th', List.mem_append_left _ hth', hmoved⟩
        · refine nodup_keys_snoc (by rwa [closeLocked_ids]) fun th' hth' he => ?_
          obtain ⟨old, hold, rfl⟩ := List.mem_map.1 hth'
          refine hid old hold ?_
          rw [← he]
          split <;> rfl

theorem register_decides (record : RunRecord) (thread : Option ThreadRecord) (openCap : Option Nat) (now : Nat) :
    Decides (.register record thread openCap) m (register m record thread openCap now) := by
  unfold register
  split
  · exact .raises (by simp)
  · split
    · rename_i hu
      refine registerNext_decides ?_ (fun _ => ?_) fun h => absurd rfl h
      · cases thread <;> simp [Call.newThreads, hu]
      · cases thread <;> simp [Call.quiet, Call.newRuns, hu]
    · rename_i hu
      rw [Bool.not_eq_true] at hu
      cases thread with
      | some th => exact registerNew_decides hu record th openCap now
      | none =>
        refine registerNext_decides rfl (fun hid => ?_) fun hid => ⟨?_, hu⟩
        · simp [Call.quiet, Call.newRuns, hu, hid]
        · simpa [Call.quiet, hu] using Option.isSome_iff_ne_none.2 hid

theorem decision_decides (hu : m.unavailable → m.threads = []) (c : Call) (now : Nat) :
    Decides c m (c.decision now m) := by
  cases c with
  | register record thread openCap => exact register_decides record thread openCap now
  | takePendingTasks id => exact takePendingTasks_decides hu id now
  | requeueTasks id tasks => exact requeueTasks_decides hu id tasks now
  | closeThread id => exact closeThread_decides hu id now
  | queueMail id mail => exact queueMail_decides hu id mail now
  | forgetParent parent => exact forgetParent_decides hu parent now

/-! ## What is not in the file -/

@[simp] theorem records_dump {α : Type} (xs : List α) : (File.holds (dump xs)).records = xs := by
  simp [File.records, File.bytes, dump, List.reduceOption]

/-- A record whose revision moved is not the one in the file. -/
theorem rewrites_of_moved {w : World} {m mem : Mem} (hm : loaded now w = some m)
    (hw : Writes c m mem) (hq : c.quiet m = false) : mem.rewrites := by
  obtain ⟨hu, th, hth, th', hth', hid, hrev⟩ := hw.moved (by simp [hq])
  have hread := loaded_threads hm hu
  have hn := hw.nodup hread.nodup
  have hdiffer : mem.threadsDisk ≠ some (dump mem.threads) := by
    intro he
    rw [hw.threadsDisk, hread.threadsDisk] at he
    have hfile : w.threads.records = mem.threads := by
      rw [File.records, he]
      exact records_dump mem.threads
    obtain ⟨old, hold, rfl⟩ := hread.threads th hth
    rw [hfile, dictOf_nodup hn] at hold
    have hsame : old.thread.threadId = th'.thread.threadId := by
      rw [hid, refresh_thread, Registry.refresh_threadId]
    rw [List.inj_on_of_nodup_map hn hold hth' hsame] at hrev
    exact absurd hrev (Nat.not_lt.2 (refresh_revision _ now th'))
  have hnonempty : mem.threads ≠ [] := List.ne_nil_of_mem hth'
  simp [Mem.rewrites, hw.unavailable, hu, hdiffer, hnonempty]

theorem rewrites_congr {m mem : Mem} (hu : mem.unavailable = m.unavailable) (hd : mem.threadsDisk = m.threadsDisk) :
    mem.rewrites = { m with threads := mem.threads }.rewrites := by
  simp only [Mem.rewrites, hu, hd]

/-- What is written is not what the file holds. -/
theorem rewrites_differs {w : World} {m mem : Mem} (hm : loaded now w = some m)
    (hw : Writes c m mem) (h : mem.rewrites) : File.holds (dump mem.threads) ≠ w.threads := by
  simp only [Mem.rewrites, Bool.and_eq_true, Bool.not_eq_true', decide_eq_true_eq] at h
  intro he
  refine h.1.2 ?_
  rw [hw.threadsDisk, (loaded_threads hm (hw.unavailable ▸ h.1.1)).threadsDisk, ← he]
  rfl

end Flowly.Agent.RegistryFiles
