/-
  Flowly.Memory.Dreamer — the passes of the dreamer over one store (`flowly/memory/dreamer.py`:
  `_try_acquire_lock`, `_release_lock`, `run`, `commit_candidates`, `_run_inner`, `read_since`;
  `get_meta` and `set_meta` of `flowly/memory/governance.py`).

  A pass is a process of its own, on any thread or machine that has the store. It reads the lock
  and writes it, reads the watermark and the messages after it, asks the extractor, commits the
  candidates one by one, and writes the watermark and the lock. Other passes go on between any
  two of these; a pass may crash at any of them. `commit_candidates` is a pass without messages.

  Messages come into the session index with ids that grow (`AUTOINCREMENT`), and may leave it.
  What the commit of a candidate does to the governed items is `Flowly.Memory.Verified`. Times
  are in microseconds.
-/

import Mathlib.Data.List.Sort

namespace Flowly.Memory.Dreamer

/-- `_LOCK_STALE_SECONDS`. -/
def LOCK_STALE : Int := 1800 * 1000000

/-! ## Messages -/

structure Message where
  id : Nat
  sessionKey : String

def AUTOMATION_PREFIXES : List String := ["heartbeat:", "cron:", "subagent:", "system:", "agenda:"]

/-- `_DELTA_EXCLUDE_SQL`; `LIKE` does not look at the case of letters. -/
def Message.isUser (m : Message) : Bool :=
  let key := m.sessionKey.toList.map Char.toLower
  AUTOMATION_PREFIXES.all (fun p => !p.toList.isPrefixOf key) && !".full".toList.isSuffixOf key

def readSince (messages : List Message) (watermark : Nat) (limit : Option Nat) : List Nat :=
  let ids := ((messages.filter fun m => decide (watermark < m.id) && m.isUser).map (·.id)).insertionSort (· ≤ ·)
  match limit with
  | some n => ids.take n
  | none => ids

/-! ## Passes -/

/-- The lock's text: who wrote it and when. `pass` tells apart those who write the same. -/
structure Held where
  pass : Nat
  owner : String
  since : Int
  deriving DecidableEq

/-- `run` with its `max_messages`, or `commit_candidates` with so many of them. -/
inductive Call where
  | run (maxMessages : Option Nat)
  | commit (candidates : Nat)
  deriving DecidableEq

/-- The messages that a pass of `run` is about: the watermark it read, and their ids. -/
structure Delta where
  watermark : Nat
  ids : List Nat
  deriving DecidableEq

/-- `max(m.id for m in delta)`. -/
def Delta.last (d : Delta) : Nat := d.ids.max?.getD 0

inductive Work where
  | locked (call : Call)
  | started (watermark : Nat) (maxMessages : Option Nat)
  | extracting (delta : Delta)
  | committing (delta : Option Delta) (left : Nat)
  /-- All candidates are committed. -/
  | committed (delta : Delta)
  | leaving
  deriving DecidableEq

inductive Pass where
  /-- It has read the lock, which was free or stale. -/
  | waiting (seen : Option Held) (owner : String) (call : Call)
  | holding (held : Held) (work : Work)

/-- What the extractor answers: candidates, an `ExtractionError`, or another exception. -/
inductive Extracted where
  | candidates (n : Nat)
  | failed
  | raised
  deriving DecidableEq

structure St where
  clock : Int := 0
  lock : Option Held := none
  watermark : Nat := 0
  messages : List Message := []
  /-- The last id of `AUTOINCREMENT`. -/
  lastId : Nat := 0
  passes : Nat → Option Pass := fun _ => none
  nextPass : Nat := 0
  /-- The deltas of which all candidates are committed. -/
  finished : List Delta := []

inductive Step where
  | readWatermark
  | readDelta
  | extract (answer : Extracted)
  | commit (ok : Bool)
  | advance
  | release
  deriving DecidableEq

inductive Op where
  | index (sessionKey : String)
  | unindex (id : Nat)
  /-- A call begins: it reads the lock. -/
  | begin_ (owner : String) (call : Call)
  | lock (pass : Nat)
  | step (pass : Nat) (step : Step)
  | crash (pass : Nat)

structure Event where
  now : Int
  op : Op

namespace St

variable (s : St)

def put (p : Nat) (pass : Option Pass) : St := { s with passes := Function.update s.passes p pass }

def goOn (p : Nat) (held : Held) (work : Work) : St := s.put p (some (.holding held work))

/-- The candidates of a pass are committed one after another; a pass of `run` has its delta done then. -/
def commitLeft (p : Nat) (held : Held) (delta : Option Delta) (left : Nat) : St :=
  if left ≠ 0 then s.goOn p held (.committing delta left)
  else match delta with
    | some d => { s with finished := d :: s.finished }.goOn p held (.committed d)
    | none => s.goOn p held .leaving

/-- `run` and `commit_candidates` between the two writes of the lock. An exception goes on to the release. -/
def work (p : Nat) (held : Held) : Work → Step → St
  | .locked (.run maxMessages), .readWatermark => s.goOn p held (.started s.watermark maxMessages)
  | .locked (.commit n), .readWatermark => s.commitLeft p held none n
  | .started watermark maxMessages, .readDelta =>
    let ids := readSince s.messages watermark maxMessages
    s.goOn p held (if ids = [] then .leaving else .extracting ⟨watermark, ids⟩)
  | .extracting d, .extract (.candidates n) => s.commitLeft p held (some d) n
  | .extracting _, .extract _ => s.goOn p held .leaving
  | .committing delta left, .commit ok => if ok then s.commitLeft p held delta (left - 1) else s.goOn p held .leaving
  | .committed d, .advance => { s with watermark := d.last }.goOn p held .leaving
  | .leaving, .release => { s with lock := none }.put p none
  | _, _ => s

/-- `_try_acquire_lock` as far as it reads; a pass that finds a fresh lock is over. -/
def tryLock (owner : String) (call : Call) : St :=
  let s' := { s with nextPass := s.nextPass + 1 }
  match s.lock with
  | none => s'.put s.nextPass (some (.waiting none owner call))
  | some l => if s.clock - l.since < LOCK_STALE then s' else s'.put s.nextPass (some (.waiting (some l) owner call))

/-- The write of `_try_acquire_lock`. -/
def writeLock (p : Nat) (owner : String) (call : Call) : St :=
  { s with lock := some ⟨p, owner, s.clock⟩ }.goOn p ⟨p, owner, s.clock⟩ (.locked call)

def apply : Op → St
  | .index sessionKey => { s with messages := s.messages ++ [⟨s.lastId + 1, sessionKey⟩], lastId := s.lastId + 1 }
  | .unindex id => { s with messages := s.messages.filter (·.id ≠ id) }
  | .begin_ owner call => s.tryLock owner call
  | .lock p =>
    match s.passes p with
    | some (.waiting _ owner call) => s.writeLock p owner call
    | _ => s
  | .step p step =>
    match s.passes p with
    | some (.holding held work) => s.work p held work step
    | _ => s
  | .crash p => s.put p none

def next (e : Event) : St := { s with clock := e.now }.apply e.op

end St

end Flowly.Memory.Dreamer
