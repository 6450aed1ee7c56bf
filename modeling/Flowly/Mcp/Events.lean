/-
  Flowly.Mcp.Events — the journal of conversation events (`mcp/server/events.py`): what a
  scan of the archive does to its tables, what a poll answers, and the world around it.

  A scan is one step. What another process writes while it runs falls before or after
  the read of its session, or makes the scan pass over the session: `skips` are those.
  The tables are one file, whatever the number of `EventJournal` instances; each brings
  its own `max_events`.
-/

import Flowly.Lib.Assoc
import Flowly.Lib.Text
import Mathlib.Data.List.Sort
import Mathlib.Data.String.Basic

namespace Flowly.Mcp.Events

open Flowly.Lib

/-! ## The archive -/

/-- A message as the public projection has it; `entry` is its number among all messages
    that ever entered the archive, which the program does not keep. -/
structure Message where
  id : String
  text : String
  visible : Bool := true
  entry : Nat
  deriving DecidableEq

/-- The files of a session: `signature` stands for their inodes, times and sizes. -/
structure Session where
  signature : Nat
  messages : List Message := []

def Session.readMessages (s : Session) : List Message := s.messages.filter Message.visible

abbrev Archive := List (String × Session)

/-! ## The tables -/

/-- A row of `events`; without a message it tells that the session was deleted. -/
structure Event where
  id : Nat
  sessionKey : String
  message : Option Message
  deriving DecidableEq

def Event.entry (e : Event) : Option Nat := e.message.map Message.entry

structure Journal where
  generation : String := ""
  baseline : Bool := false
  floor : Nat := 0
  /-- `sqlite_sequence`: the last id given to an event -/
  head : Nat := 0
  sources : List (String × Nat) := []
  seen : List (String × String) := []
  events : List Event := []
  /-- every row that was ever inserted into `events`, which the program does not keep -/
  log : List Event := []

namespace Journal

/-- `INSERT INTO events`. -/
def insert (j : Journal) (key : String) (message : Option Message) : Journal :=
  { j with
    head := j.head + 1
    events := j.events ++ [⟨j.head + 1, key, message⟩]
    log := j.log ++ [⟨j.head + 1, key, message⟩] }

/-- Deleted conversations must not remain readable in retained events. -/
def forget (j : Journal) (key : String) : Journal :=
  insert
    { j with
      events := j.events.filter (·.sessionKey ≠ key)
      seen := j.seen.filter (·.1 ≠ key)
      sources := j.sources.filter (·.1 ≠ key) }
    key none

/-- Entries of `seen` are told apart by their equality test. -/
local instance lawful_seen : LawfulBEq (String × String) := inferInstance

/-- A message of a session that is read: an event where it was not seen before. -/
def note (key : String) (j : Journal) (m : Message) : Journal :=
  if (key, m.id) ∈ j.seen then j
  else
    let j := { j with seen := j.seen ++ [(key, m.id)] }
    if j.baseline then j.insert key (some m) else j

def stays (key : String) (visible : List Message) (e : Event) : Bool :=
  decide (e.sessionKey ≠ key) ||
    match e.message with
    | none => true
    | some m => decide (m.id ∈ visible.map Message.id)

def readSession (j : Journal) (key : String) (s : Session) : Journal :=
  let j := { j with events := j.events.filter (stays key s.readMessages) }
  let j := s.readMessages.foldl (note key) j
  { j with sources := Assoc.put j.sources key s.signature }

def scanSession (archive : Archive) (skips : List String) (j : Journal) (key : String) : Journal :=
  match archive.lookup key with
  | none => j
  | some s =>
    if j.sources.lookup key = some s.signature then j
    -- a concurrent writer: retry a coherent snapshot on the next scan
    else if key ∈ skips then j
    else j.readSession key s

/-- How far back the rows go once there are no more than `max_events` ids of them. -/
def cutoff (j : Journal) (maxEvents : Int) : Nat := j.head - (max 1 maxEvents).toNat

/-- The sessions that were known and are no longer listed; the source takes them in the
    order of a set. -/
def gone (j : Journal) (archive : Archive) : List String :=
  (j.sources.map (·.1)).filter fun key => !archive.any (·.1 = key)

def sync (j : Journal) (archive : Archive) (maxEvents : Int) (skips : List String) : Journal :=
  let j := (j.gone archive).foldl forget j
  let j := ((archive.map (·.1)).insertionSort (· ≤ ·)).foldl (scanSession archive skips) j
  { j with
    baseline := true
    floor := j.cutoff maxEvents
    events := j.events.filter (j.cutoff maxEvents < ·.id) }

end Journal

/-! ## Polls -/

structure Cursor where
  position : Nat
  generation : String
  scope : String
  deriving DecidableEq

/-- `_valid_session_key(key) == key`. -/
def validSessionKey (key : String) : Bool :=
  let value := Text.strip key.toList
  value == key.toList && value ≠ [] && decide (value.length ≤ 512) && decide (Char.ofNat 0 ∉ value)

inductive Reply
  | invalidSessionKey
  | invalidLimit
  | invalidCursor
  | started (next : Cursor)
  | expired (next : Cursor)
  | page (events : List Event) (next : Cursor) (hasMore : Bool)

def inScope (scope key : String) : Bool := scope = "" || key = scope

/-- The rows a poll looks at, in the order of their ids. -/
def Journal.rows (j : Journal) (scope : String) (position : Nat) : List Event :=
  (j.events.filter fun e => decide (position < e.id) && inScope scope e.sessionKey).insertionSort (·.id ≤ ·.id)

def Journal.answer (j : Journal) (after : Option Cursor) (scope : String) (limit : Nat) : Reply :=
  match after with
  | none => .started ⟨j.head, j.generation, scope⟩
  | some c =>
    if c.scope ≠ scope then .invalidCursor
    else if c.generation ≠ j.generation ∨ c.position < j.floor ∨ j.head < c.position then
      .expired ⟨j.head, j.generation, scope⟩
    else
      let rows := j.rows scope c.position
      let selected := rows.take limit
      let hasMore := decide (limit < rows.length)
      let next := if hasMore then (selected.getLast?.map Event.id).getD j.head else j.head
      .page selected ⟨next, j.generation, scope⟩ hasMore

def Journal.poll (j : Journal) (archive : Archive) (maxEvents : Int) (skips : List String) (after : Option Cursor)
    (sessionKey : Option String) (limit : Int) : Reply × Journal :=
  if sessionKey.any (!validSessionKey ·) then (.invalidSessionKey, j)
  else if ¬(1 ≤ limit ∧ limit ≤ 200) then (.invalidLimit, j)
  else
    let j := j.sync archive maxEvents skips
    (j.answer after (sessionKey.getD "") limit.toNat, j)

/-! ## The world -/

/-- A client that follows `next_cursor` with one scope. -/
structure Client where
  sessionKey : Option String
  cursor : Cursor
  /-- the events it was given, in that order -/
  received : List Event := []
  /-- a poll reported `CURSOR_EXPIRED` -/
  expired : Bool := false
  /-- the messages that had entered the archive when it started, which the program does not keep -/
  startEntry : Nat
  deriving DecidableEq

def Client.scope (c : Client) : String := c.sessionKey.getD ""

/-- The client takes what it is answered. -/
def Client.take (c : Client) : Reply → Client
  | .page events next _ => { c with received := c.received ++ events, cursor := next }
  | .expired next => { c with cursor := next, expired := true }
  | _ => c

structure World where
  archive : Archive := []
  nextEntry : Nat := 0
  nextSignature : Nat := 0
  journal : Journal := {}
  client : Option Client := none
  /-- the messages that had entered the archive when the first scan ran -/
  baseEntry : Option Nat := none
  /-- the sessions that were written since a scan last looked at them -/
  dirty : List String := []

/-- What a poll is asked for, by which instance, and the sessions that are written meanwhile. -/
structure Poll where
  maxEvents : Int := 10000
  skips : List String := []
  limit : Int := 20

inductive Step
  /-- new messages, as their ids, texts and whether they are visible -/
  | append (key : String) (new : List (String × String × Bool))
  /-- messages are withdrawn -/
  | withdraw (key : String) (ids : List String)
  /-- the files change and the messages do not: a compaction -/
  | touch (key : String)
  | delete (key : String)
  /-- another client polls -/
  | scan (p : Poll)
  /-- the client starts, without a cursor -/
  | start (p : Poll) (sessionKey : Option String)
  | poll (p : Poll)

namespace World

/-- The messages of a session. -/
def messages (w : World) (key : String) : List Message :=
  match w.archive.lookup key with
  | none => []
  | some s => s.messages

def entering (first : Nat) (new : List (String × String × Bool)) : List Message :=
  new.mapIdx fun i m => { id := m.1, text := m.2.1, visible := m.2.2, entry := first + i }

def write (w : World) (key : String) (messages : List Message) : World :=
  { w with
    archive := Assoc.put w.archive key ⟨w.nextSignature, messages⟩
    nextSignature := w.nextSignature + 1
    dirty := key :: w.dirty }

def scanned (w : World) (skips : List String) (journal : Journal) : World :=
  { w with
    journal
    baseEntry := some (w.baseEntry.getD w.nextEntry)
    dirty := w.dirty.filter (· ∈ skips) }

def next (w : World) : Step → World
  | .append key new => { w.write key (w.messages key ++ entering w.nextEntry new) with nextEntry := w.nextEntry + new.length }
  | .withdraw key ids =>
    if w.archive.any (·.1 = key) then
      w.write key ((w.messages key).map fun m => if m.id ∈ ids then { m with visible := false } else m)
    else w
  | .touch key => if w.archive.any (·.1 = key) then w.write key (w.messages key) else w
  | .delete key => { w with archive := w.archive.filter (·.1 ≠ key), dirty := key :: w.dirty }
  | .scan p => w.scanned p.skips (w.journal.sync w.archive p.maxEvents p.skips)
  | .start p sessionKey =>
    match w.journal.poll w.archive p.maxEvents p.skips none sessionKey p.limit with
    | (.started cursor, j) => { w.scanned p.skips j with client := some { sessionKey, cursor, startEntry := w.nextEntry } }
    | _ => w
  | .poll p =>
    match w.client with
    | none => w
    | some c =>
      match w.journal.poll w.archive p.maxEvents p.skips (some c.cursor) c.sessionKey p.limit with
      | (.invalidSessionKey, _) | (.invalidLimit, _) => w
      | (reply, j) => { w.scanned p.skips j with client := some (c.take reply) }

end World

end Flowly.Mcp.Events
