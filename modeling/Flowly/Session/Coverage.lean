/-
  Flowly.Session.Coverage — which events of a conversation a summary stands for, across
  process deaths (`flowly/session/manager.py`: `_reconcile_archive_identities`,
  `_flush_full_unlocked`, `transition_archive_events`, `prepare_compaction_archive`,
  `finalize_compaction_archive`, `_withdraw_removed_active_events`, `_save_unlocked`,
  `compaction_commit_guard`, `mutate`, `context_coverage`; `flowly/agent/loop.py`:
  `_commit_compaction_locked`; `flowly/agent/subagent_threads.py`: `persist_context`;
  `flowly/session/archive.py`: `match_kept_events`, `build_coverage_manifest`).

  The disk is the archive log and the canonical file. An operation is a sequence of
  writes to them, and a process may die after any of them: the next one loads the file
  and reconciles it with the log.

  One manager has the session, so the revision check and the fence always pass. The
  display seam (`append_context_boundary`) is left out: no snapshot counts its row.

  Proved: in a run in which no reload of a file with a summary finds an event in a
  context that only the log has, what is counted as summarized was a source message of
  a compaction that was swapped in (`summarized_was_source`). The reload's migration for
  older builds is not run once: it takes a message whose save died between the two
  files for a summarized one (`reload_counts_a_lost_message`).
-/

import Flowly.Lib.Durable
import Flowly.Lib.Reach
import Flowly.Session.Archive
import Mathlib.Data.List.Sort

namespace Flowly.Session.Coverage

open Flowly.Lib Flowly.Lib.Durable
open Flowly.Compaction (Content Role)

/-- What the row of an event says besides, fixed with its id. -/
structure Stamp where
  /-- `_event_seq`. -/
  sequence : Nat
  timestamp : Option Nat

/-- A message of a session. Only one written as an extra line has no identity. -/
structure Stored where
  id : Option Nat := none
  /-- `_archive_state`. -/
  state : Option ArchiveState := none
  transaction : Option Nat := none
  timestamp : Option Nat := none
  /-- `_compaction_summary`. -/
  summaryFlag : Bool := false
  message : Message

/-- `coverage_descriptor`; the ids stand for their digest. -/
structure Covers where
  eventIds : List Nat
  startSequence : Nat
  endSequence : Nat

structure Metadata where
  /-- `_full_log_count`. -/
  fullLogCount : Option Nat := none
  /-- `_pending_archive_transaction`. -/
  pendingTransaction : Option Nat := none
  /-- `last_compaction_summary`, empty when there is none. -/
  lastSummary : Text := []
  /-- `last_compaction_coverage`. -/
  lastCoverage : Option Covers := none

/-- A `Session` object, or what the canonical file has of one. -/
structure Obj where
  messages : List Stored := []
  metadata : Metadata := {}

structure Disk where
  log : List Row := []
  /-- The canonical file. -/
  file : Option Obj := none
  /-- The next event or transaction id: none is given twice. -/
  fresh : Nat := 1
  /-- Ghost: the source messages of every compaction whose canonical swap completed. -/
  swapped : List Nat := []

/-! ## Identities -/

def newId : Durable Disk Nat := do
  let d ← read
  modify fun d => { d with fresh := d.fresh + 1 }
  pure d.fresh

def ensureEventIdentity (m : Stored) : Durable Disk Stored := do
  let state := some (m.state.getD (initialState m.message))
  match m.id with
  | some _ => pure { m with state }
  | none =>
    let i ← newId
    pure { m with id := some i, state }

def backfill (m : Stored) : Durable Disk Stored := if m.id.isSome then pure m else ensureEventIdentity m

def ensureEventIdentities : List Stored → Durable Disk (List Stored)
  | [] => pure []
  | m :: ms => do
    let m ← backfill m
    let ms ← ensureEventIdentities ms
    pure (m :: ms)

def workingIds (messages : List Stored) : List Nat := messages.filterMap (·.id)

def Stored.row (m : Stored) : Row :=
  .message { id := m.id.getD 0, state := m.state.getD (initialState m.message), transaction := m.transaction,
             message := m.message }

def appendRows (rows : List Row) : Durable Disk Unit :=
  if rows = [] then pure () else write fun d => { d with log := d.log ++ rows }

/-! ## Saving -/

def activeOutside (log : List Row) (messages : List Stored) : List Nat :=
  ((snapshotFromRows log).events.filter fun ev =>
    (ev.state = .active ∨ ev.state = .internalHidden) ∧ ev.entry.id ∉ workingIds messages).map (·.entry.id)

def transitionArchiveEvents (s : Obj) (ids : List Nat) (state : ArchiveState) (transaction : Option Nat) :
    Durable Disk Obj := do
  if ids = [] then pure s
  else
    appendRows [.transition ids state transaction]
    pure { s with messages := s.messages.map fun m => if (m.id.any (· ∈ ids)) then { m with state := some state } else m }

def withdrawRemovedActiveEvents (s : Obj) : Durable Disk Obj := do
  let d ← read
  transitionArchiveEvents s (activeOutside d.log s.messages) .withdrawn none

def flushFull (s : Obj) : Durable Disk Obj := do
  let messages ← ensureEventIdentities s.messages
  let mark := s.metadata.fullLogCount.getD 0
  let s : Obj := { messages, metadata := { s.metadata with fullLogCount := some messages.length } }
  if messages.length ≤ mark then pure s
  else
    appendRows ((messages.drop mark).map Stored.row)
    pure s

def withdrawUnlessPending (s : Obj) : Durable Disk Obj :=
  if s.metadata.pendingTransaction.isSome then pure s else withdrawRemovedActiveEvents s

/-- `_save_unlocked`; `sources` is ghost: the source messages of the compaction this save swaps in. -/
def saveUnlocked (s : Obj) (extra : List Stored) (sources : List Nat) : Durable Disk Obj := do
  let messages ← ensureEventIdentities s.messages
  let s ← withdrawUnlessPending { s with messages }
  let s ← flushFull s
  write fun d => { d with file := some { s with messages := s.messages ++ extra }, swapped := d.swapped ++ sources }
  pure s

/-! ## Loading -/

/-- What `message_fingerprint` digests. -/
structure Fingerprint where
  role : Role
  content : Content
  timestamp : Option Nat
  toolCallId : IdValue
  name : Option String
  toolCalls : List ToolCall
  deriving DecidableEq

def messageFingerprint (timestamp : Option Nat) (m : Message) : Fingerprint :=
  { role := m.role, content := m.content, timestamp, toolCallId := m.toolCallId, name := m.name, toolCalls := m.toolCalls }

section
variable (stamp : Nat → Stamp)

def inOrder (events : List ArchiveEvent) : List ArchiveEvent :=
  events.insertionSort fun a b =>
    (stamp a.entry.id).sequence < (stamp b.entry.id).sequence ∨
      ((stamp a.entry.id).sequence = (stamp b.entry.id).sequence ∧ a.entry.id ≤ b.entry.id)

def coverageDescriptor (events : List ArchiveEvent) : Covers :=
  let ordered := (inOrder stamp events).map (·.entry.id)
  { eventIds := ordered
    startSequence := (ordered.head?.map fun i => (stamp i).sequence).getD 0
    endSequence := (ordered.getLast?.map fun i => (stamp i).sequence).getD 0 }

/-- A message without an identity takes that of an event it is a copy of, else a new one. -/
def identify (events : List ArchiveEvent) (consumed : List Nat) (m : Stored) : Durable Disk Stored :=
  match m.id with
  | some _ => pure m
  | none =>
    match events.find? fun ev =>
        messageFingerprint (stamp ev.entry.id).timestamp ev.entry.message == messageFingerprint m.timestamp m.message &&
          ev.entry.id ∉ consumed with
    | some ev => pure { m with id := some ev.entry.id, state := some ev.state }
    | none => ensureEventIdentity m

def hydrate (events : List ArchiveEvent) : List Nat → List Stored → Durable Disk (List Stored)
  | _, [] => pure []
  | consumed, m :: ms => do
    let m ← identify stamp events consumed m
    let ms ← hydrate events (consumed ++ m.id.toList) ms
    pure (m :: ms)

/-- `is_summary_message`. -/
def Stored.isSummary (m : Stored) : Bool :=
  Compaction.isSummaryMessage { role := m.message.role, content := m.message.content, summaryFlag := m.summaryFlag }

def markSummary : List Stored → List Stored
  | [] => []
  | m :: ms =>
    if m.isSummary then { m with message := { m.message with archiveSummary := true, displayHidden := true } } :: ms
    else m :: markSummary ms

def finalizeCompactionArchive (s : Obj) (transaction : Nat) : Durable Disk Obj := do
  let d ← read
  appendRows (if .commit transaction ∈ d.log then [] else [.commit transaction])
  pure { s with metadata := { s.metadata with pendingTransaction := none } }

/-- The canonical swap of a compaction completed, and the process died before its commit row. -/
def finishPending (s : Obj) : Durable Disk Obj :=
  match s.metadata.pendingTransaction with
  | none => pure s
  | some t => finalizeCompactionArchive s t

/-- The "one-time append-only migration for sessions compacted by an older build". -/
def migrate (s : Obj) : Durable Disk Obj := do
  let d ← read
  let missing := activeOutside d.log s.messages
  appendRows (if missing = [] then [] else [.transition missing .compacted none])
  let d ← read
  let compacted := (snapshotFromRows d.log).events.filter (·.state = .compacted)
  pure
    { messages := markSummary s.messages
      metadata := { s.metadata with lastCoverage := some (coverageDescriptor stamp compacted) } }

def reconcileArchiveIdentities (s : Obj) : Durable Disk Obj := do
  let s ← finishPending s
  let d ← read
  let events := inOrder stamp (snapshotFromRows d.log).events
  let messages ← hydrate stamp events [] s.messages
  if events = [] then pure { s with messages }
  else
    let s : Obj :=
      { messages, metadata := { s.metadata with fullLogCount := some (s.metadata.fullLogCount.getD messages.length) } }
    if s.metadata.lastSummary = [] then pure s else migrate stamp s

def getOrCreate : Durable Disk Obj := do
  let d ← read
  reconcileArchiveIdentities stamp (d.file.getD {})

/-! ## A compaction commit -/

def callIds (m : Message) : List String :=
  (m.toolCalls.filter (·.isDict)).map toolCallId

def messagesEquivalent (archived projected : Message) : Bool :=
  if archived.role ≠ projected.role then false
  else if archived.role = .tool then archived.toolCallId = projected.toolCallId ∧ archived.name = projected.name
  else if archived.role = .assistant ∧ (archived.toolCalls ≠ [] ∨ projected.toolCalls ≠ []) then
    callIds archived = callIds projected
  else archived.content = projected.content

/-- From the end: each kept message takes the last source message before those already taken. -/
def matchFromEnd : List Stored → List Message → List (Option Stored)
  | _, [] => []
  | source, k :: ks =>
    match source.dropWhile fun m => !messagesEquivalent m.message k with
    | [] => none :: matchFromEnd [] ks
    | m :: rest => some m :: matchFromEnd rest ks

def matchKeptEvents (source : List Stored) (kept : List Message) : List (Option Stored) :=
  (matchFromEnd source.reverse kept.reverse).reverse

def openTransaction (s : Obj) (compactedIds : List Nat) : Durable Disk (Nat × Obj) := do
  let transaction ← newId
  let s ← transitionArchiveEvents s compactedIds .compacted (some transaction)
  pure (transaction, s)

structure Prepared where
  session : Obj
  source : List Stored
  identities : List (Option Stored)
  covers : Covers
  transaction : Nat

def prepareCompactionArchive (s : Obj) (kept : List Message) (sourceMessageCount : Nat) : Durable Disk Prepared := do
  let messages ← ensureEventIdentities s.messages
  let s ← flushFull { s with messages }
  let source := s.messages.take sourceMessageCount
  let identities := matchKeptEvents source kept
  let keptIds := identities.filterMap fun i => i.bind (·.id)
  let compactedIds := (workingIds source).filter (· ∉ keptIds)
  let (transaction, s) ← openTransaction s compactedIds
  let d ← read
  let compacted := (snapshotFromRows d.log).events.filter fun ev => ev.state = .compacted ∨ ev.entry.id ∈ compactedIds
  let covers := coverageDescriptor stamp compacted
  pure { session := { s with metadata := { s.metadata with lastCoverage := some covers } }, source, identities, covers,
         transaction }

/-- A kept message: a row of the archive, or one made for the context. -/
inductive KeptRow where
  | saved (m : Stored)
  | derived (m : Stored)

def addMessage (s : Obj) (m : Stored) : Durable Disk Obj := do
  let m ← ensureEventIdentity m
  pure { s with messages := s.messages ++ [m] }

/-- `add_message`, and `append_compaction_summary` of the row it made. -/
def addArchived (s : Obj) (m : Stored) : Durable Disk Obj := do
  let s ← addMessage s m
  appendRows ((s.messages.getLast?.map Stored.row).toList)
  pure s

def addKept : List KeptRow → Obj → Durable Disk Obj
  | [], s => pure s
  | .saved m :: rows, s => addKept rows { s with messages := s.messages ++ [m] }
  | .derived m :: rows, s => do
    let s ← addArchived s m
    addKept rows s

structure Summary where
  /-- `last_compaction_summary`. -/
  text : Text
  /-- The content of the summary message. -/
  content : Text
  now : Option Nat

/-- The new context, from `session.clear()` on. -/
def rewrite (p : Prepared) (summary : Summary) (rows : List KeptRow) (tail : List Stored) : Durable Disk Obj := do
  let s ← addArchived { p.session with messages := [] }
    { transaction := some p.transaction
      timestamp := summary.now
      summaryFlag := true
      message := { role := .system, content := .text summary.content,
                   archiveSummary := true, displayHidden := true } }
  let s ← addKept rows s
  let messages := s.messages ++ tail
  pure
    { messages
      metadata := { s.metadata with
        fullLogCount := some messages.length
        lastSummary := summary.text
        lastCoverage := some p.covers
        pendingTransaction := some p.transaction } }

def swapIn (p : Prepared) (summary : Summary) (rows : List KeptRow) (tail : List Stored) : Durable Disk Obj := do
  let s ← rewrite p summary rows tail
  saveUnlocked s [] (workingIds p.source)

structure Commit where
  sourceMessageCount : Nat
  /-- `source_fingerprint`, before the digest. -/
  sourceFingerprint : List Fingerprint
  /-- The conversation was reset while it was summarised. -/
  epochMoved : Bool := false
  kept : List Message
  /-- `result.summary`. -/
  summary : Text
  /-- The note on an approved plan. -/
  note : Text := []
  now : Option Nat

def mergeTail (merged : List Stored) : List Stored → List Stored
  | [] => merged
  | m :: ms =>
    let known : Bool := match m.id with
      | some i => i ∈ workingIds merged
      | none =>
        merged.any fun x => x.id.isNone && messageFingerprint x.timestamp x.message == messageFingerprint m.timestamp m.message
    mergeTail (if known then merged else merged ++ [m]) ms

def keptRow (now : Option Nat) (kept : Message) (identity : Option Stored) : KeptRow :=
  let message : Message :=
    { role := if kept.role = .absent then .user else kept.role, content := kept.content, toolCalls := kept.toolCalls,
      toolCallId := kept.toolCallId, name := kept.name }
  match identity with
  | some m =>
    .saved { id := m.id, state := some (m.state.getD .active), timestamp := now,
             message := { message with displayHidden := m.message.displayHidden } }
  | none => .derived { timestamp := now, message := { message with displayHidden := true } }

/-- A message that landed during the summary belongs to no provider checkpoint any more. -/
def lateCopy (m : Stored) : Stored := { m with message := { m.message with providerReplay := none } }

/-- The fresh object of `compaction_commit_guard`. -/
def reload : Durable Disk Obj := do
  let d ← read
  match d.file with
  | none => pure {}
  | some f => reconcileArchiveIdentities stamp f

/-- `_commit_compaction`. A commit that is refused leaves the session to its caller. -/
def commitCompaction (s : Obj) (c : Commit) : Durable Disk Obj := do
  let fresh ← reload stamp
  if fresh.messages.length < c.sourceMessageCount then pure s
  else if (fresh.messages.take c.sourceMessageCount).map (fun m => messageFingerprint m.timestamp m.message) ≠
      c.sourceFingerprint then pure s
  else
    let s := { s with messages := mergeTail fresh.messages (s.messages.drop c.sourceMessageCount) }
    if c.epochMoved then pure s
    else
      let tail := (s.messages.drop c.sourceMessageCount).map lateCopy
      let p ← prepareCompactionArchive stamp s c.kept c.sourceMessageCount
      let rows := (c.kept.zip p.identities).map fun (k, i) => keptRow c.now k i
      let summary : Summary :=
        { text := c.summary, content := Compaction.buildSummaryContent c.summary ++ c.note, now := c.now }
      let s ← swapIn p summary rows tail
      let s ← finalizeCompactionArchive s p.transaction
      saveUnlocked s [] []

structure ThreadSummary where
  kept : List Message
  /-- `_match_saved_rows`. -/
  matched : List (Option Nat)
  /-- The content of the summary message, and whether it is flagged as one. -/
  content : Text
  summaryFlag : Bool := true
  now : Option Nat

/-- A kept message of a thread is its saved row, uncut, or it is made for the context. -/
def threadRow (now : Option Nat) (messages : List Stored) (k : Message) (i : Option Nat) : KeptRow :=
  match i.bind fun i => messages[i]? with
  | some row => .saved row
  | none => keptRow now k none

/-- `persist_context` of a subagent's thread. Its two `mutate` calls load the file as it is. -/
def persistContext (c : ThreadSummary) : Durable Disk Unit := do
  let d ← read
  let s := d.file.getD {}
  let saved := c.matched.filterMap fun i => i.bind fun i => s.messages[i]?
  let p ← prepareCompactionArchive stamp s (saved.map (·.message)) s.messages.length
  let summary : Compaction.Message := { role := .system, content := .text c.content, summaryFlag := c.summaryFlag }
  let text := (Compaction.extractSummaryText summary).getD []
  let rows := (c.kept.zip c.matched).map fun (k, i) => threadRow c.now p.session.messages k i
  let _ ← swapIn p { text, content := c.content, now := c.now } rows []
  let d ← read
  let s ← finalizeCompactionArchive (d.file.getD {}) p.transaction
  let _ ← saveUnlocked s [] []

/-! ## What a summary is said to cover -/

/-- The events counted as represented by a summary. -/
def summarized (log : List Row) : List ArchiveEvent := (snapshotFromRows log).events.filter (·.state = .compacted)

structure CoverageManifest where
  totalEvents : Nat
  compactedEvents : Nat
  representedEvents : Nat
  coverageGap : Nat

/-- `build_coverage_manifest`. -/
def contextCoverage (log : List Row) (s : Obj) : CoverageManifest :=
  let events := (snapshotFromRows log).events
  let summaryPresent := s.messages.any fun m => m.message.archiveSummary ∧ m.id.isSome
  let start := (s.metadata.lastCoverage.map (·.startSequence)).getD 0
  let stop := (s.metadata.lastCoverage.map (·.endSequence)).getD 0
  let covered (ev : ArchiveEvent) : Bool := match ev.state with
    | .active | .internalHidden => ev.entry.id ∈ workingIds s.messages
    | .compacted => summaryPresent && start ≤ (stamp ev.entry.id).sequence && (stamp ev.entry.id).sequence ≤ stop
    | .withdrawn => true
  { totalEvents := events.length
    compactedEvents := (summarized log).length
    representedEvents := (events.filter covered).length
    coverageGap := (events.filter fun ev => !covered ev).length }

/-! ## Runs -/

inductive Edit where
  | add (message : Message) (timestamp : Option Nat)
  /-- `drop_last_turn`, `drop_last_assistant_chain` and `clear` leave the first messages. -/
  | keepFirst (n : Nat)
  | resetConversationContext

def edit (s : Obj) : Edit → Durable Disk Obj
  | .add message timestamp => addMessage s { message, timestamp }
  | .keepFirst n => pure { s with messages := s.messages.take n }
  | .resetConversationContext => pure {}

def edits : List Edit → Obj → Durable Disk Obj
  | [], s => pure s
  | e :: es, s => do
    let s ← edit s e
    edits es s

def mutate (es : List Edit) : Durable Disk Obj := do
  let d ← read
  let s ← edits es (d.file.getD {})
  saveUnlocked s [] []

structure World where
  disk : Disk := {}
  /-- The session in the cache. -/
  live : Option Obj := none

/-- Where an operation writes, `dies` is how many of its writes are made before the process dies. -/
inductive Ev where
  | getOrCreate (dies : Option Nat)
  | edit (e : Edit)
  /-- A save with the pending lines of the turn. -/
  | save (pending : List (Message × Option Nat)) (dies : Option Nat)
  | mutate (es : List Edit) (dies : Option Nat)
  | commitCompaction (c : Commit) (dies : Option Nat)
  | persistContext (c : ThreadSummary) (dies : Option Nat)
  /-- The session leaves the cache, or the process dies between two operations. -/
  | evict

def perform {α : Type} (w : World) (x : Durable Disk α) (dies : Option Nat) (cached : α → Option Obj) : World :=
  match dies with
  | none => { disk := (x w.disk).store, live := cached (x w.disk).value }
  | some n => { disk := x.left w.disk n, live := none }

def step (w : World) : Ev → World
  | .getOrCreate dies =>
    match w.live with
    | some _ => w
    | none => perform w (getOrCreate stamp) dies some
  | .edit e =>
    match w.live with
    | some s => perform w (edit s e) none some
    | none => w
  | .save pending dies =>
    match w.live with
    | some s => perform w (saveUnlocked s (pending.map fun (message, timestamp) => { message, timestamp }) []) dies some
    | none => w
  | .mutate es dies => perform w (mutate es) dies some
  | .commitCompaction c dies =>
    match w.live with
    | some s => perform w (commitCompaction stamp s c) dies some
    | none => w
  | .persistContext c dies => perform w (persistContext stamp c) dies fun _ => none
  | .evict => { w with live := none }

/-- The events a reload of the file would find in a context that none of its messages is in. -/
def stranded (d : Disk) (f : Obj) : List Nat :=
  let r := finishPending f d
  let log := r.store.log
  activeOutside log (hydrate stamp (inOrder stamp (snapshotFromRows log).events) [] f.messages r.store).value

def nothingStranded (d : Disk) : Bool :=
  match d.file with
  | none => true
  | some f => f.metadata.lastSummary = [] || stranded stamp d f = []

/-- No reload meets a summary in the file and, in a context, an event that only the log has. -/
def Unstranded (w : World) : Ev → Bool
  | .getOrCreate _ => w.live.isSome || nothingStranded stamp w.disk
  | .commitCompaction _ _ => nothingStranded stamp w.disk
  | _ => true

end

/-! ## What a compaction that counts has behind it -/

/-- Every message in state compacted is one of `S`. -/
def CompactedIn (S : List Nat) (ms : List Stored) : Prop := ∀ m ∈ ms, m.state = some .compacted → ∃ i ∈ S, m.id = some i

structure Backed (d : Disk) (s : Obj) : Prop where
  messages : CompactedIn d.swapped s.messages
  /-- The transaction it will commit was swapped in. -/
  pending : ∀ t, s.metadata.pendingTransaction = some t →
    t < d.fresh ∧ ∀ is, .transition is .compacted (some t) ∈ d.log → ∀ i ∈ is, i ∈ d.swapped

structure Sound (d : Disk) : Prop where
  transitions : ∀ is t, .transition is .compacted t ∈ d.log → committed d.log t = true → ∀ i ∈ is, i ∈ d.swapped
  rows : ∀ e ∈ entries d.log, e.state = .compacted → e.id ∈ d.swapped
  file : ∀ f, d.file = some f → Backed d f
  below : ∀ t, (.commit t ∈ d.log ∨ ∃ is state, .transition is state (some t) ∈ d.log) → t < d.fresh

variable {d : Disk}

theorem Sound.summarized (h : Sound d) {ev : ArchiveEvent} (hev : ev ∈ summarized d.log) :
    ev.entry.id ∈ d.swapped := by
  obtain ⟨hmem, hs⟩ := List.mem_filter.mp hev
  have hs : ev.state = .compacted := by simpa using hs
  obtain ⟨hrow, hown | ⟨is, t, htransition, ht, hi⟩⟩ := event_state hmem
  · exact h.rows _ hrow (hown ▸ hs)
  · rw [hs] at htransition
    exact h.transitions is t htransition ht _ hi

/-- Nothing is given back, and a transaction gets no transition after its own. -/
structure Later (d d' : Disk) : Prop where
  swapped : ∀ i ∈ d.swapped, i ∈ d'.swapped
  fresh : d.fresh ≤ d'.fresh
  transitions : ∀ is state t, t < d.fresh → .transition is state (some t) ∈ d'.log → .transition is state (some t) ∈ d.log

theorem Later.refl (d : Disk) : Later d d := ⟨fun _ h => h, Nat.le_refl _, fun _ _ _ _ h => h⟩

theorem Later.trans {d d' d'' : Disk} (h : Later d d') (h' : Later d' d'') : Later d d'' where
  swapped := fun i hi => h'.swapped i (h.swapped i hi)
  fresh := Nat.le_trans h.fresh h'.fresh
  transitions := fun is state t ht hrow =>
    h.transitions is state t ht (h'.transitions is state t (Nat.lt_of_lt_of_le ht h.fresh) hrow)

theorem CompactedIn.mono {S S' : List Nat} {ms : List Stored} (h : CompactedIn S ms) (hS : ∀ i ∈ S, i ∈ S') :
    CompactedIn S' ms := by
  intro m hm hs
  obtain ⟨i, hi, hid⟩ := h m hm hs
  exact ⟨i, hS i hi, hid⟩

theorem CompactedIn.append {S : List Nat} {ms ms' : List Stored} (h : CompactedIn S ms) (h' : CompactedIn S ms') :
    CompactedIn S (ms ++ ms') := by
  intro m hm
  rcases List.mem_append.mp hm with hm | hm
  · exact h m hm
  · exact h' m hm

theorem CompactedIn.sublist {S : List Nat} {ms ms' : List Stored} (h : CompactedIn S ms) (hs : ∀ m ∈ ms', m ∈ ms) :
    CompactedIn S ms' := fun m hm => h m (hs m hm)

theorem Backed.later {d d' : Disk} {s : Obj} (h : Backed d s) (hl : Later d d') : Backed d' s where
  messages := h.messages.mono hl.swapped
  pending := by
    intro t ht
    obtain ⟨hlt, his⟩ := h.pending t ht
    refine ⟨Nat.lt_of_lt_of_le hlt hl.fresh, fun is hrow i hi => hl.swapped i ?_⟩
    exact his is (hl.transitions is .compacted t hlt hrow) i hi

theorem Backed.empty (d : Disk) : Backed d {} := ⟨fun _ h => (List.not_mem_nil h).elim, by simp⟩

/-! ### Single writes -/

/-- An id is drawn: what is durable stays. -/
theorem Sound.drawn (h : Sound d) : Sound { d with fresh := d.fresh + 1 } ∧ Later d { d with fresh := d.fresh + 1 } := by
  have hl : Later d { d with fresh := d.fresh + 1 } := ⟨fun _ hi => hi, Nat.le_succ _, fun _ _ _ _ hrow => hrow⟩
  exact ⟨⟨h.transitions, h.rows, fun f hf => (h.file f hf).later hl, fun t ht => Nat.lt_succ_of_lt (h.below t ht)⟩, hl⟩

theorem Sound.messageRows (h : Sound d) {es : List Entry} (hes : ∀ e ∈ es, e.state = .compacted → e.id ∈ d.swapped) :
    Sound { d with log := d.log ++ es.map .message } ∧ Later d { d with log := d.log ++ es.map .message } := by
  have hmem : ∀ row, (∀ e, row ≠ .message e) → row ∈ d.log ++ es.map .message → row ∈ d.log := by
    intro row hrow hmem
    rcases List.mem_append.mp hmem with hmem | hmem
    · exact hmem
    · obtain ⟨e, _, rfl⟩ := List.mem_map.mp hmem
      exact absurd rfl (hrow e)
  have hl : Later d { d with log := d.log ++ es.map .message } :=
    ⟨fun _ hi => hi, Nat.le_refl _, fun is state t _ hrow => hmem _ (by simp) hrow⟩
  refine ⟨⟨?_, ?_, fun f hf => (h.file f hf).later hl, ?_⟩, hl⟩
  · intro is t hrow hc
    rw [committed_append (by simp)] at hc
    exact h.transitions is t (hmem _ (by simp) hrow) hc
  · intro e he
    rw [entries_append, entries_messages, List.mem_append] at he
    rcases he with he | he
    · exact h.rows e he
    · exact hes e he
  · rintro t (ht | ⟨is, state, ht⟩)
    · exact h.below t (Or.inl (hmem _ (by simp) ht))
    · exact h.below t (Or.inr ⟨is, state, hmem _ (by simp) ht⟩)

theorem Sound.withdrawn (h : Sound d) (is : List Nat) :
    Sound { d with log := d.log ++ [.transition is .withdrawn none] } ∧
      Later d { d with log := d.log ++ [.transition is .withdrawn none] } := by
  have hl : Later d { d with log := d.log ++ [.transition is .withdrawn none] } :=
    ⟨fun _ hi => hi, Nat.le_refl _, fun _ _ _ _ hrow => by simpa using hrow⟩
  refine ⟨⟨?_, ?_, fun f hf => (h.file f hf).later hl, ?_⟩, hl⟩
  · intro is' t hrow hc
    rw [committed_append (by simp)] at hc
    exact h.transitions is' t (by simpa using hrow) hc
  · intro e he
    rw [entries_append, entries_transition, List.append_nil] at he
    exact h.rows e he
  · intro t ht
    exact h.below t (by simpa using ht)

/-- The transition of a prepared compaction does not count yet. -/
theorem Sound.prepared (h : Sound d) (is : List Nat) :
    Sound { d with fresh := d.fresh + 1, log := d.log ++ [.transition is .compacted (some d.fresh)] } ∧
      Later d { d with fresh := d.fresh + 1, log := d.log ++ [.transition is .compacted (some d.fresh)] } := by
  have hl : Later d { d with fresh := d.fresh + 1, log := d.log ++ [.transition is .compacted (some d.fresh)] } := by
    refine ⟨fun _ hi => hi, Nat.le_succ _, fun is' state t ht hrow => ?_⟩
    rcases List.mem_append.mp hrow with hrow | hrow
    · exact hrow
    · simp only [List.mem_singleton, Row.transition.injEq, Option.some.injEq] at hrow
      omega
  have hnew : committed d.log (some d.fresh) = false := by
    simp only [committed, decide_eq_false_iff_not]
    exact fun hc => Nat.lt_irrefl _ (h.below d.fresh (Or.inl hc))
  refine ⟨⟨?_, ?_, fun f hf => (h.file f hf).later hl, ?_⟩, hl⟩
  · intro is' t hrow hc
    rw [committed_append (by simp)] at hc
    rcases List.mem_append.mp hrow with hrow | hrow
    · exact h.transitions is' t hrow hc
    · simp only [List.mem_singleton, Row.transition.injEq] at hrow
      rw [hrow.2.2, hnew] at hc
      cases hc
  · intro e he
    rw [entries_append, entries_transition, List.append_nil] at he
    exact h.rows e he
  · rintro t (ht | ⟨is', state, ht⟩)
    · exact Nat.lt_succ_of_lt (h.below t (Or.inl (by simpa using ht)))
    · rcases List.mem_append.mp ht with ht | ht
      · exact Nat.lt_succ_of_lt (h.below t (Or.inr ⟨is', state, ht⟩))
      · simp only [List.mem_singleton, Row.transition.injEq, Option.some.injEq] at ht
        show t < d.fresh + 1
        omega

/-- The commit row of a transaction that was swapped in. -/
theorem Sound.commit (h : Sound d) {t : Nat} (hlt : t < d.fresh)
    (ht : ∀ is, .transition is .compacted (some t) ∈ d.log → ∀ i ∈ is, i ∈ d.swapped) :
    Sound { d with log := d.log ++ [.commit t] } ∧ Later d { d with log := d.log ++ [.commit t] } := by
  have hl : Later d { d with log := d.log ++ [.commit t] } :=
    ⟨fun _ hi => hi, Nat.le_refl _, fun _ _ _ _ hrow => by simpa using hrow⟩
  refine ⟨⟨?_, ?_, fun f hf => (h.file f hf).later hl, ?_⟩, hl⟩
  · intro is t' hrow hc
    have hrow : .transition is .compacted t' ∈ d.log := by simpa using hrow
    by_cases heq : t' = some t
    · subst heq
      exact ht is hrow
    · refine h.transitions is t' hrow ?_
      cases t' with
      | none => rfl
      | some t' =>
        have hne : t' ≠ t := fun he => heq (by rw [he])
        simpa [committed, hne] using hc
  · intro e he
    exact h.rows e (by simpa [entries] using he)
  · rintro t' (hc | hc)
    · rcases List.mem_append.mp hc with hc | hc
      · exact h.below t' (Or.inl hc)
      · simp only [List.mem_singleton, Row.commit.injEq] at hc
        exact hc ▸ hlt
    · exact h.below t' (Or.inr (by simpa using hc))

/-- The canonical rename. -/
theorem Sound.renamed (h : Sound d) {f : Obj} {sources : List Nat}
    (hf : Backed { d with swapped := d.swapped ++ sources } f) :
    Sound { d with file := some f, swapped := d.swapped ++ sources } ∧
      Later d { d with file := some f, swapped := d.swapped ++ sources } := by
  have hin : ∀ i ∈ d.swapped, i ∈ d.swapped ++ sources := fun i hi => List.mem_append_left _ hi
  refine ⟨⟨fun is t hrow hc i hi => hin i (h.transitions is t hrow hc i hi), fun e he hs => hin _ (h.rows e he hs), ?_, h.below⟩,
    ⟨hin, Nat.le_refl _, fun _ _ _ _ hrow => hrow⟩⟩
  intro f' hf'
  simp only [Option.some.injEq] at hf'
  subst hf'
  exact ⟨hf.messages, hf.pending⟩

/-! ### Operations -/

/-- `x` leaves a sound disk at every write, and returns with `Q`. -/
def Does {α : Type} (x : Durable Disk α) (d : Disk) (Q : α → Disk → Prop) : Prop :=
  Safe Sound x d fun a d' => Sound d' ∧ Later d d' ∧ Q a d'

section
variable {α β : Type} {x : Durable Disk α} {d : Disk} {P : α → Disk → Prop} {Q : β → Disk → Prop}

theorem Does.pure {a : β} (hd : Sound d) (h : Q a d) : Does (Pure.pure a) d Q := Safe.pure ⟨hd, Later.refl d, h⟩

theorem Does.bind {f : α → Durable Disk β} (h : Does x d P)
    (hf : ∀ a d', Sound d' → Later d d' → P a d' → Does (f a) d' Q) : Does (x >>= f) d Q :=
  Safe.bind (h.mono fun a d' h' =>
    (hf a d' h'.1 h'.2.1 h'.2.2).mono fun _ _ h'' => ⟨h''.1, h'.2.1.trans h''.2.1, h''.2.2⟩)

theorem Does.read {f : Disk → Durable Disk β} (h : Does (f d) d Q) : Does (Durable.read >>= f) d Q := Safe.bind (Safe.read h)

theorem Does.write {f : Disk → Disk} {Q : Unit → Disk → Prop} (h : Sound (f d) ∧ Later d (f d)) (hQ : Q () (f d)) :
    Does (Durable.write f) d Q := Safe.write h.1 ⟨h.1, h.2, hQ⟩

theorem Does.appendRows {rows : List Row} {Q : Unit → Disk → Prop} (hd : Sound d)
    (h : rows ≠ [] → Sound { d with log := d.log ++ rows } ∧ Later d { d with log := d.log ++ rows })
    (hQ : Q () { d with log := d.log ++ rows }) : Does (appendRows rows) d Q := by
  unfold Coverage.appendRows
  by_cases hr : rows = []
  · subst hr
    exact Does.pure hd (by simpa using hQ)
  · rw [if_neg hr]
    exact Does.write (h hr) hQ

theorem Does.mono {P' : α → Disk → Prop} (h : Does x d P) (hP : ∀ a d', Later d d' → P a d' → P' a d') : Does x d P' :=
  Safe.mono h fun a d' h' => ⟨h'.1, h'.2.1, hP a d' h'.2.1 h'.2.2⟩

end

/-- Nothing was written. -/
structure Quiet (d d' : Disk) : Prop where
  log : d'.log = d.log
  file : d'.file = d.file
  swapped : d'.swapped = d.swapped

theorem Quiet.refl (d : Disk) : Quiet d d := ⟨rfl, rfl, rfl⟩

theorem Quiet.trans {d d' d'' : Disk} (h : Quiet d d') (h' : Quiet d' d'') : Quiet d d'' :=
  ⟨h'.log.trans h.log, h'.file.trans h.file, h'.swapped.trans h.swapped⟩

theorem newId_does (hd : Sound d) :
    Does newId d fun i d' => i = d.fresh ∧ d' = { d with fresh := d.fresh + 1 } :=
  Safe.bind (Safe.read (Safe.bind (Safe.modify (Safe.pure ⟨hd.drawn.1, hd.drawn.2, rfl, rfl⟩))))

section
variable {d : Disk} {S : List Nat}

variable {m : Stored}

theorem ensureEventIdentity_does (hd : Sound d) (hm : CompactedIn S [m]) :
    Does (ensureEventIdentity m) d fun m' d' => Quiet d d' ∧ m'.id.isSome ∧ CompactedIn S [m'] := by
  -- A state that was missing is the initial one, and an id that was missing is new.
  have hstate : ∀ i, (m.state.getD (initialState m.message)) = .compacted → m.id = some i → i ∈ S := by
    intro i hs hid
    cases hst : m.state with
    | none =>
      rw [hst, Option.getD_none] at hs
      unfold initialState at hs
      split at hs <;> cases hs
    | some state =>
      rw [hst, Option.getD_some] at hs
      obtain ⟨j, hj, hjd⟩ := hm m (List.mem_singleton_self m) (by rw [hst, hs])
      rw [hid, Option.some.injEq] at hjd
      exact hjd ▸ hj
  unfold ensureEventIdentity
  cases hid : m.id with
  | some i =>
    refine Does.pure hd ⟨Quiet.refl d, rfl, ?_⟩
    intro m' hm' hs
    rw [List.mem_singleton.mp hm'] at hs ⊢
    exact ⟨i, hstate i (by simpa using hs) hid, rfl⟩
  | none =>
    refine Does.bind (newId_does hd) ?_
    rintro _ _ hd' _ ⟨rfl, rfl⟩
    refine Does.pure hd' ⟨⟨rfl, rfl, rfl⟩, rfl, ?_⟩
    intro m' hm' hs
    rw [List.mem_singleton.mp hm'] at hs
    have hs : m.state.getD (initialState m.message) = .compacted := by simpa using hs
    cases hst : m.state with
    | none =>
      rw [hst, Option.getD_none] at hs
      unfold initialState at hs
      split at hs <;> cases hs
    | some state =>
      rw [hst, Option.getD_some] at hs
      obtain ⟨j, _, hjd⟩ := hm m (List.mem_singleton_self m) (by rw [hst, hs])
      rw [hid] at hjd
      cases hjd

variable {ms : List Stored}

theorem CompactedIn.cons :
    CompactedIn S (m :: ms) ↔ CompactedIn S [m] ∧ CompactedIn S ms := by
  simp [CompactedIn]

theorem backfill_does (hd : Sound d) (hm : CompactedIn S [m]) :
    Does (backfill m) d fun m' d' => Quiet d d' ∧ CompactedIn S [m'] := by
  unfold backfill
  split
  · exact Does.pure hd ⟨Quiet.refl d, hm⟩
  · exact (ensureEventIdentity_does hd hm).mono fun _ _ _ h => ⟨h.1, h.2.2⟩

theorem ensureEventIdentities_does (hd : Sound d) (hms : CompactedIn S ms) :
    Does (ensureEventIdentities ms) d fun ms' d' => Quiet d d' ∧ ms'.length = ms.length ∧ CompactedIn S ms' := by
  induction ms generalizing d with
  | nil => exact Does.pure hd ⟨Quiet.refl d, rfl, hms⟩
  | cons m ms ih =>
    obtain ⟨hm, hms⟩ := CompactedIn.cons.mp hms
    refine Does.bind (backfill_does hd hm) ?_
    rintro m' d1 hd1 _ ⟨hq, hm'⟩
    refine Does.bind (ih hd1 hms) ?_
    rintro ms' d2 hd2 _ ⟨hq', hlen, hms'⟩
    exact Does.pure hd2 ⟨hq.trans hq', by simp [hlen], CompactedIn.cons.mpr ⟨hm', hms'⟩⟩

/-- What a save of `s` needs, when it swaps in a compaction of `sources`. -/
structure Ready (S sources : List Nat) (d : Disk) (s : Obj) : Prop where
  messages : CompactedIn S s.messages
  covered : ∀ i ∈ S, i ∈ d.swapped ++ sources
  /-- The log has every message, or none of the new ones is compacted too early. -/
  flushed : s.messages.length ≤ s.metadata.fullLogCount.getD 0 ∨ ∀ i ∈ S, i ∈ d.swapped
  pending : ∀ t, s.metadata.pendingTransaction = some t →
    t < d.fresh ∧ ∀ is, .transition is .compacted (some t) ∈ d.log → ∀ i ∈ is, i ∈ d.swapped ++ sources

variable {s : Obj}

theorem Backed.ready (h : Backed d s) : Ready d.swapped [] d s where
  messages := h.messages
  covered := by simp
  flushed := Or.inr fun _ hi => hi
  pending := by simpa using h.pending

variable {sources : List Nat}

/-- An operation on the messages that appends no compaction. -/
theorem Ready.step {d' : Disk} {s s' : Obj} (h : Ready S sources d s) (hl : Later d d') (hs : d'.swapped = d.swapped)
    (hlen : s'.messages.length = s.messages.length) (hmeta : s'.metadata = s.metadata) (hms : CompactedIn S s'.messages) :
    Ready S sources d' s' where
  messages := hms
  covered := by rw [hs]; exact h.covered
  flushed := by rw [hs, hlen, hmeta]; exact h.flushed
  pending := by
    intro t ht
    obtain ⟨hlt, his⟩ := h.pending t (hmeta ▸ ht)
    refine ⟨Nat.lt_of_lt_of_le hlt hl.fresh, fun is hrow => ?_⟩
    rw [hs]
    exact his is (hl.transitions is _ t hlt hrow)

theorem withdrawUnlessPending_does (hd : Sound d) (h : Ready S sources d s) :
    Does (withdrawUnlessPending s) d fun s' d' => d'.swapped = d.swapped ∧ Ready S sources d' s' := by
  unfold withdrawUnlessPending
  by_cases hpending : s.metadata.pendingTransaction.isSome = true
  · rw [if_pos hpending]
    exact Does.pure hd ⟨rfl, h⟩
  rw [if_neg hpending]
  unfold withdrawRemovedActiveEvents
  refine Does.read ?_
  unfold transitionArchiveEvents
  generalize activeOutside d.log s.messages = gone
  by_cases hg : gone = []
  · rw [if_pos hg]
    exact Does.pure hd ⟨rfl, h⟩
  · rw [if_neg hg]
    have happend := Does.appendRows (Q := fun _ d' => d'.swapped = d.swapped) hd (fun _ => hd.withdrawn gone) rfl
    refine Does.bind happend ?_
    intro _ d' hd' hl hs
    refine Does.pure hd' ⟨hs, h.step hl hs (by simp) rfl ?_⟩
    intro m hm hc
    obtain ⟨m0, hm0, rfl⟩ := List.mem_map.mp hm
    by_cases hgone : m0.id.any (· ∈ gone) = true
    · rw [if_pos hgone] at hc
      cases hc
    · rw [if_neg hgone] at hc ⊢
      exact h.messages m0 hm0 hc

theorem Stored.row_compacted (hm : CompactedIn S [m]) :
    ∃ e : Entry, m.row = .message e ∧ (e.state = .compacted → e.id ∈ S) := by
  refine ⟨_, rfl, fun hs => ?_⟩
  cases hst : m.state with
  | none =>
    simp only [hst, Option.getD_none, initialState] at hs
    split at hs <;> cases hs
  | some state =>
    simp only [hst, Option.getD_some] at hs
    obtain ⟨i, hi, hid⟩ := hm m (List.mem_singleton_self m) (by rw [hst, hs])
    simpa [hid] using hi

/-- Rows of messages that are compacted only where the disk knows it. -/
theorem appendRows_does (hd : Sound d) (hms : CompactedIn d.swapped ms) :
    Does (appendRows (ms.map Stored.row)) d fun _ d' => d'.swapped = d.swapped := by
  have hentry : ∃ es : List Entry, ms.map Stored.row = es.map .message ∧ ∀ e ∈ es, e.state = .compacted → e.id ∈ d.swapped := by
    induction ms with
    | nil => exact ⟨[], rfl, by simp⟩
    | cons m ms ih =>
      obtain ⟨hm, hms⟩ := CompactedIn.cons.mp hms
      obtain ⟨es, hes, hall⟩ := ih hms
      obtain ⟨e, he, hone⟩ := Stored.row_compacted hm
      refine ⟨e :: es, by rw [List.map_cons, List.map_cons, hes, he], ?_⟩
      intro e' he'
      rcases List.mem_cons.mp he' with rfl | he'
      · exact hone
      · exact hall e' he'
  obtain ⟨es, hes, hall⟩ := hentry
  rw [hes]
  exact Does.appendRows hd (fun _ => hd.messageRows hall) rfl

theorem flushFull_does (hd : Sound d) (h : Ready S sources d s) :
    Does (flushFull s) d fun s' d' => d'.swapped = d.swapped ∧ Ready S sources d' s' ∧
      s'.messages.length ≤ s'.metadata.fullLogCount.getD 0 := by
  unfold flushFull
  refine Does.bind (ensureEventIdentities_does hd h.messages) ?_
  rintro ms d1 hd1 hl1 ⟨hq, hlen, hms⟩
  have hr : Ready S sources d1 ⟨ms, { s.metadata with fullLogCount := some ms.length }⟩ := by
    have : Ready S sources d1 ⟨ms, s.metadata⟩ := h.step hl1 hq.swapped hlen rfl hms
    exact ⟨this.messages, this.covered, Or.inl (by simp), this.pending⟩
  have hdone : ∀ d', Sound d' → Later d1 d' → d'.swapped = d1.swapped →
      Does (Pure.pure (⟨ms, { s.metadata with fullLogCount := some ms.length }⟩ : Obj)) d' fun s' d' =>
        d'.swapped = d.swapped ∧ Ready S sources d' s' ∧ s'.messages.length ≤ s'.metadata.fullLogCount.getD 0 := by
    intro d' hd' hl hs
    exact Does.pure hd' ⟨hs.trans hq.swapped, hr.step hl hs rfl rfl hms, by simp⟩
  by_cases hmark : ms.length ≤ s.metadata.fullLogCount.getD 0
  · simp only [if_pos hmark]
    exact hdone d1 hd1 (Later.refl d1) rfl
  · simp only [if_neg hmark]
    have hS : ∀ i ∈ S, i ∈ d1.swapped := by
      rw [hq.swapped]
      rcases h.flushed with hle | hS
      · rw [hlen] at hmark
        exact absurd hle hmark
      · exact hS
    have hnew : CompactedIn d1.swapped (ms.drop (s.metadata.fullLogCount.getD 0)) :=
      (hms.mono hS).sublist fun _ hm => List.mem_of_mem_drop hm
    refine Does.bind (appendRows_does hd1 hnew) ?_
    intro _ d' hd' hl hs
    exact hdone d' hd' hl hs

theorem saveUnlocked_does {extra : List Stored} (hd : Sound d) (h : Ready S sources d s)
    (hextra : ∀ m ∈ extra, m.state = none) :
    Does (saveUnlocked s extra sources) d fun s' d' => Backed d' s' ∧ d'.swapped = d.swapped ++ sources := by
  unfold saveUnlocked
  refine Does.bind (ensureEventIdentities_does hd h.messages) ?_
  rintro ms d1 hd1 hl1 ⟨hq, hlen, hms⟩
  have h1 : Ready S sources d1 { s with messages := ms } := h.step hl1 hq.swapped hlen rfl hms
  refine Does.bind (withdrawUnlessPending_does hd1 h1) ?_
  rintro s2 d2 hd2 _ ⟨hs2, h2⟩
  refine Does.bind (flushFull_does hd2 h2) ?_
  rintro s3 d3 hd3 _ ⟨hs3, h3, _⟩
  have hall : Backed { d3 with swapped := d3.swapped ++ sources } { s3 with messages := s3.messages ++ extra } := by
    refine ⟨(h3.messages.mono h3.covered).append ?_, h3.pending⟩
    intro m hm hs
    rw [hextra m hm] at hs
    cases hs
  refine Does.bind (P := fun _ d' => d' = { d3 with file := some _, swapped := d3.swapped ++ sources })
    (Does.write (hd3.renamed hall) rfl) ?_
  rintro _ _ hd' _ rfl
  exact Does.pure hd' ⟨⟨h3.messages.mono h3.covered, h3.pending⟩, by rw [hs3, hs2, hq.swapped]⟩

/-! ### A reload -/

theorem finalizeCompactionArchive_does {t : Nat} (hd : Sound d) (hs : CompactedIn d.swapped s.messages)
    (hlt : t < d.fresh) (ht : ∀ is, .transition is .compacted (some t) ∈ d.log → ∀ i ∈ is, i ∈ d.swapped) :
    Does (finalizeCompactionArchive s t) d fun s' d' => d'.swapped = d.swapped ∧ Backed d' s' ∧
      s'.messages = s.messages ∧ s'.metadata.lastSummary = s.metadata.lastSummary := by
  unfold finalizeCompactionArchive
  refine Does.read ?_
  have happend : Does (appendRows (if .commit t ∈ d.log then [] else [.commit t])) d fun _ d' => d'.swapped = d.swapped := by
    refine Does.appendRows hd (fun hrows => ?_) rfl
    by_cases hc : .commit t ∈ d.log
    · rw [if_pos hc] at hrows
      exact absurd rfl hrows
    · rw [if_neg hc]
      exact hd.commit hlt ht
  refine Does.bind happend ?_
  intro _ d' hd' hl hswap
  refine Does.pure hd' ⟨hswap, ⟨?_, by simp⟩, rfl, rfl⟩
  rw [hswap]
  exact hs

theorem finishPending_does {f : Obj} (hd : Sound d) (hf : Backed d f) :
    Does (finishPending f) d fun s' d' => d'.swapped = d.swapped ∧ Backed d' s' ∧ s'.messages = f.messages ∧
      s'.metadata.lastSummary = f.metadata.lastSummary := by
  unfold finishPending
  cases hp : f.metadata.pendingTransaction with
  | none => exact Does.pure hd ⟨rfl, hf, rfl, rfl⟩
  | some t =>
    obtain ⟨hlt, ht⟩ := hf.pending t hp
    exact finalizeCompactionArchive_does hd hf.messages hlt ht

variable {stamp : Nat → Stamp}

theorem hydrate_does {events : List ArchiveEvent} (hd : Sound d)
    (hev : ∀ ev ∈ events, ev.state = .compacted → ev.entry.id ∈ S) (hms : CompactedIn S ms) (consumed : List Nat) :
    Does (hydrate stamp events consumed ms) d fun ms' d' => Quiet d d' ∧ CompactedIn S ms' := by
  induction ms generalizing d consumed with
  | nil => exact Does.pure hd ⟨Quiet.refl d, hms⟩
  | cons m ms ih =>
    obtain ⟨hm, hms⟩ := CompactedIn.cons.mp hms
    have hone : Does (identify stamp events consumed m) d fun m' d' => Quiet d d' ∧ CompactedIn S [m'] := by
      unfold identify
      cases m.id with
      | some i => exact Does.pure hd ⟨Quiet.refl d, hm⟩
      | none =>
        simp only
        split
        · rename_i ev hfind
          refine Does.pure hd ⟨Quiet.refl d, ?_⟩
          intro m' hm' hs
          rw [List.mem_singleton.mp hm'] at hs ⊢
          exact ⟨ev.entry.id, hev ev (List.mem_of_find?_eq_some hfind) (by simpa using hs), rfl⟩
        · exact (ensureEventIdentity_does hd hm).mono fun _ _ _ h => ⟨h.1, h.2.2⟩
    refine Does.bind hone ?_
    rintro m' d1 hd1 _ ⟨hq, hm'⟩
    refine Does.bind (ih hd1 hms _) ?_
    rintro ms' d2 hd2 _ ⟨hq', hms'⟩
    exact Does.pure hd2 ⟨hq.trans hq', CompactedIn.cons.mpr ⟨hm', hms'⟩⟩

theorem CompactedIn.markSummary (h : CompactedIn S ms) : CompactedIn S (markSummary ms) := by
  induction ms with
  | nil => exact h
  | cons m ms ih =>
    obtain ⟨hm, hms⟩ := CompactedIn.cons.mp h
    unfold Coverage.markSummary
    split
    · exact CompactedIn.cons.mpr ⟨fun m' hm' hs => by rw [List.mem_singleton.mp hm'] at hs ⊢; exact hm m (List.mem_singleton_self m) hs, hms⟩
    · exact CompactedIn.cons.mpr ⟨hm, ih hms⟩

/-- A migration that finds nothing to move. -/
theorem migrate_does (hd : Sound d) (hs : Backed d s) (hnone : activeOutside d.log s.messages = []) :
    Does (migrate stamp s) d fun s' d' => Backed d' s' := by
  unfold migrate
  refine Does.read ?_
  simp only [hnone, if_true]
  refine Does.bind (P := fun _ d' => d' = d) (Does.appendRows hd (fun h => absurd rfl h) (by simp)) ?_
  rintro _ _ _ _ rfl
  refine Does.read (Does.pure hd ⟨hs.messages.markSummary, hs.pending⟩)

theorem Does.exact {α : Type} {x : Durable Disk α} {P : α → Disk → Prop} (h : Does x d P) :
    Does x d fun a d' => P a d' ∧ a = (x d).value ∧ d' = (x d).store :=
  ⟨h.writes, h.returns.1, h.returns.2.1, h.returns.2.2, rfl, rfl⟩

theorem mem_inOrder {events : List ArchiveEvent} {ev : ArchiveEvent} : ev ∈ inOrder stamp events ↔ ev ∈ events :=
  List.mem_insertionSort _

theorem reconcileArchiveIdentities_does {f : Obj} (hd : Sound d) (hf : Backed d f)
    (hnone : f.metadata.lastSummary ≠ [] → stranded stamp d f = []) :
    Does (reconcileArchiveIdentities stamp f) d fun s' d' => Backed d' s' := by
  unfold reconcileArchiveIdentities
  refine Does.bind (finishPending_does hd hf).exact ?_
  rintro s1 d1 hd1 _ ⟨⟨_, hs1, hmsgs, hsum⟩, hs1eq, hd1eq⟩
  refine Does.read ?_
  have hev : ∀ ev ∈ inOrder stamp (snapshotFromRows d1.log).events, ev.state = .compacted → ev.entry.id ∈ d1.swapped := by
    intro ev hmem hs
    exact hd1.summarized (List.mem_filter.mpr ⟨mem_inOrder.mp hmem, by simpa using hs⟩)
  refine Does.bind (hydrate_does hd1 hev hs1.messages []).exact ?_
  rintro ms d2 hd2 hl2 ⟨⟨hq, hms⟩, hmseq, _⟩
  have hmess : CompactedIn d2.swapped ms := by rw [hq.swapped]; exact hms
  have hpend := (hs1.later hl2).pending
  by_cases hevents : inOrder stamp (snapshotFromRows d1.log).events = []
  · rw [if_pos hevents]
    exact Does.pure hd2 ⟨hmess, hpend⟩
  rw [if_neg hevents]
  by_cases hsummary : s1.metadata.lastSummary = []
  · simp only [hsummary, if_true]
    exact Does.pure hd2 ⟨hmess, hpend⟩
  · simp only [hsummary, if_false]
    refine migrate_does hd2 ⟨hmess, hpend⟩ ?_
    have hstranded := hnone (hsum ▸ hsummary)
    rw [stranded, ← hd1eq, ← hmsgs, ← hmseq] at hstranded
    rw [hq.log]
    exact hstranded

theorem stranded_of_nothing (h : nothingStranded stamp d = true) {f : Obj} (hfile : d.file = some f)
    (hs : f.metadata.lastSummary ≠ []) : stranded stamp d f = [] := by
  simpa [nothingStranded, hfile, hs] using h

theorem reload_does (hd : Sound d)
    (hnone : nothingStranded stamp d = true) :
    Does (reload stamp) d fun s' d' => Backed d' s' := by
  unfold reload
  refine Does.read ?_
  cases hfile : d.file with
  | none => exact Does.pure hd (Backed.empty d)
  | some f => exact reconcileArchiveIdentities_does hd (hd.file f hfile) (stranded_of_nothing hnone hfile)

theorem getOrCreate_does (hd : Sound d)
    (hnone : nothingStranded stamp d = true) :
    Does (getOrCreate stamp) d fun s' d' => Backed d' s' := by
  unfold getOrCreate
  refine Does.read ?_
  cases hfile : d.file with
  | none => exact reconcileArchiveIdentities_does hd (Backed.empty d) (fun h => absurd rfl h)
  | some f => exact reconcileArchiveIdentities_does hd (hd.file f hfile) (stranded_of_nothing hnone hfile)

/-! ### A compaction commit -/

theorem CompactedIn.marked {S ids : List Nat} (h : CompactedIn S ms) :
    CompactedIn (S ++ ids) (ms.map fun m => if m.id.any (· ∈ ids) then { m with state := some .compacted } else m) := by
  intro m hm hs
  obtain ⟨m0, hm0, rfl⟩ := List.mem_map.mp hm
  by_cases hin : m0.id.any (· ∈ ids) = true
  · rw [if_pos hin]
    cases hid : m0.id with
    | none => rw [hid] at hin; cases hin
    | some i => exact ⟨i, List.mem_append_right _ (by simpa [hid] using hin), rfl⟩
  · rw [if_neg hin] at hs ⊢
    obtain ⟨i, hi, hid⟩ := h m0 hm0 hs
    exact ⟨i, List.mem_append_left _ hi, hid⟩

theorem openTransaction_does {ids : List Nat} (hd : Sound d) (hs : CompactedIn S s.messages) :
    Does (openTransaction s ids) d fun r d' => d'.swapped = d.swapped ∧ r.1 < d'.fresh ∧
      (∀ is, .transition is .compacted (some r.1) ∈ d'.log → ∀ i ∈ is, i ∈ ids) ∧ CompactedIn (S ++ ids) r.2.messages := by
  unfold openTransaction
  refine Safe.bind (Safe.bind (Safe.read (Safe.bind (Safe.modify (Safe.pure ?_)))))
  have hnew : ∀ is state, .transition is state (some d.fresh) ∉ d.log := fun is state hrow =>
    Nat.lt_irrefl _ (hd.below d.fresh (Or.inr ⟨is, state, hrow⟩))
  unfold transitionArchiveEvents
  by_cases hids : ids = []
  · rw [if_pos hids]
    refine Safe.bind (Safe.pure (Safe.pure ⟨hd.drawn.1, hd.drawn.2, rfl, Nat.lt_succ_self _, ?_, ?_⟩))
    · exact fun is hrow => absurd hrow (hnew is _)
    · exact hs.mono fun i hi => List.mem_append_left _ hi
  · rw [if_neg hids]
    obtain ⟨hsound, hlater⟩ := hd.prepared ids
    refine Safe.bind (Safe.bind (Safe.write hsound (Safe.pure (Safe.pure ⟨hsound, hlater, rfl, Nat.lt_succ_self _, ?_, hs.marked⟩))))
    intro is hrow i hi
    rcases List.mem_append.mp hrow with hrow | hrow
    · exact absurd hrow (hnew is _)
    · simp only [List.mem_singleton, Row.transition.injEq] at hrow
      exact hrow.1 ▸ hi

theorem mem_matchFromEnd {source : List Stored} {kept : List Message} (h : some m ∈ matchFromEnd source kept) :
    m ∈ source := by
  induction kept generalizing source with
  | nil => cases h
  | cons k ks ih =>
    unfold matchFromEnd at h
    split at h
    · rcases List.mem_cons.mp h with h | h
      · cases h
      · exact absurd (ih h) List.not_mem_nil
    · rename_i m' rest hdrop
      have hsub : ∀ x ∈ m' :: rest, x ∈ source := fun x hx => by
        rw [← hdrop] at hx
        exact List.dropWhile_subset _ hx
      rcases List.mem_cons.mp h with h | h
      · cases h
        exact hsub _ List.mem_cons_self
      · exact hsub m (List.mem_cons_of_mem _ (ih h))

/-- A prepared compaction: what is compacted is a source message, or was compacted before. -/
structure Prepared.Good (p : Prepared) (d : Disk) : Prop where
  messages : CompactedIn (d.swapped ++ workingIds p.source) p.session.messages
  identities : ∀ m, some m ∈ p.identities → CompactedIn d.swapped [m]
  below : p.transaction < d.fresh
  names : ∀ is, .transition is .compacted (some p.transaction) ∈ d.log → ∀ i ∈ is, i ∈ workingIds p.source

theorem prepareCompactionArchive_does (hd : Sound d) (hs : Backed d s) (kept : List Message) (n : Nat) :
    Does (prepareCompactionArchive stamp s kept n) d fun p d' => p.Good d' := by
  unfold prepareCompactionArchive
  refine Does.bind (ensureEventIdentities_does hd hs.messages) ?_
  rintro ms d1 hd1 hl1 ⟨hq1, hlen, hms⟩
  have h1 : Ready d.swapped [] d1 { s with messages := ms } := hs.ready.step hl1 hq1.swapped hlen rfl hms
  refine Does.bind (flushFull_does hd1 h1) ?_
  rintro s2 d2 hd2 _ ⟨hs2, h2, _⟩
  simp only
  generalize hids : (workingIds (s2.messages.take n)).filter _ = compactedIds
  have hsub : ∀ i ∈ compactedIds, i ∈ workingIds (s2.messages.take n) := by
    rw [← hids]
    exact fun i hi => (List.mem_filter.mp hi).1
  refine Does.bind (openTransaction_does hd2 h2.messages) ?_
  rintro ⟨t, s3⟩ d3 hd3 _ ⟨hs3, hbelow, hnames, hms3⟩
  have hswapped : d3.swapped = d.swapped := by rw [hs3, hs2, hq1.swapped]
  refine Does.read (Does.pure hd3 ⟨?_, ?_, hbelow, fun is hrow i hi => hsub i (hnames is hrow i hi)⟩)
  · refine hms3.mono fun i hi => ?_
    rw [hswapped]
    rcases List.mem_append.mp hi with hi | hi
    · exact List.mem_append_left _ hi
    · exact List.mem_append_right _ (hsub i hi)
  · intro m hm
    have hmem : m ∈ s2.messages := by
      have := mem_matchFromEnd (List.mem_reverse.mp hm)
      exact List.mem_of_mem_take (List.mem_reverse.mp this)
    rw [hswapped]
    intro m' hm' hc
    rw [List.mem_singleton.mp hm'] at hc ⊢
    exact h2.messages m hmem hc

def RowsIn (S : List Nat) (rows : List KeptRow) : Prop :=
  ∀ row ∈ rows, match row with
    | .saved m => CompactedIn S [m]
    | .derived m => m.state = none

theorem addArchived_does (hd : Sound d) (hs : CompactedIn S s.messages) (hm : m.state = none) :
    Does (addArchived s m) d fun s' d' => d'.swapped = d.swapped ∧ CompactedIn S s'.messages ∧ s'.metadata = s.metadata := by
  have hnone : CompactedIn [] [m] := by
    intro m' hm' hc
    rw [List.mem_singleton.mp hm', hm] at hc
    cases hc
  unfold addArchived addMessage
  refine Does.bind (P := fun s' d' => Quiet d d' ∧ ∃ m', CompactedIn [] [m'] ∧ s' = { s with messages := s.messages ++ [m'] }) ?_ ?_
  · refine Does.bind (ensureEventIdentity_does hd hnone) ?_
    rintro m' d1 hd1 _ ⟨hq, _, hm'⟩
    exact Does.pure hd1 ⟨hq, m', hm', rfl⟩
  · rintro _ d1 hd1 _ ⟨hq, m', hm', rfl⟩
    have hrows : (((s.messages ++ [m']).getLast?.map Stored.row).toList) = [m'].map Stored.row := by simp
    simp only [hrows]
    refine Does.bind (appendRows_does hd1 (hm'.mono (by simp))) ?_
    intro _ d2 hd2 _ hs2
    exact Does.pure hd2 ⟨hs2.trans hq.swapped, hs.append (hm'.mono (by simp)), rfl⟩

theorem addKept_does {rows : List KeptRow} (hd : Sound d) (hs : CompactedIn S s.messages) (hrows : RowsIn S rows) :
    Does (addKept rows s) d fun s' d' => d'.swapped = d.swapped ∧ CompactedIn S s'.messages ∧ s'.metadata = s.metadata := by
  induction rows generalizing d s with
  | nil => exact Does.pure hd ⟨rfl, hs, rfl⟩
  | cons row rows ih =>
    have hrest : RowsIn S rows := fun r hr => hrows r (List.mem_cons_of_mem _ hr)
    have hrow := hrows row List.mem_cons_self
    cases row with
    | saved m => exact ih hd (hs.append hrow) hrest
    | derived m =>
      refine Does.bind (addArchived_does hd hs hrow) ?_
      rintro s1 d1 hd1 _ ⟨hs1, hms1, hmeta⟩
      exact (ih hd1 hms1 hrest).mono fun _ _ _ h => ⟨h.1.trans hs1, h.2.1, h.2.2.trans hmeta⟩

theorem rewrite_does {p : Prepared} (hd : Sound d) (hp : p.Good d) {rows : List KeptRow} {tail : List Stored}
    (hrows : RowsIn (d.swapped ++ workingIds p.source) rows) (htail : CompactedIn (d.swapped ++ workingIds p.source) tail)
    (summary : Summary) :
    Does (rewrite p summary rows tail) d fun s' d' =>
      Ready (d.swapped ++ workingIds p.source) (workingIds p.source) d' s' ∧ p.transaction < d'.fresh ∧
        ∀ is, .transition is .compacted (some p.transaction) ∈ d'.log → ∀ i ∈ is, i ∈ workingIds p.source := by
  unfold rewrite
  refine Does.bind (addArchived_does hd (S := d.swapped ++ workingIds p.source) (fun _ h => (List.not_mem_nil h).elim) rfl) ?_
  rintro s1 d1 hd1 hl1 ⟨hs1, hms1, _⟩
  refine Does.bind (addKept_does hd1 hms1 hrows) ?_
  rintro s2 d2 hd2 hl2 ⟨hs2, hms2, _⟩
  have hl := hl1.trans hl2
  have hnames : ∀ is, .transition is .compacted (some p.transaction) ∈ d2.log → ∀ i ∈ is, i ∈ workingIds p.source :=
    fun is hrow => hp.names is (hl.transitions is _ _ hp.below hrow)
  have hbelow := Nat.lt_of_lt_of_le hp.below hl.fresh
  refine Does.pure hd2 ⟨⟨hms2.append htail, ?_, Or.inl (by simp), ?_⟩, hbelow, hnames⟩
  · rw [hs2, hs1]
    exact fun _ hi => hi
  · intro t ht
    simp only [Option.some.injEq] at ht
    subst ht
    exact ⟨hbelow, fun is hrow i hi => List.mem_append_right _ (hnames is hrow i hi)⟩

theorem mergeTail_in {merged tail : List Stored} (h : CompactedIn S merged) (htail : CompactedIn S tail) :
    CompactedIn S (mergeTail merged tail) := by
  induction tail generalizing merged with
  | nil => exact h
  | cons m ms ih =>
    obtain ⟨hm, hms⟩ := CompactedIn.cons.mp htail
    unfold mergeTail
    simp only
    generalize (match m.id with | some i => _ | none => _ : Bool) = known
    refine ih ?_ hms
    cases known with
    | true => exact h
    | false => exact h.append hm

theorem keptRow_in {now : Option Nat} {k : Message} (identity : Option Stored)
    (h : ∀ m, identity = some m → CompactedIn S [m]) : RowsIn S [keptRow now k identity] := by
  intro row hrow
  rw [List.mem_singleton.mp hrow]
  cases identity with
  | none => rfl
  | some m =>
    intro m' hm' hs
    rw [List.mem_singleton.mp hm'] at hs ⊢
    cases hst : m.state with
    | none => simp [hst] at hs
    | some state => exact h m rfl m (List.mem_singleton_self m) (by simpa [hst] using hs)

/-- From the prepared transition to the second save. -/
theorem swapIn_does {p : Prepared} (hd : Sound d) (hp : p.Good d) {rows : List KeptRow} {tail : List Stored}
    (hrows : RowsIn (d.swapped ++ workingIds p.source) rows) (htail : CompactedIn (d.swapped ++ workingIds p.source) tail)
    (summary : Summary) :
    Does (swapIn p summary rows tail) d fun s' d' =>
      Backed d' s' ∧ p.transaction < d'.fresh ∧
        ∀ is, .transition is .compacted (some p.transaction) ∈ d'.log → ∀ i ∈ is, i ∈ d'.swapped := by
  refine Does.bind (rewrite_does hd hp hrows htail summary) ?_
  rintro s1 d1 hd1 _ ⟨hready, hbelow, hnames⟩
  refine (saveUnlocked_does hd1 hready (by simp)).mono ?_
  rintro s2 d2 hl ⟨hback, hswapped⟩
  refine ⟨hback, Nat.lt_of_lt_of_le hbelow hl.fresh, fun is hrow i hi => ?_⟩
  rw [hswapped]
  exact List.mem_append_right _ (hnames is (hl.transitions is _ _ hbelow hrow) i hi)

theorem commitCompaction_does (hd : Sound d) (hs : Backed d s) (hnone : nothingStranded stamp d = true) (c : Commit) :
    Does (commitCompaction stamp s c) d fun s' d' => Backed d' s' := by
  unfold commitCompaction
  refine Does.bind (reload_does hd hnone) ?_
  intro fresh d1 hd1 hl1 hfresh
  have hs1 := hs.later hl1
  split
  · exact Does.pure hd1 hs1
  split
  · exact Does.pure hd1 hs1
  have hmerged : Backed d1 { s with messages := mergeTail fresh.messages (s.messages.drop c.sourceMessageCount) } :=
    ⟨mergeTail_in hfresh.messages (hs1.messages.sublist fun _ hm => List.mem_of_mem_drop hm), hs1.pending⟩
  generalize ({ s with messages := mergeTail fresh.messages (s.messages.drop c.sourceMessageCount) } : Obj) = s1 at hmerged
  simp only
  split
  · exact Does.pure hd1 hmerged
  refine Does.bind (prepareCompactionArchive_does hd1 hmerged c.kept c.sourceMessageCount) ?_
  intro p d2 hd2 hl2 hp
  have hrows : RowsIn (d2.swapped ++ workingIds p.source) ((c.kept.zip p.identities).map fun (k, i) => keptRow c.now k i) := by
    intro row hrow
    obtain ⟨⟨k, identity⟩, hmem, rfl⟩ := List.mem_map.mp hrow
    refine keptRow_in _ (fun m hm => ?_) _ (List.mem_singleton_self _)
    have hin : some m ∈ p.identities := hm ▸ (List.of_mem_zip hmem).2
    exact (hp.identities m hin).mono fun i hi => List.mem_append_left _ hi
  have htail : CompactedIn (d2.swapped ++ workingIds p.source) ((s1.messages.drop c.sourceMessageCount).map lateCopy) := by
    intro m hm hc
    obtain ⟨m0, hm0, rfl⟩ := List.mem_map.mp hm
    obtain ⟨i, hi, hid⟩ := hmerged.messages m0 (List.mem_of_mem_drop hm0) hc
    exact ⟨i, List.mem_append_left _ (hl2.swapped i hi), hid⟩
  refine Does.bind (swapIn_does hd2 hp hrows htail _) ?_
  rintro s3 d3 hd3 _ ⟨hback, hbelow, hnames⟩
  refine Does.bind (finalizeCompactionArchive_does hd3 hback.messages hbelow hnames) ?_
  rintro s4 d4 hd4 _ ⟨_, hback4, _⟩
  exact (saveUnlocked_does hd4 hback4.ready (by simp)).mono fun _ _ _ h => h.1

theorem Backed.loaded (hd : Sound d) : Backed d (d.file.getD {}) := by
  cases hfile : d.file with
  | none => exact Backed.empty d
  | some f => exact hd.file f hfile

theorem threadRow_in {now : Option Nat} {messages : List Stored} (h : CompactedIn S messages) {k : Message} {i : Option Nat} :
    RowsIn S [threadRow now messages k i] := by
  unfold threadRow
  cases hrow : i.bind fun i => messages[i]? with
  | none => exact keptRow_in none (by simp)
  | some m =>
    obtain ⟨j, _, hj⟩ := Option.bind_eq_some_iff.mp hrow
    intro row hmem
    rw [List.mem_singleton.mp hmem]
    exact h.sublist fun _ hm' => List.mem_singleton.mp hm' ▸ List.mem_of_getElem? hj

theorem persistContext_does (hd : Sound d) (c : ThreadSummary) :
    Does (persistContext stamp c) d fun _ _ => True := by
  unfold persistContext
  refine Does.read (Does.bind (prepareCompactionArchive_does hd (Backed.loaded hd) _ _) ?_)
  intro p d1 hd1 _ hp
  have hrows : RowsIn (d1.swapped ++ workingIds p.source)
      ((c.kept.zip c.matched).map fun (k, i) => threadRow c.now p.session.messages k i) := by
    intro row hrow
    obtain ⟨⟨k, i⟩, _, rfl⟩ := List.mem_map.mp hrow
    exact threadRow_in hp.messages _ (List.mem_singleton_self _)
  refine Does.bind (swapIn_does hd1 hp hrows (fun _ h => (List.not_mem_nil h).elim) _) ?_
  rintro _ d2 hd2 _ ⟨_, hbelow, hnames⟩
  refine Does.read (Does.bind (finalizeCompactionArchive_does hd2 (Backed.loaded hd2).messages hbelow hnames) ?_)
  rintro s3 d3 hd3 _ ⟨_, hback, _⟩
  refine Does.bind (saveUnlocked_does hd3 hback.ready (by simp)) ?_
  intro _ d4 hd4 _ _
  exact Does.pure hd4 trivial

/-! ### Runs -/

theorem edit_does (hd : Sound d) (hs : Backed d s) (e : Edit) : Does (edit s e) d fun s' d' => Backed d' s' := by
  cases e with
  | add message timestamp =>
    have hnone : CompactedIn d.swapped [({ message, timestamp } : Stored)] := by
      intro m hm hc
      rw [List.mem_singleton.mp hm] at hc
      cases hc
    refine Does.bind (ensureEventIdentity_does hd hnone) ?_
    rintro m d1 hd1 hl ⟨hq, _, hm⟩
    have h1 := hs.later hl
    exact Does.pure hd1 ⟨h1.messages.append (hq.swapped ▸ hm), h1.pending⟩
  | keepFirst n => exact Does.pure hd ⟨hs.messages.sublist fun _ hm => List.mem_of_mem_take hm, hs.pending⟩
  | resetConversationContext => exact Does.pure hd (Backed.empty d)

theorem edits_does {es : List Edit} (hd : Sound d) (hs : Backed d s) :
    Does (edits es s) d fun s' d' => Backed d' s' := by
  induction es generalizing d s with
  | nil => exact Does.pure hd hs
  | cons e es ih =>
    refine Does.bind (edit_does hd hs e) ?_
    intro s1 d1 hd1 _ hs1
    exact ih hd1 hs1

theorem mutate_does (hd : Sound d) (es : List Edit) : Does (mutate es) d fun s' d' => Backed d' s' := by
  unfold mutate
  refine Does.read (Does.bind (edits_does hd (Backed.loaded hd)) ?_)
  intro s1 d1 hd1 _ hs1
  exact (saveUnlocked_does hd1 hs1.ready (by simp)).mono fun _ _ _ h => h.1

structure Inv (w : World) : Prop where
  sound : Sound w.disk
  live : ∀ s, w.live = some s → Backed w.disk s

theorem start_inv : Inv {} where
  sound := ⟨by simp, by simp [entries], by simp, by simp⟩
  live := by simp

theorem perform_inv {α : Type} {w : World} {x : Durable Disk α} {P : α → Disk → Prop} (h : Inv w) (hx : Does x w.disk P)
    (cached : α → Option Obj) (hcached : ∀ a d' s, P a d' → cached a = some s → Backed d' s) (dies : Option Nat) :
    Inv (perform w x dies cached) := by
  cases dies with
  | none => exact ⟨hx.returns.1, fun s hs => hcached _ _ s hx.returns.2.2 hs⟩
  | some n => exact ⟨Safe.left hx h.sound n, by simp [perform]⟩

theorem step_inv {w : World} (h : Inv w) (e : Ev) (hok : Unstranded stamp w e = true) : Inv (step stamp w e) := by
  have hcached : ∀ (s : Obj) (d' : Disk) s', Backed d' s → some s = some s' → Backed d' s' := by
    intro s d' s' hs heq
    cases heq
    exact hs
  cases e with
  | getOrCreate dies =>
    cases hlive : w.live with
    | some s => simpa [step, hlive] using h
    | none =>
      simp only [step, hlive]
      have hok : nothingStranded stamp w.disk = true := by simpa [Unstranded, hlive] using hok
      exact perform_inv h (getOrCreate_does h.sound hok) _ hcached dies
  | edit e =>
    cases hlive : w.live with
    | none => simpa [step, hlive] using h
    | some s =>
      simp only [step, hlive]
      exact perform_inv h (edit_does h.sound (h.live s hlive) e) _ hcached none
  | save pending dies =>
    cases hlive : w.live with
    | none => simpa [step, hlive] using h
    | some s =>
      simp only [step, hlive]
      refine perform_inv h (saveUnlocked_does h.sound (h.live s hlive).ready ?_) _ (fun _ _ s' hs => hcached _ _ s' hs.1) dies
      intro m hm
      obtain ⟨_, _, rfl⟩ := List.mem_map.mp hm
      rfl
  | mutate es dies => exact perform_inv h (mutate_does h.sound es) _ hcached dies
  | commitCompaction c dies =>
    cases hlive : w.live with
    | none => simpa [step, hlive] using h
    | some s =>
      simp only [step, hlive]
      exact perform_inv h (commitCompaction_does h.sound (h.live s hlive) hok c) _ hcached dies
  | persistContext c dies => exact perform_inv h (persistContext_does h.sound c) (fun _ => none) (by simp) dies
  | evict => exact ⟨h.sound, by simp [step]⟩

/-- However often the process dies, an event is counted as represented by a summary only
    if it was a source message of a compaction that was swapped in. -/
theorem summarized_was_source (stamp : Nat → Stamp) {w : World} (h : Reach (step stamp) (Unstranded stamp · ·) {} w) :
    ∀ ev ∈ summarized w.disk.log, ev.entry.id ∈ w.disk.swapped := by
  have hinv : Inv w := h.invariant start_inv fun _ e hw hok => step_inv hw e hok
  exact fun ev hev => hinv.sound.summarized hev

end

/-! ## Runs of one conversation -/

namespace Sample

def stamp (i : Nat) : Stamp := ⟨i, some i⟩

def hello : Message := { role := .user, content := .text "Hello.".toList }
def hi : Message := { role := .assistant, content := .text "Hi.".toList }
def whatIsNew : Message := { role := .user, content := .text "What is new?".toList }

def greeted : List Ev :=
  [.getOrCreate none, .edit (.add hello (some 1)), .edit (.add hi (some 2)), .save [] none]

def summary : Commit :=
  { sourceMessageCount := 2
    sourceFingerprint := [messageFingerprint (some 1) hello, messageFingerprint (some 2) hi]
    kept := []
    summary := "A greeting.".toList
    now := some 3 }

/-- The save of a third message dies between the archive and the canonical file. -/
def thirdMessageLost : List Ev :=
  greeted ++ [Ev.commitCompaction summary none, .edit (.add whatIsNew (some 5)), .save [] (some 1), .getOrCreate none]

/-- The third message is event 5. The reload counts it as summarized. -/
theorem reload_counts_a_lost_message :
    let w := thirdMessageLost.foldl (step stamp) {}
    5 ∈ (summarized w.disk.log).map (·.entry.id) ∧ 5 ∉ w.disk.swapped ∧
      (w.live.map fun s => (contextCoverage stamp w.disk.log s).compactedEvents) = some 3 := by
  -- as characters, since the kernel takes long to decode the content the commit writes
  rw [thirdMessageLost, List.foldl_append, List.foldl_cons]
  generalize hw : List.foldl (step stamp) {} greeted = w
  unfold step
  dsimp only
  unfold commitCompaction Compaction.buildSummaryContent Compaction.SUMMARY_REFERENCE_PREAMBLE
  repeat rw [String.toList_append]
  repeat rw [String.toList_ofList]
  subst hw
  decide +kernel

/-- A thread's commit keeps the reply, and dies between the canonical swap and the commit row. -/
def commitInterrupted : List Ev :=
  greeted ++
    [Ev.persistContext
       { kept := [hi], matched := [some 1], content := "[Previous conversation summary] A greeting.".toList, now := some 3 } (some 3),
     .getOrCreate none, .edit (.add whatIsNew (some 5)), .save [] none]

theorem commitInterrupted_was_source :
    (summarized (commitInterrupted.foldl (step stamp) {}).disk.log).map (·.entry.id) ⊆
      (commitInterrupted.foldl (step stamp) {}).disk.swapped := by
  intro id hid
  obtain ⟨ev, hev, rfl⟩ := List.mem_map.mp hid
  exact summarized_was_source stamp (Reach.foldl _ _ .start (by decide +kernel)) ev hev

end Sample

end Flowly.Session.Coverage
