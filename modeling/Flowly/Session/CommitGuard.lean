/-
  Flowly.Session.CommitGuard — the merge in front of a compaction's rewrite
  (`flowly/session/manager.py`: `source_fingerprint`, `compaction_commit_guard`,
  `_reconcile_archive_identities`; `flowly/session/archive.py`: `coverage_descriptor`).

  One key under the session write lock: the canonical file, the log and the live object.
  The file is what `_load` makes of it, none where it is missing or cannot be read. What
  is digested, the answer of `is_summary_message` and the random part of new ids are
  given, and so is whether `int()` raises on a number of the file or the snapshot on a row of
  the log: that error is no `ConcurrentSessionWriteError`, and nothing catches it. The live object's next number and
  the fences are numbers. The row that marks a context boundary is no event and is left
  out, as is the write of the rewrite itself.

  Proved: a refused commit leaves the live object as it is, and an accepted one makes it
  the file's messages, each with an identity, and behind them the new messages of the
  live tail, in order and each identity once (`guard_merges`). Whether that is all the
  file and the tail have, without a message twice and with the counter above every one,
  depends on the two of them (`commits_iff`): every loaded message has an id, so a message
  without one is never known, although the file may have it; and where the file is newer
  the object takes the file's counter before the two are compared, so its own is lost.
-/

import Flowly.Lib.Missing
import Flowly.Session.EventSequence

namespace Flowly.Session.CommitGuard

open Flowly.Lib
open Flowly.Session.EventSequence (Body ensureEventIdentity identified maxSequence ownSeq seqs transitionRow)

abbrev Message (β : Type) := EventSequence.Message β

/-- What `coverage_descriptor` digests and counts. -/
structure Descriptor where
  eventIds : List String
  startSequence : Int
  endSequence : Int
  deriving DecidableEq

structure Stored (β : Type) where
  row : Message β
  /-- `_archive_summary`. -/
  archiveSummary : Bool := false
  summaryCovers : Option Descriptor := none
  deriving DecidableEq

structure Metadata (γ : Type) where
  /-- `_session_revision`. -/
  revision : Option Int := none
  nextEventSeq : Option Int := none
  compactionFence : Option Int := none
  fullLogCount : Option Nat := none
  pendingTransaction : String := ""
  /-- The truth value of `last_compaction_summary`. -/
  hasSummary : Bool := false
  lastCompactionCoverage : Option Descriptor := none
  rest : γ
  deriving DecidableEq

structure Obj (β γ : Type) where
  messages : List (Stored β)
  metadata : Metadata γ
  /-- `int()` raises on the next number, or on the number of a message. -/
  numberRaises : Bool := false
  createdAt : Nat
  updatedAt : Nat
  deriving DecidableEq

structure World (β γ : Type) where
  file : Option (Obj β γ)
  log : List (Message β)
  live : Obj β γ

structure Given (β γ : Type) where
  fingerprint : Body β → String
  /-- `source_fingerprint` of the fingerprints. -/
  digest : List String → String
  isSummary : Body β → Bool
  uuid : Nat → String
  now : Nat
  /-- The body of a row that is no message, and metadata without content. -/
  blank : Body β
  empty : γ

variable {β γ : Type} (given : Given β γ)

def rows (messages : List (Stored β)) : List (Message β) := messages.map (·.row)

/-- `int(metadata.get("_next_event_seq", 1) or 1)`. -/
def Metadata.storedNext (m : Metadata γ) : Int := if m.nextEventSeq.getD 1 = 0 then 1 else m.nextEventSeq.getD 1

/-- `_revision`. -/
def Metadata.revisionOf (m : Metadata γ) : Int := max 0 (m.revision.getD 0)

/-! ## Loading -/

def transactionIsCommitted (log : List (Message β)) (transaction : String) : Bool :=
  log.any fun row => row.type = .commit ∧ row.transactionId = .text transaction

def coverageDescriptor (events : List (Transactions.Event (Body β))) : Descriptor :=
  let ordered := events.mergeSort Transactions.inOrder
  { eventIds := ordered.map (·.eventId)
    startSequence := (ordered.head?.map (·.sequence)).getD 0
    endSequence := (ordered.getLast?.map (·.sequence)).getD 0 }

def adopt (event : Transactions.Event (Body β)) (row : Message β) : Message β :=
  { row with
    eventSeq := some (max 1 ((ownSeq row).getD event.sequence))
    eventId := if row.eventId.truthy then row.eventId else .text event.eventId
    archiveState := some event.state }

/-- Each message without an identity takes that of the first event with its fingerprint
    that no message before it has; else it gets the next number. -/
def hydrate (events : List (Transactions.Event (Body β))) : List String → Int → List (Stored β) → List (Stored β)
  | _, _, [] => []
  | consumed, next, m :: ms =>
    if identified m.row then m :: hydrate events (consumed ++ [m.row.eventId.str]) next ms
    else
      match events.find? fun e => given.fingerprint e.message.body = given.fingerprint m.row.body ∧ e.eventId ∉ consumed with
      | some event => { m with row := adopt event m.row } :: hydrate events (consumed ++ [event.eventId]) next ms
      | none =>
        let row := ensureEventIdentity (ownSeq m.row) next (given.uuid consumed.length) m.row
        { m with row } :: hydrate events (consumed ++ [row.eventId.str]) (next + 1) ms

def markSummary (covers : Descriptor) : List (Stored β) → List (Stored β)
  | [] => []
  | m :: ms =>
    if given.isSummary m.row.body then
      { row := { m.row with displayHidden := true }, archiveSummary := true, summaryCovers := some covers } :: ms
    else m :: markSummary covers ms

/-- A compaction by an older build: what is not in the working context is compacted. -/
def migrate (s : Obj β γ) (log : List (Message β)) : Obj β γ × List (Message β) :=
  let workingIds := ((rows s.messages).filter (·.eventId.truthy)).map (·.eventId.str)
  let missingActive := ((Transactions.snapshotFromRows given.fingerprint log).filter fun e =>
    (e.state = .active ∨ e.state = .internalHidden) ∧ e.eventId ∉ workingIds).map (·.eventId)
  let log := if missingActive = [] then log else log ++ [transitionRow missingActive.dedup .compacted given.blank]
  let compacted := (Transactions.snapshotFromRows given.fingerprint log).filter (·.state = .compacted)
  let descriptor := coverageDescriptor compacted
  ({ s with
     messages := markSummary given descriptor s.messages
     metadata := { s.metadata with lastCompactionCoverage := some descriptor } }, log)

/-- The log with the commit row of a transaction whose summary is in the file. -/
def finished (s : Obj β γ) (log : List (Message β)) : List (Message β) :=
  let transaction := s.metadata.pendingTransaction
  if transaction ≠ "" ∧ !transactionIsCommitted log transaction then
    log ++ [Transactions.commitRecord transaction given.blank]
  else log

/-- `_reconcile_archive_identities` ends in an error that nothing catches. -/
def reconcileRaises (s : Obj β γ) (log : List (Message β)) : Bool :=
  s.numberRaises || Transactions.anyRaises (finished given s log)

def reconcileArchiveIdentities (s : Obj β γ) (log : List (Message β)) : Obj β γ × List (Message β) :=
  let log := finished given s log
  let events := Transactions.snapshotFromRows given.fingerprint log
  let maxSeq := ((events.map (·.sequence)).max?).getD 0
  let messages := hydrate given events [] (maxSeq + 1) s.messages
  let next := max (max s.metadata.storedNext (maxSeq + 1)) (1 + maxSequence (rows messages))
  let fullLogCount := if events = [] then s.metadata.fullLogCount else some (s.metadata.fullLogCount.getD messages.length)
  let s := { s with messages, metadata := { s.metadata with pendingTransaction := "", nextEventSeq := some next, fullLogCount } }
  if !s.metadata.hasSummary ∨ events = [] then (s, log) else migrate given s log

/-- The object loaded for the commit, and the log after it; `Session(key)` without a file. -/
def fresh (w : World β γ) : Obj β γ × List (Message β) :=
  match w.file with
  | none => ({ messages := [], metadata := { rest := given.empty }, createdAt := given.now, updatedAt := given.now }, w.log)
  | some file => reconcileArchiveIdentities given file w.log

/-! ## The guard -/

def sourceFingerprint (messages : List (Stored β)) (count : Nat) : String :=
  given.digest ((messages.take count).map fun m => given.fingerprint m.row.body)

/-- What the merge knows a message of the live tail by: its id, or its fingerprint. -/
def identity (m : Stored β) : String ⊕ String :=
  if m.row.eventId.str ≠ "" then .inl m.row.eventId.str else .inr (given.fingerprint m.row.body)

/-- `known_ids` and `known_legacy`. -/
def knownAs (m : Stored β) : String ⊕ String :=
  if m.row.eventId.truthy then .inl m.row.eventId.str else .inr (given.fingerprint m.row.body)

/-- How the guard raises: `ConcurrentSessionWriteError`, or else what the reconciliation raised. -/
inductive Refusal where
  | disappeared
  | shorter
  | changed
  | staleFence
  | numberRaised
  deriving DecidableEq

def previousFence (m : Metadata γ) : Int := m.compactionFence.getD 0

def merge (fresh live : Obj β γ) (sourceMessageCount : Nat) (fence : Int) : Obj β γ :=
  let tail := missing (identity given) (fresh.messages.map (knownAs given)) (live.messages.drop sourceMessageCount)
  let metadata := if fresh.metadata.revisionOf = live.metadata.revisionOf then live.metadata else fresh.metadata
  -- the live object's own next number counts only where its metadata is kept
  let metadata := { metadata with nextEventSeq := some (max metadata.storedNext fresh.metadata.storedNext) }
  { messages := fresh.messages ++ tail
    metadata := if 0 < fence then { metadata with compactionFence := some fence } else metadata
    createdAt := fresh.createdAt
    updatedAt := fresh.updatedAt }

def compactionCommitGuard (w : World β γ) (sourceMessageCount : Nat) (sourceFp : String) (fence : Int) :
    Except Refusal Unit × World β γ :=
  if w.file.isNone ∧ sourceMessageCount ≠ 0 then (.error .disappeared, w)
  else if w.file.any fun file => reconcileRaises given file w.log then
    (.error .numberRaised, { w with log := (w.file.map fun file => finished given file w.log).getD w.log })
  else
    let (loaded, log) := fresh given w
    let w := { w with log }
    if loaded.messages.length < sourceMessageCount then (.error .shorter, w)
    else if sourceFingerprint given loaded.messages sourceMessageCount ≠ sourceFp then (.error .changed, w)
    else if 0 < fence ∧ fence ≤ previousFence loaded.metadata then (.error .staleFence, w)
    else (.ok (), { w with live := merge given loaded w.live sourceMessageCount fence })

/-! ## The file's messages -/

structure Same (stored loaded : Stored β) : Prop where
  body : loaded.row.body = stored.row.body
  identified : identified loaded.row = true
  id : stored.row.eventId.truthy = true → loaded.row.eventId = stored.row.eventId

theorem moved_ids (s : Transactions.Reading (Body β)) (state : ArchiveState) (ids : List String)
    (h : ∀ e ∈ s.events, e.eventId ≠ "") : ∀ e ∈ (ids.foldl (·.moved state) s).events, e.eventId ≠ "" := by
  induction ids generalizing s with
  | nil => exact h
  | cons id ids ih =>
    refine ih _ fun e he => ?_
    obtain ⟨old, hold, rfl⟩ := List.mem_map.mp he
    split
    · exact h old hold
    · exact h old hold

theorem rowId_ne (fingerprint : Body β → String) (seen : List String) (row : Message β) :
    Transactions.rowId fingerprint seen row ≠ "" := by
  unfold Transactions.rowId
  split
  · assumption
  · simp [Transactions.legacyEventId]

/-- The events of a snapshot have ids. -/
theorem snapshot_ids (fingerprint : Body β → String) (log : List (Message β)) :
    ∀ e ∈ Transactions.snapshotFromRows fingerprint log, e.eventId ≠ "" := by
  have hfold : ∀ (committed : List String) (rows : List (Message β)) (s : Transactions.Reading (Body β)),
      (∀ e ∈ s.events, e.eventId ≠ "") → ∀ e ∈ (rows.foldl (Transactions.readRow fingerprint committed) s).events, e.eventId ≠ "" := by
    intro committed rows
    induction rows with
    | nil => exact fun s h => h
    | cons row rows ih =>
      intro s h
      refine ih _ ?_
      unfold Transactions.readRow
      split
      · exact h
      · split
        · split
          · split
            · exact moved_ids s _ _ h
            · exact h
          · exact h
        · split
          · exact h
          · intro e he
            simp only [Transactions.Reading.message] at he
            split at he
            · exact h e he
            · rcases List.mem_append.mp he with he | he
              · exact h e he
              · rw [List.mem_singleton.mp he]
                exact rowId_ne fingerprint _ row
  exact fun e he => hfold _ log {} (List.forall_mem_nil _) e (List.mem_mergeSort.mp he)

theorem adopt_same (event : Transactions.Event (Body β)) (m : Stored β) (h : event.eventId ≠ "") :
    Same m { m with row := adopt event m.row } := by
  refine ⟨rfl, ?_, fun ht => ?_⟩
  · have hpos : max 1 ((ownSeq m.row).getD event.sequence) ≠ 0 := by omega
    have hid : (adopt event m.row).eventId.truthy = true := by
      simp only [adopt]
      split
      · assumption
      · simpa [IdValue.truthy] using h
    rw [EventSequence.identified, hid, Bool.true_and]
    show ((some (max 1 ((ownSeq m.row).getD event.sequence))).filter (· ≠ 0)).isSome = true
    generalize (ownSeq m.row).getD event.sequence = own at hpos
    simp [hpos]
  · simp only [adopt, if_pos ht]

theorem ensure_same (own : Option Int) (sequence : Int) (uuid : String) (m : Stored β) :
    Same m { m with row := ensureEventIdentity own sequence uuid m.row } :=
  ⟨rfl, EventSequence.ensureEventIdentity_identified _ _ _ _, fun ht => by simp only [ensureEventIdentity, if_pos ht]⟩

theorem hydrate_same {events : List (Transactions.Event (Body β))} (h : ∀ e ∈ events, e.eventId ≠ "") (consumed : List String)
    (next : Int) (ms : List (Stored β)) : List.Forall₂ Same ms (hydrate given events consumed next ms) := by
  induction ms generalizing consumed next with
  | nil => exact .nil
  | cons m ms ih =>
    rw [hydrate]
    split
    · rename_i hid
      exact .cons ⟨rfl, hid, fun _ => rfl⟩ (ih _ _)
    · split
      · rename_i event hevent
        exact .cons (adopt_same event m (h event (List.mem_of_find?_eq_some hevent))) (ih _ _)
      · exact .cons (ensure_same _ _ _ m) (ih _ _)

theorem markSummary_same (covers : Descriptor) {file ms : List (Stored β)} (h : List.Forall₂ Same file ms) :
    List.Forall₂ Same file (markSummary given covers ms) := by
  induction h with
  | nil => exact .nil
  | cons hm hms ih =>
    rw [markSummary]
    split
    · exact .cons ⟨hm.body, hm.identified, hm.id⟩ hms
    · exact .cons hm ih

theorem markSummary_rows (covers : Descriptor) (ms : List (Stored β)) :
    seqs (rows (markSummary given covers ms)) = seqs (rows ms) := by
  induction ms with
  | nil => rfl
  | cons m ms ih =>
    rw [markSummary]
    split
    · rfl
    · simp only [rows, seqs, List.map_cons] at ih ⊢
      rw [ih]

/-- What loading makes of the file: its messages, each with an identity and a number below
    the next one, and its fence. -/
structure Loaded (file loaded : Obj β γ) : Prop where
  messages : List.Forall₂ Same file.messages loaded.messages
  below : ∀ n ∈ seqs (rows loaded.messages), n < loaded.metadata.storedNext
  revision : loaded.metadata.revision = file.metadata.revision
  fence : loaded.metadata.compactionFence = file.metadata.compactionFence

theorem lt_storedNext {m : Metadata γ} {n next : Int} (h : m.nextEventSeq = some next) (hn : n < next) : n < m.storedNext := by
  unfold Metadata.storedNext
  rw [h]
  split
  · rename_i hzero
    simp only [Option.getD_some] at hzero
    omega
  · exact hn

theorem le_maxSequence {ms : List (Message β)} {n : Int} (h : n ∈ seqs ms) : n ≤ maxSequence ms := by
  obtain ⟨top, htop⟩ := Option.isSome_iff_exists.mp (List.isSome_max?_of_mem h)
  rw [maxSequence, htop, Option.getD_some]
  exact (List.max?_eq_some_iff.mp htop).2 n h

theorem migrate_loaded {file s : Obj β γ} (h : Loaded file s) (log : List (Message β)) : Loaded file (migrate given s log).1 := by
  refine ⟨markSummary_same given _ h.messages, ?_, h.revision, h.fence⟩
  show ∀ n ∈ seqs (rows (markSummary given _ s.messages)), n < s.metadata.storedNext
  rw [markSummary_rows]
  exact h.below

theorem reconcile_loaded (file : Obj β γ) (log : List (Message β)) :
    Loaded file (reconcileArchiveIdentities given file log).1 := by
  simp only [reconcileArchiveIdentities]
  generalize finished given file log = log'
  have hids := snapshot_ids given.fingerprint log'
  generalize Transactions.snapshotFromRows given.fingerprint log' = events at hids ⊢
  generalize ((events.map (·.sequence)).max?).getD 0 = maxSeq
  have hsame := hydrate_same given hids [] (maxSeq + 1) file.messages
  generalize hydrate given events [] (maxSeq + 1) file.messages = messages at hsame ⊢
  have hloaded : ∀ count : Option Nat, Loaded file { file with
      messages
      metadata := { file.metadata with
        pendingTransaction := ""
        nextEventSeq := some (max (max file.metadata.storedNext (maxSeq + 1)) (1 + maxSequence (rows messages)))
        fullLogCount := count } } := by
    refine fun count => ⟨hsame, fun n hn => lt_storedNext rfl ?_, rfl, rfl⟩
    have hmax : n ≤ maxSequence (rows messages) := le_maxSequence hn
    omega
  split
  · exact hloaded _
  · exact migrate_loaded given (hloaded _) log'

/-! ## The merge -/

def World.stored (w : World β γ) : List (Stored β) := (w.file.map (·.messages)).getD []

def World.storedFence (w : World β γ) : Int := (w.file.map fun f => previousFence f.metadata).getD 0

/-- A message of the tail that neither the loaded file nor the tail before it has. -/
def New (file tail : List (Stored β)) (m : Stored β) : Prop :=
  ∃ before after, tail = before ++ m :: after ∧ identity given m ∉ file.map (knownAs given) ++ before.map (identity given)

/-- What an accepted commit leaves. -/
structure Merged (w w' : World β γ) (sourceMessageCount : Nat) (fence : Int) (loaded : Obj β γ)
    (added : List (Stored β)) : Prop where
  messages : w'.live.messages = loaded.messages ++ added
  inOrder : added.Sublist (w.live.messages.drop sourceMessageCount)
  new : ∀ m, m ∈ added ↔ New given loaded.messages (w.live.messages.drop sourceMessageCount) m
  once : (added.map (identity given)).Nodup
  counter : w'.live.metadata.nextEventSeq = some (max
    (if loaded.metadata.revisionOf = w.live.metadata.revisionOf then w.live.metadata else loaded.metadata).storedNext
    loaded.metadata.storedNext)
  fence : previousFence w'.live.metadata = if 0 < fence then fence else previousFence
    (if loaded.metadata.revisionOf = w.live.metadata.revisionOf then w.live.metadata else loaded.metadata)

/-- What the commit works with, with or without a file. -/
structure Fresh (w : World β γ) (loaded : Obj β γ) : Prop where
  messages : List.Forall₂ Same w.stored loaded.messages
  below : ∀ n ∈ seqs (rows loaded.messages), n < loaded.metadata.storedNext
  revision : loaded.metadata.revisionOf = (w.file.map (·.metadata.revisionOf)).getD 0
  fence : previousFence loaded.metadata = w.storedFence

theorem fresh_spec (w : World β γ) : Fresh w (fresh given w).1 := by
  unfold fresh
  cases hfile : w.file with
  | none =>
    refine ⟨?_, List.forall_mem_nil _, ?_, ?_⟩
    · rw [World.stored, hfile]
      exact .nil
    · rw [hfile]
      rfl
    · rw [World.storedFence, hfile]
      rfl
  | some file =>
    have h := reconcile_loaded given file w.log
    refine ⟨?_, h.below, ?_, ?_⟩
    · rw [World.stored, hfile]
      exact h.messages
    · simp only [Metadata.revisionOf, h.revision, hfile, Option.map_some, Option.getD_some]
    · simp only [previousFence, h.fence, World.storedFence, hfile, Option.map_some, Option.getD_some]

theorem merge_merged (w : World β γ) (log : List (Message β)) (loaded : Obj β γ) (sourceMessageCount : Nat) (fence : Int) :
    Merged given w { w with log, live := merge given loaded w.live sourceMessageCount fence } sourceMessageCount fence loaded
      (missing (identity given) (loaded.messages.map (knownAs given)) (w.live.messages.drop sourceMessageCount)) where
  messages := rfl
  inOrder := missing_sublist _ _ _
  new := fun _ => mem_missing
  once := missing_nodup _ _ _
  counter := by
    simp only [merge]
    split
    · rfl
    · rfl
  fence := by
    simp only [merge]
    by_cases h : 0 < fence
    · simp only [if_pos h, previousFence, Option.getD_some]
    · simp only [if_neg h, previousFence]

/-! ## When the guard lets a commit through -/

/-- No check of the guard fails. -/
structure Passes (w : World β γ) (sourceMessageCount : Nat) (sourceFp : String) (fence : Int) : Prop where
  present : w.file = none → sourceMessageCount = 0
  long : sourceMessageCount ≤ (fresh given w).1.messages.length
  unchanged : sourceFingerprint given (fresh given w).1.messages sourceMessageCount = sourceFp
  ahead : 0 < fence → w.storedFence < fence

/-- A number of the file or of its log makes `int()` raise. -/
def Raises (w : World β γ) : Prop := ∃ file, w.file = some file ∧ reconcileRaises given file w.log

variable {given} {w : World β γ} {sourceMessageCount : Nat} {sourceFp : String} {fence : Int}

theorem any_raises : (w.file.any fun file => reconcileRaises given file w.log) = true ↔ Raises given w := by
  rw [Option.any_eq_true]
  rfl

theorem guard_raised (h : Raises given w) :
    (compactionCommitGuard given w sourceMessageCount sourceFp fence).1 = .error .numberRaised := by
  obtain ⟨file, hfile, _⟩ := id h
  unfold compactionCommitGuard
  rw [if_neg (by simp [hfile]), if_pos (any_raises.mpr h)]

theorem guard_passes (h : ¬ Raises given w) (hpass : Passes given w sourceMessageCount sourceFp fence) :
    compactionCommitGuard given w sourceMessageCount sourceFp fence =
      (.ok (), { w with log := (fresh given w).2, live := merge given (fresh given w).1 w.live sourceMessageCount fence }) := by
  unfold compactionCommitGuard
  rw [if_neg (fun hnone => hnone.2 (hpass.present (Option.isNone_iff_eq_none.mp hnone.1))),
    if_neg (fun hany => h (any_raises.mp hany))]
  simp only
  rw [if_neg (Nat.not_lt.mpr hpass.long), if_neg (not_not.mpr hpass.unchanged), if_neg]
  rintro ⟨hpos, hle⟩
  rw [(fresh_spec given w).fence] at hle
  exact absurd (hpass.ahead hpos) (not_lt.mpr hle)

theorem guard_refuses (h : ¬ Raises given w) (hpass : ¬ Passes given w sourceMessageCount sourceFp fence) :
    ∃ refusal log, compactionCommitGuard given w sourceMessageCount sourceFp fence = (.error refusal, { w with log }) ∧
      refusal ≠ .numberRaised := by
  unfold compactionCommitGuard
  split
  · exact ⟨_, w.log, rfl, nofun⟩
  · rename_i hpresent
    rw [if_neg (fun hany => h (any_raises.mp hany))]
    simp only
    split
    · exact ⟨_, _, rfl, nofun⟩
    · rename_i hlong
      split
      · exact ⟨_, _, rfl, nofun⟩
      · rename_i hsame
        split
        · exact ⟨_, _, rfl, nofun⟩
        · rename_i hfence
          refine absurd ⟨fun hnone => ?_, Nat.not_lt.mp hlong, not_not.mp hsame, fun hpos => ?_⟩ hpass
          · exact by_contra fun hcount => hpresent ⟨by rw [hnone]; rfl, hcount⟩
          · rw [← (fresh_spec given w).fence]
            exact lt_of_not_ge fun hle => hfence ⟨hpos, hle⟩

/-- A refused commit leaves the live object and the file alone; an accepted one merges. -/
theorem guard_merges (w : World β γ) (sourceMessageCount : Nat) (sourceFp : String) (fence : Int) :
    let result := compactionCommitGuard given w sourceMessageCount sourceFp fence
    result.2.file = w.file ∧
      ((∃ refusal, result.1 = .error refusal ∧ result.2.live = w.live) ∨
        result.1 = .ok () ∧ ∃ loaded added, Fresh w loaded ∧ Merged given w result.2 sourceMessageCount fence loaded added) := by
  intro result
  by_cases hr : Raises given w
  · have hraised : result.1 = .error .numberRaised := guard_raised hr
    obtain ⟨file, hfile, _⟩ := id hr
    have hresult : result = (.error .numberRaised,
        { w with log := (w.file.map fun file => finished given file w.log).getD w.log }) := by
      simp only [result, compactionCommitGuard]
      rw [if_neg (by simp [hfile]), if_pos (any_raises.mpr hr)]
    rw [hresult]
    exact ⟨rfl, Or.inl ⟨_, rfl, rfl⟩⟩
  · by_cases hp : Passes given w sourceMessageCount sourceFp fence
    · have hresult : result = _ := guard_passes hr hp
      rw [hresult]
      exact ⟨rfl, Or.inr ⟨rfl, _, _, fresh_spec given w, merge_merged given w _ _ _ _⟩⟩
    · obtain ⟨refusal, log, hresult, _⟩ := guard_refuses hr hp
      have hresult : result = _ := hresult
      rw [hresult]
      exact ⟨rfl, Or.inl ⟨refusal, rfl, rfl⟩⟩

/-! ## When nothing is lost and nothing is there twice -/

variable (given)

/-- The file has a message of the tail: by its id as it is loaded, or by the fingerprint of
    a stored message, if neither has an id. -/
def Contained (stored file : List (Stored β)) (m : Stored β) : Prop :=
  (m.row.eventId.str ≠ "" ∧ ∃ f ∈ file, f.row.eventId.str = m.row.eventId.str) ∨
    (m.row.eventId.str = "" ∧ ∃ f ∈ stored, f.row.eventId.truthy = false ∧
      given.fingerprint f.row.body = given.fingerprint m.row.body)

/-- The messages of the live tail that the file does not have: in order, each once, and all. -/
structure Appended (stored file tail added : List (Stored β)) : Prop where
  inOrder : added.Sublist tail
  new : ∀ m ∈ added, ¬ Contained given stored file m
  once : (added.map (identity given)).Nodup
  complete : ∀ m ∈ tail, Contained given stored file m ∨ identity given m ∈ added.map (identity given)

/-- A merge that loses nothing, with the counter above every message and the fence above the file's. -/
structure Lossless (w w' : World β γ) (sourceMessageCount : Nat) (file added : List (Stored β)) : Prop where
  messages : w'.live.messages = file ++ added
  loaded : List.Forall₂ Same w.stored file
  appended : Appended given w.stored file (w.live.messages.drop sourceMessageCount) added
  counter : ∃ next, w'.live.metadata.nextEventSeq = some next ∧ ∀ n ∈ seqs (rows w'.live.messages), n < next
  fence : w.storedFence < previousFence w'.live.metadata

/-- The guard refuses with `ConcurrentSessionWriteError` and changes nothing, or loses nothing. -/
def Commits (w : World β γ) (sourceMessageCount : Nat) (sourceFp : String) (fence : Int) : Prop :=
  let result := compactionCommitGuard given w sourceMessageCount sourceFp fence
  (∃ refusal, result.1 = .error refusal ∧ refusal ≠ .numberRaised ∧ result.2.live = w.live ∧ result.2.file = w.file) ∨
    result.1 = .ok () ∧ ∃ file added, Lossless given w result.2 sourceMessageCount file added

/-- Where a merge loses nothing. -/
structure Plain (w : World β γ) (sourceMessageCount : Nat) (fence : Int) : Prop where
  /-- No message without an id is in the tail and, without one, in the file. -/
  named : ∀ m ∈ w.live.messages.drop sourceMessageCount, m.row.eventId.str = "" →
    ∀ f ∈ w.stored, f.row.eventId.truthy = false → given.fingerprint f.row.body ≠ given.fingerprint m.row.body
  /-- A new message's number is below the loaded file's next one, or below the session's own
      if the file has the session's revision. -/
  numbered : ∀ m, New given (fresh given w).1.messages (w.live.messages.drop sourceMessageCount) m →
    m.row.eventSeq.getD 0 < (fresh given w).1.metadata.storedNext ∨
      (w.file.map (·.metadata.revisionOf)).getD 0 = w.live.metadata.revisionOf ∧
        m.row.eventSeq.getD 0 < w.live.metadata.storedNext
  /-- A fence is given, or the session's own is above the file's already. -/
  fenced : 0 < fence ∨ (w.file.map (·.metadata.revisionOf)).getD 0 = w.live.metadata.revisionOf ∧
    w.storedFence < previousFence w.live.metadata

variable {given}

theorem same_identified {stored file : List (Stored β)} (h : List.Forall₂ Same stored file) :
    ∀ f ∈ file, f.row.eventId.truthy = true := by
  induction h with
  | nil => exact List.forall_mem_nil _
  | cons hsame _ ih =>
    refine List.forall_mem_cons.mpr ⟨?_, ih⟩
    exact (Bool.and_eq_true_iff.mp hsame.identified).1

/-- What the merge knows of a loaded file are ids. -/
theorem mem_knownAs {file : List (Stored β)} (h : ∀ f ∈ file, f.row.eventId.truthy = true) {m : Stored β} :
    identity given m ∈ file.map (knownAs given) ↔
      m.row.eventId.str ≠ "" ∧ ∃ f ∈ file, f.row.eventId.str = m.row.eventId.str := by
  unfold identity
  constructor
  · intro hin
    obtain ⟨f, hf, heq⟩ := List.mem_map.mp hin
    rw [knownAs, if_pos (h f hf)] at heq
    split at heq
    · rename_i hne
      exact ⟨hne, f, hf, Sum.inl.inj heq⟩
    · cases heq
  · rintro ⟨hne, f, hf, heq⟩
    rw [if_pos hne]
    exact List.mem_map.mpr ⟨f, hf, by rw [knownAs, if_pos (h f hf), heq]⟩

theorem identity_unnamed {m a : Stored β} (hm : m.row.eventId.str = "") (h : identity given a = identity given m) :
    a.row.eventId.str = "" ∧ given.fingerprint a.row.body = given.fingerprint m.row.body := by
  unfold identity at h
  rw [if_neg (not_not.mpr hm)] at h
  split at h
  · cases h
  · rename_i ha
    exact ⟨not_not.mp ha, Sum.inr.inj h⟩

theorem New.of_mem {file tail : List (Stored β)} {m : Stored β} (h : New given file tail m) : m ∈ tail := by
  obtain ⟨before, after, rfl, _⟩ := h
  exact List.mem_append_right _ List.mem_cons_self

/-- A message of the tail is known, or one that is appended has its identity. -/
theorem known_or_appended {file tail : List (Stored β)} {m : Stored β} (h : m ∈ tail) :
    identity given m ∈ file.map (knownAs given) ∨ ∃ a, New given file tail a ∧ identity given a = identity given m := by
  have hin : identity given m ∈ file.map (knownAs given) ++ (missing (identity given) (file.map (knownAs given)) tail).map (identity given) :=
    key_known h
  rcases List.mem_append.mp hin with hin | hin
  · exact Or.inl hin
  · obtain ⟨a, ha, heq⟩ := List.mem_map.mp hin
    exact Or.inr ⟨a, mem_missing.mp ha, heq⟩

section Merge

variable {w' : World β γ} {loaded : Obj β γ} {added : List (Stored β)}

/-- A merge that loses nothing leaves the loaded file and what is appended to it. -/
theorem Lossless.eq {file more : List (Stored β)} (h : Lossless given w w' sourceMessageCount file more)
    (hfresh : Fresh w loaded) (hmerged : Merged given w w' sourceMessageCount fence loaded added) :
    file = loaded.messages ∧ more = added :=
  List.append_inj (h.messages.symm.trans hmerged.messages) (h.loaded.length_eq.symm.trans hfresh.messages.length_eq)

theorem seqs_below_iff {file more : List (Stored β)} {next : Int} (h : ∀ n ∈ seqs (rows file), n < next) :
    (∀ n ∈ seqs (rows (file ++ more)), n < next) ↔ ∀ m ∈ more, m.row.eventSeq.getD 0 < next := by
  constructor
  · intro hall m hm
    refine hall _ ?_
    simp only [rows, seqs, List.map_append, List.map_map]
    exact List.mem_append_right _ (List.mem_map_of_mem hm)
  · intro hmore n hn
    simp only [rows, seqs, List.map_append, List.map_map] at hn
    rcases List.mem_append.mp hn with hn | hn
    · refine h n ?_
      simpa only [rows, seqs, List.map_map] using hn
    · obtain ⟨m, hm, rfl⟩ := List.mem_map.mp hn
      exact hmore m hm

/-- Of the kept metadata's number and the file's, the larger one counts. -/
theorem below_next {loaded live : Obj β γ} {n : Int} :
    n < max (if loaded.metadata.revisionOf = live.metadata.revisionOf then live.metadata else loaded.metadata).storedNext
        loaded.metadata.storedNext ↔
      n < loaded.metadata.storedNext ∨
        loaded.metadata.revisionOf = live.metadata.revisionOf ∧ n < live.metadata.storedNext := by
  rw [lt_max_iff]
  split
  · rename_i h
    rw [or_comm, and_iff_right h]
  · rename_i h
    rw [or_self, or_iff_left fun hboth => h hboth.1]

theorem merged_lossless_iff (hfresh : Fresh w (fresh given w).1)
    (hpass : Passes given w sourceMessageCount sourceFp fence)
    (hmerged : Merged given w w' sourceMessageCount fence (fresh given w).1 added) :
    (∃ file more, Lossless given w w' sourceMessageCount file more) ↔ Plain given w sourceMessageCount fence := by
  have htruthy := same_identified hfresh.messages
  constructor
  · rintro ⟨file, more, h⟩
    obtain ⟨rfl, rfl⟩ := h.eq hfresh hmerged
    refine ⟨fun m hm hunnamed f hf hfalsy heq => ?_, fun m hnew => ?_, ?_⟩
    · -- such a message is appended, though the file contains it
      rcases known_or_appended hm with hknown | ⟨a, ha, heqa⟩
      · exact ((mem_knownAs htruthy).mp hknown).1 hunnamed
      · obtain ⟨hun, hfp⟩ := identity_unnamed hunnamed heqa
        exact h.appended.new a ((hmerged.new a).mpr ha) (Or.inr ⟨hun, f, hf, hfalsy, heq.trans hfp.symm⟩)
    · obtain ⟨next, hnext, habove⟩ := h.counter
      rw [hmerged.counter] at hnext
      rw [hmerged.messages, ← Option.some.inj hnext,
        seqs_below_iff fun n hn => (hfresh.below n hn).trans_le (le_max_right _ _)] at habove
      have hbelow := below_next.mp (habove m ((hmerged.new m).mpr hnew))
      rwa [hfresh.revision] at hbelow
    · have hfence := h.fence
      rw [hmerged.fence] at hfence
      by_cases hpos : 0 < fence
      · exact Or.inl hpos
      · rw [if_neg hpos] at hfence
        split at hfence
        · rename_i hsame
          exact Or.inr ⟨hfresh.revision.symm.trans hsame, hfence⟩
        · exact absurd hfence (by rw [hfresh.fence]; exact lt_irrefl _)
  · intro h
    refine ⟨_, added, hmerged.messages, hfresh.messages,
      ⟨hmerged.inOrder, fun m hm hcontained => ?_, hmerged.once, fun m hm => ?_⟩, ?_, ?_⟩
    · have hnew := (hmerged.new m).mp hm
      rcases hcontained with hid | ⟨hunnamed, f, hf, hfalsy, heq⟩
      · obtain ⟨_, _, _, hnot⟩ := hnew
        exact hnot (List.mem_append_left _ ((mem_knownAs htruthy).mpr hid))
      · exact h.named m hnew.of_mem hunnamed f hf hfalsy heq
    · rcases known_or_appended hm with hknown | ⟨a, ha, heq⟩
      · exact Or.inl (Or.inl ((mem_knownAs htruthy).mp hknown))
      · exact Or.inr (List.mem_map.mpr ⟨a, (hmerged.new a).mpr ha, heq⟩)
    · refine ⟨_, hmerged.counter, ?_⟩
      rw [hmerged.messages, seqs_below_iff fun n hn => (hfresh.below n hn).trans_le (le_max_right _ _)]
      intro m hm
      refine below_next.mpr ?_
      rw [hfresh.revision]
      exact h.numbered m ((hmerged.new m).mp hm)
    · rw [hmerged.fence]
      by_cases hpos : 0 < fence
      · rw [if_pos hpos]
        exact hpass.ahead hpos
      · obtain ⟨hsame, hlt⟩ := h.fenced.resolve_left hpos
        rw [if_neg hpos, if_pos (hfresh.revision.trans hsame)]
        exact hlt

end Merge

namespace Sample

def words : Given String Unit where
  fingerprint body := body.role ++ body.rest
  digest := String.intercalate " "
  isSummary body := body.role = "system"
  uuid _ := "00"
  now := 0
  blank := ⟨"", ""⟩
  empty := ()

def said (id : IdValue) (seq : Option Int) (text : String) : Stored String :=
  { row := { hasRole := true, eventId := id, eventSeq := seq, body := ⟨"user", text⟩ } }

def first : Stored String := said (.text "evt_1") (some 1) "first"
def second : Stored String := said (.text "evt_2") (some 2) "second"
def late : Stored String := said (.text "evt_3") (some 5) "late"
def unnamed : Stored String := said .falsy none "unnamed"

def session (revision next : Int) (messages : List (Stored String)) : Obj String Unit :=
  { messages, metadata := { revision, nextEventSeq := next, rest := () }, createdAt := 0, updatedAt := 0 }

/-- Another process saved the second message; the live object has one that is not saved. -/
def newer : World String Unit :=
  { file := some (session 2 3 [first, second]), log := [], live := session 1 6 [first, late] }

/-- A message the file has without an id, as the live object has it. -/
def older : World String Unit :=
  { file := some (session 1 2 [first, unnamed]), log := [], live := session 1 2 [first, unnamed] }

def guarded (w : World String Unit) (fence : Int) : Except Refusal Unit × World String Unit :=
  compactionCommitGuard words w 1 (sourceFingerprint words w.live.messages 1) fence

/-- Loading, where the log is empty. -/
theorem reconcile_nil (s : Obj String Unit) (h : s.metadata.pendingTransaction = "") :
    reconcileArchiveIdentities words s [] =
      ({ s with
         messages := hydrate words [] [] 1 s.messages
         metadata := { s.metadata with
           pendingTransaction := ""
           nextEventSeq := some (max (max s.metadata.storedNext 1) (1 + maxSequence (rows (hydrate words [] [] 1 s.messages)))) } }, []) := by
  have hsnapshot : Transactions.snapshotFromRows words.fingerprint [] = [] := by
    simp [Transactions.snapshotFromRows]
  simp [reconcileArchiveIdentities, finished, h, hsnapshot]

def named : Stored String :=
  { row := { unnamed.row with eventId := .text "evt_000000000001_00", eventSeq := some 1, archiveState := some .active } }

theorem fresh_newer : fresh words newer = (session 2 3 [first, second], []) :=
  (reconcile_nil (session 2 3 [first, second]) rfl).trans rfl

theorem fresh_older : fresh words older = (session 1 2 [first, named], []) := by
  refine (reconcile_nil (session 1 2 [first, unnamed]) rfl).trans ?_
  decide

theorem guarded_newer : (guarded newer 1).1 = .ok () ∧ seqs (rows (guarded newer 1).2.live.messages) = [1, 2, 5] ∧
    (guarded newer 1).2.live.metadata.nextEventSeq = some 3 := by
  simp only [guarded, compactionCommitGuard, fresh_newer]
  decide

theorem guarded_older : (guarded older 1).1 = .ok () ∧ (guarded older 1).2.live.messages = [first, named, unnamed] := by
  simp only [guarded, compactionCommitGuard, fresh_older]
  decide

theorem newer_not_commits : ¬ Commits words newer 1 (sourceFingerprint words newer.live.messages 1) 1 := by
  obtain ⟨hok, hseqs, hnext⟩ := guarded_newer
  rintro (⟨refusal, herr, _⟩ | ⟨_, file, added, h⟩)
  · exact nomatch hok.symm.trans herr
  · obtain ⟨next, hcounter, habove⟩ := h.counter
    obtain rfl := Option.some.inj (hnext.symm.trans hcounter)
    have := habove 5 (hseqs.symm ▸ by decide)
    omega

theorem older_not_commits : ¬ Commits words older 1 (sourceFingerprint words older.live.messages 1) 1 := by
  obtain ⟨hok, hmessages⟩ := guarded_older
  rintro (⟨refusal, herr, _⟩ | ⟨_, file, added, h⟩)
  · exact nomatch hok.symm.trans herr
  · have hsplit : [first, named] ++ [unnamed] = file ++ added := hmessages.symm.trans h.messages
    obtain ⟨_, rfl⟩ := List.append_inj hsplit h.loaded.length_eq
    exact h.appended.new unnamed List.mem_cons_self
      (Or.inr ⟨rfl, unnamed, List.mem_cons_of_mem _ List.mem_cons_self, rfl, rfl⟩)

end Sample

end Flowly.Session.CommitGuard
