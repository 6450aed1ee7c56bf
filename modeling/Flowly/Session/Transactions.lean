/-
  Flowly.Session.Transactions — the whole rows of the append-only log and the snapshot
  made of them, with the identities of rows older than the archive and the order of the
  events (`flowly/session/archive.py`: `message_fingerprint`, `legacy_event_id`,
  `initial_state`, `snapshot_from_rows`, `commit_record`).

  `Archive` has a log's rows as the session writes them; here a row is any JSON value the
  file may hold. `fingerprint` is the digest of the fields that `message_fingerprint`
  reads, the row's `body`. A row's sequence number is an integer, or none where the field is
  missing or `int()` refuses it; a true text or float stands as `max(1, int())`, the number
  it gets. Some rows make the loop raise where their transaction counts (`Row.raises`: `int()`
  of an infinite number, a text that cannot be encoded for the digest, `event_ids` that
  cannot be iterated), and nothing catches that: there is no snapshot then (`snapshot`).
  `is_context_boundary` is given by its answer.

  Proved: the rows of a transaction count for nothing without its commit row
  (`uncommitted_counts_nothing`); once it is there, each event has the state of the last
  transition that names it, the transaction's among them; and appending again an event
  row with an id, or the commit row, changes nothing (`transactions_atomic`). A row
  without an id is named by its place among equal rows, so a second one is a second event
  (`legacy_row_counts_twice`).
-/

import Flowly.Session.Archive
import Mathlib.Data.List.Sort

namespace Flowly.Session.Transactions

open Flowly.Lib

/-- `_type`. -/
inductive RowType where
  | message
  | transition
  | commit
  | metadata
  deriving DecidableEq

structure Row (β : Type) where
  /-- `isinstance(row, dict)`. -/
  isDict : Bool := true
  type : RowType := .message
  /-- `_archive_transaction_id`. -/
  transaction : IdValue := .falsy
  /-- `transaction_id`. -/
  transactionId : IdValue := .falsy
  /-- `state` of a transition; none if it is no archive state. -/
  state : Option ArchiveState := none
  eventIds : List IdValue := []
  isContextBoundary : Bool := false
  /-- The truth value of `role`. -/
  hasRole : Bool := false
  displayHidden : Bool := false
  /-- `_event_id`. -/
  eventId : IdValue := .falsy
  eventSeq : Option Int := none
  /-- The loop raises at this row, where its transactions count. -/
  raises : Bool := false
  archiveState : Option ArchiveState := none
  body : β
  deriving DecidableEq

structure Event (β : Type) where
  eventId : String
  sequence : Int
  state : ArchiveState
  message : Row β

variable {β : Type}

/-- The low hexadecimal digits of a number, at least `n` of them. -/
def hex (n k : Nat) : String :=
  let digits := String.ofList (Nat.toDigits 16 k)
  "".pushn '0' (n - digits.length) ++ digits

def legacyEventId (digest : String) (occurrence : Nat) : String :=
  "evt_legacy_" ++ String.ofList (digest.toList.take 24) ++ "_" ++ hex 4 occurrence

def initialState (row : Row β) : ArchiveState := if row.displayHidden then .internalHidden else .active

def committedTransactions (rows : List (Row β)) : List String :=
  (rows.filter fun row => row.isDict ∧ row.type = .commit ∧ row.transactionId.truthy).map (·.transactionId.str)

structure Reading (β : Type) where
  events : List (Event β) := []
  /-- The fingerprints of the message rows so far: `occurrences`. -/
  seen : List String := []
  /-- `pending_states`, the latest first. -/
  pending : List (String × ArchiveState) := []
  nextSequence : Int := 1

def counts (committed : List String) (transaction : IdValue) : Bool := transaction.str = "" ∨ transaction.str ∈ committed

def Row.named (row : Row β) : List String := (row.eventIds.map (·.str)).filter (· ≠ "")

def Reading.moved (s : Reading β) (state : ArchiveState) (id : String) : Reading β :=
  { s with
    pending := (id, state) :: s.pending
    events := s.events.map fun e => if e.eventId = id then { e with state } else e }

/-- The id of a message row; `seen` are the fingerprints of the rows before it. -/
def rowId (fingerprint : β → String) (seen : List String) (row : Row β) : String :=
  if row.eventId.str ≠ "" then row.eventId.str
  else legacyEventId (fingerprint row.body) (seen.count (fingerprint row.body))

def Reading.message (fingerprint : β → String) (s : Reading β) (row : Row β) : Reading β :=
  let id := rowId fingerprint s.seen row
  -- zero is a false value: the row takes the next number
  let sequence := max 1 ((row.eventSeq.filter (· ≠ 0)).getD s.nextSequence)
  let state := (s.pending.lookup id).getD (row.archiveState.getD (initialState row))
  let message := { row with eventId := .text id, eventSeq := some sequence, archiveState := some state }
  { s with
    seen := s.seen ++ [fingerprint row.body]
    nextSequence := max s.nextSequence (sequence + 1)
    -- a retried append of the same event changes nothing
    events := if s.events.any (·.eventId = id) then s.events else s.events ++ [{ eventId := id, sequence, state, message }] }

def readRow (fingerprint : β → String) (committed : List String) (s : Reading β) (row : Row β) : Reading β :=
  if !row.isDict ∨ !counts committed row.transaction then s
  else if row.type = .transition then
    match row.state with
    | some state => if counts committed row.transactionId then row.named.foldl (·.moved state) s else s
    | none => s
  else if row.type = .metadata ∨ row.isContextBoundary ∨ !row.hasRole then s
  else s.message fingerprint row

def inOrder (a b : Event β) : Bool := a.sequence < b.sequence ∨ a.sequence = b.sequence ∧ a.eventId ≤ b.eventId

def snapshotFromRows (fingerprint : β → String) (rows : List (Row β)) : List (Event β) :=
  (rows.foldl (readRow fingerprint (committedTransactions rows)) {}).events.mergeSort inOrder

def Row.isRead (committed : List String) (row : Row β) : Bool :=
  row.isDict && counts committed row.transaction && (row.type ≠ .transition || counts committed row.transactionId)

def anyRaises (rows : List (Row β)) : Bool := rows.any fun row => row.raises && row.isRead (committedTransactions rows)

/-- `snapshot_from_rows`; none if it raises. -/
def snapshot (fingerprint : β → String) (rows : List (Row β)) : Option (List (Event β)) :=
  if anyRaises rows then none else some (snapshotFromRows fingerprint rows)

def commitRecord (transaction : String) (body : β) : Row β := { type := .commit, transactionId := .text transaction, body }

variable {fingerprint : β → String}

/-! ## Rows that count for nothing -/

/-- A row of one transaction: a transition in its name, or a message tagged with it. -/
def OfTransaction (t : String) (row : Row β) : Prop :=
  row.type = .transition ∧ row.transactionId.str = t ∧ (row.transaction.str = "" ∨ row.transaction.str = t) ∨
    row.type = .message ∧ row.transaction.str = t

variable {row : Row β} {t : String}

theorem OfTransaction.not_commit (h : OfTransaction t row) : row.type ≠ .commit := by
  rcases h with ⟨htype, _⟩ | ⟨htype, _⟩
  · rw [htype]
    nofun
  · rw [htype]
    nofun

/-- `log` is `rows` with rows of one transaction anywhere in it. -/
inductive Inserted (t : String) : List (Row β) → List (Row β) → Prop
  | nil : Inserted t [] []
  | keep (row : Row β) {rows log : List (Row β)} : Inserted t rows log → Inserted t (row :: rows) (row :: log)
  | insert {row : Row β} {rows log : List (Row β)} : OfTransaction t row → Inserted t rows log → Inserted t rows (row :: log)

variable {committed : List String}

theorem not_counts (ht : t ≠ "") (hnew : t ∉ committed) {transaction : IdValue}
    (h : transaction.str = t) : counts committed transaction = false := by
  simp [counts, h, ht, hnew]

theorem readRow_uncommitted (ht : t ≠ "") (hnew : t ∉ committed)
    (h : OfTransaction t row) (s : Reading β) : readRow fingerprint committed s row = s := by
  unfold readRow
  rcases h with ⟨htype, htx, _⟩ | ⟨_, htag⟩
  · by_cases hrow : !row.isDict ∨ !counts committed row.transaction
    · rw [if_pos hrow]
    · rw [if_neg hrow, if_pos htype]
      split
      · rw [if_neg (by rw [not_counts ht hnew htx]; exact Bool.false_ne_true)]
      · rfl
  · rw [if_pos (Or.inr (by rw [not_counts ht hnew htag]; rfl))]

theorem committed_inserted {rows log : List (Row β)} (h : Inserted t rows log) :
    committedTransactions log = committedTransactions rows := by
  unfold committedTransactions
  induction h with
  | nil => rfl
  | keep row _ ih => simp only [List.filter_cons, apply_ite (List.map _), List.map_cons, ih]
  | insert hrow _ ih =>
    rw [List.filter_cons_of_neg (by simp [hrow.not_commit]), ih]

theorem isRead_uncommitted (ht : t ≠ "") (hnew : t ∉ committed) (h : OfTransaction t row) : row.isRead committed = false := by
  rcases h with ⟨htype, htx, _⟩ | ⟨_, htag⟩
  · simp [Row.isRead, htype, not_counts ht hnew htx]
  · simp [Row.isRead, not_counts ht hnew htag]

theorem anyRaises_inserted (ht : t ≠ "") {rows log : List (Row β)} (h : Inserted t rows log)
    (hnew : t ∉ committedTransactions rows) : anyRaises log = anyRaises rows := by
  unfold anyRaises
  rw [committed_inserted h]
  generalize committedTransactions rows = committed at hnew
  induction h with
  | nil => rfl
  | keep row _ ih => rw [List.any_cons, List.any_cons, ih]
  | insert hrow _ ih => rw [List.any_cons, isRead_uncommitted ht hnew hrow, Bool.and_false, Bool.false_or, ih]

/-- Without its commit row a transaction counts for nothing. -/
theorem uncommitted_counts_nothing (ht : t ≠ "") {rows log : List (Row β)} (h : Inserted t rows log)
    (hnew : t ∉ committedTransactions rows) : snapshot fingerprint log = snapshot fingerprint rows := by
  have hfold : ∀ s : Reading β, log.foldl (readRow fingerprint (committedTransactions rows)) s =
      rows.foldl (readRow fingerprint (committedTransactions rows)) s := by
    generalize committedTransactions rows = committed at hnew
    induction h with
    | nil => exact fun _ => rfl
    | keep row _ ih => exact fun s => ih _
    | insert hrow _ ih =>
      intro s
      rw [List.foldl_cons, readRow_uncommitted ht hnew hrow, ih]
  unfold snapshot snapshotFromRows
  rw [anyRaises_inserted ht h hnew, committed_inserted h, hfold]

/-! ## The last transition wins -/

/-- An effective transition that gives an event a state. -/
structure Moves (committed : List String) (row : Row β) (id : String) (state : ArchiveState) : Prop where
  isDict : row.isDict = true
  type : row.type = .transition
  counts : counts committed row.transaction = true ∧ counts committed row.transactionId = true
  state : row.state = some state
  named : id ∈ row.named

/-- What is known of an event's state, whether its row was read or not. -/
def Says (s : Reading β) (id : String) (state : ArchiveState) : Prop :=
  s.pending.lookup id = some state ∧ ∀ e ∈ s.events, e.eventId = id → e.state = state

theorem moved_tells_self (s : Reading β) (state : ArchiveState) (id : String) : Says (s.moved state id) id state := by
  refine ⟨List.lookup_cons_self, fun e he hid => ?_⟩
  obtain ⟨old, _, rfl⟩ := List.mem_map.mp he
  by_cases hold : old.eventId = id
  · rw [if_pos hold]
  · rw [if_neg hold] at hid
    exact absurd hid hold

variable {s : Reading β}

/-- What another id is given does not matter, nor does the same state again. -/
theorem moved_tells {id other : String} {state state' : ArchiveState} (h : Says s id state)
    (hsame : other = id → state' = state) : Says (s.moved state' other) id state := by
  by_cases hid : other = id
  · rw [hid, hsame hid]
    exact moved_tells_self s state id
  · constructor
    · change ((other, state') :: s.pending).lookup id = some state
      rw [List.lookup_cons, beq_false_of_ne (Ne.symm hid)]
      exact h.1
    · intro e he heq
      obtain ⟨old, hold, rfl⟩ := List.mem_map.mp he
      by_cases hother : old.eventId = other
      · rw [if_pos hother] at heq
        exact absurd (hother.symm.trans heq) hid
      · rw [if_neg hother] at heq ⊢
        exact h.2 old hold heq

theorem movedAll_tells {id : String} {state state' : ArchiveState} (ids : List String) (h : Says s id state)
    (hsame : id ∈ ids → state' = state) : Says (ids.foldl (·.moved state') s) id state := by
  induction ids generalizing s with
  | nil => exact h
  | cons other ids ih =>
    refine ih (moved_tells h fun ho => hsame (ho ▸ List.mem_cons_self)) fun hin => hsame (List.mem_cons_of_mem _ hin)

variable {state : ArchiveState}

theorem movedAll_tells_self {id : String} {ids : List String} (h : id ∈ ids) :
    Says (ids.foldl (·.moved state) s) id state := by
  induction ids generalizing s with
  | nil => cases h
  | cons other ids ih =>
    rw [List.foldl_cons]
    by_cases hid : other = id
    · exact movedAll_tells ids (hid ▸ moved_tells_self s state other) fun _ => rfl
    · exact ih ((List.mem_cons.mp h).resolve_left (Ne.symm hid))

theorem moves_tells {id : String}
    (h : Moves committed row id state) (s : Reading β) : Says (readRow fingerprint committed s row) id state := by
  unfold readRow
  rw [if_neg (by simp [h.isDict, h.counts.1]), if_pos h.type, h.state]
  simp only [h.counts.2, if_true]
  exact movedAll_tells_self h.named

theorem message_says {id : String} (h : Says s id state) (row : Row β) :
    Says (s.message fingerprint row) id state := by
  refine ⟨h.1, fun e he hid => ?_⟩
  simp only [Reading.message] at he
  split at he
  · exact h.2 e he hid
  · rcases List.mem_append.mp he with he | he
    · exact h.2 e he hid
    · rw [List.mem_singleton.mp he] at hid ⊢
      simp only at hid ⊢
      rw [hid, h.1, Option.getD_some]

/-- A row that does not move an event leaves what is known of it. -/
theorem other_tells {id : String} (h : Says s id state) (hother : ∀ state', ¬ Moves committed row id state') :
    Says (readRow fingerprint committed s row) id state := by
  unfold readRow
  split
  · exact h
  · rename_i hrow
    simp only [not_or, Bool.not_eq_true', Bool.not_eq_false] at hrow
    split
    · rename_i htype
      split
      · rename_i state' hstate
        split
        · rename_i htx
          refine movedAll_tells _ h fun hin => ?_
          exact absurd ⟨hrow.1, htype, ⟨hrow.2, htx⟩, hstate, hin⟩ (hother state')
        · exact h
      · exact h
    · split
      · exact h
      · exact message_says h row

theorem others_say {rows : List (Row β)} {id : String}
    (h : Says s id state) (hothers : ∀ r ∈ rows, ∀ state', ¬ Moves committed r id state') :
    Says (rows.foldl (readRow fingerprint committed) s) id state := by
  induction rows generalizing s with
  | nil => exact h
  | cons r rows ih =>
    exact ih (other_tells h (hothers r List.mem_cons_self)) fun x hx => hothers x (List.mem_cons_of_mem _ hx)

/-- The last effective transition that names an event gives its state, wherever its row is. -/
theorem snapshot_state {before after : List (Row β)} {id : String}
    (h : Moves (committedTransactions (before ++ row :: after)) row id state)
    (hlast : ∀ r ∈ after, ∀ state', ¬ Moves (committedTransactions (before ++ row :: after)) r id state') :
    ∀ e ∈ snapshotFromRows fingerprint (before ++ row :: after), e.eventId = id → e.state = state := by
  have hsays : Says ((before ++ row :: after).foldl (readRow fingerprint (committedTransactions (before ++ row :: after))) {})
      id state := by
    rw [List.foldl_append, List.foldl_cons]
    exact others_say (moves_tells h _) hlast
  exact fun e he => hsays.2 e (List.mem_mergeSort.mp he)

/-! ## Appending again -/

/-- Only which transactions are committed matters. -/
theorem readRow_congr {committed committed' : List String} (h : ∀ t, t ∈ committed ↔ t ∈ committed') :
    readRow fingerprint committed = readRow fingerprint committed' := by
  have hcounts : counts committed = counts committed' := by
    funext transaction
    unfold counts
    rw [decide_eq_decide, h]
  funext s row
  unfold readRow
  rw [hcounts]

theorem committed_append (log : List (Row β)) (row : Row β) :
    committedTransactions (log ++ [row]) = committedTransactions log ++ committedTransactions [row] := by
  simp [committedTransactions]

variable {log : List (Row β)}

theorem isRead_congr {committed' : List String} (h : ∀ t, t ∈ committed ↔ t ∈ committed') (row : Row β) :
    row.isRead committed = row.isRead committed' := by
  simp only [Row.isRead, counts, h]

/-- A row that commits nothing new, raises only if it is there already and leaves the events
    as they are changes nothing. -/
theorem snapshot_append (hcommitted : ∀ t ∈ committedTransactions [row], t ∈ committedTransactions log)
    (hthere : row.raises = true → row ∈ log)
    (hevents : (readRow fingerprint (committedTransactions log)
      (log.foldl (readRow fingerprint (committedTransactions log)) {}) row).events =
        (log.foldl (readRow fingerprint (committedTransactions log)) {}).events) :
    snapshot fingerprint (log ++ [row]) = snapshot fingerprint log := by
  have hmem (t : String) : t ∈ committedTransactions (log ++ [row]) ↔ t ∈ committedTransactions log := by
    rw [committed_append, List.mem_append]
    exact ⟨fun h => h.elim id (hcommitted t), Or.inl⟩
  have hover : anyRaises (log ++ [row]) = anyRaises log := by
    simp only [anyRaises, isRead_congr hmem, List.any_append, List.any_cons, List.any_nil, Bool.or_false, Bool.or_eq_left_iff_imp,
      Bool.and_eq_true]
    exact fun h => List.any_eq_true.mpr ⟨row, hthere h.1, by simpa using h⟩
  have hsame : readRow fingerprint (committedTransactions (log ++ [row])) = readRow fingerprint (committedTransactions log) := readRow_congr hmem
  unfold snapshot snapshotFromRows
  rw [hover, hsame, List.foldl_append, List.foldl_cons, List.foldl_nil, hevents]

/-- The snapshot has an event with an id. -/
def Reading.Has (s : Reading β) (id : String) : Prop := ∃ e ∈ s.events, e.eventId = id

theorem moved_has {id : String} (h : s.Has id) (state : ArchiveState) (other : String) :
    (s.moved state other).Has id := by
  obtain ⟨e, he, hid⟩ := h
  refine ⟨_, List.mem_map.mpr ⟨e, he, rfl⟩, ?_⟩
  split
  · exact hid
  · exact hid

theorem message_has {id : String} (h : s.Has id) (row : Row β) : (s.message fingerprint row).Has id := by
  obtain ⟨e, he, hid⟩ := h
  refine ⟨e, ?_, hid⟩
  simp only [Reading.message]
  split
  · exact he
  · exact List.mem_append_left _ he

theorem readRow_has {id : String} (h : s.Has id) (row : Row β) :
    (readRow fingerprint committed s row).Has id := by
  unfold readRow
  split
  · exact h
  · split
    · split
      · split
        · generalize row.named = ids
          induction ids generalizing s with
          | nil => exact h
          | cons other ids ih => exact ih (moved_has h _ other)
        · exact h
      · exact h
    · split
      · exact h
      · exact message_has h row

theorem foldl_keeps {id : String} (h : s.Has id) (rows : List (Row β)) :
    (rows.foldl (readRow fingerprint committed) s).Has id := by
  induction rows generalizing s with
  | nil => exact h
  | cons r rows ih => exact ih (readRow_has h r)

/-- A message row leaves an event with its id. -/
theorem message_own (s : Reading β) (row : Row β) : (s.message fingerprint row).Has (rowId fingerprint s.seen row) := by
  simp only [Reading.message, Reading.Has]
  split
  · rename_i hany
    simpa using hany
  · exact ⟨_, List.mem_append_right _ (List.mem_singleton_self _), rfl⟩

/-- What a row that is no transition does: nothing, or it is read as a message. -/
theorem readRow_message (h : row.type ≠ .transition) :
    (∀ s : Reading β, readRow fingerprint committed s row = s) ∨
      ∀ s : Reading β, readRow fingerprint committed s row = s.message fingerprint row := by
  unfold readRow
  by_cases hrow : !row.isDict ∨ !counts committed row.transaction
  · exact Or.inl fun s => by rw [if_pos hrow]
  · by_cases hshown : row.type = .metadata ∨ row.isContextBoundary ∨ !row.hasRole
    · exact Or.inl fun s => by rw [if_neg hrow, if_neg h, if_pos hshown]
    · exact Or.inr fun s => by rw [if_neg hrow, if_neg h, if_neg hshown]

/-- The event of a row with an id is there once the row was read. -/
theorem foldl_has (hid : row.eventId.str ≠ "")
    (hmessage : ∀ s : Reading β, readRow fingerprint committed s row = s.message fingerprint row)
    (hin : row ∈ log) (s : Reading β) : (log.foldl (readRow fingerprint committed) s).Has row.eventId.str := by
  obtain ⟨before, after, rfl⟩ := List.append_of_mem hin
  rw [List.foldl_append, List.foldl_cons, hmessage]
  generalize before.foldl (readRow fingerprint committed) s = s
  have hown : (s.message fingerprint row).Has (rowId fingerprint s.seen row) := message_own s row
  rw [rowId, if_pos hid] at hown
  exact foldl_keeps hown after

/-- A retried append of an event row with an id. -/
theorem event_again (hin : row ∈ log) (htype : row.type ≠ .transition)
    (hid : row.eventId.str ≠ "") : snapshot fingerprint (log ++ [row]) = snapshot fingerprint log := by
  refine snapshot_append (fun t ht => ?_) (fun _ => hin) ?_
  · obtain ⟨r, hr, rfl⟩ := List.mem_map.mp ht
    obtain ⟨hr, hcommit⟩ := List.mem_filter.mp hr
    rw [List.mem_singleton.mp hr] at hcommit ⊢
    exact List.mem_map_of_mem (List.mem_filter.mpr ⟨hin, hcommit⟩)
  · have hread : (∀ s : Reading β, readRow fingerprint (committedTransactions log) s row = s) ∨
        ∀ s : Reading β, readRow fingerprint (committedTransactions log) s row = s.message fingerprint row :=
      readRow_message htype
    rcases hread with hskip | hmessage
    · rw [hskip]
    · obtain ⟨e, he, heq⟩ := foldl_has hid hmessage hin ({} : Reading β)
      rw [hmessage]
      simp only [Reading.message, rowId, if_pos hid]
      rw [if_pos (List.any_eq_true.mpr ⟨e, he, by simpa using heq⟩)]

theorem readRow_commit (committed : List String) (s : Reading β) (t : String) (body : β) :
    readRow fingerprint committed s (commitRecord t body) = s := by
  simp [readRow, commitRecord]

/-- A commit row that is there already. -/
theorem commit_again (h : t ∈ committedTransactions log) (body : β) :
    snapshot fingerprint (log ++ [commitRecord t body]) = snapshot fingerprint log := by
  refine snapshot_append (fun t' ht' => ?_) (fun hr => by simp [commitRecord] at hr) ?_
  · obtain ⟨r, hr, rfl⟩ := List.mem_map.mp ht'
    rw [List.mem_singleton.mp (List.mem_filter.mp hr).1]
    exact h
  · rw [readRow_commit]

/-! ## Transactions -/

/-- The rows of a transaction count all at once, with its commit row, and appending again
    changes nothing. -/
structure Atomic (fingerprint : β → String) (t : String) (rows log : List (Row β)) : Prop where
  uncommitted : snapshot fingerprint log = snapshot fingerprint rows
  /-- Once it is committed, its states stand where no later transition changes them. -/
  committed : ∀ body before row after id state, log = before ++ row :: after → row.isDict = true →
    OfTransaction t row → row.type = .transition → row.state = some state → id ∈ row.named →
    (∀ r ∈ after, ∀ state', ¬ Moves (committedTransactions (log ++ [commitRecord t body])) r id state') →
    ∀ events ∈ snapshot fingerprint (log ++ [commitRecord t body]), ∀ e ∈ events, e.eventId = id → e.state = state
  eventAgain : ∀ (log' : List (Row β)) (row : Row β), row ∈ log' → row.type ≠ .transition → row.eventId.str ≠ "" →
    snapshot fingerprint (log' ++ [row]) = snapshot fingerprint log'
  commitAgain : ∀ (log' : List (Row β)) (body : β), t ∈ committedTransactions log' →
    snapshot fingerprint (log' ++ [commitRecord t body]) = snapshot fingerprint log'

theorem committed_own (ht : t ≠ "") (log : List (Row β)) (body : β) :
    t ∈ committedTransactions (log ++ [commitRecord t body]) := by
  rw [committed_append]
  refine List.mem_append_right _ ?_
  simp [committedTransactions, commitRecord, IdValue.truthy, IdValue.str, ht]

theorem transactions_atomic (fingerprint : β → String) {t : String} (ht : t ≠ "") {rows log : List (Row β)}
    (h : Inserted t rows log) (hnew : t ∉ committedTransactions rows) : Atomic fingerprint t rows log := by
  refine ⟨uncommitted_counts_nothing ht h hnew, ?_, fun _ _ => event_again, fun _ body hin => commit_again hin body⟩
  rintro body before row after id state rfl hdict hrow htype hstate hnamed hlast
  have hown := committed_own ht (before ++ row :: after) body
  have htags : (row.transaction.str = "" ∨ row.transaction.str = t) ∧ row.transactionId.str = t := by
    rcases hrow with ⟨_, htx, htag⟩ | ⟨hmessage, _⟩
    · exact ⟨htag, htx⟩
    · rw [htype] at hmessage
      cases hmessage
  have hmoves : Moves (committedTransactions (before ++ row :: after ++ [commitRecord t body])) row id state := by
    refine ⟨hdict, htype, ⟨?_, ?_⟩, hstate, hnamed⟩
    · refine decide_eq_true (htags.1.imp_right fun he => ?_)
      rw [he]
      exact hown
    · refine decide_eq_true (Or.inr ?_)
      rw [htags.2]
      exact hown
  have hsplit : before ++ row :: after ++ [commitRecord t body] = before ++ row :: (after ++ [commitRecord t body]) := by
    simp
  rw [hsplit] at hmoves hlast ⊢
  intro events hevents
  rw [snapshot, Option.mem_ite_none_left, Option.mem_some_iff] at hevents
  rw [← hevents.2]
  refine snapshot_state hmoves fun r hr state' => ?_
  rcases List.mem_append.mp hr with hr | hr
  · exact hlast r hr state'
  · rw [List.mem_singleton.mp hr]
    exact fun hm => absurd hm.type (by nofun)

namespace Sample

def digest (body : String) : String := body

def question : Row String := { hasRole := true, eventId := .text "evt_1", eventSeq := some 1, body := "question" }

def oldQuestion : Row String := { hasRole := true, body := "question" }

def compacted : Row String :=
  { type := .transition, transactionId := .text "tx", state := some .compacted, eventIds := [.text "evt_1"], body := "" }

def summary : Row String :=
  { hasRole := true, transaction := .text "tx", eventId := .text "evt_2", eventSeq := some 2, body := "summary" }

theorem prepared : Inserted "tx" [question] [compacted, question, summary] :=
  .insert (Or.inl ⟨rfl, rfl, Or.inl rfl⟩) (.keep _ (.insert (Or.inr ⟨rfl, rfl⟩) .nil))

theorem prepared_atomic :
    snapshot digest [compacted, question, summary] = snapshot digest [question] ∧
      ∀ e ∈ snapshotFromRows digest ([compacted, question, summary] ++ [commitRecord "tx" ""]), e.eventId = "evt_1" →
        e.state = .compacted := by
  have h := transactions_atomic digest (by decide) prepared (by decide)
  have hsome : snapshot digest ([compacted, question, summary] ++ [commitRecord "tx" ""]) =
      some (snapshotFromRows digest ([compacted, question, summary] ++ [commitRecord "tx" ""])) := if_neg (by decide)
  refine ⟨h.uncommitted, h.committed "" [] compacted [question, summary] "evt_1" .compacted rfl rfl (Or.inl ⟨rfl, rfl, Or.inl rfl⟩)
    rfl rfl (by decide) (fun r hr state' hm => ?_) _ hsome⟩
  rcases List.mem_cons.mp hr with rfl | hr
  · exact absurd hm.type (by decide)
  · rw [List.mem_singleton.mp hr] at hm
    exact absurd hm.type (by decide)

/-- The same old row again is another event. -/
theorem legacy_row_counts_twice :
    ¬ ∀ (log : List (Row String)) (row : Row String), row ∈ log → row.type = .message → row.hasRole = true →
      snapshot digest (log ++ [row]) = snapshot digest log := by
  intro h
  have hsame := h [oldQuestion] oldQuestion (List.mem_singleton_self _) rfl rfl
  rw [snapshot, snapshot, if_neg (by decide), if_neg (by decide), Option.some_inj] at hsame
  have hlen := congrArg List.length hsame
  rw [snapshotFromRows, snapshotFromRows, List.length_mergeSort, List.length_mergeSort] at hlen
  revert hlen
  decide

end Sample

end Flowly.Session.Transactions
