/-
  Flowly.Session.Archive — the rows of the append-only log `<key>.full.jsonl` and the
  state of each event they tell (`flowly/session/archive.py`).

  Message rows are never rewritten. A transition row gives the events it names a state,
  and the last one wins, wherever the message row stands (`snapshotFromRows_state`).
  Transitions of a transaction count once its commit row is there.

  A row's timestamp and sequence number are left out: they order the snapshot, whose
  order nothing here reads. Rows without an id are older than the archive: a session
  gives each of its messages one when it is loaded.
-/

import Flowly.Session.Message
import Mathlib.Data.List.Nodup

namespace Flowly.Session

inductive ArchiveState where
  | active
  | compacted
  | withdrawn
  | internalHidden
  deriving DecidableEq

def initialState (message : Message) : ArchiveState := if message.displayHidden then .internalHidden else .active

/-- A message with its archive identity. -/
structure Entry where
  /-- `_event_id`. -/
  id : Nat
  /-- `_archive_state`. -/
  state : ArchiveState
  /-- `_archive_transaction_id`. -/
  transaction : Option Nat := none
  message : Message
  deriving DecidableEq

inductive Row where
  | message (e : Entry)
  | transition (ids : List Nat) (state : ArchiveState) (transaction : Option Nat)
  | commit (transaction : Nat)
  deriving DecidableEq

def entries (rows : List Row) : List Entry :=
  rows.filterMap fun | .message e => some e | _ => none

def ids (es : List Entry) : List Nat := es.map (·.id)

/-- Rows outside a transaction, and those of a committed one, count. -/
def committed (rows : List Row) (transaction : Option Nat) : Bool :=
  match transaction with
  | none => true
  | some t => .commit t ∈ rows

structure ArchiveEvent where
  entry : Entry
  state : ArchiveState

structure Snapshot where
  events : List ArchiveEvent
  /-- `pending_states`. -/
  pending : Nat → Option ArchiveState

/-- What `snapshot_from_rows` makes of one row. -/
def readRow (counts : Option Nat → Bool) (s : Snapshot) : Row → Snapshot
  | .transition ids state t =>
    if counts t then
      { events := s.events.map fun ev => if ev.entry.id ∈ ids then { ev with state := state } else ev
        pending := fun i => if i ∈ ids then some state else s.pending i }
    else s
  | .message e =>
    if counts e.transaction then
      if isContextBoundary e.message then s
      -- A retried append of the same event changes nothing.
      else if s.events.any (·.entry.id = e.id) then s
      else { s with events := s.events ++ [⟨e, (s.pending e.id).getD e.state⟩] }
    else s
  | .commit _ => s

def Snapshot.empty : Snapshot := ⟨[], fun _ => none⟩

def snapshotFromRows (rows : List Row) : Snapshot := rows.foldl (readRow (committed rows)) .empty

/-- The last transition that names `i`. -/
def lastState (rows : List Row) (i : Nat) : Option ArchiveState := (snapshotFromRows rows).pending i

/-- `state_by_id.get(event_id)`, else the state in the row. -/
def stateOf (rows : List Row) (e : Entry) : ArchiveState :=
  match (snapshotFromRows rows).events.find? (·.entry.id = e.id) with
  | some ev => ev.state
  | none => e.state

def isEvent (rows : List Row) (e : Entry) : Bool := committed rows e.transaction && !isContextBoundary e.message

/-! ## What a snapshot says -/

@[simp] theorem entries_append (rows more : List Row) : entries (rows ++ more) = entries rows ++ entries more := by
  simp [entries]

@[simp] theorem entries_messages (es : List Entry) : entries (es.map .message) = es := by
  simp [entries, List.filterMap_map]

@[simp] theorem entries_transition (is : List Nat) (state : ArchiveState) (t : Option Nat) :
    entries [.transition is state t] = [] := rfl

theorem eq_of_id {es : List Entry} (hn : (ids es).Nodup) {e e' : Entry} (he : e ∈ es) (he' : e' ∈ es)
    (hid : e.id = e'.id) : e = e' :=
  List.inj_on_of_nodup_map hn he he' hid

/-- Each event of a snapshot is a row, in the state of the last transition that names it. -/
structure Faithful (counts : Option Nat → Bool) (rows : List Row) (s : Snapshot) : Prop where
  sound : ∀ ev ∈ s.events, ev.entry ∈ entries rows ∧ counts ev.entry.transaction = true ∧
    isContextBoundary ev.entry.message = false ∧ ev.state = (s.pending ev.entry.id).getD ev.entry.state
  complete : ∀ e ∈ entries rows, counts e.transaction = true → isContextBoundary e.message = false →
    ∃ ev ∈ s.events, ev.entry.id = e.id

@[simp] theorem entries_message (rows : List Row) (e : Entry) : entries (rows ++ [.message e]) = entries rows ++ [e] := by
  simp [entries]

variable {counts : Option Nat → Bool} {rows : List Row}

/-- A row that adds no event: its own id is there already, or it need not be. -/
theorem Faithful.known {s : Snapshot} (h : Faithful counts rows s) {e : Entry}
    (hown : counts e.transaction = true → isContextBoundary e.message = false → ∃ ev ∈ s.events, ev.entry.id = e.id) :
    Faithful counts (rows ++ [.message e]) s where
  sound := by
    intro ev hev
    obtain ⟨hrow, hrest⟩ := h.sound ev hev
    rw [entries_message]
    exact ⟨List.mem_append_left _ hrow, hrest⟩
  complete := by
    intro x hx
    rw [entries_message, List.mem_append, List.mem_singleton] at hx
    rcases hx with hx | rfl
    · exact h.complete x hx
    · exact hown

/-- A row with an event of its own. -/
theorem Faithful.event {s : Snapshot} (h : Faithful counts rows s) {e : Entry}
    (hc : counts e.transaction = true) (hb : isContextBoundary e.message = false) :
    Faithful counts (rows ++ [.message e]) { s with events := s.events ++ [⟨e, (s.pending e.id).getD e.state⟩] } where
  sound := by
    intro ev hev
    rw [entries_message]
    rcases List.mem_append.mp hev with hev | hev
    · obtain ⟨hrow, hrest⟩ := h.sound ev hev
      exact ⟨List.mem_append_left _ hrow, hrest⟩
    · rw [List.mem_singleton.mp hev]
      exact ⟨by simp, hc, hb, rfl⟩
  complete := by
    intro x hx hxc hxb
    rw [entries_message, List.mem_append, List.mem_singleton] at hx
    rcases hx with hx | rfl
    · obtain ⟨ev, hev, hid⟩ := h.complete x hx hxc hxb
      exact ⟨ev, List.mem_append_left _ hev, hid⟩
    · exact ⟨_, List.mem_append_right _ (List.mem_singleton_self _), rfl⟩

/-- A transition gives the events it names a state, those that are still to come too. -/
theorem Faithful.moved {s : Snapshot} (h : Faithful counts rows s)
    (is : List Nat) (state : ArchiveState) (t : Option Nat) :
    Faithful counts (rows ++ [.transition is state t])
      { events := s.events.map fun ev => if ev.entry.id ∈ is then { ev with state := state } else ev
        pending := fun i => if i ∈ is then some state else s.pending i } where
  sound := by
    intro ev hev
    obtain ⟨old, hold, rfl⟩ := List.mem_map.mp hev
    obtain ⟨hrow, hcounts, hb, hs⟩ := h.sound old hold
    by_cases hi : old.entry.id ∈ is
    · simp [hi, hrow, hcounts, hb]
    · simp [hi, hrow, hcounts, hb, hs]
  complete := by
    intro e he hcounts hb
    obtain ⟨ev, hev, hid⟩ := h.complete e (by simpa using he) hcounts hb
    refine ⟨_, List.mem_map.mpr ⟨ev, hev, rfl⟩, ?_⟩
    split <;> exact hid

theorem Faithful.more {s : Snapshot} (h : Faithful counts rows s)
    (row : Row) : Faithful counts (rows ++ [row]) (readRow counts s row) := by
  cases row with
  | commit t => exact ⟨by simpa [readRow, entries] using h.sound, by simpa [readRow, entries] using h.complete⟩
  | transition is state t =>
    simp only [readRow]
    by_cases hc : counts t = true
    · rw [if_pos hc]
      exact h.moved is state t
    · rw [if_neg hc]
      exact ⟨by simpa using h.sound, by simpa using h.complete⟩
  | message e =>
    simp only [readRow]
    by_cases hc : counts e.transaction = true
    · rw [if_pos hc]
      by_cases hb : isContextBoundary e.message = true
      · rw [if_pos hb]
        exact h.known fun _ hb' => by rw [hb] at hb'; cases hb'
      · rw [if_neg hb]
        by_cases hany : s.events.any (·.entry.id = e.id) = true
        · rw [if_pos hany]
          exact h.known fun _ _ => by simpa using hany
        · rw [if_neg hany]
          exact h.event hc (by simpa using hb)
    · rw [if_neg hc]
      exact h.known fun h' => absurd h' hc

theorem faithful_foldl (counts : Option Nat → Bool) (rows : List Row) :
    Faithful counts rows (rows.foldl (readRow counts) .empty) := by
  induction rows using List.reverseRecOn with
  | nil => exact ⟨by simp [Snapshot.empty], by simp [entries]⟩
  | append_singleton rows row ih =>
    rw [List.foldl_append]
    exact ih.more row

theorem snapshotFromRows_faithful (rows : List Row) : Faithful (committed rows) rows (snapshotFromRows rows) :=
  faithful_foldl _ _

theorem isEvent_iff {e : Entry} :
    isEvent rows e = true ↔ committed rows e.transaction = true ∧ isContextBoundary e.message = false := by
  simp [isEvent]

/-- The events of a snapshot are the rows it takes for events. -/
theorem mem_events (hn : (ids (entries rows)).Nodup) {ev : ArchiveEvent} :
    ev ∈ (snapshotFromRows rows).events ↔
      ev.entry ∈ entries rows ∧ isEvent rows ev.entry = true ∧ ev.state = (lastState rows ev.entry.id).getD ev.entry.state := by
  have hf := snapshotFromRows_faithful rows
  constructor
  · intro h
    obtain ⟨hrow, hc, hb, hs⟩ := hf.sound ev h
    exact ⟨hrow, isEvent_iff.mpr ⟨hc, hb⟩, hs⟩
  · rintro ⟨hrow, hev, hs⟩
    obtain ⟨hc, hb⟩ := isEvent_iff.mp hev
    obtain ⟨found, hmem, hid⟩ := hf.complete ev.entry hrow hc hb
    obtain ⟨hrow', _, _, hs'⟩ := hf.sound found hmem
    have hsame : found = ev := by
      cases found
      cases ev
      obtain rfl := eq_of_id hn hrow' hrow hid
      simp only at hs hs'
      rw [hs, hs']
      rfl
    exact hsame ▸ hmem

/-- The state of an event is that of the last transition that names it, else its row's own. -/
theorem stateOf_event (hn : (ids (entries rows)).Nodup) {e : Entry} (he : e ∈ entries rows)
    (hev : isEvent rows e = true) : stateOf rows e = (lastState rows e.id).getD e.state := by
  have hmem : (⟨e, (lastState rows e.id).getD e.state⟩ : ArchiveEvent) ∈ (snapshotFromRows rows).events :=
    (mem_events hn).mpr ⟨he, hev, rfl⟩
  unfold stateOf
  cases hfind : (snapshotFromRows rows).events.find? (·.entry.id = e.id) with
  | none => exact absurd (List.find?_eq_none.mp hfind _ hmem) (by simp)
  | some found =>
    obtain ⟨hrow, _, hs⟩ := (mem_events hn).mp (List.mem_of_find?_eq_some hfind)
    have hsame : found.entry = e := eq_of_id hn hrow he (by simpa using List.find?_some hfind)
    rw [hsame] at hs
    exact hs

/-- A state a log has given comes from a transition that counts. -/
theorem pending_foldl {i : Nat} {state : ArchiveState} (rows : List Row) (s : Snapshot)
    (h : (rows.foldl (readRow counts) s).pending i = some state) :
    s.pending i = some state ∨ ∃ is t, .transition is state t ∈ rows ∧ counts t = true ∧ i ∈ is := by
  induction rows generalizing s with
  | nil => exact Or.inl h
  | cons row rows ih =>
    rcases ih _ h with h | ⟨is, t, hrow, ht, hi⟩
    · cases row with
      | message e =>
        simp only [readRow] at h
        split at h
        · split at h
          · exact Or.inl h
          · split at h <;> exact Or.inl h
        · exact Or.inl h
      | commit t => exact Or.inl h
      | transition is state' t =>
        simp only [readRow] at h
        by_cases hc : counts t = true
        · rw [if_pos hc] at h
          by_cases hi : i ∈ is
          · simp only [if_pos hi, Option.some.injEq] at h
            subst h
            exact Or.inr ⟨is, t, List.mem_cons_self, hc, hi⟩
          · simp only [if_neg hi] at h
            exact Or.inl h
        · rw [if_neg hc] at h
          exact Or.inl h
    · exact Or.inr ⟨is, t, List.mem_cons_of_mem _ hrow, ht, hi⟩

theorem event_state {ev : ArchiveEvent} (h : ev ∈ (snapshotFromRows rows).events) :
    ev.entry ∈ entries rows ∧ (ev.state = ev.entry.state ∨
      ∃ is t, .transition is ev.state t ∈ rows ∧ committed rows t = true ∧ ev.entry.id ∈ is) := by
  obtain ⟨hrow, _, _, hs⟩ := (snapshotFromRows_faithful rows).sound ev h
  refine ⟨hrow, ?_⟩
  cases hp : (snapshotFromRows rows).pending ev.entry.id with
  | none => exact Or.inl (by rw [hs, hp]; rfl)
  | some state =>
    rw [hp, Option.getD_some] at hs
    rw [hs]
    rcases pending_foldl rows .empty hp with hnone | htransition
    · cases hnone
    · exact Or.inr htransition

/-! ## Appending rows -/

theorem committed_append {rows more : List Row} (h : ∀ t, .commit t ∉ more) : committed (rows ++ more) = committed rows := by
  funext t
  cases t with
  | none => rfl
  | some t => simp [committed, h t]

theorem lastState_append {rows more : List Row} (h : ∀ t, .commit t ∉ more) (i : Nat) :
    lastState (rows ++ more) i = (more.foldl (readRow (committed rows)) (snapshotFromRows rows)).pending i := by
  rw [lastState, snapshotFromRows, committed_append h, List.foldl_append, snapshotFromRows]

theorem lastState_transition (rows : List Row) (is : List Nat) (state : ArchiveState) (i : Nat) :
    lastState (rows ++ [.transition is state none]) i = if i ∈ is then some state else lastState rows i := by
  rw [lastState_append (by simp)]
  simp [readRow, committed, lastState]

theorem pending_readRow_message (counts : Option Nat → Bool) (s : Snapshot) (e : Entry) :
    (readRow counts s (.message e)).pending = s.pending := by
  simp only [readRow]
  split
  · split
    · rfl
    split <;> rfl
  · rfl

theorem lastState_messages (rows : List Row) (es : List Entry) (i : Nat) :
    lastState (rows ++ es.map .message) i = lastState rows i := by
  rw [lastState_append (by simp), lastState]
  generalize snapshotFromRows rows = s
  induction es generalizing s with
  | nil => rfl
  | cons e es ih => rw [List.map_cons, List.foldl_cons, ih, pending_readRow_message]

end Flowly.Session
