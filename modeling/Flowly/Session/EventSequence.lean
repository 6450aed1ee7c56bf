/-
  Flowly.Session.EventSequence — the sequence numbers of a session's events and the order
  they give the append-only log (`flowly/session/manager.py`: `_next_event_sequence`,
  `ensure_event_identities`, `add_message`, `extend_with_turn_messages`, `drop_last_turn`,
  `clear`, `reset_conversation_context`, `flush_full`, `_withdraw_removed_active_events`,
  `save`; `flowly/session/archive.py`: `new_event_id`, `ensure_event_identity`).

  One `Session` object and the log of its key. The next number and the watermark of the
  log are metadata. The random part of an id is given, and so is how a save ends: a log
  that cannot be written is passed over, whatever part of the rows reached it. A row is
  written whole or not at all.

  Proved: in a run that resets the conversation only while the log has no event, gives a
  message no number of its own that is not above the others, and has no flush fail after
  it wrote rows, the numbers in the log increase (`sequences_increase`). A reset drops the
  next number, and the events after it are numbered from 1 again (`reset_restarts`).
-/

import Flowly.Lib.Reach
import Flowly.Session.Transactions
import Mathlib.Data.List.MinMax

namespace Flowly.Session.EventSequence

open Flowly.Lib
open Flowly.Session.Transactions (hex)

/-- What a message says: its role, and the rest of what a fingerprint digests. -/
structure Body (β : Type) where
  role : String
  rest : β
  deriving DecidableEq

/-- `_event_seq` among the keyword arguments of a new message: none, what `int()` makes of
    it, or a value on which that raises. -/
inductive Requested where
  | falsy
  | num (n : Int)
  | bad

/-- A message of the session, and a row of the log. -/
abbrev Message (β : Type) := Transactions.Row (Body β)

structure NewMessage (β : Type) where
  body : Body β
  displayHidden : Bool := false
  isContextBoundary : Bool := false
  eventId : IdValue := .falsy
  eventSeq : Requested := .falsy
  archiveState : Option ArchiveState := none
  /-- The random part of its id. -/
  uuid : String

structure St (β : Type) where
  messages : List (Message β) := []
  /-- `_next_event_seq`. -/
  nextEventSeq : Option Int := none
  /-- `_full_log_count`. -/
  fullLogCount : Option Nat := none
  /-- `_pending_archive_transaction`. -/
  pendingTransaction : Bool := false
  log : List (Message β) := []

variable {β : Type}

def newEventId (sequence : Int) (uuid : String) : String :=
  "evt_" ++ hex 12 (max 1 sequence).toNat ++ "_" ++ uuid

/-- The numbers of some messages; a message without one counts as 0. -/
def seqs (messages : List (Message β)) : List Int := messages.map (·.eventSeq.getD 0)

def maxSequence (messages : List (Message β)) : Int := ((seqs messages).max?).getD 0

def nextEventSequence (s : St β) : Int × St β :=
  let stored := s.nextEventSeq.getD 0
  let next := if stored ≤ 0 then 1 + maxSequence s.messages else stored
  (next, { s with nextEventSeq := some (next + 1) })

/-- `int(self.metadata.get("_next_event_seq", 1) or 1)`. -/
def St.storedNext (s : St β) : Int := if s.nextEventSeq.getD 1 = 0 then 1 else s.nextEventSeq.getD 1

/-- `ensure_event_identity`; `own` is the number the message has. -/
def ensureEventIdentity (own : Option Int) (sequence : Int) (uuid : String) (row : Message β) : Message β :=
  let seq := max 1 (own.getD sequence)
  { row with
    eventSeq := some seq
    eventId := if row.eventId.truthy then row.eventId else .text (newEventId seq uuid)
    archiveState := some (row.archiveState.getD (Transactions.initialState row)) }

def ownSeq (row : Message β) : Option Int := row.eventSeq.filter (· ≠ 0)

def identified (row : Message β) : Bool := row.eventId.truthy && (ownSeq row).isSome

/-- The loop of `ensure_event_identities` over the messages from `done` on. -/
def backfill (uuid : Nat → String) (s : St β) (done : List (Message β)) : List (Message β) → St β
  | [] => { s with messages := done }
  | row :: rows =>
    if identified row then backfill uuid s (done ++ [row]) rows
    else
      let (sequence, s) := nextEventSequence s
      backfill uuid s (done ++ [ensureEventIdentity (ownSeq row) sequence (uuid done.length) row]) rows

def ensureEventIdentities (uuid : Nat → String) (s : St β) : St β :=
  let s := backfill uuid s [] s.messages
  { s with nextEventSeq := some (max s.storedNext (maxSequence s.messages + 1)) }

def NewMessage.row (m : NewMessage β) : Message β :=
  { hasRole := m.body.role ≠ "", displayHidden := m.displayHidden, isContextBoundary := m.isContextBoundary,
    eventId := m.eventId, archiveState := m.archiveState, body := m.body }

/-- The message is added, unless its number is no number: then this raises, after the next
    number was taken. -/
def addMessage (m : NewMessage β) (s : St β) : St β × Bool :=
  match m.eventSeq with
  | .falsy =>
    let (sequence, s) := nextEventSequence s
    ({ s with messages := s.messages ++ [ensureEventIdentity none sequence m.uuid m.row] }, true)
  | .num n =>
    if n ≤ 0 then
      let (sequence, s) := nextEventSequence s
      ({ s with messages := s.messages ++ [ensureEventIdentity (some n) sequence m.uuid m.row] }, true)
    else
      ({ s with
         nextEventSeq := some (max s.storedNext (n + 1))
         messages := s.messages ++ [ensureEventIdentity (some n) n m.uuid m.row] }, true)
  | .bad => ((nextEventSequence s).2, false)

def addMessages : List (NewMessage β) → St β → St β
  | [], s => s
  | m :: ms, s => if (addMessage m s).2 then addMessages ms (addMessage m s).1 else (addMessage m s).1

/-- A turn as `extend_with_turn_messages` gets it. -/
structure Turn (β : Type) where
  user : NewMessage β
  /-- Each with whether it is a reply in plain text that closes the turn. -/
  newMessages : List (NewMessage β × Bool) := []
  /-- Added if nothing closes the turn, and something is there to show. -/
  capstone : Option (NewMessage β) := none

def Turn.messages (t : Turn β) : List (NewMessage β) :=
  t.user :: t.newMessages.map (·.1) ++ if t.newMessages.any (·.2) then [] else t.capstone.toList

def extendWithTurnMessages (t : Turn β) (s : St β) : St β := addMessages t.messages s

/-- The messages before the last one of a user; all, if there is none. -/
def beforeLastUser (messages : List (Message β)) : List (Message β) :=
  match (messages.reverse.dropWhile (·.body.role ≠ "user")) with
  | [] => messages
  | _ :: before => before.reverse

def dropLastTurn (s : St β) : St β := { s with messages := beforeLastUser s.messages }

def clear (s : St β) : St β := { s with messages := [] }

/-- Of the metadata none of `CONTEXT_FREE_METADATA_KEYS` is modelled. -/
def resetConversationContext (s : St β) : St β :=
  { clear s with nextEventSeq := none, fullLogCount := none, pendingTransaction := false }

def withdrawn (fingerprint : Body β → String) (s : St β) : List String :=
  (((Transactions.snapshotFromRows fingerprint s.log).filter fun e =>
    (e.state = .active ∨ e.state = .internalHidden) ∧
      e.eventId ∉ (s.messages.filter (·.eventId.truthy)).map (·.eventId.str)).map (·.eventId)).dedup

def transitionRow (ids : List String) (state : ArchiveState) (body : Body β) : Message β :=
  { type := .transition, state := some state, eventIds := ids.map .text, body }

def withdrawRemovedActiveEvents (fingerprint : Body β → String) (blank : Body β) (s : St β) : St β :=
  let removed := withdrawn fingerprint s
  if removed = [] then s
  else
    { s with
      log := s.log ++ [transitionRow removed .withdrawn blank]
      messages := s.messages.map fun m =>
        if m.eventId.str ∈ removed then { m with archiveState := some .withdrawn } else m }

inductive Outcome where
  /-- The access check or the revision check raises. -/
  | refused
  /-- The transition cannot be appended. -/
  | notWithdrawn
  /-- The log cannot be written, after some rows were. -/
  | flushFailed (written : Nat)
  /-- The log is written; the canonical file may be or not. -/
  | flushed

def flushFull (uuid : Nat → String) (outcome : Outcome) (s : St β) : St β :=
  let s := ensureEventIdentities uuid s
  let mark := s.fullLogCount.getD 0
  let new := s.messages.drop mark
  if s.messages.length ≤ mark then { s with fullLogCount := some s.messages.length }
  else
    match outcome with
    | .flushFailed written => { s with log := s.log ++ new.take written }
    | _ => { s with log := s.log ++ new, fullLogCount := some s.messages.length }

def save (fingerprint : Body β → String) (blank : Body β) (uuid : Nat → String) (outcome : Outcome) (s : St β) : St β :=
  match outcome with
  | .refused => s
  | .notWithdrawn => ensureEventIdentities uuid s
  | _ =>
    let s := ensureEventIdentities uuid s
    let s := if s.pendingTransaction then s else withdrawRemovedActiveEvents fingerprint blank s
    flushFull uuid outcome s

inductive Ev (β : Type) where
  | addMessage (m : NewMessage β)
  | extend (t : Turn β)
  | ensureEventIdentities (uuid : Nat → String)
  | dropLastTurn
  | clear
  | resetConversationContext
  | save (uuid : Nat → String) (outcome : Outcome)

variable (fingerprint : Body β → String) (blank : Body β)

def step (s : St β) : Ev β → St β
  | .addMessage m => (addMessage m s).1
  | .extend t => extendWithTurnMessages t s
  | .ensureEventIdentities uuid => ensureEventIdentities uuid s
  | .dropLastTurn => dropLastTurn s
  | .clear => clear s
  | .resetConversationContext => resetConversationContext s
  | .save uuid outcome => save fingerprint blank uuid outcome s

/-- The sequence numbers of the events in a log. -/
def logSequences (log : List (Message β)) : List Int :=
  (log.filter (·.type = .message)).filterMap (·.eventSeq)

/-- The numbers in the log, and of the messages that are not in it yet. -/
def numbers (s : St β) : List Int := logSequences s.log ++ seqs (s.messages.drop (s.fullLogCount.getD 0))

def Above (s : St β) (m : NewMessage β) : Prop :=
  match m.eventSeq with
  | .num n => ∀ a ∈ numbers s, a < max 1 n
  | _ => True

/-- `Above` for one message after the other. -/
def AllAbove : List (NewMessage β) → St β → Prop
  | [], _ => True
  | m :: ms, s => Above s m ∧ AllAbove ms (addMessage m s).1

/-- The steps under which the numbers stay in order. -/
def Orderly (s : St β) : Ev β → Prop
  | .addMessage m => Above s m
  | .extend t => AllAbove t.messages s
  | .resetConversationContext => logSequences s.log = []
  | .save _ (.flushFailed written) => written = 0
  | _ => True

/-- The session as it is in such a run: its numbers are in order, and below the next one. -/
structure Sound (s : St β) : Prop where
  messages : ∀ m ∈ s.messages, identified m = true ∧ m.type = .message
  order : (numbers s).Pairwise (· < ·)
  below : ∀ a ∈ numbers s, a < s.nextEventSeq.getD 1
  positive : 1 ≤ s.nextEventSeq.getD 1
  fresh : s.nextEventSeq = none → s.messages = []

theorem sound_new : Sound ({} : St β) where
  messages := List.forall_mem_nil _
  order := .nil
  below := List.forall_mem_nil _
  positive := le_refl _
  fresh := fun _ => rfl

/-! ## Numbers -/

theorem seqs_append (xs ys : List (Message β)) : seqs (xs ++ ys) = seqs xs ++ seqs ys := List.map_append

theorem logSequences_append (xs ys : List (Message β)) : logSequences (xs ++ ys) = logSequences xs ++ logSequences ys := by
  simp [logSequences]

theorem identified_seq {row : Message β} (h : identified row = true) : row.eventSeq = some (row.eventSeq.getD 0) := by
  cases hseq : row.eventSeq with
  | none => simp [identified, ownSeq, hseq] at h
  | some n => rfl

/-- Messages with their identity have their numbers in the log. -/
theorem logSequences_messages {ms : List (Message β)} (h : ∀ m ∈ ms, identified m = true ∧ m.type = .message) :
    logSequences ms = seqs ms := by
  induction ms with
  | nil => rfl
  | cons m ms ih =>
    obtain ⟨hid, htype⟩ := h m List.mem_cons_self
    have hrest := ih fun x hx => h x (List.mem_cons_of_mem _ hx)
    simp only [logSequences, seqs] at hrest ⊢
    rw [List.filter_cons_of_pos (by simpa using htype), List.filterMap_cons_some (identified_seq hid), hrest, List.map_cons]

variable {s : St β}

theorem storedNext_eq (h : 1 ≤ s.nextEventSeq.getD 1) : s.storedNext = s.nextEventSeq.getD 1 := by
  unfold St.storedNext
  rw [if_neg (by omega)]

/-- In a sound session the next number is the stored one, or the first. -/
theorem Sound.next (h : Sound s) :
    nextEventSequence s = (s.nextEventSeq.getD 1, { s with nextEventSeq := some (s.nextEventSeq.getD 1 + 1) }) := by
  have hpositive := h.positive
  unfold nextEventSequence
  cases hnext : s.nextEventSeq with
  | none => simp [h.fresh hnext, maxSequence, seqs]
  | some n =>
    rw [hnext] at hpositive
    simp only [Option.getD_some] at hpositive ⊢
    rw [if_neg (by omega)]

/-! ## New messages -/

theorem ensureEventIdentity_seq (own : Option Int) (sequence : Int) (uuid : String) (row : Message β) :
    (ensureEventIdentity own sequence uuid row).eventSeq = some (max 1 (own.getD sequence)) := rfl

theorem ensureEventIdentity_identified (own : Option Int) (sequence : Int) (uuid : String) (row : Message β) :
    identified (ensureEventIdentity own sequence uuid row) = true := by
  have hseq : (ownSeq (ensureEventIdentity own sequence uuid row)).isSome = true := by
    have hpos : max 1 (own.getD sequence) ≠ 0 := by omega
    simp [ownSeq, ensureEventIdentity_seq, hpos]
  have hid : (ensureEventIdentity own sequence uuid row).eventId.truthy = true := by
    simp only [ensureEventIdentity]
    split
    · assumption
    · simp [IdValue.truthy, newEventId]
  rw [identified, hid, hseq]
  rfl

/-- A message with a number above all others and below the next one. -/
theorem Sound.push (h : Sound s) {row : Message β} {q next : Int} (hid : identified row = true)
    (htype : row.type = .message) (hseq : row.eventSeq = some q) (habove : ∀ a ∈ numbers s, a < q) (hq : 1 ≤ q) (hnext : q < next)
    (hmono : s.nextEventSeq.getD 1 ≤ next) :
    Sound { s with messages := s.messages ++ [row], nextEventSeq := some next } := by
  have hnumbers : numbers { s with messages := s.messages ++ [row], nextEventSeq := some next } = numbers s ++ [q] ∨
      numbers { s with messages := s.messages ++ [row], nextEventSeq := some next } = numbers s := by
    simp only [numbers]
    rw [List.drop_append]
    by_cases hmark : s.fullLogCount.getD 0 ≤ s.messages.length
    · left
      rw [Nat.sub_eq_zero_of_le hmark, List.drop_zero, seqs_append, ← List.append_assoc]
      simp [seqs, hseq]
    · right
      have hnone : [row].drop (s.fullLogCount.getD 0 - s.messages.length) = [] := by
        apply List.drop_eq_nil_of_le
        rw [List.length_singleton]
        omega
      rw [hnone, List.append_nil]
  refine ⟨fun m hm => ?_, ?_, fun a ha => ?_, ?_, nofun⟩
  · rcases List.mem_append.mp hm with hm | hm
    · exact h.messages m hm
    · rw [List.mem_singleton.mp hm]
      exact ⟨hid, htype⟩
  · rcases hnumbers with hn | hn
    · rw [hn]
      exact List.pairwise_append.mpr ⟨h.order, List.pairwise_singleton _ _, fun a ha b hb => List.mem_singleton.mp hb ▸ habove a ha⟩
    · rw [hn]
      exact h.order
  · show a < next
    rcases hnumbers with hn | hn
    · rw [hn] at ha
      rcases List.mem_append.mp ha with ha | ha
      · exact (h.below a ha).trans_le hmono
      · rw [List.mem_singleton.mp ha]
        exact hnext
    · rw [hn] at ha
      exact (h.below a ha).trans_le hmono
  · show 1 ≤ next
    omega

theorem Sound.taken (h : Sound s) {next : Int} (hmono : s.nextEventSeq.getD 1 ≤ next) :
    Sound { s with nextEventSeq := some next } :=
  ⟨h.messages, h.order, fun a ha => (h.below a ha).trans_le hmono, h.positive.trans hmono, nofun⟩

theorem row_type (m : NewMessage β) (own : Option Int) (sequence : Int) :
    (ensureEventIdentity own sequence m.uuid m.row).type = .message := rfl

theorem addMessage_sound (h : Sound s) {m : NewMessage β} (hm : Above s m) : Sound (addMessage m s).1 := by
  have hpositive := h.positive
  unfold addMessage
  unfold Above at hm
  split
  · rw [h.next]
    refine h.push (ensureEventIdentity_identified _ _ _ _) (row_type _ _ _) (ensureEventIdentity_seq _ _ _ _) ?_ ?_ ?_ ?_
    · intro a ha
      have := h.below a ha
      simp only [Option.getD_none]
      omega
    · omega
    · simp only [Option.getD_none]
      omega
    · omega
  · rename_i n hseq
    rw [hseq] at hm
    split
    · rw [h.next]
      refine h.push (ensureEventIdentity_identified _ _ _ _) (row_type _ _ _) (ensureEventIdentity_seq _ _ _ _) hm ?_ ?_ ?_
      · omega
      · simp only [Option.getD_some]
        omega
      · omega
    · refine h.push (ensureEventIdentity_identified _ _ _ _) (row_type _ _ _) (ensureEventIdentity_seq _ _ _ _) hm ?_ ?_ ?_
      · omega
      · rw [storedNext_eq hpositive]
        simp only [Option.getD_some]
        omega
      · rw [storedNext_eq hpositive]
        omega
  · rw [h.next]
    exact h.taken (by omega)

theorem addMessages_sound (h : Sound s) {ms : List (NewMessage β)} (hms : AllAbove ms s) : Sound (addMessages ms s) := by
  induction ms generalizing s with
  | nil => exact h
  | cons m ms ih =>
    have hone := addMessage_sound h hms.1
    rw [addMessages]
    split
    · exact ih hone hms.2
    · exact hone

/-! ## The other steps -/

theorem backfill_identified (uuid : Nat → String) (s : St β) {done rows : List (Message β)} (h : ∀ m ∈ rows, identified m = true) :
    backfill uuid s done rows = { s with messages := done ++ rows } := by
  induction rows generalizing done with
  | nil => rw [backfill, List.append_nil]
  | cons row rows ih =>
    rw [backfill, if_pos (h row List.mem_cons_self), ih fun m hm => h m (List.mem_cons_of_mem _ hm), List.append_assoc]
    rfl

theorem ensure_eq (h : ∀ m ∈ s.messages, identified m = true) (uuid : Nat → String) :
    ensureEventIdentities uuid s = { s with nextEventSeq := some (max s.storedNext (maxSequence s.messages + 1)) } := by
  have hloop : backfill uuid s [] s.messages = s := backfill_identified uuid s h
  simp only [ensureEventIdentities, hloop]

theorem ensure_sound (h : Sound s) (uuid : Nat → String) : Sound (ensureEventIdentities uuid s) := by
  rw [ensure_eq fun m hm => (h.messages m hm).1, storedNext_eq h.positive]
  exact h.taken (le_max_left _ _)

/-- Fewer messages, the first ones. -/
theorem Sound.cut (h : Sound s) {ms : List (Message β)} (hms : ms <+: s.messages) : Sound { s with messages := ms } := by
  have hsub : List.Sublist (numbers { s with messages := ms }) (numbers s) :=
    List.Sublist.append (List.Sublist.refl _) ((hms.sublist.drop _).map _)
  refine ⟨fun m hm => h.messages m (hms.subset hm), h.order.sublist hsub, fun a ha => h.below a (hsub.subset ha), h.positive,
    fun hnone => ?_⟩
  have hnil := h.fresh hnone
  simp only at hnil ⊢
  rw [hnil] at hms
  exact List.prefix_nil.mp hms

theorem beforeLastUser_initial (ms : List (Message β)) : beforeLastUser ms <+: ms := by
  unfold beforeLastUser
  split
  · exact List.prefix_refl _
  · rename_i last before hdrop
    have hsuffix : (last :: before) <:+ ms.reverse := hdrop ▸ List.dropWhile_suffix _
    have hbefore : before <:+ ms.reverse := (List.suffix_cons last before).trans hsuffix
    rw [← List.reverse_prefix, List.reverse_reverse] at hbefore
    exact hbefore

/-- A withdrawal adds no event, and changes only the states of the messages. -/
theorem withdraw_spec (s : St β) :
    ∃ (state : Message β → Option ArchiveState) (rows : List (Message β)), logSequences rows = [] ∧
      withdrawRemovedActiveEvents fingerprint blank s =
        { s with log := s.log ++ rows, messages := s.messages.map fun m => { m with archiveState := state m } } := by
  unfold withdrawRemovedActiveEvents
  generalize withdrawn fingerprint s = removed
  by_cases hnone : removed = []
  · refine ⟨fun m => m.archiveState, [], rfl, ?_⟩
    rw [if_pos hnone, List.append_nil, List.map_id']
  · refine ⟨fun m => if m.eventId.str ∈ removed then some .withdrawn else m.archiveState, [transitionRow removed .withdrawn blank],
      rfl, ?_⟩
    simp only [if_neg hnone]
    congr 1
    refine List.map_congr_left fun m _ => ?_
    split
    · rfl
    · rfl

/-- Rows that are no events and other states do not change the numbers. -/
theorem numbers_relabel (s : St β) (state : Message β → Option ArchiveState) {rows : List (Message β)} (hrows : logSequences rows = []) :
    numbers { s with log := s.log ++ rows, messages := s.messages.map fun m => { m with archiveState := state m } } = numbers s := by
  simp only [numbers, logSequences_append, hrows, List.append_nil, seqs, ← List.map_drop, List.map_map]
  rfl

theorem withdraw_sound (h : Sound s) : Sound (withdrawRemovedActiveEvents fingerprint blank s) := by
  obtain ⟨state, rows, hrows, heq⟩ := withdraw_spec fingerprint blank s
  have hnumbers := numbers_relabel s state hrows
  rw [heq]
  refine ⟨fun m hm => ?_, hnumbers ▸ h.order, hnumbers ▸ h.below, h.positive, fun hnone => ?_⟩
  · obtain ⟨old, hold, rfl⟩ := List.mem_map.mp hm
    exact h.messages old hold
  · show s.messages.map _ = []
    rw [h.fresh hnone, List.map_nil]

/-- The rows that the log was waiting for. -/
theorem Sound.flushed (h : Sound s) :
    Sound { s with log := s.log ++ s.messages.drop (s.fullLogCount.getD 0), fullLogCount := some s.messages.length } := by
  have hrows : logSequences (s.messages.drop (s.fullLogCount.getD 0)) = seqs (s.messages.drop (s.fullLogCount.getD 0)) :=
    logSequences_messages fun m hm => h.messages m (List.mem_of_mem_drop hm)
  have hnumbers : numbers { s with log := s.log ++ s.messages.drop (s.fullLogCount.getD 0), fullLogCount := some s.messages.length } =
      numbers s := by
    simp only [numbers, logSequences_append, hrows, Option.getD_some, List.drop_length]
    exact List.append_nil _
  exact ⟨h.messages, hnumbers ▸ h.order, hnumbers ▸ h.below, h.positive, h.fresh⟩

/-- The log has all messages, as far as it is concerned. -/
theorem Sound.marked (h : Sound s) (n : Option Nat) (hn : s.messages.length ≤ n.getD 0) : Sound { s with fullLogCount := n } := by
  have hnone : s.messages.drop (n.getD 0) = [] := List.drop_eq_nil_of_le hn
  have hsub : List.Sublist (numbers { s with fullLogCount := n }) (numbers s) := by
    refine List.Sublist.append (List.Sublist.refl _) ?_
    rw [hnone]
    exact List.nil_sublist _
  exact ⟨h.messages, h.order.sublist hsub, fun a ha => h.below a (hsub.subset ha), h.positive, h.fresh⟩

theorem flushFull_sound (h : Sound s) (uuid : Nat → String) {outcome : Outcome}
    (hfail : ∀ written, outcome = .flushFailed written → written = 0) : Sound (flushFull uuid outcome s) := by
  have hensured := ensure_sound h uuid
  simp only [flushFull]
  generalize ensureEventIdentities uuid s = s at hensured ⊢
  split
  · exact hensured.marked _ (le_refl _)
  · split
    · rename_i written
      rw [hfail written rfl, List.take_zero, List.append_nil]
      exact hensured
    · exact hensured.flushed

theorem save_sound (h : Sound s) (uuid : Nat → String) {outcome : Outcome}
    (hfail : ∀ written, outcome = .flushFailed written → written = 0) : Sound (save fingerprint blank uuid outcome s) := by
  have hensured := ensure_sound h uuid
  have hwithdrawn : Sound (if (ensureEventIdentities uuid s).pendingTransaction then ensureEventIdentities uuid s
      else withdrawRemovedActiveEvents fingerprint blank (ensureEventIdentities uuid s)) := by
    split
    · exact hensured
    · exact withdraw_sound fingerprint blank hensured
  unfold save
  split
  · exact h
  · exact hensured
  · exact flushFull_sound hwithdrawn uuid hfail

theorem reset_sound (h : logSequences s.log = []) : Sound (resetConversationContext s) := by
  have hnumbers : numbers (resetConversationContext s) = [] := by
    show logSequences s.log ++ seqs (List.drop _ []) = []
    rw [h, List.drop_nil]
    rfl
  refine ⟨List.forall_mem_nil _, hnumbers ▸ .nil, fun a ha => ?_, le_refl _, fun _ => rfl⟩
  rw [hnumbers] at ha
  cases ha

theorem step_sound (h : Sound s) {e : Ev β} (he : Orderly s e) : Sound (step fingerprint blank s e) := by
  cases e with
  | addMessage m => exact addMessage_sound h he
  | extend t => exact addMessages_sound h he
  | ensureEventIdentities uuid => exact ensure_sound h uuid
  | dropLastTurn => exact h.cut (beforeLastUser_initial s.messages)
  | clear => exact h.cut List.nil_prefix
  | resetConversationContext => exact reset_sound he
  | save uuid outcome =>
    refine save_sound fingerprint blank h uuid fun written hw => ?_
    subst hw
    exact he

/-- In an orderly run the sequence numbers in the log increase. -/
theorem sequences_increase {s s' : St β} (hs : Sound s) (h : Reach (step fingerprint blank) Orderly s s') :
    (logSequences s'.log).Pairwise (· < ·) := by
  have hsound : Sound s' := h.invariant (P := Sound) hs fun s e hs he => step_sound fingerprint blank hs he
  exact (List.pairwise_append.mp hsound.order).1

/-! ## A reset -/

theorem flushFull_log (h : ∀ m ∈ s.messages, identified m = true ∧ m.type = .message) (uuid : Nat → String) :
    logSequences (flushFull uuid .flushed s).log = numbers s := by
  have hrows : logSequences (s.messages.drop (s.fullLogCount.getD 0)) = seqs (s.messages.drop (s.fullLogCount.getD 0)) :=
    logSequences_messages fun m hm => h m (List.mem_of_mem_drop hm)
  simp only [flushFull, ensure_eq fun m hm => (h m hm).1]
  split
  · rename_i hmark
    rw [numbers, List.drop_eq_nil_of_le hmark]
    exact (List.append_nil _).symm
  · rw [logSequences_append, hrows]
    rfl

/-- A save that is not refused leaves the numbers as they were, all of them in the log. -/
theorem save_log (h : ∀ m ∈ s.messages, identified m = true ∧ m.type = .message) (uuid : Nat → String) :
    logSequences (save fingerprint blank uuid .flushed s).log = numbers s := by
  simp only [save, ensure_eq fun m hm => (h m hm).1]
  split
  · exact flushFull_log (s := { s with nextEventSeq := some (max s.storedNext (maxSequence s.messages + 1)) }) h uuid
  · obtain ⟨state, rows, hrows, heq⟩ := withdraw_spec fingerprint blank
      { s with nextEventSeq := some (max s.storedNext (maxSequence s.messages + 1)) }
    rw [heq, flushFull_log _ uuid]
    · exact numbers_relabel { s with nextEventSeq := some (max s.storedNext (maxSequence s.messages + 1)) } state hrows
    · intro m hm
      obtain ⟨old, hold, rfl⟩ := List.mem_map.mp hm
      exact h old hold

/-- After a reset the numbers start again. -/
theorem reset_restarts (s : St β) {m : NewMessage β} (hm : m.eventSeq = .falsy) (uuid : Nat → String) :
    logSequences (save fingerprint blank uuid .flushed (addMessage m (resetConversationContext s)).1).log =
      logSequences s.log ++ [1] := by
  have hadd : (addMessage m (resetConversationContext s)).1 =
      { messages := [ensureEventIdentity none 1 m.uuid m.row], nextEventSeq := some 2, log := s.log } := by
    simp only [addMessage, hm]
    rfl
  rw [hadd, save_log]
  · rfl
  · intro row hrow
    rw [List.mem_singleton.mp hrow]
    exact ⟨ensureEventIdentity_identified _ _ _ _, rfl⟩

namespace Sample

def said (n : Nat) : NewMessage Nat := { body := ⟨"user", n⟩, uuid := "00" }

def digest (body : Body Nat) : String := toString body.rest

def saved : Ev Nat := .save (fun _ => "") .flushed

def run (es : List (Ev Nat)) : St Nat := es.foldl (step digest ⟨"", 0⟩) {}

def undone : List (Ev Nat) :=
  [.addMessage (said 1), saved, .dropLastTurn, .addMessage (said 2), .extend { user := said 3 }, saved]

theorem undone_orderly : (logSequences (run undone).log).Pairwise (· < ·) := by
  refine sequences_increase digest ⟨"", 0⟩ sound_new (Reach.foldl undone _ .start ?_)
  exact ⟨trivial, trivial, trivial, trivial, ⟨trivial, trivial⟩, trivial, trivial⟩

def forgotten : List (Ev Nat) := [.addMessage (said 1), saved, .resetConversationContext, .addMessage (said 2), saved]

/-- After a reset two events of the log share a number. -/
theorem forgotten_not_increasing : ¬ ∀ es : List (Ev Nat), (logSequences (run es).log).Pairwise (· < ·) := by
  intro h
  have hfirst : logSequences (run [.addMessage (said 1), saved]).log = [1] := by
    refine (save_log digest ⟨"", 0⟩ ?_ _).trans rfl
    intro m hm
    rw [List.mem_singleton.mp hm]
    exact ⟨ensureEventIdentity_identified _ _ _ _, rfl⟩
  have hlog : logSequences (run forgotten).log = [1, 1] :=
    (reset_restarts digest ⟨"", 0⟩ (run [.addMessage (said 1), saved]) rfl _).trans (by rw [hfirst]; rfl)
  have hincreasing := h forgotten
  rw [hlog] at hincreasing
  revert hincreasing
  decide

end Sample

end Flowly.Session.EventSequence
