/-
  Flowly.Session.Transcript — the display transcript of a session: what its operations
  leave in `session.messages`, what a save appends to the log, and what the log shows
  (`flowly/session/manager.py`: `Session.add_message`, `extend_with_turn_messages`,
  `drop_last_turn`, `drop_last_assistant_chain`, `clear`, and of `SessionManager` `save`,
  `_withdraw_removed_active_events`, `_flush_full_unlocked`, `get_full_messages`).

  The log position is a count, `mark`: the next save appends the messages from that
  position on. It names the unlogged messages as long as the list has only grown, or
  only shrunk, since the last save. `low` is how far it has been cut since then: a
  message added above a cut may stand below the mark and is then never logged.

  Proved: in a run whose saves have all been `Sound`, a save leaves log and transcript
  complete exactly if it is `Sound` too (`save_complete_iff`); `retry_loses_the_new_reply`
  is a save that is not.

  Every write succeeds, and one manager has the session. Voice transcripts, which
  `get_full_messages` reads from the canonical file, are not modelled, nor are usage,
  media and the other metadata of a turn.
-/

import Flowly.Lib.Reach
import Flowly.Session.Archive

namespace Flowly.Session.Transcript

open Flowly.Lib
open Flowly.Compaction (Content Part Role)

structure St where
  messages : List Entry
  /-- `_full_log_count`. -/
  mark : Nat
  log : List Row
  /-- The next event id: `new_event_id` never gives one twice. -/
  fresh : Nat
  /-- Ghost: the messages of the last save. -/
  saved : List Entry
  /-- Ghost: the least length of `messages` since then. -/
  low : Nat
  /-- Ghost: the ids that a drop or a clear has removed. -/
  removed : List Nat

/-! ## Session -/

def addMessage (s : St) (message : Message) : St :=
  { s with messages := s.messages ++ [{ id := s.fresh, state := initialState message, message }], fresh := s.fresh + 1 }

structure JournalRow where
  message : Message
  /-- `steering_source_run_id`. -/
  steering : Bool := false

structure Turn where
  userContent : Content
  newMessages : List JournalRow
  finalContent : Text := []
  replyMedia : Bool := false
  userDisplayHidden : Bool := false
  aborted : Bool := false
  /-- The kind in `user_extras`. -/
  userKind : Option String := none
  carryKeys : List String := []

def closingIdx (newMessages : List JournalRow) : Option Nat :=
  (newMessages.zipIdx.reverse.find? fun (r, _) => r.message.role = .assistant ∧ r.message.toolCalls = [] ∧ !r.steering).map (·.2)

def contentOr : Content → Content
  | .parts [] => .text []
  | .null => .text []
  | content => content

/-- What `extend_with_turn_messages` adds, in order. -/
def turnMessages (turn : Turn) : List Message :=
  let closing := closingIdx turn.newMessages
  let user : Message :=
    { role := .user, content := turn.userContent, kind := turn.userKind, displayHidden := turn.userDisplayHidden }
  let rows := turn.newMessages.zipIdx.map fun (r, i) =>
    ({ role := r.message.role
       content := if closing = some i ∧ turn.finalContent ≠ [] then .text turn.finalContent else contentOr r.message.content
       toolCalls := r.message.toolCalls
       toolCallId := r.message.toolCallId
       name := r.message.name
       providerReplay := r.message.providerReplay
       kind := if "kind" ∈ turn.carryKeys then r.message.kind else none
       displayHidden := "_display_hidden" ∈ turn.carryKeys && r.message.displayHidden } : Message)
  let capstone : List Message :=
    if closing = none ∧ (turn.finalContent ≠ [] ∨ turn.replyMedia ∨ turn.aborted) then
      [{ role := .assistant, content := .text turn.finalContent }]
    else []
  user :: rows ++ capstone

def extendWithTurnMessages (s : St) (turn : Turn) : St := (turnMessages turn).foldl addMessage s

def extractText (content : Content) : Text :=
  match content with
  | .text t => t
  | .parts ps => Text.join ['\n'] (ps.filterMap fun | .text t => if t = [] then none else some t | _ => none)
  | .null => []

/-- The text of the removed prompt, and the messages that are left. -/
def dropLastTurn (messages : List Entry) : Option Text × List Entry :=
  match (messages.zipIdx.reverse.find? fun (e, _) => e.message.role = .user) with
  | none => (none, messages)
  | some (e, lastUserIdx) => (some (extractText e.message.content), messages.take lastUserIdx)

/-- The text of the last prompt, and the messages without the reply to it. -/
def dropLastAssistantChain (messages : List Entry) : Option Text × List Entry :=
  let chain := messages.reverse.takeWhile fun e => e.message.role = .assistant ∨ e.message.role = .tool
  match (messages.reverse.drop chain.length).head? with
  | none => (none, messages)
  | some e =>
    if e.message.role ≠ .user then (none, messages)
    else (some (extractText e.message.content), messages.take (messages.length - chain.length))

def clear (_ : List Entry) : List Entry := []

def remove (s : St) (left : List Entry) : St :=
  { s with
    messages := left
    low := min s.low left.length
    removed := s.removed ++ ids (s.messages.drop left.length) }

/-! ## SessionManager -/

/-- The ids `_withdraw_removed_active_events` withdraws. -/
def removedActive (s : St) : List Nat :=
  ((snapshotFromRows s.log).events.filter fun ev =>
    (ev.state = .active ∨ ev.state = .internalHidden) ∧ ev.entry.id ∉ ids s.messages).map (·.entry.id)

def withdrawRemovedActiveEvents (s : St) : St :=
  let gone := removedActive s
  if gone = [] then s
  else
    { s with
      log := s.log ++ [.transition gone .withdrawn none]
      messages := s.messages.map fun e => if e.id ∈ gone then { e with state := .withdrawn } else e }

def flushFull (s : St) : St :=
  let total := s.messages.length
  if total ≤ s.mark then { s with mark := total }
  else { s with log := s.log ++ (s.messages.drop s.mark).map .message, mark := total }

def save (s : St) : St :=
  let s := flushFull (withdrawRemovedActiveEvents s)
  { s with saved := s.messages, low := s.messages.length }

/-- Whether `get_full_messages` shows a row of the log. -/
def shown (log : List Row) (e : Entry) : Bool :=
  isContextBoundary e.message ||
    !(e.message.displayHidden || e.message.archiveSummary || stateOf log e = .withdrawn || stateOf log e = .internalHidden)

def getFullMessages (s : St) : List Entry :=
  if s.log = [] then s.messages.filter fun e => !e.message.displayHidden
  else (entries s.log).filter (shown s.log)

inductive Op where
  | addMessage (message : Message)
  | extendWithTurnMessages (turn : Turn)
  | dropLastTurn
  | dropLastAssistantChain
  | clear
  | save

def step (s : St) : Op → St
  | .addMessage message => addMessage s message
  | .extendWithTurnMessages turn => extendWithTurnMessages s turn
  | .dropLastTurn => remove s (dropLastTurn s.messages).2
  | .dropLastAssistantChain => remove s (dropLastAssistantChain s.messages).2
  | .clear => remove s (clear s.messages)
  | .save => save s

/-- A session and its archive as a load finds them, earlier compactions included. -/
structure Archived where
  messages : List Entry
  log : List Row
  fresh : Nat
  once : (ids (entries log)).Nodup
  distinct : (ids messages).Nodup
  logged : ∀ e ∈ messages, e ∈ entries log
  below : ∀ e ∈ entries log, e.id < fresh
  /-- No transition names a message of the working history. -/
  current : ∀ e ∈ messages, lastState log e.id = none ∧ e.state = initialState e.message ∧ committed log e.transaction = true
  /-- Every other event is compacted or withdrawn. -/
  settled : ∀ e ∈ entries log, isEvent log e = true → e ∈ messages ∨
    lastState log e.id = some .compacted ∨ lastState log e.id = some .withdrawn
  named : ∀ i, lastState log i ≠ none → ∃ e ∈ entries log, e.id = i

def Archived.st (a : Archived) : St :=
  { messages := a.messages, mark := a.messages.length, log := a.log, fresh := a.fresh, saved := a.messages,
    low := a.messages.length, removed := [] }

def newSession : Archived where
  messages := []
  log := []
  fresh := 0
  once := by simp [entries, ids]
  distinct := by simp [ids]
  logged := by simp
  below := by simp [entries]
  current := by simp
  settled := by simp [entries]
  named := by simp [lastState, snapshotFromRows, Snapshot.empty]

/-! ## What a save makes of the log -/

variable {s : St}

theorem mem_removedActive (hn : (ids (entries s.log)).Nodup) {i : Nat} :
    i ∈ removedActive s ↔ i ∉ ids s.messages ∧ ∃ e ∈ entries s.log, isEvent s.log e = true ∧ e.id = i ∧
      ((lastState s.log i).getD e.state = .active ∨ (lastState s.log i).getD e.state = .internalHidden) := by
  simp only [removedActive, List.mem_map, List.mem_filter, mem_events hn, decide_eq_true_eq]
  constructor
  · rintro ⟨ev, ⟨⟨hrow, hev, hs⟩, hstate, hout⟩, rfl⟩
    exact ⟨hout, ev.entry, hrow, hev, rfl, by rwa [← hs]⟩
  · rintro ⟨hout, e, hrow, hev, rfl, hstate⟩
    exact ⟨⟨e, (lastState s.log e.id).getD e.state⟩, ⟨⟨hrow, hev, rfl⟩, hstate, hout⟩, rfl⟩

/-- The rows `_withdraw_removed_active_events` appends. -/
def withdrawal (gone : List Nat) : List Row := if gone = [] then [] else [.transition gone .withdrawn none]

theorem withdrawRemovedActiveEvents_log (s : St) :
    (withdrawRemovedActiveEvents s).log = s.log ++ withdrawal (removedActive s) := by
  simp only [withdrawRemovedActiveEvents, withdrawal]
  split <;> simp

/-- What is withdrawn is not in the working history, so its states stay. -/
theorem withdrawRemovedActiveEvents_messages (hn : (ids (entries s.log)).Nodup) :
    (withdrawRemovedActiveEvents s).messages = s.messages := by
  simp only [withdrawRemovedActiveEvents]
  split
  · rfl
  · refine (List.map_congr_left fun e he => ?_).trans (List.map_id _)
    have : e.id ∉ removedActive s := fun h => ((mem_removedActive hn).mp h).1 (List.mem_map_of_mem he)
    rw [if_neg this, id]

theorem withdrawRemovedActiveEvents_mark (s : St) : (withdrawRemovedActiveEvents s).mark = s.mark := by
  simp only [withdrawRemovedActiveEvents]
  split <;> rfl

theorem flushFull_log (s : St) : (flushFull s).log = s.log ++ (s.messages.drop s.mark).map .message := by
  simp only [flushFull]
  split
  · rename_i h
    simp [List.drop_eq_nil_of_le h]
  · rfl

@[simp] theorem flushFull_messages (s : St) : (flushFull s).messages = s.messages := by
  simp only [flushFull]
  split <;> rfl

@[simp] theorem flushFull_mark (s : St) : (flushFull s).mark = s.messages.length := by
  simp only [flushFull]
  split <;> rfl

theorem save_eq (hn : (ids (entries s.log)).Nodup) :
    save s = { s with
      log := s.log ++ withdrawal (removedActive s) ++ (s.messages.drop s.mark).map .message
      mark := s.messages.length, saved := s.messages, low := s.messages.length } := by
  have hlog := flushFull_log (withdrawRemovedActiveEvents s)
  have hmark := flushFull_mark (withdrawRemovedActiveEvents s)
  rw [withdrawRemovedActiveEvents_messages hn, withdrawRemovedActiveEvents_mark, withdrawRemovedActiveEvents_log] at hlog
  rw [withdrawRemovedActiveEvents_messages hn] at hmark
  have hrest : (flushFull (withdrawRemovedActiveEvents s)).fresh = s.fresh ∧
      (flushFull (withdrawRemovedActiveEvents s)).removed = s.removed := by
    simp only [flushFull, withdrawRemovedActiveEvents]
    split <;> split <;> exact ⟨rfl, rfl⟩
  rw [save, ← hlog]
  simp only [flushFull_messages, withdrawRemovedActiveEvents_messages hn, ← hrest.1, ← hrest.2, ← hmark]

theorem lastState_withdrawal (rows : List Row) (gone : List Nat) (i : Nat) :
    lastState (rows ++ withdrawal gone) i = if i ∈ gone then some .withdrawn else lastState rows i := by
  by_cases h : gone = []
  · simp [withdrawal, h]
  · rw [withdrawal, if_neg h, lastState_transition]

theorem entries_withdrawal (gone : List Nat) : entries (withdrawal gone) = [] := by
  unfold withdrawal
  split <;> rfl

theorem save_entries (hn : (ids (entries s.log)).Nodup) :
    entries (save s).log = entries s.log ++ s.messages.drop s.mark := by
  rw [save_eq hn]
  simp only [entries_append, entries_withdrawal, entries_messages, List.append_nil]

theorem save_lastState (hn : (ids (entries s.log)).Nodup) (i : Nat) :
    lastState (save s).log i = if i ∈ removedActive s then some .withdrawn else lastState s.log i := by
  rw [save_eq hn]
  simp only [lastState_messages, lastState_withdrawal]

theorem save_committed (hn : (ids (entries s.log)).Nodup) : committed (save s).log = committed s.log := by
  rw [save_eq hn]
  simp only [List.append_assoc]
  refine committed_append fun t h => ?_
  rcases List.mem_append.mp h with h | h
  · unfold withdrawal at h
    split at h <;> simp at h
  · obtain ⟨_, _, he⟩ := List.mem_map.mp h
    cases he

theorem save_isEvent (hn : (ids (entries s.log)).Nodup) (e : Entry) :
    isEvent (save s).log e = isEvent s.log e := by
  rw [isEvent, isEvent, save_committed hn]

/-! ## The log between two saves -/

structure Synced (s : St) : Prop where
  mark : s.mark = s.saved.length
  low_saved : s.low ≤ s.saved.length
  low_messages : s.low ≤ s.messages.length
  /-- Below `low` nothing has changed since the last save. -/
  stem : s.messages.take s.low = s.saved.take s.low
  once : (ids (entries s.log)).Nodup
  distinct : (ids s.messages).Nodup
  logged : ∀ e ∈ s.saved, e ∈ entries s.log
  /-- Above `low` everything is new. -/
  unlogged : ∀ e ∈ s.messages.drop s.low, e.id ∉ ids (entries s.log)
  below : ∀ i ∈ ids (entries s.log) ++ ids s.messages ++ s.removed, i < s.fresh
  messages_state : ∀ e ∈ s.messages, e.state = initialState e.message ∧ committed s.log e.transaction = true
  saved_state : ∀ e ∈ s.saved, e.state = initialState e.message ∧ committed s.log e.transaction = true ∧
    lastState s.log e.id = none
  settled : ∀ e ∈ entries s.log, isEvent s.log e = true → e ∈ s.saved ∨
    lastState s.log e.id = some .compacted ∨ lastState s.log e.id = some .withdrawn
  named : ∀ i, lastState s.log i ≠ none → i ∈ ids (entries s.log)
  gone : ∀ i ∈ s.removed, i ∉ ids s.messages
  /-- What was removed before the last save is withdrawn. -/
  removed_state : ∀ e ∈ entries s.log, e.id ∈ s.removed → committed s.log e.transaction = true ∧
    (e ∈ s.saved ∨ isContextBoundary e.message = true ∨ lastState s.log e.id = some .withdrawn)

theorem Synced.start (a : Archived) : Synced a.st where
  mark := rfl
  low_saved := Nat.le_refl _
  low_messages := Nat.le_refl _
  stem := rfl
  once := a.once
  distinct := a.distinct
  logged := a.logged
  unlogged := by simp [Archived.st]
  below := by
    intro i hi
    simp only [Archived.st, List.append_nil, List.mem_append, ids, List.mem_map] at hi
    rcases hi with ⟨e, he, rfl⟩ | ⟨e, he, rfl⟩
    · exact a.below e he
    · exact a.below e (a.logged e he)
  messages_state := fun e he => ⟨(a.current e he).2.1, (a.current e he).2.2⟩
  saved_state := fun e he => ⟨(a.current e he).2.1, (a.current e he).2.2, (a.current e he).1⟩
  settled := a.settled
  named := by
    intro i hi
    obtain ⟨e, he, rfl⟩ := a.named i hi
    exact List.mem_map_of_mem he
  gone := by simp [Archived.st]
  removed_state := by simp [Archived.st]

namespace Synced

variable {s : St} (h : Synced s)

include h

variable {e : Entry}

theorem mem_messages (he : e ∈ s.messages) : e ∈ s.saved ∨ e ∈ s.messages.drop s.low := by
  rw [← List.take_append_drop s.low s.messages, List.mem_append] at he
  rcases he with he | he
  · rw [h.stem] at he
    exact Or.inl (List.mem_of_mem_take he)
  · exact Or.inr he

/-- A row whose id the working history has is the message itself, as it was saved. -/
theorem of_logged (he : e ∈ entries s.log) (hid : e.id ∈ ids s.messages) : e ∈ s.messages ∧ e ∈ s.saved := by
  obtain ⟨m, hm, hmid⟩ := List.mem_map.mp hid
  rcases h.mem_messages hm with hsaved | hnew
  · obtain rfl := eq_of_id h.once (h.logged m hsaved) he hmid
    exact ⟨hm, hsaved⟩
  · exact absurd (List.mem_map_of_mem he) (hmid ▸ h.unlogged m hnew)

theorem addMessage (message : Message) : Synced (addMessage s message) := by
  have hdrop : ∀ x : Entry, (s.messages ++ [x]).drop s.low = s.messages.drop s.low ++ [x] := fun x =>
    List.drop_append_of_le_length h.low_messages
  have hfresh : ∀ i ∈ ids (entries s.log) ++ ids s.messages ++ s.removed, i ≠ s.fresh := fun i hi =>
    Nat.ne_of_lt (h.below i hi)
  refine ⟨h.mark, h.low_saved, ?_, ?_, h.once, ?_, h.logged, ?_, ?_, ?_, h.saved_state, h.settled, h.named, ?_, h.removed_state⟩
  · simp only [Transcript.addMessage, List.length_append]
    have := h.low_messages
    omega
  · simp only [Transcript.addMessage]
    rw [List.take_append_of_le_length h.low_messages, h.stem]
  · simp only [Transcript.addMessage, ids, List.map_append, List.map_cons, List.map_nil]
    refine List.nodup_append.mpr ⟨h.distinct, by simp, ?_⟩
    intro i hi j hj
    rw [List.mem_singleton.mp hj]
    exact hfresh i (by simp [ids, hi])
  · intro e he
    simp only [Transcript.addMessage, hdrop, List.mem_append, List.mem_singleton] at he
    rcases he with he | rfl
    · exact h.unlogged e he
    · exact fun hlog => hfresh s.fresh (List.mem_append_left _ (List.mem_append_left _ hlog)) rfl
  · intro i hi
    simp only [Transcript.addMessage, ids, List.map_append, List.mem_append, List.map_cons, List.map_nil, List.mem_singleton] at hi ⊢
    rcases hi with (hi | hi | rfl) | hi
    · exact Nat.lt_succ_of_lt (h.below i (by simp [ids, hi]))
    · exact Nat.lt_succ_of_lt (h.below i (by simp [ids, hi]))
    · exact Nat.lt_succ_self _
    · exact Nat.lt_succ_of_lt (h.below i (by simp [hi]))
  · intro e he
    simp only [Transcript.addMessage, List.mem_append, List.mem_singleton] at he
    rcases he with he | rfl
    · exact h.messages_state e he
    · exact ⟨rfl, rfl⟩
  · intro i hi
    simp only [Transcript.addMessage, ids, List.map_append, List.map_cons, List.map_nil, List.mem_append, List.mem_singleton, not_or]
    exact ⟨h.gone i hi, hfresh i (List.mem_append_right _ hi)⟩

theorem addMessages (messages : List Message) : Synced (messages.foldl Transcript.addMessage s) := by
  induction messages generalizing s with
  | nil => exact h
  | cons m ms ih => exact ih (h.addMessage m)

/-- Whatever prefix of the history a removal leaves. -/
theorem remove {left : List Entry} (hleft : left <+: s.messages) : Synced (remove s left) := by
  obtain ⟨cut, hcut⟩ := hleft
  have htake : left = s.messages.take left.length := by rw [← hcut, List.take_left]
  have hsub : ∀ e ∈ left, e ∈ s.messages := fun e he => hcut ▸ List.mem_append_left _ he
  have hlen : left.length ≤ s.messages.length := by rw [← hcut, List.length_append]; omega
  have hdistinct := h.distinct
  rw [← hcut, ids, List.map_append, List.nodup_append] at hdistinct
  have hcutdrop : s.messages.drop left.length = cut := by rw [← hcut, List.drop_left]
  refine ⟨h.mark, ?_, ?_, ?_, h.once, hdistinct.1, h.logged, ?_, ?_, ?_, h.saved_state, h.settled, h.named, ?_, ?_⟩
  · exact Nat.le_trans (Nat.min_le_left _ _) h.low_saved
  · exact Nat.min_le_right _ _
  · simp only [Transcript.remove]
    rw [htake, List.take_take, Nat.min_assoc, List.length_take, Nat.min_eq_left hlen, Nat.min_self,
      Nat.min_comm, ← List.take_take, ← List.take_take, h.stem]
  · intro e he
    simp only [Transcript.remove] at he
    by_cases hl : s.low ≤ left.length
    · rw [Nat.min_eq_left hl] at he
      refine h.unlogged e ?_
      rw [← hcut, List.drop_append_of_le_length hl]
      exact List.mem_append_left _ he
    · rw [Nat.min_eq_right (by omega), List.drop_length] at he
      cases he
  · intro i hi
    refine h.below i ?_
    simp only [Transcript.remove, List.mem_append] at hi ⊢
    rcases hi with (hi | hi) | hi | hi
    · exact Or.inl (Or.inl hi)
    · obtain ⟨e, he, rfl⟩ := List.mem_map.mp hi
      exact Or.inl (Or.inr (List.mem_map_of_mem (hsub e he)))
    · exact Or.inr hi
    · obtain ⟨e, he, rfl⟩ := List.mem_map.mp hi
      exact Or.inl (Or.inr (List.mem_map_of_mem (List.mem_of_mem_drop he)))
  · intro e he
    exact h.messages_state e (hsub e he)
  · intro i hi hmem
    simp only [Transcript.remove, hcutdrop, List.mem_append] at hi hmem
    rcases hi with hi | hi
    · obtain ⟨e, he, rfl⟩ := List.mem_map.mp hmem
      exact h.gone _ hi (List.mem_map_of_mem (hsub e he))
    · exact hdistinct.2.2 i hmem i hi rfl
  · intro e he hi
    simp only [Transcript.remove, List.mem_append] at he hi
    rcases hi with hi | hi
    · exact h.removed_state e he hi
    · obtain ⟨m, hm, hid⟩ := List.mem_map.mp hi
      have hsaved := (h.of_logged he (hid ▸ List.mem_map_of_mem (List.mem_of_mem_drop hm))).2
      exact ⟨(h.saved_state e hsaved).2.1, Or.inl hsaved⟩

/-- No message of the working history is withdrawn by a save. -/
theorem not_removedActive (he : e ∈ s.messages) : e.id ∉ removedActive s := fun hi =>
  ((mem_removedActive h.once).mp hi).1 (List.mem_map_of_mem he)

/-- A saved message that is not in the working history any more is withdrawn. -/
theorem withdrawn (he : e ∈ s.saved) (hout : e.id ∉ ids s.messages) (hb : isContextBoundary e.message = false) :
    e.id ∈ removedActive s := by
  obtain ⟨hs, hc, hl⟩ := h.saved_state e he
  refine (mem_removedActive h.once).mpr ⟨hout, e, h.logged e he, isEvent_iff.mpr ⟨hc, hb⟩, rfl, ?_⟩
  rw [hl, Option.getD_none, hs, initialState]
  split
  · exact Or.inr rfl
  · exact Or.inl rfl

/-- The rows a save appends have ids the log does not have. -/
theorem drop_mark_new (he : e ∈ s.messages.drop s.mark) : e ∈ s.messages.drop s.low := by
  have : s.low ≤ s.mark := h.mark ▸ h.low_saved
  rw [← Nat.sub_add_cancel this, Nat.add_comm, ← List.drop_drop] at he
  exact List.mem_of_mem_drop he

/-- Once no message below the mark is new, a save logs them all. -/
theorem logged_of_save (hlow : s.messages.length ≤ s.low ∨ s.mark ≤ s.low) (he : e ∈ s.messages) :
    e ∈ entries (save s).log := by
  rw [save_entries h.once, List.mem_append]
  rcases h.mem_messages he with hsaved | hnew
  · exact Or.inl (h.logged e hsaved)
  · rcases hlow with hlow | hlow
    · rw [List.drop_eq_nil_of_le hlow] at hnew
      cases hnew
    · have : s.mark = s.low := Nat.le_antisymm hlow (h.mark ▸ h.low_saved)
      exact Or.inr (this ▸ hnew)

theorem once_save : (ids (entries (save s).log)).Nodup := by
  rw [save_entries h.once, ids, List.map_append]
  refine List.nodup_append.mpr ⟨h.once, (h.distinct.sublist ((List.drop_sublist _ _).map _)), ?_⟩
  intro i hi j hj hij
  obtain ⟨e, he, rfl⟩ := List.mem_map.mp hj
  exact h.unlogged e (h.drop_mark_new he) (hij ▸ hi)

/-- A logged event was logged before, or is of a message. -/
theorem save_old (he : e ∈ entries (Transcript.save s).log) : e ∈ entries s.log ∨ e ∈ s.messages := by
  rw [save_entries h.once, List.mem_append] at he
  exact he.imp_right List.mem_of_mem_drop

theorem save_standing (he : e ∈ s.messages) : lastState (Transcript.save s).log e.id = none := by
  rw [save_lastState h.once, if_neg (h.not_removedActive he)]
  rcases h.mem_messages he with hold | hnew
  · exact (h.saved_state e hold).2.2
  · by_contra hne
    exact h.unlogged e hnew (h.named _ hne)

/-- What the log shows as active is a message: the rest is compacted or withdrawn. -/
theorem save_settled (he : e ∈ entries (Transcript.save s).log) (hev : isEvent (Transcript.save s).log e = true) :
    e ∈ s.messages ∨ lastState (Transcript.save s).log e.id = some .compacted ∨
      lastState (Transcript.save s).log e.id = some .withdrawn := by
  rw [save_isEvent h.once] at hev
  rcases h.save_old he with he | he
  · by_cases hin : e.id ∈ ids s.messages
    · exact Or.inl (h.of_logged he hin).1
    · rw [save_lastState h.once]
      by_cases hg : e.id ∈ removedActive s
      · exact Or.inr (Or.inr (if_pos hg))
      · rw [if_neg hg]
        rcases h.settled e he hev with hs | hs
        · exact absurd (h.withdrawn hs hin (isEvent_iff.mp hev).2) hg
        · exact Or.inr hs
  · exact Or.inl he

theorem save_named {i : Nat} (hi : lastState (Transcript.save s).log i ≠ none) : i ∈ ids (entries (Transcript.save s).log) := by
  rw [save_entries h.once, ids, List.map_append]
  refine List.mem_append_left _ ?_
  rw [save_lastState h.once] at hi
  by_cases hg : i ∈ removedActive s
  · obtain ⟨_, e, he, _, rfl, _⟩ := (mem_removedActive h.once).mp hg
    exact List.mem_map_of_mem he
  · rw [if_neg hg] at hi
    exact h.named i hi

/-- A save withdraws what was removed, but for context boundaries. -/
theorem save_removed (he : e ∈ entries (Transcript.save s).log) (hi : e.id ∈ s.removed) :
    committed s.log e.transaction = true ∧
      (isContextBoundary e.message = true ∨ lastState (Transcript.save s).log e.id = some .withdrawn) := by
  rw [save_lastState h.once]
  rcases h.save_old he with he | he
  · obtain ⟨hc, hcases⟩ := h.removed_state e he hi
    refine ⟨hc, ?_⟩
    by_cases hb : isContextBoundary e.message = true
    · exact Or.inl hb
    · refine Or.inr ?_
      rcases hcases with hs | hs | hs
      · rw [if_pos (h.withdrawn hs (h.gone _ hi) (by simpa using hb))]
      · exact absurd hs hb
      · rw [hs]
        split <;> rfl
  · exact absurd (List.mem_map_of_mem he) (h.gone _ hi)

theorem save_below {i : Nat} (hi : i ∈ ids (entries (Transcript.save s).log) ++ ids s.messages ++ s.removed) : i < s.fresh := by
  refine h.below i ?_
  rcases List.mem_append.mp hi with hi | hi
  · rcases List.mem_append.mp hi with hi | hi
    · obtain ⟨e, he, rfl⟩ := List.mem_map.mp hi
      rcases h.save_old he with he | he
      · exact List.mem_append_left _ (List.mem_append_left _ (List.mem_map_of_mem he))
      · exact List.mem_append_left _ (List.mem_append_right _ (List.mem_map_of_mem he))
    · exact List.mem_append_left _ (List.mem_append_right _ hi)
  · exact List.mem_append_right _ hi

theorem save (hlow : s.messages.length ≤ s.low ∨ s.mark ≤ s.low) : Synced (save s) := by
  have hmessages : (Transcript.save s).messages = s.messages := by rw [save_eq h.once]
  have hsaved : (Transcript.save s).saved = s.messages := by rw [save_eq h.once]
  have hlow' : (Transcript.save s).low = s.messages.length := by rw [save_eq h.once]
  have hmark : (Transcript.save s).mark = s.messages.length := by rw [save_eq h.once]
  have hremoved : (Transcript.save s).removed = s.removed := by rw [save_eq h.once]
  have hfresh : (Transcript.save s).fresh = s.fresh := by rw [save_eq h.once]
  refine ⟨by rw [hmark, hsaved], by rw [hlow', hsaved], by rw [hlow', hmessages], by rw [hmessages, hsaved], h.once_save,
    by rw [hmessages]; exact h.distinct, ?_, ?_, ?_, ?_, ?_, ?_, fun i hi => h.save_named hi, ?_, ?_⟩
  · rw [hsaved]
    exact fun e he => h.logged_of_save hlow he
  · rw [hmessages, hlow', List.drop_length]
    simp
  · rw [hmessages, hremoved, hfresh]
    exact fun i hi => h.save_below hi
  · rw [hmessages, save_committed h.once]
    exact h.messages_state
  · rw [hsaved, save_committed h.once]
    exact fun e he => ⟨(h.messages_state e he).1, (h.messages_state e he).2, h.save_standing he⟩
  · rw [hsaved]
    exact fun e he hev => h.save_settled he hev
  · rw [hremoved, hmessages]
    exact h.gone
  · intro e he hi
    rw [hremoved] at hi
    rw [save_committed h.once]
    obtain ⟨hc, hcases⟩ := h.save_removed he hi
    exact ⟨hc, Or.inr hcases⟩

end Synced

/-! ## Complete transcripts -/

def hidden (e : Entry) : Bool := e.message.displayHidden || e.message.archiveSummary

structure Complete (s : St) : Prop where
  logged : ∀ e ∈ s.messages, (ids (entries s.log)).count e.id = 1
  once : (ids (getFullMessages s)).Nodup
  /-- The transcript is in append order. -/
  inOrder : (getFullMessages s).Sublist (entries s.log)
  current : ∀ e ∈ s.messages, hidden e = false → e ∈ getFullMessages s
  compacted : ∀ e ∈ entries s.log, stateOf s.log e = .compacted → hidden e = false → e ∈ getFullMessages s
  gone : ∀ e ∈ getFullMessages s, e.id ∉ s.removed

/-- A save that logs what it has to: since the last one the history has only grown or
    only shrunk, and no row that the transcript always shows was taken out of it. -/
def Sound (s : St) : Prop :=
  (s.messages.length ≤ s.low ∨ s.mark ≤ s.low) ∧
    ∀ e ∈ entries s.log, e.id ∈ s.removed → isContextBoundary e.message = false

instance (s : St) : Decidable (Sound s) := inferInstanceAs (Decidable (_ ∧ _))

theorem getFullMessages_eq (h : s.log ≠ []) : getFullMessages s = (entries s.log).filter (shown s.log) := by
  rw [getFullMessages, if_neg h]

theorem log_ne_nil {e : Entry} (he : e ∈ entries s.log) : s.log ≠ [] := by
  rintro hnil
  rw [hnil] at he
  cases he

theorem Synced.complete (h : Synced s) (hsaved : s.saved = s.messages)
    (hb : ∀ e ∈ entries s.log, e.id ∈ s.removed → isContextBoundary e.message = false) : Complete s := by
  have hlogged : ∀ e ∈ s.messages, e ∈ entries s.log := fun e he => h.logged e (hsaved ▸ he)
  have hnil : s.log = [] → s.messages = [] := fun hnil =>
    List.eq_nil_iff_forall_not_mem.mpr fun e he => log_ne_nil (hlogged e he) hnil
  have hsub : (getFullMessages s).Sublist (entries s.log) := by
    unfold getFullMessages
    split
    · rename_i hlog
      simp [hnil hlog]
    · exact List.filter_sublist
  refine ⟨?_, h.once.sublist (hsub.map _), hsub, ?_, ?_, ?_⟩
  · intro e he
    exact List.count_eq_one_of_mem h.once (List.mem_map_of_mem (hlogged e he))
  · intro e he hh
    rw [getFullMessages_eq (log_ne_nil (hlogged e he)), List.mem_filter]
    refine ⟨hlogged e he, ?_⟩
    by_cases hbe : isContextBoundary e.message = true
    · simp [shown, hbe]
    · obtain ⟨hs, hc, hl⟩ := h.saved_state e (hsaved ▸ he)
      simp only [hidden, Bool.or_eq_false_iff] at hh
      have hstate : stateOf s.log e = .active := by
        rw [stateOf_event h.once (hlogged e he) (isEvent_iff.mpr ⟨hc, by simpa using hbe⟩), hl, Option.getD_none, hs,
          initialState, hh.1]
        rfl
      simp [shown, hh, hstate]
  · intro e he hs hh
    rw [getFullMessages_eq (log_ne_nil he), List.mem_filter]
    simp only [hidden, Bool.or_eq_false_iff] at hh
    exact ⟨he, by simp [shown, hh, hs]⟩
  · intro e he hi
    have hrow := hsub.subset he
    obtain ⟨hc, hcases⟩ := h.removed_state e hrow hi
    rw [getFullMessages_eq (log_ne_nil hrow), List.mem_filter] at he
    rcases hcases with hs | hs | hs
    · rw [hsaved] at hs
      exact h.gone _ hi (List.mem_map_of_mem hs)
    · rw [hb e hrow hi] at hs
      cases hs
    · have hstate : stateOf s.log e = .withdrawn := by
        rw [stateOf_event h.once hrow (isEvent_iff.mpr ⟨hc, hb e hrow hi⟩), hs]
        rfl
      simp [shown, hstate, hb e hrow hi] at he

/-- A new message below the mark is not logged. -/
theorem Synced.low_of_complete (h : Synced s) (hc : Complete (Transcript.save s)) :
    s.messages.length ≤ s.low ∨ s.mark ≤ s.low := by
  by_contra hlow
  have hmessages : (Transcript.save s).messages = s.messages := by rw [save_eq h.once]
  have hlt : s.low < s.messages.length := by omega
  have hdrop : s.messages.drop s.low = s.messages[s.low] :: s.messages.drop (s.low + 1) := List.drop_eq_getElem_cons hlt
  have hnew := h.unlogged s.messages[s.low] (by rw [hdrop]; exact List.mem_cons_self)
  have hcount := hc.logged s.messages[s.low] (by rw [hmessages]; exact List.getElem_mem hlt)
  have hmem := List.count_pos_iff.mp (hcount ▸ Nat.one_pos)
  rw [save_entries h.once, ids, List.map_append] at hmem
  rcases List.mem_append.mp hmem with hmem | hmem
  · exact hnew hmem
  · -- Its position is below the mark, and no other message has its id.
    obtain ⟨e, he, hid⟩ := List.mem_map.mp hmem
    have hrest : (s.messages.drop s.mark).Sublist (s.messages.drop (s.low + 1)) := by
      have : s.mark = s.low + 1 + (s.mark - (s.low + 1)) := by omega
      rw [this, ← List.drop_drop]
      exact List.drop_sublist _ _
    have hd := h.distinct.sublist ((List.drop_sublist s.low s.messages).map _)
    rw [hdrop, List.map_cons, List.nodup_cons] at hd
    exact hd.1 (hid ▸ List.mem_map_of_mem (hrest.subset he))

theorem Synced.complete_save_iff (h : Synced s) : Complete (Transcript.save s) ↔ Sound s := by
  have hmessages : (Transcript.save s).messages = s.messages := by rw [save_eq h.once]
  have hremoved : (Transcript.save s).removed = s.removed := by rw [save_eq h.once]
  constructor
  · intro hc
    refine ⟨h.low_of_complete hc, fun e he hi => ?_⟩
    by_contra hb
    have he' : e ∈ entries (Transcript.save s).log := by
      rw [save_entries h.once]
      exact List.mem_append_left _ he
    refine hc.gone e ?_ (hremoved ▸ hi)
    rw [getFullMessages_eq (log_ne_nil he'), List.mem_filter]
    exact ⟨he', by simp [shown, hb]⟩
  · rintro ⟨hlow, hb⟩
    refine (h.save hlow).complete (by rw [save_eq h.once]) fun e he hi => ?_
    rw [hremoved] at hi
    rw [save_entries h.once, List.mem_append] at he
    rcases he with he | he
    · exact hb e he hi
    · exact absurd (List.mem_map_of_mem (List.mem_of_mem_drop he)) (h.gone _ hi)

/-! ## Runs -/

/-- What a step of a good run must meet: saves are sound. -/
def Good (s : St) : Op → Prop
  | .save => Sound s
  | _ => True

instance (s : St) : ∀ op, Decidable (Good s op)
  | .save => inferInstanceAs (Decidable (Sound s))
  | .addMessage _ | .extendWithTurnMessages _ | .dropLastTurn | .dropLastAssistantChain | .clear => isTrue trivial

theorem dropLastTurn_front (messages : List Entry) : (dropLastTurn messages).2 <+: messages := by
  unfold dropLastTurn
  split
  · exact List.prefix_refl _
  · exact List.take_prefix _ _

theorem dropLastAssistantChain_front (messages : List Entry) : (dropLastAssistantChain messages).2 <+: messages := by
  unfold dropLastAssistantChain
  simp only
  split
  · exact List.prefix_refl _
  split
  · exact List.prefix_refl _
  · exact List.take_prefix _ _

theorem Synced.step (h : Synced s) {op : Op} (hg : Good s op) : Synced (step s op) := by
  cases op with
  | addMessage message => exact h.addMessage message
  | extendWithTurnMessages turn => exact h.addMessages (turnMessages turn)
  | dropLastTurn => exact h.remove (dropLastTurn_front _)
  | dropLastAssistantChain => exact h.remove (dropLastAssistantChain_front _)
  | clear => exact h.remove (List.nil_prefix)
  | save => exact h.save hg.1

/-- In a run whose saves have all been sound, the next save leaves the log and the
    transcript complete exactly if it is sound. -/
theorem save_complete_iff (a : Archived) {s : St} (h : Reach step Good a.st s) : Complete (step s .save) ↔ Sound s :=
  (h.invariant (P := Synced) (Synced.start a) fun _ _ hs hg => hs.step hg).complete_save_iff

def prompt (text : String) : Message := { role := .user, content := .text text.toList }
def reply (text : String) : Message := { role := .assistant, content := .text text.toList }

/-- An exchange is saved and undone, the undo is saved, and another one follows. -/
def undone : List Op :=
  [.addMessage (prompt "Hello."), .addMessage (reply "Hi."), .save, .dropLastTurn, .save,
    .extendWithTurnMessages { userContent := .text "Good day.".toList, newMessages := [⟨reply "Good day.", false⟩] }]

theorem undone_is_complete : Complete (step (undone.foldl step newSession.st) .save) :=
  (save_complete_iff newSession (Reach.foldl undone newSession.st .start (by decide))).mpr (by decide)

/-- A reply is saved, then dropped for a retry, and the new reply comes before the next save. -/
def retried : List Op :=
  [.addMessage (prompt "Hello."), .addMessage (reply "Hi."), .save, .dropLastAssistantChain, .addMessage (reply "Hello!"), .save]

/-- The list is as long as the mark again, so the save takes the new reply for logged. -/
theorem retry_loses_the_new_reply : ¬ Complete (retried.foldl step newSession.st) := by
  intro h
  have hlost : ∃ e ∈ (retried.foldl step newSession.st).messages,
      (ids (entries (retried.foldl step newSession.st).log)).count e.id = 0 := by decide
  obtain ⟨e, he, hcount⟩ := hlost
  rw [h.logged e he] at hcount
  cases hcount

end Flowly.Session.Transcript
