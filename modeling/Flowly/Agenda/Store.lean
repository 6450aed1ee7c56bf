/-
  Flowly.Agenda.Store — the agenda of one agent (`AgendaStore` of `flowly/agenda/store.py`):
  the items, their history and what is known of each conversation.

  Every operation is one transaction under the file's lock, which is always acquired; the
  file can be read. `clean_text` and `clean_session_key` are given by what they made of
  their argument, ids by a counter, clock readings as arguments. Ids are distinct, so the
  first item with an id is the only one. `log` is a ghost: the history before its oldest
  records were cut.

  Proved: the ids of the items and of the records written are, together, the ids that were
  handed out, each once (`Data.Standing` is kept by every operation).
-/

import Flowly.Agenda.Policy
import Flowly.Lib.Assoc
import Flowly.Lib.Checked
import Flowly.Lib.Text
import Mathlib.Data.List.Sort

namespace Flowly.Agenda

open Flowly.Lib

def MAX_PENDING : Nat := 40
def MAX_FOLLOW_UPS_PER_CONVERSATION : Nat := 6
def MAX_HISTORY : Nat := 100
def MAX_CONVERSATIONS : Nat := 200
def MAX_ATTEMPTS : Nat := 3
def RETRY_DELAY_MS : Int := 30 * MINUTE_MS
def RECOVERY_DELAY_MS : Int := 5 * MINUTE_MS
def RESUME_CHECK_IN_DELAY_MS : Int := 2 * 60 * MINUTE_MS

def OWNER_CONVERSATION_PREFIXES : List Text :=
  ["desktop:", "web:", "ios:", "android:", "cli:", "tui:", "telegram:", "whatsapp:", "discord:", "slack:", "teams:",
    "imessage:", "email:"].map String.toList

inductive Kind where
  | objective
  | followUp
  deriving DecidableEq

inductive ItemState where
  | pending
  | running
  deriving DecidableEq

structure Item where
  id : Nat
  kind : Kind
  dueAt : Int
  note : Text
  sessionKey : Text
  objectiveId : Option Text := none
  cancelOnReply : Bool := false
  createdAt : Int
  attempts : Nat := 0
  state : ItemState := .pending
  deferredReason : Text := []
  startedAt : Option Int := none
  deriving DecidableEq

structure Record where
  item : Item
  outcome : String
  reason : Text := []
  settledAt : Int
  preview : Text := []

structure Conversation where
  unanswered : Nat := 0
  lastOwnerAt : Option Int := none
  lastProactiveAt : Option Int := none

structure Data where
  items : List Item := []
  history : List Record := []
  conversations : List (Text × Conversation) := []
  lastOwnerAt : Option Int := none
  /-- Ghost: every record that was written. -/
  log : List Record := []

structure ObjectiveError where
  code : String
  message : String

def isOwnerConversation (sessionKey : Text) : Bool :=
  sessionKey ≠ [] && OWNER_CONVERSATION_PREFIXES.any (Text.startsWith sessionKey) &&
    (sessionKey.dropWhile (· ≠ ':')).drop 1 ≠ []

/-! ## A transaction -/

def lastHeard (c : Text × Conversation) : Int := max (c.2.lastOwnerAt.getD 0) (c.2.lastProactiveAt.getD 0)

/-- What `_transaction` keeps of the history and of the conversations. -/
def Data.trimmed (d : Data) : Data :=
  { d with
    history := d.history.drop (d.history.length - MAX_HISTORY)
    conversations :=
      if d.conversations.length > MAX_CONVERSATIONS then
        let ordered := d.conversations.insertionSort fun a b => lastHeard a ≤ lastHeard b
        ordered.drop (ordered.length - MAX_CONVERSATIONS)
      else d.conversations }

/-- The items for which `p` holds leave the agenda, each with a record. -/
def Data.close (d : Data) (p : Item → Bool) (record : Item → Record) : Data :=
  { d with
    items := d.items.filter fun i => !p i
    history := d.history ++ (d.items.filter p).map record
    log := d.log ++ (d.items.filter p).map record }

def Data.edit (d : Data) (p : Item → Bool) (f : Item → Item) : Data :=
  { d with items := d.items.map fun i => if p i then f i else i }

def Data.add (d : Data) (i : Item) : Data := { d with items := d.items ++ [i] }

def pendingFor (objectiveId : Text) (i : Item) : Bool := i.objectiveId = some objectiveId ∧ i.state = .pending

/-! ## Wake-ups -/

structure Request where
  kind : Kind
  dueAt : Int
  note : Except ObjectiveError Text
  sessionKey : Except ObjectiveError Text
  objectiveId : Option Text := none
  cancelOnReply : Bool := true

/-- The item that `schedule` writes down. -/
def Request.item (r : Request) (id : Nat) (now : Int) : Except ObjectiveError Item :=
  r.sessionKey >>= fun key =>
    if isOwnerConversation key = false then
      .error ⟨"INVALID", "A follow-up must belong to one of the owner's conversations"⟩
    else if r.kind = .objective ∧ r.objectiveId.getD [] = [] then
      .error ⟨"INVALID", "A goal check-in needs its goal"⟩
    else r.note >>= fun note =>
      .ok { id, kind := r.kind, dueAt := r.dueAt, note, sessionKey := key
            objectiveId := if r.kind = .objective then r.objectiveId else none
            -- a goal's check-in is about the goal, not the last exchange
            cancelOnReply := r.cancelOnReply && r.kind = .followUp
            createdAt := now }

def Data.replaced (d : Data) (i : Item) : Data :=
  match i.kind, i.objectiveId with
  | .objective, some goal =>
    d.close (pendingFor goal) fun old => { item := old, outcome := "replaced", settledAt := i.createdAt }
  | _, _ => d

def Data.schedule (d : Data) (r : Request) (id : Nat) (now : Int) : Except ObjectiveError (Data × Option Item) :=
  r.item id now >>= fun item =>
    let same := d.items.countP fun i => i.kind = .followUp ∧ i.sessionKey = item.sessionKey
    if item.kind = .followUp ∧ MAX_FOLLOW_UPS_PER_CONVERSATION ≤ same then
      .error ⟨"LIMIT", "This conversation already has enough follow-ups planned. Cancel one first."⟩
    else if MAX_PENDING ≤ (d.replaced item).items.length then
      .error ⟨"LIMIT", "The agenda already holds 40 follow-ups."⟩
    else .ok (((d.replaced item).add item).trimmed, some item)

def Data.pending (d : Data) : List Item := d.items.insertionSort fun a b => a.dueAt ≤ b.dueAt

def Data.due (d : Data) (nowMs : Int) : List Item := d.pending.filter fun i => i.state = .pending ∧ i.dueAt ≤ nowMs

def Data.cancel (d : Data) (id : Nat) (reason : Text) (now : Int) : Data :=
  (d.close (fun i => i.id = id ∧ i.state = .pending) fun i =>
    { item := i, outcome := "cancelled", reason, settledAt := now }).trimmed

def Data.cancelForObjective (d : Data) (objectiveId reason : Text) (now : Int) : Data :=
  (d.close (pendingFor objectiveId) fun i => { item := i, outcome := "cancelled", reason, settledAt := now }).trimmed

/-- The check-in that the owner's action took away. -/
def Data.taken (d : Data) (objectiveId : Text) : Option Record :=
  d.history.reverse.find? fun h =>
    h.item.objectiveId = some objectiveId ∧ h.outcome = "cancelled" ∧ Text.startsWith h.reason "owner_".toList

/-- The check-in of a resumed goal: the one that was taken away, while its time is ahead. -/
def Data.restoredDue (d : Data) (objectiveId : Text) (nowMs : Int) : Int :=
  match d.taken objectiveId with
  | some h => if h.item.dueAt > nowMs then h.item.dueAt else nowMs + RESUME_CHECK_IN_DELAY_MS
  | none => nowMs + RESUME_CHECK_IN_DELAY_MS

def Data.restoredNote (d : Data) (objectiveId fallbackNote : Text) : Text :=
  match d.taken objectiveId with
  | some h => if h.item.note = [] then fallbackNote else h.item.note
  | none => fallbackNote

/-- `clean` is `clean_text` as it cleans the note; the item is the new one, if there is one. -/
def Data.restoreForObjective (d : Data) (clean : Text → Except ObjectiveError Text) (objectiveId : Text)
    (sessionKey : Except ObjectiveError Text) (fallbackNote : Text) (id : Nat) (nowMs : Int) :
    Except ObjectiveError (Data × Option Item) :=
  sessionKey >>= fun key =>
    if isOwnerConversation key = false then .ok (d, none)
    else if d.items.any (pendingFor objectiveId) then .ok (d.trimmed, none)
    else if MAX_PENDING ≤ d.items.length then .ok (d.trimmed, none)
    else clean (d.restoredNote objectiveId fallbackNote) >>= fun note =>
      let item : Item :=
        { id, kind := .objective, dueAt := d.restoredDue objectiveId nowMs, note, sessionKey := key
          objectiveId := some objectiveId, createdAt := nowMs }
      .ok ((d.add item).trimmed, some item)

def Item.waiting (i : Item) (dueAt : Int) (reason : Text) : Item :=
  { i with dueAt, state := .pending, deferredReason := reason, startedAt := none }

def Data.defer (d : Data) (id : Nat) (untilMs : Int) (reason : Text) : Data :=
  (d.edit (·.id = id) fun i => i.waiting untilMs reason).trimmed

def Item.started (i : Item) (now : Int) : Item := { i with state := .running, startedAt := some now }

def Data.start (d : Data) (id : Nat) (now : Int) : Option (Data × Item) :=
  match d.items.find? fun i => i.id = id ∧ i.state = .pending with
  | some i => some ((d.edit (fun j => j.id = id ∧ j.state = .pending) (·.started now)).trimmed, i.started now)
  | none => none

def Data.settle (d : Data) (id : Nat) (outcome : String) (reason preview : Text) (now : Int) : Data :=
  (d.close (·.id = id) fun i =>
    { item := i, outcome, reason, settledAt := now, preview := preview.take 200 }).trimmed

def Item.tried (i : Item) : Item := { i with attempts := i.attempts + 1 }

def Item.spent (i : Item) : Bool := MAX_ATTEMPTS ≤ i.attempts + 1

/-- The items for which `p` holds are tried again later, or given up. -/
def Data.retry (d : Data) (p : Item → Bool) (dueAt : Int) (reason : Text) (now : Int) : Data :=
  (d.close (fun i => p i && i.spent) fun i => { item := i.tried, outcome := "failed", reason, settledAt := now }).edit p
    fun i => i.tried.waiting dueAt reason

def Data.retryOrGiveUp (d : Data) (id : Nat) (reason : Text) (now : Int) : Data :=
  (d.retry (·.id = id) (now + RETRY_DELAY_MS) reason now).trimmed

def Data.recoverInterrupted (d : Data) (now : Int) : Data :=
  (d.retry (·.state = .running) (now + RECOVERY_DELAY_MS) "interrupted".toList now).trimmed

/-! ## Conversations -/

def Data.conversation (d : Data) (sessionKey : Text) : Conversation := (d.conversations.lookup sessionKey).getD {}

def Data.lastOwner (d : Data) : Option Int := d.lastOwnerAt.filter fun t => t > 0

def Data.ownerWrote (d : Data) (sessionKey : Text) (nowMs : Int) : Data :=
  let stats := { d.conversation sessionKey with unanswered := 0, lastOwnerAt := some nowMs }
  let d := { d with conversations := Assoc.put d.conversations sessionKey stats, lastOwnerAt := some nowMs }
  (d.close (fun i => i.sessionKey = sessionKey ∧ i.cancelOnReply ∧ i.state = .pending) fun i =>
    { item := i, outcome := "cancelled", reason := "owner_wrote".toList, settledAt := nowMs }).trimmed

def Data.delivered (d : Data) (sessionKey : Text) (nowMs : Int) : Data :=
  let before := d.conversation sessionKey
  let stats := { before with unanswered := before.unanswered + 1, lastProactiveAt := some nowMs }
  { d with conversations := Assoc.put d.conversations sessionKey stats }.trimmed

/-! ## What an operation does to the items -/

/-- The ids on the agenda and those of the records. -/
def Data.ids (d : Data) : List Nat := d.items.map (·.id) ++ d.log.map (·.item.id)

@[simp] theorem trimmed_items (d : Data) : d.trimmed.items = d.items := by
  unfold Data.trimmed
  rfl

@[simp] theorem trimmed_log (d : Data) : d.trimmed.log = d.log := by
  unfold Data.trimmed
  rfl

@[simp] theorem trimmed_ids (d : Data) : d.trimmed.ids = d.ids := by
  simp only [Data.ids, trimmed_items, trimmed_log]

open scoped List in
theorem close_ids (d : Data) (p : Item → Bool) {record : Item → Record} (h : ∀ i, (record i).item.id = i.id) :
    (d.close p record).ids.Perm d.ids := by
  have hrecord : ((d.items.filter p).map record).map (·.item.id) = (d.items.filter p).map (·.id) := by
    rw [List.map_map]
    exact List.map_congr_left fun i _ => h i
  calc (d.close p record).ids
      = (d.items.filter fun i => !p i).map (·.id) ++ (d.log.map (·.item.id) ++ (d.items.filter p).map (·.id)) := by
        simp only [Data.ids, Data.close, List.map_append, hrecord]
    _ = (d.items.filter fun i => !p i).map (·.id) ++ d.log.map (·.item.id) ++ (d.items.filter p).map (·.id) :=
        (List.append_assoc _ _ _).symm
    _ ~ (d.items.filter p).map (·.id) ++ ((d.items.filter fun i => !p i).map (·.id) ++ d.log.map (·.item.id)) :=
        List.perm_append_comm
    _ = ((d.items.filter p) ++ d.items.filter fun i => !p i).map (·.id) ++ d.log.map (·.item.id) := by
        rw [List.map_append, List.append_assoc]
    _ ~ d.ids := ((List.filter_append_perm p d.items).map _).append_right _

theorem edit_ids (d : Data) (p : Item → Bool) {f : Item → Item} (h : ∀ i, (f i).id = i.id) : (d.edit p f).ids = d.ids := by
  have hid : ∀ i, (if p i then f i else i).id = i.id := by
    intro i
    split
    · exact h i
    · rfl
  simp only [Data.ids, Data.edit, List.map_map]
  congr 1
  exact List.map_congr_left fun i _ => hid i

theorem add_ids (d : Data) (i : Item) : (d.add i).ids.Perm (d.ids ++ [i.id]) := by
  simp only [Data.ids, Data.add, List.map_append, List.map_cons, List.map_nil, List.append_assoc]
  exact List.Perm.append_left _ List.perm_append_comm

/-- An operation that hands out no id: every item it leaves was there, or waits again. -/
structure Moves (defers retries : Item → Prop) (d d' : Data) : Prop where
  ids : d'.ids.Perm d.ids
  items : ∀ i' ∈ d'.items, i' ∈ d.items ∨
    (∃ i ∈ d.items, defers i ∧ ∃ dueAt reason, i' = i.waiting dueAt reason) ∨
    ∃ i ∈ d.items, retries i ∧ i.spent = false ∧ ∃ dueAt reason, i' = i.tried.waiting dueAt reason

/-- An operation that writes down one new item: no check-in of its goal is left beside it. -/
structure Adds (id : Nat) (d d' : Data) : Prop where
  ids : d'.ids.Perm (d.ids ++ [id])
  items : ∃ item : Item, item.id = id ∧ item.state = .pending ∧ item.attempts = 0 ∧ ∀ i' ∈ d'.items, i' = item ∨
    i' ∈ d.items ∧ ∀ goal, item.objectiveId = some goal → pendingFor goal i' = false

def Never (_ : Item) : Prop := False

variable {defers retries : Item → Prop} {d : Data}

theorem Moves.refl (d : Data) : Moves defers retries d d := ⟨List.Perm.refl _, fun _ h => Or.inl h⟩

theorem Moves.trimmed {d' : Data} (h : Moves defers retries d d') : Moves defers retries d d'.trimmed :=
  ⟨by simpa using h.ids, by simpa using h.items⟩

theorem Moves.close {p : Item → Bool} {record : Item → Record} (h : ∀ i, (record i).item.id = i.id) :
    Moves defers retries d (d.close p record) :=
  ⟨close_ids d p h, fun _ hi => Or.inl (List.mem_of_mem_filter hi)⟩

theorem Moves.mono {defers' retries' : Item → Prop} {d' : Data} (h : Moves defers retries d d')
    (hd : ∀ i, defers i → defers' i) (hr : ∀ i, retries i → retries' i) : Moves defers' retries' d d' := by
  refine ⟨h.ids, fun i' hi => ?_⟩
  rcases h.items i' hi with hin | ⟨i, hin, hdef, hwait⟩ | ⟨i, hin, hret, hwait⟩
  · exact Or.inl hin
  · exact Or.inr (Or.inl ⟨i, hin, hd i hdef, hwait⟩)
  · exact Or.inr (Or.inr ⟨i, hin, hr i hret, hwait⟩)

theorem Moves.of_never {d' : Data} (h : Moves Never Never d d') : Moves defers retries d d' :=
  h.mono (fun _ => False.elim) fun _ => False.elim

/-- Items only leave in the second operation. -/
theorem Moves.then {d' d'' : Data} (h : Moves defers retries d d') (h' : Moves Never Never d' d'') :
    Moves defers retries d d'' := by
  refine ⟨h'.ids.trans h.ids, fun i hi => ?_⟩
  rcases h'.items i hi with hin | ⟨_, _, hnever, _⟩ | ⟨_, _, hnever, _⟩
  · exact h.items i hin
  · exact hnever.elim
  · exact hnever.elim

theorem cancel_moves (id : Nat) (reason : Text) (now : Int) : Moves Never Never d (d.cancel id reason now) :=
  (Moves.close fun _ => rfl).trimmed

theorem cancelForObjective_moves (objectiveId reason : Text) (now : Int) :
    Moves Never Never d (d.cancelForObjective objectiveId reason now) :=
  (Moves.close fun _ => rfl).trimmed

theorem settle_moves (id : Nat) (outcome : String) (reason preview : Text) (now : Int) :
    Moves Never Never d (d.settle id outcome reason preview now) :=
  (Moves.close fun _ => rfl).trimmed

theorem delivered_moves (sessionKey : Text) (nowMs : Int) : Moves Never Never d (d.delivered sessionKey nowMs) :=
  Moves.trimmed ⟨List.Perm.refl _, fun _ h => Or.inl h⟩

theorem defer_moves (id : Nat) (untilMs : Int) (reason : Text) : Moves (·.id = id) Never d (d.defer id untilMs reason) := by
  refine Moves.trimmed ⟨List.Perm.of_eq (edit_ids d _ fun _ => rfl), fun i' hi => ?_⟩
  obtain ⟨i, hin, rfl⟩ := List.mem_map.mp hi
  split
  · rename_i hid
    exact Or.inr (Or.inl ⟨i, hin, of_decide_eq_true hid, _, _, rfl⟩)
  · exact Or.inl hin

theorem retry_moves (p : Item → Bool) (dueAt : Int) (reason : Text) (now : Int) :
    Moves Never (p · = true) d (d.retry p dueAt reason now).trimmed := by
  unfold Data.retry
  refine Moves.trimmed ?_
  constructor
  · rw [edit_ids]
    · exact close_ids d _ fun _ => rfl
    · exact fun _ => rfl
  · intro i' hi
    obtain ⟨i, hin, rfl⟩ := List.mem_map.mp hi
    obtain ⟨hd, hkept⟩ := List.mem_filter.mp hin
    split
    · rename_i hp
      exact Or.inr (Or.inr ⟨i, hd, hp, by simpa [hp] using hkept, _, _, rfl⟩)
    · exact Or.inl hd

theorem retryOrGiveUp_moves (id : Nat) (reason : Text) (now : Int) :
    Moves Never (·.id = id) d (d.retryOrGiveUp id reason now) := by
  have h := retry_moves (d := d) (·.id = id) (now + RETRY_DELAY_MS) reason now
  simp only [decide_eq_true_eq] at h
  exact h

theorem recoverInterrupted_moves (now : Int) : Moves Never (·.state = .running) d (d.recoverInterrupted now) := by
  have h := retry_moves (d := d) (·.state = .running) (now + RECOVERY_DELAY_MS) "interrupted".toList now
  simp only [decide_eq_true_eq] at h
  exact h

theorem ownerWrote_moves (sessionKey : Text) (nowMs : Int) : Moves Never Never d (d.ownerWrote sessionKey nowMs) := by
  unfold Data.ownerWrote
  simp only
  refine Moves.trimmed ?_
  exact ⟨close_ids { d with conversations := _, lastOwnerAt := _ } _ fun _ => rfl, fun _ hi => Or.inl (List.mem_of_mem_filter hi)⟩

/-- What waited on the last exchange of the conversation is gone. -/
theorem ownerWrote_gone {sessionKey : Text} {nowMs : Int} {i : Item} (h : i ∈ (d.ownerWrote sessionKey nowMs).items) :
    i ∈ d.items ∧ ¬ (i.sessionKey = sessionKey ∧ i.cancelOnReply = true ∧ i.state = .pending) := by
  simp only [Data.ownerWrote, trimmed_items, Data.close] at h
  obtain ⟨hin, hnot⟩ := List.mem_filter.mp h
  refine ⟨hin, fun ⟨hkey, hreply, hpending⟩ => ?_⟩
  simp [hkey, hreply, hpending] at hnot

theorem start_spec {id : Nat} {now : Int} {d' : Data} {item : Item} (h : d.start id now = some (d', item)) :
    ∃ i ∈ d.items, i.id = id ∧ i.state = .pending ∧ item = i.started now ∧ d'.ids = d.ids ∧
      ∀ i' ∈ d'.items, i' ∈ d.items ∧ (i'.id = id → i'.state ≠ .pending) ∨
        ∃ j ∈ d.items, j.id = id ∧ j.state = .pending ∧ i' = j.started now := by
  unfold Data.start at h
  split at h
  · rename_i i hfind
    obtain ⟨rfl, rfl⟩ := Prod.mk.inj (Option.some.inj h)
    have hi := List.find?_some hfind
    simp only [decide_eq_true_eq] at hi
    refine ⟨i, List.mem_of_find?_eq_some hfind, hi.1, hi.2, rfl, ?_, fun i' hin => ?_⟩
    · rw [trimmed_ids]
      exact edit_ids d _ fun _ => rfl
    · rw [trimmed_items] at hin
      obtain ⟨j, hj, rfl⟩ := List.mem_map.mp hin
      split
      · rename_i hp
        simp only [decide_eq_true_eq] at hp
        exact Or.inr ⟨j, hj, hp.1, hp.2, rfl⟩
      · rename_i hp
        refine Or.inl ⟨hj, fun hid hpending => hp ?_⟩
        simp [hid, hpending]
  · cases h

theorem request_item {r : Request} {id : Nat} {now : Int} {item : Item} (h : r.item id now = .ok item) :
    item.id = id ∧ item.state = .pending ∧ item.attempts = 0 ∧ (item.kind ≠ .objective → item.objectiveId = none) := by
  unfold Request.item at h
  obtain ⟨key, _, h⟩ := Checked.bind_ok.mp h
  split at h
  · cases h
  · split at h
    · cases h
    · obtain ⟨note, _, h⟩ := Checked.bind_ok.mp h
      obtain rfl := Except.ok.inj h
      exact ⟨rfl, rfl, rfl, fun hk => if_neg hk⟩

theorem replaced_spec {item : Item} (hk : item.kind ≠ .objective → item.objectiveId = none) :
    (d.replaced item).ids.Perm d.ids ∧ ∀ i' ∈ (d.replaced item).items, i' ∈ d.items ∧
      ∀ goal, item.objectiveId = some goal → pendingFor goal i' = false := by
  unfold Data.replaced
  split
  · rename_i goal _ hgoal
    refine ⟨close_ids d _ fun _ => rfl, fun i' hi => ?_⟩
    obtain ⟨hin, hnot⟩ := List.mem_filter.mp hi
    refine ⟨hin, fun g hg => ?_⟩
    rw [hgoal] at hg
    rw [← Option.some.inj hg]
    simpa using hnot
  · rename_i hnone
    refine ⟨List.Perm.refl _, fun i' hi => ⟨hi, fun g hg => ?_⟩⟩
    by_cases ho : item.kind = .objective
    · exact absurd hg (hnone g ho)
    · rw [hk ho] at hg
      cases hg

/-- A new item beside items of which none is a check-in of its goal. -/
theorem Adds.add {d0 : Data} {item : Item} {id : Nat} (hid : item.id = id) (hids : d0.ids.Perm d.ids)
    (hitems : ∀ i' ∈ d0.items, i' ∈ d.items ∧ ∀ goal, item.objectiveId = some goal → pendingFor goal i' = false)
    (hstate : item.state = .pending) (hattempts : item.attempts = 0) : Adds id d (d0.add item).trimmed := by
  refine ⟨?_, item, hid, hstate, hattempts, fun i' hi => ?_⟩
  · rw [trimmed_ids]
    exact (add_ids d0 item).trans (hid ▸ hids.append_right _)
  · rw [trimmed_items] at hi
    rcases List.mem_append.mp hi with hi | hi
    · exact Or.inr (hitems i' hi)
    · exact Or.inl (List.mem_singleton.mp hi)

theorem schedule_adds {r : Request} {id : Nat} {now : Int} {d' : Data} {new : Option Item}
    (h : d.schedule r id now = .ok (d', new)) : new.isSome ∧ Adds id d d' := by
  unfold Data.schedule at h
  obtain ⟨item, hitem, h⟩ := Checked.bind_ok.mp h
  obtain ⟨hid, hstate, hattempts, hkind⟩ := request_item hitem
  obtain ⟨hids, hitems⟩ := replaced_spec (d := d) hkind
  simp only at h
  split at h
  · cases h
  · split at h
    · cases h
    · obtain ⟨rfl, rfl⟩ := Prod.mk.inj (Except.ok.inj h)
      exact ⟨rfl, Adds.add hid hids hitems hstate hattempts⟩

theorem restoreForObjective_spec {clean : Text → Except ObjectiveError Text} {objectiveId : Text}
    {sessionKey : Except ObjectiveError Text} {fallbackNote : Text} {id : Nat} {nowMs : Int} {d' : Data} {new : Option Item}
    (h : d.restoreForObjective clean objectiveId sessionKey fallbackNote id nowMs = .ok (d', new)) :
    (new = none ∧ Moves Never Never d d') ∨ (new.isSome ∧ Adds id d d') := by
  unfold Data.restoreForObjective at h
  obtain ⟨key, _, h⟩ := Checked.bind_ok.mp h
  split at h
  · obtain ⟨rfl, rfl⟩ := Prod.mk.inj (Except.ok.inj h)
    exact Or.inl ⟨rfl, Moves.refl d⟩
  · split at h
    · obtain ⟨rfl, rfl⟩ := Prod.mk.inj (Except.ok.inj h)
      exact Or.inl ⟨rfl, (Moves.refl d).trimmed⟩
    · rename_i hnone
      split at h
      · obtain ⟨rfl, rfl⟩ := Prod.mk.inj (Except.ok.inj h)
        exact Or.inl ⟨rfl, (Moves.refl d).trimmed⟩
      · obtain ⟨note, _, h⟩ := Checked.bind_ok.mp h
        obtain ⟨rfl, rfl⟩ := Prod.mk.inj (Except.ok.inj h)
        refine Or.inr ⟨rfl, Adds.add rfl (List.Perm.refl _) (fun i' hi => ⟨hi, fun goal hgoal => ?_⟩) rfl rfl⟩
        rw [← Option.some.inj hgoal]
        simpa using List.any_eq_false.mp (Bool.eq_false_iff.mpr hnone) i' hi

end Flowly.Agenda
