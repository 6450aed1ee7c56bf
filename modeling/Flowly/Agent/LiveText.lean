/-
  Flowly.Agent.LiveText — the live text of a subagent's turn (`ChildStream` in
  `flowly/agent/subagent_stream.py`; the text of an entry of `flowly/agent/inflight.py`;
  `flowly/tool_activity.py`: `project_tool_messages_for_ui`, `iteration_event_payload`).

  The text is held twice: in the run's in-flight entry, and by every watcher, who took it
  from there once and follows the events since. Between awaits the run is alone, so what a
  call does to the entry and what it sends are one step. What is streamed of a reply waits
  in a buffer; `_commit` makes the text end with the reply as it was recorded.

  Proved of every run (`Follows`, `watcher_follows`): the events take the text of any
  earlier entry to the text of the one now. Where a reply began with `begin_reply`, or did
  not stream, the text once it is recorded is the one before it and the reply
  (`Streaming`, `commit_text`).
-/

import Flowly.Lib.Reach
import Flowly.Session.Message

namespace Flowly.Agent.LiveText

open Flowly.Lib

/-! ## What is shown of a row -/

def INTERNAL_TOOLS : List String :=
  ["objective", "follow_up", "proactivity", "memory_search", "memory_get", "memory_recall", "memory_feedback",
   "memory_append", "memory_consolidate", "memory_import", "knowledge_graph"]

def DEFERRED_CALL_PROTOCOL_NAME : String := "tool_call"

/-- `_text`. -/
def contentText : Compaction.Content → Text
  | .text t => t
  | .parts ps => ps.flatMap fun | .text t => t | .image | .other => []
  | .null => []

def hasText : Compaction.Content → Bool
  | .text t => Text.hasText t
  | .parts ps => ps.any fun | .text t => Text.hasText t | .image | .other => true
  | .null => false

structure StepPayload where
  iterationIdx : Nat
  role : Compaction.Role
  content : Compaction.Content
  toolCalls : Option (List Session.ToolCall) := none
  toolCallId : Session.IdValue := .falsy
  name : Option String := none

section Rows

-- the `name` in the arguments of a deferred call, where they are a JSON object with a text there
variable (argumentsName : Text → Option Text)

/-- The name of a call, as `project_tool_call_for_ui` shows it. -/
def shownName (call : Session.ToolCall) : String :=
  if call.name ≠ DEFERRED_CALL_PROTOCOL_NAME then call.name
  else
    match argumentsName call.arguments with
    | some name => if Text.strip name ≠ [] then String.ofList (Text.strip name) else call.name
    | none => call.name

def isInternalCall (call : Session.ToolCall) : Bool :=
  call.isDict && decide (shownName argumentsName call ∈ INTERNAL_TOOLS)

/-- The ids of the calls of a row that are the agent's own bookkeeping. -/
def internalIds (row : Session.Message) : List String :=
  (row.toolCalls.filter (isInternalCall argumentsName)).filterMap fun call =>
    match call.id with
    | .text id => some id
    | .falsy | .other _ => none

def shownCalls (row : Session.Message) : List Session.ToolCall :=
  (row.toolCalls.filter (!isInternalCall argumentsName ·)).map fun call =>
    if call.isDict then { call with name := shownName argumentsName call } else call

def isInternalResult (ids : List String) (row : Session.Message) : Bool :=
  decide (row.role = .tool) &&
    ((match row.toolCallId with
      | .text id => decide (id ∈ ids)
      | .falsy | .other _ => false) || row.name.any (· ∈ INTERNAL_TOOLS))

/-- `iteration_event_payload`, where `ids` holds the internal calls up to this row. -/
def iterationEventPayload (ids : List String) (iterationIdx : Nat) (row : Session.Message) : Option StepPayload :=
  let calls := shownCalls argumentsName row
  if calls = [] ∧ row.toolCalls ≠ [] ∧ hasText row.content = false then none
  else if isInternalResult ids row then none
  else
    match row.role with
    | .assistant =>
      some { iterationIdx, role := .assistant, content := row.content
             toolCalls := if row.toolCalls ≠ [] then some calls else none }
    | .tool =>
      some { iterationIdx, role := .tool, content := row.content, toolCallId := row.toolCallId, name := row.name }
    | _ => none

theorem payload_calls {ids : List String} {i : Nat} {row : Session.Message} {p : StepPayload}
    (h : iterationEventPayload argumentsName ids i row = some p) :
    p.role = row.role ∧ (row.role ≠ .assistant → p.toolCalls = none) := by
  unfold iterationEventPayload at h
  dsimp only at h
  split at h <;> [cases h; skip]
  split at h <;> [cases h; skip]
  split at h
  · next hr =>
    cases h
    exact ⟨hr.symm, fun hne => absurd hr hne⟩
  · next hr =>
    cases h
    exact ⟨hr.symm, fun _ => rfl⟩
  · cases h

end Rows

/-! ## Events and their watchers -/

inductive Outcome where
  | ok
  | error
  | timeout
  | cancelled
  | interrupted

inductive Event where
  /-- `agent {stream: "assistant"}`. -/
  | delta (text : Text)
  | streamReset (text : Text)
  | iterationStep (payload : StepPayload)
  | agentNote (iterationIdx : Nat) (content : Text)
  | runStarted (resumed : Bool)
  /-- `final`, with its text and whether it is `aborted`. -/
  | final (text : Text) (aborted : Bool)
  | error (message : Text)

def apply (text : Text) : Event → Text
  | .delta more => text ++ more
  | .streamReset text' => text'
  | .iterationStep p => if p.toolCalls.isSome then [] else text
  | .agentNote .. | .runStarted _ | .final .. | .error _ => text

/-! ## The stream -/

/-- What a call reads from outside. -/
structure Moment where
  /-- `time.monotonic()`, in milliseconds. -/
  now : Int
  /-- `_behind`. -/
  behind : Bool
  /-- An event loop is running. -/
  loop : Bool
  /-- `inflight.begin` does not raise. -/
  opens : Bool

structure ChildStream where
  /-- The text of the run's in-flight entry. -/
  entry : Option Text := none
  /-- What was published. -/
  wire : List Event := []
  live : Bool := false
  ended : Bool := false
  cursor : Nat := 0
  internalCallIds : List String := []
  buffer : Text := []
  /-- What was sent of the reply that streams. -/
  reply : Text := []
  beforeReply : Text := []
  lastFlush : Int := 0
  /-- The timer is set. -/
  timer : Bool := false

def DELTA_INTERVAL_MS : Int := 50

def DELTA_MAX_CHARS : Nat := 16384

namespace ChildStream

variable (m : Moment)

def send (e : Event) (s : ChildStream) : ChildStream := if s.live then { s with wire := s.wire ++ [e] } else s

def append (text : Text) (s : ChildStream) : ChildStream :=
  match s.entry with
  | some t => { s with entry := some (t ++ text) }
  | none => if m.opens then { s with entry := some text } else s

def appendIteration (clears : Bool) (s : ChildStream) : Option ChildStream :=
  match s.entry with
  | some t => some { s with entry := some (if clears then [] else t) }
  | none => if m.opens then some { s with entry := some [] } else none

def delta (text : Text) (s : ChildStream) : ChildStream :=
  if s.ended ∨ text = [] then s else (s.append m text).send (.delta text)

def resetText (text : Text) (s : ChildStream) : ChildStream :=
  if s.ended then s else { s with entry := s.entry.map fun _ => text }.send (.streamReset text)

def flush (s : ChildStream) : ChildStream :=
  let s' := { s with timer := false, buffer := [] }
  if s.buffer = [] ∨ s.ended then s' else { s' with lastFlush := m.now, reply := s.reply ++ s.buffer }.delta m s.buffer

def maybeFlush (s : ChildStream) : ChildStream :=
  if s.buffer = [] ∨ s.ended then s
  else
    let wait := s.lastFlush + DELTA_INTERVAL_MS - m.now
    if DELTA_MAX_CHARS ≤ s.buffer.length ∨ wait ≤ 0 ∧ m.behind = false then s.flush m
    else if s.timer then s
    else if m.loop then { s with timer := true }
    else s.flush m

def onTimer (s : ChildStream) : ChildStream := { s with timer := false }.maybeFlush m

def streamText (text : Text) (s : ChildStream) : ChildStream :=
  if s.ended ∨ text = [] then s else { s with buffer := s.buffer ++ text }.maybeFlush m

def endReply (s : ChildStream) : ChildStream := s.flush m

def discardReply (s : ChildStream) : ChildStream :=
  let s' := { s with timer := false, buffer := [] }
  if s.reply = [] then s' else { s' with reply := [] }.resetText s.beforeReply

def beginReply (s : ChildStream) : ChildStream :=
  let s := if s.reply ≠ [] ∨ s.buffer ≠ [] then s.discardReply else s
  { s with beforeReply := s.entry.getD [] }

/-- `_commit`, once the buffer is flushed and `sent` is what was sent of the reply. -/
def settle (sent text : Text) (shown : Bool) (s : ChildStream) : ChildStream :=
  if sent = [] then (if shown then s.delta m text else s)
  else if text = sent then s
  else if sent <+: text then s.delta m (text.drop sent.length)
  else
    let s := s.resetText s.beforeReply
    if shown then s.delta m text else s

def commit (text : Text) (shown : Bool) (s : ChildStream) : ChildStream :=
  let s := s.flush m
  { s with reply := [] }.settle m s.reply text shown

def answer (text : Text) (s : ChildStream) : ChildStream := s.commit m text (text ≠ [])

def close (s : ChildStream) : ChildStream :=
  { s with ended := true, timer := false, buffer := [], reply := [], entry := none }

/-- The event with which a run ends. -/
def terminal (result : Text) : Outcome → Event
  | .ok => .final result false
  | .cancelled | .interrupted => .final [] true
  | .error | .timeout => .error (if result ≠ [] then result else "The subagent couldn't finish.".toList)

def end_ (outcome : Outcome) (result : Text) (s : ChildStream) : ChildStream :=
  if s.ended then s else ({ s with ended := true, timer := false }.send (terminal result outcome)).close

/-! ### The journal -/

variable (argumentsName : Text → Option Text)

def publish (clears : Bool) (e : Event) (s : ChildStream) : ChildStream × Bool :=
  match s.appendIteration m clears with
  | some s' => (s'.send e, true)
  | none => (s, false)

def publishStep (p : StepPayload) : ChildStream → ChildStream × Bool :=
  publish m (p.role = .assistant ∧ p.toolCalls.isSome) (.iterationStep p)

def consumeRow (row : Session.Message) (s : ChildStream) : ChildStream × Bool :=
  let index := s.cursor
  let s := { s with cursor := index + 1 }
  if row.displayHidden then (s, true)
  else
    let s' := { s with internalCallIds := s.internalCallIds ++ internalIds argumentsName row }
    let payload := iterationEventPayload argumentsName s'.internalCallIds index row
    match row.role with
    | .assistant =>
      let text := contentText row.content
      -- `announce` asks each call for its id
      if row.toolCalls.any (!·.isDict) then (s.commit m text (Text.hasText text), false)
      else
        match payload with
        | none => (s'.commit m text (Text.hasText text), true)
        | some p =>
          (s'.commit m text (Text.hasText text)).publishStep m { p with toolCalls := some (p.toolCalls.getD []) }
    | .tool =>
      match payload with
      | none => (s', true)
      | some p => s'.publishStep m p
    | .user =>
      if row.kind = some "agent_note" then s.publish m false (.agentNote index (contentText row.content)) else (s, true)
    | _ => (s, true)

def consumeRows : List Session.Message → ChildStream → ChildStream
  | [], s => s
  | row :: rows, s =>
    match s.consumeRow m argumentsName row with
    | (s', true) => consumeRows rows s'
    | (s', false) => s'

def consume (journal : List Session.Message) (s : ChildStream) : ChildStream :=
  s.consumeRows m argumentsName (journal.drop s.cursor)

/-- `start` of a new stream. -/
def start (journal : List Session.Message) (resumed : Bool) : ChildStream :=
  let s := if m.opens then ({ entry := some [] } : ChildStream).consume m argumentsName journal else {}
  { s with live := true }.send (.runStarted resumed)

def sync (journal : List Session.Message) (s : ChildStream) : ChildStream :=
  if s.ended then s else s.consume m argumentsName journal

end ChildStream

/-! ## Runs -/

inductive Op where
  | beginReply
  | streamText (text : Text)
  /-- The timer fires, where it is set. -/
  | timer
  | endReply
  | discardReply
  | answer (text : Text)
  | sync (journal : List Session.Message)
  | end_ (outcome : Outcome) (result : Text)
  /-- The run is suspended for a restart. -/
  | close

def next (argumentsName : Text → Option Text) (s : ChildStream) : Op × Moment → ChildStream
  | (.beginReply, _) => s.beginReply
  | (.streamText text, m) => s.streamText m text
  | (.timer, m) => if s.timer then s.onTimer m else s
  | (.endReply, m) => s.endReply m
  | (.discardReply, _) => s.discardReply
  | (.answer text, m) => s.answer m text
  | (.sync journal, m) => s.sync m argumentsName journal
  | (.end_ outcome result, _) => s.end_ outcome result
  | (.close, _) => s.close

/-- What begins, takes back and records no reply: while these go on, a reply streams. -/
def StreamsOn (s : ChildStream) : Op × Moment → Prop
  | (.streamText _, _) | (.timer, _) | (.endReply, _) => True
  | (.sync journal, _) => ∀ row ∈ journal.drop s.cursor, row.role ≠ .assistant ∨ row.displayHidden = true
  | _ => False

/-! ## The watchers -/

/-- The events between two states take the text of the entry at the first to that at the second. -/
structure Follows (s s' : ChildStream) : Prop where
  live : s'.live = s.live
  ended : s'.ended = s.ended
  text : s.live = true → ∃ es, s'.wire = s.wire ++ es ∧ ∀ t, s.entry = some t → s'.entry = some (es.foldl apply t)

namespace Follows

variable {s s' s'' : ChildStream}

/-- Neither the entry nor what was published has changed. -/
theorem same (hl : s'.live = s.live) (he : s'.ended = s.ended) (hw : s'.wire = s.wire) (ht : s'.entry = s.entry) :
    Follows s s' :=
  ⟨hl, he, fun _ => ⟨[], by rw [hw, List.append_nil], fun t h => by rw [ht, h]; rfl⟩⟩

theorem refl (s : ChildStream) : Follows s s := same rfl rfl rfl rfl

theorem trans (h : Follows s s') (h' : Follows s' s'') : Follows s s'' := by
  refine ⟨h'.live.trans h.live, h'.ended.trans h.ended, fun hlive => ?_⟩
  obtain ⟨es, hw, ht⟩ := h.text hlive
  obtain ⟨es', hw', ht'⟩ := h'.text (h.live.trans hlive)
  refine ⟨es ++ es', by rw [hw', hw, List.append_assoc], fun t htext => ?_⟩
  rw [ht' _ (ht t htext), List.foldl_append]

/-- What a call sets of its own first. -/
theorem of_same (h : Follows s' s'') (hl : s'.live = s.live) (he : s'.ended = s.ended) (hw : s'.wire = s.wire)
    (ht : s'.entry = s.entry) : Follows s s'' := (same hl he hw ht).trans h

/-- One event, and the entry changed as it says. -/
theorem one {e : Event} (hl : s'.live = s.live) (he : s'.ended = s.ended) (hw : s'.wire = s.wire)
    (ht : ∀ t, s.entry = some t → s'.entry = some (apply t e)) : Follows s (s'.send e) := by
  have hlive : (s'.send e).live = s.live := by
    unfold ChildStream.send
    split <;> exact hl
  have hended : (s'.send e).ended = s.ended := by
    unfold ChildStream.send
    split <;> exact he
  refine ⟨hlive, hended, fun hlive => ⟨[e], ?_, fun t htext => ?_⟩⟩
  · simp only [ChildStream.send, hl, hlive, if_pos, hw]
  · have hentry : (s'.send e).entry = s'.entry := by
      unfold ChildStream.send
      split <;> rfl
    rw [hentry, ht t htext]
    rfl

end Follows

namespace ChildStream

variable {m : Moment} {text : Text} {s : ChildStream}

theorem delta_follows : Follows s (s.delta m text) := by
  unfold delta
  split
  · exact .refl s
  · refine .one ?_ ?_ ?_ ?_
    · unfold append
      split <;> [rfl; (split <;> rfl)]
    · unfold append
      split <;> [rfl; (split <;> rfl)]
    · unfold append
      split <;> [rfl; (split <;> rfl)]
    · intro t ht
      simp only [append, ht]
      rfl

theorem resetText_follows : Follows s (s.resetText text) := by
  unfold resetText
  split
  · exact .refl s
  · exact .one rfl rfl rfl fun t ht => by rw [ht]; rfl

theorem flush_follows : Follows s (s.flush m) := by
  unfold flush
  dsimp only
  split
  · exact .same rfl rfl rfl rfl
  · exact delta_follows.of_same rfl rfl rfl rfl

theorem maybeFlush_follows : Follows s (s.maybeFlush m) := by
  unfold maybeFlush
  dsimp only
  split
  · exact .refl s
  · split
    · exact flush_follows
    · split
      · exact .refl s
      · split
        · exact .same rfl rfl rfl rfl
        · exact flush_follows

theorem streamText_follows : Follows s (s.streamText m text) := by
  unfold streamText
  split
  · exact .refl s
  · exact maybeFlush_follows.of_same rfl rfl rfl rfl

theorem onTimer_follows : Follows s (s.onTimer m) := by
  unfold onTimer
  exact maybeFlush_follows.of_same rfl rfl rfl rfl

theorem discardReply_follows : Follows s s.discardReply := by
  unfold discardReply
  dsimp only
  split
  · exact .same rfl rfl rfl rfl
  · exact resetText_follows.of_same rfl rfl rfl rfl

theorem beginReply_follows : Follows s s.beginReply := by
  unfold beginReply
  dsimp only
  split
  · exact discardReply_follows.trans (.same rfl rfl rfl rfl)
  · exact .same rfl rfl rfl rfl

theorem settle_follows {sent : Text} {shown : Bool} : Follows s (s.settle m sent text shown) := by
  unfold settle
  split
  · split
    · exact delta_follows
    · exact .refl s
  · split
    · exact .refl s
    · split
      · exact delta_follows
      · dsimp only
        split
        · exact resetText_follows.trans delta_follows
        · exact resetText_follows

theorem commit_follows {shown : Bool} : Follows s (s.commit m text shown) := by
  unfold commit
  exact flush_follows.trans (settle_follows.of_same rfl rfl rfl rfl)

theorem publish_follows {clears : Bool} {e : Event} (he : ∀ t, apply t e = if clears then [] else t) :
    Follows s (s.publish m clears e).1 := by
  unfold publish appendIteration
  cases hentry : s.entry with
  | some t =>
    refine .one rfl rfl rfl fun t' ht' => ?_
    obtain rfl : t = t' := Option.some.inj (hentry.symm.trans ht')
    rw [he]
  | none =>
    cases m.opens with
    | true => exact .one rfl rfl rfl fun t' ht' => by rw [hentry] at ht'; cases ht'
    | false => exact .refl s

theorem publishStep_follows {p : StepPayload} (hp : p.role ≠ .assistant → p.toolCalls = none) :
    Follows s (s.publishStep m p).1 := by
  refine publish_follows fun t => ?_
  simp only [apply, decide_eq_true_eq]
  by_cases hr : p.role = .assistant
  · simp only [hr, true_and]
  · rw [hp hr]
    simp

variable {argumentsName : Text → Option Text} {row : Session.Message}

theorem consumeRow_follows : Follows s (s.consumeRow m argumentsName row).1 := by
  unfold consumeRow
  dsimp only
  split
  · exact .same rfl rfl rfl rfl
  · split
    · split
      · exact commit_follows.of_same rfl rfl rfl rfl
      · split
        · exact commit_follows.of_same rfl rfl rfl rfl
        · next hr _ _ p hp =>
          refine (commit_follows.trans (publishStep_follows fun hne => ?_)).of_same rfl rfl rfl rfl
          exact absurd ((payload_calls argumentsName hp).1.trans hr) hne
    · split
      · exact .same rfl rfl rfl rfl
      · next hr _ p hp =>
        refine (publishStep_follows fun _ => ?_).of_same rfl rfl rfl rfl
        exact (payload_calls argumentsName hp).2 (by rw [hr]; decide)
    · split
      · exact (publish_follows fun t => rfl).of_same rfl rfl rfl rfl
      · exact .same rfl rfl rfl rfl
    · exact .same rfl rfl rfl rfl

theorem consumeRows_follows (rows : List Session.Message) (s : ChildStream) :
    Follows s (s.consumeRows m argumentsName rows) := by
  induction rows generalizing s with
  | nil => exact .refl s
  | cons row rows ih =>
    unfold consumeRows
    have hrow : Follows s (s.consumeRow m argumentsName row).1 := consumeRow_follows
    split
    · next s' hs' =>
      rw [hs'] at hrow
      exact hrow.trans (ih s')
    · next s' hs' =>
      rw [hs'] at hrow
      exact hrow

theorem sync_follows {journal : List Session.Message} : Follows s (s.sync m argumentsName journal) := by
  unfold sync
  split
  · exact .refl s
  · exact consumeRows_follows _ s

theorem start_live (m : Moment) (argumentsName : Text → Option Text) (journal : List Session.Message)
    (resumed : Bool) :
    (start m argumentsName journal resumed).live = true ∧ (start m argumentsName journal resumed).ended = false := by
  unfold start send
  dsimp only
  split
  · refine ⟨rfl, ?_⟩
    split
    · exact (consumeRows_follows _ _).ended
    · rfl
  · next h => exact absurd rfl h

/-- A run that is over has no entry, and nothing that could still be sent. -/
structure Over (s : ChildStream) : Prop where
  ended : s.ended = true
  entry : s.entry = none
  reply : s.reply = []
  buffer : s.buffer = []

theorem over_close (s : ChildStream) : s.close.Over := ⟨rfl, rfl, rfl, rfl⟩

end ChildStream

/-- What a run keeps: it is announced, and where it has ended it is over. -/
structure Inv (s : ChildStream) : Prop where
  live : s.live = true
  closed : s.ended = true → s.Over

/-- What a watcher can say of a later state from the events since. -/
structure Watched (s s' : ChildStream) (es : List Event) : Prop where
  wire : s'.wire = s.wire ++ es
  text : s'.ended = false → s.ended = false ∧ ∀ t, s.entry = some t → s'.entry = some (es.foldl apply t)
  silent : s.ended = true → es = []

theorem Watched.refl (s : ChildStream) : Watched s s [] :=
  ⟨(List.append_nil _).symm, fun h => ⟨h, fun _ ht => ht⟩, fun _ => rfl⟩

theorem Watched.trans {s s' s'' : ChildStream} {es es' : List Event} (h : Watched s s' es) (h' : Watched s' s'' es') :
    Watched s s'' (es ++ es') := by
  refine ⟨by rw [h'.wire, h.wire, List.append_assoc], fun hrun => ?_, fun hend => ?_⟩
  · obtain ⟨hrun', ht'⟩ := h'.text hrun
    obtain ⟨hrun'', ht⟩ := h.text hrun'
    refine ⟨hrun'', fun t htext => ?_⟩
    rw [ht' _ (ht t htext), List.foldl_append]
  · have hend' : s'.ended = true := by
      by_contra hrun
      have := (h.text (by simpa using hrun)).1
      rw [hend] at this
      cases this
    rw [h.silent hend, h'.silent hend', List.append_nil]

theorem Follows.watched {s s' : ChildStream} (h : Follows s s') (hi : Inv s) (hrun : s.ended = false) :
    Inv s' ∧ ∃ es, Watched s s' es := by
  obtain ⟨es, hw, ht⟩ := h.text hi.live
  refine ⟨⟨h.live.trans hi.live, fun hend => ?_⟩, es, hw, fun _ => ⟨hrun, ht⟩, fun hend => ?_⟩
  · rw [h.ended, hrun] at hend
    cases hend
  · rw [hrun] at hend
    cases hend

variable {s : ChildStream}

theorem ChildStream.flush_over (h : s.Over) (m : Moment) :
    s.flush m = { s with timer := false, buffer := [] } := by
  unfold flush
  exact if_pos (.inl h.buffer)

theorem ChildStream.maybeFlush_over (h : s.Over) (m : Moment) : s.maybeFlush m = s := by
  unfold maybeFlush
  exact if_pos (.inl h.buffer)

theorem ChildStream.commit_over (h : s.Over) (m : Moment) (text : Text) (shown : Bool) :
    s.commit m text shown = { s with timer := false, buffer := [], reply := [] } := by
  unfold commit
  rw [flush_over h]
  unfold settle
  rw [if_pos h.reply]
  split
  · unfold delta
    exact if_pos (.inl h.ended)
  · rfl

/-- Nothing comes of a call once the run is over. -/
theorem next_over (argumentsName : Text → Option Text) (h : s.Over) (e : Op × Moment) :
    (next argumentsName s e).Over ∧ (next argumentsName s e).wire = s.wire ∧
      (next argumentsName s e).live = s.live := by
  obtain ⟨op, m⟩ := e
  cases op with
  | beginReply =>
    have heq : s.beginReply = { s with beforeReply := s.entry.getD [] } := by
      unfold ChildStream.beginReply
      rw [if_neg (by rw [h.reply, h.buffer]; simp)]
    simp only [next]
    rw [heq]
    exact ⟨{ h with }, rfl, rfl⟩
  | streamText text =>
    have heq : s.streamText m text = s := by
      unfold ChildStream.streamText
      exact if_pos (.inl h.ended)
    simp only [next]
    rw [heq]
    exact ⟨h, rfl, rfl⟩
  | timer =>
    have hoff : ({ s with timer := false } : ChildStream).Over := { h with }
    simp only [next, ChildStream.onTimer]
    rw [ChildStream.maybeFlush_over hoff]
    split
    · exact ⟨hoff, rfl, rfl⟩
    · exact ⟨h, rfl, rfl⟩
  | endReply =>
    simp only [next, ChildStream.endReply]
    rw [ChildStream.flush_over h]
    exact ⟨⟨h.ended, h.entry, h.reply, rfl⟩, rfl, rfl⟩
  | discardReply =>
    have heq : s.discardReply = { s with timer := false, buffer := [] } := by
      unfold ChildStream.discardReply
      exact if_pos h.reply
    simp only [next]
    rw [heq]
    exact ⟨⟨h.ended, h.entry, h.reply, rfl⟩, rfl, rfl⟩
  | answer text =>
    simp only [next, ChildStream.answer]
    rw [ChildStream.commit_over h]
    exact ⟨⟨h.ended, h.entry, rfl, rfl⟩, rfl, rfl⟩
  | sync journal =>
    have heq : s.sync m argumentsName journal = s := by
      unfold ChildStream.sync
      exact if_pos h.ended
    simp only [next]
    rw [heq]
    exact ⟨h, rfl, rfl⟩
  | end_ outcome result =>
    have heq : s.end_ outcome result = s := by
      unfold ChildStream.end_
      exact if_pos h.ended
    simp only [next]
    rw [heq]
    exact ⟨h, rfl, rfl⟩
  | close => exact ⟨ChildStream.over_close s, rfl, rfl⟩

/-- A call that ends the run. -/
theorem watched_close {s s' : ChildStream} (hrun : s.ended = false) {es : List Event} (hw : s'.wire = s.wire ++ es) :
    Watched s s'.close es := by
  refine ⟨hw, fun h => ?_, fun h => ?_⟩
  · cases h
  · rw [hrun] at h
    cases h

theorem next_watched (argumentsName : Text → Option Text) (hi : Inv s) (e : Op × Moment) :
    Inv (next argumentsName s e) ∧ ∃ es, Watched s (next argumentsName s e) es := by
  cases hrun : s.ended with
  | true =>
    obtain ⟨hover, hwire, hlive⟩ := next_over argumentsName (hi.closed hrun) e
    refine ⟨⟨hlive.trans hi.live, fun _ => hover⟩, [], by rw [hwire, List.append_nil], fun h => ?_, fun _ => rfl⟩
    rw [hover.ended] at h
    cases h
  | false =>
    obtain ⟨op, m⟩ := e
    cases op with
    | beginReply => exact ChildStream.beginReply_follows.watched hi hrun
    | streamText text => exact ChildStream.streamText_follows.watched hi hrun
    | timer =>
      simp only [next]
      split
      · exact ChildStream.onTimer_follows.watched hi hrun
      · exact (Follows.refl s).watched hi hrun
    | endReply => exact ChildStream.flush_follows.watched hi hrun
    | discardReply => exact ChildStream.discardReply_follows.watched hi hrun
    | answer text => exact ChildStream.commit_follows.watched hi hrun
    | sync journal => exact ChildStream.sync_follows.watched hi hrun
    | end_ outcome result =>
      have heq : s.end_ outcome result = { s with ended := true, timer := false,
                                                  wire := s.wire ++ [ChildStream.terminal result outcome] }.close := by
        unfold ChildStream.end_ ChildStream.send
        rw [if_neg (by rw [hrun]; decide), if_pos hi.live]
      simp only [next]
      rw [heq]
      exact ⟨⟨hi.live, fun _ => ChildStream.over_close _⟩, [ChildStream.terminal result outcome], watched_close hrun rfl⟩
    | close =>
      exact ⟨⟨hi.live, fun _ => ChildStream.over_close s⟩, [], watched_close hrun (List.append_nil _).symm⟩

theorem inv_start (m : Moment) (argumentsName : Text → Option Text) (journal : List Session.Message)
    (resumed : Bool) : Inv (ChildStream.start m argumentsName journal resumed) := by
  obtain ⟨hlive, hended⟩ := ChildStream.start_live m argumentsName journal resumed
  refine ⟨hlive, fun h => ?_⟩
  rw [hended] at h
  cases h

/-- A watcher who took the entry at any state of a run has the text of it at any later one. -/
theorem watcher_follows (argumentsName : Text → Option Text) (ops : List (Op × Moment)) (hi : Inv s) :
    Inv (ops.foldl (next argumentsName) s) ∧ ∃ es, Watched s (ops.foldl (next argumentsName) s) es := by
  induction ops generalizing s with
  | nil => exact ⟨hi, [], .refl s⟩
  | cons e ops ih =>
    obtain ⟨hi', es, hw⟩ := next_watched argumentsName hi e
    obtain ⟨hi'', es', hw'⟩ := ih hi'
    exact ⟨hi'', es ++ es', hw.trans hw'⟩

/-! ## Replies -/

namespace ChildStream

variable {m : Moment} {text t : Text} {s : ChildStream}

@[simp] theorem send_entry (e : Event) : (s.send e).entry = s.entry := by unfold send; split <;> rfl
@[simp] theorem send_ended (e : Event) : (s.send e).ended = s.ended := by unfold send; split <;> rfl
@[simp] theorem send_reply (e : Event) : (s.send e).reply = s.reply := by unfold send; split <;> rfl
@[simp] theorem send_buffer (e : Event) : (s.send e).buffer = s.buffer := by unfold send; split <;> rfl
@[simp] theorem send_beforeReply (e : Event) : (s.send e).beforeReply = s.beforeReply := by unfold send; split <;> rfl
structure Alike (s s' : ChildStream) : Prop where
  ended : s'.ended = s.ended
  reply : s'.reply = s.reply
  buffer : s'.buffer = s.buffer
  beforeReply : s'.beforeReply = s.beforeReply

theorem Alike.refl (s : ChildStream) : Alike s s := ⟨rfl, rfl, rfl, rfl⟩

theorem Alike.send {s s' : ChildStream} (h : Alike s s') (e : Event) : Alike s (s'.send e) :=
  ⟨by simpa using h.ended, by simpa using h.reply, by simpa using h.buffer, by simpa using h.beforeReply⟩

theorem delta_alike : Alike s (s.delta m text) := by
  unfold delta
  split
  · exact .refl s
  · refine Alike.send ?_ _
    unfold append
    split
    · exact ⟨rfl, rfl, rfl, rfl⟩
    · split <;> exact ⟨rfl, rfl, rfl, rfl⟩

theorem delta_entry (hrun : s.ended = false) (ht : s.entry = some t) : (s.delta m text).entry = some (t ++ text) := by
  unfold delta
  split
  · next h =>
    rcases h with h | rfl
    · rw [hrun] at h
      cases h
    · rw [List.append_nil, ht]
  · rw [send_entry, append, ht]

theorem resetText_alike : Alike s (s.resetText text) := by
  unfold resetText
  split
  · exact .refl s
  · have hset : Alike s { s with entry := s.entry.map fun _ => text } := ⟨rfl, rfl, rfl, rfl⟩
    exact hset.send _

theorem resetText_entry (hrun : s.ended = false) (ht : s.entry = some t) : (s.resetText text).entry = some text := by
  unfold resetText
  rw [if_neg (by rw [hrun]; decide), send_entry, ht]
  rfl

theorem publish_eq {clears : Bool} {e : Event} (ht : s.entry = some t) :
    s.publish m clears e = ({ s with entry := some (if clears then [] else t) }.send e, true) := by
  unfold publish appendIteration
  rw [ht]

/-- The step of a reply clears the text. -/
theorem publishStep_reply {p : StepPayload} (hlive : s.live = true) (ht : s.entry = some t) (hr : p.role = .assistant)
    (hcalls : p.toolCalls.isSome) :
    (s.publishStep m p).1.entry = some [] ∧ (s.publishStep m p).1.wire = s.wire ++ [.iterationStep p] := by
  unfold publishStep
  rw [publish_eq ht]
  refine ⟨by simp [hr, hcalls], ?_⟩
  unfold send
  rw [if_pos hlive]

/-- What was streamed has been sent. -/
theorem flush_spec (hrun : s.ended = false) (ht : s.entry = some t) :
    (s.flush m).entry = some (t ++ s.buffer) ∧ (s.flush m).reply = s.reply ++ s.buffer ∧ (s.flush m).buffer = [] ∧
      (s.flush m).beforeReply = s.beforeReply ∧ (s.flush m).ended = false := by
  unfold flush
  dsimp only
  split
  · next h =>
    rcases h with h | h
    · rw [h, List.append_nil, List.append_nil]
      exact ⟨ht, rfl, rfl, rfl, hrun⟩
    · rw [hrun] at h
      cases h
  · refine ⟨delta_entry hrun ht, ?_, ?_, ?_, ?_⟩
    · exact delta_alike.reply
    · exact delta_alike.buffer
    · exact delta_alike.beforeReply
    · exact delta_alike.ended.trans hrun

/-- The text that recording a reply leaves, which began at the text `before`: one that is not `shown` stands
    there only as far as it streamed, where that is its beginning. -/
def recordedText (before streamed text : Text) (shown : Bool) : Text :=
  if shown ∨ streamed ≠ [] ∧ streamed <+: text then before ++ text else before

theorem settle_text {t₁ sent : Text} {shown : Bool} (hrun : s.ended = false) (ht : s.entry = some (t₁ ++ sent))
    (hb : sent ≠ [] → s.beforeReply = t₁) :
    (s.settle m sent text shown).entry = some (recordedText t₁ sent text shown) := by
  unfold settle recordedText
  split
  · next hsent =>
    subst hsent
    rw [List.append_nil] at ht
    cases shown with
    | true => simpa using delta_entry hrun ht
    | false => simpa using ht
  · next hsent =>
    split
    · next heq =>
      subst heq
      rw [ht, if_pos (.inr ⟨hsent, List.prefix_refl _⟩)]
    · split
      · next hpre =>
        obtain ⟨rest, rfl⟩ := hpre
        rw [delta_entry hrun ht, if_pos (.inr ⟨hsent, List.prefix_append _ _⟩), List.drop_left, List.append_assoc]
      · next hpre =>
        have hreset : (s.resetText s.beforeReply).entry = some s.beforeReply := resetText_entry hrun ht
        rw [hb hsent] at hreset
        dsimp only
        rw [hb hsent]
        cases shown with
        | true => simpa using delta_entry (resetText_alike.ended.trans hrun) hreset
        | false => simpa [hpre] using hreset

theorem commit_text {t₁ : Text} {shown : Bool} (hrun : s.ended = false) (ht : s.entry = some (t₁ ++ s.reply))
    (hb : s.reply ++ s.buffer ≠ [] → s.beforeReply = t₁) :
    (s.commit m text shown).entry = some (recordedText t₁ (s.reply ++ s.buffer) text shown) := by
  obtain ⟨hentry, hreply, -, hbefore, hended⟩ := flush_spec (m := m) hrun ht
  unfold commit
  dsimp only
  rw [hreply]
  refine settle_text hended ?_ fun hsent => ?_
  · rw [hentry, List.append_assoc]
  · exact hbefore.trans (hb hsent)

/-- The reply that streams began at the text `t₁`. -/
structure Streaming (t₁ : Text) (s : ChildStream) : Prop where
  running : s.ended = false
  entry : s.entry = some (t₁ ++ s.reply)
  before : s.beforeReply = t₁

namespace Streaming

variable {t₁ : Text}

theorem flush (h : Streaming t₁ s) : Streaming t₁ (s.flush m) := by
  obtain ⟨hentry, hreply, -, hbefore, hended⟩ := flush_spec (m := m) h.running h.entry
  exact ⟨hended, by rw [hentry, hreply, List.append_assoc], hbefore.trans h.before⟩

theorem maybeFlush (h : Streaming t₁ s) : Streaming t₁ (s.maybeFlush m) := by
  unfold ChildStream.maybeFlush
  dsimp only
  split
  · exact h
  · split
    · exact h.flush
    · split
      · exact h
      · split
        · exact ⟨h.running, h.entry, h.before⟩
        · exact h.flush

theorem streamText (h : Streaming t₁ s) : Streaming t₁ (s.streamText m text) := by
  unfold ChildStream.streamText
  split
  · exact h
  · exact maybeFlush ⟨h.running, h.entry, h.before⟩

theorem onTimer (h : Streaming t₁ s) : Streaming t₁ (s.onTimer m) := maybeFlush ⟨h.running, h.entry, h.before⟩

/-- A row that records no reply leaves the text alone. -/
theorem publish (h : Streaming t₁ s) (e : Event) : Streaming t₁ (s.publish m false e).1 := by
  rw [publish_eq h.entry]
  exact ⟨by simpa using h.running, by simp, by simpa using h.before⟩

variable {argumentsName : Text → Option Text}

theorem consumeRow {row : Session.Message} (h : Streaming t₁ s)
    (hrow : row.role ≠ .assistant ∨ row.displayHidden = true) :
    Streaming t₁ (s.consumeRow m argumentsName row).1 := by
  have hset : ∀ {s' : ChildStream}, s'.ended = s.ended → s'.entry = s.entry → s'.reply = s.reply →
      s'.beforeReply = s.beforeReply → Streaming t₁ s' :=
    fun he ht hr hb => ⟨he.trans h.running, by rw [ht, hr, h.entry], hb.trans h.before⟩
  unfold ChildStream.consumeRow
  dsimp only
  split
  · exact hset rfl rfl rfl rfl
  · next hshown =>
    split
    · next hr =>
      rcases hrow with hne | hhidden
      · exact absurd hr hne
      · exact absurd hhidden hshown
    · split
      · exact hset rfl rfl rfl rfl
      · next hr _ p hp =>
        have hcalls := (payload_calls argumentsName hp).2 (by rw [hr]; decide)
        unfold publishStep
        rw [show decide (p.role = .assistant ∧ p.toolCalls.isSome) = false by rw [hcalls]; simp]
        refine publish ?_ _
        exact hset rfl rfl rfl rfl
    · split
      · refine publish ?_ _
        exact hset rfl rfl rfl rfl
      · exact hset rfl rfl rfl rfl
    · exact hset rfl rfl rfl rfl

theorem consumeRows {rows : List Session.Message} (h : Streaming t₁ s)
    (hrows : ∀ row ∈ rows, row.role ≠ .assistant ∨ row.displayHidden = true) :
    Streaming t₁ (s.consumeRows m argumentsName rows) := by
  induction rows generalizing s with
  | nil => exact h
  | cons row rows ih =>
    have hrow : Streaming t₁ (s.consumeRow m argumentsName row).1 := h.consumeRow (hrows row List.mem_cons_self)
    unfold ChildStream.consumeRows
    split
    · next s' hs' =>
      rw [hs'] at hrow
      exact ih hrow fun row' hmem => hrows row' (List.mem_cons_of_mem _ hmem)
    · next s' hs' =>
      rw [hs'] at hrow
      exact hrow

theorem next {e : Op × Moment} (h : Streaming t₁ s) (he : StreamsOn s e) :
    Streaming t₁ (LiveText.next argumentsName s e) := by
  obtain ⟨op, m⟩ := e
  cases op with
  | streamText text => exact h.streamText
  | timer =>
    simp only [LiveText.next]
    split
    · exact h.onTimer
    · exact h
  | endReply => exact h.flush
  | sync journal =>
    simp only [LiveText.next, ChildStream.sync]
    split
    · exact h
    · exact h.consumeRows he
  | beginReply => cases he
  | discardReply => cases he
  | answer text => cases he
  | end_ outcome result => cases he
  | close => cases he

end Streaming

theorem discardReply_spec (hrun : s.ended = false) (ht : s.entry = some t) :
    s.discardReply.reply = [] ∧ s.discardReply.ended = false ∧
      s.discardReply.entry = some (if s.reply = [] then t else s.beforeReply) := by
  unfold discardReply
  dsimp only
  split
  · next h =>
    exact ⟨h, hrun, ht⟩
  · refine ⟨resetText_alike.reply, resetText_alike.ended.trans hrun, ?_⟩
    exact resetText_entry hrun ht

theorem beginReply_reply (hrun : s.ended = false) (ht : s.entry = some t) : s.beginReply.reply = [] := by
  unfold beginReply
  by_cases h : s.reply ≠ [] ∨ s.buffer ≠ []
  · rw [if_pos h]
    exact (discardReply_spec hrun ht).1
  · rw [if_neg h]
    by_contra hne
    exact h (.inl hne)

/-- A reply begins at the text there is, once what an abandoned one had sent is taken back. -/
theorem beginReply_streaming (hrun : s.ended = false) (ht : s.entry = some t) :
    Streaming (if s.reply = [] then t else s.beforeReply) s.beginReply := by
  obtain ⟨hreply, hended, hentry⟩ := discardReply_spec hrun ht
  unfold beginReply
  by_cases h : s.reply ≠ [] ∨ s.buffer ≠ []
  · rw [if_pos h]
    refine ⟨hended, ?_, ?_⟩
    · rw [hentry]
      simp [hreply]
    · simp [hentry]
  · have hnone : s.reply = [] := by
      by_contra hne
      exact h (.inl hne)
    rw [if_neg h, if_pos hnone]
    refine ⟨hrun, ?_, ?_⟩
    · simp [ht, hnone]
    · simp [ht]

/-- A row with a reply: the reply is committed, and a step, where there is one, clears the text. -/
theorem consumeRow_reply {argumentsName : Text → Option Text} {row : Session.Message} (hr : row.role = .assistant)
    (hh : row.displayHidden = false) (hlive : s.live = true) {t₁ : Text} (hrun : s.ended = false)
    (ht : s.entry = some (t₁ ++ s.reply)) (hb : s.reply ++ s.buffer ≠ [] → s.beforeReply = t₁) :
    ∃ c, Follows s c ∧
      c.entry = some (recordedText t₁ (s.reply ++ s.buffer) (contentText row.content)
        (Text.hasText (contentText row.content))) ∧
      ((s.consumeRow m argumentsName row).1.entry = c.entry ∧ (s.consumeRow m argumentsName row).1.wire = c.wire ∨
        ∃ p : StepPayload, p.toolCalls.isSome ∧ (s.consumeRow m argumentsName row).1.entry = some [] ∧
          (s.consumeRow m argumentsName row).1.wire = c.wire ++ [.iterationStep p]) := by
  have hcommit : ∀ s' : ChildStream, s'.live = s.live → s'.ended = s.ended → s'.wire = s.wire → s'.entry = s.entry →
      s'.reply = s.reply → s'.buffer = s.buffer → s'.beforeReply = s.beforeReply →
      Follows s (s'.commit m (contentText row.content) (Text.hasText (contentText row.content))) ∧
        (s'.commit m (contentText row.content) (Text.hasText (contentText row.content))).entry =
          some (recordedText t₁ (s.reply ++ s.buffer) (contentText row.content)
            (Text.hasText (contentText row.content))) := by
    intro s' hl he hw hentry hreply hbuffer hbefore
    refine ⟨commit_follows.of_same hl he hw hentry, ?_⟩
    rw [← hreply, ← hbuffer]
    exact commit_text (he.trans hrun) (by rw [hentry, hreply, ht]) (by rw [hreply, hbuffer, hbefore]; exact hb)
  unfold consumeRow
  dsimp only
  rw [if_neg (by rw [hh]; decide), hr]
  dsimp only
  split
  · obtain ⟨hfollows, hentry⟩ := hcommit { s with cursor := s.cursor + 1 } rfl rfl rfl rfl rfl rfl rfl
    exact ⟨_, hfollows, hentry, .inl ⟨rfl, rfl⟩⟩
  · obtain ⟨hfollows, hentry⟩ := hcommit
      { s with cursor := s.cursor + 1, internalCallIds := s.internalCallIds ++ internalIds argumentsName row }
      rfl rfl rfl rfl rfl rfl rfl
    refine ⟨_, hfollows, hentry, ?_⟩
    split
    · exact .inl ⟨rfl, rfl⟩
    · next p hp =>
      exact .inr ⟨_, rfl, publishStep_reply (hfollows.live.trans hlive) hentry
        ((payload_calls argumentsName hp).1.trans hr) rfl⟩

end ChildStream

/-- A reply that is recorded now stands behind `t₁`, whatever was streamed of it; before a step clears the text,
    where a journal's row records it. One of white space alone is left out of a row unless it streamed. -/
structure RecordsBehind (argumentsName : Text → Option Text) (t₁ : Text) (s : ChildStream) : Prop where
  answer : ∀ m text, (s.answer m text).entry = some (t₁ ++ text)
  row : ∀ m (row : Session.Message), row.role = .assistant → row.displayHidden = false →
    ∃ c, Follows s c ∧
      c.entry = some (ChildStream.recordedText t₁ (s.reply ++ s.buffer) (contentText row.content)
        (Text.hasText (contentText row.content))) ∧
      ((s.consumeRow m argumentsName row).1.entry = c.entry ∧ (s.consumeRow m argumentsName row).1.wire = c.wire ∨
        ∃ p : StepPayload, p.toolCalls.isSome ∧ (s.consumeRow m argumentsName row).1.entry = some [] ∧
          (s.consumeRow m argumentsName row).1.wire = c.wire ++ [.iterationStep p])

theorem recordsBehind {argumentsName : Text → Option Text} {t₁ : Text} (hi : Inv s)
    (hrun : s.ended = false) (ht : s.entry = some (t₁ ++ s.reply))
    (hb : s.reply ++ s.buffer ≠ [] → s.beforeReply = t₁) : RecordsBehind argumentsName t₁ s := by
  refine ⟨fun m text => ?_, fun m row hr hh => ChildStream.consumeRow_reply hr hh hi.live hrun ht hb⟩
  unfold ChildStream.answer
  rw [ChildStream.commit_text hrun ht hb]
  unfold ChildStream.recordedText
  by_cases htext : text = []
  · subst htext
    rw [List.append_nil, ite_self]
  · rw [if_pos (.inl (by simpa using htext))]

/-- In every run a watcher who has taken the entry at some state follows it from there by the events, until the
    run's end, after which nothing is sent. A reply that did not stream, or began with `begin_reply` and streams on
    since, is recorded behind the text there was before it. -/
theorem live_text_follows (argumentsName : Text → Option Text) (m₀ : Moment) (journal : List Session.Message)
    (resumed : Bool) (ops : List (Op × Moment)) :
    let s := ops.foldl (next argumentsName) (ChildStream.start m₀ argumentsName journal resumed)
    (∀ later : List (Op × Moment), ∃ es, Watched s (later.foldl (next argumentsName) s) es) ∧
    (s.ended = true → s.entry = none) ∧
    ∀ t, s.entry = some t →
      (s.reply = [] → s.buffer = [] → RecordsBehind argumentsName t s) ∧
      ∃ t₁, s.beginReply.entry = some t₁ ∧ (s.reply = [] → t₁ = t) ∧
        ∀ s', Reach (next argumentsName) StreamsOn s.beginReply s' → RecordsBehind argumentsName t₁ s' := by
  intro s
  have hi : Inv s := (watcher_follows argumentsName ops (inv_start m₀ argumentsName journal resumed)).1
  refine ⟨fun later => (watcher_follows argumentsName later hi).2, fun hend => (hi.closed hend).entry, fun t ht => ?_⟩
  have hrun : s.ended = false := by
    by_contra hend
    have hnone := (hi.closed (by simpa using hend)).entry
    rw [ht] at hnone
    cases hnone
  refine ⟨fun hreply hbuffer => ?_, if s.reply = [] then t else s.beforeReply, ?_, fun h => if_pos h, fun s' hs' => ?_⟩
  · refine recordsBehind hi hrun (by rw [hreply, List.append_nil, ht]) fun hne => ?_
    rw [hreply, hbuffer] at hne
    exact absurd rfl hne
  · have hbegun := ChildStream.beginReply_streaming hrun ht
    have hreply : s.beginReply.reply = [] := ChildStream.beginReply_reply hrun ht
    rw [hbegun.entry, hreply, List.append_nil]
  · have hkept : Inv s' ∧ ChildStream.Streaming (if s.reply = [] then t else s.beforeReply) s' := by
      refine hs'.invariant (P := fun s' => Inv s' ∧ ChildStream.Streaming _ s') ?_ ?_
      · exact ⟨(ChildStream.beginReply_follows.watched hi hrun).1, ChildStream.beginReply_streaming hrun ht⟩
      · rintro s' e ⟨hi', hstream⟩ he
        exact ⟨(next_watched argumentsName hi' e).1, hstream.next he⟩
    exact recordsBehind hkept.1 hkept.2.running hkept.2.entry fun _ => hkept.2.before

namespace Sample

/-- A second after the last delta, with nobody behind. -/
def moment : Moment := { now := 1000, behind := false, loop := true, opens := true }

/-- No call is deferred. -/
def run (ops : List Op) : ChildStream :=
  (ops.map (·, moment)).foldl (next fun _ => none) (ChildStream.start moment (fun _ => none) [] false)

/-- A reply that says nothing and searches the memory. -/
def searching : Session.Message :=
  { role := .assistant, content := .text " ".toList, toolCalls := [{ id := .text "c1", name := "memory_search" }] }

end Sample

open LiveText.Sample in
/-- A reply of which "Hel" streamed and "Help." was recorded, behind an answer. -/
theorem live_text_follows_ran :
    (run [.answer "A".toList, .beginReply, .streamText "Hel".toList, .answer "Help.".toList]).entry =
      some "AHelp.".toList := by
  have h := (live_text_follows (fun _ => none) moment [] false [(.answer "A".toList, moment)]).2.2 "A".toList
    (by decide +kernel)
  obtain ⟨t₁, ht, hsame, hall⟩ := h.2
  obtain rfl : t₁ = "A".toList := hsame (by decide +kernel)
  have hstream : Reach (next fun _ => none) StreamsOn (run [.answer "A".toList]).beginReply
      (run [.answer "A".toList, .beginReply, .streamText "Hel".toList]) :=
    .step (Op.streamText "Hel".toList, moment) .start trivial
  exact (hall _ hstream).answer moment "Help.".toList

open LiveText.Sample in
/-- A reply of white space that no step shows is left out; a reply that streams without `begin_reply` takes the text
    before it along when it is taken back; and the entry goes with the run, though no event clears the text. -/
theorem live_text_leaves :
    (run []).entry = some [] ∧ (run [.sync [searching]]).entry = some [] ∧
    contentText searching.content = " ".toList ∧
    (run [.answer "A".toList]).entry = some "A".toList ∧
    (run [.answer "A".toList, .streamText "x".toList]).entry = some "Ax".toList ∧
    (run [.answer "A".toList, .streamText "x".toList, .answer "y".toList]).entry = some "y".toList ∧
    (run [.answer "A".toList, .end_ .ok "A".toList]).entry = none ∧
    (run [.answer "A".toList, .end_ .ok "A".toList]).wire.foldl apply [] = "A".toList := by
  decide +kernel

end Flowly.Agent.LiveText
