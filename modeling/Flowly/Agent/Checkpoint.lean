/-
  Flowly.Agent.Checkpoint — a running subagent's checkpoint and its replay
  (`flowly/agent/subagent_checkpoint.py`, `flowly/agent/repetition.py`).

  A line is what `read_checkpoint` gives back of a line that was appended: JSON keeps
  its values, and its number and time are left out, as are the time stamps of journal
  rows. A line whose fields cannot be read is `unreadable`, with what reading it raises.

  `View` is what a run has shown its model and seen, and `View.apply` what a line means
  for it: the state a replay must rebuild, whoever computes it. The replayer goes by
  `View.apply` (`replayLine_view`), so a checkpoint is restored to the view its lines
  give (`restoreChildState_view`). `Flowly.Agent.ChildRun` has the live loop.
-/

import Flowly.Agent.ToolResults
import Flowly.Lib.Replay

namespace Flowly.Agent

open Flowly.Lib
open Flowly.Compaction (Role)

/-! ## Dicts -/

/-- `d[k] = v`: a new key comes last. -/
def dictSet {α : Type} (d : List (String × α)) (k : String) (v : α) : List (String × α) :=
  if d.any (·.1 == k) then d.map fun e => if e.1 == k then (k, v) else e else d ++ [(k, v)]

/-- `d.pop(k, None)`. -/
def dictPop {α : Type} (d : List (String × α)) (k : String) : List (String × α) := d.filter (·.1 != k)

/-! ## Code outside -/

/-- `search_sets`: how often each set of tool names was found. -/
abbrev SearchSets := List (List String × Nat)

structure Arguments where
  action : String := ""
  path : String := ""

/-- What is computed elsewhere. -/
structure Outside where
  /-- `annotate_search_repetition`: the annotated result, and the memo it leaves. -/
  annotate : Text → SearchSets → Text × SearchSets
  /-- The SHA-256 of `_comparable(result)`. -/
  comparableDigest : Text → String
  /-- The SHA-256 of a list's canonical JSON. -/
  messagesDigest : List Message → String
  /-- `_arguments`: JSON text decoded, {} when it is not an object. -/
  arguments : Text → Arguments

def historyDigest (o : Outside) (messages : List Message) : String := o.messagesDigest messages

/-! ## The repetition guard -/

def STALL_AFTER : Nat := 4

structure RepetitionGuard where
  stallAfter : Nat := STALL_AFTER
  seen : List (String × String) := []
  inARow : Nat := 0

def RepetitionGuard.observe (o : Outside) (g : RepetitionGuard) (toolName : String) (result : Text) :
    Bool × RepetitionGuard :=
  let key := (toolName, o.comparableDigest result)
  if key ∈ g.seen then (true, { g with inARow := g.inARow + 1 })
  else (false, { g with seen := g.seen ++ [key], inARow := 0 })

def RepetitionGuard.stalled (g : RepetitionGuard) : Bool := g.inARow ≥ g.stallAfter

def markRepeated (toolName : String) (content : Text) : Text :=
  "[Identical to an earlier ".toList ++ toolName.toList ++ (" result in this turn — nothing " ++
    "has changed. Don't call it again for the same thing; use what you have.]\n").toList ++ content

/-! ## The child's state -/

def CHECKPOINT_VERSION : Nat := 3
def READABLE_VERSIONS : List Nat := [2, CHECKPOINT_VERSION]

def GRACE_PROMPT : Text :=
  ("You cannot call any more tools. Provide a brief " ++
   "final summary of what you accomplished and found " ++
   "so far based on your previous tool results. Do " ++
   "not call tools — just answer directly.").toList

def READ_TOOLS : List String :=
  ["read_file", "list_dir", "web_search", "web_fetch", "web_extract", "tool_search", "tool_describe"]

def READ_ACTIONS : List (String × List String) :=
  [("knowledge_graph", ["query", "search", "timeline", "stats"]),
   ("artifact", ["get", "list", "export", "get_versions"])]

def toolClass (name : String) (arguments : Arguments) : String :=
  if name ∈ READ_TOOLS then "read"
  else if arguments.action ∈ (READ_ACTIONS.lookup name).getD [] then "read"
  else if name = "write_file" then "write"
  else if name = "exec" then "exec"
  else if name = "agent_message" then "message"
  else "change"

structure OpenCall where
  id : String
  name : String
  arguments : Arguments := {}
  started : Bool := false
  effective : String := ""
  kind : String := ""
  stopped : Bool := false

/-- A message of the main agent, or with `task` its batch and origin a task. -/
structure MailEntry where
  id : String
  text : Text
  task : Option (String × String) := none

structure Note where
  text : Text
  task : Bool := false

structure Extra where
  kind : Option String := none
  author : Option String := none
  status : Option String := none
  noteKind : Option String := none
  displayHidden : Bool := false

structure Row where
  message : Message
  extra : Extra

structure Grace where
  reason : String
  hitMaxIter : Bool
  preserved : Option Text
  status : String
  errorCode : Option String

structure Final where
  status : String
  error : Option Text
  errorCode : Option String
  result : Text

structure ChildState where
  messages : List Message
  maxIterations : Int
  iteration : Nat := 0
  modelUsedArtifact : Bool := false
  repetition : RepetitionGuard := {}
  stalled : Bool := false
  searchSets : SearchSets := []
  awaitingModel : Bool := false
  grace : Option Grace := none
  final : Option Final := none
  openCalls : List OpenCall := []
  unreadMail : List MailEntry := []
  suspended : Bool := false
  resumes : Nat := 0
  systemPrompt : Text := []
  firstMessage : Text := []
  journal : List Row := []
  baseCount : Nat := 0
  baseDigest : String := ""
  summarized : Bool := false
  baseMismatch : Bool := false
  startedCalls : List String := []

structure ResumeRefusal where
  reason : String
  detail : String := ""

def NOT_RUN_TEXT : Text :=
  ("Not run: Flowly restarted before this call started. Nothing was done; " ++
   "call it again if you still need it.").toList

def interruptedText (call : OpenCall) : String :=
  let effective := if call.effective = "" then call.name else call.effective
  let kind := if call.kind = "" then toolClass effective call.arguments else call.kind
  let path := if call.arguments.path = "" then "the file" else call.arguments.path
  if kind = "read" then
    "Interrupted: Flowly restarted while this was running and its result was lost. " ++
    "It changes nothing; call it again if you still need it."
  else if kind = "write" then
    "Interrupted: Flowly restarted while this was writing " ++ path ++ ". The file may be " ++
    "complete, partial or unchanged; read it before relying on it."
  else if kind = "exec" then
    if call.stopped then
      "Interrupted: this command was started before Flowly restarted and was stopped " ++
      "when Flowly shut down. It may have finished or been cut off part-way; check its " ++
      "effects (files, processes) before relying on it or running it again."
    else
      "Interrupted: this command was started before Flowly restarted. It may have " ++
      "finished, been cut off, or still be running (it runs in its own session); check " ++
      "its effects (files, processes) before relying on it or running it again."
  else if kind = "message" then
    "Interrupted: Flowly restarted while this ran. Your message may not have reached " ++
    "the main agent, and no reply reached this call; a reply that arrives reaches you " ++
    "as a message from the main agent."
  else
    "Interrupted: Flowly restarted while this was running. It may or may not have taken " ++
    "effect; check the current state before doing it again, since doing it twice may " ++
    "duplicate it."

/-- The status and text answering a call a restart left without a result. -/
def interruptedResult (call : OpenCall) : String × Text :=
  if !call.started then ("not_run", NOT_RUN_TEXT) else ("interrupted", (interruptedText call).toList)

theorem interruptedResult_status (call : OpenCall) : (interruptedResult call).1 ≠ "" := by
  by_cases h : (!call.started) = true
  · rw [interruptedResult, if_pos h]
    show "not_run" ≠ ""
    decide
  · rw [interruptedResult, if_neg h]
    show "interrupted" ≠ ""
    decide

/-! ## What is done to it, live and in a replay -/

def MESSAGE_LABEL : Text := "[Message from the main agent]".toList
def ADDED_TASK_LABEL : Text := "[Another task from the main agent]".toList

def mainAgentNote (text : Text) (task : Bool) : Message :=
  { role := .user, content := some (.str ((if task then ADDED_TASK_LABEL else MESSAGE_LABEL) ++ ['\n'] ++ text)) }

def appendMessage (state : ChildState) (message : Message) (extra : Extra := {}) : ChildState :=
  { state with messages := state.messages ++ [message], journal := state.journal ++ [⟨message, extra⟩] }

def noteExtra (note : Note) : Extra :=
  { kind := some "agent_note", author := some "main_agent", noteKind := if note.task then some "task" else none }

def appendNote (state : ChildState) (note : Note) : ChildState :=
  appendMessage state (mainAgentNote note.text note.task) (noteExtra note)

def applyStep (state : ChildState) (iteration : Nat) (notes : List Note) (strip : List (Int × Int)) : ChildState :=
  let state := notes.foldl appendNote { state with iteration := iteration }
  { state with
    messages := strip.foldl (fun messages pass => stripOldToolResults messages pass.1 pass.2) state.messages
    awaitingModel := true }

def applyMicrocompact (state : ChildState) (keepRecentFull truncateChars : Int) : ChildState :=
  { state with messages := microcompactToolResults state.messages keepRecentFull truncateChars }

def applyCompacted (state : ChildState) (messages : List Message) (summarized : Bool := false) : ChildState :=
  { state with messages := messages, summarized := state.summarized || summarized }

/-- What the guard saw of a result: the tool, and whether it was a repeat. -/
structure Guard where
  tool : String
  repeated : Bool

def rawResult (guard : Guard) (content : Text) : Text :=
  let mark := markRepeated guard.tool []
  if guard.repeated && mark.isPrefixOf content then content.drop mark.length else content

def observeToolResult (o : Outside) (state : ChildState) (guard : Option Guard) (content : Text) (search : Bool) :
    ChildState :=
  let state := if search then { state with searchSets := (o.annotate content state.searchSets).2 } else state
  match guard with
  | none => state
  | some guard =>
    let (repeated, repetition) := state.repetition.observe o guard.tool (rawResult guard content)
    let state := { state with repetition := repetition }
    if repeated then { state with stalled := repetition.stalled } else state

def gracePrompt : Message := { role := .user, content := some (.str GRACE_PROMPT) }

def textMessage (content : Text) : Message := { role := .assistant, content := some (.str content) }

def toolMessage (callId protocolName : String) (content : Text) : Message :=
  { role := .tool, toolCallId := some callId, name := some protocolName, content := some (.str content) }

theorem markRepeated_append (tool : String) (content : Text) : markRepeated tool content = markRepeated tool [] ++ content := by
  unfold markRepeated
  rw [List.append_nil]

/-- The mark of a repeat comes off again. -/
theorem rawResult_marked (tool : String) (repeated : Bool) (raw : Text) :
    rawResult ⟨tool, repeated⟩ (if repeated then markRepeated tool raw else raw) = raw := by
  cases repeated with
  | false => rfl
  | true =>
    rw [if_pos rfl, markRepeated_append tool raw]
    unfold rawResult
    generalize markRepeated tool [] = mark
    have hmark : mark.isPrefixOf (mark ++ raw) = true := List.isPrefixOf_iff_prefix.mpr (List.prefix_append mark raw)
    simp only [hmark, Bool.and_self, if_true, List.drop_left]

/-! ## The lines -/

structure ToolLine where
  callId : String
  protocolName : String
  content : Text
  status : String := "ok"
  guard : Option Guard := none
  search : Bool := false

structure Header where
  systemPrompt : Text
  firstMessage : Text
  maxIterations : Int
  baseCount : Int := 0
  baseDigest : String := ""

inductive Line where
  | header (h : Header)
  | mail (entry : MailEntry)
  | step (iteration : Nat) (notes : List Note) (mail : List String) (strip : List (Int × Int))
  | microcompact (keepRecentFull truncateChars : Int)
  | compacted (summarized : Bool) (messages : List Message)
  | model (message : Message)
  | text (content : Text)
  | toolStart (callId name toolClass : String)
  | tool (t : ToolLine)
  | inbox (callId : String) (ids : List String)
  | phase (grace : Grace)
  | final (f : Final)
  | suspended
  | resumed
  | other (kind : String)
  | unreadable (fault : String)

def Line.readable : Line → Bool
  | .unreadable _ => false
  | _ => true

def Line.isFinal : Line → Bool
  | .final _ => true
  | _ => false

structure Record where
  v : Nat := CHECKPOINT_VERSION
  line : Line

/-! ## The replay -/

/-- What `restore_child_state` carries from line to line. -/
structure Replay where
  state : ChildState
  mail : List (String × MailEntry) := []
  consumed : List String := []
  replyReads : List (String × List String) := []
  answered : List String := []
  calls : List (String × OpenCall) := []

def openCallOf (o : Outside) (call : ToolCall) : OpenCall :=
  { id := call.id, name := call.name, arguments := o.arguments call.arguments }

def callsOf (o : Outside) (message : Message) : List (String × OpenCall) :=
  message.toolCalls.foldl (fun calls call => dictSet calls call.id (openCallOf o call)) []

/-- `call` once its `tool_start` line is read. -/
def OpenCall.start (call : OpenCall) (name toolClass : String) : OpenCall :=
  let effective := if name = "" then call.name else name
  { call with
    started := true
    effective := effective
    kind := if toolClass = "" then Agent.toolClass effective call.arguments else toolClass }

def replayLine (o : Outside) (r : Replay) : Line → Replay
  | .mail entry => { r with mail := dictSet r.mail entry.id entry }
  | .step iteration notes mail strip =>
    { r with state := applyStep r.state iteration notes strip, consumed := r.consumed ++ mail, calls := [] }
  | .microcompact keepRecentFull truncateChars =>
    { r with state := applyMicrocompact r.state keepRecentFull truncateChars }
  | .compacted summarized messages => { r with state := applyCompacted r.state messages summarized }
  | .model message =>
    { r with state := { appendMessage r.state message with awaitingModel := false }, calls := callsOf o message }
  | .text content => { r with state := { appendMessage r.state (textMessage content) with awaitingModel := false } }
  | .toolStart callId name toolClass =>
    { r with
      state := { r.state with
        startedCalls := r.state.startedCalls.insert callId
        modelUsedArtifact := r.state.modelUsedArtifact || name = "artifact" }
      calls := r.calls.map fun e => if e.1 = callId then (e.1, e.2.start name toolClass) else e }
  | .tool t =>
    let status := if t.status = "" then "ok" else t.status
    let state := appendMessage r.state (toolMessage t.callId t.protocolName t.content) { status := some status }
    { r with
      state := observeToolResult o state t.guard t.content t.search
      answered := if t.status ∈ ["interrupted", "not_run"] then r.answered else r.answered ++ [t.callId]
      calls := dictPop r.calls t.callId }
  | .inbox callId ids =>
    { r with replyReads := dictSet r.replyReads callId ((r.replyReads.lookup callId).getD [] ++ ids) }
  | .phase grace =>
    { r with state := { appendMessage r.state gracePrompt { displayHidden := true } with
        grace := some grace, awaitingModel := false } }
  | .final f => { r with state := { r.state with final := some f } }
  | .suspended =>
    { r with
      state := { r.state with suspended := true }
      calls := r.calls.map fun e => if e.2.started then (e.1, { e.2 with stopped := true }) else e }
  | .resumed => { r with state := { r.state with resumes := r.state.resumes + 1, suspended := false } }
  | .header _ | .other _ | .unreadable _ => r

def replayLines (o : Outside) : Replay → List Line → Except String Replay
  | r, [] => .ok r
  | _, .unreadable fault :: _ => .error fault
  | r, line :: lines => replayLines o (replayLine o r line) lines

def Replay.finish (r : Replay) : ChildState :=
  let read := (r.replyReads.filter fun e => e.1 ∈ r.answered).flatMap (·.2)
  { r.state with
    unreadMail := (r.mail.filter fun e => e.1 ∉ r.consumed ++ read).map (·.2)
    openCalls := r.calls.map (·.2) }

/-- The history a turn started from is gone from `base`, or changed. -/
def Header.mismatch (o : Outside) (h : Header) (base : List Message) : Bool :=
  let front := base.take h.baseCount.toNat
  decide (h.baseCount ≠ 0) && (decide (front.length < h.baseCount.toNat) || historyDigest o front != h.baseDigest)

/-- The state a header starts from `history`. -/
def Header.start (h : Header) (history : List Message) (mismatch : Bool) : ChildState :=
  { messages := { role := .system, content := some (.str h.systemPrompt) } :: history ++
      [{ role := .user, content := some (.str h.firstMessage) }]
    maxIterations := max 1 h.maxIterations
    systemPrompt := h.systemPrompt
    firstMessage := h.firstMessage
    baseCount := h.baseCount.toNat
    baseDigest := h.baseDigest
    baseMismatch := mismatch }

def unreadableVersions (records : List Record) : String :=
  ",".intercalate (((records.map fun r => toString r.v).dedup).mergeSort (· ≤ ·))

def corrupt (fault : String) : ResumeRefusal := { reason := "corrupt", detail := fault }

def restoreChildState (o : Outside) (base : List Message) : List Record → Except ResumeRefusal ChildState
  | [] => .error { reason := "missing" }
  | first :: rest =>
    if (first :: rest).any (·.v ∉ READABLE_VERSIONS) then
      .error { reason := "version", detail := unreadableVersions (first :: rest) }
    else match first.line with
    | .header h =>
      let mismatch := h.mismatch o base
      if h.baseCount < 0 then .error (corrupt "ValueError")
      else if mismatch && !(rest.any (·.line.isFinal)) then
        .error { reason := "base", detail := "the thread's history changed" }
      else
        let history := if mismatch then [] else base.take h.baseCount.toNat
        match replayLines o { state := h.start history mismatch } (rest.map (·.line)) with
        | .ok r => .ok r.finish
        | .error fault => .error (corrupt fault)
    | _ => .error (corrupt "no header")

/-! ## What a line means -/

structure View where
  messages : List Message
  journal : List Row := []
  iteration : Nat := 0
  repetition : RepetitionGuard := {}
  stalled : Bool := false
  searchSets : SearchSets := []

def ChildState.view (s : ChildState) : View :=
  { messages := s.messages, journal := s.journal, iteration := s.iteration, repetition := s.repetition,
    stalled := s.stalled, searchSets := s.searchSets }

namespace View

def append (v : View) (message : Message) (extra : Extra := {}) : View :=
  { v with messages := v.messages ++ [message], journal := v.journal ++ [⟨message, extra⟩] }

def note (v : View) (note : Note) : View := v.append (mainAgentNote note.text note.task) (noteExtra note)

def cut (v : View) (f : List Message → List Message) : View := { v with messages := f v.messages }

def searched (o : Outside) (v : View) (content : Text) : View :=
  { v with searchSets := (o.annotate content v.searchSets).2 }

/-- The guard sees `raw`; the run is stalled by a repeat, and stays so. -/
def observed (o : Outside) (v : View) (tool : String) (raw : Text) : View :=
  let seen := v.repetition.observe o tool raw
  { v with repetition := seen.2, stalled := if seen.1 then seen.2.stalled else v.stalled }

def apply (o : Outside) (v : View) : Line → View
  | .step iteration notes _ strip =>
    (notes.foldl note { v with iteration := iteration }).cut
      (strip.foldl (fun messages pass => stripOldToolResults messages pass.1 pass.2))
  | .microcompact keepRecentFull truncateChars => v.cut (microcompactToolResults · keepRecentFull truncateChars)
  | .compacted _ messages => v.cut fun _ => messages
  | .model message => v.append message
  | .text content => v.append (textMessage content)
  | .tool t =>
    let v := v.append (toolMessage t.callId t.protocolName t.content)
      { status := some (if t.status = "" then "ok" else t.status) }
    let v := if t.search then v.searched o t.content else v
    match t.guard with
    | none => v
    | some guard => v.observed o guard.tool (rawResult guard t.content)
  | .phase _ => v.append gracePrompt { displayHidden := true }
  | _ => v

end View

@[simp] theorem appendMessage_view (s : ChildState) (message : Message) (extra : Extra) :
    (appendMessage s message extra).view = s.view.append message extra := rfl

theorem appendNote_foldl_view (notes : List Note) : ∀ s : ChildState,
    (notes.foldl appendNote s).view = notes.foldl View.note s.view := by
  induction notes with
  | nil => intro s; rfl
  | cons note notes ih => intro s; exact ih _

@[simp] theorem applyStep_view (s : ChildState) (iteration : Nat) (notes : List Note) (strip : List (Int × Int)) :
    (applyStep s iteration notes strip).view = (notes.foldl View.note { s.view with iteration := iteration }).cut
      (strip.foldl (fun messages pass => stripOldToolResults messages pass.1 pass.2)) := by
  have h := appendNote_foldl_view notes { s with iteration := iteration }
  rw [show ({ s with iteration := iteration } : ChildState).view = { s.view with iteration := iteration } from rfl] at h
  rw [← h]
  rfl

theorem observeToolResult_view (o : Outside) (s : ChildState) (guard : Option Guard) (content : Text) (search : Bool) :
    (observeToolResult o s guard content search).view =
      let v := if search then s.view.searched o content else s.view
      match guard with
      | none => v
      | some guard => v.observed o guard.tool (rawResult guard content) := by
  have hsearch : (if search then { s with searchSets := (o.annotate content s.searchSets).2 } else s).view =
      if search then s.view.searched o content else s.view := by
    by_cases h : search = true
    · rw [if_pos h, if_pos h]
      rfl
    · rw [if_neg h, if_neg h]
  unfold observeToolResult
  generalize (if search then { s with searchSets := (o.annotate content s.searchSets).2 } else s) = t at hsearch ⊢
  simp only [← hsearch]
  cases guard with
  | none => rfl
  | some guard =>
    simp only [View.observed]
    by_cases h : (t.repetition.observe o guard.tool (rawResult guard content)).1 = true
    · simp only [h, if_true]
      simp [ChildState.view, h]
    · simp [ChildState.view, h]

/-- The replayer goes by what a line means. -/
theorem replayLine_view (o : Outside) (r : Replay) (line : Line) :
    (replayLine o r line).state.view = r.state.view.apply o line := by
  cases line with
  | step iteration notes mail strip => exact applyStep_view ..
  | tool t => exact observeToolResult_view ..
  | _ => rfl

theorem replayLines_ok (o : Outside) : ∀ (lines : List Line) (r : Replay), (∀ line ∈ lines, line.readable = true) →
    replayLines o r lines = .ok (lines.foldl (replayLine o) r) := by
  intro lines
  induction lines with
  | nil => intro r _; rfl
  | cons line lines ih =>
    intro r h
    have hline := h line List.mem_cons_self
    cases line with
    | unreadable fault => cases hline
    | _ => exact ih _ fun x hx => h x (List.mem_cons_of_mem _ hx)

/-- The header of a turn that starts from `history`. -/
structure Header.Of (o : Outside) (h : Header) (history : List Message) : Prop where
  count : h.baseCount = history.length
  digest : history ≠ [] → h.baseDigest = historyDigest o history

theorem Header.Of.front {o : Outside} {h : Header} {history : List Message} (hh : h.Of o history) :
    history.take h.baseCount.toNat = history := by
  rw [hh.count, Int.toNat_natCast, List.take_length]

theorem Header.Of.mismatch {o : Outside} {h : Header} {history : List Message} (hh : h.Of o history) :
    h.mismatch o history = false := by
  unfold Header.mismatch
  rw [hh.front]
  by_cases hnil : history = []
  · simp [hh.count, hnil]
  · simp [hh.digest hnil, hh.count]

/-- A checkpoint that starts from `history` is restored to the view its lines give. -/
theorem restoreChildState_view {o : Outside} {h : Header} {history : List Message} (hh : h.Of o history)
    {lines : List Line} (hread : ∀ line ∈ lines, line.readable = true) :
    ∃ s, restoreChildState o history ((Line.header h :: lines).map fun line => { line := line }) = .ok s ∧
      s.view = lines.foldl (View.apply o) (h.start history false).view := by
  have hneg : ¬ h.baseCount < 0 := by
    have := hh.count
    omega
  have hversion : (((Line.header h :: lines).map fun line => ({ line := line } : Record)).any
      (·.v ∉ READABLE_VERSIONS)) = false := by
    simp [READABLE_VERSIONS]
  have hlines : ((lines.map fun line => ({ line := line } : Record)).map (·.line)) = lines := by
    simp [Function.comp_def]
  refine ⟨(lines.foldl (replayLine o) { state := h.start history false }).finish, ?_, ?_⟩
  · rw [List.map_cons] at hversion ⊢
    simp only [restoreChildState, hversion, hneg, hh.mismatch, hh.front, hlines, replayLines_ok o lines _ hread,
      Bool.false_eq_true, Bool.false_and, if_false]
  · exact Replay.view_foldl (fun r : Replay => r.state.view) (replayLine_view o) lines _

end Flowly.Agent
