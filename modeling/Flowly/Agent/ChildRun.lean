/-
  Flowly.Agent.ChildRun — the live loop of a subagent, and the checkpoint it writes
  (`flowly/agent/subagent.py`: `_child_run`, `_call_model`, `_fit_request`,
  `_answer_tool`, `_log`, `_resume`).

  `Place` is where the loop waits for something from outside, and an `Event` what comes:
  a fitted request, a reply, a tool's result, a message of the main agent, an append
  that fails, a shutdown, a crash, a restart. What happens until the next wait is one
  step; an event the loop does not wait for changes nothing.

  Whatever changes what the model sees is followed by its line, so the view of the live
  state is always what the lines give (`Kept`), and `restoreChildState` of any part of a
  checkpoint is the live state as it was after that part's last line, in any run
  (`restore_rebuilds_live_state`), also one that went through restarts, each of which
  read what was left of the lines.
-/

import Flowly.Agent.Checkpoint

namespace Flowly.Agent

open Flowly.Lib
open Flowly.Compaction (Role)

/-! ## What comes from outside -/

inductive Category where
  | rateLimit
  | contextOverflow
  | inputTooLarge
  | auth
  | insufficientCredits
  | imageInputUnsupported
  | transient
  deriving DecidableEq

def Category.value : Category → String
  | .rateLimit => "rate_limit"
  | .contextOverflow => "context_overflow"
  | .inputTooLarge => "input_too_large"
  | .auth => "auth"
  | .insufficientCredits => "insufficient_credits"
  | .imageInputUnsupported => "image_input_unsupported"
  | .transient => "transient"

/-- `backoff_for` names a delay. -/
def Category.retryable : Category → Bool
  | .rateLimit | .transient => true
  | _ => false

/-- What a run ends with on an error of a category that is not retried. -/
def Category.terminal : Category → Text
  | .contextOverflow =>
    ("Error: Context overflow — task too large for the model's window. Retry with a smaller scope.").toList
  | .inputTooLarge =>
    ("Error: The provider input limit was exceeded. Retry with fewer large inputs or a smaller scope.").toList
  | .auth => "Error: Authentication failed. Check the provider API key.".toList
  | .insufficientCredits =>
    ("Error: Out of credits. Your Flowly usage credits are exhausted — top up or upgrade your plan to continue.").toList
  | .imageInputUnsupported =>
    "Error: This model can't read images. Choose a vision-capable model or remove the image.".toList
  | .rateLimit | .transient => "Error: The model provider couldn't respond.".toList

/-- A model's reply; `error` is the category of one whose finish reason is "error". -/
structure Reply where
  content : Option Text := none
  toolCalls : List ToolCall := []
  error : Option Category := none
  deriving DecidableEq

/-- `RequestFit`; `summarized` is `compaction is not None`. -/
structure RequestFit where
  messages : List Message
  fits : Bool
  changed : Bool := false
  summarized : Bool := false
  retryable : Bool := false

structure Disclosure where
  search : Text := []
  describe : Text := []
  /-- `resolve_call`: an error text, or the tool and its arguments. -/
  resolve : Except Text (String × Arguments) := .error []
  directNames : List String := []

inductive Outcome where
  | result (text : Text)
  | timeout
  | raised (error : Text)

/-- A fresh turn of a thread: the history it starts from, and its own first messages. -/
structure Turn where
  systemPrompt : Text
  history : List Message
  firstMessage : Text
  maxIterations : Int

/-! ## The loop -/

inductive Purpose where
  | step
  | summary
  deriving DecidableEq

inductive Place where
  /-- The test of the `while`. -/
  | top
  /-- The request is being fitted: for the first time, or harder after a rejection. -/
  | fitting (p : Purpose) (rejected : Option Reply)
  /-- The model was called; `again` after a rejection. -/
  | called (p : Purpose) (again : Bool)
  /-- The calls of the reply that are left. -/
  | calls (rest : List ToolCall)
  | running (call : ToolCall) (effective : String) (rest : List ToolCall)
  /-- The result is in the checkpoint, not yet in the registry. -/
  | finished
  /-- No process runs it; a restart may continue it. -/
  | down
  | ended
  deriving DecidableEq

structure Loop where
  place : Place := .top
  state : ChildState
  /-- `_consecutive_errors`. -/
  errors : Nat := 0
  /-- `tool_trace` has an entry. -/
  traced : Bool := false
  inbox : List MailEntry := []
  /-- The run has its checkpoint. -/
  writing : Bool := true
  /-- The lines appended. Ghost: each with the state right after it was. -/
  trail : List (Line × ChildState) := []

namespace Loop

def lines (l : Loop) : List Line := l.trail.map (·.1)

/-- The checkpoint as `read_checkpoint` gives it back. -/
def records (l : Loop) : List Record := l.lines.map fun line => { line := line }

def log (l : Loop) (line : Line) : Loop :=
  if l.writing then { l with trail := l.trail ++ [(line, l.state)] } else l

def write (l : Loop) (state : ChildState) (line : Line) : Loop := { l with state := state }.log line

def answerTool (l : Loop) (callId protocolName : String) (content : Text) (status : String := "ok")
    (guard : Option Guard := none) (search : Bool := false) : Loop :=
  l.write (appendMessage l.state (toolMessage callId protocolName content) { status := some status })
    (.tool { callId := callId, protocolName := protocolName, content := content, status := status,
             guard := guard, search := search })

/-! ### Fitting a request -/

def requestFingerprint (o : Outside) (messages : List Message) : String := o.messagesDigest messages

def fitRequest (l : Loop) (f : RequestFit) (keepRecentFull truncateChars : Int) : Loop :=
  if f.fits && f.changed then
    if !f.summarized && microcompactToolResults l.state.messages keepRecentFull truncateChars == f.messages then
      l.write (applyMicrocompact l.state keepRecentFull truncateChars) (.microcompact keepRecentFull truncateChars)
    else
      l.write (applyCompacted l.state f.messages f.summarized) (.compacted f.summarized f.messages)
  else l

def unfitResponse (f : RequestFit) : Reply :=
  if f.retryable then
    { content := some "Error: compacting the run's context failed.".toList, error := some .transient }
  else
    { content := some "Error calling LLM: request input is too large after compaction".toList,
      error := some .inputTooLarge }

/-! ### Leaving the loop -/

def NO_RESULT : Text := "Task completed but no final response was generated.".toList
def TASK_FAILED : Text := "Error: Task failed".toList

/-- `_child_run` returns, and `_run_subagent` writes the result. -/
def finish (l : Loop) (result : Option Text) (status : String) (error : Option Text) (errorCode : Option String) : Loop :=
  let result := match result with
    | some t => if t = [] then NO_RESULT else t
    | none => NO_RESULT
  let failed := decide (status = "error") || TASK_FAILED.isPrefixOf result
  let final : Final :=
    { status := if failed then "error" else status, error := if failed then some result else error,
      errorCode := errorCode, result := result }
  { l.log (.final final) with place := .finished }

def limitReached (l : Loop) : Bool := (l.state.iteration : Int) ≥ l.state.maxIterations

/-- What follows the `while`: the summary is asked for, or the result stands. -/
def leave (l : Loop) (result : Option Text) (status : String) (error : Option Text) (errorCode : Option String) : Loop :=
  if l.state.grace.isSome then { l with place := .fitting .summary none }
  else
    let hitMaxIter := result.isNone && (l.limitReached || l.state.stalled)
    let hitLlmErrors := (result.map TASK_FAILED.isPrefixOf).getD false && l.traced
    if hitMaxIter || hitLlmErrors then
      let reason :=
        if hitMaxIter then (if l.state.stalled then "repeating itself" else "max iterations") else "LLM errors exhausted"
      let grace : Grace :=
        { reason := reason, hitMaxIter := hitMaxIter, preserved := result, status := status, errorCode := errorCode }
      { l.write { appendMessage l.state gracePrompt { displayHidden := true } with grace := some grace } (.phase grace) with
        place := .fitting .summary none }
    else l.finish result status error errorCode

/-! ### A reply -/

def MAX_CONSECUTIVE_ERRORS : Nat := 3

def handleReply (l : Loop) (r : Reply) : Loop :=
  let l := { l with state := { l.state with awaitingModel := false } }
  if r.toolCalls ≠ [] then
    let assistant : Message :=
      { role := .assistant, content := some (.str (r.content.getD [])), toolCalls := r.toolCalls }
    { l.write (appendMessage l.state assistant) (.model assistant) with errors := 0, place := .calls r.toolCalls }
  else match r.error with
  | some category =>
    let l := { l with errors := l.errors + 1 }
    if !category.retryable then
      l.leave (some category.terminal) "error" (some category.terminal) (some category.value)
    else if l.errors ≤ MAX_CONSECUTIVE_ERRORS && !l.limitReached then { l with place := .top }
    else
      let failed := TASK_FAILED ++ (" after " ++ toString l.errors ++ " consecutive LLM errors.").toList
      l.leave (some failed) "error" (some failed) (some category.value)
  | none =>
    let content := r.content.getD []
    if !Text.hasText content then
      if !l.limitReached then { l with place := .top }
      else
        let empty := "Task produced no output.".toList
        l.leave (some empty) "error" (some empty) (some "empty_response")
    else if !l.inbox.isEmpty && !l.limitReached then
      { l.write (appendMessage l.state (textMessage content)) (.text content) with errors := 0, place := .top }
    else { l with errors := 0 }.leave (some content) "ok" none none

/-- The result when the summary brings none; `why` ends the text of a run at its limit. -/
def withoutSummary (l : Loop) (g : Grace) (why : String) : Loop :=
  if g.hitMaxIter then
    l.finish (some ("Reached the iteration limit (" ++ toString l.state.maxIterations ++ ") " ++ why).toList)
      "error" g.preserved (some "summary_failed")
  else
    match g.preserved with
    | some preserved => l.finish (some preserved) (if g.status = "" then "error" else g.status) (some preserved) g.errorCode
    | none => l.finish none "ok" none none

def handleSummary (l : Loop) (r : Reply) : Loop :=
  match l.state.grace with
  | none => l
  | some g =>
    if r.error.isNone && Text.hasText (r.content.getD []) then l.finish r.content "ok" none none
    else l.withoutSummary g "but the summary response was empty."

def answer (l : Loop) : Purpose → Reply → Loop
  | .step, r => l.handleReply r
  | .summary, r => l.handleSummary r

/-- `_call_model` after the fitting. -/
def afterFit (o : Outside) (l : Loop) (p : Purpose) (rejected : Option Reply) (f : RequestFit)
    (keepRecentFull truncateChars : Int) : Loop :=
  let fitted := l.fitRequest f keepRecentFull truncateChars
  match rejected with
  | none => if f.fits then { fitted with place := .called p false } else fitted.answer p (unfitResponse f)
  | some reply =>
    if !f.fits || requestFingerprint o fitted.state.messages == requestFingerprint o l.state.messages then
      fitted.answer p reply
    else { fitted with place := .called p true }

/-- `_call_model` after the call. -/
def afterCall (l : Loop) (p : Purpose) (again : Bool) (r : Reply) : Loop :=
  if !again && (r.error == some .contextOverflow || r.error == some .inputTooLarge) then
    { l with place := .fitting p (some r) }
  else l.answer p r

/-! ### The calls of a reply -/

def startTool (l : Loop) (call : ToolCall) (effective : String) (arguments : Arguments) (rest : List ToolCall) : Loop :=
  let used := { l.state with modelUsedArtifact := l.state.modelUsedArtifact || effective = "artifact" }
  let l := l.write used (.toolStart call.id effective (toolClass effective arguments))
  { l with
    state := { l.state with startedCalls := l.state.startedCalls.insert call.id }
    traced := true
    place := .running call effective rest }

def unavailable (effective : String) : Text := ("Error: Tool '" ++ effective ++ "' is unavailable.").toList

def nextCall (o : Outside) (l : Loop) (call : ToolCall) (d : Disclosure) (rest : List ToolCall) : Loop :=
  if call.name = "tool_search" then
    let (result, searchSets) := o.annotate d.search l.state.searchSets
    let l := { l with state := { l.state with searchSets := searchSets } }
    { l.answerTool call.id call.name result "ok" none true with place := .calls rest }
  else if call.name = "tool_describe" then
    { l.answerTool call.id call.name d.describe with place := .calls rest }
  else if call.name = "tool_call" then
    match d.resolve with
    | .error resolved => { l.answerTool call.id call.name resolved "error" with place := .calls rest }
    | .ok (effective, arguments) => l.startTool call effective arguments rest
  else if call.name ∉ d.directNames then
    { l.answerTool call.id call.name (unavailable call.name) "error" with place := .calls rest }
  else l.startTool call call.name (o.arguments call.arguments) rest

def outcomeText (effective : String) : Outcome → String × Text
  | .result text => (if "Error".toList.isPrefixOf text then "error" else "ok", text)
  | .timeout => ("timeout", ("Error: Tool '" ++ effective ++ "' timed out after 120s").toList)
  | .raised error => ("error", ("Error executing " ++ effective ++ ": ").toList ++ error)

/-- The tool ended; `cap` is what `_cap_tool_result` does to its text. -/
def toolEnded (o : Outside) (l : Loop) (call : ToolCall) (effective : String) (outcome : Outcome) (cap : Text → Text)
    (rest : List ToolCall) : Loop :=
  let (status, text) := outcomeText effective outcome
  let result := cap text
  let (repeated, repetition) := l.state.repetition.observe o effective result
  let l := { l with state := { l.state with
    repetition := repetition, stalled := if repeated then repetition.stalled else l.state.stalled } }
  let result := if repeated then markRepeated effective result else result
  { l.answerTool call.id call.name result status (some ⟨effective, repeated⟩) with place := .calls rest }

/-! ### Steps and restarts -/

/-- The `while` goes round: a step begins, unless one that began waits for its reply. -/
def round (l : Loop) : Loop :=
  if l.state.grace.isSome then l.leave none "ok" none none
  else if l.state.awaitingModel then { l with place := .fitting .step none }
  else if l.limitReached || l.state.stalled then l.leave none "ok" none none
  else
    let iteration := l.state.iteration + 1
    let strip := iterationStripPasses iteration
    let notes := l.inbox.map fun m => ({ text := m.text, task := m.task.isSome } : Note)
    { l.write (applyStep l.state iteration notes strip) (.step iteration notes (l.inbox.map (·.id)) strip) with
      inbox := [], place := .fitting .step none }

def takeInbox (l : Loop) (call : ToolCall) : Loop :=
  if l.inbox.isEmpty then l else { l.log (.inbox call.id (l.inbox.map (·.id))) with inbox := [] }

def answerOpenCall (l : Loop) (call : OpenCall) : Loop :=
  l.answerTool call.id call.name (interruptedResult call).2 (interruptedResult call).1

/-- `_resume`: the calls left without a result are answered. -/
def reconcile (l : Loop) (restored : ChildState) : Loop :=
  let l := restored.openCalls.foldl answerOpenCall { l with state := restored }
  { l with state := { l.state with openCalls := [] } }.log .resumed

/-- The rest of `_resume`, and the start of the `_child_run` that continues. -/
def resume (l : Loop) (restored : ChildState) : Loop :=
  let l := l.reconcile restored
  let l := { l with state := { l.state with suspended := false }, inbox := restored.unreadMail, errors := 0 }
  match restored.final with
  | some f => l.finish (some f.result) f.status f.error f.errorCode
  | none => { l with place := .top }

/-- A new process reads what is left of the lines: the header, and `kept` more. -/
def restart (o : Outside) (t : Turn) (l : Loop) (kept : Nat) : Loop :=
  let l := { l with trail := l.trail.take (kept + 1) }
  match restoreChildState o t.history l.records with
  | .ok restored => l.resume restored
  | .error _ => { l with place := .ended, writing := false }

end Loop

inductive Event where
  /-- The loop goes on by itself. -/
  | go
  /-- The coordinator fitted the request; the cut is configured so. -/
  | fit (f : RequestFit) (keepRecentFull truncateChars : Int)
  | reply (r : Reply)
  /-- The summary call raised. -/
  | summaryRaised
  | call (d : Disclosure)
  | readInbox
  | toolEnded (outcome : Outcome) (cap : Text → Text)
  /-- The main agent sends a message or a task. -/
  | mail (entry : MailEntry)
  /-- An append failed: the checkpoint is dropped, the run goes on. -/
  | appendFailed
  /-- A clean shutdown. -/
  | suspend
  | crash
  /-- Lines that were not synced may be gone. -/
  | restart (kept : Nat)
  /-- The run ends without a result. -/
  | fail
  /-- The registry has the result: the checkpoint goes. -/
  | recorded

namespace Turn

def header (o : Outside) (t : Turn) : Header :=
  { systemPrompt := t.systemPrompt, firstMessage := t.firstMessage, maxIterations := t.maxIterations
    baseCount := t.history.length
    baseDigest := if t.history = [] then "" else historyDigest o t.history }

/-- The state of a fresh run. -/
def start (o : Outside) (t : Turn) : ChildState :=
  { messages := { role := .system, content := some (.str t.systemPrompt) } :: t.history ++
      [{ role := .user, content := some (.str t.firstMessage) }]
    maxIterations := t.maxIterations
    systemPrompt := t.systemPrompt
    firstMessage := t.firstMessage
    baseCount := t.history.length
    baseDigest := if t.history = [] then "" else historyDigest o t.history }

end Turn

namespace Loop

def start (o : Outside) (t : Turn) : Loop := ({ state := t.start o } : Loop).log (.header (t.header o))

def live (l : Loop) : Bool := l.place ≠ .down && l.place ≠ .ended

def next (o : Outside) (t : Turn) (l : Loop) : Event → Loop
  | .go =>
    match l.place with
    | .top => l.round
    | .calls [] => { l with place := .top }
    | _ => l
  | .fit f keepRecentFull truncateChars =>
    match l.place with
    | .fitting p rejected => l.afterFit o p rejected f keepRecentFull truncateChars
    | _ => l
  | .reply r =>
    match l.place with
    | .called p again => l.afterCall p again r
    | _ => l
  | .summaryRaised =>
    match l.place, l.state.grace with
    | .fitting .summary _, some g | .called .summary _, some g => l.withoutSummary g "and the summary attempt failed."
    | _, _ => l
  | .call d =>
    match l.place with
    | .calls (call :: rest) => l.nextCall o call d rest
    | _ => l
  | .readInbox =>
    match l.place with
    | .running call _ _ => l.takeInbox call
    | _ => l
  | .toolEnded outcome cap =>
    match l.place with
    | .running call effective rest => l.toolEnded o call effective outcome cap rest
    | _ => l
  | .mail entry => if l.live then { l.log (.mail entry) with inbox := l.inbox ++ [entry] } else l
  | .appendFailed => { l with writing := false }
  | .suspend => if l.live && l.place ≠ .finished && l.writing then { l.log .suspended with place := .down } else l
  | .crash => if l.live then { l with place := .down } else l
  | .restart kept => if l.place = .down && l.writing then l.restart o t kept else l
  | .fail => if l.place ≠ .finished then { l with place := .ended, writing := false } else l
  | .recorded => if l.place = .finished then { l with place := .ended, writing := false } else l

/-- The run after some events. -/
def run (o : Outside) (t : Turn) (es : List Event) : Loop := es.foldl (next o t) (start o t)

end Loop

/-! ## Every line is what changed -/

/-- `annotate` leaves the memo the same on an annotated result as on the raw one. -/
def AnnotateStable (o : Outside) : Prop :=
  ∀ result memo, (o.annotate (o.annotate result memo).1 memo).2 = (o.annotate result memo).2

namespace Loop

def viewed (l : Loop) : List (Line × View) := l.trail.map fun e => (e.1, e.2.view)

theorem lines_viewed (l : Loop) : Replay.lines l.viewed = l.lines := by
  simp [Replay.lines, viewed, lines]

structure Kept (o : Outside) (t : Turn) (l : Loop) : Prop where
  head : ∃ rest, l.trail = (.header (t.header o), t.start o) :: rest
  readable : ∀ e ∈ l.trail, e.1.readable = true
  faithful : Replay.Faithful (View.apply o) (t.start o).view l.viewed
  /-- While lines are written, they give the live view. -/
  current : l.writing = true → l.lines.foldl (View.apply o) (t.start o).view = l.state.view

variable {o : Outside} {t : Turn} {l : Loop}

theorem start_kept : Kept o t (start o t) where
  head := ⟨[], rfl⟩
  readable := by
    intro e he
    rw [List.mem_singleton.mp he]
    rfl
  faithful := Replay.Faithful.nil.snoc rfl
  current := fun _ => rfl

/-- A step that writes nothing and changes nothing a line would record. -/
theorem Kept.quiet (h : Kept o t l) {l' : Loop} (ht : l'.trail = l.trail)
    (hv : l'.writing = true → l.writing = true ∧ l'.state.view = l.state.view) : Kept o t l' where
  head := by
    rw [ht]
    exact h.head
  readable := by
    rw [ht]
    exact h.readable
  faithful := by
    rw [viewed, ht]
    exact h.faithful
  current := by
    intro hw
    obtain ⟨hw, hview⟩ := hv hw
    rw [lines, ht, hview]
    exact h.current hw

/-- A change and the line that means it. -/
theorem Kept.write (h : Kept o t l) {state : ChildState} {line : Line} (hr : line.readable = true)
    (hv : state.view = l.state.view.apply o line) : Kept o t (l.write state line) := by
  by_cases hw : l.writing = true
  · have hl : l.write state line = { l with state := state, trail := l.trail ++ [(line, state)] } := by
      rw [Loop.write, log]
      exact if_pos hw
    have hlast : View.apply o (l.lines.foldl (View.apply o) (t.start o).view) line = state.view := by
      rw [h.current hw, hv]
    rw [hl]
    obtain ⟨rest, hrest⟩ := h.head
    refine ⟨⟨rest ++ [(line, state)], by simp [hrest]⟩, ?_, ?_, ?_⟩
    · intro e he
      rcases List.mem_append.mp he with he | he
      · exact h.readable e he
      · rw [List.mem_singleton.mp he]
        exact hr
    · have hsnoc : Replay.Faithful (View.apply o) (t.start o).view (l.viewed ++ [(line, state.view)]) := by
        apply h.faithful.snoc
        rw [lines_viewed]
        exact hlast
      simpa [viewed] using hsnoc
    · intro _
      show ((l.trail ++ [(line, state)]).map (·.1)).foldl (View.apply o) (t.start o).view = state.view
      rw [List.map_append, List.foldl_append]
      exact hlast
  · have hl : l.write state line = { l with state := state } := by
      rw [Loop.write, log]
      exact if_neg hw
    rw [hl]
    exact h.quiet rfl fun hw' => absurd hw' hw

/-- A line that records nothing the model sees. -/
theorem Kept.log (h : Kept o t l) {line : Line} (hr : line.readable = true)
    (hv : l.state.view = l.state.view.apply o line) : Kept o t (l.log line) := h.write hr hv

/-- Where the loop waits, its counters and its inbox are not in a line. -/
theorem Kept.move (h : Kept o t l) (place : Place) (errors : Nat) (traced : Bool) (inbox : List MailEntry) :
    Kept o t { l with place := place, errors := errors, traced := traced, inbox := inbox } :=
  h.quiet rfl fun hw => ⟨hw, rfl⟩

/-- A change to a field of the state no line records. -/
theorem Kept.set (h : Kept o t l) {state : ChildState} (hv : state.view = l.state.view) : Kept o t { l with state := state } :=
  h.quiet rfl fun hw => ⟨hw, hv⟩

theorem Kept.stop (h : Kept o t l) (place : Place) : Kept o t { l with place := place, writing := false } :=
  h.quiet rfl fun hw => nomatch hw

/-- A tool message whose result neither the guard nor the memo saw. -/
theorem Kept.answerTool (h : Kept o t l) (callId protocolName : String) (content : Text) {status : String}
    (hs : status ≠ "") : Kept o t (l.answerTool callId protocolName content status) := by
  refine h.write rfl ?_
  simp only [View.apply, appendMessage_view, Bool.false_eq_true, if_false, if_neg hs]

/-! ### Fitting and leaving -/

theorem Kept.fitRequest (h : Kept o t l) (f : RequestFit) (keep chars : Int) : Kept o t (l.fitRequest f keep chars) := by
  unfold Loop.fitRequest
  by_cases hf : (f.fits && f.changed) = true
  · rw [if_pos hf]
    by_cases hm : (!f.summarized && microcompactToolResults l.state.messages keep chars == f.messages) = true
    · rw [if_pos hm]
      exact h.write rfl rfl
    · rw [if_neg hm]
      exact h.write rfl rfl
  · rw [if_neg hf]
    exact h

theorem Kept.finish (h : Kept o t l) (result : Option Text) (status : String) (error : Option Text)
    (errorCode : Option String) : Kept o t (l.finish result status error errorCode) :=
  Kept.move (h.log rfl rfl) _ _ _ _

theorem Kept.leave (h : Kept o t l) (result : Option Text) (status : String) (error : Option Text)
    (errorCode : Option String) : Kept o t (l.leave result status error errorCode) := by
  unfold Loop.leave
  by_cases hg : l.state.grace.isSome = true
  · rw [if_pos hg]
    exact h.move _ _ _ _
  · rw [if_neg hg]
    by_cases hit : ((result.isNone && (l.limitReached || l.state.stalled)) ||
        ((result.map TASK_FAILED.isPrefixOf).getD false && l.traced)) = true
    · simp only [hit, if_true]
      exact Kept.move (h.write rfl rfl) _ _ _ _
    · simp only [hit, Bool.false_eq_true, if_false]
      exact h.finish _ _ _ _

/-! ### A reply -/

theorem Kept.handleReply (h : Kept o t l) (r : Reply) : Kept o t (l.handleReply r) := by
  unfold Loop.handleReply
  have h : Kept o t { l with state := { l.state with awaitingModel := false } } := h.set rfl
  generalize ({ l with state := { l.state with awaitingModel := false } } : Loop) = l at h ⊢
  by_cases hcalls : r.toolCalls ≠ []
  · simp only [if_pos hcalls]
    exact Kept.move (h.write rfl rfl) _ _ _ _
  simp only [if_neg hcalls]
  cases r.error with
  | some category =>
    have h : Kept o t { l with errors := l.errors + 1 } := h.move _ _ _ _
    by_cases hretry : (!category.retryable) = true
    · simp only [hretry, if_true]
      exact h.leave _ _ _ _
    simp only [hretry, Bool.false_eq_true, if_false]
    split
    · exact h.move _ _ _ _
    · exact h.leave _ _ _ _
  | none =>
    by_cases htext : (!Text.hasText (r.content.getD [])) = true
    · simp only [htext, if_true]
      by_cases hlimit : (!l.limitReached) = true
      · rw [if_pos hlimit]
        exact h.move _ _ _ _
      · rw [if_neg hlimit]
        exact h.leave _ _ _ _
    simp only [htext, Bool.false_eq_true, if_false]
    by_cases hmail : (!l.inbox.isEmpty && !l.limitReached) = true
    · rw [if_pos hmail]
      exact Kept.move (h.write rfl rfl) _ _ _ _
    · rw [if_neg hmail]
      exact (h.move _ _ _ _).leave _ _ _ _

theorem Kept.withoutSummary (h : Kept o t l) (g : Grace) (why : String) : Kept o t (l.withoutSummary g why) := by
  unfold Loop.withoutSummary
  by_cases hhit : g.hitMaxIter = true
  · rw [if_pos hhit]
    exact h.finish _ _ _ _
  · rw [if_neg hhit]
    cases g.preserved with
    | some preserved => exact h.finish _ _ _ _
    | none => exact h.finish _ _ _ _

theorem Kept.answer (h : Kept o t l) (p : Purpose) (r : Reply) : Kept o t (l.answer p r) := by
  cases p with
  | step => exact h.handleReply r
  | summary =>
    show Kept o t (l.handleSummary r)
    unfold Loop.handleSummary
    cases l.state.grace with
    | none => exact h
    | some g =>
      by_cases htext : (r.error.isNone && Text.hasText (r.content.getD [])) = true
      · simp only [htext, if_true]
        exact h.finish _ _ _ _
      · simp only [htext, Bool.false_eq_true, if_false]
        exact h.withoutSummary g _

theorem Kept.afterFit (h : Kept o t l) (p : Purpose) (rejected : Option Reply) (f : RequestFit) (keep chars : Int) :
    Kept o t (l.afterFit o p rejected f keep chars) := by
  have hf := h.fitRequest f keep chars
  unfold Loop.afterFit
  cases rejected with
  | none =>
    by_cases hfits : f.fits = true
    · simp only [if_pos hfits]
      exact hf.move _ _ _ _
    · simp only [if_neg hfits]
      exact hf.answer p _
  | some reply =>
    by_cases hsame : (!f.fits || requestFingerprint o (l.fitRequest f keep chars).state.messages ==
        requestFingerprint o l.state.messages) = true
    · simp only [if_pos hsame]
      exact hf.answer p reply
    · simp only [if_neg hsame]
      exact hf.move _ _ _ _

theorem Kept.afterCall (h : Kept o t l) (p : Purpose) (again : Bool) (r : Reply) : Kept o t (l.afterCall p again r) := by
  unfold Loop.afterCall
  split
  · exact h.move _ _ _ _
  · exact h.answer p r

/-! ### The calls of a reply -/

theorem Kept.startTool (h : Kept o t l) (call : ToolCall) (effective : String) (arguments : Arguments)
    (rest : List ToolCall) : Kept o t (l.startTool call effective arguments rest) := by
  have hw : Kept o t (l.write { l.state with modelUsedArtifact := l.state.modelUsedArtifact || effective = "artifact" }
    (.toolStart call.id effective (toolClass effective arguments))) := h.write rfl rfl
  exact hw.quiet rfl fun hl => ⟨hl, rfl⟩

/-- The replay annotates the annotated result, and has the same memo. -/
theorem Kept.nextCall (hann : AnnotateStable o) (h : Kept o t l) (call : ToolCall) (d : Disclosure)
    (rest : List ToolCall) : Kept o t (l.nextCall o call d rest) := by
  unfold Loop.nextCall
  by_cases hsearch : call.name = "tool_search"
  · simp only [if_pos hsearch]
    apply Kept.move
    refine h.write rfl ?_
    have hmemo := hann d.search l.state.searchSets
    simp only [View.apply, if_true, View.searched, View.append, ChildState.view, hmemo]
    rfl
  simp only [if_neg hsearch]
  by_cases hdescribe : call.name = "tool_describe"
  · simp only [if_pos hdescribe]
    exact Kept.move (h.answerTool _ _ _ (by decide)) _ _ _ _
  simp only [if_neg hdescribe]
  by_cases hcall : call.name = "tool_call"
  · simp only [if_pos hcall]
    cases d.resolve with
    | error resolved => exact Kept.move (h.answerTool _ _ _ (by decide)) _ _ _ _
    | ok found => exact h.startTool _ _ _ _
  simp only [if_neg hcall]
  by_cases hdirect : call.name ∉ d.directNames
  · simp only [if_pos hdirect]
    exact Kept.move (h.answerTool _ _ _ (by decide)) _ _ _ _
  · simp only [if_neg hdirect]
    exact h.startTool _ _ _ _

theorem outcomeText_status (effective : String) (outcome : Outcome) : (outcomeText effective outcome).1 ≠ "" := by
  cases outcome with
  | result text =>
    show (if "Error".toList.isPrefixOf text then "error" else "ok") ≠ ""
    split <;> decide
  | timeout => simp [outcomeText]
  | raised error => simp [outcomeText]

/-- The replay takes the mark of a repeat off, and its guard sees what the live one saw. -/
theorem Kept.toolEnded (h : Kept o t l) (call : ToolCall) (effective : String) (outcome : Outcome) (cap : Text → Text)
    (rest : List ToolCall) : Kept o t (l.toolEnded o call effective outcome cap rest) := by
  have hstatus := outcomeText_status effective outcome
  unfold Loop.toolEnded
  generalize outcomeText effective outcome = ended at hstatus ⊢
  obtain ⟨status, text⟩ := ended
  have hstatus : status ≠ "" := hstatus
  rcases hseen : l.state.repetition.observe o effective (cap text) with ⟨repeated, repetition⟩
  simp only [hseen]
  apply Kept.move
  refine h.write rfl ?_
  have hview : (l.state.view.append (toolMessage call.id call.name (if repeated then markRepeated effective (cap text)
      else cap text)) { status := some status }).repetition.observe o effective (cap text) = (repeated, repetition) := hseen
  simp only [View.apply, rawResult_marked, if_neg hstatus, Bool.false_eq_true, if_false, View.observed, hview]
  rfl

/-! ### Steps and restarts -/

theorem Kept.round (h : Kept o t l) : Kept o t l.round := by
  unfold Loop.round
  by_cases hg : l.state.grace.isSome = true
  · rw [if_pos hg]
    exact h.leave _ _ _ _
  rw [if_neg hg]
  by_cases hwait : l.state.awaitingModel = true
  · rw [if_pos hwait]
    exact h.move _ _ _ _
  rw [if_neg hwait]
  by_cases hdone : (l.limitReached || l.state.stalled) = true
  · rw [if_pos hdone]
    exact h.leave _ _ _ _
  · simp only [if_neg hdone]
    exact Kept.move (h.write rfl (applyStep_view _ _ _ _)) _ _ _ _

theorem Kept.takeInbox (h : Kept o t l) (call : ToolCall) : Kept o t (l.takeInbox call) := by
  unfold Loop.takeInbox
  split
  · exact h
  · exact Kept.move (h.log rfl rfl) _ _ _ _

theorem Kept.answerOpenCalls : ∀ (calls : List OpenCall) {l : Loop}, Kept o t l →
    Kept o t (calls.foldl answerOpenCall l) := by
  intro calls
  induction calls with
  | nil => intro l h; exact h
  | cons call calls ih => intro l h; exact ih (h.answerTool _ _ _ (interruptedResult_status call))

theorem Kept.reconcile (h : Kept o t l) {restored : ChildState} (hv : restored.view = l.state.view) :
    Kept o t (l.reconcile restored) := by
  have h := Kept.answerOpenCalls restored.openCalls (h.set hv)
  unfold Loop.reconcile
  generalize restored.openCalls.foldl answerOpenCall { l with state := restored } = l at h ⊢
  have hopen : Kept o t { l with state := { l.state with openCalls := [] } } := h.set rfl
  exact hopen.log rfl rfl

theorem Kept.resume (h : Kept o t l) {restored : ChildState} (hv : restored.view = l.state.view) :
    Kept o t (l.resume restored) := by
  have h := h.reconcile hv
  unfold Loop.resume
  generalize l.reconcile restored = l at h ⊢
  have h : Kept o t { l with state := { l.state with suspended := false }, inbox := restored.unreadMail, errors := 0 } :=
    h.quiet rfl fun hw => ⟨hw, rfl⟩
  cases restored.final with
  | some f => exact h.finish _ _ _ _
  | none => exact h.move _ _ _ _

end Loop

theorem Turn.header_of (o : Outside) (t : Turn) : (t.header o).Of o t.history where
  count := rfl
  digest := fun h => by simp [Turn.header, h]

namespace Loop

/-- Any part of the lines a run has written is restored to the view they give. -/
theorem Kept.restore {o : Outside} {t : Turn} {l : Loop} (h : Kept o t l) (n : Nat) :
    ∃ s, restoreChildState o t.history (l.records.take (n + 1)) = .ok s ∧
      s.view = (l.lines.take (n + 1)).foldl (View.apply o) (t.start o).view := by
  obtain ⟨rest, hrest⟩ := h.head
  have hlines : l.lines = .header (t.header o) :: rest.map (·.1) := by simp [lines, hrest]
  have hread : ∀ line ∈ (rest.map (·.1)).take n, line.readable = true := by
    intro line hline
    obtain ⟨e, he, rfl⟩ := List.mem_map.mp (List.mem_of_mem_take hline)
    exact h.readable e (by rw [hrest]; exact List.mem_cons_of_mem _ he)
  obtain ⟨s, hs, hview⟩ := restoreChildState_view (t.header_of o) hread
  refine ⟨s, ?_, ?_⟩
  · rw [records, hlines, ← List.map_take, List.take_succ_cons]
    exact hs
  · rw [hview, hlines, List.take_succ_cons]
    rfl

theorem Kept.restart {o : Outside} {t : Turn} {l : Loop} (h : Kept o t l) (kept : Nat) : Kept o t (l.restart o t kept) := by
  obtain ⟨s, hs, hview⟩ := h.restore kept
  have hrecords : l.records.take (kept + 1) = records { l with trail := l.trail.take (kept + 1) } := by
    simp [records, lines, List.map_take]
  have hleft : Kept o t { l with trail := l.trail.take (kept + 1), state := s } := by
    obtain ⟨rest, hrest⟩ := h.head
    refine ⟨⟨rest.take kept, by simp [hrest]⟩, ?_, ?_, ?_⟩
    · exact fun e he => h.readable e (List.mem_of_mem_take he)
    · have := h.faithful.take (kept + 1)
      rw [viewed, ← List.map_take] at this
      exact this
    · intro _
      rw [hview]
      simp [lines, List.map_take]
  unfold Loop.restart
  rw [hrecords] at hs
  simp only [hs]
  exact hleft.resume rfl

theorem next_kept {o : Outside} (hann : AnnotateStable o) {t : Turn} {l : Loop} (h : Kept o t l) (e : Event) :
    Kept o t (next o t l e) := by
  cases e with
  | go =>
    show Kept o t (match l.place with | .top => l.round | .calls [] => { l with place := .top } | _ => l)
    split
    · exact h.round
    · exact h.move _ _ _ _
    · exact h
  | fit f keep chars =>
    simp only [next]
    split
    · exact h.afterFit _ _ _ _ _
    · exact h
  | reply r =>
    simp only [next]
    split
    · exact h.afterCall _ _ _
    · exact h
  | summaryRaised =>
    simp only [next]
    split
    · exact h.withoutSummary _ _
    · exact h.withoutSummary _ _
    · exact h
  | call d =>
    simp only [next]
    split
    · exact h.nextCall hann _ _ _
    · exact h
  | readInbox =>
    simp only [next]
    split
    · exact h.takeInbox _
    · exact h
  | toolEnded outcome cap =>
    simp only [next]
    split
    · exact h.toolEnded _ _ _ _ _
    · exact h
  | mail entry =>
    simp only [next]
    split
    · exact Kept.move (h.log rfl rfl) _ _ _ _
    · exact h
  | appendFailed => exact h.stop l.place
  | suspend =>
    simp only [next]
    split
    · exact Kept.move (h.log rfl rfl) _ _ _ _
    · exact h
  | crash =>
    simp only [next]
    split
    · exact h.move _ _ _ _
    · exact h
  | restart kept =>
    simp only [next]
    split
    · exact h.restart kept
    · exact h
  | fail | recorded =>
    simp only [next]
    split
    · exact h.stop _
    · exact h

theorem run_kept {o : Outside} (hann : AnnotateStable o) (t : Turn) (es : List Event) : Kept o t (run o t es) := by
  have hrun : ∀ (es : List Event) (l : Loop), Kept o t l → Kept o t (es.foldl (next o t) l) := by
    intro es
    induction es with
    | nil => intro l h; exact h
    | cons e es ih => intro l h; exact ih _ (next_kept hann h e)
  exact hrun es _ start_kept

/-- In any run, whatever part of its checkpoint a restart reads, the replay rebuilds
    what the run had shown its model and seen when that part's last line was appended. -/
theorem restore_rebuilds_live_state {o : Outside} (hann : AnnotateStable o) (t : Turn) (es : List Event) (n : Nat)
    (hn : n < (run o t es).trail.length) :
    ∃ s, restoreChildState o t.history ((run o t es).records.take (n + 1)) = .ok s ∧
      s.view = (run o t es).trail[n].2.view := by
  have h := run_kept hann t es
  obtain ⟨s, hs, hview⟩ := h.restore n
  refine ⟨s, hs, ?_⟩
  have hat := h.faithful n (by simpa [viewed] using hn)
  rw [lines_viewed] at hat
  rw [hview, hat]
  simp [viewed]

end Loop

/-! ## A run that searches, and reads a file twice -/

namespace Sample

def found : Text := "\x7b\"matches\":[\x7b\"name\":\"exec\"\x7d]".toList

/-- The digests are those of "hello" and of the history. -/
def outside : Outside where
  annotate result memo :=
    if found.isPrefixOf result then
      (found ++ ",\"repeated_result_set\":false,\"previous_occurrences\":0\x7d".toList,
        (["exec"], (memo.lookup ["exec"]).getD 0 + 1) :: memo.filter (·.1 != ["exec"]))
    else (result, memo)
  comparableDigest _ := "2cf24dba5fb0a30e26e83b2ac5b9e29e1b161e5c1fa7425e73043362938b9824"
  messagesDigest _ := "4e79873118cd9be7a1f0308b9cd772950c5410c74ca3fe1ba2626cba009a9237"
  arguments text := if text = [] then {} else { path := "note" }

theorem outside_stable : AnnotateStable outside := by
  intro result memo
  by_cases h : found.isPrefixOf result = true
  · have hagain : found.isPrefixOf (found ++ ",\"repeated_result_set\":false,\"previous_occurrences\":0\x7d".toList) = true :=
      List.isPrefixOf_iff_prefix.mpr (List.prefix_append _ _)
    simp only [outside, if_pos h, if_pos hagain]
  · simp only [outside, if_neg h]

def turn : Turn where
  systemPrompt := "You are a subagent.".toList
  history := [{ role := .user, content := some (.str "hi".toList) }]
  firstMessage := "Read the note.".toList
  maxIterations := 30

def fits : Event := .fit { messages := [], fits := true } 5 200

def read (id : String) : ToolCall := { id := id, name := "read_file", arguments := "\x7b\"path\": \"note\"\x7d".toList }

def direct : Event := .call { directNames := ["read_file"] }

def hello : Event := .toolEnded (.result "hello".toList) id

def events : List Event :=
  [.go, fits, .reply { toolCalls := [{ id := "a", name := "tool_search" }, read "b"] },
   .call { search := found ++ ['}'] }, direct, hello,
   .mail { id := "m", text := "again".toList },
   .go, .go, fits, .reply { toolCalls := [read "c"] }, direct, hello]

/-- All its lines: the guard saw the repeat without its mark. -/
theorem restores_a_repeated_read : AnnotateStable outside ∧ ∃ h : 10 < (Loop.run outside turn events).trail.length,
    ∃ s, restoreChildState outside turn.history ((Loop.run outside turn events).records.take 11) = .ok s ∧
      s.view = (Loop.run outside turn events).trail[10].2.view :=
  ⟨outside_stable, by decide,
    Loop.restore_rebuilds_live_state outside_stable turn events 10 (by decide)⟩

end Sample

end Flowly.Agent
