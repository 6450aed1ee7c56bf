/-
  Flowly.Board.VoiceCommands — the instructions of a voice task
  (`flowly/board/voice_commands.py`).

  An instruction waits in the queue of its card until a claim delivers it; the worker's
  receipt applies it. The `*Locked` functions run inside a claim's transaction, the others
  are transactions of their own: `none` is one that refuses, or writes nothing.
-/

import Flowly.Board.Tables

namespace Flowly.Board

/-! ## Inside a claim's transaction -/

/-- `_pending_stop_locked`. -/
def Db.pendingStop (db : Db) (cardId : String) : Bool :=
  (db.commandsOf cardId).any fun q => q.kind = .cancel ∧ (q.status = .stopping ∨ q.status = .statusUnknown)

def Db.unverified (db : Db) (cardId : String) : Bool :=
  (db.commandsOf cardId).any fun q => q.instructs ∧ q.status = .statusUnknown

def CommandStatus.running : CommandStatus → Bool
  | .delivering | .applied => true
  | _ => false

def Db.nextLocked (db : Db) (cardId : String) : Option Command :=
  if db.pendingStop cardId then none
  else if (db.commandsOf cardId).any fun q => q.instructs ∧ (q.status = .statusUnknown ∨ q.status.running) then none
  else (db.commandsOf cardId).find? (·.status = .queued)

def Db.claimLocked (db : Db) (commandId : String) (token : Token) : Db :=
  db.updateCommands (fun q => q.commandId = commandId ∧ q.status = .queued)
    fun q => { q with status := .delivering, claimToken := some token }

def Db.appliedLocked (db : Db) (cardId : String) (token : Token) (workerRunId : String) : Db :=
  match (db.commandsOf cardId).find? fun q => q.claimToken = some token ∧ q.status = .delivering with
  | none => db
  | some row => db.updateCommands (·.commandId = row.commandId)
      fun q => { q with status := .applied, workerRunId := some workerRunId }

inductive Outcome where
  | done
  | failed
  | cancelled
  | review
  | blocked
  deriving DecidableEq

/-- `'completed' if outcome == 'done' else outcome`. -/
def Outcome.command : Outcome → CommandStatus
  | .done => .completed
  | .failed => .failed
  | .cancelled => .cancelled
  | .review => .review
  | .blocked => .blocked

def Db.lastCompleted (db : Db) (card : Card) : Option Command :=
  ((db.commandsOf card.id).filter fun q =>
    q.claimToken.isSome ∧ q.claimToken = card.claimToken ∧ q.instructs ∧ q.status = .completed).getLast?

def Db.finishLocked (db : Db) (card : Card) (outcome : Outcome) (uncertain : Bool) : Db × Bool :=
  let status := if uncertain then .statusUnknown else outcome.command
  let mine := fun q : Command =>
    q.cardId = card.id ∧ q.claimToken.isSome ∧ q.claimToken = card.claimToken ∧ q.status.running
  let updated := db.commands.any (mine ·)
  let db1 := db.updateCommands (mine ·) fun q => { q with status }
  let db2 := if uncertain ∧ !updated then
      match db1.lastCompleted card with
      | none => db1
      | some last => db1.updateCommands (·.seq = last.seq) fun q => { q with status := .statusUnknown }
    else db1
  if outcome ≠ .done ∨ uncertain then
    (db2.updateCommands (fun q => q.cardId = card.id ∧ q.status = .queued) fun q => { q with status := .held }, false)
  else (db2, (db2.nextLocked card.id).isSome)

def Db.insertCommand (db : Db) (q : Command) : Db :=
  { db with commands := db.commands ++ [{ q with seq := db.nextSeq }], nextSeq := db.nextSeq + 1 }

def Db.seedLocked (db : Db) (cardId : String) : Option Db :=
  let commandId := s!"voice:{cardId}:initial"
  if db.commands.any (·.commandId = commandId) then none
  else some (db.insertCommand { seq := 0, commandId, cardId, kind := .initial, status := .queued })

/-! ## Transactions -/

/-- `_card_locked`. -/
def Db.voiceCard (db : Db) (o : Owner) (conversation cardId : String) : Option Card :=
  (db.getCard o cardId).filter fun c => c.executionMode = .voice ∧ c.voiceConversationId = conversation

def isCommandId (s : String) : Bool :=
  0 < s.length ∧ s.length ≤ 128 ∧ s.toList.all fun c => c.isAlphanum || c = '.' || c = '-'

def MAX_COMMANDS : Nat := 200

def Db.enqueue (db : Db) (o : Owner) (conversation cardId commandId : String) (expectedRevision : Nat) : Option Db :=
  if !isCommandId commandId then none
  else match db.voiceCard o conversation cardId with
    | none => none
    | some card =>
      if db.commands.any (·.commandId = commandId) then none
      else if card.revision ≠ expectedRevision then none
      else if card.status = .archived then none
      else if db.pendingStop cardId then none
      else if db.unverified cardId then none
      else if MAX_COMMANDS ≤ (db.commandsOf cardId).length then none
      else some ((db.insertCommand { seq := 0, commandId, cardId, kind := .steer, status := .queued }).updateCard cardId
        fun c => { c with
          status := if card.claimToken.isSome then .inProgress else .ready
          scheduledAt := none
          revision := c.revision + 1 })

def Db.advanceBoundary (db : Db) (o : Owner) (cardId : String) (token : Token) (completedCommandId : String) : Option Db :=
  match db.getCard o cardId with
  | none => none
  | some card =>
    if card.executionMode ≠ .voice ∨ card.claimToken ≠ some token then none
    else match (db.commandsOf cardId).find? fun q =>
        q.claimToken = some token ∧ q.commandId = completedCommandId ∧ q.instructs with
      | none => none
      | some row =>
        if row.status ≠ .applied ∧ row.status ≠ .completed then none
        else if db.pendingStop cardId then none
        else
          let db := if row.status = .applied then
              db.updateCommands (·.commandId = completedCommandId) fun q => { q with status := .completed }
            else db
          match db.nextLocked cardId with
          | none => some db
          | some next => some (db.claimLocked next.commandId token)

/-- What `pending_reconciliations` says of an orphaned instruction. -/
structure Candidate where
  seq : Nat
  commandId : String
  cardId : String
  claimToken : Token
  runId : String
  revision : Nat
  attempt : Nat
  profile : String
  expectedBotId : String
  sessionKey : String
  deriving DecidableEq

def Db.orphaned (db : Db) (o : Owner) (q : Command) (c : Card) (r : CardRun) : Bool :=
  c.id = q.cardId ∧ r.cardId = c.id ∧ q.claimToken = some r.claimToken ∧ r.attempt = c.attemptCount ∧
    r.profile = c.assigneeProfile ∧ q.instructs ∧ q.status = .statusUnknown ∧ o.sees c ∧ c.executionMode = .voice ∧
    c.claimToken = none ∧ c.sessionKey = "desktop:voice-work:" ++ c.id ∧ (c.status = .blocked ∨ c.status = .ready) ∧
    (r.status = .expired ∨ r.status = .failed ∨ r.status = .cancelled) ∧ !db.pendingStop c.id ∧
    !(db.commandsOf c.id).any fun newer => newer.instructs ∧ newer.claimToken.isSome ∧ q.seq < newer.seq

/-- `a or b` of two ids. -/
def idOr (a : Option String) (b : String) : String :=
  match a with
  | some s => if s = "" then b else s
  | none => b

def candidate (q : Command) (c : Card) (r : CardRun) : Candidate :=
  { seq := q.seq, commandId := q.commandId, cardId := q.cardId, claimToken := r.claimToken
    runId := idOr q.workerRunId q.commandId, revision := c.revision, attempt := c.attemptCount
    profile := c.assigneeProfile, expectedBotId := c.assigneeBotId, sessionKey := c.sessionKey }

def Db.pendingReconciliations (db : Db) (o : Owner) (first limit : Nat) : List Candidate :=
  ((db.commands.filter (first ≤ ·.seq)).flatMap fun q =>
    db.cards.flatMap fun c => (db.runs.filter (db.orphaned o q c ·)).map (candidate q c ·)).take (max 1 (min limit 100))

inductive Verified where
  | completed
  | aborted
  | error
  | paused

def Verified.outcome : Verified → Outcome
  | .completed => .done
  | .aborted => .cancelled
  | .error | .paused => .failed

def Verified.card : Verified → Status
  | .completed => .done
  | .aborted => .cancelled
  | .error | .paused => .blocked

def Outcome.run : Outcome → RunStatus
  | .done => .done
  | .failed => .failed
  | .cancelled => .cancelled
  | .review => .review
  | .blocked => .blocked

/-- `settle_reconciliation` of a well-formed result: `response` is there if it is completed. -/
def Db.settleReconciliation (db : Db) (o : Owner) (k : Candidate) (runId : String) (status : Verified) : Option Db :=
  if runId ≠ k.runId then none
  else if (db.pendingReconciliations o k.seq 1).head? ≠ some k then none
  else
    let db := db.updateCommands (·.commandId = k.commandId)
      fun q => { q with status := status.outcome.command, workerRunId := some k.runId }
    let db := db.updateCard k.cardId
      fun c => { c with status := status.card, scheduledAt := none, revision := c.revision + 1 }
    some (db.updateRuns (fun r => r.cardId = k.cardId ∧ r.claimToken = k.claimToken ∧ r.attempt = k.attempt)
      fun r => { r with status := status.outcome.run, workerRunId := some k.runId })

def Db.responseIntent (db : Db) (o : Owner) (conversation cardId commandId : String) (expectedRevision : Nat)
    (process : String) : Option Db :=
  match db.voiceCard o conversation cardId with
  | none => none
  | some card =>
    if db.commands.any (·.commandId = commandId) then none
    else if card.revision ≠ expectedRevision then none
    else if db.pendingStop cardId ∨ card.status = .cancelled ∨ card.status = .archived then none
    else if MAX_COMMANDS ≤ (db.commandsOf cardId).length then none
    else some ((db.insertCommand
      { seq := 0, commandId, cardId, kind := .respond, status := .delivering, responseOwner := process }).updateCard cardId
      fun c => { c with revision := c.revision + 1 })

inductive Response where
  | applied
  | rejected
  | statusUnknown

def Response.command : Response → CommandStatus
  | .applied => .applied
  | .rejected => .rejected
  | .statusUnknown => .statusUnknown

def Db.settleResponse (db : Db) (o : Owner) (commandId : String) (status : Response) (process : String) : Option Db :=
  match db.commands.find? fun q => q.commandId = commandId ∧ q.kind = .respond with
  | none => none
  | some row =>
    if !db.requireCard o row.cardId then none
    else if row.status ≠ .delivering ∨ row.responseOwner ≠ process then none
    else some (db.updateCommands (·.commandId = commandId) fun q => { q with status := status.command })

def Db.cancel (db : Db) (o : Owner) (conversation cardId commandId : String) (expectedRevision : Nat) : Option Db :=
  match db.voiceCard o conversation cardId with
  | none => none
  | some card =>
    if db.commands.any (·.commandId = commandId) then none
    else if card.revision ≠ expectedRevision then none
    else if db.pendingStop cardId then none
    else if card.status = .archived then none
    else
      let last := ((db.commandsOf cardId).filter fun q => q.instructs ∧ q.claimToken.isSome).getLast?
      -- only a task that was never claimed can be stopped here; a worker confirms any other stop
      let status := if card.attemptCount = 0 ∧ card.claimToken = none then .stopped else .stopping
      let db := db.insertCommand
        { seq := 0, commandId, cardId, kind := .cancel, status
          requestedRun := last.map fun q => idOr q.workerRunId q.commandId }
      let db := db.updateCommands
        (fun q => q.cardId = cardId ∧ q.instructs ∧ (q.status = .queued ∨ q.status = .held))
        fun q => { q with status := .cancelled }
      some (db.updateCard cardId fun c => { c with
        status := if status = .stopped then .cancelled else card.status
        revision := c.revision + 1 })

inductive Stop where
  | stopping
  | statusUnknown
  | stopped
  deriving DecidableEq

def Stop.command : Stop → CommandStatus
  | .stopping => .stopping
  | .statusUnknown => .statusUnknown
  | .stopped => .stopped

inductive WorkerStatus where
  | completed
  | error
  | aborted

def WorkerStatus.card : WorkerStatus → Status
  | .completed => .done
  | .error => .blocked
  | .aborted => .cancelled

def WorkerStatus.command : WorkerStatus → CommandStatus
  | .completed => .completed
  | .error => .failed
  | .aborted => .cancelled

/-- The verified outcome of the run whose stop was asked for, of its latest attempt. -/
def Db.settledRun (db : Db) (cardId : String) (requestedRun : Option String) : Option WorkerStatus :=
  let settled := (db.runsOf cardId).filter fun r =>
    r.workerRunId.isSome ∧ r.workerRunId = requestedRun ∧
      (r.status = .done ∨ r.status = .failed ∨ r.status = .cancelled) ∧
      (db.commandsOf cardId).any fun q =>
        q.claimToken = some r.claimToken ∧ q.workerRunId = requestedRun ∧ q.instructs ∧
          (q.status = .completed ∨ q.status = .failed ∨ q.status = .cancelled)
  settled.getLast?.bind fun r =>
    match r.status with
    | .done => some .completed
    | .failed => some .error
    | .cancelled => some .aborted
    | _ => none

def Stop.of (card : Card) (status : Stop) : Stop := if status = .stopped ∧ card.claimToken.isSome then .stopping else status

def Db.settleStop (db : Db) (o : Owner) (commandId : String) (status : Stop) (workerStatus : Option WorkerStatus) :
    Option Db :=
  match db.commands.find? fun q =>
      q.commandId = commandId ∧ q.kind = .cancel ∧ (q.status = .stopping ∨ q.status = .statusUnknown) with
  | none => none
  | some row =>
    match db.getCard o row.cardId with
    | none => none
    | some card =>
      if row.status = (status.of card).command then none
      else
        let settled := db.updateCommands (·.commandId = commandId) fun q => { q with status := (status.of card).command }
        if status.of card ≠ .stopped then some settled
        else match (db.settledRun card.id row.requestedRun).orElse fun _ => workerStatus with
          | none => none
          | some worker =>
            let moved := settled.updateCard card.id
              fun c => { c with status := worker.card, revision := c.revision + 1 }
            some (moved.updateCommands (fun q => q.cardId = card.id ∧ q.instructs ∧ q.status = .statusUnknown)
              fun q => { q with status := worker.command })

end Flowly.Board
