/-
  Flowly.Board.Store — the operations of the board (`flowly/board/store.py`) as
  transactions on its tables, and the board over time.

  The store holds its lock over each operation. `none` is an operation that refuses, or
  finds nothing to do: it writes nothing. Arguments whose only effect is that an operation
  refuses them (an empty title, a text that is too long) are left out, and with them the
  texts. The database's trigger keeps a claimed card's status `in_progress`; no operation
  here asks for another.
-/

import Flowly.Board.VoiceCommands
import Flowly.Lib.Reach

namespace Flowly.Board

open Flowly.Lib

/-! ## Cards -/

/-- What `add_card` is given, of what is kept. -/
structure NewCard where
  id : String
  status : Status := .todo
  assigneeProfile : String := ""
  assigneeBotId : String := ""
  priority : Int := 0
  scheduledAt : Option Int := none
  idempotencyKey : String := ""
  maxAttempts : Nat := 2
  parentId : Option String := none
  executionMode : Mode := .background
  voiceConversationId : String := ""
  voiceOpenOnly : Bool := false

def Owner.uid : Owner → String
  | .account uid => uid
  | .internal | .host => ""

def NewCard.voiceOwnerUid (n : NewCard) (o : Owner) : String := if n.executionMode = .voice then o.uid else ""

/-- The row of the new card. -/
def NewCard.card (n : NewCard) (o : Owner) (now : Int) : Card :=
  { id := n.id, status := n.status, assigneeProfile := n.assigneeProfile, assigneeBotId := n.assigneeBotId
    priority := n.priority, scheduledAt := n.scheduledAt, idempotencyKey := n.idempotencyKey, maxAttempts := n.maxAttempts
    parentId := n.parentId, executionMode := n.executionMode, voiceConversationId := n.voiceConversationId
    sessionKey := if n.executionMode = .voice then "desktop:voice-work:" ++ n.id else ""
    voiceOwnerUid := n.voiceOwnerUid o, createdAt := now }

def Db.addCard (db : Db) (o : Owner) (n : NewCard) (now : Int) : Option Db :=
  if n.priority < -100 ∨ 100 < n.priority then none
  else if n.maxAttempts < 1 ∨ 10 < n.maxAttempts then none
  else if n.executionMode = .voice ∧ (n.voiceConversationId = "" ∨ n.idempotencyKey = "" ∨ n.assigneeProfile = "") then none
  else if n.voiceOpenOnly ∧ (n.executionMode ≠ .voice ∨ n.status ≠ .todo) then none
  else if n.idempotencyKey ≠ "" ∧ db.cards.any (·.idempotencyKey = n.idempotencyKey) then none
  else if n.parentId.any fun p => !(db.getCard o p).any (·.voiceOwnerUid = n.voiceOwnerUid o) then none
  else if db.cards.any (·.id = n.id) then none
  else
    let db := { db with cards := db.cards ++ [n.card o now] }
    if n.executionMode = .voice ∧ !n.voiceOpenOnly then db.seedLocked n.id else some db

/-- `expected_revision` does not say otherwise. -/
def asExpected (c : Card) (expectedRevision : Option Nat) : Bool := expectedRevision.all (· = c.revision)

def Db.setStatus (db : Db) (o : Owner) (cardId : String) (status : Status) (clearRunId clearSchedule : Bool)
    (expectedRevision : Option Nat) : Option Db :=
  match db.getCard o cardId with
  | none => none
  | some card =>
    if card.claimToken.isSome then none
    else if !asExpected card expectedRevision then none
    else some (db.updateCard cardId fun c => { c with
      status
      revision := c.revision + 1
      runId := if clearRunId || status.terminal then none else c.runId
      scheduledAt := if clearSchedule || status.terminal then none else c.scheduledAt
      claimToken := if status.terminal then none else c.claimToken
      leaseExpiresAt := if status.terminal then none else c.leaseExpiresAt
      heartbeatAt := if status.terminal then none else c.heartbeatAt })

def Db.setRunId (db : Db) (o : Owner) (cardId : String) (runId : Option String) : Option Db :=
  match db.getCard o cardId with
  | none => none
  | some _ => some (db.updateCard cardId fun c => { c with runId, revision := c.revision + 1 })

/-- What `update_card` is given; `other` is a title or a body. -/
structure CardChanges where
  priority : Option Int := none
  scheduledAt : Option (Option Int) := none
  maxAttempts : Option Nat := none
  other : Bool := false

def Db.updateCardFields (db : Db) (o : Owner) (cardId : String) (changes : CardChanges) (expectedRevision : Option Nat) :
    Option Db :=
  match db.getCard o cardId with
  | none => none
  | some card =>
    if card.claimToken.isSome then none
    else if !asExpected card expectedRevision then none
    else if changes.priority = none ∧ changes.scheduledAt = none ∧ changes.maxAttempts = none ∧ !changes.other then none
    else if changes.priority.any fun n => n < -100 ∨ 100 < n then none
    else if changes.maxAttempts.any fun n => n < 1 ∨ 10 < n ∨ n < card.attemptCount then none
    else some (db.updateCard cardId fun c => { c with
      revision := c.revision + 1
      priority := changes.priority.getD c.priority
      scheduledAt := changes.scheduledAt.getD c.scheduledAt
      maxAttempts := changes.maxAttempts.getD c.maxAttempts })

def Db.addNote (db : Db) (o : Owner) (cardId : String) (expectedRevision : Option Nat) : Option Db :=
  match db.getCard o cardId with
  | none => none
  | some card =>
    if !asExpected card expectedRevision then none
    else some (db.updateCard cardId fun c => { c with revision := c.revision + 1 })

def Db.assignCard (db : Db) (o : Owner) (cardId profile botId : String) (ready : Bool) (expectedRevision : Option Nat) :
    Option Db :=
  if profile = "" ∨ 64 < profile.length ∨ botId = "" ∨ 128 < botId.length then none
  else match db.getCard o cardId with
    | none => none
    | some card =>
      if card.claimToken.isSome ∨ card.status = .inProgress then none
      else if !asExpected card expectedRevision then none
      else some (db.updateCard cardId fun c => { c with
        assigneeProfile := profile
        assigneeBotId := botId
        status := if ready ∧ (card.status = .todo ∨ card.status = .waiting ∨ card.status = .blocked) then .ready else card.status
        revision := c.revision + 1 })

def Db.unassignCard (db : Db) (o : Owner) (cardId : String) (expectedRevision : Option Nat) : Option Db :=
  match db.getCard o cardId with
  | none => none
  | some card =>
    if card.claimToken.isSome ∨ card.status = .inProgress then none
    else if !asExpected card expectedRevision then none
    else some (db.updateCard cardId fun c => { c with
      assigneeProfile := ""
      assigneeBotId := ""
      status := if card.status = .ready then .todo else card.status
      revision := c.revision + 1 })

/-- The children of `ids`, and theirs, `n` generations down. -/
def descendants (links : List Link) : Nat → List String → List String
  | 0, ids => ids
  | n + 1, ids => ids ++ descendants links n ((links.filter (·.parentId ∈ ids)).map (·.childId))

def Db.linkCards (db : Db) (o : Owner) (parentId childId : String) : Option Db :=
  if parentId = childId then none
  else match db.getCard o parentId, db.getCard o childId with
    | some parent, some child =>
      if parent.voiceOwnerUid ≠ child.voiceOwnerUid then none
      else if parentId ∈ descendants db.links db.links.length [childId] then none
      else if ⟨parentId, childId⟩ ∈ db.links then none
      else some { db with links := db.links ++ [⟨parentId, childId⟩] }
    | _, _ => none

def Db.deleteCard (db : Db) (o : Owner) (cardId : String) : Option Db :=
  match db.getCard o cardId with
  | none => none
  | some card =>
    if card.claimToken.isSome ∨ card.status = .inProgress then none
    else some (db.deleteCards (·.id = cardId))

def Db.deleteByStatus (db : Db) (o : Owner) (status : Status) : Option Db :=
  if status = .inProgress then none
  else if db.cards.any fun c => c.status = status ∧ c.claimToken.isSome ∧ o.sees c then none
  else some (db.deleteCards fun c => c.status = status ∧ c.claimToken = none ∧ o.sees c)

/-! ## Claims -/

def Db.blockedByParent (db : Db) (cardId : String) : Bool :=
  db.links.any fun l => l.childId = cardId ∧ db.cards.any fun p => p.id = l.parentId ∧ p.status ≠ .done

def Db.nextInstruction (db : Db) (card : Card) : Option Command :=
  if card.executionMode = .voice then db.nextLocked card.id else none

def Db.openRun (db : Db) (card : Card) (worker runId : String) (leaseSeconds now : Int) : Db :=
  let claimed := { db with nextToken := db.nextToken + 1 }.updateCard card.id fun c => { c with
    status := .inProgress
    runId := some runId
    claimToken := some db.nextToken
    leaseExpiresAt := some (now + leaseSeconds)
    heartbeatAt := some now
    attemptCount := card.attemptCount + 1
    revision := c.revision + 1 }
  { claimed with runs := claimed.runs ++
    [{ id := runId, cardId := card.id, attempt := card.attemptCount + 1, profile := worker, claimToken := db.nextToken }] }

/-- `claim_card`; `runId` is drawn by `uuid4`. -/
def Db.claimCard (db : Db) (o : Owner) (cardId worker : String) (leaseSeconds : Int) (ignoreSchedule : Bool)
    (runId : String) (now : Int) : Option Db :=
  if worker = "" ∨ 128 < worker.length ∨ leaseSeconds < 15 ∨ 600 < leaseSeconds then none
  else match db.getCard o cardId with
    | none => none
    | some card =>
      if card.claimToken.isSome then none
      else if card.status ≠ .todo ∧ card.status ≠ .ready ∧ card.status ≠ .waiting then none
      else if !ignoreSchedule ∧ card.scheduledAt.any (now < ·) then none
      else if db.blockedByParent cardId then none
      else if card.executionMode = .voice ∧ (db.nextInstruction card).isNone then none
      else if db.runs.any (·.id = runId) then none
      else
        let opened := db.openRun card worker runId leaseSeconds now
        match db.nextInstruction card with
        | none => some opened
        | some q => some (opened.claimLocked q.commandId db.nextToken)

def Db.heartbeatClaim (db : Db) (o : Owner) (cardId : String) (token : Token) (leaseSeconds now : Int) : Option Db :=
  match db.getCard o cardId with
  | none => none
  | some card =>
    if card.claimToken ≠ some token then none
    else some (db.updateCard cardId fun c => { c with
      status := .inProgress
      heartbeatAt := some now
      leaseExpiresAt := some (now + leaseSeconds)
      revision := c.revision + if card.status = .inProgress then 0 else 1 })

def Db.setWorkerRunId (db : Db) (o : Owner) (cardId : String) (token : Token) (workerRunId : String) : Option Db :=
  if workerRunId = "" ∨ 256 < workerRunId.length then none
  else match db.getCard o cardId with
    | none => none
    | some card =>
      if card.claimToken ≠ some token then none
      else
        let db := db.updateCard cardId fun c => { c with
          status := .inProgress
          runId := some workerRunId
          revision := c.revision + if card.status = .inProgress then 0 else 1 }
        let db := db.updateRuns (fun r => r.cardId = cardId ∧ r.claimToken = token)
          fun r => { r with workerRunId := some workerRunId }
        some (if card.executionMode = .voice then db.appliedLocked cardId token workerRunId else db)

def retryStatus (card : Card) : Status :=
  if max 1 card.maxAttempts ≤ card.attemptCount then .blocked
  else if card.assigneeProfile ≠ "" then .ready else .todo

def Outcome.status (card : Card) : Outcome → Status
  | .done => .done
  | .cancelled => .cancelled
  | .review => .review
  | .blocked => .blocked
  | .failed => retryStatus card

/-- The claim is over: its run ends as `status`. -/
def Db.release (db : Db) (cardId : String) (token : Token) (f : Card → Card) (status : RunStatus) : Db :=
  (db.updateCard cardId fun c => { f c with
    runId := none, claimToken := none, leaseExpiresAt := none, heartbeatAt := none, revision := c.revision + 1 }).updateRuns
    (fun r => r.cardId = cardId ∧ r.claimToken = token) fun r => { r with status }

def Db.finishInstruction (db : Db) (card : Card) (outcome : Outcome) (uncertain : Bool) : Db × Bool :=
  if card.executionMode = .voice then db.finishLocked card outcome uncertain else (db, false)

def Db.finishClaim (db : Db) (o : Owner) (cardId : String) (token : Token) (outcome : Outcome) (retryDelay : Int)
    (uncertain : Bool) (now : Int) : Option Db :=
  match db.getCard o cardId with
  | none => none
  | some card =>
    if card.claimToken ≠ some token then none
    else
      let voice := card.executionMode = .voice
      let finished := db.finishInstruction card outcome uncertain
      let status :=
        if voice ∧ (uncertain ∨ outcome = .failed) then .blocked
        else if voice ∧ finished.2 then .ready
        else outcome.status card
      let scheduledAt :=
        if outcome = .failed ∧ (status = .ready ∨ status = .todo) then some (now + max 0 retryDelay) else none
      some (finished.1.release cardId token (fun c => { c with status, scheduledAt }) outcome.run)

/-! ## Recovery -/

def Db.restoredRunId (db : Db) (card : Card) (token : Token) : Option String :=
  match ((db.runsOf card.id).filter (·.claimToken = token)).getLast? with
  | none => card.runId
  | some run => some (idOr run.workerRunId run.id)

/-- `recover_expired_claims`, one card. -/
def Db.recoverExpired (now : Int) (db : Db) (card : Card) : Db :=
  match card.claimToken with
  | none => db
  | some token =>
    if card.leaseExpiresAt.any (now < ·) then
      let runId := db.restoredRunId card token
      db.updateCard card.id fun c => { c with status := .inProgress, runId, revision := c.revision + 1 }
    else
      let status := if card.executionMode = .voice then .blocked else retryStatus card
      (db.finishInstruction card .failed true).1.release card.id token (fun c => { c with status }) .expired

def lapsed (now : Int) (c : Card) : Bool :=
  c.claimToken.isSome ∧ (c.status ≠ .inProgress ∨ !c.leaseExpiresAt.any (now < ·))

def Db.recoverExpiredClaims (db : Db) (o : Owner) (now : Int) : Db :=
  (db.cards.filter fun c => lapsed now c ∧ o.sees c).foldl (Db.recoverExpired now) db

def workerGone (live : List String) (now : Int) (c : Card) : Bool :=
  c.status = .inProgress ∧ !c.runId.any (fun rid => rid ≠ "" ∧ rid ∈ live) ∧
    !(c.claimToken.isSome ∧ c.leaseExpiresAt.any (now < ·))

def resetStatus (card : Card) : Status :=
  if card.claimToken.isSome ∧ max 1 card.maxAttempts ≤ card.attemptCount then .blocked
  else if card.assigneeProfile ≠ "" then .ready else .todo

/-- `reset_orphaned`, one card. -/
def Db.resetOne (db : Db) (card : Card) : Db :=
  match card.claimToken with
  | none => db.updateCard card.id fun c => { c with
      status := resetStatus card, runId := none, claimToken := none, leaseExpiresAt := none, heartbeatAt := none
      revision := c.revision + 1 }
  | some token => db.release card.id token (fun c => { c with status := resetStatus card }) .interrupted

def Db.resetOrphaned (db : Db) (o : Owner) (live : List String) (now : Int) : Db :=
  (db.cards.filter fun c => workerGone live now c ∧ o.sees c).foldl Db.resetOne db

/-! ## The board over time -/

inductive Op where
  | addCard (card : NewCard)
  | setStatus (card : String) (status : Status) (clearRunId clearSchedule : Bool) (expectedRevision : Option Nat)
  | setRunId (card : String) (runId : Option String)
  | updateCard (card : String) (changes : CardChanges) (expectedRevision : Option Nat)
  | addNote (card : String) (expectedRevision : Option Nat)
  | assignCard (card profile botId : String) (ready : Bool) (expectedRevision : Option Nat)
  | unassignCard (card : String) (expectedRevision : Option Nat)
  | linkCards (parent child : String)
  | deleteCard (card : String)
  | deleteByStatus (status : Status)
  | claimCard (card worker : String) (leaseSeconds : Int) (ignoreSchedule : Bool) (runId : String)
  | heartbeatClaim (card : String) (token : Token) (leaseSeconds : Int)
  | setWorkerRunId (card : String) (token : Token) (workerRunId : String)
  | finishClaim (card : String) (token : Token) (outcome : Outcome) (retryDelay : Int) (uncertain : Bool)
  | recoverExpiredClaims
  | resetOrphaned (live : List String)
  | enqueue (conversation card commandId : String) (expectedRevision : Nat)
  | advanceBoundary (card : String) (token : Token) (completedCommandId : String)
  | settleReconciliation (candidate : Candidate) (runId : String) (status : Verified)
  | responseIntent (conversation card commandId : String) (expectedRevision : Nat) (process : String)
  | settleResponse (commandId : String) (status : Response) (process : String)
  | cancel (conversation card commandId : String) (expectedRevision : Nat)
  | settleStop (commandId : String) (status : Stop) (workerStatus : Option WorkerStatus)

/-- An operation, who asks for it and when. -/
structure Ev where
  op : Op
  owner : Owner := .internal
  now : Int := 0

def Db.apply (db : Db) (e : Ev) : Option Db :=
  match e.op with
  | .addCard n => db.addCard e.owner n e.now
  | .setStatus c status clearRunId clearSchedule rev => db.setStatus e.owner c status clearRunId clearSchedule rev
  | .setRunId c runId => db.setRunId e.owner c runId
  | .updateCard c changes rev => db.updateCardFields e.owner c changes rev
  | .addNote c rev => db.addNote e.owner c rev
  | .assignCard c profile botId ready rev => db.assignCard e.owner c profile botId ready rev
  | .unassignCard c rev => db.unassignCard e.owner c rev
  | .linkCards parent child => db.linkCards e.owner parent child
  | .deleteCard c => db.deleteCard e.owner c
  | .deleteByStatus status => db.deleteByStatus e.owner status
  | .claimCard c worker lease ignoreSchedule runId => db.claimCard e.owner c worker lease ignoreSchedule runId e.now
  | .heartbeatClaim c token lease => db.heartbeatClaim e.owner c token lease e.now
  | .setWorkerRunId c token workerRunId => db.setWorkerRunId e.owner c token workerRunId
  | .finishClaim c token outcome delay uncertain => db.finishClaim e.owner c token outcome delay uncertain e.now
  | .recoverExpiredClaims => some (db.recoverExpiredClaims e.owner e.now)
  | .resetOrphaned live => some (db.resetOrphaned e.owner live e.now)
  | .enqueue conversation c commandId rev => db.enqueue e.owner conversation c commandId rev
  | .advanceBoundary c token completed => db.advanceBoundary e.owner c token completed
  | .settleReconciliation k runId status => db.settleReconciliation e.owner k runId status
  | .responseIntent conversation c commandId rev process => db.responseIntent e.owner conversation c commandId rev process
  | .settleResponse commandId status process => db.settleResponse e.owner commandId status process
  | .cancel conversation c commandId rev => db.cancel e.owner conversation c commandId rev
  | .settleStop commandId status worker => db.settleStop e.owner commandId status worker

def Db.step (db : Db) (e : Ev) : Db := (db.apply e).getD db

end Flowly.Board
