/-
  Flowly.Board.Tables — the tables of the board's database (`flowly/board/store.py`,
  `flowly/board/voice_commands.py`): cards, their runs, their links, and the instructions
  given by voice.

  A table is the list of its rows in the order they were inserted. Claim tokens are drawn
  by `uuid4` and never repeat (`nextToken`), commands are numbered by the database
  (`nextSeq`). Who asks sees the cards of his account: another's are not there for him
  (`Owner.sees`).
-/

import Mathlib.Tactic.Common

namespace Flowly.Board

abbrev Token := Nat

inductive Status where
  | todo
  | ready
  | inProgress
  | waiting
  | review
  | blocked
  | done
  | cancelled
  | archived
  deriving DecidableEq

/-- `TERMINAL_STATUSES`. -/
def Status.terminal : Status → Bool
  | .done | .cancelled | .archived => true
  | .todo | .ready | .inProgress | .waiting | .review | .blocked => false

inductive Mode where
  | background
  | voice
  deriving DecidableEq

structure Card where
  id : String
  status : Status
  assigneeProfile : String := ""
  assigneeBotId : String := ""
  priority : Int := 0
  scheduledAt : Option Int := none
  idempotencyKey : String := ""
  revision : Nat := 0
  runId : Option String := none
  claimToken : Option Token := none
  leaseExpiresAt : Option Int := none
  heartbeatAt : Option Int := none
  attemptCount : Nat := 0
  maxAttempts : Nat := 2
  parentId : Option String := none
  executionMode : Mode := .background
  voiceConversationId : String := ""
  sessionKey : String := ""
  voiceOwnerUid : String := ""
  createdAt : Int := 0
  deriving DecidableEq

inductive RunStatus where
  | running
  | done
  | failed
  | cancelled
  | review
  | blocked
  | expired
  | interrupted
  deriving DecidableEq

/-- A row of `card_runs`. -/
structure CardRun where
  id : String
  cardId : String
  attempt : Nat
  profile : String
  claimToken : Token
  workerRunId : Option String := none
  status : RunStatus := .running

/-- A row of `card_links`. -/
structure Link where
  parentId : String
  childId : String
  deriving DecidableEq

inductive Kind where
  | initial
  | steer
  | respond
  | cancel
  deriving DecidableEq

inductive CommandStatus where
  | queued
  | delivering
  | applied
  | completed
  | failed
  | cancelled
  | review
  | blocked
  | statusUnknown
  | held
  | stopping
  | stopped
  | rejected
  deriving DecidableEq

/-- A row of `card_commands`. -/
structure Command where
  seq : Nat
  commandId : String
  cardId : String
  kind : Kind
  status : CommandStatus
  claimToken : Option Token := none
  workerRunId : Option String := none
  responseOwner : String := ""
  /-- `runId` in the payload of a cancel command. -/
  requestedRun : Option String := none

/-- `kind IN ('initial', 'steer')`. -/
def Command.instructs (q : Command) : Bool := q.kind = .initial ∨ q.kind = .steer

structure Db where
  cards : List Card := []
  runs : List CardRun := []
  links : List Link := []
  commands : List Command := []
  nextToken : Token := 0
  nextSeq : Nat := 0

/-! ## Who sees a card -/

/-- `current_request_owner()`: `internal` is `None`, `host` the owner without an account. -/
inductive Owner where
  | internal
  | host
  | account (uid : String)

/-- `_row_visible`. -/
def Owner.sees (o : Owner) (c : Card) : Bool :=
  match o with
  | .internal => true
  | .host => c.voiceOwnerUid = ""
  | .account uid => c.voiceOwnerUid = uid ∨ c.voiceOwnerUid = "" ∧ c.executionMode ≠ .voice

/-- `_get_card_locked`. -/
def Db.getCard (db : Db) (o : Owner) (id : String) : Option Card := (db.cards.find? (·.id = id)).filter (o.sees ·)

/-- `_require_card_locked`. -/
def Db.requireCard (db : Db) (o : Owner) (id : String) : Bool := (db.getCard o id).isSome

/-! ## Updates -/

/-- `UPDATE cards SET … WHERE id = ?`. -/
def Db.updateCard (db : Db) (id : String) (f : Card → Card) : Db :=
  { db with cards := db.cards.map fun c => if c.id = id then f c else c }

/-- `UPDATE card_runs SET … WHERE …`. -/
def Db.updateRuns (db : Db) (p : CardRun → Bool) (f : CardRun → CardRun) : Db :=
  { db with runs := db.runs.map fun r => if p r then f r else r }

/-- `UPDATE card_commands SET … WHERE …`. -/
def Db.updateCommands (db : Db) (p : Command → Bool) (f : Command → Command) : Db :=
  { db with commands := db.commands.map fun q => if p q then f q else q }

/-- `DELETE FROM cards WHERE …`, with the rows that cascade. -/
def Db.deleteCards (db : Db) (p : Card → Bool) : Db :=
  let gone := (db.cards.filter p).map (·.id)
  { db with
    cards := db.cards.filter (!p ·)
    runs := db.runs.filter (·.cardId ∉ gone)
    links := db.links.filter fun l => l.parentId ∉ gone ∧ l.childId ∉ gone
    commands := db.commands.filter (·.cardId ∉ gone) }

def Db.runsOf (db : Db) (id : String) : List CardRun := db.runs.filter (·.cardId = id)

def Db.commandsOf (db : Db) (id : String) : List Command := db.commands.filter (·.cardId = id)

end Flowly.Board
