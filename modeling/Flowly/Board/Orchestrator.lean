/-
  Flowly.Board.Orchestrator — the runs of cards and their cancels (`flowly/board/orchestrator.py`:
  `_validate_run`, `start_card`, `dispatch_once`, `_execute`, `run_card`, `cancel_card`,
  `stop_dispatcher`).

  A run is a coroutine: it waits for its semaphore, claims its card, waits for the worker, waits
  for the heartbeat to end, and ends after its notifications. An event is what happens between
  two of these waits, of one run or of one call; a run that was cancelled (`interrupted`) takes
  the exception at its wait. A cancel of a card leaves a mark, which the end of the worker reads
  and the end of the heartbeat takes away; a shutdown cancels the runs in turn, those of the
  dispatcher first. When a run gets a semaphore is left open, which allows more runs than there
  are. Voice cards have their own way to be cancelled, in the store.
-/

import Flowly.Board.Dispatch
import Mathlib.Algebra.Group.Int.Defs

namespace Flowly.Board.Orchestrator

/-! ## Runs -/

inductive Phase where
  /-- Not begun, or at the semaphore. -/
  | waiting
  /-- At the profile's semaphore. -/
  | admitted (worker : String)
  /-- The worker has the card. -/
  | working (claimed : Card)
  /-- The heartbeat is to end; an exception has no outcome. -/
  | closing (outcome : Option Outcome) (voice : Bool)
  /-- The notifications. -/
  | tail (outcome : Outcome) (voice : Bool)
  deriving DecidableEq

structure Run where
  no : Nat
  card : String
  /-- Of `start_card`, not of the dispatcher. -/
  manual : Bool
  owner : Owner
  /-- It is in `_manual_tasks` or in `_dispatch_tasks`. -/
  listed : Bool := true
  phase : Phase := .waiting
  /-- `task.cancel()` was called, and takes effect at its wait. -/
  interrupted : Bool := false
  /-- The calls of `cancel_card` that wait for it. -/
  waiters : List Owner := []
  /-- `cancel_card` was called for its card since it was reserved. -/
  asked : Bool := false

/-- What `stop_dispatcher` waits for, by the numbers of the runs. -/
inductive Stopping where
  | no
  | dispatched (awaited : List Nat)
  | manual (awaited : List Nat)
  deriving DecidableEq

structure St where
  db : Db
  runs : List Run := []
  /-- `_cancel_requests`. -/
  marks : List String := []
  stopping : Stopping := .no
  nextNo : Nat := 0
  /-- The runs that are over, as they were at the end; one without an outcome ended by an exception. -/
  ended : List Run := []

/-- How a worker ends: what `await task` does. -/
inductive Settled where
  | done
  | cancelled
  /-- `terminal_state` is "aborted"; whether a voice card's outcome is certain. -/
  | raised (aborted uncertain : Bool)

def MAX_PARALLEL : Nat := 5
def LEASE_SECONDS : Int := 60

def Phase.isWorking : Phase → Bool
  | .working _ => true
  | .waiting | .admitted _ | .closing _ _ | .tail _ _ => false

/-- It has no outcome yet. -/
def Phase.open_ : Phase → Bool
  | .waiting | .admitted _ | .working _ => true
  | .closing _ _ | .tail _ _ => false

/-- What a run has come to. -/
def Phase.outcome : Phase → Option (Outcome × Bool)
  | .waiting | .admitted _ | .working _ => none
  | .closing outcome voice => outcome.map (·, voice)
  | .tail outcome voice => some (outcome, voice)

def Settled.outcome (marked voice : Bool) : Settled → Outcome
  | .done => .done
  | .cancelled => if marked then .cancelled else .failed
  | .raised aborted _ => if voice && aborted then .cancelled else .failed

/-- `min(300, 5 * 2 ** (attempt - 1))` after an error. -/
def Settled.retryDelay (attempt : Nat) : Settled → Int
  | .raised _ _ => min 300 (5 * 2 ^ (attempt - 1))
  | .done | .cancelled => 0

def Settled.uncertain (voice : Bool) : Settled → Bool
  | .done => false
  | .cancelled => voice
  | .raised _ uncertain => voice && uncertain

def Run.cancel (r : Run) : Run := if r.phase.isWorking then r else { r with interrupted := true }

namespace St

variable (s : St)

/-- A run of the card is listed, or its worker runs. -/
def taken (id : String) : Bool := s.runs.any fun r => r.card = id ∧ (r.listed ∨ r.phase.isWorking)

def update (no : Nat) (f : Run → Run) : St := { s with runs := s.runs.map fun r => if r.no = no then f r else r }

/-! ## Reservations -/

def reserve (id : String) (manual : Bool) (o : Owner) : St :=
  { s with runs := s.runs ++ [{ no := s.nextNo, card := id, manual, owner := o }], nextNo := s.nextNo + 1 }

def validateRun (o : Owner) (id : String) : Option Card :=
  (s.db.getCard o id).filter fun card =>
    !(card.claimToken.isSome || s.taken id) && !card.status.terminal &&
      decide (card.status = .todo ∨ card.status = .ready ∨ card.status = .waiting)

def startCard (o : Owner) (id : String) : St := if (s.validateRun o id).isSome then s.reserve id true o else s

def dispatched : List Run := s.runs.filter fun r => !r.manual && r.listed

def candidates (o : Owner) (now : Int) : List Card :=
  let busy := s.dispatched.filterMap fun r => (s.db.getCard o r.card).bind fun card =>
    if card.assigneeProfile ≠ "" ∧ card.executionMode ≠ .voice then some card.assigneeProfile else none
  let available := MAX_PARALLEL - s.dispatched.length
  if available = 0 then [] else Dispatch.listDispatchable s.db o now available busy

def dispatchOnce (o : Owner) (now : Int) : St :=
  let s := { s with db := s.db.recoverExpiredClaims o now }
  (s.candidates o now).foldl (fun s card => if s.taken card.id then s else s.reserve card.id false o) s

/-! ## The end of a run -/

/-- The end of `cancel_card`, once the task it waits for is done. -/
def confirm (db : Db) (id : String) (o : Owner) : Db :=
  match db.getCard o id with
  | none => db
  | some card => if card.status.terminal then db else (db.setStatus o id .cancelled false false none).getD db

def confirmAll (db : Db) (r : Run) : Db := r.waiters.foldl (confirm · r.card) db

/-- A run is over: `_done` takes its card off the list, and the cancels of a run of `start_card` go on. -/
def finish (r : Run) : St :=
  { s with
    db := if r.manual then confirmAll s.db r else s.db
    runs := (s.runs.filter (·.no ≠ r.no)).map fun r' =>
      if r'.card = r.card ∧ r'.manual = r.manual then { r' with listed := false } else r'
    ended := s.ended ++ [r] }

/-! ## The steps of a run -/

def enter (r : Run) : St :=
  match s.db.getCard r.owner r.card with
  | none => s.update r.no fun r => { r with phase := .tail .failed false }
  | some card =>
    if card.status = .cancelled then s.update r.no fun r => { r with phase := .tail .cancelled (card.executionMode = .voice) }
    else s.update r.no fun r =>
      { r with phase := .admitted (if card.assigneeProfile ≠ "" then card.assigneeProfile else "default") }

/-- The run has the profile's semaphore, and claims its card; a card that is not there is an exception. -/
def claim (r : Run) (worker runId : String) (now : Int) : St :=
  if (s.db.getCard r.owner r.card).isNone ∨ 128 < worker.length then s.finish r
  else match s.db.claimCard r.owner r.card worker LEASE_SECONDS r.manual runId now with
    | none => s.update r.no fun r => { r with phase := .tail .failed false }
    | some db =>
      match db.getCard r.owner r.card with
      | none => s
      | some claimed => { s with db }.update r.no fun r => { r with phase := .working claimed }

/-- The worker has ended. What `finish_claim` refuses is raised. -/
def settle (r : Run) (claimed : Card) (how : Settled) (now : Int) : St :=
  let voice := claimed.executionMode = .voice
  let outcome := how.outcome (s.marks.any (· = r.card)) voice
  let db? := s.db.finishClaim r.owner r.card (claimed.claimToken.getD 0) outcome (how.retryDelay claimed.attemptCount)
    (how.uncertain voice) now
  let db := db?.getD s.db
  { s with db := if r.manual then db else confirmAll db r }.update r.no fun r =>
    { r with phase := .closing (db?.map fun _ => outcome) voice, waiters := if r.manual then r.waiters else [] }

def close (r : Run) (outcome : Option Outcome) (voice : Bool) : St :=
  let s := { s with marks := s.marks.filter (· ≠ r.card) }
  match outcome with
  | none => s.finish r
  | some o => s.update r.no fun r => { r with phase := .tail o voice }

/-! ## Cancels -/

/-- The task that `cancel_card` finds. -/
def target (id : String) : Option Run :=
  (s.runs.find? fun r => r.manual ∧ r.listed ∧ r.card = id).or (s.runs.find? fun r => r.phase.isWorking ∧ r.card = id)

def ask (id : String) : St := { s with runs := s.runs.map fun r => if r.card = id then { r with asked := true } else r }

/-- `cancel_card`, up to where it waits; `commandId` is drawn by `uuid4`. -/
def cancelCard (o : Owner) (id commandId : String) (now : Int) : St :=
  match s.db.getCard o id with
  | none => s
  | some card =>
    if card.executionMode = .voice then
      { s with db := (s.db.cancel o card.voiceConversationId id commandId card.revision).getD s.db }.ask id
    else
      match s.target id with
      | some r =>
        { s.ask id with marks := id :: s.marks }.update r.no fun r => { r.cancel with waiters := r.waiters ++ [o] }
      | none =>
        if card.status.terminal then s.ask id
        else
          let db? := match card.claimToken with
            | some token => s.db.finishClaim o id token .cancelled 0 false now
            | none => s.db.setStatus o id .cancelled false false none
          { s with db := db?.getD s.db }.ask id

/-! ## Shutdown -/

/-- `stop_dispatcher` cancels the runs of the dispatcher. -/
def stop : St :=
  match s.stopping with
  | .no =>
    { s with
      runs := s.runs.map fun r => if !r.manual && r.listed then r.cancel else r
      stopping := .dispatched (s.dispatched.map (·.no)) }
  | .dispatched _ | .manual _ => s

def noneLeft (awaited : List Nat) : Bool := s.runs.all (·.no ∉ awaited)

/-- `stop_dispatcher` goes on when the runs it waits for are over. -/
def stopNext : St :=
  match s.stopping with
  | .no => s
  | .dispatched awaited =>
    if s.noneLeft awaited then
      { s with
        runs := s.runs.map fun r => if r.manual && r.listed then r.cancel else if r.manual then r else { r with listed := false }
        stopping := .manual ((s.runs.filter fun r => r.manual && r.listed).map (·.no)) }
    else s
  | .manual awaited =>
    if s.noneLeft awaited then
      { s with runs := s.runs.map fun r => if r.manual then { r with listed := false } else r, stopping := .no }
    else s

end St

/-! ## Events -/

inductive Ev where
  | startCard (o : Owner) (id : String)
  | dispatchOnce (o : Owner) (now : Int)
  | enter (no : Nat)
  | claim (no : Nat) (runId : String) (now : Int)
  | settle (no : Nat) (how : Settled) (now : Int)
  | close (no : Nat)
  /-- The notifications are sent. -/
  | finish (no : Nat)
  /-- A cancelled run takes the exception. -/
  | unwind (no : Nat)
  | heartbeat (no : Nat) (now : Int)
  | cancelCard (o : Owner) (id commandId : String) (now : Int)
  | stop
  | stopNext
  /-- A card is moved on the board, or set back by "retry". -/
  | move (o : Owner) (id : String) (status : Status) (clearRunId clearSchedule : Bool) (expectedRevision : Option Nat)

/-- A run takes its next step; one that is cancelled takes none but to unwind, or to end. -/
def St.step (s : St) (r : Run) : Ev → St
  | .enter _ => if r.phase = .waiting ∧ !r.interrupted then s.enter r else s
  | .claim _ runId now =>
    match r.phase with
    | .admitted worker => if r.interrupted then s else s.claim r worker runId now
    | _ => s
  | .settle _ how now =>
    match r.phase with
    | .working claimed => s.settle r claimed how now
    | _ => s
  | .close _ =>
    match r.phase with
    | .closing outcome voice => if r.interrupted then s else s.close r outcome voice
    | _ => s
  | .finish _ =>
    match r.phase with
    | .tail _ _ => s.finish r
    | _ => s
  | .unwind _ => if r.interrupted then s.finish r else s
  | .heartbeat _ now =>
    match r.phase with
    | .working claimed =>
      { s with db := (s.db.heartbeatClaim r.owner r.card (claimed.claimToken.getD 0) LEASE_SECONDS now).getD s.db }
    | _ => s
  | _ => s

/-- The number of the run that an event is of. -/
def Ev.run : Ev → Option Nat
  | .enter no | .claim no _ _ | .settle no _ _ | .close no | .finish no | .unwind no | .heartbeat no _ => some no
  | .startCard _ _ | .dispatchOnce _ _ | .cancelCard _ _ _ _ | .stop | .stopNext | .move _ _ _ _ _ _ => none

def St.call (s : St) : Ev → St
  | .startCard o id => s.startCard o id
  | .dispatchOnce o now => s.dispatchOnce o now
  | .cancelCard o id commandId now => s.cancelCard o id commandId now
  | .stop => s.stop
  | .stopNext => s.stopNext
  | .move o id status clearRunId clearSchedule rev =>
    { s with db := (s.db.setStatus o id status clearRunId clearSchedule rev).getD s.db }
  | _ => s

def St.next (s : St) (e : Ev) : St :=
  match e.run with
  | none => s.call e
  | some no =>
    match s.runs.find? (·.no = no) with
    | some r => s.step r e
    | none => s

end Flowly.Board.Orchestrator
