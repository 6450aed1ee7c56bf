/-
  Flowly.Agenda.Service — the agendas of the agents on one machine and the budget they
  share (`AgendaService` of `flowly/agenda/service.py`).

  An agent runs its service and the agent loop in one process. One access of a file is one
  event, and so is what a process does without suspending; the events of all processes
  interleave. A tick reads the clock, lists what is due, and for each item decides,
  reserves and starts (`consider`, `reserve`, `begin`). The task of a wake-up publishes a
  turn and waits; the agent loop ends the turn and calls `turn_finished` (`finish`); the
  task takes the outcome up later (`resume`), times out or is cancelled by `stop`, and a
  cancelled task gives its slot back when it is next run (`unwind`). A turn may outlive all
  of that, or never report (`lost`). The daily review writes nothing here and is left out;
  what it plans is scheduled. Settings are fixed.

  Ghosts: the turns the agent loop runs, which wake-ups were started and which of them were
  moot then, what was spoken with which slot, the clock readings slots were reserved with,
  and the slots whose process was stopped or died on them.
-/

import Flowly.Agenda.Budget
import Flowly.Agenda.Store
import Flowly.Lib.Reach

namespace Flowly.Agenda

open Flowly.Lib

def MAX_CONCURRENT_WAKES : Nat := 2

structure Settings where
  level : Level := .normal
  quietStart : Nat := 22 * 60
  quietEnd : Nat := 9 * 60

inductive Outcome where
  | delivered (text : Text)
  | silent
  | failed
  deriving DecidableEq

inductive Phase where
  | created
  /-- Its turn is published; the future has an outcome once the turn reported. -/
  | waiting (turn : Nat) (outcome : Option Outcome)
  | notifying
  deriving DecidableEq

structure Wake where
  item : Item
  token : Nat
  at_ : Int
  phase : Phase := .created

inductive Stage where
  | next
  | decided (item : Item)
  | reserved (item : Item) (token : Nat)
  deriving DecidableEq

structure Tick where
  now : Int
  due : List Item
  busySessions : List Text
  stage : Stage := .next

/-- A turn of the agent loop that a wake-up published. -/
structure Turn where
  number : Nat
  item : Nat
  sessionKey : Text
  token : Nat
  at_ : Int

/-- Ghost: a wake-up was started, and the owner had written after it was scheduled. -/
structure Start where
  item : Nat
  moot : Bool

structure Agent where
  data : Data := {}
  alive : Bool := false
  tick : Option Tick := none
  /-- `_running`, with the futures of `_turns`. -/
  wakes : List Wake := []
  /-- The slots of the tasks that `stop` cancelled and that have not run since. -/
  unwinding : List Nat := []
  turns : List Turn := []
  nextItem : Nat := 0
  nextTurn : Nat := 0
  starts : List Start := []
  /-- Ghost: the items on the agenda when the owner wrote in their conversation. -/
  answered : List Nat := []

/-- Ghost: a message, with the slot of the wake-up whose turn it is. -/
structure Spoken (n : Nat) where
  token : Nat
  profile : Fin n
  at_ : Int

structure Shared (n : Nat) where
  budget : List (Entry (Fin n)) := []
  nextToken : Nat := 0
  spoken : List (Spoken n) := []
  readings : List Int := []
  abandoned : List Nat := []

inductive Waking where
  | died
  | unpublished
  | published

inductive Act where
  | schedule (r : Request) (now : Int)
  | restoreForObjective (clean : Text → Except ObjectiveError Text) (objectiveId : Text)
      (sessionKey : Except ObjectiveError Text) (fallbackNote : Text) (now : Int)
  | cancel (id : Nat) (reason : Text) (now : Int)
  | cancelForObjective (objectiveId reason : Text) (now : Int)
  | ownerWrote (sessionKey : Text) (now : Int)
  | start (now : Int)
  | stop
  | crash
  | unwind (token : Nat)
  | tick (now : Int)
  | consider (sessionBusy : Bool) (objectiveStatus : Option String) (now : Int)
  | reserve
  | begin (now : Int)
  | wake (id : Nat) (how : Waking) (now : Int)
  | finish (turn : Nat) (outcome : Outcome) (now : Int)
  | lost (turn : Nat)
  | resume (id : Nat) (now : Int)
  | timeout (id : Nat) (now : Int)
  | notified (id : Nat)

variable {n : Nat}

/-! ## The wake-ups of an agent -/

def Agent.wakeOf (a : Agent) (id : Nat) : Option Wake := a.wakes.find? (·.item.id = id)

def Agent.drop (a : Agent) (id : Nat) : Agent := { a with wakes := a.wakes.filter (·.item.id ≠ id) }

def Agent.enter (a : Agent) (id : Nat) (phase : Phase) : Agent :=
  { a with wakes := a.wakes.map fun w => if w.item.id = id then { w with phase } else w }

def Phase.isWaiting : Phase → Bool
  | .waiting _ _ => true
  | _ => false

def Stage.tokens : Stage → List Nat
  | .reserved _ token => [token]
  | _ => []

def Agent.stageTokens (a : Agent) : List Nat := a.tick.elim [] fun t => t.stage.tokens

/-- The reason of a turn that failed; the exception names its type. -/
def turnFailed : Text := "turn_failed".toList

/-- The line ends of `str.splitlines`. -/
def lineEnds : List Char :=
  ['\n', '\r', '\x0b', '\x0c', '\x1c', '\x1d', '\x1e', '\u0085', '\u2028', '\u2029']

def preview (text : Text) : Text := (((text.splitOnP (· ∈ lineEnds)).map Text.strip).find? (· ≠ [])).getD []

def Agent.owns (a : Agent) (sessionKey : Text) : List Nat :=
  (a.data.items.filter (·.sessionKey = sessionKey)).map (·.id)

/-! ## One pass -/

def Agent.facts (a : Agent) (settings : Settings) (item : Item) (now : Int) (counts : Nat × Nat) (sessionBusy : Bool)
    (objectiveStatus : Option String) : Facts :=
  { nowMs := now
    level := settings.level
    quietStart := settings.quietStart
    quietEnd := settings.quietEnd
    unanswered := (a.data.conversation item.sessionKey).unanswered
    lastProactiveMs := (a.data.conversation item.sessionKey).lastProactiveAt
    sentTodayByAgent := counts.1
    sentTodayByAll := counts.2
    sessionBusy
    objectiveStatus := if item.kind = .objective then objectiveStatus else none
    isObjective := item.kind = .objective
    ownerLastActiveMs := a.data.lastOwner }

def Agent.considered (a : Agent) (zone : Zone) (settings : Settings) (counts : Int → Nat × Nat) (sessionBusy : Bool)
    (objectiveStatus : Option String) (now : Int) : Agent :=
  match a.tick with
  | none => a
  | some t =>
    match t.stage, t.due with
    | .next, [] => { a with tick := none }
    | .next, item :: rest =>
      if MAX_CONCURRENT_WAKES ≤ a.wakes.length then { a with tick := none }
      else if item.sessionKey ∈ t.busySessions ∨ (a.wakeOf item.id).isSome then
        { a with tick := some { t with due := rest } }
      else
        match Policy.decide zone (a.facts settings item t.now (counts t.now) sessionBusy objectiveStatus) with
        | .drop reason =>
          { a with data := a.data.settle item.id "dropped" reason.toList [] now, tick := some { t with due := rest } }
        | .defer reason untilMs =>
          let untilMs := if untilMs = 0 then t.now + BUSY_RETRY_MS else untilMs
          { a with data := a.data.defer item.id untilMs reason.toList, tick := some { t with due := rest } }
        | .run => { a with tick := some { t with due := rest, stage := .decided item } }
    | _, _ => a

def Agent.reserved (a : Agent) (zone : Zone) (settings : Settings) (p : Fin n) (sh : Shared n) : Agent × Shared n :=
  match a.tick with
  | none => (a, sh)
  | some t =>
    match t.stage with
    | .decided item =>
      match Agenda.reserve zone p (DAILY_CAP_BY_LEVEL settings.level) GLOBAL_DAILY_CAP sh.nextToken t.now sh.budget with
      | none =>
        let untilMs := nextDayStart zone t.now settings.quietEnd
        ({ a with data := a.data.defer item.id untilMs "daily_limit".toList, tick := some { t with stage := .next } }, sh)
      | some budget =>
        ({ a with tick := some { t with stage := .reserved item sh.nextToken } },
          { sh with budget, nextToken := sh.nextToken + 1, readings := t.now :: sh.readings })
    | _ => (a, sh)

def Agent.began (a : Agent) (now : Int) (sh : Shared n) : Agent × Shared n :=
  match a.tick with
  | none => (a, sh)
  | some t =>
    match t.stage with
    | .reserved item token =>
      match a.data.start item.id now with
      | none => ({ a with tick := some { t with stage := .next } }, { sh with budget := release token sh.budget })
      | some (data, started) =>
        ({ a with
            data
            tick := some { t with busySessions := item.sessionKey :: t.busySessions, stage := .next }
            wakes := a.wakes ++ [{ item := started, token, at_ := t.now }]
            starts := ⟨started.id, started.cancelOnReply && decide (started.id ∈ a.answered)⟩ :: a.starts }, sh)
    | _ => (a, sh)

/-! ## A wake-up -/

def Agent.gaveUp (a : Agent) (id : Nat) (now : Int) : Agent :=
  { a with data := a.data.retryOrGiveUp id turnFailed now }.drop id

def Agent.woke (a : Agent) (id : Nat) (how : Waking) (now : Int) (sh : Shared n) : Agent × Shared n :=
  match a.wakeOf id with
  | none => (a, sh)
  | some w =>
    if w.phase = .created then
      match how with
      | .died => (a.drop id, { sh with abandoned := sh.abandoned ++ [w.token] })
      | .unpublished => (a.gaveUp id now, { sh with budget := release w.token sh.budget })
      | .published =>
        ({ a.enter id (.waiting a.nextTurn none) with
            turns := a.turns ++ [⟨a.nextTurn, id, w.item.sessionKey, w.token, w.at_⟩]
            nextTurn := a.nextTurn + 1 }, sh)
    else (a, sh)

def Agent.late (a : Agent) (t : Turn) (text : Text) (now : Int) : Agent :=
  { a with data := (a.data.delivered t.sessionKey now).settle t.item "delivered" "late".toList (preview text) now }

def Shared.speak (sh : Shared n) (p : Fin n) (t : Turn) : Outcome → Shared n
  | .delivered _ => { sh with spoken := ⟨t.token, p, t.at_⟩ :: sh.spoken }
  | .silent | .failed => sh

/-- `turn_finished`: the outcome goes to whatever wake-up of the item waits. -/
def Agent.turnFinished (a : Agent) (t : Turn) (outcome : Outcome) (now : Int) : Agent :=
  match (a.wakeOf t.item).map Wake.phase with
  | some (.waiting turn none) => a.enter t.item (.waiting turn (some outcome))
  | _ =>
    match outcome with
    | .delivered text => a.late t text now
    | .silent | .failed => a

def Agent.finished (a : Agent) (turn : Nat) (outcome : Outcome) (now : Int) (p : Fin n) (sh : Shared n) : Agent × Shared n :=
  match a.turns.find? (·.number = turn) with
  | none => (a, sh)
  | some t => ({ a with turns := a.turns.filter (·.number ≠ turn) }.turnFinished t outcome now, sh.speak p t outcome)

def Agent.resumed (a : Agent) (id : Nat) (now : Int) (sh : Shared n) : Agent × Shared n :=
  match a.wakeOf id with
  | none => (a, sh)
  | some w =>
    match w.phase with
    | .waiting _ (some (.delivered text)) =>
      let data := (a.data.delivered w.item.sessionKey now).settle id "delivered" [] (preview text) now
      ({ a with data }.enter id .notifying, { sh with budget := confirm w.token sh.budget })
    | .waiting _ (some .silent) =>
      ({ a with data := a.data.settle id "silent" [] [] now }.drop id, { sh with budget := release w.token sh.budget })
    | .waiting _ (some .failed) => (a.gaveUp id now, { sh with budget := release w.token sh.budget })
    | _ => (a, sh)

def Agent.timedOut (a : Agent) (id : Nat) (now : Int) (sh : Shared n) : Agent × Shared n :=
  match a.wakeOf id with
  | none => (a, sh)
  | some w =>
    if w.phase.isWaiting then (a.gaveUp id now, { sh with budget := release w.token sh.budget }) else (a, sh)

/-! ## Start and stop -/

/-- A task that was cancelled before its first step gives nothing back. -/
def Agent.stopped (a : Agent) (sh : Shared n) : Agent × Shared n :=
  let waiting := (a.wakes.filter (·.phase.isWaiting)).map (·.token)
  let created := (a.wakes.filter (·.phase = .created)).map (·.token)
  ({ a with alive := false, tick := none, wakes := [], unwinding := a.unwinding ++ waiting },
    { sh with abandoned := sh.abandoned ++ (a.stageTokens ++ created) })

def Agent.crashed (a : Agent) (sh : Shared n) : Agent × Shared n :=
  ({ a with alive := false, tick := none, wakes := [], unwinding := [], turns := [] },
    { sh with abandoned := sh.abandoned ++ (a.stageTokens ++ a.wakes.map (·.token) ++ a.unwinding) })

def Agent.unwound (a : Agent) (token : Nat) (sh : Shared n) : Agent × Shared n :=
  if token ∈ a.unwinding then
    ({ a with unwinding := a.unwinding.filter (· ≠ token) }, { sh with budget := release token sh.budget })
  else (a, sh)

def Agent.adds (a : Agent) : Except ObjectiveError (Data × Option Item) → Agent
  | .ok (data, some _) => { a with data, nextItem := a.nextItem + 1 }
  | .ok (data, none) => { a with data }
  | .error _ => a

variable (zone : Zone) (settings : Fin n → Settings)

def Agent.act (p : Fin n) (a : Agent) (sh : Shared n) : Act → Agent × Shared n
  | .schedule r now => (a.adds (a.data.schedule r a.nextItem now), sh)
  | .restoreForObjective clean objectiveId sessionKey fallbackNote now =>
    (a.adds (a.data.restoreForObjective clean objectiveId sessionKey fallbackNote a.nextItem now), sh)
  | .cancel id reason now => ({ a with data := a.data.cancel id reason now }, sh)
  | .cancelForObjective objectiveId reason now => ({ a with data := a.data.cancelForObjective objectiveId reason now }, sh)
  | .ownerWrote sessionKey now =>
    if isOwnerConversation sessionKey then
      ({ a with data := a.data.ownerWrote sessionKey now, answered := a.answered ++ a.owns sessionKey }, sh)
    else (a, sh)
  | .start now => if a.alive then (a, sh) else ({ a with data := a.data.recoverInterrupted now, alive := true }, sh)
  | .stop => if a.alive then a.stopped sh else (a, sh)
  | .crash => a.crashed sh
  | .unwind token => a.unwound token sh
  | .tick now =>
    if a.alive ∧ a.tick = none then
      ({ a with tick := some { now, due := a.data.due now, busySessions := a.wakes.map (·.item.sessionKey) } }, sh)
    else (a, sh)
  | .consider sessionBusy objectiveStatus now =>
    (a.considered zone (settings p) (fun t => counts zone p t sh.budget) sessionBusy objectiveStatus now, sh)
  | .reserve => a.reserved zone (settings p) p sh
  | .begin now => a.began now sh
  | .wake id how now => a.woke id how now sh
  | .finish turn outcome now => a.finished turn outcome now p sh
  | .lost turn => ({ a with turns := a.turns.filter (·.number ≠ turn) }, sh)
  | .resume id now => a.resumed id now sh
  | .timeout id now => a.timedOut id now sh
  | .notified id => (if (a.wakeOf id).map Wake.phase = some .notifying then a.drop id else a, sh)

structure System (n : Nat) where
  agents : Fin n → Agent := fun _ => {}
  shared : Shared n := {}

structure Event (n : Nat) where
  profile : Fin n
  act : Act

def step (s : System n) (e : Event n) : System n :=
  let (a, shared) := (s.agents e.profile).act zone settings e.profile s.shared e.act
  { agents := Function.update s.agents e.profile a, shared }

end Flowly.Agenda
