/-
  Flowly.Session.Commands — the receipts of chat commands (`flowly/session/commands.py`),
  one database shared by any number of processes.

  Actors. A process has one `ChatCommandStore`, with its own owner id and a lock that its
  threads take in turn. `accept` and `settle` are one transaction each. `begin_execution`
  and `finish_execution` read first and write in a transaction of their own, with the lock
  held; other processes may write in between. `lookup` reads the row and later, with the
  lock taken again, its goal binding. A call may end at any point with an exception, or
  with its process.

  Proved, for every interleaving (`executed_once`): a run that is known was inserted by
  exactly one accept; an accept of another session or content raises and changes nothing;
  a row in a terminal status stays as it is, with its goal binding; the process whose
  accept inserted a row is the only one that moves it; any other sees `status_unknown`
  until it is terminal, and a receipt made of a terminal row has its status (`Tells`).
-/

import Mathlib.Data.Set.Function
import Mathlib.Data.List.Nodup
import Flowly.Lib.Reach

namespace Flowly.Session.Commands

open Flowly.Lib

inductive Status where
  | accepted
  | running
  | completed
  | aborted
  | error
  deriving DecidableEq

def Status.terminal : Status → Bool
  | .completed | .aborted | .error => true
  | .accepted | .running => false

/-! ## Goals -/

inductive Field where
  | int (n : Int)
  | str (s : String)
  | other

structure RawGoal where
  goalId : Field
  status : Field
  revision : Field
  createdByRunId : Field := .other

inductive Snapshot where
  /-- Not a dict, or `available` is not `True`. -/
  | unavailable
  /-- `goal` is missing or `None`. -/
  | noGoal
  | goal (g : RawGoal)
  /-- `goal` is not a dict. -/
  | other

inductive GoalStatus where
  | active
  | paused
  | done
  | cleared
  deriving DecidableEq

def GoalStatus.parse : Field → Option GoalStatus
  | .str "active" => some .active
  | .str "paused" => some .paused
  | .str "done" => some .done
  | .str "cleared" => some .cleared
  | _ => none

structure Goal where
  goalId : String
  status : GoalStatus
  revision : Nat
  createdByRunId : Option String

structure Observation where
  available : Bool
  goal : Option Goal

def Observation.unknown : Observation := ⟨false, none⟩

def goalObservation : Snapshot → Observation
  | .unavailable | .other => .unknown
  | .noGoal => ⟨true, none⟩
  | .goal g =>
    match g.goalId, GoalStatus.parse g.status, g.revision with
    | .str goalId, some status, .int revision =>
      if 1 ≤ goalId.length ∧ goalId.length ≤ 512 ∧ 0 ≤ revision then
        ⟨true, some { goalId, status, revision := revision.toNat
                      createdByRunId := match g.createdByRunId with | .str id => some id | _ => none }⟩
      else .unknown
    | _, _, _ => .unknown

inductive GoalBinding where
  /-- With the goal that was active or paused when the turn began. -/
  | pending (goal : Option (String × Nat))
  | unknown
  | none
  | goal (goalId : String) (revision : Nat)

def Observation.live (o : Observation) : Option Goal :=
  o.goal.filter fun g => g.status = .active ∨ g.status = .paused

def goalBinding (before after : Observation) (runId : String) : GoalBinding :=
  if before.available = false then .unknown
  else match before.live with
    | some previous => .goal previous.goalId previous.revision
    | none =>
      if after.available = false then .unknown
      else match after.goal with
        | none => .none
        | some current =>
          if current.createdByRunId = some runId then .goal current.goalId current.revision
          else if before.goal.any (current.goalId = ·.goalId) ∧ (current.status = .done ∨ current.status = .cleared) then
            .none
          else .unknown

/-! ## Rows -/

/-- `owner_metadata`. -/
inductive VoiceOwner where
  | host
  | account (uid : String)
  deriving DecidableEq

abbrev Owner := String

/-- A row of `chat_commands`, under its `run_id`. -/
structure Command (D : Type) where
  sessionKey : String
  fingerprint : D
  ownerId : Owner
  status : Status
  /-- `voice_owner_json`: the JSON `null` or an owner. -/
  voiceOwner : Option VoiceOwner

/-- A row of `chat_command_goals`. -/
structure GoalRow where
  before : Observation
  binding : GoalBinding

structure Db (D : Type) where
  commands : String → Option (Command D) := fun _ => none
  goals : String → Option GoalRow := fun _ => none

/-- What `json.dumps` and SHA-256 make of a request's fields; `none` where they raise. -/
structure Hashing (V D : Type) where
  str : String → V
  fingerprint : (String → Option V) → Option D

structure Request (V : Type) where
  sessionKey : String
  runId : String
  params : String → Option V
  /-- The owner that `SessionControlScope.capture` finds, or that it raises. -/
  scope : Option (Option VoiceOwner)
  /-- What the scope's guard says. -/
  allowed : Bool := true

/-- `status` is `none` for `status_unknown`. -/
structure Receipt where
  runId : String
  status : Option Status
  replayed : Bool
  goalBinding : Option GoalBinding

inductive Raised where
  | valueError
  | sessionAccess
  | conflict

variable {V D : Type}

def Hashing.canonical (H : Hashing V D) (r : Request V) : String → Option V :=
  Function.update (Function.update r.params "sessionKey" (some (H.str r.sessionKey))) "idempotencyKey" none

/-- Non-empty, of at most 512 characters, none of them a control character. -/
def validIdentity (s : String) : Bool := s ≠ "" ∧ s.length ≤ 512 ∧ s.toList.all (32 ≤ ·.toNat)

/-- `is_owned_session(key, {})`. -/
def isOwnedSession (key : String) : Bool :=
  let key := key.toList.map fun c => if c = '_' then ':' else c
  "desktop:voice:".toList.isPrefixOf key || "desktop:voice-work:".toList.isPrefixOf key

/-- `SessionControlScope.bind` takes the key. -/
def bindable (key : String) : Bool :=
  1 ≤ key.length ∧ key.length ≤ 512 ∧ key.toList.all fun c => c ≠ '/' ∧ c ≠ '\\' ∧ c.toNat ≠ 0

/-- The owner of `_row_control_scope`, unless it raises. -/
def rowControlOwner (c : Command D) : Option (Option VoiceOwner) :=
  if c.voiceOwner = none ∧ isOwnedSession c.sessionKey then none
  else if bindable c.sessionKey then some c.voiceOwner
  else none

def Db.receipt (db : Db D) (p : Owner) (runId : String) (c : Command D) (replayed : Bool) : Receipt where
  runId
  status := if c.ownerId ≠ p ∧ c.status.terminal = false then none else some c.status
  replayed
  goalBinding := (db.goals runId).map (·.binding)

/-- `INSERT OR IGNORE INTO chat_commands`. -/
def Db.insertOrIgnore (db : Db D) (runId : String) (c : Command D) : Db D :=
  { db with commands := Function.update db.commands runId (some ((db.commands runId).getD c)) }

theorem insertOrIgnore_self (db : Db D) (runId : String) (c : Command D) :
    (db.insertOrIgnore runId c).commands runId = some ((db.commands runId).getD c) := Function.update_self ..

theorem insertOrIgnore_of_ne (db : Db D) {runId run : String} (c : Command D) (hne : run ≠ runId) :
    (db.insertOrIgnore runId c).commands run = db.commands run := Function.update_of_ne hne ..

/-- `accept`, with the database it commits; where it raises, nothing changes. -/
def Db.accept [DecidableEq D] (H : Hashing V D) (db : Db D) (p : Owner) (r : Request V) : Except Raised (Bool × Receipt × Db D) :=
  if validIdentity r.sessionKey = false ∨ validIdentity r.runId = false then .error .valueError
  else match r.scope with
    | none => .error .sessionAccess
    | some owner =>
      match H.fingerprint (H.canonical r) with
      | none => .error .valueError
      | some fingerprint =>
        if r.allowed = false then .error .sessionAccess
        else
          let new : Command D := { sessionKey := r.sessionKey, fingerprint, ownerId := p, status := .accepted
                                   voiceOwner := owner }
          let inserted := (db.commands r.runId).isNone
          let row := (db.commands r.runId).getD new
          let db := db.insertOrIgnore r.runId new
          if rowControlOwner row ≠ some owner then .error .sessionAccess
          else if row.sessionKey ≠ r.sessionKey ∨ row.fingerprint ≠ fingerprint then .error .conflict
          else .ok (inserted, db.receipt p r.runId row !inserted, db)

/-- `run_id = ? AND session_key = ? AND owner_id = ? AND status IN ('accepted', 'running')`. -/
def Db.mine (db : Db D) (p : Owner) (sessionKey runId : String) : Option (Command D) :=
  (db.commands runId).filter fun c => c.sessionKey = sessionKey ∧ c.ownerId = p ∧ c.status.terminal = false

/-- `UPDATE chat_commands SET status = ? WHERE run_id = ?`. -/
def Db.setStatus (db : Db D) (runId : String) (status : Status) : Db D :=
  { db with commands := Function.update db.commands runId ((db.commands runId).map fun c => { c with status }) }

variable {c : Command D} {db : Db D}

theorem setStatus_self {runId : String} (hrow : db.commands runId = some c) (status : Status) :
    (db.setStatus runId status).commands runId = some { c with status } := by
  show Function.update db.commands runId _ runId = _
  rw [Function.update_self, hrow, Option.map_some]

theorem setStatus_none {run : String} (h : db.commands run = none) (runId : String) (status : Status) :
    (db.setStatus runId status).commands run = none := by
  by_cases he : run = runId
  · subst he
    show Function.update db.commands run _ run = none
    rw [Function.update_self, h, Option.map_none]
  · exact (Function.update_of_ne he ..).trans h

/-- `settle`; a status it does not know raises. -/
def Db.settle (db : Db D) (p : Owner) (sessionKey runId : String) (status : Status) : Db D :=
  if status = .accepted then db
  else if (db.mine p sessionKey runId).isSome then db.setStatus runId status
  else db

/-! ## The two halves of an execution -/

/-- A call between its SELECT and its writes. -/
inductive Call where
  | starting (runId : String) (before : Observation) (pending : GoalBinding)
  | finishing (runId : String) (before : Observation) (binding : GoalBinding) (status : Status)

def Call.runId : Call → String
  | .starting runId _ _ | .finishing runId _ _ _ => runId

def Call.status : Call → Status
  | .starting _ _ _ => .running
  | .finishing _ _ _ status => status

def Db.beginExecution (db : Db D) (p : Owner) (sessionKey runId : String) (goal : Snapshot) : Option Call :=
  let observation := goalObservation goal
  (db.mine p sessionKey runId).map fun _ =>
    .starting runId observation (.pending (observation.live.map fun g => (g.goalId, g.revision)))

def Db.finishExecution (db : Db D) (p : Owner) (sessionKey runId : String) (goal : Snapshot) (status : Status) :
    Option Call :=
  if status.terminal = false then none
  else (db.mine p sessionKey runId).map fun _ =>
    let before := ((db.goals runId).map (·.before)).getD .unknown
    .finishing runId before (goalBinding before (goalObservation goal) runId) status

/-- The row of `chat_command_goals` that a call leaves. -/
def Call.goalRow (g : Option GoalRow) : Call → GoalRow
  | .starting _ before pending => g.getD ⟨before, pending⟩
  | .finishing _ before binding _ => ⟨(g.map (·.before)).getD before, binding⟩

def Db.write (db : Db D) (call : Call) : Db D :=
  { db.setStatus call.runId call.status with
    goals := Function.update db.goals call.runId (some (call.goalRow (db.goals call.runId))) }

/-! ## Processes -/

/-- Ghost: an accept that returned `inserted = True`. -/
structure Won (V : Type) where
  owner : Owner
  sessionKey : String
  runId : String
  content : String → Option V

structure St (V D : Type) where
  db : Db D := {}
  /-- What holds the lock of a process's store between two statements. -/
  busy : Owner → Option Call := fun _ => none
  /-- The rows that the lookups of a process read. -/
  lookups : Owner → List (String × Command D) := fun _ => []
  won : List (Won V) := []

inductive Ev (V : Type) where
  | accept (p : Owner) (r : Request V)
  | beginExecution (p : Owner) (sessionKey runId : String) (goal : Snapshot)
  | finishExecution (p : Owner) (sessionKey runId : String) (goal : Snapshot) (status : Status)
  /-- The call under way in `p` writes and ends. -/
  | write (p : Owner)
  /-- The call under way in `p` ends with an exception, or `p` does. -/
  | fail (p : Owner)
  | settle (p : Owner) (sessionKey runId : String) (status : Status)
  | lookup (p : Owner) (sessionKey runId : String)
  /-- A lookup of `p` that has read its row returns. -/
  | reply (p : Owner) (i : Nat) (allowed : Bool)

def Ev.process : Ev V → Owner
  | .accept p _ | .beginExecution p _ _ _ | .finishExecution p _ _ _ _ | .write p | .fail p | .settle p _ _ _
  | .lookup p _ _ | .reply p _ _ => p

inductive Out where
  | none
  | raised (error : Raised)
  | accepted (inserted : Bool) (receipt : Receipt)
  | found (receipt : Option Receipt)

def Out.receipt : Out → Option Receipt
  | .accepted _ receipt => some receipt
  | .found receipt => receipt
  | .none | .raised _ => Option.none

def St.hold (s : St V D) (p : Owner) (call : Option Call) : St V D := { s with busy := Function.update s.busy p call }

theorem hold_self (s : St V D) (p : Owner) (call : Option Call) : (s.hold p call).busy p = call := Function.update_self ..

theorem hold_of_ne (s : St V D) {p q : Owner} (call : Option Call) (hne : q ≠ p) : (s.hold p call).busy q = s.busy q :=
  Function.update_of_ne hne ..

/-- The accept of `p` returned. -/
def St.accepted (H : Hashing V D) (s : St V D) (p : Owner) (r : Request V) (inserted : Bool) (db : Db D) : St V D :=
  { s with db, won := if inserted then ⟨p, r.sessionKey, r.runId, H.canonical r⟩ :: s.won else s.won }

def St.setLookups (s : St V D) (p : Owner) (rows : List (String × Command D)) : St V D :=
  { s with lookups := Function.update s.lookups p rows }

theorem setLookups_self (s : St V D) (p : Owner) (rows : List (String × Command D)) :
    (s.setLookups p rows).lookups p = rows := Function.update_self ..

theorem setLookups_of_ne (s : St V D) {p q : Owner} (rows : List (String × Command D)) (hne : q ≠ p) :
    (s.setLookups p rows).lookups q = s.lookups q := Function.update_of_ne hne ..

def step [DecidableEq D] (H : Hashing V D) (s : St V D) : Ev V → St V D × Out
  | .accept p r =>
    match s.db.accept H p r with
    | .error e => (s, .raised e)
    | .ok (inserted, receipt, db) => (s.accepted H p r inserted db, .accepted inserted receipt)
  | .beginExecution p sessionKey runId goal => (s.hold p (s.db.beginExecution p sessionKey runId goal), .none)
  | .finishExecution p sessionKey runId goal status =>
    (s.hold p (s.db.finishExecution p sessionKey runId goal status), .none)
  | .write p =>
    match s.busy p with
    | none => (s, .none)
    | some call => ({ s.hold p none with db := s.db.write call }, .none)
  | .fail p => (s.hold p none, .none)
  | .settle p sessionKey runId status => ({ s with db := s.db.settle p sessionKey runId status }, .none)
  | .lookup p sessionKey runId =>
    match (s.db.commands runId).filter (·.sessionKey = sessionKey) with
    | none => (s, .found none)
    | some c => (s.setLookups p ((runId, c) :: s.lookups p), .none)
  | .reply p i allowed =>
    match (s.lookups p)[i]? with
    | none => (s, .none)
    | some (runId, c) =>
      (s.setLookups p ((s.lookups p).eraseIdx i),
        if (rowControlOwner c).isNone then .raised .sessionAccess
        else if allowed then .found (some (s.db.receipt p runId c true))
        else .found none)

def next [DecidableEq D] (H : Hashing V D) (s : St V D) (e : Ev V) : St V D := (step H s e).1

/-- A call takes the lock of its store, so none of its process is under way; the contents
    that are sent are among `sent`. -/
def Enabled (H : Hashing V D) (sent : Set (String → Option V)) (s : St V D) : Ev V → Prop
  | .accept p r => s.busy p = none ∧ H.canonical r ∈ sent
  | .beginExecution p _ _ _ | .finishExecution p _ _ _ _ | .settle p _ _ _ | .lookup p _ _ | .reply p _ _ => s.busy p = none
  | .write _ | .fail _ => True

/-! ## What one step does to a row -/

/-- What a call of process `p` may do to the rows of a run. -/
inductive Move (p : Owner) (db db' : Db D) (run : String) : Prop
  | kept : db'.commands run = db.commands run → db'.goals run = db.goals run → Move p db db' run
  | inserted (c : Command D) : db.commands run = none → db'.commands run = some c → c.ownerId = p →
      c.status = .accepted → db'.goals run = db.goals run → Move p db db' run
  | moved (c : Command D) (status : Status) : db.commands run = some c → c.ownerId = p → c.status.terminal = false →
      status ≠ .accepted → db'.commands run = some { c with status } → Move p db db' run

variable {p : Owner}

theorem Move.refl (run : String) : Move p db db run := .kept rfl rfl

/-- What an accept that returns has found or inserted. -/
theorem accept_ok [DecidableEq D] {H : Hashing V D} {db db' : Db D} {r : Request V} {inserted : Bool} {receipt : Receipt}
    (h : db.accept H p r = .ok (inserted, receipt, db')) :
    ∃ c, db' = db.insertOrIgnore r.runId c ∧ db'.commands r.runId = some c ∧ inserted = (db.commands r.runId).isNone ∧
      receipt = db'.receipt p r.runId c (!inserted) ∧ c.sessionKey = r.sessionKey ∧
      H.fingerprint (H.canonical r) = some c.fingerprint ∧
      (db.commands r.runId = none → c.ownerId = p ∧ c.status = .accepted) := by
  unfold Db.accept at h
  split at h
  · cases h
  split at h
  · cases h
  split at h
  · cases h
  rename_i fingerprint hprint
  split at h
  · cases h
  dsimp only at h
  split at h
  · cases h
  split at h
  · cases h
  rename_i hsame
  simp only [Except.ok.injEq, Prod.mk.injEq] at h
  obtain ⟨hins, hreceipt, hdb⟩ := h
  rw [not_or, not_not, not_not] at hsame
  subst hdb
  rw [hins] at hreceipt
  cases hrow : db.commands r.runId with
  | none =>
    simp only [hrow, Option.getD_none] at hsame hreceipt hins
    exact ⟨_, rfl, by rw [insertOrIgnore_self, hrow, Option.getD_none], hins.symm, hreceipt.symm, rfl, hprint,
      fun _ => ⟨rfl, rfl⟩⟩
  | some c =>
    simp only [hrow, Option.getD_some] at hsame hreceipt hins
    refine ⟨c, ?_, by rw [insertOrIgnore_self, hrow, Option.getD_some], hins.symm, hreceipt.symm, hsame.1,
      by rw [hprint, hsame.2], nofun⟩
    unfold Db.insertOrIgnore
    rw [hrow]
    rfl

theorem accept_moves [DecidableEq D] {H : Hashing V D} {db db' : Db D} {r : Request V} {inserted : Bool} {receipt : Receipt}
    (h : db.accept H p r = .ok (inserted, receipt, db')) (run : String) : Move p db db' run := by
  obtain ⟨c, rfl, hrow, -, -, -, -, hnew⟩ := accept_ok h
  by_cases hrun : run = r.runId
  · subst hrun
    cases hold : db.commands r.runId with
    | none => exact .inserted c hold hrow (hnew hold).1 (hnew hold).2 rfl
    | some old =>
      refine .kept ?_ rfl
      rw [insertOrIgnore_self, hold, Option.getD_some]
  · exact .kept (insertOrIgnore_of_ne db c hrun) rfl

/-- Setting the status of a row that is `p`'s and not terminal. -/
theorem setStatus_moves {runId : String} {status : Status}
    (hrow : db.commands runId = some c) (hown : c.ownerId = p) (hlive : c.status.terminal = false)
    (hstatus : status ≠ .accepted) (run : String) : Move p db (db.setStatus runId status) run := by
  by_cases hrun : run = runId
  · subst hrun
    exact .moved c status hrow hown hlive hstatus (setStatus_self hrow status)
  · exact .kept (Function.update_of_ne hrun ..) rfl

theorem mine_some {sessionKey runId : String} (h : db.mine p sessionKey runId = some c) :
    db.commands runId = some c ∧ c.ownerId = p ∧ c.status.terminal = false := by
  obtain ⟨hrow, hmine⟩ := Option.filter_eq_some_iff.1 h
  have hmine := of_decide_eq_true hmine
  exact ⟨hrow, hmine.2.1, hmine.2.2⟩

theorem settle_moves (db : Db D) (p : Owner) (sessionKey runId : String) (status : Status) (run : String) :
    Move p db (db.settle p sessionKey runId status) run := by
  unfold Db.settle
  split
  · exact .refl run
  rename_i hstatus
  split
  · rename_i hmine
    obtain ⟨c, hc⟩ := Option.isSome_iff_exists.1 hmine
    obtain ⟨hrow, hown, hlive⟩ := mine_some hc
    exact setStatus_moves hrow hown hlive hstatus run
  · exact .refl run

theorem write_moves {call : Call} (hrow : db.commands call.runId = some c)
    (hown : c.ownerId = p) (hlive : c.status.terminal = false) (hstatus : call.status ≠ .accepted) (run : String) :
    Move p db (db.write call) run := by
  by_cases hrun : run = call.runId
  · subst hrun
    exact .moved c call.status hrow hown hlive hstatus (setStatus_self hrow call.status)
  · exact .kept (Function.update_of_ne hrun ..) (Function.update_of_ne hrun ..)

/-- A row under a move of `p`: its owner, session and content stay; it moves only if it is
    `p`'s and not terminal, and never back to accepted. -/
theorem Move.row {db db' : Db D} {run : String} (h : Move p db db' run) (hc : db.commands run = some c) :
    ∃ c', db'.commands run = some c' ∧ c'.sessionKey = c.sessionKey ∧ c'.fingerprint = c.fingerprint ∧
      c'.ownerId = c.ownerId ∧
      (c' = c ∧ db'.goals run = db.goals run ∨ c.ownerId = p ∧ c.status.terminal = false ∧ c'.status ≠ .accepted) := by
  cases h with
  | kept hrow hgoal => exact ⟨c, by rw [hrow, hc], rfl, rfl, rfl, .inl ⟨rfl, hgoal⟩⟩
  | inserted _ hnone => rw [hnone] at hc; cases hc
  | moved c₀ status hold hown hlive hstatus hnew =>
    obtain rfl := Option.some.inj (hold.symm.trans hc)
    exact ⟨_, hnew, rfl, rfl, rfl, .inr ⟨hown, hlive, hstatus⟩⟩

/-! ## Invariant -/

structure Inv (H : Hashing V D) (sent : Set (String → Option V)) (s : St V D) : Prop where
  once : (s.won.map (·.runId)).Nodup
  known : ∀ run, (s.db.commands run).isSome → run ∈ s.won.map (·.runId)
  row : ∀ w ∈ s.won, ∃ c, s.db.commands w.runId = some c ∧ c.sessionKey = w.sessionKey ∧ c.ownerId = w.owner ∧
    H.fingerprint w.content = some c.fingerprint
  sent : ∀ w ∈ s.won, w.content ∈ sent
  /-- A call under way has the row it read. -/
  busy : ∀ p call, s.busy p = some call → call.status ≠ .accepted ∧
    ∃ c, s.db.commands call.runId = some c ∧ c.ownerId = p ∧ c.status.terminal = false
  /-- A row that a lookup read is an earlier one of the same owner, or the row itself. -/
  lookups : ∀ p, ∀ l ∈ s.lookups p, ∃ c, s.db.commands l.1 = some c ∧ c.ownerId = l.2.ownerId ∧
    (l.2.status.terminal → c = l.2)

theorem Inv.start (H : Hashing V D) (sent : Set (String → Option V)) : Inv H sent {} where
  once := List.nodup_nil
  known _ h := by cases h
  row _ h := by cases h
  sent _ h := by cases h
  busy _ _ h := by cases h
  lookups _ _ h := by cases h

section
variable {H : Hashing V D} {sent : Set (String → Option V)} {s : St V D} {p : Owner}

/-- `p` moves rows, with no call under way; `won` has the accepts that returned True by then. -/
theorem Inv.moves (hi : Inv H sent s) {db : Db D} {won : List (Won V)} (hmoves : ∀ run, Move p s.db db run)
    (hfree : s.busy p = none) (honce : (won.map (·.runId)).Nodup)
    (hknown : ∀ run, (db.commands run).isSome → run ∈ won.map (·.runId))
    (hwon : ∀ w ∈ won, w ∈ s.won ∨ w.content ∈ sent ∧ ∃ c, db.commands w.runId = some c ∧
      c.sessionKey = w.sessionKey ∧ c.ownerId = w.owner ∧ H.fingerprint w.content = some c.fingerprint) :
    Inv H sent { s with db, won } := by
  refine ⟨honce, hknown, fun w hw => ?_, fun w hw => ?_, fun q call hcall => ?_, fun q l hl => ?_⟩
  · obtain hold | hnew := hwon w hw
    · obtain ⟨c, hc, hsession, hown, hprint⟩ := hi.row w hold
      obtain ⟨c', hc', hsession', hprint', hown', -⟩ := (hmoves w.runId).row hc
      exact ⟨c', hc', hsession'.trans hsession, hown'.trans hown, by rw [hprint, hprint']⟩
    · exact hnew.2
  · exact (hwon w hw).elim (hi.sent w) And.left
  · obtain ⟨hstatus, c, hc, hown, hlive⟩ := hi.busy q call hcall
    obtain ⟨c', hc', -, -, hown', hsame | ⟨hp, -, -⟩⟩ := (hmoves call.runId).row hc
    · obtain rfl := hsame.1
      exact ⟨hstatus, c', hc', hown, hlive⟩
    · obtain rfl := hown.symm.trans hp
      rw [hcall] at hfree
      cases hfree
  · obtain ⟨c, hc, hown, hfinal⟩ := hi.lookups q l hl
    obtain ⟨c', hc', -, -, hown', hmove⟩ := (hmoves l.1).row hc
    refine ⟨c', hc', hown'.trans hown, fun hterminal => ?_⟩
    obtain rfl := hfinal hterminal
    obtain hsame | ⟨-, hlive, -⟩ := hmove
    · exact hsame.1
    · rw [hlive] at hterminal
      cases hterminal

/-- A move that inserts no row. -/
theorem Inv.update (hi : Inv H sent s) {db : Db D} (hmoves : ∀ run, Move p s.db db run) (hfree : s.busy p = none)
    (hnone : ∀ run, s.db.commands run = none → db.commands run = none) : Inv H sent { s with db } := by
  refine hi.moves hmoves hfree hi.once (fun run hrun => hi.known run ?_) fun w hw => .inl hw
  rw [Option.isSome_iff_ne_none] at hrun ⊢
  exact fun h => hrun (hnone run h)

/-- The lock of `p` is taken by a call that has read its row, or let go. -/
theorem Inv.hold (hi : Inv H sent s) {call : Option Call}
    (hcall : ∀ k, call = some k → k.status ≠ .accepted ∧
      ∃ c, s.db.commands k.runId = some c ∧ c.ownerId = p ∧ c.status.terminal = false) :
    Inv H sent (s.hold p call) := by
  refine ⟨hi.once, hi.known, hi.row, hi.sent, fun q k hk => ?_, hi.lookups⟩
  by_cases hq : q = p
  · subst hq
    exact hcall k ((hold_self ..).symm.trans hk)
  · exact hi.busy q k ((hold_of_ne s call hq).symm.trans hk)

theorem Inv.setLookups (hi : Inv H sent s) {rows : List (String × Command D)}
    (hrows : ∀ l ∈ rows, ∃ c, s.db.commands l.1 = some c ∧ c.ownerId = l.2.ownerId ∧ (l.2.status.terminal → c = l.2)) :
    Inv H sent (s.setLookups p rows) := by
  refine ⟨hi.once, hi.known, hi.row, hi.sent, hi.busy, fun q l hl => ?_⟩
  by_cases hq : q = p
  · subst hq
    exact hrows l (setLookups_self s q rows ▸ hl)
  · exact hi.lookups q l (setLookups_of_ne s rows hq ▸ hl)

theorem beginExecution_some {db : Db D} {sessionKey runId : String} {goal : Snapshot} {k : Call}
    (h : db.beginExecution p sessionKey runId goal = some k) :
    k.status ≠ .accepted ∧ ∃ c, db.commands k.runId = some c ∧ c.ownerId = p ∧ c.status.terminal = false := by
  obtain ⟨c, hc, rfl⟩ := Option.map_eq_some_iff.1 h
  exact ⟨nofun, c, mine_some hc⟩

theorem finishExecution_some {db : Db D} {sessionKey runId : String} {goal : Snapshot} {status : Status} {k : Call}
    (h : db.finishExecution p sessionKey runId goal status = some k) :
    k.status ≠ .accepted ∧ ∃ c, db.commands k.runId = some c ∧ c.ownerId = p ∧ c.status.terminal = false := by
  unfold Db.finishExecution at h
  split at h
  · cases h
  rename_i hterminal
  obtain ⟨c, hc, rfl⟩ := Option.map_eq_some_iff.1 h
  refine ⟨?_, c, mine_some hc⟩
  rintro (hstatus : status = .accepted)
  exact hterminal (by rw [hstatus]; rfl)

/-- The accepts of a run that returned `inserted = True`. -/
def St.inserts (s : St V D) (run : String) : List (Won V) := s.won.filter (·.runId = run)

theorem inserts_length (hi : Inv H sent s) (run : String) :
    (s.inserts run).length = if (s.db.commands run).isSome then 1 else 0 := by
  have hcount : (s.inserts run).length = (s.won.map (·.runId)).count run := by
    rw [St.inserts, ← List.countP_eq_length_filter, List.count, List.countP_map]
    exact List.countP_congr fun w _ => by simp
  rw [hcount]
  split
  · rename_i hsome
    exact List.count_eq_one_of_mem hi.once (hi.known run hsome)
  · rename_i hnone
    refine List.count_eq_zero_of_not_mem fun hmem => hnone ?_
    obtain ⟨w, hw, rfl⟩ := List.mem_map.1 hmem
    obtain ⟨c, hc, -⟩ := hi.row w hw
    rw [hc]
    rfl

variable [DecidableEq D]

theorem accepted_inv (hi : Inv H sent s) {r : Request V} {inserted : Bool} {receipt : Receipt} {db : Db D}
    (hfree : s.busy p = none) (hsent : H.canonical r ∈ sent)
    (hok : s.db.accept H p r = .ok (inserted, receipt, db)) : Inv H sent (s.accepted H p r inserted db) := by
  have hmoves := accept_moves hok
  obtain ⟨c, rfl, hrow, rfl, -, hsession, hprint, hnew⟩ := accept_ok hok
  cases hold : s.db.commands r.runId with
  | some old =>
    have hnone : ∀ run, s.db.commands run = none → (s.db.insertOrIgnore r.runId c).commands run = none := by
      intro run hrun
      rw [insertOrIgnore_of_ne _ _ fun he => by rw [he, hold] at hrun; cases hrun]
      exact hrun
    exact hi.update hmoves hfree hnone
  | none =>
    have hfirst : r.runId ∉ s.won.map (·.runId) := by
      intro hmem
      obtain ⟨w, hw, he⟩ := List.mem_map.1 hmem
      obtain ⟨c', hc', -⟩ := hi.row w hw
      rw [he, hold] at hc'
      cases hc'
    refine hi.moves hmoves hfree (List.nodup_cons.2 ⟨hfirst, hi.once⟩) (fun run hrun => ?_) fun w hw => ?_
    · by_cases he : run = r.runId
      · exact he ▸ List.mem_cons_self
      · rw [insertOrIgnore_of_ne _ _ he] at hrun
        exact List.mem_cons_of_mem _ (hi.known run hrun)
    · obtain rfl | hw := List.mem_cons.1 hw
      · exact .inr ⟨hsent, c, hrow, hsession, (hnew hold).1, hprint⟩
      · exact .inl hw

theorem step_moves (hi : Inv H sent s) (e : Ev V) (run : String) : Move e.process s.db (next H s e).db run := by
  cases e with
  | accept p r =>
    unfold next step
    dsimp only
    split
    · exact .refl run
    · rename_i hok
      exact accept_moves hok run
  | write p =>
    unfold next step
    dsimp only
    split
    · exact .refl run
    · rename_i call hcall
      obtain ⟨hstatus, c, hc, hown, hlive⟩ := hi.busy p call hcall
      exact write_moves hc hown hlive hstatus run
  | settle p sessionKey runId status => exact settle_moves s.db p sessionKey runId status run
  | beginExecution | finishExecution | fail => exact .refl run
  | lookup | reply =>
    unfold next step
    dsimp only
    split <;> exact .refl run

theorem step_inv (hi : Inv H sent s) (e : Ev V) (hok : Enabled H sent s e) : Inv H sent (next H s e) := by
  have hmoves := step_moves hi e
  cases e with
  | accept p r =>
    unfold next step
    dsimp only
    split
    · exact hi
    · rename_i haccept
      exact accepted_inv hi hok.1 hok.2 haccept
  | beginExecution p sessionKey runId goal => exact hi.hold fun k hk => beginExecution_some hk
  | finishExecution p sessionKey runId goal status => exact hi.hold fun k hk => finishExecution_some hk
  | write p =>
    unfold next step at hmoves ⊢
    dsimp only at hmoves ⊢
    split at hmoves
    · exact hi
    · rename_i call _
      have hheld : Inv H sent (s.hold p none) := hi.hold fun _ h => by cases h
      exact hheld.update (p := p) hmoves (hold_self ..)
        fun run hrun => setStatus_none hrun call.runId call.status
  | fail p => exact hi.hold fun _ h => by cases h
  | settle p sessionKey runId status =>
    refine hi.update hmoves hok fun run hrun => ?_
    show (s.db.settle p sessionKey runId status).commands run = none
    unfold Db.settle
    split
    · exact hrun
    split
    · exact setStatus_none hrun runId status
    · exact hrun
  | lookup p sessionKey runId =>
    unfold next step
    dsimp only
    split
    · exact hi
    · rename_i c hc
      refine hi.setLookups fun l hl => ?_
      obtain rfl | hl := List.mem_cons.1 hl
      · exact ⟨c, (Option.filter_eq_some_iff.1 hc).1, rfl, fun _ => rfl⟩
      · exact hi.lookups p l hl
  | reply p i allowed =>
    unfold next step
    dsimp only
    split
    · exact hi
    · exact hi.setLookups fun l hl => hi.lookups p l (List.mem_of_mem_eraseIdx hl)

theorem reach_inv (h : Reach (next H) (Enabled H sent) {} s) : Inv H sent s :=
  h.invariant (Inv.start H sent) fun _ e hi hok => step_inv hi e hok

/-! ## One execution -/

/-- No two of the contents that are sent have one fingerprint. -/
def Distinct (H : Hashing V D) (sent : Set (String → Option V)) : Prop :=
  ∀ a ∈ sent, ∀ b ∈ sent, ∀ d, H.fingerprint a = some d → H.fingerprint b = some d → a = b

/-- An accept of a known run with another session or another content. -/
theorem accept_conflict (hdistinct : Distinct H sent) (hi : Inv H sent s) {r : Request V} {w : Won V} (hw : w ∈ s.won)
    (hrun : w.runId = r.runId) (hsent : H.canonical r ∈ sent)
    (hother : r.sessionKey ≠ w.sessionKey ∨ H.canonical r ≠ w.content) :
    ∃ error, step H s (.accept p r) = (s, .raised error) := by
  unfold step
  dsimp only
  split
  · rename_i error _
    exact ⟨error, rfl⟩
  · rename_i hok
    exfalso
    obtain ⟨c, rfl, hrow, -, -, hsession, hprint, -⟩ := accept_ok hok
    obtain ⟨c₀, hc₀, hsession₀, -, hprint₀⟩ := hi.row w hw
    rw [insertOrIgnore_self, ← hrun, hc₀, Option.getD_some, Option.some.injEq] at hrow
    subst hrow
    obtain hne | hne := hother
    · exact hne (hsession.symm.trans hsession₀)
    · exact hne (hdistinct _ hsent _ (hi.sent w hw) _ hprint hprint₀)

/-- The row a receipt is made of: an accept's as it commits it, a lookup's as it was read. -/
def St.rowRead (H : Hashing V D) (s : St V D) : Ev V → Option (Command D)
  | .accept p r => (next H s (.accept p r)).db.commands r.runId
  | .reply p i _ => (s.lookups p)[i]?.map (·.2)
  | _ => none

/-- What a call tells of a run, the row it read and the row of the run by then. -/
structure Tells (s : St V D) (H : Hashing V D) (e : Ev V) (receipt : Receipt) (read c : Command D) : Prop where
  found : s.rowRead H e = some read
  row : (next H s e).db.commands receipt.runId = some c
  /-- A terminal status is told to everybody, and is that of the row. -/
  terminal : read.status.terminal = true → receipt.status = some read.status ∧ c = read
  other : c.ownerId ≠ e.process → (c.status.terminal = false → receipt.status = none) ∧
    (receipt.status = none ∨ receipt.status = some c.status)

theorem receipt_status (hi : Inv H sent s) {e : Ev V} {receipt : Receipt} (h : (step H s e).2.receipt = some receipt) :
    ∃ read c, Tells s H e receipt read c := by
  cases e with
  | accept p r =>
    unfold step at h
    dsimp only at h
    split at h
    · cases h
    rename_i hok
    obtain rfl := Option.some.inj h
    obtain ⟨c, -, hrow, -, rfl, -⟩ := accept_ok hok
    have hnext : (next H s (.accept p r)).db.commands r.runId = some c := by
      unfold next step
      dsimp only
      rw [hok]
      exact hrow
    refine ⟨c, c, hnext, hnext, fun hterminal => ⟨if_neg ?_, rfl⟩, fun hother => ⟨fun hlive => if_pos ⟨hother, hlive⟩, ?_⟩⟩
    · rw [hterminal]
      nofun
    · unfold Db.receipt
      dsimp only
      split
      · exact .inl rfl
      · exact .inr rfl
  | reply p i allowed =>
    unfold step at h
    dsimp only at h
    split at h
    · cases h
    rename_i runId c hread
    split at h
    · cases h
    split at h
    · obtain rfl := Option.some.inj h
      obtain ⟨c', hc', hown, hfinal⟩ := hi.lookups p _ (List.mem_of_getElem? hread)
      have hnext : (next H s (.reply p i allowed)).db = s.db := by
        unfold next step
        dsimp only
        rw [hread]
        rfl
      refine ⟨c, c', congrArg (Option.map Prod.snd) hread, hnext ▸ hc', fun hterminal => ⟨if_neg ?_, hfinal hterminal⟩,
        fun hother => ?_⟩
      · rw [hterminal]
        nofun
      unfold Db.receipt
      dsimp only at hown hfinal ⊢
      rw [hown] at hother
      cases hterminal : c.status.terminal with
      | true =>
        obtain rfl := hfinal hterminal
        rw [if_neg fun hboth => by simp at hboth, hterminal]
        exact ⟨nofun, .inr rfl⟩
      | false =>
        rw [if_pos ⟨hother, rfl⟩]
        exact ⟨fun _ => rfl, .inl rfl⟩
    · cases h
  | lookup | write =>
    unfold step at h
    dsimp only at h
    split at h <;> cases h
  | beginExecution | finishExecution | fail | settle => cases h

/-- Every run of the store, with any number of processes: a run is inserted by one accept,
    whose process is the only one that moves it, up to a status it keeps. -/
theorem executed_once (hdistinct : Distinct H sent) (h : Reach (next H) (Enabled H sent) {} s) :
    (∀ run, (s.inserts run).length = if (s.db.commands run).isSome then 1 else 0) ∧
    (∀ p r inserted receipt, (step H s (.accept p r)).2 = .accepted inserted receipt →
      ((next H s (.accept p r)).db.commands r.runId).isSome) ∧
    (∀ p r, ∀ w ∈ s.won, w.runId = r.runId → H.canonical r ∈ sent →
      r.sessionKey ≠ w.sessionKey ∨ H.canonical r ≠ w.content →
      ∃ error, step H s (.accept p r) = (s, .raised error)) ∧
    (∀ e run c, s.db.commands run = some c → c.status.terminal →
      (next H s e).db.commands run = some c ∧ (next H s e).db.goals run = s.db.goals run) ∧
    (∀ e run c c', s.db.commands run = some c → c.status = .accepted → (next H s e).db.commands run = some c' →
      c'.status ≠ .accepted → c.ownerId = e.process ∧ ∃ w ∈ s.won, w.runId = run ∧ w.owner = e.process) ∧
    (∀ e receipt, (step H s e).2.receipt = some receipt → ∃ read c, Tells s H e receipt read c) := by
  have hi := reach_inv h
  refine ⟨inserts_length hi, ?_, fun p r w hw hrun hsent => accept_conflict hdistinct hi hw hrun hsent, ?_, ?_,
    fun e receipt => receipt_status hi⟩
  · intro p r inserted receipt haccept
    unfold next
    unfold step at haccept ⊢
    dsimp only at haccept ⊢
    split at haccept
    · cases haccept
    rename_i hok
    obtain ⟨c, -, hrow, -⟩ := accept_ok hok
    exact Option.isSome_iff_exists.2 ⟨c, hrow⟩
  · intro e run c hc hterminal
    obtain ⟨c', hc', -, -, -, ⟨rfl, hgoal⟩ | ⟨-, hlive, -⟩⟩ := (step_moves hi e run).row hc
    · exact ⟨hc', hgoal⟩
    · rw [hlive] at hterminal
      cases hterminal
  · intro e run c c' hc haccepted hc' hleft
    obtain ⟨c'', hc'', -, -, -, ⟨rfl, -⟩ | ⟨hown, -, -⟩⟩ := (step_moves hi e run).row hc
    · obtain rfl := Option.some.inj (hc''.symm.trans hc')
      exact absurd haccepted hleft
    · refine ⟨hown, ?_⟩
      obtain ⟨w, hw, rfl⟩ := List.mem_map.1 (hi.known run (by rw [hc]; rfl))
      obtain ⟨c₀, hc₀, -, hown₀, -⟩ := hi.row w hw
      obtain rfl := Option.some.inj (hc₀.symm.trans hc)
      exact ⟨w, hw, rfl, hown₀.symm.trans hown⟩

end

/-! ## A restart -/

namespace Sample

def H : Hashing String String where
  str := id
  fingerprint f := some ((f "sessionKey").getD "" ++ "/" ++ (f "content").getD "")

def request (content : String) : Request String where
  sessionKey := "desktop:main"
  runId := "run-1"
  params k := if k = "content" then some content else none
  scope := some none

def sent : Set (String → Option String) := {H.canonical (request "hello"), H.canonical (request "bye")}

theorem distinct : Distinct H sent := by
  rintro a (rfl | rfl) b (rfl | rfl) d ha hb
  · rfl
  · exact absurd (ha.trans hb.symm) (by decide)
  · exact absurd (ha.trans hb.symm) (by decide)
  · rfl

/-- One process accepts the request and begins it; the next one is asked for it again. -/
def events : List (Ev String) :=
  [.accept "before" (request "hello"), .beginExecution "before" "desktop:main" "run-1" .noGoal, .write "before",
    .accept "after" (request "hello")]

def restarted : St String String := events.foldl (next H) {}

theorem reach : Reach (next H) (Enabled H sent) {} restarted :=
  Reach.foldl events _ .start ⟨⟨rfl, .inl rfl⟩, rfl, trivial, ⟨rfl, .inl rfl⟩, trivial⟩

end Sample

open Sample in
theorem executed_once_restarted : (restarted.inserts "run-1").length = 1 ∧
    ∃ error, step H restarted (.accept "after" (request "bye")) = (restarted, .raised error) := by
  obtain ⟨hone, -, hconflict, -⟩ := executed_once distinct reach
  refine ⟨(hone "run-1").trans (by decide), ?_⟩
  exact hconflict "after" (request "bye") ⟨"before", "desktop:main", "run-1", H.canonical (request "hello")⟩
    (List.mem_singleton.2 rfl) rfl (.inr rfl) (.inr fun h => absurd (congrFun h "content") (by decide))

end Flowly.Session.Commands
