/-
  Flowly.Flowlets.Calls — the calls of `apply_action` on one flowlet, interleaved
  (`flowly/flowlets/actions.py`: `apply_action`, `_apply_action`, the `agent` and `batch`
  ops; `flowly/flowlets/store.py`: `claim_op`, `release_op`, `snapshot`, `restore`).

  A call runs without a break but where an `agent` op awaits its runner. There other calls,
  the refreshes of the sources and the photo captures run, and the process may die. A batch
  takes a snapshot of the whole flowlet first and puts it back when one of its ops raises.
  The rows of the operation ids outlive the process, and so do the writes.

  The log has every write with the call that made it. What the calls that did not fail
  wrote, and nothing else, is `survivors`.
-/

import Flowly.Flowlets.Actions
import Flowly.Lib.Reach

namespace Flowly.Flowlets

open Flowly.Lib

def Rows.restore (r : Rows) : Option Rows → Rows
  | some s => { r with state := s.state, events := s.events }
  | none => r

structure Call where
  id : Nat
  /-- What `claim_op` has stored of the operation id. -/
  opId : Option String
  component : Json := .null
  passed : Json
  /-- The `once` latch to set when the action is done. -/
  guard : Option (String × String) := none
  /-- What a batch puts back. -/
  snapshot : Option Rows := none
  /-- The ops of a batch after the `agent` op it awaits. -/
  rest : List Json := []
  /-- Ghost: how long the log was at the start, and which calls had failed. -/
  mark : Nat
  settled : List Nat

structure Flowlet where
  rows : Rows := {}
  /-- `flowlet_ops`. -/
  ops : List (String × Int) := []
  /-- The calls that await an agent. -/
  calls : List Call := []
  nextCall : Nat := 0
  /-- Ghost: every write, with the call that made it if one did. -/
  log : List (Option Nat × Effect) := []
  /-- Ghost: the calls whose action raised. -/
  failed : List Nat := []
  /-- Ghost: the calls whose action was done. -/
  applied : List Nat := []
  /-- Ghost: the calls that had an operation id, with the whole of it. -/
  taps : List (Nat × String) := []

inductive End where
  | done
  | raised (e : Exn)
  | awaiting (rest : List Json)

/-- The local date and week a `once` latch goes by. -/
structure Calendar where
  day : String
  week : String

def opTtlMs : Int := 86400000

def opsKept : Nat := 500

/-- The rows `claim_op` keeps: of the last day, and among the newest. -/
def keptOps (now : Int) (ops : List (String × Int)) : List (String × Int) :=
  let newest := (ops.mergeSort fun a b => b.2 ≤ a.2).take opsKept
  ops.filter fun o => now - opTtlMs ≤ o.2 ∧ o ∈ newest

/-- `op_id[:128]`; an empty id is none. -/
def opKey (opId : Option String) : Option String := (opId.filter (· ≠ "")).map (cut 128)

variable (host : Host) (label : String → Option String) (d : Json) (find : String → Option Json) (runner : Bool)

/-- The `agent` op up to its await. -/
def agentStart (a : Json) (env : Env) (r : Rows) : Except Exn Unit := do
  if !(a.get "message").truthy then throw (invalid "action `agent` needs a message")
  if !runner then throw (.action "UNAVAILABLE" "this flowlet action can't run right now")
  let _ ← host.resolveValues d r env.now

/-- The ops of an action from the `k`th on. -/
def runOps (comp passed : Json) (envs : Nat → Env) : Nat → List Json → Rows → List Effect × End
  | _, [], _ => ([], .done)
  | k, a :: rest, r =>
    if opName a = "batch" then ([], .raised (invalid "nested batch is not allowed"))
    else if opName a = "agent" then
      match agentStart host d runner a (envs k) r with
      | .error e => ([], .raised e)
      | .ok _ => ([], .awaiting rest)
    else
      match applyOp host label d comp a passed (envs k) r with
      | .error e => ([], .raised e)
      | .ok es =>
        let next := runOps comp passed envs (k + 1) rest (applyAll r es)
        (es ++ next.1, next.2)

def onceBucket (once : Json) (cal : Calendar) : Option String :=
  if once.truthy then some (match once.str? with
    | some "day" => cal.day
    | some "week" => cal.week
    | _ => "ever")
  else none

/-- `_apply_action` up to its first await: the call, what it writes and how far it gets. -/
def start (w : Flowlet) (componentId : String) (passed : Json) (opId : Option String) (envs : Nat → Env) (cal : Calendar) :
    Call × List Effect × End :=
  let c : Call := { id := w.nextCall, opId := opKey opId, passed, mark := w.log.length, settled := w.failed }
  match find componentId with
  | none => (c, [], .raised (.action "NOT_FOUND" s!"component '{componentId}' not found"))
  | some comp =>
    let action := comp.get "action"
    if (comp.get "type").str? = some "checklist" then
      match (comp.get "items").items.find? fun it => it.isObj && passed.str?.isSome && (it.get "key").str? = passed.str? with
      | none => (c, [], .raised (invalid s!"checklist item '{host.toStr passed}' is not part of '{componentId}'"))
      | some _ =>
        let c := { c with component := comp, passed := .null }
        (c, runOps host label d runner comp .null envs 0 [.obj [("op", .str "toggle"), ("key", passed)]] w.rows)
    else if !action.isObj then (c, [], .raised (invalid s!"component '{componentId}' has no action"))
    else
      let bucket := onceBucket (action.get "once") cal
      let key := "__once__" ++ componentId
      -- A tap the latch holds back is done with nothing written.
      if bucket.isSome ∧ (w.rows.get? key).bind Json.str? = bucket then (c, [], .done)
      else if opName action = "batch" then
        let c := { c with component := comp, guard := bucket.map (key, ·), snapshot := some w.rows }
        (c, runOps host label d runner comp passed envs 0 (action.get "ops").items w.rows)
      else
        let c := { c with component := comp, guard := bucket.map (key, ·) }
        (c, runOps host label d runner comp passed envs 0 [action] w.rows)

namespace Flowlet

def record (w : Flowlet) (call : Option Nat) (es : List Effect) : Flowlet :=
  { w with rows := applyAll w.rows es, log := w.log ++ es.map (call, ·) }

/-- `release_op`. -/
def release (w : Flowlet) (opId : Option String) : Flowlet :=
  { w with ops := w.ops.filter fun o => some o.1 ≠ opId }

def restore (w : Flowlet) (snapshot : Option Rows) : Flowlet := { w with rows := w.rows.restore snapshot }

def finished (w : Flowlet) (c : Call) (now : Int) : Flowlet :=
  { w.record (some c.id) (c.guard.map fun g => Effect.setState g.1 (.str g.2) now).toList with applied := c.id :: w.applied }

/-- The end of a stretch: the call waits, or has raised, or sets its latch, resolves the
    values, which may raise too, and answers. -/
def settle (w : Flowlet) (c : Call) (es : List Effect) (fin : End) (now : Int) : Flowlet :=
  let w := w.record (some c.id) es
  match fin with
  | .awaiting rest => { w with calls := { c with rest } :: w.calls }
  | .raised _ => { (w.restore c.snapshot).release c.opId with failed := c.id :: w.failed }
  | .done =>
    match host.resolveValues d (w.finished c now).rows now with
    | .ok _ => w.finished c now
    | .error _ => (w.finished c now).release c.opId

/-- A new call; `claim_op` of an id that is not there. -/
def claim (w : Flowlet) (opId : Option String) (now : Int) : Flowlet :=
  { w with
    nextCall := w.nextCall + 1
    taps := (opId.filter (· ≠ "")).toList.map (w.nextCall, ·) ++ w.taps
    ops := match opKey opId with
      | some o => keptOps now ((o, now) :: w.ops)
      | none => w.ops }

/-- An id that is there: the answer is `duplicate: true`. -/
def duplicate (w : Flowlet) (opId : Option String) : Prop := ∃ o, opKey opId = some o ∧ o ∈ w.ops.map (·.1)

instance (w : Flowlet) (opId : Option String) : Decidable (w.duplicate opId) :=
  match h : opKey opId with
  | none => isFalse (by rintro ⟨o, ho, _⟩; rw [h] at ho; cases ho)
  | some o => decidable_of_iff (o ∈ w.ops.map (·.1))
      ⟨fun hm => ⟨o, h, hm⟩, fun ⟨o', ho, hm⟩ => by rw [h] at ho; cases ho; exact hm⟩

end Flowlet

inductive Event where
  | tap (componentId : String) (passed : Json) (opId : Option String) (envs : Nat → Env) (cal : Calendar)
  /-- The runner of an `agent` op has returned or raised, or the call's task was cancelled. -/
  | resume (call : Nat) (outcome : Except Exn Unit) (envs : Nat → Env)
  /-- A refresh of a source, a photo capture, a swipe: anything else that writes. -/
  | outside (es : List Effect)
  /-- The process dies; the store stays. -/
  | die

/-- The stretch of a call an event runs, in the flowlet it runs in. -/
def stretch (w : Flowlet) : Event → Option (Flowlet × Call × List Effect × End × Int)
  | .tap componentId passed opId envs cal =>
    if w.duplicate opId then none
    else some (w.claim opId (envs 0).now,
      (start host label d find runner w componentId passed opId envs cal).1,
      (start host label d find runner w componentId passed opId envs cal).2.1,
      (start host label d find runner w componentId passed opId envs cal).2.2, (envs 0).now)
  | .resume call outcome envs =>
    match w.calls.find? (·.id = call) with
    | none => none
    | some c =>
      let w' := { w with calls := w.calls.filter (·.id ≠ call) }
      match outcome with
      | .error e => some (w', c, [], .raised e, (envs 0).now)
      | .ok _ =>
        some (w', c, (runOps host label d runner c.component c.passed envs 0 c.rest w.rows).1,
          (runOps host label d runner c.component c.passed envs 0 c.rest w.rows).2, (envs 0).now)
  | _ => none

def step (w : Flowlet) (e : Event) : Flowlet :=
  match stretch host label d find runner w e with
  | some (w', c, es, fin, now) => w'.settle host d c es fin now
  | none =>
    match e with
    | .outside es => w.record none es
    | .die => { w with calls := [] }
    | _ => w

/-- The writes of the calls that did not fail, and of everybody else. -/
def survivors (failed : List Nat) (log : List (Option Nat × Effect)) : List Effect :=
  (log.filter fun p => p.1.all (· ∉ failed)).map (·.2)

def Effect.touchesPhotos : Effect → Bool
  | .putPhoto _ | .deletePhoto _ => true
  | _ => false

/-- A batch may be put back: it has removed no photo, nobody else whose writes stand has
    written since its snapshot, and no call that had written before it has failed since. -/
def Undoable (w : Flowlet) (c : Call) (es : List Effect) : Prop :=
  (∀ p ∈ w.log, p.1 = some c.id → p.2.touchesPhotos = false) ∧ (∀ f ∈ es, f.touchesPhotos = false) ∧
    (∀ p ∈ w.log.drop c.mark, p.1 = some c.id ∨ ∃ i ∈ w.failed, p.1 = some i) ∧
    ∀ p ∈ w.log.take c.mark, ∀ i ∈ w.failed, p.1 = some i → i ∈ c.settled

/-- Every batch that is put back may be. -/
def Clean (w : Flowlet) (e : Event) : Prop :=
  ∀ w' c es x now, stretch host label d find runner w e = some (w', c, es, .raised x, now) → c.snapshot.isSome → Undoable w c es

/-! ## The log -/

section Log

variable {failed : List Nat} {log : List (Option Nat × Effect)}

theorem applyAll_append (r : Rows) (es es' : List Effect) : applyAll r (es ++ es') = applyAll (applyAll r es) es' :=
  List.foldl_append

theorem survivors_append (log log' : List (Option Nat × Effect)) :
    survivors failed (log ++ log') = survivors failed log ++ survivors failed log' := by
  unfold survivors
  rw [List.filter_append, List.map_append]

/-- Nobody that failed makes these writes. -/
theorem survivors_map {call : Option Nat} (h : ∀ i, call = some i → i ∉ failed) (es : List Effect) :
    survivors failed (es.map (call, ·)) = es := by
  have hall : call.all (· ∉ failed) = true := by
    cases call with
    | none => rfl
    | some i => simpa using h i rfl
  unfold survivors
  induction es with
  | nil => rfl
  | cons e es ih => rw [List.map_cons, List.filter_cons_of_pos (by exact hall), List.map_cons, ih]

/-- Two sets of failed calls that differ in no call of the log. -/
theorem survivors_congr {failed' : List Nat} (h : ∀ p ∈ log, ∀ i, p.1 = some i → (i ∈ failed ↔ i ∈ failed')) :
    survivors failed log = survivors failed' log := by
  unfold survivors
  congr 1
  refine List.filter_congr fun p hp => ?_
  cases hc : p.1 with
  | none => rfl
  | some i =>
    have hi := h p hp i hc
    simp [hi]

/-- Nothing survives of calls that all failed. -/
theorem survivors_eq_nil (h : ∀ p ∈ log, ∃ i ∈ failed, p.1 = some i) : survivors failed log = [] := by
  unfold survivors
  rw [List.map_eq_nil_iff, List.filter_eq_nil_iff]
  intro p hp
  obtain ⟨i, hi, hpi⟩ := h p hp
  rw [hpi]
  simpa using hi

theorem photos_apply {e : Effect} (h : e.touchesPhotos = false) (r : Rows) : (e.apply r).photos = r.photos := by
  cases e with
  | setState key value now =>
    show (r.setState key value now).photos = r.photos
    unfold Rows.setState
    split_ifs <;> rfl
  | removeLast series =>
    show (r.removeLast series).photos = r.photos
    unfold Rows.removeLast
    split <;> rfl
  | resetState key => rfl
  | addEvent e => rfl
  | resetEvents series => rfl
  | putPhoto id => cases h
  | deletePhoto id => cases h

theorem photos_applyAll {es : List Effect} (h : ∀ e ∈ es, e.touchesPhotos = false) (r : Rows) :
    (applyAll r es).photos = r.photos := by
  unfold applyAll
  induction es generalizing r with
  | nil => rfl
  | cons e es ih =>
    rw [List.foldl_cons, ih (fun e he => h e (List.mem_cons_of_mem _ he)), photos_apply (h e List.mem_cons_self)]

end Log

/-! ## One stretch -/

structure Whole (es : List Effect) (fin : End) : Prop where
  raised : ∀ x, fin = .raised x → es = []
  awaiting : ∀ rest, fin = .awaiting rest → es = [] ∧ rest = []

theorem runOps_one (comp passed : Json) (envs : Nat → Env) (k : Nat) (a : Json) (r : Rows) :
    Whole (runOps host label d runner comp passed envs k [a] r).1 (runOps host label d runner comp passed envs k [a] r).2 := by
  unfold runOps
  split_ifs
  · exact ⟨fun _ _ => rfl, fun _ h => (by cases h)⟩
  · split
    · exact ⟨fun _ _ => rfl, fun _ h => (by cases h)⟩
    · exact ⟨fun _ h => (by cases h), fun _ h => ⟨rfl, (End.awaiting.inj h).symm⟩⟩
  · split
    · exact ⟨fun _ _ => rfl, fun _ h => (by cases h)⟩
    · exact ⟨fun _ h => (by cases h), fun _ h => (by cases h)⟩

/-- What `_apply_action` starts with. -/
structure Started (w : Flowlet) (c : Call) (es : List Effect) (fin : End) : Prop where
  id : c.id = w.nextCall
  mark : c.mark = w.log.length
  settled : c.settled = w.failed
  snapshot : c.snapshot = none ∨ c.snapshot = some w.rows
  whole : c.snapshot = none → Whole es fin
  rest : c.rest = []

theorem start_spec (w : Flowlet) (componentId : String) (passed : Json) (opId : Option String) (envs : Nat → Env) (cal : Calendar) :
    Started w (start host label d find runner w componentId passed opId envs cal).1
      (start host label d find runner w componentId passed opId envs cal).2.1
      (start host label d find runner w componentId passed opId envs cal).2.2 := by
  have hraised : ∀ x, Whole [] (.raised x) := fun x => ⟨fun _ _ => rfl, fun _ h => (by cases h)⟩
  unfold start
  dsimp only
  split
  · exact ⟨rfl, rfl, rfl, .inl rfl, fun _ => hraised _, rfl⟩
  · split_ifs with hlist hobj hlatch hbatch
    · split
      · exact ⟨rfl, rfl, rfl, .inl rfl, fun _ => hraised _, rfl⟩
      · exact ⟨rfl, rfl, rfl, .inl rfl, fun _ => runOps_one host label d runner _ _ _ _ _ _, rfl⟩
    · exact ⟨rfl, rfl, rfl, .inl rfl, fun _ => hraised _, rfl⟩
    · exact ⟨rfl, rfl, rfl, .inl rfl, fun _ => ⟨fun _ h => (by cases h), fun _ h => (by cases h)⟩, rfl⟩
    · exact ⟨rfl, rfl, rfl, .inr rfl, fun h => (by cases h), rfl⟩
    · exact ⟨rfl, rfl, rfl, .inl rfl, fun _ => runOps_one host label d runner _ _ _ _ _ _, rfl⟩

/-! ## What a failed call leaves -/

variable {base : Rows}

/-- A call that is running: it has not failed, and its snapshot is what had survived then. -/
structure Held (base : Rows) (w : Flowlet) (c : Call) : Prop where
  id_lt : c.id < w.nextCall
  alive : c.id ∉ w.failed
  mark_le : c.mark ≤ w.log.length
  before : ∀ p ∈ w.log.take c.mark, p.1 ≠ some c.id
  quiet : c.snapshot = none → ∀ p ∈ w.log, p.1 ≠ some c.id
  settled : ∀ i ∈ c.settled, i ∈ w.failed
  snap : ∀ s, c.snapshot = some s → s.state = (applyAll base (survivors c.settled (w.log.take c.mark))).state ∧
    s.events = (applyAll base (survivors c.settled (w.log.take c.mark))).events

/-- The flowlet is what the surviving writes make of the one there was. -/
structure Inv (base : Rows) (w : Flowlet) : Prop where
  ideal : w.rows = applyAll base (survivors w.failed w.log)
  logged : ∀ p ∈ w.log, ∀ i, p.1 = some i → i < w.nextCall
  failed : ∀ i ∈ w.failed, i < w.nextCall
  held : ∀ c ∈ w.calls, Held base w c
  rest : ∀ c ∈ w.calls, c.snapshot = none → c.rest = []
  ids : (w.calls.map (·.id)).Nodup

/-- Nobody in the list makes the write. -/
def Apart (w : Flowlet) (call : Option Nat) : Prop :=
  ∀ i, call = some i → i ∉ w.failed ∧ i < w.nextCall ∧ ∀ c ∈ w.calls, c.id ≠ i

namespace Inv

variable {w : Flowlet}

theorem init (base : Rows) : Inv base { rows := base } :=
  ⟨rfl, List.forall_mem_nil _, List.forall_mem_nil _, List.forall_mem_nil _,
    List.forall_mem_nil _, List.nodup_nil⟩

variable {es : List Effect} {c : Call}

/-- A call holds on while others write, and while a batch writes itself. -/
theorem Held.record (h : Held base w c) {call : Option Nat}
    (hne : c.snapshot = none → es = [] ∨ call ≠ some c.id) : Held base (w.record call es) c := by
  have htake : (w.log ++ es.map (call, ·)).take c.mark = w.log.take c.mark := List.take_append_of_le_length h.mark_le
  refine ⟨h.id_lt, h.alive, ?_, ?_, ?_, h.settled, ?_⟩
  · show c.mark ≤ (w.log ++ _).length
    rw [List.length_append]
    have hle := h.mark_le
    omega
  · intro p hp
    change p ∈ (w.log ++ es.map (call, ·)).take c.mark at hp
    rw [htake] at hp
    exact h.before p hp
  · intro hs p hp
    rcases List.mem_append.1 hp with hp | hp
    · exact h.quiet hs p hp
    · obtain ⟨e, he, rfl⟩ := List.mem_map.1 hp
      rcases hne hs with rfl | hne
      · cases he
      · exact hne
  · intro s hs
    show s.state = (applyAll base (survivors c.settled ((w.log ++ es.map (call, ·)).take c.mark))).state ∧ _
    rw [show (w.record call es).log.take c.mark = w.log.take c.mark from htake, htake]
    exact h.snap s hs

/-- Writes that stand. -/
theorem record (h : Inv base w) {call : Option Nat} (ha : Apart w call) (es : List Effect) : Inv base (w.record call es) := by
  refine ⟨?_, ?_, h.failed, ?_, h.rest, h.ids⟩
  · show applyAll w.rows es = applyAll base (survivors w.failed (w.log ++ es.map (call, ·)))
    rw [survivors_append, survivors_map (fun i hi => (ha i hi).1), applyAll_append, ← h.ideal]
  · intro p hp i hi
    rcases List.mem_append.1 hp with hp | hp
    · exact h.logged p hp i hi
    · obtain ⟨e, _, rfl⟩ := List.mem_map.1 hp
      exact (ha i hi).2.1
  · intro c hc
    exact Held.record (h.held c hc) fun _ => .inr fun hi => (ha c.id hi).2.2 c hc rfl

/-- What the ids of the operations are, and which were applied, is of no matter here. -/
theorem forget (h : Inv base w) (ops : List (String × Int)) (applied : List Nat) : Inv base { w with ops, applied } :=
  ⟨h.ideal, h.logged, h.failed, fun c hc => ⟨(h.held c hc).id_lt, (h.held c hc).alive, (h.held c hc).mark_le, (h.held c hc).before,
    (h.held c hc).quiet, (h.held c hc).settled, (h.held c hc).snap⟩, h.rest, h.ids⟩

theorem finished (h : Inv base w) (ha : Apart w (some c.id)) (now : Int) : Inv base (w.finished c now) := by
  have hrec := h.record ha (c.guard.map fun g => Effect.setState g.1 (.str g.2) now).toList
  exact hrec.forget w.ops (c.id :: w.applied)

/-- A call with no entry may fail. -/
theorem survivors_skip {i : Nat} {failed : List Nat} {log : List (Option Nat × Effect)} (h : ∀ p ∈ log, p.1 ≠ some i) :
    survivors failed log = survivors (i :: failed) log := by
  refine survivors_congr fun p hp j hj => ?_
  have hne : j ≠ i := by
    intro he
    exact h p hp (he ▸ hj)
  simp [hne]

/-- Putting a batch back leaves what the others have written. -/
theorem restored (h : Inv base w) (hc : Held base w c) {s : Rows} (hs : c.snapshot = some s) (hu : Undoable w c es) :
    (applyAll w.rows es).restore (some s) = applyAll base (survivors (c.id :: w.failed) (w.log ++ es.map (some c.id, ·))) := by
  obtain ⟨hphotos, hes, hsince, hprior⟩ := hu
  have hsplit : w.log = w.log.take c.mark ++ w.log.drop c.mark := (List.take_append_drop c.mark w.log).symm
  -- What is left of the log is what it was at the snapshot.
  have hnone : survivors (c.id :: w.failed) (w.log.drop c.mark) = [] := by
    refine survivors_eq_nil fun p hp => ?_
    rcases hsince p hp with heq | ⟨i, hi, heq⟩
    · exact ⟨c.id, List.mem_cons_self, heq⟩
    · exact ⟨i, List.mem_cons_of_mem _ hi, heq⟩
  have hes0 : survivors (c.id :: w.failed) (es.map (some c.id, ·)) = [] := by
    refine survivors_eq_nil fun p hp => ?_
    obtain ⟨e, _, rfl⟩ := List.mem_map.1 hp
    exact ⟨c.id, List.mem_cons_self, rfl⟩
  have hthen : survivors c.settled (w.log.take c.mark) = survivors w.failed (w.log.take c.mark) :=
    survivors_congr fun p hp i hi => ⟨hc.settled i, fun hin => hprior p hp i hin hi⟩
  have hleft : survivors (c.id :: w.failed) (w.log ++ es.map (some c.id, ·)) = survivors w.failed (w.log.take c.mark) := by
    rw [survivors_append, hes0, List.append_nil, hsplit, survivors_append, List.take_append_drop, hnone, List.append_nil,
      ← survivors_skip hc.before]
  have hkept : ∀ e ∈ survivors w.failed (w.log.drop c.mark), e.touchesPhotos = false := by
    intro e he
    obtain ⟨p, hp, rfl⟩ := List.mem_map.1 he
    obtain ⟨hp, halive⟩ := List.mem_filter.1 hp
    rcases hsince p hp with heq | ⟨i, hi, heq⟩
    · exact hphotos p (List.mem_of_mem_drop hp) heq
    · rw [heq] at halive
      exact absurd hi (by simpa using halive)
  have hpics : (applyAll w.rows es).photos = (applyAll base (survivors w.failed (w.log.take c.mark))).photos := by
    rw [photos_applyAll hes, h.ideal]
    conv_lhs => rw [hsplit]
    rw [survivors_append, applyAll_append, photos_applyAll hkept]
  obtain ⟨hstate, hevents⟩ := hc.snap s hs
  rw [hthen] at hstate hevents
  rw [hleft]
  show ({ state := s.state, events := s.events, photos := (applyAll w.rows es).photos } : Rows) = _
  rw [hstate, hevents, hpics]

/-- A call that fails and has written nothing, or that may be put back. -/
theorem fail (h : Inv base w) (hc : Held base w c) (hout : ∀ c' ∈ w.calls, c'.id ≠ c.id) (es : List Effect)
    (hone : c.snapshot = none → es = []) (hundo : c.snapshot.isSome → Undoable w c es) :
    Inv base { (w.record (some c.id) es).restore c.snapshot with failed := c.id :: w.failed } := by
  have hrec : Inv base (w.record (some c.id) es) := by
    refine h.record ?_ es
    intro i hi
    cases hi
    exact ⟨hc.alive, hc.id_lt, hout⟩
  refine ⟨?_, hrec.logged, ?_, ?_, hrec.rest, hrec.ids⟩
  · show (applyAll w.rows es).restore c.snapshot = applyAll base (survivors (c.id :: w.failed) (w.log ++ es.map (some c.id, ·)))
    cases hs : c.snapshot with
    | none =>
      rw [hone hs, List.map_nil, List.append_nil, ← survivors_skip (hc.quiet hs)]
      exact h.ideal
    | some s => exact restored h hc hs (hundo (by rw [hs]; rfl))
  · intro i hi
    rcases List.mem_cons.1 hi with rfl | hi
    · exact hc.id_lt
    · exact h.failed i hi
  · intro c' hc'
    have hold := hrec.held c' hc'
    refine ⟨hold.id_lt, ?_, hold.mark_le, hold.before, hold.quiet, fun i hi => List.mem_cons_of_mem _ (hold.settled i hi), hold.snap⟩
    intro hin
    rcases List.mem_cons.1 hin with heq | hin
    · exact hout c' hc' heq
    · exact hold.alive hin

/-- The end of a stretch of a call that is held. -/
theorem settle (h : Inv base w) (hc : Held base w c) (hout : ∀ c' ∈ w.calls, c'.id ≠ c.id) {fin : End}
    (now : Int) (hwhole : c.snapshot = none → Whole es fin) (hundo : ∀ x, fin = .raised x → c.snapshot.isSome → Undoable w c es) :
    Inv base (w.settle host d c es fin now) := by
  have ha : Apart w (some c.id) := by
    intro i hi
    cases hi
    exact ⟨hc.alive, hc.id_lt, hout⟩
  have hrec := h.record ha es
  cases fin with
  | raised x => exact (h.fail hc hout es (fun hs => (hwhole hs).raised x rfl) (hundo x rfl)).forget _ _
  | awaiting rest =>
    refine ⟨hrec.ideal, hrec.logged, hrec.failed, ?_, ?_, ?_⟩
    · intro c' hc'
      rcases List.mem_cons.1 hc' with rfl | hc'
      · have hself : Held base (w.record (some c.id) es) c :=
          Held.record hc fun hs => .inl ((hwhole hs).awaiting rest rfl).1
        exact { hself with }
      · have hold := hrec.held c' hc'
        exact { hold with }
    · intro c' hc' hs
      rcases List.mem_cons.1 hc' with rfl | hc'
      · exact ((hwhole hs).awaiting rest rfl).2
      · exact h.rest c' hc' hs
    · exact List.nodup_cons.2 ⟨fun hin => (by
        obtain ⟨c', hc', heq⟩ := List.mem_map.1 hin
        exact hout c' hc' heq), h.ids⟩
  | done =>
    have ha' : Apart (w.record (some c.id) es) (some c.id) := ha
    have hdone := hrec.finished ha' now
    show Inv base (match host.resolveValues d _ now with
      | .ok _ => _
      | .error _ => _)
    split
    · exact hdone
    · exact hdone.forget _ _

/-- A call that waits is held, and the others stay as they are without it. -/
theorem leave (h : Inv base w) {call : Nat} (hf : w.calls.find? (·.id = call) = some c) :
    Inv base { w with calls := w.calls.filter (·.id ≠ call) } ∧ Held base { w with calls := w.calls.filter (·.id ≠ call) } c ∧
      (∀ c' ∈ w.calls.filter (·.id ≠ call), c'.id ≠ c.id) ∧ c ∈ w.calls := by
  have hin : c ∈ w.calls := List.mem_of_find?_eq_some hf
  have hid : c.id = call := by simpa using List.find?_some hf
  have hold := h.held c hin
  refine ⟨⟨h.ideal, h.logged, h.failed, ?_, ?_, ?_⟩, ⟨hold.id_lt, hold.alive, hold.mark_le, hold.before, hold.quiet, hold.settled,
    hold.snap⟩, ?_, hin⟩
  · intro c' hc'
    have hold' := h.held c' (List.mem_filter.1 hc').1
    exact ⟨hold'.id_lt, hold'.alive, hold'.mark_le, hold'.before, hold'.quiet, hold'.settled, hold'.snap⟩
  · exact fun c' hc' => h.rest c' (List.mem_filter.1 hc').1
  · exact (List.filter_sublist.map _).nodup h.ids
  · intro c' hc' heq
    have hne := (List.mem_filter.1 hc').2
    rw [heq, hid] at hne
    simp at hne

/-- A call that starts: its snapshot is the flowlet as it is. -/
theorem enter (h : Inv base w) (opId : Option String) (now : Int) {fin : End} (hs : Started w c es fin) :
    Inv base (w.claim opId now) ∧ Held base (w.claim opId now) c ∧ ∀ c' ∈ w.calls, c'.id ≠ c.id := by
  have hnew : ∀ p ∈ w.log, p.1 ≠ some c.id := by
    intro p hp heq
    have hlt := h.logged p hp c.id heq
    rw [hs.id] at hlt
    omega
  refine ⟨⟨h.ideal, fun p hp i hi => Nat.lt_succ_of_lt (h.logged p hp i hi), fun i hi => Nat.lt_succ_of_lt (h.failed i hi), ?_, h.rest,
    h.ids⟩, ⟨?_, ?_, ?_, ?_, fun _ => hnew, ?_, ?_⟩, ?_⟩
  · intro c' hc'
    have hold := h.held c' hc'
    exact { hold with id_lt := Nat.lt_succ_of_lt hold.id_lt }
  · rw [hs.id]
    exact Nat.lt_succ_self _
  · intro hin
    have hlt := h.failed c.id hin
    rw [hs.id] at hlt
    omega
  · rw [hs.mark]
    exact Nat.le_refl _
  · exact fun p hp => hnew p (List.mem_of_mem_take hp)
  · rw [hs.settled]
    exact fun i hi => hi
  · intro s hsnap
    have hrows : s = w.rows := by
      rcases hs.snapshot with hn | hn
      · rw [hn] at hsnap
        cases hsnap
      · exact (Option.some.inj (hn.symm.trans hsnap)).symm
    show s.state = (applyAll base (survivors c.settled (w.log.take c.mark))).state ∧
      s.events = (applyAll base (survivors c.settled (w.log.take c.mark))).events
    rw [hs.mark, hs.settled, List.take_length, ← h.ideal, hrows]
    exact ⟨rfl, rfl⟩
  · intro c' hc' heq
    have hlt := (h.held c' hc').id_lt
    rw [heq, hs.id] at hlt
    omega

/-- What an event has a stretch of is a call that is held. -/
theorem stretched (h : Inv base w) {e : Event} {w' : Flowlet} {fin : End} {now : Int}
    (hst : stretch host label d find runner w e = some (w', c, es, fin, now)) :
    Inv base w' ∧ Held base w' c ∧ (∀ c' ∈ w'.calls, c'.id ≠ c.id) ∧ (c.snapshot = none → Whole es fin) ∧
      w'.log = w.log ∧ w'.failed = w.failed := by
  cases e with
  | tap componentId passed opId envs cal =>
    simp only [stretch] at hst
    split_ifs at hst
    cases hst
    have hs := start_spec host label d find runner w componentId passed opId envs cal
    obtain ⟨hinv, hc, hout⟩ := h.enter opId (envs 0).now hs
    exact ⟨hinv, hc, hout, hs.whole, rfl, rfl⟩
  | resume call outcome envs =>
    simp only [stretch] at hst
    cases hf : w.calls.find? (·.id = call) with
    | none =>
      rw [hf] at hst
      cases hst
    | some c' =>
      rw [hf] at hst
      obtain ⟨hinv, hc, hout, hin⟩ := h.leave hf
      cases outcome with
      | error x =>
        cases hst
        exact ⟨hinv, hc, hout, fun _ => ⟨fun _ _ => rfl, fun _ hx => (by cases hx)⟩, rfl, rfl⟩
      | ok _ =>
        cases hst
        refine ⟨hinv, hc, hout, ?_, rfl, rfl⟩
        intro hs
        -- Nothing is left of an action that was one op.
        rw [h.rest c hin hs]
        exact ⟨fun _ hx => (by cases hx), fun _ hx => (by cases hx)⟩
  | outside es => cases hst
  | die => cases hst

/-- Every step that puts back nothing it may not keeps the flowlet ideal. -/
theorem next (h : Inv base w) {e : Event} (hclean : Clean host label d find runner w e) : Inv base (step host label d find runner w e) := by
  unfold step
  cases hst : stretch host label d find runner w e with
  | none =>
    cases e with
    | outside es => exact h.record (fun i hi => by cases hi) es
    | die =>
      exact ⟨h.ideal, h.logged, h.failed, List.forall_mem_nil _, List.forall_mem_nil _, List.nodup_nil⟩
    | tap componentId passed opId envs cal => exact h
    | resume call outcome envs => exact h
  | some str =>
    obtain ⟨w', c, es, fin, now⟩ := str
    obtain ⟨hinv, hc, hout, hwhole, hlog, hfailed⟩ := h.stretched host label d find runner hst
    show Inv base (w'.settle host d c es fin now)
    refine hinv.settle host d hc hout now hwhole ?_
    intro x hx hs
    unfold Undoable
    rw [hlog, hfailed]
    refine hclean w' c es x now ?_ hs
    rw [hst, hx]

end Inv

/-- What `Clean` says, by the stretch of the event. -/
theorem clean_iff {w : Flowlet} {e : Event} :
    Clean host label d find runner w e ↔ match stretch host label d find runner w e with
      | some (_, c, es, .raised _, _) => c.snapshot.isSome → Undoable w c es
      | _ => True := by
  constructor
  · intro h
    split
    · next hst => exact h _ _ _ _ _ hst
    · exact trivial
  · intro h w' c es x now hst
    rw [hst] at h
    exact h

instance (w : Flowlet) (c : Call) (es : List Effect) : Decidable (Undoable w c es) := inferInstanceAs (Decidable (_ ∧ _))

instance (w : Flowlet) (e : Event) : Decidable (Clean host label d find runner w e) :=
  have : Decidable (match stretch host label d find runner w e with
      | some (_, c, es, .raised _, _) => c.snapshot.isSome → Undoable w c es
      | _ => True) := by split <;> infer_instance
  decidable_of_iff' _ (clean_iff host label d find runner)

/-- Where every batch that is put back may be, the flowlet is what the calls that did not fail have made of it. -/
theorem failed_calls_leave_nothing {base : Rows} {ops : List (String × Int)} {w : Flowlet}
    (h : Reach (step host label d find runner) (Clean host label d find runner) { rows := base, ops } w) :
    w.rows = applyAll base (survivors w.failed w.log) := by
  have hinv : Inv base w := by
    refine h.invariant ?_ fun _ e hi hc => hi.next host label d find runner hc
    exact (Inv.init base).forget ops []
  exact hinv.ideal

namespace Sample

def definition : Json := .obj [("state", .obj [("x", number), ("y", number)])]

/-- One button sets `x` and asks the agent, the other counts `y` up. -/
def components : String → Option Json
  | "ask" => some (button (.obj [("op", .str "batch"), ("ops", .arr [
      .obj [("op", .str "set"), ("key", .str "x"), ("value", .num 1)],
      .obj [("op", .str "agent"), ("message", .str "hi")]])]))
  | "count" => some (button (.obj [("op", .str "increment"), ("key", .str "y")]))
  | _ => none

def envs (now : Int) : Nat → Env := fun _ => { now, today := "2026-01-01", freshId := "i0" }

def cal : Calendar := ⟨"2026-01-01", "2026-W01"⟩

def tap (componentId : String) (opId : Option String) (now : Int) : Event := .tap componentId .null opId (envs now) cal

def fails (call : Nat) (now : Int) : Event := .resume call (.error (.action "UNAVAILABLE" "the agent couldn't handle that just now")) (envs now)

abbrev sampleStep : Flowlet → Event → Flowlet := step plain (fun _ => none) definition components true

/-- A count, and a batch whose agent fails. -/
def asked : Flowlet := [tap "count" none 0, tap "ask" none 1, fails 1 2].foldl sampleStep {}

theorem failed_calls_leave_nothing_ask : asked.rows = applyAll {} (survivors asked.failed asked.log) := by
  have hr : Reach sampleStep (Clean plain (fun _ => none) definition components true) {} asked := by
    refine Reach.foldl _ _ .start ?_
    decide
  exact failed_calls_leave_nothing plain (fun _ => none) definition components true hr

end Sample

/-- While a batch awaits its agent, a button counts `y` up; the agent fails, and the count is gone. -/
theorem a_batch_undoes_a_tap :
    ¬ ∀ w, Reach (step Sample.plain (fun _ => none) Sample.definition Sample.components true) (fun _ _ => True) {} w →
        w.rows = applyAll {} (survivors w.failed w.log) := by
  intro h
  have hrows := h _ (Reach.foldl [Sample.tap "ask" none 0, Sample.tap "count" none 1, Sample.fails 0 2] _ .start (by decide))
  have hcount := congrArg (·.state.length) hrows
  revert hcount
  decide

end Flowly.Flowlets
