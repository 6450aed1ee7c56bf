/-
  Flowly.Flowlets.Latches — the `once` latches of a flowlet, over the interleaved calls of
  `apply_action` (`flowly/flowlets/actions.py`: `_apply_action`, `_once_bucket`;
  `flowly/flowlets/store.py`: `restore`).

  A latch is a state row that holds the bucket in which the action was done last: the local
  day or week, or "ever". It is read before the op and set after it, and an op that asks the
  agent waits in between; a batch that is put back takes the latches with it that were set
  since its snapshot. Definitions name their keys with a letter first, so that no op writes a
  latch.

  Proved (`done_once`): where no tap comes while a call of the same action waits, no batch is
  put back over a latch, and the calendar does not go back, an action is done at most once in
  a bucket. Two taps on a button that asks the agent break it (`asked_twice`).
-/

import Flowly.Flowlets.Calls
import Flowly.Flowlets.Schema
import Flowly.Lib.Checked
import Mathlib.Data.List.Pairwise
import Mathlib.Data.String.Basic

namespace Flowly.Flowlets

open Flowly.Lib

/-! ## The rows of the state -/

namespace Rows

variable (r : Rows) (key : String)

/-- A row that is written anew. -/
theorem find?_rewrite (value : Json) (now : Int) (k : String) (l : List StateRow) :
    ((l.map fun s => if s.key = key then { s with value, updatedAt := now } else s).find? (·.key = k)).map (·.value) =
      ((l.find? (·.key = k)).map (·.value)).map fun old => if k = key then value else old := by
  induction l with
  | nil => rfl
  | cons s l ih =>
    rw [List.map_cons, List.find?_cons, List.find?_cons]
    by_cases hs : s.key = key
    · rw [if_pos hs]
      by_cases hk : s.key = k
      · simp [hk, ← hs]
      · simpa [hk] using ih
    · rw [if_neg hs]
      by_cases hk : s.key = k
      · have hne : ¬ k = key := fun h => hs (hk.trans h)
        simp [hk, hne]
      · simpa [hk] using ih

theorem get?_setState (value : Json) (now : Int) (k : String) :
    (r.setState key value now).get? k = if k = key then some value else r.get? k := by
  unfold Rows.setState Rows.get?
  by_cases hin : key ∈ r.state.map (·.key)
  · rw [if_pos hin]
    refine (find?_rewrite key value now k r.state).trans ?_
    by_cases hk : k = key
    · subst hk
      obtain ⟨s, hs, hkey⟩ := List.mem_map.1 hin
      have hsome : (r.state.find? (·.key = k)).isSome := List.find?_isSome.2 ⟨s, hs, by simpa using hkey⟩
      obtain ⟨found, hfound⟩ := Option.isSome_iff_exists.1 hsome
      simp [hfound]
    · simp [hk, Function.comp_def]
  · rw [if_neg hin]
    dsimp only
    rw [List.find?_append]
    by_cases hk : k = key
    · subst hk
      have hnone : r.state.find? (·.key = k) = none :=
        List.find?_eq_none.2 fun s hs he => hin (List.mem_map.2 ⟨s, hs, by simpa using he⟩)
      simp [hnone]
    · have hne : ¬ key = k := fun h => hk h.symm
      simp [hk, hne]

theorem get?_resetState {k : String} (h : k ≠ key) : (Effect.apply r (.resetState key)).get? k = r.get? k := by
  show ((r.state.filter (·.key ≠ key)).find? (·.key = k)).map _ = (r.state.find? (·.key = k)).map _
  rw [List.find?_filter]
  congr 2
  funext s
  by_cases hs : s.key = k
  · simp [hs, h]
  · simp [hs]

end Rows

def Effect.key? : Effect → Option String
  | .setState key _ _ => some key
  | .resetState key => some key
  | _ => none

def Plain (es : List Effect) : Prop := ∀ e ∈ es, ∀ k ∈ e.key?, isKey k

instance (es : List Effect) : Decidable (Plain es) := List.decidableBAll ..

theorem get?_apply {e : Effect} {k : String} (h : e.key? ≠ some k) (r : Rows) : (e.apply r).get? k = r.get? k := by
  cases e with
  | setState key value now =>
    refine (r.get?_setState key value now k).trans (if_neg ?_)
    rintro rfl
    exact h rfl
  | resetState key =>
    refine r.get?_resetState key ?_
    rintro rfl
    exact h rfl
  | removeLast series =>
    show (r.removeLast series).get? k = r.get? k
    unfold Rows.removeLast
    split <;> rfl
  | addEvent _ | resetEvents _ | putPhoto _ | deletePhoto _ => rfl

theorem get?_applyAll {k : String} (hk : ¬ isKey k) {es : List Effect} (h : Plain es) (r : Rows) : (applyAll r es).get? k = r.get? k := by
  unfold applyAll
  induction es generalizing r with
  | nil => rfl
  | cons e es ih =>
    rw [List.foldl_cons, ih fun e he => h e (List.mem_cons_of_mem _ he)]
    exact get?_apply (fun hkey => hk (h e List.mem_cons_self k hkey)) r

/-! ## What the ops write -/

/-- What a computation returns satisfies `Q`. -/
def Yields {α : Type} (x : Except Exn α) (Q : α → Prop) : Prop := ∀ a, x = .ok a → Q a

namespace Yields

variable {α β : Type} {x : Except Exn α} {Q : α → Prop}

theorem ok {a : α} (h : Q a) : Yields (.ok a) Q := by
  rintro _ ⟨⟩
  exact h

theorem pure {a : α} (h : Q a) : Yields (Pure.pure a : Except Exn α) Q := ok h

theorem error (e : Exn) : Yields (.error e : Except Exn α) Q := by
  rintro _ ⟨⟩

theorem bind {f : α → Except Exn β} {R : β → Prop} (h : ∀ a, x = .ok a → Yields (f a) R) : Yields (x >>= f) R := by
  intro b hb
  obtain ⟨a, ha, hfa⟩ := Checked.bind_ok.1 hb
  exact h a ha b hfa

theorem throw_bind (e : Exn) {f : β → Except Exn α} : Yields (throw e >>= f) Q := by
  rintro _ ⟨⟩

theorem ite {c : Prop} [Decidable c] {y : Except Exn α} (hx : Yields x Q) (hy : Yields y Q) : Yields (if c then x else y) Q := by
  split_ifs
  · exact hx
  · exact hy

end Yields

/-- The keys that the definition declares begin with a letter. -/
def Declares (d : Json) : Prop := ∀ k, ((d.get "state").get k).isObj → isKey k

def Tame (a : Json) : Prop := opName a = "reset" → ∀ k, (a.get "key").str? = some k → isKey k

section Ops

variable {host : Host} {label : String → Option String} {d comp a passed : Json} {env : Env} {r : Rows} {k : String}

theorem Plain.setState {value : Json} {now : Int} (h : isKey k) : Plain [.setState k value now] := by
  intro e he k' hk'
  obtain rfl := List.mem_singleton.1 he
  cases hk'
  exact h

theorem Plain.append {es es' : List Effect} (h : Plain es) (h' : Plain es') : Plain (es ++ es') :=
  fun e he => (List.mem_append.1 he).elim (h e) (h' e)

theorem stateSpec_key (hd : Declares d) {key : Json} : Yields (stateSpec host d key) fun s => isKey s.1 := by
  intro s hs
  unfold stateSpec at hs
  split at hs
  · dsimp only at hs
    split_ifs at hs with hobj
    cases hs
    exact hd _ hobj
  · cases hs

theorem listSpec_key (hd : Declares d) {key : Json} : Yields (listSpec host d key) fun s => isKey s.1 := by
  refine .bind fun s hs => ?_
  exact .ite (.ok (stateSpec_key hd s hs)) (.error _)

theorem applySet_plain (hd : Declares d) : Yields (applySet host d comp a passed env) Plain := by
  refine .bind fun key _ => .bind fun s hs => ?_
  obtain ⟨k, spec⟩ := s
  have hkey : isKey k := stateSpec_key hd _ hs
  refine .ite (.pure (.setState hkey)) ?_
  exact .ite (.throw_bind _) (.bind fun v _ => .pure (.setState hkey))

theorem applyIncrement_plain (hd : Declares d) (sign : Rat) : Yields (applyIncrement host sign d a passed env r) Plain := by
  refine .bind fun key _ => .bind fun s hs => ?_
  obtain ⟨k, spec⟩ := s
  have hkey : isKey k := stateSpec_key hd _ hs
  refine .ite (.throw_bind _) ?_
  split
  · exact .pure (.setState hkey)
  · exact .error _

theorem applyToggle_plain (hd : Declares d) : Yields (applyToggle host d a passed env r) Plain := by
  refine .bind fun key _ => .bind fun s hs => ?_
  obtain ⟨k, spec⟩ := s
  have hkey : isKey k := stateSpec_key hd _ hs
  dsimp only
  split
  · exact .pure (.setState hkey)
  · exact .pure (.setState hkey)

theorem applyTimerToggle_plain (hd : Declares d) : Yields (applyTimerToggle host d a env r) Plain := by
  refine .bind fun key _ => .bind fun s hs => ?_
  exact .pure (.setState (stateSpec_key hd _ hs))

theorem applyLog_plain : Yields (applyLog host d a passed env r) Plain := by
  have hevent (e : EventRow) : Plain [.addEvent e] := by
    intro e' he k hk
    obtain rfl := List.mem_singleton.1 he
    cases hk
  unfold applyLog
  split
  · dsimp only
    split
    · split
      · exact .ite (.pure (hevent _)) (.bind fun ns _ => .pure (hevent _))
      · exact .pure (hevent _)
    · exact .error _
  · exact .error _

theorem applyRemoveLast_plain : Yields (applyRemoveLast a) Plain := by
  unfold applyRemoveLast
  split
  · refine .pure fun e he k hk => ?_
    obtain rfl := List.mem_singleton.1 he
    cases hk
  · exact .error _

theorem applyReset_plain (h : ∀ k, (a.get "key").str? = some k → isKey k) : Yields (applyReset a) Plain := by
  refine .ite (.throw_bind _) (.pure ?_)
  refine .append ?_ ?_
  · intro e he k hk
    obtain ⟨key, hkey, rfl⟩ : ∃ key, (a.get "key").str?.filter (· ≠ "") = some key ∧ Effect.resetState key = e := by simpa using he
    cases hk
    exact h _ (Option.filter_eq_some_iff.1 hkey).1
  · intro e he k hk
    obtain ⟨series, -, rfl⟩ : ∃ series, (a.get "series").str?.filter (· ≠ "") = some series ∧ Effect.resetEvents series = e := by
      simpa using he
    cases hk

theorem applyItemAdd_plain (hd : Declares d) : Yields (applyItemAdd host label d a passed env r) Plain := by
  refine .bind fun key _ => .bind fun s hs => ?_
  obtain ⟨k, spec⟩ := s
  have hkey : isKey k := listSpec_key hd _ hs
  exact .ite (.throw_bind _) (.bind fun new _ => .pure (.setState hkey))

theorem applyRowOp_plain (hd : Declares d) : Yields (applyRowOp host d a passed env r) Plain := by
  refine .bind fun key _ => .bind fun s hs => ?_
  obtain ⟨k, spec⟩ := s
  have hkey : isKey k := listSpec_key hd _ hs
  refine .bind fun envelope _ => ?_
  dsimp only
  split
  · split
    · split
      · exact .pure (.setState hkey)
      · exact .error _
    · exact .bind fun new _ => .pure (.setState hkey)
    · refine .pure (.append ?_ (.setState hkey))
      intro e he k' hk'
      obtain ⟨id, -, rfl⟩ := List.mem_map.1 he
      cases hk'
    · split
      · exact .pure (.setState hkey)
      · exact .error _
  · exact .error _

/-- No op writes a latch. -/
theorem applyOp_plain (hd : Declares d) (ha : Tame a) : Yields (applyOp host label d comp a passed env r) Plain := by
  unfold applyOp
  dsimp only
  split
  · exact applySet_plain hd
  · exact applyIncrement_plain hd 1
  · exact applyIncrement_plain hd (-1)
  · exact applyToggle_plain hd
  · exact applyTimerToggle_plain hd
  · exact applyLog_plain
  · exact applyRemoveLast_plain
  · next hop => exact applyReset_plain (ha hop)
  · exact applyItemAdd_plain hd
  · exact applyRowOp_plain hd
  · exact applyRowOp_plain hd
  · exact applyRowOp_plain hd
  · exact applyRowOp_plain hd
  · exact .error _

variable {runner : Bool} {envs : Nat → Env}

/-- The ops of a call write no latch, nor will those it leaves. -/
theorem runOps_plain (hd : Declares d) : ∀ (ops : List Json) (i : Nat) (r : Rows), (∀ a ∈ ops, Tame a) →
    Plain (runOps host label d runner comp passed envs i ops r).1 ∧
      ∀ rest, (runOps host label d runner comp passed envs i ops r).2 = .awaiting rest → ∀ a ∈ rest, Tame a := by
  have hnone : Plain [] := fun e he => by cases he
  intro ops
  induction ops with
  | nil => exact fun i r _ => ⟨hnone, fun rest h => by cases h⟩
  | cons a ops ih =>
    intro i r hops
    obtain ⟨ha, hops⟩ := List.forall_mem_cons.1 hops
    unfold runOps
    split_ifs
    · exact ⟨hnone, fun rest h => by cases h⟩
    · cases agentStart host d runner a (envs i) r with
      | error e => exact ⟨hnone, fun rest h => by cases h⟩
      | ok _ =>
        refine ⟨hnone, fun rest h => ?_⟩
        cases h
        exact hops
    · cases hes : applyOp host label d comp a passed (envs i) r with
      | error e => exact ⟨hnone, fun rest h => by cases h⟩
      | ok es =>
        obtain ⟨hplain, hrest⟩ := ih (i + 1) (applyAll r es) hops
        exact ⟨(applyOp_plain hd ha es hes).append hplain, hrest⟩

end Ops

/-! ## The latches -/

/-- What `get_state(..).get(guard_key)` is compared by. -/
def latch (r : Rows) (key : String) : Option String := (r.get? key).bind Json.str?

def tapGuard (find : String → Option Json) (componentId : String) (cal : Calendar) : Option (String × String) :=
  (find componentId).bind fun comp => (onceBucket ((comp.get "action").get "once") cal).map ("__once__" ++ componentId, ·)

theorem once_not_key (id : String) : ¬ isKey ("__once__" ++ id) := by
  unfold isKey
  rw [String.toList_append]
  show ¬ (('_' : Char).isAlpha && _) = true
  simp

section Stretch

variable {host : Host} {label : String → Option String} {d : Json} {find : String → Option Json} {runner : Bool}
variable {w : Flowlet} {c : Call} {es : List Effect} {fin : End}

/-- The keys that a component's ops reset begin with a letter. -/
def Components (find : String → Option Json) : Prop := ∀ id comp, find id = some comp → ∀ a ∈ opsOf comp, Tame a

structure Tapped (find : String → Option Json) (w : Flowlet) (componentId : String) (cal : Calendar) (c : Call) (es : List Effect)
    (fin : End) : Prop where
  guard : ∀ g ∈ c.guard, tapGuard find componentId cal = some g ∧ latch w.rows g.1 ≠ some g.2
  ops : Plain es ∧ ∀ rest, fin = .awaiting rest → ∀ a ∈ rest, Tame a

theorem typeOf_checklist {comp : Json} (h : (comp.get "type").str? ≠ some "checklist") : typeOf comp ≠ "checklist" := by
  intro ht
  unfold typeOf at ht
  cases hs : (comp.get "type").str? with
  | none =>
    rw [hs] at ht
    exact absurd ht (by decide)
  | some t =>
    rw [hs] at ht
    exact h (hs.trans (congrArg some ht))

theorem start_tapped (hd : Declares d) (hfind : Components find) (w : Flowlet) (componentId : String) (passed : Json)
    (opId : Option String) (envs : Nat → Env) (cal : Calendar) :
    Tapped find w componentId cal (start host label d find runner w componentId passed opId envs cal).1
      (start host label d find runner w componentId passed opId envs cal).2.1
      (start host label d find runner w componentId passed opId envs cal).2.2 := by
  have hnone : Plain [] := fun e he => by cases he
  have hguard : ∀ g ∈ (none : Option (String × String)), tapGuard find componentId cal = some g ∧ latch w.rows g.1 ≠ some g.2 :=
    fun g hg => by cases hg
  unfold start
  dsimp only
  cases hcomp : find componentId with
  | none => exact ⟨hguard, hnone, fun rest h => by cases h⟩
  | some comp =>
    have htame := hfind _ _ hcomp
    dsimp only
    split_ifs with hlist hobj hheld hbatch
    · cases (comp.get "items").items.find? fun it => it.isObj && passed.str?.isSome && (it.get "key").str? = passed.str? with
      | none => exact ⟨hguard, hnone, fun rest h => by cases h⟩
      | some _ =>
        have hops : ∀ a ∈ [Json.obj [("op", .str "toggle"), ("key", passed)]], Tame a := by
          intro a ha hreset
          obtain rfl := List.mem_singleton.1 ha
          exact absurd (show "toggle" = "reset" from hreset) (by decide)
        exact ⟨hguard, runOps_plain hd _ _ _ hops⟩
    · exact ⟨hguard, hnone, fun rest h => by cases h⟩
    · exact ⟨hguard, hnone, fun rest h => by cases h⟩
    all_goals
      have hopen : ∀ g ∈ (onceBucket ((comp.get "action").get "once") cal).map ("__once__" ++ componentId, ·),
          tapGuard find componentId cal = some g ∧ latch w.rows g.1 ≠ some g.2 := by
        intro g hg
        refine ⟨?_, fun heq => hheld ?_⟩
        · rw [tapGuard, hcomp]
          exact hg
        · obtain ⟨b, hb, rfl⟩ := Option.map_eq_some_iff.1 hg
          rw [hb]
          exact ⟨rfl, heq⟩
    · refine ⟨hopen, runOps_plain hd _ _ _ fun a ha => htame a ?_⟩
      rw [opsOf, if_neg (typeOf_checklist hlist), if_pos hbatch]
      exact ha
    · refine ⟨hopen, runOps_plain hd _ _ _ fun a ha hreset => ?_⟩
      obtain rfl := List.mem_singleton.1 ha
      refine htame _ ?_ hreset
      rw [opsOf, if_neg (typeOf_checklist hlist), if_neg hbatch, if_pos (truthy_of_opName (by rw [hreset]; decide))]
      exact List.mem_singleton_self _

theorem latch_record {call : Option Nat} {k : String} (hk : ¬ isKey k) (hes : Plain es) :
    latch (w.record call es).rows k = latch w.rows k := by
  unfold latch
  show ((applyAll w.rows es).get? k).bind _ = _
  rw [get?_applyAll hk hes]

/-- A latch when a call has set its own. -/
theorem latch_finished {k : String} (now : Int) :
    latch (w.finished c now).rows k = if c.guard.map (·.1) = some k then c.guard.map (·.2) else latch w.rows k := by
  unfold latch
  show ((applyAll w.rows (c.guard.map fun g => Effect.setState g.1 (.str g.2) now).toList).get? k).bind _ = _
  cases c.guard with
  | none => rfl
  | some g =>
    show ((w.rows.setState g.1 (.str g.2) now).get? k).bind _ = _
    rw [Rows.get?_setState]
    by_cases hk : k = g.1
    · simp [hk, Json.str?]
    · have hne : ¬ g.1 = k := fun h => hk h.symm
      simp [hk, hne]

end Stretch

/-! ## Every run -/

/-- A flowlet, and what was done under its latches. -/
structure Latched where
  flowlet : Flowlet := {}
  /-- Ghost: the latch and the bucket of each action that was done, the newest first. -/
  fires : List (String × String) := []

def End.isDone : End → Bool
  | .done => true
  | _ => false

def End.hasRaised : End → Bool
  | .raised _ => true
  | _ => false

section Latched

variable (host : Host) (label : String → Option String) (d : Json) (find : String → Option Json) (runner : Bool)

/-- The latch that an event sets, and its bucket: those of the action that is done by it. -/
def fired (w : Flowlet) (e : Event) : Option (String × String) :=
  (stretch host label d find runner w e).bind fun s => if s.2.2.2.1.isDone then s.2.1.guard else none

def Latched.next (w : Latched) (e : Event) : Latched where
  flowlet := step host label d find runner w.flowlet e
  fires := (fired host label d find runner w.flowlet e).toList ++ w.fires

def putBack (w : Flowlet) (e : Event) : Option Rows :=
  (stretch host label d find runner w e).bind fun s => if s.2.2.2.1.hasRaised then s.2.1.snapshot else none

/-- No latch that has been set was other when a batch that is put back has begun. -/
def Keeping (w : Latched) (e : Event) : Prop :=
  ∀ s ∈ putBack host label d find runner w.flowlet e, ∀ f ∈ w.fires, latch s f.1 = latch w.flowlet.rows f.1

/-- A tap that its latch does not hold back comes while no call of the same action waits, and in no bucket before
    one in which the action was done. What else is written is no latch. -/
def Orderly (w : Latched) : Event → Prop
  | .tap componentId _ _ _ cal => ∀ g ∈ tapGuard find componentId cal, latch w.flowlet.rows g.1 = some g.2 ∨
      (∀ c ∈ w.flowlet.calls, ∀ g' ∈ c.guard, g'.1 ≠ g.1) ∧ ∀ f ∈ w.fires, f.1 = g.1 → f.2 ≤ g.2
  | .outside es => Plain es
  | .resume _ _ _ | .die => True

instance (w : Latched) (e : Event) : Decidable (Keeping host label d find runner w e) :=
  inferInstanceAs (Decidable (∀ s ∈ putBack host label d find runner w.flowlet e, _))

instance (w : Latched) : (e : Event) → Decidable (Orderly find w e)
  | .tap componentId _ _ _ cal => inferInstanceAs (Decidable (∀ g ∈ tapGuard find componentId cal, _))
  | .outside es => inferInstanceAs (Decidable (Plain es))
  | .resume _ _ _ | .die => isTrue trivial

end Latched

/-- Two calls that set no latch in common. -/
def Call.Apart (c c' : Call) : Prop := ∀ g ∈ c.guard, ∀ g' ∈ c'.guard, g.1 ≠ g'.1

instance : Std.Symm Call.Apart := ⟨fun _ _ h g hg g' hg' => (h g' hg' g hg).symm⟩

/-- What holds of the latches in every run. -/
structure Latched.Inv (w : Latched) : Prop where
  once : w.fires.Nodup
  name : ∀ f ∈ w.fires, ¬ isKey f.1
  latch : ∀ f ∈ w.fires, ∃ b, Flowlets.latch w.flowlet.rows f.1 = some b ∧ f.2 ≤ b ∧ (f.1, b) ∈ w.fires
  guard : ∀ c ∈ w.flowlet.calls, ∀ g ∈ c.guard, ¬ isKey g.1 ∧ ∀ f ∈ w.fires, f.1 = g.1 → f.2 < g.2
  alone : w.flowlet.calls.Pairwise Call.Apart
  rest : ∀ c ∈ w.flowlet.calls, ∀ a ∈ c.rest, Tame a

structure Running (w : Latched) (w' : Flowlet) (c : Call) (es : List Effect) (fin : End) : Prop where
  rows : w'.rows = w.flowlet.rows
  ops : Plain es ∧ ∀ rest, fin = .awaiting rest → ∀ a ∈ rest, Tame a
  guard : ∀ g ∈ c.guard, ¬ isKey g.1 ∧ ∀ f ∈ w.fires, f.1 = g.1 → f.2 < g.2
  apart : ∀ c' ∈ w'.calls, c.Apart c'
  others : w'.calls.Sublist w.flowlet.calls

namespace Latched.Inv

variable {host : Host} {label : String → Option String} {d : Json} {find : String → Option Json} {runner : Bool}
variable {w : Latched}

/-- The calls that are left. -/
theorem calls (h : w.Inv) {f : Flowlet} (hcalls : f.calls.Sublist w.flowlet.calls)
    (hrows : ∀ k, ¬ isKey k → Flowlets.latch f.rows k = Flowlets.latch w.flowlet.rows k) : Inv { w with flowlet := f } where
  once := h.once
  name := h.name
  latch g hg := by
    rw [hrows g.1 (h.name g hg)]
    exact h.latch g hg
  guard c hc := h.guard c (hcalls.subset hc)
  alone := h.alone.sublist hcalls
  rest c hc := h.rest c (hcalls.subset hc)

theorem awaiting (h : w.Inv) {w' : Flowlet} {c : Call} {es : List Effect} {rest : List Json}
    (hr : Running w w' c es (.awaiting rest)) (now : Int) : Inv { w with flowlet := w'.settle host d c es (.awaiting rest) now } where
  once := h.once
  name := h.name
  latch g hg := by
    show ∃ b, Flowlets.latch (w'.record (some c.id) es).rows g.1 = _ ∧ _
    rw [latch_record (h.name g hg) hr.ops.1, hr.rows]
    exact h.latch g hg
  guard := List.forall_mem_cons.2 ⟨hr.guard, fun c' hc' => h.guard c' (hr.others.subset hc')⟩
  alone := List.pairwise_cons.2 ⟨hr.apart, h.alone.sublist hr.others⟩
  rest := List.forall_mem_cons.2 ⟨hr.ops.2 rest rfl, fun c' hc' => h.rest c' (hr.others.subset hc')⟩

theorem raised (h : w.Inv) {w' : Flowlet} {c : Call} {es : List Effect} {x : Exn} (hr : Running w w' c es (.raised x)) (now : Int)
    (hback : ∀ s ∈ c.snapshot, ∀ f ∈ w.fires, Flowlets.latch s f.1 = Flowlets.latch w.flowlet.rows f.1) :
    Inv { w with flowlet := w'.settle host d c es (.raised x) now } where
  once := h.once
  name := h.name
  latch g hg := by
    have hold := h.latch g hg
    show ∃ b, Flowlets.latch ((w'.record (some c.id) es).rows.restore c.snapshot) g.1 = _ ∧ _
    cases hs : c.snapshot with
    | none =>
      show ∃ b, Flowlets.latch (w'.record (some c.id) es).rows g.1 = _ ∧ _
      rw [latch_record (h.name g hg) hr.ops.1, hr.rows]
      exact hold
    | some s =>
      rw [← hback s hs g hg] at hold
      exact hold
  guard c' hc' := h.guard c' (hr.others.subset hc')
  alone := h.alone.sublist hr.others
  rest c' hc' := h.rest c' (hr.others.subset hc')

/-- The action of a call is done, and its latch set. -/
theorem done (h : w.Inv) {w' : Flowlet} {c : Call} {es : List Effect} (hr : Running w w' c es .done) (now : Int) :
    Inv { flowlet := w'.settle host d c es .done now, fires := c.guard.toList ++ w.fires } := by
  have hrec (k : String) (hk : ¬ isKey k) : Flowlets.latch (w'.record (some c.id) es).rows k = Flowlets.latch w.flowlet.rows k := by
    rw [latch_record hk hr.ops.1, hr.rows]
  have hrows : (w'.settle host d c es .done now).rows = ((w'.record (some c.id) es).finished c now).rows := by
    dsimp only [Flowlet.settle]
    split <;> rfl
  have hcalls : (w'.settle host d c es .done now).calls = w'.calls := by
    dsimp only [Flowlet.settle]
    split <;> rfl
  cases hg : c.guard with
  | none =>
    refine h.calls (by rw [hcalls]; exact hr.others) fun k hk => ?_
    rw [hrows, latch_finished, hg]
    exact hrec k hk
  | some g =>
    obtain ⟨hname, hlt⟩ := hr.guard g hg
    refine ⟨?_, ?_, ?_, ?_, ?_, ?_⟩
    · refine List.nodup_cons.2 ⟨fun hin => ?_, h.once⟩
      exact lt_irrefl _ (hlt g hin rfl)
    · exact List.forall_mem_cons.2 ⟨hname, h.name⟩
    · intro f hf
      show ∃ b, Flowlets.latch (w'.settle host d c es .done now).rows f.1 = some b ∧ f.2 ≤ b ∧ (f.1, b) ∈ g :: w.fires
      rw [hrows, latch_finished, hg, Option.map_some, Option.map_some]
      by_cases hkey : g.1 = f.1
      · refine ⟨g.2, if_pos (congrArg some hkey), ?_, ?_⟩
        · rcases List.mem_cons.1 hf with rfl | hf
          · exact le_refl _
          · exact (hlt f hf hkey.symm).le
        · rw [← hkey]
          exact List.mem_cons_self
      · rw [if_neg fun heq => hkey (Option.some.inj heq)]
        have hf' : f ∈ w.fires := (List.mem_cons.1 hf).resolve_left fun heq => hkey (congrArg Prod.fst heq.symm)
        rw [hrec f.1 (h.name f hf')]
        obtain ⟨b, hb, hle, hin⟩ := h.latch f hf'
        exact ⟨b, hb, hle, List.mem_cons_of_mem _ hin⟩
    · intro c' hc' g' hg'
      change c' ∈ (w'.settle host d c es .done now).calls at hc'
      rw [hcalls] at hc'
      obtain ⟨hname', hlt'⟩ := h.guard c' (hr.others.subset hc') g' hg'
      refine ⟨hname', List.forall_mem_cons.2 ⟨fun heq => ?_, hlt'⟩⟩
      exact absurd heq (hr.apart c' hc' g hg g' hg')
    · show (w'.settle host d c es .done now).calls.Pairwise _
      rw [hcalls]
      exact h.alone.sublist hr.others
    · intro c' hc'
      change c' ∈ (w'.settle host d c es .done now).calls at hc'
      rw [hcalls] at hc'
      exact h.rest c' (hr.others.subset hc')

/-- What an event has a stretch of. -/
theorem running (h : w.Inv) (hd : Declares d) (hfind : Components find) {e : Event} (ho : Orderly find w e) {w' : Flowlet} {c : Call}
    {es : List Effect} {fin : End} {now : Int} (hst : stretch host label d find runner w.flowlet e = some (w', c, es, fin, now)) :
    Running w w' c es fin := by
  cases e with
  | tap componentId passed opId envs cal =>
    simp only [stretch] at hst
    split_ifs at hst
    cases hst
    have hs : Tapped find w.flowlet componentId cal (start host label d find runner w.flowlet componentId passed opId envs cal).1
        (start host label d find runner w.flowlet componentId passed opId envs cal).2.1
        (start host label d find runner w.flowlet componentId passed opId envs cal).2.2 :=
      start_tapped hd hfind w.flowlet componentId passed opId envs cal
    have hopen : ∀ g ∈ (start host label d find runner w.flowlet componentId passed opId envs cal).1.guard,
        (∀ c ∈ w.flowlet.calls, ∀ g' ∈ c.guard, g'.1 ≠ g.1) ∧ ∀ f ∈ w.fires, f.1 = g.1 → f.2 ≤ g.2 :=
      fun g hg => (ho g (hs.guard g hg).1).resolve_left (hs.guard g hg).2
    refine ⟨rfl, hs.ops, fun g hg => ⟨?_, fun f hf hkey => ?_⟩, fun c' hc' g hg g' hg' => ?_, List.Sublist.refl _⟩
    · obtain ⟨comp, -, hbucket⟩ := Option.bind_eq_some_iff.1 (hs.guard g hg).1
      obtain ⟨b, -, rfl⟩ := Option.map_eq_some_iff.1 hbucket
      exact once_not_key componentId
    · -- The latch has the newest bucket, which is not this one.
      obtain ⟨b, hb, hle, hin⟩ := h.latch f hf
      have hnewest : b ≤ g.2 := (hopen g hg).2 (f.1, b) hin hkey
      have hne : b ≠ g.2 := by
        rintro rfl
        rw [hkey] at hb
        exact (hs.guard g hg).2 hb
      exact lt_of_le_of_lt hle (lt_of_le_of_ne hnewest hne)
    · exact ((hopen g hg).1 c' hc' g' hg').symm
  | resume call outcome envs =>
    simp only [stretch] at hst
    cases hf : w.flowlet.calls.find? (·.id = call) with
    | none =>
      rw [hf] at hst
      cases hst
    | some c' =>
      rw [hf] at hst
      have hin : c' ∈ w.flowlet.calls := List.mem_of_find?_eq_some hf
      have hid : c'.id = call := by simpa using List.find?_some hf
      have hsub : (w.flowlet.calls.filter (·.id ≠ call)).Sublist w.flowlet.calls := List.filter_sublist
      have happart : ∀ c'' ∈ w.flowlet.calls.filter (·.id ≠ call), c'.Apart c'' := by
        intro c'' hc''
        obtain ⟨hc'', hne⟩ := List.mem_filter.1 hc''
        refine h.alone.forall hin hc'' ?_
        rintro rfl
        exact absurd hid (by simpa using hne)
      cases outcome with
      | error x =>
        cases hst
        exact ⟨rfl, ⟨fun e he => (by cases he), fun rest hrest => (by cases hrest)⟩, h.guard c hin, happart, hsub⟩
      | ok _ =>
        cases hst
        exact ⟨rfl, runOps_plain hd _ _ _ (h.rest c hin), h.guard c hin, happart, hsub⟩
  | outside es => cases hst
  | die => cases hst

/-- A step of an orderly run. -/
theorem next (h : w.Inv) (hd : Declares d) (hfind : Components find) {e : Event}
    (hkeep : Keeping host label d find runner w e) (ho : Orderly find w e) : (w.next host label d find runner e).Inv := by
  unfold Latched.next fired step
  cases hst : stretch host label d find runner w.flowlet e with
  | none =>
    show Inv { flowlet := _, fires := w.fires }
    cases e with
    | outside es => exact h.calls (List.Sublist.refl _) fun k hk => latch_record hk ho
    | die => exact h.calls (List.nil_sublist _) fun k _ => rfl
    | tap componentId passed opId envs cal => exact h
    | resume call outcome envs => exact h
  | some s =>
    obtain ⟨w', c, es, fin, now⟩ := s
    have hr := h.running hd hfind ho hst
    cases fin with
    | awaiting rest => exact h.awaiting hr now
    | done => exact h.done hr now
    | raised x =>
      refine h.raised hr now fun s hs => hkeep s ?_
      unfold putBack
      rw [hst]
      exact hs

end Latched.Inv

section Latched

variable (host : Host) (label : String → Option String) (d : Json) (find : String → Option Json) (runner : Bool)

/-- In every orderly run that puts no batch back over a latch, an action is done at most once in a bucket. -/
theorem done_once (hd : Declares d) (hfind : Components find) {f : Flowlet} (hcalls : f.calls = []) {w : Latched}
    (h : Reach (Latched.next host label d find runner)
      (fun w e => Keeping host label d find runner w e ∧ Orderly find w e) { flowlet := f } w) :
    w.fires.Nodup := by
  have hinv : w.Inv := by
    refine h.invariant ?_ fun _ e hi hc => hi.next hd hfind hc.1 hc.2
    refine ⟨List.nodup_nil, List.forall_mem_nil _, List.forall_mem_nil _, ?_, ?_, ?_⟩
    · rw [hcalls]
      exact List.forall_mem_nil _
    · rw [hcalls]
      exact List.Pairwise.nil
    · rw [hcalls]
      exact List.forall_mem_nil _
  exact hinv.once

end Latched

namespace Sample

def once (componentId : String) : Option Json :=
  if componentId = "ask" then
    some (button (.obj [("op", .str "agent"), ("message", .str "hi"), ("once", .bool true)]))
  else none

def answers (call : Nat) (now : Int) : Event := .resume call (.ok ()) (envs now)

abbrev onceNext : Latched → Event → Latched := Latched.next plain (fun _ => none) definition once true

def askedOnce : List Event := [tap "ask" none 0, answers 0 1, tap "ask" none 2]

def askedTwice : List Event := [tap "ask" none 0, tap "ask" none 1, answers 0 2, answers 1 3]

theorem definition_declares : Declares definition := by
  intro k hk
  unfold definition Json.get at hk
  by_cases hx : k = "x"
  · subst hx
    decide
  · by_cases hy : k = "y"
    · subst hy
      decide
    · have hbx : (k == "x") = false := beq_false_of_ne hx
      have hby : (k == "y") = false := beq_false_of_ne hy
      simp [Json.fields, List.lookup_cons, hbx, hby, Json.isObj] at hk

theorem once_components : Components once := by
  intro id comp hcomp a ha hreset
  unfold once at hcomp
  split_ifs at hcomp
  cases hcomp
  obtain rfl := List.mem_singleton.1 ha
  exact absurd hreset (by decide)

theorem done_once_ask : (askedOnce.foldl onceNext {}).fires.Nodup := by
  refine done_once plain (fun _ => none) definition once true definition_declares once_components rfl
    (Reach.foldl askedOnce _ .start ?_)
  decide

end Sample

/-- Two taps that wait for the agent at the same time are both done. -/
theorem asked_twice :
    ¬ ∀ w, Reach Sample.onceNext (fun _ _ => True) {} w → w.fires.Nodup := by
  intro h
  have hfires := h _ (Reach.free Sample.askedTwice _)
  revert hfires
  decide

end Flowly.Flowlets
