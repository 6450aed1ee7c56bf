/-
  Flowly.Flowlets.Watches — when the watches of a flowlet fire
  (`flowly/flowlets/watches.py`: `_decide` and the critical section of `_evaluate`).

  An evaluation is a heartbeat or a tap: a time, the values at that time, and when the
  flowlet was last active. The value of a `when` expression is a parameter, and so is the
  zone, as the UTC offset at each instant.

  Proved: over any run of evaluations whose clock does not go back, every firing is
  justified by what came before it (`Justified`): `once`, `everyMinutes`, the cooldown and
  the edge of a condition or goal, fresh activity for a `stale` watch. An `at` schedule
  fires once per local date where the local date does not go back either
  (`firings_justified`). It does go back where an offset falls shortly after midnight, and
  the schedule then fires twice (`a_date_comes_back`).
-/

import Mathlib.Data.List.Induction
import Mathlib.Data.List.Pairwise

namespace Flowly.Flowlets

/-- A time zone, in ms. -/
structure Zone where
  utcoffset : Int → Int

def dayMs : Int := 86400000

namespace Zone

def date (tz : Zone) (t : Int) : Int := (t + tz.utcoffset t) / dayMs

def minute (tz : Zone) (t : Int) : Int := (t + tz.utcoffset t) % dayMs / 60000

/-- `datetime.weekday`, Monday is 0; the epoch was a Thursday. -/
def weekday (tz : Zone) (t : Int) : Int := (tz.date t + 3) % 7

end Zone

inductive Trigger where
  | schedule
  | condition
  | goal
  | stale

structure Watch where
  id : String
  trigger : Trigger
  once : Bool := false
  /-- Days of the week, Monday is 0; none means all. -/
  days : List Int := []
  cooldownMinutes : Option Nat := none
  everyMinutes : Option Nat := none
  /-- `at` and `after` as `_parse_hhmm` has them. -/
  startAt : Option Int := none
  after : Option Int := none
  when : Option String := none
  idleMinutes : Nat := 0

/-- `flowlet_watch_state`; an absent row has the defaults. -/
structure WatchState where
  lastFiredMs : Option Int := none
  lastCond : Bool := false

def Trigger.tracksEdge : Trigger → Bool
  | .condition | .goal => true
  | _ => false

/-- `WATCH_DEFAULT_COOLDOWN_MIN`. -/
def Trigger.cooldownMinutes : Trigger → Nat
  | .goal | .stale => 720
  | _ => 360

/-- One evaluation of a flowlet. -/
structure Evaluation (V : Type) where
  now : Int
  values : V
  /-- `last_activity_ms`, or `created_at`. -/
  activity : Option Int
  deriving DecidableEq

namespace Watch

def cooldownMs (w : Watch) : Int := (w.cooldownMinutes.getD w.trigger.cooldownMinutes : Nat) * 60000

def onDay (w : Watch) (tz : Zone) (now : Int) : Prop := w.days = [] ∨ tz.weekday now ∈ w.days

instance (w : Watch) (tz : Zone) (now : Int) : Decidable (w.onDay tz now) := inferInstanceAs (Decidable (_ ∨ _))

/-- `everyMinutes`, when it is truthy. -/
def every (w : Watch) : Option Nat := w.everyMinutes.filter (· ≠ 0)

def scheduleDue (w : Watch) (ws : WatchState) (now : Int) (tz : Zone) : Bool :=
  match w.every, w.startAt, ws.lastFiredMs with
  | some _, _, none => true
  | some every, _, some last => every * 60000 ≤ now - last
  | none, none, _ => false
  | none, some startAt, none => startAt ≤ tz.minute now
  | none, some startAt, some last => startAt ≤ tz.minute now ∧ tz.date last ≠ tz.date now

variable {V : Type} (holds : String → V → Bool)

/-- `_eval_cond`; `holds` is `eval_expr(..) != 0`, False on any error. -/
def evalCond (w : Watch) (values : V) (nowMin : Int) : Bool :=
  match w.when with
  | none => false
  | some expr => holds expr values && (w.after.all (· ≤ nowMin))

/-- The edge state the watch is compared with: an `after` gate opens anew each day. -/
def armedCond (w : Watch) (ws : WatchState) (now : Int) (tz : Zone) : Bool :=
  match ws.lastFiredMs, w.after with
  | some last, some _ => if tz.date last < tz.date now then false else ws.lastCond
  | _, _ => ws.lastCond

def cooled (w : Watch) (ws : WatchState) (now : Int) : Bool := ws.lastFiredMs.all (w.cooldownMs ≤ now - ·)

def staleDue (w : Watch) (ws : WatchState) (now : Int) (activity : Option Int) : Bool :=
  match activity with
  | none => false
  | some active => w.idleMinutes * 60000 ≤ now - active && w.cooled ws now && ws.lastFiredMs.all (· < active)

/-- `_decide`: whether to fire, and the edge state to keep, if the trigger has one. -/
def decide (w : Watch) (ws : WatchState) (tz : Zone) (e : Evaluation V) : Bool × Option Bool :=
  let kept := if w.trigger.tracksEdge then some ws.lastCond else none
  if w.once ∧ ws.lastFiredMs ≠ none then (false, kept)
  else if ¬ w.onDay tz e.now then (false, kept)
  else match w.trigger with
    | .schedule => (w.scheduleDue ws e.now tz, none)
    | .stale => (w.staleDue ws e.now e.activity, none)
    | .condition | .goal =>
      let cond := w.evalCond holds e.values (tz.minute e.now)
      (cond && !w.armedCond ws e.now tz && w.cooled ws e.now, some cond)

end Watch

/-- `set_watch_state`: only what is given is overwritten. -/
def WatchState.set (ws : WatchState) (lastFiredMs : Option Int) (lastCond : Option Bool) : WatchState :=
  { lastFiredMs := lastFiredMs <|> ws.lastFiredMs, lastCond := lastCond.getD ws.lastCond }

variable {V : Type} (holds : String → V → Bool) (tz : Zone)

def Watch.evaluate (w : Watch) (e : Evaluation V) (ws : WatchState) : WatchState × Bool :=
  let (fire, newCond) := w.decide holds ws tz e
  let ws' := if newCond ≠ none ∧ newCond ≠ some ws.lastCond then ws.set none newCond else ws
  if fire then (ws'.set (some e.now) newCond, true) else (ws', false)

/-- The critical section: every watch of the flowlet, with the states read before the first. -/
def evaluate (watches : List Watch) (e : Evaluation V) (wsAll : String → WatchState) : String → WatchState :=
  watches.foldl (fun ws w => fun id => if id = w.id then (w.evaluate holds tz e (wsAll w.id)).1 else ws id) wsAll

/-- A run of the flowlet as watch `w` has it: the states, and the evaluations, newest first,
    each with whether it fired `w`. -/
def run (watches : List Watch) (w : Watch) (es : List (Evaluation V)) : (String → WatchState) × List (Evaluation V × Bool) :=
  es.foldl (fun s e => (evaluate holds tz watches e s.1, (e, (w.evaluate holds tz e (s.1 w.id)).2) :: s.2)) (fun _ => {}, [])

def firings (tr : List (Evaluation V × Bool)) : List (Evaluation V) := (tr.filter (·.2)).map (·.1)

/-- Why `w` may fire at `e`, after the evaluations before it, whatever the dates do. -/
structure Paced (w : Watch) (e : Evaluation V) (earlier : List (Evaluation V × Bool)) : Prop where
  once : w.once = true → firings earlier = []
  /-- Never before its time of day. -/
  timed : w.trigger = .schedule → w.every = none → ∃ startAt, w.startAt = some startAt ∧ startAt ≤ tz.minute e.now
  spaced : w.trigger = .schedule → ∀ every, w.every = some every → ∀ a ∈ firings earlier, every * 60000 ≤ e.now - a.now
  cooled : w.trigger.tracksEdge = true → ∀ a ∈ firings earlier, w.cooldownMs ≤ e.now - a.now
  /-- Since the last firing the condition was found false, or with an `after` gate the date changed. -/
  edge : w.trigger.tracksEdge = true → ∀ between a before, earlier = between ++ (a, true) :: before → firings between = [] →
    (∃ x ∈ between, w.onDay tz x.1.now ∧ w.evalCond holds x.1.values (tz.minute x.1.now) = false) ∨
      w.after ≠ none ∧ tz.date a.now < tz.date e.now
  /-- Idle for long enough, since an activity after every firing before. -/
  fresh : w.trigger = .stale → ∃ active, e.activity = some active ∧ w.idleMinutes * 60000 ≤ e.now - active ∧
    ∀ a ∈ firings earlier, a.now < active

/-- And a schedule without `everyMinutes` not on a date it has fired on. -/
structure Justified (w : Watch) (e : Evaluation V) (earlier : List (Evaluation V × Bool)) : Prop extends
    Paced holds tz w e earlier where
  dated : w.trigger = .schedule → w.every = none → ∀ a ∈ firings earlier, tz.date a.now ≠ tz.date e.now

/-- The clock, or the local date, does not go back. -/
def Forward (f : Int → Int) (es : List (Evaluation V)) : Prop := es.Pairwise fun e e' => f e.now ≤ f e'.now

/-! ## One evaluation -/

namespace Watch

variable {w : Watch} {ws : WatchState} {e : Evaluation V}

/-- What `_decide` has seen when it fires. -/
structure Fires (w : Watch) (ws : WatchState) (e : Evaluation V) : Prop where
  once : w.once = true → ws.lastFiredMs = none
  dated : w.trigger = .schedule → w.every = none → ∃ startAt, w.startAt = some startAt ∧ startAt ≤ tz.minute e.now ∧
    ∀ last, ws.lastFiredMs = some last → tz.date last ≠ tz.date e.now
  spaced : w.trigger = .schedule → ∀ every, w.every = some every → ∀ last, ws.lastFiredMs = some last → every * 60000 ≤ e.now - last
  cooled : w.trigger.tracksEdge = true → ∀ last, ws.lastFiredMs = some last → w.cooldownMs ≤ e.now - last
  armed : w.trigger.tracksEdge = true → w.armedCond ws e.now tz = false
  fresh : w.trigger = .stale → ∃ active, e.activity = some active ∧ w.idleMinutes * 60000 ≤ e.now - active ∧
    ∀ last, ws.lastFiredMs = some last → last < active

theorem cooled_spec (h : w.cooled ws e.now = true) : ∀ last, ws.lastFiredMs = some last → w.cooldownMs ≤ e.now - last := by
  intro last hl
  unfold cooled at h
  rw [hl] at h
  simpa using h

theorem scheduleDue_spec (h : w.scheduleDue ws e.now tz = true) :
    (w.every = none → ∃ startAt, w.startAt = some startAt ∧ startAt ≤ tz.minute e.now ∧
      ∀ last, ws.lastFiredMs = some last → tz.date last ≠ tz.date e.now) ∧
    ∀ every, w.every = some every → ∀ last, ws.lastFiredMs = some last → every * 60000 ≤ e.now - last := by
  unfold scheduleDue at h
  split at h
  · next every hevery hlast =>
    refine ⟨fun hn => (by rw [hevery] at hn; cases hn), fun _ _ last hl => ?_⟩
    rw [hlast] at hl
    cases hl
  · next every last hevery hlast =>
    refine ⟨fun hn => (by rw [hevery] at hn; cases hn), fun k hk l hl => ?_⟩
    rw [hevery] at hk
    rw [hlast] at hl
    cases hk
    cases hl
    simpa using h
  · cases h
  · next startAt hevery hstart hlast =>
    refine ⟨fun _ => ⟨startAt, hstart, by simpa using h, fun last hl => ?_⟩, fun k hk => ?_⟩
    · rw [hlast] at hl
      cases hl
    · rw [hevery] at hk
      cases hk
  · next startAt last hevery hstart hlast =>
    obtain ⟨htime, hdate⟩ : startAt ≤ tz.minute e.now ∧ tz.date last ≠ tz.date e.now := by simpa using h
    refine ⟨fun _ => ⟨startAt, hstart, htime, fun l hl => ?_⟩, fun k hk => ?_⟩
    · rw [hlast] at hl
      cases hl
      exact hdate
    · rw [hevery] at hk
      cases hk

theorem staleDue_spec (h : w.staleDue ws e.now e.activity = true) :
    ∃ active, e.activity = some active ∧ w.idleMinutes * 60000 ≤ e.now - active ∧
      ∀ last, ws.lastFiredMs = some last → last < active := by
  unfold staleDue at h
  split at h
  · cases h
  · next active hact =>
    simp only [Bool.and_eq_true, decide_eq_true_eq] at h
    obtain ⟨⟨hidle, _⟩, hnew⟩ := h
    refine ⟨active, hact, hidle, fun last hl => ?_⟩
    rw [hl] at hnew
    simpa using hnew

/-- `_decide` for a condition or a goal. -/
theorem decide_edge (h : w.trigger.tracksEdge = true) : w.decide holds ws tz e =
    if (w.once = true ∧ ws.lastFiredMs ≠ none) ∨ ¬ w.onDay tz e.now then (false, some ws.lastCond)
    else (w.evalCond holds e.values (tz.minute e.now) && !w.armedCond ws e.now tz && w.cooled ws e.now,
      some (w.evalCond holds e.values (tz.minute e.now))) := by
  unfold decide
  by_cases honce : w.once = true ∧ ws.lastFiredMs ≠ none
  · simp [honce, h]
  · by_cases hday : w.onDay tz e.now
    · cases ht : w.trigger with
      | schedule => rw [ht] at h; cases h
      | stale => rw [ht] at h; cases h
      | condition => simp [honce, hday]
      | goal => simp [honce, hday]
    · simp [honce, hday, h]

theorem decide_edge_spec (ht : w.trigger.tracksEdge = true) (h : (w.decide holds ws tz e).1 = true) : w.Fires tz ws e := by
  rw [decide_edge holds tz ht] at h
  split_ifs at h with hoff
  simp only [Bool.and_eq_true, Bool.not_eq_true'] at h
  obtain ⟨⟨_, harmed⟩, hcool⟩ := h
  have hnot : w.trigger ≠ .schedule ∧ w.trigger ≠ .stale := by
    constructor <;> intro hc <;> rw [hc] at ht <;> cases ht
  refine ⟨fun ho => ?_, fun hs => absurd hs hnot.1, fun hs => absurd hs hnot.1, fun _ => cooled_spec hcool, fun _ => harmed,
    fun hs => absurd hs hnot.2⟩
  by_contra hne
  exact hoff (.inl ⟨ho, hne⟩)

theorem decide_spec (h : (w.decide holds ws tz e).1 = true) : w.Fires tz ws e := by
  by_cases hedge : w.trigger.tracksEdge = true
  · exact decide_edge_spec holds tz hedge h
  unfold decide at h
  dsimp only at h
  split_ifs at h with honce hday
  have honce' : w.once = true → ws.lastFiredMs = none := fun ho => by
    by_contra hne
    exact honce ⟨ho, hne⟩
  cases ht : w.trigger with
  | schedule =>
    rw [ht] at h
    obtain ⟨hdated, hspaced⟩ := scheduleDue_spec tz h
    exact ⟨honce', fun _ => hdated, fun _ => hspaced, fun hc => absurd hc hedge, fun hc => absurd hc hedge,
      fun hs => (by rw [ht] at hs; cases hs)⟩
  | stale =>
    rw [ht] at h
    exact ⟨honce', fun hs => (by rw [ht] at hs; cases hs), fun hs => (by rw [ht] at hs; cases hs), fun hc => absurd hc hedge,
      fun hc => absurd hc hedge, fun _ => staleDue_spec h⟩
  | condition | goal => exact absurd (by rw [ht]; rfl) hedge

theorem evaluate_fired : (w.evaluate holds tz e ws).2 = (w.decide holds ws tz e).1 := by
  unfold evaluate
  dsimp only
  by_cases h : (w.decide holds ws tz e).1 = true
  · rw [if_pos h, h]
  · rw [if_neg h, eq_false_of_ne_true h]

theorem evaluate_last : (w.evaluate holds tz e ws).1.lastFiredMs =
    if (w.evaluate holds tz e ws).2 = true then some e.now else ws.lastFiredMs := by
  unfold evaluate
  dsimp only
  split_ifs <;> simp_all [WatchState.set]

/-- The edge state a condition or a goal keeps is what `_decide` says. -/
theorem evaluate_cond (h : w.trigger.tracksEdge = true) :
    some (w.evaluate holds tz e ws).1.lastCond = (w.decide holds ws tz e).2 := by
  obtain ⟨c, hc⟩ : ∃ c, (w.decide holds ws tz e).2 = some c := by
    rw [decide_edge holds tz h]
    split_ifs <;> exact ⟨_, rfl⟩
  unfold evaluate
  dsimp only
  rw [hc]
  split_ifs <;> simp_all [WatchState.set]

/-- The edge is open after an evaluation that did not fire, and only if it was open before
    or the condition was found false on an allowed day. -/
theorem evaluate_open (h : w.trigger.tracksEdge = true) (hopen : (w.evaluate holds tz e ws).1.lastCond = false) :
    (w.evaluate holds tz e ws).2 = false ∧
      (ws.lastCond = false ∨ w.onDay tz e.now ∧ w.evalCond holds e.values (tz.minute e.now) = false) := by
  have hc : some (w.evaluate holds tz e ws).1.lastCond = (w.decide holds ws tz e).2 := evaluate_cond holds tz h
  rw [hopen, decide_edge holds tz h] at hc
  rw [evaluate_fired, decide_edge holds tz h]
  by_cases hoff : (w.once = true ∧ ws.lastFiredMs ≠ none) ∨ ¬ w.onDay tz e.now
  · rw [if_pos hoff] at hc ⊢
    exact ⟨rfl, .inl (Option.some.inj hc).symm⟩
  · rw [if_neg hoff] at hc ⊢
    have hfalse : w.evalCond holds e.values (tz.minute e.now) = false := (Option.some.inj hc).symm
    rw [hfalse]
    exact ⟨rfl, .inr ⟨by_contra fun hd => hoff (.inr hd), rfl⟩⟩

end Watch

/-! ## A flowlet -/

/-- Each watch of a flowlet has a row of its own. -/
theorem evaluate_apply {watches : List Watch} (hids : (watches.map (·.id)).Nodup) {w : Watch} (hw : w ∈ watches)
    (e : Evaluation V) (wsAll : String → WatchState) :
    evaluate holds tz watches e wsAll w.id = (w.evaluate holds tz e (wsAll w.id)).1 := by
  -- Over the watches from the left, `w`'s row is the old one up to `w` and stays after it.
  suffices h : ∀ (l : List Watch) (ws : String → WatchState), (l.map (·.id)).Nodup →
      (w ∈ l → l.foldl (fun ws w => fun id => if id = w.id then (w.evaluate holds tz e (wsAll w.id)).1 else ws id) ws w.id =
        (w.evaluate holds tz e (wsAll w.id)).1) ∧
      (w.id ∉ l.map (·.id) → l.foldl (fun ws w => fun id => if id = w.id then (w.evaluate holds tz e (wsAll w.id)).1 else ws id)
        ws w.id = ws w.id) from (h watches wsAll hids).1 hw
  intro l
  induction l with
  | nil => exact fun ws _ => ⟨fun h => absurd h List.not_mem_nil, fun _ => rfl⟩
  | cons v l ih =>
    intro ws hnodup
    obtain ⟨hv, hl⟩ := List.nodup_cons.1 hnodup
    refine ⟨fun hw => ?_, fun hw => ?_⟩
    · rw [List.foldl_cons]
      rcases List.mem_cons.1 hw with rfl | hw
      · rw [(ih _ hl).2 hv, if_pos rfl]
      · exact (ih _ hl).1 hw
    · obtain ⟨hne, hw⟩ := not_or.1 (fun h => hw (List.mem_cons.2 h))
      rw [List.foldl_cons, (ih _ hl).2 hw, if_neg hne]

/-! ## A run -/

variable {w : Watch} {e : Evaluation V} {tr : List (Evaluation V × Bool)}

theorem firings_cons (fired : Bool) : firings ((e, fired) :: tr) = if fired = true then e :: firings tr else firings tr := by
  cases fired <;> rfl

structure Known (w : Watch) (ws : WatchState) (tr : List (Evaluation V × Bool)) : Prop where
  last : ws.lastFiredMs = (firings tr).head?.map (·.now)
  edge : w.trigger.tracksEdge = true → ws.lastCond = false → ∀ between a before, tr = between ++ (a, true) :: before →
    firings between = [] → ∃ x ∈ between, w.onDay tz x.1.now ∧ w.evalCond holds x.1.values (tz.minute x.1.now) = false

theorem Known.init : Known holds tz w {} [] :=
  ⟨rfl, fun _ _ between _ _ h => absurd (congrArg List.length h) (by simp)⟩

/-- One evaluation keeps what the state knows. -/
theorem Known.step {ws : WatchState} (h : Known holds tz w ws tr) (e : Evaluation V) :
    Known holds tz w (w.evaluate holds tz e ws).1 ((e, (w.evaluate holds tz e ws).2) :: tr) := by
  refine ⟨?_, ?_⟩
  · rw [Watch.evaluate_last, firings_cons]
    split_ifs
    · rfl
    · exact h.last
  · intro ht hopen between a before htr hnone
    obtain ⟨hquiet, hwas⟩ := Watch.evaluate_open holds tz ht hopen
    rw [hquiet] at htr
    cases between with
    | nil => cases htr
    | cons x between =>
      obtain ⟨hx, htail⟩ := List.cons.inj htr
      subst hx
      rcases hwas with hwas | hfound
      · obtain ⟨y, hy, hyfound⟩ := h.edge ht hwas between a before htail hnone
        exact ⟨y, List.mem_cons_of_mem _ hy, hyfound⟩
      · exact ⟨_, List.mem_cons_self, hfound⟩

/-- The firings of a trace whose clock does not go back are none of them after the newest. -/
theorem le_last {f : Int → Int} (hclock : tr.Pairwise fun x y => f y.1.now ≤ f x.1.now) {last : Evaluation V}
    (hlast : (firings tr).head? = some last) : ∀ a ∈ firings tr, f a.now ≤ f last.now := by
  have hp : (firings tr).Pairwise fun x y => f y.now ≤ f x.now := by
    unfold firings
    rw [List.pairwise_map]
    exact hclock.filter _
  cases hf : firings tr with
  | nil => exact List.forall_mem_nil _
  | cons b l =>
    rw [hf] at hlast hp
    cases hlast
    intro a ha
    rcases List.mem_cons.1 ha with rfl | ha
    · exact Int.le_refl _
    · exact (List.pairwise_cons.1 hp).1 a ha

theorem Known.last_firing {ws : WatchState} (h : Known holds tz w ws tr) {a : Evaluation V} (ha : a ∈ firings tr) :
    ∃ last, (firings tr).head? = some last ∧ ws.lastFiredMs = some last.now := by
  have hk := h.last
  cases hf : firings tr with
  | nil =>
    rw [hf] at ha
    cases ha
  | cons b l =>
    rw [hf] at hk
    exact ⟨b, rfl, hk⟩

theorem head_firings_append {between before : List (Evaluation V × Bool)} {a : Evaluation V} (h : firings between = []) :
    (firings (between ++ (a, true) :: before)).head? = some a := by
  unfold firings at h ⊢
  rw [List.filter_append, List.map_append, h]
  rfl

/-- What a watch has seen when it fires justifies the firing, as its state knows the rest. -/
theorem Known.paced {ws : WatchState} (h : Known holds tz w ws tr) (hf : w.Fires tz ws e)
    (hclock : tr.Pairwise fun x y => y.1.now ≤ x.1.now) : Paced holds tz w e tr := by
  have hle : ∀ a ∈ firings tr, ∃ last, ws.lastFiredMs = some last ∧ a.now ≤ last := by
    intro a ha
    obtain ⟨last, hhead, hlast⟩ := h.last_firing holds tz ha
    exact ⟨_, hlast, le_last (f := id) hclock hhead a ha⟩
  constructor
  case once =>
    intro ho
    by_contra hne
    obtain ⟨a, ha⟩ := List.exists_mem_of_ne_nil _ hne
    obtain ⟨last, hlast, _⟩ := hle a ha
    rw [hf.once ho] at hlast
    cases hlast
  case timed =>
    intro ht hevery
    obtain ⟨startAt, hstart, htime, _⟩ := hf.dated ht hevery
    exact ⟨startAt, hstart, htime⟩
  case spaced =>
    intro ht every hevery a ha
    obtain ⟨last, hlast, hal⟩ := hle a ha
    have hgap := hf.spaced ht every hevery last hlast
    omega
  case cooled =>
    intro ht a ha
    obtain ⟨last, hlast, hal⟩ := hle a ha
    have hgap := hf.cooled ht last hlast
    omega
  case edge =>
    intro ht between a before htr hnone
    have hhead : (firings tr).head? = some a := by
      rw [htr]
      exact head_firings_append hnone
    have hlast : ws.lastFiredMs = some a.now := by rw [h.last, hhead]; rfl
    have harmed := hf.armed ht
    unfold Watch.armedCond at harmed
    split at harmed
    · next last after hl hafter =>
      obtain rfl := Option.some.inj (hlast.symm.trans hl)
      split_ifs at harmed with hlt
      · exact .inr ⟨by rw [hafter]; exact Option.some_ne_none _, hlt⟩
      · exact .inl (h.edge ht harmed between a before htr hnone)
    · exact .inl (h.edge ht harmed between a before htr hnone)
  case fresh =>
    intro ht
    obtain ⟨active, hact, hidle, hnew⟩ := hf.fresh ht
    refine ⟨active, hact, hidle, fun a ha => ?_⟩
    obtain ⟨last, hlast, hal⟩ := hle a ha
    have hlt := hnew last hlast
    omega

/-- The newest firing's date alone is kept: it tells of the others while dates do not go back. -/
theorem Known.dated {ws : WatchState} (h : Known holds tz w ws tr) (hf : w.Fires tz ws e) (ht : w.trigger = .schedule)
    (hevery : w.every = none) (hforward : tr.Pairwise fun x y => tz.date y.1.now ≤ tz.date x.1.now)
    (hupto : ∀ x ∈ tr, tz.date x.1.now ≤ tz.date e.now) : ∀ a ∈ firings tr, tz.date a.now ≠ tz.date e.now := by
  intro a ha hsame
  obtain ⟨_, _, _, hother⟩ := hf.dated ht hevery
  obtain ⟨last, hhead, hlast⟩ := h.last_firing holds tz ha
  -- The date of the newest firing lies between that of `a` and today's.
  have hge := le_last (f := tz.date) hforward hhead a ha
  have hmem : last ∈ firings tr := List.mem_of_mem_head? hhead
  obtain ⟨x, hx, hxe⟩ := List.mem_map.1 hmem
  have hup := hupto x (List.mem_filter.1 hx).1
  rw [hxe] at hup
  exact hother _ hlast (by omega)

/-! ## All runs -/

theorem run_append (watches : List Watch) (w : Watch) (es : List (Evaluation V)) (e : Evaluation V) :
    run holds tz watches w (es ++ [e]) =
      (evaluate holds tz watches e (run holds tz watches w es).1,
        (e, (w.evaluate holds tz e ((run holds tz watches w es).1 w.id)).2) :: (run holds tz watches w es).2) := by
  unfold run
  rw [List.foldl_append]
  rfl

theorem run_evaluations (watches : List Watch) (w : Watch) (es : List (Evaluation V)) :
    (run holds tz watches w es).2.map (·.1) = es.reverse := by
  induction es using List.reverseRecOn with
  | nil => rfl
  | append_singleton es e ih => rw [run_append, List.map_cons, ih, List.reverse_append]; rfl

theorem Forward.trace {f : Int → Int} {watches : List Watch} {w : Watch} {es : List (Evaluation V)} (h : Forward f es) :
    (run holds tz watches w es).2.Pairwise fun x y => f y.1.now ≤ f x.1.now := by
  have hr : (es.reverse).Pairwise fun x y => f y.now ≤ f x.now := List.pairwise_reverse.2 h
  rw [← run_evaluations holds tz watches w es, List.pairwise_map] at hr
  exact hr

/-- Every firing of a run is justified by what came before it: the pace always, the date
    where the local date does not go back. -/
theorem firings_justified {watches : List Watch} (hids : (watches.map (·.id)).Nodup) {w : Watch} (hw : w ∈ watches)
    {es : List (Evaluation V)} (hclock : Forward id es) :
    ∀ later e earlier, (run holds tz watches w es).2 = later ++ (e, true) :: earlier → Paced holds tz w e earlier ∧
      ((w.trigger = .schedule → w.every = none → Forward tz.date es) → Justified holds tz w e earlier) := by
  suffices h : Known holds tz w ((run holds tz watches w es).1 w.id) (run holds tz watches w es).2 ∧
      ∀ later e earlier, (run holds tz watches w es).2 = later ++ (e, true) :: earlier → Paced holds tz w e earlier ∧
        ((w.trigger = .schedule → w.every = none → Forward tz.date es) → Justified holds tz w e earlier) from h.2
  induction es using List.reverseRecOn with
  | nil => exact ⟨.init holds tz, fun later e earlier h => absurd (congrArg List.length h) (by simp [run])⟩
  | append_singleton es e ih =>
    obtain ⟨hes, _, hlast⟩ := List.pairwise_append.1 hclock
    obtain ⟨hknown, hjust⟩ := ih hes
    rw [run_append]
    refine ⟨?_, ?_⟩
    · show Known holds tz w (evaluate holds tz watches e _ w.id) _
      rw [evaluate_apply holds tz hids hw]
      exact hknown.step holds tz e
    · intro later e' earlier htr
      cases later with
      | cons x later =>
        obtain ⟨hpaced, hdated⟩ := hjust later e' earlier (List.cons.inj htr).2
        exact ⟨hpaced, fun hdates => hdated fun ht he => (List.pairwise_append.1 (hdates ht he)).1⟩
      | nil =>
        obtain ⟨hhead, rfl⟩ := List.cons.inj htr
        obtain ⟨rfl, hfired⟩ := Prod.mk.inj hhead
        rw [Watch.evaluate_fired] at hfired
        have hspec := Watch.decide_spec holds tz hfired
        have hpaced := hknown.paced holds tz hspec (Forward.trace holds tz hes)
        refine ⟨hpaced, fun hdates => ⟨hpaced, fun ht he => ?_⟩⟩
        obtain ⟨hpre, _, hupto⟩ := List.pairwise_append.1 (hdates ht he)
        refine hknown.dated holds tz hspec ht he (Forward.trace holds tz hpre) fun x hx => hupto x.1 ?_ _ (List.mem_singleton_self _)
        have hin : x.1 ∈ (run holds tz watches w es).2.map (·.1) := List.mem_map_of_mem hx
        rw [run_evaluations] at hin
        exact List.mem_reverse.1 hin

namespace Sample

def utc : Zone := ⟨fun _ => 0⟩

def daily : Watch := { id := "daily", trigger := .schedule, startAt := some 1200 }

/-- A schedule for 20:00, looked at every twelve hours. -/
def twoDays : List (Evaluation Unit) := [⟨0, (), none⟩, ⟨72000000, (), none⟩, ⟨115200000, (), none⟩]

theorem firings_justified_daily : Justified (fun _ _ => false) utc daily (⟨72000000, (), none⟩ : Evaluation Unit) [(⟨0, (), none⟩, false)] := by
  have hclock : Forward id twoDays := by unfold Forward; decide
  have hdates : Forward utc.date twoDays := by unfold Forward; decide
  exact (firings_justified _ _ (by decide) (List.mem_singleton_self daily) hclock [(⟨115200000, (), none⟩, false)] _ _
    (by decide)).2 fun _ _ => hdates

/-- St. John's in 2010: a minute after midnight the clocks go back by an hour. -/
def stJohns : Zone := ⟨fun t => if t < 1289097060000 then -9000000 else -12600000⟩

def midnight : Watch := { id := "midnight", trigger := .schedule, startAt := some 0 }

def fallBack : List (Evaluation Unit) := [⟨1289097000000, (), none⟩, ⟨1289097060000, (), none⟩, ⟨1289100600000, (), none⟩]

end Sample

/-- The schedule fires on the 7th, on the 6th, which is back, and on the 7th again. -/
theorem a_date_comes_back :
    ¬ ∀ (tz : Zone) (w : Watch) (es : List (Evaluation Unit)), Forward id es →
        ∀ later e earlier, (run (fun _ _ => false) tz [w] w es).2 = later ++ (e, true) :: earlier →
          Justified (fun _ _ => false) tz w e earlier := by
  intro h
  have hj := h Sample.stJohns Sample.midnight Sample.fallBack (by unfold Forward; decide) []
    ⟨1289100600000, (), none⟩ [(⟨1289097060000, (), none⟩, true), (⟨1289097000000, (), none⟩, true)] (by decide)
  exact hj.dated rfl rfl ⟨1289097000000, (), none⟩ (by decide) (by decide)

end Flowly.Flowlets
