/-
  Flowly.Flowlets.Refreshes — the refreshes of the data sources of flowlets
  (`flowly/flowlets/sources.py`: `SourceEngine`; `flowly/flowlets/store.py`:
  `get_source_state`, `set_source_state`).

  A refresh of a flowlet picks its due sources under a lock and then takes them up one
  after another: a model turn, the value written, the bookkeeping, a broadcast. The lock is
  let go before the first turn, and nothing says that a turn is under way. A run is a call
  of `refresh_flowlet`, or a pass of the heartbeat over all flowlets; it waits for a turn to
  end and for a broadcast to be sent, and does the rest without a break.

  The replies are values already (`_extract_json`, `_coerce_into`); what a failed turn raises
  is its text. The sources of a flowlet stay as they are.

  Proved (`refreshes_in_turn`): where no source is taken up while a turn of it is in flight,
  every source has one turn in flight at most, and its value and bookkeeping are those of
  its refreshes made one after another, in the order in which they started. Two taps on
  refresh break it (`two_taps`).
-/

import Mathlib.Algebra.Group.Int.Defs
import Mathlib.Data.List.Nodup
import Flowly.Lib.Reach
import Flowly.Lib.Text

namespace Flowly.Flowlets.Refreshes

open Flowly.Lib

/-! ## Sources -/

/-- What a definition says of a source, as far as the engine goes by it. -/
structure Spec where
  into : String
  refresh : String := "manual"
  deriving DecidableEq

structure Sources where
  specs : List (String × Spec) := []
  names : (specs.map (·.1)).Nodup := by decide
  targets : (specs.map (·.2.into)).Nodup := by decide

/-- A row of `flowlet_source_state`; an absent one has the defaults. -/
structure SourceState where
  lastOkMs : Option Int := none
  lastErrMs : Option Int := none
  failCount : Nat := 0
  lastError : Option String := none

/-- `set_source_state`: what is not given stays. -/
def SourceState.set (cur : SourceState) (lastOkMs lastErrMs : Option Int) (failCount : Option Nat) (lastError : Option String) :
    SourceState where
  lastOkMs := lastOkMs <|> cur.lastOkMs
  lastErrMs := lastErrMs <|> cur.lastErrMs
  failCount := failCount.getD cur.failCount
  lastError := lastError <|> cur.lastError

def parseRefreshMinutes (s : String) : Option Nat :=
  match (Text.rstrip s.toList).reverse with
  | 'm' :: number => Text.ofDecimals (Text.strip number.reverse)
  | 'h' :: number => (Text.ofDecimals (Text.strip number.reverse)).map (· * 60)
  | _ => none

/-- `SOURCE_DEFAULT_REFRESH_MIN`. -/
def defaultRefreshMin : Nat := 30

def backoffCapMs : Int := 6 * 3600 * 1000

def isDue (spec : Spec) (ss : SourceState) (now : Int) (onOpen : Bool) : Bool :=
  if spec.refresh = "manual" then onOpen && ss.lastOkMs.isNone
  else
    let minutes := ((parseRefreshMinutes spec.refresh).filter (· ≠ 0)).getD defaultRefreshMin
    let interval : Int := minutes * 60000
    if 0 < ss.failCount then min (interval * 2 ^ min ss.failCount 6) backoffCapMs ≤ now - ss.lastErrMs.getD 0
    else match ss.lastOkMs with
      | none => true
      | some last => interval ≤ now - last

/-! ## The engine -/

/-- How a turn ended: with a value, with an exception, or cancelled with its task. -/
inductive Outcome (V : Type) where
  | ok (written : V)
  | failed (error : String)
  | cancelled

/-- A refresh of a source: when it picked the source, and how its turn ended if it did. -/
structure Turn (V : Type) where
  id : Nat
  now : Int
  outcome : Option (Outcome V) := none

/-- A run that waits: for its turn to end, or for the broadcast after it. -/
structure Run where
  turn : Nat
  fid : String
  sid : String
  spec : Spec
  now : Int
  /-- The due sources after this one, and the flowlets of the pass after this one. -/
  rest : List (String × Spec)
  fids : List String
  broadcasting : Bool := false

structure World (V : Type) where
  /-- The row of a key of a flowlet. -/
  state : String → String → Option V := fun _ _ => none
  sourceState : String → String → SourceState := fun _ _ => {}
  runs : List Run := []
  nextTurn : Nat := 0
  /-- Ghost: the refreshes of each source, the newest first. -/
  turns : String → String → List (Turn V) := fun _ _ => []

/-- What a stretch finds outside: the clock at each flowlet, and what `resolve_values` raises
    before the turn of a source. -/
structure Env where
  clock : String → Int
  unready : String → String → Option String := fun _ _ => none

/-- `f[a][b] = v`. -/
def put {α : Type} (f : String → String → α) (a b : String) (v : α) : String → String → α :=
  Function.update f a (Function.update (f a) b v)

theorem put_apply {α : Type} (f : String → String → α) (a b : String) (v : α) (a' b' : String) :
    put f a b v a' b' = if a' = a ∧ b' = b then v else f a' b' := by
  unfold put
  by_cases ha : a' = a
  · subst ha
    by_cases hb : b' = b
    · subst hb
      simp
    · simp [hb]
  · simp [ha]

/-- The bookkeeping of a source that was refreshed. -/
def SourceState.ok (ss : SourceState) (now : Int) : SourceState := ss.set (some now) none (some 0) none

/-- The bookkeeping of a source that failed. -/
def SourceState.failed (ss : SourceState) (now : Int) (error : String) : SourceState :=
  ss.set none (some now) (some (ss.failCount + 1)) (some (String.ofList (error.toList.take 200)))

section Engine

variable {V : Type} (defs : String → Sources) (agent broadcast : Bool)

namespace World

def inFlight (w : World V) (fid sid : String) : List Run :=
  w.runs.filter fun r => r.fid = fid ∧ r.sid = sid ∧ !r.broadcasting

/-- A turn is over: the value, if it has one, and the bookkeeping. -/
def settle (w : World V) (fid sid into : String) (now : Int) (id : Nat) (o : Outcome V) : World V :=
  let turns := put w.turns fid sid ((w.turns fid sid).map fun t => if t.id = id then { t with outcome := some o } else t)
  match o with
  | .ok v =>
    { w with state := put w.state fid into (some v)
             sourceState := put w.sourceState fid sid ((w.sourceState fid sid).ok now)
             turns }
  | .failed e => { w with sourceState := put w.sourceState fid sid ((w.sourceState fid sid).failed now e), turns }
  | .cancelled => { w with turns }

/-- A refresh starts. -/
def start (w : World V) (fid sid : String) (now : Int) : World V :=
  { w with turns := put w.turns fid sid ({ id := w.nextTurn, now } :: w.turns fid sid), nextTurn := w.nextTurn + 1 }

end World

/-- The sources of a flowlet that a refresh picks. -/
def due (w : World V) (fid : String) (now : Int) (force onOpen : Bool) : List (String × Spec) :=
  (defs fid).specs.filter fun s => force || isDue s.2 (w.sourceState fid s.1) now onOpen

/-- What a run does up to its next await: the world, the sources it takes up, and the run
    that is in the turn of the last of them. -/
structure Stretch (V : Type) where
  world : World V
  taken : List (String × String) := []
  run : Option Run := none

/-- The loop over `due`: a source whose values do not resolve fails at once. -/
def takeUp (env : Env) (fid : String) (now : Int) (fids : List String) : List (String × Spec) → World V → Stretch V
  | [], w => { world := w }
  | (sid, spec) :: rest, w =>
    if !agent then takeUp env fid now fids rest w
    else match env.unready fid sid with
      | some e =>
        let next := takeUp env fid now fids rest ((w.start fid sid now).settle fid sid spec.into now w.nextTurn (.failed e))
        { next with taken := (fid, sid) :: next.taken }
      | none =>
        { world := w.start fid sid now, taken := [(fid, sid)]
          run := some { turn := w.nextTurn, fid, sid, spec, now, rest, fids } }

/-- `refresh_all` from a flowlet on. -/
def pass (env : Env) : List String → World V → Stretch V
  | [], w => { world := w }
  | fid :: fids, w =>
    let here := takeUp agent env fid (env.clock fid) fids (due defs w fid (env.clock fid) false false) w
    match here.run with
    | some _ => here
    | none =>
      let next := pass env fids here.world
      { next with taken := here.taken ++ next.taken }

/-- The due sources that are left, then the flowlets that are left. -/
def goOn (env : Env) (fid : String) (now : Int) (rest : List (String × Spec)) (fids : List String) (w : World V) : Stretch V :=
  let here := takeUp agent env fid now fids rest w
  match here.run with
  | some _ => here
  | none =>
    let next := pass defs agent env fids here.world
    { next with taken := here.taken ++ next.taken }

inductive Event (V : Type) where
  /-- A pass of the heartbeat. -/
  | refreshAll (fids : List String) (env : Env)
  | refreshFlowlet (fid : String) (force : Bool) (env : Env)
  /-- The turn of a run has ended. `raises`: the values to broadcast do not resolve. -/
  | reply (turn : Nat) (outcome : Outcome V) (raises : Bool) (env : Env)
  /-- The broadcast of a run is over. -/
  | sent (turn : Nat) (env : Env)
  /-- The task of a run that broadcasts is cancelled. -/
  | stopped (turn : Nat)

def World.drop (w : World V) (turn : Nat) : World V := { w with runs := w.runs.filter (·.turn ≠ turn) }

def replied (w : World V) (r : Run) (o : Outcome V) (raises : Bool) (env : Env) : Stretch V :=
  let w := (w.drop r.turn).settle r.fid r.sid r.spec.into r.now r.turn o
  match o with
  | .cancelled => { world := w }
  | .failed _ => goOn defs agent env r.fid r.now r.rest r.fids w
  | .ok _ =>
    if !broadcast then goOn defs agent env r.fid r.now r.rest r.fids w
    else if raises then pass defs agent env r.fids w
    else { world := { w with runs := { r with broadcasting := true } :: w.runs } }

def stretch (w : World V) : Event V → Stretch V
  | .refreshAll fids env => pass defs agent env fids w
  | .refreshFlowlet fid force env =>
    goOn defs agent env fid (env.clock fid) (due defs w fid (env.clock fid) force (!force)) [] w
  | .reply turn o raises env =>
    match w.runs.find? fun r => r.turn = turn ∧ !r.broadcasting with
    | some r => replied defs agent broadcast w r o raises env
    | none => { world := w }
  | .sent turn env =>
    match w.runs.find? fun r => r.turn = turn ∧ r.broadcasting with
    | some r => goOn defs agent env r.fid r.now r.rest r.fids (w.drop turn)
    | none => { world := w }
  | .stopped turn =>
    match w.runs.find? fun r => r.turn = turn ∧ r.broadcasting with
    | some _ => { world := w.drop turn }
    | none => { world := w }

def Stretch.next (s : Stretch V) : World V := { s.world with runs := s.run.toList ++ s.world.runs }

def step (w : World V) (e : Event V) : World V := (stretch defs agent broadcast w e).next

/-- No source is taken up while a turn of it is in flight. -/
def Clear (w : World V) (e : Event V) : Prop :=
  let s := stretch defs agent broadcast w e
  ∀ p ∈ s.taken, s.world.inFlight p.1 p.2 = []

instance (w : World V) (e : Event V) : Decidable (Clear defs agent broadcast w e) := List.decidableBAll ..

/-! ## One refresh after another -/

structure Record (V : Type) where
  value : Option V
  state : SourceState

def Turn.apply (t : Turn V) (rec : Record V) : Record V :=
  match t.outcome with
  | some (.ok v) => ⟨some v, rec.state.ok t.now⟩
  | some (.failed e) => ⟨rec.value, rec.state.failed t.now e⟩
  | some .cancelled | none => rec

def replay (rec : Record V) (turns : List (Turn V)) : Record V := turns.foldr Turn.apply rec

def World.record (w : World V) (fid : String) (s : String × Spec) : Record V := ⟨w.state fid s.2.into, w.sourceState fid s.1⟩

/-- Every source is as its refreshes in turn, from how it was in `base`, have made it. -/
def World.Serial (w base : World V) : Prop :=
  ∀ fid, ∀ s ∈ (defs fid).specs, w.record fid s = replay (base.record fid s) (w.turns fid s.1)

theorem Sources.eq_of_name {d : Sources} {s s' : String × Spec} (hs : s ∈ d.specs) (hs' : s' ∈ d.specs) (h : s.1 = s'.1) : s = s' :=
  List.inj_on_of_nodup_map d.names hs hs' h

theorem Sources.eq_of_target {d : Sources} {s s' : String × Spec} (hs : s ∈ d.specs) (hs' : s' ∈ d.specs)
    (h : s.2.into = s'.2.into) : s = s' :=
  List.inj_on_of_nodup_map d.targets hs hs' h

end Engine

/-! ### Starts and ends -/

section Ends

variable {V : Type} {defs : String → Sources} {base w : World V} {fid sid : String} {spec : Spec} {now : Int} {id : Nat}

theorem start_turns (w : World V) (fid sid : String) (now : Int) (fid' sid' : String) :
    (w.start fid sid now).turns fid' sid' =
      if fid' = fid ∧ sid' = sid then { id := w.nextTurn, now } :: w.turns fid sid else w.turns fid' sid' :=
  put_apply ..

/-- The turn of that number has ended. -/
def ended (id : Nat) (o : Outcome V) (turns : List (Turn V)) : List (Turn V) :=
  turns.map fun t => if t.id = id then { t with outcome := some o } else t

theorem ended_ids (id : Nat) (o : Outcome V) (turns : List (Turn V)) : (ended id o turns).map (·.id) = turns.map (·.id) := by
  unfold ended
  rw [List.map_map]
  refine List.map_congr_left fun t _ => ?_
  show (if t.id = id then { t with outcome := some o } else t).id = t.id
  split <;> rfl

theorem settle_turns (w : World V) (fid sid into : String) (now : Int) (id : Nat) (o : Outcome V) (fid' sid' : String) :
    (w.settle fid sid into now id o).turns fid' sid' =
      if fid' = fid ∧ sid' = sid then ended id o (w.turns fid sid) else w.turns fid' sid' := by
  unfold World.settle
  cases o <;> exact put_apply ..

@[simp] theorem settle_runs (w : World V) (fid sid into : String) (now : Int) (id : Nat) (o : Outcome V) :
    (w.settle fid sid into now id o).runs = w.runs := by
  unfold World.settle
  cases o <;> rfl

@[simp] theorem settle_nextTurn (w : World V) (fid sid into : String) (now : Int) (id : Nat) (o : Outcome V) :
    (w.settle fid sid into now id o).nextTurn = w.nextTurn := by
  unfold World.settle
  cases o <;> rfl

/-- A refresh that has not ended has done nothing. -/
theorem World.Serial.start (h : w.Serial defs base) : (w.start fid sid now).Serial defs base := by
  intro fid' s hs
  have hold := h fid' s hs
  rw [start_turns]
  split_ifs with he
  · obtain ⟨rfl, hsid⟩ := he
    rw [hsid] at hold
    exact hold
  · exact hold

/-- The end of the newest refresh of a source. -/
theorem World.Serial.settle (h : w.Serial defs base) (hs : (sid, spec) ∈ (defs fid).specs) {older : List (Turn V)}
    (hnewest : w.turns fid sid = { id, now } :: older) (hids : ∀ t ∈ older, t.id ≠ id) (o : Outcome V) :
    (w.settle fid sid spec.into now id o).Serial defs base := by
  intro fid' s' hs'
  have hold := h fid' s' hs'
  rw [settle_turns]
  by_cases hsame : fid' = fid ∧ s'.1 = sid
  · obtain ⟨rfl, hsid⟩ := hsame
    obtain rfl : s' = (sid, spec) := Sources.eq_of_name hs' hs hsid
    have holder : ended id o older = older := by
      unfold ended
      conv_rhs => rw [← List.map_id older]
      refine List.map_congr_left fun t ht => ?_
      rw [if_neg (hids t ht), id_eq]
    have hended : ended id o (w.turns fid' sid) = { id, now, outcome := some o } :: older := by
      rw [hnewest]
      show (if id = id then _ else _) :: ended id o older = _
      rw [if_pos rfl, holder]
    rw [if_pos ⟨rfl, rfl⟩, hended]
    have hbefore : w.record fid' (sid, spec) = replay (base.record fid' (sid, spec)) older := by
      rw [hnewest] at hold
      exact hold
    show _ = Turn.apply _ (replay (base.record fid' (sid, spec)) older)
    rw [← hbefore]
    cases o <;> simp [World.settle, World.record, Turn.apply, put_apply]
  · rw [if_neg hsame, ← hold]
    cases o with
    | ok v =>
      have hinto : ¬ (fid' = fid ∧ s'.2.into = spec.into) := by
        rintro ⟨rfl, hi⟩
        exact hsame ⟨rfl, by rw [Sources.eq_of_target hs' hs hi]⟩
      simp only [World.settle, World.record, put_apply, if_neg hinto, if_neg hsame]
    | failed e => simp only [World.settle, World.record, put_apply, if_neg hsame]
    | cancelled => rfl

end Ends

/-! ## What holds in every run -/

section Inv

variable {V : Type} {defs : String → Sources} {agent broadcast : Bool} {base w : World V}

/-- What holds of the runs and of the refreshes. -/
structure World.Inv (defs : String → Sources) (w base : World V) : Prop where
  ids : ∀ fid sid, ((w.turns fid sid).map (·.id)).Nodup
  id_lt : ∀ fid sid, ∀ t ∈ w.turns fid sid, t.id < w.nextTurn
  turns : (w.runs.map (·.turn)).Nodup
  turn_lt : ∀ r ∈ w.runs, r.turn < w.nextTurn
  source : ∀ r ∈ w.runs, (r.sid, r.spec) ∈ (defs r.fid).specs
  rest : ∀ r ∈ w.runs, ∀ s ∈ r.rest, s ∈ (defs r.fid).specs
  newest : ∀ r ∈ w.runs, r.broadcasting = false → ∃ older, w.turns r.fid r.sid = { id := r.turn, now := r.now } :: older
  serial : w.Serial defs base

namespace World.Inv

theorem not_inFlight {fid sid : String} (hclear : w.inFlight fid sid = []) {r : Run} (hr : r ∈ w.runs) (hb : r.broadcasting = false) :
    ¬ (r.fid = fid ∧ r.sid = sid) := by
  intro ⟨hf, hs⟩
  refine List.eq_nil_iff_forall_not_mem.1 hclear r (List.mem_filter.2 ⟨hr, ?_⟩)
  simp [hf, hs, hb]

/-- A source has one refresh in flight at most. -/
theorem single (h : w.Inv defs base) {r r' : Run} (hr : r ∈ w.runs) (hr' : r' ∈ w.runs) (hb : r.broadcasting = false)
    (hb' : r'.broadcasting = false) (hf : r.fid = r'.fid) (hs : r.sid = r'.sid) : r = r' := by
  obtain ⟨older, hn⟩ := h.newest r hr hb
  obtain ⟨older', hn'⟩ := h.newest r' hr' hb'
  rw [hf, hs, hn'] at hn
  have hturn : r'.turn = r.turn := congrArg Turn.id (List.cons.inj hn).1
  exact List.inj_on_of_nodup_map h.turns hr hr' hturn.symm

theorem inFlight_le_one (h : w.Inv defs base) (fid sid : String) : (w.inFlight fid sid).length ≤ 1 := by
  rcases hl : w.inFlight fid sid with _ | ⟨r, _ | ⟨r', rs⟩⟩
  · exact Nat.zero_le _
  · exact Nat.le_refl _
  · have hmem (x : Run) (hx : x ∈ w.inFlight fid sid) : x ∈ w.runs ∧ x.fid = fid ∧ x.sid = sid ∧ x.broadcasting = false := by
      simpa [World.inFlight] using hx
    obtain ⟨hr, hf, hs, hb⟩ := hmem r (by rw [hl]; exact List.mem_cons_self)
    obtain ⟨hr', hf', hs', hb'⟩ := hmem r' (by rw [hl]; exact List.mem_cons_of_mem _ List.mem_cons_self)
    have heq : r = r' := h.single hr hr' hb hb' (hf.trans hf'.symm) (hs.trans hs'.symm)
    have hnodup : (w.inFlight fid sid).Nodup := h.turns.of_map.filter _
    rw [hl, heq] at hnodup
    exact absurd List.mem_cons_self (List.nodup_cons.1 hnodup).1

/-- A refresh starts of a source of which none is in flight. -/
theorem start (h : w.Inv defs base) {fid sid : String} (hclear : w.inFlight fid sid = []) (now : Int) :
    (w.start fid sid now).Inv defs base where
  ids fid' sid' := by
    rw [start_turns]
    split_ifs with he
    · refine List.nodup_cons.2 ⟨fun hin => ?_, h.ids fid sid⟩
      obtain ⟨t, ht, hid⟩ := List.mem_map.1 hin
      have hlt := h.id_lt fid sid t ht
      have hid' : t.id = w.nextTurn := hid
      omega
    · exact h.ids fid' sid'
  id_lt fid' sid' t ht := by
    show t.id < w.nextTurn + 1
    rw [start_turns] at ht
    split_ifs at ht
    · rcases List.mem_cons.1 ht with rfl | ht
      · exact Nat.lt_succ_self _
      · exact Nat.lt_succ_of_lt (h.id_lt _ _ t ht)
    · exact Nat.lt_succ_of_lt (h.id_lt _ _ t ht)
  turns := h.turns
  turn_lt r hr := Nat.lt_succ_of_lt (h.turn_lt r hr)
  source := h.source
  rest := h.rest
  newest r hr hb := by
    rw [start_turns, if_neg (not_inFlight hclear hr hb)]
    exact h.newest r hr hb
  serial := h.serial.start

/-- The newest refresh of a source ends. -/
theorem settle (h : w.Inv defs base) {fid sid : String} {spec : Spec} {id : Nat} {now : Int} {older : List (Turn V)}
    (hclear : w.inFlight fid sid = []) (hs : (sid, spec) ∈ (defs fid).specs)
    (hnewest : w.turns fid sid = { id, now } :: older) (o : Outcome V) : (w.settle fid sid spec.into now id o).Inv defs base where
  ids fid' sid' := by
    rw [settle_turns]
    split_ifs
    · rw [ended_ids]
      exact h.ids fid sid
    · exact h.ids fid' sid'
  id_lt fid' sid' t ht := by
    rw [settle_nextTurn]
    rw [settle_turns] at ht
    split_ifs at ht
    · have hin : t.id ∈ (w.turns fid sid).map (·.id) := by
        rw [← ended_ids id o]
        exact List.mem_map_of_mem ht
      obtain ⟨t', ht', hid⟩ := List.mem_map.1 hin
      have hlt := h.id_lt fid sid t' ht'
      rwa [hid] at hlt
    · exact h.id_lt _ _ t ht
  turns := by rw [settle_runs]; exact h.turns
  turn_lt := by rw [settle_runs, settle_nextTurn]; exact h.turn_lt
  source := by rw [settle_runs]; exact h.source
  rest := by rw [settle_runs]; exact h.rest
  newest r hr hb := by
    rw [settle_runs] at hr
    rw [settle_turns, if_neg (not_inFlight hclear hr hb)]
    exact h.newest r hr hb
  serial := by
    refine h.serial.settle hs hnewest (fun t ht hid => ?_) o
    have hnodup := h.ids fid sid
    rw [hnewest, List.map_cons] at hnodup
    exact (List.nodup_cons.1 hnodup).1 (List.mem_map.2 ⟨t, ht, hid⟩)

theorem drop (h : w.Inv defs base) (turn : Nat) : (w.drop turn).Inv defs base where
  ids := h.ids
  id_lt := h.id_lt
  turns := h.turns.sublist (List.filter_sublist.map _)
  turn_lt r hr := h.turn_lt r (List.mem_of_mem_filter hr)
  source r hr := h.source r (List.mem_of_mem_filter hr)
  rest r hr := h.rest r (List.mem_of_mem_filter hr)
  newest r hr := h.newest r (List.mem_of_mem_filter hr)
  serial := h.serial

/-- The run that was in the turn of a source was the only one. -/
theorem drop_clear (h : w.Inv defs base) {r : Run} (hr : r ∈ w.runs) (hb : r.broadcasting = false) :
    (w.drop r.turn).inFlight r.fid r.sid = [] := by
  refine List.eq_nil_iff_forall_not_mem.2 fun r' hr' => ?_
  obtain ⟨hr', hflight⟩ := List.mem_filter.1 hr'
  obtain ⟨hr', hturn⟩ := List.mem_filter.1 hr'
  obtain ⟨hf, hs, hb'⟩ : r'.fid = r.fid ∧ r'.sid = r.sid ∧ r'.broadcasting = false := by simpa using hflight
  rw [h.single hr' hr hb' hb hf hs] at hturn
  simp at hturn

end World.Inv

/-! ### A stretch -/

theorem takeUp_runs (env : Env) (fid : String) (now : Int) (fids : List String) : ∀ (rest : List (String × Spec)) (w : World V),
    (takeUp agent env fid now fids rest w).world.runs = w.runs := by
  intro rest
  induction rest with
  | nil => exact fun _ => rfl
  | cons s rest ih =>
    intro w
    unfold takeUp
    split_ifs
    · exact ih w
    · split
      · dsimp only
        rw [ih, settle_runs]
        rfl
      · rfl

theorem pass_runs (env : Env) : ∀ (fids : List String) (w : World V), (pass defs agent env fids w).world.runs = w.runs := by
  intro fids
  induction fids with
  | nil => exact fun _ => rfl
  | cons fid fids ih =>
    intro w
    unfold pass
    dsimp only
    split
    · exact takeUp_runs ..
    · dsimp only
      rw [ih]
      exact takeUp_runs ..

theorem goOn_runs (env : Env) (fid : String) (now : Int) (rest : List (String × Spec)) (fids : List String) (w : World V) :
    (goOn defs agent env fid now rest fids w).world.runs = w.runs := by
  unfold goOn
  dsimp only
  split
  · exact takeUp_runs ..
  · dsimp only
    rw [pass_runs]
    exact takeUp_runs ..

def Opens (w : World V) (taken : List (String × String)) : Prop := ∀ p ∈ taken, w.inFlight p.1 p.2 = []

theorem Opens.of_runs {w' : World V} {taken : List (String × String)} (h : Opens w taken) (hr : w'.runs = w.runs) : Opens w' taken := by
  intro p hp
  unfold World.inFlight
  rw [hr]
  exact h p hp

/-- What a stretch makes of the world it starts in. -/
structure Good (defs : String → Sources) (base w : World V) (s : Stretch V) : Prop where
  inv : s.world.Inv defs base
  le : w.nextTurn ≤ s.world.nextTurn
  turn : ∀ r ∈ s.run, w.nextTurn ≤ r.turn ∧ r.turn < s.world.nextTurn
  source : ∀ r ∈ s.run, (r.sid, r.spec) ∈ (defs r.fid).specs
  rest : ∀ r ∈ s.run, ∀ x ∈ r.rest, x ∈ (defs r.fid).specs
  newest : ∀ r ∈ s.run, ∃ older, s.world.turns r.fid r.sid = { id := r.turn, now := r.now } :: older

namespace Good

/-- Nothing is taken up. -/
theorem still (h : w.Inv defs base) : Good defs base w { world := w } :=
  ⟨h, Nat.le_refl _, nofun, nofun, nofun, nofun⟩

/-- A stretch goes on where another has ended without a turn. -/
theorem trans {s s' : Stretch V} (hle : w.nextTurn ≤ s.world.nextTurn) (h' : Good defs base s.world s')
    (taken : List (String × String)) : Good defs base w { s' with taken } :=
  { h' with
    le := hle.trans h'.le
    turn := fun r hr => ⟨hle.trans (h'.turn r hr).1, (h'.turn r hr).2⟩ }

/-- The run joins those that wait. -/
theorem next {s : Stretch V} (h : Good defs base w s) (hw : ∀ r ∈ s.world.runs, r.turn < w.nextTurn) : s.next.Inv defs base := by
  unfold Stretch.next
  cases hr : s.run with
  | none => exact h.inv
  | some r =>
    have hmem : r ∈ s.run := hr
    exact {
      ids := h.inv.ids
      id_lt := h.inv.id_lt
      turns := by
        refine List.nodup_cons.2 ⟨fun hin => ?_, h.inv.turns⟩
        obtain ⟨r', hr', hturn⟩ := List.mem_map.1 hin
        have hlt := hw r' hr'
        have hle := (h.turn r hmem).1
        have hturn' : r'.turn = r.turn := hturn
        omega
      turn_lt := List.forall_mem_cons.2 ⟨(h.turn r hmem).2, h.inv.turn_lt⟩
      source := List.forall_mem_cons.2 ⟨h.source r hmem, h.inv.source⟩
      rest := List.forall_mem_cons.2 ⟨h.rest r hmem, h.inv.rest⟩
      newest := List.forall_mem_cons.2 ⟨fun _ => h.newest r hmem, h.inv.newest⟩
      serial := h.inv.serial }

end Good

/-- The loop over the due sources. -/
theorem takeUp_good (env : Env) (fid : String) (now : Int) (fids : List String) : ∀ (rest : List (String × Spec)) {w : World V},
    w.Inv defs base → (∀ s ∈ rest, s ∈ (defs fid).specs) → Opens w (takeUp agent env fid now fids rest w).taken →
    Good defs base w (takeUp agent env fid now fids rest w) := by
  intro rest
  induction rest with
  | nil => exact fun h _ _ => .still h
  | cons s rest ih =>
    intro w h hrest ho
    obtain ⟨sid, spec⟩ := s
    obtain ⟨hs, hrest⟩ := List.forall_mem_cons.1 hrest
    unfold takeUp at ho ⊢
    split_ifs at ho ⊢ with hagent
    · exact ih h hrest ho
    · cases hunready : env.unready fid sid with
      | some e =>
        rw [hunready] at ho
        obtain ⟨hclear, ho⟩ := List.forall_mem_cons.1 ho
        have hnewest : (w.start fid sid now).turns fid sid = { id := w.nextTurn, now } :: w.turns fid sid := by
          rw [start_turns, if_pos ⟨rfl, rfl⟩]
        have hfailed := (h.start hclear now).settle hclear hs hnewest (.failed e)
        refine Good.trans (s := { world := (w.start fid sid now).settle fid sid spec.into now w.nextTurn (.failed e) })
          (by rw [settle_nextTurn]; exact Nat.le_succ _) (ih hfailed hrest ?_) _
        exact Opens.of_runs ho (settle_runs ..)
      | none =>
        rw [hunready] at ho
        have hclear : w.inFlight fid sid = [] := ho (fid, sid) List.mem_cons_self
        refine ⟨h.start hclear now, Nat.le_succ _, ?_, ?_, ?_, ?_⟩
        all_goals rintro r ⟨⟩
        · exact ⟨Nat.le_refl _, Nat.lt_succ_self _⟩
        · exact hs
        · exact hrest
        · refine ⟨w.turns fid sid, ?_⟩
          rw [start_turns, if_pos ⟨rfl, rfl⟩]

theorem due_declared {fid : String} {now : Int} {force onOpen : Bool} : ∀ s ∈ due defs w fid now force onOpen, s ∈ (defs fid).specs :=
  fun _ => List.mem_of_mem_filter

/-- A pass over flowlets. -/
theorem pass_good (env : Env) : ∀ (fids : List String) {w : World V}, w.Inv defs base →
    Opens w (pass defs agent env fids w).taken → Good defs base w (pass defs agent env fids w) := by
  intro fids
  induction fids with
  | nil => exact fun h _ => .still h
  | cons fid fids ih =>
    intro w h ho
    have hruns := @takeUp_runs V agent env fid (env.clock fid) fids (due defs w fid (env.clock fid) false false) w
    have hhere := @takeUp_good V defs agent base env fid (env.clock fid) fids (due defs w fid (env.clock fid) false false) w h due_declared
    unfold pass at ho ⊢
    dsimp only at ho ⊢
    generalize takeUp agent env fid (env.clock fid) fids (due defs w fid (env.clock fid) false false) w = here at ho hruns hhere ⊢
    cases hrun : here.run with
    | some r =>
      rw [hrun] at ho
      exact hhere ho
    | none =>
      rw [hrun] at ho
      obtain ⟨hfirst, hlast⟩ := List.forall_mem_append.1 ho
      have hgood := hhere hfirst
      exact .trans hgood.le (ih hgood.inv (Opens.of_runs hlast hruns)) _

/-- A run goes on. -/
theorem goOn_good (env : Env) {fid : String} (now : Int) {rest : List (String × Spec)} (fids : List String) (h : w.Inv defs base)
    (hrest : ∀ s ∈ rest, s ∈ (defs fid).specs) (ho : Opens w (goOn defs agent env fid now rest fids w).taken) :
    Good defs base w (goOn defs agent env fid now rest fids w) := by
  have hruns := @takeUp_runs V agent env fid now fids rest w
  have hhere := @takeUp_good V defs agent base env fid now fids rest w h hrest
  unfold goOn at ho ⊢
  dsimp only at ho ⊢
  generalize takeUp agent env fid now fids rest w = here at ho hruns hhere ⊢
  cases hrun : here.run with
  | some r =>
    rw [hrun] at ho
    exact hhere ho
  | none =>
    rw [hrun] at ho
    obtain ⟨hfirst, hlast⟩ := List.forall_mem_append.1 ho
    have hgood := hhere hfirst
    exact .trans hgood.le (pass_good env fids hgood.inv (Opens.of_runs hlast hruns)) _

theorem goOn_next (env : Env) {fid : String} (now : Int) {rest : List (String × Spec)} (fids : List String) (h : w.Inv defs base)
    (hrest : ∀ s ∈ rest, s ∈ (defs fid).specs) (ho : Opens w (goOn defs agent env fid now rest fids w).taken) :
    (goOn defs agent env fid now rest fids w).next.Inv defs base := by
  refine (goOn_good env now fids h hrest ho).next ?_
  rw [goOn_runs]
  exact h.turn_lt

theorem pass_next (env : Env) (fids : List String) (h : w.Inv defs base) (ho : Opens w (pass defs agent env fids w).taken) :
    (pass defs agent env fids w).next.Inv defs base := by
  refine (pass_good env fids h ho).next ?_
  rw [pass_runs]
  exact h.turn_lt

/-- The run broadcasts what its turn has brought. -/
theorem World.Inv.broadcasting (h : w.Inv defs base) {r : Run} (hfresh : ∀ r' ∈ w.runs, r'.turn ≠ r.turn) (hlt : r.turn < w.nextTurn)
    (hs : (r.sid, r.spec) ∈ (defs r.fid).specs) (hrest : ∀ s ∈ r.rest, s ∈ (defs r.fid).specs) :
    World.Inv defs { w with runs := { r with broadcasting := true } :: w.runs } base where
  ids := h.ids
  id_lt := h.id_lt
  turns := by
    refine List.nodup_cons.2 ⟨fun hin => ?_, h.turns⟩
    obtain ⟨r', hr', hturn⟩ := List.mem_map.1 hin
    exact hfresh r' hr' hturn
  turn_lt := List.forall_mem_cons.2 ⟨hlt, h.turn_lt⟩
  source := List.forall_mem_cons.2 ⟨hs, h.source⟩
  rest := List.forall_mem_cons.2 ⟨hrest, h.rest⟩
  newest := List.forall_mem_cons.2 ⟨fun hb => absurd hb (by simp), h.newest⟩
  serial := h.serial

/-- The turn of a run has ended. -/
theorem replied_next (h : w.Inv defs base) {r : Run} (hr : r ∈ w.runs) (hb : r.broadcasting = false) (o : Outcome V) (raises : Bool)
    (env : Env) (hc : Opens (replied defs agent broadcast w r o raises env).world (replied defs agent broadcast w r o raises env).taken) :
    (replied defs agent broadcast w r o raises env).next.Inv defs base := by
  have hclear := h.drop_clear hr hb
  have hs := h.source r hr
  have hrest := h.rest r hr
  obtain ⟨older, hnewest⟩ := h.newest r hr hb
  have hold : ((w.drop r.turn).settle r.fid r.sid r.spec.into r.now r.turn o).Inv defs base :=
    (h.drop r.turn).settle hclear hs hnewest o
  unfold replied at hc ⊢
  dsimp only at hc ⊢
  cases o with
  | cancelled => exact (Good.still hold).next hold.turn_lt
  | failed e => exact goOn_next env r.now r.fids hold hrest (hc.of_runs (goOn_runs ..).symm)
  | ok v =>
    dsimp only at hc ⊢
    split_ifs at hc ⊢
    · exact goOn_next env r.now r.fids hold hrest (hc.of_runs (goOn_runs ..).symm)
    · exact pass_next env r.fids hold (hc.of_runs (pass_runs ..).symm)
    · refine hold.broadcasting (fun r' hr' => ?_) ?_ hs hrest
      · rw [settle_runs] at hr'
        simpa using (List.mem_filter.1 hr').2
      · rw [settle_nextTurn]
        exact h.turn_lt r hr

/-- A step keeps the invariant where no source is taken up while a turn of it is in flight. -/
theorem step_inv (h : w.Inv defs base) (e : Event V) (hc : Clear defs agent broadcast w e) :
    (step defs agent broadcast w e).Inv defs base := by
  have hstill : ({ world := w } : Stretch V).next.Inv defs base := (Good.still h).next h.turn_lt
  unfold step
  change Opens (stretch defs agent broadcast w e).world (stretch defs agent broadcast w e).taken at hc
  cases e with
  | refreshAll fids env => exact pass_next env fids h (hc.of_runs (pass_runs ..).symm)
  | refreshFlowlet fid force env => exact goOn_next env _ [] h due_declared (hc.of_runs (goOn_runs ..).symm)
  | reply turn o raises env =>
    unfold stretch at hc ⊢
    dsimp only at hc ⊢
    cases hfind : w.runs.find? fun r => r.turn = turn ∧ !r.broadcasting with
    | none => exact hstill
    | some r =>
      rw [hfind] at hc
      have hb : r.turn = turn ∧ r.broadcasting = false := by simpa using List.find?_some hfind
      exact replied_next h (List.mem_of_find?_eq_some hfind) hb.2 o raises env hc
  | sent turn env =>
    unfold stretch at hc ⊢
    dsimp only at hc ⊢
    cases hfind : w.runs.find? fun r => r.turn = turn ∧ r.broadcasting with
    | none => exact hstill
    | some r =>
      rw [hfind] at hc
      exact goOn_next env r.now r.fids (h.drop turn) (h.rest r (List.mem_of_find?_eq_some hfind)) (hc.of_runs (goOn_runs ..).symm)
  | stopped turn =>
    unfold stretch
    dsimp only
    split
    · exact (Good.still (h.drop turn)).next (h.drop turn).turn_lt
    · exact hstill

end Inv

/-! ## Every run -/

section Runs

variable {V : Type} (defs : String → Sources) (agent broadcast : Bool)

/-- Nothing is under way. -/
structure World.Quiet (w : World V) : Prop where
  runs : w.runs = []
  turns : ∀ fid sid, w.turns fid sid = []

theorem World.Quiet.inv {base : World V} (h : base.Quiet) : base.Inv defs base where
  ids fid sid := by rw [h.turns]; exact List.nodup_nil
  id_lt fid sid := by rw [h.turns]; exact List.forall_mem_nil _
  turns := by rw [h.runs]; exact List.nodup_nil
  turn_lt := by rw [h.runs]; exact List.forall_mem_nil _
  source := by rw [h.runs]; exact List.forall_mem_nil _
  rest := by rw [h.runs]; exact List.forall_mem_nil _
  newest := by rw [h.runs]; exact List.forall_mem_nil _
  serial fid s hs := by rw [h.turns]; rfl

/-- Where no source is taken up while a turn of it is in flight, every source has one turn in flight at most and is as
    its refreshes, one after another in the order in which they started, have made it. -/
theorem refreshes_in_turn {base : World V} (hbase : base.Quiet) {w : World V}
    (h : Reach (step defs agent broadcast) (fun w e => Clear defs agent broadcast w e) base w) :
    (∀ fid sid, (w.inFlight fid sid).length ≤ 1) ∧ w.Serial defs base := by
  have hinv : w.Inv defs base := h.invariant (P := fun w => w.Inv defs base) (hbase.inv defs) fun _ e hi hc => step_inv hi e hc
  exact ⟨hinv.inFlight_le_one, hinv.serial⟩

end Runs

namespace Sample

def prices : Sources where
  specs := [("prices", { into := "rows" })]

def noon : Env where
  clock _ := 43200000

/-- Two taps on refresh; the second reply comes first. -/
def taps : List (Event Nat) := [.refreshFlowlet "stocks" true noon, .refreshFlowlet "stocks" true noon]

def replies : List (Event Nat) := [.reply 1 (.ok 102) false noon, .reply 0 (.ok 101) false noon]

/-- A second tap once the first refresh is over; its turn fails. -/
def inTurn : List (Event Nat) :=
  [.refreshFlowlet "stocks" true noon, .reply 0 (.ok 101) false noon, .refreshFlowlet "stocks" true noon,
    .reply 1 (.failed "no reply") false noon]

theorem quiet : ({} : World Nat).Quiet := ⟨rfl, fun _ _ => rfl⟩

theorem in_turn_allowed : Reach.Allowed (step (fun _ => prices) true false) (fun w e => Clear (fun _ => prices) true false w e)
    ({} : World Nat) inTurn := by decide

theorem refreshes_in_turn_twice : (∀ fid sid, ((inTurn.foldl (step (fun _ => prices) true false) {}).inFlight fid sid).length ≤ 1) ∧
    (inTurn.foldl (step (fun _ => prices) true false) {}).Serial (fun _ => prices) {} :=
  refreshes_in_turn _ _ _ quiet (Reach.foldl inTurn _ .start in_turn_allowed)

/-- Both taps have a turn in flight, and at the end the source has what the first has brought. -/
theorem two_taps :
    (∃ w : World Nat, Reach (step (fun _ => prices) true false) (fun _ _ => True) {} w ∧ (w.inFlight "stocks" "prices").length = 2) ∧
      ∃ w : World Nat, Reach (step (fun _ => prices) true false) (fun _ _ => True) {} w ∧ w.runs = [] ∧ ¬ w.Serial (fun _ => prices) {} := by
  refine ⟨⟨_, Reach.free taps _, by decide⟩, ⟨_, Reach.free (taps ++ replies) _, by decide, fun h => ?_⟩⟩
  have hvalue := congrArg Record.value (h "stocks" ("prices", { into := "rows" }) (by decide))
  revert hvalue
  decide

end Sample

end Flowly.Flowlets.Refreshes
