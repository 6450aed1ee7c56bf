/-
  Flowly.Goals.Generations — evaluations of delivered turns beside the controls of the
  goal, in any order of their steps.

  A compare-and-set only succeeds on the record that was read last, so no commit of an
  evaluation undoes one that came after its read. But an evaluation asks for its
  generation once, before its first commit: it reads again after the wait barrier and
  before the judge, and goes on with the goal it finds there.

  Proved: every commit of an evaluation is on the newest record, of its own generation,
  and DONE only where every gate of the record passed in it, in every run in which it goes
  on with no other goal and no gate is added between the last one and the judge
  (`keeps_to_its_generation`). A `set` in one of the two places charges the turn and the
  verdict to the new goal, and an added gate is not run (`a_replacement_takes_the_verdict`).
-/

import Flowly.Goals.Evaluation
import Flowly.Lib.Reach

namespace Flowly.Goals

open Flowly.Lib

/-- A goal store, and the evaluations there have been. -/
structure World where
  store : GoalStore := {}
  evaluations : List Evaluation := []

inductive Event where
  | operate (o : Outside) (op : Operation)
  | evaluate (t : Turn)
  /-- Evaluation number `i` takes a step. -/
  | advance (x : Surroundings) (i : Nat)

def World.next (w : World) : Event → World
  | .operate o op => { w with store := op.apply o w.store }
  | .evaluate t => { w with evaluations := w.evaluations ++ [{ turn := t }] }
  | .advance x i =>
    match w.evaluations[i]? with
    | none => w
    | some e => { store := (e.advance x w.store).1, evaluations := w.evaluations.set i (e.advance x w.store).2 }

/-- The commit is in the store, of generation `g`, on the record that was read last. -/
structure Commit.Sound (history : List GoalState) (g : String) (c : Commit) : Prop where
  stored : c.after :: c.below <:+ history
  generation : c.base.goalId = g ∧ c.after.goalId = g
  newest : c.below.head? = some c.base
  revision : c.after.revision = c.base.revision + 1
  gates : c.after.status = .done → c.after.gateSpecs ⊆ c.passed

/-- Evaluations commit within their generation only. Every commit raises the revision, so
    that none came between the record an evaluation had read and its own commit on it. -/
def World.Sound (w : World) : Prop :=
  w.store.Ordered ∧ ∀ e ∈ w.evaluations, ∀ g ∈ e.turn.expectedGoalId, ∀ c ∈ e.commits, c.Sound w.store.history g

/-- What an evaluation reads again is still its goal, and a DONE is on no gate that was
    added after the gates had run. -/
def Evaluation.Follows (x : Surroundings) (s : GoalStore) (g : String) (e : Evaluation) : Prop :=
  match e.phase with
  | .barrier _ => ∀ r ∈ s.get, r.isActive = true → r.hasWait = true → stillWaiting x.toOutside r = false → r.goalId = g
  | .reread _ => ∀ r ∈ s.get, r.isActive = true → r.hasWait = false → r.goalId = g
  | .judgeRead _ => ∀ r ∈ s.get, r.isActive = true → r.goalId = g
  | .judge gated state => (Evaluation.judged x.judge).1.verdict = .done → state.gateSpecs ⊆ gated.gateSpecs
  | _ => True

instance (x : Surroundings) (s : GoalStore) (g : String) (e : Evaluation) : Decidable (e.Follows x s g) := by
  unfold Evaluation.Follows
  split <;> infer_instance

def World.Follows (w : World) : Event → Prop
  | .advance x i => ∀ e ∈ w.evaluations[i]?, ∀ g ∈ e.turn.expectedGoalId, e.Follows x w.store g
  | _ => True

instance (w : World) (ev : Event) : Decidable (w.Follows ev) := by
  unfold World.Follows
  split <;> infer_instance

/-! ## One evaluation -/

def Phase.Holds (history : List GoalState) (g : String) (passed : List (String × Nat × Nat)) : Phase → Prop
  | .abort state | .compaction state | .failure state _ | .barrier state | .reread state => state ∈ history ∧ state.goalId = g
  | .release state waiting => (state ∈ history ∧ state.goalId = g) ∧ waiting ∈ history ∧ waiting.goalId = g ∧ waiting.status = .active
  -- What is read after a lost clear may be of another goal if it is not active: the turn is not charged to it.
  | .consume state => state ∈ history ∧ (state.status = .active → state.goalId = g)
  | .gate state index =>
    state ∈ history ∧ state.goalId = g ∧ state.status = .active ∧ state.gateSpecs.take index ⊆ passed
  | .exhausted state _ => state ∈ history ∧ state.goalId = g
  | .judgeRead gated => gated.gateSpecs ⊆ passed
  | .judge gated state => state ∈ history ∧ state.goalId = g ∧ gated.gateSpecs ⊆ passed
  | .start | .lost _ | .returned _ | .raised _ => True

structure Evaluation.Inv (s : GoalStore) (g : String) (e : Evaluation) : Prop where
  commits : ∀ c ∈ e.commits, c.Sound s.history g
  holds : e.phase.Holds s.history g e.passed

variable {s s' : GoalStore} {g : String} {e : Evaluation}

theorem Commit.Sound.mono {history history' : List GoalState} {c : Commit} (h : c.Sound history g)
    (hs : history <:+ history') : c.Sound history' g :=
  ⟨h.stored.trans hs, h.generation, h.newest, h.revision, h.gates⟩

theorem Phase.Holds.mono {history history' : List GoalState} {passed : List (String × Nat × Nat)} {p : Phase}
    (h : p.Holds history g passed) (hs : history <:+ history') : p.Holds history' g passed := by
  have hmem {r : GoalState} (hr : r ∈ history) : r ∈ history' := hs.subset hr
  cases p with
  | start => trivial
  | abort state => exact ⟨hmem h.1, h.2⟩
  | compaction state => exact ⟨hmem h.1, h.2⟩
  | failure state reason => exact ⟨hmem h.1, h.2⟩
  | barrier state => exact ⟨hmem h.1, h.2⟩
  | release state waiting => exact ⟨⟨hmem h.1.1, h.1.2⟩, hmem h.2.1, h.2.2⟩
  | reread state => exact ⟨hmem h.1, h.2⟩
  | consume state => exact ⟨hmem h.1, h.2⟩
  | gate state index => exact ⟨hmem h.1, h.2⟩
  | exhausted state command => exact ⟨hmem h.1, h.2⟩
  | judgeRead gated => exact h
  | judge gated state => exact ⟨hmem h.1, h.2⟩
  | lost reason => trivial
  | returned d => trivial
  | raised err => trivial

/-- The store grew under the evaluation. -/
theorem Evaluation.Inv.mono (h : e.Inv s g) (hs : s.history <:+ s'.history) : e.Inv s' g :=
  ⟨fun c hc => (h.commits c hc).mono hs, h.holds.mono hs⟩

namespace Evaluation

theorem Inv.goto (h : e.Inv s g) {p : Phase} (hp : p.Holds s.history g e.passed) :
    (e.goto s p).2.Inv (e.goto s p).1 g := ⟨h.commits, hp⟩

/-- A compare-and-set on a record of the generation: a commit that is sound, or none. -/
theorem Inv.commit (h : e.Inv s g) (hs : s.Ordered) {now : Int} {base : GoalState}
    {mutation : GoalState → Except GoalError GoalState} {next : GoalState → Phase} {conflict : Phase} (hbase : base ∈ s.history)
    (hsame : ∀ u, mutation base = .ok u → base.goalId = g ∧ SameGoal base u ∧ (u.status = .done → base.gateSpecs ⊆ e.passed))
    (hnext : ∀ u r, mutation base = .ok u → r = s.committed now u → (next r).Holds (s.push r).history g e.passed)
    (hconf : conflict.Holds s.history g e.passed) :
    (e.commit now s base mutation next conflict).2.Inv (e.commit now s base mutation next conflict).1 g := by
  rcases commit_cases hs e now hbase mutation next conflict with ⟨p, hp, hc⟩ | ⟨u, hget, hu, hc⟩
  · rw [hc]
    rcases hp with rfl | ⟨err, rfl⟩
    · exact h.goto hconf
    · exact h.goto trivial
  · rw [hc]
    obtain ⟨hid, hkeeps, hdone⟩ := hsame u hu
    refine ⟨?_, hnext u _ hu rfl⟩
    intro c hcm
    rcases List.mem_cons.1 hcm with rfl | hcm
    · refine ⟨List.suffix_refl _, ⟨hid, ?_⟩, hget, GoalStore.committed_revision hget, ?_⟩
      · exact hkeeps.goalId.trans hid
      · intro hst
        show (s.committed now u).gateSpecs ⊆ e.passed
        rw [GoalStore.committed_gateSpecs, hkeeps.gateSpecs]
        exact hdone hst
    · exact (h.commits c hcm).mono (List.suffix_cons _ s.history)

theorem begin_holds (s : GoalStore) (t : Turn) (passed : List (String × Nat × Nat)) (hg : t.expectedGoalId = some g) :
    (begin_ t s.get).Holds s.history g passed := by
  unfold begin_
  split
  · trivial
  · next state hget =>
    have hmem := GoalStore.mem_of_get hget
    split_ifs with _ hid
    · trivial
    · trivial
    all_goals
      have hg' : state.goalId = g := by
        rw [hg] at hid
        by_contra hne
        exact hid (.inl ⟨rfl, by simpa using hne⟩)
      exact ⟨hmem, hg'⟩

theorem nextGate_holds {state : GoalState} {index : Nat} {passed : List (String × Nat × Nat)} {history : List GoalState}
    (hmem : state ∈ history) (hg : state.goalId = g) (hact : state.status = .active)
    (hpassed : state.gateSpecs.take index ⊆ passed) : (nextGate state index).Holds history g passed := by
  unfold nextGate
  split_ifs with hlt
  · exact ⟨hmem, hg, hact, hpassed⟩
  · have hall : state.gateSpecs.take index = state.gateSpecs :=
      List.take_of_length_le (by rw [GoalState.gateSpecs, List.length_map]; omega)
    rw [hall] at hpassed
    exact hpassed

/-- The specification of the gate that runs comes next. -/
theorem take_succ_specs {state : GoalState} {index : Nat} {gate : GoalGate} (h : state.gates[index]? = some gate) :
    state.gateSpecs.take (index + 1) = state.gateSpecs.take index ++ [gate.spec] := by
  rw [List.take_add_one, GoalState.gateSpecs, List.getElem?_map, h]
  rfl

theorem Inv.advance_barrier (h : e.Inv s g) {x : Surroundings} (hf : e.Follows x s g) {state : GoalState}
    (hp : e.phase = .barrier state) : (e.advance x s).2.Inv (e.advance x s).1 g := by
  have hh := h.holds
  unfold Follows at hf
  rw [hp] at hh hf
  unfold Evaluation.advance
  rw [hp]
  dsimp only
  refine h.goto ?_
  unfold readBarrier
  split
  · exact ⟨hh.1, fun _ => hh.2⟩
  · next waiting hget =>
    split_ifs with hno hstill
    · exact ⟨hh.1, fun _ => hh.2⟩
    · trivial
    · obtain ⟨hact, hwait⟩ := not_or.1 hno
      have hact : waiting.isActive = true := by simpa using hact
      exact ⟨hh, GoalStore.mem_of_get hget, hf waiting hget hact (by simpa using hwait) (by simpa using hstill),
        isActive_iff.1 hact⟩

theorem Inv.advance_release (h : e.Inv s g) (hs : s.Ordered) {x : Surroundings} {state waiting : GoalState}
    (hp : e.phase = .release state waiting) : (e.advance x s).2.Inv (e.advance x s).1 g := by
  have hh := h.holds
  rw [hp] at hh
  unfold Evaluation.advance
  rw [hp]
  dsimp only
  obtain ⟨hstate, hmem, hid, hact⟩ := hh
  refine h.commit hs hmem ?_ ?_ hstate
  · intro u hu
    cases hu
    exact ⟨hid, ⟨rfl, rfl, rfl⟩, fun hd => absurd (hact.symm.trans hd) (fun h => (by cases h))⟩
  · intro u r hu hr
    cases hu
    have hr' : r.goalId = g := by
      rw [hr, GoalStore.committed_goalId]
      exact hid
    unfold afterBarrier
    split
    · exact ⟨List.mem_cons_of_mem _ hstate.1, fun _ => hstate.2⟩
    · next w hw =>
      cases hw
      split_ifs
      · trivial
      · exact ⟨List.mem_cons_self, fun _ => hr'⟩

theorem Inv.advance_reread (h : e.Inv s g) {x : Surroundings} (hf : e.Follows x s g) {state : GoalState}
    (hp : e.phase = .reread state) : (e.advance x s).2.Inv (e.advance x s).1 g := by
  have hh := h.holds
  unfold Follows at hf
  rw [hp] at hh hf
  unfold Evaluation.advance
  rw [hp]
  dsimp only
  refine h.goto ?_
  unfold afterBarrier
  split
  · exact ⟨hh.1, fun _ => hh.2⟩
  · next w hget =>
    split_ifs with hwait
    · trivial
    · exact ⟨GoalStore.mem_of_get hget, fun hact => hf w hget (isActive_iff.2 hact) (by simpa using hwait)⟩

theorem Inv.advance_consume (h : e.Inv s g) (hs : s.Ordered) {x : Surroundings} {state : GoalState}
    (hp : e.phase = .consume state) : (e.advance x s).2.Inv (e.advance x s).1 g := by
  have hh := h.holds
  rw [hp] at hh
  unfold Evaluation.advance
  rw [hp]
  dsimp only
  refine h.commit hs hh.1 ?_ ?_ trivial
  · intro u hu
    obtain ⟨hact, rfl⟩ := consumeTurn_ok.1 hu
    exact ⟨hh.2 hact, ⟨rfl, rfl, rfl⟩, fun hd => absurd (hact.symm.trans hd) (fun h => (by cases h))⟩
  · intro u r hu hr
    obtain ⟨hact, rfl⟩ := consumeTurn_ok.1 hu
    have hid : r.goalId = g := by
      rw [hr, GoalStore.committed_goalId]
      exact hh.2 hact
    have hact' : r.status = .active := by
      rw [hr, GoalStore.committed_status]
      exact hact
    exact nextGate_holds List.mem_cons_self hid hact' (List.nil_subset _)

theorem Inv.advance_gate (h : e.Inv s g) (hs : s.Ordered) {x : Surroundings} {state : GoalState} {index : Nat}
    (hp : e.phase = .gate state index) : (e.advance x s).2.Inv (e.advance x s).1 g := by
  have hh := h.holds
  rw [hp] at hh
  unfold Evaluation.advance
  rw [hp]
  dsimp only
  obtain ⟨hmem, hid, hact, hpassed⟩ := hh
  split
  · next hnone =>
    refine h.goto ?_
    have hall : state.gateSpecs.take index = state.gateSpecs := by
      refine List.take_of_length_le ?_
      rw [GoalState.gateSpecs, List.length_map]
      exact List.getElem?_eq_none_iff.1 hnone
    rw [hall] at hpassed
    exact hpassed
  · next gate hgate =>
    -- The gate counts as passed from its run on, before the commit says so.
    have h' : (if (runGate x gate).passed then { e with phase := .gate state index, passed := gate.spec :: e.passed }
        else e).Inv s g := by
      split_ifs
      · exact ⟨h.commits, hmem, hid, hact, List.Subset.trans hpassed (List.subset_cons_self ..)⟩
      · exact h
    have hrun : state.gateSpecs.take (index + 1) ⊆ gate.spec :: e.passed := by
      rw [take_succ_specs hgate]
      intro k hk
      rcases List.mem_append.1 hk with hk | hk
      · exact List.mem_cons_of_mem _ (hpassed hk)
      · rw [List.mem_singleton.1 hk]
        exact List.mem_cons_self
    refine h'.commit hs hmem ?_ ?_ trivial
    · intro u hu
      obtain ⟨hsame, hst⟩ := applyGate_ok hu
      refine ⟨hid, hsame.toSameGoal, ?_⟩
      intro hd
      rcases hst with hst | ⟨_, hst⟩
      · rw [hst, hact] at hd
        cases hd
      · rw [hst] at hd
        cases hd
    · intro u r hu hr
      obtain ⟨hsame, hst⟩ := applyGate_ok hu
      have hid' : r.goalId = g := by
        rw [hr, GoalStore.committed_goalId, hsame.goalId]
        exact hid
      unfold afterGate
      split_ifs with hpass hpaused hbudget
      · refine nextGate_holds List.mem_cons_self hid' ?_ ?_
        · rw [hr, GoalStore.committed_status]
          rcases hst with hst | ⟨hno, _⟩
          · exact hst.trans hact
          · rw [hpass] at hno
            cases hno
        · rw [hr, GoalStore.committed_gateSpecs, hsame.gateSpecs]
          exact hrun
      · trivial
      · exact ⟨List.mem_cons_self, hid'⟩
      · trivial

theorem Inv.advance_judgeRead (h : e.Inv s g) {x : Surroundings} (hf : e.Follows x s g) {gated : GoalState}
    (hp : e.phase = .judgeRead gated) : (e.advance x s).2.Inv (e.advance x s).1 g := by
  have hh := h.holds
  unfold Follows at hf
  rw [hp] at hh hf
  unfold Evaluation.advance
  rw [hp]
  dsimp only
  split
  · exact h.goto trivial
  · next state hget =>
    split_ifs with hact
    · exact h.goto trivial
    · exact h.goto ⟨GoalStore.mem_of_get hget, hf state hget (by simpa using hact), hh⟩

theorem Inv.advance (h : e.Inv s g) (hs : s.Ordered) (hg : e.turn.expectedGoalId = some g) {x : Surroundings}
    (hf : e.Follows x s g) : (e.advance x s).2.Inv (e.advance x s).1 g := by
  have hh := h.holds
  cases hp : e.phase with
  | start =>
    unfold Evaluation.advance
    rw [hp]
    exact h.goto (begin_holds s e.turn e.passed hg)
  | barrier state => exact h.advance_barrier hf hp
  | release state waiting => exact h.advance_release hs hp
  | reread state => exact h.advance_reread hf hp
  | consume state => exact h.advance_consume hs hp
  | gate state index => exact h.advance_gate hs hp
  | judgeRead gated => exact h.advance_judgeRead hf hp
  | abort state =>
    rw [hp] at hh
    unfold Evaluation.advance
    rw [hp]
    dsimp only
    refine h.commit hs hh.1 ?_ (fun _ _ _ _ => trivial) trivial
    intro u hu
    cases hu
    exact ⟨hh.2, (pauseState_same state _).toSameGoal, fun hd => (by cases hd)⟩
  | compaction state =>
    rw [hp] at hh
    unfold Evaluation.advance
    rw [hp]
    dsimp only
    refine h.commit hs hh.1 ?_ (fun _ _ _ _ => trivial) trivial
    intro u hu
    obtain ⟨_, hsame, _, _, hst⟩ := recordCompactionFailure_ok hu
    refine ⟨hh.2, hsame, ?_⟩
    intro hd
    rcases hst with ⟨hst, _⟩ | hst <;> (rw [hst] at hd; cases hd)
  | failure state reason =>
    rw [hp] at hh
    unfold Evaluation.advance
    rw [hp]
    dsimp only
    refine h.commit hs hh.1 ?_ (fun _ _ _ _ => trivial) trivial
    intro u hu
    obtain ⟨hsame, hst⟩ := recordTurnFailure_ok hu
    refine ⟨hh.2, hsame.toSameGoal, ?_⟩
    intro hd
    rw [hst] at hd
    cases hd
  | exhausted state command =>
    rw [hp] at hh
    unfold Evaluation.advance
    rw [hp]
    dsimp only
    refine h.commit hs hh.1 ?_ (fun _ _ _ _ => trivial) trivial
    intro u hu
    cases hu
    exact ⟨hh.2, (pauseState_same state _).toSameGoal, fun hd => (by cases hd)⟩
  | judge gated state =>
    unfold Follows at hf
    rw [hp] at hh hf
    unfold Evaluation.advance
    rw [hp]
    dsimp only
    obtain ⟨hmem, hid, hpassed⟩ := hh
    refine h.commit hs hmem ?_ (fun _ _ _ _ => trivial) trivial
    intro u hu
    obtain ⟨_, hsame, hdone, _⟩ := applyJudgeResult_ok hu
    exact ⟨hid, hsame.toSameGoal, fun hd => List.Subset.trans (hf (hdone hd)) hpassed⟩
  | lost reason =>
    unfold Evaluation.advance
    rw [hp]
    exact h.goto trivial
  | returned d | raised err =>
    unfold Evaluation.advance
    rw [hp]
    exact h

end Evaluation

/-! ## Every run -/

namespace World

structure Inv (w : World) : Prop where
  ordered : w.store.Ordered
  each : ∀ e ∈ w.evaluations, ∀ g ∈ e.turn.expectedGoalId, e.Inv w.store g

theorem Inv.init : Inv {} := ⟨Versioned.nil, List.forall_mem_nil _⟩

theorem apply_suffix (o : Outside) (op : Operation) (s : GoalStore) : s.history <:+ (op.apply o s).history := by
  rcases op.apply_cases o s with hs | ⟨u, _, hs⟩
  · rw [hs]
  · rw [hs]
    exact List.suffix_cons ..

/-- An evaluation grows the store by a commit, or not at all. -/
theorem commit_suffix {e : Evaluation} {now : Int} {s : GoalStore} {base : GoalState}
    {mutation : GoalState → Except GoalError GoalState} {after : GoalState → Phase} {conflict : Phase} (hs : s.Ordered) :
    s.history <:+ (e.commit now s base mutation after conflict).1.history ∧
      (e.commit now s base mutation after conflict).1.Ordered := by
  unfold Evaluation.commit
  rcases hc : s.compareAndUpdate now base mutation with err | ⟨r, s'⟩
  · cases err <;> exact ⟨List.suffix_refl _, hs⟩
  · obtain ⟨_, u, _, _, _, _, rfl, rfl⟩ := GoalStore.compareAndUpdate_ok hc
    exact ⟨List.suffix_cons .., hs.push_committed now u⟩

theorem advance_suffix {s : GoalStore} (hs : s.Ordered) (x : Surroundings) (e : Evaluation) :
    s.history <:+ (e.advance x s).1.history ∧ (e.advance x s).1.Ordered := by
  have hstay : s.history <:+ s.history ∧ s.Ordered := ⟨List.suffix_refl _, hs⟩
  unfold Evaluation.advance
  split
  case h_9 =>
    split
    · exact hstay
    · exact commit_suffix hs
  case h_11 =>
    split
    · exact hstay
    · split_ifs <;> exact hstay
  all_goals first | exact commit_suffix hs | exact hstay

/-- The arguments of an evaluation stay. -/
theorem advance_turn (x : Surroundings) (s : GoalStore) (e : Evaluation) : (e.advance x s).2.turn = e.turn := by
  have hcommit {e' : Evaluation} (he : e'.turn = e.turn) (now : Int) (base : GoalState)
      (mutation : GoalState → Except GoalError GoalState) (after : GoalState → Phase) (conflict : Phase) :
      (e'.commit now s base mutation after conflict).2.turn = e.turn := by
    unfold Evaluation.commit
    split <;> exact he
  unfold Evaluation.advance
  split
  case h_9 =>
    split
    · rfl
    · refine hcommit ?_ ..
      split_ifs <;> rfl
  case h_11 =>
    split
    · rfl
    · split_ifs <;> rfl
  all_goals first | exact hcommit rfl .. | rfl

theorem Inv.next {w : World} (h : w.Inv) {ev : Event} (hf : w.Follows ev) : (w.next ev).Inv := by
  cases ev with
  | operate o op =>
    exact ⟨Operation.apply_ordered h.ordered o op, fun e he g hg => (h.each e he g hg).mono (apply_suffix o op w.store)⟩
  | evaluate t =>
    refine ⟨h.ordered, ?_⟩
    intro e he g hg
    rcases List.mem_append.1 he with he | he
    · exact h.each e he g hg
    · rw [List.mem_singleton.1 he]
      exact ⟨List.forall_mem_nil _, trivial⟩
  | advance x i =>
    unfold World.next
    dsimp only
    split
    · exact h
    · next e hi =>
      obtain ⟨hsuff, hord⟩ := advance_suffix h.ordered x e
      refine ⟨hord, ?_⟩
      intro e' he' g hg
      rcases List.mem_or_eq_of_mem_set he' with he' | rfl
      · exact (h.each e' he' g hg).mono hsuff
      · rw [advance_turn] at hg
        exact (h.each e (List.mem_of_getElem? hi) g hg).advance h.ordered hg (hf e hi g hg)

/-- Where no evaluation goes on with another goal and no gate comes in before a DONE, every
    commit keeps to its generation. -/
theorem keeps_to_its_generation {w : World} (h : Reach World.next World.Follows {} w) : w.Sound := by
  have hinv : w.Inv := h.invariant .init fun _ _ hw hf => hw.next hf
  exact ⟨hinv.ordered, fun e he g hg => (hinv.each e he g hg).commits⟩

namespace Sample

def done : Surroundings := { judge := .result { verdict := .done, reason := "all tests pass" } }

/-- A goal is set and a turn of it evaluated up to the judge's read. -/
def judging : List Event :=
  [.operate {} (.set "ship it" "a" 20 {} 0 none), .evaluate { latestResponse := "shipped", expectedGoalId := some "a" },
    .advance done 0, .advance done 0, .advance done 0]

def verdict : List Event := [.advance done 0, .advance done 0]

def run (es : List Event) : World := es.foldl World.next {}

def replaced : World := run (judging ++ .operate {} (.set "write the docs" "b" 20 {} 0 none) :: verdict)

def ungated : World := run (judging ++ .operate {} (.addGate "make test" 300 3) :: verdict)

/-- Another goal is set, with a barrier that is over, before the barrier is read. -/
def charged : World :=
  run ([.operate {} (.set "ship it" "a" 20 {} 0 none), .evaluate { latestResponse := "shipped", expectedGoalId := some "a" },
    .advance done 0, .operate {} (.set "write the docs" "b" 20 {} 0 none), .operate {} (.waitOn (.pid 7) "build"),
    .advance done 0, .advance done 0, .advance done 0])

end Sample

theorem keeps_to_its_generation_judged : (Sample.run (Sample.judging ++ Sample.verdict)).Sound :=
  keeps_to_its_generation (Reach.foldl _ _ .start (by decide))

/-- A commit of the generation, and no DONE on a gate that did not pass. -/
def Clean (g : String) (c : Commit) : Prop :=
  c.after.goalId = g ∧ (c.after.status = .done → c.after.gateSpecs ⊆ c.passed)

instance (g : String) (c : Commit) : Decidable (Clean g c) := by
  unfold Clean
  infer_instance

def AllClean (w : World) : Prop := ∀ e ∈ w.evaluations, ∀ g ∈ e.turn.expectedGoalId, ∀ c ∈ e.commits, Clean g c

instance (w : World) : Decidable w.AllClean := by
  unfold AllClean
  infer_instance

theorem Sound.clean {w : World} (h : w.Sound) : w.AllClean :=
  fun e he g hg c hc => ⟨(h.2 e he g hg c hc).generation.2, (h.2 e he g hg c hc).gates⟩

/-- The verdict on the old goal's turn completes the new one, DONE is said with a gate that
    was not run, and the turn is charged to the new goal. -/
theorem a_replacement_takes_the_verdict :
    (Reach World.next (fun _ _ => True) {} Sample.replaced ∧ ¬ Sample.replaced.Sound) ∧
      (Reach World.next (fun _ _ => True) {} Sample.ungated ∧ ¬ Sample.ungated.Sound) ∧
      Reach World.next (fun _ _ => True) {} Sample.charged ∧ ¬ Sample.charged.Sound := by
  refine ⟨⟨Reach.foldl _ _ .start (by decide), ?_⟩, ⟨Reach.foldl _ _ .start (by decide), ?_⟩,
    Reach.foldl _ _ .start (by decide), ?_⟩
  all_goals
    intro h
    have hclean := h.clean
    revert hclean
    decide

end World

end Flowly.Goals
