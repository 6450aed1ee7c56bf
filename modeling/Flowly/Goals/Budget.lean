/-
  Flowly.Goals.Budget — the turn budget over every run of the worker.

  A CONTINUE and a failed gate look at the budget before another turn is started; a
  wake-up and the retry after a context failure do not.

  Proved: every turn that the runtime starts has budget left, in every run in which a
  wake-up and a context failure find the goal with a turn left; and where no two wake-ups
  find it at the same count of turns, at most three turns are started for each one of the
  budget between two resumes (`starts_within_budget`). A goal that was parked on its last
  turn is woken and run once more, and so is one whose context fails then
  (`a_wake_up_goes_over_the_budget`).
-/

import Flowly.Goals.Generations
import Flowly.Goals.Runtime
import Mathlib.Data.Finset.Prod
import Mathlib.Data.Fintype.Basic

namespace Flowly.Goals

open Flowly.Lib

/-! ## The budget -/

/-- Every turn that is no kickoff was started with a turn of the budget left. -/
def Runtime.InBudget (w : Runtime) : Prop := ∀ e ∈ w.starts, e.cause ≠ .kickoff → e.turnsUsed < e.maxTurns

instance (w : Runtime) : Decidable w.InBudget := by
  unfold Runtime.InBudget
  infer_instance

/-- The turns that were started for the goal of `e` since the same resume. -/
def Runtime.startsOf (w : Runtime) (e : Start) : List Start :=
  w.starts.filter fun s => s.cause ≠ .kickoff ∧ s.goalId = e.goalId ∧ s.grant = e.grant

def Runtime.WakesOnce (w : Runtime) : Prop :=
  (w.starts.filter fun e => e.cause = .wake).Pairwise fun a b => (a.goalId, a.grant, a.usedThen) ≠ (b.goalId, b.grant, b.usedThen)

/-- A wake-up and a retry find the goal with a turn left. -/
def Runtime.TurnLeft (w : Runtime) : RuntimeEvent → Prop
  | .work _ =>
    match w.task with
    | .resumed state => state.isActive = true → state.hasWait = false → state.turnsUsed < state.maxTurns
    | .evaluating _ e =>
      match e.phase with
      | .compaction state => state.consecutiveCompactionFailures + 1 < maxCompactionFailures → state.turnsUsed < state.maxTurns
      | _ => True
    | _ => True
  | _ => True

instance (w : Runtime) (ev : RuntimeEvent) : Decidable (w.TurnLeft ev) := by
  cases ev with
  | work x =>
    dsimp only [Runtime.TurnLeft]
    cases w.task with
    | evaluating t e =>
      obtain ⟨_, phase, _, _⟩ := e
      cases phase <;> dsimp only <;> infer_instance
    | _ => dsimp only; infer_instance
  | _ => exact inferInstanceAs (Decidable True)

instance (w : Runtime) (ev : RuntimeEvent) : Decidable (w.fits ev) := by
  unfold Runtime.fits
  split <;> infer_instance

/-! ## What holds in every run -/

variable {w : Runtime} {s : GoalStore} {cur r u : GoalState}

structure GoalState.Normal (r : GoalState) : Prop where
  turns : r.turnsUsed ≤ 1000000
  budget : 1 ≤ r.maxTurns ∧ r.maxTurns ≤ 10000

/-- No turn of that cause was started since the last one was charged. -/
def Runtime.Fresh (w : Runtime) (cause : Cause) : Prop :=
  ∀ cur ∈ w.store.get, ∀ e ∈ w.starts, e.cause = cause → e.goalId = cur.goalId → e.grant = w.resumes → e.usedThen ≠ cur.turnsUsed

/-- A turn was decided on for goal `g`, and may be started. -/
structure Runtime.Ready (w : Runtime) (cause : Cause) (g : String) : Prop where
  known : g ∈ w.ids
  left : ∀ cur ∈ w.store.get, cur.goalId = g → cur.turnsUsed < cur.maxTurns ∧ w.decided.2 < cur.maxTurns
  since : w.decided.1 = w.resumes → ∀ cur ∈ w.store.get, cur.goalId = g → w.decided.2 ≤ cur.turnsUsed ∧
    (cause = .retry → w.decided.2 = cur.turnsUsed → 0 < cur.consecutiveCompactionFailures ∨ cur.status = .cleared)
  fresh : cause ≠ .wake → ∀ e ∈ w.starts, e.cause = cause → e.goalId = g → e.grant = w.decided.1 → e.usedThen ≠ w.decided.2

structure Runtime.Base (w : Runtime) : Prop where
  ordered : w.store.Ordered
  normal : ∀ r ∈ w.store.history, r.Normal
  known : ∀ r ∈ w.store.history, r.goalId ∈ w.ids
  budgets : ∀ r ∈ w.store.history, ∀ r' ∈ w.store.history, r.goalId = r'.goalId → r.maxTurns = r'.maxTurns
  started : ∀ e ∈ w.starts, e.grant ≤ w.resumes ∧ ∃ r ∈ w.store.history, r.goalId = e.goalId ∧ r.maxTurns = e.maxTurns
  upTo : ∀ cur ∈ w.store.get, ∀ e ∈ w.starts, e.cause ≠ .kickoff → e.goalId = cur.goalId → e.grant = w.resumes →
    e.usedThen ≤ cur.turnsUsed
  retried : ∀ cur ∈ w.store.get, ∀ e ∈ w.starts, e.cause = .retry → e.goalId = cur.goalId → e.grant = w.resumes →
    e.usedThen = cur.turnsUsed → 0 < cur.consecutiveCompactionFailures ∨ cur.status = .cleared
  inBudget : ∀ e ∈ w.starts, e.cause ≠ .kickoff → e.turnsUsed < e.maxTurns ∧ e.usedThen < e.maxTurns
  distinct : w.starts.Pairwise fun a b => a.cause = .judged ∨ a.cause = .retry →
    (a.cause, a.goalId, a.grant, a.usedThen) ≠ (b.cause, b.goalId, b.grant, b.usedThen)
  decidedLe : w.decided.1 ≤ w.resumes

def Phase.Held (history : List GoalState) : Phase → Prop
  | .compaction state | .failure state _ | .barrier state | .reread state | .consume state | .judge _ state => state ∈ history
  | .abort state | .gate state _ | .exhausted state _ => state ∈ history ∧ state.status = .active
  | .release state waiting => state ∈ history ∧ waiting ∈ history ∧ waiting.status = .active
  | _ => True

def Phase.charged : Phase → Bool
  | .gate .. | .exhausted .. | .judgeRead _ | .judge .. => true
  | _ => false

/-- A decision to go on may be followed. -/
def Runtime.Good (w : Runtime) (cause : Cause) (d : GoalDecision) : Prop :=
  d.shouldContinue = true → ∀ g ∈ d.goalId, w.Ready cause g

/-- Whether the turn is being judged, and not its failure recorded. -/
def Phase.judging : Phase → Bool
  | .barrier _ | .release .. | .reread _ | .consume _ => true
  | p => p.charged

structure Phase.Fits (w : Runtime) (cause : Cause) (p : Phase) : Prop where
  held : p.Held w.store.history
  charged : p.charged = true → w.Fresh .judged
  judging : p.judging = true → cause = .judged
  retry : ∀ state, p = .compaction state → cause = .retry
  good : ∀ d, p = .returned d → w.Good cause d

def Runtime.TaskFits (w : Runtime) : Task → Prop
  | .evaluating t e => e.phase.Fits w (Runtime.causeOf t) ∧ e.turn.compactionFailed = t.compactionFailed
  | .failing e => e.phase.Fits w .judged ∧ e.turn.compactionFailed = false
  | .decided t d => w.Good (Runtime.causeOf t) d
  | .next g _ cause => cause ≠ .kickoff → w.Ready cause g
  | .wakeClear waiting => waiting ∈ w.store.history ∧ waiting.status = .active
  | .resumed state => state ∈ w.store.history ∧
      ∀ cur ∈ w.store.get, cur.goalId = state.goalId → cur.turnsUsed ≤ state.turnsUsed
  | _ => True

def Runtime.TaskOk (w : Runtime) : Prop := w.TaskFits w.task

/-! ## Commits that charge no turn -/

namespace Runtime

variable {w' : Runtime}

structure Pushed (w w' : Runtime) (r : GoalState) : Prop where
  store : w'.store = w.store.push r
  starts : w'.starts = w.starts
  ordered : w'.store.Ordered
  normal : r.Normal

inductive Control (w w' : Runtime) : Prop
  | stay : w'.store = w.store → w'.starts = w.starts → w'.ids = w.ids → w'.resumes = w.resumes → Control w w'
  | within (cur r : GoalState) : w.store.get = some cur → Pushed w w' r → w'.ids = w.ids → w'.resumes = w.resumes →
      r.goalId = cur.goalId → r.maxTurns = cur.maxTurns → r.turnsUsed = cur.turnsUsed →
      (0 < cur.consecutiveCompactionFailures ∨ cur.status = .cleared → 0 < r.consecutiveCompactionFailures ∨ r.status = .cleared) →
      Control w w'
  | resume (cur r : GoalState) : w.store.get = some cur → Pushed w w' r → w'.ids = w.ids → w'.resumes = w.resumes + 1 →
      r.goalId = cur.goalId → r.maxTurns = cur.maxTurns → r.turnsUsed = 0 → Control w w'
  | set (r : GoalState) : Pushed w w' r → w'.ids = r.goalId :: w.ids → w'.resumes = w.resumes → r.goalId ∉ w.ids →
      r.turnsUsed = 0 → Control w w'

theorem Pushed.mem (h : Pushed w w' r) {x : GoalState} : x ∈ w'.store.history ↔ x = r ∨ x ∈ w.store.history := by
  rw [h.store]
  exact List.mem_cons

theorem Pushed.get (h : Pushed w w' r) {x : GoalState} (hx : x ∈ w'.store.get) : x = r := by
  rw [h.store] at hx
  exact (Option.some.inj hx).symm

theorem Base.committed_normal (h : w.Base) (hget : w.store.get = some cur) {now : Int} (hmax : u.maxTurns = cur.maxTurns) :
    (w.store.committed now u).Normal := by
  have hcur := h.normal cur (GoalStore.mem_of_get hget)
  refine ⟨?_, ?_⟩
  · unfold GoalStore.committed
    rw [GoalState.clone_turnsUsed]
    omega
  · show 1 ≤ u.maxTurns ∧ u.maxTurns ≤ 10000
    rw [hmax]
    exact hcur.budget

/-- The goal of a start is one that was given. -/
theorem Base.start_known (h : w.Base) {e : Start} (he : e ∈ w.starts) : e.goalId ∈ w.ids := by
  obtain ⟨_, r, hr, hid, _⟩ := h.started e he
  rw [← hid]
  exact h.known r hr

theorem Base.pushed (h : w.Base) (hp : Pushed w w' r) (hids : w.ids ⊆ w'.ids) (hid : r.goalId ∈ w'.ids)
    (hres : w.resumes ≤ w'.resumes) (hmax : ∀ r' ∈ w.store.history, r'.goalId = r.goalId → r'.maxTurns = r.maxTurns)
    (hdec : w'.decided.1 ≤ w'.resumes)
    (hup : ∀ e ∈ w.starts, e.cause ≠ .kickoff → e.goalId = r.goalId → e.grant = w'.resumes → e.usedThen ≤ r.turnsUsed)
    (hretry : ∀ e ∈ w.starts, e.cause = .retry → e.goalId = r.goalId → e.grant = w'.resumes → e.usedThen = r.turnsUsed →
      0 < r.consecutiveCompactionFailures ∨ r.status = .cleared) : w'.Base := by
  refine ⟨hp.ordered, ?_, ?_, ?_, ?_, ?_, ?_, ?_, ?_, hdec⟩
  · intro x hx
    rcases hp.mem.1 hx with rfl | hx
    · exact hp.normal
    · exact h.normal x hx
  · intro x hx
    rcases hp.mem.1 hx with rfl | hx
    · exact hid
    · exact hids (h.known x hx)
  · intro x hx y hy hxy
    rcases hp.mem.1 hx with rfl | hx
    · rcases hp.mem.1 hy with rfl | hy
      · rfl
      · exact (hmax y hy hxy.symm).symm
    · rcases hp.mem.1 hy with rfl | hy
      · exact hmax x hx hxy
      · exact h.budgets x hx y hy hxy
  · intro e he
    rw [hp.starts] at he
    obtain ⟨hg, x, hx, hrest⟩ := h.started e he
    exact ⟨Nat.le_trans hg hres, x, hp.mem.2 (.inr hx), hrest⟩
  · intro x hx e he
    obtain rfl := hp.get hx
    rw [hp.starts] at he
    exact hup e he
  · intro x hx e he
    obtain rfl := hp.get hx
    rw [hp.starts] at he
    exact hretry e he
  · intro e he
    rw [hp.starts] at he
    exact h.inBudget e he
  · rw [hp.starts]
    exact h.distinct

theorem Control.base (hc : Control w w') (h : w.Base) (hdec : w'.decided.1 ≤ w'.resumes) : w'.Base := by
  cases hc with
  | stay hstore hstarts hids hres =>
    constructor
    case decidedLe => exact hdec
    all_goals simp only [hstore, hstarts, hids, hres]
    exacts [h.ordered, h.normal, h.known, h.budgets, h.started, h.upTo, h.retried, h.inBudget, h.distinct]
  | within cur r hget hp hids hres hid hmax hused hcomp =>
    have hcur := GoalStore.mem_of_get hget
    refine h.pushed hp (by rw [hids]; exact List.Subset.refl _) (by rw [hids, hid]; exact h.known cur hcur) (by omega) ?_ hdec ?_ ?_
    · intro r' hr' heq
      rw [hmax]
      exact h.budgets r' hr' cur hcur (heq.trans hid)
    · intro e he hcause heq hg
      rw [hused]
      exact h.upTo cur hget e he hcause (heq.trans hid) (hg.trans hres)
    · intro e he hcause heq hg hturns
      exact hcomp (h.retried cur hget e he hcause (heq.trans hid) (hg.trans hres) (hturns.trans hused))
  | resume cur r hget hp hids hres hid hmax hused =>
    have hcur := GoalStore.mem_of_get hget
    refine h.pushed hp (by rw [hids]; exact List.Subset.refl _) (by rw [hids, hid]; exact h.known cur hcur) (by omega) ?_ hdec ?_ ?_
    · intro r' hr' heq
      rw [hmax]
      exact h.budgets r' hr' cur hcur (heq.trans hid)
    · intro e he _ _ hg
      have := (h.started e he).1
      omega
    · intro e he _ _ hg
      have := (h.started e he).1
      omega
  | set r hp hids hres hnew hused =>
    refine h.pushed hp (by rw [hids]; exact List.subset_cons_self ..) (by rw [hids]; exact List.mem_cons_self) (by omega) ?_ hdec ?_ ?_
    · intro r' hr' heq
      exact absurd (heq ▸ h.known r' hr') hnew
    · intro e he _ heq
      exact absurd (heq ▸ h.start_known he) hnew
    · intro e he _ heq
      exact absurd (heq ▸ h.start_known he) hnew

theorem Control.fresh (hc : Control w w') (h : w.Base) {cause : Cause} (hf : w.Fresh cause) : w'.Fresh cause := by
  intro x hx e he hcause heq hg
  cases hc with
  | stay hstore hstarts hids hres =>
    rw [hstore] at hx
    rw [hstarts] at he
    exact hf x hx e he hcause heq (hg.trans hres)
  | within cur r hget hp hids hres hid hmax hused hcomp =>
    obtain rfl := hp.get hx
    rw [hp.starts] at he
    rw [hused]
    exact hf cur hget e he hcause (heq.trans hid) (hg.trans hres)
  | resume cur r hget hp hids hres hid hmax hused =>
    rw [hp.starts] at he
    have := (h.started e he).1
    omega
  | set r hp hids hres hnew hused =>
    obtain rfl := hp.get hx
    rw [hp.starts] at he
    exact absurd (heq ▸ h.start_known he) hnew

theorem Control.mem (hc : Control w w') {x : GoalState} (hx : x ∈ w.store.history) : x ∈ w'.store.history := by
  cases hc with
  | stay hstore => rw [hstore]; exact hx
  | within _ _ _ hp => exact hp.mem.2 (.inr hx)
  | resume _ _ _ hp => exact hp.mem.2 (.inr hx)
  | set _ hp => exact hp.mem.2 (.inr hx)

theorem Control.starts (hc : Control w w') : w'.starts = w.starts := by
  cases hc with
  | stay _ hstarts => exact hstarts
  | within _ _ _ hp => exact hp.starts
  | resume _ _ _ hp => exact hp.starts
  | set _ hp => exact hp.starts

theorem Control.ids (hc : Control w w') {g : String} (hg : g ∈ w.ids) : g ∈ w'.ids := by
  cases hc with
  | stay _ _ hids => rw [hids]; exact hg
  | within _ _ _ _ hids => rw [hids]; exact hg
  | resume _ _ _ _ hids => rw [hids]; exact hg
  | set _ _ hids => rw [hids]; exact List.mem_cons_of_mem _ hg

theorem Control.ready (hc : Control w w') (h : w.Base) (hdec : w'.decided = w.decided) {cause : Cause} {g : String}
    (hr : w.Ready cause g) : w'.Ready cause g := by
  refine ⟨hc.ids hr.known, ?_, ?_, ?_⟩
  · intro x hx hid'
    rw [hdec]
    cases hc with
    | stay hstore =>
      rw [hstore] at hx
      exact hr.left x hx hid'
    | within cur r hget hp hids hres hid hmax hused hcomp =>
      obtain rfl := hp.get hx
      rw [hused, hmax]
      exact hr.left cur hget (hid.symm.trans hid')
    | resume cur r hget hp hids hres hid hmax hused =>
      obtain rfl := hp.get hx
      have := (hr.left cur hget (hid.symm.trans hid')).2
      rw [hused, hmax]
      omega
    | set r hp hids hres hnew hused =>
      obtain rfl := hp.get hx
      exact absurd (hid' ▸ hr.known) hnew
  · rw [hdec]
    intro hsame x hx hid'
    cases hc with
    | stay hstore _ _ hres =>
      rw [hstore] at hx
      exact hr.since (hsame.trans hres) x hx hid'
    | within cur r hget hp hids hres hid hmax hused hcomp =>
      obtain rfl := hp.get hx
      obtain ⟨hle, hretry⟩ := hr.since (hsame.trans hres) cur hget (hid.symm.trans hid')
      rw [hused]
      exact ⟨hle, fun hcause heq => hcomp (hretry hcause heq)⟩
    | resume cur r hget hp hids hres hid hmax hused =>
      have := h.decidedLe
      omega
    | set r hp hids hres hnew hused =>
      obtain rfl := hp.get hx
      exact absurd (hid' ▸ hr.known) hnew
  · rw [hc.starts, hdec]
    exact hr.fresh

theorem Control.good (hc : Control w w') (h : w.Base) (hdec : w'.decided = w.decided) {cause : Cause} {d : GoalDecision}
    (hg : w.Good cause d) : w'.Good cause d := fun hd g hgd => hc.ready h hdec (hg hd g hgd)

/-! ## What a commit is to the budget -/

/-- A change that charges no turn and forgets no context failure. -/
structure Quiet (before after : GoalState) : Prop where
  goalId : after.goalId = before.goalId
  maxTurns : after.maxTurns = before.maxTurns
  turnsUsed : after.turnsUsed = before.turnsUsed
  failures : 0 < before.consecutiveCompactionFailures ∨ before.status = .cleared →
    0 < after.consecutiveCompactionFailures ∨ after.status = .cleared

theorem Quiet.of_within {before after : GoalState} (h : Within before after) : Quiet before after := by
  refine ⟨h.goalId, h.maxTurns, h.turnsUsed, ?_⟩
  rw [h.compaction]
  exact Or.imp_right h.live

theorem Quiet.of_same {before after : GoalState} (h : SameTurns before after) (hact : before.status = .active) :
    Quiet before after := by
  refine ⟨h.goalId, h.maxTurns, h.turnsUsed, ?_⟩
  rw [h.compaction, hact]
  exact Or.imp_right fun hc => (by cases hc)

theorem Base.quiet (h : w.Base) (hget : w.store.get = some cur) (hu : Quiet cur u) {now : Int}
    (hstore : w'.store = w.store.push (w.store.committed now u)) (hstarts : w'.starts = w.starts) (hids : w'.ids = w.ids)
    (hres : w'.resumes = w.resumes) : Control w w' := by
  have hcur := h.normal cur (GoalStore.mem_of_get hget)
  have hord : w'.store.Ordered := by
    rw [hstore]
    exact h.ordered.push_committed now u
  refine .within cur _ hget ⟨hstore, hstarts, hord, h.committed_normal hget hu.maxTurns⟩ hids hres hu.goalId hu.maxTurns ?_ ?_
  · have hturns := hcur.turns
    unfold GoalStore.committed
    rw [GoalState.clone_turnsUsed]
    show min 1000000 u.turnsUsed = cur.turnsUsed
    rw [hu.turnsUsed]
    omega
  · intro hfail
    refine (hu.failures hfail).imp_left fun hpos => ?_
    unfold GoalStore.committed
    rw [GoalState.clone_compaction]
    show 0 < min 1000000 u.consecutiveCompactionFailures
    omega

/-- A turn is charged: none was started at the new count. -/
theorem Base.charge (h : w.Base) (hget : w.store.get = some cur) {now : Int} (hid : u.goalId = cur.goalId)
    (hmax : u.maxTurns = cur.maxTurns) (hused : u.turnsUsed = cur.turnsUsed + 1)
    (hstore : w'.store = w.store.push (w.store.committed now u)) (hstarts : w'.starts = w.starts) (hids : w'.ids = w.ids)
    (hres : w'.resumes = w.resumes) (hdec : w'.decided.1 ≤ w'.resumes) : w'.Base ∧ w'.Fresh .judged := by
  have hmem := GoalStore.mem_of_get hget
  have hnormal := h.normal cur hmem
  have hord : w'.store.Ordered := by
    rw [hstore]
    exact h.ordered.push_committed now u
  have hp : Pushed w w' (w.store.committed now u) := ⟨hstore, hstarts, hord, h.committed_normal hget hmax⟩
  have hturns : (w.store.committed now u).turnsUsed = min 1000000 (cur.turnsUsed + 1) := by
    unfold GoalStore.committed
    rw [GoalState.clone_turnsUsed]
    show min 1000000 u.turnsUsed = _
    rw [hused]
  -- What was started before had a turn left, and no budget comes near the cap of the count.
  have hbelow : ∀ e ∈ w.starts, e.cause ≠ .kickoff → e.goalId = cur.goalId → e.grant = w.resumes →
      e.usedThen < (w.store.committed now u).turnsUsed := by
    intro e he hcause heq hg
    have hle := h.upTo cur hget e he hcause heq hg
    have hlt := (h.inBudget e he hcause).2
    obtain ⟨_, r, hr, _, hrmax⟩ := h.started e he
    have hcap := (h.normal r hr).budget
    have := hnormal.turns
    rw [hturns]
    omega
  refine ⟨?_, ?_⟩
  · refine h.pushed hp (by rw [hids]; exact List.Subset.refl _) ?_ (by omega) ?_ hdec ?_ ?_
    · rw [hids]
      show u.goalId ∈ w.ids
      rw [hid]
      exact h.known cur hmem
    · intro r' hr' heq
      show r'.maxTurns = u.maxTurns
      rw [hmax]
      exact h.budgets r' hr' cur hmem (heq.trans hid)
    · intro e he hcause heq hg
      exact Nat.le_of_lt (hbelow e he hcause (heq.trans hid) (hg.trans hres))
    · intro e he hcause heq hg hsame
      have := hbelow e he (by rw [hcause]; intro h; cases h) (heq.trans hid) (hg.trans hres)
      omega
  · intro x hx e he hcause heq hg
    obtain rfl := hp.get hx
    rw [hp.starts] at he
    have := hbelow e he (by rw [hcause]; intro h; cases h) (heq.trans hid) (hg.trans hres)
    omega

/-- A decision just made for the record that is in the store. -/
theorem Base.ready (h : w.Base) (hget : w.store.get = some r) (hdec : w.decided = (w.resumes, r.turnsUsed)) {cause : Cause}
    (hlt : r.turnsUsed < r.maxTurns) (hfresh : cause ≠ .wake → w.Fresh cause)
    (hretry : cause = .retry → 0 < r.consecutiveCompactionFailures) : w.Ready cause r.goalId := by
  have hmem := GoalStore.mem_of_get hget
  refine ⟨h.known r hmem, ?_, ?_, ?_⟩
  · intro cur hcur _
    obtain rfl : cur = r := Option.some.inj (hcur.symm.trans hget)
    rw [hdec]
    exact ⟨hlt, hlt⟩
  · intro _ cur hcur _
    obtain rfl : cur = r := Option.some.inj (hcur.symm.trans hget)
    rw [hdec]
    exact ⟨Nat.le_refl _, fun hcause _ => .inl (hretry hcause)⟩
  · intro hcause e he hec heq hg
    rw [hdec] at hg ⊢
    exact hfresh hcause r hget e he hec heq hg

end Runtime

/-! ## The phases of an evaluation -/

theorem Phase.Held.mono {history history' : List GoalState} {p : Phase} (h : p.Held history)
    (hs : ∀ x ∈ history, x ∈ history') : p.Held history' := by
  cases p with
  | start => trivial
  | abort state => exact ⟨hs _ h.1, h.2⟩
  | compaction state => exact hs _ h
  | failure state reason => exact hs _ h
  | barrier state => exact hs _ h
  | release state waiting => exact ⟨hs _ h.1, hs _ h.2.1, h.2.2⟩
  | reread state => exact hs _ h
  | consume state => exact hs _ h
  | gate state index => exact ⟨hs _ h.1, h.2⟩
  | exhausted state command => exact ⟨hs _ h.1, h.2⟩
  | judgeRead gated => trivial
  | judge gated state => exact hs _ h
  | lost reason => trivial
  | returned d => trivial
  | raised err => trivial

namespace Phase.Fits

variable {cause : Cause}

theorem stop {d : GoalDecision} (h : d.shouldContinue = false) : (Phase.returned d).Fits w cause := by
  refine ⟨trivial, fun hc => (by cases hc), fun hc => (by cases hc), fun _ hc => (by cases hc), ?_⟩
  intro d' hd hcont
  cases hd
  rw [h] at hcont
  cases hcont

theorem lost (reason : String) : (Phase.lost reason).Fits w cause :=
  ⟨trivial, fun hc => (by cases hc), fun hc => (by cases hc), fun _ hc => (by cases hc), fun _ hc => (by cases hc)⟩

theorem raised (err : GoalError) : (Phase.raised err).Fits w cause :=
  ⟨trivial, fun hc => (by cases hc), fun hc => (by cases hc), fun _ hc => (by cases hc), fun _ hc => (by cases hc)⟩

/-- A phase in which a turn is judged, and not yet charged. -/
theorem uncharged {p : Phase} (hheld : p.Held w.store.history) (hp : p.judging = true) (hc : p.charged = false)
    (hcause : cause = .judged) : p.Fits w cause := by
  refine ⟨hheld, ?_, fun _ => hcause, ?_, ?_⟩
  · rw [hc]
    intro h
    cases h
  · intro state h
    rw [h] at hp
    cases hp
  · intro d h
    rw [h] at hp
    cases hp

theorem of_charged {p : Phase} (hheld : p.Held w.store.history) (hp : p.charged = true) (hf : w.Fresh .judged)
    (hcause : cause = .judged) : p.Fits w cause := by
  refine ⟨hheld, fun _ => hf, fun _ => hcause, ?_, ?_⟩
  · intro state h
    rw [h] at hp
    cases hp
  · intro d h
    rw [h] at hp
    cases hp

end Phase.Fits

/-! ## The steps of the worker -/

namespace Runtime

variable {w' : Runtime} {cause : Cause} {e : Evaluation} {x : Input} {task : Evaluation → Task}

theorem Control.fits (hc : Control w w') (h : w.Base) (hdec : w'.decided = w.decided) {p : Phase} (hp : p.Fits w cause) :
    p.Fits w' cause :=
  ⟨hp.held.mono fun _ => hc.mem, fun hch => hc.fresh h (hp.charged hch), hp.judging, hp.retry,
    fun d hd => hc.good h hdec (hp.good d hd)⟩

/-- A step that leaves the store. -/
theorem Base.stay (h : w.Base) (hstore : w'.store = w.store) (hstarts : w'.starts = w.starts) (hids : w'.ids = w.ids)
    (hres : w'.resumes = w.resumes) (hdec : w'.decided.1 ≤ w'.resumes) : w'.Base :=
  Control.base (.stay hstore hstarts hids hres) h hdec

/-- The state after a step of an evaluation, and where the evaluation is then. -/
def Keeps (w : Runtime) (task : Evaluation → Task) (cause : Cause) (r : GoalStore × Evaluation) : Prop :=
  (w.took r task).Base ∧ r.2.phase.Fits (w.took r task) cause

theorem Base.goto (h : w.Base) {p : Phase} (hp : ∀ w' : Runtime, w'.store = w.store → w'.Fresh .judged = w.Fresh .judged → p.Fits w' cause) :
    Keeps w task cause (e.goto w.store p) :=
  ⟨h.stay rfl rfl rfl rfl (Nat.le_refl _), hp _ rfl rfl⟩

/-- A commit that charges no turn. -/
theorem Base.commit (h : w.Base) {now : Int} {base : GoalState} (hbase : base ∈ w.store.history)
    {mutation : GoalState → Except GoalError GoalState} {next : GoalState → Phase} {conflict : Phase}
    (hquiet : ∀ u, mutation base = .ok u → Quiet base u)
    (hnext : ∀ u w', w.store.get = some base → mutation base = .ok u → Control w w' → w'.Base →
      w'.store.get = some (w.store.committed now u) → w'.decided = (w'.resumes, (w.store.committed now u).turnsUsed) →
      (next (w.store.committed now u)).Fits w' cause)
    (hconf : ∀ w' : Runtime, w'.store = w.store → conflict.Fits w' cause) :
    Keeps w task cause (e.commit now w.store base mutation next conflict) := by
  rcases Evaluation.commit_cases h.ordered e now hbase mutation next conflict with ⟨p, hp, hc⟩ | ⟨u, hget, hu, hc⟩
  · rw [hc]
    refine h.goto fun w' hw _ => ?_
    rcases hp with rfl | ⟨err, rfl⟩
    · exact hconf w' hw
    · exact .raised err
  · rw [hc]
    have hcontrol (e' : Evaluation) : Control w (w.took (w.store.push (w.store.committed now u), e') task) :=
      h.quiet hget (hquiet u hu) rfl rfl rfl rfl
    have hb (e' : Evaluation) := (hcontrol e').base h (Nat.le_refl _)
    exact ⟨hb _, hnext u _ hget hu (hcontrol _) (hb _) rfl rfl⟩

/-- No retry was started at the count of a goal whose context has not failed since. -/
theorem Base.fresh_retry (h : w.Base) (hget : w.store.get = some cur) (hact : cur.status = .active)
    (hzero : cur.consecutiveCompactionFailures = 0) : w.Fresh .retry := by
  intro c hc s hs hcause heq hg hused
  obtain rfl : c = cur := Option.some.inj (Eq.trans hc.symm hget)
  rcases h.retried c hget s hs hcause heq hg hused with hpos | hcl
  · omega
  · rw [hact] at hcl
    cases hcl

theorem judgeDecision_continue {result : GoalJudgeResult} {c : GoalState}
    (h : (Evaluation.judgeDecision result c).shouldContinue = true) :
    c.status ≠ .done ∧ c.status ≠ .paused ∧ result.verdict ≠ .wait ∧ (Evaluation.judgeDecision result c).goalId = some c.goalId := by
  unfold Evaluation.judgeDecision at h ⊢
  split_ifs at h ⊢ with h1 h2 h3 h4
  · cases h
  · cases h
  · cases h
  · cases h
  · exact ⟨h1, h3, h4, rfl⟩

theorem compactionDecision_continue {c : GoalState} (h : (Evaluation.compactionDecision c).shouldContinue = true) :
    c.status ≠ .paused ∧ (Evaluation.compactionDecision c).goalId = some c.goalId := by
  unfold Evaluation.compactionDecision at h ⊢
  split_ifs at h ⊢ with h1
  · cases h
  · exact ⟨h1, rfl⟩

theorem afterBarrier_fits {state : GoalState} {waiting : Option GoalState} (hstate : state ∈ w.store.history)
    (hw : ∀ r ∈ waiting, r ∈ w.store.history) (hcause : cause = .judged) :
    (Evaluation.afterBarrier state waiting).Fits w cause := by
  unfold Evaluation.afterBarrier
  split
  · exact .uncharged hstate rfl rfl hcause
  · next r =>
    split_ifs
    · exact .stop rfl
    · exact .uncharged (hw r rfl) rfl rfl hcause

theorem nextGate_fits {state : GoalState} {index : Nat} (hmem : state ∈ w.store.history) (hact : state.status = .active)
    (hf : w.Fresh .judged) (hcause : cause = .judged) : (Evaluation.nextGate state index).Fits w cause := by
  unfold Evaluation.nextGate
  split_ifs
  · exact .of_charged ⟨hmem, hact⟩ rfl hf hcause
  · exact .of_charged trivial rfl hf hcause

/-- A gate's run: the next gate, or a failure that looks at the budget. -/
theorem afterGate_fits (h : w.Base) {index : Nat} {result : GateResult} (hget : w.store.get = some r)
    (hdec : w.decided = (w.resumes, r.turnsUsed)) (hact : r.status = .active ∨ result.passed = false ∧ r.status = .paused)
    (hf : w.Fresh .judged) (hcause : cause = .judged) : (Evaluation.afterGate index result r).Fits w cause := by
  have hmem := GoalStore.mem_of_get hget
  unfold Evaluation.afterGate
  split_ifs with hpass hpaused hbudget
  · obtain hact | ⟨hno, _⟩ := hact
    · exact nextGate_fits hmem hact hf hcause
    · rw [hpass] at hno
      cases hno
  · exact .stop rfl
  · obtain hact | ⟨_, hp⟩ := hact
    · exact .of_charged ⟨hmem, hact⟩ rfl hf hcause
    · exact absurd hp hpaused
  · refine ⟨trivial, fun hc => (by cases hc), fun hc => (by cases hc), fun _ hc => (by cases hc), ?_⟩
    intro d hd _ g hg
    cases hd
    obtain rfl : r.goalId = g := Option.some.inj hg
    subst hcause
    exact h.ready hget hdec (by omega) (fun _ => hf) fun hc => (by cases hc)

theorem Base.advance_start (h : w.Base) (hph : e.phase = .start)
    (hcause : cause = if e.turn.compactionFailed then .retry else .judged) :
    Keeps w task cause (e.advance x.toSurroundings w.store) := by
  unfold Evaluation.advance
  rw [hph]
  dsimp only
  refine h.goto fun w' hw _ => ?_
  unfold Evaluation.begin_
  split
  · exact .stop rfl
  · next state hget =>
    have hmem : state ∈ w'.store.history := by
      rw [hw]
      exact GoalStore.mem_of_get hget
    split_ifs with hact hother hab hcomp hfail
    · exact .stop rfl
    · exact .stop rfl
    · refine ⟨⟨hmem, ?_⟩, fun hc => (by cases hc), fun hc => (by cases hc), fun _ hc => (by cases hc), fun _ hc => (by cases hc)⟩
      exact isActive_iff.1 (by simpa using hact)
    · refine ⟨hmem, fun hc => (by cases hc), fun hc => (by cases hc), fun _ _ => ?_, fun _ hc => (by cases hc)⟩
      rw [hcause, if_pos hcomp]
    · exact ⟨hmem, fun hc => (by cases hc), fun hc => (by cases hc), fun _ hc => (by cases hc), fun _ hc => (by cases hc)⟩
    · refine .uncharged hmem rfl rfl ?_
      rw [hcause, if_neg hcomp]

/-- A failed compaction retries only where a turn is left. -/
theorem Base.advance_compaction (h : w.Base) (hp : e.phase.Fits w cause) {state : GoalState} (hph : e.phase = .compaction state)
    (hleft : state.consecutiveCompactionFailures + 1 < maxCompactionFailures → state.turnsUsed < state.maxTurns) :
    Keeps w task cause (e.advance x.toSurroundings w.store) := by
  have hheld := hp.held
  rw [hph] at hheld
  unfold Evaluation.advance
  rw [hph]
  dsimp only
  refine h.commit hheld ?_ ?_ fun _ _ => .lost _
  · intro u hu
    obtain ⟨_, hsame, hused, hcount, _⟩ := recordCompactionFailure_ok hu
    exact ⟨hsame.goalId, hsame.maxTurns, hused, fun _ => .inl (by omega)⟩
  · intro u w' hget hu hc hb hget' hdec
    obtain ⟨hact, hsame, hused, hcount, hst⟩ := recordCompactionFailure_ok hu
    refine ⟨trivial, fun hc => (by cases hc), fun hc => (by cases hc), fun _ hc => (by cases hc), ?_⟩
    intro d hd hcont g hg
    cases hd
    obtain ⟨hnp, hid⟩ := compactionDecision_continue hcont
    rw [hid] at hg
    obtain rfl := Option.some.inj hg
    -- The first failure: no retry was started at this count, and a turn is left.
    obtain ⟨_, hzero⟩ | hpaused := hst
    · have hlt := hleft (by unfold maxCompactionFailures; omega)
      have hturns := (h.normal state hheld).turns
      have hr := hp.retry state hph
      subst hr
      refine hb.ready hget' hdec ?_ (fun _ => hc.fresh h (h.fresh_retry hget hact hzero)) fun _ => ?_
      · unfold GoalStore.committed
        rw [GoalState.clone_turnsUsed, GoalState.clone_maxTurns]
        show min 1000000 u.turnsUsed < u.maxTurns
        rw [hused, hsame.maxTurns]
        omega
      · unfold GoalStore.committed
        rw [GoalState.clone_compaction]
        show 0 < min 1000000 u.consecutiveCompactionFailures
        omega
    · exact absurd hpaused hnp

theorem Base.advance_barrier (h : w.Base) (hp : e.phase.Fits w cause) {state : GoalState} (hph : e.phase = .barrier state) :
    Keeps w task cause (e.advance x.toSurroundings w.store) := by
  have hheld := hp.held
  rw [hph] at hheld
  unfold Evaluation.advance
  rw [hph]
  dsimp only
  have hj := hp.judging (by rw [hph]; rfl)
  refine h.goto fun w' hw _ => ?_
  have hmem : state ∈ w'.store.history := by
    rw [hw]
    exact hheld
  unfold Evaluation.readBarrier
  split
  · exact .uncharged hmem rfl rfl hj
  · next waiting hget =>
    split_ifs with hno
    · exact .uncharged hmem rfl rfl hj
    · exact .stop rfl
    · refine .uncharged ⟨hmem, ?_, ?_⟩ rfl rfl hj
      · rw [hw]
        exact GoalStore.mem_of_get hget
      · exact isActive_iff.1 (by simpa using (not_or.1 hno).1)

theorem Base.advance_release (h : w.Base) (hp : e.phase.Fits w cause) {state waiting : GoalState} (hph : e.phase = .release state waiting) :
    Keeps w task cause (e.advance x.toSurroundings w.store) := by
  have hheld := hp.held
  rw [hph] at hheld
  unfold Evaluation.advance
  rw [hph]
  dsimp only
  obtain ⟨hstate, hmem, hact⟩ := hheld
  have hj := hp.judging (by rw [hph]; rfl)
  refine h.commit hmem ?_ ?_ ?_
  · intro u hu
    cases hu
    exact .of_same ⟨⟨rfl, rfl, rfl⟩, rfl, rfl⟩ hact
  · intro u w' _ _ hc _ hget' _
    refine afterBarrier_fits (hc.mem hstate) ?_ hj
    intro r hr
    obtain rfl := Option.some.inj hr
    exact GoalStore.mem_of_get hget'
  · intro w' hw
    refine .uncharged ?_ rfl rfl hj
    rw [hw]
    exact hstate

/-- The one step that charges a turn. -/
theorem Base.advance_consume (h : w.Base) (hp : e.phase.Fits w cause) {state : GoalState} (hph : e.phase = .consume state) :
    Keeps w task cause (e.advance x.toSurroundings w.store) := by
  have hheld := hp.held
  rw [hph] at hheld
  unfold Evaluation.advance
  rw [hph]
  dsimp only
  have hj := hp.judging (by rw [hph]; rfl)
  rcases Evaluation.commit_cases h.ordered e x.now hheld (consumeTurn x.now e.turn.runId)
    (fun r => Evaluation.nextGate r 0) (.lost "goal changed") with ⟨p, hpp, hc⟩ | ⟨u, hget, hu, hc⟩
  · rw [hc]
    refine h.goto fun w' hw _ => ?_
    rcases hpp with rfl | ⟨err, rfl⟩
    · exact .lost _
    · exact .raised err
  · rw [hc]
    obtain ⟨hact, rfl⟩ := consumeTurn_ok.1 hu
    have hcharge (u : GoalState) (e' : Evaluation) (hid : u.goalId = state.goalId) (hmax : u.maxTurns = state.maxTurns)
        (hused : u.turnsUsed = state.turnsUsed + 1) :
        (w.took (w.store.push (w.store.committed x.now u), e') task).Base ∧
          (w.took (w.store.push (w.store.committed x.now u), e') task).Fresh .judged :=
      h.charge hget hid hmax hused rfl rfl rfl rfl (Nat.le_refl _)
    refine ⟨(hcharge _ _ ?_ ?_ ?_).1, nextGate_fits List.mem_cons_self hact (hcharge _ _ ?_ ?_ ?_).2 hj⟩ <;> rfl

theorem Base.advance_gate (h : w.Base) (hp : e.phase.Fits w cause) {state : GoalState} {index : Nat} (hph : e.phase = .gate state index) :
    Keeps w task cause (e.advance x.toSurroundings w.store) := by
  have hheld := hp.held
  rw [hph] at hheld
  unfold Evaluation.advance
  rw [hph]
  dsimp only
  obtain ⟨hmem, hact⟩ := hheld
  have hj := hp.judging (by rw [hph]; rfl)
  have hf := hp.charged (by rw [hph]; rfl)
  split
  · exact h.goto fun w' hw hfr => .of_charged trivial rfl (by rw [hfr]; exact hf) hj
  · next gate hgate =>
    refine h.commit hmem (fun u hu => .of_same (applyGate_ok hu).1 hact) ?_ fun _ _ => .lost _
    intro u w' _ hu hc hb hget' hdec
    refine afterGate_fits hb hget' hdec ?_ (hc.fresh h hf) hj
    refine (applyGate_ok hu).2.imp_left fun hst => ?_
    exact hst.trans hact

theorem Base.advance_judgeRead (h : w.Base) (hp : e.phase.Fits w cause) {gated : GoalState} (hph : e.phase = .judgeRead gated) :
    Keeps w task cause (e.advance x.toSurroundings w.store) := by
  unfold Evaluation.advance
  rw [hph]
  dsimp only
  have hj := hp.judging (by rw [hph]; rfl)
  have hf := hp.charged (by rw [hph]; rfl)
  split
  · exact h.goto fun _ _ _ => .stop rfl
  · next state hget =>
    split_ifs
    · exact h.goto fun _ _ _ => .stop rfl
    · refine h.goto fun w' hw hfr => .of_charged ?_ rfl (by rw [hfr]; exact hf) hj
      show state ∈ w'.store.history
      rw [hw]
      exact GoalStore.mem_of_get hget

theorem Base.advance_judge (h : w.Base) (hp : e.phase.Fits w cause) {gated state : GoalState} (hph : e.phase = .judge gated state) :
    Keeps w task cause (e.advance x.toSurroundings w.store) := by
  have hheld := hp.held
  rw [hph] at hheld
  unfold Evaluation.advance
  rw [hph]
  dsimp only
  have hj := hp.judging (by rw [hph]; rfl)
  have hf := hp.charged (by rw [hph]; rfl)
  refine h.commit hheld ?_ ?_ fun _ _ => .lost _
  · intro u hu
    obtain ⟨hact, hsame, _⟩ := applyJudgeResult_ok hu
    exact .of_same hsame hact
  · intro u w' _ hu hc hb hget' hdec
    obtain ⟨hact, hsame, _, hbudget⟩ := applyJudgeResult_ok hu
    refine ⟨trivial, fun hc => (by cases hc), fun hc => (by cases hc), fun _ hc => (by cases hc), ?_⟩
    intro d hd hcont g hg
    cases hd
    obtain ⟨hnd, hnp, hnw, hid⟩ := judgeDecision_continue hcont
    rw [hid] at hg
    obtain rfl := Option.some.inj hg
    subst hj
    refine hb.ready hget' hdec ?_ (fun _ => hc.fresh h hf) fun hc => (by cases hc)
    unfold GoalStore.committed
    rw [GoalState.clone_turnsUsed, GoalState.clone_maxTurns]
    show min 1000000 u.turnsUsed < u.maxTurns
    have := (hbudget hnd hnp).resolve_left hnw
    omega

/-- What a step of an evaluation keeps. -/
theorem Base.advance (h : w.Base) (hp : e.phase.Fits w cause)
    (hcause : cause = if e.turn.compactionFailed then .retry else .judged)
    (hleft : ∀ state, e.phase = .compaction state → state.consecutiveCompactionFailures + 1 < maxCompactionFailures →
      state.turnsUsed < state.maxTurns)
    (hgo : (∀ d, e.phase ≠ .returned d) ∧ ∀ err, e.phase ≠ .raised err) :
    Keeps w task cause (e.advance x.toSurroundings w.store) := by
  have hheld := hp.held
  cases hph : e.phase with
  | start => exact h.advance_start hph hcause
  | compaction state => exact h.advance_compaction hp hph (hleft state hph)
  | barrier state => exact h.advance_barrier hp hph
  | release state waiting => exact h.advance_release hp hph
  | consume state => exact h.advance_consume hp hph
  | gate state index => exact h.advance_gate hp hph
  | judgeRead gated => exact h.advance_judgeRead hp hph
  | judge gated state => exact h.advance_judge hp hph
  | returned d => exact absurd hph (hgo.1 d)
  | raised err => exact absurd hph (hgo.2 err)
  | abort state =>
    rw [hph] at hheld
    unfold Evaluation.advance
    rw [hph]
    dsimp only
    refine h.commit hheld.1 ?_ (fun _ _ _ _ _ _ _ _ => .stop rfl) fun _ _ => .lost _
    intro u hu
    cases hu
    exact .of_same (pauseState_same state _) hheld.2
  | failure state reason =>
    rw [hph] at hheld
    unfold Evaluation.advance
    rw [hph]
    dsimp only
    refine h.commit hheld ?_ (fun _ _ _ _ _ _ _ _ => .stop rfl) fun _ _ => .lost _
    intro u hu
    refine .of_same (recordTurnFailure_ok hu).1 ?_
    simp only [recordTurnFailure, Flowly.Lib.Checked.guard_ok, Bool.not_eq_true', Bool.not_eq_false, isActive_iff] at hu
    exact hu.1
  | reread state =>
    rw [hph] at hheld
    unfold Evaluation.advance
    rw [hph]
    dsimp only
    have hj := hp.judging (by rw [hph]; rfl)
    refine h.goto fun w' hw _ => afterBarrier_fits ?_ ?_ hj
    · rw [hw]
      exact hheld
    · intro r hr
      rw [hw]
      exact GoalStore.mem_of_get hr
  | exhausted state command =>
    rw [hph] at hheld
    unfold Evaluation.advance
    rw [hph]
    dsimp only
    refine h.commit hheld.1 ?_ (fun _ _ _ _ _ _ _ _ => .stop rfl) fun _ _ => .lost _
    intro u hu
    cases hu
    exact .of_same (pauseState_same state _) hheld.2
  | lost reason =>
    unfold Evaluation.advance
    rw [hph]
    exact h.goto fun _ _ _ => .stop rfl

theorem Control.taskFits (hc : Control w w') (h : w.Base) (hdec : w'.decided = w.decided) {k : Task} (hok : w.TaskFits k) :
    w'.TaskFits k := by
  cases k with
  | idle => trivial
  | turn t => trivial
  | park session reason => trivial
  | evaluating t e => exact ⟨hc.fits h hdec hok.1, hok.2⟩
  | decided t d => exact hc.good h hdec hok
  | next g epoch cause => exact fun hcause => hc.ready h hdec (hok hcause)
  | running g epoch revision => trivial
  | failing e => exact ⟨hc.fits h hdec hok.1, hok.2⟩
  | wakeRead => trivial
  | wakeClear waiting => exact ⟨hc.mem hok.1, hok.2⟩
  | wakeReread => trivial
  | wakeGet => trivial
  | resumed state =>
    refine ⟨hc.mem hok.1, ?_⟩
    intro x hx hid'
    cases hc with
    | stay hstore =>
      rw [hstore] at hx
      exact hok.2 x hx hid'
    | within cur r hget hp hids hres hid hmax hused hcomp =>
      obtain rfl := hp.get hx
      rw [hused]
      exact hok.2 cur hget (hid.symm.trans hid')
    | resume cur r hget hp hids hres hid hmax hused | set r hp hids hres hnew hused =>
      obtain rfl := hp.get hx
      omega

/-- A control of the user. -/
theorem operate_control (h : w.Base) {o : Outside} {op : Operation} (hf : w.fits (.operate o op)) :
    Control w (w.operate o op) ∧ (w.operate o op).task = w.task ∧ (w.operate o op).decided = w.decided := by
  unfold operate
  rcases hrun : op.run o w.store with err | ⟨r, s'⟩
  · exact ⟨.stay rfl rfl rfl rfl, rfl, rfl⟩
  · obtain ⟨u, heff, rfl, rfl⟩ := Operation.run_ok hrun
    have hord := h.ordered.push_committed o.now u
    generalize hget : w.store.get = current at heff
    cases heff with
    | set hid hused hmax =>
      have hturns : (w.store.committed o.now u).turnsUsed = 0 := by
        unfold GoalStore.committed
        rw [GoalState.clone_turnsUsed]
        show min 1000000 u.turnsUsed = 0
        omega
      refine ⟨.set (w.store.committed o.now u) ⟨rfl, rfl, hord, ?_, hmax⟩ ?_ rfl ?_ hturns, rfl, rfl⟩
      · omega
      · show _ = u.goalId :: w.ids
        rw [hid]
      · show u.goalId ∉ w.ids
        rw [hid]
        exact hf
    | resume hid hmax hused =>
      refine ⟨.resume _ _ hget ⟨rfl, rfl, hord, h.committed_normal hget hmax⟩ rfl rfl hid hmax ?_, rfl, rfl⟩
      unfold GoalStore.committed
      rw [GoalState.clone_turnsUsed]
      show min 1000000 u.turnsUsed = 0
      omega
    | clear hid hmax hused hst =>
      exact ⟨h.quiet hget ⟨hid, hmax, hused, fun _ => .inr hst⟩ rfl rfl rfl rfl, rfl, rfl⟩
    | within hkeeps hwithin =>
      have hquiet := Quiet.of_within hwithin
      cases op with
      | set => cases hkeeps
      | resume => cases hkeeps
      | clear => cases hkeeps
      | pause | resumeForUserInput | attachContract | addSubgoal | removeSubgoal | clearSubgoals | addGate
      | removeGate | clearGates | waitOn | stopWaiting | waitingState =>
        exact ⟨h.quiet hget hquiet rfl rfl rfl rfl, rfl, rfl⟩

/-- A turn is started. -/
theorem Base.start (h : w.Base) {g : String} {epoch : Nat} (hok : cause ≠ .kickoff → w.Ready cause g) :
    (w.runNext g epoch cause).Base ∧ (w.runNext g epoch cause).TaskOk := by
  unfold runNext
  split_ifs
  · exact ⟨h.stay rfl rfl rfl rfl h.decidedLe, trivial⟩
  · split
    · exact ⟨h.stay rfl rfl rfl rfl h.decidedLe, trivial⟩
    · next cur hget =>
      split_ifs with hno
      · exact ⟨h.stay rfl rfl rfl rfl h.decidedLe, trivial⟩
      · have hid : cur.goalId = g := by
          by_contra hne
          exact hno (.inr hne)
        refine ⟨⟨h.ordered, h.normal, h.known, h.budgets, ?_, ?_, ?_, ?_, ?_, h.decidedLe⟩, trivial⟩
        · intro e he
          rcases List.mem_cons.1 he with rfl | he
          · exact ⟨h.decidedLe, cur, GoalStore.mem_of_get hget, hid, rfl⟩
          · exact h.started e he
        · intro c hc e he hcause heq hg
          obtain rfl : c = cur := Option.some.inj (Eq.trans hc.symm hget)
          rcases List.mem_cons.1 he with rfl | he
          · exact ((hok hcause).since hg c hget hid).1
          · exact h.upTo c hget e he hcause heq hg
        · intro c hc e he hcause heq hg hused
          obtain rfl : c = cur := Option.some.inj (Eq.trans hc.symm hget)
          rcases List.mem_cons.1 he with rfl | he
          · exact ((hok (by rw [show cause = .retry from hcause]; intro h; cases h)).since hg c hget hid).2 hcause hused
          · exact h.retried c hget e he hcause heq hg hused
        · intro e he hcause
          rcases List.mem_cons.1 he with rfl | he
          · exact (hok hcause).left cur hget hid
          · exact h.inBudget e he hcause
        · refine List.pairwise_cons.2 ⟨?_, h.distinct⟩
          intro e he hcause heq
          simp only [Prod.mk.injEq] at heq
          obtain ⟨hc, hg, hgr, hused⟩ := heq
          have hk : cause ≠ .kickoff ∧ cause ≠ .wake := by
            change cause = .judged ∨ cause = .retry at hcause
            rcases hcause with rfl | rfl
            · exact ⟨fun h => (by cases h), fun h => (by cases h)⟩
            · exact ⟨fun h => (by cases h), fun h => (by cases h)⟩
          exact (hok hk.1).fresh hk.2 e he hc.symm hg.symm hgr.symm hused.symm

/-- The evaluation that a delivered turn begins with. -/
theorem afterTurn_ok (w : Runtime) (x : Input) (t : DeliveredGoalTurn) : w.TaskFits (w.afterTurn x t) := by
  unfold afterTurn
  split
  · trivial
  · next state _ =>
    split_ifs
    · trivial
    · trivial
    · trivial
    · trivial
    · exact ⟨⟨trivial, fun hc => (by cases hc), fun hc => (by cases hc), fun _ hc => (by cases hc), fun _ hc => (by cases hc)⟩, rfl⟩

theorem afterDecision_ok {t : DeliveredGoalTurn} {d : GoalDecision} (hg : w.Good (causeOf t) d) :
    w.TaskFits (afterDecision t d) := by
  unfold afterDecision
  split_ifs
  · trivial
  · trivial
  · split
    · next hcont hid => exact fun _ => hg hcont _ hid
    · trivial

/-- The record in the store is one to go on with. -/
theorem resumed_fits (hget : w.store.get = some cur) : w.TaskFits (.resumed cur) := by
  refine ⟨GoalStore.mem_of_get hget, ?_⟩
  intro c hc _
  obtain rfl : c = cur := Option.some.inj (Eq.trans hc.symm hget)
  exact Nat.le_refl _

/-- An evaluation that is not over takes its step. -/
theorem Base.evaluate (h : w.Base) (hp : e.phase.Fits w cause)
    (hcause : cause = if e.turn.compactionFailed then .retry else .judged)
    (hleft : ∀ state, e.phase = .compaction state → state.consecutiveCompactionFailures + 1 < maxCompactionFailures →
      state.turnsUsed < state.maxTurns)
    (hnd : ∀ d, e.phase = .returned d → False) (hnr : ∀ err, e.phase = .raised err → False) :
    Keeps w task cause (e.advance x.toSurroundings w.store) :=
  h.advance hp hcause hleft ⟨fun d hd => hnd d hd, fun err he => hnr err he⟩

/-- A wake-up that goes on. -/
theorem Base.resumeWait (h : w.Base) {state : GoalState} (hok : w.TaskFits (.resumed state))
    (hleft : state.isActive = true → state.hasWait = false → state.turnsUsed < state.maxTurns)
    (hstore : w'.store = w.store) (hids : w'.ids = w.ids)
    (hdec : w'.decided = (w.resumes, (w.store.get.map GoalState.turnsUsed).getD 0)) : w'.TaskFits (w.resumeWait state) := by
  have hthen {cur : GoalState} (hcur : cur ∈ w.store.get) : w'.decided.2 = cur.turnsUsed := by
    rw [hdec, show w.store.get = some cur from hcur]
    rfl
  unfold Runtime.resumeWait
  split_ifs with hno
  · trivial
  · obtain ⟨hact, hwait⟩ := not_or.1 hno
    have hlt := hleft (by simpa using hact) (by simpa using hwait)
    intro _
    refine ⟨?_, ?_, ?_, fun hc => absurd rfl hc⟩
    · rw [hids]
      exact h.known state hok.1
    · intro cur hcur hid
      rw [hstore] at hcur
      have hle := hok.2 cur hcur hid
      rw [hthen hcur, h.budgets cur (GoalStore.mem_of_get hcur) state hok.1 hid]
      omega
    · intro _ cur hcur hid
      rw [hstore] at hcur
      exact ⟨Nat.le_of_eq (hthen hcur), fun hc => (by cases hc)⟩

/-- The worker goes on with another task. -/
theorem Base.goOn (h : w.Base) {k : Task} {q : List Work} (hk : w.TaskFits k) :
    Base { w with queue := q, task := k } ∧ TaskOk { w with queue := q, task := k } := by
  have hc : Control w { w with queue := q, task := k } := .stay rfl rfl rfl rfl
  exact ⟨hc.base h h.decidedLe, hc.taskFits h rfl hk⟩

theorem Base.work_idle (h : w.Base) (ht : w.task = .idle) : (w.work x).Base ∧ (w.work x).TaskOk := by
  unfold Runtime.work
  rw [ht]
  dsimp only
  split
  · refine ⟨h, ?_⟩
    unfold TaskOk
    rw [ht]
    trivial
  · exact h.goOn trivial
  · exact h.goOn fun hc => absurd rfl hc
  · exact h.goOn trivial

/-- Parking is a control like the user's. -/
theorem Base.work_park (h : w.Base) {session reason : String} (ht : w.task = .park session reason) :
    (w.work x).Base ∧ (w.work x).TaskOk := by
  have hwait : { w.operate x.toOutside (.waitOn (.session session) reason) with task := .idle } =
      { w with store := (Operation.waitOn (.session session) reason).apply x.toOutside w.store, task := .idle } := by
    unfold operate Operation.apply
    rcases Operation.run x.toOutside (.waitOn (.session session) reason) w.store with err | ⟨r, s'⟩ <;> rfl
  have hfits : w.fits (.operate x.toOutside (.waitOn (.session session) reason)) := trivial
  obtain ⟨hc, _, hdec⟩ := operate_control h hfits
  have hb : (w.operate x.toOutside (.waitOn (.session session) reason)).Base := by
    refine hc.base h ?_
    rw [hdec]
    cases hc with
    | stay _ _ _ hres => rw [hres]; exact h.decidedLe
    | within _ _ _ _ _ hres => rw [hres]; exact h.decidedLe
    | resume _ _ _ _ _ hres => rw [hres]; exact Nat.le_succ_of_le h.decidedLe
    | set _ _ _ hres => rw [hres]; exact h.decidedLe
  unfold Runtime.work
  rw [ht]
  dsimp only
  rw [← hwait]
  exact ⟨hb.stay rfl rfl rfl rfl hb.decidedLe, trivial⟩

theorem Base.work_evaluating (h : w.Base) (hok : w.TaskOk) (hleft : w.TurnLeft (.work x)) {t : DeliveredGoalTurn} {e : Evaluation}
    (ht : w.task = .evaluating t e) : (w.work x).Base ∧ (w.work x).TaskOk := by
  unfold TaskOk at hok
  unfold TurnLeft at hleft
  rw [ht] at hok hleft
  obtain ⟨hp, hcomp⟩ := hok
  dsimp only at hleft
  unfold Runtime.work
  rw [ht]
  dsimp only
  split
  · next d hd => exact h.goOn (hp.good d hd)
  · exact h.goOn trivial
  · next hnd hnr =>
    have hcause : causeOf t = if e.turn.compactionFailed then .retry else .judged := by
      rw [hcomp]
      rfl
    have hturns : ∀ state, e.phase = .compaction state →
        state.consecutiveCompactionFailures + 1 < maxCompactionFailures → state.turnsUsed < state.maxTurns := by
      intro state hph
      rw [hph] at hleft
      exact hleft
    obtain ⟨hb, hf⟩ := h.evaluate hp hcause hturns hnd hnr
    exact ⟨hb, hf, (congrArg Turn.compactionFailed (World.advance_turn ..)).trans hcomp⟩

theorem Base.work_failing (h : w.Base) (hok : w.TaskOk) {e : Evaluation} (ht : w.task = .failing e) :
    (w.work x).Base ∧ (w.work x).TaskOk := by
  unfold TaskOk at hok
  rw [ht] at hok
  obtain ⟨hp, hcomp⟩ := hok
  unfold Runtime.work
  rw [ht]
  dsimp only
  split
  · exact h.goOn trivial
  · exact h.goOn trivial
  · next hnd hnr =>
    have hcause : Cause.judged = if e.turn.compactionFailed then .retry else .judged := by
      rw [hcomp]
      rfl
    obtain ⟨hb, hf⟩ := h.evaluate hp hcause (fun state hph => (by cases hp.retry state hph)) hnd hnr
    exact ⟨hb, hf, (congrArg Turn.compactionFailed (World.advance_turn ..)).trans hcomp⟩

theorem Base.work_wakeClear (h : w.Base) (hok : w.TaskOk) {waiting : GoalState} (ht : w.task = .wakeClear waiting) :
    (w.work x).Base ∧ (w.work x).TaskOk := by
  unfold TaskOk at hok
  rw [ht] at hok
  unfold Runtime.work
  rw [ht]
  dsimp only
  split
  · next r s' hc =>
    obtain ⟨hget, u, hu, rfl, rfl⟩ := h.ordered.compareAndUpdate hok.1 hc
    cases hu
    have hquiet : Quiet waiting waiting.clearWait := .of_same ⟨⟨rfl, rfl, rfl⟩, rfl, rfl⟩ hok.2
    have hcontrol : Control w { w with store := w.store.push (w.store.committed x.now waiting.clearWait),
                                       task := .resumed (w.store.committed x.now waiting.clearWait) } :=
      h.quiet hget hquiet rfl rfl rfl rfl
    exact ⟨hcontrol.base h h.decidedLe, resumed_fits rfl⟩
  · exact h.goOn trivial
  · exact h.goOn trivial

/-- One step of the worker. -/
theorem Base.work (h : w.Base) (hok : w.TaskOk) (hleft : w.TurnLeft (.work x)) : (w.work x).Base ∧ (w.work x).TaskOk := by
  cases ht : w.task with
  | idle => exact h.work_idle ht
  | park session reason => exact h.work_park ht
  | evaluating t e => exact h.work_evaluating hok hleft ht
  | failing e => exact h.work_failing hok ht
  | wakeClear waiting => exact h.work_wakeClear hok ht
  | turn t =>
    unfold Runtime.work
    rw [ht]
    exact h.goOn (afterTurn_ok w x t)
  | decided t d =>
    unfold TaskOk at hok
    rw [ht] at hok
    unfold Runtime.work
    rw [ht]
    exact h.goOn (afterDecision_ok hok)
  | next g epoch cause =>
    unfold TaskOk at hok
    rw [ht] at hok
    unfold Runtime.work
    rw [ht]
    exact h.start hok
  | running g epoch revision =>
    unfold Runtime.work
    rw [ht]
    dsimp only
    split
    · split_ifs
      · exact h.goOn trivial
      · exact h.goOn ⟨⟨trivial, fun hc => (by cases hc), fun hc => (by cases hc), fun _ hc => (by cases hc), fun _ hc => (by cases hc)⟩, rfl⟩
    · exact h.goOn trivial
    · exact h.goOn trivial
  | wakeRead =>
    unfold Runtime.work
    rw [ht]
    dsimp only
    split
    · exact h.goOn trivial
    · next state hget =>
      split_ifs
      · exact h.goOn trivial
      · exact h.goOn (resumed_fits hget)
      · next hno _ =>
        exact h.goOn ⟨GoalStore.mem_of_get hget, isActive_iff.1 (by simpa using (not_or.1 hno).1)⟩
  | wakeReread | wakeGet =>
    unfold Runtime.work
    rw [ht]
    dsimp only
    split
    · exact h.goOn trivial
    · next state hget => exact h.goOn (resumed_fits hget)
  | resumed state =>
    unfold TaskOk at hok
    unfold TurnLeft at hleft
    rw [ht] at hok hleft
    unfold Runtime.work
    rw [ht]
    exact ⟨h.stay rfl rfl rfl rfl (Nat.le_refl _), h.resumeWait hok hleft rfl rfl rfl⟩

/-! ## Every run -/

structure Inv (w : Runtime) : Prop where
  base : w.Base
  task : w.TaskOk

theorem Inv.init (key : String) : Inv { sessionKey := key } := by
  have hnone {P : GoalState → Prop} : ∀ r ∈ ([] : List GoalState), P r := List.forall_mem_nil _
  have hno {P : Start → Prop} : ∀ e ∈ ([] : List Start), P e := List.forall_mem_nil _
  exact ⟨⟨Versioned.nil, hnone, hnone, hnone, hno, fun _ h => (by cases h), fun _ h => (by cases h), hno, List.Pairwise.nil,
    Nat.le_refl _⟩, trivial⟩

theorem Inv.next (h : w.Inv) {ev : RuntimeEvent} (hf : w.fits ev) (hleft : w.TurnLeft ev) : (w.next ev).Inv := by
  cases ev with
  | operate o op =>
    obtain ⟨hc, htask, hdec⟩ := operate_control h.base hf
    have hle : (w.operate o op).decided.1 ≤ (w.operate o op).resumes := by
      rw [hdec]
      have := h.base.decidedLe
      cases hc with
      | stay _ _ _ hres => omega
      | within _ _ _ _ _ hres => omega
      | resume _ _ _ _ _ hres => omega
      | set _ _ _ hres => omega
    refine ⟨hc.base h.base hle, ?_⟩
    show (w.operate o op).TaskFits (w.operate o op).task
    rw [htask]
    exact hc.taskFits h.base hdec h.task
  | arrive =>
    have hc : Control w { w with userEpoch := w.userEpoch + 1 } := .stay rfl rfl rfl rfl
    exact ⟨hc.base h.base h.base.decidedLe, hc.taskFits h.base rfl h.task⟩
  | enqueue k =>
    have hc : Control w { w with queue := w.queue ++ [k] } := .stay rfl rfl rfl rfl
    exact ⟨hc.base h.base h.base.decidedLe, hc.taskFits h.base rfl h.task⟩
  | drop | cancelSession => exact ⟨h.base.stay rfl rfl rfl rfl h.base.decidedLe, trivial⟩
  | work x =>
    obtain ⟨hb, ht⟩ := h.base.work h.task hleft
    exact ⟨hb, ht⟩

/-- The starts of one goal between two resumes are of different causes or at different counts. -/
theorem Base.count (h : w.Base) (honce : w.WakesOnce) (e : Start) (he : e ∈ w.starts) :
    (w.startsOf e).length ≤ 3 * e.maxTurns := by
  -- Each start is sent to its cause and its count, which is under the budget.
  have hinj : ((w.startsOf e).map fun s => (s.cause, s.usedThen)).Nodup := by
    have hpair := (h.distinct.and (List.pairwise_filter.1 honce)).filter
      fun s => s.cause ≠ .kickoff ∧ s.goalId = e.goalId ∧ s.grant = e.grant
    refine List.pairwise_map.2 (hpair.imp_of_mem ?_)
    intro a b ha hb hab heq
    obtain ⟨hdistinct, hwake⟩ := hab
    obtain ⟨_, ha⟩ := List.mem_filter.1 ha
    obtain ⟨_, hb⟩ := List.mem_filter.1 hb
    obtain ⟨hka, hga, hra⟩ := decide_eq_true_eq.mp ha
    obtain ⟨hkb, hgb, hrb⟩ := decide_eq_true_eq.mp hb
    obtain ⟨hcause, hused⟩ := Prod.mk.inj heq
    cases hc : a.cause with
    | kickoff => exact hka hc
    | judged => exact hdistinct (.inl hc) (by rw [hcause, hga, hgb, hra, hrb, hused])
    | retry => exact hdistinct (.inr hc) (by rw [hcause, hga, hgb, hra, hrb, hused])
    | wake =>
      exact hwake (decide_eq_true hc) (decide_eq_true (hcause.symm.trans hc)) (by rw [hga, hgb, hra, hrb, hused])
  have hsub : ((w.startsOf e).map fun s => (s.cause, s.usedThen)).toFinset ⊆
      ({.judged, .retry, .wake} : Finset Cause) ×ˢ Finset.range e.maxTurns := by
    intro p hp
    obtain ⟨s, hs, rfl⟩ := List.mem_map.1 (List.mem_toFinset.1 hp)
    obtain ⟨hs, hprops⟩ := List.mem_filter.1 hs
    obtain ⟨hk, hid, _⟩ := decide_eq_true_eq.mp hprops
    obtain ⟨_, r, hr, hrid, hrmax⟩ := h.started s hs
    obtain ⟨_, r', hr', hrid', hrmax'⟩ := h.started e he
    have hsame := h.budgets r hr r' hr' (by rw [hrid, hrid', hid])
    have hlt := (h.inBudget s hs hk).2
    refine Finset.mem_product.2 ⟨?_, Finset.mem_range.2 (by show s.usedThen < e.maxTurns; omega)⟩
    show s.cause ∈ _
    cases hc : s.cause with
    | kickoff => exact absurd hc hk
    | judged => decide
    | retry => decide
    | wake => decide
  have hcard := Finset.card_le_card hsub
  rw [List.toFinset_card_of_nodup hinj, List.length_map, Finset.card_product, Finset.card_range] at hcard
  exact hcard

/-- Where a wake-up and a retry find a turn left, so does every turn that is started; and
    where no two wake-ups find the same count, the turns are bounded by the budget. -/
theorem starts_within_budget (key : String) {w : Runtime}
    (h : Reach next (fun w ev => w.fits ev ∧ w.TurnLeft ev) { sessionKey := key } w) :
    w.InBudget ∧ (w.WakesOnce → ∀ e ∈ w.starts, (w.startsOf e).length ≤ 3 * e.maxTurns) := by
  have hinv : w.Inv := h.invariant (.init key) fun _ _ hw hok => hw.next hok.1 hok.2
  exact ⟨fun e he hcause => (hinv.base.inBudget e he hcause).1, fun honce e he => hinv.base.count honce e he⟩

namespace Sample

def waits : Input := { judge := .result { verdict := .wait, reason := "the build runs", wait := some (.pid 7) } }

def goesOn : Input := { judge := .result { verdict := .continues, reason := "more to do" } }

def turn : DeliveredGoalTurn := { response := "started the build", userEpoch := 0 }

def steps (x : Input) (n : Nat) : List RuntimeEvent := List.replicate n (.work x)

/-- A goal of so many turns, whose first turn is delivered. -/
def first (maxTurns : Int) : List RuntimeEvent :=
  [.operate {} (.set "ship it" "a" maxTurns {} 0 none), .enqueue (.delivered turn)]

/-- It is parked on its last turn, the barrier is over, and the poller wakes it. -/
def woken : List RuntimeEvent :=
  first 1 ++ steps waits 9 ++ [RuntimeEvent.operate {} .waitingState, .enqueue .wake] ++ steps waits 5

/-- It is parked on its last turn, taken up by the user, and its context fails. -/
def failed : List RuntimeEvent :=
  first 1 ++ steps waits 9 ++
    [RuntimeEvent.operate {} .stopWaiting, .enqueue (.delivered { turn with response := "", succeeded := false, compactionFailed := true })] ++
    steps waits 7

def run (es : List RuntimeEvent) : Runtime := es.foldl next {}

end Sample

theorem starts_within_budget_two : (Sample.run (Sample.first 2 ++ Sample.steps Sample.goesOn 12)).starts.length = 1 ∧
    (Sample.run (Sample.first 2 ++ Sample.steps Sample.goesOn 12)).InBudget :=
  ⟨by decide, (starts_within_budget "cli:direct" (Reach.foldl _ _ .start (by decide))).1⟩

/-- A turn is started by a wake-up, and by the retry of a context failure, with none left. -/
theorem a_wake_up_goes_over_the_budget :
    (Reach next fits {} (Sample.run Sample.woken) ∧ ¬ (Sample.run Sample.woken).InBudget) ∧
      Reach next fits {} (Sample.run Sample.failed) ∧ ¬ (Sample.run Sample.failed).InBudget :=
  ⟨⟨Reach.foldl _ _ .start (by decide), by decide⟩, Reach.foldl _ _ .start (by decide), by decide⟩

end Runtime

end Flowly.Goals
