/-
  Flowly.Plans.Approved — what every run of the plan manager keeps: nothing runs under a
  plan that was not approved.

  Proved, for the runs of which every step
  - changes no plan that is over (`update_steps`, `complete`, `mark_blocked`, `cancel`, and
    a decision that is accepted),
  - makes no plan, in a proposal that has superseded one, where its session has a live one
    again,
  - applies a timeout, or a cron run's rejection, only where the turn's own approval still
    waits at a plan that is not over:
  what was saved of a forced plan that is approved, runs or is paused has an approval for
  the steps it has, decided once and with approve; the turns return what was recorded on
  their approvals; a snapshot of a plan that is over is its last, and the others are of
  lower revisions than those after them; a session has one live plan at most
  (`nothing_runs_unapproved`). The code checks none of the three (`plans_run_unapproved`).
-/

import Flowly.Lib.Reach
import Flowly.Plans.Manager
import Mathlib.Data.List.Nodup

namespace Flowly.Plans

open Flowly.Lib

/-! ## The mutations -/

/-- A plan that was approved once, or runs by itself. -/
def PlanStatus.running : PlanStatus → Bool
  | .approved | .executing | .paused => true
  | _ => false

structure Ordinary (p p' : GeneralPlan) : Prop where
  id : p'.id = p.id
  session : p'.sessionKey = p.sessionKey
  mode : p'.mode = p.mode
  specs : p'.specs = p.specs
  approval : p'.approval = p.approval
  revision : p'.revision = p.revision + 1
  running : p'.status.running = true → p.status.running = true

theorem startPending_specs (now : Int) (steps : List PlanStep) :
    ((startPending now steps).map fun s => (s.id, s.content)) = steps.map fun s => (s.id, s.content) := by
  induction steps with
  | nil => rfl
  | cons s rest ih =>
    unfold startPending
    split_ifs
    · rfl
    · rw [List.map_cons, ih, List.map_cons]

theorem updateStep_specs (now : Int) (u : StepUpdate) (steps : List PlanStep) :
    ((updateStep now u steps).map fun s => (s.id, s.content)) = steps.map fun s => (s.id, s.content) := by
  induction steps with
  | nil => rfl
  | cons s rest ih =>
    unfold updateStep
    split_ifs
    · rfl
    · rw [List.map_cons, ih, List.map_cons]

theorem updates_specs (now : Int) (updates : List StepUpdate) (steps : List PlanStep) :
    ((updates.foldl (fun steps u => updateStep now u steps) steps).map fun s => (s.id, s.content)) =
      steps.map fun s => (s.id, s.content) := by
  induction updates generalizing steps with
  | nil => rfl
  | cons u updates ih =>
    rw [List.foldl_cons, ih]
    exact updateStep_specs now u steps

/-- What the start of a step leaves of a plan: all but how far its steps have come. -/
structure SameBut (p p' : GeneralPlan) : Prop where
  id : p'.id = p.id
  session : p'.sessionKey = p.sessionKey
  mode : p'.mode = p.mode
  status : p'.status = p.status
  approval : p'.approval = p.approval
  revision : p'.revision = p.revision
  specs : p'.specs = p.specs

theorem startNextStep_same (p : GeneralPlan) (now : Int) : SameBut p (startNextStep p now) := by
  unfold startNextStep
  split_ifs
  · exact ⟨rfl, rfl, rfl, rfl, rfl, rfl, rfl⟩
  · exact ⟨rfl, rfl, rfl, rfl, rfl, rfl, startPending_specs now p.steps⟩

theorem closePlan_ordinary {status : PlanStatus} (hs : status.running = false) (reason summary : String) (now : Int)
    (p : GeneralPlan) : Ordinary p (closePlan status reason summary now p) := by
  refine ⟨rfl, rfl, rfl, rfl, rfl, rfl, fun h => ?_⟩
  change status.running = true at h
  rw [hs] at h
  cases h

theorem abortPlan_ordinary (reason : String) (now : Int) (p : GeneralPlan) : Ordinary p (abortPlan reason now p) :=
  ⟨rfl, rfl, rfl, rfl, rfl, rfl, fun h => (by cases h)⟩

theorem resumePlan_ordinary {p : GeneralPlan} (hs : p.status = .paused ∨ p.status = .approved) (now : Int) :
    Ordinary p (resumePlan now p) := by
  have h := startNextStep_same { p with status := .executing } now
  refine { h with revision := congrArg (· + 1) h.revision, running := fun _ => ?_ }
  rcases hs with hs | hs <;> rw [hs] <;> rfl

theorem pausePlan_ordinary {p : GeneralPlan} (hs : p.status = .executing) (now : Int) : Ordinary p (pausePlan now p) :=
  ⟨rfl, rfl, rfl, rfl, rfl, rfl, fun _ => by rw [hs]; rfl⟩

namespace Ordinary

variable {p p' p'' : GeneralPlan}

theorem of_same (h : SameBut p p') : Ordinary p { p' with revision := p'.revision + 1 } :=
  { h with revision := congrArg (· + 1) h.revision, running := fun hr => (by rw [← h.status]; exact hr) }

theorem after_same (h : Ordinary p { p' with revision := p'.revision + 1 }) (hs : SameBut p' p'') :
    Ordinary p { p'' with revision := p''.revision + 1 } := by
  refine ⟨hs.id.trans h.id, hs.session.trans h.session, hs.mode.trans h.mode, hs.specs.trans h.specs,
    hs.approval.trans h.approval, (congrArg (· + 1) hs.revision).trans h.revision, fun hr => h.running ?_⟩
  change p''.status.running = true at hr
  rw [hs.status] at hr
  exact hr

theorem executes (h : Ordinary p { p' with revision := p'.revision + 1 }) :
    Ordinary p { Plans.executes p' with revision := (Plans.executes p').revision + 1 } := by
  unfold Plans.executes
  split_ifs with hs
  · refine { h with running := fun _ => h.running ?_ }
    show p'.status.running = true
    rcases hs with hs | hs <;> rw [hs] <;> rfl
  · exact h

theorem touch (h : Ordinary p { p' with revision := p'.revision + 1 }) (reason : String) (now : Int) :
    Ordinary p (p'.touch reason now) :=
  { h with }

end Ordinary

theorem updateSteps_ordinary (updates : List StepUpdate) (now : Int) (p : GeneralPlan) :
    Ordinary p (updateSteps updates now p) := by
  have hrun : SameBut p (runUpdates updates now p) := ⟨rfl, rfl, rfl, rfl, rfl, rfl, updates_specs now updates p.steps⟩
  have hnext (q : GeneralPlan) : SameBut q (goesOn updates now q) := by
    unfold goesOn
    split_ifs
    · exact startNextStep_same q now
    · exact ⟨rfl, rfl, rfl, rfl, rfl, rfl, rfl⟩
  have h := (Ordinary.of_same hrun).executes.after_same (hnext _)
  unfold updateSteps
  dsimp only
  split_ifs
  · exact { h with running := fun hr => (by cases hr) }
  · exact h.touch _ now

structure Decided (d : PlanDecision) (p p' : GeneralPlan) : Prop where
  id : p'.id = p.id
  session : p'.sessionKey = p.sessionKey
  mode : p'.mode = p.mode
  specs : p'.specs = p.specs
  approval : p'.approval = p.approval.map (PlanApproval.resolve d)
  revision : p'.revision = p.revision + 1
  running : p'.status.running = true → d.decision = .approve

theorem applyDecision_decided (d : PlanDecision) (live : Bool) (now : Int) (p : GeneralPlan) :
    Decided d p (applyDecision d live now p) := by
  unfold applyDecision
  cases hd : d.decision with
  | approve =>
    cases live with
    | true =>
      have h := startNextStep_same
        { p with approval := p.approval.map (PlanApproval.resolve d), status := .executing } now
      exact { h with revision := congrArg (· + 1) h.revision, running := fun _ => hd }
    | false => exact ⟨rfl, rfl, rfl, rfl, rfl, rfl, fun _ => hd⟩
  | reject | revise | timeout => exact ⟨rfl, rfl, rfl, rfl, rfl, rfl, fun h => (by cases h)⟩

/-! ## Approvals and what was saved -/

def Approved (created : List (Nat × Nat × List (Int × String))) (decided : List (Nat × Option Decision))
    (p : GeneralPlan) : Prop :=
  ∃ c ∈ created, c.2 = (p.id, p.specs) ∧ (c.1, some Decision.approve) ∈ decided

instance (created : List (Nat × Nat × List (Int × String))) (decided : List (Nat × Option Decision)) (p : GeneralPlan) :
    Decidable (Approved created decided p) := by
  unfold Approved; infer_instance

/-- Two snapshots of one plan: the later has the greater revision, and the earlier was not over. -/
def Follows (newer older : GeneralPlan) : Prop :=
  newer.id = older.id → older.revision < newer.revision ∧ older.terminal = false

instance (p q : GeneralPlan) : Decidable (Follows p q) := by unfold Follows; infer_instance

def Turn.result (t : Turn) : Option PlanDecision :=
  match t.stage with
  | .returned d => some d
  | _ => none

namespace PlanManager

/-- No plan runs unapproved, no approval is decided twice, and what was saved of a plan only
    goes on. -/
def Sound (m : PlanManager) : Prop :=
  (∀ p ∈ m.saved, p.mode = .forced → p.status.running = true → Approved m.created m.decided p) ∧
    (m.decided.map (·.1)).Nodup ∧
    (∀ t ∈ m.turns, ∀ a ∈ t.approval, ∀ d ∈ t.result, (a, d.recorded) ∈ m.decided) ∧
    m.saved.Pairwise Follows ∧
    (∀ p ∈ m.plans, p ∈ m.saved ∧ ∀ s ∈ m.saved, s.id = p.id → s.revision ≤ p.revision) ∧
    ∀ p ∈ m.plans, ∀ q ∈ m.plans, p.sessionKey = q.sessionKey → p.terminal = false → q.terminal = false → p = q

instance (m : PlanManager) : Decidable m.Sound := by unfold Sound; infer_instance

/-- The approval that a turn asked for still waits, at a plan that is not over. -/
def ownPending (m : PlanManager) (t : Turn) : Prop :=
  ∀ p ∈ m.get t.plan, p.terminal = false ∧ ∃ a ∈ p.approval, t.approval = some a.id ∧ a.resolved = false

instance (m : PlanManager) (t : Turn) : Decidable (m.ownPending t) := by unfold ownPending; infer_instance

def mayGoOn (m : PlanManager) (t : Turn) : Prop :=
  match t.stage with
  | .superseding => m.currentForSession t.args.sessionKey = none
  | .announced => t.args.cron = true → m.ownPending t
  | .waiting => t.wait.result = some .timedOut → m.ownPending t
  | _ => True

instance (m : PlanManager) (t : Turn) : Decidable (m.mayGoOn t) := by
  unfold mayGoOn
  split <;> infer_instance

/-- A decision that is accepted is one on a plan that is not over. -/
def mayDecide (m : PlanManager) (r : Resolve) : Prop :=
  match r.check (m.get r.planId) with
  | .ok (p, _) => p.terminal = false
  | .error _ => True

instance (m : PlanManager) (r : Resolve) : Decidable (m.mayDecide r) := by
  unfold mayDecide
  split <;> infer_instance

/-- What every step has to be. -/
def Careful (m : PlanManager) (e : Int × Event) : Prop :=
  match e.2 with
  | .updateSteps id updates => ∀ p ∈ m.get id, unknownStep updates p = false → p.terminal = false
  | .complete id _ | .markBlocked id _ | .cancel id => ∀ p ∈ m.get id, p.terminal = false
  | .resolveApproval r => m.mayDecide r
  | .proceed i => ∀ t ∈ m.turns[i]?, m.mayGoOn t
  | _ => True

instance (m : PlanManager) (e : Int × Event) : Decidable (m.Careful e) := by
  obtain ⟨now, e⟩ := e
  cases e <;> dsimp only [Careful] <;> infer_instance

/-! ## The plans and what is said of them -/

/-- What holds of the plans and of the ghosts in every run of careful steps. -/
structure Ledger (m : PlanManager) : Prop where
  ids : (m.plans.map (·.id)).Nodup
  single : ∀ p ∈ m.plans, ∀ q ∈ m.plans, p.sessionKey = q.sessionKey → p.terminal = false → q.terminal = false → p.id = q.id
  newest : ∀ p ∈ m.plans, p ∈ m.saved ∧ ∀ s ∈ m.saved, s.id = p.id → s = p ∨ s.revision < p.revision ∧ s.terminal = false
  known : ∀ s ∈ m.saved, s.id < m.nextPlan
  trail : m.saved.Pairwise Follows
  approved : ∀ s ∈ m.saved, s.mode = .forced → s.status.running = true → Approved m.created m.decided s
  asked : ∀ p ∈ m.plans, ∀ a ∈ p.approval, (a.id, p.id, p.specs) ∈ m.created ∧ (a.resolved = false → a.id ∉ m.decided.map (·.1))
  createdOnce : (m.created.map (·.1)).Nodup
  createdKnown : ∀ c ∈ m.created, c.1 < m.nextApproval
  decidedOnce : (m.decided.map (·.1)).Nodup
  decidedKnown : ∀ d ∈ m.decided, d.1 < m.nextApproval

structure Shown (decided : List (Nat × Option Decision)) (t : Turn) : Prop where
  held : ∀ d, t.wait.future = .done d → ∃ a ∈ t.approval, (a, d.recorded) ∈ decided
  ends : ∀ a ∈ t.approval, ∀ d, t.stage = .applying d ∨ t.stage = .returned d → (a, d.recorded) ∈ decided
  asksFirst : t.stage = .superseding ∨ t.stage = .started → t.approval = none

structure Inv (m : PlanManager) : Prop where
  ledger : m.Ledger
  turns : ∀ t ∈ m.turns, Shown m.decided t
  resolvers : ∀ r ∈ m.resolvers, (r.approval, r.decision.recorded) ∈ m.decided

variable {m : PlanManager} {p p' q : GeneralPlan} {d : PlanDecision} {t : Turn} {i : Nat} {now : Int}

theorem mem_of_get {id : Nat} (h : m.get id = some p) : p ∈ m.plans ∧ p.id = id := by
  unfold get at h
  exact ⟨List.mem_of_find?_eq_some h, by simpa using List.find?_some h⟩

theorem newestPlan_mem {plans : List GeneralPlan} (h : newestPlan plans = some p) : p ∈ plans := by
  induction plans generalizing p with
  | nil => cases h
  | cons q rest ih =>
    unfold newestPlan at h
    split at h
    · cases h
      exact List.mem_cons_self
    · next r hr =>
      split_ifs at h
      · cases h
        exact List.mem_cons_of_mem _ (ih hr)
      · cases h
        exact List.mem_cons_self

theorem newestPlan_none {plans : List GeneralPlan} (h : newestPlan plans = none) : plans = [] := by
  cases plans with
  | nil => rfl
  | cons q rest =>
    unfold newestPlan at h
    split at h
    · cases h
    · split_ifs at h

theorem mem_of_current {sessionKey : String} (h : m.currentForSession sessionKey = some p) :
    p ∈ m.plans ∧ p.sessionKey = sessionKey ∧ p.terminal = false := by
  have hmem := List.mem_filter.1 (newestPlan_mem h)
  exact ⟨hmem.1, of_decide_eq_true hmem.2⟩

theorem no_current {sessionKey : String} (h : m.currentForSession sessionKey = none) (hp : p ∈ m.plans)
    (hs : p.sessionKey = sessionKey) : p.terminal = true := by
  by_contra ht
  have hmem : p ∈ m.plans.filter fun p => p.sessionKey = sessionKey ∧ p.terminal = false :=
    List.mem_filter.2 ⟨hp, decide_eq_true ⟨hs, by simpa using ht⟩⟩
  rw [newestPlan_none h] at hmem
  cases hmem

theorem mem_save : q ∈ (m.save p).plans ↔ q = p ∨ q ∈ m.plans ∧ q.id ≠ p.id := by
  unfold save
  dsimp only
  split_ifs with hin
  · obtain ⟨o, ho, hid⟩ := List.any_eq_true.1 hin
    constructor
    · intro h
      obtain ⟨r, hr, rfl⟩ := List.mem_map.1 h
      split_ifs with hrid
      · exact .inl rfl
      · exact .inr ⟨hr, hrid⟩
    · intro h
      rcases h with rfl | ⟨hq, hne⟩
      · exact List.mem_map.2 ⟨o, ho, if_pos (by simpa using hid)⟩
      · exact List.mem_map.2 ⟨q, hq, if_neg hne⟩
  · have hno : ∀ r ∈ m.plans, r.id ≠ p.id := by
      intro r hr hid
      exact hin (List.any_eq_true.2 ⟨r, hr, decide_eq_true hid⟩)
    constructor
    · intro h
      rcases List.mem_append.1 h with h | h
      · exact .inr ⟨h, hno q h⟩
      · exact .inl (List.mem_singleton.1 h)
    · intro h
      rcases h with rfl | ⟨hq, -⟩
      · exact List.mem_append.2 (.inr (List.mem_singleton.2 rfl))
      · exact List.mem_append.2 (.inl hq)

theorem save_ids (h : (m.plans.map (·.id)).Nodup) : ((m.save p).plans.map (·.id)).Nodup := by
  unfold save
  dsimp only
  split_ifs with hin
  · have hsame : (m.plans.map fun q => if q.id = p.id then p else q).map (·.id) = m.plans.map (·.id) := by
      rw [List.map_map]
      refine List.map_congr_left fun q _ => ?_
      show (if q.id = p.id then p else q).id = q.id
      split_ifs with hid
      · exact hid.symm
      · rfl
    rw [hsame]
    exact h
  · rw [List.map_append]
    refine List.nodup_append.2 ⟨h, List.nodup_singleton _, ?_⟩
    intro x hx y hy heq
    obtain ⟨q, hq, rfl⟩ := List.mem_map.1 hx
    rw [List.mem_singleton.1 hy] at heq
    exact hin (List.any_eq_true.2 ⟨q, hq, decide_eq_true heq⟩)

namespace Ledger

/-- The tasks and the modes of the sessions are nothing to it. -/
theorem control (h : m.Ledger) (sticky forcedPending : List String) (turns : List Turn) (resolvers : List Resolver) :
    Ledger { m with sticky, forcedPending, turns, resolvers } :=
  { h with }

/-- A plan is saved, new or changed, and a decision is recorded with it or none. -/
theorem put (h : m.Ledger) (ds : List (Nat × Option Decision)) (hid : p'.id < m.nextPlan)
    (hold : ∀ s ∈ m.saved, s.id = p'.id → s.revision < p'.revision ∧ s.terminal = false)
    (hlive : p'.terminal = false → ∀ q ∈ m.plans, q.sessionKey = p'.sessionKey → q.terminal = false → q.id = p'.id)
    (hrun : p'.mode = .forced → p'.status.running = true → Approved m.created (ds ++ m.decided) p')
    (hasked : ∀ a ∈ p'.approval, (a.id, p'.id, p'.specs) ∈ m.created ∧ (a.resolved = false → a.id ∉ (ds ++ m.decided).map (·.1)))
    (hds : ∀ x ∈ ds, x.1 < m.nextApproval ∧ x.1 ∉ m.decided.map (·.1)) (hone : (ds.map (·.1)).Nodup)
    (hothers : ∀ q ∈ m.plans, q.id ≠ p'.id → ∀ a ∈ q.approval, a.id ∉ ds.map (·.1)) :
    Ledger { m.save p' with decided := ds ++ m.decided } := by
  refine ⟨?_, ?_, ?_, ?_, ?_, ?_, ?_, h.createdOnce, h.createdKnown, ?_, ?_⟩
  · exact save_ids h.ids
  · intro p hp q hq hkey hpt hqt
    rcases mem_save.1 hp with rfl | ⟨hpold, _⟩
    · rcases mem_save.1 hq with rfl | ⟨hqold, _⟩
      · rfl
      · exact (hlive hpt q hqold hkey.symm hqt).symm
    · rcases mem_save.1 hq with rfl | ⟨hqold, _⟩
      · exact hlive hqt p hpold hkey hpt
      · exact h.single p hpold q hqold hkey hpt hqt
  · intro p hp
    rcases mem_save.1 hp with rfl | ⟨hp, hne⟩
    · refine ⟨List.mem_cons_self, ?_⟩
      intro s hs hsid
      rcases List.mem_cons.1 hs with rfl | hs
      · exact .inl rfl
      · exact .inr (hold s hs hsid)
    · obtain ⟨hin, hnew⟩ := h.newest p hp
      refine ⟨List.mem_cons_of_mem _ hin, ?_⟩
      intro s hs hsid
      rcases List.mem_cons.1 hs with rfl | hs
      · exact absurd hsid.symm hne
      · exact hnew s hs hsid
  · intro s hs
    rcases List.mem_cons.1 hs with rfl | hs
    · exact hid
    · exact h.known s hs
  · exact List.pairwise_cons.2 ⟨fun s hs heq => hold s hs heq.symm, h.trail⟩
  · intro s hs hmode hr
    rcases List.mem_cons.1 hs with rfl | hs
    · exact hrun hmode hr
    · obtain ⟨c, hc, hfor, hd⟩ := h.approved s hs hmode hr
      exact ⟨c, hc, hfor, List.mem_append.2 (.inr hd)⟩
  · intro p hp a ha
    rcases mem_save.1 hp with rfl | ⟨hp, hne⟩
    · exact hasked a ha
    · obtain ⟨hc, hopen⟩ := h.asked p hp a ha
      refine ⟨hc, fun hr hmem => ?_⟩
      rw [List.map_append] at hmem
      rcases List.mem_append.1 hmem with hmem | hmem
      · exact hothers p hp hne a ha hmem
      · exact hopen hr hmem
  · show ((ds ++ m.decided).map (·.1)).Nodup
    rw [List.map_append]
    refine List.nodup_append.2 ⟨hone, h.decidedOnce, ?_⟩
    intro x hx y hy heq
    obtain ⟨c, hc, rfl⟩ := List.mem_map.1 hx
    exact (hds c hc).2 (heq ▸ hy)
  · intro x hx
    rcases List.mem_append.1 hx with hx | hx
    · exact (hds x hx).1
    · exact h.decidedKnown x hx

/-- A plan that is saved without a decision. -/
theorem saved (h : m.Ledger) (hid : p'.id < m.nextPlan)
    (hold : ∀ s ∈ m.saved, s.id = p'.id → s.revision < p'.revision ∧ s.terminal = false)
    (hlive : p'.terminal = false → ∀ q ∈ m.plans, q.sessionKey = p'.sessionKey → q.terminal = false → q.id = p'.id)
    (hrun : p'.mode = .forced → p'.status.running = true → Approved m.created m.decided p')
    (hasked : ∀ a ∈ p'.approval, (a.id, p'.id, p'.specs) ∈ m.created ∧ (a.resolved = false → a.id ∉ m.decided.map (·.1))) :
    (m.save p').Ledger :=
  h.put [] hid hold hlive hrun hasked (List.forall_mem_nil _) List.nodup_nil
    fun _ _ _ _ _ hx => absurd hx List.not_mem_nil

/-- A plan that is not over is the newest of its snapshots, and none of them was over. -/
theorem older (h : m.Ledger) (hp : p ∈ m.plans) (ht : p.terminal = false) {s : GeneralPlan} (hs : s ∈ m.saved)
    (hid : s.id = p.id) : s.revision ≤ p.revision ∧ s.terminal = false := by
  rcases (h.newest p hp).2 s hs hid with rfl | ⟨hrev, hst⟩
  · exact ⟨Nat.le_refl _, ht⟩
  · exact ⟨Nat.le_of_lt hrev, hst⟩

/-- Every mutation that is none of the proposal's and no decision. -/
theorem ordinary (h : m.Ledger) (hp : p ∈ m.plans) (ht : p.terminal = false) (ho : Ordinary p p') : (m.save p').Ledger := by
  have hmem := (h.newest p hp).1
  have hspecs {c : Nat × Nat × List (Int × String)} (hc : c.2 = (p.id, p.specs)) : c.2 = (p'.id, p'.specs) := by
    rw [ho.id, ho.specs]
    exact hc
  refine h.saved ?_ ?_ ?_ ?_ ?_
  · rw [ho.id]
    exact h.known p hmem
  · intro s hs hid
    obtain ⟨hle, hst⟩ := h.older hp ht hs (hid.trans ho.id)
    have := ho.revision
    exact ⟨by omega, hst⟩
  · intro _ q hq hkey hqt
    rw [ho.id]
    exact h.single q hq p hp (hkey.trans ho.session) hqt ht
  · intro hmode hr
    obtain ⟨c, hc, hfor, hd⟩ := h.approved p hmem (ho.mode ▸ hmode) (ho.running hr)
    exact ⟨c, hc, hspecs hfor, hd⟩
  · intro a ha
    rw [ho.approval] at ha
    rw [ho.id, ho.specs]
    exact h.asked p hp a ha

/-- A decision on the approval that a plan waits for. -/
theorem decide (h : m.Ledger) (hp : p ∈ m.plans) (ht : p.terminal = false) {a : PlanApproval} (ha : p.approval = some a)
    (hopen : a.resolved = false) (hd : Decided d p p') :
    Ledger { m.save p' with decided := (a.id, d.recorded) :: m.decided } := by
  have hmem := (h.newest p hp).1
  obtain ⟨hcre, hfree⟩ := h.asked p hp a ha
  refine h.put [(a.id, d.recorded)] ?_ ?_ ?_ ?_ ?_ ?_ (List.nodup_singleton _) ?_
  · rw [hd.id]
    exact h.known p hmem
  · intro s hs hid
    obtain ⟨hle, hst⟩ := h.older hp ht hs (hid.trans hd.id)
    have := hd.revision
    exact ⟨by omega, hst⟩
  · intro _ q hq hkey hqt
    rw [hd.id]
    exact h.single q hq p hp (hkey.trans hd.session) hqt ht
  · intro _ hr
    have happ : d.recorded = some .approve := by
      unfold PlanDecision.recorded
      rw [hd.running hr]
      rfl
    refine ⟨_, hcre, by rw [hd.id, hd.specs], ?_⟩
    rw [happ]
    exact List.mem_cons_self
  · intro b hb
    rw [hd.approval, ha] at hb
    obtain rfl : PlanApproval.resolve d a = b := Option.some.inj hb
    rw [hd.id, hd.specs]
    exact ⟨hcre, fun hr => (by cases hr)⟩
  · intro x hx
    obtain rfl := List.mem_singleton.1 hx
    exact ⟨h.createdKnown _ hcre, hfree hopen⟩
  · intro q hq hne b hb hmem
    -- The approval belongs to one plan.
    obtain ⟨x, hx, hid⟩ := List.mem_map.1 hmem
    obtain rfl := List.mem_singleton.1 hx
    have hq := (h.asked q hq b hb).1
    have hsame := List.inj_on_of_nodup_map h.createdOnce hcre hq hid
    have : p.id = q.id := congrArg (fun c => c.2.1) hsame
    rw [hd.id] at hne
    exact hne this.symm

/-- An approval is asked for, for a plan that is saved with it. -/
theorem request (h : m.Ledger) (i : Nat) (t : Turn) (now : Int) (hid : p.id < m.nextPlan)
    (hold : ∀ s ∈ m.saved, s.id = p.id → s.revision < p.revision ∧ s.terminal = false)
    (hlive : ∀ q ∈ m.plans, q.sessionKey = p.sessionKey → q.terminal = false → q.id = p.id)
    (hnot : p.status.running = false) : (m.request i t p now).Ledger := by
  have hfresh {l : List Nat} (hl : ∀ x ∈ l, x < m.nextApproval) : m.nextApproval ∉ l :=
    fun hin => absurd (hl _ hin) (Nat.lt_irrefl _)
  have hcreated : m.nextApproval ∉ m.created.map (·.1) := hfresh (List.forall_mem_map.2 h.createdKnown)
  have hasked : Ledger { m with nextApproval := m.nextApproval + 1, created := (m.nextApproval, p.id, p.specs) :: m.created } := by
    refine ⟨h.ids, h.single, h.newest, h.known, h.trail, ?_, ?_, List.nodup_cons.2 ⟨hcreated, h.createdOnce⟩, ?_,
      h.decidedOnce, ?_⟩
    · intro s hs hmode hr
      obtain ⟨c, hc, hfor, hd⟩ := h.approved s hs hmode hr
      exact ⟨c, List.mem_cons_of_mem _ hc, hfor, hd⟩
    · intro q hq a ha
      obtain ⟨hc, hopen⟩ := h.asked q hq a ha
      exact ⟨List.mem_cons_of_mem _ hc, hopen⟩
    · intro c hc
      rcases List.mem_cons.1 hc with rfl | hc
      · exact Nat.lt_succ_self _
      · exact Nat.lt_succ_of_lt (h.createdKnown c hc)
    · intro x hx
      exact Nat.lt_succ_of_lt (h.decidedKnown x hx)
  obtain ⟨a, hid', ha⟩ : ∃ a : PlanApproval, a.id = m.nextApproval ∧
      a = { id := m.nextApproval, revision := p.revision, createdAt := now, expiresAt := now + t.args.timeoutS } := ⟨_, rfl, rfl⟩
  have hsaved : Ledger (PlanManager.save { m with nextApproval := m.nextApproval + 1,
                                                  created := (m.nextApproval, p.id, p.specs) :: m.created }
      { p with approval := some a }) := by
    refine hasked.saved hid hold (fun _ => hlive) ?_ ?_
    · intro _ hr
      change p.status.running = true at hr
      rw [hnot] at hr
      cases hr
    · intro b hb
      obtain rfl : a = b := Option.some.inj hb
      rw [hid']
      exact ⟨List.mem_cons_self, fun _ => hfresh (List.forall_mem_map.2 h.decidedKnown)⟩
  rw [ha] at hsaved
  exact hsaved.control _ _ _ _

/-- A plan under a new id, of a session that has no live one. -/
theorem fresh (h : m.Ledger) {sessionKey : String} (hnone : m.currentForSession sessionKey = none) :
    Ledger { m with nextPlan := m.nextPlan + 1 } ∧ (∀ s ∈ m.saved, s.id ≠ m.nextPlan) ∧
      ∀ q ∈ m.plans, q.sessionKey = sessionKey → q.terminal = false → False := by
  refine ⟨{ h with known := ?_ }, ?_, ?_⟩
  · intro s hs
    exact Nat.lt_succ_of_lt (h.known s hs)
  · intro s hs
    exact Nat.ne_of_lt (h.known s hs)
  · intro q hq hkey ht
    rw [no_current hnone hq hkey] at ht
    cases ht

end Ledger

/-! ## The steps -/

namespace Shown

variable {decided decided' : List (Nat × Option Decision)} {t : Turn}

theorem mono (h : Shown decided t) (hd : ∀ x ∈ decided, x ∈ decided') : Shown decided' t := by
  refine ⟨?_, fun a ha d hs => hd _ (h.ends a ha d hs), h.asksFirst⟩
  intro d hw
  obtain ⟨a, ha, hin⟩ := h.held d hw
  exact ⟨a, ha, hd _ hin⟩

/-- Another stage, which ends nothing. -/
theorem on (h : Shown decided t) {stage : Stage} {registered : Bool} (hs : ∀ d, stage ≠ .applying d ∧ stage ≠ .returned d)
    (hf : stage ≠ .superseding ∧ stage ≠ .started) : Shown decided { t with stage, registered } := by
  refine ⟨h.held, ?_, ?_⟩
  · intro a _ d hd
    rcases hd with hd | hd
    · exact absurd hd (hs d).1
    · exact absurd hd (hs d).2
  · intro hst
    rcases hst with hst | hst
    · exact absurd hst hf.1
    · exact absurd hst hf.2

/-- A decision that is on record for it. -/
theorem has (h : Shown decided t) (registered : Bool) {stage : Stage} (hd : ∀ a ∈ t.approval, (a, d.recorded) ∈ decided)
    (hs : stage = .applying d ∨ stage = .returned d) : Shown decided { t with stage, registered } := by
  refine ⟨h.held, ?_, ?_⟩
  · intro a ha e he
    have : e = d := by
      rcases hs with rfl | rfl <;> rcases he with he | he <;> cases he <;> rfl
    rw [this]
    exact hd a ha
  · intro hst
    rcases hs with rfl | rfl <;> rcases hst with hst | hst <;> cases hst

/-- Its wait changes, and no result comes of it. -/
theorem interrupted (h : Shown decided t) {w : TimedWait PlanDecision} (hw : w.future = t.wait.interrupt.future) :
    Shown decided { t with wait := w } := by
  refine ⟨?_, h.ends, h.asksFirst⟩
  intro d hd
  change w.future = .done d at hd
  rw [hw] at hd
  exact h.held d (TimedWait.done_of_interrupt hd)

end Shown

namespace Inv

theorem control (h : m.Inv) (sticky forcedPending : List String) : Inv { m with sticky, forcedPending } :=
  ⟨h.ledger.control _ _ _ _, h.turns, h.resolvers⟩

theorem setTurn (h : m.Inv) (i : Nat) {t : Turn} (ht : Shown m.decided t) : (m.setTurn i t).Inv := by
  refine ⟨h.ledger.control _ _ _ _, ?_, h.resolvers⟩
  intro s hs
  rcases List.mem_or_eq_of_mem_set hs with hs | rfl
  · exact h.turns s hs
  · exact ht

theorem saved (h : m.Inv) (hl : (m.save p).Ledger) : (m.save p).Inv := ⟨hl, h.turns, h.resolvers⟩

theorem change (h : m.Inv) {id : Nat} {f : GeneralPlan → GeneralPlan} (ht : ∀ p ∈ m.get id, p.terminal = false)
    (ho : ∀ p, Ordinary p (f p)) : (m.change id f).Inv := by
  unfold PlanManager.change
  split
  · exact h
  · next p hget => exact h.saved (h.ledger.ordinary (mem_of_get hget).1 (ht p hget) (ho p))

end Inv

theorem setSticky_eq (m : PlanManager) (sessionKey : String) (on : Bool) :
    ∃ sticky forcedPending, m.setSticky sessionKey on = { m with sticky, forcedPending } := by
  unfold setSticky
  split_ifs <;> exact ⟨_, _, rfl⟩

theorem leavePlanMode_eq (m : PlanManager) (d : PlanDecision) (sessionKey : String) :
    ∃ sticky forcedPending, m.leavePlanMode d sessionKey = { m with sticky, forcedPending } := by
  unfold leavePlanMode
  split_ifs
  · exact m.setSticky_eq sessionKey false
  · exact ⟨_, _, rfl⟩

namespace Inv

/-- A decision is recorded on the approval that a plan waits for, and the tasks are as they were. -/
theorem applyDecision (h : m.Inv) (hp : p ∈ m.plans) (ht : p.terminal = false) {a : PlanApproval} (ha : p.approval = some a)
    (hopen : a.resolved = false) (d : PlanDecision) (live : Bool) (now : Int) :
    (m.applyDecision p d live now).Inv ∧ (m.applyDecision p d live now).decided = (a.id, d.recorded) :: m.decided ∧
      (m.applyDecision p d live now).turns = m.turns ∧ (m.applyDecision p d live now).resolvers = m.resolvers := by
  obtain ⟨sticky, forcedPending, hm⟩ := m.leavePlanMode_eq d p.sessionKey
  have hc := h.control sticky forcedPending
  have hl := hc.ledger.decide hp ht ha hopen (applyDecision_decided d live now p)
  have heq : m.applyDecision p d live now =
      { ({ m with sticky, forcedPending } : PlanManager).save (Plans.applyDecision d live now p) with
        decided := (a.id, d.recorded) :: m.decided } := by
    unfold PlanManager.applyDecision
    rw [hm, ha]
    rfl
  rw [heq]
  refine ⟨⟨hl, ?_, ?_⟩, rfl, rfl, rfl⟩
  · intro t htm
    exact (h.turns t htm).mono fun _ => List.mem_cons_of_mem _
  · intro r hr
    exact List.mem_cons_of_mem _ (h.resolvers r hr)

/-- What a turn applies itself is on its own approval, while that waits. -/
theorem applyOwn (h : m.Inv) (i : Nat) {t : Turn} (ht : Shown m.decided t) (hown : m.ownPending t) (d : PlanDecision) (now : Int) :
    (m.applyOwn i t d now).Inv := by
  unfold PlanManager.applyOwn
  split
  · exact h
  · next p hget =>
    obtain ⟨hlive, a, ha, hmine, hopen⟩ := hown p hget
    obtain ⟨hinv, hdec, _, _⟩ := h.applyDecision (mem_of_get hget).1 hlive ha hopen d true now
    refine hinv.setTurn i ((ht.mono ?_).has t.registered ?_ (.inl rfl))
    · intro x hx
      rw [hdec]
      exact List.mem_cons_of_mem _ hx
    · intro b hb
      rw [hmine] at hb
      obtain rfl : a.id = b := Option.some.inj hb
      rw [hdec]
      exact List.mem_cons_self

theorem request (h : m.Inv) (hl : (m.request i t p now).Ledger) (ht : Shown m.decided t) (hno : t.approval = none) :
    (m.request i t p now).Inv := by
  refine ⟨hl, ?_, h.resolvers⟩
  intro s hs
  rcases List.mem_or_eq_of_mem_set hs with hs | rfl
  · exact h.turns s hs
  · refine ⟨?_, fun _ _ d hd => (by rcases hd with hd | hd <;> cases hd), fun hst => (by rcases hst with hst | hst <;> cases hst)⟩
    intro d hd
    obtain ⟨a, ha, _⟩ := ht.held d hd
    rw [hno] at ha
    cases ha

/-- A proposal that makes a plan finds no live one. -/
theorem create (h : m.Inv) (i : Nat) (ht : Shown m.decided t) (hno : t.approval = none)
    (hnone : m.currentForSession t.args.sessionKey = none) (now : Int) : (m.create i t now).Inv := by
  obtain ⟨hfresh, hnew, hlone⟩ := h.ledger.fresh hnone
  have hinv : Inv { m with nextPlan := m.nextPlan + 1 } := ⟨hfresh, h.turns, h.resolvers⟩
  unfold PlanManager.create
  dsimp only
  split_ifs with hauto
  · have hs := startNextStep_same (m.newPlan t now) now
    refine (hinv.saved (hfresh.saved ?_ ?_ ?_ ?_ ?_)).setTurn i ⟨ht.held, ?_, fun _ => hno⟩
    · rw [hs.id]
      exact Nat.lt_succ_self _
    · intro s hsm hid
      rw [hs.id] at hid
      exact absurd hid (hnew s hsm)
    · intro _ q hq hkey hqt
      rw [hs.session] at hkey
      exact absurd hqt fun hqt => hlone q hq hkey hqt
    · intro hmode
      rw [hs.mode] at hmode
      have hm : (m.newPlan t now).mode = .auto := if_pos hauto
      rw [hm] at hmode
      cases hmode
    · intro a ha
      rw [hs.approval] at ha
      cases ha
    · intro a ha
      rw [hno] at ha
      cases ha
  · refine hinv.request (hfresh.request i t now (Nat.lt_succ_self _) ?_ ?_ ?_) ht hno
    · intro s hs hid
      exact absurd hid (hnew s hs)
    · intro q hq hkey hqt
      exact absurd hqt fun hqt => hlone q hq hkey hqt
    · have hst : (m.newPlan t now).status = .awaitingApproval := if_neg hauto
      rw [hst]
      rfl

/-- A turn that has just begun. -/
theorem enter (h : m.Inv) (args : Proposal) : Shown m.decided (m.newTurn args) ∧ (m.enter (m.newTurn args)).Inv := by
  have hnew : Shown m.decided (m.newTurn args) :=
    ⟨fun d hd => (by cases hd), fun a ha => (by cases ha), fun _ => rfl⟩
  refine ⟨hnew, h.ledger.control _ _ _ _, ?_, h.resolvers⟩
  intro s hs
  rcases List.mem_append.1 hs with hs | hs
  · exact h.turns s hs
  · rw [List.mem_singleton.1 hs]
    exact hnew

/-- A proposal revises the plan that is under review. -/
theorem revised (h : m.Ledger) (hp : p ∈ m.plans) (hlive : p.terminal = false) (i : Nat) (t : Turn) (goal title : String)
    (steps : List PlanStep) (runId detailsMd : Option String) (now : Int) :
    (m.request i t (revisePlan goal title steps runId detailsMd now p) now).Ledger := by
  refine h.request i t now (h.known p (h.newest p hp).1) ?_ ?_ rfl
  · intro s hs hid
    obtain ⟨hle, hst⟩ := h.older hp hlive hs hid
    exact ⟨Nat.lt_succ_of_le hle, hst⟩
  · intro q hq hkey hqt
    exact h.single q hq p hp hkey hqt hlive

theorem propose (h : m.Inv) (args : Proposal) (now : Int) : (m.propose args now).Inv := by
  obtain ⟨ht, hin⟩ := h.enter args
  have hkey : (m.newTurn args).args.sessionKey = args.sessionKey := by
    simp only [newTurn, capped]
  have hsame (t : Turn) (key : String) : (m.enter t).currentForSession key = m.currentForSession key := rfl
  unfold PlanManager.propose
  dsimp only
  split
  · next hcur =>
    refine hin.create _ ht rfl ?_ now
    rw [hsame, hkey]
    exact hcur
  · next p hcur =>
    obtain ⟨hp, _, hlive⟩ := mem_of_current hcur
    split_ifs
    · exact hin.request (revised hin.ledger hp hlive _ _ _ _ _ _ _ now) ht rfl
    · exact hin.saved (hin.ledger.ordinary hp hlive (abortPlan_ordinary _ now p))

theorem proceed (h : m.Inv) (i : Nat) (hok : ∀ t ∈ m.turns[i]?, m.mayGoOn t) (now : Int) : (m.proceed i now).Inv := by
  unfold PlanManager.proceed
  split
  · exact h
  · next t hi =>
    have ht := h.turns t (List.mem_of_getElem? hi)
    have hgo := hok t hi
    unfold mayGoOn at hgo
    split
    · next hst =>
      rw [hst] at hgo
      exact h.create i ht (ht.asksFirst (.inl hst)) hgo now
    · next hst =>
      refine h.setTurn i (ht.has t.registered ?_ (.inr rfl))
      intro a ha
      rw [ht.asksFirst (.inr hst)] at ha
      cases ha
    · next hst =>
      rw [hst] at hgo
      split_ifs with hcron
      · exact h.applyOwn i ht (hgo hcron) _ now
      · exact h.setTurn i (ht.on (fun _ => ⟨fun hc => (by cases hc), fun hc => (by cases hc)⟩)
          ⟨fun hc => (by cases hc), fun hc => (by cases hc)⟩)
    · exact h.setTurn i (ht.on (fun _ => ⟨fun hc => (by cases hc), fun hc => (by cases hc)⟩)
        ⟨fun hc => (by cases hc), fun hc => (by cases hc)⟩)
    · next hst =>
      rw [hst] at hgo
      have hquiet (r : Bool) (s : Stage) (hs : s = .cancelled) : Shown m.decided { t with registered := r, stage := s } := by
        rw [hs]
        exact ht.on (fun _ => ⟨fun hc => (by cases hc), fun hc => (by cases hc)⟩)
          ⟨fun hc => (by cases hc), fun hc => (by cases hc)⟩
      split
      · exact h
      · next d hres =>
        -- What it returns is what a resolver put into its future.
        obtain ⟨a, ha, hin⟩ := ht.held d (TimedWait.result_returned hres)
        refine h.setTurn i (ht.has false ?_ (.inr rfl))
        intro b hb
        rw [Option.mem_unique hb ha]
        exact hin
      · next hres =>
        have hshown : Shown m.decided { t with registered := false } := ⟨ht.held, ht.ends, ht.asksFirst⟩
        exact h.applyOwn i hshown (hgo hres) _ now
      · exact h.setTurn i (hquiet _ _ rfl)
    · next d hst => exact h.setTurn i (ht.has t.registered (fun a ha => ht.ends a ha d (.inl hst)) (.inr rfl))
    · exact h
    · exact h

theorem fire (h : m.Inv) (i : Nat) : (m.fire i).Inv := by
  unfold PlanManager.fire
  split
  · exact h
  · next t hi =>
    split_ifs
    · exact h.setTurn i ((h.turns t (List.mem_of_getElem? hi)).interrupted rfl)
    · exact h

theorem abandon (h : m.Inv) (i : Nat) : (m.abandon i).Inv := by
  unfold PlanManager.abandon
  split
  · exact h
  · next t hi =>
    have ht := h.turns t (List.mem_of_getElem? hi)
    split
    · exact h.setTurn i (ht.interrupted rfl)
    · exact h
    · exact h.setTurn i (ht.on (fun _ => ⟨fun hc => (by cases hc), fun hc => (by cases hc)⟩)
        ⟨fun hc => (by cases hc), fun hc => (by cases hc)⟩)

end Inv

/-- What `resolve_approval` decides, it decides on an approval that waits. -/
theorem check_ok {r : Resolve} {plan : Option GeneralPlan} {a : PlanApproval} (h : r.check plan = .ok (p, a, d)) :
    plan = some p ∧ p.approval = some a ∧ a.resolved = false := by
  unfold Resolve.check at h
  cases plan with
  | none => cases h
  | some q =>
    dsimp only at h
    split at h
    · cases h
    · next b hb =>
      split_ifs at h with hres
      split at h
      · cases h
      · cases h
        exact ⟨rfl, hb, by simpa using hres⟩

namespace Inv

theorem resolveApproval (h : m.Inv) (r : Resolve) (hok : m.mayDecide r) (now : Int) : (m.resolveApproval r now).2.Inv := by
  unfold PlanManager.resolveApproval
  unfold mayDecide at hok
  split
  · exact h
  · next p a d hc =>
    rw [hc] at hok
    obtain ⟨hget, ha, hopen⟩ := check_ok hc
    obtain ⟨hinv, hdec, _, hres⟩ :=
      h.applyDecision (mem_of_get hget).1 hok ha hopen d (m.hasLiveFuture a.id) now
    dsimp only
    split_ifs
    · refine ⟨hinv.ledger.control _ _ _ _, hinv.turns, ?_⟩
      intro s hs
      rcases List.mem_append.1 hs with hs | hs
      · exact hinv.resolvers s hs
      · rw [List.mem_singleton.1 hs]
        show (a.id, d.recorded) ∈ (m.applyDecision p d (m.hasLiveFuture a.id) now).decided
        rw [hdec]
        exact List.mem_cons_self
    · exact hinv

theorem dropResolver (h : m.Inv) (k : Nat) : Inv { m with resolvers := m.resolvers.eraseIdx k } :=
  ⟨h.ledger.control _ _ _ _, h.turns, fun r hr => h.resolvers r (List.mem_of_mem_eraseIdx hr)⟩

theorem finish (h : m.Inv) (k : Nat) : (m.finish k).Inv := by
  unfold PlanManager.finish
  split
  · exact h
  · next r hr =>
    have hin := h.resolvers r (List.mem_of_getElem? hr)
    refine ⟨h.ledger.control _ _ _ _, ?_, (h.dropResolver k).resolvers⟩
    intro s hs
    obtain ⟨t, ht, rfl⟩ := List.mem_map.1 hs
    have hshown := h.turns t ht
    split_ifs with hmine
    · refine ⟨?_, hshown.ends, hshown.asksFirst⟩
      intro d hd
      obtain rfl : r.decision = d := Awaited.done.inj hd
      exact ⟨r.approval, hmine.1, hin⟩
    · exact hshown

theorem recoverOnStart (h : m.Inv) (now : Int) : (m.recoverOnStart now).Inv := by
  -- The plans that are left to look at are as they were: each save changes another.
  have hloop : ∀ (rest : List GeneralPlan) (m : PlanManager), m.Inv → (∀ p ∈ rest, p ∈ m.plans) →
      (rest.map (·.id)).Nodup → (rest.foldl (recoverPlan now) m).Inv := by
    intro rest
    induction rest with
    | nil => intro m hm _ _; exact hm
    | cons p rest ih =>
      intro m hm hin hids
      obtain ⟨hp, hrest⟩ := List.nodup_cons.1 hids
      have hpin := hin p List.mem_cons_self
      unfold List.foldl recoverPlan
      split_ifs with hex
      · have hlive : p.terminal = false := by
          unfold GeneralPlan.terminal
          rw [hex]
          rfl
        refine ih _ (hm.saved (hm.ledger.ordinary hpin hlive (pausePlan_ordinary hex now))) ?_ hrest
        intro q hq
        refine mem_save.2 (.inr ⟨hin q (List.mem_cons_of_mem _ hq), ?_⟩)
        intro heq
        exact hp (List.mem_map.2 ⟨q, hq, heq⟩)
      · exact ih m hm (fun q hq => hin q (List.mem_cons_of_mem _ hq)) hrest
  exact hloop m.plans m h (fun _ hp => hp) h.ledger.ids

theorem restart (h : m.Inv) {plans : List GeneralPlan} (hperm : plans.Perm m.plans) : (m.restart plans).Inv := by
  have hin {p : GeneralPlan} (hp : p ∈ plans) : p ∈ m.plans := hperm.mem_iff.1 hp
  have hl := h.ledger
  refine ⟨⟨(hperm.map _).nodup_iff.2 hl.ids, fun p hp q hq => hl.single p (hin hp) q (hin hq), fun p hp => hl.newest p (hin hp),
    hl.known, hl.trail, hl.approved, fun p hp => hl.asked p (hin hp), hl.createdOnce, hl.createdKnown, hl.decidedOnce,
    hl.decidedKnown⟩, List.forall_mem_nil _, List.forall_mem_nil _⟩

theorem updateSteps (h : m.Inv) {id : Nat} {updates : List StepUpdate}
    (ht : ∀ p ∈ m.get id, unknownStep updates p = false → p.terminal = false) (now : Int) : (m.updateSteps id updates now).Inv := by
  unfold PlanManager.updateSteps
  split
  · exact h
  · next p hget =>
    split_ifs with hun
    · exact h
    · exact h.saved (h.ledger.ordinary (mem_of_get hget).1 (ht p hget (by simpa using hun)) (updateSteps_ordinary updates now p))

theorem abortActiveForSession (h : m.Inv) (sessionKey reason : String) (now : Int) :
    (m.abortActiveForSession sessionKey reason now).Inv := by
  unfold PlanManager.abortActiveForSession
  split
  · exact h
  · next p hcur =>
    obtain ⟨hp, _, hlive⟩ := mem_of_current hcur
    exact h.saved (h.ledger.ordinary hp hlive (abortPlan_ordinary _ now p))

theorem resume (h : m.Inv) (id : Nat) (now : Int) : (m.resume id now).Inv := by
  unfold PlanManager.resume
  split
  · exact h
  · next p hget =>
    split_ifs with hst
    · have hlive : p.terminal = false := by
        unfold GeneralPlan.terminal
        rcases hst with hst | hst <;> rw [hst] <;> rfl
      exact h.saved (h.ledger.ordinary (mem_of_get hget).1 hlive (resumePlan_ordinary hst now))
    · exact h

theorem next (h : m.Inv) {e : Int × Event} (hf : m.fits e) (hok : m.Careful e) : (m.next e).Inv := by
  obtain ⟨now, e⟩ := e
  cases e with
  | propose args => exact h.propose args now
  | proceed i => exact h.proceed i hok now
  | fire i => exact h.fire i
  | abandon i => exact h.abandon i
  | resolveApproval r => exact h.resolveApproval r hok now
  | finish k => exact h.finish k
  | dropResolver k => exact h.dropResolver k
  | updateSteps id updates => exact h.updateSteps hok now
  | complete id summary => exact h.change hok fun p => closePlan_ordinary rfl _ summary now p
  | markBlocked id reason => exact h.change hok fun p => closePlan_ordinary rfl _ reason now p
  | cancel id => exact h.change hok fun p => abortPlan_ordinary _ now p
  | abortActiveForSession sessionKey reason => exact h.abortActiveForSession sessionKey reason now
  | resume id => exact h.resume id now
  | recoverOnStart => exact h.recoverOnStart now
  | restart plans => exact h.restart hf
  | armForced sessionKey => exact h.control _ _
  | disarmForced sessionKey => exact h.control _ _
  | setSticky sessionKey on =>
    obtain ⟨sticky, forcedPending, hm⟩ := m.setSticky_eq sessionKey on
    show (m.setSticky sessionKey on).Inv
    rw [hm]
    exact h.control sticky forcedPending

theorem sound (h : m.Inv) : m.Sound := by
  refine ⟨h.ledger.approved, h.ledger.decidedOnce, ?_, h.ledger.trail, ?_, ?_⟩
  · intro t ht a ha d hd
    refine (h.turns t ht).ends a ha d (.inr ?_)
    unfold Turn.result at hd
    split at hd
    · next hst =>
      rw [hst, Option.some.inj hd]
    · cases hd
  · intro p hp
    obtain ⟨hin, hnew⟩ := h.ledger.newest p hp
    refine ⟨hin, fun s hs hid => ?_⟩
    rcases hnew s hs hid with rfl | ⟨hlt, _⟩
    · exact Nat.le_refl _
    · exact Nat.le_of_lt hlt
  · intro p hp q hq hkey hpt hqt
    exact List.inj_on_of_nodup_map h.ledger.ids hp hq (h.ledger.single p hp q hq hkey hpt hqt)

end Inv

theorem Inv.init : Inv {} := by
  have hnone {α : Type} {P : α → Prop} : ∀ x ∈ ([] : List α), P x := List.forall_mem_nil _
  exact ⟨⟨List.nodup_nil, hnone, hnone, hnone, List.Pairwise.nil, hnone, hnone, List.nodup_nil, hnone, List.nodup_nil, hnone⟩,
    hnone, hnone⟩

/-- Where every step is careful, no plan runs unapproved in any state that is reached. -/
theorem nothing_runs_unapproved {m : PlanManager} (h : Reach next (fun m e => m.fits e ∧ m.Careful e) {} m) : m.Sound := by
  have hinv : m.Inv := h.invariant .init fun _ _ hm hok => hm.next hok.1 hok.2
  exact hinv.sound

namespace Sample

def ask : Proposal := { sessionKey := "cli:direct", goal := "ship it", steps := [{ id := 1, content := "build" }] }

def approve : Resolve := { planId := 0, decision := "approve" }

def waits : List (Int × Event) := [(0, .propose ask), (0, .proceed 0), (0, .proceed 0)]

def approved : List (Int × Event) :=
  waits ++ [(5, Event.resolveApproval approve), (6, .finish 0), (7, .proceed 0), (8, .updateSteps 0 [{ id := 1, status := some .completed }])]

/-- The timer fires while the surface that approves waits for its broadcast. -/
def timesOut : List (Int × Event) := waits ++ [(600, Event.resolveApproval approve), (600, .fire 0), (600, .proceed 0)]

/-- The plan is cancelled, and approved after that. -/
def cancelled : List (Int × Event) := waits ++ [(5, Event.cancel 0), (6, .resolveApproval approve)]

def superseded : List (Int × Event) :=
  [(0, .propose { ask with mode := .auto }), (0, .proceed 0), (1, .propose ask), (2, .propose ask), (3, .proceed 1)]

def run (es : List (Int × Event)) : PlanManager := es.foldl next {}

end Sample

theorem nothing_runs_unapproved_approved : (Sample.run Sample.approved).decided = [(0, some .approve)] ∧
    (Sample.run Sample.approved).Sound :=
  ⟨by decide, nothing_runs_unapproved (Reach.foldl _ _ .start (by decide))⟩

/-- An approval is decided twice, a plan runs that was cancelled, and a session has two live plans. -/
theorem plans_run_unapproved : (Reach next fits {} (Sample.run Sample.timesOut) ∧
      (Sample.run Sample.timesOut).decided = [(0, none), (0, some .approve)] ∧ ¬ (Sample.run Sample.timesOut).Sound) ∧
    (Reach next fits {} (Sample.run Sample.cancelled) ∧
      (Sample.run Sample.cancelled).plans.map (·.status) = [.executing] ∧ ¬ (Sample.run Sample.cancelled).Sound) ∧
    Reach next fits {} (Sample.run Sample.superseded) ∧
      (Sample.run Sample.superseded).plans.map (·.status) = [.aborted, .awaitingApproval, .awaitingApproval] ∧
      ¬ (Sample.run Sample.superseded).Sound :=
  ⟨⟨Reach.foldl _ _ .start (by decide), by decide, by decide⟩,
    ⟨Reach.foldl _ _ .start (by decide), by decide, by decide⟩,
    Reach.foldl _ _ .start (by decide), by decide, by decide⟩

end PlanManager

end Flowly.Plans
