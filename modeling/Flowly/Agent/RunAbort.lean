/-
  Flowly.Agent.RunAbort — the stop markers of chat runs and the operations they cancel
  (`flowly/agent/run_abort.py`: `request`, `is_requested`, `_prune_requested`,
  `run_cancellable`).

  The controller runs on one event loop. `request` and `_prune_requested` are single
  steps; `run_cancellable` is two, the registration of its task (`begin`) and the
  `finally` block after the task is over (`finish`). A task has a number of its own. The
  marker set is a list of which only membership is read.

  Proved: the scan over the markers ends, evicts no run with a registered operation and
  leaves `max_recent` markers or none that could go; and a request is remembered exactly
  if the run is marked or busy, or enough of the other markers can go before its own
  (`remembered_iff`). A marker that is the only idle one above the bound goes at once
  (`fresh_marker_evicted`).
-/

import Flowly.Lib.Reach
import Mathlib.Data.List.Nodup
import Mathlib.Data.List.Perm.Basic
import Mathlib.Data.List.TakeDrop

namespace Flowly.Agent.RunAbort

open Flowly.Lib

abbrev RunId := String

structure Operation where
  run : RunId
  task : Nat
  cancelled : Bool := false

structure Controller where
  maxRecent : Nat := 64
  requested : List RunId := []
  requestOrder : List RunId := []
  active : List Operation := []
  nextTask : Nat := 0

def isActive (active : List Operation) (run : RunId) : Bool := active.any (·.run = run)

def Controller.isRequested (c : Controller) (run : RunId) : Bool := run ≠ "" ∧ run ∈ c.requested

/-! ## The scan -/

/-- Where the loop of `_prune_requested` stands. -/
structure Scan where
  requested : List RunId
  order : List RunId
  scanned : Nat := 0

variable (maxRecent : Nat) (busy : RunId → Bool)

def Scan.round (s : Scan) : Option Scan :=
  match s.order with
  | [] => none
  | candidate :: rest =>
    if maxRecent < s.order.length ∧ s.scanned < s.order.length then
      if busy candidate then some { s with order := rest ++ [candidate], scanned := s.scanned + 1 }
      else some { requested := s.requested.filter (· ≠ candidate), order := rest, scanned := 0 }
    else none

variable {maxRecent busy}

theorem round_cases {s s' : Scan} (h : s.round maxRecent busy = some s') :
    ∃ candidate rest, s.order = candidate :: rest ∧ maxRecent < s.order.length ∧ s.scanned < s.order.length ∧
      ((busy candidate = true ∧ s' = { s with order := rest ++ [candidate], scanned := s.scanned + 1 }) ∨
        (busy candidate = false ∧
          s' = { requested := s.requested.filter (· ≠ candidate), order := rest, scanned := 0 })) := by
  unfold Scan.round at h
  split at h
  · cases h
  · rename_i candidate rest horder
    split at h
    · rename_i hgoes
      refine ⟨candidate, rest, horder, hgoes.1, hgoes.2, ?_⟩
      split at h
      · rename_i hbusy
        exact Or.inl ⟨hbusy, (Option.some.inj h).symm⟩
      · rename_i hidle
        exact Or.inr ⟨by simpa using hidle, (Option.some.inj h).symm⟩
    · cases h

theorem round_less {s s' : Scan} (h : s.round maxRecent busy = some s') :
    Prod.Lex (· < ·) (· < ·) (s'.order.length, s'.order.length - s'.scanned) (s.order.length, s.order.length - s.scanned) := by
  obtain ⟨candidate, rest, horder, _, hscanned, ⟨_, rfl⟩ | ⟨_, rfl⟩⟩ := round_cases h
  · have hlen : (rest ++ [candidate]).length = s.order.length := by rw [horder]; simp
    simp only [hlen]
    exact Prod.Lex.right _ (by omega)
  · refine Prod.Lex.left _ _ ?_
    rw [horder]
    exact Nat.lt_succ_self _

variable (maxRecent busy)

inductive Scan.Ends : Scan → Scan → Prop
  | last {s : Scan} : s.round maxRecent busy = none → Ends s s
  | round {s s' s'' : Scan} : s.round maxRecent busy = some s' → Ends s' s'' → Ends s s''

def Scan.loop (s : Scan) : Scan :=
  match _h : s.round maxRecent busy with
  | none => s
  | some s' => s'.loop
termination_by (s.order.length, s.order.length - s.scanned)
decreasing_by exact round_less _h

def Controller.pruneRequested (c : Controller) : Controller :=
  let s := Scan.loop c.maxRecent (isActive c.active) { requested := c.requested, order := c.requestOrder }
  { c with requested := s.requested, requestOrder := s.order }

/-- A fresh marker joins the queue. -/
def Controller.mark (c : Controller) (run : RunId) : Controller :=
  { c with requested := run :: c.requested, requestOrder := c.requestOrder ++ [run] }

def Controller.request (c : Controller) (run : RunId) : Controller × Bool :=
  if run = "" then (c, false)
  else
    let c := if run ∈ c.requested then c else (c.mark run).pruneRequested
    ({ c with active := c.active.map fun op => if op.run = run then { op with cancelled := true } else op }, true)

/-- `run_cancellable` up to its `await`; without a run nothing is registered, and with a
    request it raises. -/
def Controller.begin (c : Controller) (run : RunId) : Controller :=
  if run = "" ∨ c.isRequested run then c
  else { c with active := c.active ++ [{ run, task := c.nextTask }], nextTask := c.nextTask + 1 }

/-- A task is registered no more. -/
def Controller.unregister (c : Controller) (task : Nat) : Controller := { c with active := c.active.filter (·.task ≠ task) }

/-- The `finally` of `run_cancellable`. -/
def Controller.finish (c : Controller) (task : Nat) : Controller :=
  if c.active.any (·.task = task) then (c.unregister task).pruneRequested else c

inductive Event where
  | request (run : RunId)
  | begin (run : RunId)
  | finish (task : Nat)
  | prune

def step (c : Controller) : Event → Controller
  | .request run => (c.request run).1
  | .begin run => c.begin run
  | .finish task => c.finish task
  | .prune => c.pruneRequested

/-! ## What the scan leaves -/

/-- The markers that go: the oldest of idle runs, as many as there are too many. -/
def victims (order : List RunId) : List RunId := (order.filter fun run => !busy run).take (order.length - maxRecent)

variable {maxRecent busy}

theorem loop_ends (s : Scan) : Scan.Ends maxRecent busy s (s.loop maxRecent busy) := by
  induction s using Scan.loop.induct maxRecent busy with
  | case1 s hover =>
    have hloop : s.loop maxRecent busy = s := by
      rw [Scan.loop]
      split
      · rfl
      · rename_i h
        rw [hover] at h
        cases h
    rw [hloop]
    exact .last hover
  | case2 s s' hround ih =>
    have hloop : s.loop maxRecent busy = s'.loop maxRecent busy := by
      rw [Scan.loop]
      split
      · rename_i h
        rw [hround] at h
        cases h
      · rename_i h
        rw [hround] at h
        rw [Option.some.inj h]
    rw [hloop]
    exact .round hround ih

theorem victims_idle {order : List RunId} {run : RunId} (h : run ∈ victims maxRecent busy order) : busy run = false := by
  simpa using (List.mem_filter.mp (List.mem_of_mem_take h)).2

/-- A busy run at the front goes to the back. -/
theorem victims_rotate {candidate : RunId} {rest : List RunId} (h : busy candidate = true) :
    victims maxRecent busy (rest ++ [candidate]) = victims maxRecent busy (candidate :: rest) := by
  simp [victims, List.filter_append, h]

/-- An idle run at the front goes, where there are too many. -/
theorem victims_cons {candidate : RunId} {rest : List RunId} (h : busy candidate = false)
    (hmany : maxRecent < (candidate :: rest).length) :
    victims maxRecent busy (candidate :: rest) = candidate :: victims maxRecent busy rest := by
  have hlen : (candidate :: rest).length - maxRecent = rest.length - maxRecent + 1 := by
    rw [List.length_cons] at hmany ⊢
    omega
  unfold victims
  rw [hlen, List.filter_cons_of_pos (by simp [h]), List.take_succ_cons]

/-- The runs looked at since the last eviction are at the back, and busy. -/
def Scan.Passed (busy : RunId → Bool) (s : Scan) : Prop :=
  ∃ front back, s.order = front ++ back ∧ back.length = s.scanned ∧ ∀ run ∈ back, busy run = true

theorem passed_start (requested order : List RunId) : Scan.Passed busy { requested, order } :=
  ⟨order, [], (List.append_nil _).symm, rfl, List.forall_mem_nil _⟩

theorem round_passed {s s' : Scan} (h : s.round maxRecent busy = some s') (hp : s.Passed busy) : s'.Passed busy := by
  obtain ⟨candidate, rest, horder, _, hscanned, ⟨hbusy, rfl⟩ | ⟨_, rfl⟩⟩ := round_cases h
  · obtain ⟨front, back, hsplit, hlen, hback⟩ := hp
    cases front with
    | nil =>
      rw [hsplit, List.nil_append, hlen] at hscanned
      exact absurd hscanned (Nat.lt_irrefl _)
    | cons first front =>
      rw [horder, List.cons_append] at hsplit
      obtain ⟨rfl, rfl⟩ := List.cons.inj hsplit
      refine ⟨front, back ++ [candidate], List.append_assoc _ _ _, by simp [hlen], fun run hrun => ?_⟩
      rcases List.mem_append.mp hrun with hrun | hrun
      · exact hback run hrun
      · exact List.mem_singleton.mp hrun ▸ hbusy
  · exact passed_start _ _

/-- The scan evicts the victims, whole and in order, and rotates the rest. -/
structure Scan.Leaves (maxRecent : Nat) (busy : RunId → Bool) (s s' : Scan) : Prop where
  requested : s'.requested = s.requested.filter (· ∉ victims maxRecent busy s.order)
  order : s'.order.Perm (s.order.filter (· ∉ victims maxRecent busy s.order))
  bounded : s'.order.length ≤ maxRecent ∨ ∀ run ∈ s'.order, busy run = true

theorem last_leaves {s : Scan} (h : s.round maxRecent busy = none) (hp : s.Passed busy) : s.Leaves maxRecent busy s := by
  have hbounded : s.order.length ≤ maxRecent ∨ ∀ run ∈ s.order, busy run = true := by
    obtain ⟨front, back, hsplit, hlen, hback⟩ := hp
    by_cases hfew : s.order.length ≤ maxRecent
    · exact Or.inl hfew
    · refine Or.inr fun run hrun => ?_
      have hall : s.order.length ≤ s.scanned := by
        unfold Scan.round at h
        split at h
        · rename_i hnil
          rw [hnil] at hrun
          cases hrun
        · split at h
          · split at h
            · cases h
            · cases h
          · omega
      have hfront : front = [] := by
        rw [hsplit, List.length_append] at hall
        exact List.length_eq_zero_iff.mp (by omega)
      rw [hsplit, hfront, List.nil_append] at hrun
      exact hback run hrun
  have hnone : victims maxRecent busy s.order = [] := by
    rcases hbounded with hfew | hbusy
    · rw [victims, Nat.sub_eq_zero_of_le hfew, List.take_zero]
    · rw [victims, List.filter_eq_nil_iff.mpr fun run hrun => by simp [hbusy run hrun], List.take_nil]
  exact ⟨by simp [hnone], by simp [hnone], hbounded⟩

theorem ends_leaves {s s' : Scan} (h : Scan.Ends maxRecent busy s s') (hp : s.Passed busy) (hn : s.order.Nodup) :
    s.Leaves maxRecent busy s' := by
  induction h with
  | last h => exact last_leaves h hp
  | round hround _ ih =>
    rename_i s s1 s2
    have hp' := round_passed hround hp
    obtain ⟨candidate, rest, horder, hmany, _, ⟨hbusy, rfl⟩ | ⟨hidle, rfl⟩⟩ := round_cases hround
    · rw [horder] at hn
      have hperm : (rest ++ [candidate]).Perm (candidate :: rest) := List.perm_append_singleton _ _
      have hl := ih hp' (hperm.nodup_iff.mpr hn)
      refine ⟨?_, ?_, hl.bounded⟩
      · rw [hl.requested, horder, victims_rotate hbusy]
      · refine hl.order.trans ?_
        rw [horder, victims_rotate hbusy]
        exact hperm.filter _
    · rw [horder] at hn hmany
      obtain ⟨hout, hn⟩ := List.nodup_cons.mp hn
      have hl := ih hp' hn
      refine ⟨?_, ?_, hl.bounded⟩
      · rw [hl.requested, horder, victims_cons hidle hmany, List.filter_filter]
        exact List.filter_congr fun run _ => by simp [Bool.and_comm]
      · refine hl.order.trans (List.Perm.of_eq ?_)
        rw [horder, victims_cons hidle hmany, List.filter_cons_of_neg (by simp)]
        refine List.filter_congr fun run hrun => ?_
        have hne : run ≠ candidate := fun he => hout (he ▸ hrun)
        simp [hne]

/-! ## The controller -/

namespace Controller

/-- The marker set is what the queue holds, each run once. -/
structure Marked (c : Controller) : Prop where
  order : c.requestOrder.Nodup
  same : ∀ run, run ∈ c.requested ↔ run ∈ c.requestOrder

def evicted (c : Controller) : List RunId := victims c.maxRecent (isActive c.active) c.requestOrder

variable {c : Controller}

theorem prune_few (h : c.requestOrder.length ≤ c.maxRecent) : c.pruneRequested = c := by
  have hround : Scan.round c.maxRecent (isActive c.active) { requested := c.requested, order := c.requestOrder } = none := by
    unfold Scan.round
    split
    · rfl
    · exact if_neg fun hmany => absurd hmany.1 (Nat.not_lt.mpr h)
  unfold pruneRequested
  rw [Scan.loop]
  split
  · rfl
  · rename_i hsome
    rw [hround] at hsome
    cases hsome

theorem prune_leaves (h : c.Marked) :
    Scan.Leaves c.maxRecent (isActive c.active) { requested := c.requested, order := c.requestOrder }
      { requested := c.pruneRequested.requested, order := c.pruneRequested.requestOrder } := by
  have hends : Scan.Ends c.maxRecent (isActive c.active) { requested := c.requested, order := c.requestOrder } _ :=
    loop_ends _
  have hl := ends_leaves hends (passed_start _ _) h.order
  exact ⟨hl.requested, hl.order, hl.bounded⟩

variable {run : RunId}

theorem mem_pruned (h : c.Marked) :
    run ∈ c.pruneRequested.requested ↔ run ∈ c.requested ∧ run ∉ c.evicted := by
  have hkept : c.pruneRequested.requested = c.requested.filter (· ∉ c.evicted) := (prune_leaves h).requested
  rw [hkept, List.mem_filter, decide_eq_true_iff]

theorem prune_marked (h : c.Marked) : c.pruneRequested.Marked := by
  have hl := prune_leaves h
  constructor
  · exact hl.order.nodup_iff.mpr (h.order.filter _)
  · intro run
    have hmem : run ∈ c.pruneRequested.requestOrder ↔ run ∈ c.requestOrder ∧ run ∉ c.evicted := by
      have hkept : c.pruneRequested.requestOrder.Perm (c.requestOrder.filter (· ∉ c.evicted)) := hl.order
      rw [hkept.mem_iff, List.mem_filter, decide_eq_true_iff]
    rw [mem_pruned h, hmem, h.same]

theorem mark_marked (h : c.Marked) (hnew : run ∉ c.requested) : (c.mark run).Marked := by
  have hout : run ∉ c.requestOrder := fun hin => hnew ((h.same run).mpr hin)
  constructor
  · exact (List.perm_append_singleton _ _).nodup_iff.mpr (List.nodup_cons.mpr ⟨hout, h.order⟩)
  · intro other
    simp only [mark, List.mem_cons, List.mem_append, List.not_mem_nil, or_false, h.same]
    exact or_comm

theorem request_requested (c : Controller) (hne : run ≠ "") :
    (c.request run).1.requested = if run ∈ c.requested then c.requested else (c.mark run).pruneRequested.requested := by
  simp only [request, if_neg hne]
  split
  · rfl
  · rfl

theorem request_order (c : Controller) (hne : run ≠ "") :
    (c.request run).1.requestOrder =
      if run ∈ c.requested then c.requestOrder else (c.mark run).pruneRequested.requestOrder := by
  simp only [request, if_neg hne]
  split
  · rfl
  · rfl

theorem step_marked (h : c.Marked) (e : Event) : (step c e).Marked := by
  cases e with
  | request run =>
    by_cases hne : run = ""
    · simp only [step, request, if_pos hne]
      exact h
    · have hboth : ∀ c' : Controller, c'.Marked → c'.requested = (c.request run).1.requested →
          c'.requestOrder = (c.request run).1.requestOrder → (c.request run).1.Marked := fun c' hc hr ho =>
        ⟨ho ▸ hc.order, fun other => by rw [← hr, ← ho]; exact hc.same other⟩
      by_cases hin : run ∈ c.requested
      · exact hboth c h (by rw [request_requested c hne, if_pos hin]) (by rw [request_order c hne, if_pos hin])
      · exact hboth _ (prune_marked (mark_marked h hin)) (by rw [request_requested c hne, if_neg hin])
          (by rw [request_order c hne, if_neg hin])
  | begin run =>
    simp only [step, begin]
    split
    · exact h
    · exact ⟨h.order, h.same⟩
  | finish task =>
    simp only [step, finish]
    split
    · exact prune_marked ⟨h.order, h.same⟩
    · exact h
  | prune => exact prune_marked h

theorem run_marked {maxRecent : Nat} (h : Reach step (fun _ _ => True) { maxRecent } c) : c.Marked :=
  h.invariant (P := Marked) ⟨List.nodup_nil, fun _ => Iff.rfl⟩ fun _ e hm _ => step_marked hm e

/-! ## A request -/

/-- The run is marked or busy, or enough of the other markers can go. -/
def Remembers (c : Controller) (run : RunId) : Prop :=
  run ∈ c.requested ∨ isActive c.active run = true ∨
    c.requestOrder.length + 1 - c.maxRecent ≤ (c.requestOrder.filter fun other => !isActive c.active other).length

instance (c : Controller) (run : RunId) : Decidable (c.Remembers run) := inferInstanceAs (Decidable (_ ∨ _))

/-- The last of a list is not among its first, unless all are. -/
theorem last_mem_take {xs : List RunId} {x : RunId} (hx : x ∉ xs) {k : Nat} : x ∈ (xs ++ [x]).take k ↔ xs.length < k := by
  rw [List.take_append, List.mem_append]
  constructor
  · rintro (h | h)
    · exact absurd (List.mem_of_mem_take h) hx
    · by_contra hk
      rw [Nat.sub_eq_zero_of_le (by omega), List.take_zero] at h
      cases h
  · intro hk
    obtain ⟨d, hd⟩ : ∃ d, k - xs.length = d + 1 := ⟨k - xs.length - 1, by omega⟩
    rw [hd]
    exact Or.inr List.mem_cons_self

theorem mark_evicted (h : c.Marked) (hnew : run ∉ c.requested) :
    run ∉ (c.mark run).evicted ↔ isActive c.active run = true ∨
      c.requestOrder.length + 1 - c.maxRecent ≤ (c.requestOrder.filter fun other => !isActive c.active other).length := by
  have hout : run ∉ c.requestOrder := fun hin => hnew ((h.same run).mpr hin)
  cases hbusy : isActive c.active run with
  | true =>
    refine iff_of_true (fun hin => ?_) (Or.inl rfl)
    have hidle : isActive c.active run = false := victims_idle hin
    rw [hbusy] at hidle
    cases hidle
  | false =>
    have hfilter : (c.mark run).requestOrder.filter (fun other => !isActive c.active other) =
        (c.requestOrder.filter fun other => !isActive c.active other) ++ [run] := by
      simp [mark, List.filter_append, hbusy]
    have hlen : (c.mark run).requestOrder.length = c.requestOrder.length + 1 := by simp [mark]
    have hnot : run ∉ c.requestOrder.filter fun other => !isActive c.active other := fun hin =>
      hout (List.mem_of_mem_filter hin)
    change run ∉ ((c.mark run).requestOrder.filter fun other => !isActive c.active other).take
      ((c.mark run).requestOrder.length - c.maxRecent) ↔ _
    rw [hfilter, hlen, last_mem_take hnot]
    simp

/-- Right after a request that was accepted. -/
theorem requested_iff (h : c.Marked) (hne : run ≠ "") :
    (c.request run).1.isRequested run = true ↔ c.Remembers run := by
  have hmem : (c.request run).1.isRequested run = true ↔ run ∈ (c.request run).1.requested := by
    simp [isRequested, hne]
  rw [hmem, request_requested c hne]
  by_cases hin : run ∈ c.requested
  · rw [if_pos hin]
    exact iff_of_true hin (Or.inl hin)
  · rw [if_neg hin, mem_pruned (mark_marked h hin), mark_evicted h hin]
    exact ⟨fun hr => Or.inr hr.2, fun hr => ⟨List.mem_cons_self, hr.resolve_left hin⟩⟩

/-! ## Runs of the controller -/

/-- What `_prune_requested` does: it ends, and leaves few markers or only those of busy runs. -/
structure Scanned (c : Controller) : Prop where
  ends : ∃ s, Scan.Ends c.maxRecent (isActive c.active) { requested := c.requested, order := c.requestOrder } s ∧
    c.pruneRequested = { c with requested := s.requested, requestOrder := s.order }
  bounded : c.pruneRequested.requestOrder.length ≤ c.maxRecent ∨
    ∀ run ∈ c.pruneRequested.requestOrder, isActive c.active run = true

theorem Marked.scanned (h : c.Marked) : c.Scanned :=
  ⟨⟨_, loop_ends _, rfl⟩, (prune_leaves h).bounded⟩

/-- A scan keeps the markers of busy runs. -/
theorem prune_keeps (h : c.Marked) (hin : run ∈ c.requested)
    (hbusy : isActive c.active run = true) : run ∈ c.pruneRequested.requested := by
  refine (mem_pruned h).mpr ⟨hin, fun hv => ?_⟩
  rw [victims_idle hv] at hbusy
  cases hbusy

theorem isActive_cancelled (active : List Operation) (run other : RunId) :
    isActive (active.map fun op => if op.run = run then { op with cancelled := true } else op) other =
      isActive active other := by
  unfold isActive
  rw [List.any_map]
  congr 1
  funext op
  simp only [Function.comp_apply]
  split
  · rfl
  · rfl

/-- A marker of a run that is busy after a step was not evicted by it. -/
theorem step_keeps (h : c.Marked) (e : Event) (hin : run ∈ c.requested)
    (hbusy : isActive (step c e).active run = true) : run ∈ (step c e).requested := by
  cases e with
  | request other =>
    by_cases hne : other = ""
    · simp only [step, request, if_pos hne]
      exact hin
    · change run ∈ (c.request other).1.requested
      rw [request_requested c hne]
      split
      · exact hin
      · rename_i hnew
        refine prune_keeps (mark_marked h hnew) (List.mem_cons_of_mem _ hin) ?_
        simp only [step, request, if_neg hne, if_neg hnew, isActive_cancelled] at hbusy
        exact hbusy
  | begin other =>
    simp only [step, begin]
    split
    · exact hin
    · exact hin
  | finish task =>
    simp only [step, finish] at hbusy ⊢
    split at hbusy
    · rename_i htask
      rw [if_pos htask]
      exact prune_keeps (c := c.unregister task) ⟨h.order, h.same⟩ hin hbusy
    · rename_i htask
      rw [if_neg htask]
      exact hin
  | prune => exact prune_keeps h hin hbusy

/-- In every run of the controller a request is remembered exactly in these states, a busy
    run's marker stays, and each scan ends with few markers or only those of busy runs. -/
theorem remembered_iff {maxRecent : Nat} {c : Controller} (h : Reach step (fun _ _ => True) { maxRecent } c) :
    (∀ run, (c.request run).2 = true → ((c.request run).1.isRequested run = true ↔ c.Remembers run)) ∧
      (∀ e run, c.isRequested run = true → isActive (step c e).active run = true → (step c e).isRequested run = true) ∧
      c.Scanned ∧ (∀ run, run ∉ c.requested → (c.mark run).Scanned) ∧ ∀ task, (c.unregister task).Scanned := by
  have hm := run_marked h
  refine ⟨fun run hrun => ?_, fun e run hreq hbusy => ?_, hm.scanned, fun run hnew => (mark_marked hm hnew).scanned,
    fun task => Marked.scanned ⟨hm.order, hm.same⟩⟩
  · refine requested_iff hm fun hne => ?_
    simp [request, hne] at hrun
  · simp only [isRequested, decide_eq_true_eq] at hreq ⊢
    exact ⟨hreq.1, step_keeps hm e hreq.2 hbusy⟩

namespace Sample

def stopped : List Event := [.begin "a", .request "a"]

theorem stopped_reach : Reach step (fun _ _ => True) { maxRecent := 1 } (stopped.foldl step { maxRecent := 1 }) :=
  Reach.free _ _

theorem stopped_state : stopped.foldl step { maxRecent := 1 } =
    { maxRecent := 1, requested := ["a"], requestOrder := ["a"], active := [⟨"a", 0, true⟩], nextTask := 1 } := by
  simp [stopped, step, begin, request, mark, isRequested, prune_few]

/-- The marker of another run, between two operations, is the first idle one. -/
theorem fresh_marker_evicted :
    ∃ c : Controller, Reach step (fun _ _ => True) { maxRecent := 1 } c ∧ (c.request "b").2 = true ∧
      (c.request "b").1.isRequested "b" = false := by
  refine ⟨_, stopped_reach, rfl, ?_⟩
  have hm : Marked (stopped.foldl step { maxRecent := 1 }) := run_marked stopped_reach
  have hnot : ¬ Remembers (stopped.foldl step { maxRecent := 1 }) "b" := by
    rw [stopped_state]
    decide
  simpa using (requested_iff hm (by decide)).not.mpr hnot

def idle : List Event := [.request "a"]

theorem idle_reach : Reach step (fun _ _ => True) { maxRecent := 1 } (idle.foldl step { maxRecent := 1 }) :=
  Reach.free _ _

theorem idle_state : idle.foldl step { maxRecent := 1 } = { maxRecent := 1, requested := ["a"], requestOrder := ["a"] } := by
  simp [idle, step, request, mark, prune_few]

/-- The marker of an idle run makes room. -/
theorem stopped_remembered : ((idle.foldl step { maxRecent := 1 }).request "b").1.isRequested "b" = true := by
  refine ((remembered_iff idle_reach).1 "b" ?_).mpr ?_
  · rw [idle_state]
    rfl
  · rw [idle_state]
    decide

end Sample

end Controller

end Flowly.Agent.RunAbort
