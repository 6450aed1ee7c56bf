/-
  Flowly.Agenda.Wakeups — a wake-up is settled once and a moot one never runs.

  What an agent's act does to its items, wake-ups and turns is said once (`act_effect`).
  Cancellation, replacement and the owner's reply look at pending items only, so an item
  that runs and then waits again may be one that they would have taken away; and a turn
  may still run when its item waits again.

  Proved: every item stands on the agenda or has its one record, and is started at most
  `MAX_ATTEMPTS` times, in every run (`always_settled`). Where no item goes back to waiting
  after its owner wrote, or beside another check-in of its goal, and none is started while
  a turn of it still runs, at most one turn of an item runs, a goal has at most one pending
  check-in and no moot follow-up is started (`settled_once`). A follow-up whose turn fails
  after the owner wrote is started again, and a check-in whose turn planned the next one
  and failed stands beside it (`moot_started_and_two_check_ins`).
-/

import Flowly.Agenda.Service

namespace Flowly.Agenda

open Flowly.Lib

/-! ## What an act does -/

def Stage.items : Stage → List Item
  | .next => []
  | .decided item | .reserved item _ => [item]

def Agent.held (a : Agent) : List Item := a.tick.elim [] (·.stage.items)

def Agent.looking (a : Agent) : List Item := a.tick.elim [] fun t => t.stage.items ++ t.due

/-- The items that an act sends back to wait, unless they are spent. -/
def Agent.retried (a : Agent) : Act → Item → Prop
  | .start _, i => a.alive = false ∧ i.state = .running
  | .wake id .unpublished _, i => i.id = id ∧ ∃ w, a.wakeOf id = some w ∧ w.phase = .created
  | .resume id _, i => i.id = id ∧ ∃ w turn, a.wakeOf id = some w ∧ w.phase = .waiting turn (some .failed)
  | .timeout id _, i => i.id = id ∧ ∃ w, a.wakeOf id = some w ∧ w.phase.isWaiting = true
  | _, _ => False

/-- An act that starts nothing and hands out no id. -/
structure Calm (retried : Item → Prop) (a a' : Agent) : Prop where
  data : Moves (fun i => ∃ r ∈ a.looking, i.id = r.id) retried a.data a'.data
  looking : a'.looking.Sublist a.looking
  held : ∀ r ∈ a'.held, r ∈ a.held ∨ ∀ w ∈ a.wakes, w.item.id ≠ r.id
  wakes : (a'.wakes.map (·.item.id)).Sublist (a.wakes.map (·.item.id))
  created : ∀ w ∈ a'.wakes, w.phase = .created → w ∈ a.wakes
  turns : a'.turns.Sublist a.turns
  starts : a'.starts = a.starts
  answered : a'.answered = a.answered
  nextItem : a'.nextItem = a.nextItem

inductive Effect (a : Agent) (e : Act) : Agent → Prop
  | calm {a' : Agent} : Calm (a.retried e) a a' → Effect a e a'
  | added {data : Data} : Adds a.nextItem a.data data → Effect a e { a with data, nextItem := a.nextItem + 1 }
  | wrote (sessionKey : Text) (now : Int) :
    Effect a e { a with data := a.data.ownerWrote sessionKey now, answered := a.answered ++ a.owns sessionKey }
  | ticked (now : Int) (busySessions : List Text) : a.tick = none →
    Effect a e { a with tick := some { now, due := a.data.due now, busySessions } }
  | began {t : Tick} {item started : Item} {token : Nat} {data : Data} {now : Int} {busySessions : List Text} :
    e = .begin now → a.tick = some t → t.stage = .reserved item token →
    a.data.start item.id now = some (data, started) →
    Effect a e { a with
      data
      tick := some { t with busySessions, stage := .next }
      wakes := a.wakes ++ [{ item := started, token, at_ := t.now }]
      starts := ⟨started.id, started.cancelOnReply && decide (started.id ∈ a.answered)⟩ :: a.starts }
  | published {id : Nat} {w : Wake} : a.wakeOf id = some w → w.phase = .created →
    Effect a e { a.enter id (.waiting a.nextTurn none) with
      turns := a.turns ++ [⟨a.nextTurn, id, w.item.sessionKey, w.token, w.at_⟩]
      nextTurn := a.nextTurn + 1 }

theorem Calm.refl (retried : Item → Prop) (a : Agent) : Calm retried a a where
  data := Moves.refl _
  looking := List.Sublist.refl _
  held := fun _ h => Or.inl h
  wakes := List.Sublist.refl _
  created := fun _ h _ => h
  turns := List.Sublist.refl _
  starts := rfl
  answered := rfl
  nextItem := rfl

variable {retried : Item → Prop} {a : Agent} {data : Data}

/-- Only the data changed. -/
theorem Calm.of_data
    (h : Moves (fun i => ∃ r ∈ a.looking, i.id = r.id) retried a.data data) : Calm retried a { a with data } :=
  { Calm.refl retried a with data := h }

theorem Calm.drop {a a' : Agent} (h : Calm retried a a') (id : Nat) : Calm retried a (a'.drop id) :=
  { h with
    wakes := ((List.filter_sublist (l := a'.wakes)).map _).trans h.wakes
    created := fun w hw => h.created w (List.mem_of_mem_filter hw) }

theorem enter_ids (a : Agent) (id : Nat) (phase : Phase) :
    (a.enter id phase).wakes.map (·.item.id) = a.wakes.map (·.item.id) := by
  simp only [Agent.enter, List.map_map]
  refine List.map_congr_left fun w _ => ?_
  simp only [Function.comp_apply]
  split
  · rfl
  · rfl

theorem enter_created {id : Nat} {phase : Phase} (hp : phase ≠ .created) {w : Wake}
    (hw : w ∈ (a.enter id phase).wakes) (hc : w.phase = .created) : w ∈ a.wakes ∧ w.item.id ≠ id := by
  obtain ⟨v, hv, rfl⟩ := List.mem_map.mp hw
  by_cases hid : v.item.id = id
  · rw [if_pos hid] at hc
    exact absurd hc hp
  · rw [if_neg hid]
    exact ⟨hv, hid⟩

theorem Calm.enter {a a' : Agent} (h : Calm retried a a') (id : Nat) {phase : Phase}
    (hp : phase ≠ .created) : Calm retried a (a'.enter id phase) :=
  { h with
    wakes := (enter_ids a' id phase).symm ▸ h.wakes
    created := fun w hw hc => h.created w (enter_created hp hw hc).1 hc }

theorem Calm.turns_sublist {a a' : Agent} (h : Calm retried a a') {turns : List Turn}
    (ht : turns.Sublist a.turns) : Calm retried a { a' with turns } :=
  { h with turns := ht }

theorem wakeOf_none {id : Nat} (h : ¬ (a.wakeOf id).isSome) : ∀ w ∈ a.wakes, w.item.id ≠ id := by
  intro w hw hid
  apply h
  rw [Agent.wakeOf, List.find?_isSome]
  exact ⟨w, hw, by simpa using hid⟩

/-- A tick that goes on with the items after the one it looked at. -/
theorem Calm.next {t : Tick} (ht : a.tick = some t) {due : List Item} {stage : Stage}
    (hdata : Moves (fun i => ∃ r ∈ a.looking, i.id = r.id) retried a.data data)
    (hlooking : (stage.items ++ due).Sublist (t.stage.items ++ t.due))
    (hheld : ∀ r ∈ stage.items, r ∈ t.stage.items ∨ ∀ w ∈ a.wakes, w.item.id ≠ r.id) :
    Calm retried a { a with data, tick := some { t with due, stage } } :=
  { Calm.of_data hdata with
    looking := by
      simp only [Agent.looking, ht, Option.elim_some]
      exact hlooking
    held := by
      simp only [Agent.held, ht, Option.elim_some]
      exact hheld }

/-- The tick is over. -/
theorem Calm.over (retried : Item → Prop) (a : Agent) : Calm retried a { a with tick := none } :=
  { Calm.refl retried a with
    looking := List.nil_sublist _
    held := List.forall_mem_nil _ }

theorem considered_calm (a : Agent) (zone : Zone) (settings : Settings) (counts : Int → Nat × Nat)
    (sessionBusy : Bool) (objectiveStatus : Option String) (now : Int) :
    Calm retried a (a.considered zone settings counts sessionBusy objectiveStatus now) := by
  unfold Agent.considered
  split
  · exact Calm.refl _ _
  · rename_i t ht
    split
    · exact Calm.over _ _
    · rename_i item rest hstage hdue
      have hlook : item ∈ a.looking := by simp [Agent.looking, ht, hdue]
      have hnext : (t.stage.items ++ rest).Sublist (t.stage.items ++ t.due) := by
        rw [hdue]
        exact (List.sublist_cons_self _ _).append_left _
      have hdefers {untilMs : Int} {reason : Text} :
          Moves (fun i => ∃ r ∈ a.looking, i.id = r.id) retried a.data (a.data.defer item.id untilMs reason) :=
        (defer_moves item.id untilMs reason).mono (fun i hi => ⟨item, hlook, hi⟩) fun _ => False.elim
      split
      · exact Calm.over _ _
      · split
        · exact Calm.next ht (Moves.refl _) hnext fun r hr => Or.inl hr
        · rename_i hbusy
          split
          · exact Calm.next ht (settle_moves _ _ _ _ _).of_never hnext fun r hr => Or.inl hr
          · exact Calm.next ht hdefers hnext fun r hr => Or.inl hr
          · refine Calm.next ht (Moves.refl _) ?_ fun r hr => Or.inr ?_
            · rw [hstage, hdue]
              exact List.Sublist.refl _
            · rw [List.mem_singleton.mp hr]
              exact wakeOf_none fun h => hbusy (Or.inr h)
    · exact Calm.refl _ _

variable {n : Nat}

theorem reserved_calm (a : Agent) (zone : Zone) (settings : Settings) (p : Fin n) (sh : Shared n) :
    Calm retried a (a.reserved zone settings p sh).1 := by
  unfold Agent.reserved
  split
  · exact Calm.refl _ _
  · rename_i t ht
    split
    · rename_i item hstage
      have hlook : item ∈ a.looking := by simp [Agent.looking, ht, hstage, Stage.items]
      split
      · refine Calm.next ht ((defer_moves _ _ _).mono (fun i hi => ⟨item, hlook, hi⟩) fun _ => False.elim) ?_
          (List.forall_mem_nil _)
        exact List.sublist_append_right _ _
      · refine Calm.next ht (Moves.refl _) ?_ fun r hr => Or.inl ?_
        · rw [hstage]
          exact List.Sublist.refl _
        · rw [hstage]
          exact hr
    · exact Calm.refl _ _

theorem began_effect (a : Agent) (now : Int) (sh : Shared n) : Effect a (.begin now) (a.began now sh).1 := by
  unfold Agent.began
  split
  · exact .calm (Calm.refl _ _)
  · rename_i t ht
    split
    · rename_i item token hstage
      split
      · refine .calm (Calm.next ht (Moves.refl _) ?_ (List.forall_mem_nil _))
        exact List.sublist_append_right _ _
      · rename_i data started hstart
        exact .began rfl ht hstage hstart
    · exact .calm (Calm.refl _ _)

theorem gaveUp_calm {id : Nat} (now : Int) (h : ∀ i : Item, i.id = id → retried i) :
    Calm retried a (a.gaveUp id now) :=
  (Calm.of_data ((retryOrGiveUp_moves id turnFailed now).mono (fun _ => False.elim) h)).drop id

theorem woke_effect (a : Agent) (id : Nat) (how : Waking) (now : Int) (sh : Shared n) :
    Effect a (.wake id how now) (a.woke id how now sh).1 := by
  unfold Agent.woke
  split
  · exact .calm (Calm.refl _ _)
  · rename_i w hw
    split
    · rename_i hcreated
      cases how with
      | died => exact .calm ((Calm.refl _ a).drop id)
      | unpublished => exact .calm (gaveUp_calm now fun i hi => ⟨hi, w, hw, hcreated⟩)
      | published => exact .published hw hcreated
    · exact .calm (Calm.refl _ _)

theorem late_moves {defers retries : Item → Prop} (a : Agent) (t : Turn) (text : Text) (now : Int) :
    Moves defers retries a.data (a.late t text now).data :=
  ((delivered_moves _ _).then (settle_moves _ _ _ _ _)).of_never

theorem finished_calm (a : Agent) (turn : Nat) (outcome : Outcome) (now : Int) (p : Fin n)
    (sh : Shared n) : Calm retried a (a.finished turn outcome now p sh).1 := by
  unfold Agent.finished
  split
  · exact Calm.refl _ _
  · rename_i t _
    have hended : Calm retried a { a with turns := a.turns.filter (·.number ≠ turn) } :=
      (Calm.refl _ a).turns_sublist List.filter_sublist
    simp only [Agent.turnFinished]
    split
    · exact hended.enter _ nofun
    · split
      · exact { hended with data := late_moves a t _ now }
      · exact hended
      · exact hended

theorem resumed_calm (a : Agent) (id : Nat) (now : Int) (sh : Shared n) :
    Calm (a.retried (.resume id now)) a (a.resumed id now sh).1 := by
  unfold Agent.resumed
  split
  · exact Calm.refl _ _
  · rename_i w hw
    split
    · exact (Calm.of_data ((delivered_moves _ _).then (settle_moves _ _ _ _ _)).of_never).enter _ nofun
    · exact (Calm.of_data (settle_moves _ _ _ _ _).of_never).drop id
    · rename_i turn hphase
      exact gaveUp_calm now fun i hi => ⟨hi, w, turn, hw, hphase⟩
    · exact Calm.refl _ _

theorem timedOut_calm (a : Agent) (id : Nat) (now : Int) (sh : Shared n) :
    Calm (a.retried (.timeout id now)) a (a.timedOut id now sh).1 := by
  unfold Agent.timedOut
  split
  · exact Calm.refl _ _
  · rename_i w hw
    split
    · rename_i hwaiting
      exact gaveUp_calm now fun i hi => ⟨hi, w, hw, hwaiting⟩
    · exact Calm.refl _ _

/-- The service is gone; the turns of a process that goes on stay. -/
theorem Calm.gone (retried : Item → Prop) (a : Agent) {unwinding : List Nat} {turns : List Turn}
    (h : turns.Sublist a.turns) :
    Calm retried a { a with alive := false, tick := none, wakes := [], unwinding, turns } :=
  { Calm.over retried a with
    wakes := List.nil_sublist _
    created := fun _ h _ => absurd h (List.not_mem_nil)
    turns := h }

theorem adds_effect {e : Act} {result : Except ObjectiveError (Data × Option Item)}
    (h : ∀ data new, result = .ok (data, new) → (new = none ∧ Moves Never Never a.data data) ∨
      (new.isSome ∧ Adds a.nextItem a.data data)) : Effect a e (a.adds result) := by
  unfold Agent.adds
  split
  · rename_i data item
    rcases h data _ rfl with ⟨hnone, _⟩ | ⟨_, hadds⟩
    · cases hnone
    · exact .added hadds
  · rename_i data
    rcases h data _ rfl with ⟨_, hmoves⟩ | ⟨hsome, _⟩
    · exact .calm (Calm.of_data hmoves.of_never)
    · cases hsome
  · exact .calm (Calm.refl _ _)

variable (zone : Zone) (settings : Fin n → Settings)

theorem act_effect (p : Fin n) (a : Agent) (sh : Shared n) (e : Act) :
    Effect a e (a.act zone settings p sh e).1 := by
  cases e with
  | schedule r now => exact adds_effect fun data new h => Or.inr (schedule_adds h)
  | restoreForObjective clean objectiveId sessionKey fallbackNote now =>
    exact adds_effect fun data new h => restoreForObjective_spec h
  | cancel id reason now => exact .calm (Calm.of_data (cancel_moves _ _ _).of_never)
  | cancelForObjective objectiveId reason now => exact .calm (Calm.of_data (cancelForObjective_moves _ _ _).of_never)
  | ownerWrote sessionKey now =>
    simp only [Agent.act]
    split
    · exact .wrote sessionKey now
    · exact .calm (Calm.refl _ _)
  | start now =>
    simp only [Agent.act]
    split
    · exact .calm (Calm.refl _ _)
    · rename_i halive
      refine .calm { Calm.refl (a.retried (.start now)) a with data := ?_ }
      exact (recoverInterrupted_moves now).mono (fun _ => False.elim) fun i hi => ⟨by simpa using halive, hi⟩
  | stop =>
    simp only [Agent.act]
    split
    · exact .calm (Calm.gone _ a (List.Sublist.refl _))
    · exact .calm (Calm.refl _ _)
  | crash => exact .calm (Calm.gone _ a (List.nil_sublist _))
  | unwind token =>
    simp only [Agent.act, Agent.unwound]
    split
    · exact .calm { Calm.refl (a.retried (.unwind token)) a with }
    · exact .calm (Calm.refl _ _)
  | tick now =>
    simp only [Agent.act]
    split
    · rename_i hidle
      exact .ticked now _ hidle.2
    · exact .calm (Calm.refl _ _)
  | consider sessionBusy objectiveStatus now =>
    simp only [Agent.act]
    exact .calm (considered_calm a zone _ _ _ _ _)
  | reserve =>
    simp only [Agent.act]
    exact .calm (reserved_calm a zone _ p sh)
  | begin now => exact began_effect a now sh
  | wake id how now => exact woke_effect a id how now sh
  | finish turn outcome now => exact .calm (finished_calm a turn outcome now p sh)
  | lost turn => exact .calm ((Calm.refl _ a).turns_sublist List.filter_sublist)
  | resume id now => exact .calm (resumed_calm a id now sh)
  | timeout id now => exact .calm (timedOut_calm a id now sh)
  | notified id =>
    simp only [Agent.act]
    split
    · exact .calm ((Calm.refl _ a).drop id)
    · exact .calm (Calm.refl _ _)

/-! ## In every run -/

/-- How often an item was started. -/
def Agent.tries (a : Agent) (id : Nat) : Nat := a.starts.countP (·.item = id)

structure Agent.Inv (a : Agent) : Prop where
  /-- Every id that was handed out is on the agenda or has a record, once. -/
  once : a.data.ids.Perm (List.range a.nextItem)
  attempts : ∀ i ∈ a.data.items, i.attempts < MAX_ATTEMPTS ∧
    a.tries i.id ≤ i.attempts + if i.state = .running then 1 else 0
  tries : ∀ id, a.tries id ≤ MAX_ATTEMPTS
  fresh : ∀ id, a.nextItem ≤ id → a.tries id = 0
  looking : (a.looking.map (·.id)).Nodup
  /-- What a tick has yet to look at does not run. -/
  pending : ∀ r ∈ a.looking, ∀ i ∈ a.data.items, i.id = r.id → i.state = .pending
  wakes : (a.wakes.map (·.item.id)).Nodup
  held : ∀ r ∈ a.held, ∀ w ∈ a.wakes, w.item.id ≠ r.id

theorem init_inv : ({} : Agent).Inv where
  once := List.Perm.refl _
  attempts := List.forall_mem_nil _
  tries := fun _ => Nat.zero_le _
  fresh := fun _ _ => rfl
  looking := List.nodup_nil
  pending := List.forall_mem_nil _
  wakes := List.nodup_nil
  held := List.forall_mem_nil _

theorem ids_nodup (h : a.data.ids.Perm (List.range a.nextItem)) : (a.data.items.map (·.id)).Nodup :=
  (h.nodup_iff.mpr List.nodup_range).sublist (List.sublist_append_left _ _)

theorem item_eq (h : a.data.ids.Perm (List.range a.nextItem)) {i j : Item} (hi : i ∈ a.data.items)
    (hj : j ∈ a.data.items) (hid : i.id = j.id) : i = j :=
  List.inj_on_of_nodup_map (ids_nodup h) hi hj hid

theorem item_lt (h : a.data.ids.Perm (List.range a.nextItem)) {i : Item} (hi : i ∈ a.data.items) :
    i.id < a.nextItem :=
  List.mem_range.mp (h.subset (List.mem_append_left _ (List.mem_map_of_mem hi)))

theorem due_mem {d : Data} {now : Int} {i : Item} (h : i ∈ d.due now) : i ∈ d.items ∧ i.state = .pending := by
  obtain ⟨hin, hdue⟩ := List.mem_filter.mp h
  simp only [Bool.decide_and, Bool.and_eq_true, decide_eq_true_eq] at hdue
  exact ⟨(List.perm_insertionSort _ _).mem_iff.mp hin, hdue.1⟩

theorem due_nodup {d : Data} (h : (d.items.map (·.id)).Nodup) (now : Int) : ((d.due now).map (·.id)).Nodup :=
  (((List.perm_insertionSort (fun a b : Item => a.dueAt ≤ b.dueAt) d.items).map _).nodup_iff.mpr h).sublist
    (List.filter_sublist.map _)

theorem calm_inv {a a' : Agent} (hi : a.Inv) (h : Calm retried a a') : a'.Inv := by
  have htries : ∀ id, a'.tries id = a.tries id := fun id => by rw [Agent.tries, h.starts, Agent.tries]
  constructor
  · rw [h.nextItem]
    exact h.data.ids.trans hi.once
  · intro i' hin
    rw [htries]
    rcases h.data.items i' hin with hold | ⟨i, hold, ⟨r, hr, hid⟩, _, _, rfl⟩ | ⟨i, hold, _, hspent, _, _, rfl⟩
    · exact hi.attempts i' hold
    · have hpending := hi.pending r hr i hold hid
      have := hi.attempts i hold
      simp only [hpending, reduceCtorEq, if_false, Item.waiting] at this ⊢
      exact this
    · have := hi.attempts i hold
      simp only [Item.spent, decide_eq_false_iff_not, Nat.not_le] at hspent
      simp only [Item.waiting, Item.tried, reduceCtorEq, if_false]
      refine ⟨hspent, ?_⟩
      split at this
      · exact this.2
      · omega
  · intro id
    rw [htries]
    exact hi.tries id
  · intro id hid
    rw [htries]
    exact hi.fresh id (h.nextItem ▸ hid)
  · exact hi.looking.sublist (h.looking.map _)
  · intro r hr i' hin hid
    rcases h.data.items i' hin with hold | ⟨_, _, _, _, _, rfl⟩ | ⟨_, _, _, _, _, _, rfl⟩
    · exact hi.pending r (h.looking.subset hr) i' hold hid
    · rfl
    · rfl
  · exact hi.wakes.sublist h.wakes
  · intro r hr w hw
    have hmem := h.wakes.subset (List.mem_map_of_mem hw)
    obtain ⟨v, hv, hvw⟩ := List.mem_map.mp hmem
    rw [← hvw]
    rcases h.held r hr with hold | hnone
    · exact hi.held r hold v hv
    · exact hnone v hv

theorem added_inv (hi : a.Inv) (h : Adds a.nextItem a.data data) :
    Agent.Inv { a with data, nextItem := a.nextItem + 1 } := by
  obtain ⟨item, hid, hstate, hattempts, hitems⟩ := h.items
  exact
    { hi with
      once := by
        rw [List.range_succ]
        exact h.ids.trans (hi.once.append_right _)
      attempts := by
        intro i' hin
        rcases hitems i' hin with rfl | ⟨hold, _⟩
        · have hzero := hi.fresh i'.id hid.ge
          refine ⟨by rw [hattempts]; decide, ?_⟩
          exact hzero.le.trans (Nat.zero_le _)
        · exact hi.attempts i' hold
      fresh := fun id hle => hi.fresh id (Nat.le_of_succ_le hle)
      pending := by
        intro r hr i' hin hir
        rcases hitems i' hin with rfl | ⟨hold, _⟩
        · exact hstate
        · exact hi.pending r hr i' hold hir }

theorem ticked_inv (hi : a.Inv) (now : Int) (busySessions : List Text) :
    Agent.Inv { a with tick := some { now, due := a.data.due now, busySessions } } :=
  { hi with
    looking := due_nodup (ids_nodup hi.once) now
    pending := by
      intro r hr i hin hid
      obtain ⟨hrin, hstate⟩ := due_mem hr
      rw [item_eq hi.once hin hrin hid]
      exact hstate
    held := List.forall_mem_nil _ }

theorem began_inv {t : Tick} {item started : Item} {token : Nat} {now : Int}
    {busySessions : List Text} (hi : a.Inv) (ht : a.tick = some t) (hstage : t.stage = .reserved item token)
    (hstart : a.data.start item.id now = some (data, started)) (moot : Bool) :
    Agent.Inv { a with
      data
      tick := some { t with busySessions, stage := .next }
      wakes := a.wakes ++ [{ item := started, token, at_ := t.now }]
      starts := ⟨started.id, moot⟩ :: a.starts } := by
  obtain ⟨i, hin, hid, hpending, rfl, hids, hitems⟩ := start_spec hstart
  have hlook : a.looking = item :: t.due := by simp [Agent.looking, ht, hstage, Stage.items]
  have hheld : item ∈ a.held := by simp [Agent.held, ht, hstage, Stage.items]
  have hnodup := hi.looking
  rw [hlook, List.map_cons, List.nodup_cons] at hnodup
  have htries : ∀ id, (⟨(i.started now).id, moot⟩ :: a.starts).countP (fun st => st.item = id) =
      a.tries id + if i.id = id then 1 else 0 := by
    intro id
    rw [List.countP_cons]
    simp only [decide_eq_true_eq]
    rfl
  have hroom := hi.attempts i hin
  rw [if_neg (by rw [hpending]; decide)] at hroom
  constructor
  · exact hids ▸ hi.once
  · intro i' hin'
    rcases hitems i' hin' with ⟨hold, hnot⟩ | ⟨j, hj, hjid, _, rfl⟩
    · have hne : i.id ≠ i'.id := by
        intro he
        refine hnot (he ▸ hid) ?_
        exact hi.pending item (hlook ▸ List.mem_cons_self) i' hold (he ▸ hid)
      refine ⟨(hi.attempts i' hold).1, (htries _).le.trans ?_⟩
      rw [if_neg hne, Nat.add_zero]
      exact (hi.attempts i' hold).2
    · obtain rfl := item_eq hi.once hin hj (hid.trans hjid.symm)
      refine ⟨hroom.1, (htries _).le.trans ?_⟩
      exact Nat.add_le_add hroom.2 (le_of_eq (if_pos rfl))
  · intro id
    refine (htries id).le.trans ?_
    split
    · rename_i he
      rw [← he]
      omega
    · exact hi.tries id
  · intro id hle
    refine (htries id).trans ?_
    rw [if_neg (Nat.ne_of_lt (Nat.lt_of_lt_of_le (item_lt hi.once hin) hle)), Nat.add_zero]
    exact hi.fresh id hle
  · exact hnodup.2
  · intro r hr i' hin' hir
    rcases hitems i' hin' with ⟨hold, _⟩ | ⟨j, _, hjid, _, rfl⟩
    · exact hi.pending r (hlook ▸ List.mem_cons_of_mem _ hr) i' hold hir
    · exact absurd (List.mem_map.mpr ⟨r, hr, hir.symm.trans hjid⟩) hnodup.1
  · rw [List.map_append]
    refine List.nodup_append.mpr ⟨hi.wakes, List.nodup_singleton _, fun x hx y hy => ?_⟩
    obtain ⟨w, hw, rfl⟩ := List.mem_map.mp hx
    rw [List.mem_singleton.mp hy]
    exact fun he => hi.held item hheld w hw (he.trans hid)
  · exact List.forall_mem_nil _

theorem effect_inv {a a' : Agent} {e : Act} (hi : a.Inv) (h : Effect a e a') : a'.Inv := by
  cases h with
  | calm h => exact calm_inv hi h
  | added h => exact added_inv hi h
  | wrote sessionKey now =>
    have hcalm : Calm (a.retried e) a { a with data := a.data.ownerWrote sessionKey now } :=
      Calm.of_data (ownerWrote_moves _ _).of_never
    exact { calm_inv hi hcalm with }
  | ticked now busySessions _ => exact ticked_inv hi now busySessions
  | began _ ht hstage hstart => exact began_inv hi ht hstage hstart _
  | published hw hcreated => exact { hi with
      wakes := (enter_ids a _ _).symm ▸ hi.wakes
      held := by
        intro r hr w hin
        have hmem := List.mem_map_of_mem (f := fun w : Wake => w.item.id) hin
        rw [enter_ids] at hmem
        obtain ⟨v, hv, hvw⟩ := List.mem_map.mp hmem
        rw [← hvw]
        exact hi.held r hr v hv }

/-! ## Where nothing waits again that should be gone -/

/-- The condition on an act. What goes back to waiting is not a follow-up whose owner has
    written since it was scheduled, and it is the only check-in of its goal that then
    waits; and what is started has no turn that still runs. -/
structure Agent.Orderly (a : Agent) (e : Act) : Prop where
  moot : ∀ i ∈ a.data.items, a.retried e i → i.spent = false → i.cancelOnReply = true → i.id ∉ a.answered
  checkIns : ∀ i ∈ a.data.items, a.retried e i → i.spent = false → ∀ goal, i.objectiveId = some goal →
    ∀ j ∈ a.data.items, j.objectiveId = some goal → j.state = .pending ∨ a.retried e j ∧ j.spent = false → j.id = i.id
  turns : ∀ now t item token, e = .begin now → a.tick = some t → t.stage = .reserved item token →
    ∀ turn ∈ a.turns, turn.item ≠ item.id

structure Agent.Kept (a : Agent) : Prop where
  turns : ∀ id, a.turns.countP (·.item = id) ≤ 1
  created : ∀ w ∈ a.wakes, w.phase = .created → ∀ t ∈ a.turns, t.item ≠ w.item.id
  checkIns : ∀ goal, ∀ i ∈ a.data.items, ∀ j ∈ a.data.items, pendingFor goal i = true → pendingFor goal j = true →
    i.id = j.id
  moot : ∀ i ∈ a.data.items, i.state = .pending → i.cancelOnReply = true → i.id ∉ a.answered
  answered : ∀ id ∈ a.answered, id < a.nextItem
  starts : ∀ st ∈ a.starts, st.moot = false

theorem init_kept : ({} : Agent).Kept where
  turns := fun _ => Nat.zero_le _
  created := List.forall_mem_nil _
  checkIns := fun _ _ h => absurd h (List.not_mem_nil)
  moot := List.forall_mem_nil _
  answered := List.forall_mem_nil _
  starts := List.forall_mem_nil _

theorem pendingFor_iff {goal : Text} {i : Item} : pendingFor goal i = true ↔ i.objectiveId = some goal ∧ i.state = .pending := by
  simp [pendingFor]

theorem calm_kept {a a' : Agent} {e : Act} (hi : a.Inv) (hk : a.Kept) (ho : a.Orderly e) (h : Calm (a.retried e) a a') :
    a'.Kept := by
  -- where a pending item comes from
  have hfrom : ∀ i' ∈ a'.data.items, i'.state = .pending → ∃ i ∈ a.data.items, i.id = i'.id ∧
      i.objectiveId = i'.objectiveId ∧ i.cancelOnReply = i'.cancelOnReply ∧
        (i.state = .pending ∨ a.retried e i ∧ i.spent = false) := by
    intro i' hin hpending
    rcases h.data.items i' hin with hold | ⟨i, hold, ⟨r, hr, hid⟩, _, _, rfl⟩ | ⟨i, hold, hret, hspent, _, _, rfl⟩
    · exact ⟨i', hold, rfl, rfl, rfl, Or.inl hpending⟩
    · exact ⟨i, hold, rfl, rfl, rfl, Or.inl (hi.pending r hr i hold hid)⟩
    · exact ⟨i, hold, rfl, rfl, rfl, Or.inr ⟨hret, hspent⟩⟩
  constructor
  · exact fun id => (h.turns.countP_le).trans (hk.turns id)
  · exact fun w hw hc t ht => hk.created w (h.created w hw hc) hc t (h.turns.subset ht)
  · intro goal i' hi' j' hj' hpi hpj
    rw [pendingFor_iff] at hpi hpj
    obtain ⟨i, hin, hid, higoal, _, hisrc⟩ := hfrom i' hi' hpi.2
    obtain ⟨j, hjn, hjd, hjgoal, _, hjsrc⟩ := hfrom j' hj' hpj.2
    rw [hpi.1] at higoal
    rw [hpj.1] at hjgoal
    rw [← hid, ← hjd]
    rcases hisrc with hip | ⟨hir, his⟩
    · rcases hjsrc with hjp | ⟨hjr, hjs⟩
      · exact hk.checkIns goal i hin j hjn (pendingFor_iff.mpr ⟨higoal, hip⟩) (pendingFor_iff.mpr ⟨hjgoal, hjp⟩)
      · exact ho.checkIns j hjn hjr hjs goal hjgoal i hin higoal (Or.inl hip)
    · exact (ho.checkIns i hin hir his goal higoal j hjn hjgoal hjsrc).symm
  · intro i' hi' hpending hreply
    obtain ⟨i, hin, hid, _, hcancel, hsrc⟩ := hfrom i' hi' hpending
    rw [h.answered, ← hid]
    rw [← hcancel] at hreply
    rcases hsrc with hip | ⟨hir, his⟩
    · exact hk.moot i hin hip hreply
    · exact ho.moot i hin hir his hreply
  · rw [h.answered, h.nextItem]
    exact hk.answered
  · rw [h.starts]
    exact hk.starts

theorem added_kept (hk : a.Kept) (h : Adds a.nextItem a.data data) :
    Agent.Kept { a with data, nextItem := a.nextItem + 1 } := by
  obtain ⟨item, hid, hstate, _, hitems⟩ := h.items
  exact
    { hk with
      checkIns := by
        intro goal i hi j hj hpi hpj
        rcases hitems i hi with rfl | ⟨hin, hialone⟩
        · rcases hitems j hj with rfl | ⟨_, hjalone⟩
          · rfl
          · rw [hjalone goal (pendingFor_iff.mp hpi).1] at hpj
            cases hpj
        · rcases hitems j hj with rfl | ⟨hjn, _⟩
          · rw [hialone goal (pendingFor_iff.mp hpj).1] at hpi
            cases hpi
          · exact hk.checkIns goal i hin j hjn hpi hpj
      moot := by
        intro i hi hpending hreply hmem
        rcases hitems i hi with rfl | ⟨hin, _⟩
        · exact absurd (hk.answered _ hmem) (by rw [hid]; exact Nat.lt_irrefl _)
        · exact hk.moot i hin hpending hreply hmem
      answered := fun id hmem => Nat.lt_succ_of_lt (hk.answered id hmem) }

theorem wrote_kept (hi : a.Inv) (hk : a.Kept) (sessionKey : Text) (now : Int) :
    Agent.Kept { a with data := a.data.ownerWrote sessionKey now, answered := a.answered ++ a.owns sessionKey } :=
  { hk with
    checkIns := fun goal i hin j hjn hpi hpj =>
      hk.checkIns goal i (ownerWrote_gone hin).1 j (ownerWrote_gone hjn).1 hpi hpj
    moot := by
      intro i hin hpending hreply hmem
      obtain ⟨hold, hnot⟩ := ownerWrote_gone hin
      rcases List.mem_append.mp hmem with hmem | hmem
      · exact hk.moot i hold hpending hreply hmem
      · obtain ⟨j, hj, hjd⟩ := List.mem_map.mp hmem
        obtain ⟨hjn, hkey⟩ := List.mem_filter.mp hj
        obtain rfl := item_eq hi.once hjn hold hjd
        exact hnot ⟨of_decide_eq_true hkey, hreply, hpending⟩
    answered := by
      intro id hmem
      rcases List.mem_append.mp hmem with hmem | hmem
      · exact hk.answered id hmem
      · obtain ⟨j, hj, rfl⟩ := List.mem_map.mp hmem
        exact item_lt hi.once (List.mem_of_mem_filter hj) }

theorem began_kept {t : Tick} {item started : Item} {token : Nat} {now : Int}
    {busySessions : List Text} (hk : a.Kept) (hturns : ∀ turn ∈ a.turns, turn.item ≠ item.id)
    (hstart : a.data.start item.id now = some (data, started)) :
    Agent.Kept { a with
      data
      tick := some { t with busySessions, stage := .next }
      wakes := a.wakes ++ [{ item := started, token, at_ := t.now }]
      starts := ⟨started.id, started.cancelOnReply && decide (started.id ∈ a.answered)⟩ :: a.starts } := by
  obtain ⟨i, hin, hid, hpending, rfl, _, hitems⟩ := start_spec hstart
  have hold : ∀ i' ∈ data.items, i'.state = .pending → i' ∈ a.data.items := by
    intro i' hin' hp
    rcases hitems i' hin' with ⟨hold, _⟩ | ⟨j, _, _, _, rfl⟩
    · exact hold
    · cases hp
  exact
    { hk with
      created := by
        intro w hw hc t ht
        rcases List.mem_append.mp hw with hw | hw
        · exact hk.created w hw hc t ht
        · rw [List.mem_singleton.mp hw]
          exact fun he => hturns t ht (he.trans hid)
      checkIns := fun goal x hx y hy hpx hpy =>
        hk.checkIns goal x (hold x hx (pendingFor_iff.mp hpx).2) y (hold y hy (pendingFor_iff.mp hpy).2) hpx hpy
      moot := fun x hx hp hreply => hk.moot x (hold x hx hp) hp hreply
      starts := by
        intro st hst
        rcases List.mem_cons.mp hst with rfl | hst
        · change (i.cancelOnReply && decide (i.id ∈ a.answered)) = false
          rw [Bool.and_eq_false_iff, decide_eq_false_iff_not]
          cases hreply : i.cancelOnReply with
          | false => exact Or.inl rfl
          | true => exact Or.inr (hk.moot i hin hpending hreply)
        · exact hk.starts st hst }

theorem published_kept {id : Nat} {w : Wake} (hk : a.Kept) (hw : a.wakeOf id = some w) (hcreated : w.phase = .created) :
    Agent.Kept { a.enter id (.waiting a.nextTurn none) with
      turns := a.turns ++ [⟨a.nextTurn, id, w.item.sessionKey, w.token, w.at_⟩]
      nextTurn := a.nextTurn + 1 } := by
  have hid : w.item.id = id := by simpa using List.find?_some hw
  have hnone : ∀ t ∈ a.turns, t.item ≠ id := hid ▸ hk.created w (List.mem_of_find?_eq_some hw) hcreated
  exact
    { hk with
      turns := by
        intro i
        rw [List.countP_append, List.countP_singleton]
        split
        · rename_i he
          have hzero : a.turns.countP (·.item = i) = 0 :=
            List.countP_eq_zero.mpr fun t ht => by simpa using fun h => hnone t ht (h.trans (of_decide_eq_true he).symm)
          omega
        · exact hk.turns i
      created := by
        intro v hv hc t ht
        obtain ⟨hold, hne⟩ := enter_created (by nofun) hv hc
        rcases List.mem_append.mp ht with ht | ht
        · exact hk.created v hold hc t ht
        · rw [List.mem_singleton.mp ht]
          exact Ne.symm hne }

theorem effect_kept {a a' : Agent} {e : Act} (hi : a.Inv) (hk : a.Kept) (ho : a.Orderly e) (h : Effect a e a') :
    a'.Kept := by
  cases h with
  | calm h => exact calm_kept hi hk ho h
  | added h => exact added_kept hk h
  | wrote sessionKey now => exact wrote_kept hi hk sessionKey now
  | ticked now busySessions _ => exact { hk with }
  | began he ht hstage hstart => exact began_kept hk (ho.turns _ _ _ _ he ht hstage) hstart
  | published hw hcreated => exact published_kept hk hw hcreated

/-! ## Runs -/

/-- A step is an act of one agent. -/
theorem step_agents (s : System n) (e : Event n) (p : Fin n) :
    ((step zone settings s e).agents p) = s.agents p ∨
      p = e.profile ∧ ((step zone settings s e).agents p) = ((s.agents p).act zone settings p s.shared e.act).1 := by
  by_cases hp : p = e.profile
  · subst hp
    exact Or.inr ⟨rfl, Function.update_self _ _ _⟩
  · exact Or.inl (Function.update_of_ne hp _ _)

theorem step_inv {s : System n} (hi : ∀ p, (s.agents p).Inv) (e : Event n) (p : Fin n) :
    ((step zone settings s e).agents p).Inv := by
  rcases step_agents zone settings s e p with h | ⟨_, h⟩
  · rw [h]
    exact hi p
  · rw [h]
    exact effect_inv (hi p) (act_effect zone settings p _ _ _)

theorem run_inv {s : System n} {ok : System n → Event n → Prop} (h : Reach (step zone settings) ok {} s) :
    ∀ p, (s.agents p).Inv :=
  h.invariant (P := fun s => ∀ p, (s.agents p).Inv) (fun _ => init_inv) fun _ e hi _ => step_inv zone settings hi e

/-- In every run every item that was handed out is on the agenda or has its one record, and
    is started `MAX_ATTEMPTS` times at most. -/
theorem always_settled {s : System n} {ok : System n → Event n → Prop} (h : Reach (step zone settings) ok {} s) (p : Fin n) :
    (s.agents p).data.ids.Perm (List.range (s.agents p).nextItem) ∧ ∀ id, (s.agents p).tries id ≤ MAX_ATTEMPTS :=
  ⟨(run_inv zone settings h p).once, (run_inv zone settings h p).tries⟩

/-- A wake-up is settled once and a moot one never runs. -/
structure Agent.Settled (a : Agent) : Prop where
  /-- Each item is on the agenda, or has its one record. -/
  once : a.data.ids.Perm (List.range a.nextItem)
  turns : ∀ id, a.turns.countP (·.item = id) ≤ 1
  checkIns : ∀ goal, a.data.items.countP (pendingFor goal) ≤ 1
  starts : ∀ st ∈ a.starts, st.moot = false
  attempts : ∀ id, a.tries id ≤ MAX_ATTEMPTS

theorem countP_le_one {items : List Item} {p : Item → Bool} (hn : (items.map (·.id)).Nodup)
    (h : ∀ i ∈ items, ∀ j ∈ items, p i = true → p j = true → i.id = j.id) : items.countP p ≤ 1 := by
  rw [List.countP_eq_length_filter]
  by_contra hlen
  obtain ⟨i, j, rest, hfilter⟩ : ∃ i j rest, items.filter p = i :: j :: rest := by
    rcases hf : items.filter p with _ | ⟨i, _ | ⟨j, rest⟩⟩
    · simp [hf] at hlen
    · simp [hf] at hlen
    · exact ⟨i, j, rest, rfl⟩
  have hids : ((items.filter p).map (·.id)).Nodup := hn.sublist (List.filter_sublist.map _)
  have hi := List.mem_filter.mp (hfilter ▸ List.mem_cons_self : i ∈ items.filter p)
  have hj := List.mem_filter.mp (hfilter ▸ List.mem_cons_of_mem _ List.mem_cons_self : j ∈ items.filter p)
  rw [hfilter, List.map_cons, List.map_cons, List.nodup_cons] at hids
  exact hids.1 (h i hi.1 j hj.1 hi.2 hj.2 ▸ List.mem_cons_self)

/-- In a run in which nothing waits again that should be gone and nothing is started
    while a turn of it still runs. -/
theorem settled_once {s : System n}
    (h : Reach (step zone settings) (fun s e => (s.agents e.profile).Orderly e.act) {} s) (p : Fin n) :
    (s.agents p).Settled := by
  have hboth : (∀ p, (s.agents p).Inv) ∧ ∀ p, (s.agents p).Kept := by
    refine h.invariant (P := fun s => (∀ p, (s.agents p).Inv) ∧ ∀ p, (s.agents p).Kept)
      ⟨fun _ => init_inv, fun _ => init_kept⟩ fun s e ⟨hi, hk⟩ ho => ⟨step_inv zone settings hi e, fun p => ?_⟩
    rcases step_agents zone settings s e p with hsame | ⟨rfl, hact⟩
    · rw [hsame]
      exact hk p
    · rw [hact]
      exact effect_kept (hi _) (hk _) ho (act_effect zone settings _ _ _ _)
  exact
    { once := (hboth.1 p).once
      turns := (hboth.2 p).turns
      checkIns := fun goal => countP_le_one (ids_nodup (hboth.1 p).once) ((hboth.2 p).checkIns goal)
      starts := (hboth.2 p).starts
      attempts := (hboth.1 p).tries }

/-! ## Two runs -/

def utc : Zone where
  date ms := ms / DAY_MS
  minute ms := (ms % DAY_MS / MINUTE_MS).toNat
  instant day minute := day * DAY_MS + minute * MINUTE_MS
  date_span := by
    intro a b h
    simp only [DAY_MS, MINUTE_MS] at *
    omega

namespace Sample

def chat : Text := "cli:1".toList

def goalChat : Text := "cli:2".toList

def goal : Text := "obj_1".toList

def noon : Int := 12 * 60 * MINUTE_MS

def afternoon : Int := noon + 40 * MINUTE_MS

def followUp : Request :=
  { kind := .followUp, dueAt := 0, note := .ok "Check the laptop prices".toList, sessionKey := .ok chat }

def checkIn : Request :=
  { kind := .objective, dueAt := 0, note := .ok "Day 3".toList, sessionKey := .ok goalChat, objectiveId := some goal }

def nextCheckIn : Request := { checkIn with dueAt := noon + DAY_MS }

def takesUp (now : Int) : List Act := [.consider false (some "active") now, .reserve, .begin now]

def morning : List Act :=
  [Act.start noon, .schedule followUp noon, .schedule checkIn noon, .tick noon] ++ takesUp noon ++ takesUp noon ++
    [Act.consider false none noon, .wake 0 .published noon, .wake 1 .published noon]

/-- The owner writes, the check-in's turn plans the next one; the one turn fails and the other is not waited for. -/
def midday : List Act :=
  morning ++ [Act.ownerWrote chat noon, .schedule nextCheckIn noon, .finish 0 .failed noon, .resume 0 noon, .timeout 1 noon]

def evening : List Act :=
  midday ++ [Act.tick afternoon] ++ takesUp afternoon ++ takesUp afternoon ++ [Act.wake 1 .published afternoon]

/-- A run of one agent that may write often. -/
def run (acts : List Act) : System 1 :=
  (acts.map fun a => (⟨0, a⟩ : Event 1)).foldl (step utc fun _ => { level := .high }) {}

theorem run_reach (acts : List Act) :
    Reach (step utc fun _ => { level := .high }) (fun _ _ => True) {} (run acts) :=
  Reach.free _ _

/-- Two check-ins of a goal wait; and a follow-up is started whose owner wrote after it was
    scheduled, and an item has two turns. -/
theorem moot_started_and_two_check_ins :
    (∃ s : System 1, Reach (step utc fun _ => { level := .high }) (fun _ _ => True) {} s ∧
      (s.agents 0).data.items.countP (pendingFor goal) = 2) ∧
    ∃ s : System 1, Reach (step utc fun _ => { level := .high }) (fun _ _ => True) {} s ∧
      (∃ st ∈ (s.agents 0).starts, st.moot = true) ∧ (s.agents 0).turns.countP (·.item = 1) = 2 :=
  ⟨⟨run midday, run_reach _, by decide⟩, ⟨run evening, run_reach _, by decide⟩⟩

theorem always_settled_evening : ((run evening).agents 0).data.ids.Perm (List.range ((run evening).agents 0).nextItem) ∧
    ∀ id, ((run evening).agents 0).tries id ≤ MAX_ATTEMPTS :=
  always_settled utc _ (run_reach evening) 0

/-- The follow-up is started, its turn has nothing to say, and it is settled. -/
def quietActs : List Act :=
  [Act.start noon, .schedule followUp noon, .tick noon] ++ takesUp noon ++
    [Act.wake 0 .published noon, .finish 0 .silent noon, .resume 0 noon]

def quietNoon : List (Event 1) := quietActs.map fun a => ⟨0, a⟩

theorem orderly_of_no_items {a : Agent} {e : Act} (h : a.data.items = []) (hb : ∀ now, e = .begin now → False) :
    a.Orderly e where
  moot := by simp [h]
  checkIns := by simp [h]
  turns := fun now _ _ _ he => (hb now he).elim

theorem orderly_of_no_turns {a : Agent} {e : Act} (hr : ∀ i, a.retried e i → False) (h : a.turns = []) : a.Orderly e where
  moot := fun i _ hi => (hr i hi).elim
  checkIns := fun i _ hi => (hr i hi).elim
  turns := by simp [h]

theorem orderly_of_quiet {a : Agent} {e : Act} (hr : ∀ i, a.retried e i → False) (hb : ∀ now, e = .begin now → False) :
    a.Orderly e where
  moot := fun i _ hi => (hr i hi).elim
  checkIns := fun i _ hi => (hr i hi).elim
  turns := fun now _ _ _ he => (hb now he).elim

theorem orderly_of_silent {a : Agent} {id : Nat} {now : Int} (turn : Nat)
    (h : (a.wakeOf id).map (·.phase) = some (.waiting turn (some .silent))) : a.Orderly (.resume id now) := by
  refine orderly_of_quiet (fun i hi => ?_) fun _ h => by cases h
  obtain ⟨_, w, turn', hw, hphase⟩ := hi
  rw [hw, Option.map_some, hphase] at h
  cases h

theorem quietNoon_allowed : Reach.Allowed (step utc fun _ => { level := .high })
    (fun s e => (s.agents e.profile).Orderly e.act) {} quietNoon :=
  ⟨orderly_of_no_items rfl fun _ h => (by cases h), orderly_of_quiet (fun _ h => h) fun _ h => (by cases h),
    orderly_of_quiet (fun _ h => h) fun _ h => (by cases h), orderly_of_quiet (fun _ h => h) fun _ h => (by cases h),
    orderly_of_quiet (fun _ h => h) fun _ h => (by cases h), orderly_of_no_turns (fun _ h => h) (by decide),
    orderly_of_quiet (fun _ h => h) fun _ h => (by cases h), orderly_of_quiet (fun _ h => h) fun _ h => (by cases h),
    orderly_of_silent 0 (by decide), trivial⟩

theorem quietNoon_settled : (((quietNoon.foldl (step utc fun _ => { level := .high }) {})).agents 0).Settled ∧
    ((quietNoon.foldl (step utc fun _ => { level := .high }) {}).agents 0).data.log.length = 1 := by
  have h : Reach (step utc fun _ => { level := .high }) (fun s e => (s.agents e.profile).Orderly e.act) {}
      (quietNoon.foldl (step utc fun _ => { level := .high }) {}) := Reach.foldl _ _ .start quietNoon_allowed
  exact ⟨settled_once utc (fun _ => { level := .high }) h 0, by decide⟩

end Sample

end Flowly.Agenda
