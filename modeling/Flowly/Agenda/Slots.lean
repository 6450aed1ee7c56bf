/-
  Flowly.Agenda.Slots — what an agent's act does to the slots of the shared budget
  (`act_slots`).

  A slot is held by the tick that reserved it, by the wake-up it was reserved for, or by a
  cancelled task that has yet to give it back. It is given back, confirmed, or left behind
  by a process that stopped or died.
-/

import Flowly.Agenda.Wakeups

namespace Flowly.Agenda

open Flowly.Lib

def Phase.unread : Phase → Bool
  | .waiting _ (some (.delivered _)) => true
  | _ => false

/-- The wake-up has nothing to confirm and has not confirmed. -/
def Phase.isOpen (phase : Phase) : Bool := !phase.unread && phase ≠ .notifying

/-- The slot a tick reserved, and the clock reading it did so with. -/
def Agent.reserving (a : Agent) : Option (Nat × Int) :=
  a.tick.bind fun t =>
    match t.stage with
    | .reserved _ token => some (token, t.now)
    | _ => none

def Agent.holders (a : Agent) : List Nat :=
  (a.reserving.map Prod.fst).toList ++ (a.wakes.map Wake.token ++ a.unwinding)

def Agent.openTokens (a : Agent) : List Nat :=
  (a.reserving.map Prod.fst).toList ++ ((a.wakes.filter (·.phase.isOpen)).map Wake.token ++ a.unwinding)

structure Less (a a' : Agent) : Prop where
  reserving : a'.reserving = a.reserving ∨ a'.reserving = none
  wakes : a'.wakes.Sublist a.wakes
  unwinding : a'.unwinding.Sublist a.unwinding
  turns : a'.turns.Sublist a.turns
  nextTurn : a'.nextTurn = a.nextTurn
  unread : ∀ w ∈ a.wakes, w.phase.unread = true → w ∈ a'.wakes

structure SameSlots (a a' : Agent) : Prop where
  reserving : a'.reserving = a.reserving
  wakes : a'.wakes = a.wakes
  unwinding : a'.unwinding = a.unwinding
  turns : a'.turns = a.turns
  nextTurn : a'.nextTurn = a.nextTurn

variable {n : Nat}

/-- What an act does to the slots; `agentCap` is the cap of the agent. -/
inductive SlotEffect (zone : Zone) (agentCap : Nat) (p : Fin n) (a : Agent) (sh : Shared n) (e : Act) :
    Agent → Shared n → Prop
  | same {a' : Agent} : SameSlots a a' → SlotEffect zone agentCap p a sh e a' sh
  | reserved {a' : Agent} {t : Tick} {budget : List (Entry (Fin n))} : e = .reserve → a.tick = some t →
    reserve zone p agentCap GLOBAL_DAILY_CAP sh.nextToken t.now sh.budget = some budget → a.reserving = none →
    a'.reserving = some (sh.nextToken, t.now) → a'.wakes = a.wakes → a'.unwinding = a.unwinding → a'.turns = a.turns →
    a'.nextTurn = a.nextTurn →
    SlotEffect zone agentCap p a sh e a'
      { sh with budget, nextToken := sh.nextToken + 1, readings := t.now :: sh.readings }
  | began {a' : Agent} {item : Item} {token : Nat} {at_ : Int} : a.reserving = some (token, at_) → a'.reserving = none →
    a'.wakes = a.wakes ++ [⟨item, token, at_, .created⟩] → a'.unwinding = a.unwinding → a'.turns = a.turns →
    a'.nextTurn = a.nextTurn → SlotEffect zone agentCap p a sh e a' sh
  /-- A slot that nothing was said with is given back. -/
  | released {a' : Agent} {token : Nat} : token ∈ a.openTokens → Less a a' →
    (∀ k ∈ a.holders, k ≠ token → k ∈ a'.holders) →
    SlotEffect zone agentCap p a sh e a' { sh with budget := release token sh.budget }
  /-- What is not held any more was confirmed, or is left behind. -/
  | left {a' : Agent} {tokens : List Nat} : Less a a' →
    (∀ k ∈ a.holders, k ∈ a'.holders ∨ k ∈ tokens ∨ ∃ w ∈ a.wakes, w.token = k ∧ w.phase = .notifying) →
    SlotEffect zone agentCap p a sh e a' { sh with abandoned := sh.abandoned ++ tokens }
  | stopped {a' : Agent} {tokens : List Nat} : (∀ w ∈ a.wakes, w.phase.unread = false) → a'.reserving = none →
    a'.wakes = [] → a'.unwinding = a.unwinding ++ (a.wakes.filter (·.phase.isWaiting)).map Wake.token →
    a'.turns = a.turns → a'.nextTurn = a.nextTurn →
    (∀ k ∈ a.holders, k ∈ a'.holders ∨ k ∈ tokens ∨ ∃ w ∈ a.wakes, w.token = k ∧ w.phase = .notifying) →
    SlotEffect zone agentCap p a sh e a' { sh with abandoned := sh.abandoned ++ tokens }
  | published {id : Nat} {w : Wake} : a.wakeOf id = some w → w.phase = .created →
    SlotEffect zone agentCap p a sh e { a.enter id (.waiting a.nextTurn none) with
      turns := a.turns ++ [⟨a.nextTurn, id, w.item.sessionKey, w.token, w.at_⟩]
      nextTurn := a.nextTurn + 1 } sh
  /-- A turn that said nothing ends, and a wake-up hears of it. -/
  | heard {id turn : Nat} {outcome : Outcome} {w : Wake} {turns : List Turn} : turns.Sublist a.turns →
    a.wakeOf id = some w → w.phase = .waiting turn none → (∀ text, outcome ≠ .delivered text) →
    SlotEffect zone agentCap p a sh e ({ a with turns }.enter id (.waiting turn (some outcome))) sh
  /-- A turn speaks while its own wake-up waits for it and its slot is in the budget. -/
  | spoke {t : Turn} {text : Text} {w : Wake} {turns : List Turn} : turns.Sublist a.turns → t ∈ a.turns →
    a.wakeOf t.item = some w → w.phase = .waiting t.number none → (∃ x ∈ sh.budget, x.token = w.token) →
    SlotEffect zone agentCap p a sh e ({ a with turns }.enter t.item (.waiting t.number (some (.delivered text))))
      { sh with spoken := ⟨t.token, p, t.at_⟩ :: sh.spoken }
  | confirmed {a' : Agent} {id : Nat} {w : Wake} : a.wakeOf id = some w → w.phase.unread = true →
    a'.reserving = a.reserving → a'.wakes = (a.enter id .notifying).wakes → a'.unwinding = a.unwinding →
    a'.turns = a.turns → a'.nextTurn = a.nextTurn →
    SlotEffect zone agentCap p a sh e a' { sh with budget := confirm w.token sh.budget }

/-- The condition on an event: a turn speaks only while its own wake-up waits for it with
    its slot still in the budget, and what was said is taken up before the wait is over, its
    process stops, or its slot is as old as one that never came back; and a slot is reserved
    within a day of the latest clock reading one was reserved with. -/
def System.Counted (s : System n) (e : Event n) : Prop :=
  match e.act with
  | .finish turn (.delivered _) _ => ∀ t, (s.agents e.profile).turns.find? (·.number = turn) = some t →
    ∃ w, (s.agents e.profile).wakeOf t.item = some w ∧ w.phase = .waiting turn none ∧
      ∃ x ∈ s.shared.budget, x.token = w.token
  | .stop | .crash => ∀ w ∈ (s.agents e.profile).wakes, w.phase.unread = false
  | .timeout id _ => ∀ w, (s.agents e.profile).wakeOf id = some w → w.phase.unread = false
  | .reserve => ∀ t, (s.agents e.profile).tick = some t → (∀ r ∈ s.shared.readings, r - DAY_MS ≤ t.now) ∧
    ∀ p, ∀ w ∈ (s.agents p).wakes, w.phase.unread = true → t.now - w.at_ ≤ STALE_RESERVATION_MS
  | _ => True

theorem SameSlots.refl (a : Agent) : SameSlots a a := ⟨rfl, rfl, rfl, rfl, rfl⟩

theorem Less.of_same {a a' : Agent} (h : SameSlots a a') : Less a a' where
  reserving := Or.inl h.reserving
  wakes := h.wakes ▸ List.Sublist.refl _
  unwinding := h.unwinding ▸ List.Sublist.refl _
  turns := h.turns ▸ List.Sublist.refl _
  nextTurn := h.nextTurn
  unread := fun _ hw _ => h.wakes ▸ hw

theorem SameSlots.holders {a a' : Agent} (h : SameSlots a a') : a'.holders = a.holders := by
  unfold Agent.holders
  rw [h.reserving, h.wakes, h.unwinding]

/-- Wake-ups have distinct items. -/
theorem wake_eq {a : Agent} (hn : (a.wakes.map (·.item.id)).Nodup) {v w : Wake} {id : Nat} (hw : a.wakeOf id = some w)
    (hv : v ∈ a.wakes) (hid : v.item.id = id) : v = w := by
  have hwid : w.item.id = id := by simpa using List.find?_some hw
  exact List.inj_on_of_nodup_map hn hv (List.mem_of_find?_eq_some hw) (hid.trans hwid.symm)

theorem mem_drop {a : Agent} {id : Nat} {w : Wake} : w ∈ (a.drop id).wakes ↔ w ∈ a.wakes ∧ w.item.id ≠ id := by
  simp [Agent.drop]

/-- A wake-up that is not unread leaves. -/
theorem Less.drop {a a' : Agent} (hn : (a.wakes.map (·.item.id)).Nodup) {id : Nat} {w : Wake} (hw : a.wakeOf id = some w)
    (hread : w.phase.unread = false) (h : SameSlots a a') : Less a (a'.drop id) :=
  { Less.of_same h with
    wakes := List.filter_sublist.trans (h.wakes ▸ List.Sublist.refl _)
    unread := by
      intro v hv hunread
      refine mem_drop.mpr ⟨h.wakes ▸ hv, fun hid => ?_⟩
      rw [wake_eq hn hw hv hid, hread] at hunread
      cases hunread }

/-- The other holders stay. -/
theorem holders_drop {a a' : Agent} (hn : (a.wakes.map (·.item.id)).Nodup) {id : Nat} {w : Wake} (hw : a.wakeOf id = some w)
    (h : SameSlots a a') {k : Nat} (hk : k ∈ a.holders) : k = w.token ∨ k ∈ (a'.drop id).holders := by
  rw [← h.holders] at hk
  rcases List.mem_append.mp hk with hk | hk
  · exact Or.inr (List.mem_append_left _ hk)
  · rcases List.mem_append.mp hk with hk | hk
    · obtain ⟨v, hv, rfl⟩ := List.mem_map.mp hk
      by_cases hid : v.item.id = id
      · exact Or.inl (by rw [wake_eq hn hw (h.wakes ▸ hv) hid])
      · exact Or.inr (List.mem_append_right _ (List.mem_append_left _ (List.mem_map_of_mem (mem_drop.mpr ⟨hv, hid⟩))))
    · exact Or.inr (List.mem_append_right _ (List.mem_append_right _ hk))

theorem open_of_wake {a : Agent} {w : Wake} (hw : w ∈ a.wakes) (ho : w.phase.isOpen = true) : w.token ∈ a.openTokens :=
  List.mem_append_right _ (List.mem_append_left _ (List.mem_map_of_mem (List.mem_filter.mpr ⟨hw, ho⟩)))

theorem reserving_mem {a : Agent} {k : Nat} {at_ : Int} (h : a.reserving = some (k, at_)) : k ∈ a.openTokens := by
  simp [Agent.openTokens, h]

variable {zone : Zone} {agentCap : Nat} {p : Fin n} {a : Agent} {sh : Shared n}

/-- A wake-up gives its slot back and leaves. -/
theorem SlotEffect.given {e : Act} {a' : Agent} {id : Nat} {w : Wake} (hn : (a.wakes.map (·.item.id)).Nodup)
    (hw : a.wakeOf id = some w) (ho : w.phase.isOpen = true) (h : SameSlots a a') :
    SlotEffect zone agentCap p a sh e (a'.drop id) { sh with budget := release w.token sh.budget } := by
  have hread : w.phase.unread = false := by
    simp only [Phase.isOpen, Bool.and_eq_true, Bool.not_eq_true'] at ho
    exact ho.1
  exact .released (open_of_wake (List.mem_of_find?_eq_some hw) ho) (Less.drop hn hw hread h)
    fun k hk hne => (holders_drop hn hw h hk).resolve_left hne

theorem considered_same (settings : Settings) (counts : Int → Nat × Nat) (sessionBusy : Bool)
    (objectiveStatus : Option String) (now : Int) :
    SameSlots a (a.considered zone settings counts sessionBusy objectiveStatus now) := by
  unfold Agent.considered
  split
  · exact SameSlots.refl _
  · rename_i t ht
    have hreserving (hs : t.stage = .next) : a.reserving = none := by simp [Agent.reserving, ht, hs]
    split
    · rename_i hstage _
      exact ⟨(hreserving hstage).symm, rfl, rfl, rfl, rfl⟩
    · rename_i item rest hstage _
      split
      · exact ⟨(hreserving hstage).symm, rfl, rfl, rfl, rfl⟩
      · split
        · exact ⟨by simp [Agent.reserving, ht], rfl, rfl, rfl, rfl⟩
        · split
          · exact ⟨by simp [Agent.reserving, ht], rfl, rfl, rfl, rfl⟩
          · exact ⟨by simp [Agent.reserving, ht], rfl, rfl, rfl, rfl⟩
          · exact ⟨(hreserving hstage).symm, rfl, rfl, rfl, rfl⟩
    · exact SameSlots.refl _

theorem reserved_slots (settings : Settings) :
    SlotEffect zone (DAILY_CAP_BY_LEVEL settings.level) p a sh .reserve (a.reserved zone settings p sh).1
      (a.reserved zone settings p sh).2 := by
  unfold Agent.reserved
  split
  · exact .same (SameSlots.refl _)
  · rename_i t ht
    split
    · rename_i item hstage
      have hnone : a.reserving = none := by simp [Agent.reserving, ht, hstage]
      split
      · exact .same ⟨hnone.symm, rfl, rfl, rfl, rfl⟩
      · rename_i budget hbudget
        exact .reserved rfl ht hbudget hnone rfl rfl rfl rfl rfl
    · exact .same (SameSlots.refl _)

theorem began_slots (now : Int) :
    SlotEffect zone agentCap p a sh (.begin now) (a.began now sh).1 (a.began now sh).2 := by
  unfold Agent.began
  split
  · exact .same (SameSlots.refl _)
  · rename_i t ht
    split
    · rename_i item token hstage
      have hreserving : a.reserving = some (token, t.now) := by simp [Agent.reserving, ht, hstage]
      split
      · refine .released (reserving_mem hreserving) ⟨Or.inr rfl, List.Sublist.refl _, List.Sublist.refl _,
          List.Sublist.refl _, rfl, fun _ hw _ => hw⟩ fun k hk hne => ?_
        rcases List.mem_append.mp hk with hk | hk
        · rw [hreserving] at hk
          exact absurd (by simpa using hk) hne
        · exact List.mem_append_right _ hk
      · exact .began hreserving rfl rfl rfl rfl rfl
    · exact .same (SameSlots.refl _)

theorem woke_slots (hn : (a.wakes.map (·.item.id)).Nodup) (id : Nat) (how : Waking) (now : Int) :
    SlotEffect zone agentCap p a sh (.wake id how now) (a.woke id how now sh).1 (a.woke id how now sh).2 := by
  unfold Agent.woke
  split
  · exact .same (SameSlots.refl _)
  · rename_i w hw
    split
    · rename_i hcreated
      have hopen : w.phase.isOpen = true := by rw [hcreated]; rfl
      cases how with
      | died =>
        refine .left (Less.drop hn hw (by rw [hcreated]; rfl) (SameSlots.refl a)) fun k hk => ?_
        rcases holders_drop hn hw (SameSlots.refl a) hk with rfl | hk
        · exact Or.inr (Or.inl (List.mem_singleton_self _))
        · exact Or.inl hk
      | unpublished => exact SlotEffect.given hn hw hopen ⟨rfl, rfl, rfl, rfl, rfl⟩
      | published => exact .published hw hcreated
    · exact .same (SameSlots.refl _)

theorem SlotEffect.of_less {e : Act} {a' : Agent} (h : Less a a') (hk : ∀ k ∈ a.holders, k ∈ a'.holders ∨
    ∃ w ∈ a.wakes, w.token = k ∧ w.phase = .notifying) : SlotEffect zone agentCap p a sh e a' sh := by
  have hleft : SlotEffect zone agentCap p a sh e a' { sh with abandoned := sh.abandoned ++ [] } :=
    .left h fun k hin => (hk k hin).imp_right Or.inr
  rw [List.append_nil] at hleft
  exact hleft

/-- Only turns ended. -/
theorem Less.ended {a' : Agent} {turns : List Turn} (ht : turns.Sublist a.turns) (h : SameSlots { a with turns } a') :
    Less a a' :=
  ⟨Or.inl h.reserving, h.wakes ▸ List.Sublist.refl _, h.unwinding ▸ List.Sublist.refl _, h.turns ▸ ht, h.nextTurn,
    fun _ hw _ => h.wakes ▸ hw⟩

theorem SlotEffect.ended {e : Act} {a' : Agent} {turns : List Turn} (ht : turns.Sublist a.turns)
    (h : SameSlots { a with turns } a') : SlotEffect zone agentCap p a sh e a' sh :=
  .of_less (Less.ended ht h) fun _ hk => Or.inl (h.holders ▸ hk)

theorem finished_slots {turn : Nat} {outcome : Outcome} {now : Int}
    (hc : ∀ text, outcome = .delivered text → ∀ t, a.turns.find? (·.number = turn) = some t →
      ∃ w, a.wakeOf t.item = some w ∧ w.phase = .waiting turn none ∧ ∃ x ∈ sh.budget, x.token = w.token) :
    SlotEffect zone agentCap p a sh (.finish turn outcome now) (a.finished turn outcome now p sh).1
      (a.finished turn outcome now p sh).2 := by
  unfold Agent.finished
  split
  · exact .same (SameSlots.refl _)
  · rename_i t hfind
    have hsub : (a.turns.filter (·.number ≠ t.number)).Sublist a.turns := List.filter_sublist
    obtain rfl : t.number = turn := by simpa using List.find?_some hfind
    cases outcome with
    | delivered text =>
      obtain ⟨w, hw, hphase, hslot⟩ := hc text rfl t hfind
      have hwait : (Agent.wakeOf { a with turns := a.turns.filter (·.number ≠ t.number) } t.item).map Wake.phase =
          some (.waiting t.number none) := by
        change (a.wakeOf t.item).map Wake.phase = _
        rw [hw, Option.map_some, hphase]
      simp only [Agent.turnFinished, hwait]
      exact .spoke hsub (List.mem_of_find?_eq_some hfind) hw hphase hslot
    | silent | failed =>
      simp only [Agent.turnFinished, Shared.speak]
      split
      · rename_i k hk
        obtain ⟨w, hw, hphase⟩ := Option.map_eq_some_iff.mp hk
        exact .heard hsub hw hphase fun _ h => by cases h
      · exact .ended hsub (SameSlots.refl _)

theorem resumed_slots (hn : (a.wakes.map (·.item.id)).Nodup) (id : Nat) (now : Int) :
    SlotEffect zone agentCap p a sh (.resume id now) (a.resumed id now sh).1 (a.resumed id now sh).2 := by
  unfold Agent.resumed
  split
  · exact .same (SameSlots.refl _)
  · rename_i w hw
    split
    · rename_i hphase
      exact .confirmed hw (by rw [hphase]; rfl) rfl rfl rfl rfl rfl
    · rename_i hphase
      exact SlotEffect.given hn hw (by rw [hphase]; rfl) ⟨rfl, rfl, rfl, rfl, rfl⟩
    · rename_i hphase
      exact SlotEffect.given hn hw (by rw [hphase]; rfl) ⟨rfl, rfl, rfl, rfl, rfl⟩
    · exact .same (SameSlots.refl _)

theorem timedOut_slots (hn : (a.wakes.map (·.item.id)).Nodup) {id : Nat} {now : Int}
    (hc : ∀ w, a.wakeOf id = some w → w.phase.unread = false) :
    SlotEffect zone agentCap p a sh (.timeout id now) (a.timedOut id now sh).1 (a.timedOut id now sh).2 := by
  unfold Agent.timedOut
  split
  · exact .same (SameSlots.refl _)
  · rename_i w hw
    split
    · rename_i hwaiting
      refine SlotEffect.given hn hw ?_ ⟨rfl, rfl, rfl, rfl, rfl⟩
      have hread := hc w hw
      cases hphase : w.phase with
      | created => rfl
      | waiting turn outcome =>
        rw [hphase] at hread
        simp [Phase.isOpen, hread]
      | notifying =>
        rw [hphase] at hwaiting
        cases hwaiting
    · exact .same (SameSlots.refl _)

theorem stageTokens_eq : a.stageTokens = (a.reserving.map Prod.fst).toList := by
  unfold Agent.stageTokens Agent.reserving
  cases a.tick with
  | none => rfl
  | some t =>
    simp only [Option.elim_some, Option.bind_some]
    cases t.stage with
    | next => rfl
    | decided item => rfl
    | reserved item token => rfl

theorem stopped_slots (hc : ∀ w ∈ a.wakes, w.phase.unread = false) :
    SlotEffect zone agentCap p a sh .stop (a.stopped sh).1 (a.stopped sh).2 := by
  refine .stopped hc rfl rfl rfl rfl rfl fun k hk => ?_
  rw [stageTokens_eq]
  rcases List.mem_append.mp hk with hk | hk
  · exact Or.inr (Or.inl (List.mem_append_left _ hk))
  · rcases List.mem_append.mp hk with hk | hk
    · obtain ⟨w, hw, rfl⟩ := List.mem_map.mp hk
      cases hphase : w.phase with
      | created =>
        refine Or.inr (Or.inl (List.mem_append_right _ (List.mem_map_of_mem (List.mem_filter.mpr ⟨hw, ?_⟩))))
        simp [hphase]
      | waiting turn outcome =>
        refine Or.inl (List.mem_append_right _ (List.mem_append_right _ (List.mem_append_right _ ?_)))
        exact List.mem_map_of_mem (List.mem_filter.mpr ⟨hw, by simp [hphase, Phase.isWaiting]⟩)
      | notifying => exact Or.inr (Or.inr ⟨w, hw, rfl, hphase⟩)
    · exact Or.inl (List.mem_append_right _ (List.mem_append_right _ (List.mem_append_left _ hk)))

theorem crashed_slots (hc : ∀ w ∈ a.wakes, w.phase.unread = false) :
    SlotEffect zone agentCap p a sh .crash (a.crashed sh).1 (a.crashed sh).2 := by
  refine .left ⟨Or.inr rfl, List.nil_sublist _, List.nil_sublist _, List.nil_sublist _, rfl, fun w hw hunread => ?_⟩
    fun k hk => Or.inr (Or.inl ?_)
  · rw [hc w hw] at hunread
    cases hunread
  · rw [stageTokens_eq, List.append_assoc]
    exact hk

theorem unwound_slots (token : Nat) :
    SlotEffect zone agentCap p a sh (.unwind token) (a.unwound token sh).1 (a.unwound token sh).2 := by
  unfold Agent.unwound
  split
  · rename_i hin
    refine .released (List.mem_append_right _ (List.mem_append_right _ hin)) ⟨Or.inl rfl, List.Sublist.refl _,
      List.filter_sublist, List.Sublist.refl _, rfl, fun _ hw _ => hw⟩ fun k hk hne => ?_
    rcases List.mem_append.mp hk with hk | hk
    · exact List.mem_append_left _ hk
    · rcases List.mem_append.mp hk with hk | hk
      · exact List.mem_append_right _ (List.mem_append_left _ hk)
      · exact List.mem_append_right _ (List.mem_append_right _ (List.mem_filter.mpr ⟨hk, by simpa using hne⟩))
  · exact .same (SameSlots.refl _)

theorem notified_slots (hn : (a.wakes.map (·.item.id)).Nodup) (id : Nat) :
    SlotEffect zone agentCap p a sh (.notified id)
      (if (a.wakeOf id).map Wake.phase = some .notifying then a.drop id else a) sh := by
  split
  · rename_i hphase
    obtain ⟨w, hw, hnotifying⟩ := Option.map_eq_some_iff.mp hphase
    refine .of_less (Less.drop hn hw (by rw [hnotifying]; rfl) (SameSlots.refl a)) fun k hk => ?_
    rcases holders_drop hn hw (SameSlots.refl a) hk with rfl | hk
    · exact Or.inr ⟨w, List.mem_of_find?_eq_some hw, rfl, hnotifying⟩
    · exact Or.inl hk
  · exact .same (SameSlots.refl _)

theorem adds_same (result : Except ObjectiveError (Data × Option Item)) : SameSlots a (a.adds result) := by
  unfold Agent.adds
  split
  · exact ⟨rfl, rfl, rfl, rfl, rfl⟩
  · exact ⟨rfl, rfl, rfl, rfl, rfl⟩
  · exact SameSlots.refl _

/-- What an act of an agent does to the slots, where its event is counted. -/
theorem act_slots {settings : Fin n → Settings} {s : System n} {e : Event n}
    (hn : ((s.agents e.profile).wakes.map (·.item.id)).Nodup) (hc : s.Counted e) :
    SlotEffect zone (DAILY_CAP_BY_LEVEL (settings e.profile).level) e.profile (s.agents e.profile) s.shared e.act
      ((s.agents e.profile).act zone settings e.profile s.shared e.act).1
      ((s.agents e.profile).act zone settings e.profile s.shared e.act).2 := by
  obtain ⟨p, e⟩ := e
  unfold System.Counted at hc
  cases e with
  | schedule r now => exact .same (adds_same _)
  | restoreForObjective clean objectiveId sessionKey fallbackNote now => exact .same (adds_same _)
  | cancel id reason now => exact .same ⟨rfl, rfl, rfl, rfl, rfl⟩
  | cancelForObjective objectiveId reason now => exact .same ⟨rfl, rfl, rfl, rfl, rfl⟩
  | ownerWrote sessionKey now =>
    simp only [Agent.act]
    split
    · exact .same ⟨rfl, rfl, rfl, rfl, rfl⟩
    · exact .same (SameSlots.refl _)
  | start now =>
    simp only [Agent.act]
    split
    · exact .same (SameSlots.refl _)
    · exact .same ⟨rfl, rfl, rfl, rfl, rfl⟩
  | stop =>
    simp only [Agent.act]
    split
    · exact stopped_slots hc
    · exact .same (SameSlots.refl _)
  | crash => exact crashed_slots hc
  | unwind token => exact unwound_slots token
  | tick now =>
    simp only [Agent.act]
    split
    · rename_i hidle
      exact .same ⟨by simp [Agent.reserving, hidle.2], rfl, rfl, rfl, rfl⟩
    · exact .same (SameSlots.refl _)
  | consider sessionBusy objectiveStatus now =>
    simp only [Agent.act]
    exact .same (considered_same _ _ _ _ _)
  | reserve =>
    simp only [Agent.act]
    exact reserved_slots _
  | begin now => exact began_slots now
  | wake id how now => exact woke_slots hn id how now
  | finish turn outcome now =>
    refine finished_slots fun text ho t ht => ?_
    subst ho
    exact hc t ht
  | lost turn => exact .ended List.filter_sublist (SameSlots.refl _)
  | resume id now => exact resumed_slots hn id now
  | timeout id now => exact timedOut_slots hn hc
  | notified id => exact notified_slots hn id

end Flowly.Agenda
