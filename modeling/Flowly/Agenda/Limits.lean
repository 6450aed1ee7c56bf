/-
  Flowly.Agenda.Limits — the owner's daily limits over all agents.

  The ledger is the budget with the entries that were confirmed and have since been dropped
  for their age. What an act does to it is one case of `act_slots`.

  Proved: where a turn speaks only while its own wake-up waits for it with its slot in the
  budget, and what was said is taken up in time, the messages of a day stay within the cap
  of their agent and within the cap of all agents, and a slot nothing was said with is
  given back, still held, or expires (`within_limits`). A turn that was not waited for any
  more speaks after its slot went to another wake-up (`late_turn_exceeds`).
-/

import Flowly.Agenda.Slots
import Mathlib.Algebra.GroupWithZero.Nat

namespace Flowly.Agenda

open Flowly.Lib

variable {n : Nat}

/-! ## The ledger -/

structure Holds (sh : Shared n) (L : List (Entry (Fin n))) (p : Fin n) (a : Agent) : Prop where
  lt : ∀ k ∈ a.holders, k < sh.nextToken
  nodup : a.holders.Nodup
  reserving : ∀ k at_, a.reserving = some (k, at_) → ∀ x ∈ L, x.token = k → x.profile = p ∧ x.at_ = at_
  wakes : ∀ w ∈ a.wakes, ∀ x ∈ L, x.token = w.token →
    x.profile = p ∧ x.at_ = w.at_ ∧ (w.phase = .notifying → x.sent = true)
  turns : ∀ t ∈ a.turns, t.number < a.nextTurn ∧
    ∀ w ∈ a.wakes, ∀ o, w.phase = .waiting t.number o → t.token = w.token ∧ t.at_ = w.at_
  waiting : ∀ w ∈ a.wakes, ∀ k o, w.phase = .waiting k o → k < a.nextTurn
  unread : ∀ w ∈ a.wakes, w.phase.unread = true → ∃ m ∈ sh.spoken, m.token = w.token
  unspoken : ∀ k ∈ a.openTokens, ∀ m ∈ sh.spoken, m.token ≠ k

structure Ledger (zone : Zone) (cap : Fin n → Nat) (agents : Fin n → Agent) (sh : Shared n) (L : List (Entry (Fin n))) :
    Prop where
  budget : ∀ x ∈ sh.budget, x ∈ L
  old : ∀ x ∈ L, x ∈ sh.budget ∨ x.sent = true ∧ ∃ r ∈ sh.readings, KEEP_MS ≤ r - x.at_
  tokens : (L.map Entry.token).Nodup
  lt : ∀ x ∈ L, x.token < sh.nextToken
  all : ∀ day, (onDay zone day L).length ≤ GLOBAL_DAILY_CAP
  each : ∀ day p, (onDay zone day L).countP (·.profile = p) ≤ cap p
  holds : ∀ p, Holds sh L p (agents p)
  apart : ∀ p q, p ≠ q → ∀ k ∈ (agents p).holders, k ∉ (agents q).holders
  spokenTokens : (sh.spoken.map Spoken.token).Nodup
  spoken : ∀ m ∈ sh.spoken, ∃ x ∈ L, x.token = m.token ∧ x.profile = m.profile ∧ x.at_ = m.at_ ∧
    (x.sent = true ∨ x ∈ sh.budget ∧ ∃ w ∈ (agents m.profile).wakes, w.token = m.token ∧ w.phase.unread = true)
  sent : ∀ x ∈ L, x.sent = true → ∃ m ∈ sh.spoken, m.token = x.token
  held : ∀ x ∈ sh.budget, x.sent = false → x.token ∈ sh.abandoned ∨ ∃ p, x.token ∈ (agents p).holders

theorem init_holds (p : Fin n) : Holds ({} : Shared n) [] p {} where
  lt := List.forall_mem_nil _
  nodup := List.nodup_nil
  reserving := fun _ _ _ _ h => absurd h List.not_mem_nil
  wakes := List.forall_mem_nil _
  turns := List.forall_mem_nil _
  waiting := List.forall_mem_nil _
  unread := List.forall_mem_nil _
  unspoken := fun _ _ _ h => absurd h List.not_mem_nil

theorem init_ledger (zone : Zone) (cap : Fin n → Nat) : Ledger zone cap (fun _ => {}) ({} : Shared n) [] where
  budget := List.forall_mem_nil _
  old := List.forall_mem_nil _
  tokens := List.nodup_nil
  lt := List.forall_mem_nil _
  all := fun _ => Nat.zero_le _
  each := fun _ _ => Nat.zero_le _
  holds := init_holds
  apart := fun _ _ _ _ h => absurd h List.not_mem_nil
  spokenTokens := List.nodup_nil
  spoken := List.forall_mem_nil _
  sent := List.forall_mem_nil _
  held := List.forall_mem_nil _

theorem open_sub_holders {a : Agent} {k : Nat} (h : k ∈ a.openTokens) : k ∈ a.holders := by
  rcases List.mem_append.mp h with h | h
  · exact List.mem_append_left _ h
  · rcases List.mem_append.mp h with h | h
    · exact List.mem_append_right _ (List.mem_append_left _ ((List.filter_sublist.map _).subset h))
    · exact List.mem_append_right _ (List.mem_append_right _ h)

variable {a a' : Agent}

theorem reserving_sublist (h : a'.reserving = a.reserving ∨ a'.reserving = none) :
    (a'.reserving.map Prod.fst).toList.Sublist (a.reserving.map Prod.fst).toList := by
  rcases h with h | h
  · rw [h]
  · rw [h]
    exact List.nil_sublist _

theorem Less.holders (h : Less a a') : a'.holders.Sublist a.holders :=
  (reserving_sublist h.reserving).append ((h.wakes.map _).append h.unwinding)

theorem Less.openTokens (h : Less a a') : a'.openTokens.Sublist a.openTokens :=
  (reserving_sublist h.reserving).append (((h.wakes.filter _).map _).append h.unwinding)

theorem Holds.mono {sh : Shared n} {L : List (Entry (Fin n))} {p : Fin n} (h : Holds sh L p a)
    (hl : Less a a') : Holds sh L p a' where
  lt := fun k hk => h.lt k (hl.holders.subset hk)
  nodup := h.nodup.sublist hl.holders
  reserving := by
    intro k at_ hk
    rcases hl.reserving with hr | hr
    · exact h.reserving k at_ (hr ▸ hk)
    · rw [hr] at hk
      cases hk
  wakes := fun w hw => h.wakes w (hl.wakes.subset hw)
  turns := fun t ht => ⟨hl.nextTurn ▸ (h.turns t (hl.turns.subset ht)).1,
    fun w hw => (h.turns t (hl.turns.subset ht)).2 w (hl.wakes.subset hw)⟩
  waiting := fun w hw k o hp => hl.nextTurn ▸ h.waiting w (hl.wakes.subset hw) k o hp
  unread := fun w hw => h.unread w (hl.wakes.subset hw)
  unspoken := fun k hk => h.unspoken k (hl.openTokens.subset hk)

/-- An agent is not concerned by what the others do with their slots. -/
theorem Holds.frame {sh sh' : Shared n} {L L' : List (Entry (Fin n))} {p : Fin n} {a : Agent} (h : Holds sh L p a)
    (hnext : sh.nextToken ≤ sh'.nextToken)
    (hL : ∀ x' ∈ L', x'.token ∈ a.holders → ∃ x ∈ L, x.token = x'.token ∧ x.profile = x'.profile ∧ x.at_ = x'.at_ ∧
      (x.sent = true → x'.sent = true))
    (hnew : ∀ m ∈ sh'.spoken, m ∈ sh.spoken ∨ m.token ∉ a.holders) (hold : ∀ m ∈ sh.spoken, m ∈ sh'.spoken) :
    Holds sh' L' p a where
  lt := fun k hk => (h.lt k hk).trans_le hnext
  nodup := h.nodup
  reserving := by
    intro k at_ hk x' hx' hxk
    have hin : k ∈ a.holders := open_sub_holders (reserving_mem hk)
    obtain ⟨x, hx, ht, hp, hat, _⟩ := hL x' hx' (hxk ▸ hin)
    rw [← hp, ← hat]
    exact h.reserving k at_ hk x hx (ht.trans hxk)
  wakes := by
    intro w hw x' hx' hxw
    have hin : w.token ∈ a.holders := List.mem_append_right _ (List.mem_append_left _ (List.mem_map_of_mem hw))
    obtain ⟨x, hx, ht, hp, hat, hs⟩ := hL x' hx' (hxw ▸ hin)
    obtain ⟨h1, h2, h3⟩ := h.wakes w hw x hx (ht.trans hxw)
    exact ⟨hp ▸ h1, hat ▸ h2, fun hn => hs (h3 hn)⟩
  turns := h.turns
  waiting := h.waiting
  unread := by
    intro w hw hu
    obtain ⟨m, hm, hmw⟩ := h.unread w hw hu
    exact ⟨m, hold m hm, hmw⟩
  unspoken := by
    intro k hk m hm
    rcases hnew m hm with hm | hm
    · exact h.unspoken k hk m hm
    · exact fun he => hm (he ▸ open_sub_holders hk)

/-! ## What one agent's act does -/

variable {zone : Zone} {cap : Fin n → Nat} {agents : Fin n → Agent} {sh : Shared n} {L : List (Entry (Fin n))} {p : Fin n}
  {a' : Agent}

/-- The slots of the agents stay apart where one of them gets fresh ones at most. -/
theorem apart_update (h : Ledger zone cap agents sh L) (hk : ∀ k ∈ a'.holders, k ∈ (agents p).holders ∨ k = sh.nextToken) :
    ∀ q r, q ≠ r → ∀ k ∈ (Function.update agents p a' q).holders, k ∉ (Function.update agents p a' r).holders := by
  have hother : ∀ q, q ≠ p → ∀ k ∈ a'.holders, k ∉ (agents q).holders := by
    intro q hq k hin hmem
    rcases hk k hin with hold | rfl
    · exact h.apart p q (Ne.symm hq) k hold hmem
    · exact absurd ((h.holds q).lt _ hmem) (Nat.lt_irrefl _)
  intro q r hqr k hin hmem
  by_cases hq : q = p
  · subst hq
    rw [Function.update_self] at hin
    rw [Function.update_of_ne (Ne.symm hqr)] at hmem
    exact hother r (Ne.symm hqr) k hin hmem
  · rw [Function.update_of_ne hq] at hin
    by_cases hr : r = p
    · subst hr
      rw [Function.update_self] at hmem
      exact hother q hq k hmem hin
    · rw [Function.update_of_ne hr] at hmem
      exact h.apart q r hqr k hin hmem

theorem agents_update {P : Fin n → Agent → Prop} (hp : P p a') (hq : ∀ q, q ≠ p → P q (agents q)) (q : Fin n) :
    P q (Function.update agents p a' q) := by
  by_cases h : q = p
  · subst h
    rwa [Function.update_self]
  · rw [Function.update_of_ne h]
    exact hq q h

/-- A wake-up that has something to confirm stays one. -/
theorem unread_update (hu : ∀ w ∈ (agents p).wakes, w.phase.unread = true → w ∈ a'.wakes) {q : Fin n} {k : Nat}
    (h : ∃ w ∈ (agents q).wakes, w.token = k ∧ w.phase.unread = true) :
    ∃ w ∈ (Function.update agents p a' q).wakes, w.token = k ∧ w.phase.unread = true := by
  obtain ⟨w, hw, hk, hunread⟩ := h
  refine ⟨w, ?_, hk, hunread⟩
  by_cases hq : q = p
  · subst hq
    rw [Function.update_self]
    exact hu w hw hunread
  · rwa [Function.update_of_ne hq]

/-- What an agent does not hold any more was confirmed, or is left behind. -/
theorem Ledger.leave (h : Ledger zone cap agents sh L) {tokens : List Nat} (hp : Holds sh L p a')
    (hin : ∀ k ∈ a'.holders, k ∈ (agents p).holders) (hu : ∀ w ∈ (agents p).wakes, w.phase.unread = true → w ∈ a'.wakes)
    (hk : ∀ k ∈ (agents p).holders, k ∈ a'.holders ∨ k ∈ tokens ∨ ∃ w ∈ (agents p).wakes, w.token = k ∧ w.phase = .notifying) :
    Ledger zone cap (Function.update agents p a') { sh with abandoned := sh.abandoned ++ tokens } L :=
  have hframe : ∀ {q : Fin n} {a : Agent}, Holds sh L q a → Holds { sh with abandoned := sh.abandoned ++ tokens } L q a :=
    fun hq => { hq with }
  { h with
    holds := agents_update (hframe hp) fun q _ => hframe (h.holds q)
    apart := apart_update h fun k hk => Or.inl (hin k hk)
    spoken := by
      intro m hm
      obtain ⟨x, hx, ht, hp, hat, hs⟩ := h.spoken m hm
      exact ⟨x, hx, ht, hp, hat, hs.imp_right fun hs => ⟨hs.1, unread_update hu hs.2⟩⟩
    held := by
      intro x hx hs
      rcases h.held x hx hs with hab | ⟨q, hq⟩
      · exact Or.inl (List.mem_append_left _ hab)
      · by_cases hqp : q = p
        · subst hqp
          rcases hk _ hq with hin | hin | ⟨w, hw, hwk, hnotifying⟩
          · exact Or.inr ⟨q, by rwa [Function.update_self]⟩
          · exact Or.inl (List.mem_append_right _ hin)
          · have := ((h.holds q).wakes w hw x (h.budget x hx) hwk.symm).2.2 hnotifying
            rw [hs] at this
            cases this
        · exact Or.inr ⟨q, by rwa [Function.update_of_ne hqp]⟩ }

theorem left_ledger (h : Ledger zone cap agents sh L) {tokens : List Nat} (hl : Less (agents p) a')
    (hk : ∀ k ∈ (agents p).holders, k ∈ a'.holders ∨ k ∈ tokens ∨ ∃ w ∈ (agents p).wakes, w.token = k ∧ w.phase = .notifying) :
    Ledger zone cap (Function.update agents p a') { sh with abandoned := sh.abandoned ++ tokens } L :=
  h.leave ((h.holds p).mono hl) (fun _ hin => hl.holders.subset hin) hl.unread hk

/-- A slot that nothing was said with goes. -/
theorem released_ledger (h : Ledger zone cap agents sh L) {token : Nat} (ho : token ∈ (agents p).openTokens)
    (hl : Less (agents p) a') (hk : ∀ k ∈ (agents p).holders, k ≠ token → k ∈ a'.holders) :
    Ledger zone cap (Function.update agents p a') { sh with budget := release token sh.budget } (release token L) := by
  have hsub : (release token L).Sublist L := List.filter_sublist
  have hframe : ∀ {q : Fin n} {a : Agent}, Holds sh L q a →
      Holds { sh with budget := release token sh.budget } (release token L) q a := fun hq =>
    hq.frame (Nat.le_refl _) (fun x' hx' _ => ⟨x', hsub.subset hx', rfl, rfl, rfl, id⟩) (fun _ hm => Or.inl hm)
      fun _ hm => hm
  constructor
  · exact fun x hx => mem_release.mpr ⟨h.budget x (mem_release.mp hx).1, (mem_release.mp hx).2⟩
  · intro x hx
    obtain ⟨hin, hne⟩ := mem_release.mp hx
    exact (h.old x hin).imp_left fun hb => mem_release.mpr ⟨hb, hne⟩
  · exact h.tokens.sublist (hsub.map _)
  · exact fun x hx => h.lt x (hsub.subset hx)
  · exact fun day => (hsub.filter _).length_le.trans (h.all day)
  · exact fun day q => (hsub.filter _).countP_le.trans (h.each day q)
  · exact agents_update (hframe ((h.holds p).mono hl)) fun q _ => hframe (h.holds q)
  · exact apart_update h fun k hin => Or.inl (hl.holders.subset hin)
  · exact h.spokenTokens
  · intro m hm
    obtain ⟨x, hx, ht, hp, hat, hs⟩ := h.spoken m hm
    have hne : x.token ≠ token := ht ▸ (h.holds p).unspoken token ho m hm
    refine ⟨x, mem_release.mpr ⟨hx, hne⟩, ht, hp, hat, hs.imp_right fun hs => ?_⟩
    exact ⟨mem_release.mpr ⟨hs.1, hne⟩, unread_update hl.unread hs.2⟩
  · exact fun x hx hs => h.sent x (hsub.subset hx) hs
  · intro x hx hs
    obtain ⟨hin, hne⟩ := mem_release.mp hx
    rcases h.held x hin hs with hab | ⟨q, hq⟩
    · exact Or.inl hab
    · by_cases hqp : q = p
      · subst hqp
        exact Or.inr ⟨q, by rw [Function.update_self]; exact hk _ hq hne⟩
      · exact Or.inr ⟨q, by rwa [Function.update_of_ne hqp]⟩

/-- The budget and what was said stay; the slots of one agent stay with it. -/
theorem Ledger.update (h : Ledger zone cap agents sh L) (hp : Holds sh L p a')
    (hk : ∀ k, k ∈ a'.holders ↔ k ∈ (agents p).holders)
    (hu : ∀ w ∈ (agents p).wakes, w.phase.unread = true → w ∈ a'.wakes) :
    Ledger zone cap (Function.update agents p a') sh L :=
  { h with
    holds := agents_update hp fun q _ => h.holds q
    apart := apart_update h fun k hin => Or.inl ((hk k).mp hin)
    spoken := by
      intro m hm
      obtain ⟨x, hx, ht, hp, hat, hs⟩ := h.spoken m hm
      exact ⟨x, hx, ht, hp, hat, hs.imp_right fun hs => ⟨hs.1, unread_update hu hs.2⟩⟩
    held := by
      intro x hx hs
      refine (h.held x hx hs).imp_right fun ⟨q, hq⟩ => ⟨q, ?_⟩
      by_cases hqp : q = p
      · subst hqp
        rw [Function.update_self]
        exact (hk _).mpr hq
      · rwa [Function.update_of_ne hqp] }

theorem began_ledger (h : Ledger zone cap agents sh L) {item : Item} {token : Nat} {at_ : Int}
    (hr : (agents p).reserving = some (token, at_)) (hr' : a'.reserving = none)
    (hw : a'.wakes = (agents p).wakes ++ [⟨item, token, at_, .created⟩]) (hun : a'.unwinding = (agents p).unwinding)
    (ht : a'.turns = (agents p).turns) (hnext : a'.nextTurn = (agents p).nextTurn) :
    Ledger zone cap (Function.update agents p a') sh L := by
  have hp := h.holds p
  have hperm : a'.holders.Perm (agents p).holders := by
    unfold Agent.holders
    rw [hr, hr', hw, hun, List.map_append]
    simp only [Option.map_none, Option.toList_none, List.nil_append, Option.map_some, Option.toList_some, List.map_cons,
      List.map_nil, List.append_assoc, List.singleton_append]
    exact List.perm_middle
  have hnew : ∀ {w : Wake}, w ∈ a'.wakes → w ∈ (agents p).wakes ∨ w = ⟨item, token, at_, .created⟩ := by
    intro w hin
    rw [hw] at hin
    exact (List.mem_append.mp hin).imp_right List.mem_singleton.mp
  refine h.update ?_ (fun k => hperm.mem_iff) fun w hin _ => hw ▸ List.mem_append_left _ hin
  constructor
  · exact fun k hk => hp.lt k (hperm.subset hk)
  · exact hperm.nodup_iff.mpr hp.nodup
  · intro k at_ hk
    rw [hr'] at hk
    cases hk
  · intro w hin x hx hxw
    rcases hnew hin with hold | rfl
    · exact hp.wakes w hold x hx hxw
    · obtain ⟨h1, h2⟩ := hp.reserving token at_ hr x hx hxw
      exact ⟨h1, h2, nofun⟩
  · intro t hin
    rw [ht] at hin
    refine ⟨hnext ▸ (hp.turns t hin).1, fun w hwin o hphase => ?_⟩
    rcases hnew hwin with hold | rfl
    · exact (hp.turns t hin).2 w hold o hphase
    · cases hphase
  · intro w hin k o hphase
    rcases hnew hin with hold | rfl
    · exact hnext ▸ hp.waiting w hold k o hphase
    · cases hphase
  · intro w hin hunread
    rcases hnew hin with hold | rfl
    · exact hp.unread w hold hunread
    · cases hunread
  · intro k hk
    refine hp.unspoken k ?_
    unfold Agent.openTokens at hk ⊢
    rw [hr', hw, hun, List.filter_append, List.map_append] at hk
    rcases List.mem_append.mp hk with hk | hk
    · cases hk
    · rcases List.mem_append.mp hk with hk | hk
      · rcases List.mem_append.mp hk with hk | hk
        · exact List.mem_append_right _ (List.mem_append_left _ hk)
        · obtain ⟨w, hin, rfl⟩ := List.mem_map.mp hk
          rw [List.mem_singleton.mp (List.mem_of_mem_filter hin), hr]
          exact List.mem_append_left _ (List.mem_singleton_self _)
      · exact List.mem_append_right _ (List.mem_append_right _ hk)

theorem stopped_ledger (h : Ledger zone cap agents sh L) {tokens : List Nat}
    (hread : ∀ w ∈ (agents p).wakes, w.phase.unread = false) (hr : a'.reserving = none) (hw : a'.wakes = [])
    (hun : a'.unwinding = (agents p).unwinding ++ ((agents p).wakes.filter (·.phase.isWaiting)).map Wake.token)
    (ht : a'.turns = (agents p).turns) (hnext : a'.nextTurn = (agents p).nextTurn)
    (hk : ∀ k ∈ (agents p).holders, k ∈ a'.holders ∨ k ∈ tokens ∨ ∃ w ∈ (agents p).wakes, w.token = k ∧ w.phase = .notifying) :
    Ledger zone cap (Function.update agents p a') { sh with abandoned := sh.abandoned ++ tokens } L := by
  have hp := h.holds p
  have hwaiting : ∀ w ∈ (agents p).wakes.filter (·.phase.isWaiting), w ∈ (agents p).wakes ∧ w.phase.isOpen = true := by
    intro w hin
    obtain ⟨hin, hwait⟩ := List.mem_filter.mp hin
    refine ⟨hin, ?_⟩
    have hnot : w.phase ≠ .notifying := by
      intro he
      rw [he] at hwait
      cases hwait
    simp [Phase.isOpen, hread w hin, hnot]
  have hsub : (((agents p).wakes.filter (·.phase.isWaiting)).map Wake.token ++ (agents p).unwinding).Sublist
      (agents p).holders :=
    ((List.filter_sublist.map _).append (List.Sublist.refl _)).trans (List.sublist_append_right _ _)
  have hperm : a'.holders.Perm (((agents p).wakes.filter (·.phase.isWaiting)).map Wake.token ++ (agents p).unwinding) := by
    unfold Agent.holders
    rw [hr, hw, hun]
    simp only [Option.map_none, Option.toList_none, List.map_nil, List.nil_append]
    exact List.perm_append_comm
  have hnone : ∀ w, w ∉ a'.wakes := fun w => hw ▸ List.not_mem_nil
  refine h.leave ?_ (fun k hin => hsub.subset (hperm.subset hin)) (fun w hin hunread => ?_) hk
  · constructor
    · exact fun k hin => hp.lt k (hsub.subset (hperm.subset hin))
    · exact hperm.nodup_iff.mpr (hp.nodup.sublist hsub)
    · intro k at_ hkr
      rw [hr] at hkr
      cases hkr
    · exact fun w hin => absurd hin (hnone w)
    · exact fun t hin => ⟨hnext ▸ (hp.turns t (ht ▸ hin)).1, fun w hwin => absurd hwin (hnone w)⟩
    · exact fun w hin => absurd hin (hnone w)
    · exact fun w hin => absurd hin (hnone w)
    · intro k hin
      refine hp.unspoken k ?_
      unfold Agent.openTokens at hin
      rw [hr, hw, hun] at hin
      rcases List.mem_append.mp hin with hin | hin
      · cases hin
      · rcases List.mem_append.mp hin with hin | hin
        · cases hin
        · rcases List.mem_append.mp hin with hin | hin
          · exact List.mem_append_right _ (List.mem_append_right _ hin)
          · obtain ⟨w, hwin, rfl⟩ := List.mem_map.mp hin
            exact open_of_wake (hwaiting w hwin).1 (hwaiting w hwin).2
  · rw [hread w hin] at hunread
    cases hunread

/-! ## A wake-up goes on -/

variable {w : Wake} {phase : Phase}

theorem mem_enter {a : Agent} {id : Nat} (hn : (a.wakes.map (·.item.id)).Nodup)
    (hw : a.wakeOf id = some w) {v : Wake} : v ∈ (a.enter id phase).wakes ↔
      (v ∈ a.wakes ∧ v.item.id ≠ id) ∨ v = { w with phase } := by
  have hwid : w.item.id = id := by simpa using List.find?_some hw
  unfold Agent.enter
  rw [List.mem_map]
  constructor
  · rintro ⟨u, hu, rfl⟩
    by_cases hid : u.item.id = id
    · rw [if_pos hid, wake_eq hn hw hu hid]
      exact Or.inr rfl
    · rw [if_neg hid]
      exact Or.inl ⟨hu, hid⟩
  · rintro (⟨hv, hid⟩ | rfl)
    · exact ⟨v, hv, if_neg hid⟩
    · exact ⟨w, List.mem_of_find?_eq_some hw, if_pos hwid⟩

theorem enter_tokens (a : Agent) (id : Nat) (phase : Phase) : (a.enter id phase).wakes.map Wake.token = a.wakes.map Wake.token := by
  simp only [Agent.enter, List.map_map]
  refine List.map_congr_left fun w _ => ?_
  simp only [Function.comp_apply]
  split
  · rfl
  · rfl

/-- Each slot is held once. -/
theorem wake_of_token {a : Agent} (hn : a.holders.Nodup) {v w : Wake} (hv : v ∈ a.wakes) (hw : w ∈ a.wakes)
    (h : v.token = w.token) : v = w :=
  List.inj_on_of_nodup_map (hn.sublist ((List.sublist_append_left _ _).trans (List.sublist_append_right _ _))) hv hw h

/-- A wake-up that goes on to an open phase opens no slot, and to another one closes its own. -/
theorem open_of_enter {id : Nat} (hids : (a.wakes.map (·.item.id)).Nodup)
    (hn : a.holders.Nodup) (hw : a.wakeOf id = some w) (ho : phase.isOpen = true → w.phase.isOpen = true)
    (hr : a'.reserving = a.reserving) (hwakes : a'.wakes = (a.enter id phase).wakes) (hun : a'.unwinding = a.unwinding)
    {k : Nat} (hk : k ∈ a'.openTokens) : k ∈ a.openTokens ∧ (phase.isOpen = false → k ≠ w.token) := by
  have hwin := List.mem_of_find?_eq_some hw
  have hwk : w.token ∈ a.wakes.map Wake.token := List.mem_map_of_mem hwin
  have happart := List.nodup_append.mp hn
  have happart' := List.nodup_append.mp happart.2.1
  unfold Agent.openTokens at hk
  rw [hr, hwakes, hun] at hk
  rcases List.mem_append.mp hk with hk | hk
  · exact ⟨List.mem_append_left _ hk, fun _ => happart.2.2 k hk w.token (List.mem_append_left _ hwk)⟩
  · rcases List.mem_append.mp hk with hk | hk
    · obtain ⟨v, hv, rfl⟩ := List.mem_map.mp hk
      obtain ⟨hv, hopen⟩ := List.mem_filter.mp hv
      rcases (mem_enter hids hw).mp hv with ⟨hold, hne⟩ | rfl
      · refine ⟨open_of_wake hold hopen, fun _ he => hne ?_⟩
        rw [wake_of_token hn hold hwin he]
        simpa using List.find?_some hw
      · have hmem : w.token ∈ a.openTokens := open_of_wake hwin (ho hopen)
        refine ⟨hmem, fun hclosed => ?_⟩
        have hopen : phase.isOpen = true := hopen
        rw [hopen] at hclosed
        cases hclosed
    · exact ⟨List.mem_append_right _ (List.mem_append_right _ hk),
        fun _ => Ne.symm (happart'.2.2 w.token hwk k hk)⟩

theorem enter_holders {id : Nat} (hr : a'.reserving = a.reserving)
    (hwakes : a'.wakes = (a.enter id phase).wakes) (hun : a'.unwinding = a.unwinding) : a'.holders = a.holders := by
  unfold Agent.holders
  rw [hr, hwakes, hun, enter_tokens]

/-- A wake-up that has something to confirm stays one while another goes on. -/
theorem unread_of_enter {a : Agent} {id : Nat} (hids : (a.wakes.map (·.item.id)).Nodup)
    (hw : a.wakeOf id = some w) (hread : w.phase.unread = false) {v : Wake} (hv : v ∈ a.wakes)
    (hunread : v.phase.unread = true) : v ∈ (a.enter id phase).wakes := by
  refine (mem_enter hids hw).mpr (Or.inl ⟨hv, fun hid => ?_⟩)
  rw [wake_eq hids hw hv hid, hread] at hunread
  cases hunread

/-- One wake-up of an agent goes on, and what it said may be new. -/
theorem Holds.entered {sh' : Shared n} {a : Agent} {id : Nat} (hp : Holds sh L p a)
    (hids : (a.wakes.map (·.item.id)).Nodup) (hw : a.wakeOf id = some w)
    (ho : phase.isOpen = true → w.phase.isOpen = true) (hr : a'.reserving = a.reserving)
    (hwakes : a'.wakes = (a.enter id phase).wakes) (hun : a'.unwinding = a.unwinding) (hle : a.nextTurn ≤ a'.nextTurn)
    (hphase : ∀ k o, phase = .waiting k o → k < a'.nextTurn)
    (hturns : ∀ t ∈ a'.turns, t.number < a'.nextTurn ∧
      (∀ v ∈ a.wakes, ∀ o, v.phase = .waiting t.number o → t.token = v.token ∧ t.at_ = v.at_) ∧
      ∀ o, phase = .waiting t.number o → t.token = w.token ∧ t.at_ = w.at_)
    (hnotify : phase = .notifying → ∀ x ∈ L, x.token = w.token → x.sent = true)
    (hunread : phase.unread = true → ∃ m ∈ sh'.spoken, m.token = w.token) (hnext : sh'.nextToken = sh.nextToken)
    (hnew : ∀ m ∈ sh'.spoken, m ∈ sh.spoken ∨ m.token = w.token ∧ phase.isOpen = false)
    (hold : ∀ m ∈ sh.spoken, m ∈ sh'.spoken) : Holds sh' L p a' := by
  have hin := List.mem_of_find?_eq_some hw
  have hholders := enter_holders hr hwakes hun
  have hmem : ∀ {v : Wake}, v ∈ a'.wakes → v ∈ a.wakes ∨ v = { w with phase } := by
    intro v hv
    rw [hwakes] at hv
    exact ((mem_enter hids hw).mp hv).imp_left And.left
  constructor
  · intro k hk
    rw [hnext]
    exact hp.lt k (hholders ▸ hk)
  · exact hholders ▸ hp.nodup
  · intro k at_ hk
    rw [hr] at hk
    exact hp.reserving k at_ hk
  · intro v hv x hx hxv
    rcases hmem hv with hv | rfl
    · exact hp.wakes v hv x hx hxv
    · obtain ⟨h1, h2, _⟩ := hp.wakes w hin x hx hxv
      exact ⟨h1, h2, fun hn => hnotify hn x hx hxv⟩
  · intro t ht
    obtain ⟨hlt, hothers, hself⟩ := hturns t ht
    refine ⟨hlt, fun v hv o hvo => ?_⟩
    rcases hmem hv with hv | rfl
    · exact hothers v hv o hvo
    · exact hself o hvo
  · intro v hv k o hvo
    rcases hmem hv with hv | rfl
    · exact (hp.waiting v hv k o hvo).trans_le hle
    · exact hphase k o hvo
  · intro v hv hvu
    rcases hmem hv with hv | rfl
    · obtain ⟨m, hm, hmv⟩ := hp.unread v hv hvu
      exact ⟨m, hold m hm, hmv⟩
    · exact hunread hvu
  · intro k hk m hm
    obtain ⟨hk, hclosed⟩ := open_of_enter hids hp.nodup hw ho hr hwakes hun hk
    rcases hnew m hm with hm | ⟨hmw, hphase⟩
    · exact hp.unspoken k hk m hm
    · exact fun he => hclosed hphase (he.symm.trans hmw)

theorem published_ledger (h : Ledger zone cap agents sh L) (hids : ((agents p).wakes.map (·.item.id)).Nodup) {id : Nat}
    {t : Turn} (hw : (agents p).wakeOf id = some w) (hcreated : w.phase = .created)
    (hr : a'.reserving = (agents p).reserving)
    (hwakes : a'.wakes = ((agents p).enter id (.waiting (agents p).nextTurn none)).wakes)
    (hun : a'.unwinding = (agents p).unwinding) (ht : a'.turns = (agents p).turns ++ [t])
    (hnumber : t.number = (agents p).nextTurn) (hslot : t.token = w.token ∧ t.at_ = w.at_)
    (hnext : a'.nextTurn = (agents p).nextTurn + 1) : Ledger zone cap (Function.update agents p a') sh L := by
  have hp := h.holds p
  have hlt : (agents p).nextTurn < a'.nextTurn := hnext ▸ Nat.lt_succ_self _
  refine h.update ?_ (fun k => by rw [enter_holders hr hwakes hun]) fun v hv hunread =>
    hwakes ▸ unread_of_enter hids hw (by rw [hcreated]; rfl) hv hunread
  refine hp.entered hids hw (fun _ => by rw [hcreated]; rfl) hr hwakes hun hlt.le (fun k o he => ?_)
    (fun u hu => ?_) nofun nofun rfl (fun m hm => Or.inl hm) fun m hm => hm
  · injection he with hturn _
    exact hturn ▸ hlt
  · rw [ht] at hu
    rcases List.mem_append.mp hu with hu | hu
    · obtain ⟨hold, hwait⟩ := hp.turns u hu
      refine ⟨hold.trans hlt, hwait, fun o he => ?_⟩
      injection he with hturn _
      rw [hturn] at hold
      exact absurd hold (Nat.lt_irrefl _)
    · obtain rfl := List.mem_singleton.mp hu
      rw [hnumber]
      exact ⟨hlt, fun v hv o hvo => absurd (hp.waiting v hv _ o hvo) (Nat.lt_irrefl _), fun _ _ => hslot⟩

/-- A turn that is over reports to the wake-up that waits for it. -/
theorem reported_turns {a : Agent} {sh : Shared n} (hp : Holds sh L p a) {turn : Nat} {outcome : Option Outcome}
    {turns : List Turn} (hsub : turns.Sublist a.turns) (hin : w ∈ a.wakes) (hphase : w.phase = .waiting turn none) :
    ∀ t ∈ turns, t.number < a.nextTurn ∧
      (∀ v ∈ a.wakes, ∀ o, v.phase = .waiting t.number o → t.token = v.token ∧ t.at_ = v.at_) ∧
      ∀ o, Phase.waiting turn outcome = .waiting t.number o → t.token = w.token ∧ t.at_ = w.at_ := by
  intro t ht
  obtain ⟨hlt, hwait⟩ := hp.turns t (hsub.subset ht)
  refine ⟨hlt, hwait, fun o he => ?_⟩
  injection he with hturn _
  exact hwait w hin none (hturn ▸ hphase)

theorem heard_ledger (h : Ledger zone cap agents sh L) (hids : ((agents p).wakes.map (·.item.id)).Nodup) {id turn : Nat}
    {outcome : Outcome} (hw : (agents p).wakeOf id = some w) (hphase : w.phase = .waiting turn none)
    (hsilent : ∀ text, outcome ≠ .delivered text) (hr : a'.reserving = (agents p).reserving)
    (hwakes : a'.wakes = ((agents p).enter id (.waiting turn (some outcome))).wakes)
    (hun : a'.unwinding = (agents p).unwinding) (hsub : a'.turns.Sublist (agents p).turns)
    (hnext : a'.nextTurn = (agents p).nextTurn) : Ledger zone cap (Function.update agents p a') sh L := by
  have hp := h.holds p
  have hin := List.mem_of_find?_eq_some hw
  have hread : w.phase.unread = false := by rw [hphase]; rfl
  refine h.update ?_ (fun k => by rw [enter_holders hr hwakes hun]) fun v hv hunread =>
    hwakes ▸ unread_of_enter hids hw hread hv hunread
  refine hp.entered hids hw (fun _ => by rw [hphase]; rfl) hr hwakes hun hnext.ge (fun k o he => ?_)
    (fun t ht => ?_) nofun (fun hunread => ?_) rfl (fun m hm => Or.inl hm) fun m hm => hm
  · injection he with hturn _
    rw [hnext, ← hturn]
    exact hp.waiting w hin turn none hphase
  · rw [hnext]
    exact reported_turns hp hsub hin hphase t ht
  · cases outcome with
    | delivered text => exact absurd rfl (hsilent text)
    | silent => cases hunread
    | failed => cases hunread

theorem spoke_ledger (h : Ledger zone cap agents sh L) (hids : ((agents p).wakes.map (·.item.id)).Nodup) {t : Turn}
    {text : Text} (ht : t ∈ (agents p).turns) (hw : (agents p).wakeOf t.item = some w)
    (hphase : w.phase = .waiting t.number none) (hslot : ∃ x ∈ sh.budget, x.token = w.token)
    (hr : a'.reserving = (agents p).reserving)
    (hwakes : a'.wakes = ((agents p).enter t.item (.waiting t.number (some (.delivered text)))).wakes)
    (hun : a'.unwinding = (agents p).unwinding) (hsub : a'.turns.Sublist (agents p).turns)
    (hnext : a'.nextTurn = (agents p).nextTurn) :
    Ledger zone cap (Function.update agents p a') { sh with spoken := ⟨t.token, p, t.at_⟩ :: sh.spoken } L := by
  have hp := h.holds p
  have hin := List.mem_of_find?_eq_some hw
  have hopen : w.phase.isOpen = true := by rw [hphase]; rfl
  have hread : w.phase.unread = false := by rw [hphase]; rfl
  obtain ⟨htoken, hat⟩ := (hp.turns t ht).2 w hin none hphase
  have hwin : { w with phase := .waiting t.number (some (.delivered text)) } ∈ a'.wakes :=
    hwakes ▸ (mem_enter hids hw).mpr (Or.inr rfl)
  have hkeep : ∀ v ∈ (agents p).wakes, v.phase.unread = true → v ∈ a'.wakes := fun v hv hunread =>
    hwakes ▸ unread_of_enter hids hw hread hv hunread
  have hholders := enter_holders hr hwakes hun
  have hheld : w.token ∈ (agents p).holders := open_sub_holders (open_of_wake hin hopen)
  have hfresh : ∀ m ∈ sh.spoken, m.token ≠ t.token := htoken ▸ hp.unspoken w.token (open_of_wake hin hopen)
  have hcons : ∀ m ∈ sh.spoken, m ∈ (⟨t.token, p, t.at_⟩ : Spoken n) :: sh.spoken := fun m hm => List.mem_cons_of_mem _ hm
  refine
    { h with
      holds := agents_update ?_ fun q hq => ?_
      apart := apart_update h fun k hk => Or.inl (hholders ▸ hk)
      spokenTokens := List.nodup_cons.mpr ⟨fun hmem => ?_, h.spokenTokens⟩
      spoken := fun m hm => ?_
      sent := fun x hx hs => ?_
      held := fun x hx hs => ?_ }
  · refine hp.entered hids hw (fun _ => hopen) hr hwakes hun hnext.ge (fun k o he => ?_) (fun u hu => ?_) nofun
      (fun _ => ⟨_, List.mem_cons_self, htoken⟩) rfl (fun m hm => ?_) hcons
    · injection he with hturn _
      rw [hnext, ← hturn]
      exact hp.waiting w hin t.number none hphase
    · rw [hnext]
      exact reported_turns hp hsub hin hphase u hu
    · rcases List.mem_cons.mp hm with rfl | hm
      · exact Or.inr ⟨htoken, rfl⟩
      · exact Or.inl hm
  · refine (h.holds q).frame (Nat.le_refl _) (fun x hx _ => ⟨x, hx, rfl, rfl, rfl, id⟩) (fun m hm => ?_) hcons
    rcases List.mem_cons.mp hm with rfl | hm
    · exact Or.inr (htoken ▸ h.apart p q (Ne.symm hq) _ hheld)
    · exact Or.inl hm
  · obtain ⟨m, hm, he⟩ := List.mem_map.mp hmem
    exact hfresh m hm he
  · rcases List.mem_cons.mp hm with rfl | hm
    · obtain ⟨x, hx, hxw⟩ := hslot
      obtain ⟨h1, h2, _⟩ := hp.wakes w hin x (h.budget x hx) hxw
      refine ⟨x, h.budget x hx, hxw.trans htoken.symm, h1, h2.trans hat.symm, Or.inr ⟨hx, { w with phase := .waiting t.number (some (.delivered text)) }, ?_, htoken.symm, rfl⟩⟩
      rw [Function.update_self]
      exact hwin
    · obtain ⟨x, hx, h1, h2, h3, hs⟩ := h.spoken m hm
      exact ⟨x, hx, h1, h2, h3, hs.imp_right fun hs => ⟨hs.1, unread_update hkeep hs.2⟩⟩
  · obtain ⟨m, hm, he⟩ := h.sent x hx hs
    exact ⟨m, hcons m hm, he⟩
  · refine (h.held x hx hs).imp_right fun ⟨q, hq⟩ => ⟨q, ?_⟩
    by_cases hqp : q = p
    · subst hqp
      rwa [Function.update_self, hholders]
    · rwa [Function.update_of_ne hqp]

/-! ## Confirming and reserving -/

theorem onDay_confirm (day : Int) (token : Nat) (entries : List (Entry (Fin n))) :
    onDay zone day (confirm token entries) = confirm token (onDay zone day entries) := by
  unfold onDay confirm
  rw [List.filter_map]
  congr 1
  refine List.filter_congr fun x _ => ?_
  simp only [Function.comp_apply]
  split
  · rfl
  · rfl

theorem countP_confirm (token : Nat) (q : Fin n) (entries : List (Entry (Fin n))) :
    (confirm token entries).countP (·.profile = q) = entries.countP (·.profile = q) := by
  unfold confirm
  rw [List.countP_map]
  refine List.countP_congr fun x _ => ?_
  simp only [Function.comp_apply]
  split
  · rfl
  · rfl

theorem confirm_tokens (token : Nat) (entries : List (Entry (Fin n))) :
    (confirm token entries).map Entry.token = entries.map Entry.token := by
  unfold confirm
  rw [List.map_map]
  refine List.map_congr_left fun x _ => ?_
  simp only [Function.comp_apply]
  split
  · rfl
  · rfl

/-- An entry that may be confirmed was there before. -/
theorem confirm_origin {token : Nat} {entries : List (Entry (Fin n))} {x' : Entry (Fin n)} (h : x' ∈ confirm token entries) :
    ∃ x ∈ entries, x.token = x'.token ∧ x.profile = x'.profile ∧ x.at_ = x'.at_ ∧ (x.sent = true → x'.sent = true) := by
  rcases mem_confirm.mp h with ⟨hx, _⟩ | ⟨x, hx, _, rfl⟩
  · exact ⟨x', hx, rfl, rfl, rfl, id⟩
  · exact ⟨x, hx, rfl, rfl, rfl, fun _ => rfl⟩

theorem confirmed_ledger (h : Ledger zone cap agents sh L) (hids : ((agents p).wakes.map (·.item.id)).Nodup) {id : Nat}
    (hw : (agents p).wakeOf id = some w) (hunread : w.phase.unread = true)
    (hr : a'.reserving = (agents p).reserving) (hwakes : a'.wakes = ((agents p).enter id .notifying).wakes)
    (hun : a'.unwinding = (agents p).unwinding) (hturns : a'.turns = (agents p).turns)
    (hnext : a'.nextTurn = (agents p).nextTurn) :
    Ledger zone cap (Function.update agents p a') { sh with budget := confirm w.token sh.budget } (confirm w.token L) := by
  have hp := h.holds p
  have hin := List.mem_of_find?_eq_some hw
  have hholders := enter_holders hr hwakes hun
  have hframe : ∀ q, Holds { sh with budget := confirm w.token sh.budget } (confirm w.token L) q (agents q) := fun q =>
    (h.holds q).frame (Nat.le_refl _) (fun x' hx' _ => confirm_origin hx') (fun m hm => Or.inl hm) fun m hm => hm
  refine
    { budget := fun x hx => ?_
      old := fun x hx => ?_
      tokens := (confirm_tokens w.token L).symm ▸ h.tokens
      lt := fun x hx => ?_
      all := fun day => ?_
      each := fun day q => ?_
      holds := agents_update ?_ fun q _ => hframe q
      apart := apart_update h fun k hk => Or.inl (hholders ▸ hk)
      spokenTokens := h.spokenTokens
      spoken := fun m hm => ?_
      sent := fun x hx hs => ?_
      held := fun x hx hs => ?_ }
  · rcases mem_confirm.mp hx with ⟨hx, hne⟩ | ⟨y, hy, he, rfl⟩
    · exact mem_confirm.mpr (Or.inl ⟨h.budget x hx, hne⟩)
    · exact mem_confirm.mpr (Or.inr ⟨y, h.budget y hy, he, rfl⟩)
  · rcases mem_confirm.mp hx with ⟨hx, hne⟩ | ⟨y, hy, he, rfl⟩
    · exact (h.old x hx).imp_left fun hb => mem_confirm.mpr (Or.inl ⟨hb, hne⟩)
    · exact (h.old y hy).imp (fun hb => mem_confirm.mpr (Or.inr ⟨y, hb, he, rfl⟩)) fun ho => ⟨rfl, ho.2⟩
  · obtain ⟨y, hy, he, _⟩ := confirm_origin hx
    exact he ▸ h.lt y hy
  · rw [onDay_confirm, confirm, List.length_map]
    exact h.all day
  · rw [onDay_confirm, countP_confirm]
    exact h.each day q
  · refine (hframe p).entered hids hw (fun ho => absurd ho (by decide)) hr hwakes hun hnext.ge nofun (fun t ht => ?_) (fun _ x hx he => ?_) nofun rfl
      (fun m hm => Or.inl hm) fun m hm => hm
    · rw [hturns] at ht
      rw [hnext]
      exact ⟨(hp.turns t ht).1, (hp.turns t ht).2, nofun⟩
    · rcases mem_confirm.mp hx with ⟨_, hne⟩ | ⟨y, _, _, rfl⟩
      · exact absurd he hne
      · rfl
  · obtain ⟨x, hx, h1, h2, h3, hs⟩ := h.spoken m hm
    by_cases he : x.token = w.token
    · exact ⟨{ x with sent := true }, mem_confirm.mpr (Or.inr ⟨x, hx, he, rfl⟩), h1, h2, h3, Or.inl rfl⟩
    · refine ⟨x, mem_confirm.mpr (Or.inl ⟨hx, he⟩), h1, h2, h3, hs.imp_right fun ⟨hb, v, hv, hvm, hvu⟩ => ?_⟩
      refine ⟨mem_confirm.mpr (Or.inl ⟨hb, he⟩), v, ?_, hvm, hvu⟩
      by_cases hq : m.profile = p
      · rw [hq] at hv ⊢
        rw [Function.update_self, hwakes]
        refine (mem_enter hids hw).mpr (Or.inl ⟨hv, fun hid => he ?_⟩)
        rw [h1, ← hvm, wake_eq hids hw hv hid]
      · rwa [Function.update_of_ne hq]
  · rcases mem_confirm.mp hx with ⟨hx, _⟩ | ⟨y, _, he, rfl⟩
    · exact h.sent x hx hs
    · obtain ⟨m, hm, hmw⟩ := hp.unread w hin hunread
      exact ⟨m, hm, hmw.trans he.symm⟩
  · rcases mem_confirm.mp hx with ⟨hx, _⟩ | ⟨y, _, _, rfl⟩
    · refine (h.held x hx hs).imp_right fun ⟨q, hq⟩ => ⟨q, ?_⟩
      by_cases hqp : q = p
      · subst hqp
        rwa [Function.update_self, hholders]
      · rwa [Function.update_of_ne hqp]
    · cases hs

/-- The ledger after a reservation: what was confirmed and what still counts. -/
def reserved (now : Int) (L : List (Entry (Fin n))) : List (Entry (Fin n)) := L.filter fun x => x.sent || isLive now x

variable {now : Int}

theorem mem_reserved {x : Entry (Fin n)} :
    x ∈ reserved now L ↔ x ∈ L ∧ (x.sent = true ∨ now - x.at_ ≤ STALE_RESERVATION_MS) := by
  have hstale : STALE_RESERVATION_MS < KEEP_MS := by decide
  unfold reserved isLive
  rw [List.mem_filter]
  cases hs : x.sent with
  | true => simp
  | false =>
    simp only [Bool.false_or, decide_eq_true_eq, true_and, Bool.false_eq_true, false_or]
    constructor
    · exact fun ⟨hx, _, hl⟩ => ⟨hx, by omega⟩
    · exact fun ⟨hx, hl⟩ => ⟨hx, by omega, by omega⟩

/-- What the ledger holds of a day is in the budget on that day. -/
theorem reserved_today (h : Ledger zone cap agents sh L) (hclock : ∀ r ∈ sh.readings, r - DAY_MS ≤ now) :
    ∀ x ∈ onDay zone (zone.date now) (reserved now L), x ∈ today zone (live sh.budget now) now := by
  intro x hx
  obtain ⟨hx, hday⟩ := List.mem_filter.mp hx
  obtain ⟨hx, hkept⟩ := mem_reserved.mp hx
  have hspan : now - x.at_ < 2 * DAY_MS := zone.date_span _ _ (of_decide_eq_true hday)
  have hkeep : KEEP_MS = 3 * DAY_MS := rfl
  have hday0 : (0 : Int) < DAY_MS := by decide
  refine List.mem_filter.mpr ⟨mem_live.mpr ⟨?_, by omega, hkept⟩, hday⟩
  rcases h.old x hx with hb | ⟨_, r, hr, hold⟩
  · exact hb
  · have := hclock r hr
    omega

theorem onDay_append (day : Int) (entries : List (Entry (Fin n))) (x : Entry (Fin n)) :
    onDay zone day (entries ++ [x]) = onDay zone day entries ++ if zone.date x.at_ = day then [x] else [] := by
  unfold onDay
  rw [List.filter_append, List.filter_singleton]
  by_cases h : zone.date x.at_ = day
  · rw [if_pos h, decide_eq_true h, cond_true]
  · rw [if_neg h, decide_eq_false h, cond_false]

theorem reserved_sublist (now : Int) : (reserved now L).Sublist L := List.filter_sublist

/-- What counts on the day of a reservation is what the reservation counted. -/
theorem reserved_subperm (h : Ledger zone cap agents sh L) (hclock : ∀ r ∈ sh.readings, r - DAY_MS ≤ now) :
    (onDay zone (zone.date now) (reserved now L)).Subperm (today zone (live sh.budget now) now) := by
  have hnodup : (reserved now L).Nodup := ((h.tokens.of_map _).sublist (reserved_sublist now))
  exact List.subperm_of_subset (hnodup.filter _) (reserved_today h hclock)

/-- A reservation that succeeds leaves room on each day. -/
theorem reserved_all (h : Ledger zone cap agents sh L) (hclock : ∀ r ∈ sh.readings, r - DAY_MS ≤ now)
    (hroom : (today zone (live sh.budget now) now).length < GLOBAL_DAILY_CAP) {x : Entry (Fin n)} (hx : x.at_ = now) (day : Int) :
    (onDay zone day (reserved now L ++ [x])).length ≤ GLOBAL_DAILY_CAP := by
  rw [onDay_append, List.length_append, hx]
  split
  · rename_i hday
    have := (reserved_subperm h hclock).length_le
    rw [hday] at this
    rw [List.length_singleton]
    omega
  · exact ((reserved_sublist now).filter _).length_le.trans (h.all day)

theorem reserved_each (h : Ledger zone cap agents sh L) (hclock : ∀ r ∈ sh.readings, r - DAY_MS ≤ now)
    (hroom : (today zone (live sh.budget now) now).countP (·.profile = p) < cap p) {x : Entry (Fin n)} (hx : x.at_ = now)
    (hxp : x.profile = p) (day : Int) (q : Fin n) :
    (onDay zone day (reserved now L ++ [x])).countP (·.profile = q) ≤ cap q := by
  rw [onDay_append, List.countP_append, hx]
  have hold : (onDay zone day (reserved now L)).countP (·.profile = q) ≤ cap q :=
    (((reserved_sublist now).filter _).countP_le).trans (h.each day q)
  split
  · rename_i hday
    rw [List.countP_singleton, hxp]
    split
    · rename_i hq
      obtain rfl := of_decide_eq_true hq
      have := (reserved_subperm h hclock).countP_le (fun x => decide (x.profile = p))
      rw [hday] at this
      omega
    · exact hold
  · exact hold

/-- The agent that reserved holds the new slot beside its old ones. -/
theorem reserved_holds (h : Ledger zone cap agents sh L) {L' : List (Entry (Fin n))}
    (hL' : ∀ x ∈ L', x ∈ L ∨ x = { token := sh.nextToken, profile := p, at_ := now })
    (hnone : (agents p).reserving = none) (hr : a'.reserving = some (sh.nextToken, now)) (hwakes : a'.wakes = (agents p).wakes)
    (hun : a'.unwinding = (agents p).unwinding) (hturns : a'.turns = (agents p).turns)
    (hnext : a'.nextTurn = (agents p).nextTurn) {sh' : Shared n} (hs : sh'.spoken = sh.spoken)
    (hsn : sh'.nextToken = sh.nextToken + 1) : Holds sh' L' p a' := by
  have hp := h.holds p
  have hholders : a'.holders = sh.nextToken :: (agents p).holders := by
    unfold Agent.holders
    rw [hr, hnone, hwakes, hun]
    rfl
  have hopen : a'.openTokens = sh.nextToken :: (agents p).openTokens := by
    unfold Agent.openTokens
    rw [hr, hnone, hwakes, hun]
    rfl
  constructor
  · intro k hk
    rw [hholders] at hk
    rw [hsn]
    rcases List.mem_cons.mp hk with rfl | hk
    · exact Nat.lt_succ_self _
    · exact (hp.lt k hk).trans (Nat.lt_succ_self _)
  · rw [hholders]
    exact List.nodup_cons.mpr ⟨fun hk => absurd (hp.lt _ hk) (Nat.lt_irrefl _), hp.nodup⟩
  · intro k at_ hk x hx hxk
    rw [hr] at hk
    obtain ⟨rfl, rfl⟩ := Prod.mk.inj (Option.some.inj hk)
    rcases hL' x hx with hx | rfl
    · exact absurd (h.lt x hx) (hxk ▸ Nat.lt_irrefl _)
    · exact ⟨rfl, rfl⟩
  · intro w hw x hx hxw
    rw [hwakes] at hw
    rcases hL' x hx with hx | rfl
    · exact hp.wakes w hw x hx hxw
    · have hin : w.token ∈ (agents p).holders :=
        List.mem_append_right _ (List.mem_append_left _ (List.mem_map_of_mem hw))
      exact absurd (hp.lt _ hin) (hxw ▸ Nat.lt_irrefl _)
  · rw [hturns, hwakes, hnext]
    exact hp.turns
  · rw [hwakes, hnext]
    exact hp.waiting
  · rw [hwakes, hs]
    exact hp.unread
  · intro k hk m hm
    rw [hopen] at hk
    rw [hs] at hm
    rcases List.mem_cons.mp hk with rfl | hk
    · obtain ⟨x, hx, he, _⟩ := h.spoken m hm
      exact fun hmk => absurd (h.lt x hx) (he.trans hmk ▸ Nat.lt_irrefl _)
    · exact hp.unspoken k hk m hm

theorem reserved_ledger (h : Ledger zone cap agents sh L) {budget : List (Entry (Fin n))}
    (hclock : ∀ r ∈ sh.readings, r - DAY_MS ≤ now)
    (hfresh : ∀ q, ∀ w ∈ (agents q).wakes, w.phase.unread = true → now - w.at_ ≤ STALE_RESERVATION_MS)
    (hreserve : reserve zone p (cap p) GLOBAL_DAILY_CAP sh.nextToken now sh.budget = some budget)
    (hnone : (agents p).reserving = none) (hr : a'.reserving = some (sh.nextToken, now)) (hwakes : a'.wakes = (agents p).wakes)
    (hun : a'.unwinding = (agents p).unwinding) (hturns : a'.turns = (agents p).turns)
    (hnext : a'.nextTurn = (agents p).nextTurn) :
    Ledger zone cap (Function.update agents p a')
      { sh with budget, nextToken := sh.nextToken + 1, readings := now :: sh.readings }
      (reserved now L ++ [{ token := sh.nextToken, profile := p, at_ := now }]) := by
  obtain ⟨rfl, hall, heach⟩ := reserve_spec hreserve
  have hcases : ∀ x ∈ reserved now L ++ [{ token := sh.nextToken, profile := p, at_ := now }],
      (x ∈ L ∧ (x.sent = true ∨ now - x.at_ ≤ STALE_RESERVATION_MS)) ∨
        x = { token := sh.nextToken, profile := p, at_ := now } := by
    intro x hx
    exact (List.mem_append.mp hx).imp mem_reserved.mp List.mem_singleton.mp
  have hholders : a'.holders = sh.nextToken :: (agents p).holders := by
    unfold Agent.holders
    rw [hr, hnone, hwakes, hun]
    rfl
  refine
    { budget := fun x hx => ?_
      old := fun x hx => ?_
      tokens := ?_
      lt := fun x hx => ?_
      all := reserved_all h hclock hall rfl
      each := reserved_each h hclock heach rfl rfl
      holds := agents_update (reserved_holds h (fun x hx => (hcases x hx).imp_left And.left) hnone hr hwakes hun hturns
        hnext rfl rfl) fun q _ => (h.holds q).frame (Nat.le_succ _) (fun x hx hq => ?_) (fun m hm => Or.inl hm)
          fun m hm => hm
      apart := apart_update h fun k hk => ?_
      spokenTokens := h.spokenTokens
      spoken := fun m hm => ?_
      sent := fun x hx hs => ?_
      held := fun x hx hs => ?_ }
  · refine List.mem_append.mpr ((List.mem_append.mp hx).imp_left fun hx => ?_)
    obtain ⟨hx, _, hkept⟩ := mem_live.mp hx
    exact mem_reserved.mpr ⟨h.budget x hx, hkept⟩
  · rcases hcases x hx with ⟨hx, hkept⟩ | rfl
    · rcases h.old x hx with hb | ⟨hs, r, hr, hold⟩
      · by_cases hkeep : now - x.at_ < KEEP_MS
        · exact Or.inl (List.mem_append_left _ (mem_live.mpr ⟨hb, hkeep, hkept⟩))
        · have hstale : STALE_RESERVATION_MS < KEEP_MS := by decide
          exact Or.inr ⟨hkept.resolve_right (by omega), now, List.mem_cons_self, by omega⟩
      · exact Or.inr ⟨hs, r, List.mem_cons_of_mem _ hr, hold⟩
    · exact Or.inl (List.mem_append_right _ (List.mem_singleton_self _))
  · rw [List.map_append, List.map_singleton]
    refine List.nodup_append.mpr ⟨h.tokens.sublist ((reserved_sublist now).map _), List.nodup_singleton _, ?_⟩
    intro k hk k' hk' he
    obtain ⟨x, hx, rfl⟩ := List.mem_map.mp hk
    have hlt := h.lt x ((reserved_sublist now).subset hx)
    rw [he, List.mem_singleton.mp hk'] at hlt
    exact absurd hlt (Nat.lt_irrefl _)
  · rcases hcases x hx with ⟨hx, _⟩ | rfl
    · exact (h.lt x hx).trans (Nat.lt_succ_self _)
    · exact Nat.lt_succ_self _
  · rcases hcases x hx with ⟨hx, _⟩ | rfl
    · exact ⟨x, hx, rfl, rfl, rfl, id⟩
    · exact absurd ((h.holds q).lt _ hq) (Nat.lt_irrefl _)
  · rw [hholders] at hk
    exact (List.mem_cons.mp hk).symm
  · obtain ⟨x, hx, h1, h2, h3, hs⟩ := h.spoken m hm
    have hkept : x.sent = true ∨ now - x.at_ ≤ STALE_RESERVATION_MS := by
      refine hs.imp_right fun ⟨_, w, hw, hwm, hwu⟩ => ?_
      rw [((h.holds m.profile).wakes w hw x hx (h1.trans hwm.symm)).2.1]
      exact hfresh m.profile w hw hwu
    refine ⟨x, List.mem_append_left _ (mem_reserved.mpr ⟨hx, hkept⟩), h1, h2, h3, ?_⟩
    rcases hs with hs | ⟨hb, hw⟩
    · exact Or.inl hs
    · rcases hkept with hs | hlive
      · exact Or.inl hs
      · have hstale : STALE_RESERVATION_MS < KEEP_MS := by decide
        refine Or.inr ⟨List.mem_append_left _ (mem_live.mpr ⟨hb, by omega, Or.inr hlive⟩), ?_⟩
        exact unread_update (fun w hw _ => hwakes ▸ hw) hw
  · rcases hcases x hx with ⟨hx, _⟩ | rfl
    · exact h.sent x hx hs
    · cases hs
  · rcases List.mem_append.mp hx with hx | hx
    · refine (h.held x (mem_live.mp hx).1 hs).imp_right fun ⟨q, hq⟩ => ⟨q, ?_⟩
      by_cases hqp : q = p
      · subst hqp
        rw [Function.update_self, hholders]
        exact List.mem_cons_of_mem _ hq
      · rwa [Function.update_of_ne hqp]
    · rw [List.mem_singleton.mp hx]
      exact Or.inr ⟨p, by rw [Function.update_self, hholders]; exact List.mem_cons_self⟩

/-! ## Runs -/

variable (zone) (settings : Fin n → Settings)

def capOf (p : Fin n) : Nat := DAILY_CAP_BY_LEVEL (settings p).level

theorem step_ledger {s : System n} (hi : ∀ p, (s.agents p).Inv) {e : Event n} (hc : s.Counted e)
    {L : List (Entry (Fin n))} (h : Ledger zone (capOf settings) s.agents s.shared L) :
    ∃ L', Ledger zone (capOf settings) (step zone settings s e).agents (step zone settings s e).shared L' := by
  have hids := (hi e.profile).wakes
  have heffect : SlotEffect zone (DAILY_CAP_BY_LEVEL (settings e.profile).level) e.profile (s.agents e.profile) s.shared e.act
      ((s.agents e.profile).act zone settings e.profile s.shared e.act).1
      ((s.agents e.profile).act zone settings e.profile s.shared e.act).2 := act_slots hids hc
  change ∃ L', Ledger zone (capOf settings)
    (Function.update s.agents e.profile ((s.agents e.profile).act zone settings e.profile s.shared e.act).1)
    ((s.agents e.profile).act zone settings e.profile s.shared e.act).2 L'
  generalize ((s.agents e.profile).act zone settings e.profile s.shared e.act).1 = a' at heffect ⊢
  generalize ((s.agents e.profile).act zone settings e.profile s.shared e.act).2 = sh' at heffect ⊢
  cases heffect with
  | same hsame =>
    refine ⟨L, h.update ((h.holds _).mono (Less.of_same hsame)) (fun k => by rw [hsame.holders]) fun w hw _ => ?_⟩
    exact hsame.wakes ▸ hw
  | reserved he ht hreserve hnone hr hw hun hturns hnext =>
    simp only [System.Counted, he] at hc
    obtain ⟨hclock, hfresh⟩ := hc _ ht
    exact ⟨_, reserved_ledger h hclock hfresh hreserve hnone hr hw hun hturns hnext⟩
  | began hr hr' hw hun ht hnext => exact ⟨L, began_ledger h hr hr' hw hun ht hnext⟩
  | released ho hl hk => exact ⟨_, released_ledger h ho hl hk⟩
  | left hl hk => exact ⟨L, left_ledger h hl hk⟩
  | stopped hread hr hw hun ht hnext hk => exact ⟨L, stopped_ledger h hread hr hw hun ht hnext hk⟩
  | published hw hcreated =>
    exact ⟨L, published_ledger h hids hw hcreated rfl rfl rfl rfl rfl ⟨rfl, rfl⟩ rfl⟩
  | heard hsub hw hphase hsilent => exact ⟨L, heard_ledger h hids hw hphase hsilent rfl rfl rfl hsub rfl⟩
  | spoke hsub ht hw hphase hslot => exact ⟨L, spoke_ledger h hids ht hw hphase hslot rfl rfl rfl hsub rfl⟩
  | confirmed hw hunread hr hwakes hun ht hnext =>
    exact ⟨_, confirmed_ledger h hids hw hunread hr hwakes hun ht hnext⟩

theorem run_ledger {s : System n} (h : Reach (step zone settings) (fun s e => s.Counted e) {} s) :
    ∃ L, Ledger zone (capOf settings) s.agents s.shared L := by
  have hboth : (∀ p, (s.agents p).Inv) ∧ ∃ L, Ledger zone (capOf settings) s.agents s.shared L := by
    refine h.invariant (P := fun s => (∀ p, (s.agents p).Inv) ∧ ∃ L, Ledger zone (capOf settings) s.agents s.shared L)
      ⟨fun _ => init_inv, [], init_ledger zone _⟩ fun s e ⟨hi, L, hl⟩ hc => ?_
    exact ⟨step_inv zone settings hi e, step_ledger zone settings hi hc hl⟩
  exact hboth.2

def Shared.said (day : Int) (sh : Shared n) : List (Spoken n) := sh.spoken.filter fun m => zone.date m.at_ = day

/-- The owner's daily limits hold, and a slot that nothing was said with comes back. -/
structure System.WithinLimits (s : System n) : Prop where
  all : ∀ day, (s.shared.said zone day).length ≤ GLOBAL_DAILY_CAP
  each : ∀ day p, (s.shared.said zone day).countP (·.profile = p) ≤ DAILY_CAP_BY_LEVEL (settings p).level
  /-- It is given back, or it has yet to be by who holds it, or nobody does; it expires in any case. -/
  slots : ∀ x ∈ s.shared.budget, (∀ m ∈ s.shared.spoken, m.token ≠ x.token) →
    x.sent = false ∧ (x.token ∈ s.shared.abandoned ∨ ∃ p, x.token ∈ (s.agents p).holders) ∧
      ∀ nowMs, nowMs - x.at_ > STALE_RESERVATION_MS → x ∉ live s.shared.budget nowMs

/-- Each message has its own entry of the ledger. -/
theorem spoken_le {zone : Zone} (h : Ledger zone cap agents sh L) {P : Spoken n → Bool} {Q : Entry (Fin n) → Bool}
    (hPQ : ∀ (m : Spoken n) (x : Entry (Fin n)), x.profile = m.profile → x.at_ = m.at_ → P m = true → Q x = true) :
    sh.spoken.countP P ≤ L.countP Q := by
  rw [List.countP_eq_length_filter, List.countP_eq_length_filter, ← List.length_map Spoken.token,
    ← List.length_map Entry.token]
  refine (List.subperm_of_subset (h.spokenTokens.sublist (List.filter_sublist.map _)) fun k hk => ?_).length_le
  obtain ⟨m, hm, rfl⟩ := List.mem_map.mp hk
  obtain ⟨hm, hP⟩ := List.mem_filter.mp hm
  obtain ⟨x, hx, ht, hp, hat, _⟩ := h.spoken m hm
  exact List.mem_map.mpr ⟨x, List.mem_filter.mpr ⟨hx, hPQ m x hp hat hP⟩, ht⟩

/-- In a run in which a turn speaks only while its wake-up waits for it, and is taken up in time. -/
theorem within_limits {s : System n} (h : Reach (step zone settings) (fun s e => s.Counted e) {} s) :
    s.WithinLimits zone settings := by
  obtain ⟨L, hl⟩ := run_ledger zone settings h
  constructor
  · intro day
    refine le_trans ?_ (hl.all day)
    unfold Shared.said onDay
    rw [← List.countP_eq_length_filter, ← List.countP_eq_length_filter]
    refine spoken_le hl fun m x _ hat hm => ?_
    rwa [hat]
  · intro day p
    refine le_trans ?_ (hl.each day p)
    unfold Shared.said onDay
    rw [List.countP_filter, List.countP_filter]
    refine spoken_le hl fun m x hp hat hm => ?_
    rwa [hp, hat]
  · intro x hx hnone
    have hs : x.sent = false := by
      by_contra hs
      obtain ⟨m, hm, he⟩ := hl.sent x (hl.budget x hx) (by simpa using hs)
      exact hnone m hm he
    exact ⟨hs, hl.held x hx hs, fun nowMs hold => stale_not_live hs hold⟩

/-! ## Two runs -/

namespace Sample

def otherChat : Text := "cli:3".toList

def otherFollowUp : Request := { followUp with sessionKey := .ok otherChat }

local instance one_agent : NeZero 1 := ⟨Nat.one_ne_zero⟩

def seldom (acts : List Act) : System 1 :=
  (acts.map fun a => (⟨0, a⟩ : Event 1)).foldl (step utc fun _ => { level := .low }) {}

/-- A turn that is not waited for any more, and the next wake-up with its slot. -/
def slowTurn : List Act :=
  [Act.start noon, .schedule followUp noon, .tick noon] ++ takesUp noon ++
    [Act.consider false none noon, .wake 0 .published noon, .timeout 0 noon, .schedule otherFollowUp noon, .tick noon] ++
    takesUp noon ++
    [Act.wake 1 .published noon, .finish 1 (.delivered "The prices fell.".toList) noon, .resume 1 noon,
      .finish 0 (.delivered "The laptop is sold out.".toList) noon]

theorem seldom_reach (acts : List Act) : Reach (step utc fun _ => { level := .low }) (fun _ _ => True) {} (seldom acts) :=
  Reach.free _ _

/-- An agent that may write once a day wrote twice. -/
theorem late_turn_exceeds :
    ∃ s : System 1, Reach (step utc fun _ => { level := .low }) (fun _ _ => True) {} s ∧
      DAILY_CAP_BY_LEVEL .low < (s.shared.said utc 0).countP (·.profile = 0) :=
  ⟨seldom slowTurn, seldom_reach _, by decide⟩

def promptActs : List Act :=
  [Act.start noon, .schedule followUp noon, .tick noon] ++ takesUp noon ++
    [Act.wake 0 .published noon, .finish 0 (.delivered "The prices fell.".toList) noon, .resume 0 noon]

def promptNoon : List (Event 1) := promptActs.map fun a => ⟨0, a⟩

theorem counted_reserve {s : System 1} (hr : s.shared.readings = []) (hw : (s.agents 0).wakes = []) :
    s.Counted ⟨0, .reserve⟩ := by
  refine fun t _ => ⟨fun r hin => ?_, fun p w hin => ?_⟩
  · rw [hr] at hin
    cases hin
  · rw [Fin.fin_one_eq_zero p, hw] at hin
    cases hin

theorem counted_finish {s : System 1} {turn : Nat} {text : Text} {now : Int} {t : Turn} {w : Wake} {x : Entry (Fin 1)}
    (ht : (s.agents 0).turns.find? (·.number = turn) = some t) (hw : (s.agents 0).wakeOf t.item = some w)
    (hphase : w.phase = .waiting turn none) (hx : s.shared.budget = [x]) (hslot : x.token = w.token) :
    s.Counted ⟨0, .finish turn (.delivered text) now⟩ := by
  intro u hu
  obtain rfl := Option.some.inj (ht.symm.trans hu)
  exact ⟨w, hw, hphase, x, hx ▸ List.mem_singleton_self x, hslot⟩

theorem promptNoon_allowed :
    Reach.Allowed (step utc fun _ => { level := .low }) (fun s e => s.Counted e) {} promptNoon :=
  ⟨trivial, trivial, trivial, trivial, counted_reserve rfl rfl, trivial, trivial, counted_finish rfl rfl rfl rfl rfl, trivial,
    trivial⟩

theorem promptNoon_within :
    (promptNoon.foldl (step utc fun _ => { level := .low }) {}).WithinLimits utc (fun _ : Fin 1 => { level := .low }) := by
  have h : Reach (step utc fun _ => { level := .low }) (fun s e => s.Counted e) {}
      (promptNoon.foldl (step utc fun _ => { level := .low }) {}) := Reach.foldl _ _ .start promptNoon_allowed
  exact within_limits utc (fun _ => { level := .low }) h

end Sample

end Flowly.Agenda
