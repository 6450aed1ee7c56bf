/-
  Flowly.Memory.ClearRuns — an operation that is clear leaves one active fact per key,
  and has changed no item when the governance refuses it.

  `Runs` says what makes an operation `Clear`, a condition on the store before it. `Ends` is
  said of each operation in turn, from its transitions up to the commit of a list of
  candidates, and always from a store with a proper history (`Audited`).

  Proved: a run of clear steps has one active fact for a key after every step
  (`one_fact_per_key`). Without the condition `accept` can leave two, and be refused after it
  has superseded one (`accept_leaves_the_active_fact`). The history needs no condition
  (`audited_always`).
-/

import Flowly.Memory.Runs

namespace Flowly.Memory

open Flowly.Lib

structure Ends (s : Store) (r : Except Failure Unit) (s' : Store) : Prop where
  facts : OneFactPerKey s'
  refused : ∀ e, r = .error e → e.isGovernance = true → s'.items = s.items

section Ends

variable {s s' : Store} {r : Except Failure Unit}

theorem Ends.ok (h : OneFactPerKey s') (hr : r = .ok ()) : Ends s r s' := by
  refine ⟨h, ?_⟩
  intro e he
  rw [hr] at he
  cases he

theorem Ends.same (h : OneFactPerKey s) : Ends s r s := ⟨h, fun _ _ _ => rfl⟩

end Ends

section Operations

variable {lower : String → String} {s : Store} {item : Item}

/-- A transition of an item that may be activated. -/
theorem transition_ends (h : Audited s) (hone : OneFactPerKey s) (id : Nat) {toStatus : Status} (actor reason : String)
    {supersedes : Option Nat}
    (hfree : toStatus = .active → ∀ item ∈ s.items, item.id = id → toStatus ∈ item.status.next → FreeFor s item) :
    Program.Post (transition id toStatus actor reason supersedes) s (Ends s) := by
  refine (transition_spec id toStatus actor reason supersedes).mono ?_
  intro r s' hend
  cases hend with
  | missing | same | refused | dangling => exact .same hone
  | @moved item hf hnext =>
    have hin : item ∈ s.items := List.mem_of_find?_eq_some hf
    have hid : item.id = id := by simpa using List.find?_some hf
    refine .ok ?_ rfl
    exact hone.settled h hin (fun hst => hfree hst item hin hid hnext) actor reason supersedes

/-- An item that is not rejected is activated, if it is not active yet. -/
theorem activate_ends (h : Audited s) (hone : OneFactPerKey s) (hin : item ∈ s.items) (hrej : item.status ≠ .rejected)
    (hfree : .active ∈ item.status.next → FreeFor s item) (actor reason : String) :
    Program.Post (transition item.id .active actor reason) s fun r s' => r = .ok () ∧ OneFactPerKey s' := by
  have hfound := h.find hin
  refine (transition_spec item.id .active actor reason none).mono ?_
  intro r s' hend
  cases hend with
  | missing hf =>
    rw [hfound] at hf
    cases hf
  | same => exact ⟨rfl, hone⟩
  | refused hf hne hout =>
    rw [hfound] at hf
    cases hf
    cases hst : item.status with
    | rejected => exact absurd hst hrej
    | active => exact absurd hst hne
    | candidate | needsReview | stale | superseded =>
      rw [hst] at hout
      exact absurd (by decide) hout
  | dangling _ hsup => cases hsup
  | moved hf hnext =>
    rw [hfound] at hf
    cases hf
    exact ⟨rfl, hone.activate h hin (hfree hnext) actor reason none⟩

/-- A new candidate becomes active where its key is free, or waits. -/
theorem settle_ends (h : Audited s) (hone : OneFactPerKey s) (hin : item ∈ s.items) (hst : item.status = .candidate)
    {activate : Bool} (hfree : activate = true → FreeFor s item) (flagged : Bool) (reason : String) :
    Program.Post (settle item.id activate flagged reason) s fun r s' => r = .ok () ∧ OneFactPerKey s' := by
  unfold settle
  split
  · next hact =>
    refine .of_exec (transition_moves h hin (by rw [hst]; decide) no_link _ _) ⟨rfl, ?_⟩
    exact hone.settled h hin (fun _ => hfree hact) _ _ _
  · refine .of_exec (transition_moves h hin (by rw [hst]; decide) no_link _ _) ⟨rfl, ?_⟩
    exact hone.settled h hin (fun hact : Status.needsReview = .active => nomatch hact) _ _ _

/-- A new item is added as a candidate, and settled. -/
theorem addSettle_ends (h : Audited s) (hone : OneFactPerKey s) {new : Item} (hvalid : new.Valid) (hst : new.status = .candidate)
    {activate : Bool} (hfree : activate = true → FreeFor s { new with id := s.nextId }) (flagged : Bool) (actor reason reason' : String) :
    Program.Post (do
      let item ← addItem new actor reason
      settle item.id activate flagged reason') s fun r s' => r = .ok () ∧ OneFactPerKey s' := by
  have hne : new.status ≠ .active := by
    rw [hst]
    exact Status.candidate_ne_active
  have hadd := shrinks_add (s := s) hne actor reason
  refine Program.Post.step (addItem_adds hvalid actor reason) ?_
  exact settle_ends (h.add new actor reason) (hone.shrinks hadd) (mem_add new actor reason) hst (fun hact => (hfree hact).shrinks hadd) flagged reason'

theorem ingestAppend_ends (h : Audited s) (hone : OneFactPerKey s) (content : String) (autoActivate flagged : Bool) :
    Program.Post (ingestAppend lower content autoActivate flagged) s (Ends s) := by
  unfold ingestAppend
  dsimp only
  split
  · exact .same hone
  · refine Program.Post.step (a := s.items.filter _) rfl ?_
    split
    · next known _ =>
      exact .ok (hone.shrinks (shrinks_touch known.id)) rfl
    · have hvalid : "preference" ∈ validKinds ∧ "memory_md" ∈ validRefKinds ∧ "normal" ∈ validPrivacy := by decide
      have hkind : "preference" ≠ "fact" := by decide
      refine (addSettle_ends h hone (by exact hvalid) rfl (fun _ => .ofKind (by exact hkind)) _ _ _ _).mono ?_
      intro r s' hend
      exact .ok hend.2 hend.1

theorem ingestKgFact_ends (h : Audited s) (hone : OneFactPerKey s) {subject predicate object triple : String} {autoActivate flagged : Bool}
    (hclear : ClearIngest lower s subject predicate object triple (autoActivate && !flagged)) :
    Program.Post (ingestKgFact lower subject predicate object triple autoActivate flagged) s (Ends s) := by
  unfold ingestKgFact
  dsimp only
  split
  · exact .same hone
  · next hstated =>
    refine Program.Post.step (a := s.items.filter _) rfl ?_
    split
    · exact .same hone
    · next hrecorded =>
      rw [not_or, not_or] at hstated
      have hvalid : "fact" ∈ validKinds ∧ "kg_triple" ∈ validRefKinds ∧ "normal" ∈ validPrivacy := by decide
      have hnew : triple ≠ "" → ∀ i ∈ s.items, i.refKind = "kg_triple" → i.refId ≠ some triple := by
        intro hne i hi hk hid
        refine hrecorded ⟨hne, ?_⟩
        exact List.ne_nil_of_mem (List.mem_filter.2 ⟨hi, by simp [hk, hid]⟩)
      split
      · next hact =>
        have hkeep := hclear hact hstated.1 hstated.2.1 hstated.2.2 hnew
        refine Program.Post.step (findByKey_exec s _ _) ?_
        refine Program.Post.bind (supersedeAll_spec h _ _ _ _ no_link) ?_ ?_
        · intro _ s' hloop
          obtain ⟨-, hret⟩ := hloop
          refine (addSettle_ends hret.audited (hone.shrinks hret.shrinks) (by exact hvalid) rfl ?_ _ _ _ _).mono ?_
          · intro _
            refine hret.freeFor ?_ ?_
            · exact fun _ => rfl
            · intro j hj haj heq hk
              exact absurd (of_decide_eq_true hk) (hkeep j hj haj heq)
          · intro r s'' hend
            exact .ok hend.2 hend.1
        · intro e s' hloop
          cases hloop.1
      · next hact =>
        refine (addSettle_ends h hone (by exact hvalid) rfl (fun hact' => absurd hact' hact) _ _ _ _).mono ?_
        intro r s' hend
        exact .ok hend.2 hend.1

theorem addWaiting_ends (hone : OneFactPerKey s) {new : Item} (hst : new.status ≠ .active) (actor reason : String) :
    Program.Post (addItem new actor reason >>= fun _ => pure ()) s (Ends s) := by
  refine Program.Post.bind (addItem_spec new actor reason) ?_ ?_
  · intro item s' hend
    split at hend
    · rw [hend.2]
      exact .ok (hone.shrinks (shrinks_add hst _ _)) rfl
    · obtain ⟨⟨_, herr⟩, -⟩ := hend
      cases herr
  · intro e s' hend
    split at hend
    · cases hend.1
    · rw [hend.2]
      exact .same hone

theorem ingestObsidianCandidate_ends (hone : OneFactPerKey s) (kind text path sourceLines : String) (confidence : Rat)
    (privacyLevel : String) (kg : Option Kg) :
    Program.Post (ingestObsidianCandidate lower kind text path sourceLines confidence privacyLevel kg) s (Ends s) := by
  unfold ingestObsidianCandidate
  dsimp only
  have hst : Status.needsReview ≠ .active := by decide
  split
  · exact .same hone
  · exact addWaiting_ends hone hst _ _

/-- A rejected fact from a vault: refused, and nothing to be superseded before that. -/
theorem rejected_ends (hone : OneFactPerKey s) (hin : item ∈ s.items) (h : Audited s) (hst : item.status = .rejected) {kg : Kg} {added : String}
    (htriple : acceptedTriple kg added = "")
    (hnone : ∀ j ∈ s.withKey (acceptedKey lower item kg) [.active], acceptKeeps item (acceptedTriple kg added) j) :
    Program.Post (acceptObsidianFact lower item kg added) s (Ends s) := by
  unfold acceptObsidianFact
  dsimp only
  refine Program.Post.step (findByKey_exec s _ _) ?_
  have hloop : (s.withKey (acceptedKey lower item kg) [.active]).filter (fun sib => !acceptKeeps item (acceptedTriple kg added) sib) = [] := by
    refine List.filter_eq_nil_iff.2 ?_
    intro j hj
    rw [hnone j hj]
    exact Bool.false_ne_true
  refine Program.Post.step (show Program.exec _ s = (.ok (), s) from ?_) ?_
  · unfold supersedeAll
    rw [hloop]
    rfl
  · rw [if_neg (not_not_intro htriple)]
    refine transition_ends h hone item.id _ _ ?_
    intro _ other hother hid hnext
    obtain rfl : other = item := List.inj_on_of_nodup_map h.ids hother hin hid
    rw [hst] at hnext
    cases hnext

/-- A fact from a vault, when only it is kept on its key. -/
theorem acceptObsidianFact_ends (h : Audited s) (hone : OneFactPerKey s) (hin : item ∈ s.items) {kg : Kg} {added : String}
    (hclear : ClearFact lower s item kg added) : Program.Post (acceptObsidianFact lower item kg added) s (Ends s) := by
  by_cases hrej : item.status = .rejected
  · obtain ⟨htriple, hnone⟩ := hclear.2 hrej
    exact rejected_ends hone hin h hrej htriple hnone
  · unfold acceptObsidianFact
    dsimp only
    refine Program.Post.step (findByKey_exec s _ _) ?_
    refine Program.Post.bind (supersedeAll_spec h _ _ _ _ no_link) ?_ ?_
    · intro _ s' hloop
      obtain ⟨-, hret⟩ := hloop
      have hself : acceptKeeps item (acceptedTriple kg added) item = true := by
        unfold acceptKeeps
        rw [decide_eq_true (rfl : item.id = item.id), Bool.true_or]
      have hin' : item ∈ s'.items := hret.keeps h hin (.inl hself)
      have hfree : .active ∈ item.status.next → FreeFor s' item := by
        intro hnext
        by_cases hkey : item.normalizedKey = ""
        · exact fun _ hne => absurd hkey hne
        · refine hret.freeFor ?_ ?_
          · intro hne
            unfold acceptedKey
            rw [if_pos hne]
          · exact fun j hj haj heq => hclear.1 hnext hkey j hj haj heq
      split
      · next htriple =>
        refine Program.Post.step (updateFields_sets hret.audited hin' ?_) ?_
        · intro r hr
          obtain rfl := Option.some.inj hr
          exact (by decide : "kg_triple" ∈ validRefKinds)
        · have hsets : Shrinks s' (s'.setFields item.id _) := shrinks_setFields item.id { ref := some ("kg_triple", acceptedTriple kg added) }
          have hset : Fields.set { ref := some ("kg_triple", acceptedTriple kg added) } item ∈ (s'.setFields item.id _).items :=
            List.mem_map.2 ⟨item, hin', if_pos rfl⟩
          refine (activate_ends (hret.audited.setFields _ _) ((hone.shrinks hret.shrinks).shrinks hsets) hset hrej ?_ _ _).mono ?_
          · exact fun hnext => (hfree hnext).shrinks hsets
          · intro r s'' hend
            exact .ok hend.2 hend.1
      · refine (activate_ends hret.audited (hone.shrinks hret.shrinks) hin' hrej hfree _ _).mono ?_
        intro r s'' hend
        exact .ok hend.2 hend.1
    · intro e s' hloop
      cases hloop.1

/-- The item an operation is about, or none has the id. -/
theorem getItem_step {β : Type} {id : Nat} {f : Option Item → Gov β} {Q : Except Failure β → Store → Prop}
    (hnone : (∀ item ∈ s.items, item.id ≠ id) → Program.Post (f none) s Q) (hsome : ∀ item ∈ s.items, item.id = id → Program.Post (f (some item)) s Q) :
    Program.Post (getItem id >>= f) s Q := by
  refine Program.Post.step (a := s.items.find? (·.id = id)) rfl ?_
  cases hf : s.items.find? (·.id = id) with
  | none => exact hnone fun item hin => by simpa using List.find?_eq_none.1 hf item hin
  | some item => exact hsome item (List.mem_of_find?_eq_some hf) (by simpa using List.find?_some hf)

theorem accept_ends (h : Audited s) (hone : OneFactPerKey s) {id : Nat} {added : String} (hclear : ClearAccept lower s id added) :
    Program.Post (accept lower id added) s (Ends s) := by
  refine getItem_step ?_ ?_
  · intro hmissing
    exact transition_ends h hone id _ _ fun _ item hin hid _ => absurd hid (hmissing item hin)
  · intro item hin hid
    have hcase := hclear item hin hid
    dsimp only [Option.bind_some]
    cases hp : item.pending with
    | some kg =>
      rw [hp] at hcase
      exact acceptObsidianFact_ends h hone hin hcase
    | none =>
      rw [hp] at hcase
      refine transition_ends h hone id _ _ ?_
      intro _ other hother hid' hnext
      obtain rfl : other = item := List.inj_on_of_nodup_map h.ids hother hin (hid'.trans hid.symm)
      exact hcase hnext

theorem reject_ends (h : Audited s) (hone : OneFactPerKey s) (id : Nat) : Program.Post (reject id) s (Ends s) := by
  refine getItem_step ?_ ?_
  · exact fun _ => .same hone
  · intro item _ _
    exact transition_ends h hone id _ _ (fun hact => nomatch hact)

theorem correct_ends (h : Audited s) (hone : OneFactPerKey s) {id : Nat} (text : String) (confidence : Option Rat) (hclear : ClearCorrect s id) :
    Program.Post (correct id text confidence) s (Ends s) := by
  refine getItem_step ?_ ?_
  · exact fun _ => .same hone
  · intro item hin hid
    obtain rfl := hid
    have hsets : Shrinks s (s.setFields item.id { text := some text, confidence }) := shrinks_setFields _ _
    refine Program.Post.step (updateFields_sets h hin no_ref) ?_
    split
    · next hst =>
      have hset : Fields.set { text := some text, confidence } item ∈ (s.setFields item.id _).items := List.mem_map.2 ⟨item, hin, if_pos rfl⟩
      have hrej : (Fields.set { text := some text, confidence } item).status ≠ .rejected := by
        intro hrej
        have hrej' : item.status = .rejected := hrej
        rw [hrej'] at hst
        rcases hst with hst | hst
        · cases hst
        · cases hst
      refine Program.Post.tryCatch (activate_ends (h.setFields _ _) (hone.shrinks hsets) hset hrej ?_ _ _) ?_ ?_
      · exact fun _ => (hclear item hin rfl hst).shrinks hsets
      · exact fun _ s' hend => .ok hend.2 rfl
      · exact fun e s' hend => nomatch hend.1
    · exact .ok (hone.shrinks hsets) rfl

theorem undo_ends (h : Audited s) (hone : OneFactPerKey s) (id : Nat) : Program.Post (undo id) s (Ends s) := by
  refine getItem_step ?_ ?_
  · exact fun _ => .same hone
  · intro item hin hid
    obtain rfl := hid
    show Program.Post (if item.status ≠ .superseded ∧ item.status ≠ .stale then _ else _) s _
    split
    · exact .same hone
    · next hst =>
      refine Program.Post.step (findByKey_exec s _ _) ?_
      have hlink : ∀ sup, some item.id = some sup → sup ∈ s.items.map Item.id := by
        intro sup hsup
        obtain rfl := Option.some.inj hsup
        exact List.mem_map_of_mem hin
      refine Program.Post.bind (supersedeAll_spec h _ _ _ _ hlink) ?_ ?_
      · intro _ s' hloop
        obtain ⟨-, hret⟩ := hloop
        have hin' : item ∈ s'.items := hret.keeps h hin (.inl (decide_eq_true rfl))
        have hrej : item.status ≠ .rejected := by
          intro hrej
          rw [hrej] at hst
          exact hst (by decide)
        refine (activate_ends hret.audited (hone.shrinks hret.shrinks) hin' hrej ?_ _ _).mono ?_
        · intro _
          refine hret.freeFor ?_ ?_
          · exact fun _ => rfl
          · exact fun j _ _ _ hk => of_decide_eq_true hk
        · intro r s'' hend
          exact .ok hend.2 hend.1
      · intro e s' hloop
        cases hloop.1

theorem ingestFeedback_ends (h : Audited s) (hone : OneFactPerKey s) (id : Nat) (helpful : Bool) :
    Program.Post (ingestFeedback id helpful) s (Ends s) := by
  refine getItem_step ?_ ?_
  · exact fun _ => .same hone
  · intro item hin hid
    obtain rfl := hid
    dsimp only
    refine Program.Post.step (updateFields_sets h hin no_ref) ?_
    generalize max 0 (min 1 (item.confidence + if helpful = true then 1 / 10 else -(3 / 20))) = confidence
    have hsets : Shrinks s (s.setFields item.id { confidence := some confidence }) := shrinks_setFields _ _
    have hset : Fields.set { confidence := some confidence } item ∈ (s.setFields item.id _).items := List.mem_map.2 ⟨item, hin, if_pos rfl⟩
    split
    · next hlow =>
      have hnext : .needsReview ∈ (Fields.set { confidence := some confidence } item).status.next := by
        show .needsReview ∈ item.status.next
        rw [hlow.2.2]
        decide
      refine .of_exec (transition_moves (h.setFields _ _) hset hnext no_link _ _) (.ok ?_ rfl)
      exact (hone.shrinks hsets).shrinks (shrinks_move (by decide) _ _ _)
    · exact .ok (hone.shrinks hsets) rfl

/-- A loop over items that can become stale. -/
theorem staleAll_ends (h : Audited s) (hone : OneFactPerKey s) {l : List Item} (hl : l.Sublist s.items)
    (hst : ∀ i ∈ l, i.status = .active ∨ i.status = .needsReview) (reason : String) :
    Program.Post (l.forM fun i => transition i.id .stale "system" reason) s fun r s' => r = .ok () ∧ Audited s' ∧ OneFactPerKey s' := by
  refine (retireAll_spec (by decide) "system" reason l h ?_ (h.nodup_sublist hl) no_link).mono ?_
  · intro i hi
    refine ⟨hl.subset hi, ?_⟩
    rcases hst i hi with hst | hst
    · rw [hst]
      decide
    · rw [hst]
      decide
  · intro r s' hend
    exact ⟨hend.1, hend.2.audited, hone.shrinks hend.2.shrinks⟩

theorem retireKgFacts_ends (h : Audited s) (hone : OneFactPerKey s) (triples : List String) :
    Program.Post (retireKgFacts triples) s (Ends s) := by
  refine Program.Post.forM (I := fun _ s' => Audited s' ∧ OneFactPerKey s') _ ⟨h, hone⟩ ?_ ?_
  · intro triple _ s1 hinv
    refine Program.Post.step (a := s1.items.filter _) rfl ?_
    refine (staleAll_ends hinv.1 hinv.2 (List.filter_sublist.trans List.filter_sublist) ?_ _).mono ?_
    · intro i hi
      simpa using (List.mem_filter.1 hi).2
    · intro r s' hend
      rw [hend.1]
      exact hend.2
  · exact fun s' hinv => .ok hinv.2 rfl

theorem reconcileKgTriples_ends (h : Audited s) (hone : OneFactPerKey s) (states : List (String × Bool)) :
    Program.Post (reconcileKgTriples states) s (Ends s) := by
  refine Program.Post.step (a := s.items.filter _) rfl ?_
  refine (staleAll_ends h hone (List.filter_sublist.trans List.filter_sublist) ?_ _).mono ?_
  · intro i hi
    have hcond := (List.mem_filter.1 hi).2
    rw [Bool.and_eq_true] at hcond
    exact .inl (of_decide_eq_true hcond.2)
  · intro r s' hend
    exact .ok hend.2.2 hend.1

/-- The facts are one per key, and what is raised is no refusal. -/
structure Quiet (r : Except Failure Unit) (s' : Store) : Prop where
  facts : OneFactPerKey s'
  raised : ∀ e, r = .error e → e.isGovernance = false

theorem Quiet.ok {r : Except Failure Unit} {s' : Store} (h : OneFactPerKey s') (hr : r = .ok ()) : Quiet r s' := by
  refine ⟨h, ?_⟩
  intro e he
  rw [hr] at he
  cases he

theorem ignored_quiet {x : Gov Unit} (h : Program.Post x s (Ends s)) : Program.Post (tryCatch x ignoreGovernance) s Quiet := by
  refine h.tryCatch ?_ ?_
  · exact fun _ s' hend => .ok hend.facts rfl
  · intro e s' hend
    unfold ignoreGovernance
    cases hgov : e.isGovernance with
    | true =>
      rw [if_pos rfl]
      exact .ok hend.facts rfl
    | false =>
      rw [if_neg Bool.false_ne_true]
      refine ⟨hend.facts, ?_⟩
      intro e' he'
      obtain rfl := Except.error.inj he'
      exact hgov

theorem applyOperation_quiet (h : Audited s) (hone : OneFactPerKey s) (op : ConsolidateOp) : Program.Post (applyOperation op) s Quiet := by
  have hmove : ∀ (id : Nat) (toStatus : Status) (supersedes : Option Nat), toStatus ≠ .active →
      Program.Post (tryCatch (transition id toStatus "system" "consolidate" supersedes) ignoreGovernance) s Quiet := by
    intro id toStatus supersedes hne
    exact ignored_quiet (transition_ends h hone id _ _ fun hact => absurd hact hne)
  refine Program.Post.step (a := s.items.find? (·.id = op.id)) rfl ?_
  split
  · exact .ok hone rfl
  · split
    · exact hmove _ _ _ (by decide)
    · exact hmove _ _ _ (by decide)
    · split
      · exact .ok hone rfl
      · next survivor _ =>
        refine Program.Post.step (a := s.items.find? (·.id = survivor)) rfl ?_
        split
        · exact .ok hone rfl
        · exact hmove _ _ _ (by decide)

theorem applyOperations_ends (h : Audited s) (hone : OneFactPerKey s) (ops : List ConsolidateOp) :
    Program.Post (applyOperations ops) s (Ends s) := by
  refine Program.Post.forM (I := fun _ s' => Audited s' ∧ OneFactPerKey s') ops ⟨h, hone⟩ ?_ ?_
  · intro op _ s1 hinv
    have hq := applyOperation_quiet hinv.1 hinv.2 op
    have ha := applyOperation_audited op s1 hinv.1
    unfold Program.Post at hq ha ⊢
    generalize Program.exec (applyOperation op) s1 = run at hq ha ⊢
    obtain ⟨r, s'⟩ := run
    cases r with
    | ok _ => exact ⟨ha, hq.facts⟩
    | error e =>
      refine ⟨hq.facts, ?_⟩
      intro e' he' hgov
      obtain rfl := Except.error.inj he'
      rw [hq.raised e rfl] at hgov
      cases hgov
  · exact fun s' hinv => .ok hinv.2 rfl

/-! ## The commit of candidates -/

inductive CommitEnds (s : Store) (committed : Prop) : Except Failure Unit → Store → Prop where
  | done {s' : Store} (hc : committed) (h : OneFactPerKey s') : CommitEnds s committed (.ok ()) s'
  | refused {e : Failure} (hc : ¬ committed) : CommitEnds s committed (.error e) s

variable {c : Candidate}

/-- What a candidate that is created ends in; an invalid one changes nothing. -/
theorem create_post {f : Item → Gov Unit} {Q : Except Failure Unit → Store → Prop}
    (hvalid : c.item.Valid → Program.Post (f { c.item with id := s.nextId }) (s.add c.item "dreamer" "extracted") Q)
    (hnot : ∀ e, ¬ c.item.Valid → Q (.error e) s) : Program.Post (createItem c >>= f) s Q := by
  by_cases hv : c.item.Valid
  · exact Program.Post.step (addItem_adds hv "dreamer" "extracted") (hvalid hv)
  · refine Program.Post.bind (addItem_spec c.item "dreamer" "extracted") ?_ ?_
    · intro item s' hend
      simp only [if_neg hv] at hend
      obtain ⟨⟨_, herr⟩, -⟩ := hend
      cases herr
    · intro e s' hend
      simp only [if_neg hv] at hend
      rw [hend.2]
      exact hnot e hv

/-- What is done with a candidate that is created. -/
theorem create_ends {f : Item → Gov Unit} (hf : c.item.Valid → Program.Post (f { c.item with id := s.nextId })
      (s.add c.item "dreamer" "extracted") fun r s' => r = .ok () ∧ OneFactPerKey s') :
    Program.Post (createItem c >>= f) s (CommitEnds s c.item.Valid) := by
  refine create_post ?_ fun _ hnot => .refused hnot
  intro hvalid
  refine (hf hvalid).mono ?_
  intro r s' hend
  rw [hend.1]
  exact .done hvalid hend.2

/-- A candidate that waits, or that becomes active on a key that is free. -/
theorem createMoved_ends (h : Audited s) (hone : OneFactPerKey s) {toStatus : Status} (hnext : toStatus ∈ Status.candidate.next)
    (hfree : toStatus = .active → FreeFor s { c.item with id := s.nextId }) (reason : String) :
    Program.Post (createItem c >>= fun item => transition item.id toStatus "dreamer" reason) s (CommitEnds s c.item.Valid) := by
  refine create_ends fun hvalid => ?_
  have hadd : Shrinks s (s.add c.item "dreamer" "extracted") := shrinks_add Status.candidate_ne_active _ _
  have haudit := h.add c.item "dreamer" "extracted"
  have hnew := mem_add (s := s) c.item "dreamer" "extracted"
  refine .of_exec (transition_moves haudit hnew hnext no_link _ _) ⟨rfl, ?_⟩
  exact (hone.shrinks hadd).settled haudit hnew (fun hact => (hfree hact).shrinks hadd) _ _ _

theorem OneFactPerKey.of_items {s s' : Store} (h : OneFactPerKey s) (heq : s'.items = s.items) : OneFactPerKey s' := by
  unfold OneFactPerKey
  rw [heq]
  exact h

/-- It makes no difference to the items which of two is moved first. -/
theorem move_comm {a b : Item} (hne : a.id ≠ b.id) {sa sb : Status} {actor ra rb : String} {la lb : Option Nat} :
    ((s.move a sa actor ra la).move b sb actor rb lb).items = ((s.move b sb actor rb lb).move a sa actor ra la).items := by
  show (s.items.map _).map _ = (s.items.map _).map _
  rw [List.map_map, List.map_map]
  refine List.map_congr_left fun i _ => ?_
  dsimp only [Function.comp]
  by_cases ha : i.id = a.id
  · have hb : i.id ≠ b.id := fun hb => hne (ha.symm.trans hb)
    simp only [if_pos ha, if_neg hb]
  · by_cases hb : i.id = b.id
    · simp only [if_neg ha, if_pos hb]
    · simp only [if_neg ha, if_neg hb]

/-- The winner is activated before the loser is superseded; in the end only one of them
    is active. -/
theorem resolveConflict_ends (h : Audited s) (hone : OneFactPerKey s) {m : Dreamer} {loser : Item} (hin : loser ∈ s.items)
    (hact : loser.status = .active)
    (hclear : c.item.Valid → c.isExplicit = true → m.autoFloor ≤ c.confidence → c.kind = "fact" →
      ∀ j ∈ s.items, j.ActiveFact → j.normalizedKey = c.normalizedKey → j.id = loser.id) :
    Program.Post (resolveConflict m c loser) s (CommitEnds s c.item.Valid) := by
  unfold resolveConflict
  split
  · exact createMoved_ends h hone (by decide) (fun hact' : Status.needsReview = .active => nomatch hact') _
  · next hwins =>
    rw [Bool.not_eq_true, Bool.not_eq_false', Bool.and_eq_true, decide_eq_true_eq] at hwins
    refine create_ends fun hvalid => ?_
    have haudit := h.add c.item "dreamer" "extracted"
    have hnew := mem_add (s := s) c.item "dreamer" "extracted"
    have hloser := mem_add_of_mem hin c.item "dreamer" "extracted"
    have hlt : loser.id ≠ s.nextId := Nat.ne_of_lt (h.lt loser hin)
    generalize hs1 : s.add c.item "dreamer" "extracted" = s1 at haudit hnew hloser ⊢
    generalize hwinner : ({ c.item with id := s.nextId } : Item) = winner at hnew ⊢
    have hid : winner.id = s.nextId := by rw [← hwinner]
    have hcand : winner.status = .candidate := by rw [← hwinner]; rfl
    have hlink : ∀ sup, some loser.id = some sup → sup ∈ s1.items.map Item.id := by
      intro sup hsup
      obtain rfl := Option.some.inj hsup
      exact List.mem_map_of_mem hloser
    have hup : Status.active ∈ winner.status.next := by
      rw [hcand]
      decide
    have hdown : Status.superseded ∈ loser.status.next := by
      rw [hact]
      decide
    refine Program.Post.step (transition_moves haudit hnew hup hlink _ _) ?_
    have haudit' := haudit.move (haudit.find hnew) hup "dreamer" "supersedes_older_fact" (some loser.id)
    have hloser' : loser ∈ (s1.move winner .active "dreamer" "supersedes_older_fact" (some loser.id)).items :=
      mem_move_of_ne hloser (by rw [hid]; exact hlt)
    refine .of_exec (transition_moves haudit' hloser' hdown no_link _ _) ⟨rfl, ?_⟩
    refine OneFactPerKey.of_items ?_ (move_comm (by rw [hid]; exact hlt.symm))
    -- The loser first, then the winner.
    have hshrinks : Shrinks s s1 := by
      rw [← hs1]
      exact shrinks_add Status.candidate_ne_active _ _
    have hdownshrinks : Shrinks s1 (s1.move loser .superseded "dreamer" "superseded_by_newer" none) := shrinks_move (by decide) _ _ _
    have hnew' : winner ∈ (s1.move loser .superseded "dreamer" "superseded_by_newer" none).items :=
      mem_move_of_ne hnew (by rw [hid]; exact hlt.symm)
    refine ((hone.shrinks hshrinks).shrinks hdownshrinks).activate (haudit.move (haudit.find hloser) hdown _ _ _) hnew' ?_ _ _ _
    intro hkind hkey j hj haj heq
    obtain ⟨i, hi, rfl⟩ := List.mem_map.1 hj
    by_cases hil : i.id = loser.id
    · rw [if_pos hil] at haj
      exact absurd haj.2 (show Status.superseded ≠ .active by decide)
    · rw [if_neg hil] at haj heq ⊢
      rw [← hs1] at hi
      rcases List.mem_append.1 hi with hi | hi
      · rw [← hwinner] at hkind heq
        exact absurd (hclear hvalid hwins.1 hwins.2 hkind i hi haj heq) hil
      · rw [List.mem_singleton.1 hi] at haj
        exact absurd haj.2 Status.candidate_ne_active

theorem decideStatus_next (m : Dreamer) (c : Candidate) : (decideStatus m c).1 ∈ Status.candidate.next := by
  unfold decideStatus
  split
  · decide
  · split
    · decide
    · split
      · decide
      · decide

theorem calibrated_valid {m : Dreamer} : (calibrated m s c).item.Valid ↔ c.item.Valid := by
  unfold calibrated
  cases m.calibrate with
  | none => rfl
  | some f => rfl

theorem calibrated_fields (m : Dreamer) (c : Candidate) : (calibrated m s c).kind = c.kind ∧
    (calibrated m s c).normalizedKey = c.normalizedKey ∧ (calibrated m s c).isExplicit = c.isExplicit := by
  unfold calibrated
  cases m.calibrate with
  | none => exact ⟨rfl, rfl, rfl⟩
  | some f => exact ⟨rfl, rfl, rfl⟩

theorem commitNew_ends (h : Audited s) (hone : OneFactPerKey s) {m : Dreamer}
    (hclear : c.item.Valid → c.isExplicit = true → m.autoFloor ≤ (calibrated m s c).confidence → c.kind = "fact" →
      ∀ loser ∈ contradicted s c, ∀ j ∈ s.items, j.ActiveFact → j.normalizedKey = c.normalizedKey → j.id = loser.id) :
    Program.Post (commitNew m c (sameKey s c)) s (CommitEnds s c.item.Valid) := by
  obtain ⟨hkind, hkey, hexp⟩ := calibrated_fields (s := s) m c
  rw [← calibrated_valid (s := s) (m := m)] at hclear ⊢
  cases hcon : contradicted s c with
  | some loser =>
    rw [commitNew_some hcon]
    have hfound : loser ∈ sameKey s c := List.mem_of_find?_eq_some hcon
    obtain ⟨-, hin, -, -⟩ := mem_withKey.1 hfound
    have hact : loser.status = .active := by simpa using List.find?_some hcon
    refine resolveConflict_ends h hone hin hact ?_
    intro hvalid hexplicit hfloor hfact
    rw [hkey]
    exact hclear hvalid (hexp ▸ hexplicit) hfloor (hkind ▸ hfact) loser hcon
  | none =>
    rw [commitNew_none hcon]
    refine createMoved_ends h hone (decideStatus_next _ _) ?_ _
    intro _ _ hne j hj haj heq
    have hkey' : j.normalizedKey = c.normalizedKey := Eq.trans heq hkey
    have hne' : c.normalizedKey ≠ "" := by
      rw [← hkey]
      exact hne
    have hsame : j ∈ sameKey s c := mem_withKey.2 ⟨hne', hj, hkey', by rw [haj.2]; decide⟩
    have hno := List.find?_eq_none.1 hcon j hsame
    exact absurd (decide_eq_true haj.2) hno

theorem commitCandidate_ends (h : Audited s) (hone : OneFactPerKey s) {m : Dreamer} {scan : Scan}
    (hclear : ClearCommit lower m s c scan) :
    Program.Post (commitCandidate lower m c scan) s (CommitEnds s (Committed lower s c scan)) := by
  have hcreate : (¬ (scan = .clean ∧ Repeats lower s c)) → ∀ r s', CommitEnds s c.item.Valid r s' → CommitEnds s (Committed lower s c scan) r s' := by
    intro hnot r s' hend
    have hiff : Committed lower s c scan ↔ c.item.Valid := ⟨fun hc => hc.resolve_right hnot, Or.inl⟩
    rw [propext hiff]
    exact hend
  cases scan with
  | unavailable =>
    exact (createMoved_ends h hone (by decide) (fun hact : Status.needsReview = .active => nomatch hact) _).mono
      (hcreate fun hc => nomatch hc.1)
  | flagged =>
    exact (createMoved_ends h hone (by decide) (fun hact : Status.rejected = .active => nomatch hact) _).mono
      (hcreate fun hc => nomatch hc.1)
  | clean =>
    refine Program.Post.step (findByKey_exec s _ _) ?_
    split
    · next known hknown =>
      have hin : known ∈ s.items := (mem_withKey.1 (List.mem_of_find?_eq_some hknown)).2.1
      have hrepeats : Repeats lower s c := ⟨known, List.mem_of_find?_eq_some hknown, by simpa using List.find?_some hknown⟩
      have htouch : Shrinks s (s.touch known.id) := shrinks_touch known.id
      have hin' : { known with seen := known.seen + 1 } ∈ (s.touch known.id).items := List.mem_map.2 ⟨known, hin, if_pos rfl⟩
      refine Program.Post.step (show Program.exec (touchSeen known.id) s = (.ok (), s.touch known.id) from rfl) ?_
      split
      · refine .of_exec (updateFields_sets (h.touch known.id) hin' no_ref) ?_
        exact .done (.inr ⟨rfl, hrepeats⟩) ((hone.shrinks htouch).shrinks (shrinks_setFields _ _))
      · exact .done (.inr ⟨rfl, hrepeats⟩) (hone.shrinks htouch)
    · next hnone =>
      have hnew : ¬ Repeats lower s c := by
        intro hrep
        obtain ⟨i, hi, heq⟩ := hrep
        exact absurd (decide_eq_true heq) (List.find?_eq_none.1 hnone i hi)
      exact (commitNew_ends h hone (hclear rfl hnew)).mono (hcreate fun hc => hnew hc.2)

/-- Once a candidate is committed, none is refused. -/
theorem commits_end (m : Dreamer) : ∀ (cands : List (Candidate × Scan)) {s : Store} {started : Bool}, Audited s → OneFactPerKey s →
    ClearCommits lower m started s cands →
    Program.Post (commitCandidates lower m cands) s fun r s' => OneFactPerKey s' ∧ ∀ e, r = .error e → started = false ∧ s' = s := by
  intro cands
  induction cands with
  | nil =>
    intro s started _ hone _
    exact ⟨hone, fun e he => nomatch he⟩
  | cons c rest ih =>
    intro s started h hone hclear
    obtain ⟨hthis, hstarted, hrest⟩ := hclear
    have hends := commitCandidate_ends h hone hthis
    have haudit := @commitCandidate_audited lower m c.1 c.2 s h
    show Program.Post (commitCandidate lower m c.1 c.2 >>= fun _ => commitCandidates lower m rest) s _
    unfold Program.Post at hends haudit ⊢
    rw [Program.exec_bind]
    generalize Program.exec (commitCandidate lower m c.1 c.2) s = run at hends haudit hrest ⊢
    obtain ⟨r, s'⟩ := run
    cases hends with
    | done hc hone' =>
      have htail := ih haudit hone' (hrest hc)
      refine ⟨htail.1, ?_⟩
      intro e he
      cases (htail.2 e he).1
    | refused hc =>
      refine ⟨hone, ?_⟩
      intro e _
      cases started with
      | false => exact ⟨rfl, rfl⟩
      | true => exact absurd (hstarted rfl) hc

theorem run_ends (h : Audited s) (hone : OneFactPerKey s) {op : Operation} (hclear : Clear lower s op) :
    Program.Post (op.run lower) s (Ends s) := by
  cases op with
  | ingestAppend => exact ingestAppend_ends h hone _ _ _
  | ingestKgFact => exact ingestKgFact_ends h hone hclear
  | ingestObsidianCandidate => exact ingestObsidianCandidate_ends hone _ _ _ _ _ _ _
  | accept => exact accept_ends h hone hclear
  | reject => exact reject_ends h hone _
  | correct => exact correct_ends h hone _ _ hclear
  | undo => exact undo_ends h hone _
  | ingestFeedback => exact ingestFeedback_ends h hone _ _
  | retireKgFacts => exact retireKgFacts_ends h hone _
  | reconcileKgTriples => exact reconcileKgTriples_ends h hone _
  | consolidate => exact applyOperations_ends h hone _
  | commit m cands =>
    refine (commits_end m cands h hone hclear).mono ?_
    intro r s' hend
    refine ⟨hend.1, ?_⟩
    intro e he _
    rw [(hend.2 e he).2]

end Operations

/-! ## Runs -/

/-- In a run of clear steps there is one active fact for a key; the statuses changed as the
    table says and the audit leads from the creation of an item to its status; and a
    clear operation that the governance refuses changes no item. -/
theorem one_fact_per_key (lower : String → String) {s : Store} (h : Reach (step lower) (Clear lower) {} s) :
    OneFactPerKey s ∧ Audited s ∧
      ∀ op, Clear lower s op → ∀ e, (outcome lower s op).1 = .error e → e.isGovernance = true → (step lower s op).items = s.items := by
  have hinv : OneFactPerKey s ∧ Audited s := by
    refine h.invariant (P := fun s => OneFactPerKey s ∧ Audited s) ⟨?_, Audited.init⟩ ?_
    · exact List.forall_mem_nil _
    · intro s op hs hclear
      exact ⟨(run_ends hs.2 hs.1 hclear).facts, run_audited op s hs.2⟩
  refine ⟨hinv.1, hinv.2, ?_⟩
  intro op hclear e he hgov
  exact (run_ends hinv.2 hinv.1 hclear).refused e he hgov

/-- The history is kept in every run. -/
theorem audited_always (lower : String → String) {s : Store} (h : Reach (step lower) (fun _ _ => True) {} s) : Audited s :=
  h.invariant Audited.init fun s op hs _ => run_audited op s hs

namespace Sample

def asciiLower (s : String) : String := String.ofList (s.toList.map Char.toLower)

/-- A fact of the user's, and one an autonomous run found; `undo` brings the first back. -/
def known : List Operation :=
  [.ingestKgFact "Ali" "lives_in" "Ankara" "t_1" true false, .ingestKgFact "Ali" "lives_in" "Izmir" "t_2" true false, .undo 0]

theorem one_fact_per_key_known :
    OneFactPerKey (known.foldl (step asciiLower) {}) ∧ Audited (known.foldl (step asciiLower) {}) ∧
      ∀ op, Clear asciiLower (known.foldl (step asciiLower) {}) op → ∀ e,
        (outcome asciiLower (known.foldl (step asciiLower) {}) op).1 = .error e → e.isGovernance = true →
        (step asciiLower (known.foldl (step asciiLower) {}) op).items = (known.foldl (step asciiLower) {}).items := by
  refine one_fact_per_key asciiLower ?_
  refine Reach.foldl _ _ .start ?_
  decide

/-- The fact of the autonomous run waits, and is accepted. -/
def accepted : List Operation :=
  [.ingestKgFact "Ali" "lives_in" "Ankara" "t_1" true false, .ingestKgFact "Ali" "lives_in" "Izmir" "t_2" false false, .accept 1 ""]

theorem audited_accepted : Audited (accepted.foldl (step asciiLower) {}) :=
  audited_always asciiLower (Reach.free _ _)

/-- A fact from a vault is rejected, and then accepted. -/
def rejected : List Operation :=
  [.ingestKgFact "Ali" "lives_in" "Ankara" "t_1" true false,
    .ingestObsidianCandidate "fact" "Ali lives in Izmir" "ali.md" "" (13 / 20) "normal" (some ⟨"Ali", "lives_in", "Izmir"⟩), .reject 1]

end Sample

/-- Two active facts on one key after `accept`; and an `accept` that is refused after it has
    superseded the known fact. -/
theorem accept_leaves_the_active_fact :
    ¬ OneFactPerKey (Sample.accepted.foldl (step Sample.asciiLower) {}) ∧
    (match (outcome Sample.asciiLower (Sample.rejected.foldl (step Sample.asciiLower) {}) (.accept 1 "")).1 with
      | .error e => e.isGovernance
      | .ok _ => false) = true ∧
    (Sample.rejected.foldl (step Sample.asciiLower) {}).items.map (·.status) = [.active, .rejected] ∧
    (step Sample.asciiLower (Sample.rejected.foldl (step Sample.asciiLower) {}) (.accept 1 "")).items.map (·.status) =
      [.superseded, .rejected] := by
  decide

end Flowly.Memory
