/-
  Flowly.Board.Claims — who works on a card (`flowly/board/store.py`).

  Each operation of the board claims nothing or is one claim. Proved of every run of the
  board: a card has a token exactly while one of its runs is running, the run of its last
  attempt, and is in progress then; its runs are its attempts in order; no token is given
  out twice; a claim finds every linked parent done; and a worker with another token
  changes nothing (`claims_exclusive`).
-/

import Flowly.Board.Audit

namespace Flowly.Board.Claims

open Flowly.Lib Flowly.Lib.Keyed

variable {db db' : Db}

/-! ## Cards -/

variable {o : Owner} {rev : Option Nat}

theorem setStatus_claimless (hi : Inv db) {id : String} {status : Status} {b1 b2 : Bool}
    (h : db.setStatus o id status b1 b2 rev = some db') : Claimless db db' := by
  unfold Db.setStatus at h
  split at h
  · cases h
  · rename_i card hget
    obtain ⟨-, -, hcard⟩ := getCard_some hi hget
    split at h
    · cases h
    rename_i hfree
    split at h
    · cases h
    cases h
    refine updateCard_claimless hi fun c hc he => ?_
    obtain rfl := hcard c hc he
    have hnone : c.claimToken = none := by simpa using hfree
    exact ⟨rfl, rfl, by simp [hnone], fun hsome => absurd hsome hfree⟩

theorem setRunId_claimless (hi : Inv db) {id : String} {runId : Option String}
    (h : db.setRunId o id runId = some db') : Claimless db db' := by
  unfold Db.setRunId at h
  split at h
  · cases h
  cases h
  exact updateCard_claimless hi fun c hc _ => ⟨rfl, rfl, rfl, (hi.audited c hc).inProgress⟩

theorem updateCardFields_claimless (hi : Inv db) {id : String} {changes : CardChanges}
    (h : db.updateCardFields o id changes rev = some db') : Claimless db db' := by
  unfold Db.updateCardFields at h
  split at h
  · cases h
  split_ifs at h
  cases h
  exact updateCard_claimless hi fun c hc _ => ⟨rfl, rfl, rfl, (hi.audited c hc).inProgress⟩

theorem addNote_claimless (hi : Inv db) {id : String} (h : db.addNote o id rev = some db') :
    Claimless db db' := by
  unfold Db.addNote at h
  split at h
  · cases h
  split at h
  · cases h
  cases h
  exact updateCard_claimless hi fun c hc _ => ⟨rfl, rfl, rfl, (hi.audited c hc).inProgress⟩

theorem assignCard_claimless (hi : Inv db) {id profile botId : String} {ready : Bool}
    (h : db.assignCard o id profile botId ready rev = some db') : Claimless db db' := by
  unfold Db.assignCard at h
  split at h
  · cases h
  split at h
  · cases h
  · rename_i card hget
    obtain ⟨-, -, hcard⟩ := getCard_some hi hget
    split at h
    · cases h
    rename_i hfree
    split at h
    · cases h
    cases h
    refine updateCard_claimless hi fun c hc he => ⟨rfl, rfl, rfl, fun hsome => ?_⟩
    obtain rfl := hcard c hc he
    exact absurd (Or.inl hsome) hfree

theorem unassignCard_claimless (hi : Inv db) {id : String}
    (h : db.unassignCard o id rev = some db') : Claimless db db' := by
  unfold Db.unassignCard at h
  split at h
  · cases h
  · rename_i card hget
    obtain ⟨-, -, hcard⟩ := getCard_some hi hget
    split at h
    · cases h
    rename_i hfree
    split at h
    · cases h
    cases h
    refine updateCard_claimless hi fun c hc he => ⟨rfl, rfl, rfl, fun hsome => ?_⟩
    obtain rfl := hcard c hc he
    exact absurd (Or.inl hsome) hfree

theorem linkCards_claimless (hi : Inv db) {parent child : String} (h : db.linkCards o parent child = some db') :
    Claimless db db' := by
  unfold Db.linkCards at h
  split at h
  · cases h
  split at h
  · split at h
    · cases h
    split at h
    · cases h
    split at h
    · cases h
    cases h
    exact (Claimless.refl hi).congr rfl rfl rfl
  · cases h

/-- A card that is left keeps its runs. -/
theorem deleteCards_claimless (hi : Inv db) (p : Card → Bool) : Claimless db (db.deleteCards p) := by
  have hleft : ∀ c ∈ db.cards.filter (!p ·), c.id ∉ (db.cards.filter p).map (·.id) := by
    intro c hc hgone
    obtain ⟨hmem, hp⟩ := List.mem_filter.1 hc
    obtain ⟨c', hc', he⟩ := List.mem_map.1 hgone
    obtain ⟨hmem', hp'⟩ := List.mem_filter.1 hc'
    rw [List.inj_on_of_nodup_map hi.ids hmem' hmem he] at hp'
    simp [hp'] at hp
  have hruns : ∀ c ∈ db.cards.filter (!p ·), (db.deleteCards p).runsOf c.id = db.runsOf c.id := by
    intro c hc
    rw [Db.runsOf, Db.deleteCards, List.filter_filter, Db.runsOf]
    refine List.filter_congr fun r _ => ?_
    by_cases he : r.cardId = c.id
    · simp only [he, decide_true, Bool.true_and, decide_eq_true_eq]
      exact hleft c hc
    · simp [he]
  refine ⟨⟨hi.ids.sublist (List.filter_sublist.map _), ?_, ?_, ?_⟩, ?_, rfl⟩
  · intro r hr
    obtain ⟨hmem, hkept⟩ := List.mem_filter.1 hr
    obtain ⟨c, hc, he⟩ := hi.owned r hmem
    refine ⟨c, List.mem_filter.2 ⟨hc, ?_⟩, he⟩
    simp only [decide_eq_true_eq] at hkept
    by_contra hp
    exact hkept (List.mem_map.2 ⟨c, List.mem_filter.2 ⟨hc, by simpa using hp⟩, he⟩)
  · intro c hc
    have ha := hi.audited c (List.mem_of_mem_filter hc)
    exact ⟨by rw [hruns c hc]; exact ha.running, ha.inProgress, by rw [hruns c hc]; exact ha.attempts⟩
  · exact fun r hr => hi.fresh r (List.mem_of_mem_filter hr)
  · exact fun c hc t ht => ⟨c, List.mem_of_mem_filter hc, rfl, ht⟩

theorem deleteCard_claimless (hi : Inv db) {id : String} (h : db.deleteCard o id = some db') :
    Claimless db db' := by
  unfold Db.deleteCard at h
  split at h
  · cases h
  split_ifs at h
  cases h
  exact deleteCards_claimless hi _

theorem deleteByStatus_claimless (hi : Inv db) {status : Status} (h : db.deleteByStatus o status = some db') :
    Claimless db db' := by
  unfold Db.deleteByStatus at h
  split_ifs at h
  cases h
  exact deleteCards_claimless hi _

variable {c : Card}

/-- A new card has no runs. -/
theorem insertCard_claimless (hi : Inv db) (hnew : ∀ c' ∈ db.cards, c'.id ≠ c.id) (htoken : c.claimToken = none)
    (hcount : c.attemptCount = 0) : Claimless db { db with cards := db.cards ++ [c] } := by
  have hnone : db.runsOf c.id = [] := by
    rw [Db.runsOf, List.filter_eq_nil_iff]
    intro r hr he
    obtain ⟨c', hc', hid⟩ := hi.owned r hr
    exact hnew c' hc' (hid.trans (of_decide_eq_true he))
  refine ⟨⟨nodup_keys_snoc hi.ids hnew, ?_, ?_, hi.fresh⟩, ?_, rfl⟩
  · intro r hr
    obtain ⟨c', hc', he⟩ := hi.owned r hr
    exact ⟨c', List.mem_append_left _ hc', he⟩
  · intro c' hc'
    obtain hc' | hc' := List.mem_append.1 hc'
    · exact ⟨(hi.audited c' hc').running, (hi.audited c' hc').inProgress, (hi.audited c' hc').attempts⟩
    · obtain rfl := List.mem_singleton.1 hc'
      have hruns : ({ db with cards := db.cards ++ [c'] } : Db).runsOf c'.id = [] := hnone
      refine ⟨?_, ?_, ?_⟩
      · rw [hruns, htoken]
        rfl
      · rw [htoken]
        exact fun h => absurd h Bool.false_ne_true
      · rw [hruns, hcount]
        rfl
  · intro c' hc' t ht
    obtain hc' | hc' := List.mem_append.1 hc'
    · exact ⟨c', hc', rfl, ht⟩
    · rw [List.mem_singleton.1 hc', htoken] at ht
      cases ht

theorem addCard_claimless (hi : Inv db) {n : NewCard} {now : Int} (h : db.addCard o n now = some db') :
    Claimless db db' := by
  unfold Db.addCard at h
  split at h
  · cases h
  split at h
  · cases h
  split at h
  · cases h
  split at h
  · cases h
  split at h
  · cases h
  split at h
  · cases h
  split at h
  · cases h
  rename_i hnew
  have hinserted := insertCard_claimless (c := n.card o now) hi (by simpa [NewCard.card] using hnew) rfl rfl
  split at h
  · unfold Db.seedLocked at h
    dsimp only at h
    split at h
    · cases h
    cases h
    exact hinserted.congr rfl rfl rfl
  · cases h
    exact hinserted

/-! ## Receipts -/

variable {t : Token}

theorem heartbeatClaim_claimless (hi : Inv db) {id : String} {lease now : Int}
    (h : db.heartbeatClaim o id t lease now = some db') : Claimless db db' := by
  unfold Db.heartbeatClaim at h
  split at h
  · cases h
  split at h
  · cases h
  cases h
  exact updateCard_claimless hi fun c _ _ => ⟨rfl, rfl, rfl, fun _ => rfl⟩

theorem setWorkerRunId_claimless (hi : Inv db) {id : String} {worker : String}
    (h : db.setWorkerRunId o id t worker = some db') : Claimless db db' := by
  unfold Db.setWorkerRunId at h
  split at h
  · cases h
  split at h
  · cases h
  split at h
  · cases h
  rename_i card _ _
  have hreceipt := (updateCard_claimless (k := id) (f := fun c => { c with
    status := .inProgress, runId := some worker, revision := c.revision + if card.status = .inProgress then 0 else 1 })
    hi fun _ _ _ => ⟨rfl, rfl, rfl, fun _ => rfl⟩).updateRuns (p := fun r => r.cardId = id ∧ r.claimToken = t)
      (f := fun r => { r with workerRunId := some worker }) fun _ => ⟨rfl, rfl, rfl, rfl⟩
  dsimp only at h
  split at h
  · cases h
    unfold Db.appliedLocked
    split
    · exact hreceipt
    · exact hreceipt.commands _ _
  · cases h
    exact hreceipt

/-! ## The end of a claim -/

theorem finishLocked_tables (card : Card) (outcome : Outcome) (uncertain : Bool) :
    (db.finishLocked card outcome uncertain).1 =
      { db with commands := (db.finishLocked card outcome uncertain).1.commands } := by
  unfold Db.finishLocked
  dsimp only
  split <;> split
  · split <;> rfl
  · rfl
  · split <;> rfl
  · rfl

theorem finishInstruction_tables (card : Card) (outcome : Outcome) (uncertain : Bool) :
    (db.finishInstruction card outcome uncertain).1 =
      { db with commands := (db.finishInstruction card outcome uncertain).1.commands } := by
  unfold Db.finishInstruction
  split
  · exact finishLocked_tables card outcome uncertain
  · rfl

/-- A claim that ends, with the instruction of its card. -/
theorem finished_claimless (hi : Inv db) {card : Card} (hmem : card ∈ db.cards) (hown : card.claimToken = some t)
    {outcome : Outcome} {uncertain : Bool} {f : Card → Card} (hf : ∀ c, (f c).id = c.id ∧ (f c).attemptCount = c.attemptCount)
    {status : RunStatus} (hover : status ≠ .running) :
    Claimless db ((db.finishInstruction card outcome uncertain).1.release card.id t f status) := by
  rw [finishInstruction_tables]
  have hfinished := (Claimless.refl hi).commands (db.finishInstruction card outcome uncertain).1.commands db.nextSeq
  refine hfinished.trans (release_claimless hfinished.inv (fun c hc he => ?_) hf hover)
  rw [List.inj_on_of_nodup_map hi.ids hc hmem he]
  exact hown

theorem outcome_run_ne (outcome : Outcome) : outcome.run ≠ .running := by cases outcome <;> decide

theorem finishClaim_claimless (hi : Inv db) {id : String} {outcome : Outcome} {delay : Int}
    {uncertain : Bool} {now : Int} (h : db.finishClaim o id t outcome delay uncertain now = some db') :
    Claimless db db' := by
  unfold Db.finishClaim at h
  split at h
  · cases h
  rename_i card hget
  obtain ⟨hmem, rfl, -⟩ := getCard_some hi hget
  split at h
  · cases h
  rename_i hown
  cases h
  refine finished_claimless hi hmem (not_not.1 hown) ?_ (outcome_run_ne outcome)
  exact fun _ => ⟨rfl, rfl⟩

/-! ## Recovery -/

/-- A pass over rows read before it: each row's card is as it was when its turn comes. -/
theorem pass_claimless {pass : Db → Card → Db}
    (hpass : ∀ (db : Db) (c : Card), Inv db → c ∈ db.cards →
      Claimless db (pass db c) ∧ ∀ c' ∈ db.cards, c'.id ≠ c.id → c' ∈ (pass db c).cards) :
    ∀ {rows : List Card} {db : Db}, Inv db → (∀ c ∈ rows, c ∈ db.cards) → (rows.map (·.id)).Nodup →
      Claimless db (rows.foldl pass db) := by
  intro rows
  induction rows with
  | nil => intro db hi _ _; exact .refl hi
  | cons c rows ih =>
    intro db hi hrows hn
    obtain ⟨hnew, hn⟩ := List.nodup_cons.1 hn
    obtain ⟨hone, hothers⟩ := hpass db c hi (hrows c List.mem_cons_self)
    refine hone.trans (ih hone.inv (fun c' hc' => ?_) hn)
    exact hothers c' (hrows c' (List.mem_cons_of_mem _ hc')) fun he => hnew (List.mem_map.2 ⟨c', hc', he⟩)

/-- The other cards after an update of one. -/
theorem mem_updateCard {d : Db} {id : String} {f : Card → Card} (hc : c ∈ d.cards) (hne : c.id ≠ id) :
    c ∈ (d.updateCard id f).cards := List.mem_map.2 ⟨c, hc, if_neg hne⟩

theorem recoverExpired_claimless {now : Int} (hi : Inv db) (hc : c ∈ db.cards) :
    Claimless db (db.recoverExpired now c) ∧ ∀ c' ∈ db.cards, c'.id ≠ c.id → c' ∈ (db.recoverExpired now c).cards := by
  unfold Db.recoverExpired
  split
  · exact ⟨.refl hi, fun c' hc' _ => hc'⟩
  rename_i t hown
  split
  · exact ⟨updateCard_claimless hi fun _ _ _ => ⟨rfl, rfl, rfl, fun _ => rfl⟩, fun c' hc' hne => mem_updateCard hc' hne⟩
  · constructor
    · refine finished_claimless hi hc hown ?_ (by decide)
      exact fun _ => ⟨rfl, rfl⟩
    · intro c' hc' hne
      rw [finishInstruction_tables]
      exact mem_updateCard (d := { db with commands := _ }) hc' hne

theorem recoverExpiredClaims_claimless (hi : Inv db) (o : Owner) (now : Int) :
    Claimless db (db.recoverExpiredClaims o now) :=
  pass_claimless (fun _ _ hi hc => recoverExpired_claimless hi hc) hi (fun _ hc => List.mem_of_mem_filter hc)
    (hi.ids.sublist (List.filter_sublist.map _))

/-- What a restart does to a card is what the end of its claim does; a card without a
    claim only loses its run's id. -/
theorem resetOne_claimless (hi : Inv db) (hc : c ∈ db.cards) :
    Claimless db (db.resetOne c) ∧ ∀ c' ∈ db.cards, c'.id ≠ c.id → c' ∈ (db.resetOne c).cards := by
  unfold Db.resetOne
  split
  · rename_i hnone
    refine ⟨updateCard_claimless hi fun c' hc' he => ?_, fun c' hc' hne => mem_updateCard hc' hne⟩
    obtain rfl := List.inj_on_of_nodup_map hi.ids hc' hc he
    exact ⟨rfl, rfl, hnone.symm, fun hsome => by simp [hnone] at hsome⟩
  · rename_i t hown
    refine ⟨release_claimless hi (fun c' hc' he => ?_) ?_ (by decide), fun c' hc' hne => mem_updateCard hc' hne⟩
    · rw [List.inj_on_of_nodup_map hi.ids hc' hc he]
      exact hown
    · exact fun _ => ⟨rfl, rfl⟩

theorem resetOrphaned_claimless (hi : Inv db) (o : Owner) (live : List String) (now : Int) :
    Claimless db (db.resetOrphaned o live now) :=
  pass_claimless (fun _ _ hi hc => resetOne_claimless hi hc) hi (fun _ hc => List.mem_of_mem_filter hc)
    (hi.ids.sublist (List.filter_sublist.map _))

/-! ## Instructions given by voice -/

theorem enqueue_claimless (hi : Inv db) {conversation id commandId : String} {rev : Nat}
    (h : db.enqueue o conversation id commandId rev = some db') : Claimless db db' := by
  unfold Db.enqueue at h
  split at h
  · cases h
  split at h
  · cases h
  rename_i card hcard
  obtain ⟨-, -, hcard⟩ := getCard_some hi (Option.filter_eq_some_iff.1 hcard).1
  split at h
  · cases h
  split at h
  · cases h
  split at h
  · cases h
  split at h
  · cases h
  split at h
  · cases h
  split at h
  · cases h
  cases h
  have hqueued := (Claimless.refl hi).commands
    (db.commands ++ [{ seq := db.nextSeq, commandId, cardId := id, kind := .steer, status := .queued }]) (db.nextSeq + 1)
  refine hqueued.trans (updateCard_claimless hqueued.inv fun c hc he => ⟨rfl, rfl, rfl, fun hsome => ?_⟩)
  obtain rfl := hcard c hc he
  exact if_pos hsome

theorem advanceBoundary_claimless (hi : Inv db) {id completed : String}
    (h : db.advanceBoundary o id t completed = some db') : Claimless db db' := by
  unfold Db.advanceBoundary at h
  split at h
  · cases h
  split at h
  · cases h
  split at h
  · cases h
  split at h
  · cases h
  split at h
  · cases h
  dsimp only at h
  split at h <;> split at h
  all_goals
    cases h
    exact (Claimless.refl hi).commands _ _

/-- An orphaned instruction's card is not claimed. -/
theorem pendingReconciliations_free {first limit : Nat} {k : Candidate}
    (h : k ∈ db.pendingReconciliations o first limit) : ∃ c ∈ db.cards, c.id = k.cardId ∧ c.claimToken = none := by
  obtain ⟨q, -, hq⟩ := List.mem_flatMap.1 (List.mem_of_mem_take h)
  obtain ⟨c, hc, hk⟩ := List.mem_flatMap.1 hq
  obtain ⟨r, hr, rfl⟩ := List.mem_map.1 hk
  have hrow := (List.mem_filter.1 hr).2
  simp only [Db.orphaned, Bool.decide_and, Bool.and_eq_true, decide_eq_true_eq] at hrow
  exact ⟨c, hc, hrow.1, by tauto⟩

theorem settleReconciliation_claimless (hi : Inv db) {k : Candidate} {runId : String} {status : Verified}
    (h : db.settleReconciliation o k runId status = some db') : Claimless db db' := by
  unfold Db.settleReconciliation at h
  split at h
  · cases h
  split at h
  · cases h
  rename_i hfirst
  cases h
  obtain ⟨card, hmem, hid, hnone⟩ := pendingReconciliations_free (List.mem_of_mem_head? (not_not.1 hfirst))
  have hfree : ∀ c ∈ db.cards, c.id = k.cardId → c.claimToken = none := by
    intro c hc he
    rw [List.inj_on_of_nodup_map hi.ids hc hmem (he.trans hid.symm)]
    exact hnone
  refine Update.claimless (k := k.cardId)
    (f := fun c => { c with status := status.card, scheduledAt := none, revision := c.revision + 1 })
    (g := fun r => if r.cardId = k.cardId ∧ r.claimToken = k.claimToken ∧ r.attempt = k.attempt then
      { r with status := status.outcome.run, workerRunId := some k.runId } else r)
    ⟨rfl, ?_, rfl, fun r => ?_, fun r _ hother => ?_, fun c hc he => ⟨he, rfl, Or.inr ⟨hfree c hc he, ?_⟩⟩⟩ hi
  · simp [Db.updateRuns, Db.updateCard, Db.updateCommands]
  · split <;> exact ⟨rfl, rfl, rfl⟩
  · rw [if_neg fun h => hother h.1]
  · intro r _ hrun
    rw [hfree c hc he]
    split at hrun
    · exact absurd hrun (outcome_run_ne _)
    · exact ⟨hrun, fun h => by cases h⟩

theorem responseIntent_claimless (hi : Inv db) {conversation id commandId process : String} {rev : Nat}
    (h : db.responseIntent o conversation id commandId rev process = some db') : Claimless db db' := by
  unfold Db.responseIntent at h
  split at h
  · cases h
  split_ifs at h
  cases h
  have hrecorded := (Claimless.refl hi).commands
    (db.commands ++ [{ seq := db.nextSeq, commandId, cardId := id, kind := .respond, status := .delivering, responseOwner := process }])
    (db.nextSeq + 1)
  exact hrecorded.trans (updateCard_claimless hrecorded.inv fun c hc _ =>
    ⟨rfl, rfl, rfl, (hi.audited c hc).inProgress⟩)

theorem settleResponse_claimless (hi : Inv db) {commandId process : String} {status : Response}
    (h : db.settleResponse o commandId status process = some db') : Claimless db db' := by
  unfold Db.settleResponse at h
  split at h
  · cases h
  split_ifs at h
  cases h
  exact (Claimless.refl hi).commands _ _

/-- A card that is stopped here has no claim; another keeps its status. -/
theorem cancel_claimless (hi : Inv db) {conversation id commandId : String} {rev : Nat}
    (h : db.cancel o conversation id commandId rev = some db') : Claimless db db' := by
  unfold Db.cancel at h
  split at h
  · cases h
  rename_i card hcard
  obtain ⟨-, -, hcard⟩ := getCard_some hi (Option.filter_eq_some_iff.1 hcard).1
  split at h
  · cases h
  split at h
  · cases h
  split at h
  · cases h
  split at h
  · cases h
  cases h
  have hasked := (Claimless.refl hi).commands
  refine (hasked _ _).trans (updateCard_claimless (hasked _ _).inv fun c hc he => ⟨rfl, rfl, rfl, fun hsome => ?_⟩)
  obtain rfl := hcard c hc he
  have hclaimed : ¬(c.attemptCount = 0 ∧ c.claimToken = none) := fun h => by simp [h.2] at hsome
  rw [if_neg hclaimed]
  exact (hi.audited c hc).inProgress hsome

/-- A card whose stop is confirmed has no claim. -/
theorem settleStop_claimless (hi : Inv db) {commandId : String} {status : Stop} {worker : Option WorkerStatus}
    (h : db.settleStop o commandId status worker = some db') : Claimless db db' := by
  unfold Db.settleStop at h
  split at h
  · cases h
  split at h
  · cases h
  rename_i card hget
  obtain ⟨-, hid, hcard⟩ := getCard_some hi hget
  dsimp only at h
  split at h
  · cases h
  have hsettled := (Claimless.refl hi).commands
  split at h
  · cases h
    exact hsettled _ _
  rename_i hstopped
  have hfree : ¬card.claimToken.isSome := by
    intro hsome
    unfold Stop.of at hstopped
    split at hstopped
    · exact hstopped Stop.noConfusion
    · rename_i hnot
      exact hnot ⟨not_not.1 hstopped, hsome⟩
  split at h
  · cases h
  rename_i confirmed _
  cases h
  have hmoved := (hsettled db.commands db.nextSeq).trans (updateCard_claimless (k := card.id)
    (f := fun c => { c with status := confirmed.card, revision := c.revision + 1 }) (hsettled _ _).inv
    fun c hc he => ⟨rfl, rfl, rfl, fun hsome => absurd (hcard c hc (he.trans hid) ▸ hsome) hfree⟩)
  exact hmoved.commands _ _

/-! ## A claim -/

/-- The claim's run is its card's last. -/
theorem runsOf_openRun (card : Card) (worker runId : String) (lease now : Int) (id : String) :
    (db.openRun card worker runId lease now).runsOf id = db.runsOf id ++ if card.id = id then
      [{ id := runId, cardId := card.id, attempt := card.attemptCount + 1, profile := worker, claimToken := db.nextToken }]
    else [] := by
  simp only [Db.runsOf, Db.openRun, Db.updateCard, List.filter_append, List.filter_cons, List.filter_nil, decide_eq_true_eq]

theorem openRun_audited (hi : Inv db) {card : Card} (hmem : card ∈ db.cards) (hfree : card.claimToken = none)
    (worker runId : String) (lease now : Int) :
    ∀ c ∈ (db.openRun card worker runId lease now).cards, Audited (db.openRun card worker runId lease now) c := by
  intro c' hc'
  obtain ⟨c, hc, rfl⟩ := List.mem_map.1 hc'
  have hold := hi.audited c hc
  by_cases he : c.id = card.id
  · rw [if_pos he]
    obtain rfl := List.inj_on_of_nodup_map hi.ids hc hmem he
    refine ⟨?_, fun _ => rfl, ?_⟩
    · have hnone := hold.running
      rw [hfree] at hnone
      rw [runsOf_openRun, if_pos rfl, List.filter_append, List.map_append, hnone]
      simp
    · rw [runsOf_openRun, if_pos rfl, List.map_append, hold.attempts, List.range'_concat]
      simp [Nat.add_comm]
  · have hsame : (db.openRun card worker runId lease now).runsOf c.id = db.runsOf c.id := by
      rw [runsOf_openRun, if_neg (Ne.symm he), List.append_nil]
    rw [if_neg he]
    exact ⟨by rw [hsame]; exact hold.running, hold.inProgress, by rw [hsame]; exact hold.attempts⟩

theorem openRun_claim (hi : Inv db) {card : Card} (hmem : card ∈ db.cards) (hfree : card.claimToken = none)
    (hparents : db.blockedByParent card.id = false) (worker runId : String) (lease now : Int) :
    Claim db (db.openRun card worker runId lease now) card.id where
  inv :=
    { ids := by
        refine nodup_keys_map hi.ids fun c => ?_
        split <;> rfl
      owned := by
        intro r hr
        obtain hr | hr := List.mem_append.1 hr
        · obtain ⟨c, hc, he⟩ := hi.owned r hr
          refine ⟨_, List.mem_map_of_mem hc, ?_⟩
          split <;> exact he
        · rw [List.mem_singleton.1 hr]
          exact ⟨_, List.mem_map_of_mem hmem, by rw [if_pos rfl]⟩
      audited := openRun_audited hi hmem hfree worker runId lease now
      fresh := by
        intro r hr
        obtain hr | hr := List.mem_append.1 hr
        · exact Nat.lt_succ_of_lt (hi.fresh r hr)
        · rw [List.mem_singleton.1 hr]
          exact Nat.lt_succ_self _ }
  tokens := by
    intro c' hc' t ht
    obtain ⟨c, hc, rfl⟩ := List.mem_map.1 hc'
    by_cases he : c.id = card.id
    · rw [if_pos he] at ht ⊢
      exact Or.inr ⟨he, by injection ht with ht; exact ht.symm⟩
    · rw [if_neg he] at ht ⊢
      exact Or.inl ⟨c, hc, rfl, ht⟩
  nextToken := rfl
  free := by
    intro c hc he
    rw [List.inj_on_of_nodup_map hi.ids hc hmem he]
    exact hfree
  parents := hparents

theorem claimCard_claim (hi : Inv db) {id worker runId : String} {lease now : Int} {ignore : Bool}
    (h : db.claimCard o id worker lease ignore runId now = some db') : Claim db db' id := by
  unfold Db.claimCard at h
  split at h
  · cases h
  split at h
  · cases h
  rename_i card hget
  obtain ⟨hmem, rfl, -⟩ := getCard_some hi hget
  split at h
  · cases h
  rename_i hfree
  split at h
  · cases h
  split at h
  · cases h
  split at h
  · cases h
  rename_i hparents
  split at h
  · cases h
  split at h
  · cases h
  have hopened := openRun_claim hi hmem (by simpa using hfree) (by simpa using hparents) worker runId lease now
  dsimp only at h
  split at h
  · cases h
    exact hopened
  · cases h
    exact hopened.commands _ _

/-! ## Every operation -/

/-- An operation claims nothing, or is one claim. -/
theorem apply_claims (hi : Inv db) {e : Ev} (h : db.apply e = some db') : Claimless db db' ∨ ∃ id, Claim db db' id := by
  unfold Db.apply at h
  cases hop : e.op <;> rw [hop] at h
  case claimCard => exact Or.inr ⟨_, claimCard_claim hi h⟩
  all_goals left
  case addCard => exact addCard_claimless hi h
  case setStatus => exact setStatus_claimless hi h
  case setRunId => exact setRunId_claimless hi h
  case updateCard => exact updateCardFields_claimless hi h
  case addNote => exact addNote_claimless hi h
  case assignCard => exact assignCard_claimless hi h
  case unassignCard => exact unassignCard_claimless hi h
  case linkCards => exact linkCards_claimless hi h
  case deleteCard => exact deleteCard_claimless hi h
  case deleteByStatus => exact deleteByStatus_claimless hi h
  case heartbeatClaim => exact heartbeatClaim_claimless hi h
  case setWorkerRunId => exact setWorkerRunId_claimless hi h
  case finishClaim => exact finishClaim_claimless hi h
  case recoverExpiredClaims =>
    cases h
    exact recoverExpiredClaims_claimless hi _ _
  case resetOrphaned =>
    cases h
    exact resetOrphaned_claimless hi _ _ _
  case enqueue => exact enqueue_claimless hi h
  case advanceBoundary => exact advanceBoundary_claimless hi h
  case settleReconciliation => exact settleReconciliation_claimless hi h
  case responseIntent => exact responseIntent_claimless hi h
  case settleResponse => exact settleResponse_claimless hi h
  case cancel => exact cancel_claimless hi h
  case settleStop => exact settleStop_claimless hi h

theorem step_claims (hi : Inv db) (e : Ev) : Claimless db (db.step e) ∨ ∃ id, Claim db (db.step e) id := by
  unfold Db.step
  cases h : db.apply e with
  | none => exact Or.inl (.refl hi)
  | some db' => exact apply_claims hi h

/-! ## The tokens given out -/

/-- The token of the card, if the card did not have it in `db`. -/
def newTokens (db : Db) (c : Card) : List Token :=
  c.claimToken.toList.filter fun t => !db.cards.any fun c0 => c0.id = c.id ∧ c0.claimToken = some t

theorem mem_newTokens :
    t ∈ newTokens db c ↔ c.claimToken = some t ∧ ¬∃ c0 ∈ db.cards, c0.id = c.id ∧ c0.claimToken = some t := by
  simp [newTokens]

/-- The board, and the tokens its cards were ever given. -/
structure World where
  db : Db := {}
  granted : List Token := []

def World.step (w : World) (e : Ev) : World :=
  { db := w.db.step e, granted := w.granted ++ (w.db.step e).cards.flatMap (newTokens w.db) }

def World.run (es : List Ev) : World := es.foldl World.step {}

theorem Claimless.newTokens_nil (h : Claimless db db') : db'.cards.flatMap (newTokens db) = [] := by
  rw [List.flatMap_eq_nil_iff]
  intro c hc
  rw [List.eq_nil_iff_forall_not_mem]
  intro t ht
  obtain ⟨htoken, hnew⟩ := mem_newTokens.1 ht
  exact hnew (h.tokens c hc t htoken)

theorem Claim.eq_of_mem_newTokens {id : String} (h : Claim db db' id) (hc : c ∈ db'.cards)
    (ht : t ∈ newTokens db c) : c.id = id ∧ t = db.nextToken := by
  obtain ⟨htoken, hnew⟩ := mem_newTokens.1 ht
  exact (h.tokens c hc t htoken).resolve_left hnew

theorem Claim.newTokens_nodup {id : String} (h : Claim db db' id) : (db'.cards.flatMap (newTokens db)).Nodup := by
  rw [List.nodup_flatMap]
  constructor
  · intro c _
    refine List.Nodup.filter _ ?_
    cases c.claimToken <;> simp
  · refine (List.pairwise_map.1 h.inv.ids).imp_of_mem fun {c c'} hc hc' hne => ?_
    intro t ht ht'
    exact hne ((h.eq_of_mem_newTokens hc ht).1.trans (h.eq_of_mem_newTokens hc' ht').1.symm)

/-- The invariant of a run: the next token is none that was given out. -/
structure Watched (w : World) : Prop where
  inv : Inv w.db
  granted : w.granted.Nodup
  before : ∀ t ∈ w.granted, t < w.db.nextToken

theorem watched_step {w : World} (h : Watched w) (e : Ev) : Watched (w.step e) := by
  obtain hno | ⟨id, hclaim⟩ := step_claims h.inv e
  · have hsame : (w.step e).granted = w.granted := by rw [World.step, hno.newTokens_nil, List.append_nil]
    exact ⟨hno.inv, hsame ▸ h.granted, fun t ht => by
      rw [World.step, hno.nextToken]
      exact h.before t (hsame ▸ ht)⟩
  · have hnew : ∀ t ∈ (w.db.step e).cards.flatMap (newTokens w.db), t = w.db.nextToken := by
      intro t ht
      obtain ⟨c, hc, ht⟩ := List.mem_flatMap.1 ht
      exact (hclaim.eq_of_mem_newTokens hc ht).2
    refine ⟨hclaim.inv, List.nodup_append.2 ⟨h.granted, hclaim.newTokens_nodup, fun t ht t' ht' he => ?_⟩, fun t ht => ?_⟩
    · have hlt := h.before t ht
      rw [he, hnew t' ht'] at hlt
      exact Nat.lt_irrefl _ hlt
    · have hnext : (w.step e).db.nextToken = w.db.nextToken + 1 := hclaim.nextToken
      rw [hnext]
      obtain ht | ht := List.mem_append.1 ht
      · exact Nat.lt_succ_of_lt (h.before t ht)
      · rw [hnew t ht]
        exact Nat.lt_succ_self _

theorem watched_start : Watched {} where
  inv :=
    { ids := List.nodup_nil
      owned := List.forall_mem_nil _
      audited := List.forall_mem_nil _
      fresh := List.forall_mem_nil _ }
  granted := List.nodup_nil
  before := List.forall_mem_nil _

theorem watched_run (es : List Ev) : Watched (World.run es) :=
  Reach.invariant (P := Watched)
    watched_start (fun _ e h _ => watched_step h e) (Reach.free es _)

/-! ## Claims are exclusive and audited -/

def report : Op → Option (String × Token)
  | .heartbeatClaim c t _ | .setWorkerRunId c t _ | .finishClaim c t _ _ _ | .advanceBoundary c t _ => some (c, t)
  | _ => none

theorem getCard_ne {id : String} (hstale : ∀ c ∈ db.cards, c.id = id → c.claimToken ≠ some t)
    {card : Card} (h : db.getCard o id = some card) : card.claimToken ≠ some t := by
  obtain ⟨hfind, -⟩ := Option.filter_eq_some_iff.1 h
  exact hstale card (List.mem_of_find?_eq_some hfind) (by simpa using List.find?_some hfind)

/-- A report with another token than the card's is ignored. -/
theorem step_stale {e : Ev} {id : String} (h : report e.op = some (id, t))
    (hstale : ∀ c ∈ db.cards, c.id = id → c.claimToken ≠ some t) : db.step e = db := by
  have hrefused : db.apply e = none := by
    unfold Db.apply
    cases hop : e.op <;> rw [hop] at h <;> simp only [report, Option.some.injEq, Prod.mk.injEq, reduceCtorEq] at h
    all_goals obtain ⟨rfl, rfl⟩ := h
    all_goals dsimp only
    case heartbeatClaim =>
      unfold Db.heartbeatClaim
      split
      · rfl
      · rename_i hget
        rw [if_pos (getCard_ne hstale hget)]
    case setWorkerRunId =>
      unfold Db.setWorkerRunId
      split
      · rfl
      split
      · rfl
      · rename_i hget
        rw [if_pos (getCard_ne hstale hget)]
    case finishClaim =>
      unfold Db.finishClaim
      split
      · rfl
      · rename_i hget
        rw [if_pos (getCard_ne hstale hget)]
    case advanceBoundary =>
      unfold Db.advanceBoundary
      split
      · rfl
      · rename_i hget
        rw [if_pos (Or.inr (getCard_ne hstale hget))]
  rw [Db.step, hrefused]
  rfl

/-- What holds of the board and of the next operation, whatever it is. -/
structure Exclusive (w : World) : Prop where
  /-- A card has a token iff exactly one of its runs is running. -/
  claimed : ∀ c ∈ w.db.cards, c.claimToken.isSome ↔ ((w.db.runsOf c.id).filter (·.status = .running)).length = 1
  /-- That run has the card's token and is its last attempt. -/
  running : ∀ c ∈ w.db.cards, ∀ r ∈ w.db.runsOf c.id, r.status = .running →
    c.claimToken = some r.claimToken ∧ r.attempt = c.attemptCount
  inProgress : ∀ c ∈ w.db.cards, c.claimToken.isSome → c.status = .inProgress
  attempts : ∀ c ∈ w.db.cards, (w.db.runsOf c.id).map (·.attempt) = List.range' 1 c.attemptCount
  /-- No token is given out twice. -/
  granted : w.granted.Nodup
  /-- A card that gets a token has no linked parent that is not done. -/
  parents : ∀ e, ∀ c ∈ (w.db.step e).cards, newTokens w.db c ≠ [] →
    ∀ l ∈ w.db.links, l.childId = c.id → ∀ p ∈ w.db.cards, p.id = l.parentId → p.status = .done
  /-- A report with a token that is not the card's changes nothing. -/
  stale : ∀ e id t, report e.op = some (id, t) → (∀ c ∈ w.db.cards, c.id = id → c.claimToken ≠ some t) →
    w.db.step e = w.db

theorem parents_of_unblocked {id : String} (h : db.blockedByParent id = false) :
    ∀ l ∈ db.links, l.childId = id → ∀ p ∈ db.cards, p.id = l.parentId → p.status = .done := by
  intro l hl hchild p hp hparent
  by_contra hnot
  refine Bool.eq_false_iff.1 h (List.any_eq_true.2 ⟨l, hl, ?_⟩)
  simp only [decide_eq_true_eq]
  exact ⟨hchild, List.any_eq_true.2 ⟨p, hp, by simpa using ⟨hparent, hnot⟩⟩⟩

theorem claims_exclusive (es : List Ev) : Exclusive (World.run es) := by
  have hw := watched_run es
  refine ⟨fun c hc => ?_, fun c hc r hr hrun => ?_, ?_, ?_, hw.granted, fun e c hc hnew => ?_, ?_⟩
  · have hlength := congrArg List.length (hw.inv.audited c hc).running
    rw [List.length_map, List.length_map] at hlength
    rw [hlength]
    cases c.claimToken <;> simp
  · exact (hw.inv.audited c hc).token hr hrun
  · exact fun c hc => (hw.inv.audited c hc).inProgress
  · exact fun c hc => (hw.inv.audited c hc).attempts
  · obtain ⟨t, ht⟩ := List.exists_mem_of_ne_nil _ hnew
    obtain hno | ⟨id, hclaim⟩ := step_claims hw.inv e
    · obtain ⟨htoken, hnone⟩ := mem_newTokens.1 ht
      exact absurd (hno.tokens c hc t htoken) hnone
    · obtain ⟨rfl, -⟩ := hclaim.eq_of_mem_newTokens hc ht
      exact parents_of_unblocked hclaim.parents
  · exact fun e id t h hstale => step_stale h hstale

namespace Sample

/-- The lease of a worker runs out; another claims the card. -/
example : ((World.run [⟨.addCard { id := "a", status := .ready }, .host, 0⟩, ⟨.claimCard "a" "w" 15 false "r1", .host, 0⟩,
    ⟨.recoverExpiredClaims, .internal, 15⟩, ⟨.claimCard "a" "w" 15 false "r2", .host, 20⟩]).granted) = [0, 1] := by decide

end Sample

end Flowly.Board.Claims
