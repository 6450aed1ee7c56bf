/-
  Flowly.Board.Audit — what the runs of a card tell of its claims (`flowly/board/store.py`).

  A claim opens a run of the card and gives out a token; its end takes the token back and
  closes the run in the same transaction. So what runs of a card is what its token says,
  and its runs are its attempts, in order (`Audited`). An update of a card that keeps this
  is one of two: it leaves the token and what runs alone, or it takes the token back and
  leaves nothing running (`Update`).
-/

import Flowly.Board.Store
import Flowly.Lib.Keyed

namespace Flowly.Board.Claims

open Flowly.Lib Flowly.Lib.Keyed

/-- The runs of a card tell of its claim. -/
structure Audited (db : Db) (c : Card) : Prop where
  /-- What runs is the claim's run, of the last attempt. -/
  running : ((db.runsOf c.id).filter (·.status = .running)).map (fun r => (r.claimToken, r.attempt)) =
    c.claimToken.toList.map (·, c.attemptCount)
  inProgress : c.claimToken.isSome → c.status = .inProgress
  attempts : (db.runsOf c.id).map (·.attempt) = List.range' 1 c.attemptCount

structure Inv (db : Db) : Prop where
  ids : (db.cards.map (·.id)).Nodup
  /-- A run goes with its card. -/
  owned : ∀ r ∈ db.runs, ∃ c ∈ db.cards, c.id = r.cardId
  audited : ∀ c ∈ db.cards, Audited db c
  fresh : ∀ r ∈ db.runs, r.claimToken < db.nextToken

def TokensFrom (db db' : Db) : Prop :=
  ∀ c' ∈ db'.cards, ∀ t, c'.claimToken = some t → ∃ c ∈ db.cards, c.id = c'.id ∧ c.claimToken = some t

structure Claimless (db db' : Db) : Prop where
  inv : Inv db'
  tokens : TokensFrom db db'
  nextToken : db'.nextToken = db.nextToken

variable {db db' : Db}

theorem Claimless.refl (h : Inv db) : Claimless db db := ⟨h, fun c hc _ ht => ⟨c, hc, rfl, ht⟩, rfl⟩

theorem Claimless.trans {db'' : Db} (h : Claimless db db') (h' : Claimless db' db'') : Claimless db db'' where
  inv := h'.inv
  tokens c hc t ht := by
    obtain ⟨c', hc', hid', ht'⟩ := h'.tokens c hc t ht
    obtain ⟨c0, hc0, hid0, ht0⟩ := h.tokens c' hc' t ht'
    exact ⟨c0, hc0, hid0.trans hid', ht0⟩
  nextToken := h'.nextToken.trans h.nextToken

/-! ## Updates of one card -/

/-- The runs after an update, card by card. -/
theorem runsOf_map {g : CardRun → CardRun} (hruns : db'.runs = db.runs.map g) (hg : ∀ r, (g r).cardId = r.cardId)
    (id : String) : db'.runsOf id = (db.runsOf id).map g := by
  rw [Db.runsOf, hruns, List.filter_map, Db.runsOf]
  simp only [Function.comp_def, hg]

/-- What the update of a card and of runs may do: the card keeps its attempts, and what
    runs of it after is what its token says. -/
structure Update (db db' : Db) (id : String) (f : Card → Card) (g : CardRun → CardRun) : Prop where
  cards : db'.cards = db.cards.map fun c => if c.id = id then f c else c
  runs : db'.runs = db.runs.map g
  nextToken : db'.nextToken = db.nextToken
  same : ∀ r, (g r).cardId = r.cardId ∧ (g r).attempt = r.attempt ∧ (g r).claimToken = r.claimToken
  /-- The runs of other cards go on. -/
  others : ∀ r ∈ db.runs, r.cardId ≠ id → ((g r).status = .running ↔ r.status = .running)
  card : ∀ c ∈ db.cards, c.id = id → (f c).id = id ∧ (f c).attemptCount = c.attemptCount ∧
    ((f c).claimToken = c.claimToken ∧ (c.claimToken.isSome → (f c).status = .inProgress) ∧
        (∀ r ∈ db.runsOf id, (g r).status = .running ↔ r.status = .running) ∨
      (f c).claimToken = none ∧ ∀ r ∈ db.runsOf id, (g r).status = .running →
        r.status = .running ∧ some r.claimToken ≠ c.claimToken)

theorem running_map {g : CardRun → CardRun} (hg : ∀ r, (g r).attempt = r.attempt ∧ (g r).claimToken = r.claimToken)
    {rs : List CardRun} (h : ∀ r ∈ rs, (g r).status = .running ↔ r.status = .running) :
    ((rs.map g).filter (·.status = .running)).map (fun r => (r.claimToken, r.attempt)) =
      (rs.filter (·.status = .running)).map (fun r => (r.claimToken, r.attempt)) := by
  induction rs with
  | nil => rfl
  | cons r rs ih =>
    have ih := ih fun r' hr' => h r' (List.mem_cons_of_mem _ hr')
    have hr := h r List.mem_cons_self
    by_cases hrun : r.status = .running
    · simp only [List.map_cons, List.filter_cons, hr.2 hrun, hrun, decide_true, if_true, ih, hg r]
    · simp only [List.map_cons, List.filter_cons, mt hr.1 hrun, hrun, decide_false, Bool.false_eq_true, if_false, ih]

/-- What runs of a card has its token. -/
theorem Audited.token {c : Card} (h : Audited db c) {r : CardRun} (hr : r ∈ db.runsOf c.id) (hrun : r.status = .running) :
    c.claimToken = some r.claimToken ∧ r.attempt = c.attemptCount := by
  have hmem : (r.claimToken, r.attempt) ∈ c.claimToken.toList.map (·, c.attemptCount) := by
    rw [← h.running]
    exact List.mem_map.2 ⟨r, List.mem_filter.2 ⟨hr, by simpa using hrun⟩, rfl⟩
  obtain ⟨t, ht, he⟩ := List.mem_map.1 hmem
  obtain ⟨rfl, hn⟩ := Prod.mk.inj he
  exact ⟨by simpa using ht, hn.symm⟩

theorem Update.claimless {k : String} {f : Card → Card} {g : CardRun → CardRun} (h : Update db db' k f g) (hi : Inv db) :
    Claimless db db' := by
  have hid : ∀ c ∈ db.cards, (if c.id = k then f c else c).id = c.id := by
    intro c hc
    split
    · rename_i he
      exact (h.card c hc he).1.trans he.symm
    · rfl
  have hruns (i : String) : db'.runsOf i = (db.runsOf i).map g := runsOf_map h.runs (fun r => (h.same r).1) i
  refine ⟨⟨?_, ?_, ?_, ?_⟩, ?_, h.nextToken⟩
  · rw [h.cards, List.map_map]
    have hsame : db.cards.map ((·.id) ∘ fun c => if c.id = k then f c else c) = db.cards.map (·.id) :=
      List.map_congr_left hid
    rw [hsame]
    exact hi.ids
  · intro r hr
    rw [h.runs] at hr
    obtain ⟨r0, hr0, rfl⟩ := List.mem_map.1 hr
    obtain ⟨c, hc, he⟩ := hi.owned r0 hr0
    refine ⟨_, h.cards ▸ List.mem_map_of_mem hc, ?_⟩
    rw [hid c hc, he, (h.same r0).1]
  · intro c' hc'
    rw [h.cards] at hc'
    obtain ⟨c, hc, rfl⟩ := List.mem_map.1 hc'
    have hold := hi.audited c hc
    by_cases he : c.id = k
    · rw [if_pos he]
      obtain ⟨hfid, hcount, ⟨htoken, hstatus, hkeep⟩ | ⟨htoken, hclosed⟩⟩ := h.card c hc he
      · refine ⟨?_, ?_, ?_⟩
        · rw [hruns, hfid, running_map (fun r => (h.same r).2) hkeep, htoken, hcount, ← he]
          exact hold.running
        · rw [htoken]
          exact hstatus
        · rw [hruns, hfid, List.map_map, hcount, ← hold.attempts, he]
          exact List.map_congr_left fun r _ => (h.same r).2.1
      · refine ⟨?_, ?_, ?_⟩
        · have hnone : ((db.runsOf k).map g).filter (·.status = .running) = [] := by
            rw [List.filter_eq_nil_iff]
            intro r' hr'
            obtain ⟨r, hr, rfl⟩ := List.mem_map.1 hr'
            simp only [decide_eq_true_eq]
            intro hrun
            obtain ⟨hbefore, hother⟩ := hclosed r hr hrun
            exact hother (hold.token (he ▸ hr) hbefore).1.symm
          rw [hruns, hfid, hnone, htoken]
          rfl
        · rw [htoken]
          exact fun hsome => absurd hsome Bool.false_ne_true
        · rw [hruns, hfid, List.map_map, hcount, ← hold.attempts, he]
          exact List.map_congr_left fun r _ => (h.same r).2.1
    · rw [if_neg he]
      refine ⟨?_, hold.inProgress, ?_⟩
      · rw [hruns, running_map (fun r => (h.same r).2) fun r hr => ?_]
        · exact hold.running
        · obtain ⟨hmem, hcard⟩ := List.mem_filter.1 hr
          exact h.others r hmem (by simpa [of_decide_eq_true hcard] using he)
      · rw [hruns, List.map_map, ← hold.attempts]
        exact List.map_congr_left fun r _ => (h.same r).2.1
  · intro r hr
    rw [h.runs] at hr
    obtain ⟨r0, hr0, rfl⟩ := List.mem_map.1 hr
    rw [(h.same r0).2.2, h.nextToken]
    exact hi.fresh r0 hr0
  · intro c' hc' t ht
    rw [h.cards] at hc'
    obtain ⟨c, hc, rfl⟩ := List.mem_map.1 hc'
    refine ⟨c, hc, (hid c hc).symm, ?_⟩
    by_cases he : c.id = k
    · rw [if_pos he] at ht
      obtain ⟨-, -, ⟨htoken, -⟩ | ⟨htoken, -⟩⟩ := h.card c hc he
      · exact htoken ▸ ht
      · rw [htoken] at ht
        cases ht
    · rwa [if_neg he] at ht

/-! ## Kinds of updates -/

theorem Claimless.congr (h : Claimless db db') {db'' : Db} (hcards : db''.cards = db'.cards) (hruns : db''.runs = db'.runs)
    (htoken : db''.nextToken = db'.nextToken) : Claimless db db'' where
  inv :=
    { ids := hcards ▸ h.inv.ids
      owned := by rw [hcards, hruns]; exact h.inv.owned
      audited := fun c hc => by
        have hrunsOf : db''.runsOf c.id = db'.runsOf c.id := by rw [Db.runsOf, Db.runsOf, hruns]
        have ha := h.inv.audited c (hcards ▸ hc)
        exact ⟨hrunsOf ▸ ha.running, ha.inProgress, hrunsOf ▸ ha.attempts⟩
      fresh := by rw [hruns, htoken]; exact h.inv.fresh }
  tokens := by rw [TokensFrom, hcards]; exact h.tokens
  nextToken := htoken.trans h.nextToken

theorem getCard_some (hi : Inv db) {o : Owner} {id : String} {card : Card} (h : db.getCard o id = some card) :
    card ∈ db.cards ∧ card.id = id ∧ ∀ c ∈ db.cards, c.id = id → c = card := by
  obtain ⟨hfind, -⟩ := Option.filter_eq_some_iff.1 h
  have hmem := List.mem_of_find?_eq_some hfind
  have hid : card.id = id := by simpa using List.find?_some hfind
  exact ⟨hmem, hid, fun c hc he => List.inj_on_of_nodup_map hi.ids hc hmem (he.trans hid.symm)⟩

/-- An update of a card that leaves its claim alone. -/
theorem updateCard_claimless (hi : Inv db) {k : String} {f : Card → Card} (hf : ∀ c ∈ db.cards, c.id = k →
      (f c).id = c.id ∧ (f c).attemptCount = c.attemptCount ∧ (f c).claimToken = c.claimToken ∧
        (c.claimToken.isSome → (f c).status = .inProgress)) : Claimless db (db.updateCard k f) := by
  refine Update.claimless (g := fun r => r) ⟨rfl, (List.map_id _).symm, rfl, fun _ => ⟨rfl, rfl, rfl⟩, fun _ _ _ => Iff.rfl,
    fun c hc he => ?_⟩ hi
  obtain ⟨hid, hcount, htoken, hstatus⟩ := hf c hc he
  exact ⟨hid.trans he, hcount, Or.inl ⟨htoken, hstatus, fun _ _ => Iff.rfl⟩⟩

theorem Claimless.commands (h : Claimless db db') (qs : List Command) (n : Nat) :
    Claimless db { db' with commands := qs, nextSeq := n } := h.congr rfl rfl rfl

/-- An update of runs that says nothing of who runs. -/
theorem Claimless.updateRuns (h : Claimless db db') {p : CardRun → Bool} {f : CardRun → CardRun}
    (hf : ∀ r, (f r).cardId = r.cardId ∧ (f r).attempt = r.attempt ∧ (f r).claimToken = r.claimToken ∧
      (f r).status = r.status) : Claimless db (db'.updateRuns p f) := by
  refine h.trans (Update.claimless (k := "") (f := fun c => c) (g := fun r => if p r then f r else r)
    ⟨?_, rfl, rfl, fun r => ?_, fun r _ _ => ?_, fun c hc he => ⟨he, rfl, Or.inl ⟨rfl, ?_, fun r _ => ?_⟩⟩⟩ h.inv)
  · simp [Db.updateRuns]
  · split
    · exact ⟨(hf r).1, (hf r).2.1, (hf r).2.2.1⟩
    · exact ⟨rfl, rfl, rfl⟩
  · split
    · rw [(hf r).2.2.2]
    · rfl
  · exact (h.inv.audited c hc).inProgress
  · split
    · rw [(hf r).2.2.2]
    · rfl

theorem release_claimless (hi : Inv db) {id : String} {t : Token} {f : Card → Card} {status : RunStatus}
    (htoken : ∀ c ∈ db.cards, c.id = id → c.claimToken = some t) (hf : ∀ c, (f c).id = c.id ∧ (f c).attemptCount = c.attemptCount)
    (hover : status ≠ .running) : Claimless db (db.release id t f status) := by
  refine Update.claimless (k := id)
    (f := fun c => { f c with
      runId := none, claimToken := none, leaseExpiresAt := none, heartbeatAt := none, revision := c.revision + 1 })
    (g := fun r => if r.cardId = id ∧ r.claimToken = t then { r with status } else r)
    ⟨rfl, ?_, rfl, fun r => ?_, fun r _ hother => ?_, fun c hc he => ⟨(hf c).1.trans he, (hf c).2, Or.inr ⟨rfl, ?_⟩⟩⟩ hi
  · simp [Db.release, Db.updateRuns, Db.updateCard]
  · split <;> exact ⟨rfl, rfl, rfl⟩
  · rw [if_neg fun h => hother h.1]
  · intro r hr hrun
    have hcard : r.cardId = id := of_decide_eq_true (List.mem_filter.1 hr).2
    rw [htoken c hc he]
    split at hrun
    · exact absurd hrun hover
    · rename_i hmine
      exact ⟨hrun, fun he => hmine ⟨hcard, by injection he⟩⟩

/-- What a claim does: a card without a claim, whose linked parents are done, gets a
    new token and a new attempt. -/
structure Claim (db db' : Db) (id : String) : Prop where
  inv : Inv db'
  tokens : ∀ c' ∈ db'.cards, ∀ t, c'.claimToken = some t →
    (∃ c ∈ db.cards, c.id = c'.id ∧ c.claimToken = some t) ∨ c'.id = id ∧ t = db.nextToken
  nextToken : db'.nextToken = db.nextToken + 1
  free : ∀ c ∈ db.cards, c.id = id → c.claimToken = none
  parents : db.blockedByParent id = false

theorem Claim.commands {id : String} (h : Claim db db' id) (qs : List Command) (n : Nat) :
    Claim db { db' with commands := qs, nextSeq := n } id where
  inv := ((Claimless.refl h.inv).commands qs n).inv
  tokens := h.tokens
  nextToken := h.nextToken
  free := h.free
  parents := h.parents

end Flowly.Board.Claims
