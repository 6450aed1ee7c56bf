/-
  Flowly.Board.Cancels — who ends a run (`cancel_card`, `stop_dispatcher` and the end of
  `_execute` in `flowly/board/orchestrator.py`).

  Proved: where no run is reserved for a card that a mark was left on, nor while a shutdown waits,
  a run ends as cancelled only if a cancel of its card came while it was reserved, and one whose
  worker a shutdown interrupts ends as failed with its card still there to retry
  (`cancelled_if_asked`). A mark is left where the cancel meets a run that is not at its worker:
  after a retry of the card, a shutdown is recorded as a cancel (`cancelled_by_shutdown`).
-/

import Flowly.Board.Orchestrator

namespace Flowly.Board.Orchestrator

open Flowly.Lib

/-! ## What cancels a card -/

def Cancelled (db : Db) (id : String) : Prop := ∃ c ∈ db.cards, c.id = id ∧ c.status = .cancelled

/-- Between the two tables no card came or went, and only some cards were cancelled. -/
def Frame (only : String → Prop) (db db' : Db) : Prop :=
  ∃ f : Card → Card, db'.cards = db.cards.map f ∧ ∀ c, (f c).id = c.id ∧ ((f c).status = .cancelled → only c.id ∨ c.status = .cancelled)

/-- None. -/
abbrev Calm : Db → Db → Prop := Frame fun _ => False

namespace Frame

variable {db db' db'' : Db} {only : String → Prop} {o : Owner} {k : String}

theorem refl (only : String → Prop) (db : Db) : Frame only db db :=
  ⟨id, (List.map_id _).symm, fun _ => ⟨rfl, .inr⟩⟩

theorem trans (h : Frame only db db') (h' : Frame only db' db'') : Frame only db db'' := by
  obtain ⟨f, hf, hc⟩ := h
  obtain ⟨f', hf', hc'⟩ := h'
  refine ⟨f' ∘ f, by rw [hf', hf, List.map_map], fun c => ⟨(hc' _).1.trans (hc c).1, fun hcan => ?_⟩⟩
  rcases (hc' _).2 hcan with hin | hcan
  · exact .inl ((hc c).1 ▸ hin)
  · exact (hc c).2 hcan

theorem mono {only' : String → Prop} (h : Frame only db db') (hsub : ∀ id, only id → only' id) : Frame only' db db' := by
  obtain ⟨f, hf, hc⟩ := h
  exact ⟨f, hf, fun c => ⟨(hc c).1, fun hcan => ((hc c).2 hcan).imp_left (hsub _)⟩⟩

theorem cancelled (h : Frame only db db') {id : String} (hc : Cancelled db' id) : only id ∨ Cancelled db id := by
  obtain ⟨f, hf, hid⟩ := h
  obtain ⟨c', hc', rfl, hcan⟩ := hc
  rw [hf] at hc'
  obtain ⟨c, hmem, rfl⟩ := List.mem_map.1 hc'
  rw [(hid c).1]
  exact ((hid c).2 hcan).imp_right fun hst => ⟨c, hmem, rfl, hst⟩

theorem ids (h : Frame only db db') : db'.cards.map (·.id) = db.cards.map (·.id) := by
  obtain ⟨f, hf, hid⟩ := h
  rw [hf, List.map_map]
  exact List.map_congr_left fun c _ => (hid c).1

/-- The tables of a call that may be refused. -/
theorem getD {db? : Option Db} (h : ∀ db', db? = some db' → Frame only db db') : Frame only db (db?.getD db) := by
  cases hdb : db? with
  | none => exact .refl only db
  | some db' => exact h db' hdb

/-- An update of a card, whatever becomes of the other tables. -/
theorem updateCard {f : Card → Card} (hcards : db'.cards = (db.updateCard k f).cards) (hid : ∀ c, (f c).id = c.id)
    (hst : ∀ c, (f c).status = .cancelled → only k ∨ c.status = .cancelled) : Frame only db db' := by
  refine ⟨fun c => if c.id = k then f c else c, hcards, fun c => ?_⟩
  dsimp only
  split_ifs with hk
  · exact ⟨hid c, fun hcan => hk ▸ hst c hcan⟩
  · exact ⟨rfl, .inr⟩

theorem setStatus {status : Status} {b b' : Bool} {rev : Option Nat} (hst : status = .cancelled → only k)
    (h : db.setStatus o k status b b' rev = some db') : Frame only db db' := by
  unfold Db.setStatus at h
  split at h
  · cases h
  · split at h
    · cases h
    · split at h
      · cases h
      · cases h
        exact updateCard rfl (fun _ => rfl) fun _ hcan => .inl (hst hcan)

theorem openRun (card : Card) (worker runId : String) (lease now : Int) : Calm db (db.openRun card worker runId lease now) :=
  updateCard rfl (fun _ => rfl) fun _ hcan => absurd hcan (show Status.inProgress ≠ .cancelled by decide)

theorem claimCard {worker runId : String} {lease now : Int} {ignore : Bool}
    (h : db.claimCard o k worker lease ignore runId now = some db') : Calm db db' := by
  have hopen (card : Card) : Calm db (db.openRun card worker runId lease now) := openRun card worker runId lease now
  unfold Db.claimCard at h
  split at h
  · cases h
  · split at h
    · cases h
    · split_ifs at h
      dsimp only at h
      split at h
      · cases h
        exact hopen _
      · cases h
        exact hopen _

theorem heartbeatClaim {t : Token} {lease now : Int} (h : db.heartbeatClaim o k t lease now = some db') : Calm db db' := by
  unfold Db.heartbeatClaim at h
  split at h
  · cases h
  · split at h
    · cases h
    · cases h
      exact updateCard rfl (fun _ => rfl) fun _ hcan => absurd hcan (show Status.inProgress ≠ .cancelled by decide)

theorem release {card : Card} {outcome : Outcome} {uncertain : Bool} {t : Token} {f : Card → Card} {status : RunStatus}
    (hid : ∀ c, (f c).id = c.id) (hst : ∀ c, (f c).status = .cancelled → only k ∨ c.status = .cancelled) :
    Frame only db ((db.finishInstruction card outcome uncertain).1.release k t f status) := by
  rw [Claims.finishInstruction_tables]
  exact updateCard rfl hid hst

theorem finishClaim {t : Token} {outcome : Outcome} {delay now : Int} {uncertain : Bool}
    (h : db.finishClaim o k t outcome delay uncertain now = some db') : Frame (· = k) db db' := by
  unfold Db.finishClaim at h
  split at h
  · cases h
  · split at h
    · cases h
    · cases h
      exact release (fun _ => rfl) fun _ _ => .inl rfl

theorem retryStatus_ne (card : Card) : retryStatus card ≠ .cancelled := by
  unfold retryStatus
  split_ifs <;> decide

theorem recoverExpired (now : Int) (db : Db) (card : Card) : Calm db (db.recoverExpired now card) := by
  unfold Db.recoverExpired
  split
  · exact .refl _ db
  · split
    · exact updateCard rfl (fun _ => rfl) fun _ hcan => absurd hcan (show Status.inProgress ≠ .cancelled by decide)
    · refine release (fun _ => rfl) fun _ hcan => absurd hcan ?_
      by_cases hvoice : card.executionMode = .voice
      · rw [if_pos hvoice]
        exact show Status.blocked ≠ .cancelled by decide
      · rw [if_neg hvoice]
        exact retryStatus_ne card

theorem recoverExpiredClaims (now : Int) : Calm db (db.recoverExpiredClaims o now) := by
  unfold Db.recoverExpiredClaims
  generalize db.cards.filter _ = lapsed
  induction lapsed generalizing db with
  | nil => exact .refl _ db
  | cons card lapsed ih => exact (recoverExpired now db card).trans ih

theorem cancel {conversation commandId : String} {rev : Nat} (h : db.cancel o conversation k commandId rev = some db') :
    Frame (· = k) db db' := by
  unfold Db.cancel at h
  split at h
  · cases h
  · split at h
    · cases h
    · split at h
      · cases h
      · split at h
        · cases h
        · split at h
          · cases h
          · cases h
            exact updateCard rfl (fun _ => rfl) fun _ _ => .inl rfl

theorem confirm (db : Db) (id : String) (o : Owner) : Frame (· = id) db (St.confirm db id o) := by
  unfold St.confirm
  split
  · exact .refl _ db
  · split_ifs
    · exact .refl _ db
    · exact .getD fun _ h => setStatus (fun _ => rfl) h

theorem confirmAll (db : Db) (r : Run) : Frame (· = r.card) db (St.confirmAll db r) := by
  unfold St.confirmAll
  generalize r.waiters = waiters
  induction waiters generalizing db with
  | nil => exact .refl _ db
  | cons o waiters ih => exact (confirm db r.card o).trans (ih _)

end Frame

/-! ## The invariant -/

/-- What is known of a run. -/
structure Sound (db : Db) (marks : List String) (r : Run) : Prop where
  listed : r.listed = true
  marked : r.phase.open_ = true → r.card ∈ marks → r.asked = true
  queued : r.phase = .waiting → Cancelled db r.card → r.asked = true
  decided : r.phase.outcome = some (.cancelled, false) → r.asked = true
  waited : r.waiters ≠ [] → r.asked = true

theorem Sound.of_asked {db : Db} {marks : List String} {r : Run} (h : r.asked = true) (hl : r.listed = true) : Sound db marks r :=
  ⟨hl, fun _ _ => h, fun _ _ => h, fun _ => h, fun _ => h⟩

theorem Sound.mono {db db' : Db} {marks marks' : List String} {r : Run} (h : Sound db marks r)
    (hdb : Cancelled db' r.card → Cancelled db r.card) (hmarks : r.card ∈ marks' → r.card ∈ marks) : Sound db' marks' r :=
  ⟨h.listed, fun ho hm => h.marked ho (hmarks hm), fun hp hc => h.queued hp (hdb hc), h.decided, h.waited⟩

def Awaits (s : St) : Prop :=
  match s.stopping with
  | .no => True
  | .dispatched awaited => ∀ r ∈ s.runs, r.manual = false → r.no ∈ awaited
  | .manual awaited => ∀ r ∈ s.runs, r.no ∈ awaited

structure Inv (s : St) : Prop where
  ids : (s.db.cards.map (·.id)).Nodup
  cards : (s.runs.map (·.card)).Nodup
  nos : (s.runs.map (·.no)).Nodup
  fresh : ∀ r ∈ s.runs, r.no < s.nextNo
  runs : ∀ r ∈ s.runs, Sound s.db s.marks r
  ended : ∀ r ∈ s.ended, r.phase.outcome = some (.cancelled, false) → r.asked = true
  awaits : Awaits s

namespace Inv

variable {s : St} {db' : Db} {marks' : List String} {r : Run}

theorem same_no (hi : Inv s) (hr : r ∈ s.runs) {r' : Run} (hr' : r' ∈ s.runs) (h : r'.no = r.no) : r' = r :=
  List.inj_on_of_nodup_map hi.nos hr' hr h

theorem same_card (hi : Inv s) (hr : r ∈ s.runs) {r' : Run} (hr' : r' ∈ s.runs) (h : r'.card = r.card) : r' = r :=
  List.inj_on_of_nodup_map hi.cards hr' hr h

/-- The runs of other cards do not notice what happens to one. -/
theorem others (hi : Inv s) (hr : r ∈ s.runs) (hdb : Frame (· = r.card) s.db db') (hmarks : ∀ id ∈ marks', id ∈ s.marks)
    {r' : Run} (hr' : r' ∈ s.runs) (hne : r'.no ≠ r.no) : Sound db' marks' r' := by
  refine (hi.runs r' hr').mono (fun hc => (hdb.cancelled hc).resolve_left fun he => hne ?_) (hmarks _)
  rw [hi.same_card hr hr' he]

/-- A run that goes on as one of the same card and kind. -/
theorem update (hi : Inv s) (hr : r ∈ s.runs) (f : Run → Run) (hdb : Frame (· = r.card) s.db db')
    (hmarks : ∀ id ∈ marks', id ∈ s.marks) (hf : (f r).no = r.no ∧ (f r).card = r.card ∧ (f r).manual = r.manual)
    (hs : Sound db' marks' (f r)) : Inv ({ s with db := db', marks := marks' }.update r.no f) := by
  have hsame {α : Type} (g : Run → α) (hg : g (f r) = g r) :
      (s.runs.map fun r' => if r'.no = r.no then f r' else r').map g = s.runs.map g := by
    rw [List.map_map]
    refine List.map_congr_left fun r' hr' => ?_
    show g (if r'.no = r.no then f r' else r') = g r'
    split_ifs with hno
    · rw [hi.same_no hr hr' hno, hg]
    · rfl
  have hmem {r'' : Run} (h'' : r'' ∈ s.runs.map fun r' => if r'.no = r.no then f r' else r') :
      r'' = f r ∨ r'' ∈ s.runs ∧ r''.no ≠ r.no := by
    obtain ⟨r', hr', rfl⟩ := List.mem_map.1 h''
    split_ifs with hno
    · exact .inl (by rw [hi.same_no hr hr' hno])
    · exact .inr ⟨hr', hno⟩
  constructor
  · exact hdb.ids ▸ hi.ids
  · exact (hsame (·.card) hf.2.1).symm ▸ hi.cards
  · exact (hsame (·.no) hf.1).symm ▸ hi.nos
  · intro r'' h''
    rcases hmem h'' with rfl | ⟨h'', -⟩
    · exact hf.1 ▸ hi.fresh r hr
    · exact hi.fresh r'' h''
  · intro r'' h''
    rcases hmem h'' with rfl | ⟨h'', hne⟩
    · exact hs
    · exact hi.others hr hdb hmarks h'' hne
  · exact hi.ended
  · have hawaits := hi.awaits
    unfold Awaits at hawaits ⊢
    show match s.stopping with
      | .no => True
      | .dispatched awaited => ∀ r'' ∈ s.runs.map fun r' => if r'.no = r.no then f r' else r', r''.manual = false → r''.no ∈ awaited
      | .manual awaited => ∀ r'' ∈ s.runs.map fun r' => if r'.no = r.no then f r' else r', r''.no ∈ awaited
    revert hawaits
    cases s.stopping with
    | no => exact id
    | dispatched awaited =>
      intro hawaits r'' h'' hkind
      rcases hmem h'' with rfl | ⟨h'', -⟩
      · exact hf.1 ▸ hawaits r hr (hf.2.2 ▸ hkind)
      · exact hawaits r'' h'' hkind
    | manual awaited =>
      intro hawaits r'' h''
      rcases hmem h'' with rfl | ⟨h'', -⟩
      · exact hf.1 ▸ hawaits r hr
      · exact hawaits r'' h''

/-- A run that is over; no other has its card. -/
theorem finish (hi : Inv s) (hr : r ∈ s.runs) (hmarks : ∀ id ∈ marks', id ∈ s.marks) :
    Inv ({ s with marks := marks' }.finish r) := by
  have hdb : Frame (· = r.card) s.db (if r.manual then St.confirmAll s.db r else s.db) := by
    split_ifs
    · exact .confirmAll s.db r
    · exact .refl _ s.db
  have hruns : ((s.runs.filter (·.no ≠ r.no)).map fun r' =>
      if r'.card = r.card ∧ r'.manual = r.manual then { r' with listed := false } else r') = s.runs.filter (·.no ≠ r.no) := by
    conv_rhs => rw [← List.map_id (s.runs.filter _)]
    refine List.map_congr_left fun r' hr' => ?_
    obtain ⟨hmem, hne⟩ := List.mem_filter.1 hr'
    rw [if_neg fun h => of_decide_eq_true hne (congrArg Run.no (hi.same_card hr hmem h.1)), id_eq]
  unfold St.finish
  dsimp only
  rw [hruns]
  have hmem {r' : Run} (h : r' ∈ s.runs.filter (·.no ≠ r.no)) : r' ∈ s.runs ∧ r'.no ≠ r.no := by
    obtain ⟨hmem, hne⟩ := List.mem_filter.1 h
    exact ⟨hmem, of_decide_eq_true hne⟩
  constructor
  · exact hdb.ids ▸ hi.ids
  · exact hi.cards.sublist (List.filter_sublist.map _)
  · exact hi.nos.sublist (List.filter_sublist.map _)
  · exact fun r' h => hi.fresh r' (hmem h).1
  · exact fun r' h => hi.others hr hdb hmarks (hmem h).1 (hmem h).2
  · intro r' h
    rcases List.mem_append.1 h with h | h
    · exact hi.ended r' h
    · obtain rfl := List.mem_singleton.1 h
      exact (hi.runs r' hr).decided
  · have hawaits := hi.awaits
    unfold Awaits at hawaits ⊢
    dsimp only at hawaits ⊢
    revert hawaits
    cases s.stopping with
    | no => exact id
    | dispatched | manual => exact fun h r' hr' => h r' (hmem hr').1

end Inv

/-! ## The steps keep it -/

theorem Sound.turn {db db' : Db} {marks marks' : List String} {r : Run} (h : Sound db marks r) {p : Phase}
    (hmarks : ∀ id ∈ marks', id ∈ marks) (hwait : p ≠ .waiting) (hopen : p.open_ = true → r.phase.open_ = true)
    (hdecided : p.outcome = some (.cancelled, false) → r.asked = true) : Sound db' marks' { r with phase := p } :=
  ⟨h.listed, fun ho hm => h.marked (hopen ho) (hmarks _ hm), fun hp => absurd hp hwait, hdecided, h.waited⟩

theorem cancelled_of_getCard {db : Db} {o : Owner} {id : String} {card : Card} (h : db.getCard o id = some card)
    (hst : card.status = .cancelled) : Cancelled db id := by
  obtain ⟨hfind, -⟩ := Option.filter_eq_some_iff.1 h
  exact ⟨card, List.mem_of_find?_eq_some hfind, by simpa using List.find?_some hfind, hst⟩

theorem not_cancelled {db : Db} (hids : (db.cards.map (·.id)).Nodup) {card : Card} (hmem : card ∈ db.cards)
    (hst : card.status ≠ .cancelled) : ¬ Cancelled db card.id := by
  rintro ⟨c, hc, hid, hcan⟩
  rw [List.inj_on_of_nodup_map hids hc hmem hid] at hcan
  exact hst hcan

namespace Inv

variable {s : St} {r : Run}

/-- What changes no run. -/
theorem calm (hi : Inv s) {db' : Db} (hdb : Calm s.db db') : Inv { s with db := db' } where
  ids := hdb.ids ▸ hi.ids
  cards := hi.cards
  nos := hi.nos
  fresh := hi.fresh
  runs r hr := (hi.runs r hr).mono (fun hc => (hdb.cancelled hc).resolve_left id) id
  ended := hi.ended
  awaits := hi.awaits

theorem enter (hi : Inv s) (hr : r ∈ s.runs) (hphase : r.phase = .waiting) : Inv (s.enter r) := by
  have hs := hi.runs r hr
  have hgo {p : Phase} (hwait : p ≠ .waiting) (hdecided : p.outcome = some (.cancelled, false) → r.asked = true) :
      Inv (s.update r.no fun r => { r with phase := p }) :=
    hi.update hr (fun r => { r with phase := p }) (.refl _ s.db) (fun _ => id) ⟨rfl, rfl, rfl⟩
      (hs.turn (fun _ => id) hwait (fun _ => by rw [hphase]; rfl) hdecided)
  unfold St.enter
  split
  · exact hgo nofun nofun
  · next card hcard =>
    split_ifs with hcan
    · exact hgo nofun fun _ => hs.queued hphase (cancelled_of_getCard hcard hcan)
    · exact hgo nofun nofun
    · exact hgo nofun nofun

theorem claim (hi : Inv s) (hr : r ∈ s.runs) {worker : String} (hphase : r.phase = .admitted worker) (runId : String) (now : Int) :
    Inv (s.claim r worker runId now) := by
  have hs := hi.runs r hr
  have hgo {db' : Db} (hdb : Calm s.db db') {p : Phase} (hwait : p ≠ .waiting) (hdecided : p.outcome ≠ some (.cancelled, false)) :
      Inv ({ s with db := db' }.update r.no fun r => { r with phase := p }) :=
    hi.update hr (fun r => { r with phase := p }) (hdb.mono fun _ h => h.elim) (fun _ => id) ⟨rfl, rfl, rfl⟩
      (hs.turn (fun _ => id) hwait (fun _ => by rw [hphase]; rfl) fun h => absurd h hdecided)
  unfold St.claim
  split_ifs
  · exact hi.finish hr fun _ => id
  · split
    · exact hgo (.refl _ s.db) (by decide) (by decide)
    · next db hclaim =>
      split
      · exact hi
      · exact hgo (.claimCard hclaim) nofun nofun

theorem settle (hi : Inv s) (hr : r ∈ s.runs) {claimed : Card} (hphase : r.phase = .working claimed) (how : Settled) (now : Int) :
    Inv (s.settle r claimed how now) := by
  have hs := hi.runs r hr
  unfold St.settle
  dsimp only
  refine hi.update hr _ ?_ (fun _ => id) ⟨rfl, rfl, rfl⟩ ?_
  · have hfinish : Frame (· = r.card) s.db ((s.db.finishClaim r.owner r.card (claimed.claimToken.getD 0)
        (how.outcome (s.marks.any (· = r.card)) (claimed.executionMode = .voice)) (how.retryDelay claimed.attemptCount)
        (how.uncertain (claimed.executionMode = .voice)) now).getD s.db) := .getD fun _ h => .finishClaim h
    split_ifs
    · exact hfinish
    · exact hfinish.trans (.confirmAll _ r)
  · refine ⟨hs.listed, nofun, nofun, fun hdecided => ?_, fun hwait => hs.waited fun hnone => hwait ?_⟩
    · obtain ⟨outcome, hsome, heq⟩ := Option.map_eq_some_iff.1 hdecided
      obtain ⟨rfl, hvoice⟩ := Prod.mk.inj heq
      obtain ⟨-, -, hcan⟩ := Option.map_eq_some_iff.1 hsome
      rw [hvoice] at hcan
      cases how with
      | done => cases hcan
      | cancelled =>
        have hmark : s.marks.any (· = r.card) = true := by
          by_contra hno
          rw [Bool.not_eq_true] at hno
          rw [hno] at hcan
          cases hcan
        refine hs.marked (by rw [hphase]; rfl) ?_
        simpa using hmark
      | raised aborted uncertain => cases hcan
    · show (if r.manual then r.waiters else []) = []
      rw [hnone]
      exact ite_self _

theorem close (hi : Inv s) (hr : r ∈ s.runs) {outcome : Option Outcome} {voice : Bool} (hphase : r.phase = .closing outcome voice) :
    Inv (s.close r outcome voice) := by
  have hs := hi.runs r hr
  have hmarks : ∀ id ∈ s.marks.filter (· ≠ r.card), id ∈ s.marks := fun _ => List.mem_of_mem_filter
  unfold St.close
  cases outcome with
  | none => exact hi.finish hr hmarks
  | some o =>
    refine hi.update hr _ (.refl _ s.db) hmarks ⟨rfl, rfl, rfl⟩ (hs.turn hmarks nofun nofun fun hdecided => hs.decided ?_)
    rw [hphase]
    exact hdecided

/-- One step of a run. -/
theorem step (hi : Inv s) (hr : r ∈ s.runs) (e : Ev) : Inv (s.step r e) := by
  unfold St.step
  split
  · split_ifs with h
    · exact hi.enter hr h.1
    · exact hi
  · split
    · next hphase =>
      split_ifs
      · exact hi
      · exact hi.claim hr hphase _ _
    · exact hi
  · split
    · next hphase => exact hi.settle hr hphase _ _
    · exact hi
  · split
    · next hphase =>
      split_ifs
      · exact hi
      · exact hi.close hr hphase
    · exact hi
  · split
    · exact hi.finish hr fun _ => id
    · exact hi
  · split_ifs
    · exact hi.finish hr fun _ => id
    · exact hi
  · split
    · exact hi.calm (.getD fun _ h => .heartbeatClaim h)
    · exact hi
  · exact hi

/-! ### Cancels -/

/-- The runs of a card are asked; it may be marked and cancelled. -/
theorem ask (hi : Inv s) {id : String} {db' : Db} {marks' : List String} (hdb : Frame (· = id) s.db db')
    (hmarks : ∀ k ∈ marks', k = id ∨ k ∈ s.marks) : Inv ({ s with db := db', marks := marks' }.ask id) := by
  have hsame {α : Type} (g : Run → α) (hg : ∀ r : Run, g { r with asked := true } = g r) :
      (s.runs.map fun r => if r.card = id then { r with asked := true } else r).map g = s.runs.map g := by
    rw [List.map_map]
    refine List.map_congr_left fun r _ => ?_
    show g (if r.card = id then { r with asked := true } else r) = g r
    split_ifs
    · exact hg r
    · rfl
  have hmem {r' : Run} (h : r' ∈ s.runs.map fun r => if r.card = id then { r with asked := true } else r) :
      ∃ r ∈ s.runs, r'.no = r.no ∧ r'.manual = r.manual ∧ Sound db' marks' r' := by
    obtain ⟨r, hr, rfl⟩ := List.mem_map.1 h
    split_ifs with hid
    · exact ⟨r, hr, rfl, rfl, .of_asked rfl (hi.runs r hr).listed⟩
    · exact ⟨r, hr, rfl, rfl, (hi.runs r hr).mono (fun hc => (hdb.cancelled hc).resolve_left hid)
        fun hm => (hmarks _ hm).resolve_left hid⟩
  constructor
  · exact hdb.ids ▸ hi.ids
  · exact (hsame (·.card) fun _ => rfl).symm ▸ hi.cards
  · exact (hsame (·.no) fun _ => rfl).symm ▸ hi.nos
  · intro r' h
    obtain ⟨r, hr, hno, -⟩ := hmem h
    exact hno ▸ hi.fresh r hr
  · intro r' h
    obtain ⟨r, -, -, -, hs⟩ := hmem h
    exact hs
  · exact hi.ended
  · have hawaits := hi.awaits
    unfold Awaits at hawaits ⊢
    unfold St.ask
    dsimp only
    revert hawaits
    cases s.stopping with
    | no => exact fun h => h
    | dispatched awaited =>
      intro hawaits r' h hkind
      obtain ⟨r, hr, hno, hman, -⟩ := hmem h
      exact hno ▸ hawaits r hr (hman ▸ hkind)
    | manual awaited =>
      intro hawaits r' h
      obtain ⟨r, hr, hno, -⟩ := hmem h
      exact hno ▸ hawaits r hr

theorem target_mem {id : String} (h : s.target id = some r) : r ∈ s.runs ∧ r.card = id := by
  unfold St.target at h
  rcases Option.or_eq_some_iff.1 h with h | ⟨-, h⟩
  · have hp := List.find?_some h
    simp only [decide_eq_true_eq] at hp
    exact ⟨List.mem_of_find?_eq_some h, hp.2.2⟩
  · have hp := List.find?_some h
    simp only [decide_eq_true_eq] at hp
    exact ⟨List.mem_of_find?_eq_some h, hp.2⟩

theorem cancel_same (r : Run) : r.cancel.no = r.no ∧ r.cancel.card = r.card ∧ r.cancel.manual = r.manual ∧
    r.cancel.listed = r.listed ∧ r.cancel.asked = r.asked ∧ r.cancel.phase = r.phase ∧ r.cancel.waiters = r.waiters := by
  unfold Run.cancel
  split_ifs <;> exact ⟨rfl, rfl, rfl, rfl, rfl, rfl, rfl⟩

theorem cancelCard (hi : Inv s) (o : Owner) (id commandId : String) (now : Int) : Inv (s.cancelCard o id commandId now) := by
  unfold St.cancelCard
  split
  · exact hi
  · next card hcard =>
    split
    · exact hi.ask (.getD fun _ h => .cancel h) fun _ => .inr
    · split
      · next r htarget =>
        obtain ⟨hr, hcardId⟩ := target_mem htarget
        have hasked : Inv ({ s with db := s.db, marks := id :: s.marks }.ask id) := hi.ask (.refl _ s.db) fun _ hk => List.mem_cons.1 hk
        have hr' : { r with asked := true } ∈ (s.ask id).runs :=
          List.mem_map.2 ⟨r, hr, if_pos hcardId⟩
        obtain ⟨hno, hc, hman, hlisted, hask, -⟩ := cancel_same { r with asked := true }
        refine hasked.update hr' (fun r => { r.cancel with waiters := r.waiters ++ [o] }) (.refl _ s.db) (fun _ h => h)
          ⟨hno, hc, hman⟩ (.of_asked hask ?_)
        exact hlisted.trans (hi.runs r hr).listed
      · split_ifs
        · exact hi.ask (.refl _ s.db) fun _ => .inr
        · refine hi.ask (.getD fun _ h => ?_) fun _ => .inr
          split at h
          · exact .finishClaim h
          · exact .setStatus (fun _ => rfl) h

end Inv

/-! ### Shutdown -/

namespace Inv

variable {s : St}

/-- The runs as they are but for their flags. -/
theorem mapRuns (hi : Inv s) (f : Run → Run) (stopping' : Stopping)
    (hf : ∀ r ∈ s.runs, (f r).no = r.no ∧ (f r).card = r.card ∧ Sound s.db s.marks (f r))
    (hawaits : Awaits { s with runs := s.runs.map f, stopping := stopping' }) :
    Inv { s with runs := s.runs.map f, stopping := stopping' } := by
  have hsame {α : Type} (g : Run → α) (hg : ∀ r ∈ s.runs, g (f r) = g r) : (s.runs.map f).map g = s.runs.map g := by
    rw [List.map_map]
    exact List.map_congr_left hg
  refine ⟨hi.ids, ?_, ?_, fun r' h => ?_, fun r' h => ?_, hi.ended, hawaits⟩
  · exact (hsame (·.card) fun r hr => (hf r hr).2.1).symm ▸ hi.cards
  · exact (hsame (·.no) fun r hr => (hf r hr).1).symm ▸ hi.nos
  · obtain ⟨r, hr, rfl⟩ := List.mem_map.1 h
    exact (hf r hr).1 ▸ hi.fresh r hr
  · obtain ⟨r, hr, rfl⟩ := List.mem_map.1 h
    exact (hf r hr).2.2

theorem sound_cancel {db : Db} {marks : List String} {r : Run} (h : Sound db marks r) : Sound db marks r.cancel := by
  obtain ⟨-, hcard, -, hlisted, hasked, hphase, hwaiters⟩ := cancel_same r
  constructor
  · exact hlisted.trans h.listed
  · rw [hphase, hcard, hasked]
    exact h.marked
  · rw [hphase, hcard, hasked]
    exact h.queued
  · rw [hphase, hasked]
    exact h.decided
  · rw [hwaiters, hasked]
    exact h.waited

theorem stop (hi : Inv s) : Inv s.stop := by
  unfold St.stop
  split
  · refine hi.mapRuns _ _ (fun r hr => ?_) ?_
    · split_ifs
      · exact ⟨(cancel_same r).1, (cancel_same r).2.1, sound_cancel (hi.runs r hr)⟩
      · exact ⟨rfl, rfl, hi.runs r hr⟩
    · intro r' h hkind
      obtain ⟨r, hr, rfl⟩ := List.mem_map.1 h
      have hman : (if (!r.manual && r.listed) = true then r.cancel else r).manual = r.manual := by
        split_ifs
        · exact (cancel_same r).2.2.1
        · rfl
      have hno : (if (!r.manual && r.listed) = true then r.cancel else r).no = r.no := by
        split_ifs
        · exact (cancel_same r).1
        · rfl
      rw [hno]
      refine List.mem_map_of_mem (List.mem_filter.2 ⟨hr, ?_⟩)
      rw [hman] at hkind
      rw [hkind, (hi.runs r hr).listed]
      rfl
  all_goals exact hi

theorem stopNext (hi : Inv s) : Inv s.stopNext := by
  have hawaits := hi.awaits
  unfold Awaits at hawaits
  unfold St.stopNext
  split
  · exact hi
  · next awaited hstop =>
    rw [hstop] at hawaits
    split
    · next hover =>
      have hkind : ∀ r ∈ s.runs, r.manual = true := by
        intro r hr
        by_contra hno
        exact of_decide_eq_true (List.all_eq_true.1 hover r hr) (hawaits r hr (Bool.not_eq_true _ ▸ hno))
      refine hi.mapRuns _ _ (fun r hr => ?_) fun r' h => ?_
      · rw [hkind r hr, (hi.runs r hr).listed]
        exact ⟨(cancel_same r).1, (cancel_same r).2.1, sound_cancel (hi.runs r hr)⟩
      · obtain ⟨r, hr, rfl⟩ := List.mem_map.1 h
        rw [hkind r hr, (hi.runs r hr).listed]
        show r.cancel.no ∈ _
        rw [(cancel_same r).1]
        refine List.mem_map_of_mem (List.mem_filter.2 ⟨hr, ?_⟩)
        rw [hkind r hr, (hi.runs r hr).listed]
        rfl
    · exact hi
  · next awaited hstop =>
    rw [hstop] at hawaits
    split
    · next hover =>
      have hnone : ∀ r ∈ s.runs, False := fun r hr => of_decide_eq_true (List.all_eq_true.1 hover r hr) (hawaits r hr)
      exact hi.mapRuns _ .no (fun r hr => (hnone r hr).elim) trivial
    · exact hi

/-! ### Reservations -/

theorem not_taken (hi : Inv s) {id : String} (h : s.taken id = false) : ∀ r ∈ s.runs, r.card ≠ id := by
  intro r hr he
  have hno := List.any_eq_false.1 h r hr
  rw [decide_eq_true_eq] at hno
  exact hno ⟨he, .inl (hi.runs r hr).listed⟩

/-- A new run, of a card that none has, that is not marked and not cancelled. -/
theorem reserve (hi : Inv s) {id : String} (manual : Bool) (o : Owner) (hnew : s.taken id = false) (hmark : id ∉ s.marks)
    (hstop : s.stopping = .no) (hcan : ¬ Cancelled s.db id) : Inv (s.reserve id manual o) := by
  have hfree := hi.not_taken hnew
  refine ⟨hi.ids, ?_, ?_, fun r h => ?_, fun r h => ?_, hi.ended, ?_⟩
  · unfold St.reserve
    dsimp only
    rw [List.map_append]
    refine List.nodup_append.2 ⟨hi.cards, List.nodup_singleton _, fun a ha b hb => ?_⟩
    obtain ⟨r, hr, rfl⟩ := List.mem_map.1 ha
    obtain rfl := List.mem_singleton.1 hb
    exact hfree r hr
  · unfold St.reserve
    dsimp only
    rw [List.map_append]
    refine List.nodup_append.2 ⟨hi.nos, List.nodup_singleton _, fun a ha b hb => ?_⟩
    obtain ⟨r, hr, rfl⟩ := List.mem_map.1 ha
    obtain rfl := List.mem_singleton.1 hb
    exact Nat.ne_of_lt (hi.fresh r hr)
  · rcases List.mem_append.1 h with h | h
    · exact Nat.lt_succ_of_lt (hi.fresh r h)
    · obtain rfl := List.mem_singleton.1 h
      exact Nat.lt_succ_self s.nextNo
  · rcases List.mem_append.1 h with h | h
    · exact hi.runs r h
    · obtain rfl := List.mem_singleton.1 h
      exact ⟨rfl, fun _ hm => absurd hm hmark, fun _ hc => absurd hc hcan, nofun, fun hw => absurd rfl hw⟩
  · unfold Awaits
    show match s.stopping with
      | .no => True
      | .dispatched _ => _
      | .manual _ => _
    rw [hstop]
    trivial

theorem startCard (hi : Inv s) (o : Owner) (id : String)
    (hgood : (s.validateRun o id).isSome = true → id ∉ s.marks ∧ s.stopping = .no) : Inv (s.startCard o id) := by
  unfold St.startCard
  split_ifs with hvalid
  · obtain ⟨hmark, hstop⟩ := hgood hvalid
    obtain ⟨card, hcard⟩ := Option.isSome_iff_exists.1 hvalid
    obtain ⟨hget, hok⟩ := Option.filter_eq_some_iff.1 hcard
    simp only [Bool.and_eq_true, Bool.not_eq_true', Bool.or_eq_false_iff, decide_eq_true_eq] at hok
    obtain ⟨⟨⟨-, hnew⟩, -⟩, hst⟩ := hok
    obtain ⟨hfind, -⟩ := Option.filter_eq_some_iff.1 hget
    have hid : card.id = id := by simpa using List.find?_some hfind
    refine hi.reserve true o hnew hmark hstop (hid ▸ not_cancelled hi.ids (List.mem_of_find?_eq_some hfind) ?_)
    rcases hst with h | h | h <;> rw [h] <;> decide
  · exact hi

theorem taken_reserve {id id' : String} {manual : Bool} {o : Owner} (h : (s.reserve id manual o).taken id' = false) :
    s.taken id' = false :=
  List.any_eq_false.2 fun r hr => List.any_eq_false.1 h r (List.mem_append_left _ hr)

/-- The dispatcher takes the cards up one after another. -/
theorem dispatch (cards : List Card) (o : Owner) (hi : Inv s) (hready : ∀ card ∈ cards, card ∈ s.db.cards ∧ card.status = .ready)
    (hgood : ∀ card ∈ cards, s.taken card.id = false → card.id ∉ s.marks ∧ s.stopping = .no) :
    Inv (cards.foldl (fun s card => if s.taken card.id then s else s.reserve card.id false o) s) := by
  induction cards generalizing s with
  | nil => exact hi
  | cons card cards ih =>
    rw [List.foldl_cons]
    have hrest := List.forall_mem_cons.1 hready
    split_ifs with htaken
    · exact ih hi hrest.2 (List.forall_mem_cons.1 hgood).2
    · have hnew := Bool.eq_false_iff.2 htaken
      obtain ⟨hmark, hstop⟩ := hgood card List.mem_cons_self hnew
      obtain ⟨⟨hmem, hst⟩, hrest⟩ := hrest
      have hcan : ¬ Cancelled s.db card.id := not_cancelled hi.ids hmem (by rw [hst]; decide)
      exact ih (hi.reserve false o hnew hmark hstop hcan) hrest fun card' h' hfree =>
        hgood card' (List.mem_cons_of_mem _ h') (taken_reserve hfree)

theorem dispatchOnce (hi : Inv s) (o : Owner) (now : Int)
    (hgood : ∀ card ∈ ({ s with db := s.db.recoverExpiredClaims o now }).candidates o now,
      s.taken card.id = false → card.id ∉ s.marks ∧ s.stopping = .no) : Inv (s.dispatchOnce o now) := by
  unfold St.dispatchOnce
  refine dispatch _ o (hi.calm (.recoverExpiredClaims now)) (fun card hcard => ?_) hgood
  unfold St.candidates at hcard
  dsimp only at hcard
  split_ifs at hcard
  · cases hcard
  · obtain ⟨hmem, hd⟩ := Dispatch.mem_listDispatchable hcard
    simp only [Dispatch.dispatchable, decide_eq_true_eq] at hd
    exact ⟨hmem, hd.1⟩

end Inv

/-! ## Runs of the board -/

/-- No card is reserved with a mark left on it, nor while a shutdown waits; and no card is moved to "cancelled". -/
def St.Good (s : St) : Ev → Prop
  | .startCard o id => (s.validateRun o id).isSome = true → id ∉ s.marks ∧ s.stopping = .no
  | .dispatchOnce o now => ∀ card ∈ ({ s with db := s.db.recoverExpiredClaims o now } : St).candidates o now,
      s.taken card.id = false → card.id ∉ s.marks ∧ s.stopping = .no
  | .move _ _ status _ _ _ => status ≠ .cancelled
  | _ => True

instance (s : St) (e : Ev) : Decidable (s.Good e) :=
  match e with
  | .startCard o id => inferInstanceAs (Decidable ((s.validateRun o id).isSome = true → id ∉ s.marks ∧ s.stopping = .no))
  | .dispatchOnce o now =>
    inferInstanceAs (Decidable (∀ card ∈ ({ s with db := s.db.recoverExpiredClaims o now } : St).candidates o now,
      s.taken card.id = false → card.id ∉ s.marks ∧ s.stopping = .no))
  | .move _ _ status _ _ _ => inferInstanceAs (Decidable (status ≠ .cancelled))
  | .enter _ | .claim _ _ _ | .settle _ _ _ | .close _ | .finish _ | .unwind _ | .heartbeat _ _ | .cancelCard _ _ _ _
  | .stop | .stopNext => isTrue trivial

theorem next_run {s : St} {e : Ev} {no : Nat} (h : e.run = some no) {r : Run} (hfind : s.runs.find? (·.no = no) = some r) :
    s.next e = s.step r e := by
  unfold St.next
  rw [h]
  dsimp only
  rw [hfind]

theorem Inv.call {s : St} (hi : Inv s) (e : Ev) (hgood : s.Good e) : Inv (s.call e) := by
  unfold St.call
  split
  · exact hi.startCard _ _ hgood
  · exact hi.dispatchOnce _ _ hgood
  · exact hi.cancelCard _ _ _ _
  · exact hi.stop
  · exact hi.stopNext
  · exact hi.calm (.getD fun _ h => .setStatus (fun hcan => absurd hcan hgood) h)
  · exact hi

theorem Inv.next {s : St} (hi : Inv s) (e : Ev) (hgood : s.Good e) : Inv (s.next e) := by
  unfold St.next
  split
  · exact hi.call e hgood
  · split
    · next r hfind => exact hi.step (List.mem_of_find?_eq_some hfind) e
    · exact hi

theorem Inv.start {db : Db} (hids : (db.cards.map (·.id)).Nodup) : Inv { db } where
  ids := hids
  cards := List.nodup_nil
  nos := List.nodup_nil
  fresh := List.forall_mem_nil _
  runs := List.forall_mem_nil _
  ended := List.forall_mem_nil _
  awaits := trivial

/-! ## After a shutdown -/

/-- The card is there, no run has it, and it has not come to an end. -/
def Retryable (db : Db) (o : Owner) (id : String) : Prop :=
  ∃ card, db.getCard o id = some card ∧ card.claimToken = none ∧ card.status.terminal = false

theorem getCard_updateCard {db : Db} {o : Owner} {id : String} {card : Card} {f : Card → Card} (h : db.getCard o id = some card)
    (hf : ∀ c, (f c).id = c.id ∧ o.sees (f c) = o.sees c) : (db.updateCard id f).getCard o id = some (f card) := by
  obtain ⟨hfind, hsees⟩ := Option.filter_eq_some_iff.1 h
  have hid : card.id = id := by simpa using List.find?_some hfind
  have hsame : ((fun c : Card => decide (c.id = id)) ∘ fun c => if c.id = id then f c else c) = fun c => decide (c.id = id) := by
    funext c
    show decide ((if c.id = id then f c else c).id = id) = decide (c.id = id)
    split_ifs
    · rw [(hf c).1]
    · rfl
  refine Option.filter_eq_some_iff.2 ⟨?_, (hf card).2.trans hsees⟩
  unfold Db.updateCard
  rw [List.find?_map, hsame, hfind, Option.map_some, if_pos hid]

theorem retryStatus_open (card : Card) : (retryStatus card).terminal = false := by
  unfold retryStatus
  split_ifs <;> rfl

/-- A claim that failed leaves its card to be retried. -/
theorem retryable_of_failed {db db' : Db} {o : Owner} {id : String} {t : Token} {delay now : Int} {uncertain : Bool}
    (h : db.finishClaim o id t .failed delay uncertain now = some db') : Retryable db' o id := by
  unfold Db.finishClaim at h
  split at h
  · cases h
  · next card hget =>
    split at h
    · cases h
    · cases h
      rw [Claims.finishInstruction_tables]
      refine ⟨_, getCard_updateCard hget fun c => ⟨rfl, ?_⟩, rfl, ?_⟩
      · unfold Owner.sees
        rfl
      · dsimp only
        split_ifs
        · rfl
        · rfl
        · exact retryStatus_open card

theorem updated {s : St} {no : Nat} {f : Run → Run} {r r' : Run} (hno : r.no = no) (hnos : (s.runs.map (·.no)).Nodup)
    (hr : r ∈ s.runs) (h : r' ∈ (s.update no f).runs) (hno' : r'.no = no) : r' = f r := by
  obtain ⟨r₀, hr₀, rfl⟩ := List.mem_map.1 h
  have hno₀ : r₀.no = no := by
    split_ifs at hno' with hif
    · exact hif
    · exact absurd hno' hif
  rw [if_pos hno₀, List.inj_on_of_nodup_map hnos hr₀ hr (hno₀.trans hno.symm)]

/-- A worker that a shutdown interrupts leaves a failure, and its card to be retried. -/
theorem Inv.interrupted {s : St} (hi : Inv s) {r : Run} (hr : r ∈ s.runs) {claimed : Card} (hphase : r.phase = .working claimed)
    (hasked : r.asked = false) {now : Int} {r' : Run} (hr' : r' ∈ (s.settle r claimed .cancelled now).runs) (hno : r'.no = r.no)
    {outcome : Outcome} {voice : Bool} (hend : r'.phase = .closing (some outcome) voice) :
    outcome = .failed ∧ Retryable (s.settle r claimed .cancelled now).db r.owner r.card := by
  have hs := hi.runs r hr
  have hunmarked : s.marks.any (· = r.card) = false := by
    refine List.any_eq_false.2 fun id hid => ?_
    rw [decide_eq_true_eq]
    rintro rfl
    exact absurd (hs.marked (by rw [hphase]; rfl) hid) (by rw [hasked]; decide)
  have halone : r.waiters = [] := by
    by_contra hw
    exact absurd (hs.waited hw) (by rw [hasked]; decide)
  have hdb (db : Db) : (if r.manual then db else St.confirmAll db r) = db := by
    unfold St.confirmAll
    rw [halone]
    exact ite_self _
  unfold St.settle at hr' ⊢
  simp only [hunmarked] at hr' ⊢
  have hsettled := updated (s := { s with db := _ }) rfl hi.nos hr hr' hno
  rw [hsettled] at hend
  obtain ⟨db', hfinish, hout⟩ := Option.map_eq_some_iff.1 (Phase.closing.inj hend).1
  refine ⟨hout.symm, ?_⟩
  show Retryable (if r.manual then _ else St.confirmAll _ r) r.owner r.card
  rw [hdb, hfinish]
  exact retryable_of_failed hfinish

/-- Where no card is reserved with a mark left on it, nor while a shutdown waits: a run that comes to "cancelled" was asked to
end, and one that a shutdown interrupts, and no one asked to end, comes to "failed", or to nothing before its claim, with its
card to be retried. -/
theorem cancelled_if_asked {db : Db} (hids : (db.cards.map (·.id)).Nodup) {s : St} (h : Reach St.next St.Good { db } s) :
    (∀ r ∈ s.runs ++ s.ended, r.phase.outcome = some (.cancelled, false) → r.asked = true) ∧
    (∀ r ∈ s.runs, ∀ claimed now, r.phase = .working claimed → r.asked = false →
      ∀ r' ∈ (s.next (.settle r.no .cancelled now)).runs, r'.no = r.no →
        ∀ outcome voice, r'.phase = .closing (some outcome) voice →
          outcome = .failed ∧ Retryable (s.next (.settle r.no .cancelled now)).db r.owner r.card) ∧
    (∀ r ∈ s.runs, r.phase.open_ = true → r.phase.isWorking = false → r.asked = false →
      (s.next (.unwind r.no)).db = s.db ∧ r.phase.outcome = none) := by
  have hi : Inv s := h.invariant (.start hids) fun s e hi hgood => hi.next e hgood
  have hfind {r : Run} (hr : r ∈ s.runs) : s.runs.find? (·.no = r.no) = some r := by
    cases hf : s.runs.find? (·.no = r.no) with
    | none => exact absurd (decide_eq_true rfl) (List.find?_eq_none.1 hf r hr)
    | some r' =>
      have hno : r'.no = r.no := by simpa using List.find?_some hf
      rw [hi.same_no hr (List.mem_of_find?_eq_some hf) hno]
  refine ⟨fun r hr hcan => ?_, fun r hr claimed now hphase hasked r' hr' hno outcome voice hend => ?_, fun r hr hopen hwork hasked => ?_⟩
  · rcases List.mem_append.1 hr with hr | hr
    · exact (hi.runs r hr).decided hcan
    · exact hi.ended r hr hcan
  · have hstep : s.next (.settle r.no .cancelled now) = s.settle r claimed .cancelled now := by
      rw [next_run rfl (hfind hr)]
      unfold St.step
      dsimp only
      rw [hphase]
    rw [hstep] at hr' ⊢
    exact hi.interrupted hr hphase hasked hr' hno hend
  · have halone : r.waiters = [] := by
      by_contra hw
      exact absurd ((hi.runs r hr).waited hw) (by rw [hasked]; decide)
    constructor
    · rw [next_run rfl (hfind hr)]
      unfold St.step
      dsimp only
      split
      · unfold St.finish St.confirmAll
        dsimp only
        rw [halone]
        exact ite_self _
      · rfl
    · cases hphase : r.phase with
      | closing | tail => rw [hphase] at hopen; cases hopen
      | waiting => rfl
      | admitted worker => rfl
      | working claimed => rfl

namespace Sample

def board : Db := { cards := [{ id := "c", status := .todo }] }

def cancelledAtWork : List Ev :=
  [.startCard .internal "c", .enter 0, .claim 0 "run" 0, .cancelCard .internal "c" "k" 1, .settle 0 .cancelled 1, .close 0,
    .finish 0]

theorem cancelled_if_asked_once : (cancelledAtWork.foldl St.next { db := board }).ended.length = 1 ∧
    ∀ r ∈ (cancelledAtWork.foldl St.next { db := board }).ended, r.phase.outcome = some (.cancelled, false) → r.asked = true := by
  have hreach : Reach St.next St.Good { db := board } (cancelledAtWork.foldl St.next { db := board }) :=
    Reach.foldl cancelledAtWork _ .start (by decide +kernel)
  refine ⟨by decide +kernel, fun r hr => ?_⟩
  refine (cancelled_if_asked (by decide) hreach).1 r ?_
  exact List.mem_append_right _ hr

/-- The card is cancelled while its run waits, set back, and run again until a shutdown. -/
def cancelledThenStopped : List Ev :=
  [.startCard .internal "c", .cancelCard .internal "c" "k" 0, .unwind 0, .move .internal "c" .todo true true none,
    .startCard .internal "c", .enter 1, .claim 1 "run" 1, .stop, .stopNext, .settle 1 .cancelled 2, .close 1, .finish 1]

/-- The shutdown is recorded as a cancel, which no one asked for. -/
theorem cancelled_by_shutdown :
    ¬ ∀ r ∈ (cancelledThenStopped.foldl St.next { db := board }).ended, r.phase.outcome = some (.cancelled, false) → r.asked = true := by
  decide +kernel

end Sample

end Flowly.Board.Orchestrator
