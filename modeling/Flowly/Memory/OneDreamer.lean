/-
  Flowly.Memory.OneDreamer — one pass at a time, and no message left out.

  Proved (`one_dreamer`), over every run in which the clock does not go back and no other pass
  has come between what a pass reads or writes in the metadata and its own next write of it: of
  two passes that have the lock one is past the stale limit, a release takes away no lock of
  another pass, and the watermark does not go back. That the messages up to the watermark were
  in deltas with all their candidates committed is true of every run (`covered_always`).

  Two passes that read a free lock both take it (`two_dreamers`).
-/

import Flowly.Lib.Reach
import Flowly.Memory.Dreamer

namespace Flowly.Memory.Dreamer

open Flowly.Lib

/-! ## Deltas -/

theorem mem_readSince {messages : List Message} {watermark id : Nat} {limit : Option Nat} (h : id ∈ readSince messages watermark limit) :
    ∃ m ∈ messages, m.isUser = true ∧ watermark < m.id ∧ m.id = id := by
  have hall : id ∈ ((messages.filter fun m => decide (watermark < m.id) && m.isUser).map (·.id)).insertionSort (· ≤ ·) := by
    unfold readSince at h
    cases limit with
    | none => exact h
    | some n => exact List.mem_of_mem_take h
  obtain ⟨m, hm, rfl⟩ := List.mem_map.1 ((List.mem_insertionSort _).1 hall)
  obtain ⟨hin, hp⟩ := List.mem_filter.1 hm
  obtain ⟨hlt, huser⟩ := Bool.and_eq_true_iff.1 hp
  exact ⟨m, hin, huser, of_decide_eq_true hlt, rfl⟩

/-- No message before the last one of a delta is left out of it. -/
theorem readSince_closed {messages : List Message} {watermark last : Nat} {limit : Option Nat}
    (hlast : last ∈ readSince messages watermark limit) {m : Message} (hm : m ∈ messages) (huser : m.isUser = true)
    (hlt : watermark < m.id) (hle : m.id ≤ last) : m.id ∈ readSince messages watermark limit := by
  have hall : m.id ∈ ((messages.filter fun m => decide (watermark < m.id) && m.isUser).map (·.id)).insertionSort (· ≤ ·) :=
    (List.mem_insertionSort _).2 (List.mem_map.2 ⟨m, List.mem_filter.2 ⟨hm, by simp [hlt, huser]⟩, rfl⟩)
  unfold readSince at hlast ⊢
  cases limit with
  | none => exact hall
  | some n =>
    have hsorted := List.pairwise_insertionSort (· ≤ ·) ((messages.filter fun m => decide (watermark < m.id) && m.isUser).map (·.id))
    generalize ((messages.filter fun m => decide (watermark < m.id) && m.isUser).map (·.id)).insertionSort (· ≤ ·) = ids
      at hall hlast hsorted ⊢
    rw [← List.take_append_drop n ids, List.pairwise_append] at hsorted
    rw [← List.take_append_drop n ids] at hall
    rcases List.mem_append.1 hall with hin | hin
    · exact hin
    · rw [Nat.le_antisymm hle (hsorted.2.2 last hlast m.id hin)]
      exact hlast

theorem Delta.last_mem {d : Delta} (h : d.ids ≠ []) : d.last ∈ d.ids := by
  unfold Delta.last
  cases hmax : d.ids.max? with
  | none => exact absurd (List.max?_eq_none_iff.1 hmax) h
  | some m => exact List.max?_mem hmax

namespace St

variable {s s' : St}

/-! ## What is promised -/

def Stale (s : St) (l : Held) : Prop := LOCK_STALE ≤ s.clock - l.since

def Holds (s : St) (p : Nat) (held : Held) : Prop := ∃ work, s.passes p = some (.holding held work)

/-- Of two passes that have the lock and did not crash one is past the stale limit. -/
def Exclusive (s : St) : Prop :=
  ∀ p q held held', s.Holds p held → s.Holds q held' → p ≠ q → s.Stale held ∨ s.Stale held'

/-- Every message of a user up to the watermark was in a delta that is done. -/
def Covered (s : St) : Prop := ∀ m ∈ s.messages, m.isUser = true → m.id ≤ s.watermark → ∃ d ∈ s.finished, m.id ∈ d.ids

/-- A release leaves the lock of another pass, and the watermark does not go back. -/
structure Preserves (s : St) (e : Event) : Prop where
  release : ∀ p, e.op = .step p .release → ∀ l, s.lock = some l → l.pass ≠ p → (s.next e).lock = some l
  watermark : s.watermark ≤ (s.next e).watermark

/-- No other pass has come between what a pass last read or wrote of a value and its own write of it. -/
def undisturbed (s : St) : Op → Bool
  | .lock p =>
    match s.passes p with
    | some (.waiting seen _ _) => s.lock = none ∨ s.lock = seen
    | _ => true
  | .step p step =>
    match s.passes p, step with
    | some (.holding held .leaving), .release => s.lock = none ∨ s.lock = some held
    | some (.holding _ (.committed d)), .advance => s.watermark = d.watermark
    | _, _ => true
  | _ => true

def Ok (s : St) (e : Event) : Prop := s.clock ≤ e.now ∧ s.undisturbed e.op = true

instance (s : St) (e : Event) : Decidable (s.Ok e) := inferInstanceAs (Decidable (_ ∧ _))

theorem lock_of_undisturbed {s : St} {p : Nat} {seen : Option Held} {owner : String} {call : Call} (h : s.undisturbed (.lock p) = true)
    (hp : s.passes p = some (.waiting seen owner call)) : s.lock = none ∨ s.lock = seen := by
  rw [undisturbed, hp] at h
  exact of_decide_eq_true h

theorem release_of_undisturbed {s : St} {p : Nat} {held : Held} (h : s.undisturbed (.step p .release) = true)
    (hp : s.passes p = some (.holding held .leaving)) : s.lock = none ∨ s.lock = some held := by
  unfold undisturbed at h
  simp only [hp] at h
  exact of_decide_eq_true h

theorem advance_of_undisturbed {s : St} {p : Nat} {held : Held} {d : Delta} (h : s.undisturbed (.step p .advance) = true)
    (hp : s.passes p = some (.holding held (.committed d))) : s.watermark = d.watermark := by
  unfold undisturbed at h
  simp only [hp] at h
  exact of_decide_eq_true h

/-! ## The invariant -/

/-- Up to an id every message of a user is in a delta that is done, and no new one will come there. -/
structure Done (s : St) (id : Nat) : Prop where
  le : id ≤ s.lastId
  covered : ∀ m ∈ s.messages, m.isUser = true → m.id ≤ id → ∃ d ∈ s.finished, m.id ∈ d.ids

/-- A delta leaves out nothing between its watermark and its last message. -/
structure Whole (s : St) (d : Delta) : Prop where
  done : s.Done d.watermark
  lt : d.watermark < d.last
  le : d.last ≤ s.lastId
  closed : ∀ m ∈ s.messages, m.isUser = true → d.watermark < m.id → m.id ≤ d.last → m.id ∈ d.ids

def WorkSound (s : St) : Work → Prop
  | .locked _ | .committing none _ | .leaving => True
  | .started watermark _ => s.Done watermark
  | .extracting d | .committing (some d) _ => s.Whole d
  | .committed d => s.Whole d ∧ d ∈ s.finished

structure Inv (s : St) : Prop where
  done : s.Done s.watermark
  ids : ∀ m ∈ s.messages, m.id ≤ s.lastId
  works : ∀ p held work, s.passes p = some (.holding held work) → s.WorkSound work

structure Locks (s : St) : Prop where
  seen : ∀ p l owner call, s.passes p = some (.waiting (some l) owner call) → s.Stale l
  held : ∀ p held work, s.passes p = some (.holding held work) → held.pass = p ∧ (s.lock = some held ∨ s.Stale held)

structure After (s s' : St) : Prop where
  lastId : s.lastId ≤ s'.lastId
  messages : ∀ m ∈ s'.messages, m ∈ s.messages ∨ s.lastId < m.id
  finished : ∀ d ∈ s.finished, d ∈ s'.finished

theorem Done.after (h : After s s') {id : Nat} (hd : s.Done id) : s'.Done id := by
  refine ⟨Nat.le_trans hd.le h.lastId, fun m hm huser hle => ?_⟩
  rcases h.messages m hm with hold | hnew
  · obtain ⟨d, hfin, hin⟩ := hd.covered m hold huser hle
    exact ⟨d, h.finished d hfin, hin⟩
  · exact absurd (Nat.lt_of_lt_of_le hnew hle) (Nat.not_lt.2 hd.le)

theorem Whole.after (h : After s s') {d : Delta} (hw : s.Whole d) : s'.Whole d := by
  refine ⟨hw.done.after h, hw.lt, Nat.le_trans hw.le h.lastId, fun m hm huser hlt hle => ?_⟩
  rcases h.messages m hm with hold | hnew
  · exact hw.closed m hold huser hlt hle
  · exact absurd (Nat.lt_of_lt_of_le hnew hle) (Nat.not_lt.2 hw.le)

theorem WorkSound.after (h : After s s') {work : Work} (hw : s.WorkSound work) : s'.WorkSound work := by
  cases work with
  | locked | leaving => exact trivial
  | started => exact Done.after h hw
  | extracting => exact Whole.after h hw
  | committing delta =>
    cases delta with
    | none => exact trivial
    | some d => exact Whole.after h hw
  | committed d => exact ⟨Whole.after h hw.1, h.finished d hw.2⟩

/-- The last message of a delta that is done is done with all before it. -/
theorem Whole.done_last {d : Delta} (hw : s.Whole d) (hfin : d ∈ s.finished) : s.Done d.last := by
  refine ⟨hw.le, fun m hm huser hle => ?_⟩
  by_cases hlt : d.watermark < m.id
  · exact ⟨d, hfin, hw.closed m hm huser hlt hle⟩
  · exact hw.done.covered m hm huser (Nat.not_lt.1 hlt)

theorem whole_readSince (hids : ∀ m ∈ s.messages, m.id ≤ s.lastId) {watermark : Nat} {limit : Option Nat} (hdone : s.Done watermark)
    (hne : readSince s.messages watermark limit ≠ []) : s.Whole ⟨watermark, readSince s.messages watermark limit⟩ := by
  have hlast := Delta.last_mem (d := ⟨watermark, readSince s.messages watermark limit⟩) hne
  obtain ⟨m, hm, -, hlt, heq⟩ := mem_readSince hlast
  exact ⟨hdone, heq ▸ hlt, heq ▸ hids m hm, fun m hm huser hlt hle => readSince_closed hlast hm huser hlt hle⟩

/-! ## Steps keep what is done -/

theorem After.same (hm : s'.messages = s.messages) (hl : s'.lastId = s.lastId) (hf : s'.finished = s.finished) : After s s' := by
  refine ⟨Nat.le_of_eq hl.symm, fun m h => .inl ?_, fun d h => ?_⟩
  · rwa [hm] at h
  · rwa [hf]

theorem passes_put (s : St) (p q : Nat) (pass : Option Pass) : (s.put p pass).passes q = if q = p then pass else s.passes q :=
  Function.update_apply s.passes p pass q

theorem put_eq_some {p q : Nat} {pass : Option Pass} {x : Pass} (h : (s.put p pass).passes q = some x) :
    pass = some x ∧ q = p ∨ q ≠ p ∧ s.passes q = some x := by
  rw [passes_put] at h
  split at h
  · next hq => exact .inl ⟨h, hq⟩
  · next hq => exact .inr ⟨hq, h⟩

namespace Inv

/-- What a step leaves of the invariant to be shown. -/
theorem after (h : s.Inv) (ha : After s s') (hids : ∀ m ∈ s'.messages, m.id ≤ s'.lastId) (hdone : s'.Done s'.watermark)
    (hworks : ∀ p held work, s'.passes p = some (.holding held work) → s.passes p = some (.holding held work) ∨ s'.WorkSound work) :
    s'.Inv where
  done := hdone
  ids := hids
  works p held work hp := (hworks p held work hp).elim (fun hold => (h.works p held work hold).after ha) id

theorem same (h : s.Inv) (hm : s'.messages = s.messages) (hl : s'.lastId = s.lastId) (hf : s'.finished = s.finished)
    (hw : s'.watermark = s.watermark) (hp : s'.passes = s.passes) : s'.Inv := by
  have ha := After.same hm hl hf
  refine h.after ha ?_ ?_ fun p held work => ?_
  · rw [hm, hl]
    exact h.ids
  · rw [hw]
    exact h.done.after ha
  · rw [hp]
    exact .inl

theorem put (h : s.Inv) (p : Nat) {pass : Option Pass} (hpass : ∀ held work, pass = some (.holding held work) → s.WorkSound work) :
    (s.put p pass).Inv := by
  have ha : After s (s.put p pass) := .same rfl rfl rfl
  refine h.after ha h.ids (h.done.after ha) fun q held work hq => ?_
  rcases put_eq_some hq with ⟨hp, -⟩ | ⟨-, hold⟩
  · exact .inr ((hpass held work hp).after ha)
  · exact .inl hold

theorem goOn (h : s.Inv) (p : Nat) (held : Held) {work : Work} (hwork : s.WorkSound work) : (s.goOn p held work).Inv :=
  h.put p fun _ _ heq => by
    cases heq
    exact hwork

theorem commitLeft (h : s.Inv) (p : Nat) (held : Held) {delta : Option Delta} (hdelta : ∀ d ∈ delta, s.Whole d) (left : Nat) :
    (s.commitLeft p held delta left).Inv := by
  unfold St.commitLeft
  split
  · refine h.goOn p held ?_
    cases delta with
    | none => exact trivial
    | some d => exact hdelta d rfl
  · cases delta with
    | none => exact h.goOn p held trivial
    | some d =>
      have ha : After s { s with finished := d :: s.finished } := ⟨Nat.le_refl _, fun _ => .inl, fun _ => List.mem_cons_of_mem d⟩
      have hfin : ({ s with finished := d :: s.finished } : St).Inv := h.after ha h.ids (h.done.after ha) fun _ _ _ => .inl
      exact hfin.goOn p held ⟨(hdelta d rfl).after ha, List.mem_cons_self⟩

theorem work (h : s.Inv) {p : Nat} {held : Held} {work : Work} (hp : s.passes p = some (.holding held work)) (step : Step) :
    (s.work p held work step).Inv := by
  have hwork := h.works p held work hp
  unfold St.work
  split
  · exact h.goOn p held h.done
  · exact h.commitLeft p held (fun _ hd => absurd hd (by simp)) _
  · dsimp only
    split
    · exact h.goOn p held trivial
    · next hne => exact h.goOn p held (whole_readSince h.ids hwork hne)
  · next d n =>
    refine h.commitLeft p held ?_ n
    rintro _ ⟨⟩
    exact hwork
  · exact h.goOn p held trivial
  · next delta left ok =>
    split
    · refine h.commitLeft p held ?_ _
      rintro d ⟨⟩
      exact hwork
    · exact h.goOn p held trivial
  · next d =>
    have hdone := hwork.1.done_last hwork.2
    have ha : After s { s with watermark := d.last } := .same rfl rfl rfl
    have hset : ({ s with watermark := d.last } : St).Inv := h.after ha h.ids (Done.after ha hdone) fun _ _ _ => .inl
    exact hset.goOn p held trivial
  · have hfree : ({ s with lock := none } : St).Inv := h.same rfl rfl rfl rfl rfl
    exact hfree.put p nofun
  · exact h

theorem apply (h : s.Inv) (op : Op) : (s.apply op).Inv := by
  cases op with
  | index sessionKey =>
    have ha : After s (s.apply (.index sessionKey)) := by
      refine ⟨Nat.le_succ _, fun m hm => ?_, fun _ => id⟩
      rcases List.mem_append.1 hm with hold | hnew
      · exact .inl hold
      · rw [List.mem_singleton.1 hnew]
        exact .inr (Nat.lt_succ_self _)
    refine h.after ha (fun m hm => ?_) (h.done.after ha) fun _ _ _ => .inl
    rcases List.mem_append.1 hm with hold | hnew
    · exact Nat.le_succ_of_le (h.ids m hold)
    · rw [List.mem_singleton.1 hnew]
      exact Nat.le_refl _
  | unindex id =>
    have hsub : ∀ m ∈ (s.apply (.unindex id)).messages, m ∈ s.messages := fun _ hm => (List.mem_filter.1 hm).1
    have ha : After s (s.apply (.unindex id)) := ⟨Nat.le_refl _, fun m hm => .inl (hsub m hm), fun _ hd => hd⟩
    exact h.after ha (fun m hm => h.ids m (hsub m hm)) (h.done.after ha) fun _ _ _ => .inl
  | begin_ owner call =>
    have hcount : ({ s with nextPass := s.nextPass + 1 } : St).Inv := h.same rfl rfl rfl rfl rfl
    show (s.tryLock owner call).Inv
    unfold tryLock
    dsimp only
    split
    · exact hcount.put _ nofun
    · split
      · exact hcount
      · exact hcount.put _ nofun
  | lock p =>
    unfold St.apply
    dsimp only
    split
    · next owner call _ =>
      have hlock : ({ s with lock := some ⟨p, owner, s.clock⟩ } : St).Inv := h.same rfl rfl rfl rfl rfl
      exact hlock.goOn p _ trivial
    · exact h
  | step p step =>
    unfold St.apply
    dsimp only
    split
    · next hp => exact h.work hp step
    · exact h
  | crash p => exact h.put p nofun

theorem next (h : s.Inv) (e : Event) : (s.next e).Inv := by
  have hclock : ({ s with clock := e.now } : St).Inv := h.same rfl rfl rfl rfl rfl
  exact hclock.apply e.op

theorem covered (h : s.Inv) : s.Covered := h.done.covered

end Inv

/-! ## The lock -/

theorem Stale.later {l : Held} (h : s.Stale l) (hclock : s.clock ≤ s'.clock) : s'.Stale l := by
  unfold Stale at h ⊢
  omega

namespace Locks

/-- What a step of one pass leaves to be shown: the pass itself, and the locks of the others. -/
theorem after (h : s.Locks) {p : Nat} (hclock : s.clock ≤ s'.clock) (hothers : ∀ q ≠ p, s'.passes q = s.passes q)
    (hlock : ∀ held, held.pass ≠ p → s.lock = some held → s'.lock = some held ∨ s'.Stale held)
    (hseen : ∀ l owner call, s'.passes p = some (.waiting (some l) owner call) → s'.Stale l)
    (hheld : ∀ held work, s'.passes p = some (.holding held work) → held.pass = p ∧ (s'.lock = some held ∨ s'.Stale held)) :
    s'.Locks where
  seen q l owner call hq := by
    by_cases hqp : q = p
    · subst hqp
      exact hseen l owner call hq
    · rw [hothers q hqp] at hq
      exact (h.seen q l owner call hq).later hclock
  held q held work hq := by
    by_cases hqp : q = p
    · subst hqp
      exact hheld held work hq
    · rw [hothers q hqp] at hq
      obtain ⟨hpass, hl⟩ := h.held q held work hq
      exact ⟨hpass, hl.elim (hlock held (hpass ▸ hqp)) fun hs => .inr (hs.later hclock)⟩

theorem same (h : s.Locks) (hclock : s.clock ≤ s'.clock) (hl : s'.lock = s.lock) (hp : s'.passes = s.passes) : s'.Locks where
  seen q l owner call hq := (h.seen q l owner call (hp ▸ hq)).later hclock
  held q held work hq := by
    obtain ⟨hpass, hlock⟩ := h.held q held work (hp ▸ hq)
    exact ⟨hpass, hlock.imp (hl.trans ·) fun hs => hs.later hclock⟩

theorem others (s : St) (p : Nat) (pass : Option Pass) : ∀ q ≠ p, (s.put p pass).passes q = s.passes q :=
  fun q hq => (passes_put s p q pass).trans (if_neg hq)

theorem self (s : St) (p : Nat) (pass : Option Pass) : (s.put p pass).passes p = pass :=
  (passes_put s p p pass).trans (if_pos rfl)

/-- A pass goes on and keeps what it has. -/
theorem goOn (h : s.Locks) {p : Nat} {held : Held} (hheld : held.pass = p ∧ (s.lock = some held ∨ s.Stale held)) (work : Work) :
    (s.goOn p held work).Locks := by
  refine h.after (Int.le_refl _) (others s p _) (fun _ _ => .inl) (fun l owner call hp => ?_) fun held' work' hp => ?_
  · cases (self s p _).symm.trans hp
  · cases (self s p _).symm.trans hp
    exact hheld

theorem commitLeft (h : s.Locks) {p : Nat} {held : Held} (hheld : held.pass = p ∧ (s.lock = some held ∨ s.Stale held))
    (delta : Option Delta) (left : Nat) : (s.commitLeft p held delta left).Locks := by
  unfold St.commitLeft
  split
  · exact h.goOn hheld _
  · split
    · next d => exact goOn (s := { s with finished := d :: s.finished }) (h.same (Int.le_refl _) rfl rfl) hheld _
    · exact h.goOn hheld _

theorem release (h : s.Locks) {p : Nat} {held : Held} {work : Work} (hp : s.passes p = some (.holding held work))
    (hown : s.lock = none ∨ s.lock = some held) : ({ s with lock := none }.put p none : St).Locks := by
  refine h.after (Int.le_refl _) (others _ p none) (fun held' hne hlock => ?_) (fun l owner call hp => ?_) fun held' work' hp => ?_
  · rcases hown with hnone | hsome
    · cases hnone.symm.trans hlock
    · cases hsome.symm.trans hlock
      exact absurd (h.held p held work hp).1 hne
  · cases (self { s with lock := none } p none).symm.trans hp
  · cases (self { s with lock := none } p none).symm.trans hp

theorem work (h : s.Locks) {p : Nat} {held : Held} {work : Work} (hp : s.passes p = some (.holding held work)) {step : Step}
    (hown : work = .leaving → step = .release → s.lock = none ∨ s.lock = some held) : (s.work p held work step).Locks := by
  have hheld := h.held p held work hp
  unfold St.work
  split
  · exact h.goOn hheld _
  · exact h.commitLeft hheld _ _
  · exact h.goOn hheld _
  · exact h.commitLeft hheld _ _
  · exact h.goOn hheld _
  · split
    · exact h.commitLeft hheld _ _
    · exact h.goOn hheld _
  · next d => exact goOn (s := { s with watermark := d.last }) (h.same (Int.le_refl _) rfl rfl) hheld _
  · exact h.release hp (hown rfl rfl)
  · exact h

/-- A pass that waits has seen a free lock, or one past the stale limit. -/
theorem wait (h : s.Locks) (p : Nat) {seen : Option Held} (hseen : ∀ l ∈ seen, s.Stale l) (owner : String) (call : Call) :
    (s.put p (some (.waiting seen owner call))).Locks := by
  refine h.after (Int.le_refl _) (others s p _) (fun _ _ => .inl) (fun l owner call hp => ?_) fun held' work' hp => ?_
  · cases (self s p _).symm.trans hp
    exact hseen l rfl
  · cases (self s p _).symm.trans hp

theorem tryLock (h : s.Locks) (owner : String) (call : Call) : (s.tryLock owner call).Locks := by
  have hcount : ({ s with nextPass := s.nextPass + 1 } : St).Locks := h.same (Int.le_refl _) rfl rfl
  unfold St.tryLock
  dsimp only
  split
  · exact hcount.wait _ (fun _ hl => absurd hl (by simp)) owner call
  · next l _ =>
    split
    · exact hcount
    · next hold =>
      refine hcount.wait _ ?_ owner call
      rintro _ ⟨⟩
      exact Int.not_lt.1 hold

theorem writeLock (h : s.Locks) {p : Nat} {seen : Option Held} {owner : String} {call : Call}
    (hp : s.passes p = some (.waiting seen owner call)) (hfree : s.lock = none ∨ s.lock = seen) : (s.writeLock p owner call).Locks := by
  refine h.after (Int.le_refl _) (others _ p _) (fun held _ hlock => .inr ?_) (fun l owner call hp => ?_) fun held' work' hp => ?_
  · rcases hfree with hnone | hseen
    · cases hnone.symm.trans hlock
    · exact h.seen p held owner call (by rw [hp, ← hseen, hlock])
  · cases (self { s with lock := _ } p _).symm.trans hp
  · cases (self { s with lock := _ } p _).symm.trans hp
    exact ⟨rfl, .inl rfl⟩

theorem next (h : s.Locks) {e : Event} (hok : s.Ok e) : (s.next e).Locks := by
  obtain ⟨now, op⟩ := e
  obtain ⟨hclock, hop⟩ := hok
  have hnow : ({ s with clock := now } : St).Locks := h.same hclock rfl rfl
  show ({ s with clock := now } : St).apply op |>.Locks
  cases op with
  | index | unindex => exact hnow.same (Int.le_refl _) rfl rfl
  | begin_ owner call => exact hnow.tryLock owner call
  | lock p =>
    unfold St.apply
    dsimp only
    split
    · next seen owner call hp => exact hnow.writeLock hp (lock_of_undisturbed hop hp)
    · exact hnow
  | step p step =>
    unfold St.apply
    dsimp only
    split
    · next held work hp =>
      refine hnow.work hp ?_
      rintro rfl rfl
      exact release_of_undisturbed hop hp
    · exact hnow
  | crash p =>
    refine hnow.after (Int.le_refl _) (others _ p none) (fun _ _ => .inl) (fun l owner call hp => ?_) fun held' work' hp => ?_
    · cases (self { s with clock := now } p none).symm.trans hp
    · cases (self { s with clock := now } p none).symm.trans hp

theorem exclusive (h : s.Locks) : s.Exclusive := by
  rintro p q held held' ⟨work, hp⟩ ⟨work', hq⟩ hne
  obtain ⟨hpass, hlock⟩ := h.held p held work hp
  obtain ⟨hpass', hlock'⟩ := h.held q held' work' hq
  rcases hlock with hlock | hstale
  · rcases hlock' with hlock' | hstale'
    · cases hlock.symm.trans hlock'
      exact absurd (hpass.symm.trans hpass') hne
    · exact .inr hstale'
  · exact .inl hstale

end Locks

/-! ## Every run -/

theorem commitLeft_watermark (p : Nat) (held : Held) (delta : Option Delta) (left : Nat) :
    (s.commitLeft p held delta left).watermark = s.watermark := by
  unfold commitLeft
  split
  · rfl
  · split <;> rfl

/-- Only the last step of a pass but one writes the watermark. -/
theorem work_watermark {p : Nat} {held : Held} {work : Work} {step : Step}
    (h : ∀ d, work = .committed d → step = .advance → s.watermark ≤ d.last) : s.watermark ≤ (s.work p held work step).watermark := by
  unfold St.work
  split
  case h_7 d => exact h d rfl rfl
  case h_6 =>
    split
    · exact Nat.le_of_eq (commitLeft_watermark ..).symm
    · exact Nat.le_refl _
  all_goals first
    | exact Nat.le_of_eq (commitLeft_watermark ..).symm
    | exact Nat.le_refl _

theorem preserves (hi : s.Inv) (hl : s.Locks) {e : Event} (hok : s.Ok e) : s.Preserves e := by
  obtain ⟨now, op⟩ := e
  refine ⟨?_, ?_⟩
  · rintro p rfl l hlock hne
    show (({ s with clock := now } : St).apply (.step p .release)).lock = some l
    unfold apply
    dsimp only
    split
    · next held work hp =>
      cases work with
      | leaving =>
        rcases release_of_undisturbed hok.2 hp with hnone | hown
        · cases hnone.symm.trans hlock
        · cases hown.symm.trans hlock
          exact absurd (hl.held p l _ hp).1 hne
      | locked call => cases call <;> exact hlock
      | _ => exact hlock
    · exact hlock
  · show s.watermark ≤ (({ s with clock := now } : St).apply op).watermark
    cases op with
    | index | unindex | crash => exact Nat.le_refl _
    | begin_ owner call =>
      show s.watermark ≤ (({ s with clock := now } : St).tryLock owner call).watermark
      unfold tryLock
      dsimp only
      split
      · exact Nat.le_refl _
      · split <;> exact Nat.le_refl _
    | lock p =>
      unfold apply
      dsimp only
      split <;> exact Nat.le_refl _
    | step p step =>
      unfold apply
      dsimp only
      split
      · next held work hp =>
        refine work_watermark (s := { s with clock := now }) ?_
        rintro d rfl rfl
        show s.watermark ≤ d.last
        rw [advance_of_undisturbed hok.2 hp]
        exact Nat.le_of_lt (hi.works p held _ hp).1.lt
      · exact Nat.le_refl _

theorem inv_init : ({} : St).Inv where
  done := ⟨Nat.le_refl _, List.forall_mem_nil _⟩
  ids := List.forall_mem_nil _
  works _ _ _ hp := by cases hp

theorem locks_init : ({} : St).Locks where
  seen _ _ _ _ hp := by cases hp
  held _ _ _ hp := by cases hp

/-- Where no other pass comes between, there is one dreamer at a time, a release leaves the locks of others, the watermark
does not go back, and no message up to it was left out. -/
theorem one_dreamer (h : Reach St.next St.Ok {} s) : s.Exclusive ∧ s.Covered ∧ ∀ e, s.Ok e → s.Preserves e := by
  obtain ⟨hi, hl⟩ := h.invariant (P := fun s => s.Inv ∧ s.Locks) ⟨inv_init, locks_init⟩ fun s e hs hok => ⟨hs.1.next e, hs.2.next hok⟩
  exact ⟨hl.exclusive, hi.covered, fun e hok => preserves hi hl hok⟩

/-- The messages up to the watermark are done in every run, also where passes come between each other. -/
theorem covered_always (h : Reach St.next (fun _ _ => True) {} s) : s.Covered :=
  (h.invariant inv_init fun _ e hs _ => hs.next e).covered

end St

namespace Sample

/-- A pass over two messages, one of them of a cron run. -/
def onePass : List Event := [
  ⟨0, .index "telegram:1"⟩, ⟨0, .index "cron:7"⟩, ⟨1, .begin_ "dreamer" (.run (some 500))⟩, ⟨2, .lock 0⟩, ⟨3, .step 0 .readWatermark⟩,
  ⟨4, .step 0 .readDelta⟩, ⟨5, .step 0 (.extract (.candidates 1))⟩, ⟨6, .step 0 (.commit true)⟩, ⟨7, .step 0 .advance⟩,
  ⟨8, .step 0 .release⟩]

theorem one_dreamer_onePass : (onePass.foldl St.next {}).Exclusive ∧ (onePass.foldl St.next {}).Covered ∧
    ∀ e, (onePass.foldl St.next {}).Ok e → (onePass.foldl St.next {}).Preserves e := by
  have hok : Reach.Allowed St.next St.Ok {} onePass := by decide +kernel
  have hrun := Reach.foldl onePass ({} : St) Reach.start hok
  exact St.one_dreamer hrun

def together : List Event := [
  ⟨0, .begin_ "dreamer" (.run (some 500))⟩, ⟨0, .begin_ "dreamer" (.run (some 500))⟩, ⟨0, .lock 0⟩, ⟨0, .lock 1⟩]

theorem covered_together : ((onePass ++ together).foldl St.next {}).Covered :=
  St.covered_always (Reach.free _ _)

theorem two_dreamers : ¬ ∀ events : List Event, (events.foldl St.next {}).Exclusive := by
  intro h
  have hboth : (together.foldl St.next {}).Holds 0 ⟨0, "dreamer", 0⟩ ∧ (together.foldl St.next {}).Holds 1 ⟨1, "dreamer", 0⟩ :=
    ⟨⟨.locked (.run (some 500)), rfl⟩, ⟨.locked (.run (some 500)), rfl⟩⟩
  have hstale := h together 0 1 _ _ hboth.1 hboth.2 (by decide)
  revert hstale
  unfold St.Stale LOCK_STALE
  decide

end Sample

end Flowly.Memory.Dreamer
