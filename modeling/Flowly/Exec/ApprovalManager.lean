/-
  Flowly.Exec.ApprovalManager — the approval requests that wait for a decision
  (`flowly/exec/approval_manager.py`: `request_and_wait`, `resolve`).

  Actors. The task of a request registers it and awaits its future inside a timeout. Any
  surface may `resolve` it, the timer may fire, and the task may be cancelled. `resolve`
  looks at the clock first and then takes the session's file lock; the loop stands still
  until it has it. When the task runs again it unregisters the request and waits for the
  surfaces to close their cards, and may be cancelled there too.

  Proved: in every run one `resolve` of a request answers True at most, and a request
  that has ended is registered nowhere. That an accepted decision is in time, and that it
  is what `request_and_wait` returns unless it is cancelled, holds where no lock is waited
  for past `expires_at` and the timer does not fire on a decision the task has not picked
  up (`accepted_decisions_count`); elsewhere it does not (`a_decision_comes_too_late`).
-/

import Flowly.Lib.Reach
import Flowly.Lib.TimedWait
import Mathlib.Data.List.Nodup

namespace Flowly.Exec

open Flowly.Lib

/-- `ExecApprovalDecision`. -/
inductive Decision where
  | allowOnce
  | allowAlways
  | deny
  deriving DecidableEq

inductive Stage where
  | waiting
  /-- The request is unregistered; its cards are being closed. -/
  | closing (outcome : WaitEnd Decision)
  | ended (outcome : WaitEnd Decision)
  deriving DecidableEq

structure Request where
  seq : Nat
  /-- `PendingApproval.id`. -/
  id : String
  expiresAt : Int
  wait : TimedWait Decision := {}
  stage : Stage := .waiting
  /-- Ghost: the decisions for which `resolve` returned True, and when it did. -/
  accepted : List (Decision × Int) := []
  deriving DecidableEq

structure ApprovalManager where
  /-- `_futures`, `_pending` and `_control_scopes`, which always have the same keys. -/
  registered : List (String × Nat) := []
  /-- Every request there was. -/
  requests : List Request := []
  clock : Int := 0

namespace Request

/-- `resolve`, which looks at the clock at `now` and has the lock at `doneAt`. -/
def resolve (now doneAt : Int) (allowed : Bool) (decision : Decision) (r : Request) : Request :=
  if r.wait.future ≠ .pending ∨ r.expiresAt ≤ now then r
  else if allowed = false then r
  else { r with wait := r.wait.setResult decision, accepted := (decision, doneAt) :: r.accepted }

/-- The timer of `asyncio.timeout`; it is armed until the task leaves the timeout, and it
    goes by the loop's clock, which need not agree with `time.time`. -/
def expire (r : Request) : Request :=
  if r.stage = .waiting ∧ r.wait.expiring = false then { r with wait := r.wait.fire } else r

def cancel (r : Request) : Request :=
  match r.stage with
  | .waiting => { r with wait := r.wait.cancel }
  | .closing _ => { r with wait := r.wait.cancel, stage := .ended .cancelled }
  | .ended _ => r

def wake (r : Request) : Request :=
  match r.stage, r.wait.result with
  | .waiting, some outcome => { r with stage := .closing outcome }
  | _, _ => r

def close (r : Request) : Request :=
  match r.stage with
  | .closing outcome => { r with stage := .ended outcome }
  | _ => r

end Request

namespace ApprovalManager

/-- `f` changes the request. -/
def edit (m : ApprovalManager) (seq : Nat) (f : Request → Request) : ApprovalManager :=
  { m with requests := m.requests.map fun r => if r.seq = seq then f r else r }

def find (m : ApprovalManager) (seq : Nat) : Option Request := m.requests.find? (·.seq = seq)

/-- `request_and_wait` up to its first await. A cron run may have its decision at once. -/
def request (m : ApprovalManager) (id : String) (expiresAt : Int) (cron : Option Decision) : ApprovalManager :=
  if cron.isSome ∨ id ∈ m.registered.map (·.1) then m
  else { m with registered := (id, m.requests.length) :: m.registered
                requests := m.requests ++ [{ seq := m.requests.length, id, expiresAt }] }

def resolve (m : ApprovalManager) (now doneAt : Int) (id : String) (allowed : Bool) (decision : Decision) : ApprovalManager :=
  match m.registered.lookup id with
  | none => m
  | some seq => m.edit seq (Request.resolve now doneAt allowed decision)

/-- The task of a request runs again, and unregisters it when its wait is over. -/
def wake (m : ApprovalManager) (seq : Nat) : ApprovalManager :=
  match m.find seq with
  | none => m
  | some r =>
    if r.stage = .waiting ∧ r.wait.result.isSome then
      { m.edit seq Request.wake with registered := m.registered.filter (·.1 ≠ r.id) }
    else m

end ApprovalManager

inductive Event where
  | request (id : String) (expiresAt : Int) (cron : Option Decision)
  /-- `doneAt` is when the session's lock was there, and `allowed` what it said of the caller. -/
  | resolve (id : String) (decision : Decision) (allowed : Bool) (doneAt : Int)
  | expire (seq : Nat)
  | cancel (seq : Nat)
  | wake (seq : Nat)
  | close (seq : Nat)

def ApprovalManager.perform (m : ApprovalManager) (now : Int) : Event → ApprovalManager
  | .request id expiresAt cron => m.request id expiresAt cron
  | .resolve id decision allowed doneAt => m.resolve now doneAt id allowed decision
  | .expire seq => m.edit seq Request.expire
  | .cancel seq => m.edit seq Request.cancel
  | .wake seq => m.wake seq
  | .close seq => m.edit seq Request.close

def Event.doneAt (now : Int) : Event → Int
  | .resolve _ _ _ doneAt => doneAt
  | _ => now

def step (m : ApprovalManager) (e : Int × Event) : ApprovalManager :=
  { m.perform e.1 e.2 with clock := e.2.doneAt e.1 }

/-- The clock does not go back, and a lock is not there before it is asked for. -/
def ApprovalManager.fits (m : ApprovalManager) (e : Int × Event) : Prop := m.clock ≤ e.1 ∧ e.1 ≤ e.2.doneAt e.1

instance (m : ApprovalManager) (e : Int × Event) : Decidable (m.fits e) := by
  unfold ApprovalManager.fits; infer_instance

/-- No lock is waited for past the deadline, and the timer does not fire on a decision. -/
def ApprovalManager.prompt (m : ApprovalManager) (e : Int × Event) : Prop :=
  match e.2 with
  | .resolve id _ allowed doneAt => allowed = true → ∀ seq ∈ m.registered.lookup id, ∀ r ∈ m.requests, r.seq = seq →
      e.1 < r.expiresAt → doneAt < r.expiresAt
  | .expire seq => ∀ r ∈ m.requests, r.seq = seq → r.stage = .waiting → r.wait.future.isDone = false
  | _ => True

instance (m : ApprovalManager) (e : Int × Event) : Decidable (m.prompt e) := by
  unfold ApprovalManager.prompt
  split <;> infer_instance

/-- One decision at most is taken for the request, in time, and it is the outcome. -/
def Request.Counts (r : Request) : Prop :=
  r.accepted.length ≤ 1 ∧ (∀ p ∈ r.accepted, p.2 < r.expiresAt) ∧
    ∀ o, r.stage = .closing o ∨ r.stage = .ended o → ∀ p ∈ r.accepted,
      o = .returned p.1 ∨ o = .cancelled ∧ r.wait.cancelled = true

/-- Every request counts one decision, and nothing of one past its wait is registered. -/
def ApprovalManager.Counts (m : ApprovalManager) : Prop :=
  ∀ r ∈ m.requests, r.Counts ∧ (r.stage ≠ .waiting → ∀ p ∈ m.registered, p.2 ≠ r.seq)

/-- What holds of a request in every run. -/
structure Request.Kept (r : Request) : Prop where
  sound : r.wait.Sound
  counted : r.accepted = [] ∧ r.wait.future.isDone = false ∨
    ∃ p, r.accepted = [p] ∧ r.wait.future = .done p.1
  past : r.stage ≠ .waiting → r.wait.future ≠ .pending

structure Request.InTime (r : Request) : Prop where
  before : ∀ p ∈ r.accepted, p.2 < r.expiresAt
  armed : r.stage = .waiting → r.accepted ≠ [] → r.wait.expiring = false
  ended : ∀ o, r.stage = .closing o ∨ r.stage = .ended o → ∀ p ∈ r.accepted,
    o = .returned p.1 ∨ o = .cancelled ∧ r.wait.cancelled = true

/-! ## One request -/

namespace Request

variable {r : Request}

/-- What an edit of a request leaves: its number, its id, and that it waits. -/
structure Frame (f : Request → Request) : Prop where
  seq : ∀ r, (f r).seq = r.seq
  id : ∀ r, (f r).id = r.id
  waits : ∀ r, r.stage = .waiting → (f r).stage = .waiting

theorem resolve_frame (now doneAt : Int) (allowed : Bool) (decision : Decision) :
    Frame (Request.resolve now doneAt allowed decision) := by
  constructor <;> intro r <;> unfold Request.resolve <;> split_ifs <;> first | rfl | exact fun h => h

theorem expire_frame : Frame Request.expire := by
  constructor <;> intro r <;> unfold Request.expire <;> split_ifs <;> first | rfl | exact fun h => h

theorem cancel_frame : Frame Request.cancel := by
  constructor <;> intro r <;> unfold Request.cancel
  · split <;> rfl
  · split <;> rfl
  · intro h
    rw [h]

theorem close_frame : Frame Request.close := by
  constructor <;> intro r <;> unfold Request.close
  · split <;> rfl
  · split <;> rfl
  · intro h
    rw [h]
    exact h

theorem wake_seq (r : Request) : r.wake.seq = r.seq := by unfold wake; split <;> rfl

namespace Kept

theorem resolve (h : r.Kept) (now doneAt : Int) (allowed : Bool) (decision : Decision) :
    (r.resolve now doneAt allowed decision).Kept := by
  unfold Request.resolve
  split_ifs with hno hal
  · exact h
  · exact h
  · have hnil : r.accepted = [] := by
      obtain ⟨hnil, _⟩ | ⟨p, _, hd⟩ := h.counted
      · exact hnil
      · exact absurd (.inl (by rw [hd]; intro hp; cases hp)) hno
    exact ⟨h.sound.setResult decision, .inr ⟨(decision, doneAt), by rw [hnil], rfl⟩, fun _ hp => (by cases hp)⟩

theorem interrupted {w : TimedWait Decision} (h : r.Kept) (hw : w.Sound) (hf : w.future = r.wait.interrupt.future) :
    ({ r with wait := w } : Request).Kept := by
  refine ⟨hw, ?_, ?_⟩
  · obtain ⟨hnil, hd⟩ | ⟨p, hp, hd⟩ := h.counted
    · refine .inl ⟨hnil, ?_⟩
      show w.future.isDone = false
      rw [hf]
      exact TimedWait.interrupt_isDone hd
    · refine .inr ⟨p, hp, ?_⟩
      show w.future = .done p.1
      rw [hf]
      exact TimedWait.interrupt_done hd
  · intro _
    show w.future ≠ .pending
    rw [hf]
    exact TimedWait.interrupt_not_pending r.wait

theorem expire (h : r.Kept) : r.expire.Kept := by
  unfold Request.expire
  split_ifs
  · exact h.interrupted h.sound.fire rfl
  · exact h

theorem cancel (h : r.Kept) : r.cancel.Kept := by
  have hc := h.interrupted (w := r.wait.cancel) h.sound.cancel rfl
  unfold Request.cancel
  split
  · exact hc
  · exact ⟨hc.sound, hc.counted, fun _ => TimedWait.interrupt_not_pending r.wait⟩
  · exact h

theorem wake (h : r.Kept) : r.wake.Kept := by
  unfold Request.wake
  split
  · next hres => exact ⟨h.sound, h.counted, fun _ => TimedWait.result_not_pending hres⟩
  · exact h

theorem close (h : r.Kept) : r.close.Kept := by
  unfold Request.close
  split
  · next hst => exact ⟨h.sound, h.counted, fun _ => h.past (by rw [hst]; intro hw; cases hw)⟩
  · exact h

end Kept

namespace InTime

theorem resolve (h : r.InTime) (hk : r.Kept) {now doneAt : Int} {allowed : Bool} (decision : Decision)
    (hlock : allowed = true → now < r.expiresAt → doneAt < r.expiresAt) :
    (r.resolve now doneAt allowed decision).InTime := by
  unfold Request.resolve
  split_ifs with hno hal
  · exact h
  · exact h
  · obtain ⟨hpend, hnow⟩ := not_or.1 hno
    have hpend : r.wait.future = .pending := not_not.1 hpend
    obtain ⟨hnil, _⟩ | ⟨p, _, hd⟩ := hk.counted
    · have hone : ∀ p ∈ (decision, doneAt) :: r.accepted, p = (decision, doneAt) := by
        intro p hp
        rw [hnil] at hp
        exact List.mem_singleton.1 hp
      -- The future was pending, so neither the timer nor the task has run.
      refine ⟨?_, fun _ _ => hk.sound.quiet hpend, ?_⟩
      · intro p hp
        rw [hone p hp]
        exact hlock (by simpa using hal) (by omega)
      · intro o ho
        refine absurd hpend (hk.past ?_)
        intro hw
        change r.stage = .closing o ∨ r.stage = .ended o at ho
        rw [hw] at ho
        rcases ho with ho | ho <;> cases ho
    · rw [hpend] at hd
      cases hd

theorem expire (h : r.InTime) (hk : r.Kept) (hq : r.stage = .waiting → r.wait.future.isDone = false) :
    r.expire.InTime := by
  unfold Request.expire
  split_ifs with hfires
  · obtain ⟨hst, _⟩ := hfires
    have hnil : r.accepted = [] := by
      obtain ⟨hnil, _⟩ | ⟨p, _, hd⟩ := hk.counted
      · exact hnil
      · have hnot := hq hst
        rw [hd] at hnot
        cases hnot
    refine ⟨h.before, fun _ hne => absurd hnil hne, ?_⟩
    intro o _ p hp
    rw [show r.accepted = [] from hnil] at hp
    cases hp
  · exact h

theorem cancel (h : r.InTime) : r.cancel.InTime := by
  unfold Request.cancel
  split
  · next hst =>
    refine ⟨h.before, ?_, ?_⟩
    · intro _ hne
      show r.wait.interrupt.expiring = false
      rw [TimedWait.interrupt_expiring]
      exact h.armed hst hne
    · intro o ho
      change r.stage = .closing o ∨ r.stage = .ended o at ho
      rw [hst] at ho
      rcases ho with ho | ho <;> cases ho
  · refine ⟨h.before, fun hw => (by cases hw), ?_⟩
    intro o ho p _
    rcases ho with ho | ho <;> cases ho
    exact .inr ⟨rfl, rfl⟩
  · exact h

theorem wake (h : r.InTime) (hk : r.Kept) : r.wake.InTime := by
  unfold Request.wake
  split
  · next outcome hst hres =>
    refine ⟨h.before, fun hw => (by cases hw), ?_⟩
    intro o ho p hp
    rcases ho with ho | ho <;> cases ho
    obtain ⟨hnil, _⟩ | ⟨q, hq, hd⟩ := hk.counted
    · rw [hnil] at hp
      cases hp
    · have harm := h.armed hst (by rw [hq]; intro hn; cases hn)
      rw [hq] at hp
      rw [List.mem_singleton.1 hp]
      exact hk.sound.result_done hd harm hres
  · exact h

theorem close (h : r.InTime) : r.close.InTime := by
  unfold Request.close
  split
  · next outcome hst =>
    refine ⟨h.before, fun hw => (by cases hw), ?_⟩
    intro o ho
    rcases ho with ho | ho <;> cases ho
    exact h.ended outcome (.inl hst)
  · exact h

end InTime

theorem InTime.counts (h : r.InTime) (hk : r.Kept) : r.Counts := by
  refine ⟨?_, h.before, h.ended⟩
  obtain ⟨hnil, _⟩ | ⟨p, hp, _⟩ := hk.counted
  · rw [hnil]
    exact Nat.zero_le 1
  · rw [hp]
    exact Nat.le_refl 1

end Request

/-! ## The requests together -/

namespace ApprovalManager

/-- The requests are numbered, and what is registered is a request that waits. -/
structure Inv (m : ApprovalManager) : Prop where
  numbered : m.requests.map (·.seq) = List.range m.requests.length
  live : ∀ p ∈ m.registered, ∃ r ∈ m.requests, r.seq = p.2 ∧ r.id = p.1 ∧ r.stage = .waiting
  kept : ∀ r ∈ m.requests, r.Kept

variable {m : ApprovalManager}

theorem mem_edit {seq : Nat} {f : Request → Request} {r : Request} (h : r ∈ (m.edit seq f).requests) :
    ∃ r₀ ∈ m.requests, r₀.seq = seq ∧ r = f r₀ ∨ r₀ ∈ m.requests ∧ r = r₀ := by
  obtain ⟨r₀, hr₀, rfl⟩ := List.mem_map.1 h
  refine ⟨r₀, hr₀, ?_⟩
  split_ifs with hs
  · exact .inl ⟨hs, rfl⟩
  · exact .inr ⟨hr₀, rfl⟩

/-- What every request has, every request has after an edit that keeps it. -/
theorem edit_all {P : Request → Prop} {seq : Nat} {f : Request → Request} (h : ∀ r ∈ m.requests, P r)
    (hf : ∀ r ∈ m.requests, r.seq = seq → P (f r)) : ∀ r ∈ (m.edit seq f).requests, P r := by
  intro r hr
  obtain ⟨r₀, hr₀, ⟨hs, rfl⟩ | ⟨_, rfl⟩⟩ := mem_edit hr
  · exact hf r₀ hr₀ hs
  · exact h r hr₀

theorem edit_seqs {seq : Nat} {f : Request → Request} (hf : ∀ r, (f r).seq = r.seq) :
    (m.edit seq f).requests.map (·.seq) = m.requests.map (·.seq) := by
  unfold edit
  rw [List.map_map]
  refine List.map_congr_left fun r _ => ?_
  show (if r.seq = seq then f r else r).seq = r.seq
  split_ifs
  · exact hf r
  · rfl

theorem edit_length (seq : Nat) (f : Request → Request) : (m.edit seq f).requests.length = m.requests.length :=
  List.length_map _

theorem mem_edit_of_mem {r : Request} (h : r ∈ m.requests) (seq : Nat) (f : Request → Request) :
    (if r.seq = seq then f r else r) ∈ (m.edit seq f).requests :=
  List.mem_map_of_mem h

namespace Inv

theorem init : Inv {} := ⟨rfl, List.forall_mem_nil _, List.forall_mem_nil _⟩

/-- No two requests have one number. -/
theorem seq_inj (h : m.Inv) {r r' : Request} (hr : r ∈ m.requests) (hr' : r' ∈ m.requests) (heq : r.seq = r'.seq) :
    r = r' := by
  have hnodup : (m.requests.map (·.seq)).Nodup := by
    rw [h.numbered]
    exact List.nodup_range
  exact List.inj_on_of_nodup_map hnodup hr hr' heq

theorem edit (h : m.Inv) (seq : Nat) {f : Request → Request} (hf : Request.Frame f) (hk : ∀ r : Request, r.Kept → (f r).Kept) :
    (m.edit seq f).Inv := by
  refine ⟨?_, ?_, edit_all h.kept fun r hr _ => hk r (h.kept r hr)⟩
  · rw [edit_seqs hf.seq, edit_length]
    exact h.numbered
  · intro p hp
    obtain ⟨r, hr, hs, hid, hst⟩ := h.live p hp
    refine ⟨_, mem_edit_of_mem hr seq f, ?_⟩
    split_ifs
    · exact ⟨(hf.seq r).trans hs, (hf.id r).trans hid, hf.waits r hst⟩
    · exact ⟨hs, hid, hst⟩

theorem request (h : m.Inv) (id : String) (expiresAt : Int) (cron : Option Decision) : (m.request id expiresAt cron).Inv := by
  unfold ApprovalManager.request
  split_ifs with hno
  · exact h
  · refine ⟨?_, ?_, ?_⟩
    · show (m.requests ++ [_]).map _ = List.range (m.requests ++ [_]).length
      rw [List.map_append, h.numbered, List.length_append]
      exact List.range_succ.symm
    · intro p hp
      rcases List.mem_cons.1 hp with rfl | hp
      · exact ⟨_, List.mem_append_right _ (List.mem_singleton_self _), rfl, rfl, rfl⟩
      · obtain ⟨r, hr, hrest⟩ := h.live p hp
        exact ⟨r, List.mem_append_left _ hr, hrest⟩
    · intro r hr
      rcases List.mem_append.1 hr with hr | hr
      · exact h.kept r hr
      · rw [List.mem_singleton.1 hr]
        exact ⟨.init, .inl ⟨rfl, rfl⟩, fun hn => absurd rfl hn⟩

theorem resolve (h : m.Inv) (now doneAt : Int) (id : String) (allowed : Bool) (decision : Decision) :
    (m.resolve now doneAt id allowed decision).Inv := by
  unfold ApprovalManager.resolve
  split
  · exact h
  · exact h.edit _ (Request.resolve_frame ..) fun r hr => hr.resolve ..

theorem find_some {seq : Nat} {r : Request} (h : m.find seq = some r) : r ∈ m.requests ∧ r.seq = seq :=
  ⟨List.mem_of_find?_eq_some h, by simpa using List.find?_some h⟩

/-- The request whose wait is over is the one that goes out of the registers. -/
theorem wake (h : m.Inv) (seq : Nat) : (m.wake seq).Inv := by
  unfold ApprovalManager.wake
  split
  · exact h
  · next r hfind =>
    obtain ⟨hr, hseq⟩ := find_some hfind
    split_ifs
    · refine ⟨?_, ?_, edit_all h.kept fun r hr _ => (h.kept r hr).wake⟩
      · exact (edit_seqs Request.wake_seq).trans (h.numbered.trans (by rw [← edit_length seq Request.wake]))
      · intro p hp
        obtain ⟨hp, hother⟩ := List.mem_filter.1 hp
        obtain ⟨r', hr', hs, hid, hst⟩ := h.live p hp
        have hne : r'.seq ≠ seq := by
          intro heq
          have : r' = r := h.seq_inj hr' hr (heq.trans hseq.symm)
          subst this
          exact absurd hid.symm (by simpa using hother)
        refine ⟨r', ?_, hs, hid, hst⟩
        have hmem := mem_edit_of_mem hr' seq Request.wake
        rwa [if_neg hne] at hmem
    · exact h

theorem step (h : m.Inv) (e : Int × Event) : (step m e).Inv := by
  suffices hp : (m.perform e.1 e.2).Inv from ⟨hp.numbered, hp.live, hp.kept⟩
  obtain ⟨now, ev⟩ := e
  cases ev with
  | request id expiresAt cron => exact h.request id expiresAt cron
  | resolve id decision allowed doneAt => exact h.resolve now doneAt id allowed decision
  | expire seq => exact h.edit seq Request.expire_frame fun r hr => hr.expire
  | cancel seq => exact h.edit seq Request.cancel_frame fun r hr => hr.cancel
  | wake seq => exact h.wake seq
  | close seq => exact h.edit seq Request.close_frame fun r hr => hr.close

end Inv

/-- One prompt step keeps every request in time. -/
theorem inTime_step (h : m.Inv) (ht : ∀ r ∈ m.requests, r.InTime) {e : Int × Event} (hp : m.prompt e) :
    ∀ r ∈ (step m e).requests, r.InTime := by
  obtain ⟨now, ev⟩ := e
  cases ev with
  | request id expiresAt cron =>
    show ∀ r ∈ (m.request id expiresAt cron).requests, r.InTime
    unfold ApprovalManager.request
    split_ifs
    · exact ht
    · intro r hr
      rcases List.mem_append.1 hr with hr | hr
      · exact ht r hr
      · rw [List.mem_singleton.1 hr]
        refine ⟨List.forall_mem_nil _, fun _ hne => absurd rfl hne, ?_⟩
        intro o ho
        rcases ho with ho | ho <;> cases ho
  | resolve id decision allowed doneAt =>
    show ∀ r ∈ (m.resolve now doneAt id allowed decision).requests, r.InTime
    unfold ApprovalManager.resolve
    split
    · exact ht
    · next seq hl =>
      exact edit_all ht fun r hr hs => (ht r hr).resolve (h.kept r hr) decision fun ha => hp ha seq hl r hr hs
  | expire seq => exact edit_all ht fun r hr hs => (ht r hr).expire (h.kept r hr) (hp r hr hs)
  | cancel seq => exact edit_all ht fun r hr _ => (ht r hr).cancel
  | wake seq =>
    show ∀ r ∈ (m.wake seq).requests, r.InTime
    unfold ApprovalManager.wake
    split
    · exact ht
    · split_ifs
      · exact edit_all ht fun r hr _ => (ht r hr).wake (h.kept r hr)
      · exact ht
  | close seq => exact edit_all ht fun r hr _ => (ht r hr).close

end ApprovalManager

/-! ## Runs -/

/-- The runs of the process whose steps are all prompt. -/
def Prompt : ApprovalManager → Prop := Reach step (fun m e => m.fits e ∧ m.prompt e) {}

/-- In every run, one answer at most, and no trace of a request that has ended. -/
theorem requests_kept {m : ApprovalManager} (h : Reach step ApprovalManager.fits {} m) : m.Inv :=
  h.invariant .init fun _ e hm _ => hm.step e

theorem prompt_inv {m : ApprovalManager} (h : Prompt m) : m.Inv ∧ ∀ r ∈ m.requests, r.InTime :=
  h.invariant (P := fun m => m.Inv ∧ ∀ r ∈ m.requests, r.InTime)
    ⟨.init, List.forall_mem_nil _⟩
    fun _ e hm he => ⟨hm.1.step e, ApprovalManager.inTime_step hm.1 hm.2 he.2⟩

/-- Every accepted decision is in time and is what `request_and_wait` returns unless it is
    cancelled, there is one at most, and nothing of a request that has ended is registered. -/
theorem accepted_decisions_count {m : ApprovalManager} (h : Prompt m) : m.Counts := by
  obtain ⟨hinv, htime⟩ := prompt_inv h
  intro r hr
  refine ⟨(htime r hr).counts (hinv.kept r hr), ?_⟩
  intro hst p hp heq
  obtain ⟨r', hr', hs, _, hw⟩ := hinv.live p hp
  rw [hinv.seq_inj hr' hr (hs.trans heq)] at hw
  exact hst hw

namespace Sample

/-- A request is allowed once, and the task picks that up. -/
def prompt_run : List (Int × Event) :=
  [(0, .request "a" 60 none), (5, .resolve "a" .allowOnce true 6), (7, .wake 0), (8, .close 0)]

theorem prompt_run_prompt : Prompt (prompt_run.foldl step {}) := by
  refine Reach.foldl prompt_run _ .start ?_
  decide

theorem accepted_decisions_count_run : (prompt_run.foldl step {}).Counts :=
  accepted_decisions_count prompt_run_prompt

/-- The session's file lock is asked for a second before the deadline and is there two
    seconds after it. The timer is due by then, and the task is told it timed out. -/
def late_run : List (Int × Event) :=
  [(0, .request "a" 60 none), (59, .resolve "a" .allowOnce true 62), (62, .expire 0), (62, .wake 0), (63, .close 0)]

theorem requests_kept_late : (late_run.foldl step {}).Inv :=
  requests_kept (Reach.foldl late_run _ .start (by decide))

end Sample

/-- `resolve` has answered True past `expires_at`, and `request_and_wait` returns None. -/
theorem a_decision_comes_too_late :
    ¬ ∀ m, Reach step ApprovalManager.fits {} m → m.Counts := by
  intro h
  have hreach : Reach step ApprovalManager.fits {} (Sample.late_run.foldl step {}) := by
    refine Reach.foldl Sample.late_run _ .start ?_
    decide
  obtain ⟨⟨_, hbefore, _⟩, _⟩ := h _ hreach
    { seq := 0, id := "a", expiresAt := 60, stage := .ended .timedOut, accepted := [(.allowOnce, 62)]
      wait := { future := .done .allowOnce, mustCancel := true, expiring := true } } (by decide)
  exact absurd (hbefore _ (List.mem_singleton_self _)) (by decide)

end Flowly.Exec
