/-
  Flowly.Compaction.SessionLock — one session's compactions exclude each other
  (`flowly/compaction/service.py`: `session_lock`, `compaction_lease`, `_state`,
  `reset_session`, `_evict_stale_sessions`), with no coordinator configured.

  The service keeps a state for each session key, oldest first, and in it a lock object
  made on first use. A task enters `compaction_lease(key)` by taking the lock its key has
  then; a bare visitor takes a lock object that `session_lock` returned. Between awaits a
  task runs alone, so an event is what a task does between two of them. The counters of a
  state are left out: no lock depends on them.

  Proved: where no dropped state leaves a lease waiting for its lock, one visitor is in a
  session's lease at most (`one_in_lease`). A lock reads unlocked between the release and
  the wake-up of the first waiter; a state dropped there breaks it
  (`reset_between_release_and_wakeup`).
-/

import Mathlib.Data.List.Nodup
import Flowly.Lib.AsyncLock
import Flowly.Lib.Reach

namespace Flowly.Compaction.SessionLock

open Flowly.Lib

/-- One passage of a task through `async with`: of `compaction_lease(key)`, or (`none`) of a
    lock object. -/
structure Visit where
  n : Nat
  key : Option String
  deriving DecidableEq

structure St where
  /-- `_sessions`: the key and the lock of each state. -/
  sessions : List (String × Option Nat) := []
  locks : Nat → AsyncLock Visit := fun _ => {}
  nextLock : Nat := 0
  /-- Ghost: the visits that have entered. -/
  visits : List Visit := []

def init : St := {}

def MAX_TRACKED_SESSIONS : Nat := 500

def find (s : St) (key : String) : Option (String × Option Nat) := s.sessions.find? fun e => e.1 = key

/-- `state.lock is not None and state.lock.locked()`. -/
def isLocked (s : St) (e : String × Option Nat) : Bool :=
  match e.2 with
  | some id => (s.locks id).locked
  | none => false

def evictable (s : St) (e : String × Option Nat) : Bool := e.1 ≠ "" && !isLocked s e

/-- The entries `_evict_stale_sessions` looks at. -/
def overflow (s : St) : Nat := s.sessions.length - MAX_TRACKED_SESSIONS

def evictStaleSessions (s : St) : St :=
  { s with sessions := (s.sessions.take (overflow s)).filter (fun e => !evictable s e) ++ s.sessions.drop (overflow s) }

def state (s : St) (key : String) : St :=
  match find s key with
  | some _ => s
  | none => evictStaleSessions { s with sessions := s.sessions ++ [(key, none)] }

def sessionLock (s : St) (key : String) : St × Nat :=
  let s := state s key
  match find s key with
  | some (_, some id) => (s, id)
  | _ =>
    ({ s with sessions := s.sessions.map fun e => if e.1 = key then (key, some s.nextLock) else e
              nextLock := s.nextLock + 1 }, s.nextLock)

def onLock (s : St) (id : Nat) (f : AsyncLock Visit → AsyncLock Visit) : St :=
  { s with locks := Function.update s.locks id (f (s.locks id)) }

def resetSession (s : St) (key : String) : St :=
  match find s key with
  | some e => if isLocked s e then s else { s with sessions := s.sessions.filter fun e => e.1 ≠ key }
  | none => s

inductive Ev where
  | state (key : String)
  | sessionLock (key : String)
  | enterLease (n : Nat) (key : String)
  | enterLock (n id : Nat)
  | resume (v : Visit) (id : Nat)
  | cancel (v : Visit) (id : Nat)
  | leave (v : Visit) (id : Nat)
  | resetSession (key : String)

def step (s : St) : Ev → St
  | .state key => state s key
  | .sessionLock key => (sessionLock s key).1
  | .enterLease n key =>
    let v : Visit := ⟨n, some key⟩
    if v ∈ s.visits then s
    else
      let (s, id) := sessionLock s key
      { onLock s id (AsyncLock.acquire · v) with visits := v :: s.visits }
  | .enterLock n id =>
    let v : Visit := ⟨n, none⟩
    if v ∈ s.visits ∨ s.nextLock ≤ id then s
    else { onLock s id (AsyncLock.acquire · v) with visits := v :: s.visits }
  | .resume v id => onLock s id (AsyncLock.resume · v)
  | .cancel v id => onLock s id (AsyncLock.cancel · v)
  | .leave v id => onLock s id (AsyncLock.release · v)
  | .resetSession key => resetSession s key

/-- `v` is between `acquire` and `release` of a `compaction_lease(key)`. -/
def InLease (s : St) (key : String) (v : Visit) : Prop := v.key = some key ∧ ∃ id, v ∈ (s.locks id).holders

/-! ## The states an event drops -/

def evicted (s : St) (key : String) : List (String × Option Nat) :=
  match find s key with
  | some _ => []
  | none =>
    let s := { s with sessions := s.sessions ++ [(key, none)] }
    (s.sessions.take (overflow s)).filter fun e => evictable s e

def dropped (s : St) : Ev → List (String × Option Nat)
  | .state key => evicted s key
  | .sessionLock key => evicted s key
  | .enterLease _ key => evicted s key
  | .resetSession key => s.sessions.filter fun e => e.1 = key && !isLocked s e
  | _ => []

/-- No lease waits for the lock of a state the event drops. -/
def Calm (s : St) (e : Ev) : Prop :=
  ∀ entry ∈ dropped s e, ∀ id ∈ entry.2, ∀ w ∈ (s.locks id).waiters, w.live = true → w.task.key = none

/-! ## Invariant -/

structure Inv (s : St) : Prop where
  keys : (s.sessions.map Prod.fst).Nodup
  exclusive : ∀ id, (s.locks id).Exclusive
  /-- Whoever is in a lease, or may come to be, uses the lock its key has now. -/
  registered : ∀ id v key, (s.locks id).Involved v → v.key = some key → (key, some id) ∈ s.sessions

variable {key : String} {s : St}

theorem find_mem {e : String × Option Nat} (h : find s key = some e) :
    e ∈ s.sessions ∧ e.1 = key :=
  ⟨List.mem_of_find?_eq_some h, by simpa using List.find?_some h⟩

theorem find_none (h : find s key = none) : ∀ e ∈ s.sessions, e.1 ≠ key := by
  simpa [find] using h

/-- A key has one state. -/
theorem entry_unique {es : List (String × Option Nat)} (h : (es.map Prod.fst).Nodup) {a b : String × Option Nat}
    (ha : a ∈ es) (hb : b ∈ es) (hk : a.1 = b.1) : a = b := List.inj_on_of_nodup_map h ha hb hk

theorem evictStaleSessions_sublist (s : St) : (evictStaleSessions s).sessions.Sublist s.sessions := by
  conv_rhs => rw [← List.take_append_drop (overflow s) s.sessions]
  exact List.filter_sublist.append_right _

theorem state_keys (h : (s.sessions.map Prod.fst).Nodup) (key : String) :
    ((state s key).sessions.map Prod.fst).Nodup := by
  unfold state
  split
  · exact h
  · rename_i hf
    refine ((evictStaleSessions_sublist _).map Prod.fst).nodup ?_
    rw [List.map_append, List.nodup_append]
    refine ⟨h, by simp, ?_⟩
    intro a ha b hb hab
    obtain ⟨e, he, rfl⟩ := List.mem_map.mp ha
    exact find_none hf e he (by simpa [hab] using hb)

theorem state_locks (s : St) (key : String) : (state s key).locks = s.locks := by
  unfold state evictStaleSessions
  split
  · rfl
  · rfl

/-- A state survives `_state`, unless it is evicted. -/
theorem mem_state {e : String × Option Nat} (he : e ∈ s.sessions) :
    e ∈ (state s key).sessions ∨ e ∈ evicted s key := by
  unfold state evicted
  cases find s key with
  | some _ => exact Or.inl he
  | none =>
    simp only [evictStaleSessions]
    have hmem : e ∈ s.sessions ++ [(key, none)] := List.mem_append_left _ he
    rw [← List.take_append_drop (overflow { s with sessions := s.sessions ++ [(key, none)] }) (s.sessions ++ [(key, none)])] at hmem
    rcases List.mem_append.mp hmem with hm | hm
    · cases hv : evictable { s with sessions := s.sessions ++ [(key, none)] } e with
      | true => exact Or.inr (List.mem_filter.mpr ⟨hm, hv⟩)
      | false => exact Or.inl (List.mem_append_left _ (List.mem_filter.mpr ⟨hm, by simp [hv]⟩))
    · exact Or.inl (List.mem_append_right _ hm)

/-- Nobody in a lease, or live in its queue, has an unlocked lock that nobody waits for. -/
theorem not_dropped (h : Inv s) {id : Nat} {v : Visit} (hi : (s.locks id).Involved v)
    (hk : v.key = some key) (hfree : (s.locks id).locked = false)
    (hcalm : ∀ w ∈ (s.locks id).waiters, w.live = true → w.task.key = none) : False := by
  rcases hi with hi | ⟨w, hw, hl, rfl⟩
  · rw [(h.exclusive id).free hfree] at hi
    cases hi
  · rw [hcalm w hw hl] at hk
    cases hk

theorem state_inv (h : Inv s)
    (hcalm : ∀ e ∈ evicted s key, ∀ id ∈ e.2, ∀ w ∈ (s.locks id).waiters, w.live = true → w.task.key = none) :
    Inv (state s key) := by
  refine ⟨state_keys h.keys key, by rw [state_locks]; exact h.exclusive, ?_⟩
  intro id v k hi hk
  rw [state_locks] at hi
  rcases mem_state (h.registered id v k hi hk) with hm | hm
  · exact hm
  · have hfree : (s.locks id).locked = false := by
      unfold evicted at hm
      split at hm
      · simp at hm
      · have := (List.mem_filter.mp hm).2
        simp only [evictable, isLocked, Bool.and_eq_true, Bool.not_eq_true'] at this
        exact this.2
    exact (not_dropped h hi hk hfree (hcalm _ hm id rfl)).elim

/-- The state `session_lock` returns the lock of. -/
theorem sessionLock_mem (s : St) (key : String) (hin : find (state s key) key ≠ none) :
    (key, some (sessionLock s key).2) ∈ (sessionLock s key).1.sessions := by
  unfold sessionLock
  simp only
  split
  · rename_i k id hf
    obtain ⟨hm, hk⟩ := find_mem hf
    simp only at hk
    subst hk
    exact hm
  · rename_i hf
    cases he : find (state s key) key with
    | none => exact absurd he hin
    | some e =>
      obtain ⟨hm, hk⟩ := find_mem he
      refine List.mem_map.mpr ⟨e, hm, ?_⟩
      rw [if_pos hk]

/-- `_state` leaves a state for its key: the newest entries are never evicted. -/
theorem find_state (s : St) (key : String) : find (state s key) key ≠ none := by
  unfold state
  split
  · rename_i e he
    rw [he]
    simp
  · intro hn
    refine find_none hn (key, none) ?_ rfl
    unfold evictStaleSessions overflow MAX_TRACKED_SESSIONS
    simp only
    refine List.mem_append_right _ ?_
    rw [List.drop_append_of_le_length (by simp)]
    simp

theorem sessionLock_locks (s : St) (key : String) : (sessionLock s key).1.locks = s.locks := by
  unfold sessionLock
  simp only
  split <;> exact state_locks s key

theorem sessionLock_inv (h : Inv s)
    (hcalm : ∀ e ∈ evicted s key, ∀ id ∈ e.2, ∀ w ∈ (s.locks id).waiters, w.live = true → w.task.key = none) :
    Inv (sessionLock s key).1 := by
  have h1 := state_inv h hcalm
  refine ⟨?_, by rw [sessionLock_locks]; exact h.exclusive, ?_⟩
  · unfold sessionLock
    simp only
    split
    · exact h1.keys
    · simp only [List.map_map]
      have hsame : (Prod.fst ∘ fun e : String × Option Nat => if e.1 = key then (key, some (state s key).nextLock) else e) =
          Prod.fst := by
        funext e
        simp only [Function.comp]
        split
        · rename_i he
          exact he.symm
        · rfl
      rw [hsame]
      exact h1.keys
  · intro id v k hi hk
    rw [sessionLock_locks, ← state_locks s key] at hi
    have hm := h1.registered id v k hi hk
    unfold sessionLock
    simp only
    split
    · exact hm
    · rename_i hf
      refine List.mem_map.mpr ⟨(k, some id), hm, ?_⟩
      -- the key's own state has a lock if a lease uses it
      have hne : k ≠ key := by
        rintro rfl
        cases he : find (state s k) k with
        | none => exact find_state s k he
        | some e =>
          obtain ⟨hem, hek⟩ := find_mem he
          have := entry_unique h1.keys hem hm hek
          subst this
          exact hf k id he
      simp [hne]

theorem onLock_inv (h : Inv s) (id : Nat) {f : AsyncLock Visit → AsyncLock Visit} (hex : (f (s.locks id)).Exclusive)
    (hreg : ∀ v key, (f (s.locks id)).Involved v → v.key = some key → (key, some id) ∈ s.sessions) :
    Inv (onLock s id f) := by
  refine ⟨h.keys, ?_, ?_⟩
  · intro i
    by_cases hi : i = id
    · subst hi
      simpa [onLock] using hex
    · simpa [onLock, hi] using h.exclusive i
  · intro i v key hv hk
    by_cases hi : i = id
    · subst hi
      simp only [onLock, Function.update_self] at hv
      exact hreg v key hv hk
    · simp only [onLock, Function.update_of_ne hi] at hv
      exact h.registered i v key hv hk

theorem resetSession_inv (h : Inv s) (hcalm : Calm s (.resetSession key)) :
    Inv (resetSession s key) := by
  unfold resetSession
  split
  · rename_i e he
    obtain ⟨hem, hek⟩ := find_mem he
    split
    · exact h
    · rename_i hfree
      refine ⟨(List.filter_sublist.map Prod.fst).nodup h.keys, h.exclusive, ?_⟩
      intro id v k hi hk
      have hm := h.registered id v k hi hk
      refine List.mem_filter.mpr ⟨hm, ?_⟩
      by_contra hkey
      simp only [ne_eq, decide_not, Bool.not_eq_true', decide_eq_false_iff_not, not_not] at hkey
      have heq : e = (k, some id) := entry_unique h.keys hem hm (hek.trans hkey.symm)
      subst heq
      subst hkey
      have hdrop : (k, some id) ∈ dropped s (.resetSession k) := by
        refine List.mem_filter.mpr ⟨hm, ?_⟩
        simpa using hfree
      exact not_dropped h hi hk (by simpa [isLocked] using hfree) (hcalm (k, some id) hdrop id rfl)
  · exact h

theorem step_inv {e : Ev} (h : Inv s) (hcalm : Calm s e) : Inv (step s e) := by
  cases e with
  | state key => exact state_inv h hcalm
  | sessionLock key => exact sessionLock_inv h hcalm
  | enterLease n key =>
    simp only [step]
    split
    · exact h
    · have h1 := sessionLock_inv h hcalm
      have hm := sessionLock_mem s key (find_state s key)
      have h2 : Inv (onLock (sessionLock s key).1 (sessionLock s key).2 (AsyncLock.acquire · ⟨n, some key⟩)) := by
        refine onLock_inv h1 _ ((h1.exclusive _).acquire _) ?_
        intro v k hv hk
        rcases hv.of_acquire with rfl | hv
        · cases hk
          exact hm
        · exact h1.registered _ v k hv hk
      exact ⟨h2.keys, h2.exclusive, h2.registered⟩
  | enterLock n id =>
    simp only [step]
    split
    · exact h
    · have h2 : Inv (onLock s id (AsyncLock.acquire · ⟨n, none⟩)) := by
        refine onLock_inv h _ ((h.exclusive _).acquire _) ?_
        intro v k hv hk
        rcases hv.of_acquire with rfl | hv
        · cases hk
        · exact h.registered _ v k hv hk
      exact ⟨h2.keys, h2.exclusive, h2.registered⟩
  | resume v id =>
    exact onLock_inv h id (f := AsyncLock.resume (t := v)) ((h.exclusive id).resume v) fun x k hx hk => h.registered id x k hx.of_resume hk
  | cancel v id =>
    exact onLock_inv h id (f := AsyncLock.cancel (t := v)) ((h.exclusive id).cancel v) fun x k hx hk => h.registered id x k hx.of_cancel hk
  | leave v id =>
    exact onLock_inv h id (f := AsyncLock.release (t := v)) ((h.exclusive id).release v) fun x k hx hk => h.registered id x k hx.of_release hk
  | resetSession key => exact resetSession_inv h hcalm

theorem inv_init : Inv init :=
  ⟨by simp [init], fun _ => AsyncLock.exclusive_new, by
    intro id v key hv _
    rcases hv with hv | ⟨w, hw, _⟩
    · simp [init] at hv
    · simp [init] at hw⟩

/-! ## Mutual exclusion -/

/-- In a run whose dropped states leave no lease waiting, one visitor is in a session's lease at most. -/
theorem one_in_lease {s : St} (h : Reach step Calm init s) {key : String} {a b : Visit} (ha : InLease s key a)
    (hb : InLease s key b) : a = b := by
  have hinv := h.invariant inv_init fun _ _ => step_inv
  obtain ⟨hka, i, hia⟩ := ha
  obtain ⟨hkb, j, hjb⟩ := hb
  have hi := hinv.registered i a key (Or.inl hia) hka
  have hj := hinv.registered j b key (Or.inl hjb) hkb
  have hij : i = j := by simpa using entry_unique hinv.keys hi hj rfl
  subst hij
  exact (hinv.exclusive i).unique hia hjb

instance (s : St) (e : Ev) : Decidable (Calm s e) :=
  inferInstanceAs (Decidable (∀ entry ∈ dropped s e, ∀ id ∈ entry.2, ∀ w ∈ (s.locks id).waiters,
    w.live = true → w.task.key = none))

def handover : List Ev :=
  [.enterLease 1 "web:1", .enterLease 2 "web:1", .leave ⟨1, some "web:1"⟩ 0, .resume ⟨2, some "web:1"⟩ 0]

theorem handover_reached : Reach step Calm init (handover.foldl step init) :=
  .foldl handover init .start (by decide)

theorem handover_waiter_in_lease : InLease (handover.foldl step init) "web:1" ⟨2, some "web:1"⟩ := ⟨rfl, 0, by decide⟩

theorem handover_excludes_first : ¬ InLease (handover.foldl step init) "web:1" ⟨1, some "web:1"⟩ := by
  intro h
  have := one_in_lease handover_reached h handover_waiter_in_lease
  simp at this

/-- The conversation is reset between the release and the wake-up of the first waiter. -/
def resetInHandover : List Ev :=
  [.enterLease 1 "web:1", .enterLease 2 "web:1", .leave ⟨1, some "web:1"⟩ 0, .resetSession "web:1",
    .enterLease 3 "web:1", .resume ⟨2, some "web:1"⟩ 0]

/-- Two tasks are in the session's lease: the waiter has the dropped lock, the newcomer a new one. -/
theorem reset_between_release_and_wakeup : InLease (resetInHandover.foldl step init) "web:1" ⟨2, some "web:1"⟩ ∧
    InLease (resetInHandover.foldl step init) "web:1" ⟨3, some "web:1"⟩ :=
  ⟨⟨rfl, 0, by decide⟩, ⟨rfl, 1, by decide⟩⟩

end Flowly.Compaction.SessionLock
