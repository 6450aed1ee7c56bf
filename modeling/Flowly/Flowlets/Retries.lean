/-
  Flowly.Flowlets.Retries — the operation ids of `apply_action`
  (`flowly/flowlets/actions.py`: `apply_action`; `flowly/flowlets/store.py`: `claim_op`,
  `release_op`).

  An id is claimed before the action and released when anything raises. The row of the id
  stands for the one call with it that has not failed.

  Proved: while the row is kept, the values resolve and the process lives, one call with the
  id at most has not failed, and an answer `duplicate` is about that one
  (`retried_tap_applied_once`). A call whose values do not resolve is committed all the same,
  and its id is free for the next try (`a_tap_counts_twice`).
-/

import Flowly.Flowlets.Calls
import Mathlib.Data.List.Sort

namespace Flowly.Flowlets

open Flowly.Lib

/-! ## The rows that are kept -/

/-- A row is kept while it is of the last day and at most as many as are kept, itself
    included, are as new. -/
theorem mem_keptOps {now : Int} {ops : List (String × Int)} {o : String × Int} (ho : o ∈ ops) (hday : now - opTtlMs ≤ o.2)
    (hnew : ops.countP (fun r => o.2 ≤ r.2) ≤ opsKept) : o ∈ keptOps now ops := by
  have hperm := List.mergeSort_perm ops fun a b => decide (b.2 ≤ a.2)
  have hsorted : (ops.mergeSort fun a b => decide (b.2 ≤ a.2)).Pairwise fun a b => decide (b.2 ≤ a.2) = true := by
    refine List.pairwise_mergeSort ?_ ?_ ops
    · intro a b c hab hbc
      simp only [decide_eq_true_eq] at hab hbc ⊢
      omega
    · intro a b
      simp only [Bool.or_eq_true, decide_eq_true_eq]
      omega
  have hsplit := List.take_append_drop opsKept (ops.mergeSort fun a b => decide (b.2 ≤ a.2))
  suffices hin : o ∈ (ops.mergeSort fun a b => decide (b.2 ≤ a.2)).take opsKept from
    List.mem_filter.2 ⟨ho, decide_eq_true ⟨hday, hin⟩⟩
  by_contra hout
  have hdrop : o ∈ (ops.mergeSort fun a b => decide (b.2 ≤ a.2)).drop opsKept := by
    have hmem : o ∈ ops.mergeSort fun a b => decide (b.2 ≤ a.2) := hperm.mem_iff.2 ho
    rw [← hsplit] at hmem
    exact (List.mem_append.1 hmem).resolve_left hout
  -- All that are taken are as new, and so is the row itself.
  rw [← hsplit] at hsorted
  obtain ⟨_, _, hle⟩ := List.pairwise_append.1 hsorted
  have htaken : ((ops.mergeSort fun a b => decide (b.2 ≤ a.2)).take opsKept).countP (fun r => o.2 ≤ r.2) = opsKept := by
    have hlen : opsKept < (ops.mergeSort fun a b => decide (b.2 ≤ a.2)).length := by
      by_contra hshort
      rw [List.drop_eq_nil_of_le (by omega)] at hdrop
      cases hdrop
    rw [List.countP_eq_length.2 fun r hr => hle r hr o hdrop, List.length_take]
    omega
  have hrest : 0 < ((ops.mergeSort fun a b => decide (b.2 ≤ a.2)).drop opsKept).countP (fun r => o.2 ≤ r.2) :=
    List.countP_pos_iff.2 ⟨o, hdrop, by simp⟩
  have hcount := hperm.countP_eq fun r => decide (o.2 ≤ r.2)
  rw [← hsplit, List.countP_append] at hcount
  omega

theorem of_mem_keptOps {now : Int} {ops : List (String × Int)} {o : String × Int} (h : o ∈ keptOps now ops) : o ∈ ops :=
  (List.mem_filter.1 h).1

variable (host : Host) (label : String → Option String) (d : Json) (find : String → Option Json) (runner : Bool)

/-! ## One id -/

/-- The key a row of the id has. -/
def rowKey (opId : String) : String := cut 128 opId

/-- The claim of an id shares its row with no other id, and leaves the row of this one. -/
def Leaves (opId : String) (w : Flowlet) : Event → Prop
  | .tap _ _ (some given) envs _ =>
    given ≠ "" → ¬ w.duplicate (some given) →
      (rowKey given = rowKey opId → given = opId) ∧
        ∀ o ∈ (rowKey given, (envs 0).now) :: w.ops, o.1 = rowKey opId →
          (envs 0).now - opTtlMs ≤ o.2 ∧ ((rowKey given, (envs 0).now) :: w.ops).countP (fun r => o.2 ≤ r.2) ≤ opsKept
  | _ => True

def Resolves (opId : String) (w : Flowlet) (e : Event) : Prop :=
  ∀ w' c es now, stretch host label d find runner w e = some (w', c, es, .done, now) → c.opId = some (rowKey opId) →
    (host.resolveValues d ((w'.record (some c.id) es).finished c now).rows now).isOk

def Survives (opId : String) (w : Flowlet) : Event → Prop
  | .die => ∀ c ∈ w.calls, c.opId ≠ some (rowKey opId)
  | _ => True

/-- A step that keeps the id to its action. -/
def Keeps (opId : String) (w : Flowlet) (e : Event) : Prop :=
  Leaves opId w e ∧ Resolves host label d find runner opId w e ∧ Survives opId w e

/-- The row is there just for the one call that has not failed, which waits or is done. -/
structure Claimed (opId : String) (w : Flowlet) : Prop where
  one : ∀ i j, (i, opId) ∈ w.taps → (j, opId) ∈ w.taps → i ∉ w.failed → j ∉ w.failed → i = j
  row : rowKey opId ∈ w.ops.map (·.1) ↔ ∃ i, (i, opId) ∈ w.taps ∧ i ∉ w.failed
  going : ∀ i, (i, opId) ∈ w.taps → i ∉ w.failed → i ∈ w.applied ∨ ∃ c ∈ w.calls, c.id = i
  key : ∀ c ∈ w.calls, (c.opId = some (rowKey opId) ↔ (c.id, opId) ∈ w.taps)
  alive : ∀ c ∈ w.calls, c.id ∉ w.failed
  ids : (w.calls.map (·.id)).Nodup
  call_lt : ∀ c ∈ w.calls, c.id < w.nextCall
  tap_lt : ∀ t ∈ w.taps, t.1 < w.nextCall
  failed_lt : ∀ i ∈ w.failed, i < w.nextCall

namespace Claimed

variable {opId : String} {w : Flowlet}

variable {ops : List (String × Int)}

theorem init {base : Rows} (h : rowKey opId ∉ ops.map (·.1)) : Claimed opId { rows := base, ops } where
  one _ _ hi := absurd hi List.not_mem_nil
  row := ⟨fun hk => absurd hk h, fun ⟨_, hi, _⟩ => absurd hi List.not_mem_nil⟩
  going _ hi := absurd hi List.not_mem_nil
  key := List.forall_mem_nil _
  alive := List.forall_mem_nil _
  ids := List.nodup_nil
  call_lt := List.forall_mem_nil _
  tap_lt := List.forall_mem_nil _
  failed_lt := List.forall_mem_nil _

theorem mem_release {given : Option String} {k : String} :
    k ∈ (w.release given).ops.map (·.1) ↔ k ∈ w.ops.map (·.1) ∧ some k ≠ given := by
  show k ∈ (w.ops.filter fun o => some o.1 ≠ given).map (·.1) ↔ _
  simp only [List.mem_map, List.mem_filter, decide_eq_true_eq]
  constructor
  · intro ⟨o, ⟨ho, hne⟩, hk⟩
    exact ⟨⟨o, ho, hk⟩, hk ▸ hne⟩
  · intro ⟨⟨o, ho, hk⟩, hne⟩
    exact ⟨o, ⟨ho, hk ▸ hne⟩, hk⟩

/-- The release of another id. -/
theorem release (h : Claimed opId w) {given : Option String} (hne : given ≠ some (rowKey opId)) : Claimed opId (w.release given) :=
  { h with row := mem_release.trans ((and_iff_left (Ne.symm hne)).trans h.row) }

/-- A write of the rows and of the log. -/
theorem record (h : Claimed opId w) (call : Option Nat) (es : List Effect) : Claimed opId (w.record call es) :=
  { h with }

variable {c : Call}

/-- A call fails: its row, if it has one, goes with it. -/
theorem fail (h : Claimed opId { w with calls := c :: w.calls }) :
    Claimed opId { w.release c.opId with failed := c.id :: w.failed } := by
  have hself := h.key c List.mem_cons_self
  have hout : ∀ c' ∈ w.calls, c'.id ≠ c.id := by
    intro c' hc' heq
    exact (List.nodup_cons.1 h.ids).1 (List.mem_map.2 ⟨c', hc', heq⟩)
  refine ⟨?_, ?_, ?_, fun c' hc' => h.key c' (List.mem_cons_of_mem _ hc'), ?_, (List.nodup_cons.1 h.ids).2,
    fun c' hc' => h.call_lt c' (List.mem_cons_of_mem _ hc'), h.tap_lt, ?_⟩
  · intro i j hi hj hif hjf
    exact h.one i j hi hj (fun hin => hif (List.mem_cons_of_mem _ hin)) fun hin => hjf (List.mem_cons_of_mem _ hin)
  · constructor
    · intro hk
      obtain ⟨hk, hne⟩ := mem_release.1 hk
      obtain ⟨i, hi, hif⟩ := h.row.1 hk
      refine ⟨i, hi, ?_⟩
      intro hin
      rcases List.mem_cons.1 hin with rfl | hin
      · exact hne (hself.2 hi).symm
      · exact hif hin
    · intro ⟨i, hi, hif⟩
      have hlive : i ∉ w.failed := fun hin => hif (List.mem_cons_of_mem _ hin)
      refine mem_release.2 ⟨h.row.2 ⟨i, hi, hlive⟩, ?_⟩
      intro heq
      -- The call would be the one that has not failed.
      have hic := h.one i c.id hi (hself.1 heq.symm) hlive (h.alive c List.mem_cons_self)
      exact hif (hic ▸ List.mem_cons_self)
  · intro i hi hif
    rcases h.going i hi fun hin => hif (List.mem_cons_of_mem _ hin) with hin | ⟨c', hc', hid⟩
    · exact .inl hin
    · rcases List.mem_cons.1 hc' with rfl | hc'
      · exact absurd (hid ▸ List.mem_cons_self) hif
      · exact .inr ⟨c', hc', hid⟩
  · intro c' hc' hin
    rcases List.mem_cons.1 hin with heq | hin
    · exact hout c' hc' heq
    · exact h.alive c' (List.mem_cons_of_mem _ hc') hin
  · intro i hi
    rcases List.mem_cons.1 hi with rfl | hi
    · exact h.call_lt c List.mem_cons_self
    · exact h.failed_lt i hi

/-- A call is done: the row stays. -/
theorem finished (h : Claimed opId { w with calls := c :: w.calls }) (now : Int) : Claimed opId (w.finished c now) := by
  refine ⟨h.one, h.row, ?_, fun c' hc' => h.key c' (List.mem_cons_of_mem _ hc'), fun c' hc' => h.alive c' (List.mem_cons_of_mem _ hc'),
    (List.nodup_cons.1 h.ids).2, fun c' hc' => h.call_lt c' (List.mem_cons_of_mem _ hc'), h.tap_lt, h.failed_lt⟩
  intro i hi hif
  rcases h.going i hi hif with hin | ⟨c', hc', hid⟩
  · exact .inl (List.mem_cons_of_mem _ hin)
  · rcases List.mem_cons.1 hc' with rfl | hc'
    · exact .inl (hid ▸ List.mem_cons_self)
    · exact .inr ⟨c', hc', hid⟩

/-- The end of a stretch. -/
theorem settle (h : Claimed opId { w with calls := c :: w.calls }) (es : List Effect) (fin : End) (now : Int)
    (hres : fin = .done → c.opId = some (rowKey opId) →
      (host.resolveValues d ((w.record (some c.id) es).finished c now).rows now).isOk) :
    Claimed opId (w.settle host d c es fin now) := by
  have hrec : Claimed opId { w.record (some c.id) es with calls := c :: (w.record (some c.id) es).calls } := h.record (some c.id) es
  cases fin with
  | raised x =>
    have hfail := hrec.fail
    exact { hfail with }
  | awaiting rest =>
    refine ⟨h.one, h.row, ?_, ?_, ?_, h.ids, ?_, h.tap_lt, h.failed_lt⟩
    · intro i hi hif
      rcases h.going i hi hif with hin | ⟨c', hc', hid⟩
      · exact .inl hin
      · rcases List.mem_cons.1 hc' with rfl | hc'
        · exact .inr ⟨{ c' with rest }, List.mem_cons_self, hid⟩
        · exact .inr ⟨c', List.mem_cons_of_mem _ hc', hid⟩
    all_goals
      intro c' hc'
      rcases List.mem_cons.1 hc' with rfl | hc'
    · exact h.key c List.mem_cons_self
    · exact h.key c' (List.mem_cons_of_mem _ hc')
    · exact h.alive c List.mem_cons_self
    · exact h.alive c' (List.mem_cons_of_mem _ hc')
    · exact h.call_lt c List.mem_cons_self
    · exact h.call_lt c' (List.mem_cons_of_mem _ hc')
  | done =>
    have hdone := hrec.finished now
    dsimp only [Flowlet.settle]
    split
    · exact hdone
    · next hx =>
      refine hdone.release ?_
      intro hk
      have hok := hres rfl hk
      rw [hx] at hok
      cases hok

/-- A call with the next number is like none before. -/
theorem newcomer (h : Claimed opId w) (hid : c.id = w.nextCall) :
    (∀ c' ∈ c :: w.calls, c'.id ∉ w.failed) ∧ ((c :: w.calls).map (·.id)).Nodup ∧ ∀ c' ∈ c :: w.calls, c'.id < w.nextCall + 1 := by
  refine ⟨?_, List.nodup_cons.2 ⟨?_, h.ids⟩, ?_⟩
  · intro c' hc' hin
    rcases List.mem_cons.1 hc' with rfl | hc'
    · have hlt := h.failed_lt _ hin
      omega
    · exact h.alive c' hc' hin
  · intro hin
    obtain ⟨c', hc', heq⟩ := List.mem_map.1 hin
    have hlt := h.call_lt c' hc'
    have heq' : c'.id = c.id := heq
    omega
  · intro c' hc'
    rcases List.mem_cons.1 hc' with rfl | hc'
    · omega
    · exact Nat.lt_succ_of_lt (h.call_lt c' hc')

/-- A fresh call of another id, or of none. -/
theorem pass (h : Claimed opId w) (hid : c.id = w.nextCall) {taps : List (Nat × String)}
    (htaps : ∀ t ∈ taps, t.1 = w.nextCall ∧ t.2 ≠ opId) (hkey : c.opId ≠ some (rowKey opId))
    (hrow : rowKey opId ∈ ops.map (·.1) ↔ rowKey opId ∈ w.ops.map (·.1)) :
    Claimed opId { w with nextCall := w.nextCall + 1, taps := taps ++ w.taps, ops, calls := c :: w.calls } := by
  have hold : ∀ i, (i, opId) ∈ taps ++ w.taps ↔ (i, opId) ∈ w.taps := by
    intro i
    constructor
    · intro hi
      rcases List.mem_append.1 hi with hi | hi
      · exact absurd rfl (htaps _ hi).2
      · exact hi
    · exact fun hi => List.mem_append_right _ hi
  have hnew : (c.id, opId) ∉ w.taps := by
    intro hi
    have hlt := h.tap_lt _ hi
    rw [hid] at hlt
    omega
  obtain ⟨halive, hids, hcalls⟩ := h.newcomer hid
  refine ⟨?_, ?_, ?_, ?_, halive, hids, hcalls, ?_, fun i hi => Nat.lt_succ_of_lt (h.failed_lt i hi)⟩
  · intro i j hi hj
    exact h.one i j ((hold i).1 hi) ((hold j).1 hj)
  · refine hrow.trans (h.row.trans (exists_congr fun i => and_congr_left fun _ => (hold i).symm))
  · intro i hi hif
    rcases h.going i ((hold i).1 hi) hif with hin | ⟨c', hc', hid'⟩
    · exact .inl hin
    · exact .inr ⟨c', List.mem_cons_of_mem _ hc', hid'⟩
  · intro c' hc'
    rcases List.mem_cons.1 hc' with rfl | hc'
    · exact ⟨fun hk => absurd hk hkey, fun hi => absurd ((hold _).1 hi) hnew⟩
    · exact (h.key c' hc').trans (hold c'.id).symm
  · intro t ht
    rcases List.mem_append.1 ht with ht | ht
    · show t.1 < w.nextCall + 1
      have heq := (htaps t ht).1
      omega
    · exact Nat.lt_succ_of_lt (h.tap_lt t ht)

/-- A fresh call of the id: none is left that has not failed. -/
theorem enter (h : Claimed opId w) (hid : c.id = w.nextCall) (hkey : c.opId = some (rowKey opId))
    (hfresh : rowKey opId ∉ w.ops.map (·.1)) (hrow : rowKey opId ∈ ops.map (·.1)) :
    Claimed opId { w with nextCall := w.nextCall + 1, taps := (w.nextCall, opId) :: w.taps, ops, calls := c :: w.calls } := by
  have hnone : ∀ i, (i, opId) ∈ (w.nextCall, opId) :: w.taps → i ∉ w.failed → i = w.nextCall := by
    intro i hi hif
    rcases List.mem_cons.1 hi with heq | hi
    · exact congrArg Prod.fst heq
    · exact absurd (h.row.2 ⟨i, hi, hif⟩) hfresh
  have hnew : w.nextCall ∉ w.failed := fun hin => Nat.lt_irrefl _ (h.failed_lt _ hin)
  obtain ⟨halive, hids, hcalls⟩ := h.newcomer hid
  refine ⟨?_, ?_, ?_, ?_, halive, hids, hcalls, ?_, fun i hi => Nat.lt_succ_of_lt (h.failed_lt i hi)⟩
  · intro i j hi hj hif hjf
    exact (hnone i hi hif).trans (hnone j hj hjf).symm
  · exact ⟨fun _ => ⟨w.nextCall, List.mem_cons_self, hnew⟩, fun _ => hrow⟩
  · intro i hi hif
    exact .inr ⟨c, List.mem_cons_self, hid.trans (hnone i hi hif).symm⟩
  · intro c' hc'
    rcases List.mem_cons.1 hc' with rfl | hc'
    · exact ⟨fun _ => hid ▸ List.mem_cons_self, fun _ => hkey⟩
    · refine (h.key c' hc').trans ⟨fun hi => List.mem_cons_of_mem _ hi, fun hi => ?_⟩
      rcases List.mem_cons.1 hi with heq | hi
      · have hlt := h.call_lt c' hc'
        have heq' := congrArg Prod.fst heq
        exact absurd heq' (Nat.ne_of_lt hlt)
      · exact hi
  · intro t ht
    rcases List.mem_cons.1 ht with rfl | ht
    · exact Nat.lt_succ_self _
    · exact Nat.lt_succ_of_lt (h.tap_lt t ht)

theorem start_opId (componentId : String) (passed : Json) (given : Option String) (envs : Nat → Env) (cal : Calendar) :
    (start host label d find runner w componentId passed given envs cal).1.opId = opKey given := by
  unfold start
  dsimp only
  split
  · rfl
  · split_ifs
    · split <;> rfl
    all_goals rfl

theorem start_id (componentId : String) (passed : Json) (given : Option String) (envs : Nat → Env) (cal : Calendar) :
    (start host label d find runner w componentId passed given envs cal).1.id = w.nextCall :=
  (start_spec host label d find runner w componentId passed given envs cal).id

/-- The claim of a call that is no duplicate. -/
theorem claim (h : Claimed opId w) {componentId : String} {passed : Json} {given : Option String} {envs : Nat → Env} {cal : Calendar}
    (hfresh : ¬ w.duplicate given) (hleaves : Leaves opId w (.tap componentId passed given envs cal))
    (hid : c.id = w.nextCall) (hkey : c.opId = opKey given) :
    Claimed opId { w.claim given (envs 0).now with calls := c :: w.calls } := by
  cases hg : given.filter (· ≠ "") with
  | none =>
    have hnone : opKey given = none := by unfold opKey; rw [hg]; rfl
    have hcl : w.claim given (envs 0).now = { w with nextCall := w.nextCall + 1, taps := [] ++ w.taps, ops := w.ops } := by
      unfold Flowlet.claim
      rw [hg, hnone]
      rfl
    rw [hcl]
    refine h.pass hid (List.forall_mem_nil _) ?_ Iff.rfl
    rw [hkey, hnone]
    exact fun hk => (by cases hk)
  | some g =>
    have hkey' : opKey given = some (rowKey g) := by unfold opKey; rw [hg]; rfl
    obtain ⟨rfl, hne⟩ : given = some g ∧ g ≠ "" := by
      have hf := Option.filter_eq_some_iff.1 hg
      exact ⟨hf.1, by simpa using hf.2⟩
    have hout : rowKey g ∉ w.ops.map (·.1) := fun hin => hfresh ⟨rowKey g, hkey', hin⟩
    obtain ⟨hsame, hkept⟩ := hleaves hne hfresh
    have hcl : w.claim (some g) (envs 0).now =
        { w with nextCall := w.nextCall + 1, taps := [(w.nextCall, g)] ++ w.taps,
                 ops := keptOps (envs 0).now ((rowKey g, (envs 0).now) :: w.ops) } := by
      unfold Flowlet.claim
      rw [hg, hkey']
      rfl
    have hstays : rowKey opId ∈ ((rowKey g, (envs 0).now) :: w.ops).map (·.1) →
        rowKey opId ∈ (keptOps (envs 0).now ((rowKey g, (envs 0).now) :: w.ops)).map (·.1) := by
      intro hin
      obtain ⟨o, ho, hok⟩ := List.mem_map.1 hin
      obtain ⟨hday, hnew⟩ := hkept o ho hok
      exact List.mem_map.2 ⟨o, mem_keptOps ho hday hnew, hok⟩
    rw [hcl]
    by_cases heq : g = opId
    · subst heq
      exact h.enter hid (hkey.trans hkey') hout (hstays List.mem_cons_self)
    · have hne' : rowKey g ≠ rowKey opId := fun hk => heq (hsame hk)
      refine h.pass hid ?_ ?_ ?_
      · intro t ht
        rw [List.mem_singleton.1 ht]
        exact ⟨rfl, heq⟩
      · rw [hkey, hkey']
        exact fun hk => hne' (Option.some.inj hk)
      · constructor
        · intro hin
          obtain ⟨o, ho, hok⟩ := List.mem_map.1 hin
          rcases List.mem_cons.1 (of_mem_keptOps ho) with rfl | ho
          · exact absurd hok hne'
          · exact List.mem_map.2 ⟨o, ho, hok⟩
        · exact fun hin => hstays (List.mem_cons_of_mem _ hin)

/-- A call that goes on comes first. -/
theorem leave (h : Claimed opId w) {call : Nat} (hf : w.calls.find? (·.id = call) = some c) :
    Claimed opId { w with calls := c :: w.calls.filter (·.id ≠ call) } := by
  have hin : c ∈ w.calls := List.mem_of_find?_eq_some hf
  have hid : c.id = call := by simpa using List.find?_some hf
  have hsub : ∀ c' ∈ c :: w.calls.filter (·.id ≠ call), c' ∈ w.calls := by
    intro c' hc'
    rcases List.mem_cons.1 hc' with rfl | hc'
    · exact hin
    · exact (List.mem_filter.1 hc').1
  refine ⟨h.one, h.row, ?_, fun c' hc' => h.key c' (hsub c' hc'), fun c' hc' => h.alive c' (hsub c' hc'), ?_,
    fun c' hc' => h.call_lt c' (hsub c' hc'), h.tap_lt, h.failed_lt⟩
  · intro i hi hif
    rcases h.going i hi hif with hin' | ⟨c', hc', hid'⟩
    · exact .inl hin'
    · refine .inr ?_
      by_cases hc : c'.id = call
      · exact ⟨c, List.mem_cons_self, by omega⟩
      · exact ⟨c', List.mem_cons_of_mem _ (List.mem_filter.2 ⟨hc', by simpa using hc⟩), hid'⟩
  · refine List.nodup_cons.2 ⟨?_, (List.filter_sublist.map _).nodup h.ids⟩
    intro hin'
    obtain ⟨c', hc', heq⟩ := List.mem_map.1 hin'
    have hne := (List.mem_filter.1 hc').2
    rw [decide_eq_true_eq] at hne
    have heq' : c'.id = c.id := heq
    omega

/-- The call of a stretch is one of those that run. -/
theorem stretched (h : Claimed opId w) {e : Event} (hleaves : Leaves opId w e) {w' : Flowlet} {es : List Effect} {fin : End}
    {now : Int} (hst : stretch host label d find runner w e = some (w', c, es, fin, now)) :
    Claimed opId { w' with calls := c :: w'.calls } := by
  cases e with
  | tap componentId passed given envs cal =>
    simp only [stretch] at hst
    split_ifs at hst with hdup
    cases hst
    exact h.claim hdup hleaves (start_id host label d find runner componentId passed given envs cal)
      (start_opId host label d find runner componentId passed given envs cal)
  | resume call outcome envs =>
    simp only [stretch] at hst
    cases hf : w.calls.find? (·.id = call) with
    | none =>
      rw [hf] at hst
      cases hst
    | some c' =>
      rw [hf] at hst
      cases outcome with
      | error x =>
        cases hst
        exact h.leave hf
      | ok _ =>
        cases hst
        exact h.leave hf
  | outside es => cases hst
  | die => cases hst

theorem next (h : Claimed opId w) {e : Event} (hk : Keeps host label d find runner opId w e) :
    Claimed opId (step host label d find runner w e) := by
  obtain ⟨hleaves, hres, hlive⟩ := hk
  unfold step
  cases hst : stretch host label d find runner w e with
  | none =>
    cases e with
    | outside es => exact h.record none es
    | die =>
      refine ⟨h.one, h.row, ?_, List.forall_mem_nil _, List.forall_mem_nil _, List.nodup_nil,
        List.forall_mem_nil _, h.tap_lt, h.failed_lt⟩
      intro i hi hif
      rcases h.going i hi hif with hin | ⟨c, hc, hid⟩
      · exact .inl hin
      · exact absurd ((h.key c hc).2 (hid ▸ hi)) (hlive c hc)
    | tap componentId passed given envs cal => exact h
    | resume call outcome envs => exact h
  | some str =>
    obtain ⟨w', c, es, fin, now⟩ := str
    refine (h.stretched host label d find runner hleaves hst).settle host d es fin now ?_
    intro hfin hkey
    refine hres w' c es now ?_ hkey
    rw [hst, hfin]

end Claimed

/-- While the steps keep the id, one call with it at most has not failed, and it is a duplicate only of that one. -/
theorem retried_tap_applied_once {opId : String} {base : Rows} {ops : List (String × Int)} (hops : rowKey opId ∉ ops.map (·.1))
    {w : Flowlet} (hr : Reach (step host label d find runner) (Keeps host label d find runner opId) { rows := base, ops } w) :
    (∀ i j, (i, opId) ∈ w.taps → (j, opId) ∈ w.taps → i ∉ w.failed → j ∉ w.failed → i = j) ∧
      (w.duplicate (some opId) → ∃ i, (i, opId) ∈ w.taps ∧ i ∉ w.failed ∧ (i ∈ w.applied ∨ ∃ c ∈ w.calls, c.id = i)) := by
  have hclaimed : Claimed opId w := by
    refine hr.invariant ?_ fun _ e hi hk => hi.next host label d find runner hk
    exact Claimed.init hops
  refine ⟨hclaimed.one, ?_⟩
  intro ⟨k, hk, hin⟩
  have hrow : k = rowKey opId := by
    unfold opKey at hk
    cases hf : (some opId).filter (· ≠ "") with
    | none =>
      rw [hf] at hk
      cases hk
    | some g =>
      rw [hf] at hk
      rw [← Option.some.inj (Option.filter_eq_some_iff.1 hf).1] at hk
      exact (Option.some.inj hk).symm
  obtain ⟨i, hi, hif⟩ := hclaimed.row.1 (hrow ▸ hin)
  exact ⟨i, hi, hif, hclaimed.going i hi hif⟩

theorem resolves_iff {opId : String} {w : Flowlet} {e : Event} :
    Resolves host label d find runner opId w e ↔ match stretch host label d find runner w e with
      | some (w', c, es, .done, now) =>
        c.opId = some (rowKey opId) → (host.resolveValues d ((w'.record (some c.id) es).finished c now).rows now).isOk
      | _ => True := by
  constructor
  · intro h
    split
    · next hst => exact h _ _ _ _ hst
    · exact trivial
  · intro h w' c es now hst
    rw [hst] at h
    exact h

instance (opId : String) (w : Flowlet) (e : Event) : Decidable (Resolves host label d find runner opId w e) :=
  have : Decidable (match stretch host label d find runner w e with
      | some (w', c, es, .done, now) =>
        c.opId = some (rowKey opId) → (host.resolveValues d ((w'.record (some c.id) es).finished c now).rows now).isOk
      | _ => True) := by
    rcases stretch host label d find runner w e with _ | ⟨w', c, es, fin, now⟩
    · exact inferInstanceAs (Decidable True)
    · cases fin <;> dsimp only <;> infer_instance
  decidable_of_iff' _ (resolves_iff host label d find runner)

instance (opId : String) (w : Flowlet) : (e : Event) → Decidable (Leaves opId w e)
  | .tap _ _ (some _) _ _ => inferInstanceAs (Decidable (_ → _ → _ ∧ _))
  | .tap _ _ none _ _ | .resume _ _ _ | .outside _ | .die => inferInstanceAs (Decidable True)

instance (opId : String) (w : Flowlet) : (e : Event) → Decidable (Survives opId w e)
  | .die => inferInstanceAs (Decidable (∀ c ∈ w.calls, _))
  | .tap _ _ _ _ _ | .resume _ _ _ | .outside _ => inferInstanceAs (Decidable True)

instance (opId : String) (w : Flowlet) (e : Event) : Decidable (Keeps host label d find runner opId w e) :=
  inferInstanceAs (Decidable (_ ∧ _))

namespace Sample

def retried : Flowlet := [tap "ask" (some "a") 0, fails 0 1, tap "ask" (some "a") 2, tap "ask" (some "a") 3].foldl sampleStep {}

theorem retried_tap_applied_once_ask :
    (∀ i j, (i, "a") ∈ retried.taps → (j, "a") ∈ retried.taps → i ∉ retried.failed → j ∉ retried.failed → i = j) ∧
      (retried.duplicate (some "a") →
        ∃ i, (i, "a") ∈ retried.taps ∧ i ∉ retried.failed ∧ (i ∈ retried.applied ∨ ∃ c ∈ retried.calls, c.id = i)) := by
  have hr : Reach sampleStep (Keeps plain (fun _ => none) definition components true "a") {} retried := by
    refine Reach.foldl _ _ .start ?_
    decide +kernel
  exact retried_tap_applied_once plain (fun _ => none) definition components true List.not_mem_nil hr

/-- The flowlet has a computed value that overflows when `y` is beyond 308. -/
def overflowing : Host :=
  { plain with resolveValues := fun _ r _ =>
      if 308 < ((r.get? "y").bind Json.num?).getD 0 then .error (.other "OverflowError") else .ok [] }

abbrev overflowingStep (components : String → Option Json) : Flowlet → Event → Flowlet :=
  step overflowing (fun _ => none) definition components true

/-- One button counts `y` up by 400. -/
def leap : String → Option Json
  | "leap" => some (button (.obj [("op", .str "increment"), ("key", .str "y"), ("by", .num 400)]))
  | _ => none

end Sample

/-- `y` is counted up, the values do not resolve, and the same tap counts it up again. -/
theorem a_tap_counts_twice :
    ¬ ∀ w, Reach (Sample.overflowingStep Sample.leap) (Leaves "a") {} w →
        ∀ i j, (i, "a") ∈ w.taps → (j, "a") ∈ w.taps → i ∉ w.failed → j ∉ w.failed → i = j := by
  intro h
  have hr : Reach (Sample.overflowingStep Sample.leap) (Leaves "a") {}
      ([Sample.tap "leap" (some "a") 0, Sample.tap "leap" (some "a") 1].foldl (Sample.overflowingStep Sample.leap) {}) := by
    refine Reach.foldl _ _ .start ?_
    decide +kernel
  have hsame := h _ hr 0 1 (by decide +kernel) (by decide +kernel) (by decide +kernel) (by decide +kernel)
  cases hsame

end Flowly.Flowlets
