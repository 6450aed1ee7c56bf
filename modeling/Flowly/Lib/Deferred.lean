/-
  Flowly.Lib.Deferred — a map that is filled in passes: each entry is evaluated against the
  values so far, and one that looks at a value that is not there yet waits for a later pass.

  A `Step` fills in any one entry that evaluates, so a run of passes goes by steps as far as
  these lead (`run_spec`).

  Proved: some order of the entries comes to an entry at the values of any path (`exists_order`);
  where no entry that can be evaluated would come out otherwise after another one, all orders
  give the same (`Commutes.run_eq`), and an entry whose uses lead to no cycle comes out as it
  does when each entry is evaluated after all that it uses (`evaluates_of_acyclic`).
-/

import Mathlib.Data.List.Nodup
import Mathlib.Data.List.Perm.Subperm

namespace Flowly.Lib.Deferred

open Relation

/-- Why an entry has no value: it looks at one that is not there, or it fails. -/
inductive Fault where
  | waits
  | raises

abbrev Values (κ ν : Type) := κ → Option ν

/-- What an entry evaluates to, and the keys that it may look at. -/
structure Evaluator (κ σ ν : Type) [DecidableEq κ] where
  eval : σ → Values κ ν → Except Fault ν
  uses : σ → List κ
  congr : ∀ spec {s t : Values κ ν}, (∀ k ∈ uses spec, s k = t k) → eval spec s = eval spec t

variable {κ σ ν : Type} [DecidableEq κ]

namespace Evaluator

variable (E : Evaluator κ σ ν)

/-- One pass over the pending entries: those that still wait, and the values; none where an entry fails. -/
def pass : List (κ × σ) → Values κ ν → Option (List (κ × σ) × Values κ ν)
  | [], s => some ([], s)
  | e :: rest, s =>
    match E.eval e.2 s with
    | .ok v => pass rest (Function.update s e.1 (some v))
    | .error .waits => (pass rest s).map fun r => (e :: r.1, r.2)
    | .error .raises => none

/-- At most `n` passes, as long as each one fills in something. -/
def passes : Nat → List (κ × σ) → Values κ ν → Option (List (κ × σ) × Values κ ν)
  | 0, p, s => some (p, s)
  | n + 1, p, s =>
    if p.isEmpty then some (p, s)
    else (E.pass p s).bind fun r => if r.1.length < p.length then passes n r.1 r.2 else some r

/-- The values after one pass more than there are entries. -/
def run (es : List (κ × σ)) (start : Values κ ν) : Option (Values κ ν) := (E.passes (es.length + 1) es start).map (·.2)

/-- One entry is evaluated; nothing is left of the values where it fails. -/
inductive Step (es : List (κ × σ)) : Option (Values κ ν) → Option (Values κ ν) → Prop
  | fills {s : Values κ ν} {e : κ × σ} {v : ν} (mem : e ∈ es) (new : s e.1 = none) (ok : E.eval e.2 s = .ok v) :
      Step es (some s) (some (Function.update s e.1 (some v)))
  | fails {s : Values κ ν} {e : κ × σ} (mem : e ∈ es) (new : s e.1 = none) (bad : E.eval e.2 s = .error .raises) :
      Step es (some s) none

abbrev Path (es : List (κ × σ)) := ReflTransGen (E.Step es)

def Done (es : List (κ × σ)) (s : Values κ ν) : Prop := ∀ e ∈ es, s e.1 = none → E.eval e.2 s = .error .waits

/-! ## Passes are steps -/

structure Pending (es p : List (κ × σ)) (s : Values κ ν) : Prop where
  nodup : p.Nodup
  mem_iff : ∀ e, e ∈ p ↔ e ∈ es ∧ s e.1 = none

variable {E} {es p kept l : List (κ × σ)} {s t start m : Values κ ν} {e : κ × σ} {r : List (κ × σ) × Values κ ν}

omit [DecidableEq κ] in
theorem eq_of_key (hes : (es.map Prod.fst).Nodup) {e e' : κ × σ} (he : e ∈ es) (he' : e' ∈ es) (h : e.1 = e'.1) : e = e' :=
  List.inj_on_of_nodup_map hes he he' h

omit [DecidableEq κ] in
theorem Pending.perm {p' : List (κ × σ)} (h : Pending es p s) (hp : p'.Perm p) : Pending es p' s :=
  ⟨hp.nodup_iff.2 h.nodup, fun e => hp.mem_iff.trans (h.mem_iff e)⟩

omit [DecidableEq κ] in
theorem Pending.init (hes : (es.map Prod.fst).Nodup) (fresh : ∀ e ∈ es, start e.1 = none) : Pending es es start :=
  ⟨List.Nodup.of_map _ hes, fun e => ⟨fun he => ⟨he, fresh e he⟩, fun h => h.1⟩⟩

theorem Pending.filled (hes : (es.map Prod.fst).Nodup) (h : Pending es (e :: p) s) (v : ν) :
    Pending es p (Function.update s e.1 (some v)) := by
  obtain ⟨hnot, hnd⟩ := List.nodup_cons.1 h.nodup
  have he := (h.mem_iff e).1 List.mem_cons_self
  refine ⟨hnd, fun e' => ⟨fun he' => ?_, fun ⟨he', hnone⟩ => ?_⟩⟩
  · obtain ⟨hmem, hnone⟩ := (h.mem_iff e').1 (List.mem_cons_of_mem _ he')
    have hne : e'.1 ≠ e.1 := fun hk => hnot (eq_of_key hes hmem he.1 hk ▸ he')
    exact ⟨hmem, by rw [Function.update_of_ne hne, hnone]⟩
  · by_cases hk : e'.1 = e.1
    · rw [hk, Function.update_self] at hnone
      cases hnone
    · rw [Function.update_of_ne hk] at hnone
      rcases List.mem_cons.1 ((h.mem_iff e').2 ⟨he', hnone⟩) with heq | hp
      · exact absurd (congrArg Prod.fst heq) hk
      · exact hp

/-- A pass goes by steps; the entries that wait stand behind those that it has come by already. -/
theorem pass_spec (hes : (es.map Prod.fst).Nodup) (h : Pending es (p ++ kept) s) :
    (E.pass p s = none → E.Path es (some s) none) ∧
      ∀ r, E.pass p s = some r → E.Path es (some s) (some r.2) ∧ Pending es (r.1 ++ kept) r.2 := by
  induction p generalizing kept s with
  | nil =>
    refine ⟨nofun, ?_⟩
    rintro r ⟨⟩
    exact ⟨.refl, h⟩
  | cons e rest ih =>
    obtain ⟨hmem, hnew⟩ := (h.mem_iff e).1 (by simp)
    unfold pass
    split
    · next v hok =>
      have hstep : E.Step es (some s) (some (Function.update s e.1 (some v))) := .fills hmem hnew hok
      obtain ⟨hnone, hsome⟩ := ih (h.filled hes v)
      exact ⟨fun hp => .head hstep (hnone hp), fun r hp => ⟨.head hstep (hsome r hp).1, (hsome r hp).2⟩⟩
    · next hwait =>
      obtain ⟨hnone, hsome⟩ := ih (h.perm List.perm_middle)
      refine ⟨fun hp => hnone (Option.map_eq_none_iff.1 hp), fun r hp => ?_⟩
      obtain ⟨r', hr', rfl⟩ := Option.map_eq_some_iff.1 hp
      exact ⟨(hsome r' hr').1, (hsome r' hr').2.perm List.perm_middle.symm⟩
    · next hbad => exact ⟨fun _ => .single (.fails hmem hnew hbad), nofun⟩

/-- A pass after which as many wait has done nothing. -/
theorem pass_stuck (h : E.pass p s = some r) :
    r.1.length ≤ p.length ∧ (r.1.length = p.length → r = (p, s) ∧ ∀ e ∈ p, E.eval e.2 s = .error .waits) := by
  induction p generalizing s r with
  | nil =>
    cases h
    exact ⟨Nat.le_refl _, fun _ => ⟨rfl, nofun⟩⟩
  | cons e rest ih =>
    unfold pass at h
    split at h
    · have hle := (ih h).1
      exact ⟨Nat.le_succ_of_le hle, fun heq => absurd heq (by simp only [List.length_cons]; omega)⟩
    · next hwait =>
      obtain ⟨r', hr', rfl⟩ := Option.map_eq_some_iff.1 h
      obtain ⟨hle, hstuck⟩ := ih hr'
      refine ⟨Nat.succ_le_succ hle, fun heq => ?_⟩
      obtain ⟨rfl, hall⟩ := hstuck (Nat.succ.inj heq)
      exact ⟨rfl, List.forall_mem_cons.2 ⟨hwait, hall⟩⟩
    · cases h

theorem Pending.done (h : Pending es p s) (hw : ∀ e ∈ p, E.eval e.2 s = .error .waits) : E.Done es s :=
  fun e he hnew => hw e ((h.mem_iff e).2 ⟨he, hnew⟩)

theorem passes_spec (hes : (es.map Prod.fst).Nodup) {n : Nat} (hn : p.length < n) (h : Pending es p s) :
    (E.passes n p s = none → E.Path es (some s) none) ∧
      ∀ r, E.passes n p s = some r → E.Path es (some s) (some r.2) ∧ E.Done es r.2 := by
  induction n generalizing p s with
  | zero => omega
  | succ n ih =>
    unfold passes
    split
    · next hp =>
      refine ⟨nofun, ?_⟩
      rintro r ⟨⟩
      exact ⟨.refl, h.done (by simp [List.isEmpty_iff.1 hp])⟩
    · obtain ⟨hnone, hsome⟩ := pass_spec (E := E) hes (by rwa [List.append_nil])
      cases hpass : E.pass p s with
      | none => exact ⟨fun _ => hnone hpass, nofun⟩
      | some r =>
        obtain ⟨hpath, hpend⟩ := hsome r hpass
        obtain ⟨hle, hstuck⟩ := pass_stuck hpass
        rw [List.append_nil] at hpend
        rw [Option.bind_some]
        split
        · next hlt =>
          obtain ⟨hn', hs'⟩ := ih (by omega) hpend
          exact ⟨fun hp => hpath.trans (hn' hp), fun r' hp => ⟨hpath.trans (hs' r' hp).1, (hs' r' hp).2⟩⟩
        · next hlt =>
          obtain ⟨rfl, hw⟩ := hstuck (by omega)
          refine ⟨nofun, ?_⟩
          rintro _ ⟨⟩
          exact ⟨hpath, h.done hw⟩

/-- A run of the entries in any order goes by steps to an end. -/
theorem run_spec (hes : (es.map Prod.fst).Nodup) (fresh : ∀ e ∈ es, start e.1 = none) (hp : p.Perm es) :
    (E.run p start = none → E.Path es (some start) none) ∧
      ∀ s, E.run p start = some s → E.Path es (some start) (some s) ∧ E.Done es s := by
  obtain ⟨hnone, hsome⟩ := passes_spec (E := E) hes (Nat.lt_succ_self p.length) ((Pending.init hes fresh).perm hp)
  refine ⟨fun h => hnone (Option.map_eq_none_iff.1 h), fun s h => ?_⟩
  obtain ⟨r, hr, rfl⟩ := Option.map_eq_some_iff.1 h
  exact hsome r hr

/-! ## Steps that commute -/

variable (E) in
/-- Wherever one entry can be filled in, another one that can be evaluated comes out the same after it. -/
def Commutes (es : List (κ × σ)) (start : Values κ ν) : Prop :=
  ∀ s, E.Path es (some start) (some s) → ∀ e ∈ es, ∀ e' ∈ es, e.1 ≠ e'.1 → s e.1 = none → s e'.1 = none →
    ∀ v, E.eval e.2 s = .ok v → E.eval e'.2 s ≠ .error .waits →
      E.eval e'.2 (Function.update s e.1 (some v)) = E.eval e'.2 s

theorem Commutes.diamond (hes : (es.map Prod.fst).Nodup) (hc : E.Commutes es start) {a b c : Option (Values κ ν)}
    (ha : E.Path es (some start) a) (hb : E.Step es a b) (hc' : E.Step es a c) :
    ∃ d, ReflGen (E.Step es) b d ∧ ReflTransGen (E.Step es) c d := by
  cases hb with
  | @fills s e v mem new ok =>
    cases hc' with
    | @fills _ e' v' mem' new' ok' =>
      by_cases hk : e.1 = e'.1
      · cases eq_of_key hes mem mem' hk
        cases ok.symm.trans ok'
        exact ⟨_, .refl, .refl⟩
      · refine ⟨some (Function.update (Function.update s e.1 (some v)) e'.1 (some v')), .single (.fills mem' ?_ ?_), .single ?_⟩
        · rw [Function.update_of_ne (Ne.symm hk), new']
        · rw [hc s ha e mem e' mem' hk new new' v ok (by simp [ok']), ok']
        · rw [Function.update_comm hk]
          refine .fills mem ?_ ?_
          · rw [Function.update_of_ne hk, new]
          · rw [hc s ha e' mem' e mem (Ne.symm hk) new' new v' ok' (by simp [ok]), ok]
    | @fails _ e' mem' new' bad =>
      have hk : e.1 ≠ e'.1 := fun hk => by
        cases eq_of_key hes mem mem' hk
        cases ok.symm.trans bad
      refine ⟨none, .single (.fails mem' ?_ ?_), .refl⟩
      · rw [Function.update_of_ne (Ne.symm hk), new']
      · rw [hc s ha e mem e' mem' hk new new' v ok (by simp [bad]), bad]
  | @fails s e mem new bad =>
    cases hc' with
    | @fills _ e' v' mem' new' ok' =>
      have hk : e'.1 ≠ e.1 := fun hk => by
        cases eq_of_key hes mem' mem hk
        cases ok'.symm.trans bad
      refine ⟨none, .refl, .single (.fails mem ?_ ?_)⟩
      · rw [Function.update_of_ne (Ne.symm hk), new]
      · rw [hc s ha e' mem' e mem hk new' new v' ok' (by simp [bad]), bad]
    | fails => exact ⟨none, .refl, .refl⟩

/-- The two ends of steps that commute can be brought together. -/
theorem Commutes.join (hes : (es.map Prod.fst).Nodup) (hc : E.Commutes es start) {b c : Option (Values κ ν)}
    (hb : E.Path es (some start) b) (hc' : E.Path es (some start) c) : Join (ReflTransGen (E.Step es)) b c := by
  -- the steps from where the start leads, since the steps commute only there
  let R := fun a a' => E.Path es (some start) a ∧ E.Step es a a'
  have hR : ∀ {a a'}, E.Path es (some start) a → E.Path es a a' → ReflTransGen R a a' := fun ha h => by
    induction h with
    | refl => exact .refl
    | tail hpath hstep ih => exact ih.tail ⟨ha.trans hpath, hstep⟩
  have hback : ∀ {a a'}, ReflTransGen R a a' → E.Path es a a' := fun h => ReflTransGen.mono (fun _ _ hr => hr.2) _ _ h
  obtain ⟨d, hbd, hcd⟩ := church_rosser (r := R) (fun a b c hab hac => by
    obtain ⟨d, hbd, hcd⟩ := hc.diamond hes hab.1 hab.2 hac.2
    refine ⟨d, ?_, hR (hac.1.tail hac.2) hcd⟩
    cases hbd with
    | refl => exact .refl
    | single hstep => exact .single ⟨hab.1.tail hab.2, hstep⟩) (hR .refl hb) (hR .refl hc')
  exact ⟨d, hback hbd, hback hcd⟩

theorem Done.path_eq (h : E.Done es s) {c : Option (Values κ ν)} (hp : E.Path es (some s) c) : c = some s := by
  rcases hp.cases_head with heq | ⟨b, hstep, -⟩
  · exact heq.symm
  · cases hstep with
    | fills mem new ok => cases (h _ mem new).symm.trans ok
    | fails mem new bad => cases (h _ mem new).symm.trans bad

theorem path_none {c : Option (Values κ ν)} (hp : E.Path es none c) : c = none := by
  rcases hp.cases_head with heq | ⟨b, hstep, -⟩
  · exact heq.symm
  · cases hstep

/-- Every way to an end leads there. -/
theorem Commutes.path_done (hes : (es.map Prod.fst).Nodup) (hc : E.Commutes es start) (hm : E.Path es (some start) (some m))
    (hd : E.Done es m) {c : Option (Values κ ν)} (h : E.Path es (some start) c) : E.Path es c (some m) := by
  obtain ⟨d, hcd, hmd⟩ := hc.join hes h hm
  exact hd.path_eq hmd ▸ hcd

/-! ## Orders -/

theorem pass_keeps (h : E.pass p s = some r) : r.1.Sublist p ∧ ∀ k, k ∉ p.map Prod.fst → r.2 k = s k := by
  induction p generalizing s r with
  | nil =>
    cases h
    exact ⟨.refl _, fun _ _ => rfl⟩
  | cons e rest ih =>
    unfold pass at h
    split at h
    · obtain ⟨hsub, hkeep⟩ := ih h
      refine ⟨hsub.cons e, fun k hk => ?_⟩
      rw [List.map_cons, List.mem_cons, not_or] at hk
      rw [hkeep k hk.2, Function.update_of_ne hk.1]
    · obtain ⟨r', hr', rfl⟩ := Option.map_eq_some_iff.1 h
      obtain ⟨hsub, hkeep⟩ := ih hr'
      exact ⟨hsub.cons_cons e, fun k hk => hkeep k fun hin => hk (List.mem_cons_of_mem _ hin)⟩
    · cases h

theorem passes_keeps {n : Nat} (h : E.passes n p s = some r) {k : κ} (hk : k ∉ p.map Prod.fst) : r.2 k = s k := by
  induction n generalizing p s with
  | zero =>
    cases h
    rfl
  | succ n ih =>
    unfold passes at h
    split at h
    · cases h
      rfl
    · obtain ⟨r', hr', h⟩ := Option.bind_eq_some_iff.1 h
      obtain ⟨hsub, hkeep⟩ := pass_keeps hr'
      split at h
      · rw [ih h fun hin => hk ((hsub.map _).subset hin), hkeep k hk]
      · cases h
        exact hkeep k hk

/-- The entries that a path fills in, in its order: a pass that begins with them goes the same way. -/
structure Along (E : Evaluator κ σ ν) (es l : List (κ × σ)) (start s : Values κ ν) : Prop where
  nodup : l.Nodup
  mem : ∀ e ∈ l, e ∈ es ∧ s e.1 ≠ none
  pass_eq : ∀ rest, E.pass (l ++ rest) start = E.pass rest s

theorem Along.snoc (h : Along E es l start s) (mem : e ∈ es) (new : s e.1 = none) {v : ν} (ok : E.eval e.2 s = .ok v) :
    Along E es (l ++ [e]) start (Function.update s e.1 (some v)) := by
  refine ⟨?_, fun e' he' => ?_, fun rest => ?_⟩
  · refine List.nodup_append.2 ⟨h.nodup, List.nodup_singleton e, fun a ha b hb => ?_⟩
    rintro rfl
    rw [List.mem_singleton.1 hb] at ha
    exact (h.mem e ha).2 new
  · by_cases hk : e'.1 = e.1
    · rcases List.mem_append.1 he' with hl | he
      · exact ⟨(h.mem e' hl).1, by simp [hk]⟩
      · exact ⟨List.mem_singleton.1 he ▸ mem, by simp [hk]⟩
    · rw [Function.update_of_ne hk]
      rcases List.mem_append.1 he' with hl | he
      · exact h.mem e' hl
      · exact absurd (congrArg Prod.fst (List.mem_singleton.1 he)) hk
  · rw [List.append_assoc, h.pass_eq, List.singleton_append, pass, ok]

theorem exists_along (h : E.Path es (some start) (some s)) : ∃ l, Along E es l start s := by
  generalize hc : some s = c at h
  induction h generalizing s with
  | refl =>
    cases hc
    exact ⟨[], List.nodup_nil, nofun, fun _ => rfl⟩
  | tail hpath hstep ih =>
    subst hc
    cases hstep with
    | fills mem new ok =>
      obtain ⟨l, hl⟩ := ih rfl
      exact ⟨_, hl.snoc mem new ok⟩

/-- There is an order that goes along a path and then comes to an entry. -/
theorem Along.order (h : Along E es l start s) (mem : e ∈ es) (new : s e.1 = none) : ∃ rest, (l ++ e :: rest).Perm es := by
  have hnd : (e :: l).Nodup := List.nodup_cons.2 ⟨fun he => (h.mem e he).2 new, h.nodup⟩
  have hsub : (e :: l).Subperm es := List.Nodup.subperm hnd (List.forall_mem_cons.2 ⟨mem, fun e' he' => (h.mem e' he').1⟩)
  obtain ⟨l', hl', hes⟩ := hsub
  obtain ⟨rest, hrest⟩ := hes.exists_perm_append
  exact ⟨rest, (List.perm_middle.trans ((hl'.symm.append_right rest))).trans hrest.symm⟩

/-- What an order gives an entry that it comes to when the entry need not wait. -/
theorem Along.run_at (h : Along E es l start s) {rest : List (κ × σ)} (hrest : e.1 ∉ rest.map Prod.fst)
    (hm : E.run (l ++ e :: rest) start = some m) (hw : E.eval e.2 s ≠ .error .waits) :
    ∃ v, E.eval e.2 s = .ok v ∧ m e.1 = some v := by
  obtain ⟨r, hr, rfl⟩ := Option.map_eq_some_iff.1 hm
  unfold passes at hr
  rw [if_neg (by simp), h.pass_eq, pass] at hr
  match hev : E.eval e.2 s with
  | .error .waits => exact absurd hev hw
  | .error .raises =>
    rw [hev] at hr
    cases hr
  | .ok v =>
    rw [hev] at hr
    obtain ⟨r', hr', hr⟩ := Option.bind_eq_some_iff.1 hr
    obtain ⟨hsub, hkeep⟩ := pass_keeps hr'
    refine ⟨v, rfl, ?_⟩
    have hval : r'.2 e.1 = some v := by rw [hkeep _ hrest, Function.update_self]
    split at hr
    · rw [passes_keeps hr fun hin => hrest ((hsub.map _).subset hin), hval]
    · cases hr
      exact hval

/-- Some order comes to an entry when the values are those of a path. -/
theorem exists_order (hes : (es.map Prod.fst).Nodup) (hs : E.Path es (some start) (some s)) (mem : e ∈ es) (new : s e.1 = none)
    (hw : E.eval e.2 s ≠ .error .waits) :
    ∃ p, p.Perm es ∧ ∀ m, E.run p start = some m → ∃ v, E.eval e.2 s = .ok v ∧ m e.1 = some v := by
  obtain ⟨l, hl⟩ := exists_along hs
  obtain ⟨rest, hperm⟩ := hl.order mem new
  refine ⟨_, hperm, fun m hm => hl.run_at (fun hin => ?_) hm hw⟩
  have hnd := (hperm.map Prod.fst).nodup_iff.2 hes
  rw [List.map_append, List.map_cons] at hnd
  exact (List.nodup_cons.1 (List.nodup_append.1 hnd).2.1).1 hin

/-- Where the steps commute, every order gives the same. -/
theorem Commutes.run_eq (hes : (es.map Prod.fst).Nodup) (fresh : ∀ e ∈ es, start e.1 = none) (hc : E.Commutes es start)
    (hm : E.run es start = some m) (hp : p.Perm es) : E.run p start = some m := by
  obtain ⟨hpath, hdone⟩ := (run_spec hes fresh (.refl es)).2 m hm
  obtain ⟨hnone, hsome⟩ := run_spec (E := E) hes fresh hp
  cases hrun : E.run p start with
  | none => cases path_none (hc.path_done hes hpath hdone (hnone hrun))
  | some s => exact ((hsome s hrun).2.path_eq (hc.path_done hes hpath hdone (hsome s hrun).1)).symm

/-! ## The order of the uses -/

variable (E) in
/-- A key comes out so, or waits forever, when each entry is evaluated after all that it uses. -/
inductive Evaluates (es : List (κ × σ)) (start : Values κ ν) : κ → Option ν → Prop
  | intro {e : κ × σ} {env : Values κ ν} {o : Option ν} (mem : e ∈ es)
      (given : ∀ k ∈ E.uses e.2, k ∉ es.map Prod.fst → env k = start k)
      (after : ∀ k ∈ E.uses e.2, k ∈ es.map Prod.fst → Evaluates es start k (env k))
      (val : E.eval e.2 env = o.elim (.error .waits) .ok) : Evaluates es start e.1 o

variable (E) in
def Uses (es : List (κ × σ)) (a b : κ) : Prop := a ∈ es.map Prod.fst ∧ ∃ e ∈ es, e.1 = b ∧ a ∈ E.uses e.2

variable (E) in
def Acyclic (es : List (κ × σ)) : κ → Prop := Acc (E.Uses es)

variable (E) in
inductive Ordered (es : List (κ × σ)) : List κ → Prop
  | nil : Ordered es []
  | cons {e : κ × σ} {ks : List κ} (tail : Ordered es ks) (mem : e ∈ es) (new : e.1 ∉ ks)
      (uses : ∀ k, E.Uses es k e.1 → k ∈ ks) : Ordered es (e.1 :: ks)

theorem Ordered.merge {ks ks' : List κ} (h : E.Ordered es ks) (h' : E.Ordered es ks') :
    ∃ qs, E.Ordered es qs ∧ ks ⊆ qs ∧ ks' ⊆ qs := by
  induction h' with
  | nil => exact ⟨ks, h, List.Subset.refl _, List.nil_subset _⟩
  | @cons e ks' tail mem new uses ih =>
    obtain ⟨qs, hqs, hl, hr⟩ := ih
    by_cases hin : e.1 ∈ qs
    · exact ⟨qs, hqs, hl, List.cons_subset.2 ⟨hin, hr⟩⟩
    · refine ⟨e.1 :: qs, .cons hqs mem hin fun k hk => hr (uses k hk), ?_, ?_⟩
      · exact fun k hk => List.mem_cons_of_mem _ (hl hk)
      · exact List.cons_subset.2 ⟨List.mem_cons_self, fun k hk => List.mem_cons_of_mem _ (hr hk)⟩

theorem exists_ordered_all {ks : List κ} (h : ∀ k ∈ ks, ∃ qs, E.Ordered es qs ∧ k ∈ qs) : ∃ qs, E.Ordered es qs ∧ ks ⊆ qs := by
  induction ks with
  | nil => exact ⟨[], .nil, List.nil_subset _⟩
  | cons k ks ih =>
    obtain ⟨hk, hks⟩ := List.forall_mem_cons.1 h
    obtain ⟨qs, hqs, hin⟩ := hk
    obtain ⟨qs', hqs', hsub⟩ := ih hks
    obtain ⟨all, hall, hl, hr⟩ := hqs.merge hqs'
    exact ⟨all, hall, List.cons_subset.2 ⟨hl hin, fun k hk => hr (hsub hk)⟩⟩

theorem exists_ordered (hes : (es.map Prod.fst).Nodup) {k : κ} (ha : E.Acyclic es k) (hk : k ∈ es.map Prod.fst) :
    ∃ ks, E.Ordered es ks ∧ k ∈ ks := by
  induction ha with
  | intro k _ ih =>
    obtain ⟨e, he, rfl⟩ := List.mem_map.1 hk
    let uses := (E.uses e.2).filter (· ∈ es.map Prod.fst)
    obtain ⟨ks, hks, hsub⟩ := exists_ordered_all (E := E) fun k hin => by
      obtain ⟨hin, hkey⟩ := List.mem_filter.1 hin
      exact ih k ⟨of_decide_eq_true hkey, e, he, rfl, hin⟩ (of_decide_eq_true hkey)
    by_cases hin : e.1 ∈ ks
    · exact ⟨ks, hks, hin⟩
    · refine ⟨e.1 :: ks, .cons hks he hin fun k hu => ?_, List.mem_cons_self⟩
      obtain ⟨hkey, e', he', hk', hmem⟩ := hu
      cases eq_of_key hes he' he hk'
      exact hsub (List.mem_filter.2 ⟨hmem, decide_eq_true hkey⟩)

/-- After these values a key keeps what it has, also when it has nothing. -/
def Final (E : Evaluator κ σ ν) (es : List (κ × σ)) (s : Values κ ν) (k : κ) : Prop :=
  ∀ t, E.Path es (some s) (some t) → t k = s k

theorem path_cases {motive : Values κ ν → Prop} (h : E.Path es (some s) (some t)) (base : motive s)
    (step : ∀ t, E.Path es (some s) (some t) → motive t → ∀ e ∈ es, t e.1 = none → ∀ v, E.eval e.2 t = .ok v →
      motive (Function.update t e.1 (some v))) : motive t := by
  generalize hc : some t = c at h
  induction h generalizing t with
  | refl =>
    cases hc
    exact base
  | tail hpath hstep ih =>
    subst hc
    cases hstep with
    | fills mem new ok => exact step _ hpath (ih rfl) _ mem new _ ok

/-- A value stays. -/
theorem final_of_some {k : κ} {v : ν} (h : s k = some v) : Final E es s k := fun t ht =>
  path_cases (motive := fun t => t k = s k) ht rfl fun t _ hk e _ hnew _ _ => by
    rw [Function.update_of_ne, hk]
    rintro rfl
    rw [hnew, h] at hk
    cases hk

/-- What is no entry's key stays. -/
theorem final_of_given {k : κ} (hk : k ∉ es.map Prod.fst) : Final E es s k := fun t ht =>
  path_cases (motive := fun t => t k = s k) ht rfl fun t _ hkeep e he _ _ _ => by
    rw [Function.update_of_ne, hkeep]
    rintro rfl
    exact hk (List.mem_map_of_mem he)

/-- An entry that waits for final values only waits forever. -/
theorem final_of_waits (hes : (es.map Prod.fst).Nodup) (he : e ∈ es) (hw : E.eval e.2 s = .error .waits)
    (huses : ∀ k ∈ E.uses e.2, Final E es s k) : Final E es s e.1 := fun t ht =>
  path_cases (motive := fun t => t e.1 = s e.1) ht rfl fun t ht hkeep e' he' hnew' v hok => by
    rw [Function.update_of_ne, hkeep]
    intro hk
    cases eq_of_key hes he he' hk
    rw [E.congr e.2 fun k hk => huses k hk t ht, hw] at hok
    cases hok

theorem Final.mono {k : κ} (h : Final E es s k) (hp : E.Path es (some s) (some t)) : Final E es t k :=
  fun u hu => (h u (hp.trans hu)).trans (h t hp).symm

/-- The values when the entries are evaluated in the order of their uses. -/
structure Reached (E : Evaluator κ σ ν) (es : List (κ × σ)) (start : Values κ ν) (ks : List κ) (s : Values κ ν) : Prop where
  path : E.Path es (some start) (some s)
  given : ∀ k, k ∉ es.map Prod.fst → s k = start k
  before : ∀ k ∈ ks, Final E es s k ∧ E.Evaluates es start k (s k)
  after : ∀ e ∈ es, e.1 ∉ ks → s e.1 = none

theorem Ordered.reached (hes : (es.map Prod.fst).Nodup) (fresh : ∀ e ∈ es, start e.1 = none)
    (hno : ¬ E.Path es (some start) none) {ks : List κ} (h : E.Ordered es ks) : ∃ s, Reached E es start ks s := by
  induction h with
  | nil => exact ⟨start, .refl, fun _ _ => rfl, nofun, fun e he _ => fresh e he⟩
  | @cons e ks tail mem new uses ih =>
    obtain ⟨s, hs⟩ := ih
    have hnew := hs.after e mem new
    have huses : ∀ k ∈ E.uses e.2, k ∈ es.map Prod.fst → k ∈ ks := fun k hk hkey => uses k ⟨hkey, e, mem, rfl, hk⟩
    have hfinal : ∀ k ∈ E.uses e.2, Final E es s k := fun k hk => by
      by_cases hkey : k ∈ es.map Prod.fst
      · exact (hs.before k (huses k hk hkey)).1
      · exact final_of_given hkey
    have hev : ∀ o : Option ν, E.eval e.2 s = o.elim (.error .waits) .ok → E.Evaluates es start e.1 o := fun o =>
      .intro mem (fun k _ hkey => hs.given k hkey) fun k hk hkey => (hs.before k (huses k hk hkey)).2
    match hval : E.eval e.2 s with
    | .ok v =>
      have hstep : E.Step es (some s) (some (Function.update s e.1 (some v))) := .fills mem hnew hval
      refine ⟨Function.update s e.1 (some v), hs.path.tail hstep, fun k hkey => ?_, fun k hk => ?_, fun e' he' hout => ?_⟩
      · rw [← hs.given k hkey, Function.update_of_ne]
        rintro rfl
        exact hkey (List.mem_map_of_mem mem)
      · rcases List.mem_cons.1 hk with rfl | hk
        · rw [Function.update_self]
          exact ⟨final_of_some (Function.update_self ..), hev (some v) hval⟩
        · have hne : k ≠ e.1 := fun heq => new (heq ▸ hk)
          rw [Function.update_of_ne hne]
          exact ⟨(hs.before k hk).1.mono (.single hstep), (hs.before k hk).2⟩
      · rw [List.mem_cons, not_or] at hout
        rw [Function.update_of_ne hout.1, hs.after e' he' hout.2]
    | .error .waits =>
      refine ⟨s, hs.path, hs.given, fun k hk => ?_, fun e' he' hout => hs.after e' he' fun hk => hout (List.mem_cons_of_mem _ hk)⟩
      rcases List.mem_cons.1 hk with rfl | hk
      · exact ⟨final_of_waits hes mem hval hfinal, hnew ▸ hev none hval⟩
      · exact hs.before k hk
    | .error .raises => exact absurd (hs.path.tail (.fails mem hnew hval)) hno

/-- Where the steps commute, a run gives an entry without a cycle what it has when it is evaluated after all that it uses. -/
theorem evaluates_of_acyclic (hes : (es.map Prod.fst).Nodup) (fresh : ∀ e ∈ es, start e.1 = none) (hc : E.Commutes es start)
    (hm : E.run es start = some m) {k : κ} (hk : k ∈ es.map Prod.fst) (ha : E.Acyclic es k) : E.Evaluates es start k (m k) := by
  obtain ⟨hpath, hdone⟩ := (run_spec hes fresh (.refl es)).2 m hm
  obtain ⟨ks, hks, hin⟩ := exists_ordered hes ha hk
  obtain ⟨s, hs⟩ := hks.reached hes fresh fun hno => by cases path_none (hc.path_done hes hpath hdone hno)
  obtain ⟨hfinal, hev⟩ := hs.before k hin
  rw [hfinal m (hc.path_done hes hpath hdone hs.path)]
  exact hev

end Evaluator

end Flowly.Lib.Deferred
