/-
  Flowly.Exec.Approvals — the exec policy file and the stores that cache it
  (`flowly/exec/approvals.py`: `ExecApprovalStore`).

  Actors. Any number of stores, in any number of processes, and a writer outside them
  that replaces the file. A store reads and writes under the file's lock; what it does
  before and after (the `exists`, the `stat`) is not under it, so each of those is a step
  of its own. The file may be found half-written: the writer truncates it first, and so
  does a store, which may die then.

  Proved: where every store reads a whole file, writes back a copy of what the file still
  holds, and can tell by the mtime that the file has changed, neither the file nor a policy
  just refreshed is more permissive than the last one that was written or approved
  (`tightening_stands`). A store that writes an old copy undoes a `deny`
  (`a_hit_undoes_a_deny`), and a half-written file is read as `full`.
-/

import Flowly.Lib.Reach

namespace Flowly.Exec.Approvals

open Flowly.Lib

inductive ExecSecurity where
  | deny
  | allowlist
  | full
  deriving DecidableEq

inductive ExecAsk where
  | off
  | onMiss
  | always
  deriving DecidableEq

structure AllowlistEntry where
  pattern : String
  lastUsedAt : Option Int := none
  lastUsedCommand : Option String := none
  lastResolvedPath : Option String := none
  deriving DecidableEq

structure ExecApprovalsConfig where
  version : Int := 1
  security : ExecSecurity := .full
  ask : ExecAsk := .off
  askFallback : ExecSecurity := .deny
  allowlist : List AllowlistEntry := []
  deriving DecidableEq

def ExecSecurity.rank : ExecSecurity → Nat
  | .deny => 0
  | .allowlist => 1
  | .full => 2

namespace ExecApprovalsConfig

def patterns (c : ExecApprovalsConfig) : List String := c.allowlist.map (·.pattern)

/-- `c` is no more permissive than `q`. -/
def Within (c q : ExecApprovalsConfig) : Prop := c.security.rank ≤ q.security.rank ∧ ∀ p ∈ c.patterns, p ∈ q.patterns

instance (c q : ExecApprovalsConfig) : Decidable (c.Within q) := inferInstanceAs (Decidable (_ ∧ _))

/-- Mark the first entry `f` picks as used; none when there is no such entry. -/
def use (f : AllowlistEntry → Bool) (mark : AllowlistEntry → AllowlistEntry) : List AllowlistEntry → Option (List AllowlistEntry)
  | [] => none
  | e :: es => if f e then some (mark e :: es) else (use f mark es).map (e :: ·)

/-- `check_allowlist`; `hits` is `fnmatch` with the home directory expanded. -/
def checkAllowlist (hits : String → String → Bool) (now : Int) (path : String) (c : ExecApprovalsConfig) : Option ExecApprovalsConfig :=
  (use (fun e => hits e.pattern path) (fun e => { e with lastUsedAt := some now, lastResolvedPath := some path }) c.allowlist).map
    fun l => { c with allowlist := l }

def addToAllowlist (now : Int) (pattern : String) (command path : Option String) (c : ExecApprovalsConfig) : ExecApprovalsConfig :=
  let mark (e : AllowlistEntry) : AllowlistEntry :=
    { e with lastUsedAt := some now
             lastUsedCommand := command.filter (· ≠ "") <|> e.lastUsedCommand
             lastResolvedPath := path.filter (· ≠ "") <|> e.lastResolvedPath }
  match use (·.pattern = pattern) mark c.allowlist with
  | some l => { c with allowlist := l }
  | none => { c with allowlist := c.allowlist ++ [{ pattern, lastUsedAt := some now, lastUsedCommand := command, lastResolvedPath := path }] }

def removeFromAllowlist (pattern : String) (c : ExecApprovalsConfig) : ExecApprovalsConfig :=
  { c with allowlist := c.allowlist.filter (·.pattern ≠ pattern) }

/-- `exec_policy_set`. -/
def setPolicy (security : Option ExecSecurity) (ask : Option ExecAsk) (allowlist : Option (List String)) (c : ExecApprovalsConfig) :
    ExecApprovalsConfig :=
  { c with security := security.getD c.security, ask := ask.getD c.ask
           allowlist := (allowlist.map fun l => l.map fun p => { pattern := p }).getD c.allowlist }

end ExecApprovalsConfig

inductive Change where
  /-- The seed of a missing file, an entry's last use, or nothing at all. -/
  | keep
  | add (pattern : String)
  | remove (pattern : String)
  | set (security : Option ExecSecurity) (ask : Option ExecAsk) (allowlist : Option (List String))
  deriving DecidableEq

/-- The policy somebody asked for, when `q` is what had been asked for before. -/
def Change.apply (q : ExecApprovalsConfig) : Change → ExecApprovalsConfig
  | .keep => q
  | .add pattern => { q with allowlist := q.allowlist ++ [{ pattern }] }
  | .remove pattern => q.removeFromAllowlist pattern
  | .set security ask allowlist => q.setPolicy security ask allowlist

/-- The policy last asked for, when `c` is saved for the change. -/
def Change.written (c : ExecApprovalsConfig) (w : Option ExecApprovalsConfig) (change : Change) : Option ExecApprovalsConfig :=
  match w with
  | none => some c
  | some q => some (change.apply q)

inductive Pc where
  | idle
  /-- In `load`, past the `exists`. -/
  | reading
  /-- In `save`, before the lock. -/
  | writing (change : Change)
  /-- In `load` or `save`, before the last `stat`. -/
  | noting
  deriving DecidableEq

def Pc.saving : Pc → Bool
  | .writing _ => true
  | _ => false

structure ExecApprovalStore where
  config : Option ExecApprovalsConfig := none
  loadedMtime : Option Int := none
  pc : Pc := .idle
  /-- Ghost: which version of the file the copy is of. -/
  version : Nat := 0

inductive Content where
  | absent
  /-- Half-written or unreadable. -/
  | torn
  | whole (c : ExecApprovalsConfig)
  deriving DecidableEq

structure Disk where
  content : Content := .absent
  mtime : Int := 0
  stores : Nat → ExecApprovalStore := fun _ => {}
  /-- Ghost: how often the file was written. -/
  version : Nat := 0
  /-- Ghost: the policy last written or approved. -/
  written : Option ExecApprovalsConfig := none

inductive Event where
  /-- The writer outside has written the file. -/
  | replace (c : ExecApprovalsConfig) (mtime : Int)
  /-- Somebody has truncated the file. -/
  | tear (mtime : Int)
  /-- `load` up to the `exists`; `seed` is `_legacy_exec_policy_seed`. -/
  | load (i : Nat) (seed : Option (ExecSecurity × ExecAsk))
  /-- The read in `load`, when the lock was there within 10 s or not. -/
  | read (i : Nat) (locked : Bool)
  /-- `refresh_if_changed` up to the `stat`. -/
  | refresh (i : Nat)
  | check (i : Nat) (path : String) (now : Int)
  | add (i : Nat) (pattern : String) (command path : Option String) (now : Int)
  | remove (i : Nat) (pattern : String)
  | set (i : Nat) (security : Option ExecSecurity) (ask : Option ExecAsk) (allowlist : Option (List String))
  | save (i : Nat)
  /-- The write in `save`, under the lock. -/
  | write (i : Nat) (mtime : Int)
  /-- The lock was not there within 10 s; `save` raises. -/
  | fail (i : Nat)
  | note (i : Nat)

namespace Disk

def store (d : Disk) (i : Nat) (s : ExecApprovalStore) : Disk :=
  { d with stores := fun j => if j = i then s else d.stores j }

/-- `_file_mtime`. -/
def stat (d : Disk) : Option Int := if d.content = .absent then none else some d.mtime

def change (d : Disk) (i : Nat) (change : Change) (f : ExecApprovalsConfig → Option ExecApprovalsConfig) : Disk :=
  match (d.stores i).pc, (d.stores i).config.bind f with
  | .idle, some c => d.store i { d.stores i with config := some c, pc := .writing change }
  | _, _ => d

def load (d : Disk) (i : Nat) (seed : Option (ExecSecurity × ExecAsk)) : Disk :=
  if (d.stores i).pc ≠ .idle then d
  else if d.content = .absent then
    let c : ExecApprovalsConfig := match seed with
      | some (security, ask) => { security, ask }
      | none => {}
    d.store i { d.stores i with config := some c, pc := .writing .keep, version := d.version }
  else d.store i { d.stores i with pc := .reading }

def read (d : Disk) (i : Nat) (locked : Bool) : Disk :=
  if (d.stores i).pc ≠ .reading then d
  else match locked, d.content with
    | true, .whole c => d.store i { d.stores i with config := some c, pc := .noting, version := d.version }
    | _, _ => d.store i { d.stores i with config := some {}, pc := .noting, version := d.version }

/-- What the `stat` in `refresh_if_changed` is for. -/
def changed (d : Disk) (i : Nat) : Prop := d.stat ≠ none ∧ d.stat ≠ (d.stores i).loadedMtime

instance (d : Disk) (i : Nat) : Decidable (d.changed i) := inferInstanceAs (Decidable (_ ∧ _))

def refresh (d : Disk) (i : Nat) : Disk :=
  if (d.stores i).pc = .idle ∧ (d.stores i).config ≠ none ∧ d.changed i then d.store i { d.stores i with pc := .reading }
  else d

def write (d : Disk) (i : Nat) (mtime : Int) : Disk :=
  match (d.stores i).pc, (d.stores i).config with
  | .writing change, some c =>
    { d.store i { d.stores i with pc := .noting, version := d.version + 1 } with
      content := .whole c, mtime, version := d.version + 1
      written := change.written c d.written }
  | _, _ => d

def fail (d : Disk) (i : Nat) : Disk :=
  match (d.stores i).pc with
  | .writing _ => d.store i { d.stores i with pc := .idle }
  | _ => d

def note (d : Disk) (i : Nat) : Disk :=
  if (d.stores i).pc = .noting then d.store i { d.stores i with pc := .idle, loadedMtime := d.stat } else d

end Disk

variable (hits : String → String → Bool)

def step (d : Disk) : Event → Disk
  | .replace c mtime => { d with content := .whole c, mtime, version := d.version + 1, written := some c }
  | .tear mtime => { d with content := .torn, mtime, version := d.version + 1 }
  | .load i seed => d.load i seed
  | .read i locked => d.read i locked
  | .refresh i => d.refresh i
  | .check i path now => d.change i .keep fun c => c.checkAllowlist hits now path
  | .add i pattern command path now => d.change i (.add pattern) fun c => some (c.addToAllowlist now pattern command path)
  | .remove i pattern => d.change i (.remove pattern) fun c =>
      if pattern ∈ c.patterns then some (c.removeFromAllowlist pattern) else none
  | .set i security ask allowlist => d.change i (.set security ask allowlist) fun c => some (c.setPolicy security ask allowlist)
  | .save i => d.change i .keep some
  | .write i mtime => d.write i mtime
  | .fail i => d.fail i
  | .note i => d.note i

/-- A store reads a whole file, writes back a copy of what the file holds, gets the lock,
    and has an mtime of its own for every copy. -/
def Steady (d : Disk) : Event → Prop
  | .read i locked => (d.stores i).pc = .reading → locked = true ∧ d.content ≠ .torn
  | .write i _ => (d.stores i).version = d.version
  | .fail i => (d.stores i).pc.saving = false
  | .refresh i => (d.stores i).pc = .idle → (d.stores i).version = d.version ∨ d.changed i
  | _ => True

instance (d : Disk) (e : Event) : Decidable (Steady d e) := by
  unfold Steady
  split <;> infer_instance

/-- The store whose policy the event has put in force, after a refresh. -/
def refreshed (d : Disk) : Event → Option Nat
  | .refresh i => if (d.stores i).pc = .idle ∧ ¬ d.changed i then some i else none
  | .read i _ => if (d.stores i).pc = .reading then some i else none
  | _ => none

/-- Neither the file nor the policy in force at store `i` after a refresh is more permissive than what was asked for. -/
def Tight (d : Disk) (i : Option Nat) : Prop :=
  (∀ c q, d.content = .whole c → d.written = some q → c.Within q) ∧
    ∀ j, i = some j → ∀ c q, (d.stores j).config = some c → d.written = some q → c.Within q

/-! ## The changes -/

namespace ExecApprovalsConfig

variable {c c' q : ExecApprovalsConfig}

theorem use_patterns {f : AllowlistEntry → Bool} {mark : AllowlistEntry → AllowlistEntry} {l l' : List AllowlistEntry}
    (h : use f mark l = some l') (hmark : ∀ e, (mark e).pattern = e.pattern) :
    l'.map AllowlistEntry.pattern = l.map AllowlistEntry.pattern := by
  induction l generalizing l' with
  | nil => cases h
  | cons e es ih =>
    unfold use at h
    split_ifs at h
    · cases h
      rw [List.map_cons, List.map_cons, hmark]
    · obtain ⟨es', hes, rfl⟩ := Option.map_eq_some_iff.1 h
      rw [List.map_cons, List.map_cons, ih hes]

/-- A policy with the same mode and no other patterns is as tight. -/
theorem Within.same (h : c.Within q) (hsec : c'.security = c.security) (hpat : c'.patterns = c.patterns) : c'.Within q := by
  unfold Within
  rw [hsec, hpat]
  exact h

theorem within_check {now : Int} {path : String} (h : c.Within q) (hc : c.checkAllowlist hits now path = some c') : c'.Within q := by
  obtain ⟨l, hl, rfl⟩ := Option.map_eq_some_iff.1 hc
  exact h.same rfl (use_patterns hl fun _ => rfl)

theorem within_add (h : c.Within q) (now : Int) (pattern : String) (command path : Option String) :
    (c.addToAllowlist now pattern command path).Within ((Change.add pattern).apply q) := by
  have hgrow : c.Within ((Change.add pattern).apply q) := by
    refine ⟨h.1, fun p hp => ?_⟩
    show p ∈ (q.allowlist ++ [_]).map AllowlistEntry.pattern
    rw [List.map_append]
    exact List.mem_append_left _ (h.2 p hp)
  unfold addToAllowlist
  dsimp only
  split
  · next l hl => exact hgrow.same rfl (use_patterns hl fun _ => rfl)
  · refine ⟨h.1, fun p hp => ?_⟩
    change p ∈ (c.allowlist ++ [_]).map AllowlistEntry.pattern at hp
    rw [List.map_append] at hp
    rcases List.mem_append.1 hp with hp | hp
    · exact hgrow.2 p hp
    · rw [List.mem_singleton.1 hp]
      show pattern ∈ (q.allowlist ++ [_]).map AllowlistEntry.pattern
      rw [List.map_append]
      exact List.mem_append_right _ (List.mem_singleton_self _)

theorem mem_remove {pattern p : String} : p ∈ (c.removeFromAllowlist pattern).patterns ↔ p ∈ c.patterns ∧ p ≠ pattern := by
  unfold patterns removeFromAllowlist
  constructor
  · intro hp
    obtain ⟨e, he, rfl⟩ := List.mem_map.1 hp
    obtain ⟨he, hne⟩ := List.mem_filter.1 he
    exact ⟨List.mem_map_of_mem he, by simpa using hne⟩
  · intro hp
    obtain ⟨hp, hne⟩ := hp
    obtain ⟨e, he, rfl⟩ := List.mem_map.1 hp
    exact List.mem_map_of_mem (List.mem_filter.2 ⟨he, by simpa using hne⟩)

theorem within_remove (h : c.Within q) (pattern : String) :
    (c.removeFromAllowlist pattern).Within ((Change.remove pattern).apply q) := by
  refine ⟨h.1, fun p hp => ?_⟩
  obtain ⟨hp, hne⟩ := mem_remove.1 hp
  exact mem_remove.2 ⟨h.2 p hp, hne⟩

theorem within_set (h : c.Within q) (security : Option ExecSecurity) (ask : Option ExecAsk) (allowlist : Option (List String)) :
    (c.setPolicy security ask allowlist).Within ((Change.set security ask allowlist).apply q) := by
  refine ⟨?_, ?_⟩
  · cases security with
    | none => exact h.1
    | some security => exact Nat.le_refl _
  · cases allowlist with
    | none => exact h.2
    | some l => exact fun _ hp => hp

/-- What is saved is as tight as what has been asked for by then. -/
theorem within_written {change : Change} {w : Option ExecApprovalsConfig} (h : ∀ q, w = some q → c.Within (change.apply q)) :
    ∀ q, change.written c w = some q → c.Within q := by
  intro q hq
  unfold Change.written at hq
  split at hq
  · cases hq
    exact ⟨Nat.le_refl _, fun _ hp => hp⟩
  · next q₀ =>
    cases hq
    exact h q₀ rfl

end ExecApprovalsConfig

/-! ## Runs -/

/-- What has been asked for once the store is done with its save. -/
def Pc.asked (q : ExecApprovalsConfig) : Pc → ExecApprovalsConfig
  | .writing change => change.apply q
  | _ => q

theorem Disk.read_spec {d : Disk} {i : Nat} {locked : Bool} (hpc : (d.stores i).pc = .reading) :
    ((d.read i locked).stores i).pc = .noting ∧ ((d.read i locked).stores i).version = (d.read i locked).version := by
  unfold Disk.read
  rw [if_neg (not_not.2 hpc)]
  split <;> simp [Disk.store]

/-- The file is as tight as what was asked for, and so is every copy of what the file still
    holds, up to the change that is about to be saved. -/
structure Inv (d : Disk) : Prop where
  file : ∀ c q, d.content = .whole c → d.written = some q → c.Within q
  unwritten : d.content = .absent → d.written = none
  behind : ∀ i, (d.stores i).version ≤ d.version
  copy : ∀ i c q, (d.stores i).config = some c → (d.stores i).version = d.version → d.written = some q →
    c.Within ((d.stores i).pc.asked q)

namespace Inv

variable {d : Disk}

theorem init : Inv {} :=
  ⟨fun _ _ h => (by cases h), fun _ => rfl, fun _ => Nat.le_refl 0, fun _ _ _ h => (by cases h)⟩

/-- A step of one store that leaves the file. -/
theorem store (h : Inv d) {i : Nat} {s : ExecApprovalStore} (hle : s.version ≤ d.version)
    (hcopy : ∀ c q, s.config = some c → s.version = d.version → d.written = some q → c.Within (s.pc.asked q)) : Inv (d.store i s) := by
  refine ⟨h.file, h.unwritten, ?_, ?_⟩
  · intro j
    show (if j = i then s else d.stores j).version ≤ d.version
    split_ifs
    · exact hle
    · exact h.behind j
  · intro j c q
    show (if j = i then s else d.stores j).config = some c → (if j = i then s else d.stores j).version = d.version → _ →
      c.Within ((if j = i then s else d.stores j).pc.asked q)
    split_ifs
    · exact hcopy c q
    · exact h.copy j c q

/-- Somebody outside writes: no copy is of what the file holds now. -/
theorem overwrite (h : Inv d) (content : Content) (mtime : Int) (w : Option ExecApprovalsConfig)
    (hfile : ∀ c q, content = .whole c → w = some q → c.Within q) (hw : content ≠ .absent) :
    Inv { d with content, mtime, version := d.version + 1, written := w } := by
  refine ⟨hfile, fun hc => absurd hc hw, fun i => Nat.le_succ_of_le (h.behind i), ?_⟩
  intro i c q _ hv
  have hle := h.behind i
  change (d.stores i).version = d.version + 1 at hv
  omega

theorem change (h : Inv d) (i : Nat) (ch : Change) {f : ExecApprovalsConfig → Option ExecApprovalsConfig}
    (hf : ∀ {c c' q : ExecApprovalsConfig}, c.Within q → f c = some c' → c'.Within (ch.apply q)) : Inv (d.change i ch f) := by
  unfold Disk.change
  split
  · next c' hpc hc =>
    obtain ⟨c, hc, hfc⟩ := Option.bind_eq_some_iff.1 hc
    refine h.store (h.behind i) ?_
    intro c₁ q heq hv hq
    cases heq
    have hin := h.copy i c q hc hv hq
    rw [hpc] at hin
    exact hf hin hfc
  · exact h

theorem load (h : Inv d) (i : Nat) (seed : Option (ExecSecurity × ExecAsk)) : Inv (d.load i seed) := by
  unfold Disk.load
  split_ifs with hpc habs
  · exact h
  · refine h.store (Nat.le_refl _) ?_
    intro c q _ _ hq
    rw [h.unwritten habs] at hq
    cases hq
  · refine h.store (h.behind i) ?_
    intro c q hc hv hq
    have hin := h.copy i c q hc hv hq
    rw [not_not.1 hpc] at hin
    exact hin

/-- The copy a steady read makes is what the file holds. -/
theorem read (h : Inv d) {i : Nat} {locked : Bool} (hs : Steady d (.read i locked)) : Inv (d.read i locked) := by
  unfold Disk.read
  split_ifs with hpc
  · exact h
  · obtain ⟨rfl, hwhole⟩ := hs (not_not.1 hpc)
    cases hcon : d.content with
    | absent =>
      refine h.store (Nat.le_refl _) ?_
      intro c q _ _ hq
      rw [h.unwritten hcon] at hq
      cases hq
    | torn => exact absurd hcon hwhole
    | whole c₀ =>
      refine h.store (Nat.le_refl _) ?_
      intro c q hc _ hq
      rw [← Option.some.inj hc]
      exact h.file c₀ q hcon hq

theorem refresh (h : Inv d) (i : Nat) : Inv (d.refresh i) := by
  unfold Disk.refresh
  split_ifs with hpc
  · refine h.store (h.behind i) ?_
    intro c q hc hv hq
    have hin := h.copy i c q hc hv hq
    rw [hpc.1] at hin
    exact hin
  · exact h

/-- A steady write puts a copy of what the file held, with its change. -/
theorem write (h : Inv d) {i : Nat} {mtime : Int} (hs : (d.stores i).version = d.version) : Inv (d.write i mtime) := by
  unfold Disk.write
  split
  · next change c hpc hc =>
    have hin : ∀ q, change.written c d.written = some q → c.Within q := by
      refine ExecApprovalsConfig.within_written fun q hq => ?_
      have hin := h.copy i c q hc hs hq
      rw [hpc] at hin
      exact hin
    refine (h.overwrite (.whole c) mtime (change.written c d.written) ?_ (fun hc => by cases hc)).store (Nat.le_refl _) ?_
    · intro c₁ q heq hq
      cases heq
      exact hin q hq
    · intro c₁ q heq _ hq
      rw [hc] at heq
      cases heq
      exact hin q hq
  · exact h

theorem note (h : Inv d) (i : Nat) : Inv (d.note i) := by
  unfold Disk.note
  split_ifs with hpc
  · refine h.store (h.behind i) ?_
    intro c q hc hv hq
    have hin := h.copy i c q hc hv hq
    rw [hpc] at hin
    exact hin
  · exact h

theorem next (h : Inv d) {e : Event} (hs : Steady d e) : Inv (step hits d e) := by
  cases e with
  | replace c mtime =>
    refine h.overwrite (.whole c) mtime (some c) ?_ fun hc => by cases hc
    intro c₁ q hc hq
    cases hc
    cases hq
    exact ⟨Nat.le_refl _, fun _ hp => hp⟩
  | tear mtime => exact h.overwrite .torn mtime d.written (fun _ _ hc => by cases hc) fun hc => by cases hc
  | load i seed => exact h.load i seed
  | read i locked => exact h.read hs
  | refresh i => exact h.refresh i
  | check i path now => exact h.change i .keep fun hin hc => ExecApprovalsConfig.within_check hits hin hc
  | add i pattern command path now =>
    refine h.change i (.add pattern) fun hin hc => ?_
    rw [← Option.some.inj hc]
    exact ExecApprovalsConfig.within_add hin now pattern command path
  | remove i pattern =>
    refine h.change i (.remove pattern) fun hin hc => ?_
    rw [← Option.some.inj (Option.ite_none_right_eq_some.1 hc).2]
    exact ExecApprovalsConfig.within_remove hin pattern
  | set i security ask allowlist =>
    refine h.change i (.set security ask allowlist) fun hin hc => ?_
    rw [← Option.some.inj hc]
    exact ExecApprovalsConfig.within_set hin security ask allowlist
  | save i =>
    refine h.change i .keep fun hin hc => ?_
    rw [← Option.some.inj hc]
    exact hin
  | write i mtime => exact h.write hs
  | fail i =>
    show Inv (d.fail i)
    unfold Disk.fail
    split
    · next change hpc =>
      change (d.stores i).pc.saving = false at hs
      rw [hpc] at hs
      cases hs
    · exact h
  | note i => exact h.note i

/-- A store has the policy it refreshed, and that is what the file holds. -/
theorem in_force (h : Inv d) {e : Event} (hs : Steady d e) {j : Nat} (hj : refreshed d e = some j) :
    ∀ c q, ((step hits d e).stores j).config = some c → (step hits d e).written = some q → c.Within q := by
  have hnext := h.next hits hs
  cases e with
  | refresh i =>
    obtain ⟨⟨hpc, hsame⟩, hi⟩ := Option.ite_none_right_eq_some.1 hj
    obtain rfl := Option.some.inj hi
    have hd : step hits d (.refresh i) = d := if_neg fun hc => hsame hc.2.2
    rw [hd]
    intro c q hc hq
    have hv : (d.stores i).version = d.version := by
      rcases hs hpc with hv | hch
      · exact hv
      · exact absurd hch hsame
    have hin := h.copy i c q hc hv hq
    rw [hpc] at hin
    exact hin
  | read i locked =>
    obtain ⟨hpc, hi⟩ := Option.ite_none_right_eq_some.1 hj
    obtain rfl := Option.some.inj hi
    intro c q hc hq
    obtain ⟨hnoting, hv⟩ := Disk.read_spec hpc
    have hin := hnext.copy i c q hc hv hq
    rw [show ((step hits d (.read i locked)).stores i).pc = .noting from hnoting] at hin
    exact hin
  | _ => cases hj

end Inv

/-- In every run of steady steps, neither the file nor a policy that has just been
    refreshed is more permissive than the one last written or approved. -/
theorem tightening_stands {d : Disk} {e : Event} (h : Reach (step hits) Steady {} d) (he : Steady d e) :
    Tight (step hits d e) (refreshed d e) := by
  have hinv : Inv d := h.invariant .init fun _ _ hi hs => hi.next hits hs
  exact ⟨(hinv.next hits he).file, fun j hj => hinv.in_force hits he hj⟩

namespace Sample

/-- A store has loaded an allowlist with one entry. -/
def loaded : List Event :=
  [.replace { security := .allowlist, allowlist := [{ pattern := "/bin/ls" }] } 1, .load 0 none, .read 0 true, .note 0]

/-- It hears of a `deny`. -/
def refreshes : List Event := loaded ++ [Event.check 0 "/bin/ls" 5, .write 0 6, .note 0, .replace { security := .deny } 7, .refresh 0]

theorem a_deny_is_in_force :
    Tight (step (· == ·) (refreshes.foldl (step (· == ·)) {}) (.read 0 true))
      (refreshed (refreshes.foldl (step (· == ·)) {}) (.read 0 true)) := by
  refine tightening_stands (· == ·) (Reach.foldl refreshes _ .start ?_) ?_ <;> decide

/-- The `deny` comes after the store has looked at the mtime and before it writes. -/
def races : List Event := loaded ++ [Event.refresh 0, .replace { security := .deny } 7, .check 0 "/bin/ls" 8]

end Sample

/-- A hit of the allowlist writes the old policy over the `deny`. -/
theorem a_hit_undoes_a_deny :
    ¬ ∀ (hits : String → String → Bool) (d : Disk) (e : Event), Reach (step hits) (fun _ _ => True) {} d →
        Tight (step hits d e) (refreshed d e) := by
  intro h
  have hrun : Reach (step (· == ·)) (fun _ _ => True) {} (Sample.races.foldl (step (· == ·)) {}) := by
    refine Reach.foldl Sample.races _ .start ?_
    decide
  obtain ⟨hfile, _⟩ := h (· == ·) _ (.write 0 9) hrun
  have hin := hfile
    { security := .allowlist
      allowlist := [{ pattern := "/bin/ls", lastUsedAt := some 8, lastResolvedPath := some "/bin/ls" }] }
    { security := .deny } (by decide) (by decide)
  exact absurd hin (by decide)

end Flowly.Exec.Approvals
