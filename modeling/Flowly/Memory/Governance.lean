/-
  Flowly.Memory.Governance — the store of the governed memory
  (`flowly/memory/governance.py`): items with a status, the transition table, and the
  audit trail.

  Each operation of the store is one transaction, and the store is the only writer. The
  ids of the items are new (`uuid4`), so they are counted. The rows stand in the order in
  which they were made.

  Proved: whatever a program over the store does, and however it ends, each status
  change followed the table, and the audit rows of an item lead from its creation to
  its status (`Audited`).
-/

import Flowly.Lib.Program
import Flowly.Lib.Text
import Mathlib.Algebra.Order.Ring.Unbundled.Rat
import Mathlib.Data.List.Nodup

namespace Flowly.Memory

open Flowly.Lib

inductive Status where
  | candidate
  | active
  | needsReview
  | stale
  | superseded
  | rejected
  deriving DecidableEq

namespace Status

def text : Status → String
  | candidate => "candidate"
  | active => "active"
  | needsReview => "needs_review"
  | stale => "stale"
  | superseded => "superseded"
  | rejected => "rejected"

/-- `_TRANSITIONS`. -/
def next : Status → List Status
  | candidate => [active, needsReview, rejected, superseded]
  | needsReview => [active, rejected, stale]
  | active => [superseded, stale, needsReview, rejected]
  | stale => [active, superseded, rejected]
  | superseded => [active]
  | rejected => []

end Status

def validKinds : List String :=
  ["profile", "preference", "project", "environment", "correction", "temporal", "relationship", "procedure", "fact"]

def validRefKinds : List String := ["kg_triple", "memory_md", "inline", "obsidian_note"]

def validPrivacy : List String := ["normal", "sensitive", "secret"]

/-- The graph payload a fact from a vault waits with, in `metadata["kg"]`. -/
structure Kg where
  subject : String
  predicate : String
  object : String

structure Item where
  id : Nat
  kind : String
  text : String
  status : Status := .candidate
  refKind : String := "inline"
  refId : Option String := none
  normalizedKey : String := ""
  confidence : Rat := 0
  privacyLevel : String := "normal"
  supersedes : Option Nat := none
  kg : Option Kg := none
  /-- How often `touch_seen` came by; the source has the time of the last. -/
  seen : Nat := 0

/-- A row of `memory_audit`. -/
structure Audit where
  itemId : Nat
  fromStatus : Option Status
  toStatus : Status
  actor : String
  reason : String

structure Store where
  items : List Item := []
  audit : List Audit := []
  nextId : Nat := 0

inductive Failure where
  /-- `GovernanceError`, and `InvalidTransition`, which is one. -/
  | governance (message : String)
  | invalidTransition (message : String)
  /-- Any other exception. -/
  | other (name : String)

def Failure.isGovernance : Failure → Bool
  | governance _ | invalidTransition _ => true
  | other _ => false

abbrev Gov (α : Type) := Program Store Failure α

/-! ## The operations -/

def getItem (id : Nat) : Gov (Option Item) := do
  let s ← get
  return s.items.find? (·.id = id)

/-- `list_items(status=...)`. -/
def listItems (p : Status → Bool) : Gov (List Item) := do
  let s ← get
  return s.items.filter fun i => p i.status

def findByKey (key : String) (statuses : List Status) : Gov (List Item) := do
  let s ← get
  return if key = "" then [] else s.items.filter fun i => i.normalizedKey = key ∧ i.status ∈ statuses

def findByRef (refKind refId : String) : Gov (List Item) := do
  let s ← get
  return s.items.filter fun i => i.refKind = refKind ∧ i.refId = some refId

def addItem (new : Item) (actor reason : String) : Gov Item := do
  if new.kind ∉ validKinds then throw (.governance s!"invalid kind: '{new.kind}'")
  else if new.refKind ∉ validRefKinds then throw (.governance s!"invalid ref_kind: '{new.refKind}'")
  else if new.privacyLevel ∉ validPrivacy then throw (.governance s!"invalid privacy_level: '{new.privacyLevel}'")
  else
    let s ← get
    let item := { new with id := s.nextId }
    modify fun s => { s with
      items := s.items ++ [item]
      audit := s.audit ++ [⟨item.id, none, item.status, actor, reason⟩]
      nextId := s.nextId + 1 }
    return item

/-- `sorted(allowed) or 'none'`. -/
def allowedText (from_ : Status) : String :=
  match (from_.next.map Status.text).mergeSort (fun a b => a ≤ b) with
  | [] => "none"
  | names => "[" ++ ", ".intercalate (names.map fun n => "'" ++ n ++ "'") ++ "]"

def Store.move (s : Store) (item : Item) (toStatus : Status) (actor reason : String) (supersedes : Option Nat) : Store :=
  { s with
    items := s.items.map fun i => if i.id = item.id then { i with status := toStatus, supersedes := supersedes.or i.supersedes } else i
    audit := s.audit ++ [⟨item.id, some item.status, toStatus, actor, reason⟩] }

/-- `transition`. A `supersedes` that no row has is an `IntegrityError`. -/
def transition (id : Nat) (toStatus : Status) (actor reason : String) (supersedes : Option Nat := none) : Gov Unit := do
  let s ← get
  match s.items.find? (·.id = id) with
  | none => throw (.governance s!"item not found: {id}")
  | some item =>
    if toStatus = item.status then return
    else if toStatus ∉ item.status.next then
      throw (.invalidTransition
        s!"{item.status.text} → {toStatus.text} is not allowed (item {id}); allowed: {allowedText item.status}")
    else if supersedes.any fun sup => sup ∉ s.items.map (·.id) then throw (.other "IntegrityError")
    else modify fun s => s.move item toStatus actor reason supersedes

/-- The fields `update_fields` is called with. -/
structure Fields where
  text : Option String := none
  confidence : Option Rat := none
  /-- `ref_kind` and `ref_id`. -/
  ref : Option (String × String) := none

def Fields.set (f : Fields) (i : Item) : Item :=
  { i with
    text := f.text.getD i.text
    confidence := f.confidence.getD i.confidence
    refKind := (f.ref.map (·.1)).getD i.refKind
    refId := (f.ref.map (·.2)).or i.refId }

def updateFields (id : Nat) (f : Fields) : Gov Unit := do
  if f.ref.any fun r => r.1 ∉ validRefKinds then throw (.governance ("invalid ref_kind: '" ++ (f.ref.map (·.1)).getD "" ++ "'"))
  else
    let s ← get
    match s.items.find? (·.id = id) with
    | none => throw (.governance s!"item not found: {id}")
    | some _ => modify fun s => { s with items := s.items.map fun i => if i.id = id then f.set i else i }

def touchSeen (id : Nat) : Gov Unit :=
  modify fun s => { s with items := s.items.map fun i => if i.id = id then { i with seen := i.seen + 1 } else i }

/-! ## What they do -/

def Store.add (s : Store) (new : Item) (actor reason : String) : Store :=
  { s with
    items := s.items ++ [{ new with id := s.nextId }]
    audit := s.audit ++ [⟨s.nextId, none, new.status, actor, reason⟩]
    nextId := s.nextId + 1 }

def Store.setFields (s : Store) (id : Nat) (f : Fields) : Store :=
  { s with items := s.items.map fun i => if i.id = id then f.set i else i }

def Store.touch (s : Store) (id : Nat) : Store :=
  { s with items := s.items.map fun i => if i.id = id then { i with seen := i.seen + 1 } else i }

section Specs

variable {s : Store} {id : Nat}

def Item.Valid (i : Item) : Prop := i.kind ∈ validKinds ∧ i.refKind ∈ validRefKinds ∧ i.privacyLevel ∈ validPrivacy

instance (i : Item) : Decidable i.Valid := inferInstanceAs (Decidable (_ ∧ _))

theorem addItem_spec (new : Item) (actor reason : String) :
    Program.Post (addItem new actor reason) s fun r s' =>
      if new.Valid then r = .ok { new with id := s.nextId } ∧ s' = s.add new actor reason
      else (∃ m, r = .error (.governance m)) ∧ s' = s := by
  unfold addItem
  by_cases hk : new.kind ∈ validKinds
  · by_cases hr : new.refKind ∈ validRefKinds
    · by_cases hp : new.privacyLevel ∈ validPrivacy
      · rw [if_neg (not_not_intro hk), if_neg (not_not_intro hr), if_neg (not_not_intro hp)]
        show if new.Valid then _ else _
        rw [if_pos ⟨hk, hr, hp⟩]
        exact ⟨rfl, rfl⟩
      · rw [if_neg (not_not_intro hk), if_neg (not_not_intro hr), if_pos hp]
        show if new.Valid then _ else _
        rw [if_neg fun h => hp h.2.2]
        exact ⟨⟨_, rfl⟩, rfl⟩
    · rw [if_neg (not_not_intro hk), if_pos hr]
      show if new.Valid then _ else _
      rw [if_neg fun h => hr h.2.1]
      exact ⟨⟨_, rfl⟩, rfl⟩
  · rw [if_pos hk]
    show if new.Valid then _ else _
    rw [if_neg fun h => hk h.1]
    exact ⟨⟨_, rfl⟩, rfl⟩

inductive Transitioned (s : Store) (id : Nat) (toStatus : Status) (actor reason : String) (supersedes : Option Nat) :
    Except Failure Unit → Store → Prop where
  | missing {m : String} (hf : s.items.find? (·.id = id) = none) : Transitioned s id toStatus actor reason supersedes (.error (.governance m)) s
  | same {item : Item} (hf : s.items.find? (·.id = id) = some item) (h : item.status = toStatus) :
    Transitioned s id toStatus actor reason supersedes (.ok ()) s
  | refused {item : Item} {m : String} (hf : s.items.find? (·.id = id) = some item) (hne : item.status ≠ toStatus)
      (h : toStatus ∉ item.status.next) : Transitioned s id toStatus actor reason supersedes (.error (.invalidTransition m)) s
  | dangling {item : Item} {sup : Nat} {n : String} (hf : s.items.find? (·.id = id) = some item) (h : supersedes = some sup)
      (hout : sup ∉ s.items.map (·.id)) : Transitioned s id toStatus actor reason supersedes (.error (.other n)) s
  | moved {item : Item} (hf : s.items.find? (·.id = id) = some item) (h : toStatus ∈ item.status.next) :
    Transitioned s id toStatus actor reason supersedes (.ok ()) (s.move item toStatus actor reason supersedes)

theorem transition_spec (id : Nat) (toStatus : Status) (actor reason : String) (supersedes : Option Nat) :
    Program.Post (transition id toStatus actor reason supersedes) s (Transitioned s id toStatus actor reason supersedes) := by
  unfold transition
  refine Program.Post.step (a := s) rfl ?_
  cases hf : s.items.find? (·.id = id) with
  | none => exact .missing hf
  | some item =>
    show Program.Post (if toStatus = item.status then _ else _) s _
    split
    · next heq => exact .same hf heq.symm
    · next hne =>
      split
      · next hout => exact .refused hf (Ne.symm hne) hout
      · next hin =>
        split
        · next hany =>
          cases supersedes with
          | none => cases hany
          | some sup => exact .dangling hf rfl (of_decide_eq_true hany)
        · exact .moved hf (not_not.1 hin)

/-- How an update of fields ends. -/
theorem updateFields_spec (id : Nat) (f : Fields) :
    Program.Post (updateFields id f) s fun r s' =>
      ((∃ m, r = .error (.governance m)) ∧ s' = s) ∨ (r = .ok () ∧ s' = s.setFields id f) := by
  unfold updateFields
  split
  · exact .inl ⟨⟨_, rfl⟩, rfl⟩
  · refine Program.Post.step (a := s) rfl ?_
    cases hf : s.items.find? (·.id = id) with
    | none => exact .inl ⟨⟨_, rfl⟩, rfl⟩
    | some item => exact .inr ⟨rfl, rfl⟩

end Specs

/-! ## The audit trail -/

inductive Trail : List Audit → Status → Prop where
  | created {r : Audit} (h : r.fromStatus = none) : Trail [r] r.toStatus
  | moved {rows : List Audit} {st : Status} {r : Audit} (h : Trail rows st) (hr : r.fromStatus = some st) : Trail (rows ++ [r]) r.toStatus

structure Audited (s : Store) : Prop where
  ids : (s.items.map (·.id)).Nodup
  lt : ∀ i ∈ s.items, i.id < s.nextId
  rows : ∀ r ∈ s.audit, r.itemId < s.nextId
  table : ∀ r ∈ s.audit, ∀ st, r.fromStatus = some st → r.toStatus ∈ st.next
  trail : ∀ i ∈ s.items, Trail (s.audit.filter (·.itemId = i.id)) i.status

namespace Audited

variable {s : Store}

theorem init : Audited {} :=
  ⟨List.nodup_nil, List.forall_mem_nil _, List.forall_mem_nil _, List.forall_mem_nil _,
    List.forall_mem_nil _⟩

theorem add (h : Audited s) (new : Item) (actor reason : String) : Audited (s.add new actor reason) := by
  have hnew : ∀ i ∈ s.items, i.id ≠ s.nextId := fun i hi => Nat.ne_of_lt (h.lt i hi)
  refine ⟨?_, ?_, ?_, ?_, ?_⟩
  · show ((s.items ++ [{ new with id := s.nextId }]).map Item.id).Nodup
    rw [List.map_append, List.nodup_append]
    refine ⟨h.ids, List.nodup_singleton _, ?_⟩
    intro a ha b hb
    obtain ⟨i, hi, rfl⟩ := List.mem_map.1 ha
    rw [List.mem_singleton.1 hb]
    exact hnew i hi
  · intro i hi
    show i.id < s.nextId + 1
    rcases List.mem_append.1 hi with hi | hi
    · exact Nat.lt_succ_of_lt (h.lt i hi)
    · rw [List.mem_singleton.1 hi]
      exact Nat.lt_succ_self _
  · intro r hr
    show r.itemId < s.nextId + 1
    rcases List.mem_append.1 hr with hr | hr
    · exact Nat.lt_succ_of_lt (h.rows r hr)
    · rw [List.mem_singleton.1 hr]
      exact Nat.lt_succ_self _
  · intro r hr st hst
    rcases List.mem_append.1 hr with hr | hr
    · exact h.table r hr st hst
    · rw [List.mem_singleton.1 hr] at hst
      cases hst
  · intro i hi
    show Trail ((s.audit ++ [(⟨s.nextId, none, new.status, actor, reason⟩ : Audit)]).filter (·.itemId = i.id)) i.status
    rw [List.filter_append]
    rcases List.mem_append.1 hi with hi | hi
    · rw [List.filter_cons_of_neg (by simpa using (hnew i hi).symm), List.filter_nil, List.append_nil]
      exact h.trail i hi
    · rw [List.mem_singleton.1 hi]
      have hnone : s.audit.filter (·.itemId = s.nextId) = [] := by
        refine List.filter_eq_nil_iff.2 fun r hr => ?_
        simpa using Nat.ne_of_lt (h.rows r hr)
      show Trail (s.audit.filter (·.itemId = s.nextId) ++ _) new.status
      rw [hnone, List.filter_cons_of_pos (by simp)]
      exact .created rfl

theorem move (h : Audited s) {id : Nat} {item : Item} (hf : s.items.find? (·.id = id) = some item) {toStatus : Status}
    (hnext : toStatus ∈ item.status.next) (actor reason : String) (supersedes : Option Nat) :
    Audited (s.move item toStatus actor reason supersedes) := by
  have hin : item ∈ s.items := List.mem_of_find?_eq_some hf
  refine ⟨?_, ?_, ?_, ?_, ?_⟩
  · show ((s.items.map _).map Item.id).Nodup
    rw [List.map_map]
    have hsame : (Item.id ∘ fun i : Item => if i.id = item.id then
        { i with status := toStatus, supersedes := supersedes.or i.supersedes } else i) = Item.id := by
      funext i
      dsimp only [Function.comp]
      split <;> rfl
    rw [hsame]
    exact h.ids
  · intro i hi
    obtain ⟨j, hj, rfl⟩ := List.mem_map.1 hi
    have hlt := h.lt j hj
    split
    · exact hlt
    · exact hlt
  · intro r hr
    rcases List.mem_append.1 hr with hr | hr
    · exact h.rows r hr
    · rw [List.mem_singleton.1 hr]
      exact h.lt item hin
  · intro r hr st hst
    rcases List.mem_append.1 hr with hr | hr
    · exact h.table r hr st hst
    · rw [List.mem_singleton.1 hr] at hst ⊢
      cases hst
      exact hnext
  · intro i hi
    show Trail ((s.audit ++ [(⟨item.id, some item.status, toStatus, actor, reason⟩ : Audit)]).filter (·.itemId = i.id)) i.status
    obtain ⟨j, hj, rfl⟩ := List.mem_map.1 hi
    rw [List.filter_append]
    by_cases hid : j.id = item.id
    · obtain rfl : j = item := List.inj_on_of_nodup_map h.ids hj hin hid
      rw [if_pos rfl, List.filter_cons_of_pos (by simp)]
      exact .moved (h.trail j hj) rfl
    · rw [if_neg hid, List.filter_cons_of_neg (by simpa using Ne.symm hid), List.filter_nil, List.append_nil]
      exact h.trail j hj

/-- Fields other than the status. -/
theorem mapItems (h : Audited s) {f : Item → Item} (hid : ∀ i, (f i).id = i.id) (hst : ∀ i, (f i).status = i.status) :
    Audited { s with items := s.items.map f } := by
  refine ⟨?_, ?_, h.rows, h.table, ?_⟩
  · show ((s.items.map f).map Item.id).Nodup
    rw [List.map_map]
    have hsame : Item.id ∘ f = Item.id := funext hid
    rw [hsame]
    exact h.ids
  · intro i hi
    obtain ⟨j, hj, rfl⟩ := List.mem_map.1 hi
    rw [hid]
    exact h.lt j hj
  · intro i hi
    obtain ⟨j, hj, rfl⟩ := List.mem_map.1 hi
    rw [hid, hst]
    exact h.trail j hj

theorem setFields (h : Audited s) (id : Nat) (f : Fields) : Audited (s.setFields id f) := by
  refine h.mapItems ?_ ?_
  all_goals
    intro i
    split <;> rfl

theorem touch (h : Audited s) (id : Nat) : Audited (s.touch id) := by
  refine h.mapItems ?_ ?_
  all_goals
    intro i
    split <;> rfl

end Audited

section Keeps

theorem getItem_audited (id : Nat) : Program.Keeps Audited (getItem id) := fun _ h => h

theorem listItems_audited (p : Status → Bool) : Program.Keeps Audited (listItems p) := fun _ h => h

theorem findByKey_audited (key : String) (statuses : List Status) : Program.Keeps Audited (findByKey key statuses) := fun _ h => h

theorem findByRef_audited (refKind refId : String) : Program.Keeps Audited (findByRef refKind refId) := fun _ h => h

theorem addItem_audited (new : Item) (actor reason : String) : Program.Keeps Audited (addItem new actor reason) := by
  intro s h
  refine (addItem_spec new actor reason).mono ?_
  intro r s' hend
  split at hend
  · rw [hend.2]
    exact h.add new actor reason
  · rw [hend.2]
    exact h

theorem transition_audited (id : Nat) (toStatus : Status) (actor reason : String) (supersedes : Option Nat) :
    Program.Keeps Audited (transition id toStatus actor reason supersedes) := by
  intro s h
  refine (transition_spec id toStatus actor reason supersedes).mono ?_
  intro r s' hend
  cases hend with
  | moved hf hnext => exact h.move hf hnext actor reason supersedes
  | missing | same | refused | dangling => exact h

theorem updateFields_audited (id : Nat) (f : Fields) : Program.Keeps Audited (updateFields id f) := by
  intro s h
  refine (updateFields_spec id f).mono ?_
  intro r s' hend
  rcases hend with ⟨_, rfl⟩ | ⟨_, rfl⟩
  · exact h
  · exact h.setFields id f

theorem touchSeen_audited (id : Nat) : Program.Keeps Audited (touchSeen id) :=
  fun _ h => h.touch id

end Keeps

end Flowly.Memory
