/-
  Flowly.Memory.Runs — sequences of operations on the governed memory.

  Two operations activate a fact and leave what else is active on its key
  (`accept` of an item that is not a fact waiting from a vault, and `correct`). Two keep
  an active sibling that has the triple of the newcomer. The dreamer takes back only one
  active item on the key. And two change items before they are refused: the acceptance
  of a rejected fact from a vault, and a list of candidates with an invalid one in it.
  `Clear` leaves out the steps where that shows.
-/

import Flowly.Memory.Facts

namespace Flowly.Memory

open Flowly.Lib

variable (lower : String → String)

inductive Operation where
  | ingestAppend (content : String) (autoActivate flagged : Bool)
  | ingestKgFact (subject predicate object triple : String) (autoActivate flagged : Bool)
  | ingestObsidianCandidate (kind text path sourceLines : String) (confidence : Rat) (privacyLevel : String) (kg : Option Kg)
  | accept (id : Nat) (added : String)
  | reject (id : Nat)
  | correct (id : Nat) (text : String) (confidence : Option Rat)
  | undo (id : Nat)
  | ingestFeedback (id : Nat) (helpful : Bool)
  | retireKgFacts (triples : List String)
  | reconcileKgTriples (states : List (String × Bool))
  | consolidate (ops : List ConsolidateOp)
  | commit (m : Dreamer) (cands : List (Candidate × Scan))

def Operation.run : Operation → Gov Unit
  | .ingestAppend content autoActivate flagged => Memory.ingestAppend lower content autoActivate flagged
  | .ingestKgFact subject predicate object triple autoActivate flagged =>
    Memory.ingestKgFact lower subject predicate object triple autoActivate flagged
  | .ingestObsidianCandidate kind text path sourceLines confidence privacyLevel kg =>
    Memory.ingestObsidianCandidate lower kind text path sourceLines confidence privacyLevel kg
  | .accept id added => Memory.accept lower id added
  | .reject id => Memory.reject id
  | .correct id text confidence => Memory.correct id text confidence
  | .undo id => Memory.undo id
  | .ingestFeedback id helpful => Memory.ingestFeedback id helpful
  | .retireKgFacts triples => Memory.retireKgFacts triples
  | .reconcileKgTriples states => Memory.reconcileKgTriples states
  | .consolidate ops => applyOperations ops
  | .commit m cands => commitCandidates lower m cands

/-- What an operation ends in, and the store it leaves. -/
def outcome (s : Store) (op : Operation) : Except Failure Unit × Store := Program.exec (op.run lower) s

def step (s : Store) (op : Operation) : Store := (outcome lower s op).2

/-! ## The steps that are clear -/

/-- The fact that `ingest_kg_fact` activates would not stand beside one with its triple. -/
def ClearIngest (s : Store) (subject predicate object triple : String) (activate : Bool) : Prop :=
  activate = true → strip subject ≠ "" → strip object ≠ "" → lower (strip subject) ≠ lower (strip object) →
    (triple ≠ "" → ∀ i ∈ s.items, i.refKind = "kg_triple" → i.refId ≠ some triple) →
    ∀ j ∈ s.items, j.ActiveFact → j.normalizedKey = factKey lower (strip subject) (strip predicate) → j.refId ≠ some triple

/-- The fact from a vault would not stand beside one with its triple; and when it is
    rejected already, nothing is to be superseded for it. -/
def ClearFact (s : Store) (item : Item) (kg : Kg) (added : String) : Prop :=
  (.active ∈ item.status.next → item.normalizedKey ≠ "" → ∀ j ∈ s.items, j.ActiveFact → j.normalizedKey = item.normalizedKey →
    acceptKeeps item (acceptedTriple kg added) j → j.id = item.id) ∧
  (item.status = .rejected → acceptedTriple kg added = "" ∧
    ∀ j ∈ s.withKey (acceptedKey lower item kg) [.active], acceptKeeps item (acceptedTriple kg added) j)

def ClearAccept (s : Store) (id : Nat) (added : String) : Prop :=
  ∀ item ∈ s.items, item.id = id →
    match item.pending with
    | some kg => ClearFact lower s item kg added
    | none => .active ∈ item.status.next → FreeFor s item

def ClearCorrect (s : Store) (id : Nat) : Prop :=
  ∀ item ∈ s.items, item.id = id → item.status = .needsReview ∨ item.status = .candidate → FreeFor s item

/-- The items on the key of a candidate, as `_commit_candidate` sees them. -/
def sameKey (s : Store) (c : Candidate) : List Item := s.withKey c.normalizedKey [.active, .needsReview, .candidate]

def Repeats (s : Store) (c : Candidate) : Prop := ∃ i ∈ sameKey s c, normalize lower i.text = normalize lower c.text

instance (s : Store) (c : Candidate) : Decidable (Repeats lower s c) := inferInstanceAs (Decidable (∃ i ∈ _, _))

def calibrated (m : Dreamer) (s : Store) (c : Candidate) : Candidate :=
  match m.calibrate with
  | some f => { c with confidence := f c ((sameKey s c).length + 1) }
  | none => c

def contradicted (s : Store) (c : Candidate) : Option Item := (sameKey s c).find? fun i => i.status = .active

theorem commitNew_some {m : Dreamer} {s : Store} {c : Candidate} {loser : Item} (h : contradicted s c = some loser) :
    commitNew m c (sameKey s c) = resolveConflict m (calibrated m s c) loser := by
  unfold contradicted at h
  simp only [commitNew, h]
  rfl

theorem commitNew_none {m : Dreamer} {s : Store} {c : Candidate} (h : contradicted s c = none) :
    commitNew m c (sameKey s c) = createItem (calibrated m s c) >>= fun item =>
      transition item.id (decideStatus m (calibrated m s c)).1 "dreamer" (decideStatus m (calibrated m s c)).2 := by
  unfold contradicted at h
  simp only [commitNew, h]
  rfl

def Candidate.item (c : Candidate) : Item :=
  { id := 0, kind := c.kind, text := c.text, refKind := c.refKind, refId := c.refId, normalizedKey := c.normalizedKey,
    confidence := c.confidence, privacyLevel := c.privacyLevel, kg := c.kg }

/-- A candidate that wins takes back every active fact with its key. -/
def ClearCommit (m : Dreamer) (s : Store) (c : Candidate) (scan : Scan) : Prop :=
  scan = .clean → ¬ Repeats lower s c → c.item.Valid → c.isExplicit → m.autoFloor ≤ (calibrated m s c).confidence → c.kind = "fact" →
    ∀ loser ∈ contradicted s c, ∀ j ∈ s.items, j.ActiveFact → j.normalizedKey = c.normalizedKey → j.id = loser.id

def Committed (s : Store) (c : Candidate) (scan : Scan) : Prop := c.item.Valid ∨ (scan = .clean ∧ Repeats lower s c)

instance (s : Store) (c : Candidate) (scan : Scan) : Decidable (Committed lower s c scan) := inferInstanceAs (Decidable (_ ∨ _))

/-- Each candidate in its turn; `started` once something was committed. -/
def ClearCommits (m : Dreamer) : Bool → Store → List (Candidate × Scan) → Prop
  | _, _, [] => True
  | started, s, c :: rest =>
    ClearCommit lower m s c.1 c.2 ∧ (started = true → Committed lower s c.1 c.2) ∧
      (Committed lower s c.1 c.2 → ClearCommits m true (Program.exec (commitCandidate lower m c.1 c.2) s).2 rest)

/-- The condition on a step, in the store before it. -/
def Clear (s : Store) : Operation → Prop
  | .ingestKgFact subject predicate object triple autoActivate flagged =>
    ClearIngest lower s subject predicate object triple (autoActivate && !flagged)
  | .accept id added => ClearAccept lower s id added
  | .correct id _ _ => ClearCorrect s id
  | .commit m cands => ClearCommits lower m false s cands
  | _ => True

section Decidable

variable (s : Store)

instance (subject predicate object triple : String) (activate : Bool) :
    Decidable (ClearIngest lower s subject predicate object triple activate) := by
  unfold ClearIngest
  infer_instance

instance (item : Item) (kg : Kg) (added : String) : Decidable (ClearFact lower s item kg added) := by
  unfold ClearFact
  infer_instance

instance (id : Nat) (added : String) : Decidable (ClearAccept lower s id added) :=
  have (item : Item) : Decidable (match item.pending with
      | some kg => ClearFact lower s item kg added
      | none => .active ∈ item.status.next → FreeFor s item) :=
    match item.pending with
    | some kg => inferInstanceAs (Decidable (ClearFact lower s item kg added))
    | none => inferInstanceAs (Decidable (.active ∈ item.status.next → FreeFor s item))
  inferInstanceAs (Decidable (∀ item ∈ s.items, item.id = id → match item.pending with
    | some kg => ClearFact lower s item kg added
    | none => .active ∈ item.status.next → FreeFor s item))

instance (id : Nat) : Decidable (ClearCorrect s id) := by
  unfold ClearCorrect
  infer_instance

instance (m : Dreamer) (c : Candidate) (scan : Scan) : Decidable (ClearCommit lower m s c scan) := by
  unfold ClearCommit
  infer_instance

instance ClearCommits.decidable (m : Dreamer) : ∀ started s cands, Decidable (ClearCommits lower m started s cands)
  | _, _, [] => isTrue trivial
  | started, s, c :: rest =>
    have := ClearCommits.decidable m true (Program.exec (commitCandidate lower m c.1 c.2) s).2 rest
    inferInstanceAs (Decidable (ClearCommit lower m s c.1 c.2 ∧ (started = true → Committed lower s c.1 c.2) ∧
      (Committed lower s c.1 c.2 → _)))

instance : ∀ op, Decidable (Clear lower s op)
  | .ingestKgFact subject predicate object triple autoActivate flagged =>
    inferInstanceAs (Decidable (ClearIngest lower s subject predicate object triple (autoActivate && !flagged)))
  | .accept id added => inferInstanceAs (Decidable (ClearAccept lower s id added))
  | .correct id _ _ => inferInstanceAs (Decidable (ClearCorrect s id))
  | .commit m cands => inferInstanceAs (Decidable (ClearCommits lower m false s cands))
  | .ingestAppend .. | .ingestObsidianCandidate .. | .reject .. | .undo .. | .ingestFeedback .. | .retireKgFacts .. | .reconcileKgTriples ..
  | .consolidate .. => isTrue trivial

end Decidable

/-! ## The history is kept -/

section Audited

variable {lower}

theorem settle_audited (id : Nat) (activate flagged : Bool) (reason : String) :
    Program.Keeps Audited (settle id activate flagged reason) := by
  unfold settle
  split
  · exact transition_audited _ _ _ _ _
  · exact transition_audited _ _ _ _ _

theorem supersedeAll_audited (siblings : List Item) (keep : Item → Bool) (actor reason : String) (supersedes : Option Nat) :
    Program.Keeps Audited (supersedeAll siblings keep actor reason supersedes) :=
  Program.Keeps.forM (fun _ => transition_audited _ _ _ _ _) _

theorem ignored_audited {x : Gov Unit} (h : Program.Keeps Audited x) : Program.Keeps Audited (tryCatch x ignoreGovernance) := by
  refine h.tryCatch ?_
  intro e
  unfold ignoreGovernance
  split
  · exact Program.Keeps.pure _
  · exact Program.Keeps.throw _

theorem ingestAppend_audited (content : String) (autoActivate flagged : Bool) :
    Program.Keeps Audited (ingestAppend lower content autoActivate flagged) := by
  unfold ingestAppend
  dsimp only
  split
  · exact Program.Keeps.pure _
  · refine (listItems_audited _).bind fun active => ?_
    split
    · exact touchSeen_audited _
    · exact (addItem_audited _ _ _).bind fun item => settle_audited _ _ _ _

theorem ingestKgFact_audited (subject predicate object triple : String) (autoActivate flagged : Bool) :
    Program.Keeps Audited (ingestKgFact lower subject predicate object triple autoActivate flagged) := by
  unfold ingestKgFact
  dsimp only
  split
  · exact Program.Keeps.pure _
  · refine (findByRef_audited _ _).bind fun recorded => ?_
    split
    · exact Program.Keeps.pure _
    · have hadd : ∀ new : Item, Program.Keeps Audited (do
          let item ← addItem new "system" "knowledge_graph_add"
          settle item.id (autoActivate && !flagged) flagged "knowledge_graph_add") :=
        fun _ => (addItem_audited _ _ _).bind fun _ => settle_audited _ _ _ _
      split
      · exact (findByKey_audited _ _).bind fun _ => (supersedeAll_audited _ _ _ _ _).bind fun _ => hadd _
      · exact hadd _

theorem ingestObsidianCandidate_audited (kind text path sourceLines : String) (confidence : Rat) (privacyLevel : String) (kg : Option Kg) :
    Program.Keeps Audited (ingestObsidianCandidate lower kind text path sourceLines confidence privacyLevel kg) := by
  unfold ingestObsidianCandidate
  dsimp only
  split
  · exact Program.Keeps.throw _
  · exact (addItem_audited _ _ _).bind fun _ => Program.Keeps.pure _

theorem acceptObsidianFact_audited (item : Item) (kg : Kg) (added : String) :
    Program.Keeps Audited (acceptObsidianFact lower item kg added) := by
  unfold acceptObsidianFact
  refine (findByKey_audited _ _).bind fun siblings => (supersedeAll_audited _ _ _ _ _).bind fun _ => ?_
  split
  · exact (updateFields_audited _ _).bind fun _ => transition_audited _ _ _ _ _
  · exact transition_audited _ _ _ _ _

theorem accept_audited (id : Nat) (added : String) : Program.Keeps Audited (accept lower id added) := by
  refine (getItem_audited id).bind fun item => ?_
  split
  · exact acceptObsidianFact_audited _ _ _
  · exact transition_audited _ _ _ _ _

theorem reject_audited (id : Nat) : Program.Keeps Audited (reject id) := by
  refine (getItem_audited id).bind fun item => ?_
  split
  · exact Program.Keeps.throw _
  · exact transition_audited _ _ _ _ _

theorem correct_audited (id : Nat) (text : String) (confidence : Option Rat) : Program.Keeps Audited (correct id text confidence) := by
  refine (getItem_audited id).bind fun item => ?_
  split
  · exact Program.Keeps.throw _
  · exact (updateFields_audited _ _).bind fun _ => .ite (ignored_audited (transition_audited _ _ _ _ _)) (Program.Keeps.pure _)

theorem undo_audited (id : Nat) : Program.Keeps Audited (undo id) := by
  refine (getItem_audited id).bind fun item => ?_
  split
  · exact Program.Keeps.throw _
  · split
    · exact Program.Keeps.throw _
    · exact (findByKey_audited _ _).bind fun siblings => (supersedeAll_audited _ _ _ _ _).bind fun _ => transition_audited _ _ _ _ _

theorem ingestFeedback_audited (id : Nat) (helpful : Bool) : Program.Keeps Audited (ingestFeedback id helpful) := by
  refine (getItem_audited id).bind fun item => ?_
  split
  · exact Program.Keeps.throw _
  · exact (updateFields_audited _ _).bind fun _ => .ite (transition_audited _ _ _ _ _) (Program.Keeps.pure _)

theorem retireKgFacts_audited (triples : List String) : Program.Keeps Audited (retireKgFacts triples) :=
  Program.Keeps.forM (fun _ => (findByRef_audited _ _).bind fun _ => Program.Keeps.forM (fun _ => transition_audited _ _ _ _ _) _) _

theorem reconcileKgTriples_audited (states : List (String × Bool)) : Program.Keeps Audited (reconcileKgTriples states) :=
  (listItems_audited _).bind fun _ => Program.Keeps.forM (fun _ => transition_audited _ _ _ _ _) _

theorem applyOperation_audited (op : ConsolidateOp) : Program.Keeps Audited (applyOperation op) := by
  refine (getItem_audited _).bind fun item => ?_
  split
  · exact Program.Keeps.pure _
  · split
    · exact ignored_audited (transition_audited _ _ _ _ _)
    · exact ignored_audited (transition_audited _ _ _ _ _)
    · split
      · exact Program.Keeps.pure _
      · refine (getItem_audited _).bind fun survivor => ?_
        split
        · exact Program.Keeps.pure _
        · exact ignored_audited (transition_audited _ _ _ _ _)

theorem resolveConflict_audited (m : Dreamer) (c : Candidate) (loser : Item) : Program.Keeps Audited (resolveConflict m c loser) := by
  refine (addItem_audited _ _ _).bind fun item => ?_
  split
  · exact transition_audited _ _ _ _ _
  · exact (transition_audited _ _ _ _ _).bind fun _ => transition_audited _ _ _ _ _

theorem commitNew_audited (m : Dreamer) (c : Candidate) (sameKey : List Item) : Program.Keeps Audited (commitNew m c sameKey) := by
  unfold commitNew
  dsimp only
  generalize (match m.calibrate with
    | some f => _
    | none => c) = c'
  split
  · exact resolveConflict_audited _ _ _
  · exact (addItem_audited _ _ _).bind fun item => transition_audited _ _ _ _ _

theorem commitCandidate_audited (m : Dreamer) (c : Candidate) (scan : Scan) : Program.Keeps Audited (commitCandidate lower m c scan) := by
  cases scan with
  | unavailable | flagged => exact (addItem_audited _ _ _).bind fun item => transition_audited _ _ _ _ _
  | clean =>
    refine (findByKey_audited _ _).bind fun sameKey => ?_
    split
    · refine (touchSeen_audited _).bind fun _ => ?_
      split
      · exact updateFields_audited _ _
      · exact Program.Keeps.pure _
    · exact commitNew_audited _ _ _

/-- Whatever an operation does, and however it ends, the history is kept. -/
theorem run_audited (op : Operation) : Program.Keeps Audited (op.run lower) := by
  cases op with
  | ingestAppend => exact ingestAppend_audited _ _ _
  | ingestKgFact => exact ingestKgFact_audited _ _ _ _ _ _
  | ingestObsidianCandidate => exact ingestObsidianCandidate_audited _ _ _ _ _ _ _
  | accept => exact accept_audited _ _
  | reject => exact reject_audited _
  | correct => exact correct_audited _ _ _
  | undo => exact undo_audited _
  | ingestFeedback => exact ingestFeedback_audited _ _
  | retireKgFacts => exact retireKgFacts_audited _
  | reconcileKgTriples => exact reconcileKgTriples_audited _
  | consolidate => exact Program.Keeps.forM applyOperation_audited _
  | commit m => exact Program.Keeps.forM (fun _ => commitCandidate_audited m _ _) _

end Audited

end Flowly.Memory
