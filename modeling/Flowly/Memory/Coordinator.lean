/-
  Flowly.Memory.Coordinator — what users and agents do with the governed memory
  (`flowly/memory/coordinator.py`: `MemoryGovernance`; `flowly/memory/consolidate.py`:
  `apply_operations`; `flowly/memory/dreamer.py`: the commit of candidates).

  What the knowledge graph and the injection scanner answer comes with the operation; the
  graph is not a part of the store. `lower` is Python's `str.lower`.
-/

import Flowly.Memory.Governance

namespace Flowly.Memory

open Flowly.Lib

def strip (s : String) : String := String.ofList (Text.strip s.toList)

variable (lower : String → String)

/-- `" ".join(s.split()).lower()`. -/
def normalize (s : String) : String := lower (String.ofList (Text.join [' '] (Text.words s.toList)))

def factKey (subject predicate : String) : String := "fact:" ++ lower subject ++ "|" ++ lower predicate

/-! ## Ingest -/

/-- `_slug`: the first six words of small ASCII letters and digits. -/
def slug (content : String) : String :=
  let isWord (c : Char) : Bool := ('a' ≤ c && c ≤ 'z') || c.isDigit
  let words := ((lower content).toList.splitOnP fun c => !isWord c).filter fun w => w ≠ []
  "-".intercalate ((words.take 6).map String.ofList)

def reviewReason (flagged : Bool) : String := if flagged then "injection_flagged" else "unreviewed_autonomous_write"

/-- The end of an ingest: active, or to be reviewed. -/
def settle (id : Nat) (activate flagged : Bool) (reason : String) : Gov Unit :=
  if activate then transition id .active "system" reason
  else transition id .needsReview "system" (reviewReason flagged)

def ingestAppend (content : String) (autoActivate flagged : Bool) : Gov Unit := do
  let content := strip content
  if content = "" then return
  else
    let active ← listItems (· = .active)
    match active.find? fun i => normalize lower i.text = normalize lower content with
    | some known => touchSeen known.id
    | none =>
      let item ← addItem { id := 0, kind := "preference", text := content, refKind := "memory_md",
                           normalizedKey := "pref:" ++ slug lower content, confidence := 17 / 20 } "system" "memory_append"
      settle item.id (autoActivate && !flagged) flagged "memory_append"

/-- Supersede the items that `keep` does not hold back. -/
def supersedeAll (siblings : List Item) (keep : Item → Bool) (actor reason : String) (supersedes : Option Nat := none) : Gov Unit :=
  (siblings.filter fun sib => !keep sib).forM fun sib => transition sib.id .superseded actor reason supersedes

def ingestKgFact (subject predicate object triple : String) (autoActivate flagged : Bool) : Gov Unit := do
  let subject := strip subject
  let object := strip object
  if subject = "" ∨ object = "" ∨ lower subject = lower object then return
  else
    let text := strip (subject ++ " " ++ predicate.replace "_" " " ++ " " ++ object)
    let key := factKey lower subject (strip predicate)
    let recorded ← findByRef "kg_triple" triple
    if triple ≠ "" ∧ recorded ≠ [] then return
    else
      let activate := autoActivate && !flagged
      if activate then
        let siblings ← findByKey key [.active]
        supersedeAll siblings (fun sib => sib.refId = some triple) "system" "superseded_by_newer_kg_fact"
      let item ← addItem { id := 0, kind := "fact", text, refKind := "kg_triple", refId := if triple = "" then none else some triple,
                           normalizedKey := key, confidence := 9 / 10 } "system" "knowledge_graph_add"
      settle item.id activate flagged "knowledge_graph_add"

def ingestObsidianCandidate (kind text path sourceLines : String) (confidence : Rat) (privacyLevel : String) (kg : Option Kg) :
    Gov Unit := do
  let text := strip text
  if text = "" then throw (.governance "empty candidate text")
  else
    let kg := if kind = "fact" then kg else none
    let key := match kg with
      | some kg =>
        let subject := lower (strip kg.subject)
        let predicate := lower (strip kg.predicate)
        if subject ≠ "" ∧ predicate ≠ "" then "fact:" ++ subject ++ "|" ++ predicate else ""
      | none => ""
    let _ ← addItem { id := 0, kind, text, status := .needsReview, refKind := "obsidian_note",
                      refId := some (if sourceLines = "" then path else path ++ "#" ++ sourceLines),
                      normalizedKey := key, confidence, privacyLevel, kg } "system" "obsidian_ingest"

/-! ## What a user does -/

/-- The triple `_accept_obsidian_fact` gets; `added` is what `add_triple` gave, empty when
    it raised or there is no graph. -/
def acceptedTriple (kg : Kg) (added : String) : String :=
  if strip kg.subject ≠ "" ∧ strip kg.predicate ≠ "" ∧ strip kg.object ≠ "" then added else ""

/-- The key `_accept_obsidian_fact` clears. -/
def acceptedKey (item : Item) (kg : Kg) : String :=
  if item.normalizedKey ≠ "" then item.normalizedKey
  else if strip kg.subject ≠ "" ∧ strip kg.predicate ≠ "" then factKey lower (strip kg.subject) (strip kg.predicate)
  else ""

/-- The siblings `_accept_obsidian_fact` leaves alone. -/
def acceptKeeps (item : Item) (triple : String) (sib : Item) : Bool := sib.id = item.id || (triple ≠ "" && sib.refId = some triple)

def acceptObsidianFact (item : Item) (kg : Kg) (added : String) : Gov Unit := do
  let triple := acceptedTriple kg added
  let siblings ← findByKey (acceptedKey lower item kg) [.active]
  supersedeAll siblings (acceptKeeps item triple) "user" "superseded_by_obsidian_fact"
  if triple ≠ "" then updateFields item.id { ref := some ("kg_triple", triple) }
  transition item.id .active "user" "user_accept_obsidian_fact"

/-- The payload of a fact from a vault that is not in the graph yet. -/
def Item.pending (i : Item) : Option Kg := if i.refKind = "obsidian_note" ∧ i.kind = "fact" then i.kg else none

def accept (id : Nat) (added : String) : Gov Unit := do
  let item ← getItem id
  match item.bind fun i => i.pending.map (i, ·) with
  | some (item, kg) => acceptObsidianFact lower item kg added
  | none => transition id .active "user" "user_accept"

def reject (id : Nat) : Gov Unit := do
  match ← getItem id with
  | none => throw (.governance s!"item not found: {id}")
  | some _ => transition id .rejected "user" "user_reject"

/-- `except GovernanceError: pass`. -/
def ignoreGovernance (e : Failure) : Gov Unit := if e.isGovernance then return else throw e

def correct (id : Nat) (text : String) (confidence : Option Rat) : Gov Unit := do
  match ← getItem id with
  | none => throw (.governance s!"item not found: {id}")
  | some item =>
    updateFields id { text := some text, confidence }
    if item.status = .needsReview ∨ item.status = .candidate then
      tryCatch (transition id .active "user" "user_correct") ignoreGovernance

def undo (id : Nat) : Gov Unit := do
  match ← getItem id with
  | none => throw (.governance s!"item not found: {id}")
  | some item =>
    if item.status ≠ .superseded ∧ item.status ≠ .stale then
      throw (.governance s!"undo only applies to superseded/stale items (got {item.status.text})")
    else
      let siblings ← findByKey item.normalizedKey [.active]
      supersedeAll siblings (fun sib => sib.id = id) "user" "demoted_by_undo" (some id)
      transition id .active "user" "user_undo"

def ingestFeedback (id : Nat) (helpful : Bool) : Gov Unit := do
  match ← getItem id with
  | none => throw (.governance s!"item not found: {id}")
  | some item =>
    let confidence := max 0 (min 1 (item.confidence + if helpful then 1 / 10 else -(3 / 20)))
    updateFields id { confidence := some confidence }
    if !helpful ∧ confidence < 11 / 20 ∧ item.status = .active then
      transition id .needsReview "user" "feedback_below_floor"

/-! ## The graph -/

def retireKgFacts (triples : List String) : Gov Unit :=
  (triples.filter (· ≠ "")).eraseDups.forM fun triple => do
    let items ← findByRef "kg_triple" triple
    (items.filter fun i => i.status = .active ∨ i.status = .needsReview).forM fun i =>
      transition i.id .stale "system" "knowledge_graph_invalidate"

/-- `reconcile_kg_triples`: which triples the graph has, and which of these are current.
    The triples it closes are the graph's. -/
def reconcileKgTriples (states : List (String × Bool)) : Gov Unit := do
  let items ← listItems fun _ => true
  (items.filter fun i => i.refKind = "kg_triple" && (i.refId.bind fun t => states.lookup t) = some false && i.status = .active).forM
    fun i => transition i.id .stale "system" "kg_triple_closed"

/-! ## Consolidation -/

inductive ConsolidateOp where
  | supersede (id : Nat) (into : Option Nat)
  | stale (id : Nat)
  | merge (id : Nat) (into : Option Nat)

def ConsolidateOp.id : ConsolidateOp → Nat
  | supersede id _ | stale id | merge id _ => id

/-- One turn of `apply_operations`. -/
def applyOperation (op : ConsolidateOp) : Gov Unit := do
  let item ← getItem op.id
  match item.filter fun i => i.status = .active with
  | none => return
  | some _ =>
    match op with
    | .stale id => tryCatch (transition id .stale "system" "consolidate") ignoreGovernance
    | .supersede id into => tryCatch (transition id .superseded "system" "consolidate" into) ignoreGovernance
    | .merge id into =>
      match into.filter (· ≠ id) with
      | none => return
      | some survivor =>
        match (← getItem survivor).filter fun i => i.status = .active with
        | none => return
        | some _ => tryCatch (transition id .superseded "system" "consolidate" (some survivor)) ignoreGovernance

def applyOperations (ops : List ConsolidateOp) : Gov Unit := ops.forM applyOperation

/-! ## The dreamer -/

structure Candidate where
  kind : String
  text : String
  normalizedKey : String := ""
  refKind : String := "inline"
  refId : Option String := none
  privacyLevel : String := "normal"
  confidence : Rat := 0
  isExplicit : Bool := false
  kg : Option Kg := none

/-- The settings of the dreamer; `calibrate` has the candidate and the number of items with
    its key. -/
structure Dreamer where
  autoFloor : Rat := 4 / 5
  reviewFloor : Rat := 11 / 20
  calibrate : Option (Candidate → Nat → Rat) := none

/-- What the injection scanner says. -/
inductive Scan where
  | clean
  | flagged
  | unavailable
  deriving DecidableEq

def createItem (c : Candidate) : Gov Item :=
  addItem { id := 0, kind := c.kind, text := c.text, refKind := c.refKind, refId := c.refId, normalizedKey := c.normalizedKey,
            confidence := c.confidence, privacyLevel := c.privacyLevel, kg := c.kg } "dreamer" "extracted"

/-- `_decide` with no conflict. -/
def decideStatus (m : Dreamer) (c : Candidate) : Status × String :=
  if c.confidence < m.reviewFloor then (.rejected, "below_review_floor")
  else if c.privacyLevel = "sensitive" ∨ c.privacyLevel = "secret" then (.needsReview, "sensitive_requires_review")
  else if m.autoFloor ≤ c.confidence then (.active, "high_confidence_auto")
  else (.needsReview, "mid_confidence_review")

def resolveConflict (m : Dreamer) (c : Candidate) (loser : Item) : Gov Unit := do
  let item ← createItem c
  if !(c.isExplicit && m.autoFloor ≤ c.confidence) then
    transition item.id .needsReview "dreamer" "contradicts_active_fact"
  else
    transition item.id .active "dreamer" "supersedes_older_fact" (some loser.id)
    transition loser.id .superseded "dreamer" "superseded_by_newer"

/-- `_commit_candidate` of a candidate that is clean and new. -/
def commitNew (m : Dreamer) (c : Candidate) (sameKey : List Item) : Gov Unit := do
  let c := match m.calibrate with
    | some f => { c with confidence := f c (sameKey.length + 1) }
    | none => c
  match sameKey.find? fun i => i.status = .active with
  | some loser => resolveConflict m c loser
  | none =>
    let item ← createItem c
    transition item.id (decideStatus m c).1 "dreamer" (decideStatus m c).2

def commitCandidate (m : Dreamer) (c : Candidate) (scan : Scan) : Gov Unit := do
  match scan with
  | .unavailable =>
    let item ← createItem c
    transition item.id .needsReview "dreamer" "injection_scan_unavailable"
  | .flagged =>
    let item ← createItem c
    transition item.id .rejected "dreamer" "prompt_injection_flagged"
  | .clean =>
    let sameKey ← findByKey c.normalizedKey [.active, .needsReview, .candidate]
    match sameKey.find? fun i => normalize lower i.text = normalize lower c.text with
    | some known =>
      touchSeen known.id
      if min 1 (known.confidence + 1 / 20) ≠ known.confidence then
        updateFields known.id { confidence := some (min 1 (known.confidence + 1 / 20)) }
    | none => commitNew m c sameKey

def commitCandidates (m : Dreamer) (cands : List (Candidate × Scan)) : Gov Unit :=
  cands.forM fun c => commitCandidate lower m c.1 c.2

end Flowly.Memory
