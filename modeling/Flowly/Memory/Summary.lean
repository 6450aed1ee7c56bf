/-
  Flowly.Memory.Summary — the generated block of MEMORY.md (`flowly/memory/summary.py`)
  and the owner's editor of the notes around it (`flowly/memory/editor.py`).

  The file is a text; a regeneration reads it in text mode (`universal`), the editor byte
  by byte. Each of the two writers holds the file lock, so each is one step.

  Parameters are `str.lower`, `fold` (`str.casefold` over the words) and `noted_texts`
  (the folded notes that a regular expression cuts out of the manual content): which
  governed copies of a note are left out is theirs to say, and nothing here depends on it.
-/

import Flowly.Lib.Marked
import Flowly.Memory.Governance
import Mathlib.Data.List.Sort
import Mathlib.Data.String.Basic

namespace Flowly.Memory.Summary

open Flowly.Lib Flowly.Lib.Text

structure Env (ρ : Type) where
  lower : String → String
  fold : Text → Text
  notedTexts : Text → List Text
  /-- a digest of a text, of any kind -/
  revision : Text → ρ

/-! ## The block -/

def SENTINEL_START : Text := "<!-- FLOWLY-GENERATED-START -->".toList

def SENTINEL_END : Text := "<!-- FLOWLY-GENERATED-END -->".toList

def EDIT_WARNING : Text :=
  join [' '] (["<!-- This block", "is generated", "by Flowly", "from active", "memory.", "Edits inside", "the markers", "are",
    "overwritten.", "Write notes", "OUTSIDE", "the markers.", "-->"].map String.toList)

def KIND_ORDER : List (String × String) :=
  [("profile", "Profile"), ("preference", "Preferences"), ("project", "Projects"), ("environment", "Environment"),
    ("relationship", "Relationships"), ("procedure", "Procedures"), ("correction", "Corrections"),
    ("temporal", "Time-bound"), ("fact", "Facts")]

def TITLE : Text := "# Memory".toList

def NO_MEMORY : Text := "_No active memory yet._".toList

def KG_HEADING : Text := "## Knowledge Graph".toList

/-- The key is `(-confidence, text.lower())`. -/
def trustLe (lower : String → String) (a b : Item) : Prop :=
  b.confidence < a.confidence ∨ (a.confidence = b.confidence ∧ lower a.text ≤ lower b.text)

instance (lower : String → String) : DecidableRel (trustLe lower) := fun _ _ => inferInstanceAs (Decidable (_ ∨ _ ∧ _))

def group (lower : String → String) (items : List Item) (kind : String) : List Item :=
  (items.filter fun i => decide (i.status = .active) && decide (i.kind = kind)).insertionSort (trustLe lower)

def itemLine (i : Item) : Text := "- ".toList ++ Text.strip i.text.toList

def headingLine (kind : String × String) : Text := "## ".toList ++ kind.2.toList

def kindLines (lower : String → String) (items : List Item) (kind : String × String) : List Text :=
  match group lower items kind.1 with
  | [] => []
  | g => [] :: headingLine kind :: g.map itemLine

def itemLines (lower : String → String) (items : List Item) : List Text := KIND_ORDER.flatMap (kindLines lower items)

def kgLines (kgSummary : Text) : List Text := if hasText kgSummary then [[], KG_HEADING, Text.strip kgSummary] else []

def bodyLines (lower : String → String) (items : List Item) (kgSummary : Text) : List Text :=
  [EDIT_WARNING, [], TITLE] ++ itemLines lower items ++ kgLines kgSummary ++
    (if itemLines lower items ++ kgLines kgSummary = [] then [[], NO_MEMORY] else []) ++ [[]]

def renderGeneratedBlock (lower : String → String) (items : List Item) (kgSummary : Text) : Text :=
  join ['\n'] ([SENTINEL_START] ++ bodyLines lower items kgSummary ++ [SENTINEL_END])

/-! ## The region -/

/-- `text.find(sub, i)`. -/
def findFrom (sub t : Text) (i : Nat) : Option Nat := (find sub (t.drop i)).map (· + i)

/-- `text[i:j]`. -/
def slice (t : Text) (i j : Nat) : Text := (t.take j).drop i

def findRegion (t : Text) : Option (Nat × Nat) :=
  match find SENTINEL_START t with
  | none => none
  | some start =>
    match findFrom SENTINEL_END t (start + SENTINEL_START.length) with
    | none => none
    | some stop => some (start, stop + SENTINEL_END.length)

def spliceGeneratedBlock (existing block : Text) : Text :=
  match findRegion existing with
  | none =>
    if !hasText existing then block ++ ['\n']
    else
      let sep := if existing.getLast? = some '\n' then [] else ['\n']
      existing ++ sep ++ ['\n'] ++ block ++ ['\n']
  | some (start, stop) => existing.take start ++ block ++ existing.drop stop

def extractManualContent (t : Text) : Text :=
  match findRegion t with
  | none => t
  | some (start, stop) =>
    let before := rstripNewlines (t.take start)
    let after := lstripNewlines (t.drop stop)
    if before ≠ [] ∧ after ≠ [] then before ++ ['\n', '\n'] ++ after
    else if before ≠ [] then before
    else after

def regionText (t : Text) : Option Text := (findRegion t).map fun r => slice t r.1 r.2

def summaryOf (generated : Text) : Text :=
  match find (['\n'] ++ KG_HEADING ++ ['\n']) generated with
  | none => []
  | some k =>
    let rest := generated.drop (k + (KG_HEADING.length + 2))
    Text.strip (match find SENTINEL_END rest with
      | none => rest
      | some stop => rest.take stop)

/-! ## The two writers -/

variable {ρ : Type}

/-- Texts are told apart by their equality test. -/
local instance lawful_noted : LawfulBEq Text := inferInstanceAs (LawfulBEq (List Char))

/-- The items that are shown: no secrets, and no governed copy of a note in the file. -/
def shown (env : Env ρ) (existing : Text) (gov : List Item) : List Item :=
  (gov.filter fun i => decide (i.status = .active) && decide (i.privacyLevel ≠ "secret")).filter fun i =>
    !(decide (i.refKind = "memory_md") && decide (env.fold i.text.toList ∈ env.notedTexts (extractManualContent existing)))

/-- The summary that is shown: the one that is given, or that of the file. -/
def kgShown (existing : Text) (kgSummary : Option Text) : Text :=
  match kgSummary with
  | some kg => kg
  | none => ((regionText existing).map summaryOf).getD []

def regenerateMemoryMd (env : Env ρ) (file : Option Text) (gov : List Item) (kgSummary : Option Text) : Text :=
  let existing := universal (file.getD [])
  spliceGeneratedBlock existing (renderGeneratedBlock env.lower (shown env existing gov) (kgShown existing kgSummary))

inductive EditorError where
  | invalidParams
  | memoryConflict
  | memoryTooLarge

def MAX_TEXT_BYTES : Nat := 256 * 1024

def readText : Option Text → Except EditorError Text
  | none => .ok []
  | some t => if MAX_TEXT_BYTES < (String.ofList t).utf8ByteSize then .error .memoryTooLarge else .ok t

/-- `document(workspace, "notes")`: the notes, with their revision. -/
def document (env : Env ρ) (file : Option Text) : Except EditorError (Text × ρ) := do
  let t ← readText file
  pure (extractManualContent t, env.revision (extractManualContent t))

def generatedIn (current : Text) : Option (Nat × Nat) :=
  match find SENTINEL_START current, find SENTINEL_END current with
  | some start, some stop => if start ≤ stop then some (start, stop + SENTINEL_END.length) else none
  | _, _ => none

/-- What is written for the notes `text`. -/
def savedOutput (current text : Text) : Text :=
  match generatedIn current with
  | some (start, stop) => rstrip text ++ ['\n', '\n'] ++ slice current start stop ++ ['\n']
  | none => text

/-- `save_document(workspace, "notes", text, expected)`: the new content of the file and
    the answer, which may be an error although the file is written. -/
def saveDocument [DecidableEq ρ] (env : Env ρ) (file : Option Text) (text : Text) (expected : ρ) :
    Except EditorError (Text × Except EditorError (Text × ρ)) := do
  if contains text SENTINEL_START ∨ contains text SENTINEL_END then throw .invalidParams
  let current ← readText file
  if env.revision (extractManualContent current) ≠ expected then throw .memoryConflict
  let output := savedOutput current text
  pure (output, document env (some output))

/-! ## The file over time -/

inductive Block where
  /-- what was there at the beginning -/
  | found (text : Text)
  | rendered (items : List Item) (kgSummary : Text)

def Block.text (lower : String → String) : Block → Text
  | found t => t
  | rendered items kg => renderGeneratedBlock lower items kg

/-- The summary of the graph that the block shows, its line ends as they are read. -/
def Block.summary : Block → Text
  | found t => summaryOf (universal t)
  | rendered _ kg => universal (Text.strip kg)

structure World where
  file : Option Text
  /-- the notes as the owner left them, which no one keeps beside the file -/
  notes : Text
  /-- the block that is to stand in the file -/
  block : Option Block

inductive Step (ρ : Type) where
  | regenerate (gov : List Item) (kgSummary : Option Text)
  | save (text : Text) (expected : ρ)

namespace World

def text (w : World) : Text := w.file.getD []

/-- A file as it is found. -/
def init (file : Option Text) : World :=
  { file, notes := extractManualContent (file.getD []), block := (regionText (file.getD [])).map .found }

/-- The block that a regeneration is to leave: the summary is kept where none is given. -/
def due (env : Env ρ) (w : World) (gov : List Item) (kgSummary : Option Text) : Block :=
  .rendered (shown env (universal w.text) gov) (kgSummary.getD ((w.block.map Block.summary).getD []))

def next [DecidableEq ρ] (env : Env ρ) (w : World) : Step ρ → World
  | .regenerate gov kgSummary =>
    { w with file := some (regenerateMemoryMd env w.file gov kgSummary), block := some (w.due env gov kgSummary) }
  | .save text expected =>
    match saveDocument env w.file text expected with
    | .error _ => w
    | .ok (output, _) =>
      { file := some output, notes := text, block := if (generatedIn w.text).isSome then w.block else none }

end World

end Flowly.Memory.Summary
