/-
  Flowly.Agent.ToolResults — the messages a tool loop gives its model, and the cuts of
  old tool results it makes (`flowly/compaction/pruning.py`: `iteration_strip_passes`,
  `microcompact_tool_results`, `strip_old_tool_results`;
  `flowly/agent/tool_result_spill.py`: `extract_spill_pointer`).

  The live loop and the replay of its checkpoint both call these, so they are functions
  of the list and their parameters alone. A parameter is an `Int`, as Python's slices
  take one: `xs[:n]` counts from the end when `n` is negative.
-/

import Flowly.Compaction.Message

namespace Flowly.Agent

open Flowly.Lib
open Flowly.Compaction (Role)

/-- A content block. `more` is the JSON of the other keys of a text block; an image or
    another block is its JSON. -/
inductive Block where
  | text (t : Text) (more : Text := [])
  | imageUrl (json : Text)
  | other (json : Text)
  deriving DecidableEq

inductive Content where
  | str (t : Text)
  | blocks (bs : List Block)
  | null
  deriving DecidableEq

/-- An entry of `tool_calls`; `arguments` is JSON text, `extraContent` the JSON of
    `extra_content`. -/
structure ToolCall where
  id : String
  name : String
  arguments : Text := []
  extraContent : Option Text := none
  deriving DecidableEq

/-- A message `dict`: `none` and `[]` are missing keys, `more` is the JSON of the keys
    not listed. -/
structure Message where
  role : Role
  content : Option Content := none
  toolCalls : List ToolCall := []
  toolCallId : Option String := none
  name : Option String := none
  more : Text := []
  deriving DecidableEq

def Message.getContent (m : Message) : Content := m.content.getD (.str [])

/-! ## Slices -/

/-- `xs[:stop]`. -/
def sliceTo {α : Type} (xs : List α) (stop : Int) : List α :=
  if 0 ≤ stop then xs.take stop.toNat else xs.take (xs.length - (-stop).toNat)

def rfind (sub : Text) : Text → Option Nat
  | [] => if sub = [] then some 0 else none
  | c :: t =>
    match rfind sub t with
    | some n => some (n + 1)
    | none => if sub.isPrefixOf (c :: t) then some 0 else none

/-! ## The cuts -/

def ITERATION_STRIP_SCHEDULE : List (Nat × Int × Int) := [(5, 3, 300), (8, 2, 150)]

def iterationStripPasses (iteration : Nat) : List (Int × Int) :=
  (ITERATION_STRIP_SCHEDULE.filter fun pass => iteration > pass.1).map (·.2)

/-- `[i for i, m in enumerate(messages) if p(m)]`. -/
def indicesOf (p : Message → Bool) (messages : List Message) : List Nat :=
  (messages.zipIdx.filter fun m => p m.1).map (·.2)

def isTool (m : Message) : Bool := m.role = .tool

def SPILL_POINTER_MARKER : Text := "FULL output saved to: ".toList

def extractSpillPointer (content : Text) : Option Text :=
  match rfind SPILL_POINTER_MARKER content with
  | none => none
  | some pos =>
    match rfind ['\n', '['] (content.take pos) with
    | none => none
    | some start =>
      match Text.find [']'] (content.drop pos) with
      | none => none
      | some offset => some ((content.take (pos + offset + 1)).drop start)

def microcompacted (content : Text) (truncateChars : Int) : Text :=
  let truncated := sliceTo content truncateChars ++ "\n[old tool output truncated]".toList
  match extractSpillPointer content with
  | some pointer => if pointer ≠ [] ∧ ¬ Text.contains truncated pointer then truncated ++ pointer else truncated
  | none => truncated

def microcompactToolResults (messages : List Message) (keepRecentFull truncateChars : Int) : List Message :=
  let toolIndices := indicesOf isTool messages
  if (toolIndices.length : Int) ≤ keepRecentFull then messages
  else
    let truncate := sliceTo toolIndices (-keepRecentFull)
    messages.zipIdx.map fun (msg, i) =>
      match msg.getContent with
      | .str content =>
        if i ∈ truncate ∧ (content.length : Int) > truncateChars then
          { msg with content := some (.str (microcompacted content truncateChars)) }
        else msg
      | _ => msg

def Block.isImage : Block → Bool
  | .imageUrl _ => true
  | _ => false

def hasImage (m : Message) : Bool :=
  match m.getContent with
  | .blocks bs => bs.any Block.isImage
  | _ => false

def agedBlock (old : Bool) (maxOldChars : Int) : Block → Option Block
  | .imageUrl _ => none
  | .text t _ =>
    let cut := sliceTo t maxOldChars ++ "\n[earlier result truncated, image dropped]".toList
    some (.text (if old && (t.length : Int) > maxOldChars then cut else t))
  | .other json => some (.other json)

def withoutImages (old : Bool) (maxOldChars : Int) (bs : List Block) : Content :=
  match bs.filterMap (agedBlock old maxOldChars) with
  | [.text t _] => .str t
  | parts => .blocks parts

def stripOldToolResults (messages : List Message) (keepLast maxOldChars : Int) (keepLastImages : Int := 1) : List Message :=
  let toolIndices := indicesOf isTool messages
  let imageIndices := indicesOf (fun m => isTool m && hasImage m) messages
  let imageToStrip := if (imageIndices.length : Int) > keepLastImages then sliceTo imageIndices (-keepLastImages) else []
  let toTruncate := if (toolIndices.length : Int) > keepLast then sliceTo toolIndices (-keepLast) else []
  messages.zipIdx.map fun (msg, i) =>
    match msg.getContent with
    | .blocks bs =>
      if i ∈ imageToStrip then { msg with content := some (withoutImages (i ∈ toTruncate) maxOldChars bs) } else msg
    | .str content =>
      if i ∈ toTruncate ∧ (content.length : Int) > maxOldChars then
        { msg with content := some (.str (sliceTo content maxOldChars ++ "\n[earlier result truncated]".toList)) }
      else msg
    | .null => msg

end Flowly.Agent
