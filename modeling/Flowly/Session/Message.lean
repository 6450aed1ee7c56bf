/-
  Flowly.Session.Message — a message as a session stores it (`flowly/session/manager.py`):
  the protocol fields providers see, and the fields that say where it is shown.

  An id in a message is a JSON scalar. The code reads it as `str(v or "")`, so `falsy` is
  a missing id, null, 0 or false, and `other` is a number or true, as it prints. A role
  that no function asks for is `absent`.
-/

import Flowly.Compaction.Message

namespace Flowly.Session

open Flowly.Lib
open Flowly.Compaction (Content Part Role)

inductive IdValue where
  | falsy
  | text (t : String)
  | other (t : String)
  deriving DecidableEq

/-- `str(v or "")`. -/
def IdValue.str : IdValue → String
  | .falsy => ""
  | .text t => t
  | .other t => t

def IdValue.truthy : IdValue → Bool
  | .falsy => false
  | .text t => t ≠ ""
  | .other _ => true

structure ToolCall where
  /-- `isinstance(call, dict)`: a stored call may be any JSON value. -/
  isDict : Bool := true
  id : IdValue := .falsy
  callId : IdValue := .falsy
  name : String := ""
  arguments : Text := []
  deriving DecidableEq

def toolCallId (call : ToolCall) : String :=
  if call.isDict then (if call.callId.truthy then call.callId else call.id).str else ""

structure Message where
  role : Role
  content : Content := .null
  toolCalls : List ToolCall := []
  toolCallId : IdValue := .falsy
  name : Option String := none
  /-- `_provider_replay`. -/
  providerReplay : Option Text := none
  kind : Option String := none
  /-- `_display_hidden`. -/
  displayHidden : Bool := false
  /-- `_archive_summary`. -/
  archiveSummary : Bool := false
  deriving DecidableEq

def Message.answers (m : Message) : String := m.toolCallId.str

/-- The truth value of `str(content or "").strip()`: a list that is not empty prints brackets. -/
def hasWords : Content → Bool
  | .text t => Text.hasText t
  | .parts ps => ps ≠ []
  | .null => false

def isContextBoundary (m : Message) : Bool :=
  Compaction.isContextBoundary
    { role := m.role, content := m.content, boundaryKind := m.kind = some "context_boundary" }

end Flowly.Session
