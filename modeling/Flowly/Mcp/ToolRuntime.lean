/-
  Flowly.Mcp.ToolRuntime — delegated tool calls (`RuntimeToolBridge` in
  `flowly/mcp/server/tool_runtime.py`).

  Actors. `call` checks a request and registers a task for it in one turn of the loop; the
  caller waits for the task behind a shield. The task takes a slot of its grant, then one
  of the bridge, asks the guard, and goes into the registry, whose hooks may take their
  time before the guard is asked again and the tool runs. The guard looks whether the tool
  is available, validates the task's copy of the arguments and puts the path it resolved in
  the place of a local media path. When the task is over, its callback runs in a later
  turn: it gives back what was counted and leaves a tombstone. Grants end by `revoke`,
  `revoke_session`, `stop` and their timer, at any time.

  A grant is in `_grants` as long as it is active: the two change together. The tokens are
  new (`token_urlsafe`), so they are counted. What the registry, its tools, the authority
  checks and the file system say, and what the hooks make of the parameters, comes with
  each event. That a tool is not passed what its signature does not name is left out.
-/

import Mathlib.Data.List.Basic
import Mathlib.Data.Rat.Defs

namespace Flowly.Mcp

def readTools : List String :=
  ["web_search", "web_fetch", "web_extract", "video_analyze", "image_analyze", "skill_view", "skills_list", "board_list",
    "board_get"]

def writeTools : List String := ["image_generate", "voice_generate", "board_add", "board_update", "board_run"]

def maxArgumentBytes : Nat := 12 * 1024 * 1024
def maxPendingCalls : Nat := 64
def maxGrantPendingCalls : Nat := 8
def maxPendingArgumentBytes : Nat := 32 * 1024 * 1024
def maxRequests : Nat := 1024
def maxGrants : Nat := 128

def mediaKey (name : String) : Option String :=
  if name = "video_analyze" then some "video_url" else if name = "image_analyze" then some "image_url" else none

def remoteSchemes : List String := ["http", "https", "data"]

inductive ToolKind where
  /-- An `MCPTool`, with its `readOnlyHint`. -/
  | mcp (readOnly : Bool)
  /-- An `_MCPUtilityTool`. -/
  | utility
  | other

/-- The owner of the bridge, as an event finds it. -/
structure Owner where
  now : Rat := 0
  /-- The registry, by name. -/
  tools : List (String × ToolKind) := []
  /-- `is_available` of a tool on the route of a session key. -/
  isAvailable : String → String → Bool := fun _ _ => true
  /-- The authority check of a grant; true where it has none. -/
  authority : Nat → Bool := fun _ => true
  /-- `_safe_file`; none where it raises. -/
  safeFile : String → Option String := fun _ => none
  /-- The session and the tools of the calling tool's origin. -/
  origin : Option (String × Option (List String)) := none

def permitted (name : String) (tool : Option ToolKind) (allowWrites : Bool) : Bool :=
  match tool with
  | none => false
  | some (.mcp readOnly) => allowWrites || readOnly
  | some .utility => true
  | some .other => name ∈ readTools || (allowWrites && name ∈ writeTools)

structure Grant (φ : Type) where
  sessionKey : String
  names : List String
  expiresAt : Rat
  allowWrites : Bool := false
  pending : Nat := 0
  active : Bool := true
  /-- `calls`: the fingerprint of each request, and its task while that is not a tombstone. -/
  calls : List (String × φ × Option Nat) := []

inductive Stage where
  /-- It waits for a slot of its grant. -/
  | queued
  /-- It waits for a slot of the bridge. -/
  | slotted
  /-- It is in the registry, before the guard. -/
  | executing
  /-- The guard has let it pass: the tool runs. -/
  | dispatched
  /-- The task is over; its callback has not run. -/
  | done
  | finished
  deriving DecidableEq

/-- A task, with what its closure holds. -/
structure Call (α : Type) where
  grant : Nat
  requestId : String
  name : String
  /-- Ghost: the arguments as they were asked for. -/
  requested : α
  /-- The task's own copy, which the guard and the registry's hooks edit in place. -/
  arguments : α := requested
  bytes : Nat
  stage : Stage := .queued
  /-- `Task.cancel` was called. -/
  cancelling : Bool := false

structure Dispatch (α : Type) where
  grant : Nat
  requestId : String
  name : String
  /-- What the registry was given. -/
  handed : α
  /-- What its hooks left of that. -/
  hooked : α
  /-- What the tool was given. -/
  arguments : α

structure Bridge (α φ : Type) where
  /-- Every grant there was; its token is its place. -/
  grants : List (Grant φ) := []
  /-- Every task there was. -/
  calls : List (Call α) := []
  /-- The callers that wait, each with the task behind its shield. -/
  waiters : List Nat := []
  pending : Nat := 0
  pendingBytes : Nat := 0
  closed : Bool := false
  /-- Ghost: the tools that ran, the last first. -/
  dispatches : List (Dispatch α) := []

/-- How arguments are read and encoded. -/
structure Codec (α φ : Type) where
  isObject : α → Bool
  /-- The length and the fingerprint of the JSON of name and arguments, if that is finite. -/
  encode : String → α → Option (Nat × φ)
  /-- The schema of a tool holds of them. -/
  valid : String → α → Bool
  /-- `arguments.get(key, "")`; none if it is no text. -/
  text : α → String → Option String
  set : α → String → String → α
  /-- `urlparse(value).scheme`; none where that raises. -/
  scheme : String → Option String
  /-- `_unwrap_raw_envelope`, where that gives another object. -/
  unwrap : α → Option α

def Call.key {α : Type} (c : Call α) : Nat × String := (c.grant, c.requestId)

def Dispatch.key {α : Type} (d : Dispatch α) : Nat × String := (d.grant, d.requestId)

def Call.unfinished {α : Type} (c : Call α) : Bool := c.stage ≠ .finished

/-- The task can still be cancelled. -/
def Call.running {α : Type} (c : Call α) : Bool := c.stage ≠ .done ∧ c.stage ≠ .finished

def Call.cancel {α : Type} (c : Call α) : Call α := if c.running then { c with cancelling := true } else c

def Call.hasSlot {α : Type} (c : Call α) : Bool := c.stage = .slotted ∨ c.stage = .executing ∨ c.stage = .dispatched

def Call.hasGlobalSlot {α : Type} (c : Call α) : Bool := c.stage = .executing ∨ c.stage = .dispatched

/-- The arguments of `create_grant`. -/
structure GrantRequest where
  sessionKey : String
  names : Option (List String) := none
  allowWrites : Bool := false
  ttl : Rat := 3600
  allowEmpty : Bool := false

namespace Bridge

variable {α φ : Type}

def available (m : Bridge α φ) (o : Owner) (i : Nat) (g : Grant φ) (name : String) : Bool :=
  !m.closed && g.active && o.now < g.expiresAt && o.authority i && name ∈ g.names &&
    permitted name (o.tools.lookup name) g.allowWrites && o.isAvailable g.sessionKey name

def grant (m : Bridge α φ) (o : Owner) (token : Nat) : Except String (Grant φ) :=
  match m.grants[token]? with
  | none => .error "Invalid or expired tool grant"
  | some g => if g.active = false ∨ g.expiresAt ≤ o.now then .error "Invalid or expired tool grant" else .ok g

/-- What `create_grant` selects, or why it refuses. -/
def selects (m : Bridge α φ) (o : Owner) (r : GrantRequest) : Except String (List String) := do
  let raise (message : String) : Except String Unit := throw message
  let allowed := (o.tools.map (·.1)).filter fun n => permitted n (o.tools.lookup n) r.allowWrites
  let selected := r.names.getD allowed
  let reachable := selected.filter fun n => n ∈ o.tools.map (·.1) ∧ o.isAvailable r.sessionKey n
  let inherited := match o.origin with
    | some (_, some names) => reachable.filter (· ∈ names)
    | _ => reachable
  if m.closed then raise "Tool runtime is stopped"
  if r.sessionKey.length < 1 ∨ 512 < r.sessionKey.length ∨ ':' ∉ r.sessionKey.toList then
    raise "An exact Flowly session key is required"
  if r.ttl < 1 ∨ 28800 < r.ttl then raise "Grant duration must be between 1 and 28800 seconds"
  if r.names.any (64 < ·.length) then raise "tools must be a list of at most 64 names"
  if maxGrants ≤ m.grants.countP (·.active) then raise "Too many active tool grants"
  if selected.any (· ∉ allowed) then raise "Requested tools exceed the permitted bridge capabilities"
  if o.origin.any (·.1 ≠ r.sessionKey) then raise "A delegated grant cannot change its owning session"
  if inherited.isEmpty && !r.allowEmpty then raise "No requested tools are available in this session"
  return inherited

def createGrant (m : Bridge α φ) (o : Owner) (r : GrantRequest) : Except String Nat × Bridge α φ :=
  match m.selects o r with
  | .error message => (.error message, m)
  | .ok names =>
    (.ok m.grants.length, { m with grants := m.grants ++
      [{ sessionKey := r.sessionKey, names, expiresAt := o.now + r.ttl, allowWrites := r.allowWrites }] })

def setGrant (m : Bridge α φ) (i : Nat) (f : Grant φ → Grant φ) : Bridge α φ := { m with grants := m.grants.modify i f }

def setCall (m : Bridge α φ) (k : Nat) (c : Call α) : Bridge α φ := { m with calls := m.calls.set k c }

def revokeDigest (m : Bridge α φ) (i : Nat) : Bridge α φ :=
  match m.grants[i]? with
  | none => m
  | some g =>
    if g.active = false then m
    else { m.setGrant i (fun g => { g with active := false }) with
           calls := m.calls.map fun c => if c.grant = i then c.cancel else c }

def revoke (m : Bridge α φ) (o : Owner) (token : Nat) : Except String Unit × Bridge α φ :=
  match m.grant o token with
  | .error message => (.error message, m)
  | .ok _ => (.ok (), m.revokeDigest token)

def revokeAll (m : Bridge α φ) (p : Grant φ → Bool) : Bridge α φ :=
  (List.range m.grants.length).foldl (fun m' i => if (m.grants[i]?).any p then m'.revokeDigest i else m') m

def revokeSession (m : Bridge α φ) (sessionKey : String) : Bridge α φ := m.revokeAll (·.sessionKey = sessionKey)

def stop (m : Bridge α φ) : Bridge α φ := { m with closed := true }.revokeAll fun _ => true

def cancel (m : Bridge α φ) (o : Owner) (token : Nat) (requestId : String) : Except String Unit × Bridge α φ :=
  match m.grant o token with
  | .error message => (.error message, m)
  | .ok g =>
    match g.calls.lookup requestId with
    | some (_, some k) => (.ok (), { m with calls := m.calls.modify k Call.cancel })
    | _ => (.ok (), m)

variable [DecidableEq φ]

/-- The checks of `call`: the task that has the request already, or the size and the
    fingerprint of one that is to be made. -/
def checkCall (m : Bridge α φ) (o : Owner) (codec : Codec α φ) (token : Nat) (requestId name : String) (arguments : α) :
    Except String (Nat ⊕ Nat × φ) :=
  match m.grant o token with
  | .error message => .error message
  | .ok g =>
    if requestId.length < 1 ∨ 128 < requestId.length then .error "A bounded request_id is required"
    else if m.available o token g name = false then .error "Tool is not permitted or is no longer available"
    else if codec.isObject arguments = false then .error "Arguments must be an object"
    else
      match codec.encode name arguments with
      | none => .error "Arguments must be finite JSON values"
      | some (bytes, fingerprint) =>
        if maxArgumentBytes < bytes then .error "Tool arguments exceed the size limit"
        else
          match g.calls.lookup requestId with
          | some (known, task) =>
            if known ≠ fingerprint then .error "request_id was already used with different arguments"
            else
              match task with
              | none => .error "Request already finished; it will not be replayed"
              | some k => .ok (.inl k)
          | none =>
            if maxRequests ≤ g.calls.length then .error "Tool grant request limit reached; open a new grant"
            else if maxPendingCalls ≤ m.pending ∨ maxGrantPendingCalls ≤ g.pending ∨
                maxPendingArgumentBytes < m.pendingBytes + bytes then
              .error "Tool bridge is at capacity; wait for pending calls to finish"
            else .ok (.inr (bytes, fingerprint))

def register (m : Bridge α φ) (token : Nat) (c : Call α) (fingerprint : φ) : Bridge α φ :=
  { m.setGrant token (fun g => { g with pending := g.pending + 1
                                        calls := (c.requestId, fingerprint, some m.calls.length) :: g.calls }) with
    calls := m.calls ++ [c]
    waiters := m.waiters ++ [m.calls.length]
    pending := m.pending + 1
    pendingBytes := m.pendingBytes + c.bytes }

def call (m : Bridge α φ) (o : Owner) (codec : Codec α φ) (token : Nat) (requestId name : String) (arguments : α) :
    Except String Nat × Bridge α φ :=
  match m.checkCall o codec token requestId name arguments with
  | .error message => (.error message, m)
  | .ok (.inl k) => (.ok k, { m with waiters := m.waiters ++ [k] })
  | .ok (.inr (bytes, fingerprint)) =>
    (.ok m.calls.length, m.register token { grant := token, requestId, name, requested := arguments, bytes } fingerprint)

/-! ## The task of a call -/

def acquire (m : Bridge α φ) (k : Nat) : Bridge α φ :=
  match m.calls[k]? with
  | none => m
  | some c =>
    if c.stage = .queued ∧ c.cancelling = false ∧ m.calls.countP (fun d => d.grant = c.grant ∧ d.hasSlot) < 4 then
      m.setCall k { c with stage := .slotted }
    else m

/-- What `dispatch_guard` leaves of a task's arguments; none where it is false or raises. -/
def dispatchGuard (m : Bridge α φ) (o : Owner) (codec : Codec α φ) (c : Call α) : Option α :=
  match m.grants[c.grant]? with
  | none => none
  | some g =>
    if m.available o c.grant g c.name = false ∨ codec.valid c.name c.arguments = false then none
    else
      match mediaKey c.name with
      | none => some c.arguments
      | some key =>
        match codec.text c.arguments key with
        | none => some c.arguments
        | some value =>
          match codec.scheme value with
          | none => none
          | some scheme =>
            if scheme ∈ remoteSchemes then some c.arguments else (o.safeFile value).map (codec.set c.arguments key)

def enter (m : Bridge α φ) (o : Owner) (codec : Codec α φ) (k : Nat) : Bridge α φ :=
  match m.calls[k]? with
  | none => m
  | some c =>
    if c.stage = .slotted ∧ c.cancelling = false ∧ m.calls.countP Call.hasGlobalSlot < 16 then
      match m.dispatchGuard o codec c with
      | none => m.setCall k { c with stage := .done }
      | some arguments => m.setCall k { c with arguments, stage := .executing }
    else m

/-- The hooks are over, and made `edit` of the registry's parameters; the guard is asked,
    and the tool begins to run. -/
def dispatch (m : Bridge α φ) (o : Owner) (codec : Codec α φ) (k : Nat) (edit : α → α) : Bridge α φ :=
  match m.calls[k]? with
  | none => m
  | some c =>
    if c.stage = .executing then
      let hooked := edit ((codec.unwrap c.arguments).getD c.arguments)
      -- out of an envelope the parameters are an object of their own, which the guard does not see
      let own := (codec.unwrap c.arguments).isNone
      let copy := { c with arguments := if own then hooked else c.arguments }
      match m.dispatchGuard o codec copy with
      | none => m.setCall k { copy with stage := .done }
      | some arguments =>
        { m.setCall k { copy with arguments, stage := .dispatched } with
          dispatches := ⟨c.grant, c.requestId, c.name, c.arguments, hooked, if own then arguments else hooked⟩ :: m.dispatches }
    else m

/-- The task ends: it is cancelled where it waits, or the registry is left, with a result,
    an error, a block or a timeout. -/
def endTask (m : Bridge α φ) (k : Nat) : Bridge α φ :=
  match m.calls[k]? with
  | none => m
  | some c =>
    if c.hasGlobalSlot ∨ (c.running ∧ c.cancelling) then m.setCall k { c with stage := .done } else m

def bury (requestId : String) (calls : List (String × φ × Option Nat)) : List (String × φ × Option Nat) :=
  calls.map fun r => if r.1 = requestId then (r.1, r.2.1, none) else r

/-- The callback `finished`. -/
def finish (m : Bridge α φ) (k : Nat) : Bridge α φ :=
  match m.calls[k]? with
  | none => m
  | some c =>
    if c.stage = .done then
      { m.setGrant c.grant (fun g => { g with pending := g.pending - 1, calls := bury c.requestId g.calls }) with
        calls := m.calls.set k { c with stage := .finished }
        pending := m.pending - 1
        pendingBytes := m.pendingBytes - c.bytes }
    else m

/-! ## Runs -/

inductive Event (α : Type) where
  | createGrant (r : GrantRequest)
  | call (token : Nat) (requestId name : String) (arguments : α)
  | cancel (token : Nat) (requestId : String)
  | revoke (token : Nat)
  | revokeSession (sessionKey : String)
  | stop
  /-- The timer of a grant. -/
  | expire (grant : Nat)
  /-- A caller is gone: its side of the shield is cancelled. -/
  | disconnect (waiter : Nat)
  | acquire (task : Nat)
  | enter (task : Nat)
  | dispatch (task : Nat) (edit : α → α)
  | endTask (task : Nat)
  | finish (task : Nat)

def next (codec : Codec α φ) (m : Bridge α φ) (e : Owner × Event α) : Bridge α φ :=
  match e.2 with
  | .createGrant r => (m.createGrant e.1 r).2
  | .call token requestId name arguments => (m.call e.1 codec token requestId name arguments).2
  | .cancel token requestId => (m.cancel e.1 token requestId).2
  | .revoke token => (m.revoke e.1 token).2
  | .revokeSession sessionKey => m.revokeSession sessionKey
  | .stop => m.stop
  | .expire i => m.revokeDigest i
  | .disconnect w => { m with waiters := m.waiters.eraseIdx w }
  | .acquire k => m.acquire k
  | .enter k => m.enter e.1 codec k
  | .dispatch k edit => m.dispatch e.1 codec k edit
  | .endTask k => m.endTask k
  | .finish k => m.finish k

end Bridge

end Flowly.Mcp
