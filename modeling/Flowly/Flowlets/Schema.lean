/-
  Flowly.Flowlets.Schema — what the validator asks of the keys and the actions of a
  definition (`flowly/flowlets/schema.py`: `_validate_state_spec`, `_validate_node`,
  `_validate_action`, `_validate_component_extras` for checklists, `_validate_form`).

  The validator goes over the layout and over each screen a row opens. It looks only where
  a component may have others below it: under the children of a container and under the
  row template of a repeater, eight levels deep. It refuses children anywhere else, what
  lies deeper, and a screen that no row opens, so that what it has accepted it has seen.
  The rest of its checks only reject more.
-/

import Flowly.Flowlets.Actions

namespace Flowly.Flowlets

open Flowly.Lib

/-- `if not ok: raise _err(msg)`. -/
def check (ok : Bool) (msg : String) : Except String Unit := if ok then .ok () else .error msg

def isNat (j : Json) (lo hi : Nat) : Bool :=
  match j.num? with
  | some q => q.den = 1 ∧ (lo : Rat) ≤ q ∧ q ≤ (hi : Rat)
  | none => false

/-- `_KEY_RE`. -/
def isKey (s : String) : Bool :=
  match s.toList with
  | c :: rest => c.isAlpha && rest.all isNameChar
  | [] => false

/-! ## The keys -/

def stateTypes : List String := ["number", "bool", "string", "timer", "list"]

def itemFieldTypes : List String := ["string", "number", "bool", "date", "image"]

def maxItemFields : Nat := 8

def nullOr (ok : Json → Bool) (j : Json) : Bool := j.isNull || ok j

section Spec

-- `repr` is Python's.
variable (repr : Json → String)

/-- `sorted(names)` as a message has it. -/
def reprSorted (names : List String) : String := repr (.arr ((names.mergeSort fun a b => a ≤ b).map .str))

def validateNumberSpec (key : String) (spec : Json) : Except String Unit := do
  check (nullOr (·.num?.isSome) (spec.get "default")) s!"state '{key}': default must be a number"
  check (nullOr (·.num?.isSome) (spec.get "min")) s!"state '{key}': min must be a number"
  check (nullOr (·.num?.isSome) (spec.get "max")) s!"state '{key}': max must be a number"
  match (spec.get "min").num?, (spec.get "max").num? with
  | some mn, some mx =>
    check (mn < mx) s!"state '{key}': min ({repr (.num mn)}) must be < max ({repr (.num mx)})"
  | _, _ => pure ()
  check (nullOr (·.bool?.isSome) (spec.get "nullable")) s!"state '{key}': nullable must be true or false"

def validateItemField (key : String) (f : String × Json) : Except String Unit := do
  check (isKey f.1) s!"state '{key}': item field '{f.1}' is an invalid name"
  check (f.1 ≠ "id") s!"state '{key}': `id` is reserved (assigned automatically)"
  check (f.2.str?.any itemFieldTypes.contains)
    s!"state '{key}': item field '{f.1}' type must be one of {reprSorted repr itemFieldTypes}, got {repr f.2}"

def validateListSpec (key : String) (spec : Json) : Except String Unit := do
  check ((spec.get "item").isObj && (spec.get "item").truthy)
    s!"state '{key}': a list needs an `item` field schema, e.g. \x7b\"title\": \"string\", \"done\": \"bool\"\x7d"
  check ((spec.get "item").fields.length ≤ maxItemFields) s!"state '{key}': at most {maxItemFields} item fields"
  (spec.get "item").fields.forM (validateItemField repr key)
  check (nullOr (isNat · 1 maxListItems) (spec.get "max")) s!"state '{key}': `max` must be an integer 1..{maxListItems}"

def validateStateSpec (key : String) (spec : Json) : Except String Unit := do
  check spec.isObj s!"state '{key}' must be an object with a `type`"
  let given := repr (spec.get "type")
  check ((spec.get "type").str?.any stateTypes.contains) s!"state '{key}': type must be one of {reprSorted repr stateTypes}, got {given}"
  match (spec.get "type").str? with
  | some "number" => validateNumberSpec repr key spec
  | some "bool" => check (nullOr (·.bool?.isSome) (spec.get "default")) s!"state '{key}': default must be true or false"
  | some "string" => do
    check (nullOr (·.str?.isSome) (spec.get "default")) s!"state '{key}': default must be a string"
    check (nullOr (fun m => m.num?.any fun q => q.den = 1 ∧ 0 < q) (spec.get "maxLength"))
      s!"state '{key}': maxLength must be a positive integer"
    check (nullOr (·.str? = some "date") (spec.get "format")) s!"state '{key}': format may only be \"date\""
  | some "list" => validateListSpec repr key spec
  | _ => pure ()

end Spec

def isListSpec (spec : Json) : Bool := spec.isObj && (spec.get "type").str? = some "list"

structure Ctx where
  /-- State keys that are no lists, and computed keys: both resolve to scalars. -/
  scalarKeys : List String
  seriesKeys : List String
  /-- With the fields of an item. -/
  listKeys : List (String × Json)
  timerKeys : List String
  sourceKeys : List String
  /-- The list of the row the walk is in. -/
  itemSource : Option String := none

def ctxOf (d : Json) (itemSource : Option String) : Ctx where
  scalarKeys := ((d.get "state").fields.filter fun f => !isListSpec f.2).map (·.1) ++ (d.get "computed").fields.map (·.1)
  seriesKeys := (d.get "series").fields.map (·.1)
  listKeys := ((d.get "state").fields.filter fun f => isListSpec f.2).map fun f => (f.1, f.2.get "item")
  timerKeys := ((d.get "state").fields.filter fun f => f.2.isObj && (f.2.get "type").str? = some "timer").map (·.1)
  sourceKeys := ((d.get "state").fields.filter fun f => f.2.isObj && (f.2.get "source").bool? = some true).map (·.1)
  itemSource

namespace Ctx

def fieldsOf (ctx : Ctx) (key : Json) : Json := ((key.str?.bind fun k => ctx.listKeys.lookup k).getD .null)

def isScalar (ctx : Ctx) (key : Json) : Bool := key.str?.any ctx.scalarKeys.contains

def isSeries (ctx : Ctx) (series : Json) : Bool := series.str?.any ctx.seriesKeys.contains

def isTimer (ctx : Ctx) (key : Json) : Bool := key.str?.any ctx.timerKeys.contains

def isSource (ctx : Ctx) (key : Json) : Bool := key.str?.any ctx.sourceKeys.contains

def isList (ctx : Ctx) (key : Json) : Bool := key.str?.any (ctx.listKeys.map (·.1)).contains

end Ctx

/-! ## The actions -/

def actionOps : List String :=
  ["set", "increment", "decrement", "toggle", "log", "remove_last", "reset", "agent", "batch", "timer_toggle",
    "item_add", "item_update", "item_remove", "item_toggle", "item_move", "vision"]

def writeOps : List String :=
  ["set", "increment", "decrement", "toggle", "reset", "timer_toggle", "item_add", "item_update", "item_remove",
    "item_toggle", "item_move"]

def maxVisionPromptLen : Nat := 1000

section Action

variable (repr : Json → String) (ctx : Ctx)

/-- `site` is `<type> (id=<id>)` in all of these. -/
def validateScalarOp (site op : String) (a : Json) : Except String Unit := do
  let given := repr (a.get "key")
  check (ctx.isScalar (a.get "key")) s!"{site} action `{op}` needs `key` naming a declared state key; got {given}"
  check (!(op = "increment" || op = "decrement") || !a.has "by" || (a.get "by").num?.isSome)
    s!"{site} action `{op}` `by` must be a number"

def validateSeriesOp (site op : String) (a : Json) : Except String Unit := do
  let given := repr (a.get "series")
  check (ctx.isSeries (a.get "series")) s!"{site} action `{op}` needs `series` naming a declared series; got {given}"
  check (op ≠ "log" || !a.has "value" || (a.get "value").num?.isSome) s!"{site} action `log` `value` must be a number"
  check (op ≠ "log" || !a.has "category" || (a.get "category").str?.any fun c => strip c ≠ "" ∧ c.toList.length ≤ 120)
    s!"{site} action `log` `category` must be a non-empty string (≤120 chars; may contain \x7btokens\x7d)"

def validateReset (host : Host) (site : String) (a : Json) : Except String Unit := do
  let key := host.toStr (a.get "key")
  let series := host.toStr (a.get "series")
  check (!((a.get "key").isNull && (a.get "series").isNull)) s!"{site} action `reset` needs `key` or `series`"
  check (nullOr ctx.isScalar (a.get "key")) s!"{site} action `reset` key '{key}' is not a state key"
  check (nullOr ctx.isSeries (a.get "series")) s!"{site} action `reset` series '{series}' is not declared"

def validateTimerToggle (site : String) (a : Json) : Except String Unit :=
  let given := repr (a.get "key")
  check (ctx.isTimer (a.get "key")) s!"{site} action `timer_toggle` needs `key` naming a declared timer state; got {given}"

def validateAgent (site : String) (a : Json) : Except String Unit := do
  check ((a.get "message").str?.any fun m => strip m ≠ "") s!"{site} action `agent` needs a non-empty `message`"
  check ((a.get "message").str?.any fun m => m.toList.length ≤ 2000) s!"{site} action `agent` message is too long (max 2000)"

def validateListKey (site op : String) (a : Json) : Except String Unit :=
  let given := repr (a.get "key")
  let lists := reprSorted repr (ctx.listKeys.map (·.1))
  check (ctx.isList (a.get "key"))
    s!"{site} action `{op}` needs `key` naming a declared list state key; got {given} (declared lists: {lists})"

def validateItemAdd (site : String) (a : Json) : Except String Unit := do
  validateListKey repr ctx site "item_add" a
  let fields := ctx.fieldsOf (a.get "key")
  let declared := reprSorted repr (fields.fields.map (·.1))
  check (nullOr Json.isObj (a.get "item")) s!"{site} `item_add` `item` must be an object of fields"
  (a.get "item").fields.forM fun f =>
    check (fields.has f.1) s!"{site} `item_add` sets unknown field '{f.1}' (declared: {declared})"
  check (nullOr Json.isObj (a.get "fields")) s!"{site} `item_add` `fields` must be an object of field templates"
  (a.get "fields").fields.forM fun f =>
    check (fields.has f.1) s!"{site} `item_add` `fields` sets unknown field '{f.1}' (declared: {declared})"

def validateItemUpdate (host : Host) (site : String) (fields a : Json) : Except String Unit := do
  check ((a.get "field").isNull ≠ (a.get "fields").isNull)
    s!"{site} `item_update` needs exactly one of `field` (client value) or `fields` (fixed values)"
  check (nullOr (·.str?.any fields.has) (a.get "field")) (s!"{site} `item_update` unknown field '" ++ host.toStr (a.get "field") ++ "'")
  check (nullOr (fun fs => fs.isObj && fs.truthy) (a.get "fields")) s!"{site} `item_update` `fields` must be a non-empty object"
  (a.get "fields").fields.forM fun f => check (fields.has f.1) s!"{site} `item_update` unknown field '{f.1}'"

def validateItemToggle (host : Host) (site : String) (fields a : Json) : Except String Unit := do
  check ((a.get "field").str?.any fields.has) s!"{site} `item_toggle` needs a declared `field`"
  check ((a.get "field").str?.any fun f => (fields.get f).str? = some "bool")
    (s!"{site} `item_toggle` field '" ++ host.toStr (a.get "field") ++ "' must be bool")

def validateRowOp (host : Host) (site op : String) (a : Json) : Except String Unit := do
  validateListKey repr ctx site op a
  check (ctx.itemSource = (a.get "key").str?)
    (s!"{site} action `{op}` must sit inside the repeater whose `source` is '" ++ host.toStr (a.get "key") ++ "'")
  let fields := ctx.fieldsOf (a.get "key")
  match op with
  | "item_toggle" => validateItemToggle host site fields a
  | "item_update" => validateItemUpdate host site fields a
  | _ => pure ()

def validateVision (site : String) (a : Json) : Except String Unit := do
  check ((a.get "prompt").str?.any fun p => strip p ≠ "") s!"{site} action `vision` needs a non-empty `prompt`"
  check ((a.get "prompt").str?.any fun p => p.toList.length ≤ maxVisionPromptLen)
    s!"{site} action `vision` prompt is too long (max {maxVisionPromptLen})"
  check (ctx.isList (a.get "into")) (s!"{site} action `vision` `into` must name a declared list state key; got " ++ repr (a.get "into"))
  check (!ctx.isSource (a.get "into"))
    (s!"{site} action `vision` `into` targets '" ++ ((a.get "into").str?).getD "" ++ "', which is owned by a data source and is read-only")
  check (nullOr (fun ds => ds.isArr && ds.items.all fun f => f.str?.any fun f => ((ctx.fieldsOf (a.get "into")).get f).str? = some "date")
    (a.get "dateDefaults")) s!"{site} vision dateDefaults must list declared date fields"

/-- `once not in ("day", "week", True)`, where `1 == True`. -/
def isOnce (once : Json) : Bool :=
  once.str? = some "day" || once.str? = some "week" || once.bool? = some true || once.num? = some 1

/-- `_validate_action` up to the checks of the op. -/
def validateCommon (site : String) (a : Json) : Except String Unit := do
  check a.isObj s!"{site} `action` must be an object with an `op`"
  check ((a.get "op").str?.any actionOps.contains)
    (s!"{site} action op must be one of {reprSorted repr actionOps}, got " ++ repr (a.get "op"))
  check (nullOr isOnce (a.get "once")) (s!"{site} `once` must be \"day\", \"week\", or true; got " ++ repr (a.get "once"))
  check (!(ctx.isSource (a.get "key") && writeOps.contains (opName a)))
    (s!"{site} action `{opName a}` targets '" ++ ((a.get "key").str?).getD "" ++ "', which is owned by a data source and is read-only")

/-- `_validate_action` of an op that is no batch. -/
def validateOp (host : Host) (site : String) (a : Json) : Except String Unit := do
  validateCommon repr ctx site a
  match opName a with
  | "set" | "increment" | "decrement" | "toggle" => validateScalarOp repr ctx site (opName a) a
  | "log" | "remove_last" => validateSeriesOp repr ctx site (opName a) a
  | "reset" => validateReset ctx host site a
  | "timer_toggle" => validateTimerToggle repr ctx site a
  | "agent" => validateAgent site a
  | "item_add" => validateItemAdd repr ctx site a
  | "item_update" | "item_toggle" | "item_remove" | "item_move" => validateRowOp repr ctx host site (opName a) a
  | "vision" => validateVision repr ctx site a
  | _ => pure ()

def validateAction (host : Host) (site : String) (a : Json) : Except String Unit := do
  if opName a = "batch" then
    validateCommon repr ctx site a
    check ((a.get "ops").isArr && (a.get "ops").truthy) s!"{site} action `batch` needs a non-empty `ops` array"
    check ((a.get "ops").items.length ≤ 20) s!"{site} action `batch` supports at most 20 ops"
    (a.get "ops").items.forM fun sub => do
      check (opName sub ≠ "batch") s!"{site} action `batch` cannot nest another batch"
      validateOp repr ctx host site sub
  else validateOp repr ctx host site a

def validateChecklist (host : Host) (site : String) (node : Json) : Except String Unit := do
  check ((node.get "items").isArr && (node.get "items").truthy) s!"{site} needs a non-empty `items` array"
  (node.get "items").items.forM fun it => do
    check (it.isObj && it.has "key") s!"{site} items each need a `key`"
    check (ctx.isScalar (it.get "key")) (s!"{site} item key '" ++ host.toStr (it.get "key") ++ "' must be a declared state key")

def fieldOf (fspec : Json) : String := ((fspec.get "field").str?).getD ""

/-- The loop of `_validate_form`, with the names it has `seen`. -/
def validateFormFields (id into : String) (item : Json) : List String → List Json → Except String Unit
  | _, [] => .ok ()
  | seen, f :: rest => do
    let name := fieldOf f
    let ftype := ((item.get name).str?).getD ""
    let declared := reprSorted repr (item.fields.map (·.1))
    check (f.isObj && (f.get "field").str?.isSome) s!"form (id={id}) each field needs a string `field` name"
    check (item.has name) s!"form (id={id}) field '{name}' is not on list '{into}' (declared: {declared})"
    check (!seen.contains name) s!"form (id={id}) field '{name}' is listed twice"
    check (!(name = "id" || ftype = "image")) s!"form (id={id}) can't edit the '{name}' field"
    check (nullOr (fun opts => opts.isArr && opts.truthy) (f.get "options"))
      s!"form (id={id}) field '{name}' `options` must be a non-empty array"
    check (nullOr (fun _ => ftype = "string") (f.get "options"))
      s!"form (id={id}) field '{name}' has `options` but is a {ftype} field; options are for string fields only"
    validateFormFields id into item (name :: seen) rest

def validateForm (node : Json) : Except String Unit := do
  let id := ((node.get "id").str?).getD ""
  let into := ((node.get "into").str?).getD ""
  let given := repr (node.get "into")
  check (id ≠ "") "form needs a stable `id` (it namespaces the form's draft state)"
  check ctx.itemSource.isNone s!"form (id={id}) can't be nested inside a repeater row"
  check (ctx.isList (node.get "into")) s!"form (id={id}) must name a declared list state key; got {given}"
  check (!ctx.isSource (node.get "into"))
    s!"form (id={id}) list '{into}' is data-source-owned (read-only); a form/tracker writes rows, so point it at a user list"
  check ((node.get "fields").isArr && (node.get "fields").truthy) s!"form (id={id}) needs a non-empty `fields` array"
  check ((node.get "fields").items.length ≤ maxItemFields) s!"form (id={id}) has too many fields (max {maxItemFields})"
  validateFormFields repr id into (ctx.fieldsOf (node.get "into")) [] (node.get "fields").items

end Action

/-! ## The walk -/

def maxDepth : Nat := 8

def typeOf (node : Json) : String := ((node.get "type").str?).getD ""

def containerTypes : List String := ["card", "row", "column", "grid", "list"]

/-- The components `_validate_node` comes to, each with the list of the row it is in. -/
def visit : Nat → Option String → Json → List (Option String × Json)
  | 0, _, _ => []
  | fuel + 1, source, node =>
    (source, node) ::
      ((if typeOf node = "repeater" then visit fuel (node.get "source").str? (node.get "item") else []) ++
        if containerTypes.contains (typeOf node) then (node.get "children").items.flatMap (visit fuel source) else [])

/-- No more than so many levels: the depth `_validate_node` allows. -/
def nested : Nat → Json → Bool
  | 0, _ => false
  | fuel + 1, node =>
    (typeOf node ≠ "repeater" || nested fuel (node.get "item")) &&
      (!containerTypes.contains (typeOf node) || (node.get "children").items.all (nested fuel))

/-- The screens a row of the layout opens, each with the list it is of. -/
def navigations (main : List (Option String × Json)) : List (String × String) :=
  main.filterMap fun v =>
    if typeOf v.2 = "repeater" || typeOf v.2 = "table" then
      (v.2.get "navigate").str?.bind fun sid => (v.2.get "source").str?.map (sid, ·)
    else none

/-- All components of a definition. A screen is gone over with the first list that opens it. -/
def visits (d : Json) : List (Option String × Json) :=
  let main := (d.get "layout").items.flatMap (visit maxDepth none)
  main ++ (d.get "screens").fields.flatMap fun screen =>
    match (navigations main).lookup screen.1 with
    | some list => (screen.2.get "layout").items.flatMap (visit (maxDepth - 1) (some list))
    | none => []

/-- The ops a tap on a component may run: those of a batch, the toggles of a checklist. -/
def opsOf (node : Json) : List Json :=
  if typeOf node = "checklist" then
    (node.get "items").items.map fun it => .obj [("op", .str "toggle"), ("key", it.get "key")]
  else if opName (node.get "action") = "batch" then ((node.get "action").get "ops").items
  else if (node.get "action").truthy then [node.get "action"]
  else []

/-- `<type> (id=<id>)`. -/
def siteOf (host : Host) (node : Json) : String := s!"{typeOf node} (id=" ++ host.toStr (node.get "id") ++ ")"

/-- What `validate_definition` has checked of a definition it accepts, as far as keys and
    actions go. In a dict a key stands once. -/
structure Accepted (repr : Json → String) (host : Host) (d : Json) : Prop where
  keys : ((d.get "state").fields.map (·.1)).Nodup
  state : ∀ f ∈ (d.get "state").fields, validateStateSpec repr f.1 f.2 = .ok ()
  computed : ∀ f ∈ (d.get "computed").fields, f.1 ∉ (d.get "state").fields.map (·.1)
  action : ∀ v ∈ visits d, (v.2.get "action").truthy → validateAction repr (ctxOf d v.1) host (siteOf host v.2) (v.2.get "action") = .ok ()
  checklist : ∀ v ∈ visits d, typeOf v.2 = "checklist" → validateChecklist (ctxOf d v.1) host (siteOf host v.2) v.2 = .ok ()
  form : ∀ v ∈ visits d, typeOf v.2 = "form" → validateForm repr (ctxOf d v.1) v.2 = .ok ()
  /-- `"{ctype} cannot have children"`. -/
  childless : ∀ v ∈ visits d, ¬ containerTypes.contains (typeOf v.2) → ¬ (v.2.get "children").truthy
  depth : ∀ node ∈ (d.get "layout").items, nested maxDepth node
  screenDepth : ∀ screen ∈ (d.get "screens").fields, ∀ node ∈ (screen.2.get "layout").items, nested (maxDepth - 1) node
  /-- `"screen '{sid}' is never navigated to"`. -/
  opened : ∀ screen ∈ (d.get "screens").fields,
    ((navigations ((d.get "layout").items.flatMap (visit maxDepth none))).lookup screen.1).isSome

/-! ## What was checked -/

theorem check_ok {ok : Bool} {msg : String} : check ok msg = .ok () ↔ ok = true := by
  unfold check
  split
  · next h => simp [h]
  · next h => simp [h]

theorem check_bind {x y : Except String Unit} : (x >>= fun _ => y) = .ok () ↔ x = .ok () ∧ y = .ok () := by
  cases x with
  | error e => exact ⟨fun h => (by cases h), fun h => (by cases h.1)⟩
  | ok u => exact ⟨fun h => ⟨rfl, h⟩, fun h => h.2⟩

theorem forM_ok {α : Type} {f : α → Except String Unit} {l : List α} (h : l.forM f = .ok ()) : ∀ x ∈ l, f x = .ok () := by
  induction l with
  | nil => exact List.forall_mem_nil _
  | cons y l ih =>
    obtain ⟨hy, hl⟩ := check_bind.1 h
    intro x hx
    rcases List.mem_cons.1 hx with rfl | hx
    · exact hy
    · exact ih hl x hx

def itemOps : List String := ["item_add", "item_update", "item_toggle", "item_remove", "item_move"]

structure Checked (ctx : Ctx) (a : Json) : Prop where
  scalar : opName a ∈ ["set", "toggle", "increment", "decrement"] → ctx.isScalar (a.get "key")
  reset : opName a = "reset" → nullOr ctx.isScalar (a.get "key")
  timer : opName a = "timer_toggle" → ctx.isTimer (a.get "key")
  list : opName a ∈ itemOps → ctx.isList (a.get "key")

section Checked

variable {repr : Json → String} {ctx : Ctx} {host : Host} {site : String} {a : Json}

theorem checked_of_validateOp (h : validateOp repr ctx host site a = .ok ()) : Checked ctx a := by
  obtain ⟨_, hop⟩ := check_bind.1 h
  refine ⟨?_, ?_, ?_, ?_⟩
  · intro hin
    have hscalar : validateScalarOp repr ctx site (opName a) a = .ok () := by
      simp only [List.mem_cons, List.not_mem_nil, or_false] at hin
      rcases hin with ho | ho | ho | ho
      all_goals
        rw [ho] at hop ⊢
        exact hop
    exact check_ok.1 (check_bind.1 hscalar).1
  · intro ho
    rw [ho] at hop
    exact check_ok.1 (check_bind.1 (check_bind.1 hop).2).1
  · intro ho
    rw [ho] at hop
    exact check_ok.1 hop
  · intro hin
    simp only [itemOps, List.mem_cons, List.not_mem_nil, or_false] at hin
    rcases hin with ho | ho
    · rw [ho] at hop
      exact check_ok.1 (check_bind.1 hop).1
    · have hrow : validateRowOp repr ctx host site (opName a) a = .ok () := by
        rcases ho with ho | ho | ho | ho
        all_goals
          rw [ho] at hop ⊢
          exact hop
      exact check_ok.1 (check_bind.1 hrow).1

theorem truthy_of_opName (h : opName a ≠ "") : a.truthy := by
  cases a with
  | obj fs =>
    cases fs with
    | nil => exact absurd rfl h
    | cons f fs => rfl
  | _ => exact absurd rfl h

/-- Every op a tap may run was checked. -/
theorem Accepted.checked {d : Json} (h : Accepted repr host d) {v : Option String × Json} (hv : v ∈ visits d) :
    ∀ a ∈ opsOf v.2, Checked (ctxOf d v.1) a := by
  intro a ha
  unfold opsOf at ha
  split_ifs at ha with hlist hbatch htruthy
  · obtain ⟨it, hit, rfl⟩ := List.mem_map.1 ha
    have hitems := forM_ok (check_bind.1 (h.checklist v hv hlist)).2 it hit
    have hkey := check_ok.1 (check_bind.1 hitems).2
    have htoggle : opName (.obj [("op", .str "toggle"), ("key", it.get "key")]) = "toggle" := rfl
    refine ⟨fun _ => hkey, ?_, ?_, ?_⟩
    all_goals
      intro ho
      rw [htoggle] at ho
      exact absurd ho (by decide)
  · have hact := h.action v hv (truthy_of_opName (by rw [hbatch]; decide))
    unfold validateAction at hact
    rw [if_pos hbatch] at hact
    have hsub := forM_ok (check_bind.1 (check_bind.1 (check_bind.1 hact).2).2).2 a ha
    exact checked_of_validateOp (check_bind.1 hsub).2
  · obtain rfl := List.mem_singleton.1 ha
    have hact := h.action v hv htruthy
    unfold validateAction at hact
    rw [if_neg hbatch] at hact
    exact checked_of_validateOp hact
  · cases ha

end Checked

end Flowly.Flowlets
