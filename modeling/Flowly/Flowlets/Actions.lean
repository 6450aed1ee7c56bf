/-
  Flowly.Flowlets.Actions — the write side of a flowlet (`flowly/flowlets/actions.py`:
  `_apply_op` and its helpers; `flowly/flowlets/store.py`: the rows).

  Every op but `agent` and `batch` reads the rows, checks, and only then writes, so it is
  a function from the rows to the error it raises or the effects it has, in their order.
-/

import Flowly.Flowlets.Json

namespace Flowly.Flowlets

structure StateRow where
  key : String
  value : Json
  updatedAt : Int

/-- A row of `flowlet_events`; the rows stand in the order of their ids. -/
structure EventRow where
  series : String
  value : Rat
  category : Option String
  ts : Int

/-- What the store has of one flowlet. -/
structure Rows where
  state : List StateRow := []
  events : List EventRow := []
  photos : List String := []

inductive Effect where
  | setState (key : String) (value : Json) (now : Int)
  | resetState (key : String)
  | addEvent (e : EventRow)
  | removeLast (series : String)
  | resetEvents (series : String)
  | putPhoto (id : String)
  | deletePhoto (id : String)

namespace Rows

def setState (r : Rows) (key : String) (value : Json) (now : Int) : Rows :=
  if key ∈ r.state.map (·.key) then
    { r with state := r.state.map fun s => if s.key = key then { s with value, updatedAt := now } else s }
  else { r with state := r.state ++ [{ key, value, updatedAt := now }] }

/-- `remove_last_event`: the newest of the series, the later id among those. -/
def removeLast (r : Rows) (series : String) : Rows :=
  match ((r.events.filter (·.series = series)).map (·.ts)).max? with
  | none => r
  | some ts => { r with events := (r.events.reverse.eraseP fun e => e.series = series ∧ e.ts = ts).reverse }

/-- `get_state(..).get(key)`. -/
def get? (r : Rows) (key : String) : Option Json := (r.state.find? (·.key = key)).map (·.value)

end Rows

def Effect.apply (r : Rows) : Effect → Rows
  | .setState key value now => r.setState key value now
  | .resetState key => { r with state := r.state.filter (·.key ≠ key) }
  | .addEvent e => { r with events := r.events ++ [e] }
  | .removeLast series => r.removeLast series
  | .resetEvents series => { r with events := r.events.filter (·.series ≠ series) }
  | .putPhoto id => { r with photos := r.photos ++ [id] }
  | .deletePhoto id => { r with photos := r.photos.filter (· ≠ id) }

def applyAll (r : Rows) (es : List Effect) : Rows := es.foldl Effect.apply r

inductive Exn where
  /-- `FlowletActionError`. -/
  | action (code message : String)
  /-- Any other exception. -/
  | other (name : String)

def invalid (message : String) : Exn := .action "INVALID" message

/-- What the ops call and this model does not define: `float` of a text, `str`,
    `render_template` with `keep_unknown`, and `resolve_values`. -/
structure Host where
  toFloat : String → Option Rat
  toStr : Json → String
  render : String → List (String × Json) → String
  resolveValues : Json → Rows → Int → Except Exn (List (String × Json))

/-- What one op finds outside the rows: the clock, and the id of a new row. -/
structure Env where
  now : Int
  today : String
  freshId : String

variable (host : Host)

/-! ## State values -/

def floatOf : Json → Option Rat
  | .num q => some q
  | .bool b => some (if b then 1 else 0)
  | .str s => host.toFloat s
  | _ => none

def clamp (spec : Json) (v : Rat) : Rat :=
  let v := match (spec.get "min").num? with
    | some mn => max v mn
    | none => v
  match (spec.get "max").num? with
    | some mx => min v mx
    | none => v

def maxStringInput : Nat := 500

def maxListItems : Nat := 200

def natOr (n : Nat) (j : Json) : Nat := (j.num?.map fun q => q.floor.toNat).getD n

def coerceState (value spec : Json) : Json :=
  match (spec.get "type").str? with
  | some "number" =>
    if (spec.get "nullable").truthy && value.isEmpty then .null
    else .num (clamp spec ((floatOf host value).getD ((floatOf host (spec.get "default")).getD 0)))
  | some "bool" => .bool value.truthy
  | some "string" => .str (cut (natOr maxStringInput (spec.get "maxLength")) (if value.isNull then "" else host.toStr value))
  | some "timer" =>
    if value.isObj then value else .obj [("running", .bool false), ("since_ms", .num 0), ("accum_s", .num 0)]
  | some "list" => .arr ((value.items.filter fun it => it.isObj && (it.get "id").truthy).take maxListItems)
  | _ => value

def stateSpec (d key : Json) : Except Exn (String × Json) :=
  match key.str? with
  | some k =>
    let spec := (d.get "state").get k
    if spec.isObj then .ok (k, spec) else .error (invalid s!"state key '{k}' is not declared")
  | none => .error (invalid s!"state key '{host.toStr key}' is not declared")

def listSpec (d key : Json) : Except Exn (String × Json) := do
  let (k, spec) ← stateSpec host d key
  if (spec.get "type").str? = some "list" then .ok (k, spec) else .error (invalid s!"'{k}' is not a list state key")

def currentScalar (r : Rows) (k : String) (spec : Json) : Json :=
  coerceState host ((r.get? k).getD (spec.get "default")) spec

def loadItems (r : Rows) (k : String) (spec : Json) : List Json :=
  (coerceState host ((r.get? k).getD .null) spec).items

/-! ## Rows of a list -/

def isDate (s : String) : Bool :=
  match s.toList with
  | [y1, y2, y3, y4, '-', m1, m2, '-', d1, d2] => [y1, y2, y3, y4, m1, m2, d1, d2].all Char.isDigit
  | _ => false

/-- `str(v or "").strip()`, and `("" if v is None else str(v)).strip()` where `falsy` is not emptied. -/
def textOf (falsy : Bool) (v : Json) : String :=
  strip (if v.isNull || (falsy && !v.truthy) then "" else host.toStr v)

def coerceField (key field : String) (ftype : Json) (v : Json) : Except Exn Json :=
  match ftype.str? with
  | some "string" =>
    if v.isObj || v.isArr then .error (invalid s!"'{key}.{field}' must be text")
    else .ok (.str (cut maxStringInput (textOf host false v)))
  | some "number" =>
    match v.num? with
    | some q => .ok (.num q)
    | none => .error (invalid s!"'{key}.{field}' must be a number")
  | some "bool" => .ok (.bool v.truthy)
  | some "date" =>
    let s := textOf host true v
    if isDate s then .ok (.str s) else .error (invalid s!"'{key}.{field}' must be YYYY-MM-DD")
  | some "image" => .ok (.str (cut 128 (textOf host false v)))
  | _ => .error (invalid s!"'{key}.{field}' has an unknown type")

/-- `_coerce_field` of each field in turn; `fields[f]` of an unknown one is a KeyError. -/
def coerceFields (key : String) (fields : Json) (new : List (String × Json)) : List (String × Json) → Except Exn (List (String × Json))
  | [] => .ok new
  | (f, v) :: rest =>
    if fields.has f then do
      let x ← coerceField host key f (fields.get f) v
      coerceFields key fields (Json.setField new f x) rest
    else .error (.other "KeyError")

def isNameStart (c : Char) : Bool := c.isAlpha || c = '_'

def isNameChar (c : Char) : Bool := c.isAlphanum || c = '_'

/-- `_LONE_TOKEN_RE`, on the stripped template. -/
def loneToken (tpl : String) : Option String :=
  match (strip tpl).toList with
  | '{' :: c :: rest =>
    if isNameStart c && rest.getLast? = some '}' && rest.dropLast.all isNameChar then some (String.ofList (c :: rest.dropLast)) else none
  | _ => none

def resolveFieldValue (tpl : Json) (ftype : Json) (ns : List (String × Json)) (today : String) : Json :=
  let val := match tpl with
    | .str t => match loneToken t with
      | some k => (ns.lookup k).getD .null
      | none => .str (host.render t ns)
    | _ => tpl
  match val.str? with
  | some s => if ftype.str? = some "date" && (strip s).toLower = "today" then .str today else val
  | none => val

/-- `_inferred_require`; the labels are those of `_input_label`, which `label` gives. -/
def inferredRequire (label : String → Option String) (fields : Json) : Bool → List (String × Json) → List Json
  | _, [] => []
  | firstText, (f, tpl) :: rest =>
    let ftype := (fields.get f).str?
    let token := tpl.str?.bind loneToken
    if token = none || token = some "value" || !(ftype = some "number" || ftype = some "string") then
      inferredRequire label fields (firstText && ftype ≠ some "string") rest
    else
      let more := inferredRequire label fields (firstText && ftype ≠ some "string") rest
      if ftype = some "number" || firstText then
        .obj [("field", .str f), ("label", .str ((token.bind label).getD f))] :: more
      else more

def fillFirst (labels : List String) (locale : Json) : String :=
  let l := ", ".intercalate labels
  match locale.str? with
  | some "tr" => s!"Önce şunları doldur: {l}"
  | some "es" => s!"Rellena primero: {l}"
  | _ => s!"Fill in first: {l}"

def itemEnvelope (passed : Json) : Except Exn (String × Json) :=
  if passed.isObj && (passed.get "itemId").truthy then .ok (host.toStr (passed.get "itemId"), passed.get "value")
  else .error (invalid "this action needs the tapped item (itemId)")

def itemIs (id : String) (it : Json) : Bool := (it.get "id").str? = some id

/-- `_gc_item_photos`. -/
def itemPhotos (fields item : Json) : List String :=
  fields.fields.filterMap fun (f, ft) =>
    if ft.str? = some "image" then ((item.get f).str?).filter (· ≠ "") else none

/-! ## The ops -/

def rowOps : List String := ["item_update", "item_toggle", "item_remove", "item_move"]

def opName (a : Json) : String := ((a.get "op").str?).getD ""

def unwrap (a passed : Json) : Json :=
  if passed.isObj && passed.has "itemId" && !(rowOps.contains (opName a)) then passed.get "value" else passed

def effectiveValue (a passed : Json) : Json := if a.has "value" then a.get "value" else passed

/-- `action["key"]`. -/
def keyOf (a : Json) : Except Exn Json := if a.has "key" then .ok (a.get "key") else .error (.other "KeyError")

def validateComponentValue (comp spec v : Json) : Except Exn Json :=
  match (comp.get "type").str? with
  | some "slider" | some "number_input" | some "stepper" | some "gauge" =>
    match v.num? with
    | some q => .ok (.num (clamp comp q))
    | none => .error (invalid (((comp.get "type").str?).getD "" ++ " value must be a number"))
  | some "input" =>
    let s := host.toStr v
    let ml := if comp.has "maxLength" then comp.get "maxLength" else spec.get "maxLength"
    match ml.num? with
    | some q => .ok (.str (if 0 < q then cut q.floor.toNat s else s))
    | none => .ok (.str s)
  | some "rating" =>
    match v.num? with
    | some q => .ok (.num (max 0 (min q (((if comp.has "max" then comp.get "max" else .num 5).num?).getD 5))))
    | none => .error (invalid "rating value must be a number")
  | _ => .ok v

def applySet (d comp a passed : Json) (env : Env) : Except Exn (List Effect) := do
  let (k, spec) ← stateSpec host d (← keyOf a)
  let v := effectiveValue a passed
  if (spec.get "nullable").truthy && v.isEmpty then
    return [.setState k .null env.now]
  if v.isNull then throw (invalid s!"action `set` on '{k}' needs a value")
  let v ← validateComponentValue host comp spec v
  return [.setState k (coerceState host v spec) env.now]

/-- `increment` and `decrement`; `sign` is the direction. -/
def applyIncrement (sign : Rat) (d a passed : Json) (env : Env) (r : Rows) : Except Exn (List Effect) := do
  let (k, spec) ← stateSpec host d (← keyOf a)
  if (spec.get "type").str? ≠ some "number" then
    throw (invalid (s!"`{opName a}` needs a number state key; '{k}' is " ++ host.toStr (spec.get "type")))
  let some amount := (if a.has "by" then a.get "by" else .num 1).num? | throw (invalid s!"`{opName a}` `by` must be a number")
  let step := match passed.num? with
    | some p => max amount (-amount) * (if 0 ≤ p then 1 else -1)
    | none => amount
  let cur := ((currentScalar host r k spec).num?).getD 0
  return [.setState k (coerceState host (.num (cur + sign * step)) spec) env.now]

def applyToggle (d a passed : Json) (env : Env) (r : Rows) : Except Exn (List Effect) := do
  let (k, spec) ← stateSpec host d (← keyOf a)
  match passed.bool? with
  | some b => return [.setState k (coerceState host (.bool b) spec) env.now]
  | none => return [.setState k (coerceState host (.bool !(currentScalar host r k spec).truthy) spec) env.now]

def applyTimerToggle (d a : Json) (env : Env) (r : Rows) : Except Exn (List Effect) := do
  let (k, _) ← stateSpec host d (← keyOf a)
  let cur := (r.get? k).getD .null
  let accum := ((cur.get "accum_s").num?).getD 0
  let since := ((cur.get "since_ms").num?).getD 0
  let new := if (cur.get "running").truthy then
      [("running", .bool false), ("since_ms", .num 0), ("accum_s", .num (accum + max 0 (env.now - since) / 1000))]
    else [("running", .bool true), ("since_ms", .num env.now), ("accum_s", .num accum)]
  return [.setState k (.obj new) env.now]

def maxCategoryLen : Nat := 40

/-- The names a template may use: the live values, and `value` when it is a scalar. -/
def namespaceOf (d passed : Json) (env : Env) (r : Rows) : Except Exn (List (String × Json)) := do
  let ns ← host.resolveValues d r env.now
  if passed.isNull || passed.isObj || passed.isArr then return ns
  return Json.setField ns "value" passed

def applyLog (d a passed : Json) (env : Env) (r : Rows) : Except Exn (List Effect) := do
  let some series := ((a.get "series").str?).filter (· ≠ "") | throw (invalid "action `log` needs a series")
  let v := effectiveValue a passed
  let some q := (if v.isNull then .num 1 else v).num? | throw (invalid "action `log` value must be a number")
  match (a.get "category").str? with
  | some tpl =>
    if strip tpl = "" then return [.addEvent { series, value := q, category := none, ts := env.now }]
    let ns ← namespaceOf host d passed env r
    let cat := cut maxCategoryLen (strip (host.render tpl ns))
    return [.addEvent { series, value := q, category := if cat = "" then none else some cat, ts := env.now }]
  | none => return [.addEvent { series, value := q, category := none, ts := env.now }]

def applyRemoveLast (a : Json) : Except Exn (List Effect) := do
  let some series := ((a.get "series").str?).filter (· ≠ "") | throw (invalid "action `remove_last` needs a series")
  return [.removeLast series]

def applyReset (a : Json) : Except Exn (List Effect) := do
  let key := ((a.get "key").str?).filter (· ≠ "")
  let series := ((a.get "series").str?).filter (· ≠ "")
  if key = none && series = none then throw (invalid "action `reset` needs key or series")
  return (key.map Effect.resetState).toList ++ (series.map Effect.resetEvents).toList

/-- What the form, or the value that came with the tap, adds to the fields of a new row. -/
def formItem (d a passed : Json) (env : Env) (r : Rows) (k : String) (fields : Json) (new : List (String × Json)) :
    Except Exn (List (String × Json)) :=
  match a.get "fields", passed with
  | .obj tpls, pv => do
    let ns ← namespaceOf host d pv env r
    let given := (tpls.filter fun t => fields.has t.1).map fun t => (t.1, resolveFieldValue host t.2 (fields.get t.1) ns env.today)
    coerceFields host k fields new (given.filter fun g => !g.2.isNull)
  | _, .obj form => coerceFields host k fields new (form.filter fun g => fields.has g.1)
  | _, pv =>
    if pv.isNull then .ok new
    else
      let want := if pv.num?.isSome then "number" else "string"
      match fields.fields.find? fun f => f.2.str? = some want && (new.lookup f.1).isNone with
      | some target => coerceFields host k fields new [(target.1, pv)]
      | none => .ok new

def missingFields (label : String → Option String) (a fields : Json) (new : List (String × Json)) : List Json :=
  let require := if (a.get "require").isNull then
      (match a.get "fields" with
        | .obj tpls => inferredRequire label fields true tpls
        | _ => [])
    else (a.get "require").items
  require.filter fun q => q.isObj && ((new.lookup (((q.get "field").str?).getD "")).getD .null).isEmpty

def newItem (label : String → Option String) (d a passed : Json) (env : Env) (r : Rows) (k : String) (fields : Json) :
    Except Exn (List (String × Json)) := do
  let fixed ← coerceFields host k fields [] ((a.get "item").fields)
  let new ← formItem host d a passed env r k fields fixed
  let missing := missingFields label a fields new
  if missing ≠ [] then
    throw (.action "REQUIRED" (fillFirst (missing.map fun q =>
      host.toStr (if (q.get "label").truthy then q.get "label" else q.get "field")) (d.get "locale")))
  else if new.all fun f => f.2.isEmpty then throw (invalid "nothing to add")
  else return new

def applyItemAdd (label : String → Option String) (d a passed : Json) (env : Env) (r : Rows) : Except Exn (List Effect) := do
  let (k, spec) ← listSpec host d (← keyOf a)
  let items := loadItems host r k spec
  let limit := if (spec.get "max").truthy then natOr maxListItems (spec.get "max") else maxListItems
  if limit ≤ items.length then throw (invalid s!"'{k}' is full ({limit} items)")
  let new ← newItem host label d a passed env r k (spec.get "item")
  return [.setState k (.arr (items ++ [.obj (Json.setField new "id" (.str env.freshId))])) env.now]

/-- The new row of `item_update`. -/
def updateItem (a : Json) (k : String) (fields item inner : Json) : Except Exn Json := do
  if a.has "fields" then
    return .obj (← coerceFields host k fields item.fields ((a.get "fields").fields))
  let some f := (a.get "field").str? | throw (.other "KeyError")
  if inner.isNull then throw (invalid s!"`item_update` on '{f}' needs a value")
  return .obj (← coerceFields host k fields item.fields [(f, inner)])

def applyRowOp (d a passed : Json) (env : Env) (r : Rows) : Except Exn (List Effect) := do
  let (k, spec) ← listSpec host d (← keyOf a)
  let fields := spec.get "item"
  let items := loadItems host r k spec
  let (id, inner) ← itemEnvelope host passed
  let some item := items.find? (itemIs id) | throw (.action "NOT_FOUND" "that item no longer exists")
  let replace (new : Json) : Json := .arr (items.map fun it => if itemIs id it then new else it)
  let others := items.filter fun it => !itemIs id it
  match opName a with
  | "item_toggle" =>
    let some f := (a.get "field").str? | throw (.other "KeyError")
    return [.setState k (replace (item.set f (.bool ((inner.bool?).getD !(item.get f).truthy)))) env.now]
  | "item_update" => return [.setState k (replace (← updateItem host a k fields item inner)) env.now]
  | "item_remove" => return (itemPhotos fields item).map Effect.deletePhoto ++ [.setState k (.arr others) env.now]
  | _ =>
    let some q := inner.num? | throw (invalid "`item_move` needs the new index as value")
    return [.setState k (.arr (others.insertIdx (min others.length q.floor.toNat) item)) env.now]

def applyOp (label : String → Option String) (d comp a passed : Json) (env : Env) (r : Rows) : Except Exn (List Effect) :=
  let passed := unwrap a passed
  match opName a with
  | "set" => applySet host d comp a passed env
  | "increment" => applyIncrement host 1 d a passed env r
  | "decrement" => applyIncrement host (-1) d a passed env r
  | "toggle" => applyToggle host d a passed env r
  | "timer_toggle" => applyTimerToggle host d a env r
  | "log" => applyLog host d a passed env r
  | "remove_last" => applyRemoveLast a
  | "reset" => applyReset a
  | "item_add" => applyItemAdd host label d a passed env r
  | "item_update" | "item_toggle" | "item_remove" | "item_move" => applyRowOp host d a passed env r
  | op => .error (invalid s!"unknown action op '{op}'")

namespace Sample

def plain : Host where
  toFloat _ := none
  toStr _ := ""
  render t _ := t
  resolveValues _ _ _ := .ok []

def number : Json := .obj [("type", .str "number"), ("default", .num 0)]

def button (action : Json) : Json := .obj [("type", .str "button"), ("action", action)]

end Sample

end Flowly.Flowlets
