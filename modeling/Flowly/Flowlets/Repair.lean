/-
  Flowly.Flowlets.Repair — the rewriting of slips in a stored definition
  (`flowly/flowlets/authoring.py`: `repair_definition`), and what the validator has checked of
  the parts that it rewrites (`flowly/flowlets/schema.py`: `_validate_definition`,
  `_validate_node`, `_validate_data`, `_validate_watch_schedule`).

  The notes to the author are left out. A rule looks at one component and not at the components
  in it, so these can be rewritten first.
-/

import Flowly.Flowlets.Json

namespace Flowly.Flowlets.Repair

/-- What Python does with a text: `lower`, `isdigit`, and `int`, which raises on some digits. -/
structure Texts where
  lower : String → String
  isdigit : String → Bool
  int : String → Option Int

/-! ## The catalog -/

structure Component where
  name : String
  container : Bool := false
  required : List String := []
  binds : List String := []

def components : List Component := [
  { name := "card", container := true },
  { name := "row", container := true },
  { name := "column", container := true },
  { name := "grid", container := true },
  { name := "list", container := true },
  { name := "divider" },
  { name := "spacer" },
  { name := "repeater", required := ["source", "item"] },
  { name := "header", required := ["text"] },
  { name := "text", required := ["text"] },
  { name := "badge", required := ["text"] },
  { name := "icon", required := ["name"] },
  { name := "stat", binds := ["value"] },
  { name := "progress", required := ["value"], binds := ["value", "max"] },
  { name := "ring", required := ["value"], binds := ["value", "max"] },
  { name := "gauge", required := ["value"], binds := ["value", "min", "max"] },
  { name := "chart", required := ["data"] },
  { name := "sparkline", required := ["data"] },
  { name := "heatmap", required := ["data"] },
  { name := "table" },
  { name := "clock" },
  { name := "countdown", required := ["target"] },
  { name := "metric", required := ["value"], binds := ["value", "delta"] },
  { name := "status", required := ["text"] },
  { name := "keyvalue", required := ["rows"] },
  { name := "timeline", required := ["events"] },
  { name := "callout", required := ["text"] },
  { name := "code", required := ["text"] },
  { name := "link", required := ["text", "url"] },
  { name := "image", required := ["src"] },
  { name := "timer" },
  { name := "button", required := ["text"] },
  { name := "icon_button", required := ["icon"] },
  { name := "stepper", binds := ["value"] },
  { name := "slider", required := ["min", "max"], binds := ["value"] },
  { name := "toggle", binds := ["value"] },
  { name := "checklist", required := ["items"] },
  { name := "segmented", required := ["options"] },
  { name := "input", binds := ["value"] },
  { name := "number_input", binds := ["value"] },
  { name := "rating", binds := ["value"] },
  { name := "select", required := ["options"], binds := ["value"] },
  { name := "date", binds := ["value"] },
  { name := "textarea", binds := ["value"] },
  { name := "search", required := ["target"] },
  { name := "photo" },
  { name := "list_row", required := ["title"] },
  { name := "form", required := ["id", "into", "fields"] },
  { name := "tracker_card", required := ["id", "list"] }]

def component? (kind : String) : Option Component := components.find? (·.name = kind)

/-- `COMPONENTS.get(node.get("type"))`. -/
def componentOf (node : Json) : Option Component := (node.get "type").str?.bind component?

def CATALOG_VERSION : Int := 3

def seriesComponents : List String := ["chart", "sparkline", "heatmap"]

def typeAliases : List (String × String × List (String × String)) := [
  ("heading", "header", []), ("title", "header", []), ("h1", "header", []),
  ("paragraph", "text", []), ("label", "text", []), ("note", "text", []),
  ("textfield", "input", []), ("text_field", "input", []), ("text_input", "input", []), ("textbox", "input", []),
  ("number", "number_input", []), ("numeric", "number_input", []), ("number_field", "number_input", []),
  ("numeric_input", "number_input", []),
  ("camera", "photo", []), ("photo_capture", "photo", []), ("image_capture", "photo", []), ("photo_input", "photo", []),
  ("image_picker", "photo", []), ("photo_picker", "photo", []),
  ("checkbox", "toggle", []), ("switch", "toggle", []),
  ("progress_bar", "progress", []), ("progressbar", "progress", []),
  ("dropdown", "select", []), ("picker", "select", []),
  ("date_input", "date", []), ("date_picker", "date", []), ("datepicker", "date", []),
  ("bar_chart", "chart", [("kind", "bar")]), ("line_chart", "chart", [("kind", "line")]), ("area_chart", "chart", [("kind", "area")]),
  ("stack", "column", []), ("vstack", "column", []), ("hstack", "row", []),
  ("section", "card", []), ("container", "card", [])]

def textProps : List String := ["title", "label", "content"]

def refKeys : List String := ["ref", "key", "bind", "state"]

/-- What a chart's `by` is spelled as. -/
def groupAliases : List String := ["groupBy", "group_by", "groupby"]

/-! ## One component -/

/-- `del j[k]`. -/
def pop (j : Json) (k : String) : Json := .obj (j.fields.filter (·.1 ≠ k))

/-- `j[k] = f(j[k])`, when it is there. -/
def mapField (j : Json) (k : String) (f : Json → Json) : Json := .obj (j.fields.map fun e => if e.1 = k then (k, f e.2) else e)

variable (t : Texts)

def typeAlias? (node : Json) : Option (String × List (String × String)) :=
  (node.get "type").str?.bind fun kind =>
    if (component? kind).isSome then none
    else typeAliases.lookup ((t.lower (strip kind)).map fun c => if c = '-' then '_' else c)

/-- `node.setdefault(k, v)`. -/
def setDefault (node : Json) (p : String × String) : Json := if node.has p.1 then node else node.set p.1 (.str p.2)

def fixType (node : Json) : Json :=
  match typeAlias? t node with
  | some (type, props) => props.foldl setDefault (node.set "type" (.str type))
  | none => node

/-- The alias that the data of a component without `by` has a text under. -/
def groupAlias? (node : Json) : Option String :=
  let data := node.get "data"
  if data.isObj && !data.has "by" then groupAliases.find? fun key => (data.get key).str?.isSome else none

def fixData (node : Json) : Json :=
  match groupAlias? node with
  | some key => node.set "data" ((pop (node.get "data") key).set "by" ((node.get "data").get key))
  | none => node

/-- The prop that a component without the `text` it requires has a text under. -/
def textProp? (c : Component) (node : Json) : Option String :=
  if c.required.contains "text" && !node.has "text" then
    textProps.find? fun p => (node.get p).str?.any fun s => strip s ≠ ""
  else none

def fixText (c : Component) (node : Json) : Json :=
  match textProp? c node with
  | some prop => (pop node prop).set "text" (node.get prop)
  | none => node

/-- The key that a bind of the form `{"ref": key}` names. -/
def refOf : Json → Option String
  | .obj [(rk, .str rv)] => if refKeys.contains rk && strip rv ≠ "" then some (strip rv) else none
  | _ => none

def fixBind (node : Json) (prop : String) : Json :=
  match refOf (node.get prop) with
  | some key => node.set prop (.str key)
  | none => node

def fixProps (node : Json) : Json :=
  match componentOf node with
  | some c => c.binds.foldl fixBind (fixText c node)
  | none => node

def fixNode (node : Json) : Json := fixProps (fixData (fixType t node))

/-! ## The walk -/

def isRepeater (node : Json) : Bool := (node.get "type").str? = some "repeater"

section Walk

variable (rule : Json → Json) (p : Json → Bool)

mutual

/-- A rule, at each component that `fix` comes to. -/
def walk : Json → Json
  | .arr l => .arr (walkAll l)
  | .obj fs => rule (.obj (walkFields (isRepeater (.obj fs)) fs))
  | j => j

def walkAll : List Json → List Json
  | [] => []
  | j :: l => walk j :: walkAll l

def walkFields (repeater : Bool) : List (String × Json) → List (String × Json)
  | [] => []
  | (k, v) :: fs => (k, if k = "children" ∨ (k = "item" ∧ repeater ∧ v.isObj) then walk v else v) :: walkFields repeater fs

end

mutual

/-- Whether something holds of each component that `fix` comes to. -/
def everyNode : Json → Bool
  | .arr l => everyAll l
  | .obj fs => p (.obj fs) && everyField (isRepeater (.obj fs)) fs
  | _ => true

def everyAll : List Json → Bool
  | [] => true
  | j :: l => everyNode j && everyAll l

def everyField (repeater : Bool) : List (String × Json) → Bool
  | [] => true
  | (k, v) :: fs => (if k = "children" ∨ (k = "item" ∧ repeater ∧ v.isObj) then everyNode v else true) && everyField repeater fs

end

end Walk

def fix : Json → Json := walk (fixNode t)

def hashable (node : Json) : Bool := !(node.get "type").isObj && !(node.get "type").isArr

/-! ## The definition -/

/-- The `catalog` of a definition; a float that is a whole number is the same one here. -/
def fixCatalog (d : Json) : Option Json :=
  match d.get "catalog" with
  | .null => some (d.set "catalog" (.num CATALOG_VERSION))
  | .str s => if t.isdigit (strip s) then (t.int (strip s)).map fun n => d.set "catalog" (.num n) else some d
  | _ => some d

def wrapLayout (layout : Json) : Json := if layout.isObj then .arr [layout] else layout

/-- `d.setdefault("state", {})`. -/
def withState (d : Json) : Json := if d.has "state" then d else d.set "state" (.obj [])

def listSpec (v : Json) : Json := .obj (("type", .str "list") :: v.fields.filter (·.1 ≠ "type"))

/-- Whether there is a table of `lists` at all. -/
def hasLists (d : Json) : Bool := (d.get "lists").isObj && (d.get "lists").truthy

/-- Whether each of the lists has an item and a key that the state does not have. -/
def movable (d : Json) : Bool :=
  let state := (withState d).get "state"
  state.isObj && (d.get "lists").fields.all fun f => f.2.isObj && (f.2.get "item").isObj && !state.has f.1

def moveLists (d : Json) : Json :=
  if hasLists d then
    let state := (withState d).get "state"
    if movable d then
      pop ((withState d).set "state" ((d.get "lists").fields.foldl (fun state f => state.set f.1 (listSpec f.2)) state)) "lists"
    else withState d
  else d

def wrapExpr : Json → Json
  | .str s => if strip s ≠ "" then .obj [("expr", .str s)] else .str s
  | spec => spec

def wrapComputed : Json → Json
  | .obj cs => .obj (cs.map fun f => (f.1, wrapExpr f.2))
  | computed => computed

def dropAt (w : Json) : Json :=
  if w.isObj && (w.get "trigger").str? = some "schedule" && !(w.get "at").isNull && !(w.get "everyMinutes").isNull then pop w "at" else w

def fixWatches : Json → Json
  | .arr ws => .arr (ws.map dropAt)
  | watches => watches

def mapScreens (f : Json → Json) : Json → Json
  | .obj ss => .obj (ss.map fun s => (s.1, if s.2.isObj then mapField s.2 "layout" f else s.2))
  | screens => screens

def mapLayouts (d : Json) (f : Json → Json) : Json := mapField (mapField d "layout" f) "screens" (mapScreens f)

def eachField (j : Json) (k : String) (p : Json → Bool) : Bool := j.fields.all fun e => e.1 ≠ k || p e.2

def eachScreen (p : Json → Bool) : Json → Bool
  | .obj ss => ss.all fun s => !s.2.isObj || eachField s.2 "layout" p
  | _ => true

def eachLayout (d : Json) (p : Json → Bool) : Bool := eachField d "layout" p && eachField d "screens" (eachScreen p)

def fixTop (d : Json) : Json :=
  mapField (mapField (moveLists (mapField d "layout" wrapLayout)) "computed" wrapComputed) "watches" fixWatches

/-- `repair_definition`; none where it raises. -/
def repair (d : Json) : Option Json :=
  if d.isObj then
    (fixCatalog t d).bind fun d =>
      if eachLayout (fixTop d) (everyNode hashable) then some (mapLayouts (fixTop d) (fix t)) else none
  else some d

/-! ## The validator -/

/-- `_validate_data`, as far as `by` goes. -/
def dataOk (kind : String) (data : Json) : Bool :=
  data.isObj &&
    if data.has "list" then kind = "chart"
    else (data.get "by").isNull || (kind = "chart" && (data.get "by").str? = some "category")

/-- `_validate_scalar_ref`, as far as the form of a bind goes. -/
def scalarRef (v : Json) : Bool := v.num?.isSome || v.str?.isSome

/-- `_validate_node`, as far as the props go that a rule looks at. -/
def nodeOk (node : Json) : Bool :=
  (componentOf node).any fun c =>
    c.required.all node.has && c.binds.all (fun prop => !node.has prop || scalarRef (node.get prop)) &&
      (!seriesComponents.contains c.name || dataOk c.name (node.get "data"))

def isContainer (node : Json) : Bool := (componentOf node).any (·.container)

mutual

/-- `_validate_node`, with the components in it. -/
def validNode : Json → Bool
  | .obj fs => nodeOk (.obj fs) && validFields (isContainer (.obj fs)) (isRepeater (.obj fs)) fs
  | _ => false

def validAll : List Json → Bool
  | [] => true
  | j :: l => validNode j && validAll l

/-- The `children` of a container. -/
def validChildren : Json → Bool
  | .null => true
  | .arr l => validAll l
  | _ => false

def validFields (container repeater : Bool) : List (String × Json) → Bool
  | [] => true
  | (k, v) :: fs =>
    (if k = "children" then if container then validChildren v else !v.truthy
      else if k = "item" ∧ repeater then validNode v else true) && validFields container repeater fs

end

def validLayout : Json → Bool
  | .arr l => !l.isEmpty && validAll l
  | _ => false

/-- `_validate_screens_structure`, and `_validate_screen_layout` of each. -/
def validScreens : Json → Bool
  | .null => true
  | .obj ss => ss.all fun s => s.2.isObj && s.2.has "layout" && eachField s.2 "layout" validLayout
  | _ => false

def validComputed : Json → Bool
  | .obj cs => cs.all (·.2.isObj)
  | _ => false

def validWatches : Json → Bool
  | .null => true
  | .arr ws => ws.all fun w => w.isObj &&
      ((w.get "trigger").str? ≠ some "schedule" || (w.get "at").isNull || (w.get "everyMinutes").isNull)
  | _ => false

/-- What `validate_definition` has checked of a definition it accepts, as far as the rules go. -/
def accepts (d : Json) : Bool :=
  d.isObj && (d.get "catalog").num?.any (·.den = 1) && d.has "layout" && eachField d "layout" validLayout &&
    eachField d "screens" validScreens && eachField d "computed" validComputed && eachField d "watches" validWatches

end Flowly.Flowlets.Repair
