/-
  Flowly.Flowlets.Composites — the definition as it is served
  (`flowly/flowlets/composites.py`: `expand_composites`; `flowly/flowlets/normalize.py`:
  `served_definition`, `ensure_editable_drill`; `flowly/flowlets/queries.py`:
  `_iter_components`).

  A tap is looked up in the served definition, not in the stored one. There a composite has
  become primitives: a form is a card of inputs, each bound to a draft key of its own, and
  a button whose batch adds the drafts to the list and resets them; a list row and a
  tracker card become text, images and charts, which no tap runs. The draft keys are
  written into `state`, over a declared key of that name. Then every row of a list the
  user owns gets an input for each of its fields, on the screen it opens or on a new one.

  What else is done at serve time (missing ids, photos, the columns of a chart, a header
  that repeats the title) gives no component another action, type or item.
-/

import Flowly.Flowlets.Schema

namespace Flowly.Flowlets

open Flowly.Lib

/-- `d.update(new)`. -/
def updateFields (fs new : List (String × Json)) : List (String × Json) := new.foldl (fun fs f => Json.setField fs f.1 f.2) fs

def visibleWhen (node : Json) : List (String × Json) :=
  if (node.get "visibleWhen").str?.isSome then [("visibleWhen", node.get "visibleWhen")] else []

/-! ## Rows -/

/-- `_BARE_FIELD_RE.sub`, after a brace or not. -/
def wrapBareFields (brace : Bool) : List Char → List Char
  | [] => []
  | '$' :: '.' :: c :: rest =>
    if !brace && c.isAlpha then
      '{' :: '$' :: '.' :: c :: (rest.takeWhile isNameChar ++ '}' :: wrapBareFields false (rest.dropWhile isNameChar))
    else '$' :: wrapBareFields false ('.' :: c :: rest)
  | c :: rest => c :: wrapBareFields (c = '{') rest
termination_by l => l.length
decreasing_by
  · have := (List.dropWhile_sublist isNameChar (l := rest)).length_le
    simp only [List.length_cons]
    omega
  · simp
  · simp

def textTemplate (v : Json) : Option String :=
  (v.str?.filter (· ≠ "")).map fun s => String.ofList (wrapBareFields false s.toList)

def fieldRef (v : Json) : Option String :=
  (v.str?.filter (· ≠ "")).bind fun s =>
    let inner := Text.strip s.toList
    let inner := if inner.head? = some '{' && inner.getLast? = some '}' then Text.strip (inner.drop 1).dropLast else inner
    if "$.".toList.isPrefixOf inner then some (String.ofList inner) else none

def thumbHeight : Rat := 44

def textNode (text : String) (fs : List (String × Json)) : Json := .obj ([("type", .str "text"), ("text", .str text)] ++ fs)

def expandListRow (node : Json) : Json :=
  let thumb := (fieldRef (node.get "thumb")).toList.map fun src =>
    Json.obj [("type", .str "image"), ("src", .str src), ("height", .num thumbHeight)]
  let leadTexts := [node.get "title", node.get "subtitle"].filterMap textTemplate
  let lead := match leadTexts with
    | [] => []
    | texts =>
      if texts.length = 1 && thumb.isEmpty then texts.map (textNode · [])
      else [Json.obj [("type", .str "column"), ("grow", .bool true),
        ("children", .arr (texts.map (textNode · [("grow", .bool false)])))]]
  let badge := (textTemplate (node.get "badge")).toList.map fun text => Json.obj [("type", .str "badge"), ("text", .str text)]
  let value := (textTemplate (node.get "value")).toList.map (textNode · [("grow", .bool false)])
  .obj ([("type", .str "row"), ("children", .arr (thumb ++ lead ++ badge ++ value))] ++ visibleWhen node)

/-! ## Forms -/

def draftKey (formId field : String) : String := formId ++ "__" ++ field

def draftDefault (host : Host) (ftype : String) (fspec : Json) : String :=
  if ftype = "date" && (host.toStr (if fspec.has "default" then fspec.get "default" else .str "")).toLower = "today" then "today"
  else match (fspec.get "options").items.head? with
    | some o => host.toStr o
    | none => ""

/-- What `_expand_form` puts into `state` for one field. -/
def draftSpec (host : Host) (ftype : String) (fspec : Json) : Json :=
  match ftype with
  | "number" => .obj [("type", .str "number"), ("default", .null), ("nullable", .bool true)]
  | "bool" => .obj [("type", .str "bool"), ("default", .bool false)]
  | _ =>
    .obj ([("type", .str "string"), ("default", .str (draftDefault host ftype fspec))] ++
      if ftype = "date" then [("format", .str "date")] else [])

/-- `item_schema.get(field, "string")`. -/
def fieldType (schema : Json) (field : String) : String :=
  if schema.has field then ((schema.get field).str?).getD "" else "string"

def formIdOf (node : Json) : String := ((node.get "id").str?).getD ""

/-- `_expand_form`, the state it injects. -/
def formDrafts (host : Host) (node schema : Json) : List (String × Json) :=
  (node.get "fields").items.map fun fspec =>
    (draftKey (formIdOf node) (fieldOf fspec), draftSpec host (fieldType schema (fieldOf fspec)) fspec)

def segmentedMax : Nat := 4

def hasOptions (fspec : Json) : Bool := (fspec.get "options").isArr && (fspec.get "options").truthy

def controlType (fspec : Json) (ftype : String) : String :=
  if hasOptions fspec then (if (fspec.get "options").items.length ≤ segmentedMax then "segmented" else "select")
  else match ftype with
    | "number" => "number_input"
    | "date" => "date"
    | "bool" => "toggle"
    | _ => "input"

/-- A switch toggles its draft; any other control sets it. -/
def controlOp (fspec : Json) (ftype : String) : String := if !hasOptions fspec && ftype = "bool" then "toggle" else "set"

def formControl (formId : String) (fspec : Json) (ftype : String) : Json :=
  let draft := draftKey formId (fieldOf fspec)
  .obj ([("type", .str (controlType fspec ftype)),
      ("action", .obj [("op", .str (controlOp fspec ftype)), ("key", .str draft)]),
      ("id", .str (formId ++ "_" ++ fieldOf fspec)), ("value", .str draft)] ++
    (if (fspec.get "label").truthy then [("label", fspec.get "label")] else []) ++
    if hasOptions fspec then [("options", fspec.get "options")]
    else if (fspec.get "placeholder").truthy then [("placeholder", fspec.get "placeholder")] else [])

/-- The fields a row needs: what the author says, else every number and the first free text. -/
def formRequired (host : Host) (schema : Json) : Bool → List Json → List Json
  | _, [] => []
  | firstText, fspec :: rest =>
    let ftype := fieldType schema (fieldOf fspec)
    let freeText := ftype = "string" && !(fspec.get "options").isArr
    let needed := if (fspec.get "required").isNull then ftype = "number" || (freeText && firstText) else (fspec.get "required").truthy
    let more := formRequired host schema (firstText && !freeText) rest
    if needed then
      .obj [("field", .str (fieldOf fspec)),
        ("label", .str (host.toStr (if (fspec.get "label").truthy then fspec.get "label" else .str (fieldOf fspec))))] :: more
    else more

/-- The `item_add` of the submit button, and the resets after it. -/
def submitOps (host : Host) (node schema : Json) : List Json :=
  let drafts := (node.get "fields").items.map fun fspec => (fieldOf fspec, draftKey (formIdOf node) (fieldOf fspec))
  let required := formRequired host schema true (node.get "fields").items
  .obj ([("op", .str "item_add"), ("key", node.get "into"),
      ("fields", .obj (drafts.map fun f => (f.1, .str ("\x7b" ++ f.2 ++ "\x7d"))))] ++
    if required.isEmpty then [] else [("require", .arr required)]) ::
    drafts.map fun f => .obj [("op", .str "reset"), ("key", .str f.2)]

def submitButton (host : Host) (node schema : Json) : Json :=
  let label := (node.get "submit").get "label"
  .obj [("type", .str "button"), ("action", .obj [("op", .str "batch"), ("ops", .arr (submitOps host node schema))]),
    ("id", .str (formIdOf node ++ "_submit")), ("text", if label.truthy then label else .str "Add"), ("style", .str "primary")]

def expandForm (host : Host) (node schema : Json) : Json :=
  let header := if (node.get "title").truthy then [Json.obj [("type", .str "header"), ("text", node.get "title")]] else []
  let controls := (node.get "fields").items.map fun fspec =>
    formControl (formIdOf node) fspec (fieldType schema (fieldOf fspec))
  .obj ([("type", .str "card"), ("children", .arr (header ++ controls ++ [submitButton host node schema]))] ++ visibleWhen node)

/-! ## Trackers -/

def categoryFieldNames : List String := ["category", "type", "kind", "tag", "status", "group", "label"]

def stringField (schema : Json) : Option String :=
  let strings := (schema.fields.filter fun f => f.2.str? = some "string" && f.1 ≠ "id").map (·.1)
  match categoryFieldNames.find? strings.contains with
  | some name => some name
  | none => strings.head?

def orText (j : Json) (text : String) : Json := if j.truthy then j else .str text

def trackerAgg (node : Json) : Json := orText (node.get "agg") (if (node.get "field").truthy then "sum" else "count")

def trackerWindow (node : Json) : Json := if node.has "window" then node.get "window" else .str "30d"

def windowDays (window : Json) : Nat :=
  match window.str? with
  | some "today" => 1
  | some "7d" => 7
  | some "90d" => 91
  | _ => 31

def trackerField (node : Json) : List (String × Json) :=
  if (node.get "field").truthy then [("field", node.get "field")] else []

/-- `_expand_tracker_card`, the computed key it injects. -/
def trackerMetric (node schema : Json) : String × Json :=
  let dated := (schema.fields.find? fun f => f.2.str? = some "date").map (·.1)
  let window := match dated with
    | some date =>
      if (trackerWindow node).str? = some "all" then ("window", trackerWindow node)
      else ("where", .str s!"days_since({date}) >= 0 and days_since({date}) < {windowDays (trackerWindow node)}")
    | none => ("window", trackerWindow node)
  (draftKey (formIdOf node) "agg", .obj ([("list", node.get "list"), ("agg", trackerAgg node), window] ++ trackerField node))

def trackerData (node schema : Json) : Json :=
  let base := [("list", node.get "list"), ("window", trackerWindow node)] ++ trackerField node
  if (node.get "chart").str? = some "pie" || (node.get "chart").str? = some "donut" then
    match if (node.get "by").truthy then some (node.get "by") else (stringField schema).map .str with
    | some cat => .obj (base ++ [("by", cat), ("agg", .str (if (node.get "field").truthy then "sum" else "count"))])
    | none => .obj base
  else .obj (base ++ [("bucket", .str "day")])

def expandTrackerCard (node schema : Json) : Json :=
  let metric := Json.obj [("type", .str "metric"), ("value", .str (trackerMetric node schema).1), ("label", orText (node.get "title") "")]
  let chart := if (node.get "chart").truthy then
      [Json.obj [("type", .str "chart"), ("id", .str (formIdOf node ++ "_chart")), ("kind", node.get "chart"),
        ("data", trackerData node schema)]]
    else []
  .obj ([("type", .str "card"), ("children", .arr (metric :: chart))] ++ visibleWhen node)

/-! ## The walk -/

def itemSchemaOf (state node : Json) : Json :=
  let key := if (node.get "into").truthy then node.get "into" else node.get "list"
  match key.str? with
  | some k => (state.get k).get "item"
  | none => .null

/-- `item_schema or _item_schema_of(node, state)`. -/
def schemaOf (state schema node : Json) : Json := if schema.truthy then schema else itemSchemaOf state node

/-- The fields of a row of the list that `node` goes over. -/
def rowSchema (state node : Json) : Json :=
  match (node.get "source").str? with
  | some src => (state.get src).get "item"
  | none => .obj []

def compositeTypes : List String := ["list_row", "form", "tracker_card"]

/-- `_expand_node`. The fuel is the depth of the definition, which the walk does not pass. -/
def expandNode (host : Host) (state : Json) : Nat → Json → Json → Json
  | 0, _, _ => .null
  | fuel + 1, schema, node =>
    if typeOf node = "form" then expandForm host node (schemaOf state schema node)
    else if typeOf node = "tracker_card" then expandTrackerCard node (schemaOf state schema node)
    else if typeOf node = "list_row" then expandListRow node
    else
      let out := if (node.get "children").isArr then
          node.set "children" (.arr ((node.get "children").items.map (expandNode host state fuel schema)))
        else node
      if (node.get "item").isObj then out.set "item" (expandNode host state fuel (rowSchema state node) (node.get "item")) else out

/-- The composites `_expand_node` comes to, each with the fields of a row there. -/
def compositesIn (state : Json) : Nat → Json → Json → List (Json × Json)
  | 0, _, _ => []
  | fuel + 1, schema, node =>
    if compositeTypes.contains (typeOf node) then [(node, schemaOf state schema node)]
    else
      (node.get "children").items.flatMap (compositesIn state fuel schema) ++
        if (node.get "item").isObj then compositesIn state fuel (rowSchema state node) (node.get "item") else []

mutual

def Json.depth : Json → Nat
  | .arr l => depthItems l + 1
  | .obj fs => depthFields fs + 1
  | _ => 0

def depthItems : List Json → Nat
  | [] => 0
  | j :: l => max j.depth (depthItems l)

def depthFields : List (String × Json) → Nat
  | [] => 0
  | (_, j) :: fs => max j.depth (depthFields fs)

end

def layoutsOf (d : Json) : List Json := d.get "layout" :: (d.get "screens").fields.map fun s => s.2.get "layout"

def composites (d : Json) : List (Json × Json) :=
  (layoutsOf d).flatMap fun layout => layout.items.flatMap (compositesIn (d.get "state") d.depth (.obj []))

/-- `expand_composites`, the state it injects. -/
def drafts (host : Host) (d : Json) : List (String × Json) :=
  (composites d).flatMap fun c => if typeOf c.1 = "form" then formDrafts host c.1 c.2 else []

/-- `expand_composites`, the computed keys it injects. -/
def metrics (d : Json) : List (String × Json) :=
  (composites d).filterMap fun c => if typeOf c.1 = "tracker_card" then some (trackerMetric c.1 c.2) else none

def expandLayout (host : Host) (d layout : Json) : Json :=
  if layout.isArr then .arr (layout.items.map (expandNode host (d.get "state") d.depth (.obj []))) else layout

def expandScreen (host : Host) (d : Json) (screen : String × Json) : String × Json :=
  (screen.1, if (screen.2.get "layout").isArr then screen.2.set "layout" (expandLayout host d (screen.2.get "layout")) else screen.2)

/-- `expand_composites`; a part that is absent is empty. -/
def served (host : Host) (d : Json) : Json :=
  (((d.set "layout" (expandLayout host d (d.get "layout"))).set "screens"
    (.obj ((d.get "screens").fields.map (expandScreen host d)))).set "computed"
    (.obj (updateFields (d.get "computed").fields (metrics d)))).set "state" (.obj (updateFields (d.get "state").fields (drafts host d)))

/-! ## What a tap finds -/

def iterComponents : Nat → Json → List Json
  | 0, _ => []
  | fuel + 1, node =>
    if node.isObj then
      node :: ((node.get "children").items.flatMap (iterComponents fuel) ++
        if typeOf node = "repeater" then iterComponents fuel (node.get "item") else [])
    else []

/-- The layouts `_find_component` goes through. -/
def componentsOf (d : Json) : List Json := (layoutsOf d).flatMap fun layout => layout.items.flatMap (iterComponents d.depth)

def mutableListFields (d : Json) : List (String × Json) :=
  ((d.get "state").fields.filter fun f => isListSpec f.2 && !(f.2.get "source").truthy && (f.2.get "item").isObj).map
    fun f => (f.1, f.2.get "item")

def editableFieldTypes : List String := ["string", "number", "bool", "date"]

def editableFields (fields : Json) : List (String × String) :=
  fields.fields.filterMap fun f => (f.2.str?.filter fun t => f.1 ≠ "id" && editableFieldTypes.contains t).map (f.1, ·)

def editType : String → String
  | "bool" => "toggle"
  | "number" => "number_input"
  | "date" => "date"
  | _ => "input"

def editOp (ftype : String) : String := if ftype = "bool" then "item_toggle" else "item_update"

/-- `_edit_input`, once it has an id and a label. -/
def editInput (cid label field ftype listKey : String) : Json :=
  .obj [("type", .str (editType ftype)), ("id", .str cid), ("label", .str label), ("value", .str ("$." ++ field)),
    ("action", .obj [("op", .str (editOp ftype)), ("key", .str listKey), ("field", .str field)])]

/-- The components of the definition a tap is looked up in. Of the inputs that
    `ensure_editable_drill` adds, all it may add, under any id and label. -/
inductive Tappable (host : Host) (d : Json) : Json → Prop
  | found {comp : Json} : comp ∈ componentsOf (served host d) → Tappable host d comp
  | edit (cid label : String) {list field ftype : String} {fields : Json} :
      (list, fields) ∈ mutableListFields (served host d) → (field, ftype) ∈ editableFields fields →
      Tappable host d (editInput cid label field ftype list)

/-! ## The draft keys -/

def scalarTypes : List String := ["number", "bool", "string", "timer"]

def isScalarSpec (spec : Json) : Bool := spec.isObj && (spec.get "type").str?.any scalarTypes.contains

theorem draftSpec_scalar (host : Host) (ftype : String) (fspec : Json) : isScalarSpec (draftSpec host ftype fspec) := by
  unfold draftSpec
  split
  · decide
  · decide
  · split_ifs
    · rfl
    · rfl

theorem drafts_scalar (host : Host) (d : Json) : ∀ f ∈ drafts host d, isScalarSpec f.2 := by
  intro f hf
  obtain ⟨c, _, hf⟩ := List.mem_flatMap.1 hf
  split_ifs at hf
  · obtain ⟨fspec, _, rfl⟩ := List.mem_map.1 hf
    exact draftSpec_scalar host _ fspec
  · cases hf

/-! ## What becomes of a component -/

section Expanded

variable {node : Json}

theorem opsOf_of_no_action (hlist : typeOf node ≠ "checklist") (hact : node.get "action" = .null) : opsOf node = [] := by
  unfold opsOf
  rw [if_neg hlist, hact]
  rfl

variable (node) in
theorem opsOf_single (hlist : typeOf node ≠ "checklist") (hop : opName (node.get "action") ≠ "batch")
    (hact : (node.get "action").truthy) : opsOf node = [node.get "action"] := by
  unfold opsOf
  rw [if_neg hlist, if_neg hop, if_pos hact]

theorem opsOf_congr {other : Json} (htype : other.get "type" = node.get "type") (hitems : other.get "items" = node.get "items")
    (hact : other.get "action" = node.get "action") : opsOf other = opsOf node := by
  unfold opsOf typeOf
  rw [htype, hitems, hact]

theorem mem_iterComponents {n : Nat} {comp : Json} (h : comp ∈ iterComponents n node) (hrep : typeOf node ≠ "repeater") :
    comp = node ∨ ∃ m, ∃ child ∈ (node.get "children").items, comp ∈ iterComponents m child := by
  cases n with
  | zero => cases h
  | succ m =>
    unfold iterComponents at h
    rw [if_neg hrep, List.append_nil] at h
    split_ifs at h
    · rcases List.mem_cons.1 h with rfl | h
      · exact .inl rfl
      · obtain ⟨child, hchild, h⟩ := List.mem_flatMap.1 h
        exact .inr ⟨m, child, hchild, h⟩
    · cases h

/-- No tap on it, or on what is in it, runs an op. -/
def Quiet (node : Json) : Prop := ∀ n, ∀ comp ∈ iterComponents n node, opsOf comp = []

theorem Quiet.of_children (htype : typeOf node ≠ "checklist" ∧ typeOf node ≠ "repeater") (hact : node.get "action" = .null)
    (h : ∀ child ∈ (node.get "children").items, Quiet child) : Quiet node := by
  intro n comp hcomp
  rcases mem_iterComponents hcomp htype.2 with rfl | ⟨m, child, hchild, hcomp⟩
  · exact opsOf_of_no_action htype.1 hact
  · exact h child hchild m comp hcomp

theorem Quiet.leaf (type : String) (htype : type ≠ "checklist" ∧ type ≠ "repeater") (ht : typeOf node = type)
    (hact : node.get "action" = .null) (hleaf : (node.get "children").items = []) : Quiet node :=
  .of_children (by rw [ht]; exact htype) hact (by rw [hleaf]; exact List.forall_mem_nil _)

theorem get_visibleWhen {fs : List (String × Json)} {k : String} (hk : k ≠ "visibleWhen") :
    (Json.obj (fs ++ visibleWhen node)).get k = (Json.obj fs).get k := by
  unfold Json.get visibleWhen
  show ((fs ++ _).lookup k).getD .null = _
  rw [List.lookup_append]
  have hb : (k == "visibleWhen") = false := beq_eq_false_iff_ne.2 hk
  split
  · simp [List.lookup_cons, hb, Json.fields]
  · simp [Json.fields]

variable (node) in
/-- The row or card a composite becomes. -/
theorem box_get (type : String) (children : List Json) :
    typeOf (.obj ([("type", .str type), ("children", .arr children)] ++ visibleWhen node)) = type ∧
      (Json.obj ([("type", .str type), ("children", .arr children)] ++ visibleWhen node)).get "action" = .null ∧
      (Json.obj ([("type", .str type), ("children", .arr children)] ++ visibleWhen node)).get "children" = .arr children := by
  unfold typeOf
  rw [get_visibleWhen (by decide), get_visibleWhen (by decide), get_visibleWhen (by decide)]
  exact ⟨rfl, rfl, rfl⟩

theorem Quiet.box {type : String} {children : List Json} (htype : type ≠ "checklist" ∧ type ≠ "repeater")
    (h : ∀ child ∈ children, Quiet child) :
    Quiet (.obj ([("type", .str type), ("children", .arr children)] ++ visibleWhen node)) := by
  obtain ⟨ht, hact, hchildren⟩ := box_get node type children
  refine .of_children (by rw [ht]; exact htype) hact ?_
  rw [hchildren]
  exact h

theorem quiet_textNode (text : String) {fs : List (String × Json)} (h : fs = [] ∨ fs = [("grow", .bool false)]) :
    Quiet (textNode text fs) := by
  rcases h with rfl | rfl
  · exact .leaf "text" (by decide) rfl rfl rfl
  · exact .leaf "text" (by decide) rfl rfl rfl

theorem quiet_listRow (node : Json) : Quiet (expandListRow node) := by
  refine .box (by decide) fun child hchild => ?_
  simp only [List.mem_append, or_assoc] at hchild
  rcases hchild with h | h | h | h
  · obtain ⟨src, _, rfl⟩ := List.mem_map.1 h
    exact .leaf "image" (by decide) rfl rfl rfl
  · split at h
    · cases h
    · split_ifs at h
      · obtain ⟨text, _, rfl⟩ := List.mem_map.1 h
        exact quiet_textNode text (.inl rfl)
      · obtain rfl := List.mem_singleton.1 h
        refine .of_children ⟨?_, ?_⟩ rfl fun child hchild => ?_
        · show "column" ≠ "checklist"
          decide
        · show "column" ≠ "repeater"
          decide
        · obtain ⟨text, _, rfl⟩ := List.mem_map.1 hchild
          exact quiet_textNode text (.inr rfl)
  · obtain ⟨text, _, rfl⟩ := List.mem_map.1 h
    exact .leaf "badge" (by decide) rfl rfl rfl
  · obtain ⟨text, _, rfl⟩ := List.mem_map.1 h
    exact quiet_textNode text (.inr rfl)

theorem quiet_trackerCard (node schema : Json) : Quiet (expandTrackerCard node schema) := by
  refine .box (by decide) fun child hchild => ?_
  rcases List.mem_cons.1 hchild with rfl | hchild
  · exact .leaf "metric" (by decide) rfl rfl rfl
  · split_ifs at hchild
    · obtain rfl := List.mem_singleton.1 hchild
      exact .leaf "chart" (by decide) rfl rfl rfl
    · cases hchild

/-- What a tap on a part of a form runs: an op on one of its drafts, or the `item_add` of its button. -/
def FormOp (node a : Json) : Prop :=
  (opName a ∈ ["set", "toggle", "reset"] ∧
    ∃ fspec ∈ (node.get "fields").items, a.get "key" = .str (draftKey (formIdOf node) (fieldOf fspec))) ∨
  (opName a = "item_add" ∧ a.get "key" = node.get "into")

variable {host : Host} {schema a : Json}

theorem controlType_ne (fspec : Json) (ftype : String) :
    controlType fspec ftype ≠ "checklist" ∧ controlType fspec ftype ≠ "repeater" := by
  unfold controlType
  split_ifs
  · decide
  · decide
  · split
    all_goals decide

theorem formControl_children (formId : String) (fspec : Json) (ftype : String) :
    ((formControl formId fspec ftype).get "children").items = [] := by
  unfold formControl Json.get Json.fields
  split_ifs
  all_goals rfl

theorem controlOp_mem (fspec : Json) (ftype : String) : controlOp fspec ftype ∈ ["set", "toggle"] := by
  unfold controlOp
  split_ifs
  · decide
  · decide

theorem formOp_of_control {fspec : Json} (hf : fspec ∈ (node.get "fields").items) {ftype : String}
    (ha : a ∈ opsOf (formControl (formIdOf node) fspec ftype)) : FormOp node a := by
  have hop := controlOp_mem fspec ftype
  have hbatch : controlOp fspec ftype ≠ "batch" := ne_of_mem_of_not_mem hop (by decide)
  rw [opsOf_single (formControl (formIdOf node) fspec ftype) (controlType_ne fspec ftype).1 hbatch rfl] at ha
  obtain rfl := List.mem_singleton.1 ha
  exact .inl ⟨List.mem_append_left ["reset"] hop, fspec, hf, rfl⟩

theorem formOp_of_submit (ha : a ∈ opsOf (submitButton host node schema)) : FormOp node a := by
  have hops : opsOf (submitButton host node schema) = submitOps host node schema := rfl
  rw [hops] at ha
  rcases List.mem_cons.1 ha with rfl | ha
  · exact .inr ⟨rfl, rfl⟩
  · obtain ⟨f, hf, rfl⟩ := List.mem_map.1 ha
    obtain ⟨fspec, hfspec, rfl⟩ := List.mem_map.1 hf
    exact .inl ⟨.tail _ (.tail _ (.head _)), fspec, hfspec, rfl⟩

/-- A part without parts of its own. -/
theorem eq_of_iterComponents {n : Nat} {comp : Json} (h : comp ∈ iterComponents n node) (hrep : typeOf node ≠ "repeater")
    (hnone : (node.get "children").items = []) : comp = node := by
  rcases mem_iterComponents h hrep with h | ⟨_, child, hchild, _⟩
  · exact h
  · rw [hnone] at hchild
    cases hchild

theorem formOp_of_expandForm {n : Nat} {comp : Json} (hcomp : comp ∈ iterComponents n (expandForm host node schema))
    (ha : a ∈ opsOf comp) : FormOp node a := by
  unfold expandForm at hcomp
  extract_lets header controls at hcomp
  obtain ⟨htype, hact, hchildren⟩ := box_get node "card" (header ++ controls ++ [submitButton host node schema])
  rcases mem_iterComponents hcomp (by rw [htype]; decide) with rfl | ⟨m, child, hchild, hcomp⟩
  · rw [opsOf_of_no_action (by rw [htype]; decide) hact] at ha
    cases ha
  · rw [hchildren] at hchild
    rcases List.mem_append.1 hchild with hchild | hchild
    · rcases List.mem_append.1 hchild with hchild | hchild
      · simp only [header] at hchild
        split_ifs at hchild
        · obtain rfl := List.mem_singleton.1 hchild
          have hquiet : Quiet (.obj [("type", .str "header"), ("text", node.get "title")]) := .leaf "header" (by decide) rfl rfl rfl
          rw [hquiet m comp hcomp] at ha
          cases ha
        · cases hchild
      · obtain ⟨fspec, hfspec, rfl⟩ := List.mem_map.1 hchild
        obtain rfl := eq_of_iterComponents hcomp (controlType_ne fspec _).2 (formControl_children _ _ _)
        exact formOp_of_control hfspec ha
    · obtain rfl := List.mem_singleton.1 hchild
      obtain rfl := eq_of_iterComponents hcomp (by show "button" ≠ "repeater"; decide) rfl
      exact formOp_of_submit ha

end Expanded

/-! ## Every component comes from one the validator has seen -/

section Walk

variable {host : Host} {state : Json}

/-- The op is one of a component the walk came to, or one of a form there. -/
def Stems (seen : List (Option String × Json)) (forms : List (Json × Json)) (a : Json) : Prop :=
  (∃ v ∈ seen, a ∈ opsOf v.2) ∨ ∃ v ∈ seen, typeOf v.2 = "form" ∧ (∃ schema, (v.2, schema) ∈ forms) ∧ FormOp v.2 a

theorem Stems.mono {seen seen' : List (Option String × Json)} {forms forms' : List (Json × Json)} {a : Json}
    (h : Stems seen forms a) (hseen : seen ⊆ seen') (hforms : forms ⊆ forms') : Stems seen' forms' a := by
  rcases h with ⟨v, hv, ha⟩ | ⟨v, hv, hform, ⟨schema, hschema⟩, ha⟩
  · exact .inl ⟨v, hseen hv, ha⟩
  · exact .inr ⟨v, hseen hv, hform, ⟨schema, hforms hschema⟩, ha⟩

variable {fuel : Nat} {schema node : Json}

variable (host state fuel schema) in
/-- What the walk leaves of a node that is no composite, and what it puts below it. -/
theorem expandNode_primitive (h : ¬ compositeTypes.contains (typeOf node)) :
    (∀ k, k ≠ "children" → k ≠ "item" → (expandNode host state (fuel + 1) schema node).get k = node.get k) ∧
    ((expandNode host state (fuel + 1) schema node).get "children").items =
      (node.get "children").items.map (expandNode host state fuel schema) ∧
    ((expandNode host state (fuel + 1) schema node).get "item" = node.get "item" ∧ (node.get "item").isObj = false ∨
      (expandNode host state (fuel + 1) schema node).get "item" = expandNode host state fuel (rowSchema state node) (node.get "item") ∧
        (node.get "item").isObj = true) := by
  simp only [compositeTypes, List.contains_cons, List.contains_nil, Bool.or_false, Bool.or_eq_true, beq_iff_eq, not_or] at h
  obtain ⟨hrow, hform, htracker⟩ := h
  rw [expandNode, if_neg hform, if_neg htracker, if_neg hrow]
  extract_lets out
  have hout : (∀ k, k ≠ "children" → out.get k = node.get k) ∧
      (out.get "children").items = (node.get "children").items.map (expandNode host state fuel schema) := by
    by_cases harr : (node.get "children").isArr
    · have heq : out = node.set "children" (.arr ((node.get "children").items.map (expandNode host state fuel schema))) := if_pos harr
      rw [heq]
      refine ⟨fun k hk => Json.get_set_ne _ _ hk, ?_⟩
      rw [Json.get_set_self]
      rfl
    · have heq : out = node := if_neg harr
      rw [heq]
      refine ⟨fun _ _ => rfl, ?_⟩
      cases hc : node.get "children" with
      | arr l => exact absurd (by rw [hc]; rfl) harr
      | _ => rfl
  obtain ⟨hkeep, hchildren⟩ := hout
  split_ifs with hitem
  · refine ⟨fun k hk hi => ?_, ?_, .inr ⟨Json.get_set_self _ _ _, hitem⟩⟩
    · rw [Json.get_set_ne _ _ hi, hkeep k hk]
    · rw [Json.get_set_ne _ _ (by decide), hchildren]
  · exact ⟨fun k hk _ => hkeep k hk, hchildren, .inl ⟨hkeep "item" (by decide), by simpa using hitem⟩⟩

/-- An op of what a composite becomes is one of a form there. -/
theorem stems_of_composite {n : Nat} {seen : List (Option String × Json)} {source : Option String} (hself : (source, node) ∈ seen)
    (hcomposite : compositeTypes.contains (typeOf node)) {comp : Json}
    (hcomp : comp ∈ iterComponents n (expandNode host state (fuel + 1) schema node)) {a : Json} (ha : a ∈ opsOf comp) :
    Stems seen (compositesIn state (fuel + 1) schema node) a := by
  have hin : (node, schemaOf state schema node) ∈ compositesIn state (fuel + 1) schema node := by
    rw [compositesIn, if_pos hcomposite]
    exact List.mem_singleton_self _
  rw [expandNode] at hcomp
  by_cases hform : typeOf node = "form"
  · rw [if_pos hform] at hcomp
    exact .inr ⟨_, hself, hform, ⟨_, hin⟩, formOp_of_expandForm hcomp ha⟩
  rw [if_neg hform] at hcomp
  by_cases htracker : typeOf node = "tracker_card"
  · rw [if_pos htracker] at hcomp
    rw [quiet_trackerCard node _ _ comp hcomp] at ha
    cases ha
  rw [if_neg htracker] at hcomp
  have hrow : typeOf node = "list_row" := by simpa [compositeTypes, hform, htracker] using hcomposite
  rw [if_pos hrow] at hcomp
  rw [quiet_listRow node _ comp hcomp] at ha
  cases ha

/-- Where there are children, the validator has asked for a container. -/
theorem container_of_child {child : Json} (hchild : child ∈ (node.get "children").items)
    (h : ¬ containerTypes.contains (typeOf node) → ¬ (node.get "children").truthy) : containerTypes.contains (typeOf node) := by
  by_contra hno
  refine h hno ?_
  cases hc : node.get "children" with
  | arr l =>
    rw [hc] at hchild
    cases l with
    | nil => cases hchild
    | cons _ _ => rfl
  | _ =>
    rw [hc] at hchild
    cases hchild

/-- An op of a component below the expanded node. The induction is on the depth of the search. -/
theorem stems_of_iterComponents {n k : Nat} {source : Option String} (hdepth : nested k node)
    (hleaf : ∀ v ∈ visit k source node, ¬ containerTypes.contains (typeOf v.2) → ¬ (v.2.get "children").truthy) {comp : Json}
    (hcomp : comp ∈ iterComponents n (expandNode host state fuel schema node)) {a : Json} (ha : a ∈ opsOf comp) :
    Stems (visit k source node) (compositesIn state fuel schema node) a := by
  induction n generalizing fuel k source schema node with
  | zero => cases hcomp
  | succ n ih =>
    obtain _ | fuel := fuel
    · cases hcomp
    obtain _ | k := k
    · cases hdepth
    have hself : (source, node) ∈ visit (k + 1) source node := List.mem_cons_self
    by_cases hcomposite : compositeTypes.contains (typeOf node)
    · exact stems_of_composite hself hcomposite hcomp ha
    · obtain ⟨hkeep, hchildren, hitem⟩ := expandNode_primitive host state fuel schema hcomposite
      have htype : typeOf (expandNode host state (fuel + 1) schema node) = typeOf node := by
        unfold typeOf
        rw [hkeep "type" (by decide) (by decide)]
      have hin : compositesIn state (fuel + 1) schema node =
          (node.get "children").items.flatMap (compositesIn state fuel schema) ++
            if (node.get "item").isObj then compositesIn state fuel (rowSchema state node) (node.get "item") else [] := by
        rw [compositesIn, if_neg hcomposite]
      have hvisit : visit (k + 1) source node = (source, node) ::
          ((if typeOf node = "repeater" then visit k (node.get "source").str? (node.get "item") else []) ++
            if containerTypes.contains (typeOf node) then (node.get "children").items.flatMap (visit k source) else []) := rfl
      obtain ⟨hitemDepth, hchildDepth⟩ := Bool.and_eq_true_iff.1 hdepth
      rw [iterComponents, htype, hchildren] at hcomp
      split at hcomp
      case isFalse => cases hcomp
      rcases List.mem_cons.1 hcomp with rfl | hcomp
      · rw [opsOf_congr (hkeep "type" (by decide) (by decide)) (hkeep "items" (by decide) (by decide))
          (hkeep "action" (by decide) (by decide))] at ha
        exact .inl ⟨_, hself, ha⟩
      rcases List.mem_append.1 hcomp with hcomp | hcomp
      · obtain ⟨_, hmem, hcomp⟩ := List.mem_flatMap.1 hcomp
        obtain ⟨child, hchild, rfl⟩ := List.mem_map.1 hmem
        have hcontainer := container_of_child hchild (hleaf _ hself)
        rw [hcontainer, Bool.not_true, Bool.false_or] at hchildDepth
        have hsub : visit k source child ⊆ visit (k + 1) source node := by
          intro v hv
          rw [hvisit, if_pos hcontainer]
          exact .tail _ (List.mem_append_right _ (List.mem_flatMap.2 ⟨child, hchild, hv⟩))
        refine (ih (List.all_eq_true.1 hchildDepth child hchild) (fun v hv => hleaf v (hsub hv)) hcomp).mono hsub ?_
        intro c hc
        rw [hin]
        exact List.mem_append_left _ (List.mem_flatMap.2 ⟨child, hchild, hc⟩)
      · split at hcomp
        case isFalse => cases hcomp
        next hrep =>
          rcases hitem with ⟨heq, hobj⟩ | ⟨heq, hobj⟩
          · rw [heq] at hcomp
            cases n with
            | zero => cases hcomp
            | succ n =>
              rw [iterComponents, hobj] at hcomp
              cases hcomp
          · rw [heq] at hcomp
            have hsub : visit k (node.get "source").str? (node.get "item") ⊆ visit (k + 1) source node := by
              intro v hv
              rw [hvisit, if_pos hrep]
              exact .tail _ (List.mem_append_left _ hv)
            have hbelow : nested k (node.get "item") := by simpa [hrep] using hitemDepth
            refine (ih hbelow (fun v hv => hleaf v (hsub hv)) hcomp).mono hsub ?_
            intro c hc
            rw [hin, if_pos hobj]
            exact List.mem_append_right _ hc

end Walk

/-! ## The served definition -/

section Served

variable {repr : Json → String} {host : Host} {d : Json}

theorem items_expandLayout (layout : Json) :
    (expandLayout host d layout).items = layout.items.map (expandNode host (d.get "state") d.depth (.obj [])) := by
  unfold expandLayout
  cases layout with
  | arr l => rfl
  | _ => rfl

theorem layoutsOf_served : layoutsOf (served host d) = (layoutsOf d).map (expandLayout host d) := by
  have hscreen : ∀ s, (expandScreen host d s).2.get "layout" = expandLayout host d (s.2.get "layout") := by
    intro s
    show (if (s.2.get "layout").isArr then s.2.set "layout" (expandLayout host d (s.2.get "layout")) else s.2).get "layout" = _
    split
    · exact Json.get_set_self _ _ _
    · next harr => rw [expandLayout, if_neg harr]
  unfold layoutsOf served
  rw [Json.get_set_ne _ _ (by decide), Json.get_set_ne _ _ (by decide), Json.get_set_ne _ _ (by decide), Json.get_set_self,
    Json.get_set_ne _ _ (by decide), Json.get_set_ne _ _ (by decide), Json.get_set_self]
  show _ :: ((d.get "screens").fields.map (expandScreen host d)).map (fun s => s.2.get "layout") = _
  rw [List.map_cons, List.map_map, List.map_map]
  exact congrArg _ (List.map_congr_left fun s _ => hscreen s)

theorem get_served_state : (served host d).get "state" = .obj (updateFields (d.get "state").fields (drafts host d)) :=
  Json.get_set_self _ _ _

/-- The op of an input made for a row: the list is named, and the row it is in comes with the tap. -/
def EditOp (a : Json) : Prop := opName a ∈ ["item_update", "item_toggle"] ∧ ∃ list, a.get "key" = .str list

theorem editOp_of_input {cid label list field ftype : String} {a : Json} (ha : a ∈ opsOf (editInput cid label field ftype list)) :
    EditOp a := by
  have hop : editOp ftype ∈ ["item_update", "item_toggle"] := by
    unfold editOp
    split_ifs
    · decide
    · decide
  have htype : editType ftype ≠ "checklist" := by
    unfold editType
    split
    all_goals decide
  have hbatch : editOp ftype ≠ "batch" := ne_of_mem_of_not_mem hop (by decide)
  rw [opsOf_single (editInput cid label field ftype list) htype hbatch rfl] at ha
  obtain rfl := List.mem_singleton.1 ha
  exact ⟨hop, list, rfl⟩

/-- An op a tap may run is one of a component the validator has seen, one of a form it has
    seen, or one of an input made for a row. -/
theorem Accepted.stems (hd : Accepted repr host d) {comp : Json} (hcomp : Tappable host d comp) {a : Json} (ha : a ∈ opsOf comp) :
    Stems (visits d) (composites d) a ∨ EditOp a := by
  cases hcomp with
  | edit cid label hlist hfield => exact .inr (editOp_of_input ha)
  | found hcomp =>
    refine .inl ?_
    unfold componentsOf at hcomp
    rw [layoutsOf_served] at hcomp
    obtain ⟨_, hexpanded, hlayoutComp⟩ := List.mem_flatMap.1 hcomp
    obtain ⟨layout, hlayout, rfl⟩ := List.mem_map.1 hexpanded
    rw [items_expandLayout] at hlayoutComp
    obtain ⟨_, hexpanded, hbelow⟩ := List.mem_flatMap.1 hlayoutComp
    obtain ⟨node, hnode, rfl⟩ := List.mem_map.1 hexpanded
    have hforms : compositesIn (d.get "state") d.depth (.obj []) node ⊆ composites d :=
      fun c hc => List.mem_flatMap.2 ⟨layout, hlayout, List.mem_flatMap.2 ⟨node, hnode, hc⟩⟩
    rcases List.mem_cons.1 hlayout with rfl | hlayout
    · have hsub : visit maxDepth none node ⊆ visits d :=
        fun v hv => List.mem_append_left _ (List.mem_flatMap.2 ⟨node, hnode, hv⟩)
      exact (stems_of_iterComponents (hd.depth node hnode) (fun v hv => hd.childless v (hsub hv)) hbelow ha).mono hsub hforms
    · obtain ⟨screen, hscreen, rfl⟩ := List.mem_map.1 hlayout
      obtain ⟨list, hlist⟩ := Option.isSome_iff_exists.1 (hd.opened screen hscreen)
      have hsub : visit (maxDepth - 1) (some list) node ⊆ visits d := by
        intro v hv
        refine List.mem_append_right _ (List.mem_flatMap.2 ⟨screen, hscreen, ?_⟩)
        rw [hlist]
        exact List.mem_flatMap.2 ⟨node, hnode, hv⟩
      exact (stems_of_iterComponents (hd.screenDepth screen hscreen node hnode) (fun v hv => hd.childless v (hsub hv)) hbelow ha).mono
        hsub hforms

end Served

end Flowly.Flowlets
