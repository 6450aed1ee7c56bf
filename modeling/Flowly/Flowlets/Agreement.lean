/-
  Flowly.Flowlets.Agreement — what the validator accepts and the interpreter can do
  (`flowly/flowlets/schema.py`: `_validate_action`; `flowly/flowlets/actions.py`:
  `_state_spec`, `_list_spec`, `_apply_op`).

  The validator takes the key of an op out of one set of state and computed keys; the
  interpreter looks it up in the state of the served definition, where a form may have put
  a draft of the same name.

  The components are those of the served definition. An op of one comes from a component
  the validator has seen, from a form, or from an input made for a row; of each of the
  three we need only what the served state has under its key (`Placed`). Ops on drafts are
  always in order. What breaks it is a key that is only computed
  (`a_computed_key_is_accepted`), an increment of what is no number, and a list whose key
  is also the draft key of a form.
-/

import Flowly.Flowlets.Composites
import Flowly.Lib.Assoc

namespace Flowly.Flowlets

open Flowly.Lib

/-- The texts of `_state_spec`, of `_list_spec`, and of an increment of what is no number. -/
def keyFaultText (m : String) : Bool :=
  "state key '".toList.isPrefixOf m.toList || "' is not a list state key".toList.isSuffixOf m.toList ||
    "`increment` needs a number state key".toList.isPrefixOf m.toList ||
    "`decrement` needs a number state key".toList.isPrefixOf m.toList

def Exn.keyFault : Exn → Bool
  | .action code message => code = "INVALID" && keyFaultText message
  | .other _ => false

def Innocent {α : Type} (x : Except Exn α) : Prop := ∀ e, x = .error e → e.keyFault = false

namespace Innocent

variable {α β : Type} {x : Except Exn α}

theorem ok (a : α) : Innocent (.ok a : Except Exn α) := fun _ h => by cases h

theorem pure (a : α) : Innocent (Pure.pure a : Except Exn α) := ok a

theorem error {e : Exn} (h : e.keyFault = false) : Innocent (.error e : Except Exn α) := by
  intro e' he
  cases he
  exact h

theorem throw {e : Exn} (h : e.keyFault = false) : Innocent (throw e : Except Exn α) := error h

theorem bind (hx : Innocent x) {f : α → Except Exn β} (hf : ∀ a, x = .ok a → Innocent (f a)) : Innocent (x >>= f) := by
  intro e he
  cases hxx : x with
  | error e' =>
    rw [hxx] at he
    cases he
    exact hx e hxx
  | ok a =>
    rw [hxx] at he
    exact hf a hxx e he

theorem ite {c : Prop} [Decidable c] {y : Except Exn α} (hx : Innocent x) (hy : Innocent y) : Innocent (if c then x else y) := by
  split
  · exact hx
  · exact hy

end Innocent

variable (host : Host)

-- Any other text is no fault of a key; its first and its last letter tell.
attribute [local simp] keyFaultText List.isSuffixOf List.isPrefixOf

section Steps

theorem keyFault_invalid (m : String) : (invalid m).keyFault = keyFaultText m := by
  simp [invalid, Exn.keyFault]

theorem Innocent.invalid {α : Type} {m : String} (h : keyFaultText m = false) : Innocent (.error (Flowlets.invalid m) : Except Exn α) :=
  .error (by rw [keyFault_invalid]; exact h)

theorem validateComponentValue_innocent (comp spec v : Json) : Innocent (validateComponentValue host comp spec v) := by
  unfold validateComponentValue
  split
  case h_5 =>
    dsimp only
    split
    · exact .ok _
    · exact .ok _
  case h_7 => exact .ok _
  all_goals
    split
    · exact .ok _
    · exact .invalid (by simp [*])

theorem coerceField_innocent (key field : String) (ftype v : Json) : Innocent (coerceField host key field ftype v) := by
  unfold coerceField
  split
  · split
    · exact .invalid (by simp [toString])
    · exact .ok _
  · split
    · exact .ok _
    · exact .invalid (by simp [toString])
  · exact .ok _
  · dsimp only
    split
    · exact .ok _
    · exact .invalid (by simp [toString])
  · exact .ok _
  · exact .invalid (by simp [toString])

theorem coerceFields_innocent (key : String) (fields : Json) (given new : List (String × Json)) :
    Innocent (coerceFields host key fields new given) := by
  induction given generalizing new with
  | nil => exact .ok _
  | cons f rest ih =>
    unfold coerceFields
    split
    · exact .bind (coerceField_innocent host key f.1 (fields.get f.1) f.2) fun x _ => ih _
    · exact .error rfl

theorem itemEnvelope_innocent (passed : Json) : Innocent (itemEnvelope host passed) := by
  unfold itemEnvelope
  split
  · exact .ok _
  · exact .invalid (by decide)

theorem updateItem_innocent (a : Json) (k : String) (fields item inner : Json) : Innocent (updateItem host a k fields item inner) := by
  unfold updateItem
  split
  · exact .bind (coerceFields_innocent host k fields _ _) fun _ _ => .pure _
  · split
    · split
      · exact .invalid (by simp [toString])
      · exact .bind (coerceFields_innocent host k fields _ _) fun _ _ => .pure _
    · exact .throw rfl

variable (hres : ∀ d r now, Innocent (host.resolveValues d r now))

include hres

theorem namespaceOf_innocent (d passed : Json) (env : Env) (r : Rows) : Innocent (namespaceOf host d passed env r) := by
  unfold namespaceOf
  refine .bind (hres d r env.now) fun ns _ => ?_
  split
  · exact .pure _
  · exact .pure _

theorem formItem_innocent (d a passed : Json) (env : Env) (r : Rows) (k : String) (fields : Json) (new : List (String × Json)) :
    Innocent (formItem host d a passed env r k fields new) := by
  unfold formItem
  split
  · exact .bind (namespaceOf_innocent host hres d _ env r) fun ns _ => coerceFields_innocent host k fields _ _
  · exact coerceFields_innocent host k fields _ _
  · split
    · exact .ok _
    · dsimp only
      split
      · exact coerceFields_innocent host k fields _ _
      · exact .ok _

theorem newItem_innocent (label : String → Option String) (d a passed : Json) (env : Env) (r : Rows) (k : String) (fields : Json) :
    Innocent (newItem host label d a passed env r k fields) := by
  unfold newItem
  refine .bind (coerceFields_innocent host k fields _ _) fun fixed _ => ?_
  refine .bind (formItem_innocent host hres d a passed env r k fields fixed) fun new _ => ?_
  dsimp only
  split
  · exact .throw rfl
  · split
    · exact .invalid (by decide)
    · exact .pure _

end Steps

/-! ## An op that finds its key -/

section Ops

variable {host} {d a comp passed : Json} {env : Env} {r : Rows} {k : String} {spec : Json}

theorem keyOf_some (hk : (a.get "key").str? = some k) : keyOf a = .ok (.str k) := by
  unfold keyOf
  have hstr : a.get "key" = .str k := by
    cases hj : a.get "key" with
    | str s =>
      rw [hj] at hk
      exact congrArg Json.str (Option.some.inj hk)
    | _ =>
      rw [hj] at hk
      cases hk
  have hhas : a.has "key" = true := by
    unfold Json.has
    cases hl : a.fields.lookup "key" with
    | some v => rfl
    | none =>
      unfold Json.get at hstr
      rw [hl] at hstr
      cases hstr
  rw [if_pos hhas, hstr]

theorem applySet_innocent (hk : (a.get "key").str? = some k) (hs : stateSpec host d (.str k) = .ok (k, spec)) :
    Innocent (applySet host d comp a passed env) := by
  unfold applySet
  rw [keyOf_some hk]
  show Innocent (stateSpec host d (.str k) >>= _)
  rw [hs]
  show Innocent (if _ then _ else _)
  split
  · exact .ok _
  · show Innocent (if _ then _ else _)
    split
    · refine .bind (.throw ?_) fun _ h => nomatch h
      rw [keyFault_invalid]
      simp [toString]
    · exact .bind (validateComponentValue_innocent host comp spec _) fun _ _ => .pure _

theorem applyToggle_innocent (hk : (a.get "key").str? = some k) (hs : stateSpec host d (.str k) = .ok (k, spec)) :
    Innocent (applyToggle host d a passed env r) := by
  unfold applyToggle
  rw [keyOf_some hk]
  show Innocent (stateSpec host d (.str k) >>= _)
  rw [hs]
  dsimp only [bind, Except.bind]
  split
  · exact .pure _
  · exact .pure _

theorem applyTimerToggle_innocent (hk : (a.get "key").str? = some k) (hs : stateSpec host d (.str k) = .ok (k, spec)) :
    Innocent (applyTimerToggle host d a env r) := by
  unfold applyTimerToggle
  rw [keyOf_some hk]
  show Innocent (stateSpec host d (.str k) >>= _)
  rw [hs]
  exact .ok _

theorem applyIncrement_innocent {sign : Rat} (hop : opName a = "increment" ∨ opName a = "decrement")
    (hk : (a.get "key").str? = some k) (hs : stateSpec host d (.str k) = .ok (k, spec)) (ht : (spec.get "type").str? = some "number") :
    Innocent (applyIncrement host sign d a passed env r) := by
  unfold applyIncrement
  rw [keyOf_some hk]
  show Innocent (stateSpec host d (.str k) >>= _)
  rw [hs]
  show Innocent (if _ then _ else _)
  rw [if_neg (not_not_intro ht)]
  dsimp only
  split
  · exact .pure _
  · refine .throw ?_
    rw [keyFault_invalid]
    rcases hop with h | h
    all_goals
      rw [h]
      simp [toString]

variable (hres : ∀ d r now, Innocent (host.resolveValues d r now))

include hres

theorem applyItemAdd_innocent (label : String → Option String) (hk : (a.get "key").str? = some k)
    (hs : listSpec host d (.str k) = .ok (k, spec)) : Innocent (applyItemAdd host label d a passed env r) := by
  unfold applyItemAdd
  rw [keyOf_some hk]
  show Innocent (listSpec host d (.str k) >>= _)
  rw [hs]
  refine .ite ?_ ?_
  · refine .bind (.throw ?_) fun _ h => nomatch h
    rw [keyFault_invalid]
    simp [toString]
  · exact .bind (newItem_innocent host hres label d a passed env r k _) fun _ _ => .pure _

theorem applyLog_innocent : Innocent (applyLog host d a passed env r) := by
  unfold applyLog
  split
  · dsimp only
    split
    · split
      · refine .ite (.pure _) ?_
        exact .bind (namespaceOf_innocent host hres d passed env r) fun _ _ => .pure _
      · exact .pure _
    · exact .invalid (by decide)
  · exact .invalid (by decide)

omit hres in
theorem applyRowOp_innocent (hk : (a.get "key").str? = some k) (hs : listSpec host d (.str k) = .ok (k, spec)) :
    Innocent (applyRowOp host d a passed env r) := by
  unfold applyRowOp
  rw [keyOf_some hk]
  show Innocent (listSpec host d (.str k) >>= _)
  rw [hs]
  refine .bind (itemEnvelope_innocent host passed) fun envelope _ => ?_
  obtain ⟨id, inner⟩ := envelope
  dsimp only
  split
  · split
    · split
      · exact .pure _
      · exact .throw rfl
    · exact .bind (updateItem_innocent host a k _ _ _) fun _ _ => .pure _
    · exact .pure _
    · split
      · exact .pure _
      · exact .invalid (by decide)
  · exact .throw rfl

end Ops

/-! ## The spec a key has when served -/

/-- The last draft of that name, else what the definition declares. -/
def specOf (host : Host) (d : Json) (k : String) : Json := ((drafts host d).reverse.lookup k).getD ((d.get "state").get k)

section Served

variable {host} {d : Json} {k : String}

theorem lookup_foldl_setField (ds fs : List (String × Json)) (k : String) :
    (ds.foldl (fun state f => Json.setField state f.1 f.2) fs).lookup k = (ds.reverse.lookup k).or (fs.lookup k) := by
  induction ds generalizing fs with
  | nil => rfl
  | cons f ds ih =>
    obtain ⟨n, j⟩ := f
    rw [List.foldl_cons, ih, Json.lookup_setField, List.reverse_cons, List.lookup_append]
    cases ds.reverse.lookup k with
    | some v => rfl
    | none =>
      by_cases hk : k = n
      · subst hk
        simp
      · have hb : (k == n) = false := beq_eq_false_iff_ne.2 hk
        simp [List.lookup_cons, hk, hb]

theorem get_served (host : Host) (d : Json) (k : String) : ((served host d).get "state").get k = specOf host d k := by
  unfold specOf
  rw [get_served_state]
  show ((updateFields (d.get "state").fields (drafts host d)).lookup k).getD .null = _
  unfold updateFields
  rw [lookup_foldl_setField]
  cases (drafts host d).reverse.lookup k with
  | some v => rfl
  | none => rfl

theorem stateSpec_served (h : (specOf host d k).isObj) : stateSpec host (served host d) (.str k) = .ok (k, specOf host d k) := by
  show (if (((served host d).get "state").get k).isObj then _ else _) = _
  rw [get_served, if_pos h]

theorem stateSpec_fault (h : ¬ (specOf host d k).isObj) :
    ∃ e, stateSpec host (served host d) (.str k) = .error e ∧ e.keyFault = true := by
  refine ⟨invalid s!"state key '{k}' is not declared", ?_, ?_⟩
  · show (if (((served host d).get "state").get k).isObj then _ else _) = _
    rw [get_served, if_neg h]
  · rw [keyFault_invalid]
    simp [toString]

theorem listSpec_served (h : isListSpec (specOf host d k)) : listSpec host (served host d) (.str k) = .ok (k, specOf host d k) := by
  obtain ⟨hobj, htype⟩ := Bool.and_eq_true_iff.1 h
  unfold listSpec
  rw [stateSpec_served hobj]
  show (if ((specOf host d k).get "type").str? = some "list" then _ else _) = _
  rw [if_pos (of_decide_eq_true htype)]

theorem listSpec_fault (h : ¬ isListSpec (specOf host d k)) :
    ∃ e, listSpec host (served host d) (.str k) = .error e ∧ e.keyFault = true := by
  unfold listSpec
  by_cases hobj : (specOf host d k).isObj
  · rw [stateSpec_served hobj]
    refine ⟨invalid s!"'{k}' is not a list state key", ?_, ?_⟩
    · show (if ((specOf host d k).get "type").str? = some "list" then _ else _) = _
      rw [if_neg fun ht => h (Bool.and_eq_true_iff.2 ⟨hobj, decide_eq_true ht⟩)]
    · rw [keyFault_invalid]
      simp [toString]
  · obtain ⟨e, he, hf⟩ := stateSpec_fault hobj
    rw [he]
    exact ⟨e, rfl, hf⟩

end Served

section Accepted

variable {repr : Json → String} {host : Host} {d : Json} {source : Option String} {k : String} {key : Json}

theorem specOf_draft {v : Json} (h : (drafts host d).reverse.lookup k = some v) : specOf host d k = v ∧ isScalarSpec v := by
  unfold specOf
  rw [h]
  exact ⟨rfl, drafts_scalar host d _ (List.mem_reverse.1 (Assoc.mem_of_lookup h))⟩

theorem specOf_declared (hd : Accepted repr host d) (h : (drafts host d).reverse.lookup k = none) {spec : Json}
    (hin : (k, spec) ∈ (d.get "state").fields) : specOf host d k = spec := by
  unfold specOf Json.get
  rw [h]
  show ((d.get "state").fields.lookup k).getD .null = spec
  rw [Assoc.lookup_of_mem hd.keys hin]
  rfl

theorem isScalarSpec_of_valid {repr : Json → String} {k : String} {spec : Json} (h : validateStateSpec repr k spec = .ok ())
    (hlist : ¬ isListSpec spec) : isScalarSpec spec := by
  obtain ⟨hobj, h⟩ := check_bind.1 h
  obtain ⟨htype, _⟩ := check_bind.1 h
  have hobj := check_ok.1 hobj
  have htype := check_ok.1 htype
  unfold isScalarSpec
  unfold isListSpec at hlist
  rw [hobj] at hlist ⊢
  cases ht : (spec.get "type").str? with
  | none =>
    rw [ht] at htype
    cases htype
  | some t =>
    rw [ht] at htype hlist
    simp only [Option.any_some, stateTypes, scalarTypes, List.contains_cons, List.contains_nil, Bool.or_false, Bool.true_and,
      Bool.or_eq_true, beq_iff_eq] at htype ⊢
    simp only [Bool.true_and, decide_eq_true_eq, Option.some.injEq] at hlist
    tauto

/-- A key the validator took for a scalar is one when it is there at all. -/
theorem specOf_scalar (hd : Accepted repr host d) (hkey : (ctxOf d source).isScalar (.str k)) (hobj : (specOf host d k).isObj) :
    isScalarSpec (specOf host d k) := by
  cases hl : (drafts host d).reverse.lookup k with
  | some v =>
    obtain ⟨heq, hv⟩ := specOf_draft hl
    rw [heq]
    exact hv
  | none =>
    have hmem : k ∈ (ctxOf d source).scalarKeys := List.contains_iff_mem.1 hkey
    rcases List.mem_append.1 hmem with hmem | hmem
    · obtain ⟨f, hf, rfl⟩ := List.mem_map.1 hmem
      obtain ⟨hf, hlist⟩ := List.mem_filter.1 hf
      rw [specOf_declared hd hl hf]
      exact isScalarSpec_of_valid (hd.state f hf) (by simpa using hlist)
    · -- What is only computed is not there.
      obtain ⟨f, hf, rfl⟩ := List.mem_map.1 hmem
      have hout := hd.computed f hf
      unfold specOf Json.get at hobj
      rw [hl] at hobj
      change (((d.get "state").fields.lookup f.1).getD .null).isObj = true at hobj
      cases hls : (d.get "state").fields.lookup f.1 with
      | none =>
        rw [hls] at hobj
        cases hobj
      | some spec => exact absurd (List.mem_map_of_mem (Assoc.mem_of_lookup hls)) hout

theorem specOf_timer (hd : Accepted repr host d) (hkey : (ctxOf d source).isTimer (.str k)) : (specOf host d k).isObj := by
  cases hl : (drafts host d).reverse.lookup k with
  | some v =>
    obtain ⟨heq, hv⟩ := specOf_draft hl
    rw [heq]
    exact (Bool.and_eq_true_iff.1 hv).1
  | none =>
    have hmem : k ∈ (ctxOf d source).timerKeys := List.contains_iff_mem.1 hkey
    obtain ⟨f, hf, rfl⟩ := List.mem_map.1 hmem
    obtain ⟨hf, htimer⟩ := List.mem_filter.1 hf
    rw [specOf_declared hd hl hf]
    exact (Bool.and_eq_true_iff.1 htimer).1

end Accepted

/-! ## Agreement -/

/-- The types of state an op can write; a reset deletes the row of any. -/
def writes (op : String) (spec : Json) : Bool :=
  if op = "increment" ∨ op = "decrement" then (spec.get "type").str? = some "number"
  else op = "reset" || (spec.get "type").str?.any scalarTypes.contains

/-- The op fails for no value because of its key, and if it writes a scalar, the key is
    one of the stored state of a type it can write. -/
def Agrees (host : Host) (label : String → Option String) (d a : Json) : Prop :=
  (∀ comp passed env r, Innocent (applyOp host label (served host d) comp a passed env r)) ∧
    (opName a ∈ ["set", "toggle", "increment", "decrement", "reset"] → ∀ k, (a.get "key").str? = some k →
      ∃ spec, stateSpec host (served host d) (.str k) = .ok (k, spec) ∧ writes (opName a) spec)

/-- The key of the op is declared under `state`, or is the draft key of a form, and not
    computed only; it is a number for an increment; the draft key of a form is no list. -/
def Fits (host : Host) (d a : Json) : Prop :=
  ∀ k, (a.get "key").str? = some k →
    match opName a with
    | "set" | "toggle" | "reset" => (specOf host d k).isObj
    | "increment" | "decrement" => ((specOf host d k).get "type").str? = some "number"
    | "item_add" | "item_update" | "item_toggle" | "item_remove" | "item_move" => isListSpec (specOf host d k)
    | _ => True

theorem isObj_of_type {spec : Json} {t : String} (h : (spec.get "type").str? = some t) : spec.isObj := by
  cases spec with
  | obj fs => rfl
  | _ => cases h

section Main

variable {repr : Json → String} {host : Host} {label : String → Option String} {d a : Json} {source : Option String}

theorem str_of_any {j : Json} {l : List String} (h : j.str?.any l.contains) : ∃ k, j.str? = some k ∧ k ∈ l := by
  cases hj : j.str? with
  | none =>
    rw [hj] at h
    cases h
  | some k =>
    rw [hj] at h
    exact ⟨k, rfl, List.contains_iff_mem.1 h⟩

theorem isScalar_str {ctx : Ctx} {j : Json} {k : String} (hk : j.str? = some k) (h : ctx.isScalar j) : ctx.isScalar (.str k) := by
  unfold Ctx.isScalar at h ⊢
  rw [hk] at h
  exact h

theorem isTimer_str {ctx : Ctx} {j : Json} {k : String} (hk : j.str? = some k) (h : ctx.isTimer j) : ctx.isTimer (.str k) := by
  unfold Ctx.isTimer at h ⊢
  rw [hk] at h
  exact h

/-- What the served state has under the key of an op: the key of a list op or of one that
    writes is a text; that of a `set` or `toggle` is no list; that of a timer is there. -/
structure Placed (host : Host) (d a : Json) : Prop where
  named : opName a ∈ ["set", "toggle", "increment", "decrement"] ++ itemOps → ∃ k, (a.get "key").str? = some k
  scalar : opName a ∈ ["set", "toggle"] → ∀ k, (a.get "key").str? = some k → (specOf host d k).isObj → isScalarSpec (specOf host d k)
  timer : opName a = "timer_toggle" → ∃ k, (a.get "key").str? = some k ∧ (specOf host d k).isObj

theorem Placed.of_checked (hd : Accepted repr host d) (hc : Checked (ctxOf d source) a) : Placed host d a where
  named hop := by
    rcases List.mem_append.1 hop with hop | hop
    · obtain ⟨k, hk, _⟩ := str_of_any (hc.scalar hop)
      exact ⟨k, hk⟩
    · obtain ⟨k, hk, _⟩ := str_of_any (hc.list hop)
      exact ⟨k, hk⟩
  scalar hop k hk hobj := specOf_scalar hd (isScalar_str hk (hc.scalar (List.mem_append_left ["increment", "decrement"] hop))) hobj
  timer hop := by
    have htimer := hc.timer hop
    obtain ⟨k, hk, _⟩ := str_of_any htimer
    exact ⟨k, hk, specOf_timer hd (isTimer_str hk htimer)⟩

/-- A draft is there when served, and is a scalar. -/
theorem specOf_of_draft {node schema fspec : Json} (hform : typeOf node = "form") (hin : (node, schema) ∈ composites d)
    (hf : fspec ∈ (node.get "fields").items) : isScalarSpec (specOf host d (draftKey (formIdOf node) (fieldOf fspec))) := by
  have hmem : (draftKey (formIdOf node) (fieldOf fspec), draftSpec host (fieldType schema (fieldOf fspec)) fspec) ∈ drafts host d := by
    refine List.mem_flatMap.2 ⟨_, hin, ?_⟩
    rw [if_pos hform]
    exact List.mem_map.2 ⟨fspec, hf, rfl⟩
  cases hl : (drafts host d).reverse.lookup (draftKey (formIdOf node) (fieldOf fspec)) with
  | none => simpa using List.lookup_eq_none_iff.1 hl _ (List.mem_reverse.2 hmem)
  | some v =>
    obtain ⟨heq, hscalar⟩ := specOf_draft hl
    rw [heq]
    exact hscalar

theorem Placed.of_formOp (hd : Accepted repr host d) {v : Option String × Json} (hv : v ∈ visits d) (hform : typeOf v.2 = "form")
    {schema : Json} (hin : (v.2, schema) ∈ composites d) (ha : FormOp v.2 a) : Placed host d a := by
  rcases ha with ⟨hop, fspec, hf, hkey⟩ | ⟨hop, hkey⟩
  · refine ⟨fun _ => ⟨_, congrArg Json.str? hkey⟩, fun _ k hk _ => ?_, fun ht => ?_⟩
    · rw [hkey] at hk
      cases hk
      exact specOf_of_draft hform hin hf
    · rw [ht] at hop
      exact absurd hop (by decide)
  · have hlist := check_ok.1 (check_bind.1 (check_bind.1 (check_bind.1 (hd.form v hv hform)).2).2).1
    obtain ⟨k, hk, _⟩ := str_of_any hlist
    refine ⟨fun _ => ⟨k, by rw [hkey, hk]⟩, fun hset => ?_, fun ht => ?_⟩
    · rw [hop] at hset
      exact absurd hset (by decide)
    · rw [hop] at ht
      exact absurd ht (by decide)

theorem Placed.of_editOp (ha : EditOp a) : Placed host d a := by
  obtain ⟨hop, list, hkey⟩ := ha
  refine ⟨fun _ => ⟨list, congrArg Json.str? hkey⟩, fun hset => ?_, fun ht => ?_⟩
  · simp only [List.mem_cons, List.not_mem_nil, or_false] at hop hset
    rcases hop with ho | ho
    all_goals
      rw [ho] at hset
      exact absurd hset (by decide)
  · rw [ht] at hop
    exact absurd hop (by decide)

theorem Tappable.placed (hd : Accepted repr host d) {comp : Json} (hcomp : Tappable host d comp) (ha : a ∈ opsOf comp) :
    Placed host d a := by
  rcases hd.stems hcomp ha with (⟨v, hv, hop⟩ | ⟨v, hv, hform, ⟨schema, hin⟩, hop⟩) | hop
  · exact .of_checked hd (hd.checked hv a hop)
  · exact .of_formOp hd hv hform hin hop
  · exact .of_editOp hop

/-- An op that fits does what it says. -/
theorem innocent_of_fits (hres : ∀ d r now, Innocent (host.resolveValues d r now)) (hp : Placed host d a) (hf : Fits host d a)
    (comp passed : Json) (env : Env) (r : Rows) : Innocent (applyOp host label (served host d) comp a passed env r) := by
  unfold applyOp
  dsimp only
  split
  case h_1 op ho =>
    obtain ⟨k, hk⟩ := hp.named (by rw [ho]; decide)
    have hfit := hf k hk
    rw [ho] at hfit
    exact applySet_innocent hk (stateSpec_served hfit)
  case h_2 op ho =>
    obtain ⟨k, hk⟩ := hp.named (by rw [ho]; decide)
    have hfit := hf k hk
    rw [ho] at hfit
    exact applyIncrement_innocent (.inl ho) hk (stateSpec_served (isObj_of_type hfit)) hfit
  case h_3 op ho =>
    obtain ⟨k, hk⟩ := hp.named (by rw [ho]; decide)
    have hfit := hf k hk
    rw [ho] at hfit
    exact applyIncrement_innocent (.inr ho) hk (stateSpec_served (isObj_of_type hfit)) hfit
  case h_4 op ho =>
    obtain ⟨k, hk⟩ := hp.named (by rw [ho]; decide)
    have hfit := hf k hk
    rw [ho] at hfit
    exact applyToggle_innocent hk (stateSpec_served hfit)
  case h_5 op ho =>
    obtain ⟨k, hk, hobj⟩ := hp.timer ho
    exact applyTimerToggle_innocent hk (stateSpec_served hobj)
  case h_6 => exact applyLog_innocent hres
  case h_7 =>
    unfold applyRemoveLast
    split
    · exact .pure _
    · exact .invalid (by decide)
  case h_8 =>
    unfold applyReset
    refine .ite ?_ (.pure _)
    refine .bind (.throw ?_) fun _ h => nomatch h
    rw [keyFault_invalid]
    decide
  case h_9 op ho =>
    obtain ⟨k, hk⟩ := hp.named (by rw [ho]; decide)
    have hfit := hf k hk
    rw [ho] at hfit
    exact applyItemAdd_innocent hres label hk (listSpec_served hfit)
  case h_14 =>
    exact .invalid (by simp [toString])
  all_goals
    next op ho =>
      obtain ⟨k, hk⟩ := hp.named (by rw [ho]; decide)
      have hfit := hf k hk
      rw [ho] at hfit
      exact applyRowOp_innocent hk (listSpec_served hfit)

/-- A scalar that fits is stored, and of a type the op can write. -/
theorem writes_of_fits (hp : Placed host d a) (hf : Fits host d a)
    (hop : opName a ∈ ["set", "toggle", "increment", "decrement", "reset"]) {k : String} (hk : (a.get "key").str? = some k) :
    ∃ spec, stateSpec host (served host d) (.str k) = .ok (k, spec) ∧ writes (opName a) spec := by
  have hfit := hf k hk
  unfold writes
  simp only [List.mem_cons, List.not_mem_nil, or_false] at hop
  rcases hop with ho | ho | ho | ho | ho
  case inr.inr.inl | inr.inr.inr.inl =>
    rw [ho] at hfit ⊢
    exact ⟨_, stateSpec_served (isObj_of_type hfit), decide_eq_true hfit⟩
  case inr.inr.inr.inr =>
    rw [ho] at hfit ⊢
    exact ⟨_, stateSpec_served hfit, rfl⟩
  all_goals
    have hset : opName a ∈ ["set", "toggle"] := by
      rw [ho]
      decide
    rw [ho] at hfit ⊢
    exact ⟨_, stateSpec_served hfit, (Bool.and_eq_true_iff.1 (hp.scalar hset k hk hfit)).2⟩

variable (label) in
/-- An op on a list that is none fails because of that, whatever the row and the value are. -/
theorem fault_of_no_list {k : String} (hop : opName a ∈ itemOps) (hk : (a.get "key").str? = some k) (hl : ¬ isListSpec (specOf host d k))
    (comp passed : Json) (env : Env) (r : Rows) :
    ∃ e, applyOp host label (served host d) comp a passed env r = .error e ∧ e.keyFault = true := by
  obtain ⟨e, he, hf⟩ := listSpec_fault hl
  refine ⟨e, ?_, hf⟩
  have hadd : ∀ passed, applyItemAdd host label (served host d) a passed env r = .error e := by
    intro passed
    unfold applyItemAdd
    rw [keyOf_some hk]
    show listSpec host (served host d) (.str k) >>= _ = _
    rw [he]
    rfl
  have hrow : ∀ passed, applyRowOp host (served host d) a passed env r = .error e := by
    intro passed
    unfold applyRowOp
    rw [keyOf_some hk]
    show listSpec host (served host d) (.str k) >>= _ = _
    rw [he]
    rfl
  unfold applyOp
  simp only [itemOps, List.mem_cons, List.not_mem_nil, or_false] at hop
  rcases hop with ho | ho | ho | ho | ho
  · rw [ho]
    exact hadd _
  all_goals
    rw [ho]
    exact hrow _

theorem fits_of_agrees (h : Agrees host label d a) : Fits host d a := by
  obtain ⟨hinn, hwrites⟩ := h
  intro k hk
  have hspec : opName a ∈ ["set", "toggle", "increment", "decrement", "reset"] →
      (specOf host d k).isObj ∧ writes (opName a) (specOf host d k) := by
    intro hop
    obtain ⟨spec, hs, hw⟩ := hwrites hop k hk
    by_cases hobj : (specOf host d k).isObj
    · rw [stateSpec_served hobj] at hs
      cases hs
      exact ⟨hobj, hw⟩
    · obtain ⟨e, he, _⟩ := stateSpec_fault hobj
      rw [he] at hs
      cases hs
  have hlist : opName a ∈ itemOps → isListSpec (specOf host d k) := by
    intro hop
    by_contra hl
    obtain ⟨e, he, hfault⟩ := fault_of_no_list label hop hk hl .null .null ⟨0, "", ""⟩ {}
    rw [hinn _ _ _ _ e he] at hfault
    cases hfault
  split
  case h_4 ho | h_5 ho =>
    obtain ⟨_, hw⟩ := hspec (by rw [ho]; decide)
    rw [ho] at hw
    exact of_decide_eq_true hw
  case h_1 ho | h_2 ho | h_3 ho => exact (hspec (by rw [ho]; decide)).1
  case h_11 => exact trivial
  all_goals
    next ho => exact hlist (by rw [ho]; decide)

/-- Every op a tap on a component of an accepted definition runs agrees with the
    interpreter, just when its key fits. -/
theorem accepted_ops_agree (hres : ∀ d r now e, host.resolveValues d r now = .error e → ∃ name, e = .other name)
    (hd : Accepted repr host d) {comp : Json} (hcomp : Tappable host d comp) :
    (∀ a ∈ opsOf comp, Agrees host label d a) ↔ ∀ a ∈ opsOf comp, Fits host d a := by
  have hinn : ∀ d r now, Innocent (host.resolveValues d r now) := by
    intro d r now e he
    obtain ⟨name, rfl⟩ := hres d r now e he
    rfl
  constructor
  · exact fun h a ha => fits_of_agrees (h a ha)
  · intro h a ha
    have hp := hcomp.placed hd ha
    exact ⟨innocent_of_fits hinn hp (h a ha), fun hop k hk => writes_of_fits hp (h a ha) hop hk⟩

end Main

namespace Sample

def countUp (key : String) : Json := .obj [("op", .str "increment"), ("key", .str key)]

def countButton (key : String) : Json :=
  .obj [("type", .str "button"), ("id", .str "go"), ("text", .str "+"), ("action", countUp key)]

/-- A number, what is computed from it, and a button that counts `key` up. -/
def counting (key : String) : Json := .obj [
  ("name", .str "count"),
  ("state", .obj [("x", number)]),
  ("computed", .obj [("y", .obj [("expr", .str "x + 1")])]),
  ("layout", .arr [countButton key])]

theorem counting_accepted (key : String) (h : key = "x" ∨ key = "y") : Accepted (fun _ => "") plain (counting key) := by
  rcases h with rfl | rfl
  · exact ⟨by decide, by decide, by decide, by decide, by decide, by decide, by decide, by decide, by decide, by decide⟩
  · exact ⟨by decide, by decide, by decide, by decide, by decide, by decide, by decide, by decide, by decide, by decide⟩

theorem countButton_tappable (key : String) (h : key = "x" ∨ key = "y") : Tappable plain (counting key) (countButton key) := by
  rcases h with rfl | rfl
  · exact .found List.mem_cons_self
  · exact .found List.mem_cons_self

def titleForm : Json := .obj [("type", .str "form"), ("id", .str "add"), ("into", .str "rows"), ("fields", .arr [.obj [("field", .str "title")]])]

def titled : Json := .obj [("title", .str "string")]

/-- A list of titles, and a form that adds to it. -/
def listing : Json := .obj [
  ("name", .str "list"),
  ("state", .obj [("rows", .obj [("type", .str "list"), ("item", titled)])]),
  ("layout", .arr [titleForm])]

theorem listing_accepted : Accepted (fun _ => "") plain listing :=
  ⟨by decide, by decide, by decide, by decide, by decide, by decide, by decide, by decide, by decide, by decide⟩

theorem submit_tappable : Tappable plain listing (submitButton plain titleForm titled) := .found (.tail _ (.tail _ (.head _)))

theorem accepted_ops_agree_submit :
    (∀ a ∈ opsOf (submitButton plain titleForm titled), Agrees plain (fun _ => none) listing a) ↔
      ∀ a ∈ opsOf (submitButton plain titleForm titled), Fits plain listing a :=
  accepted_ops_agree (fun _ _ _ _ h => by cases h) listing_accepted submit_tappable

end Sample

/-- A button that counts up what is only computed is accepted, and fails. -/
theorem a_computed_key_is_accepted :
    ¬ ∀ d, Accepted (fun _ => "") Sample.plain d → ∀ comp, Tappable Sample.plain d comp → ∀ a ∈ opsOf comp,
      Agrees Sample.plain (fun _ => none) d a := by
  intro h
  have hagrees := h _ (Sample.counting_accepted "y" (.inr rfl)) _ (Sample.countButton_tappable "y" (.inr rfl)) (Sample.countUp "y")
    List.mem_cons_self
  have hfits : ((specOf Sample.plain (Sample.counting "y") "y").get "type").str? = some "number" := fits_of_agrees hagrees "y" rfl
  revert hfits
  decide

end Flowly.Flowlets
