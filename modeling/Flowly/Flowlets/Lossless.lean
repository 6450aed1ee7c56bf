/-
  Flowly.Flowlets.Lossless — what `repair_definition` does to a definition that needs none.

  Proved: repairing twice is repairing once, and the repair of a definition that the validator
  accepts is that definition again just where it has no table of `lists` to move into the state
  and no component whose data has its grouping under an alias (`lossless_iff`): the validator
  passes over these two, and the rules do not.
-/

import Flowly.Flowlets.Walks
import Flowly.Lib.Assoc

namespace Flowly.Flowlets.Repair

open Flowly.Lib

/-! ## The rules for a component -/

section Rules

variable {t : Texts} {node : Json} {k : String} {c : Component}

theorem Inner.refl (j : Json) : Inner j j := fun _ he => .inl he

theorem Inner.trans {a b d : Json} (h : Inner a b) (h' : Inner b d) : Inner a d := fun e he =>
  (h' e he).elim (h e) .inr

theorem Inner.set (j v : Json) (hc : k ≠ "children") (hi : k ≠ "item") : Inner j (j.set k v) := by
  intro e he
  change e ∈ Json.setField j.fields k v at he
  unfold Json.setField at he
  split at he
  · obtain ⟨e', he', rfl⟩ := List.mem_map.1 he
    split
    · exact .inr ⟨hc, hi⟩
    · exact .inl he'
  · rcases List.mem_append.1 he with he | he
    · exact .inl he
    · rw [List.mem_singleton.1 he]
      exact .inr ⟨hc, hi⟩

theorem Inner.pop (j : Json) (k : String) : Inner j (pop j k) := fun _ he => .inl (List.mem_of_mem_filter he)

theorem isObj_foldl {α : Type} {f : Json → α → Json} (hf : ∀ j a, j.isObj → (f j a).isObj) (l : List α) (h : node.isObj) :
    (l.foldl f node).isObj := by
  induction l generalizing node with
  | nil => exact h
  | cons a l ih => exact ih (hf node a h)

theorem Inner.foldl {α : Type} {f : Json → α → Json} (l : List α) (hf : ∀ j, ∀ a ∈ l, Inner j (f j a)) : Inner node (l.foldl f node) := by
  induction l generalizing node with
  | nil => exact .refl node
  | cons a l ih => exact (hf node a List.mem_cons_self).trans (ih fun j b hb => hf j b (List.mem_cons_of_mem _ hb))

theorem lookup_foldl {α : Type} {f : Json → α → Json} (l : List α)
    (hf : ∀ j, ∀ a ∈ l, (f j a).fields.lookup k = j.fields.lookup k) : (l.foldl f node).fields.lookup k = node.fields.lookup k := by
  induction l generalizing node with
  | nil => rfl
  | cons a l ih => exact (ih fun j b hb => hf j b (List.mem_cons_of_mem _ hb)).trans (hf node a List.mem_cons_self)

theorem get_eq {a b : Json} (h : a.fields.lookup k = b.fields.lookup k) : a.get k = b.get k := by
  rw [Json.get, Json.get, h]

theorem has_eq {a b : Json} (h : a.fields.lookup k = b.fields.lookup k) : a.has k = b.has k := by
  rw [Json.has, Json.has, h]

/-! ### What the rules look at -/

theorem typeAlias?_congr {a b : Json} (h : a.get "type" = b.get "type") : typeAlias? t a = typeAlias? t b := by
  rw [typeAlias?, typeAlias?, h]

theorem componentOf_congr {a b : Json} (h : a.get "type" = b.get "type") : componentOf a = componentOf b := by
  rw [componentOf, componentOf, h]

theorem groupAlias?_congr {a b : Json} (h : a.get "data" = b.get "data") : groupAlias? a = groupAlias? b := by
  rw [groupAlias?, groupAlias?, h]

theorem textProp?_congr {a b : Json} (htext : a.has "text" = b.has "text") (h : ∀ prop ∈ textProps, a.get prop = b.get prop) :
    textProp? c a = textProp? c b := by
  have htitle := h "title" (by decide)
  have hlabel := h "label" (by decide)
  have hcontent := h "content" (by decide)
  simp only [textProp?, textProps, List.find?, htext, htitle, hlabel, hcontent]

def otherNames : List String := ["type", "data", "text", "title", "label", "content", "children", "item"]

theorem bind_ne (hc : c ∈ components) {prop : String} (hprop : prop ∈ c.binds) : ∀ k ∈ otherNames, k ≠ prop := by
  have h : ∀ c ∈ components, ∀ prop ∈ c.binds, ∀ k ∈ otherNames, k ≠ prop := by decide
  exact h c hc prop hprop

theorem mem_components (h : componentOf node = some c) : c ∈ components := by
  obtain ⟨_, _, hfind⟩ := Option.bind_eq_some_iff.1 h
  exact List.mem_of_find?_eq_some hfind

theorem typeAlias?_spec {target : String × List (String × String)} (h : typeAlias? t node = some target) :
    (∃ kind, (node.get "type").str? = some kind ∧ component? kind = none) ∧ (component? target.1).isSome ∧ target.1 ≠ "repeater" ∧
      ∀ p ∈ target.2, p.1 = "kind" := by
  have htable : ∀ a ∈ typeAliases, (component? a.2.1).isSome ∧ a.2.1 ≠ "repeater" ∧ ∀ p ∈ a.2.2, p.1 = "kind" := by decide
  obtain ⟨kind, hkind, h⟩ := Option.bind_eq_some_iff.1 h
  split at h
  · cases h
  · next hnone =>
    exact ⟨⟨kind, hkind, Option.not_isSome_iff_eq_none.1 hnone⟩, htable _ (Assoc.mem_of_lookup h)⟩

/-! ### What they leave alone -/

theorem lookup_setDefault {p : String × String} (h : k ≠ p.1) : (setDefault node p).fields.lookup k = node.fields.lookup k := by
  unfold setDefault
  split
  · rfl
  · rw [lookup_set, if_neg h]

theorem lookup_fixData (h : k ≠ "data") : (fixData node).fields.lookup k = node.fields.lookup k := by
  unfold fixData
  split
  · rw [lookup_set, if_neg h]
  · rfl

theorem lookup_fixText (ht : k ≠ "text") (h : k ∉ textProps) : (fixText c node).fields.lookup k = node.fields.lookup k := by
  unfold fixText
  split
  · next prop hprop =>
    rw [lookup_set, if_neg ht, lookup_pop, if_neg]
    rintro rfl
    unfold textProp? at hprop
    split at hprop
    · exact h (List.mem_of_find?_eq_some hprop)
    · cases hprop
  · rfl

theorem lookup_fixBind {prop : String} (h : k ≠ prop) : (fixBind node prop).fields.lookup k = node.fields.lookup k := by
  unfold fixBind
  split
  · rw [lookup_set, if_neg h]
  · rfl

theorem lookup_fixBinds (hc : c ∈ components) (hk : k ∈ otherNames) :
    (c.binds.foldl fixBind node).fields.lookup k = node.fields.lookup k :=
  lookup_foldl c.binds fun _ _ hprop => lookup_fixBind (bind_ne hc hprop k hk)

/-! ### What they have done -/

theorem get_type_fixType {type : String} {props : List (String × String)} (h : typeAlias? t node = some (type, props)) :
    (fixType t node).get "type" = .str type := by
  have hprops := (typeAlias?_spec h).2.2.2
  have hlookup : (fixType t node).fields.lookup "type" = (node.set "type" (.str type)).fields.lookup "type" := by
    rw [fixType, h]
    exact lookup_foldl props fun j p hp => lookup_setDefault (by rw [hprops p hp]; decide)
  rw [get_eq hlookup, Json.get_set_self]

theorem typeAlias?_fixType : typeAlias? t (fixType t node) = none := by
  cases h : typeAlias? t node with
  | none => rwa [fixType, h]
  | some a =>
    obtain ⟨type, props⟩ := a
    rw [typeAlias?, get_type_fixType h]
    show (if (component? type).isSome then none else _) = none
    rw [if_pos (typeAlias?_spec h).2.1]

theorem groupAlias?_fixData : groupAlias? (fixData node) = none := by
  cases h : groupAlias? node with
  | none => rwa [fixData, h]
  | some key =>
    rw [fixData, h, groupAlias?]
    show (if ((node.set "data" _).get "data").isObj && _ then _ else _) = none
    rw [Json.get_set_self, has_set_self, Bool.not_true, Bool.and_false]
    rfl

theorem textProp?_fixText : textProp? c (fixText c node) = none := by
  cases h : textProp? c node with
  | none => rwa [fixText, h]
  | some prop =>
    rw [fixText, h, textProp?]
    show (if _ && !(Json.set _ "text" _).has "text" then _ else _) = none
    rw [has_set_self, Bool.not_true, Bool.and_false]
    rfl

theorem refOf_fixBind {prop : String} : refOf ((fixBind node prop).get prop) = none := by
  cases h : refOf (node.get prop) with
  | none => rwa [fixBind, h]
  | some key =>
    rw [fixBind, h]
    show refOf ((node.set prop (.str key)).get prop) = none
    rw [Json.get_set_self]
    rfl

theorem refOf_fixBinds (props : List String) : ∀ prop ∈ props, refOf ((props.foldl fixBind node).get prop) = none := by
  induction props generalizing node with
  | nil => nofun
  | cons b props ih =>
    intro prop hprop
    by_cases hin : prop ∈ props
    · exact ih prop hin
    · obtain rfl := (List.mem_cons.1 hprop).resolve_right hin
      have hkeep : ∀ j, ∀ a ∈ props, (fixBind j a).fields.lookup prop = j.fields.lookup prop := fun j a ha => by
        refine lookup_fixBind ?_
        rintro rfl
        exact hin ha
      rw [List.foldl_cons, get_eq (lookup_foldl props hkeep)]
      exact refOf_fixBind

/-! ### Components with nothing to do -/

/-- No rule but that for the data has anything to do. -/
def settled (t : Texts) (node : Json) : Bool :=
  (typeAlias? t node).isNone &&
    (componentOf node).all fun c => (textProp? c node).isNone && c.binds.all fun prop => (refOf (node.get prop)).isNone

def ungrouped (node : Json) : Bool := (groupAlias? node).isNone

theorem settled_iff : settled t node ↔ typeAlias? t node = none ∧
    ∀ c, componentOf node = some c → textProp? c node = none ∧ ∀ prop ∈ c.binds, refOf (node.get prop) = none := by
  simp only [settled, Bool.and_eq_true, Option.isNone_iff_eq_none, Option.all_eq_true_iff_get, List.all_eq_true]
  refine and_congr_right fun _ => ⟨fun h c hc => ?_, fun h hs => h _ (Option.some_get hs).symm⟩
  have hs : (componentOf node).isSome := by rw [hc]; rfl
  have := h hs
  simp only [hc, Option.get_some] at this
  exact this

theorem ungrouped_iff : ungrouped node ↔ groupAlias? node = none := Option.isNone_iff_eq_none

theorem fixData_of_ungrouped (h : ungrouped node) : fixData node = node := by
  rw [fixData, ungrouped_iff.1 h]

theorem get_fixData (h : k ≠ "data") : (fixData node).get k = node.get k := get_eq (lookup_fixData h)

theorem foldl_fixBind_eq (props : List String) (h : ∀ prop ∈ props, refOf (node.get prop) = none) : props.foldl fixBind node = node := by
  induction props with
  | nil => rfl
  | cons b props ih =>
    rw [List.foldl_cons, fixBind, h b List.mem_cons_self]
    exact ih fun prop hprop => h prop (List.mem_cons_of_mem _ hprop)

/-- All that the rules then do to a component is done to its data. -/
theorem fixNode_of_settled (h : settled t node) : fixNode t node = fixData node := by
  obtain ⟨halias, hrest⟩ := settled_iff.1 h
  have htype : fixType t node = node := by rw [fixType, halias]
  rw [fixNode, htype, fixProps]
  cases hc : componentOf (fixData node) with
  | none => rfl
  | some c =>
    have hc' : componentOf node = some c := by rw [← hc, componentOf_congr (get_fixData (by decide))]
    obtain ⟨htext, hbinds⟩ := hrest c hc'
    have htext' : textProp? c (fixData node) = none := by
      rw [← htext]
      refine textProp?_congr (has_eq (lookup_fixData (by decide))) fun prop hprop => get_fixData ?_
      rintro rfl
      revert hprop
      decide
    show c.binds.foldl fixBind (fixText c (fixData node)) = fixData node
    rw [fixText, htext']
    refine foldl_fixBind_eq c.binds fun prop hprop => ?_
    rw [get_fixData (Ne.symm (bind_ne (mem_components hc) hprop "data" (by decide))), hbinds prop hprop]

/-- After the rules there is nothing more for them to do. -/
theorem settled_fixNode : settled t (fixNode t node) ∧ ungrouped (fixNode t node) := by
  have halias : typeAlias? t (fixData (fixType t node)) = none := by
    rw [typeAlias?_congr (get_fixData (by decide)), typeAlias?_fixType]
  rw [settled_iff, ungrouped_iff, fixNode, fixProps]
  cases hc : componentOf (fixData (fixType t node)) with
  | none => exact ⟨⟨halias, fun c hc' => by cases hc.symm.trans hc'⟩, groupAlias?_fixData⟩
  | some c =>
    have hmem := mem_components hc
    have hlookup : ∀ k ∈ otherNames, k ≠ "text" → k ∉ textProps →
        (c.binds.foldl fixBind (fixText c (fixData (fixType t node)))).get k = (fixData (fixType t node)).get k := fun k hk ht hp =>
      get_eq ((lookup_fixBinds hmem hk).trans (lookup_fixText ht hp))
    have htype := hlookup "type" (by decide) (by decide) (by decide)
    refine ⟨⟨(typeAlias?_congr htype).trans halias, fun c' hc' => ?_⟩, ?_⟩
    · obtain rfl : c = c' := Option.some.inj (hc.symm.trans ((componentOf_congr htype).symm.trans hc'))
      refine ⟨(textProp?_congr (b := fixText c (fixData (fixType t node))) ?_ fun prop hprop => ?_).trans textProp?_fixText,
        refOf_fixBinds c.binds⟩
      · exact has_eq (lookup_fixBinds hmem (by decide))
      · refine get_eq (lookup_fixBinds hmem ?_)
        revert prop
        decide
    · exact (groupAlias?_congr (hlookup "data" (by decide) (by decide) (by decide))).trans groupAlias?_fixData

theorem keeps_fixData : Keeps fixData where
  obj fs := by
    unfold fixData
    split <;> rfl
  repeater fs := by rw [isRepeater, isRepeater, get_fixData (by decide)]
  inner fs := by
    unfold fixData
    split
    · exact .set _ _ (by decide) (by decide)
    · exact .refl _

theorem inner_fixType : Inner node (fixType t node) := by
  unfold fixType
  split
  · next type props h =>
    refine (Inner.set node _ (by decide) (by decide)).trans (.foldl props fun j p hp => ?_)
    have hkind := (typeAlias?_spec h).2.2.2 p hp
    unfold setDefault
    split
    · exact .refl _
    · exact .set _ _ (by rw [hkind]; decide) (by rw [hkind]; decide)
  · exact .refl _

theorem inner_fixText : Inner node (fixText c node) := by
  unfold fixText
  split
  · exact (Inner.pop node _).trans (.set _ _ (by decide) (by decide))
  · exact .refl _

theorem inner_fixBind {prop : String} (hc : prop ≠ "children") (hi : prop ≠ "item") : Inner node (fixBind node prop) := by
  unfold fixBind
  split
  · exact .set _ _ hc hi
  · exact .refl _

theorem isObj_fixType (h : node.isObj) : (fixType t node).isObj := by
  unfold fixType
  split
  · refine isObj_foldl (fun j p hj => ?_) _ rfl
    unfold setDefault
    split
    · exact hj
    · rfl
  · exact h

theorem isObj_fixNode (h : node.isObj) : (fixNode t node).isObj := by
  have hdata : (fixData (fixType t node)).isObj := by
    rw [isObj_eq (isObj_fixType h)]
    exact keeps_fixData.obj _
  unfold fixNode fixProps
  split
  · refine isObj_foldl (fun j prop hj => ?_) _ ?_
    · unfold fixBind
      split
      · rfl
      · exact hj
    · unfold fixText
      split
      · rfl
      · exact hdata
  · exact hdata

theorem get_type_fixNode : (fixNode t node).get "type" = (fixType t node).get "type" := by
  unfold fixNode fixProps
  split
  · next c hc =>
    have hlookup := (lookup_fixBinds (mem_components hc) (k := "type") (by decide)).trans
      (@lookup_fixText (fixData (fixType t node)) _ c (by decide) (by decide))
    rw [get_eq hlookup, get_fixData (by decide)]
  · exact get_fixData (by decide)

/-- A type stays what it is, unless it is an alias of one. -/
theorem type_fixType : (fixType t node).get "type" = node.get "type" ∨
    ∃ type kind, type ≠ "repeater" ∧ (fixType t node).get "type" = .str type ∧ (node.get "type").str? = some kind ∧ component? kind = none := by
  cases h : typeAlias? t node with
  | none => exact .inl (by rw [fixType, h])
  | some a =>
    obtain ⟨⟨kind, hkind, hnone⟩, -, hne, -⟩ := typeAlias?_spec h
    exact .inr ⟨a.1, kind, hne, get_type_fixType h, hkind, hnone⟩

theorem isRepeater_fixNode : isRepeater (fixNode t node) = isRepeater node := by
  rw [isRepeater, isRepeater, get_type_fixNode]
  rcases type_fixType (t := t) with htype | ⟨type, kind, hne, htype, hkind, hnone⟩
  · rw [htype]
  · rw [htype, hkind]
    have hkind' : kind ≠ "repeater" := by
      rintro rfl
      revert hnone
      decide
    simp [Json.str?, hne, hkind']

theorem keeps_fixNode : Keeps (fixNode t) where
  obj fs := isObj_fixNode rfl
  repeater fs := isRepeater_fixNode
  inner fs := by
    unfold fixNode fixProps
    have hdata : Inner (fixType t (.obj fs)) (fixData (fixType t (.obj fs))) := by
      rw [isObj_eq (isObj_fixType (t := t) rfl)]
      exact keeps_fixData.inner _
    split
    · next c hc =>
      refine inner_fixType.trans (hdata.trans (inner_fixText.trans (.foldl c.binds fun j prop hprop => ?_)))
      exact inner_fixBind (Ne.symm (bind_ne (mem_components hc) hprop _ (by decide))) (Ne.symm (bind_ne (mem_components hc) hprop _ (by decide)))
    · exact inner_fixType.trans hdata

theorem hashable_fixNode (h : hashable node) : hashable (fixNode t node) := by
  rw [hashable, get_type_fixNode]
  rcases type_fixType (t := t) with htype | ⟨type, kind, -, htype, -, -⟩
  · rw [htype]
    exact h
  · rw [htype]
    rfl

/-! ### Predicates on a component -/

theorem shallow_ungrouped : Shallow ungrouped := fun a b h => by
  rw [ungrouped, ungrouped, groupAlias?_congr (h.get (by decide) (by decide))]

theorem shallow_hashable : Shallow hashable := fun a b h => by
  rw [hashable, hashable, h.get (by decide) (by decide)]

theorem shallow_true : Shallow fun _ => true := fun _ _ _ => rfl

theorem shallow_settled : Shallow (settled t) := fun a b h => by
  have hprop : ∀ {a b : List (String × Json)}, Alike a b → settled t (.obj a) → settled t (.obj b) := fun {a b} h hs => by
    obtain ⟨halias, hrest⟩ := settled_iff.1 hs
    have htype : (Json.obj a).get "type" = (Json.obj b).get "type" := h.get (by decide) (by decide)
    refine settled_iff.2 ⟨(typeAlias?_congr htype.symm).trans halias, fun c hc => ?_⟩
    have hc' := (componentOf_congr htype).trans hc
    obtain ⟨htext, hbinds⟩ := hrest c hc'
    refine ⟨(textProp?_congr (h.has (by decide) (by decide)).symm fun prop hprop => ?_).trans htext, fun prop hprop => ?_⟩
    · refine (h.get ?_ ?_).symm <;> rintro rfl <;> revert hprop <;> decide
    · rw [← h.get (Ne.symm (bind_ne (mem_components hc') hprop _ (by decide))) (Ne.symm (bind_ne (mem_components hc') hprop _ (by decide))),
        hbinds prop hprop]
  exact Bool.eq_iff_iff.2 ⟨hprop h, hprop fun k hc hi => (h k hc hi).symm⟩

theorem scalarRef_refOf {v : Json} (h : scalarRef v) : refOf v = none := by
  cases v with
  | obj => cases h
  | _ => rfl

theorem settled_of_nodeOk (h : nodeOk node) : settled t node := by
  obtain ⟨hs, h⟩ := (Option.any_eq_true_iff_get _ _).1 h
  obtain ⟨c, hc⟩ := Option.isSome_iff_exists.1 hs
  simp only [hc, Option.get_some] at h
  simp only [Bool.and_eq_true, List.all_eq_true] at h
  obtain ⟨⟨hrequired, hbinds⟩, -⟩ := h
  obtain ⟨kind, hkind, hfind⟩ := Option.bind_eq_some_iff.1 hc
  refine settled_iff.2 ⟨?_, fun c' hc' => ?_⟩
  · rw [typeAlias?, hkind]
    show (if (component? kind).isSome then none else _) = none
    rw [hfind]
    rfl
  · obtain rfl := Option.some.inj (hc.symm.trans hc')
    refine ⟨?_, fun prop hprop => ?_⟩
    · rw [textProp?]
      by_cases htext : c.required.contains "text"
      · rw [hrequired "text" (List.contains_iff_mem.1 htext), Bool.not_true, Bool.and_false]
        rfl
      · rw [Bool.not_eq_true] at htext
        rw [htext, Bool.false_and]
        rfl
    · have hok := hbinds prop hprop
      rw [Bool.or_eq_true, Bool.not_eq_true'] at hok
      rcases hok with hno | hscalar
      · have hnone : node.fields.lookup prop = none := Option.not_isSome_iff_eq_none.1 (Bool.eq_false_iff.1 hno)
        rw [Json.get, hnone]
        rfl
      · exact scalarRef_refOf hscalar

theorem hashable_of_nodeOk (h : nodeOk node) : hashable node := by
  obtain ⟨c, hc⟩ : ∃ c, componentOf node = some c := Option.isSome_iff_exists.1 (by
    cases hc : componentOf node with
    | none => simp [nodeOk, hc] at h
    | some c => rfl)
  obtain ⟨kind, hkind, -⟩ := Option.bind_eq_some_iff.1 hc
  rw [hashable]
  cases hv : node.get "type" with
  | str => rfl
  | _ =>
    rw [hv] at hkind
    cases hkind

end Rules

/-! ## The layouts of a definition -/

section Layouts

variable {d : Json} {f g : Json → Json} {p q : Json → Bool} {t : Texts}

theorem mapScreens_congr {screens : Json} (hfg : ∀ v, p v → f v = g v) (h : eachScreen p screens) :
    mapScreens f screens = mapScreens g screens := by
  cases screens with
  | obj ss =>
    show Json.obj (ss.map _) = Json.obj (ss.map _)
    congr 1
    refine List.map_congr_left fun s hs => ?_
    have hall : ∀ s ∈ ss, !s.2.isObj || eachField s.2 "layout" p := List.all_eq_true.1 h
    have hok := hall s hs
    by_cases hobj : s.2.isObj
    · rw [hobj, Bool.not_true, Bool.false_or] at hok
      rw [if_pos hobj, if_pos hobj, mapField_congr ((eachField_iff.1 hok).imp hfg)]
    · rw [if_neg hobj, if_neg hobj]
  | _ => rfl

theorem mapScreens_eq_self {screens : Json} (hf : ∀ v, p v → f v = v) (h : eachScreen p screens) : mapScreens f screens = screens := by
  rw [mapScreens_congr (g := id) hf h]
  cases screens with
  | obj ss =>
    show Json.obj (ss.map _) = _
    congr 1
    refine (List.map_congr_left fun s _ => ?_).trans (List.map_id _)
    split
    · next hobj => rw [mapField_eq_self hobj fun _ _ _ => rfl]; rfl
    · rfl
  | _ => rfl

theorem eachScreen_mapScreens {screens : Json} (hf : ∀ v, p v → q (f v)) (h : eachScreen p screens) :
    eachScreen q (mapScreens f screens) := by
  cases screens with
  | obj ss =>
    refine List.all_eq_true.2 fun s hs => ?_
    obtain ⟨s', hs', rfl⟩ := List.mem_map.1 hs
    have hall : ∀ s ∈ ss, !s.2.isObj || eachField s.2 "layout" p := List.all_eq_true.1 h
    have hok := hall s' hs'
    by_cases hobj : s'.2.isObj
    · rw [hobj, Bool.not_true, Bool.false_or] at hok
      rw [if_pos hobj, Bool.or_eq_true]
      exact .inr (eachField_iff.2 ((eachField_iff.1 hok).mapField hf))
    · rw [if_neg hobj, Bool.eq_false_iff.2 hobj]
      rfl
  | _ => rfl

theorem eachLayout_iff : eachLayout d p ↔ Each d "layout" (p · = true) ∧ Each d "screens" (eachScreen p · = true) := by
  rw [eachLayout, Bool.and_eq_true, eachField_iff, eachField_iff]

theorem mapLayouts_congr (hfg : ∀ v, p v → f v = g v) (h : eachLayout d p) : mapLayouts d f = mapLayouts d g := by
  obtain ⟨hlayout, hscreens⟩ := eachLayout_iff.1 h
  rw [mapLayouts, mapLayouts, mapField_congr (hlayout.imp hfg)]
  exact mapField_congr ((each_mapField (by decide)).2 (hscreens.imp fun _ hv => mapScreens_congr hfg hv))

theorem mapLayouts_eq_self (hd : d.isObj) (hf : ∀ v, p v → f v = v) (h : eachLayout d p) : mapLayouts d f = d := by
  obtain ⟨hlayout, hscreens⟩ := eachLayout_iff.1 h
  rw [mapLayouts, mapField_eq_self hd (hlayout.imp hf), mapField_eq_self hd (hscreens.imp fun _ hv => mapScreens_eq_self hf hv)]

theorem eachLayout_mapLayouts (hf : ∀ v, p v → q (f v)) (h : eachLayout d p) : eachLayout (mapLayouts d f) q := by
  obtain ⟨hlayout, hscreens⟩ := eachLayout_iff.1 h
  refine eachLayout_iff.2 ⟨(each_mapField (by decide)).2 (hlayout.mapField hf), ?_⟩
  exact ((each_mapField (by decide)).2 hscreens).mapField fun _ hv => eachScreen_mapScreens hf hv

theorem eachLayout_true : eachLayout d (everyNode fun _ => true) := by
  refine eachLayout_iff.2 ⟨fun e _ _ => everyNode_true e.2, fun e _ _ => ?_⟩
  cases e.2 with
  | obj ss =>
    refine List.all_eq_true.2 fun s _ => ?_
    rw [Bool.or_eq_true]
    exact .inr (eachField_iff.2 fun e _ _ => everyNode_true e.2)
  | _ => rfl

theorem lookup_mapLayouts {k : String} (hl : k ≠ "layout") (hs : k ≠ "screens") :
    (mapLayouts d f).fields.lookup k = d.fields.lookup k := by
  rw [mapLayouts, lookup_mapField, if_neg hs, lookup_mapField, if_neg hl]

theorem each_mapLayouts {k : String} {P : Json → Prop} (hl : k ≠ "layout") (hs : k ≠ "screens") :
    Each (mapLayouts d f) k P ↔ Each d k P := (each_mapField hs).trans (each_mapField hl)

/-! ## The other fields -/

theorem lookup_withState {k : String} (h : k ≠ "state") : (withState d).fields.lookup k = d.fields.lookup k := by
  unfold withState
  split
  · rfl
  · rw [lookup_set, if_neg h]

theorem has_withState : (withState d).has "state" := by
  unfold withState
  split
  · assumption
  · exact has_set_self

theorem withState_of_has (h : d.has "state") : withState d = d := if_pos h

theorem withState_withState : withState (withState d) = withState d := withState_of_has has_withState

theorem each_withState {k : String} {P : Json → Prop} (h : k ≠ "state") : Each (withState d) k P ↔ Each d k P := by
  unfold withState
  split
  · rfl
  · exact each_set h

theorem isObj_withState (h : d.isObj) : (withState d).isObj := by
  unfold withState
  split
  · exact h
  · rfl

theorem hasLists_congr {d' : Json} (h : d.get "lists" = d'.get "lists") : hasLists d = hasLists d' := by
  rw [hasLists, hasLists, h]

theorem movable_congr {d' : Json} (hlists : d.get "lists" = d'.get "lists") (hstate : (withState d).get "state" = (withState d').get "state") :
    movable d = movable d' := by
  rw [movable, movable, hlists, hstate]

def ListsQuiet (d : Json) : Prop := hasLists d → d.has "state" ∧ movable d = false

theorem ListsQuiet.congr {d' : Json} (h : ListsQuiet d) (hlists : d'.fields.lookup "lists" = d.fields.lookup "lists")
    (hstate : d'.fields.lookup "state" = d.fields.lookup "state") : ListsQuiet d' := by
  intro hhas
  obtain ⟨hs, hm⟩ := h (by rwa [hasLists_congr (get_eq hlists).symm])
  have hs' : d'.has "state" := (has_eq hstate).trans hs
  refine ⟨hs', (movable_congr (get_eq hlists) ?_).trans hm⟩
  rw [withState_of_has hs, withState_of_has hs', get_eq hstate]

theorem ListsQuiet.eq (h : ListsQuiet d) : moveLists d = d := by
  unfold moveLists
  split
  · next hhas =>
    obtain ⟨hs, hm⟩ := h hhas
    rw [if_neg (by rw [hm]; decide), withState_of_has hs]
  · rfl

theorem listsQuiet_moveLists : ListsQuiet (moveLists d) := by
  unfold moveLists
  split
  · next hhas =>
    show ListsQuiet (if movable d then _ else _)
    split
    · intro hhas'
      rw [hasLists, Json.get, lookup_pop, if_pos rfl] at hhas'
      cases hhas'
    · next hm =>
      refine fun _ => ⟨has_withState, ?_⟩
      rw [movable_congr (get_eq (lookup_withState (by decide))) (by rw [withState_withState]), Bool.eq_false_iff]
      exact hm
  · next hno => exact fun hhas => absurd hhas hno

theorem lookup_moveLists {k : String} (hs : k ≠ "state") (hl : k ≠ "lists") : (moveLists d).fields.lookup k = d.fields.lookup k := by
  unfold moveLists
  split
  · show (if movable d then _ else _ : Json).fields.lookup k = _
    split
    · rw [lookup_pop, if_neg hl, lookup_set, if_neg hs, lookup_withState hs]
    · exact lookup_withState hs
  · rfl

theorem each_moveLists {k : String} {P : Json → Prop} (hs : k ≠ "state") (h : Each d k P) : Each (moveLists d) k P := by
  unfold moveLists
  split
  · show Each (if movable d then _ else _) k P
    split
    · exact Each.pop ((each_set hs).2 ((each_withState hs).2 h))
    · exact (each_withState hs).2 h
  · exact h

theorem isObj_moveLists (h : d.isObj) : (moveLists d).isObj := by
  unfold moveLists
  split
  · show (if movable d then _ else _ : Json).isObj
    split
    · rfl
    · exact isObj_withState h
  · exact h

theorem wrapExpr_wrapExpr (v : Json) : wrapExpr (wrapExpr v) = wrapExpr v := by
  cases v with
  | str s =>
    by_cases hs : strip s ≠ ""
    · simp [wrapExpr, hs]
    · simp [wrapExpr, hs]
  | _ => rfl

theorem wrapComputed_wrapComputed (v : Json) : wrapComputed (wrapComputed v) = wrapComputed v := by
  cases v with
  | obj cs => simp [wrapComputed, wrapExpr_wrapExpr]
  | _ => rfl

theorem dropAt_dropAt (w : Json) : dropAt (dropAt w) = dropAt w := by
  by_cases h : w.isObj && (w.get "trigger").str? = some "schedule" && !(w.get "at").isNull && !(w.get "everyMinutes").isNull
  · rw [dropAt, dropAt, if_pos h, if_neg]
    have hat : (pop w "at").get "at" = .null := by
      rw [Json.get, lookup_pop, if_pos rfl]
      rfl
    simp [hat, Json.isNull]
  · rw [dropAt, dropAt, if_neg h, if_neg h]

theorem fixWatches_fixWatches (v : Json) : fixWatches (fixWatches v) = fixWatches v := by
  cases v with
  | arr ws => simp [fixWatches, dropAt_dropAt]
  | _ => rfl

end Layouts

/-! ## Repairing twice -/

section Twice

variable {t : Texts} {d r : Json}

def CatalogQuiet (t : Texts) (v : Json) : Prop := v.isNull = false ∧ ∀ s, v = .str s → t.isdigit (strip s) = false

theorem CatalogQuiet.eq (h : CatalogQuiet t (d.get "catalog")) : fixCatalog t d = some d := by
  unfold fixCatalog
  split
  · next hnull =>
    rw [hnull] at h
    cases h.1
  · next s hs => rw [h.2 s hs, if_neg Bool.false_ne_true]
  · rfl

theorem catalogQuiet_fixCatalog (h : fixCatalog t d = some r) : CatalogQuiet t (r.get "catalog") := by
  unfold fixCatalog at h
  split at h
  · cases h
    rw [Json.get_set_self]
    exact ⟨rfl, nofun⟩
  · next s hs =>
    split at h
    · obtain ⟨n, -, rfl⟩ := Option.map_eq_some_iff.1 h
      rw [Json.get_set_self]
      exact ⟨rfl, nofun⟩
    · next hno =>
      cases h
      rw [hs]
      refine ⟨rfl, fun s' hs' => ?_⟩
      cases hs'
      exact Bool.eq_false_iff.2 hno
  · next hnull hstr =>
    cases h
    refine ⟨?_, fun s hs => absurd hs (hstr s)⟩
    cases hv : d.get "catalog" with
    | null => exact absurd hv hnull
    | _ => rfl

structure TopQuiet (d : Json) : Prop where
  obj : d.isObj
  layout : Each d "layout" fun v => v.isObj = false
  lists : ListsQuiet d
  computed : Each d "computed" fun v => wrapComputed v = v
  watches : Each d "watches" fun v => fixWatches v = v

theorem wrapLayout_of {v : Json} (h : v.isObj = false) : wrapLayout v = v := if_neg (by rw [h]; decide)

theorem TopQuiet.eq (h : TopQuiet d) : fixTop d = d := by
  rw [fixTop, mapField_eq_self h.obj (h.layout.imp fun _ hv => wrapLayout_of hv), h.lists.eq, mapField_eq_self h.obj h.computed,
    mapField_eq_self h.obj h.watches]

theorem topQuiet_fixTop : TopQuiet (fixTop d) where
  obj := rfl
  layout := by
    refine (each_mapField (by decide)).2 ((each_mapField (by decide)).2 (each_moveLists (by decide) ?_))
    refine Each.mapField (P := fun _ => True) (fun _ _ _ => trivial) fun v _ => ?_
    unfold wrapLayout
    split
    · rfl
    · next hno => exact Bool.eq_false_iff.2 hno
  lists := by
    refine (listsQuiet_moveLists (d := mapField d "layout" wrapLayout)).congr ?_ ?_ <;>
      exact (lookup_mapField.trans (if_neg (by decide))).trans (lookup_mapField.trans (if_neg (by decide)))
  computed := (each_mapField (by decide)).2
    (Each.mapField (P := fun _ => True) (fun _ _ _ => trivial) fun v _ => wrapComputed_wrapComputed v)
  watches := Each.mapField (P := fun _ => True) (fun _ _ _ => trivial) fun v _ => fixWatches_fixWatches v

/-- The rewriting of the layouts leaves the rest as it is. -/
theorem TopQuiet.mapLayouts {f : Json → Json} (hf : ∀ v, (f v).isObj = v.isObj) (h : TopQuiet d) : TopQuiet (mapLayouts d f) where
  obj := rfl
  layout := (each_mapField (by decide)).2 (h.layout.mapField fun v hv => (hf v).trans hv)
  lists := h.lists.congr (lookup_mapLayouts (by decide) (by decide)) (lookup_mapLayouts (by decide) (by decide))
  computed := (each_mapLayouts (by decide) (by decide)).2 h.computed
  watches := (each_mapLayouts (by decide) (by decide)).2 h.watches

def quiet (t : Texts) (node : Json) : Bool := settled t node && ungrouped node

theorem shallow_quiet : Shallow (quiet t) := fun a b h => by
  rw [quiet, quiet, shallow_settled a b h, shallow_ungrouped a b h]

theorem everyNode_fix (v : Json) : everyNode (quiet t) (fix t v) :=
  everyNode_walk keeps_fixNode shallow_true (fun _ _ => by
    rw [quiet, Bool.and_eq_true]
    exact settled_fixNode) v (everyNode_true v)

theorem fix_of_quiet {v : Json} (h : everyNode (quiet t) v) : fix t v = v :=
  walk_eq_self shallow_quiet (fun _ hq => by
    rw [quiet, Bool.and_eq_true] at hq
    rw [fixNode_of_settled hq.1, fixData_of_ungrouped hq.2]) h

theorem get_catalog_fixTop : (fixTop d).get "catalog" = d.get "catalog" := by
  rw [fixTop, get_mapField (by decide), get_mapField (by decide), get_eq (lookup_moveLists (by decide) (by decide)), get_mapField (by decide)]

/-- Repairing twice is repairing once. -/
theorem repair_repair (h : repair t d = some r) : repair t r = some r := by
  unfold repair at h
  split at h
  · next hobj =>
    obtain ⟨d₁, hd₁, h⟩ := Option.bind_eq_some_iff.1 h
    split at h
    · next hhash =>
      cases h
      have htop : TopQuiet (mapLayouts (fixTop d₁) (fix t)) := topQuiet_fixTop.mapLayouts (isObj_walk keeps_fixNode.obj)
      have hcatalog : fixCatalog t (mapLayouts (fixTop d₁) (fix t)) = some (mapLayouts (fixTop d₁) (fix t)) := by
        refine CatalogQuiet.eq ?_
        rw [get_eq (lookup_mapLayouts (by decide) (by decide)), get_catalog_fixTop]
        exact catalogQuiet_fixCatalog hd₁
      have hhash' : eachLayout (mapLayouts (fixTop d₁) (fix t)) (everyNode hashable) :=
        eachLayout_mapLayouts (fun v => everyNode_walk keeps_fixNode shallow_hashable (fun _ => hashable_fixNode) v) hhash
      have hlayouts : mapLayouts (mapLayouts (fixTop d₁) (fix t)) (fix t) = mapLayouts (fixTop d₁) (fix t) :=
        mapLayouts_eq_self rfl (fun _ => fix_of_quiet) (eachLayout_mapLayouts (fun v _ => everyNode_fix v) eachLayout_true)
      rw [repair, if_pos htop.obj, hcatalog, Option.bind_some, htop.eq, if_pos hhash', hlayouts]
    · cases h
  · next hobj =>
    cases h
    exact if_neg hobj

end Twice

/-! ## Accepted definitions -/

section Accepted

variable {t : Texts} {d : Json} {p : Json → Bool}

theorem everyNode_of_layout (hempty : p (.obj [])) (hok : ∀ fs, nodeOk (.obj fs) → p (.obj fs)) {v : Json} (h : validLayout v) :
    everyNode p v := by
  cases v with
  | arr l =>
    rw [validLayout, Bool.and_eq_true] at h
    rw [everyNode]
    exact everyAll_of_valid hempty hok l h.2
  | _ => cases h

theorem eachScreen_of_valid (hempty : p (.obj [])) (hok : ∀ fs, nodeOk (.obj fs) → p (.obj fs)) {v : Json} (h : validScreens v) :
    eachScreen (everyNode p) v := by
  cases v with
  | obj ss =>
    refine List.all_eq_true.2 fun s hs => ?_
    have hall := List.all_eq_true.1 h s hs
    simp only [Bool.and_eq_true] at hall
    rw [Bool.or_eq_true]
    exact .inr (eachField_iff.2 ((eachField_iff.1 hall.2).imp fun _ => everyNode_of_layout hempty hok))
  | _ => rfl

/-- What the validator has checked of an accepted definition. -/
structure Accepted (d : Json) : Prop where
  obj : d.isObj
  catalog : ∃ q, d.get "catalog" = .num q
  layout : Each d "layout" (validLayout · = true)
  screens : Each d "screens" (validScreens · = true)
  computed : Each d "computed" (validComputed · = true)
  watches : Each d "watches" (validWatches · = true)

theorem accepted_of (h : accepts d) : Accepted d := by
  simp only [accepts, Bool.and_eq_true] at h
  obtain ⟨⟨⟨⟨⟨⟨hobj, hcatalog⟩, -⟩, hlayout⟩, hscreens⟩, hcomputed⟩, hwatches⟩ := h
  refine ⟨hobj, ?_, eachField_iff.1 hlayout, eachField_iff.1 hscreens, eachField_iff.1 hcomputed, eachField_iff.1 hwatches⟩
  cases hv : d.get "catalog" with
  | num q => exact ⟨q, rfl⟩
  | _ =>
    rw [hv] at hcatalog
    cases hcatalog

theorem Accepted.eachLayout (h : Accepted d) (hempty : p (.obj [])) (hok : ∀ fs, nodeOk (.obj fs) → p (.obj fs)) :
    eachLayout d (everyNode p) :=
  eachLayout_iff.2 ⟨h.layout.imp fun _ => everyNode_of_layout hempty hok, h.screens.imp fun _ => eachScreen_of_valid hempty hok⟩

theorem eachLayout_moveLists (h : eachLayout d p) : eachLayout (moveLists d) p := by
  obtain ⟨hlayout, hscreens⟩ := eachLayout_iff.1 h
  exact eachLayout_iff.2 ⟨each_moveLists (by decide) hlayout, each_moveLists (by decide) hscreens⟩

/-- Of an accepted definition the lists are moved, and the data is rewritten; the rest stays as it is. -/
theorem Accepted.repair_eq (h : Accepted d) : repair t d = some (mapLayouts (moveLists d) (walk fixData)) := by
  have hcatalog : fixCatalog t d = some d := by
    obtain ⟨q, hq⟩ := h.catalog
    refine CatalogQuiet.eq ?_
    rw [hq]
    exact ⟨rfl, nofun⟩
  have hlayout : mapField d "layout" wrapLayout = d := mapField_eq_self h.obj (h.layout.imp fun v hv => by
    cases v with
    | arr => rfl
    | _ => cases hv)
  have hcomputed : Each d "computed" fun v => wrapComputed v = v := h.computed.imp fun v hv => by
    cases v with
    | obj cs =>
      have hall : ∀ f ∈ cs, f.2.isObj := List.all_eq_true.1 hv
      show Json.obj (cs.map _) = _
      congr 1
      refine (List.map_congr_left fun f hf => ?_).trans (List.map_id _)
      obtain ⟨n, x⟩ := f
      cases x with
      | obj => rfl
      | _ => cases hall _ hf
    | _ => cases hv
  have hwatches : Each d "watches" fun v => fixWatches v = v := h.watches.imp fun v hv => by
    cases v with
    | arr ws =>
      have hall := List.all_eq_true.1 hv
      show Json.arr (ws.map _) = _
      congr 1
      refine (List.map_congr_left fun w hw => ?_).trans (List.map_id _)
      refine if_neg fun hat => ?_
      have hok := hall w hw
      simp only [Bool.and_eq_true, Bool.or_eq_true, decide_eq_true_eq, Bool.not_eq_true'] at hat hok
      obtain ⟨⟨⟨-, htrigger⟩, hat⟩, hevery⟩ := hat
      rcases hok.2 with (hno | hno) | hno
      · exact hno htrigger
      · rw [hat] at hno
        cases hno
      · rw [hevery] at hno
        cases hno
    | _ => rfl
  have htop : fixTop d = moveLists d := by
    rw [fixTop, hlayout, mapField_eq_self (isObj_moveLists h.obj) (each_moveLists (by decide) hcomputed),
      mapField_eq_self (isObj_moveLists h.obj) (each_moveLists (by decide) hwatches)]
  rw [repair, if_pos h.obj, hcatalog, Option.bind_some, htop,
    if_pos (eachLayout_moveLists (h.eachLayout rfl fun _ => hashable_of_nodeOk))]
  congr 1
  refine mapLayouts_congr (p := everyNode (settled t)) (fun v => walk_congr shallow_settled (fun _ => fixNode_of_settled) v)
    (eachLayout_moveLists (h.eachLayout (settled_iff.2 ⟨rfl, nofun⟩) fun _ => settled_of_nodeOk))

/-- There are no lists to move, and no data with its grouping under an alias. -/
def clear (d : Json) : Bool := !(hasLists d && movable d) && eachLayout d (everyNode ungrouped)

/-- Repairing twice is repairing once, and an accepted definition is accepted after it and the same, but for a state
that is there. -/
structure Lossless (t : Texts) (d : Json) : Prop where
  idempotent : ∀ r, repair t d = some r → repair t r = some r
  same : accepts d → ∃ r, repair t d = some r ∧ accepts r ∧ withState r = withState d

theorem eachLayout_withState : eachLayout (withState d) p ↔ eachLayout d p := by
  rw [eachLayout_iff, eachLayout_iff, each_withState (by decide), each_withState (by decide)]

theorem accepts_withState (h : accepts d) : accepts (withState d) := by
  simp only [accepts, Bool.and_eq_true, eachField_iff] at h ⊢
  obtain ⟨⟨⟨⟨⟨⟨hobj, hcatalog⟩, hhas⟩, hlayout⟩, hscreens⟩, hcomputed⟩, hwatches⟩ := h
  refine ⟨⟨⟨⟨⟨⟨isObj_withState hobj, ?_⟩, ?_⟩, (each_withState (by decide)).2 hlayout⟩, (each_withState (by decide)).2 hscreens⟩,
    (each_withState (by decide)).2 hcomputed⟩, (each_withState (by decide)).2 hwatches⟩
  · rwa [get_eq (lookup_withState (by decide))]
  · rwa [has_eq (lookup_withState (by decide))]

/-- A repair is lossless just where it has no lists to move and no grouping to rename in a definition that is accepted. -/
theorem lossless_iff : Lossless t d ↔ (accepts d → clear d) := by
  constructor
  · intro h haccepts
    obtain ⟨r, hr, -, hsame⟩ := h.same haccepts
    rw [(accepted_of haccepts).repair_eq] at hr
    cases hr
    rw [clear, Bool.and_eq_true]
    refine ⟨?_, ?_⟩
    · by_contra hmove
      rw [Bool.not_eq_true', Bool.not_eq_false, Bool.and_eq_true] at hmove
      -- the moved lists are gone
      have hlists := congrArg (Json.get · "lists") hsame
      have hgone : (moveLists d).get "lists" = .null := by
        rw [moveLists, if_pos hmove.1]
        show (if movable d then _ else _ : Json).get "lists" = _
        rw [if_pos hmove.2, Json.get, lookup_pop, if_pos rfl]
        rfl
      change (withState _).get "lists" = (withState d).get "lists" at hlists
      rw [get_eq (lookup_withState (by decide)), get_eq (lookup_withState (by decide)), get_eq (lookup_mapLayouts (by decide) (by decide)),
        hgone] at hlists
      have hhas := hmove.1
      rw [hasLists, ← hlists] at hhas
      cases hhas
    · refine eachLayout_withState.1 ?_
      rw [← hsame]
      exact eachLayout_withState.2 (eachLayout_mapLayouts
        (fun v => everyNode_walk keeps_fixData shallow_true (fun _ _ => ungrouped_iff.2 groupAlias?_fixData) v) eachLayout_true)
  · intro h
    refine ⟨fun r => repair_repair, fun haccepts => ?_⟩
    have hclear := h haccepts
    rw [clear, Bool.and_eq_true, Bool.not_eq_true', Bool.and_eq_false_iff] at hclear
    obtain ⟨hlists, hgroup⟩ := hclear
    have hd := accepted_of haccepts
    have hrepair := hd.repair_eq (t := t)
    rw [mapLayouts_eq_self (isObj_moveLists hd.obj) (fun v => walk_eq_self shallow_ungrouped fun _ => fixData_of_ungrouped)
      (eachLayout_moveLists hgroup)] at hrepair
    have hmove : moveLists d = d ∨ moveLists d = withState d := by
      unfold moveLists
      split
      · next hhas =>
        have hstay : ¬ movable d := fun hm => by simp [hhas, hm] at hlists
        exact .inr (if_neg hstay)
      · exact .inl rfl
    rcases hmove with heq | heq <;> rw [heq] at hrepair
    · exact ⟨_, hrepair, haccepts, rfl⟩
    · exact ⟨_, hrepair, accepts_withState haccepts, withState_withState⟩

end Accepted

namespace Sample

/-- Python's `int` and `isdigit`, of the digits that both know. -/
def texts : Texts where
  lower s := s.map Char.toLower
  isdigit s := s ≠ "" && s.toList.all Char.isDigit
  int s := (Flowly.Lib.Text.ofDecimals s.toList).map Int.ofNat

/-- A line of what is drunk a day; the validator passes over `groupBy`. -/
def water : Json := .obj [
  ("catalog", .num 3),
  ("name", .str "Water"),
  ("series", .obj [("water", .obj [])]),
  ("layout", .arr [.obj [
    ("type", .str "sparkline"),
    ("id", .str "line"),
    ("data", .obj [("series", .str "water"), ("groupBy", .str "category")])]])]

/-- Its repair asks a line for slices, which the validator rejects. -/
theorem line_rejected : ¬ ∀ d, accepts d → ∃ r, repair texts d = some r ∧ accepts r := by
  intro h
  obtain ⟨r, hr, haccepts⟩ := h water (by decide)
  rw [(accepted_of (d := water) (by decide)).repair_eq] at hr
  cases hr
  revert haccepts
  decide

end Sample

end Flowly.Flowlets.Repair
