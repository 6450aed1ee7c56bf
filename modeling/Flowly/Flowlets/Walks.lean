/-
  Flowly.Flowlets.Walks — the walk over the components of a definition: what a rule does to
  each of them, and what is true of each of them.

  A rule that keeps what is in a component makes true of every component what it makes true of
  one (`everyNode_walk`), and changes nothing where it has nothing to do (`walk_eq_self`). What
  the validator asks of a component is true of each that the walk comes to
  (`everyNode_of_valid`).
-/

import Flowly.Flowlets.Repair

namespace Flowly.Flowlets.Repair

/-! ## Fields -/

section Fields

variable {j v : Json} {k k' : String} {f : Json → Json}

theorem lookup_set : (j.set k v).fields.lookup k' = if k' = k then some v else j.fields.lookup k' := Json.lookup_setField ..

theorem has_set_self : (j.set k v).has k = true := by
  rw [Json.has, lookup_set, if_pos rfl]
  rfl

theorem lookup_pop : (pop j k).fields.lookup k' = if k' = k then none else j.fields.lookup k' := by
  show (j.fields.filter (·.1 ≠ k)).lookup k' = _
  induction j.fields with
  | nil => simp
  | cons e fs ih =>
    obtain ⟨n, x⟩ := e
    by_cases hn : n = k
    · subst hn
      rw [List.filter_cons_of_neg (by simp), ih]
      by_cases hk : k' = n
      · rw [if_pos hk, if_pos hk]
      · rw [if_neg hk, if_neg hk, List.lookup_cons, beq_false_of_ne hk]
    · rw [List.filter_cons_of_pos (by simpa using hn), List.lookup_cons, List.lookup_cons, ih]
      by_cases hk : k' = n
      · simp [hk, hn]
      · rw [beq_false_of_ne hk]

theorem lookup_mapField : (mapField j k f).fields.lookup k' = if k' = k then (j.fields.lookup k').map f else j.fields.lookup k' := by
  show (j.fields.map fun e => if e.1 = k then (k, f e.2) else e).lookup k' = _
  induction j.fields with
  | nil => simp
  | cons e fs ih =>
    obtain ⟨n, x⟩ := e
    rw [List.map_cons, List.lookup_cons]
    by_cases hn : n = k
    · rw [if_pos hn, List.lookup_cons, ih, hn]
      by_cases hk : k' = k
      · simp [hk]
      · rw [beq_false_of_ne hk]
    · rw [if_neg hn, List.lookup_cons, ih]
      by_cases hk : k' = n
      · simp [hk, hn]
      · rw [beq_false_of_ne hk]

theorem get_mapField (h : k' ≠ k) : (mapField j k f).get k' = j.get k' := by
  rw [Json.get, Json.get, lookup_mapField, if_neg h]

theorem isObj_eq {j : Json} (h : j.isObj) : j = .obj j.fields := by
  cases j with
  | obj => rfl
  | _ => cases h

def Each (j : Json) (k : String) (P : Json → Prop) : Prop := ∀ e ∈ j.fields, e.1 = k → P e.2

theorem eachField_iff {p : Json → Bool} : eachField j k p ↔ Each j k (p · = true) := by
  rw [eachField, List.all_eq_true]
  refine forall₂_congr fun e _ => ?_
  rw [Bool.or_eq_true, decide_eq_true_eq]
  exact ⟨fun h hk => h.resolve_left (not_not_intro hk), fun h => or_iff_not_imp_left.2 fun hk => h (not_not.1 hk)⟩

section Each

variable {P Q : Json → Prop}

theorem Each.imp (h : Each j k P) (hpq : ∀ v, P v → Q v) : Each j k Q := fun e he hk => hpq _ (h e he hk)

theorem each_set (h : k' ≠ k) : Each (j.set k v) k' P ↔ Each j k' P := by
  show (∀ e ∈ Json.setField j.fields k v, e.1 = k' → P e.2) ↔ _
  unfold Json.setField
  split
  · constructor
    · intro hall e he hk
      exact hall e (List.mem_map.2 ⟨e, he, if_neg fun heq => h (hk.symm.trans heq)⟩) hk
    · rintro hall _ hmem hk
      obtain ⟨e, he, rfl⟩ := List.mem_map.1 hmem
      split at hk
      · exact absurd hk.symm h
      · next hne =>
        rw [if_neg hne]
        exact hall e he hk
  · constructor
    · exact fun hall e he hk => hall e (List.mem_append_left _ he) hk
    · intro hall e he hk
      rcases List.mem_append.1 he with he | he
      · exact hall e he hk
      · rw [List.mem_singleton.1 he] at hk
        exact absurd hk.symm h

theorem Each.pop (h : Each j k' P) : Each (pop j k) k' P := fun e he hk => h e (List.mem_of_mem_filter he) hk

theorem each_mapField (h : k' ≠ k) : Each (mapField j k f) k' P ↔ Each j k' P := by
  constructor
  · intro hall e he hk
    exact hall e (List.mem_map.2 ⟨e, he, if_neg fun heq => h (hk.symm.trans heq)⟩) hk
  · rintro hall _ hmem hk
    obtain ⟨e, he, rfl⟩ := List.mem_map.1 hmem
    split at hk
    · exact absurd hk.symm h
    · next hne =>
      rw [if_neg hne]
      exact hall e he hk

theorem Each.mapField (h : Each j k P) (hf : ∀ v, P v → Q (f v)) : Each (mapField j k f) k Q := by
  intro _ hmem hk
  obtain ⟨e, he, rfl⟩ := List.mem_map.1 hmem
  split at hk
  · next heq =>
    rw [if_pos heq]
    exact hf _ (h e he heq)
  · next hne => exact absurd hk hne

end Each

/-- A function that changes none of the fields with a name changes nothing. -/
theorem mapField_eq_self (hj : j.isObj) (h : Each j k fun v => f v = v) : mapField j k f = j := by
  rw [isObj_eq hj]
  show Json.obj (j.fields.map _) = _
  congr 1
  refine (List.map_congr_left fun e he => ?_).trans (List.map_id _)
  split
  · next hk =>
    obtain ⟨n, x⟩ := e
    rw [h _ he hk, ← hk]
    rfl
  · rfl

theorem mapField_congr {g : Json → Json} (h : Each j k fun v => f v = g v) : mapField j k f = mapField j k g := by
  show Json.obj (j.fields.map _) = Json.obj (j.fields.map _)
  congr 1
  refine List.map_congr_left fun e he => ?_
  split
  · next hk => rw [h e he hk]
  · rfl

end Fields

/-! ## The walk -/

section Walk

variable {rule rule' : Json → Json} {p q : Json → Bool}

def Alike (a b : List (String × Json)) : Prop := ∀ k, k ≠ "children" → k ≠ "item" → a.lookup k = b.lookup k

def Shallow (p : Json → Bool) : Prop := ∀ a b, Alike a b → p (.obj a) = p (.obj b)

def Inner (a b : Json) : Prop := ∀ e ∈ b.fields, e ∈ a.fields ∨ (e.1 ≠ "children" ∧ e.1 ≠ "item")

/-- A rule that keeps what is in a component. -/
structure Keeps (rule : Json → Json) : Prop where
  obj : ∀ fs, (rule (.obj fs)).isObj
  repeater : ∀ fs, isRepeater (rule (.obj fs)) = isRepeater (.obj fs)
  inner : ∀ fs, Inner (.obj fs) (rule (.obj fs))

theorem walkFields_alike (repeater : Bool) (fs : List (String × Json)) : Alike (walkFields rule repeater fs) fs := by
  intro k hc hi
  induction fs with
  | nil => rw [walkFields]
  | cons e fs ih =>
    obtain ⟨n, v⟩ := e
    rw [walkFields, List.lookup_cons, List.lookup_cons, ih]
    by_cases hk : k = n
    · subst hk
      rw [if_neg (by simp [hc, hi])]
    · rw [beq_false_of_ne hk]

theorem Alike.get {a b : List (String × Json)} (h : Alike a b) {k : String} (hc : k ≠ "children") (hi : k ≠ "item") :
    (Json.obj a).get k = (Json.obj b).get k := congrArg (·.getD .null) (h k hc hi)

theorem Alike.has {a b : List (String × Json)} (h : Alike a b) {k : String} (hc : k ≠ "children") (hi : k ≠ "item") :
    (Json.obj a).has k = (Json.obj b).has k := congrArg Option.isSome (h k hc hi)

theorem isRepeater_alike {a b : List (String × Json)} (h : Alike a b) : isRepeater (.obj a) = isRepeater (.obj b) := by
  rw [isRepeater, isRepeater, h.get (by decide) (by decide)]

theorem everyField_iff {repeater : Bool} {fs : List (String × Json)} : everyField p repeater fs ↔
    ∀ e ∈ fs, e.1 = "children" ∨ (e.1 = "item" ∧ repeater ∧ e.2.isObj) → everyNode p e.2 := by
  induction fs with
  | nil => simp [everyField]
  | cons e fs ih =>
    obtain ⟨k, v⟩ := e
    rw [everyField, Bool.and_eq_true, List.forall_mem_cons, ih]
    refine and_congr ?_ Iff.rfl
    split
    · next h => exact ⟨fun hv _ => hv, fun hv => hv h⟩
    · next h => exact ⟨fun _ h' => absurd h' h, fun _ => rfl⟩

theorem isObj_walk (hrule : ∀ fs, (rule (.obj fs)).isObj) (j : Json) : (walk rule j).isObj = j.isObj := by
  cases j with
  | obj fs => rw [walk, hrule]; rfl
  | _ => rfl

mutual

/-- Where two rules do the same at each component, so do their walks. -/
theorem walk_congr (hp : Shallow p) (hrule : ∀ fs, p (.obj fs) → rule (.obj fs) = rule' (.obj fs)) (j : Json)
    (h : everyNode p j) : walk rule j = walk rule' j := by
  match j with
  | .arr l =>
    rw [everyNode] at h
    rw [walk, walk, walkAll_congr hp hrule l h]
  | .obj fs =>
    rw [everyNode, Bool.and_eq_true] at h
    rw [walk, walk, walkFields_congr hp hrule _ fs h.2]
    exact hrule _ ((hp _ _ (walkFields_alike _ _)).trans h.1)
  | .null | .bool _ | .num _ | .str _ => rfl

theorem walkAll_congr (hp : Shallow p) (hrule : ∀ fs, p (.obj fs) → rule (.obj fs) = rule' (.obj fs)) (l : List Json)
    (h : everyAll p l) : walkAll rule l = walkAll rule' l := by
  match l with
  | [] => rw [walkAll, walkAll]
  | j :: l =>
    rw [everyAll, Bool.and_eq_true] at h
    rw [walkAll, walkAll, walk_congr hp hrule j h.1, walkAll_congr hp hrule l h.2]

theorem walkFields_congr (hp : Shallow p) (hrule : ∀ fs, p (.obj fs) → rule (.obj fs) = rule' (.obj fs)) (repeater : Bool)
    (fs : List (String × Json)) (h : everyField p repeater fs) : walkFields rule repeater fs = walkFields rule' repeater fs := by
  match fs with
  | [] => rw [walkFields, walkFields]
  | (k, v) :: fs =>
    rw [everyField, Bool.and_eq_true] at h
    rw [walkFields, walkFields, walkFields_congr hp hrule repeater fs h.2]
    congr 2
    split
    · next hk =>
      rw [if_pos hk] at h
      exact walk_congr hp hrule v h.1
    · rfl

end

mutual

theorem walk_id (j : Json) : walk id j = j := by
  match j with
  | .arr l => rw [walk, walkAll_id]
  | .obj fs => rw [walk, walkFields_id, id]
  | .null | .bool _ | .num _ | .str _ => rfl

theorem walkAll_id (l : List Json) : walkAll id l = l := by
  match l with
  | [] => rw [walkAll]
  | j :: l => rw [walkAll, walk_id, walkAll_id]

theorem walkFields_id (repeater : Bool) (fs : List (String × Json)) : walkFields id repeater fs = fs := by
  match fs with
  | [] => rw [walkFields]
  | (k, v) :: fs => rw [walkFields, walkFields_id, walk_id, ite_self]

end

/-- A rule that has nothing to do at any component leaves all as it is. -/
theorem walk_eq_self (hp : Shallow p) (hrule : ∀ fs, p (.obj fs) → rule (.obj fs) = .obj fs) {j : Json} (h : everyNode p j) :
    walk rule j = j := (walk_congr hp hrule j h).trans (walk_id j)

mutual

/-- What a rule makes true of a component is true of each after its walk. -/
theorem everyNode_walk (hk : Keeps rule) (hp : Shallow p) (hrule : ∀ fs, p (.obj fs) → q (rule (.obj fs))) (j : Json)
    (h : everyNode p j) : everyNode q (walk rule j) := by
  match j with
  | .arr l =>
    rw [everyNode] at h
    rw [walk, everyNode]
    exact everyAll_walk hk hp hrule l h
  | .obj fs =>
    rw [everyNode, Bool.and_eq_true] at h
    rw [walk, isObj_eq (hk.obj _), everyNode, Bool.and_eq_true, ← isObj_eq (hk.obj _), hk.repeater,
      isRepeater_alike (walkFields_alike _ _)]
    refine ⟨hrule _ ((hp _ _ (walkFields_alike _ _)).trans h.1), everyField_iff.2 fun e he hin => ?_⟩
    rcases hk.inner _ e he with hmem | ⟨hc, hi⟩
    · exact everyField_iff.1 (everyField_walk hk hp hrule _ fs h.2) e hmem hin
    · rcases hin with hin | hin
      · exact absurd hin hc
      · exact absurd hin.1 hi
  | .null | .bool _ | .num _ | .str _ => rfl

theorem everyAll_walk (hk : Keeps rule) (hp : Shallow p) (hrule : ∀ fs, p (.obj fs) → q (rule (.obj fs))) (l : List Json)
    (h : everyAll p l) : everyAll q (walkAll rule l) := by
  match l with
  | [] => rw [walkAll, everyAll]
  | j :: l =>
    rw [everyAll, Bool.and_eq_true] at h
    rw [walkAll, everyAll, Bool.and_eq_true]
    exact ⟨everyNode_walk hk hp hrule j h.1, everyAll_walk hk hp hrule l h.2⟩

theorem everyField_walk (hk : Keeps rule) (hp : Shallow p) (hrule : ∀ fs, p (.obj fs) → q (rule (.obj fs))) (repeater : Bool)
    (fs : List (String × Json)) (h : everyField p repeater fs) : everyField q repeater (walkFields rule repeater fs) := by
  match fs with
  | [] => rw [walkFields, everyField]
  | (k, v) :: fs =>
    rw [everyField, Bool.and_eq_true] at h
    rw [walkFields, everyField, Bool.and_eq_true]
    refine ⟨?_, everyField_walk hk hp hrule repeater fs h.2⟩
    by_cases hin : k = "children" ∨ (k = "item" ∧ repeater ∧ v.isObj)
    · rw [if_pos hin] at h ⊢
      rw [isObj_walk hk.obj, if_pos hin]
      exact everyNode_walk hk hp hrule v h.1
    · rw [if_neg hin, if_neg hin]

end

mutual

theorem everyNode_true (j : Json) : everyNode (fun _ => true) j := by
  match j with
  | .arr l => rw [everyNode]; exact everyAll_true l
  | .obj fs => rw [everyNode]; exact everyField_true _ fs
  | .null | .bool _ | .num _ | .str _ => rfl

theorem everyAll_true (l : List Json) : everyAll (fun _ => true) l := by
  match l with
  | [] => rw [everyAll]
  | j :: l => rw [everyAll, everyNode_true, everyAll_true]; rfl

theorem everyField_true (repeater : Bool) (fs : List (String × Json)) : everyField (fun _ => true) repeater fs := by
  match fs with
  | [] => rw [everyField]
  | (k, v) :: fs => rw [everyField, everyNode_true, everyField_true, ite_self]; rfl

end

mutual

/-- What is true of a component that the validator accepts is true of each that `fix` comes to. -/
theorem everyNode_of_valid (hempty : p (.obj [])) (hok : ∀ fs, nodeOk (.obj fs) → p (.obj fs)) (j : Json) (h : validNode j) :
    everyNode p j := by
  match j with
  | .obj fs =>
    rw [validNode, Bool.and_eq_true] at h
    rw [everyNode, Bool.and_eq_true]
    exact ⟨hok fs h.1, everyField_of_valid hempty hok _ _ fs h.2⟩
  | .arr _ | .null | .bool _ | .num _ | .str _ => cases h

theorem everyAll_of_valid (hempty : p (.obj [])) (hok : ∀ fs, nodeOk (.obj fs) → p (.obj fs)) (l : List Json) (h : validAll l) :
    everyAll p l := by
  match l with
  | [] => rw [everyAll]
  | j :: l =>
    rw [validAll, Bool.and_eq_true] at h
    rw [everyAll, Bool.and_eq_true]
    exact ⟨everyNode_of_valid hempty hok j h.1, everyAll_of_valid hempty hok l h.2⟩

theorem everyNode_of_children (hempty : p (.obj [])) (hok : ∀ fs, nodeOk (.obj fs) → p (.obj fs)) (j : Json)
    (h : validChildren j) : everyNode p j := by
  match j with
  | .null => rfl
  | .arr l =>
    rw [validChildren] at h
    rw [everyNode]
    exact everyAll_of_valid hempty hok l h
  | .obj _ | .bool _ | .num _ | .str _ => cases h

theorem everyField_of_valid (hempty : p (.obj [])) (hok : ∀ fs, nodeOk (.obj fs) → p (.obj fs)) (container repeater : Bool)
    (fs : List (String × Json)) (h : validFields container repeater fs) : everyField p repeater fs := by
  match fs with
  | [] => rw [everyField]
  | (k, v) :: fs =>
    rw [validFields, Bool.and_eq_true] at h
    rw [everyField, Bool.and_eq_true]
    refine ⟨?_, everyField_of_valid hempty hok container repeater fs h.2⟩
    by_cases hk : k = "children"
    · rw [if_pos hk] at h
      rw [if_pos (.inl hk)]
      split at h
      · exact everyNode_of_children hempty hok v h.1
      · -- what is falsy has no component in it but an empty one
        match v with
        | .null | .bool _ | .num _ | .str _ => rfl
        | .arr [] => rw [everyNode, everyAll]
        | .obj [] => rw [everyNode, everyField, hempty]; rfl
        | .arr (_ :: _) | .obj (_ :: _) => cases h.1
    · rw [if_neg hk] at h
      split
      · next hin =>
        obtain ⟨hi, hrep, -⟩ := hin.resolve_left hk
        rw [if_pos ⟨hi, hrep⟩] at h
        exact everyNode_of_valid hempty hok v h.1
      · rfl

end

end Walk

end Flowly.Flowlets.Repair
