/-
  Flowly.Memory.Facts — one active fact per key.

  An operation starts from a store with at most one active fact for each key. It keeps
  that if it activates a fact only where the key is free (`FreeFor`); whatever else it
  does can only take active facts away (`Shrinks`). `undo`, the ingest of a fact and the
  acceptance of a fact from a vault free the key first (`supersedeAll_spec`); the plain
  `accept` and `correct` do not.

  Proved: in every run whose steps are `Clear`, the facts stay one per key, each change
  of status is in the audit, and an operation that the governance refuses has changed
  nothing (`one_fact_per_key`).
-/

import Flowly.Lib.Reach
import Flowly.Memory.Coordinator

namespace Flowly.Memory

open Flowly.Lib

def Item.ActiveFact (i : Item) : Prop := i.kind = "fact" ∧ i.status = .active

instance (i : Item) : Decidable i.ActiveFact := inferInstanceAs (Decidable (_ ∧ _))

/-- At most one active fact has a given key, other than the empty one. -/
def OneFactPerKey (s : Store) : Prop :=
  ∀ i ∈ s.items, ∀ j ∈ s.items, i.ActiveFact → j.ActiveFact → i.normalizedKey ≠ "" → i.normalizedKey = j.normalizedKey → i.id = j.id

instance (s : Store) : Decidable (OneFactPerKey s) :=
  inferInstanceAs (Decidable (∀ i ∈ s.items, ∀ j ∈ s.items, i.ActiveFact → j.ActiveFact → i.normalizedKey ≠ "" →
    i.normalizedKey = j.normalizedKey → i.id = j.id))

/-- If `item` were an active fact, it would be the only one with its key. -/
def FreeFor (s : Store) (item : Item) : Prop :=
  item.kind = "fact" → item.normalizedKey ≠ "" → ∀ j ∈ s.items, j.ActiveFact → j.normalizedKey = item.normalizedKey → j.id = item.id

instance (s : Store) (item : Item) : Decidable (FreeFor s item) :=
  inferInstanceAs (Decidable (item.kind = "fact" → item.normalizedKey ≠ "" → ∀ j ∈ s.items, j.ActiveFact →
    j.normalizedKey = item.normalizedKey → j.id = item.id))

/-- The active facts of `s'` are active facts of `s`. -/
def Shrinks (s s' : Store) : Prop :=
  ∀ i ∈ s'.items, i.ActiveFact → ∃ j ∈ s.items, j.ActiveFact ∧ j.id = i.id ∧ j.normalizedKey = i.normalizedKey

section Shrinks

variable {s s' s'' : Store} {item : Item}

theorem Shrinks.refl (s : Store) : Shrinks s s := fun i hi ha => ⟨i, hi, ha, rfl, rfl⟩

theorem Shrinks.trans (h : Shrinks s s') (h' : Shrinks s' s'') : Shrinks s s'' := by
  intro i hi ha
  obtain ⟨j, hj, haj, hid, hkey⟩ := h' i hi ha
  obtain ⟨k, hk, hak, hid', hkey'⟩ := h j hj haj
  exact ⟨k, hk, hak, hid'.trans hid, hkey'.trans hkey⟩

theorem OneFactPerKey.shrinks (h : OneFactPerKey s) (hs : Shrinks s s') : OneFactPerKey s' := by
  intro i hi j hj hai haj hkey heq
  obtain ⟨i', hi', hai', hidi, hkeyi⟩ := hs i hi hai
  obtain ⟨j', hj', haj', hidj, hkeyj⟩ := hs j hj haj
  have hid : i'.id = j'.id := h i' hi' j' hj' hai' haj' (by rwa [hkeyi]) (by rw [hkeyi, hkeyj, heq])
  rw [← hidi, ← hidj, hid]

theorem FreeFor.shrinks (h : FreeFor s item) (hs : Shrinks s s') : FreeFor s' item := by
  intro hkind hkey j hj haj heq
  obtain ⟨j', hj', haj', hid, hkey'⟩ := hs j hj haj
  rw [← hid]
  exact h hkind hkey j' hj' haj' (hkey'.trans heq)

/-- A fact with no key, and an item of another kind, is in nobody's way. -/
theorem FreeFor.ofKind (h : item.kind ≠ "fact") : FreeFor s item := fun hkind => absurd hkind h

theorem shrinks_add {new : Item} (h : new.status ≠ .active) (actor reason : String) : Shrinks s (s.add new actor reason) := by
  intro i hi ha
  rcases List.mem_append.1 hi with hi | hi
  · exact ⟨i, hi, ha, rfl, rfl⟩
  · rw [List.mem_singleton.1 hi] at ha
    exact absurd ha.2 h

theorem shrinks_mapItems {f : Item → Item} (hid : ∀ i, (f i).id = i.id) (hkind : ∀ i, (f i).kind = i.kind)
    (hst : ∀ i, (f i).status = i.status) (hkey : ∀ i, (f i).normalizedKey = i.normalizedKey) :
    Shrinks s { s with items := s.items.map f } := by
  intro i hi ha
  obtain ⟨j, hj, rfl⟩ := List.mem_map.1 hi
  exact ⟨j, hj, ⟨(hkind j).symm.trans ha.1, (hst j).symm.trans ha.2⟩, (hid j).symm, (hkey j).symm⟩

theorem shrinks_setFields (id : Nat) (f : Fields) : Shrinks s (s.setFields id f) := by
  refine shrinks_mapItems ?_ ?_ ?_ ?_
  all_goals
    intro i
    split <;> rfl

theorem shrinks_touch (id : Nat) : Shrinks s (s.touch id) := by
  refine shrinks_mapItems ?_ ?_ ?_ ?_
  all_goals
    intro i
    split <;> rfl

theorem shrinks_move {toStatus : Status} (h : toStatus ≠ .active) (actor reason : String) (supersedes : Option Nat) :
    Shrinks s (s.move item toStatus actor reason supersedes) := by
  intro i hi ha
  obtain ⟨j, hj, rfl⟩ := List.mem_map.1 hi
  by_cases hid : j.id = item.id
  · rw [if_pos hid] at ha
    exact absurd ha.2 h
  · rw [if_neg hid] at ha ⊢
    exact ⟨j, hj, ha, rfl, rfl⟩

/-- The activation of a fact whose key is free. -/
theorem OneFactPerKey.activate (h : OneFactPerKey s) (ha : Audited s) (hin : item ∈ s.items) (hfree : FreeFor s item)
    (actor reason : String) (supersedes : Option Nat) : OneFactPerKey (s.move item .active actor reason supersedes) := by
  -- An active fact of the new state is the item itself, or one of the old state.
  have hold : ∀ i ∈ (s.move item .active actor reason supersedes).items, i.ActiveFact →
      (i.id = item.id ∧ item.kind = "fact" ∧ i.normalizedKey = item.normalizedKey) ∨ (i ∈ s.items ∧ i.id ≠ item.id) := by
    intro i hi hai
    obtain ⟨j, hj, rfl⟩ := List.mem_map.1 hi
    by_cases hid : j.id = item.id
    · obtain rfl : j = item := List.inj_on_of_nodup_map ha.ids hj hin hid
      rw [if_pos rfl] at hai ⊢
      exact .inl ⟨rfl, hai.1, rfl⟩
    · rw [if_neg hid]
      exact .inr ⟨hj, hid⟩
  intro i hi j hj hai haj hkey heq
  rcases hold i hi hai with ⟨hidi, hkind, hkeyi⟩ | ⟨hini, hidi⟩
  · rcases hold j hj haj with ⟨hidj, _, _⟩ | ⟨hinj, hidj⟩
    · rw [hidi, hidj]
    · have hsame : j.id = item.id := hfree hkind (by rwa [← hkeyi]) j hinj haj (by rw [← heq, hkeyi])
      exact absurd hsame hidj
  · rcases hold j hj haj with ⟨hidj, hkind, hkeyj⟩ | ⟨hinj, hidj⟩
    · have hsame : i.id = item.id := hfree hkind (by rwa [← hkeyj, ← heq]) i hini hai (by rw [heq, hkeyj])
      exact absurd hsame hidi
    · exact h i hini j hinj hai haj hkey heq

end Shrinks

/-! ## Steps that end well -/

theorem Status.candidate_ne_active : Status.candidate ≠ .active := by decide

theorem Status.not_next_self (st : Status) : st ∉ st.next := by cases st <;> decide

theorem Audited.find {s : Store} (h : Audited s) {item : Item} (hin : item ∈ s.items) : s.items.find? (·.id = item.id) = some item := by
  cases hf : s.items.find? (·.id = item.id) with
  | none =>
    have hno := List.find?_eq_none.1 hf item hin
    simp at hno
  | some other =>
    have hid : other.id = item.id := by simpa using List.find?_some hf
    rw [List.inj_on_of_nodup_map h.ids (List.mem_of_find?_eq_some hf) hin hid]

section Steps

variable {s : Store} {item : Item}

theorem transition_moves {toStatus : Status} {supersedes : Option Nat} (h : Audited s) (hin : item ∈ s.items) (hnext : toStatus ∈ item.status.next)
    (hsup : ∀ sup, supersedes = some sup → sup ∈ s.items.map Item.id) (actor reason : String) :
    Program.exec (transition item.id toStatus actor reason supersedes) s = (.ok (), s.move item toStatus actor reason supersedes) := by
  have hfound := h.find hin
  have hspec := transition_spec (s := s) item.id toStatus actor reason supersedes
  unfold Program.Post at hspec
  generalize Program.exec (transition item.id toStatus actor reason supersedes) s = run at hspec ⊢
  obtain ⟨r, s'⟩ := run
  cases hspec with
  | missing hf =>
    rw [hfound] at hf
    cases hf
  | same hf heq =>
    rw [hfound] at hf
    cases hf
    rw [← heq] at hnext
    exact absurd hnext (Status.not_next_self _)
  | refused hf _ hout =>
    rw [hfound] at hf
    cases hf
    exact absurd hnext hout
  | dangling _ heq hout => exact absurd (hsup _ heq) hout
  | moved hf _ =>
    rw [hfound] at hf
    cases hf
    rfl

/-- A move without a link has nothing to link to. -/
theorem no_link {P : Nat → Prop} : ∀ sup, (none : Option Nat) = some sup → P sup := fun _ h => nomatch h

theorem no_ref {P : String × String → Prop} : ∀ r, (none : Option (String × String)) = some r → P r := fun _ h => nomatch h

theorem updateFields_sets (h : Audited s) (hin : item ∈ s.items) {f : Fields} (hf : ∀ r, f.ref = some r → r.1 ∈ validRefKinds) :
    Program.exec (updateFields item.id f) s = (.ok (), s.setFields item.id f) := by
  unfold updateFields
  have hvalid : ¬ (f.ref.any fun r => decide (r.1 ∉ validRefKinds)) = true := by
    cases href : f.ref with
    | none => exact Bool.false_ne_true
    | some r =>
      have hr := hf r href
      simpa using hr
  rw [if_neg hvalid]
  show Program.exec (get >>= _) s = _
  rw [Program.exec_bind, Program.exec_get]
  dsimp only
  rw [h.find hin]
  rfl

theorem mem_move_of_ne {toStatus : Status} {actor reason : String} {supersedes : Option Nat} {i : Item} (hi : i ∈ s.items) (hne : i.id ≠ item.id) :
    i ∈ (s.move item toStatus actor reason supersedes).items :=
  List.mem_map.2 ⟨i, hi, if_neg hne⟩

theorem ids_move (toStatus : Status) (actor reason : String) (supersedes : Option Nat) :
    (s.move item toStatus actor reason supersedes).items.map Item.id = s.items.map Item.id := by
  show (s.items.map _).map Item.id = _
  rw [List.map_map]
  refine List.map_congr_left fun i _ => ?_
  dsimp only [Function.comp]
  split <;> rfl

end Steps

/-- The items of `l` are moved to `toStatus`, one after the other. -/
structure Retired (s : Store) (l : List Item) (toStatus : Status) (s' : Store) : Prop where
  audited : Audited s'
  shrinks : Shrinks s s'
  /-- What is active in the end was not in the list. -/
  active : ∀ i ∈ s'.items, i.status = .active → i ∈ s.items ∧ i ∉ l
  others : ∀ i ∈ s.items, i.id ∉ l.map Item.id → i ∈ s'.items

theorem Retired.nil {s : Store} (h : Audited s) (toStatus : Status) : Retired s [] toStatus s :=
  ⟨h, Shrinks.refl s, fun _ hi _ => ⟨hi, List.not_mem_nil⟩, fun _ hi _ => hi⟩

/-- The loop over items whose statuses allow the change. -/
theorem retireAll_spec {toStatus : Status} (hne : toStatus ≠ .active) (actor reason : String) {supersedes : Option Nat} :
    ∀ (l : List Item) {s : Store}, Audited s → (∀ i ∈ l, i ∈ s.items ∧ toStatus ∈ i.status.next) → (l.map Item.id).Nodup →
      (∀ sup, supersedes = some sup → sup ∈ s.items.map Item.id) →
      Program.Post (l.forM fun i => transition i.id toStatus actor reason supersedes) s fun r s' => r = .ok () ∧ Retired s l toStatus s' := by
  intro l
  induction l with
  | nil =>
    intro s h _ _ _
    exact ⟨rfl, .nil h toStatus⟩
  | cons item rest ih =>
    intro s h hmem hnd hsup
    obtain ⟨hin, hnext⟩ := hmem item List.mem_cons_self
    have hrun := transition_moves h hin hnext hsup actor reason
    have hnotin : item.id ∉ rest.map Item.id := (List.nodup_cons.1 hnd).1
    have hkept : ∀ i ∈ rest, i.id ≠ item.id := by
      intro i hi heq
      rw [← heq] at hnotin
      exact hnotin (List.mem_map_of_mem hi)
    have hmoved : Audited (s.move item toStatus actor reason supersedes) := h.move (h.find hin) hnext actor reason supersedes
    have hleft : ∀ i ∈ rest, i ∈ (s.move item toStatus actor reason supersedes).items ∧ toStatus ∈ i.status.next := by
      intro i hi
      obtain ⟨hi', hnext'⟩ := hmem i (List.mem_cons_of_mem _ hi)
      exact ⟨mem_move_of_ne hi' (hkept i hi), hnext'⟩
    have htail := ih hmoved hleft (List.nodup_cons.1 hnd).2 (by rw [ids_move]; exact hsup)
    show Program.Post (transition item.id toStatus actor reason supersedes >>= fun _ => rest.forM _) s _
    unfold Program.Post at htail ⊢
    rw [Program.exec_bind, hrun]
    obtain ⟨hok, hret⟩ := htail
    refine ⟨hok, hret.audited, (shrinks_move hne actor reason supersedes).trans hret.shrinks, ?_, ?_⟩
    · intro i hi hact
      obtain ⟨hi', hirest⟩ := hret.active i hi hact
      obtain ⟨j, hj, rfl⟩ := List.mem_map.1 hi'
      by_cases hid : j.id = item.id
      · rw [if_pos hid] at hact
        exact absurd hact hne
      · rw [if_neg hid] at hirest ⊢
        refine ⟨hj, ?_⟩
        intro hjl
        rcases List.mem_cons.1 hjl with rfl | hjl
        · exact hid rfl
        · exact hirest hjl
    · intro i hi hout
      rw [List.map_cons, List.mem_cons, not_or] at hout
      exact hret.others i (mem_move_of_ne hi hout.1) hout.2

/-! ## Freeing a key -/

/-- What `find_by_key` gives. -/
def Store.withKey (s : Store) (key : String) (statuses : List Status) : List Item :=
  if key = "" then [] else s.items.filter fun i => i.normalizedKey = key ∧ i.status ∈ statuses

theorem findByKey_exec (s : Store) (key : String) (statuses : List Status) :
    Program.exec (findByKey key statuses) s = (.ok (s.withKey key statuses), s) := rfl

section Keys

variable {s s' : Store} {item : Item} {key : String} {statuses : List Status} {keep : Item → Bool}

theorem mem_withKey {i : Item} : i ∈ s.withKey key statuses ↔ key ≠ "" ∧ i ∈ s.items ∧ i.normalizedKey = key ∧ i.status ∈ statuses := by
  unfold Store.withKey
  split
  · next h => simp [h]
  · next h => simp [h]

/-- The items that a loop takes out of the store are different ones. -/
theorem Audited.nodup_sublist (h : Audited s) {l : List Item} (hl : l.Sublist s.items) : (l.map Item.id).Nodup :=
  List.Nodup.sublist (hl.map Item.id) h.ids

theorem withKey_sublist : (s.withKey key statuses).Sublist s.items := by
  unfold Store.withKey
  split
  · exact List.nil_sublist _
  · exact List.filter_sublist

theorem supersedeAll_spec (h : Audited s) (key : String) (keep : Item → Bool) (actor reason : String) {supersedes : Option Nat}
    (hsup : ∀ sup, supersedes = some sup → sup ∈ s.items.map Item.id) :
    Program.Post (supersedeAll (s.withKey key [.active]) keep actor reason supersedes) s fun r s' =>
      r = .ok () ∧ Retired s ((s.withKey key [.active]).filter fun i => !keep i) .superseded s' := by
  refine retireAll_spec (by decide) actor reason _ h ?_ ?_ hsup
  · intro i hi
    obtain ⟨-, hin, -, hst⟩ := mem_withKey.1 (List.mem_of_mem_filter hi)
    rw [List.mem_singleton.1 hst]
    exact ⟨hin, by decide⟩
  · exact h.nodup_sublist (List.filter_sublist.trans withKey_sublist)

/-- An item that is kept is still there. -/
theorem Retired.keeps (hr : Retired s ((s.withKey key [.active]).filter fun i => !keep i) .superseded s') (h : Audited s)
    (hin : item ∈ s.items) (hkeep : keep item ∨ item.status ≠ .active) : item ∈ s'.items := by
  refine hr.others item hin ?_
  intro hout
  obtain ⟨i, hi, hid⟩ := List.mem_map.1 hout
  obtain ⟨hi, hnot⟩ := List.mem_filter.1 hi
  obtain ⟨-, hini, -, hst⟩ := mem_withKey.1 hi
  obtain rfl : i = item := List.inj_on_of_nodup_map h.ids hini hin hid
  rcases hkeep with hkeep | hst'
  · rw [hkeep] at hnot
    cases hnot
  · exact hst' (List.mem_singleton.1 hst)

/-- The key is free when only the item itself was kept. -/
theorem Retired.freeFor (hr : Retired s ((s.withKey key [.active]).filter fun i => !keep i) .superseded s')
    (hkey : item.normalizedKey ≠ "" → key = item.normalizedKey)
    (hkeep : ∀ j ∈ s.items, j.ActiveFact → j.normalizedKey = item.normalizedKey → keep j → j.id = item.id) : FreeFor s' item := by
  intro _ hne j hj haj heq
  obtain ⟨hin, hout⟩ := hr.active j hj haj.2
  have hsib : j ∈ s.withKey key [.active] := by
    rw [hkey hne]
    exact mem_withKey.2 ⟨hne, hin, heq, List.mem_singleton.2 haj.2⟩
  cases hk : keep j with
  | true => exact hkeep j hin haj heq hk
  | false => exact absurd (List.mem_filter.2 ⟨hsib, by rw [hk]; rfl⟩) hout

end Keys

/-! ## New items -/

section New

variable {s : Store} {new : Item}

theorem mem_add (new : Item) (actor reason : String) : { new with id := s.nextId } ∈ (s.add new actor reason).items :=
  List.mem_append_right _ (List.mem_singleton_self _)

theorem mem_add_of_mem {i : Item} (hi : i ∈ s.items) (new : Item) (actor reason : String) : i ∈ (s.add new actor reason).items :=
  List.mem_append_left _ hi

theorem addItem_adds (h : new.Valid) (actor reason : String) :
    Program.exec (addItem new actor reason) s = (.ok { new with id := s.nextId }, s.add new actor reason) := by
  have hspec := addItem_spec (s := s) new actor reason
  unfold Program.Post at hspec
  simp only [if_pos h] at hspec
  exact Prod.ext hspec.1 hspec.2

/-- A new candidate is moved on; the status is one that a candidate may have next. -/
theorem OneFactPerKey.settled (h : OneFactPerKey s) (ha : Audited s) {item : Item} (hin : item ∈ s.items) {toStatus : Status}
    (hfree : toStatus = .active → FreeFor s item) (actor reason : String) (supersedes : Option Nat) :
    OneFactPerKey (s.move item toStatus actor reason supersedes) := by
  by_cases hst : toStatus = .active
  · rw [hst]
    exact h.activate ha hin (hfree hst) actor reason supersedes
  · exact h.shrinks (shrinks_move hst actor reason supersedes)

end New

end Flowly.Memory
