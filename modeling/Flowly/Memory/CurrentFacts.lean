/-
  Flowly.Memory.CurrentFacts — each current fact is in the graph once.

  Proved, over every run of the operations on the graph in which what `restore` opens again is
  not there as another current triple (`facts_once`): no fact has two current triples, subjects
  and the targets of aliases are entities, and `invalidate_triples` leaves no current triple of
  its fact. `add_triple` looks for the fact before it inserts, and a merge takes out what is
  there twice; `restore` does neither (`restored_twice`).
-/

import Flowly.Lib.Reach
import Flowly.Memory.KnowledgeGraph

namespace Flowly.Memory.KnowledgeGraph

open Flowly.Lib

namespace Graph

variable {lower : String → String} {g g' : Graph}

def HasEntity (g : Graph) (id : String) : Prop := ∃ e ∈ g.entities, e.id = id

structure Sound (g : Graph) : Prop where
  once : ∀ r ∈ g.triples, ∀ r' ∈ g.triples, r.validTo = none → r'.validTo = none → r.fact = r'.fact → r = r'
  subject : ∀ r ∈ g.triples, g.HasEntity r.subject
  target : ∀ a ∈ g.aliases, g.HasEntity a.canonicalId

/-- Nothing current is left of a fact that is invalidated. -/
def Invalidates (lower : String → String) (g : Graph) : Prop :=
  ∀ subject predicate obj ended today, ∀ r ∈ (g.invalidateTriples lower subject predicate obj ended today).1.triples,
    r.fact = (g.invalidateTriples lower subject predicate obj ended today).1.factOf lower subject predicate obj → r.validTo ≠ none

/-- A triple is opened again only where it is current, or its fact is not. -/
def Ok (g : Graph) : Op → Prop
  | .restore tripleId => ∀ r ∈ g.triples.rows, r.id = tripleId →
      r.validTo = none ∨ ∀ r' ∈ g.triples.rows, r'.validTo = none → r'.fact ≠ r.fact
  | _ => True

/-! ## Entities -/

structure Extends (g g' : Graph) : Prop where
  triples : g'.triples = g.triples
  aliases : g'.aliases = g.aliases
  entities : ∀ id, g.HasEntity id → g'.HasEntity id

theorem Extends.refl (g : Graph) : Extends g g := ⟨rfl, rfl, fun _ h => h⟩

theorem Extends.trans {g'' : Graph} (h : Extends g g') (h' : Extends g' g'') : Extends g g'' :=
  ⟨h'.triples.trans h.triples, h'.aliases.trans h.aliases, fun id hid => h'.entities id (h.entities id hid)⟩

theorem Extends.sound (h : Extends g g') (hs : g.Sound) : g'.Sound where
  once := by
    rw [h.triples]
    exact hs.once
  subject := by
    rw [h.triples]
    exact fun r hr => h.entities _ (hs.subject r hr)
  target := by
    rw [h.aliases]
    exact fun a ha => h.entities _ (hs.target a ha)

theorem extends_update {f : Entity → Entity} (hf : ∀ e, (f e).id = e.id) : Extends g { g with entities := g.entities.update f hf } := by
  refine ⟨rfl, rfl, ?_⟩
  rintro id ⟨e, he, rfl⟩
  exact ⟨f e, (Table.mem_update hf).2 ⟨e, he, rfl⟩, hf e⟩

theorem extends_setType (id type : String) : Extends g (g.setType id type) := extends_update (Entity.setType_id id type)

theorem extends_addEntity (name type : String) (properties : Option String) :
    Extends g (g.addEntity lower name type properties).1 := by
  unfold addEntity
  split
  · next e _ =>
    have htype : Extends g (if type ≠ "unknown" then g.setType e.id type else g) := by
      split
      · exact extends_setType e.id type
      · exact .refl g
    refine htype.trans ?_
    cases properties with
    | some p => exact extends_update (Entity.setProperties_id e.id p)
    | none => exact .refl _
  · next hnone =>
    refine ⟨rfl, rfl, ?_⟩
    rintro id ⟨e, he, rfl⟩
    by_cases hid : e.id = normalizeId lower name
    · exact ⟨_, Table.mem_insertOrReplace.2 (.inr rfl), hid.symm⟩
    · exact ⟨e, Table.mem_insertOrReplace.2 (.inl ⟨he, hid⟩), rfl⟩

theorem extends_ensure (name type : String) : Extends g (g.ensure lower name type) := by
  unfold ensure
  split
  · split
    · exact extends_setType _ _
    · exact .refl g
  · refine ⟨rfl, rfl, ?_⟩
    rintro id ⟨e, he, rfl⟩
    exact ⟨e, Table.mem_insertOrIgnore_of_mem he, rfl⟩

/-- What a name stands for is an entity once it is ensured. -/
theorem hasEntity_ensure (name type : String) : (g.ensure lower name type).HasEntity (g.idOf lower name) := by
  cases h : g.resolveEntity lower name with
  | some e =>
    have hid : g.idOf lower name = e.id := by rw [idOf, h]; rfl
    exact (extends_ensure name type).entities _ ⟨e, resolveId_mem h, hid.symm⟩
  | none =>
    have hid : g.idOf lower name = normalizeId lower name := by rw [idOf, h]; rfl
    rw [ensure, h, hid]
    exact Table.exists_insertOrIgnore _ _

/-! ## Steps -/

namespace Sound

theorem addAlias (h : g.Sound) (alias_ canonicalName : String) : (g.addAlias lower alias_ canonicalName).1.Sound := by
  unfold Graph.addAlias
  split
  · exact h
  · next e he =>
    refine ⟨h.once, h.subject, fun a ha => ?_⟩
    rcases Table.mem_insertOrReplace.1 ha with ⟨hin, -⟩ | rfl
    · exact h.target a hin
    · exact ⟨e, resolveId_mem (g := g) he, rfl⟩

theorem insertTriple (h : g.Sound) {r : Triple} {triples : Table Triple.id} (hi : g.triples.insert r = some triples)
    (hsubject : g.HasEntity r.subject) (hnew : ∀ r' ∈ g.triples, r'.validTo = none → r'.fact ≠ r.fact) :
    { g with triples := triples }.Sound where
  once r₁ hr₁ r₂ hr₂ hopen₁ hopen₂ hfact := by
    rcases (Table.mem_of_insert hi).1 hr₁ with hin₁ | rfl <;> rcases (Table.mem_of_insert hi).1 hr₂ with hin₂ | rfl
    · exact h.once r₁ hin₁ r₂ hin₂ hopen₁ hopen₂ hfact
    · exact absurd hfact (hnew r₁ hin₁ hopen₁)
    · exact absurd hfact.symm (hnew r₂ hin₂ hopen₂)
    · rfl
  subject r' hr' := by
    rcases (Table.mem_of_insert hi).1 hr' with hin | rfl
    · exact h.subject r' hin
    · exact hsubject
  target := h.target

theorem addTriple (h : g.Sound) {subject predicate obj : String} {d : Details} {digest id : String}
    (hadd : g.addTriple lower subject predicate obj d digest = some (g', id)) : g'.Sound := by
  have hsub : (g.ensure lower subject d.subjectType).HasEntity (g.idOf lower subject) := hasEntity_ensure subject d.subjectType
  have hg₁ : (g.ensure lower subject d.subjectType).Sound := (extends_ensure subject d.subjectType).sound h
  unfold Graph.addTriple at hadd
  generalize g.ensure lower subject d.subjectType = g₁ at hsub hg₁ hadd
  have hobj : Extends g₁ (if normalizePredicate lower predicate ∈ VALUE_PREDICATES then g₁ else g₁.ensure lower obj d.objectType) := by
    split
    · exact .refl g₁
    · exact extends_ensure obj d.objectType
  dsimp only at hadd
  generalize (if normalizePredicate lower predicate ∈ VALUE_PREDICATES then g₁ else g₁.ensure lower obj d.objectType) = g₂ at hobj hadd
  split at hadd
  · cases hadd
    exact hobj.sound hg₁
  · next hnone =>
    obtain ⟨triples, hi, heq⟩ := Option.map_eq_some_iff.1 hadd
    cases heq
    refine (hobj.sound hg₁).insertTriple hi (hobj.entities _ hsub) fun r hr hopen hfact => ?_
    exact List.find?_eq_none.1 hnone r hr (decide_eq_true ⟨hfact, hopen⟩)

/-- Triples that are changed and keep their subjects and facts, and none becomes current. -/
theorem closeWhere (h : g.Sound) (p : Triple → Bool) (ended : String) : (g.closeWhere p ended).Sound where
  once r₁ hr₁ r₂ hr₂ hopen₁ hopen₂ hfact := by
    obtain ⟨s₁, hs₁, rfl⟩ := (Table.mem_update (Triple.close_id p ended)).1 hr₁
    obtain ⟨s₂, hs₂, rfl⟩ := (Table.mem_update (Triple.close_id p ended)).1 hr₂
    have hsame : ∀ s : Triple, (s.close p ended).validTo = none → s.close p ended = s := fun s hs => by
      unfold Triple.close at hs ⊢
      split
      · next hp =>
        rw [if_pos hp] at hs
        cases hs
      · rfl
    have hclose₁ := hsame s₁ hopen₁
    have hclose₂ := hsame s₂ hopen₂
    rw [hclose₁] at hopen₁ hfact ⊢
    rw [hclose₂] at hopen₂ hfact ⊢
    exact h.once s₁ hs₁ s₂ hs₂ hopen₁ hopen₂ hfact
  subject r hr := by
    obtain ⟨s, hs, rfl⟩ := (Table.mem_update (Triple.close_id p ended)).1 hr
    have hsub : (s.close p ended).subject = s.subject := by
      unfold Triple.close
      split <;> rfl
    rw [hsub]
    exact h.subject s hs
  target := h.target

theorem moveAll (h : g.Sound) {source target : String} (htarget : g.HasEntity target) (hne : target ≠ source) :
    (g.moveAll source target).Sound where
  once r₁ hr₁ r₂ hr₂ hopen₁ hopen₂ hfact :=
    Table.eq_of_mem_distinct hr₁ hr₂ (Prod.ext hfact (hopen₁.trans hopen₂.symm))
  subject r hr := by
    obtain ⟨s, hs, rfl⟩ := (Table.mem_update (Triple.rename_id source target)).1 (Table.mem_of_mem_distinct hr)
    show (g.moveAll source target).HasEntity (if s.subject = source then target else s.subject)
    exact hasEntity htarget hne (h.subject s hs)
  target a ha := by
    obtain ⟨b, hb, rfl⟩ := (Table.mem_update (Alias.move_alias_ source target)).1 ha
    have hid : (b.move source target).canonicalId = if b.canonicalId = source then target else b.canonicalId := by
      unfold Alias.move
      split <;> rfl
    rw [hid]
    rcases Table.mem_insertOrReplace.1 hb with ⟨hin, -⟩ | rfl
    · exact hasEntity htarget hne (h.target b hin)
    · rw [if_neg hne]
      obtain ⟨e, he, rfl⟩ := htarget
      exact ⟨e, Table.mem_keep.2 ⟨he, decide_eq_true hne⟩, rfl⟩
where
  /-- What an id is renamed to is an entity that stays. -/
  hasEntity {id : String} (htarget : g.HasEntity target) (hne : target ≠ source) (hid : g.HasEntity id) :
      (g.moveAll source target).HasEntity (if id = source then target else id) := by
    have hkeep : ∀ id, g.HasEntity id → id ≠ source → (g.moveAll source target).HasEntity id := by
      rintro _ ⟨e, he, rfl⟩ hid
      exact ⟨e, Table.mem_keep.2 ⟨he, decide_eq_true hid⟩, rfl⟩
    split
    · exact hkeep target htarget hne
    · next hid' => exact hkeep id hid hid'

theorem mergeEntities (h : g.Sound) (sourceName targetName : String) : (g.mergeEntities lower sourceName targetName).1.Sound := by
  unfold Graph.mergeEntities
  split
  · next source target _ htarget =>
    split
    · exact h
    · next hne => exact h.moveAll ⟨target, resolveId_mem htarget, rfl⟩ (Ne.symm hne)
  · exact h

theorem reopen_fact (tripleId : String) (r : Triple) : (r.reopen tripleId).fact = r.fact := by
  unfold Triple.reopen
  split <;> rfl

theorem restore (h : g.Sound) {tripleId : String} (hok : g.Ok (.restore tripleId)) : (g.restore tripleId).Sound where
  once r₁ hr₁ r₂ hr₂ hopen₁ hopen₂ hfact := by
    obtain ⟨s₁, hs₁, rfl⟩ := (Table.mem_update (Triple.reopen_id tripleId)).1 hr₁
    obtain ⟨s₂, hs₂, rfl⟩ := (Table.mem_update (Triple.reopen_id tripleId)).1 hr₂
    rw [reopen_fact, reopen_fact] at hfact
    by_cases hid₁ : s₁.id = tripleId <;> by_cases hid₂ : s₂.id = tripleId
    · rw [Table.eq_of_key hs₁ hs₂ (hid₁.trans hid₂.symm)]
    · rw [Triple.reopen, if_neg hid₂] at hopen₂
      rcases hok s₁ hs₁ hid₁ with hopen | hnone
      · rw [h.once s₁ hs₁ s₂ hs₂ hopen hopen₂ hfact]
      · exact absurd hfact.symm (hnone s₂ hs₂ hopen₂)
    · rw [Triple.reopen, if_neg hid₁] at hopen₁
      rcases hok s₂ hs₂ hid₂ with hopen | hnone
      · rw [h.once s₁ hs₁ s₂ hs₂ hopen₁ hopen hfact]
      · exact absurd hfact (hnone s₁ hs₁ hopen₁)
    · rw [Triple.reopen, if_neg hid₁] at hopen₁
      rw [Triple.reopen, if_neg hid₂] at hopen₂
      rw [h.once s₁ hs₁ s₂ hs₂ hopen₁ hopen₂ hfact]
  subject r hr := by
    obtain ⟨s, hs, rfl⟩ := (Table.mem_update (Triple.reopen_id tripleId)).1 hr
    have hsub : (s.reopen tripleId).subject = s.subject := by
      unfold Triple.reopen
      split <;> rfl
    rw [hsub]
    exact h.subject s hs
  target := h.target

theorem next (h : g.Sound) {op : Op} (hok : g.Ok op) : (g.next lower op).Sound := by
  cases op with
  | addEntity name type properties => exact (extends_addEntity name type properties).sound h
  | addAlias alias_ canonicalName => exact h.addAlias alias_ canonicalName
  | addTriple subject predicate obj details digest =>
    have hnext : g.next lower (.addTriple subject predicate obj details digest) =
        ((g.addTriple lower subject predicate obj details digest).map (·.1)).getD g := rfl
    rw [hnext]
    cases hadd : g.addTriple lower subject predicate obj details digest with
    | none => exact h
    | some r => exact h.addTriple hadd
  | invalidateTriples subject predicate obj ended today => exact h.closeWhere _ _
  | mergeEntities sourceName targetName => exact h.mergeEntities sourceName targetName
  | supersede tripleId ended today => exact h.closeWhere _ _
  | restore tripleId => exact h.restore hok

end Sound

theorem sound_empty : empty.Sound := ⟨nofun, nofun, nofun⟩

theorem invalidates (g : Graph) : g.Invalidates lower := by
  intro subject predicate obj ended today r hr hfact hopen
  obtain ⟨s, -, rfl⟩ := (Table.mem_update (Triple.close_id _ _)).1 hr
  unfold Triple.close at hfact hopen
  split at hopen
  · cases hopen
  · next hne =>
    rw [if_neg hne] at hfact
    exact hne ⟨decide_eq_true hfact, hopen⟩

/-- In every run each current fact is in the graph once, every subject and every target of an alias is an entity, and
what is invalidated is current no more. -/
theorem facts_once (h : Reach (Graph.next lower) Graph.Ok .empty g) : g.Sound ∧ g.Invalidates lower :=
  ⟨h.invariant sound_empty fun _ _ hs hok => hs.next hok, g.invalidates⟩

end Graph

namespace Sample

/-- `str.lower` on what is lower case. -/
def lower (s : String) : String := s

def after (ops : List Op) : Graph := ops.foldl (Graph.next lower) .empty

def worksAt (id : String) (validTo : Option String) : Triple := ⟨id, "ada", "works_at", "acme", none, validTo, 1, "agent"⟩

/-- A fact is added and invalidated, and the change is undone. -/
def undone : List Op := [
  .addTriple "ada" "works_at" "acme" {} "11111111",
  .invalidateTriples "ada" "works_at" "acme" (some "2026-01-01") "2026-01-02",
  .restore "t_ada_works_at_acme_11111111"]

theorem facts_once_undone : (after undone).Sound ∧ (after undone).Invalidates lower := by
  refine Graph.facts_once (Reach.foldl undone Graph.empty .start ⟨trivial, trivial, ?_, trivial⟩)
  show ∀ r ∈ [worksAt "t_ada_works_at_acme_11111111" (some "2026-01-01")], r.id = "t_ada_works_at_acme_11111111" →
    r.validTo = none ∨ ∀ r' ∈ [worksAt "t_ada_works_at_acme_11111111" (some "2026-01-01")], r'.validTo = none → r'.fact ≠ r.fact
  decide

def undoneLate : List Op := [
  .addTriple "ada" "works_at" "acme" {} "11111111",
  .invalidateTriples "ada" "works_at" "acme" (some "2026-01-01") "2026-01-02",
  .addTriple "ada" "works_at" "acme" {} "22222222",
  .restore "t_ada_works_at_acme_11111111"]

/-- Both triples are current then. -/
theorem restored_twice : ¬ ∀ ops : List Op, (after ops).Sound := by
  intro h
  have hrows : (after undoneLate).triples.rows =
      [worksAt "t_ada_works_at_acme_11111111" none, worksAt "t_ada_works_at_acme_22222222" none] := by decide
  have hfirst : worksAt "t_ada_works_at_acme_11111111" none ∈ (after undoneLate).triples := by
    show _ ∈ (after undoneLate).triples.rows
    rw [hrows]
    exact List.mem_cons_self
  have hsecond : worksAt "t_ada_works_at_acme_22222222" none ∈ (after undoneLate).triples := by
    show _ ∈ (after undoneLate).triples.rows
    rw [hrows]
    exact List.mem_cons_of_mem _ List.mem_cons_self
  have hids := congrArg Triple.id ((h undoneLate).once _ hfirst _ hsecond rfl rfl rfl)
  revert hids
  decide

end Sample

end Flowly.Memory.KnowledgeGraph
