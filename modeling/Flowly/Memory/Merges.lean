/-
  Flowly.Memory.Merges — what `merge_entities` does to the facts and the names of the graph.

  Proved (`merge_lossless_iff`): a merge renames the source to the target in every fact, loses
  none and leaves every name with an entity, just where no plain value is the text of the
  source's id and no two facts that come out the same but for their start have different starts.
  The objects are renamed whatever the predicate is, and the rows that are there twice are
  grouped without their start. The names come through in any case (`names_moveAll`).
-/

import Flowly.Memory.KnowledgeGraph

namespace Flowly.Memory.KnowledgeGraph

open Flowly.Lib

structure Fact where
  subject : String
  predicate : String
  object : String
  validFrom : Option String
  validTo : Option String
  deriving DecidableEq

def Triple.toFact (r : Triple) : Fact := ⟨r.subject, r.predicate, r.object, r.validFrom, r.validTo⟩

def Fact.rename (source target : String) (f : Fact) : Fact :=
  { f with
    subject := if f.subject = source then target else f.subject
    object := if f.predicate ∉ VALUE_PREDICATES ∧ f.object = source then target else f.object }

namespace Graph

def facts (g : Graph) : List Fact := g.triples.rows.map Triple.toFact

/-- The facts and the names after a merge are those before it, with the target for the source. -/
structure Merged (lower : String → String) (g g' : Graph) (source target : String) : Prop where
  facts : ∀ f, f ∈ g'.facts ↔ ∃ f₀ ∈ g.facts, f₀.rename source target = f
  names : ∀ name e, g.resolveEntity lower name = some e →
    ∃ e', g'.resolveEntity lower name = some e' ∧ e'.id = if e.id = source then target else e.id

structure Mergeable (g : Graph) (source target : String) : Prop where
  values : ∀ r ∈ g.triples, r.predicate ∈ VALUE_PREDICATES → r.object ≠ source
  starts : ∀ r ∈ g.triples, ∀ r' ∈ g.triples, (r.rename source target).fact = (r'.rename source target).fact →
    r.validTo = r'.validTo → r.validFrom = r'.validFrom

variable {lower : String → String} {g : Graph} {source target : String}

theorem mem_facts {f : Fact} : f ∈ g.facts ↔ ∃ r ∈ g.triples, r.toFact = f := List.mem_map

/-- The triples after a merge are renamed ones. -/
theorem mem_moveAll {r : Triple} (h : r ∈ (g.moveAll source target).triples) : ∃ r₀ ∈ g.triples, r₀.rename source target = r :=
  (Table.mem_update (Triple.rename_id source target)).1 (Table.mem_of_mem_distinct h)

/-- One of the renamed triples that say the same until the same time is left. -/
theorem exists_moveAll {r₀ : Triple} (h : r₀ ∈ g.triples) : ∃ r ∈ (g.moveAll source target).triples,
    r.fact = (r₀.rename source target).fact ∧ r.validTo = r₀.validTo := by
  obtain ⟨r, hr, heq⟩ := Table.exists_mem_distinct (g := fun r : Triple => (r.fact, r.validTo))
    ((Table.mem_update (Triple.rename_id source target)).2 ⟨r₀, h, rfl⟩)
  exact ⟨r, hr, congrArg Prod.fst heq, congrArg Prod.snd heq⟩

theorem eq_of_moveAll {r r' : Triple} (h : r ∈ (g.moveAll source target).triples) (h' : r' ∈ (g.moveAll source target).triples)
    (hfact : r.fact = r'.fact) (hend : r.validTo = r'.validTo) : r = r' :=
  Table.eq_of_mem_distinct h h' (Prod.ext hfact hend)

theorem toFact_rename {r : Triple} (h : r.predicate ∈ VALUE_PREDICATES → r.object ≠ source) :
    (r.rename source target).toFact = r.toFact.rename source target := by
  have hiff : r.predicate ∉ VALUE_PREDICATES ∧ r.object = source ↔ r.object = source :=
    ⟨And.right, fun hobj => ⟨fun hpred => h hpred hobj, hobj⟩⟩
  unfold Triple.rename Triple.toFact Fact.rename
  rw [if_congr hiff rfl rfl]

theorem toFact_eq {r r' : Triple} (hfact : r.fact = r'.fact) (hfrom : r.validFrom = r'.validFrom) (hend : r.validTo = r'.validTo) :
    r.toFact = r'.toFact := by
  obtain ⟨hs, hpo⟩ := Prod.mk.inj hfact
  obtain ⟨hp, ho⟩ := Prod.mk.inj hpo
  simp only [Triple.toFact, hs, hp, ho, hfrom, hend]

/-! ## Names -/

/-- A name keeps its entity, or has the target for the source. -/
theorem names_moveAll {s t : Entity} (hs : s ∈ g.entities) (ht : t ∈ g.entities) (hne : s.id ≠ t.id) {name : String} {e : Entity}
    (h : g.resolveEntity lower name = some e) : ∃ e', (g.moveAll s.id t.id).resolveEntity lower name = some e' ∧
      e'.id = if e.id = s.id then t.id else e.id := by
  have hentity : ∀ e ∈ g.entities, e.id ≠ s.id → (g.moveAll s.id t.id).entities.get? e.id = some e := fun e he hid =>
    Table.get?_eq_some_iff.2 ⟨Table.mem_keep.2 ⟨he, decide_eq_true hid⟩, rfl⟩
  have htarget := hentity t ht (Ne.symm hne)
  have hgone : ∀ id, g.entities.get? id = none ∨ id = s.id → (g.moveAll s.id t.id).entities.get? id = none := by
    rintro id hid
    refine Table.get?_eq_none_iff.2 fun e he heq => ?_
    obtain ⟨hin, hkept⟩ := Table.mem_keep.1 he
    rcases hid with hnone | rfl
    · exact Table.get?_eq_none_iff.1 hnone e hin heq
    · exact of_decide_eq_true hkept heq
  have halias : ∀ a ∈ g.aliases.insertOrReplace ⟨s.id, t.id⟩,
      (g.moveAll s.id t.id).aliases.get? a.alias_ = some (a.move s.id t.id) := fun a ha =>
    Table.get?_eq_some_iff.2 ⟨(Table.mem_update (Alias.move_alias_ s.id t.id)).2 ⟨a, ha, rfl⟩, Alias.move_alias_ s.id t.id a⟩
  unfold resolveEntity resolveId at h ⊢
  generalize normalizeId lower name = id at h ⊢
  split at h
  · next hget =>
    cases h
    obtain ⟨he, rfl⟩ := Table.get?_eq_some_iff.1 hget
    by_cases hid : e.id = s.id
    · refine ⟨t, ?_, (if_pos hid).symm⟩
      have hmoved : (Alias.mk s.id t.id).move s.id t.id = ⟨s.id, t.id⟩ := if_neg (Ne.symm hne)
      have hself := halias ⟨s.id, t.id⟩ (Table.mem_insertOrReplace.2 (.inr rfl))
      rw [hid, hgone s.id (.inr rfl)]
      rw [hmoved] at hself
      exact Option.bind_eq_some_iff.2 ⟨_, hself, htarget⟩
    · exact ⟨e, by rw [hentity e he hid], (if_neg hid).symm⟩
  · next hnone =>
    obtain ⟨a, ha, hget⟩ := Option.bind_eq_some_iff.1 h
    obtain ⟨hin, rfl⟩ := Table.get?_eq_some_iff.1 ha
    obtain ⟨he, hid⟩ := Table.get?_eq_some_iff.1 hget
    have hother : a.alias_ ≠ s.id := fun heq => Table.get?_eq_none_iff.1 hnone s hs heq.symm
    have hmoved := halias a (Table.mem_insertOrReplace.2 (.inl ⟨hin, hother⟩))
    rw [hgone _ (.inl hnone)]
    by_cases hsource : a.canonicalId = s.id
    · rw [Alias.move, if_pos hsource] at hmoved
      exact ⟨t, Option.bind_eq_some_iff.2 ⟨_, hmoved, htarget⟩, by rw [if_pos (hid.trans hsource)]⟩
    · rw [Alias.move, if_neg hsource] at hmoved
      have hentity := hentity e he (hid.trans_ne hsource)
      rw [hid] at hentity
      exact ⟨e, Option.bind_eq_some_iff.2 ⟨_, hmoved, hentity⟩, by rw [if_neg (hid.trans_ne hsource)]⟩

/-! ## Facts -/

theorem Mergeable.facts (h : g.Mergeable source target) (f : Fact) :
    f ∈ (g.moveAll source target).facts ↔ ∃ f₀ ∈ g.facts, f₀.rename source target = f := by
  constructor
  · intro hf
    obtain ⟨r, hr, rfl⟩ := mem_facts.1 hf
    obtain ⟨r₀, hr₀, rfl⟩ := mem_moveAll hr
    exact ⟨r₀.toFact, mem_facts.2 ⟨r₀, hr₀, rfl⟩, (toFact_rename (h.values r₀ hr₀)).symm⟩
  · rintro ⟨_, hf₀, rfl⟩
    obtain ⟨r₀, hr₀, rfl⟩ := mem_facts.1 hf₀
    obtain ⟨r, hr, hfact, hend⟩ := exists_moveAll hr₀
    obtain ⟨r₁, hr₁, rfl⟩ := mem_moveAll hr
    have hfrom := h.starts r₁ hr₁ r₀ hr₀ hfact hend
    refine mem_facts.2 ⟨_, hr, ?_⟩
    rw [← toFact_rename (h.values r₀ hr₀)]
    exact toFact_eq hfact hfrom hend

theorem Mergeable.of_facts (hne : target ≠ source)
    (h : ∀ f₀ ∈ g.facts, f₀.rename source target ∈ (g.moveAll source target).facts) : g.Mergeable source target := by
  have hvalues : ∀ r ∈ g.triples, r.predicate ∈ VALUE_PREDICATES → r.object ≠ source := by
    intro r hr hpred hobj
    obtain ⟨q, hq, heq⟩ := mem_facts.1 (h _ (mem_facts.2 ⟨r, hr, rfl⟩))
    obtain ⟨q₀, -, rfl⟩ := mem_moveAll hq
    have hobject : (q₀.rename source target).object = source :=
      calc (q₀.rename source target).object = (r.toFact.rename source target).object := congrArg Fact.object heq
        _ = r.object := if_neg fun hp => hp.1 hpred
        _ = source := hobj
    by_cases hq₀ : q₀.object = source
    · exact hne ((if_pos hq₀).symm.trans hobject)
    · exact hq₀ ((if_neg hq₀).symm.trans hobject)
  refine ⟨hvalues, fun r hr r' hr' hfact hend => ?_⟩
  have hleft : ∀ r ∈ g.triples, ∃ q ∈ (g.moveAll source target).triples, q.toFact = (r.rename source target).toFact := fun r hr => by
    rw [toFact_rename (hvalues r hr)]
    exact mem_facts.1 (h _ (mem_facts.2 ⟨r, hr, rfl⟩))
  obtain ⟨q, hq, heq⟩ := hleft r hr
  obtain ⟨q', hq', heq'⟩ := hleft r' hr'
  have hsame : q = q' := by
    refine eq_of_moveAll hq hq' ?_ ?_
    · exact (fact_eq heq).trans (hfact.trans (fact_eq heq').symm)
    · exact (congrArg Fact.validTo heq).trans (hend.trans (congrArg Fact.validTo heq').symm)
  calc r.validFrom = q.validFrom := (congrArg Fact.validFrom heq).symm
    _ = q'.validFrom := by rw [hsame]
    _ = r'.validFrom := congrArg Fact.validFrom heq'
where
  fact_eq {r r' : Triple} (h : r.toFact = r'.toFact) : r.fact = r'.fact :=
    Prod.ext (congrArg Fact.subject h) (Prod.ext (congrArg Fact.predicate h) (congrArg Fact.object h))

/-- A merge loses no fact and changes no value just where no value is the source's id, and no facts that come out the same
have different starts. -/
theorem merge_lossless_iff {sourceName targetName : String} {s t : Entity} (hs : g.resolveEntity lower sourceName = some s)
    (ht : g.resolveEntity lower targetName = some t) (hne : s.id ≠ t.id) :
    Merged lower g (g.mergeEntities lower sourceName targetName).1 s.id t.id ↔ g.Mergeable s.id t.id := by
  have hmerge : (g.mergeEntities lower sourceName targetName).1 = g.moveAll s.id t.id := by
    rw [mergeEntities, hs, ht]
    exact congrArg Prod.fst (if_neg hne)
  rw [hmerge]
  constructor
  · exact fun h => .of_facts (Ne.symm hne) fun f₀ hf₀ => (h.facts _).2 ⟨f₀, hf₀, rfl⟩
  · exact fun h => ⟨h.facts, fun name e he => names_moveAll (resolveId_mem hs) (resolveId_mem ht) hne he⟩

end Graph

namespace Sample

/-- `str.lower` on what is lower case. -/
def plain (s : String) : String := s

def entity (id : String) : Entity := ⟨id, id, "person", "\x7b\x7d"⟩

/-- Two persons, and a note on one of them that has one word. -/
def noted : Graph where
  entities := ⟨[entity "jo", entity "joanna"], by decide⟩
  triples := ⟨[⟨"t_joanna_note_jo_11111111", "joanna", "note", "jo", none, none, 1, "agent"⟩], by decide⟩
  aliases := .empty

/-- The note is renamed with the person. -/
theorem note_renamed : ¬ ∀ (g : Graph) (sourceName targetName : String) (s t : Entity), g.resolveEntity plain sourceName = some s →
    g.resolveEntity plain targetName = some t → s.id ≠ t.id →
    Graph.Merged plain g (g.mergeEntities plain sourceName targetName).1 s.id t.id := by
  intro h
  have hkept : (⟨"joanna", "note", "jo", none, none⟩ : Fact) ∈ (noted.mergeEntities plain "jo" "joanna").1.facts :=
    ((h noted "jo" "joanna" (entity "jo") (entity "joanna") (by decide) (by decide) (by decide)).facts _).2 ⟨_, List.mem_cons_self, rfl⟩
  revert hkept
  decide

def employed : Graph where
  entities := ⟨[entity "jo", entity "joanna", entity "acme"], by decide⟩
  triples := ⟨[⟨"t_jo_works_at_acme_11111111", "jo", "works_at", "acme", none, none, 1, "agent"⟩], by decide⟩
  aliases := ⟨[⟨"jojo", "jo"⟩], by decide⟩

theorem merge_lossless_iff_employed :
    Graph.Merged plain employed (employed.mergeEntities plain "jo" "joanna").1 "jo" "joanna" ↔ employed.Mergeable "jo" "joanna" :=
  Graph.merge_lossless_iff (s := entity "jo") (t := entity "joanna") (by decide) (by decide) (by decide)

end Sample

end Flowly.Memory.KnowledgeGraph
