/-
  Flowly.Memory.KnowledgeGraph — the graph of facts (`flowly/memory/knowledge_graph.py`:
  `resolve_entity`, `add_entity`, `add_alias`, `add_triple`, `invalidate_triples`,
  `merge_entities`; `flowly/memory/kg_mirror.py`: `supersede`, `restore`).

  Three tables, each with its primary key. An operation is one transaction; what it inserts
  under an id that is taken makes it fail, and nothing of it stays. `lower` is Python's
  `str.lower`. What the clock and the hash give comes with the operation: the end of the id of a
  new triple, and today's date.
-/

import Flowly.Lib.Table
import Flowly.Lib.Text
import Mathlib.Data.Rat.Init
import Mathlib.Data.String.Basic

namespace Flowly.Memory.KnowledgeGraph

open Flowly.Lib

def VALUE_PREDICATES : List String :=
  ["email", "phone", "url", "website", "address", "location", "birthday", "age", "role", "title", "salary", "note"]

/-! ## Tables -/

structure Entity where
  id : String
  name : String
  type : String
  properties : String
  deriving DecidableEq

structure Triple where
  id : String
  subject : String
  predicate : String
  object : String
  validFrom : Option String
  /-- A triple without an end is current. -/
  validTo : Option String
  confidence : Rat
  source : String
  deriving DecidableEq

structure Alias where
  alias_ : String
  canonicalId : String

structure Graph where
  entities : Table Entity.id
  triples : Table Triple.id
  aliases : Table Alias.alias_

def Graph.empty : Graph := ⟨.empty, .empty, .empty⟩

/-! ## Names -/

section Names

variable (lower : String → String)

def normalizeId (name : String) : String :=
  String.ofList (Text.replace (Text.replace (Text.strip (lower name).toList) [' '] ['_']) "'".toList [])

def normalizePredicate (predicate : String) : String :=
  String.ofList (Text.replace (Text.strip (lower predicate).toList) [' '] ['_'])

def strip (name : String) : String := String.ofList (Text.strip name.toList)

namespace Graph

variable (g : Graph)

/-- The entity that an id stands for: its own, or that of an alias. -/
def resolveId (id : String) : Option Entity :=
  match g.entities.get? id with
  | some e => some e
  | none => (g.aliases.get? id).bind fun a => g.entities.get? a.canonicalId

variable {g} in
theorem resolveId_mem {id : String} {e : Entity} (h : g.resolveId id = some e) : e ∈ g.entities := by
  unfold resolveId at h
  split at h
  · next hget =>
    cases h
    exact (Table.get?_eq_some_iff.1 hget).1
  · obtain ⟨a, -, hget⟩ := Option.bind_eq_some_iff.1 h
    exact (Table.get?_eq_some_iff.1 hget).1

def resolveEntity (name : String) : Option Entity := g.resolveId (normalizeId lower name)

def idOf (name : String) : String := ((g.resolveEntity lower name).map (·.id)).getD (normalizeId lower name)

def objectId (pred obj : String) : String := if pred ∈ VALUE_PREDICATES then normalizeId lower obj else g.idOf lower obj

end Graph

end Names

/-! ## Operations -/

namespace Entity

def setType (id type : String) (e : Entity) : Entity := if e.id = id ∧ e.type = "unknown" then { e with type } else e

def setProperties (id properties : String) (e : Entity) : Entity := if e.id = id then { e with properties } else e

@[simp] theorem setType_id (id type : String) (e : Entity) : (setType id type e).id = e.id := by
  unfold setType
  split <;> rfl

@[simp] theorem setProperties_id (id properties : String) (e : Entity) : (setProperties id properties e).id = e.id := by
  unfold setProperties
  split <;> rfl

end Entity

namespace Triple

def fact (r : Triple) : String × String × String := (r.subject, r.predicate, r.object)

def close (p : Triple → Bool) (ended : String) (r : Triple) : Triple :=
  if p r ∧ r.validTo = none then { r with validTo := some ended } else r

def reopen (id : String) (r : Triple) : Triple := if r.id = id then { r with validTo := none } else r

def rename (source target : String) (r : Triple) : Triple :=
  { r with
    subject := if r.subject = source then target else r.subject
    object := if r.object = source then target else r.object }

@[simp] theorem close_id (p : Triple → Bool) (ended : String) (r : Triple) : (close p ended r).id = r.id := by
  unfold close
  split <;> rfl

@[simp] theorem reopen_id (id : String) (r : Triple) : (reopen id r).id = r.id := by
  unfold reopen
  split <;> rfl

end Triple

@[simp] theorem Triple.rename_id (source target : String) (r : Triple) : (r.rename source target).id = r.id := rfl

def Alias.move (source target : String) (a : Alias) : Alias := if a.canonicalId = source then { a with canonicalId := target } else a

@[simp] theorem Alias.move_alias_ (source target : String) (a : Alias) : (a.move source target).alias_ = a.alias_ := by
  unfold Alias.move
  split <;> rfl

/-- What `add_triple` is called with besides the fact. -/
structure Details where
  validFrom : Option String := none
  validTo : Option String := none
  confidence : Rat := 1
  source : String := "agent"
  subjectType : String := ""
  objectType : String := ""

namespace Graph

variable (lower : String → String) (g : Graph)

def setType (id type : String) : Graph := { g with entities := g.entities.update (.setType id type) (Entity.setType_id id type) }

def setProperties (id : String) : Option String → Graph
  | some p => { g with entities := g.entities.update (.setProperties id p) (Entity.setProperties_id id p) }
  | none => g

def addEntity (name type : String) (properties : Option String) : Graph × String :=
  match g.resolveEntity lower name with
  | some e => ((if type ≠ "unknown" then g.setType e.id type else g).setProperties e.id properties, e.id)
  | none =>
    let id := normalizeId lower name
    ({ g with entities := g.entities.insertOrReplace ⟨id, strip name, type, properties.getD "\x7b\x7d"⟩ }, id)

def addAlias (alias_ canonicalName : String) : Graph × Bool :=
  match g.resolveEntity lower canonicalName with
  | none => (g, false)
  | some e => ({ g with aliases := g.aliases.insertOrReplace ⟨normalizeId lower alias_, e.id⟩ }, true)

/-- The entity of a subject or an object is made where it is not known, and its type set where that is not. -/
def ensure (name type : String) : Graph :=
  match g.resolveEntity lower name with
  | some e => if type ≠ "" ∧ type ≠ "unknown" then g.setType e.id type else g
  | none =>
    let e : Entity := ⟨normalizeId lower name, strip name, if type = "" then "unknown" else type, "\x7b\x7d"⟩
    { g with entities := g.entities.insertOrIgnore e }

/-- The current triples of a fact. -/
def current (fact : String × String × String) (r : Triple) : Bool := r.fact = fact ∧ r.validTo = none

def addTriple (subject predicate obj : String) (d : Details) (digest : String) : Option (Graph × String) :=
  let pred := normalizePredicate lower predicate
  let subId := g.idOf lower subject
  let g := g.ensure lower subject d.subjectType
  let objId := g.objectId lower pred obj
  let g := if pred ∈ VALUE_PREDICATES then g else g.ensure lower obj d.objectType
  match g.triples.rows.find? (current (subId, pred, objId)) with
  | some r => some (g, r.id)
  | none =>
    let id := "t_" ++ subId ++ "_" ++ pred ++ "_" ++ String.ofList (objId.toList.take 20) ++ "_" ++ digest
    (g.triples.insert ⟨id, subId, pred, objId, d.validFrom, d.validTo, d.confidence, d.source⟩).map fun triples => ({ g with triples }, id)

/-- `ended or date.today()`. -/
def endOf (ended : Option String) (today : String) : String := if ended = some "" then today else ended.getD today

/-- The fact that `invalidate_triples` closes. -/
def factOf (subject predicate obj : String) : String × String × String :=
  let pred := normalizePredicate lower predicate
  (g.idOf lower subject, pred, g.objectId lower pred obj)

def closeWhere (p : Triple → Bool) (ended : String) : Graph :=
  { g with triples := g.triples.update (.close p ended) (Triple.close_id p ended) }

def invalidateTriples (subject predicate obj : String) (ended : Option String) (today : String) : Graph × List String :=
  let fact := g.factOf lower subject predicate obj
  (g.closeWhere (·.fact = fact) (endOf ended today), (g.triples.rows.filter (current fact)).map (·.id))

/-- What a merge does to the tables, in their order: triples, aliases, entities, and the triples that are there twice. -/
def moveAll (source target : String) : Graph where
  triples := (g.triples.update (.rename source target) (Triple.rename_id source target)).distinct fun r => (r.fact, r.validTo)
  aliases := (g.aliases.insertOrReplace ⟨source, target⟩).update (.move source target) (Alias.move_alias_ source target)
  entities := g.entities.keep (·.id ≠ source)

def mergeEntities (sourceName targetName : String) : Graph × Bool :=
  match g.resolveEntity lower sourceName, g.resolveEntity lower targetName with
  | some source, some target => if source.id = target.id then (g, true) else (g.moveAll source.id target.id, true)
  | _, _ => (g, false)

def supersede (tripleId : String) (ended : Option String) (today : String) : Graph :=
  g.closeWhere (·.id = tripleId) (endOf ended today)

def restore (tripleId : String) : Graph := { g with triples := g.triples.update (.reopen tripleId) (Triple.reopen_id tripleId) }

end Graph

/-! ## Runs -/

inductive Op where
  | addEntity (name type : String) (properties : Option String)
  | addAlias (alias_ canonicalName : String)
  | addTriple (subject predicate obj : String) (details : Details) (digest : String)
  | invalidateTriples (subject predicate obj : String) (ended : Option String) (today : String)
  | mergeEntities (sourceName targetName : String)
  | supersede (tripleId : String) (ended : Option String) (today : String)
  | restore (tripleId : String)

/-- What an operation leaves; one that fails leaves what was there. -/
def Graph.next (lower : String → String) (g : Graph) : Op → Graph
  | .addEntity name type properties => (g.addEntity lower name type properties).1
  | .addAlias alias_ canonicalName => (g.addAlias lower alias_ canonicalName).1
  | .addTriple subject predicate obj details digest => ((g.addTriple lower subject predicate obj details digest).map (·.1)).getD g
  | .invalidateTriples subject predicate obj ended today => (g.invalidateTriples lower subject predicate obj ended today).1
  | .mergeEntities sourceName targetName => (g.mergeEntities lower sourceName targetName).1
  | .supersede tripleId ended today => g.supersede tripleId ended today
  | .restore tripleId => g.restore tripleId

end Flowly.Memory.KnowledgeGraph
