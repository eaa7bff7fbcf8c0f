import Veda.Lib.LastWriter
import Veda.Onto.Hierarchy

set_option autoImplicit false

/-!
# The routing of individuals to databases and indexes

A class index names classes, properties and a database. It is written for its classes and for all
classes below of them: under a class its database, and under a class and a property the index. A later
class index overwrites an earlier one.

## Main definitions

* `Xapian.IndexerSchema` — the schema, with `addSchemaData`, `getDbnameOfClass` and
  `getIndexIdOfUriAndProperty`.
* `Xapian.SameRouting` — two schemas give the same answers.
* `Xapian.OrderFree` — the answers do not depend on the order of the class indexes.
* `Xapian.IndexesAgree` — the condition on the class indexes.

## Main results

* `Xapian.lookup_database_load`, `Xapian.lookup_index_load` — what the class indexes leave.
* `Xapian.orderFree_iff` — when the order does not matter.

## Design

A class index whose classes have nothing below of them is also written for the empty text, which is
not a class; so answers are compared for names that are not empty.
-/

namespace Veda.Xapian

open Veda.Lib Veda.Onto Relation

structure IndexerSchema where
  classProperty2Id : HashMap String String
  class2Database : HashMap String String
  id2Individual : HashMap String IndividualObj
  database2True : HashMap String Bool

/-- The key of a class and a property. -/
def propertyKey (id predicate : String) : String := id ++ "+" ++ predicate

namespace IndexerSchema

/-- `IndexerSchema::default`. -/
def empty : IndexerSchema := ⟨∅, ∅, ∅, ∅⟩

def getDbnameOfClass (schema : IndexerSchema) (id : String) : String :=
  (schema.class2Database.lookup id).getD "base"

def getIndexIdOfUriAndProperty (schema : IndexerSchema) (id predicate : String) : Option String :=
  schema.classProperty2Id.lookup (propertyKey id predicate)

/-- The database of a class, when the class index names one. -/
def insertDatabase (schema : IndexerSchema) (indexedTo : List String) (id : String) :
    IndexerSchema :=
  match indexedTo.head? with
  | some i =>
    { schema with
      class2Database := schema.class2Database.insert id i
      database2True := schema.database2True.insert i true }
  | none => schema

/-- The index of a class and each of the properties. -/
def insertIndexes (schema : IndexerSchema) (uri : String) (forProperties : List String)
    (id : String) : IndexerSchema :=
  forProperties.foldl (fun schema forProperty =>
    { schema with
      classProperty2Id := schema.classProperty2Id.insert (propertyKey id forProperty) uri }) schema

/-- The classes below of a class, or the empty text. -/
def subClasses (π : IterOrder String) (onto : Onto) (forClass : String) : List String :=
  let subClasses := onto.getSubs π forClass []
  if subClasses.isEmpty then [""] else subClasses

/-- One of the classes that a class index names. -/
def addClass (π : IterOrder String) (onto : Onto) (uri : String)
    (forProperties indexedTo : List String) (schema : IndexerSchema) (forClass : String) :
    IndexerSchema :=
  let schema := schema.insertDatabase indexedTo forClass
  let schema := (π.order (subClasses π onto forClass)).foldl (fun schema subClass =>
    (schema.insertDatabase indexedTo subClass).insertIndexes uri forProperties subClass) schema
  schema.insertIndexes uri forProperties forClass

def addSchemaData (π : IterOrder String) (onto : Onto) (schema : IndexerSchema)
    (indv : IndividualObj) : IndexerSchema :=
  let schema := { schema with id2Individual := schema.id2Individual.insert indv.uri indv }
  let forClasses := (indv.getLiterals "vdi:forClass").getD []
  let forProperties := (indv.getLiterals "vdi:forProperty").getD []
  let indexedTo := (indv.getLiterals "vdi:indexed_to").getD []
  forClasses.foldl (addClass π onto indv.uri forProperties indexedTo) schema

/-- Class indexes are added one after another. -/
def load (π : IterOrder String) (onto : Onto) (indvs : List IndividualObj) : IndexerSchema :=
  indvs.foldl (addSchemaData π onto) empty

end IndexerSchema

/-! ## Routing -/

/-- The names that come with a class: the class, the classes below of it, and the empty text when
there are none. -/
def CoversClass (onto : Onto) (forClass id : String) : Prop :=
  id = forClass ∨ TransGen onto.IsSub forClass id ∨
    id = "" ∧ ∀ x, ¬ TransGen onto.IsSub forClass x

/-- A class index is written for a name. -/
def Covers (onto : Onto) (indv : IndividualObj) (id : String) : Prop :=
  ∃ forClass ∈ (indv.getLiterals "vdi:forClass").getD [], CoversClass onto forClass id

/-- The database of a class index. -/
def databaseOf (indv : IndividualObj) : Option String :=
  ((indv.getLiterals "vdi:indexed_to").getD []).head?

/-- A class index is written under the key of a class and a property. -/
def CoversKey (onto : Onto) (indv : IndividualObj) (key : String) : Prop :=
  ∃ id, Covers onto indv id ∧
    ∃ forProperty ∈ (indv.getLiterals "vdi:forProperty").getD [], propertyKey id forProperty = key

/-- Two schemas give the same answers for all classes and properties. -/
def SameRouting (schema schema' : IndexerSchema) : Prop :=
  ∀ id, id ≠ "" → schema.getDbnameOfClass id = schema'.getDbnameOfClass id ∧
    ∀ predicate, schema.getIndexIdOfUriAndProperty id predicate =
      schema'.getIndexIdOfUriAndProperty id predicate

/-- The answers do not depend on the order in which the class indexes are added. -/
def OrderFree (onto : Onto) (indvs : List IndividualObj) : Prop :=
  ∀ (π π' : IterOrder String) (l l' : List IndividualObj), l.Perm indvs → l'.Perm indvs →
    SameRouting (.load π onto l) (.load π' onto l')

/-- The condition on the class indexes: two that are written for one class name the same database,
and no two are written under the key of one class and property. -/
structure IndexesAgree (onto : Onto) (indvs : List IndividualObj) : Prop where
  database : ∀ indv ∈ indvs, ∀ indv' ∈ indvs, ∀ id, id ≠ "" → Covers onto indv id →
    Covers onto indv' id → ∀ db db', databaseOf indv = some db → databaseOf indv' = some db' →
      db = db'
  index : ∀ indv ∈ indvs, ∀ indv' ∈ indvs, ∀ id predicate, id ≠ "" →
    CoversKey onto indv (propertyKey id predicate) →
    CoversKey onto indv' (propertyKey id predicate) → indv.uri = indv'.uri

/-! ## What a class index leaves -/

namespace IndexerSchema

variable {π : IterOrder String} {onto : Onto} {schema : IndexerSchema} {uri : String}
  {forProperties indexedTo : List String}

theorem mem_subClasses (π : IterOrder String) (onto : Onto) (forClass id : String) :
    id ∈ subClasses π onto forClass ↔ TransGen onto.IsSub forClass id ∨
      id = "" ∧ ∀ x, ¬ TransGen onto.IsSub forClass x := by
  simp only [← Onto.mem_getSubs π, subClasses]
  split_ifs with hempty
  · rw [List.isEmpty_iff] at hempty
    simp [hempty]
  · obtain ⟨x, hx⟩ := List.exists_mem_of_ne_nil _ (mt List.isEmpty_iff.mpr hempty)
    exact ⟨.inl, fun h => h.resolve_right fun hnone => hnone.2 x hx⟩

theorem coversClass_iff (π : IterOrder String) (onto : Onto) (forClass id : String) :
    CoversClass onto forClass id ↔ id = forClass ∨ id ∈ subClasses π onto forClass := by
  rw [mem_subClasses, CoversClass]

theorem lookup_database_insertDatabase (schema : IndexerSchema) (indexedTo : List String)
    (id c : String) :
    (schema.insertDatabase indexedTo id).class2Database.lookup c =
      (if c = id then indexedTo.head? else none).or (schema.class2Database.lookup c) := by
  unfold insertDatabase
  cases indexedTo.head? with
  | none => split_ifs <;> rfl
  | some i =>
    dsimp only
    split_ifs with h
    · rw [h, AList.lookup_insert, Option.some_or]
    · rw [AList.lookup_insert_ne h, Option.none_or]

@[simp] theorem classProperty2Id_insertDatabase (schema : IndexerSchema)
    (indexedTo : List String) (id : String) :
    (schema.insertDatabase indexedTo id).classProperty2Id = schema.classProperty2Id := by
  unfold insertDatabase
  cases indexedTo.head? <;> rfl

theorem lookup_index_insertIndexes (schema : IndexerSchema) (uri : String)
    (forProperties : List String) (id key : String) :
    (schema.insertIndexes uri forProperties id).classProperty2Id.lookup key =
      (if ∃ p ∈ forProperties, propertyKey id p = key then some uri else none).or
        (schema.classProperty2Id.lookup key) := by
  rw [insertIndexes, foldl_lastWritten (fun s : IndexerSchema => s.classProperty2Id.lookup key) _
    (fun s p => ?_), lastWritten_eq_ite (fun p => propertyKey id p = key)]
  dsimp only
  split_ifs with h
  · rw [h, AList.lookup_insert, Option.some_or]
  · rw [AList.lookup_insert_ne (Ne.symm h), Option.none_or]

@[simp] theorem class2Database_insertIndexes (schema : IndexerSchema) (uri : String)
    (forProperties : List String) (id : String) :
    (schema.insertIndexes uri forProperties id).class2Database = schema.class2Database := by
  unfold insertIndexes
  induction forProperties generalizing schema with
  | nil => rfl
  | cons p ps ih => exact ih _

theorem lookup_database_addClass (π : IterOrder String) (onto : Onto) (uri : String)
    (forProperties indexedTo : List String) (schema : IndexerSchema) (forClass id : String)
    [Decidable (CoversClass onto forClass id)] :
    (schema.addClass π onto uri forProperties indexedTo forClass).class2Database.lookup id =
      (if CoversClass onto forClass id then indexedTo.head? else none).or
        (schema.class2Database.lookup id) := by
  unfold addClass
  dsimp only
  rw [class2Database_insertIndexes,
    foldl_lastWritten (fun s : IndexerSchema => s.class2Database.lookup id) _ (fun s c => by
      rw [class2Database_insertIndexes, lookup_database_insertDatabase]),
    lastWritten_eq_ite (fun c => id = c), lookup_database_insertDatabase, ← Option.or_assoc,
    or_ite_none]
  congr 1
  refine if_congr ?_ rfl rfl
  rw [coversClass_iff π, ← (π.perm _).mem_iff]
  simp [or_comm]

theorem lookup_index_addClass (π : IterOrder String) (onto : Onto) (uri : String)
    (forProperties indexedTo : List String) (schema : IndexerSchema) (forClass key : String)
    [Decidable (∃ id, CoversClass onto forClass id ∧ ∃ p ∈ forProperties, propertyKey id p = key)] :
    (schema.addClass π onto uri forProperties indexedTo forClass).classProperty2Id.lookup key =
      (if ∃ id, CoversClass onto forClass id ∧ ∃ p ∈ forProperties, propertyKey id p = key
        then some uri else none).or (schema.classProperty2Id.lookup key) := by
  unfold addClass
  dsimp only
  rw [lookup_index_insertIndexes,
    foldl_lastWritten (fun s : IndexerSchema => s.classProperty2Id.lookup key) _ (fun s c => by
      rw [lookup_index_insertIndexes, classProperty2Id_insertDatabase]),
    lastWritten_eq_ite (fun c => ∃ p ∈ forProperties, propertyKey c p = key),
    classProperty2Id_insertDatabase, ← Option.or_assoc, or_ite_none]
  congr 1
  refine if_congr ?_ rfl rfl
  simp only [coversClass_iff π, (π.perm _).mem_iff]
  constructor
  · rintro (h | ⟨id, hid, h⟩)
    · exact ⟨forClass, .inl rfl, h⟩
    · exact ⟨id, .inr hid, h⟩
  · rintro ⟨id, rfl | hid, h⟩
    · exact .inl h
    · exact .inr ⟨id, hid, h⟩

end IndexerSchema

/-! ## What all class indexes leave -/

section Load

variable {π : IterOrder String} {onto : Onto} {indvs l : List IndividualObj}

open Classical in
/-- What a class index writes under a class. -/
noncomputable def writtenDatabase (onto : Onto) (id : String) (indv : IndividualObj) :
    Option String :=
  if Covers onto indv id then databaseOf indv else none

open Classical in
/-- What a class index writes under the key of a class and a property. -/
noncomputable def writtenIndex (onto : Onto) (key : String) (indv : IndividualObj) :
    Option String :=
  if CoversKey onto indv key then some indv.uri else none

theorem lookup_database_addSchemaData (π : IterOrder String) (onto : Onto)
    (schema : IndexerSchema) (indv : IndividualObj) (id : String) :
    (schema.addSchemaData π onto indv).class2Database.lookup id =
      (writtenDatabase onto id indv).or (schema.class2Database.lookup id) := by
  classical
  unfold IndexerSchema.addSchemaData
  dsimp only
  rw [foldl_lastWritten (fun s : IndexerSchema => s.class2Database.lookup id) _ (fun s c =>
      IndexerSchema.lookup_database_addClass π onto _ _ _ s c id),
    lastWritten_eq_ite (fun c => CoversClass onto c id)]
  congr 1
  exact if_congr Iff.rfl rfl rfl

theorem lookup_index_addSchemaData (π : IterOrder String) (onto : Onto)
    (schema : IndexerSchema) (indv : IndividualObj) (key : String) :
    (schema.addSchemaData π onto indv).classProperty2Id.lookup key =
      (writtenIndex onto key indv).or (schema.classProperty2Id.lookup key) := by
  classical
  unfold IndexerSchema.addSchemaData
  dsimp only
  rw [foldl_lastWritten (fun s : IndexerSchema => s.classProperty2Id.lookup key) _ (fun s c =>
      IndexerSchema.lookup_index_addClass π onto _ _ _ s c key),
    lastWritten_eq_ite (fun c => ∃ id, CoversClass onto c id ∧
      ∃ p ∈ (indv.getLiterals "vdi:forProperty").getD [], propertyKey id p = key)]
  congr 1
  refine if_congr ?_ rfl rfl
  constructor
  · rintro ⟨c, hc, id, hid, h⟩
    exact ⟨id, ⟨c, hc, hid⟩, h⟩
  · rintro ⟨id, ⟨c, hc, hid⟩, h⟩
    exact ⟨c, hc, id, hid, h⟩

theorem lookup_database_load (π : IterOrder String) (onto : Onto) (l : List IndividualObj)
    (id : String) :
    (IndexerSchema.load π onto l).class2Database.lookup id =
      lastWritten (writtenDatabase onto id) l := by
  rw [IndexerSchema.load, foldl_lastWritten
    (fun s : IndexerSchema => s.class2Database.lookup id) _
    (fun s indv => lookup_database_addSchemaData π onto s indv id)]
  exact Option.or_none

theorem lookup_index_load (π : IterOrder String) (onto : Onto) (l : List IndividualObj)
    (key : String) :
    (IndexerSchema.load π onto l).classProperty2Id.lookup key =
      lastWritten (writtenIndex onto key) l := by
  rw [IndexerSchema.load, foldl_lastWritten
    (fun s : IndexerSchema => s.classProperty2Id.lookup key) _
    (fun s indv => lookup_index_addSchemaData π onto s indv key)]
  exact Option.or_none

theorem writtenDatabase_eq_some {indv : IndividualObj} {id db : String} :
    writtenDatabase onto id indv = some db ↔ Covers onto indv id ∧ databaseOf indv = some db := by
  unfold writtenDatabase
  split_ifs with h <;> simp [h]

theorem writtenIndex_eq_some {indv : IndividualObj} {key uri : String} :
    writtenIndex onto key indv = some uri ↔ CoversKey onto indv key ∧ indv.uri = uri := by
  unfold writtenIndex
  split_ifs with h <;> simp [h]

/-- **Routing**: the order of the class indexes does not matter exactly when those that are written
for one class agree. -/
theorem orderFree_iff (onto : Onto) (indvs : List IndividualObj) :
    OrderFree onto indvs ↔ IndexesAgree onto indvs := by
  constructor
  · intro hfree
    constructor
    · intro indv hmem indv' hmem' id hid hcovers hcovers' db db' hdb hdb'
      obtain ⟨l, hl, hlast⟩ :=
        exists_perm_lastWritten hmem (writtenDatabase_eq_some.mpr ⟨hcovers, hdb⟩)
      obtain ⟨l', hl', hlast'⟩ :=
        exists_perm_lastWritten hmem' (writtenDatabase_eq_some.mpr ⟨hcovers', hdb'⟩)
      have hsame := (hfree (.stored String) (.stored String) l l' hl hl' id hid).1
      rwa [IndexerSchema.getDbnameOfClass, IndexerSchema.getDbnameOfClass, lookup_database_load,
        lookup_database_load, hlast, hlast'] at hsame
    · intro indv hmem indv' hmem' id predicate hid hcovers hcovers'
      obtain ⟨l, hl, hlast⟩ :=
        exists_perm_lastWritten hmem (writtenIndex_eq_some.mpr ⟨hcovers, rfl⟩)
      obtain ⟨l', hl', hlast'⟩ :=
        exists_perm_lastWritten hmem' (writtenIndex_eq_some.mpr ⟨hcovers', rfl⟩)
      have hsame := (hfree (.stored String) (.stored String) l l' hl hl' id hid).2 predicate
      rw [IndexerSchema.getIndexIdOfUriAndProperty, IndexerSchema.getIndexIdOfUriAndProperty,
        lookup_index_load, lookup_index_load, hlast, hlast'] at hsame
      exact Option.some.inj hsame
  · intro hagree π π' l l' hl hl' id hid
    constructor
    · rw [IndexerSchema.getDbnameOfClass, IndexerSchema.getDbnameOfClass, lookup_database_load,
        lookup_database_load, lastWritten_eq_of_perm hl hl']
      intro indv hmem indv' hmem' db db' hdb hdb'
      rw [writtenDatabase_eq_some] at hdb hdb'
      exact hagree.database indv hmem indv' hmem' id hid hdb.1 hdb'.1 db db' hdb.2 hdb'.2
    · intro predicate
      rw [IndexerSchema.getIndexIdOfUriAndProperty, IndexerSchema.getIndexIdOfUriAndProperty,
        lookup_index_load, lookup_index_load, lastWritten_eq_of_perm hl hl']
      intro indv hmem indv' hmem' uri uri' huri huri'
      rw [writtenIndex_eq_some] at huri huri'
      rw [← huri.2, ← huri'.2]
      exact hagree.index indv hmem indv' hmem' id predicate hid huri.1 huri'.1

end Load

/-! ## A class and a class below of it -/

/-- A class index for one class and one property. -/
def classIndex (uri forClass forProperty indexedTo : String) : IndividualObj where
  uri := uri
  resources := (((∅ : HashMap String (List Resource)).insert "vdi:forClass"
    [⟨.uri, .uri forClass, 0⟩]).insert "vdi:forProperty" [⟨.uri, .uri forProperty, 0⟩]).insert
      "vdi:indexed_to" [⟨.string, .str indexedTo .none, 0⟩]

/-- A letter is a document, and both have a class index: the letters are in the database of the one
that is added last. -/
theorem not_orderFree_letter :
    ∃ onto, loadOnto (.stored String) [ontoClass "v-s:Doc" [], ontoClass "v-s:Letter" ["v-s:Doc"]]
        .empty = .ok onto ∧
      ¬ OrderFree onto [classIndex "d:docs" "v-s:Doc" "rdfs:label" "base",
        classIndex "d:letters" "v-s:Letter" "rdfs:label" "system"] := by
  refine ⟨_, rfl, fun h => ?_⟩
  have hsame := (h (.stored String) (.stored String) _ _ (.refl _) (.swap _ _ []) "v-s:Letter"
    (by decide)).1
  exact absurd hsame (by decide +kernel)

end Veda.Xapian
