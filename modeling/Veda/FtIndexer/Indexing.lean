import Veda.FtIndexer.PrepareIndex
import Veda.Mstorage.Operation
import Veda.Xapian.QueryTranslation

set_option autoImplicit false

/-!
# Indexing of an individual

The indexer keeps documents in several databases. The class of an individual says in which of them
its document stands. A document is filed under a term made of the uri of its individual in lower case
and with some characters replaced; replacing and deleting goes by this term, and it concerns every
document that has the term, whether as its own or as a word of its texts.

## Main definitions

* `FtIndexer.Document` — a document, with `uuid`, the term it is filed under.
* `FtIndexer.IndexState` — the databases and the schema.
* `FtIndexer.IndexState.indexMsg` — the handling of a message.
* `FtIndexer.IndexState.touched` — the databases that a message changes.

## Main results

* `FtIndexer.IndexState.thins_indexMsg` — the documents of others after a message.
* `FtIndexer.IndexState.othersUnchanged_iff` — when a message leaves the documents of other
  individuals alone.
* `FtIndexer.not_othersUnchanged_upperCase` — two uris that differ in the case of a letter.

## Design

The words that the texts of a document consist of, and its fields, come from the generator of terms,
which is not modelled: they are a part of the message, as is the answer of the search for class
indexes with which an empty schema is filled.
-/

namespace Veda.FtIndexer

open Veda.Lib Veda.Onto Veda.Xapian Veda.Mstorage

/-! ## Databases -/

/-- The term that the document of an individual is filed under. -/
def uuid (id : String) : String := "uid_" ++ toLowerAndReplaceDelimiters id

/-- A document of an individual, with the words of its texts and its fields. -/
structure Document where
  data : String
  words : List String
  fields : IndexDocWorkplace

/-- The document has a term, as its own or as a word. -/
def Document.HasTerm (doc : Document) (term : String) : Prop :=
  term = uuid doc.data ∨ term ∈ doc.words

instance (doc : Document) (term : String) : Decidable (doc.HasTerm term) :=
  inferInstanceAs (Decidable (_ ∨ _))

/-- A database, with the changes that are not committed. -/
structure WritableDatabase where
  docs : List Document
  committed : List Document

namespace WritableDatabase

/-- All documents with the term are deleted. -/
def deleteDocument (db : WritableDatabase) (term : String) : WritableDatabase :=
  { db with docs := db.docs.filter fun doc => ¬ doc.HasTerm term }

/-- All documents with the term are replaced by one. -/
def replaceDocument (db : WritableDatabase) (term : String) (doc : Document) : WritableDatabase :=
  { db with docs := (db.deleteDocument term).docs ++ [doc] }

def commit (db : WritableDatabase) : WritableDatabase := { db with committed := db.docs }

end WritableDatabase

structure IndexState where
  indexDbs : String → Option WritableDatabase
  idxSchema : IndexerSchema
  useDb : String
  committedOpId : ℤ
  preparedOpId : ℤ

/-- A message of the queue, with what the indexing of its values gives, unless it fails. -/
structure Message where
  newIndv : State
  prevIndv : State
  cmd : IndvOp
  opId : ℤ
  indexed : Option (List String × IndexDocWorkplace)
  /-- what a search for class indexes finds -/
  classIndexes : List IndividualObj

/-! ## Routing -/

/-- The database of the first class that is not in the base. -/
def dbnameOfTypes (idxSchema : IndexerSchema) : List String → String
  | [] => "base"
  | type :: types =>
    if idxSchema.getDbnameOfClass type ≠ "base" then idxSchema.getDbnameOfClass type
    else dbnameOfTypes idxSchema types

section Routing

variable (π : IterOrder String) (onto : Onto)

/-- `IndexerSchema::load` without force. -/
def loadSchema (idxSchema : IndexerSchema) (classIndexes : List IndividualObj) : IndexerSchema :=
  if idxSchema.classProperty2Id.keys.isEmpty then
    classIndexes.foldl (IndexerSchema.addSchemaData π onto) idxSchema
  else idxSchema

/-- The schema with a type of an individual: a class index is added to it. -/
def schemaWithType (newIndv : State) (idxSchema : IndexerSchema) (type : String) : IndexerSchema :=
  if type = "vdi:ClassIndex" then idxSchema.addSchemaData π onto newIndv.obj else idxSchema

/-- The types of an individual, up to the first one that is not in the base. -/
def routeTypes (newIndv : State) : IndexerSchema → List String → IndexerSchema × String
  | idxSchema, [] => (idxSchema, "base")
  | idxSchema, type :: types =>
    if (schemaWithType π onto newIndv idxSchema type).getDbnameOfClass type ≠ "base" then
      (schemaWithType π onto newIndv idxSchema type,
        (schemaWithType π onto newIndv idxSchema type).getDbnameOfClass type)
    else routeTypes newIndv (schemaWithType π onto newIndv idxSchema type) types

end Routing

/-! ## Messages -/

def isDeleted (s : State) : Bool := s.get (.isExistsBool true) "v-s:deleted"

def isDraft (s : State) : Bool := (s.get .getFirstLiteral "v-s:is_draft_of").isSome

def actualVersion (s : State) : String := (s.get .getFirstLiteral "v-s:actualVersion").getD ""

def typesOf (s : State) : List String := (s.get .getLiterals "rdf:type").getD []

/-- The individual is another version of a document, and not deleted. -/
def isOtherVersion (s : State) : Bool :=
  !isDeleted s && actualVersion s ≠ "" && actualVersion s ≠ s.uri

/-- The individual was deleted and is not any more. -/
def isRestored (msg : Message) : Bool := isDeleted msg.prevIndv && !isDeleted msg.newIndv

/-- Nothing is done about the message. -/
def isSkipped (msg : Message) : Bool :=
  msg.cmd = .remove || msg.newIndv.obj.isEmpty || isDraft msg.newIndv

namespace IndexState

/-- Change a database, if there is one of the name. -/
def modifyDb (st : IndexState) (name : String) (f : WritableDatabase → WritableDatabase) :
    IndexState :=
  { st with indexDbs n := if n = name then (st.indexDbs n).map f else st.indexDbs n }

def deleteFrom (st : IndexState) (name term : String) : IndexState :=
  st.modifyDb name (·.deleteDocument term)

def replaceIn (st : IndexState) (name term : String) (doc : Document) : IndexState :=
  st.modifyDb name (·.replaceDocument term doc)

def commitAllDb (st : IndexState) : IndexState :=
  if 0 < st.preparedOpId - st.committedOpId then
    { st with
      indexDbs := fun name => (st.indexDbs name).map WritableDatabase.commit
      committedOpId := st.preparedOpId }
  else st

/-- The place of the previous state is another one. -/
def leavesPrevious (st : IndexState) (msg : Message) (prevDbname dbname : String) : Bool :=
  prevDbname ≠ dbname && !msg.prevIndv.obj.isEmpty && st.useDb = ""

/-- The individual has a document. -/
def isIndexed (st : IndexState) (msg : Message) (dbname : String) : Bool :=
  !(!isDeleted msg.newIndv && dbname = "not-indexed") &&
    !(st.useDb ≠ "" && (isDeleted msg.newIndv && st.useDb ≠ "deleted" ||
      dbname ≠ st.useDb && st.useDb ≠ "deleted"))

/-- A document is put in its place: that of deleted individuals, or that of its class. -/
def fileDocument (st : IndexState) (msg : Message) (dbname : String) (doc : Document) :
    IndexState :=
  if isDeleted msg.newIndv then
    (st.replaceIn "deleted" (uuid msg.newIndv.uri) doc).deleteFrom dbname (uuid msg.newIndv.uri)
  else if isRestored msg && st.useDb = "" then
    (st.deleteFrom "deleted" (uuid msg.newIndv.uri)).replaceIn dbname (uuid msg.newIndv.uri) doc
  else st.replaceIn dbname (uuid msg.newIndv.uri) doc

/-- The operation is done; at times everything is committed. -/
def prepared (st : IndexState) (opId : ℤ) : IndexState :=
  if (opId - st.committedOpId) % 5000 = 0 then { st with preparedOpId := opId }.commitAllDb
  else { st with preparedOpId := opId }

/-- The handling of a version that is to be indexed. -/
def indexCurrent (st : IndexState) (msg : Message) (dbname : String) : IndexState × Bool :=
  if st.isIndexed msg dbname then
    match msg.indexed with
    | none => (st, false)
    | some (words, fields) =>
      ((st.fileDocument msg dbname ⟨msg.newIndv.uri, words, fields⟩).prepared msg.opId, true)
  else (st, true)

/-- The handling of an individual whose databases are known. -/
def indexRouted (st : IndexState) (msg : Message) (prevDbname dbname : String) :
    IndexState × Bool :=
  if isOtherVersion msg.newIndv then (st.deleteFrom dbname (uuid msg.newIndv.uri), true)
  else if st.leavesPrevious msg prevDbname dbname then
    (st.deleteFrom prevDbname (uuid msg.newIndv.uri)).indexCurrent msg dbname
  else st.indexCurrent msg dbname

section Messages

variable (π : IterOrder String) (onto : Onto)

/-- The schema is loaded when it is empty. -/
def loaded (st : IndexState) (msg : Message) : IndexState :=
  { st with idxSchema := loadSchema π onto st.idxSchema msg.classIndexes }

/-- The database of the previous state. -/
def prevDbname (st : IndexState) (msg : Message) : String :=
  dbnameOfTypes (st.loaded π onto msg).idxSchema (typesOf msg.prevIndv)

/-- The schema and the database of the new state. -/
def newRoute (st : IndexState) (msg : Message) : IndexerSchema × String :=
  routeTypes π onto msg.newIndv (st.loaded π onto msg).idxSchema (typesOf msg.newIndv)

/-- The handling of a message, and whether it ended well. -/
def indexMsg (st : IndexState) (msg : Message) : IndexState × Bool :=
  if msg.cmd = .remove then (st, true)
  else if isSkipped msg then (st.loaded π onto msg, true)
  else
    { st with idxSchema := (st.newRoute π onto msg).1 }.indexRouted msg (st.prevDbname π onto msg)
      (st.newRoute π onto msg).2

/-- The databases that a message changes. -/
def touched (st : IndexState) (msg : Message) : List String :=
  if isSkipped msg then []
  else if isOtherVersion msg.newIndv then [(st.newRoute π onto msg).2]
  else
    (if st.leavesPrevious msg (st.prevDbname π onto msg) (st.newRoute π onto msg).2 then
      [st.prevDbname π onto msg] else []) ++
    (if st.isIndexed msg (st.newRoute π onto msg).2 && msg.indexed.isSome then
      (if isDeleted msg.newIndv || isRestored msg && st.useDb = "" then ["deleted"] else []) ++
        [(st.newRoute π onto msg).2] else [])

end Messages

/-! ## The documents of others -/

/-- The documents of a database. -/
def docs (st : IndexState) (name : String) : List Document :=
  ((st.indexDbs name).map WritableDatabase.docs).getD []

/-- The documents of an individual in a database. -/
def docsOf (st : IndexState) (name id : String) : List Document :=
  (st.docs name).filter fun doc => doc.data = id

/-- The documents of the individuals other than one. -/
def others (st : IndexState) (id name : String) : List Document :=
  (st.docs name).filter fun doc => doc.data ≠ id

/-- In some databases the documents of the others with the term of the individual are gone, and no
others. -/
def Thins (id : String) (names : List String) (st st' : IndexState) : Prop :=
  ∀ name, st'.others id name =
    if name ∈ names then (st.others id name).filter fun doc => ¬ doc.HasTerm (uuid id)
    else st.others id name

section Thins

variable {id : String} {names names' : List String} {st st' st'' : IndexState}

theorem Thins.of_docs (h : ∀ name, st'.docs name = st.docs name) : Thins id [] st st' := by
  intro name
  rw [others, others, h, if_neg List.not_mem_nil]

theorem Thins.trans (h : Thins id names st st') (h' : Thins id names' st' st'') :
    Thins id (names ++ names') st st'' := by
  intro name
  rw [h' name, h name]
  simp only [List.mem_append]
  split_ifs <;> first | rfl | tauto | simp [List.filter_filter]

theorem docs_modifyDb (st : IndexState) (name n : String) (f : WritableDatabase → WritableDatabase) :
    (st.modifyDb name f).docs n =
      if n = name then ((st.indexDbs n).map fun db => (f db).docs).getD [] else st.docs n := by
  unfold docs modifyDb
  dsimp only
  split_ifs
  · rw [Option.map_map]
    rfl
  · rfl

theorem thins_deleteFrom (st : IndexState) (id name : String) :
    Thins id [name] st (st.deleteFrom name (uuid id)) := by
  intro n
  rw [others, others, deleteFrom, docs_modifyDb]
  simp only [List.mem_singleton]
  split_ifs
  · unfold docs
    cases st.indexDbs n with
    | none => rfl
    | some db => exact List.filter_comm _ _ db.docs
  · rfl

theorem thins_replaceIn (st : IndexState) (name : String) (doc : Document) :
    Thins doc.data [name] st (st.replaceIn name (uuid doc.data) doc) := by
  intro n
  rw [others, others, replaceIn, docs_modifyDb]
  simp only [List.mem_singleton]
  split_ifs
  · unfold docs
    cases st.indexDbs n with
    | none => rfl
    | some db =>
      show ((db.deleteDocument (uuid doc.data)).docs ++ [doc]).filter _ = _
      rw [List.filter_append, List.filter_cons_of_neg (by simp), List.filter_nil, List.append_nil]
      exact List.filter_comm _ _ db.docs
  · rfl

theorem docs_commitAllDb (st : IndexState) (name : String) :
    st.commitAllDb.docs name = st.docs name := by
  unfold commitAllDb docs
  split_ifs
  · dsimp only
    rw [Option.map_map]
    rfl
  · rfl

theorem docs_prepared (st : IndexState) (opId : ℤ) (name : String) :
    (st.prepared opId).docs name = st.docs name := by
  unfold prepared
  split_ifs
  · exact docs_commitAllDb _ name
  · rfl

theorem thins_fileDocument (st : IndexState) (msg : Message) (dbname : String) (doc : Document)
    (hdoc : doc.data = msg.newIndv.uri) :
    Thins msg.newIndv.uri
      ((if isDeleted msg.newIndv || isRestored msg && st.useDb = "" then ["deleted"] else []) ++
        [dbname]) st (st.fileDocument msg dbname doc) := by
  rw [← hdoc]
  unfold fileDocument
  rw [← hdoc]
  by_cases hdeleted : isDeleted msg.newIndv = true
  · rw [if_pos hdeleted, if_pos (by rw [hdeleted]; rfl)]
    exact (thins_replaceIn st "deleted" doc).trans (thins_deleteFrom _ _ _)
  · rw [if_neg hdeleted, Bool.eq_false_of_not_eq_true hdeleted, Bool.false_or]
    split_ifs
    · exact (thins_deleteFrom st _ "deleted").trans (thins_replaceIn _ _ doc)
    · exact thins_replaceIn st dbname doc

theorem thins_indexCurrent (st : IndexState) (msg : Message) (dbname : String) :
    Thins msg.newIndv.uri
      (if st.isIndexed msg dbname && msg.indexed.isSome then
        (if isDeleted msg.newIndv || isRestored msg && st.useDb = "" then ["deleted"] else []) ++
          [dbname] else []) st (st.indexCurrent msg dbname).1 := by
  unfold indexCurrent
  by_cases hindexed : st.isIndexed msg dbname = true
  · rw [if_pos hindexed, hindexed, Bool.true_and]
    cases msg.indexed with
    | none => exact .of_docs fun _ => rfl
    | some indexed =>
      obtain ⟨words, fields⟩ := indexed
      rw [Option.isSome_some, if_pos rfl]
      intro name
      rw [← thins_fileDocument st msg dbname ⟨msg.newIndv.uri, words, fields⟩ rfl name,
        others, others, docs_prepared]
  · rw [if_neg hindexed, Bool.eq_false_of_not_eq_true hindexed, Bool.false_and]
    exact .of_docs fun _ => rfl

theorem thins_indexRouted (st : IndexState) (msg : Message) (prevDbname dbname : String) :
    Thins msg.newIndv.uri
      (if isOtherVersion msg.newIndv then [dbname]
      else
        (if st.leavesPrevious msg prevDbname dbname then [prevDbname] else []) ++
        (if st.isIndexed msg dbname && msg.indexed.isSome then
          (if isDeleted msg.newIndv || isRestored msg && st.useDb = "" then ["deleted"] else []) ++
            [dbname] else []))
      st (st.indexRouted msg prevDbname dbname).1 := by
  unfold indexRouted
  by_cases hother : isOtherVersion msg.newIndv = true
  · rw [if_pos hother, if_pos hother]
    exact thins_deleteFrom _ _ _
  · rw [if_neg hother, if_neg hother]
    by_cases hleaves : st.leavesPrevious msg prevDbname dbname = true
    · rw [if_pos hleaves, if_pos hleaves]
      exact (thins_deleteFrom _ _ _).trans (thins_indexCurrent _ msg _)
    · rw [if_neg hleaves, if_neg hleaves]
      exact thins_indexCurrent _ msg _

/-- **The documents of others after a message**: those with the term of the individual are gone from
the databases that the message changes. -/
theorem thins_indexMsg (π : IterOrder String) (onto : Onto) (st : IndexState) (msg : Message) :
    Thins msg.newIndv.uri (st.touched π onto msg) st (st.indexMsg π onto msg).1 := by
  unfold indexMsg touched
  by_cases hskipped : isSkipped msg = true
  · rw [if_pos hskipped, if_pos hskipped]
    split_ifs <;> exact .of_docs fun _ => rfl
  · have hcmd : msg.cmd ≠ .remove := by
      intro hcmd
      rw [isSkipped, hcmd] at hskipped
      exact hskipped rfl
    rw [if_neg hskipped, if_neg hcmd, if_neg hskipped]
    exact thins_indexRouted { st with idxSchema := (st.newRoute π onto msg).1 } msg _ _

end Thins

/-- A message leaves the documents of the other individuals alone. -/
def OthersUnchanged (π : IterOrder String) (onto : Onto) (st : IndexState) (msg : Message) : Prop :=
  ∀ id, id ≠ msg.newIndv.uri → ∀ name,
    (st.indexMsg π onto msg).1.docsOf name id = st.docsOf name id

/-- **When a message leaves the documents of others alone**: none of them has the term of the
individual in the databases that the message changes.

**Proof sketch.** What a message deletes of others are the documents with the term; and a document
that has it is one of the individual it was made for. -/
theorem othersUnchanged_iff (π : IterOrder String) (onto : Onto) (st : IndexState)
    (msg : Message) :
    st.OthersUnchanged π onto msg ↔
      ∀ name ∈ st.touched π onto msg, ∀ doc ∈ st.docs name, doc.data ≠ msg.newIndv.uri →
        ¬ doc.HasTerm (uuid msg.newIndv.uri) := by
  have hthins := thins_indexMsg π onto st msg
  constructor
  · intro h name hname doc hdoc hne
    have hmem : doc ∈ st.docsOf name doc.data := List.mem_filter.mpr ⟨hdoc, by simp⟩
    rw [← h doc.data hne name] at hmem
    have hother : doc ∈ (st.indexMsg π onto msg).1.others msg.newIndv.uri name :=
      List.mem_filter.mpr ⟨(List.mem_filter.mp hmem).1, by simpa using hne⟩
    rw [hthins name, if_pos hname, List.mem_filter] at hother
    simpa using hother.2
  · intro h id hid name
    have hsame : (st.indexMsg π onto msg).1.others msg.newIndv.uri name =
        st.others msg.newIndv.uri name := by
      rw [hthins name]
      split_ifs with hname
      · refine List.filter_eq_self.mpr fun doc hdoc => ?_
        obtain ⟨hdoc, hne⟩ := List.mem_filter.mp hdoc
        simpa using h name hname doc hdoc (by simpa using hne)
      · rfl
    have hfilter : ∀ st : IndexState, st.docsOf name id =
        (st.others msg.newIndv.uri name).filter fun doc => doc.data = id := by
      intro st
      rw [docsOf, others, List.filter_filter]
      refine List.filter_congr fun doc _ => ?_
      by_cases hdoc : doc.data = id
      · simp [hdoc, hid]
      · simp [hdoc]
    rw [hfilter, hfilter st, hsame]

end IndexState

/-! ## Two uris -/

/-- A base that is empty, and no class indexes. -/
def emptyIndex : IndexState where
  indexDbs name := if name = "base" then some ⟨[], []⟩ else none
  idxSchema := .empty
  useDb := ""
  committedOpId := 0
  preparedOpId := 0

/-- A new document is put. -/
def putMessage (uri : String) (opId : ℤ) : Message where
  newIndv := (State.named uri).addValue "rdf:type" .uri (.uri "v-s:Document")
  prevIndv := .empty
  cmd := .put
  opId := opId
  indexed := some ([], ⟨[], [], []⟩)
  classIndexes := []

/-- The uris of two documents differ in the case of a letter: the indexing of the second one replaces
the document of the first one. -/
theorem not_othersUnchanged_upperCase :
    ¬ (emptyIndex.indexMsg (.stored String) .empty (putMessage "d:A" 1)).1.OthersUnchanged
      (.stored String) .empty (putMessage "d:a" 2) := by
  intro h
  have hlength := congrArg List.length (h "d:A" (by decide) "base")
  revert hlength
  decide +kernel

end Veda.FtIndexer
