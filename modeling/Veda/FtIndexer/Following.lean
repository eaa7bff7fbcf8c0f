import Veda.FtIndexer.Indexing
import Veda.Mstorage.Changes

set_option autoImplicit false

/-!
# The full-text databases and the storage

The indexer sees the elements of a history of changes one after another. The state that the queue
told last of an individual, which after a removal is the mark, says in which database its document
belongs: none for a draft, for another version of a document and for a class that is not indexed, the
one of deleted individuals, or that of its class. The databases hold exactly these documents as long
as no individual that has a document becomes one that is skipped.

## Main definitions

* `FtIndexer.placeOf` — the database of the document of a state.
* `FtIndexer.nextDocs` — what a message does to the documents of its individual.
* `FtIndexer.IndexState.Files` — the databases hold the documents of the latest states.
* `FtIndexer.Settles`, `FtIndexer.Settled` — the changes that keep it.

## Main results

* `FtIndexer.IndexState.docsOf_indexMsg` — one message.
* `FtIndexer.files_iff` — one change.
* `FtIndexer.files_throughout_iff` — every history of changes.
-/

namespace Veda.FtIndexer

open Veda.Lib Veda.Onto Veda.Xapian Veda.Mstorage

/-! ## The documents of an individual -/

/-- The database that the document of a state belongs to. -/
def placeOf (schema : IndexerSchema) (s : State) : Option String :=
  if isDraft s then none
  else if isOtherVersion s then none
  else if isDeleted s then some "deleted"
  else if dbnameOfTypes schema (typesOf s) = "not-indexed" then none
  else some (dbnameOfTypes schema (typesOf s))

/-- The documents of one individual in each database. -/
abbrev OwnDocs := String → List Document

/-- There is one document at most, in the given database. -/
def onlyAt (place : Option String) (doc : Document) : OwnDocs :=
  fun name => if place = some name then [doc] else []

/-- The documents after one was put in its place. -/
def filedDocs (prev new : State) (dbname : String) (doc : Document) (own : OwnDocs) : OwnDocs :=
  if isDeleted new then Function.update (Function.update own "deleted" [doc]) dbname []
  else if isDeleted prev then Function.update (Function.update own "deleted" []) dbname [doc]
  else Function.update own dbname [doc]

/-- The documents after a state that is to be indexed. -/
def currentDocs (prev new : State) (dbname : String) (doc : Document) (own : OwnDocs) : OwnDocs :=
  if !isDeleted new && dbname = "not-indexed" then own else filedDocs prev new dbname doc own

/-- The documents without that in the place of the previous state, when it is another one. -/
def leftDocs (prev : State) (prevDbname dbname : String) (own : OwnDocs) : OwnDocs :=
  if prevDbname ≠ dbname && !prev.obj.isEmpty then Function.update own prevDbname [] else own

/-- The documents of an individual after its state changed. -/
def nextDocs (prev new : State) (prevDbname dbname : String) (doc : Document) (own : OwnDocs) :
    OwnDocs :=
  if isDraft new then own
  else if isOtherVersion new then Function.update own dbname []
  else currentDocs prev new dbname doc (leftDocs prev prevDbname dbname own)

namespace IndexState

variable {π : IterOrder String} {onto : Onto} {schema : IndexerSchema} {st : IndexState}
  {id name : String}

theorem docsOf_deleteFrom (st : IndexState) (n id : String) :
    (fun name => (st.deleteFrom n (uuid id)).docsOf name id) =
      Function.update (fun name => st.docsOf name id) n [] := by
  funext name
  rw [docsOf, deleteFrom, docs_modifyDb, Function.update_apply]
  split_ifs
  · cases st.indexDbs name with
    | none => rfl
    | some db =>
      refine List.filter_eq_nil_iff.mpr fun doc hdoc => ?_
      have hterm : ¬ doc.HasTerm (uuid id) := by simpa using (List.mem_filter.mp hdoc).2
      intro hdata
      exact hterm (.inl (by rw [of_decide_eq_true hdata]))
  · rfl

theorem docsOf_replaceIn (st : IndexState) {n : String} (hn : (st.indexDbs n).isSome = true)
    (doc : Document) :
    (fun name => (st.replaceIn n (uuid doc.data) doc).docsOf name doc.data) =
      Function.update (fun name => st.docsOf name doc.data) n [doc] := by
  funext name
  have hdeleted := congrFun (docsOf_deleteFrom st n doc.data) name
  rw [docsOf, deleteFrom, docs_modifyDb, Function.update_apply] at hdeleted
  rw [docsOf, replaceIn, docs_modifyDb, Function.update_apply]
  split_ifs at hdeleted ⊢ with hname
  · obtain ⟨db, hdb⟩ := Option.isSome_iff_exists.mp hn
    rw [hname, hdb] at hdeleted ⊢
    show ((db.deleteDocument (uuid doc.data)).docs ++ [doc]).filter _ = [doc]
    rw [List.filter_append, show (db.deleteDocument (uuid doc.data)).docs.filter _ = [] from hdeleted]
    simp
  · rfl

/-- The databases of a fixed schema: those that classes name exist, but for `not-indexed`. -/
structure Configured (schema : IndexerSchema) (st : IndexState) : Prop where
  idxSchema : st.idxSchema = schema
  useDb : st.useDb = ""
  deleted : (st.indexDbs "deleted").isSome = true
  not_deleted : ∀ types, dbnameOfTypes schema types ≠ "deleted"
  routed : ∀ types, dbnameOfTypes schema types ≠ "not-indexed" →
    (st.indexDbs (dbnameOfTypes schema types)).isSome = true

theorem isSome_modifyDb (st : IndexState) (n : String) (f : WritableDatabase → WritableDatabase)
    (name : String) : ((st.modifyDb n f).indexDbs name).isSome = (st.indexDbs name).isSome := by
  simp only [modifyDb]
  split_ifs
  · exact Option.isSome_map
  · rfl

theorem Configured.modifyDb (h : st.Configured schema) (n : String)
    (f : WritableDatabase → WritableDatabase) : (st.modifyDb n f).Configured schema :=
  ⟨h.idxSchema, h.useDb, (isSome_modifyDb _ _ _ _).trans h.deleted, h.not_deleted,
    fun types htypes => (isSome_modifyDb _ _ _ _).trans (h.routed types htypes)⟩

theorem Configured.prepared (h : st.Configured schema) (opId : ℤ) :
    (st.prepared opId).Configured schema := by
  have hcommit : ∀ st : IndexState, st.Configured schema → st.commitAllDb.Configured schema := by
    intro st h
    unfold commitAllDb
    split_ifs
    · exact ⟨h.idxSchema, h.useDb, Option.isSome_map.trans h.deleted, h.not_deleted,
        fun types htypes => Option.isSome_map.trans (h.routed types htypes)⟩
    · exact h
  have hop : ({ st with preparedOpId := opId } : IndexState).Configured schema :=
    ⟨h.idxSchema, h.useDb, h.deleted, h.not_deleted, h.routed⟩
  unfold IndexState.prepared
  split_ifs
  · exact hcommit _ hop
  · exact hop

theorem routeTypes_eq (new : State) (schema : IndexerSchema) {types : List String}
    (h : "vdi:ClassIndex" ∉ types) :
    routeTypes π onto new schema types = (schema, dbnameOfTypes schema types) := by
  induction types with
  | nil => rfl
  | cons type types ih =>
    have htype : schemaWithType π onto new schema type = schema := by
      refine if_neg fun htype => h ?_
      rw [htype]
      exact List.mem_cons_self
    rw [routeTypes, dbnameOfTypes, htype]
    split_ifs
    · rfl
    · exact ih fun hmem => h (List.mem_cons_of_mem _ hmem)

variable {msg : Message} {words : List String} {fields : IndexDocWorkplace}

theorem docsOf_fileDocument (h : st.Configured schema) (doc : Document)
    (hdoc : doc.data = msg.newIndv.uri)
    (hplace : isDeleted msg.newIndv = true ∨ (st.indexDbs name).isSome = true) :
    (fun n => (st.fileDocument msg name doc).docsOf n doc.data) =
        filedDocs msg.prevIndv msg.newIndv name doc (fun n => st.docsOf n doc.data) ∧
      (st.fileDocument msg name doc).Configured schema := by
  unfold fileDocument filedDocs
  rw [← hdoc]
  cases hdeleted : isDeleted msg.newIndv with
  | true =>
    rw [if_pos rfl, if_pos rfl, docsOf_deleteFrom, docsOf_replaceIn _ h.deleted]
    exact ⟨rfl, (h.modifyDb _ _).modifyDb _ _⟩
  | false =>
    have hname := hplace.resolve_left (by rw [hdeleted]; exact Bool.false_ne_true)
    rw [if_neg Bool.false_ne_true, if_neg Bool.false_ne_true, isRestored, hdeleted, Bool.not_false,
      Bool.and_true, h.useDb, decide_eq_true rfl, Bool.and_true]
    split_ifs
    · have hkept : ((st.deleteFrom "deleted" (uuid doc.data)).indexDbs name).isSome = true :=
        (isSome_modifyDb _ _ _ _).trans hname
      rw [docsOf_replaceIn _ hkept, docsOf_deleteFrom]
      exact ⟨rfl, (h.modifyDb _ _).modifyDb _ _⟩
    · rw [docsOf_replaceIn _ hname]
      exact ⟨rfl, h.modifyDb _ _⟩

theorem docsOf_indexCurrent (h : st.Configured schema) (hindexed : msg.indexed = some (words, fields))
    (hname : name ≠ "not-indexed" → (st.indexDbs name).isSome = true) :
    (fun n => (st.indexCurrent msg name).1.docsOf n msg.newIndv.uri) =
        currentDocs msg.prevIndv msg.newIndv name ⟨msg.newIndv.uri, words, fields⟩
          (fun n => st.docsOf n msg.newIndv.uri) ∧
      (st.indexCurrent msg name).1.Configured schema := by
  unfold indexCurrent currentDocs
  rw [isIndexed, h.useDb]
  cases hskip : !isDeleted msg.newIndv && decide (name = "not-indexed") with
  | true => exact ⟨rfl, h⟩
  | false =>
    have hplace : isDeleted msg.newIndv = true ∨ (st.indexDbs name).isSome = true := by
      rw [Bool.and_eq_false_iff, Bool.not_eq_false', decide_eq_false_iff_not] at hskip
      exact hskip.imp_right hname
    obtain ⟨hdocs, hconfigured⟩ :=
      docsOf_fileDocument h (⟨msg.newIndv.uri, words, fields⟩ : Document) rfl hplace
    rw [hindexed, if_neg Bool.false_ne_true, ← hdocs]
    refine ⟨funext fun n => ?_, hconfigured.prepared _⟩
    exact congrArg (List.filter _) (docs_prepared _ _ n)

/-- **One message**: what it does to the documents of its individual. -/
theorem docsOf_indexMsg (h : st.Configured schema) (hcmd : msg.cmd ≠ .remove)
    (hnonempty : msg.newIndv.obj.isEmpty = false)
    (htypes : "vdi:ClassIndex" ∉ typesOf msg.newIndv) (hsearch : msg.classIndexes = [])
    (hindexed : msg.indexed = some (words, fields)) :
    (fun n => (st.indexMsg π onto msg).1.docsOf n msg.newIndv.uri) =
        nextDocs msg.prevIndv msg.newIndv (dbnameOfTypes schema (typesOf msg.prevIndv))
          (dbnameOfTypes schema (typesOf msg.newIndv)) ⟨msg.newIndv.uri, words, fields⟩
          (fun n => st.docsOf n msg.newIndv.uri) ∧
      (st.indexMsg π onto msg).1.Configured schema := by
  have hloaded : st.loaded π onto msg = st := by
    rw [loaded, hsearch, loadSchema, List.foldl_nil, ite_self]
  have hroute : st.newRoute π onto msg = (schema, dbnameOfTypes schema (typesOf msg.newIndv)) := by
    rw [newRoute, hloaded, h.idxSchema, routeTypes_eq _ _ htypes]
  have hprev : st.prevDbname π onto msg = dbnameOfTypes schema (typesOf msg.prevIndv) := by
    rw [prevDbname, hloaded, h.idxSchema]
  have hstate : ({ st with idxSchema := schema } : IndexState) = st := by
    rw [← h.idxSchema]
  rw [indexMsg, if_neg hcmd, hloaded, hroute, hprev, hstate, isSkipped, decide_eq_false hcmd,
    hnonempty, Bool.false_or, Bool.false_or]
  unfold nextDocs leftDocs indexRouted
  by_cases hdraft : isDraft msg.newIndv = true
  · rw [if_pos hdraft, if_pos hdraft]
    exact ⟨rfl, h⟩
  rw [if_neg hdraft, if_neg hdraft]
  by_cases hother : isOtherVersion msg.newIndv = true
  · rw [if_pos hother, if_pos hother, docsOf_deleteFrom]
    exact ⟨rfl, h.modifyDb _ _⟩
  rw [if_neg hother, if_neg hother, leavesPrevious, h.useDb, decide_eq_true rfl, Bool.and_true]
  -- the place of the previous state
  cases (dbnameOfTypes schema (typesOf msg.prevIndv) ≠ dbnameOfTypes schema (typesOf msg.newIndv) &&
    !msg.prevIndv.obj.isEmpty : Bool) with
  | true =>
    rw [if_pos rfl, if_pos rfl, ← docsOf_deleteFrom]
    exact docsOf_indexCurrent (h.modifyDb _ _) hindexed fun hname =>
      (isSome_modifyDb _ _ _ _).trans (h.routed _ hname)
  | false => exact docsOf_indexCurrent h hindexed (h.routed _)

end IndexState

/-! ## Histories -/

/-- The state that the queue tells of a change: the new state, or the mark of a removal. -/
def told : Change → State
  | .put state => state
  | .remove mark _ => mark

/-- The states that the queue told last. -/
abbrev Latest := String → Option State

def Latest.tell (latest : Latest) (c : Change) : Latest :=
  Function.update latest c.id (some (told c))

/-- What the states that are stored have to do with those that the queue told last. -/
structure Tells (states : States) (latest : Latest) : Prop where
  named : ∀ id s, latest id = some s → s.uri = id ∧ s.obj.isEmpty = false
  stored : ∀ id, states.stateOf id = latest id ∨
    (states.stateOf id = none ∧ ∃ mark, IsMark mark ∧ latest id = some mark)

section Histories

variable (indexing : State → List String × IndexDocWorkplace)

/-- The message that the indexer makes of an element. -/
def messageOf (e : Element) : Message where
  newIndv := e.new
  prevIndv := e.prev
  cmd := e.cmd
  opId := e.opId
  indexed := some (indexing e.new)
  classIndexes := []

def documentOf (s : State) : Document := ⟨s.uri, (indexing s).1, (indexing s).2⟩

/-- The documents of a state. -/
def docsOfState (schema : IndexerSchema) : Option State → OwnDocs
  | some s => onlyAt (placeOf schema s) (documentOf indexing s)
  | none => fun _ => []

/-- The handling of elements one after another. -/
def IndexState.indexAll (π : IterOrder String) (onto : Onto) (st : IndexState)
    (es : List Element) : IndexState :=
  es.foldl (fun st e => (st.indexMsg π onto (messageOf indexing e)).1) st

/-- The databases hold the documents of the states that the queue told last, and no others. -/
def IndexState.Files (schema : IndexerSchema) (st : IndexState) (latest : Latest) : Prop :=
  ∀ id, (fun name => st.docsOf name id) = docsOfState indexing schema (latest id)

/-- A change that tells a state with predicates, of no class index, whose term no other document
has. -/
structure Ordinary (schema : IndexerSchema) (latest : Latest) (c : Change) : Prop where
  nonempty : (told c).obj.isEmpty = false
  noClassIndex : "vdi:ClassIndex" ∉ typesOf (told c)
  apart : ∀ id s, latest id = some s → id ≠ c.id → placeOf schema s ≠ none →
    uuid c.id ≠ uuid id ∧ uuid c.id ∉ (indexing s).1

/-- The document of the latest state, if there is one, goes to the place of the new one: an
individual that has a document does not become a draft, and another version only with the database
of its class; a deleted one does so when it is deleted again, or when it is restored before it was
removed. -/
def Settles (schema : IndexerSchema) (states : States) (latest : Latest) (c : Change) : Prop :=
  ∀ place, (latest c.id).bind (placeOf schema) = some place →
    if place = "deleted" then
      placeOf schema (told c) = some "deleted" ∨
        placeOf schema (told c) ≠ none ∧ states.stateOf c.id ≠ none
    else
      placeOf schema (told c) ≠ none ∨ isDraft (told c) = false ∧
        (isOtherVersion (told c) = true → dbnameOfTypes schema (typesOf (told c)) = place)

end Histories

section Steps

variable {indexing : State → List String × IndexDocWorkplace} {π : IterOrder String} {onto : Onto}
  {schema : IndexerSchema} {st : IndexState} {states : States} {latest : Latest} {c : Change}

/-! ## One change -/

theorem placeOf_mark {mark : State} (h : IsMark mark) : placeOf schema mark = some "deleted" := by
  have hdraft : isDraft mark = false := by
    rw [isDraft, State.get_of_lookup_none (h.rest _ (by decide) (by decide))]
    rfl
  have hdeleted : isDeleted mark = true := by
    rw [isDeleted, State.get, IndividualObj.read, h.deleted]
    rfl
  rw [placeOf, hdraft, isOtherVersion, hdeleted, Bool.not_true, Bool.false_and, Bool.false_and]
  rfl

/-- The ways in which the documents of an individual change, each with the place of its new state. -/
inductive Turn (prev new : State) (prevDbname dbname : String) (doc : Document) (own : OwnDocs) :
    Option String → OwnDocs → Prop
  | draft (hdraft : isDraft new = true) : Turn prev new prevDbname dbname doc own none own
  | otherVersion (hdraft : isDraft new = false) (hother : isOtherVersion new = true) :
    Turn prev new prevDbname dbname doc own none (Function.update own dbname [])
  | notIndexed (hdraft : isDraft new = false) (hother : isOtherVersion new = false)
      (hdbname : dbname = "not-indexed") :
    Turn prev new prevDbname dbname doc own none (leftDocs prev prevDbname dbname own)
  | deleted :
    Turn prev new prevDbname dbname doc own (some "deleted") (Function.update
      (Function.update (leftDocs prev prevDbname dbname own) "deleted" [doc]) dbname [])
  | restored (hdeleted : isDeleted prev = true) :
    Turn prev new prevDbname dbname doc own (some dbname) (Function.update
      (Function.update (leftDocs prev prevDbname dbname own) "deleted" []) dbname [doc])
  | live (hdeleted : isDeleted prev = false) :
    Turn prev new prevDbname dbname doc own (some dbname)
      (Function.update (leftDocs prev prevDbname dbname own) dbname [doc])

section Turn

variable {prev new : State} {p d : String} {doc doc' : Document} {own own' : OwnDocs}
  {place : Option String}

theorem turn_nextDocs (prev new : State) (p : String) (doc : Document) (own : OwnDocs) :
    Turn prev new p (dbnameOfTypes schema (typesOf new)) doc own (placeOf schema new)
      (nextDocs prev new p (dbnameOfTypes schema (typesOf new)) doc own) := by
  unfold nextDocs currentDocs filedDocs placeOf
  cases hdraft : isDraft new with
  | true => exact .draft hdraft
  | false =>
    cases hother : isOtherVersion new with
    | true => exact .otherVersion hdraft hother
    | false =>
      cases isDeleted new with
      | true => exact .deleted
      | false =>
        by_cases hd : dbnameOfTypes schema (typesOf new) = "not-indexed"
        · simp only [hd]
          exact .notIndexed hdraft hother rfl
        · simp only [hd, Bool.false_eq_true, if_false, decide_false, Bool.and_false]
          cases hprev : isDeleted prev with
          | true => exact .restored hprev
          | false => exact .live hprev

theorem onlyAt_none (doc : Document) : onlyAt none doc = fun _ => [] := by
  funext name
  exact if_neg (by simp)

theorem ne_onlyAt_none (name : String) (hname : own name = [doc']) : own ≠ onlyAt none doc := by
  intro heq
  rw [heq] at hname
  cases hname

theorem Turn.eq_of_none (hd : d ≠ "deleted")
    (h : Turn prev new p d doc (onlyAt none doc') place own') : own' = onlyAt place doc := by
  have hleft : leftDocs prev p d (onlyAt none doc') = onlyAt none doc' := by
    rw [leftDocs, Function.update_eq_self_iff.mpr (by rw [onlyAt_none]), ite_self]
  funext name
  cases h <;> simp only [hleft, onlyAt, Function.update_apply] <;> grind

theorem Turn.eq_iff_deleted (hp : p ≠ "deleted") (hd : d ≠ "deleted")
    (h : Turn prev new p d doc (onlyAt (some "deleted") doc') place own') :
    own' = onlyAt place doc ↔
      place = some "deleted" ∨ place ≠ none ∧ isDeleted prev = true := by
  have hleft : leftDocs prev p d (onlyAt (some "deleted") doc') =
      onlyAt (some "deleted") doc' := by
    rw [leftDocs, Function.update_eq_self_iff.mpr (by rw [onlyAt, if_neg (by simpa using hp.symm)]),
      ite_self]
  cases h with
  | draft => exact iff_of_false (ne_onlyAt_none "deleted" rfl) (by simp)
  | otherVersion =>
    have hstays : Function.update (onlyAt (some "deleted") doc') d [] "deleted" = [doc'] :=
      Function.update_of_ne hd.symm _ _
    exact iff_of_false (ne_onlyAt_none "deleted" hstays) (by simp)
  | notIndexed =>
    rw [hleft]
    exact iff_of_false (ne_onlyAt_none "deleted" rfl) (by simp)
  | deleted =>
    rw [hleft]
    refine iff_of_true (funext fun name => ?_) (.inl rfl)
    simp only [onlyAt, Function.update_apply]
    grind
  | restored hdeleted =>
    rw [hleft]
    refine iff_of_true (funext fun name => ?_) (.inr ⟨by simp, hdeleted⟩)
    simp only [onlyAt, Function.update_apply]
    grind
  | live hdeleted =>
    rw [hleft]
    refine iff_of_false (fun heq => ?_) (by simp [hd, hdeleted])
    have hat := congrFun heq "deleted"
    simp only [onlyAt, Function.update_apply] at hat
    grind

theorem Turn.eq_iff_live (hd : d ≠ "deleted") (hindexed : p ≠ "not-indexed")
    (hnonempty : prev.obj.isEmpty = false) (hprev : isDeleted prev = false)
    (h : Turn prev new p d doc (onlyAt (some p) doc') place own') :
    own' = onlyAt place doc ↔
      place ≠ none ∨ isDraft new = false ∧ (isOtherVersion new = true → d = p) := by
  have hleft : ∀ name, leftDocs prev p d (onlyAt (some p) doc') name =
      if p = d ∧ p = name then [doc'] else [] := by
    intro name
    simp only [leftDocs, onlyAt, hnonempty, ite_apply, Function.update_apply]
    grind
  cases h with
  | draft hdraft => exact iff_of_false (ne_onlyAt_none p (if_pos rfl)) (by simp [hdraft])
  | otherVersion hdraft hother =>
    by_cases hsame : d = p
    · refine iff_of_true (funext fun name => ?_) (.inr ⟨hdraft, fun _ => hsame⟩)
      simp only [onlyAt, Function.update_apply]
      grind
    · have hstays : Function.update (onlyAt (some p) doc') d [] p = [doc'] :=
        (Function.update_of_ne (Ne.symm hsame) _ _).trans (if_pos rfl)
      exact iff_of_false (ne_onlyAt_none p hstays) (by simp [hother, hsame])
  | notIndexed hdraft hother hdbname =>
    refine iff_of_true (funext fun name => ?_) (.inr ⟨hdraft, by simp [hother]⟩)
    rw [hleft, onlyAt, if_neg fun hsame => hindexed (hsame.1.trans hdbname), if_neg (by simp)]
  | deleted =>
    refine iff_of_true (funext fun name => ?_) (.inl (by simp))
    simp only [onlyAt, Function.update_apply, hleft]
    grind
  | restored hdeleted => exact absurd (hprev.symm.trans hdeleted) (by simp)
  | live =>
    refine iff_of_true (funext fun name => ?_) (.inl (by simp))
    simp only [onlyAt, Function.update_apply, hleft]
    grind

end Turn

theorem uri_told (c : Change) : (told c).uri = c.id := by
  cases c <;> rfl

theorem indexAll_elements (states : States) (opId : ℕ) (c : Change) :
    st.indexAll indexing π onto (c.elements states opId) =
      (st.indexMsg π onto
        (messageOf indexing ⟨.put, opId + 1, states.stateOf c.id, some (told c)⟩)).1 := by
  cases c with
  | put state => rfl
  | remove mark isMark =>
    have hremove : ∀ st : IndexState, (st.indexMsg π onto
        (messageOf indexing ⟨.remove, opId + 2, none, none⟩)).1 = st := fun st =>
      congrArg Prod.fst (if_pos rfl)
    exact hremove _

theorem docsOfState_eq (s : Option State) :
    ∃ doc, docsOfState indexing schema s = onlyAt (s.bind (placeOf schema)) doc := by
  cases s with
  | none => exact ⟨⟨"", [], ⟨[], [], []⟩⟩, (onlyAt_none _).symm⟩
  | some s => exact ⟨_, rfl⟩

theorem Tells.turn_iff (h : Tells states latest)
    (hdeleted : ∀ types, dbnameOfTypes schema types ≠ "deleted") {doc doc' : Document}
    {own' : OwnDocs}
    (hturn : Turn ((states.stateOf c.id).getD .empty) (told c)
      (dbnameOfTypes schema (typesOf ((states.stateOf c.id).getD .empty)))
      (dbnameOfTypes schema (typesOf (told c))) doc
      (onlyAt ((latest c.id).bind (placeOf schema)) doc') (placeOf schema (told c)) own') :
    own' = onlyAt (placeOf schema (told c)) doc ↔ Settles schema states latest c := by
  unfold Settles
  cases hplace : (latest c.id).bind (placeOf schema) with
  | none =>
    rw [hplace] at hturn
    exact iff_of_true (hturn.eq_of_none (hdeleted _)) (by simp)
  | some q =>
    obtain ⟨s, hlatest, hs⟩ := Option.bind_eq_some_iff.mp hplace
    rw [hplace] at hturn
    simp only [Option.some.injEq, forall_eq']
    rcases h.stored c.id with hstored | ⟨hstored, mark, isMark, hmark⟩
    · rw [hstored, hlatest, Option.getD_some] at hturn
      have hnone : ¬ isDraft s = true ∧ ¬ isOtherVersion s = true := by
        constructor <;> intro hflag <;> simp [placeOf, hflag] at hs
      rw [placeOf, if_neg hnone.1, if_neg hnone.2] at hs
      split_ifs at hs with his hroute
      · obtain rfl := Option.some.inj hs
        rw [hturn.eq_iff_deleted (hdeleted _) (hdeleted _), if_pos rfl, hstored, hlatest]
        simp [his]
      · obtain rfl := Option.some.inj hs
        rw [hturn.eq_iff_live (hdeleted _) hroute (h.named _ s hlatest).2
          (Bool.eq_false_of_not_eq_true his), if_neg (hdeleted _)]
    · rw [hmark] at hlatest
      obtain rfl := Option.some.inj hlatest
      obtain rfl := Option.some.inj ((placeOf_mark isMark).symm.trans hs)
      rw [hstored, Option.getD_none] at hturn
      rw [hturn.eq_iff_deleted (hdeleted _) (hdeleted _), if_pos rfl, hstored]
      simp [show isDeleted State.empty = false from rfl]

theorem docsOf_others (hfiles : st.Files indexing schema latest)
    (hordinary : Ordinary indexing schema latest c) {msg : Message}
    (hmsg : msg.newIndv.uri = c.id) {id : String} (hid : id ≠ c.id) (name : String) :
    (st.indexMsg π onto msg).1.docsOf name id = st.docsOf name id := by
  have hothers : ∀ st : IndexState, st.docsOf name id =
      (st.others c.id name).filter fun doc => doc.data = id := by
    intro st
    rw [IndexState.docsOf, IndexState.others, List.filter_filter]
    refine List.filter_congr fun doc _ => ?_
    by_cases hdoc : doc.data = id
    · simp [hdoc, hid]
    · simp [hdoc]
  rw [hothers, hothers st, ← hmsg, IndexState.thins_indexMsg π onto st msg name]
  split_ifs
  · refine congrArg (List.filter _) (List.filter_eq_self.mpr fun doc hdoc => ?_)
    obtain ⟨hdoc, hne⟩ := List.mem_filter.mp hdoc
    rw [hmsg] at hne ⊢
    have hown : doc ∈ st.docsOf name doc.data := List.mem_filter.mpr ⟨hdoc, by simp⟩
    have hne' : doc.data ≠ c.id := by simpa using hne
    rw [show st.docsOf name doc.data = _ from congrFun (hfiles doc.data) name] at hown
    cases hlatest : latest doc.data with
    | none =>
      rw [hlatest] at hown
      cases hown
    | some s =>
      rw [hlatest, docsOfState, onlyAt] at hown
      split_ifs at hown with hplace
      · obtain ⟨hterm, hwords⟩ := hordinary.apart _ s hlatest hne' (by rw [hplace]; simp)
        have hdocument := List.mem_singleton.mp hown
        have hnot : ¬ doc.HasTerm (uuid c.id) := by
          rintro (hsame | hword)
          · exact hterm hsame
          · rw [hdocument] at hword
            exact hwords hword
        simpa using hnot
      · cases hown
  · rfl

/-- **One change**: the databases hold the documents of the latest states afterwards exactly when
the document of the individual, if there is one, settles. -/
theorem files_iff (hconfigured : st.Configured schema)
    (hfiles : st.Files indexing schema latest) (htells : Tells states latest)
    (hordinary : Ordinary indexing schema latest c) (opId : ℕ) :
    (st.indexAll indexing π onto (c.elements states opId)).Configured schema ∧
      ((st.indexAll indexing π onto (c.elements states opId)).Files indexing schema
        (latest.tell c) ↔ Settles schema states latest c) := by
  obtain ⟨msg, hmsg⟩ :
    ∃ msg, msg = messageOf indexing ⟨.put, opId + 1, states.stateOf c.id, some (told c)⟩ := ⟨_, rfl⟩
  have hnew : msg.newIndv = told c := by rw [hmsg]; rfl
  have huri : msg.newIndv.uri = c.id := by rw [hnew, uri_told]
  have hone : (fun n => (st.indexMsg π onto msg).1.docsOf n msg.newIndv.uri) = _ ∧
      (st.indexMsg π onto msg).1.Configured schema :=
    IndexState.docsOf_indexMsg hconfigured (by rw [hmsg]; exact (by decide : IndvOp.put ≠ .remove))
      (by rw [hnew]; exact hordinary.nonempty) (by rw [hnew]; exact hordinary.noClassIndex)
      (by rw [hmsg]; rfl) (by rw [hmsg]; rfl)
  obtain ⟨hown, hconfigured'⟩ := hone
  obtain ⟨doc, hdoc⟩ := @docsOfState_eq indexing schema (latest c.id)
  have hprev : msg.prevIndv = (states.stateOf c.id).getD .empty := by rw [hmsg]; rfl
  rw [indexAll_elements, ← hmsg]
  refine ⟨hconfigured', ?_⟩
  rw [huri, hfiles c.id, hdoc, hnew, hprev] at hown
  have hdocument : docsOfState indexing schema (some (told c)) =
      onlyAt (placeOf schema (told c)) ⟨c.id, (indexing (told c)).1, (indexing (told c)).2⟩ := by
    rw [docsOfState, documentOf, uri_told]
  rw [← htells.turn_iff hconfigured.not_deleted (turn_nextDocs _ _ _ _ _)]
  constructor
  · intro h
    have hnow := h c.id
    rw [Latest.tell, Function.update_self, hown, hdocument] at hnow
    exact hnow
  · intro h id
    rw [Latest.tell]
    by_cases hid : id = c.id
    · rw [hid, Function.update_self, hown, hdocument]
      exact h
    · rw [Function.update_of_ne hid, ← hfiles id]
      exact funext fun name => docsOf_others hfiles hordinary huri hid name

/-! ## Every history -/

theorem Tells.tell (h : Tells states latest) (hnonempty : (told c).obj.isEmpty = false) :
    Tells (states.apply c) (latest.tell c) := by
  refine ⟨fun id s hs => ?_, fun id => ?_⟩
  · by_cases hid : id = c.id
    · rw [Latest.tell, hid, Function.update_self] at hs
      rw [← Option.some.inj hs, hid]
      exact ⟨uri_told c, hnonempty⟩
    · rw [Latest.tell, Function.update_of_ne hid] at hs
      exact h.named id s hs
  · by_cases hid : id = c.id
    · rw [Latest.tell, hid, Function.update_self, States.stateOf_apply_self]
      cases c with
      | put state => exact .inl rfl
      | remove mark isMark => exact .inr ⟨rfl, mark, isMark, rfl⟩
    · rw [Latest.tell, Function.update_of_ne hid, States.stateOf_apply_of_ne _ hid]
      exact h.stored id

/-- Every change of a history is ordinary. -/
def OrdinaryHistory (indexing : State → List String × IndexDocWorkplace) (schema : IndexerSchema) :
    Latest → List Change → Prop
  | _, [] => True
  | latest, c :: cs => Ordinary indexing schema latest c ∧
    OrdinaryHistory indexing schema (latest.tell c) cs

/-- Every change of a history settles its document. -/
def Settled (schema : IndexerSchema) : States → Latest → List Change → Prop
  | _, _, [] => True
  | states, latest, c :: cs => Settles schema states latest c ∧
    Settled schema (states.apply c) (latest.tell c) cs

/-- **The databases follow the storage**: they hold the documents of the latest states, in their
places and with their contents, all through a history exactly when every change settles.

**Proof sketch.** Induction on the history; what one change does is `files_iff`. -/
theorem files_throughout_iff (hconfigured : st.Configured schema)
    (hfiles : st.Files indexing schema latest) (htells : Tells states latest) {cs : List Change}
    (hordinary : OrdinaryHistory indexing schema latest cs) (opId : ℕ) :
    (∀ cs', cs' <+: cs → (st.indexAll indexing π onto (announced states opId cs')).Files indexing
        schema (cs'.foldl Latest.tell latest)) ↔ Settled schema states latest cs := by
  induction cs generalizing st states latest opId with
  | nil =>
    refine iff_of_true (fun cs' hcs' => ?_) trivial
    rw [List.prefix_nil.mp hcs']
    exact hfiles
  | cons c cs ih =>
    obtain ⟨hc, hrest⟩ := hordinary
    obtain ⟨hconfigured', hiff⟩ :=
      @files_iff indexing π onto schema st states latest c hconfigured hfiles htells hc opId
    have happend : ∀ cs' : List Change,
        st.indexAll indexing π onto (announced states opId (c :: cs')) =
          (st.indexAll indexing π onto (c.elements states opId)).indexAll indexing π onto
            (announced (states.apply c) (opId + (c.elements states opId).length) cs') := fun cs' =>
      List.foldl_append
    constructor
    · intro h
      have hnow := h [c] (List.prefix_append [c] cs)
      rw [happend] at hnow
      exact ⟨hiff.mp hnow, (ih hconfigured' hnow (htells.tell hc.nonempty) hrest _).mp
        fun cs' hcs' => by
          have hlater := h (c :: cs') (List.prefix_cons_iff.mpr (.inr ⟨cs', rfl, hcs'⟩))
          rwa [happend] at hlater⟩
    · rintro ⟨hsettles, hsettled⟩ cs' hcs'
      rcases List.prefix_cons_iff.mp hcs' with rfl | ⟨cs'', rfl, hcs''⟩
      · exact hfiles
      · rw [happend]
        exact (ih hconfigured' (hiff.mpr hsettles) (htells.tell hc.nonempty) hrest _).mpr hsettled
          cs'' hcs''

end Steps

/-! ### A document that is removed -/

/-- The databases for individuals of all classes and for deleted ones, both empty. -/
def emptyDatabases : IndexState where
  indexDbs name := if name = "base" ∨ name = "deleted" then some ⟨[], []⟩ else none
  idxSchema := .empty
  useDb := ""
  committedOpId := 0
  preparedOpId := 0

theorem dbnameOfTypes_empty (types : List String) : dbnameOfTypes .empty types = "base" := by
  induction types with
  | nil => rfl
  | cons type types ih =>
    have htype : IndexerSchema.empty.getDbnameOfClass type = "base" := rfl
    rw [dbnameOfTypes, htype, if_neg (by decide), ih]

/-- A document is put and removed. -/
def removedDocument : List Change :=
  [.put ((State.named "d:A").addValue "rdf:type" .uri (.uri "v-s:Document")),
    .remove (markOf "d:A" 2) (isMark_markOf "d:A" 2)]

theorem files_throughout_removedDocument :
    (∀ cs', cs' <+: removedDocument →
      (emptyDatabases.indexAll (fun _ => ([], ⟨[], [], []⟩)) (.stored String) .empty
        (announced .none 0 cs')).Files (fun _ => ([], ⟨[], [], []⟩)) .empty
          (cs'.foldl Latest.tell fun _ => none)) ↔
      Settled .empty .none (fun _ => none) removedDocument := by
  have hconfigured : emptyDatabases.Configured .empty := by
    refine ⟨rfl, rfl, rfl, fun types => ?_, fun types _ => ?_⟩ <;> rw [dbnameOfTypes_empty]
    · decide
    · rfl
  have hfiles : emptyDatabases.Files (fun _ => ([], ⟨[], [], []⟩)) .empty fun _ => none := fun id => by
    funext name
    simp only [IndexState.docsOf, IndexState.docs, emptyDatabases]
    split_ifs <;> rfl
  have htells : Tells .none fun _ => none := ⟨fun id s hs => (by cases hs), fun id => .inl rfl⟩
  have hordinary : OrdinaryHistory (fun _ => ([], ⟨[], [], []⟩)) .empty (fun _ => none)
      removedDocument := by
    refine ⟨⟨by decide, by decide, fun id s hs => (by cases hs)⟩,
      ⟨by decide, by decide, fun id s hs hne => ?_⟩, trivial⟩
    have hnone : (Latest.tell (fun _ => none)
        (.put ((State.named "d:A").addValue "rdf:type" .uri (.uri "v-s:Document")))) id = none :=
      Function.update_of_ne hne _ _
    cases hnone.symm.trans hs
  exact files_throughout_iff hconfigured hfiles htells hordinary 0

end Veda.FtIndexer
