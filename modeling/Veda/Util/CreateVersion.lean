import Veda.Lib.LinkedList
import Veda.V8.Transaction

set_option autoImplicit false

/-!
# The versions of a document

When a document of a versioned class was saved, a script makes a snapshot of it: a new individual
that has the contents of the document, is linked back to the snapshot before it and forth to the
document. The snapshot before it is linked forth to the new one, and the document back.

The script runs later, on the element of the queue that the save has left. It reads the document as
it is stored then, and tells from the link back of the document, and from that of the state before
the save, whether a snapshot was made in between. The individuals that it puts are stored one after
another, and the users go on saving meanwhile.

## Main definitions

* `Util.createVersion` — the individuals that a run of the script puts.
* `Util.VersionState`, `Util.VersionState.step` — the document in the storage, the queue
  and the users.
* `Util.UpToDate` — the condition of a save: the links that its user has read are still there.
* `Util.OneChain` — the snapshots and the document are one doubly linked list.

## Main results

* `Util.oneChain_of_handled` — once all is handled, there is one chain.

## Design

The links are uris or texts. An error that the script meets ends it, and what it has put until then
is stored. The actor of an event is an input, and so are the clock and the ids of `genUri`. An
element whose event does not start the script is skipped.
-/

namespace Veda.Util

open Veda.Lib Veda.Onto

/-! ## The script -/

/-- The text of a link. -/
def textOf : Value → Option String
  | .str s _ => some s
  | .uri s => some s
  | _ => none

/-- `getUri` of the values of a predicate. -/
def getUri (values : List Resource) : Option String :=
  values.head?.bind fun r => textOf r.value

/-- The uri under a predicate. -/
def uriAt (obj : IndividualObj) (predicate : String) : Option String :=
  (obj.resources.lookup predicate).bind getUri

/-- An array of values is assigned to a predicate; an empty one is stored as no value. -/
def assign (obj : IndividualObj) (predicate : String) (values : List Resource) : IndividualObj :=
  if values = [] then { obj with resources := obj.resources.erase predicate }
  else obj.setResources predicate values

/-- The first condition of `create_version`: there is no snapshot yet, or the document is the actual
version and none was made since the state before the save. -/
def makesVersion (document : IndividualObj) (prevState : Option IndividualObj) : Bool :=
  match document.resources.lookup "v-s:actualVersion" with
  | none => true
  | some actualVersion =>
    getUri actualVersion = some document.uri &&
      match document.resources.lookup "v-s:previousVersion",
        prevState.bind fun p => p.resources.lookup "v-s:previousVersion" with
      | none, none => true
      | some a, some b => (getUri a).isSome && getUri a = getUri b
      | _, _ => false

/-- The snapshot, made of the stored document. -/
def versionOf (stored prevState : IndividualObj) (versionUri actor : String) (now : Int64) :
    IndividualObj :=
  let version := { stored with uri := versionUri }
  let version := assign version "v-s:previousVersion"
    ((prevState.resources.lookup "v-s:previousVersion").getD [])
  let version := version.setUri "v-s:actualVersion" stored.uri
  let version := version.setUri "v-s:nextVersion" stored.uri
  let version := version.addUri "rdf:type" "v-s:Version"
  let version := version.setValue "v-s:created" .datetime (.datetime now)
  let version := assign version "v-s:edited" []
  let version := version.setUri "v-s:creator" actor
  assign version "v-s:lastEditor" []

/-- `s.split(':').join('_')`. -/
def plainId (s : String) : String := s.map fun c => if c = ':' then '_' else c

def membershipUri (versionUri actualId : String) : String :=
  "d:membership_" ++ plainId versionUri ++ "_" ++ plainId actualId

/-- The membership that gives the rights on the document to its snapshot. -/
def membershipOf (versionUri actualId : String) : IndividualObj :=
  let membership : IndividualObj := ⟨membershipUri versionUri actualId, ∅⟩
  let membership := membership.setUri "rdf:type" "v-s:Membership"
  let membership := membership.setUri "v-s:memberOf" actualId
  let membership := membership.setUri "v-s:resource" versionUri
  let membership := membership.setString "rdfs:comment"
    "создано: server script veda.Util.create_version ()" .none
  membership.setBool "v-s:canRead" true

/-- The document that is put at the end. -/
def actualOf (document : IndividualObj) (versionUri actor : String) (now : Int64) :
    IndividualObj :=
  let document := document.setUri "v-s:previousVersion" versionUri
  let document := document.setUri "v-s:actualVersion" document.uri
  let document := assign document "v-s:nextVersion" []
  let document := document.setValue "v-s:edited" .datetime (.datetime now)
  document.setUri "v-s:lastEditor" actor

/-- The storage after some individuals were put. -/
def putAll (store : V8.Store) (puts : List IndividualObj) : V8.Store :=
  puts.foldl (fun store x => Function.update store x.uri (some x)) store

/-- `create_version`: the individuals that are put. The script reads the document anew, and the
snapshot before it after the first two puts. -/
def createVersion (store : V8.Store) (versionUri actor : String) (now : Int64)
    (document : IndividualObj) (prevState : Option IndividualObj) : List IndividualObj :=
  if makesVersion document prevState then
    match store document.uri with
    | none => []
    | some stored =>
      -- without a type, `concat` throws
      if "rdf:type" ∉ stored.resources.keys then []
      else
        let puts := [versionOf stored (prevState.getD document) versionUri actor now,
          membershipOf versionUri document.uri]
        match document.resources.lookup "v-s:previousVersion" with
        | none => puts ++ [actualOf document versionUri actor now]
        | some values =>
          match (getUri values).bind (putAll store puts) with
          -- without the snapshot before it, the assignment of the link throws
          | none => puts
          | some previous =>
            puts ++ [previous.setUri "v-s:nextVersion" versionUri,
              actualOf document versionUri actor now]
  else []

/-! ## The runs -/

/-- The predicates of the links. -/
def linkPredicates : List String :=
  ["v-s:previousVersion", "v-s:actualVersion", "v-s:nextVersion"]

/-- The links of a state of the document. -/
def linksOf (state : Option IndividualObj) : List (Option (List Resource)) :=
  linkPredicates.map fun p => state.bind fun obj => obj.resources.lookup p

structure VersionState where
  store : V8.Store
  /-- the states before the saves whose elements are in the queue -/
  queue : List (Option IndividualObj)
  /-- the individuals of the running script that are not stored yet -/
  pending : List IndividualObj
  /-- the uris of the snapshots, the newest first -/
  snapshots : List String
  /-- the document as each user has read or saved it last -/
  lastRead : ℕ → Option IndividualObj

inductive VersionAction
  /-- a user reads the document -/
  | read (user : ℕ)
  /-- a user saves the document -/
  | save (user : ℕ) (document : IndividualObj)
  /-- the script runs on the next element -/
  | handle (actor : String) (now : Int64)
  /-- the next element does not start the script -/
  | skip
  /-- the next individual of the script is stored -/
  | put

section

variable (genUri : ℕ → String) (docId : String)

/-- The id of the snapshot with the number `n`. -/
def versionId (n : ℕ) : String := genUri n ++ "-vr"

namespace VersionState

/-- The document is not saved yet. -/
def init (store : V8.Store) : VersionState where
  store := store
  queue := []
  pending := []
  snapshots := []
  lastRead _ := none

/-- A step of the users, of the script or of the storage, when it is possible. -/
def step (s : VersionState) : VersionAction → Option VersionState
  | .read user => some { s with lastRead := Function.update s.lastRead user (s.store docId) }
  | .save user document =>
    some { s with
      store := Function.update s.store docId (some document)
      queue := s.queue ++ [s.store docId]
      lastRead := Function.update s.lastRead user (some document) }
  | .handle actor now =>
    match s.pending, s.queue with
    | [], prevState :: queue =>
      -- the document that is given to the script is the one that is stored
      let puts := match s.store docId with
        | some document =>
          createVersion s.store (versionId genUri s.snapshots.length) actor now document prevState
        | none => []
      some { s with
        queue
        pending := puts
        snapshots := (puts.head?.map IndividualObj.uri).toList ++ s.snapshots }
    | _, _ => none
  | .skip =>
    match s.pending, s.queue with
    | [], _ :: queue => some { s with queue }
    | _, _ => none
  | .put =>
    match s.pending with
    | [] => none
    | x :: pending =>
      some { s with
        store := Function.update s.store x.uri (some x)
        queue := if x.uri = docId then s.queue ++ [s.store docId] else s.queue
        pending }

end VersionState

/-- A save is one of the document, and it keeps the links that the user has read. -/
def KeepsLinks (s : VersionState) : VersionAction → Prop
  | .save user document =>
    document.uri = docId ∧ linksOf (some document) = linksOf (s.lastRead user)
  | _ => True

/-- **The condition of a save**: the links that the user has read are those that are stored. -/
def UpToDate (s : VersionState) : VersionAction → Prop
  | .save user _ => linksOf (s.lastRead user) = linksOf (s.store docId)
  | _ => True

/-- The states that are reached from one without the document by saves that keep the links and meet
`cond`. -/
inductive Reached (cond : VersionState → VersionAction → Prop) : VersionState → Prop
  | init {store : V8.Store} (h : store docId = none) : Reached cond (.init store)
  | step {s s' : VersionState} {action : VersionAction} (h : Reached cond s)
      (hkeeps : KeepsLinks docId s action) (hcond : cond s action)
      (hstep : s.step genUri docId action = some s') : Reached cond s'

/-- The ids that `genUri` gives are fresh. -/
structure FreshIds : Prop where
  injective : Function.Injective genUri
  ne_document : ∀ n, versionId genUri n ≠ docId
  ne_membership : ∀ n m, versionId genUri n ≠ membershipUri (versionId genUri m) docId

/-- The link of a stored individual. -/
def linkIn (store : V8.Store) (predicate : String) (id : String) : Option String :=
  (store id).bind fun obj => uriAt obj predicate

/-- **One chain**: some order of the snapshots is a doubly linked list that ends in the document,
and each snapshot is in it once. -/
def OneChain (s : VersionState) : Prop :=
  ∃ versions : List String, versions.Perm s.snapshots ∧ (docId :: versions).Nodup ∧
    DoublyLinked (linkIn s.store "v-s:previousVersion") (linkIn s.store "v-s:nextVersion")
      docId versions ∧
    linkIn s.store "v-s:nextVersion" docId = none

end

/-! ## What is under a predicate -/

section

variable {obj : IndividualObj} {p q : String}

theorem uriAt_setValue (rtype : DataType) (value : Value) :
    uriAt (obj.setValue p rtype value) q = if q = p then textOf value else uriAt obj q := by
  rw [uriAt, IndividualObj.lookup_setValue]
  split_ifs <;> rfl

theorem uriAt_setUri (s : String) :
    uriAt (obj.setUri p s) q = if q = p then some s else uriAt obj q :=
  uriAt_setValue _ _

theorem uriAt_addUri (s : String) (h : q ≠ p) : uriAt (obj.addUri p s) q = uriAt obj q := by
  rw [uriAt, IndividualObj.addUri, IndividualObj.lookup_addValue, if_neg h, uriAt]

theorem lookup_assign (values : List Resource) (h : q ≠ p) :
    (assign obj p values).resources.lookup q = obj.resources.lookup q := by
  unfold assign
  split_ifs
  · exact AList.lookup_erase_ne h
  · exact AList.lookup_insert_ne h

theorem lookup_assign_nil : (assign obj p []).resources.lookup p = none :=
  AList.lookup_erase _ _

theorem uriAt_assign (values : List Resource) :
    uriAt (assign obj p values) q = if q = p then getUri values else uriAt obj q := by
  split_ifs with h
  · subst h
    unfold uriAt assign
    split_ifs with hvalues
    · rw [AList.lookup_erase, hvalues]
      rfl
    · rw [IndividualObj.setResources, AList.lookup_insert]
      rfl
  · rw [uriAt, lookup_assign values h, uriAt]

@[simp] theorem uri_assign (values : List Resource) : (assign obj p values).uri = obj.uri := by
  unfold assign
  split_ifs <;> rfl

@[simp] theorem uri_setUri (s : String) : (obj.setUri p s).uri = obj.uri := rfl

end

section

variable {stored document prevState : IndividualObj} {versionUri actor : String} {now : Int64}

@[simp] theorem uri_versionOf :
    (versionOf stored prevState versionUri actor now).uri = versionUri := by
  simp [versionOf, IndividualObj.addUri]

theorem uriAt_versionOf_previous :
    uriAt (versionOf stored prevState versionUri actor now) "v-s:previousVersion" =
      uriAt prevState "v-s:previousVersion" := by
  simp only [versionOf, uriAt_assign, uriAt_setUri, uriAt_setValue]
  simp only [String.reduceEq, if_false]
  rw [uriAt_addUri _ (by decide)]
  simp only [uriAt_assign, uriAt_setUri, String.reduceEq, if_false, if_true]
  unfold uriAt
  cases prevState.resources.lookup "v-s:previousVersion" <;> rfl

theorem uriAt_versionOf_next :
    uriAt (versionOf stored prevState versionUri actor now) "v-s:nextVersion" =
      some stored.uri := by
  simp only [versionOf, uriAt_assign, uriAt_setUri, uriAt_setValue]
  simp only [String.reduceEq, if_false]
  rw [uriAt_addUri _ (by decide)]
  simp only [uriAt_setUri, if_true]

@[simp] theorem uri_actualOf : (actualOf document versionUri actor now).uri = document.uri := by
  simp [actualOf]

theorem uriAt_actualOf_previous :
    uriAt (actualOf document versionUri actor now) "v-s:previousVersion" = some versionUri := by
  simp only [actualOf, uriAt_assign, uriAt_setUri, uriAt_setValue, String.reduceEq, if_false,
    if_true]

theorem uriAt_actualOf_actual :
    uriAt (actualOf document versionUri actor now) "v-s:actualVersion" = some document.uri := by
  simp only [actualOf, uriAt_assign, uriAt_setUri, uriAt_setValue, String.reduceEq, if_false,
    if_true, uri_setUri]

theorem lookup_actualOf_next :
    (actualOf document versionUri actor now).resources.lookup "v-s:nextVersion" = none := by
  unfold actualOf
  dsimp only [IndividualObj.setUri]
  rw [IndividualObj.lookup_setValue, if_neg (by decide), IndividualObj.lookup_setValue,
    if_neg (by decide)]
  exact lookup_assign_nil

end

/-! ## Puts -/

section

variable {store : V8.Store} {puts : List IndividualObj} {x : IndividualObj} {id : String}

@[simp] theorem putAll_nil : putAll store [] = store := rfl

@[simp] theorem putAll_cons :
    putAll store (x :: puts) = putAll (Function.update store x.uri (some x)) puts := rfl

theorem putAll_of_notMem (h : ∀ x ∈ puts, x.uri ≠ id) : putAll store puts id = store id := by
  induction puts generalizing store with
  | nil => rfl
  | cons x puts ih =>
    rw [putAll_cons, ih fun y hy => h y (List.mem_cons_of_mem x hy),
      Function.update_of_ne (h x List.mem_cons_self).symm]

theorem putAll_of_mem (hnodup : (puts.map IndividualObj.uri).Nodup) (hx : x ∈ puts) :
    putAll store puts x.uri = some x := by
  induction puts generalizing store with
  | nil => cases hx
  | cons y puts ih =>
    obtain ⟨hy, hrest⟩ := List.nodup_cons.mp hnodup
    rw [putAll_cons]
    rcases List.mem_cons.mp hx with rfl | hx
    · rw [putAll_of_notMem fun z hz (huri : z.uri = x.uri) => hy (huri ▸ List.mem_map_of_mem hz),
        Function.update_self]
    · exact ih hrest hx

theorem named_putAll (h : ∀ x, store id = some x → x.uri = id) :
    ∀ x, putAll store puts id = some x → x.uri = id := by
  induction puts generalizing store with
  | nil => exact h
  | cons y puts ih =>
    refine ih fun x (hx : Function.update store y.uri (some y) id = some x) => ?_
    by_cases hy : id = y.uri
    · rw [hy, Function.update_self] at hx
      rw [hy, Option.some.inj hx]
    · rw [Function.update_of_ne hy] at hx
      exact h x hx

theorem putAll_update_of_mem (value : Option IndividualObj) (h : ∃ x ∈ puts, x.uri = id) :
    putAll (Function.update store id value) puts = putAll store puts := by
  induction puts generalizing store value with
  | nil => obtain ⟨x, hx, -⟩ := h; cases hx
  | cons x puts ih =>
    rw [putAll_cons, putAll_cons]
    by_cases hx : x.uri = id
    · rw [hx, Function.update_idem]
    · obtain ⟨y, hy, huri⟩ := h
      rw [Function.update_comm (Ne.symm hx)]
      refine ih _ ⟨y, (List.mem_cons.mp hy).resolve_left ?_, huri⟩
      rintro rfl
      exact hx huri

end

/-! ## Ids -/

theorem length_plainId (s : String) : (plainId s).length = s.length := by
  rw [plainId, String.length_map]

theorem membershipUri_ne (versionUri actualId : String) :
    membershipUri versionUri actualId ≠ actualId := by
  intro h
  have hlength := congrArg String.length h
  simp only [membershipUri, String.length_append, length_plainId] at hlength
  have htext : "d:membership_".length = 13 := by decide
  omega

/-! ## The end of a chain -/

/-- The document as it is stored at the end of a chain. -/
structure EndsChain (docId : String) (versions : List String) (document : IndividualObj) :
    Prop where
  uri : document.uri = docId
  next : document.resources.lookup "v-s:nextVersion" = none
  unversioned : versions = [] → document.resources.lookup "v-s:previousVersion" = none ∧
    document.resources.lookup "v-s:actualVersion" = none
  versioned : versions ≠ [] → uriAt document "v-s:actualVersion" = some docId

section

variable {docId : String} {versions : List String} {document document' : IndividualObj}
  {state : Option IndividualObj} {p : String}

theorem lookup_of_linksOf (h : linksOf (some document) = linksOf state) (hp : p ∈ linkPredicates) :
    document.resources.lookup p = state.bind fun obj => obj.resources.lookup p :=
  List.map_inj_left.mp h p hp

theorem EndsChain.congr (h : EndsChain docId versions document) (huri : document'.uri = docId)
    (hlinks : linksOf (some document') = linksOf (some document)) :
    EndsChain docId versions document' := by
  have hsame : ∀ p ∈ linkPredicates, document'.resources.lookup p = document.resources.lookup p :=
    fun p hp => lookup_of_linksOf hlinks hp
  refine ⟨huri, (hsame _ (by decide)).trans h.next, ?_, ?_⟩
  · rw [hsame _ (by decide), hsame _ (by decide)]
    exact h.unversioned
  · rw [uriAt, hsame _ (by decide)]
    exact h.versioned

theorem EndsChain.unlinked (huri : document.uri = docId)
    (hlinks : linksOf (some document) = linksOf none) : EndsChain docId [] document := by
  have hnone : ∀ p ∈ linkPredicates, document.resources.lookup p = none :=
    fun p hp => lookup_of_linksOf hlinks hp
  exact ⟨huri, hnone _ (by decide), fun _ => ⟨hnone _ (by decide), hnone _ (by decide)⟩,
    fun h => absurd rfl h⟩

end

/-! ## A new snapshot -/

/-- The links of a storage are those of one chain of the snapshots `versions`. -/
def ChainIn (docId : String) (store : V8.Store) (versions : List String) : Prop :=
  DoublyLinked (linkIn store "v-s:previousVersion") (linkIn store "v-s:nextVersion") docId versions

section

variable {docId v m : String} {versions : List String} {store : V8.Store}
  {document : IndividualObj} {prevState : Option IndividualObj}

theorem linkIn_of_some {p : String} {x : IndividualObj} (h : store v = some x) :
    linkIn store p v = uriAt x p := by
  rw [linkIn, h, Option.bind_some]

/-- What a run puts after the snapshot and its membership. -/
structure Relinks (docId v : String) (versions : List String) (store : V8.Store)
    (previous : Option IndividualObj) : Prop where
  uri : previous.map IndividualObj.uri = versions.head?
  forth : ∀ x ∈ previous, uriAt x "v-s:nextVersion" = some v
  back : ∀ x ∈ previous, uriAt x "v-s:previousVersion" = linkIn store "v-s:previousVersion" x.uri

/-- The script has read the document at the end of a chain and makes a snapshot: the snapshot is
linked back as the document was, and the snapshot before it is put again.

**Proof sketch.** Without a snapshot in front of the document there is no link back, neither in the
document nor in the state before the save. With one, the document is linked to it, and so was the
state before the save, or else the condition of the script would not have been met. -/
theorem createVersion_cases (actor : String) (now : Int64)
    (hstore : store docId = some document) (hchain : ChainIn docId store versions)
    (hends : EndsChain docId versions document)
    (hnamed : ∀ u ∈ versions, ∀ x, store u = some x → x.uri = u)
    (hprev : versions = [] → ∀ d, prevState = some d →
      d.resources.lookup "v-s:previousVersion" = none)
    (hv : v ∉ versions) (hm : membershipUri v docId ∉ versions) :
    createVersion store v actor now document prevState = [] ∨
      uriAt (prevState.getD document) "v-s:previousVersion" = versions.head? ∧
        ∃ previous, Relinks docId v versions store previous ∧
          createVersion store v actor now document prevState =
            versionOf document (prevState.getD document) v actor now :: membershipOf v docId ::
              (previous.toList ++ [actualOf document v actor now]) := by
  obtain rfl := hends.uri
  by_cases hmakes : makesVersion document prevState = true
  swap
  · exact .inl (by rw [createVersion, if_neg hmakes])
  by_cases htype : "rdf:type" ∈ document.resources.keys
  swap
  · exact .inl (by rw [createVersion, if_pos hmakes, hstore]; exact if_pos htype)
  right
  cases versions with
  | nil =>
    obtain ⟨hnone, -⟩ := hends.unversioned rfl
    refine ⟨?_, none, ⟨rfl, nofun, nofun⟩, ?_⟩
    · cases prevState with
      | none => rw [Option.getD_none, uriAt, hnone]; rfl
      | some d => rw [Option.getD_some, uriAt, hprev rfl d rfl]; rfl
    · rw [createVersion, if_pos hmakes, hstore]
      dsimp only
      rw [if_neg (not_not.mpr htype), hnone]
      rfl
  | cons w versions =>
    obtain ⟨hback, hforth, -⟩ := hchain
    rw [linkIn_of_some hstore] at hback
    obtain ⟨values, hvalues, huri⟩ := Option.bind_eq_some_iff.mp hback
    obtain ⟨x, hx, -⟩ := Option.bind_eq_some_iff.mp hforth
    have hactual := hends.versioned (List.cons_ne_nil w versions)
    obtain ⟨actuals, hactuals, -⟩ := Option.bind_eq_some_iff.mp hactual
    -- the state before the save has the same link back
    have hsame : ∃ d, prevState = some d ∧ uriAt d "v-s:previousVersion" = some w := by
      rw [makesVersion, hactuals, hvalues] at hmakes
      dsimp only at hmakes
      obtain ⟨-, hmakes⟩ := Bool.and_eq_true_iff.mp hmakes
      cases prevState with
      | none => cases hmakes
      | some d =>
        rw [Option.bind_some] at hmakes
        cases hd : d.resources.lookup "v-s:previousVersion" with
        | none => rw [hd] at hmakes; cases hmakes
        | some b =>
          rw [hd] at hmakes
          obtain ⟨-, hmakes⟩ := Bool.and_eq_true_iff.mp hmakes
          exact ⟨d, rfl, by rw [uriAt, hd, Option.bind_some, ← of_decide_eq_true hmakes, huri]⟩
    obtain ⟨d, rfl, hd⟩ := hsame
    have hput : putAll store [versionOf document d v actor now, membershipOf v document.uri] w =
        some x := by
      rw [putAll_of_notMem, hx]
      intro y hy
      rcases List.mem_pair.mp hy with rfl | rfl
      · rw [uri_versionOf]
        exact fun h => hv (h ▸ List.mem_cons_self)
      · exact fun h => hm (h ▸ List.mem_cons_self)
    have hxuri : x.uri = w := hnamed w List.mem_cons_self x hx
    refine ⟨hd, some (x.setUri "v-s:nextVersion" v), ⟨?_, ?_, ?_⟩, ?_⟩
    · rw [Option.map_some, uri_setUri, hxuri]
      rfl
    · intro y hy
      obtain rfl := Option.mem_some_iff.mp hy
      rw [uriAt_setUri, if_pos rfl]
    · intro y hy
      obtain rfl := Option.mem_some_iff.mp hy
      rw [uriAt_setUri, if_neg (by decide), uri_setUri, hxuri, linkIn_of_some hx]
    · rw [createVersion, if_pos hmakes, hstore]
      dsimp only
      rw [if_neg (not_not.mpr htype), hvalues]
      dsimp only [Option.getD_some]
      rw [huri, Option.bind_some, hput]
      rfl

end

/-! ## The chain -/

section

variable {docId v : String} {versions : List String} {store : V8.Store}
  {version membership actual : IndividualObj} {previous : Option IndividualObj}

theorem nodup_uris (hdoc : docId ∉ versions) (hv : v ∉ docId :: versions)
    (hm : membership.uri ∉ v :: docId :: versions) (hversion : version.uri = v)
    (hactual : actual.uri = docId) (hrelinks : Relinks docId v versions store previous) :
    ((version :: membership :: (previous.toList ++ [actual])).map IndividualObj.uri).Nodup := by
  have hhead : ∀ u ∈ previous.toList.map IndividualObj.uri, u ∈ versions := by
    intro u hu
    have huri := hrelinks.uri
    cases previous with
    | none => cases hu
    | some x =>
      obtain rfl : u = x.uri := by simpa using hu
      exact List.mem_of_mem_head? huri.symm
  have hprevious : (previous.toList.map IndividualObj.uri).Nodup := by
    cases previous <;> simp
  simp only [List.map_cons, List.map_append, List.map_nil, hversion, hactual]
  simp only [List.mem_cons, not_or] at hv hm
  refine List.nodup_cons.mpr ⟨?_, List.nodup_cons.mpr ⟨?_, List.nodup_append.mpr
    ⟨hprevious, List.nodup_singleton _, ?_⟩⟩⟩
  · simp only [List.mem_cons, List.mem_append, List.not_mem_nil, or_false, not_or]
    exact ⟨Ne.symm hm.1, fun hu => hv.2 (hhead _ hu), hv.1⟩
  · simp only [List.mem_cons, List.mem_append, List.not_mem_nil, or_false, not_or]
    exact ⟨fun hu => hm.2.2 (hhead _ hu), hm.2.1⟩
  · rintro u hu w hw rfl
    obtain rfl := List.mem_singleton.mp hw
    exact hdoc (hhead _ hu)

/-- The puts of a run make the chain longer by the new snapshot.

**Proof sketch.** The individuals that are put have different uris, so each of them is found in the
storage afterwards, and nothing else has changed. The new snapshot takes over the link back of the
document, and stands directly in front of it. -/
theorem chainIn_putAll (h : ChainIn docId store versions)
    (hnodup : (docId :: versions).Nodup) (hv : v ∉ docId :: versions)
    (hm : membership.uri ∉ v :: docId :: versions) (hversion : version.uri = v)
    (hactual : actual.uri = docId)
    (hback : uriAt version "v-s:previousVersion" = versions.head?)
    (hforth : uriAt version "v-s:nextVersion" = some docId)
    (hlast : uriAt actual "v-s:previousVersion" = some v)
    (hrelinks : Relinks docId v versions store previous) :
    ChainIn docId (putAll store (version :: membership :: (previous.toList ++ [actual])))
      (v :: versions) := by
  obtain ⟨hdoc, hversions⟩ := List.nodup_cons.mp hnodup
  have huris := nodup_uris hdoc hv hm hversion hactual hrelinks
  have hfound : ∀ {x : IndividualObj}, x ∈ version :: membership :: (previous.toList ++ [actual]) →
      ∀ p, linkIn (putAll store (version :: membership :: (previous.toList ++ [actual]))) p x.uri =
        uriAt x p := fun hx p => linkIn_of_some (putAll_of_mem huris hx)
  have hkept : ∀ u ∈ versions, u ∉ versions.head? → ∀ p,
      linkIn (putAll store (version :: membership :: (previous.toList ++ [actual]))) p u =
        linkIn store p u := by
    intro u hu hhead? p
    rw [linkIn, putAll_of_notMem, linkIn]
    intro x hx huri
    simp only [List.mem_cons, List.mem_append, List.not_mem_nil, or_false, Option.mem_toList] at hx
    rcases hx with rfl | rfl | hx | rfl
    · exact hv (List.mem_cons_of_mem _ (by rwa [← hversion, huri]))
    · exact hm (List.mem_cons_of_mem _ (List.mem_cons_of_mem _ (by rwa [huri])))
    · refine hhead? ?_
      rw [← hrelinks.uri, hx, Option.map_some, huri]
      rfl
    · exact hdoc (by rwa [← hactual, huri])
  have hprevious : ∀ u ∈ versions.head?, ∃ x, previous = some x ∧ x.uri = u := by
    intro u hu
    rw [← hrelinks.uri] at hu
    exact Option.map_eq_some_iff.mp hu
  have hmem : ∀ {x}, previous = some x →
      x ∈ version :: membership :: (previous.toList ++ [actual]) := by
    rintro x rfl
    simp
  refine DoublyLinked.insert h ?_ ?_ ?_ ?_ ?_ ?_
  · rw [← hactual, hfound (by simp), hlast]
  · rw [← hversion, hfound (by simp), hforth]
  · rw [← hversion, hfound (by simp), hback, h.prev_last]
  · intro u hu
    obtain ⟨x, hx, rfl⟩ := hprevious u hu
    rw [hfound (hmem hx), hrelinks.forth x hx]
  · intro u hu
    by_cases hu? : u ∈ versions.head?
    · obtain ⟨x, hx, rfl⟩ := hprevious u hu?
      rw [hfound (hmem hx), hrelinks.back x hx]
    · exact hkept u hu hu? _
  · intro u hu
    refine hkept u (List.mem_of_mem_tail hu) ?_ _
    cases versions with
    | nil => cases hu
    | cons w versions =>
      rintro ⟨⟩
      exact (List.nodup_cons.mp hversions).1 hu

end

/-! ## Runs -/

section

variable {genUri : ℕ → String} {docId : String} {s s' : VersionState}

/-- The ids of the first `n` snapshots, the newest first. -/
def versionIds (genUri : ℕ → String) : ℕ → List String
  | 0 => []
  | n + 1 => versionId genUri n :: versionIds genUri n

theorem mem_versionIds {u : String} {n : ℕ} :
    u ∈ versionIds genUri n ↔ ∃ i < n, versionId genUri i = u := by
  induction n with
  | zero => simp [versionIds]
  | succ n ih =>
    rw [versionIds, List.mem_cons, ih]
    constructor
    · rintro (rfl | ⟨i, hi, rfl⟩)
      · exact ⟨n, Nat.lt_succ_self n, rfl⟩
      · exact ⟨i, Nat.lt_succ_of_lt hi, rfl⟩
    · rintro ⟨i, hi, rfl⟩
      rcases Nat.lt_succ_iff_lt_or_eq.mp hi with hi | rfl
      · exact .inr ⟨i, hi, rfl⟩
      · exact .inl rfl

theorem FreshIds.notMem (hfresh : FreshIds genUri docId) (n : ℕ) :
    versionId genUri n ∉ docId :: versionIds genUri n := by
  rw [List.mem_cons, mem_versionIds, not_or]
  refine ⟨hfresh.ne_document n, ?_⟩
  rintro ⟨i, hi, heq⟩
  have huri : genUri i = genUri n := (String.append_left_inj "-vr").mp heq
  exact absurd (hfresh.injective huri) hi.ne

theorem FreshIds.membership_notMem (hfresh : FreshIds genUri docId) (n : ℕ) :
    membershipUri (versionId genUri n) docId ∉
      versionId genUri n :: docId :: versionIds genUri n := by
  rw [List.mem_cons, List.mem_cons, mem_versionIds, not_or, not_or]
  refine ⟨(hfresh.ne_membership n n).symm, membershipUri_ne _ _, ?_⟩
  rintro ⟨i, -, heq⟩
  exact hfresh.ne_membership i n heq

theorem FreshIds.nodup (hfresh : FreshIds genUri docId) (n : ℕ) :
    (docId :: versionIds genUri n).Nodup := by
  induction n with
  | zero => exact List.nodup_singleton docId
  | succ n ih =>
    exact (List.Perm.swap docId (versionId genUri n) _).nodup
      (List.nodup_cons.mpr ⟨hfresh.notMem n, ih⟩)

/-- What holds of the states that are reached when each save is up to date. With the pending puts
made, the snapshots and the document are one chain. -/
structure Inv (genUri : ℕ → String) (docId : String) (s : VersionState) : Prop where
  ids : s.snapshots = versionIds genUri s.snapshots.length
  chain : ChainIn docId (putAll s.store s.pending) s.snapshots
  ends : ∀ document, putAll s.store s.pending docId = some document →
    EndsChain docId s.snapshots document
  named : ∀ u ∈ s.snapshots, ∀ x, putAll s.store s.pending u = some x → x.uri = u
  /-- without a snapshot, no state before a save has a link back -/
  unversioned : s.snapshots = [] → ∀ document, some document ∈ s.queue →
    document.resources.lookup "v-s:previousVersion" = none
  idle : s.snapshots = [] → s.pending = []
  /-- the document is the last individual that the script puts -/
  last : s.pending ≠ [] → ∃ puts x, s.pending = puts ++ [x] ∧ x.uri = docId

theorem Inv.init {store : V8.Store} (h : store docId = none) : Inv genUri docId (.init store) where
  ids := rfl
  chain := by
    change linkIn store "v-s:previousVersion" docId = none
    rw [linkIn, h]
    rfl
  ends document hdocument := by cases h.symm.trans hdocument
  named u hu := by cases hu
  unversioned _ document hdocument := by cases hdocument
  idle _ := rfl
  last h := absurd rfl h

/-- The document was saved with the links that are stored.

**Proof sketch.** While the script puts its individuals, the document among them, a save changes
nothing of what is stored in the end. Otherwise the saved document takes the place of the stored
one, with the same links. -/
theorem Inv.save (h : Inv genUri docId s) (user : ℕ) {document : IndividualObj}
    (huri : document.uri = docId) (hlinks : linksOf (some document) = linksOf (s.store docId))
    (hstep : s.step genUri docId (.save user document) = some s') : Inv genUri docId s' := by
  obtain rfl := Option.some.inj hstep
  obtain ⟨hids, hchain, hends, hnamed, hunversioned, hidle, hlast⟩ := h
  by_cases hpending : s.pending = []
  · rw [hpending, putAll_nil] at hchain hends hnamed
    have hlink : ∀ p ∈ linkPredicates, ∀ u,
        linkIn (Function.update s.store docId (some document)) p u = linkIn s.store p u := by
      intro p hp u
      by_cases hu : u = docId
      · subst hu
        rw [linkIn_of_some (Function.update_self ..), uriAt, lookup_of_linksOf hlinks hp, linkIn]
        cases s.store u <;> rfl
      · rw [linkIn, Function.update_of_ne hu, linkIn]
    refine ⟨hids, ?_, ?_, ?_, ?_, hidle, hlast⟩ <;> dsimp only
    · rw [hpending]
      exact hchain.congr (fun u _ => hlink _ (by decide) u) fun u _ => hlink _ (by decide) u
    · rw [hpending, putAll_nil, Function.update_self]
      rintro d ⟨⟩
      cases hstored : s.store docId with
      | none =>
        have hnone : s.snapshots = [] := by
          have hback := hchain.prev_last
          rw [linkIn, hstored] at hback
          exact List.head?_eq_none_iff.mp hback.symm
        rw [hnone]
        exact .unlinked huri (hstored ▸ hlinks)
      | some stored => exact (hends stored hstored).congr huri (hstored ▸ hlinks)
    · intro u hu x hx
      rw [hpending, putAll_nil] at hx
      by_cases hdoc : u = docId
      · rw [hdoc, Function.update_self] at hx
        rw [hdoc, ← huri, Option.some.inj hx]
      · rw [Function.update_of_ne hdoc] at hx
        exact hnamed u hu x hx
    · intro hsnapshots d hd
      rcases List.mem_append.mp hd with hd | hd
      · exact hunversioned hsnapshots d hd
      · exact ((hends d (List.mem_singleton.mp hd).symm).unversioned hsnapshots).1
  · obtain ⟨puts, x, hputs, hx⟩ := hlast hpending
    have hsame : putAll (Function.update s.store docId (some document)) s.pending =
        putAll s.store s.pending :=
      putAll_update_of_mem _ ⟨x, by rw [hputs]; simp, hx⟩
    exact ⟨hids, hsame ▸ hchain, hsame ▸ hends, hsame ▸ hnamed,
      fun hsnapshots => absurd (hidle hsnapshots) hpending, hidle, hlast⟩

theorem Inv.put (h : Inv genUri docId s) (hstep : s.step genUri docId .put = some s') :
    Inv genUri docId s' := by
  rw [VersionState.step] at hstep
  cases hpending : s.pending with
  | nil => rw [hpending] at hstep; cases hstep
  | cons x pending =>
    rw [hpending] at hstep
    dsimp only at hstep
    obtain rfl := Option.some.inj hstep
    obtain ⟨hids, hchain, hends, hnamed, -, hidle, hlast⟩ := h
    rw [hpending] at hchain hends hnamed hidle hlast
    refine ⟨hids, hchain, hends, hnamed, fun hsnapshots => (nomatch hidle hsnapshots),
      fun hsnapshots => (nomatch hidle hsnapshots), fun hne => ?_⟩
    obtain ⟨puts, y, hputs, hy⟩ := hlast nofun
    cases puts with
    | nil => exact absurd (List.cons.inj hputs).2 hne
    | cons z puts => exact ⟨puts, y, (List.cons.inj hputs).2, hy⟩

theorem Inv.made (hfresh : FreshIds genUri docId) {store : V8.Store} {versions : List String}
    {queue : List (Option IndividualObj)} {lastRead : ℕ → Option IndividualObj} {v : String}
    {version membership actual : IndividualObj} {previous : Option IndividualObj}
    (hids : versions = versionIds genUri versions.length)
    (hchain : ChainIn docId store versions)
    (hnamed : ∀ u ∈ versions, ∀ x, store u = some x → x.uri = u)
    (hv : v = versionId genUri versions.length) (hversion : version.uri = v)
    (hmembership : membership.uri = membershipUri v docId)
    (hback : uriAt version "v-s:previousVersion" = versions.head?)
    (hforth : uriAt version "v-s:nextVersion" = some docId)
    (hactual : EndsChain docId (v :: versions) actual)
    (hlast : uriAt actual "v-s:previousVersion" = some v)
    (hrelinks : Relinks docId v versions store previous) :
    Inv genUri docId
      { store, queue, lastRead
        pending := version :: membership :: (previous.toList ++ [actual])
        snapshots := v :: versions } := by
  have hnodup : (docId :: versions).Nodup := hids ▸ hfresh.nodup versions.length
  have hnotMem : v ∉ docId :: versions := by
    have h := hfresh.notMem versions.length
    rwa [← hids, ← hv] at h
  have hnotMem' : membership.uri ∉ v :: docId :: versions := by
    have h := hfresh.membership_notMem versions.length
    rwa [← hids, ← hv, ← hmembership] at h
  have huris := nodup_uris (List.nodup_cons.mp hnodup).1 hnotMem hnotMem' hversion hactual.uri
    hrelinks
  constructor <;> dsimp only
  · rw [List.length_cons, versionIds, ← hids, hv]
  · exact chainIn_putAll hchain hnodup hnotMem hnotMem' hversion hactual.uri hback hforth hlast
      hrelinks
  · intro document hdocument
    have hfound := @putAll_of_mem store _ actual huris (by simp)
    rw [hactual.uri] at hfound
    obtain rfl := Option.some.inj (hfound.symm.trans hdocument)
    exact hactual
  · intro u hu x hx
    rcases List.mem_cons.mp hu with rfl | hu
    · have hfound := @putAll_of_mem store _ version huris (by simp)
      rw [hversion] at hfound
      rw [← Option.some.inj (hfound.symm.trans hx), hversion]
    · exact named_putAll (hnamed u hu) x hx
  · exact nofun
  · exact nofun
  · exact fun _ => ⟨version :: membership :: previous.toList, actual, rfl, hactual.uri⟩

theorem Inv.handle (hfresh : FreshIds genUri docId) (h : Inv genUri docId s) {actor : String}
    {now : Int64} (hstep : s.step genUri docId (.handle actor now) = some s') :
    Inv genUri docId s' := by
  rw [VersionState.step] at hstep
  cases hpending : s.pending with
  | cons x pending => rw [hpending] at hstep; cases hstep
  | nil =>
    cases hqueue : s.queue with
    | nil => rw [hpending, hqueue] at hstep; cases hstep
    | cons prevState queue =>
      obtain ⟨hids, hchain, hends, hnamed, hunversioned, -, -⟩ := h
      rw [hpending, putAll_nil] at hchain hends hnamed
      rw [hpending, hqueue] at hstep
      dsimp only at hstep
      obtain rfl := Option.some.inj hstep
      rw [hqueue] at hunversioned
      have hqueue' : s.snapshots = [] → ∀ document, some document ∈ queue →
          document.resources.lookup "v-s:previousVersion" = none := fun hsnapshots d hd =>
        hunversioned hsnapshots d (List.mem_cons_of_mem prevState hd)
      cases hstored : s.store docId with
      | none =>
        exact ⟨hids, hchain, hends, hnamed, hqueue', fun _ => rfl, fun h => absurd rfl h⟩
      | some document =>
        dsimp only
        have hends' := hends document hstored
        have hnotMem := hfresh.notMem s.snapshots.length
        have hmembership := hfresh.membership_notMem s.snapshots.length
        rw [← hids] at hnotMem hmembership
        rcases createVersion_cases actor now hstored hchain
          hends' hnamed (fun hsnapshots d hd => hunversioned hsnapshots d
            (hd ▸ List.mem_cons_self)) (fun hu => hnotMem (List.mem_cons_of_mem _ hu))
          (fun hu => hmembership (List.mem_cons_of_mem _ (List.mem_cons_of_mem _ hu)))
          with hputs | ⟨hback, previous, hrelinks, hputs⟩
        · rw [hputs]
          exact ⟨hids, hchain, hends, hnamed, hqueue', fun _ => rfl, fun h => absurd rfl h⟩
        · rw [hputs]
          rw [List.head?_cons, Option.map_some, uri_versionOf, Option.toList_some,
            List.singleton_append]
          exact .made hfresh hids hchain hnamed rfl uri_versionOf rfl
            (uriAt_versionOf_previous.trans hback) (uriAt_versionOf_next.trans (by rw [hends'.uri]))
            ⟨uri_actualOf.trans hends'.uri, lookup_actualOf_next, nofun,
              fun _ => uriAt_actualOf_actual.trans (by rw [hends'.uri])⟩
            uriAt_actualOf_previous hrelinks

theorem Inv.skip (h : Inv genUri docId s) (hstep : s.step genUri docId .skip = some s') :
    Inv genUri docId s' := by
  rw [VersionState.step] at hstep
  split at hstep
  · next queue _ hqueue =>
      obtain rfl := Option.some.inj hstep
      obtain ⟨hids, hchain, hends, hnamed, hunversioned, hidle, hlast⟩ := h
      refine ⟨hids, hchain, hends, hnamed, fun hsnapshots d hd => ?_, hidle, hlast⟩
      exact hunversioned hsnapshots d (hqueue ▸ List.mem_cons_of_mem _ hd)
  · cases hstep

theorem Inv.of_reached (hfresh : FreshIds genUri docId)
    (h : Reached genUri docId (UpToDate docId) s) : Inv genUri docId s := by
  induction h with
  | init h => exact .init h
  | @step s s' action _ hkeeps hcond hstep ih =>
    cases action with
    | read user =>
      obtain rfl := Option.some.inj hstep
      exact ⟨ih.ids, ih.chain, ih.ends, ih.named, ih.unversioned, ih.idle, ih.last⟩
    | save user document => exact ih.save user hkeeps.1 (hkeeps.2.trans hcond) hstep
    | handle actor now => exact ih.handle hfresh hstep
    | skip => exact ih.skip hstep
    | put => exact ih.put hstep

/-- **The versions form one chain**: in every run in which the links that a user saves are those
that are stored, the snapshots and the document are one doubly linked list as soon as all
individuals of the script are stored.

**Proof sketch.** The invariant has the chain of the storage with the pending puts made. A run of
the script makes it longer by one snapshot, and neither a save nor the end of a put changes it. -/
theorem oneChain_of_handled (hfresh : FreshIds genUri docId)
    (h : Reached genUri docId (UpToDate docId) s) (hpending : s.pending = []) :
    OneChain docId s := by
  obtain ⟨hids, hchain, hends, -, -, -, -⟩ := Inv.of_reached hfresh h
  rw [hpending, putAll_nil] at hchain hends
  refine ⟨s.snapshots, .refl _, hids ▸ hfresh.nodup _, hchain, ?_⟩
  cases hstored : s.store docId with
  | none => rw [linkIn, hstored]; rfl
  | some document => rw [linkIn_of_some hstored, uriAt, (hends document hstored).next]; rfl

end

/-! ## Runs on fixed actions -/

/-- The actions of a run, one after another. -/
def VersionState.run (genUri : ℕ → String) (docId : String) :
    VersionState → List VersionAction → Option VersionState
  | s, [] => some s
  | s, action :: actions => (s.step genUri docId action).bind fun s' => s'.run genUri docId actions

/-- Each save of a run keeps the links and meets the condition. -/
def Keeping (genUri : ℕ → String) (docId : String) (cond : VersionState → VersionAction → Prop) :
    VersionState → List VersionAction → Prop
  | _, [] => True
  | s, action :: actions => KeepsLinks docId s action ∧ cond s action ∧
      ∀ s' ∈ s.step genUri docId action, Keeping genUri docId cond s' actions

instance (docId : String) (s : VersionState) : DecidablePred (KeepsLinks docId s)
  | .save user document => inferInstanceAs (Decidable
      (document.uri = docId ∧ linksOf (some document) = linksOf (s.lastRead user)))
  | .read _ | .handle _ _ | .skip | .put => .isTrue trivial

instance (docId : String) (s : VersionState) : DecidablePred (UpToDate docId s)
  | .save user _ => inferInstanceAs (Decidable
      (linksOf (s.lastRead user) = linksOf (s.store docId)))
  | .read _ | .handle _ _ | .skip | .put => .isTrue trivial

instance decidableKeeping (genUri : ℕ → String) (docId : String)
    (cond : VersionState → VersionAction → Prop) [∀ s, DecidablePred (cond s)] :
    ∀ s actions, Decidable (Keeping genUri docId cond s actions)
  | _, [] => .isTrue trivial
  | s, action :: actions =>
    have : Decidable (∀ s' ∈ s.step genUri docId action,
        Keeping genUri docId cond s' actions) :=
      match s.step genUri docId action with
      | none => .isTrue nofun
      | some s' =>
        have := decidableKeeping genUri docId cond s' actions
        decidable_of_iff (Keeping genUri docId cond s' actions) (by simp)
    inferInstanceAs (Decidable (_ ∧ _ ∧ _))

theorem Reached.run {cond : VersionState → VersionAction → Prop} {actions : List VersionAction}
    {genUri : ℕ → String} {docId : String} {s s' : VersionState}
    (h : Reached genUri docId cond s) (hkeeping : Keeping genUri docId cond s actions)
    (hrun : s.run genUri docId actions = some s') : Reached genUri docId cond s' := by
  induction actions generalizing s with
  | nil => exact Option.some.inj hrun ▸ h
  | cons action actions ih =>
    obtain ⟨t, ht, hrun⟩ := Option.bind_eq_some_iff.mp hrun
    exact ih (h.step hkeeping.1 hkeeping.2.1 ht) (hkeeping.2.2 t ht) hrun

/-- Ids of growing length. -/
def growingUri (n : ℕ) : String := String.ofList ('d' :: ':' :: List.replicate n 'a')

theorem freshIds_growingUri : FreshIds growingUri "d:doc" where
  injective n m h := by
    have hlength := congrArg (List.length ∘ String.toList) h
    simpa [growingUri] using hlength
  ne_document n h := by
    have hlist := congrArg String.toList h
    cases n <;> simp [versionId, growingUri, List.replicate_succ] at hlist
  ne_membership n m h := by
    have hlist := congrArg String.toList h
    cases n <;> simp [versionId, growingUri, membershipUri, List.replicate_succ] at hlist

/-- The document as it is saved at first. -/
def firstDocument : IndividualObj := (⟨"d:doc", ∅⟩ : IndividualObj).setUri "rdf:type" "v-s:Letter"

/-- The document with its first snapshot. -/
def versionedDocument : IndividualObj :=
  (firstDocument.setUri "v-s:previousVersion" "d:-vr").setUri "v-s:actualVersion" "d:doc"

/-- A document is saved, gets its first snapshot, and is read and saved again. -/
def savedTwice : List VersionAction :=
  [.save 0 firstDocument, .handle "d:user" 0, .put, .put, .put, .handle "d:user" 0,
    .read 0, .read 1, .save 1 versionedDocument, .handle "d:user" 0, .put, .put, .put, .put,
    .handle "d:user" 0]

/-- Two snapshots are linked with the document after the run. -/
theorem oneChain_savedTwice : ∃ s, Reached growingUri "d:doc" (UpToDate "d:doc") s ∧
    s.queue = [] ∧ s.snapshots = ["d:a-vr", "d:-vr"] ∧ OneChain "d:doc" s := by
  have hobserved : ((VersionState.init fun _ => none).run growingUri "d:doc" savedTwice).map
      (fun s => (s.queue, s.pending, s.snapshots)) = some ([], [], ["d:a-vr", "d:-vr"]) := by
    decide +kernel
  obtain ⟨s, hrun, hs⟩ := Option.map_eq_some_iff.mp hobserved
  simp only [Prod.mk.injEq] at hs
  have hreached : Reached growingUri "d:doc" (UpToDate "d:doc") s :=
    (Reached.init rfl).run (by decide +kernel) hrun
  exact ⟨s, hreached, hs.1, hs.2.2, oneChain_of_handled freshIds_growingUri hreached hs.2.1⟩

/-- **A save of a document that another user has saved in between**: it brings the link back to the
first snapshot, which is linked forth to the second one. -/
theorem not_oneChain_staleSave : ∃ s, Reached growingUri "d:doc" (fun _ _ => True) s ∧
    s.queue = [] ∧ s.pending = [] ∧ ¬ OneChain "d:doc" s := by
  have hobserved : ((VersionState.init fun _ => none).run growingUri "d:doc"
      (savedTwice ++ [.save 0 versionedDocument, .handle "d:user" 0])).map (fun s =>
        (s.queue, s.pending, linkIn s.store "v-s:previousVersion" "d:doc",
          linkIn s.store "v-s:nextVersion" "d:-vr")) =
      some ([], [], some "d:-vr", some "d:a-vr") := by
    decide +kernel
  obtain ⟨s, hrun, hs⟩ := Option.map_eq_some_iff.mp hobserved
  simp only [Prod.mk.injEq] at hs
  obtain ⟨hqueue, hpending, hback, hforth⟩ := hs
  have hreached : Reached growingUri "d:doc" (fun _ _ => True) s :=
    (Reached.init rfl).run (by decide +kernel) hrun
  refine ⟨s, hreached, hqueue, hpending, ?_⟩
  rintro ⟨versions, -, -, hlinked, -⟩
  cases versions with
  | nil => exact absurd (hback.symm.trans hlinked) nofun
  | cons v versions =>
    obtain rfl := Option.some.inj (hback.symm.trans hlinked.1)
    exact absurd (hforth.symm.trans hlinked.2.1) (by decide)

end Veda.Util
