import Veda.Mstorage.Changes

set_option autoImplicit false

/-!
# The ontology index

`veda-ontologist` keeps the ids of the individuals of the ontology in an index, after which it
writes the ontology files. It reads the queue: a state with a type of the ontology is taken into the
index or, when it is marked as deleted, out of it. A removal is not noticed, because its mark has no
type and the element that follows has no states; neither is a state that has lost its type. The
index follows the storage as long as no individual of the ontology goes one of these ways.

## Main definitions

* `Ontologist.OntoIndex` — the index, with `dump`, `set` and `remove`.
* `Ontologist.testOnOnto`, `Ontologist.prepare` — the handling of an element.
* `Ontologist.Live` — an individual belongs to the live ontology.
* `Ontologist.NamesLiveAlong` — the index names the live ontology after every change.
* `Ontologist.Noticed` — every change is one that the ontologist notices.

## Main results

* `Ontologist.namesLive_iff` — one change.
* `Ontologist.namesLiveAlong_iff` — a history of changes.

## Design

Whether a dump of the index succeeds is an input, given by the number of the element. The index on
the disk is the one of the last dump that did. The ontology files, which are written from time to
time after the ids of the index, are left out.
-/

namespace Veda.Ontologist

open Veda.Lib Veda.Onto Veda.Mstorage

/-! ## The index -/

/-- The ids with the counters of their states, and what was written of them. -/
structure OntoIndex where
  data : HashMap String Int64
  /-- the file of the index -/
  saved : Option (HashMap String Int64)

namespace OntoIndex

/-- Write the index to its file. -/
def dump (index : OntoIndex) (written : Bool) : Bool × OntoIndex :=
  if written then (true, { index with saved := some index.data }) else (false, index)

def remove (index : OntoIndex) (key : String) (written : Bool) : Bool × OntoIndex :=
  { index with data := index.data.erase key }.dump written

def set (index : OntoIndex) (key : String) (val : Int64) (written : Bool) : Bool × OntoIndex :=
  { index with data := index.data.insert key val }.dump written

@[simp] theorem data_dump (index : OntoIndex) (written : Bool) :
    (index.dump written).2.data = index.data := by
  cases written <;> rfl

end OntoIndex

/-! ## The handling of an element -/

structure Context where
  ontoTypes : List String
  ontoIndex : OntoIndex
  isNeedGenerate : Bool

/-- What an element changes in the ontology: an individual, its counter, and whether it goes. -/
def testOnOnto (queueElement : Element) (ontoTypes : List String) :
    Option (String × Int64 × Bool) :=
  let prevState := queueElement.prev
  let newState := queueElement.new
  if queueElement.cmd ≠ .remove then
    let isDeleted := newState.get (.isExistsBool true) "v-s:deleted"
    if newState.get (.anyExists ontoTypes) "rdf:type" then
      some (newState.uri, (newState.get .getFirstInteger "v-s:updateCounter").getD 0, isDeleted)
    else none
  else if prevState.get (.anyExists ontoTypes) "rdf:type" then
    some (prevState.uri, (prevState.get .getFirstInteger "v-s:updateCounter").getD 0, true)
  else none

/-- Handle an element; a dump that fails is written to the log only. -/
def prepare (written : ℕ → Bool) (ctx : Context) (queueElement : Element) : Context :=
  match testOnOnto queueElement ctx.ontoTypes with
  | none => ctx
  | some (id, counter, isDeleted) =>
    let ctx := { ctx with isNeedGenerate := true }
    if isDeleted then
      { ctx with ontoIndex := (ctx.ontoIndex.remove id (written queueElement.opId)).2 }
    else
      { ctx with ontoIndex := (ctx.ontoIndex.set id counter (written queueElement.opId)).2 }

@[simp] theorem ontoTypes_prepare (written : ℕ → Bool) (ctx : Context) (e : Element) :
    (prepare written ctx e).ontoTypes = ctx.ontoTypes := by
  unfold prepare
  split
  · rfl
  · split_ifs <;> rfl

theorem mem_prepare (written : ℕ → Bool) (ctx : Context) (e : Element) (id : String) :
    id ∈ (prepare written ctx e).ontoIndex.data ↔
      match testOnOnto e ctx.ontoTypes with
      | none => id ∈ ctx.ontoIndex.data
      | some (key, _, isDeleted) =>
        if id = key then isDeleted = false else id ∈ ctx.ontoIndex.data := by
  unfold prepare
  cases testOnOnto e ctx.ontoTypes with
  | none => rfl
  | some found =>
    obtain ⟨key, counter, isDeleted⟩ := found
    cases isDeleted with
    | true =>
      dsimp only
      rw [if_pos rfl, OntoIndex.remove, OntoIndex.data_dump, AList.mem_erase]
      split_ifs with hid <;> simp [hid]
    | false =>
      dsimp only
      rw [if_neg Bool.false_ne_true, OntoIndex.set, OntoIndex.data_dump, AList.mem_insert]
      split_ifs with hid <;> simp [hid]

/-! ## The live ontology -/

/-- The state belongs to the ontology. -/
def IsOnto (ontoTypes : List String) (s : State) : Prop :=
  s.get (.anyExists ontoTypes) "rdf:type" = true

instance (ontoTypes : List String) (s : State) : Decidable (IsOnto ontoTypes s) :=
  inferInstanceAs (Decidable (_ = true))

/-- The individual is stored, not deleted, and of a type of the ontology. -/
def Live (ontoTypes : List String) (st : States) (id : String) : Prop :=
  ∃ s, st.stateOf id = some s ∧ s.get (.isExistsBool true) "v-s:deleted" = false ∧
    IsOnto ontoTypes s

/-- The index contains exactly the live ontology. -/
def NamesLive (ctx : Context) (st : States) : Prop :=
  ∀ id, id ∈ ctx.ontoIndex.data ↔ Live ctx.ontoTypes st id

/-- The ontologist after the elements of a change. -/
def Context.follow (written : ℕ → Bool) (st : States) (opId : ℕ) (ctx : Context) (c : Change) :
    Context :=
  (c.elements st opId).foldl (prepare written) ctx

/-- The index names the live ontology after every change of a history. -/
def NamesLiveAlong (written : ℕ → Bool) : Context → States → ℕ → List Change → Prop
  | _, _, _, [] => True
  | ctx, st, opId, c :: cs =>
    NamesLive (ctx.follow written st opId c) (st.apply c) ∧
      NamesLiveAlong written (ctx.follow written st opId c) (st.apply c)
        (opId + (c.elements st opId).length) cs

/-- The ontologist notices the change: no individual of the live ontology loses its type or is
removed. -/
def Notices (ontoTypes : List String) (st : States) : Change → Prop
  | .put state => Live ontoTypes st state.uri → IsOnto ontoTypes state
  | .remove mark _ => ¬ Live ontoTypes st mark.uri

/-- The ontologist notices every change of a history. -/
def Noticed (ontoTypes : List String) : States → List Change → Prop
  | _, [] => True
  | st, c :: cs => Notices ontoTypes st c ∧ Noticed ontoTypes (st.apply c) cs

/-! ## One change -/

section Follow

variable (written : ℕ → Bool) {ctx : Context} {st : States} (opId : ℕ)

@[simp] theorem ontoTypes_follow (c : Change) :
    (ctx.follow written st opId c).ontoTypes = ctx.ontoTypes := by
  cases c <;> simp [Context.follow, Change.elements]

theorem mem_follow_put (state : State) (id : String) :
    id ∈ (ctx.follow written st opId (.put state)).ontoIndex.data ↔
      if id = state.uri ∧ IsOnto ctx.ontoTypes state then
        state.get (.isExistsBool true) "v-s:deleted" = false
      else id ∈ ctx.ontoIndex.data := by
  have htest : testOnOnto ⟨.put, opId + 1, st.stateOf state.uri, some state⟩ ctx.ontoTypes =
      if IsOnto ctx.ontoTypes state then
        some (state.uri, (state.get .getFirstInteger "v-s:updateCounter").getD 0,
          state.get (.isExistsBool true) "v-s:deleted")
      else none := rfl
  rw [Context.follow, Change.elements, List.foldl_cons, List.foldl_nil, mem_prepare, htest]
  by_cases honto : IsOnto ctx.ontoTypes state
  · rw [if_pos honto]
    dsimp only
    by_cases hid : id = state.uri
    · rw [if_pos hid, if_pos ⟨hid, honto⟩]
    · rw [if_neg hid, if_neg fun hboth => hid hboth.1]
  · rw [if_neg honto, if_neg fun hboth => honto hboth.2]

theorem follow_remove {mark : State} (isMark : IsMark mark) :
    ctx.follow written st opId (.remove mark isMark) = ctx := by
  have hmark : mark.get (.anyExists ctx.ontoTypes) "rdf:type" = false :=
    State.get_of_lookup_none (isMark.rest _ (by decide) (by decide)) _
  have hfirst : testOnOnto ⟨.put, opId + 1, st.stateOf mark.uri, some mark⟩ ctx.ontoTypes = none := by
    rw [testOnOnto, if_pos (by decide : (IndvOp.put ≠ IndvOp.remove))]
    exact if_neg (by rw [Element.new, Option.getD_some, hmark]; exact Bool.false_ne_true)
  rw [Context.follow, Change.elements, List.foldl_cons, prepare, hfirst]
  rfl

/-- **One change**: the index names the live ontology afterwards exactly when the ontologist notices
the change. -/
theorem namesLive_iff (h : NamesLive ctx st) (c : Change) :
    NamesLive (ctx.follow written st opId c) (st.apply c) ↔ Notices ctx.ontoTypes st c := by
  unfold NamesLive
  rw [ontoTypes_follow]
  cases c with
  | put state =>
    have hlive : Live ctx.ontoTypes (st.apply (.put state)) state.uri ↔
        state.get (.isExistsBool true) "v-s:deleted" = false ∧ IsOnto ctx.ontoTypes state := by
      unfold Live
      rw [show state.uri = (Change.put state).id from rfl, States.stateOf_apply_self]
      exact ⟨fun ⟨s, hs, hlive⟩ => (Option.some.inj hs) ▸ hlive, fun hlive => ⟨state, rfl, hlive⟩⟩
    constructor
    · intro hnames hbefore
      by_contra honto
      have hin := (hnames state.uri).mp
        ((mem_follow_put written opId state state.uri).mpr
          (by rw [if_neg fun hboth => honto hboth.2]; exact (h state.uri).mpr hbefore))
      exact honto (hlive.mp hin).2
    · intro hnotices id
      rw [mem_follow_put]
      by_cases hid : id = state.uri
      · rw [hid, hlive]
        by_cases honto : IsOnto ctx.ontoTypes state
        · rw [if_pos ⟨rfl, honto⟩]
          exact (and_iff_left honto).symm
        · rw [if_neg fun hboth => honto hboth.2, h state.uri]
          exact iff_of_false (fun hbefore => honto (hnotices hbefore)) fun hboth => honto hboth.2
      · rw [if_neg fun hboth => hid hboth.1, h id, Live, Live,
          States.stateOf_apply_of_ne st (c := .put state) hid]
  | remove mark isMark =>
    rw [follow_remove]
    have hgone : ¬ Live ctx.ontoTypes (st.apply (.remove mark isMark)) mark.uri := by
      rintro ⟨s, hs, -⟩
      rw [show mark.uri = (Change.remove mark isMark).id from rfl, States.stateOf_apply_self] at hs
      cases hs
    constructor
    · intro hnames hbefore
      exact hgone ((hnames mark.uri).mp ((h mark.uri).mpr hbefore))
    · intro hnotices id
      rw [h id]
      by_cases hid : id = mark.uri
      · rw [hid]
        exact iff_of_false hnotices hgone
      · rw [Live, Live, States.stateOf_apply_of_ne st (c := .remove mark isMark) hid]

end Follow

/-! ## A history -/

/-- **A history of changes**: the index names the live ontology after every change exactly when the
ontologist notices every one. -/
theorem namesLiveAlong_iff (written : ℕ → Bool) {ctx : Context} {st : States} (opId : ℕ)
    (h : NamesLive ctx st) (cs : List Change) :
    NamesLiveAlong written ctx st opId cs ↔ Noticed ctx.ontoTypes st cs := by
  induction cs generalizing ctx st opId with
  | nil => exact iff_of_true trivial trivial
  | cons c cs ih =>
    rw [NamesLiveAlong, Noticed, namesLive_iff written opId h c]
    refine and_congr_right fun hnotices => ?_
    rw [ih _ ((namesLive_iff written opId h c).mpr hnotices), ontoTypes_follow]

/-! ### A class -/

/-- The ontologist that starts without an index. -/
def newContext : Context := ⟨["owl:Class"], ⟨∅, none⟩, false⟩

theorem namesLive_newContext : NamesLive newContext .none :=
  fun _ => iff_of_false (AList.notMem_empty _) fun ⟨_, hs, _⟩ => nomatch hs

def ontologyClass : State := (State.named "d:class").addValue "rdf:type" .uri (.uri "owl:Class")

def deletedClass : State := ontologyClass.addValue "v-s:deleted" .boolean (.bool true)

/-- A class that is marked as deleted, with its type, leaves the index. -/
theorem namesLiveAlong_deletedClass :
    NamesLiveAlong (fun _ => true) newContext .none 0 [.put ontologyClass, .put deletedClass] :=
  (namesLiveAlong_iff _ 0 namesLive_newContext _).mpr
    ⟨fun _ => by rfl, fun _ => by rfl, trivial⟩

/-- A class that is removed stays in the index. -/
theorem not_namesLiveAlong_removedClass :
    NamesLive newContext .none ∧
      ¬ NamesLiveAlong (fun _ => true) newContext .none 0
        [.put ontologyClass, .remove (markOf "d:class" 2) (isMark_markOf "d:class" 2)] := by
  refine ⟨namesLive_newContext, fun hall => ?_⟩
  obtain ⟨-, hnames, -⟩ := hall
  have hin := hnames "d:class"
  rw [follow_remove, mem_follow_put, if_pos ⟨rfl, rfl⟩] at hin
  obtain ⟨s, hs, -⟩ := hin.mp rfl
  cases hs

end Veda.Ontologist
