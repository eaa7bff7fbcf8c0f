import Veda.Mstorage.NewState
import Veda.NanoBpmn.Engine

set_option autoImplicit false

/-!
# What the commands of the engine do

## Main definitions

* `NanoBpmn.World.isCompleted` — an individual is marked as completed.
* `NanoBpmn.completedState` — an individual with this mark.
* `NanoBpmn.World.of`, `NanoBpmn.countingServices` — a small world.

## Main results

* `NanoBpmn.lookup_setIn` — a command that sets predicates.
* `NanoBpmn.update_partial` — what a command does to the world.
* `NanoBpmn.storeIsCompletedInto_cases` — the mark of an individual.
-/

namespace Veda.NanoBpmn

open Veda.Lib Veda.Onto
open Veda.Mstorage (IndvOp indvApplyCmd applyPredicate lookup_indvApplyCmd isEmpty_of_lookup
  built_indvApplyCmd)

/-- An individual is stored and marked as completed. -/
def World.isCompleted (w : World) (uri : String) : Bool :=
  (w.individuals.lookup uri).any fun obj => isExistsBool obj "bpmn:isCompleted" true

section Individuals

variable (π : IterOrder String) {prev indv : IndividualObj}

theorem uri_indvApplyCmd (cmd : IndvOp) (prev indv : IndividualObj) :
    (indvApplyCmd π cmd prev indv).uri = prev.uri :=
  (built_indvApplyCmd cmd indv π prev).2

/-- **A command that sets predicates** leaves the values that it brings, and the others as they
were. -/
theorem lookup_setIn (hprev : prev.isEmpty = false) {p : String} (hp : p ≠ "v-s:updateCounter") :
    (indvApplyCmd π .setIn prev indv).resources.lookup p =
      (indv.resources.lookup p).or (prev.resources.lookup p) := by
  rw [lookup_indvApplyCmd .setIn indv π hprev, applyPredicate, if_neg hp]
  cases indv.resources.lookup p with
  | none => rfl
  | some v => exact AList.lookup_insert ..

theorem lookup_setIn_ne (hprev : prev.isEmpty = false) {p q uri : String} {rtype : DataType}
    {value : Value} (hp : p ≠ q) (hcounter : p ≠ "v-s:updateCounter") :
    (indvApplyCmd π .setIn prev ((IndividualObj.empty.setId uri).setValue q rtype
      value)).resources.lookup p = prev.resources.lookup p := by
  rw [lookup_setIn π hprev hcounter, IndividualObj.lookup_setValue, if_neg hp]
  rfl

theorem isEmpty_of_firstLiteral {obj : IndividualObj} {p s : String}
    (h : obj.firstLiteral p = some s) : obj.isEmpty = false := by
  rw [IndividualObj.firstLiteral] at h
  cases hlookup : obj.resources.lookup p with
  | none =>
    rw [hlookup] at h
    cases h
  | some rs => exact isEmpty_of_lookup hlookup

end Individuals

section Commands

variable (sv : Services) {src uri : String} {indv : IndividualObj} {w w' : World}

@[simp] theorem lookup_put_self (w : World) (cmd : IndvOp) (src : String) (state : IndividualObj) :
    (w.put cmd src state).individuals.lookup state.uri = some state :=
  AList.lookup_insert ..

theorem lookup_put_ne (w : World) (cmd : IndvOp) (src : String) {state : IndividualObj}
    (h : uri ≠ state.uri) :
    (w.put cmd src state).individuals.lookup uri = w.individuals.lookup uri :=
  AList.lookup_insert_ne h

@[simp] theorem queue_put (w : World) (cmd : IndvOp) (src : String) (state : IndividualObj) :
    (w.put cmd src state).queue = w.queue ++ [⟨cmd, signalOf src, state⟩] := rfl

@[simp] theorem made_put (w : World) (cmd : IndvOp) (src : String) (state : IndividualObj) :
    (w.put cmd src state).made = w.made := rfl

@[simp] theorem ended_put (w : World) (cmd : IndvOp) (src : String) (state : IndividualObj) :
    (w.put cmd src state).ended = w.ended := rfl

theorem update_partial {cmd : IndvOp} (hpart : cmd.isPartial = true) {prev : IndividualObj}
    (hlookup : w.individuals.lookup indv.uri = some prev) (hprev : prev.isEmpty = false) :
    update sv src cmd indv w = .ok () (w.put .put src (indvApplyCmd sv.order cmd prev indv)) := by
  unfold update
  rw [if_neg (by rintro rfl; cases hpart), if_neg (by rintro rfl; cases hpart), if_pos hpart,
    hlookup]
  dsimp only
  rw [if_neg (by simp [hprev])]

theorem update_partial_ok {cmd : IndvOp} (hpart : cmd.isPartial = true)
    (h : update sv src cmd indv w = .ok () w') :
    ∃ prev, w.individuals.lookup indv.uri = some prev ∧ prev.isEmpty = false ∧
      w' = w.put .put src (indvApplyCmd sv.order cmd prev indv) := by
  unfold update at h
  rw [if_neg (by rintro rfl; cases hpart), if_neg (by rintro rfl; cases hpart), if_pos hpart] at h
  cases hlookup : w.individuals.lookup indv.uri with
  | none =>
    rw [hlookup] at h
    cases h
  | some prev =>
    rw [hlookup] at h
    dsimp only at h
    split_ifs at h with hempty
    cases h
    exact ⟨prev, rfl, by simpa using hempty, rfl⟩

theorem update_error {cmd : IndvOp} {e : String} (h : update sv src cmd indv w = .error e w') :
    w' = w := by
  unfold update at h
  split_ifs at h
  · split at h
    · cases h
      rfl
    · split_ifs at h
      cases h
      rfl
  · cases h
    rfl

theorem getIndividual_ok {obj : IndividualObj} (h : getIndividual uri w = .ok obj w') :
    uri ≠ "" ∧ w.individuals.lookup uri = some obj ∧ w' = w := by
  unfold getIndividual at h
  split_ifs at h with hempty
  cases hlookup : w.individuals.lookup uri with
  | none =>
    rw [hlookup] at h
    cases h
  | some found =>
    rw [hlookup] at h
    cases h
    exact ⟨hempty, rfl, rfl⟩

theorem getIndividual_of_lookup {obj : IndividualObj} (hne : uri ≠ "")
    (hlookup : w.individuals.lookup uri = some obj) : getIndividual uri w = .ok obj w := by
  rw [getIndividual, if_neg hne, hlookup]

theorem orStop_ok {α : Type} {x : Except String α} {a : α} (h : orStop x w = .ok a w') :
    x = .ok a ∧ w' = w := by
  cases x with
  | ok b =>
    cases h
    exact ⟨rfl, rfl⟩
  | error e => cases h

theorem uri_newWorkOrder (uri processInstanceUri tokenUri elementId : String)
    (executorUri formUri : Option String) :
    (newWorkOrder uri processInstanceUri tokenUri elementId executorUri formUri).uri = uri := by
  unfold newWorkOrder
  cases executorUri <;> cases formUri <;> rfl

/-! ## The mark of an individual -/

/-- An individual after it was marked as completed. -/
def completedState (prev : IndividualObj) : IndividualObj :=
  indvApplyCmd sv.order .setIn prev
    ((IndividualObj.empty.setId prev.uri).setBool "bpmn:isCompleted" true)

@[simp] theorem uri_completedState (prev : IndividualObj) :
    (completedState sv prev).uri = prev.uri :=
  uri_indvApplyCmd ..

theorem lookup_completedState {prev : IndividualObj} (hprev : prev.isEmpty = false) {p : String}
    (hp : p ≠ "bpmn:isCompleted") (hcounter : p ≠ "v-s:updateCounter") :
    (completedState sv prev).resources.lookup p = prev.resources.lookup p :=
  lookup_setIn_ne sv.order hprev hp hcounter

theorem isExistsBool_completedState {prev : IndividualObj} (hprev : prev.isEmpty = false) :
    isExistsBool (completedState sv prev) "bpmn:isCompleted" true = true := by
  rw [isExistsBool, IndividualObj.valuesOf, completedState, lookup_setIn _ hprev (by decide),
    IndividualObj.setBool, IndividualObj.lookup_setValue, if_pos rfl]
  rfl

/-- **The mark** is made on an individual that is stored, and else nothing changes. -/
theorem storeIsCompletedInto_cases (uri src : String) (w : World) :
    (∃ prev, w.individuals.lookup uri = some prev ∧ prev.isEmpty = false ∧ prev.uri = uri ∧
      storeIsCompletedInto sv uri true src w = .ok () (w.put .put src (completedState sv prev))) ∨
    ((∀ prev, w.individuals.lookup uri = some prev → prev.isEmpty = true) ∧
      storeIsCompletedInto sv uri true src w = .error "update_or_err" w) := by
  cases hlookup : w.individuals.lookup uri with
  | none =>
    refine .inr ⟨fun prev h => (by cases h), ?_⟩
    simp [storeIsCompletedInto, update, IndvOp.isPartial, IndividualObj.setBool, hlookup]
  | some prev =>
    have huri := w.keyed uri prev hlookup
    cases hempty : prev.isEmpty with
    | true =>
      refine .inr ⟨fun prev' h => (Option.some.inj h) ▸ hempty, ?_⟩
      simp [storeIsCompletedInto, update, IndvOp.isPartial, IndividualObj.setBool, hlookup, hempty]
    | false =>
      refine .inl ⟨prev, rfl, hempty, huri, ?_⟩
      rw [completedState, huri]
      exact update_partial sv rfl hlookup hempty

end Commands

/-! ## A small world -/

/-- The world with some individuals. -/
def World.of (individuals : List IndividualObj) : World where
  individuals := individuals.foldl (fun m obj => m.insert obj.uri obj) ∅
  queue := []
  made := 0
  ended := []
  keyed := by
    suffices h : ∀ (l : List IndividualObj) (m : HashMap String IndividualObj),
        (∀ uri obj, m.lookup uri = some obj → obj.uri = uri) → ∀ uri obj,
          (l.foldl (fun m obj => m.insert obj.uri obj) m).lookup uri = some obj → obj.uri = uri from
      h individuals ∅ fun uri obj hobj => by simp at hobj
    intro l
    induction l with
    | nil => exact fun m hm => hm
    | cons x l ih =>
      refine fun m hm => ih _ fun uri obj hobj => ?_
      by_cases huri : uri = x.uri
      · rw [huri, AList.lookup_insert] at hobj
        rw [huri, Option.some.inj hobj]
      · rw [AList.lookup_insert_ne huri] at hobj
        exact hm uri obj hobj

/-- Services that make identifiers by counting, with the answers of scripts given. -/
def countingServices (nt : IndexedNodeTree) (executors : List String) : Services where
  newUri := fun start n => start ++ String.ofList (List.replicate n 'a')
  order := .stored String
  processSource := fun _ => .ok nt
  runBool := fun _ _ => none
  runList := fun _ _ => executors
  runIndividual := fun _ _ => some .empty
  isStartForm := fun _ => false

end Veda.NanoBpmn
