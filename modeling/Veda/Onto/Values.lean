import Veda.Onto.Individual

set_option autoImplicit false

/-!
# First values

What the getters answer on individuals in which no predicate has an empty list of values, as
the individuals are that are read from a storage or built with the mutators. On these no getter
panics, and its answer is a function of the first value of the list or of all of them.

## Main definitions

* `Onto.IndividualObj.firstLiteral`, `Onto.IndividualObj.firstDatetime`,
  `Onto.IndividualObj.literals` — the getters.
* `Onto.IndividualObj.remove`, `Onto.IndividualObj.setId` — two more mutators.

## Main results

* `Onto.IndividualObj.read_getFirstLiteral`,
  `Onto.IndividualObj.read_getFirstDatetime`, `Onto.IndividualObj.read_getLiterals` —
  these are the getters of the program.
-/

namespace Veda.Onto.IndividualObj

open Veda.Lib

/-! ## Getters -/

/-- `get_first_literal`. -/
def firstLiteral (obj : IndividualObj) (predicate : String) : Option String :=
  match obj.resources.lookup predicate with
  | some (r :: _) =>
    match r.value with
    | .str s _ => some s
    | .uri s => some s
    | _ => none
  | _ => none

/-- `get_first_datetime`. -/
def firstDatetime (obj : IndividualObj) (predicate : String) : Option Int64 :=
  match obj.resources.lookup predicate with
  | some (r :: _) =>
    match r.value with
    | .datetime i => some i
    | _ => none
  | _ => none

/-- `get_literals`. -/
def literals (obj : IndividualObj) (predicate : String) : Option (List String) :=
  (obj.resources.lookup predicate).map fun v => v.map fun r => literalOf r.value

/-- `get_first_literal(..).unwrap_or_default()`. -/
def literalOrEmpty (obj : IndividualObj) (predicate : String) : String :=
  (obj.firstLiteral predicate).getD ""

theorem read_getFirstLiteral {obj : IndividualObj} {p : String}
    (h : obj.resources.lookup p ≠ some []) :
    obj.read Getter.getFirstLiteral p = .ok (obj.firstLiteral p) := by
  unfold read firstLiteral
  cases hv : obj.resources.lookup p with
  | none => rfl
  | some v =>
    cases v with
    | nil => exact absurd hv h
    | cons r v =>
      obtain ⟨rtype, value, order⟩ := r
      cases value <;> rfl

theorem read_getFirstDatetime {obj : IndividualObj} {p : String}
    (h : obj.resources.lookup p ≠ some []) :
    obj.read Getter.getFirstDatetime p = .ok (obj.firstDatetime p) := by
  unfold read firstDatetime
  cases hv : obj.resources.lookup p with
  | none => rfl
  | some v =>
    cases v with
    | nil => exact absurd hv h
    | cons r v =>
      obtain ⟨rtype, value, order⟩ := r
      cases value <;> rfl

theorem read_getLiterals (obj : IndividualObj) (p : String) :
    obj.read Getter.getLiterals p = .ok (obj.literals p) := by
  unfold read literals
  cases obj.resources.lookup p <;> rfl

/-! ## Mutators -/

/-- `remove`: drop a predicate with its values. -/
def remove (obj : IndividualObj) (predicate : String) : IndividualObj :=
  { obj with resources := obj.resources.erase predicate }

def setId (obj : IndividualObj) (uri : String) : IndividualObj := { obj with uri := uri }

@[simp] theorem lookup_setId (obj : IndividualObj) (uri p : String) :
    (obj.setId uri).resources.lookup p = obj.resources.lookup p := rfl

@[simp] theorem uri_setId (obj : IndividualObj) (uri : String) : (obj.setId uri).uri = uri := rfl

/-! ## The getters after the mutators -/

theorem firstLiteral_congr {obj obj' : IndividualObj} {p : String}
    (h : obj.resources.lookup p = obj'.resources.lookup p) :
    obj.firstLiteral p = obj'.firstLiteral p := by
  rw [firstLiteral, firstLiteral, h]

@[simp] theorem firstLiteral_setString (obj : IndividualObj) (p s : String) (lang : Lang) :
    (obj.setString p s lang).firstLiteral p = some s := by
  rw [firstLiteral, setString, lookup_setValue, if_pos rfl]

theorem firstLiteral_empty (p : String) : empty.firstLiteral p = none := rfl

end Veda.Onto.IndividualObj
