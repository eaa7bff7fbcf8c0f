import Veda.Onto.Decoded

set_option autoImplicit false

/-!
# States of individuals

A state is an individual as the programs behind the queue read it from a message: its predicates
have no empty lists of values, and the first value of a predicate has the number zero. The getters
answer on a state and do not panic.

## Main definitions

* `Onto.State` — states.
* `Onto.State.get` — the answer of a getter.
* `Onto.State.ofStored` — the state that is decoded of a stored individual.

## Main results

* `Onto.State.read_eq` — a getter answers.
* `Onto.Getter.Answers.getFirstInteger` and the theorems after it — the getters that do.
-/

namespace Veda.Onto

open Veda.Lib

/-! ## Getters that answer -/

/-- The getter panics on no list that has values. -/
def Getter.Answers {ρ : Type} (g : Getter ρ) : Prop :=
  ∀ r vs, ∃ answer, g.inspect (r :: vs) = .ok answer

namespace Getter.Answers

theorem anyExists (values : List String) : (Getter.anyExists values).Answers :=
  fun _ _ => ⟨_, rfl⟩

theorem isExistsBool (value : Bool) : (Getter.isExistsBool value).Answers := fun _ _ => ⟨_, rfl⟩

theorem getResources : Getter.getResources.Answers := fun _ _ => ⟨_, rfl⟩

theorem getLiterals : Getter.getLiterals.Answers := fun _ _ => ⟨_, rfl⟩

theorem getFirstLiteral : Getter.getFirstLiteral.Answers := fun r _ => by
  cases hvalue : r.value <;>
    exact ⟨_, by simp only [Getter.getFirstLiteral, firstValue, hvalue]; rfl⟩

theorem getFirstInteger : Getter.getFirstInteger.Answers := fun r _ => by
  cases hvalue : r.value <;>
    exact ⟨_, by simp only [Getter.getFirstInteger, firstValue, hvalue]; rfl⟩

theorem getFirstDatetime : Getter.getFirstDatetime.Answers := fun r _ => by
  cases hvalue : r.value <;>
    exact ⟨_, by simp only [Getter.getFirstDatetime, firstValue, hvalue]; rfl⟩

end Getter.Answers

/-! ## States -/

/-- A state of an individual. -/
structure State where
  obj : IndividualObj
  /-- a predicate has values, and the first one has the number zero -/
  numbered : ∀ p vs, obj.resources.lookup p = some vs → ∃ r rest, vs = r :: rest ∧ r.order = 0

namespace State

/-- `Individual::default()`. -/
def empty : State := ⟨.empty, fun _ _ h => nomatch h⟩

/-- A state without values. -/
def named (uri : String) : State := ⟨{ IndividualObj.empty with uri }, fun _ _ h => nomatch h⟩

/-- A state with one value more. -/
def addValue (s : State) (predicate : String) (rtype : DataType) (value : Value) : State where
  obj := s.obj.addValue predicate rtype value
  numbered p vs h := by
    rw [IndividualObj.lookup_addValue] at h
    split_ifs at h
    · rw [← Option.some.inj h]
      cases hlookup : s.obj.resources.lookup predicate with
      | none => exact ⟨_, _, rfl, rfl⟩
      | some vs =>
        obtain ⟨r, rest, rfl, hr⟩ := s.numbered _ _ hlookup
        exact ⟨r, _, rfl, hr⟩
    · exact s.numbered p vs h

theorem filled (s : State) {p : String} {vs : List Resource}
    (h : s.obj.resources.lookup p = some vs) : vs ≠ [] := by
  obtain ⟨r, rest, rfl, -⟩ := s.numbered p vs h
  exact List.cons_ne_nil r rest

/-- The uri of the individual. -/
def uri (s : State) : String := s.obj.uri

/-- The values of a predicate. -/
def valuesOf (s : State) (predicate : String) : List Resource := s.obj.valuesOf predicate

/-- The answer of a getter. -/
def get {ρ : Type} (s : State) (g : Getter ρ) (predicate : String) : ρ :=
  match s.obj.read g predicate with
  | .ok answer => answer
  | .error _ => g.notFound

/-- **A getter answers on a state.** -/
theorem read_eq {ρ : Type} (s : State) {g : Getter ρ} (hg : g.Answers) (predicate : String) :
    s.obj.read g predicate = .ok (s.get g predicate) := by
  have hok : ∃ answer, s.obj.read g predicate = .ok answer := by
    unfold IndividualObj.read
    cases hlookup : s.obj.resources.lookup predicate with
    | none => exact ⟨_, rfl⟩
    | some vs =>
      cases vs with
      | nil => exact absurd rfl (s.filled hlookup)
      | cons r vs =>
        obtain ⟨answer, hanswer⟩ := hg r vs
        exact ⟨answer.getD g.notFound, by simp only [hanswer]; rfl⟩
  obtain ⟨answer, hanswer⟩ := hok
  rw [get, hanswer]

theorem get_of_lookup_none {ρ : Type} {s : State} {predicate : String}
    (h : s.obj.resources.lookup predicate = none) (g : Getter ρ) :
    s.get g predicate = g.notFound := by
  rw [get, IndividualObj.read, h]

@[simp] theorem get_empty {ρ : Type} (g : Getter ρ) (predicate : String) :
    empty.get g predicate = g.notFound := rfl

/-- What is decoded of a stored individual. -/
def ofStored (π : IterOrder String) (obj : IndividualObj) : State where
  obj := decoded π obj
  numbered p vs h := by
    rw [lookup_decoded, Option.bind_eq_some_iff] at h
    obtain ⟨rs, -, hrs⟩ := h
    split_ifs at hrs with hnil
    cases rs with
    | nil => exact absurd rfl hnil
    | cons r rs =>
      refine ⟨_, _, (Option.some.inj hrs).symm, ?_⟩
      rw [Resource.stored]
      split_ifs <;> rfl

@[simp] theorem uri_ofStored (π : IterOrder String) (obj : IndividualObj) :
    (ofStored π obj).uri = obj.uri := uri_decoded π obj

end State

end Veda.Onto
