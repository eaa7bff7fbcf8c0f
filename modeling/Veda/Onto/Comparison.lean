import Veda.Onto.Reading

set_option autoImplicit false

/-!
# Comparing a stored individual with a file

When the ontology files are loaded, an individual of a file is written only if the comparison with
the stored one finds a difference. The comparison visits the predicates of the stored individual
and looks their entries up in the other one. So a predicate that only the file has is not seen, and
an entry without values differs from no entry.

## Main definitions

* `Onto.IndividualObj.compare` — the comparison.
* `Onto.isNeedStore` — an individual of a file is written.
* `Onto.ComparesRight` — the comparison judges the values, and does so from either side.
* `Onto.Comparable` — the condition on the two individuals.

## Main results

* `Onto.comparesRight_iff` — when the comparison is right.
-/

namespace Veda.Onto

open Veda.Lib

/-! ## The comparison -/

/-- The entry of a predicate, as `==` compares it: the orders are ignored. -/
def IndividualObj.entryContents (obj : IndividualObj) (predicate : String) :
    Option (List (DataType × Value)) :=
  (obj.resources.lookup predicate).map fun values => values.map Resource.content

/-- `Individual::compare`; the loop over the predicates is left at the first difference, so their
order makes none. -/
def IndividualObj.compare (a b : IndividualObj) (ignorePredicates : List String) : Bool :=
  if a.uri ≠ b.uri then false
  else
    a.resources.keys.all fun predicate =>
      predicate ∈ ignorePredicates || a.entryContents predicate = b.entryContents predicate

/-- The predicates that are not compared when files are loaded. -/
def filePredicatesIgnored : List String :=
  ["v-s:updateCounter", "v-s:previousVersion", "v-s:actualVersion", "v-s:fullUrl"]

/-- An individual of a file is written: it is not stored yet, or the stored one differs. -/
def isNeedStore (stored : Option IndividualObj) (indvFile : IndividualObj) : Bool :=
  match stored with
  | some indvDb => !indvDb.compare indvFile filePredicatesIgnored
  | none => true

/-! ## What it should judge -/

/-- Two individuals have the same list of values of a predicate, or both none. -/
def SameList (a b : IndividualObj) (predicate : String) : Prop :=
  (a.valuesOf predicate).map Resource.content = (b.valuesOf predicate).map Resource.content

instance (a b : IndividualObj) (predicate : String) : Decidable (SameList a b predicate) :=
  inferInstanceAs (Decidable (_ = _))

/-- The comparison judges the values of every predicate outside the list, and the same way when the
individuals are exchanged. -/
structure ComparesRight (a b : IndividualObj) (ignorePredicates : List String) : Prop where
  exact : a.compare b ignorePredicates = true ↔ ∀ p, p ∉ ignorePredicates → SameList a b p
  exchanged : a.compare b ignorePredicates = b.compare a ignorePredicates

/-- The condition on two individuals: a predicate that both have differs, or they have the same
predicates, or each has one that the other lacks, and not all of these are without values. -/
def Comparable (a b : IndividualObj) (ignorePredicates : List String) : Prop :=
  (∃ p, p ∉ ignorePredicates ∧ p ∈ a.resources ∧ p ∈ b.resources ∧ ¬ SameList a b p) ∨
  (∀ p, p ∉ ignorePredicates → (p ∈ a.resources ↔ p ∈ b.resources)) ∨
  ((∃ p, p ∉ ignorePredicates ∧ p ∈ a.resources ∧ p ∉ b.resources) ∧
    (∃ p, p ∉ ignorePredicates ∧ p ∈ b.resources ∧ p ∉ a.resources) ∧
    ∃ p, p ∉ ignorePredicates ∧ ¬ SameList a b p)

section Compare

variable {a b : IndividualObj} {ignore : List String} {p : String}

theorem SameList.symm (h : SameList a b p) : SameList b a p := Eq.symm h

theorem entryContents_eq_iff (ha : p ∈ a.resources) :
    a.entryContents p = b.entryContents p ↔ p ∈ b.resources ∧ SameList a b p := by
  obtain ⟨va, hva⟩ := Option.isSome_iff_exists.mp (AList.lookup_isSome.mpr ha)
  rw [← AList.lookup_isSome (s := b.resources)]
  unfold IndividualObj.entryContents SameList IndividualObj.valuesOf
  rw [hva]
  cases b.resources.lookup p with
  | none => simp
  | some vb => simp

theorem compare_eq_true_iff (huri : a.uri = b.uri) (ignore : List String) :
    a.compare b ignore = true ↔
      ∀ p, p ∉ ignore → p ∈ a.resources → p ∈ b.resources ∧ SameList a b p := by
  rw [IndividualObj.compare, if_neg (not_not.mpr huri), List.all_eq_true]
  constructor
  · intro h p hp ha
    have hboth := h p (AList.mem_keys.mp ha)
    rw [Bool.or_eq_true, decide_eq_true_iff, decide_eq_true_iff] at hboth
    exact (entryContents_eq_iff ha).mp (hboth.resolve_left hp)
  · intro h p hkey
    have ha := AList.mem_keys.mpr hkey
    rw [Bool.or_eq_true, decide_eq_true_iff, decide_eq_true_iff]
    by_cases hp : p ∈ ignore
    · exact .inl hp
    · exact .inr ((entryContents_eq_iff ha).mpr (h p hp ha))

theorem sameList_of_notMem (ha : p ∉ a.resources) (hb : p ∉ b.resources) : SameList a b p := by
  rw [SameList, IndividualObj.valuesOf, IndividualObj.valuesOf, AList.lookup_eq_none.mpr ha,
    AList.lookup_eq_none.mpr hb]

/-- **When the comparison is right.**

**Proof sketch.** The comparison from one side is true when every predicate of that side is on the
other with the same list (`compare_eq_true_iff`). If a predicate that both have differs, both sides
see it. Else each side sees exactly the predicates that it alone has, and what it should see are
those of either side that have values. -/
theorem comparesRight_iff (huri : a.uri = b.uri) :
    ComparesRight a b ignore ↔ Comparable a b ignore := by
  have hab := compare_eq_true_iff huri ignore
  have hba := compare_eq_true_iff huri.symm ignore
  by_cases hcommon : ∃ p, p ∉ ignore ∧ p ∈ a.resources ∧ p ∈ b.resources ∧ ¬ SameList a b p
  · -- both sides see the difference
    obtain ⟨p, hp, ha, hb, hdiffer⟩ := hcommon
    refine iff_of_true ⟨?_, ?_⟩ (.inl ⟨p, hp, ha, hb, hdiffer⟩)
    · rw [hab]
      exact iff_of_false (fun h => hdiffer (h p hp ha).2) fun h => hdiffer (h p hp)
    · rw [Bool.eq_iff_iff, hab, hba]
      exact iff_of_false (fun h => hdiffer (h p hp ha).2)
        fun h => hdiffer (h p hp hb).2.symm
  have hagree : ∀ p, p ∉ ignore → p ∈ a.resources → p ∈ b.resources → SameList a b p :=
    fun p hp ha hb => by_contra fun h => hcommon ⟨p, hp, ha, hb, h⟩
  -- from here on each side sees what it alone has
  have hab' : a.compare b ignore = true ↔ ∀ p, p ∉ ignore → p ∈ a.resources → p ∈ b.resources :=
    hab.trans ⟨fun h p hp ha => (h p hp ha).1,
      fun h p hp ha => ⟨h p hp ha, hagree p hp ha (h p hp ha)⟩⟩
  have hba' : b.compare a ignore = true ↔ ∀ p, p ∉ ignore → p ∈ b.resources → p ∈ a.resources :=
    hba.trans ⟨fun h p hp hb => (h p hp hb).1,
      fun h p hp hb => ⟨h p hp hb, (hagree p hp (h p hp hb) hb).symm⟩⟩
  have hnotFirst : ¬ ∃ p, p ∉ ignore ∧ p ∈ a.resources ∧ p ∈ b.resources ∧ ¬ SameList a b p :=
    hcommon
  by_cases hleft : ∀ p, p ∉ ignore → p ∈ a.resources → p ∈ b.resources
  · by_cases hright : ∀ p, p ∉ ignore → p ∈ b.resources → p ∈ a.resources
    · -- the same predicates
      refine iff_of_true ⟨iff_of_true (hab'.mpr hleft) fun p hp => ?_, ?_⟩
        (.inr (.inl fun p hp => ⟨hleft p hp, hright p hp⟩))
      · by_cases ha : p ∈ a.resources
        · exact hagree p hp ha (hleft p hp ha)
        · exact sameList_of_notMem ha fun hb => ha (hright p hp hb)
      · rw [hab'.mpr hleft, hba'.mpr hright]
    · -- only the second individual has more
      refine iff_of_false (fun h => ?_) ?_
      · exact hright (hba'.mp (h.exchanged ▸ hab'.mpr hleft))
      · rintro (h | h | ⟨⟨p, hp, ha, hb⟩, -⟩)
        · exact hnotFirst h
        · exact hright fun p hp => (h p hp).mpr
        · exact hb (hleft p hp ha)
  · by_cases hright : ∀ p, p ∉ ignore → p ∈ b.resources → p ∈ a.resources
    · -- only the first individual has more
      refine iff_of_false (fun h => ?_) ?_
      · exact hleft (hab'.mp (h.exchanged.symm ▸ hba'.mpr hright))
      · rintro (h | h | ⟨-, ⟨p, hp, hb, ha⟩, -⟩)
        · exact hnotFirst h
        · exact hleft fun p hp => (h p hp).mp
        · exact ha (hright p hp hb)
    · -- each has a predicate that the other lacks
      have hfalse : a.compare b ignore = false :=
        Bool.eq_false_of_not_eq_true fun h => hleft (hab'.mp h)
      have hfalse' : b.compare a ignore = false :=
        Bool.eq_false_of_not_eq_true fun h => hright (hba'.mp h)
      constructor
      · intro h
        have hdiffer : ¬ ∀ p, p ∉ ignore → SameList a b p := fun hall => by
          rw [h.exact.mpr hall] at hfalse
          cases hfalse
        push Not at hleft hright hdiffer
        exact .inr (.inr ⟨hleft, hright, hdiffer⟩)
      · rintro (h | h | ⟨-, -, p, hp, hdiffer⟩)
        · exact absurd h hnotFirst
        · exact absurd (fun p hp => (h p hp).mp) hleft
        · refine ⟨?_, hfalse.trans hfalse'.symm⟩
          rw [hfalse]
          exact iff_of_false Bool.false_ne_true fun h => hdiffer (h p hp)

end Compare

/-! ## A label that only the file has -/

/-- A stored class. -/
def storedClass : IndividualObj := { IndividualObj.empty with uri := "v-s:Doc" }.addUri
  "rdf:type" "owl:Class"

/-- The class with another type. -/
def retypedClass : IndividualObj := { IndividualObj.empty with uri := "v-s:Doc" }.addUri
  "rdf:type" "rdfs:Class"

/-- The comparison is right for a class whose type was changed. -/
theorem comparesRight_retypedClass :
    ComparesRight storedClass retypedClass filePredicatesIgnored ↔
      Comparable storedClass retypedClass filePredicatesIgnored :=
  comparesRight_iff rfl

/-- A label that was added to the file is not seen: the comparison from the stored class says that
nothing changed, so the file is not written, and the comparison from the file says the opposite. -/
theorem not_comparesRight_labelAdded :
    ¬ ComparesRight storedClass (storedClass.addString "rdfs:label" "Document" .en)
        filePredicatesIgnored ∧
      isNeedStore (some storedClass) (storedClass.addString "rdfs:label" "Document" .en) = false ∧
      ¬ SameList storedClass (storedClass.addString "rdfs:label" "Document" .en) "rdfs:label" := by
  refine ⟨fun h => ?_, by decide, by decide⟩
  have hexchanged := h.exchanged
  revert hexchanged
  decide

end Veda.Onto
