import Mathlib.Data.Set.Basic
import Veda.Mstorage.NewState

set_option autoImplicit false

/-!
# Partial commands are operations on sets

The values of a predicate, compared by type and content, are a set. The three commands on parts of
an individual are union, replacement and difference of these sets; they leave the predicates that
the request does not name and the update counter alone, and a command that comes twice does no more
than one that comes once.

## Main definitions

* `Mstorage.contentsOf` — the values of a predicate as a set.
* `Mstorage.IndvOp.onSets` — what a command makes of two sets.

## Main results

* `Mstorage.contentsOf_indvApplyCmd` — a command on one predicate.
* `Mstorage.lookup_indvApplyCmd_twice` — a command that comes twice.
* `Mstorage.indvApplyCmd_onSets` — the law of the three commands.
-/

namespace Veda.Mstorage

open Veda.Lib Veda.Onto

/-! ## Values as sets -/

/-- The values of a predicate, their order and repetitions left out. -/
def contentsOf (obj : IndividualObj) (p : String) : Set (DataType × Value) :=
  {c | ∃ r ∈ obj.valuesOf p, r.content = c}

/-- What a command on parts of an individual makes of the values of a predicate. -/
def IndvOp.onSets {α : Type} : IndvOp → Set α → Set α → Set α
  | .addTo, s, n => s ∪ n
  | .setIn, _, n => n
  | .removeFrom, s, n => s \ n
  | _, s, _ => s

theorem mem_content_pushUnique (c : DataType × Value) (values b : List Resource) :
    (∃ r ∈ IndividualObj.pushUnique values b, r.content = c) ↔
      (∃ r ∈ values, r.content = c) ∨ ∃ r ∈ b, r.content = c := by
  induction b generalizing values with
  | nil => simp [IndividualObj.pushUnique]
  | cons el b ih =>
    rw [IndividualObj.pushUnique, List.foldl_cons, ← IndividualObj.pushUnique, ih,
      List.exists_mem_cons_iff]
    split_ifs with hany
    · obtain ⟨v, hv, heq⟩ := List.any_eq_true.mp hany
      have hel : el.content = c → ∃ r ∈ values, r.content = c := fun h =>
        ⟨v, hv, (of_decide_eq_true heq).trans h⟩
      constructor
      · exact fun h => h.imp_right .inr
      · rintro (h | h | h)
        · exact .inl h
        · exact .inl (hel h)
        · exact .inr h
    · simp only [List.mem_append, List.mem_singleton, or_and_right, exists_or, exists_eq_left,
        or_assoc]

theorem pushUnique_of_subset {values b : List Resource}
    (h : ∀ el ∈ b, ∃ r ∈ values, r.content = el.content) :
    IndividualObj.pushUnique values b = values := by
  induction b with
  | nil => rfl
  | cons el b ih =>
    have hany : (values.any fun v => v.content = el.content) = true := by
      obtain ⟨r, hr, heq⟩ := h el List.mem_cons_self
      exact List.any_eq_true.mpr ⟨r, hr, decide_eq_true heq⟩
    rw [IndividualObj.pushUnique, List.foldl_cons, if_pos hany]
    exact ih fun el hel => h el (List.mem_cons_of_mem _ hel)

theorem mem_exclude {values exclude : List Resource} {el : Resource} :
    (el ∈ values.filter fun el => !exclude.any fun v => v.content = el.content) ↔
      el ∈ values ∧ ∀ v ∈ exclude, v.content ≠ el.content := by
  simp [List.mem_filter]

/-! ## One command -/

section Commands

variable {cmd : IndvOp} {prev indv : IndividualObj} {p : String} {v : List Resource}

theorem applyPredicate_of_none (h : indv.resources.lookup p = none) :
    applyPredicate cmd indv prev p = prev := by
  rw [applyPredicate, h]
  split_ifs <;> rfl

theorem contentsOf_of_lookup {obj : IndividualObj} {rs : List Resource}
    (h : obj.resources.lookup p = some rs) :
    contentsOf obj p = {c | ∃ r ∈ rs, r.content = c} := by
  rw [contentsOf, IndividualObj.valuesOf, h]
  rfl

theorem contentsOf_of_none {obj : IndividualObj} (h : obj.resources.lookup p = none) :
    contentsOf obj p = ∅ := by
  rw [contentsOf, IndividualObj.valuesOf, h]
  refine Set.eq_empty_iff_forall_notMem.mpr ?_
  rintro c ⟨r, hr, -⟩
  cases hr

theorem lookup_addTo (hp : p ≠ "v-s:updateCounter") (h : indv.resources.lookup p = some v) :
    (applyPredicate .addTo indv prev p).resources.lookup p =
      some (IndividualObj.pushUnique (prev.valuesOf p) v) := by
  rw [applyPredicate, if_neg hp, h]
  exact AList.lookup_insert _

theorem lookup_setIn (hp : p ≠ "v-s:updateCounter") (h : indv.resources.lookup p = some v) :
    (applyPredicate .setIn indv prev p).resources.lookup p = some v := by
  rw [applyPredicate, if_neg hp, h]
  exact AList.lookup_insert _

theorem lookup_removeFrom (hp : p ≠ "v-s:updateCounter") (h : indv.resources.lookup p = some v)
    (prev : IndividualObj) :
    (applyPredicate .removeFrom indv prev p).resources.lookup p =
      if (prev.valuesOf p).all fun el => v.any fun r => r.content = el.content then none
      else some ((prev.valuesOf p).filter fun el => !v.any fun r => r.content = el.content) := by
  have hempty : (((prev.resources.lookup p).getD []).filter fun el =>
      !v.any fun r => r.content = el.content).isEmpty =
      (prev.valuesOf p).all fun el => v.any fun r => r.content = el.content := by
    rw [IndividualObj.valuesOf, Bool.eq_iff_iff, List.isEmpty_iff, List.filter_eq_nil_iff,
      List.all_eq_true]
    simp
  rw [applyPredicate, if_neg hp, h]
  dsimp only [IndividualObj.excludeAndSetResources]
  rw [hempty]
  split_ifs
  · exact AList.lookup_erase _ _
  · exact AList.lookup_insert _

/-- **A command on a predicate** is an operation on sets. -/
theorem contentsOf_applyPredicate (hcmd : cmd.isPartial = true) (hp : p ≠ "v-s:updateCounter")
    (h : indv.resources.lookup p = some v) :
    contentsOf (applyPredicate cmd indv prev p) p =
      cmd.onSets (contentsOf prev p) (contentsOf indv p) := by
  rw [contentsOf_of_lookup h]
  cases cmd with
  | addTo =>
    rw [contentsOf_of_lookup (lookup_addTo hp h)]
    exact Set.ext fun c => mem_content_pushUnique c _ _
  | setIn => exact contentsOf_of_lookup (lookup_setIn hp h)
  | removeFrom =>
    have hmem : ∀ c, (∃ r ∈ (prev.valuesOf p).filter fun el =>
        !v.any fun r => r.content = el.content, r.content = c) ↔
        (∃ r ∈ prev.valuesOf p, r.content = c) ∧ ¬ ∃ r ∈ v, r.content = c := by
      intro c
      constructor
      · rintro ⟨r, hr, rfl⟩
        obtain ⟨hmem, hnot⟩ := mem_exclude.mp hr
        exact ⟨⟨r, hmem, rfl⟩, fun ⟨r', hr', heq⟩ => hnot r' hr' heq⟩
      · rintro ⟨⟨r, hr, rfl⟩, hnot⟩
        exact ⟨r, mem_exclude.mpr ⟨hr, fun r' hr' heq => hnot ⟨r', hr', heq⟩⟩, rfl⟩
    have hlookup := lookup_removeFrom hp h prev
    split_ifs at hlookup with hall
    · rw [contentsOf_of_none hlookup]
      refine (Set.eq_empty_iff_forall_notMem.mpr ?_).symm
      rintro c ⟨⟨r, hr, rfl⟩, hnot⟩
      obtain ⟨r', hr', heq⟩ := List.any_eq_true.mp (List.all_eq_true.mp hall r hr)
      exact hnot ⟨r', hr', of_decide_eq_true heq⟩
    · rw [contentsOf_of_lookup hlookup]
      exact Set.ext hmem
  | _ => cases hcmd

theorem lookup_applyPredicate_twice {once : IndividualObj} (hcmd : cmd.isPartial = true)
    (honce : once.resources.lookup p = (applyPredicate cmd indv prev p).resources.lookup p) :
    (applyPredicate cmd indv once p).resources.lookup p = once.resources.lookup p := by
  cases h : indv.resources.lookup p with
  | none => rw [applyPredicate_of_none h]
  | some v =>
    by_cases hp : p = "v-s:updateCounter"
    · rw [applyPredicate, if_pos hp]
    have hvalues : ∀ rs, once.resources.lookup p = some rs → once.valuesOf p = rs := by
      intro rs hrs
      rw [IndividualObj.valuesOf, hrs]
      rfl
    cases cmd with
    | addTo =>
      rw [lookup_addTo hp h] at honce
      rw [lookup_addTo hp h, hvalues _ honce, honce, pushUnique_of_subset]
      exact fun el hel => (mem_content_pushUnique _ _ _).mpr (.inr ⟨el, hel, rfl⟩)
    | setIn =>
      rw [lookup_setIn hp h] at honce ⊢
      exact honce.symm
    | removeFrom =>
      rw [lookup_removeFrom hp h] at honce
      rw [lookup_removeFrom hp h]
      split_ifs at honce with hall
      · have hnil : once.valuesOf p = [] := by
          rw [IndividualObj.valuesOf, honce]
          rfl
        rw [hnil, honce]
        rfl
      · -- nothing that is left is excluded
        obtain ⟨el, hel, hnot⟩ : ∃ el ∈ prev.valuesOf p,
            ¬ (v.any fun r => r.content = el.content) = true := by
          by_contra hcon
          exact hall (List.all_eq_true.mpr fun el hel => by_contra fun h => hcon ⟨el, hel, h⟩)
        rw [hvalues _ honce, honce, if_neg, List.filter_filter]
        · simp only [Bool.and_self]
        · refine fun hagain => hnot (List.all_eq_true.mp hagain el ?_)
          exact List.mem_filter.mpr ⟨hel, by rw [Bool.eq_false_of_not_eq_true hnot]; rfl⟩
    | _ => cases hcmd

/-- **A command that comes twice**, its predicates visited in any order, does no more than one that
comes once. -/
theorem lookup_indvApplyCmd_twice (π π' : IterOrder String) (hcmd : cmd.isPartial = true)
    (hprev : prev.isEmpty = false) (p : String) :
    (indvApplyCmd π' cmd (indvApplyCmd π cmd prev indv) indv).resources.lookup p =
      (indvApplyCmd π cmd prev indv).resources.lookup p := by
  have honce := lookup_indvApplyCmd cmd indv π hprev p
  cases hempty : (indvApplyCmd π cmd prev indv).isEmpty with
  | true =>
    rw [indvApplyCmd, if_pos hempty]
  | false =>
    rw [lookup_indvApplyCmd cmd indv π' hempty]
    exact lookup_applyPredicate_twice hcmd honce

/-- What a command on parts of an individual promises: the predicates that the request does not name
and the update counter stay as they are, the sets of values of the others are joined, replaced or
reduced, a predicate without values has no entry after a reduction, and a second time the command
changes nothing. -/
structure ActsOnSets (cmd : IndvOp) (prev indv : IndividualObj)
    (apply : IndividualObj → IndividualObj) : Prop where
  uri : (apply prev).uri = prev.uri
  unnamed : ∀ p, indv.resources.lookup p = none →
    (apply prev).resources.lookup p = prev.resources.lookup p
  counter : (apply prev).resources.lookup "v-s:updateCounter" =
    prev.resources.lookup "v-s:updateCounter"
  named : ∀ p, indv.resources.lookup p ≠ none → p ≠ "v-s:updateCounter" →
    contentsOf (apply prev) p = cmd.onSets (contentsOf prev p) (contentsOf indv p)
  noEntry : cmd = .removeFrom → ∀ p, indv.resources.lookup p ≠ none → p ≠ "v-s:updateCounter" →
    (apply prev).resources.lookup p ≠ some []
  twice : ∀ p, (apply (apply prev)).resources.lookup p = (apply prev).resources.lookup p

/-- **The law of the three commands**: on an individual with at least one predicate a command on
parts acts on the sets of values.

**Proof sketch.** The predicates of the request are visited one after another, each once, and each
changes its own values (`lookup_indvApplyCmd`); on one predicate the command is an operation on sets
(`contentsOf_applyPredicate`). -/
theorem indvApplyCmd_onSets (π : IterOrder String) (hcmd : cmd.isPartial = true)
    (hprev : prev.isEmpty = false) :
    ActsOnSets cmd prev indv fun prev => indvApplyCmd π cmd prev indv where
  uri := (built_indvApplyCmd cmd indv π prev).2
  unnamed p h := by
    rw [lookup_indvApplyCmd cmd indv π hprev, applyPredicate_of_none h]
  counter := by
    rw [lookup_indvApplyCmd cmd indv π hprev, applyPredicate, if_pos rfl]
  named p h hp := by
    obtain ⟨v, hv⟩ := Option.ne_none_iff_exists'.mp h
    rw [← contentsOf_applyPredicate hcmd hp hv, contentsOf, IndividualObj.valuesOf,
      lookup_indvApplyCmd cmd indv π hprev]
    rfl
  noEntry := by
    rintro rfl p h hp hnil
    obtain ⟨v, hv⟩ := Option.ne_none_iff_exists'.mp h
    rw [lookup_indvApplyCmd _ indv π hprev, lookup_removeFrom hp hv] at hnil
    split_ifs at hnil with hall
    refine hall (List.all_eq_true.mpr fun el hel => ?_)
    have hnot := List.filter_eq_nil_iff.mp (Option.some.inj hnil) el hel
    simpa using hnot
  twice p := lookup_indvApplyCmd_twice π π hcmd hprev p

end Commands

/-- Removing the two values of a predicate, in two orders, leaves no entry. -/
theorem indvApplyCmd_onSets_twoValues :
    ActsOnSets .removeFrom
      ((IndividualObj.empty.addUri "v-s:to" "d:a").addUri "v-s:to" "d:b")
      ((IndividualObj.empty.addUri "v-s:to" "d:b").addUri "v-s:to" "d:a")
      fun prev => indvApplyCmd (.stored String) .removeFrom prev
        ((IndividualObj.empty.addUri "v-s:to" "d:b").addUri "v-s:to" "d:a") :=
  indvApplyCmd_onSets (.stored String) rfl rfl

end Veda.Mstorage
