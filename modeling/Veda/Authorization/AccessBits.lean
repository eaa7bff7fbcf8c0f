import Veda.Authorization.Formats
import Mathlib.Tactic.IntervalCases

set_option autoImplicit false

/-!
# Access bytes as sets of access bits

An access byte is read as the set of the bits it holds: `has x a` says that `x` holds the bit
`a`. Each bit has a letter, and the tables of the text format are the maps between the two.

## Main definitions

* `Authorization.has` — membership of a bit in an access byte.
* `Authorization.Access.letter` — the letter of a bit.
* `Authorization.Access.all` — the bits in the order of the tables.

## Main results

* `Authorization.ext_has` — a byte is determined by its bits.
* `Authorization.accessFromChar_eq_some` — the letters are the only characters the table
  knows.
-/

namespace Veda.Authorization

open Veda.Lib

/-- The position of a bit in the byte. -/
def Access.idx : Access → ℕ
  | .canCreate => 0
  | .canRead => 1
  | .canUpdate => 2
  | .canDelete => 3
  | .cantCreate => 4
  | .cantRead => 5
  | .cantUpdate => 6
  | .cantDelete => 7

/-- The letter of a bit. -/
def Access.letter : Access → Char
  | .canCreate => 'M'
  | .canRead => 'R'
  | .canUpdate => 'U'
  | .canDelete => 'P'
  | .cantCreate => 'm'
  | .cantRead => 'r'
  | .cantUpdate => 'u'
  | .cantDelete => 'p'

/-- The bits in the order of the tables of the source. -/
def Access.all : List Access :=
  [.canCreate, .canRead, .canUpdate, .canDelete, .cantCreate, .cantRead, .cantUpdate, .cantDelete]

/-- The byte `x` holds the bit `a`. -/
def has (x : U8) (a : Access) : Bool := x.getLsbD a.idx

theorem Access.nodup_all : Access.all.Nodup := by decide

@[simp] theorem Access.mem_all (a : Access) : a ∈ Access.all := by cases a <;> decide

theorem accessCFullList_eq : accessCFullList = Access.all.map Access.letter := by decide

theorem access8FullList_eq : access8FullList = Access.all.map Access.toU8 := by decide

@[simp] theorem accessFromChar_letter (a : Access) : accessFromChar a.letter = some a := by
  cases a <;> rfl

@[simp] theorem access8FromChar_letter (a : Access) : access8FromChar a.letter = some a.toU8 := by
  cases a <;> rfl

@[simp] theorem access8ToChar_toU8 (a : Access) : access8ToChar a.toU8 = some a.letter := by
  cases a <;> decide

theorem accessFromChar_eq_some {c : Char} {a : Access} :
    accessFromChar c = some a ↔ c = a.letter := by
  constructor
  · intro h
    unfold accessFromChar at h
    split at h <;> simp_all [Access.letter] <;> subst h <;> rfl
  · rintro rfl
    exact accessFromChar_letter a

theorem letter_injective {a b : Access} : a.letter = b.letter ↔ a = b := by
  constructor
  · intro h
    have := accessFromChar_letter a
    rw [h, accessFromChar_letter] at this
    exact (Option.some.inj this).symm
  · rintro rfl
    rfl

theorem letter_ne_marker (a : Access) : a.letter ≠ mIsExclusive ∧ a.letter ≠ mIgnoreExclusive := by
  cases a <;> decide

/-! ## Bits of a byte -/

@[simp] theorem has_zero (a : Access) : has 0#8 a = false := by simp [has]

@[simp] theorem has_or (x y : U8) (a : Access) : has (x ||| y) a = (has x a || has y a) := by
  simp [has]

@[simp] theorem has_and (x y : U8) (a : Access) : has (x &&& y) a = (has x a && has y a) := by
  simp [has]

theorem has_toU8 (a b : Access) : has a.toU8 b = decide (a = b) := by
  cases a <;> cases b <;> decide

theorem has_not (x : U8) (a : Access) : has (~~~x) a = !has x a := by
  revert x
  cases a <;> decide

theorem and_toU8 (x : U8) (a : Access) : a.toU8 &&& x = if has x a then a.toU8 else 0 := by
  revert x
  cases a <;> decide

theorem toU8_ne_zero (a : Access) : a.toU8 ≠ 0 := by cases a <;> decide

theorem toU8_and_ne_zero (x : U8) (a : Access) : a.toU8 &&& x ≠ 0 ↔ has x a = true := by
  rw [and_toU8]
  split_ifs with h
  · simpa [h] using toU8_ne_zero a
  · simp [h]

theorem and_toU8_ne_zero (x : U8) (a : Access) : x &&& a.toU8 ≠ 0 ↔ has x a = true := by
  rw [BitVec.and_comm, toU8_and_ne_zero]

theorem ext_has {x y : U8} (h : ∀ a, has x a = has y a) : x = y := by
  refine BitVec.eq_of_getLsbD_eq fun i hi => ?_
  interval_cases i
  · exact h .canCreate
  · exact h .canRead
  · exact h .canUpdate
  · exact h .canDelete
  · exact h .cantCreate
  · exact h .cantRead
  · exact h .cantUpdate
  · exact h .cantDelete

end Veda.Authorization
