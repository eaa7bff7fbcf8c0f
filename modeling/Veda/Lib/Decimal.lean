import Mathlib.Algebra.Group.Nat.Defs
import Mathlib.Data.List.Basic
import Mathlib.Data.List.Induction

set_option autoImplicit false

/-!
# Decimal texts of bounded numbers

Numbers are printed as decimal digits and read back by a parser that also accepts a leading
plus sign and rejects what does not fit. This is the text form of the unsigned integer types
of the standard library the program is written against.

## Main definitions

* `Lib.parseUnsigned`, `Lib.parseSigned` — read a decimal text as a number up to a bound.
* `Lib.padded` — a number printed with a least number of digits.

## Main results

* `Lib.parseUnsigned_toDigits` — a printed number is read back when it fits.
* `Lib.parseSigned_signed` — a printed number with a sign is read back when it fits.
-/

namespace Veda.Lib

/-- The value of a nonempty text of decimal digits, if it does not exceed `bound`. -/
def parseDigits (bound : ℕ) (cs : List Char) : Option ℕ :=
  if cs ≠ [] ∧ cs.all Char.isDigit ∧ Nat.ofDigitChars 10 cs 0 ≤ bound then
    some (Nat.ofDigitChars 10 cs 0)
  else none

theorem ofDigitChars_lt {cs : List Char} (h : ∀ c ∈ cs, c.isDigit = true) :
    Nat.ofDigitChars 10 cs 0 < 10 ^ cs.length := by
  induction cs using List.reverseRecOn with
  | nil => simp
  | append_singleton cs c ih =>
    have hcs := ih fun c' hc' => h c' (List.mem_append_left _ hc')
    have hc : c.toNat ≤ 57 := by
      have hdigit := h c (List.mem_append_right _ List.mem_cons_self)
      simp only [Char.isDigit, Bool.and_eq_true, decide_eq_true_eq] at hdigit
      exact hdigit.2
    rw [Nat.ofDigitChars_append, Nat.ofDigitChars_cons, Nat.ofDigitChars_nil, List.length_append,
      List.length_singleton, Nat.pow_succ]
    have hzero : '0'.toNat = 48 := rfl
    omega

/-- Read a decimal text as an unsigned number up to `bound`: a leading `+` is allowed, an
empty text, a bare sign, a letter or a number that is too large are errors. -/
def parseUnsigned (bound : ℕ) : List Char → Option ℕ
  | '+' :: cs => parseDigits bound cs
  | cs => parseDigits bound cs

theorem all_isDigit_toDigits (n : ℕ) : (Nat.toDigits 10 n).all Char.isDigit := by
  rw [List.all_eq_true]
  exact fun c hc => Nat.isDigit_of_mem_toDigits (by decide) (by decide) hc

theorem parseUnsigned_toDigits {bound n : ℕ} (h : n ≤ bound) :
    parseUnsigned bound (Nat.toDigits 10 n) = some n := by
  have hplus : ∀ cs, Nat.toDigits 10 n ≠ '+' :: cs := fun cs hcs => by
    have hd := all_isDigit_toDigits n
    rw [hcs] at hd
    simp [Char.isDigit] at hd
  unfold parseUnsigned
  split
  · exact absurd (by assumption) (hplus _)
  · simp [parseDigits, all_isDigit_toDigits, Nat.toDigits_ne_nil, h]

theorem parseUnsigned_toDigits_of_lt {bound n : ℕ} (h : bound < n) :
    parseUnsigned bound (Nat.toDigits 10 n) = none := by
  have hnone : parseDigits bound (Nat.toDigits 10 n) = none := by
    rw [parseDigits, Nat.ofDigitChars_ten_toDigits, if_neg]
    exact fun hfits => absurd hfits.2.2 (Nat.not_le_of_lt h)
  unfold parseUnsigned
  split
  · rename_i cs hcs
    have hd := all_isDigit_toDigits n
    rw [hcs] at hd
    simp [Char.isDigit] at hd
  · exact hnone

@[simp] theorem parseUnsigned_nil (bound : ℕ) : parseUnsigned bound [] = none := by
  simp [parseUnsigned, parseDigits]

/-! ## Signs and leading zeros -/

/-- Read a decimal text as a signed number between `-(bound + 1)` and `bound`. -/
def parseSigned (bound : ℕ) : List Char → Option Int
  | '-' :: cs => (parseDigits (bound + 1) cs).map fun n : ℕ => -(n : Int)
  | '+' :: cs => (parseDigits bound cs).map fun n : ℕ => (n : Int)
  | cs => (parseDigits bound cs).map fun n : ℕ => (n : Int)

theorem parseSigned_of_digits {cs : List Char} (h : ∀ c ∈ cs, c.isDigit = true) (bound : ℕ) :
    parseSigned bound cs = (parseDigits bound cs).map fun n : ℕ => (n : Int) := by
  unfold parseSigned
  split
  · exact absurd (h '-' List.mem_cons_self) (by decide)
  · exact absurd (h '+' List.mem_cons_self) (by decide)
  · rfl

theorem parseSigned_toDigits (bound n : ℕ) :
    parseSigned bound (Nat.toDigits 10 n) = if n ≤ bound then some (n : Int) else none := by
  rw [parseSigned_of_digits (List.all_eq_true.mp (all_isDigit_toDigits n)), parseDigits,
    Nat.ofDigitChars_ten_toDigits]
  split_ifs with h hle hle
  · rfl
  · exact absurd h.2.2 hle
  · exact absurd ⟨Nat.toDigits_ne_nil, all_isDigit_toDigits n, hle⟩ h
  · rfl

/-- A number printed with at least `width` digits. -/
def padded (width n : ℕ) : List Char := (Nat.toDigits 10 n).leftpad width '0'

theorem all_isDigit_padded (width n : ℕ) : ∀ c ∈ padded width n, c.isDigit = true := by
  intro c hc
  rcases List.mem_append.mp hc with hc | hc
  · rw [List.eq_of_mem_replicate hc]
    rfl
  · exact List.all_eq_true.mp (all_isDigit_toDigits n) c hc

@[simp] theorem ofDigitChars_padded (width n : ℕ) : Nat.ofDigitChars 10 (padded width n) 0 = n := by
  rw [padded, List.leftpad, Nat.ofDigitChars_append, Nat.ofDigitChars_replicate_zero,
    Nat.mul_zero, Nat.ofDigitChars_ten_toDigits]

theorem le_length_padded (width n : ℕ) : width ≤ (padded width n).length := by
  rw [padded, List.length_leftpad]
  exact Nat.le_max_left _ _

theorem length_padded {width n : ℕ} (hwidth : 0 < width) (hn : n < 10 ^ width) :
    (padded width n).length = width := by
  rw [padded, List.length_leftpad]
  exact Nat.max_eq_left ((Nat.length_toDigits_le_iff (by decide) hwidth).mpr hn)

theorem parseDigits_padded {bound n : ℕ} (width : ℕ) (h : n ≤ bound) :
    parseDigits bound (padded width n) = some n := by
  have hne : padded width n ≠ [] := by
    intro hnil
    have happend := List.append_eq_nil_iff.mp hnil
    exact Nat.toDigits_ne_nil happend.2
  rw [parseDigits, if_pos, ofDigitChars_padded]
  rw [ofDigitChars_padded]
  exact ⟨hne, List.all_eq_true.mpr (all_isDigit_padded width n), h⟩

theorem takeWhile_isDigit {cs : List Char} (hcs : ∀ c ∈ cs, c.isDigit = true)
    (rest : List Char)
    (hrest : ∀ c ∈ rest.head?, c.isDigit = false) :
    (cs ++ rest).takeWhile Char.isDigit = cs ∧ (cs ++ rest).dropWhile Char.isDigit = rest := by
  have htake : rest.takeWhile Char.isDigit = [] ∧ rest.dropWhile Char.isDigit = rest := by
    cases rest with
    | nil => exact ⟨rfl, rfl⟩
    | cons c rest =>
      have hc := hrest c rfl
      exact ⟨List.takeWhile_cons_of_neg (by rw [hc]; decide),
        List.dropWhile_cons_of_neg (by rw [hc]; decide)⟩
  rw [List.takeWhile_append_of_pos hcs, List.dropWhile_append_of_pos hcs, htake.1, htake.2,
    List.append_nil]
  exact ⟨rfl, rfl⟩

/-- The sign of a number, when it has one. -/
def signText (i : Int) : List Char := if i < 0 then ['-'] else []

/-- **A printed number with a sign** is read back when it fits. -/
theorem parseSigned_signed {bound : ℕ} {i : Int} (width : ℕ) (hlow : -(bound + 1 : Int) ≤ i)
    (hhigh : i ≤ bound) : parseSigned bound (signText i ++ padded width i.natAbs) = some i := by
  unfold signText
  by_cases hneg : i < 0
  · rw [if_pos hneg, List.singleton_append, parseSigned, parseDigits_padded width (by omega),
      Option.map_some]
    congr 1
    omega
  · rw [if_neg hneg, List.nil_append]
    rw [parseSigned_of_digits (all_isDigit_padded width i.natAbs),
      parseDigits_padded width (by omega), Option.map_some]
    congr 1
    omega

end Veda.Lib
