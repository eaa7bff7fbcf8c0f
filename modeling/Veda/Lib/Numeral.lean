import Mathlib.Algebra.Field.Rat
import Veda.Lib.Decimal

set_option autoImplicit false

/-!
# The numbers of decimal texts

A decimal text is an optional minus sign and digits, in which there may be a point. Digits may be
missing on one side of the point.

## Main definitions

* `Lib.textNumber` — the number of a text.

## Main results

* `Lib.textNumber_signed` — the number of a text with a sign.
* `Lib.unsignedNumber_digits`, `Lib.unsignedNumber_point` — digits without and with a point.
-/

namespace Veda.Lib

/-- The number of digits with or without a point. -/
def unsignedNumber (cs : List Char) : Option ℚ :=
  let whole := cs.takeWhile Char.isDigit
  match cs.dropWhile Char.isDigit with
  | [] => if whole = [] then none else some (Nat.ofDigitChars 10 whole 0)
  | '.' :: fraction =>
    if whole ++ fraction ≠ [] ∧ fraction.all Char.isDigit then
      some (Nat.ofDigitChars 10 (whole ++ fraction) 0 / 10 ^ fraction.length)
    else none
  | _ => none

/-- The number of a decimal text. -/
def textNumber : List Char → Option ℚ
  | '-' :: cs => (unsignedNumber cs).map fun n => -n
  | cs => unsignedNumber cs

variable {cs whole fraction : List Char}

theorem unsignedNumber_digits (hne : cs ≠ []) (hcs : ∀ c ∈ cs, c.isDigit = true) :
    unsignedNumber cs = some (Nat.ofDigitChars 10 cs 0 : ℚ) := by
  obtain ⟨htake, hdrop⟩ := takeWhile_isDigit hcs [] (by simp)
  rw [List.append_nil] at htake hdrop
  rw [unsignedNumber, htake, hdrop]
  exact if_neg hne

theorem unsignedNumber_point (hne : whole ++ fraction ≠ [])
    (hwhole : ∀ c ∈ whole, c.isDigit = true) (hfraction : ∀ c ∈ fraction, c.isDigit = true) :
    unsignedNumber (whole ++ '.' :: fraction) =
      some (Nat.ofDigitChars 10 (whole ++ fraction) 0 / 10 ^ fraction.length : ℚ) := by
  obtain ⟨htake, hdrop⟩ := takeWhile_isDigit hwhole ('.' :: fraction) (by
    intro c hc
    obtain rfl : '.' = c := Option.some.inj hc
    rfl)
  rw [unsignedNumber, htake, hdrop]
  exact if_pos ⟨hne, List.all_eq_true.mpr hfraction⟩

theorem unsignedNumber_eq_none {c : Char} (hdigit : c.isDigit = false) (hpoint : c ≠ '.')
    (hmem : c ∈ cs) : unsignedNumber cs = none := by
  have hsplit := List.takeWhile_append_dropWhile (p := Char.isDigit) (l := cs)
  have hdrop : c ∈ cs.dropWhile Char.isDigit := by
    rw [← hsplit, List.mem_append] at hmem
    refine hmem.resolve_left fun htake => ?_
    rw [List.all_eq_true.mp List.all_takeWhile c htake] at hdigit
    cases hdigit
  unfold unsignedNumber
  dsimp only
  split
  · rename_i h
    rw [h] at hdrop
    cases hdrop
  · rename_i fraction h
    rw [h] at hdrop
    refine if_neg fun hall => ?_
    have hc := List.all_eq_true.mp hall.2 c ((List.mem_cons.mp hdrop).resolve_left hpoint)
    rw [hc] at hdigit
    cases hdigit
  · rfl

theorem textNumber_signed (i : Int) (hcs : ∀ c ∈ cs.head?, c ≠ '-') :
    textNumber (signText i ++ cs) =
      (unsignedNumber cs).map fun n => if i < 0 then -n else n := by
  unfold signText
  by_cases hneg : i < 0
  · rw [if_pos hneg]
    simp only [if_pos hneg]
    rfl
  · rw [if_neg hneg, List.nil_append]
    simp only [if_neg hneg]
    rw [Option.map_id']
    unfold textNumber
    split
    · exact absurd rfl (hcs '-' rfl)
    · rfl

end Veda.Lib
