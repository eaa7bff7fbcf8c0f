import Veda.GoWebserver.Agreement

set_option autoImplicit false

/-!
# Decimals of the web server

The web server makes the text of a decimal in slices of runes. It panics where a slice is cut
outside its bounds, which the least exponent does because it cannot be negated, and where a slice is
made longer than the runtime allows, which a large exponent does. Of the texts that it makes, those
with two signs denote no number, and those with as many places as digits or more denote a number
that is too small, unless there is only one digit.

## Main definitions

* `GoWebserver.decimalToStringIn` — the text of a decimal, or a panic.
* `GoWebserver.runeCount` — the length of the text without its sign.

## Main results

* `GoWebserver.decimalToStringIn_eq_some_iff` — when there is a text.
* `GoWebserver.decimalToStringIn_denotes_iff` — when it denotes the decimal.
-/

namespace Veda.GoWebserver

open Veda.Lib

/-- A slice with these runes, when the runtime makes slices of that length. -/
def makeRunes (room : ℕ) (runes : List Char) : Option (List Char) :=
  if runes.length ≤ room then some runes else none

theorem makeRunes_eq_some_iff {room : ℕ} {runes text : List Char} :
    makeRunes room runes = some text ↔ runes.length ≤ room ∧ text = runes := by
  rw [makeRunes, Option.ite_none_right_eq_some, Option.some.injEq, eq_comm (a := text)]

/-- The decimal digits `res` with the point of the exponent. All other slices that are made on the
way are parts of the last one. -/
def placePointIn (room : ℕ) (res : List Char) (exponent : Int64) : Option (List Char) :=
  if 0 ≤ exponent then makeRunes room (res ++ List.replicate exponent.toInt.toNat '0')
  else
    let exponent := -exponent
    if exponent.toInt < res.length then
      -- `res` is cut in two at this index
      let cut := (Int64.ofInt (res.length - exponent.toInt)).toInt
      if 0 ≤ cut ∧ cut ≤ res.length then
        makeRunes room (res.take cut.toNat ++ '.' :: res.drop cut.toNat)
      else none
    else makeRunes room ('.' :: List.replicate (exponent.toInt.toNat - 1) '0' ++ res)

/-- `decimalToString` with at most `room` runes in a slice; `none` is a panic. -/
def decimalToStringIn (room : ℕ) (mantissa exponent : Int64) : Option (List Char) :=
  if mantissa < 0 then (placePointIn room (formatInt (-mantissa)) exponent).map ('-' :: ·)
  else placePointIn room (formatInt mantissa) exponent

variable {m e : Int64}

/-- The number of digits of a mantissa. -/
def digitCount (m : Int64) : ℕ := (Nat.toDigits 10 m.toInt.natAbs).length

/-- The number of runes that the digits, the zeros and the point take. -/
def runeCount (m e : Int64) : ℕ :=
  if 0 ≤ e.toInt then digitCount m + e.toInt.toNat
  else if pointPlace e < digitCount m then digitCount m + 1
  else digitCount m + pointPlace e

theorem placePointIn_eq {res : List Char} (room : ℕ) (hlength : res.length < 2 ^ 63)
    (hmin : e ≠ Int64.minValue) :
    placePointIn room res e = makeRunes room (placePoint res e) := by
  unfold placePointIn placePoint
  split_ifs with he
  · rfl
  have hneg := (nonneg_iff e).not.mp he
  have hlow := e.le_toInt
  dsimp only
  rw [toInt_neg_of_ne hmin]
  by_cases hk : -e.toInt < res.length
  · have hcut : (Int64.ofInt (res.length - -e.toInt)).toInt = res.length - -e.toInt := by
      have hsize : Int64.size = 18446744073709551616 := rfl
      rw [Int64.toInt_ofInt, Int.bmod_eq_of_le] <;> omega
    rw [if_pos hk, if_pos (by omega), hcut, if_pos (by omega)]
    congr 3 <;> congr 1 <;> omega
  · rw [if_neg hk, if_neg (by omega)]

theorem placePointIn_minValue {res : List Char} (room : ℕ) (hlength : res.length < 2 ^ 63) :
    placePointIn room res Int64.minValue = none := by
  have hmin : (-Int64.minValue).toInt = -2 ^ 63 := by decide
  have hcut : (Int64.ofInt (res.length - (-Int64.minValue).toInt)).toInt < 0 := by
    rw [hmin, Int64.toInt_ofInt, Int.bmod_def, show Int64.size = 18446744073709551616 from rfl]
    split_ifs <;> omega
  unfold placePointIn
  rw [if_neg (by decide)]
  dsimp only
  rw [if_pos (by omega), if_neg (by omega)]

theorem digitCount_le (m : Int64) : digitCount m ≤ 19 := by
  have hlow := m.le_toInt
  have hhigh := m.toInt_lt
  exact (Nat.length_toDigits_le_iff (by decide) (by decide)).mpr (by omega)

theorem length_placePoint (hmin : e ≠ Int64.minValue) :
    (placePoint (Nat.toDigits 10 m.toInt.natAbs) e).length = runeCount m e := by
  unfold placePoint runeCount pointPlace digitCount
  simp only [nonneg_iff, toInt_neg_of_ne hmin]
  split_ifs with he hk
  · rw [List.length_append, List.length_replicate]
  · rw [List.length_append, List.length_cons, List.length_take, List.length_drop]
    omega
  · rw [List.length_append, List.length_cons, List.length_replicate]
    omega

/-- **When there is a text**: the exponent can be negated and the runes have room. -/
theorem decimalToStringIn_eq_some_iff (room : ℕ) (m e : Int64) (text : List Char) :
    decimalToStringIn room m e = some text ↔
      e ≠ Int64.minValue ∧
        (placePoint (formatInt (if m < 0 then -m else m)) e).length ≤ room ∧
        text = decimalToString m e := by
  have hlength : ∀ i : Int64, (formatInt i).length < 2 ^ 63 := by
    intro i
    have hdigits := digitCount_le i
    have hsign : (signText i.toInt).length ≤ 1 := by
      unfold signText
      split_ifs <;> decide
    rw [formatInt, List.length_append, ← digitCount]
    omega
  by_cases hmin : e = Int64.minValue
  · rw [hmin, decimalToStringIn, placePointIn_minValue room (hlength _),
      placePointIn_minValue room (hlength _)]
    simp
  unfold decimalToStringIn decimalToString
  rw [placePointIn_eq room (hlength _) hmin, placePointIn_eq room (hlength _) hmin]
  split_ifs
  · simp only [Option.map_eq_some_iff, makeRunes_eq_some_iff]
    constructor
    · rintro ⟨_, ⟨hroom, rfl⟩, htext⟩
      exact ⟨hmin, hroom, htext.symm⟩
    · rintro ⟨_, hroom, htext⟩
      exact ⟨_, ⟨hroom, rfl⟩, htext.symm⟩
  · rw [makeRunes_eq_some_iff]
    exact (and_iff_right hmin).symm

theorem textNumber_decimalToString_of_nonneg (hm : m ≠ Int64.minValue) (he : 0 ≤ e.toInt) :
    textNumber (decimalToString m e) = some (m.toInt * 10 ^ e.toInt.toNat : ℚ) := by
  have hdigits := List.all_eq_true.mp (all_isDigit_toDigits m.toInt.natAbs)
  have hplace : placePoint (Nat.toDigits 10 m.toInt.natAbs) e =
      Nat.toDigits 10 m.toInt.natAbs ++ List.replicate e.toInt.toNat '0' :=
    if_pos ((nonneg_iff e).mpr he)
  have hnumber : unsignedNumber (placePoint (Nat.toDigits 10 m.toInt.natAbs) e) =
      some ((m.toInt.natAbs : ℚ) / (10 ^ e.toInt.toNat)⁻¹) := by
    rw [hplace, unsignedNumber_digits (List.append_ne_nil_of_left_ne_nil Nat.toDigits_ne_nil _),
      Nat.ofDigitChars_append, Nat.ofDigitChars_ten_toDigits, Nat.ofDigitChars_replicate_zero,
      div_inv_eq_mul, mul_comm]
    · push_cast
      rfl
    · intro c hc
      rcases List.mem_append.mp hc with hc | hc
      · exact hdigits c hc
      · rw [List.eq_of_mem_replicate hc]
        rfl
  rw [textNumber_decimalToString_eq hm, hnumber, Option.map_some]
  exact congrArg some ((signed_div _ _).trans (div_inv_eq_mul _ _))

theorem textNumber_decimalToString_iff (hmin : e ≠ Int64.minValue) :
    textNumber (decimalToString m e) = some (m.toInt * 10 ^ e.toInt : ℚ) ↔ DecimalFits m e := by
  by_cases he : 0 ≤ e.toInt
  · by_cases hm : m = Int64.minValue
    · rw [hm, textNumber_minValue]
      exact iff_of_false (by simp) fun h => h.1 rfl
    have hplace : pointPlace e = 0 := by
      unfold pointPlace
      omega
    rw [textNumber_decimalToString_of_nonneg hm he, ← zpow_natCast, Int.toNat_of_nonneg he]
    refine iff_of_true rfl ⟨hm, ?_⟩
    rw [hplace, pow_zero]
    omega
  · have hplace : e.toInt = -(pointPlace e : ℤ) := by
      unfold pointPlace
      omega
    rw [← sameNumber_iff hmin (by omega), textNumber_decimalText, hplace, zpow_neg, zpow_natCast,
      ← div_eq_mul_inv]
    exact ⟨fun h => ⟨_, h, rfl⟩, fun ⟨n, hn, hn'⟩ => hn.trans hn'.symm⟩

/-- **A decimal is denoted** by its text exactly when its mantissa and its exponent can be negated,
the digits are more than the places or only one, and the runes have room. -/
theorem decimalToStringIn_denotes_iff (room : ℕ) (m e : Int64) :
    (∃ text, decimalToStringIn room m e = some text ∧
        textNumber text = some (m.toInt * 10 ^ e.toInt : ℚ)) ↔
      DecimalFits m e ∧ e ≠ Int64.minValue ∧ runeCount m e ≤ room := by
  have hrunes : m ≠ Int64.minValue → e ≠ Int64.minValue →
      (placePoint (formatInt (if m < 0 then -m else m)) e).length = runeCount m e := by
    intro hm hmin
    rw [← length_placePoint hmin]
    split_ifs with hneg
    · rw [formatInt_neg hm hneg]
    · rw [formatInt_of_nonneg hneg]
  simp only [decimalToStringIn_eq_some_iff]
  constructor
  · rintro ⟨_, ⟨hmin, hroom, rfl⟩, hnumber⟩
    have hfits := (textNumber_decimalToString_iff hmin).mp hnumber
    exact ⟨hfits, hmin, hrunes hfits.1 hmin ▸ hroom⟩
  · rintro ⟨hfits, hmin, hroom⟩
    exact ⟨_, ⟨hmin, (hrunes hfits.1 hmin).symm ▸ hroom, rfl⟩,
      (textNumber_decimalToString_iff hmin).mpr hfits⟩

/-- Twelve thousandths become twelve ten-thousandths. -/
theorem decimalToStringIn_twelve_thousandths :
    decimalToStringIn 100 12 (-3) = some ".0012".toList ∧
      textNumber ".0012".toList ≠ some (12 * 10 ^ (-3 : ℤ)) := by
  refine ⟨by decide, fun h => ?_⟩
  have hnumber : textNumber ".0012".toList = some (12 / 10 ^ 4) := rfl
  rw [hnumber] at h
  norm_num at h

end Veda.GoWebserver
