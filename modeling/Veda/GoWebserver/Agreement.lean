import Mathlib.Data.List.Perm.Basic
import Veda.GoWebserver.Individual
import Veda.Lib.Numeral
import Veda.Onto.JsonExchange

set_option autoImplicit false

/-!
# The two readers of a stored individual

The web server in Go makes JSON of a stored individual by itself; the services in Rust decode the
individual and write it. The two agree on an individual unless one of its values is an empty uri,
on which the web server panics, an empty text with a language, whose language it loses, a point in
time with a year of more than four digits, which it writes without a sign, or a decimal below one
with several digits, which it divides by a power of ten too many.

## Main definitions

* `GoWebserver.IndividualObj.Written` — the individuals that are compared.
* `GoWebserver.ReadersAgree` — the two readers give the same JSON.
* `GoWebserver.ReadAlike` — the condition on a value.

## Main results

* `GoWebserver.textNumber_decimalToString` — the number of a decimal text.
* `GoWebserver.resourceOf_resourceValue`, `GoWebserver.convert_entries` — what the web server
  makes of the values and of the predicates.
* `GoWebserver.readersAgree_iff` — the readers agree exactly when every value is read alike.
-/

namespace Veda.GoWebserver

open Veda.Lib Veda.Onto

/-! ## Decimals -/

section Decimals

variable {m e : Int64}

/-- The place of the point, counted from the end of the digits. -/
def pointPlace (e : Int64) : ℕ := (-e.toInt).toNat

theorem toInt_neg_of_ne (hm : m ≠ Int64.minValue) : (-m).toInt = -m.toInt := by
  have hlow := m.le_toInt
  have hhigh := m.toInt_lt
  have hne : m.toInt ≠ -9223372036854775808 := fun h => hm (Int64.toInt_inj.mp (by
    rw [h, Int64.toInt_minValue]
    rfl))
  rw [Int64.toInt_neg, Int.bmod_eq_of_le] <;> omega

theorem nonneg_iff (e : Int64) : 0 ≤ e ↔ 0 ≤ e.toInt := by
  rw [Int64.le_iff_toInt_le, Int64.toInt_zero]

theorem neg_iff (m : Int64) : m < 0 ↔ m.toInt < 0 := by
  rw [Int64.lt_iff_toInt_lt, Int64.toInt_zero]

theorem formatInt_neg (hm : m ≠ Int64.minValue) (hneg : m < 0) :
    formatInt (-m) = Nat.toDigits 10 m.toInt.natAbs := by
  have hlt := (neg_iff m).mp hneg
  rw [formatInt, toInt_neg_of_ne hm, signText, if_neg (by omega), Int.natAbs_neg]
  rfl

theorem formatInt_of_nonneg (hge : ¬ m < 0) :
    formatInt m = Nat.toDigits 10 m.toInt.natAbs := by
  rw [formatInt, signText, if_neg (mt (neg_iff m).mpr hge)]
  rfl

theorem decimalToString_eq (hm : m ≠ Int64.minValue) :
    decimalToString m e = signText m.toInt ++ placePoint (Nat.toDigits 10 m.toInt.natAbs) e := by
  unfold decimalToString signText
  by_cases hneg : m < 0
  · rw [if_pos hneg, if_pos ((neg_iff m).mp hneg), formatInt_neg hm hneg]
    rfl
  · rw [if_neg hneg, if_neg (mt (neg_iff m).mpr hneg), formatInt_of_nonneg hneg]
    rfl

theorem unsignedNumber_placePoint {digits : List Char} (hne : digits ≠ [])
    (hdigits : ∀ c ∈ digits, c.isDigit = true) (hmin : e ≠ Int64.minValue) (hhigh : e.toInt ≤ 0) :
    unsignedNumber (placePoint digits e) =
      some (Nat.ofDigitChars 10 digits 0 /
        10 ^ if pointPlace e < digits.length then pointPlace e
          else pointPlace e - 1 + digits.length : ℚ) := by
  have hlength := List.length_pos_iff.mpr hne
  unfold placePoint pointPlace
  by_cases he : 0 ≤ e
  · have hge := (nonneg_iff e).mp he
    have heq : e.toInt = 0 := by omega
    rw [if_pos he, heq, Int.toNat_zero, List.replicate_zero, List.append_nil,
      unsignedNumber_digits hne hdigits, Int.neg_zero, Int.toNat_zero, if_pos hlength, pow_zero,
      div_one]
  · have hpos : 0 < (-e.toInt).toNat := by
      have := (nonneg_iff e).not.mp he
      omega
    rw [if_neg he, toInt_neg_of_ne hmin]
    dsimp only
    generalize (-e.toInt).toNat = k at hpos ⊢
    by_cases hk : k < digits.length
    · rw [if_pos hk, if_pos hk, unsignedNumber_point]
      · rw [List.take_append_drop, List.length_drop]
        congr 3
        omega
      · rw [List.take_append_drop]
        exact hne
      · exact fun c hc => hdigits c (List.mem_of_mem_take hc)
      · exact fun c hc => hdigits c (List.mem_of_mem_drop hc)
    · rw [if_neg hk, if_neg hk]
      have hpoint : unsignedNumber ([] ++ '.' :: (List.replicate (k - 1) '0' ++ digits)) = _ :=
        unsignedNumber_point (by simpa using fun _ => hne) (by simp) (by
          intro c hc
          rcases List.mem_append.mp hc with hc | hc
          · rw [List.eq_of_mem_replicate hc]
            rfl
          · exact hdigits c hc)
      rw [List.nil_append, List.nil_append] at hpoint
      rw [List.cons_append, hpoint, Nat.ofDigitChars_append, Nat.ofDigitChars_replicate_zero,
        Nat.mul_zero, List.length_append, List.length_replicate]

theorem mem_placePoint {c : Char} {digits : List Char} (hc : c ∈ digits) (e : Int64) :
    c ∈ placePoint digits e := by
  unfold placePoint
  split_ifs with he
  · exact List.mem_append_left _ hc
  dsimp only
  split_ifs with hk
  · rw [← List.take_append_drop (digits.length - (-e).toInt.toNat) digits, List.mem_append] at hc
    exact List.mem_append.mpr (hc.imp_right (List.mem_cons_of_mem _))
  · exact List.mem_append_right _ hc

theorem ne_minus_of_mem_placePoint {c : Char} {digits : List Char}
    (hdigits : ∀ c ∈ digits, c.isDigit = true) (hc : c ∈ placePoint digits e) : c ≠ '-' := by
  have hdigit : ∀ c ∈ digits, c ≠ '-' := by
    rintro c hc rfl
    exact absurd (hdigits _ hc) (by decide)
  have hzero : ∀ n, c ∈ List.replicate n '0' → c ≠ '-' := by
    intro n hn
    rw [List.eq_of_mem_replicate hn]
    decide
  unfold placePoint at hc
  split_ifs at hc with he
  · exact (List.mem_append.mp hc).elim (hdigit c) (hzero _)
  dsimp only at hc
  split_ifs at hc with hk
  · rcases List.mem_append.mp hc with hc | hc
    · exact hdigit c (List.mem_of_mem_take hc)
    rcases List.mem_cons.mp hc with rfl | hc
    · decide
    · exact hdigit c (List.mem_of_mem_drop hc)
  · rcases List.mem_cons.mp hc with rfl | hc
    · decide
    · exact (List.mem_append.mp hc).elim (hzero _) (hdigit c)

theorem textNumber_minValue (e : Int64) :
    textNumber (decimalToString Int64.minValue e) = none := by
  have hmem : '-' ∈ placePoint (formatInt Int64.minValue) e := mem_placePoint (by decide) e
  have htext : decimalToString Int64.minValue e =
      '-' :: placePoint (formatInt Int64.minValue) e := rfl
  rw [htext, textNumber, unsignedNumber_eq_none (by decide) (by decide) hmem, Option.map_none]

theorem signed_div (i : Int) (x : ℚ) :
    (if i < 0 then -((i.natAbs : ℚ) / x) else i.natAbs / x) = i / x := by
  split_ifs with hneg
  · rw [← neg_div, ← Int.cast_natCast, Int.ofNat_natAbs_of_nonpos hneg.le, Int.cast_neg, neg_neg]
  · rw [← Int.cast_natCast, Int.natAbs_of_nonneg (by omega)]

theorem textNumber_decimalToString_eq (hm : m ≠ Int64.minValue) :
    textNumber (decimalToString m e) =
      (unsignedNumber (placePoint (Nat.toDigits 10 m.toInt.natAbs) e)).map
        fun n => if m.toInt < 0 then -n else n := by
  rw [decimalToString_eq hm]
  exact textNumber_signed _ fun c hc => ne_minus_of_mem_placePoint
    (List.all_eq_true.mp (all_isDigit_toDigits _)) (List.mem_of_mem_head? hc)

theorem textNumber_decimalToString (hm : m ≠ Int64.minValue) (hmin : e ≠ Int64.minValue)
    (hhigh : e.toInt ≤ 0) :
    textNumber (decimalToString m e) =
      some (m.toInt / 10 ^ if pointPlace e < (Nat.toDigits 10 m.toInt.natAbs).length
        then pointPlace e
        else pointPlace e - 1 + (Nat.toDigits 10 m.toInt.natAbs).length : ℚ) := by
  have hdigits := List.all_eq_true.mp (all_isDigit_toDigits m.toInt.natAbs)
  rw [textNumber_decimalToString_eq hm, unsignedNumber_placePoint Nat.toDigits_ne_nil hdigits hmin
    hhigh, Option.map_some, Nat.ofDigitChars_ten_toDigits]
  exact congrArg some (signed_div _ _)

theorem textNumber_decimalText (num : Int) (scale : ℕ) :
    textNumber (decimalText num scale) = some (num / 10 ^ scale : ℚ) := by
  obtain ⟨whole, fraction, hwhole, hleft, hright, hfraction, happend, htext⟩ :=
    decimalText_eq num scale
  have hhead : ∀ rest, ∀ c ∈ (whole ++ rest).head?, c ≠ '-' := by
    rintro rest c hc rfl
    rw [List.head?_append_of_ne_nil _ hwhole] at hc
    exact absurd (hleft '-' (List.mem_of_mem_head? hc)) (by decide)
  have hnumber : unsignedNumber (if scale = 0 then whole else whole ++ '.' :: fraction) =
      some (num.natAbs / 10 ^ scale : ℚ) := by
    by_cases hzero : scale = 0
    · rw [hzero] at hfraction
      rw [List.length_eq_zero_iff.mp hfraction, List.append_nil] at happend
      rw [if_pos hzero, unsignedNumber_digits hwhole hleft, happend, ofDigitChars_padded, hzero,
        pow_zero, div_one]
    · rw [if_neg hzero, unsignedNumber_point (fun h => hwhole (List.append_eq_nil_iff.mp h).1)
        hleft hright, happend, ofDigitChars_padded, hfraction]
  have hsign : ∀ c ∈ (if scale = 0 then whole else whole ++ '.' :: fraction).head?, c ≠ '-' := by
    split_ifs
    · have := hhead []
      rwa [List.append_nil] at this
    · exact hhead _
  rw [htext, textNumber_signed _ hsign, hnumber, Option.map_some]
  exact congrArg some (signed_div num _)

/-- The decimals whose number the web server writes: the mantissa can be negated, and it has one
digit or more digits than the point has places. -/
def DecimalFits (m e : Int64) : Prop :=
  m ≠ Int64.minValue ∧ (m.toInt.natAbs < 10 ∨ 10 ^ pointPlace e ≤ m.toInt.natAbs)

instance (m e : Int64) : Decidable (DecimalFits m e) := inferInstanceAs (Decidable (_ ∧ _))

theorem pointPlace_iff (n k : ℕ) :
    ((if k < (Nat.toDigits 10 n).length then k else k - 1 + (Nat.toDigits 10 n).length) = k) ↔
      n < 10 ∨ 10 ^ k ≤ n := by
  have hpos : 0 < (Nat.toDigits 10 n).length := List.length_pos_iff.mpr Nat.toDigits_ne_nil
  have hone : (Nat.toDigits 10 n).length ≤ 1 ↔ n < 10 ^ 1 :=
    Nat.length_toDigits_le_iff (by decide) (by decide)
  rcases Nat.eq_zero_or_pos k with rfl | hk
  · rw [if_pos hpos, pow_zero]
    omega
  have hlen : (Nat.toDigits 10 n).length ≤ k ↔ n < 10 ^ k :=
    Nat.length_toDigits_le_iff (by decide) hk
  split_ifs with h
  · have := hlen.not.mp (by omega)
    omega
  · have := hlen.mp (by omega)
    omega

/-- **Decimals**: the two texts have the same number exactly when the decimal fits. -/
theorem sameNumber_iff (hmin : e ≠ Int64.minValue) (hhigh : e.toInt ≤ 0) :
    (∃ n, textNumber (decimalToString m e) = some n ∧
        textNumber (decimalText m.toInt (pointPlace e)) = some n) ↔ DecimalFits m e := by
  rw [textNumber_decimalText, DecimalFits, ← pointPlace_iff]
  by_cases hm : m = Int64.minValue
  · rw [hm, textNumber_minValue]
    simp
  rw [textNumber_decimalToString hm hmin hhigh]
  constructor
  · rintro ⟨n, hn, hn'⟩
    refine ⟨hm, ?_⟩
    by_cases hzero : m.toInt = 0
    · rw [pointPlace_iff, hzero]
      exact .inl (by decide)
    have heq := (Option.some.inj hn).trans (Option.some.inj hn').symm
    rw [div_eq_div_iff (pow_ne_zero _ (by norm_num)) (pow_ne_zero _ (by norm_num))] at heq
    have hpow := mul_left_cancel₀ (Int.cast_ne_zero.mpr hzero) heq
    exact Nat.pow_right_injective (Nat.le_add_left 2 8) (by exact_mod_cast hpow.symm)
  · rintro ⟨-, hplace⟩
    rw [hplace]
    exact ⟨_, rfl, rfl⟩

end Decimals

/-! ## What the web server makes of a value -/

/-- The years that the date library of the services can represent. -/
def Representable (i : Int64) : Prop := -262144 ≤ yearOf i.toInt ∧ yearOf i.toInt ≤ 262143

/-- A value of a domain that is compared: it has the variant of its type, it is not binary, and the
exponent of a decimal is the negation of a scale. -/
def Comparable (r : Resource) : Prop := r.WellTyped ∧ r.value.Exchangeable

theorem Comparable.ne_binary {r : Resource} (h : Comparable r) : r.rtype ≠ .binary := by
  obtain ⟨rtype, value, order⟩ := r
  obtain ⟨htyped, hvalue⟩ := h
  rintro rfl
  cases value <;> first | exact htyped.elim | exact hvalue.elim

/-- The members that the web server gives a value that it can read. -/
def goMembers : Value → List (String × Json)
  | .int i => resource .integer (.int i.toInt)
  | .str s l =>
    resource .string (.str s) ++ if l = .none ∨ s = "" then [] else [("lang", .str l.name)]
  | .uri s => resource .uri (.str s)
  | .bool b => resource .boolean (.bool b)
  | .num m e => resource .decimal (.str (String.ofList (decimalToString m e)))
  | .datetime i => resource .datetime (.str (String.ofList (timeString i)))
  | .binary _ => []

theorem numberJson_intValue (i : Int64) : numberJson (intValue i) = .ok (.int i.toInt) := by
  have hhigh := i.toInt_lt
  unfold intValue
  split_ifs with hneg
  · rfl
  · rw [numberJson, UInt64.toNat_ofNat', Nat.mod_eq_of_lt (by omega), Int.toNat_of_nonneg (by omega)]

theorem toInt64_intValue (i : Int64) : toInt64 (intValue i) = .ok i := by
  unfold intValue
  split_ifs with hneg
  · rfl
  · rw [toInt64, UInt64.toInt64_ofNat']
    congr 1
    rw [← Int64.ofInt_eq_ofNat, Int.toNat_of_nonneg (by omega), Int64.ofInt_toInt]

theorem langJson_byteValue {l : Lang} (hl : l ≠ .none) :
    langJson (byteValue l.toU8) = .ok (.str l.name) := by
  cases l with
  | none => exact absurd rfl hl
  | ru => rfl
  | en => rfl

/-- **One value**: an empty uri is a panic, and every other value is read. -/
theorem resourceOf_resourceValue {r : Resource} (h : Comparable r) :
    resourceOf (resourceValue r) =
      if r.value = .uri "" then .error .panic else .ok (some (goMembers r.value)) := by
  obtain ⟨rtype, value, order⟩ := r
  obtain ⟨htyped, hvalue⟩ := h
  cases rtype <;> cases value <;> try exact htyped.elim
  case integer.int i =>
    show some <$> integerResource (.slice [byteValue 4, intValue i]) = _
    show some <$> (numberJson (intValue i) >>= fun num => pure (resource .integer num)) = _
    rw [numberJson_intValue]
    rfl
  case datetime.datetime i =>
    show some <$> (toInt64 (intValue i) >>= fun dt =>
      pure (resource .datetime (.str (String.ofList (timeString dt))))) = _
    rw [toInt64_intValue]
    rfl
  case decimal.num m e =>
    show some <$> (toInt64 (intValue m) >>= fun mantissa => toInt64 (intValue e) >>= fun exponent =>
      pure (resource .decimal (.str (String.ofList (decimalToString mantissa exponent))))) = _
    rw [toInt64_intValue, toInt64_intValue]
    rfl
  case boolean.bool b => rfl
  case uri.uri s =>
    show some <$> (asString (textValue s) >>= fun s => pure (resource .uri (.str s))) = _
    by_cases hs : s = ""
    · subst hs
      rfl
    · rw [textValue, if_neg (by simpa using hs), if_neg (by simpa using hs)]
      rfl
  case binary.binary => exact hvalue.elim
  case string.str s l =>
    by_cases hs : s = ""
    · subst hs
      cases l <;> rfl
    have htext : textValue s = .string s := if_neg (by simpa using hs)
    by_cases hl : l = .none
    · subst hl
      show some <$> stringResource (.slice [byteValue 2, textValue s]) 2 = _
      rw [htext]
      rfl
    · have hvalue : resourceValue ⟨.string, .str s l, order⟩ =
          .slice [byteValue 2, textValue s, byteValue l.toU8] := if_neg hl
      rw [hvalue, htext]
      show some <$> (langJson (byteValue l.toU8) >>= fun lang =>
        pure (resource .string (.str s) ++ [("lang", lang)])) = _
      rw [langJson_byteValue hl, goMembers, if_neg (not_or.mpr ⟨hl, hs⟩)]
      rfl

/-- **The values of a predicate.** -/
theorem resourcesOf_resourceValues {rs : List Resource} (h : ∀ r ∈ rs, Comparable r) :
    resourcesOf (rs.map resourceValue) =
      if ∃ r ∈ rs, r.value = .uri "" then .error .panic
      else .ok (rs.map fun r => .obj (goMembers r.value)) := by
  induction rs with
  | nil => rfl
  | cons r rs ih =>
    rw [List.map_cons, resourcesOf, resourceOf_resourceValue (h r List.mem_cons_self),
      ih fun r' hr' => h r' (List.mem_cons_of_mem _ hr')]
    by_cases hr : r.value = .uri ""
    · have hex : ∃ r' ∈ r :: rs, r'.value = .uri "" := ⟨r, List.mem_cons_self, hr⟩
      rw [if_pos hr, if_pos hex]
      rfl
    · have hiff : (∃ r' ∈ r :: rs, r'.value = .uri "") ↔ ∃ r' ∈ rs, r'.value = .uri "" := by
        simp [hr]
      rw [if_neg hr]
      by_cases hrs : ∃ r' ∈ rs, r'.value = .uri ""
      · rw [if_pos hrs, if_pos (hiff.mpr hrs)]
        rfl
      · rw [if_neg hrs, if_neg (hiff.not.mpr hrs)]
        rfl

/-- The array of a predicate. -/
def goArray (rs : List Resource) : Json := .arr (rs.map fun r => .obj (goMembers r.value))

/-- The member of a predicate. -/
def goMember (e : String × List Resource) : String × Json := (e.1, goArray e.2)

/-- **The predicates**, in any order. -/
theorem convert_entries {es : List (String × List Resource)}
    (h : ∀ e ∈ es, ∀ r ∈ e.2, Comparable r) (members : List (String × Json)) :
    convert (es.map entryValue) members =
      if ∃ e ∈ es, ∃ r ∈ e.2, r.value = .uri "" then .error .panic
      else .ok ((es.map goMember).foldl Json.setMember members) := by
  induction es generalizing members with
  | nil => rfl
  | cons e es ih =>
    have hstep : convert ((e :: es).map entryValue) members =
        resourcesOf (e.2.map resourceValue) >>= fun resources =>
          convert (es.map entryValue) (Json.setMember members (e.1, .arr resources)) := rfl
    rw [hstep, resourcesOf_resourceValues (h e List.mem_cons_self)]
    by_cases he : ∃ r ∈ e.2, r.value = .uri ""
    · have hex : ∃ e' ∈ e :: es, ∃ r ∈ e'.2, r.value = .uri "" := ⟨e, List.mem_cons_self, he⟩
      rw [if_pos he, if_pos hex]
      rfl
    · have hiff : (∃ e' ∈ e :: es, ∃ r ∈ e'.2, r.value = .uri "") ↔
          ∃ e' ∈ es, ∃ r ∈ e'.2, r.value = .uri "" := by
        constructor
        · rintro ⟨e', hmem, hr⟩
          rcases List.mem_cons.mp hmem with rfl | hmem
          · exact absurd hr he
          · exact ⟨e', hmem, hr⟩
        · rintro ⟨e', hmem, hr⟩
          exact ⟨e', List.mem_cons_of_mem _ hmem, hr⟩
      rw [if_neg he]
      show convert (es.map entryValue) (Json.setMember members (goMember e)) = _
      rw [ih (fun e' he' => h e' (List.mem_cons_of_mem _ he')), List.map_cons, List.foldl_cons]
      simp only [hiff]

/-! ## The same JSON -/

/-- The data of two values: decimals have the same number. -/
def SameData (vtype go rust : Option Json) : Prop :=
  (vtype = some (.str "Decimal") → ∃ s t n, go = some (.str s) ∧ rust = some (.str t) ∧
    textNumber s.toList = some n ∧ textNumber t.toList = some n) ∧
  (vtype ≠ some (.str "Decimal") → go = rust)

/-- Two values have the same type, language and data. -/
structure SameMembers (go rust : List (String × Json)) : Prop where
  type : go.lookup "type" = rust.lookup "type"
  lang : go.lookup "lang" = rust.lookup "lang"
  data : SameData (go.lookup "type") (go.lookup "data") (rust.lookup "data")

def SameResource : Json → Json → Prop
  | .obj go, .obj rust => SameMembers go rust
  | _, _ => False

/-- The same list of values, or the same member of another kind. -/
def SameMember : Option Json → Option Json → Prop
  | some (.arr go), some (.arr rust) => List.Forall₂ SameResource go rust
  | go, rust => go = rust

/-- The same uri, predicates and values. -/
def SameIndividual (go rust : List (String × Json)) : Prop :=
  ∀ p, SameMember (go.lookup p) (rust.lookup p)

/-! ## Points in time -/

theorem formattedSeconds_eq {i : Int64} (h : -262144 ≤ yearOf i.toInt) :
    formattedSeconds i = i.toInt := by
  have hhigh := i.toInt_lt
  have hdays := epochDays_civilDate (i.toInt / 86400)
  unfold yearOf at h
  unfold epochDays daysBeforeYear at hdays
  unfold formattedSeconds unixToAbsolute
  omega

theorem yearString_eq {year : Int} (h : year ≤ 9999) : yearString year = yearText year := by
  unfold yearString yearText signText
  by_cases hneg : year < 0
  · rw [if_pos hneg, if_neg (by omega), if_pos hneg]
    rfl
  · rw [if_neg hneg, if_pos (by omega), List.nil_append, show year.natAbs = year.toNat by omega]

theorem yearString_ne {year : Int} (h : 9999 < year) (rest rest' : List Char) :
    yearString year ++ rest ≠ yearText year ++ rest' := by
  unfold yearString yearText signText
  rw [if_neg (by omega), if_neg (by omega), if_neg (by omega), List.nil_append, List.cons_append]
  intro heq
  have hlen := le_length_padded 4 year.natAbs
  obtain ⟨c, cs, hcs⟩ := List.exists_cons_of_length_pos (Nat.lt_of_lt_of_le (by decide) hlen)
  have hdigit := all_isDigit_padded 4 year.natAbs c (by rw [hcs]; exact List.mem_cons_self)
  rw [hcs, List.cons_append] at heq
  rw [(List.cons.inj heq).1] at hdigit
  exact absurd hdigit (by decide)

/-- **Points in time**: the two texts are the same when the year has at most four digits. -/
theorem timeString_eq_iff {i : Int64} (h : -262144 ≤ yearOf i.toInt) :
    timeString i = timeText i.toInt ↔ yearOf i.toInt ≤ 9999 := by
  unfold timeString timeText
  rw [formattedSeconds_eq h]
  constructor
  · intro heq
    by_contra hyear
    exact yearString_ne (Int.not_le.mp hyear) _ _ heq
  · intro hyear
    have htext : yearString (civilDate (i.toInt / 86400)).year =
        yearText (civilDate (i.toInt / 86400)).year := yearString_eq hyear
    dsimp only
    rw [htext]

/-! ## Which values are read alike -/

/-- The values of which the two readers make the same. -/
def ReadAlike : Value → Prop
  | .uri s => s ≠ ""
  | .str s l => s = "" → l = .none
  | .datetime i => -262144 ≤ yearOf i.toInt ∧ yearOf i.toInt ≤ 9999
  | .num m e => DecimalFits m e
  | _ => True

theorem sameData_iff {t : DataType} (ht : t ≠ .decimal) (go rust : Option Json) :
    SameData (some (.str (dataTypeToString t))) go rust ↔ go = rust := by
  have hname : dataTypeToString t ≠ "Decimal" := by
    cases t <;> first | exact absurd rfl ht | decide
  have hne : some (Json.str (dataTypeToString t)) ≠ some (.str "Decimal") :=
    fun h => hname (Json.str.inj (Option.some.inj h))
  exact ⟨fun h => h.2 hne, fun h => ⟨fun hd => absurd hd hne, fun _ => h⟩⟩

theorem sameData_decimal (s t : String) :
    SameData (some (.str "Decimal")) (some (.str s)) (some (.str t)) ↔
      ∃ n, textNumber s.toList = some n ∧ textNumber t.toList = some n := by
  constructor
  · intro h
    obtain ⟨s', t', n, hs, ht, hn, hn'⟩ := h.1 rfl
    cases hs
    cases ht
    exact ⟨n, hn, hn'⟩
  · rintro ⟨n, hn, hn'⟩
    exact ⟨fun _ => ⟨s, t, n, rfl, rfl, hn, hn'⟩, fun h => absurd rfl h⟩

theorem sameMembers_resource {t : DataType} (ht : t ≠ .decimal) {data : Json}
    {rust : List (String × Json)} (htype : rust.lookup "type" = some (.str (dataTypeToString t)))
    (hlang : rust.lookup "lang" = none) :
    SameMembers (resource t data) rust ↔ some data = rust.lookup "data" :=
  ⟨fun h => (sameData_iff ht _ _).mp h.data,
    fun h => ⟨htype.symm, hlang.symm, (sameData_iff ht _ _).mpr h⟩⟩

/-- **One value**: what the readers make of it is the same exactly when it is read alike. -/
theorem sameMembers_iff {r : Resource} (h : Comparable r)
    (hdates : ∀ i, r.value = .datetime i → Representable i) (huri : r.value ≠ .uri "") :
    SameMembers (goMembers r.value) (resourceMembers r) ↔ ReadAlike r.value := by
  obtain ⟨rtype, value, order⟩ := r
  obtain ⟨htyped, hvalue⟩ := h
  cases rtype <;> cases value <;> try exact htyped.elim
  case binary.binary => exact hvalue.elim
  case integer.int i =>
    exact iff_of_true ((sameMembers_resource (by decide) rfl rfl).mpr rfl) trivial
  case boolean.bool b =>
    exact iff_of_true ((sameMembers_resource (by decide) rfl rfl).mpr rfl) trivial
  case uri.uri s =>
    exact iff_of_true ((sameMembers_resource (by decide) rfl rfl).mpr rfl)
      fun hs => huri (congrArg Value.uri hs)
  case datetime.datetime i =>
    have hlow := (hdates i rfl).1
    refine (sameMembers_resource (by decide) rfl rfl).trans ?_
    refine Iff.trans ⟨fun hdata => ?_, fun htext => ?_⟩
      ((timeString_eq_iff hlow).trans ⟨fun hyear => ⟨hlow, hyear⟩, fun hyear => hyear.2⟩)
    · exact String.ofList_injective (Json.str.inj (Option.some.inj hdata))
    · show some (Json.str (String.ofList (timeString i))) = _
      rw [htext]
      rfl
  case decimal.num m e =>
    obtain ⟨hm, hscale⟩ := toNat_scale (m := m) hvalue.1 hvalue.2
    have hplace : (exponentToScale m e).2.toNat = pointPlace e := by
      unfold pointPlace
      omega
    have hrust : (resourceMembers ⟨.decimal, .num m e, order⟩).lookup "data" =
        some (.str (String.ofList (decimalText m.toInt (pointPlace e)))) := by
      rw [lookup_data, dataJson, hm, hplace]
    have hdata := sameData_decimal (String.ofList (decimalToString m e))
      (String.ofList (decimalText m.toInt (pointPlace e)))
    rw [String.toList_ofList, String.toList_ofList] at hdata
    have hmin : e ≠ Int64.minValue := fun h => absurd (h ▸ hvalue.1) (by decide)
    rw [ReadAlike, ← sameNumber_iff hmin hvalue.2, ← hdata, ← hrust]
    exact ⟨fun h => h.data, fun h => ⟨rfl, rfl, h⟩⟩
  case string.str s l =>
    by_cases hl : l = .none
    · subst hl
      refine iff_of_true ?_ fun _ => rfl
      rw [goMembers, if_pos (.inl rfl), List.append_nil]
      exact (sameMembers_resource (by decide) rfl rfl).mpr rfl
    have hlang : (resourceMembers ⟨.string, .str s l, order⟩).lookup "lang" =
        some (.str l.name) := by
      cases l <;> first | exact absurd rfl hl | rfl
    by_cases hs : s = ""
    · refine iff_of_false (fun h => ?_) fun h => hl (h hs)
      have hsame := h.lang
      rw [hlang, goMembers, if_pos (.inr hs)] at hsame
      cases hsame
    · refine iff_of_true ⟨?_, ?_, ?_⟩ fun h => absurd h hs
      all_goals rw [goMembers, if_neg (not_or.mpr ⟨hl, hs⟩)]
      · rw [lookup_type]
        rfl
      · exact hlang.symm
      · rw [lookup_data]
        exact (sameData_iff (t := .string) (by decide) _ _).mpr rfl

/-! ## Members by their names -/

theorem lookup_setMember (members : List (String × Json)) (m : String × Json) (p : String) :
    (Json.setMember members m).lookup p = if p = m.1 then some m.2 else members.lookup p := by
  unfold Json.setMember
  split_ifs with hmem hp hp
  · obtain ⟨name, value⟩ := m
    obtain rfl : p = name := hp
    induction members with
    | nil => cases hmem
    | cons m' members ih =>
      rw [List.map_cons, List.lookup_cons]
      by_cases hname : m'.1 = p
      · rw [if_pos hname, beq_self_eq_true]
      · rw [if_neg hname, beq_eq_false_iff_ne.mpr (Ne.symm hname)]
        rw [List.map_cons, List.mem_cons] at hmem
        exact ih (hmem.resolve_left (Ne.symm hname))
  · clear hmem
    induction members with
    | nil => rfl
    | cons m' members ih =>
      rw [List.map_cons, List.lookup_cons, List.lookup_cons, ih]
      by_cases hname : m'.1 = m.1
      · rw [if_pos hname, hname, beq_eq_false_iff_ne.mpr hp]
      · rw [if_neg hname]
  · have hnone : members.lookup p = none := List.lookup_eq_none_iff.mpr fun m' hm' =>
      bne_iff_ne.mpr fun heq => hmem (by
        rw [← hp, heq]
        exact List.mem_map_of_mem hm')
    rw [List.lookup_append, hnone, Option.none_or, hp]
    exact List.lookup_cons_self
  · rw [List.lookup_append, List.lookup_cons, beq_eq_false_iff_ne.mpr hp, List.lookup_nil,
      Option.or_none]

theorem lookup_foldl_setMember {l : List (String × Json)} (hnodup : (l.map Prod.fst).Nodup)
    (members : List (String × Json)) (p : String) :
    (l.foldl Json.setMember members).lookup p = (l.lookup p).or (members.lookup p) := by
  induction l generalizing members with
  | nil => rfl
  | cons m l ih =>
    rw [List.map_cons, List.nodup_cons] at hnodup
    rw [List.foldl_cons, ih hnodup.2, lookup_setMember, List.lookup_cons]
    by_cases hp : p = m.1
    · have hnone : l.lookup p = none := List.lookup_eq_none_iff.mpr fun m' hm' =>
        bne_iff_ne.mpr fun heq => hnodup.1 (by
          rw [← hp, heq]
          exact List.mem_map_of_mem hm')
      rw [if_pos hp, hnone, hp, beq_self_eq_true]
      rfl
    · rw [if_neg hp, beq_eq_false_iff_ne.mpr hp]

/-! ## The readers -/

/-- The individuals that are compared: their lengths fit into 32 bits, and their values have the
variants of their types, are not binary, and have the negation of a scale as exponent. -/
structure Written (obj : IndividualObj) : Prop where
  names : obj.NamesFit
  sizes : obj.SizesFit
  count : obj.resources.keys.length < 4294967296
  values : ∀ p rs, obj.resources.lookup p = some rs → ∀ r ∈ rs, Comparable r

/-- The services write the individual: every point in time can be represented. -/
def WritesJson (obj : IndividualObj) : Prop :=
  ∀ p rs, obj.resources.lookup p = some rs →
    ∀ r ∈ rs, ∀ i, r.value = .datetime i → Representable i

/-- **Agreement**: the stored individual is decoded, and in whatever order the predicates are visited
the web server makes an individual of them, whose JSON is the same as that of the services. -/
def ReadersAgree (π π' : IterOrder String) (obj : IndividualObj) : Prop :=
  ∃ entries,
    (decodeInterface 5).run (toMsgpack π obj) = .ok (.slice [.string obj.uri, .map entries]) [] ∧
    ∀ record, record.Perm entries → ∃ members,
      ttResordToMap obj.uri record = some (some members) ∧ WritesJson obj ∧
        SameIndividual members (obj.members π')

section Readers

variable {obj : IndividualObj} {es : List (String × List Resource)}

/-- The entries of an individual in some order. -/
structure EntriesOf (es : List (String × List Resource)) (obj : IndividualObj) : Prop where
  nodup : (es.map Prod.fst).Nodup
  mem : ∀ p rs, (p, rs) ∈ es ↔ obj.resources.lookup p = some rs

theorem entriesOf_perm {π : IterOrder String} (h : es.Perm (obj.resources.iter π)) :
    EntriesOf es obj where
  nodup := (h.map Prod.fst).nodup_iff.mpr (HashMap.nodup_fst_iter π obj.resources)
  mem _ _ := h.mem_iff.trans (HashMap.mem_iter π obj.resources _ _)

theorem EntriesOf.lookup_map (h : EntriesOf es obj) (f : List Resource → Json) (p : String) :
    (es.map fun e => (e.1, f e.2)).lookup p = (obj.resources.lookup p).map f := by
  cases hl : obj.resources.lookup p with
  | none =>
    refine List.lookup_eq_none_iff.mpr fun m hm => bne_iff_ne.mpr ?_
    obtain ⟨e, he, rfl⟩ := List.mem_map.mp hm
    rintro rfl
    rw [(h.mem e.1 e.2).mp he] at hl
    cases hl
  | some rs =>
    have hmem := (h.mem p rs).mpr hl
    obtain ⟨hnodup, -⟩ := h
    induction es with
    | nil => cases hmem
    | cons e es ih =>
      rw [List.map_cons, List.nodup_cons] at hnodup
      rw [List.map_cons, List.lookup_cons]
      rcases List.mem_cons.mp hmem with rfl | hmem
      · rw [beq_self_eq_true]
        rfl
      · have hne : p ≠ e.1 := by
          rintro rfl
          exact hnodup.1 (List.mem_map.mpr ⟨_, hmem, rfl⟩)
        rw [beq_eq_false_iff_ne.mpr hne]
        exact ih hmem hnodup.2

theorem EntriesOf.lookup_members (h : EntriesOf es obj) (f : List Resource → Json) (p : String) :
    ((es.map fun e => (e.1, f e.2)).foldl Json.setMember [("@", .str obj.uri)]).lookup p =
      ((obj.resources.lookup p).map f).or
        ([("@", Json.str obj.uri)].lookup p) := by
  rw [lookup_foldl_setMember, h.lookup_map]
  rw [List.map_map]
  exact h.nodup

theorem sameIndividual_iff (h : EntriesOf es obj) (π : IterOrder String) :
    SameIndividual ((es.map goMember).foldl Json.setMember [("@", .str obj.uri)])
        (obj.members π) ↔
      ∀ p rs, obj.resources.lookup p = some rs →
        ∀ r ∈ rs, SameMembers (goMembers r.value) (resourceMembers r) := by
  have hgo : ∀ p, ((es.map goMember).foldl Json.setMember [("@", .str obj.uri)]).lookup p = _ :=
    h.lookup_members goArray
  have hrust := (entriesOf_perm (List.Perm.refl (obj.resources.iter π))).lookup_members
    predicateJson
  rw [← predicateMembers, ← members_eq] at hrust
  refine forall_congr' fun p => ?_
  rw [hrust p, hgo p]
  cases obj.resources.lookup p with
  | none =>
    refine iff_of_true ?_ fun rs hrs => by cases hrs
    rw [Option.map_none, Option.map_none, Option.none_or, List.lookup_cons]
    cases p == "@" <;> rfl
  | some rs =>
    show List.Forall₂ SameResource (rs.map _) (rs.map _) ↔ _
    rw [List.forall₂_map_left_iff, List.forall₂_map_right_iff, List.forall₂_same]
    exact ⟨fun h rs' hrs' => Option.some.inj hrs' ▸ h, fun h => h rs rfl⟩

theorem ttResordToMap_entries (h : EntriesOf es obj) (hobj : Written obj) :
    ttResordToMap obj.uri (es.map entryValue) =
      if ∃ e ∈ es, ∃ r ∈ e.2, r.value = .uri "" then none
      else some (some ((es.map goMember).foldl Json.setMember [("@", .str obj.uri)])) := by
  rw [ttResordToMap, convert_entries fun e he r hr => hobj.values _ _ ((h.mem e.1 e.2).mp he) r hr]
  split_ifs <;> rfl

theorem decode_written (π : IterOrder String) (h : Written obj) :
    (decodeInterface 5).run (toMsgpack π obj) = .ok (tupleOf π obj) [] := by
  have hread := decode_toMsgpack π h.names h.sizes h.count
    (fun p rs hrs r hr => (h.values p rs hrs r hr).ne_binary) []
  rwa [List.append_nil] at hread

theorem readAlike_of_agree {π π' : IterOrder String} (h : Written obj)
    (hagree : ReadersAgree π π' obj) {p : String} {rs : List Resource}
    (hrs : obj.resources.lookup p = some rs) {r : Resource} (hr : r ∈ rs) : ReadAlike r.value := by
  obtain ⟨entries, hrun, hall⟩ := hagree
  rw [decode_written π h] at hrun
  cases hrun
  obtain ⟨members, hmap, hwrites, hsame⟩ := hall _ (List.Perm.refl _)
  have hentries := entriesOf_perm (List.Perm.refl (obj.resources.iter π))
  rw [recordOf, ttResordToMap_entries hentries h] at hmap
  by_cases huri : ∃ e ∈ obj.resources.iter π, ∃ r ∈ e.2, r.value = .uri ""
  · rw [if_pos huri] at hmap
    cases hmap
  rw [if_neg huri] at hmap
  cases hmap
  refine (sameMembers_iff (h.values p rs hrs r hr) (hwrites p rs hrs r hr) fun heq => ?_).mp
    ((sameIndividual_iff hentries π').mp hsame p rs hrs r hr)
  exact huri ⟨(p, rs), (hentries.mem p rs).mpr hrs, r, hr, heq⟩

/-- **The two readers agree** on an individual exactly when they read each of its values alike. -/
theorem readersAgree_iff (π π' : IterOrder String) (h : Written obj) :
    ReadersAgree π π' obj ↔
      ∀ p rs, obj.resources.lookup p = some rs → ∀ r ∈ rs, ReadAlike r.value := by
  refine ⟨fun hagree p rs hrs r hr => readAlike_of_agree h hagree hrs hr, fun halike => ?_⟩
  refine ⟨recordOf π obj, decode_written π h, fun record hperm => ?_⟩
  have hcomp : Relation.Comp (fun (l : List (GoValue × GoValue)) es => l = es.map entryValue)
      List.Perm record (obj.resources.iter π) := by
    rw [List.eq_map_comp_perm]
    exact hperm
  obtain ⟨es, rfl, hes⟩ := hcomp
  have hentries := entriesOf_perm hes
  have huri : ∀ p rs, obj.resources.lookup p = some rs → ∀ r ∈ rs, r.value ≠ .uri "" := by
    intro p rs hrs r hr heq
    have hvalue := halike p rs hrs r hr
    rw [heq] at hvalue
    exact hvalue rfl
  have hwrites : WritesJson obj := by
    intro p rs hrs r hr i heq
    have hvalue := halike p rs hrs r hr
    rw [heq] at hvalue
    exact ⟨hvalue.1, hvalue.2.trans (by decide)⟩
  refine ⟨_, ?_, hwrites, (sameIndividual_iff hentries π').mpr fun p rs hrs r hr => ?_⟩
  · rw [ttResordToMap_entries hentries h, if_neg]
    rintro ⟨e, he, r, hr, heq⟩
    exact huri _ _ ((hentries.mem e.1 e.2).mp he) r hr heq
  · exact (sameMembers_iff (h.values p rs hrs r hr) (hwrites p rs hrs r hr)
      (huri p rs hrs r hr)).mpr (halike p rs hrs r hr)

end Readers

theorem written_price (m e : Int64) (he : -28 ≤ e.toInt ∧ e.toInt ≤ 0) :
    Written (oneValue "v-s:price" .decimal (.num m e)) where
  names p rs hrs := by
    obtain ⟨rfl, -⟩ := HashMap.lookup_insert_empty.mp hrs
    decide
  sizes := by
    refine ⟨(by decide : (utf8 "d:1").length < 4294967296), fun p rs hrs => ?_,
      fun hzero => absurd hzero (by decide : ¬ 1 % 4294967296 = 0)⟩
    rw [lookup_oneValue hrs]
    refine ⟨(by decide : 1 < 4294967296), fun r hr => ?_⟩
    rw [List.mem_singleton.mp hr]
    trivial
  count := (by decide : 1 < 4294967296)
  values p rs hrs r hr := by
    rw [lookup_oneValue hrs, List.mem_singleton] at hr
    rw [hr]
    exact ⟨trivial, he⟩

/-- The readers agree on a price of 2.50. -/
theorem readersAgree_price :
    ReadersAgree (.stored String) (.stored String)
      (oneValue "v-s:price" .decimal (.num 250 (-2))) := by
  refine (readersAgree_iff _ _ (written_price 250 (-2) (by decide))).mpr fun p rs hrs r hr => ?_
  rw [lookup_oneValue hrs, List.mem_singleton] at hr
  rw [hr]
  exact (by decide : DecimalFits 250 (-2))

/-- They do not agree on a price of 0.12, of which the web server makes 0.012. -/
theorem not_readersAgree_price :
    Written (oneValue "v-s:price" .decimal (.num 12 (-2))) ∧
      ¬ ReadersAgree (.stored String) (.stored String)
        (oneValue "v-s:price" .decimal (.num 12 (-2))) := by
  have hwritten := written_price 12 (-2) (by decide)
  refine ⟨hwritten, fun hagree => ?_⟩
  have hlookup : (oneValue "v-s:price" .decimal (.num 12 (-2))).resources.lookup "v-s:price" =
      some [⟨.decimal, .num 12 (-2), 0⟩] := HashMap.lookup_insert_empty.mpr ⟨rfl, rfl⟩
  have hfits := readAlike_of_agree hwritten hagree hlookup (List.mem_singleton_self _)
  exact absurd hfits (by decide : ¬ DecimalFits 12 (-2))

end Veda.GoWebserver
