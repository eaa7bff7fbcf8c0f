import Mathlib.Algebra.Order.Ring.Int
import Veda.Lib.Decimal

set_option autoImplicit false

/-!
# Dates and times as texts

A point in time is a number of seconds. Its text has the date of the Gregorian calendar, extended
to all years, and the time of the day, followed by the letter `Z`. A year with four digits is
written as it is; any other year gets a sign. The reader takes years with four digits only.

## Main definitions

* `Lib.CivilDate`, `Lib.civilDate`, `Lib.epochDays` — a date and its number.
* `Lib.timeText` — the text of a point in time.
* `Lib.parseRfc3339` — the reader.

## Main results

* `Lib.epochDays_civilDate`, `Lib.valid_civilDate` — the date of a number.
* `Lib.parseRfc3339_timeText` — which texts are read back.
* `Lib.parseRfc3339_bounds` — where the points in time lie that are read.
-/

namespace Veda.Lib

/-! ## Dates -/

structure CivilDate where
  year : Int
  month : ℕ
  day : ℕ
  deriving DecidableEq, Repr

def isLeap (year : Int) : Bool := year % 4 = 0 && (year % 100 ≠ 0 || year % 400 = 0)

def monthLengths (leap : Bool) : List ℕ :=
  [31, if leap then 29 else 28, 31, 30, 31, 30, 31, 31, 30, 31, 30, 31]

/-- The day is a day of the month. -/
def CivilDate.Valid (date : CivilDate) : Prop :=
  1 ≤ date.month ∧ date.month ≤ 12 ∧ 1 ≤ date.day ∧
    date.day ≤ (monthLengths (isLeap date.year)).getD (date.month - 1) 0

instance (date : CivilDate) : Decidable date.Valid :=
  inferInstanceAs (Decidable (_ ∧ _ ∧ _ ∧ _))

/-- The number of the days from the beginning of the year 1 to the beginning of a year. -/
def daysBeforeYear (year : Int) : Int :=
  365 * (year - 1) + (year - 1) / 4 - (year - 1) / 100 + (year - 1) / 400

/-- The number of the days of a year before one of its months. -/
def daysBeforeMonth (leap : Bool) (month : ℕ) : ℕ := ((monthLengths leap).take (month - 1)).sum

/-- The number of the days from 1970-01-01 to a date. -/
def epochDays (date : CivilDate) : Int :=
  daysBeforeYear date.year + daysBeforeMonth (isLeap date.year) date.month + date.day - 1 - 719162

/-- The month and the day in it of a day of the year. -/
def monthDay : List ℕ → ℕ → ℕ × ℕ
  | [], n => (1, n + 1)
  | len :: lens, n =>
    if n < len then (1, n + 1) else ((monthDay lens (n - len)).1 + 1, (monthDay lens (n - len)).2)

/-- A year and the day of the year, as the distance from the beginning of the year 1. -/
structure YearDay where
  cycle : Int
  century : Int
  quad : Int
  year : Int
  day : Int

/-- Days are counted in cycles of 400 years, centuries, four years and years. -/
def yearDay (n : Int) : YearDay :=
  let century := min (n % 146097 / 36524) 3
  let ofCentury := n % 146097 - 36524 * century
  let year := min (ofCentury % 1461 / 365) 3
  ⟨n / 146097, century, ofCentury / 1461, year, ofCentury % 1461 - 365 * year⟩

/-- The number of the years from the year 1. -/
def YearDay.years (y : YearDay) : Int := 400 * y.cycle + 100 * y.century + 4 * y.quad + y.year

/-- The date that is a number of days after 1970-01-01. -/
def civilDate (days : Int) : CivilDate :=
  let y := yearDay (days + 719162)
  let md := monthDay (monthLengths (isLeap (y.years + 1))) y.day.toNat
  ⟨y.years + 1, md.1, md.2⟩

/-- The parts of a number of days. -/
structure YearDay.Fits (y : YearDay) : Prop where
  century : 0 ≤ y.century ∧ y.century ≤ 3
  quad : 0 ≤ y.quad ∧ y.quad ≤ 24
  year : 0 ≤ y.year ∧ y.year ≤ 3
  day : 0 ≤ y.day ∧ (y.day ≤ 364 ∨ y.day = 365 ∧ y.year = 3 ∧ (y.quad = 24 → y.century = 3))

theorem fits_yearDay (n : Int) : (yearDay n).Fits := by
  constructor <;> dsimp only [yearDay] <;> omega

theorem days_yearDay (n : Int) :
    146097 * (yearDay n).cycle + 36524 * (yearDay n).century + 1461 * (yearDay n).quad +
      365 * (yearDay n).year + (yearDay n).day = n := by
  dsimp only [yearDay]
  omega

theorem YearDay.Fits.isLeap {y : YearDay} (h : y.Fits) (hday : y.day = 365) :
    isLeap (y.years + 1) = true := by
  have hyear : y.year = 3 ∧ (y.quad = 24 → y.century = 3) := by
    have := h.day
    omega
  obtain ⟨hc, hq, -, -⟩ := h
  rw [Lib.isLeap, Bool.and_eq_true, Bool.or_eq_true, decide_eq_true_eq, decide_eq_true_eq,
    decide_eq_true_eq, years]
  omega

theorem daysBeforeYear_years {y : YearDay} (h : y.Fits) :
    daysBeforeYear (y.years + 1) =
      146097 * y.cycle + 36524 * y.century + 1461 * y.quad + 365 * y.year := by
  obtain ⟨hc, hq, hy, -⟩ := h
  rw [daysBeforeYear, YearDay.years]
  omega

theorem monthDay_spec : ∀ leap : Bool, ∀ n < if leap then 366 else 365,
    let md := monthDay (monthLengths leap) n
    1 ≤ md.1 ∧ md.1 ≤ 12 ∧ 1 ≤ md.2 ∧ md.2 ≤ (monthLengths leap).getD (md.1 - 1) 0 ∧
      daysBeforeMonth leap md.1 + md.2 = n + 1 := by
  decide +kernel

theorem YearDay.Fits.day_lt {y : YearDay} (h : y.Fits) :
    y.day.toNat < if Lib.isLeap (y.years + 1) then 366 else 365 := by
  by_cases hday : y.day = 365
  · rw [h.isLeap hday, hday]
    decide
  · have := h.day
    split_ifs <;> omega

theorem epochDays_civilDate (days : Int) : epochDays (civilDate days) = days := by
  have hfits := fits_yearDay (days + 719162)
  have hdays := days_yearDay (days + 719162)
  have hmonth := (monthDay_spec _ _ hfits.day_lt).2.2.2.2
  have hyear := daysBeforeYear_years hfits
  have hday := hfits.day.1
  rw [epochDays]
  dsimp only [civilDate]
  rw [hyear]
  omega

theorem valid_civilDate (days : Int) : (civilDate days).Valid := by
  have h := monthDay_spec _ _ (fits_yearDay (days + 719162)).day_lt
  exact ⟨h.1, h.2.1, h.2.2.1, h.2.2.2.1⟩

/-! ## Texts -/

/-- The year of a text: four digits, or a sign and more. -/
def yearText (year : Int) : List Char :=
  if 0 ≤ year ∧ year ≤ 9999 then padded 4 year.toNat
  else (if year < 0 then '-' else '+') :: padded 4 year.natAbs

/-- The second of the day. -/
def daySecond (t : Int) : ℕ := (t % 86400).toNat

/-- The year of a point in time. -/
def yearOf (t : Int) : Int := (civilDate (t / 86400)).year

/-- The text of a point in time. -/
def timeText (t : Int) : List Char :=
  let date := civilDate (t / 86400)
  yearText date.year ++ '-' :: (padded 2 date.month ++ '-' :: (padded 2 date.day ++
    'T' :: (padded 2 (daySecond t / 3600) ++ ':' :: (padded 2 (daySecond t / 60 % 60) ++
      ':' :: (padded 2 (daySecond t % 60) ++ ['Z'])))))

/-- Take a number with a given number of digits. -/
def takeNumber (width : ℕ) (cs : List Char) : Option (ℕ × List Char) :=
  if (cs.take width).length = width ∧ (cs.take width).all Char.isDigit then
    some (Nat.ofDigitChars 10 (cs.take width) 0, cs.drop width)
  else none

/-- Take one of some characters. -/
def takeChar (p : Char → Bool) : List Char → Option (List Char)
  | c :: cs => if p c then some cs else none
  | [] => none

/-- Skip a fraction of a second; it has a digit. -/
def takeFraction : List Char → Option (List Char)
  | '.' :: c :: cs => if c.isDigit then some (cs.dropWhile Char.isDigit) else none
  | ['.'] => none
  | cs => some cs

/-- `DateTime::parse_from_rfc3339` and `timestamp`, for a text with the letter `Z`; such a text has no
other offset. A leap second counts as the one before it. -/
def parseRfc3339 (cs : List Char) : Option Int := do
  let (year, cs) ← takeNumber 4 cs
  let cs ← takeChar (· = '-') cs
  let (month, cs) ← takeNumber 2 cs
  let cs ← takeChar (· = '-') cs
  let (day, cs) ← takeNumber 2 cs
  let cs ← takeChar (fun c => c = 'T' || c = 't') cs
  let (hour, cs) ← takeNumber 2 cs
  let cs ← takeChar (· = ':') cs
  let (minute, cs) ← takeNumber 2 cs
  let cs ← takeChar (· = ':') cs
  let (second, cs) ← takeNumber 2 cs
  let cs ← takeFraction cs
  let cs ← takeChar (fun c => c = 'Z' || c = 'z') cs
  let date : CivilDate := ⟨year, month, day⟩
  if cs = [] ∧ date.Valid ∧ hour ≤ 23 ∧ minute ≤ 59 ∧ second ≤ 60 then
    some (epochDays date * 86400 + hour * 3600 + minute * 60 + min second 59)
  else none

theorem takeNumber_padded {width n : ℕ} (hwidth : 0 < width) (hn : n < 10 ^ width)
    (cs : List Char) : takeNumber width (padded width n ++ cs) = some (n, cs) := by
  have hlength := length_padded hwidth hn
  rw [takeNumber, List.take_left' hlength, List.drop_left' hlength, ofDigitChars_padded,
    if_pos ⟨hlength, List.all_eq_true.mpr (all_isDigit_padded width n)⟩]

theorem takeNumber_padded_bind {β : Type} {width n : ℕ} (hwidth : 0 < width)
    (hn : n < 10 ^ width) (cs : List Char) (f : ℕ × List Char → Option β) :
    (takeNumber width (padded width n ++ cs) >>= f) = f (n, cs) := by
  rw [takeNumber_padded hwidth hn, Option.bind_eq_bind, Option.bind_some]

theorem takeChar_bind {β : Type} {p : Char → Bool} {c : Char} (hc : p c = true) (cs : List Char)
    (f : List Char → Option β) : (takeChar p (c :: cs) >>= f) = f cs := by
  rw [takeChar, if_pos hc, Option.bind_eq_bind, Option.bind_some]

theorem takeNumber_sign {c : Char} (hc : c.isDigit = false) (width : ℕ) (cs : List Char) :
    takeNumber (width + 1) (c :: cs) = none := by
  rw [takeNumber, List.take_succ_cons, List.all_cons, hc, Bool.false_and]
  exact if_neg fun h => Bool.false_ne_true h.2

theorem mem_timeText (t : Int) : 'Z' ∈ timeText t := by
  simp [timeText]

/-- **Texts of points in time**: those with a year of four digits are read back, the others are
not. -/
theorem parseRfc3339_timeText (t : Int) :
    parseRfc3339 (timeText t) = if 0 ≤ yearOf t ∧ yearOf t ≤ 9999 then some t else none := by
  unfold parseRfc3339 timeText yearOf
  have hdate := epochDays_civilDate (t / 86400)
  have hvalid := valid_civilDate (t / 86400)
  obtain ⟨date, heq⟩ : ∃ date, civilDate (t / 86400) = date := ⟨_, rfl⟩
  rw [heq] at hdate hvalid ⊢
  dsimp only
  by_cases hyear : 0 ≤ date.year ∧ date.year ≤ 9999
  · rw [yearText, if_pos hyear, if_pos hyear]
    have hmonth : date.month < 10 ^ 2 := lt_of_le_of_lt hvalid.2.1 (by decide)
    have hday : date.day < 10 ^ 2 := by
      have hlengths : ∀ leap : Bool, ∀ m ≤ 12, (monthLengths leap).getD (m - 1) 0 < 10 ^ 2 := by
        decide
      exact lt_of_le_of_lt hvalid.2.2.2 (hlengths _ _ hvalid.2.1)
    have hyear' : date.year.toNat < 10 ^ 4 := by omega
    have hsecond : daySecond t < 86400 := by
      unfold daySecond
      omega
    have hcast : (date.year.toNat : Int) = date.year := Int.toNat_of_nonneg hyear.1
    have hparts : daySecond t / 3600 ≤ 23 ∧ daySecond t / 60 % 60 ≤ 59 ∧ daySecond t % 60 ≤ 60 := by
      omega
    have htwo : 0 < 2 := by decide
    rw [takeNumber_padded_bind (by decide) hyear', takeChar_bind rfl,
      takeNumber_padded_bind htwo hmonth, takeChar_bind rfl, takeNumber_padded_bind htwo hday,
      takeChar_bind rfl, takeNumber_padded_bind htwo (by omega), takeChar_bind rfl,
      takeNumber_padded_bind htwo (by omega), takeChar_bind rfl,
      takeNumber_padded_bind htwo (by omega)]
    have hfraction : ∀ f : List Char → Option Int, (takeFraction ['Z'] >>= f) = f ['Z'] := by
      intro f
      rw [show takeFraction ['Z'] = some ['Z'] by decide, Option.bind_eq_bind, Option.bind_some]
    dsimp only
    rw [hfraction, hcast, takeChar_bind rfl]
    rw [if_pos ⟨rfl, hvalid, hparts⟩, hdate]
    congr 1
    unfold daySecond at hsecond ⊢
    omega
  · rw [yearText, if_neg hyear, if_neg hyear, List.cons_append, takeNumber_sign]
    · rfl
    · split_ifs <;> rfl

theorem takeNumber_lt {width n : ℕ} {cs cs' : List Char} (h : takeNumber width cs = some (n, cs')) :
    n < 10 ^ width := by
  unfold takeNumber at h
  split_ifs at h with hc
  rw [← (Prod.mk.inj (Option.some.inj h)).1]
  exact (ofDigitChars_lt (List.all_eq_true.mp hc.2)).trans_eq (by rw [hc.1])

theorem epochDays_bounds {date : CivilDate} (hvalid : date.Valid) (hlow : 0 ≤ date.year)
    (hhigh : date.year ≤ 9999) : -719600 ≤ epochDays date ∧ epochDays date ≤ 2933000 := by
  have hlengths : ∀ leap : Bool, ∀ m ≤ 12, daysBeforeMonth leap m ≤ 366 ∧
      (monthLengths leap).getD (m - 1) 0 ≤ 31 := by
    decide
  obtain ⟨hbefore, hlength⟩ := hlengths (isLeap date.year) date.month hvalid.2.1
  obtain ⟨-, -, hday, hdays⟩ := hvalid
  unfold epochDays daysBeforeYear
  omega

/-- **A point in time that is read** lies in the years of four digits. -/
theorem parseRfc3339_bounds {cs : List Char} {t : Int} (h : parseRfc3339 cs = some t) :
    -1000000000000 ≤ t ∧ t ≤ 1000000000000 := by
  unfold parseRfc3339 at h
  simp only [Option.bind_eq_bind, Option.bind_eq_some_iff, Prod.exists] at h
  obtain ⟨year, cs₁, hyear, cs₂, -, month, cs₃, -, cs₄, -, day, cs₅, -, cs₆, -, hour, cs₇, -, cs₈, -,
    minute, cs₉, -, cs₁₀, -, second, cs₁₁, -, cs₁₂, -, cs₁₃, -, hend⟩ := h
  split_ifs at hend with hc
  obtain ⟨-, hvalid, hhour, hminute, hsecond⟩ := hc
  have hlt : year < 10 ^ 4 := takeNumber_lt hyear
  have hdays := epochDays_bounds hvalid (Int.natCast_nonneg year) (by dsimp only; omega)
  rw [← Option.some.inj hend]
  omega
end Veda.Lib
