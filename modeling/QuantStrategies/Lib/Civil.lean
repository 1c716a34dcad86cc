import Mathlib.Algebra.Order.Ring.Int
import Mathlib.Data.Int.Order.Basic
import Mathlib.Tactic.IntervalCases

/-!
# Dates and times of day

Seconds since the epoch, as the text `%Y-%m-%d %H:%M:%S` that they are written as. A
year is counted from March, so that its leap day is its last, and its months have 153 days
in every five.

A text is read strictly: as the time that is written as it. A time whose year has four
digits is read back.

A day is found in two steps, the year and then the month, each of them a division that is
off by one at the end of a cycle and is put right there (`splitYear_spec`,
`splitMonth_spec`). Everything is a matter of integers, so that instants before the epoch
are dates as well.
-/

namespace Civil

/-! ## Days and dates -/

/-- The days from March of the year 0 to March of a year. -/
def yearStart (year : ℤ) : ℤ := 365 * year + year / 4 - year / 100 + year / 400

/-- The years since March of the year 0, in cycles of 400, 100 and 4 years and single ones,
and the days that are left. -/
def splitYear (days : ℤ) : ℤ × ℤ :=
  let ofEra := days % 146097
  let century := min 3 (ofEra / 36524)
  let ofCentury := ofEra - 36524 * century
  let ofLeap := ofCentury % 1461
  let single := min 3 (ofLeap / 365)
  (400 * (days / 146097) + 100 * century + 4 * (ofCentury / 1461) + single, ofLeap - 365 * single)

/-- The days before a year, counted in cycles of four hundred, a hundred, four and one. The leap
days that a century leaves out are those by which its cycle is shorter than twenty-five of four
years. -/
theorem yearStart_cycles {era century leap single : ℤ} (hc0 : 0 ≤ century) (hc : century ≤ 3)
    (hl0 : 0 ≤ leap) (hl : leap ≤ 24) (hs0 : 0 ≤ single) (hs : single ≤ 3) :
    yearStart (400 * era + 100 * century + 4 * leap + single) =
      146097 * era + 36524 * century + 1461 * leap + 365 * single := by
  simp only [yearStart]
  omega

/-- **A day lies in one year**: the year that is found starts no later, and the day is one of the
366 that it may have. -/
theorem splitYear_spec (days : ℤ) :
    yearStart (splitYear days).1 + (splitYear days).2 = days ∧
      0 ≤ (splitYear days).2 ∧ (splitYear days).2 ≤ 365 := by
  simp only [splitYear]
  rw [yearStart_cycles (by omega) (by omega) (by omega) (by omega) (by omega) (by omega)]
  omega

/-- The days from the start of a year to the start of a month of it, March being 0. -/
def monthStart (month : ℤ) : ℤ := (153 * month + 2) / 5

/-- The month of a day of the year, and the day of the month. -/
def splitMonth (ofYear : ℤ) : ℤ × ℤ :=
  let month := (5 * ofYear + 2) / 153
  (month, ofYear - monthStart month + 1)

/-- **A day of a year lies in one month**, counted from March, and is one of at most 31 days
there. -/
theorem splitMonth_spec {ofYear : ℤ} (h0 : 0 ≤ ofYear) (h365 : ofYear ≤ 365) :
    monthStart (splitMonth ofYear).1 + (splitMonth ofYear).2 - 1 = ofYear ∧
      0 ≤ (splitMonth ofYear).1 ∧ (splitMonth ofYear).1 ≤ 11 ∧
      1 ≤ (splitMonth ofYear).2 ∧ (splitMonth ofYear).2 ≤ 31 := by
  simp only [splitMonth, monthStart]
  omega

/-- A day of the Gregorian calendar. -/
structure Date where
  /-- As it is written, with January its first month. -/
  year : ℤ
  /-- From one to twelve. -/
  month : ℤ
  /-- From one to the length of the month. -/
  day : ℤ

namespace Date

/-- The date that is so many days after 1970-01-01. -/
def ofDays (days : ℤ) : Date :=
  let year := splitYear (days + 719468)
  let month := splitMonth year.2
  if month.1 < 10 then ⟨year.1, month.1 + 3, month.2⟩ else ⟨year.1 + 1, month.1 - 9, month.2⟩

/-- The days from 1970-01-01 to a date. -/
def toDays (d : Date) : ℤ :=
  if 2 < d.month then yearStart d.year + monthStart (d.month - 3) + d.day - 719469
  else yearStart (d.year - 1) + monthStart (d.month + 9) + d.day - 719469

/-- **A day is the day of its date**, which has a month of the year and a day of the
month. -/
theorem ofDays_spec (days : ℤ) :
    (ofDays days).toDays = days ∧ 1 ≤ (ofDays days).month ∧ (ofDays days).month ≤ 12 ∧
      1 ≤ (ofDays days).day ∧ (ofDays days).day ≤ 31 := by
  obtain ⟨hyear, h0, h365⟩ := splitYear_spec (days + 719468)
  obtain ⟨hmonth, hm0, hm11, hd1, hd31⟩ := splitMonth_spec h0 h365
  simp only [ofDays]
  split
  · simp only [toDays]
    rw [if_pos (by omega), add_sub_cancel_right]
    omega
  · simp only [toDays]
    rw [if_neg (by omega), add_sub_cancel_right, sub_add_cancel]
    omega

/-- The years of four digits. -/
theorem year_ofDays {days : ℤ} (hlo : -719468 ≤ days) (hhi : days < 2932532) :
    0 ≤ (ofDays days).year ∧ (ofDays days).year ≤ 9999 := by
  have hyear : 0 ≤ (splitYear (days + 719468)).1 ∧ (splitYear (days + 719468)).1 ≤ 9998 := by
    simp only [splitYear]
    omega
  simp only [ofDays]
  split <;> dsimp only <;> omega

end Date

/-! ## Times as texts -/

/-- The figure of a number below ten. -/
def figure (n : ℤ) : Char := Char.ofNat (48 + n.toNat)

/-- The number of a figure. -/
def value (c : Char) : ℤ := c.toNat - 48

/-- A figure that is written is read as the number it was written for. -/
theorem value_figure {n : ℤ} (h0 : 0 ≤ n) (h9 : n ≤ 9) : value (figure n) = n := by
  interval_cases n <;> rfl

/-- A number of two figures. -/
def two (n : ℤ) : List Char := [figure (n / 10), figure (n % 10)]

/-- `t.strftime("%Y-%m-%d %H:%M:%S")`, of a time whose year has four figures. -/
def strftime (t : ℤ) : String :=
  let date := Date.ofDays (t / 86400)
  let ofDay := t % 86400
  String.ofList (two (date.year / 100) ++ two (date.year % 100) ++ '-' :: two date.month ++
    '-' :: two date.day ++ ' ' :: two (ofDay / 3600) ++ ':' :: two (ofDay / 60 % 60) ++
    ':' :: two (ofDay % 60))

/-- The text has nineteen characters, whatever the time is. -/
@[simp] theorem length_strftime (t : ℤ) : (strftime t).toList.length = 19 := by
  simp [strftime, two]

/-- `t.date().isoformat()`. -/
def isoDate (t : ℤ) : String := String.ofList ((strftime t).toList.take 10)

/-- The number that two figures are. -/
def number (tens ones : Char) : ℤ := 10 * value tens + value ones

/-- Two figures are read as the number whose tens and ones they are. -/
theorem number_two {n : ℤ} (h0 : 0 ≤ n) (h99 : n ≤ 99) :
    number (figure (n / 10)) (figure (n % 10)) = n := by
  rw [number, value_figure (by omega) (by omega), value_figure (by omega) (by omega)]
  omega

/-- The time that is at the places of a text. -/
def readPlaces : List Char → Option ℤ
  | [y₁, y₂, y₃, y₄, _, m₁, m₂, _, d₁, d₂, _, h₁, h₂, _, n₁, n₂, _, s₁, s₂] =>
    let date : Date := ⟨100 * number y₁ y₂ + number y₃ y₄, number m₁ m₂, number d₁ d₂⟩
    some (86400 * date.toDays + 3600 * number h₁ h₂ + 60 * number n₁ n₂ + number s₁ s₂)
  | _ => none

/-- `datetime.strptime(s, "%Y-%m-%d %H:%M:%S")`: nothing but a time as it is written. -/
def strptime (s : String) : Option ℤ := (readPlaces s.toList).filter fun t => strftime t = s

/-- **A time of a year of four figures is read back.** -/
theorem strptime_strftime {t : ℤ} (hlo : -719468 * 86400 ≤ t) (hhi : t < 2932532 * 86400) :
    strptime (strftime t) = some t := by
  obtain ⟨hdays, hm1, hm12, hd1, hd31⟩ := Date.ofDays_spec (t / 86400)
  obtain ⟨hy0, hy⟩ := @Date.year_ofDays (t / 86400) (by omega) (by omega)
  have hplaces : readPlaces (strftime t).toList = some t := by
    simp only [strftime, two, String.toList_ofList, List.cons_append, List.nil_append, readPlaces]
    rw [number_two (by omega) (by omega), number_two (by omega) (by omega),
      number_two (by omega) (by omega), number_two (by omega) (by omega),
      number_two (by omega) (by omega), number_two (by omega) (by omega),
      number_two (by omega) (by omega)]
    have hdate : (⟨100 * ((Date.ofDays (t / 86400)).year / 100) +
        (Date.ofDays (t / 86400)).year % 100, (Date.ofDays (t / 86400)).month,
        (Date.ofDays (t / 86400)).day⟩ : Date) = Date.ofDays (t / 86400) := by
      rw [Int.mul_ediv_add_emod]
    rw [hdate, hdays]
    refine congrArg some ?_
    omega
  rw [strptime, hplaces, Option.filter_some, if_pos (decide_eq_true rfl)]

end Civil
