import Mathlib.Algebra.Order.Ring.Int
import QuantStrategies.Lib.Python

/-!
# Python's datetimes

Instants are microseconds since the epoch. A `datetime` in UTC is an instant of the
years 1 to 9999, and arithmetic that leads out of them raises `OverflowError`.

Durations are microseconds, too. A `timedelta` has less than a thousand million days,
and is written out as days and a clock.

Both bounds are inclusive: the last instant is a microsecond before the year 10000. What
lies between two instants that a `datetime` can hold is one as well
(`Representable.of_between`), so a computation that stays between its operands does not
raise; one that steps past them may.
-/

namespace Datetime

/-- `datetime.min` and `datetime.max`, in UTC. -/
def minInstant : ℤ := -62135596800000000

@[inherit_doc minInstant]
def maxInstant : ℤ := 253402300799999999

/-- An instant of the years that there are. -/
def Representable (t : ℤ) : Prop := minInstant ≤ t ∧ t ≤ maxInstant

instance (t : ℤ) : Decidable (Representable t) := inferInstanceAs (Decidable (_ ∧ _))

/-- What is between two instants of the calendar is in the calendar, so nothing that only
interpolates can raise. -/
theorem Representable.of_between {s t u : ℤ} (hs : Representable s) (hu : Representable u)
    (hst : s ≤ t) (htu : t ≤ u) : Representable t :=
  ⟨hs.1.trans hst, htu.trans hu.2⟩

/-- `t + d`, where it does not raise. -/
def plus (t d : ℤ) : Option ℤ := if Representable (t + d) then some (t + d) else none

/-- A `datetime`. Without a zone, it is what a clock shows. -/
inductive Timestamp where
  | naive (wall : ℤ)
  | aware (instant : ℤ)
deriving DecidableEq

end Datetime

/-- A `timedelta`. -/
structure Timedelta where
  /-- The duration in microseconds, negative ones included. -/
  micros : ℤ
  /-- Python normalises a duration to days and a remainder that is not negative, and refuses
  fewer days than this. -/
  ge_min : -999999999 * 86400000000 ≤ micros
  /-- It refuses more days than this as well, whatever the remainder is. -/
  lt_max : micros < 1000000000 * 86400000000
deriving DecidableEq

namespace Timedelta

/-- `timedelta(days=…, hours=…, minutes=…, seconds=…, microseconds=…)`, where it does not
raise. -/
def ofParts (days hours minutes seconds microseconds : ℤ) : Option Timedelta :=
  let micros := (((days * 24 + hours) * 60 + minutes) * 60 + seconds) * 1000000 + microseconds
  if h : -999999999 * 86400000000 ≤ micros ∧ micros < 1000000000 * 86400000000 then
    some ⟨micros, h.1, h.2⟩
  else none

/-- `d.days`, `d.seconds` and `d.microseconds`. -/
def days (d : Timedelta) : ℤ := d.micros / 86400000000

@[inherit_doc days]
def seconds (d : Timedelta) : ℕ := (d.micros / 1000000 % 86400).toNat

@[inherit_doc days]
def microseconds (d : Timedelta) : ℕ := (d.micros % 1000000).toNat

/-- What `str(d)` writes of the days. -/
def daysText (d : Timedelta) : List Char :=
  if d.days = 0 then []
  else Python.decimal d.days ++ [' ', 'd', 'a', 'y'] ++ (if d.days.natAbs ≠ 1 then ['s'] else []) ++
    [',', ' ']

/-- What it writes of the time of day. -/
def clockText (d : Timedelta) : List Char :=
  Python.decimal (d.seconds / 3600 : ℕ) ++ ':' :: (Python.padded 2 (d.seconds / 60 % 60) ++
    ':' :: Python.padded 2 (d.seconds % 60))

/-- What it writes of the rest of a second. -/
def microsText (d : Timedelta) : List Char :=
  if d.microseconds = 0 then [] else '.' :: Python.padded 6 d.microseconds

/-- `str(d)`. -/
def str (d : Timedelta) : String := .ofList (d.daysText ++ (d.clockText ++ d.microsText))

/-- The seconds of a normalised duration are those of one day. -/
theorem seconds_lt (d : Timedelta) : d.seconds < 86400 := by
  unfold seconds
  omega

/-- The microseconds of a normalised duration are those of one second. -/
theorem microseconds_lt (d : Timedelta) : d.microseconds < 1000000 := by
  unfold microseconds
  omega

/-- The time of day and the rest of a second are written in figures, colons and points. -/
theorem mem_clock {d : Timedelta} {c : Char} (h : c ∈ d.clockText ++ d.microsText) :
    c.isDigit = true ∨ c = ':' ∨ c = '.' := by
  simp only [clockText, Python.decimal_natCast, List.mem_append, List.mem_cons] at h
  obtain (h | h | h | h | h) | h := h
  · exact .inl (Python.isDigit_of_mem_toDigits h)
  · exact .inr (.inl h)
  · exact .inl (Python.isDigit_of_mem_padded h)
  · exact .inr (.inl h)
  · exact .inl (Python.isDigit_of_mem_padded h)
  · unfold microsText at h
    split at h
    · exact absurd h List.not_mem_nil
    · obtain h | h := List.mem_cons.mp h
      · exact .inr (.inr h)
      · exact .inl (Python.isDigit_of_mem_padded h)

/-- A duration is made of its parts. -/
theorem ofParts_parts (d : Timedelta) :
    ofParts d.days (d.seconds / 3600 : ℕ) (d.seconds / 60 % 60 : ℕ) (d.seconds % 60 : ℕ)
      d.microseconds = some d := by
  have hmicros : ((((d.days * 24 + (d.seconds / 3600 : ℕ)) * 60 + (d.seconds / 60 % 60 : ℕ)) * 60 +
      (d.seconds % 60 : ℕ)) * 1000000 + d.microseconds : ℤ) = d.micros := by
    simp only [days, seconds, microseconds]
    omega
  have hrange := And.intro d.ge_min d.lt_max
  simp only [ofParts, hmicros, dif_pos hrange]

end Timedelta
