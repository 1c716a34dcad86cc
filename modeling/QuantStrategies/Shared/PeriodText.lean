import QuantStrategies.Lib.Datetime
import QuantStrategies.Lib.Regex
import QuantStrategies.Shared.Intervals

/-!
# Periods as text

The database has periods as durations. The publisher writes what JSON has no form for as
`str` does, so that a period comes back from Redis as text. `parsePeriod` takes both, and
what it makes of the text of a duration is what it makes of the duration itself.

The text is read by a regular expression whose parts are optional, and a duration is written
with the days only where there are some and the microseconds only where there are some. For
each of the four shapes the preferred way through the pattern is followed, part by part, and
the groups that it leaves are the figures that were written.
-/

/-- The groups of the text of a duration. -/
inductive PeriodGroup where
  | days
  | hours
  | minutes
  | seconds
  | micros
deriving DecidableEq

/-- A `PERIOD_LENGTH`: a duration, a text, or a value of another type. -/
inductive PeriodValue where
  | timedelta (d : Timedelta)
  | text (s : String)
  | other (typeName : String)

/-- What `parse_period` raises. -/
inductive PeriodError where
  | valueError (message : String)
  | typeError (message : String)
  | overflowError
deriving DecidableEq

namespace PeriodText

open Regex

/-- `-?\d+` -/
def signed : Regex Char PeriodGroup := all [maybe (· = '-'), plus Python.isDecimal]

/-- `\d{1,2}` -/
def twoFigures : Regex Char PeriodGroup := .chars Python.isDecimal 1 (some 2)

/-- `(?:(?P<days>-?\d+)\s+days?,?\s*)?` -/
def days : Regex Char PeriodGroup :=
  .optional (all [.group .days signed, plus Python.isWhitespace, .word ['d', 'a', 'y'],
    maybe (· = 's'), maybe (· = ','), many Python.isWhitespace])

/-- `(?P<hours>-?\d+):(?P<minutes>\d{1,2}):(?P<seconds>\d{1,2})` -/
def clock : Regex Char PeriodGroup :=
  all [.group .hours signed, .word [':'], .group .minutes twoFigures, .word [':'],
    .group .seconds twoFigures]

/-- `(?:\.(?P<micros>\d+))?` -/
def micros : Regex Char PeriodGroup :=
  .optional (all [.word ['.'], .group .micros (plus Python.isDecimal)])

/-- What `$` matches before. -/
def atEnd (rest : List Char) : Bool := rest = [] || rest = [Char.ofNat 10]

/-- `_TIMEDELTA_TEXT` -/
def timedeltaText : Regex Char PeriodGroup :=
  all [.start, many Python.isWhitespace, days, clock, micros, many Python.isWhitespace,
    .finish atEnd]

/-- `int(part)` -/
def number (part : List Char) : Except PeriodError ℤ :=
  match Python.int part with
  | none => .error (.valueError (s!"Exceeds the limit ({Python.maxFigures} digits) for integer " ++
      s!"string conversion: value has {(Python.unsigned part).length} digits; " ++
      "use sys.set_int_max_str_digits() to increase the limit"))
  | some n => .ok n

/-- `int(part or 0)` -/
def numberOrZero : Option (List Char) → Except PeriodError ℤ
  | none => .ok 0
  | some part => number part

/-- `int(micros.ljust(6, "0")[:6]) if micros else 0` -/
def microseconds (part : Option (List Char)) : Except PeriodError ℤ :=
  let micros := part.getD []
  if micros = [] then .ok 0 else number ((micros.rightpad 6 '0').take 6)

/-- The duration that a text is matched as. -/
def timedeltaOf (found : Place Char PeriodGroup) : Except PeriodError Timedelta := do
  let days ← numberOrZero (found.group .days)
  let hours ← number ((found.group .hours).getD [])
  let minutes ← number ((found.group .minutes).getD [])
  let seconds ← number ((found.group .seconds).getD [])
  let microseconds ← microseconds (found.group .micros)
  match Timedelta.ofParts days hours minutes seconds microseconds with
  | none => .error .overflowError
  | some period => .ok period

/-- The duration of a value. -/
def timedelta : PeriodValue → Except PeriodError Timedelta
  | .timedelta d => .ok d
  | .text s =>
    match timedeltaText.matchStart s.toList with
    | none => .error (.valueError s!"unrecognised PERIOD_LENGTH: {Python.repr s}")
    | some found => timedeltaOf found
  | .other typeName =>
    .error (.typeError s!"PERIOD_LENGTH must be a timedelta or str, got {typeName}")

variable {d : Timedelta} {n : ℕ} {z : ℤ} {c : Char} {rest : List Char}
variable {gs : List (PeriodGroup × List Char)}

/-! ## The text of a duration -/

/-- What a number is written with is matched by the `\d` of the pattern. -/
theorem isDecimal_of_mem_toDigits (h : c ∈ Nat.toDigits 10 n) : Python.isDecimal c = true :=
  Python.isDecimal_of_isDigit (Python.isDigit_of_mem_toDigits h)

/-- Zeros in front are matched as well. -/
theorem isDecimal_of_mem_padded {k : ℕ} (h : c ∈ Python.padded k n) : Python.isDecimal c = true :=
  Python.isDecimal_of_isDigit (Python.isDigit_of_mem_padded h)

/-- A whole number goes through the part for one, with or without its sign, up to the first
character that is no figure. -/
theorem first_signed (hstop : ∀ x ∈ rest.head?, Python.isDecimal x = false) :
    ∃ m, First signed ⟨n, Python.decimal z ++ rest, gs⟩ ⟨m, rest, gs⟩ := by
  have hall : ∀ x ∈ Nat.toDigits 10 z.natAbs, Python.isDecimal x = true := fun _ =>
    isDecimal_of_mem_toDigits
  have hfigures (k : ℕ) : First (plus Python.isDecimal)
      ⟨k, Nat.toDigits 10 z.natAbs ++ rest, gs⟩ ⟨_, rest, gs⟩ :=
    First.chars hall hstop Nat.length_toDigits_pos nofun
  unfold Python.decimal
  split
  · have hminus : First (maybe (· = '-')) ⟨n, ['-'] ++ (Nat.toDigits 10 z.natAbs ++ rest), gs⟩
        ⟨n + 1, Nat.toDigits 10 z.natAbs ++ rest, gs⟩ :=
      First.chars_most (by simp) (Nat.zero_le _) rfl
    exact ⟨_, hminus.cons ((hfigures _).cons First.nil)⟩
  · have hminus : First (maybe (· = '-')) ⟨n, Nat.toDigits 10 z.natAbs ++ rest, gs⟩
        ⟨n, Nat.toDigits 10 z.natAbs ++ rest, gs⟩ := by
      refine First.chars_nothing fun x hx => decide_eq_false ?_
      rintro rfl
      rw [List.head?_append_of_ne_nil _ (List.ne_nil_of_length_pos Nat.length_toDigits_pos)] at hx
      exact absurd (hall '-' (List.mem_of_mem_head? hx)) (by decide)
    exact ⟨_, hminus.cons ((hfigures _).cons First.nil)⟩

/-- The group of the days, where they are written. -/
def daysGroup (d : Timedelta) : List (PeriodGroup × List Char) :=
  if d.days = 0 then [] else [(.days, Python.decimal d.days)]

/-- The groups of the clock, the last one first. -/
def clockGroups (d : Timedelta) : List (PeriodGroup × List Char) :=
  [(.seconds, Python.padded 2 (d.seconds % 60)),
    (.minutes, Python.padded 2 (d.seconds / 60 % 60)),
    (.hours, Python.decimal (d.seconds / 3600 : ℕ))]

/-- The group of the microseconds, where they are written. -/
def microsGroup (d : Timedelta) : List (PeriodGroup × List Char) :=
  if d.microseconds = 0 then [] else [(.micros, Python.padded 6 d.microseconds)]

/-- The groups of the text of a duration. -/
def groups (d : Timedelta) : List (PeriodGroup × List Char) :=
  microsGroup d ++ (clockGroups d ++ (daysGroup d ++ []))

/-- The days, where they are written, go through the part for days and leave their group. Where
they are not written that part is left out. -/
theorem first_days (hrest : ∀ x ∈ rest, Python.isWhitespace x = false) :
    ∃ m, First days ⟨n, d.daysText ++ rest, gs⟩ ⟨m, rest, daysGroup d ++ gs⟩ := by
  unfold Timedelta.daysText daysGroup
  split
  · refine ⟨n, First.skip (run_eq_nil_of_needs (p := Python.isWhitespace) ?_ hrest)⟩
    exact .inr (.inl ⟨Nat.one_pos, fun _ h => h⟩)
  · simp only [List.append_assoc]
    obtain ⟨m, hdays⟩ : ∃ m, First signed
        ⟨n, Python.decimal d.days ++ ([' '] ++ (['d', 'a', 'y'] ++ ((if d.days.natAbs ≠ 1 then ['s']
          else []) ++ ([','] ++ ([' '] ++ rest))))), gs⟩ ⟨m, _, gs⟩ :=
      first_signed (by simp [show Python.isDecimal ' ' = false by decide])
    have hspace (k : ℕ) (gs' : List (PeriodGroup × List Char)) (more : List Char) :
        First (plus Python.isWhitespace) ⟨k, [' '] ++ (['d', 'a', 'y'] ++ more), gs'⟩ _ :=
      First.chars (List.forall_mem_singleton.mpr (by decide)) (by simp; decide) le_rfl nofun
    have hcomma (k : ℕ) (gs' : List (PeriodGroup × List Char)) :
        First (maybe (· = ',')) ⟨k, [','] ++ ([' '] ++ rest), gs'⟩ _ :=
      First.chars_most (by simp) (Nat.zero_le _) rfl
    have hblank (k : ℕ) (gs' : List (PeriodGroup × List Char)) :
        First (many Python.isWhitespace) ⟨k, [' '] ++ rest, gs'⟩ _ :=
      First.chars (List.forall_mem_singleton.mpr (by decide))
        (fun x hx => hrest x (List.mem_of_mem_head? hx)) (Nat.zero_le _) nofun
    exact ⟨_, (hdays.group.cons ((hspace _ _ _).cons (First.word.cons
      ((First.maybe _ (by simp)).cons ((hcomma _ _).cons ((hblank _ _).cons
        First.nil)))))).optional⟩

/-- Two figures go through a part of two figures. -/
theorem first_twoFigures {k : ℕ} (hk : k < 100) :
    ∃ m, First twoFigures ⟨n, Python.padded 2 k ++ rest, gs⟩ ⟨m, rest, gs⟩ :=
  ⟨_, First.chars_most (fun _ => isDecimal_of_mem_padded) Nat.one_le_ofNat
    (Python.length_padded Nat.two_pos hk)⟩

/-- Hours, minutes and seconds go through the clock, and each leaves its group. -/
theorem first_clock :
    ∃ m, First clock ⟨n, d.clockText ++ rest, gs⟩ ⟨m, rest, clockGroups d ++ gs⟩ := by
  have hminutes : d.seconds / 60 % 60 < 100 := (Nat.mod_lt _ (by decide)).trans (by decide)
  have hseconds : d.seconds % 60 < 100 := (Nat.mod_lt _ (by decide)).trans (by decide)
  simp only [Timedelta.clockText, List.append_assoc, List.cons_append]
  obtain ⟨m₁, h₁⟩ : ∃ m, First signed ⟨n, Python.decimal (d.seconds / 3600 : ℕ) ++
      ([':'] ++ (Python.padded 2 (d.seconds / 60 % 60) ++ ([':'] ++ (Python.padded 2
        (d.seconds % 60) ++ rest)))), gs⟩ ⟨m, _, gs⟩ :=
    first_signed (by simp [show Python.isDecimal ':' = false by decide])
  obtain ⟨m₂, h₂⟩ := @first_twoFigures (m₁ + 1)
    ([':'] ++ (Python.padded 2 (d.seconds % 60) ++ rest)) _ _ hminutes
  obtain ⟨m₃, h₃⟩ := @first_twoFigures (m₂ + 1) rest _ _ hseconds
  exact ⟨m₃, h₁.group.cons (First.word.cons (h₂.group.cons (First.word.cons
    (h₃.group.cons First.nil))))⟩

/-- The microseconds, where they are written, end the text and leave their group. -/
theorem first_micros :
    ∃ m, First micros ⟨n, d.microsText, gs⟩ ⟨m, [], microsGroup d ++ gs⟩ := by
  unfold Timedelta.microsText microsGroup
  split
  · exact ⟨n, First.skip rfl⟩
  · have hlen : (Python.padded 6 d.microseconds).length = 6 :=
      Python.length_padded (by decide) d.microseconds_lt
    have hpoint : First (.word ['.']) ⟨n, '.' :: Python.padded 6 d.microseconds, gs⟩
        ⟨n + 1, Python.padded 6 d.microseconds, gs⟩ := First.word
    have hfigures : First (plus Python.isDecimal) ⟨n + 1, Python.padded 6 d.microseconds ++ [], gs⟩
        ⟨_, [], gs⟩ :=
      First.chars (fun _ => isDecimal_of_mem_padded) nofun (by rw [hlen]; decide) nofun
    have hgroup := hfigures.group (g := .micros)
    rw [List.append_nil] at hgroup
    exact ⟨_, (hpoint.cons (hgroup.cons First.nil)).optional⟩

/-- There is no blank in a whole number that could be taken off. -/
theorem isWhitespace_of_mem_decimal (h : c ∈ Python.decimal z) :
    Python.isWhitespace c = false := by
  obtain rfl | h := Python.mem_decimal h
  · decide
  · exact Python.isWhitespace_of_isDigit h

/-- The clock is written without a blank. -/
theorem isWhitespace_of_mem_clock (h : c ∈ d.clockText ++ d.microsText) :
    Python.isWhitespace c = false := by
  obtain h | rfl | rfl := Timedelta.mem_clock h
  · exact Python.isWhitespace_of_isDigit h
  · decide
  · decide

theorem isWhitespace_of_mem_head?
    (h : c ∈ (d.daysText ++ (d.clockText ++ d.microsText)).head?) :
    Python.isWhitespace c = false := by
  unfold Timedelta.daysText at h
  split at h
  · exact isWhitespace_of_mem_clock (List.mem_of_mem_head? h)
  · simp only [List.append_assoc] at h
    rw [List.head?_append_of_ne_nil _ (Python.decimal_ne_nil d.days)] at h
    exact isWhitespace_of_mem_decimal (List.mem_of_mem_head? h)

/-- **The text of a duration is matched**, with its parts as the groups. The days are written only
where they are not zero, and the fraction where there is one. -/
theorem first_timedeltaText (d : Timedelta) :
    ∃ m, First timedeltaText ⟨0, d.daysText ++ (d.clockText ++ d.microsText), []⟩
      ⟨m, [], groups d⟩ := by
  obtain ⟨m₁, hdays⟩ := @first_days d 0 (d.clockText ++ d.microsText) []
    fun _ => isWhitespace_of_mem_clock
  obtain ⟨m₂, hclock⟩ := @first_clock d m₁ d.microsText (daysGroup d ++ [])
  obtain ⟨m₃, hmicros⟩ := @first_micros d m₂ (clockGroups d ++ (daysGroup d ++ []))
  have hstart : First .start
      (⟨0, d.daysText ++ (d.clockText ++ d.microsText), []⟩ : Place Char PeriodGroup) _ := rfl
  have hblank : First (many Python.isWhitespace)
      (⟨0, d.daysText ++ (d.clockText ++ d.microsText), []⟩ : Place Char PeriodGroup) _ :=
    First.chars_nothing fun _ => isWhitespace_of_mem_head?
  have hnothing : First (many Python.isWhitespace)
      (⟨m₃, [], groups d⟩ : Place Char PeriodGroup) _ := First.chars_nothing nofun
  have hend : First (.finish atEnd) (⟨m₃, [], groups d⟩ : Place Char PeriodGroup) _ := rfl
  exact ⟨m₃, hstart.cons (hblank.cons (hdays.cons (hclock.cons (hmicros.cons (hnothing.cons
    (hend.cons First.nil))))))⟩

/-! ## The parts, read back -/

/-- A group of figures is read as the number that it was written for. Durations have few enough
figures for `int`. -/
theorem number_decimal (h : z.natAbs < 10 ^ 9) : number (Python.decimal z) = .ok z := by
  have hlen : (Nat.toDigits 10 z.natAbs).length ≤ 9 :=
    (Nat.length_toDigits_le_iff (by decide) (by decide)).mpr h
  rw [number, Python.int_decimal (hlen.trans (by decide))]

/-- A group with zeros in front is read as its number, too. -/
theorem number_padded {k : ℕ} (hk : 0 < k) (hmax : k ≤ Python.maxFigures) (h : n < 10 ^ k) :
    number (Python.padded k n) = .ok (n : ℤ) := by
  rw [number, Python.int_padded ((Python.length_padded hk h).trans_le hmax)]

/-- Which groups a match leaves: the days are there exactly where there are days to write. -/
theorem lookup_days : (groups d).lookup .days =
    if d.days = 0 then none else some (Python.decimal d.days) := by
  unfold groups microsGroup daysGroup
  split_ifs <;> rfl

/-- The microseconds are there exactly where there are some to write. -/
theorem lookup_micros : (groups d).lookup .micros =
    if d.microseconds = 0 then none else some (Python.padded 6 d.microseconds) := by
  unfold groups microsGroup daysGroup
  split_ifs <;> rfl

theorem lookup_clock {g : PeriodGroup} {part : List Char}
    (h : (clockGroups d).lookup g = some part) (hg : g ≠ .micros) :
    (groups d).lookup g = some part := by
  have hmicros : (microsGroup d).lookup g = none := by
    unfold microsGroup
    split
    · rfl
    · rw [List.lookup_cons, beq_eq_false_iff_ne.mpr hg]
      rfl
  rw [groups, List.lookup_append, List.lookup_append, hmicros, h]
  rfl

/-- The days are read, where they are written. -/
theorem numberOrZero_days : numberOrZero ((groups d).lookup .days) = .ok d.days := by
  have hdays : d.days.natAbs < 10 ^ 9 := by
    have hmin := d.ge_min
    have hmax := d.lt_max
    unfold Timedelta.days
    omega
  rw [lookup_days]
  split
  · next h => rw [h, numberOrZero]
  · rw [numberOrZero, number_decimal hdays]

/-- The rest of a second is read, where it is written. -/
theorem microseconds_micros : microseconds ((groups d).lookup .micros) = .ok d.microseconds := by
  have hlen : (Python.padded 6 d.microseconds).length = 6 :=
    Python.length_padded (by decide) d.microseconds_lt
  rw [lookup_micros]
  by_cases h : d.microseconds = 0
  · rw [h]
    rfl
  · rw [if_neg h, microseconds, Option.getD_some,
      if_neg (List.ne_nil_of_length_pos (by rw [hlen]; decide)), List.rightpad, hlen, Nat.sub_self,
      List.replicate_zero, List.append_nil, List.take_of_length_le hlen.le,
      number_padded (by decide) (by decide) d.microseconds_lt]

/-- **The parts of a matched text are those of its duration.** -/
theorem timedeltaOf_groups (d : Timedelta) (m : ℕ) : timedeltaOf ⟨m, [], groups d⟩ = .ok d := by
  have hday := d.seconds_lt
  have hhours : number (((groups d).lookup .hours).getD []) = .ok (d.seconds / 3600 : ℕ) := by
    rw [lookup_clock (g := .hours) rfl (by decide)]
    exact number_decimal (by omega)
  have hminutes : number (((groups d).lookup .minutes).getD []) =
      .ok (d.seconds / 60 % 60 : ℕ) := by
    rw [lookup_clock (g := .minutes) rfl (by decide)]
    exact number_padded Nat.two_pos (by decide) (by omega)
  have hseconds : number (((groups d).lookup .seconds).getD []) = .ok (d.seconds % 60 : ℕ) := by
    rw [lookup_clock (g := .seconds) rfl (by decide)]
    exact number_padded Nat.two_pos (by decide) (by omega)
  simp only [timedeltaOf, Place.group, numberOrZero_days, hhours, hminutes, hseconds,
    microseconds_micros, bind, Except.bind, Timedelta.ofParts_parts]

/-- **The text of a duration is read as the duration.** -/
theorem timedelta_text (d : Timedelta) : timedelta (.text d.str) = .ok d := by
  obtain ⟨m, h⟩ := first_timedeltaText d
  have htext : d.str.toList = d.daysText ++ (d.clockText ++ d.microsText) := String.toList_ofList
  simp only [timedelta, htext, matchStart_eq h]
  exact timedeltaOf_groups d m

end PeriodText

/-- `parse_period` -/
def parsePeriod (value : PeriodValue) : Except PeriodError Period := do
  let period ← PeriodText.timedelta value
  if h : 0 < period.micros then .ok ⟨period.micros, h⟩
  else .error (.valueError s!"PERIOD_LENGTH must be positive, got {period.str}")

/-- **The text of a duration is taken as the duration is.** So the two forms in which an interval
may come from the driver make no difference. -/
theorem parsePeriod_text (d : Timedelta) :
    parsePeriod (.text d.str) = parsePeriod (.timedelta d) := by
  rw [parsePeriod, PeriodText.timedelta_text, parsePeriod, PeriodText.timedelta]

/-- What is handed over as a duration is taken as it is, if it is positive. -/
theorem parsePeriod_timedelta {d : Timedelta} (h : 0 < d.micros) :
    parsePeriod (.timedelta d) = .ok ⟨d.micros, h⟩ :=
  dif_pos h
