import QuantStrategies.Frontend.ExchangeSeries
import QuantStrategies.Lib.Datetime
import QuantStrategies.Lib.Double
import QuantStrategies.Lib.Regex

/-!
# The seconds of a period, as the front end reads them

The front end gets the text of a `PERIOD_LENGTH` as it is in Redis. It looks for days and for
a clock, each for itself and anywhere in the text, and adds them up. Of the text of a positive
duration it finds both where they are written, and what it leaves out is the rest of a second.

The reader is a regular expression of the library, run on the text that the server's
renderer writes for a positive duration. That it finds the days and the clock where they are
is shown part by part: which figures a match takes, and that no earlier place matches.
-/

namespace Frontend

open Regex

/-- `DAYS` -/
def daysPattern : Regex Char ℕ :=
  all [.group 1 (plus Char.isDigit), many isSpace, .word ['d', 'a', 'y'], maybe (· = 's')]

/-- `CLOCK` -/
def clockPattern : Regex Char ℕ :=
  all [.group 1 (plus Char.isDigit), .word [':'], .group 2 (exactly Char.isDigit 2), .word [':'],
    .group 3 (exactly Char.isDigit 2)]

/-- `Number(m[g])`, of a group of figures. -/
def number (m : Place Char ℕ) (g : ℕ) : Double :=
  .ofNat (Nat.ofDigitChars 10 ((m.group g).getD []) 0)

/-- `periodSeconds` -/
def periodSeconds (periodLength : String) : Option Double :=
  let days := daysPattern.search 0 periodLength.toList
  let clock := clockPattern.search 0 periodLength.toList
  if days.isNone && clock.isNone then none
  else
    let fromDays := days.elim (.whole 0) fun m => number m 1 * .whole 86400
    let fromClock := clock.elim (.whole 0) fun m =>
      number m 1 * .whole 3600 + number m 2 * .whole 60 + number m 3
    let total := fromDays + fromClock
    if total.positive then some total else none

variable {d : Timedelta} {n k : ℕ} {xs rest : List Char} {gs : List (ℕ × List Char)}

/-! ## What the patterns find -/

/-- A run of figures is taken whole, and ends where something else comes. -/
theorem first_figures (hstop : ∀ x ∈ rest.head?, x.isDigit = false) :
    First (.group 1 (plus Char.isDigit)) ⟨k, Nat.toDigits 10 n ++ rest, gs⟩
      ⟨k + (Nat.toDigits 10 n).length, rest, (1, Nat.toDigits 10 n) :: gs⟩ :=
  First.group (First.chars (fun _ => Python.isDigit_of_mem_toDigits) hstop
    Nat.length_toDigits_pos nofun)

/-- Two figures are taken as two. -/
theorem first_twoFigures (g : ℕ) (hn : n < 100) :
    First (.group g (exactly Char.isDigit 2)) ⟨k, Python.padded 2 n ++ rest, gs⟩
      ⟨k + (Python.padded 2 n).length, rest, (g, Python.padded 2 n) :: gs⟩ :=
  First.group (First.chars_most (fun _ => Python.isDigit_of_mem_padded) le_rfl
    (Python.length_padded Nat.two_pos hn))

/-- The clock of a duration is matched where it begins. -/
theorem first_clockPattern :
    ∃ m, First clockPattern ⟨k, d.clockText ++ rest, []⟩
      ⟨m, rest, [(3, Python.padded 2 (d.seconds % 60)), (2, Python.padded 2 (d.seconds / 60 % 60)),
        (1, Nat.toDigits 10 (d.seconds / 3600))]⟩ := by
  have hminutes : d.seconds / 60 % 60 < 100 := (Nat.mod_lt _ (by decide)).trans (by decide)
  have hseconds : d.seconds % 60 < 100 := (Nat.mod_lt _ (by decide)).trans (by decide)
  simp only [Timedelta.clockText, Python.decimal_natCast, List.append_assoc, List.cons_append]
  have hhours : First (.group 1 (plus Char.isDigit)) ⟨k, Nat.toDigits 10 (d.seconds / 3600) ++
      ([':'] ++ (Python.padded 2 (d.seconds / 60 % 60) ++ ([':'] ++ (Python.padded 2
        (d.seconds % 60) ++ rest)))), []⟩ _ :=
    first_figures (by simp)
  exact ⟨_, hhours.cons (First.word.cons ((first_twoFigures 2 hminutes).cons (First.word.cons
    ((first_twoFigures 3 hseconds).cons First.nil))))⟩

/-- The text of the days has no colon, so that no clock is found in it. -/
theorem colon_notMem_daysText : ':' ∉ d.daysText := by
  intro h
  unfold Timedelta.daysText at h
  split at h
  · exact absurd h List.not_mem_nil
  · simp only [List.mem_append] at h
    obtain ((h | h) | h) | h := h
    · exact absurd (Python.mem_decimal h) (by decide)
    · exact absurd h (by decide)
    · split at h
      · exact absurd h (by decide)
      · exact absurd h List.not_mem_nil
    · exact absurd h (by decide)

/-- No clock begins in the days: they end with a blank, and have no colon. -/
theorem run_clockPattern_daysText (hne : xs ≠ []) (hxs : xs <:+ d.daysText) :
    clockPattern.run ⟨k, xs ++ rest, []⟩ = [] := by
  have hblank : ' ' ∈ xs := by
    unfold Timedelta.daysText at hxs
    split at hxs
    · exact absurd (List.suffix_nil.mp hxs) hne
    · rw [show [',', ' '] = [','] ++ [' '] from rfl, ← List.append_assoc,
        List.suffix_concat_iff] at hxs
      obtain rfl | ⟨ys, rfl, -⟩ := hxs
      · exact absurd rfl hne
      · exact List.mem_append_right ys List.mem_cons_self
  exact run_chars_word_eq_nil ⟨' ', hblank, rfl⟩ fun h => colon_notMem_daysText (hxs.subset h)

/-- The clock is found behind the days. -/
theorem search_clockPattern :
    ∃ found, clockPattern.search 0 (d.daysText ++ (d.clockText ++ rest)) = some found ∧
      found.groups = [(3, Python.padded 2 (d.seconds % 60)),
        (2, Python.padded 2 (d.seconds / 60 % 60)), (1, Nat.toDigits 10 (d.seconds / 3600))] := by
  obtain ⟨m, hclock⟩ := @first_clockPattern d (0 + d.daysText.length) rest
  refine ⟨⟨m, rest, _⟩, ?_, rfl⟩
  rw [search_append fun _ hne hys _ => run_clockPattern_daysText hne hys, search_eq hclock]

/-- The days are found where they are written. -/
theorem search_daysPattern_of_ne (hdays : d.days ≠ 0) (hpos : 0 ≤ d.days) :
    ∃ found, daysPattern.search 0 (d.daysText ++ rest) = some found ∧
      found.groups = [(1, Nat.toDigits 10 d.days.toNat)] := by
  have hdecimal : Python.decimal d.days = Nat.toDigits 10 d.days.toNat := by
    rw [← Python.decimal_natCast, Int.toNat_of_nonneg hpos]
  rw [Timedelta.daysText, if_neg hdays, hdecimal]
  simp only [List.append_assoc]
  have hfigures : First (.group 1 (plus Char.isDigit)) ⟨0, Nat.toDigits 10 d.days.toNat ++
      ([' '] ++ (['d', 'a', 'y'] ++ ((if d.days.natAbs ≠ 1 then ['s'] else []) ++ ([',', ' '] ++
        rest)))), []⟩ _ :=
    first_figures (by simp)
  have hspace (i : ℕ) (gs' : List (ℕ × List Char)) (more : List Char) :
      First (many isSpace) ⟨i, [' '] ++ (['d', 'a', 'y'] ++ more), gs'⟩ _ :=
    First.chars (List.forall_mem_singleton.mpr (by decide)) (by simp; decide) (Nat.zero_le _) nofun
  exact ⟨_, search_eq (hfigures.cons ((hspace _ _ _).cons (First.word.cons
    ((First.maybe _ (by simp)).cons First.nil)))), rfl⟩

/-- There are none in the clock. -/
theorem search_daysPattern_clock : daysPattern.search n (d.clockText ++ d.microsText) = none := by
  refine search_eq_none (p := (· = 'd')) (.inr (.inr (.inl ⟨'d', List.mem_cons_self, rfl⟩)))
    fun c hc => ?_
  obtain h | rfl | rfl := Timedelta.mem_clock hc
  · refine decide_eq_false ?_
    rintro rfl
    exact absurd h (by decide)
  · rfl
  · rfl

/-! ## What they add up to -/

/-- The figures of a group are read as the number that they write. -/
theorem number_of_lookup {m : Place Char ℕ} {g : ℕ} {figures : List Char}
    (hgroup : m.groups.lookup g = some figures) (hn : Nat.ofDigitChars 10 figures 0 = n)
    (hlt : n < 2 ^ 53) : number m g = .whole n := by
  rw [number, Place.group, hgroup, Option.getD_some, hn, Double.ofNat_of_lt hlt]

/-- The clock gives the seconds of the day. -/
theorem seconds_of_clock {m : Place Char ℕ}
    (hm : m.groups = [(3, Python.padded 2 (d.seconds % 60)),
      (2, Python.padded 2 (d.seconds / 60 % 60)), (1, Nat.toDigits 10 (d.seconds / 3600))]) :
    number m 1 * .whole 3600 + number m 2 * .whole 60 + number m 3 = .whole d.seconds := by
  have hday := d.seconds_lt
  have hhours : number m 1 = .whole (d.seconds / 3600) :=
    number_of_lookup (by rw [hm]; rfl) Nat.ofDigitChars_ten_toDigits (by omega)
  have hminutes : number m 2 = .whole (d.seconds / 60 % 60) :=
    number_of_lookup (by rw [hm]; rfl) (Python.ofDigitChars_padded 2 _) (by omega)
  have hseconds : number m 3 = .whole (d.seconds % 60) :=
    number_of_lookup (by rw [hm]; rfl) (Python.ofDigitChars_padded 2 _) (by omega)
  rw [hhours, hminutes, hseconds, Double.whole_mul (by omega), Double.whole_mul (by omega),
    Double.whole_add (by omega), Double.whole_add (by omega)]
  congr 1
  omega

/-- The days give theirs, if there are any. -/
theorem seconds_of_days (hpos : 0 ≤ d.days) :
    ((daysPattern.search 0 (d.daysText ++ (d.clockText ++ d.microsText))).elim (.whole 0)
      fun m => number m 1 * .whole 86400) = .whole (d.days.toNat * 86400) := by
  by_cases hdays : d.days = 0
  · rw [Timedelta.daysText, if_pos hdays, List.nil_append, search_daysPattern_clock, hdays]
    rfl
  · obtain ⟨m, hsearch, hm⟩ := @search_daysPattern_of_ne d (d.clockText ++ d.microsText) hdays hpos
    have hmax := d.lt_max
    have hlt : d.days.toNat * 86400 < 2 ^ 53 := by
      unfold Timedelta.days
      omega
    have hnumber : number m 1 = .whole d.days.toNat :=
      number_of_lookup (by rw [hm]; rfl) Nat.ofDigitChars_ten_toDigits (by omega)
    rw [hsearch, Option.elim_some, hnumber, Double.whole_mul hlt]

/-- **The front end reads the whole seconds of a duration**, and none where there are none. A
duration below a second shows zeros before its fraction, and of these the pattern makes no number
above zero. -/
theorem periodSeconds_str (hpos : 0 ≤ d.micros) :
    periodSeconds d.str =
      if d.micros / 1000000 = 0 then none else some (.whole (d.micros / 1000000).toNat) := by
  have htext : d.str.toList = d.daysText ++ (d.clockText ++ d.microsText) := String.toList_ofList
  obtain ⟨m, hclock, hm⟩ := @search_clockPattern d d.microsText
  have hdays : 0 ≤ d.days := Int.ediv_nonneg hpos (by decide)
  have hsum : d.days.toNat * 86400 + d.seconds = (d.micros / 1000000).toNat := by
    unfold Timedelta.days Timedelta.seconds
    omega
  have hlt : d.days.toNat * 86400 + d.seconds < 2 ^ 53 := by
    have hmax := d.lt_max
    omega
  simp only [periodSeconds, htext, hclock, seconds_of_days hdays, Option.elim_some,
    seconds_of_clock hm, Double.whole_add hlt, hsum, Option.isNone_some, Bool.and_false]
  by_cases hzero : d.micros / 1000000 = 0
  · rw [if_pos hzero, hzero]
    rfl
  · have hsome : (Double.whole (d.micros / 1000000).toNat).positive = true :=
      decide_eq_true (by omega)
    rw [if_neg hzero, hsome]
    rfl

end Frontend
