import QuantStrategies.Lib.Grid
import Mathlib.Data.List.Sort
import Mathlib.Algebra.Order.Ring.Int
import Mathlib.Tactic.Set

/-!
# Interval arithmetic

Bar boundaries and schedule slots are both derived from a period. Instants are
UTC microseconds since the Unix epoch – the resolution of the timestamps the
program handles – so that a boundary is a whole multiple of the period, and
rounding down to one is the floor division the source makes.

A period is positive: that is the last check of `parsePeriod`, and no
arithmetic below is asked about another one.

Instants are integers here, without a first and a last one. The datetimes of the
program end with the year 9999, and a step beyond it raises. The arithmetic that
knows this is `Utc`, beside the boundaries of a range (`Shared.BarStarts`) and the
slots of a schedule (`Shared.Slots`): it is proved to be the arithmetic of this
module as long as every step is a datetime, and what is said of instants here is said
of the program in that range.

Everything else in the project that speaks of a bar or of a slot is built of the two
functions of this module, the rounding and the step, so that a change of the source's
arithmetic is a change here and in the lemmas that say what it is.
-/

/-- A positive period. -/
structure Period where
  /-- How long a bar is, in microseconds. -/
  length : ℤ
  /-- A bar has an extent, which the source checks when it reads the period. -/
  pos : 0 < length
deriving DecidableEq

/-- One minute. -/
def minutePeriod : Period := ⟨60000000, by decide⟩

/-- One hour. -/
def hourPeriod : Period := ⟨3600000000, by decide⟩

/-- One day. -/
def dayLength : ℤ := 86400000000

/-- Round `ts` down to the boundary that opened the period containing it. -/
def floorToPeriod (ts : ℤ) (period : Period) : ℤ :=
  Grid.floor period.length ts

/-- Open time of the newest bar that has finished forming. -/
def lastClosedBar (now : ℤ) (period : Period) : ℤ :=
  floorToPeriod now period - period.length

/-- The `while current <= end` loop of `bar_starts`, for at most so many
rounds. -/
def barStartsLoop (stop : ℤ) (period : Period) : ℕ → ℤ → List ℤ
  | 0, _ => []
  | n + 1, current =>
      if current ≤ stop then
        current :: barStartsLoop stop period n (current + period.length)
      else []

/-- Every bar open time from `start` to `stop`, aligned to period boundaries. -/
def barStarts (start stop : ℤ) (period : Period) : List ℤ :=
  let current := floorToPeriod start period
  let current := if current < start then current + period.length else current
  barStartsLoop stop period ((stop - current) / period.length + 1).toNat current

variable {period : Period} {ts start stop t : ℤ}

/-- The newest closed bar opens on a boundary, so it is one that an exchange can be asked for by
its open time. -/
theorem lastClosedBar_dvd (now : ℤ) (period : Period) :
    period.length ∣ lastClosedBar now period :=
  Int.dvd_sub (Grid.floor_dvd _ _) (Int.dvd_refl _)

/-- The newest closed bar does not move back while the clock goes on, which is what a window that
was completed some time ago still relies on. -/
theorem lastClosedBar_mono {now now' : ℤ} (h : now ≤ now') :
    lastClosedBar now period ≤ lastClosedBar now' period :=
  Int.sub_le_sub_right (Grid.floor_mono period.pos h) _

/-- The loop lists the boundaries from `current` to `stop`, given rounds
enough to pass `stop`. -/
theorem mem_barStartsLoop {n : ℕ} {current : ℤ} (hc : period.length ∣ current)
    (hn : stop < current + n * period.length) :
    t ∈ barStartsLoop stop period n current
      ↔ current ≤ t ∧ t ≤ stop ∧ period.length ∣ t := by
  have hp := period.pos
  induction n generalizing current with
  | zero =>
    rw [Nat.cast_zero, zero_mul, add_zero] at hn
    simp only [barStartsLoop, List.not_mem_nil, false_iff]
    omega
  | succ n ih =>
    unfold barStartsLoop
    have hn' : stop < current + period.length + n * period.length := by
      rw [Nat.cast_succ, add_mul, one_mul] at hn
      omega
    split
    · rename_i hle
      have hrest := ih (Int.dvd_add hc (Int.dvd_refl _)) hn'
      simp only [List.mem_cons, hrest]
      constructor
      · rintro (rfl | ⟨h1, h2, h3⟩)
        · exact ⟨le_refl _, hle, hc⟩
        · exact ⟨by omega, h2, h3⟩
      · rintro ⟨h1, h2, h3⟩
        rcases eq_or_lt_of_le h1 with rfl | h1
        · exact Or.inl rfl
        · exact Or.inr ⟨Grid.add_le_of_lt hc h3 h1, h2, h3⟩
    · simp only [List.not_mem_nil, false_iff]
      omega

/-- The loop lists instants in increasing order, none below `current`. -/
theorem barStartsLoop_pairwise (n : ℕ) (current : ℤ) :
    (barStartsLoop stop period n current).Pairwise (· < ·) ∧
      ∀ t ∈ barStartsLoop stop period n current, current ≤ t := by
  have hp := period.pos
  induction n generalizing current with
  | zero => exact ⟨List.Pairwise.nil, fun t ht => absurd ht List.not_mem_nil⟩
  | succ n ih =>
    unfold barStartsLoop
    obtain ⟨ih1, ih2⟩ := ih (current + period.length)
    split
    · refine ⟨List.pairwise_cons.mpr ⟨fun t ht => ?_, ih1⟩, fun t ht => ?_⟩
      · have := ih2 t ht
        omega
      · rcases List.mem_cons.mp ht with rfl | ht
        · exact le_refl _
        · have := ih2 t ht
          omega
    · exact ⟨List.Pairwise.nil, fun t ht => absurd ht List.not_mem_nil⟩

/-- The first boundary at or after `start`, as `bar_starts` finds it. -/
theorem firstBoundary_spec (start : ℤ) (period : Period) :
    let current := floorToPeriod start period
    let first := if current < start then current + period.length else current
    period.length ∣ first ∧ start ≤ first ∧
      ∀ t, period.length ∣ t → start ≤ t → first ≤ t := by
  intro current first
  have hd : period.length ∣ current := Grid.floor_dvd _ _
  have hle : current ≤ start := Grid.floor_le period.pos start
  have hlt : start < current + period.length := Grid.lt_floor_add period.pos start
  by_cases h : current < start
  · have hf : first = current + period.length := if_pos h
    rw [hf]
    exact ⟨Int.dvd_add hd (Int.dvd_refl _), le_of_lt hlt,
      fun t ht hst => Grid.add_le_of_lt hd ht (lt_of_lt_of_le h hst)⟩
  · have hf : first = current := if_neg h
    rw [hf]
    exact ⟨hd, not_lt.mp h, fun t _ hst => hle.trans hst⟩

/-- **`bar_starts` lists exactly the boundaries of the range.** The first of them is the floor of
the start, or the next one where the start is off the grid. -/
theorem mem_barStarts :
    t ∈ barStarts start stop period ↔ start ≤ t ∧ t ≤ stop ∧ period.length ∣ t := by
  obtain ⟨hd, hs, hfirst⟩ := firstBoundary_spec start period
  unfold barStarts
  set first := if floorToPeriod start period < start
    then floorToPeriod start period + period.length else floorToPeriod start period
  have hrounds : stop < first +
      ((stop - first) / period.length + 1).toNat * period.length := by
    have h1 := Int.lt_ediv_add_one_mul_self (stop - first) period.pos
    by_cases hneg : (stop - first) / period.length + 1 < 0
    · have h2 : ((stop - first) / period.length + 1) * period.length < 0 :=
        Int.mul_neg_of_neg_of_pos hneg period.pos
      have h3 : 0 ≤ (((stop - first) / period.length + 1).toNat : ℤ) * period.length :=
        mul_nonneg (Int.natCast_nonneg _) (le_of_lt period.pos)
      omega
    · rw [Int.toNat_of_nonneg (not_lt.mp hneg)]
      omega
  rw [mem_barStartsLoop hd hrounds]
  exact ⟨fun ⟨h1, h2, h3⟩ => ⟨hs.trans h1, h2, h3⟩,
    fun ⟨h1, h2, h3⟩ => ⟨hfirst t h3 h1, h2, h3⟩⟩

/-- The boundaries are listed in their order, none of them twice. -/
theorem barStarts_pairwise : (barStarts start stop period).Pairwise (· < ·) :=
  (barStartsLoop_pairwise _ _).1

/-- A ccxt timeframe: how many of a unit. Rendered, it is the count followed by
the unit. -/
structure Timeframe where
  /-- How many units a bar spans. -/
  count : ℤ
  /-- A letter: seconds, minutes, hours, days or weeks. -/
  unit : Char
deriving DecidableEq

/-- Render a period as a ccxt timeframe. A period that is not made of whole
minutes has none. -/
def ccxtTimeframe (period : Period) : Option Timeframe :=
  let seconds := period.length / 1000000
  if seconds % 604800 = 0 then some ⟨seconds / 604800, 'w'⟩
  else if seconds % 86400 = 0 then some ⟨seconds / 86400, 'd'⟩
  else if seconds % 3600 = 0 then some ⟨seconds / 3600, 'h'⟩
  else if seconds % 60 = 0 then some ⟨seconds / 60, 'm'⟩
  else none

/-- The loop lists as many instants as it has rounds when the last of them is
within the range. -/
theorem length_barStartsLoop (n : ℕ) {current : ℤ}
    (h : current + n * period.length ≤ stop + period.length) :
    (barStartsLoop stop period n current).length = n := by
  have hp := period.pos
  induction n generalizing current with
  | zero => rfl
  | succ n ih =>
    rw [Nat.cast_succ, add_mul, one_mul] at h
    have hn : 0 ≤ (n : ℤ) * period.length := mul_nonneg (Int.natCast_nonneg n) (le_of_lt hp)
    unfold barStartsLoop
    rw [if_pos (by omega), List.length_cons, ih (by omega)]

/-- **A window of `k` bars has `k` boundaries.** -/
theorem length_barStarts_window {newest : ℤ} (hn : period.length ∣ newest) (k : ℕ) :
    (barStarts (newest - period.length * (k - 1)) newest period).length = k := by
  have hd : period.length ∣ newest - period.length * (k - 1) :=
    Int.dvd_sub hn (Dvd.intro _ rfl)
  have hfloor := Grid.floor_of_dvd hd
  unfold barStarts floorToPeriod
  simp only [hfloor, lt_irrefl, if_false]
  have hspan : newest - (newest - period.length * (k - 1)) = period.length * (k - 1) := by ring
  rw [hspan, Int.mul_ediv_cancel_left _ (ne_of_gt period.pos), Int.sub_add_cancel, Int.toNat_natCast]
  refine length_barStartsLoop k (le_of_eq ?_)
  ring

/-! ## Apply slots

A schedule applies a lead before a close: the close of the period on a
continuous market, the close of a session on a listed one. -/

/-- What the slot computations raise. -/
inductive SlotError where
  | offsetOutOfPeriod (period offset : ℤ)
  | negativeOffset (offset : ℤ)
  | noSessionClose (after : ℤ)
deriving DecidableEq

/-- Next scheduled apply: `offset` before the bar that contains `after`
closes, or the same lead on the following bar. -/
def nextApplySlot (after : ℤ) (period : Period) (offset : ℤ) : Except SlotError ℤ :=
  if ¬ (0 ≤ offset ∧ offset < period.length) then
    .error (.offsetOutOfPeriod period.length offset)
  else
    let close := floorToPeriod after period + period.length
    let candidate := close - offset
    if after < candidate then .ok candidate else .ok (candidate + period.length)

/-- A wall-clock time of day. -/
structure TimeOfDay where
  /-- Since midnight, in microseconds. -/
  micros : ℤ
  /-- Midnight is the first of them. -/
  nonneg : 0 ≤ micros
  /-- And the next midnight belongs to the next day. -/
  lt_day : micros < dayLength

/-- A time zone: the offset from UTC at an instant, and the one a wall-clock
time is read with. The two need not agree where the clock is changed: a wall
time that is skipped, or shown twice, is read with the earlier offset. -/
structure Zone where
  /-- What the clock on the wall is ahead of UTC by, at an instant. -/
  utcOffset : ℤ → ℤ
  /-- What a wall-clock time is taken to be ahead of UTC by, when it is turned into an instant. -/
  wallOffset : ℤ → ℤ

/-- What the zone's clock shows at an instant: `astimezone(zone)`. -/
def Zone.wall (zone : Zone) (ts : ℤ) : ℤ := ts + zone.utcOffset ts

/-- The instant of a wall-clock time: `astimezone(UTC)`. -/
def Zone.toUtc (zone : Zone) (wall : ℤ) : ℤ := wall - zone.wallOffset wall

/-- The weekday of a date, Monday being zero. Dates are days since the epoch,
which was a Thursday. -/
def weekday (day : ℤ) : ℤ := (day + 3) % 7

/-- The wall-clock time a lead before the close of a date. -/
def sessionCandidate (closeTime : TimeOfDay) (offset day : ℤ) : ℤ :=
  day * dayLength + closeTime.micros - offset

/-- The loop over dates: Saturdays and Sundays are passed over, and so is a date
whose candidate is not after the cursor. -/
def sessionLoop (closeTime : TimeOfDay) (offset cursor : ℤ) : ℕ → ℤ → Option ℤ
  | 0, _ => none
  | n + 1, day =>
      if 5 ≤ weekday day then sessionLoop closeTime offset cursor n (day + 1)
      else if cursor < sessionCandidate closeTime offset day then some day
      else sessionLoop closeTime offset cursor n (day + 1)

/-- Next apply before a listed session's close, skipping Saturday and Sunday,
looked for on ten dates. -/
def nextSessionApplySlot (after : ℤ) (closeTime : TimeOfDay) (zone : Zone) (offset : ℤ) :
    Except SlotError ℤ :=
  if offset < 0 then .error (.negativeOffset offset)
  else
    let cursor := zone.wall after
    match sessionLoop closeTime offset cursor 10 (cursor / dayLength) with
    | none => .error (.noSessionClose after)
    | some day => .ok (zone.toUtc (sessionCandidate closeTime offset day))

/-- A date whose session the loop can stop at. -/
def IsSession (closeTime : TimeOfDay) (offset cursor day : ℤ) : Prop :=
  weekday day < 5 ∧ cursor < sessionCandidate closeTime offset day

/-- The date itself, or the Monday after a weekend. -/
def nextWeekday (day : ℤ) : ℤ :=
  if weekday day = 5 then day + 2 else if weekday day = 6 then day + 1 else day

variable {closeTime : TimeOfDay} {offset cursor day d : ℤ}

/-- **The loop finds the first session** of the dates it looks at. The induction is on the number
of dates that are left to look at. -/
theorem sessionLoop_eq_some {n : ℕ} :
    sessionLoop closeTime offset cursor n day = some d ↔
      day ≤ d ∧ d < day + n ∧ IsSession closeTime offset cursor d ∧
        ∀ e, day ≤ e → e < d → ¬ IsSession closeTime offset cursor e := by
  induction n generalizing day with
  | zero =>
    simp only [sessionLoop, reduceCtorEq, Nat.cast_zero, add_zero, false_iff]
    rintro ⟨h1, h2, -⟩
    omega
  | succ n ih =>
    have hpass : ¬ IsSession closeTime offset cursor day →
        (sessionLoop closeTime offset cursor n (day + 1) = some d ↔
          day ≤ d ∧ d < day + (n + 1 : ℕ) ∧ IsSession closeTime offset cursor d ∧
            ∀ e, day ≤ e → e < d → ¬ IsSession closeTime offset cursor e) := by
      intro hno
      have hrest := @ih (day + 1)
      simp only [hrest]
      constructor
      · rintro ⟨h1, h2, h3, h4⟩
        refine ⟨by omega, by push_cast; omega, h3, fun e he1 he2 => ?_⟩
        rcases eq_or_lt_of_le he1 with rfl | hlt
        · exact hno
        · exact h4 e (by omega) he2
      · rintro ⟨h1, h2, h3, h4⟩
        have hne : day ≠ d := fun h => hno (h ▸ h3)
        exact ⟨by omega, by push_cast at h2; omega, h3, fun e he1 he2 => h4 e (by omega) he2⟩
    unfold sessionLoop
    split
    · rename_i hweekend
      exact hpass (fun h => absurd h.1 (not_lt.mpr hweekend))
    · rename_i hweekday
      split
      · rename_i hlt
        simp only [Option.some.injEq]
        constructor
        · rintro rfl
          exact ⟨le_refl _, by push_cast; omega, ⟨not_le.mp hweekday, hlt⟩,
            fun e h1 h2 => absurd h1 (not_le.mpr h2)⟩
        · rintro ⟨h1, -, -, h4⟩
          by_contra hne
          exact h4 day (le_refl _) (lt_of_le_of_ne h1 hne) ⟨not_le.mp hweekday, hlt⟩
      · rename_i hle
        exact hpass (fun h => hle h.2)

/-- **The first session after a wall-clock time** falls on the first weekday
from the first date whose candidate is later. -/
theorem isSession_first (cursor : ℤ) :
    IsSession closeTime offset cursor
        (nextWeekday ((cursor - closeTime.micros + offset) / dayLength + 1)) ∧
      ∀ e, e < nextWeekday ((cursor - closeTime.micros + offset) / dayLength + 1) →
        ¬ IsSession closeTime offset cursor e := by
  unfold IsSession sessionCandidate nextWeekday weekday dayLength
  constructor
  · split
    · omega
    · split <;> omega
  · intro e he
    rintro ⟨h1, h2⟩
    split at he
    · omega
    · split at he <;> omega

/-- The loop from the cursor's own date reaches the first session when that is
among the ten dates, and otherwise finds none. -/
theorem sessionLoop_ten (hoffset : 0 ≤ offset) :
    sessionLoop closeTime offset cursor 10 (cursor / dayLength) = some d ↔
      d = nextWeekday ((cursor - closeTime.micros + offset) / dayLength + 1) ∧
        d < cursor / dayLength + 10 := by
  obtain ⟨hfirst, hmin⟩ := @isSession_first closeTime offset cursor
  set first := nextWeekday ((cursor - closeTime.micros + offset) / dayLength + 1) with hdef
  have hge : cursor / dayLength ≤ first := by
    have h1 := closeTime.lt_day
    rw [hdef]
    unfold nextWeekday weekday dayLength at *
    split
    · omega
    · split <;> omega
  rw [sessionLoop_eq_some]
  constructor
  · rintro ⟨h1, h2, h3, h4⟩
    have hle : first ≤ d := by
      by_contra hlt
      exact hmin d (not_le.mp hlt) h3
    have hge' : d ≤ first := by
      by_contra hlt
      exact h4 first hge (not_le.mp hlt) hfirst
    exact ⟨le_antisymm hge' hle, by exact_mod_cast h2⟩
  · rintro ⟨rfl, h2⟩
    exact ⟨hge, by exact_mod_cast h2, hfirst, fun e _ he => hmin e he⟩
