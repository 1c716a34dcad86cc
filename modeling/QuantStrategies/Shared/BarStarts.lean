import QuantStrategies.Lib.Datetime
import QuantStrategies.Lib.Result
import QuantStrategies.Shared.Intervals

/-!
# The boundaries of a range

`bar_starts` lists the boundaries of a range by rounding its start down and stepping
on from there. Both are arithmetic on datetimes, which have a first and a last year: a
range that ends within a period of the last one has its boundaries, and they are not
listed, as the step beyond them raises.

Apart from that it is `barStarts`, the arithmetic on instants.

So a range near the end of the calendar is the one case in which the exact list and the code
part. Every other range, however long, is listed as the arithmetic says, since the steps
between are instants between the two ends.
-/

open Datetime

/-- What the computations on boundaries raise. -/
inductive BoundaryError where
  | naiveTimestamp (wall : ℤ)
  | overflowError
deriving DecidableEq

namespace Utc

/-- `_require_utc`. -/
def requireUtc : Timestamp → Except BoundaryError ℤ
  | .naive wall => .error (.naiveTimestamp wall)
  | .aware instant => .ok instant

/-- `t + d`. -/
def add (t d : ℤ) : Except BoundaryError ℤ :=
  match plus t d with
  | some u => .ok u
  | none => .error .overflowError

/-- `floor_to_period`. A product that is no timedelta leads out of the years, too. -/
def floorToPeriod (ts : Timestamp) (period : Period) : Except BoundaryError ℤ := do
  let elapsed ← requireUtc ts
  add 0 (elapsed / period.length * period.length)

/-- The `while current <= end` loop of `bar_starts`, for at most so many rounds. -/
def barStartsLoop (stop : ℤ) (period : Period) : ℕ → ℤ → Except BoundaryError (List ℤ)
  | 0, _ => .ok []
  | n + 1, current =>
    if current ≤ stop then do
      let next ← add current period.length
      let rest ← barStartsLoop stop period n next
      return current :: rest
    else .ok []

/-- `bar_starts`. -/
def barStarts (start stop : Timestamp) (period : Period) : Except BoundaryError (List ℤ) := do
  let first ← requireUtc start
  let last ← requireUtc stop
  let current ← floorToPeriod start period
  let current ← (if current < first then add current period.length else .ok current)
  barStartsLoop last period ((last - current) / period.length + 1).toNat current

end Utc

/-- The first boundary at or after an instant. -/
def firstBoundary (start : ℤ) (period : Period) : ℤ :=
  if floorToPeriod start period < start then floorToPeriod start period + period.length
  else floorToPeriod start period

/-- The instants that `bar_starts` computes are representable: the boundary that it starts
from, the first one of the range, and the one after each that it lists. -/
structure StepsRepresentable (start stop : ℤ) (period : Period) : Prop where
  /-- Rounding the start down does not lead before the first year. -/
  floor : Representable (floorToPeriod start period)
  /-- The first boundary that is not before the start is still an instant of the calendar. -/
  first : Representable (firstBoundary start period)
  /-- The loop computes the boundary after the last one that it lists, before it sees that the
  range is over. -/
  next : ∀ t ∈ barStarts start stop period, Representable (t + period.length)

/-- `bar_starts` lists the boundaries of a range, and nothing else, in their order. -/
def ListsBoundaries (start stop : ℤ) (period : Period) : Prop :=
  ∃ starts, Utc.barStarts (.aware start) (.aware stop) period = .ok starts ∧
    starts.Pairwise (· < ·) ∧ ∀ t, t ∈ starts ↔ start ≤ t ∧ t ≤ stop ∧ period.length ∣ t

variable {period : Period} {start stop t d b : ℤ}

/-! ## On instants -/

/-- The boundary that an instant is rounded down to is the greatest one up to it. -/
theorem floorToPeriod_isGreatest (ts : ℤ) (period : Period) :
    IsGreatest {b | period.length ∣ b ∧ b ≤ ts} (floorToPeriod ts period) :=
  ⟨⟨Grid.floor_dvd _ _, Grid.floor_le period.pos ts⟩,
    fun _ hb => Grid.le_floor period.pos hb.1 hb.2⟩

/-- **A range is cut at a boundary**, with a period between the two parts. -/
theorem barStarts_append (hb : period.length ∣ b) (hstart : start < b) (hstop : b < stop) :
    barStarts start (b - period.length) period ++ barStarts b stop period
      = barStarts start stop period := by
  have hpos := period.pos
  refine List.Pairwise.eq_of_mem_iff (r := (· < ·)) ?_ barStarts_pairwise fun t => ?_
  · refine List.pairwise_append.mpr ⟨barStarts_pairwise, barStarts_pairwise, fun t ht u hu => ?_⟩
    have ht := (mem_barStarts.mp ht).2.1
    have hu := (mem_barStarts.mp hu).1
    omega
  · rw [List.mem_append, mem_barStarts, mem_barStarts, mem_barStarts]
    constructor
    · rintro (⟨hlo, hhi, hdvd⟩ | ⟨hlo, hhi, hdvd⟩)
      · exact ⟨hlo, by omega, hdvd⟩
      · exact ⟨by omega, hhi, hdvd⟩
    · rintro ⟨hlo, hhi, hdvd⟩
      obtain hlt | hge := lt_or_ge t b
      · have := Grid.add_le_of_lt hdvd hb hlt
        exact .inl ⟨hlo, by omega, hdvd⟩
      · exact .inr ⟨hge, hhi, hdvd⟩

/-! ## On datetimes -/

/-- A sum that is an instant of the calendar is computed as on the integers. -/
theorem utc_add_eq_ok (h : Representable (t + d)) : Utc.add t d = .ok (t + d) := by
  rw [Utc.add, plus, if_pos h]

/-- Any other sum raises `OverflowError`. -/
theorem utc_add_eq_error (h : ¬ Representable (t + d)) : Utc.add t d = .error .overflowError := by
  rw [Utc.add, plus, if_neg h]

/-- Rounding down is rounding down, where the result is representable. -/
theorem utc_floorToPeriod (ts : ℤ) (period : Period) :
    Utc.floorToPeriod (.aware ts) period =
      if Representable (floorToPeriod ts period) then .ok (floorToPeriod ts period)
      else .error .overflowError := by
  show Utc.add 0 (floorToPeriod ts period) = _
  split
  · next h => rw [utc_add_eq_ok (by rwa [Int.zero_add]), Int.zero_add]
  · next h => exact utc_add_eq_error (by rwa [Int.zero_add])

/-- The loop lists what it lists of instants, where every step is representable. -/
theorem utc_barStartsLoop_eq_ok {n : ℕ} {current : ℤ}
    (h : ∀ t ∈ barStartsLoop stop period n current, Representable (t + period.length)) :
    Utc.barStartsLoop stop period n current = .ok (barStartsLoop stop period n current) := by
  induction n generalizing current with
  | zero => rfl
  | succ n ih =>
    rw [barStartsLoop] at h ⊢
    rw [Utc.barStartsLoop]
    split
    · next hle =>
      rw [if_pos hle] at h
      obtain ⟨hcurrent, hrest⟩ := List.forall_mem_cons.mp h
      rw [utc_add_eq_ok hcurrent, Result.ok_bind, ih hrest]
      rfl
    · rfl

/-- The loop raises at the first step that is not. -/
theorem utc_barStartsLoop_eq_error {n : ℕ} {current : ℤ}
    (h : ∃ t ∈ barStartsLoop stop period n current, ¬ Representable (t + period.length)) :
    Utc.barStartsLoop stop period n current = .error .overflowError := by
  induction n generalizing current with
  | zero =>
    obtain ⟨t, ht, -⟩ := h
    exact absurd ht List.not_mem_nil
  | succ n ih =>
    obtain ⟨t, ht, hover⟩ := h
    rw [barStartsLoop] at ht
    rw [Utc.barStartsLoop]
    split at ht
    · next hle =>
      rw [if_pos hle]
      by_cases hcurrent : Representable (current + period.length)
      · have hrest : t ∈ barStartsLoop stop period n (current + period.length) :=
          (List.mem_cons.mp ht).resolve_left fun h => hover (h ▸ hcurrent)
        rw [utc_add_eq_ok hcurrent, Result.ok_bind, ih ⟨t, hrest, hover⟩]
        rfl
      · rw [utc_add_eq_error hcurrent]
        rfl
    · exact absurd ht List.not_mem_nil

/-- `bar_starts` rounds down, steps into the range, and goes through it. -/
theorem utc_barStarts_aware (start stop : ℤ) (period : Period) :
    Utc.barStarts (.aware start) (.aware stop) period =
      (Utc.floorToPeriod (.aware start) period >>= fun current =>
        (if current < start then Utc.add current period.length else .ok current) >>= fun first =>
          Utc.barStartsLoop stop period ((stop - first) / period.length + 1).toNat first) := rfl

/-- The step into the range. -/
theorem utc_firstBoundary (hfloor : Representable (floorToPeriod start period)) :
    (if floorToPeriod start period < start
        then Utc.add (floorToPeriod start period) period.length
        else .ok (floorToPeriod start period)) =
      if Representable (firstBoundary start period) then .ok (firstBoundary start period)
      else .error .overflowError := by
  unfold firstBoundary
  by_cases hlt : floorToPeriod start period < start
  · rw [if_pos hlt, if_pos hlt]
    split
    · next h => exact utc_add_eq_ok h
    · next h => exact utc_add_eq_error h
  · rw [if_neg hlt, if_neg hlt, if_pos hfloor]

/-- **Where every step is representable, the boundaries are listed.** -/
theorem StepsRepresentable.barStarts_eq_ok (h : StepsRepresentable start stop period) :
    Utc.barStarts (.aware start) (.aware stop) period = .ok (barStarts start stop period) := by
  rw [utc_barStarts_aware, utc_floorToPeriod, if_pos h.floor, Result.ok_bind,
    utc_firstBoundary h.floor, if_pos h.first, Result.ok_bind]
  exact utc_barStartsLoop_eq_ok h.next

/-- **Where a step is not, nothing is listed.** -/
theorem utc_barStarts_eq_error (h : ¬ StepsRepresentable start stop period) :
    Utc.barStarts (.aware start) (.aware stop) period = .error .overflowError := by
  rw [utc_barStarts_aware, utc_floorToPeriod]
  by_cases hfloor : Representable (floorToPeriod start period)
  · rw [if_pos hfloor, Result.ok_bind, utc_firstBoundary hfloor]
    by_cases hfirst : Representable (firstBoundary start period)
    · rw [if_pos hfirst, Result.ok_bind]
      refine utc_barStartsLoop_eq_error ?_
      by_contra hall
      push Not at hall
      exact h ⟨hfloor, hfirst, hall⟩
    · rw [if_neg hfirst]
      rfl
  · rw [if_neg hfloor]
    rfl

/-- The steps of a range are those of its parts. -/
theorem StepsRepresentable.iff_parts (hb : period.length ∣ b) (hstart : start < b)
    (hstop : b < stop) :
    StepsRepresentable start stop period ↔ Representable (b - period.length) ∧
      StepsRepresentable start (b - period.length) period ∧ StepsRepresentable b stop period := by
  have hpos := period.pos
  have hparts (t : ℤ) : t ∈ barStarts start stop period ↔
      t ∈ barStarts start (b - period.length) period ∨ t ∈ barStarts b stop period := by
    rw [← barStarts_append hb hstart hstop, List.mem_append]
  constructor
  · intro h
    have hfloor : floorToPeriod start period + period.length ≤ b :=
      Grid.add_le_of_lt (Grid.floor_dvd _ _) hb ((Grid.floor_le hpos start).trans_lt hstart)
    have hmem : b ∈ barStarts start stop period := mem_barStarts.mpr ⟨hstart.le, hstop.le, hb⟩
    have hrep : Representable b := h.floor.of_between (h.next b hmem) (by omega) (by omega)
    have hself : floorToPeriod b period = b := Grid.floor_of_dvd hb
    refine ⟨h.floor.of_between hrep (by omega) (by omega),
      ⟨h.floor, h.first, fun t ht => h.next t ((hparts t).mpr (.inl ht))⟩,
      ⟨by rwa [hself], ?_, fun t ht => h.next t ((hparts t).mpr (.inr ht))⟩⟩
    rwa [firstBoundary, hself, if_neg (lt_irrefl b)]
  · rintro ⟨-, hleft, hright⟩
    exact ⟨hleft.floor, hleft.first, fun t ht =>
      ((hparts t).mp ht).elim (hleft.next t) (hright.next t)⟩

/-- **A range is cut at a boundary**: listed in two parts, it is listed, and it raises
where one of them does. -/
theorem utc_barStarts_cut (hb : period.length ∣ b) (hstart : start < b) (hstop : b < stop) :
    (do
      let before ← Utc.add b (-period.length)
      let left ← Utc.barStarts (.aware start) (.aware before) period
      let right ← Utc.barStarts (.aware b) (.aware stop) period
      return left ++ right) = Utc.barStarts (.aware start) (.aware stop) period := by
  by_cases hbefore : Representable (b - period.length)
  · rw [utc_add_eq_ok hbefore, Result.ok_bind, ← sub_eq_add_neg]
    by_cases hleft : StepsRepresentable start (b - period.length) period
    · rw [hleft.barStarts_eq_ok, Result.ok_bind]
      by_cases hright : StepsRepresentable b stop period
      · have hwhole := (StepsRepresentable.iff_parts hb hstart hstop).mpr ⟨hbefore, hleft, hright⟩
        rw [hright.barStarts_eq_ok, hwhole.barStarts_eq_ok, Result.ok_bind,
          barStarts_append hb hstart hstop]
        rfl
      · rw [utc_barStarts_eq_error hright, utc_barStarts_eq_error fun h =>
          hright ((StepsRepresentable.iff_parts hb hstart hstop).mp h).2.2]
        rfl
    · rw [utc_barStarts_eq_error hleft, utc_barStarts_eq_error fun h =>
        hleft ((StepsRepresentable.iff_parts hb hstart hstop).mp h).2.1]
      rfl
  · rw [utc_add_eq_error hbefore, utc_barStarts_eq_error fun h =>
      hbefore ((StepsRepresentable.iff_parts hb hstart hstop).mp h).1]
    rfl

/-- A range is within the years where it is a period away from the last one, and its first
boundary's predecessor is not before the first one. -/
theorem StepsRepresentable.of_margin (hfloor : minInstant ≤ floorToPeriod start period)
    (hstart : start + period.length ≤ maxInstant) (hstop : stop + period.length ≤ maxInstant) :
    StepsRepresentable start stop period := by
  have hpos := period.pos
  have hle : floorToPeriod start period ≤ start := Grid.floor_le hpos start
  refine ⟨⟨hfloor, by omega⟩, ?_, fun t ht => ?_⟩
  · unfold firstBoundary
    split
    · exact ⟨by omega, by omega⟩
    · exact ⟨hfloor, by omega⟩
  · obtain ⟨hlo, hhi, -⟩ := mem_barStarts.mp ht
    exact ⟨by omega, by omega⟩

/-- **`bar_starts` lists exactly the boundaries of a range**, in their order, when every
step that it takes is representable, and raises when one is not. An instant is rounded
down to the greatest boundary up to it, where that is representable. A range that is cut
at a boundary is listed in two parts. -/
theorem boundaries_listed (start stop : ℤ) (period : Period) :
    (StepsRepresentable start stop period → ListsBoundaries start stop period) ∧
      (¬ StepsRepresentable start stop period →
        Utc.barStarts (.aware start) (.aware stop) period = .error .overflowError) ∧
      (∀ ts, ∃ floor, IsGreatest {b | period.length ∣ b ∧ b ≤ ts} floor ∧
        Utc.floorToPeriod (.aware ts) period =
          if Representable floor then .ok floor else .error .overflowError) ∧
      ∀ b, period.length ∣ b → start < b → b < stop →
        (do
          let before ← Utc.add b (-period.length)
          let left ← Utc.barStarts (.aware start) (.aware before) period
          let right ← Utc.barStarts (.aware b) (.aware stop) period
          return left ++ right) = Utc.barStarts (.aware start) (.aware stop) period :=
  ⟨fun h => ⟨_, h.barStarts_eq_ok, barStarts_pairwise, fun _ => mem_barStarts⟩,
    utc_barStarts_eq_error,
    fun ts => ⟨_, floorToPeriod_isGreatest ts period, utc_floorToPeriod ts period⟩,
    fun _ => utc_barStarts_cut⟩

namespace BarStarts

/-- The first instant of the last day, the last of December of 9999. -/
def lastDay : ℤ := 253402214400000000

/-- A day is a period, so that dates can be stepped through like bars. -/
theorem dayLength_pos : 0 < dayLength := by decide

/-- One day. -/
def daily : Period := ⟨dayLength, dayLength_pos⟩

end BarStarts

/-- **The last day of the years is a boundary, and is not listed.** The loop adds one more day to
it before it compares, and that sum is out of range. -/
theorem lastDay_not_listed :
    Representable BarStarts.lastDay ∧ BarStarts.daily.length ∣ BarStarts.lastDay ∧
      ¬ ListsBoundaries BarStarts.lastDay BarStarts.lastDay BarStarts.daily := by
  refine ⟨by decide, by decide, fun ⟨starts, hstarts, _, _⟩ => ?_⟩
  have hover : Utc.barStarts (.aware BarStarts.lastDay) (.aware BarStarts.lastDay) BarStarts.daily
      = .error .overflowError := by
    decide +kernel
  cases hover.symm.trans hstarts

/-- Two days before the epoch and two after it, cut at the epoch. -/
theorem aroundEpoch_listed :
    ListsBoundaries (-2 * dayLength - 1) (2 * dayLength + 1) BarStarts.daily ∧
      (do
        let before ← Utc.add 0 (-dayLength)
        let left ← Utc.barStarts (.aware (-2 * dayLength - 1)) (.aware before) BarStarts.daily
        let right ← Utc.barStarts (.aware 0) (.aware (2 * dayLength + 1)) BarStarts.daily
        return left ++ right) =
          Utc.barStarts (.aware (-2 * dayLength - 1)) (.aware (2 * dayLength + 1))
            BarStarts.daily := by
  obtain ⟨hlists, -, -, hcut⟩ :=
    boundaries_listed (-2 * dayLength - 1) (2 * dayLength + 1) BarStarts.daily
  exact ⟨hlists (.of_margin (by decide) (by decide) (by decide)),
    hcut 0 (Int.dvd_zero _) (by decide) (by decide)⟩
