import Mathlib.Order.Bounds.Basic
import QuantStrategies.Shared.BarStarts

/-!
# The next slot

The slot computations are to return the least slot that is later than an instant. On
a period grid they do. On a listed market the slots are instants too, but they are
compared by what the session's clock shows, and a clock that is changed does not
show instants in their order.

A wall-clock time that a change skips, or shows twice, still is an instant, the one
that the earlier offset gives it, and that instant is the slot.

Both computations step through datetimes, and raise where a step leads out of the
years 1 to 9999: the close of the bar that contains an instant can be beyond the last
year although the slot before it is not, and so can the date of the next session.
`nextApplySlot` and `nextSessionApplySlot` are the same arithmetic on instants
without bounds, and the computations of `Utc` are theirs where every step is
representable.

The conditions name every instant that a computation passes through, because each of them is
an operand of the next step. They are conditions on the arguments, and away from the two
ends of the calendar they hold.
-/

open Datetime

/-! ## The computations on datetimes -/

/-- What the slot computations raise: an offset that is refused, or a step out of the
years. -/
inductive SlotFailure where
  | slot (error : SlotError)
  | boundary (error : BoundaryError)
deriving DecidableEq

namespace Utc

/-- `next_apply_slot`, after `as_utc`. -/
def nextApplySlot (after : ℤ) (period : Period) (offset : ℤ) : Except SlotFailure ℤ :=
  if ¬ (0 ≤ offset ∧ offset < period.length) then
    .error (.slot (.offsetOutOfPeriod period.length offset))
  else Except.mapError .boundary do
    let opening ← floorToPeriod (.aware after) period
    let close ← add opening period.length
    let candidate ← add close (-offset)
    if after < candidate then return candidate else add candidate period.length

/-- `day + timedelta(days=1)`, of a date. -/
def nextDay (day : ℤ) : Except BoundaryError ℤ :=
  if Representable ((day + 1) * dayLength) then .ok (day + 1) else .error .overflowError

/-- The loop over dates of `next_session_apply_slot`, for so many of them: the first
candidate that is after the cursor, by the clock. -/
def sessionLoop (closeTime : TimeOfDay) (offset cursor : ℤ) :
    ℕ → ℤ → Except BoundaryError (Option ℤ)
  | 0, _ => .ok none
  | n + 1, day =>
    if 5 ≤ weekday day then do
      let next ← nextDay day
      sessionLoop closeTime offset cursor n next
    else do
      let candidate ← add (day * dayLength + closeTime.micros) (-offset)
      if cursor < candidate then return some candidate
      else do
        let next ← nextDay day
        sessionLoop closeTime offset cursor n next

/-- `next_session_apply_slot`, after `as_utc`. What the clock shows, and the instant of
what it shows, are sums of datetimes as well. -/
def nextSessionApplySlot (after : ℤ) (closeTime : TimeOfDay) (zone : Zone) (offset : ℤ) :
    Except SlotFailure ℤ :=
  if offset < 0 then .error (.slot (.negativeOffset offset))
  else do
    let cursor ← (add after (zone.utcOffset after)).mapError .boundary
    match ← (sessionLoop closeTime offset cursor 10 (cursor / dayLength)).mapError .boundary with
    | none => .error (.slot (.noSessionClose after))
    | some candidate => (add candidate (-zone.wallOffset candidate)).mapError .boundary

end Utc

/-! ## Least slots -/

variable {after offset t : ℤ} {period : Period} {closeTime : TimeOfDay} {zone : Zone}

/-- The slots on a continuous market: a lead before each boundary. -/
def applySlots (period : Period) (offset : ℤ) : Set ℤ := {t | period.length ∣ t + offset}

/-- The slots of a listed market: a lead before each close from Monday to Friday, on the
clock of its zone. -/
def sessionSlots (closeTime : TimeOfDay) (zone : Zone) (offset : ℤ) : Set ℤ :=
  {t | ∃ day, weekday day < 5 ∧ zone.toUtc (sessionCandidate closeTime offset day) = t}

/-- A computation returns the least of the slots that are later than an instant. -/
def LeastAfter {ε : Type} (slots : Set ℤ) (after : ℤ) (r : Except ε ℤ) : Prop :=
  ∃ t, r = .ok t ∧ IsLeast {t ∈ slots | after < t} t

/-- A wall-clock time is no earlier than another one that is a day or more behind it: no
change of the clock skips more than a day. -/
def Zone.SkipsAtMostADay (zone : Zone) : Prop :=
  ∀ w w', w + dayLength ≤ w' → zone.toUtc w ≤ zone.toUtc w'

/-- The clock tells which slots are still to come. -/
def ClockTells (after : ℤ) (closeTime : TimeOfDay) (zone : Zone) (offset : ℤ) : Prop :=
  ∀ t ∈ sessionSlots closeTime zone offset, after < t ↔
    ∃ day, weekday day < 5 ∧ zone.toUtc (sessionCandidate closeTime offset day) = t ∧
      zone.wall after < sessionCandidate closeTime offset day

/-- The steps that `next_apply_slot` takes lead to representable instants: the opening of
the bar that contains the instant, its close, and the slot of the bar after it where that
of this one is over. -/
structure ApplySteps (after : ℤ) (period : Period) (offset : ℤ) : Prop where
  /-- The bar that contains the instant opens in the calendar. -/
  opening : Representable (floorToPeriod after period)
  /-- It closes in the calendar, too, which is asked although the slot lies before the close. -/
  close : Representable (floorToPeriod after period + period.length)
  /-- Where the slot of this bar is over, that of the next one is in the calendar. -/
  next : floorToPeriod after period + period.length - offset ≤ after →
    Representable (floorToPeriod after period + period.length - offset + period.length)

/-- The first session that is still to come when the clock shows this. -/
def firstSession (closeTime : TimeOfDay) (offset cursor : ℤ) : ℤ :=
  nextWeekday ((cursor - closeTime.micros + offset) / dayLength + 1)

/-- The steps that `next_session_apply_slot` takes lead to representable datetimes: what
the clock shows, the dates up to the first session that is to come, the leads before the
closes of the weekdays among them, and the instant of the last of these. -/
structure SessionSteps (after : ℤ) (closeTime : TimeOfDay) (zone : Zone) (offset : ℤ) :
    Prop where
  /-- What the session's clock shows can be written as a date and a time. -/
  cursor : Representable (zone.wall after)
  /-- The loop looks at each date up to the session that it ends with, and the midnight of each
  is computed. -/
  dates : ∀ d, zone.wall after / dayLength < d → d ≤ firstSession closeTime offset
    (zone.wall after) → Representable (d * dayLength)
  /-- On a weekday the close less the lead is computed, and it may belong to the date before. -/
  candidates : ∀ d, zone.wall after / dayLength ≤ d → d ≤ firstSession closeTime offset
    (zone.wall after) → weekday d < 5 → Representable (sessionCandidate closeTime offset d)
  /-- The wall-clock time that is found is turned into an instant. -/
  slot : Representable
    (zone.toUtc (sessionCandidate closeTime offset (firstSession closeTime offset
      (zone.wall after))))

/-! ## On a period grid -/

/-- **The next apply slot is the least one** after an instant. Either the slot of the bar that
contains the instant is still to come, or it is that of the next bar. -/
theorem nextApplySlot_least (after : ℤ) (period : Period) (h : 0 ≤ offset ∧ offset < period.length) :
    LeastAfter (applySlots period offset) after (nextApplySlot after period offset) := by
  have hfloor : floorToPeriod after period ≤ after := Grid.floor_le period.pos after
  have hnext : after < floorToPeriod after period + period.length :=
    Grid.lt_floor_add period.pos after
  have hdvd : period.length ∣ floorToPeriod after period := Grid.floor_dvd _ _
  have hslot : period.length ∣ floorToPeriod after period + period.length :=
    Int.dvd_add hdvd (Int.dvd_refl _)
  -- a slot after the instant is the lead before a boundary after the period's opening
  have hlate {t : ℤ} (ht : period.length ∣ t + offset) (hafter : after < t) :
      floorToPeriod after period + period.length ≤ t + offset :=
    Grid.add_le_of_lt hdvd ht (by omega)
  rw [nextApplySlot, if_neg (not_not.mpr h)]
  dsimp only
  split
  · next hahead =>
    refine ⟨_, rfl, ⟨?_, hahead⟩, fun t ht => ?_⟩
    · show period.length ∣ _ - offset + offset
      rwa [Int.sub_add_cancel]
    · have := hlate ht.1 ht.2
      omega
  · next hpast =>
    refine ⟨_, rfl, ⟨?_, by omega⟩, fun t ht => ?_⟩
    · show period.length ∣ _ - offset + period.length + offset
      rw [add_right_comm, Int.sub_add_cancel]
      exact Int.dvd_add hslot (Int.dvd_refl _)
    · -- the slot of this period is not after the instant
      have hlt : floorToPeriod after period + period.length < t + offset := by
        have := hlate ht.1 ht.2
        have := ht.2
        omega
      have := Grid.add_le_of_lt hslot ht.1 hlt
      omega

/-- Where every step is representable, the slot is that of the instants. -/
theorem ApplySteps.nextApplySlot_eq (h : ApplySteps after period offset)
    (hoffset : 0 ≤ offset ∧ offset < period.length) :
    Utc.nextApplySlot after period offset = (nextApplySlot after period offset).mapError .slot := by
  have hcandidate : Representable (floorToPeriod after period + period.length + -offset) :=
    h.opening.of_between h.close (by omega) (by omega)
  rw [Utc.nextApplySlot, nextApplySlot, if_neg (not_not.mpr hoffset), if_neg (not_not.mpr hoffset),
    utc_floorToPeriod, if_pos h.opening, Result.ok_bind, utc_add_eq_ok h.close, Result.ok_bind,
    utc_add_eq_ok hcandidate, Result.ok_bind, ← sub_eq_add_neg]
  dsimp only
  split
  · rfl
  · next hpast =>
    rw [utc_add_eq_ok (h.next (not_lt.mp hpast))]
    rfl

/-- Where a step is not, it is an overflow. -/
theorem utc_nextApplySlot_eq_error (h : ¬ ApplySteps after period offset)
    (hoffset : 0 ≤ offset ∧ offset < period.length) :
    Utc.nextApplySlot after period offset = .error (.boundary .overflowError) := by
  rw [Utc.nextApplySlot, if_neg (not_not.mpr hoffset), utc_floorToPeriod]
  by_cases hopening : Representable (floorToPeriod after period)
  · rw [if_pos hopening, Result.ok_bind]
    by_cases hclose : Representable (floorToPeriod after period + period.length)
    · have hcandidate : Representable (floorToPeriod after period + period.length + -offset) :=
        hopening.of_between hclose (by omega) (by omega)
      rw [utc_add_eq_ok hclose, Result.ok_bind, utc_add_eq_ok hcandidate, Result.ok_bind,
        ← sub_eq_add_neg]
      split
      · next hahead => exact absurd ⟨hopening, hclose, fun hle => absurd hle (not_le.mpr hahead)⟩ h
      · rw [utc_add_eq_error fun hnext => h ⟨hopening, hclose, fun _ => hnext⟩]
        rfl
    · rw [utc_add_eq_error hclose]
      rfl
  · rw [if_neg hopening]
    rfl

/-- **The next apply slot is the least one**, of datetimes, exactly when every step to it
is representable. -/
theorem utc_nextApplySlot_least_iff (h : 0 ≤ offset ∧ offset < period.length) :
    LeastAfter (applySlots period offset) after (Utc.nextApplySlot after period offset) ↔
      ApplySteps after period offset := by
  constructor
  · rintro ⟨t, ht, -⟩
    by_contra hsteps
    rw [utc_nextApplySlot_eq_error hsteps h] at ht
    cases ht
  · intro hsteps
    obtain ⟨t, ht, hleast⟩ := nextApplySlot_least after period h
    exact ⟨t, by rw [hsteps.nextApplySlot_eq h, ht]; rfl, hleast⟩

/-! ## On a listed market -/

/-- The first session is later than what the clock shows, and no session of an earlier
date is. -/
theorem firstSession_isLeast (closeTime : TimeOfDay) (offset cursor : ℤ) :
    IsSession closeTime offset cursor (firstSession closeTime offset cursor) ∧
      ∀ e, e < firstSession closeTime offset cursor → ¬ IsSession closeTime offset cursor e :=
  isSession_first cursor

/-- The first session is among the ten dates from that of the cursor on. -/
theorem firstSession_mem_ten (closeTime : TimeOfDay) (h : 0 ≤ offset ∧ offset < dayLength)
    (cursor : ℤ) : cursor / dayLength ≤ firstSession closeTime offset cursor ∧
      firstSession closeTime offset cursor < cursor / dayLength + 10 := by
  have hnonneg := closeTime.nonneg
  have hlt := closeTime.lt_day
  unfold firstSession nextWeekday weekday dayLength at *
  split
  · omega
  · split <;> omega

/-- The first session that the clock has still to come to is among the ten dates that
are looked at. -/
theorem nextSessionApplySlot_eq_first (after : ℤ) (closeTime : TimeOfDay) (zone : Zone)
    (h : 0 ≤ offset ∧ offset < dayLength) :
    nextSessionApplySlot after closeTime zone offset = .ok (zone.toUtc
      (sessionCandidate closeTime offset (firstSession closeTime offset (zone.wall after)))) := by
  have hten := (firstSession_mem_ten closeTime h (zone.wall after)).2
  rw [nextSessionApplySlot, if_neg (not_lt.mpr h.1)]
  dsimp only
  rw [(sessionLoop_ten h.1).mpr ⟨rfl, hten⟩]
  rfl

/-- The loop comes to the first session, where the dates up to it are representable and
the leads before their closes are. -/
theorem utc_sessionLoop_eq_ok {cursor : ℤ} {n : ℕ} {day : ℤ}
    (hfrom : day ≤ firstSession closeTime offset cursor)
    (hto : firstSession closeTime offset cursor < day + n)
    (hdates : ∀ d, day < d → d ≤ firstSession closeTime offset cursor →
      Representable (d * dayLength))
    (hcandidates : ∀ d, day ≤ d → d ≤ firstSession closeTime offset cursor → weekday d < 5 →
      Representable (sessionCandidate closeTime offset d)) :
    Utc.sessionLoop closeTime offset cursor n day =
      .ok (some (sessionCandidate closeTime offset (firstSession closeTime offset cursor))) := by
  obtain ⟨hfirst, hbefore⟩ := firstSession_isLeast closeTime offset cursor
  induction n generalizing day with
  | zero => omega
  | succ n ih =>
    push_cast at hto
    -- a date before the first session is passed over
    have hpass (hne : day ≠ firstSession closeTime offset cursor) :
        (do
          let next ← Utc.nextDay day
          Utc.sessionLoop closeTime offset cursor n next) =
        .ok (some (sessionCandidate closeTime offset
          (firstSession closeTime offset cursor))) := by
      have hlt := lt_of_le_of_ne hfrom hne
      rw [Utc.nextDay, if_pos (hdates (day + 1) (by omega) hlt), Result.ok_bind]
      exact ih hlt (by omega) (fun d hd => hdates d (by omega))
        fun d hd => hcandidates d (by omega)
    rw [Utc.sessionLoop]
    split
    · next hweekend =>
      exact hpass fun h => absurd (h ▸ hfirst.1) (not_lt.mpr hweekend)
    · next hweekday =>
      have hcandidate := hcandidates day le_rfl hfrom (not_le.mp hweekday)
      rw [sessionCandidate, sub_eq_add_neg] at hcandidate
      rw [utc_add_eq_ok hcandidate, Result.ok_bind, ← sub_eq_add_neg]
      split
      · next hlater =>
        have heq : day = firstSession closeTime offset cursor := by
          by_contra hne
          exact hbefore day (lt_of_le_of_ne hfrom hne) ⟨not_le.mp hweekday, hlater⟩
        rw [← heq]
        rfl
      · next hearlier => exact hpass fun h => hearlier (h ▸ hfirst.2)

/-- The loop raises at the first step that is not representable. -/
theorem utc_sessionLoop_eq_error {cursor : ℤ} {n : ℕ} {day : ℤ}
    (hfrom : day ≤ firstSession closeTime offset cursor)
    (hto : firstSession closeTime offset cursor < day + n)
    (h : ¬ ((∀ d, day < d → d ≤ firstSession closeTime offset cursor →
        Representable (d * dayLength)) ∧
      ∀ d, day ≤ d → d ≤ firstSession closeTime offset cursor → weekday d < 5 →
        Representable (sessionCandidate closeTime offset d))) :
    Utc.sessionLoop closeTime offset cursor n day = .error .overflowError := by
  obtain ⟨hfirst, hbefore⟩ := firstSession_isLeast closeTime offset cursor
  induction n generalizing day with
  | zero => omega
  | succ n ih =>
    push_cast at hto
    -- past a date whose own steps are representable, a later one is not
    have hpass (hself : weekday day < 5 → Representable (sessionCandidate closeTime offset day))
        (hne : day ≠ firstSession closeTime offset cursor) :
        (do
          let next ← Utc.nextDay day
          Utc.sessionLoop closeTime offset cursor n next) = .error .overflowError := by
      have hlt := lt_of_le_of_ne hfrom hne
      by_cases hnext : Representable ((day + 1) * dayLength)
      · rw [Utc.nextDay, if_pos hnext, Result.ok_bind]
        refine ih hlt (by omega) fun ⟨hdates, hcandidates⟩ => h ⟨fun d hd hle => ?_,
          fun d hd hle hweekday => ?_⟩
        · obtain rfl | hgt := eq_or_lt_of_le (Int.add_one_le_of_lt hd)
          · exact hnext
          · exact hdates d hgt hle
        · obtain rfl | hgt := eq_or_lt_of_le hd
          · exact hself hweekday
          · exact hcandidates d hgt hle hweekday
      · rw [Utc.nextDay, if_neg hnext]
        rfl
    rw [Utc.sessionLoop]
    split
    · next hweekend =>
      exact hpass (fun hweekday => absurd hweekday (not_lt.mpr hweekend))
        fun heq => absurd (heq ▸ hfirst.1) (not_lt.mpr hweekend)
    · next hweekday =>
      by_cases hcandidate : Representable (sessionCandidate closeTime offset day)
      · have hsum := hcandidate
        rw [sessionCandidate, sub_eq_add_neg] at hsum
        rw [utc_add_eq_ok hsum, Result.ok_bind, ← sub_eq_add_neg]
        have hne : day ≠ firstSession closeTime offset cursor := by
          intro heq
          refine h ⟨fun d hd hle => by omega, fun d hd hle _ => ?_⟩
          rwa [le_antisymm (heq ▸ hle) hd]
        split
        · next hlater =>
          exact absurd ⟨not_le.mp hweekday, hlater⟩ (hbefore day (lt_of_le_of_ne hfrom hne))
        · exact hpass (fun _ => hcandidate) hne
      · rw [sessionCandidate, sub_eq_add_neg] at hcandidate
        rw [utc_add_eq_error hcandidate]
        rfl

/-- Two days after the first one and eleven before the last one, every step to a session
slot is representable. -/
theorem SessionSteps.of_margin (hoffset : 0 ≤ offset ∧ offset < dayLength)
    (hzone : ∀ w, |zone.wallOffset w| < dayLength)
    (hlo : minInstant + 2 * dayLength ≤ zone.wall after)
    (hhi : zone.wall after + 11 * dayLength ≤ maxInstant) :
    SessionSteps after closeTime zone offset := by
  obtain ⟨hfrom, hto⟩ := firstSession_mem_ten closeTime hoffset (zone.wall after)
  have hnonneg := closeTime.nonneg
  have hlt := closeTime.lt_day
  have hchange := abs_lt.mp
    (hzone (sessionCandidate closeTime offset (firstSession closeTime offset (zone.wall after))))
  refine ⟨?_, fun d hd hle => ?_, fun d hd hle _ => ?_, ?_⟩ <;>
    simp only [Representable, dayLength, minInstant, maxInstant, Zone.toUtc, sessionCandidate] at * <;>
    omega

/-- Where every step is representable, the session slot is that of the instants. -/
theorem SessionSteps.nextSessionApplySlot_eq (h : SessionSteps after closeTime zone offset)
    (hoffset : 0 ≤ offset ∧ offset < dayLength) :
    Utc.nextSessionApplySlot after closeTime zone offset =
      (nextSessionApplySlot after closeTime zone offset).mapError .slot := by
  obtain ⟨hfrom, hto⟩ := firstSession_mem_ten closeTime hoffset (zone.wall after)
  have hcursor : Utc.add after (zone.utcOffset after) = .ok (zone.wall after) :=
    utc_add_eq_ok h.cursor
  have hslot := h.slot
  rw [Zone.toUtc, sub_eq_add_neg] at hslot
  rw [nextSessionApplySlot_eq_first after closeTime zone hoffset, Utc.nextSessionApplySlot,
    if_neg (not_lt.mpr hoffset.1), hcursor]
  change (Except.mapError SlotFailure.boundary
    (Utc.sessionLoop closeTime offset (zone.wall after) 10 _) >>= _) = _
  rw [utc_sessionLoop_eq_ok hfrom hto h.dates h.candidates]
  change Except.mapError SlotFailure.boundary (Utc.add _ _) = _
  rw [utc_add_eq_ok hslot, ← sub_eq_add_neg]
  rfl

/-- Where a step is not, it is an overflow. -/
theorem utc_nextSessionApplySlot_eq_error (h : ¬ SessionSteps after closeTime zone offset)
    (hoffset : 0 ≤ offset ∧ offset < dayLength) :
    Utc.nextSessionApplySlot after closeTime zone offset = .error (.boundary .overflowError) := by
  obtain ⟨hfrom, hto⟩ := firstSession_mem_ten closeTime hoffset (zone.wall after)
  rw [Utc.nextSessionApplySlot, if_neg (not_lt.mpr hoffset.1)]
  by_cases hcursor : Representable (zone.wall after)
  · have hadd : Utc.add after (zone.utcOffset after) = .ok (zone.wall after) :=
      utc_add_eq_ok hcursor
    rw [hadd]
    change (Except.mapError SlotFailure.boundary
      (Utc.sessionLoop closeTime offset (zone.wall after) 10 _) >>= _) = _
    by_cases hsteps : (∀ d, zone.wall after / dayLength < d →
        d ≤ firstSession closeTime offset (zone.wall after) → Representable (d * dayLength)) ∧
      ∀ d, zone.wall after / dayLength ≤ d → d ≤ firstSession closeTime offset
        (zone.wall after) → weekday d < 5 → Representable (sessionCandidate closeTime offset d)
    · rw [utc_sessionLoop_eq_ok hfrom hto hsteps.1 hsteps.2]
      change Except.mapError SlotFailure.boundary (Utc.add _ _) = _
      rw [utc_add_eq_error fun hslot => h ⟨hcursor, hsteps.1, hsteps.2, by
        rwa [Zone.toUtc, sub_eq_add_neg]⟩]
      rfl
    · rw [utc_sessionLoop_eq_error hfrom hto hsteps]
      rfl
  · have hadd : Utc.add after (zone.utcOffset after) = .error .overflowError :=
      utc_add_eq_error hcursor
    rw [hadd]
    rfl

/-- Later dates have later slots. -/
theorem Zone.SkipsAtMostADay.slot_mono (hzone : zone.SkipsAtMostADay) {d e : ℤ} (h : d ≤ e) :
    zone.toUtc (sessionCandidate closeTime offset d)
      ≤ zone.toUtc (sessionCandidate closeTime offset e) := by
  obtain rfl | hlt := eq_or_lt_of_le h
  · exact le_refl _
  · refine hzone _ _ ?_
    unfold sessionCandidate dayLength
    omega

/-- **The next session slot is the least one**, of instants, exactly when the clock tells
which slots are still to come. -/
theorem nextSessionApplySlot_least_iff (hzone : zone.SkipsAtMostADay)
    (h : 0 ≤ offset ∧ offset < dayLength) :
    LeastAfter (sessionSlots closeTime zone offset) after
        (nextSessionApplySlot after closeTime zone offset) ↔
      ClockTells after closeTime zone offset := by
  obtain ⟨⟨hweekday, hclock⟩, hfirst⟩ := firstSession_isLeast closeTime offset (zone.wall after)
  rw [LeastAfter, nextSessionApplySlot_eq_first after closeTime zone h]
  set first := firstSession closeTime offset (zone.wall after)
  constructor
  · rintro ⟨t, ht, ⟨-, hafter⟩, hleast⟩
    cases ht
    rintro t ⟨day, hday, rfl⟩
    constructor
    · intro hlater
      have hle := hleast ⟨⟨day, hday, rfl⟩, hlater⟩
      -- a session before the first one has the slot of the first one
      by_cases hbefore : day < first
      · exact ⟨first, hweekday, le_antisymm hle (hzone.slot_mono hbefore.le), hclock⟩
      · refine ⟨day, hday, rfl, lt_of_lt_of_le hclock ?_⟩
        unfold sessionCandidate dayLength
        omega
    · rintro ⟨e, he, heq, hshown⟩
      have hge : first ≤ e := by
        by_contra hlt
        exact hfirst e (not_le.mp hlt) ⟨he, hshown⟩
      exact heq ▸ lt_of_lt_of_le hafter (hzone.slot_mono hge)
  · intro htells
    refine ⟨_, rfl, ⟨⟨first, hweekday, rfl⟩, ?_⟩, ?_⟩
    · exact (htells _ ⟨first, hweekday, rfl⟩).mpr ⟨first, hweekday, rfl, hclock⟩
    · rintro t ⟨hslot, hafter⟩
      obtain ⟨e, he, rfl, hshown⟩ := (htells t hslot).mp hafter
      have hge : first ≤ e := by
        by_contra hlt
        exact hfirst e (not_le.mp hlt) ⟨he, hshown⟩
      exact hzone.slot_mono hge

/-- **The next session slot is the least one**, of datetimes, exactly when every step to
it is representable and the clock tells which slots are still to come. -/
theorem utc_nextSessionApplySlot_least_iff (hzone : zone.SkipsAtMostADay)
    (h : 0 ≤ offset ∧ offset < dayLength) :
    LeastAfter (sessionSlots closeTime zone offset) after
        (Utc.nextSessionApplySlot after closeTime zone offset) ↔
      SessionSteps after closeTime zone offset ∧ ClockTells after closeTime zone offset := by
  rw [← nextSessionApplySlot_least_iff hzone h]
  constructor
  · rintro ⟨t, ht, hleast⟩
    by_cases hsteps : SessionSteps after closeTime zone offset
    · rw [hsteps.nextSessionApplySlot_eq h, Result.mapError_eq_ok] at ht
      exact ⟨hsteps, t, ht, hleast⟩
    · rw [utc_nextSessionApplySlot_eq_error hsteps h] at ht
      cases ht
  · rintro ⟨hsteps, t, ht, hleast⟩
    exact ⟨t, by rw [hsteps.nextSessionApplySlot_eq h, ht]; rfl, hleast⟩

/-- The clock tells the slots to come when each of them is at the offset of the instant,
or further from what the clock shows than the clock is changed between the two. -/
theorem ClockTells.of_far (h : ∀ day, weekday day < 5 →
    zone.wallOffset (sessionCandidate closeTime offset day) = zone.utcOffset after ∨
      |zone.wallOffset (sessionCandidate closeTime offset day) - zone.utcOffset after|
        < |sessionCandidate closeTime offset day - zone.wall after|) :
    ClockTells after closeTime zone offset := by
  have hagree {day : ℤ} (hday : weekday day < 5) :
      after < zone.toUtc (sessionCandidate closeTime offset day) ↔
        zone.wall after < sessionCandidate closeTime offset day := by
    have hfar := h day hday
    unfold Zone.wall Zone.toUtc at *
    rw [lt_abs, abs_lt, abs_lt] at hfar
    omega
  rintro t ⟨day, hday, rfl⟩
  constructor
  · exact fun hafter => ⟨day, hday, rfl, (hagree hday).mp hafter⟩
  · rintro ⟨e, he, heq, hshown⟩
    exact heq ▸ (hagree he).mpr hshown

/-- **Next slots are least** exactly when every step that leads to them is representable
and, for the session slot, the clock tells which slots are still to come. -/
theorem slots_least_iff (after : ℤ) {period : Period} {lead : ℤ}
    (hlead : 0 ≤ lead ∧ lead < period.length) (closeTime : TimeOfDay) {zone : Zone}
    (hzone : zone.SkipsAtMostADay) {offset : ℤ} (hoffset : 0 ≤ offset ∧ offset < dayLength) :
    LeastAfter (applySlots period lead) after (Utc.nextApplySlot after period lead) ∧
        LeastAfter (sessionSlots closeTime zone offset) after
          (Utc.nextSessionApplySlot after closeTime zone offset) ↔
      ApplySteps after period lead ∧ SessionSteps after closeTime zone offset ∧
        ClockTells after closeTime zone offset :=
  and_congr (utc_nextApplySlot_least_iff hlead) (utc_nextSessionApplySlot_least_iff hzone hoffset)

namespace Slots

/-- The night of 29 October 2021, a Friday, on which Amman's clocks went back from one
o'clock to midnight. -/
def turnedBack : ℤ := 18929 * dayLength - 2 * hourPeriod.length

/-- Amman around that night. -/
def amman : Zone where
  utcOffset ts := if ts < turnedBack then 3 * hourPeriod.length else 2 * hourPeriod.length
  wallOffset w :=
    if w < turnedBack + 3 * hourPeriod.length then 3 * hourPeriod.length
    else 2 * hourPeriod.length

/-- The clock of the example is two or three hours ahead, whichever way a wall-clock time is read.
-/
theorem amman_wallOffset (w : ℤ) :
    2 * hourPeriod.length ≤ amman.wallOffset w ∧ amman.wallOffset w ≤ 3 * hourPeriod.length := by
  have hpos := hourPeriod.pos
  simp only [amman]
  split <;> omega

/-- It is changed by an hour, so no day is skipped by it. -/
theorem amman_skipsAtMostADay : amman.SkipsAtMostADay := by
  intro w w' h
  have hday : dayLength = 24 * hourPeriod.length := rfl
  have hpos := hourPeriod.pos
  have hw := amman_wallOffset w
  have hw' := amman_wallOffset w'
  unfold Zone.toUtc
  omega

/-- A close at 0:35. -/
def pastMidnight : TimeOfDay := ⟨35 * minutePeriod.length, by decide, by decide⟩

end Slots

/-- **The clock shows a time again.** At the second ten past midnight the slot of half
past is still to come by the clock, and it is over since forty minutes. -/
theorem slot_in_the_past : ¬ ∀ (after : ℤ) (period : Period) (lead : ℤ) (closeTime : TimeOfDay)
    (zone : Zone) (offset : ℤ), 0 ≤ lead ∧ lead < period.length → zone.SkipsAtMostADay →
      0 ≤ offset ∧ offset < dayLength →
        LeastAfter (applySlots period lead) after (Utc.nextApplySlot after period lead) ∧
          LeastAfter (sessionSlots closeTime zone offset) after
            (Utc.nextSessionApplySlot after closeTime zone offset) := by
  intro h
  obtain ⟨t, ht, hleast⟩ := (h (Slots.turnedBack + 10 * minutePeriod.length) hourPeriod 0
    Slots.pastMidnight Slots.amman (5 * minutePeriod.length) (by decide)
    Slots.amman_skipsAtMostADay (by decide)).2
  have hslot : Utc.nextSessionApplySlot (Slots.turnedBack + 10 * minutePeriod.length)
      Slots.pastMidnight Slots.amman (5 * minutePeriod.length)
        = .ok (Slots.turnedBack - 30 * minutePeriod.length) := by
    decide +kernel
  cases ht.symm.trans hslot
  exact absurd hleast.1.2 (by decide)

/-- At noon of the day before, both slots are the least. -/
theorem noon_slots_least :
    LeastAfter (applySlots hourPeriod 0) (Slots.turnedBack - 13 * hourPeriod.length)
        (Utc.nextApplySlot (Slots.turnedBack - 13 * hourPeriod.length) hourPeriod 0) ∧
      LeastAfter (sessionSlots Slots.pastMidnight Slots.amman (5 * minutePeriod.length))
        (Slots.turnedBack - 13 * hourPeriod.length)
        (Utc.nextSessionApplySlot (Slots.turnedBack - 13 * hourPeriod.length) Slots.pastMidnight
          Slots.amman (5 * minutePeriod.length)) := by
  refine (slots_least_iff (Slots.turnedBack - 13 * hourPeriod.length) (by decide)
    Slots.pastMidnight Slots.amman_skipsAtMostADay (by decide)).mpr
      ⟨⟨by decide, by decide, fun _ => by decide⟩,
        .of_margin (by decide) (fun w => ?_) (by decide +kernel) (by decide +kernel),
        .of_far fun day _ => ?_⟩
  · have hchange := Slots.amman_wallOffset w
    rw [abs_lt]
    simp only [dayLength, hourPeriod] at *
    omega
  -- the slots are at thirty minutes past midnight, and the clock is changed by an hour
  have hwall : Slots.amman.wall (Slots.turnedBack - 13 * hourPeriod.length)
      = 18928 * dayLength + 12 * hourPeriod.length := by decide +kernel
  have hoff : Slots.amman.utcOffset (Slots.turnedBack - 13 * hourPeriod.length)
      = 3 * hourPeriod.length := by decide +kernel
  have hcandidate : sessionCandidate Slots.pastMidnight (5 * minutePeriod.length) day
      = day * dayLength + 30 * minutePeriod.length := Int.add_sub_assoc _ _ _
  rw [hwall, hoff, hcandidate]
  refine .inr ?_
  have hchange := Slots.amman_wallOffset (day * dayLength + 30 * minutePeriod.length)
  rw [lt_abs, abs_lt, abs_lt]
  simp only [dayLength, hourPeriod, minutePeriod] at *
  omega
