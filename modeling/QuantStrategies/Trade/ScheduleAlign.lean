import QuantStrategies.Shared.Intervals

/-!
# Seeding a schedule and advancing it

A schedule's cursor is set in two places. Creating or re-enabling a deployment
*seeds* it: `compute_initial_scheduled_ts` takes the next slot before a close.
Applying a due row *advances* it: the due query adds the period to the slot, and
the tick stores the sum. The two are in different languages, and the claim that
they generate the same slots is about every slot and every number of advances.

On a continuous market, and for a cadence shorter than a day, they do. On a
listed market with a daily session the advance is blind to what the seeding
knows: the weekend, and the clock changes of the session's zone. There the two
agree exactly when the days to the next session, less the change of the zone's
offset, make up the period.

Slots are instants without bounds here. The seeding of the program raises where a step
leads out of the years 1 to 9999, and below that range's end it is this one
(`ApplySteps.nextApplySlot_eq`, `SessionSteps.nextSessionApplySlot_eq`). The advance is added up by
the database, whose timestamps go on.

The two ways are compared by the whole sequences that they generate, from any seed and for
any number of advances, and the corrected statement says for which schedules the sequences
are one. Nothing is said of a schedule whose first slot cannot be computed: there is none to
advance.
-/

/-- The calendar of a listing venue: no close (a market that never closes), or
a close in a zone. -/
inductive Market where
  | continuous
  | session (closeTime : TimeOfDay) (zone : Zone)

/-- What the reference data says about a deployment's schedule: the cadence, the
lead of its app, and the calendar of its product's listing venue. -/
structure Schedule where
  /-- How often it trades. -/
  period : Period
  /-- How long before the close. -/
  offset : ℤ
  /-- The hours of the market that its product is listed on. -/
  market : Market

/-- Next apply: the lead before the bar, or the session, closes. -/
def computeInitialScheduledTs (c : Schedule) (after : ℤ) : Except SlotError ℤ :=
  match c.market with
  | .continuous => nextApplySlot after c.period c.offset
  | .session closeTime zone =>
      if dayLength ≤ c.period.length then nextSessionApplySlot after closeTime zone c.offset
      else nextApplySlot after c.period c.offset

/-- `NEXT_SCHEDULED_TS` of the due query, which the tick stores. -/
def nextScheduledTs (c : Schedule) (scheduledTs : ℤ) : ℤ := scheduledTs + c.period.length

/-- The cursor after so many advances. -/
def cursorAfter (c : Schedule) (scheduledTs : ℤ) : ℕ → ℤ
  | 0 => scheduledTs
  | n + 1 => nextScheduledTs c (cursorAfter c scheduledTs n)

variable {c : Schedule} {after s : ℤ}

/-- **On a period grid the two agree.** The slot after a slot is one period later. So a cursor
that is advanced by periods stays on the slots that a fresh computation would give. -/
theorem nextApplySlot_advance {period : Period} {offset : ℤ}
    (h : nextApplySlot after period offset = .ok s) :
    nextApplySlot s period offset = .ok (s + period.length) := by
  have hp := period.pos
  unfold nextApplySlot at h ⊢
  split at h
  · exact absurd h (by simp)
  rename_i hrange
  rw [if_neg hrange]
  obtain ⟨h0, hlt⟩ := not_not.mp hrange
  -- the slot is the lead before a boundary `b`
  obtain ⟨b, hb, rfl⟩ : ∃ b, period.length ∣ b ∧ s = b - offset := by
    have hd : period.length ∣ floorToPeriod after period + period.length :=
      Int.dvd_add (Grid.floor_dvd _ _) (Int.dvd_refl _)
    simp only at h
    split at h
    · exact ⟨_, hd, (Except.ok.inj h).symm⟩
    · exact ⟨_, Int.dvd_add hd (Int.dvd_refl _), by rw [← Except.ok.inj h]; ring⟩
  simp only
  rcases eq_or_lt_of_le h0 with rfl | hpos
  · have hfloor : floorToPeriod (b - 0) period = b := by
      rw [sub_zero]
      exact Grid.floor_of_dvd hb
    rw [hfloor, if_pos (by omega)]
    ring_nf
  · have hfloor : floorToPeriod (b - offset) period = b - period.length := by
      have h1 := Grid.floor_le hp (b - offset)
      have h2 := Grid.lt_floor_add hp (b - offset)
      have h3 := Grid.le_floor hp (Int.dvd_sub hb (Int.dvd_refl _)) (t := b - offset) (by omega)
      have h4 := Grid.floor_dvd period.length (b - offset)
      unfold floorToPeriod
      by_contra hne
      have h5 := Grid.add_le_of_lt (Int.dvd_sub hb (Int.dvd_refl period.length)) h4 (by omega)
      omega
    rw [hfloor, if_neg (by omega)]
    ring_nf

/-! ## Listed sessions -/

/-- How far past its own wall-clock time the zone's clock stands at a session's
slot. It is zero unless that wall time is skipped by a clock change. -/
def skipped (closeTime : TimeOfDay) (zone : Zone) (offset day : ℤ) : ℤ :=
  zone.wall (zone.toUtc (sessionCandidate closeTime offset day))
    - sessionCandidate closeTime offset day

/-- The date of the first Monday to Friday session after a session's slot: the
next weekday, unless a clock change skips a day or more. -/
def nextSessionDay (closeTime : TimeOfDay) (zone : Zone) (offset day : ℤ) : ℤ :=
  nextWeekday (day + skipped closeTime zone offset day / dayLength + 1)

/-- **When an advance is a seeded slot.** On a continuous market, or below a day,
always. On a listed daily session: the days from the slot's session to the next
weekday session, less the change of the zone's offset from UTC between the two,
are the period; and the lead is short enough for the next session to be among
the ten dates that are looked at. -/
def AdvanceAgrees (c : Schedule) (s : ℤ) : Prop :=
  match c.market with
  | .continuous => True
  | .session closeTime zone => dayLength ≤ c.period.length →
      ∀ day, weekday day < 5 → zone.toUtc (sessionCandidate closeTime c.offset day) = s →
        (nextSessionDay closeTime zone c.offset day - day) * dayLength
            - (zone.wallOffset (sessionCandidate closeTime c.offset
                (nextSessionDay closeTime zone c.offset day))
              - zone.wallOffset (sessionCandidate closeTime c.offset day)) = c.period.length ∧
          nextSessionDay closeTime zone c.offset day < zone.wall s / dayLength + 10

/-- The first session after a slot's wall-clock time is the next session of its
date. -/
theorem nextSessionDay_eq {closeTime : TimeOfDay} {zone : Zone} {offset day : ℤ}
    (hs : zone.toUtc (sessionCandidate closeTime offset day) = s) :
    nextWeekday ((zone.wall s - closeTime.micros + offset) / dayLength + 1)
      = nextSessionDay closeTime zone offset day := by
  unfold nextSessionDay skipped
  rw [hs]
  congr 1
  have hdist : zone.wall s - closeTime.micros + offset
      = (zone.wall s - sessionCandidate closeTime offset day) + dayLength * day := by
    unfold sessionCandidate
    ring
  rw [hdist, Int.add_mul_ediv_left _ _ (by decide)]
  ring

/-- The slot of a later session is a period away exactly when the days between,
less the change of offset, are the period. -/
theorem toUtc_sub {closeTime : TimeOfDay} {zone : Zone} {offset day day' : ℤ} :
    zone.toUtc (sessionCandidate closeTime offset day')
        - zone.toUtc (sessionCandidate closeTime offset day)
      = (day' - day) * dayLength - (zone.wallOffset (sessionCandidate closeTime offset day')
          - zone.wallOffset (sessionCandidate closeTime offset day)) := by
  unfold Zone.toUtc sessionCandidate
  ring

/-- **One advance from a seeded slot.** -/
theorem computeInitial_advance_iff (h : computeInitialScheduledTs c after = .ok s) :
    computeInitialScheduledTs c s = .ok (nextScheduledTs c s) ↔ AdvanceAgrees c s := by
  unfold computeInitialScheduledTs AdvanceAgrees nextScheduledTs at *
  cases hm : c.market with
  | continuous =>
    simp only [hm] at h ⊢
    exact iff_of_true (nextApplySlot_advance h) trivial
  | session closeTime zone =>
    simp only [hm] at h ⊢
    by_cases hday : dayLength ≤ c.period.length
    · simp only [if_pos hday] at h ⊢
      simp only [hday, true_implies]
      unfold nextSessionApplySlot at h ⊢
      split at h
      · exact absurd h (by simp)
      rename_i hoffset
      rw [if_neg hoffset]
      -- the slot belongs to a weekday's session
      obtain ⟨d, hd, hs⟩ : ∃ d, weekday d < 5 ∧
          zone.toUtc (sessionCandidate closeTime c.offset d) = s := by
        simp only at h
        split at h
        · exact absurd h (by simp)
        · rename_i d hd
          exact ⟨d, (sessionLoop_eq_some.mp hd).2.2.1.1, Except.ok.inj h⟩
      simp only
      constructor
      · intro hnext day _ hday'
        split at hnext
        · exact absurd hnext (by simp)
        · rename_i e he
          obtain ⟨rfl, hten⟩ := (sessionLoop_ten (not_lt.mp hoffset)).mp he
          have hslot := Except.ok.inj hnext
          rw [nextSessionDay_eq hday'] at hslot hten
          refine ⟨?_, hten⟩
          rw [← toUtc_sub, hslot, hday']
          ring
      · intro hagrees
        obtain ⟨hspan, hten⟩ := hagrees d hd hs
        rw [← nextSessionDay_eq hs] at hspan hten
        rw [(sessionLoop_ten (not_lt.mp hoffset)).mpr ⟨rfl, hten⟩]
        rw [← toUtc_sub, hs] at hspan
        simp only [Except.ok.injEq]
        omega
    · simp only [if_neg hday] at h ⊢
      simp only [hday, false_implies, iff_true]
      exact nextApplySlot_advance h

/-- **Advancing and seeding agree, slot by slot.** From a seeded slot, any number
of advances give the slots that seeding gives, one from the other, exactly when
each of the slots advanced from meets the condition. -/
theorem cursorAfter_seeded_iff (h : computeInitialScheduledTs c after = .ok s) (n : ℕ) :
    (∀ i < n, computeInitialScheduledTs c (cursorAfter c s i) = .ok (cursorAfter c s (i + 1)))
      ↔ ∀ i < n, AdvanceAgrees c (cursorAfter c s i) := by
  induction n with
  | zero => simp
  | succ n ih =>
    rw [Nat.forall_lt_succ_right, Nat.forall_lt_succ_right, ih]
    refine and_congr_right (fun hagrees => ?_)
    -- the cursor after `n` advances is itself a seeded slot
    obtain ⟨a, ha⟩ : ∃ a, computeInitialScheduledTs c a = .ok (cursorAfter c s n) := by
      cases n with
      | zero => exact ⟨after, h⟩
      | succ m => exact ⟨_, ih.mpr hagrees m (Nat.lt_succ_self m)⟩
    exact computeInitial_advance_iff ha

/-! ## A daily session -/

/-- Four in the afternoon. -/
def fourPm : TimeOfDay := ⟨57600000000, by decide, by decide⟩

/-- A daily cadence, five minutes before a four o'clock close, in a zone that
stays at UTC. -/
def dailySession : Schedule :=
  ⟨⟨dayLength, by decide⟩, 300000000, .session fourPm ⟨fun _ => 0, fun _ => 0⟩⟩

/-- The slot of a date of the daily session. -/
def dailySlot (day : ℤ) : ℤ := day * dayLength + 57600000000 - 300000000

/-- **The weekend parts them.** Friday's slot advances to Saturday, and seeding
after it gives Monday's. -/
theorem friday_advances_to_saturday :
    ¬ ∀ (c : Schedule) (after s : ℤ), computeInitialScheduledTs c after = .ok s →
      computeInitialScheduledTs c s = .ok (nextScheduledTs c s) := by
  intro h
  have hfriday : computeInitialScheduledTs dailySession dayLength = .ok (dailySlot 1) := by
    decide +kernel
  exact absurd (h _ _ _ hfriday) (by decide +kernel)

/-- Monday's slot is a seeded one, and four advances from it agree with the seeding
rule. -/
theorem monday_to_friday :
    computeInitialScheduledTs dailySession (4 * dayLength) = .ok (dailySlot 4) ∧
    ∀ i < 4, AdvanceAgrees dailySession (cursorAfter dailySession (dailySlot 4) i) := by
  have hmonday : computeInitialScheduledTs dailySession (4 * dayLength) = .ok (dailySlot 4) := by
    decide +kernel
  exact ⟨hmonday, (cursorAfter_seeded_iff hmonday 4).mp (by decide +kernel)⟩
