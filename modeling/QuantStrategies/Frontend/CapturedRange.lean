import QuantStrategies.Strategy.ExchangeSeries

/-!
# The captured range, as the form predicts it

The form offers the window that the captured series of a run can serve, and lets
the user run within it. It reads the oldest and the newest stored bar of each series
as texts, takes a series for a daily one when both fall on midnight, and compares
texts. The server compares instants, with one bar of slack at the end.

The two agree on the start. At the end, the form gives what it takes for a daily
series one day, whatever the length of its bars.

The texts are modelled by what the form makes of them, a day or a minute of one (`Stamp`),
with the order of their texts and the instant that the server reads in them. The two orders
differ in one place only: a date comes before every minute of its day as a text, and is its
first minute as an instant.
-/

namespace Frontend

/-- One minute. -/
def minuteLength : ℤ := 60000000

/-! ## Stamps -/

/-- A date, or a date with a time to the minute, as the inputs of the form write them
and the form trims the timestamps that it is served. -/
inductive Stamp where
  | day (d : ℤ)
  | minute (d : ℤ) (m : Fin 1440)
deriving DecidableEq

namespace Stamp

/-- The place of a stamp in the order of texts. Dates compare as their digits do. A
date is the beginning of each of its minutes, and so comes before them. -/
def textKey : Stamp → ℤ
  | day d => d * 1441
  | minute d m => d * 1441 + 1 + m

instance : Preorder Stamp where
  le a b := a.textKey ≤ b.textKey
  lt a b := a.textKey < b.textKey
  le_refl a := le_refl a.textKey
  le_trans _ _ _ := le_trans
  lt_iff_le_not_ge _ _ := lt_iff_le_not_ge

instance (a b : Stamp) : Decidable (a ≤ b) := inferInstanceAs (Decidable (a.textKey ≤ b.textKey))

instance (a b : Stamp) : Decidable (a < b) := inferInstanceAs (Decidable (a.textKey < b.textKey))

/-- `pd.Timestamp(text, tz="UTC")`. -/
def instant : Stamp → ℤ
  | day d => d * dayLength
  | minute d m => d * dayLength + m * minuteLength

end Stamp

/-- The day of an instant. -/
def dayOf (ts : ℤ) : ℤ := ts / dayLength

/-- `isoDate`. -/
def isoDate (ts : ℤ) : Stamp := .day (dayOf ts)

/-- The minute of the day of an instant. -/
def minuteOf (ts : ℤ) : Fin 1440 :=
  ⟨(ts % dayLength / minuteLength).toNat, by unfold dayLength minuteLength; omega⟩

/-- `isoMinute`. -/
def isoMinute (ts : ℤ) : Stamp := .minute (dayOf ts) (minuteOf ts)

/-- `nextDay`, of a date. -/
def nextDay (d : ℤ) : Stamp := .day (d + 1)

/-- `onWholeDay`: hours, minutes and seconds are zero. -/
def onWholeDay (ts : ℤ) : Bool := decide (ts % dayLength / 1000000 = 0)

/-! ## The range of a series -/

/-- The stored window of a series, as it is served. -/
structure Coverage where
  /-- The oldest stored bar, if there is one. -/
  firstBar : Option ℤ
  /-- The newest. -/
  lastBar : Option ℤ

/-- What the form makes of the stored window of a series, or of several. -/
structure CapturedRange where
  /-- The earliest start that it offers. -/
  first : Stamp
  /-- The last day or minute that has a bar. -/
  last : Stamp
  /-- The latest end that it offers. -/
  latestEnd : Stamp
  /-- Whether it takes the series for one of bars within the day. -/
  intraday : Bool
deriving DecidableEq

/-- The range of a series that has bars. -/
def storedRange (firstBar lastBar : ℤ) : CapturedRange :=
  let intraday := !onWholeDay firstBar || !onWholeDay lastBar
  if intraday then ⟨isoMinute firstBar, isoMinute lastBar, isoMinute lastBar, true⟩
  else ⟨isoDate firstBar, isoDate lastBar, nextDay (dayOf lastBar), false⟩

/-- `capturedRange`. -/
def capturedRange (coverage : Coverage) : Option CapturedRange :=
  match coverage.firstBar, coverage.lastBar with
  | some firstBar, some lastBar => some (storedRange firstBar lastBar)
  | _, _ => none

/-- `rangeFits`. -/
def rangeFits (captured : CapturedRange) (start stop : Stamp) : Prop :=
  captured.first ≤ start ∧ stop ≤ captured.latestEnd

instance (captured : CapturedRange) (start stop : Stamp) :
    Decidable (rangeFits captured start stop) := inferInstanceAs (Decidable (_ ∧ _))

/-- One turn of the loop over the ranges. -/
def overlap (acc r : CapturedRange) : CapturedRange where
  first := if acc.first < r.first then r.first else acc.first
  last := if r.last < acc.last then r.last else acc.last
  latestEnd := if r.latestEnd < acc.latestEnd then r.latestEnd else acc.latestEnd
  intraday := if r.intraday then true else acc.intraday

/-- `coverageIntersection`. -/
def coverageIntersection : List CapturedRange → Option CapturedRange
  | [] => none
  | r :: ranges =>
    let acc := ranges.foldl overlap r
    if acc.last < acc.first then none else some acc

/-- The coverage of a series that the server reports. -/
def coverageOf (db : PriceBar) (s : Series) : Coverage :=
  match db.getCoverage s with
  | some (firstBar, lastBar) => ⟨some firstBar, some lastBar⟩
  | none => ⟨none, none⟩

/-- The window that the form takes a run over the series to have, or none while a
series is empty or the windows do not meet. -/
def captured (db : PriceBar) (series : List Series) : Option CapturedRange :=
  let ranges := series.map (fun s => capturedRange (coverageOf db s))
  if none ∈ ranges then none else coverageIntersection (ranges.filterMap id)

/-! ## Texts and instants -/

/-- Texts in order name instants in order. -/
theorem Stamp.instant_mono {a b : Stamp} (h : a ≤ b) : a.instant ≤ b.instant := by
  change a.textKey ≤ b.textKey at h
  unfold textKey at h
  unfold instant dayLength minuteLength
  cases a with
  | day d => cases b <;> dsimp only at h ⊢ <;> omega
  | minute d m => cases b <;> dsimp only at h ⊢ <;> omega

/-- Both bounds fall on midnight. -/
def AtMidnight (b : ℤ × ℤ) : Prop := dayLength ∣ b.1 ∧ dayLength ∣ b.2

instance (b : ℤ × ℤ) : Decidable (AtMidnight b) := inferInstanceAs (Decidable (_ ∧ _))

/-- Both bounds fall on whole minutes. -/
def OnMinutes (b : ℤ × ℤ) : Prop := minuteLength ∣ b.1 ∧ minuteLength ∣ b.2

/-- Trimmed to the minute, an instant on a whole minute is read as itself. -/
theorem instant_isoMinute {t : ℤ} (h : minuteLength ∣ t) : (isoMinute t).instant = t := by
  unfold isoMinute minuteOf dayOf Stamp.instant dayLength minuteLength at *
  dsimp only
  omega

/-- Trimmed to the day, an instant at midnight is read as itself. -/
theorem instant_isoDate {t : ℤ} (h : dayLength ∣ t) : (isoDate t).instant = t := by
  unfold isoDate dayOf Stamp.instant dayLength at *
  dsimp only
  omega

/-- On whole minutes, the form's test for midnight is midnight. -/
theorem onWholeDay_iff {t : ℤ} (h : minuteLength ∣ t) : onWholeDay t = true ↔ dayLength ∣ t := by
  unfold onWholeDay
  rw [decide_eq_true_iff]
  unfold dayLength minuteLength at *
  omega

/-- A series is taken for a daily one when both its bounds are on midnight. -/
theorem storedRange_daily {b : ℤ × ℤ} (h : OnMinutes b) (hm : AtMidnight b) :
    storedRange b.1 b.2 = ⟨isoDate b.1, isoDate b.2, nextDay (dayOf b.2), false⟩ := by
  unfold storedRange
  rw [(onWholeDay_iff h.1).mpr hm.1, (onWholeDay_iff h.2).mpr hm.2]
  rfl

/-- With a bound off midnight it is taken for an intraday one. -/
theorem storedRange_intraday {b : ℤ × ℤ} (h : OnMinutes b) (hm : ¬ AtMidnight b) :
    storedRange b.1 b.2 = ⟨isoMinute b.1, isoMinute b.2, isoMinute b.2, true⟩ := by
  have hoff : (!onWholeDay b.1 || !onWholeDay b.2) = true := by
    by_contra hno
    simp only [Bool.or_eq_true, Bool.not_eq_true', not_or, Bool.not_eq_false] at hno
    exact hm ⟨(onWholeDay_iff h.1).mp hno.1, (onWholeDay_iff h.2).mp hno.2⟩
  unfold storedRange
  exact if_pos hoff

/-- The first bar, as the range has it. -/
theorem instant_first {b : ℤ × ℤ} (h : OnMinutes b) :
    (storedRange b.1 b.2).first.instant = b.1 := by
  by_cases hm : AtMidnight b
  · rw [storedRange_daily h hm]
    exact instant_isoDate hm.1
  · rw [storedRange_intraday h hm]
    exact instant_isoMinute h.1

/-- The latest end: a day after the last bar of what is taken for a daily series, and
the last bar of another. -/
theorem instant_latestEnd {b : ℤ × ℤ} (h : OnMinutes b) :
    (storedRange b.1 b.2).latestEnd.instant = if AtMidnight b then b.2 + dayLength else b.2 := by
  by_cases hm : AtMidnight b
  · have hlast : dayOf b.2 * dayLength = b.2 := instant_isoDate hm.2
    rw [storedRange_daily h hm, if_pos hm]
    change (dayOf b.2 + 1) * dayLength = b.2 + dayLength
    rw [add_mul, one_mul, hlast]
  · rw [storedRange_intraday h hm, if_neg hm]
    exact instant_isoMinute h.2

/-- One range begins after another ends, as their texts compare: on one midnight, a
minute comes after its date. -/
def Apart (a b : ℤ × ℤ) : Prop := b.2 < a.1 ∨ b.2 = a.1 ∧ ¬ AtMidnight a ∧ AtMidnight b

/-- One stored range is before another, for the form, exactly when it is in time, where the bars
are on whole minutes. -/
theorem last_lt_first {a b : ℤ × ℤ} (ha : OnMinutes a) (hb : OnMinutes b) :
    (storedRange b.1 b.2).last < (storedRange a.1 a.2).first ↔ Apart a b := by
  change (storedRange b.1 b.2).last.textKey < (storedRange a.1 a.2).first.textKey ↔ _
  have ha1 := ha.1
  have hb2 := hb.2
  by_cases hma : AtMidnight a
  · have hma1 := hma.1
    by_cases hmb : AtMidnight b
    · have hmb2 := hmb.2
      rw [storedRange_daily ha hma, storedRange_daily hb hmb]
      simp only [Apart, hma, hmb, isoDate, Stamp.textKey, dayOf,
        not_true_eq_false, and_false, or_false, and_true]
      unfold dayLength at *
      omega
    · rw [storedRange_daily ha hma, storedRange_intraday hb hmb]
      simp only [Apart, hma, hmb, isoDate, isoMinute, minuteOf, Stamp.textKey, dayOf,
        and_false, or_false]
      unfold dayLength minuteLength at *
      omega
  · by_cases hmb : AtMidnight b
    · have hmb2 := hmb.2
      rw [storedRange_intraday ha hma, storedRange_daily hb hmb]
      simp only [Apart, hma, hmb, isoDate, isoMinute, minuteOf, Stamp.textKey, dayOf,
        not_false_eq_true, and_true]
      unfold dayLength minuteLength at *
      omega
    · rw [storedRange_intraday ha hma, storedRange_intraday hb hmb]
      simp only [Apart, hma, hmb, isoMinute, minuteOf, Stamp.textKey, dayOf,
        and_false, or_false]
      unfold dayLength minuteLength at *
      omega

/-! ## The ranges of several series -/

/-- The common range: the latest of the starts and the earliest of the ends. -/
structure IsOverlap (ranges : List CapturedRange) (acc : CapturedRange) : Prop where
  /-- No range starts later. -/
  first_le : ∀ r ∈ ranges, r.first ≤ acc.first
  /-- Its start is the start of one of them. -/
  first_mem : ∃ r ∈ ranges, acc.first = r.first
  /-- No range ends earlier. -/
  le_last : ∀ r ∈ ranges, acc.last ≤ r.last
  /-- Its end is the end of one of them. -/
  last_mem : ∃ r ∈ ranges, acc.last = r.last
  /-- No range has an earlier latest end. -/
  le_latestEnd : ∀ r ∈ ranges, acc.latestEnd ≤ r.latestEnd
  /-- Its latest end is that of one of them. -/
  latestEnd_mem : ∃ r ∈ ranges, acc.latestEnd = r.latestEnd

theorem Stamp.le_def {a b : Stamp} : a ≤ b ↔ a.textKey ≤ b.textKey := Iff.rfl

theorem Stamp.lt_def {a b : Stamp} : a < b ↔ a.textKey < b.textKey := Iff.rfl

/-- The later of two stamps is after both, and the earlier before both. -/
theorem Stamp.le_later (a b : Stamp) :
    a ≤ (if a < b then b else a) ∧ b ≤ (if a < b then b else a) := by
  simp only [Stamp.le_def, Stamp.lt_def]
  split
  · next h => exact ⟨h.le, le_rfl⟩
  · next h => exact ⟨le_rfl, not_lt.mp h⟩

@[inherit_doc Stamp.le_later]
theorem Stamp.earlier_le (a b : Stamp) :
    (if b < a then b else a) ≤ a ∧ (if b < a then b else a) ≤ b := by
  simp only [Stamp.le_def, Stamp.lt_def]
  split
  · next h => exact ⟨h.le, le_rfl⟩
  · next h => exact ⟨le_rfl, not_lt.mp h⟩

/-- One turn of the loop takes one more range in. -/
theorem IsOverlap.step {seen : List CapturedRange} {acc : CapturedRange} (h : IsOverlap seen acc)
    (r : CapturedRange) : IsOverlap (seen ++ [r]) (overlap acc r) := by
  have hmem : ∀ {f : CapturedRange → Stamp}, (∃ x ∈ seen, f acc = f x) →
      ∀ p : Prop, [Decidable p] →
      ∃ x ∈ seen ++ [r], (if p then f r else f acc) = f x := by
    rintro f ⟨x, hx, hf⟩ p _
    split
    · exact ⟨r, by simp, rfl⟩
    · exact ⟨x, by simp [hx], hf⟩
  refine ⟨fun x hx => ?_, hmem h.first_mem _, fun x hx => ?_, hmem h.last_mem _, fun x hx => ?_,
    hmem h.latestEnd_mem _⟩
  · rcases List.mem_append.mp hx with hx | hx
    · exact (h.first_le x hx).trans (Stamp.le_later _ _).1
    · exact List.mem_singleton.mp hx ▸ (Stamp.le_later _ _).2
  · rcases List.mem_append.mp hx with hx | hx
    · exact (Stamp.earlier_le _ _).1.trans (h.le_last x hx)
    · exact List.mem_singleton.mp hx ▸ (Stamp.earlier_le _ _).2
  · rcases List.mem_append.mp hx with hx | hx
    · exact (Stamp.earlier_le _ _).1.trans (h.le_latestEnd x hx)
    · exact List.mem_singleton.mp hx ▸ (Stamp.earlier_le _ _).2

/-- **The loop takes every range in.** What is carried along is the overlap of the ranges seen so
far: the latest of their starts and the earliest of their ends. -/
theorem isOverlap_foldl (r : CapturedRange) (ranges : List CapturedRange) :
    IsOverlap (r :: ranges) (ranges.foldl overlap r) := by
  have hfold : ∀ (ranges seen : List CapturedRange) (acc : CapturedRange), IsOverlap seen acc →
      IsOverlap (seen ++ ranges) (ranges.foldl overlap acc) := by
    intro ranges
    induction ranges with
    | nil => simp
    | cons x ranges ih =>
      intro seen acc h
      rw [List.append_cons]
      exact ih _ _ (h.step x)
  refine hfold ranges [r] r ⟨?_, ?_, ?_, ?_, ?_, ?_⟩ <;> simp [Stamp.le_def]

/-- An intersection is a common range that does not end before it begins. -/
theorem coverageIntersection_some {ranges : List CapturedRange} {c : CapturedRange}
    (h : coverageIntersection ranges = some c) : IsOverlap ranges c ∧ ¬ c.last < c.first := by
  cases ranges with
  | nil => cases h
  | cons r ranges =>
    rw [coverageIntersection] at h
    split at h
    · cases h
    · rename_i hlt
      cases h
      exact ⟨isOverlap_foldl r ranges, hlt⟩

/-- Ranges intersect when none begins after another ends. -/
theorem exists_coverageIntersection {ranges : List CapturedRange} (hne : ranges ≠ [])
    (h : ∀ r ∈ ranges, ∀ r' ∈ ranges, ¬ r'.last < r.first) :
    ∃ c, coverageIntersection ranges = some c := by
  cases ranges with
  | nil => exact absurd rfl hne
  | cons r ranges =>
    obtain ⟨-, ⟨x, hx, hfirst⟩, -, ⟨y, hy, hlast⟩, -⟩ := isOverlap_foldl r ranges
    refine ⟨_, if_neg ?_⟩
    rw [hfirst, hlast]
    exact h x hx y hy

/-! ## The prediction -/

variable {intervals : ℕ → Option Period} {period : Period} {db : PriceBar} {series : List Series}

/-- The form's answer is the server's: a range that fits what the series have captured
is not refused, for any of them, for not being spanned. -/
def Agrees (intervals : ℕ → Option Period) (db : PriceBar) (series : List Series) : Prop :=
  ∀ c start stop, captured db series = some c → rangeFits c start stop →
    ∀ s ∈ series, ∀ services app vendorSymbol, app.appId = s.sourceAppId →
      ¬ RefusedForSpan (fetchExchangeDf intervals services db app vendorSymbol s.internalCusip
        s.tmIntervalId start.instant stop.instant)

/-- The bounds for which the form is right: bars of a day or longer; ranges of which one
begins after another ends; or a series with a bound off midnight, whose last bar is at
most one bar later than that of any other. -/
def WithinSlack (period : Period) (bounds : List (ℤ × ℤ)) : Prop :=
  bounds = [] ∨ dayLength ≤ period.length ∨ (∃ a ∈ bounds, ∃ b ∈ bounds, Apart a b) ∨
    ∃ b ∈ bounds, ¬ AtMidnight b ∧ ∀ a ∈ bounds, b.2 ≤ a.2 + period.length

/-- With every series captured, the window is the intersection of their ranges. -/
theorem captured_eq (h : ∀ s ∈ series, db.getCoverage s ≠ none) :
    captured db series = coverageIntersection
      ((series.filterMap db.getCoverage).map (fun b => storedRange b.1 b.2)) := by
  have hmap : series.map (fun s => capturedRange (coverageOf db s))
      = (series.filterMap db.getCoverage).map (fun b => some (storedRange b.1 b.2)) := by
    induction series with
    | nil => rfl
    | cons s series ih =>
      obtain ⟨b, hb⟩ := Option.ne_none_iff_exists'.mp (h s List.mem_cons_self)
      rw [List.map_cons, List.filterMap_cons, hb, List.map_cons,
        ih (fun x hx => h x (List.mem_cons_of_mem s hx)), coverageOf, hb]
      rfl
  unfold captured
  dsimp only
  rw [hmap, if_neg (by simp), List.filterMap_map]
  congr 1
  rw [← List.filterMap_eq_map]
  rfl

/-- With a series that has no bars there is no window. -/
theorem captured_none {s : Series} (hs : s ∈ series) (h : db.getCoverage s = none) :
    captured db series = none := by
  unfold captured
  refine if_pos (List.mem_map.mpr ⟨s, hs, ?_⟩)
  rw [coverageOf, h]
  rfl

/-- The bounds of series whose bars are on whole minutes are on whole minutes. -/
theorem onMinutes_getCoverage (hminute : ∀ s ∈ series, ∀ t, db.Stored s t → minuteLength ∣ t) :
    ∀ b ∈ series.filterMap db.getCoverage, OnMinutes b := by
  rintro ⟨lo, hi⟩ hb
  obtain ⟨s, hs, hcov⟩ := List.mem_filterMap.mp hb
  exact ⟨hminute s hs lo (PriceBar.getCoverage_oldest hcov).1,
    hminute s hs hi (PriceBar.getCoverage_some hcov).1⟩

/-- Where the server refuses no range that fits, the slack of every series is enough. -/
theorem withinSlack_of_agrees (hperiod : ∀ s ∈ series, intervals s.tmIntervalId = some period)
    (hbounds : ∀ b ∈ series.filterMap db.getCoverage, OnMinutes b)
    (hsome : ∀ s ∈ series, db.getCoverage s ≠ none) (h : Agrees intervals db series) :
    WithinSlack period (series.filterMap db.getCoverage) := by
  rw [Agrees, captured_eq hsome] at h
  by_contra hno
  unfold WithinSlack at hno
  simp only [not_or, not_exists, not_and, not_le] at hno
  obtain ⟨hne, hshort, hapart, hlate⟩ := hno
  obtain ⟨c, hc⟩ : ∃ c, coverageIntersection
      ((series.filterMap db.getCoverage).map (fun b => storedRange b.1 b.2)) = some c := by
    refine exists_coverageIntersection (fun hnil => hne (List.map_eq_nil_iff.mp hnil)) ?_
    intro r hr r' hr' hlt
    obtain ⟨a, ha, rfl⟩ := List.mem_map.mp hr
    obtain ⟨b, hb, rfl⟩ := List.mem_map.mp hr'
    exact hapart a ha b hb ((last_lt_first (hbounds a ha) (hbounds b hb)).mp hlt)
  -- the latest end that the window offers is within the slack of every series
  have hend : ∀ b ∈ series.filterMap db.getCoverage,
      c.latestEnd.instant ≤ b.2 + period.length := by
    intro b hb
    obtain ⟨s, hs, hcov⟩ := List.mem_filterMap.mp hb
    by_contra hlt
    exact h c c.first c.latestEnd hc ⟨le_refl _, le_refl _⟩ s hs
      (some fun _ => .ok ()) ⟨s.sourceAppId, ""⟩ (some "") rfl
      (refusedForSpan (hperiod s hs) hcov (Or.inr (not_le.mp hlt)))
  obtain ⟨-, -, -, -, -, r, hr, hlatest⟩ := (coverageIntersection_some hc).1
  obtain ⟨b, hb, rfl⟩ := List.mem_map.mp hr
  rw [hlatest, instant_latestEnd (hbounds b hb)] at hend
  by_cases hm : AtMidnight b
  · have := hend b hb
    rw [if_pos hm] at this
    omega
  · rw [if_neg hm] at hend
    exact hlate b hb hm hend

/-- Where the slack is enough, a range that fits is not refused. -/
theorem agrees_of_withinSlack (hperiod : ∀ s ∈ series, intervals s.tmIntervalId = some period)
    (hbounds : ∀ b ∈ series.filterMap db.getCoverage, OnMinutes b)
    (hsome : ∀ s ∈ series, db.getCoverage s ≠ none)
    (h : WithinSlack period (series.filterMap db.getCoverage)) : Agrees intervals db series := by
  rw [Agrees, captured_eq hsome]
  intro c start stop hc hfits s hs services app vendorSymbol happ
  obtain ⟨b, hcov⟩ := Option.ne_none_iff_exists'.mp (hsome s hs)
  have hb : b ∈ series.filterMap db.getCoverage := List.mem_filterMap.mpr ⟨s, hs, hcov⟩
  have hmem : ∀ b ∈ series.filterMap db.getCoverage, storedRange b.1 b.2 ∈
      (series.filterMap db.getCoverage).map (fun b => storedRange b.1 b.2) :=
    fun b hb => List.mem_map.mpr ⟨b, hb, rfl⟩
  obtain ⟨hoverlap, horder⟩ := coverageIntersection_some hc
  have hstart : b.1 ≤ start.instant := by
    rw [← instant_first (hbounds b hb)]
    exact Stamp.instant_mono (le_trans (hoverlap.first_le _ (hmem b hb)) hfits.1)
  have hstop : ∀ b' ∈ series.filterMap db.getCoverage,
      stop.instant ≤ if AtMidnight b' then b'.2 + dayLength else b'.2 := by
    intro b' hb'
    rw [← instant_latestEnd (hbounds b' hb')]
    exact Stamp.instant_mono (le_trans hfits.2 (hoverlap.le_latestEnd _ (hmem b' hb')))
  have htail : stop.instant ≤ b.2 + period.length := by
    have hp := period.pos
    obtain h | h | ⟨a, ha, a', ha', h⟩ | ⟨b', hb', hm, h⟩ := h
    · exact absurd (h ▸ hb) List.not_mem_nil
    · have := hstop b hb
      split at this <;> omega
    · -- windows that do not meet have no intersection
      refine absurd ?_ horder
      exact lt_of_le_of_lt (hoverlap.le_last _ (hmem a' ha')) (lt_of_lt_of_le
        ((last_lt_first (hbounds a ha) (hbounds a' ha')).mpr h)
        (hoverlap.first_le _ (hmem a ha)))
    · have h1 := hstop b' hb'
      rw [if_neg hm] at h1
      have h2 := h b hb
      omega
  obtain ⟨appId, name⟩ := app
  subst happ
  exact not_refusedForSpan (hperiod s hs) ⟨b.1, b.2, hcov, hstart, htail⟩

/-- **When the form agrees with the server.** Either some series has no bar at all, which both
sides see, or the bounds of the captured ranges keep within the slack that the form allows itself.
-/
theorem agrees_iff (hperiod : ∀ s ∈ series, intervals s.tmIntervalId = some period)
    (hminute : ∀ s ∈ series, ∀ t, db.Stored s t → minuteLength ∣ t) :
    Agrees intervals db series ↔ (∃ s ∈ series, db.getCoverage s = none) ∨
      WithinSlack period (series.filterMap db.getCoverage) := by
  by_cases hnone : ∃ s ∈ series, db.getCoverage s = none
  · obtain ⟨s, hs, hcov⟩ := hnone
    refine iff_of_true (fun c start stop hc => ?_) (Or.inl ⟨s, hs, hcov⟩)
    rw [captured_none hs hcov] at hc
    cases hc
  have hsome : ∀ s ∈ series, db.getCoverage s ≠ none := fun s hs h => hnone ⟨s, hs, h⟩
  have hbounds := onMinutes_getCoverage hminute
  rw [or_iff_right hnone]
  exact ⟨withinSlack_of_agrees hperiod hbounds hsome, agrees_of_withinSlack hperiod hbounds hsome⟩

/-- Of one series the window is the range of the series itself. -/
theorem captured_singleton {s : Series} (hminute : ∀ t, db.Stored s t → minuteLength ∣ t) :
    captured db [s] = capturedRange (coverageOf db s) := by
  cases hcov : db.getCoverage s with
  | none =>
    rw [captured_none List.mem_cons_self hcov, coverageOf, hcov]
    rfl
  | some b =>
    obtain ⟨lo, hi⟩ := b
    have hlo := PriceBar.getCoverage_oldest hcov
    have hhi := PriceBar.getCoverage_some hcov
    have hb : OnMinutes (lo, hi) := ⟨hminute lo hlo.1, hminute hi hhi.1⟩
    have hmeet : ¬ (storedRange lo hi).last < (storedRange lo hi).first := by
      rw [last_lt_first (a := (lo, hi)) (b := (lo, hi)) hb hb]
      rintro (hlt | ⟨-, hno, hyes⟩)
      · exact absurd (hlo.2 hi hhi.1) (not_le.mpr hlt)
      · exact hno hyes
    rw [captured_eq (by simp [hcov]), coverageOf, hcov, List.filterMap_cons, hcov]
    exact if_neg hmeet

namespace Agrees

/-- An hourly series, from the hour `lo` to the hour `hi`. -/
def hourly (lo hi : ℕ) : List PriceBarRow :=
  (List.range (hi + 1 - lo)).map
    (fun n => ⟨minuteSeries, ⟨((lo + n : ℕ) : ℤ) * 3600000000, 1, 1, 1, 1, 1⟩⟩)

/-- A whole day of hours, from midnight to midnight. -/
def wholeDay : PriceBar := ⟨hourly 0 24, by decide +kernel⟩

/-- The hours from midnight to three. -/
def threeHours : PriceBar := ⟨hourly 0 3, by decide +kernel⟩

/-- From midnight to midnight an hourly series is taken for a daily one, and a day
past its last bar is offered that the server refuses. -/
theorem not_wholeDay : ¬ Agrees (fun _ => some hourPeriod) wholeDay [minuteSeries] := by
  intro h
  have hc : captured wholeDay [minuteSeries] = some ⟨.day 0, .day 1, .day 2, false⟩ := by
    decide +kernel
  refine h _ (.day 0) (.day 2) hc (by decide) minuteSeries List.mem_cons_self
    (some fun _ => .ok ()) ⟨1, "bybit"⟩ (some "BTCUSDT") rfl ?_
  exact ⟨"bybit", "BTC", 0, 86400000000, 0, 172800000000, by decide +kernel⟩

/-- Three hourly bars, on which form and server agree. -/
theorem threeHours_agrees : Agrees (fun _ => some hourPeriod) threeHours [minuteSeries] := by
  have hrows : ∀ k ∈ threeHours.rows.map PriceBarRow.key, minuteLength ∣ k.2 := by decide +kernel
  refine (agrees_iff (fun _ _ => rfl) (fun s _ t ht => hrows (s, t) ht)).mpr (Or.inr ?_)
  exact Or.inr (Or.inr (Or.inr ⟨(0, 10800000000), by decide +kernel, by decide +kernel,
    by decide +kernel⟩))

end Agrees

end Frontend
