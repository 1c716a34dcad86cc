import QuantStrategies.Lib.Result
import QuantStrategies.MarketData.Service

/-!
# The series of an exchange

A backtest on an exchange reads the bars that were captured from it, and only
reads: a range that the store does not span is refused. The refusal looks at the
oldest and the newest stored bar. The head of the range gets no slack, the tail
one bar, as the bar that covers "today" has not closed.

What is stored in between is returned as it is.

`ReadServed` is everything a read needs, and `ReadWhole` what a caller would take it for: a
row for each boundary of the range. Between the two is a hole inside the stored bars, which
the check of the two ends cannot see. The exact condition is stated on what is stored.
-/

/-- What the read raises, with the values its messages name. -/
inductive ExchangeError where
  | noInterval (tmIntervalId : ℕ)
  | noBarSource (app : String)
  | notListed (internalCusip app : String)
  | noVenue (app message : String)
  | notCaptured (app internalCusip : String) (tmIntervalId : ℕ)
  | notSpanned (app internalCusip : String) (firstBar lastBar rangeStart rangeEnd : ℤ)
  | emptyRange (app internalCusip : String) (rangeStart rangeEnd : ℤ)
deriving DecidableEq

/-- What is read of a row of `REFDATA.APP`. -/
structure ExchangeApp where
  /-- The venue, by its number. -/
  appId : ℕ
  /-- And by its name, for the messages. -/
  name : String
deriving DecidableEq

/-- `bar_services.for_app`: whether the app resolves to a venue, or why not. -/
abbrev BarServices := ℕ → Except String Unit

/-- `_interval_period`, of the intervals that the reference data has. -/
def intervalPeriod (intervals : ℕ → Option Period) (tmIntervalId : ℕ) :
    Except ExchangeError Period :=
  match intervals tmIntervalId with
  | some period => .ok period
  | none => .error (.noInterval tmIntervalId)

/-- `stored_bounds`, and the refusal of a range that they do not span. -/
def requireSpan (period : Period) (db : PriceBar) (s : Series) (app : ExchangeApp)
    (rangeStart rangeEnd : ℤ) : Except ExchangeError Unit :=
  match db.getCoverage s with
  | none => .error (.notCaptured app.name s.internalCusip s.tmIntervalId)
  | some (firstBar, lastBar) =>
    let tailLimit := lastBar + period.length
    if rangeStart < firstBar ∨ tailLimit < rangeEnd then
      .error (.notSpanned app.name s.internalCusip firstBar lastBar rangeStart rangeEnd)
    else .ok ()

/-- `read_bars`. The rows come in the order of their timestamps, which is the order
of the frame's index. -/
def readBars (db : PriceBar) (s : Series) (start stop : ℤ) : List OhlcvBar :=
  db.getBars s start stop

/-- `_fetch_exchange_df`, of the instants that the request's texts name. -/
def fetchExchangeDf (intervals : ℕ → Option Period) (services : Option BarServices)
    (db : PriceBar) (app : ExchangeApp) (vendorSymbol : Option String) (internalCusip : String)
    (tmIntervalId : ℕ) (rangeStart rangeEnd : ℤ) : Except ExchangeError (List OhlcvBar) := do
  match services with
  | none => .error (.noBarSource app.name)
  | some forApp =>
    if vendorSymbol = none then .error (.notListed internalCusip app.name)
    else
      let period ← intervalPeriod intervals tmIntervalId
      match forApp app.appId with
      | .error message => .error (.noVenue app.name message)
      | .ok () =>
        let s : Series := ⟨internalCusip, tmIntervalId, app.appId⟩
        let _ ← requireSpan period db s app rangeStart rangeEnd
        match readBars db s rangeStart rangeEnd with
        | [] => .error (.emptyRange app.name internalCusip rangeStart rangeEnd)
        | first :: rest => .ok (first :: rest)

variable {intervals : ℕ → Option Period} {services : Option BarServices} {db : PriceBar}
variable {app : ExchangeApp} {vendorSymbol : Option String} {internalCusip : String}
variable {tmIntervalId : ℕ} {rangeStart rangeEnd : ℤ} {period : Period} {s : Series}

/-! ## What is served -/

/-- The stored bars span the range, up to a bar of slack at its end. -/
def Spans (period : Period) (db : PriceBar) (s : Series) (rangeStart rangeEnd : ℤ) : Prop :=
  ∃ firstBar lastBar, db.getCoverage s = some (firstBar, lastBar) ∧
    firstBar ≤ rangeStart ∧ rangeEnd ≤ lastBar + period.length

/-- **What the refusal checks**: the read goes on exactly when the stored bars span the range, by
their oldest and their newest. -/
theorem requireSpan_ok : requireSpan period db s app rangeStart rangeEnd = .ok () ↔
    Spans period db s rangeStart rangeEnd := by
  unfold requireSpan Spans
  cases db.getCoverage s with
  | none => simp
  | some bounds =>
    obtain ⟨lo, hi⟩ := bounds
    simp only [Option.some.injEq, Prod.mk.injEq]
    by_cases h : rangeStart < lo ∨ hi + period.length < rangeEnd
    · rw [if_pos h]
      simp only [reduceCtorEq, false_iff, not_exists]
      rintro a b ⟨⟨rfl, rfl⟩, h1, h2⟩
      omega
    · rw [if_neg h]
      exact iff_of_true rfl ⟨lo, hi, ⟨rfl, rfl⟩, by omega, by omega⟩

/-- A read is served: everything it needs is there, and the stored bars span the
range and have one in it. -/
structure ReadServed (intervals : ℕ → Option Period) (services : Option BarServices) (db : PriceBar)
    (app : ExchangeApp) (vendorSymbol : Option String) (internalCusip : String)
    (tmIntervalId : ℕ) (rangeStart rangeEnd : ℤ) (period : Period) : Prop where
  /-- The service of the venue is there, and takes the venue. -/
  venue : ∃ forApp, services = some forApp ∧ forApp app.appId = .ok ()
  /-- The venue lists the product. -/
  listed : vendorSymbol ≠ none
  /-- The interval is one of the table. -/
  interval : intervals tmIntervalId = some period
  /-- The stored bars reach from the head of the range to its tail, less a bar. -/
  spans : Spans period db ⟨internalCusip, tmIntervalId, app.appId⟩ rangeStart rangeEnd
  /-- One of them is in the range. -/
  nonempty : ∃ t, db.Stored ⟨internalCusip, tmIntervalId, app.appId⟩ t ∧ rangeStart ≤ t ∧
    t ≤ rangeEnd

/-- **What a served read returns**: the stored bars of the range. Served means that the symbol,
the interval and the stored bounds pass the checks; what lies between the bounds is returned as it
is. -/
theorem fetchExchangeDf_ok {bars : List OhlcvBar} :
    fetchExchangeDf intervals services db app vendorSymbol internalCusip tmIntervalId rangeStart
        rangeEnd = .ok bars ↔
      (∃ period, ReadServed intervals services db app vendorSymbol internalCusip tmIntervalId
        rangeStart rangeEnd period) ∧
      bars = db.getBars ⟨internalCusip, tmIntervalId, app.appId⟩ rangeStart rangeEnd := by
  refine ⟨fun h => ?_, ?_⟩
  · cases services with
    | none => cases h
    | some forApp =>
      unfold fetchExchangeDf at h
      dsimp only at h
      by_cases hvendor : vendorSymbol = none
      · rw [if_pos hvendor] at h
        cases h
      rw [if_neg hvendor] at h
      obtain ⟨period, hperiod, h⟩ := Result.bind_eq_ok.mp h
      cases hvenue : forApp app.appId with
      | error message =>
        rw [hvenue] at h
        cases h
      | ok u =>
        rw [hvenue] at h
        obtain ⟨_, hspan, h⟩ := Result.bind_eq_ok.mp h
        have hinterval : intervals tmIntervalId = some period := by
          unfold intervalPeriod at hperiod
          split at hperiod
          · rename_i heq
            cases hperiod
            exact heq
          · cases hperiod
        unfold readBars at h
        split at h
        · cases h
        · rename_i first rest heq
          cases h
          have hfirst := PriceBar.mem_getBars.mp (heq.symm ▸ List.mem_cons_self)
          exact ⟨⟨period, ⟨⟨forApp, rfl, hvenue⟩, hvendor, hinterval, requireSpan_ok.mp hspan,
            first.barTimestamp, PriceBar.stored_iff_mem_bars.mpr ⟨first, hfirst.1, rfl⟩,
            hfirst.2⟩⟩, heq.symm⟩
  · rintro ⟨⟨period, ⟨forApp, rfl, hvenue⟩, hvendor, hinterval, hspans, t, ht⟩, rfl⟩
    obtain ⟨b, hb, -⟩ := PriceBar.stored_iff_mem_getBars.mpr ht
    unfold fetchExchangeDf
    dsimp only
    rw [if_neg hvendor]
    refine Result.bind_eq_ok.mpr ⟨period, by rw [intervalPeriod, hinterval], ?_⟩
    rw [hvenue]
    refine Result.bind_eq_ok.mpr ⟨(), requireSpan_ok.mpr hspans, ?_⟩
    unfold readBars
    split
    · rename_i heq
      exact absurd (heq ▸ hb) List.not_mem_nil
    · rename_i heq
      rw [heq]

/-- A read is refused because the stored bars do not span the range. -/
def RefusedForSpan (r : Except ExchangeError (List OhlcvBar)) : Prop :=
  ∃ app cusip firstBar lastBar start stop,
    r = .error (.notSpanned app cusip firstBar lastBar start stop)

/-- A range that is spanned is not refused for its span. -/
theorem not_refusedForSpan (hinterval : intervals tmIntervalId = some period)
    (hspans : Spans period db ⟨internalCusip, tmIntervalId, app.appId⟩ rangeStart rangeEnd) :
    ¬ RefusedForSpan (fetchExchangeDf intervals services db app vendorSymbol internalCusip
      tmIntervalId rangeStart rangeEnd) := by
  rintro ⟨a, c, lo, hi, start, stop, h⟩
  cases services with
  | none => cases h
  | some forApp =>
    unfold fetchExchangeDf at h
    dsimp only at h
    by_cases hvendor : vendorSymbol = none
    · rw [if_pos hvendor] at h
      cases h
    have hperiod : intervalPeriod intervals tmIntervalId = .ok period := by
      rw [intervalPeriod, hinterval]
    rw [if_neg hvendor, hperiod, Result.ok_bind] at h
    cases hvenue : forApp app.appId with
    | error message =>
      rw [hvenue] at h
      cases h
    | ok u =>
      rw [hvenue] at h
      dsimp only at h
      rw [requireSpan_ok.mpr hspans, Result.ok_bind] at h
      split at h
      · cases h
      · cases h

/-- A range that is not spanned is refused for its span, with a venue to read from. -/
theorem refusedForSpan {vendor : String} {bounds : ℤ × ℤ}
    (hinterval : intervals tmIntervalId = some period)
    (hcov : db.getCoverage ⟨internalCusip, tmIntervalId, app.appId⟩ = some bounds)
    (hno : rangeStart < bounds.1 ∨ bounds.2 + period.length < rangeEnd) :
    RefusedForSpan (fetchExchangeDf intervals (some fun _ => .ok ()) db app (some vendor)
      internalCusip tmIntervalId rangeStart rangeEnd) := by
  have hperiod : intervalPeriod intervals tmIntervalId = .ok period := by
    rw [intervalPeriod, hinterval]
  unfold fetchExchangeDf
  dsimp only
  rw [if_neg (Option.some_ne_none vendor), hperiod, Result.ok_bind, requireSpan, hcov]
  dsimp only
  rw [if_pos hno]
  exact ⟨_, _, _, _, _, _, rfl⟩

/-! ## Whole reads -/

/-- The rows are one for each boundary of the range, in order, save a boundary past the
newest stored bar that the slack excuses. -/
structure ReadWhole (period : Period) (db : PriceBar) (s : Series) (rangeStart rangeEnd : ℤ)
    (rows : List ℤ) : Prop where
  /-- No bar comes twice, and the older one comes first. -/
  ordered : rows.Pairwise (· < ·)
  /-- Every row is a boundary inside the range. -/
  boundaries : ∀ t ∈ rows, rangeStart ≤ t ∧ t ≤ rangeEnd ∧ period.length ∣ t
  /-- Every boundary has its row, save one that is newer than the newest stored bar by less than
  the slack. -/
  complete : ∀ t, rangeStart ≤ t → t ≤ rangeEnd → period.length ∣ t →
    t ∈ rows ∨ ∃ newest, db.Stored s newest ∧ (∀ u, db.Stored s u → u ≤ newest) ∧
      newest < t ∧ t ≤ newest + period.length

/-- No boundary of the range is missing below a stored bar, and no stored bar of the
range lies between two boundaries. -/
def WithoutHole (period : Period) (db : PriceBar) (s : Series) (rangeStart rangeEnd : ℤ) : Prop :=
  (∀ t u, db.Stored s u → t ≤ u → rangeStart ≤ t → t ≤ rangeEnd → period.length ∣ t →
    db.Stored s t) ∧
  ∀ t, db.Stored s t → rangeStart ≤ t → t ≤ rangeEnd → period.length ∣ t

/-- Never short: whatever the read returns is whole. -/
def NeverShort (intervals : ℕ → Option Period) (services : Option BarServices) (db : PriceBar)
    (app : ExchangeApp) (vendorSymbol : Option String) (internalCusip : String)
    (tmIntervalId : ℕ) (rangeStart rangeEnd : ℤ) : Prop :=
  ∀ period bars, intervals tmIntervalId = some period →
    fetchExchangeDf intervals services db app vendorSymbol internalCusip tmIntervalId rangeStart
      rangeEnd = .ok bars →
    ReadWhole period db ⟨internalCusip, tmIntervalId, app.appId⟩ rangeStart rangeEnd
      (bars.map OhlcvBar.barTimestamp)

/-- **When a read is never short**: it is refused, or the stored bars of the range have
no hole. -/
theorem neverShort_iff :
    NeverShort intervals services db app vendorSymbol internalCusip tmIntervalId rangeStart
        rangeEnd ↔
      ∀ period, ReadServed intervals services db app vendorSymbol internalCusip tmIntervalId
        rangeStart rangeEnd period →
        WithoutHole period db ⟨internalCusip, tmIntervalId, app.appId⟩ rangeStart rangeEnd := by
  refine ⟨fun h period hserved => ?_, fun h period bars hinterval hok => ?_⟩
  · have hwhole := h period _ hserved.interval (fetchExchangeDf_ok.mpr ⟨⟨period, hserved⟩, rfl⟩)
    refine ⟨fun t u hu htu h1 h2 h3 => ?_, fun t ht h1 h2 => ?_⟩
    · rcases hwhole.complete t h1 h2 h3 with ht | ⟨newest, -, hmax, hlt, -⟩
      · exact (PriceBar.stored_iff_mem_getBars.mp (List.mem_map.mp ht)).1
      · exact absurd (hmax u hu) (not_le.mpr (hlt.trans_le htu))
    · exact (hwhole.boundaries t
        (List.mem_map.mpr (PriceBar.stored_iff_mem_getBars.mpr ⟨ht, h1, h2⟩))).2.2
  · obtain ⟨⟨period', hserved⟩, rfl⟩ := fetchExchangeDf_ok.mp hok
    obtain rfl : period' = period := Option.some.inj (hserved.interval.symm.trans hinterval)
    obtain ⟨hfull, hgrid⟩ := h period' hserved
    obtain ⟨firstBar, lastBar, hcov, -, htail⟩ := hserved.spans
    obtain ⟨hlast, hmax⟩ := PriceBar.getCoverage_some hcov
    refine ⟨PriceBar.getBars_pairwise, fun t ht => ?_, fun t h1 h2 h3 => ?_⟩
    · obtain ⟨hst, h1, h2⟩ := PriceBar.stored_iff_mem_getBars.mp (List.mem_map.mp ht)
      exact ⟨h1, h2, hgrid t hst h1 h2⟩
    · by_cases hle : t ≤ lastBar
      · exact Or.inl (List.mem_map.mpr (PriceBar.stored_iff_mem_getBars.mpr
          ⟨hfull t lastBar hlast hle h1 h2 h3, h1, h2⟩))
      · exact Or.inr ⟨lastBar, hlast, hmax, not_le.mp hle, h2.trans htail⟩

namespace NeverShort

/-- A bar of the series in the hour. -/
def hourlyRow (hour : ℤ) : PriceBarRow :=
  ⟨minuteSeries, ⟨hour * 3600000000, 1, 1, 1, 1, 1⟩⟩

/-- The hours 0, 1 and 3, without the hour 2. -/
def holed : PriceBar := ⟨[hourlyRow 0, hourlyRow 1, hourlyRow 3], by decide⟩

/-- A hole between the oldest and the newest bar is returned in silence. -/
theorem not_holed : ¬ NeverShort (fun _ => some hourPeriod) (some fun _ => .ok ()) holed
    ⟨1, "bybit"⟩ (some "BTCUSDT") "BTC" 1 0 (3 * 3600000000) := by
  intro h
  obtain hrow | ⟨newest, hnewest, hmax, hlt, -⟩ :=
    (h _ _ rfl rfl).complete (2 * 3600000000) (by decide) (by decide) (by decide)
  · exact absurd hrow (by decide)
  · exact absurd (hmax (3 * 3600000000) (by decide)) (by omega)

end NeverShort
