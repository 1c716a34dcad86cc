import QuantStrategies.Database.Gateway
import QuantStrategies.Lib.Result

/-!
# The table of subscriptions

`MARKET_DATA.SERIES_SUBSCR` keeps the series that are wanted. A subscription is
versioned by its id; the series it is for (product, source, metric and interval)
are columns of the version. The table keeps open rows apart by id, and by nothing
else.

That an open row of a series may come twice is therefore not excluded by the table. Whether
it is excluded by the way the table is written is a question for the callers, and is
answered where they are modelled.
-/

namespace Database

/-- What a subscription is for: a product, a source, a metric of the source (none
for a venue's bars) and an interval. -/
structure Series where
  /-- The product. -/
  internalCusip : String
  /-- The source. -/
  appId : ℤ
  /-- The metric of the source, none for a venue's bars. -/
  appMetricId : Option ℤ
  /-- The interval. -/
  tmIntervalId : ℤ
deriving DecidableEq

/-- A row of `MARKET_DATA.SERIES_SUBSCR`. -/
structure SeriesSubscrRow extends Series where
  /-- The subscription. -/
  seriesSubscrId : ℕ
  /-- The number of the version. -/
  seriesSubscrVid : ℕ
  /-- `Y` while it is wanted. -/
  isEnabledInd : Char
  /-- How far back it is to be filled, if it is. -/
  backfillFromTs : Option ℤ
  /-- When the version begins. -/
  transactFromTs : ℤ
  /-- When it ends, infinity while it is open. -/
  transactToTs : WithTop ℤ
deriving DecidableEq

namespace SeriesSubscrRow

/-- `MARKET_DATA.SERIES_SUBSCR` is versioned by the id of the subscription. -/
def table : SoftTable SeriesSubscrRow ℕ where
  key := seriesSubscrId
  vid := seriesSubscrVid
  fromTs := transactFromTs
  toTs := transactToTs
  closeAt t v := { v with transactToTs := t }
  key_closeAt _ _ := rfl
  vid_closeAt _ _ := rfl
  fromTs_closeAt _ _ := rfl
  toTs_closeAt _ _ := rfl

/-- The unique constraints of `MARKET_DATA.SERIES_SUBSCR`. The one on the open
rows of a series was dropped. -/
def unique : List (UniqueKey SeriesSubscrRow) :=
  [⟨"provider_subscr_pkey", fun v w =>
      v.seriesSubscrId = w.seriesSubscrId && v.seriesSubscrVid = w.seriesSubscrVid⟩,
    ⟨"uq_series_subscr_id_open", fun v w => v.seriesSubscrId = w.seriesSubscrId &&
      v.transactToTs = ⊤ && w.transactToTs = ⊤⟩]

end SeriesSubscrRow

/-- The arguments of `SP_INS_SERIES_SUBSCR`. -/
structure SeriesSubscrArgs where
  /-- The subscription, or none for a new one. -/
  seriesSubscrId : Option ℕ
  /-- The product. -/
  internalCusip : Option String
  /-- The source. -/
  appId : Option ℤ
  /-- The metric, if the source has metrics. -/
  appMetricId : Option ℤ
  /-- The interval. -/
  tmIntervalId : Option ℤ
  /-- Whether it is wanted. -/
  isEnabledInd : Option Char
  /-- How far back it is to be filled. -/
  backfillFromTs : Option ℤ
deriving DecidableEq

/-- The row that `SP_INS_SERIES_SUBSCR` inserts. -/
def SeriesSubscrArgs.row (a : SeriesSubscrArgs) (now : ℤ) (vid : ℕ) :
    Except SqlError SeriesSubscrRow := do
  let seriesSubscrId ← notNull "series_subscr" "series_subscr_id" a.seriesSubscrId
  let internalCusip ← notNull "series_subscr" "internal_cusip" a.internalCusip
  let appId ← notNull "series_subscr" "app_id" a.appId
  let tmIntervalId ← notNull "series_subscr" "tm_interval_id" a.tmIntervalId
  let isEnabledInd ← notNull "series_subscr" "is_enabled_ind" a.isEnabledInd
  return ⟨⟨internalCusip, appId, a.appMetricId, tmIntervalId⟩, seriesSubscrId, vid, isEnabledInd,
    a.backfillFromTs, now, ⊤⟩

/-- `SP_INS_SERIES_SUBSCR`. -/
def spInsSeriesSubscr (f : Faults) (now : ℤ) (a : SeriesSubscrArgs) :
    Sql (List SeriesSubscrRow) (OutRow Unit) :=
  Sql.block (do
    let _ ← insVersion SeriesSubscrRow.table SeriesSubscrRow.unique f now a.seriesSubscrId
      (a.row now)
    let _ ← coreInsLogProc (f .log)
    return OutRow.success ()) (OutRow.failure ())

variable {f : Faults} {now : ℤ}

/-- The rows of `SP_INS_SERIES_SUBSCR` are next versions of the subscription it names. -/
theorem SeriesSubscrArgs.newVersion (a : SeriesSubscrArgs) :
    NewVersion SeriesSubscrRow.table now a.seriesSubscrId (a.row now) := by
  intro vid r h
  obtain ⟨_, hid, h⟩ := Result.bind_eq_ok.mp h
  obtain ⟨_, -, h⟩ := Result.bind_eq_ok.mp h
  obtain ⟨_, -, h⟩ := Result.bind_eq_ok.mp h
  obtain ⟨_, -, h⟩ := Result.bind_eq_ok.mp h
  obtain ⟨_, -, h⟩ := Result.bind_eq_ok.mp h
  cases h
  exact ⟨notNull_eq_ok.mp hid, rfl, rfl, rfl⟩

/-- **`SP_INS_SERIES_SUBSCR` keeps every subscription's history**, whatever it reports. A call
that fails leaves the table as it was, and one that succeeds adds the next version. -/
theorem spInsSeriesSubscr_histories {a : SeriesSubscrArgs} {log log' : List SeriesSubscrRow}
    {row : OutRow Unit} (h : spInsSeriesSubscr f now a log = .ok (row, log'))
    (hlog : SeriesSubscrRow.table.Histories log) : SeriesSubscrRow.table.Histories log' := by
  obtain h | ⟨e, -, -, h⟩ := Sql.block_eq_ok.mp h
  · obtain ⟨vid, hins, rfl⟩ := logged_eq_ok h
    exact insVersion_histories a.newVersion hins hlog
  · cases h
    exact hlog

/-- **What `SP_INS_SERIES_SUBSCR` does**, when it reports success. The row has the values of the
call, is open, and closes the version that was open under the same id. -/
theorem spInsSeriesSubscr_success {a : SeriesSubscrArgs} {log log' : List SeriesSubscrRow}
    {row : OutRow Unit} (h : spInsSeriesSubscr f now a log = .ok (row, log'))
    (hok : row.sqlstate = "00000") :
    ∃ r, a.seriesSubscrId = some r.seriesSubscrId ∧ a.internalCusip = some r.internalCusip ∧
      a.appId = some r.appId ∧ a.appMetricId = r.appMetricId ∧
      a.tmIntervalId = some r.tmIntervalId ∧ r.transactToTs = ⊤ ∧
      log' = r :: SeriesSubscrRow.table.closeOpen now (some r.seriesSubscrId) log := by
  obtain h | ⟨e, -, -, h⟩ := Sql.block_eq_ok.mp h
  · obtain ⟨vid, hins, rfl⟩ := logged_eq_ok h
    obtain ⟨-, -, -, -, -, r, hr, -, rfl⟩ := insVersion_eq_ok.mp hins
    obtain ⟨_, hid, hr⟩ := Result.bind_eq_ok.mp hr
    obtain ⟨_, hcusip, hr⟩ := Result.bind_eq_ok.mp hr
    obtain ⟨_, happ, hr⟩ := Result.bind_eq_ok.mp hr
    obtain ⟨_, htm, hr⟩ := Result.bind_eq_ok.mp hr
    obtain ⟨_, -, hr⟩ := Result.bind_eq_ok.mp hr
    cases hr
    have hid := notNull_eq_ok.mp hid
    exact ⟨_, hid, notNull_eq_ok.mp hcusip, notNull_eq_ok.mp happ, rfl, notNull_eq_ok.mp htm, rfl,
      by rw [hid]⟩
  · cases h
    exact absurd hok e.failed

end Database
