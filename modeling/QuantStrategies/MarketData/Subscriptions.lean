import QuantStrategies.Database.ApiRequest
import QuantStrategies.Database.SeriesSubscr
import QuantStrategies.Lib.Pool
import QuantStrategies.Lib.Python

/-!
# Subscribing to a series, and caching it

Three calls write the tables of market data. A venue's subscription goes to the id
it is given, or to a new one. A provider's goes to the id it is given, or to the one
that its series is open under, which is looked up first. A refresh goes to the id
that the cached window has, which is looked up before the provider is asked. The
tables keep open rows apart by id alone, so whether a series has one current row is
up to these calls, and to how they interleave.

What a call was told and what it looked up is its state. The error that the server
raises at a statement, a new id, which of several rows a read returns first and what
the provider sent are labels.

The statements of one call are atomic and the calls are not, so that two of them that look
up a series before either has written will both be told that it has no row. An index that
made this impossible was dropped, and what is proved is which runs still keep one row for a
series: those in which a write names the row that is open when it is made.
-/

open Database

/-- The tables that the calls share. -/
structure SeriesTables where
  /-- All versions of the subscriptions. -/
  subscr : List SeriesSubscrRow
  /-- All versions of the cached windows, with their data. -/
  windows : ApiRequestTables
deriving DecidableEq

/-- The arguments of `BarSubscriptionService.subscribe`. -/
structure VenueRequest where
  /-- The instrument. -/
  internalCusip : String
  /-- The interval of its bars. -/
  tmIntervalId : ℤ
  /-- The venue that they are captured from. -/
  sourceAppId : ℤ
  /-- Whether they are captured from now on. -/
  isEnabledInd : String
  /-- From when on the past is wanted, where it is. -/
  backfillFromTs : Option ℤ
  /-- The subscription that is written to, or a new one. -/
  seriesSubscrId : Option ℕ
deriving DecidableEq

/-- The arguments of `SeriesSubscrRepo.subscribe`. -/
structure ProviderRequest where
  /-- The instrument. -/
  internalCusip : String
  /-- The provider. -/
  appId : ℤ
  /-- Which of the provider's figures. -/
  appMetricId : ℤ
  /-- The interval of the series. -/
  tmIntervalId : ℤ
  /-- Whether it is captured from now on. -/
  isEnabledInd : String
  /-- From when on the past is wanted, where it is. -/
  backfillFromTs : Option ℤ
  /-- The subscription that is written to. Without one it is looked up, or made. -/
  seriesSubscrId : Option ℕ
deriving DecidableEq

/-- The arguments of `BacktestCache.refresh_payload`, the interval resolved, and whom
the cache writes as. -/
structure RefreshRequest where
  /-- The provider. -/
  appId : ℤ
  /-- Which of the provider's figures. -/
  appMetricId : ℤ
  /-- The interval, where the caller has given one or the settings have. -/
  tmIntervalId : ℤ
  /-- The instrument, for a series of one. -/
  internalCusip : Option String
  /-- The group, for a series of several. -/
  productGrpId : Option ℤ
  /-- The range that is fetched, from here. -/
  rangeStart : ℤ
  /-- And up to here. -/
  rangeEnd : ℤ
  /-- Whom the row is written as. -/
  userId : String
deriving DecidableEq

/-- The series that a venue's subscription is for. It has no metric. -/
def VenueRequest.series (req : VenueRequest) : Series :=
  ⟨req.internalCusip, req.sourceAppId, none, req.tmIntervalId⟩

/-- The series that a provider's subscription is for. -/
def ProviderRequest.series (req : ProviderRequest) : Series :=
  ⟨req.internalCusip, req.appId, some req.appMetricId, req.tmIntervalId⟩

/-- What a refresh caches. -/
def RefreshRequest.key (req : RefreshRequest) : RequestKey :=
  ⟨some req.appId, some req.appMetricId, some req.tmIntervalId, req.internalCusip⟩

/-- Why a call is refused. -/
inductive SeriesError where
  | value (message : String)
  | subscription (message : String)
  | call (e : CallError)

/-- The code that an error of a call carries. -/
def callSqlstate : CallError → Option String
  | .procedure sqlstate _ => some sqlstate
  | .badShape => none
  | .database e => some e.sqlstate

/-- `SeriesSubscrRepo.sp_ins_series_subscr`. -/
def spInsSeriesSubscrChecked (f : Faults) (now : ℤ) (seriesSubscrId : ℕ) (series : Series)
    (isEnabledInd : String) (backfillFromTs : Option ℤ) (s : SeriesTables) :
    Except SeriesError Unit × SeriesTables :=
  if Python.strip series.internalCusip = "" then
    (.error (.value "internal_cusip is required"), s)
  else if isEnabledInd ≠ "Y" ∧ isEnabledInd ≠ "N" then
    (.error (.value ("is_enabled_ind must be Y or N, got " ++ Python.repr isEnabledInd)), s)
  else
    let r := callWrite f (spInsSeriesSubscr f now ⟨some seriesSubscrId, some series.internalCusip,
      some series.appId, series.appMetricId, some series.tmIntervalId, isEnabledInd.toList.head?,
      backfillFromTs⟩) s.subscr
    (r.1.mapError .call, { s with subscr := r.2 })

/-- A venue's subscription that an index refuses is reported as captured already. -/
def VenueRequest.reported (req : VenueRequest) : Except SeriesError Unit → Except SeriesError Unit
  | .error (.call e) =>
      if callSqlstate e = some "23505" then
        .error (.subscription (req.internalCusip ++ " on interval " ++ toString req.tmIntervalId ++
          " from app " ++ toString req.sourceAppId ++ " is already being captured " ++
          "— edit that subscription instead of creating a second one"))
      else .error (.call e)
  | r => r

/-- The open rows of a provider's series: what `_open_provider_id` looks for. -/
def openProviderRows (s : SeriesTables) (series : Series) : List SeriesSubscrRow :=
  s.subscr.filter (SeriesSubscrRow.table.isOpen SeriesSubscrRow.toSeries series)

/-- `_insert_api_request`. -/
def insertApiRequest (f : Faults) (now : ℤ) (apiReqId : ℕ) (req : RefreshRequest)
    (payload : String) (s : SeriesTables) : Except SeriesError Unit × SeriesTables :=
  let r := callWrite f (spInsApiRequest f now ⟨some apiReqId, req.key, req.productGrpId,
    some req.rangeStart, some req.rangeEnd, some payload, some req.userId⟩) s.windows
  (r.1.mapError .call, { s with windows := r.2 })

/-- A call, by what it has looked up. -/
inductive SeriesCall where
  | subscribeVenue (req : VenueRequest)
  | subscribeProvider (req : ProviderRequest)
  | providerWrite (req : ProviderRequest) (chosen : Option ℕ)
  | refresh (req : RefreshRequest)
  | persist (req : RefreshRequest) (cachedId : Option ℕ)
  | finished (result : Except SeriesError Unit)

/-- What can be asked for. -/
inductive SeriesRequest where
  | venue (req : VenueRequest)
  | provider (req : ProviderRequest)
  | refresh (req : RefreshRequest)

/-- What a request starts. -/
def startSeries : SeriesRequest → SeriesCall
  | .venue req => .subscribeVenue req
  | .provider req => .subscribeProvider req
  | .refresh req => .refresh req

/-- What decides a step besides the tables: the errors that the server raises, the
time, a new id, which row a read returns first, why a venue cannot capture the
series, and what the provider sent. -/
structure SeriesStep where
  /-- What the server raises, at which of the statements. -/
  f : Faults
  /-- What the server's clock shows. -/
  now : ℤ
  /-- The id that is made up where a new one is needed. -/
  generated : ℕ
  /-- Which row comes first where a read without an order finds several. -/
  pick : ℕ
  /-- Why the venue cannot capture the series, where it cannot. -/
  unwarmable : Option String
  /-- What the provider sent, or nothing. -/
  fetched : Option String

/-- The first row of a read that promises no order. -/
def firstRow {V : Type} (pick : ℕ) : List V → Option (Option V)
  | [] => some none
  | rows => rows[pick]?.map some

/-- One step of a call. -/
def stepSeries (s : SeriesTables) (w : SeriesCall) (o : SeriesStep) :
    Option (SeriesTables × SeriesCall) :=
  match w with
  -- `BarSubscriptionService.subscribe`
  | .subscribeVenue req =>
      match o.unwarmable with
      | some message => some (s, .finished (.error (.subscription message)))
      | none =>
          let r := spInsSeriesSubscrChecked o.f o.now (req.seriesSubscrId.getD o.generated)
            req.series req.isEnabledInd req.backfillFromTs s
          some (r.2, .finished (req.reported r.1))
  -- `SeriesSubscrRepo.subscribe`
  | .subscribeProvider req =>
      match req.seriesSubscrId with
      | some id => some (s, .providerWrite req (some id))
      | none =>
          (firstRow o.pick (openProviderRows s req.series)).map fun row =>
            (s, .providerWrite req (row.map SeriesSubscrRow.seriesSubscrId))
  | .providerWrite req chosen =>
      let r := spInsSeriesSubscrChecked o.f o.now (chosen.getD o.generated) req.series
        req.isEnabledInd req.backfillFromTs s
      some (r.2, .finished r.1)
  -- `BacktestCache.refresh_payload`
  | .refresh req =>
      (firstRow o.pick (spGetApiRequest s.windows req.key)).map fun row =>
        (s, .persist req (row.map ApiRequestRow.apiReqId))
  | .persist req cachedId =>
      match o.fetched with
      | none => some (s, .finished (.ok ()))
      | some payload =>
          let r := insertApiRequest o.f o.now (cachedId.getD o.generated) req payload s
          some (r.2, .finished r.1)
  | .finished _ => none

/-- The calls, over tables that start empty. -/
def seriesPool : Pool SeriesTables SeriesCall Empty SeriesRequest SeriesStep where
  Init s := s = ⟨[], ⟨[], []⟩⟩
  env _ e := nomatch e
  fresh _ _ r := some (startSeries r)
  work := stepSeries

/-! ## One current row for each series -/

/-- No two open subscriptions are for one series, and no two open windows of one. -/
structure OneCurrent (s : SeriesTables) : Prop where
  /-- A series has one open subscription at most, whatever ids there are. -/
  subscr : SeriesSubscrRow.table.OneOpen SeriesSubscrRow.toSeries s.subscr
  /-- And one open window at most. -/
  windows : ApiRequestRow.table.OneOpen ApiRequestRow.toRequestKey s.windows.requests

/-- A series is open under an id, or not at all. -/
def OpenUnder (s : SeriesTables) (series : Series) (id : ℕ) : Prop :=
  ∀ v ∈ s.subscr, SeriesSubscrRow.table.isOpen SeriesSubscrRow.toSeries series v = true →
    v.seriesSubscrId = id

/-- A window is open under an id, or not at all. -/
def CachedUnder (s : SeriesTables) (key : RequestKey) (id : ℕ) : Prop :=
  ∀ v ∈ s.windows.requests,
    ApiRequestRow.table.isOpen ApiRequestRow.toRequestKey key v = true → v.apiReqId = id

/-- A call that writes names the id under which its series is open at that moment, if it
is open: a new id only for a series that is not, a given one only where no other is, and
one that was looked up only while that still holds. -/
def NamesOpenRow (s : SeriesTables) (w : SeriesCall) (o : SeriesStep) : Prop :=
  match w with
  | .subscribeVenue req => OpenUnder s req.series (req.seriesSubscrId.getD o.generated)
  | .providerWrite req chosen => OpenUnder s req.series (chosen.getD o.generated)
  | .persist req cachedId => CachedUnder s req.key (cachedId.getD o.generated)
  | _ => True

instance (s : SeriesTables) (series : Series) (id : ℕ) : Decidable (OpenUnder s series id) :=
  inferInstanceAs (Decidable (∀ v ∈ s.subscr, _ → _))

instance (s : SeriesTables) (key : RequestKey) (id : ℕ) : Decidable (CachedUnder s key id) :=
  inferInstanceAs (Decidable (∀ v ∈ s.windows.requests, _ → _))

instance (s : SeriesTables) (w : SeriesCall) (o : SeriesStep) : Decidable (NamesOpenRow s w o) :=
  match w with
  | .subscribeVenue req =>
      inferInstanceAs (Decidable (OpenUnder s req.series (req.seriesSubscrId.getD o.generated)))
  | .providerWrite req chosen =>
      inferInstanceAs (Decidable (OpenUnder s req.series (chosen.getD o.generated)))
  | .persist req cachedId =>
      inferInstanceAs (Decidable (CachedUnder s req.key (cachedId.getD o.generated)))
  | .subscribeProvider _ => .isTrue trivial
  | .refresh _ => .isTrue trivial
  | .finished _ => .isTrue trivial

variable {f : Faults} {now : ℤ} {s s' : SeriesTables} {w w' : SeriesCall} {o : SeriesStep}

/-- A subscription is written under its id, or not at all. -/
theorem spInsSeriesSubscrChecked_cases {id : ℕ} {series : Series} {ind : String}
    {backfill : Option ℤ} :
    (spInsSeriesSubscrChecked f now id series ind backfill s).2 = s ∨
    ∃ r : SeriesSubscrRow, r.toSeries = series ∧ r.seriesSubscrId = id ∧ r.transactToTs = ⊤ ∧
      (spInsSeriesSubscrChecked f now id series ind backfill s).2 =
        { s with subscr := r :: SeriesSubscrRow.table.closeOpen now (some id) s.subscr } := by
  unfold spInsSeriesSubscrChecked
  split
  · exact .inl rfl
  · split
    · exact .inl rfl
    · set args : SeriesSubscrArgs := ⟨some id, some series.internalCusip, some series.appId,
        series.appMetricId, some series.tmIntervalId, ind.toList.head?, backfill⟩
      show ({ s with subscr := (callWrite f (spInsSeriesSubscr f now args) s.subscr).2 } :
        SeriesTables) = s ∨ _
      cases hseen : (callWrite f (spInsSeriesSubscr f now args) s.subscr).1 with
      | error e =>
        rw [callWrite_error hseen]
        exact .inl rfl
      | ok u =>
        obtain ⟨-, -, row, hcall, hok, -⟩ := callWrite_eq_ok.mp (Prod.ext hseen rfl)
        obtain ⟨r, hid, hcusip, happ, hmetric, htm, hto, hlog⟩ :=
          spInsSeriesSubscr_success hcall hok
        cases hid
        refine .inr ⟨r, ?_, rfl, hto, ?_⟩
        · obtain ⟨⟨cusip, app, metric, tm⟩, _, _, _, _, _, _⟩ := r
          cases hcusip
          cases happ
          cases hmetric
          cases htm
          rfl
        · exact congrArg (fun log => ({ s with subscr := log } : SeriesTables)) hlog

/-- A window is written under its id, or not at all. -/
theorem insertApiRequest_cases {id : ℕ} {req : RefreshRequest} {payload : String} :
    (insertApiRequest f now id req payload s).2 = s ∨
    ∃ r : ApiRequestRow, r.toRequestKey = req.key ∧ r.apiReqId = id ∧ r.transactToTs = ⊤ ∧
      (insertApiRequest f now id req payload s).2.subscr = s.subscr ∧
      (insertApiRequest f now id req payload s).2.windows.requests =
        r :: ApiRequestRow.table.closeOpen now (some id) s.windows.requests := by
  unfold insertApiRequest
  set args : ApiRequestArgs := ⟨some id, req.key, req.productGrpId, some req.rangeStart,
    some req.rangeEnd, some payload, some req.userId⟩
  show ({ s with windows := (callWrite f (spInsApiRequest f now args) s.windows).2 } :
    SeriesTables) = s ∨ _
  cases hseen : (callWrite f (spInsApiRequest f now args) s.windows).1 with
  | error e =>
    rw [callWrite_error hseen]
    exact .inl rfl
  | ok u =>
    obtain ⟨-, -, row, hcall, hok, -⟩ := callWrite_eq_ok.mp (Prod.ext hseen rfl)
    obtain ⟨r, hid, hkey, hto, hlog⟩ := spInsApiRequest_success hcall hok
    cases hid
    exact .inr ⟨r, hkey, rfl, hto, rfl, hlog⟩

/-- A subscription that is written keeps one current row exactly when its series is open
under no other id. -/
theorem subscr_write_iff (h : OneCurrent s) {r : SeriesSubscrRow} (hto : r.transactToTs = ⊤) :
    OneCurrent { s with
        subscr := r :: SeriesSubscrRow.table.closeOpen now (some r.seriesSubscrId) s.subscr } ↔
      OpenUnder s r.toSeries r.seriesSubscrId := by
  have hiff : SeriesSubscrRow.table.OneOpen SeriesSubscrRow.toSeries
      (r :: SeriesSubscrRow.table.closeOpen now (some r.seriesSubscrId) s.subscr) ↔ _ :=
    SoftTable.oneOpen_append_iff h.subscr hto
  exact ⟨fun h' => hiff.mp h'.subscr, fun hopen => ⟨hiff.mpr hopen, h.windows⟩⟩

/-- **A step that writes keeps one current row exactly when** it names the id under which
its series is open. -/
theorem stepSeries_oneCurrent (h : OneCurrent s) (hstep : stepSeries s w o = some (s', w')) :
    s' = s ∨ (OneCurrent s' ↔ NamesOpenRow s w o) := by
  cases w with
  | subscribeVenue req =>
    simp only [stepSeries] at hstep
    split at hstep
    · cases hstep
      exact .inl rfl
    · cases hstep
      obtain hsame | ⟨r, hseries, hid, hto, hs'⟩ := spInsSeriesSubscrChecked_cases
      · exact .inl hsame
      · refine .inr ?_
        show _ ↔ OpenUnder s req.series (req.seriesSubscrId.getD o.generated)
        rw [hs', ← hid, ← hseries]
        exact subscr_write_iff h hto
  | subscribeProvider req =>
    simp only [stepSeries] at hstep
    split at hstep
    · cases hstep
      exact .inl rfl
    · obtain ⟨row, -, hstep⟩ := Option.map_eq_some_iff.mp hstep
      cases hstep
      exact .inl rfl
  | providerWrite req chosen =>
    cases hstep
    obtain hsame | ⟨r, hseries, hid, hto, hs'⟩ := spInsSeriesSubscrChecked_cases
    · exact .inl hsame
    · refine .inr ?_
      show _ ↔ OpenUnder s req.series (chosen.getD o.generated)
      rw [hs', ← hid, ← hseries]
      exact subscr_write_iff h hto
  | refresh req =>
    obtain ⟨row, -, hstep⟩ := Option.map_eq_some_iff.mp hstep
    cases hstep
    exact .inl rfl
  | persist req cachedId =>
    simp only [stepSeries] at hstep
    split at hstep
    · cases hstep
      exact .inl rfl
    · next payload _ =>
      cases hstep
      obtain hsame | ⟨r, hkey, hid, hto, hsubscr, hrequests⟩ := insertApiRequest_cases
      · exact .inl hsame
      · refine .inr ?_
        have hiff : ApiRequestRow.table.OneOpen ApiRequestRow.toRequestKey
            (r :: ApiRequestRow.table.closeOpen o.now (some r.apiReqId) s.windows.requests) ↔ _ :=
          SoftTable.oneOpen_append_iff h.windows hto
        have hnames : NamesOpenRow s (.persist req cachedId) o ↔
            CachedUnder s r.toRequestKey r.apiReqId := by
          rw [hkey, hid]
          rfl
        rw [hnames]
        constructor
        · intro h'
          have hone := h'.windows
          rw [hrequests, ← hid] at hone
          exact hiff.mp hone
        · intro hopen
          refine ⟨hsubscr ▸ h.subscr, ?_⟩
          rw [hrequests, ← hid]
          exact hiff.mpr hopen
  | finished result => cases hstep

/-- **In every run whose writes name the id under which their series is open**, however
the calls interleave and whatever the server refuses, each series has at most one open
subscription and at most one open window. Of a write that is stored, nothing less will
do. -/
theorem one_current_row (s : SeriesTables) :
    (∀ p, seriesPool.machine.Reach (Pool.Guard NamesOpenRow (fun _ _ _ _ => True)) p →
      p.shared = s → OneCurrent s) ∧
    ∀ (w : SeriesCall) (o : SeriesStep) (s' : SeriesTables) (w' : SeriesCall),
      OneCurrent s → stepSeries s w o = some (s', w') → s' ≠ s →
        (OneCurrent s' ↔ NamesOpenRow s w o) := by
  refine ⟨fun p hp hs => ?_, fun w o s' w' h hstep hne => ?_⟩
  · rw [← hs]
    refine (Pool.invariant (I := OneCurrent) (L := fun _ _ => True) hp (fun s hs => ?_)
      (fun _ _ _ _ _ _ => trivial) (fun _ e _ _ _ => nomatch e)
      (fun s w o s' w' h _ hnames hstep => ⟨?_, trivial⟩)
      (fun _ _ _ _ _ _ _ _ _ _ _ _ => trivial)).1
    · rw [hs]
      exact ⟨SoftTable.OneOpen.nil, SoftTable.OneOpen.nil⟩
    · obtain rfl | hiff := stepSeries_oneCurrent h hstep
      · exact h
      · exact hiff.mpr hnames
  · exact (stepSeries_oneCurrent h hstep).resolve_left hne

/-- A provider's subscription that nothing comes between names the open row. -/
theorem provider_alone (h : OneCurrent s) {req : ProviderRequest} (hid : req.seriesSubscrId = none)
    (hstep : stepSeries s (.subscribeProvider req) o = some (s', w')) (o' : SeriesStep) :
    s' = s ∧ NamesOpenRow s' w' o' := by
  simp only [stepSeries] at hstep
  rw [hid] at hstep
  obtain ⟨row, hrow, hstep⟩ := Option.map_eq_some_iff.mp hstep
  cases hstep
  refine ⟨rfl, fun v hv hopen => ?_⟩
  have hmem : v ∈ openProviderRows s req.series := List.mem_filter.mpr ⟨hv, hopen⟩
  cases hrows : openProviderRows s req.series with
  | nil =>
    rw [hrows] at hmem
    cases hmem
  | cons x rest =>
    rw [hrows] at hrow
    obtain ⟨y, hy, rfl⟩ := Option.map_eq_some_iff.mp hrow
    have hy : y ∈ openProviderRows s req.series := hrows ▸ List.mem_of_getElem? hy
    obtain ⟨hy, hyopen⟩ := List.mem_filter.mp hy
    rw [h.subscr.eq hv hy hopen hyopen]
    rfl

namespace Subscriptions

/-- A step in which nothing is refused. -/
def step (now : ℤ) (generated : ℕ) : SeriesStep :=
  ⟨fun _ => none, now, generated, 0, none, some "[]"⟩

/-- A venue's daily bars. -/
def venue : VenueRequest := ⟨"btcusdt.crypto", 1, 34, "Y", none, none⟩

/-- A provider's daily series. -/
def provider : ProviderRequest := ⟨"btcusdt.crypto", 2, 11, 1, "Y", none, none⟩

/-- The cache of a provider's daily series. -/
def cached : RefreshRequest := ⟨2, 11, 1, some "btcusdt.crypto", none, 0, 10, "quant_admin"⟩

/-- Empty tables, and no call. -/
def start : PoolState SeriesTables SeriesCall := ⟨⟨[], ⟨[], []⟩⟩, []⟩

/-- Two subscribe to a venue's bars, neither with an id. -/
def twoVenues : List (PoolAct Empty SeriesRequest SeriesStep) :=
  [.spawn (.venue venue), .spawn (.venue venue), .work 0 (step 0 1), .work 1 (step 1 2)]

/-- Two subscribe to a provider's series: both look, then both write. -/
def twoProviders : List (PoolAct Empty SeriesRequest SeriesStep) :=
  [.spawn (.provider provider), .spawn (.provider provider), .work 0 (step 0 1),
    .work 1 (step 0 2), .work 0 (step 1 1), .work 1 (step 2 2)]

/-- Two refresh a series for the first time: both look, then both write. -/
def twoRefreshes : List (PoolAct Empty SeriesRequest SeriesStep) :=
  [.spawn (.refresh cached), .spawn (.refresh cached), .work 0 (step 0 1), .work 1 (step 0 2),
    .work 0 (step 1 1), .work 1 (step 2 2)]

/-- The same calls, one after the other. -/
def inTurn : List (PoolAct Empty SeriesRequest SeriesStep) :=
  [.spawn (.provider provider), .spawn (.provider provider), .spawn (.refresh cached),
    .spawn (.refresh cached), .work 0 (step 0 1), .work 0 (step 1 1), .work 1 (step 2 2),
    .work 1 (step 3 2), .work 2 (step 4 1), .work 2 (step 5 1), .work 3 (step 6 2),
    .work 3 (step 7 2)]

/-- How many rows are open. -/
def openRows (p : PoolState SeriesTables SeriesCall) : ℕ × ℕ :=
  (p.shared.subscr.countP (fun v => v.transactToTs = ⊤),
    p.shared.windows.requests.countP (fun v => v.transactToTs = ⊤))

/-- A further venue's subscription is stored. -/
def subscribesNext (p : PoolState SeriesTables SeriesCall) : Bool :=
  (stepSeries p.shared (.subscribeVenue venue) (step 9 3)).any (fun r => r.1 ≠ p.shared)

end Subscriptions

/-- One call after the other. -/
theorem in_turn_one_current : ∃ p,
    seriesPool.machine.Reach (Pool.Guard NamesOpenRow (fun _ _ _ _ => True)) p ∧
    Subscriptions.openRows p = (1, 1) ∧ OneCurrent p.shared ∧
    ∃ s' w', stepSeries p.shared (.subscribeVenue Subscriptions.venue) (Subscriptions.step 9 3) =
      some (s', w') ∧ s' ≠ p.shared ∧ (OneCurrent s' ↔ NamesOpenRow p.shared
        (.subscribeVenue Subscriptions.venue) (Subscriptions.step 9 3)) := by
  have hinit : seriesPool.machine.Init Subscriptions.start := ⟨rfl, rfl⟩
  have hrun : (seriesPool.machine.runs (Pool.Guard NamesOpenRow (fun _ _ _ _ => True))
      Subscriptions.start Subscriptions.inTurn).any
        (fun p => Subscriptions.openRows p = (1, 1) && Subscriptions.subscribesNext p) = true := by
    decide +kernel
  obtain ⟨p, hp, hwas⟩ := Machine.Reach.exists_of_runs hinit _ hrun
  obtain ⟨hrows, hnext⟩ := (Bool.and_eq_true _ _).mp hwas
  obtain ⟨⟨s', w'⟩, hstep, hne⟩ := (Option.any_eq_true _ _).mp hnext
  have hone := (one_current_row p.shared).1 p hp rfl
  exact ⟨p, hp, of_decide_eq_true hrows, hone, s', w', hstep, of_decide_eq_true hne,
    (one_current_row p.shared).2 _ _ _ _ hone hstep (of_decide_eq_true hne)⟩

/-- Two open subscriptions of one venue's series, without any interleaving; two of one
provider's series, and two windows of one, when both callers look before either writes. -/
theorem two_current_rows :
    (seriesPool.machine.runs (fun _ _ => True) Subscriptions.start Subscriptions.twoVenues).map
        Subscriptions.openRows = some (2, 0) ∧
    (seriesPool.machine.runs (fun _ _ => True) Subscriptions.start Subscriptions.twoProviders).map
        Subscriptions.openRows = some (2, 0) ∧
    (seriesPool.machine.runs (fun _ _ => True) Subscriptions.start Subscriptions.twoRefreshes).map
        Subscriptions.openRows = some (0, 2) ∧
    ¬ ∀ p, seriesPool.machine.Reach (fun _ _ => True) p → OneCurrent p.shared := by
  refine ⟨by decide +kernel, by decide +kernel, by decide +kernel, fun h => ?_⟩
  have hinit : seriesPool.machine.Init Subscriptions.start := ⟨rfl, rfl⟩
  have hrun : (seriesPool.machine.runs (fun _ _ => True) Subscriptions.start
      Subscriptions.twoVenues).any (fun p => 1 < p.shared.subscr.countP
        (SeriesSubscrRow.table.isOpen SeriesSubscrRow.toSeries Subscriptions.venue.series)) =
        true := by decide +kernel
  obtain ⟨p, hp, htwo⟩ := Machine.Reach.exists_of_runs hinit _ hrun
  exact absurd ((h p hp).subscr _) (not_le.mpr (of_decide_eq_true htwo))
