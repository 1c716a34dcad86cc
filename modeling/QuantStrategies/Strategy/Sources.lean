import Mathlib.Order.Basic
import QuantStrategies.Strategy.Performance

/-!
# Where a factor is read from

A request names the traded product and, for each factor, a product and a data
source, or leaves them to the request. The backtest (`buildDataDict`) and the live
evaluation of the saved request (`liveDataDict`) fetch a frame for each product, and
the strategy that `buildConfig` makes of the request looks them up by product.

The frames are kept by product alone. The first one that is fetched for a product
stays, whatever source a later factor names for it.

A frame is known here by what was asked for it: a product, a source, and whether the store
may be bypassed. So `fetch` is a parameter, and what is proved is which of its answers a
dictionary holds. The loop over the factors keeps what is there (`Extends`), and what it
adds was asked for by a factor. The live evaluation builds its list of sources by
`setdefault`, which keeps the first one too.
-/

open Pandas NpFloat Result

variable {L F : Type} [LinearOrder L] [NpFloat F]

/-! ## Requests -/

/-- `a or b`, on texts. -/
def textOr (a b : Option String) : Option String :=
  if a.any (· ≠ "") then a else b

/-- `FactorConfig`, without the ranges that are searched. -/
structure FactorConfig where
  /-- The product the factor names, if it names one. -/
  symbol : Option String := none
  /-- The same, in the vendor's words, which go first. -/
  vendorSymbol : Option String := none
  /-- The source it names, if it names one. -/
  dataSource : Option String := none
  /-- The column its indicator reads. -/
  dataColumn : String := "price"
  /-- The indicator, by its method's name. -/
  indicator : String
  /-- The signal type, by name. -/
  strategy : String
deriving DecidableEq

/-- What `OptimizeRequest` and `PerformanceRequest` have in common, without the fee
and the interval of the bars. -/
structure BacktestRequest where
  /-- The traded product. -/
  symbol : String
  /-- The first date asked for. -/
  start : String
  /-- The last date asked for, the source's `end`. -/
  stop : String
  /-- How many bars a year has. -/
  tradingPeriod : ℤ
  /-- The source of the traded product, and of the factors that name none. -/
  dataSource : String
  /-- Whether the store is to be bypassed, where the source allows it. -/
  refreshDataset : Bool := false
  /-- The factors, in the order of the form. -/
  factors : List FactorConfig
  /-- How their positions combine, required of two or more. -/
  conjunction : Option String := none
  /-- A request always names its source. -/
  namesSource : dataSource ≠ ""
  /-- A request has a factor, validation refusing one without. -/
  hasFactor : factors ≠ []

theorem bybit_ne_empty : "bybit" ≠ "" := by decide

/-- What the backtest and the live evaluation raise. -/
inductive EvaluationError where
  | backtest (detail : String) (statusCode : ℕ)
  | live (message : String)
  | cacheMiss (message : String)
  | python (error : PyError)
deriving DecidableEq

/-- A row of `REFDATA.APP`. -/
structure AppRow where
  /-- The source the row is about. -/
  name : String
  /-- `Y` where its data may be fetched again. -/
  refreshDatasetInd : String
deriving DecidableEq

/-- A row of `REFDATA.INDICATOR`. -/
structure IndicatorRow where
  /-- The indicator the row is about. -/
  methodName : String
  /-- `Y` where its readings are bounded, like relative strength. -/
  isBoundedInd : String
deriving DecidableEq

/-- A row of `REFDATA.SIGNAL_TYPE`. -/
structure SignalTypeRow where
  /-- The signal type the row is about. -/
  name : String
  /-- Its function for readings without a bound. -/
  funcNameBand : String
  /-- Its function for bounded ones. -/
  funcNameBounded : String
deriving DecidableEq

namespace FactorConfig

/-- The product that a factor names, where it does. -/
def cusip (f : FactorConfig) : Option String :=
  if f.symbol.any (· ≠ "") ∨ f.vendorSymbol.any (· ≠ "") then textOr f.vendorSymbol f.symbol
  else none

/-- The product a factor is to be read from. -/
def product (f : FactorConfig) (req : BacktestRequest) : String :=
  ((textOr f.vendorSymbol f.symbol).filter (· ≠ "")).getD req.symbol

/-- `f.data_source or req.data_source`: the source it is to be read from. -/
def source (f : FactorConfig) (req : BacktestRequest) : String :=
  (textOr f.dataSource (some req.dataSource)).getD req.dataSource

end FactorConfig

/-! ## The strategy of a request -/

/-- `resolve_signal_func`: the function of a signal type, bounded where the indicator is. -/
def resolveSignalFunc (signalName indicatorName : String) (indicatorRows : List IndicatorRow)
    (signalTypeRows : List SignalTypeRow) : Except EvaluationError SignalDirection :=
  match indicatorRows.find? (·.methodName = indicatorName) with
  | none => .error (.python (.valueError s!"Unknown indicator: {indicatorName}"))
  | some ind =>
    match signalTypeRows.find? (·.name = signalName) with
    | none => .error (.python (.valueError s!"Unknown signal type: {signalName}"))
    | some sig =>
      let funcName := if ind.isBoundedInd = "Y" then sig.funcNameBounded else sig.funcNameBand
      match SignalDirection.resolve funcName with
      | .ok func => .ok func
      | .error _ =>
        .error (.python (.valueError s!"SignalDirection has no method '{funcName}'"))

section

variable (indicatorRows : List IndicatorRow) (signalTypeRows : List SignalTypeRow)

/-- The substrategy of a factor. -/
def substrategyOf (f : FactorConfig) : Except EvaluationError (SubStrategy F) := do
  let func ← resolveSignalFunc f.strategy f.indicator indicatorRows signalTypeRows
  return { indicatorName := f.indicator, signalFuncName := func.name, window := 0, signal := 0,
           dataColumn := f.dataColumn, internalCusip := f.cusip }

/-- `build_config`, from the factors on. -/
def configOf (req : BacktestRequest) : Except EvaluationError (StrategyConfig F) :=
  match req.factors with
  | [] => .error (.python .indexError)
  | first :: rest => do
    let substrategies ← (first :: rest).mapM (substrategyOf indicatorRows signalTypeRows)
    let firstFunc ← resolveSignalFunc first.strategy first.indicator indicatorRows signalTypeRows
    return { internalCusip := req.symbol, indicatorName := first.indicator,
             signalFunc := firstFunc, tradingPeriod := req.tradingPeriod,
             conjunction := (textOr req.conjunction (some "AND")).getD "AND", substrategies }

/-- `build_config`. A conjunction is required when there are two factors or more. -/
def buildConfig (req : BacktestRequest) : Except EvaluationError (StrategyConfig F) :=
  if 2 ≤ req.factors.length ∧ ¬ req.conjunction.any (· ≠ "") then
    .error (.backtest "`conjunction` is required when more than one factor is provided." 422)
  else configOf indicatorRows signalTypeRows req

end

/-! ## The backtest -/

/-- What the stores answer for a symbol and a source, read from the cache or fetched
again. -/
abbrev Fetch (L F : Type) : Type := String → String → Bool → Except EvaluationError (Frame L F)

/-- `pd.Timestamp(text, tz="UTC")`, and the date of a label as text. -/
structure Dates (L : Type) where
  /-- A date of the request as a label of a frame. -/
  timestamp : String → L
  /-- A label as a date, for a message. -/
  date : L → String

/-- `_app_allows_refresh`. -/
def appAllowsRefresh (appRows : List AppRow) (dataSource : String) : Bool :=
  match appRows.find? (·.name = dataSource) with
  | some row => decide (row.refreshDatasetInd = "Y")
  | none => false

/-- `_fetch` of `_build_data_dict`: a cache miss is a client's error. -/
def fetchFor (fetch : Fetch L F) (appRows : List AppRow) (req : BacktestRequest)
    (symbol dataSource : String) : Except EvaluationError (Frame L F) :=
  match fetch symbol dataSource (req.refreshDataset && appAllowsRefresh appRows dataSource) with
  | .error (.cacheMiss message) => .error (.backtest message 400)
  | answer => answer

/-- One turn of the loop over the factors. A product that is there is not fetched. -/
def addFactor (fetch : Fetch L F) (appRows : List AppRow) (req : BacktestRequest)
    (data : DataDict L F) (f : FactorConfig) : Except EvaluationError (DataDict L F) :=
  match f.cusip with
  | none => .ok data
  | some cusip =>
    if cusip ≠ "" ∧ data.lookup cusip = none then do
      let frame ← fetchFor fetch appRows req cusip (f.source req)
      return data ++ [(cusip, frame)]
    else .ok data

/-- The first and the last label of a frame. -/
def boundsOf (entry : String × Frame L F) : Except EvaluationError (String × L × L) :=
  match entry.2.index.min?, entry.2.index.max? with
  | some lo, some hi => .ok (entry.1, lo, hi)
  | _, _ => .error (.backtest s!"No data returned for '{entry.1}'." 400)

/-- The first product whose label satisfies a test. -/
def limiting (label : String × L × L → L) (bounds : List (String × L × L)) (l : L)
    (date : L → String) : String :=
  match bounds.find? fun b => label b = l with
  | some b => s!"{Python.repr b.1} ({date l})"
  | none => ""

/-- The message of a request that the common range does not cover. -/
def rangeMessage (dates : Dates L) (req : BacktestRequest) (bounds : List (String × L × L))
    (commonStart commonEnd : L) : String :=
  let first := dates.date commonStart
  let last := dates.date commonEnd
  let latest := limiting (fun b => b.2.1) bounds commonStart dates.date
  let earliest := limiting (fun b => b.2.2) bounds commonEnd dates.date
  let start := req.start
  let stop := req.stop
  s!"Date ranges across products+factors do not align with requested [{start}, {stop}]. " ++
    s!"Common coverage = [{first}, {last}]. Latest start: {latest}; earliest end: {earliest}. " ++
    "Tick 'Refresh dataset' to fetch matching ranges."

/-- `_enforce_date_sync`. -/
def enforceDateSync (dates : Dates L) (req : BacktestRequest) (data : DataDict L F) :
    Except EvaluationError Unit :=
  if data.length ≤ 1 then .ok ()
  else do
    let bounds ← data.mapM boundsOf
    match (bounds.map fun b => b.2.1).max?, (bounds.map fun b => b.2.2).min? with
    | some commonStart, some commonEnd =>
      if dates.timestamp req.start < commonStart ∨ commonEnd < dates.timestamp req.stop then
        .error (.backtest (rangeMessage dates req bounds commonStart commonEnd) 400)
      else .ok ()
    | _, _ => .ok ()

/-- `_build_data_dict`. -/
def buildDataDict (dates : Dates L) (fetch : Fetch L F) (appRows : List AppRow)
    (req : BacktestRequest) : Except EvaluationError (DataDict L F) := do
  let main ← fetchFor fetch appRows req req.symbol req.dataSource
  let data ← req.factors.foldlM (addFactor fetch appRows req) [(req.symbol, main)]
  enforceDateSync dates req data
  return data

/-! ## The live evaluation -/

/-- `d.setdefault(key, value)`. -/
def setdefault {α : Type} (key : String) (value : α) (d : List (String × α)) : List (String × α) :=
  if d.lookup key = none then d ++ [(key, value)] else d

/-- `_data_sources`: the provider to read each product from. -/
def dataSources (config : StrategyConfig F) (optimizeReq : Option BacktestRequest) :
    Except EvaluationError (List (String × String)) :=
  match optimizeReq with
  | none =>
    let cusip := Python.repr config.internalCusip
    .error (.live (s!"strategy {cusip} names no data_source — it was saved without one. Re-run " ++
      "the backtest from the form so the provider is recorded with the strategy"))
  | some req => .ok <| req.factors.foldl
      (fun sources f => setdefault
        ((textOr (textOr f.vendorSymbol f.symbol) (some config.internalCusip)).getD
          config.internalCusip)
        (f.source req) sources)
      [(config.internalCusip, req.dataSource)]

/-- `load` of `provider_loader`: on a cache miss the provider is asked. -/
def providerLoad (fetch : Fetch L F) (sources : List (String × String)) (cusip : String) :
    Except EvaluationError (Frame L F) :=
  match sources.lookup cusip with
  | none =>
    let cusip := Python.repr cusip
    .error (.live s!"strategy names no data_source for {cusip}")
  | some dataSource =>
    match fetch cusip dataSource false with
    | .error (.cacheMiss _) => fetch cusip dataSource true
    | .error (.backtest detail _) => .error (.live detail)
    | answer => answer

/-- `get_internal_cusips`. -/
def StrategyConfig.getInternalCusips (config : StrategyConfig F) : List String :=
  (config.internalCusip :: config.substrategies.filterMap (·.internalCusip)).dedup

/-- The products in the order they are loaded: the traded one, and the rest sorted. -/
def loadOrder (config : StrategyConfig F) : List String :=
  config.internalCusip ::
    (config.getInternalCusips.filter (· ≠ config.internalCusip)).mergeSort (· ≤ ·)

/-- `df.empty`. -/
def Pandas.Frame.isEmpty (f : Frame L F) : Bool :=
  f.index.isEmpty || f.columns.isEmpty

/-- One product and its frame. -/
def loadEntry (load : String → Except EvaluationError (Frame L F)) (cusip : String) :
    Except EvaluationError (String × Frame L F) := do
  let frame ← load cusip
  return (cusip, frame)

/-- `build_data_dict_for_signal`. -/
def buildDataDictForSignal (config : StrategyConfig F)
    (load : String → Except EvaluationError (Frame L F)) :
    Except EvaluationError (DataDict L F) := do
  let data ← (loadOrder config).mapM (loadEntry load)
  match data.find? fun entry => entry.2.isEmpty with
  | some entry =>
    let cusip := Python.repr entry.1
    .error (.live s!"No data returned for {cusip}")
  | none => .ok data

/-- The frames of the live evaluation of a saved request, on the provider path. -/
def liveDataDict (fetch : Fetch L F) (config : StrategyConfig F)
    (optimizeReq : Option BacktestRequest) : Except EvaluationError (DataDict L F) := do
  let sources ← dataSources config optimizeReq
  buildDataDictForSignal config (providerLoad fetch sources)

/-! ## What a factor should read -/

/-- The frame a factor's series is taken from is one that was fetched for the factor's
own product and source. -/
def ReadsOwn (fetch : Fetch L F) (req : BacktestRequest) (config : StrategyConfig F)
    (data : DataDict L F) : Prop :=
  ∀ (i : ℕ) (f : FactorConfig) (sub : SubStrategy F), req.factors[i]? = some f →
    config.getSubstrategies[i]? = some sub →
    ∃ frame refresh, data.get (FactorFrames.subCusip config sub) = .ok frame ∧
      fetch (f.product req) (f.source req) refresh = .ok frame

/-- Everything a request reads: the traded product, and each factor. -/
def BacktestRequest.readers (req : BacktestRequest) : List (String × String) :=
  (req.symbol, req.dataSource) :: req.factors.map fun f => (f.product req, f.source req)

/-- No product is named with two sources. -/
def BacktestRequest.OneSource (req : BacktestRequest) : Prop :=
  ∀ r ∈ req.readers, ∀ r' ∈ req.readers, r.1 = r'.1 → r.2 = r'.2

instance (req : BacktestRequest) : Decidable req.OneSource :=
  inferInstanceAs (Decidable (∀ r ∈ req.readers, ∀ r' ∈ req.readers, r.1 = r'.1 → r.2 = r'.2))

/-- A dictionary that was filled from what the request reads, with the traded product's
own frame. -/
structure FilledFrom (fetch : Fetch L F) (req : BacktestRequest) (data : DataDict L F) : Prop where
  /-- Every frame was fetched for a product and a source that the request reads. -/
  fetched : ∀ c frame, data.lookup c = some frame →
    ∃ source refresh, (c, source) ∈ req.readers ∧ fetch c source refresh = .ok frame
  /-- The traded product's is from the source of the request. -/
  traded : ∃ frame refresh, data.lookup req.symbol = some frame ∧
    fetch req.symbol req.dataSource refresh = .ok frame
  /-- Every factor's product has a frame. -/
  covers : ∀ f ∈ req.factors, (data.lookup (f.product req)).isSome = true

/-! ## Products -/

namespace FactorConfig

variable {f : FactorConfig} (req : BacktestRequest)

/-- A factor that names no product is of the traded one. -/
theorem product_of_cusip_none (h : f.cusip = none) : f.product req = req.symbol := by
  rw [cusip] at h
  split at h
  · next hor =>
    -- One of the two texts is there.
    rw [textOr] at h
    split at h
    · next hv => rw [h] at hv; cases hv
    · next hv =>
      rw [h] at hor
      exact absurd (hor.resolve_left Bool.false_ne_true) hv
  · next hor =>
    rw [not_or] at hor
    rw [product, textOr, if_neg hor.2]
    cases hs : f.symbol with
    | none => rfl
    | some s =>
      rw [hs] at hor
      have hne : ¬ decide (s ≠ "") = true := hor.1
      rw [Option.filter_some, if_neg hne]
      rfl

/-- A factor that names one is of it. -/
theorem product_of_cusip_some {c : String} (h : f.cusip = some c) :
    c ≠ "" ∧ f.product req = c := by
  have htext : textOr f.vendorSymbol f.symbol = some c ∧ c ≠ "" := by
    rw [cusip] at h
    split at h
    · next hor =>
      refine ⟨h, ?_⟩
      rw [textOr] at h
      split at h
      · next hv =>
        rw [h] at hv
        exact of_decide_eq_true hv
      · next hv =>
        have hs := hor.resolve_right hv
        rw [h] at hs
        exact of_decide_eq_true hs
    · cases h
  refine ⟨htext.2, ?_⟩
  rw [product, htext.1, Option.filter_some, if_pos (decide_eq_true htext.2)]
  rfl

end FactorConfig

section

variable {indicatorRows : List IndicatorRow} {signalTypeRows : List SignalTypeRow}
  {req : BacktestRequest} {config : StrategyConfig F}

/-- The strategy of a request trades its product, and has a substrategy for each factor. -/
theorem buildConfig_eq_ok (h : buildConfig indicatorRows signalTypeRows req = .ok config) :
    config.internalCusip = req.symbol ∧
      List.Forall₂ (fun f sub => sub.internalCusip = f.cusip) req.factors
        config.getSubstrategies ∧ config.getSubstrategies = config.substrategies := by
  rw [buildConfig] at h
  split at h
  · cases h
  · rw [configOf] at h
    split at h
    · cases h
    · next first rest hfactors =>
      obtain ⟨subs, hsubs, h⟩ := bind_eq_ok.mp h
      obtain ⟨func, hfunc, h⟩ := bind_eq_ok.mp h
      cases h
      rw [mapM_eq_ok] at hsubs
      have hget : (StrategyConfig.getSubstrategies
          { internalCusip := req.symbol, indicatorName := first.indicator, signalFunc := func,
            tradingPeriod := req.tradingPeriod,
            conjunction := (textOr req.conjunction (some "AND")).getD "AND",
            substrategies := subs } : List (SubStrategy F)) = subs := by
        cases hsubs with
        | cons _ _ => rfl
      refine ⟨rfl, ?_, hget⟩
      rw [hget, hfactors]
      refine hsubs.imp fun f sub hsub => ?_
      obtain ⟨_, _, hsub⟩ := bind_eq_ok.mp hsub
      cases hsub
      rfl

omit [NpFloat F] in
/-- `Performance` looks a factor up under its own product. -/
theorem subCusip_eq {f : FactorConfig} {sub : SubStrategy F}
    (hconfig : config.internalCusip = req.symbol) (hsub : sub.internalCusip = f.cusip) :
    FactorFrames.subCusip config sub = f.product req := by
  rw [FactorFrames.subCusip, hsub]
  cases hc : f.cusip with
  | none => exact hconfig.trans (FactorConfig.product_of_cusip_none req hc).symm
  | some c =>
    obtain ⟨hne, hp⟩ := FactorConfig.product_of_cusip_some req hc
    exact (if_neg hne).trans hp.symm

end

/-! ## What the dictionaries are filled from -/

section

variable {fetch : Fetch L F} {req : BacktestRequest} {data data' : DataDict L F}

/-- A factor is one of the readers of the request, with the product and the source it is to be
read from. -/
theorem mem_readers_of_factor {f : FactorConfig} (hf : f ∈ req.factors) :
    (f.product req, f.source req) ∈ req.readers :=
  List.mem_cons_of_mem _ (List.mem_map.mpr ⟨f, hf, rfl⟩)

omit [LinearOrder L] [NpFloat F] in
/-- A frame that the backtest fetches. -/
theorem fetchFor_eq_ok {appRows : List AppRow} {symbol dataSource : String} {frame : Frame L F}
    (h : fetchFor fetch appRows req symbol dataSource = .ok frame) :
    ∃ refresh, fetch symbol dataSource refresh = .ok frame := by
  rw [fetchFor] at h
  split at h
  · cases h
  · exact ⟨_, h⟩

omit [LinearOrder L] [NpFloat F] in
/-- Adding a frame behind the others is found where there was none for the product. -/
theorem lookup_append_single {c k : String} {frame : Frame L F} :
    (data ++ [(c, frame)]).lookup k
      = (data.lookup k).or (if k = c then some frame else none) := by
  rw [List.lookup_append, List.lookup_cons]
  by_cases hk : k = c
  · rw [if_pos hk, hk, beq_self_eq_true]
  · rw [if_neg hk, beq_false_of_ne hk]
    rfl

/-- What the loop over the factors keeps: what is there stays, and what is added is of
the factors. -/
structure Extends (fetch : Fetch L F) (req : BacktestRequest) (data data' : DataDict L F) :
    Prop where
  /-- No frame is replaced. -/
  keeps : ∀ c frame, data.lookup c = some frame → data'.lookup c = some frame
  /-- A frame that was not there was fetched for one of the readers. -/
  added : ∀ c frame, data'.lookup c = some frame → data.lookup c = some frame ∨
    ∃ source refresh, (c, source) ∈ req.readers ∧ fetch c source refresh = .ok frame

omit [LinearOrder L] [NpFloat F] in
/-- **One turn of the loop.** -/
theorem addFactor_extends {appRows : List AppRow} {f : FactorConfig} (hf : f ∈ req.factors)
    (h : addFactor fetch appRows req data f = .ok data') :
    Extends fetch req data data' ∧
      ((data.lookup req.symbol).isSome = true → (data'.lookup (f.product req)).isSome = true) := by
  have hself : Extends fetch req data data := ⟨fun _ _ => id, fun _ _ => .inl⟩
  rw [addFactor] at h
  split at h
  · next hnone =>
    cases h
    rw [FactorConfig.product_of_cusip_none req hnone]
    exact ⟨hself, id⟩
  · next cusip hc =>
    obtain ⟨hne, hp⟩ := FactorConfig.product_of_cusip_some req hc
    rw [hp]
    split at h
    · next hnew =>
      obtain ⟨frame, hframe, h⟩ := bind_eq_ok.mp h
      cases h
      obtain ⟨refresh, hfetch⟩ := fetchFor_eq_ok hframe
      refine ⟨⟨fun c fr hfr => by rw [lookup_append_single, hfr]; rfl, fun c fr hfr => ?_⟩,
        fun _ => by rw [lookup_append_single, hnew.2, if_pos rfl]; rfl⟩
      rw [lookup_append_single] at hfr
      cases hold : data.lookup c with
      | some old =>
        rw [hold] at hfr
        exact .inl hfr
      | none =>
        rw [hold, Option.none_or] at hfr
        split at hfr
        · next hcc =>
          cases hfr
          exact .inr ⟨_, refresh, hcc ▸ hp ▸ mem_readers_of_factor hf, hcc ▸ hfetch⟩
        · cases hfr
    · next hold =>
      cases h
      refine ⟨hself, fun _ => ?_⟩
      by_contra hsome
      exact hold ⟨hne, Option.not_isSome_iff_eq_none.mp hsome⟩

omit [LinearOrder L] [NpFloat F] in
/-- The whole loop. -/
theorem foldlM_addFactor {appRows : List AppRow} {fs : List FactorConfig}
    (hfs : ∀ f ∈ fs, f ∈ req.factors)
    (h : fs.foldlM (addFactor fetch appRows req) data = .ok data') :
    Extends fetch req data data' ∧ ((data.lookup req.symbol).isSome = true →
      ∀ f ∈ fs, (data'.lookup (f.product req)).isSome = true) := by
  induction fs generalizing data with
  | nil =>
    cases h
    exact ⟨⟨fun _ _ => id, fun _ _ => .inl⟩, fun _ f hf => absurd hf List.not_mem_nil⟩
  | cons f fs ih =>
    rw [List.foldlM_cons] at h
    obtain ⟨mid, hmid, h⟩ := bind_eq_ok.mp h
    obtain ⟨hstep, hcov⟩ := addFactor_extends (hfs f List.mem_cons_self) hmid
    obtain ⟨hrest, hcovs⟩ := ih (fun g hg => hfs g (List.mem_cons_of_mem f hg)) h
    refine ⟨⟨fun c fr hfr => hrest.keeps c fr (hstep.keeps c fr hfr), fun c fr hfr => ?_⟩,
      fun hsome g hg => ?_⟩
    · obtain hmidfr | hnew := hrest.added c fr hfr
      · exact hstep.added c fr hmidfr
      · exact .inr hnew
    · have hmidsome (k : String) (hk : (data.lookup k).isSome = true) :
          (mid.lookup k).isSome = true := by
        obtain ⟨fr, hfr⟩ := Option.isSome_iff_exists.mp hk
        rw [hstep.keeps k fr hfr]
        rfl
      obtain rfl | hg := List.mem_cons.mp hg
      · obtain ⟨fr, hfr⟩ := Option.isSome_iff_exists.mp (hcov hsome)
        rw [hrest.keeps _ fr hfr]
        rfl
      · exact hcovs (hmidsome _ hsome) g hg

omit [NpFloat F] in
/-- The backtest's dictionary. -/
theorem buildDataDict_filled {dates : Dates L} {appRows : List AppRow}
    (h : buildDataDict dates fetch appRows req = .ok data) : FilledFrom fetch req data := by
  obtain ⟨main, hmain, h⟩ := bind_eq_ok.mp h
  obtain ⟨all, hall, h⟩ := bind_eq_ok.mp h
  obtain ⟨_, _, h⟩ := bind_eq_ok.mp h
  cases h
  obtain ⟨refresh, hfetch⟩ := fetchFor_eq_ok hmain
  obtain ⟨hext, hcov⟩ := foldlM_addFactor (fun _ => id) hall
  have hself : List.lookup req.symbol [(req.symbol, main)] = some main := List.lookup_cons_self
  refine ⟨fun c frame hc => ?_, ⟨main, refresh, hext.keeps _ _ hself, hfetch⟩,
    hcov (by rw [hself]; rfl)⟩
  obtain hold | hnew := hext.added c frame hc
  · rw [List.lookup_cons] at hold
    split at hold
    · next hkey =>
      cases hold
      rw [beq_iff_eq] at hkey
      exact ⟨req.dataSource, refresh, hkey ▸ List.mem_cons_self, hkey ▸ hfetch⟩
    · cases hold
  · exact hnew

end

section

variable {fetch : Fetch L F} {req : BacktestRequest} {config : StrategyConfig F}
  {data : DataDict L F}

/-- `setdefault` adds a value where there was none, and otherwise changes nothing. -/
theorem lookup_setdefault {α : Type} {key k : String} {v : α} {d : List (String × α)} :
    (setdefault key v d).lookup k = (d.lookup k).or (if k = key then some v else none) := by
  rw [setdefault]
  split
  · next hnone =>
    rw [List.lookup_append, List.lookup_cons]
    by_cases hk : k = key
    · rw [if_pos hk, hk, beq_self_eq_true]
    · rw [if_neg hk, beq_false_of_ne hk]
      rfl
  · next hsome =>
    by_cases hk : k = key
    · obtain ⟨w, hw⟩ := Option.ne_none_iff_exists'.mp hsome
      rw [hk, hw]
      rfl
    · rw [if_neg hk, Option.or_none]

/-- The key under which the live evaluation records a factor's source. -/
theorem liveKey_eq (f : FactorConfig) (req : BacktestRequest) :
    (textOr (textOr f.vendorSymbol f.symbol) (some req.symbol)).getD req.symbol
      = f.product req := by
  rw [FactorConfig.product, textOr.eq_def (textOr f.vendorSymbol f.symbol)]
  cases textOr f.vendorSymbol f.symbol with
  | none => rfl
  | some c =>
    rw [Option.filter_some, Option.any_some]
    split
    · rfl
    · rfl

/-- The sources that the loop over the factors records are named by the request. -/
theorem foldl_setdefault {fs : List FactorConfig} (hfs : ∀ f ∈ fs, f ∈ req.factors)
    {d : List (String × String)} (h0 : d.lookup req.symbol = some req.dataSource)
    (hd : ∀ c s, d.lookup c = some s → (c, s) ∈ req.readers) :
    let sources := fs.foldl (fun sources f => setdefault (f.product req) (f.source req) sources) d
    sources.lookup req.symbol = some req.dataSource ∧
      (∀ c s, sources.lookup c = some s → (c, s) ∈ req.readers) ∧
      (∀ c, (d.lookup c).isSome = true → (sources.lookup c).isSome = true) ∧
      ∀ f ∈ fs, (sources.lookup (f.product req)).isSome = true := by
  induction fs generalizing d with
  | nil => exact ⟨h0, hd, fun _ => id, fun f hf => absurd hf List.not_mem_nil⟩
  | cons f fs ih =>
    have hkeep (c : String) (hc : (d.lookup c).isSome = true ∨ c = f.product req) :
        ((setdefault (f.product req) (f.source req) d).lookup c).isSome = true := by
      rw [lookup_setdefault, Option.isSome_or, Bool.or_eq_true]
      refine hc.imp_right fun hc => ?_
      rw [if_pos hc]
      rfl
    have hrest : (setdefault (f.product req) (f.source req) d).lookup req.symbol
          = some req.dataSource ∧
        ∀ c s, (setdefault (f.product req) (f.source req) d).lookup c = some s →
          (c, s) ∈ req.readers := by
      refine ⟨by rw [lookup_setdefault, h0]; rfl, fun c s hs => ?_⟩
      rw [lookup_setdefault] at hs
      cases hold : d.lookup c with
      | some t =>
        rw [hold] at hs
        exact hd c s (hold.trans hs)
      | none =>
        rw [hold, Option.none_or] at hs
        split at hs
        · next hkey =>
          cases hs
          exact hkey ▸ mem_readers_of_factor (hfs f List.mem_cons_self)
        · cases hs
    obtain ⟨htraded, hread, hold, hcov⟩ :=
      ih (fun g hg => hfs g (List.mem_cons_of_mem f hg)) hrest.1 hrest.2
    refine ⟨htraded, hread, fun c hc => hold c (hkeep c (.inl hc)), fun g hg => ?_⟩
    obtain rfl | hg := List.mem_cons.mp hg
    · exact hold _ (hkeep _ (.inr rfl))
    · exact hcov g hg

omit [NpFloat F] in
/-- **The live sources are those of the request**: the traded product's is the request's own,
every one is named by a reader, and every factor's product has one. Which of two readers of one
product it is, the order decides. -/
theorem dataSources_eq_ok {sources : List (String × String)}
    (hconfig : config.internalCusip = req.symbol)
    (h : dataSources config (some req) = .ok sources) :
    sources.lookup req.symbol = some req.dataSource ∧
      (∀ c s, sources.lookup c = some s → (c, s) ∈ req.readers) ∧
      ∀ f ∈ req.factors, (sources.lookup (f.product req)).isSome = true := by
  rw [dataSources, Except.ok.injEq, hconfig] at h
  simp only [liveKey_eq] at h
  rw [← h]
  suffices hone : ∀ c s, List.lookup c [(req.symbol, req.dataSource)] = some s →
      (c, s) ∈ req.readers by
    obtain ⟨htraded, hread, -, hcov⟩ := foldl_setdefault (fun _ => id) List.lookup_cons_self hone
    exact ⟨htraded, hread, hcov⟩
  intro c s hs
  rw [List.lookup_cons] at hs
  split at hs
  · next hkey =>
    cases hs
    rw [beq_iff_eq] at hkey
    exact hkey ▸ List.mem_cons_self
  · cases hs

omit [LinearOrder L] [NpFloat F] in
/-- A frame that the live evaluation loads. -/
theorem providerLoad_eq_ok {sources : List (String × String)} {cusip : String}
    {frame : Frame L F} (h : providerLoad fetch sources cusip = .ok frame) :
    ∃ source refresh, sources.lookup cusip = some source ∧
      fetch cusip source refresh = .ok frame := by
  rw [providerLoad] at h
  split at h
  · cases h
  · next source hsource =>
    refine ⟨source, ?_⟩
    split at h
    · exact ⟨true, hsource, h⟩
    · cases h
    · exact ⟨false, hsource, h⟩

omit [NpFloat F] in
/-- The products of the factors are among those that are loaded. -/
theorem product_mem_loadOrder {f : FactorConfig} {sub : SubStrategy F}
    (hconfig : config.internalCusip = req.symbol) (hsub : sub.internalCusip = f.cusip)
    (hmem : sub ∈ config.substrategies) : f.product req ∈ loadOrder config := by
  by_cases hp : f.product req = config.internalCusip
  · rw [hp]
    exact List.mem_cons_self
  · refine List.mem_cons_of_mem _ (List.mem_mergeSort.mpr (List.mem_filter.mpr
      ⟨List.mem_dedup.mpr (List.mem_cons_of_mem _ (List.mem_filterMap.mpr ⟨sub, hmem, ?_⟩)),
        decide_eq_true hp⟩))
    rw [hsub]
    cases hc : f.cusip with
    | none => exact absurd ((FactorConfig.product_of_cusip_none req hc).trans hconfig.symm) hp
    | some c => rw [(FactorConfig.product_of_cusip_some req hc).2]

omit [LinearOrder L] [NpFloat F] in
/-- A dictionary that a loop makes has an entry for each of its turns. -/
theorem lookup_of_mapM {load : String → Except EvaluationError (Frame L F)} {ks : List String}
    (h : ks.mapM (loadEntry load) = .ok data) {c : String} :
    (c ∈ ks → ∃ frame, data.lookup c = some frame) ∧
      ∀ frame, data.lookup c = some frame → load c = .ok frame := by
  induction ks generalizing data with
  | nil =>
    cases h
    exact ⟨fun hc => absurd hc List.not_mem_nil, fun _ hf => by cases hf⟩
  | cons k ks ih =>
    obtain ⟨entry, rest, hentry, hrest, rfl⟩ := mapM_cons_eq_ok.mp h
    obtain ⟨frame, hframe, hentry⟩ := bind_eq_ok.mp hentry
    cases hentry
    rw [List.lookup_cons]
    by_cases hk : c = k
    · rw [hk, beq_self_eq_true]
      exact ⟨fun _ => ⟨frame, rfl⟩, fun f hf => by cases hf; exact hframe⟩
    · rw [beq_false_of_ne hk]
      exact ⟨fun hc => (ih hrest).1 ((List.mem_cons.mp hc).resolve_left hk), (ih hrest).2⟩

/-- Lists related pointwise have items in the same places. -/
theorem exists_getElem? {α β : Type} {R : α → β → Prop} {xs : List α} {ys : List β}
    (h : List.Forall₂ R xs ys) {i : ℕ} {x : α} (hx : xs[i]? = some x) :
    ∃ y, ys[i]? = some y ∧ R x y := by
  induction h generalizing i with
  | nil => cases hx
  | cons hr _ ih =>
    cases i with
    | zero =>
      cases hx
      exact ⟨_, rfl, hr⟩
    | succ i => exact ih hx

omit [LinearOrder L] [NpFloat F] in
/-- The live evaluation's dictionary. -/
theorem liveDataDict_filled (hconfig : config.internalCusip = req.symbol)
    (hsubs : List.Forall₂ (fun f sub => sub.internalCusip = f.cusip) req.factors
      config.substrategies)
    (h : liveDataDict fetch config (some req) = .ok data) : FilledFrom fetch req data := by
  obtain ⟨sources, hsources, h⟩ := bind_eq_ok.mp h
  obtain ⟨htraded, hmem, -⟩ := dataSources_eq_ok hconfig hsources
  obtain ⟨all, hall, h⟩ := bind_eq_ok.mp h
  have heq : all = data := by
    split at h
    · cases h
    · cases h
      rfl
  rw [heq] at hall
  refine ⟨fun c frame hc => ?_, ?_, fun f hf => ?_⟩
  · obtain ⟨source, refresh, hs, hfetch⟩ := providerLoad_eq_ok ((lookup_of_mapM hall).2 frame hc)
    exact ⟨source, refresh, hmem c source hs, hfetch⟩
  · have hfirst : req.symbol ∈ loadOrder config := hconfig ▸ List.mem_cons_self
    obtain ⟨frame, hframe⟩ := (lookup_of_mapM hall).1 hfirst
    obtain ⟨source, refresh, hs, hfetch⟩ :=
      providerLoad_eq_ok ((lookup_of_mapM hall).2 frame hframe)
    cases htraded.symm.trans hs
    exact ⟨frame, refresh, hframe, hfetch⟩
  · obtain ⟨i, hi⟩ := List.mem_iff_getElem?.mp hf
    obtain ⟨sub, hsub, hr⟩ := exists_getElem? hsubs hi
    obtain ⟨frame, hframe⟩ := (lookup_of_mapM hall).1
      (product_mem_loadOrder hconfig hr (List.mem_of_getElem? hsub))
    rw [hframe]
    rfl

end

/-! ## One source for each product -/

section

variable {fetch : Fetch L F} {req : BacktestRequest} {config : StrategyConfig F}
  {data : DataDict L F}

omit [LinearOrder L] in
/-- With one source for each product, a factor reads its own. -/
theorem FilledFrom.readsOwn (h : FilledFrom fetch req data) (hone : req.OneSource)
    (hconfig : config.internalCusip = req.symbol)
    (hsubs : List.Forall₂ (fun f sub => sub.internalCusip = f.cusip) req.factors
      config.getSubstrategies) : ReadsOwn fetch req config data := by
  intro i f sub hf hsub
  have hmem : f ∈ req.factors := List.mem_of_getElem? hf
  obtain ⟨sub', hsub', hr⟩ := exists_getElem? hsubs hf
  cases hsub.symm.trans hsub'
  obtain ⟨frame, hframe⟩ := Option.isSome_iff_exists.mp (h.covers f hmem)
  obtain ⟨source, refresh, hread, hfetch⟩ := h.fetched _ frame hframe
  have hsource : source = f.source req :=
    hone _ hread _ (mem_readers_of_factor hmem) rfl
  refine ⟨frame, refresh, ?_, hsource ▸ hfetch⟩
  rw [subCusip_eq hconfig hr, DataDict.get, hframe]

/-- Stores that answer with the source's name. -/
def named (dates : Dates L) (req : BacktestRequest) : Fetch L F := fun _ source _ =>
  .ok ⟨[dates.timestamp req.start, dates.timestamp req.stop], [(source, ⟨[nan, nan], rfl⟩)]⟩

omit [LinearOrder L] in
/-- Where every factor reads its own from such stores, no product is named with two
sources. -/
theorem FilledFrom.oneSource {dates : Dates L} (h : FilledFrom (named dates req) req data)
    (hconfig : config.internalCusip = req.symbol)
    (hsubs : List.Forall₂ (fun f sub => sub.internalCusip = f.cusip) req.factors
      config.getSubstrategies) (hown : ReadsOwn (named dates req) req config data) :
    req.OneSource := by
  -- The frame of a reader's product has the name of the reader's source.
  have hname (r : String × String) (hr : r ∈ req.readers) :
      ∃ frame, data.lookup r.1 = some frame ∧ (frame.columns.map Prod.fst) = [r.2] := by
    obtain rfl | hr := List.mem_cons.mp hr
    · obtain ⟨frame, refresh, hframe, hfetch⟩ := h.traded
      cases hfetch
      exact ⟨_, hframe, rfl⟩
    · obtain ⟨f, hf, rfl⟩ := List.mem_map.mp hr
      obtain ⟨i, hi⟩ := List.mem_iff_getElem?.mp hf
      obtain ⟨sub, hsub, hcusip⟩ := exists_getElem? hsubs hi
      obtain ⟨frame, refresh, hget, hfetch⟩ := hown i f sub hi hsub
      cases hfetch
      rw [subCusip_eq hconfig hcusip, DataDict.get] at hget
      split at hget
      · next g hg =>
        cases hget
        exact ⟨_, hg, rfl⟩
      · cases hget
  intro r hr r' hr' hsame
  obtain ⟨frame, hframe, hcol⟩ := hname r hr
  obtain ⟨frame', hframe', hcol'⟩ := hname r' hr'
  rw [hsame, hframe'] at hframe
  cases hframe
  exact List.head_eq_of_cons_eq (hcol.symm.trans hcol')

/-! ## Stores that always answer -/

omit [LinearOrder L] in
/-- The loop over the factors goes through, on frames over the range that is asked for. -/
theorem foldlM_named {dates : Dates L} {appRows : List AppRow} (fs : List FactorConfig)
    {data : DataDict L F}
    (hdata : ∀ e ∈ data, e.2.index = [dates.timestamp req.start, dates.timestamp req.stop]) :
    ∃ data', fs.foldlM (addFactor (named dates req) appRows req) data = .ok data' ∧
      ∀ e ∈ data', e.2.index = [dates.timestamp req.start, dates.timestamp req.stop] := by
  induction fs generalizing data with
  | nil => exact ⟨data, rfl, hdata⟩
  | cons f fs ih =>
    obtain ⟨mid, hmid, hindex⟩ : ∃ mid, addFactor (named dates req) appRows req data f = .ok mid ∧
        ∀ e ∈ mid, e.2.index = [dates.timestamp req.start, dates.timestamp req.stop] := by
      rw [addFactor]
      split
      · exact ⟨data, rfl, hdata⟩
      · split
        · refine ⟨_, rfl, fun e he => ?_⟩
          obtain he | he := List.mem_append.mp he
          · exact hdata e he
          · rw [List.mem_singleton.mp he]
        · exact ⟨data, rfl, hdata⟩
    obtain ⟨data', hdata', hall⟩ := ih hindex
    exact ⟨data', by rw [List.foldlM_cons, hmid]; exact hdata', hall⟩

omit [NpFloat F] in
/-- Frames over the range that is asked for are in step. -/
theorem enforceDateSync_of_range {dates : Dates L}
    (hdata : ∀ e ∈ data, e.2.index = [dates.timestamp req.start, dates.timestamp req.stop]) :
    enforceDateSync dates req data = .ok () := by
  have hbounds (e : String × Frame L F) (he : e ∈ data) : boundsOf e = .ok (e.1,
      min (dates.timestamp req.start) (dates.timestamp req.stop),
      max (dates.timestamp req.start) (dates.timestamp req.stop)) := by
    rw [boundsOf, hdata e he]
    rfl
  rw [enforceDateSync]
  split
  · rfl
  · obtain ⟨bounds, hb⟩ := exists_mapM_eq_ok fun e he => ⟨_, hbounds e he⟩
    have hmem (b : String × L × L) (h : b ∈ bounds) :
        b.2 = (min (dates.timestamp req.start) (dates.timestamp req.stop),
          max (dates.timestamp req.start) (dates.timestamp req.stop)) := by
      obtain ⟨e, he, heb⟩ := exists_of_mem_mapM hb h
      cases (hbounds e he).symm.trans heb
      rfl
    rw [hb]
    show (match (bounds.map fun b => b.2.1).max?, (bounds.map fun b => b.2.2).min? with
      | some commonStart, some commonEnd => _
      | _, _ => _) = _
    split
    · next commonStart commonEnd hstart hend =>
      obtain ⟨b, hb, hbs⟩ := List.mem_map.mp (List.max?_mem hstart)
      obtain ⟨c, hc, hce⟩ := List.mem_map.mp (List.min?_mem hend)
      rw [hmem b hb] at hbs
      rw [hmem c hc] at hce
      refine if_neg ?_
      rw [← hbs, ← hce, not_or, not_lt, not_lt]
      exact ⟨min_le_left _ _, le_max_right _ _⟩
    · rfl

/-- The backtest goes through on them. -/
theorem exists_buildDataDict (dates : Dates L) (appRows : List AppRow) (req : BacktestRequest) :
    ∃ data, buildDataDict (F := F) dates (named dates req) appRows req = .ok data := by
  have hloop : ∃ data, req.factors.foldlM (addFactor (F := F) (named dates req) appRows req)
        [(req.symbol, ⟨[dates.timestamp req.start, dates.timestamp req.stop],
          [(req.dataSource, ⟨[nan, nan], rfl⟩)]⟩)] = .ok data ∧
      ∀ e ∈ data, e.2.index = [dates.timestamp req.start, dates.timestamp req.stop] :=
    foldlM_named req.factors fun e he => by rw [List.mem_singleton.mp he]
  obtain ⟨data, hdata, hindex⟩ := hloop
  exact ⟨data, bind_eq_ok.mpr ⟨_, rfl, bind_eq_ok.mpr ⟨data, hdata, bind_eq_ok.mpr
    ⟨(), enforceDateSync_of_range hindex, rfl⟩⟩⟩⟩

omit [LinearOrder L] in
theorem exists_liveDataDict (dates : Dates L) (hconfig : config.internalCusip = req.symbol)
    (hsubs : List.Forall₂ (fun f sub => sub.internalCusip = f.cusip) req.factors
      config.substrategies) :
    ∃ data, liveDataDict (named dates req) config (some req) = .ok data := by
  obtain ⟨sources, hsources⟩ : ∃ sources, dataSources config (some req) = .ok sources := ⟨_, rfl⟩
  obtain ⟨htraded, -, hcov⟩ := dataSources_eq_ok hconfig hsources
  have hload (c : String) (hc : c ∈ loadOrder config) :
      ∃ entry, loadEntry (providerLoad (F := F) (named dates req) sources) c = .ok entry := by
    have hsource : ∃ s, sources.lookup c = some s := by
      obtain rfl | hc := List.mem_cons.mp hc
      · exact ⟨_, hconfig ▸ htraded⟩
      · have hmem := List.mem_dedup.mp (List.mem_of_mem_filter (List.mem_mergeSort.mp hc))
        obtain rfl | hmem := List.mem_cons.mp hmem
        · exact ⟨_, hconfig ▸ htraded⟩
        · obtain ⟨sub, hsub, hcusip⟩ := List.mem_filterMap.mp hmem
          obtain ⟨i, hi⟩ := List.mem_iff_getElem?.mp hsub
          obtain ⟨f, hf, hr⟩ := exists_getElem? hsubs.flip hi
          have hp := FactorConfig.product_of_cusip_some req (hr.symm.trans hcusip)
          exact Option.isSome_iff_exists.mp (hp.2 ▸ hcov f (List.mem_of_getElem? hf))
    obtain ⟨s, hs⟩ := hsource
    refine ⟨_, bind_eq_ok.mpr ⟨⟨[dates.timestamp req.start, dates.timestamp req.stop],
      [(s, ⟨[nan, nan], rfl⟩)]⟩, ?_, rfl⟩⟩
    rw [providerLoad, hs]
    rfl
  obtain ⟨data, hdata⟩ := exists_mapM_eq_ok hload
  refine ⟨data, bind_eq_ok.mpr ⟨sources, hsources, bind_eq_ok.mpr ⟨data, hdata, ?_⟩⟩⟩
  have hfull : (data.find? fun entry => entry.2.isEmpty) = none := by
    refine List.find?_eq_none.mpr fun e he => ?_
    obtain ⟨c, -, hc⟩ := exists_of_mem_mapM hdata he
    obtain ⟨frame, hframe, hc⟩ := bind_eq_ok.mp hc
    cases hc
    obtain ⟨_, _, -, hfetch⟩ := providerLoad_eq_ok hframe
    cases hfetch
    exact Bool.false_ne_true
  rw [hfull]

end

/-- **Each factor reads its own source exactly when** no product is named with two of
them, by two factors or by a factor and the request. It is so in the backtest, and in the
live evaluation of the saved request. -/
theorem factor_source_iff (dates : Dates L) (appRows : List AppRow)
    (indicatorRows : List IndicatorRow) (signalTypeRows : List SignalTypeRow)
    (req : BacktestRequest) (config : StrategyConfig F)
    (hconfig : buildConfig indicatorRows signalTypeRows req = .ok config) :
    ((∀ (fetch : Fetch L F) (data : DataDict L F),
        buildDataDict dates fetch appRows req = .ok data → ReadsOwn fetch req config data) ↔
      req.OneSource) ∧
    ((∀ (fetch : Fetch L F) (data : DataDict L F),
        liveDataDict fetch config (some req) = .ok data → ReadsOwn fetch req config data) ↔
      req.OneSource) := by
  obtain ⟨hsymbol, hsubs, hget⟩ := buildConfig_eq_ok hconfig
  constructor
  · constructor
    · intro h
      obtain ⟨data, hdata⟩ := exists_buildDataDict (F := F) dates appRows req
      exact (buildDataDict_filled hdata).oneSource hsymbol hsubs (h _ data hdata)
    · exact fun hone fetch data hdata =>
        (buildDataDict_filled hdata).readsOwn hone hsymbol hsubs
  · constructor
    · intro h
      obtain ⟨data, hdata⟩ := exists_liveDataDict dates hsymbol (hget ▸ hsubs)
      exact (liveDataDict_filled hsymbol (hget ▸ hsubs) hdata).oneSource hsymbol hsubs
        (h _ data hdata)
    · exact fun hone fetch data hdata =>
        (liveDataDict_filled hsymbol (hget ▸ hsubs) hdata).readsOwn hone hsymbol hsubs

/-! ## One product from two sources -/

namespace Sources

/-- Two days. -/
def dates : Dates ℕ where
  timestamp text := if text = "2026-01-01" then 1 else 2
  date l := s!"day {l}"

/-- Closes of one day after the other, by source. -/
def store : Fetch ℕ ExtRat := fun _ source _ =>
  let close : ExtRat := if source = "yahoo" then .fin 20 else .fin 35
  .ok ⟨[1, 2], [("price", ⟨[close, close], rfl⟩), ("factor", ⟨[close, close], rfl⟩)]⟩

/-- An average of a product's price, as a source has it. -/
def average (symbol : Option String) (dataSource : String) : FactorConfig where
  symbol := symbol
  dataSource := some dataSource
  indicator := "get_sma"
  strategy := "momentum"

/-- A request that trades one product on the prices of these factors. -/
def request (first second : FactorConfig) : BacktestRequest where
  symbol := "btcusdt.crypto"
  start := "2026-01-01"
  stop := "2026-01-02"
  tradingPeriod := 365
  dataSource := "yahoo"
  factors := [first, second]
  conjunction := some "AND"
  namesSource := by decide
  hasFactor := List.cons_ne_nil _ _

/-- The substrategy of such a factor. -/
def substrategy (internalCusip : Option String) : SubStrategy ExtRat where
  indicatorName := "get_sma"
  signalFuncName := "momentum_band_signal"
  window := 0
  signal := 0
  dataColumn := "price"
  internalCusip := internalCusip

/-- The strategy of such a request. -/
def config (first second : Option String) : StrategyConfig ExtRat where
  internalCusip := "btcusdt.crypto"
  indicatorName := "get_sma"
  signalFunc := .momentumBandSignal
  tradingPeriod := 365
  conjunction := "AND"
  substrategies := [substrategy first, substrategy second]

/-- `REFDATA`. -/
def indicatorRows : List IndicatorRow := [⟨"get_sma", "N"⟩]

@[inherit_doc indicatorRows]
def signalTypeRows : List SignalTypeRow :=
  [⟨"momentum", "momentum_band_signal", "momentum_bounded_signal"⟩]

/-- What the second factor's series is, on some frames. -/
def secondSeries (config : StrategyConfig ExtRat)
    (data : Except EvaluationError (DataDict ℕ ExtRat)) : Option (List ExtRat) := do
  let data ← data.toOption
  let frames ← (FactorFrames.init data config).toOption
  let sub ← config.substrategies[1]?
  let c ← (frames.factor sub).toOption
  return c.1

end Sources

/-- The second factor is to be read from Glassnode, at 35. The first factor, or the
request, has named its product with Yahoo, so it is read from there, at 20, in the
backtest and in the live evaluation alike. -/
theorem second_source_lost :
    (buildConfig Sources.indicatorRows Sources.signalTypeRows
        (Sources.request (Sources.average (some "vix.equity_us") "yahoo")
          (Sources.average (some "vix.equity_us") "glassnode"))
        = .ok (Sources.config (some "vix.equity_us") (some "vix.equity_us")) ∧
      Sources.secondSeries (Sources.config (some "vix.equity_us") (some "vix.equity_us"))
        (buildDataDict Sources.dates Sources.store []
          (Sources.request (Sources.average (some "vix.equity_us") "yahoo")
            (Sources.average (some "vix.equity_us") "glassnode"))) = some [.fin 20, .fin 20] ∧
      Sources.secondSeries (Sources.config (some "vix.equity_us") (some "vix.equity_us"))
        (liveDataDict Sources.store
          (Sources.config (some "vix.equity_us") (some "vix.equity_us"))
          (some (Sources.request (Sources.average (some "vix.equity_us") "yahoo")
            (Sources.average (some "vix.equity_us") "glassnode")))) = some [.fin 20, .fin 20]) ∧
    (buildConfig Sources.indicatorRows Sources.signalTypeRows
        (Sources.request (Sources.average none "yahoo") (Sources.average none "glassnode"))
        = .ok (Sources.config none none) ∧
      Sources.secondSeries (Sources.config none none)
        (buildDataDict Sources.dates Sources.store []
          (Sources.request (Sources.average none "yahoo") (Sources.average none "glassnode")))
        = some [.fin 20, .fin 20]) ∧
    ∀ symbol refresh, (Sources.store symbol "glassnode" refresh).toOption.map
        (fun f => f.columns.map fun c => c.2.1) = some [[.fin 35, .fin 35], [.fin 35, .fin 35]] :=
  ⟨⟨by decide +kernel, by decide +kernel, by decide +kernel⟩,
    ⟨by decide +kernel, by decide +kernel⟩, fun _ _ => rfl⟩

/-- A price and a volatility index from two sources. Each is read from its own. -/
theorem two_products_own_source :
    ((∀ (fetch : Fetch ℕ ExtRat) (data : DataDict ℕ ExtRat),
        buildDataDict Sources.dates fetch []
            (Sources.request (Sources.average none "yahoo")
              (Sources.average (some "vix.equity_us") "glassnode")) = .ok data →
          ReadsOwn fetch (Sources.request (Sources.average none "yahoo")
            (Sources.average (some "vix.equity_us") "glassnode"))
            (Sources.config none (some "vix.equity_us")) data) ↔
      (Sources.request (Sources.average none "yahoo")
        (Sources.average (some "vix.equity_us") "glassnode")).OneSource) ∧
    ((∀ (fetch : Fetch ℕ ExtRat) (data : DataDict ℕ ExtRat),
        liveDataDict fetch (Sources.config none (some "vix.equity_us"))
            (some (Sources.request (Sources.average none "yahoo")
              (Sources.average (some "vix.equity_us") "glassnode"))) = .ok data →
          ReadsOwn fetch (Sources.request (Sources.average none "yahoo")
            (Sources.average (some "vix.equity_us") "glassnode"))
            (Sources.config none (some "vix.equity_us")) data) ↔
      (Sources.request (Sources.average none "yahoo")
        (Sources.average (some "vix.equity_us") "glassnode")).OneSource) :=
  factor_source_iff Sources.dates [] Sources.indicatorRows Sources.signalTypeRows _ _
    (by decide +kernel)

example : (Sources.request (Sources.average none "yahoo")
    (Sources.average (some "vix.equity_us") "glassnode")).OneSource := by decide
