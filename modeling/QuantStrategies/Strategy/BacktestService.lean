import QuantStrategies.Strategy.BestParams
import QuantStrategies.Strategy.Figures
import QuantStrategies.Strategy.WalkForward

/-!
# What the backtest endpoints answer

A search is answered with its grid, with a report of its best set, and, where it was
asked for, with a walk-forward test. A report of a set that the caller picks from the
grid is asked for by another request. The two are answered by engines of their own: one
scores a grid, the other reports on one set.

A report that fails does not fail the search. The answer is then without it, or, for a
walk-forward test, has the error in its place.

What the process brings along is in `Engine` (the sampler, the sort, and what numbers do
that the model leaves open) and in `Stores` (what requests are answered from). Both are
parameters of the endpoints. A request's failure is an error with the source's text, and a
failure of the report alone is a value in the answer.
-/

open Pandas NpFloat Result

/-! ## Reports -/

/-- What a report raises. -/
inductive ReportError where
  | python (error : PyError)
  | figure (error : FigureError)
deriving DecidableEq

/-- The parameters that a report is asked for: a row of a search, or what the caller
picked, scalars for one factor and tuples for several. -/
inductive PickedParams (F : Type) where
  | row (best : Record F)
  | scalars (window : ℤ) (signal : F)
  | tuples (windows : List ℤ) (signals : List F)

/-- `EquityPoint`. -/
structure EquityPoint (L F : Type) where
  /-- The bar. -/
  datetime : L
  /-- The cumulative return of the strategy. -/
  cumu : F
  /-- The cumulative return of holding. -/
  buyHoldCumu : F
  /-- The drawdown of the strategy. -/
  dd : F
  /-- The drawdown of holding. -/
  buyHoldDd : F

/-- `PerformanceResponse`. -/
structure PerformanceResponse (L F : Type) where
  /-- The figures of the strategy, by label. -/
  strategyMetrics : Record F
  /-- The figures of holding, by the same labels. -/
  buyHoldMetrics : Record F
  /-- The curves, bar by bar. -/
  equityCurve : List (EquityPoint L F)

/-- The label of a figure. -/
def Figure.label : Figure → String
  | totalReturn => "Total Return"
  | annualizedReturn => "Annualized Return"
  | sharpeRatio => "Sharpe Ratio"
  | maxDrawdown => "Max Drawdown"
  | calmarRatio => "Calmar Ratio"

/-- The figures, in the order of a report. -/
def Figure.all : List Figure :=
  [totalReturn, annualizedReturn, sharpeRatio, maxDrawdown, calmarRatio]

section

variable {L F : Type} [NpFloat F]

/-- A series of the five figures. -/
def metricsOf (figures : Figure → Except FigureError F) : Except FigureError (List (String × F)) :=
  Figure.all.mapM fun f => do
    let x ← figures f
    return (f.label, x)

/-- `.replace({np.nan: None}).to_dict()`. -/
def metricsRecord (metrics : List (String × F)) : Record F :=
  metrics.map fun e => (e.1, (Cell.float e.2).replaceNan)

/-- The points of the chart: the bars on which there is equity. -/
def equityCurve (index : List L) (e : Enriched F) : List (EquityPoint L F) :=
  let points := List.zipWith (fun l (c, bc, d, bd) => ⟨l, c, bc, d, bd⟩) index
    (e.cumu.zip (e.buyHoldCumu.zip (e.dd.zip e.buyHoldDd)))
  points.filter fun point => !isNan point.cumu

/-- A parameter of a factor in a row: its own, or the one that all have. -/
def pick {α : Type} (read : Cell F → Except PyError α) (best : Record F) (key shared : String) :
    Except PyError α :=
  match (best.lookup key).orElse fun _ => best.lookup shared with
  | some c => read c
  | none => .error .typeError

/-- The one parameter of a row, where it has it. -/
def pickOne {α : Type} (read : Cell F → Except PyError α) (best : Record F) (key : String) :
    Except PyError (Option (Arg α)) :=
  match best.lookup key with
  | none | some .null => .ok none
  | some c => do
    let x ← read c
    return some (.one x)

/-- The window and the signal that `_build_perf_response` takes from what it is given. -/
def reportParams (config : StrategyConfig F) :
    PickedParams F → Except PyError (Option (Arg ℤ) × Option (Arg F))
  | .tuples windows signals => .ok (some (.tuple windows), some (.tuple signals))
  | .scalars window signal =>
    let n := config.getSubstrategies.length
    if 1 < n then .ok (some (.tuple (List.replicate n window)), some (.tuple (List.replicate n signal)))
    else .ok (some (.one window), some (.one signal))
  | .row best =>
    let n := config.getSubstrategies.length
    if 1 < n then do
      let windows ← (List.range n).mapM fun i =>
        pick Cell.window best (SearchSpace.windowKey i) "window"
      let signals ← (List.range n).mapM fun i =>
        pick Cell.signal best (SearchSpace.signalKey i) "signal"
      return (some (.tuple windows), some (.tuple signals))
    else do
      let window ← pickOne Cell.window best "window"
      let signal ← pickOne Cell.signal best "signal"
      return (window, signal)

end

section

variable {L F : Type} [DecidableEq L] [NpFloat F]

/-- `evaluate_performance`: positions and returns at fixed parameters. -/
def evaluatePerformance (data : DataDict L F) (config : StrategyConfig F)
    (params : Option (Arg ℤ) × Option (Arg F)) (feeBps : Option F) (minMetricObs : ℤ) :
    Except PyError (Performance L F × Enriched F) := do
  let perf ← Performance.init data config params.1 params.2 feeBps minMetricObs
  let e ← perf.enrichPerformance
  return (perf, e)

/-- `_build_perf_response`. -/
def buildPerfResponse (power : F → F → Except FigureError F) (data : DataDict L F)
    (config : StrategyConfig F) (best : PickedParams F) (feeBps : Option F) (minMetricObs : ℤ) :
    Except ReportError (PerformanceResponse L F) := do
  let params ← (reportParams config best).mapError .python
  let (perf, e) ← (evaluatePerformance data config params feeBps minMetricObs).mapError .python
  let strategy ← (metricsOf (perf.getStrategyPerformance power e)).mapError .figure
  let buyHold ← (metricsOf (perf.getBuyHoldPerformance power e)).mapError .figure
  return ⟨metricsRecord strategy ++ [("n_obs", .int (perf.metricNObs e))], metricsRecord buyHold,
    equityCurve perf.frames.main.index e⟩

end

/-! ## Walk-forward tests -/

/-- `WalkForwardResponse`. -/
structure WalkForwardResponse (L F : Type) where
  /-- The window found in-sample. -/
  bestWindow : Arg ℤ
  /-- The threshold found with it. -/
  bestSignal : Arg F
  /-- The in-sample figures. -/
  isMetrics : Record F
  /-- The out-of-sample figures. -/
  oosMetrics : Record F
  /-- How the two ratios compare, where they can be compared. -/
  overfittingRatio : Option F
  /-- The curves over all bars. -/
  equityCurve : List (EquityPoint L F)
  /-- The first bar out-of-sample. -/
  splitDate : Option L

/-- What the search and the sort of a process are, and what it makes of numbers. -/
structure Engine (F : Type) [NpFloat F] where
  /-- What proposes the sets of a large grid. -/
  sampler : Sampler F
  /-- What puts the rows in order. -/
  sorting : SortValues F
  /-- What `int` makes of a number, for the row of the cut. -/
  int : F → ℤ
  /-- How a number is written in a message. -/
  str : F → String
  /-- A power of two numbers, or its overflow. -/
  power : F → F → Except FigureError F

section

variable {L F : Type} [DecidableEq L] [NpFloat F] (engine : Engine F)

namespace WalkForward

/-- `_evaluate`: the figures of one part. -/
def evaluate (wf : WalkForward L F) (data : DataDict L F) (best : Arg ℤ × Arg F) :
    Except ReportError (List (String × F)) := do
  let (perf, e) ← (evaluatePerformance data wf.config (some best.1, some best.2) wf.feeBps
    wf.minMetricObs).mapError .python
  (metricsOf (perf.getStrategyPerformance engine.power e)).mapError .figure

/-- `metrics['Sharpe Ratio']`. -/
def sharpeOf (metrics : List (String × F)) : Except PyError F :=
  match metrics.lookup "Sharpe Ratio" with
  | some x => .ok x
  | none => .error (.keyError "Sharpe Ratio")

/-- `_overfitting_ratio`. -/
def overfittingRatio (isMetrics oosMetrics : List (String × F)) : Except PyError F := do
  let isSharpe ← sharpeOf isMetrics
  let oosSharpe ← sharpeOf oosMetrics
  return if isNan isSharpe || eq isSharpe 0 then nan else 1 - oosSharpe / isSharpe

/-- The best parameters on the in-sample part, and their ratio there. -/
def optimize (wf : WalkForward L F) (values : SearchValues F) :
    Except PyError ((Arg ℤ × Arg F) × Cell F) := do
  let result ← ParametersOptimization.run engine.sampler engine.sorting
    ⟨wf.isDataDict, wf.config, wf.feeBps, wf.minMetricObs⟩ values none
  let best ← OptimizeResult.paramsFromBest (fun x => .ok (engine.int x)) result.best
  let sharpe ← Record.get result.best "sharpe"
  return (best, sharpe)

/-- `_build_wf_response`, with the test that it runs. -/
def buildWfResponse (data : DataDict L F) (config : StrategyConfig F) (values : SearchValues F)
    (splitRatio : F) (feeBps : Option F) (minMetricObs : ℤ) :
    Except ReportError (WalkForwardResponse L F) := do
  let wf ← (WalkForward.init engine.int engine.str data splitRatio config feeBps
    minMetricObs).mapError .python
  let (best, _) ← (wf.optimize engine values).mapError .python
  let isMetrics ← wf.evaluate engine wf.isDataDict best
  let oosMetrics ← wf.evaluate engine wf.oosDataDict best
  let ratio ← (overfittingRatio isMetrics oosMetrics).mapError .python
  let (full, e) ← (evaluatePerformance data config (some best.1, some best.2) feeBps
    minMetricObs).mapError .python
  return ⟨best.1, best.2, metricsRecord isMetrics, metricsRecord oosMetrics,
    if isNan ratio then none else some ratio, equityCurve full.frames.main.index e,
    wf.data.index[wf.splitIdx]?⟩

end WalkForward

end

/-! ## The endpoints -/

/-- `OptimizeRequest`, with the walk-forward test that it may ask for. -/
structure SearchRequest extends OptimizeRequest where
  /-- Whether a walk-forward test is asked for as well. -/
  walkForward : Bool := false
  /-- And which part of the bars it takes for the search. -/
  splitRatio : ℚ := 1 / 2

/-- `PerformanceRequest`: one window and one signal for each factor. -/
structure PerformanceRequest (F : Type) extends BacktestRequest where
  /-- The fee, in hundredths of a percent. -/
  feeBps : ℚ := 10
  /-- The interval of the bars. -/
  tmIntervalId : ℕ
  /-- The windows to report on. -/
  windows : List ℤ
  /-- The thresholds to report on. -/
  signals : List F
  /-- There is one at least. -/
  hasWindow : windows ≠ []
  /-- There is one at least. -/
  hasSignal : signals ≠ []

/-- What an endpoint raises. -/
inductive ServiceError where
  | evaluation (error : EvaluationError)
  | range (error : RangeError)
  | report (error : ReportError)
deriving DecidableEq

/-- What requests are answered from. -/
structure Stores (L F : Type) where
  /-- How dates are read and written. -/
  dates : Dates L
  /-- The frames, by product and source. -/
  fetch : Fetch L F
  /-- The sources there are. -/
  appRows : List AppRow
  /-- The indicators there are. -/
  indicatorRows : List IndicatorRow
  /-- The signal types there are. -/
  signalTypeRows : List SignalTypeRow
  /-- How many returns a ratio needs at least. -/
  minMetricObs : ℤ
  /-- The name of an interval, for a message. -/
  intervalName : ℕ → String

/-- `OptimizeResponse`. -/
structure OptimizeResponse (L F : Type) where
  /-- How many sets were tried. -/
  totalTrials : ℕ
  /-- How many of them have a ratio. -/
  valid : ℕ
  /-- The best of them, or an empty record. -/
  best : Record F
  /-- The ten best. -/
  top10 : List (Record F)
  /-- All of them. -/
  grid : List (Record F)
  /-- The report of the best one, if it could be made. -/
  performance : Option (PerformanceResponse L F)
  /-- The walk-forward test, if it was asked for and went through. -/
  walkForward : Option (WalkForwardResponse L F)
  /-- Why it did not. -/
  walkForwardError : Option ReportError

/-- `_build_param_ranges`: flat for one factor. -/
def OptimizeRequest.searchValues {F : Type} [NpFloat F] (req : OptimizeRequest) :
    Except RangeError (SearchValues F) := do
  match ← req.buildParamRanges (F := F) with
  | ([windows], [signals]) => return .flat windows signals
  | (windows, signals) => return .perFactor windows signals

section

variable {L F : Type} [LinearOrder L] [NpFloat F] (engine : Engine F) (stores : Stores L F)

/-- `run_optimize`. -/
def runOptimize (req : SearchRequest) : Except ServiceError (OptimizeResponse L F) := do
  let data ← (buildDataDict stores.dates stores.fetch stores.appRows
    req.toBacktestRequest).mapError .evaluation
  (requireScoreableSample data req.toOptimizeRequest stores.minMetricObs
    stores.intervalName).mapError .evaluation
  let config ← (buildConfig (F := F) stores.indicatorRows stores.signalTypeRows
    req.toBacktestRequest).mapError .evaluation
  let values ← (req.searchValues (F := F)).mapError .range
  let feeBps := some (lit req.feeBps)
  let result ← (ParametersOptimization.run engine.sampler engine.sorting
    ⟨data, config, feeBps, stores.minMetricObs⟩ values none).mapError
      fun e => .report (.python e)
  let performance := if 0 < result.nValid ∧ result.best ≠ [] then
      (buildPerfResponse engine.power data config (.row result.best) feeBps
        stores.minMetricObs).toOption
    else none
  let (walkForward, walkForwardError) := if req.walkForward ∧ 0 < result.nValid then
      match WalkForward.buildWfResponse engine data config values (lit req.splitRatio) feeBps
        stores.minMetricObs with
      | .ok wf => (some wf, none)
      | .error e => (none, some e)
    else (none, none)
  return ⟨result.gridDf.length, result.nValid, result.best, result.top10, result.grid,
    performance, walkForward, walkForwardError⟩

/-- The message of a request whose lists differ in length. -/
def PerformanceRequest.lengthMessage {F : Type} (req : PerformanceRequest F) : String :=
  let factors := req.factors.length
  let windows := req.windows.length
  let signals := req.signals.length
  s!"factors / windows / signals length mismatch: {factors} factors, {windows} windows, " ++
    s!"{signals} signals."

/-- `run_performance`. -/
def runPerformance (req : PerformanceRequest F) :
    Except ServiceError (PerformanceResponse L F) := do
  let data ← (buildDataDict stores.dates stores.fetch stores.appRows
    req.toBacktestRequest).mapError .evaluation
  let config ← (buildConfig (F := F) stores.indicatorRows stores.signalTypeRows
    req.toBacktestRequest).mapError .evaluation
  if req.factors.length ≠ req.windows.length ∨ req.factors.length ≠ req.signals.length then
    .error (.evaluation (.backtest req.lengthMessage 422))
  else
    let picked : PickedParams F := match req.windows, req.signals with
      | [window], [signal] => .scalars window signal
      | windows, signals => .tuples windows signals
    (buildPerfResponse engine.power data config picked (some (lit req.feeBps))
      stores.minMetricObs).mapError .report

/-- `run_walk_forward`. -/
def runWalkForward (req : SearchRequest) : Except ServiceError (WalkForwardResponse L F) := do
  let data ← (buildDataDict stores.dates stores.fetch stores.appRows
    req.toBacktestRequest).mapError .evaluation
  let config ← (buildConfig (F := F) stores.indicatorRows stores.signalTypeRows
    req.toBacktestRequest).mapError .evaluation
  let values ← (req.searchValues (F := F)).mapError .range
  (WalkForward.buildWfResponse engine data config values (lit req.splitRatio)
    (some (lit req.feeBps)) stores.minMetricObs).mapError .report

end
