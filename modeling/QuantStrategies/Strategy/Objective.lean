import QuantStrategies.Strategy.Performance

/-!
# Objective

The engine that searches: one Sharpe ratio for each parameter set. The
indicators of all the windows searched are computed first (`IndicatorCache`),
and a call only looks them up. The rules it applies are those of `Performance`.

The order of the constructor's steps is kept: frames, price, then the caches of all factors.
An indicator that refuses one window of a range therefore ends the construction, and no
parameter set of that range is scored at all. A call after that can only miss a window that
no range had.
-/

open Pandas NpFloat

variable {L F : Type} [DecidableEq L] [NpFloat F]

/-- `IndicatorCache`: an array for each window, for one factor. -/
abbrev IndicatorCache (F : Type) : Type := List (ℤ × List F)

namespace IndicatorCache

/-- `IndicatorCache(frame, indicator_name, windows)`. -/
def init (frame : Frame L F) (indicatorName : String) (windows : List ℤ) :
    Except PyError (IndicatorCache F) := do
  let ta ← TechnicalAnalysis.init frame
  windows.mapM fun w => do
    let c ← TechnicalAnalysis.indicator ta indicatorName w
    return (w, c.1)

/-- `cache[window]`. -/
def get (cache : IndicatorCache F) (window : ℤ) : Except PyError (List F) :=
  match cache.lookup window with
  | some xs => .ok xs
  | none => .error (.keyError (toString window))

end IndicatorCache

/-- The windows that are searched: of the one factor, or of each. -/
inductive WindowValues where
  | flat (windows : List ℤ)
  | perFactor (ranges : List (List ℤ))

/-- What a subclass of `Objective` adds to it. -/
inductive Objective.Kind (F : Type) where
  | single (cache : IndicatorCache F) (signalFunc : SignalDirection)
  | multi (conjunction : String) (factors : List (IndicatorCache F × SignalDirection))

/-- `Objective`: precomputed inputs. -/
structure Objective (F : Type) where
  /-- The fee on a unit of turnover, as a fraction. -/
  transactionCost : F
  /-- How many returns a ratio needs at least. -/
  minMetricObs : ℤ
  /-- How many bars a year has. -/
  tradingPeriod : ℤ
  /-- The return of the traded product over each bar, computed once for all calls. -/
  chg : List F
  /-- The caches and signal functions, of one factor or of several. -/
  kind : Objective.Kind F

namespace Objective

/-- `SingleFactorObjective(...)`, after the part all objectives share. -/
def initSingle (frames : FactorFrames L F) (windows : WindowValues) :
    Except PyError (Kind F) := do
  let frame ← frames.singleFactorFrame
  match windows with
  | .perFactor _ => .error .typeError
  | .flat windows =>
    let cache ← IndicatorCache.init frame frames.config.indicatorName windows
    return .single cache frames.config.signalFunc

/-- One turn of the loop of `MultiFactorObjective(...)`. -/
def initFactor (frames : FactorFrames L F) (sub : SubStrategy F) (windows : List ℤ) :
    Except PyError (IndicatorCache F × SignalDirection) := do
  let c ← frames.factor sub
  let cache ← IndicatorCache.init (Frame.single "factor" frames.main.index c)
    sub.indicatorName windows
  let func ← sub.resolveSignalFunc
  return (cache, func)

/-- `MultiFactorObjective(...)`, after the part all objectives share. -/
def initMulti (frames : FactorFrames L F) (windowRanges : WindowValues) :
    Except PyError (Kind F) :=
  match windowRanges with
  | .flat _ => .error .typeError
  | .perFactor ranges => do
    let factors ← (frames.config.getSubstrategies.zip ranges).mapM fun s =>
      initFactor frames s.1 s.2
    return .multi frames.config.conjunction factors

/-- The part of an objective that depends on how many factors there are. -/
def initKind (frames : FactorFrames L F) (windowValues : WindowValues) :
    Except PyError (Kind F) :=
  if 1 < frames.config.getSubstrategies.length then initMulti frames windowValues
  else initSingle frames windowValues

/-- `Objective.for_config`: the subclass `Performance` would take for this config. -/
def forConfig (data : DataDict L F) (config : StrategyConfig F) (windowValues : WindowValues)
    (feeBps : Option F) (minMetricObs : ℤ) : Except PyError (Objective F) := do
  let frames ← FactorFrames.init data config
  let price ← frames.main.column "price"
  let kind ← initKind frames windowValues
  return ⟨Performance.costOf feeBps, minMetricObs, config.tradingPeriod, pctChange price.1, kind⟩

/-- `_sharpe`: `Performance.get_sharpe_ratio` on arrays, after indicator warmup. -/
def sharpe (o : Objective F) (position : List Position) (metricWindow : ℤ) :
    Except PyError F := do
  let (_, _, pnl) ← strategyPnl (position.map Position.toFloat) o.chg o.transactionCost
  return sharpeRatio (sliceFrom metricWindow pnl) o.tradingPeriod o.minMetricObs

/-- One turn of the loop over the factors: position and strength. -/
def callFactor (factor : IndicatorCache F × SignalDirection) (window : ℤ) (signal : F) :
    Except PyError (List Position × List F) := do
  let ind ← factor.1.get window
  return (factor.2.call ind signal, ind)

/-- `objective(windows, signals)`. -/
def call (o : Objective F) (windows : List ℤ) (signals : List F) : Except PyError F :=
  match o.kind with
  | .single cache signalFunc => do
    let window ← item windows 0
    let signal ← item signals 0
    let ind ← cache.get window
    o.sharpe (signalFunc.call ind signal) window
  | .multi conjunction factors => do
    let outputs ← factors.zipIdx.mapM fun f => do
      let window ← item windows f.2
      let signal ← item signals f.2
      callFactor f.1 window signal
    let combined ← combinePositions (outputs.map Prod.fst) conjunction
      (some (outputs.map Prod.snd))
    let metricWindow ← pyMax windows
    o.sharpe combined metricWindow

end Objective
