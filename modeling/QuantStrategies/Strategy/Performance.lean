import Mathlib.Data.List.Dedup
import Mathlib.Data.Rat.Cast.Defs
import QuantStrategies.Strategy.Indicators
import QuantStrategies.Strategy.Signals

/-!
# Performance

The engine that reports: which series a factor reads (`FactorFrames`), the
indicators and positions of a strategy (`singleFactorOutputs`,
`multiFactorOutputs`), and the columns and the ratio computed from them
(`enrichPerformance`, `getSharpeRatio`). Live trading takes the last position
of the same outputs (`computeLatestPosition`).

The source computes on data frames, and a column here is a list beside the index of its
frame. Every step that can raise there answers an error here, in the source's order, so that
which error comes first can be stated. The lemmas named `_parts` take a step that succeeded
apart into what it read: the later modules use them in place of the definitions.
-/

open Pandas NpFloat Result

variable {L F : Type} [DecidableEq L] [NpFloat F]

/-- The frames a strategy may read, by product. -/
abbrev DataDict (L F : Type) : Type := List (String × Frame L F)

/-- `data[cusip]`. -/
def DataDict.get (data : DataDict L F) (cusip : String) : Except PyError (Frame L F) :=
  match data.lookup cusip with
  | some f => .ok f
  | none => .error (.keyError cusip)

omit [DecidableEq L] [NpFloat F] in
/-- Looking a product up succeeds with exactly the frame stored for it. A product that is not
there is a `KeyError` with its name. -/
theorem DataDict.get_eq_ok {data : DataDict L F} {cusip : String} {f : Frame L F} :
    data.get cusip = .ok f ↔ data.lookup cusip = some f := by
  rw [DataDict.get]
  cases data.lookup cusip with
  | none => simp
  | some g => simp

/-- An argument that is one value, or a tuple with a value for each factor. -/
inductive Arg (α : Type) where
  | one (a : α)
  | tuple (as : List α)

/-- `max(xs)`. -/
def pyMax : List ℤ → Except PyError ℤ
  | [] => .error (.valueError "max() iterable argument is empty")
  | x :: xs => .ok (xs.foldl Max.max x)

/-- `_max_window`. -/
def maxWindow : Arg ℤ → Except PyError ℤ
  | .one w => .ok w
  | .tuple ws => pyMax ws

/-- `live_lookback_bars`: bars of history to fetch so indicators are valid on the
latest bar. -/
def liveLookbackBars (window : Arg ℤ) : Except PyError ℤ := do
  let w ← maxWindow window
  return w * 3 + 60

/-- `xs[w:]`. -/
def sliceFrom {α : Type} (w : ℤ) (xs : List α) : List α :=
  if w < 0 then xs.drop (xs.length - (-w).toNat) else xs.drop w.toNat

/-- `xs[i]`. -/
def item {α : Type} (xs : List α) (i : ℕ) : Except PyError α :=
  match xs[i]? with
  | some x => .ok x
  | none => .error .indexError

/-- Taking an entry of a tuple succeeds with exactly the entry at that place, and past the end it
is an `IndexError`. -/
theorem item_eq_ok {α : Type} {xs : List α} {i : ℕ} {x : α} :
    item xs i = .ok x ↔ xs[i]? = some x := by
  rw [item]
  cases xs[i]? with
  | none => simp
  | some y => simp

/-! ## Returns -/

/-- `_compound`: cumulative return and drawdown of simple returns. -/
def compound (pnl : List F) : List F × List F :=
  let equity := cumprod (pnl.map fun r => clipLower 0 (1 + r))
  let peak := (cummax equity).map (clipLower 1)
  (equity.map (· - 1), List.zipWith (fun e p => 1 - e / p) equity peak)

/-- `strategy_pnl`: the position entering each bar, the turnover, and the return.
A fee is for a change between two known positions, and a bar without a position
has no turnover. -/
def strategyPnl (pos chg : List F) (transactionCost : F) :
    Except PyError (List F × List F × List F) :=
  if pos = [] then .error .indexError
  else
    let prior := shift pos
    let turnover := List.zipWith (fun pos prior =>
      if isNan pos then nan
      else if !isNan prior then NpFloat.abs (pos - prior) else 0) pos prior
    let pnl := List.zipWith (fun gain turnover => gain - turnover * transactionCost)
      (List.zipWith (· * ·) prior chg) turnover
    .ok (prior, turnover, pnl)

/-- `sharpe_ratio`: annualised, or `nan` when there are too few returns or they
have no spread. -/
def sharpeRatio (pnl : List F) (tradingPeriod minObs : ℤ) : F :=
  let finite := pnl.filter fun x => !isNan x
  if (finite.length : ℤ) < minObs then nan
  else
    let std := Pandas.std finite
    if eq std 0 || isNan std then nan
    else mean finite / std * sqrt (lit (tradingPeriod : ℚ))

/-- `_latest_final_position`: the last position that is known, and its bar. -/
def latestFinalPosition (index : List L) (finalPosition : List Position) :
    Except PyError (SignType × L) :=
  match ((index.zip finalPosition).filterMap fun r => r.2.map (·, r.1)).getLast? with
  | some r => .ok r
  | none => .error (.valueError "insufficient data to compute signal")

/-! ## The series a strategy reads -/

/-- `FactorFrames`. -/
structure FactorFrames (L F : Type) where
  /-- The frames of all the products that were loaded. -/
  all : DataDict L F
  /-- The strategy, which says what is read from which of them. -/
  config : StrategyConfig F
  /-- The frame of the traded product. -/
  main : Frame L F

namespace FactorFrames

/-- `FactorFrames(all_data, config)`. -/
def init (all : DataDict L F) (config : StrategyConfig F) :
    Except PyError (FactorFrames L F) := do
  let main ← all.get config.internalCusip
  return ⟨all, config, main⟩

/-- `MIN_COVERAGE`. -/
def minCoverage : ℚ := 80 / 100

/-- The product a factor is read from: `sub.internal_cusip or config.internal_cusip`. -/
def subCusip (config : StrategyConfig F) (sub : SubStrategy F) : String :=
  match sub.internalCusip with
  | some c => if c = "" then config.internalCusip else c
  | none => config.internalCusip

/-- The share of the main dates that a factor has. -/
def coverage (mainIndex factorIndex : List L) : ℚ :=
  let mainDates := mainIndex.dedup
  let missing := mainDates.filter fun l => l ∉ factorIndex
  if mainDates = [] then 1 else 1 - (missing.length : ℚ) / mainDates.length

/-- `format(q, ".0%")`. -/
def showPercent (q : ℚ) : String := toString (PyFloat.roundHalfEven (100 * q)) ++ "%"

/-- `_require_coverage`. -/
def requireCoverage (ff : FactorFrames L F) (factorDf : Frame L F) (factorCusip : String) :
    Except PyError Unit :=
  let c := coverage ff.main.index factorDf.index
  if c < minCoverage then
    let pct := showPercent c
    let cusip := ff.config.internalCusip
    let n := factorDf.index.dedup.length
    let m := ff.main.index.dedup.length
    .error (.valueError (s!"Factor '{factorCusip}' covers only {pct} of main product " ++
      s!"'{cusip}' dates ({n} vs {m} trading days). Cannot use a product with fewer trading " ++
      "days as a factor for a product with more trading days."))
  else .ok ()

/-- Another product must cover the main dates. -/
def checkCoverage (ff : FactorFrames L F) (factorDf : Frame L F) (factorCusip : String) :
    Except PyError Unit :=
  if factorCusip ≠ ff.config.internalCusip then ff.requireCoverage factorDf factorCusip
  else .ok ()

omit [NpFloat F] in
/-- **What coverage asks.** The traded product is never checked. A factor of another product must
have enough of the traded product's labels among its own. -/
theorem checkCoverage_eq_ok {ff : FactorFrames L F} {f : Frame L F} {cusip : String} {u : Unit} :
    ff.checkCoverage f cusip = .ok u ↔
      (cusip ≠ ff.config.internalCusip → minCoverage ≤ coverage ff.main.index f.index) := by
  rw [checkCoverage, requireCoverage]
  split
  · next hother =>
    dsimp only
    split
    · next hlow => exact iff_of_false nofun fun h => absurd (h hother) (not_le.mpr hlow)
    · next hlow => exact iff_of_true rfl fun _ => not_lt.mp hlow
  · next hown => exact iff_of_true rfl fun h => absurd h hown

/-- `factor`: the factor's column, aligned to the traded product's index. -/
def factor (ff : FactorFrames L F) (sub : SubStrategy F) :
    Except PyError (Column F ff.main.index) := do
  let cusip := subCusip ff.config sub
  let subDf ← ff.all.get cusip
  ff.checkCoverage subDf cusip
  let s ← subDf.series sub.dataColumn
  s.reindex ff.main.index

/-- `single_factor_frame`: the main frame with the factor in its `factor` column.
The one that is there stays when the factor is the product's own, and names no
column of it. -/
def singleFactorFrame (ff : FactorFrames L F) : Except PyError (Frame L F) := do
  let sub ← item ff.config.getSubstrategies 0
  let cusip := subCusip ff.config sub
  if cusip ≠ ff.config.internalCusip ∨ ff.main.hasColumn sub.dataColumn then
    let c ← ff.factor sub
    return ff.main.set "factor" c
  else return ff.main

end FactorFrames

/-! ## The engine -/

/-- `Performance`, as its constructor leaves it. -/
structure Performance (L F : Type) where
  /-- The strategy that is reported on. -/
  config : StrategyConfig F
  /-- The fee on a unit of turnover, as a fraction. -/
  transactionCost : F
  /-- How many returns a ratio needs at least; with fewer it is missing. -/
  minMetricObs : ℤ
  /-- The factors, a strategy without a list having one made for it. -/
  subs : List (SubStrategy F)
  /-- The frames that the factors are read from. -/
  frames : FactorFrames L F
  /-- A window for each factor. -/
  windows : List ℤ
  /-- A threshold for each factor. -/
  signals : List F
  /-- The bars in front that no figure counts. -/
  metricWindow : ℤ

/-- The columns of one factor. -/
structure FactorOutput (F : Type) where
  /-- The series that the indicator was computed on. -/
  factor : List F
  /-- The reading on each bar. -/
  indicator : List F
  /-- The side the signal function takes on each reading. -/
  position : List Position

/-- The columns that `enrich_performance` adds to the frame. -/
structure Enriched (F : Type) where
  /-- The columns of each factor. -/
  outputs : List (FactorOutput F)
  /-- The return of the traded product over each bar. -/
  chg : List F
  /-- The position of the strategy, all factors combined. -/
  finalPosition : List Position
  /-- The position that entered the bar: the final position of the bar in front. -/
  finalPositionX1 : List F
  /-- The turnover on which a fee is due. -/
  trade : List F
  /-- The return of the strategy over each bar, after the fee. -/
  pnl : List F
  /-- The cumulative return of the strategy. -/
  cumu : List F
  /-- The drawdown of the strategy from its peak. -/
  dd : List F
  /-- The return of the product, on the bars that a known position enters. -/
  buyHold : List F
  /-- The cumulative return of holding the product over those bars. -/
  buyHoldCumu : List F
  /-- The drawdown of holding it, from its peak. -/
  buyHoldDd : List F

namespace Performance

/-- `DEFAULT_FEE_BPS`: Bybit VIP-0 spot taker; per unit of turnover. -/
def defaultFeeBps : F := lit 10

/-- A fee in basis points, as a decimal. -/
def costOf (feeBps : Option F) : F := feeBps.getD defaultFeeBps / lit 10000

/-- The values of an argument, one for each factor. A single factor takes no
tuple, which pandas refuses later. -/
def broadcast {α : Type} (n : ℕ) : Arg α → Except PyError (List α)
  | .one a => .ok (if 1 < n then List.replicate n a else [a])
  | .tuple as => if 1 < n then .ok as else .error .typeError

/-- The windows and the signals. Without a window or a signal, both are those of the
substrategies. -/
def params (subs : List (SubStrategy F)) :
    Option (Arg ℤ) → Option (Arg F) → Except PyError (List ℤ × List F)
  | some window, some signal => do
    let windows ← broadcast subs.length window
    let signals ← broadcast subs.length signal
    return (windows, signals)
  | _, _ => .ok (subs.map (·.window), subs.map (·.signal))

/-- `Performance(data, config, window, signal, fee_bps=, min_metric_obs=)`. -/
def init (data : DataDict L F) (config : StrategyConfig F) (window : Option (Arg ℤ))
    (signal : Option (Arg F)) (feeBps : Option F) (minMetricObs : ℤ) :
    Except PyError (Performance L F) := do
  let subs := config.getSubstrategies
  let frames ← FactorFrames.init data config
  let (windows, signals) ← params subs window signal
  let metricWindow ← pyMax windows
  return ⟨config, costOf feeBps, minMetricObs, subs, frames, windows, signals, metricWindow⟩

/-- `_is_multi`. -/
def isMulti (p : Performance L F) : Bool := 1 < p.subs.length

/-- `_indicator_and_position`, on a frame of the factor alone. -/
def indicatorAndPosition (sub : SubStrategy F) (index : List L) (factorVals : Column F index)
    (window : ℤ) (signal : F) : Except PyError (FactorOutput F) := do
  let ta ← TechnicalAnalysis.init (Frame.single "factor" index factorVals)
  let indicatorVals ← TechnicalAnalysis.indicator ta sub.indicatorName window
  let func ← sub.resolveSignalFunc
  return ⟨factorVals.1, indicatorVals.1, func.call indicatorVals.1 signal⟩

/-- `_compute_single_factor_outputs`. -/
def singleFactorOutputs (p : Performance L F) : Except PyError (FactorOutput F) := do
  let data ← p.frames.singleFactorFrame
  let ta ← TechnicalAnalysis.init data
  let factor ← data.column "factor"
  let window ← item p.windows 0
  let indicator ← TechnicalAnalysis.indicator ta p.config.indicatorName window
  let signal ← item p.signals 0
  return ⟨factor.1, indicator.1, p.config.signalFunc.call indicator.1 signal⟩

/-- One turn of the loop over the factors. -/
def factorOutput (p : Performance L F) (i : ℕ) (sub : SubStrategy F) :
    Except PyError (FactorOutput F) := do
  let factorVals ← p.frames.factor sub
  let window ← item p.windows i
  let signal ← item p.signals i
  indicatorAndPosition sub p.frames.main.index factorVals window signal

/-- `_compute_multi_factor_outputs`. -/
def multiFactorOutputs (p : Performance L F) :
    Except PyError (List (FactorOutput F) × List Position) := do
  let _ ← TechnicalAnalysis.init p.frames.main
  let outputs ← p.subs.zipIdx.mapM fun s => p.factorOutput s.2 s.1
  let combined ← combinePositions (outputs.map (·.position)) p.config.conjunction
    (some (outputs.map (·.indicator)))
  return (outputs, combined)

/-- The outputs of each factor, and `FinalPosition`. -/
def factorOutputs (p : Performance L F) :
    Except PyError (List (FactorOutput F) × List Position) :=
  if p.isMulti then p.multiFactorOutputs
  else do
    let out ← p.singleFactorOutputs
    return ([out], out.position)

/-- `enrich_performance`: indicators, positions, and PnL columns. -/
def enrichPerformance (p : Performance L F) : Except PyError (Enriched F) := do
  let (outputs, finalPosition) ← p.factorOutputs
  let price ← p.frames.main.column "price"
  let chg := pctChange price.1
  let (prior, turnover, pnl) ←
    strategyPnl (finalPosition.map Position.toFloat) chg p.transactionCost
  let (cumu, dd) := compound pnl
  let buyHold := List.zipWith (fun c prior => if isNan prior then nan else c) chg prior
  let (buyHoldCumu, buyHoldDd) := compound buyHold
  return ⟨outputs, chg, finalPosition, prior, turnover, pnl, cumu, dd, buyHold, buyHoldCumu,
    buyHoldDd⟩

/-- `get_sharpe_ratio`, after indicator warmup. -/
def getSharpeRatio (p : Performance L F) (e : Enriched F) : F :=
  sharpeRatio (sliceFrom p.metricWindow e.pnl) p.config.tradingPeriod p.minMetricObs

/-- `compute_latest_position`: the same outputs, and the last position of them. -/
def computeLatestPosition (p : Performance L F) : Except PyError (SignType × L) := do
  let (_, finalPosition) ← p.factorOutputs
  latestFinalPosition p.frames.main.index finalPosition

/-! ## What the outputs are made of -/

variable {p : Performance L F} {out : FactorOutput F}

/-- **The columns of a single factor, taken apart**: what was looked up, in what order, and that
the position is the signal function on the reading. -/
theorem singleFactorOutputs_parts :
    p.singleFactorOutputs = .ok out ↔ ∃ data factor window indicator signal,
      p.frames.singleFactorFrame = .ok data ∧ data.column "factor" = .ok factor ∧
      item p.windows 0 = .ok window ∧
      TechnicalAnalysis.indicator data p.config.indicatorName window = .ok indicator ∧
      item p.signals 0 = .ok signal ∧
      out = ⟨factor.1, indicator.1, p.config.signalFunc.call indicator.1 signal⟩ := by
  constructor
  · intro h
    obtain ⟨data, hdata, h⟩ := bind_eq_ok.mp h
    obtain ⟨ta, hta, h⟩ := bind_eq_ok.mp h
    obtain ⟨-, rfl⟩ := TechnicalAnalysis.init_eq_ok.mp hta
    obtain ⟨factor, hfactor, h⟩ := bind_eq_ok.mp h
    obtain ⟨window, hwindow, h⟩ := bind_eq_ok.mp h
    obtain ⟨indicator, hindicator, h⟩ := bind_eq_ok.mp h
    obtain ⟨signal, hsignal, h⟩ := bind_eq_ok.mp h
    cases h
    exact ⟨ta, factor, window, indicator, signal, hdata, hfactor, hwindow, hindicator, hsignal, rfl⟩
  · rintro ⟨data, factor, window, indicator, signal, hdata, hfactor, hwindow, hindicator, hsignal,
      rfl⟩
    have hta : TechnicalAnalysis.init data = .ok data :=
      TechnicalAnalysis.init_eq_ok.mpr ⟨Frame.hasColumn_iff.mpr ⟨factor, hfactor⟩, rfl⟩
    exact bind_eq_ok.mpr ⟨data, hdata, bind_eq_ok.mpr ⟨data, hta, bind_eq_ok.mpr ⟨factor, hfactor,
      bind_eq_ok.mpr ⟨window, hwindow, bind_eq_ok.mpr ⟨indicator, hindicator,
        bind_eq_ok.mpr ⟨signal, hsignal, rfl⟩⟩⟩⟩⟩⟩

/-- One factor among several, taken apart. The indicator is computed on the factor's series over
the traded product's index. -/
theorem factorOutput_parts {i : ℕ} {sub : SubStrategy F} :
    p.factorOutput i sub = .ok out ↔ ∃ factor window signal indicator func,
      p.frames.factor sub = .ok factor ∧ item p.windows i = .ok window ∧
      item p.signals i = .ok signal ∧
      TechnicalAnalysis.indicator (Frame.single "factor" p.frames.main.index factor)
        sub.indicatorName window = .ok indicator ∧
      sub.resolveSignalFunc = .ok func ∧
      out = ⟨factor.1, indicator.1, func.call indicator.1 signal⟩ := by
  constructor
  · intro h
    obtain ⟨factor, hfactor, h⟩ := bind_eq_ok.mp h
    obtain ⟨window, hwindow, h⟩ := bind_eq_ok.mp h
    obtain ⟨signal, hsignal, h⟩ := bind_eq_ok.mp h
    obtain ⟨ta, hta, h⟩ := bind_eq_ok.mp h
    obtain ⟨-, rfl⟩ := TechnicalAnalysis.init_eq_ok.mp hta
    obtain ⟨indicator, hindicator, h⟩ := bind_eq_ok.mp h
    obtain ⟨func, hfunc, h⟩ := bind_eq_ok.mp h
    cases h
    exact ⟨factor, window, signal, indicator, func, hfactor, hwindow, hsignal, hindicator, hfunc,
      rfl⟩
  · rintro ⟨factor, window, signal, indicator, func, hfactor, hwindow, hsignal, hindicator, hfunc,
      rfl⟩
    exact bind_eq_ok.mpr ⟨factor, hfactor, bind_eq_ok.mpr ⟨window, hwindow, bind_eq_ok.mpr ⟨signal,
      hsignal, bind_eq_ok.mpr ⟨_, rfl, bind_eq_ok.mpr ⟨indicator, hindicator, bind_eq_ok.mpr ⟨func,
        hfunc, rfl⟩⟩⟩⟩⟩⟩

/-- **The two ways a strategy gets its columns.** Several factors are computed one by one and
combined; a single one is its own final position. -/
theorem factorOutputs_parts {outs : List (FactorOutput F)} {finalPosition : List Position} :
    p.factorOutputs = .ok (outs, finalPosition) ↔
      (p.isMulti = true ∧ (∃ ta, TechnicalAnalysis.init p.frames.main = .ok ta) ∧
        (p.subs.zipIdx.mapM fun s => p.factorOutput s.2 s.1) = .ok outs ∧
        combinePositions (outs.map (·.position)) p.config.conjunction
          (some (outs.map (·.indicator))) = .ok finalPosition) ∨
      (p.isMulti = false ∧
        ∃ out, p.singleFactorOutputs = .ok out ∧ outs = [out] ∧ finalPosition = out.position) := by
  rw [factorOutputs]
  cases hmulti : p.isMulti with
  | true =>
    rw [if_pos rfl]
    constructor
    · intro h
      obtain ⟨ta, hta, h⟩ := bind_eq_ok.mp h
      obtain ⟨outs', houts, h⟩ := bind_eq_ok.mp h
      obtain ⟨combined, hcombined, h⟩ := bind_eq_ok.mp h
      cases h
      exact .inl ⟨rfl, ⟨ta, hta⟩, houts, hcombined⟩
    · rintro (⟨-, ⟨ta, hta⟩, houts, hcombined⟩ | ⟨hsingle, -⟩)
      · exact bind_eq_ok.mpr ⟨ta, hta, bind_eq_ok.mpr ⟨outs, houts, bind_eq_ok.mpr
          ⟨finalPosition, hcombined, rfl⟩⟩⟩
      · cases hsingle
  | false =>
    rw [if_neg Bool.false_ne_true]
    constructor
    · intro h
      obtain ⟨out, hout, h⟩ := bind_eq_ok.mp h
      cases h
      exact .inr ⟨rfl, out, hout, rfl, rfl⟩
    · rintro (⟨hmulti, -⟩ | ⟨-, out, hout, rfl, rfl⟩)
      · cases hmulti
      · exact bind_eq_ok.mpr ⟨out, hout, rfl⟩

end Performance
