import QuantStrategies.Lib.Arange
import QuantStrategies.Strategy.Scored
import QuantStrategies.Strategy.Sources

/-!
# Searches that can be scored

Before a search, `requireScoreableSample` compares the number of bars with the
largest window that is asked for, and the number of returns that a ratio takes at
least. It reckons that what comes after the largest window is scored.

That is so where the first reading of each indicator is on the last bar of its
window, which leaves one bar for the position that the next one is entered with.
Relative strength has its first reading a bar later and the stochastic oscillator
a whole window later, and the bars that they take longer are not reckoned with. A
window of which an indicator never has a reading is let through as well, and so
are the windows of a range that runs downwards, which the upper end of the range
says nothing about.

Whether the check is sound is arithmetic on the windows searched, the least number of
returns and the number of bars. Relative strength needs one bar more than its window and the
stochastic oscillator almost two windows, so that a search of these can pass the check with
too few bars left. `LongWarmUpsFit` says that this does not happen, of the parameter sets of
the grid that can be run.
-/

open Pandas NpFloat Result ExactFloat

/-! ## The request -/

/-- `RangeParam`. The ends and the step are doubles, and are given as the numbers that
these are. -/
structure RangeParam where
  /-- The first value. -/
  min : ℚ
  /-- The last value asked for. -/
  max : ℚ
  /-- The distance of one value from the next. -/
  step : ℚ

/-- What expanding a range raises: `range() arg 3 must not be zero`, or what `np.arange`
raises. -/
inductive RangeError where
  | zeroStep
  | arange (error : ArangeError)
deriving DecidableEq

namespace RangeParam

/-- `to_values(as_int=True)`. -/
def toWindows (r : RangeParam) : Except RangeError (List ℤ) :=
  let step := Python.trunc r.step
  if step = 0 then .error .zeroStep
  else .ok (Python.range (Python.trunc r.min) (Python.trunc r.max + 1) step)

/-- `self.max + self.step / 2`. -/
def padded (r : RangeParam) : ExtRat :=
  Binary64.add (.fin r.max) (Binary64.div (.fin r.step) (.fin 2))

/-- `to_values()`: `np.arange(self.min, self.max + self.step / 2, self.step)`. -/
def signalValues (r : RangeParam) : Except RangeError (List ExtRat) :=
  (arange r.min r.padded r.step).mapError .arange

/-- The signals, as the numbers that the engine computes with. -/
def toSignals {F : Type} [NpFloat F] (r : RangeParam) : Except RangeError (List F) :=
  r.signalValues.map fun xs => xs.map ExtRat.toFloat

end RangeParam

/-- `OptimizeRequest`, with the two ranges of each factor. -/
structure OptimizeRequest extends BacktestRequest where
  /-- The fee, in hundredths of a percent. -/
  feeBps : ℚ := 10
  /-- The interval of the bars. -/
  tmIntervalId : ℕ
  /-- The windows and the signals to be searched, for each factor. -/
  ranges : List (RangeParam × RangeParam)
  /-- Each factor of the form has both. -/
  hasRanges : ranges.length = factors.length

namespace OptimizeRequest

/-- `_build_param_ranges`: the windows and the signals of each factor. -/
def buildParamRanges {F : Type} [NpFloat F] (req : OptimizeRequest) :
    Except RangeError (List (List ℤ) × List (List F)) := do
  let windows ← req.ranges.mapM fun r => r.1.toWindows
  let signals ← req.ranges.mapM fun r => r.2.toSignals
  return (windows, signals)

/-- `max(int(f.window_range.max) for f in req.factors)`. -/
def longestWindow (req : OptimizeRequest) : Except PyError ℤ :=
  pyMax (req.ranges.map fun r => Python.trunc r.1.max)

end OptimizeRequest

section

variable {L F : Type} [DecidableEq L] [NpFloat F]

/-- `require_scoreable_sample`: refuse a search the loaded series cannot score. -/
def requireScoreableSample (data : DataDict L F) (req : OptimizeRequest) (minMetricObs : ℤ)
    (intervalName : ℕ → String) : Except EvaluationError Unit := do
  let df ← (data.get req.symbol).mapError .python
  let n : ℤ := df.index.length
  let w ← req.longestWindow.mapError .python
  let need := w + minMetricObs
  if need ≤ n then return ()
  else
    let interval := intervalName req.tmIntervalId
    .error (.backtest (s!"series has {n} {interval} bars; the grid needs at least {need} " ++
      s!"(window {w} + {minMetricObs} finite pnl bars)") 400)

/-! ## The grid -/

/-- A parameter set of a search, a window and a signal for each factor. -/
structure OnGrid (windows : List (List ℤ)) (signals : List (List F)) (ws : List ℤ) (ss : List F) :
    Prop where
  /-- Each window is of its factor's range. -/
  windows : List.Forall₂ (· ∈ ·) ws windows
  /-- So is each signal. -/
  signals : List.Forall₂ (· ∈ ·) ss signals

/-- A parameter set, run by the engine that reports. -/
structure RunsAs (data : DataDict L F) (config : StrategyConfig F) (feeBps : F) (minMetricObs : ℤ)
    (ws : List ℤ) (ss : List F) (p : Performance L F) (e : Enriched F) : Prop where
  /-- The engine takes the parameters. -/
  init : Performance.init data config (some (paramArg config ws)) (some (paramArg config ss))
    (some feeBps) minMetricObs = .ok p
  /-- And computes its columns under them. -/
  enriched : p.enrichPerformance = .ok e

/-- Every parameter set that can be run leaves enough bars to score it. -/
def Scoreable (data : DataDict L F) (config : StrategyConfig F) (feeBps : F) (minMetricObs : ℤ)
    (windows : List (List ℤ)) (signals : List (List F)) : Prop :=
  ∀ ws ss p e, OnGrid windows signals ws ss → RunsAs data config feeBps minMetricObs ws ss p e →
    minMetricObs ≤ p.metricNObs e

/-- How many of `n` bars pass before the first one that is scored: those of the largest
window, or those up to the first reading that all factors have and one more. -/
def warmUpBars (config : StrategyConfig F) (ws : List ℤ) (n : ℕ) : ℕ :=
  let readings := ((config.getSubstrategies.map (·.indicatorName)).zip ws).map fun e =>
    TechnicalAnalysis.firstReading e.1 e.2 n
  Max.max ((ws.map Int.toNat).foldr Max.max 0) (readings.foldr Max.max 0 + 1)

/-- Each factor is a mean, or the distance to one, over a range of windows that runs
upwards from one that has readings. -/
def OptimizeRequest.WarmsUpInWindow (req : OptimizeRequest) : Prop :=
  ∀ e ∈ req.factors.zip req.ranges,
    e.1.indicator ∈ ["get_sma", "get_ema", "get_bollinger_band"] ∧
      TechnicalAnalysis.leastWindow e.1.indicator ≤ Python.trunc e.2.1.min ∧
      0 < Python.trunc e.2.1.step

/-- A parameter set that takes longer to warm up than the longest window that is asked
for leaves enough of `n` bars, where it can be run. -/
def LongWarmUpsFit (data : DataDict L F) (config : StrategyConfig F) (req : OptimizeRequest)
    (minMetricObs : ℤ) (windows : List (List ℤ)) (signals : List (List F)) (n : ℕ) : Prop :=
  ∀ w, req.longestWindow = .ok w → ∀ ws ss, OnGrid windows signals ws ss →
    (∃ p e, RunsAs data config (lit req.feeBps) minMetricObs ws ss p e) →
    w < warmUpBars config ws n → minMetricObs ≤ (n - warmUpBars config ws n : ℕ)

/-- No parameter set of the grid has an indicator that divides by zero. -/
def NeverDividesByZero (data : DataDict L F) (config : StrategyConfig F) (feeBps : F)
    (minMetricObs : ℤ) (windows : List (List ℤ)) (signals : List (List F)) : Prop :=
  ∀ ws ss p e, OnGrid windows signals ws ss → RunsAs data config feeBps minMetricObs ws ss p e →
    p.NoZeroDivision

/-- A strategy without substrategies is one of itself. -/
theorem StrategyConfig.length_getSubstrategies_pos (config : StrategyConfig F) :
    0 < config.getSubstrategies.length := by
  rw [StrategyConfig.getSubstrategies]
  split
  · exact Nat.one_pos
  · next hne => exact List.length_pos_of_ne_nil hne

/-- Parameters that a search hands on are taken as they are, a window for each factor. -/
theorem broadcast_paramArg {α : Type} {config : StrategyConfig F} {xs : List α}
    (hlen : xs.length = config.getSubstrategies.length) :
    Performance.broadcast config.getSubstrategies.length (paramArg config xs) = .ok xs := by
  by_cases hmulti : 1 < config.getSubstrategies.length
  · have htuple : paramArg config xs = .tuple xs := if_pos hmulti
    rw [htuple, Performance.broadcast, if_pos hmulti]
  · have hone : config.getSubstrategies.length = 1 :=
      le_antisymm (Nat.not_lt.mp hmulti) config.length_getSubstrategies_pos
    obtain ⟨x, rfl⟩ := List.length_eq_one_iff.mp (hlen.trans hone)
    have hval : paramArg config [x] = .one x := if_neg hmulti
    rw [hval, Performance.broadcast, if_neg hmulti]

/-- A request has as many substrategies as factors, so each parameter set of its grid has
a window for each. -/
theorem OnGrid.length_eq {indicatorRows : List IndicatorRow} {signalTypeRows : List SignalTypeRow}
    {req : OptimizeRequest} {config : StrategyConfig F} {windows : List (List ℤ)}
    {signals : List (List F)} {ws : List ℤ} {ss : List F} (h : OnGrid windows signals ws ss)
    (hconfig : buildConfig indicatorRows signalTypeRows req.toBacktestRequest = .ok config)
    (hgrid : req.buildParamRanges = .ok (windows, signals)) :
    ws.length = config.getSubstrategies.length := by
  obtain ⟨windows', hwindows, hgrid⟩ := bind_eq_ok.mp hgrid
  obtain ⟨signals', -, hgrid⟩ := bind_eq_ok.mp hgrid
  cases hgrid
  calc ws.length = windows.length := h.windows.length_eq
    _ = req.ranges.length := (mapM_eq_ok.mp hwindows).length_eq.symm
    _ = req.factors.length := req.hasRanges
    _ = config.getSubstrategies.length := (buildConfig_eq_ok hconfig).2.1.length_eq

omit [DecidableEq L] [NpFloat F] in
/-- What is accepted: a series that is longer than the longest window by the returns that
a ratio takes. -/
theorem requireScoreableSample_eq_ok {data : DataDict L F} {req : OptimizeRequest}
    {minMetricObs : ℤ} {intervalName : ℕ → String} :
    requireScoreableSample data req minMetricObs intervalName = .ok () ↔
      ∃ df w, data.get req.symbol = .ok df ∧ req.longestWindow = .ok w ∧
        w + minMetricObs ≤ df.index.length := by
  rw [requireScoreableSample, bind_eq_ok]
  simp only [mapError_eq_ok, bind_eq_ok, exists_and_left]
  refine exists_congr fun df => and_congr_right fun _ => exists_congr fun w =>
    and_congr_right fun _ => ?_
  split
  · next h => exact iff_of_true rfl h
  · next h => exact iff_of_false (fun hok => by cases hok) h

/-- The indicators that a request names are those of its strategy. -/
theorem buildConfig_indicators {indicatorRows : List IndicatorRow}
    {signalTypeRows : List SignalTypeRow} {req : BacktestRequest} {config : StrategyConfig F}
    (h : buildConfig indicatorRows signalTypeRows req = .ok config) :
    req.factors.map (·.indicator) = config.getSubstrategies.map (·.indicatorName) ∧
      (req.factors.map (·.indicator)).head? = some config.indicatorName := by
  have hget := (buildConfig_eq_ok h).2.2
  rw [buildConfig] at h
  split at h
  · cases h
  · rw [configOf] at h
    split at h
    · cases h
    · next first rest hfactors =>
      obtain ⟨subs, hsubs, h⟩ := bind_eq_ok.mp h
      obtain ⟨func, -, h⟩ := bind_eq_ok.mp h
      cases h
      rw [hget, hfactors]
      refine ⟨List.forall₂_eq_eq_eq ▸ List.forall₂_map_left_iff.mpr
        (List.forall₂_map_right_iff.mpr ((mapM_eq_ok.mp hsubs).imp fun f sub hsub => ?_)), rfl⟩
      obtain ⟨func', -, hsub⟩ := bind_eq_ok.mp hsub
      cases hsub
      rfl

/-- The one substrategy of a request has the indicator of the strategy. -/
theorem buildConfig_indicatorName {indicatorRows : List IndicatorRow}
    {signalTypeRows : List SignalTypeRow} {req : BacktestRequest} {config : StrategyConfig F}
    (h : buildConfig indicatorRows signalTypeRows req = .ok config) {sub : SubStrategy F}
    (hsub : config.getSubstrategies = [sub]) : sub.indicatorName = config.indicatorName := by
  obtain ⟨hnames, hhead⟩ := buildConfig_indicators h
  rw [hnames, hsub] at hhead
  exact Option.some.inj hhead

omit [DecidableEq L] [NpFloat F] in
/-- The indicators of a strategy, of which the single one is that of the strategy. -/
theorem Performance.indicators_eq_zip {p : Performance L F} (hpos : 0 < p.subs.length)
    (hlen : p.windows.length = p.subs.length)
    (hname : ∀ sub, p.subs = [sub] → sub.indicatorName = p.config.indicatorName) :
    p.indicators = (p.subs.map (·.indicatorName)).zip p.windows := by
  rw [Performance.indicators]
  split
  · rfl
  · next hsingle =>
    have hone : p.subs.length = 1 :=
      le_antisymm (Nat.not_lt.mp (mt decide_eq_true hsingle)) hpos
    obtain ⟨sub, hsub⟩ := List.length_eq_one_iff.mp hone
    obtain ⟨w, hw⟩ := List.length_eq_one_iff.mp (hlen.trans hone)
    rw [hsub, hw, List.map_singleton, hname sub hsub]
    rfl

end

section

variable {K L F : Type} [DecidableEq L] [Field K] [LinearOrder K] [IsStrictOrderedRing K]
  [ExactFloat K F] {data : DataDict L F} {config : StrategyConfig F} {main : Frame L F}
  {feeBps : F} {minMetricObs : ℤ} {ws : List ℤ} {ss : List F} {p : Performance L F}
  {e : Enriched F}

/-- What is left of the bars after the warm-up of a parameter set is scored. -/
theorem RunsAs.metricNObs (h : RunsAs data config feeBps minMetricObs ws ss p e)
    (hws : ws.length = config.getSubstrategies.length)
    (hname : ∀ sub, config.getSubstrategies = [sub] → sub.indicatorName = config.indicatorName)
    (hmain : data.get config.internalCusip = .ok main) (hgap : GapFreeBars ⟨data, config, main⟩)
    (hdiv : p.NoZeroDivision) (hfee : observed (Performance.costOf (some feeBps)) = true) :
    p.metricNObs e = main.index.length - warmUpBars config ws main.index.length := by
  obtain ⟨frames, ws', ss', mw, hframes, hws', hss', hmw, rfl⟩ :=
    Performance.init_eq_ok.mp h.init
  obtain ⟨main', hmain', rfl⟩ := FactorFrames.init_eq_ok.mp hframes
  cases hmain.symm.trans hmain'
  cases (broadcast_paramArg hws).symm.trans hws'
  rw [Performance.metricNObs_eq h.enriched rfl hmw hgap hdiv hfee, warmUpBars]
  have hmax : mw.toNat = (ws.map Int.toNat).foldr Max.max 0 := by
    obtain ⟨hmem, hle⟩ := pyMax_eq_ok hmw
    refine le_antisymm ?_ (foldr_max_le.mpr (List.forall_mem_map.mpr fun w hw =>
      Int.toNat_le_toNat (hle w hw)))
    exact foldr_max_le.mp le_rfl _ (List.mem_map_of_mem hmem)
  have hind := Performance.indicators_eq_zip (p := ⟨config, Performance.costOf (some feeBps),
    minMetricObs, config.getSubstrategies, ⟨data, config, main⟩, ws, ss', mw⟩)
    config.length_getSubstrategies_pos hws hname
  rw [Performance.firstPosition, hind, hmax]

/-- What is left of the bars after the warm-up of each parameter set is scored. -/
theorem scoreable_iff {indicatorRows : List IndicatorRow} {signalTypeRows : List SignalTypeRow}
    {req : OptimizeRequest} {windows : List (List ℤ)} {signals : List (List F)}
    (hconfig : buildConfig indicatorRows signalTypeRows req.toBacktestRequest = .ok config)
    (hgrid : req.buildParamRanges = .ok (windows, signals))
    (hmain : data.get req.symbol = .ok main) (hgap : GapFreeBars ⟨data, config, main⟩)
    (hdiv : NeverDividesByZero data config (lit req.feeBps) minMetricObs windows signals) :
    Scoreable data config (lit req.feeBps) minMetricObs windows signals ↔
      ∀ ws ss, OnGrid windows signals ws ss →
        (∃ p e, RunsAs data config (lit req.feeBps) minMetricObs ws ss p e) →
        minMetricObs ≤ (main.index.length - warmUpBars config ws main.index.length : ℕ) := by
  have hfee : observed (Performance.costOf (some (lit req.feeBps : F))) = true := by
    have hbps : ((10000 : ℚ) : K) ≠ 0 := by norm_num
    rw [Performance.costOf, Option.getD_some, lit_fin, lit_fin, div_fin _ hbps]
    exact observed_fin _
  have hcount {ws : List ℤ} {ss : List F} {p : Performance L F} {e : Enriched F}
      (hon : OnGrid windows signals ws ss)
      (hrun : RunsAs data config (lit req.feeBps) minMetricObs ws ss p e) :
      p.metricNObs e = main.index.length - warmUpBars config ws main.index.length :=
    hrun.metricNObs (hon.length_eq hconfig hgrid)
      (fun _ hsub => buildConfig_indicatorName hconfig hsub)
      ((buildConfig_eq_ok hconfig).1 ▸ hmain) hgap (hdiv ws ss p e hon hrun) hfee
  constructor
  · rintro h ws ss hon ⟨p, e, hrun⟩
    exact hcount hon hrun ▸ h ws ss p e hon hrun
  · intro h ws ss p e hon hrun
    exact hcount hon hrun ▸ h ws ss hon ⟨p, e, hrun⟩

/-- **An accepted search can be scored exactly when** its parameter sets that take
longer to warm up than the longest window still leave enough bars. -/
theorem requireScoreableSample_sound_iff (indicatorRows : List IndicatorRow)
    (signalTypeRows : List SignalTypeRow) (intervalName : ℕ → String) (data : DataDict L F)
    (req : OptimizeRequest) (config : StrategyConfig F) (main : Frame L F) (minMetricObs : ℤ)
    (windows : List (List ℤ)) (signals : List (List F))
    (haccepted : requireScoreableSample data req minMetricObs intervalName = .ok ())
    (hconfig : buildConfig indicatorRows signalTypeRows req.toBacktestRequest = .ok config)
    (hgrid : req.buildParamRanges = .ok (windows, signals))
    (hmain : data.get req.symbol = .ok main) (hgap : GapFreeBars ⟨data, config, main⟩)
    (hdiv : NeverDividesByZero data config (lit req.feeBps) minMetricObs windows signals) :
    Scoreable data config (lit req.feeBps) minMetricObs windows signals ↔
      LongWarmUpsFit data config req minMetricObs windows signals main.index.length := by
  rw [scoreable_iff hconfig hgrid hmain hgap hdiv]
  obtain ⟨df, w, hdf, hw, hneed⟩ := requireScoreableSample_eq_ok.mp haccepted
  cases hmain.symm.trans hdf
  constructor
  · exact fun h w' _ ws ss hon hrun _ => h ws ss hon hrun
  · intro h ws ss hon hrun
    rcases lt_or_ge w (warmUpBars config ws main.index.length) with hlong | hshort
    · exact h w hw ws ss hon hrun hlong
    · omega

omit [DecidableEq L] [Field K] [LinearOrder K] [IsStrictOrderedRing K] [ExactFloat K F] in
/-- A mean has its first reading within the first window. -/
theorem firstReading_succ_le {name : String} {w : ℤ} (n : ℕ)
    (hname : name ∈ ["get_sma", "get_ema", "get_bollinger_band"])
    (hw : TechnicalAnalysis.leastWindow name ≤ w) :
    TechnicalAnalysis.firstReading name w n + 1 ≤ w.toNat := by
  have hpos : 1 ≤ w := by
    rw [TechnicalAnalysis.leastWindow] at hw
    split at hw <;> omega
  rw [TechnicalAnalysis.firstReading]
  split
  · omega
  · have hwarm : TechnicalAnalysis.warmUp name w = w.toNat - 1 := by
      simp only [List.mem_cons, List.not_mem_nil, or_false] at hname
      rcases hname with rfl | rfl | rfl <;> rfl
    omega

/-- The warm-up of indicators that have their first readings within their windows. -/
theorem warmUpBars_le {w : ℤ} {n : ℕ} (hne : ws ≠ [])
    (hwindows : ∀ v ∈ ws, 1 ≤ v ∧ v ≤ w)
    (hreadings : ∀ e ∈ (config.getSubstrategies.map (·.indicatorName)).zip ws,
      TechnicalAnalysis.firstReading e.1 e.2 n + 1 ≤ e.2.toNat) :
    (warmUpBars config ws n : ℤ) ≤ w := by
  obtain ⟨v, hv⟩ := List.exists_mem_of_ne_nil ws hne
  have hlargest : (ws.map Int.toNat).foldr Max.max 0 ≤ w.toNat :=
    foldr_max_le.mpr (List.forall_mem_map.mpr fun v hv => Int.toNat_le_toNat (hwindows v hv).2)
  have hlast : (((config.getSubstrategies.map (·.indicatorName)).zip ws).map fun e =>
      TechnicalAnalysis.firstReading e.1 e.2 n).foldr Max.max 0 ≤ w.toNat - 1 := by
    refine foldr_max_le.mpr (List.forall_mem_map.mpr fun e he => ?_)
    have hfirst := hreadings e he
    have hle := (hwindows e.2 (List.of_mem_zip he).2).2
    omega
  have hpos := hwindows v hv
  rw [warmUpBars]
  omega

/-- **An accepted search of means can be scored**: they warm up within their windows. -/
theorem scoreable_of_warmsUpInWindow {indicatorRows : List IndicatorRow}
    {signalTypeRows : List SignalTypeRow} {intervalName : ℕ → String} {req : OptimizeRequest}
    {windows : List (List ℤ)} {signals : List (List F)} (hwarm : req.WarmsUpInWindow)
    (haccepted : requireScoreableSample data req minMetricObs intervalName = .ok ())
    (hconfig : buildConfig indicatorRows signalTypeRows req.toBacktestRequest = .ok config)
    (hgrid : req.buildParamRanges = .ok (windows, signals))
    (hmain : data.get req.symbol = .ok main) (hgap : GapFreeBars ⟨data, config, main⟩)
    (hdiv : NeverDividesByZero data config (lit req.feeBps) minMetricObs windows signals) :
    Scoreable data config (lit req.feeBps) minMetricObs windows signals := by
  refine (scoreable_iff hconfig hgrid hmain hgap hdiv).mpr fun ws ss hon _ => ?_
  obtain ⟨df, w, hdf, hw, hneed⟩ := requireScoreableSample_eq_ok.mp haccepted
  cases hmain.symm.trans hdf
  have hlen := hon.length_eq hconfig hgrid
  obtain ⟨windows', hwindows, hgrid⟩ := bind_eq_ok.mp hgrid
  obtain ⟨signals', -, hgrid⟩ := bind_eq_ok.mp hgrid
  cases hgrid
  -- a window of the grid, with the factor and the range that it is for
  have hwindow {i : ℕ} {f : FactorConfig} {v : ℤ} (hf : req.factors[i]? = some f)
      (hv : ws[i]? = some v) : v ≤ w ∧ f.indicator ∈ ["get_sma", "get_ema", "get_bollinger_band"] ∧
        TechnicalAnalysis.leastWindow f.indicator ≤ v := by
    obtain ⟨vs, hvs, hmem⟩ := exists_getElem? hon.windows hv
    obtain ⟨r, hr, hrange⟩ := exists_getElem? (mapM_eq_ok.mp hwindows).flip hvs
    obtain ⟨hname, hmin, hstep⟩ := hwarm (f, r)
      (List.mem_of_getElem? (List.getElem?_zip_eq_some.mpr ⟨hf, hr⟩))
    have hmax := (pyMax_eq_ok hw).2 _ (List.mem_map_of_mem (List.mem_of_getElem? hr))
    rw [RangeParam.toWindows, if_neg hstep.ne'] at hrange
    cases hrange
    obtain ⟨hlo, hhi⟩ := Python.mem_range_of_pos hstep hmem
    exact ⟨by omega, hname, hmin.trans hlo⟩
  have hfactors : ws.length = req.factors.length :=
    hlen.trans (buildConfig_eq_ok hconfig).2.1.length_eq.symm
  have hle : (warmUpBars config ws main.index.length : ℤ) ≤ w := by
    refine warmUpBars_le ?_ (fun v hv => ?_) fun e he => ?_
    · exact List.ne_nil_of_length_pos (hlen ▸ config.length_getSubstrategies_pos)
    · obtain ⟨i, hi⟩ := List.mem_iff_getElem?.mp hv
      obtain ⟨hlt, -⟩ := List.getElem?_eq_some_iff.mp hi
      obtain ⟨hv, -, hleast⟩ :=
        hwindow (List.getElem?_eq_getElem (hfactors ▸ hlt)) hi
      refine ⟨?_, hv⟩
      rw [TechnicalAnalysis.leastWindow] at hleast
      split at hleast <;> omega
    · obtain ⟨i, hi⟩ := List.mem_iff_getElem?.mp he
      obtain ⟨hname, hv⟩ := List.getElem?_zip_eq_some.mp hi
      rw [← (buildConfig_indicators hconfig).1, List.getElem?_map] at hname
      obtain ⟨f, hf, hname⟩ := Option.map_eq_some_iff.mp hname
      obtain ⟨-, hmem, hleast⟩ := hwindow hf hv
      exact firstReading_succ_le _ (hname ▸ hmem) (hname ▸ hleast)
  omega

end

/-! ## Relative strength over fourteen bars -/

namespace ShortSample

/-- Prices that fall from one bar to the next. -/
def falling : Frame ℕ ExtRat where
  index := List.range 74
  columns :=
    [("price", ⟨(List.range 74).map fun i : ℕ => lit (200 - i), List.length_map _⟩),
      ("factor", ⟨(List.range 74).map fun i : ℕ => lit (200 - i), List.length_map _⟩)]

/-- A range of one value. -/
def only (x : ℚ) : RangeParam := ⟨x, x, 1⟩

/-- A search of the relative strength over fourteen bars. -/
def request : OptimizeRequest where
  symbol := "btcusdt.crypto"
  start := "2026-01-01"
  stop := "2026-03-15"
  tradingPeriod := 365
  dataSource := "bybit"
  factors := [{ indicator := "get_rsi", strategy := "momentum" }]
  namesSource := bybit_ne_empty
  hasFactor := List.cons_ne_nil _ _
  tmIntervalId := 1
  ranges := [(only 14, only 30)]
  hasRanges := rfl

/-- Its strategy. -/
def config : StrategyConfig ExtRat where
  internalCusip := "btcusdt.crypto"
  indicatorName := "get_rsi"
  signalFunc := .momentumBoundedSignal
  tradingPeriod := 365
  conjunction := "AND"
  substrategies := [{ indicatorName := "get_rsi", signalFuncName := "momentum_bounded_signal",
                      window := 0, signal := 0, dataColumn := "price", internalCusip := none }]

/-- The bars it is searched on. -/
def bars : DataDict ℕ ExtRat := [("btcusdt.crypto", falling)]

/-- `REFDATA`. -/
def indicatorRows : List IndicatorRow := [⟨"get_rsi", "Y"⟩]

@[inherit_doc indicatorRows]
def signalTypeRows : List SignalTypeRow :=
  [⟨"momentum", "momentum_band_signal", "momentum_bounded_signal"⟩]

theorem buildConfig_request :
    buildConfig indicatorRows signalTypeRows request.toBacktestRequest = .ok config := by
  decide +kernel

/-- It searches one window, 14, and one threshold, 30. -/
theorem buildParamRanges_request :
    request.buildParamRanges = .ok ([[14]], [[(.fin 30 : ExtRat)]]) := by
  decide +kernel

/-- There are seventy-four bars, fourteen and sixty. -/
theorem accepted : requireScoreableSample bars request 60 (fun _ => "1d") = .ok () := by
  decide +kernel

theorem gapFree : GapFreeBars ⟨bars, config, falling⟩ where
  nodup := List.nodup_range
  factor sub hsub c hc := by
    have hall : config.getSubstrategies.all (fun sub =>
        (FactorFrames.factor ⟨bars, config, falling⟩ sub).toOption.all fun c =>
          c.1.all observed) = true := by decide +kernel
    have hcol := of_toOption_all (List.all_eq_true.mp hall sub hsub) hc
    exact List.all_eq_true.mp hcol
  own k hk c hc := by
    have hall : TechnicalAnalysis.inputs.all (fun k =>
        (falling.columns.lookup k).all fun c => c.1.all observed) = true := by decide +kernel
    have hcol := List.all_eq_true.mp hall k hk
    rw [hc] at hcol
    exact List.all_eq_true.mp hcol
  price c hc := by
    have hall : ((falling.columns.lookup "price").all fun c =>
        c.1.all fun x => observed x && lt 0 x) = true := by decide +kernel
    rw [hc] at hall
    exact fun x hx => Bool.and_eq_true_iff.mp (List.all_eq_true.mp hall x hx)

/-- The falls are never zero. -/
theorem neverDividesByZero :
    NeverDividesByZero bars config (lit request.feeBps) 60 [[14]] [[.fin 30]] := by
  intro ws ss p e hon hrun
  obtain ⟨frames, ws', ss', mw, hframes, hws', -, -, rfl⟩ := Performance.init_eq_ok.mp hrun.init
  obtain ⟨main, hmain, rfl⟩ := FactorFrames.init_eq_ok.mp hframes
  cases hmain
  have hws : ws = [14] := by
    obtain ⟨w, _, hw, hnil, rfl⟩ := List.forall₂_cons_right_iff.mp hon.windows
    rw [List.mem_singleton.mp hw, List.forall₂_nil_right_iff.mp hnil]
  subst hws
  cases hws'
  intro frame name w hcomp
  cases hcomp with
  | single _ hframe hw =>
    cases hw
    have hall : ((FactorFrames.singleFactorFrame ⟨bars, config, falling⟩).toOption.all fun f =>
        (TechnicalAnalysis.divisors f "get_rsi" 14).all fun d => !eq d 0) = true := by
      decide +kernel
    have hdiv := of_toOption_all hall hframe
    exact fun d hd => (Bool.not_eq_true' _).mp (List.all_eq_true.mp hdiv d hd)
  | multi hmulti => cases hmulti

end ShortSample

open ShortSample in
/-- Sixty returns are asked for, and the relative strength over fourteen bars leaves
fifty-nine of the seventy-four: its first reading is on the fifteenth bar. -/
theorem rsi_sample_too_short :
    requireScoreableSample bars request 60 (fun _ => "1d") = .ok () ∧
    buildConfig indicatorRows signalTypeRows request.toBacktestRequest = .ok config ∧
    request.buildParamRanges = .ok ([[14]], [[(.fin 30 : ExtRat)]]) ∧
    GapFreeBars ⟨bars, config, falling⟩ ∧
    NeverDividesByZero bars config (lit request.feeBps) 60 [[14]] [[.fin 30]] ∧
    ¬ Scoreable bars config (lit request.feeBps) 60 [[14]] [[.fin 30]] := by
  refine ⟨accepted, buildConfig_request, buildParamRanges_request, gapFree, neverDividesByZero,
    fun h => ?_⟩
  have hcount : ((Performance.init bars config (some (paramArg config [14]))
      (some (paramArg config [.fin 30])) (some (lit request.feeBps)) 60).toOption.bind fun p =>
        p.enrichPerformance.toOption.map fun e => p.metricNObs e) = some 59 := by decide +kernel
  obtain ⟨p, hp, hcount⟩ := Option.bind_eq_some_iff.mp hcount
  obtain ⟨e, he, hcount⟩ := Option.map_eq_some_iff.mp hcount
  have hrun : RunsAs bars config (lit request.feeBps) 60 [14] [.fin 30] p e :=
    ⟨toOption_eq_some.mp hp, toOption_eq_some.mp he⟩
  have hle := h [14] [.fin 30] p e
    ⟨.cons (List.mem_singleton_self _) .nil, .cons (List.mem_singleton_self _) .nil⟩ hrun
  omega

open ShortSample in
/-- On that request and those bars. -/
theorem rsi_sample_sound_iff :
    Scoreable bars config (lit request.feeBps) 60 [[14]] [[.fin 30]] ↔
      LongWarmUpsFit bars config request 60 [[14]] [[.fin 30]] falling.index.length :=
  requireScoreableSample_sound_iff indicatorRows signalTypeRows (fun _ => "1d") bars request
    config falling 60 [[14]] [[.fin 30]] accepted buildConfig_request buildParamRanges_request rfl
    gapFree neverDividesByZero
