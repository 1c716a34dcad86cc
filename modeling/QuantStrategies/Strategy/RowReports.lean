import QuantStrategies.Strategy.BacktestService

/-!
# Rows and their reports

The grid of a search and the report of one set come from two engines. This module says
that they agree on what the caller sees: a row that shows a ratio shows the one that the
report of its windows and signals has, and so does the report that comes with the search.

A walk-forward test searches the bars before the split in the same way. Its in-sample
figures are those of the set that it found, which no other set that was tried exceeds.

Nothing is assumed of the indicators or of the frames. That an objective was built says
that the indicators take all windows, and that there is a report says that the traded
frame has what a report needs.

Three engines are compared, each with the one before. A scored row is a call of the
objective, a call of the objective is the report of its set (`search_eq_report`), and the
report of the set is what the request for the row is answered with. What they have in common
is `SearchValues.Matches`, which the values of every accepted request satisfy.
-/

open Pandas NpFloat Result

/-! ## One set, scored and reported -/

section

variable {L F : Type} [DecidableEq L] [NpFloat F] {data : DataDict L F} {config : StrategyConfig F}
  {feeBps : Option F} {minMetricObs : ℤ}

/-- A window that a cache was filled for is one that the indicator takes. -/
theorem IndicatorCache.accepts_of_init {frame : Frame L F} {name : String} {ws : List ℤ}
    {cache : IndicatorCache F} (h : IndicatorCache.init frame name ws = .ok cache) :
    ∀ w ∈ ws, TechnicalAnalysis.accepts name w = true := by
  intro w hw
  obtain ⟨ta, -, hloop⟩ := bind_eq_ok.mp h
  obtain ⟨e, -, he⟩ := exists_mem_of_mapM hloop hw
  obtain ⟨c, hc, -⟩ := IndicatorCache.entry_eq_ok.mp he
  exact TechnicalAnalysis.accepts_of_indicator hc

/-- An objective is built for windows that the indicators take. -/
theorem allAccepted_of_forConfig {space : WindowValues} {objective : Objective F}
    (hfits : Fits config space)
    (h : Objective.forConfig data config space feeBps minMetricObs = .ok objective) :
    AllAccepted config space := by
  obtain ⟨frames, hframes, h⟩ := bind_eq_ok.mp h
  obtain ⟨price, -, h⟩ := bind_eq_ok.mp h
  obtain ⟨kind, hkind, -⟩ := bind_eq_ok.mp h
  obtain ⟨main, -, rfl⟩ := FactorFrames.init_eq_ok.mp hframes
  rw [Objective.initKind] at hkind
  cases space with
  | flat ws =>
    rw [if_neg (Nat.not_lt.mpr hfits)] at hkind
    obtain ⟨frame, -, hkind⟩ := bind_eq_ok.mp hkind
    obtain ⟨cache, hcache, -⟩ := bind_eq_ok.mp hkind
    exact IndicatorCache.accepts_of_init hcache
  | perFactor ranges =>
    rw [if_pos hfits.1] at hkind
    obtain ⟨fs, hfs, -⟩ := bind_eq_ok.mp hkind
    intro s hs
    obtain ⟨f, -, hf⟩ := exists_mem_of_mapM hfs hs
    obtain ⟨c, -, hf⟩ := bind_eq_ok.mp hf
    obtain ⟨cache, hcache, -⟩ := bind_eq_ok.mp hf
    exact IndicatorCache.accepts_of_init hcache

/-- A report on several factors needs a `factor` column on the traded frame. -/
theorem hasColumn_of_reportSharpe {ws : List ℤ} {ss : List F} {u : F}
    (hmany : 1 < config.getSubstrategies.length)
    (h : reportSharpe data config ws ss feeBps minMetricObs = .ok u) :
    ∀ f, data.get config.internalCusip = .ok f → f.hasColumn "factor" = true := by
  intro f hf
  obtain ⟨p, hp, ⟨outs, position⟩, hr, -⟩ := reportSharpe_eq_ok.mp h
  obtain ⟨frames, ws', ss', mw, hframes, -, -, -, rfl⟩ := Performance.init_eq_ok.mp hp
  obtain ⟨main, hmain, rfl⟩ := FactorFrames.init_eq_ok.mp hframes
  obtain ⟨-, ⟨ta, hta⟩, -⟩ := (Performance.factorOutputs_parts.mp hr).resolve_right
    fun hsingle => of_decide_eq_false hsingle.1 hmany
  have hcol := (TechnicalAnalysis.init_eq_ok.mp hta).1
  rw [hf] at hmain
  cases hmain
  exact hcol

/-- **A set that a search scored has that ratio in its report**, where it is reported on. -/
theorem report_of_scored {values : SearchValues F} {objective : Objective F}
    {p : List (ℤ × F)} {v u : F} (hfits : Fits config values.windowSpec)
    (hpaired : ∀ ws ss, values = .perFactor ws ss → ss.length = ws.length)
    (ho : Objective.forConfig data config values.windowSpec feeBps minMetricObs = .ok objective)
    (hp : p ∈ SearchSpace.paramSets values.factors) (hscore : objective.score p = some v)
    (hreport : reportSharpe data config (p.map Prod.fst) (p.map Prod.snd) feeBps minMetricObs =
      .ok u) : u = v := by
  have hacc := allAccepted_of_forConfig hfits ho
  have hsearch : searchSharpe data config values.windowSpec (p.map Prod.fst) (p.map Prod.snd)
      feeBps minMetricObs = .ok v := bind_eq_ok.mpr ⟨_, ho, (Objective.score_eq_some.mp hscore).1⟩
  have hmem := SearchSpace.forall₂_of_mem_paramSets hp
  suffices hsame : reportSharpe data config (p.map Prod.fst) (p.map Prod.snd) feeBps minMetricObs =
      .ok v from Except.ok.inj (hreport.symm.trans hsame)
  cases values with
  | flat ws ss =>
    obtain ⟨c, rfl⟩ := List.length_eq_one_iff.mp (SearchSpace.length_of_mem_paramSets hp)
    obtain ⟨hw, -⟩ := (List.forall₂_cons.mp hmem).1
    exact (search_eq_report_single hfits hw hacc).mp hsearch
  | perFactor ranges signalRanges =>
    have hin : List.Forall₂ (· ∈ ·) (p.map Prod.fst) ranges := by
      have hfst : (ranges.zip signalRanges).map Prod.fst = ranges :=
        List.map_fst_zip (hpaired _ _ rfl).ge
      rw [← hfst]
      exact List.forall₂_map_left_iff.mpr (List.forall₂_map_right_iff.mpr (hmem.imp
        fun _ _ h => h.1))
    exact (search_eq_report_multi hfits hin (by rw [List.length_map, List.length_map]) hacc
      (hasColumn_of_reportSharpe hfits.1 hreport)).mp hsearch

end

/-! ## What a report takes from a row -/

section

variable {L F : Type} [DecidableEq L] [NpFloat F] {data : DataDict L F} {config : StrategyConfig F}
  {feeBps : Option F} {minMetricObs : ℤ} {values : SearchValues F} {p : List (ℤ × F)}

/-- Values for each factor of a strategy, and no others. -/
structure SearchValues.Matches (values : SearchValues F) (config : StrategyConfig F) : Prop where
  /-- The windows are of the kind the strategy takes. -/
  fits : Fits config values.windowSpec
  /-- Windows and signals are paired. -/
  paired : ∀ ws ss, values = perFactor ws ss → ss.length = ws.length
  /-- There are ranges for each factor, and for no other. -/
  count : values.factors.length = config.getSubstrategies.length
  /-- No signal is missing. -/
  numbers : ∀ f ∈ values.factors, ∀ s ∈ f.2, isNan s = false

/-- The parameters that a report takes from the row of a set are those of the set. -/
theorem SearchValues.Matches.reportParams_row (h : values.Matches config)
    (hp : p ∈ SearchSpace.paramSets values.factors) (c : Cell F) :
    reportParams config (.row (values.params p ++ [("sharpe", c)])) =
      .ok (some (paramArg config (p.map Prod.fst)), some (paramArg config (p.map Prod.snd))) := by
  have hlen := SearchSpace.length_of_mem_paramSets hp
  have hfits := h.fits
  have hcount := h.count
  cases values with
  | flat ws ss =>
    have hn : ¬1 < config.getSubstrategies.length := Nat.not_lt.mpr hfits
    obtain ⟨c', rfl⟩ := List.length_eq_one_iff.mp hlen
    rw [List.map_singleton, List.map_singleton, paramArg_singleton hn, paramArg_singleton hn,
      reportParams, if_neg hn]
    rfl
  | perFactor ws ss =>
    have hn : 1 < config.getSubstrategies.length := hfits.1
    rw [paramArg_of_lt hn, paramArg_of_lt hn, reportParams, if_pos hn, ← hcount, ← hlen]
    have hw := SearchSpace.mapM_range_eq (p := p) (h := Prod.fst)
      (g := fun i => pick Cell.window (SearchSpace.rowFrom 0 p ++ [("sharpe", c)])
        (SearchSpace.windowKey i) "window") fun i x hx => by
          rw [pick, List.lookup_append, (SearchSpace.lookup_rowFrom hx).1]
          rfl
    have hs := SearchSpace.mapM_range_eq (p := p) (h := Prod.snd)
      (g := fun i => pick Cell.signal (SearchSpace.rowFrom 0 p ++ [("sharpe", c)])
        (SearchSpace.signalKey i) "signal") fun i x hx => by
          rw [pick, List.lookup_append, (SearchSpace.lookup_rowFrom hx).2]
          rfl
    exact bind_eq_ok.mpr ⟨_, hw, bind_eq_ok.mpr ⟨_, hs, rfl⟩⟩

/-- The ratio of a row is under its own key. -/
theorem SearchValues.lookup_sharpe (values : SearchValues F) (p : List (ℤ × F)) (x : F) :
    (ParametersOptimization.toRecord ⟨values.params p, x⟩).lookup "sharpe" =
      some (Cell.float x).replaceNan := by
  have hparams : (values.params p).lookup "sharpe" = none := by
    cases values with
    | flat ws ss =>
      refine List.lookup_eq_none_iff.mpr fun e he => bne_iff_ne.mpr ?_
      obtain ⟨c, -, he⟩ := List.mem_flatMap.mp he
      rcases List.mem_cons.mp he with rfl | he
      · exact show "sharpe" ≠ "window" by decide
      · cases List.mem_singleton.mp he
        exact show "sharpe" ≠ "signal" by decide
    | perFactor ws ss =>
      exact SearchSpace.lookup_rowFrom_none SearchSpace.sharpe_ne_windowKey
        SearchSpace.sharpe_ne_signalKey 0 p
  rw [ParametersOptimization.toRecord, lookup_map_snd, List.lookup_append, hparams]
  rfl

omit [NpFloat F] in
/-- The figures of a series are found under their labels. -/
theorem lookup_metricsOf {figures : Figure → Except FigureError F} {metrics : List (String × F)}
    {x : F} (h : metricsOf figures = .ok metrics) (hx : figures .sharpeRatio = .ok x) :
    metrics.lookup "Sharpe Ratio" = some x := by
  obtain ⟨a, rest₁, ha, h₁, rfl⟩ := mapM_cons_eq_ok.mp h
  obtain ⟨b, rest₂, hb, h₂, rfl⟩ := mapM_cons_eq_ok.mp h₁
  obtain ⟨c, rest₃, hc, -, rfl⟩ := mapM_cons_eq_ok.mp h₂
  obtain ⟨_, -, ha⟩ := bind_eq_ok.mp ha
  obtain ⟨_, -, hb⟩ := bind_eq_ok.mp hb
  obtain ⟨y, hy, hc⟩ := bind_eq_ok.mp hc
  cases ha
  cases hb
  cases hc
  rw [hx] at hy
  cases hy
  rfl

/-- The ratio of a report is the one of the engine that reports. -/
theorem buildPerfResponse_sharpe {power : F → F → Except FigureError F} {picked : PickedParams F}
    {ws : List ℤ} {ss : List F} {perf : PerformanceResponse L F}
    (hparams : reportParams config picked =
      .ok (some (paramArg config ws), some (paramArg config ss)))
    (h : buildPerfResponse power data config picked feeBps minMetricObs = .ok perf) :
    ∃ u, reportSharpe data config ws ss feeBps minMetricObs = .ok u ∧
      perf.strategyMetrics.lookup "Sharpe Ratio" = some (Cell.float u).replaceNan := by
  obtain ⟨params, hparams', h⟩ := bind_eq_ok.mp h
  rw [mapError_eq_ok, hparams] at hparams'
  cases hparams'
  obtain ⟨⟨q, e⟩, hrun, h⟩ := bind_eq_ok.mp h
  obtain ⟨strategy, hstrategy, h⟩ := bind_eq_ok.mp h
  obtain ⟨buyHold, -, h⟩ := bind_eq_ok.mp h
  cases h
  obtain ⟨q', hq, hrun⟩ := bind_eq_ok.mp (mapError_eq_ok.mp hrun)
  obtain ⟨e', he, hrun⟩ := bind_eq_ok.mp hrun
  cases hrun
  refine ⟨q.getSharpeRatio e, bind_eq_ok.mpr ⟨q, hq, bind_eq_ok.mpr ⟨e, he, rfl⟩⟩, ?_⟩
  have hlook := lookup_metricsOf (mapError_eq_ok.mp hstrategy) rfl
  rw [List.lookup_append, metricsRecord,
    lookup_map_snd (fun x : F => (Cell.float x).replaceNan), hlook]
  rfl

/-- **A row shows the ratio of its report**, where there is a report. The objective and the report
compute it with two engines, from the same frames and the same set of parameters. -/
theorem sharpe_of_row {power : F → F → Except FigureError F} {objective : Objective F}
    {picked : PickedParams F} {perf : PerformanceResponse L F} {v : F}
    (hmatch : values.Matches config)
    (ho : Objective.forConfig data config values.windowSpec feeBps minMetricObs = .ok objective)
    (hp : p ∈ SearchSpace.paramSets values.factors) (hscore : objective.score p = some v)
    (hparams : reportParams config picked =
      .ok (some (paramArg config (p.map Prod.fst)), some (paramArg config (p.map Prod.snd))))
    (h : buildPerfResponse power data config picked feeBps minMetricObs = .ok perf) :
    perf.strategyMetrics.lookup "Sharpe Ratio" = some (.float v) := by
  obtain ⟨u, hu, hlook⟩ := buildPerfResponse_sharpe hparams h
  rw [hlook, report_of_scored hmatch.fits hmatch.paired ho hp hscore hu]
  exact congrArg some (if_neg (by
    rw [(Objective.score_eq_some.mp hscore).2.1]
    exact Bool.false_ne_true))

end

/-- A search that goes through reports the sets that it tried, and the best of them. -/
theorem ParametersOptimization.reports_of_run {L F : Type} [DecidableEq L] [IeeeEnds F]
    {sampler : Sampler F} {sorting : SortValues F} {opt : ParametersOptimization L F}
    {values : SearchValues F} {r : OptimizeResult F} (hmatch : values.Matches opt.config)
    (h : opt.run sampler sorting values none = .ok r) :
    ∃ objective tried, Objective.forConfig opt.data opt.config values.windowSpec opt.feeBps
        opt.minMetricObs = .ok objective ∧
      Tried values.factors (trialsOf values.factors none) tried ∧
      r.Reports values.params objective tried ∧
      ∀ int, r.Best int values opt.config objective tried := by
  obtain ⟨space, hspans, hspec, hrow, hrun⟩ := opt.exists_space hmatch.fits hmatch.paired
  have hspace := (hrun ..).symm.trans h
  obtain ⟨hne, objective, ho⟩ := built_of_runSpace hspans hspace
  have hnone : ∀ n ∈ (none : Option ℤ), 0 < n := fun n hn => by cases hn
  obtain ⟨r', tried, hr, htried, hreports⟩ := runSpace_reports sampler sorting opt hspans hne
    hnone ho
  rw [hspace] at hr
  cases hr
  have hreports := reports_of_row hrow htried.subset hreports
  exact ⟨objective, tried, hspec ▸ ho, htried, hreports, fun int =>
    hreports.best_of ⟨hmatch.fits, hmatch.paired, hne, hmatch.numbers⟩ htried.subset int⟩

/-! ## Requests -/

section

variable {F : Type} [IeeeFloat F] {indicatorRows : List IndicatorRow}
  {signalTypeRows : List SignalTypeRow} {config : StrategyConfig F}

/-- The values that a request is searched over are those of its strategy's factors. -/
theorem OptimizeRequest.searchValues_matches {req : OptimizeRequest} {values : SearchValues F}
    (hconfig : buildConfig indicatorRows signalTypeRows req.toBacktestRequest = .ok config)
    (h : req.searchValues = .ok values) : values.Matches config := by
  have hcount : req.ranges.length = config.getSubstrategies.length :=
    req.hasRanges.trans (buildConfig_eq_ok hconfig).2.1.length_eq
  obtain ⟨⟨windows, signals⟩, hbuild, h⟩ := bind_eq_ok.mp h
  obtain ⟨ws, hws, hbuild⟩ := bind_eq_ok.mp hbuild
  obtain ⟨ss, hss, hbuild⟩ := bind_eq_ok.mp hbuild
  cases hbuild
  have hwlen : windows.length = config.getSubstrategies.length :=
    (mapM_eq_ok.mp hws).length_eq.symm.trans hcount
  have hslen : signals.length = config.getSubstrategies.length :=
    (mapM_eq_ok.mp hss).length_eq.symm.trans hcount
  have hnum : ∀ s ∈ signals, ∀ x ∈ s, isNan x = false := by
    intro s hs x hx
    obtain ⟨r, -, hr⟩ := exists_of_mem_mapM hss hs
    cases hvalues : arange r.2.min r.2.padded r.2.step with
    | error e =>
      rw [RangeParam.toSignals, RangeParam.signalValues, hvalues] at hr
      cases hr
    | ok xs =>
      rw [RangeParam.toSignals, RangeParam.signalValues, hvalues] at hr
      cases hr
      obtain ⟨y, hy, rfl⟩ := List.mem_map.mp hx
      exact ExtRat.isNan_toFloat (Arange.arange_ne_nan hvalues hy)
  have hpos := config.length_getSubstrategies_pos
  split at h
  · next ws ss hpair =>
    cases hpair
    cases h
    rw [List.length_singleton] at hwlen
    exact ⟨hwlen.ge, fun _ _ h => (by cases h), hwlen, by simpa [SearchValues.factors] using hnum⟩
  · next ws ss hmany hpair =>
    cases hpair
    cases h
    have hne : config.getSubstrategies.length ≠ 1 := by
      intro hone
      obtain ⟨w, rfl⟩ := List.length_eq_one_iff.mp (hwlen.trans hone)
      obtain ⟨s, rfl⟩ := List.length_eq_one_iff.mp (hslen.trans hone)
      exact hmany w s rfl rfl
    refine ⟨⟨by omega, hwlen.ge⟩, ?_, ?_, ?_⟩
    · rintro _ _ ⟨⟩
      exact hslen.trans hwlen.symm
    · rw [SearchValues.factors, List.length_zip, hwlen, hslen, Nat.min_self]
    · exact fun f hf => hnum f.2 (List.of_mem_zip hf).2

end

section

variable {L F : Type}

/-- A request for the report of a row: the same strategy on the same data, with the windows
and signals that the row has. -/
structure PricesRow (req : SearchRequest) (record : Record F) (pricing : PerformanceRequest F) :
    Prop where
  /-- The same strategy, on the same data. -/
  base : pricing.toBacktestRequest = req.toBacktestRequest
  /-- With the same fee. -/
  fee : pricing.feeBps = req.feeBps
  /-- With as many windows as signals. -/
  length : pricing.windows.length = pricing.signals.length
  /-- Of one factor, the window and the signal that the row has. -/
  one : req.factors.length = 1 → ∃ w s, pricing.windows = [w] ∧ pricing.signals = [s] ∧
    record.lookup "window" = some (.int w) ∧ record.lookup "signal" = some (.float s)
  /-- Of several, those that it has for each. -/
  many : req.factors.length ≠ 1 → pricing.windows.length = req.factors.length ∧
    (∀ i w, pricing.windows[i]? = some w →
      record.lookup (SearchSpace.windowKey i) = some (.int w)) ∧
    ∀ i s, pricing.signals[i]? = some s →
      record.lookup (SearchSpace.signalKey i) = some (.float s)

variable [NpFloat F] {config : StrategyConfig F} {values : SearchValues F} {p : List (ℤ × F)}
  {req : SearchRequest} {pricing : PerformanceRequest F}

/-- The request has the windows and signals of the row's set. -/
theorem PricesRow.picks {c : Cell F} (h : PricesRow req (values.params p ++ [("sharpe", c)]) pricing)
    (hmatch : values.Matches config) (hcount : req.factors.length = config.getSubstrategies.length)
    (hp : p ∈ SearchSpace.paramSets values.factors) :
    pricing.windows = p.map Prod.fst ∧ pricing.signals = p.map Prod.snd := by
  have hlen := SearchSpace.length_of_mem_paramSets hp
  have hvalues := hmatch.count
  have hfits := hmatch.fits
  cases values with
  | flat ws ss =>
    obtain ⟨x, rfl⟩ := List.length_eq_one_iff.mp hlen
    obtain ⟨w, s, hw, hs, hlookw, hlooks⟩ := h.one (hcount.trans hvalues.symm)
    cases hlookw
    cases hlooks
    exact ⟨hw, hs⟩
  | perFactor ws ss =>
    have hn : 1 < config.getSubstrategies.length := hfits.1
    obtain ⟨hwlen, hw, hs⟩ := h.many (by omega)
    have hplen : p.length = pricing.windows.length := by omega
    have hslen := h.length
    constructor
    · refine List.ext_getElem (by rw [List.length_map, hplen]) fun i hi hi' => ?_
      rw [List.length_map] at hi'
      have hlook := hw i _ (List.getElem?_eq_getElem hi)
      rw [SearchValues.params, List.lookup_append,
        (SearchSpace.lookup_rowFrom (List.getElem?_eq_getElem hi')).1] at hlook
      rw [List.getElem_map]
      exact (Cell.int.inj (Option.some.inj hlook)).symm
    · refine List.ext_getElem (by rw [List.length_map, ← hslen, hplen]) fun i hi hi' => ?_
      rw [List.length_map] at hi'
      have hlook := hs i _ (List.getElem?_eq_getElem hi)
      rw [SearchValues.params, List.lookup_append,
        (SearchSpace.lookup_rowFrom (List.getElem?_eq_getElem hi')).2] at hlook
      rw [List.getElem_map]
      exact (Cell.float.inj (Option.some.inj hlook)).symm

/-- What the caller picked is reported with the parameters of the set. -/
theorem reportParams_picked (hn : p.length = config.getSubstrategies.length) :
    reportParams config (match p.map Prod.fst, p.map Prod.snd with
      | [window], [signal] => .scalars window signal
      | windows, signals => .tuples windows signals) =
      .ok (some (paramArg config (p.map Prod.fst)), some (paramArg config (p.map Prod.snd))) := by
  have hpos := config.length_getSubstrategies_pos
  match p, hn with
  | [], hn =>
    rw [List.length_nil] at hn
    omega
  | [c], hn =>
    have hone : ¬1 < config.getSubstrategies.length := by
      rw [← hn]
      exact Nat.lt_irrefl 1
    rw [List.map_singleton, List.map_singleton, paramArg_singleton hone, paramArg_singleton hone]
    exact if_neg hone
  | c :: c' :: p, hn =>
    have hmany : 1 < config.getSubstrategies.length := by
      rw [← hn, List.length_cons, List.length_cons]
      omega
    rw [paramArg_of_lt hmany, paramArg_of_lt hmany]
    rfl

end

/-! ## Answers -/

section

variable {L F : Type} [LinearOrder L] [IeeeEnds F] {engine : Engine F} {stores : Stores L F}
  {req : SearchRequest} {resp : OptimizeResponse L F}

/-- A search that is answered: what it loaded, and what it found. -/
structure Answered (engine : Engine F) (stores : Stores L F) (req : SearchRequest)
    (resp : OptimizeResponse L F) (data : DataDict L F) (config : StrategyConfig F)
    (values : SearchValues F) (result : OptimizeResult F) : Prop where
  /-- The frames it loaded. -/
  loads : buildDataDict stores.dates stores.fetch stores.appRows req.toBacktestRequest = .ok data
  /-- The strategy it built. -/
  builds : buildConfig stores.indicatorRows stores.signalTypeRows req.toBacktestRequest = .ok config
  /-- The values its ranges expand to. -/
  expands : req.searchValues = .ok values
  /-- The search over them. -/
  searches : ParametersOptimization.run engine.sampler engine.sorting
    ⟨data, config, some (lit req.feeBps), stores.minMetricObs⟩ values none = .ok result
  /-- The best record of the answer is the search's. -/
  best : resp.best = result.best
  /-- So is its grid. -/
  grid : resp.grid = result.grid
  /-- And the report is of that record, where there is one, left out where it fails. -/
  performance : resp.performance = if 0 < result.nValid ∧ result.best ≠ [] then
      (buildPerfResponse engine.power data config (.row result.best) (some (lit req.feeBps))
        stores.minMetricObs).toOption
    else none

/-- An endpoint that answers has gone through all of these steps. -/
theorem exists_answered (h : runOptimize engine stores req = .ok resp) :
    ∃ data config values result, Answered engine stores req resp data config values result := by
  obtain ⟨data, hdata, h⟩ := bind_eq_ok.mp h
  obtain ⟨-, -, h⟩ := bind_eq_ok.mp h
  obtain ⟨config, hconfig, h⟩ := bind_eq_ok.mp h
  obtain ⟨values, hvalues, h⟩ := bind_eq_ok.mp h
  obtain ⟨result, hresult, h⟩ := bind_eq_ok.mp h
  cases h
  exact ⟨data, config, values, result, mapError_eq_ok.mp hdata, mapError_eq_ok.mp hconfig,
    mapError_eq_ok.mp hvalues, mapError_eq_ok.mp hresult, rfl, rfl, rfl⟩

namespace Answered

variable {data : DataDict L F} {config : StrategyConfig F} {values : SearchValues F}
  {result : OptimizeResult F}

/-- The request's ranges are of the strategy that it names: validation has them for each factor,
and no signal of a range is missing. -/
theorem matches_config (h : Answered engine stores req resp data config values result) :
    values.Matches config :=
  OptimizeRequest.searchValues_matches h.builds h.expands

/-- The grid of an answer has the sets that an objective scored. -/
theorem exists_reports (h : Answered engine stores req resp data config values result) :
    ∃ objective tried, Objective.forConfig data config values.windowSpec (some (lit req.feeBps))
        stores.minMetricObs = .ok objective ∧
      (∀ p ∈ tried, p ∈ SearchSpace.paramSets values.factors) ∧
      result.Reports values.params objective tried := by
  obtain ⟨objective, tried, ho, htried, hreports, -⟩ :=
    ParametersOptimization.reports_of_run h.matches_config h.searches
  exact ⟨objective, tried, ho, htried.subset, hreports⟩

/-- The best row is one of the grid, and has a ratio. -/
theorem best_mem (h : Answered engine stores req resp data config values result)
    (hne : result.best ≠ []) :
    resp.best ∈ resp.grid ∧ ∃ v, resp.best.lookup "sharpe" = some (.float v) := by
  obtain ⟨objective, tried, ho, hmem, hreports⟩ := h.exists_reports
  obtain ⟨top, htop, htop10⟩ := hreports.top10
  have hbest := hreports.best
  rw [htop10] at hbest
  cases top with
  | nil => exact absurd hbest hne
  | cons row top =>
    obtain ⟨hrow, hnum⟩ := List.mem_filter.mp (htop.mem List.mem_cons_self)
    have hbest : resp.best = ParametersOptimization.toRecord row := h.best.trans hbest
    rw [hbest, h.grid, hreports.grid]
    refine ⟨List.mem_map_of_mem hrow, row.sharpe, ?_⟩
    rw [hreports.gridDf] at hrow
    obtain ⟨p, -, rfl⟩ := List.mem_map.mp hrow
    rw [SearchValues.lookup_sharpe, Cell.replaceNan]
    exact congrArg some (if_neg (by simpa using hnum))

/-- A row with a ratio is that of a set with that score. -/
theorem exists_scored (h : Answered engine stores req resp data config values result)
    {record : Record F} (hrecord : record ∈ resp.grid) {v : F}
    (hv : record.lookup "sharpe" = some (.float v)) :
    ∃ objective p, Objective.forConfig data config values.windowSpec (some (lit req.feeBps))
        stores.minMetricObs = .ok objective ∧ p ∈ SearchSpace.paramSets values.factors ∧
      objective.score p = some v ∧ record = values.params p ++ [("sharpe", .float v)] := by
  obtain ⟨objective, tried, ho, hmem, hreports⟩ := h.exists_reports
  rw [h.grid, hreports.grid, hreports.gridDf, List.map_map] at hrecord
  obtain ⟨p, hp, rfl⟩ := List.mem_map.mp hrecord
  rw [Function.comp_apply, SearchValues.lookup_sharpe] at hv
  cases hscore : objective.score p with
  | none =>
    rw [hscore, Option.getD_none, Cell.replaceNan, if_pos NpFloat.isNan_nan] at hv
    cases hv
  | some u =>
    have hnan := (Objective.score_eq_some.mp hscore).2.1
    rw [hscore, Option.getD_some, Cell.replaceNan,
      if_neg (by rw [hnan]; exact Bool.false_ne_true)] at hv
    cases hv
    refine ⟨objective, p, ho, hmem p hp, hscore, ?_⟩
    rw [Function.comp_apply, hscore]
    exact toRecord_eq (SearchValues.replaceNan_params h.matches_config.numbers (hmem p hp)) hnan

end Answered

/-- **What a search answers is what a report answers.** A row of the grid that shows a
ratio shows the one that its own report has, and the report that comes with the search has
the ratio of the best row. -/
theorem runOptimize_consistent (h : runOptimize engine stores req = .ok resp) :
    (∀ record ∈ resp.grid, ∀ v, record.lookup "sharpe" = some (.float v) →
      ∀ pricing perf, PricesRow req record pricing →
        runPerformance engine stores pricing = .ok perf →
          perf.strategyMetrics.lookup "Sharpe Ratio" = some (.float v)) ∧
    ∀ perf, resp.performance = some perf → resp.best ∈ resp.grid ∧
      ∃ v, resp.best.lookup "sharpe" = some (.float v) ∧
        perf.strategyMetrics.lookup "Sharpe Ratio" = some (.float v) := by
  obtain ⟨data, config, values, result, h⟩ := exists_answered h
  have hmatch := h.matches_config
  constructor
  · intro record hrecord v hv pricing perf hprices hperf
    obtain ⟨objective, p, ho, hp, hscore, rfl⟩ := h.exists_scored hrecord hv
    have hcount : req.factors.length = config.getSubstrategies.length :=
      (buildConfig_eq_ok h.builds).2.1.length_eq
    obtain ⟨hws, hss⟩ := hprices.picks hmatch hcount hp
    have hlen := SearchSpace.length_of_mem_paramSets hp
    obtain ⟨data', hdata, hperf⟩ := bind_eq_ok.mp hperf
    obtain ⟨config', hconfig, hperf⟩ := bind_eq_ok.mp hperf
    rw [mapError_eq_ok, hprices.base, h.loads] at hdata
    rw [mapError_eq_ok, hprices.base, h.builds] at hconfig
    cases hdata
    cases hconfig
    split at hperf
    · cases hperf
    · rw [mapError_eq_ok, hws, hss, hprices.fee] at hperf
      exact sharpe_of_row hmatch ho hp hscore (reportParams_picked (hlen.trans hmatch.count)) hperf
  · intro perf hperf
    rw [h.performance] at hperf
    split at hperf
    · next hvalid =>
      have hbuild := toOption_eq_some.mp hperf
      obtain ⟨hmem, v, hv⟩ := h.best_mem hvalid.2
      obtain ⟨objective, p, ho, hp, hscore, hrow⟩ := h.exists_scored hmem hv
      refine ⟨hmem, v, hv, ?_⟩
      rw [← h.best, hrow] at hbuild
      exact sharpe_of_row hmatch ho hp hscore (hmatch.reportParams_row hp _) hbuild
    · cases hperf

end

/-! ## The in-sample part of a walk-forward test -/

section

variable {L F : Type} [DecidableEq L] [IeeeEnds F] {engine : Engine F} {data : DataDict L F}
  {config : StrategyConfig F} {values : SearchValues F} {feeBps : Option F} {minMetricObs : ℤ}

/-- **What a walk-forward test is about**: of the sets tried on the bars before the split,
one with the greatest ratio. It is the one that is tested, and the in-sample figures have
that ratio. -/
structure WalkForwardResponse.InSampleBest (resp : WalkForwardResponse L F) (wf : WalkForward L F)
    (values : SearchValues F) (objective : Objective F) (tried : List (List (ℤ × F)))
    (p : List (ℤ × F)) (v : F) : Prop where
  /-- The objective is of the bars before the split. -/
  built : Objective.forConfig wf.isDataDict wf.config values.windowSpec wf.feeBps
    wf.minMetricObs = .ok objective
  /-- The sets tried on them. -/
  tries : Tried values.factors (trialsOf values.factors none) tried
  /-- The set that was found is one of these. -/
  mem : p ∈ tried
  /-- With its ratio. -/
  scored : objective.score p = some v
  /-- No set that was tried has a greater one. -/
  greatest : ∀ q ∈ tried, ∀ u, objective.score q = some u → lt v u = false
  /-- It is the one that is tested, by its windows. -/
  window : resp.bestWindow = paramArg wf.config (p.map Prod.fst)
  /-- And by its signals. -/
  signal : resp.bestSignal = paramArg wf.config (p.map Prod.snd)
  /-- The in-sample figures show that ratio. -/
  sharpe : resp.isMetrics.lookup "Sharpe Ratio" = some (.float v)

omit [DecidableEq L] in
/-- What a test keeps of what it was made from. -/
theorem WalkForward.fields_of_init {int : F → ℤ} {str : F → String} {splitRatio : F}
    {wf : WalkForward L F}
    (h : WalkForward.init int str data splitRatio config feeBps minMetricObs = .ok wf) :
    wf.allData = data ∧ wf.config = config ∧ wf.feeBps = feeBps ∧
      wf.minMetricObs = minMetricObs := by
  rw [WalkForward.init] at h
  split at h
  · cases h
  · split at h
    · cases h
    · dsimp only at h
      split at h
      · cases h
      · cases h
        exact ⟨rfl, rfl, rfl, rfl⟩

/-- The ratio among the figures of a part is that of the engine that reports. -/
theorem WalkForward.evaluate_sharpe {wf : WalkForward L F} {part : DataDict L F} {ws : List ℤ}
    {ss : List F} {metrics : List (String × F)}
    (h : wf.evaluate engine part (paramArg wf.config ws, paramArg wf.config ss) = .ok metrics) :
    ∃ u, reportSharpe part wf.config ws ss wf.feeBps wf.minMetricObs = .ok u ∧
      metrics.lookup "Sharpe Ratio" = some u := by
  obtain ⟨⟨q, e⟩, hrun, h⟩ := bind_eq_ok.mp h
  obtain ⟨q', hq, hrun⟩ := bind_eq_ok.mp (mapError_eq_ok.mp hrun)
  obtain ⟨e', he, hrun⟩ := bind_eq_ok.mp hrun
  cases hrun
  exact ⟨q.getSharpeRatio e, bind_eq_ok.mpr ⟨q, hq, bind_eq_ok.mpr ⟨e, he, rfl⟩⟩,
    lookup_metricsOf (mapError_eq_ok.mp h) rfl⟩

/-- A walk-forward test that answers has searched the bars before the split, and reports on the
best set it found there. -/
theorem WalkForward.buildWfResponse_inSample {splitRatio : F} {resp : WalkForwardResponse L F}
    (hmatch : values.Matches config)
    (h : WalkForward.buildWfResponse engine data config values splitRatio feeBps minMetricObs =
      .ok resp) :
    ∃ wf objective tried p v,
      WalkForward.init engine.int engine.str data splitRatio config feeBps minMetricObs = .ok wf ∧
      resp.InSampleBest wf values objective tried p v := by
  obtain ⟨wf, hwf, h⟩ := bind_eq_ok.mp h
  obtain ⟨⟨best, sharpe⟩, hbest, h⟩ := bind_eq_ok.mp h
  obtain ⟨isMetrics, his, h⟩ := bind_eq_ok.mp h
  obtain ⟨oosMetrics, -, h⟩ := bind_eq_ok.mp h
  obtain ⟨ratio, -, h⟩ := bind_eq_ok.mp h
  obtain ⟨full, -, h⟩ := bind_eq_ok.mp h
  cases h
  rw [mapError_eq_ok] at hwf hbest
  obtain ⟨result, hrun, hbest⟩ := bind_eq_ok.mp hbest
  obtain ⟨params, hparams, hbest⟩ := bind_eq_ok.mp hbest
  obtain ⟨c, -, hbest⟩ := bind_eq_ok.mp hbest
  cases hbest
  obtain ⟨-, hconfig, -, -⟩ := WalkForward.fields_of_init hwf
  obtain ⟨objective, tried, ho, htried, -, hfound⟩ := ParametersOptimization.reports_of_run
    (hconfig ▸ hmatch : values.Matches wf.config) hrun
  cases hfound fun x => .ok (engine.int x) with
  | none _ hnone =>
    rw [hnone] at hparams
    cases hparams
  | found p v hp hscore _ hread hgreatest =>
    rw [hread] at hparams
    cases hparams
    obtain ⟨u, hu, hlook⟩ := WalkForward.evaluate_sharpe his
    have hsame := report_of_scored (hconfig ▸ hmatch.fits) hmatch.paired ho (htried.subset p hp)
      hscore hu
    refine ⟨wf, objective, tried, p, v, hwf, ho, htried, hp, hscore, hgreatest, rfl, rfl, ?_⟩
    rw [metricsRecord, lookup_map_snd (fun x : F => (Cell.float x).replaceNan), hlook, hsame]
    exact congrArg some (if_neg (by
      rw [(Objective.score_eq_some.mp hscore).2.1]
      exact Bool.false_ne_true))

/-- **The in-sample part of a test is a search of its own.** Of the sets that were tried on
the bars before the split, the one that is tested has the greatest ratio, and its in-sample
figures show that ratio. -/
theorem runWalkForward_inSample {L : Type} [LinearOrder L] {stores : Stores L F}
    {req : SearchRequest} {resp : WalkForwardResponse L F}
    (h : runWalkForward engine stores req = .ok resp) :
    ∃ data config values wf objective tried p v,
      buildDataDict stores.dates stores.fetch stores.appRows req.toBacktestRequest = .ok data ∧
      buildConfig stores.indicatorRows stores.signalTypeRows req.toBacktestRequest = .ok config ∧
      req.searchValues = .ok values ∧
      WalkForward.init engine.int engine.str data (lit req.splitRatio) config
        (some (lit req.feeBps)) stores.minMetricObs = .ok wf ∧
      resp.InSampleBest wf values objective tried p v := by
  obtain ⟨data, hdata, h⟩ := bind_eq_ok.mp h
  obtain ⟨config, hconfig, h⟩ := bind_eq_ok.mp h
  obtain ⟨values, hvalues, h⟩ := bind_eq_ok.mp h
  rw [mapError_eq_ok] at hdata hconfig hvalues h
  obtain ⟨wf, objective, tried, p, v, hwf, hbest⟩ := WalkForward.buildWfResponse_inSample
    (OptimizeRequest.searchValues_matches hconfig hvalues) h
  exact ⟨data, config, values, wf, objective, tried, p, v, hdata, hconfig, hvalues, hwf, hbest⟩

end

/-! ## A small exchange -/

namespace BacktestService

/-- Eight daily closes. -/
def closes : List ExtRat :=
  [.fin 100, .fin 110, .fin 99, .fin 121, .fin 110, .fin 132, .fin 120, .fin 150]

/-- The frame of the product as the loaders return it. -/
def btc : Frame ℕ ExtRat :=
  ⟨[1, 2, 3, 4, 5, 6, 7, 8], [("price", ⟨closes, rfl⟩), ("factor", ⟨closes, rfl⟩)]⟩

/-- Stores that hold the one product. -/
def stores : Stores ℕ ExtRat where
  dates := ⟨fun _ => 1, fun _ => ""⟩
  fetch _ _ _ := .ok btc
  appRows := []
  indicatorRows := [⟨"get_sma", "N"⟩]
  signalTypeRows := [⟨"momentum", "momentum_band_signal", "momentum_bounded_signal"⟩]
  minMetricObs := 1
  intervalName _ := "1d"

/-- A whole power, which is what the annualised return of these bars takes. -/
def power : ExtRat → ExtRat → Except FigureError ExtRat
  | .fin x, .fin y => .ok (.fin (x ^ Python.trunc y))
  | _, _ => .ok .nan

/-- The engine, with exact numbers. -/
def engine : Engine ExtRat where
  sampler := Sampler.first ExtRat
  sorting := SortValues.stable ExtRat
  int
    | .fin x => Python.trunc x
    | _ => 0
  str _ := "0.5"
  power := power

/-- A search over the windows 1 and 2, and the signals 100 and 110. -/
def request : SearchRequest where
  symbol := "btcusdt.crypto"
  start := "2026-01-01"
  stop := "2026-01-08"
  tradingPeriod := 12
  dataSource := "bybit"
  factors := [{ indicator := "get_sma", strategy := "momentum" }]
  namesSource := bybit_ne_empty
  hasFactor := List.cons_ne_nil _ _
  tmIntervalId := 1
  ranges := [(⟨1, 2, 1⟩, ⟨100, 110, 10⟩)]
  hasRanges := rfl
  walkForward := true

theorem exists_optimized : ∃ resp, runOptimize engine stores request = .ok resp := by
  have h : (runOptimize engine stores request).toOption.isSome = true := by decide +kernel
  obtain ⟨resp, hresp⟩ := Option.isSome_iff_exists.mp h
  exact ⟨resp, toOption_eq_some.mp hresp⟩

theorem exists_tested : ∃ resp, runWalkForward engine stores request = .ok resp := by
  have h : (runWalkForward engine stores request).toOption.isSome = true := by decide +kernel
  obtain ⟨resp, hresp⟩ := Option.isSome_iff_exists.mp h
  exact ⟨resp, toOption_eq_some.mp hresp⟩

/-- The best of the whole history is not the one that is tested. -/
example : (runOptimize engine stores request).toOption.map
    (fun r => (r.best.take 2, r.walkForward.map fun wf => wf.bestSignal matches .one (.fin 100))) =
      some ([("window", .int 2), ("signal", .float (.fin 110))], some true) := by
  decide +kernel

end BacktestService

open BacktestService in
/-- Its rows and the report that comes with it. -/
theorem request_consistent : ∃ resp, runOptimize engine stores request = .ok resp ∧
    ((∀ record ∈ resp.grid, ∀ v, record.lookup "sharpe" = some (.float v) →
      ∀ pricing perf, PricesRow request record pricing →
        runPerformance engine stores pricing = .ok perf →
          perf.strategyMetrics.lookup "Sharpe Ratio" = some (.float v)) ∧
    ∀ perf, resp.performance = some perf → resp.best ∈ resp.grid ∧
      ∃ v, resp.best.lookup "sharpe" = some (.float v) ∧
        perf.strategyMetrics.lookup "Sharpe Ratio" = some (.float v)) := by
  obtain ⟨resp, h⟩ := exists_optimized
  exact ⟨resp, h, runOptimize_consistent h⟩

open BacktestService in
/-- Its test. -/
theorem request_inSample : ∃ resp, runWalkForward engine stores request = .ok resp ∧
    ∃ data config values wf objective tried p v,
      buildDataDict stores.dates stores.fetch stores.appRows request.toBacktestRequest = .ok data ∧
      buildConfig stores.indicatorRows stores.signalTypeRows request.toBacktestRequest =
        .ok config ∧
      request.searchValues = .ok values ∧
      WalkForward.init engine.int engine.str data (lit request.splitRatio) config
        (some (lit request.feeBps)) stores.minMetricObs = .ok wf ∧
      resp.InSampleBest wf values objective tried p v := by
  obtain ⟨resp, h⟩ := exists_tested
  exact ⟨resp, h, runWalkForward_inSample h⟩
