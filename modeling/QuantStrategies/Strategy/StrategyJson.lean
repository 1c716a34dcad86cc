import QuantStrategies.Strategy.Sources

/-!
# A strategy as a document

`strategy_to_json` writes a strategy down, and `config_from_json` and
`params_from_strategy_json` read it again. The document has the parameters of the
substrategies, and what the strategy is run with is looked at only where there are no
substrategies. A strategy of `StrategyConfig.single` or of `build_config` is therefore read
again as it was, and the parameters are those it came with, not those of the run: the
document of a strategy of `build_config` says 0 for all of them.

A strategy without substrategies reads the column `factor`, and its document the column
`v`. A frame that has no column `v` keeps its column `factor`, so the two are the same
there.

Reading a document is `configFromJson`, and what is lost on the way is what the document
does not have. `SameStrategy` and `LedBy` say what is kept, and the outputs of the two
strategies are compared on frames that have the columns both ask for. The parameters that
come back are those of the document, `paramsFromStrategyJson`, and not those of a run.
-/

open Pandas NpFloat Result

variable {L F : Type} [DecidableEq L] [NpFloat F]

/-! ## The document -/

/-- A substrategy in a document, with the fields that are read. -/
structure SubstrategyDoc (F : Type) where
  /-- The indicator, by its method's name. -/
  indicator : Option String
  /-- The signal function, by name. -/
  signalFunc : Option String
  /-- The window it came with. -/
  window : Option (Arg ℤ)
  /-- The threshold it came with. -/
  signal : Option (Arg F)
  /-- The column it reads. -/
  dataColumn : Option String
  /-- Another product to read it from. -/
  internalCusip : Option String

/-- The strategy document, without the identifier, the name and the dates. -/
structure StrategyDoc (F : Type) where
  /-- The traded product. -/
  internalCusip : Option String
  /-- The same, under a second name that is read where the first is missing. -/
  ticker : Option String
  /-- How the positions combine. -/
  conjunction : Option String
  /-- How many bars a year has. -/
  tradingPeriod : Option ℤ
  /-- The factors. -/
  substrategies : Option (List (SubstrategyDoc F))

/-- `StrategyConfig.single`. -/
def StrategyConfig.single (internalCusip indicatorName : String) (signalFunc : SignalDirection)
    (tradingPeriod window : ℤ) (signal : F) (dataColumn conjunction : String) :
    StrategyConfig F where
  internalCusip := internalCusip
  indicatorName := indicatorName
  signalFunc := signalFunc
  tradingPeriod := tradingPeriod
  conjunction := conjunction
  substrategies :=
    [{ indicatorName := indicatorName, signalFuncName := signalFunc.name, window := window,
       signal := signal, dataColumn := dataColumn }]

namespace StrategyJson

/-- An entry of `substrategies`. A product that is empty is left out. -/
def substrategyToJson (sub : SubStrategy F) : SubstrategyDoc F where
  indicator := some sub.indicatorName
  signalFunc := some sub.signalFuncName
  window := some (.one sub.window)
  signal := some (.one sub.signal)
  dataColumn := some sub.dataColumn
  internalCusip := sub.internalCusip.filter (· ≠ "")

/-- The entry of a strategy without substrategies. -/
def legacyToJson (config : StrategyConfig F) :
    Option (Arg ℤ) → Option (Arg F) → Except PyError (List (SubstrategyDoc F))
  | some window, some signal =>
    .ok [{ indicator := some config.indicatorName, signalFunc := some config.signalFunc.name,
           window := some window, signal := some signal, dataColumn := some "v",
           internalCusip := none }]
  | _, _ => .error (.valueError
    "window and signal required for legacy StrategyConfig without substrategies")

/-- The entries of `substrategies`. -/
def substrategiesToJson (config : StrategyConfig F) (window : Option (Arg ℤ))
    (signal : Option (Arg F)) : Except PyError (List (SubstrategyDoc F)) :=
  match config.substrategies with
  | [] => legacyToJson config window signal
  | subs => .ok (subs.map substrategyToJson)

/-- The document of a strategy, with its entries. -/
def docOf (config : StrategyConfig F) (subs : List (SubstrategyDoc F)) : StrategyDoc F where
  internalCusip := some config.internalCusip
  ticker := none
  conjunction := some config.conjunction
  tradingPeriod := some config.tradingPeriod
  substrategies := some subs

/-- `strategy_to_json`. -/
def strategyToJson (config : StrategyConfig F) (window : Option (Arg ℤ))
    (signal : Option (Arg F)) : Except PyError (StrategyDoc F) := do
  let subs ← substrategiesToJson config window signal
  return docOf config subs

/-- `s[key]`. -/
def required {α : Type} (key : String) : Option α → Except PyError α
  | some a => .ok a
  | none => .error (.keyError key)

/-- `int(s[key])` and `float(s[key])`, of a number. A list is no number. -/
def number {α : Type} (key : String) (a : Option (Arg α)) : Except PyError α := do
  match ← required key a with
  | .one a => return a
  | .tuple _ => .error .typeError

/-- The substrategy of an entry. -/
def substrategyFromJson (s : SubstrategyDoc F) : Except PyError (SubStrategy F) := do
  let indicatorName ← required "indicator" s.indicator
  let signalFuncName ← required "signal_func" s.signalFunc
  let window ← number "window" s.window
  let signal ← number "signal" s.signal
  return { indicatorName, signalFuncName, window, signal,
           dataColumn := s.dataColumn.getD "v", internalCusip := s.internalCusip }

/-- `config_from_json`. -/
def configFromJson (doc : StrategyDoc F) : Except PyError (StrategyConfig F) := do
  match (textOr doc.internalCusip doc.ticker).filter (· ≠ ""), doc.substrategies.getD [] with
  | none, _ => .error (.valueError "CONFIG_JSON missing internal_cusip")
  | some _, [] => .error (.valueError "CONFIG_JSON has no substrategies")
  | some internal, s :: rest =>
    let first ← substrategyFromJson s
    let subs ← rest.mapM substrategyFromJson
    let signalFunc ← SignalDirection.resolve first.signalFuncName
    return { internalCusip := internal, indicatorName := first.indicatorName, signalFunc,
             tradingPeriod := doc.tradingPeriod.getD 365,
             conjunction := doc.conjunction.getD "AND", substrategies := first :: subs }

/-- `params_from_strategy_json`. -/
def paramsFromStrategyJson (doc : StrategyDoc F) : Except PyError (Arg ℤ × Arg F) := do
  match ← required "substrategies" doc.substrategies with
  | [s] =>
    let window ← number "window" s.window
    let signal ← number "signal" s.signal
    return (.one window, .one signal)
  | subs =>
    let windows ← subs.mapM fun s => number "window" s.window
    let signals ← subs.mapM fun s => number "signal" s.signal
    return (.tuple windows, .tuple signals)

/-- `_resolve_config_and_params`, of a stored document. -/
def resolveConfigAndParams (doc : StrategyDoc F) :
    Except PyError (StrategyConfig F × Arg ℤ × Arg F) := do
  let config ← configFromJson doc
  let params ← paramsFromStrategyJson doc
  return (config, params)

/-! ## What is promised of a document -/

/-- The strategies that the code makes. -/
inductive Constructed : StrategyConfig F → Prop where
  | single (internalCusip indicatorName : String) (signalFunc : SignalDirection)
      (tradingPeriod window : ℤ) (signal : F) (dataColumn conjunction : String) :
      Constructed (.single internalCusip indicatorName signalFunc tradingPeriod window signal
        dataColumn conjunction)
  | built (indicatorRows : List IndicatorRow) (signalTypeRows : List SignalTypeRow)
      (req : BacktestRequest) (config : StrategyConfig F)
      (h : buildConfig indicatorRows signalTypeRows req = .ok config) : Constructed config
  | legacy (config : StrategyConfig F) (h : config.substrategies = []) : Constructed config

/-- The strategy is run with the parameters of its substrategies. One without substrategies
is run with any window and any signal. -/
def RunsOwn (config : StrategyConfig F) (window : Option (Arg ℤ)) (signal : Option (Arg F)) :
    Prop :=
  match config.substrategies with
  | [] => ∃ w s, window = some (.one w) ∧ signal = some (.one s)
  | subs => Performance.params subs window signal = .ok (subs.map (·.window), subs.map (·.signal))

/-- Where a strategy without substrategies is run, a column `v` is the column `factor`. -/
def ReadsFactor (data : DataDict L F) (config : StrategyConfig F) : Prop :=
  config.substrategies = [] → ∀ main, data.get config.internalCusip = .ok main →
    main.hasColumn "v" → main.column "v" = main.column "factor"

/-- The same product is traded, over the same period, and the same products are read and
combined alike. -/
structure SameStrategy (a b : StrategyConfig F) : Prop where
  /-- The same product is traded. -/
  internalCusip : a.internalCusip = b.internalCusip
  /-- Over the same period. -/
  tradingPeriod : a.tradingPeriod = b.tradingPeriod
  /-- The positions combine alike. -/
  conjunction : a.conjunction = b.conjunction
  /-- The factors are of the same products, in the same order. -/
  products : a.getSubstrategies.map (FactorFrames.subCusip a) =
    b.getSubstrategies.map (FactorFrames.subCusip b)

/-- The outputs of each factor and the positions that `Performance` computes. -/
def positions (data : DataDict L F) (config : StrategyConfig F) (window : Option (Arg ℤ))
    (signal : Option (Arg F)) (feeBps : Option F) (minMetricObs : ℤ) :
    Except PyError (List (FactorOutput F) × List Position) := do
  let p ← Performance.init data config window signal feeBps minMetricObs
  p.factorOutputs

/-! ## What the code makes -/

section

variable {config : StrategyConfig F} {first : SubStrategy F} {rest : List (SubStrategy F)}

/-- A strategy names the indicator and the signal function of its first substrategy. -/
structure LedBy (config : StrategyConfig F) (first : SubStrategy F) : Prop where
  /-- The indicator is the strategy's own. -/
  indicator : first.indicatorName = config.indicatorName
  /-- So is the signal function. -/
  signalFunc : SignalDirection.resolve first.signalFuncName = .ok config.signalFunc

/-- Every strategy with substrategies is led by the first one, and no substrategy names an
empty product. -/
theorem Constructed.ledBy (h : Constructed config) (hsubs : config.substrategies = first :: rest) :
    LedBy config first ∧ ∀ sub ∈ config.substrategies, sub.internalCusip ≠ some "" := by
  cases h with
  | single internalCusip indicatorName signalFunc tradingPeriod window signal dataColumn conj =>
    obtain ⟨rfl, -⟩ := List.cons.inj hsubs
    refine ⟨⟨rfl, SignalDirection.resolve_name signalFunc⟩, fun sub hsub => ?_⟩
    rw [List.mem_singleton.mp hsub]
    exact nofun
  | legacy _ h =>
    rw [h] at hsubs
    cases hsubs
  | built indicatorRows signalTypeRows req _ h =>
    rw [buildConfig] at h
    split at h
    · cases h
    · rw [configOf] at h
      split at h
      · cases h
      · next f fs _ =>
        obtain ⟨subs, hmap, h⟩ := bind_eq_ok.mp h
        obtain ⟨func, hfunc, h⟩ := bind_eq_ok.mp h
        cases h
        obtain rfl : subs = first :: rest := hsubs
        constructor
        · obtain ⟨func', hfunc', hfirst⟩ :=
            bind_eq_ok.mp (List.forall₂_cons.mp (mapM_eq_ok.mp hmap)).1
          cases Except.ok.inj (hfunc'.symm.trans hfunc)
          cases hfirst
          exact ⟨rfl, SignalDirection.resolve_name func⟩
        · intro sub hsub hempty
          obtain ⟨f', -, hf'⟩ := exists_of_mem_mapM hmap hsub
          obtain ⟨_, -, hsub⟩ := bind_eq_ok.mp hf'
          cases hsub
          exact (FactorConfig.product_of_cusip_some req hempty).1 rfl

/-! ## Writing and reading -/

omit [NpFloat F] in
/-- A substrategy is read again as it was. -/
theorem substrategyFromJson_toJson {sub : SubStrategy F} (h : sub.internalCusip ≠ some "") :
    substrategyFromJson (substrategyToJson sub) = .ok sub := by
  have hcusip : sub.internalCusip.filter (· ≠ "") = sub.internalCusip := by
    cases hsub : sub.internalCusip with
    | none => rfl
    | some c => exact Option.filter_some_pos (decide_eq_true fun hc => h (hsub.trans (hc ▸ rfl)))
  show Except.ok ({ sub with internalCusip := sub.internalCusip.filter (· ≠ "") }) = _
  rw [hcusip]

omit [NpFloat F] in
/-- The entries of a strategy with substrategies. -/
theorem substrategiesToJson_of_cons (hsubs : config.substrategies = first :: rest)
    (window : Option (Arg ℤ)) (signal : Option (Arg F)) :
    substrategiesToJson config window signal =
      .ok (config.substrategies.map substrategyToJson) := by
  rw [substrategiesToJson, hsubs]

omit [NpFloat F] in
/-- **A strategy with substrategies is read again as it was**, whatever it was run with. The
strategy's own indicator and signal are taken from its first substrategy, which is why they have
to be that one's. -/
theorem configFromJson_of_cons (hsubs : config.substrategies = first :: rest)
    (hled : LedBy config first) (hproducts : ∀ sub ∈ config.substrategies,
      sub.internalCusip ≠ some "") (hcusip : config.internalCusip ≠ "") :
    configFromJson (docOf config (config.substrategies.map substrategyToJson)) = .ok config := by
  have hinternal : (textOr (some config.internalCusip) none).filter (· ≠ "") =
      some config.internalCusip := by
    have hpos : decide (config.internalCusip ≠ "") = true := decide_eq_true hcusip
    rw [textOr, Option.any_some, if_pos hpos]
    exact Option.filter_some_pos hpos
  have hrest : (rest.map substrategyToJson).mapM substrategyFromJson = .ok rest := by
    rw [mapM_eq_ok, List.forall₂_map_left_iff]
    exact List.forall₂_same.mpr fun sub hsub =>
      substrategyFromJson_toJson (hproducts sub (hsubs ▸ List.mem_cons_of_mem first hsub))
  have hfirst := substrategyFromJson_toJson (hproducts first (hsubs ▸ List.mem_cons_self))
  rw [configFromJson, docOf]
  dsimp only
  rw [hinternal, hsubs, List.map_cons, Option.getD_some]
  dsimp only
  rw [hfirst, ok_bind, hrest, ok_bind, hled.signalFunc, ok_bind, hled.indicator, ← hsubs]
  rfl

omit [NpFloat F] in
/-- The parameters of a document are those of the substrategies. -/
theorem paramsFromStrategyJson_of_cons (hsubs : config.substrategies = first :: rest) :
    ∃ window signal, paramsFromStrategyJson
        (docOf config (config.substrategies.map substrategyToJson)) = .ok (window, signal) ∧
      Performance.params config.substrategies (some window) (some signal) =
        .ok (config.substrategies.map (·.window), config.substrategies.map (·.signal)) := by
  have hwindows (subs : List (SubStrategy F)) :
      (subs.map substrategyToJson).mapM (fun s => number "window" s.window) =
        .ok (subs.map (·.window)) := by
    rw [mapM_eq_ok, List.forall₂_map_left_iff, List.forall₂_map_right_iff]
    exact List.forall₂_same.mpr fun _ _ => rfl
  have hsignals (subs : List (SubStrategy F)) :
      (subs.map substrategyToJson).mapM (fun s => number "signal" s.signal) =
        .ok (subs.map (·.signal)) := by
    rw [mapM_eq_ok, List.forall₂_map_left_iff, List.forall₂_map_right_iff]
    exact List.forall₂_same.mpr fun _ _ => rfl
  rw [paramsFromStrategyJson, docOf, hsubs]
  cases rest with
  | nil => exact ⟨.one first.window, .one first.signal, rfl, rfl⟩
  | cons second rest =>
    refine ⟨.tuple ((first :: second :: rest).map (·.window)),
      .tuple ((first :: second :: rest).map (·.signal)), ?_, ?_⟩
    · show (do
        let windows ← ((first :: second :: rest).map substrategyToJson).mapM
          fun s : SubstrategyDoc F => number "window" s.window
        let signals ← ((first :: second :: rest).map substrategyToJson).mapM
          fun s : SubstrategyDoc F => number "signal" s.signal
        return (Arg.tuple windows, Arg.tuple signals)) = _
      rw [hwindows, ok_bind, hsignals]
      rfl
    · have hmany : 1 < (first :: second :: rest).length := by simp
      rw [Performance.params, Performance.broadcast, Performance.broadcast, if_pos hmany,
        if_pos hmany]
      rfl

/-- The strategy that the document of one without substrategies is read as. -/
def legacyRead (config : StrategyConfig F) (window : ℤ) (signal : F) : StrategyConfig F :=
  { config with
    substrategies := [{ indicatorName := config.indicatorName,
                        signalFuncName := config.signalFunc.name, window := window,
                        signal := signal, dataColumn := "v" }] }

omit [NpFloat F] in
/-- **A strategy without substrategies is read with one.** The one substrategy is made up of the
strategy's own indicator and signal, with the window and the signal of the run. -/
theorem configFromJson_of_nil (hcusip : config.internalCusip ≠ "") (window : ℤ) (signal : F) :
    configFromJson (docOf config ((legacyRead config window signal).substrategies.map
      substrategyToJson)) = .ok (legacyRead config window signal) := by
  show configFromJson (docOf (legacyRead config window signal) _) = _
  refine configFromJson_of_cons rfl ⟨rfl, SignalDirection.resolve_name config.signalFunc⟩
    (fun sub hsub => ?_) hcusip
  rw [List.mem_singleton.mp hsub]
  exact nofun

/-! ## What the frame of a single factor is -/

variable {data : DataDict L F} {main : Frame L F} {sub : SubStrategy F}
  {subs : List (SubStrategy F)}

/-- A factor of the traded product itself is its column, where the frame has it. -/
theorem singleFactorFrame_own (hmain : data.get config.internalCusip = .ok main)
    (hsubs : config.getSubstrategies = sub :: subs) (hown : sub.internalCusip = none) :
    (⟨data, config, main⟩ : FactorFrames L F).singleFactorFrame =
      .ok (((main.columns.lookup sub.dataColumn).map (main.set "factor")).getD main) := by
  have hcusip : FactorFrames.subCusip config sub = config.internalCusip := by
    rw [FactorFrames.subCusip, hown]
  rw [FactorFrames.singleFactorFrame, hsubs, item, List.getElem?_cons_zero, ok_bind]
  dsimp only
  rw [hcusip]
  cases hcolumn : main.columns.lookup sub.dataColumn with
  | none =>
    rw [if_neg]
    · rfl
    · rw [Frame.hasColumn, hcolumn, not_or]
      exact ⟨fun h => h rfl, Bool.false_ne_true⟩
  | some c =>
    have hfactor : (⟨data, config, main⟩ : FactorFrames L F).factor sub = .ok c := by
      rw [FactorFrames.factor]
      dsimp only
      rw [hcusip, hmain, ok_bind, FactorFrames.checkCoverage, if_neg (fun h => h rfl), ok_bind,
        Frame.series, Frame.column_eq_ok.mpr hcolumn, ok_bind]
      exact Series.reindex_self rfl
    rw [if_pos (Or.inr (by rw [Frame.hasColumn, hcolumn]; rfl)), hfactor]
    rfl

/-- **A strategy without substrategies and its document read the same frame.** -/
theorem singleFactorFrame_legacyRead (hlegacy : config.substrategies = [])
    (hmain : data.get config.internalCusip = .ok main)
    (hreads : main.hasColumn "v" → main.column "v" = main.column "factor") (window : ℤ)
    (signal : F) :
    (⟨data, legacyRead config window signal, main⟩ : FactorFrames L F).singleFactorFrame =
      (⟨data, config, main⟩ : FactorFrames L F).singleFactorFrame := by
  have hfactor : ((main.columns.lookup "factor").map (main.set "factor")).getD main = main := by
    cases hcolumn : main.columns.lookup "factor" with
    | none => rfl
    | some c =>
      show main.set "factor" c = main
      rw [Frame.set, Frame.assign_of_lookup hcolumn]
  rw [@singleFactorFrame_own L F _ _ (legacyRead config window signal) data main _ [] hmain rfl rfl,
    singleFactorFrame_own hmain (by rw [StrategyConfig.getSubstrategies, hlegacy]) rfl]
  dsimp only
  rw [hfactor]
  cases hcolumn : main.columns.lookup "v" with
  | none => rfl
  | some c =>
    have hsame := hreads (by rw [Frame.hasColumn, hcolumn]; rfl)
    rw [Frame.column_eq_ok.mpr hcolumn] at hsame
    rw [Frame.column_eq_ok.mp hsame.symm] at hfactor
    exact congrArg Except.ok hfactor

/-! ## What is traded -/

/-- The positions of a strategy with one substrategy are those of its frame. -/
theorem positions_of_single (hmain : data.get config.internalCusip = .ok main)
    (hsubs : config.getSubstrategies = [sub]) (window : ℤ) (signal : F) (feeBps : Option F)
    (minMetricObs : ℤ) :
    positions data config (some (.one window)) (some (.one signal)) feeBps minMetricObs = (do
      let out ← (do
        let frame ← (⟨data, config, main⟩ : FactorFrames L F).singleFactorFrame
        let ta ← TechnicalAnalysis.init frame
        let factor ← frame.column "factor"
        let indicator ← TechnicalAnalysis.indicator ta config.indicatorName window
        return (⟨factor.1, indicator.1, config.signalFunc.call indicator.1 signal⟩ :
          FactorOutput F))
      return ([out], out.position)) := by
  rw [positions, Performance.init, hsubs, FactorFrames.init, hmain]
  rfl

/-- **A strategy without substrategies and its document take the same positions.** -/
theorem positions_legacyRead (hlegacy : config.substrategies = [])
    (hreads : ReadsFactor data config) (window : ℤ) (signal : F) (feeBps : Option F)
    (minMetricObs : ℤ) :
    positions data (legacyRead config window signal) (some (.one window)) (some (.one signal))
        feeBps minMetricObs =
      positions data config (some (.one window)) (some (.one signal)) feeBps minMetricObs := by
  cases hmain : data.get config.internalCusip with
  | error e =>
    have hmain' : data.get (legacyRead config window signal).internalCusip = .error e := hmain
    rw [positions, positions, Performance.init, Performance.init, FactorFrames.init,
      FactorFrames.init, hmain, hmain']
    rfl
  | ok main =>
    obtain ⟨sub, hget⟩ : ∃ sub, config.getSubstrategies = [sub] :=
      ⟨_, by rw [StrategyConfig.getSubstrategies, hlegacy]⟩
    have hmain' : data.get (legacyRead config window signal).internalCusip = .ok main := hmain
    rw [positions_of_single hmain' rfl, positions_of_single hmain hget,
      singleFactorFrame_legacyRead hlegacy hmain (hreads hlegacy main hmain)]
    rfl

/-- The same parameters, the same positions. -/
theorem positions_congr {window window' : Option (Arg ℤ)} {signal signal' : Option (Arg F)}
    (h : Performance.params config.getSubstrategies window signal =
      Performance.params config.getSubstrategies window' signal') (feeBps : Option F)
    (minMetricObs : ℤ) :
    positions data config window signal feeBps minMetricObs =
      positions data config window' signal' feeBps minMetricObs := by
  rw [positions, positions, Performance.init, Performance.init, h]

end

/-- **A document trades what its strategy trades**: a strategy that the code makes is
written down and read again as one with the same products and the same combination, which
takes the same positions on every data, where it was run with its own parameters. -/
theorem strategyToJson_positions {config : StrategyConfig F} (hmade : Constructed config)
    (hcusip : config.internalCusip ≠ "") {window : Option (Arg ℤ)} {signal : Option (Arg F)}
    (hown : RunsOwn config window signal) :
    ∃ doc config' window' signal', strategyToJson config window signal = .ok doc ∧
      resolveConfigAndParams doc = .ok (config', window', signal') ∧
      SameStrategy config' config ∧
      ∀ (data : DataDict L F) (feeBps : Option F) (minMetricObs : ℤ), ReadsFactor data config →
        positions data config' (some window') (some signal') feeBps minMetricObs =
          positions data config window signal feeBps minMetricObs := by
  cases hsubs : config.substrategies with
  | nil =>
    rw [RunsOwn, hsubs] at hown
    obtain ⟨w, s, rfl, rfl⟩ := hown
    refine ⟨docOf config ((legacyRead config w s).substrategies.map substrategyToJson),
      legacyRead config w s, .one w, .one s, ?_, ?_, ⟨rfl, rfl, rfl, ?_⟩, ?_⟩
    · rw [strategyToJson, substrategiesToJson, hsubs]
      rfl
    · rw [resolveConfigAndParams, configFromJson_of_nil hcusip]
      rfl
    · rw [StrategyConfig.getSubstrategies, StrategyConfig.getSubstrategies, hsubs]
      rfl
    · exact fun data feeBps minMetricObs hreads =>
        positions_legacyRead hsubs hreads w s feeBps minMetricObs
  | cons first rest =>
    obtain ⟨hled, hproducts⟩ := hmade.ledBy hsubs
    obtain ⟨window', signal', hparams, hread⟩ := paramsFromStrategyJson_of_cons hsubs
    have hget : config.getSubstrategies = config.substrategies := by
      rw [StrategyConfig.getSubstrategies, hsubs]
    refine ⟨docOf config (config.substrategies.map substrategyToJson), config, window', signal',
      ?_, ?_, ⟨rfl, rfl, rfl, rfl⟩, fun data feeBps minMetricObs _ => positions_congr ?_ _ _⟩
    · rw [strategyToJson, substrategiesToJson_of_cons hsubs]
      rfl
    · rw [resolveConfigAndParams, configFromJson_of_cons hsubs hled hproducts hcusip, ok_bind,
        hparams]
      rfl
    · rw [RunsOwn, hsubs] at hown
      rw [hget, hread, hsubs]
      exact hown.symm

/-! ### A moving average of one bar -/

/-- Three bars, with a column `v` that is not the factor. -/
def bars : DataDict ℕ ExtRat :=
  [("btcusdt.crypto",
    ⟨[1, 2, 3], [("price", ⟨[.fin 2, .fin 2, .fin 2], rfl⟩),
      ("factor", ⟨[.fin 2, .fin 2, .fin 2], rfl⟩), ("v", ⟨[.fin 5, .fin 5, .fin 5], rfl⟩)]⟩)]

/-- Long above the level. -/
def averageConfig (window : ℤ) (signal : ExtRat) : StrategyConfig ExtRat :=
  .single "btcusdt.crypto" "get_sma" .momentumBandSignal 365 window signal "factor" "AND"

/-- The same, without substrategies. -/
def legacyConfig (internalCusip : String) : StrategyConfig ExtRat where
  internalCusip := internalCusip
  indicatorName := "get_sma"
  signalFunc := .momentumBandSignal
  tradingPeriod := 365

/-- The positions that are taken, if there are any. -/
def taken (config : StrategyConfig ExtRat) (window : ℤ) (signal : ExtRat) :
    Option (List Position) :=
  ((positions bars config (some (.one window)) (some (.one signal)) none 0).toOption).map
    fun out => out.2

/-- The document of a strategy that was made with the level 1 and is run with the level 3
says 1: it is long where the strategy is flat. One without substrategies, at the level 3,
reads the column `v` from its document and is long where it was flat. Without a product
there is no reading at all. -/
theorem document_differs :
    (∃ doc, strategyToJson (averageConfig 1 (.fin 1)) (some (.one 1)) (some (.one (.fin 3))) =
        .ok doc ∧
      resolveConfigAndParams doc = .ok (averageConfig 1 (.fin 1), .one 1, .one (.fin 1)) ∧
      taken (averageConfig 1 (.fin 1)) 1 (.fin 1) = some [some 1, some 1, some 1] ∧
      taken (averageConfig 1 (.fin 1)) 1 (.fin 3) = some [some 0, some 0, some 0]) ∧
    (∃ doc config', strategyToJson (legacyConfig "btcusdt.crypto") (some (.one 1))
        (some (.one (.fin 3))) = .ok doc ∧
      resolveConfigAndParams doc = .ok (config', .one 1, .one (.fin 3)) ∧
      taken config' 1 (.fin 3) = some [some 1, some 1, some 1] ∧
      taken (legacyConfig "btcusdt.crypto") 1 (.fin 3) = some [some 0, some 0, some 0]) ∧
    ∃ doc, strategyToJson (legacyConfig "") (some (.one 1)) (some (.one (.fin 3))) = .ok doc ∧
      configFromJson doc = .error (.valueError "CONFIG_JSON missing internal_cusip") :=
  ⟨⟨_, rfl, rfl, by decide +kernel, by decide +kernel⟩,
    ⟨_, legacyRead (legacyConfig "btcusdt.crypto") 1 (.fin 3), rfl, rfl, by decide +kernel,
      by decide +kernel⟩, _, rfl, rfl⟩

/-- Run with the level that it was made with, it is read as it was. -/
theorem averageConfig_document :
    ∃ doc config' window' signal', strategyToJson (averageConfig 1 (.fin 1)) (some (.one 1))
        (some (.one (.fin 1))) = .ok doc ∧
      resolveConfigAndParams doc = .ok (config', window', signal') ∧
      SameStrategy config' (averageConfig 1 (.fin 1)) ∧
      ∀ (data : DataDict ℕ ExtRat) (feeBps : Option ExtRat) (minMetricObs : ℤ),
        ReadsFactor data (averageConfig 1 (.fin 1)) →
        positions data config' (some window') (some signal') feeBps minMetricObs =
          positions data (averageConfig 1 (.fin 1)) (some (.one 1)) (some (.one (.fin 1))) feeBps
            minMetricObs :=
  strategyToJson_positions (.single "btcusdt.crypto" "get_sma" .momentumBandSignal 365 1
    (ExtRat.fin 1) "factor" "AND") (by decide)
    (show RunsOwn (averageConfig 1 (.fin 1)) (some (.one 1)) (some (.one (.fin 1))) from rfl)

end StrategyJson
