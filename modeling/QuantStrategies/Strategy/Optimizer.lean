import QuantStrategies.Lib.GridSearch
import QuantStrategies.Lib.Ieee
import QuantStrategies.Lib.Split
import QuantStrategies.Strategy.ParamGrid
import QuantStrategies.Strategy.Search

/-!
# The search for parameters

The optimizer walks a grid of windows and signals and scores each set of them with an
objective. A small grid is walked whole. Of a large one, a sampler proposes as many
sets as there are trials. Either way every trial ends in a row of the result, a set
that could not be scored with a gap for its ratio, and the rows are sorted to find the
best ones.

What the caller gets is the first row of the ten best, written out as a record. From
its keys `params_from_best` reads the set again, a scalar for one factor and a tuple
for several.

The sampler and the sort are not the program's. A sampler proposes one of the choices
of an axis, and that is all that is known of it. A sort puts rows in descending order,
and may leave level ones in any.

A search space is described by `Spans`: whatever the number of factors, its axes are the
windows and signals of each, in order, and a row reads back as the set it was made from.
Everything about sets, trials and rows is then proved of any such space, and the flat space
of one factor and the numbered axes of several are two instances (`spans_single`,
`spans_multi`).
-/

open Pandas NpFloat Result

/-! ## Records -/

/-- A cell of a table: a whole number, a number, or `None`. -/
inductive Cell (F : Type) where
  | int (n : ℤ)
  | float (x : F)
  | null
deriving DecidableEq

/-- A dictionary, in the order in which its keys were put in. -/
abbrev Record (F : Type) : Type := List (String × Cell F)

/-- `record[key]`. -/
def Record.get {F : Type} (record : Record F) (key : String) : Except PyError (Cell F) :=
  match record.lookup key with
  | some c => .ok c
  | none => .error (.keyError key)

namespace Cell

variable {F : Type} [NpFloat F]

/-- `replace({np.nan: None})`. -/
def replaceNan : Cell F → Cell F
  | float x => if isNan x then null else float x
  | c => c

/-- `int(x)`. What it makes of a number is left open. -/
def toInt (int : F → Except PyError ℤ) : Cell F → Except PyError ℤ
  | .int n => .ok n
  | float x => int x
  | null => .error .typeError

/-- `float(x)`. -/
def toFloat : Cell F → Except PyError F
  | .int n => .ok (lit n)
  | float x => .ok x
  | null => .error .typeError

omit [NpFloat F] in
/-- A window, as the objective takes it. -/
def window : Cell F → Except PyError ℤ
  | .int n => .ok n
  | _ => .error .typeError

omit [NpFloat F] in
/-- A signal, as the objective takes it. -/
def signal : Cell F → Except PyError F
  | float x => .ok x
  | _ => .error .typeError

end Cell

/-- The choices of an axis. -/
def AxisValues.cells {F : Type} : AxisValues F → List (Cell F)
  | windows values => values.map .int
  | signals values => values.map .float

/-! ## The search space -/

namespace SearchSpace

variable {F : Type}

/-- `SearchSpace.keys`. -/
def keys (space : SearchSpace F) : List String := space.mapping.map Prod.fst

/-- `CategoricalDistribution(values)`. -/
def categorical (values : AxisValues F) : Except PyError (List (Cell F)) :=
  if values.length = 0 then
    .error (.valueError "The `choices` must contain one or more elements.")
  else .ok values.cells

/-- `SearchSpace.distributions`. -/
def distributions (space : SearchSpace F) : Except PyError (List (String × List (Cell F))) :=
  space.mapping.mapM fun axis => do
    let choices ← categorical axis.2
    return (axis.1, choices)

/-- `SearchSpace.windows_signals`. -/
def windowsSignals (space : SearchSpace F) (params : Record F) :
    Except PyError (List ℤ × List F) := do
  if (params.lookup "window").isSome then
    let window ← (← Record.get params "window").window
    let signal ← (← Record.get params "signal").signal
    return ([window], [signal])
  else
    let windows ← (List.range space.nFactors).mapM fun i => do
      (← Record.get params (windowKey i)).window
    let signals ← (List.range space.nFactors).mapM fun i => do
      (← Record.get params (signalKey i)).signal
    return (windows, signals)

end SearchSpace

/-! ## Trials -/

/-- `TrialState`. -/
inductive TrialState where
  | running
  | complete
  | pruned
  | fail
  | waiting
deriving DecidableEq

/-- A trial of a study. -/
structure Trial (F : Type) where
  /-- The choices made, by key. -/
  params : Record F
  /-- How the trial ended. -/
  state : TrialState
  /-- Its ratio, if it has one. -/
  value : F

/-- A sampler, as a study consults it: from the trials so far and the parameters that
the trial already has, it takes one of the choices. -/
structure Sampler (F : Type) where
  /-- The choice, from what was tried and chosen so far. -/
  suggest : List (Trial F) → Record F → String → List (Cell F) → Cell F
  /-- It is one of the choices, if there is one. -/
  mem : ∀ trials params key choices, choices ≠ [] → suggest trials params key choices ∈ choices

/-- `trial.suggest_categorical(key, values)`. -/
def Sampler.suggestCategorical {F : Type} (sampler : Sampler F) (trials : List (Trial F))
    (params : Record F) (key : String) (values : AxisValues F) : Except PyError (Cell F) := do
  let choices ← SearchSpace.categorical values
  return sampler.suggest trials params key choices

section

variable {F : Type} [NpFloat F]

/-- `SearchStrategy.evaluate`: a set that cannot be scored is below all others. -/
def Objective.evaluate (objective : Objective F) (windows : List ℤ) (signals : List F) : F :=
  match objective.call windows signals with
  | .ok sharpe => if isNan sharpe || isInf sharpe then -inf else sharpe
  | .error _ => -inf

/-- `ExhaustiveSearch.search`: every combination, in product order. -/
def exhaustiveSearch (objective : Objective F) (space : SearchSpace F) :
    Except PyError (List (Trial F)) := do
  let _ ← space.distributions
  (GridSearch.product (space.mapping.map fun axis => axis.2.cells)).mapM fun combo => do
    let params := space.keys.zip combo
    let (windows, signals) ← space.windowsSignals params
    return ⟨params, .complete, objective.evaluate windows signals⟩

/-- The parameters of a trial, suggested one after the other. -/
def Sampler.suggestParams (sampler : Sampler F) (trials : List (Trial F)) (params : Record F) :
    List (String × AxisValues F) → Except PyError (Record F)
  | [] => .ok params
  | axis :: mapping => do
    let choice ← sampler.suggestCategorical trials params axis.1 axis.2
    sampler.suggestParams trials (params ++ [(axis.1, choice)]) mapping

/-- `BayesianSearch.suggest_and_evaluate`, and the trial that the study makes of it. -/
def suggestAndEvaluate (sampler : Sampler F) (objective : Objective F) (space : SearchSpace F)
    (trials : List (Trial F)) : Except PyError (Trial F) := do
  let params ← sampler.suggestParams trials [] space.mapping
  let (windows, signals) ← space.windowsSignals params
  return ⟨params, .complete, objective.evaluate windows signals⟩

/-- `BayesianSearch.search`: `n` more trials of a study. -/
def bayesianSearch (sampler : Sampler F) (objective : Objective F) (space : SearchSpace F) :
    ℕ → List (Trial F) → Except PyError (List (Trial F))
  | 0, trials => .ok trials
  | n + 1, trials => do
    let trial ← suggestAndEvaluate sampler objective space trials
    bayesianSearch sampler objective space n (trials ++ [trial])

end

/-! ## The optimizer -/

/-- A row of the result: the parameters of a trial, and its ratio. -/
structure Row (F : Type) where
  /-- The parameters, by key. -/
  params : Record F
  /-- The ratio, or a gap. -/
  sharpe : F

/-- `OptimizeResult`. -/
structure OptimizeResult (F : Type) where
  /-- The rows, in the order in which they were tried. -/
  gridDf : List (Row F)
  /-- The best one as a record, or an empty record. -/
  best : Record F
  /-- The ten best, as records. -/
  top10 : List (Record F)
  /-- All of them, as records. -/
  grid : List (Record F)
  /-- How many have a ratio. -/
  nValid : ℕ

/-- `sort_values("sharpe", ascending=False)`. -/
structure SortValues (F : Type) [NpFloat F] where
  /-- The rows, sorted. -/
  sort : List (Row F) → List (Row F)
  /-- They are the same rows. -/
  perm : ∀ rows, (sort rows).Perm rows
  /-- In descending order, where each has a ratio. -/
  descending : ∀ rows, (∀ row ∈ rows, isNan row.sharpe = false) →
    (sort rows).Pairwise fun a b => lt a.sharpe b.sharpe = false

/-- `SearchStrategy`: the search that `n_trials` asks for. -/
inductive SearchStrategy where
  | exhaustive
  | bayesian
deriving DecidableEq

/-- `search.search(...)`. -/
def SearchStrategy.search {F : Type} [NpFloat F] (sampler : Sampler F) (objective : Objective F)
    (space : SearchSpace F) (nTrials : ℤ) : SearchStrategy → Except PyError (List (Trial F))
  | exhaustive => exhaustiveSearch objective space
  | bayesian => bayesianSearch sampler objective space nTrials.toNat []

/-- `OPTUNA_MAX_TRIALS`. -/
def optunaMaxTrials : ℕ := 10000

/-- The values that a search is given: of the one factor, or of each. -/
inductive SearchValues (F : Type) where
  | flat (windowValues : List ℤ) (signalValues : List F)
  | perFactor (windowRanges : List (List ℤ)) (signalRanges : List (List F))

/-- `ParametersOptimization`. -/
structure ParametersOptimization (L F : Type) where
  /-- The frames. -/
  data : DataDict L F
  /-- The strategy. -/
  config : StrategyConfig F
  /-- The fee. -/
  feeBps : Option F
  /-- How many returns a ratio needs at least. -/
  minMetricObs : ℤ

namespace ParametersOptimization

/-- `_select_search`. -/
def selectSearch (total : ℕ) (nTrials : Option ℤ) : SearchStrategy × ℤ :=
  let nTrials := nTrials.getD (Min.min total optunaMaxTrials : ℕ)
  if total ≤ nTrials then (.exhaustive, total) else (.bayesian, nTrials)

section

variable {F : Type} [NpFloat F]

/-- One row of `_rows_from_study`. -/
def rowOf (keys : List String) (trial : Trial F) : Except PyError (Row F) := do
  let params ← keys.mapM fun k => do
    let c ← Record.get trial.params k
    return (k, c)
  return ⟨params, if lt (-inf) trial.value then trial.value else nan⟩

/-- `_rows_from_study`. -/
def rowsFromStudy (trials : List (Trial F)) (keys : List String) :
    Except PyError (List (Row F)) :=
  (trials.filter fun trial => trial.state = .complete).mapM (rowOf keys)

/-- A row of `replace({np.nan: None}).to_dict(orient="records")`. -/
def toRecord (row : Row F) : Record F :=
  (row.params ++ [("sharpe", Cell.float row.sharpe)]).map fun e => (e.1, e.2.replaceNan)

/-- `_build_result`. -/
def buildResult (sorting : SortValues F) (df : List (Row F)) :
    Except PyError (OptimizeResult F) :=
  if df = [] then .error (.keyError "sharpe")
  else
    let valid := df.filter fun row => !isNan row.sharpe
    let top10 := ((sorting.sort valid).take 10).map toRecord
    .ok ⟨df, top10.head?.getD [], top10, df.map toRecord, valid.length⟩

end

section

variable {L F : Type} [DecidableEq L] [NpFloat F]

/-- `_run`. -/
def runSpace (sampler : Sampler F) (sorting : SortValues F) (opt : ParametersOptimization L F)
    (space : SearchSpace F) (nTrials : Option ℤ) : Except PyError (OptimizeResult F) := do
  let total ← space.total
  let (search, nTrials) := selectSearch total nTrials
  let objective ← Objective.forConfig opt.data opt.config space.windowSpec opt.feeBps
    opt.minMetricObs
  let study ← search.search sampler objective space nTrials
  let rows ← rowsFromStudy study space.keys
  buildResult sorting rows

/-- `run`: `optimize`, or `optimize_multi` for several substrategies. -/
def run (sampler : Sampler F) (sorting : SortValues F) (opt : ParametersOptimization L F)
    (values : SearchValues F) (nTrials : Option ℤ) : Except PyError (OptimizeResult F) := do
  if 1 < opt.config.getSubstrategies.length then
    match values with
    | .perFactor windowRanges signalRanges =>
      let space ← SearchSpace.multi windowRanges signalRanges
      runSpace sampler sorting opt space nTrials
    | .flat _ _ => .error .typeError
  else
    match values with
    | .flat windowValues signalValues =>
      runSpace sampler sorting opt (.single windowValues signalValues) nTrials
    | .perFactor _ _ => .error .typeError

end

end ParametersOptimization

namespace OptimizeResult

variable {F : Type} [NpFloat F]

/-- `params_from_best`. -/
def paramsFromBest (int : F → Except PyError ℤ) (best : Record F) :
    Except PyError (Arg ℤ × Arg F) := do
  if (best.lookup "window").isSome then
    let window ← (← Record.get best "window").toInt int
    let signal ← (← Record.get best "signal").toFloat
    return (.one window, .one signal)
  else
    let n := best.countP fun e => "window_".toList.isPrefixOf e.1.toList
    if n = 0 then
      .error (.valueError "best params missing window/signal keys")
    else
      let windows ← (List.range n).mapM fun i => do
        (← Record.get best (SearchSpace.windowKey i)).toInt int
      let signals ← (List.range n).mapM fun i => do
        (← Record.get best (SearchSpace.signalKey i)).toFloat
      return (.tuple windows, .tuple signals)

end OptimizeResult

/-! ## Parameter sets -/

namespace SearchSpace

variable {F : Type}

/-- The sets of a grid: a window and a signal for each factor, in product order. -/
def paramSets (factors : List (List ℤ × List F)) : List (List (ℤ × F)) :=
  GridSearch.product (factors.map fun f => f.1.product f.2)

/-- A set as a combination. -/
def flatten (p : List (ℤ × F)) : List (Cell F) := p.flatMap fun c => [.int c.1, .float c.2]

/-- A set as the dictionary of a trial. -/
def row (space : SearchSpace F) (p : List (ℤ × F)) : Record F := space.keys.zip (flatten p)

/-- The dictionary of a set under the keys of several factors, from the `i`-th on. -/
def rowFrom (i : ℕ) : List (ℤ × F) → Record F
  | [] => []
  | c :: p => (windowKey i, .int c.1) :: (signalKey i, .float c.2) :: rowFrom (i + 1) p

/-- Windows and signals that are walked together are walked pair by pair. -/
theorem product_cells (factors : List (List ℤ × List F)) :
    GridSearch.product (factors.flatMap fun f => [f.1.map Cell.int, f.2.map Cell.float]) =
      (paramSets factors).map flatten := by
  induction factors with
  | nil => rfl
  | cons f factors ih =>
    simp only [paramSets] at ih
    simp only [paramSets, List.flatMap_cons, List.cons_append, List.nil_append, List.map_cons,
      GridSearch.product, ih, List.product, List.flatMap_map, List.map_flatMap,
      List.flatMap_assoc, List.map_map]
    rfl

/-- **The size of a grid**: the product, over the factors, of windows times signals. -/
theorem length_paramSets (factors : List (List ℤ × List F)) :
    (paramSets factors).length = (factors.map fun f => f.1.length * f.2.length).prod := by
  rw [paramSets, GridSearch.length_product, List.map_map]
  exact congrArg List.prod (List.map_congr_left fun f _ => List.length_product f.1 f.2)

/-- A set has a window and a signal for each factor. -/
theorem length_of_mem_paramSets {factors : List (List ℤ × List F)} {p : List (ℤ × F)}
    (h : p ∈ paramSets factors) : p.length = factors.length := by
  rw [(GridSearch.mem_product.mp h).length_eq, List.length_map]

/-- **A set takes a window and a signal of each factor.** The pairs come in the order of the
factors, which is how the objective reads them. -/
theorem forall₂_of_mem_paramSets {factors : List (List ℤ × List F)} {p : List (ℤ × F)}
    (h : p ∈ paramSets factors) :
    List.Forall₂ (fun c f => c.1 ∈ f.1 ∧ c.2 ∈ f.2) p factors :=
  (List.forall₂_map_right_iff.mp (GridSearch.mem_product.mp h)).imp
    fun _ _ hc => List.mem_product.mp hc

theorem exists_factor_of_mem {factors : List (List ℤ × List F)} {p : List (ℤ × F)}
    (h : p ∈ paramSets factors) {c : ℤ × F} (hc : c ∈ p) :
    ∃ f ∈ factors, c.1 ∈ f.1 ∧ c.2 ∈ f.2 := by
  have hall := forall₂_of_mem_paramSets h
  clear h
  induction hall with
  | nil => cases hc
  | cons hmem _ ih =>
    rcases List.mem_cons.mp hc with rfl | hc
    · exact ⟨_, List.mem_cons_self, hmem⟩
    · obtain ⟨f, hf, hcf⟩ := ih hc
      exact ⟨f, List.mem_cons_of_mem _ hf, hcf⟩

/-- A grid that has a set has values on each axis. -/
theorem values_ne_nil {factors : List (List ℤ × List F)} {p : List (ℤ × F)}
    (h : p ∈ paramSets factors) : ∀ f ∈ factors, f.1 ≠ [] ∧ f.2 ≠ [] := by
  have hall := forall₂_of_mem_paramSets h
  clear h
  induction hall with
  | nil => exact fun f hf => absurd hf List.not_mem_nil
  | cons hmem _ ih =>
    exact List.forall_mem_cons.mpr ⟨⟨List.ne_nil_of_mem hmem.1, List.ne_nil_of_mem hmem.2⟩, ih⟩

/-- A set written out has twice as many cells as it has factors. -/
theorem length_flatten (p : List (ℤ × F)) : (flatten p).length = 2 * p.length := by
  induction p with
  | nil => rfl
  | cons c p ih =>
    show (flatten p).length + 2 = 2 * (p.length + 1)
    rw [ih, Nat.mul_succ]

/-! ### Keys -/

/-- A row has the keys of the axes, with a single choice on each. -/
theorem rowFrom_eq (i : ℕ) (p : List (ℤ × F)) :
    rowFrom i p = (axes i (p.map fun c => ([c.1], [c.2]))).map
      fun axis => (axis.1, axis.2.cells.headD .null) := by
  induction p generalizing i with
  | nil => rfl
  | cons c p ih =>
    rw [rowFrom, ih (i + 1)]
    rfl

/-- Each parameter is found under its name. -/
theorem lookup_rowFrom {p : List (ℤ × F)} {i : ℕ} {c : ℤ × F} (hc : p[i]? = some c) :
    (rowFrom 0 p).lookup (windowKey i) = some (.int c.1) ∧
      (rowFrom 0 p).lookup (signalKey i) = some (.float c.2) := by
  have hf : (p.map fun c => ([c.1], [c.2]))[i]? = some ([c.1], [c.2]) := by
    rw [List.getElem?_map, hc, Option.map_some]
  have hlook := lookup_axes 0 _ hf
  rw [Nat.zero_add] at hlook
  rw [rowFrom_eq, lookup_map_snd (fun v : AxisValues F => v.cells.headD .null),
    lookup_map_snd (fun v : AxisValues F => v.cells.headD .null), hlook.1, hlook.2]
  exact ⟨rfl, rfl⟩

/-- A key names a factor from the first on. -/
theorem of_mem_rowFrom {i : ℕ} {p : List (ℤ × F)} {k : String}
    (h : k ∈ (rowFrom i p).map Prod.fst) : ∃ j, i ≤ j ∧ (k = windowKey j ∨ k = signalKey j) := by
  induction p generalizing i with
  | nil => cases h
  | cons c p ih =>
    simp only [rowFrom, List.map_cons, List.mem_cons] at h
    rcases h with rfl | rfl | h
    · exact ⟨i, le_rfl, .inl rfl⟩
    · exact ⟨i, le_rfl, .inr rfl⟩
    · obtain ⟨j, hj, hk⟩ := ih h
      exact ⟨j, by omega, hk⟩

/-- No key comes twice in a row: the numbers of the factors differ, and windows and signals have
names of their own. -/
theorem nodup_rowFrom (i : ℕ) (p : List (ℤ × F)) : ((rowFrom i p).map Prod.fst).Nodup := by
  induction p generalizing i with
  | nil => exact List.nodup_nil
  | cons c p ih =>
    simp only [rowFrom, List.map_cons, List.nodup_cons, List.mem_cons, not_or]
    refine ⟨⟨windowKey_ne_signalKey i i, fun h => ?_⟩, fun h => ?_, ih (i + 1)⟩
    · obtain ⟨j, hj, hk | hk⟩ := of_mem_rowFrom h
      · have := windowKey_inj hk
        omega
      · exact windowKey_ne_signalKey i j hk
    · obtain ⟨j, hj, hk | hk⟩ := of_mem_rowFrom h
      · exact windowKey_ne_signalKey j i hk.symm
      · have := signalKey_inj hk
        omega

/-- The keys of several factors, with the values of a set. -/
theorem zip_axes {i : ℕ} {factors : List (List ℤ × List F)} {p : List (ℤ × F)}
    (hlen : p.length = factors.length) :
    ((axes i factors).map Prod.fst).zip (flatten p) = rowFrom i p := by
  induction p generalizing i factors with
  | nil =>
    rw [List.eq_nil_of_length_eq_zero hlen.symm]
    rfl
  | cons c p ih =>
    obtain ⟨f, factors, rfl⟩ := List.exists_cons_of_length_eq_add_one hlen.symm
    rw [rowFrom, ← ih (i := i + 1) (Nat.succ.inj hlen)]
    rfl

end SearchSpace

/-! ### Spaces over factors -/

namespace SearchSpace

variable {F : Type}

/-- A search space over the windows and signals of these factors. -/
structure Spans (space : SearchSpace F) (factors : List (List ℤ × List F)) : Prop where
  /-- The axes, in order: windows and signals of each factor. -/
  cells : space.mapping.map (fun axis => axis.2.cells) =
    factors.flatMap fun f => [f.1.map .int, f.2.map .float]
  /-- Its size is that of the grid. -/
  total : space.total = .ok (paramSets factors).length
  /-- No axis comes twice. -/
  nodup : space.keys.Nodup
  /-- A row reads back as its set. -/
  reads : ∀ p : List (ℤ × F), p.length = factors.length →
    space.windowsSignals (space.row p) = .ok (p.map Prod.fst, p.map Prod.snd)

/-- One factor: the axes `window` and `signal`. -/
theorem spans_single (windowValues : List ℤ) (signalValues : List F) :
    (single windowValues signalValues).Spans [(windowValues, signalValues)] where
  cells := rfl
  total := by rw [total_single, length_paramSets, List.map_singleton, List.prod_singleton]
  nodup := by
    show ["window", "signal"].Nodup
    decide
  reads p hp := by
    obtain ⟨c, rfl⟩ := List.length_eq_one_iff.mp hp
    rfl

/-- A loop over the names of the factors' parameters reads the parameters. -/
theorem mapM_range_eq {α : Type} {p : List (ℤ × F)} {g : ℕ → Except PyError α} {h : ℤ × F → α}
    (hget : ∀ i c, p[i]? = some c → g i = .ok (h c)) :
    (List.range p.length).mapM g = .ok (p.map h) := by
  rw [mapM_eq_ok, List.forall₂_iff_get]
  refine ⟨by rw [List.length_range, List.length_map], fun i hi hi' => ?_⟩
  rw [List.length_range] at hi
  rw [List.get_eq_getElem, List.get_eq_getElem, List.getElem_range, List.getElem_map]
  exact hget i _ (List.getElem?_eq_getElem hi)

/-- A key that is not a factor's is not found. -/
theorem lookup_rowFrom_none {k : String} (hw : ∀ j, k ≠ windowKey j) (hs : ∀ j, k ≠ signalKey j)
    (i : ℕ) (p : List (ℤ × F)) : (rowFrom i p).lookup k = none := by
  refine List.lookup_eq_none_iff.mpr fun e he => bne_iff_ne.mpr ?_
  obtain ⟨j, -, hj | hj⟩ := of_mem_rowFrom (List.mem_map_of_mem he)
  · exact hj ▸ hw j
  · exact hj ▸ hs j

theorem toList_windowKey (i : ℕ) :
    (windowKey i).toList = "window_".toList ++ (toString i).toList := by
  rw [← String.toList_append]
  rfl

theorem toList_signalKey (i : ℕ) :
    (signalKey i).toList = "signal_".toList ++ (toString i).toList := by
  rw [← String.toList_append]
  rfl

theorem window_ne_windowKey (i : ℕ) : "window" ≠ windowKey i := by
  intro h
  have hlist := (congrArg String.toList h).trans (toList_windowKey i)
  simp at hlist

theorem window_ne_signalKey (i : ℕ) : "window" ≠ signalKey i := by
  intro h
  have hlist := (congrArg String.toList h).trans (toList_signalKey i)
  simp at hlist

/-- No factor's parameter is called as the one factor's are. -/
theorem lookup_window_rowFrom (i : ℕ) (p : List (ℤ × F)) :
    (rowFrom i p).lookup "window" = none :=
  lookup_rowFrom_none window_ne_windowKey window_ne_signalKey i p

theorem sharpe_ne_windowKey (i : ℕ) : "sharpe" ≠ windowKey i := by
  intro h
  have hlist := (congrArg String.toList h).trans (toList_windowKey i)
  simp at hlist

theorem sharpe_ne_signalKey (i : ℕ) : "sharpe" ≠ signalKey i := by
  intro h
  have hlist := (congrArg String.toList h).trans (toList_signalKey i)
  simp at hlist

/-- Several factors, or none: the numbered axes. -/
theorem spans_multi {factors : List (List ℤ × List F)} (h : factors.length ≠ 1) :
    (SearchSpace.mk (axes 0 factors) (.perFactor (factors.map Prod.fst)) factors.length).Spans
      factors where
  cells := by
    show (axes 0 factors).map (fun axis => axis.2.cells) = _
    generalize 0 = i
    clear h
    induction factors generalizing i with
    | nil => rfl
    | cons f factors ih =>
      rw [axes, List.map_cons, List.map_cons, ih]
      rfl
  total := by rw [total_multi h, length_paramSets]
  nodup := by
    have hkeys : (axes 0 factors).map Prod.fst =
        (rowFrom 0 (factors.map fun _ => ((0 : ℤ), Cell.null (F := F)))).map Prod.fst := by
      generalize 0 = i
      clear h
      induction factors generalizing i with
      | nil => rfl
      | cons f factors ih =>
        rw [axes, List.map_cons, List.map_cons, ih]
        rfl
    rw [keys, hkeys]
    exact nodup_rowFrom 0 _
  reads p hp := by
    have hrow : row ⟨axes 0 factors, .perFactor (factors.map Prod.fst), factors.length⟩ p =
        rowFrom 0 p := zip_axes hp
    rw [hrow, windowsSignals, lookup_window_rowFrom, ← hp]
    have hw := mapM_range_eq (p := p) (h := Prod.fst)
      (g := fun i => do (← Record.get (rowFrom 0 p) (windowKey i)).window) fun i c hc => by
        rw [Record.get, (lookup_rowFrom hc).1]
        rfl
    have hs := mapM_range_eq (p := p) (h := Prod.snd)
      (g := fun i => do (← Record.get (rowFrom 0 p) (signalKey i)).signal) fun i c hc => by
        rw [Record.get, (lookup_rowFrom hc).2]
        rfl
    exact bind_eq_ok.mpr ⟨_, hw, bind_eq_ok.mpr ⟨_, hs, rfl⟩⟩

end SearchSpace

/-! ## What is tried -/

section

variable {F : Type} [NpFloat F] {space : SearchSpace F} {factors : List (List ℤ × List F)}

/-- The trial of a set. -/
def Objective.trial (objective : Objective F) (space : SearchSpace F) (p : List (ℤ × F)) :
    Trial F :=
  ⟨space.row p, .complete, objective.evaluate (p.map Prod.fst) (p.map Prod.snd)⟩

omit [NpFloat F] in
/-- An axis has as many cells as values. -/
theorem AxisValues.length_cells (values : AxisValues F) : values.cells.length = values.length := by
  cases values with
  | windows values => exact List.length_map _
  | signals values => exact List.length_map _

omit [NpFloat F] in
/-- An axis with a value can be searched. -/
theorem SearchSpace.categorical_of_ne_nil {values : AxisValues F} (h : values.cells ≠ []) :
    SearchSpace.categorical values = .ok values.cells := by
  rw [SearchSpace.categorical, if_neg]
  rwa [← AxisValues.length_cells, List.length_eq_zero_iff]

omit [NpFloat F] in
/-- No axis is empty when no factor's values are. -/
theorem SearchSpace.Spans.cells_ne_nil (hspans : space.Spans factors)
    (hne : ∀ f ∈ factors, f.1 ≠ [] ∧ f.2 ≠ []) :
    ∀ axis ∈ space.mapping, axis.2.cells ≠ [] := by
  intro axis haxis
  have hmem : axis.2.cells ∈ factors.flatMap fun f => [f.1.map Cell.int, f.2.map Cell.float] :=
    hspans.cells ▸ List.mem_map_of_mem haxis
  obtain ⟨f, hf, hcells⟩ := List.mem_flatMap.mp hmem
  rcases List.mem_cons.mp hcells with h | h
  · rw [h]
    exact List.map_eq_nil_iff.not.mpr (hne f hf).1
  · rw [List.mem_singleton.mp h]
    exact List.map_eq_nil_iff.not.mpr (hne f hf).2

omit [NpFloat F] in
/-- Walking the axes of a space walks its sets, each written out. -/
theorem SearchSpace.Spans.product_cells (hspans : space.Spans factors) :
    GridSearch.product (space.mapping.map fun axis => axis.2.cells) =
      (paramSets factors).map flatten := by
  rw [hspans.cells, SearchSpace.product_cells]

/-- **A small grid is walked whole**, each set once, in product order. The grid sampler visits the
product of the axes from the first to the last set. -/
theorem exhaustiveSearch_eq (hspans : space.Spans factors)
    (hne : ∀ f ∈ factors, f.1 ≠ [] ∧ f.2 ≠ []) (objective : Objective F) :
    exhaustiveSearch objective space =
      .ok ((SearchSpace.paramSets factors).map (objective.trial space)) := by
  obtain ⟨ds, hds⟩ : ∃ ds, space.distributions = .ok ds :=
    exists_mapM_eq_ok fun axis haxis => ⟨(axis.1, axis.2.cells), by
      rw [SearchSpace.categorical_of_ne_nil (hspans.cells_ne_nil hne axis haxis)]
      rfl⟩
  refine bind_eq_ok.mpr ⟨ds, hds, ?_⟩
  rw [hspans.product_cells, mapM_eq_ok, List.forall₂_map_left_iff, List.forall₂_map_right_iff]
  refine List.forall₂_same.mpr fun p hp => ?_
  exact bind_eq_ok.mpr ⟨_, hspans.reads p (SearchSpace.length_of_mem_paramSets hp), rfl⟩

omit [NpFloat F] in
/-- What a sampler suggests is a combination. -/
theorem Sampler.suggestParams_eq (sampler : Sampler F) (trials : List (Trial F))
    {mapping : List (String × AxisValues F)} (hne : ∀ axis ∈ mapping, axis.2.cells ≠ [])
    (params : Record F) :
    ∃ combo ∈ GridSearch.product (mapping.map fun axis => axis.2.cells),
      sampler.suggestParams trials params mapping =
        .ok (params ++ (mapping.map Prod.fst).zip combo) := by
  induction mapping generalizing params with
  | nil =>
    exact ⟨[], List.mem_singleton_self [], by
      rw [suggestParams, List.map_nil, List.zip_nil_left, List.append_nil]⟩
  | cons axis mapping ih =>
    have haxis := hne axis List.mem_cons_self
    have hmem := sampler.mem trials params axis.1 axis.2.cells haxis
    obtain ⟨combo, hcombo, hrest⟩ := ih (fun a ha => hne a (List.mem_cons_of_mem _ ha))
      (params ++ [(axis.1, sampler.suggest trials params axis.1 axis.2.cells)])
    refine ⟨_ :: combo, GridSearch.mem_product.mpr
      (.cons hmem (GridSearch.mem_product.mp hcombo)), ?_⟩
    rw [suggestParams, suggestCategorical, SearchSpace.categorical_of_ne_nil haxis]
    refine hrest.trans ?_
    rw [List.append_assoc]
    rfl

/-- A sampler proposes a set of the grid. -/
theorem suggestAndEvaluate_eq (hspans : space.Spans factors)
    (hne : ∀ f ∈ factors, f.1 ≠ [] ∧ f.2 ≠ []) (sampler : Sampler F) (objective : Objective F)
    (trials : List (Trial F)) :
    ∃ p ∈ SearchSpace.paramSets factors,
      suggestAndEvaluate sampler objective space trials = .ok (objective.trial space p) := by
  obtain ⟨combo, hcombo, hparams⟩ :=
    sampler.suggestParams_eq trials (hspans.cells_ne_nil hne) []
  rw [hspans.product_cells] at hcombo
  obtain ⟨p, hp, rfl⟩ := List.mem_map.mp hcombo
  refine ⟨p, hp, bind_eq_ok.mpr ⟨_, hparams, ?_⟩⟩
  exact bind_eq_ok.mpr ⟨_, hspans.reads p (SearchSpace.length_of_mem_paramSets hp), rfl⟩

/-- **Of a large grid**, as many sets are tried as there are trials. Which sets these are is the
sampler's choice, so that one may come more than once; none is outside of the grid. -/
theorem bayesianSearch_eq (hspans : space.Spans factors)
    (hne : ∀ f ∈ factors, f.1 ≠ [] ∧ f.2 ≠ []) (sampler : Sampler F) (objective : Objective F)
    (n : ℕ) (trials : List (Trial F)) :
    ∃ tried : List (List (ℤ × F)), tried.length = n ∧
      (∀ p ∈ tried, p ∈ SearchSpace.paramSets factors) ∧
      bayesianSearch sampler objective space n trials =
        .ok (trials ++ tried.map (objective.trial space)) := by
  induction n generalizing trials with
  | zero => exact ⟨[], rfl, fun p hp => absurd hp List.not_mem_nil, by
      rw [bayesianSearch, List.map_nil, List.append_nil]⟩
  | succ n ih =>
    obtain ⟨p, hp, hstep⟩ := suggestAndEvaluate_eq hspans hne sampler objective trials
    obtain ⟨tried, hlen, hmem, hrun⟩ := ih (trials ++ [objective.trial space p])
    refine ⟨p :: tried, by rw [List.length_cons, hlen], List.forall_mem_cons.mpr ⟨hp, hmem⟩, ?_⟩
    refine bind_eq_ok.mpr ⟨_, hstep, ?_⟩
    rw [hrun, List.append_assoc]
    rfl

end
