import QuantStrategies.Strategy.Optimizer

/-!
# The best of what was tried

What a search returns is about the sets that it tried: a row for each of them, the ten
best in order, and the best one as a record. A set is *scored* when the objective has a
finite ratio for it. One that the objective refuses, or whose ratio is not finite, has a
gap in its row and is not in the ten.

The last part puts a whole search together: which sets are tried, what is reported of
them, and that the set read from the record of the best is the one that was scored.

The two parts meet in `run_reports`. What it takes is that the values can be searched over
(`SearchValues.For`), that the objective can be built for them, and that some trial is asked
for. Nothing is assumed of the sampler and the sort beyond what they are. A row is written
and read again without a loss, since a record's numbers are kept as they are and its keys
name the factor they are of.
-/

open Pandas NpFloat Result

/-! ## What is reported -/

section

variable {F : Type}

/-- The ratio of a set, where there is a finite one. -/
def Objective.score [NpFloat F] (objective : Objective F) (p : List (ℤ × F)) : Option F :=
  match objective.call (p.map Prod.fst) (p.map Prod.snd) with
  | .ok sharpe => if isNan sharpe || isInf sharpe then none else some sharpe
  | .error _ => none

/-- A set is scored exactly when the objective answers it with a finite number. -/
theorem Objective.score_eq_some [NpFloat F] {objective : Objective F} {p : List (ℤ × F)} {v : F} :
    objective.score p = some v ↔ objective.call (p.map Prod.fst) (p.map Prod.snd) = .ok v ∧
      isNan v = false ∧ isInf v = false := by
  rw [score]
  cases objective.call (p.map Prod.fst) (p.map Prod.snd) with
  | error e => simp
  | ok sharpe =>
    simp only [Option.ite_none_left_eq_some, Bool.or_eq_true, not_or, Bool.not_eq_true,
      Option.some.injEq, Except.ok.injEq]
    constructor
    · rintro ⟨hfin, rfl⟩
      exact ⟨rfl, hfin⟩
    · rintro ⟨rfl, hfin⟩
      exact ⟨hfin, rfl⟩

namespace ParametersOptimization

/-- The row of a set: its ratio, or a gap. -/
def scored [NpFloat F] (objective : Objective F) (space : SearchSpace F) (p : List (ℤ × F)) :
    Row F :=
  ⟨space.row p, (objective.score p).getD nan⟩

variable [IeeeEnds F] {space : SearchSpace F} {factors : List (List ℤ × List F)}

/-- The value of a trial is above minus infinity when there is a ratio. -/
theorem evaluate_gap (objective : Objective F) (p : List (ℤ × F)) :
    (if lt (-inf) (objective.evaluate (p.map Prod.fst) (p.map Prod.snd)) then
      objective.evaluate (p.map Prod.fst) (p.map Prod.snd) else nan) =
        (objective.score p).getD nan := by
  rw [Objective.evaluate, Objective.score]
  cases objective.call (p.map Prod.fst) (p.map Prod.snd) with
  | error e => exact if_neg (by rw [IeeeFloat.lt_irrefl]; exact Bool.false_ne_true)
  | ok sharpe =>
    cases hfin : isNan sharpe || isInf sharpe with
    | true =>
      simp only [hfin, if_true, Option.getD_none]
      exact if_neg (by rw [IeeeFloat.lt_irrefl]; exact Bool.false_ne_true)
    | false =>
      obtain ⟨hnan, hinf⟩ := Bool.or_eq_false_iff.mp hfin
      simp only [hfin, Bool.false_eq_true, if_false, Option.getD_some]
      exact if_pos (IeeeEnds.neg_inf_lt hnan hinf)

/-- The gaps are where there is no ratio. -/
theorem isNan_scored (objective : Objective F) (p : List (ℤ × F)) :
    (!isNan (scored objective space p).sharpe) = (objective.score p).isSome := by
  rw [scored]
  cases h : objective.score p with
  | none => rw [Option.getD_none, NpFloat.isNan_nan]; rfl
  | some v => rw [Option.getD_some, (Objective.score_eq_some.mp h).2.1]; rfl

/-- A trial becomes the row of its set. -/
theorem rowOf_trial (hspans : space.Spans factors) (objective : Objective F)
    {p : List (ℤ × F)} (hp : p ∈ SearchSpace.paramSets factors) :
    rowOf space.keys (objective.trial space p) = .ok (scored objective space p) := by
  have hcells : space.keys.length = (SearchSpace.flatten p).length := by
    have hlen := congrArg List.length hspans.cells
    rw [List.length_map] at hlen
    rw [SearchSpace.length_flatten, SearchSpace.length_of_mem_paramSets hp, SearchSpace.keys,
      List.length_map, hlen, List.length_flatMap]
    simp only [List.length_cons, List.length_nil, List.map_const', List.sum_replicate_nat]
    omega
  have hfst : (space.row p).map Prod.fst = space.keys := List.map_fst_zip hcells.le
  refine bind_eq_ok.mpr ⟨space.row p, ?_, ?_⟩
  · have hloop : List.Forall₂ (fun k e => (do
        let c ← Record.get (space.row p) k
        return (k, c)) = Except.ok e) ((space.row p).map Prod.fst) (space.row p) := by
      refine List.forall₂_map_left_iff.mpr (List.forall₂_same.mpr fun e he => ?_)
      have hlook := lookup_of_nodup (hfst.symm ▸ hspans.nodup) he
      exact bind_eq_ok.mpr ⟨e.2, by rw [Record.get, hlook], rfl⟩
    rw [hfst] at hloop
    exact mapM_eq_ok.mpr hloop
  · show Except.ok (Row.mk (space.row p) _) = _
    rw [Objective.trial, evaluate_gap]
    rfl

/-- The trials of a study become the rows of the sets they tried, each in its place, a set that
was not scored with a gap. -/
theorem rowsFromStudy_eq (hspans : space.Spans factors) (objective : Objective F)
    {tried : List (List (ℤ × F))} (hmem : ∀ p ∈ tried, p ∈ SearchSpace.paramSets factors) :
    rowsFromStudy (tried.map (objective.trial space)) space.keys =
      .ok (tried.map (scored objective space)) := by
  have hall : (tried.map (objective.trial space)).filter (fun t => t.state = .complete) =
      tried.map (objective.trial space) := by
    refine List.filter_eq_self.mpr fun t ht => ?_
    obtain ⟨p, -, rfl⟩ := List.mem_map.mp ht
    rfl
  rw [rowsFromStudy, hall, mapM_eq_ok, List.forall₂_map_left_iff, List.forall₂_map_right_iff]
  exact List.forall₂_same.mpr fun p hp => rowOf_trial hspans objective (hmem p hp)

end ParametersOptimization

end

/-! ### The best set -/

section

variable {F : Type} [NpFloat F]

/-- A set without windows is not scored. -/
theorem Objective.score_ne_nil {objective : Objective F} {p : List (ℤ × F)} {v : F}
    (h : objective.score p = some v) : p ≠ [] := by
  rintro rfl
  have hcall := (Objective.score_eq_some.mp h).1
  rw [Objective.call] at hcall
  cases hkind : objective.kind with
  | single cache signalFunc =>
    rw [hkind] at hcall
    obtain ⟨w, hw, -⟩ := bind_eq_ok.mp hcall
    cases hw
  | multi conjunction factors =>
    rw [hkind] at hcall
    obtain ⟨outputs, -, hcall⟩ := bind_eq_ok.mp hcall
    obtain ⟨combined, -, hcall⟩ := bind_eq_ok.mp hcall
    obtain ⟨mw, hmw, -⟩ := bind_eq_ok.mp hcall
    cases hmw

namespace SearchValues

/-- The windows and signals of each factor. -/
def factors : SearchValues F → List (List ℤ × List F)
  | flat windowValues signalValues => [(windowValues, signalValues)]
  | perFactor windowRanges signalRanges => windowRanges.zip signalRanges

/-- What the objective precomputes for. -/
def windowSpec : SearchValues F → WindowValues
  | flat windowValues _ => .flat windowValues
  | perFactor windowRanges _ => .perFactor windowRanges

/-- The keys and values of a set in a row of the result. -/
def params : SearchValues F → List (ℤ × F) → Record F
  | flat _ _, p => p.flatMap fun c => [("window", .int c.1), ("signal", .float c.2)]
  | perFactor _ _, p => SearchSpace.rowFrom 0 p

/-- Values that a strategy can be searched over: a range of windows and one of signals
for each factor, none of them empty. -/
structure For (values : SearchValues F) (config : StrategyConfig F) : Prop where
  /-- The windows are of the kind that the strategy takes, flat or for each factor. -/
  fits : Fits config values.windowSpec
  /-- There is a range of signals for each range of windows. -/
  paired : ∀ ws ss, values = perFactor ws ss → ss.length = ws.length
  /-- No range is empty. -/
  choices : ∀ f ∈ values.factors, f.1 ≠ [] ∧ f.2 ≠ []
  /-- No signal is missing. -/
  numbers : ∀ f ∈ values.factors, ∀ s ∈ f.2, isNan s = false

end SearchValues

/-- A record of numbers has no gap to fill. -/
theorem toRecord_eq {params : Record F} {v : F} (hparams : ∀ e ∈ params, e.2.replaceNan = e.2)
    (hv : isNan v = false) :
    ParametersOptimization.toRecord ⟨params, v⟩ = params ++ [("sharpe", .float v)] := by
  have hsharpe : (Cell.float v).replaceNan = .float v :=
    if_neg (by rw [hv]; exact Bool.false_ne_true)
  rw [ParametersOptimization.toRecord, List.map_append, List.map_singleton, hsharpe]
  congr 1
  exact (List.map_congr_left fun e he => by rw [hparams e he]; rfl).trans
    (List.map_id params)

theorem replaceNan_rowFrom {i : ℕ} {p : List (ℤ × F)} (hp : ∀ c ∈ p, isNan c.2 = false) :
    ∀ e ∈ SearchSpace.rowFrom i p, e.2.replaceNan = e.2 := by
  induction p generalizing i with
  | nil => exact fun e he => absurd he List.not_mem_nil
  | cons c p ih =>
    obtain ⟨hc, hp⟩ := List.forall_mem_cons.mp hp
    refine List.forall_mem_cons.mpr ⟨rfl, List.forall_mem_cons.mpr ⟨?_, ih hp⟩⟩
    exact if_neg (by rw [hc]; exact Bool.false_ne_true)

omit [NpFloat F] in
/-- The parameters of several factors are as many as their windows. -/
theorem countP_rowFrom (i : ℕ) (p : List (ℤ × F)) :
    (SearchSpace.rowFrom i p).countP (fun e => "window_".toList.isPrefixOf e.1.toList) =
      p.length := by
  induction p generalizing i with
  | nil => rfl
  | cons c p ih =>
    have hw : "window_".toList.isPrefixOf (SearchSpace.windowKey i).toList = true := by
      rw [SearchSpace.toList_windowKey, List.isPrefixOf_iff_prefix]
      exact List.prefix_append _ _
    have hs : "window_".toList.isPrefixOf (SearchSpace.signalKey i).toList = false := by
      rw [SearchSpace.toList_signalKey]
      rfl
    simp only [SearchSpace.rowFrom, List.countP_cons, hw, hs, ih, if_true, Bool.false_eq_true,
      if_false, List.length_cons, Nat.add_zero]

namespace OptimizeResult

/-- **The set is read back** from the record of several factors. -/
theorem paramsFromBest_rowFrom (int : F → Except PyError ℤ) {p : List (ℤ × F)} (hp : p ≠ [])
    (v : F) :
    paramsFromBest int (SearchSpace.rowFrom 0 p ++ [("sharpe", .float v)]) =
      .ok (.tuple (p.map Prod.fst), .tuple (p.map Prod.snd)) := by
  have hwindow : (SearchSpace.rowFrom 0 p ++ [("sharpe", Cell.float v)]).lookup "window" = none := by
    rw [List.lookup_append, SearchSpace.lookup_window_rowFrom]
    rfl
  have hcount : (SearchSpace.rowFrom 0 p ++ [("sharpe", Cell.float v)]).countP
      (fun e => "window_".toList.isPrefixOf e.1.toList) = p.length := by
    have hsharpe : "window_".toList.isPrefixOf "sharpe".toList = false := rfl
    simp only [List.countP_append, countP_rowFrom, List.countP_cons, List.countP_nil, hsharpe,
      Bool.false_eq_true, if_false, Nat.add_zero]
  have hlook {i : ℕ} {c : ℤ × F} (hc : p[i]? = some c) :=
    SearchSpace.lookup_rowFrom hc
  rw [paramsFromBest, hwindow, hcount]
  refine (if_neg Bool.false_ne_true).trans ((if_neg (List.length_eq_zero_iff.not.mpr hp)).trans ?_)
  refine bind_eq_ok.mpr ⟨_, SearchSpace.mapM_range_eq (h := Prod.fst) fun i c hc => ?_,
    bind_eq_ok.mpr ⟨_, SearchSpace.mapM_range_eq (h := Prod.snd) fun i c hc => ?_, rfl⟩⟩
  · rw [Record.get, List.lookup_append, (hlook hc).1]
    rfl
  · rw [Record.get, List.lookup_append, (hlook hc).2]
    rfl

end OptimizeResult

end

/-! ## A whole search -/

section

variable {L F : Type}

/-- The trials that are asked for: as many as there are sets, unless there are too many. -/
def trialsOf (factors : List (List ℤ × List F)) (nTrials : Option ℤ) : ℤ :=
  nTrials.getD (Min.min (SearchSpace.paramSets factors).length optunaMaxTrials : ℕ)

/-- The sets that are tried: each of them once, when that many trials are asked for, and
otherwise as many of them as are. -/
inductive Tried (factors : List (List ℤ × List F)) (n : ℤ) : List (List (ℤ × F)) → Prop
  | all (h : (SearchSpace.paramSets factors).length ≤ n) :
      Tried factors n (SearchSpace.paramSets factors)
  | sampled {tried : List (List (ℤ × F))} (h : n < (SearchSpace.paramSets factors).length)
      (length : (tried.length : ℤ) = n) (mem : ∀ p ∈ tried, p ∈ SearchSpace.paramSets factors) :
      Tried factors n tried

/-- What is tried is of the grid, whether all of it or a sample. -/
theorem Tried.subset {factors : List (List ℤ × List F)} {n : ℤ} {tried : List (List (ℤ × F))}
    (h : Tried factors n tried) : ∀ p ∈ tried, p ∈ SearchSpace.paramSets factors := by
  cases h with
  | all _ => exact fun p hp => hp
  | sampled _ _ mem => exact mem

variable [NpFloat F]

/-- **What a search reports** of the sets it tried: a row for each, in the order in which
they were tried, the number of those that have a ratio, and the top ten of them. -/
structure OptimizeResult.Reports (r : OptimizeResult F) (row : List (ℤ × F) → Record F)
    (objective : Objective F) (tried : List (List (ℤ × F))) : Prop where
  /-- A row for each set, in the order tried. -/
  gridDf : r.gridDf = tried.map fun p => ⟨row p, (objective.score p).getD nan⟩
  /-- The same, as records. -/
  grid : r.grid = r.gridDf.map ParametersOptimization.toRecord
  /-- The number of those that have a ratio. -/
  nValid : r.nValid = tried.countP fun p => (objective.score p).isSome
  /-- Ten of those that have one, or all, none better left out, the best first. -/
  top10 : ∃ top, GridSearch.IsTop (fun a b => lt b.sharpe a.sharpe = true) 10
      (r.gridDf.filter fun row => !isNan row.sharpe) top ∧
    r.top10 = top.map ParametersOptimization.toRecord
  /-- The first of the ten, or an empty record. -/
  best : r.best = r.top10.head?.getD []

end

namespace ParametersOptimization

variable {L F : Type} [DecidableEq L] [IeeeEnds F] {factors : List (List ℤ × List F)}
  {space : SearchSpace F} {objective : Objective F} {tried : List (List (ℤ × F))}

/-- The result of rows that were tried. -/
theorem buildResult_reports (sorting : SortValues F) (space : SearchSpace F)
    (objective : Objective F) (htried : tried ≠ []) :
    ∃ r, buildResult sorting (tried.map (scored objective space)) = .ok r ∧
      r.Reports space.row objective tried := by
  refine ⟨_, if_neg (List.map_eq_nil_iff.not.mpr htried), rfl, rfl, ?_, ⟨_, ?_, rfl⟩, rfl⟩
  · rw [← List.countP_eq_length_filter, List.countP_map]
    refine List.countP_congr fun p _ => ?_
    rw [Function.comp_apply, isNan_scored]
  · refine GridSearch.IsTop.of_sorted (sorting.perm _) ?_
    refine (sorting.descending _ fun row hrow => ?_).imp fun hlt => ?_
    · simpa using (List.mem_filter.mp hrow).2
    · rw [hlt]
      exact Bool.false_ne_true

omit [IeeeEnds F] in
/-- With a choice for each window and each signal, there is a set to try. -/
theorem paramSets_ne_nil (hne : ∀ f ∈ factors, f.1 ≠ [] ∧ f.2 ≠ []) :
    SearchSpace.paramSets factors ≠ [] := by
  refine GridSearch.product_ne_nil (List.forall_mem_map.mpr fun f hf => ?_)
  obtain ⟨w, hw⟩ := List.exists_mem_of_ne_nil _ (hne f hf).1
  obtain ⟨s, hs⟩ := List.exists_mem_of_ne_nil _ (hne f hf).2
  exact List.ne_nil_of_mem (List.mem_product.mpr ⟨hw, hs⟩ : (w, s) ∈ f.1.product f.2)

/-- A search that went through had values for each factor, and an objective. -/
theorem built_of_runSpace {sampler : Sampler F} {sorting : SortValues F}
    {opt : ParametersOptimization L F} (hspans : space.Spans factors) {r : OptimizeResult F}
    (h : runSpace sampler sorting opt space none = .ok r) :
    (∀ f ∈ factors, f.1 ≠ [] ∧ f.2 ≠ []) ∧ ∃ objective, Objective.forConfig opt.data opt.config
      space.windowSpec opt.feeBps opt.minMetricObs = .ok objective := by
  obtain ⟨total, htotal, h⟩ := bind_eq_ok.mp h
  obtain ⟨objective, ho, h⟩ := bind_eq_ok.mp h
  obtain ⟨study, hstudy, -⟩ := bind_eq_ok.mp h
  refine ⟨?_, objective, ho⟩
  rw [hspans.total, Except.ok.injEq] at htotal
  by_contra hempty
  -- Of a grid without sets, all are tried, which the first empty axis refuses.
  have hsets : SearchSpace.paramSets factors = [] := by
    by_contra hne
    obtain ⟨p, hp⟩ := List.exists_mem_of_ne_nil _ hne
    exact hempty (SearchSpace.values_ne_nil hp)
  rw [hsets, List.length_nil] at htotal
  subst htotal
  obtain ⟨ds, hds, -⟩ := bind_eq_ok.mp hstudy
  refine hempty fun f hf => ?_
  have hmem {values : List (Cell F)} (hv : values ∈ [f.1.map Cell.int, f.2.map Cell.float]) :
      values ≠ [] := by
    have hcells : values ∈ space.mapping.map fun axis => axis.2.cells :=
      hspans.cells ▸ List.mem_flatMap.mpr ⟨f, hf, hv⟩
    obtain ⟨axis, haxis, rfl⟩ := List.mem_map.mp hcells
    obtain ⟨d, -, hd⟩ := exists_mem_of_mapM hds haxis
    obtain ⟨choices, hchoices, -⟩ := bind_eq_ok.mp hd
    intro hnil
    rw [SearchSpace.categorical, if_pos (by rw [← AxisValues.length_cells, hnil]; rfl)] at hchoices
    cases hchoices
  exact ⟨fun h => hmem List.mem_cons_self (by rw [h]; rfl),
    fun h => hmem (List.mem_cons_of_mem _ List.mem_cons_self) (by rw [h]; rfl)⟩

/-- A search over factors that have values reports what it tried. -/
theorem runSpace_reports (sampler : Sampler F) (sorting : SortValues F)
    (opt : ParametersOptimization L F) {nTrials : Option ℤ} (hspans : space.Spans factors)
    (hne : ∀ f ∈ factors, f.1 ≠ [] ∧ f.2 ≠ []) (hn : ∀ n ∈ nTrials, 0 < n)
    (ho : Objective.forConfig opt.data opt.config space.windowSpec opt.feeBps opt.minMetricObs =
      .ok objective) :
    ∃ r tried, runSpace sampler sorting opt space nTrials = .ok r ∧
      Tried factors (trialsOf factors nTrials) tried ∧ r.Reports space.row objective tried := by
  have hsets := paramSets_ne_nil hne
  -- Whichever search is selected, the rest works on the trials of the sets it tried.
  suffices hsearch : ∃ tried, Tried factors (trialsOf factors nTrials) tried ∧ tried ≠ [] ∧
      (selectSearch (SearchSpace.paramSets factors).length nTrials).1.search sampler objective space
        (selectSearch (SearchSpace.paramSets factors).length nTrials).2 =
          .ok (tried.map (objective.trial space)) by
    obtain ⟨tried, htried, hne', hstudy⟩ := hsearch
    obtain ⟨r, hr, hreports⟩ := buildResult_reports sorting space objective hne'
    refine ⟨r, tried, ?_, htried, hreports⟩
    exact bind_eq_ok.mpr ⟨_, hspans.total, bind_eq_ok.mpr ⟨_, ho, bind_eq_ok.mpr ⟨_, hstudy,
      bind_eq_ok.mpr ⟨_, rowsFromStudy_eq hspans objective htried.subset, hr⟩⟩⟩⟩
  by_cases hall : ((SearchSpace.paramSets factors).length : ℤ) ≤ trialsOf factors nTrials
  · have hselect : selectSearch (SearchSpace.paramSets factors).length nTrials =
        (.exhaustive, ((SearchSpace.paramSets factors).length : ℤ)) := if_pos hall
    rw [hselect]
    exact ⟨_, .all hall, hsets, exhaustiveSearch_eq hspans hne objective⟩
  · have hselect : selectSearch (SearchSpace.paramSets factors).length nTrials =
        (.bayesian, trialsOf factors nTrials) := if_neg hall
    have hpos : 0 < trialsOf factors nTrials := by
      rw [trialsOf]
      cases nTrials with
      | some n => exact hn n rfl
      | none =>
        rw [Option.getD_none, Int.natCast_pos, lt_min_iff]
        exact ⟨List.length_pos_iff_ne_nil.mpr hsets, by decide⟩
    obtain ⟨tried, hlen, hmem, hstudy⟩ := bayesianSearch_eq hspans hne sampler objective
      (trialsOf factors nTrials).toNat []
    have hcount : (tried.length : ℤ) = trialsOf factors nTrials := by
      rw [hlen, Int.toNat_of_nonneg hpos.le]
    rw [hselect]
    refine ⟨tried, .sampled (not_le.mp hall) hcount hmem, ?_, hstudy⟩
    rintro rfl
    rw [List.length_nil] at hcount
    omega

end ParametersOptimization

section

variable {L F : Type} [NpFloat F]

/-- The best of the sets tried. There is none when none has a ratio. Otherwise its record
names a set, which is what is read from it, and none has a greater ratio. -/
inductive OptimizeResult.Best (r : OptimizeResult F) (int : F → Except PyError ℤ)
    (values : SearchValues F) (config : StrategyConfig F) (objective : Objective F)
    (tried : List (List (ℤ × F))) : Prop
  | none (unscored : ∀ p ∈ tried, objective.score p = none) (best : r.best = [])
  | found (p : List (ℤ × F)) (v : F) (mem : p ∈ tried) (score : objective.score p = some v)
      (best : r.best = values.params p ++ [("sharpe", .float v)])
      (readBack : paramsFromBest int r.best =
        .ok (paramArg config (p.map Prod.fst), paramArg config (p.map Prod.snd)))
      (greatest : ∀ q ∈ tried, ∀ u, objective.score q = some u → lt v u = false)

/-- Several factors are asked for with a tuple. -/
theorem paramArg_of_lt {α : Type} {config : StrategyConfig F} {xs : List α}
    (h : 1 < config.getSubstrategies.length) : paramArg config xs = .tuple xs := by
  unfold paramArg
  rw [if_pos h]

theorem paramArg_singleton {α : Type} {config : StrategyConfig F} {x : α}
    (h : ¬1 < config.getSubstrategies.length) : paramArg config [x] = .one x := by
  unfold paramArg
  rw [if_neg h]

namespace SearchValues

variable {values : SearchValues F} {config : StrategyConfig F} {p : List (ℤ × F)}

/-- The parameters of a set of the grid are written to a record as they are. -/
theorem replaceNan_params (hnumbers : ∀ f ∈ values.factors, ∀ s ∈ f.2, isNan s = false)
    (hp : p ∈ SearchSpace.paramSets values.factors) :
    ∀ e ∈ values.params p, e.2.replaceNan = e.2 := by
  have hnum : ∀ c ∈ p, isNan c.2 = false := by
    intro c hc
    obtain ⟨f, hf, -, hmem⟩ := SearchSpace.exists_factor_of_mem hp hc
    exact hnumbers f hf c.2 hmem
  cases values with
  | perFactor ws ss => exact replaceNan_rowFrom hnum
  | flat ws ss =>
    intro e he
    obtain ⟨c, hc, he⟩ := List.mem_flatMap.mp he
    rcases List.mem_cons.mp he with rfl | he
    · rfl
    · cases List.mem_singleton.mp he
      exact if_neg (by rw [hnum c hc]; exact Bool.false_ne_true)

/-- **The set is read back** from its record, a scalar for one factor. The two forms are told
apart by the number of factors, on both sides alike. -/
theorem For.readBack (h : values.For config) (hp : p ∈ SearchSpace.paramSets values.factors)
    (hne : p ≠ []) (int : F → Except PyError ℤ) (v : F) :
    OptimizeResult.paramsFromBest int (values.params p ++ [("sharpe", .float v)]) =
      .ok (paramArg config (p.map Prod.fst), paramArg config (p.map Prod.snd)) := by
  have hfits := h.fits
  cases values with
  | perFactor ws ss =>
    obtain ⟨hn, -⟩ : 1 < config.getSubstrategies.length ∧ _ := hfits
    rw [paramArg_of_lt hn, paramArg_of_lt hn]
    exact OptimizeResult.paramsFromBest_rowFrom int hne v
  | flat ws ss =>
    have hn : ¬1 < config.getSubstrategies.length := Nat.not_lt.mpr hfits
    obtain ⟨c, rfl⟩ := List.length_eq_one_iff.mp (SearchSpace.length_of_mem_paramSets hp)
    rw [List.map_singleton, List.map_singleton, paramArg_singleton hn, paramArg_singleton hn]
    rfl

end SearchValues

end

namespace OptimizeResult

variable {F : Type} [IeeeEnds F] {r : OptimizeResult F} {values : SearchValues F}
  {config : StrategyConfig F} {objective : Objective F} {tried : List (List (ℤ × F))}

/-- **The first of the top ten is the best** of the sets tried. -/
theorem Reports.best_of (h : r.Reports values.params objective tried)
    (hvalues : values.For config)
    (hmem : ∀ p ∈ tried, p ∈ SearchSpace.paramSets values.factors)
    (int : F → Except PyError ℤ) : r.Best int values config objective tried := by
  obtain ⟨top, htop, htop10⟩ := h.top10
  have hvalid {p : List (ℤ × F)} {v : F} (hp : p ∈ tried) (hv : objective.score p = some v) :
      (⟨values.params p, v⟩ : Row F) ∈ r.gridDf.filter fun row => !isNan row.sharpe := by
    refine List.mem_filter.mpr ⟨?_, by rw [(Objective.score_eq_some.mp hv).2.1]; rfl⟩
    rw [h.gridDf]
    exact List.mem_map.mpr ⟨p, hp, by rw [hv, Option.getD_some]⟩
  cases top with
  | nil =>
    refine .none (fun p hp => ?_) (by rw [h.best, htop10]; rfl)
    cases hv : objective.score p with
    | none => rfl
    | some v =>
      have hnil := htop.eq_nil_iff.mp rfl
      exact absurd (hvalid hp hv) (hnil ▸ List.not_mem_nil)
  | cons row top =>
    obtain ⟨hrow, hgreatest⟩ := htop.head_best
      (fun a => by rw [IeeeFloat.lt_irrefl]; exact Bool.false_ne_true) rfl
    obtain ⟨hrow, hnum⟩ := List.mem_filter.mp hrow
    rw [h.gridDf] at hrow
    obtain ⟨p, hp, rfl⟩ := List.mem_map.mp hrow
    cases hv : objective.score p with
    | none =>
      rw [hv, Option.getD_none, NpFloat.isNan_nan] at hnum
      exact absurd hnum Bool.false_ne_true
    | some v =>
      have hbest : r.best = values.params p ++ [("sharpe", .float v)] := by
        rw [h.best, htop10, List.map_cons, List.head?_cons, Option.getD_some, hv, Option.getD_some,
          toRecord_eq (SearchValues.replaceNan_params hvalues.numbers (hmem p hp))
            (Objective.score_eq_some.mp hv).2.1]
      refine .found p v hp hv hbest ?_ fun q hq u hu => ?_
      · rw [hbest]
        exact hvalues.readBack (hmem p hp) (Objective.score_ne_nil hv) int v
      · have hle := hgreatest _ (hvalid hq hu)
        rw [hv, Option.getD_some] at hle
        exact Bool.eq_false_of_not_eq_true hle

end OptimizeResult

namespace ParametersOptimization

variable {L F : Type} [DecidableEq L] [IeeeEnds F]

/-- A search over values for each factor is a search of a space over them. -/
theorem exists_space (opt : ParametersOptimization L F) {values : SearchValues F}
    (hfits : Fits opt.config values.windowSpec)
    (hpaired : ∀ ws ss, values = .perFactor ws ss → ss.length = ws.length) :
    ∃ space : SearchSpace F, space.Spans values.factors ∧ space.windowSpec = values.windowSpec ∧
      (∀ p ∈ SearchSpace.paramSets values.factors, space.row p = values.params p) ∧
      ∀ sampler sorting nTrials, opt.run sampler sorting values nTrials =
        opt.runSpace sampler sorting space nTrials := by
  cases values with
  | flat ws ss =>
    have hone : ¬1 < opt.config.getSubstrategies.length := Nat.not_lt.mpr hfits
    refine ⟨.single ws ss, SearchSpace.spans_single ws ss, rfl, fun p hp => ?_,
      fun sampler sorting nTrials => if_neg hone⟩
    obtain ⟨c, rfl⟩ := List.length_eq_one_iff.mp (SearchSpace.length_of_mem_paramSets hp)
    rfl
  | perFactor ws ss =>
    obtain ⟨hmany, hlen⟩ : 1 < opt.config.getSubstrategies.length ∧
      opt.config.getSubstrategies.length ≤ ws.length := hfits
    have hss := hpaired ws ss rfl
    have hzip : (ws.zip ss).length = ws.length := by rw [List.length_zip, hss, Nat.min_self]
    have hne : (ws.zip ss).length ≠ 1 := by omega
    have hmulti : SearchSpace.multi ws ss =
        .ok ⟨SearchSpace.axes 0 (ws.zip ss), .perFactor ws, (ws.zip ss).length⟩ := by
      rw [SearchSpace.multi, if_neg (not_not.mpr hss), hzip]
    have hspec : (ws.zip ss).map Prod.fst = ws := List.map_fst_zip hss.ge
    have hspans := SearchSpace.spans_multi hne
    rw [hspec] at hspans
    refine ⟨_, hspans, rfl, fun p hp => ?_, fun sampler sorting nTrials => ?_⟩
    · exact SearchSpace.zip_axes (SearchSpace.length_of_mem_paramSets hp)
    · rw [run, if_pos hmany, hmulti]
      rfl

/-- The rows of a space are those of the values that it is over. -/
theorem reports_of_row {space : SearchSpace F} {values : SearchValues F} {objective : Objective F}
    {r : OptimizeResult F} {tried : List (List (ℤ × F))}
    (hrow : ∀ p ∈ SearchSpace.paramSets values.factors, space.row p = values.params p)
    (hmem : ∀ p ∈ tried, p ∈ SearchSpace.paramSets values.factors)
    (h : r.Reports space.row objective tried) : r.Reports values.params objective tried :=
  { h with
    gridDf := h.gridDf.trans <| List.map_congr_left fun p hp => by rw [hrow p (hmem p hp)] }

/-- **What a search finds.** Over values for each factor of a strategy that the objective
can be built for, a search goes through, whatever it comes across. It tries each set once,
or, of more sets than trials are asked for, as many as are. It reports each one that it
tried, and its best is the greatest of them, from whose record the set is read back. -/
theorem run_reports (sampler : Sampler F) (sorting : SortValues F)
    (opt : ParametersOptimization L F) (values : SearchValues F) (nTrials : Option ℤ)
    (int : F → Except PyError ℤ) (hvalues : values.For opt.config) (hn : ∀ n ∈ nTrials, 0 < n)
    (ho : ∃ objective, Objective.forConfig opt.data opt.config values.windowSpec opt.feeBps
      opt.minMetricObs = .ok objective) :
    ∃ objective r tried,
      Objective.forConfig opt.data opt.config values.windowSpec opt.feeBps opt.minMetricObs =
        .ok objective ∧
      opt.run sampler sorting values nTrials = .ok r ∧
      Tried values.factors (trialsOf values.factors nTrials) tried ∧
      r.Reports values.params objective tried ∧
      r.Best int values opt.config objective tried := by
  obtain ⟨objective, ho⟩ := ho
  obtain ⟨space, hspans, hspec, hrow, hrun⟩ := opt.exists_space hvalues.fits hvalues.paired
  obtain ⟨r, tried, hr, htried, hreports⟩ := opt.runSpace_reports sampler sorting hspans
    hvalues.choices hn (hspec ▸ ho)
  have hreports := reports_of_row hrow htried.subset hreports
  exact ⟨objective, r, tried, ho, (hrun ..).trans hr, htried, hreports,
    hreports.best_of hvalues htried.subset int⟩

end ParametersOptimization

/-! ## A search over a small grid -/

/-- A sampler that takes the first choice. -/
def Sampler.first (F : Type) : Sampler F where
  suggest _ _ _ choices := choices.headD .null
  mem _ _ _ choices h := by
    cases choices with
    | nil => exact absurd rfl h
    | cons c choices => exact List.mem_cons_self

namespace SortValues

variable {F : Type} [IeeeFloat F]

/-- Descending, with the gaps first. -/
def Ahead (a b : Row F) : Prop :=
  isNan a.sharpe = true ∨ isNan b.sharpe = false ∧ lt a.sharpe b.sharpe = false

instance : DecidableRel (Ahead (F := F)) := fun a b =>
  inferInstanceAs (Decidable (isNan a.sharpe = true ∨ isNan b.sharpe = false ∧ _))

instance : IsTrans (Row F) Ahead where
  trans a b c hab hbc := by
    rcases hab with hab | ⟨hb, hab⟩
    · exact .inl hab
    · rcases hbc with hbc | ⟨hc, hbc⟩
      · rw [hb] at hbc
        exact absurd hbc Bool.false_ne_true
      · refine .inr ⟨hc, Bool.eq_false_of_not_eq_true fun hlt => ?_⟩
        rcases IeeeFloat.lt_or_lt hlt hb with h | h
        · exact Bool.false_ne_true (hab.symm.trans h)
        · exact Bool.false_ne_true (hbc.symm.trans h)

instance : Std.Total (α := Row F) Ahead where
  total a b := by
    unfold Ahead
    cases ha : isNan a.sharpe with
    | true => exact .inl (.inl rfl)
    | false =>
      cases hb : isNan b.sharpe with
      | true => exact .inr (.inl rfl)
      | false =>
        cases hlt : lt a.sharpe b.sharpe with
        | false => exact .inl (.inr ⟨rfl, rfl⟩)
        | true => exact .inr (.inr ⟨rfl, IeeeFloat.lt_asymm hlt⟩)

/-- A sort that keeps level rows as they stand. -/
def stable (F : Type) [IeeeFloat F] : SortValues F where
  sort rows := rows.insertionSort Ahead
  perm rows := List.perm_insertionSort Ahead rows
  descending rows h := by
    have hsorted : (rows.insertionSort Ahead).Pairwise Ahead := List.pairwise_insertionSort Ahead rows
    refine hsorted.imp_of_mem fun ha _ hab => ?_
    have hnum := h _ ((List.perm_insertionSort Ahead rows).mem_iff.mp ha)
    exact (hab.resolve_left (by rw [hnum]; exact Bool.false_ne_true)).2

end SortValues

namespace Optimizer

/-- Moving averages of two factors, each over two windows and under two signals. -/
def grid : SearchValues ExtRat :=
  .perFactor [[1, 2], [2, 3]] [[.fin 100, .fin 105], [.fin 100, .fin 110]]

/-- Their search, on four bars. -/
def search : ParametersOptimization ℕ ExtRat where
  data := [("btcusdt.crypto", Search.btc)]
  config := Search.pair
  feeBps := none
  minMetricObs := 0

theorem grid_for : grid.For search.config where
  fits := by
    show 1 < Search.pair.getSubstrategies.length ∧ Search.pair.getSubstrategies.length ≤ 2
    decide
  paired ws ss h := by
    cases h
    rfl
  choices := by simp [grid, SearchValues.factors]
  numbers := by simp [grid, SearchValues.factors, NpFloat.isNan]

theorem search_objective : ∃ objective, Objective.forConfig search.data search.config
    grid.windowSpec search.feeBps search.minMetricObs = .ok objective := by
  have h : (Objective.forConfig search.data search.config grid.windowSpec search.feeBps
      search.minMetricObs).toOption.isSome = true := by decide +kernel
  obtain ⟨objective, ho⟩ := Option.isSome_iff_exists.mp h
  exact ⟨objective, toOption_eq_some.mp ho⟩

/-- Of sixteen sets, four have a ratio. -/
example : (search.run (Sampler.first ExtRat) (SortValues.stable ExtRat) grid none).toOption.map
    (fun r => (r.best, r.gridDf.length, r.nValid)) =
      some ([("window_0", .int 2), ("signal_0", .float (.fin 100)), ("window_1", .int 2),
        ("signal_1", .float (.fin 100)), ("sharpe", .float (.fin (26543 / 5220)))], 16, 4) := by
  decide +kernel

end Optimizer

open Optimizer in
/-- Its search, with a sampler that takes the first choice and a sort that keeps level rows in
order. -/
theorem grid_run_reports :
    ∃ objective r tried,
      Objective.forConfig search.data search.config grid.windowSpec search.feeBps
        search.minMetricObs = .ok objective ∧
      search.run (Sampler.first ExtRat) (SortValues.stable ExtRat) grid none = .ok r ∧
      Tried grid.factors (trialsOf grid.factors none) tried ∧
      r.Reports grid.params objective tried ∧
      r.Best (fun _ => .error .typeError) grid search.config objective tried :=
  ParametersOptimization.run_reports _ _ search grid none _ grid_for (fun n hn => by cases hn)
    search_objective
