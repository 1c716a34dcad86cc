import Mathlib.Order.Defs.LinearOrder
import Mathlib.Algebra.Order.Group.Int

/-!
# The promotion of a result

A finished run of a strategy's version is weighed against the version that is the
best so far. The metrics come from the configuration: a HARD one is a gate with a
threshold, and every gate must be passed; the SOFT ones rank the result against
the best, the first decisive one settling it.

The values are those of a linear order with a subtraction: finite floats are never
NaN, and the order reads `-0.0` and `0.0` as one value.

The functions follow the source's order of tests: the HARD gates, all of them, then the SOFT
metrics in their order, one of which settles the matter or none does. A metric is looked up
in the part of the result that its key belongs to, and one that is missing or not finite has
no value.
-/

namespace Promotion

/-- What a promotion comes to. -/
inductive Outcome
  | promoted
  | kept
  | demoted
  | rejected
deriving DecidableEq

/-- An entry of a stored result, by what `float` makes of it. A text that reads as
a number is that number. -/
inductive Cell (α : Type)
  | null
  | bool (b : Bool)
  | number (x : α)
  | nonFinite
  | unreadable
deriving DecidableEq

/-- A dictionary of metrics. -/
abbrev Metrics (α : Type) := List (String × Cell α)

/-- The parts of a stored result that promotion reads: `performance.strategy_metrics`,
`performance.buy_hold_metrics` and `walk_forward.oos_metrics`. A part that the result
lacks is empty. -/
structure Payload (α : Type) where
  /-- The figures of the strategy. -/
  strategyMetrics : Metrics α
  /-- The figures of holding the product. -/
  buyHoldMetrics : Metrics α
  /-- The figures of the out-of-sample part. -/
  oosMetrics : Metrics α
deriving DecidableEq

/-- A row of `CONFIG.PROMOTION_METRIC`. The type and the direction are texts: a type
that is neither `HARD` nor `SOFT` is not looked at, and a direction other than
`lower_is_better` is taken for `higher_is_better`. -/
structure PromotionMetric (α : Type) where
  /-- The name shown with it, if it has one. -/
  name : Option String
  /-- The metric, by the key it has in a result. -/
  metricKey : String
  /-- Which values are better. -/
  direction : String
  /-- What it is used for. -/
  requirementType : Option String
  /-- What a gate asks for. -/
  threshold : Option α
deriving DecidableEq

/-- What became of one gate. -/
structure GateResult (α : Type) where
  /-- The name of its metric. -/
  name : String
  /-- The key of its metric. -/
  metricKey : String
  /-- Whether it was passed. -/
  passed : Bool
  /-- The value that the result has, if it has one. -/
  value : Option α
  /-- What was asked for. -/
  threshold : α
deriving DecidableEq

/-- What is decided of a result, with the reasons. -/
structure PromotionDecision (α : Type) where
  /-- What becomes of the version. -/
  outcome : Outcome
  /-- The gates, passed or not. -/
  gateResults : List (GateResult α)
  /-- The version that it was compared with, if there was one. -/
  comparedVid : Option ℤ
deriving DecidableEq

variable {α : Type}

/-- `_finite`. -/
def finite : Cell α → Option α
  | .number x => some x
  | _ => none

/-- `metrics.get(key)`. -/
def Metrics.get (metrics : Metrics α) (key : String) : Cell α :=
  (metrics.lookup key).getD .null

/-- `_extract_metric`. -/
def extractMetric [Sub α] (payload : Payload α) (metricKey : String) : Option α :=
  if metricKey = "OOS Sharpe Ratio" then finite (payload.oosMetrics.get "Sharpe Ratio")
  else if metricKey = "Sharpe Excess" then
    match finite (payload.strategyMetrics.get "Sharpe Ratio"),
        finite (payload.buyHoldMetrics.get "Sharpe Ratio") with
    | some strategy, some buyHold => some (strategy - buyHold)
    | _, _ => none
  else finite (payload.strategyMetrics.get metricKey)

/-- `int(a > b)`. -/
def indicator (p : Prop) [Decidable p] : ℤ := if p then 1 else 0

section Compare

variable [LinearOrder α]

/-- `_compare`. -/
def compareValues (a b : α) (direction : String) : ℤ :=
  if direction = "lower_is_better" then indicator (b > a) - indicator (b < a)
  else indicator (a > b) - indicator (a < b)

/-- `_meets_threshold`. -/
def meetsThreshold (value : Option α) (threshold : α) (direction : String) : Bool :=
  match value with
  | some value => decide (0 ≤ compareValues value threshold direction)
  | none => false

end Compare

/-- `grouped.setdefault(key, []).append(m)`. -/
def addToGroup (key : String) (m : PromotionMetric α) :
    List (String × List (PromotionMetric α)) → List (String × List (PromotionMetric α))
  | [] => [(key, [m])]
  | (k, ms) :: grouped =>
    if k = key then (k, ms ++ [m]) :: grouped else (k, ms) :: addToGroup key m grouped

/-- `_group_by_type`. -/
def groupByType (metrics : List (PromotionMetric α)) : List (String × List (PromotionMetric α)) :=
  metrics.foldl (fun grouped m => addToGroup (m.requirementType.getD "") m grouped) []

/-- `grouped.get(key, [])`. -/
def ofType (metrics : List (PromotionMetric α)) (key : String) : List (PromotionMetric α) :=
  ((groupByType metrics).lookup key).getD []

variable [LinearOrder α] [Sub α]

/-- The gate of one HARD metric. A metric without a threshold has none. -/
def hardGate (payload : Payload α) (m : PromotionMetric α) : Option (GateResult α) :=
  m.threshold.map fun threshold =>
    let value := extractMetric payload m.metricKey
    ⟨m.name.getD m.metricKey, m.metricKey, meetsThreshold value threshold m.direction, value,
      threshold⟩

/-- `_evaluate_hard`. -/
def evaluateHard (payload : Payload α) (hardMetrics : List (PromotionMetric α)) :
    List (GateResult α) :=
  hardMetrics.filterMap (hardGate payload)

/-- `_evaluate_soft`. -/
def evaluateSoft (newPayload bestPayload : Payload α) : List (PromotionMetric α) → Outcome
  | [] => .kept
  | m :: softMetrics =>
    match extractMetric newPayload m.metricKey, extractMetric bestPayload m.metricKey with
    | none, _ => evaluateSoft newPayload bestPayload softMetrics
    | some _, none => .promoted
    | some newVal, some bestVal =>
      let cmp := compareValues newVal bestVal m.direction
      if cmp ≠ 0 then if 0 < cmp then .promoted else .kept
      else evaluateSoft newPayload bestPayload softMetrics

/-- `passes_hard_gates`. -/
def passesHardGates (payload : Payload α) (promotionMetrics : List (PromotionMetric α)) : Bool :=
  (evaluateHard payload (ofType promotionMetrics "HARD")).all GateResult.passed

/-- `evaluate_promotion`. -/
def evaluatePromotion (newPayload : Payload α) (bestPayload : Option (Payload α))
    (promotionMetrics : List (PromotionMetric α)) (isCurrentBest : Bool)
    (bestVid strategyVid : Option ℤ) : PromotionDecision α :=
  if promotionMetrics = [] then ⟨.rejected, [], bestVid⟩
  else
    let gates := evaluateHard newPayload (ofType promotionMetrics "HARD")
    let allPassed := gates.all GateResult.passed
    if isCurrentBest then
      if strategyVid = some 1 then ⟨.kept, gates, none⟩
      else ⟨if allPassed then .kept else .demoted, gates, none⟩
    else if !allPassed then ⟨.rejected, gates, bestVid⟩
    else
      match bestPayload with
      | none => ⟨.promoted, gates, bestVid⟩
      | some bestPayload =>
        ⟨evaluateSoft newPayload bestPayload (ofType promotionMetrics "SOFT"), gates, bestVid⟩

/-! ## Metrics by their type -/

section Groups

omit [LinearOrder α] [Sub α]

/-- A metric joins the group of its type, at the end, and no other. -/
theorem lookup_addToGroup (key k : String) (m : PromotionMetric α)
    (grouped : List (String × List (PromotionMetric α))) :
    ((addToGroup key m grouped).lookup k).getD []
      = (grouped.lookup k).getD [] ++ if k = key then [m] else [] := by
  induction grouped with
  | nil =>
    by_cases h : k = key
    · simp [addToGroup, h]
    · have hk : (k == key) = false := beq_eq_false_iff_ne.mpr h
      simp [addToGroup, List.lookup_cons, h, hk]
  | cons entry grouped ih =>
    obtain ⟨k', ms⟩ := entry
    rw [addToGroup]
    by_cases hk : k = k'
    · subst hk
      by_cases hkey : k = key <;> simp [hkey]
    · have hk' : (k == k') = false := beq_eq_false_iff_ne.mpr hk
      by_cases hkey : k' = key
      · have hk'' : k ≠ key := fun h => hk (h.trans hkey.symm)
        simp [hkey, hk'', beq_eq_false_iff_ne.mpr hk'', List.lookup_cons]
      · rw [if_neg hkey, List.lookup_cons, List.lookup_cons, hk']
        exact ih

/-- **A group is the metrics of its type, in their order.** -/
theorem ofType_eq (metrics : List (PromotionMetric α)) (key : String) :
    ofType metrics key = metrics.filter (fun m => key = m.requirementType.getD "") := by
  have hfold : ∀ (metrics : List (PromotionMetric α)) grouped,
      ((metrics.foldl (fun grouped m => addToGroup (m.requirementType.getD "") m grouped)
          grouped).lookup key).getD []
        = (grouped.lookup key).getD []
          ++ metrics.filter (fun m => key = m.requirementType.getD "") := by
    intro metrics
    induction metrics with
    | nil => simp
    | cons m metrics ih =>
      intro grouped
      rw [List.foldl_cons, ih, lookup_addToGroup, List.filter_cons]
      by_cases h : key = m.requirementType.getD "" <;> simp [h]
  simpa [ofType, groupByType] using hfold metrics []

end Groups

/-! ## What a decision turns on -/

variable {metrics : List (PromotionMetric α)}

/-- Against a best of its own, a result is promoted when it passes the gates and the
SOFT metrics promote it. -/
theorem evaluatePromotion_challenger {new best : Payload α} {bestVid strategyVid : Option ℤ} :
    (evaluatePromotion new (some best) metrics false bestVid strategyVid).outcome = .promoted ↔
      metrics ≠ [] ∧ passesHardGates new metrics ∧
        evaluateSoft new best (ofType metrics "SOFT") = .promoted := by
  rw [evaluatePromotion, passesHardGates]
  by_cases hm : metrics = []
  · simp [hm]
  by_cases hg : (evaluateHard new (ofType metrics "HARD")).all GateResult.passed
  · simp [hm, hg]
  · simp [hm, hg]

/-- The SOFT metrics promote or keep. -/
theorem evaluateSoft_ne_demoted (new best : Payload α) (soft : List (PromotionMetric α)) :
    evaluateSoft new best soft ≠ .demoted := by
  fun_induction evaluateSoft new best soft with
  | case1 => exact nofun
  | case2 m soft _ ih => exact ih
  | case3 => exact nofun
  | case4 => exact nofun
  | case5 => exact nofun
  | case6 m soft _ _ _ _ _ _ ih => exact ih

/-- The current best is demoted only below its gates, and never as version 1. -/
theorem evaluatePromotion_demoted {new : Payload α} {best : Option (Payload α)}
    {isCurrentBest : Bool} {bestVid strategyVid : Option ℤ}
    (h : (evaluatePromotion new best metrics isCurrentBest bestVid strategyVid).outcome
      = .demoted) :
    isCurrentBest = true ∧ strategyVid ≠ some 1 ∧ passesHardGates new metrics = false := by
  by_cases hm : metrics = []
  · simp [evaluatePromotion, hm] at h
  rw [evaluatePromotion, if_neg hm] at h
  rw [passesHardGates]
  cases isCurrentBest with
  | true =>
    by_cases hvid : strategyVid = some 1
    · simp [hvid] at h
    · by_cases hpass : (evaluateHard new (ofType metrics "HARD")).all GateResult.passed
      · simp [hvid, hpass] at h
      · exact ⟨rfl, hvid, Bool.eq_false_iff.mpr hpass⟩
  | false =>
    by_cases hpass : (evaluateHard new (ofType metrics "HARD")).all GateResult.passed
    · cases best with
      | none => simp [hpass] at h
      | some best => exact (evaluateSoft_ne_demoted new best _ (by simpa [hpass] using h)).elim
    · simp [hpass] at h

end Promotion
