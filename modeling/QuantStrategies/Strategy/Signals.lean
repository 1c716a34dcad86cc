import Mathlib.Data.Sign.Defs
import QuantStrategies.Lib.Python
import QuantStrategies.Lib.Rolling

/-!
# Signals, and how the positions of several factors combine

A position is a sign, or missing. `SignalDirection` makes one of an indicator's
reading and a threshold, row by row. `combinePositions` makes one of the
positions of several factors, row by row too, except for what it breaks a
conflict with: the conviction of a factor is the rank of its reading among the
readings up to the row.

`StrategyConfig` says which product is traded, and on which factors.

The model keeps the source's order of tests in each of the three ways to combine, since they
differ in what a missing or flat factor does: under `and` a flat factor vetoes, under `or`
it abstains, and a `filter` has its first factor as a gate. A row in which any factor is
missing is missing under all of them, and that test comes first.
-/

open Pandas NpFloat

variable {F : Type} [NpFloat F]

/-- A position: long, flat or short, or not known. -/
abbrev Position : Type := Option SignType

/-- The position as a number, `nan` when it is not known. -/
def Position.toFloat : Position → F
  | none => nan
  | some .pos => 1
  | some .zero => 0
  | some .neg => -1

/-! ## Signal directions -/

/-- What the signal functions have in common: long on one test, short on another,
and no position where there is no reading. -/
def threshold (long short : F → Bool) (dataCol : List F) : List Position :=
  dataCol.map fun x =>
    if isNan x then none else if long x then some 1 else if short x then some (-1) else some 0

/-- `SignalDirection`: the trading signal generators. -/
inductive SignalDirection where
  | momentumBandSignal
  | reversionBandSignal
  | momentumBoundedSignal
  | reversionBoundedSignal
  | momentumBandSignalLongOnly
  | reversionBandSignalLongOnly
  | momentumBoundedSignalLongOnly
  | reversionBoundedSignalLongOnly
deriving DecidableEq

namespace SignalDirection

/-- `_long_only`: short legs clipped to flat. -/
def longOnly (position : List Position) : List Position :=
  position.map fun p => if p = some (-1) then some 0 else p

/-- `momentum_band_signal`. -/
def momentumBand (dataCol : List F) (signal : F) : List Position :=
  threshold (fun x => lt signal x) (fun x => lt x (-signal)) dataCol

/-- `reversion_band_signal`. -/
def reversionBand (dataCol : List F) (signal : F) : List Position :=
  threshold (fun x => lt x (-signal)) (fun x => lt signal x) dataCol

/-- `momentum_bounded_signal`. -/
def momentumBounded (dataCol : List F) (signal : F) : List Position :=
  threshold (fun x => lt signal x) (fun x => lt x (lit 100 - signal)) dataCol

/-- `reversion_bounded_signal`. -/
def reversionBounded (dataCol : List F) (signal : F) : List Position :=
  threshold (fun x => lt x (lit 100 - signal)) (fun x => lt signal x) dataCol

/-- `func(data_col, signal)`. -/
def call : SignalDirection → List F → F → List Position
  | momentumBandSignal, xs, s => momentumBand xs s
  | reversionBandSignal, xs, s => reversionBand xs s
  | momentumBoundedSignal, xs, s => momentumBounded xs s
  | reversionBoundedSignal, xs, s => reversionBounded xs s
  | momentumBandSignalLongOnly, xs, s => longOnly (momentumBand xs s)
  | reversionBandSignalLongOnly, xs, s => longOnly (reversionBand xs s)
  | momentumBoundedSignalLongOnly, xs, s => longOnly (momentumBounded xs s)
  | reversionBoundedSignalLongOnly, xs, s => longOnly (reversionBounded xs s)

/-- `func.__name__`. -/
def name : SignalDirection → String
  | momentumBandSignal => "momentum_band_signal"
  | reversionBandSignal => "reversion_band_signal"
  | momentumBoundedSignal => "momentum_bounded_signal"
  | reversionBoundedSignal => "reversion_bounded_signal"
  | momentumBandSignalLongOnly => "momentum_band_signal_long_only"
  | reversionBandSignalLongOnly => "reversion_band_signal_long_only"
  | momentumBoundedSignalLongOnly => "momentum_bounded_signal_long_only"
  | reversionBoundedSignalLongOnly => "reversion_bounded_signal_long_only"

/-- All of them. -/
def all : List SignalDirection :=
  [momentumBandSignal, reversionBandSignal, momentumBoundedSignal, reversionBoundedSignal,
    momentumBandSignalLongOnly, reversionBandSignalLongOnly, momentumBoundedSignalLongOnly,
    reversionBoundedSignalLongOnly]

/-- `getattr(SignalDirection, name)`. -/
def resolve (n : String) : Except PyError SignalDirection :=
  match all.find? fun d => d.name = n with
  | some d => .ok d
  | none => .error (.attributeError n)

/-- A name leads back to the function that has it. -/
theorem resolve_name (d : SignalDirection) : resolve d.name = .ok d := by
  cases d <;> decide

/-- Signals are a matter of each row. -/
theorem call_eq_map (d : SignalDirection) (s : F) :
    ∃ f : F → Position, ∀ xs, d.call xs s = xs.map f := by
  cases d
  all_goals
    first
      | exact ⟨_, fun _ => rfl⟩
      | exact ⟨_, fun _ => List.map_map⟩

/-- A signal function answers one position for each reading, so that positions and readings share
an index. -/
@[simp] theorem length_call (d : SignalDirection) (xs : List F) (s : F) :
    (d.call xs s).length = xs.length := by
  obtain ⟨f, hf⟩ := d.call_eq_map s
  rw [hf, List.length_map]

/-- Cutting the readings cuts the positions: no signal looks at another row. -/
@[simp] theorem take_call (d : SignalDirection) (k : ℕ) (xs : List F) (s : F) :
    (d.call xs s).take k = d.call (xs.take k) s := by
  obtain ⟨f, hf⟩ := d.call_eq_map s
  rw [hf, hf, List.map_take]

end SignalDirection

/-! ## Conviction -/

/-- The loop of `bisect.bisect_right`. Each turn halves `hi - lo`, so as many
turns as the list is long are enough. -/
def bisectLoop (a : List F) (x : F) : ℕ → ℕ → ℕ → ℕ
  | 0, lo, _ => lo
  | fuel + 1, lo, hi =>
    if lo < hi then
      let mid := (lo + hi) / 2
      if lt x (a.getD mid nan) then bisectLoop a x fuel lo mid
      else bisectLoop a x fuel (mid + 1) hi
    else lo

/-- `bisect.bisect_right(a, x)`. -/
def bisectRight (a : List F) (x : F) : ℕ := bisectLoop a x a.length 0 a.length

/-- `bisect.insort(a, x)`. -/
def insort (a : List F) (x : F) : List F :=
  a.take (bisectRight a x) ++ x :: a.drop (bisectRight a x)

/-- One row of `_conviction` for one factor: the percentile of the reading among
the readings seen, which are kept sorted, and its distance from the median. -/
def convictionStep (seen : List F) (value : F) : F × List F :=
  let median : F := lit (1 / 2)
  if isNan value then (NpFloat.abs (median - median), seen)
  else
    let seen := insort seen value
    if seen.length ≤ 1 then (NpFloat.abs (median - median), seen)
    else
      let pctile : F := lit (bisectRight seen value : ℚ) / lit (seen.length : ℚ)
      (NpFloat.abs (pctile - median), seen)

/-- `_conviction`, for one factor. -/
def conviction (strength : List F) : List F := Causal.loop convictionStep [] strength

@[simp] theorem length_conviction (strength : List F) :
    (conviction strength).length = strength.length := Causal.length_loop _ _ _

/-- Cutting the readings cuts the convictions. The readings seen are those up to the row, so that
later ones do not change the rank of an earlier one. -/
@[simp] theorem take_conviction (k : ℕ) (strength : List F) :
    (conviction strength).take k = conviction (strength.take k) := Causal.take_loop _ _ k _

/-- `np.argmax`: the first of the largest, and a missing value is larger than any. -/
def argmax : List F → ℕ
  | [] => 0
  | x :: xs =>
    (xs.foldl (fun (s : F × ℕ × ℕ) y =>
      if !isNan s.1 && (isNan y || lt s.1 y) then (y, s.2.2, s.2.2 + 1)
      else (s.1, s.2.1, s.2.2 + 1)) (x, 0, 1)).2.1

/-! ## One row of several factors -/

/-- `_strongest_sign`: the sign of the most convicted factor that is not flat. -/
def strongestSign (signs : List Position) (conviction : List F) : Position :=
  let masked := List.zipWith (fun s c => if s = some 0 then -inf else c) signs conviction
  signs.getD (argmax masked) none

/-- `_combine_and`, on one row: a position when every factor agrees, and one flat
factor vetoes. Conviction decides when all take a side and not the same one. -/
def combineAnd (signs : List Position) (nanRow : Bool) (conviction : Option (List F)) :
    Position :=
  let combined : Position :=
    if signs.all (· = some 1) then some 1
    else if signs.all (· = some (-1)) then some (-1) else some 0
  match conviction with
  | none => combined
  | some conviction =>
    if signs.any (· = some 1) && signs.any (· = some (-1)) && !signs.any (· = some 0)
        && !nanRow then strongestSign signs conviction
    else combined

/-- `_combine_or`, on one row: a position when any factor signals. Conviction, or
else the long side, decides a conflict. -/
def combineOr (signs : List Position) (conviction : Option (List F)) : Position :=
  let anyPositive := signs.any (· = some 1)
  let anyNegative := signs.any (· = some (-1))
  if anyPositive && anyNegative then
    match conviction with
    | some conviction => strongestSign signs conviction
    | none => some 1
  else if anyPositive then some 1
  else if anyNegative then some (-1) else some 0

/-- `_combine_filter`, on one row: the first factor is a gate, and the others are
combined by `combineAnd`, unless there is only one. A gate that is not known is
not flat. -/
def combineFilter (signs : List Position) (nanRow : Bool) (conviction : Option (List F)) :
    Position :=
  let gate : Bool := signs.getD 0 none ≠ some 0
  let direction :=
    if signs.length = 2 then signs.getD 1 none
    else combineAnd (signs.drop 1) nanRow conviction
  if gate then direction else some 0

/-- The three ways to combine. -/
inductive Conjunction where
  | and
  | or
  | filter
deriving DecidableEq

/-- `conjunction.upper()`, which must be one of the three. -/
def Conjunction.ofString (conjunction : String) : Except PyError Conjunction :=
  let conj := Python.upper conjunction
  if conj = "AND" then .ok .and
  else if conj = "OR" then .ok .or
  else if conj = "FILTER" then .ok .filter
  else .error (.valueError
    s!"conjunction must be 'AND', 'OR', or 'FILTER', got '{conjunction}'")

/-- One row of `combine_positions`. A factor that is not known leaves the row so. -/
def combineRow (conj : Conjunction) (signs : List Position) (conviction : Option (List F)) :
    Position :=
  let nanRow := signs.any (· = none)
  if nanRow then none
  else
    match conj with
    | .and => combineAnd signs nanRow conviction
    | .or => combineOr signs conviction
    | .filter => combineFilter signs nanRow conviction

/-! ## All rows -/

/-- `np.column_stack(columns)`, as the list of its rows. -/
def columnStack {α : Type} (columns : List (List α)) : Except PyError (List (List α)) :=
  let n := (columns.map List.length).headD 0
  if columns.all (·.length = n) then
    .ok ((List.range n).map fun i => columns.filterMap (·[i]?))
  else .error (.valueError
    "all the input array dimensions except for the concatenation axis must match exactly")

/-- The strengths that a conflict is resolved with: of all factors, or of all but
the gate. -/
def directions {α : Type} (conj : Conjunction) (strengths : List α) : List α :=
  match conj with
  | .filter => strengths.drop 1
  | _ => strengths

/-- The strengths that conviction is made of, if it is computed. A gate with a single
factor behind it leaves no conflict, and no strength is ranked. -/
def weighed {α : Type} (conj : Conjunction) (factors : ℕ) (strengths : Option (List α)) :
    Option (List α) :=
  if conj = .filter ∧ factors = 2 then none else strengths.map (directions conj)

/-- `combine_positions`. -/
def combinePositions (positions : List (List Position)) (conjunction : String)
    (strengths : Option (List (List F))) : Except PyError (List Position) :=
  match positions with
  | [] => .error (.valueError "positions list must not be empty")
  | [position] => .ok position
  | positions => do
    let conj ← Conjunction.ofString conjunction
    let stacked ← columnStack positions
    match weighed conj positions.length strengths with
    | none => return stacked.map fun signs => combineRow (F := F) conj signs none
    | some strengths =>
      let conviction ← columnStack (strengths.map conviction)
      return List.zipWith (fun signs c => combineRow conj signs (some c)) stacked conviction

/-! ## Strategies -/

/-- `SubStrategy`: an indicator and a signal direction, with their parameters. -/
structure SubStrategy (F : Type) where
  /-- The indicator, by its method's name. -/
  indicatorName : String
  /-- The signal function, by name. Resolving it can fail. -/
  signalFuncName : String
  /-- The window stored with the factor. A search or a report may override it. -/
  window : ℤ
  /-- The threshold stored with the factor. -/
  signal : F
  /-- The column the indicator reads; `v` is the column of the plain price. -/
  dataColumn : String := "v"
  /-- Another product to read the column from. None, or an empty name, is the traded product. -/
  internalCusip : Option String := none
deriving DecidableEq

/-- `SubStrategy.resolve_signal_func`. -/
def SubStrategy.resolveSignalFunc (sub : SubStrategy F) : Except PyError SignalDirection :=
  SignalDirection.resolve sub.signalFuncName

/-- `StrategyConfig`, without its identifier and its name. -/
structure StrategyConfig (F : Type) where
  /-- The product that is traded, and whose index the columns carry. -/
  internalCusip : String
  /-- The indicator of a strategy without a list of factors. -/
  indicatorName : String
  /-- The signal function of a strategy without a list of factors. -/
  signalFunc : SignalDirection
  /-- How many bars a year has, for the annualised figures. -/
  tradingPeriod : ℤ
  /-- How the positions of several factors combine. It is a text, read in any case. -/
  conjunction : String := "AND"
  /-- The factors. With none, the strategy is its own single factor. -/
  substrategies : List (SubStrategy F) := []
deriving DecidableEq

/-- `StrategyConfig.get_substrategies`: never empty. -/
def StrategyConfig.getSubstrategies (config : StrategyConfig F) : List (SubStrategy F) :=
  match config.substrategies with
  | [] =>
    [{ indicatorName := config.indicatorName
       signalFuncName := config.signalFunc.name
       window := 0
       signal := 0
       dataColumn := "factor" }]
  | subs => subs
