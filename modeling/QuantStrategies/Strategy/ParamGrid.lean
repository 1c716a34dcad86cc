import Mathlib.Algebra.Order.BigOperators.GroupWithZero.List
import QuantStrategies.Lib.Grid
import QuantStrategies.Strategy.Scoreable

/-!
# The number of trials

The form shows how many parameter sets a search will try before it is started. It
counts the steps of each range and multiplies. The engine expands the same ranges
and takes the sizes of the lists.

A range is expanded in two ways. Signals are the values of `np.arange`, with the
upper end moved up by half a step, so that rounding does not lose the last value.
Where the last step ends in the upper half, though, the padding lets one value
through that lies above the upper end. Windows are those of a Python range whose
ends and step have lost their fractions. Only a range of whole numbers is the same
without them: of others, it has other values, another number of them, or no step at
all. The form counts what was asked for in either case.

Both sides compute with doubles. The form divides the span by the step and rounds the
quotient down, the engine divides a span that is half a step longer and rounds the
quotient up, and either quotient may have been rounded across a whole number before. So
from nothing to three tenths, a tenth apart, the form counts three values and the engine
has four, the last of which is above three tenths. Where the ends and the step are
multiples of one power of two, and not too large ones, nothing of this happens, and how
much of a step is left at the upper end is all that matters.

The model of a range has its ends and its step as rationals that are doubles, and every
computation with them is rounded to a double as the code's is: the form's quotient, the
padded end, each value of `np.arange`. `WindowExact` and `SignalExact` say what of that has
to come out for a range to be expanded as it is shown, and `ExpandsAlike` says it of a
request.
-/

open NpFloat Result Grid Binary64

/-! ## The form -/

/-- `Math.floor`. -/
def mathFloor : ExtRat → ExtRat
  | .fin q => .fin ⌊q⌋
  | x => x

/-- `Math.max`, of two numbers. -/
def mathMax (x y : ExtRat) : ExtRat :=
  if isNan x || isNan y then .nan else if lt x y then y else x

namespace RangeParam

/-- `countSteps`. -/
def countSteps (r : RangeParam) : ExtRat :=
  if r.step ≤ 0 then .fin 1
  else
    let steps := mathFloor (div (sub (.fin r.max) (.fin r.min)) (.fin r.step))
    mathMax (.fin 1) (add steps (.fin 1))

end RangeParam

/-- `totalTrials`: what the form shows. -/
def totalTrials (ranges : List (RangeParam × RangeParam)) : ExtRat :=
  ranges.foldl (fun acc f => mul (mul acc f.1.countSteps) f.2.countSteps) (.fin 1)

/-! ## The search space -/

/-- The values of an axis of the search. -/
inductive AxisValues (F : Type) where
  | windows (values : List ℤ)
  | signals (values : List F)

/-- `len(values)`. -/
def AxisValues.length {F : Type} : AxisValues F → ℕ
  | windows values => values.length
  | signals values => values.length

/-- `SearchSpace`: named categorical axes the search walks. -/
structure SearchSpace (F : Type) where
  /-- The axes, by name. -/
  mapping : List (String × AxisValues F)
  /-- The windows, for the caches of the objective. -/
  windowSpec : WindowValues
  /-- How many factors there are. -/
  nFactors : ℕ

namespace SearchSpace

variable {F : Type}

/-- The name of the axis of a factor's windows. -/
def windowKey (i : ℕ) : String := s!"window_{i}"

@[inherit_doc windowKey]
def signalKey (i : ℕ) : String := s!"signal_{i}"

/-- `SearchSpace.single`. -/
def single (windowValues : List ℤ) (signalValues : List F) : SearchSpace F where
  mapping := [("window", .windows windowValues), ("signal", .signals signalValues)]
  windowSpec := .flat windowValues
  nFactors := 1

/-- The two axes of each factor, from the `i`-th on. -/
def axes (i : ℕ) : List (List ℤ × List F) → List (String × AxisValues F)
  | [] => []
  | (windows, signals) :: factors =>
    (windowKey i, .windows windows) :: (signalKey i, .signals signals) :: axes (i + 1) factors

/-- `SearchSpace.multi`. -/
def multi (windowRanges : List (List ℤ)) (signalRanges : List (List F)) :
    Except PyError (SearchSpace F) :=
  let nFactors := windowRanges.length
  if signalRanges.length ≠ nFactors then
    .error (.valueError (s!"window_ranges has {nFactors} entries but " ++
      s!"signal_ranges has {signalRanges.length}"))
  else .ok ⟨axes 0 (windowRanges.zip signalRanges), .perFactor windowRanges, nFactors⟩

/-- `self.mapping[key]`. -/
def axis (space : SearchSpace F) (key : String) : Except PyError (AxisValues F) :=
  match space.mapping.lookup key with
  | some values => .ok values
  | none => .error (.keyError key)

/-- `SearchSpace.total`. -/
def total (space : SearchSpace F) : Except PyError ℕ := do
  if space.nFactors = 1 then
    let windows ← space.axis "window"
    let signals ← space.axis "signal"
    return windows.length * signals.length
  else
    let sizes ← (List.range space.nFactors).mapM fun i => do
      let windows ← space.axis (windowKey i)
      let signals ← space.axis (signalKey i)
      return windows.length * signals.length
    return sizes.prod

end SearchSpace

namespace RangeParam

/-- The values of a range: from `min` on, `step` apart, up to the last one that is at
most `max`. -/
def values (r : RangeParam) : List ℚ :=
  progression r.min r.step (⌊(r.max - r.min) / r.step⌋.toNat + 1)

/-- The values of a range in doubles: `min + i * step`. -/
def valueAt (r : RangeParam) (i : ℕ) : ExtRat :=
  add (.fin r.min) (mul (ofRat i) (.fin r.step))

/-- A range that the form can send. -/
structure Sendable (r : RangeParam) : Prop where
  /-- The upper end is not below the lower one. -/
  ordered : r.min ≤ r.max
  /-- The step is above zero. -/
  step_pos : 0 < r.step

/-- So many steps are in the quotient that the form computes in doubles. -/
def FormCounts (r : RangeParam) (n : ℕ) : Prop :=
  ∃ q, div (sub (.fin r.max) (.fin r.min)) (.fin r.step) = .fin q ∧
    ofRat (⌊q⌋ + 1) = .fin (n + 1 : ℕ)

/-- The range has so many steps, and so many are in the form's quotient. It starts at a
whole number, and has a whole step where it has a second value. Without its fraction, `max`
is below the value that comes after the last one. -/
structure WindowExact (r : RangeParam) (n : ℕ) : Prop where
  /-- So many steps fit in. -/
  steps : ⌊(r.max - r.min) / r.step⌋ = n
  /-- The first value is whole. -/
  start : (Python.trunc r.min : ℚ) = r.min
  /-- The step is one at least. -/
  one_le_step : 1 ≤ r.step
  /-- It is whole, where there is a second value. -/
  step : r.max < r.min + r.step ∨ (Python.trunc r.step : ℚ) = r.step
  /-- The upper end, cut to a whole number, is below the value that would come next. -/
  stop : Python.trunc r.max < Python.trunc r.min + (n + 1) * Python.trunc r.step
  /-- The form counts so many. -/
  form : r.FormCounts n

/-- So many steps lead to the last value that is at most `max`, so many are in the form's
quotient, and as many in the quotient of the padded span, rounded up. Up to there, the
difference of the first two values is as good as the step. -/
structure SignalExact (r : RangeParam) (n : ℕ) : Prop where
  /-- The last value is at most `max`. -/
  last : NpFloat.le (r.valueAt n) (.fin r.max) = true
  /-- The value that would come next is above it. -/
  next : NpFloat.lt (.fin r.max) (r.valueAt (n + 1)) = true
  /-- The form counts so many. -/
  form : r.FormCounts n
  /-- So does `np.arange`, up to the padded end. -/
  length : Arange.length r.min r.padded r.step = .ok (n + 1)
  /-- And each of its values is the one that so many steps lead to. -/
  spacing : ∀ i ≤ n, Arange.element r.min r.step i = r.valueAt i

end RangeParam

/-- How many steps the windows and the signals of each factor have. -/
abbrev Steps := List (ℕ × ℕ)

/-- The number of parameter sets. -/
def Steps.trials (steps : Steps) : ℕ := (steps.map fun n => (n.1 + 1) * (n.2 + 1)).prod

/-- The ranges of each factor are exact, and the number of parameter sets is a double: a
whole number of at most 53 bits and zeros. -/
def RangesExact (ranges : List (RangeParam × RangeParam)) : Prop :=
  ∃ steps : Steps, List.Forall₂ (fun e n => e.1.WindowExact n.1 ∧ e.2.SignalExact n.2)
    ranges steps ∧ IsDouble steps.trials

/-! ## One range -/

namespace RangeParam

variable {r : RangeParam} {n i j : ℕ}

/-- How many steps fit into the range. -/
theorem Sendable.steps_nonneg (h : r.Sendable) : 0 ≤ ⌊(r.max - r.min) / r.step⌋ :=
  Int.floor_nonneg.mpr (div_nonneg (sub_nonneg.mpr h.ordered) h.step_pos.le)

/-- So many steps fit in, and one more value than steps. -/
theorem length_values (r : RangeParam) :
    r.values.length = ⌊(r.max - r.min) / r.step⌋.toNat + 1 :=
  length_progression r.min r.step _

/-- **What the values are**: whole steps from the lower end, none above the upper end. -/
theorem Sendable.mem_values (h : r.Sendable) {x : ℚ} :
    x ∈ r.values ↔ ∃ i : ℕ, x = r.min + i * r.step ∧ x ≤ r.max := by
  have hle (i : ℕ) : i < ⌊(r.max - r.min) / r.step⌋.toNat + 1 ↔ r.min + i * r.step ≤ r.max := by
    rw [Nat.lt_succ_iff, ← Nat.cast_le (α := ℤ), Int.toNat_of_nonneg h.steps_nonneg,
      Int.le_floor, Int.cast_natCast, le_div_iff₀ h.step_pos, le_sub_iff_add_le']
  rw [values, mem_progression]
  constructor
  · rintro ⟨i, hi, rfl⟩
    exact ⟨i, rfl, (hle i).mp hi⟩
  · rintro ⟨i, rfl, hi⟩
    exact ⟨i, (hle i).mpr hi, rfl⟩

/-- There is no second value when the upper end is less than a step away. -/
theorem Sendable.steps_eq_zero (h : r.Sendable) :
    ⌊(r.max - r.min) / r.step⌋.toNat = 0 ↔ r.max < r.min + r.step := by
  rw [Int.toNat_eq_zero, ← Int.lt_add_one_iff, Int.floor_lt, zero_add, Int.cast_one,
    div_lt_one h.step_pos, sub_lt_iff_lt_add']

/-! ### Signals -/

/-- A step of one or more keeps its whole part. -/
theorem one_le_trunc (h : 1 ≤ r.step) : 1 ≤ Python.trunc r.step :=
  Python.le_trunc (by exact_mod_cast h)

/-- The windows are the progression from the truncated lower end on, with the truncated
step. -/
theorem toWindows_eq (hle : r.min ≤ r.max) (h : 1 ≤ r.step) :
    r.toWindows = .ok (progression (Python.trunc r.min) (Python.trunc r.step)
      (((Python.trunc r.max - Python.trunc r.min) / Python.trunc r.step).toNat + 1)) := by
  have hstep := one_le_trunc h
  have hspan : 0 ≤ (Python.trunc r.max - Python.trunc r.min) / Python.trunc r.step :=
    Int.ediv_nonneg (sub_nonneg.mpr (Python.trunc_mono hle)) (by omega)
  have hcount : (Python.trunc r.max + 1 - Python.trunc r.min + Python.trunc r.step - 1) /
      Python.trunc r.step = (Python.trunc r.max - Python.trunc r.min) / Python.trunc r.step + 1 := by
    rw [← Int.add_mul_ediv_right _ 1 (by omega)]
    congr 1
    ring
  rw [toWindows, if_neg (by omega), Python.range, if_pos (by omega), hcount,
    Int.toNat_add hspan zero_le_one]
  rfl

/-- A progression of whole numbers is one of rationals. -/
theorem map_progression (a d : ℤ) (n : ℕ) : (progression a d n).map (fun w : ℤ => (w : ℚ)) =
    progression (a : ℚ) d n := by
  simp [progression]

/-- The first window that is left out, in whole numbers. -/
theorem span_lt_iff {a b d : ℤ} {n : ℕ} (hd : 0 < d) :
    ((b - a) / d).toNat ≤ n ↔ b < a + (n + 1) * d := by
  rw [Int.toNat_le, ← Int.lt_add_one_iff, Int.ediv_lt_iff_lt_mul hd, sub_lt_iff_lt_add']

/-- The steps that fit into a range of whole numbers fit in without the fraction of its
upper end. -/
theorem steps_le (h : 1 ≤ r.step) (hmin : (Python.trunc r.min : ℚ) = r.min)
    (hstep : (Python.trunc r.step : ℚ) = r.step) :
    ⌊(r.max - r.min) / r.step⌋ ≤
      (Python.trunc r.max - Python.trunc r.min) / Python.trunc r.step := by
  have hfloor : ⌊(r.max - r.min) / r.step⌋ * r.step ≤ r.max - r.min :=
    (le_div_iff₀ (zero_lt_one.trans_le h)).mp (Int.floor_le _)
  have hlast : ((Python.trunc r.min + ⌊(r.max - r.min) / r.step⌋ * Python.trunc r.step : ℤ) : ℚ) ≤
      r.max := by
    push_cast
    rw [hmin, hstep]
    linarith
  rw [Int.le_ediv_iff_mul_le (Int.lt_of_lt_of_le one_pos (one_le_trunc h))]
  exact le_sub_iff_add_le'.mpr (Python.le_trunc hlast)

/-- The windows of a range, as many as it has values. -/
theorem WindowExact.toWindows (h : r.WindowExact n) (hle : r.min ≤ r.max) :
    ∃ ws, r.toWindows = .ok ws ∧ ws.map (fun w : ℤ => (w : ℚ)) = r.values := by
  have hone := h.one_le_step
  have hn : ⌊(r.max - r.min) / r.step⌋.toNat = n := by rw [h.steps, Int.toNat_natCast]
  have hspan := (span_lt_iff (Int.lt_of_lt_of_le one_pos (one_le_trunc hone))).mpr h.stop
  have hd := h.step
  rw [← Sendable.steps_eq_zero ⟨hle, zero_lt_one.trans_le hone⟩, hn] at hd
  have hcount : ((Python.trunc r.max - Python.trunc r.min) / Python.trunc r.step).toNat = n := by
    refine hspan.antisymm ?_
    rcases hd with hzero | hd
    · omega
    · have hsteps := steps_le hone h.start hd
      rw [h.steps] at hsteps
      omega
  refine ⟨_, toWindows_eq hle hone, ?_⟩
  rw [map_progression, values, progression_eq_iff, hcount, hn]
  exact ⟨rfl, h.start, hd⟩

end RangeParam

/-! ## The search space of a request -/

namespace SearchSpace

variable {F : Type}

/-- Numbers that are written alike are the same. -/
theorem toString_nat_inj {i j : ℕ} (h : toString i = toString j) : i = j :=
  Python.toDigits_inj (String.ofList_injective h)

theorem windowKey_inj {i j : ℕ} (h : windowKey i = windowKey j) : i = j :=
  toString_nat_inj ((String.append_right_inj _).mp h)

theorem signalKey_inj {i j : ℕ} (h : signalKey i = signalKey j) : i = j :=
  toString_nat_inj ((String.append_right_inj _).mp h)

theorem windowKey_ne_signalKey (i j : ℕ) : windowKey i ≠ signalKey j := by
  intro h
  have hlist : "window_".toList ++ (toString i).toList = "signal_".toList ++ (toString j).toList := by
    rw [← String.toList_append, ← String.toList_append]
    exact congrArg String.toList h
  simp at hlist

/-- Each axis is found under its name. -/
theorem lookup_axes (n : ℕ) (factors : List (List ℤ × List F)) {i : ℕ}
    {f : List ℤ × List F} (hf : factors[i]? = some f) :
    (axes n factors).lookup (windowKey (n + i)) = some (.windows f.1) ∧
      (axes n factors).lookup (signalKey (n + i)) = some (.signals f.2) := by
  induction factors generalizing n i with
  | nil => cases hf
  | cons g factors ih =>
    obtain ⟨windows, signals⟩ := g
    cases i with
    | zero =>
      cases hf
      have hne := (windowKey_ne_signalKey n n).symm
      simp [axes, List.lookup_cons, beq_eq_false_iff_ne.mpr hne]
    | succ i =>
      have hw : (windowKey (n + (i + 1)) == windowKey n) = false :=
        beq_eq_false_iff_ne.mpr fun h => by have := windowKey_inj h; omega
      have hs : (signalKey (n + (i + 1)) == signalKey n) = false :=
        beq_eq_false_iff_ne.mpr fun h => by have := signalKey_inj h; omega
      have hws := beq_eq_false_iff_ne.mpr (windowKey_ne_signalKey (n + (i + 1)) n)
      have hsw := beq_eq_false_iff_ne.mpr (windowKey_ne_signalKey n (n + (i + 1))).symm
      rw [axes, List.lookup_cons, hw, List.lookup_cons, hws, List.lookup_cons, hsw,
        List.lookup_cons, hs, ← Nat.add_assoc, Nat.add_right_comm]
      exact ih (n + 1) hf

/-- One factor has as many sets as windows times signals. -/
theorem total_single (windowValues : List ℤ) (signalValues : List F) :
    (single windowValues signalValues).total = .ok (windowValues.length * signalValues.length) :=
  rfl

/-- **The size of a search over several factors** is the product of those of its axes. A search
over one factor keeps its axes in another form, hence the condition. -/
theorem total_multi {factors : List (List ℤ × List F)} (h : factors.length ≠ 1) :
    (SearchSpace.mk (axes 0 factors) (.perFactor (factors.map Prod.fst)) factors.length).total =
      .ok (factors.map fun f => f.1.length * f.2.length).prod := by
  rw [total, if_neg h]
  refine bind_eq_ok.mpr ⟨factors.map fun f => f.1.length * f.2.length, ?_, rfl⟩
  rw [mapM_eq_ok, List.forall₂_iff_get]
  refine ⟨by rw [List.length_range, List.length_map], fun i hi _ => ?_⟩
  rw [List.length_range] at hi
  obtain ⟨hw, hs⟩ := lookup_axes 0 factors (List.getElem?_eq_getElem hi)
  rw [Nat.zero_add] at hw hs
  simp [axis, hw, hs, AxisValues.length, ok_bind]

end SearchSpace

/-! ## The form's product -/

namespace Steps

/-- The product that the form computes. -/
def product (steps : Steps) (acc : ExtRat) : ExtRat :=
  steps.foldl (fun acc n => mul (mul acc (.fin (n.1 + 1 : ℕ))) (.fin (n.2 + 1 : ℕ))) acc

end Steps

section

variable {F : Type} [NpFloat F] {ranges : List (RangeParam × RangeParam)} {steps : Steps}

/-- The ranges of each factor have so many steps. -/
abbrev HasSteps (ranges : List (RangeParam × RangeParam)) (steps : Steps) : Prop :=
  List.Forall₂ (fun e n => e.1.WindowExact n.1 ∧ e.2.SignalExact n.2) ranges steps

/-- Ranges that have steps for each factor are exact. -/
theorem HasSteps.exact (h : HasSteps ranges steps) :
    ∀ e ∈ ranges, (∃ n, e.1.WindowExact n) ∧ ∃ n, e.2.SignalExact n := by
  induction h with
  | nil => exact fun e he => absurd he List.not_mem_nil
  | cons hexact _ ih => exact List.forall_mem_cons.mpr ⟨⟨⟨_, hexact.1⟩, _, hexact.2⟩, ih⟩

end

/-! ## A form as it is sent -/

namespace ParamGrid

/-- A search over Bollinger bands, the windows of the form's defaults, and these signals. -/
def request (signals : RangeParam) : OptimizeRequest where
  symbol := "btcusdt.crypto"
  start := "2024-01-01"
  stop := "2024-12-31"
  tradingPeriod := 365
  dataSource := "bybit"
  factors := [{ indicator := "get_bollinger_band", strategy := "momentum" }]
  namesSource := bybit_ne_empty
  hasFactor := List.cons_ne_nil _ _
  tmIntervalId := 1
  ranges := [(⟨5, 100, 5⟩, signals)]
  hasRanges := rfl

/-- Signals that end where they should. -/
def whole : RangeParam := ⟨1 / 4, 5 / 2, 1 / 4⟩

/-- Signals up to a number of tenths, a tenth apart. -/
def tenths (n : ℕ) : RangeParam := ⟨0, rounded (n / 10), rounded (1 / 10)⟩

/-- Up to one, a tenth apart, both sides have eleven values: the quotient, a little less than
ten, is rounded to ten. -/
example : (tenths 10).SignalExact 10 :=
  ⟨by decide +kernel, by decide +kernel, ⟨10, by decide +kernel, by decide +kernel⟩,
    by decide +kernel, by decide +kernel⟩

end ParamGrid
