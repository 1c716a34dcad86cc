import QuantStrategies.Strategy.ParamGrid

/-!
# Ranges that are not rounded

Whether the form and the engine count the values of a range alike is in general a question
about doubles: it takes the quotients of the range, and where rounding leads them. On the
ranges that people write down it is a question about the range.

A quarter, a half and a whole are powers of two. When the ends and the step of a range are
multiples of one power of two, sums and differences of a few of them are doubles, and the
quotients, while they are rounded, are quotients of whole numbers. Such a quotient is not
rounded across a whole number, as the distance to one is at least what its divisor divides
one into. What is left of the condition is that at most half a step remains between the
last value and the upper end of the signals. Of windows that are whole numbers, nothing is
left of it.

The unit is a power of two `2 ^ k`, and `OnUnit r k a b c` says that the range goes from `a`
to `b` units in steps of `c`. Every sum and difference that the code computes is then of few
units, so a double, and the rounded quotient lies on the same side of each whole number as
the quotient itself. What remains is a statement about `(b - a) / c`.
-/

open NpFloat Binary64

/-! ## Ranges of units -/

namespace RangeParam

/-- The padding lets one more value through when more than half a step is left. -/
theorem ceil_add_half (x : ℚ) : ⌈x + 1 / 2⌉ = ⌊x⌋ + 1 ↔ Int.fract x ≤ 1 / 2 := by
  have hx := Int.floor_add_fract x
  have hpos := Int.fract_nonneg x
  rw [Int.ceil_eq_iff, Int.cast_add, Int.cast_one, add_sub_cancel_right]
  constructor
  · rintro ⟨-, h⟩
    linarith
  · intro h
    exact ⟨by linarith, by linarith⟩

/-- A range whose ends and step are so many units, of one power of two. There are not too
many of them, and the unit is neither too small nor too large for a double. -/
structure OnUnit (r : RangeParam) (k a b c : ℤ) : Prop where
  /-- The lower end, in units. -/
  min : r.min = a * 2 ^ k
  /-- The upper end. -/
  max : r.max = b * 2 ^ k
  /-- The step. -/
  step : r.step = c * 2 ^ k
  /-- The upper end is not below the lower one. -/
  ordered : a ≤ b
  /-- The step is above zero. -/
  step_pos : 0 < c
  /-- The lower end is not too far from zero for its sums to be doubles. -/
  abs_min : |a| ≤ 2 ^ 50
  /-- Nor is the upper end. -/
  abs_max : |b| ≤ 2 ^ 50
  /-- Nor is the step. -/
  step_le : c ≤ 2 ^ 50
  /-- The unit is not so small that half of it is no double. -/
  unit_ge : -1000 ≤ k
  /-- Nor so large that so many of them are none. -/
  unit_le : k ≤ 900

namespace OnUnit

variable {r : RangeParam} {k a b c : ℤ} {n i : ℕ} (h : r.OnUnit k a b c)

include h

/-- A range of units can be sent. -/
theorem sendable : r.Sendable := by
  refine ⟨?_, ?_⟩
  · rw [h.min, h.max]
    exact mul_le_mul_of_nonneg_right (Int.cast_le.mpr h.ordered) (unit_pos k).le
  · rw [h.step]
    exact mul_pos (Int.cast_pos.mpr h.step_pos) (unit_pos k)

theorem isDouble {m : ℤ} (hm : |m| ≤ 2 ^ 53) : IsDouble (m * 2 ^ k) :=
  isDouble_scaled hm (by have := h.unit_ge; omega) (by have := h.unit_le; omega)

/-- The span over the step is a quotient of whole numbers. -/
theorem quotient_eq : (r.max - r.min) / r.step = ((b - a : ℤ) : ℚ) / c := by
  rw [h.min, h.max, h.step, ← sub_mul, mul_div_mul_right _ _ (unit_pos k).ne', Int.cast_sub]

/-- Its span is a double, and is not rounded. -/
theorem sub_eq : sub (.fin r.max) (.fin r.min) = .fin ((b - a : ℤ) * 2 ^ k) := by
  obtain ⟨ha, ha'⟩ := abs_le.mp h.abs_min
  obtain ⟨hb, hb'⟩ := abs_le.mp h.abs_max
  refine sub_of_isDouble ?_ (h.isDouble (abs_le.mpr ⟨by omega, by omega⟩))
  rw [h.min, h.max, Int.cast_sub]
  ring

/-- Its step is no zero, so that nothing is divided by one. -/
theorem step_ne_zero : r.step ≠ 0 := h.sendable.step_pos.ne'

/-- The steps of the range are not too many to be counted. -/
theorem steps_le : 0 ≤ ⌊((b - a : ℤ) : ℚ) / c⌋ ∧ ⌊((b - a : ℤ) : ℚ) / c⌋ ≤ b - a := by
  have hnonneg : (0 : ℚ) ≤ (b - a : ℤ) := Int.cast_nonneg (sub_nonneg.mpr h.ordered)
  have hone : (1 : ℚ) ≤ c := by exact_mod_cast h.step_pos
  refine ⟨h.quotient_eq ▸ h.sendable.steps_nonneg, ?_⟩
  exact Int.cast_le.mp ((Int.floor_le _).trans (div_le_self hnonneg hone))

/-- **The form counts the steps of the range.** -/
theorem formCounts_iff : r.FormCounts n ↔ ⌊(r.max - r.min) / r.step⌋ = n := by
  obtain ⟨ha, ha'⟩ := abs_le.mp h.abs_min
  obtain ⟨hb, hb'⟩ := abs_le.mp h.abs_max
  obtain ⟨hnonneg, hle⟩ := h.steps_le
  have hc := h.step_pos
  have hc' := h.step_le
  have hquotient : div (.fin ((b - a : ℤ) * 2 ^ k)) (.fin r.step) =
      .fin (rounded (((b - a : ℤ) : ℚ) / c)) := by
    refine div_eq_of_quotient (abs_le.mpr ⟨by omega, by omega⟩) hc h.step_ne_zero ?_
    rw [h.step, mul_div_mul_right _ _ (unit_pos k).ne']
  have hnext : ofRat ((⌊rounded (((b - a : ℤ) : ℚ) / c)⌋ : ℚ) + 1) =
      .fin ((⌊((b - a : ℤ) : ℚ) / c⌋ + 1 : ℤ) : ℚ) := by
    rw [floor_rounded_div (abs_lt.mpr ⟨by omega, by omega⟩) hc (by omega), ← Int.cast_one,
      ← Int.cast_add]
    exact isDouble_intCast (abs_le.mpr ⟨by omega, by omega⟩)
  unfold FormCounts
  rw [h.sub_eq, hquotient, h.quotient_eq]
  constructor
  · rintro ⟨q, hq, hcount⟩
    cases hq
    rw [hnext, ExtRat.fin.injEq] at hcount
    have : ⌊((b - a : ℤ) : ℚ) / c⌋ + 1 = (n + 1 : ℕ) := by exact_mod_cast hcount
    omega
  · intro hn
    refine ⟨_, rfl, hnext.trans (congrArg ExtRat.fin ?_)⟩
    rw [hn]
    push_cast
    rfl

/-- The values of the range are not rounded, up to the one after the last. -/
theorem valueAt_eq (hi : i ≤ ⌊((b - a : ℤ) : ℚ) / c⌋ + 1) :
    r.valueAt i = .fin (r.min + i * r.step) := by
  obtain ⟨ha, ha'⟩ := abs_le.mp h.abs_min
  obtain ⟨hb, hb'⟩ := abs_le.mp h.abs_max
  obtain ⟨hnonneg, hle⟩ := h.steps_le
  have hc := h.step_pos
  have hc' := h.step_le
  have hfloor : ⌊((b - a : ℤ) : ℚ) / c⌋ * c ≤ b - a := by
    have hpos : (0 : ℚ) < c := Int.cast_pos.mpr hc
    exact_mod_cast (le_div_iff₀ hpos).mp (Int.floor_le (((b - a : ℤ) : ℚ) / c))
  have hic : (i : ℤ) * c ≤ b - a + c := by nlinarith
  have hic' : 0 ≤ (i : ℤ) * c := mul_nonneg (Int.natCast_nonneg i) hc.le
  have hposition : ofRat i = .fin i := by
    exact_mod_cast @isDouble_intCast i (abs_le.mpr ⟨by omega, by omega⟩)
  have hmul : mul (ofRat i) (.fin r.step) = .fin ((i * c : ℤ) * 2 ^ k) := by
    rw [hposition]
    refine mul_of_isDouble ?_ (h.isDouble (abs_le.mpr ⟨by omega, by omega⟩))
    rw [h.step]
    push_cast
    ring
  have hexact : r.min + i * r.step = (a + i * c : ℤ) * 2 ^ k := by
    rw [h.min, h.step]
    push_cast
    ring
  rw [RangeParam.valueAt, hmul, hexact]
  refine add_of_isDouble ?_ (h.isDouble (abs_le.mpr ⟨by omega, by omega⟩))
  rw [h.min]
  push_cast
  ring

/-- Half units, of which the padding adds some, are doubles as well. -/
theorem isDouble_half {m : ℤ} (hm : |m| ≤ 2 ^ 53) : IsDouble (m * 2 ^ (k - 1)) :=
  isDouble_scaled hm (by have := h.unit_ge; omega) (by have := h.unit_le; omega)

/-- Half a step is half a unit, so many times. -/
theorem padded_span : sub r.padded (.fin r.min) = .fin ((2 * (b - a) + c : ℤ) * 2 ^ (k - 1)) := by
  obtain ⟨ha, ha'⟩ := abs_le.mp h.abs_min
  obtain ⟨hb, hb'⟩ := abs_le.mp h.abs_max
  have hle := h.ordered
  have hc := h.step_pos
  have hc' := h.step_le
  have hunit := two_mul_unit k
  have hhalf : div (.fin r.step) (.fin 2) = .fin (c * 2 ^ (k - 1)) := by
    refine div_of_isDouble two_ne_zero ?_ (h.isDouble_half (abs_le.mpr ⟨by omega, by omega⟩))
    rw [h.step, hunit]
    ring
  have hpadded : r.padded = .fin ((2 * b + c : ℤ) * 2 ^ (k - 1)) := by
    rw [RangeParam.padded, hhalf]
    refine add_of_isDouble ?_ (h.isDouble_half (abs_le.mpr ⟨by omega, by omega⟩))
    rw [h.max, hunit]
    push_cast
    ring
  rw [hpadded]
  refine sub_of_isDouble ?_ (h.isDouble_half (abs_le.mpr ⟨by omega, by omega⟩))
  rw [h.min, hunit]
  push_cast
  ring

/-- The padded span over the step: half a step more than the span. -/
theorem padded_quotient : ((2 * (b - a) + c : ℤ) : ℚ) / (2 * c : ℤ) =
    (r.max - r.min) / r.step + 1 / 2 := by
  have hne : (c : ℚ) ≠ 0 := Int.cast_ne_zero.mpr h.step_pos.ne'
  rw [h.quotient_eq]
  push_cast
  field_simp

/-- The padded span over the step is the quotient of the span and the step, and a half. -/
theorem length_eq : Arange.length r.min r.padded r.step =
    .ok ⌈(r.max - r.min) / r.step + 1 / 2⌉ := by
  obtain ⟨ha, ha'⟩ := abs_le.mp h.abs_min
  obtain ⟨hb, hb'⟩ := abs_le.mp h.abs_max
  have hle := h.ordered
  have hc := h.step_pos
  have hc' := h.step_le
  have hratio : ((2 * (b - a) + c : ℤ) : ℚ) * 2 ^ (k - 1) / r.step =
      ((2 * (b - a) + c : ℤ) : ℚ) / (2 * c : ℤ) := by
    have hstep : r.step = (2 * c : ℤ) * 2 ^ (k - 1) := by
      rw [h.step, two_mul_unit]
      push_cast
      ring
    rw [hstep, mul_div_mul_right _ _ (unit_pos _).ne']
  have hdiv := div_eq_of_quotient (abs_le.mpr ⟨by omega, by omega⟩) (by omega) h.step_ne_zero hratio
  -- half a step, at least, is not rounded to nothing
  have hne : rounded (((2 * (b - a) + c : ℤ) : ℚ) / (2 * c : ℤ)) ≠ 0 := by
    have hhalf : rounded (1 / 2) = 1 / 2 := by decide +kernel
    have hpos : 0 ≤ (r.max - r.min) / r.step := Int.floor_nonneg.mp h.sendable.steps_nonneg
    have hmono := rounded_mono (show (1 : ℚ) / 2 ≤ ((2 * (b - a) + c : ℤ) : ℚ) / (2 * c : ℤ) by
      rw [h.padded_quotient]
      linarith)
    rw [hhalf] at hmono
    exact (one_half_pos.trans_le hmono).ne'
  have hceil := ceil_rounded_div (a := 2 * (b - a) + c) (b := 2 * c)
    (abs_lt.mpr ⟨by omega, by omega⟩) (by omega) (by omega)
  have hlt : ⌈(r.max - r.min) / r.step + 1 / 2⌉ < 2 ^ 60 := by
    have hsteps := h.steps_le.2
    rw [← h.quotient_eq] at hsteps
    have hsum := Int.ceil_add_le ((r.max - r.min) / r.step) (1 / 2)
    have hceil := Int.ceil_le_floor_add_one ((r.max - r.min) / r.step)
    have hone : ⌈(1 / 2 : ℚ)⌉ = 1 := by decide +kernel
    omega
  have hcount : Arange.ceiling ((2 * (b - a) + c : ℤ) * 2 ^ (k - 1)) r.step
      (rounded (((2 * (b - a) + c : ℤ) : ℚ) / (2 * c : ℤ))) =
        ⌈(r.max - r.min) / r.step + 1 / 2⌉ := by
    rw [Arange.ceiling, if_neg hne, hceil, h.padded_quotient]
  exact (Arange.length_eq h.padded_span hdiv (hcount ▸ hlt)).trans (congrArg Except.ok hcount)

/-- The difference of the first two values is the step. -/
theorem element_eq (i : ℕ) : Arange.element r.min r.step i =
    if i = 0 then .fin r.min else r.valueAt i := by
  obtain ⟨ha, ha'⟩ := abs_le.mp h.abs_min
  have hc := h.step_pos
  have hc' := h.step_le
  have hnext : add (.fin r.min) (.fin r.step) = .fin (r.min + r.step) := by
    refine add_of_isDouble rfl ?_
    have hsum : r.min + r.step = (a + c : ℤ) * 2 ^ k := by
      rw [h.min, h.step]
      push_cast
      ring
    rw [hsum]
    exact h.isDouble (abs_le.mpr ⟨by omega, by omega⟩)
  have hdouble : IsDouble r.step := by
    rw [h.step]
    exact h.isDouble (abs_le.mpr ⟨by omega, by omega⟩)
  have hdifference : sub (.fin (r.min + r.step)) (.fin r.min) = .fin r.step :=
    sub_of_isDouble (add_sub_cancel_left _ _) hdouble
  match i with
  | 0 => rfl
  | 1 =>
    have hone : mul (ofRat (1 : ℕ)) (.fin r.step) = .fin r.step := by
      have hone : ofRat ((1 : ℕ) : ℚ) = .fin 1 := by
        exact_mod_cast @isDouble_intCast 1 (by norm_num)
      rw [hone]
      exact mul_of_isDouble (one_mul _) hdouble
    rw [if_neg one_ne_zero, RangeParam.valueAt, hone]
    rfl
  | i + 2 =>
    rw [if_neg (Nat.succ_ne_zero _)]
    show add (.fin r.min) (mul (ofRat (i + 2 : ℕ))
      (sub (add (.fin r.min) (.fin r.step)) (.fin r.min))) = _
    rw [hnext, hdifference]
    rfl

/-- **Signals are expanded as asked for** when at most half a step is left at the upper end,
and not otherwise. -/
theorem signalExact_iff : (∃ n, r.SignalExact n) ↔ Int.fract ((r.max - r.min) / r.step) ≤ 1 / 2 := by
  have hsteps := h.steps_le
  rw [← ceil_add_half]
  constructor
  · rintro ⟨n, hexact⟩
    rw [h.formCounts_iff.mp hexact.form]
    have hlength := hexact.length
    rw [h.length_eq] at hlength
    exact Except.ok.inj hlength
  · intro hceil
    obtain ⟨n, hn⟩ := Int.eq_ofNat_of_zero_le h.sendable.steps_nonneg
    rw [h.quotient_eq] at hn
    have hvalue {i : ℕ} (hi : i ≤ n + 1) := h.valueAt_eq (i := i) (by omega)
    have hpos := h.sendable.step_pos
    have hfloor := Int.floor_eq_iff.mp (h.quotient_eq ▸ hn : ⌊(r.max - r.min) / r.step⌋ = (n : ℤ))
    rw [le_div_iff₀ hpos, div_lt_iff₀ hpos, Int.cast_natCast] at hfloor
    refine ⟨n, ⟨?_, ?_, ?_, ?_, ?_⟩⟩
    · rw [hvalue (Nat.le_succ n), ExtRat.le_eq_not_lt]
      exact congrArg not (decide_eq_false (not_lt.mpr (by linarith [hfloor.1])))
    · rw [hvalue le_rfl]
      refine decide_eq_true ?_
      push_cast
      linarith [hfloor.2]
    · rw [h.formCounts_iff, h.quotient_eq]
      exact hn
    · rw [h.length_eq, hceil, h.quotient_eq, hn]
    · intro i hi
      rw [h.element_eq]
      split
      · next hzero => rw [hzero, hvalue (Nat.zero_le _), Nat.cast_zero, zero_mul, add_zero]
      · rfl

omit h in
/-- **Windows are expanded as asked for** when the ends and the step are whole numbers. Nothing is
cut off by `int` then. -/
theorem windowExact (h : r.OnUnit 0 a b c) : ∃ n, r.WindowExact n := by
  have hpos := h.sendable.step_pos
  have hmin : r.min = a := by rw [h.min, zpow_zero, mul_one]
  have hmax : r.max = b := by rw [h.max, zpow_zero, mul_one]
  have hstep : r.step = c := by rw [h.step, zpow_zero, mul_one]
  obtain ⟨n, hn⟩ := Int.eq_ofNat_of_zero_le h.sendable.steps_nonneg
  have hfloor := (Int.floor_eq_iff.mp hn).2
  rw [div_lt_iff₀ hpos, hmin, hmax, hstep] at hfloor
  refine ⟨n, hn, ?_, ?_, .inr ?_, ?_, h.formCounts_iff.mpr hn⟩
  · rw [hmin, Python.trunc_intCast]
  · rw [hstep]
    exact_mod_cast h.step_pos
  · rw [hstep, Python.trunc_intCast]
  · rw [hmin, hmax, hstep, Python.trunc_intCast, Python.trunc_intCast, Python.trunc_intCast]
    have hlt : b - a < (n + 1) * c := by exact_mod_cast hfloor
    omega

end OnUnit

end RangeParam


/-! ## A request -/

section

variable {ranges : List (RangeParam × RangeParam)} {steps : Steps}

/-- The steps of a range. -/
def RangeParam.stepCount (r : RangeParam) : ℕ := ⌊(r.max - r.min) / r.step⌋.toNat

/-- The steps of each factor's ranges. -/
def stepsOf (ranges : List (RangeParam × RangeParam)) : Steps :=
  ranges.map fun e => (e.1.stepCount, e.2.stepCount)

/-- Windows are whole numbers, and signals are multiples of a power of two. -/
def OnUnits (ranges : List (RangeParam × RangeParam)) : Prop :=
  ∀ e ∈ ranges, (∃ a b c, e.1.OnUnit 0 a b c) ∧ ∃ k a b c, e.2.OnUnit k a b c

/-- The ranges of a request have the steps that they have. -/
theorem hasSteps_iff (h : OnUnits ranges) : HasSteps ranges steps ↔
    steps = stepsOf ranges ∧ ∀ e ∈ ranges, Int.fract ((e.2.max - e.2.min) / e.2.step) ≤ 1 / 2 := by
  induction ranges generalizing steps with
  | nil =>
    rw [HasSteps, List.forall₂_nil_left_iff]
    exact (and_iff_left fun e he => absurd he List.not_mem_nil).symm
  | cons e ranges ih =>
    obtain ⟨⟨⟨a, b, c, hw⟩, ⟨k, a', b', c', hs⟩⟩, h⟩ := List.forall_mem_cons.mp h
    have hwindows {n : ℕ} (hn : e.1.WindowExact n) : n = e.1.stepCount := by
      rw [RangeParam.stepCount, hn.steps, Int.toNat_natCast]
    have hsignals {n : ℕ} (hn : e.2.SignalExact n) : n = e.2.stepCount := by
      rw [RangeParam.stepCount, hs.formCounts_iff.mp hn.form, Int.toNat_natCast]
    rw [HasSteps, List.forall₂_cons_left_iff, List.forall_mem_cons, stepsOf, List.map_cons]
    constructor
    · rintro ⟨n, rest, ⟨hn, hm⟩, hrest, rfl⟩
      obtain ⟨rfl, hfract⟩ := (ih h).mp hrest
      refine ⟨?_, hs.signalExact_iff.mp ⟨_, hm⟩, hfract⟩
      rw [← hwindows hn, ← hsignals hm]
      rfl
    · rintro ⟨rfl, hfract, hrest⟩
      obtain ⟨n, hn⟩ := hw.windowExact
      obtain ⟨m, hm⟩ := hs.signalExact_iff.mpr hfract
      refine ⟨_, _, ⟨?_, ?_⟩, (ih h).mpr ⟨rfl, hrest⟩, rfl⟩
      · rwa [← hwindows hn]
      · rwa [← hsignals hm]

/-- **Client and server count alike on units** exactly when at most half a step is left at
the upper end of each signal range, as long as the number of parameter sets is a double. -/
theorem rangesExact_iff (h : OnUnits ranges) : RangesExact ranges ↔
    (∀ e ∈ ranges, Int.fract ((e.2.max - e.2.min) / e.2.step) ≤ 1 / 2) ∧
      IsDouble (stepsOf ranges).trials := by
  unfold RangesExact
  constructor
  · rintro ⟨steps, hsteps, hdouble⟩
    obtain ⟨rfl, hfract⟩ := (hasSteps_iff h).mp hsteps
    exact ⟨hfract, hdouble⟩
  · rintro ⟨hfract, hdouble⟩
    exact ⟨_, (hasSteps_iff h).mpr ⟨rfl, hfract⟩, hdouble⟩

end
