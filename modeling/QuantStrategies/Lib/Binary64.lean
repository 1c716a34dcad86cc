import Mathlib.Algebra.Order.Archimedean.Basic
import Mathlib.Algebra.Order.Field.Power
import Mathlib.Algebra.Order.Round
import Mathlib.Data.Int.Log
import Mathlib.Data.Nat.Factorization.Basic
import Mathlib.Tactic.Linarith
import QuantStrategies.Lib.Ieee

/-!
# Rounding to doubles

Arithmetic on doubles is exact arithmetic followed by rounding. A double is a whole
multiple of a power of two, the multiple has 53 bits at most, and the power is not
below `2 ^ (-1074)`. What lies between two doubles goes to the nearer one, and to the
even one of two that are equally near. What is too large goes to an infinity.

The exact results are those of `ExtRat`. What is proved here of rounding is that it
keeps the order, that it leaves a double as it is, and how far it moves what is not one.
Together they say when the rounded quotient of two whole numbers has the whole part of
the exact one.

Addition, multiplication and division are one definition each: the exact result, rounded. An
operation on doubles whose exact result is a double is therefore exact (`add_of_isDouble`
and its kind), which is how a computation is shown to have rounded nothing.
-/

namespace Binary64

/-! ## The nearest whole number -/

/-- The nearest whole number, and the even one of two that are equally near. -/
def nearestEven (q : ℚ) : ℤ :=
  if 2 * (q - ⌊q⌋) < 1 ∨ (2 * (q - ⌊q⌋) = 1 ∧ ⌊q⌋ % 2 = 0) then ⌊q⌋ else ⌊q⌋ + 1

/-- Half and a half go to the even one. -/
example : nearestEven (1 / 2) = 0 ∧ nearestEven (3 / 2) = 2 ∧ nearestEven (-1 / 2) = 0 := by
  decide +kernel

variable {p q : ℚ} {z m k : ℤ}

/-- The nearest whole number is not below the whole part. -/
theorem floor_le_nearestEven (q : ℚ) : ⌊q⌋ ≤ nearestEven q := by
  unfold nearestEven
  split <;> omega

theorem nearestEven_le_floor_add_one (q : ℚ) : nearestEven q ≤ ⌊q⌋ + 1 := by
  unfold nearestEven
  split <;> omega

/-- A whole number is its own nearest. -/
@[simp] theorem nearestEven_intCast (z : ℤ) : nearestEven z = z := by
  rw [nearestEven, Int.floor_intCast, sub_self, mul_zero, if_pos (.inl zero_lt_one)]

/-- The nearest whole number is no further than a half. -/
theorem abs_nearestEven_sub_le (q : ℚ) : |nearestEven q - q| ≤ 1 / 2 := by
  have hfloor := Int.floor_le q
  have hlt := Int.lt_floor_add_one q
  unfold nearestEven
  split
  · next h =>
    rw [abs_le]
    rcases h with h | ⟨h, -⟩ <;> constructor <;> linarith
  · next h =>
    have hhalf : 1 ≤ 2 * (q - ⌊q⌋) := not_lt.mp fun h' => h (.inl h')
    rw [abs_le]
    push_cast
    constructor <;> linarith

/-- The nearest whole number keeps the order. -/
theorem nearestEven_mono {p q : ℚ} (hpq : p ≤ q) : nearestEven p ≤ nearestEven q := by
  rcases (Int.floor_mono hpq).lt_or_eq with hlt | heq
  · exact (nearestEven_le_floor_add_one p).trans
      ((Int.add_one_le_iff.mpr hlt).trans (floor_le_nearestEven q))
  -- between the same two whole numbers, the greater one goes down only if the other does
  · unfold nearestEven
    rw [heq]
    split
    · split <;> omega
    · next hp =>
      rw [if_neg]
      intro hq
      rcases hq with hq | ⟨hq, heven⟩
      · exact hp (.inl (by linarith))
      · rcases hpq.lt_or_eq with hlt | rfl
        · exact hp (.inl (by linarith))
        · exact hp (.inr ⟨hq, heven⟩)

/-- A whole number below stays below. -/
theorem le_nearestEven (h : (z : ℚ) ≤ q) : z ≤ nearestEven q := by
  rw [← nearestEven_intCast z]
  exact nearestEven_mono h

theorem nearestEven_le (h : q ≤ z) : nearestEven q ≤ z := by
  rw [← nearestEven_intCast z]
  exact nearestEven_mono h

/-! ## The nearest double -/

/-- The exponent of the unit that a number is rounded to: 53 bits are kept. -/
def exponent (q : ℚ) : ℤ := max (Int.log 2 |q| - 52) (-1074)

/-- The number of units. -/
def significand (q : ℚ) : ℤ := nearestEven (q / 2 ^ exponent q)

/-- The nearest double, when nothing is too large for one. -/
def rounded (q : ℚ) : ℚ := significand q * 2 ^ exponent q

/-- A tenth is not a double, and three times the nearest one is rounded away from three
tenths. -/
example : rounded (1 / 10) = 3602879701896397 / 2 ^ 55 ∧
    rounded (3 * rounded (1 / 10)) ≠ rounded (3 / 10) := by
  decide +kernel

/-- A power of two is positive, whatever the exponent. -/
theorem unit_pos (k : ℤ) : (0 : ℚ) < 2 ^ k := zpow_pos two_pos k

/-- Powers of two with two exponents, one after the other. -/
theorem unit_add (k l : ℤ) : (2 : ℚ) ^ (k + l) = 2 ^ k * 2 ^ l := zpow_add₀ two_ne_zero k l

/-- A unit is twice the next smaller one. -/
theorem two_mul_unit (k : ℤ) : (2 : ℚ) ^ k = 2 * 2 ^ (k - 1) := by
  rw [← zpow_one_add₀ two_ne_zero, add_sub_cancel]

/-- A multiple of a unit is one of any smaller unit. -/
theorem exists_multiple {k l : ℤ} (h : k ≤ l) (m : ℤ) : ∃ n : ℤ, (m : ℚ) * 2 ^ l = n * 2 ^ k := by
  obtain ⟨d, rfl⟩ := Int.le.dest h
  refine ⟨m * 2 ^ d, ?_⟩
  rw [unit_add, zpow_natCast]
  push_cast
  ring

/-- A number that is small enough has a small exponent, as long as it is not below the smallest
that there is. -/
theorem exponent_le (hq : q ≠ 0) (hk : -1074 ≤ k) (h : |q| < 2 ^ (k + 53)) : exponent q ≤ k := by
  refine max_le ?_ hk
  have hlog := (Int.lt_zpow_iff_log_lt (b := 2) one_lt_two (abs_pos.mpr hq)).mp
    (by exact_mod_cast h)
  omega

/-- The significand of a number has 53 bits. -/
theorem abs_lt_unit (q : ℚ) : |q| < 2 ^ (exponent q + 53) := by
  have hlog : |q| < (2 : ℚ) ^ (Int.log 2 |q| + 1) := by
    exact_mod_cast Int.lt_zpow_succ_log_self (b := 2) one_lt_two |q|
  have hle : Int.log 2 |q| + 1 ≤ exponent q + 53 := by
    have := le_max_left (Int.log 2 |q| - 52) (-1074)
    unfold exponent
    omega
  exact hlog.trans_le (zpow_le_zpow_right₀ one_le_two hle)

/-- Where the unit is not the smallest one, 53 bits are needed. -/
theorem unit_le_abs (hq : q ≠ 0) (h : -1074 < exponent q) : 2 ^ (exponent q + 52) ≤ |q| := by
  have hlog : (2 : ℚ) ^ Int.log 2 |q| ≤ |q| := by
    exact_mod_cast Int.zpow_log_le_self (b := 2) one_lt_two (abs_pos.mpr hq)
  have heq : exponent q = Int.log 2 |q| - 52 :=
    max_eq_left (le_of_lt ((lt_max_iff.mp h).resolve_right (lt_irrefl _)))
  rwa [heq, sub_add_cancel]

/-- Rounding does not lead past a multiple of a unit that is no smaller than its own. -/
theorem rounded_le (hk : exponent q ≤ k) (h : q ≤ m * 2 ^ k) : rounded q ≤ m * 2 ^ k := by
  obtain ⟨n, hn⟩ := exists_multiple hk m
  rw [hn] at h ⊢
  have hle : nearestEven (q / 2 ^ exponent q) ≤ n :=
    nearestEven_le ((div_le_iff₀ (unit_pos _)).mpr h)
  exact mul_le_mul_of_nonneg_right (Int.cast_le.mpr hle) (unit_pos _).le

/-- A multiple of a unit that rounding does not split stays below. -/
theorem le_rounded (hk : exponent q ≤ k) (h : m * 2 ^ k ≤ q) : m * 2 ^ k ≤ rounded q := by
  obtain ⟨n, hn⟩ := exists_multiple hk m
  rw [hn] at h ⊢
  have hle : n ≤ nearestEven (q / 2 ^ exponent q) :=
    le_nearestEven ((le_div_iff₀ (unit_pos _)).mpr h)
  exact mul_le_mul_of_nonneg_right (Int.cast_le.mpr hle) (unit_pos _).le

/-- Zero is not rounded. -/
@[simp] theorem rounded_zero : rounded 0 = 0 := by
  rw [rounded, significand, zero_div, ← Int.cast_zero, nearestEven_intCast, Int.cast_zero, zero_mul]

/-- What is not negative is not rounded to what is. -/
theorem rounded_nonneg (h : 0 ≤ q) : 0 ≤ rounded q := by
  have hle : ((0 : ℤ) : ℚ) * 2 ^ exponent q ≤ rounded q :=
    le_rounded le_rfl (by rwa [Int.cast_zero, zero_mul])
  rwa [Int.cast_zero, zero_mul] at hle

/-- What is not positive is not rounded to something positive. -/
theorem rounded_nonpos (h : q ≤ 0) : rounded q ≤ 0 := by
  have hle : rounded q ≤ ((0 : ℤ) : ℚ) * 2 ^ exponent q :=
    rounded_le le_rfl (by rwa [Int.cast_zero, zero_mul])
  rwa [Int.cast_zero, zero_mul] at hle

/-- A number that is further from zero has no smaller unit. -/
theorem exponent_mono (hp : p ≠ 0) (h : |p| ≤ |q|) : exponent p ≤ exponent q :=
  exponent_le hp (le_max_right _ _) (h.trans_lt (abs_lt_unit q))

/-- Rounding keeps the order of numbers that have one unit. -/
theorem rounded_le_rounded_of_eq (he : exponent p = exponent q) (h : p ≤ q) :
    rounded p ≤ rounded q := by
  unfold rounded significand
  rw [he]
  refine mul_le_mul_of_nonneg_right (Int.cast_le.mpr (nearestEven_mono ?_)) (unit_pos _).le
  exact div_le_div_of_nonneg_right h (unit_pos _).le

/-- Between numbers of different units there is a power of two. -/
theorem abs_le_power (hq : q ≠ 0) (h : exponent p < exponent q) :
    |p| ≤ 2 ^ (exponent q + 52) ∧ 2 ^ (exponent q + 52) ≤ |q| := by
  refine ⟨(abs_lt_unit p).le.trans (zpow_le_zpow_right₀ one_le_two (by omega)), ?_⟩
  exact unit_le_abs hq ((le_max_right _ _).trans_lt h)

/-- Rounding keeps the order of numbers that a multiple of a larger unit lies between. -/
theorem rounded_le_rounded_of_power (hp : exponent p ≤ k) (hq : exponent q ≤ k)
    (hpm : p ≤ m * 2 ^ k) (hmq : m * 2 ^ k ≤ q) : rounded p ≤ rounded q :=
  (rounded_le hp hpm).trans (le_rounded hq hmq)

/-- **Rounding keeps the order.** It is what a bound on a computed value rests on: a bound that is
a double itself survives the rounding. -/
theorem rounded_mono : Monotone rounded := by
  intro p q hpq
  rcases le_or_gt 0 p with hp | hp
  · rcases hp.eq_or_lt with rfl | hp
    · rw [rounded_zero]
      exact rounded_nonneg hpq
    have hq := hp.trans_le hpq
    have habs : |p| ≤ |q| := by rwa [abs_of_pos hp, abs_of_pos hq]
    rcases (exponent_mono hp.ne' habs).lt_or_eq with hlt | heq
    · obtain ⟨hbelow, habove⟩ := abs_le_power hq.ne' hlt
      rw [abs_of_pos hp] at hbelow
      rw [abs_of_pos hq] at habove
      exact rounded_le_rounded_of_power (m := 1) (k := exponent q + 52) (by omega) (by omega)
        (by rwa [Int.cast_one, one_mul]) (by rwa [Int.cast_one, one_mul])
    · exact rounded_le_rounded_of_eq heq hpq
  · rcases le_or_gt 0 q with hq | hq
    · exact (rounded_nonpos hp.le).trans (rounded_nonneg hq)
    -- of two negative numbers, the smaller one has the larger unit
    have habs : |q| ≤ |p| := by
      rw [abs_of_neg hq, abs_of_neg hp]
      exact neg_le_neg hpq
    rcases (exponent_mono hq.ne habs).lt_or_eq with hlt | heq
    · obtain ⟨habove, hbelow⟩ := abs_le_power hp.ne hlt
      rw [abs_of_neg hq] at habove
      rw [abs_of_neg hp] at hbelow
      exact rounded_le_rounded_of_power (m := -1) (k := exponent p + 52) (by omega) (by omega)
        (by rw [Int.cast_neg, Int.cast_one, neg_one_mul]; exact le_neg_of_le_neg hbelow)
        (by rw [Int.cast_neg, Int.cast_one, neg_one_mul]; exact neg_le_of_neg_le habove)
    · exact rounded_le_rounded_of_eq heq.symm hpq

/-! ## Doubles -/

/-- A whole multiple of a unit that is no smaller than its own is a double. -/
theorem rounded_of_exponent_le (h : exponent (m * 2 ^ k) ≤ k) :
    rounded (m * 2 ^ k) = m * 2 ^ k :=
  (rounded_le h le_rfl).antisymm (le_rounded h le_rfl)

/-- **What has 53 bits is a double.** Whole numbers up to `2 ^ 53`, and halves, quarters and so on
of them, are computed with exactly. -/
theorem rounded_scaled (hm : |m| ≤ 2 ^ 53) (hk : -1074 ≤ k) :
    rounded (m * 2 ^ k) = m * 2 ^ k := by
  have habs : |(m : ℚ) * 2 ^ k| = (|m| : ℤ) * 2 ^ k := by
    rw [abs_mul, abs_of_pos (unit_pos k), Int.cast_abs]
  by_cases hzero : m = 0
  · rw [hzero, Int.cast_zero, zero_mul, rounded_zero]
  have hne : (m : ℚ) * 2 ^ k ≠ 0 := mul_ne_zero (Int.cast_ne_zero.mpr hzero) (unit_pos k).ne'
  rcases hm.lt_or_eq with hlt | heq
  · refine rounded_of_exponent_le (exponent_le hne hk ?_)
    rw [habs, add_comm k, unit_add]
    exact mul_lt_mul_of_pos_right (by exact_mod_cast hlt) (unit_pos k)
  -- a number of 54 bits, the last of which is zero
  · obtain ⟨n, rfl⟩ : ∃ n, m = n * 2 := by
      rcases abs_choice m with h | h
      · exact ⟨2 ^ 52, by rw [← h, heq]; norm_num⟩
      · exact ⟨-2 ^ 52, by rw [← neg_neg m, ← h, heq]; norm_num⟩
    have hshift : ((n * 2 : ℤ) : ℚ) * 2 ^ k = n * 2 ^ (k + 1) := by
      rw [unit_add, zpow_one]
      push_cast
      ring
    rw [hshift] at hne habs ⊢
    refine rounded_of_exponent_le (exponent_le hne (by omega) ?_)
    rw [habs, heq, show k + 1 + 53 = 53 + 1 + k by ring, unit_add]
    exact mul_lt_mul_of_pos_right (by norm_num) (unit_pos k)

/-- A whole number of 53 bits is a double. -/
theorem rounded_intCast (h : |z| ≤ 2 ^ 53) : rounded z = z := by
  have hscaled := @rounded_scaled z 0 h (by norm_num)
  rwa [zpow_zero, mul_one] at hscaled

/-- Rounding moves a number by half a unit at most. -/
theorem abs_rounded_sub_le (q : ℚ) : |rounded q - q| ≤ 2 ^ exponent q / 2 := by
  have hpos := unit_pos (exponent q)
  have hq : q = q / 2 ^ exponent q * 2 ^ exponent q := (div_mul_cancel₀ q hpos.ne').symm
  have hdiff : rounded q - q =
      (nearestEven (q / 2 ^ exponent q) - q / 2 ^ exponent q) * 2 ^ exponent q := by
    rw [sub_mul, ← hq]
    rfl
  have hhalf : (2 : ℚ) ^ exponent q / 2 = 1 / 2 * 2 ^ exponent q := by ring
  rw [hdiff, abs_mul, abs_of_pos hpos, hhalf]
  exact mul_le_mul_of_nonneg_right (abs_nearestEven_sub_le _) hpos.le

/-- Rounding moves a number by the `2 ^ 53`-th part of itself at most, or by half of the
smallest unit. -/
theorem abs_rounded_sub_le_max (q : ℚ) :
    |rounded q - q| ≤ max (|q| / 2 ^ 53) (2 ^ (-1075 : ℤ)) := by
  by_cases hq : q = 0
  · rw [hq, rounded_zero, sub_zero, abs_zero]
    exact le_max_of_le_right (unit_pos _).le
  refine (abs_rounded_sub_le q).trans ?_
  rcases (le_max_right (Int.log 2 |q| - 52) (-1074)).eq_or_lt with hlow | hlow
  · refine le_max_of_le_right (le_of_eq ?_)
    rw [show exponent q = -1074 from hlow.symm, div_eq_iff two_ne_zero, ← zpow_add_one₀ two_ne_zero]
    norm_num
  · refine le_max_of_le_left ?_
    have hunit := unit_le_abs hq hlow
    rw [unit_add, show ((52 : ℤ)) = ((52 : ℕ) : ℤ) from rfl, zpow_natCast] at hunit
    rw [le_div_iff₀ (by norm_num)]
    linarith

/-- The quotient of whole numbers is rounded by less than the smallest step between
quotients that have its divisor. -/
theorem abs_rounded_div_sub_lt {a b : ℤ} (ha : |a| < 2 ^ 53) (hb : 0 < b) (hb' : b ≤ 2 ^ 53) :
    |rounded (a / b) - a / b| < 1 / b := by
  have hpos : (0 : ℚ) < b := Int.cast_pos.mpr hb
  refine (abs_rounded_sub_le_max _).trans_lt (max_lt ?_ ?_)
  · rw [abs_div, abs_of_pos hpos, div_right_comm, div_lt_div_iff_of_pos_right hpos, ← Int.cast_abs,
      div_lt_one (by norm_num)]
    exact_mod_cast ha
  · have hle : (b : ℚ) ≤ 2 ^ (53 : ℤ) := by exact_mod_cast hb'
    rw [lt_div_iff₀ hpos]
    refine (mul_le_mul_of_nonneg_left hle (unit_pos _).le).trans_lt ?_
    rw [← unit_add]
    exact zpow_lt_one_of_neg₀ one_lt_two (by norm_num)

section Quotient

variable {a b : ℤ}

/-- A quotient of whole numbers is not larger than its dividend. -/
theorem abs_div_le (hb : 0 < b) : |(a : ℚ) / b| ≤ (|a| : ℤ) := by
  rw [abs_div, abs_of_pos (Int.cast_pos.mpr hb), Int.cast_abs]
  exact div_le_self (abs_nonneg _) (by exact_mod_cast hb)

/-- **A rounded quotient has the whole part of the exact one.** The quotient of two whole numbers
of this size stays at least `1 / b` below the next whole number, and rounding adds less than that.
-/
theorem floor_rounded_div (ha : |a| < 2 ^ 53) (hb : 0 < b) (hb' : b ≤ 2 ^ 53) :
    ⌊rounded ((a : ℚ) / b)⌋ = ⌊(a : ℚ) / b⌋ := by
  have hpos : (0 : ℚ) < b := Int.cast_pos.mpr hb
  have hwhole : |⌊(a : ℚ) / b⌋| ≤ 2 ^ 53 := by
    obtain ⟨hlow, hhigh⟩ := abs_le.mp (abs_div_le (a := a) hb)
    rw [abs_le]
    constructor
    · exact Int.le_floor.mpr ((by exact_mod_cast neg_le_neg ha.le : _ ≤ _).trans hlow)
    · exact Int.cast_le.mp ((Int.floor_le _).trans (hhigh.trans (by exact_mod_cast ha.le)))
  rw [Int.floor_eq_iff]
  constructor
  · rw [← rounded_intCast hwhole]
    exact rounded_mono (Int.floor_le _)
  -- the next whole number is a step of the quotients away, at least
  · have hnext : (a : ℚ) / b + 1 / b ≤ ⌊(a : ℚ) / b⌋ + 1 := by
      have hlt := Int.lt_floor_add_one ((a : ℚ) / b)
      rw [div_lt_iff₀ hpos] at hlt
      rw [← add_div, div_le_iff₀ hpos]
      exact_mod_cast Int.add_one_le_iff.mpr (by exact_mod_cast hlt)
    have hnear := abs_lt.mp (abs_rounded_div_sub_lt ha hb hb')
    linarith [hnear.2]

/-- The same of the whole number above. -/
theorem ceil_rounded_div (ha : |a| < 2 ^ 53) (hb : 0 < b) (hb' : b ≤ 2 ^ 53) :
    ⌈rounded ((a : ℚ) / b)⌉ = ⌈(a : ℚ) / b⌉ := by
  have hpos : (0 : ℚ) < b := Int.cast_pos.mpr hb
  have hwhole : |⌈(a : ℚ) / b⌉| ≤ 2 ^ 53 := by
    obtain ⟨hlow, hhigh⟩ := abs_le.mp (abs_div_le (a := a) hb)
    rw [abs_le]
    constructor
    · exact Int.cast_le.mp ((by exact_mod_cast neg_le_neg ha.le : _ ≤ _).trans
        (hlow.trans (Int.le_ceil _)))
    · exact Int.ceil_le.mpr (hhigh.trans (by exact_mod_cast ha.le))
  rw [Int.ceil_eq_iff]
  constructor
  · have hnext : (⌈(a : ℚ) / b⌉ : ℚ) - 1 + 1 / b ≤ a / b := by
      have hlt := Int.ceil_lt_add_one ((a : ℚ) / b)
      rw [← sub_lt_iff_lt_add, lt_div_iff₀ hpos] at hlt
      rw [← le_sub_iff_add_le, ← sub_div, le_div_iff₀ hpos, le_sub_iff_add_le]
      exact_mod_cast Int.add_one_le_iff.mpr (by exact_mod_cast hlt)
    have hnear := abs_lt.mp (abs_rounded_div_sub_lt ha hb hb')
    linarith [hnear.1]
  · rw [← rounded_intCast hwhole]
    exact rounded_mono (Int.le_ceil _)

end Quotient

/-! ## Arithmetic -/

open ExtRat

/-- The double of a number. -/
def ofRat (q : ℚ) : ExtRat :=
  if |rounded q| < 2 ^ 1024 then .fin (rounded q) else if q < 0 then .negInf else .inf

/-- The double of a result. -/
def round : ExtRat → ExtRat
  | .fin q => ofRat q
  | x => x

/-- `x + y` -/
def add (x y : ExtRat) : ExtRat := round (x + y)

/-- `x - y` -/
def sub (x y : ExtRat) : ExtRat := round (x - y)

/-- `x * y` -/
def mul (x y : ExtRat) : ExtRat := round (x * y)

/-- `x / y` -/
def div (x y : ExtRat) : ExtRat := round (x / y)

/-- A number that is a double, and so is not rounded. -/
def IsDouble (q : ℚ) : Prop := ofRat q = .fin q

instance (q : ℚ) : Decidable (IsDouble q) := inferInstanceAs (Decidable (_ = _))

/-- **What has 53 bits, and is not too large, is a double.** The bounds on the exponent keep it
clear of underflow and of overflow. -/
theorem isDouble_scaled (hm : |m| ≤ 2 ^ 53) (hk : -1074 ≤ k) (hk' : k ≤ 970) :
    IsDouble (m * 2 ^ k) := by
  have hlt : |(m : ℚ) * 2 ^ k| < 2 ^ 1024 := by
    have habs : ((|m| : ℤ) : ℚ) ≤ 2 ^ 53 := by exact_mod_cast hm
    have hpow : (2 : ℚ) ^ k ≤ 2 ^ (970 : ℤ) := zpow_le_zpow_right₀ one_le_two hk'
    rw [abs_mul, abs_of_pos (unit_pos k), ← Int.cast_abs]
    refine (mul_le_mul habs hpow (unit_pos k).le (by norm_num)).trans_lt ?_
    rw [← zpow_natCast, ← unit_add, ← zpow_natCast]
    exact zpow_lt_zpow_right₀ one_lt_two (by norm_num)
  rw [IsDouble, ofRat, rounded_scaled hm hk, if_pos hlt]

/-- A whole number of 53 bits is a double. -/
theorem isDouble_intCast (h : |z| ≤ 2 ^ 53) : IsDouble z := by
  have hscaled := @isDouble_scaled z 0 h (by norm_num) (by norm_num)
  rwa [zpow_zero, mul_one] at hscaled

/-- A sum that is a double is computed exactly. -/
theorem add_of_isDouble {x y z : ℚ} (h : x + y = z) (hz : IsDouble z) :
    add (.fin x) (.fin y) = .fin z := (congrArg ofRat h).trans hz

theorem sub_of_isDouble {x y z : ℚ} (h : x - y = z) (hz : IsDouble z) :
    sub (.fin x) (.fin y) = .fin z :=
  (congrArg ofRat ((sub_eq_add_neg x y).symm.trans h)).trans hz

theorem mul_of_isDouble {x y z : ℚ} (h : x * y = z) (hz : IsDouble z) :
    mul (.fin x) (.fin y) = .fin z := (congrArg ofRat h).trans hz

/-- So is a quotient, as long as the divisor is not zero. -/
theorem div_of_isDouble {x y z : ℚ} (hy : y ≠ 0) (h : x / y = z) (hz : IsDouble z) :
    div (.fin x) (.fin y) = .fin z := by
  show round (if y = 0 then _ else .fin (x / y)) = _
  rw [if_neg hy, h]
  exact hz

/-- A quotient that is one of whole numbers is rounded, and is not too large. -/
theorem div_eq_of_quotient {x y : ℚ} {a b : ℤ} (ha : |a| ≤ 2 ^ 53) (hb : 0 < b) (hy : y ≠ 0)
    (hxy : x / y = (a : ℚ) / b) : div (.fin x) (.fin y) = .fin (rounded ((a : ℚ) / b)) := by
  have hbound : |(a : ℚ) / b| ≤ (2 ^ 53 : ℤ) := (abs_div_le hb).trans (Int.cast_le.mpr ha)
  obtain ⟨hlow, hhigh⟩ := abs_le.mp hbound
  have htop : rounded ((2 ^ 53 : ℤ) : ℚ) = (2 ^ 53 : ℤ) := rounded_intCast (by norm_num)
  have hbottom : rounded ((-2 ^ 53 : ℤ) : ℚ) = (-2 ^ 53 : ℤ) := rounded_intCast (by norm_num)
  have hle : |rounded ((a : ℚ) / b)| ≤ (2 : ℚ) ^ 53 := by
    refine abs_le.mpr ⟨?_, ?_⟩
    · exact_mod_cast hbottom.symm.trans_le (rounded_mono (by exact_mod_cast hlow))
    · exact_mod_cast (rounded_mono hhigh).trans_eq htop
  show round (if y = 0 then _ else .fin (x / y)) = _
  rw [if_neg hy, hxy]
  exact if_pos (hle.trans_lt (pow_lt_pow_right₀ one_lt_two (by norm_num)))

section Order

variable {x y : ExtRat}

/-- Rounding a number never yields what is no number. -/
theorem ofRat_ne_nan (q : ℚ) : ofRat q ≠ .nan := by
  unfold ofRat
  split
  · exact nofun
  · split <;> exact nofun

theorem round_ne_nan (h : x ≠ .nan) : round x ≠ .nan := by
  cases x with
  | fin q => exact ofRat_ne_nan q
  | _ => exact h

/-- An infinity with a finite number added is an infinity. -/
theorem add_ne_nan (hx : x ≠ .nan) : add (.fin p) x ≠ .nan := by
  refine round_ne_nan ?_
  cases x with
  | nan => exact absurd rfl hx
  | _ => exact nofun

/-- And so is one with a finite number taken away. -/
theorem sub_ne_nan (hx : x ≠ .nan) : sub x (.fin p) ≠ .nan := by
  refine round_ne_nan ?_
  cases x with
  | nan => exact absurd rfl hx
  | _ => exact nofun

/-- A positive number times an infinity is that infinity. -/
theorem signed_of_pos (hp : 0 < p) : signed p = .inf := if_pos hp

/-- A negative one turns it round. -/
theorem signed_neg_of_pos (hp : 0 < p) : signed (-p) = .negInf := by
  rw [signed, if_neg (not_lt.mpr (neg_nonpos.mpr hp.le)), if_pos (neg_neg_iff_pos.mpr hp)]

/-- A product with a number above zero is a number. -/
theorem mul_ne_nan (hp : 0 < p) (hx : x ≠ .nan) : mul (.fin p) x ≠ .nan := by
  refine round_ne_nan ?_
  cases x with
  | fin q => exact nofun
  | inf => exact (signed_of_pos hp).trans_ne nofun
  | negInf => exact (signed_neg_of_pos hp).trans_ne nofun
  | nan => exact absurd rfl hx

end Order

end Binary64
