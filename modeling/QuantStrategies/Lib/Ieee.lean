import Mathlib.Algebra.Order.Ring.Rat
import QuantStrategies.Lib.Pandas

/-!
# What arithmetic promises

The numbers of numerical programs are a class that promises next to nothing of
its operations. `IeeeFloat` adds what IEEE arithmetic does promise, whatever it
rounds to: when an operation has no result, and that comparison is an order of
the numbers in which some may be level. The exact numbers keep these promises as
well.

Each rule names the one case in which the result is missing: an infinity taken from itself,
a zero times an infinity, a division of two zeros or of two infinities. Everything else is a
number, and whether it was rounded is nobody's business here.
-/

open NpFloat

/-- The rules of IEEE arithmetic for what is not a number, and for comparison. -/
class IeeeFloat (F : Type) extends NpFloat F where
  /-- A literal denotes a number. -/
  isNan_lit (q : ℚ) : isNan (lit q : F) = false
  /-- Zero is a literal. -/
  zero_eq : (0 : F) = lit 0
  /-- One is a literal. -/
  one_eq : (1 : F) = lit 1
  /-- No list is so long that its length is infinite. -/
  isInf_count (n : ℕ) : isInf (lit n : F) = false
  /-- A number up to one is finite. -/
  isInf_lit {q : ℚ} (hq : |q| ≤ 1) : isInf (lit q : F) = false
  /-- The length of a list that has elements is not zero. -/
  count_ne_zero (n : ℕ) : eq (lit (n + 1 : ℕ) : F) 0 = false
  /-- Infinities of opposite signs have no sum. -/
  isNan_add (x y : F) :
    isNan (x + y) = (isNan x || isNan y || (isInf x && isInf y && !eq x y))
  /-- Infinities of one sign have no difference. -/
  isNan_sub (x y : F) :
    isNan (x - y) = (isNan x || isNan y || (isInf x && isInf y && eq x y))
  /-- Zero times an infinity is not a number. -/
  isNan_mul (x y : F) :
    isNan (x * y) = (isNan x || isNan y || (eq x 0 && isInf y) || (isInf x && eq y 0))
  /-- Neither zeros nor infinities have a quotient. -/
  isNan_div (x y : F) :
    isNan (x / y) = (isNan x || isNan y || (eq x 0 && eq y 0) || (isInf x && isInf y))
  isNan_neg (x : F) : isNan (-x) = isNan x
  isNan_abs (x : F) : isNan (NpFloat.abs x) = isNan x
  /-- An infinity is a number: only what has no result is not. -/
  isNan_inf : isNan (inf : F) = false
  /-- What is not a number compares with nothing. -/
  lt_known {x y : F} (h : lt x y = true) : isNan x = false ∧ isNan y = false
  lt_asymm {x y : F} (h : lt x y = true) : lt y x = false
  /-- A number is on one side or the other of a gap. -/
  lt_or_lt {x y z : F} (h : lt x y = true) (hz : isNan z = false) :
    lt x z = true ∨ lt z y = true
  /-- A distance is above minus infinity. -/
  neg_inf_lt_abs {x : F} (h : isNan x = false) : lt (-inf) (NpFloat.abs x) = true
  eq_self {x : F} (h : isNan x = false) : eq x x = true

namespace IeeeFloat

variable {F : Type} [IeeeFloat F]

/-- The quotient of two counts is a number. -/
theorem isNan_ratio (k n : ℕ) : isNan (lit (k : ℚ) / lit ((n + 1 : ℕ) : ℚ) : F) = false := by
  rw [isNan_div, isNan_lit, isNan_lit, count_ne_zero, isInf_count]
  simp

end IeeeFloat

/-- What IEEE arithmetic also promises: of `<=`, and of what is taken from itself. -/
class IeeeOrder (F : Type) extends IeeeFloat F where
  le_eq {x y : F} (hx : isNan x = false) (hy : isNan y = false) : le x y = !lt y x
  sub_self {x : F} (hnan : isNan x = false) (hinf : isInf x = false) : x - x = 0
  /-- Zero is its own distance from zero. -/
  abs_zero : NpFloat.abs (0 : F) = 0

/-- What IEEE arithmetic promises of minus infinity: what is finite is above it. -/
class IeeeEnds (F : Type) extends IeeeFloat F where
  neg_inf_lt {x : F} (hnan : isNan x = false) (hinf : isInf x = false) : lt (-inf) x = true

theorem IeeeFloat.lt_irrefl {F : Type} [IeeeFloat F] (x : F) : lt x x = false := by
  by_contra h
  have hlt := Bool.eq_true_of_not_eq_false h
  rw [lt_asymm hlt] at hlt
  exact Bool.false_ne_true hlt

namespace ExtRat

/-- What is a number is one in any arithmetic. -/
theorem isNan_toFloat {F : Type} [IeeeFloat F] {x : ExtRat} (h : x ≠ nan) :
    NpFloat.isNan (toFloat x : F) = false := by
  cases x with
  | fin q => exact IeeeFloat.isNan_lit q
  | inf => exact IeeeFloat.isNan_inf
  | negInf => exact (IeeeFloat.isNan_neg _).trans IeeeFloat.isNan_inf
  | nan => exact absurd rfl h

/-- A sign times an infinity is missing for the sign of zero only. -/
theorem signed_eq_nan {q : ℚ} : signed q = nan ↔ q = 0 := by
  rw [signed]
  split_ifs with hpos hneg
  · exact iff_of_false nofun hpos.ne'
  · exact iff_of_false nofun hneg.ne
  · exact iff_of_true rfl (le_antisymm (not_lt.mp hpos) (not_lt.mp hneg))

/-- The same as a test: nothing but zero makes it missing. -/
theorem isNan_signed (q : ℚ) : isNan (signed q) = decide (q = 0) :=
  decide_eq_decide.mpr signed_eq_nan

/-- On finite numbers the comparison for equality is that of the rationals. -/
theorem eq_fin (p q : ℚ) : eq (fin p) (fin q) = decide (p = q) :=
  decide_eq_decide.mpr ⟨fun h => fin.inj h.1, fun h => ⟨congrArg fin h, nofun⟩⟩

/-- In particular with zero, which is what a division asks. -/
theorem eq_fin_zero (p : ℚ) : eq (fin p) (0 : ExtRat) = decide (p = 0) := eq_fin p 0

instance : IeeeFloat ExtRat where
  isNan_lit _ := rfl
  zero_eq := zero_eq_fin
  one_eq := one_eq_fin
  isInf_count _ := rfl
  isInf_lit _ := rfl
  count_ne_zero n := by
    show eq (fin ((n + 1 : ℕ) : ℚ)) 0 = false
    rw [eq_fin_zero]
    exact decide_eq_false (Nat.cast_ne_zero.mpr n.succ_ne_zero)
  isNan_add x y := by cases x <;> cases y <;> rfl
  isNan_sub x y := by cases x <;> cases y <;> rfl
  isNan_mul x y := by
    cases x with
    | nan => cases y <;> rfl
    | inf =>
      cases y with
      | fin q => exact (isNan_signed q).trans (by rw [eq_fin_zero]; rfl)
      | _ => rfl
    | negInf =>
      cases y with
      | fin q => exact (isNan_signed (-q)).trans (by simp [eq_fin_zero, NpFloat.isNan, isInf])
      | _ => rfl
    | fin p =>
      cases y with
      | nan => rfl
      | inf => exact (isNan_signed p).trans (by simp [eq_fin_zero, NpFloat.isNan, isInf])
      | negInf => exact (isNan_signed (-p)).trans (by simp [eq_fin_zero, NpFloat.isNan, isInf])
      | fin q =>
        show false = (false || false || (eq (fin p) 0 && false) || (false && eq (fin q) 0))
        rw [Bool.and_false]
        rfl
  isNan_div x y := by
    cases x with
    | nan => cases y <;> rfl
    | inf =>
      cases y with
      | fin q =>
        show decide ((if q < 0 then negInf else inf) = nan) = false
        split <;> rfl
      | _ => rfl
    | negInf =>
      cases y with
      | fin q =>
        show decide ((if q < 0 then inf else negInf) = nan) = false
        split <;> rfl
      | _ => rfl
    | fin p =>
      cases y with
      | fin q =>
        show isNan (if q = 0 then signed p else fin (p / q)) =
          (false || false || (eq (fin p) 0 && eq (fin q) 0) || (false && false))
        rw [eq_fin_zero, eq_fin_zero]
        split
        · next hq => simp [isNan_signed, hq]
        · next hq =>
          rw [decide_eq_false hq, Bool.and_false]
          rfl
      | nan => rfl
      | inf =>
        show false = (false || false || (eq (fin p) 0 && false) || (false && true))
        rw [Bool.and_false]
        rfl
      | negInf =>
        show false = (false || false || (eq (fin p) 0 && false) || (false && true))
        rw [Bool.and_false]
        rfl
  isNan_neg x := by cases x <;> rfl
  isNan_abs x := by cases x <;> rfl
  isNan_inf := rfl
  lt_known {x y} h := by
    cases x <;> cases y <;> first | exact ⟨rfl, rfl⟩ | cases h
  lt_asymm {x y} h := by
    cases x <;> cases y <;> first
      | rfl
      | cases h
      | exact decide_eq_false (not_lt.mpr (of_decide_eq_true h).le)
  lt_or_lt {x y z} h hz := by
    cases z with
    | nan => cases hz
    | inf => cases x <;> first | exact .inl rfl | cases h
    | negInf => cases y <;> first | exact .inr rfl | cases x <;> cases h
    | fin r =>
      cases x with
      | negInf => exact .inl rfl
      | fin p =>
        cases y with
        | inf => exact .inr rfl
        | fin q =>
          rcases lt_or_ge p r with hp | hp
          · exact .inl (decide_eq_true hp)
          · exact .inr (decide_eq_true (hp.trans_lt (of_decide_eq_true h)))
        | _ => cases h
      | _ => cases y <;> cases h
  neg_inf_lt_abs {x} h := by cases x <;> first | rfl | cases h
  eq_self {x} h := decide_eq_true ⟨rfl, of_decide_eq_false h⟩

/-- On finite numbers one comparison is the other one turned round, which it is not where a value
is missing. -/
theorem le_eq_not_lt (p q : ℚ) : NpFloat.le (fin p) (fin q) = !NpFloat.lt (fin q) (fin p) := by
  show (decide (p < q) || decide (fin p = fin q ∧ fin p ≠ nan)) = !decide (q < p)
  rcases lt_trichotomy p q with h | h | h
  · simp [h, h.le]
  · simp [h]
  · simp [h, h.le, h.ne']

instance : IeeeOrder ExtRat where
  le_eq {x y} hx hy := by
    cases x with
    | nan => cases hx
    | fin p =>
      cases y with
      | nan => cases hy
      | fin q => exact le_eq_not_lt p q
      | _ => rfl
    | _ =>
      cases y with
      | nan => cases hy
      | _ => rfl
  sub_self {x} hnan hinf := by
    cases x with
    | fin q => exact congrArg fin (add_neg_cancel q)
    | nan => cases hnan
    | _ => cases hinf
  abs_zero := rfl

instance : IeeeEnds ExtRat where
  neg_inf_lt {x} hnan hinf := by
    cases x with
    | fin q => rfl
    | nan => cases hnan
    | _ => cases hinf

end ExtRat
