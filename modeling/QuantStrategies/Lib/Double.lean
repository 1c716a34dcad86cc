import Mathlib.Algebra.Order.Ring.Nat

/-!
# Whole numbers as doubles

A language that has no other numbers counts in doubles. A whole number that takes more
than 53 bits is rounded to one that does not: to the nearer one, and to the even one of two
that are as near. What is too large is infinite. Below `2 ^ 53` nothing is rounded, and sums
and products are those of the whole numbers.

The client counts parameter sets in these numbers. What it shows is the number of them as
long as each partial product is below the bound; above it the product may be rounded, and is
then a whole number all the same.
-/

/-- What sums and products of whole numbers come to. -/
inductive Double where
  | whole (n : ℕ)
  | infinite
  | nan
deriving DecidableEq

namespace Double

/-- The nearest multiple of a unit. -/
def nearest (unit n : ℕ) : ℕ :=
  if 2 * (n % unit) < unit ∨ 2 * (n % unit) = unit ∧ n / unit % 2 = 0 then n / unit * unit
  else (n / unit + 1) * unit

/-- The unit that a number is rounded to: what 53 of its bits leave over. -/
def unit (n : ℕ) : ℕ := 2 ^ (n.log2 - 52)

/-- A number, rounded. -/
def ofNat (n : ℕ) : Double :=
  if (nearest (unit n) n).log2 < 1024 then .whole (nearest (unit n) n) else .infinite

instance : Add Double where
  add
    | whole a, whole b => ofNat (a + b)
    | nan, _ => nan
    | _, nan => nan
    | _, _ => infinite

instance : Mul Double where
  mul
    | whole a, whole b => ofNat (a * b)
    | nan, _ => nan
    | _, nan => nan
    | infinite, whole 0 => nan
    | whole 0, infinite => nan
    | _, _ => infinite

/-- `x > 0` -/
def positive : Double → Bool
  | whole n => 0 < n
  | infinite => true
  | nan => false

variable {a b n : ℕ}

/-- Numbers that fit are not rounded. -/
theorem ofNat_of_lt (h : n < 2 ^ 53) : ofNat n = .whole n := by
  have hlog : n.log2 < 53 := by
    by_cases hn : n = 0
    · subst hn
      decide
    · exact (Nat.log2_lt hn).mpr h
  have hunit : unit n = 1 := by
    rw [unit, Nat.sub_eq_zero_of_le (Nat.le_of_lt_succ hlog), Nat.pow_zero]
  have hnearest : nearest (unit n) n = n := by simp [nearest, hunit, Nat.mod_one]
  rw [ofNat, hnearest, if_pos (hlog.trans (by decide))]

/-- Sums below `2 ^ 53` are those of the whole numbers: nothing is rounded on the way. -/
theorem whole_add (h : a + b < 2 ^ 53) : whole a + whole b = .whole (a + b) := ofNat_of_lt h

/-- Products below `2 ^ 53` are those of the whole numbers, too. -/
theorem whole_mul (h : a * b < 2 ^ 53) : whole a * whole b = .whole (a * b) := ofNat_of_lt h

/-- These two are as near to the one below as to the one above. -/
example : ofNat (2 ^ 53 + 1) = .whole (2 ^ 53) ∧ ofNat (2 ^ 53 + 3) = .whole (2 ^ 53 + 4) := by
  decide

end Double
