import Mathlib.Algebra.BigOperators.Group.List.Basic
import Mathlib.Algebra.Order.BigOperators.Group.List
import Mathlib.Algebra.Order.Field.Basic
import Mathlib.Algebra.Order.Field.Rat
import Mathlib.Data.Rat.Cast.Order
import QuantStrategies.Lib.Ieee
import QuantStrategies.Lib.Rolling

/-!
# Exact arithmetic

Numbers that neither round nor overflow: those of an ordered field, together with
whatever stands for what has no result. The field is left open, as are the values
outside it, but for the rule that an operation has no result when an operand has
none. A square root is of the field where there is one to take, and need not be
exact. As sums do not round, a running sum carries nothing from row to row: a rolling
mean is the mean of its window, and so is a deviation (`rollsAlike_rollMean`).

What follows is what the computations on columns make of values that are all in
the field.

The laws are stated once for such numbers, and the instances are taken from the rationals
with two infinities and a value for what is no number (`ExtRat`). A theorem that is proved
over the class holds of any arithmetic that is exact on its field, so that nothing rests on
which of the rationals a computation happens to meet.
-/

open NpFloat Pandas

/-- Arithmetic that is exact on the numbers of a field. -/
class ExactFloat (K : outParam Type) [Field K] [LinearOrder K] [IsStrictOrderedRing K] (F : Type)
    extends NpFloat F where
  /-- A number of the field. -/
  fin : K → F
  /-- The zero of the numbers is that of the field. -/
  zero_fin : (0 : F) = fin 0
  /-- And so is their one. -/
  one_fin : (1 : F) = fin 1
  lit_fin (q : ℚ) : (lit q : F) = fin q
  neg_fin (a : K) : -fin a = fin (-a)
  add_fin (a b : K) : fin a + fin b = fin (a + b)
  sub_fin (a b : K) : fin a - fin b = fin (a - b)
  mul_fin (a b : K) : fin a * fin b = fin (a * b)
  div_fin (a : K) {b : K} (hb : b ≠ 0) : fin a / fin b = fin (a / b)
  abs_fin (a : K) : NpFloat.abs (fin a) = fin |a|
  sqrt_fin {a : K} (ha : 0 ≤ a) : ∃ b, sqrt (fin a) = fin b
  lt_fin {a b : K} : lt (fin a) (fin b) = true ↔ a < b
  eq_fin {a b : K} : eq (fin a) (fin b) = true ↔ a = b
  /-- The numbers of the field are those that are neither missing nor infinite. -/
  observed_iff {x : F} : observed x = true ↔ ∃ a, x = fin a
  nan_add {x y : F} (h : isNan x = true ∨ isNan y = true) : isNan (x + y) = true
  nan_sub {x y : F} (h : isNan x = true ∨ isNan y = true) : isNan (x - y) = true
  nan_mul {x y : F} (h : isNan x = true ∨ isNan y = true) : isNan (x * y) = true
  nan_div {x y : F} (h : isNan x = true ∨ isNan y = true) : isNan (x / y) = true
  rollMean_eq (before window : List F) : rollMean before window = Pandas.mean window
  rollStd_eq (before window : List F) : rollStd before window = Pandas.std window

namespace ExactFloat

variable {K F : Type} [Field K] [LinearOrder K] [IsStrictOrderedRing K] [ExactFloat K F]

/-- Without rounding nothing is carried over: a rolling mean is, on each row, the mean of that
row's window alone. -/
theorem rollMean_alone : (rollMean : List F → List F → F) = alone Pandas.mean :=
  funext fun before => funext (rollMean_eq before)

/-- And so is a rolling deviation, whatever sums an implementation keeps on the way. -/
theorem rollStd_alone : (rollStd : List F → List F → F) = alone Pandas.std :=
  funext fun before => funext (rollStd_eq before)

/-- In exact arithmetic no rolling mean depends on the rows before its window. -/
theorem rollsAlike_rollMean (w d : ℕ) (xs ys : List F) : RollsAlike rollMean w d xs ys :=
  rollMean_alone (F := F) ▸ rollsAlike_alone Pandas.mean w d xs ys

theorem rollsAlike_rollStd (w d : ℕ) (xs ys : List F) : RollsAlike rollStd w d xs ys :=
  rollStd_alone (F := F) ▸ rollsAlike_alone Pandas.std w d xs ys

/-- A value of the field is there, and is finite. -/
@[simp] theorem observed_fin (a : K) : observed (fin a : F) = true := observed_iff.mpr ⟨a, rfl⟩

/-- No value of the field is missing. -/
@[simp] theorem isNan_fin (a : K) : isNan (fin a : F) = false := by
  have h : observed (fin a : F) = true := observed_fin a
  rw [observed, Bool.and_eq_true, Bool.not_eq_true'] at h
  exact h.1

@[simp] theorem isInf_fin (a : K) : isInf (fin a : F) = false := by
  have h : observed (fin a : F) = true := observed_fin a
  rw [observed, Bool.and_eq_true, Bool.not_eq_true', Bool.not_eq_true'] at h
  exact h.2

/-- A cell of a column: a number of the field, or nothing. -/
def cell : Option K → F
  | none => nan
  | some a => fin a

/-- A cell is missing exactly where it was left empty. -/
@[simp] theorem isNan_cell (x : Option K) : isNan (cell x : F) = x.isNone := by
  cases x with
  | none => exact isNan_nan
  | some a => exact isNan_fin a

/-- Different values of the field stay different among the numbers, so that equations of numbers
can be read back as equations of the field. -/
theorem fin_injective {a b : K} (h : (fin a : F) = fin b) : a = b := by
  refine eq_fin.mp (?_ : eq (fin a : F) (fin b) = true)
  rw [h]
  exact eq_fin.mpr rfl

/-- The comparison with zero decides what a division needs to know. -/
theorem ne_zero_of_eq_false {a : K} (h : eq (fin a : F) 0 = false) : a ≠ 0 := by
  rintro rfl
  rw [zero_fin, eq_fin.mpr rfl] at h
  cases h

/-- Values that are all observed are numbers of the field. -/
theorem exists_map_fin {xs : List F} (h : ∀ x ∈ xs, observed x = true) :
    ∃ as : List K, xs = as.map fin := by
  induction xs with
  | nil => exact ⟨[], rfl⟩
  | cons x xs ih =>
    obtain ⟨hx, hxs⟩ := List.forall_mem_cons.mp h
    obtain ⟨a, rfl⟩ := observed_iff.mp hx
    obtain ⟨as, rfl⟩ := ih hxs
    exact ⟨a :: as, rfl⟩

/-- A sum of values of the field is their sum there, in whatever order it is taken. -/
theorem sum_map_fin (as : List K) : Pandas.sum (as.map fin : List F) = fin as.sum := by
  have hfold (as : List K) : ∀ a : K,
      (as.map fin : List F).foldl (· + ·) (fin a) = fin (a + as.sum) := by
    induction as with
    | nil => exact fun a => by rw [List.sum_nil, add_zero]; rfl
    | cons b as ih =>
      intro a
      rw [List.map_cons, List.foldl_cons, add_fin, ih, List.sum_cons, add_assoc]
  rw [Pandas.sum, zero_fin, hfold, zero_add]

/-- The mean of values of the field is their sum over their number; without values there is none.
-/
theorem mean_map_fin {as : List K} (h : as ≠ []) :
    Pandas.mean (as.map fin : List F) = fin (as.sum / as.length) := by
  have hlen : ((as.length : ℚ) : K) ≠ 0 := by
    rw [Rat.cast_natCast, Nat.cast_ne_zero]
    exact mt List.length_eq_zero_iff.mp h
  rw [Pandas.mean, sum_map_fin, lit_fin, List.length_map, div_fin _ hlen, Rat.cast_natCast]

/-- The spread of two values or more is a number. -/
theorem std_map_fin {as : List K} (h : 2 ≤ as.length) :
    ∃ b, Pandas.std (as.map fin : List F) = fin b := by
  have hne : as ≠ [] := List.ne_nil_of_length_pos (Nat.lt_of_lt_of_le Nat.two_pos h)
  have hlen : ((as.length - 1 : ℕ) : ℚ) ≠ 0 := Nat.cast_ne_zero.mpr (by omega)
  have hsq : (as.map fin : List F).map (fun x =>
      (x - Pandas.mean (as.map fin)) * (x - Pandas.mean (as.map fin)))
      = (as.map fun a => (a - as.sum / as.length) * (a - as.sum / as.length)).map fin := by
    rw [mean_map_fin hne, List.map_map, List.map_map]
    exact List.map_congr_left fun a _ => by
      rw [Function.comp_apply, Function.comp_apply, sub_fin, mul_fin]
  have hnonneg : 0 ≤ (as.map fun a => (a - as.sum / as.length) * (a - as.sum / as.length)).sum :=
    List.sum_nonneg fun b hb => by
      obtain ⟨a, -, rfl⟩ := List.mem_map.mp hb
      exact mul_self_nonneg _
  rw [Pandas.std, List.length_map, if_neg (by omega)]
  dsimp only
  rw [hsq, sum_map_fin, lit_fin, div_fin _ (Rat.cast_ne_zero.mpr hlen)]
  exact sqrt_fin (div_nonneg hnonneg (by rw [Rat.cast_natCast]; exact Nat.cast_nonneg _))

/-- The choice of one of two, along a list of numbers of the field. -/
theorem foldl_choice_fin (better : F → F → Bool) (as : List K) (a : K) :
    ∃ b, (as.map fin : List F).foldl (fun m x => if better m x then x else m) (fin a) = fin b := by
  induction as generalizing a with
  | nil => exact ⟨a, rfl⟩
  | cons c as ih =>
    rw [List.map_cons, List.foldl_cons]
    split
    · exact ih c
    · exact ih a

/-- The largest of some values of the field is one of the field. -/
theorem max_map_fin {as : List K} (h : as ≠ []) :
    ∃ b, Pandas.max (as.map fin : List F) = fin b := by
  obtain ⟨a, as, rfl⟩ := List.exists_cons_of_ne_nil h
  exact foldl_choice_fin lt as a

theorem min_map_fin {as : List K} (h : as ≠ []) :
    ∃ b, Pandas.min (as.map fin : List F) = fin b := by
  obtain ⟨a, as, rfl⟩ := List.exists_cons_of_ne_nil h
  exact foldl_choice_fin (fun m x => lt x m) as a

end ExactFloat

/-- Exact arithmetic in which what has no result compares with nothing. -/
class ExactOrder (K : outParam Type) [Field K] [LinearOrder K] [IsStrictOrderedRing K] (F : Type)
    extends ExactFloat K F where
  lt_nan {x y : F} (h : isNan x = true ∨ isNan y = true) : lt x y = false

/-- Exact arithmetic on the numbers of a field, with the rules of IEEE arithmetic for the
values outside it: infinities, and what is not a number. -/
class ExactIeee (K : outParam Type) [Field K] [LinearOrder K] [IsStrictOrderedRing K] (F : Type)
    extends ExactFloat K F, IeeeFloat F

namespace ExtRat

/-- The rationals, with two infinities and what has no result. -/
instance : ExactFloat ℚ ExtRat where
  fin := fin
  zero_fin := zero_eq_fin
  one_fin := one_eq_fin
  lit_fin q := congrArg fin (Rat.cast_id q).symm
  neg_fin _ := rfl
  add_fin _ _ := rfl
  sub_fin p q := congrArg fin (sub_eq_add_neg p q).symm
  mul_fin _ _ := rfl
  div_fin _ _ hq := if_neg hq
  abs_fin q := by
    show fin (if q < 0 then -q else q) = fin |q|
    split
    · next h => rw [abs_of_neg h]
    · next h => rw [abs_of_nonneg (not_lt.mp h)]
  sqrt_fin {q} hq := ⟨_, if_neg (not_lt.mpr hq)⟩
  lt_fin := decide_eq_true_iff
  eq_fin := decide_eq_true_iff.trans ⟨fun h => fin.inj h.1, fun h => ⟨congrArg fin h, nofun⟩⟩
  observed_iff {x} := by
    cases x with
    | fin q => exact iff_of_true rfl ⟨q, rfl⟩
    | _ => exact iff_of_false (by decide) nofun
  nan_add {x y} h := by
    rcases h with h | h <;> rw [of_decide_eq_true h]
    · cases y <;> rfl
    · cases x <;> rfl
  nan_sub {x y} h := by
    rcases h with h | h <;> rw [of_decide_eq_true h]
    · cases y <;> rfl
    · cases x <;> rfl
  nan_mul {x y} h := by
    rcases h with h | h <;> rw [of_decide_eq_true h]
    · cases y <;> rfl
    · cases x <;> rfl
  nan_div {x y} h := by
    rcases h with h | h <;> rw [of_decide_eq_true h]
    · cases y <;> rfl
    · cases x <;> rfl
  rollMean_eq _ _ := rfl
  rollStd_eq _ _ := rfl

instance : ExactOrder ℚ ExtRat where
  lt_nan {x y} h := by
    rcases h with h | h <;> rw [of_decide_eq_true h]
    · cases y <;> rfl
    · cases x <;> rfl

instance : ExactIeee ℚ ExtRat where

end ExtRat
