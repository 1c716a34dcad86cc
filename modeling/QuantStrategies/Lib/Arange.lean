import QuantStrategies.Lib.Binary64

/-!
# Ranges of doubles

`np.arange(start, stop, step)` lists the numbers from `start` on that are a step apart and
below `stop`. Both of these are computed in doubles. How many there are is the quotient of
the span and the step, rounded up. The numbers are not found by adding the step again and
again: the first two are `start` and `start + step`, and the others are so many times the
difference of these two away from `start`. The difference need not be the step, and neither
the last number nor how many there are need be those of exact arithmetic.

Numpy refuses a step of zero, and a length that does not fit into memory; on finite
arguments nothing else fails. A range whose step leads away from its end lists nothing.
-/

open Binary64

/-- What `np.arange` raises: a division by zero, a length that is not a number, or one that
no array can have. -/
inductive ArangeError where
  | zeroDivision
  | noLength
  | tooLong
deriving DecidableEq

namespace Arange

/-- A quotient of a span and a step, rounded up. One that underflows to zero counts as the
number that it is. -/
def ceiling (span step ratio : ℚ) : ℤ := if ratio = 0 then ⌈span / step⌉ else ⌈ratio⌉

/-- How many numbers there are: the span over the step, rounded up. An array has less than
`2 ^ 60` elements. -/
def length (start : ℚ) (stop : ExtRat) (step : ℚ) : Except ArangeError ℤ :=
  let span := sub stop (.fin start)
  match span, div span (.fin step) with
  | .fin s, .fin q =>
      if ceiling s step q < 2 ^ 60 then .ok (ceiling s step q) else .error .tooLong
  | _, .nan => .error .noLength
  | _, _ => .error .tooLong

/-- The number at a position. -/
def element (start step : ℚ) : ℕ → ExtRat
  | 0 => .fin start
  | 1 => add (.fin start) (.fin step)
  | i + 2 =>
      let next := add (.fin start) (.fin step)
      add (.fin start) (mul (ofRat (i + 2 : ℕ)) (sub next (.fin start)))

end Arange

/-- `np.arange(start, stop, step)`. -/
def arange (start : ℚ) (stop : ExtRat) (step : ℚ) : Except ArangeError (List ExtRat) :=
  if step = 0 then .error .zeroDivision
  else (Arange.length start stop step).map fun n =>
    (List.range n.toNat).map (Arange.element start step)

namespace Arange

variable {start step : ℚ} {stop : ExtRat} {n : ℤ} {i : ℕ} {xs : List ExtRat}

/-- From nothing to three tenths, a tenth apart, in doubles: the fourth number is a little
above three tenths. -/
example :
    length 0 (add (.fin (rounded (3 / 10))) (.fin (rounded (1 / 10) / 2))) (rounded (1 / 10)) =
        .ok 4 ∧
      NpFloat.lt (.fin (rounded (3 / 10))) (element 0 (rounded (1 / 10)) 3) = true := by
  decide +kernel

/-- How many numbers there are, where the span and the quotient are known. -/
theorem length_eq {s q : ℚ} (hspan : sub stop (.fin start) = .fin s)
    (hratio : div (.fin s) (.fin step) = .fin q) (hlt : ceiling s step q < 2 ^ 60) :
    length start stop step = .ok (ceiling s step q) := by
  unfold length
  rw [hspan]
  dsimp only
  rw [hratio]
  exact if_pos hlt

/-- What is listed fits into memory, or is refused. -/
theorem length_lt (h : length start stop step = .ok n) : n < 2 ^ 60 := by
  unfold length at h
  dsimp only at h
  split at h
  · split at h
    · next hlt =>
      cases h
      exact hlt
    · cases h
  · cases h
  · cases h

/-- A position is a number of doubles, and not zero but for the first. -/
theorem ofRat_position (hpos : 0 < i) (hi : i < 2 ^ 60) : ∃ q, ofRat i = .fin q ∧ 0 < q := by
  have hone : rounded ((1 : ℕ) : ℚ) = 1 := by
    exact_mod_cast @rounded_intCast 1 (by norm_num)
  have htop : rounded ((2 ^ 60 : ℕ) : ℚ) = 2 ^ 60 := by
    have hscaled := @rounded_scaled 1 60 (by norm_num) (by norm_num)
    rw [Int.cast_one, one_mul] at hscaled
    exact_mod_cast hscaled
  have hlow : 1 ≤ rounded i := hone.symm.trans_le (rounded_mono (by exact_mod_cast hpos))
  have hhigh : rounded i ≤ 2 ^ 60 :=
    (rounded_mono (by exact_mod_cast hi.le)).trans_eq htop
  refine ⟨rounded i, if_pos ?_, zero_lt_one.trans_le hlow⟩
  rw [abs_of_nonneg (zero_le_one.trans hlow)]
  exact hhigh.trans_lt (pow_lt_pow_right₀ one_lt_two (by norm_num))

/-- **What is listed is a number**, or an infinity. A zero times an infinity would make one, or an
infinity less itself, and neither comes up: the position is above zero and the start is finite. -/
theorem element_ne_nan (hi : i < 2 ^ 60) : element start step i ≠ .nan := by
  have hnext : add (.fin start) (.fin step) ≠ .nan := add_ne_nan nofun
  match i with
  | 0 => exact nofun
  | 1 => exact hnext
  | i + 2 =>
    obtain ⟨q, hq, hpos⟩ := ofRat_position (i := i + 2) (by omega) hi
    show add (.fin start) (mul (ofRat (i + 2 : ℕ)) (sub _ (.fin start))) ≠ .nan
    rw [hq]
    exact add_ne_nan (mul_ne_nan hpos (sub_ne_nan hnext))

/-- Every element that is listed is a number, though it may be infinite. -/
theorem arange_ne_nan (h : arange start stop step = .ok xs) {x : ExtRat} (hx : x ∈ xs) :
    x ≠ .nan := by
  unfold arange at h
  split at h
  · cases h
  · cases hlength : length start stop step with
    | error e =>
      rw [hlength] at h
      cases h
    | ok n =>
      rw [hlength] at h
      cases h
      obtain ⟨i, hi, rfl⟩ := List.mem_map.mp hx
      have hlt := length_lt hlength
      exact element_ne_nan (by have := List.mem_range.mp hi; omega)

end Arange
