import QuantStrategies.Lib.Binary64
import QuantStrategies.Lib.Datetime

/-!
# Timestamps

Outside a program an instant is a number: seconds since the epoch, or milliseconds.
Python keeps instants in whole microseconds and hands them out as doubles, so each of
these conversions rounds. From an instant to milliseconds there are two roundings and a
cut, and the result may be the millisecond before a whole one. From milliseconds to an
instant there are two roundings, of which the second is to whole microseconds.

All of them keep the order of instants. On whole seconds, in the years that there are,
they are exact.

On whole seconds both ways are exact because neither the seconds nor their milliseconds come
near the 53 bits of a double. Elsewhere what is rounded off grows with the distance from the
epoch, and no bound on it is needed here: the order is kept, and that is what a loop over
pages relies on.
-/

open Binary64

namespace Datetime

/-- `t.timestamp()`: the seconds since the epoch. `d.total_seconds()` is the same of a
duration. -/
def timestamp (t : ℤ) : ℚ := rounded (t / 1000000)

/-- `int(t.timestamp() * 1000)`: the milliseconds since the epoch. -/
def timestampMs (t : ℤ) : ℤ := Python.trunc (rounded (timestamp t * 1000))

/-- The instant that `datetime.fromtimestamp(x)` takes a number of seconds for: the whole
seconds of it, and the nearest number of microseconds to what is left. -/
def micros (x : ℚ) : ℤ :=
  Python.trunc x * 1000000 + nearestEven (rounded ((x - Python.trunc x) * 1000000))

/-- `datetime.fromtimestamp(x, tz=UTC)`. Outside the years that there are, it raises. -/
def fromTimestamp (x : ℚ) : Option ℤ :=
  if Representable (micros x) then some (micros x) else none

/-- `datetime.fromtimestamp(ts_ms / 1000, tz=UTC)`. -/
def fromTimestampMs (tsMs : ℤ) : Option ℤ := fromTimestamp (rounded (tsMs / 1000))

/-- A whole millisecond, handed out as the one before it. -/
example : timestampMs 1086048000001000 = 1086048000000 ∧
    fromTimestampMs 1086048000001 = some 1086048000001000 := by
  decide +kernel

variable {s t u m : ℤ} {x : ℚ}

/-! ## The order of instants -/

/-- A later instant is not in an earlier millisecond. -/
theorem timestampMs_mono {t u : ℤ} (htu : t ≤ u) : timestampMs t ≤ timestampMs u := by
  have hdiv : (t : ℚ) / 1000000 ≤ u / 1000000 :=
    div_le_div_of_nonneg_right (Int.cast_le.mpr htu) (by norm_num)
  exact Python.trunc_mono (rounded_mono
    (mul_le_mul_of_nonneg_right (rounded_mono hdiv) (by norm_num)))

/-- What is left of a second is a million microseconds at most, after rounding. -/
theorem nearestEven_rounded_le {y : ℚ} {n : ℤ} (h : y ≤ n) (hn : |n| ≤ 2 ^ 53) :
    nearestEven (rounded y) ≤ n :=
  nearestEven_le ((rounded_mono h).trans_eq (rounded_intCast hn))

/-- A whole number below stays below when a value is rounded to a double and then to a whole
number. -/
theorem le_nearestEven_rounded {y : ℚ} {n : ℤ} (h : n ≤ y) (hn : |n| ≤ 2 ^ 53) :
    n ≤ nearestEven (rounded y) :=
  le_nearestEven ((rounded_intCast hn).symm.trans_le (rounded_mono h))

/-- What is not later than a second is not read as later than it. -/
theorem micros_le (h : x ≤ s) : micros x ≤ s * 1000000 := by
  have htrunc : Python.trunc x ≤ s := (Python.trunc_mono h).trans_eq (Python.trunc_intCast s)
  unfold micros
  by_cases hrest : x - Python.trunc x ≤ 0
  · have := nearestEven_rounded_le (n := 0) (y := (x - Python.trunc x) * 1000000)
      (by push_cast; linarith) (by norm_num)
    omega
  · have hfloor : Python.trunc x = ⌊x⌋ := by
      refine Python.trunc_of_nonneg (not_lt.mp fun hneg => hrest ?_)
      rw [Python.trunc, if_pos hneg]
      exact sub_nonpos.mpr (Int.le_ceil x)
    rw [hfloor] at htrunc hrest ⊢
    have hlt : ⌊x⌋ < s := by
      refine htrunc.lt_of_ne fun heq => hrest ?_
      rw [heq]
      exact sub_nonpos.mpr h
    have hmillion := nearestEven_rounded_le (n := 1000000) (y := (x - ⌊x⌋) * 1000000)
      (by have := Int.lt_floor_add_one x; push_cast; linarith) (by norm_num)
    omega

/-- What is not earlier than a second is not read as earlier than it. -/
theorem le_micros (h : s ≤ x) : s * 1000000 ≤ micros x := by
  have htrunc : s ≤ Python.trunc x := Python.le_trunc h
  unfold micros
  by_cases hrest : 0 ≤ x - Python.trunc x
  · have := le_nearestEven_rounded (n := 0) (y := (x - Python.trunc x) * 1000000)
      (by push_cast; linarith) (by norm_num)
    omega
  · have hceil : Python.trunc x = ⌈x⌉ := by
      refine if_pos (not_le.mp fun hnonneg => hrest ?_)
      rw [Python.trunc_of_nonneg hnonneg]
      exact sub_nonneg.mpr (Int.floor_le x)
    rw [hceil] at htrunc hrest ⊢
    have hlt : s < ⌈x⌉ := by
      refine htrunc.lt_of_ne fun heq => hrest ?_
      rw [← heq]
      exact sub_nonneg.mpr h
    have hmillion := le_nearestEven_rounded (n := -1000000) (y := (x - ⌈x⌉) * 1000000)
      (by have := Int.ceil_lt_add_one x; push_cast; linarith) (by norm_num)
    omega

/-! ## Whole seconds -/

/-- The seconds of the years that there are fit into 53 bits, and so do their
milliseconds. -/
theorem Representable.abs_second_le (h : Representable (s * 1000000)) : |s| ≤ 2 ^ 38 := by
  obtain ⟨hlow, hhigh⟩ := h
  unfold minInstant at hlow
  unfold maxInstant at hhigh
  rw [abs_le]
  omega

/-- **A whole second is handed out exactly.** The seconds and their thousandfold have at most 53
bits, so that neither the product nor the truncation changes anything. -/
theorem timestampMs_second (h : |s| ≤ 2 ^ 43) : timestampMs (s * 1000000) = s * 1000 := by
  obtain ⟨hlow, hhigh⟩ := abs_le.mp h
  have hsecond : timestamp (s * 1000000) = s := by
    have hdiv : ((s * 1000000 : ℤ) : ℚ) / 1000000 = s := by
      push_cast
      exact mul_div_cancel_right₀ _ (by norm_num)
    rw [timestamp, hdiv, rounded_intCast (abs_le.mpr ⟨by omega, by omega⟩)]
  have hmilli : (s : ℚ) * 1000 = ((s * 1000 : ℤ) : ℚ) := by push_cast; rfl
  rw [timestampMs, hsecond, hmilli, rounded_intCast (abs_le.mpr ⟨by omega, by omega⟩),
    Python.trunc_intCast]

/-- **A whole second is read exactly.** -/
theorem fromTimestampMs_second (h : Representable (s * 1000000)) :
    fromTimestampMs (s * 1000) = some (s * 1000000) := by
  obtain ⟨hlow, hhigh⟩ := abs_le.mp h.abs_second_le
  have hdiv : ((s * 1000 : ℤ) : ℚ) / 1000 = s := by
    push_cast
    exact mul_div_cancel_right₀ _ (by norm_num)
  have hmicros : micros s = s * 1000000 := (micros_le le_rfl).antisymm (le_micros le_rfl)
  rw [fromTimestampMs, hdiv, rounded_intCast (abs_le.mpr ⟨by omega, by omega⟩),
    fromTimestamp, hmicros, if_pos h]

/-- **Between whole seconds, an instant is read as one between them.** Rounding keeps the order
and leaves whole seconds as they are, so that no instant is moved past one. -/
theorem fromTimestampMs_between {lo hi : ℤ} (hlo : Representable (lo * 1000000))
    (hhi : Representable (hi * 1000000)) (hfrom : lo * 1000 ≤ m) (hto : m ≤ hi * 1000) :
    ∃ t, fromTimestampMs m = some t ∧ lo * 1000000 ≤ t ∧ t ≤ hi * 1000000 := by
  have hrounded {k : ℤ} (hk : |k| ≤ 2 ^ 38) : rounded k = k :=
    rounded_intCast (hk.trans (by norm_num))
  have hlow : lo * 1000000 ≤ micros (rounded (m / 1000)) := by
    refine le_micros ((hrounded hlo.abs_second_le).symm.trans_le (rounded_mono ?_))
    rw [le_div_iff₀ (by norm_num)]
    exact_mod_cast hfrom
  have hhigh : micros (rounded (m / 1000)) ≤ hi * 1000000 := by
    refine micros_le ((rounded_mono ?_).trans_eq (hrounded hhi.abs_second_le))
    rw [div_le_iff₀ (by norm_num)]
    exact_mod_cast hto
  exact ⟨_, if_pos (hlo.of_between hhi hlow hhigh), hlow, hhigh⟩

/-! ## Durations -/

/-- A whole number of milliseconds is not handed out as a longer one. -/
theorem timestampMs_le (hpos : 0 ≤ m) (h : m < 2 ^ 51) : timestampMs (m * 1000) ≤ m := by
  have hdiv : ((m * 1000 : ℤ) : ℚ) / 1000000 = m / 1000 := by
    push_cast
    ring
  have hquarter : rounded ((m : ℚ) + 1 / 4) = m + 1 / 4 := by
    have hscaled := @rounded_scaled (4 * m + 1) (-2) (abs_le.mpr ⟨by omega, by omega⟩) (by norm_num)
    have heq : ((4 * m + 1 : ℤ) : ℚ) * 2 ^ (-2 : ℤ) = m + 1 / 4 := by
      push_cast
      ring
    rwa [heq] at hscaled
  have hm : (0 : ℚ) ≤ m := Int.cast_nonneg hpos
  -- what the first rounding adds is less than a quarter of a millisecond
  have hnear : timestamp (m * 1000) * 1000 ≤ m + 1 / 4 := by
    have herror := (abs_le.mp (abs_rounded_sub_le_max ((m : ℚ) / 1000))).2
    have hsmall : max (|(m : ℚ) / 1000| / 2 ^ 53) (2 ^ (-1075 : ℤ)) ≤ 1 / 4000 := by
      refine max_le ?_ ?_
      · have hle : (m : ℚ) ≤ 2 ^ 51 := by exact_mod_cast h.le
        rw [abs_of_nonneg (by positivity)]
        linarith
      · exact (zpow_le_zpow_right₀ (n := -12) one_le_two (by norm_num)).trans (by norm_num)
    rw [timestamp, hdiv]
    linarith
  have hfloor : Python.trunc ((m : ℚ) + 1 / 4) = m := by
    rw [Python.trunc_of_nonneg (by linarith), Int.floor_intCast_add]
    norm_num
  exact (Python.trunc_mono ((rounded_mono hnear).trans_eq hquarter)).trans_eq hfloor

end Datetime
