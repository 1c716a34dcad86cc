import QuantStrategies.Lib.ExactFloat

/-!
# How long a column takes to have values

A column computed by rolling windows, differences and sums has no value in its
first rows and one in every row from some row on, if what it is computed from is
like that. `ReadyFrom r` says from which one. A computation on `w` rows adds
`w - 1` to it, a difference adds one, and a computation row by row takes the later
of those of its operands. A column that is never ready is ready from its end on.

The same bookkeeping says how many bars a strategy loses before its first position, whatever
its indicators are: the number belongs to the computation, not to the data, as long as no
row divides by zero.
-/

namespace Pandas

open NpFloat Causal

variable {F : Type} [NpFloat F] {r s : ℕ} {xs ys : List F}

/-- A column has no value before row `r`, and one in every row from there on. -/
structure ReadyFrom (r : ℕ) (xs : List F) : Prop where
  /-- Nothing is there yet. -/
  before : ∀ i x, i < r → xs[i]? = some x → isNan x = true
  /-- From here on nothing is missing, and nothing is infinite. -/
  after : ∀ i x, r ≤ i → xs[i]? = some x → observed x = true

theorem isNan_of_observed {x : F} (h : observed x = true) : isNan x = false := by
  rw [observed, Bool.and_eq_true, Bool.not_eq_true'] at h
  exact h.1

/-- To be ready from the first row on is to have every value. -/
theorem readyFrom_zero : ReadyFrom 0 xs ↔ ∀ x ∈ xs, observed x = true := by
  constructor
  · intro h x hx
    obtain ⟨i, hi⟩ := List.mem_iff_getElem?.mp hx
    exact h.after i x (Nat.zero_le i) hi
  · exact fun h => ⟨fun i _ hi => absurd hi (Nat.not_lt_zero i),
      fun _ x _ hi => h x (List.mem_of_getElem? hi)⟩

/-- Windows that a computation makes nothing of. -/
theorem isNan_rolling {f : List F → List F → F} {w : ℕ} (h : 0 < w → ∀ before zs : List F,
    zs.length = w → isNan (f before zs) = true) : ∀ y ∈ rolling f w xs, isNan y = true := by
  intro y hy
  obtain ⟨i, hi⟩ := List.mem_iff_getElem?.mp hy
  obtain ⟨-, rfl⟩ := getElem?_expanding.mp hi
  rw [window]
  split
  · next hcond => exact h hcond.1 _ _ hcond.2.1
  · exact isNan_nan

omit [NpFloat F] in
/-- Rows computed from an operand that is alike in all rows. -/
theorem forall_mem_zipWith {g : F → F → F} {P Q : F → Prop} (h : ∀ x y, P y → Q (g x y))
    (hys : ∀ y ∈ ys, P y) : ∀ z ∈ List.zipWith g xs ys, Q z := by
  intro z hz
  rw [← List.map_uncurry_zip_eq_zipWith] at hz
  obtain ⟨e, he, rfl⟩ := List.mem_map.mp hz
  exact h e.1 e.2 (hys e.2 (List.of_mem_zip he).2)

namespace ReadyFrom

/-- A column without any value is ready past its end. -/
theorem never (h : ∀ x ∈ xs, isNan x = true) (hr : xs.length ≤ r) : ReadyFrom r xs where
  before _ x _ hi := h x (List.mem_of_getElem? hi)
  after _ _ hle hi := absurd (List.getElem?_eq_some_iff.mp hi).1 (Nat.not_lt.mpr (hr.trans hle))

/-- One row more, without a value, before the others. -/
theorem cons (h : ReadyFrom r xs) {x : F} (hx : isNan x = true) : ReadyFrom (r + 1) (x :: xs) where
  before i y hi hy := by
    cases i with
    | zero => exact Option.some.inj hy ▸ hx
    | succ i => exact h.before i y (Nat.lt_of_succ_lt_succ hi) hy
  after i y hle hy := by
    obtain ⟨j, rfl⟩ := Nat.exists_eq_add_of_le' (Nat.one_le_of_lt hle)
    exact h.after j y (Nat.le_of_succ_le_succ hle) hy

/-- A row has a value when it is one of those that have. -/
theorem isNan_eq_false_iff (h : ReadyFrom r xs) {i : ℕ} {x : F} (hx : xs[i]? = some x) :
    isNan x = false ↔ r ≤ i := by
  constructor
  · intro hnan
    by_contra hlt
    rw [h.before i x (Nat.not_le.mp hlt) hx] at hnan
    cases hnan
  · exact fun hle => isNan_of_observed (h.after i x hle hx)

/-- Cutting rows off at the front leaves fewer of them to wait for. -/
theorem drop (h : ReadyFrom r xs) (k : ℕ) : ReadyFrom (r - k) (xs.drop k) where
  before i x hi hx := h.before (k + i) x (by omega) (List.getElem?_drop ▸ hx)
  after i x hle hx := h.after (k + i) x (by omega) (List.getElem?_drop ▸ hx)

/-- The rows that have a value. -/
theorem filter_known (h : ReadyFrom r xs) : xs.filter (fun x => !isNan x) = xs.drop r := by
  have hnone : (xs.take r).filter (fun x => !isNan x) = [] := by
    refine List.filter_eq_nil_iff.mpr fun x hx => ?_
    obtain ⟨i, hi⟩ := List.mem_iff_getElem?.mp hx
    rw [List.getElem?_take] at hi
    split at hi
    · next hlt =>
      rw [h.before i x hlt hi]
      exact Bool.false_ne_true
    · cases hi
  have hall : (xs.drop r).filter (fun x => !isNan x) = xs.drop r := by
    refine List.filter_eq_self.mpr fun x hx => ?_
    obtain ⟨i, hi⟩ := List.mem_iff_getElem?.mp hx
    rw [List.getElem?_drop] at hi
    rw [isNan_of_observed (h.after _ x (Nat.le_add_right r i) hi)]
    rfl
  conv_lhs => rw [← List.take_append_drop r xs]
  rw [List.filter_append, hnone, hall, List.nil_append]

/-- How many rows of a slice have a value. -/
theorem length_filter_drop (h : ReadyFrom r xs) (k : ℕ) :
    ((xs.drop k).filter fun x => !isNan x).length = xs.length - Max.max k r := by
  rw [(h.drop k).filter_known, List.drop_drop, List.length_drop]
  congr 1
  omega

/-- A computation on the rows of two columns, row by row. -/
theorem of_zipWith {g : F → F → F}
    (hbefore : ∀ i x y, i < r → xs[i]? = some x → ys[i]? = some y → isNan (g x y) = true)
    (hafter : ∀ i x y, r ≤ i → xs[i]? = some x → ys[i]? = some y → observed (g x y) = true) :
    ReadyFrom r (List.zipWith g xs ys) := by
  have hrow {i : ℕ} {z : F} (hz : (List.zipWith g xs ys)[i]? = some z) :
      ∃ x y, xs[i]? = some x ∧ ys[i]? = some y ∧ g x y = z := by
    rw [List.getElem?_zipWith] at hz
    split at hz
    · next x y hx hy => exact ⟨x, y, hx, hy, Option.some.inj hz⟩
    · cases hz
  constructor
  · intro i z hi hz
    obtain ⟨x, y, hx, hy, rfl⟩ := hrow hz
    exact hbefore i x y hi hx hy
  · intro i z hle hz
    obtain ⟨x, y, hx, hy, rfl⟩ := hrow hz
    exact hafter i x y hle hx hy

/-- A computation on the rows of two columns that has no result when an operand has no
value. -/
theorem zipWith (h : ReadyFrom r xs) (h' : ReadyFrom s ys) {g : F → F → F}
    (hnan : ∀ x y, isNan x = true ∨ isNan y = true → isNan (g x y) = true)
    (hobs : ∀ i x y, r ≤ i → s ≤ i → xs[i]? = some x → ys[i]? = some y →
      observed (g x y) = true) : ReadyFrom (Max.max r s) (List.zipWith g xs ys) := by
  refine of_zipWith (fun i x y hi hx hy => hnan x y ?_) fun i x y hle hx hy =>
    hobs i x y (by omega) (by omega) hx hy
  rcases lt_or_ge i r with hlt | hge
  · exact .inl (h.before i x hlt hx)
  · exact .inr (h'.before i y (by omega) hy)

/-- A computation on windows of `w` rows. -/
theorem rolling (h : ReadyFrom r xs) {f : List F → List F → F} {w : ℕ} (hw : 0 < w)
    (hf : ∀ before zs : List F, zs.length = w → (∀ z ∈ zs, observed z = true) →
      observed (f before zs) = true) :
    ReadyFrom (r + (w - 1)) (rolling f w xs) := by
  have hrow {i j : ℕ} {x : F} (hi : i < xs.length) (hx : ((xs.take (i + 1)).rtake w)[j]? = some x) :
      xs[i + 1 - w + j]? = some x := by
    rw [List.rtake, List.length_take, min_eq_left hi, List.getElem?_drop,
      List.getElem?_take] at hx
    split at hx
    · exact hx
    · cases hx
  have hlength {i : ℕ} (hi : i < xs.length) :
      ((xs.take (i + 1)).rtake w).length = Min.min w (i + 1) := by
    rw [List.rtake, List.length_drop, List.length_take, min_eq_left hi]
    omega
  constructor
  · intro i y hi hy
    obtain ⟨hlt, rfl⟩ := getElem?_expanding.mp hy
    rw [window, if_neg, isNan_nan]
    rintro ⟨-, hlen, hall⟩
    rw [hlength hlt] at hlen
    -- the first row of the window is one of those without a value
    obtain ⟨x, hx⟩ : ∃ x, ((xs.take (i + 1)).rtake w)[0]? = some x :=
      ⟨_, List.getElem?_eq_getElem (by rw [hlength hlt]; omega)⟩
    have hnan : isNan x = true := h.before _ x (by omega) (hrow hlt hx)
    have hobs := isNan_of_observed (List.all_eq_true.mp hall x (List.mem_of_getElem? hx))
    rw [hnan] at hobs
    cases hobs
  · intro i y hle hy
    obtain ⟨hlt, rfl⟩ := getElem?_expanding.mp hy
    have hlen : ((xs.take (i + 1)).rtake w).length = w := by
      rw [hlength hlt]
      omega
    have hall : ∀ z ∈ (xs.take (i + 1)).rtake w, observed z = true := fun z hz => by
      obtain ⟨j, hj⟩ := List.mem_iff_getElem?.mp hz
      exact h.after _ z (by omega) (hrow hlt hj)
    rw [window, if_pos ⟨hw, hlen, List.all_eq_true.mpr hall⟩]
    exact hf _ _ hlen hall

/-- A computation on each row and the one before it. -/
theorem lagged {g : F → F → F} (hobs : ∀ i prev cur, xs[i]? = some prev → xs[i + 1]? = some cur →
    observed (g prev cur) = true) : ReadyFrom 1 (expanding (Pandas.lagged g) xs) where
  before i y hi hy := by
    obtain rfl := Nat.lt_one_iff.mp hi
    exact isNan_lagged_zero hy
  after i y hle hy := by
    obtain ⟨j, rfl⟩ := Nat.exists_eq_add_one.mpr hle
    obtain ⟨prev, cur, hprev, hcur, rfl⟩ := getElem?_lagged.mp hy
    exact hobs j prev cur hprev hcur

/-- The column one row later. -/
theorem shift (h : ReadyFrom r xs) : ReadyFrom (r + 1) (Pandas.shift xs) where
  before i y hi hy := by
    cases i with
    | zero => exact isNan_lagged_zero hy
    | succ j =>
      obtain ⟨prev, cur, hprev, -, rfl⟩ := getElem?_lagged.mp hy
      exact h.before j prev (Nat.lt_of_succ_lt_succ hi) hprev
  after i y hle hy := by
    obtain ⟨j, rfl⟩ := Nat.exists_eq_add_one.mpr (Nat.one_le_of_lt hle)
    obtain ⟨prev, cur, hprev, -, rfl⟩ := getElem?_lagged.mp hy
    exact h.after j prev (Nat.le_of_succ_le_succ hle) hprev

end ReadyFrom

/-! ## Exact columns -/

section

variable {K F : Type} [Field K] [LinearOrder K] [IsStrictOrderedRing K] [ExactFloat K F]
  {xs : List F}

open ExactFloat

/-- A mean of `w` rows has its first value on the `w`-th of them. -/
theorem readyFrom_mean {w : ℕ} (hw : 0 < w) {r : ℕ} (h : ReadyFrom r xs) :
    ReadyFrom (r + (w - 1)) (rolling rollMean w xs) :=
  h.rolling hw fun before zs hlen hobs => by
    obtain ⟨as, rfl⟩ := exists_map_fin hobs
    rw [List.length_map] at hlen
    have hne : as ≠ [] := List.ne_nil_of_length_pos (hlen ▸ hw)
    rw [rollMean_eq, mean_map_fin hne]
    exact observed_fin _

/-- And so has a deviation, which needs two rows to be one. -/
theorem readyFrom_std {w : ℕ} (hw : 2 ≤ w) {r : ℕ} (h : ReadyFrom r xs) :
    ReadyFrom (r + (w - 1)) (rolling rollStd w xs) :=
  h.rolling (Nat.lt_of_lt_of_le Nat.two_pos hw) fun before zs hlen hobs => by
    obtain ⟨as, rfl⟩ := exists_map_fin hobs
    rw [List.length_map] at hlen
    obtain ⟨b, hb⟩ := @std_map_fin K F _ _ _ _ as (hlen ▸ hw)
    rw [rollStd_eq, hb]
    exact observed_fin _

/-- A mean of values that are not negative is not. -/
theorem rolling_mean_nonneg {w : ℕ} (h : ∀ x ∈ xs, ∃ a : K, 0 ≤ a ∧ x = fin a) {y : F}
    (hy : y ∈ rolling rollMean w xs) (hobs : observed y = true) : ∃ a : K, 0 ≤ a ∧ y = fin a := by
  obtain ⟨i, hi⟩ := List.mem_iff_getElem?.mp hy
  obtain ⟨-, rfl⟩ := getElem?_expanding.mp hi
  rw [window] at hobs ⊢
  split at hobs
  · next hcond =>
    rw [if_pos hcond]
    obtain ⟨as, has⟩ := exists_map_fin fun z hz => List.all_eq_true.mp hcond.2.2 z hz
    have hne : as ≠ [] := by
      rintro rfl
      rw [has] at hcond
      exact absurd hcond.2.1 (Nat.ne_of_lt hcond.1)
    refine ⟨as.sum / as.length, div_nonneg (List.sum_nonneg fun a ha => ?_) (Nat.cast_nonneg _), ?_⟩
    · have hwindow : (fin a : F) ∈ (xs.take (i + 1)).rtake w := has ▸ List.mem_map_of_mem ha
      obtain ⟨b, hb, hab⟩ := h _ (List.mem_of_mem_take (List.mem_of_mem_drop hwindow))
      exact fin_injective hab ▸ hb
    · rw [has, rollMean_eq, mean_map_fin hne]
  · rw [observed, isNan_nan] at hobs
    cases hobs

/-- An exponentially weighted mean takes no row to warm up. -/
theorem readyFrom_ewm {span : ℤ} (hspan : 1 ≤ span) (h : ReadyFrom 0 xs) :
    ReadyFrom 0 (ewm span xs) := by
  have htwo : (0 : K) < ((2 : ℚ) : K) := by norm_num
  have hden : (1 : K) + (((span : ℚ) : K) - 1) / ((2 : ℚ) : K) ≠ 0 := by
    have hle : (1 : K) ≤ ((span : ℚ) : K) := by
      rw [Rat.cast_intCast]
      exact_mod_cast hspan
    exact (add_pos_of_pos_of_nonneg one_pos (div_nonneg (sub_nonneg.mpr hle) htwo.le)).ne'
  obtain ⟨a, ha⟩ : ∃ a : K, (ewmAlpha span : F) = fin a :=
    ⟨1 / (1 + (((span : ℚ) : K) - 1) / ((2 : ℚ) : K)), by
      rw [ewmAlpha, one_fin, lit_fin, lit_fin, sub_fin, div_fin _ htwo.ne', add_fin,
        div_fin _ hden]⟩
  refine readyFrom_zero.mpr (forall_mem_loop_of_inv (P := fun x => observed x = true)
    (I := fun s : F × F => s.2 = 1 ∧ (isNan s.1 = true ∨ ∃ m : K, s.1 = fin m))
    (fun s x hs hx => ?_) ⟨rfl, .inl isNan_nan⟩ (readyFrom_zero.mp h))
  obtain ⟨mean, weight⟩ := s
  obtain ⟨rfl, hmean⟩ := hs
  obtain ⟨b, rfl⟩ := observed_iff.mp hx
  rw [ewmStep, ha]
  simp only [observed_fin, if_true]
  split
  · exact ⟨observed_fin b, rfl, .inr ⟨b, rfl⟩⟩
  · next hnan =>
    obtain ⟨m, rfl⟩ := hmean.resolve_left hnan
    split
    · exact ⟨observed_fin m, rfl, .inr ⟨m, rfl⟩⟩
    · -- the weights of the old mean and of the new value sum to one
      have hsum : (1 : K) * (1 - a) + a ≠ 0 := by
        rw [one_mul, sub_add_cancel]
        exact one_ne_zero
      simp only [one_fin, sub_fin, mul_fin, add_fin, div_fin _ hsum]
      exact ⟨observed_fin _, trivial, .inr ⟨_, rfl⟩⟩

end

end Pandas
