import Mathlib.Data.Set.Basic
import QuantStrategies.Lib.Ready

/-!
# What a computation reads of a column

Computations that skip what is missing read the rows of a column that have a value,
and some of them only those from a row on. `rows s xs` is the set of these rows, and
`known xs` the values, in their order. A computation on the values depends on nothing
but these rows (`known_drop_congr`).

The set of rows is what two computations are compared by: that a figure and another one are
taken over the same bars says that these sets are the same.
-/

namespace Pandas

open NpFloat Causal

variable {F : Type} [NpFloat F] {xs ys : List F}

/-- The values of a column that are there. -/
def known (xs : List F) : List F := xs.filter fun x => !isNan x

/-- `xs.prod()`, which skips what is missing. -/
def prod (xs : List F) : F := (known xs).foldl (· * ·) 1

/-- `xs.max()` of a column, which skips what is missing. -/
def maxKnown (xs : List F) : F := max (known xs)

/-- The rows from `s` on that have a value. -/
def rows (s : ℕ) (xs : List F) : Set ℕ :=
  {i | s ≤ i ∧ ∃ x, xs[i]? = some x ∧ isNan x = false}

/-- The values of a longer column: its first one, unless that is missing, and those of the rest.
-/
theorem known_cons (x : F) (xs : List F) :
    known (x :: xs) = if isNan x then known xs else x :: known xs := by
  rw [known, List.filter_cons]
  cases isNan x with
  | true => rfl
  | false => rfl

/-- From a later row on there are fewer rows. -/
theorem rows_mono {s t : ℕ} (h : s ≤ t) : rows t xs ⊆ rows s xs :=
  fun _ hi => ⟨h.trans hi.1, hi.2⟩

/-- Two cuts of a column have the same values when there are none between them. -/
theorem rows_eq_rows_zero {s : ℕ} : rows s xs = rows 0 xs ↔ ∀ i ∈ rows 0 xs, s ≤ i := by
  constructor
  · intro h i hi
    rw [← h] at hi
    exact hi.1
  · exact fun h => Set.Subset.antisymm (rows_mono (Nat.zero_le s)) fun i hi => ⟨h i hi, hi.2⟩

/-- A column without values has none to compute with. -/
theorem known_eq_nil (h : ∀ (i : ℕ) (x : F), xs[i]? = some x → isNan x = true) : known xs = [] := by
  refine List.filter_eq_nil_iff.mpr fun x hx => ?_
  obtain ⟨i, hi⟩ := List.mem_iff_getElem?.mp hx
  rw [h i x hi]
  exact Bool.false_ne_true

/-- Columns that agree where either has a value have the same values. -/
theorem known_congr (h : ∀ i ∈ rows 0 xs ∪ rows 0 ys, xs[i]? = ys[i]?) : known xs = known ys := by
  induction xs generalizing ys with
  | nil =>
    refine (known_eq_nil fun i y hi => ?_).symm
    by_contra hy
    have hrow := h i (.inr ⟨Nat.zero_le i, y, hi, Bool.eq_false_iff.mpr hy⟩)
    rw [hi] at hrow
    cases hrow
  | cons x xs ih =>
    cases ys with
    | nil =>
      refine known_eq_nil fun i y hi => ?_
      by_contra hy
      have hrow := h i (.inl ⟨Nat.zero_le i, y, hi, Bool.eq_false_iff.mpr hy⟩)
      rw [hi] at hrow
      cases hrow
    | cons y ys =>
      have htail : known xs = known ys := ih fun i hi =>
        h (i + 1) (hi.imp (fun hx => ⟨Nat.zero_le _, hx.2⟩) fun hy => ⟨Nat.zero_le _, hy.2⟩)
      rw [known_cons, known_cons, htail]
      by_cases hx : isNan x = true
      · by_cases hy : isNan y = true
        · rw [if_pos hx, if_pos hy]
        · have hrow := h 0 (.inr ⟨le_rfl, y, rfl, Bool.eq_false_iff.mpr hy⟩)
          cases hrow
          exact absurd hx hy
      · have hrow := h 0 (.inl ⟨le_rfl, x, rfl, Bool.eq_false_iff.mpr hx⟩)
        cases hrow
        rfl

/-- **What is read of a column from a row on.** Two columns that agree on the rows from there on,
on which either has a value, give the same list of values. -/
theorem known_drop_congr {s : ℕ} (h : ∀ i ∈ rows s xs ∪ rows s ys, xs[i]? = ys[i]?) :
    known (xs.drop s) = known (ys.drop s) := by
  refine known_congr fun i hi => ?_
  rw [List.getElem?_drop, List.getElem?_drop]
  refine h (s + i) (hi.imp ?_ ?_)
  · rintro ⟨-, x, hx, hnan⟩
    exact ⟨Nat.le_add_right s i, x, List.getElem?_drop ▸ hx, hnan⟩
  · rintro ⟨-, y, hy, hnan⟩
    exact ⟨Nat.le_add_right s i, y, List.getElem?_drop ▸ hy, hnan⟩

/-- The rows of a column that has values from a row on. -/
theorem ReadyFrom.mem_rows {r s i : ℕ} (h : ReadyFrom r xs) :
    i ∈ rows s xs ↔ s ≤ i ∧ r ≤ i ∧ i < xs.length := by
  constructor
  · rintro ⟨hs, x, hx, hnan⟩
    exact ⟨hs, (h.isNan_eq_false_iff hx).mp hnan, (List.getElem?_eq_some_iff.mp hx).1⟩
  · rintro ⟨hs, hr, hlt⟩
    have hx : xs[i]? = some xs[i] := List.getElem?_eq_getElem hlt
    exact ⟨hs, xs[i], hx, (h.isNan_eq_false_iff hx).mpr hr⟩

end Pandas
