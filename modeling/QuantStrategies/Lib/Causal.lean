import Mathlib.Data.List.Basic
import Mathlib.Data.List.DropRight

/-!
# Columns computed row by row

A column computed from another one, in which each row depends on the rows up to
it and on none after it. Two ways of writing one are enough: as a function of
the prefix that ends at the row (`expanding`), and as a loop that carries a
state (`loop`). Both commute with `List.take`, which is what it means not to
look ahead.

The second half is about columns that also forget. `AgreesFrom d m xs ys` says
that `ys` is a window on `xs` that starts `d` rows late and is right from its
row `m` on. A rolling computation takes some rows to warm up, and everything
that works row by row takes none.

Two computations on two series are compared by what their inputs share. Where the inputs
agree up to a row, the outputs of a causal computation do (`take_loop`); where one input is
the tail of the other, the outputs agree from the row on at which the computation has
forgotten what is missing (`AgreesFrom`). A backtest that is cut short, and a live run on
the newest rows, are the two cases.
-/

namespace Causal

variable {α β γ σ : Type}

/-! ## Functions of the prefix -/

/-- Each row computed from the rows up to it. -/
def expanding (g : List α → β) (xs : List α) : List β :=
  (List.range xs.length).map fun i => g (xs.take (i + 1))

/-- A row of the result for each row of the column: nothing is dropped while the prefixes grow. -/
@[simp] theorem length_expanding (g : List α → β) (xs : List α) :
    (expanding g xs).length = xs.length := by
  rw [expanding, List.length_map, List.length_range]

/-- The rows of a prefix do not depend on what follows it. -/
theorem take_expanding (g : List α → β) (k : ℕ) (xs : List α) :
    (expanding g xs).take k = expanding g (xs.take k) := by
  rw [expanding, expanding, ← List.map_take, List.take_range, List.length_take]
  refine List.map_congr_left fun i hi => ?_
  have hik : i + 1 ≤ k := by
    have := List.mem_range.mp hi
    omega
  rw [List.take_take, min_eq_left hik]

/-- Behind a first part, a computation on prefixes is one on prefixes again, each of which begins
with the part. This is what lets an induction peel a column off at its front. -/
theorem expanding_append (g : List α → β) (p q : List α) :
    expanding g (p ++ q) = expanding g p ++ expanding (fun r => g (p ++ r)) q := by
  rw [expanding, List.length_append, List.range_add, List.map_append, List.map_map]
  refine congrArg₂ (· ++ ·) (List.map_congr_left fun i hi => ?_) (List.map_congr_left fun i _ => ?_)
  · have hip : i + 1 ≤ p.length := List.mem_range.mp hi
    rw [List.take_append_of_le_length hip]
  · show g ((p ++ q).take (p.length + i + 1)) = g (p ++ q.take (i + 1))
    rw [Nat.add_assoc, List.take_length_add_append]

/-- What a function of the last `w` rows makes of a suffix, once it has seen `w` rows. -/
theorem drop_expanding_append {w : ℕ} {g : List α → β}
    (hg : ∀ p q : List α, w ≤ q.length → g (p ++ q) = g q) (p q : List α) :
    (expanding g (p ++ q)).drop (p.length + (w - 1)) = (expanding g q).drop (w - 1) := by
  have hp : (expanding g p).length = p.length := length_expanding g p
  rw [expanding_append, ← hp, List.drop_length_add_append]
  refine List.ext_getElem (by simp) fun i h₁ _ => ?_
  simp only [expanding, List.getElem_drop, List.getElem_map, List.getElem_range]
  refine hg _ _ ?_
  rw [List.length_drop, length_expanding] at h₁
  rw [List.length_take]
  omega

/-- A row of a column is computed from the rows up to it. -/
theorem getElem?_expanding {g : List α → β} {xs : List α} {i : ℕ} {y : β} :
    (expanding g xs)[i]? = some y ↔ i < xs.length ∧ g (xs.take (i + 1)) = y := by
  rw [expanding, List.getElem?_map, Option.map_eq_some_iff]
  constructor
  · rintro ⟨j, hj, rfl⟩
    obtain ⟨hi, rfl⟩ := List.getElem?_eq_some_iff.mp hj
    rw [List.getElem_range]
    exact ⟨by simpa using hi, rfl⟩
  · rintro ⟨hi, rfl⟩
    exact ⟨i, List.getElem?_range hi, rfl⟩

/-! ## Loops -/

/-- A column computed by a loop over the rows, with a state carried along. -/
def loop (step : σ → α → β × σ) : σ → List α → List β
  | _, [] => []
  | s, x :: xs => (step s x).1 :: loop step (step s x).2 xs

/-- A row of the result for each turn of the loop, whatever state it carries. -/
@[simp] theorem length_loop (step : σ → α → β × σ) (s : σ) (xs : List α) :
    (loop step s xs).length = xs.length := by
  induction xs generalizing s with
  | nil => rfl
  | cons x xs ih => rw [loop, List.length_cons, ih, List.length_cons]

/-- **A loop does not look ahead**: its first rows are the loop over the first rows, since what a
turn does depends on the state that the rows before it left. -/
theorem take_loop (step : σ → α → β × σ) (s : σ) (k : ℕ) (xs : List α) :
    (loop step s xs).take k = loop step s (xs.take k) := by
  induction xs generalizing s k with
  | nil =>
    show ([] : List β).take k = loop step s (([] : List α).take k)
    rw [List.take_nil, List.take_nil]
    rfl
  | cons x xs ih =>
    cases k with
    | zero => rfl
    | succ k => rw [loop, List.take_succ_cons, ih, List.take_succ_cons, loop]

/-- A row is what its turn of the loop gives, from the state that the rows before it leave. -/
theorem getElem?_loop (step : σ → α → β × σ) (s : σ) (xs : List α) (i : ℕ) :
    (loop step s xs)[i]? =
      xs[i]?.map fun x => (step ((xs.take i).foldl (fun s x => (step s x).2) s) x).1 := by
  induction xs generalizing s i with
  | nil => rfl
  | cons x xs ih =>
    cases i with
    | zero => rfl
    | succ i => rw [loop, List.getElem?_cons_succ, ih, List.getElem?_cons_succ]; rfl

/-- What every turn of a loop gives, every row has. -/
theorem forall_mem_loop {step : σ → α → β × σ} {P : β → Prop} (h : ∀ s x, P (step s x).1) (s : σ)
    (xs : List α) : ∀ y ∈ loop step s xs, P y := by
  induction xs generalizing s with
  | nil => exact List.forall_mem_nil _
  | cons x xs ih => exact List.forall_mem_cons.mpr ⟨h s x, ih _⟩

/-- What every turn of a loop gives from a state that it keeps, every row has. -/
theorem forall_mem_loop_of_inv {step : σ → α → β × σ} {I : σ → Prop} {P : α → Prop}
    {Q : β → Prop} (h : ∀ s x, I s → P x → Q (step s x).1 ∧ I (step s x).2) {s : σ} (hs : I s)
    {xs : List α} (hxs : ∀ x ∈ xs, P x) : ∀ y ∈ loop step s xs, Q y := by
  induction xs generalizing s with
  | nil => exact List.forall_mem_nil _
  | cons x xs ih =>
    obtain ⟨hx, hxs⟩ := List.forall_mem_cons.mp hxs
    obtain ⟨hy, hs⟩ := h s x hs hx
    exact List.forall_mem_cons.mpr ⟨hy, ih hs hxs⟩

/-! ## Windows -/

/-- `ys` starts `d` rows later than `xs`, and is the same from its row `m` on. -/
def AgreesFrom (d m : ℕ) (xs ys : List α) : Prop :=
  xs.drop (d + m) = ys.drop m

/-- A column and what is left of it after some rows agree from the first row on: the window starts
late, and nothing has to warm up. -/
theorem agreesFrom_drop (d : ℕ) (xs : List α) : AgreesFrom d 0 xs (xs.drop d) := rfl

namespace AgreesFrom

variable {d m n : ℕ} {xs ys : List α}

/-- A window that is right from a row on is right from a later row on. -/
theorem mono (h : AgreesFrom d m xs ys) (hmn : m ≤ n) : AgreesFrom d n xs ys := by
  obtain ⟨k, rfl⟩ := Nat.exists_eq_add_of_le hmn
  show xs.drop (d + (m + k)) = ys.drop (m + k)
  have hd : (xs.drop (d + m)).drop k = (ys.drop m).drop k :=
    congrArg (List.drop k) (show xs.drop (d + m) = ys.drop m from h)
  rwa [List.drop_drop, List.drop_drop, Nat.add_assoc] at hd

/-- Row by row nothing warms up: a function of the values of a row is right wherever the column
is. -/
theorem map (h : AgreesFrom d m xs ys) (f : α → β) :
    AgreesFrom d m (xs.map f) (ys.map f) := by
  show (xs.map f).drop (d + m) = (ys.map f).drop m
  rw [← List.map_drop, ← List.map_drop, show xs.drop (d + m) = ys.drop m from h]

/-- Two windows that start on the same row and have warmed up by the same row are put together row
by row, and the result has warmed up there, too. -/
theorem zipWith {xs' ys' : List β} (h : AgreesFrom d m xs ys) (h' : AgreesFrom d m xs' ys')
    (f : α → β → γ) :
    AgreesFrom d m (List.zipWith f xs xs') (List.zipWith f ys ys') := by
  show (List.zipWith f xs xs').drop (d + m) = (List.zipWith f ys ys').drop m
  rw [List.drop_zipWith, List.drop_zipWith, show xs.drop (d + m) = ys.drop m from h,
    show xs'.drop (d + m) = ys'.drop m from h']

/-- One row less at the front of both. -/
theorem tail (h : AgreesFrom d (m + 1) xs ys) : AgreesFrom d m xs.tail ys.tail := by
  show xs.tail.drop (d + m) = ys.tail.drop m
  rw [List.drop_tail, List.drop_tail]
  exact h

/-- A computation on the last `w` rows takes `w - 1` rows to warm up. -/
theorem expanding {w : ℕ} {g : List α → β}
    (hg : ∀ p q : List α, w ≤ q.length → g (p ++ q) = g q)
    (h : AgreesFrom d m xs ys) (hlen : xs.length = d + ys.length) :
    AgreesFrom d (m + (w - 1)) (expanding g xs) (expanding g ys) := by
  show (Causal.expanding g xs).drop (d + (m + (w - 1))) = (Causal.expanding g ys).drop _
  by_cases hm : m ≤ ys.length
  · have hx := drop_expanding_append hg (xs.take (d + m)) (ys.drop m)
    have hy := drop_expanding_append hg (ys.take m) (ys.drop m)
    rw [← show xs.drop (d + m) = ys.drop m from h, List.take_append_drop, List.length_take,
      min_eq_left (by omega)] at hx
    rw [List.take_append_drop, List.length_take, min_eq_left hm] at hy
    rw [← Nat.add_assoc, hx, hy, show xs.drop (d + m) = ys.drop m from h]
  · rw [List.drop_of_length_le (by rw [length_expanding]; omega),
      List.drop_of_length_le (by rw [length_expanding]; omega)]

/-- The last row of a window that is right somewhere is the last row. -/
theorem getLast? (h : AgreesFrom d m xs ys) (hm : m < ys.length) :
    xs.getLast? = ys.getLast? := by
  have hne : ys.drop m ≠ [] := by
    rw [ne_eq, List.drop_eq_nil_iff]
    omega
  have hx : xs = xs.take (d + m) ++ ys.drop m := by
    rw [← show xs.drop (d + m) = ys.drop m from h, List.take_append_drop]
  rw [hx, List.getLast?_append_of_ne_nil _ hne]
  conv_rhs => rw [← List.take_append_drop m ys, List.getLast?_append_of_ne_nil _ hne]

end AgreesFrom

end Causal
