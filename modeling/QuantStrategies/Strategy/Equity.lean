import Mathlib.Algebra.BigOperators.Ring.List
import Mathlib.Algebra.Order.BigOperators.GroupWithZero.List
import Mathlib.Data.List.ReduceOption
import Mathlib.Order.Bounds.Basic
import QuantStrategies.Lib.ExactFloat
import QuantStrategies.Strategy.Performance

/-!
# Equity and drawdown

`compound` clips, multiplies and takes maxima down a column, and each of these has its
own way with a missing cell. Over an exact field the outcome is a curve: the capital
after the returns that are known, and the highest it has been, which is at least the
capital that it began with.

The code multiplies down the whole column and skips what is missing, while `equityAt`
multiplies the growths there are. `curveFrom` walks both along together, the capital and its
peak, and the induction on the returns compares the three loops of `compound` with it. A
loss of the whole capital makes every later point zero, so that the drawdown from then on is
one.
-/

open Pandas NpFloat ExactFloat Causal

variable {K F : Type} [Field K] [LinearOrder K] [IsStrictOrderedRing K]

/-! ## The curve -/

/-- What a return makes of the capital. -/
def growth (r : K) : K := max 0 (1 + r)

/-- The capital after a bar: what the returns up to it make of one unit. -/
def equityAt (rs : List (Option K)) (i : ℕ) : K :=
  (((rs.take (i + 1)).reduceOption).map growth).prod

/-- The equities of the bars up to one that have a return. -/
def equitiesTo (rs : List (Option K)) (i : ℕ) : Set K :=
  {e | ∃ j ≤ i, (∃ r, rs[j]? = some (some r)) ∧ equityAt rs j = e}

/-- What the cumulative return and the drawdown of some returns are to be. -/
structure WellFormedCurve [ExactFloat K F] (rs : List (Option K)) (cumu dd : List F) : Prop where
  /-- A bar without a return has neither. -/
  missing : ∀ i : ℕ, rs[i]? = some none →
    (∃ x, cumu[i]? = some x ∧ isNan x = true) ∧ ∃ y, dd[i]? = some y ∧ isNan y = true
  /-- A bar with a return has both, and the drawdown is from the highest equity so far,
  or from the capital at the beginning. -/
  bar : ∀ (i : ℕ) r, rs[i]? = some (some r) → cumu[i]? = some (fin (equityAt rs i - 1)) ∧
    ∃ peak, IsGreatest (insert 1 (equitiesTo rs i)) peak ∧ peak ≠ 0 ∧
      dd[i]? = some (fin (1 - equityAt rs i / peak)) ∧
        0 ≤ 1 - equityAt rs i / peak ∧ 1 - equityAt rs i / peak ≤ 1
  /-- No capital is below zero: a loss of more than everything is cut off. -/
  nonneg : ∀ i, 0 ≤ equityAt rs i
  /-- What is lost once is lost for ever. -/
  ruined : ∀ (i j : ℕ) r, rs[i]? = some (some r) → r ≤ -1 → i ≤ j → equityAt rs j = 0

omit [IsStrictOrderedRing K] in
/-- A bar without a return leaves the capital as it is, and is one more bar. -/
theorem equityAt_none (rs : List (Option K)) (i : ℕ) :
    equityAt (none :: rs) (i + 1) = equityAt rs i := by
  rw [equityAt, List.take_succ_cons, List.reduceOption_cons_of_none]
  rfl

omit [IsStrictOrderedRing K] in
/-- A bar in front multiplies the capital of all later bars by its growth. -/
theorem equityAt_some (r : K) (rs : List (Option K)) (i : ℕ) :
    equityAt (some r :: rs) (i + 1) = growth r * equityAt rs i := by
  rw [equityAt, List.take_succ_cons, List.reduceOption_cons_of_some, List.map_cons, List.prod_cons]
  rfl

omit [IsStrictOrderedRing K] in
theorem equityAt_zero (r : K) (rs : List (Option K)) :
    equityAt (some r :: rs) 0 = growth r := mul_one _

/-- A product of growths, none below zero. -/
theorem equityAt_nonneg (rs : List (Option K)) (i : ℕ) : 0 ≤ equityAt rs i :=
  List.prod_nonneg fun x hx => by
    obtain ⟨r, -, rfl⟩ := List.mem_map.mp hx
    exact le_max_left _ _

/-- After a loss of everything there is nothing left, on that bar and every later one. -/
theorem equityAt_eq_zero {rs : List (Option K)} {i j : ℕ} {r : K} (hr : rs[i]? = some (some r))
    (hruin : r ≤ -1) (hij : i ≤ j) : equityAt rs j = 0 := by
  refine List.prod_eq_zero (List.mem_map.mpr ⟨r, ?_, max_eq_left ?_⟩)
  · rw [List.reduceOption_mem_iff]
    refine List.mem_of_getElem? (i := i) ?_
    rw [List.getElem?_take_of_lt (Nat.lt_succ_of_le hij), hr]
  · linarith

/-! ## The curve, bar by bar -/

/-- The equity and the peak of each bar that has a return, from some capital and some
peak on. -/
def curveFrom (capital peak : K) : List (Option K) → List (Option (K × K))
  | [] => []
  | none :: rs => none :: curveFrom capital peak rs
  | some r :: rs =>
      some (capital * growth r, max peak (capital * growth r)) ::
        curveFrom (capital * growth r) (max peak (capital * growth r)) rs

omit [Field K] [IsStrictOrderedRing K] in
/-- The greatest of two, and of others. -/
theorem IsGreatest.insert_max {a b c : K} {S : Set K} (h : IsGreatest (insert (max a b) S) c) :
    IsGreatest (insert a (insert b S)) c := by
  refine ⟨?_, ?_⟩
  · rcases h.1 with rfl | hc
    · rcases max_choice a b with hmax | hmax <;> rw [hmax]
      · exact .inl rfl
      · exact .inr (.inl rfl)
    · exact .inr (.inr hc)
  · have hmax : max a b ≤ c := h.2 (.inl rfl)
    rintro x (rfl | rfl | hx)
    · exact (le_max_left _ _).trans hmax
    · exact (le_max_right _ _).trans hmax
    · exact h.2 (.inr hx)

omit [IsStrictOrderedRing K] in
/-- A bar without a return has no point of the curve. -/
theorem getElem?_curveFrom_none {capital peak : K} {rs : List (Option K)} {i : ℕ}
    (h : rs[i]? = some none) : (curveFrom capital peak rs)[i]? = some none := by
  induction rs generalizing capital peak i with
  | nil => cases h
  | cons r rs ih =>
    cases i with
    | zero =>
      cases h
      rfl
    | succ i =>
      cases r with
      | none => exact ih h
      | some r => exact ih h

omit [IsStrictOrderedRing K] in
/-- The equities that a bar more makes of those after it. -/
theorem equitiesTo_some (r : K) (rs : List (Option K)) (i : ℕ) (capital : K) :
    (capital * ·) '' equitiesTo (some r :: rs) (i + 1)
      = insert (capital * growth r) ((capital * growth r * ·) '' equitiesTo rs i) := by
  ext e
  constructor
  · rintro ⟨e, ⟨j, hj, hr, rfl⟩, rfl⟩
    cases j with
    | zero => exact .inl (congrArg _ (equityAt_zero r rs))
    | succ j =>
      refine .inr ⟨_, ⟨j, Nat.le_of_succ_le_succ hj, hr, rfl⟩, ?_⟩
      show capital * growth r * _ = capital * _
      rw [equityAt_some, mul_assoc]
  · rintro (rfl | ⟨e, ⟨j, hj, hr, rfl⟩, rfl⟩)
    · exact ⟨_, ⟨0, Nat.zero_le _, ⟨r, rfl⟩, equityAt_zero r rs⟩, rfl⟩
    · refine ⟨_, ⟨j + 1, Nat.succ_le_succ hj, hr, rfl⟩, ?_⟩
      show capital * _ = capital * growth r * _
      rw [equityAt_some, mul_assoc]

omit [IsStrictOrderedRing K] in
theorem equitiesTo_none (rs : List (Option K)) (i : ℕ) :
    equitiesTo (none :: rs) (i + 1) = equitiesTo rs i := by
  ext e
  constructor
  · rintro ⟨j, hj, ⟨r, hr⟩, rfl⟩
    cases j with
    | zero => cases hr
    | succ j => exact ⟨j, Nat.le_of_succ_le_succ hj, ⟨r, hr⟩, (equityAt_none rs j).symm⟩
  · rintro ⟨j, hj, hr, rfl⟩
    exact ⟨j + 1, Nat.succ_le_succ hj, hr, equityAt_none rs j⟩

omit [IsStrictOrderedRing K] in
/-- **A point of the curve**: what the returns so far make of the capital, and the
highest it has been. -/
theorem getElem?_curveFrom_some {capital peak : K} {rs : List (Option K)} {i : ℕ} {r : K}
    (h : rs[i]? = some (some r)) :
    ∃ high, (curveFrom capital peak rs)[i]? = some (some (capital * equityAt rs i, high)) ∧
      IsGreatest (insert peak ((capital * ·) '' equitiesTo rs i)) high := by
  induction rs generalizing capital peak i with
  | nil => cases h
  | cons x rs ih =>
    cases x with
    | none =>
      cases i with
      | zero => cases h
      | succ i =>
        rw [equityAt_none, equitiesTo_none]
        exact ih h
    | some s =>
      cases i with
      | zero =>
        refine ⟨_, by rw [equityAt_zero]; rfl, ?_⟩
        have hset : (capital * ·) '' equitiesTo (some s :: rs) 0 = {capital * growth s} := by
          ext e
          constructor
          · rintro ⟨e, ⟨j, hj, -, rfl⟩, rfl⟩
            rw [Nat.le_zero.mp hj]
            exact congrArg _ (equityAt_zero s rs)
          · rintro rfl
            exact ⟨_, ⟨0, le_refl 0, ⟨s, rfl⟩, equityAt_zero s rs⟩, rfl⟩
        rw [hset]
        exact isGreatest_pair
      | succ i =>
        obtain ⟨high, hpoint, hhigh⟩ :=
          @ih (capital * growth s) (max peak (capital * growth s)) i h
        refine ⟨high, ?_, ?_⟩
        · rw [equityAt_some, ← mul_assoc]
          exact hpoint
        · rw [equitiesTo_some]
          exact hhigh.insert_max

omit [IsStrictOrderedRing K] in
/-- The curve goes on from where it has come to. -/
theorem drop_curveFrom (capital peak : K) (xs : List (Option K)) : ∃ capital' peak', ∀ ys,
    (curveFrom capital peak (xs ++ ys)).drop xs.length = curveFrom capital' peak' ys := by
  induction xs generalizing capital peak with
  | nil => exact ⟨capital, peak, fun _ => rfl⟩
  | cons x xs ih =>
    cases x with
    | none => exact ih capital peak
    | some r => exact ih (capital * growth r) (max peak (capital * growth r))

/-! ## What the code computes -/

section

variable [ExactOrder K F]

/-- Clipping a number is the greater one of it and the bound. -/
theorem clipLower_fin (b a : K) : clipLower (fin b) (fin a) = (fin (max b a) : F) := by
  rw [clipLower]
  split
  · next h => rw [max_eq_left (lt_fin.mp h).le]
  · next h => rw [max_eq_right (not_lt.mp (mt lt_fin.mpr h))]

/-- Clipping leaves a gap a gap, as `clip` does. -/
theorem clipLower_missing {b x : F} (h : isNan x = true) : clipLower b x = x := by
  rw [clipLower, ExactOrder.lt_nan (.inl h)]
  rfl

/-- The equity column is the curve's. -/
theorem loop_equity (capital peak : K) (rs : List (Option K)) :
    loop (fun (acc : F) x => if isNan x then (nan, acc) else (acc * x, acc * x)) (fin capital)
        ((rs.map cell).map fun r => clipLower 0 (1 + r))
      = (curveFrom capital peak rs).map fun o => cell (o.map Prod.fst) := by
  induction rs generalizing capital peak with
  | nil => rfl
  | cons r rs ih =>
    cases r with
    | none =>
      have hsum : isNan (1 + cell none : F) = true := nan_add (.inr (isNan_cell none))
      have hmissing : isNan (clipLower 0 (1 + cell none) : F) = true := by
        rw [clipLower_missing hsum]
        exact hsum
      rw [List.map_cons, List.map_cons, loop, if_pos hmissing, ih]
      rfl
    | some r =>
      have hgrowth : clipLower 0 (1 + cell (some r)) = (fin (growth r) : F) := by
        show clipLower 0 (1 + fin r) = _
        rw [zero_fin, one_fin, add_fin, clipLower_fin]
        rfl
      have hknown : ¬ isNan (fin (growth r) : F) = true := by
        rw [isNan_fin]
        exact Bool.false_ne_true
      rw [List.map_cons, List.map_cons, hgrowth, loop, if_neg hknown, mul_fin,
        ih _ (max peak (capital * growth r))]
      rfl

/-- What a cumulative maximum has seen, against the peak of the curve. -/
def Seen (acc : Option F) (peak : K) : Prop :=
  (acc = none ∧ peak = 1) ∨ ∃ a, acc = some (fin a) ∧ peak = max 1 a

/-- The peak column is the curve's. -/
theorem loop_peak {acc : Option F} (capital : K) {peak : K} (hseen : Seen acc peak)
    (rs : List (Option K)) :
    (loop (fun (acc : Option F) x =>
        if isNan x then (nan, acc)
        else
          let m := match acc with
            | none => x
            | some m => if lt m x then x else m
          (m, some m)) acc
        ((curveFrom capital peak rs).map fun o => cell (o.map Prod.fst))).map (clipLower 1)
      = (curveFrom capital peak rs).map fun o => cell (o.map Prod.snd) := by
  induction rs generalizing acc capital peak with
  | nil => rfl
  | cons r rs ih =>
    cases r with
    | none =>
      have hnone : isNan (cell none : F) = true := isNan_nan
      show List.map _ (loop _ _ (cell none :: _)) = _
      rw [loop, if_pos hnone, List.map_cons, ih capital hseen]
      exact congrArg (· :: _) (clipLower_missing isNan_nan)
    | some r =>
      have hmax (a b : K) :
          (if lt (fin a : F) (fin b) then fin b else fin a) = (fin (max a b) : F) := by
        split
        · next h => rw [max_eq_right (lt_fin.mp h).le]
        · next h => rw [max_eq_left (not_lt.mp (mt lt_fin.mpr h))]
      show List.map _ (loop _ _ (fin (capital * growth r) :: _)) = _
      have hknown : ¬ isNan (fin (capital * growth r) : F) = true := by
        rw [isNan_fin]
        exact Bool.false_ne_true
      rw [loop, if_neg hknown, List.map_cons]
      obtain ⟨rfl, rfl⟩ | ⟨a, rfl, rfl⟩ := hseen
      · rw [ih (capital * growth r) (.inr ⟨capital * growth r, rfl, rfl⟩), one_fin, clipLower_fin]
        rfl
      · dsimp only
        rw [hmax, ih (capital * growth r) (.inr ⟨_, rfl, max_assoc _ _ _⟩), one_fin, clipLower_fin,
          ← max_assoc]
        rfl

/-- **What the code computes**, in terms of the curve from one unit of capital. The curve carries
the capital and its peak from bar to bar, and keeps both over a bar without a return. -/
theorem compound_eq_curve (rs : List (Option K)) :
    compound (rs.map cell : List F) =
      ((curveFrom 1 1 rs).map fun o => cell (o.map Prod.fst) - 1,
        (curveFrom 1 1 rs).map fun o => 1 - cell (o.map Prod.fst) / cell (o.map Prod.snd)) := by
  have hequity : cumprod ((rs.map cell).map fun r => clipLower 0 (1 + r))
      = ((curveFrom 1 1 rs).map fun o => cell (o.map Prod.fst) : List F) := by
    have hcurve := loop_equity (F := F) 1 1 rs
    rwa [← one_fin] at hcurve
  have hpeak : (cummax ((curveFrom 1 1 rs).map fun o => cell (o.map Prod.fst))).map (clipLower 1)
      = ((curveFrom 1 1 rs).map fun o => cell (o.map Prod.snd) : List F) :=
    loop_peak (1 : K) (.inl ⟨rfl, rfl⟩ : Seen (none : Option F) (1 : K)) rs
  show (List.map _ (cumprod _), List.zipWith _ (cumprod _) (List.map _ (cummax (cumprod _)))) = _
  rw [hequity, hpeak, List.map_map, List.zipWith_map, List.zipWith_self]
  rfl

/-- **Equity and drawdown are well formed**, and a bar without a return changes nothing
after it. -/
theorem compound_wellFormed (rs : List (Option K)) :
    WellFormedCurve rs (compound (rs.map cell : List F)).1 (compound (rs.map cell)).2 ∧
      ∀ before after, rs = before ++ none :: after →
        (compound (rs.map cell : List F)).1.drop (before.length + 1)
            = (compound ((before ++ after).map cell)).1.drop before.length ∧
          (compound (rs.map cell : List F)).2.drop (before.length + 1)
            = (compound ((before ++ after).map cell)).2.drop before.length := by
  constructor
  · refine ⟨fun i hi => ?_, fun i r hr => ?_, equityAt_nonneg rs,
      fun i j r hr hruin hij => equityAt_eq_zero hr hruin hij⟩
    · have hpoint : (curveFrom 1 1 rs)[i]? = some none := getElem?_curveFrom_none hi
      rw [compound_eq_curve, List.getElem?_map, List.getElem?_map, hpoint]
      exact ⟨⟨_, rfl, nan_sub (.inl (isNan_cell none))⟩, _, rfl,
        nan_sub (.inr (nan_div (.inl (isNan_cell none))))⟩
    · obtain ⟨peak, hpoint, hpeak⟩ :
          ∃ peak, (curveFrom 1 1 rs)[i]? = some (some (1 * equityAt rs i, peak)) ∧
            IsGreatest (insert 1 ((1 * ·) '' equitiesTo rs i)) peak := getElem?_curveFrom_some hr
      simp only [one_mul, Set.image_id'] at hpoint hpeak
      have hone : 1 ≤ peak := hpeak.2 (.inl rfl)
      have hpos : 0 < peak := lt_of_lt_of_le one_pos hone
      have hle : equityAt rs i ≤ peak := hpeak.2 (.inr ⟨i, le_refl i, ⟨r, hr⟩, rfl⟩)
      rw [compound_eq_curve, List.getElem?_map, List.getElem?_map, hpoint]
      refine ⟨?_, peak, hpeak, hpos.ne', ?_, ?_, ?_⟩
      · show some (fin (equityAt rs i) - 1) = _
        rw [one_fin, sub_fin]
      · show some (1 - fin (equityAt rs i) / fin peak) = _
        rw [div_fin _ hpos.ne', one_fin, sub_fin]
      · exact sub_nonneg.mpr ((div_le_one hpos).mpr hle)
      · exact sub_le_self 1 (div_nonneg (equityAt_nonneg rs i) hpos.le)
  · rintro before after rfl
    obtain ⟨capital, peak, hdrop⟩ := drop_curveFrom (1 : K) 1 before
    have hgap : (curveFrom 1 1 (before ++ none :: after)).drop (before.length + 1)
        = (curveFrom 1 1 (before ++ after)).drop before.length := by
      rw [← List.drop_drop, hdrop, hdrop]
      rfl
    rw [compound_eq_curve, compound_eq_curve]
    dsimp only
    rw [← List.map_drop, ← List.map_drop, ← List.map_drop, ← List.map_drop, hgap]
    exact ⟨rfl, rfl⟩

/-- A gain, a loss, a gap, and a loss of more than there is. -/
def ruin : List (Option ℚ) := [some (1 / 2), some (-1 / 3), none, some (-2), some 1]

/-- A loss of everything and a gain after it. -/
theorem ruin_wellFormed : WellFormedCurve (F := ExtRat) ruin (compound (ruin.map cell)).1
    (compound (ruin.map cell)).2 := (compound_wellFormed ruin).1

example : compound (F := ExtRat) (ruin.map cell) =
    ([.fin (1 / 2), .fin 0, .nan, .fin (-1), .fin (-1)],
      [.fin 0, .fin (1 / 3), .nan, .fin 1, .fin 1]) := by
  decide +kernel

end
