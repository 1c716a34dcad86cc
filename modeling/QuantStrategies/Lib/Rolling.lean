import QuantStrategies.Lib.Pandas

/-!
# Computations on columns

The computations of pandas that run down a column: rolling and exponentially
weighted windows, differences, and the cumulative ones. Each is an `expanding`
or a `loop`, so none looks ahead (`take_rolling` and its kind), and the ones
that read a bounded number of rows say after how many of them a window on the
column is right (`AgreesFrom.rolling` and its kind). A rolling mean is one of them
only up to what its running sum has rounded off before the window (`RollsAlike`).

Missing values are not skipped by the computations with a window, so a gap is felt for as
long as it lies in the window. The cumulative ones do skip them, and carry what they had
over the gap. Both follow from the definitions row by row, and no lemma asks for a column
without gaps unless it says so.
-/

namespace Pandas

open NpFloat Causal

variable {F : Type} [NpFloat F]

/-! ## Numbers out of a few values -/

/-- `sum(xs)`. -/
def sum (xs : List F) : F := xs.foldl (· + ·) 0

/-- `xs.mean()`. -/
def mean (xs : List F) : F := sum xs / lit (xs.length : ℚ)

/-- `xs.std(ddof=1)`: a single value has no spread to speak of. -/
def std (xs : List F) : F :=
  if xs.length ≤ 1 then nan
  else
    let m := mean xs
    sqrt (sum (xs.map fun x => (x - m) * (x - m)) / lit ((xs.length - 1 : ℕ) : ℚ))

/-- `xs.max()`. -/
def max : List F → F
  | [] => nan
  | x :: xs => xs.foldl (fun m x => if lt m x then x else m) x

/-- `xs.min()`. -/
def min : List F → F
  | [] => nan
  | x :: xs => xs.foldl (fun m x => if lt x m then x else m) x

/-- `x.clip(lower=b)`. A missing value stays missing. -/
def clipLower (b x : F) : F := if lt x b then b else x

/-! ## Rolling windows -/

/-- Whether a rolling computation counts the value. -/
def observed (x : F) : Bool := !isNan x && !isInf x

/-- A computation that has only the window to go by. -/
def alone (f : List F → F) : List F → List F → F := fun _ window => f window

/-- What a rolling computation of `w` rows makes of the rows up to one. Too few
rows, or one that is missing, give no value. -/
def window (f : List F → List F → F) (w : ℕ) (p : List F) : F :=
  if 0 < w ∧ (p.rtake w).length = w ∧ (p.rtake w).all observed then f (p.rdrop w) (p.rtake w)
  else nan

/-- `xs.rolling(window=w)`, and the computation on each window. The computation is
given the rows before the window too (`rollMean`, `rollStd`). One that makes no use
of them, such as a maximum, is taken `alone`. -/
def rolling (f : List F → List F → F) (w : ℕ) (xs : List F) : List F :=
  expanding (window f w) xs

/-- How `rolling` reads its argument. -/
def rollingWindow (w : ℤ) : Except PyError ℕ :=
  if w < 0 then .error (.valueError "window must be an integer 0 or greater") else .ok w.toNat

/-- A row for each row, with nothing in the first of them. -/
@[simp] theorem length_rolling (f : List F → List F → F) (w : ℕ) (xs : List F) :
    (rolling f w xs).length = xs.length := length_expanding _ xs

/-- A rolling window does not look ahead. -/
@[simp] theorem take_rolling (f : List F → List F → F) (w k : ℕ) (xs : List F) :
    (rolling f w xs).take k = rolling f w (xs.take k) := take_expanding _ k xs

omit [NpFloat F] in
/-- The last rows of a list are those of any suffix that has enough. -/
theorem rtake_append {w : ℕ} {p q : List F} (h : w ≤ q.length) :
    (p ++ q).rtake w = q.rtake w := by
  rw [List.rtake, List.rtake, List.length_append, Nat.add_sub_assoc h,
    List.drop_length_add_append]

/-- A computation on the window alone does not depend on the rows before it. -/
theorem window_alone {f : List F → F} {w : ℕ} {p q : List F} (h : p.rtake w = q.rtake w) :
    window (alone f) w p = window (alone f) w q := by
  rw [window, window, h, alone, alone]

/-! ## Exponentially weighted means -/

/-- How `ewm` reads its argument. -/
def ewmSpan (span : ℤ) : Except PyError ℤ :=
  if span < 1 then .error (.valueError "span must satisfy: span >= 1") else .ok span

/-- The weight of a new value: `1 / (1 + com)`, with `com = (span - 1) / 2`. -/
def ewmAlpha (span : ℤ) : F := 1 / (1 + (lit (span : ℚ) - 1) / lit 2)

/-- One row of `ewm(adjust=False, ignore_na=False).mean()`: the mean so far, and
the weight it has. A missing value leaves the mean, and lets it age. -/
def ewmStep (alpha : F) (s : F × F) (x : F) : F × (F × F) :=
  let seen := observed x
  if isNan s.1 then
    if seen then (x, (x, s.2)) else (nan, (nan, s.2))
  else
    let oldWt := s.2 * (1 - alpha)
    if seen then
      let m := if eq s.1 x then s.1 else (oldWt * s.1 + alpha * x) / (oldWt + alpha)
      (m, (m, 1))
    else (s.1, (s.1, oldWt))

/-- `xs.ewm(span=span, adjust=False).mean()`. -/
def ewm (span : ℤ) (xs : List F) : List F :=
  loop (ewmStep (ewmAlpha span)) (nan, 1) xs

@[simp] theorem length_ewm (span : ℤ) (xs : List F) : (ewm span xs).length = xs.length :=
  length_loop _ _ xs

/-- Nor does an exponential mean, whose state is the mean so far and its weight. -/
@[simp] theorem take_ewm (span : ℤ) (k : ℕ) (xs : List F) :
    (ewm span xs).take k = ewm span (xs.take k) := take_loop _ _ k xs

/-! ## Differences -/

/-- What is made of a row and the one before it. The first row has none. -/
def lagged (f : F → F → F) (p : List F) : F :=
  match p.reverse with
  | cur :: prev :: _ => f prev cur
  | _ => nan

/-- `xs.diff(1)`. -/
def diff (xs : List F) : List F := expanding (lagged fun prev cur => cur - prev) xs

/-- `xs.pct_change()`, which fills no gap. -/
def pctChange (xs : List F) : List F :=
  expanding (lagged fun prev cur => cur / prev - 1) xs

/-- The column one row later: `prior[0] = nan; prior[1:] = xs[:-1]`. -/
def shift (xs : List F) : List F := expanding (lagged fun prev _ => prev) xs

/-- A row for each row, the first of which has nothing to be compared with. -/
@[simp] theorem length_diff (xs : List F) : (diff xs).length = xs.length :=
  length_expanding _ xs

/-- A row for each row, the first of which has nothing to be compared with either. -/
@[simp] theorem length_pctChange (xs : List F) : (pctChange xs).length = xs.length :=
  length_expanding _ xs

/-- The last value is pushed out as the first row is left empty. -/
@[simp] theorem length_shift (xs : List F) : (shift xs).length = xs.length :=
  length_expanding _ xs

/-- A difference looks back one row. -/
@[simp] theorem take_diff (k : ℕ) (xs : List F) : (diff xs).take k = diff (xs.take k) :=
  take_expanding _ k xs

@[simp] theorem take_pctChange (k : ℕ) (xs : List F) :
    (pctChange xs).take k = pctChange (xs.take k) := take_expanding _ k xs

@[simp] theorem take_shift (k : ℕ) (xs : List F) : (shift xs).take k = shift (xs.take k) :=
  take_expanding _ k xs

/-- From its second row on, a computation on neighbours does not feel what came before. -/
theorem lagged_append (f : F → F → F) (p q : List F) (h : 2 ≤ q.length) :
    lagged f (p ++ q) = lagged f q := by
  match hq : q.reverse with
  | cur :: prev :: rest =>
    rw [lagged, lagged, List.reverse_append, hq]
    rfl
  | [_] =>
    have := congrArg List.length hq
    rw [List.length_reverse, List.length_singleton] at this
    omega
  | [] =>
    have := congrArg List.length hq
    rw [List.length_reverse, List.length_nil] at this
    omega

section

variable {xs : List F}

/-- The first row has none before it. -/
theorem isNan_lagged_zero {g : F → F → F} {y : F}
    (hy : (expanding (lagged g) xs)[0]? = some y) : isNan y = true := by
  obtain ⟨hlt, rfl⟩ := getElem?_expanding.mp hy
  obtain ⟨x, xs, rfl⟩ := List.exists_cons_of_length_pos hlt
  exact isNan_nan

/-- A later row is made of itself and the one before it. -/
theorem getElem?_lagged {g : F → F → F} {i : ℕ} {y : F} :
    (expanding (lagged g) xs)[i + 1]? = some y ↔
      ∃ prev cur, xs[i]? = some prev ∧ xs[i + 1]? = some cur ∧ g prev cur = y := by
  have hrow (hlt : i + 1 < xs.length) :
      lagged g (xs.take (i + 1 + 1)) = g xs[i] xs[i + 1] := by
    have htake : xs.take (i + 1 + 1) = xs.take i ++ [xs[i], xs[i + 1]] := by
      rw [List.take_succ_eq_append_getElem hlt, List.take_succ_eq_append_getElem (by omega),
        List.append_assoc]
      rfl
    rw [htake, lagged_append _ _ _ (le_refl 2)]
    rfl
  rw [getElem?_expanding]
  constructor
  · rintro ⟨hlt, rfl⟩
    exact ⟨_, _, List.getElem?_eq_getElem _, List.getElem?_eq_getElem hlt, (hrow hlt).symm⟩
  · rintro ⟨prev, cur, hprev, hcur, rfl⟩
    obtain ⟨hlt, rfl⟩ := List.getElem?_eq_some_iff.mp hcur
    obtain ⟨-, rfl⟩ := List.getElem?_eq_some_iff.mp hprev
    exact ⟨hlt, hrow hlt⟩

/-- A column one row later begins with nothing, and ends a row earlier. -/
theorem shift_eq_take (xs : List F) : shift xs = (nan :: xs).take xs.length := by
  have hlen : ((nan :: xs).take xs.length).length = xs.length := by
    rw [List.length_take, List.length_cons, Nat.min_eq_left (Nat.le_succ _)]
  refine List.ext_getElem? fun i => ?_
  by_cases hi : i < xs.length
  · rw [List.getElem?_take_of_lt hi]
    cases i with
    | zero =>
      obtain ⟨x, xs, rfl⟩ := List.exists_cons_of_length_pos hi
      have hfirst : (shift (x :: xs)).take 1 = [nan] := take_shift 1 (x :: xs)
      rw [← List.getElem?_take_of_lt Nat.one_pos, hfirst]
      rfl
    | succ i =>
      have hprev : xs[i]? = some xs[i] := List.getElem?_eq_getElem (Nat.lt_of_succ_lt hi)
      rw [List.getElem?_cons_succ, hprev]
      exact getElem?_lagged.mpr ⟨_, _, hprev, List.getElem?_eq_getElem hi, rfl⟩
  · rw [List.getElem?_eq_none (by rw [length_shift]; omega), List.getElem?_eq_none (by omega)]

end

/-! ## Cumulative computations -/

/-- `xs.cumprod()`, which skips what is missing. -/
def cumprod (xs : List F) : List F :=
  loop (fun acc x => if isNan x then (nan, acc) else (acc * x, acc * x)) 1 xs

/-- `xs.cummax()`, which skips what is missing. -/
def cummax (xs : List F) : List F :=
  loop (fun (acc : Option F) x =>
    if isNan x then (nan, acc)
    else
      let m := match acc with
        | none => x
        | some m => if lt m x then x else m
      (m, some m)) none xs

/-- A row for each row, with the product so far. -/
@[simp] theorem length_cumprod (xs : List F) : (cumprod xs).length = xs.length :=
  length_loop _ _ xs

/-- A row for each row, with the maximum so far. -/
@[simp] theorem length_cummax (xs : List F) : (cummax xs).length = xs.length :=
  length_loop _ _ xs

/-! ## Windows on columns -/

variable {d m : ℕ} {xs ys : List F}

/-- **Nothing is carried into a window.** A column and another one that starts `d`
rows later roll alike when a rolling computation makes the same of a window that
they share. A computation on the window alone always does (`rollsAlike_alone`). A
running sum does when rounding leaves behind the same of the rows before the window,
and so when there is none. -/
def RollsAlike (f : List F → List F → F) (w d : ℕ) (xs ys : List F) : Prop :=
  ∀ i < ys.length, (xs.take (d + i + 1)).rtake w = (ys.take (i + 1)).rtake w →
    window f w (xs.take (d + i + 1)) = window f w (ys.take (i + 1))

/-- A computation that looks at its window alone makes the same of it, wherever the column begins.
-/
theorem rollsAlike_alone (f : List F → F) (w d : ℕ) (xs ys : List F) :
    RollsAlike (alone f) w d xs ys := fun _ _ h => window_alone h

omit [NpFloat F] in
/-- The window at a row of two columns that agree from row `m` on, once the first of
its rows is one of those that agree. -/
theorem AgreesFrom.rtake (h : AgreesFrom d m xs ys) {w i : ℕ} (hi : m + (w - 1) ≤ i)
    (hlt : i < ys.length) :
    (xs.take (d + i + 1)).rtake w = (ys.take (i + 1)).rtake w := by
  obtain ⟨k, rfl⟩ := Nat.exists_eq_add_of_le (Nat.le_of_add_right_le hi)
  have hx : xs.take (d + (m + k) + 1) = xs.take (d + m) ++ (xs.drop (d + m)).take (k + 1) := by
    rw [← List.take_add]
    congr 1
    omega
  have hy : ys.take (m + k + 1) = ys.take m ++ (ys.drop m).take (k + 1) := by
    rw [← List.take_add]
    rfl
  have hlong : w ≤ ((ys.drop m).take (k + 1)).length := by
    rw [List.length_take, List.length_drop]
    omega
  rw [hx, hy, show xs.drop (d + m) = ys.drop m from h, rtake_append hlong, rtake_append hlong]

/-- A rolling computation takes `w - 1` rows to warm up, if nothing is carried into
its windows. -/
theorem AgreesFrom.rolling (h : AgreesFrom d m xs ys) (hlen : xs.length = d + ys.length)
    {f : List F → List F → F} {w : ℕ} (hroll : RollsAlike f w d xs ys) :
    AgreesFrom d (m + (w - 1)) (rolling f w xs) (rolling f w ys) := by
  refine List.ext_getElem? fun i => ?_
  rw [List.getElem?_drop, List.getElem?_drop]
  by_cases hlt : m + (w - 1) + i < ys.length
  · have hy := getElem?_expanding.mpr ⟨hlt, (rfl : window f w _ = _)⟩
    have hx := getElem?_expanding.mpr ⟨(by omega : d + (m + (w - 1) + i) < xs.length),
      (hroll _ hlt (AgreesFrom.rtake h (Nat.le_add_right _ i) hlt))⟩
    rw [← Nat.add_assoc] at hx
    exact hx.trans hy.symm
  · rw [List.getElem?_eq_none (by rw [length_rolling]; omega),
      List.getElem?_eq_none (by rw [length_rolling]; omega)]

/-- A difference warms up in one row. -/
theorem AgreesFrom.diff (h : AgreesFrom d m xs ys) (hlen : xs.length = d + ys.length) :
    AgreesFrom d (m + 1) (diff xs) (diff ys) :=
  h.expanding (lagged_append _) hlen

end Pandas
