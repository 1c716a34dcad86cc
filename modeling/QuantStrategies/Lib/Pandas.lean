import Mathlib.Data.Rat.Defs
import QuantStrategies.Lib.Causal

/-!
# Numbers, columns and frames

What numerical programs use of numpy and pandas. The numbers are a class with
one law: what is proved about a program that computes with them holds for exact
arithmetic, and for any other in which a value depends on the operands alone.

A rolling mean is more than a computation on a window. Pandas does not sum each
window anew: it keeps a running sum from row to row, adds the row that comes in
and takes away the one that goes out, and corrects the sum for what it has
rounded off so far. What rounding leaves behind therefore depends on rows that
the window no longer holds. The class takes the mean and the deviation of a
window as it finds them, and hands them the rows before the window as well.

A column has one value for each label of its index, and the type says so. Labels
need not be distinct. Where it matters, `reindex` refuses, and an index that is
asked for as it stands is not touched.

Frames are looked up by the names of their columns, and a name that a frame does not have
raises `KeyError`, as it does in pandas. What raises, and with which text, is part of the
definitions, since the programs hand these texts on.
-/

/-- What the programs use of numpy's floating-point numbers. -/
class NpFloat (F : Type) extends Zero F, One F, Neg F, Add F, Sub F, Mul F, Div F where
  /-- The number that a decimal literal, or an integer, denotes. -/
  lit : ℚ → F
  /-- `np.nan`. -/
  nan : F
  /-- `np.inf`. -/
  inf : F
  /-- `np.isnan(x)`. -/
  isNan : F → Bool
  /-- `np.isinf(x)`. -/
  isInf : F → Bool
  /-- `np.abs(x)`. -/
  abs : F → F
  /-- `np.sqrt(x)`. -/
  sqrt : F → F
  /-- `x < y`. -/
  lt : F → F → Bool
  /-- `x <= y`. -/
  le : F → F → Bool
  /-- `x == y`. -/
  eq : F → F → Bool
  /-- The mean that `xs.rolling(w).mean()` has on a full window, from the rows before
  the window and those in it. -/
  rollMean : List F → List F → F
  /-- The deviation that `xs.rolling(w).std()` has on a full window, from the rows
  before the window and those in it. -/
  rollStd : List F → List F → F
  /-- `np.nan` is not a number. -/
  isNan_nan : isNan nan = true

/-- Exact numbers, with what floating-point division and its kind make of the
rest. A square root is exact where it is rational, and rounded down to whole
numbers above and below the fraction bar where it is not. As nothing else rounds,
a running sum is the sum of its window. -/
inductive ExtRat where
  | nan
  | inf
  | negInf
  | fin (q : ℚ)
deriving DecidableEq

namespace ExtRat

/-- An infinity with the sign of a number. -/
def signed (q : ℚ) : ExtRat :=
  if 0 < q then inf else if q < 0 then negInf else nan

/-- `-x`. -/
def neg : ExtRat → ExtRat
  | nan => nan
  | inf => negInf
  | negInf => inf
  | fin q => fin (-q)

/-- `x + y`. -/
def add : ExtRat → ExtRat → ExtRat
  | fin p, fin q => fin (p + q)
  | fin _, y => y
  | x, fin _ => x
  | inf, inf => inf
  | negInf, negInf => negInf
  | _, _ => nan

/-- `x * y`. -/
def mul : ExtRat → ExtRat → ExtRat
  | fin p, fin q => fin (p * q)
  | fin p, inf => signed p
  | fin p, negInf => signed (-p)
  | inf, fin q => signed q
  | negInf, fin q => signed (-q)
  | inf, inf => inf
  | negInf, negInf => inf
  | inf, negInf => negInf
  | negInf, inf => negInf
  | _, _ => nan

/-- `x / y`, with zero taken as the limit from above. -/
def div : ExtRat → ExtRat → ExtRat
  | fin p, fin q => if q = 0 then signed p else fin (p / q)
  | fin _, inf => fin 0
  | fin _, negInf => fin 0
  | inf, fin q => if q < 0 then negInf else inf
  | negInf, fin q => if q < 0 then inf else negInf
  | _, _ => nan

/-- `x < y`. -/
def lt : ExtRat → ExtRat → Bool
  | fin p, fin q => decide (p < q)
  | negInf, fin _ => true
  | negInf, inf => true
  | fin _, inf => true
  | _, _ => false

/-- `np.sqrt(x)`. -/
def sqrt : ExtRat → ExtRat
  | fin q => if q < 0 then nan else fin (q.num.toNat.sqrt / q.den.sqrt)
  | inf => inf
  | _ => nan

/-- The mean of a few values. -/
def mean (xs : List ExtRat) : ExtRat := div (xs.foldl add (fin 0)) (fin xs.length)

/-- Their deviation, which a single value does not have. -/
def std (xs : List ExtRat) : ExtRat :=
  if xs.length ≤ 1 then nan
  else
    let squares := xs.map fun x => mul (add x (neg (mean xs))) (add x (neg (mean xs)))
    sqrt (div (squares.foldl add (fin 0)) (fin ((xs.length - 1 : ℕ) : ℚ)))

instance : NpFloat ExtRat where
  zero := fin 0
  one := fin 1
  neg := neg
  add := add
  sub x y := add x (neg y)
  mul := mul
  div := div
  lit := fin
  nan := nan
  inf := inf
  isNan x := decide (x = nan)
  isInf x := decide (x = inf ∨ x = negInf)
  abs
    | fin q => fin (if q < 0 then -q else q)
    | nan => nan
    | _ => inf
  sqrt := sqrt
  lt := lt
  le x y := lt x y || decide (x = y ∧ x ≠ nan)
  eq x y := decide (x = y ∧ x ≠ nan)
  rollMean _ := mean
  rollStd _ := std
  isNan_nan := rfl

/-- A number of this kind, as one of another. -/
def toFloat {F : Type} [NpFloat F] : ExtRat → F
  | fin q => NpFloat.lit q
  | inf => NpFloat.inf
  | negInf => -NpFloat.inf
  | nan => NpFloat.nan

/-- The zero of these numbers is finite. -/
theorem zero_eq_fin : (0 : ExtRat) = fin 0 := rfl

theorem one_eq_fin : (1 : ExtRat) = fin 1 := rfl

end ExtRat

/-- The exceptions the programs raise. -/
inductive PyError where
  | keyError (key : String)
  | valueError (message : String)
  | attributeError (name : String)
  | typeError
  | indexError
deriving DecidableEq

namespace Pandas

open NpFloat Causal

variable {L F : Type} [DecidableEq L] [NpFloat F]

/-! ## Columns -/

/-- A column over an index: one value for each label. -/
abbrev Column (F : Type) (index : List L) : Type := {xs : List F // xs.length = index.length}

/-- `pd.Series`. -/
structure Series (L F : Type) where
  /-- The labels, in their order, which may come more than once. -/
  index : List L
  /-- A value for each label. -/
  column : Column F index

namespace Series

/-- `s.to_numpy()`. -/
def values (s : Series L F) : List F := s.column.1

omit [DecidableEq L] [NpFloat F] in
/-- There are as many values as there are labels. -/
@[simp] theorem length_values (s : Series L F) : s.values.length = s.index.length := s.column.2

/-- The labels with their values. -/
def rows (s : Series L F) : List (L × F) := s.index.zip s.values

/-- A computation that keeps the index. -/
def transform (s : Series L F) (T : List F → List F) (hT : ∀ xs, (T xs).length = xs.length) :
    Series L F :=
  ⟨s.index, T s.values, by rw [hT, length_values]⟩

/-- The series that has these rows. -/
def ofRows (rs : List (L × F)) : Series L F :=
  ⟨rs.map Prod.fst, rs.map Prod.snd, by rw [List.length_map, List.length_map]⟩

/-- `s.dropna()`. -/
def dropna (s : Series L F) : Series L F :=
  ofRows (s.rows.filter fun r => !isNan r.2)

/-- `s.reindex(index)`: labels that `s` does not have get no value. A series that
has the index already is left as it is, and otherwise must not repeat a label. -/
def reindex (s : Series L F) (index : List L) : Except PyError (Column F index) :=
  if h : s.index = index then .ok ⟨s.values, by rw [length_values, h]⟩
  else if s.index.Nodup then
    .ok ⟨index.map fun l => (s.rows.lookup l).getD nan, List.length_map _⟩
  else .error (.valueError "cannot reindex on an axis with duplicate labels")

/-- **A series that already has the index is not touched**, whether or not a label comes twice:
pandas compares the two indexes first. -/
theorem reindex_self {s : Series L F} {index : List L} (h : s.index = index) :
    s.reindex index = .ok ⟨s.values, by rw [length_values, h]⟩ := dif_pos h

/-- Any other index is looked up label by label, and that is refused where a label of the series
comes twice. -/
theorem reindex_of_ne {s : Series L F} {index : List L} (h : s.index ≠ index) :
    s.reindex index = if s.index.Nodup then
      .ok ⟨index.map fun l => (s.rows.lookup l).getD nan, List.length_map _⟩
      else .error (.valueError "cannot reindex on an axis with duplicate labels") := dif_neg h

/-- Whether a series can be reindexed depends on its labels alone. -/
theorem reindex_of_index {s s' : Series L F} {index : List L} {c : Column F index}
    (h : s.reindex index = .ok c) (hs : s'.index = s.index) :
    ∃ c', s'.reindex index = .ok c' := by
  by_cases hidx : s'.index = index
  · exact ⟨_, reindex_self hidx⟩
  · rw [reindex_of_ne hidx]
    rw [reindex_of_ne (fun hi => hidx (hs.trans hi)), ← hs] at h
    by_cases hnd : s'.index.Nodup
    · exact ⟨_, if_pos hnd⟩
    · rw [if_neg hnd] at h
      cases h

end Series

/-! ## Frames -/

/-- `pd.DataFrame`, its columns in their order. -/
structure Frame (L F : Type) where
  /-- The labels that all columns share. -/
  index : List L
  /-- The columns under their names, none of them longer or shorter than the index. -/
  columns : List (String × Column F index)

namespace Frame

/-- `name in frame.columns`. -/
def hasColumn (f : Frame L F) (name : String) : Bool :=
  (f.columns.lookup name).isSome

/-- `frame[name]`. -/
def column (f : Frame L F) (name : String) : Except PyError (Column F f.index) :=
  match f.columns.lookup name with
  | some c => .ok c
  | none => .error (.keyError name)

omit [DecidableEq L] [NpFloat F] in
/-- A column is found exactly where its name is. -/
theorem column_eq_ok {f : Frame L F} {name : String} {c : Column F f.index} :
    f.column name = .ok c ↔ f.columns.lookup name = some c := by
  rw [column]
  cases f.columns.lookup name with
  | none => simp
  | some d => simp

omit [DecidableEq L] [NpFloat F] in
/-- The test for a name is the question whether a lookup would raise. -/
theorem hasColumn_iff {f : Frame L F} {name : String} :
    f.hasColumn name = true ↔ ∃ c, f.column name = .ok c := by
  rw [hasColumn, Option.isSome_iff_exists]
  exact exists_congr fun c => column_eq_ok.symm

/-- `frame[name]`, as a series. -/
def series (f : Frame L F) (name : String) : Except PyError (Series L F) := do
  let c ← f.column name
  return ⟨f.index, c⟩

/-- An association list with one entry put in the place of the one of its name,
or at the end. -/
def assign {C : Type} (name : String) (c : C) : List (String × C) → List (String × C)
  | [] => [(name, c)]
  | e :: es => if e.1 = name then (name, c) :: es else e :: assign name c es

/-- `frame[name] = column`. -/
def set (f : Frame L F) (name : String) (c : Column F f.index) : Frame L F :=
  { f with columns := assign name c f.columns }

/-- `pd.DataFrame({name: column})`. -/
def single (name : String) (index : List L) (c : Column F index) : Frame L F :=
  ⟨index, [(name, c)]⟩

/-- Assigning a column replaces the one of that name and leaves the others as they are. -/
theorem lookup_assign {C : Type} (name k : String) (c : C) (es : List (String × C)) :
    (assign name c es).lookup k = if k = name then some c else es.lookup k := by
  induction es with
  | nil =>
    by_cases hk : k = name
    · rw [if_pos hk, hk, assign, List.lookup_cons_self]
    · rw [if_neg hk, assign, List.lookup_cons, beq_false_of_ne hk]
  | cons e es ih =>
    by_cases he : e.1 = name
    · rw [assign, if_pos he, List.lookup_cons]
      by_cases hk : k = name
      · rw [if_pos hk, hk, beq_self_eq_true]
      · rw [if_neg hk, beq_false_of_ne hk, List.lookup_cons,
          beq_false_of_ne (fun h => hk (h.trans he))]
    · rw [assign, if_neg he, List.lookup_cons]
      by_cases hk : k = e.1
      · rw [hk, beq_self_eq_true, if_neg he, List.lookup_cons, beq_self_eq_true]
      · rw [beq_false_of_ne hk, List.lookup_cons, beq_false_of_ne hk]
        exact ih

/-- An entry that is put in its own place changes nothing. -/
theorem assign_of_lookup {C : Type} {name : String} {c : C} {es : List (String × C)}
    (h : es.lookup name = some c) : assign name c es = es := by
  induction es with
  | nil => cases h
  | cons e es ih =>
    by_cases he : e.1 = name
    · rw [List.lookup_cons, he, beq_self_eq_true] at h
      cases Option.some.inj h
      rw [assign, if_pos he, ← he]
    · rw [List.lookup_cons, beq_false_of_ne (Ne.symm he)] at h
      rw [assign, if_neg he, ih h]

end Frame

end Pandas
