import QuantStrategies.Lib.Binary64
import QuantStrategies.Lib.Rolling

/-!
# Running means of doubles

How pandas computes a rolling mean, and the doubles that it computes with. A row that
enters the window is added to a running sum and a row that leaves it is taken away, and
each of the two keeps a correction for what its last sum rounded off (Kahan's summation).
The corrections are small, and they outlive the rows that they come from: a rolling mean
of doubles is not in general the mean of its window.

Two rules mend what a reader would notice. A window that holds one value over and over
has that value for its mean, and the mean of values of one sign has this sign.

The definitions follow the loop of pandas step by step, with the state that it carries as a
structure, and are run on doubles where a rolling mean and the mean of its window are to be
told apart on given prices. What they are run on is an instance of the numbers, so that a
counterexample is a computation and not an estimate.
-/

open NpFloat Pandas

/-- The running sum of a window: the rows in it, the sum, what the last addition and the
last removal rounded off, how many rows are counted and how many of them are negative,
and the value that came last, with how often it came in a row. -/
structure RunningMean (F : Type) where
  /-- The rows that are in the window, the oldest first. -/
  window : List F
  /-- Their sum, as far as it was kept. -/
  sum : F
  /-- What the last addition has rounded off, to be taken into account by the next. -/
  added : F
  /-- The same for the last removal. -/
  removed : F
  /-- How many rows have a value. -/
  count : ℕ
  /-- How many of these are negative. -/
  negative : ℕ
  /-- The value that came last. -/
  last : F
  /-- How often it came in a row, which is what a constant window is told by. -/
  same : ℕ

namespace RunningMean

variable {F : Type} [NpFloat F]

/-- Before the first row. -/
def start : RunningMean F := ⟨[], 0, 0, 0, 0, 0, nan, 0⟩

/-- A row enters: `add_mean`. A row without a value is not counted. -/
def enter (s : RunningMean F) (x : F) : RunningMean F :=
  if observed x then
    let y := x - s.added
    let t := s.sum + y
    { window := s.window ++ [x], sum := t, added := t - s.sum - y, removed := s.removed,
      count := s.count + 1, negative := if lt x 0 then s.negative + 1 else s.negative,
      last := x, same := if eq x s.last then s.same + 1 else 1 }
  else { s with window := s.window ++ [x] }

/-- The oldest row leaves: `remove_mean`. -/
def leave (s : RunningMean F) : RunningMean F :=
  match s.window with
  | [] => s
  | x :: rest =>
    if observed x then
      let y := -x - s.removed
      let t := s.sum + y
      { s with
        window := rest, sum := t, removed := t - s.sum - y, count := s.count - 1,
        negative := if lt x 0 then s.negative - 1 else s.negative }
    else { s with window := rest }

/-- The next row, of a window of `w`. -/
def slide (w : ℕ) (s : RunningMean F) (x : F) : RunningMean F :=
  (if s.window.length < w then s else s.leave).enter x

/-- The mean of the rows that are counted: `calc_mean`. -/
def value (s : RunningMean F) : F :=
  let m := s.sum / lit (s.count : ℚ)
  if s.count ≤ s.same then s.last
  else if s.negative = 0 ∧ lt m 0 then 0
  else if s.negative = s.count ∧ lt 0 m then 0
  else m

/-- The rolling mean of a full window, after the rows before it: `roll_mean`. -/
def ofRows (before window : List F) : F :=
  ((before ++ window).foldl (slide window.length) start).value

end RunningMean

/-- Doubles, and the operations on them: those on exact numbers, rounded. -/
def Float64 : Type := ExtRat
deriving DecidableEq

namespace Float64

/-- The double that a decimal literal denotes. -/
def ofRat (q : ℚ) : Float64 := Binary64.ofRat q

/-- The operations on doubles, before anything is said of running sums. -/
@[reducible] def operations : NpFloat Float64 where
  zero := ExtRat.fin 0
  one := ExtRat.fin 1
  neg := ExtRat.neg
  add := Binary64.add
  sub := Binary64.sub
  mul := Binary64.mul
  div := Binary64.div
  lit := ofRat
  nan := ExtRat.nan
  inf := ExtRat.inf
  isNan := NpFloat.isNan (F := ExtRat)
  isInf := NpFloat.isInf (F := ExtRat)
  abs := NpFloat.abs (F := ExtRat)
  sqrt x := Binary64.round (ExtRat.sqrt x)
  lt := ExtRat.lt
  le := NpFloat.le (F := ExtRat)
  eq := NpFloat.eq (F := ExtRat)
  rollMean _ := ExtRat.mean
  rollStd _ := ExtRat.std
  isNan_nan := rfl

/-- Rolling means are running ones. Rolling deviations are taken window by window: what
is computed with doubles here takes none. -/
instance : NpFloat Float64 where
  __ := operations
  rollMean := @RunningMean.ofRows Float64 operations
  rollStd _ := @Pandas.std Float64 operations

/-- **What a window owes to the rows before it.** After a tenth and a few bars at three
tenths, the mean of two and four tenths is three tenths. Without the tenth it is the next
double. -/
example :
    RunningMean.ofRows ([1 / 10, 3 / 10, 3 / 10].map ofRat) ([1 / 5, 2 / 5].map ofRat) =
      ofRat (3 / 10) ∧
    lt (ofRat (3 / 10))
      (RunningMean.ofRows ([3 / 10, 3 / 10].map ofRat) ([1 / 5, 2 / 5].map ofRat)) = true := by
  decide +kernel

end Float64
