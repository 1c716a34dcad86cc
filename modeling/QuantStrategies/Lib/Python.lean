import Mathlib.Algebra.Order.Floor.Defs
import Mathlib.Data.List.Infix
import Mathlib.Data.Rat.Floor

/-!
# Python's numbers and strings

What the modelled programs use of Python's floating-point numbers and of its
strings. The numbers are a class without laws: a program's result is computed
by these operations and no others, and what is proved about it does not depend
on how they round, or on what they do with a NaN. The rationals are an instance,
in which the operations are exact.

Whole numbers are written out in figures, and read back. The operations on
strings work on lists of characters. `lower` folds the ASCII letters, and is only
used to look for words in a text. Outside ASCII, the Kelvin sign alone folds to a
letter (a `k`, which none of the words has), and a dotted capital `I` to a letter
with a mark on it.
-/

/-- What the programs use of floating-point numbers. Comparisons are Boolean, as
a NaN compares false with everything. -/
class PyFloat (F : Type) extends Zero F, Neg F, Mul F where
  /-- The number that a decimal literal denotes. -/
  lit : ℚ → F
  /-- `abs(x)`. -/
  abs : F → F
  /-- `x < y`. -/
  lt : F → F → Bool
  /-- `x <= y`. -/
  le : F → F → Bool
  /-- `x == y`. -/
  eq : F → F → Bool
  /-- `int(round(x))`, where it does not raise. -/
  round : F → Option ℤ
  /-- `sum(xs)`. -/
  sum : List F → F
  /-- `format(x, "g")`. -/
  showG : F → String
  /-- `format(x, ".1f")`. -/
  showTenths : F → String

namespace PyFloat

/-- Rounding to the nearest integer, and to the even one of two. -/
def roundHalfEven (q : ℚ) : ℤ :=
  if q - ⌊q⌋ < 1 / 2 then ⌊q⌋
  else if 1 / 2 < q - ⌊q⌋ then ⌊q⌋ + 1
  else if ⌊q⌋ % 2 = 0 then ⌊q⌋ else ⌊q⌋ + 1

/-- Exact numbers. They are written out as fractions. -/
instance : PyFloat ℚ where
  lit := id
  abs q := |q|
  lt p q := decide (p < q)
  le p q := decide (p ≤ q)
  eq p q := decide (p = q)
  round q := some (roundHalfEven q)
  sum := List.sum
  showG := toString
  showTenths := toString

end PyFloat

namespace Python

/-- `int(x)`, towards zero. -/
def trunc (x : ℚ) : ℤ := if x < 0 then ⌈x⌉ else ⌊x⌋

/-- From zero on, what is behind the point is cut off downwards. -/
theorem trunc_of_nonneg {x : ℚ} (h : 0 ≤ x) : trunc x = ⌊x⌋ := if_neg (not_lt.mpr h)

/-- A whole number has nothing behind the point. -/
@[simp] theorem trunc_intCast (z : ℤ) : trunc z = z := by
  unfold trunc
  split
  · exact Int.ceil_intCast z
  · exact Int.floor_intCast z

/-- A whole number below is below what is left of the number, too. -/
theorem le_trunc {z : ℤ} {x : ℚ} (h : z ≤ x) : z ≤ trunc x := by
  unfold trunc
  split
  · exact Int.cast_le.mp (h.trans (Int.le_ceil x))
  · exact Int.le_floor.mpr h

/-- Cutting keeps the order, on either side of zero and across it. -/
theorem trunc_mono {x y : ℚ} (h : x ≤ y) : trunc x ≤ trunc y := by
  by_cases hx : x < 0
  · by_cases hy : y < 0
    · rw [trunc, if_pos hx, trunc, if_pos hy]
      exact Int.ceil_mono h
    · rw [trunc_of_nonneg (not_lt.mp hy), trunc, if_pos hx]
      exact (Int.ceil_le.mpr (by exact_mod_cast hx.le)).trans (Int.floor_nonneg.mpr (not_lt.mp hy))
  · rw [trunc_of_nonneg (not_lt.mp hx), trunc_of_nonneg ((not_lt.mp hx).trans h)]
    exact Int.floor_mono h

/-- `range(start, stop, step)`, where the step is not zero. -/
def range (start stop step : ℤ) : List ℤ :=
  let count := if 0 < step then (stop - start + step - 1) / step
    else (start - stop - step - 1) / -step
  (List.range count.toNat).map fun i : ℕ => start + i * step

/-- A range that runs upwards stays below its end. -/
theorem mem_range_of_pos {start stop step x : ℤ} (hstep : 0 < step)
    (h : x ∈ range start stop step) : start ≤ x ∧ x < stop := by
  rw [range, if_pos hstep] at h
  obtain ⟨i, hi, rfl⟩ := List.mem_map.mp h
  have hi : (i : ℤ) + 1 ≤ (stop - start + step - 1) / step := by
    have hlt := List.mem_range.mp hi
    omega
  have hend : ((i : ℤ) + 1) * step ≤ stop - start + step - 1 :=
    (Int.le_ediv_iff_mul_le hstep).mp hi
  have hpos : 0 ≤ (i : ℤ) * step := Int.mul_nonneg (Int.natCast_nonneg i) hstep.le
  rw [Int.add_mul, Int.one_mul] at hend
  omega

/-- `s.lower()`, on the ASCII letters. -/
def lower (s : String) : List Char :=
  s.toList.map Char.toLower

/-- `marker in s.lower()`. -/
def mentions (s marker : String) : Bool :=
  decide (marker.toList <:+: lower s)

/-- A letter in upper case. Outside ASCII, the letters whose upper case is ASCII. -/
def upperChar (c : Char) : List Char :=
  match c.toNat with
  | 0xDF => ['S', 'S']
  | 0x131 => ['I']
  | 0x17F => ['S']
  | 0xFB00 => ['F', 'F']
  | 0xFB01 => ['F', 'I']
  | 0xFB02 => ['F', 'L']
  | 0xFB03 => ['F', 'F', 'I']
  | 0xFB04 => ['F', 'F', 'L']
  | 0xFB05 => ['S', 'T']
  | 0xFB06 => ['S', 'T']
  | _ => [c.toUpper]

/-- `s.upper()`, as far as it yields ASCII letters. -/
def upper (s : String) : String := .ofList (s.toList.flatMap upperChar)

/-- White space, as `str.strip` takes it off and as the `\s` of a pattern matches it: the
blanks and separators of Unicode. -/
def isWhitespace (c : Char) : Bool :=
  c = ' ' || (9 ≤ c.toNat && c.toNat ≤ 13) || (28 ≤ c.toNat && c.toNat ≤ 31) ||
    (0x2000 ≤ c.toNat && c.toNat ≤ 0x200A) ||
    [0x85, 0xA0, 0x1680, 0x2028, 0x2029, 0x202F, 0x205F, 0x3000].contains c.toNat

/-- `s.strip()`. -/
def strip (s : String) : String :=
  .ofList (((s.toList.dropWhile isWhitespace).reverse.dropWhile isWhitespace).reverse)

/-- Numbers that are written alike are the same. -/
theorem toDigits_inj {n m : ℕ} (h : Nat.toDigits 10 n = Nat.toDigits 10 m) : n = m := by
  rw [← Nat.ofDigitChars_ten_toDigits (n := n), h, Nat.ofDigitChars_ten_toDigits]

/-- `"%0kd" % n`. -/
def padded (k n : ℕ) : List Char := (Nat.toDigits 10 n).leftpad k '0'

/-- `"%d" % n`. -/
def decimal (n : ℤ) : List Char :=
  if n < 0 then '-' :: Nat.toDigits 10 n.natAbs else Nat.toDigits 10 n.natAbs

/-- The zeros of the scripts of Unicode 15. The other figures of a script follow its zero. -/
def zeros : List ℕ :=
  [0x30, 0x660, 0x6F0, 0x7C0, 0x966, 0x9E6, 0xA66, 0xAE6, 0xB66, 0xBE6, 0xC66, 0xCE6, 0xD66, 0xDE6,
   0xE50, 0xED0, 0xF20, 0x1040, 0x1090, 0x17E0, 0x1810, 0x1946, 0x19D0, 0x1A80, 0x1A90, 0x1B50,
   0x1BB0, 0x1C40, 0x1C50, 0xA620, 0xA8D0, 0xA900, 0xA9D0, 0xA9F0, 0xAA50, 0xABF0, 0xFF10, 0x104A0,
   0x10D30, 0x11066, 0x110F0, 0x11136, 0x111D0, 0x112F0, 0x11450, 0x114D0, 0x11650, 0x116C0,
   0x11730, 0x118E0, 0x11950, 0x11C50, 0x11D50, 0x11DA0, 0x11F50, 0x16A60, 0x16AC0, 0x16B50,
   0x1D7CE, 0x1D7D8, 0x1D7E2, 0x1D7EC, 0x1D7F6, 0x1E140, 0x1E2F0, 0x1E4F0, 0x1E950, 0x1FBF0]

/-- The number that a figure stands for. -/
def figure (c : Char) : Option ℕ :=
  (zeros.find? fun z => z ≤ c.toNat && c.toNat < z + 10).map (c.toNat - ·)

/-- The characters of a pattern's `\d`. -/
def isDecimal (c : Char) : Bool := (figure c).isSome

/-- The number that figures stand for. -/
def ofFigures (s : List Char) : ℕ := s.foldl (fun n c => 10 * n + (figure c).getD 0) 0

/-- `int` does not read more figures than these. -/
def maxFigures : ℕ := 4300

/-- What is behind a minus, where there is one. -/
def unsigned (s : List Char) : List Char := if s.head? = some '-' then s.tail else s

/-- `int(s)`, of figures that a minus may be before, where it does not raise. -/
def int (s : List Char) : Option ℤ :=
  if maxFigures < (unsigned s).length then none
  else if s.head? = some '-' then some (-ofFigures (unsigned s))
  else some (ofFigures (unsigned s))

/-- `int(s)`, of any text, where it does not raise: blanks around it are taken off, a sign may
be before the figures, and single underscores between them. The separators that `str.strip`
takes off besides the blanks are refused here. -/
def intText (s : String) : Option ℤ :=
  let blank (c : Char) : Bool := isWhitespace c && !(28 ≤ c.toNat && c.toNat ≤ 31)
  let text := ((s.toList.dropWhile blank).reverse.dropWhile blank).reverse
  let sign := if text.head? = some '-' then ['-'] else []
  let figures := if text.head? = some '+' then text.tail else unsigned text
  let groups := figures.splitOn '_'
  if groups.all fun g => !g.isEmpty && g.all isDecimal then int (sign ++ groups.flatten) else none

/-- What a number is written with is figures. -/
theorem isDigit_of_mem_toDigits {n : ℕ} {c : Char} (h : c ∈ Nat.toDigits 10 n) :
    c.isDigit = true :=
  Nat.isDigit_of_mem_toDigits (by decide) (by decide) h

/-- A whole number is written with figures, and with a minus at most. -/
theorem mem_decimal {n : ℤ} {c : Char} (h : c ∈ decimal n) : c = '-' ∨ c.isDigit = true := by
  unfold decimal at h
  split at h
  · exact (List.mem_cons.mp h).imp_right isDigit_of_mem_toDigits
  · exact .inr (isDigit_of_mem_toDigits h)

/-- Nothing stands before the figures of a number that is not negative. -/
theorem decimal_natCast (n : ℕ) : decimal n = Nat.toDigits 10 n := if_neg (by omega)

/-- No number is written as an empty text. -/
theorem decimal_ne_nil (n : ℤ) : decimal n ≠ [] := by
  unfold decimal
  split
  · exact List.cons_ne_nil _ _
  · exact List.ne_nil_of_length_pos Nat.length_toDigits_pos

/-- Zeros in front are figures as well. -/
theorem isDigit_of_mem_padded {k n : ℕ} {c : Char} (h : c ∈ padded k n) : c.isDigit = true := by
  obtain h | h := List.mem_append.mp h
  · rw [List.eq_of_mem_replicate h]
    rfl
  · exact isDigit_of_mem_toDigits h

/-- A number that fits is as long as it is padded to. -/
theorem length_padded {k n : ℕ} (hk : 0 < k) (h : n < 10 ^ k) : (padded k n).length = k := by
  have hle : (Nat.toDigits 10 n).length ≤ k := (Nat.length_toDigits_le_iff (by decide) hk).mpr h
  rw [padded, List.leftpad, List.length_append, List.length_replicate, Nat.sub_add_cancel hle]

/-- Zeros in front do not change what the figures stand for. -/
theorem ofDigitChars_padded (k n : ℕ) : Nat.ofDigitChars 10 (padded k n) 0 = n := by
  rw [padded, List.leftpad, Nat.ofDigitChars_append, Nat.ofDigitChars_replicate_zero, Nat.mul_zero,
    Nat.ofDigitChars_ten_toDigits]

/-- The ASCII figures stand together. -/
theorem toNat_of_isDigit {c : Char} (h : c.isDigit = true) : 48 ≤ c.toNat ∧ c.toNat < 58 := by
  simp only [Char.isDigit, ge_iff_le, UInt32.le_iff_toNat_le, Bool.and_eq_true,
    decide_eq_true_eq] at h
  exact ⟨h.1, Nat.lt_succ_of_le h.2⟩

/-- Among them a figure stands for its distance from the zero. -/
theorem figure_of_isDigit {c : Char} (h : c.isDigit = true) : figure c = some (c.toNat - 48) := by
  obtain ⟨hle, hlt⟩ := toNat_of_isDigit h
  rw [figure, zeros, List.find?_cons_of_pos]
  · rfl
  · exact Bool.and_eq_true_iff.mpr ⟨decide_eq_true hle, decide_eq_true hlt⟩

/-- A pattern's `\d` matches each of them, besides those of other scripts. -/
theorem isDecimal_of_isDigit {c : Char} (h : c.isDigit = true) : isDecimal c = true := by
  rw [isDecimal, figure_of_isDigit h]
  rfl

/-- No figure is taken off as a blank. -/
theorem isWhitespace_of_isDigit {c : Char} (h : c.isDigit = true) : isWhitespace c = false := by
  obtain ⟨hle, hlt⟩ := toNat_of_isDigit h
  have hblank : c ≠ ' ' := by
    rintro rfl
    exact absurd hle (by decide)
  simp [isWhitespace, hblank]
  omega

/-- Read as Python reads them, ASCII figures stand for the number in base ten. -/
theorem ofFigures_of_isDigit {s : List Char} (h : ∀ c ∈ s, c.isDigit = true) :
    ofFigures s = Nat.ofDigitChars 10 s 0 := by
  refine List.foldl_ext _ _ _ fun n c hc => ?_
  rw [figure_of_isDigit (h c hc)]
  rfl

/-- Figures without a minus are the number that they are. -/
theorem int_of_isDigit {s : List Char} (h : ∀ c ∈ s, c.isDigit = true)
    (hlen : s.length ≤ maxFigures) : int s = some (Nat.ofDigitChars 10 s 0 : ℤ) := by
  have hminus : s.head? ≠ some '-' := fun hhead =>
    absurd (h '-' (List.mem_of_mem_head? hhead)) (by decide)
  rw [int, unsigned, if_neg hminus, if_neg (not_lt.mpr hlen), if_neg hminus, ofFigures_of_isDigit h]

/-- **What is written with zeros in front is read back**, as long as it is not longer than `int`
reads. -/
theorem int_padded {k n : ℕ} (h : (padded k n).length ≤ maxFigures) :
    int (padded k n) = some (n : ℤ) := by
  rw [int_of_isDigit (fun _ => isDigit_of_mem_padded) h, ofDigitChars_padded]

/-- **A number that is written out is read back.** Python refuses to read a text of more than
`maxFigures` figures, so that the number must not have more. -/
theorem int_decimal {n : ℤ} (h : (Nat.toDigits 10 n.natAbs).length ≤ maxFigures) :
    int (decimal n) = some n := by
  have hdigit : ∀ c ∈ Nat.toDigits 10 n.natAbs, c.isDigit = true := fun _ =>
    isDigit_of_mem_toDigits
  unfold decimal
  split
  · next hneg =>
    rw [int, unsigned, List.head?_cons, if_pos rfl, List.tail_cons, if_neg (not_lt.mpr h),
      if_pos rfl, ofFigures_of_isDigit hdigit, Nat.ofDigitChars_ten_toDigits]
    exact congrArg some (by omega)
  · next hnonneg =>
    rw [int_of_isDigit hdigit h, Nat.ofDigitChars_ten_toDigits]
    exact congrArg some (by omega)

/-- One hexadecimal digit. -/
def hexDigit (n : ℕ) : Char :=
  if n < 10 then Char.ofNat (48 + n) else Char.ofNat (87 + n)

/-- The quotation marks and the backslash. -/
def singleQuote : Char := Char.ofNat 39

@[inherit_doc singleQuote]
def doubleQuote : Char := Char.ofNat 34

@[inherit_doc singleQuote]
def backslash : Char := Char.ofNat 92

/-- A character as `repr` writes it between quotation marks `q`. -/
def reprChar (q c : Char) : List Char :=
  if c = q || c = backslash then [backslash, c]
  else if c.toNat = 10 then [backslash, 'n']
  else if c.toNat = 13 then [backslash, 'r']
  else if c.toNat = 9 then [backslash, 't']
  else if c.toNat < 32 || c.toNat = 127 then
    [backslash, 'x', hexDigit (c.toNat / 16), hexDigit (c.toNat % 16)]
  else [c]

/-- `repr(s)`: double quotation marks are for a text that has single ones, and
no double ones. -/
def repr (s : String) : String :=
  let q := if s.toList.contains singleQuote && !s.toList.contains doubleQuote
    then doubleQuote else singleQuote
  .ofList (q :: s.toList.flatMap (reprChar q) ++ [q])

end Python
