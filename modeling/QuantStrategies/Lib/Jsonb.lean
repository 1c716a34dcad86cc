import Mathlib.Data.List.Sort
import Mathlib.Data.Nat.Log
import Mathlib.Data.String.Basic
import QuantStrategies.Lib.Binary64
import QuantStrategies.Lib.Pandas
import QuantStrategies.Lib.Plpgsql

/-!
# Documents in the database

What becomes of a list of dictionaries that is dumped as JSON, cast to `jsonb` and read
again. A text of JSON has no infinity and nothing that is not a number; `json.dumps` writes
them all the same, and the cast refuses the document. A finite number is written with as many
digits as it takes to read the same number. A text has any character but the null character.

`jsonb` keeps a number as its decimal digits and writes them all out. From `10 ^ 16` on
`json.dumps` writes a number with an exponent, so that what is written out has no decimal
point, and is read as an integer: the one that the digits denote, which need not be the number.

`jsonb` does not keep the order of the keys either: shorter ones come first, and of one length
they are in the order of their bytes.

A column of a frame that is built of the documents again has one type. Integers become numbers
where there are numbers beside them.
-/

/-- A value that is not made of others. -/
inductive Scalar (F : Type) where
  | number (x : F)
  | integer (n : ℤ)
  | text (s : String)
deriving DecidableEq

/-- Numbers that are written as decimals. -/
class JsonFloat (F : Type) extends NpFloat F where
  /-- The whole number that `repr(x)` denotes, of a number of `10 ^ 16` and more. -/
  reprInt : F → ℤ

namespace Binary64

/-- The two multiples of a unit next to a number, and the nearer one first. -/
def multiples (q : ℚ) (unit : ℕ) : List ℤ :=
  let near := nearestEven (q / unit)
  let far := if near = ⌊q / unit⌋ then near + 1 else near - 1
  [near * unit, far * unit]

/-- The whole number that is written for a double that is one: of the fewest digits that are
read as the double, and of these the nearest. There are 17 digits at most. -/
def shortest (q : ℚ) : ℤ :=
  let digits := Nat.log 10 ⌊q⌋.toNat
  (((List.range 17).flatMap fun p => multiples q (10 ^ (digits - p))).find? fun n : ℤ =>
    decide (rounded (n : ℚ) = q)).getD ⌊q⌋

/-- A power of two has fewer digits when it is written. -/
example : shortest (2 ^ 62) = 4611686018427388000 ∧ shortest (10 ^ 16) = 10 ^ 16 := by
  decide +kernel

end Binary64

instance : JsonFloat ExtRat where
  reprInt
    | .fin q => if q < 0 then -Binary64.shortest (-q) else Binary64.shortest q
    | _ => 0

namespace Scalar

open NpFloat

variable {F : Type}

/-- A number, and not an integer or a text. -/
def isNumber : Scalar F → Bool
  | number _ => true
  | _ => false

/-- A text. -/
def isText : Scalar F → Bool
  | text _ => true
  | _ => false

/-- The integers of a column. -/
def integers (xs : List (Scalar F)) : List ℤ :=
  xs.filterMap fun
    | integer n => some n
    | _ => none

/-- The integers of a column fit one of the two types of the machine. -/
def Fits (ns : List ℤ) : Prop :=
  (∀ n ∈ ns, -2 ^ 63 ≤ n ∧ n < 2 ^ 63) ∨ ∀ n ∈ ns, 0 ≤ n ∧ n < 2 ^ 64

instance (ns : List ℤ) : Decidable (Fits ns) := inferInstanceAs (Decidable (_ ∨ _))

/-- An integer as a number. -/
def toNumber [NpFloat F] : Scalar F → Scalar F
  | integer n => number (lit n)
  | v => v

/-- The cells of a column of a new frame: integers become numbers where there are numbers, and
nothing else. -/
def converted [NpFloat F] (xs : List (Scalar F)) : List (Scalar F) :=
  if (∃ v ∈ xs, v.isNumber = true) ∧ (∀ v ∈ xs, v.isText = false) ∧ Fits (integers xs) then
    xs.map toNumber
  else xs

/-- A column keeps its length when its type is settled. -/
@[simp] theorem length_converted [NpFloat F] (xs : List (Scalar F)) :
    (converted xs).length = xs.length := by
  rw [converted, apply_ite List.length, List.length_map, ite_self]

/-- A column whose numbers have no integers beside them is left as it is. -/
theorem converted_of_alone [NpFloat F] {xs : List (Scalar F)}
    (h : ∀ x n, number x ∈ xs → integer n ∉ xs) : converted xs = xs := by
  rw [converted]
  split
  · next hmixed =>
    obtain ⟨⟨v, hv, hnumber⟩, -, -⟩ := hmixed
    cases v with
    | number x =>
      refine (List.map_congr_left fun w hw => ?_).trans (List.map_id xs)
      cases w with
      | number y => rfl
      | integer n => exact absurd hw (h x n hv)
      | text s => rfl
    | integer n => cases hnumber
    | text s => cases hnumber
  · rfl

end Scalar

namespace Jsonb

open NpFloat

variable {F V : Type} [JsonFloat F]

/-- The order of the keys of an object. -/
def KeyLe (a b : String) : Prop :=
  a.utf8ByteSize < b.utf8ByteSize ∨ (a.utf8ByteSize = b.utf8ByteSize ∧ a.toList ≤ b.toList)

instance (a b : String) : Decidable (KeyLe a b) := inferInstanceAs (Decidable (_ ∨ _))

/-- An object as it is kept. -/
def object (es : List (String × V)) : List (String × V) :=
  es.insertionSort fun e e' => KeyLe e.1 e'.1

/-- The keys come back in another order, and none is lost or made up. -/
theorem object_perm (es : List (String × V)) : (object es).Perm es := List.perm_insertionSort _ es

/-- A text has the null character. -/
def hasNull (s : String) : Bool := s.toList.contains (Char.ofNat 0)

/-- A number that JSON has no text for. -/
def Special : Scalar F → Prop
  | .number x => isNan x = true ∨ isInf x = true
  | _ => False

instance : (v : Scalar F) → Decidable (Special v)
  | .number x => inferInstanceAs (Decidable (isNan x = true ∨ isInf x = true))
  | .integer _ => inferInstanceAs (Decidable False)
  | .text _ => inferInstanceAs (Decidable False)

/-- A value with the null character in it. -/
def Null : Scalar F → Prop
  | .text s => hasNull s = true
  | _ => False

instance : (v : Scalar F) → Decidable (Null v)
  | .number _ => inferInstanceAs (Decidable False)
  | .integer _ => inferInstanceAs (Decidable False)
  | .text s => inferInstanceAs (Decidable (hasNull s = true))

/-- A value as it is read again. -/
def reread : Scalar F → Scalar F
  | .number x => if le (lit (10 ^ 16)) (NpFloat.abs x) then .integer (JsonFloat.reprInt x) else .number x
  | v => v

/-- `json.dumps(records)::jsonb`, as it is read again. -/
def cast (records : List (List (String × Scalar F))) :
    Except SqlError (List (List (String × Scalar F))) :=
  if ∃ r ∈ records, ∃ e ∈ r, Special e.2 then
    .error ⟨"22P02", "invalid input syntax for type json", by decide⟩
  else if ∃ r ∈ records, ∃ e ∈ r, hasNull e.1 = true ∨ Null e.2 then
    .error ⟨"22P05", "unsupported Unicode escape sequence", by decide⟩
  else .ok (records.map fun r => object (r.map fun e => (e.1, reread e.2)))

/-- A document that is taken has numbers only, and comes back value by value, in the order of
its keys. -/
theorem cast_eq_ok {records stored : List (List (String × Scalar F))}
    (h : cast records = .ok stored) :
    stored = records.map (fun r => object (r.map fun e => (e.1, reread e.2))) ∧
      ∀ r ∈ records, ∀ e ∈ r, ¬Special e.2 := by
  rw [cast] at h
  by_cases hspecial : ∃ r ∈ records, ∃ e ∈ r, Special e.2
  · rw [if_pos hspecial] at h
    cases h
  · rw [if_neg hspecial] at h
    by_cases hnull : ∃ r ∈ records, ∃ e ∈ r, hasNull e.1 = true ∨ Null e.2
    · rw [if_pos hnull] at h
      cases h
    · rw [if_neg hnull] at h
      cases h
      exact ⟨rfl, fun r hr e he hs => hspecial ⟨r, hr, e, he, hs⟩⟩

/-- A column that comes back as it is: its numbers are below `10 ^ 16`, either way, and have no
integers beside them. -/
structure Kept (xs : List (Scalar F)) : Prop where
  /-- No number is so large that it would come back without its decimal point. -/
  below : ∀ x, .number x ∈ xs → le (lit (10 ^ 16)) (NpFloat.abs x) = false
  /-- An integer beside a number would be turned into one. -/
  alone : ∀ x n, .number x ∈ xs → .integer n ∉ xs

/-- So none of its values is read back as another. -/
theorem Kept.reread {xs : List (Scalar F)} (h : Kept xs) {v : Scalar F} (hv : v ∈ xs) :
    reread v = v := by
  cases v with
  | number x => exact if_neg (by rw [h.below x hv]; exact Bool.false_ne_true)
  | integer n => rfl
  | text s => rfl

end Jsonb
