import Mathlib.Algebra.BigOperators.Ring.List
import QuantStrategies.Lib.Known
import QuantStrategies.Strategy.Performance

/-!
# Fees

`strategyPnl` computes a fee from a position and the one before it, and either may be
missing. Read as a ledger, it charges each change between two known positions and
nothing else: neither the first position after a gap nor the gap is a trade.

Positions are a column of numbers of an exact field and of missing cells. Returns are any
column: a return after a price of zero is infinite, and known. Of a position of zero it
makes nothing that is a number, as zero times an infinity is none; the fees do not depend
on it.

Turnover and returns are first computed cell by cell (`change`, `barPnl`), then a column of
them from the position before (`turnoverFrom`, `pnlFrom`), and only then compared with what
`strategyPnl` makes of shifted columns. The last part adds up: a stretch of known positions
pays its variation, whatever comes before and after it.
-/

open Pandas NpFloat ExactFloat

variable {K F : Type} [Field K] [LinearOrder K] [IsStrictOrderedRing K] [ExactIeee K F]

/-! ## What is charged for -/

/-- The sum of the changes of a series without gaps. -/
def variation (vs : List K) : K := (List.zipWith (fun p q => |q - p|) vs vs.tail).sum

/-- A stretch of known positions that no longer one contains. -/
structure Stretch (before : List (Option K)) (vs : List K) (after : List (Option K)) : Prop where
  /-- It has a position. -/
  nonempty : vs ≠ []
  /-- What comes before it ends in a gap, or there is nothing. -/
  before : ∀ x, before.getLast? = some x → x = none
  /-- What comes after it begins with one, or there is nothing. -/
  after : ∀ x, after.head? = some x → x = none

/-- The fees of some bars: the turnover of each, times the cost. -/
def totalFee (cost : K) (turnover : List F) : F := sum (turnover.map (· * fin cost))

/-- What the fees and the returns of a run are to be. -/
structure Ledger (positions : List (Option K)) (returns : List F) (cost : K)
    (turnover pnl : List F) : Prop where
  /-- A stretch of known positions is charged for the changes in it. -/
  fees : ∀ before vs after, positions = before ++ vs.map some ++ after →
    Stretch before vs after →
      totalFee cost ((turnover.drop before.length).take vs.length) = fin (cost * variation vs)
  /-- The first position of a stretch is not charged for. -/
  opening : ∀ (i : ℕ) p, positions[i]? = some (some p) → (∀ j, i = j + 1 → positions[j]? = some none) →
    turnover[i]? = some (fin 0)
  /-- There is nothing to charge in a gap. -/
  gap : ∀ i : ℕ, positions[i]? = some none → turnover[i]? = some nan
  /-- The bars that have a return are those on which all is known, and no infinite return
  meets a position of zero. -/
  defined : ∀ i, i ∈ rows 0 pnl ↔ ∃ j q p r, i = j + 1 ∧ positions[j]? = some (some q) ∧
    positions[j + 1]? = some (some p) ∧ returns[j + 1]? = some r ∧ isNan r = false ∧
      ¬ (q = 0 ∧ isInf r = true)
  /-- The return of such a bar. -/
  bar : ∀ j q p r, positions[j]? = some (some q) → positions[j + 1]? = some (some p) →
    returns[j + 1]? = some (fin r) → pnl[j + 1]? = some (fin (q * r - |p - q| * cost))
  /-- A series without gaps, whose returns are finite, has the gains of all bars but the
  first, less the fees. -/
  total : ∀ vs r ws, positions = vs.map some → returns = r :: ws.map fin →
    sum (known pnl) = fin ((List.zipWith (· * ·) vs ws).sum - cost * variation vs)

/-- The bars that have a return are those on which the position before, the position and
the return are known. -/
def DefinedWhereKnown (positions : List (Option K)) (returns pnl : List F) : Prop :=
  ∀ i, i ∈ rows 0 pnl ↔ ∃ j q p r, i = j + 1 ∧ positions[j]? = some (some q) ∧
    positions[j + 1]? = some (some p) ∧ returns[j + 1]? = some r ∧ isNan r = false

/-! ## Turnover -/

/-- The turnover of a position, after another one. -/
def change : Option K → Option K → Option K
  | _, none => none
  | none, some _ => some 0
  | some q, some p => some |p - q|

/-- The turnover of some positions, after another one. -/
def turnoverFrom (prior : Option K) : List (Option K) → List (Option K)
  | [] => []
  | p :: ps => change prior p :: turnoverFrom p ps

/-- The turnover of a bar as the code computes it. -/
def turnoverCell (pos prior : F) : F :=
  if isNan pos then nan else if !isNan prior then NpFloat.abs (pos - prior) else 0

/-- Cell by cell, the code's turnover is the change of known positions, zero for the first one and
a gap for a gap. -/
theorem turnoverCell_cell (prior pos : Option K) :
    turnoverCell (cell pos) (cell prior) = (cell (change prior pos) : F) := by
  rw [turnoverCell, isNan_cell, isNan_cell]
  cases pos with
  | none => rfl
  | some p =>
    cases prior with
    | none => exact zero_fin
    | some q =>
      show NpFloat.abs (fin p - fin q) = fin |p - q|
      rw [sub_fin, abs_fin]

/-- A column of turnovers, each from its position and the one before. -/
theorem zipWith_turnoverCell (prior : Option K) (ps : List (Option K)) :
    List.zipWith turnoverCell (ps.map cell) ((cell prior :: ps.map cell).take ps.length)
      = ((turnoverFrom prior ps).map cell : List F) := by
  induction ps generalizing prior with
  | nil => rfl
  | cons p ps ih =>
    rw [List.map_cons, List.length_cons, List.take_succ_cons, List.zipWith_cons_cons, ih,
      turnoverCell_cell]
    rfl

omit [IsStrictOrderedRing K] in
/-- The turnovers of the later positions, from the last position before them on. -/
theorem drop_turnoverFrom (prior : Option K) (xs ys : List (Option K)) :
    (turnoverFrom prior (xs ++ ys)).drop xs.length
      = turnoverFrom ((xs.getLast?).getD prior) ys := by
  induction xs generalizing prior with
  | nil => rfl
  | cons x xs ih =>
    show (turnoverFrom x (xs ++ ys)).drop xs.length = _
    rw [ih x, List.getLast?_cons, Option.getD_some]

omit [IsStrictOrderedRing K] in
/-- The turnover of one bar: of its position, and the one in front of it. -/
theorem getElem?_turnoverFrom (prior : Option K) (ps : List (Option K)) (i : ℕ) :
    (turnoverFrom prior ps)[i]?
      = (ps[i]?).map (change (((prior :: ps)[i]?).getD none)) := by
  induction ps generalizing prior i with
  | nil => rfl
  | cons p ps ih =>
    cases i with
    | zero => rfl
    | succ i => exact ih p i

omit [IsStrictOrderedRing K] in
/-- A stretch after a known position has the changes from it on. -/
theorem take_turnoverFrom (p : K) (vs : List K) (after : List (Option K)) :
    (turnoverFrom (some p) (vs.map some ++ after)).take vs.length
      = (List.zipWith (fun p q => |q - p|) (p :: vs) vs).map some := by
  induction vs generalizing p with
  | nil => rfl
  | cons v vs ih => exact congrArg (some |v - p| :: ·) (ih v)

/-! ## Returns -/

/-- The return of a bar that is entered with one position and left with another one. -/
def barPnl (cost : K) (prior pos : Option K) (ret : F) : F :=
  cell prior * ret - cell (change prior pos) * fin cost

/-- The returns of some bars, the first of them entered with some position. -/
def pnlFrom (cost : K) (prior : Option K) : List (Option K) → List F → List F
  | p :: ps, r :: rs => barPnl cost prior p r :: pnlFrom cost p ps rs
  | _, _ => []

/-- With all known, the gain on the position that was held, less the fee on the change. -/
theorem barPnl_fin (cost q p r : K) :
    (barPnl cost (some q) (some p) (fin r) : F) = fin (q * r - |p - q| * cost) := by
  show fin q * fin r - fin |p - q| * fin cost = _
  rw [mul_fin, mul_fin, sub_fin]

/-- A known position makes nothing that is a number of a missing return, nor a position of
zero of an infinite one. -/
theorem isNan_gain (q : K) (r : F) :
    isNan (cell (some q) * r) = (isNan r || (decide (q = 0) && isInf r)) := by
  have hzero : eq (fin q : F) 0 = decide (q = 0) := by
    rw [zero_fin, Bool.eq_iff_iff, eq_fin, decide_eq_true_iff]
  show isNan (fin q * r) = _
  rw [IeeeFloat.isNan_mul, isNan_fin, isInf_fin, hzero, Bool.false_or, Bool.false_and,
    Bool.or_false]

/-- A fee is a number that is taken from a gain, whatever that is. -/
theorem isNan_barPnl_some (cost q p : K) (r : F) :
    isNan (barPnl cost (some q) (some p) r) = (isNan r || (decide (q = 0) && isInf r)) := by
  have hfee : (cell (change (some q) (some p)) * fin cost : F) = fin (|p - q| * cost) :=
    mul_fin _ _
  rw [barPnl, hfee, IeeeFloat.isNan_sub, isNan_gain, isNan_fin, isInf_fin, Bool.and_false,
    Bool.false_and, Bool.or_false, Bool.or_false]

/-- A bar has a return exactly when all is known, and no infinite return meets a position of zero.
-/
theorem isNan_barPnl {cost : K} {prior pos : Option K} {ret : F} :
    isNan (barPnl cost prior pos ret) = false ↔ ∃ q p, prior = some q ∧ pos = some p ∧
      isNan ret = false ∧ ¬ (q = 0 ∧ isInf ret = true) := by
  cases prior with
  | none =>
    refine iff_of_false (fun h => ?_) fun ⟨_, _, h, _⟩ => by cases h
    rw [barPnl, nan_sub (.inl (nan_mul (.inl (isNan_cell none))))] at h
    cases h
  | some q =>
    cases pos with
    | none =>
      refine iff_of_false (fun h => ?_) fun ⟨_, _, _, h, _⟩ => by cases h
      have hgap : isNan (cell (change (some q) none) : F) = true := isNan_cell none
      rw [barPnl, nan_sub (.inr (nan_mul (.inl hgap)))] at h
      cases h
    | some p =>
      rw [isNan_barPnl_some, Bool.or_eq_false_iff]
      simp

/-- The return of one bar, by its own position and return and the position before. -/
theorem getElem?_pnlFrom {cost : K} {prior : Option K} {ps : List (Option K)} {rs : List F}
    {i : ℕ} {x : F} :
    (pnlFrom cost prior ps rs)[i]? = some x ↔ ∃ q p r, (prior :: ps)[i]? = some q ∧
      ps[i]? = some p ∧ rs[i]? = some r ∧ barPnl cost q p r = x := by
  induction ps generalizing prior rs i with
  | nil => exact iff_of_false nofun fun ⟨_, _, _, _, h, _⟩ => by cases h
  | cons p ps ih =>
    cases rs with
    | nil => exact iff_of_false nofun fun ⟨_, _, _, _, _, h, _⟩ => by cases h
    | cons r rs =>
      cases i with
      | zero =>
        constructor
        · exact fun h => ⟨prior, p, r, rfl, rfl, rfl, Option.some.inj h⟩
        · rintro ⟨q, p', r', hq, hp, hr, rfl⟩
          cases hq
          cases hp
          cases hr
          rfl
      | succ i => exact ih

/-- Without gaps, each bar has its gain less its fee. -/
theorem pnlFrom_map_some (cost q : K) {vs ws : List K} (hlen : ws.length = vs.length) :
    (pnlFrom cost (some q) (vs.map some) (ws.map fin) : List F)
      = (List.zipWith (· - ·) (List.zipWith (· * ·) (q :: vs) ws)
          ((List.zipWith (fun p q => |q - p|) (q :: vs) vs).map (· * cost))).map fin := by
  induction vs generalizing q ws with
  | nil =>
    obtain rfl := List.eq_nil_of_length_eq_zero hlen
    rfl
  | cons v vs ih =>
    obtain ⟨w, ws, rfl⟩ := List.exists_cons_of_length_eq_add_one hlen
    show barPnl cost (some q) (some v) (fin w) :: pnlFrom cost (some v) _ _ = _
    rw [barPnl_fin, ih v (Nat.succ.inj hlen)]
    rfl

/-- **What the code computes**, cell by cell. The shifted positions, the turnover and the returns
after fees are each a recursion along the rows that remembers the position before. -/
theorem strategyPnl_eq {ps : List (Option K)} {rs : List F} (cost : K) (hne : ps ≠ [])
    (hlen : rs.length = ps.length) :
    strategyPnl (ps.map cell) rs (fin cost : F) =
      .ok (shift (ps.map cell), (turnoverFrom none ps).map cell, pnlFrom cost none ps rs) := by
  have hshift : shift (ps.map cell) = ((cell none :: ps.map cell).take ps.length : List F) := by
    rw [shift_eq_take, List.length_map]
    rfl
  have hturnover : List.zipWith turnoverCell (ps.map cell) (shift (ps.map cell))
      = ((turnoverFrom none ps).map cell : List F) := by
    rw [hshift, zipWith_turnoverCell]
  have hpnl (prior : Option K) (ps : List (Option K)) (rs : List F)
      (hlen : rs.length = ps.length) :
      List.zipWith (fun gain turnover => gain - turnover * fin cost)
        (List.zipWith (· * ·) ((cell prior :: ps.map cell).take ps.length) rs)
          ((turnoverFrom prior ps).map cell) = (pnlFrom cost prior ps rs : List F) := by
    induction ps generalizing prior rs with
    | nil => rfl
    | cons p ps ih =>
      obtain ⟨r, rs, rfl⟩ := List.exists_cons_of_length_eq_add_one hlen
      exact congrArg (barPnl cost prior p r :: ·) (ih p rs (Nat.succ.inj hlen))
  rw [strategyPnl, if_neg (mt List.map_eq_nil_iff.mp hne)]
  show Except.ok (_, List.zipWith turnoverCell _ _,
    List.zipWith _ _ (List.zipWith turnoverCell _ _)) = _
  rw [hturnover, hshift, hpnl none ps rs hlen]

/-! ## The ledger -/

/-- A column of numbers has no gap to leave out. -/
theorem known_map_fin (xs : List K) : known (xs.map fin : List F) = xs.map fin :=
  List.filter_eq_self.mpr fun x hx => by
    obtain ⟨a, -, rfl⟩ := List.mem_map.mp hx
    rw [isNan_fin]
    rfl

omit [LinearOrder K] [IsStrictOrderedRing K] in
/-- The sum of differences is the difference of the sums. -/
theorem sum_zipWith_sub {xs ys : List K} (h : xs.length = ys.length) :
    (List.zipWith (· - ·) xs ys).sum = xs.sum - ys.sum := by
  induction xs generalizing ys with
  | nil =>
    obtain rfl := List.eq_nil_of_length_eq_zero h.symm
    exact (sub_self 0).symm
  | cons x xs ih =>
    obtain ⟨y, ys, rfl⟩ := List.exists_cons_of_length_eq_add_one h.symm
    rw [List.zipWith_cons_cons, List.sum_cons, List.sum_cons, List.sum_cons,
      ih (Nat.succ.inj h), add_sub_add_comm]

/-- The fees of turnovers that are numbers, as one number. -/
theorem totalFee_map_fin (cost : K) (xs : List K) :
    totalFee cost (xs.map fin : List F) = fin (cost * xs.sum) := by
  have hterms : (xs.map fin : List F).map (· * fin cost) = (xs.map (cost * ·)).map fin := by
    rw [List.map_map, List.map_map]
    exact List.map_congr_left fun x _ => (mul_fin x cost).trans (congrArg fin (mul_comm x cost))
  rw [totalFee, hterms, sum_map_fin, List.sum_map_mul_left, List.map_id']

/-- **Fees are charged for trades, and only for trades.** -/
theorem strategyPnl_ledger {ps : List (Option K)} {rs : List F} (cost : K) (hne : ps ≠ [])
    (hlen : rs.length = ps.length) :
    ∃ prior turnover pnl, strategyPnl (ps.map cell) rs (fin cost : F)
        = .ok (prior, turnover, pnl) ∧ Ledger ps rs cost turnover pnl := by
  refine ⟨_, _, _, strategyPnl_eq cost hne hlen, ?_⟩
  refine ⟨fun before vs after hps hstretch => ?_, fun i p hp hopening => ?_, fun i hi => ?_,
    fun i => ?_, fun j q p r hq hp hr => ?_, fun vs r ws hps hrs => ?_⟩
  · -- the turnover of a stretch begins with nothing, as the bar before it is not known
    obtain ⟨v, vs, rfl⟩ := List.exists_cons_of_ne_nil hstretch.nonempty
    have hprior : (before.getLast?).getD none = none := by
      cases hlast : before.getLast? with
      | none => rfl
      | some x => exact hstretch.before x hlast
    have hpart : ((turnoverFrom none ps).drop before.length).take (v :: vs).length
        = (0 :: List.zipWith (fun p q => |q - p|) (v :: vs) vs).map some := by
      rw [hps, List.append_assoc, drop_turnoverFrom, hprior]
      exact congrArg (some 0 :: ·) (take_turnoverFrom v vs after)
    rw [← List.map_drop, ← List.map_take, hpart, List.map_map]
    show totalFee cost (List.map fin _) = _
    rw [totalFee_map_fin, List.sum_cons, zero_add]
    rfl
  · have hprior : ((none :: ps)[i]?).getD none = none := by
      cases i with
      | zero => rfl
      | succ j => rw [List.getElem?_cons_succ, hopening j rfl]; rfl
    rw [List.getElem?_map, getElem?_turnoverFrom, hp, hprior]
    rfl
  · rw [List.getElem?_map, getElem?_turnoverFrom, hi]
    cases ((none :: ps)[i]?).getD none <;> rfl
  · constructor
    · rintro ⟨-, x, hx, hnan⟩
      obtain ⟨prior, pos, r, hprior, hpos, hret, rfl⟩ := getElem?_pnlFrom.mp hx
      obtain ⟨q, p, rfl, rfl, hr, hzero⟩ := isNan_barPnl.mp hnan
      cases i with
      | zero => cases hprior
      | succ j => exact ⟨j, q, p, r, rfl, hprior, hpos, hret, hr, hzero⟩
    · rintro ⟨j, q, p, r, rfl, hq, hp, hret, hr, hzero⟩
      exact ⟨Nat.zero_le _, _, getElem?_pnlFrom.mpr ⟨_, _, _, hq, hp, hret, rfl⟩,
        isNan_barPnl.mpr ⟨q, p, rfl, rfl, hr, hzero⟩⟩
  · exact getElem?_pnlFrom.mpr ⟨_, _, _, hq, hp, hr, barPnl_fin cost q p r⟩
  · obtain ⟨v, vs, rfl⟩ := List.exists_cons_of_ne_nil
      (fun h => hne (hps.trans (congrArg _ h)) : vs ≠ [])
    have hws : ws.length = vs.length := by
      rw [hps, hrs, List.length_cons, List.length_map, List.length_map, List.length_cons] at hlen
      exact Nat.succ.inj hlen
    have hfirst : isNan (barPnl cost none (some v) r : F) = true := by
      by_contra hknown
      obtain ⟨q, _, hq, _⟩ := isNan_barPnl.mp (Bool.eq_false_iff.mpr hknown)
      cases hq
    have hpnl : (pnlFrom cost none ps rs : List F) = barPnl cost none (some v) r ::
        (List.zipWith (· - ·) (List.zipWith (· * ·) (v :: vs) ws)
          ((List.zipWith (fun p q => |q - p|) (v :: vs) vs).map (· * cost))).map fin := by
      rw [hps, hrs, ← pnlFrom_map_some cost v hws]
      rfl
    rw [hpnl, known_cons, if_pos hfirst, known_map_fin, sum_map_fin, sum_zipWith_sub,
      List.sum_map_mul_right, List.map_id', mul_comm]
    · rfl
    · rw [List.length_zipWith, List.length_map, List.length_zipWith, hws]

/-- A trade within a stretch, between two gaps: its two units are charged for, and the
positions that follow the gaps are not. -/
theorem two_stretches_ledger :
    ∃ prior turnover pnl, strategyPnl (F := ExtRat)
        ([none, some 1, some (-1), none, some 1].map cell)
        [.nan, .fin (1 / 10), .fin (1 / 10), .fin 0, .fin (1 / 10)] (fin (1 / 100))
          = .ok (prior, turnover, pnl) ∧
      Ledger [none, some 1, some (-1), none, some 1]
        [.nan, .fin (1 / 10), .fin (1 / 10), .fin 0, .fin (1 / 10)] (1 / 100) turnover pnl :=
  strategyPnl_ledger (1 / 100) (List.cons_ne_nil _ _) rfl

example : (strategyPnl (F := ExtRat) ([none, some 1, some (-1), none, some 1].map cell)
    [.nan, .fin (1 / 10), .fin (1 / 10), .fin 0, .fin (1 / 10)] (fin (1 / 100))).toOption.map (·.2) =
      some ([.nan, .fin 0, .fin 2, .nan, .fin 0], [.nan, .nan, .fin (8 / 100), .nan, .nan]) := by
  decide +kernel

/-- **An infinite return that nobody is exposed to**: from a price of zero to one of five,
flat before and after. Everything is known, and the bar has no return. -/
theorem infinite_return_undefined :
    pctChange [.fin 0, .fin 5] = [ExtRat.nan, .inf] ∧
      ¬ ∃ prior turnover pnl, strategyPnl (F := ExtRat) ([some 0, some 0].map cell)
          [.nan, .inf] (fin (1 / 100)) = .ok (prior, turnover, pnl) ∧
        DefinedWhereKnown [some 0, some 0] [ExtRat.nan, .inf] pnl := by
  refine ⟨by decide +kernel, fun ⟨prior, turnover, pnl, hok, hdefined⟩ => ?_⟩
  have hpnl : (strategyPnl (F := ExtRat) ([some 0, some 0].map cell) [.nan, .inf]
      (fin (1 / 100))).toOption.map (·.2.2) = some [.nan, .nan] := by decide +kernel
  rw [hok] at hpnl
  obtain rfl : pnl = [.nan, .nan] := Option.some.inj hpnl
  obtain ⟨-, x, hx, hnan⟩ := (hdefined 1).mpr ⟨0, 0, 0, .inf, rfl, rfl, rfl, rfl, rfl⟩
  cases hx
  cases hnan
