import QuantStrategies.Lib.Bisect
import QuantStrategies.Strategy.Combine

/-!
# What conviction is

`_conviction` measures how far the rank of a reading, among the readings of its column
up to its row, is from the median. It looks the rank up in a list of the readings so
far, which it keeps sorted by inserting each one where it belongs.

The rank that is found there is the number of readings that are not above the reading.
Only their order matters to it, and not the order that they came in.

That the running list is sorted is the invariant of the loop (`SeenOf`), with the rows of
the column as its run. From it the rank that the bisection finds is a count
(`bisectRight_eq_countP`), and a count does not depend on how the list was filled. Two
columns with their readings in the same order then have the same ranks row by row, whatever
numbers they hold.
-/

open Pandas NpFloat IeeeFloat

/-! ## The description -/

section

variable {F : Type} [NpFloat F]

/-- `_conviction`, as the list of its rows. -/
def convictionMatrix (strengths : List (List F)) : Except PyError (List (List F)) :=
  match strengths with
  | [] => .error (.valueError "need at least one array to concatenate")
  | strengths => do
    let raw ← columnStack strengths
    let columns := (List.range strengths.length).map fun j => conviction (rowSigns raw j)
    return (List.range raw.length).map fun i => rowSigns columns i

/-- The list `seen` of a column, after its rows. -/
def seenAfter (column : List F) : List F :=
  column.foldl (fun seen value => (convictionStep seen value).2) []

/-- The readings of a column that are not missing. -/
def readings (column : List F) : List F := column.filter fun x => !isNan x

/-- The readings of a column up to a row. -/
def readingsUpTo (column : List F) (i : ℕ) : List F := readings (column.take (i + 1))

/-- How far the percentile of a reading is from the median, among the readings up to its
row. -/
def percentileDistance (column : List F) (i : ℕ) (reading : F) : F :=
  let below := (readingsUpTo column i).countP fun x => le x reading
  NpFloat.abs (lit (below : ℚ) / lit ((readingsUpTo column i).length : ℚ) - lit (1 / 2))

/-- The conviction of a reading. -/
structure ConvictionAt (column : List F) (i : ℕ) (reading c : F) : Prop where
  /-- It is zero on a row without a reading. -/
  missing : isNan reading = true → c = 0
  /-- And zero for the first reading, which there is nothing to compare with. -/
  first : isNan reading = false → (∀ x ∈ column.take i, isNan x = true) → c = 0
  /-- From the second on, it is the distance of the rank from the median. -/
  ranked : isNan reading = false → (∃ x ∈ column.take i, isNan x = false) →
    c = percentileDistance column i reading

/-- Two columns have their readings on the same rows up to a row, and in the same order. -/
structure SameOrder (i : ℕ) (xs ys : List F) : Prop where
  /-- They have their readings on the same rows. -/
  missing : ∀ a ≤ i, isNan (xs.getD a nan) = isNan (ys.getD a nan)
  /-- Of any two rows, they agree which has the larger one. -/
  order : ∀ a ≤ i, ∀ b ≤ i, lt (xs.getD a nan) (xs.getD b nan) = lt (ys.getD a nan) (ys.getD b nan)

end

variable {F : Type} [IeeeOrder F]

/-! ## The running list -/

/-- The source's loop is the search of the library, asked whether the value is below an entry. -/
theorem bisectLoop_eq_search (a : List F) (x : F) (fuel lo hi : ℕ) :
    bisectLoop a x fuel lo hi = Bisect.search (fun i => lt x (a.getD i nan)) fuel lo hi := by
  induction fuel generalizing lo hi with
  | zero => rfl
  | succ fuel ih =>
    rw [bisectLoop, Bisect.search]
    dsimp only
    rw [ih, ih]

/-- On one side of a value or the other. -/
theorem gap_of_known {a : List F} (hknown : ∀ y ∈ a, isNan y = false) (x : F) :
    ∀ z ∈ a, ∀ y, lt x y = true → lt x z = true ∨ lt z y = true :=
  fun z hz _ h => lt_or_lt h (hknown z hz)

/-- **The bisection counts** the readings that are not above the value. -/
theorem bisectRight_eq_countP {a : List F} (ha : Bisect.Sorted lt a)
    (hknown : ∀ y ∈ a, isNan y = false) (x : F) :
    bisectRight a x = a.countP fun y => !lt x y := by
  rw [bisectRight, bisectLoop_eq_search]
  refine Bisect.search_eq (fun i _ hi => ?_) (Nat.zero_le _) List.countP_le_length (by omega)
  rw [List.getD_eq_getElem?_getD, List.getElem?_eq_getElem hi, Option.getD_some]
  exact Bisect.getElem_iff_countP_le (ha.from_place (gap_of_known hknown x)) hi

/-- What the running list is: the readings so far, sorted. -/
structure SeenOf (seen column : List F) : Prop where
  /-- No entry is below one in front of it. -/
  sorted : Bisect.Sorted lt seen
  /-- It has the readings so far, each as often as it came. -/
  perm : seen.Perm (readings column)

/-- No entry of the list is missing: a row without a reading is not inserted. -/
theorem SeenOf.known {seen column : List F} (h : SeenOf seen column) :
    ∀ y ∈ seen, isNan y = false := fun y hy => by
  have hy := (List.mem_filter.mp (h.perm.mem_iff.mp hy)).2
  rwa [Bool.not_eq_true'] at hy

/-- A row without a reading adds none. -/
theorem readings_append_missing (column : List F) {value : F} (h : isNan value = true) :
    readings (column ++ [value]) = readings column := by
  rw [readings, List.filter_append, List.filter_singleton, h]
  exact List.append_nil _

/-- A row with one adds it behind the others. -/
theorem readings_append_known (column : List F) {value : F} (h : isNan value = false) :
    readings (column ++ [value]) = readings column ++ [value] := by
  rw [readings, List.filter_append, List.filter_singleton, h]
  rfl

/-- A reading that is inserted is one more of the list. -/
theorem SeenOf.inserted {seen column : List F} (h : SeenOf seen column) {value : F}
    (hvalue : isNan value = false) : SeenOf (insort seen value) (column ++ [value]) := by
  constructor
  · rw [insort, bisectRight_eq_countP h.sorted h.known]
    exact h.sorted.insert (fun _ => lt_asymm) (gap_of_known h.known value)
  · rw [readings_append_known column hvalue]
    refine (Bisect.insert_perm seen value _).trans ?_
    exact (h.perm.cons value).trans (List.perm_append_singleton value _).symm

/-- **A row keeps the list sorted.** A missing reading is not inserted, and any other goes behind
all that are not above it. -/
theorem SeenOf.step {seen column : List F} (h : SeenOf seen column) (value : F) :
    SeenOf (convictionStep seen value).2 (column ++ [value]) := by
  rw [convictionStep]
  dsimp only
  split_ifs with hnan hone
  · exact ⟨h.sorted, readings_append_missing column hnan ▸ h.perm⟩
  · exact h.inserted (Bool.eq_false_iff.mpr hnan)
  · exact h.inserted (Bool.eq_false_iff.mpr hnan)

/-- **The running list is sorted throughout.** So the bisection, which needs a sorted list, counts
what it is meant to count on every bar. -/
theorem seenOf_seenAfter (column : List F) : SeenOf (seenAfter column) column := by
  induction column using List.reverseRecOn with
  | nil => exact ⟨List.Pairwise.nil, .refl _⟩
  | append_singleton column value ih =>
    rw [seenAfter, List.foldl_append]
    exact ih.step value

/-! ## The conviction of a row -/

/-- The median is no distance from itself. -/
theorem abs_median_sub_median : NpFloat.abs (lit (1 / 2) - lit (1 / 2) : F) = 0 := by
  rw [IeeeOrder.sub_self (isNan_lit _) (isInf_lit (by norm_num [abs_le])), IeeeOrder.abs_zero]

/-- The rank of a reading in a sorted list is the number of readings up to it. -/
theorem SeenOf.bisectRight_eq {seen column : List F} (h : SeenOf seen column) {value : F}
    (hvalue : isNan value = false) :
    bisectRight seen value = (readings column).countP fun x => le x value := by
  rw [bisectRight_eq_countP h.sorted h.known, h.perm.countP_eq]
  refine List.countP_congr fun x hx => ?_
  rw [IeeeOrder.le_eq (h.known x (h.perm.mem_iff.mpr hx)) hvalue]

/-- **A row of `_conviction`**, from the readings up to it. The distance is of the reading's rank
among all readings so far, its own included, from the middle. -/
theorem getElem?_conviction {column : List F} {i : ℕ} {reading : F}
    (h : column[i]? = some reading) :
    (conviction column)[i]? = some
      (if isNan reading then 0
      else if (readingsUpTo column i).length ≤ 1 then 0
      else percentileDistance column i reading) := by
  have hseen : SeenOf (seenAfter (column.take i)) (column.take i) := seenOf_seenAfter _
  have hrows : column.take (i + 1) = column.take i ++ [reading] := by
    rw [List.take_add_one, h]
    rfl
  rw [conviction, Causal.getElem?_loop, h, Option.map_some]
  show some (convictionStep (seenAfter (column.take i)) reading).1 = _
  refine congrArg some ?_
  rw [convictionStep]
  dsimp only
  rw [abs_median_sub_median]
  cases hnan : isNan reading with
  | true => rfl
  | false =>
    have hinserted : SeenOf (insort (seenAfter (column.take i)) reading) (column.take (i + 1)) :=
      hrows ▸ hseen.inserted hnan
    rw [if_neg Bool.false_ne_true, if_neg Bool.false_ne_true, hinserted.perm.length_eq,
      hinserted.bisectRight_eq hnan]
    show (if (readingsUpTo column i).length ≤ 1 then (0, _) else (_, _)).1 = _
    split
    · rfl
    · rfl

/-- The readings up to a row that has one. -/
theorem readingsUpTo_known {column : List F} {i : ℕ} {reading : F}
    (h : column[i]? = some reading) (hnan : isNan reading = false) :
    readingsUpTo column i = readings (column.take i) ++ [reading] := by
  have hrows : column.take (i + 1) = column.take i ++ [reading] := by
    rw [List.take_add_one, h]
    rfl
  rw [readingsUpTo, hrows, readings_append_known _ hnan]

/-- **The conviction of a reading is its distance from the median**, and zero where it is
missing or the first. -/
theorem conviction_at {column : List F} {i : ℕ} {reading : F} (h : column[i]? = some reading) :
    ∃ c, (conviction column)[i]? = some c ∧ ConvictionAt column i reading c := by
  refine ⟨_, getElem?_conviction h, ⟨fun hnan => ?_, fun hnan hnone => ?_, fun hnan hsome => ?_⟩⟩
  · rw [if_pos hnan]
  · have hempty : readings (column.take i) = [] :=
      List.filter_eq_nil_iff.mpr fun x hx => by rw [hnone x hx]; exact Bool.false_ne_true
    rw [if_neg (by rw [hnan]; exact Bool.false_ne_true), readingsUpTo_known h hnan, hempty]
    exact if_pos le_rfl
  · obtain ⟨x, hx, hknown⟩ := hsome
    have hmem : x ∈ readings (column.take i) := List.mem_filter.mpr ⟨hx, by rw [hknown]; rfl⟩
    have hpos := List.length_pos_of_mem hmem
    rw [if_neg (by rw [hnan]; exact Bool.false_ne_true), if_neg]
    rw [readingsUpTo_known h hnan, List.length_append, List.length_singleton]
    omega

/-! ## Order is all that matters -/

/-- The rows up to a row that have a reading. -/
def knownRows (column : List F) (i : ℕ) : List ℕ :=
  (List.range (i + 1)).filter fun a => !isNan (column.getD a nan)

/-- The readings up to a row, by the rows that have them. -/
theorem readingsUpTo_eq_map {column : List F} {i : ℕ} (hi : i < column.length) :
    readingsUpTo column i = (knownRows column i).map fun a => column.getD a nan := by
  have htake : column.take (i + 1) = (List.range (i + 1)).map fun a => column.getD a nan := by
    refine List.ext_getElem ?_ fun a ha _ => ?_
    · rw [List.length_take, List.length_map, List.length_range]
      omega
    · rw [List.length_take] at ha
      rw [List.getElem_take, List.getElem_map, List.getElem_range, List.getD_eq_getElem?_getD,
        List.getElem?_eq_getElem (by omega), Option.getD_some]
  rw [readingsUpTo, readings, htake, List.filter_map]
  rfl

namespace SameOrder

variable {i : ℕ} {xs ys : List F}

/-- Two columns in one order have their readings on the same rows. -/
theorem knownRows_eq (h : SameOrder i xs ys) : knownRows xs i = knownRows ys i :=
  List.filter_congr fun a ha => by rw [h.missing a (Nat.lt_succ_iff.mp (List.mem_range.mp ha))]

/-- So they have as many readings up to a row. -/
theorem length_readingsUpTo (h : SameOrder i xs ys) (hx : i < xs.length) (hy : i < ys.length) :
    (readingsUpTo xs i).length = (readingsUpTo ys i).length := by
  rw [readingsUpTo_eq_map hx, readingsUpTo_eq_map hy, List.length_map, List.length_map,
    h.knownRows_eq]

/-- A reading that is there has the same rank. -/
theorem percentileDistance_eq (h : SameOrder i xs ys) (hx : i < xs.length) (hy : i < ys.length)
    (hknown : isNan (xs.getD i nan) = false) :
    percentileDistance xs i (xs.getD i nan) = percentileDistance ys i (ys.getD i nan) := by
  have hknown' : isNan (ys.getD i nan) = false := h.missing i le_rfl ▸ hknown
  have hbelow : (readingsUpTo xs i).countP (fun x => le x (xs.getD i nan))
      = (readingsUpTo ys i).countP fun y => le y (ys.getD i nan) := by
    rw [readingsUpTo_eq_map hx, readingsUpTo_eq_map hy, List.countP_map, List.countP_map,
      h.knownRows_eq]
    refine List.countP_congr fun a ha => ?_
    obtain ⟨hrange, ha'⟩ := List.mem_filter.mp ha
    have hle : a ≤ i := Nat.lt_succ_iff.mp (List.mem_range.mp hrange)
    rw [Bool.not_eq_true'] at ha'
    rw [Function.comp_apply, Function.comp_apply, IeeeOrder.le_eq (h.missing a hle ▸ ha') hknown,
      IeeeOrder.le_eq ha' hknown', h.order i le_rfl a hle]
  rw [percentileDistance, percentileDistance, hbelow, h.length_readingsUpTo hx hy]

/-- **Columns in the same order up to a row** have the same conviction on it. Only comparisons of
readings enter, so that a change of scale that keeps their order makes no difference. -/
theorem conviction_eq (h : SameOrder i xs ys) (hx : i < xs.length) (hy : i < ys.length) :
    (conviction xs)[i]? = (conviction ys)[i]? := by
  have hget {zs : List F} (hz : i < zs.length) : zs[i]? = some (zs.getD i nan) := by
    rw [List.getD_eq_getElem?_getD, List.getElem?_eq_getElem hz, Option.getD_some]
  rw [getElem?_conviction (hget hx), getElem?_conviction (hget hy), h.missing i le_rfl,
    h.length_readingsUpTo hx hy]
  cases hnan : isNan (ys.getD i nan) with
  | true => rfl
  | false => rw [h.percentileDistance_eq hx hy ((h.missing i le_rfl).trans hnan)]

end SameOrder

/-! ## All columns -/

/-- The entry of a matrix, as the list of its rows. -/
def entry (rows : List (List F)) (i j : ℕ) : Option F := rows[i]?.bind (·[j]?)

/-- A row of stacked columns, entry by entry: each column's own entry of that row. -/
theorem getElem?_rowSigns {α : Type} {n i : ℕ} {columns : List (List α)}
    (h : ∀ c ∈ columns, c.length = n) (hi : i < n) (j : ℕ) :
    (rowSigns columns i)[j]? = columns[j]?.bind (·[i]?) := by
  induction columns generalizing j with
  | nil => rfl
  | cons column columns ih =>
    obtain ⟨hlen, hcolumns⟩ := List.forall_mem_cons.mp h
    obtain ⟨x, hrow⟩ : ∃ x, column[i]? = some x := ⟨_, List.getElem?_eq_getElem (hlen ▸ hi)⟩
    rw [rowSigns, List.filterMap_cons_some (f := (·[i]?)) hrow]
    cases j with
    | zero => exact hrow.symm
    | succ j => exact ih hcolumns j

/-- Reading a list by all of its places gives the list. -/
theorem filterMap_getElem?_range {α : Type} (xs : List α) :
    (List.range xs.length).filterMap (xs[·]?) = xs := by
  induction xs with
  | nil => rfl
  | cons x xs ih =>
    rw [List.length_cons, List.range_succ_eq_map,
      List.filterMap_cons_some (f := ((x :: xs)[·]?)) (b := x) rfl, List.filterMap_map]
    exact congrArg (x :: ·) ih

/-- The columns that rows are stacked from are those of the rows. -/
theorem rowSigns_stacked {α : Type} {n j : ℕ} {columns : List (List α)}
    (h : ∀ c ∈ columns, c.length = n) {column : List α} (hj : columns[j]? = some column) :
    rowSigns ((List.range n).map (rowSigns columns)) j = column := by
  have hlen : column.length = n := h column (List.mem_of_getElem? hj)
  rw [rowSigns, List.filterMap_map]
  refine (List.filterMap_congr fun i hi => ?_).trans (hlen ▸ filterMap_getElem?_range column)
  rw [Function.comp_apply, getElem?_rowSigns h (List.mem_range.mp hi), hj]
  rfl

/-- Columns that are not of one length are not stacked. This is the `ValueError` of numpy, and
what keeps factors of different lengths from being combined. -/
theorem columnStack_eq_error {α : Type} {columns : List (List α)}
    (h : ¬ ∃ n, ∀ c ∈ columns, c.length = n) : columnStack columns = .error (.valueError
      "all the input array dimensions except for the concatenation axis must match exactly") := by
  refine if_neg fun hall => h ⟨(columns.map List.length).headD 0, fun c hc => ?_⟩
  exact of_decide_eq_true (List.all_eq_true.mp hall c hc)

/-- **The matrix has the conviction of each column.** It is the one that positions are
combined by. -/
theorem convictionMatrix_eq {strengths : List (List F)} (hne : strengths ≠ []) :
    convictionMatrix strengths = columnStack (strengths.map conviction) := by
  have hdef : convictionMatrix strengths = (columnStack strengths >>= fun raw =>
      .ok ((List.range raw.length).map fun i => rowSigns ((List.range strengths.length).map
        fun j => conviction (rowSigns raw j)) i)) := by
    obtain ⟨c, cs, rfl⟩ := List.exists_cons_of_ne_nil hne
    rfl
  rw [hdef]
  by_cases hlen : ∃ n, ∀ c ∈ strengths, c.length = n
  · obtain ⟨n, hlen⟩ := hlen
    have hconviction : ∀ c ∈ strengths.map conviction, c.length = n := fun c hc => by
      obtain ⟨column, hcolumn, rfl⟩ := List.mem_map.mp hc
      rw [length_conviction, hlen column hcolumn]
    have hcolumns : ((List.range strengths.length).map fun j =>
        conviction (rowSigns ((List.range n).map (rowSigns strengths)) j))
          = strengths.map conviction := by
      refine List.ext_getElem (by simp) fun j hj _ => ?_
      rw [List.length_map, List.length_range] at hj
      rw [List.getElem_map, List.getElem_map, List.getElem_range,
        rowSigns_stacked hlen (List.getElem?_eq_getElem hj)]
    rw [columnStack_eq hne hlen, columnStack_eq (mt List.map_eq_nil_iff.mp hne) hconviction,
      Result.ok_bind, List.length_map, List.length_range, hcolumns]
  · have hmap : ¬ ∃ n, ∀ c ∈ strengths.map conviction, c.length = n := fun ⟨n, h⟩ =>
      hlen ⟨n, fun c hc => (length_conviction c).symm.trans (h _ (List.mem_map_of_mem hc))⟩
    rw [columnStack_eq_error hlen, columnStack_eq_error hmap]
    rfl

/-- A matrix of convictions has the conviction of each column in its place. -/
theorem entry_convictionMatrix {strengths rows : List (List F)}
    (h : convictionMatrix strengths = .ok rows) {j : ℕ} {column : List F}
    (hj : strengths[j]? = some column) (i : ℕ) : entry rows i j = (conviction column)[i]? := by
  have hne : strengths ≠ [] := fun hnil => by
    rw [hnil] at hj
    cases hj
  rw [convictionMatrix_eq hne] at h
  by_cases hlen : ∃ n, ∀ c ∈ strengths.map conviction, c.length = n
  · obtain ⟨n, hlen⟩ := hlen
    have hcolumn : (strengths.map conviction)[j]? = some (conviction column) := by
      rw [List.getElem?_map, hj]
      rfl
    rw [columnStack_eq (mt List.map_eq_nil_iff.mp hne) hlen] at h
    cases h
    rw [entry, List.getElem?_map]
    by_cases hi : i < n
    · rw [List.getElem?_range hi]
      exact (getElem?_rowSigns hlen hi j).trans (by rw [hcolumn]; rfl)
    · have hshort : (conviction column).length ≤ i :=
        (hlen _ (List.mem_of_getElem? hcolumn)).trans_le (not_lt.mp hi)
      rw [List.getElem?_eq_none hshort, List.getElem?_eq_none (by simpa using hi)]
      rfl
  · rw [columnStack_eq_error hlen] at h
    cases h

/-- **Conviction is the causal distance of the percentile from the median.** It is there
for any columns of one length. The conviction of a reading is how far its percentile among
the readings of its column up to its row is from the median, and zero where it is missing or
the first of its column. The list that it is looked up in has the readings so far and is
sorted throughout, and readings in the same order up to a row have the same conviction. -/
theorem conviction_percentile (strengths : List (List F)) :
    ((∃ rows, convictionMatrix strengths = .ok rows) ↔
      strengths ≠ [] ∧ ∃ n, ∀ column ∈ strengths, column.length = n) ∧
    ∀ rows, convictionMatrix strengths = .ok rows → ∀ j column, strengths[j]? = some column →
      (∀ i reading, column[i]? = some reading →
        ∃ c, entry rows i j = some c ∧ ConvictionAt column i reading c) ∧
      (∀ k, Bisect.Sorted lt (seenAfter (column.take k)) ∧
        (seenAfter (column.take k)).Perm (readings (column.take k))) ∧
      ∀ others rows', convictionMatrix others = .ok rows' → ∀ j' other, others[j']? = some other →
        ∀ i, i < column.length → i < other.length → SameOrder i column other →
          entry rows i j = entry rows' i j' := by
  refine ⟨⟨fun ⟨rows, h⟩ => ?_, fun ⟨hne, n, hlen⟩ => ?_⟩, fun rows h j column hj =>
    ⟨fun i reading hi => ?_, fun k => ?_, fun others rows' h' j' other hj' i hx hy hsame => ?_⟩⟩
  · cases strengths with
    | nil => cases h
    | cons c cs =>
      refine ⟨List.cons_ne_nil c cs, not_not.mp fun hlen => ?_⟩
      have hstack : convictionMatrix (c :: cs) = (columnStack (c :: cs) >>= fun raw => _) := rfl
      rw [hstack, columnStack_eq_error hlen] at h
      cases h
  · rw [convictionMatrix_eq hne, columnStack_eq (k := n) (mt List.map_eq_nil_iff.mp hne)]
    · exact ⟨_, rfl⟩
    · intro c hc
      obtain ⟨column, hcolumn, rfl⟩ := List.mem_map.mp hc
      rw [length_conviction, hlen column hcolumn]
  · rw [entry_convictionMatrix h hj]
    exact conviction_at hi
  · exact ⟨(seenOf_seenAfter _).sorted, (seenOf_seenAfter _).perm⟩
  · rw [entry_convictionMatrix h hj, entry_convictionMatrix h' hj']
    exact hsame.conviction_eq hx hy

namespace Percentile

/-- A column whose second reading is missing, and whose last is level with its first. -/
def column : List ExtRat := [.fin 1, nan, .fin 2, .fin 1]

/-- Another one. -/
def other : List ExtRat := [.fin 3, .fin 3, .inf, nan]

end Percentile

/-- Two of three readings are up to the last one, a sixth above the median. -/
theorem lastReading_percentile : ConvictionAt Percentile.column 3 (.fin 1) (.fin (1 / 6)) := by
  obtain ⟨⟨-, hstack⟩, hrows⟩ := conviction_percentile [Percentile.column, Percentile.other]
  obtain ⟨rows, h⟩ := hstack ⟨List.cons_ne_nil _ _, 4, by decide⟩
  obtain ⟨c, hc, hat⟩ := (hrows rows h 0 Percentile.column rfl).1 3 (.fin 1) rfl
  have hvalue : (conviction Percentile.column)[3]? = some (.fin (1 / 6)) := by decide +kernel
  rw [entry_convictionMatrix h rfl, hvalue] at hc
  exact Option.some.inj hc ▸ hat
