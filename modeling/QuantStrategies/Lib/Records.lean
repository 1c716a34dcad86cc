import Mathlib.Data.List.OfFn
import Mathlib.Data.List.Sort
import QuantStrategies.Lib.FirstWins
import QuantStrategies.Lib.Pandas

/-!
# Frames as records

A frame is written row by row, as dictionaries from the names of its columns to the cells of
the row, and built again from such dictionaries. What is compared is the labels and the cells
of each column: a frame that comes back has its columns in the order in which the
dictionaries have their keys, and where these went through a store that is the order of the
store.

Nothing is asked of the cells, so the same lemmas serve a frame of numbers on its way to a
client and one of scalars on its way to a store. What a store does to the values themselves
is not treated here, but in the modules on documents.
-/

namespace Pandas

variable {L K C : Type} {name n : String}

/-! ## Dictionaries -/

/-- A dictionary answers the same in every order of its entries. -/
theorem lookup_of_perm {V : Type} {xs ys : List (String × V)} (h : xs.Perm ys)
    (hnd : (xs.map Prod.fst).Nodup) (k : String) : xs.lookup k = ys.lookup k :=
  FirstWins.lookup_perm h (fun _ he _ he' heq => List.inj_on_of_nodup_map hnd he he' heq) k

theorem lookup_map_values {V W : Type} (g : V → W) (es : List (String × V)) (k : String) :
    (es.map fun e => (e.1, g e.2)).lookup k = (es.lookup k).map g := by
  induction es with
  | nil => rfl
  | cons e es ih =>
    rw [List.map_cons, List.lookup_cons, List.lookup_cons, ih]
    cases k == e.1 <;> rfl

/-- A dictionary that is made of its keys. -/
theorem lookup_map_keys {V : Type} (g : String → V) (ks : List String) (k : String) :
    (ks.map fun k => (k, g k)).lookup k = if k ∈ ks then some (g k) else none := by
  induction ks with
  | nil => rfl
  | cons k' ks ih =>
    rw [List.map_cons, List.lookup_cons, ih]
    by_cases hk : k = k'
    · rw [hk, beq_self_eq_true, if_pos List.mem_cons_self]
    · rw [beq_false_of_ne hk]
      simp only [List.mem_cons, hk, false_or]

theorem lookup_filter_ne {V : Type} (name : String) (es : List (String × V)) (k : String) :
    (es.filter fun e => e.1 ≠ name).lookup k = if k = name then none else es.lookup k := by
  induction es with
  | nil => rw [List.filter_nil, List.lookup_nil, ite_self]
  | cons e es ih =>
    by_cases he : e.1 = name
    · rw [List.filter_cons_of_neg (by simpa using he), ih, List.lookup_cons]
      by_cases hk : k = name
      · rw [if_pos hk, if_pos hk]
      · rw [if_neg hk, if_neg hk, beq_false_of_ne (fun h => hk (h.trans he))]
    · rw [List.filter_cons_of_pos (by simpa using he), List.lookup_cons, List.lookup_cons, ih]
      by_cases hk : k = e.1
      · subst hk
        rw [beq_self_eq_true]
        exact (if_neg he).symm
      · rw [beq_false_of_ne hk]

namespace Frame

variable {f g h : Frame L C}

/-! ## The same rows -/

/-- The cells of a column, if there is one of the name. -/
def cells (f : Frame L C) (name : String) : Option (List C) :=
  (f.columns.lookup name).map Subtype.val

/-- Two frames have the same rows in the same order, and the same columns in any order. -/
structure SameRows (f g : Frame L C) : Prop where
  /-- The labels are the same, in the same order. -/
  index : f.index = g.index
  /-- A name has the same cells in both, or is missing from both. -/
  cells : ∀ name, f.cells name = g.cells name

/-- It does not matter which of the frames is looked at first. -/
theorem SameRows.symm (h : SameRows f g) : SameRows g f := ⟨h.index.symm, fun n => (h.cells n).symm⟩

/-- And the comparison can be taken in steps, one for each leg of the way. -/
theorem SameRows.trans (hfg : SameRows f g) (hgh : SameRows g h) : SameRows f h :=
  ⟨hfg.index.trans hgh.index, fun n => (hfg.cells n).trans (hgh.cells n)⟩

/-- The cells of a name are those of the column that a lookup finds. -/
theorem column_eq_ok_iff_cells {xs : List C} :
    f.cells name = some xs ↔ ∃ c, f.column name = .ok c ∧ c.1 = xs := by
  simp only [column_eq_ok, cells, Option.map_eq_some_iff]

/-- A name without cells is the name of no column. -/
theorem cells_eq_none_iff : f.cells name = none ↔ name ∉ f.columns.map Prod.fst := by
  rw [cells, Option.map_eq_none_iff, ← Option.not_isSome_iff_eq_none, FirstWins.lookup_isSome]

/-- A frame with other labels and other cells, column by column. -/
def rebuild (f : Frame L C) (index : List K) (T : List C → List C)
    (hT : ∀ xs, xs.length = f.index.length → (T xs).length = index.length) : Frame K C :=
  ⟨index, f.columns.map fun c => (c.1, ⟨T c.2.1, hT c.2.1 c.2.2⟩)⟩

/-- What is done to each column is done to the cells of each name. -/
@[simp] theorem cells_rebuild (f : Frame L C) (index : List K) (T : List C → List C)
    (hT : ∀ xs, xs.length = f.index.length → (T xs).length = index.length) (name : String) :
    (f.rebuild index T hT).cells name = (f.cells name).map T := by
  show ((f.columns.map fun c => (c.1, (⟨T c.2.1, hT c.2.1 c.2.2⟩ : Column C index))).lookup
    name).map Subtype.val = _
  rw [lookup_map_values (fun c : Column C f.index => (⟨T c.1, hT c.1 c.2⟩ : Column C index)),
    cells, Option.map_map, Option.map_map]
  rfl

/-! ## Some of the rows -/

/-- The cells of the rows whose label is asked for. -/
def selectCells (p : L → Bool) (index : List L) (xs : List C) : List C :=
  ((index.zip xs).filter fun r => p r.1).map Prod.snd

/-- Of each column as many cells are left as there are labels left. -/
theorem length_selectCells (p : L → Bool) {index : List L} {xs : List C}
    (hlen : xs.length = index.length) :
    (selectCells p index xs).length = (index.filter p).length := by
  have hzip : (index.zip xs).map Prod.fst = index := List.map_fst_zip hlen.ge
  have hfst : ((index.zip xs).filter fun r => p r.1).map Prod.fst = index.filter p := by
    conv_rhs => rw [← hzip, List.filter_map]
    rfl
  rw [selectCells, List.length_map, ← hfst, List.length_map]

/-- The rows whose label is asked for. -/
def select (p : L → Bool) (f : Frame L C) : Frame L C :=
  f.rebuild (f.index.filter p) (selectCells p f.index) fun _ => length_selectCells p

/-- **Cutting out rows keeps a comparison**: it goes by the labels, which are the same in both. -/
theorem SameRows.select (hfg : SameRows f g) (p : L → Bool) :
    SameRows (f.select p) (g.select p) where
  index := congrArg (List.filter p) hfg.index
  cells name := by
    rw [Frame.select, Frame.select, cells_rebuild, cells_rebuild, hfg.index, hfg.cells]

/-- `frame.loc[start:stop]` of an index in order: both ends are in it. -/
def loc [LE L] [DecidableLE L] (start stop : L) (f : Frame L C) : Frame L C :=
  f.select fun l => start ≤ l && l ≤ stop

/-! ## Rows in order -/

section Sorted

variable [LinearOrder L]

/-- The cells, in the order that sorts the labels. -/
def sortCells (index : List L) (xs : List C) : List C :=
  ((index.zip xs).insertionSort fun r s => r.1 ≤ s.1).map Prod.snd

/-- `frame.sort_index()`. -/
def sortIndex (f : Frame L C) : Frame L C :=
  f.rebuild (f.index.insertionSort (· ≤ ·)) (sortCells f.index) fun xs hlen => by
    rw [sortCells, List.length_map, List.length_insertionSort, List.length_insertionSort,
      List.length_zip, hlen, min_self]

/-- Cells whose labels are in order stay where they are. -/
theorem sortCells_of_pairwise {index : List L} {xs : List C} (hlen : xs.length = index.length)
    (h : index.Pairwise (· ≤ ·)) : sortCells index xs = xs := by
  have hzip : (index.zip xs).Pairwise fun r s => r.1 ≤ s.1 := by
    rw [← List.pairwise_map, List.map_fst_zip hlen.ge]
    exact h
  rw [sortCells, hzip.insertionSort_eq, List.map_snd_zip hlen.le]

/-- A frame whose labels are in order is left as it is. -/
theorem sameRows_sortIndex (h : f.index.Pairwise (· ≤ ·)) : SameRows f.sortIndex f where
  index := h.insertionSort_eq
  cells name := by
    rw [sortIndex, cells_rebuild]
    cases hcells : f.cells name with
    | none => rfl
    | some xs =>
      obtain ⟨c, -, rfl⟩ := Option.map_eq_some_iff.mp hcells
      exact congrArg some (sortCells_of_pairwise c.2 h)

end Sorted

/-! ## Records -/

/-- `frame.to_dict(orient="records")`. -/
def toRecords (f : Frame L C) : List (List (String × C)) :=
  List.ofFn fun i : Fin f.index.length =>
    f.columns.map fun c => (c.1, c.2.1.get (i.cast c.2.2.symm))

/-- The names in records, in the order in which they are met. -/
def recordNames (rs : List (List (String × C))) : List String :=
  (rs.flatMap fun r => r.map Prod.fst).eraseDups

/-- `pd.DataFrame(records)`. -/
def ofRecords (missing : C) (rs : List (List (String × C))) : Frame ℕ C where
  index := List.range rs.length
  columns := (recordNames rs).map fun name =>
    (name, ⟨rs.map fun r => (r.lookup name).getD missing, by simp⟩)

/-- A frame built of records has a column for each name that comes in one of them, and a missing
cell where a record lacks it. -/
theorem cells_ofRecords (missing : C) (rs : List (List (String × C))) (name : String) :
    (ofRecords missing rs).cells name =
      if name ∈ recordNames rs then some (rs.map fun r => (r.lookup name).getD missing)
      else none := by
  show (((recordNames rs).map fun name => (name,
    (⟨rs.map fun r => (r.lookup name).getD missing, by simp⟩ :
      Column C (List.range rs.length)))).lookup name).map Subtype.val = _
  rw [lookup_map_keys (fun name => (⟨rs.map fun r => (r.lookup name).getD missing, by simp⟩ :
    Column C (List.range rs.length)))]
  split <;> rfl

theorem length_toRecords (f : Frame L C) : f.toRecords.length = f.index.length := List.length_ofFn

/-- Every record has the names of all columns, so none of them is lost when there is a row at all.
-/
theorem keys_of_mem_toRecords {r : List (String × C)} (hr : r ∈ f.toRecords) :
    r.map Prod.fst = f.columns.map Prod.fst := by
  obtain ⟨i, rfl⟩ := List.mem_ofFn.mp hr
  rw [List.map_map]
  rfl

/-- What a record has is in a column. -/
theorem exists_cells (hnd : (f.columns.map Prod.fst).Nodup) {r : List (String × C)}
    (hr : r ∈ f.toRecords) {e : String × C} (he : e ∈ r) :
    ∃ xs, f.cells e.1 = some xs ∧ e.2 ∈ xs := by
  obtain ⟨i, rfl⟩ := List.mem_ofFn.mp hr
  obtain ⟨c, hc, rfl⟩ := List.mem_map.mp he
  exact ⟨c.2.1, by rw [cells, FirstWins.lookup_of_mem hnd hc, Option.map_some],
    List.get_mem _ _⟩

/-- Each cell is in a record. -/
theorem exists_record {xs : List C} (hxs : f.cells name = some xs) {v : C} (hv : v ∈ xs) :
    ∃ r ∈ f.toRecords, (name, v) ∈ r := by
  obtain ⟨c, hc, rfl⟩ := Option.map_eq_some_iff.mp hxs
  obtain ⟨i, rfl⟩ := List.get_of_mem hv
  exact ⟨_, List.mem_ofFn.mpr ⟨i.cast c.2, rfl⟩,
    List.mem_map.mpr ⟨(name, c), FirstWins.mem_of_lookup hc, rfl⟩⟩

/-- The records of a frame have the names of its columns. -/
theorem mem_recordNames {φ : List (String × C) → List (String × C)} (hne : f.index ≠ [])
    (hφ : ∀ r, (φ r).Perm r) :
    name ∈ recordNames (f.toRecords.map φ) ↔ name ∈ f.columns.map Prod.fst := by
  have hkeys (r : List (String × C)) (hr : r ∈ f.toRecords) :
      name ∈ (φ r).map Prod.fst ↔ name ∈ f.columns.map Prod.fst := by
    rw [((hφ r).map Prod.fst).mem_iff, keys_of_mem_toRecords hr]
  rw [recordNames, List.mem_eraseDups, List.mem_flatMap]
  constructor
  · rintro ⟨r, hr, hname⟩
    obtain ⟨r', hr', rfl⟩ := List.mem_map.mp hr
    exact (hkeys r' hr').mp hname
  · intro hname
    have hpos : 0 < f.index.length := List.length_pos_iff.mpr hne
    have hfirst : f.columns.map (fun c => (c.1, c.2.1.get (Fin.cast c.2.2.symm ⟨0, hpos⟩))) ∈
        f.toRecords := List.mem_ofFn.mpr ⟨⟨0, hpos⟩, rfl⟩
    exact ⟨_, List.mem_map_of_mem hfirst, (hkeys _ hfirst).mpr hname⟩

/-- The cell of a record is the cell of the row. -/
theorem lookup_record {φ : List (String × C) → List (String × C)} (hφ : ∀ r, (φ r).Perm r)
    (hnd : (f.columns.map Prod.fst).Nodup) {c : Column C f.index}
    (hc : f.columns.lookup name = some c) (i : Fin f.index.length) :
    (φ (f.columns.map fun c => (c.1, c.2.1.get (i.cast c.2.2.symm)))).lookup name =
      some (c.1.get (i.cast c.2.symm)) := by
  rw [lookup_of_perm (hφ _),
    lookup_map_values (fun c : Column C f.index => c.1.get (i.cast c.2.symm)), hc]
  · rfl
  · rw [((hφ _).map Prod.fst).nodup_iff, List.map_map]
    exact hnd

/-- **Records are read back**, in whatever order each has its keys. A frame without rows has no
record, and its columns are lost; hence the condition on the index. -/
theorem cells_ofRecords_toRecords {φ : List (String × C) → List (String × C)}
    (hne : f.index ≠ []) (hnd : (f.columns.map Prod.fst).Nodup) (hφ : ∀ r, (φ r).Perm r)
    (missing : C) (name : String) :
    (ofRecords missing (f.toRecords.map φ)).cells name = f.cells name := by
  rw [cells_ofRecords, cells]
  cases hc : f.columns.lookup name with
  | none =>
    have hnot : name ∉ f.columns.map Prod.fst := by
      rw [← cells_eq_none_iff, cells, hc, Option.map_none]
    exact if_neg (mt (mem_recordNames hne hφ).mp hnot)
  | some c =>
    have hname : name ∈ f.columns.map Prod.fst :=
      FirstWins.lookup_isSome.mp (by rw [hc, Option.isSome_some])
    rw [if_pos ((mem_recordNames hne hφ).mpr hname), Option.map_some, toRecords, List.map_ofFn,
      List.map_ofFn]
    refine congrArg some (List.ext_getElem ?_ fun i hi hi' => ?_)
    · rw [List.length_ofFn, c.2]
    · rw [List.getElem_ofFn]
      show ((φ _).lookup name).getD missing = _
      rw [lookup_record hφ hnd hc]
      rfl

/-! ## Labels as a column -/

/-- `frame.insert(0, name, column)`. -/
def insert (name : String) (c : Column C f.index) : Frame L C := ⟨f.index, (name, c) :: f.columns⟩

/-- A column that is put in front is found under its name, and the others as before. -/
theorem cells_insert (c : Column C f.index) (n : String) :
    (f.insert name c).cells n = if n = name then some c.1 else f.cells n := by
  rw [cells, insert, List.lookup_cons]
  by_cases hn : n = name
  · rw [if_pos hn, hn, beq_self_eq_true, Option.map_some]
  · rw [if_neg hn, beq_false_of_ne hn]
    rfl

/-- `frame.reset_index()`: the labels, as cells, become the first column. -/
def resetIndex (f : Frame L C) (name : String) (c : Column C f.index) :
    Except PyError (Frame ℕ C) :=
  if f.hasColumn name then .error (.valueError ("cannot insert " ++ name ++ ", already exists"))
  else .ok ((f.insert name c).rebuild (List.range f.index.length) id fun _ h => by
    rw [id, h, List.length_range]; rfl)

/-- `frame.set_index(name)`, with what the column has become as the labels. -/
def setIndex (name : String) (labels : List K) (f : Frame L C) : Except PyError (Frame K C) :=
  if hlen : labels.length = f.index.length then
    .ok (Frame.rebuild ⟨f.index, f.columns.filter fun c => c.1 ≠ name⟩ labels id fun _ h =>
      h.trans hlen.symm)
  else .error (.valueError "Length mismatch")

/-- What `reset_index` returns has the labels as a column, and the columns of the frame. -/
theorem resetIndex_eq_ok {c : Column C f.index} {r : Frame ℕ C}
    (hr : f.resetIndex name c = .ok r) :
    f.cells name = none ∧ r.index = List.range f.index.length ∧
      r.columns.map Prod.fst = name :: f.columns.map Prod.fst ∧
      ∀ n, r.cells n = if n = name then some c.1 else f.cells n := by
  rw [resetIndex] at hr
  by_cases hname : f.hasColumn name = true
  · rw [if_pos hname] at hr
    cases hr
  · rw [if_neg hname] at hr
    cases hr
    have hnone : f.columns.lookup name = none := by
      rw [hasColumn, Bool.not_eq_true, Option.isSome_eq_false_iff, Option.isNone_iff_eq_none]
        at hname
      exact hname
    refine ⟨by rw [cells, hnone, Option.map_none], rfl, ?_, fun n => ?_⟩
    · simp [rebuild, insert]
    · rw [cells_rebuild, Option.map_id, id, cells_insert]

/-- What `set_index` returns has the new labels, and the columns of the frame but the one. -/
theorem setIndex_eq_ok (f : Frame L C) (name : String) {labels : List K}
    (hlen : labels.length = f.index.length) :
    ∃ r, f.setIndex name labels = .ok r ∧ r.index = labels ∧
      ∀ n, r.cells n = if n = name then none else f.cells n := by
  rw [setIndex, dif_pos hlen]
  refine ⟨_, rfl, rfl, fun n => ?_⟩
  rw [cells_rebuild, Option.map_id, id, cells, lookup_filter_ne, apply_ite (Option.map Subtype.val)]
  rfl

end Frame

end Pandas
