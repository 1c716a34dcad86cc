import Mathlib.Data.List.Nodup
import QuantStrategies.Lib.Pandas

/-!
# Frames cut in two

`df.iloc[:k]` and `df.iloc[k:]` cut a frame by its rows. The two halves of a series
are also what its labels before and from some label are, if the labels are in that
order around the cut (`iloc_eq_restrict`).

A series that is put onto another index can be cut before or after. The two are the
same only if each value that the index asks for lies on the same side of both cuts
(`reindex_iloc_iff`), which a cut by rows does not see to.

A half is named once (`Half`), and what is done to columns, series and frames is done to
both halves by the same definitions, so that the in-sample and the out-of-sample part of a
test are treated by one proof.
-/

namespace Pandas

open NpFloat

/-! ## Association lists -/

/-- The values of an association list, changed one by one. -/
theorem lookup_map_snd {α β γ : Type} [DecidableEq α] (h : β → γ) (es : List (α × β)) (k : α) :
    (es.map fun e => (e.1, h e.2)).lookup k = (es.lookup k).map h := by
  induction es with
  | nil => rfl
  | cons e es ih =>
    rw [List.map_cons, List.lookup_cons, List.lookup_cons, ih]
    cases k == e.1 <;> rfl

/-- A key that comes up once is found with its value. -/
theorem lookup_of_nodup {α β : Type} [DecidableEq α] {es : List (α × β)}
    (h : (es.map Prod.fst).Nodup) {a : α} {b : β} (hmem : (a, b) ∈ es) :
    es.lookup a = some b := by
  induction es with
  | nil => cases hmem
  | cons e es ih =>
    obtain ⟨hne, hnd⟩ := List.nodup_cons.mp h
    obtain rfl | hmem := List.mem_cons.mp hmem
    · exact List.lookup_cons_self
    · have hkey : a ≠ e.1 := fun heq => hne (heq ▸ List.mem_map_of_mem hmem)
      rw [List.lookup_cons, beq_false_of_ne hkey]
      exact ih hnd hmem

/-! ## Halves -/

/-- The two halves that a cut leaves. -/
inductive Half where
  | head
  | tail
deriving DecidableEq

namespace Half

variable {α β : Type} (h : Half) (k : ℕ)

/-- The rows of a half: `xs[:k]`, and `xs[k:]`. -/
def rows (xs : List α) : List α :=
  match h with
  | head => xs.take k
  | tail => xs.drop k

/-- Row `i` belongs to the half. -/
def Has (i : ℕ) : Prop :=
  match h with
  | head => i < k
  | tail => k ≤ i

instance (i : ℕ) : Decidable (h.Has k i) :=
  match h with
  | head => inferInstanceAs (Decidable (i < k))
  | tail => inferInstanceAs (Decidable (k ≤ i))

variable {h k}

/-- What is in a half stands in one of its rows. -/
theorem mem_rows {xs : List α} {x : α} : x ∈ h.rows k xs ↔ ∃ i, h.Has k i ∧ xs[i]? = some x := by
  cases h with
  | head =>
    show x ∈ xs.take k ↔ _
    rw [List.mem_take_iff_getElem]
    constructor
    · rintro ⟨i, hi, rfl⟩
      exact ⟨i, (Nat.lt_min.mp hi).1, List.getElem?_eq_getElem _⟩
    · rintro ⟨i, hi, hx⟩
      obtain ⟨hlt, rfl⟩ := List.getElem?_eq_some_iff.mp hx
      exact ⟨i, Nat.lt_min.mpr ⟨hi, hlt⟩, rfl⟩
  | tail =>
    show x ∈ xs.drop k ↔ _
    rw [List.mem_iff_getElem?]
    constructor
    · rintro ⟨i, hi⟩
      exact ⟨k + i, Nat.le_add_right k i, List.getElem?_drop ▸ hi⟩
    · rintro ⟨i, hi, hx⟩
      obtain ⟨j, rfl⟩ := Nat.exists_eq_add_of_le hi
      exact ⟨j, List.getElem?_drop ▸ hx⟩

/-- It does not matter whether a column is cut before or after something is done to each of its
values. -/
theorem map_rows (f : α → β) (xs : List α) : (h.rows k xs).map f = h.rows k (xs.map f) := by
  cases h with
  | head => exact List.map_take
  | tail => exact List.map_drop

/-- Nor whether two columns are paired before or after. -/
theorem zip_rows (xs : List α) (ys : List β) :
    (h.rows k xs).zip (h.rows k ys) = h.rows k (xs.zip ys) := by
  rw [List.zip_eq_zipWith, List.zip_eq_zipWith]
  cases h with
  | head => exact List.take_zipWith.symm
  | tail => exact List.drop_zipWith.symm

/-- Columns of one length have halves of one length. -/
theorem length_rows_congr {xs : List α} {ys : List β} (hlen : xs.length = ys.length) :
    (h.rows k xs).length = (h.rows k ys).length := by
  cases h with
  | head =>
    show (xs.take k).length = (ys.take k).length
    rw [List.length_take, List.length_take, hlen]
  | tail =>
    show (xs.drop k).length = (ys.drop k).length
    rw [List.length_drop, List.length_drop, hlen]

/-- A half has nothing that the column does not have, and keeps its order. -/
theorem rows_sublist (xs : List α) : (h.rows k xs).Sublist xs := by
  cases h with
  | head => exact List.take_sublist k xs
  | tail => exact List.drop_sublist k xs

/-- A half is what a test picks that is true of its rows alone. -/
theorem filter_eq_rows {xs : List α} {p : α → Bool}
    (hp : ∀ i x, xs[i]? = some x → (p x = true ↔ h.Has k i)) : xs.filter p = h.rows k xs := by
  have hhead {x : α} (hx : x ∈ xs.take k) : ∃ i, i < k ∧ xs[i]? = some x :=
    (mem_rows (h := .head)).mp hx
  have htail {x : α} (hx : x ∈ xs.drop k) : ∃ i, k ≤ i ∧ xs[i]? = some x :=
    (mem_rows (h := .tail)).mp hx
  conv_lhs => rw [← List.take_append_drop k xs, List.filter_append]
  cases h with
  | head =>
    have hkeep : (xs.take k).filter p = xs.take k := List.filter_eq_self.mpr fun x hx => by
      obtain ⟨i, hi, hx⟩ := hhead hx
      exact (hp i x hx).mpr hi
    have hnone : (xs.drop k).filter p = [] := List.filter_eq_nil_iff.mpr fun x hx hpx => by
      obtain ⟨i, hi, hx⟩ := htail hx
      exact absurd ((hp i x hx).mp hpx) (Nat.not_lt.mpr hi)
    rw [hkeep, hnone, List.append_nil]
    rfl
  | tail =>
    have hnone : (xs.take k).filter p = [] := List.filter_eq_nil_iff.mpr fun x hx hpx => by
      obtain ⟨i, hi, hx⟩ := hhead hx
      exact absurd ((hp i x hx).mp hpx) (Nat.not_le.mpr hi)
    have hkeep : (xs.drop k).filter p = xs.drop k := List.filter_eq_self.mpr fun x hx => by
      obtain ⟨i, hi, hx⟩ := htail hx
      exact (hp i x hx).mpr hi
    rw [hkeep, hnone, List.nil_append]
    rfl

/-- On which side a label is, where no label is on both. -/
theorem has_of_mem {xs : List α} (hcut : ∀ x ∈ xs.take k, x ∉ xs.drop k) {i : ℕ} {x : α}
    (hi : xs[i]? = some x) (hx : x ∈ h.rows k xs) : h.Has k i := by
  cases h with
  | head =>
    by_contra hlt
    exact hcut x hx ((mem_rows (h := .tail)).mpr ⟨i, Nat.not_lt.mp hlt, hi⟩)
  | tail =>
    by_contra hle
    exact hcut x ((mem_rows (h := .head)).mpr ⟨i, Nat.not_le.mp hle, hi⟩) hx

end Half

/-! ## Series and frames -/

section

variable {L F : Type}

/-- The rows of a column in a half. -/
def Half.column (h : Half) (k : ℕ) {index : List L} (c : Column F index) :
    Column F (h.rows k index) :=
  ⟨h.rows k c.1, h.length_rows_congr c.2⟩

/-- `s.iloc[:k]`, and `s.iloc[k:]`. -/
def Series.iloc (h : Half) (k : ℕ) (s : Series L F) : Series L F :=
  ⟨h.rows k s.index, h.column k s.column⟩

/-- `df.iloc[:k]`, and `df.iloc[k:]`. -/
def Frame.iloc (h : Half) (k : ℕ) (f : Frame L F) : Frame L F where
  index := h.rows k f.index
  columns := f.columns.map fun e => (e.1, h.column k e.2)

/-- `s[keep(s.index)]`: the rows whose label passes a test. -/
def Series.restrict (keep : L → Bool) (s : Series L F) : Series L F :=
  .ofRows (s.rows.filter fun r => keep r.1)

/-- A frame that is cut has the columns that it had, each of them cut. -/
theorem Frame.lookup_iloc {h : Half} {k : ℕ} (f : Frame L F) (name : String) :
    (f.iloc h k).columns.lookup name = (f.columns.lookup name).map (h.column k) :=
  lookup_map_snd _ _ name

namespace Series

/-- Cutting a series cuts its pairs of labels and values. -/
theorem rows_iloc (h : Half) (k : ℕ) (s : Series L F) : (s.iloc h k).rows = h.rows k s.rows :=
  Half.zip_rows s.index s.values

/-- A series is its labels and its values. -/
theorem eq_of_values {s t : Series L F} (hindex : s.index = t.index)
    (hvalues : s.values = t.values) : s = t := by
  obtain ⟨index, column⟩ := s
  obtain ⟨index', column'⟩ := t
  cases hindex
  exact congrArg (Series.mk index) (Subtype.ext hvalues)

/-- With the labels given it is its values. -/
theorem mk_inj {index : List L} {c d : Column F index} :
    (⟨index, c⟩ : Series L F) = ⟨index, d⟩ ↔ c = d :=
  ⟨fun h => by cases h; rfl, congrArg (Series.mk index)⟩

/-- The labels of the pairs are the labels of the series. -/
theorem map_fst_rows (s : Series L F) : s.rows.map Prod.fst = s.index :=
  List.map_fst_zip s.length_values.ge

/-- A series is put together again from its pairs. -/
theorem ofRows_rows (s : Series L F) : ofRows s.rows = s :=
  eq_of_values s.map_fst_rows (List.map_snd_zip s.length_values.le)

/-- A label and a value on one row are a pair of the series. -/
theorem mem_rows {s : Series L F} {i : ℕ} {l : L} {x : F} (hl : s.index[i]? = some l)
    (hx : s.values[i]? = some x) : (l, x) ∈ s.rows :=
  List.mem_of_getElem? (List.getElem?_zip_eq_some.mpr ⟨hl, hx⟩)

/-- Each label has a value. -/
theorem exists_value {s : Series L F} {i : ℕ} {l : L} (hl : s.index[i]? = some l) :
    ∃ x, s.values[i]? = some x :=
  ⟨_, List.getElem?_eq_getElem (s.length_values.symm ▸ (List.getElem?_eq_some_iff.mp hl).1)⟩

/-- **Where the labels are in order around a cut**, its halves are what a test of the
label picks. -/
theorem iloc_eq_restrict {h : Half} {k : ℕ} {s : Series L F} {keep : L → Bool}
    (hkeep : ∀ i l, s.index[i]? = some l → (keep l = true ↔ h.Has k i)) :
    s.iloc h k = s.restrict keep := by
  rw [restrict, ← ofRows_rows (s.iloc h k), rows_iloc]
  refine congrArg ofRows (Half.filter_eq_rows fun i r hr => ?_).symm
  exact hkeep i r.1 (List.getElem?_zip_eq_some.mp hr).1

variable [DecidableEq L] [NpFloat F] {s : Series L F} {index : List L}

omit [NpFloat F] in
/-- What a label that comes up once is found with. -/
theorem lookup_rows (hnd : s.index.Nodup) {i : ℕ} {l : L} {x : F} (hl : s.index[i]? = some l)
    (hx : s.values[i]? = some x) : s.rows.lookup l = some x :=
  lookup_of_nodup (s.map_fst_rows.symm ▸ hnd) (mem_rows hl hx)

omit [NpFloat F] in
/-- A label that the series does not have is not found. -/
theorem lookup_rows_none {l : L} (hl : l ∉ s.index) : s.rows.lookup l = none :=
  List.lookup_eq_none_iff.mpr fun _ hr =>
    bne_iff_ne.mpr fun heq => hl (heq ▸ (List.of_mem_zip hr).1)

/-- A series that repeats no label is put onto an index label by label. -/
theorem reindex_of_nodup (hnd : s.index.Nodup) (index : List L) :
    s.reindex index =
      .ok ⟨index.map fun l => (s.rows.lookup l).getD nan, List.length_map _⟩ := by
  by_cases hself : s.index = index
  · subst hself
    rw [reindex_self rfl]
    refine congrArg _ (Subtype.ext (List.ext_getElem? fun i => ?_))
    rw [List.getElem?_map]
    cases hl : s.index[i]? with
    | none =>
      rw [List.getElem?_eq_none_iff] at hl
      exact List.getElem?_eq_none (s.length_values.le.trans hl)
    | some l =>
      obtain ⟨x, hx⟩ := exists_value hl
      rw [Option.map_some, lookup_rows hnd hl hx]
      exact hx
  · rw [reindex_of_ne hself, if_pos hnd]

/-- What can be put onto an index: what has it, or repeats no label. -/
theorem labels_of_reindex {c : Column F index} (hc : s.reindex index = .ok c) :
    s.index = index ∨ s.index.Nodup := by
  by_contra hno
  obtain ⟨hself, hnd⟩ := not_or.mp hno
  rw [reindex_of_ne hself, if_neg hnd] at hc
  cases hc

/-- Asking for an index goes through where it is the series' own, or no label of the series comes
twice. -/
theorem exists_reindex (h : s.index = index ∨ s.index.Nodup) : ∃ c, s.reindex index = .ok c := by
  obtain hself | hnd := h
  · exact ⟨_, reindex_self hself⟩
  · exact ⟨_, reindex_of_nodup hnd index⟩

omit [DecidableEq L] [NpFloat F] in
/-- A label that comes up once is not in the half that it is cut off. -/
theorem notMem_iloc {h : Half} {k i : ℕ} {l : L} (hnd : s.index.Nodup) (hl : s.index[i]? = some l)
    (hcut : ¬ h.Has k i) : l ∉ (s.iloc h k).index := by
  intro hmem
  obtain ⟨j, hj, hl'⟩ := Half.mem_rows.mp hmem
  obtain ⟨hi, hli⟩ := List.getElem?_eq_some_iff.mp hl
  obtain ⟨hj', hlj⟩ := List.getElem?_eq_some_iff.mp hl'
  exact hcut (hnd.getElem_inj_iff.mp (hli.trans hlj.symm) ▸ hj)

/-- A label is found with the same value in a half, unless that has its value cut off. -/
theorem lookup_iloc_iff {h : Half} {k : ℕ} (hnd : s.index.Nodup) (l : L) :
    ((s.iloc h k).rows.lookup l).getD nan = (s.rows.lookup l).getD nan ↔
      ∀ i x, s.index[i]? = some l → s.values[i]? = some x → x ≠ nan → h.Has k i := by
  constructor
  · intro hsame i x hl hx hne
    by_contra hcut
    rw [lookup_rows_none (notMem_iloc hnd hl hcut), lookup_rows hnd hl hx] at hsame
    exact hne hsame.symm
  · intro hhas
    by_cases hmem : l ∈ s.index
    · obtain ⟨i, hi⟩ := List.mem_iff_getElem?.mp hmem
      obtain ⟨x, hx⟩ := exists_value hi
      rw [lookup_rows hnd hi hx, Option.getD_some]
      by_cases hin : h.Has k i
      · have hrow : (l, x) ∈ (s.iloc h k).rows := by
          rw [rows_iloc]
          exact Half.mem_rows.mpr ⟨i, hin, List.getElem?_zip_eq_some.mpr ⟨hi, hx⟩⟩
        have hhalf : ((s.iloc h k).rows.map Prod.fst).Nodup :=
          (s.iloc h k).map_fst_rows.symm ▸ hnd.sublist (Half.rows_sublist _)
        rw [lookup_of_nodup hhalf hrow, Option.getD_some]
      · have hnan : x = nan := by
          by_contra hne
          exact hin (hhas i x hi hx hne)
        rw [lookup_rows_none (notMem_iloc hnd hi hin), hnan, Option.getD_none]
    · have hout : l ∉ (s.iloc h k).index := fun hl => hmem ((Half.rows_sublist _).subset hl)
      rw [lookup_rows_none hmem, lookup_rows_none hout]

/-- **Cut before it is put onto an index, or after.** The two are the same exactly when
each value that the half of the index asks for is in that half of the series. -/
theorem reindex_iloc_iff {h : Half} {k : ℕ} {c : Column F index} (hc : s.reindex index = .ok c)
    (hcut : ∀ l ∈ index.take k, l ∉ index.drop k) :
    (∃ c', (s.iloc h k).reindex (h.rows k index) = .ok c' ∧ c' = h.column k c) ↔
      ∀ i l x, s.index[i]? = some l → s.values[i]? = some x → x ≠ nan → l ∈ h.rows k index →
        h.Has k i := by
  by_cases hnd : s.index.Nodup
  · have hhalf : (s.iloc h k).index.Nodup := hnd.sublist (Half.rows_sublist _)
    rw [reindex_of_nodup hnd] at hc
    cases hc
    rw [reindex_of_nodup hhalf]
    have hcolumns : (∃ c' : Column F (h.rows k index), Except.ok (ε := PyError)
        ⟨(h.rows k index).map fun l => ((s.iloc h k).rows.lookup l).getD nan,
          List.length_map _⟩ = .ok c' ∧
        c' = h.column k ⟨index.map fun l => (s.rows.lookup l).getD nan, List.length_map _⟩) ↔
        ∀ l ∈ h.rows k index,
          ((s.iloc h k).rows.lookup l).getD nan = (s.rows.lookup l).getD nan := by
      rw [← List.map_inj_left]
      constructor
      · rintro ⟨c', hc', heq⟩
        cases hc'
        exact (congrArg Subtype.val heq).trans (Half.map_rows _ _).symm
      · exact fun heq => ⟨_, rfl, Subtype.ext (heq.trans (Half.map_rows _ _))⟩
    rw [hcolumns]
    refine ⟨fun hall i l x hl hx hne hmem => ?_, fun hall l hmem => ?_⟩
    · exact (lookup_iloc_iff hnd l).mp (hall l hmem) i x hl hx hne
    · exact (lookup_iloc_iff hnd l).mpr fun i x hl hx hne => hall i l x hl hx hne hmem
  · -- labels that come up again are refused, but on an index that is theirs already
    obtain rfl : s.index = index := (labels_of_reindex hc).resolve_right hnd
    rw [reindex_self rfl] at hc
    cases hc
    refine iff_of_true ⟨_, reindex_self rfl, rfl⟩ fun i l x hl _ _ hmem => ?_
    exact Half.has_of_mem hcut hl hmem

end Series

end

end Pandas
