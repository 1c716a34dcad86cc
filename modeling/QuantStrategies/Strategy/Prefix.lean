import QuantStrategies.Lib.TwoRuns
import QuantStrategies.Strategy.Performance

/-!
# What depends on the first rows alone

Two runs of one indicator, or of one combination of positions, on data that is
the same in its first rows. Everything is computed row by row, but for the one
indicator that drops rows and is put back by label: there, the labels of the
first rows must not come up again among the later ones (`Cut`).

The comparison is strict or not, by a parameter. Where labels do not repeat, two runs are
refused for the same reasons and it can be strict. Where they do, putting a series back by
label can be refused in one run and not in the other, and then the statement is about the
rows of runs that both succeed.
-/

open Pandas NpFloat TwoRuns

variable {L F : Type} [DecidableEq L] [NpFloat F] {k : ℕ} {strict : Prop}

/-- The labels of the first rows are those of the first rows only. -/
def Cut (k : ℕ) (index : List L) : Prop := ∀ l ∈ index.take k, l ∉ index.drop k

omit [DecidableEq L] in
/-- In an index without a repetition any row will do. -/
theorem Cut.of_nodup {index : List L} (h : index.Nodup) (k : ℕ) : Cut k index := by
  intro l hl hl'
  rw [← List.take_append_drop k index] at h
  exact (List.nodup_append.mp h).2.2 l hl l hl' rfl

/-! ## Lookups of two runs

Frames and dictionaries whose entries are related, name by name. -/

/-- Lookups that are related stay so under a weaker relation. -/
theorem optionRel_imp {α β : Type} {R S : α → β → Prop} {x : Option α} {y : Option β}
    (h : Option.Rel R x y) (hRS : ∀ a b, R a b → S a b) : Option.Rel S x y := by
  cases h with
  | none => exact .none
  | some h => exact .some (hRS _ _ h)

section Lookups

variable {f g : Frame L F} {R : Column F f.index → Column F g.index → Prop}

omit [DecidableEq L] [NpFloat F] in
/-- Asking two frames for one column: both have it, with related values, or both are refused. -/
theorem column_alike {name : String}
    (h : Option.Rel R (f.columns.lookup name) (g.columns.lookup name)) :
    Alike strict (fun c d => f.columns.lookup name = some c ∧ R c d)
      (f.column name) (g.column name) := by
  rw [Frame.column, Frame.column]
  generalize f.columns.lookup name = c at h
  generalize g.columns.lookup name = d at h
  cases h with
  | none => exact .errors
  | some h => exact .ok ⟨rfl, h⟩

omit [DecidableEq L] [NpFloat F] in
/-- Frames whose lookups are related have the same columns, by name. -/
theorem hasColumn_eq {name : String}
    (h : Option.Rel R (f.columns.lookup name) (g.columns.lookup name)) :
    g.hasColumn name = f.hasColumn name := by
  rw [Frame.hasColumn, Frame.hasColumn]
  generalize f.columns.lookup name = c at h
  generalize g.columns.lookup name = d at h
  cases h with
  | none => rfl
  | some _ => rfl

omit [DecidableEq L] [NpFloat F] in
/-- A column put in the same place of both. -/
theorem lookup_set {name col : String} {c : Column F f.index} {d : Column F g.index} (hcd : R c d)
    (h : col ≠ name → Option.Rel R (f.columns.lookup col) (g.columns.lookup col)) :
    Option.Rel R ((f.set name c).columns.lookup col) ((g.set name d).columns.lookup col) := by
  show Option.Rel R ((Frame.assign name c f.columns).lookup col)
    ((Frame.assign name d g.columns).lookup col)
  rw [Frame.lookup_assign, Frame.lookup_assign]
  split
  · exact .some hcd
  · next hne => exact h hne

omit [DecidableEq L] [NpFloat F] in
/-- Frames of one column each. -/
theorem lookup_single {name col : String} {index index' : List L}
    {R : Column F index → Column F index' → Prop} {c : Column F index} {d : Column F index'}
    (hcd : R c d) :
    Option.Rel R ((Frame.single name index c).columns.lookup col)
      ((Frame.single name index' d).columns.lookup col) := by
  show Option.Rel R ([(name, c)].lookup col) ([(name, d)].lookup col)
  rw [List.lookup_cons, List.lookup_cons]
  cases col == name with
  | true => exact .some hcd
  | false => exact .none

omit [DecidableEq L] [NpFloat F] in
/-- Asking two dictionaries for one product: both have a frame, and the frames are related, or
both are refused. -/
theorem get_alike {data data' : DataDict L F} {cusip : String} {R : Frame L F → Frame L F → Prop}
    (h : Option.Rel R (data.lookup cusip) (data'.lookup cusip)) :
    Alike strict (fun f g => data.lookup cusip = some f ∧ R f g)
      (data.get cusip) (data'.get cusip) := by
  rw [DataDict.get, DataDict.get]
  generalize data.lookup cusip = f at h
  generalize data'.lookup cusip = g at h
  cases h with
  | none => exact .errors
  | some h => exact .ok ⟨rfl, h⟩

end Lookups

/-- Two frames that are the same in the first rows of some columns. -/
structure PrefixEq (k : ℕ) (reads : String → Prop) (f g : Frame L F) : Prop where
  /-- The same index, in full: rows are cut from the values and not from the labels. -/
  index : g.index = f.index
  /-- The columns read are there in both or in neither, and begin alike. -/
  columns : ∀ name, reads name →
    Option.Rel (fun c d => c.1.take k = d.1.take k) (f.columns.lookup name)
      (g.columns.lookup name)

/-- The columns that the indicator of a name reads. -/
def Reads (indicatorName column : String) : Prop :=
  if indicatorName = "get_stochastic_oscillator" then
    column = "High" ∨ column = "Low" ∨ column = "Close"
  else column = "factor"

namespace PrefixEq

variable {reads : String → Prop} {f g : Frame L F}

omit [DecidableEq L] [NpFloat F] in
/-- A column that is read begins alike in both frames, or is refused by both. -/
theorem column (h : PrefixEq k reads f g) {name : String} (hr : reads name) :
    Alike strict (fun c d => c.1.take k = d.1.take k) (f.column name) (g.column name) :=
  (column_alike (h.columns name hr)).mono fun _ _ hcd => hcd.2

end PrefixEq

/-- Two series over one index, the same in their first rows. -/
structure SeriesEq (k : ℕ) (index : List L) (s t : Series L F) : Prop where
  /-- The first series is over the index. -/
  left : s.index = index
  /-- So is the second. -/
  right : t.index = index
  /-- Their values begin alike. -/
  values : s.values.take k = t.values.take k

namespace SeriesEq

variable {index : List L} {s t : Series L F}

omit [DecidableEq L] [NpFloat F] in
/-- A computation that does not look ahead. -/
theorem transform (h : SeriesEq k index s t) {T : List F → List F}
    (hT : ∀ xs, (T xs).length = xs.length) (htake : ∀ xs, (T xs).take k = T (xs.take k)) :
    SeriesEq k index (s.transform T hT) (t.transform T hT) where
  left := h.left
  right := h.right
  values := by
    show (T s.values).take k = (T t.values).take k
    rw [htake, htake, h.values]

/-- Two series that are already over the index are aligned to it by doing nothing, and never
refused. -/
theorem reindex (h : SeriesEq k index s t) :
    Alike strict (fun c d => c.1.take k = d.1.take k) (s.reindex index) (t.reindex index) := by
  rw [Series.reindex, Series.reindex, dif_pos h.left, dif_pos h.right]
  exact .ok h.values

end SeriesEq

omit [DecidableEq L] [NpFloat F] in
/-- Taken out as series, the columns carry the frame's index, which both frames share. -/
theorem PrefixEq.series {reads : String → Prop} {f g : Frame L F} (h : PrefixEq k reads f g)
    {name : String} (hr : reads name) :
    Alike strict (SeriesEq k f.index) (f.series name) (g.series name) :=
  (h.column hr).bind fun _ _ hcd => .ok ⟨rfl, h.index, hcd⟩

/-! ## Relative strength -/

namespace TechnicalAnalysis

/-- Relative strength is row by row over windows that end there, so that cutting its argument cuts
it. -/
@[simp] theorem take_rsi (w k : ℕ) (delta : List F) :
    (rsi w delta).take k = rsi w (delta.take k) := by
  simp only [rsi, List.take_zipWith, take_rolling, List.map_take]

@[simp] theorem take_bollingerBand (w k : ℕ) (factor : List F) :
    (bollingerBand w factor).take k = bollingerBand w (factor.take k) := by
  simp only [bollingerBand, List.take_zipWith, take_rolling]

@[simp] theorem take_stochasticOscillator (w k : ℕ) (high low close : List F) :
    (stochasticOscillator w high low close).take k
      = stochasticOscillator w (high.take k) (low.take k) (close.take k) := by
  simp only [stochasticOscillator, stochasticK, List.take_zipWith, take_rolling]

/-- The rows of an index that have a difference, with the difference. -/
def deltaRows (index : List L) (xs : List F) : List (L × F) :=
  (index.zip (diff xs)).filter fun r => !isNan r.2

omit [DecidableEq L] in
/-- The differences of the first rows do not depend on the rest. -/
theorem deltaRows_append (k : ℕ) (index : List L) (xs : List F) :
    deltaRows index xs = deltaRows (index.take k) (xs.take k)
      ++ ((index.drop k).zip ((diff xs).drop k)).filter fun r => !isNan r.2 := by
  rw [deltaRows, deltaRows, ← take_diff, List.zip_eq_zipWith, List.zip_eq_zipWith,
    List.zip_eq_zipWith, ← List.take_zipWith, ← List.drop_zipWith, ← List.filter_append,
    List.take_append_drop]

/-- The strength of those rows. -/
def rsiRows (w : ℕ) (rows : List (L × F)) : List (L × F) :=
  (rows.map Prod.fst).zip (rsi w (rows.map Prod.snd))

omit [DecidableEq L] in
/-- The strength of the first rows does not depend on the rest. -/
theorem rsiRows_append (w : ℕ) (A B : List (L × F)) :
    ∃ vs, rsiRows w (A ++ B) = rsiRows w A ++ (B.map Prod.fst).zip vs := by
  have hlen : (rsi w (A.map Prod.snd)).length = (A.map Prod.fst).length := by
    rw [length_rsi, List.length_map, List.length_map]
  have htake : (rsi w ((A ++ B).map Prod.snd)).take (A.map Prod.fst).length
      = rsi w (A.map Prod.snd) := by
    rw [take_rsi, List.map_append, List.length_map, ← List.length_map (f := Prod.snd),
      List.take_left]
  have hsplit : rsi w ((A ++ B).map Prod.snd) = rsi w (A.map Prod.snd)
      ++ (rsi w ((A ++ B).map Prod.snd)).drop (A.map Prod.fst).length := by
    rw [← htake, List.take_append_drop]
  refine ⟨(rsi w ((A ++ B).map Prod.snd)).drop (A.map Prod.fst).length, ?_⟩
  conv_lhs => rw [rsiRows, hsplit]
  rw [List.map_append, List.zip_append hlen.symm, rsiRows]

/-- A label of the first rows has the strength that the first rows give it. -/
theorem lookup_rsiRows {index : List L} {xs : List F} (w : ℕ) {l : L}
    (hl : l ∉ index.drop k) :
    (rsiRows w (deltaRows index xs)).lookup l
      = (rsiRows w (deltaRows (index.take k) (xs.take k))).lookup l := by
  obtain ⟨vs, hvs⟩ := rsiRows_append w (deltaRows (index.take k) (xs.take k))
    (((index.drop k).zip ((diff xs).drop k)).filter fun r => !isNan r.2)
  rw [deltaRows_append k, hvs, List.lookup_append]
  have hnone : ((((index.drop k).zip ((diff xs).drop k)).filter
      fun r => !isNan r.2).map Prod.fst |>.zip vs).lookup l = none := by
    refine List.lookup_eq_none_iff.mpr fun r hr => ?_
    obtain ⟨q, hq, hqr⟩ := List.mem_map.mp (List.of_mem_zip hr).1
    have hmem : r.1 ∈ index.drop k := by
      rw [← hqr]
      exact (List.of_mem_zip (List.mem_of_mem_filter hq)).1
    have hne : l ≠ r.1 := fun h => hl (by
      rw [h]
      exact hmem)
    exact bne_iff_ne.mpr hne
  rw [hnone, Option.or_none]

omit [DecidableEq L] in
/-- The first row never has a difference, so some row is dropped. -/
theorem dropna_diff_index_ne {s : Series L F} (h : s.index ≠ []) :
    (s.transform diff length_diff).dropna.index ≠ s.index := by
  intro heq
  have hlen := congrArg List.length heq
  have hrows : ((s.transform diff length_diff).rows.filter fun r => !isNan r.2).length
      = (s.transform diff length_diff).rows.length := by
    have hl : (s.transform diff length_diff).dropna.index.length
        = ((s.transform diff length_diff).rows.filter fun r => !isNan r.2).length :=
      List.length_map _
    rw [← hl, hlen, Series.rows, List.length_zip, Series.length_values, min_self]
    rfl
  have hall := List.length_filter_eq_length_iff.mp hrows
  obtain ⟨l, ls, hidx⟩ := List.exists_cons_of_ne_nil h
  obtain ⟨x, xs, hval⟩ : ∃ x xs, s.values = x :: xs := by
    refine List.exists_cons_of_ne_nil fun hnil => ?_
    have := s.length_values
    rw [hnil, hidx] at this
    cases this
  -- The first row is there, and it has no value.
  have hmem : (l, (NpFloat.nan : F)) ∈ (s.transform diff length_diff).rows := by
    show (l, (NpFloat.nan : F)) ∈ s.index.zip (diff s.values)
    have hfirst : (diff (x :: xs)).take 1 = [NpFloat.nan] := take_diff 1 (x :: xs)
    rw [hidx, hval, ← List.take_append_drop 1 (diff (x :: xs)), hfirst]
    exact List.mem_cons_self
  have := hall _ hmem
  rw [isNan_nan] at this
  cases this

omit [DecidableEq L] in
/-- The rows that have a difference are rows of the series. -/
theorem dropna_diff_sublist (s : Series L F) :
    (s.transform diff length_diff).dropna.index.Sublist s.index := by
  have hmap : (((s.index.zip (diff s.values)).filter fun q => !isNan q.2).map Prod.fst).Sublist
      ((s.index.zip (diff s.values)).map Prod.fst) := List.filter_sublist.map Prod.fst
  rwa [List.map_fst_zip (by rw [length_diff, Series.length_values])] at hmap

/-- What `getRsi` makes of a series, before it is put back by label. -/
def rsiSeries (w : ℕ) (s : Series L F) : Series L F :=
  (s.transform diff length_diff).dropna.transform (rsi w) (length_rsi w)

/-- Relative strength, put back by label. -/
theorem rsi_alike {index : List L} {s t : Series L F} (h : SeriesEq k index s t) (w : ℕ)
    (hcut : Cut k index) (hs : strict → index.Nodup) :
    Alike strict (fun c d => c.1.take k = d.1.take k)
      ((rsiSeries w s).reindex index) ((rsiSeries w t).reindex index) := by
  obtain ⟨rfl, hidx, hval⟩ := h
  by_cases hnil : s.index = []
  · -- Nothing to compute on.
    have hdrop (r : Series L F) (hr : r.index = []) : (rsiSeries w r).index = [] :=
      List.sublist_nil.mp (hr ▸ dropna_diff_sublist r)
    have hempty (r : Series L F) (hr : r.index = []) : (rsiSeries w r).values = [] := by
      rw [← List.length_eq_zero_iff, Series.length_values, hdrop r hr, List.length_nil]
    rw [Series.reindex_self ((hdrop s hnil).trans hnil.symm),
      Series.reindex_self ((hdrop t (hidx.trans hnil)).trans hnil.symm)]
    refine .ok ?_
    show (rsiSeries w s).values.take k = (rsiSeries w t).values.take k
    rw [hempty s hnil, hempty t (hidx.trans hnil)]
  · have hnes : (rsiSeries w s).index ≠ s.index := dropna_diff_index_ne hnil
    have hnet : (rsiSeries w t).index ≠ s.index :=
      hidx ▸ dropna_diff_index_ne (hidx ▸ hnil : t.index ≠ [])
    have hnd (r : Series L F) (hr : r.index = s.index) (hst : strict) :
        (rsiSeries w r).index.Nodup := (dropna_diff_sublist r).nodup (hr ▸ hs hst)
    have hlook (r : Series L F) (hr : r.index = s.index) {l : L} (hl : l ∈ s.index.take k) :
        (rsiSeries w r).rows.lookup l
          = (rsiRows w (deltaRows (s.index.take k) (r.values.take k))).lookup l := by
      rw [← hr] at hl hcut ⊢
      exact lookup_rsiRows w (hcut l hl)
    rw [Series.reindex_of_ne hnes, Series.reindex_of_ne hnet]
    by_cases hns : (rsiSeries w s).index.Nodup
    · rw [if_pos hns]
      by_cases hnt : (rsiSeries w t).index.Nodup
      · rw [if_pos hnt]
        refine .ok ?_
        rw [← List.map_take, ← List.map_take]
        refine List.map_congr_left fun l hl => ?_
        rw [hlook s rfl hl, hlook t hidx hl, hval]
      · rw [if_neg hnt]
        exact .right fun hst => hnt (hnd t hidx hst)
    · rw [if_neg hns]
      have hnot : ¬ strict := fun hst => hns (hnd s rfl hst)
      split
      · exact .left hnot
      · exact .errors

/-! ## Every indicator -/

/-- **An indicator does not look ahead**: it reads the columns it reads, and of those
the rows so far. -/
theorem indicator_alike {f g : Frame L F} {name : String} (h : PrefixEq k (Reads name) f g)
    (w : ℤ) (hcut : Cut k f.index) (hs : strict → f.index.Nodup) :
    Alike strict (fun c d => c.1.take k = d.1.take k)
      (indicator f name w) (indicator g name w) := by
  have hown {x y : Except PyError (Series L F)} (hxy : Alike strict (SeriesEq k f.index) x y) :
      Alike strict (fun (c : Column F f.index) (d : Column F g.index) => c.1.take k = d.1.take k)
        (do let s ← x; s.reindex f.index) (do let s ← y; s.reindex g.index) :=
    hxy.bind fun s t hst => by
      rw [h.index]
      exact hst.reindex
  have hfactor (hne : name ≠ "get_stochastic_oscillator") : Reads name "factor" := by
    rw [Reads, if_neg hne]
  rw [indicator, indicator, method, method]
  split_ifs with hsma hema hrsi hbb hso
  · exact hown ((h.series (hfactor (by rw [hsma]; decide))).bind fun s t hst =>
      (Alike.refl (fun _ => rfl) (rollingWindow w)).bind fun n n' hn => by
        cases hn
        exact .ok (hst.transform (length_rolling rollMean n) (take_rolling rollMean n k)))
  · exact hown ((h.series (hfactor (by rw [hema]; decide))).bind fun s t hst =>
      (Alike.refl (fun _ => rfl) (ewmSpan w)).bind fun n n' hn => by
        cases hn
        exact .ok (hst.transform (length_ewm n) (take_ewm n k)))
  · -- The intermediate series have the same rows only where both have a difference.
    have hmid : Alike strict (fun s t => ∃ n s' t', SeriesEq k f.index s' t' ∧
        s = rsiSeries n s' ∧ t = rsiSeries n t') (getRsi f w) (getRsi g w) :=
      (h.series (hfactor (by rw [hrsi]; decide))).bind fun s t hst =>
        (Alike.refl (fun _ => rfl) (rollingWindow w)).bind fun n n' hn => by
          cases hn
          exact .ok ⟨n, s, t, hst, rfl, rfl⟩
    refine hmid.bind fun _ _ hrel => ?_
    obtain ⟨n, s, t, hst, hs', ht'⟩ := hrel
    rw [hs', ht', h.index]
    exact rsi_alike hst n hcut hs
  · exact hown ((h.series (hfactor (by rw [hbb]; decide))).bind fun s t hst =>
      (Alike.refl (fun _ => rfl) (rollingWindow w)).bind fun n n' hn => by
        cases hn
        exact .ok (hst.transform (length_bollingerBand n) (take_bollingerBand n k)))
  · have hreads (c : String) (hc : c = "High" ∨ c = "Low" ∨ c = "Close") : Reads name c := by
      rw [Reads, if_pos hso]
      exact hc
    exact hown ((h.column (hreads "High" (.inl rfl))).bind fun high high' hh =>
      (Alike.refl (fun _ => rfl) (rollingWindow w)).bind fun n n' hn =>
        (h.column (hreads "Low" (.inr (.inl rfl)))).bind fun low low' hl =>
          (h.column (hreads "Close" (.inr (.inr rfl)))).bind fun close close' hc => by
            cases hn
            refine .ok ⟨rfl, h.index, ?_⟩
            show (stochasticOscillator n high.1 low.1 close.1).take k
              = (stochasticOscillator n high'.1 low'.1 close'.1).take k
            rw [take_stochasticOscillator, take_stochasticOscillator, hh, hl, hc])
  · exact .errors

end TechnicalAnalysis

/-! ## Combined positions -/

/-- Two columns of one length, the same in their first rows. -/
structure ColumnEq {α : Type} (k n : ℕ) (xs ys : List α) : Prop where
  /-- They begin alike. -/
  take : xs.take k = ys.take k
  /-- The length of the first. -/
  left : xs.length = n
  /-- The length of the second. -/
  right : ys.length = n

/-- Two columns of some length, the same in their first rows. -/
structure RowsEq {α : Type} (k : ℕ) (xs ys : List α) : Prop where
  /-- They begin alike. -/
  take : xs.take k = ys.take k
  /-- They have one length, which need not be known. -/
  length : xs.length = ys.length

/-- Lists that begin alike have the same entries there. -/
theorem getElem?_of_take_eq {α : Type} {xs ys : List α} (h : xs.take k = ys.take k) {i : ℕ}
    (hi : i < k) : xs[i]? = ys[i]? := by
  rw [← List.getElem?_take_of_lt hi, h, List.getElem?_take_of_lt hi]

/-- Rows stacked from columns that are the same in their first rows. -/
theorem columnStack_alike {α : Type} {n : ℕ} {ps qs : List (List α)}
    (h : List.Forall₂ (ColumnEq k n) ps qs) :
    Alike strict (RowsEq k) (columnStack ps) (columnStack qs) := by
  have hlen (cs : List (List α)) (hcs : ∀ c ∈ cs, c.length = n) :
      cs.all (·.length = (cs.map List.length).headD 0) = true := by
    refine List.all_eq_true.mpr fun c hc => ?_
    cases cs with
    | nil => cases hc
    | cons c' cs =>
      refine decide_eq_true ?_
      rw [hcs c hc]
      exact (hcs c' List.mem_cons_self).symm
  have hheads : (ps.map List.length).headD 0 = (qs.map List.length).headD 0 := by
    cases h with
    | nil => rfl
    | cons h _ => exact h.left.trans h.right.symm
  have hleft : ∀ c ∈ ps, c.length = n := by
    clear hheads hlen
    induction h with
    | nil => exact fun _ hc => by cases hc
    | cons h _ ih => exact List.forall_mem_cons.mpr ⟨h.left, ih⟩
  have hright : ∀ c ∈ qs, c.length = n := by
    clear hheads hlen hleft
    induction h with
    | nil => exact fun _ hc => by cases hc
    | cons h _ ih => exact List.forall_mem_cons.mpr ⟨h.right, ih⟩
  have hrow (i : ℕ) (hi : i < k) : ps.filterMap (·[i]?) = qs.filterMap (·[i]?) := by
    clear hheads hlen hleft hright
    induction h with
    | nil => rfl
    | cons h _ ih => rw [List.filterMap_cons, List.filterMap_cons, getElem?_of_take_eq h.take hi, ih]
  rw [columnStack, columnStack]
  simp only [hlen ps hleft, hlen qs hright, if_true]
  refine .ok ⟨?_, ?_⟩
  · rw [← List.map_take, ← List.map_take, List.take_range, List.take_range, ← hheads]
    exact List.map_congr_left fun i hi =>
      hrow i (lt_of_lt_of_le (List.mem_range.mp hi) (min_le_left _ _))
  · rw [List.length_map, List.length_map, List.length_range, List.length_range, hheads]

/-- The strengths that decide a conflict are related when all of them are: the gate's is left out
on both sides. -/
theorem forall₂_directions {α : Type} {R : α → α → Prop} (conj : Conjunction) {xs ys : List α}
    (h : List.Forall₂ R xs ys) :
    List.Forall₂ R (directions conj xs) (directions conj ys) := by
  cases conj with
  | filter => exact List.forall₂_drop 1 h
  | and => exact h
  | or => exact h

/-- Convictions begin alike where the readings do, factor by factor. -/
theorem forall₂_conviction {n : ℕ} {ss ts : List (List F)}
    (h : List.Forall₂ (ColumnEq k n) ss ts) :
    List.Forall₂ (ColumnEq k n) (ss.map conviction) (ts.map conviction) :=
  List.forall₂_map_left_iff.mpr (List.forall₂_map_right_iff.mpr (h.imp fun s t hst =>
    ⟨by rw [take_conviction, take_conviction, hst.take], by rw [length_conviction, hst.left],
      by rw [length_conviction, hst.right]⟩))

/-- **The combination does not look ahead**, conviction included. The conviction of a bar ranks it
among the bars up to it, so that the signs and the indicators up to a bar decide the position on
it. -/
theorem combinePositions_alike {n : ℕ} {ps qs : List (List Position)} {ss ts : List (List F)}
    (conjunction : String) (hp : List.Forall₂ (ColumnEq k n) ps qs)
    (hs : List.Forall₂ (ColumnEq k n) ss ts) :
    Alike strict (RowsEq k) (combinePositions ps conjunction (some ss))
      (combinePositions qs conjunction (some ts)) := by
  cases hp with
  | nil => exact .errors
  | @cons p q ps qs h hrest =>
    cases hrest with
    | nil => exact .ok ⟨h.take, h.left.trans h.right.symm⟩
    | @cons p' q' ps qs h' hrest =>
      refine (Alike.refl (fun _ => rfl) (Conjunction.ofString conjunction)).bind
        fun conj conj' hconj => ?_
      cases hconj
      refine (columnStack_alike (.cons h (.cons h' hrest))).bind fun rows rows' hrows => ?_
      have hfactors : (q :: q' :: qs).length = (p :: p' :: ps).length :=
        (List.Forall₂.cons h (.cons h' hrest)).length_eq.symm
      rw [weighed, weighed, hfactors]
      by_cases hgate : conj = .filter ∧ (p :: p' :: ps).length = 2
      · rw [if_pos hgate, if_pos hgate]
        refine .ok ⟨?_, ?_⟩
        · rw [← List.map_take, ← List.map_take, hrows.take]
        · rw [List.length_map, List.length_map, hrows.length]
      · rw [if_neg hgate, if_neg hgate]
        refine (columnStack_alike (forall₂_directions conj hs |> forall₂_conviction)).bind
          fun convs convs' hconvs => ?_
        refine .ok ⟨?_, ?_⟩
        · rw [List.take_zipWith, List.take_zipWith, hrows.take, hconvs.take]
        · rw [List.length_zipWith, List.length_zipWith, hrows.length, hconvs.length]
