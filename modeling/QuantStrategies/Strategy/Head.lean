import QuantStrategies.Strategy.Live

/-!
# A run on the first bars alone

A strategy that is run on the first `k` bars of its frames, and the same strategy on
all of them. Every computation goes from the first bar on, so where the run on all bars
goes through, the one on the first of them does, and has the first `k` rows of it
(`enriched_head`). What it takes is that the factors that are put onto the first bars
are the first rows of what they are on all bars.

Unlike the comparison of two runs on frames of one length, the run on the first bars has a
shorter index, so that its columns are equalities and not agreements: each is the first rows
of the other. And it is one direction. The run on all bars may be refused for what comes
later, and a factor may cover all bars and not the first of them, so `Follows` carries what
the long run has over to the short one, given what the factors are.
-/

open Pandas NpFloat TwoRuns Causal

variable {L F : Type} [DecidableEq L] [NpFloat F] {k : ℕ}

/-- A frame of the first rows of another one. -/
structure HeadOf (k : ℕ) (f g : Frame L F) : Prop where
  /-- The first labels. -/
  index : g.index = f.index.take k
  /-- The first rows of each column, and no other columns. -/
  columns : ∀ name, Option.Rel (fun c d => d.1 = c.1.take k) (f.columns.lookup name)
    (g.columns.lookup name)

omit [DecidableEq L] [NpFloat F] in
/-- Cutting a frame at a row gives such a frame. -/
theorem headOf_iloc (k : ℕ) (f : Frame L F) : HeadOf k f (f.iloc .head k) where
  index := rfl
  columns name := by
    rw [Frame.lookup_iloc]
    cases f.columns.lookup name with
    | none => exact .none
    | some c => exact .some rfl

/-- A series over the index of a frame, and the first rows of it over that of another. -/
structure SeriesHead (k : ℕ) (f g : Frame L F) (s t : Series L F) : Prop where
  /-- The first is over the frame's index. -/
  left : s.index = f.index
  /-- The second over the cut one. -/
  right : t.index = g.index
  /-- And its values are the first rows. -/
  values : t.values = s.values.take k

namespace HeadOf

variable {f g : Frame L F}

omit [DecidableEq L] [NpFloat F] in
/-- A column that the whole frame has is in the cut one, with its first rows. -/
theorem column (h : HeadOf k f g) (name : String) :
    Follows (fun c d => d.1 = c.1.take k) (f.column name) (g.column name) := by
  rw [Frame.column, Frame.column]
  have hrel := h.columns name
  generalize f.columns.lookup name = c at hrel
  generalize g.columns.lookup name = d at hrel
  cases hrel with
  | none => exact .error
  | some hcd => exact .ok hcd

omit [DecidableEq L] [NpFloat F] in
theorem hasColumn (h : HeadOf k f g) (name : String) : g.hasColumn name = f.hasColumn name :=
  hasColumn_eq (h.columns name)

omit [DecidableEq L] [NpFloat F] in
theorem series (h : HeadOf k f g) (name : String) :
    Follows (SeriesHead k f g) (f.series name) (g.series name) :=
  (h.column name).bind fun _ _ _ hcd => .ok ⟨rfl, rfl, hcd⟩

omit [DecidableEq L] [NpFloat F] in
/-- A frame that is accepted is so after the cut. -/
theorem init (h : HeadOf k f g) :
    Follows (fun a b => a = f ∧ b = g) (TechnicalAnalysis.init f) (TechnicalAnalysis.init g) := by
  rw [TechnicalAnalysis.init, TechnicalAnalysis.init, h.hasColumn]
  split
  · exact .ok ⟨rfl, rfl⟩
  · exact .error

omit [DecidableEq L] [NpFloat F] in
/-- A column put in the same place of two frames. -/
theorem set (h : HeadOf k f g) (name : String) {c : Column F f.index} {d : Column F g.index}
    (hcd : d.1 = c.1.take k) : HeadOf k (f.set name c) (g.set name d) where
  index := h.index
  columns col := lookup_set hcd fun _ => h.columns col

omit [DecidableEq L] [NpFloat F] in
theorem single {index index' : List L} (hidx : index' = index.take k) (name : String)
    {c : Column F index} {d : Column F index'} (hcd : d.1 = c.1.take k) :
    HeadOf k (Frame.single name index c) (Frame.single name index' d) where
  index := hidx
  columns _ := lookup_single hcd

end HeadOf

namespace SeriesHead

variable {f g : Frame L F} {s t : Series L F}

omit [DecidableEq L] [NpFloat F] in
/-- A computation that does not look ahead. -/
theorem transform (h : SeriesHead k f g s t) {T : List F → List F}
    (hT : ∀ xs, (T xs).length = xs.length) (htake : ∀ xs, (T xs).take k = T (xs.take k)) :
    SeriesHead k f g (s.transform T hT) (t.transform T hT) where
  left := h.left
  right := h.right
  values := by
    show T t.values = (T s.values).take k
    rw [htake, h.values]

/-- Series over their frames' own indexes are aligned to them by doing nothing. -/
theorem reindex (h : SeriesHead k f g s t) :
    Follows (fun c d => d.1 = c.1.take k) (s.reindex f.index) (t.reindex g.index) := by
  rw [Series.reindex_self h.left, Series.reindex_self h.right]
  exact .ok h.values

end SeriesHead

/-! ## Indicators -/

namespace TechnicalAnalysis

/-- Relative strength, put back by label. -/
theorem rsi_head {f g : Frame L F} {s t : Series L F} (hfg : HeadOf k f g)
    (h : SeriesHead k f g s t) (w : ℕ) (hcut : Cut k f.index) (hk : 0 < k) :
    Follows (fun c d => d.1 = c.1.take k)
      ((rsiSeries w s).reindex f.index) ((rsiSeries w t).reindex g.index) := by
  have hindex : t.index = s.index.take k := by rw [h.right, h.left, hfg.index]
  rw [← h.left] at hcut ⊢
  rw [← h.right]
  by_cases hnil : s.index = []
  · -- nothing to compute on
    have hnil' : t.index = [] := by rw [hindex, hnil, List.take_nil]
    have hdrop {r : Series L F} (hr : r.index = []) : (rsiSeries w r).index = [] :=
      List.sublist_nil.mp (hr ▸ dropna_diff_sublist r)
    have hempty {r : Series L F} (hr : r.index = []) : (rsiSeries w r).values = [] := by
      rw [← List.length_eq_zero_iff, Series.length_values, hdrop hr, List.length_nil]
    rw [Series.reindex_self ((hdrop hnil).trans hnil.symm),
      Series.reindex_self ((hdrop hnil').trans hnil'.symm)]
    refine .ok ?_
    show (rsiSeries w t).values = (rsiSeries w s).values.take k
    rw [hempty hnil, hempty hnil', List.take_nil]
  · have hne : t.index ≠ [] := by
      rw [hindex, ne_eq, List.take_eq_nil_iff, not_or]
      exact ⟨hk.ne', hnil⟩
    have hnes : (rsiSeries w s).index ≠ s.index := dropna_diff_index_ne hnil
    have hnet : (rsiSeries w t).index ≠ t.index := dropna_diff_index_ne hne
    rw [Series.reindex_of_ne hnes, Series.reindex_of_ne hnet]
    split
    · next hnd =>
      -- the rows of the first bars that have a difference come first
      have hfirst : (rsiSeries w s).index = (rsiSeries w t).index ++
          (((s.index.drop k).zip ((diff s.values).drop k)).filter
            fun r => !isNan r.2).map Prod.fst := by
        show (deltaRows s.index s.values).map Prod.fst
          = (deltaRows t.index t.values).map Prod.fst ++ _
        rw [deltaRows_append k, List.map_append, hindex, h.values]
      rw [if_pos ((List.sublist_append_left _ _).nodup (hfirst ▸ hnd))]
      refine .ok ?_
      rw [← List.map_take, hindex]
      refine List.map_congr_left fun l hl => ?_
      have hlook : (rsiSeries w s).rows.lookup l = (rsiSeries w t).rows.lookup l := by
        show (rsiRows w (deltaRows s.index s.values)).lookup l
          = (rsiRows w (deltaRows t.index t.values)).lookup l
        rw [lookup_rsiRows w (hcut l hl), hindex, h.values]
      rw [hlook]
    · exact .error

/-- **An indicator on the first rows** has the first rows of the indicator. Every indicator is a
recursion or a window over earlier rows, so that rows after the cut are never looked at. -/
theorem indicator_head {f g : Frame L F} (h : HeadOf k f g) (name : String) (w : ℤ)
    (hcut : Cut k f.index) (hk : 0 < k) :
    Follows (fun c d => d.1 = c.1.take k) (indicator f name w) (indicator g name w) := by
  have hown {x y : Except PyError (Series L F)} (hxy : Follows (SeriesHead k f g) x y) :
      Follows (fun (c : Column F f.index) (d : Column F g.index) => d.1 = c.1.take k)
        (do let s ← x; s.reindex f.index) (do let s ← y; s.reindex g.index) :=
    hxy.bind fun _ _ _ hst => hst.reindex
  have hwindow : Follows Eq (rollingWindow w) (rollingWindow w) := .refl (fun _ => rfl) _
  rw [indicator, indicator, method, method]
  split_ifs
  · exact hown ((h.series "factor").bind fun _ _ _ hst => hwindow.bind fun n _ _ hn => by
      cases hn
      exact .ok (hst.transform (length_rolling rollMean n) (take_rolling rollMean n k)))
  · exact hown ((h.series "factor").bind fun _ _ _ hst =>
      (Follows.refl (fun _ => rfl) (ewmSpan w)).bind fun n _ _ hn => by
        cases hn
        exact .ok (hst.transform (length_ewm n) (take_ewm n k)))
  · -- the series in between have other rows than the frames
    have hmid : Follows (fun s t => ∃ n s' t', SeriesHead k f g s' t' ∧
        s = rsiSeries n s' ∧ t = rsiSeries n t') (getRsi f w) (getRsi g w) :=
      (h.series "factor").bind fun s t _ hst => hwindow.bind fun n _ _ hn => by
        cases hn
        exact .ok ⟨n, s, t, hst, rfl, rfl⟩
    refine hmid.bind fun _ _ _ hrel => ?_
    obtain ⟨n, s, t, hst, rfl, rfl⟩ := hrel
    exact rsi_head h hst n hcut hk
  · exact hown ((h.series "factor").bind fun _ _ _ hst => hwindow.bind fun n _ _ hn => by
      cases hn
      exact .ok (hst.transform (length_bollingerBand n) (take_bollingerBand n k)))
  · exact hown ((h.column "High").bind fun high high' _ hh => hwindow.bind fun n _ _ hn =>
      (h.column "Low").bind fun low low' _ hl => (h.column "Close").bind fun close close' _ hc => by
        cases hn
        refine .ok ⟨rfl, rfl, ?_⟩
        show stochasticOscillator n high'.1 low'.1 close'.1
          = (stochasticOscillator n high.1 low.1 close.1).take k
        rw [take_stochasticOscillator, hh, hl, hc])
  · exact .error

end TechnicalAnalysis

/-! ## Combined positions -/

/-- A column of `n` rows, and the first `k` of them. -/
structure ColumnHead {α : Type} (k n : ℕ) (xs ys : List α) : Prop where
  /-- The column has `n` rows. -/
  length : xs.length = n
  /-- The other one has the first `k` of them. -/
  take : ys = xs.take k

/-- Columns cut one by one have one length before and one after, as stacking them asks. -/
theorem ColumnHead.forall₂_lengths {α : Type} {n : ℕ} {ps qs : List (List α)}
    (h : List.Forall₂ (ColumnHead k n) ps qs) :
    (∀ p ∈ ps, p.length = n) ∧ ∀ q ∈ qs, q.length = Min.min k n := by
  induction h with
  | nil => exact ⟨List.forall_mem_nil _, List.forall_mem_nil _⟩
  | cons h _ ih =>
    refine ⟨List.forall_mem_cons.mpr ⟨h.length, ih.1⟩, List.forall_mem_cons.mpr ⟨?_, ih.2⟩⟩
    rw [h.take, List.length_take, h.length]

/-- Columns have the same signs on one of the first rows. -/
theorem rowSigns_head {α : Type} {n : ℕ} {ps qs : List (List α)}
    (h : List.Forall₂ (ColumnHead k n) ps qs) {i : ℕ} (hi : i < k) :
    rowSigns qs i = rowSigns ps i := by
  induction h with
  | nil => rfl
  | @cons p q ps qs h _ ih =>
    show List.filterMap _ (_ :: _) = List.filterMap _ (_ :: _)
    rw [List.filterMap_cons, List.filterMap_cons, h.take, List.getElem?_take_of_lt hi]
    cases p[i]? with
    | none => exact ih
    | some x => exact congrArg (x :: ·) ih

/-- Convictions are cut with their readings: the rank of a reading is among those up to its row.
-/
theorem forall₂_conviction_head {n : ℕ} {ss ts : List (List F)}
    (h : List.Forall₂ (ColumnHead k n) ss ts) :
    List.Forall₂ (ColumnHead k n) (ss.map conviction) (ts.map conviction) :=
  List.forall₂_map_left_iff.mpr (List.forall₂_map_right_iff.mpr (h.imp fun s t hst =>
    ⟨(length_conviction s).trans hst.length, by rw [hst.take, take_conviction]⟩))

/-- **The combination on the first rows**, conviction included. A bar's conviction ranks it among
the bars before it, all of which are in the head. -/
theorem combinePositions_head {n : ℕ} {ps qs : List (List Position)} {ss ts : List (List F)}
    (conjunction : String) (hp : List.Forall₂ (ColumnHead k n) ps qs)
    (hs : List.Forall₂ (ColumnHead k n) ss ts) (htwo : 2 ≤ ps.length)
    (hlen : ss.length = ps.length) :
    Follows (ColumnHead k n) (combinePositions ps conjunction (some ss))
      (combinePositions qs conjunction (some ts)) := by
  obtain ⟨hps, hqs⟩ := ColumnHead.forall₂_lengths hp
  obtain ⟨hss, hts⟩ := ColumnHead.forall₂_lengths hs
  rw [combinePositions_eq conjunction hps hss htwo hlen,
    combinePositions_eq conjunction hqs hts (hp.length_eq ▸ htwo)
      (hs.length_eq.symm.trans (hlen.trans hp.length_eq))]
  refine (Follows.refl (fun _ => rfl) (Conjunction.ofString conjunction)).bind
    fun conj conj' _ hconj => ?_
  cases hconj
  refine .ok ⟨by rw [List.length_map, List.length_range], ?_⟩
  rw [← List.map_take, List.take_range]
  refine List.map_congr_left fun i hi => ?_
  have hik : i < k := lt_of_lt_of_le (List.mem_range.mp hi) (Nat.min_le_left k n)
  rw [rowSigns_head hp hik, rowSigns_head (forall₂_conviction_head (forall₂_directions conj hs)) hik]

/-! ## Runs -/

/-- One factor's columns on all bars, and on the first of them. -/
structure OutputHead (k n : ℕ) (out out' : FactorOutput F) : Prop where
  /-- The first readings. -/
  indicator : ColumnHead k n out.indicator out'.indicator
  /-- The first positions. -/
  position : ColumnHead k n out.position out'.position

/-- Positions are cut with their readings. -/
theorem OutputHead.of_indicator {n : ℕ} {xs ys : List F} (h : ColumnHead k n xs ys)
    (direction : SignalDirection) (signal : F) (c c' : List F) :
    OutputHead k n ⟨c, xs, direction.call xs signal⟩ ⟨c', ys, direction.call ys signal⟩ where
  indicator := h
  position := by
    obtain ⟨f, hf⟩ := direction.call_eq_map signal
    rw [hf, hf]
    exact ⟨(List.length_map f).trans h.length, by rw [h.take, List.map_take]⟩

/-- The frames of a strategy, and those of its first bars, on which the factors have
the first rows of what they are on all bars. -/
structure EngineHead (k : ℕ) (ff ff' : FactorFrames L F) : Prop where
  /-- One strategy. -/
  config : ff'.config = ff.config
  /-- The traded product's frame is cut. -/
  main : HeadOf k ff.main ff'.main
  /-- Each factor, where the long run can read it, is read by the short one as its first rows. -/
  factor : ∀ sub ∈ ff.config.getSubstrategies,
    Follows (fun c d => d.1 = c.1.take k) (ff.factor sub) (ff'.factor sub)

/-- The frame of a single factor is cut with the traded product's. -/
theorem EngineHead.singleFactorFrame {ff ff' : FactorFrames L F} (h : EngineHead k ff ff') :
    Follows (fun f g => f.index = ff.main.index ∧ HeadOf k f g)
      ff.singleFactorFrame ff'.singleFactorFrame := by
  rw [FactorFrames.singleFactorFrame, FactorFrames.singleFactorFrame, h.config]
  refine (Follows.refl (fun _ => rfl) _).bind fun sub sub' hitem hsub => ?_
  cases hsub
  rw [h.main.hasColumn]
  dsimp only
  split
  · exact (h.factor sub (List.mem_of_getElem? (item_eq_ok.mp hitem))).bind fun c d _ hcd =>
      .ok ⟨rfl, h.main.set "factor" hcd⟩
  · exact .ok ⟨rfl, h.main⟩

/-- The indicator and position that one factor's series gives. -/
theorem indicatorAndPosition_head {sub : SubStrategy F} {index index' : List L}
    (hidx : index' = index.take k) {c : Column F index} {d : Column F index'}
    (hcd : d.1 = c.1.take k) (hcut : Cut k index) (hk : 0 < k) (window : ℤ) (signal : F) :
    Follows (OutputHead k index.length)
      (Performance.indicatorAndPosition sub index c window signal)
      (Performance.indicatorAndPosition sub index' d window signal) := by
  have hone : HeadOf k (Frame.single "factor" index c) (Frame.single "factor" index' d) :=
    .single hidx "factor" hcd
  refine hone.init.bind fun a b _ hrel => ?_
  obtain ⟨ha, hb⟩ := hrel
  rw [ha, hb]
  refine (TechnicalAnalysis.indicator_head hone sub.indicatorName window hcut hk).bind
    fun ind ind' _ hind => ?_
  refine (Follows.refl (fun _ => rfl) sub.resolveSignalFunc).bind fun func func' _ hfunc => ?_
  cases hfunc
  exact .ok (.of_indicator ⟨ind.2, hind⟩ func signal _ _)

section

variable {p : Performance L F} {ff : FactorFrames L F}

/-- **One factor**: its columns on the first bars are the first rows of its columns. The frame
that the factor is read from may be of another product, and is cut at the same bar. -/
theorem singleFactorOutputs_head (h : EngineHead k p.frames ff)
    (hcut : Cut k p.frames.main.index) (hk : 0 < k) :
    Follows (OutputHead k p.frames.main.index.length) p.singleFactorOutputs
      (p.withFrames ff).singleFactorOutputs := by
  refine h.singleFactorFrame.bind fun f g _ hrel => ?_
  obtain ⟨hf, hfg⟩ := hrel
  refine hfg.init.bind fun a b _ hrel => ?_
  obtain ⟨ha, hb⟩ := hrel
  rw [ha, hb]
  refine (hfg.column "factor").bind fun c d _ _ => ?_
  refine (Follows.refl (fun _ => rfl) (item p.windows 0)).bind fun w w' _ hw => ?_
  cases hw
  rw [← hf] at hcut ⊢
  refine (TechnicalAnalysis.indicator_head hfg _ w hcut hk).bind fun ind ind' _ hind => ?_
  refine (Follows.refl (fun _ => rfl) (item p.signals 0)).bind fun s s' _ hs => ?_
  cases hs
  exact .ok (.of_indicator ⟨ind.2, hind⟩ _ s _ _)

/-- One factor among several. -/
theorem factorOutput_head (h : EngineHead k p.frames ff) (hcut : Cut k p.frames.main.index)
    (hk : 0 < k) (i : ℕ) {sub : SubStrategy F} (hsub : sub ∈ p.frames.config.getSubstrategies) :
    Follows (OutputHead k p.frames.main.index.length) (p.factorOutput i sub)
      ((p.withFrames ff).factorOutput i sub) := by
  refine (h.factor sub hsub).bind fun c d _ hcd => ?_
  refine (Follows.refl (fun _ => rfl) (item p.windows i)).bind fun w w' _ hw => ?_
  refine (Follows.refl (fun _ => rfl) (item p.signals i)).bind fun s s' _ hs => ?_
  cases hw
  cases hs
  exact indicatorAndPosition_head h.main.index hcd hcut hk w s

/-- **Several factors**, and the position they have together. -/
theorem multiFactorOutputs_head (h : EngineHead k p.frames ff)
    (hcut : Cut k p.frames.main.index) (hk : 0 < k)
    (hsubs : p.subs = p.frames.config.getSubstrategies) (hmulti : p.isMulti = true) :
    Follows (fun r r' => ColumnHead k p.frames.main.index.length r.2 r'.2) p.multiFactorOutputs
      (p.withFrames ff).multiFactorOutputs := by
  refine h.main.init.bind fun _ _ _ _ => ?_
  have hloop : Follows (List.Forall₂ (OutputHead k p.frames.main.index.length))
      (p.subs.zipIdx.mapM fun s => p.factorOutput s.2 s.1)
      (p.subs.zipIdx.mapM fun s => (p.withFrames ff).factorOutput s.2 s.1) :=
    .mapM fun s hs => factorOutput_head h hcut hk s.2
      (hsubs ▸ List.mem_of_getElem? (List.mem_zipIdx_iff_getElem?.mp hs))
  refine hloop.bind fun outs outs' houts hhead => ?_
  have htwo : 2 ≤ outs.length := by
    rw [← (Result.mapM_eq_ok.mp houts).length_eq, List.length_zipIdx]
    exact of_decide_eq_true hmulti
  refine (combinePositions_head (n := p.frames.main.index.length) p.config.conjunction
    ?_ ?_ ?_ ?_).bind fun r r' _ hr => .ok hr
  · exact List.forall₂_map_left_iff.mpr
      (List.forall₂_map_right_iff.mpr (hhead.imp fun _ _ h => h.position))
  · exact List.forall₂_map_left_iff.mpr
      (List.forall₂_map_right_iff.mpr (hhead.imp fun _ _ h => h.indicator))
  · rw [List.length_map]
    exact htwo
  · rw [List.length_map, List.length_map]

/-- The two cases together, by how many factors the strategy has. -/
theorem factorOutputs_head (h : EngineHead k p.frames ff)
    (hcut : Cut k p.frames.main.index) (hk : 0 < k)
    (hsubs : p.subs = p.frames.config.getSubstrategies) :
    Follows (fun r r' => ColumnHead k p.frames.main.index.length r.2 r'.2) p.factorOutputs
      (p.withFrames ff).factorOutputs := by
  show Follows _ (if p.isMulti then _ else _) (if p.isMulti then _ else _)
  split
  · next hmulti => exact multiFactorOutputs_head h hcut hk hsubs hmulti
  · exact (singleFactorOutputs_head h hcut hk).bind fun out out' _ hout => .ok hout.position

/-- The columns of a run on the first bars, against those of the run on all. -/
structure EnrichedHead (k : ℕ) (e e' : Enriched F) : Prop where
  /-- The first positions, all factors combined. -/
  finalPosition : e'.finalPosition = e.finalPosition.take k
  /-- The first positions entering a bar. -/
  finalPositionX1 : e'.finalPositionX1 = e.finalPositionX1.take k
  /-- The first turnovers. -/
  trade : e'.trade = e.trade.take k
  /-- The first returns. -/
  pnl : e'.pnl = e.pnl.take k

omit [DecidableEq L] in
/-- The returns of the first rows are those of the positions and prices there. -/
theorem strategyPnl_head {n : ℕ} {pos pos' chg chg' : List F} (hpos : ColumnHead k n pos pos')
    (hchg : chg' = chg.take k) (hk : 0 < k) (cost : F) :
    Follows (fun r r' => r'.1 = r.1.take k ∧ r'.2.1 = r.2.1.take k ∧ r'.2.2 = r.2.2.take k)
      (strategyPnl pos chg cost) (strategyPnl pos' chg' cost) := by
  have hnil : pos = [] ↔ pos' = [] := by
    rw [hpos.take, List.take_eq_nil_iff, or_iff_right hk.ne']
  rw [strategyPnl, strategyPnl]
  by_cases hp : pos = []
  · rw [if_pos hp]
    exact .error
  · rw [if_neg hp, if_neg (fun h => hp (hnil.mpr h))]
    refine .ok ⟨?_, ?_, ?_⟩
    · rw [take_shift, hpos.take]
    · rw [List.take_zipWith, take_shift, hpos.take]
    · simp only [List.take_zipWith, take_shift, hpos.take, hchg]

/-- **The columns of a run are cut with its bars.** A return needs the prices of its bar and the
one in front, and neither is after it. -/
theorem enrichPerformance_head (h : EngineHead k p.frames ff)
    (hcut : Cut k p.frames.main.index) (hk : 0 < k)
    (hsubs : p.subs = p.frames.config.getSubstrategies) :
    Follows (EnrichedHead k) p.enrichPerformance (p.withFrames ff).enrichPerformance := by
  refine (factorOutputs_head h hcut hk hsubs).bind fun r r' _ hr => ?_
  refine (h.main.column "price").bind fun price price' _ hprice => ?_
  have hpos : ColumnHead k p.frames.main.index.length
      (r.2.map (Position.toFloat (F := F))) (r'.2.map Position.toFloat) :=
    ⟨(List.length_map _).trans hr.length, by rw [hr.take, List.map_take]⟩
  have hchg : pctChange price'.1 = (pctChange price.1).take k := by rw [take_pctChange, hprice]
  exact (strategyPnl_head hpos hchg hk p.transactionCost).bind fun q q' _ hq =>
    .ok ⟨hr.take, hq.1, hq.2.1, hq.2.2⟩

end

/-- **A run on the first bars** has the first rows of the run on all of them. -/
theorem enriched_head {data data' : DataDict L F} {config : StrategyConfig F}
    {main main' : Frame L F} (hmain : data.get config.internalCusip = .ok main)
    (hmain' : data'.get config.internalCusip = .ok main')
    (h : EngineHead k ⟨data, config, main⟩ ⟨data', config, main'⟩) (hcut : Cut k main.index)
    (hk : 0 < k) (window : Option (Arg ℤ)) (signal : Option (Arg F)) (feeBps : Option F)
    (minMetricObs : ℤ) :
    Follows (EnrichedHead k) (enriched data config window signal feeBps minMetricObs)
      (enriched data' config window signal feeBps minMetricObs) := by
  have hinit : Alike True _ _ _ := init_alike hmain hmain' window signal feeBps minMetricObs
  refine (Follows.of_alike hinit trivial).bind fun p p' _ hrel => ?_
  obtain ⟨hp, _, hsubs, hp'⟩ := hrel
  rw [hp']
  exact enrichPerformance_head (hp ▸ h) (hp ▸ hcut) hk (hp ▸ hsubs)
