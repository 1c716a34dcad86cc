import QuantStrategies.Strategy.Prefix

/-!
# No look-ahead

Two data dictionaries over the same indexes that agree up to a bar. Whatever the
later rows contain, the positions, the turnover and the returns of a strategy
agree up to that bar (`enriched_up_to`).

Up to a bar, in the frame of the traded product, means the rows up to it. In the
frame of another product it means the rows that carry their labels.

The proof follows the engine from the inside out: a column aligned by label, one factor,
several combined, and the columns of returns. Each step is one `Alike` lemma, whose
hypothesis is `AgreeTo` and whose two runs share the strategy and its parameters. What a
later row contains enters none of them.
-/

open Pandas NpFloat TwoRuns

variable {L F : Type} [DecidableEq L] [NpFloat F] {k : ℕ} {strict : Prop} {S : L → Prop}

/-! ## Agreement on some labels -/

/-- Two columns agree on the rows whose label is in `S`. -/
def AgreeOn (S : L → Prop) (index : List L) (xs ys : List F) : Prop :=
  ∀ (i : ℕ) (l : L), index[i]? = some l → S l → xs[i]? = ys[i]?

/-- Two frames over one index agree there, in the columns that are read. -/
structure FrameAgree (S : L → Prop) (reads : String → Prop) (f g : Frame L F) : Prop where
  /-- The same index. -/
  index : g.index = f.index
  /-- The columns read are there in both or in neither, and agree on the labels. -/
  columns : ∀ name, reads name →
    Option.Rel (fun c d => AgreeOn S f.index c.1 d.1) (f.columns.lookup name)
      (g.columns.lookup name)

/-- Two dictionaries have frames for the same products, which agree. -/
def DataAgree (S : L → Prop) (data data' : DataDict L F) : Prop :=
  ∀ cusip, Option.Rel (FrameAgree S fun _ => True) (data.lookup cusip) (data'.lookup cusip)

omit [DecidableEq L] [NpFloat F] in
/-- Agreement on the labels of the first rows, as an equality of the first rows. Both columns are
as long as the index. -/
theorem AgreeOn.take_eq {index : List L} {xs ys : List F} (h : AgreeOn S index xs ys)
    (hS : ∀ l ∈ index.take k, S l) (hx : xs.length = index.length)
    (hy : ys.length = index.length) : xs.take k = ys.take k := by
  refine List.ext_getElem? fun i => ?_
  by_cases hi : i < k
  · rw [List.getElem?_take_of_lt hi, List.getElem?_take_of_lt hi]
    by_cases hlt : i < index.length
    · refine h i index[i] (List.getElem?_eq_getElem hlt) (hS _ ?_)
      exact List.mem_take_iff_getElem.mpr ⟨i, by omega, rfl⟩
    · rw [List.getElem?_eq_none (by omega), List.getElem?_eq_none (by omega)]
  · rw [List.getElem?_take_eq_none (by omega), List.getElem?_take_eq_none (by omega)]

omit [NpFloat F] in
/-- A label where two columns agree is found with one value in both. -/
theorem AgreeOn.lookup {index : List L} {xs ys : List F} (h : AgreeOn S index xs ys)
    (hx : xs.length = index.length) (hy : ys.length = index.length) {l : L} (hl : S l) :
    (index.zip xs).lookup l = (index.zip ys).lookup l := by
  induction index generalizing xs ys with
  | nil => rfl
  | cons a index ih =>
    obtain ⟨x, xs, rfl⟩ := List.exists_cons_of_length_eq_add_one hx
    obtain ⟨y, ys, rfl⟩ := List.exists_cons_of_length_eq_add_one hy
    rw [List.zip_cons_cons, List.zip_cons_cons, List.lookup_cons, List.lookup_cons]
    by_cases hla : l = a
    · have hxy : some x = some y := h 0 a rfl (hla ▸ hl)
      rw [Option.some.inj hxy]
      rw [hla, beq_self_eq_true]
    · rw [beq_false_of_ne hla]
      exact ih (fun i l' hi => h (i + 1) l' hi) (Nat.succ.inj hx) (Nat.succ.inj hy)

omit [DecidableEq L] [NpFloat F] in
/-- Frames that agree on the labels of the first rows are the same there. -/
theorem FrameAgree.prefixEq {reads : String → Prop} {f g : Frame L F}
    (h : FrameAgree S reads f g) (hS : ∀ l ∈ f.index.take k, S l) : PrefixEq k reads f g where
  index := h.index
  columns name hr := optionRel_imp (h.columns name hr) fun c d hcd =>
    hcd.take_eq hS c.2 (d.2.trans (congrArg List.length h.index))

/-! ## The series of a factor -/

/-- A product's series, aligned to the traded product, where only some labels are the same. -/
theorem reindex_alike {s t : Series L F} {index : List L} (hidx : t.index = s.index)
    (h : AgreeOn S s.index s.values t.values) (hS : ∀ l ∈ index.take k, S l) :
    Alike strict (fun c d => c.1.take k = d.1.take k) (s.reindex index) (t.reindex index) := by
  have hlt : t.values.length = s.index.length := by rw [Series.length_values, hidx]
  by_cases hself : s.index = index
  · rw [Series.reindex_self hself, Series.reindex_self (hidx.trans hself)]
    exact .ok (h.take_eq (hself ▸ hS) s.length_values hlt)
  · rw [Series.reindex_of_ne hself, Series.reindex_of_ne (fun ht => hself (hidx.symm.trans ht)),
      hidx]
    split
    · refine .ok ?_
      rw [← List.map_take, ← List.map_take]
      refine List.map_congr_left fun l hl => ?_
      have hlook : s.rows.lookup l = t.rows.lookup l := by
        rw [Series.rows, Series.rows, hidx]
        exact h.lookup s.length_values hlt (hS l hl)
      rw [hlook]
    · exact .errors

omit [DecidableEq L] [NpFloat F] in
/-- Taken out as series, the columns keep the frames' common index and their agreement. -/
theorem FrameAgree.series {reads : String → Prop} {f g : Frame L F} (h : FrameAgree S reads f g)
    {name : String} (hr : reads name) :
    Alike strict (fun s t : Series L F => s.index = f.index ∧ t.index = f.index ∧
      AgreeOn S f.index s.values t.values) (f.series name) (g.series name) := by
  exact (column_alike (h.columns name hr)).bind fun c d hcd => .ok ⟨rfl, h.index, hcd.2⟩

/-- Two runs' frames of one strategy: the same strategy, and the traded product's
index. -/
structure SameTrade (ff ff' : FactorFrames L F) : Prop where
  /-- One strategy. -/
  config : ff'.config = ff.config
  /-- One index of the traded product, by which the others are aligned. -/
  index : ff'.main.index = ff.main.index

omit [NpFloat F] in
/-- Coverage looks at the two indexes only, so that it passes in both runs or in neither. -/
theorem SameTrade.checkCoverage {ff ff' : FactorFrames L F} (h : SameTrade ff ff')
    {f g : Frame L F} (hidx : g.index = f.index) (cusip : String) :
    ff'.checkCoverage g cusip = ff.checkCoverage f cusip := by
  rw [FactorFrames.checkCoverage, FactorFrames.checkCoverage, FactorFrames.requireCoverage,
    FactorFrames.requireCoverage, h.config, h.index, hidx]

/-- **A factor's series depends on its own product's column** and, up to a row, on the
rows of that column that carry the labels so far. -/
theorem factor_alike {ff ff' : FactorFrames L F} (h : SameTrade ff ff') {sub : SubStrategy F}
    {reads : String → Prop}
    (hall : Option.Rel (FrameAgree S reads)
      (ff.all.lookup (FactorFrames.subCusip ff.config sub))
      (ff'.all.lookup (FactorFrames.subCusip ff.config sub)))
    (hr : reads sub.dataColumn) (hS : ∀ l ∈ ff.main.index.take k, S l) :
    Alike strict (fun c d => c.1.take k = d.1.take k) (ff.factor sub) (ff'.factor sub) := by
  rw [FactorFrames.factor, FactorFrames.factor, h.config]
  refine (get_alike hall).bind fun f g hrel => ?_
  obtain ⟨_, hfg⟩ := hrel
  rw [h.checkCoverage hfg.index]
  refine (Alike.refl (R := fun _ _ => True) (fun _ => trivial) _).bind fun _ _ _ => ?_
  refine (hfg.series hr).bind fun s t hrel => ?_
  obtain ⟨hs, ht, hst⟩ := hrel
  rw [h.index]
  exact reindex_alike (ht.trans hs.symm) (hs ▸ hst) hS

/-! ## Positions -/

/-- One factor's columns in two runs, the same up to a row. -/
structure OutputEq (k n : ℕ) (out out' : FactorOutput F) : Prop where
  /-- The readings begin alike, over one length. -/
  indicator : ColumnEq k n out.indicator out'.indicator
  /-- So do the positions. -/
  position : ColumnEq k n out.position out'.position

/-- Positions follow from readings: where the readings begin alike, the same signal function and
threshold make positions that do. The factor's own series is not compared. -/
theorem OutputEq.of_indicator {n : ℕ} {xs ys : List F} (h : ColumnEq k n xs ys)
    (d : SignalDirection) (signal : F) (c c' : List F) :
    OutputEq k n ⟨c, xs, d.call xs signal⟩ ⟨c', ys, d.call ys signal⟩ where
  indicator := h
  position := ⟨by rw [SignalDirection.take_call, SignalDirection.take_call, h.take],
    by rw [SignalDirection.length_call, h.left], by rw [SignalDirection.length_call, h.right]⟩

omit [DecidableEq L] [NpFloat F] in
/-- Frames of one column each. -/
theorem prefixEq_single {name : String} {reads : String → Prop} {index index' : List L}
    (hidx : index' = index) {c : Column F index} {d : Column F index'}
    (h : c.1.take k = d.1.take k) :
    PrefixEq k reads (Frame.single name index c) (Frame.single name index' d) where
  index := hidx
  columns _ _ := lookup_single h

omit [DecidableEq L] [NpFloat F] in
theorem PrefixEq.hasColumn {reads : String → Prop} {f g : Frame L F} (h : PrefixEq k reads f g)
    {name : String} (hr : reads name) : g.hasColumn name = f.hasColumn name :=
  hasColumn_eq (h.columns name hr)

omit [DecidableEq L] [NpFloat F] in
/-- Both frames are accepted as they are, or both are refused for want of a `factor` column. -/
theorem PrefixEq.init {reads : String → Prop} {f g : Frame L F} (h : PrefixEq k reads f g)
    (hr : reads "factor") :
    Alike strict (fun a b => a = f ∧ b = g) (TechnicalAnalysis.init f)
      (TechnicalAnalysis.init g) := by
  rw [TechnicalAnalysis.init, TechnicalAnalysis.init, h.hasColumn hr]
  split
  · exact .ok ⟨rfl, rfl⟩
  · exact .errors

omit [DecidableEq L] [NpFloat F] in
/-- Reading fewer columns asks less of the two frames. -/
theorem PrefixEq.mono {reads reads' : String → Prop} {f g : Frame L F}
    (h : PrefixEq k reads f g) (hr : ∀ c, reads' c → reads c) : PrefixEq k reads' f g :=
  ⟨h.index, fun name hn => h.columns name (hr name hn)⟩

/-- The indicator and position that one factor's series gives. -/
theorem indicatorAndPosition_alike {sub : SubStrategy F} {index index' : List L}
    (hidx : index' = index) {c : Column F index} {d : Column F index'}
    (h : c.1.take k = d.1.take k) (hcut : Cut k index) (hs : strict → index.Nodup)
    (window : ℤ) (signal : F) :
    Alike strict (OutputEq k index.length)
      (Performance.indicatorAndPosition sub index c window signal)
      (Performance.indicatorAndPosition sub index' d window signal) := by
  have hf : PrefixEq k (fun _ => True) (Frame.single "factor" index c)
      (Frame.single "factor" index' d) := prefixEq_single hidx h
  refine (hf.init trivial).bind fun a b hrel => ?_
  obtain ⟨ha, hb⟩ := hrel
  rw [ha, hb]
  refine (TechnicalAnalysis.indicator_alike (hf.mono fun _ _ => trivial) window hcut hs).bind
    fun ind ind' hind => ?_
  refine (Alike.refl (fun _ => rfl) sub.resolveSignalFunc).bind fun func func' hfunc => ?_
  cases hfunc
  exact .ok (.of_indicator ⟨hind, ind.2, ind'.2.trans (congrArg List.length hidx)⟩ func signal _ _)

/-- Two runs' frames that agree up to a row of the traded product. -/
structure AgreeTo (k : ℕ) (ff ff' : FactorFrames L F) : Prop extends SameTrade ff ff' where
  /-- The traded product's frames begin alike, in every column. -/
  main : PrefixEq k (fun _ => True) ff.main ff'.main
  /-- Every product's frames agree on the labels of those rows. -/
  all : ∀ cusip, Option.Rel (FrameAgree (· ∈ ff.main.index.take k) fun _ => True)
    (ff.all.lookup cusip) (ff'.all.lookup cusip)

/-- A factor's series, aligned to the traded product, begins alike in both runs, or is refused by
both. -/
theorem AgreeTo.factor {ff ff' : FactorFrames L F} (h : AgreeTo k ff ff') (sub : SubStrategy F) :
    Alike strict (fun c d => c.1.take k = d.1.take k) (ff.factor sub) (ff'.factor sub) :=
  factor_alike h.toSameTrade (h.all _) trivial fun _ hl => hl

omit [DecidableEq L] [NpFloat F] in
/-- A column put in the same place of two frames. -/
theorem PrefixEq.set {reads : String → Prop} {f g : Frame L F} (h : PrefixEq k reads f g)
    (name : String) {c : Column F f.index} {d : Column F g.index}
    (hcd : c.1.take k = d.1.take k) :
    PrefixEq k (fun col => reads col ∨ col = name) (f.set name c) (g.set name d) where
  index := h.index
  columns col hr := lookup_set hcd fun hne => h.columns col (hr.resolve_right hne)

/-- The frame of a single factor, which is the traded product's with a column put in, begins alike
in every column. -/
theorem AgreeTo.singleFactorFrame {ff ff' : FactorFrames L F} (h : AgreeTo k ff ff') :
    Alike strict (fun f g => f.index = ff.main.index ∧ PrefixEq k (fun _ => True) f g)
      ff.singleFactorFrame ff'.singleFactorFrame := by
  rw [FactorFrames.singleFactorFrame, FactorFrames.singleFactorFrame, h.config]
  refine (Alike.refl (fun _ => rfl) _).bind fun sub sub' hsub => ?_
  cases hsub
  rw [h.main.hasColumn trivial]
  dsimp only
  split
  · exact (h.factor sub).bind fun c d hcd =>
      .ok ⟨rfl, (h.main.set "factor" hcd).mono fun _ _ => .inl trivial⟩
  · exact .ok ⟨rfl, h.main⟩

/-! ## Runs

The engines of the two runs differ in their frames alone. -/

/-- The engine on other frames. -/
def Performance.withFrames (p : Performance L F) (ff : FactorFrames L F) : Performance L F :=
  { p with frames := ff }

section

variable {p : Performance L F} {ff : FactorFrames L F}

/-- A strategy of one factor reads its indicator off that frame. -/
theorem singleFactorOutputs_alike (h : AgreeTo k p.frames ff)
    (hcut : Cut k p.frames.main.index) (hs : strict → p.frames.main.index.Nodup) :
    Alike strict (OutputEq k p.frames.main.index.length) p.singleFactorOutputs
      (p.withFrames ff).singleFactorOutputs := by
  refine h.singleFactorFrame.bind fun f g hrel => ?_
  obtain ⟨hf, hfg⟩ := hrel
  refine (hfg.init trivial).bind fun a b hrel => ?_
  obtain ⟨ha, hb⟩ := hrel
  rw [ha, hb]
  refine (hfg.column trivial).bind fun c d _ => ?_
  refine (Alike.refl (fun _ => rfl) (item p.windows 0)).bind fun w w' hw => ?_
  cases hw
  rw [← hf] at hcut hs ⊢
  refine (TechnicalAnalysis.indicator_alike (hfg.mono fun _ _ => trivial) w hcut hs).bind
    fun ind ind' hind => ?_
  refine (Alike.refl (fun _ => rfl) (item p.signals 0)).bind fun s s' hs => ?_
  cases hs
  exact .ok (.of_indicator ⟨hind, ind.2, ind'.2.trans (congrArg List.length hfg.index)⟩ _ s _ _)

/-- One factor among several reads it off its own series. -/
theorem factorOutput_alike (h : AgreeTo k p.frames ff) (hcut : Cut k p.frames.main.index)
    (hs : strict → p.frames.main.index.Nodup) (i : ℕ) (sub : SubStrategy F) :
    Alike strict (OutputEq k p.frames.main.index.length) (p.factorOutput i sub)
      ((p.withFrames ff).factorOutput i sub) := by
  refine (h.factor sub).bind fun c d hcd => ?_
  refine (Alike.refl (fun _ => rfl) (item p.windows i)).bind fun w w' hw => ?_
  refine (Alike.refl (fun _ => rfl) (item p.signals i)).bind fun s s' hsig => ?_
  cases hw
  cases hsig
  exact indicatorAndPosition_alike h.index hcd hcut hs w s

/-- **Several factors.** What is combined begins alike, and so does the combination, conviction
included: it ranks a reading among those up to the row. -/
theorem multiFactorOutputs_alike (h : AgreeTo k p.frames ff)
    (hcut : Cut k p.frames.main.index) (hs : strict → p.frames.main.index.Nodup) :
    Alike strict (fun r r' => RowsEq k r.2 r'.2) p.multiFactorOutputs
      (p.withFrames ff).multiFactorOutputs := by
  refine (h.main.init trivial).bind fun _ _ _ => ?_
  have hloop : Alike strict (List.Forall₂ (OutputEq k p.frames.main.index.length))
      (p.subs.zipIdx.mapM fun s => p.factorOutput s.2 s.1)
      (p.subs.zipIdx.mapM fun s => (p.withFrames ff).factorOutput s.2 s.1) :=
    Alike.mapM (P := Eq) (List.forall₂_same.mpr fun _ _ => rfl) fun s s' hss => by
      cases hss
      exact factorOutput_alike h hcut hs s.2 s.1
  refine hloop.bind fun outs outs' houts => ?_
  refine (combinePositions_alike p.config.conjunction (n := p.frames.main.index.length)
    ?_ ?_).bind fun r r' hr => .ok hr
  · exact List.forall₂_map_left_iff.mpr
      (List.forall₂_map_right_iff.mpr (houts.imp fun _ _ h => h.position))
  · exact List.forall₂_map_left_iff.mpr
      (List.forall₂_map_right_iff.mpr (houts.imp fun _ _ h => h.indicator))

/-- The two cases together, by how many factors the strategy has. -/
theorem factorOutputs_alike (h : AgreeTo k p.frames ff)
    (hcut : Cut k p.frames.main.index) (hs : strict → p.frames.main.index.Nodup) :
    Alike strict (fun r r' => RowsEq k r.2 r'.2) p.factorOutputs
      (p.withFrames ff).factorOutputs := by
  show Alike strict _ (if p.isMulti then _ else _) (if p.isMulti then _ else _)
  split
  · exact multiFactorOutputs_alike h hcut hs
  · exact (singleFactorOutputs_alike h hcut hs).bind fun out out' hout =>
      .ok ⟨hout.position.take, hout.position.left.trans hout.position.right.symm⟩

/-- What two runs have in common up to a row. -/
structure EnrichedEq (k : ℕ) (e e' : Enriched F) : Prop where
  /-- The positions, all factors combined. -/
  finalPosition : e.finalPosition.take k = e'.finalPosition.take k
  /-- The positions entering each bar. -/
  finalPositionX1 : e.finalPositionX1.take k = e'.finalPositionX1.take k
  /-- The turnover. -/
  trade : e.trade.take k = e'.trade.take k
  /-- The returns. -/
  pnl : e.pnl.take k = e'.pnl.take k

/-- The returns up to a row are those of the positions and prices up to it. -/
theorem strategyPnl_alike {pos pos' chg chg' : List F} (hpos : RowsEq k pos pos')
    (hchg : chg.take k = chg'.take k) (cost : F) :
    Alike strict (fun r r' => r.1.take k = r'.1.take k ∧ r.2.1.take k = r'.2.1.take k ∧
      r.2.2.take k = r'.2.2.take k) (strategyPnl pos chg cost) (strategyPnl pos' chg' cost) := by
  have hnil : pos = [] ↔ pos' = [] := by
    rw [← List.length_eq_zero_iff, ← List.length_eq_zero_iff, hpos.length]
  rw [strategyPnl, strategyPnl]
  by_cases hp : pos = []
  · rw [if_pos hp, if_pos (hnil.mp hp)]
    exact .errors
  · rw [if_neg hp, if_neg (fun h => hp (hnil.mpr h))]
    refine .ok ⟨?_, ?_, ?_⟩
    · rw [take_shift, take_shift, hpos.take]
    · rw [List.take_zipWith, List.take_zipWith, take_shift, take_shift, hpos.take]
    · simp only [List.take_zipWith, take_shift, hpos.take, hchg]

/-- **The columns of a run begin alike**: positions by the lemmas above, returns because a bar's
return needs the prices of that bar and the one in front. -/
theorem enrichPerformance_alike (h : AgreeTo k p.frames ff)
    (hcut : Cut k p.frames.main.index) (hs : strict → p.frames.main.index.Nodup) :
    Alike strict (EnrichedEq k) p.enrichPerformance (p.withFrames ff).enrichPerformance := by
  refine (factorOutputs_alike h hcut hs).bind fun r r' hr => ?_
  refine (h.main.column trivial).bind fun price price' hprice => ?_
  have hpos : RowsEq k (r.2.map (Position.toFloat (F := F))) (r'.2.map Position.toFloat) :=
    ⟨by rw [← List.map_take, ← List.map_take, hr.take], by
      rw [List.length_map, List.length_map, hr.length]⟩
  have hchg : (pctChange price.1).take k = (pctChange price'.1).take k := by
    rw [take_pctChange, take_pctChange, hprice]
  exact (strategyPnl_alike hpos hchg p.transactionCost).bind fun q q' hq =>
    .ok ⟨hr.take, hq.1, hq.2.1, hq.2.2⟩

end

omit [DecidableEq L] in
/-- The engines of two runs have the parameters in common. -/
theorem init_alike {data data' : DataDict L F} {config : StrategyConfig F} {main main' : Frame L F}
    (hget : data.get config.internalCusip = .ok main)
    (hget' : data'.get config.internalCusip = .ok main') (window : Option (Arg ℤ))
    (signal : Option (Arg F)) (feeBps : Option F) (minMetricObs : ℤ) :
    Alike strict (fun p p' : Performance L F => p.frames = ⟨data, config, main⟩ ∧
        p.config = config ∧ p.subs = config.getSubstrategies ∧
        p' = p.withFrames ⟨data', config, main'⟩)
      (Performance.init data config window signal feeBps minMetricObs)
      (Performance.init data' config window signal feeBps minMetricObs) := by
  rw [Performance.init, Performance.init, FactorFrames.init, FactorFrames.init, hget, hget']
  refine (Alike.refl (fun _ => rfl) (Performance.params config.getSubstrategies window signal)).bind
    fun q q' hq => ?_
  obtain ⟨ws, ss⟩ := q
  cases hq
  refine (Alike.refl (fun _ => rfl) (pyMax ws)).bind fun m m' hm => ?_
  cases hm
  exact .ok ⟨rfl, rfl, rfl, rfl⟩

/-- `Performance(data, config, window, signal, ...).enrich_performance()`. -/
def enriched (data : DataDict L F) (config : StrategyConfig F) (window : Option (Arg ℤ))
    (signal : Option (Arg F)) (feeBps : Option F) (minMetricObs : ℤ) :
    Except PyError (Enriched F) := do
  let p ← Performance.init data config window signal feeBps minMetricObs
  p.enrichPerformance

/-- **No look-ahead.** Two dictionaries that agree on the labels of the first `k` rows
of the traded product give the same positions, turnover and returns in those rows.
Where labels do not repeat, the run is also refused for both or for none. -/
theorem enriched_up_to (data data' : DataDict L F) (config : StrategyConfig F)
    (window : Option (Arg ℤ)) (signal : Option (Arg F)) (feeBps : Option F) (minMetricObs : ℤ)
    (main : Frame L F) (k : ℕ) (hmain : data.lookup config.internalCusip = some main)
    (hcut : Cut k main.index) (hagree : DataAgree (· ∈ main.index.take k) data data') :
    (∀ e e', enriched data config window signal feeBps minMetricObs = .ok e →
      enriched data' config window signal feeBps minMetricObs = .ok e' → EnrichedEq k e e') ∧
    (main.index.Nodup →
      ((∃ e, enriched data config window signal feeBps minMetricObs = .ok e) ↔
        ∃ e', enriched data' config window signal feeBps minMetricObs = .ok e')) := by
  obtain ⟨main', hmain', hframes⟩ : ∃ main', data'.lookup config.internalCusip = some main' ∧
      FrameAgree (· ∈ main.index.take k) (fun _ => True) main main' := by
    have hrel := hagree config.internalCusip
    rw [hmain] at hrel
    cases hd : data'.lookup config.internalCusip with
    | none =>
      rw [hd] at hrel
      cases hrel
    | some main' =>
      rw [hd] at hrel
      cases hrel with
      | some h => exact ⟨main', rfl, h⟩
  have hget : data.get config.internalCusip = .ok main := by rw [DataDict.get, hmain]
  have hget' : data'.get config.internalCusip = .ok main' := by rw [DataDict.get, hmain']
  have hto : AgreeTo k ⟨data, config, main⟩ ⟨data', config, main'⟩ :=
    { config := rfl, index := hframes.index, main := hframes.prefixEq fun _ hl => hl,
      all := hagree }
  have halike : Alike main.index.Nodup (EnrichedEq k)
      (enriched data config window signal feeBps minMetricObs)
      (enriched data' config window signal feeBps minMetricObs) := by
    refine (init_alike hget hget' window signal feeBps minMetricObs).bind
      fun p p' hrel => ?_
    obtain ⟨hp, _, _, hp'⟩ := hrel
    rw [hp']
    exact enrichPerformance_alike (hp ▸ hto) (hp ▸ hcut) (hp ▸ id)
  refine ⟨fun e e' he he' => ?_, fun hnd => halike.isOk_iff hnd⟩
  rw [he, he'] at halike
  exact halike.related

namespace LookAhead

/-- Closes with a gap, and a last one. -/
def closes (last : ExtRat) : Frame ℕ ExtRat :=
  ⟨[1, 2, 3, 4], [("price", ⟨[.fin 100, .nan, .fin 101, last], rfl⟩),
    ("factor", ⟨[.fin 100, .nan, .fin 101, last], rfl⟩)]⟩

/-- Relative strength of the price. -/
def strength : StrategyConfig ExtRat where
  internalCusip := "btcusdt.crypto"
  indicatorName := "get_rsi"
  signalFunc := .momentumBoundedSignal
  tradingPeriod := 365

end LookAhead

/-- Relative strength, on prices with a gap. The last price differs between the two runs, the
first three rows are the same. -/
theorem strength_enriched_up_to :
    (∀ e e', enriched [("btcusdt.crypto", LookAhead.closes (.fin 102))] LookAhead.strength
        (some (.one 1)) (some (.one (.fin 60))) none 0 = .ok e →
      enriched [("btcusdt.crypto", LookAhead.closes (.fin 90))] LookAhead.strength
        (some (.one 1)) (some (.one (.fin 60))) none 0 = .ok e' → EnrichedEq 3 e e') ∧
    ((LookAhead.closes (.fin 102)).index.Nodup →
      ((∃ e, enriched [("btcusdt.crypto", LookAhead.closes (.fin 102))] LookAhead.strength
          (some (.one 1)) (some (.one (.fin 60))) none 0 = .ok e) ↔
        ∃ e', enriched [("btcusdt.crypto", LookAhead.closes (.fin 90))] LookAhead.strength
          (some (.one 1)) (some (.one (.fin 60))) none 0 = .ok e')) := by
  refine enriched_up_to _ _ LookAhead.strength _ _ _ _ (LookAhead.closes (.fin 102)) 3 rfl
    (Cut.of_nodup (by decide) 3) fun cusip => ?_
  have hprices : AgreeOn (· ∈ [1, 2, 3]) [1, 2, 3, 4]
      [ExtRat.fin 100, .nan, .fin 101, .fin 102] [.fin 100, .nan, .fin 101, .fin 90] := by
    intro i l hi hl
    match i with
    | 0 | 1 | 2 => rfl
    | 3 =>
      cases hi
      revert hl
      decide
    | i + 4 => cases hi
  rw [List.lookup_cons, List.lookup_cons]
  cases cusip == "btcusdt.crypto" with
  | false => exact .none
  | true =>
    refine .some ⟨rfl, fun name _ => ?_⟩
    simp only [LookAhead.closes, List.lookup_cons]
    cases name == "price" with
    | true => exact .some (by exact hprices)
    | false =>
      cases name == "factor" with
      | true => exact .some (by exact hprices)
      | false => exact .none
