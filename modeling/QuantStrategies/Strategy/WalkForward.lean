import QuantStrategies.Strategy.Head

/-!
# Walk-forward tests

A walk-forward test looks for parameters on the first part of a history, and tries
them on the rest. It cuts every frame at the same row, the one at which the traded
product is to be split, and each part is then aligned by date again.

## Which frames are cut at one date

The row is at the split date in the traded product alone. In another product it is
at the date that the calendars of the two make it: a product with more bars is cut
before the split date, and one with fewer of them after. What is on the wrong side
is missed where the part is aligned, unless it is on a date that the traded product
does not have, or has no value (`CutsInStep`).

The statement is an equivalence. A split at one date is what a reader of the two parts
assumes: the same bars as before and after the date, each factor aligned to them as on the
whole history, the in-sample run with the first rows of the full one, and nothing in-sample
from past the date. `CutsInStep` is the condition on the frames, date by date, under which
the cut at one row is such a split.
-/

open Pandas NpFloat TwoRuns

variable {L F : Type}

/-! ## The test -/

/-- Each frame cut at one row: `df.iloc[:k]`, and `df.iloc[k:]`. -/
def DataDict.iloc (h : Half) (k : ℕ) (data : DataDict L F) : DataDict L F :=
  data.map fun e => (e.1, e.2.iloc h k)

/-- `WalkForward`, as its constructor leaves it: no part is empty. -/
structure WalkForward (L F : Type) where
  /-- The frames of all products, before the cut. -/
  allData : DataDict L F
  /-- The traded product's frame, which fixes the row. -/
  data : Frame L F
  /-- Which part of the bars comes before the cut. -/
  splitRatio : F
  /-- The strategy under test. -/
  config : StrategyConfig F
  /-- The fee, for the runs. -/
  feeBps : Option F
  /-- How many returns a ratio needs at least. -/
  minMetricObs : ℤ
  /-- The row of the cut, in every frame. -/
  splitIdx : ℕ
  /-- The traded product's frame is among the others. -/
  data_eq : allData.get config.internalCusip = .ok data
  /-- At least two bars are in-sample. -/
  two_le : 2 ≤ splitIdx
  /-- At least two bars are out-of-sample. -/
  lt_last : splitIdx < data.index.length - 1

namespace WalkForward

/-- `WalkForward(data, split_ratio, config, fee_bps=, min_metric_obs=)`. What `int`
and `str` make of a number is left open. -/
def init [NpFloat F] (int : F → ℤ) (str : F → String) (data : DataDict L F) (splitRatio : F)
    (config : StrategyConfig F) (feeBps : Option F) (minMetricObs : ℤ) :
    Except PyError (WalkForward L F) :=
  if ¬ (lt 0 splitRatio && lt splitRatio 1) then
    .error (.valueError s!"split_ratio must be between 0 and 1, got {str splitRatio}")
  else
    match hmain : data.get config.internalCusip with
    | .error e => .error e
    | .ok main =>
      let length := main.index.length
      let splitIdx := int (lit (length : ℚ) * splitRatio)
      if h : splitIdx < 2 ∨ (length : ℤ) - 1 ≤ splitIdx then
        .error (.valueError (s!"Split produces empty partition: split_idx={splitIdx}, " ++
          s!"data length={length}"))
      else .ok ⟨data, main, splitRatio, config, feeBps, minMetricObs, splitIdx.toNat, hmain,
        by omega, by omega⟩

/-- `is_data_dict`. -/
def isDataDict (wf : WalkForward L F) : DataDict L F := wf.allData.iloc .head wf.splitIdx

/-- `oos_data_dict`. -/
def oosDataDict (wf : WalkForward L F) : DataDict L F := wf.allData.iloc .tail wf.splitIdx

/-- What a test computes: the parameters, and the columns that each part and the whole
have under them. -/
structure Run (F : Type) where
  /-- The window found in-sample. -/
  bestWindow : Arg ℤ
  /-- The threshold found with it. -/
  bestSignal : Arg F
  /-- The columns on the bars before the cut. -/
  inSample : Enriched F
  /-- The columns on the bars from the cut on, computed on those alone. -/
  outOfSample : Enriched F
  /-- The columns on all bars. -/
  full : Enriched F

/-- `run`, with the search for parameters as an argument. -/
def run [DecidableEq L] [NpFloat F] (wf : WalkForward L F)
    (search : DataDict L F → Except PyError (Arg ℤ × Arg F)) : Except PyError (Run F) := do
  let (bestWindow, bestSignal) ← search wf.isDataDict
  let evaluate (data : DataDict L F) :=
    enriched data wf.config (some bestWindow) (some bestSignal) wf.feeBps wf.minMetricObs
  let inSample ← evaluate wf.isDataDict
  let outOfSample ← evaluate wf.oosDataDict
  let full ← evaluate wf.allData
  return ⟨bestWindow, bestSignal, inSample, outOfSample, full⟩

/-! ## The two parts -/

/-- The series that a strategy reads on the whole history. -/
def frames (wf : WalkForward L F) : FactorFrames L F := ⟨wf.allData, wf.config, wf.data⟩

/-- The series that it reads on one part. -/
def part (wf : WalkForward L F) (h : Half) : FactorFrames L F :=
  ⟨wf.allData.iloc h wf.splitIdx, wf.config, wf.data.iloc h wf.splitIdx⟩

/-- The row of the cut is one of the traded product's, so that it has a date. -/
theorem splitIdx_lt (wf : WalkForward L F) : wf.splitIdx < wf.data.index.length :=
  lt_of_lt_of_le wf.lt_last (Nat.sub_le _ 1)

/-- The first date of the out-of-sample part. -/
def splitDate (wf : WalkForward L F) : L := wf.data.index.get ⟨wf.splitIdx, wf.splitIdx_lt⟩

end WalkForward

/-- The dates of a half: those before a date, and those from it on. -/
def Pandas.Half.keeps [LinearOrder L] (h : Half) (date l : L) : Bool :=
  match h with
  | .head => l < date
  | .tail => date ≤ l

/-- What a factor is aligned from: the column of a product that covers the traded one. -/
structure FactorFrames.Source [DecidableEq L] (ff : FactorFrames L F) (sub : SubStrategy F)
    (f : Frame L F) (c : Column F f.index) : Prop where
  /-- The product that the factor names has a frame. -/
  frame : ff.all.lookup (subCusip ff.config sub) = some f
  /-- With the column that the factor reads. -/
  column : f.columns.lookup sub.dataColumn = some c
  /-- Of another product than the traded one, it has enough of its dates. -/
  covers : subCusip ff.config sub ≠ ff.config.internalCusip →
    minCoverage ≤ coverage ff.main.index f.index
  /-- It is over the traded product's dates, or repeats none. -/
  labels : f.index = ff.main.index ∨ f.index.Nodup

namespace WalkForward

variable [LinearOrder L] [NpFloat F]

/-- **A split at one date.** Each part has what the whole history has before the date,
or from it on. -/
structure SplitsAtDate (wf : WalkForward L F) : Prop where
  /-- The bars of the traded product. -/
  bars : ∀ h, (wf.part h).main.index = wf.data.index.filter (h.keeps wf.splitDate)
  /-- Each factor, aligned to them. -/
  aligned : ∀ h, ∀ sub ∈ wf.config.getSubstrategies, ∀ c, wf.frames.factor sub = .ok c →
    ∃ c', (wf.part h).factor sub = .ok c' ∧ (⟨(wf.part h).main.index, c'⟩ : Series L F) =
      (⟨wf.data.index, c⟩ : Series L F).restrict (h.keeps wf.splitDate)
  /-- The positions and returns of the in-sample part, under any parameters. -/
  firstBars : ∀ window signal, Follows (EnrichedHead wf.splitIdx)
    (enriched wf.allData wf.config (some window) (some signal) wf.feeBps wf.minMetricObs)
    (enriched wf.isDataDict wf.config (some window) (some signal) wf.feeBps wf.minMetricObs)
  /-- No factor of the in-sample part is from past the date. -/
  notPast : ∀ sub ∈ wf.config.getSubstrategies, ∀ f,
    wf.isDataDict.lookup (FactorFrames.subCusip wf.config sub) = some f →
      ∀ l ∈ f.index, l ≤ wf.splitDate

/-- The traded product's dates are in order around the cut. -/
def InOrder (wf : WalkForward L F) : Prop :=
  (∀ l ∈ wf.data.index.take wf.splitIdx, l < wf.splitDate) ∧
    ∀ l ∈ wf.data.index.drop wf.splitIdx, wf.splitDate ≤ l

/-- What a part has of another product covers what it has of the traded one. -/
def PartCovers (wf : WalkForward L F) (h : Half) (sub : SubStrategy F) (f : Frame L F) : Prop :=
  FactorFrames.subCusip wf.config sub ≠ wf.config.internalCusip →
    FactorFrames.minCoverage ≤ FactorFrames.coverage (h.rows wf.splitIdx wf.data.index)
      (h.rows wf.splitIdx f.index)

/-- A cut at one row that no factor can tell from one at the split date. -/
structure CutsInStep (wf : WalkForward L F) : Prop where
  /-- The traded product's dates are in order around the cut. -/
  inOrder : wf.InOrder
  /-- The product of a factor has rows enough up to the date. -/
  enough : ∀ sub ∈ wf.config.getSubstrategies, ∀ f,
    wf.allData.lookup (FactorFrames.subCusip wf.config sub) = some f →
      ∀ l ∈ f.index.take wf.splitIdx, l ≤ wf.splitDate
  /-- The values of a factor on the traded product's dates are on the side of the cut
  that their dates are on. -/
  sides : ∀ sub ∈ wf.config.getSubstrategies, ∀ f d, wf.frames.Source sub f d →
    ∀ i l x, f.index[i]? = some l → d.1[i]? = some x → x ≠ nan → l ∈ wf.data.index →
      (l < wf.splitDate ↔ i < wf.splitIdx)
  /-- On each side of the cut, a factor still covers the traded product. -/
  covers : ∀ sub ∈ wf.config.getSubstrategies, ∀ f d, wf.frames.Source sub f d →
    ∀ h, wf.PartCovers h sub f

end WalkForward

/-! ## What a factor is on a part -/

/-- Cutting a dictionary cuts the frame of every product, and no product is lost. -/
theorem DataDict.lookup_iloc {h : Half} {k : ℕ} (data : DataDict L F) (cusip : String) :
    (data.iloc h k).lookup cusip = (data.lookup cusip).map (·.iloc h k) :=
  lookup_map_snd _ data cusip

/-- So a product that can be got is got from each part, cut. -/
theorem DataDict.get_iloc {h : Half} {k : ℕ} {data : DataDict L F} {cusip : String} {f : Frame L F}
    (hf : data.get cusip = .ok f) : (data.iloc h k).get cusip = .ok (f.iloc h k) := by
  rw [DataDict.get_eq_ok] at hf ⊢
  rw [DataDict.lookup_iloc, hf, Option.map_some]

/-- A factor is a column of the product that it names, put onto the traded one's index. -/
theorem FactorFrames.factor_eq_ok [DecidableEq L] [NpFloat F] {ff : FactorFrames L F}
    {sub : SubStrategy F} {c : Column F ff.main.index} :
    ff.factor sub = .ok c ↔ ∃ f d, ff.Source sub f d ∧
      (⟨f.index, d⟩ : Series L F).reindex ff.main.index = .ok c := by
  rw [factor]
  simp only [Result.bind_eq_ok, DataDict.get_eq_ok, checkCoverage_eq_ok, Frame.series,
    Frame.column_eq_ok]
  constructor
  · rintro ⟨f, hf, -, hcovers, s, ⟨d, hd, hs⟩, hc⟩
    cases hs
    exact ⟨f, d, ⟨hf, hd, hcovers, Series.labels_of_reindex hc⟩, hc⟩
  · rintro ⟨f, d, hsource, hc⟩
    exact ⟨f, hsource.frame, (), hsource.covers, _, ⟨d, hsource.column, rfl⟩, hc⟩

namespace WalkForward

variable [LinearOrder L] [NpFloat F] {wf : WalkForward L F} {h : Half} {sub : SubStrategy F}
  {f : Frame L F} {d : Column F f.index}

/-- The values of a factor are on the side of the cut that the half's bars are on. -/
def OnSide (wf : WalkForward L F) (h : Half) (f : Frame L F) (d : Column F f.index) : Prop :=
  ∀ i l x, f.index[i]? = some l → d.1[i]? = some x → x ≠ nan →
    l ∈ h.rows wf.splitIdx wf.data.index → h.Has wf.splitIdx i

/-- On a part, a factor is the same column of what the part has of its product. -/
theorem part_factor_eq_ok (hsource : wf.frames.Source sub f d)
    {c : Column F (wf.part h).main.index} :
    (wf.part h).factor sub = .ok c ↔ wf.PartCovers h sub f ∧
      (Series.iloc h wf.splitIdx ⟨f.index, d⟩).reindex (h.rows wf.splitIdx wf.data.index)
        = .ok c := by
  have hframe : (wf.part h).all.lookup (FactorFrames.subCusip (wf.part h).config sub)
      = some (f.iloc h wf.splitIdx) := by
    have hlook : wf.allData.lookup (FactorFrames.subCusip wf.config sub) = some f := hsource.frame
    show (wf.allData.iloc h wf.splitIdx).lookup (FactorFrames.subCusip wf.config sub) = _
    rw [DataDict.lookup_iloc, hlook, Option.map_some]
  have hcolumn : (f.iloc h wf.splitIdx).columns.lookup sub.dataColumn
      = some (h.column wf.splitIdx d) := by
    rw [Frame.lookup_iloc, hsource.column]
    rfl
  rw [FactorFrames.factor_eq_ok]
  constructor
  · rintro ⟨f', d', hpart, hc⟩
    cases hframe.symm.trans hpart.frame
    cases hcolumn.symm.trans hpart.column
    exact ⟨hpart.covers, hc⟩
  · rintro ⟨hcovers, hc⟩
    exact ⟨_, _, ⟨hframe, hcolumn, hcovers, Series.labels_of_reindex hc⟩, hc⟩

/-- **A factor on a part** is the half of what it is on the whole history, exactly when
what the part has of its product is enough. -/
theorem part_factor_iff (hsource : wf.frames.Source sub f d) (hcut : Cut wf.splitIdx wf.data.index)
    {c : Column F wf.data.index}
    (hc : (⟨f.index, d⟩ : Series L F).reindex wf.data.index = .ok c) :
    (∃ c', (wf.part h).factor sub = .ok c' ∧ c' = h.column wf.splitIdx c) ↔
      wf.PartCovers h sub f ∧ wf.OnSide h f d := by
  have hrows : (∃ c', (Series.iloc h wf.splitIdx ⟨f.index, d⟩).reindex
      (h.rows wf.splitIdx wf.data.index) = .ok c' ∧ c' = h.column wf.splitIdx c) ↔
      wf.OnSide h f d := Series.reindex_iloc_iff hc hcut
  rw [← hrows, ← exists_and_left]
  exact exists_congr fun c' => (and_congr_left' (part_factor_eq_ok hsource)).trans and_assoc

/-! ## Bars in order around the cut -/

omit [NpFloat F] in
/-- Dates in order around the cut do not come up on both sides of it. -/
theorem InOrder.cut (h : wf.InOrder) : Cut wf.splitIdx wf.data.index :=
  fun l hl hl' => absurd (h.1 l hl) (not_lt.mpr (h.2 l hl'))

omit [NpFloat F] in
/-- The date of a bar tells on which side of the cut it is. -/
theorem InOrder.keeps_iff (horder : wf.InOrder) {i : ℕ} {l : L}
    (hl : wf.data.index[i]? = some l) :
    h.keeps wf.splitDate l = true ↔ h.Has wf.splitIdx i := by
  have hhead : l < wf.splitDate ↔ i < wf.splitIdx := by
    constructor
    · intro hlt
      by_contra hge
      have hmem : l ∈ Half.tail.rows wf.splitIdx wf.data.index :=
        Half.mem_rows.mpr ⟨i, Nat.not_lt.mp hge, hl⟩
      exact absurd hlt (not_lt.mpr (horder.2 l hmem))
    · intro hlt
      exact horder.1 l (Half.mem_rows (h := .head).mpr ⟨i, hlt, hl⟩)
  cases h with
  | head => exact decide_eq_true_iff.trans hhead
  | tail => exact decide_eq_true_iff.trans (not_lt.symm.trans (hhead.not.trans Nat.not_lt))

omit [NpFloat F] in
/-- The parts have the bars before the date and from it on exactly when they are in
that order. -/
theorem inOrder_iff : wf.InOrder ↔
    ∀ h, (wf.part h).main.index = wf.data.index.filter (h.keeps wf.splitDate) := by
  constructor
  · exact fun horder h => (Half.filter_eq_rows fun i l hl => horder.keeps_iff hl).symm
  · intro hbars
    have hhead : wf.data.index.take wf.splitIdx = wf.data.index.filter _ := hbars .head
    have htail : wf.data.index.drop wf.splitIdx = wf.data.index.filter _ := hbars .tail
    refine ⟨fun l hl => ?_, fun l hl => ?_⟩
    · rw [hhead] at hl
      exact of_decide_eq_true (List.mem_filter.mp hl).2
    · rw [htail] at hl
      exact of_decide_eq_true (List.mem_filter.mp hl).2

omit [NpFloat F] in
/-- A date of the traded product is in a part exactly when it is on that side of the split date.
-/
theorem InOrder.mem_rows_iff (horder : wf.InOrder) {l : L} (hl : l ∈ wf.data.index) :
    l ∈ h.rows wf.splitIdx wf.data.index ↔ h.keeps wf.splitDate l = true := by
  obtain ⟨i, hi⟩ := List.mem_iff_getElem?.mp hl
  refine ⟨fun hmem => ?_, fun hkeep => ?_⟩
  · obtain ⟨j, hj, hlj⟩ := Half.mem_rows.mp hmem
    exact (horder.keeps_iff hlj).mpr hj
  · exact Half.mem_rows.mpr ⟨i, (horder.keeps_iff hi).mp hkeep, hi⟩

omit [NpFloat F] in
/-- A half of a series is what a test of the date leaves of it. -/
theorem InOrder.restrict_eq (horder : wf.InOrder) (c : Column F wf.data.index) :
    (⟨wf.data.index, c⟩ : Series L F).restrict (h.keeps wf.splitDate)
      = ⟨(wf.part h).main.index, h.column wf.splitIdx c⟩ :=
  (Series.iloc_eq_restrict fun _ _ hl => horder.keeps_iff hl).symm

/-- With the bars in order, a value is on the right side of both halves when the cut and
the date agree on it. -/
theorem InOrder.onSide_iff (horder : wf.InOrder) : (∀ h, wf.OnSide h f d) ↔
    ∀ i l x, f.index[i]? = some l → d.1[i]? = some x → x ≠ nan → l ∈ wf.data.index →
      (l < wf.splitDate ↔ i < wf.splitIdx) := by
  constructor
  · intro hside i l x hl hx hne hmem
    constructor
    · exact fun hlt => hside .head i l x hl hx hne
        ((horder.mem_rows_iff hmem).mpr (decide_eq_true hlt))
    · intro hlt
      by_contra hge
      have hhas : wf.splitIdx ≤ i := hside .tail i l x hl hx hne
        ((horder.mem_rows_iff hmem).mpr (decide_eq_true (not_lt.mp hge)))
      exact absurd hlt (Nat.not_lt.mpr hhas)
  · intro hsides h i l x hl hx hne hmem
    have hin : l ∈ wf.data.index := (Half.rows_sublist _).subset hmem
    have hkeep := (horder.mem_rows_iff hin).mp hmem
    have hiff := hsides i l x hl hx hne hin
    cases h with
    | head => exact hiff.mp (of_decide_eq_true hkeep)
    | tail => exact Nat.not_lt.mp (hiff.not.mp (not_lt.mpr (of_decide_eq_true hkeep)))

/-! ## Splits at one date -/

/-- A factor aligned on a part is the whole history's, restricted by date. -/
theorem InOrder.aligned_iff (horder : wf.InOrder) (hsource : wf.frames.Source sub f d)
    {c : Column F wf.data.index}
    (hc : (⟨f.index, d⟩ : Series L F).reindex wf.data.index = .ok c) :
    (∃ c', (wf.part h).factor sub = .ok c' ∧ (⟨(wf.part h).main.index, c'⟩ : Series L F) =
      (⟨wf.data.index, c⟩ : Series L F).restrict (h.keeps wf.splitDate)) ↔
        wf.PartCovers h sub f ∧ wf.OnSide h f d := by
  rw [horder.restrict_eq, ← part_factor_iff hsource horder.cut hc]
  exact exists_congr fun c' => and_congr_right fun _ => Series.mk_inj

/-- Where the frames are cut in step, the strategy on the first bars has the first rows
of what it has on all of them. -/
theorem CutsInStep.engineHead (hcut : wf.CutsInStep) :
    EngineHead wf.splitIdx wf.frames (wf.part .head) where
  config := rfl
  main := headOf_iloc wf.splitIdx wf.data
  factor sub hsub c hc := by
    obtain ⟨f, d, hsource, hre⟩ := FactorFrames.factor_eq_ok.mp hc
    have hside := hcut.inOrder.onSide_iff.mpr (hcut.sides sub hsub f d hsource)
    obtain ⟨c', hc', heq⟩ := (part_factor_iff hsource hcut.inOrder.cut hre).mpr
      ⟨hcut.covers sub hsub f d hsource .head, hside .head⟩
    exact ⟨c', hc', congrArg Subtype.val heq⟩

/-- **The exact condition.** A test splits the history at one date exactly when every
frame it reads is cut in step with that date. -/
theorem splitsAtDate_iff (wf : WalkForward L F) : wf.SplitsAtDate ↔ wf.CutsInStep := by
  constructor
  · intro h
    have horder : wf.InOrder := inOrder_iff.mpr h.bars
    -- each half of a factor is there, so that its values are on their side and cover it
    have hparts : ∀ sub ∈ wf.config.getSubstrategies, ∀ f d, wf.frames.Source sub f d →
        ∀ h, wf.PartCovers h sub f ∧ wf.OnSide h f d := by
      intro sub hsub f d hsource half
      obtain ⟨c, hc⟩ := Series.exists_reindex (s := ⟨f.index, d⟩) hsource.labels
      exact (horder.aligned_iff hsource hc).mp
        (h.aligned half sub hsub c (FactorFrames.factor_eq_ok.mpr ⟨f, d, hsource, hc⟩))
    refine ⟨horder, fun sub hsub f hf l hl => ?_, fun sub hsub f d hsource => ?_,
      fun sub hsub f d hsource half => (hparts sub hsub f d hsource half).1⟩
    · refine h.notPast sub hsub (f.iloc .head wf.splitIdx) ?_ l hl
      rw [isDataDict, DataDict.lookup_iloc, hf, Option.map_some]
    · exact horder.onSide_iff.mp fun half => (hparts sub hsub f d hsource half).2
  · intro h
    refine ⟨inOrder_iff.mp h.inOrder, fun half sub hsub c hc => ?_, fun window signal => ?_,
      fun sub hsub f hf l hl => ?_⟩
    · obtain ⟨f, d, hsource, hre⟩ := FactorFrames.factor_eq_ok.mp hc
      exact (h.inOrder.aligned_iff hsource hre).mpr ⟨h.covers sub hsub f d hsource half,
        h.inOrder.onSide_iff.mpr (h.sides sub hsub f d hsource) half⟩
    · exact enriched_head wf.data_eq (DataDict.get_iloc wf.data_eq) h.engineHead h.inOrder.cut
        (Nat.lt_of_lt_of_le Nat.two_pos wf.two_le) _ _ _ _
    · rw [isDataDict, DataDict.lookup_iloc] at hf
      obtain ⟨g, hg, rfl⟩ := Option.map_eq_some_iff.mp hf
      exact h.enough sub hsub g hg l hl

/-- Frames over the traded product's own dates are cut in step with any of them. -/
theorem CutsInStep.of_index (hsorted : wf.data.index.Pairwise (· < ·))
    (hshared : ∀ sub ∈ wf.config.getSubstrategies, ∀ f,
      wf.allData.lookup (FactorFrames.subCusip wf.config sub) = some f →
        f.index = wf.data.index) : wf.CutsInStep := by
  have hsplit : wf.data.index.drop wf.splitIdx
      = wf.splitDate :: wf.data.index.drop (wf.splitIdx + 1) :=
    List.drop_eq_getElem_cons wf.splitIdx_lt
  have horder : wf.InOrder := by
    rw [← List.take_append_drop wf.splitIdx wf.data.index, hsplit] at hsorted
    obtain ⟨-, hrest, hacross⟩ := List.pairwise_append.mp hsorted
    refine ⟨fun l hl => hacross l hl _ List.mem_cons_self, fun l hl => ?_⟩
    rw [hsplit] at hl
    obtain rfl | hl := List.mem_cons.mp hl
    · exact le_refl _
    · exact (List.rel_of_pairwise_cons hrest hl).le
  refine ⟨horder, fun sub hsub f hf l hl => ?_, fun sub hsub f d hsource i l x hl _ _ _ => ?_,
    fun sub hsub f d hsource half _ => ?_⟩
  · rw [hshared sub hsub f hf] at hl
    exact (horder.1 l hl).le
  · rw [hshared sub hsub f hsource.frame] at hl
    exact decide_eq_true_iff.symm.trans (horder.keeps_iff (h := .head) hl)
  · rw [hshared sub hsub f hsource.frame]
    exact FactorFrames.coverage_self _

/-- The in-sample part of a test has the first rows of its full-period columns. -/
theorem CutsInStep.run_head (hcut : wf.CutsInStep)
    {search : DataDict L F → Except PyError (Arg ℤ × Arg F)} {r : Run F}
    (hr : wf.run search = .ok r) : EnrichedHead wf.splitIdx r.full r.inSample := by
  obtain ⟨best, -, hr⟩ := Result.bind_eq_ok.mp hr
  obtain ⟨inSample, hin, hr⟩ := Result.bind_eq_ok.mp hr
  obtain ⟨outOfSample, -, hr⟩ := Result.bind_eq_ok.mp hr
  obtain ⟨full, hfull, hr⟩ := Result.bind_eq_ok.mp hr
  cases hr
  obtain ⟨e, he, hhead⟩ := enriched_head wf.data_eq (DataDict.get_iloc wf.data_eq) hcut.engineHead
    hcut.inOrder.cut (Nat.lt_of_lt_of_le Nat.two_pos wf.two_le) _ _ _ _ full hfull
  cases he.symm.trans hin
  exact hhead

/-- `int(x)` of an exact number. -/
def toInt : ExtRat → ℤ
  | .fin q => q.num.tdiv q.den
  | _ => 0

/-- Ten bars of a product, one on each second day, and eleven of another one, which has
a bar on day 5 as well. -/
def weekends : DataDict ℕ ExtRat :=
  [("spy.us_stock", ⟨[2, 4, 6, 8, 10, 12, 14, 16, 18, 20],
      [("price", ⟨[.fin 100, .fin 102, .fin 101, .fin 103, .fin 104, .fin 102, .fin 105, .fin 107,
        .fin 106, .fin 108], rfl⟩)]⟩),
    ("btcusdt.crypto", ⟨[2, 4, 5, 6, 8, 10, 12, 14, 16, 18, 20],
      [("v", ⟨[.fin 3, .fin 1, .fin 2, .fin 4, .fin 1, .fin 5, .fin 2, .fin 3, .fin 1, .fin 4,
        .fin 2], rfl⟩)]⟩)]

/-- The first product, traded on the second one's price. -/
def crossCalendar : StrategyConfig ExtRat where
  internalCusip := "spy.us_stock"
  indicatorName := "get_sma"
  signalFunc := .momentumBandSignal
  tradingPeriod := 252
  substrategies :=
    [{ indicatorName := "get_sma", signalFuncName := "momentum_band_signal", window := 1,
       signal := .fin 0, internalCusip := some "btcusdt.crypto" }]

/-- **A bar more before the split** moves the cut of its product to an earlier date, and
the in-sample part misses the last value of the factor. -/
theorem splits_apart : ¬ ∀ (data : DataDict ℕ ExtRat) (splitRatio : ExtRat)
    (config : StrategyConfig ExtRat) (wf : WalkForward ℕ ExtRat),
    WalkForward.init toInt (fun _ => "0.5") data splitRatio config none 2 = .ok wf →
      wf.SplitsAtDate := by
  intro h
  have hrun : ((WalkForward.init toInt (fun _ => "0.5") weekends (.fin (1 / 2)) crossCalendar
      none 2).toOption.map fun wf =>
        let run (data : DataDict ℕ ExtRat) := (enriched data wf.config (some (.one 1))
          (some (.one (.fin 0))) wf.feeBps wf.minMetricObs).toOption.map fun e =>
            (e.finalPosition.take wf.splitIdx)
        (run wf.allData, run wf.isDataDict)) =
      some (some [some 1, some 1, some 1, some 1, some 1],
        some [some 1, some 1, some 1, some 1, none]) := by
    decide +kernel
  cases hwf : WalkForward.init toInt (fun _ => "0.5") weekends (.fin (1 / 2)) crossCalendar
      none 2 with
  | error e =>
    rw [hwf] at hrun
    cases hrun
  | ok wf =>
    rw [hwf] at hrun
    obtain ⟨hfull, hpart⟩ := Prod.mk.inj (Option.some.inj hrun)
    obtain ⟨e, he, htake⟩ := Option.map_eq_some_iff.mp hfull
    obtain ⟨e', he', htake'⟩ := Option.map_eq_some_iff.mp hpart
    obtain ⟨e'', he'', hhead⟩ := (h _ _ _ wf hwf).firstBars (.one 1) (.one (.fin 0)) e
      (Result.toOption_eq_some.mp he)
    cases (Result.toOption_eq_some.mp he').symm.trans he''
    rw [hhead.finalPosition, List.take_take, min_self, htake] at htake'
    cases htake'

end WalkForward
