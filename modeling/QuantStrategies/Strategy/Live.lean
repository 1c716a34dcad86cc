import QuantStrategies.Lib.ExactFloat
import QuantStrategies.Lib.RunningMean
import QuantStrategies.Lib.Split
import QuantStrategies.Strategy.LookAhead

/-!
# Live positions

Live trading computes a strategy on the newest bars alone, `live_lookback_bars`
of them, and takes the last position that is known. The indicators forget: from
some row on (`warmUp`) each has the readings that it has on the whole history,
and so have the positions that follow from a row of readings
(`combinePositions_newest`).

Conviction does not forget. It ranks a reading among all the readings before it,
and a conflict that it decides may be decided differently on the newest bars.
And a position that was last known before them is not found there.

Two things are compared all along, a column of the whole history and the column computed on
its newest rows, by `NewestEq d m n`: the history has `d` rows more, and from row `m` of the
newest on the two agree. Each operation has a rule that says how much it adds to `m`. A
rolling mean adds its window less one, a difference adds one, and mapping adds nothing, so
that the warm-up of an indicator is read off the way it is put together.

The rolling mean and spread are computed with what came before their window, as pandas
carries its sums along. `RollsAlike` says that two runs whose windows are the same answer
alike all the same. Where it is needed it is a hypothesis, and exact arithmetic has it as a
theorem.
-/

open Pandas NpFloat TwoRuns Causal

variable {L F : Type} [DecidableEq L] [NpFloat F] {d m n : ℕ}

/-! ## The newest bars -/

/-- A column without its first rows. -/
def Pandas.dropRows {index : List L} (d : ℕ) (c : Column F index) : Column F (index.drop d) :=
  ⟨c.1.drop d, by rw [List.length_drop, List.length_drop, c.2]⟩

/-- The newest `n` rows of a frame. -/
def Pandas.Frame.newest (n : ℕ) (f : Frame L F) : Frame L F where
  index := f.index.drop (f.index.length - n)
  columns := f.columns.map fun e => (e.1, dropRows (f.index.length - n) e.2)

/-- The newest `n` bars of each product. -/
def DataDict.newest (n : ℕ) (data : DataDict L F) : DataDict L F :=
  data.map fun e => (e.1, e.2.newest n)

/-- `compute_latest_position`, of the live service: the strategy on the newest
bars of a history, as many as its windows ask for. -/
def liveLatestPosition (data : DataDict L F) (config : StrategyConfig F) (window : Arg ℤ)
    (signal : Arg F) (minMetricObs : ℤ) : Except PyError (SignType × L) := do
  let lookback ← liveLookbackBars window
  let p ← Performance.init (data.newest lookback.toNat) config (some window) (some signal) none
    minMetricObs
  p.computeLatestPosition

/-- The values of a column of a frame, and none where it has no such column. -/
def Pandas.Frame.valuesOf (f : Frame L F) (name : String) : List F :=
  ((f.columns.lookup name).map (·.1)).getD []

omit [DecidableEq L] [NpFloat F] in
/-- The values of a column that is there. -/
theorem Pandas.Frame.valuesOf_eq {f : Frame L F} {name : String} {c : Column F f.index}
    (h : f.columns.lookup name = some c) : f.valuesOf name = c.1 := by
  rw [valuesOf, h]
  rfl

/-- A column of `d + n` rows, and one of the newest `n` of them that is right from
its row `m` on. -/
structure NewestEq {α : Type} (d m n : ℕ) (xs ys : List α) : Prop where
  /-- The history is `d` rows longer than what was kept. -/
  left : xs.length = d + n
  /-- The newest rows are `n`. -/
  right : ys.length = n
  /-- From row `m` of them on they hold what the history holds there. -/
  agrees : AgreesFrom d m xs ys

/-- A frame of the newest rows of another one. -/
structure FrameNewest (d : ℕ) (f g : Frame L F) : Prop where
  /-- The labels are the history's, from the first kept row on. -/
  index : g.index = f.index.drop d
  /-- So is each column, and none is added or lost. -/
  columns : ∀ name, Option.Rel (fun c c' => c'.1 = c.1.drop d) (f.columns.lookup name)
    (g.columns.lookup name)

omit [DecidableEq L] [NpFloat F] in
/-- Keeping the newest `n` rows of a frame gives such a frame. -/
theorem frameNewest_newest (n : ℕ) (f : Frame L F) :
    FrameNewest (f.index.length - n) f (f.newest n) where
  index := rfl
  columns name := by
    have hlook : (f.newest n).columns.lookup name
        = (f.columns.lookup name).map (dropRows (f.index.length - n)) := lookup_map_snd _ _ name
    rw [hlook]
    cases f.columns.lookup name with
    | none => exact .none
    | some c => exact .some rfl

namespace NewestEq

variable {α β γ : Type} {xs ys : List α} {xs' ys' : List β}

/-- Being right from a row on, a column is right from any later row on. -/
theorem mono {m' : ℕ} (h : NewestEq d m n xs ys) (hm : m ≤ m') : NewestEq d m' n xs ys :=
  ⟨h.left, h.right, h.agrees.mono hm⟩

/-- Mapping changes no row but by its own entry, so it adds nothing to the warm-up. -/
theorem map (h : NewestEq d m n xs ys) (f : α → β) :
    NewestEq d m n (xs.map f) (ys.map f) :=
  ⟨by rw [List.length_map, h.left], by rw [List.length_map, h.right], h.agrees.map f⟩

/-- Combining two columns entry by entry adds nothing either. -/
theorem zipWith (h : NewestEq d m n xs ys) (h' : NewestEq d m n xs' ys') (f : α → β → γ) :
    NewestEq d m n (List.zipWith f xs xs') (List.zipWith f ys ys') :=
  ⟨by rw [List.length_zipWith, h.left, h'.left, min_self],
    by rw [List.length_zipWith, h.right, h'.right, min_self], h.agrees.zipWith h'.agrees f⟩

/-- A row more at the front of both. -/
theorem cons (h : NewestEq d m n xs ys) (x y : α) :
    NewestEq d (m + 1) (n + 1) (x :: xs) (y :: ys) :=
  ⟨congrArg (· + 1) h.left, congrArg (· + 1) h.right, h.agrees⟩

/-- A row less at the front of both. -/
theorem tail (h : NewestEq d (m + 1) (n + 1) xs ys) : NewestEq d m n xs.tail ys.tail :=
  ⟨by rw [List.length_tail, h.left]; rfl, by rw [List.length_tail, h.right]; rfl, h.agrees.tail⟩

/-- A window that ends at a row needs `w - 1` rows in front of it to be the history's. -/
theorem rolling {xs ys : List F} (h : NewestEq d m n xs ys) {f : List F → List F → F} {w : ℕ}
    (hroll : RollsAlike f w d xs ys) :
    NewestEq d (m + (w - 1)) n (rolling f w xs) (rolling f w ys) :=
  ⟨by rw [length_rolling, h.left], by rw [length_rolling, h.right],
    AgreesFrom.rolling h.agrees (h.left.trans (congrArg (d + ·) h.right.symm)) hroll⟩

/-- A difference needs the row in front. -/
theorem diff {xs ys : List F} (h : NewestEq d m n xs ys) :
    NewestEq d (m + 1) n (diff xs) (diff ys) :=
  ⟨by rw [length_diff, h.left], by rw [length_diff, h.right],
    AgreesFrom.diff h.agrees (h.left.trans (congrArg (d + ·) h.right.symm))⟩

/-- From its row `m` on, a row is the one `d` rows later. -/
theorem getElem?_eq (h : NewestEq d m n xs ys) {i : ℕ} (hi : m ≤ i) : ys[i]? = xs[d + i]? := by
  obtain ⟨k, rfl⟩ := Nat.exists_eq_add_of_le hi
  rw [← List.getElem?_drop, ← Nat.add_assoc, ← List.getElem?_drop]
  exact congrArg (·[k]?) h.agrees.symm

end NewestEq

namespace FrameNewest

variable {f g : Frame L F}

omit [DecidableEq L] [NpFloat F] in
theorem hasColumn (h : FrameNewest d f g) (name : String) :
    g.hasColumn name = f.hasColumn name := hasColumn_eq (h.columns name)

omit [DecidableEq L] [NpFloat F] in
/-- Asking for a column succeeds on both or on neither, and the two agree from the first row on.
-/
theorem column (h : FrameNewest d f g) (hlen : f.index.length = d + n) (name : String) :
    Alike True (fun c c' => f.columns.lookup name = some c ∧ g.columns.lookup name = some c' ∧
        NewestEq d 0 n c.1 c'.1) (f.column name) (g.column name) := by
  refine (column_alike (h.columns name)).ends.mono fun c c' hrel => ?_
  obtain ⟨-, hlook', hlook, hcc⟩ := hrel
  have hc : c.1.length = d + n := c.2.trans hlen
  exact ⟨hlook, Frame.column_eq_ok.mp hlook', hc,
    by rw [hcc, List.length_drop, hc, Nat.add_sub_cancel_left], hcc ▸ agreesFrom_drop d c.1⟩

omit [DecidableEq L] [NpFloat F] in
/-- Both frames are accepted as they are, or both are refused for want of a `factor` column. -/
theorem init (h : FrameNewest d f g) :
    Alike True (fun a b => a = f ∧ b = g) (TechnicalAnalysis.init f)
      (TechnicalAnalysis.init g) := by
  rw [TechnicalAnalysis.init, TechnicalAnalysis.init, h.hasColumn]
  split
  · exact .ok ⟨rfl, rfl⟩
  · exact .errors

omit [DecidableEq L] [NpFloat F] in
/-- The newest rows of a frame with a column put in. -/
theorem set (h : FrameNewest d f g) (name : String) {c : Column F f.index} {c' : Column F g.index}
    (hcc : c'.1 = c.1.drop d) : FrameNewest d (f.set name c) (g.set name c') where
  index := h.index
  columns col := lookup_set hcc fun _ => h.columns col

omit [DecidableEq L] [NpFloat F] in
theorem single (name : String) {index index' : List L} {c : Column F index} {c' : Column F index'}
    (hidx : index' = index.drop d) (hcc : c'.1 = c.1.drop d) :
    FrameNewest d (Frame.single name index c) (Frame.single name index' c') where
  index := hidx
  columns _ := lookup_single hcc

end FrameNewest

/-! ## Indicators that forget -/

/-- The difference of two finite numbers is a number. -/
def SubKnown (F : Type) [NpFloat F] : Prop :=
  ∀ x y : F, observed x = true → observed y = true → isNan (x - y) = false

/-- A column without gaps has a difference in each row but the first. -/
theorem diff_tail_known (hsub : SubKnown F) {xs : List F} (h : ∀ x ∈ xs, observed x = true) :
    ∀ x ∈ (diff xs).tail, isNan x = false := by
  intro x hx
  obtain ⟨i, hi⟩ := List.mem_iff_getElem?.mp hx
  rw [List.getElem?_tail] at hi
  obtain ⟨prev, cur, hprev, hcur, rfl⟩ := getElem?_lagged.mp hi
  exact hsub _ _ (h _ (List.mem_of_getElem? hcur)) (h _ (List.mem_of_getElem? hprev))

/-- Values looked up by the labels that they are stored under. -/
theorem map_lookup_zip {labels : List L} {values : List F} (hnd : labels.Nodup)
    (hlen : values.length = labels.length) :
    labels.map (fun l => ((labels.zip values).lookup l).getD nan) = values := by
  induction labels generalizing values with
  | nil => exact (List.eq_nil_of_length_eq_zero hlen).symm
  | cons l labels ih =>
    obtain ⟨x, values, rfl⟩ := List.exists_cons_of_length_eq_add_one hlen
    obtain ⟨hl, hnd⟩ := List.nodup_cons.mp hnd
    rw [List.map_cons, List.zip_cons_cons, List.lookup_cons_self]
    refine congrArg (x :: ·) (Eq.trans (List.map_congr_left fun l' hl' => ?_)
      (ih hnd (Nat.succ.inj hlen)))
    have hne : l' ≠ l := fun h => hl (h ▸ hl')
    rw [List.lookup_cons, beq_false_of_ne hne]

namespace TechnicalAnalysis

/-- The indicators whose reading depends on a bounded number of rows. -/
def finiteMemory : List String :=
  ["get_sma", "get_rsi", "get_bollinger_band", "get_stochastic_oscillator"]

/-- How many rows an indicator of finite memory takes to warm up. -/
def warmUp (name : String) (w : ℤ) : ℕ :=
  if name = "get_rsi" then w.toNat - 1 + 1
  else if name = "get_stochastic_oscillator" then w.toNat - 1 + (w.toNat - 1)
  else w.toNat - 1

/-- The gains among the differences. -/
def gains (delta : List F) : List F := delta.map fun x => if lt x 0 then 0 else x

/-- The losses among the differences, without their sign. -/
def losses (delta : List F) : List F := (delta.map fun x => if lt 0 x then 0 else x).map NpFloat.abs

/-- **The running sums of an indicator**: which of them it keeps, and the column that
each runs down. Relative strength has one of the gains and one of the losses, a
Bollinger band one for the mean and one for the deviation, and the oscillator one for
the mean that smooths it. Its highest high and lowest low are those of the window. -/
def running (data : Frame L F) (name : String) (w : ℤ) :
    List ((List F → List F → F) × List F) :=
  if name = "get_sma" then [(rollMean, data.valuesOf "factor")]
  else if name = "get_rsi" then
    let delta := (diff (data.valuesOf "factor")).filter fun x => !isNan x
    [(rollMean, gains delta), (rollMean, losses delta)]
  else if name = "get_bollinger_band" then
    [(rollMean, data.valuesOf "factor"), (rollStd, data.valuesOf "factor")]
  else if name = "get_stochastic_oscillator" then
    [(rollMean, stochasticK w.toNat (data.valuesOf "High") (data.valuesOf "Low")
      (data.valuesOf "Close"))]
  else []

/-- The running sums of an indicator on a frame, and on one that starts `d` rows later,
carry nothing into a window that both have. -/
def RunsAlike (d : ℕ) (name : String) (w : ℤ) (f g : Frame L F) : Prop :=
  List.Forall₂ (fun a b => RollsAlike a.1 w.toNat d a.2 b.2) (running f name w) (running g name w)

namespace RunsAlike

variable {f g : Frame L F} {name : String} {w : ℤ}

omit [DecidableEq L] in
/-- For a moving average: the mean over the factor. -/
theorem sma (h : RunsAlike d name w f g) (hname : name = "get_sma") :
    RollsAlike rollMean w.toNat d (f.valuesOf "factor") (g.valuesOf "factor") := by
  rw [RunsAlike, running, running, if_pos hname, if_pos hname] at h
  exact (List.forall₂_cons.mp h).1

omit [DecidableEq L] in
/-- For relative strength: the means of the gains and of the losses, once the first row, which has
no difference, is dropped. -/
theorem rsi (h : RunsAlike d name w f g) (hname : name = "get_rsi")
    {xs ys : List F} (hx : (Pandas.diff (f.valuesOf "factor")).filter (fun x => !isNan x) = xs)
    (hy : (Pandas.diff (g.valuesOf "factor")).filter (fun x => !isNan x) = ys) :
    RollsAlike rollMean w.toNat d (gains xs) (gains ys) ∧
      RollsAlike rollMean w.toNat d (losses xs) (losses ys) := by
  have hsma : name ≠ "get_sma" := by
    rw [hname]
    decide
  rw [RunsAlike, running, running, if_neg hsma, if_neg hsma, if_pos hname, if_pos hname] at h
  simp only [hx, hy] at h
  obtain ⟨hgains, h⟩ := List.forall₂_cons.mp h
  exact ⟨hgains, (List.forall₂_cons.mp h).1⟩

omit [DecidableEq L] in
/-- For the distance from the band: the mean and the spread over the factor. -/
theorem bollingerBand (h : RunsAlike d name w f g) (hname : name = "get_bollinger_band") :
    RollsAlike rollMean w.toNat d (f.valuesOf "factor") (g.valuesOf "factor") ∧
      RollsAlike rollStd w.toNat d (f.valuesOf "factor") (g.valuesOf "factor") := by
  have hsma : name ≠ "get_sma" := by
    rw [hname]
    decide
  have hrsi : name ≠ "get_rsi" := by
    rw [hname]
    decide
  rw [RunsAlike, running, running, if_neg hsma, if_neg hsma, if_neg hrsi, if_neg hrsi,
    if_pos hname, if_pos hname] at h
  obtain ⟨hmean, h⟩ := List.forall₂_cons.mp h
  exact ⟨hmean, (List.forall₂_cons.mp h).1⟩

omit [DecidableEq L] in
/-- For the oscillator: the mean over its fast line. -/
theorem stochasticOscillator (h : RunsAlike d name w f g)
    (hname : name = "get_stochastic_oscillator") :
    RollsAlike rollMean w.toNat d
      (stochasticK w.toNat (f.valuesOf "High") (f.valuesOf "Low") (f.valuesOf "Close"))
      (stochasticK w.toNat (g.valuesOf "High") (g.valuesOf "Low") (g.valuesOf "Close")) := by
  have hsma : name ≠ "get_sma" := by
    rw [hname]
    decide
  have hrsi : name ≠ "get_rsi" := by
    rw [hname]
    decide
  have hbb : name ≠ "get_bollinger_band" := by
    rw [hname]
    decide
  rw [RunsAlike, running, running, if_neg hsma, if_neg hsma, if_neg hrsi, if_neg hrsi,
    if_neg hbb, if_neg hbb, if_pos hname, if_pos hname] at h
  exact (List.forall₂_cons.mp h).1

/-- In exact arithmetic the running sums of every indicator carry nothing. -/
theorem of_exact {K L G : Type} [Field K] [LinearOrder K] [IsStrictOrderedRing K]
    [ExactFloat K G] (d : ℕ) (name : String) (w : ℤ) (f g : Frame L G) :
    RunsAlike d name w f g := by
  rw [RunsAlike, running, running]
  split_ifs
  · exact .cons (ExactFloat.rollsAlike_rollMean _ _ _ _) .nil
  · exact .cons (ExactFloat.rollsAlike_rollMean _ _ _ _)
      (.cons (ExactFloat.rollsAlike_rollMean _ _ _ _) .nil)
  · exact .cons (ExactFloat.rollsAlike_rollMean _ _ _ _)
      (.cons (ExactFloat.rollsAlike_rollStd _ _ _ _) .nil)
  · exact .cons (ExactFloat.rollsAlike_rollMean _ _ _ _) .nil
  · exact .nil

end RunsAlike

/-- Relative strength needs one window of differences. -/
theorem rsi_newest {xs ys : List F} (h : NewestEq d m n xs ys) {w : ℕ}
    (hgains : RollsAlike rollMean w d (gains xs) (gains ys))
    (hlosses : RollsAlike rollMean w d (losses xs) (losses ys)) :
    NewestEq d (m + (w - 1)) n (rsi w xs) (rsi w ys) :=
  ((h.map _).rolling hgains).zipWith (((h.map _).map _).rolling hlosses) _

/-- The distance from the band needs one window of the factor. -/
theorem bollingerBand_newest {xs ys : List F} (h : NewestEq d m n xs ys) {w : ℕ}
    (hmean : RollsAlike rollMean w d xs ys) (hstd : RollsAlike rollStd w d xs ys) :
    NewestEq d (m + (w - 1)) n (bollingerBand w xs) (bollingerBand w ys) :=
  ((h.mono (Nat.le_add_right m _)).zipWith (h.rolling hmean) _).zipWith (h.rolling hstd) _

/-- The fast line needs one window of the range. Highest and lowest are of the window alone, with
nothing carried along. -/
theorem stochasticK_newest {high high' low low' close close' : List F}
    (hh : NewestEq d m n high high') (hl : NewestEq d m n low low')
    (hc : NewestEq d m n close close') (w : ℕ) :
    NewestEq d (m + (w - 1)) n (stochasticK w high low close) (stochasticK w high' low' close') :=
  have hmin : NewestEq d (m + (w - 1)) n (Pandas.rolling (alone Pandas.min) w low)
      (Pandas.rolling (alone Pandas.min) w low') := hl.rolling (rollsAlike_alone _ _ _ _ _)
  ((hc.mono (Nat.le_add_right m _)).zipWith hmin _).zipWith
    ((hh.rolling (rollsAlike_alone _ _ _ _ _)).zipWith hmin _) _

/-- The oscillator is a mean of that line, so that it needs two windows. -/
theorem stochasticOscillator_newest {high high' low low' close close' : List F}
    (hh : NewestEq d m n high high') (hl : NewestEq d m n low low')
    (hc : NewestEq d m n close close') {w : ℕ} (hroll : RollsAlike rollMean w d
      (stochasticK w high low close) (stochasticK w high' low' close')) :
    NewestEq d (m + (w - 1) + (w - 1)) n (stochasticOscillator w high low close)
      (stochasticOscillator w high' low' close') :=
  (stochasticK_newest hh hl hc w).rolling hroll

/-- The differences that there are, of a series without gaps: all but the first. -/
theorem filter_diff {xs : List F} (h : ∀ x ∈ (diff xs).tail, isNan x = false) :
    (diff xs).filter (fun x => !isNan x) = (diff xs).tail := by
  cases xs with
  | nil => rfl
  | cons x xs =>
    have hfirst : (diff (x :: xs)).take 1 = [nan] := take_diff 1 (x :: xs)
    conv_lhs => rw [← List.take_append_drop 1 (diff (x :: xs)), hfirst]
    rw [List.filter_append, List.filter_singleton, isNan_nan, List.drop_one]
    exact List.filter_eq_self.mpr fun y hy => by rw [h y hy]; rfl

/-- Relative strength of a series without gaps, put back by label: the first row
has none, and the others have it in their order. -/
theorem rsiSeries_reindex {s : Series L F} (w : ℕ) (hnd : s.index.Nodup)
    (hknown : ∀ x ∈ (diff s.values).tail, isNan x = false) :
    ∃ c, (rsiSeries w s).reindex s.index = .ok c ∧
      (s.index ≠ [] → c.1 = nan :: rsi w (diff s.values).tail) := by
  by_cases hne : s.index = []
  · have hempty : (rsiSeries w s).index = s.index :=
      (List.sublist_nil.mp (hne ▸ dropna_diff_sublist s)).trans hne.symm
    exact ⟨_, Series.reindex_self hempty, fun h => absurd hne h⟩
  obtain ⟨l, labels, hidx⟩ := List.exists_cons_of_ne_nil hne
  have hlen : (diff s.values).tail.length = labels.length := by
    rw [List.length_tail, length_diff, Series.length_values, hidx]
    rfl
  have hdiff : diff s.values = nan :: (diff s.values).tail := by
    have hfirst : (diff s.values).take 1 = [nan] := by
      obtain ⟨x, xs, hval⟩ : ∃ x xs, s.values = x :: xs := by
        refine List.exists_cons_of_length_eq_add_one (?_ : _ = labels.length + 1)
        rw [Series.length_values, hidx, List.length_cons]
      rw [hval]
      exact take_diff 1 (x :: xs)
    conv_lhs => rw [← List.take_append_drop 1 (diff s.values), hfirst]
    rw [List.drop_one]
    rfl
  -- the rows that have a difference are all but the first
  have hrows : (s.index.zip (diff s.values)).filter (fun r => !isNan r.2)
      = labels.zip (diff s.values).tail := by
    rw [hidx, hdiff, List.zip_cons_cons, List.filter_cons_of_neg (by simp [isNan_nan])]
    refine List.filter_eq_self.mpr fun r hr => ?_
    rw [hknown r.2 (List.of_mem_zip hr).2]
    rfl
  have hindex : (rsiSeries w s).index = labels := by
    show ((s.index.zip (diff s.values)).filter fun r => !isNan r.2).map Prod.fst = labels
    rw [hrows]
    exact List.map_fst_zip hlen.ge
  have hvalues : (rsiSeries w s).values = rsi w (diff s.values).tail := by
    show rsi w (((s.index.zip (diff s.values)).filter fun r => !isNan r.2).map Prod.snd) = _
    rw [hrows]
    exact congrArg (rsi w) (List.map_snd_zip hlen.le)
  rw [hidx] at hnd
  obtain ⟨hl, hnd⟩ := List.nodup_cons.mp hnd
  have hdropped : (rsiSeries w s).index ≠ s.index := dropna_diff_index_ne hne
  refine ⟨_, (Series.reindex_of_ne hdropped).trans (if_pos (hindex ▸ hnd)), fun _ => ?_⟩
  show s.index.map (fun l => ((rsiSeries w s).rows.lookup l).getD nan) = _
  rw [Series.rows, hindex, hvalues, hidx, List.map_cons]
  have hnone : (labels.zip (rsi w (diff s.values).tail)).lookup l = none := by
    refine List.lookup_eq_none_iff.mpr fun r hr => bne_iff_ne.mpr fun h => hl ?_
    rw [h]
    exact (List.of_mem_zip hr).1
  rw [hnone, map_lookup_zip hnd (by rw [length_rsi, hlen])]
  rfl

/-- A window is taken or refused by what it is, not by the data, so by both runs or by neither. -/
theorem rollingWindow_alike (w : ℤ) :
    Alike True (fun v v' => v = w.toNat ∧ v' = w.toNat) (rollingWindow w) (rollingWindow w) := by
  rw [rollingWindow]
  split
  · exact .errors
  · exact .ok ⟨rfl, rfl⟩

/-- A series, and one of its newest rows. -/
structure SeriesNewest (d m n : ℕ) (f g : Frame L F) (s t : Series L F) : Prop where
  /-- The first is over the history's index. -/
  left : s.index = f.index
  /-- The second is over the newest labels. -/
  right : t.index = g.index
  /-- From row `m` on they agree. -/
  values : NewestEq d m n s.values t.values

/-- **An indicator of finite memory forgets**: once it has warmed up, its reading is
the same on the newest rows alone, if its running sums carry nothing into them. -/
theorem indicator_newest {f g : Frame L F} (h : FrameNewest d f g)
    (hlen : f.index.length = d + n) (hnd : f.index.Nodup) (hsub : SubKnown F)
    {name : String} (hname : name ∈ finiteMemory) (w : ℤ)
    (hknown : ∀ c, f.columns.lookup "factor" = some c → ∀ x ∈ c.1, observed x = true)
    (hruns : RunsAlike d name w f g) :
    Alike True (fun c c' => NewestEq d (warmUp name w) n c.1 c'.1)
      (indicator f name w) (indicator g name w) := by
  have hown {x y : Except PyError (Series L F)}
      (hxy : Alike True (SeriesNewest d (warmUp name w) n f g) x y) :
      Alike True (fun (c : Column F f.index) (c' : Column F g.index) =>
          NewestEq d (warmUp name w) n c.1 c'.1)
        (do let s ← x; s.reindex f.index) (do let s ← y; s.reindex g.index) :=
    hxy.bind fun s t hst => by
      rw [Series.reindex_self hst.left, Series.reindex_self hst.right]
      exact .ok hst.values
  have hseries : Alike True (fun s t => SeriesNewest d 0 n f g s t ∧
      (∀ x ∈ s.values, observed x = true) ∧ f.valuesOf "factor" = s.values ∧
      g.valuesOf "factor" = t.values) (f.series "factor") (g.series "factor") :=
    (h.column hlen "factor").bind fun c c' hcc =>
      .ok ⟨⟨rfl, rfl, hcc.2.2⟩, hknown c hcc.1, Frame.valuesOf_eq hcc.1,
        Frame.valuesOf_eq hcc.2.1⟩
  rw [indicator, indicator, method, method]
  split_ifs with hsma hema hrsi hbb hso
  · refine hown (hseries.bind fun s t hst => (rollingWindow_alike w).bind fun v v' hv => ?_)
    obtain ⟨rfl, rfl⟩ := hv
    have hroll := hruns.sma hsma
    rw [hst.2.2.1, hst.2.2.2] at hroll
    have hsame := hst.1.values.rolling hroll
    rw [Nat.zero_add] at hsame
    have hw : warmUp name w = w.toNat - 1 := by
      rw [warmUp, if_neg (by rw [hsma]; decide), if_neg (by rw [hsma]; decide)]
    exact .ok ⟨hst.1.left, hst.1.right, hw ▸ hsame⟩
  · rw [hema] at hname
    exact absurd hname (by decide)
  · -- the rows that have a difference are put back by label
    have hmid : Alike True (fun s t => ∃ s' t', s = rsiSeries w.toNat s' ∧
        t = rsiSeries w.toNat t' ∧ SeriesNewest d 0 n f g s' t' ∧
        (∀ x ∈ s'.values, observed x = true) ∧ f.valuesOf "factor" = s'.values ∧
        g.valuesOf "factor" = t'.values) (getRsi f w) (getRsi g w) :=
      hseries.bind fun s t hst => (rollingWindow_alike w).bind fun v v' hv => by
        obtain ⟨rfl, rfl⟩ := hv
        exact .ok ⟨s, t, rfl, rfl, hst⟩
    refine hmid.bind fun _ _ hrel => ?_
    obtain ⟨s, t, hs, ht, hst, hobs, hfs, hgt⟩ := hrel
    have hdrop : t.values = s.values.drop d := hst.values.agrees.symm
    have hleft := diff_tail_known hsub hobs
    have hright : ∀ x ∈ (Pandas.diff t.values).tail, isNan x = false :=
      diff_tail_known hsub fun x hx => hobs x (List.mem_of_mem_drop (hdrop ▸ hx))
    obtain ⟨c, hc, hcv⟩ := rsiSeries_reindex w.toNat (hst.left ▸ hnd) hleft
    obtain ⟨c', hc', hcv'⟩ := rsiSeries_reindex w.toNat
      (hst.right ▸ h.index ▸ hnd.sublist (List.drop_sublist _ _)) hright
    obtain ⟨hgains, hlosses⟩ := hruns.rsi hrsi (by rw [hfs, filter_diff hleft])
      (by rw [hgt, filter_diff hright])
    rw [hs, ht, ← hst.left, ← hst.right, hc, hc']
    refine .ok ?_
    have hcl : c.1.length = d + n := c.2.trans ((congrArg List.length hst.left).trans hlen)
    have hcl' : c'.1.length = n := by
      rw [c'.2, hst.right, h.index, List.length_drop, hlen, Nat.add_sub_cancel_left]
    rcases Nat.eq_zero_or_pos n with hn | hn
    · refine ⟨hcl, hcl', ?_⟩
      show c.1.drop _ = c'.1.drop _
      rw [List.drop_of_length_le (by omega), List.drop_of_length_le (by omega)]
    obtain ⟨k, rfl⟩ := Nat.exists_eq_add_one.mpr hn
    have hf : s.index ≠ [] := by
      rw [hst.left]
      exact List.ne_nil_of_length_pos (by omega)
    have hg : t.index ≠ [] := by
      rw [hst.right, h.index]
      exact List.ne_nil_of_length_pos (by rw [List.length_drop]; omega)
    rw [hcv hf, hcv' hg, warmUp, if_pos hrsi]
    have hsame := (rsi_newest hst.values.diff.tail hgains hlosses).cons nan nan
    rwa [Nat.zero_add] at hsame
  · refine hown (hseries.bind fun s t hst => (rollingWindow_alike w).bind fun v v' hv => ?_)
    obtain ⟨rfl, rfl⟩ := hv
    obtain ⟨hmean, hstd⟩ := hruns.bollingerBand hbb
    rw [hst.2.2.1, hst.2.2.2] at hmean hstd
    have hsame := bollingerBand_newest hst.1.values hmean hstd
    rw [Nat.zero_add] at hsame
    have hw : warmUp name w = w.toNat - 1 := by
      rw [warmUp, if_neg hrsi, if_neg (by rw [hbb]; decide)]
    exact .ok ⟨hst.1.left, hst.1.right, hw ▸ hsame⟩
  · refine hown ((h.column hlen "High").bind fun high high' hh =>
      (rollingWindow_alike w).bind fun v v' hv => (h.column hlen "Low").bind fun low low' hl =>
        (h.column hlen "Close").bind fun close close' hcl => ?_)
    obtain ⟨rfl, rfl⟩ := hv
    have hroll := hruns.stochasticOscillator hso
    rw [Frame.valuesOf_eq hh.1, Frame.valuesOf_eq hl.1, Frame.valuesOf_eq hcl.1,
      Frame.valuesOf_eq hh.2.1, Frame.valuesOf_eq hl.2.1, Frame.valuesOf_eq hcl.2.1] at hroll
    have hsame := stochasticOscillator_newest hh.2.2 hl.2.2 hcl.2.2 hroll
    rw [Nat.zero_add] at hsame
    have hw : warmUp name w = w.toNat - 1 + (w.toNat - 1) := by
      rw [warmUp, if_neg hrsi, if_pos hso]
    exact .ok ⟨rfl, rfl, hw ▸ hsame⟩
  · exact .errors

end TechnicalAnalysis

/-! ## Conflicts -/

/-- Whether conviction decides the position of a row: where there are both sides,
and, but for `OR`, no flat factor. A closed gate, or a single factor behind it,
leaves nothing to decide. -/
def Conjunction.contested (conj : Conjunction) (signs : List Position) : Bool :=
  let sides (signs : List Position) := signs.any (· = some 1) && signs.any (· = some (-1))
  match conj with
  | .and => sides signs && !signs.any (· = some 0)
  | .or => sides signs
  | .filter =>
    signs.length ≠ 2 && signs.getD 0 none ≠ some 0 && sides (signs.drop 1) &&
      !(signs.drop 1).any (· = some 0)

/-- A position that conviction does not decide does not depend on it. -/
theorem combineRow_of_uncontested {conj : Conjunction} {signs : List Position}
    (h : conj.contested signs = false) (c c' : List F) :
    combineRow conj signs (some c) = combineRow conj signs (some c') := by
  have hand {signs : List Position} {nanRow : Bool}
      (h : (signs.any (· = some 1) && signs.any (· = some (-1)) &&
        !signs.any (· = some 0)) = false) :
      combineAnd signs nanRow (some c) = combineAnd signs nanRow (some c') := by
    simp only [combineAnd, h, Bool.false_and, Bool.false_eq_true, if_false]
  simp only [combineRow]
  refine if_congr Iff.rfl rfl ?_
  cases conj with
  | and => exact hand h
  | or =>
    have hor : (signs.any (· = some 1) && signs.any (· = some (-1))) = false := h
    simp only [combineOr, hor, Bool.false_eq_true, if_false]
  | filter =>
    show (if _ then _ else _) = if _ then _ else _
    by_cases hgate : signs.getD 0 none ≠ some 0
    · by_cases htwo : signs.length = 2
      · simp only [htwo, if_true]
      · refine if_congr Iff.rfl ?_ rfl
        rw [if_neg htwo, if_neg htwo]
        refine hand ?_
        simp only [Conjunction.contested, ne_eq, htwo, not_false_eq_true, decide_true,
          show (¬ signs.getD 0 none = some 0) ↔ True from iff_true_intro hgate,
          Bool.true_and] at h
        exact h
    · simp only [hgate, decide_false, Bool.false_eq_true, if_false]

/-- The first of the largest is one of them. -/
theorem argmax_lt {xs : List F} (h : xs ≠ []) : argmax xs < xs.length := by
  have hfold (ys : List F) (s : F × ℕ × ℕ) (hs : s.2.1 < s.2.2) :
      (ys.foldl (fun (s : F × ℕ × ℕ) y =>
        if !isNan s.1 && (isNan y || lt s.1 y) then (y, s.2.2, s.2.2 + 1)
        else (s.1, s.2.1, s.2.2 + 1)) s).2.1 < s.2.2 + ys.length := by
    induction ys generalizing s with
    | nil => exact hs
    | cons y ys ih =>
      rw [List.foldl_cons, List.length_cons, Nat.add_comm ys.length 1, ← Nat.add_assoc]
      split
      · exact ih (y, s.2.2, s.2.2 + 1) (Nat.lt_succ_self _)
      · exact ih (s.1, s.2.1, s.2.2 + 1) (Nat.lt_succ_of_lt hs)
  obtain ⟨x, xs, rfl⟩ := List.exists_cons_of_ne_nil h
  rw [List.length_cons, Nat.add_comm]
  exact hfold xs (x, 0, 1) Nat.one_pos

/-- The sign of the most convicted factor is known when all of them are. -/
theorem strongestSign_known {signs : List Position} (hknown : ∀ s ∈ signs, s ≠ none)
    (hne : signs ≠ []) (c : List F) : strongestSign signs c ≠ none := by
  have hlt : argmax (List.zipWith (fun s c => if s = some 0 then -inf else c) signs c)
      < signs.length := by
    by_cases hmasked : List.zipWith (fun s c => if s = some 0 then -inf else c) signs c = []
    · rw [hmasked]
      exact List.length_pos_of_ne_nil hne
    · refine lt_of_lt_of_le (argmax_lt hmasked) ?_
      rw [List.length_zipWith]
      exact Nat.min_le_left _ _
  simp only [strongestSign, List.getD_eq_getElem?_getD, List.getElem?_eq_getElem hlt,
    Option.getD_some]
  exact hknown _ (List.getElem_mem hlt)

/-- A row has a position when each of its factors has one. -/
theorem combineRow_known {conj : Conjunction} {signs : List Position}
    (hknown : ∀ s ∈ signs, s ≠ none) (hlen : 2 ≤ signs.length) (c : List F) :
    combineRow conj signs (some c) ≠ none := by
  have hne : signs ≠ [] := List.ne_nil_of_length_pos (by omega)
  have hand {signs : List Position} (hknown : ∀ s ∈ signs, s ≠ none) (hne : signs ≠ [])
      (nanRow : Bool) : combineAnd signs nanRow (some c) ≠ none := by
    simp only [combineAnd]
    split
    · exact strongestSign_known hknown hne c
    · split_ifs <;> exact Option.some_ne_none _
  have hnan : signs.any (· = none) = false := by
    simpa using hknown
  simp only [combineRow, hnan, Bool.false_eq_true, if_false]
  cases conj with
  | and => exact hand hknown hne _
  | or =>
    simp only [combineOr]
    split_ifs
    · exact strongestSign_known hknown hne c
    all_goals exact Option.some_ne_none _
  | filter =>
    show (if _ then _ else _) ≠ none
    split
    · split
      · rw [List.getD_eq_getElem?_getD, List.getElem?_eq_getElem (by omega), Option.getD_some]
        exact hknown _ (List.getElem_mem _)
      · refine hand (fun s hs => hknown s (List.mem_of_mem_drop hs)) ?_ _
        exact List.ne_nil_of_length_pos (by rw [List.length_drop]; omega)
    · exact Option.some_ne_none _

/-! ## Combined positions -/

/-- The signs that several factors have on a row. -/
def rowSigns {α : Type} (columns : List (List α)) (i : ℕ) : List α := columns.filterMap (·[i]?)

/-- A row of columns of one length has an entry for each of them. -/
theorem rowSigns_length {α : Type} {k : ℕ} {columns : List (List α)}
    (h : ∀ c ∈ columns, c.length = k) {i : ℕ} (hi : i < k) :
    (rowSigns columns i).length = columns.length := by
  induction columns with
  | nil => rfl
  | cons c cs ih =>
    have hc : i < c.length := (h c List.mem_cons_self).symm ▸ hi
    show (List.filterMap _ (_ :: _)).length = _
    rw [List.filterMap_cons, List.getElem?_eq_getElem hc]
    exact congrArg (· + 1) (ih fun c' hc' => h c' (List.mem_cons_of_mem c hc'))

/-- Whether conviction decides the combined position of a row. -/
def contestedAt (conjunction : String) (positions : List (List Position)) (i : ℕ) : Bool :=
  match Conjunction.ofString conjunction with
  | .ok conj => decide (2 ≤ positions.length) && conj.contested (rowSigns positions i)
  | .error _ => false

/-- Stacked columns of one length: as many rows, each with what the columns have
there. -/
theorem columnStack_eq {α : Type} {k : ℕ} {columns : List (List α)}
    (hne : columns ≠ []) (h : ∀ c ∈ columns, c.length = k) :
    columnStack columns = .ok ((List.range k).map (rowSigns columns)) := by
  obtain ⟨c, cs, rfl⟩ := List.exists_cons_of_ne_nil hne
  have hk : ((c :: cs).map List.length).headD 0 = k := h c List.mem_cons_self
  simp only [columnStack, hk]
  rw [if_pos (List.all_eq_true.mpr fun c hc => decide_eq_true (h c hc))]
  rfl

/-- With two factors or more, some strength is left to decide a conflict by. -/
theorem directions_ne_nil {α : Type} (conj : Conjunction) {xs : List α} (h : 2 ≤ xs.length) :
    directions conj xs ≠ [] := by
  cases conj with
  | filter => exact List.ne_nil_of_length_pos (by rw [directions, List.length_drop]; omega)
  | and => exact List.ne_nil_of_length_pos (show 0 < xs.length by omega)
  | or => exact List.ne_nil_of_length_pos (show 0 < xs.length by omega)

/-- The strengths that decide are among those that there are. -/
theorem mem_of_mem_directions {α : Type} (conj : Conjunction) {xs : List α} {x : α}
    (h : x ∈ directions conj xs) : x ∈ xs := by
  cases conj with
  | filter => exact List.mem_of_mem_drop h
  | and => exact h
  | or => exact h

/-- A gate with a single factor behind it has that factor's sign or none, whatever the
convictions. -/
theorem combineRow_two {signs : List Position} (h : signs.length = 2) (c c' : Option (List F)) :
    combineRow .filter signs c = combineRow .filter signs c' := by
  simp only [combineRow, combineFilter, h, if_true]

/-- The combined position of a row is made of the signs and the convictions there. A gate
with a single factor behind it has no convictions, and would make nothing of them. -/
theorem combinePositions_eq {k : ℕ} {ps : List (List Position)} {ss : List (List F)}
    (conjunction : String) (hp : ∀ p ∈ ps, p.length = k) (hs : ∀ s ∈ ss, s.length = k)
    (htwo : 2 ≤ ps.length) (hlen : ss.length = ps.length) :
    combinePositions ps conjunction (some ss) = do
      let conj ← Conjunction.ofString conjunction
      return (List.range k).map fun i => combineRow conj (rowSigns ps i)
        (some (rowSigns ((directions conj ss).map conviction) i)) := by
  match ps, htwo with
  | p :: p' :: ps, htwo =>
    have hstacked := columnStack_eq (List.cons_ne_nil p (p' :: ps)) hp
    cases hconj : Conjunction.ofString conjunction with
    | error e => simp only [combinePositions, hconj, bind, Except.bind]
    | ok conj =>
      by_cases hgate : conj = .filter ∧ (p :: p' :: ps).length = 2
      · have hweighed : weighed conj (p :: p' :: ps).length (some ss) = none := if_pos hgate
        simp only [combinePositions, hconj, hstacked, hweighed, bind, Except.bind, pure, Except.pure,
          List.map_map]
        refine congrArg Except.ok (List.map_congr_left fun i hi => ?_)
        obtain ⟨rfl, hlength⟩ := hgate
        exact combineRow_two ((rowSigns_length hp (List.mem_range.mp hi)).trans hlength) _ _
      · have hweighed : weighed conj (p :: p' :: ps).length (some ss) = some (directions conj ss) :=
          if_neg hgate
        have hconv : ∀ c ∈ (directions conj ss).map conviction, c.length = k := by
          intro c hc
          obtain ⟨s, hs', rfl⟩ := List.mem_map.mp hc
          rw [length_conviction]
          exact hs s (mem_of_mem_directions conj hs')
        have hdir : (directions conj ss).map conviction ≠ [] :=
          mt List.map_eq_nil_iff.mp (directions_ne_nil conj (hlen ▸ htwo))
        simp only [combinePositions, hconj, hstacked, hweighed, columnStack_eq hdir hconv, bind,
          Except.bind, pure, Except.pure, List.zipWith_map, List.zipWith_self]

/-- Combined positions on a history and on its newest rows: from row `m` on, they are
known on the same rows, and the same where conviction does not decide. -/
structure CombinedNewest (d m n : ℕ) (contested : ℕ → Bool) (xs ys : List Position) : Prop where
  /-- The history is `d` rows longer. -/
  left : xs.length = d + n
  /-- The newest rows are `n`. -/
  right : ys.length = n
  /-- Where conviction does not decide, the positions are the same. -/
  same : ∀ i, m ≤ i → contested (d + i) = false → ys[i]? = xs[d + i]?
  /-- Where the history's is missing, so is the other. -/
  known : ∀ i, m ≤ i → xs[d + i]? = some none → ys[i]? = some none

/-- The row of a column that is computed row by row. -/
theorem getElem?_range_map {α : Type} (f : ℕ → α) (k i : ℕ) :
    ((List.range k).map f)[i]? = if i < k then some (f i) else none := by
  split
  · next hi => rw [List.getElem?_map, List.getElem?_range hi]; rfl
  · next hi => exact List.getElem?_eq_none (by simpa using hi)

/-- Columns that agree on a row have the same signs there. -/
theorem rowSigns_newest {α : Type} {ps qs : List (List α)}
    (h : List.Forall₂ (NewestEq d m n) ps qs) {i : ℕ} (hi : m ≤ i) :
    rowSigns qs i = rowSigns ps (d + i) := by
  induction h with
  | nil => rfl
  | @cons p q ps qs h _ ih =>
    show List.filterMap _ (_ :: _) = List.filterMap _ (_ :: _)
    rw [List.filterMap_cons, List.filterMap_cons, h.getElem?_eq hi]
    cases p[d + i]? with
    | none => exact ih
    | some x => exact congrArg (x :: ·) ih

/-- Columns compared one by one have the two lengths all together, as stacking them asks. -/
theorem NewestEq.forall₂_lengths {α : Type} {ps qs : List (List α)}
    (h : List.Forall₂ (NewestEq d m n) ps qs) :
    (∀ p ∈ ps, p.length = d + n) ∧ ∀ q ∈ qs, q.length = n := by
  induction h with
  | nil => exact ⟨List.forall_mem_nil _, List.forall_mem_nil _⟩
  | cons h _ ih =>
    exact ⟨List.forall_mem_cons.mpr ⟨h.left, ih.1⟩, List.forall_mem_cons.mpr ⟨h.right, ih.2⟩⟩

/-- **The positions of several factors forget, but for conviction.** Conviction ranks a bar among
all earlier ones of the series, older bars included; where it does not decide, the signs of the
bar do. -/
theorem combinePositions_newest {ps qs : List (List Position)} {ss ts : List (List F)}
    (conjunction : String) (hp : List.Forall₂ (NewestEq d m n) ps qs)
    (hs : List.Forall₂ (NewestEq d m n) ss ts) (htwo : 2 ≤ ps.length)
    (hlen : ss.length = ps.length) :
    Alike True (CombinedNewest d m n (contestedAt conjunction ps))
      (combinePositions ps conjunction (some ss)) (combinePositions qs conjunction (some ts)) := by
  obtain ⟨hps, hqs⟩ := NewestEq.forall₂_lengths hp
  obtain ⟨hss, hts⟩ := NewestEq.forall₂_lengths hs
  have hq : 2 ≤ qs.length := hp.length_eq ▸ htwo
  have ht : ts.length = qs.length := hs.length_eq.symm.trans (hlen.trans hp.length_eq)
  rw [combinePositions_eq conjunction hps hss htwo hlen,
    combinePositions_eq conjunction hqs hts hq ht]
  cases hconj : Conjunction.ofString conjunction with
  | error e => exact .errors
  | ok conj =>
    refine .ok ⟨?_, ?_, fun i hi hclear => ?_, fun i hi hnone => ?_⟩
    · rw [List.length_map, List.length_range]
    · rw [List.length_map, List.length_range]
    · rw [getElem?_range_map, getElem?_range_map]
      refine if_congr (by omega) (congrArg some ?_) rfl
      have hrow : conj.contested (rowSigns ps (d + i)) = false := by
        simpa only [contestedAt, hconj, htwo, decide_true, Bool.true_and] using hclear
      rw [rowSigns_newest hp hi]
      exact combineRow_of_uncontested hrow _ _
    · rw [getElem?_range_map] at hnone ⊢
      by_cases hlt : i < n
      · rw [if_pos (by omega)] at hnone
        have hlong : (rowSigns ps (d + i)).length = ps.length := rowSigns_length hps (by omega)
        -- a row that has no position has a factor without one
        have hunknown : ¬ ∀ s ∈ rowSigns ps (d + i), s ≠ none := fun hknown =>
          combineRow_known hknown (hlong ▸ htwo) _ (Option.some.inj hnone)
        have hany : (rowSigns ps (d + i)).any (· = none) = true := by
          simpa using hunknown
        rw [if_pos hlt, rowSigns_newest hp hi]
        simp only [combineRow, hany, if_true]
      · rw [if_neg (by omega)] at hnone
        cases hnone

/-! ## The series of a factor -/

/-- A history without gaps: each bar of the traded product is there once, and the
series that the factors are read from have the same bars, with a value in each. -/
structure GapFree (data : DataDict L F) (config : StrategyConfig F) (main : Frame L F) :
    Prop where
  /-- Each bar of the traded product is there once. -/
  nodup : main.index.Nodup
  /-- Every factor's product has the same bars. -/
  bars : ∀ sub ∈ config.getSubstrategies, ∀ f,
    data.lookup (FactorFrames.subCusip config sub) = some f → f.index = main.index
  /-- In each of the columns that are read, every bar has a value. -/
  values : ∀ sub ∈ config.getSubstrategies, ∀ f c,
    data.lookup (FactorFrames.subCusip config sub) = some f →
      f.columns.lookup sub.dataColumn = some c → ∀ x ∈ c.1, observed x = true
  /-- The traded price has a value in every bar too. -/
  price : ∀ c, main.columns.lookup "factor" = some c → ∀ x ∈ c.1, observed x = true

/-- The frames of a strategy, and those of its newest bars. -/
structure FramesNewest (d n : ℕ) (ff ff' : FactorFrames L F) : Prop where
  /-- One strategy. -/
  config : ff'.config = ff.config
  /-- The traded product has `d` bars more in the history. -/
  length : ff.main.index.length = d + n
  /-- Its frame is cut to the newest. -/
  main : FrameNewest d ff.main ff'.main
  /-- So is the frame of every factor's product. -/
  all : ∀ sub ∈ ff.config.getSubstrategies,
    Option.Rel (FrameNewest d) (ff.all.lookup (FactorFrames.subCusip ff.config sub))
      (ff'.all.lookup (FactorFrames.subCusip ff.config sub))

/-- An index covers itself. -/
theorem FactorFrames.coverage_self (index : List L) : minCoverage ≤ coverage index index := by
  have hnone : index.dedup.filter (fun l => l ∉ index) = [] :=
    List.filter_eq_nil_iff.mpr fun l hl => by simpa using List.mem_dedup.mp hl
  have hfull : coverage index index = 1 := by
    simp only [coverage, hnone]
    split
    · rfl
    · simp
  rw [hfull]
  norm_num [minCoverage]

omit [NpFloat F] in
/-- A product with all the bars of the traded one covers it. -/
theorem checkCoverage_of_index {ff : FactorFrames L F} {f : Frame L F}
    (h : f.index = ff.main.index) (cusip : String) : ff.checkCoverage f cusip = .ok () :=
  FactorFrames.checkCoverage_eq_ok.mpr fun _ => h ▸ FactorFrames.coverage_self f.index

namespace FramesNewest

variable {ff ff' : FactorFrames L F}

/-- A factor's series is cut with its frame, and has a value in every bar, as its bars are those
of the traded product. -/
theorem factor (h : FramesNewest d n ff ff') (hgap : GapFree ff.all ff.config ff.main)
    {sub : SubStrategy F} (hmem : sub ∈ ff.config.getSubstrategies) :
    Alike True (fun c c' => c'.1 = c.1.drop d ∧ ∀ x ∈ c.1, observed x = true)
      (ff.factor sub) (ff'.factor sub) := by
  rw [FactorFrames.factor, FactorFrames.factor, h.config]
  refine (get_alike (h.all sub hmem)).bind fun f g hrel => ?_
  obtain ⟨hlook, hfg⟩ := hrel
  have hf : f.index = ff.main.index := hgap.bars sub hmem f hlook
  have hg : g.index = ff'.main.index := by rw [hfg.index, hf, h.main.index]
  rw [checkCoverage_of_index hf, checkCoverage_of_index hg]
  refine Alike.bind (R := fun s t : Series L F => s.index = f.index ∧ t.index = g.index ∧
    t.values = s.values.drop d ∧ ∀ x ∈ s.values, observed x = true)
    ((hfg.column (hf ▸ h.length) sub.dataColumn).bind fun c c' hcc =>
      .ok ⟨rfl, rfl, hcc.2.2.agrees.symm, hgap.values sub hmem f c hlook hcc.1⟩)
    fun s t hrel => ?_
  obtain ⟨hs, ht, hst, hobs⟩ := hrel
  rw [Series.reindex_self (hs.trans hf), Series.reindex_self (ht.trans hg)]
  exact .ok ⟨hst, hobs⟩

/-- The frame of a single factor is cut with the traded product's, and the factor in it has no
gap. -/
theorem singleFactorFrame (h : FramesNewest d n ff ff')
    (hgap : GapFree ff.all ff.config ff.main) :
    Alike True (fun f g => FrameNewest d f g ∧ f.index = ff.main.index ∧ g.index = ff'.main.index ∧
        ∀ c, f.columns.lookup "factor" = some c → ∀ x ∈ c.1, observed x = true)
      ff.singleFactorFrame ff'.singleFactorFrame := by
  rw [FactorFrames.singleFactorFrame, FactorFrames.singleFactorFrame, h.config]
  cases hitem : item ff.config.getSubstrategies 0 with
  | error e => exact .errors
  | ok sub =>
    have hmem : sub ∈ ff.config.getSubstrategies :=
      List.mem_of_getElem? (item_eq_ok.mp hitem)
    show Alike True _ (if _ then _ else _) (if _ then _ else _)
    rw [h.main.hasColumn]
    split
    · refine (h.factor hgap hmem).bind fun c c' hrel =>
        .ok ⟨h.main.set "factor" hrel.1, rfl, rfl, fun c₁ hc₁ => ?_⟩
      have hset : (Frame.assign "factor" c ff.main.columns).lookup "factor" = some c₁ := hc₁
      rw [Frame.lookup_assign, if_pos rfl] at hset
      exact Option.some.inj hset ▸ hrel.2
    · exact .ok ⟨h.main, rfl, rfl, hgap.price⟩

end FramesNewest

/-! ## Runs -/

namespace Performance

/-- The indicators of a strategy, each with its window. -/
def indicators (p : Performance L F) : List (String × ℤ) :=
  if p.isMulti then (p.subs.map (·.indicatorName)).zip p.windows
  else (p.windows.take 1).map (p.config.indicatorName, ·)

/-- The indicators of a strategy have finite memory. -/
def FiniteMemory (p : Performance L F) : Prop :=
  ∀ e ∈ p.indicators, e.1 ∈ TechnicalAnalysis.finiteMemory

/-- How many bars a strategy takes to warm up. -/
def warmUp (p : Performance L F) : ℕ :=
  (p.indicators.map fun e => TechnicalAnalysis.warmUp e.1 e.2).foldr Max.max 0

/-- The frame that an indicator of a strategy is computed on. -/
def reading (p : Performance L F) (i : ℕ) : Except PyError (Frame L F) :=
  if p.isMulti then do
    let sub ← item p.subs i
    let factorVals ← p.frames.factor sub
    return .single "factor" p.frames.main.index factorVals
  else p.frames.singleFactorFrame

/-- The running sums of a strategy's indicators carry nothing from the bars of a
history into those windows that lie within its newest bars, the frames of which are
`ff`. In exact arithmetic that is always so (`RunsAlike.of_exact`). -/
def RunsAlike (p : Performance L F) (d : ℕ) (ff : FactorFrames L F) : Prop :=
  ∀ (i : ℕ) (e : String × ℤ) (f g : Frame L F), p.indicators[i]? = some e →
    p.reading i = .ok f → (p.withFrames ff).reading i = .ok g →
      TechnicalAnalysis.RunsAlike d e.1 e.2 f g

/-- Whether conviction decides the position of a bar. -/
def contested (p : Performance L F) (outputs : List (FactorOutput F)) (i : ℕ) : Bool :=
  contestedAt p.config.conjunction (outputs.map (·.position)) i

end Performance

/-- One factor's columns on a history and on its newest bars. -/
structure OutputNewest (d m n : ℕ) (out out' : FactorOutput F) : Prop where
  /-- The readings agree from row `m` on. -/
  indicator : NewestEq d m n out.indicator out'.indicator
  /-- So do the positions. -/
  position : NewestEq d m n out.position out'.position

/-- Positions follow from readings, row by row, and need no warm-up of their own. -/
theorem OutputNewest.of_indicator {xs ys : List F} (h : NewestEq d m n xs ys)
    (direction : SignalDirection) (signal : F) (c c' : List F) :
    OutputNewest d m n ⟨c, xs, direction.call xs signal⟩ ⟨c', ys, direction.call ys signal⟩ where
  indicator := h
  position := by
    obtain ⟨f, hf⟩ := direction.call_eq_map signal
    rw [hf, hf]
    exact h.map f

theorem item_alike {α : Type} (xs : List α) (i : ℕ) :
    Alike True (fun x x' => xs[i]? = some x ∧ x' = x) (item xs i) (item xs i) := by
  rw [item]
  split
  · next h => exact .ok ⟨h, rfl⟩
  · exact .errors

theorem le_foldr_max {xs : List ℕ} {x : ℕ} (h : x ∈ xs) : x ≤ xs.foldr Max.max 0 := by
  induction xs with
  | nil => cases h
  | cons y xs ih =>
    rcases List.mem_cons.mp h with rfl | h
    · exact le_max_left _ _
    · exact (ih h).trans (le_max_right _ _)

section

variable {p : Performance L F} {ff : FactorFrames L F}

omit [DecidableEq L] [NpFloat F] in
/-- The warm-up of a strategy is enough for each of its indicators. -/
theorem Performance.warmUp_le {e : String × ℤ} (h : e ∈ p.indicators) :
    TechnicalAnalysis.warmUp e.1 e.2 ≤ p.warmUp :=
  le_foldr_max (List.mem_map_of_mem h)

/-- **One factor**, after the warm-up of its indicator. -/
theorem singleFactorOutputs_newest (h : FramesNewest d n p.frames ff)
    (hgap : GapFree p.frames.all p.frames.config p.frames.main) (hsub : SubKnown F)
    (hfinite : p.FiniteMemory) (hruns : p.RunsAlike d ff) (hsingle : p.isMulti = false) :
    Alike True (OutputNewest d p.warmUp n) p.singleFactorOutputs
      (p.withFrames ff).singleFactorOutputs := by
  refine (h.singleFactorFrame hgap).ends.bind fun f g hrel => ?_
  obtain ⟨hleft, hright, hfg, hf, _, hobs⟩ := hrel
  have hone : ¬ p.isMulti = true := Bool.eq_false_iff.mp hsingle
  refine hfg.init.bind fun a b hrel => ?_
  obtain ⟨ha, hb⟩ := hrel
  rw [ha, hb]
  refine (hfg.column (hf ▸ h.length) "factor").bind fun c c' _ => ?_
  refine (item_alike p.windows 0).bind fun w w' hrel => ?_
  obtain ⟨hw, hw'⟩ := hrel
  rw [hw']
  have hfirst : p.indicators[0]? = some (p.config.indicatorName, w) := by
    rw [Performance.indicators, if_neg hone]
    obtain ⟨ws, hws⟩ : ∃ ws, p.windows = w :: ws := by
      cases hp : p.windows with
      | nil => rw [hp] at hw; cases hw
      | cons x ws => rw [hp] at hw; exact ⟨ws, by rw [Option.some.inj hw]⟩
    rw [hws]
    rfl
  have hmem : (p.config.indicatorName, w) ∈ p.indicators := List.mem_of_getElem? hfirst
  refine (TechnicalAnalysis.indicator_newest hfg (hf ▸ h.length) (hf ▸ hgap.nodup) hsub
    (hfinite _ hmem) w hobs (hruns 0 _ f g hfirst ((if_neg hone).trans hleft)
      ((if_neg hone).trans hright))).bind fun ind ind' hind => ?_
  refine (item_alike p.signals 0).bind fun s s' hrel => ?_
  obtain ⟨_, hs⟩ := hrel
  rw [hs]
  exact .ok (.of_indicator (hind.mono (Performance.warmUp_le hmem)) _ s _ _)

/-- One factor among several, after the warm-up of the slowest. -/
theorem factorOutput_newest (h : FramesNewest d n p.frames ff)
    (hgap : GapFree p.frames.all p.frames.config p.frames.main) (hsub : SubKnown F)
    (hfinite : p.FiniteMemory) (hruns : p.RunsAlike d ff) (hmulti : p.isMulti = true) {i : ℕ}
    {sub : SubStrategy F} (hi : p.subs[i]? = some sub)
    (hmem : sub ∈ p.frames.config.getSubstrategies) :
    Alike True (OutputNewest d p.warmUp n) (p.factorOutput i sub)
      ((p.withFrames ff).factorOutput i sub) := by
  refine (h.factor hgap hmem).ends.bind fun c c' hrel => ?_
  obtain ⟨hleft, hright, hcc, hobs⟩ := hrel
  refine (item_alike p.windows i).bind fun w w' hrel => ?_
  obtain ⟨hw, hw'⟩ := hrel
  refine (item_alike p.signals i).bind fun s s' hrel => ?_
  obtain ⟨_, hs⟩ := hrel
  rw [hw', hs]
  have hat : p.indicators[i]? = some (sub.indicatorName, w) := by
    rw [Performance.indicators, if_pos hmulti, List.getElem?_zip_eq_some, List.getElem?_map, hi]
    exact ⟨rfl, hw⟩
  have hind : (sub.indicatorName, w) ∈ p.indicators := List.mem_of_getElem? hat
  have hframe : p.reading i = .ok (.single "factor" p.frames.main.index c) :=
    (if_pos hmulti).trans
      (Result.bind_eq_ok.mpr ⟨sub, item_eq_ok.mpr hi, Result.bind_eq_ok.mpr ⟨c, hleft, rfl⟩⟩)
  have hframe' : (p.withFrames ff).reading i = .ok (.single "factor" ff.main.index c') :=
    (if_pos hmulti).trans
      (Result.bind_eq_ok.mpr ⟨sub, item_eq_ok.mpr hi, Result.bind_eq_ok.mpr ⟨c', hright, rfl⟩⟩)
  have hone : FrameNewest d (Frame.single "factor" p.frames.main.index c)
      (Frame.single "factor" ff.main.index c') := .single "factor" h.main.index hcc
  refine hone.init.bind fun a b hrel => ?_
  obtain ⟨ha, hb⟩ := hrel
  rw [ha, hb]
  refine (TechnicalAnalysis.indicator_newest hone h.length hgap.nodup hsub (hfinite _ hind) w
    (fun c₁ hc₁ => ?_) (hruns i _ _ _ hat hframe hframe')).bind fun ind ind' hnew => ?_
  · obtain rfl : c = c₁ := Option.some.inj hc₁
    exact hobs
  · refine (Alike.refl (fun _ => rfl) sub.resolveSignalFunc).bind fun func func' hfunc => ?_
    cases hfunc
    exact .ok (.of_indicator (hnew.mono (Performance.warmUp_le hind)) func s _ _)

/-- **Several factors.** Their rows agree after that warm-up, and the positions combined from them
do but where conviction decides. -/
theorem multiFactorOutputs_newest (h : FramesNewest d n p.frames ff)
    (hgap : GapFree p.frames.all p.frames.config p.frames.main) (hsub : SubKnown F)
    (hfinite : p.FiniteMemory) (hruns : p.RunsAlike d ff) (hmulti : p.isMulti = true)
    (hsubs : p.subs = p.frames.config.getSubstrategies) :
    Alike True (fun r r' => CombinedNewest d p.warmUp n (p.contested r.1) r.2 r'.2)
      p.multiFactorOutputs (p.withFrames ff).multiFactorOutputs := by
  refine h.main.init.bind fun _ _ _ => ?_
  have hloop : Alike True (List.Forall₂ (OutputNewest d p.warmUp n))
      (p.subs.zipIdx.mapM fun s => p.factorOutput s.2 s.1)
      (p.subs.zipIdx.mapM fun s => (p.withFrames ff).factorOutput s.2 s.1) := by
    refine Alike.mapM (P := fun s s' => s ∈ p.subs.zipIdx ∧ s' = s)
      (List.forall₂_same.mpr fun s hs => ⟨hs, rfl⟩) fun s s' hrel => ?_
    obtain ⟨hs, hss⟩ := hrel
    rw [hss]
    obtain ⟨sub, i⟩ := s
    have hi : p.subs[i]? = some sub := List.mem_zipIdx_iff_getElem?.mp hs
    exact factorOutput_newest h hgap hsub hfinite hruns hmulti hi
      (hsubs ▸ List.mem_of_getElem? hi)
  refine hloop.ends.bind fun outs outs' hrel => ?_
  obtain ⟨houts, _, hnew⟩ := hrel
  have htwo : 2 ≤ outs.length := by
    have hlen := (Result.mapM_eq_ok.mp houts).length_eq
    rw [List.length_zipIdx] at hlen
    rw [← hlen]
    exact of_decide_eq_true hmulti
  have hcombined : Alike True (CombinedNewest d p.warmUp n (p.contested outs))
      (combinePositions (outs.map (·.position)) p.config.conjunction
        (some (outs.map (·.indicator))))
      (combinePositions (outs'.map (·.position)) p.config.conjunction
        (some (outs'.map (·.indicator)))) := by
    refine combinePositions_newest p.config.conjunction ?_ ?_ ?_ ?_
    · exact List.forall₂_map_left_iff.mpr
        (List.forall₂_map_right_iff.mpr (hnew.imp fun _ _ h => h.position))
    · exact List.forall₂_map_left_iff.mpr
        (List.forall₂_map_right_iff.mpr (hnew.imp fun _ _ h => h.indicator))
    · rw [List.length_map]
      exact htwo
    · rw [List.length_map, List.length_map]
  exact hcombined.bind fun r r' hr => .ok hr

/-- **A strategy of finite memory forgets**: once it has warmed up, it has its
positions on the newest bars alone, but for those that conviction decides, if the
running sums of its indicators carry nothing into those bars. -/
theorem factorOutputs_newest (h : FramesNewest d n p.frames ff)
    (hgap : GapFree p.frames.all p.frames.config p.frames.main) (hsub : SubKnown F)
    (hfinite : p.FiniteMemory) (hruns : p.RunsAlike d ff)
    (hsubs : p.subs = p.frames.config.getSubstrategies) :
    Alike True (fun r r' => CombinedNewest d p.warmUp n (p.contested r.1) r.2 r'.2)
      p.factorOutputs (p.withFrames ff).factorOutputs := by
  show Alike True _ (if p.isMulti then _ else _) (if p.isMulti then _ else _)
  split
  · next hmulti => exact multiFactorOutputs_newest h hgap hsub hfinite hruns hmulti hsubs
  · next hsingle =>
    refine (singleFactorOutputs_newest h hgap hsub hfinite hruns
      (Bool.eq_false_iff.mpr hsingle)).bind fun out out' hout => .ok ?_
    exact ⟨hout.position.left, hout.position.right, fun i hi _ => hout.position.getElem?_eq hi,
      fun i hi hnone => (hout.position.getElem?_eq hi).trans hnone⟩

end

/-! ## The last position -/

/-- The last known position of a column. -/
structure LastKnown (xs : List Position) (j : ℕ) (s : SignType) : Prop where
  /-- It is known there. -/
  here : xs[j]? = some (some s)
  /-- And nowhere after. -/
  after : ∀ i, j < i → ∀ s', xs[i]? ≠ some (some s')

/-- The last value that a list has. -/
theorem getLast?_filterMap_iff {α β : Type} {f : α → Option β} {xs : List α} {b : β} :
    (xs.filterMap f).getLast? = some b ↔ ∃ (j : ℕ) (x : α), xs[j]? = some x ∧ f x = some b ∧
      ∀ (i : ℕ) (y : α), j < i → xs[i]? = some y → f y = none := by
  rw [List.getLast?_filterMap, List.findSome?_eq_some_iff]
  constructor
  · rintro ⟨later, x, earlier, hxs, hx, hnone⟩
    have hsplit : xs = earlier.reverse ++ x :: later.reverse := by
      rw [← List.reverse_reverse xs, hxs, List.reverse_append, List.reverse_cons,
        List.append_assoc]
      rfl
    have hlen : earlier.reverse.length = earlier.length := List.length_reverse
    refine ⟨earlier.length, x, ?_, hx, fun i y hi hy => hnone y ?_⟩
    · rw [hsplit, List.getElem?_append_right hlen.le, hlen, Nat.sub_self]
      rfl
    · obtain ⟨k, rfl⟩ := Nat.exists_eq_add_of_lt hi
      rw [hsplit, List.getElem?_append_right (hlen.trans_le hi.le), hlen, Nat.add_assoc,
        Nat.add_sub_cancel_left, List.getElem?_cons_succ] at hy
      exact List.mem_reverse.mp (List.mem_of_getElem? hy)
  · rintro ⟨j, x, hj, hx, hafter⟩
    obtain ⟨hlt, rfl⟩ := List.getElem?_eq_some_iff.mp hj
    refine ⟨(xs.drop (j + 1)).reverse, xs[j], (xs.take j).reverse, ?_, hx, fun y hy => ?_⟩
    · conv_lhs => rw [← List.take_append_drop j xs, List.drop_eq_getElem_cons hlt]
      rw [List.reverse_append, List.reverse_cons, List.append_assoc]
      rfl
    · obtain ⟨k, hk⟩ := List.mem_iff_getElem?.mp (List.mem_reverse.mp hy)
      rw [List.getElem?_drop] at hk
      exact hafter (j + 1 + k) y (by omega) hk

/-- A bar, and the position that is known on it. -/
def KnownAt (index : List L) (finalPosition : List Position) (i : ℕ) (s : SignType) (l : L) :
    Prop := index[i]? = some l ∧ finalPosition[i]? = some (some s)

omit [DecidableEq L] in
/-- The last position is that of the newest bar on which one is known. -/
theorem latestFinalPosition_eq_ok {index : List L} {xs : List Position} {s : SignType} {l : L} :
    latestFinalPosition index xs = .ok (s, l) ↔
      ∃ j, KnownAt index xs j s l ∧ ∀ i s' l', j < i → ¬ KnownAt index xs i s' l' := by
  have hzip {i : ℕ} {r : L × Position} : (index.zip xs)[i]? = some r ↔
      index[i]? = some r.1 ∧ xs[i]? = some r.2 := List.getElem?_zip_eq_some
  have hlast : latestFinalPosition index xs = .ok (s, l) ↔
      ((index.zip xs).filterMap fun r => r.2.map (·, r.1)).getLast? = some (s, l) := by
    unfold latestFinalPosition
    split
    · next r hr => rw [hr, Option.some_inj, Except.ok.injEq]
    · next hr => rw [hr]; exact iff_of_false nofun nofun
  rw [hlast, getLast?_filterMap_iff]
  constructor
  · rintro ⟨j, ⟨l', x⟩, hj, hx, hafter⟩
    obtain ⟨hl, hs⟩ := hzip.mp hj
    obtain ⟨s', rfl, heq⟩ := Option.map_eq_some_iff.mp hx
    cases heq
    refine ⟨j, ⟨hl, hs⟩, fun i s' l' hi hknown => ?_⟩
    cases hafter i (l', some s') hi (hzip.mpr hknown)
  · rintro ⟨j, hj, hafter⟩
    refine ⟨j, (l, some s), hzip.mpr hj, rfl, fun i r hi hr => ?_⟩
    obtain ⟨l', x⟩ := r
    cases x with
    | none => rfl
    | some s' => exact absurd (hzip.mp hr) (hafter i s' l' hi)

omit [DecidableEq L] in
/-- The last known position, with the label of its bar, is what live trading takes. -/
theorem latestFinalPosition_eq {index : List L} {xs : List Position} {j : ℕ} {l : L}
    {s : SignType} (hl : index[j]? = some l) (h : LastKnown xs j s) :
    latestFinalPosition index xs = .ok (s, l) :=
  latestFinalPosition_eq_ok.mpr
    ⟨j, ⟨hl, h.here⟩, fun i s' _ hi hknown => h.after i hi s' hknown.2⟩

/-- A last known position that conviction does not decide is one on the newest rows
alone, if it is past the warm-up. -/
theorem CombinedNewest.lastKnown {contested : ℕ → Bool} {xs ys : List Position} {j : ℕ}
    {s : SignType} (h : CombinedNewest d m n contested xs ys) (hlast : LastKnown xs j s)
    (hrecent : d + m ≤ j) (hclear : contested j = false) : LastKnown ys (j - d) s where
  here := by
    have hj : d + (j - d) = j := Nat.add_sub_cancel' (by omega)
    rw [h.same (j - d) (by omega) (by rw [hj]; exact hclear), hj]
    exact hlast.here
  after i hi s' hs' := by
    cases hx : xs[d + i]? with
    | none =>
      have hlong := List.getElem?_eq_none_iff.mp hx
      have hlt := (List.getElem?_eq_some_iff.mp hs').1
      rw [h.left] at hlong
      rw [h.right] at hlt
      omega
    | some x =>
      cases x with
      | none =>
        rw [h.known i (by omega) hx] at hs'
        cases hs'
      | some s'' => exact hlast.after (d + i) (by omega) s'' hx

/-! ## Live and backtest -/

omit [DecidableEq L] in
/-- Keeping the newest `n` bars of every frame of a history without gaps makes the frames that are
compared. -/
theorem framesNewest_newest {data : DataDict L F} {config : StrategyConfig F} {main : Frame L F}
    (hgap : GapFree data config main) (hn : n ≤ main.index.length) :
    FramesNewest (main.index.length - n) n ⟨data, config, main⟩
      ⟨data.newest n, config, main.newest n⟩ where
  config := rfl
  length := (Nat.sub_add_cancel hn).symm
  main := frameNewest_newest n main
  all sub hmem := by
    have hlook : (data.newest n).lookup (FactorFrames.subCusip config sub)
        = (data.lookup (FactorFrames.subCusip config sub)).map (·.newest n) :=
      lookup_map_snd _ _ _
    show Option.Rel _ (data.lookup _) ((data.newest n).lookup _)
    rw [hlook]
    cases hf : data.lookup (FactorFrames.subCusip config sub) with
    | none => exact .none
    | some f =>
      have hbars : f.index = main.index := hgap.bars sub hmem f hf
      exact .some (hbars ▸ frameNewest_newest n f)

/-- The engines on a history and on its newest bars are the same but for the frames,
and for what no position depends on. -/
theorem init_newest {data data' : DataDict L F} {config : StrategyConfig F} {main main' : Frame L F}
    (hget : data.get config.internalCusip = .ok main)
    (hget' : data'.get config.internalCusip = .ok main') (window : Option (Arg ℤ))
    (signal : Option (Arg F)) (feeBps feeBps' : Option F) (minMetricObs minMetricObs' : ℤ) :
    Alike True (fun p p' : Performance L F => p.frames = ⟨data, config, main⟩ ∧
        p.subs = config.getSubstrategies ∧ p'.frames = ⟨data', config, main'⟩ ∧
        p'.factorOutputs = (p.withFrames ⟨data', config, main'⟩).factorOutputs)
      (Performance.init data config window signal feeBps minMetricObs)
      (Performance.init data' config window signal feeBps' minMetricObs') := by
  rw [Performance.init, Performance.init, FactorFrames.init, FactorFrames.init, hget, hget']
  refine (Alike.refl (fun _ => rfl) (Performance.params config.getSubstrategies window signal)).bind
    fun q q' hq => ?_
  obtain ⟨ws, ss⟩ := q
  cases hq
  refine (Alike.refl (fun _ => rfl) (pyMax ws)).bind fun m m' hm => ?_
  cases hm
  exact .ok ⟨rfl, rfl, rfl, rfl⟩

/-- **Live equals backtest.** For a strategy whose indicators have finite memory, on a
history without gaps that is longer than the lookback: if the last known position of
the history is on one of the newest bars, past the warm-up, and conviction does not
decide it, then it is the position that live trading computes on the newest bars
alone, as long as no running sum of an indicator carries a rounding into them. -/
theorem live_eq_backtest {data : DataDict L F} {config : StrategyConfig F} {main : Frame L F}
    {window : Arg ℤ} {signal : Arg F} {feeBps : Option F} {minMetricObs minMetricObs' lookback : ℤ}
    {p : Performance L F} {outputs : List (FactorOutput F)} {finalPosition : List Position}
    {j : ℕ} {s : SignType}
    (hlookback : liveLookbackBars window = .ok lookback)
    (hmain : data.get config.internalCusip = .ok main)
    (hbacktest : Performance.init data config (some window) (some signal) feeBps minMetricObs
      = .ok p)
    (houtputs : p.factorOutputs = .ok (outputs, finalPosition))
    (hfinite : p.FiniteMemory) (hgap : GapFree data config main) (hsub : SubKnown F)
    (hruns : p.RunsAlike (main.index.length - lookback.toNat)
      ⟨data.newest lookback.toNat, config, main.newest lookback.toNat⟩)
    (hlong : lookback < main.index.length) (hlast : LastKnown finalPosition j s)
    (hrecent : main.index.length - lookback.toNat + p.warmUp ≤ j)
    (hclear : p.contested outputs j = false) :
    liveLatestPosition data config window signal minMetricObs' = p.computeLatestPosition := by
  have hn : lookback.toNat ≤ main.index.length := by omega
  have hmain' : (data.newest lookback.toNat).get config.internalCusip
      = .ok (main.newest lookback.toNat) := by
    have hlook : (data.newest lookback.toNat).lookup config.internalCusip
        = (data.lookup config.internalCusip).map (·.newest lookback.toNat) := lookup_map_snd _ _ _
    rw [DataDict.get_eq_ok] at hmain ⊢
    rw [hlook, hmain, Option.map_some]
  have hinit := init_newest hmain hmain' (some window) (some signal) feeBps none minMetricObs
    minMetricObs'
  rw [hbacktest] at hinit
  have hlive : liveLatestPosition data config window signal minMetricObs' =
      Performance.init (data.newest lookback.toNat) config (some window) (some signal) none
        minMetricObs' >>= Performance.computeLatestPosition := by
    rw [liveLatestPosition, hlookback]
    rfl
  rw [hlive]
  generalize Performance.init (data.newest lookback.toNat) config (some window) (some signal) none
    minMetricObs' = init' at hinit
  cases hinit with
  | right h => exact absurd trivial h
  | @ok _ p' hp =>
    obtain ⟨hf, hsubs, hf', hout⟩ := hp
    have hrun := factorOutputs_newest (p := p) (hf ▸ framesNewest_newest hgap hn) (hf ▸ hgap) hsub
      hfinite hruns (hf ▸ hsubs)
    rw [houtputs] at hrun
    show (p'.factorOutputs >>= fun r => latestFinalPosition p'.frames.main.index r.2) =
      (p.factorOutputs >>= fun r => latestFinalPosition p.frames.main.index r.2)
    rw [hout, houtputs, hf, hf']
    generalize (p.withFrames _).factorOutputs = live at hrun ⊢
    cases hrun with
    | right h => exact absurd trivial h
    | @ok _ r' hnew =>
      show latestFinalPosition (main.index.drop (main.index.length - lookback.toNat)) r'.2 =
        latestFinalPosition main.index finalPosition
      have hj : j < main.index.length := by
        have hlt := (List.getElem?_eq_some_iff.mp hlast.here).1
        have hlen : finalPosition.length = _ := hnew.left
        omega
      have hl : main.index[j]? = some main.index[j] := List.getElem?_eq_getElem hj
      rw [latestFinalPosition_eq hl hlast,
        latestFinalPosition_eq _ (hnew.lastKnown hlast hrecent hclear)]
      rw [List.getElem?_drop, Nat.add_sub_cancel' (by omega)]
      exact hl

namespace Live

/-- A column of 64 bars, the oldest and the newest apart. -/
def spread (oldest middle last : ℚ) : List ExtRat :=
  .fin oldest :: (List.replicate 62 (.fin middle) ++ [.fin last])

/-- Two series of 64 bars. -/
def frame (a b : List ExtRat) (ha : a.length = 64) (hb : b.length = 64) : Frame ℕ ExtRat :=
  ⟨List.range 64, [("factor", ⟨a, ha⟩), ("v", ⟨b, hb⟩)]⟩

/-- A product with them. -/
def history (a b : List ExtRat) (ha : a.length = 64) (hb : b.length = 64) :
    DataDict ℕ ExtRat :=
  [("btcusdt.crypto", frame a b ha hb)]

/-- Both series, each above or below zero. Windows of one bar ask for 63 bars. -/
def twoFactors : StrategyConfig ExtRat where
  internalCusip := "btcusdt.crypto"
  indicatorName := "get_sma"
  signalFunc := .momentumBandSignal
  tradingPeriod := 365
  substrategies :=
    [{ indicatorName := "get_sma", signalFuncName := "momentum_band_signal", window := 1,
       signal := .fin 0, dataColumn := "factor" },
     { indicatorName := "get_sma", signalFuncName := "momentum_band_signal", window := 1,
       signal := .fin 0, dataColumn := "v" }]

/-- A history of two full columns has no gap. -/
theorem gapFree {a b : List ExtRat} {ha : a.length = 64} {hb : b.length = 64}
    (hobs : ∀ x ∈ a, observed x = true) (hobs' : ∀ x ∈ b, observed x = true) :
    GapFree (history a b ha hb) twoFactors (frame a b ha hb) where
  nodup := List.nodup_range
  bars sub hmem f hf := by
    rcases List.mem_pair.mp hmem with rfl | rfl
    · exact Option.some.inj hf ▸ rfl
    · exact Option.some.inj hf ▸ rfl
  values sub hmem f c hf hc := by
    rcases List.mem_pair.mp hmem with rfl | rfl
    · obtain rfl := Option.some.inj hf
      exact Option.some.inj hc ▸ hobs
    · obtain rfl := Option.some.inj hf
      exact Option.some.inj hc ▸ hobs'
  price c hc := Option.some.inj hc ▸ hobs

/-- The position that a backtest ends with. -/
def backtestPosition (data : DataDict ℕ F) (config : StrategyConfig F) (window : ℤ)
    (signal : F) : Except PyError (SignType × ℕ) := do
  let p ← Performance.init data config (some (.one window)) (some (.one signal)) none 0
  p.computeLatestPosition

/-- A price that moves on its second bar, and rests for the 66 that a window of two
asks for. -/
def resting : DataDict ℕ ExtRat :=
  [("btcusdt.crypto", ⟨List.range 68, [("factor", ⟨.fin 1 :: List.replicate 67 (.fin 2), rfl⟩)]⟩)]

/-- A Bollinger band of the price. -/
def band : StrategyConfig ExtRat where
  internalCusip := "btcusdt.crypto"
  indicatorName := "get_bollinger_band"
  signalFunc := .momentumBandSignal
  tradingPeriod := 365

/-- A price of one tenth, then of three tenths, and of one and two fifths in the end, in
doubles. Windows of two bars ask for all of its bars but the first. -/
def tenths : DataDict ℕ Float64 :=
  [("btcusdt.crypto", ⟨List.range 67, [("factor", ⟨.ofRat (1 / 10) ::
    (List.replicate 64 (.ofRat (3 / 10)) ++ [.ofRat (1 / 5), .ofRat (2 / 5)]), rfl⟩)]⟩)]

/-- A moving average of the price. -/
def average : StrategyConfig Float64 where
  internalCusip := "btcusdt.crypto"
  indicatorName := "get_sma"
  signalFunc := .momentumBandSignal
  tradingPeriod := 365

end Live

/-- In the numbers of the examples, a difference of two values is a value. -/
theorem subKnown_extRat : SubKnown ExtRat := by
  rintro (_ | _ | _ | p) (_ | _ | _ | q) hx hy
  all_goals first | rfl | exact absurd hx (by decide) | exact absurd hy (by decide)

/-- Without a conflict on the last bar, live equals backtest. -/
theorem live_eq_backtest_rising :
    ∃ p, Performance.init (Live.history (Live.spread 2 2 1) (Live.spread 3 3 3) rfl rfl)
        Live.twoFactors (some (.one 1)) (some (.one (.fin 0))) none 0 = .ok p ∧
      liveLatestPosition (Live.history (Live.spread 2 2 1) (Live.spread 3 3 3) rfl rfl)
        Live.twoFactors (.one 1) (.one (.fin 0)) 0 = p.computeLatestPosition := by
  have hstrategy : (Performance.init (Live.history (Live.spread 2 2 1) (Live.spread 3 3 3) rfl rfl)
      Live.twoFactors (some (.one 1)) (some (.one (.fin 0))) none 0).toOption.map (fun p =>
        (p.indicators, p.warmUp)) = some ([("get_sma", 1), ("get_sma", 1)], 0) := by
    decide +kernel
  have hrun : ((Performance.init (Live.history (Live.spread 2 2 1) (Live.spread 3 3 3) rfl rfl)
      Live.twoFactors (some (.one 1)) (some (.one (.fin 0))) none 0).toOption.bind fun p =>
        p.factorOutputs.toOption.map fun r => (p.contested r.1 63, r.2[63]?, r.2.length)) =
      some (false, some (some 1), 64) := by
    decide +kernel
  cases hp : Performance.init (Live.history (Live.spread 2 2 1) (Live.spread 3 3 3) rfl rfl)
      Live.twoFactors (some (.one 1)) (some (.one (.fin 0))) none 0 with
  | error e =>
    rw [hp] at hrun
    cases hrun
  | ok p =>
    rw [hp] at hrun hstrategy
    obtain ⟨hind, hwarm⟩ := Prod.mk.inj (Option.some.inj hstrategy)
    cases hr : p.factorOutputs with
    | error e =>
      change p.factorOutputs.toOption.map _ = _ at hrun
      rw [hr] at hrun
      cases hrun
    | ok r =>
      change p.factorOutputs.toOption.map _ = _ at hrun
      rw [hr] at hrun
      obtain ⟨hclear, hrun⟩ := Prod.mk.inj (Option.some.inj hrun)
      obtain ⟨hlast, hlen⟩ := Prod.mk.inj hrun
      refine ⟨p, rfl, live_eq_backtest (j := 63) (s := 1) rfl rfl hp hr ?_
        (Live.gapFree (by decide +kernel) (by decide +kernel)) subKnown_extRat
        (fun _ _ _ _ _ _ _ => .of_exact _ _ _ _ _) (by decide)
        ⟨hlast, fun i hi s' hs' => ?_⟩ ?_ hclear⟩
      · rw [Performance.FiniteMemory, hind]
        decide
      · have hlt := (List.getElem?_eq_some_iff.mp hs').1
        omega
      · rw [hwarm]
        decide

/-- **What the newest bars do not tell.** A conflict on the last bar, which the oldest
bar decides, is decided the other way without it. A position that was last known before
the newest bars is not found at all. And an average of doubles that is no more than its
level on the whole history is more than it on the newest bars, where its running sum has
not met the oldest one. -/
theorem live_differs_from_backtest :
    (GapFree (Live.history (Live.spread 2 2 1) (Live.spread (-1) (-3) (-2)) rfl rfl) Live.twoFactors
        (Live.frame (Live.spread 2 2 1) (Live.spread (-1) (-3) (-2)) rfl rfl) ∧
      Live.backtestPosition (Live.history (Live.spread 2 2 1) (Live.spread (-1) (-3) (-2)) rfl rfl)
        Live.twoFactors 1 (.fin 0) = .ok (1, 63) ∧
      liveLatestPosition (Live.history (Live.spread 2 2 1) (Live.spread (-1) (-3) (-2)) rfl rfl)
        Live.twoFactors (.one 1) (.one (.fin 0)) 0 = .ok (-1, 63)) ∧
    (Live.backtestPosition Live.resting Live.band 2 (.fin 0) = .ok (1, 1) ∧
      liveLatestPosition Live.resting Live.band (.one 2) (.one (.fin 0)) 0 =
        .error (.valueError "insufficient data to compute signal")) ∧
    Live.backtestPosition Live.tenths Live.average 2 (.ofRat (3 / 10)) = .ok (0, 66) ∧
    liveLatestPosition Live.tenths Live.average (.one 2) (.one (.ofRat (3 / 10))) 0 =
      .ok (1, 66) :=
  ⟨⟨Live.gapFree (by decide +kernel) (by decide +kernel), by decide +kernel, by decide +kernel⟩,
    ⟨by decide +kernel, by decide +kernel⟩, by decide +kernel, by decide +kernel⟩

/-! ## The bar of a live position -/

namespace Performance

/-- A live position is the one on the newest bar. -/
def OfNewestBar (p : Performance L F) : Prop :=
  ∀ s l, p.computeLatestPosition = .ok (s, l) → p.frames.main.index.getLast? = some l ∧
    ∃ outputs finalPosition, p.factorOutputs = .ok (outputs, finalPosition) ∧
      KnownAt p.frames.main.index finalPosition (p.frames.main.index.length - 1) s l

/-- The live position of an engine is read off its outputs and nothing else. -/
theorem computeLatestPosition_eq_ok {p : Performance L F} {r : SignType × L} :
    p.computeLatestPosition = .ok r ↔ ∃ outputs finalPosition,
      p.factorOutputs = .ok (outputs, finalPosition) ∧
        latestFinalPosition p.frames.main.index finalPosition = .ok r := by
  show (p.factorOutputs >>= fun o => latestFinalPosition p.frames.main.index o.2) = _ ↔ _
  cases p.factorOutputs with
  | error e => exact iff_of_false nofun fun ⟨_, _, h, _⟩ => by cases h
  | ok o =>
    constructor
    · exact fun h => ⟨o.1, o.2, rfl, h⟩
    · rintro ⟨outputs, finalPosition, h, hlast⟩
      cases h
      exact hlast

/-- **A live position is the one on the newest bar that has one**, and there is none
where no bar has one. -/
theorem ofNewestKnownBar (p : Performance L F) :
    (∀ s l, p.computeLatestPosition = .ok (s, l) → ∃ outputs finalPosition j,
      p.factorOutputs = .ok (outputs, finalPosition) ∧
        KnownAt p.frames.main.index finalPosition j s l ∧
        ∀ i s' l', j < i → ¬ KnownAt p.frames.main.index finalPosition i s' l') ∧
      ∀ outputs finalPosition, p.factorOutputs = .ok (outputs, finalPosition) →
        (∀ i s l, ¬ KnownAt p.frames.main.index finalPosition i s l) →
        p.computeLatestPosition = .error (.valueError "insufficient data to compute signal") := by
  refine ⟨fun s l h => ?_, fun outputs finalPosition h hnone => ?_⟩
  · obtain ⟨outputs, finalPosition, hout, hlast⟩ := computeLatestPosition_eq_ok.mp h
    obtain ⟨j, hj, hafter⟩ := latestFinalPosition_eq_ok.mp hlast
    exact ⟨outputs, finalPosition, j, hout, hj, hafter⟩
  · have hrun : p.computeLatestPosition =
        latestFinalPosition p.frames.main.index finalPosition := by
      show (p.factorOutputs >>= fun o => latestFinalPosition p.frames.main.index o.2) = _
      rw [h]
      rfl
    rw [hrun]
    cases hlast : latestFinalPosition p.frames.main.index finalPosition with
    | ok r =>
      obtain ⟨s, l⟩ := r
      obtain ⟨j, hj, -⟩ := latestFinalPosition_eq_ok.mp hlast
      exact absurd hj (hnone j s l)
    | error e =>
      unfold latestFinalPosition at hlast
      split at hlast
      · cases hlast
      · cases hlast
        rfl

end Performance

namespace Live

/-- Five bars of a product, and the first four of them of another one. -/
def sparse : DataDict ℕ ExtRat :=
  [("btcusdt.crypto", ⟨List.range 5, [("factor", ⟨List.replicate 5 (.fin 1), rfl⟩)]⟩),
    ("ethusdt.crypto", ⟨List.range 4, [("v", ⟨List.replicate 4 (.fin 1), rfl⟩)]⟩)]

/-- The price of each, above or below zero. -/
def crossProduct : StrategyConfig ExtRat where
  internalCusip := "btcusdt.crypto"
  indicatorName := "get_sma"
  signalFunc := .momentumBandSignal
  tradingPeriod := 365
  substrategies :=
    [{ indicatorName := "get_sma", signalFuncName := "momentum_band_signal", window := 1,
       signal := .fin 0, dataColumn := "factor" },
     { indicatorName := "get_sma", signalFuncName := "momentum_band_signal", window := 1,
       signal := .fin 0, internalCusip := some "ethusdt.crypto" }]

end Live

/-- **The position of an older bar is taken for the newest one's**, where a factor lacks
the newest bar. -/
theorem Performance.OfNewestBar.not_sparse :
    ¬ ∀ (data : DataDict ℕ ExtRat) (config : StrategyConfig ExtRat) (p : Performance ℕ ExtRat),
      Performance.init data config none none none 60 = .ok p → p.OfNewestBar := by
  intro h
  have hrun : ((Performance.init Live.sparse Live.crossProduct none none none 60).toOption.map
      fun p => (p.computeLatestPosition.toOption, p.frames.main.index.getLast?)) =
        some (some (1, 3), some 4) := by decide +kernel
  cases hp : Performance.init Live.sparse Live.crossProduct none none none 60 with
  | error e =>
    rw [hp] at hrun
    cases hrun
  | ok p =>
    rw [hp] at hrun
    obtain ⟨hpos, hbar⟩ := Prod.mk.inj (Option.some.inj hrun)
    cases hlive : p.computeLatestPosition with
    | error e =>
      rw [hlive] at hpos
      cases hpos
    | ok r =>
      rw [hlive] at hpos
      cases hpos
      have hnewest := (h _ _ p hp 1 3 hlive).1
      cases hbar.symm.trans hnewest
