import QuantStrategies.Strategy.Figures

/-!
# Whether the figures of a report are over the same bars

The figures that are read off a whole curve and those that are read after the largest
window are over the same bars when no bar has a return before that window is over.
Most indicators see to it, since they have no reading before. An exponential mean has
one from the first bar on.

Buying and holding is over the bars that are entered with a position. Such a bar has a
return of the strategy only if it is left with a position as well, so the two are over
the same bars when no position is lost from one bar to the next.

There is a position on a bar when each indicator has a reading on it
(`Performance.known_iff`). So all of this is a matter of the bars on which the indicators
have readings and on which the price moves, as long as a move of the price has a return
whatever the positions are, which is so of finite ones.

The condition is reached in two steps. `BarsInStep` says it of the positions and price
changes of the run. `InStep` says it of the frames alone: on which bars the indicators have
readings, on which the price moves, and where the largest window ends. The second is the one
to be checked on data, and under `PlainMoves` they are the same (`barsInStep_iff`).
-/

open Pandas NpFloat Result

section

variable {L F : Type} [DecidableEq L] [NpFloat F]

/-- All figures of a report are taken over the same bars, of the strategy and of buying
and holding. -/
def SameBars (p : Performance L F) (e : Enriched F) : Prop :=
  ∀ f f' : Figure, ∀ curve ∈ [e.pnl, e.buyHold], ∀ curve' ∈ [e.pnl, e.buyHold],
    f.bars p curve = f'.bars p curve'

/-- What the position that a bar is entered with gains on it. -/
def barGain (prior : SignType) (chg : F) : F := Position.toFloat (some prior) * chg

/-- What a change of position costs. -/
def barFee (cost : F) (prior position : SignType) : F :=
  NpFloat.abs (Position.toFloat (some position) - Position.toFloat (some prior) : F) * cost

/-- A bar between two positions has a return: its gain and its fee are numbers, and not
the same infinity. -/
structure Earns (cost : F) (prior position : SignType) (chg : F) : Prop where
  /-- The gain is a number. -/
  gain : isNan (barGain prior chg) = false
  /-- So is the fee. -/
  fee : isNan (barFee cost prior position) = false
  /-- And their difference, which two equal infinities would not have. -/
  net : (isInf (barGain prior chg) && isInf (barFee cost prior position) &&
    eq (barGain prior chg) (barFee cost prior position)) = false

/-- The bar after bar `i` is entered and left with a position, and has a return. -/
def EarnsAfter (p : Performance L F) (e : Enriched F) (i : ℕ) : Prop :=
  ∃ prior position chg, e.finalPosition[i]? = some (some prior) ∧
    e.finalPosition[i + 1]? = some (some position) ∧ e.chg[i + 1]? = some chg ∧
    Earns p.transactionCost prior position chg

/-- The bar after bar `i` is entered with a position, and has a price change. -/
def HeldAfter (e : Enriched F) (i : ℕ) : Prop :=
  ∃ prior chg, e.finalPosition[i]? = some (some prior) ∧ e.chg[i + 1]? = some chg ∧
    isNan chg = false

/-- Of `n` bars, none has a return before the largest window is over, those that are
entered with a position have one, and the last one has one if any has. -/
structure BarsInStep (p : Performance L F) (e : Enriched F) (n : ℕ) : Prop where
  /-- No bar has a return before the largest window is over. -/
  warmUp : ∀ i, EarnsAfter p e i → p.metricWindow ≤ i + 1
  /-- Every bar entered with a position, on which the price changes, has a return. -/
  held : ∀ i, HeldAfter e i → EarnsAfter p e i
  /-- The last bar has a return, if any bar has. -/
  last : ∀ i, EarnsAfter p e i → ∃ j, j + 2 = n ∧ EarnsAfter p e j

namespace Performance

/-- The price of the traded product changes by `chg` on the bar after bar `i`. -/
def MovesBy (p : Performance L F) (i : ℕ) (chg : F) : Prop :=
  ∃ price x y, p.frames.main.column "price" = .ok price ∧ price.1[i]? = some x ∧
    price.1[i + 1]? = some y ∧ y / x - 1 = chg

/-- The price of the traded product has a change on the bar after bar `i`. -/
def Moves (p : Performance L F) (i : ℕ) : Prop := ∃ chg, p.MovesBy i chg ∧ isNan chg = false

/-- Each indicator of the strategy has a reading on bar `i`. -/
def Reads (p : Performance L F) (i : ℕ) : Prop :=
  ∀ frame name w c, p.Computes frame name w → TechnicalAnalysis.indicator frame name w = .ok c →
    ∃ x, c.1[i]? = some x ∧ isNan x = false

/-- A change of the price, after a bar with readings, has a return whatever the positions are:
neither it nor the fee is so large that a gain or a fee is not a number. -/
def PlainMoves (p : Performance L F) : Prop :=
  ∀ i chg, p.Reads i → p.MovesBy i chg → isNan chg = false →
    ∀ prior position, Earns p.transactionCost prior position chg

/-- Of `n` bars, each that follows one with readings, and on which the price moves, has readings
too and comes after the largest window; and if there is one, the last bar is one. -/
structure InStep (p : Performance L F) (n : ℕ) : Prop where
  /-- Readings are not lost over a bar on which the price moves. -/
  kept : ∀ i, p.Reads i → p.Moves i → p.Reads (i + 1)
  /-- No bar follows one with readings, and moves, before the largest window is over. -/
  warmUp : ∀ i, p.Reads i → p.Moves i → p.metricWindow ≤ i + 1
  /-- If some bar follows readings and moves, the last one does. -/
  last : ∀ i, p.Reads i → p.Moves i → ∃ j, j + 2 = n ∧ p.Reads j ∧ p.Moves j

end Performance

/-! ## Columns -/

variable {p : Performance L F} {e : Enriched F}

/-- Each of several factors has columns with a row for each bar. -/
theorem Performance.outputs_length {outs : List (FactorOutput F)}
    (houts : (p.subs.zipIdx.mapM fun s => p.factorOutput s.2 s.1) = .ok outs)
    {out : FactorOutput F} (hmem : out ∈ outs) :
    out.position.length = p.frames.main.index.length ∧
      out.indicator.length = p.frames.main.index.length := by
  obtain ⟨⟨sub, i⟩, -, hout⟩ := exists_of_mem_mapM houts hmem
  obtain ⟨_, _, s, ind, func, -, -, -, -, -, rfl⟩ := factorOutput_parts.mp hout
  exact ⟨(SignalDirection.length_call func ind.1 s).trans ind.2, ind.2⟩

/-- The position that several factors have together, row by row. -/
theorem Performance.combined_eq {outs : List (FactorOutput F)} {finalPosition : List Position}
    (hmulti : p.isMulti = true)
    (houts : (p.subs.zipIdx.mapM fun s => p.factorOutput s.2 s.1) = .ok outs)
    (hcombined : combinePositions (outs.map (·.position)) p.config.conjunction
      (some (outs.map (·.indicator))) = .ok finalPosition) :
    2 ≤ (outs.map (·.position)).length ∧ ∃ (conj : Conjunction) (strengths : ℕ → List F),
      finalPosition = (List.range p.frames.main.index.length).map fun i =>
        combineRow conj (rowSigns (outs.map (·.position)) i) (some (strengths i)) := by
  have htwo : 2 ≤ (outs.map (·.position)).length := by
    rw [List.length_map, ← (mapM_eq_ok.mp houts).length_eq, List.length_zipIdx]
    exact of_decide_eq_true hmulti
  rw [combinePositions_eq _ (List.forall_mem_map.mpr fun out hmem => (outputs_length houts hmem).1)
    (List.forall_mem_map.mpr fun out hmem => (outputs_length houts hmem).2) htwo (by simp)]
    at hcombined
  obtain ⟨conj, -, hcombined⟩ := bind_eq_ok.mp hcombined
  cases hcombined
  exact ⟨htwo, conj, _, rfl⟩

/-- Each factor's columns have a row for each bar, and so has the position. -/
theorem Performance.factorOutputs_length {outs : List (FactorOutput F)}
    {finalPosition : List Position} (h : p.factorOutputs = .ok (outs, finalPosition)) :
    finalPosition.length = p.frames.main.index.length := by
  obtain ⟨hmulti, -, houts, hcombined⟩ | ⟨-, out, hout, -, rfl⟩ := factorOutputs_parts.mp h
  · obtain ⟨-, conj, strengths, rfl⟩ := combined_eq hmulti houts hcombined
    rw [List.length_map, List.length_range]
  · obtain ⟨frame, _, _, ind, s, hframe, -, -, -, -, rfl⟩ := singleFactorOutputs_parts.mp hout
    have hindex : frame.index = p.frames.main.index := by
      obtain ⟨sub, -, hframe⟩ := bind_eq_ok.mp hframe
      dsimp only at hframe
      split at hframe
      · obtain ⟨c, -, hframe⟩ := bind_eq_ok.mp hframe
        cases hframe
        rfl
      · cases hframe
        rfl
    exact (SignalDirection.length_call _ ind.1 s).trans (ind.2.trans (congrArg _ hindex))

/-- A factor's column of signals is made of the readings of an indicator that the strategy
computes. -/
theorem Performance.computes_of_mem {outs : List (FactorOutput F)}
    {finalPosition : List Position} (h : p.factorOutputs = .ok (outs, finalPosition))
    {out : FactorOutput F} (hmem : out ∈ outs) :
    ∃ frame name w c, p.Computes frame name w ∧ TechnicalAnalysis.indicator frame name w = .ok c ∧
      ∃ (d : SignalDirection) (s : F), out.position = d.call c.1 s := by
  obtain ⟨hmulti, -, houts, -⟩ | ⟨hsingle, out', hout, rfl, -⟩ := factorOutputs_parts.mp h
  · obtain ⟨⟨sub, i⟩, hsub, hout⟩ := exists_of_mem_mapM houts hmem
    obtain ⟨_, w, s, ind, func, hc, hw, -, hind, -, rfl⟩ := factorOutput_parts.mp hout
    exact ⟨_, _, w, ind, .multi hmulti (List.mem_zipIdx_iff_getElem?.mp hsub) hc
      (item_eq_ok.mp hw), hind, func, s, rfl⟩
  · obtain rfl := List.mem_singleton.mp hmem
    obtain ⟨frame, _, w, ind, s, hframe, -, hw, hind, -, rfl⟩ := singleFactorOutputs_parts.mp hout
    exact ⟨frame, _, w, ind, .single hsingle hframe (item_eq_ok.mp hw), hind, _, s, rfl⟩

/-- The readings of an indicator that the strategy computes make a column of signals. -/
theorem Performance.exists_output {outs : List (FactorOutput F)}
    {finalPosition : List Position} (h : p.factorOutputs = .ok (outs, finalPosition))
    {frame : Frame L F} {name : String} {w : ℤ} {c : Column F frame.index}
    (hcomputes : p.Computes frame name w) (hc : TechnicalAnalysis.indicator frame name w = .ok c) :
    ∃ out ∈ outs, ∃ (d : SignalDirection) (s : F), out.position = d.call c.1 s := by
  obtain ⟨hmulti, -, houts, -⟩ | ⟨hsingle, out, hout, rfl, -⟩ := factorOutputs_parts.mp h
  · cases hcomputes with
    | single hsingle => rw [hsingle] at hmulti; cases hmulti
    | @multi i sub c' _ _ hsub hc' hw =>
      obtain ⟨out, hmem, hout⟩ := exists_mem_of_mapM houts
        (show (sub, i) ∈ p.subs.zipIdx from List.mem_zipIdx_iff_getElem?.mpr hsub)
      obtain ⟨_, w', s, ind, func, hc'', hw', -, hind, -, rfl⟩ := factorOutput_parts.mp hout
      cases hc'.symm.trans hc''
      cases hw.symm.trans (item_eq_ok.mp hw')
      cases hc.symm.trans hind
      exact ⟨_, hmem, func, s, rfl⟩
  · cases hcomputes with
    | multi hmulti => rw [hsingle] at hmulti; cases hmulti
    | single _ hframe hw =>
      obtain ⟨_, _, w', ind, s, hframe', -, hw', hind, -, rfl⟩ :=
        singleFactorOutputs_parts.mp hout
      cases hframe.symm.trans hframe'
      cases hw.symm.trans (item_eq_ok.mp hw')
      cases hc.symm.trans hind
      exact ⟨_, List.mem_singleton.mpr rfl, _, s, rfl⟩

/-- There is a position exactly where each factor has one. -/
theorem Performance.finalPosition_iff {outs : List (FactorOutput F)}
    {finalPosition : List Position} (h : p.factorOutputs = .ok (outs, finalPosition)) {i : ℕ} :
    (∃ s, finalPosition[i]? = some (some s)) ↔
      ∀ out ∈ outs, ∃ s, out.position[i]? = some (some s) := by
  obtain ⟨hmulti, -, houts, hcombined⟩ | ⟨-, out, -, rfl, rfl⟩ := factorOutputs_parts.mp h
  · obtain ⟨htwo, conj, strengths, rfl⟩ := combined_eq hmulti houts hcombined
    have hlength : ∀ ps ∈ outs.map (·.position), ps.length = p.frames.main.index.length :=
      List.forall_mem_map.mpr fun out hmem => (outputs_length houts hmem).1
    have hrow (hi : i < p.frames.main.index.length) :
        combineRow conj (rowSigns (outs.map (·.position)) i) (some (strengths i)) = none ↔
          none ∈ rowSigns (outs.map (·.position)) i :=
      combineRow_none (by rwa [rowSigns_length hlength hi]) _
    rw [getElem?_range_map]
    constructor
    · rintro ⟨s, hs⟩ out hmem
      obtain ⟨hi, hs⟩ := Option.ite_none_right_eq_some.mp hs
      have hlt : i < out.position.length := (outputs_length houts hmem).1 ▸ hi
      cases hsign : out.position[i] with
      | some s => exact ⟨s, (List.getElem?_eq_getElem hlt).trans (congrArg some hsign)⟩
      | none =>
        have hmem' : none ∈ rowSigns (outs.map (·.position)) i :=
          List.mem_filterMap.mpr ⟨out.position, List.mem_map_of_mem hmem,
            (List.getElem?_eq_getElem hlt).trans (congrArg some hsign)⟩
        rw [(hrow hi).mpr hmem'] at hs
        cases hs
    · intro hall
      have hpos : 0 < outs.length := by
        rw [List.length_map] at htwo
        omega
      obtain ⟨s, hs⟩ := hall outs[0] (List.getElem_mem hpos)
      have hi : i < p.frames.main.index.length := (outputs_length houts (List.getElem_mem hpos)).1 ▸
        (List.getElem?_eq_some_iff.mp hs).1
      obtain ⟨sign, hsign⟩ := Option.ne_none_iff_exists'.mp (mt (hrow hi).mp fun hnone => by
        obtain ⟨ps, hps, hi'⟩ := List.mem_filterMap.mp hnone
        obtain ⟨out, hmem, rfl⟩ := List.mem_map.mp hps
        obtain ⟨s', hs'⟩ := hall out hmem
        cases hi'.symm.trans hs')
      exact ⟨sign, (if_pos hi).trans (congrArg some hsign)⟩
  · exact ⟨fun hknown out' hmem => List.mem_singleton.mp hmem ▸ hknown,
      fun hall => hall out (List.mem_singleton.mpr rfl)⟩

/-- **When there is a position**: on the bars on which each indicator has a reading. A signal
function maps a reading to a position and a missing one to none, and no conjunction loses a
position or makes one up. -/
theorem Performance.known_iff {outs : List (FactorOutput F)} {finalPosition : List Position}
    (h : p.factorOutputs = .ok (outs, finalPosition)) {i : ℕ} :
    (∃ s, finalPosition[i]? = some (some s)) ↔ p.Reads i := by
  rw [finalPosition_iff h]
  constructor
  · intro hall frame name w c hcomputes hc
    obtain ⟨out, hmem, d, s, hposition⟩ := exists_output h hcomputes hc
    obtain ⟨sign, hsign⟩ := hall out hmem
    obtain ⟨x, hx, hnan⟩ := d.call_none s (hposition ▸ hsign)
    exact ⟨x, hx, Bool.eq_false_iff.mpr fun h => Option.some_ne_none _ (hnan.mpr h)⟩
  · intro hreads out hmem
    obtain ⟨frame, name, w, c, hcomputes, hc, d, s, hposition⟩ := computes_of_mem h hmem
    obtain ⟨x, hx, hnan⟩ := hreads frame name w c hcomputes hc
    have hlt : i < out.position.length := by
      rw [hposition, SignalDirection.length_call]
      exact (List.getElem?_eq_some_iff.mp hx).1
    have hget := List.getElem?_eq_getElem hlt
    obtain ⟨y, hy, hy'⟩ := d.call_none s ((congrArg (·[i]?) hposition).symm.trans hget)
    cases hx.symm.trans hy
    obtain ⟨sign, hsign⟩ := Option.ne_none_iff_exists'.mp fun hnone =>
      Bool.false_ne_true (hnan.symm.trans (hy'.mp hnone))
    exact ⟨sign, hget.trans (congrArg some hsign)⟩

/-- The columns of a strategy, as they are made of its positions and its prices. -/
structure Performance.Columns (p : Performance L F) (e : Enriched F) (n : ℕ) : Prop where
  /-- A position for each bar. -/
  positions : e.finalPosition.length = n
  /-- A price change for each bar. -/
  changes : e.chg.length = n
  /-- Turnover and returns are those of the positions. -/
  pnl : strategyPnl (e.finalPosition.map Position.toFloat) e.chg p.transactionCost =
    .ok (e.finalPositionX1, e.trade, e.pnl)
  /-- Holding is counted on the bars that a known position enters. -/
  buyHold : e.buyHold =
    List.zipWith (fun c prior => if isNan prior then nan else c) e.chg e.finalPositionX1

/-- What the columns are computed from. -/
theorem Performance.factorOutputs_of_enrich (he : p.enrichPerformance = .ok e) :
    p.factorOutputs = .ok (e.outputs, e.finalPosition) ∧
      ∃ price, p.frames.main.column "price" = .ok price ∧ e.chg = pctChange price.1 := by
  obtain ⟨⟨outs, finalPosition⟩, hr, he⟩ := bind_eq_ok.mp he
  obtain ⟨price, hprice, he⟩ := bind_eq_ok.mp he
  obtain ⟨⟨prior, turnover, pnl⟩, hq, he⟩ := bind_eq_ok.mp he
  cases he
  exact ⟨hr, price, hprice, rfl⟩

/-- A run that goes through has such columns. -/
theorem Performance.columns (he : p.enrichPerformance = .ok e) :
    p.Columns e p.frames.main.index.length := by
  obtain ⟨⟨outs, finalPosition⟩, hr, he⟩ := bind_eq_ok.mp he
  obtain ⟨price, -, he⟩ := bind_eq_ok.mp he
  obtain ⟨⟨prior, turnover, pnl⟩, hq, he⟩ := bind_eq_ok.mp he
  cases he
  exact ⟨p.factorOutputs_length hr, (length_pctChange price.1).trans price.2, hq, rfl⟩

omit [DecidableEq L] in
/-- What the columns are made of, row by row. -/
theorem Performance.Columns.eq {n : ℕ} (h : p.Columns e n) :
    e.finalPositionX1 = shift (e.finalPosition.map Position.toFloat) ∧
      e.pnl = List.zipWith (fun gain turnover => gain - turnover * p.transactionCost)
        (List.zipWith (· * ·) e.finalPositionX1 e.chg)
        (List.zipWith (fun pos prior =>
          if isNan pos then nan
          else if !isNan prior then NpFloat.abs (pos - prior) else 0)
          (e.finalPosition.map Position.toFloat) e.finalPositionX1) := by
  have hpnl := h.pnl
  rw [strategyPnl] at hpnl
  split at hpnl
  · cases hpnl
  · obtain ⟨hprior, -, hpnl⟩ := (by simpa only [Except.ok.injEq, Prod.mk.injEq] using hpnl :
      _ = e.finalPositionX1 ∧ _ = e.trade ∧ _ = e.pnl)
    exact ⟨hprior.symm, hprior ▸ hpnl.symm⟩

omit [DecidableEq L] in
theorem Performance.Columns.length_pnl {n : ℕ} (h : p.Columns e n) : e.pnl.length = n := by
  rw [h.eq.2]
  simp [h.eq.1, h.positions, h.changes]

omit [DecidableEq L] in
theorem Performance.Columns.length_buyHold {n : ℕ} (h : p.Columns e n) :
    e.buyHold.length = n := by
  rw [h.buyHold, List.length_zipWith, h.eq.1, length_shift, List.length_map, h.positions,
    h.changes, Nat.min_self]

omit [DecidableEq L] in
/-- The figures of a curve that has a return in its last row if in any, and none before
the largest window is over. -/
theorem Figure.bars_eq {curve : List F}
    (hstart : ∀ j ∈ rows 0 curve, p.metricStart curve.length ≤ j)
    (hlast : ∀ j ∈ rows 0 curve, curve.length - 1 ∈ rows 0 curve) (f : Figure) :
    f.bars p curve = rows 0 curve := by
  have hmetric := rows_eq_rows_zero.mpr hstart
  cases f with
  | totalReturn => exact Set.Subset.antisymm (fun j hj => hj.1) fun j hj => ⟨hj, hlast j hj⟩
  | annualizedReturn => exact hmetric
  | sharpeRatio => exact hmetric
  | maxDrawdown => rfl
  | calmarRatio =>
    show rows (p.metricStart curve.length) curve ∪ rows 0 curve = rows 0 curve
    rw [hmetric, Set.union_self]

omit [DecidableEq L] [NpFloat F] in
/-- A largest window that is not negative is where the slice begins. -/
theorem Performance.metricStart_eq (h : 0 ≤ p.metricWindow) (n : ℕ) :
    p.metricStart n = p.metricWindow.toNat := if_neg (Int.not_lt.mpr h)

/-- A strategy that can be run has a largest window that is not negative. -/
theorem Performance.metricWindow_nonneg {data : DataDict L F} {config : StrategyConfig F}
    {window : Option (Arg ℤ)} {signal : Option (Arg F)} {feeBps : Option F} {minMetricObs : ℤ}
    (hp : Performance.init data config window signal feeBps minMetricObs = .ok p)
    (he : p.enrichPerformance = .ok e) : 0 ≤ p.metricWindow := by
  obtain ⟨frames, -, hp⟩ := bind_eq_ok.mp hp
  obtain ⟨q, -, hp⟩ := bind_eq_ok.mp hp
  obtain ⟨m, hm, hp⟩ := bind_eq_ok.mp hp
  cases hp
  obtain ⟨r, hr, -⟩ := bind_eq_ok.mp he
  obtain ⟨w, hw, hpos⟩ := Performance.window_nonneg hr
  exact hpos.trans ((pyMax_eq_ok hm).2 w hw)

end

section

variable {L F : Type} [DecidableEq L] [IeeeFloat F] {p : Performance L F} {e : Enriched F} {n : ℕ}

open IeeeFloat

/-- A position is a number when it is known. -/
theorem Position.isNan_toFloat (p : Position) :
    isNan (Position.toFloat p : F) = decide (p = none) := by
  cases p with
  | none => exact isNan_nan
  | some s =>
    cases s with
    | zero => exact (congrArg _ zero_eq).trans (isNan_lit 0)
    | pos => exact (congrArg _ one_eq).trans (isNan_lit 1)
    | neg => exact (isNan_neg 1).trans ((congrArg _ one_eq).trans (isNan_lit 1))

namespace Performance.Columns

omit [DecidableEq L] in
/-- The position that a bar is entered with. -/
theorem prior_succ (h : p.Columns e n) {i : ℕ} {x : F} :
    e.finalPositionX1[i + 1]? = some x ↔
      ∃ prior, e.finalPosition[i]? = some prior ∧ i + 1 < n ∧ Position.toFloat prior = x := by
  rw [h.eq.1, shift, getElem?_lagged]
  simp only [List.getElem?_map, Option.map_eq_some_iff]
  constructor
  · rintro ⟨prev, cur, ⟨prior, hprior, rfl⟩, ⟨pos, hpos, -⟩, rfl⟩
    exact ⟨prior, hprior, h.positions ▸ (List.getElem?_eq_some_iff.mp hpos).1, rfl⟩
  · rintro ⟨prior, hprior, hlt, rfl⟩
    exact ⟨_, _, ⟨prior, hprior, rfl⟩,
      ⟨_, List.getElem?_eq_getElem (h.positions.symm ▸ hlt), rfl⟩, rfl⟩

omit [DecidableEq L] in
/-- The first bar is entered with none. -/
theorem prior_zero (h : p.Columns e n) {x : F} (hx : e.finalPositionX1[0]? = some x) :
    isNan x = true := by
  rw [h.eq.1] at hx
  exact isNan_lagged_zero hx

omit [DecidableEq L] in
/-- **Which bars buying and holding is over.** A bar's return is masked where there was no
position on the bar before, so that it counts one bar after the position. -/
theorem mem_rows_buyHold (h : p.Columns e n) {j : ℕ} :
    j ∈ rows 0 e.buyHold ↔ ∃ i, j = i + 1 ∧ HeldAfter e i := by
  constructor
  · rintro ⟨-, x, hx, hnan⟩
    rw [h.buyHold] at hx
    obtain ⟨c, prior, hc, hprior, rfl⟩ := List.getElem?_zipWith_eq_some.mp hx
    by_cases hmissing : isNan prior = true
    · rw [if_pos hmissing, isNan_nan] at hnan
      cases hnan
    · rw [if_neg hmissing] at hnan
      cases j with
      | zero => exact absurd (h.prior_zero hprior) hmissing
      | succ i =>
        obtain ⟨pos, hpos, -, rfl⟩ := h.prior_succ.mp hprior
        cases pos with
        | none => exact absurd isNan_nan hmissing
        | some s => exact ⟨i, rfl, s, c, hpos, hc, hnan⟩
  · rintro ⟨i, rfl, s, c, hpos, hc, hnan⟩
    have hlt : i + 1 < n := h.changes ▸ (List.getElem?_eq_some_iff.mp hc).1
    have hprior := h.prior_succ.mpr ⟨some s, hpos, hlt, rfl⟩
    refine ⟨Nat.zero_le _, c, ?_, hnan⟩
    rw [h.buyHold, List.getElem?_zipWith_eq_some]
    refine ⟨c, _, hc, hprior, if_neg ?_⟩
    rw [Position.isNan_toFloat]
    exact Bool.false_ne_true

/-- A return is known when its parts are. -/
theorem isNan_pnl {cost : F} {prior pos : Position} {c : F} :
    isNan (Position.toFloat prior * c - (if isNan (Position.toFloat pos : F) then nan
        else if !isNan (Position.toFloat prior : F) then
          NpFloat.abs (Position.toFloat pos - Position.toFloat prior) else 0) * cost) = false ↔
      ∃ s t, prior = some s ∧ pos = some t ∧ Earns cost s t c := by
  cases prior with
  | none =>
    refine iff_of_false ?_ fun ⟨_, _, hnone, _⟩ => by cases hnone
    have hgain : isNan (Position.toFloat none * c : F) = true := by
      rw [isNan_mul, Position.isNan_toFloat]
      simp
    rw [isNan_sub, hgain]
    simp
  | some s =>
    cases pos with
    | none =>
      refine iff_of_false ?_ fun ⟨_, _, _, hnone, _⟩ => by cases hnone
      have hfee : isNan (nan * cost : F) = true := by
        rw [isNan_mul, isNan_nan]
        simp
      have hmissing : isNan (Position.toFloat none : F) = true := isNan_nan
      rw [if_pos hmissing, isNan_sub, hfee]
      simp
    | some t =>
      have hpos : ¬ isNan (Position.toFloat (some t) : F) = true := by
        rw [Position.isNan_toFloat]
        exact Bool.false_ne_true
      have hprior : (!isNan (Position.toFloat (some s) : F)) = true := by
        rw [Position.isNan_toFloat]
        rfl
      rw [if_neg hpos, if_pos hprior, isNan_sub, Bool.or_eq_false_iff, Bool.or_eq_false_iff]
      constructor
      · exact fun ⟨⟨hgain, hfee⟩, hnet⟩ => ⟨s, t, rfl, rfl, hgain, hfee, hnet⟩
      · rintro ⟨_, _, hs, ht, hearns⟩
        cases hs
        cases ht
        exact ⟨⟨hearns.gain, hearns.fee⟩, hearns.net⟩

omit [DecidableEq L] in
/-- **Which bars the strategy has a return on.** It takes a position on the bar before and one on
the bar, and a change of the price that the position turns into a number. -/
theorem mem_rows_pnl (h : p.Columns e n) {j : ℕ} :
    j ∈ rows 0 e.pnl ↔ ∃ i, j = i + 1 ∧ EarnsAfter p e i := by
  constructor
  · rintro ⟨-, x, hx, hnan⟩
    rw [h.eq.2] at hx
    obtain ⟨gain, turnover, hgain, hturnover, rfl⟩ := List.getElem?_zipWith_eq_some.mp hx
    obtain ⟨prior, c, hprior, hc, rfl⟩ := List.getElem?_zipWith_eq_some.mp hgain
    obtain ⟨pos, prior', hpos, hprior', rfl⟩ := List.getElem?_zipWith_eq_some.mp hturnover
    cases hprior.symm.trans hprior'
    rw [List.getElem?_map, Option.map_eq_some_iff] at hpos
    obtain ⟨t, ht, rfl⟩ := hpos
    cases j with
    | zero =>
      have hmissing : isNan (prior * c) = true := by
        rw [isNan_mul, h.prior_zero hprior]
        simp
      rw [isNan_sub, hmissing] at hnan
      simp at hnan
    | succ i =>
      obtain ⟨s, hs, -, rfl⟩ := h.prior_succ.mp hprior
      obtain ⟨s, t, rfl, rfl, hearns⟩ := isNan_pnl.mp hnan
      exact ⟨i, rfl, s, t, c, hs, ht, hc, hearns⟩
  · rintro ⟨i, rfl, s, t, c, hs, ht, hc, hearns⟩
    have hlt : i + 1 < n := h.changes ▸ (List.getElem?_eq_some_iff.mp hc).1
    have hprior := h.prior_succ.mpr ⟨some s, hs, hlt, rfl⟩
    refine ⟨Nat.zero_le _, _, ?_, isNan_pnl.mpr ⟨s, t, rfl, rfl, hearns⟩⟩
    rw [h.eq.2, List.getElem?_zipWith_eq_some]
    refine ⟨_, _, List.getElem?_zipWith_eq_some.mpr ⟨_, c, hprior, hc, rfl⟩,
      List.getElem?_zipWith_eq_some.mpr ⟨_, _, ?_, hprior, rfl⟩, rfl⟩
    rw [List.getElem?_map, ht]
    rfl

end Performance.Columns

/-- The figures of a report are over the same bars exactly when no bar has a return
before the largest window is over, every bar that is entered with a position and has a
price change has one, and the last bar has one if any has. -/
theorem sameBars_iff_barsInStep (data : DataDict L F) (config : StrategyConfig F)
    (window : Option (Arg ℤ)) (signal : Option (Arg F)) (feeBps : Option F) (minMetricObs : ℤ)
    (p : Performance L F) (e : Enriched F)
    (hp : Performance.init data config window signal feeBps minMetricObs = .ok p)
    (he : p.enrichPerformance = .ok e) :
    SameBars p e ↔ BarsInStep p e p.frames.main.index.length := by
  have hcol := p.columns he
  have hstart := Performance.metricStart_eq (p.metricWindow_nonneg hp he)
  have hpnl : e.pnl ∈ [e.pnl, e.buyHold] := List.mem_cons_self
  have hhold : e.buyHold ∈ [e.pnl, e.buyHold] := List.mem_cons_of_mem _ List.mem_cons_self
  constructor
  · intro h
    have hwarm : rows (p.metricStart e.pnl.length) e.pnl = rows 0 e.pnl :=
      h .annualizedReturn .maxDrawdown _ hpnl _ hpnl
    have htotal : {j ∈ rows 0 e.pnl | e.pnl.length - 1 ∈ rows 0 e.pnl} = rows 0 e.pnl :=
      h .totalReturn .maxDrawdown _ hpnl _ hpnl
    have hheld : rows 0 e.buyHold = rows 0 e.pnl := h .maxDrawdown .maxDrawdown _ hhold _ hpnl
    refine ⟨fun i hi => ?_, fun i hi => ?_, fun i hi => ?_⟩
    · have hle := rows_eq_rows_zero.mp hwarm (i + 1) (hcol.mem_rows_pnl.mpr ⟨i, rfl, hi⟩)
      rw [hstart] at hle
      omega
    · have hmem : i + 1 ∈ rows 0 e.pnl := hheld ▸ hcol.mem_rows_buyHold.mpr ⟨i, rfl, hi⟩
      obtain ⟨j, hj, hearns⟩ := hcol.mem_rows_pnl.mp hmem
      cases hj
      exact hearns
    · have hmem : i + 1 ∈ rows 0 e.pnl := hcol.mem_rows_pnl.mpr ⟨i, rfl, hi⟩
      rw [← htotal] at hmem
      obtain ⟨j, hj, hearns⟩ := hcol.mem_rows_pnl.mp hmem.2
      rw [hcol.length_pnl] at hj
      exact ⟨j, by omega, hearns⟩
  · intro h
    have hsame : rows 0 e.buyHold = rows 0 e.pnl := by
      ext j
      rw [hcol.mem_rows_buyHold, hcol.mem_rows_pnl]
      refine exists_congr fun i => and_congr_right fun _ => ⟨h.held i, ?_⟩
      rintro ⟨s, t, c, hs, -, hc, hearns⟩
      have hgain := hearns.gain
      rw [barGain, IeeeFloat.isNan_mul] at hgain
      simp only [Bool.or_eq_false_iff] at hgain
      exact ⟨s, c, hs, hc, hgain.1.1.2⟩
    have hlast (j : ℕ) (hj : j ∈ rows 0 e.pnl) :
        p.frames.main.index.length - 1 ∈ rows 0 e.pnl := by
      obtain ⟨i, rfl, hearns⟩ := hcol.mem_rows_pnl.mp hj
      obtain ⟨k, hk, hearns⟩ := h.last i hearns
      exact hcol.mem_rows_pnl.mpr ⟨k, by omega, hearns⟩
    have hall (f : Figure) (curve : List F) (hcurve : curve ∈ [e.pnl, e.buyHold]) :
        f.bars p curve = rows 0 e.pnl := by
      have hrows : rows 0 curve = rows 0 e.pnl ∧ curve.length = p.frames.main.index.length := by
        simp only [List.mem_cons, List.not_mem_nil, or_false] at hcurve
        rcases hcurve with rfl | rfl
        · exact ⟨rfl, hcol.length_pnl⟩
        · exact ⟨hsame, hcol.length_buyHold⟩
      rw [Figure.bars_eq (fun j hj => ?_) (fun j hj => ?_) f, hrows.1]
      · rw [hrows.1] at hj
        obtain ⟨i, rfl, hearns⟩ := hcol.mem_rows_pnl.mp hj
        have hle := h.warmUp i hearns
        rw [hstart]
        omega
      · rw [hrows.1] at hj
        rw [hrows.1, hrows.2]
        exact hlast j hj
    intro f f' curve hcurve curve' hcurve'
    rw [hall f curve hcurve, hall f' curve' hcurve']

/-- The changes of the price are a column of the report. -/
theorem Performance.movesBy_iff (he : p.enrichPerformance = .ok e) {i : ℕ} {c : F} :
    p.MovesBy i c ↔ e.chg[i + 1]? = some c := by
  obtain ⟨-, price, hprice, hchg⟩ := Performance.factorOutputs_of_enrich he
  rw [hchg, pctChange, getElem?_lagged]
  constructor
  · rintro ⟨price', x, y, hprice', hx, hy, rfl⟩
    cases hprice.symm.trans hprice'
    exact ⟨x, y, hx, hy, rfl⟩
  · rintro ⟨x, y, hx, hy, rfl⟩
    exact ⟨price, x, y, hprice, hx, hy, rfl⟩

/-- A bar is entered with a position, and moves, when the indicators had readings before it. -/
theorem Performance.heldAfter_iff (he : p.enrichPerformance = .ok e) {i : ℕ} :
    HeldAfter e i ↔ p.Reads i ∧ p.Moves i := by
  rw [← known_iff (Performance.factorOutputs_of_enrich he).1]
  constructor
  · rintro ⟨prior, c, hprior, hc, hnan⟩
    exact ⟨⟨prior, hprior⟩, c, (movesBy_iff he).mpr hc, hnan⟩
  · rintro ⟨⟨prior, hprior⟩, c, hc, hnan⟩
    exact ⟨prior, c, hprior, (movesBy_iff he).mp hc, hnan⟩

/-- A bar has a return when it moves, and the indicators have readings on it and before it. -/
theorem Performance.earnsAfter_iff (he : p.enrichPerformance = .ok e) (hplain : p.PlainMoves)
    {i : ℕ} : EarnsAfter p e i ↔ p.Reads i ∧ p.Moves i ∧ p.Reads (i + 1) := by
  have hknown {i : ℕ} := known_iff (Performance.factorOutputs_of_enrich he).1 (i := i)
  constructor
  · rintro ⟨prior, position, c, hprior, hposition, hc, hearns⟩
    have hgain := hearns.gain
    rw [barGain, isNan_mul] at hgain
    simp only [Bool.or_eq_false_iff] at hgain
    exact ⟨hknown.mp ⟨prior, hprior⟩, ⟨c, (movesBy_iff he).mpr hc, hgain.1.1.2⟩,
      hknown.mp ⟨position, hposition⟩⟩
  · rintro ⟨hreads, ⟨c, hc, hnan⟩, hreads'⟩
    obtain ⟨prior, hprior⟩ := hknown.mpr hreads
    obtain ⟨position, hposition⟩ := hknown.mpr hreads'
    exact ⟨prior, position, c, hprior, hposition, (movesBy_iff he).mp hc,
      hplain i c hreads hc hnan prior position⟩

/-- **From the run to the frames**: where a move of the price has a return whatever the positions,
the run's condition is the condition on readings and moves. -/
theorem Performance.barsInStep_iff (he : p.enrichPerformance = .ok e) (hplain : p.PlainMoves) :
    BarsInStep p e n ↔ p.InStep n := by
  have hearns {i : ℕ} := earnsAfter_iff he hplain (i := i)
  have hheld {i : ℕ} := heldAfter_iff he (i := i)
  constructor
  · intro h
    have hall {i : ℕ} (hreads : p.Reads i) (hmoves : p.Moves i) : EarnsAfter p e i :=
      h.held i (hheld.mpr ⟨hreads, hmoves⟩)
    refine ⟨fun i hreads hmoves => (hearns.mp (hall hreads hmoves)).2.2,
      fun i hreads hmoves => h.warmUp i (hall hreads hmoves), fun i hreads hmoves => ?_⟩
    obtain ⟨j, hj, hlast⟩ := h.last i (hall hreads hmoves)
    exact ⟨j, hj, (hearns.mp hlast).1, (hearns.mp hlast).2.1⟩
  · intro h
    refine ⟨fun i hi => ?_, fun i hi => ?_, fun i hi => ?_⟩
    · obtain ⟨hreads, hmoves, -⟩ := hearns.mp hi
      exact h.warmUp i hreads hmoves
    · obtain ⟨hreads, hmoves⟩ := hheld.mp hi
      exact hearns.mpr ⟨hreads, hmoves, h.kept i hreads hmoves⟩
    · obtain ⟨hreads, hmoves, -⟩ := hearns.mp hi
      obtain ⟨j, hj, hreads', hmoves'⟩ := h.last i hreads hmoves
      exact ⟨j, hj, hearns.mpr ⟨hreads', hmoves', h.kept j hreads' hmoves'⟩⟩

/-- **The figures of a report are over the same bars** when each bar on which the price moves,
after one on which all indicators have readings, has readings of all of them too, and comes
after the largest window, and when the last bar is one of these if any is. Where a move of the
price has a return whatever the positions are, nothing less will do. -/
theorem sameBars_iff_inStep (data : DataDict L F) (config : StrategyConfig F)
    (window : Option (Arg ℤ)) (signal : Option (Arg F)) (feeBps : Option F) (minMetricObs : ℤ)
    (p : Performance L F) (e : Enriched F)
    (hp : Performance.init data config window signal feeBps minMetricObs = .ok p)
    (he : p.enrichPerformance = .ok e) :
    (p.PlainMoves → p.InStep p.frames.main.index.length → SameBars p e) ∧
      (p.PlainMoves → SameBars p e → p.InStep p.frames.main.index.length) := by
  have hiff := sameBars_iff_barsInStep data config window signal feeBps minMetricObs p e hp he
  constructor
  · exact fun hplain h => hiff.mpr ((Performance.barsInStep_iff he hplain).mpr h)
  · exact fun hplain h => (Performance.barsInStep_iff he hplain).mp (hiff.mp h)

end

section

variable {K L F : Type} [DecidableEq L] [Field K] [LinearOrder K] [IsStrictOrderedRing K]
  [ExactFloat K F] {p : Performance L F} {e : Enriched F}

omit [DecidableEq L] in
/-- Returns, of the strategy and of buying and holding, are there from the bar on that
follows the first position. -/
theorem Performance.Columns.readyFrom {n r : ℕ} (h : p.Columns e n)
    (hfrom : PositionsFrom r e.finalPosition) {price : List F} (hchg : e.chg = pctChange price)
    (hprice : ∀ x ∈ price, observed x = true ∧ lt 0 x = true)
    (hcost : observed p.transactionCost = true) :
    ReadyFrom (r + 1) e.pnl ∧ ReadyFrom (r + 1) e.buyHold := by
  refine ⟨strategyPnl_readyFrom (hchg ▸ h.pnl) hfrom hprice hcost, ?_⟩
  have hprior : ReadyFrom (r + 1) e.finalPositionX1 := h.eq.1 ▸ hfrom.readyFrom.shift
  have hready : ReadyFrom 1 e.chg := hchg ▸ pctChange_readyFrom hprice
  have hhold := hready.zipWith hprior (g := fun c prior => if isNan prior then nan else c)
    (fun c x hcx => by
      by_cases hx : isNan x = true
      · rw [if_pos hx, isNan_nan]
      · rw [if_neg hx]
        exact hcx.resolve_right hx)
    fun i c x hi hi' hc hx => by
      rw [(hprior.isNan_eq_false_iff hx).mpr hi', if_neg Bool.false_ne_true]
      exact hready.after i c hi hc
  have hmax : Max.max 1 (r + 1) = r + 1 := by omega
  exact h.buyHold ▸ hmax ▸ hhold

/-- **On data without gaps** the figures are over the same bars when the largest window
is over by the bar that follows the first position, or no bar follows it. -/
theorem sameBars_iff_of_gapFree (he : p.enrichPerformance = .ok e)
    (hsubs : p.subs = p.frames.config.getSubstrategies)
    (hmax : pyMax p.windows = .ok p.metricWindow) (hgap : GapFreeBars p.frames)
    (hdiv : p.NoZeroDivision) (hcost : observed p.transactionCost = true) :
    SameBars p e ↔
      p.frames.main.index.length ≤ p.firstPosition p.frames.main.index.length + 1 ∨
        p.metricWindow.toNat ≤ p.firstPosition p.frames.main.index.length + 1 := by
  have hcol := p.columns he
  obtain ⟨hr, price, hprice, hchg⟩ := Performance.factorOutputs_of_enrich he
  obtain ⟨w, hw, hpos⟩ := Performance.window_nonneg hr
  have hstart := Performance.metricStart_eq (hpos.trans ((pyMax_eq_ok hmax).2 w hw))
  obtain ⟨hpnl, hhold⟩ := hcol.readyFrom (p.factorOutputs_from hr hsubs hgap hdiv).1 hchg
    (hgap.price price (Frame.column_eq_ok.mp hprice)) hcost
  generalize p.firstPosition p.frames.main.index.length = r at hpnl hhold ⊢
  constructor
  · intro h
    have hwarm : rows (p.metricStart e.pnl.length) e.pnl = rows 0 e.pnl :=
      h .annualizedReturn .maxDrawdown _ List.mem_cons_self _ List.mem_cons_self
    by_contra hlate
    have hrow : r + 1 ∈ rows 0 e.pnl :=
      hpnl.mem_rows.mpr ⟨Nat.zero_le _, le_rfl, by rw [hcol.length_pnl]; omega⟩
    have hle := rows_eq_rows_zero.mp hwarm _ hrow
    rw [hstart] at hle
    omega
  · intro h f f' curve hcurve curve' hcurve'
    have hbars (f : Figure) {curve : List F} (hready : ReadyFrom (r + 1) curve)
        (hlen : curve.length = p.frames.main.index.length) :
        f.bars p curve = {j | r + 1 ≤ j ∧ j < p.frames.main.index.length} := by
      rw [Figure.bars_eq (fun j hj => ?_) (fun j hj => ?_) f]
      · ext j
        rw [hready.mem_rows, hlen]
        exact and_iff_right (Nat.zero_le j)
      · have hj := hready.mem_rows.mp hj
        rw [hstart]
        omega
      · have hj := hready.mem_rows.mp hj
        exact hready.mem_rows.mpr ⟨Nat.zero_le _, by omega, by omega⟩
    have hall (f : Figure) (curve : List F) (hcurve : curve ∈ [e.pnl, e.buyHold]) :
        f.bars p curve = {j | r + 1 ≤ j ∧ j < p.frames.main.index.length} := by
      simp only [List.mem_cons, List.not_mem_nil, or_false] at hcurve
      rcases hcurve with rfl | rfl
      · exact hbars f hpnl hcol.length_pnl
      · exact hbars f hhold hcol.length_buyHold
    rw [hall f curve hcurve, hall f' curve' hcurve']

/-- No indicator but the exponential mean has readings before the last bar of its first
window. -/
theorem le_firstReading {name : String} {w : ℤ} {n : ℕ} (hname : name ≠ "get_ema") :
    n ≤ TechnicalAnalysis.firstReading name w n ∨
      w.toNat ≤ TechnicalAnalysis.firstReading name w n + 1 := by
  rw [TechnicalAnalysis.firstReading, if_neg hname]
  split
  · right
    rw [TechnicalAnalysis.warmUp]
    split_ifs <;> omega
  · exact .inl le_rfl

/-- **The figures are over the same bars** when an indicator of the largest window is not
an exponential mean. -/
theorem sameBars_of_largest (he : p.enrichPerformance = .ok e)
    (hsubs : p.subs = p.frames.config.getSubstrategies)
    (hmax : pyMax p.windows = .ok p.metricWindow) (hgap : GapFreeBars p.frames)
    (hdiv : p.NoZeroDivision) (hcost : observed p.transactionCost = true) {name : String}
    (hname : name ≠ "get_ema") (hmem : (name, p.metricWindow) ∈ p.indicators) :
    SameBars p e := by
  refine (sameBars_iff_of_gapFree he hsubs hmax hgap hdiv hcost).mpr ?_
  have hle : TechnicalAnalysis.firstReading name p.metricWindow p.frames.main.index.length ≤
      p.firstPosition p.frames.main.index.length :=
    foldr_max_le.mp le_rfl _ (List.mem_map.mpr ⟨_, hmem, rfl⟩)
  have hfirst := le_firstReading (w := p.metricWindow) (n := p.frames.main.index.length) hname
  omega

end

/-! ## An exponential mean -/

namespace MeanReport

/-- Five closes. -/
def bars : DataDict ℕ ExtRat :=
  [("btcusdt.crypto", {
    index := [1, 2, 3, 4, 5]
    columns :=
      [("price", ⟨[.fin 100, .fin 102, .fin 101, .fin 105, .fin 104], rfl⟩),
        ("factor", ⟨[.fin 100, .fin 102, .fin 101, .fin 105, .fin 104], rfl⟩)] })]

/-- The exponential mean over three bars of the price, against a level. -/
def config : StrategyConfig ExtRat where
  internalCusip := "btcusdt.crypto"
  indicatorName := "get_ema"
  signalFunc := .momentumBandSignal
  tradingPeriod := 365
  conjunction := "AND"
  substrategies := [{ indicatorName := "get_ema", signalFuncName := "momentum_band_signal",
                      window := 0, signal := 0, dataColumn := "price", internalCusip := none }]

theorem exists_report : ∃ p e,
    Performance.init bars config (some (.one 3)) (some (.one (.fin 101))) (some (.fin 10)) 2 =
      .ok p ∧
    p.enrichPerformance = .ok e ∧ p.metricWindow = 3 ∧
    e.pnl.map isNan = [true, false, false, false, false] := by
  have hrun : ((Performance.init bars config (some (.one 3)) (some (.one (.fin 101)))
      (some (.fin 10)) 2).toOption.bind fun p => p.enrichPerformance.toOption.map fun e =>
        (p.metricWindow, e.pnl.map isNan)) = some (3, [true, false, false, false, false]) := by
    decide +kernel
  obtain ⟨p, hp, hrun⟩ := Option.bind_eq_some_iff.mp hrun
  obtain ⟨e, he, hrun⟩ := Option.map_eq_some_iff.mp hrun
  obtain ⟨hwindow, hpnl⟩ := Prod.mk.inj hrun
  exact ⟨p, e, toOption_eq_some.mp hp, toOption_eq_some.mp he, hwindow, hpnl⟩

end MeanReport

open MeanReport in
/-- The exponential mean takes a position on the first bar. The total return is over the
second bar, and the Sharpe ratio, which is taken from the fourth bar on, is not. -/
theorem mean_report_out_of_step : ∃ p e,
    Performance.init bars config (some (.one 3)) (some (.one (.fin 101))) (some (.fin 10)) 2 =
      .ok p ∧
    p.enrichPerformance = .ok e ∧ 1 ∈ Figure.totalReturn.bars p e.pnl ∧
    1 ∉ Figure.sharpeRatio.bars p e.pnl ∧ ¬ SameBars p e := by
  obtain ⟨p, e, hp, he, hwindow, hpnl⟩ := exists_report
  have hlen : e.pnl.length = 5 := by rw [← List.length_map, hpnl]; rfl
  have hrow {j : ℕ} (hj : (e.pnl.map isNan)[j]? = some false) : j ∈ rows 0 e.pnl := by
    obtain ⟨x, hx, hnan⟩ := Option.map_eq_some_iff.mp (List.getElem?_map ▸ hj)
    exact ⟨Nat.zero_le j, x, hx, hnan⟩
  have htotal : 1 ∈ Figure.totalReturn.bars p e.pnl :=
    ⟨hrow (by rw [hpnl]; rfl), hrow (by rw [hpnl, hlen]; rfl)⟩
  have hsharpe : 1 ∉ Figure.sharpeRatio.bars p e.pnl := by
    rintro ⟨hle, -⟩
    rw [Performance.metricStart_eq (by rw [hwindow]; decide), hwindow] at hle
    exact absurd hle (by decide)
  refine ⟨p, e, hp, he, htotal, hsharpe, fun h => hsharpe ?_⟩
  have hsame := h .totalReturn .sharpeRatio _ List.mem_cons_self _ List.mem_cons_self
  exact hsame ▸ htotal

/-! ## A rolling mean -/

namespace RollingReport

/-- The rolling mean over three bars of the price, against a level. -/
def config : StrategyConfig ExtRat :=
  { MeanReport.config with
    indicatorName := "get_sma"
    substrategies := [{ indicatorName := "get_sma", signalFuncName := "momentum_band_signal",
                        window := 0, signal := 0, dataColumn := "price", internalCusip := none }] }

theorem exists_report : ∃ p e,
    Performance.init MeanReport.bars config (some (.one 3)) (some (.one (.fin 101)))
      (some (.fin 10)) 2 = .ok p ∧
    p.enrichPerformance = .ok e ∧ p.metricWindow = 3 ∧ p.frames.main.index.length = 5 ∧
    p.transactionCost = .fin (1 / 1000) ∧ (e.chg.drop 1).all (fun c => !isNan c && !isInf c) ∧
    e.finalPosition.map Option.isSome = [false, false, true, true, true] := by
  have hrun : ((Performance.init MeanReport.bars config (some (.one 3)) (some (.one (.fin 101)))
      (some (.fin 10)) 2).toOption.bind fun p => p.enrichPerformance.toOption.map fun e =>
        (p.metricWindow, p.frames.main.index.length, p.transactionCost,
          (e.chg.drop 1).all (fun c => !isNan c && !isInf c),
          e.finalPosition.map Option.isSome)) =
      some (3, 5, .fin (1 / 1000), true, [false, false, true, true, true]) := by
    decide +kernel
  obtain ⟨p, hp, hrun⟩ := Option.bind_eq_some_iff.mp hrun
  obtain ⟨e, he, hrun⟩ := Option.map_eq_some_iff.mp hrun
  simp only [Prod.mk.injEq] at hrun
  obtain ⟨hwindow, hlength, hcost, hchg, hknown⟩ := hrun
  exact ⟨p, e, toOption_eq_some.mp hp, toOption_eq_some.mp he, hwindow, hlength, hcost, hchg,
    hknown⟩

/-- A finite move of the price has a return. -/
theorem earns_fin (cost c : ℚ) (prior position : SignType) :
    Earns (.fin cost : ExtRat) prior position (.fin c) := by
  cases prior <;> cases position <;> exact ⟨rfl, rfl, rfl⟩

end RollingReport

open RollingReport in
/-- With a rolling mean over three bars the figures are over the same bars, the last two. -/
theorem rolling_report_sameBars : ∃ p e,
    Performance.init MeanReport.bars config (some (.one 3)) (some (.one (.fin 101)))
      (some (.fin 10)) 2 = .ok p ∧
    p.enrichPerformance = .ok e ∧ SameBars p e := by
  obtain ⟨p, e, hp, he, hwindow, hlength, hcost, hchg, hknown⟩ := exists_report
  have hfirst := (Performance.factorOutputs_of_enrich he).1
  have hreads (i : ℕ) : p.Reads i ↔ 2 ≤ i ∧ i < 5 := by
    have hmap : (∃ s, e.finalPosition[i]? = some (some s)) ↔
        (e.finalPosition.map Option.isSome)[i]? = some true := by
      rw [List.getElem?_map]
      cases e.finalPosition[i]? with
      | none => simp
      | some position => simp [Option.isSome_iff_exists]
    rw [← Performance.known_iff hfirst, hmap, hknown]
    rcases i with _ | _ | _ | _ | _ | i <;> simp
  have hmoves {i : ℕ} {c : ExtRat} (hc : p.MovesBy i c) : i < 4 ∧ ∃ q, c = .fin q := by
    have hget := (Performance.movesBy_iff he).mp hc
    have hmem : c ∈ e.chg.drop 1 :=
      List.mem_of_getElem? ((List.getElem?_drop (i := 1) (j := i)).trans (Nat.add_comm 1 i ▸ hget))
    have hlt := (List.getElem?_eq_some_iff.mp hget).1
    rw [(p.columns he).changes, hlength] at hlt
    refine ⟨by omega, ?_⟩
    have hfinite := List.all_eq_true.mp hchg c hmem
    cases c with
    | fin q => exact ⟨q, rfl⟩
    | _ => cases hfinite
  have hlast : p.Moves 3 := by
    have hlt : 3 + 1 < e.chg.length := by rw [(p.columns he).changes, hlength]; decide
    have hc := (Performance.movesBy_iff he).mpr (List.getElem?_eq_getElem hlt)
    obtain ⟨-, q, hq⟩ := hmoves hc
    exact ⟨_, hc, by rw [hq]; rfl⟩
  refine ⟨p, e, hp, he, (sameBars_iff_inStep MeanReport.bars config _ _ _ _ p e hp he).1
    (fun i c _ hc _ prior position => ?_) ⟨fun i hi hmove => ?_, fun i hi _ => ?_, fun i _ _ => ?_⟩⟩
  · obtain ⟨-, q, rfl⟩ := hmoves hc
    exact hcost ▸ earns_fin _ q prior position
  · obtain ⟨c, hc, -⟩ := hmove
    exact (hreads (i + 1)).mpr ⟨by have := ((hreads i).mp hi).1; omega, by
      have := (hmoves hc).1; omega⟩
  · rw [hwindow]
    have := ((hreads i).mp hi).1
    omega
  · exact ⟨3, by rw [hlength], (hreads 3).mpr (by decide), hlast⟩
