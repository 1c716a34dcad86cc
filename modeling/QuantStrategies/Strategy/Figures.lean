import QuantStrategies.Lib.Ieee
import QuantStrategies.Lib.Known
import QuantStrategies.Strategy.Scored

/-!
# The figures of a report

A report has the same five figures of the strategy and of the product that is bought
and held. The total return and the drawdown are read off curves over all bars, the
annualised return and the Sharpe ratio off what comes after the largest window, and
the Calmar ratio off both.

Each of them reads the bars that have a return, and none of the others (`figures_read`).
Which bars these are is what `Figure.bars` says.

A figure is a function of the column without its missing rows (`known`), and that is shown
of each part it is made of: the sum of a ratio, the product of an annualised return, and the
two curves of `compound`, whose loops pass over a row without a return and carry on with
what they had. The lemmas named `_congr` say it in the form in which the report's figures
use it.
-/

open Pandas NpFloat Result Causal

/-- What a figure may raise. -/
inductive FigureError where
  | indexError
  | overflow
  | zeroDivision
deriving DecidableEq

/-- The figures of a report. -/
inductive Figure where
  | totalReturn
  | annualizedReturn
  | sharpeRatio
  | maxDrawdown
  | calmarRatio
deriving DecidableEq

section

variable {L F : Type} [NpFloat F] (power : F → F → Except FigureError F)

/-- `_cagr`: geometric annualised return from per-bar simple returns. The power of two
numbers overflows where the result is too large. -/
def cagr (pnl : List F) (tradingPeriod : ℤ) : Except FigureError F :=
  let n := (known pnl).length
  if n = 0 then .ok nan
  else do
    let equity := prod (pnl.map fun r => clipLower 0 (1 + r))
    let growth ← power equity (lit ((tradingPeriod : ℚ) / n))
    return growth - 1

namespace Performance

/-! ## Of a curve -/

/-- `cumu.iloc[-1]`. -/
def totalReturnOf (cumu : List F) : Except FigureError F :=
  match cumu.getLast? with
  | some x => .ok x
  | none => .error .indexError

/-- The annualised return after indicator warmup, where there are returns enough. -/
def annualizedReturnOf (p : Performance L F) (e : Enriched F) (curve : List F) :
    Except FigureError F :=
  if (p.metricNObs e : ℤ) < p.minMetricObs then .ok nan
  else cagr power (sliceFrom p.metricWindow curve) p.config.tradingPeriod

/-- The ratio of a curve after indicator warmup. -/
def sharpeRatioOf (p : Performance L F) (curve : List F) : F :=
  sharpeRatio (sliceFrom p.metricWindow curve) p.config.tradingPeriod p.minMetricObs

/-- The annualised return over the drawdown, where there is one. -/
def calmarRatioOf (annualized : Except FigureError F) (maxDd : F) : Except FigureError F :=
  if eq maxDd 0 || isNan maxDd then .ok nan
  else do
    let r ← annualized
    return r / maxDd

/-- The five figures of a curve. -/
def performanceOf (p : Performance L F) (e : Enriched F) (curve cumu dd : List F) :
    Figure → Except FigureError F
  | .totalReturn => totalReturnOf cumu
  | .annualizedReturn => p.annualizedReturnOf power e curve
  | .sharpeRatio => .ok (p.sharpeRatioOf curve)
  | .maxDrawdown => .ok (maxKnown dd)
  | .calmarRatio => calmarRatioOf (p.annualizedReturnOf power e curve) (maxKnown dd)

/-! ## Of the strategy, and of buying and holding -/

/-- `get_total_return`. -/
def getTotalReturn (e : Enriched F) : Except FigureError F := totalReturnOf e.cumu

/-- `get_annualized_return`. -/
def getAnnualizedReturn (p : Performance L F) (e : Enriched F) : Except FigureError F :=
  p.annualizedReturnOf power e e.pnl

/-- `get_max_drawdown`. -/
def getMaxDrawdown (e : Enriched F) : F := maxKnown e.dd

/-- `get_calmar_ratio`. -/
def getCalmarRatio (p : Performance L F) (e : Enriched F) : Except FigureError F :=
  calmarRatioOf (p.getAnnualizedReturn power e) (getMaxDrawdown e)

/-- `get_buy_hold_total_return`. -/
def getBuyHoldTotalReturn (e : Enriched F) : Except FigureError F := totalReturnOf e.buyHoldCumu

/-- `get_buy_hold_annualized_return`. The returns that are counted are the strategy's. -/
def getBuyHoldAnnualizedReturn (p : Performance L F) (e : Enriched F) : Except FigureError F :=
  p.annualizedReturnOf power e e.buyHold

/-- `get_buy_hold_sharpe_ratio`. -/
def getBuyHoldSharpeRatio (p : Performance L F) (e : Enriched F) : F := p.sharpeRatioOf e.buyHold

/-- `get_buy_hold_max_drawdown`. -/
def getBuyHoldMaxDrawdown (e : Enriched F) : F := maxKnown e.buyHoldDd

/-- `get_buy_hold_calmar_ratio`. -/
def getBuyHoldCalmarRatio (p : Performance L F) (e : Enriched F) : Except FigureError F :=
  calmarRatioOf (p.getBuyHoldAnnualizedReturn power e) (getBuyHoldMaxDrawdown e)

/-- `get_strategy_performance`. -/
def getStrategyPerformance (p : Performance L F) (e : Enriched F) :
    Figure → Except FigureError F
  | .totalReturn => getTotalReturn e
  | .annualizedReturn => p.getAnnualizedReturn power e
  | .sharpeRatio => .ok (p.getSharpeRatio e)
  | .maxDrawdown => .ok (getMaxDrawdown e)
  | .calmarRatio => p.getCalmarRatio power e

/-- `get_buy_hold_performance`. -/
def getBuyHoldPerformance (p : Performance L F) (e : Enriched F) :
    Figure → Except FigureError F
  | .totalReturn => getBuyHoldTotalReturn e
  | .annualizedReturn => p.getBuyHoldAnnualizedReturn power e
  | .sharpeRatio => .ok (p.getBuyHoldSharpeRatio e)
  | .maxDrawdown => .ok (getBuyHoldMaxDrawdown e)
  | .calmarRatio => p.getBuyHoldCalmarRatio power e

/-- The strategy's figures are the five figures of its returns and its curves. -/
theorem getStrategyPerformance_eq (p : Performance L F) (e : Enriched F) :
    p.getStrategyPerformance power e = p.performanceOf power e e.pnl e.cumu e.dd := by
  funext f
  cases f <;> rfl

/-- The product's are those of holding it. Both count by the strategy's returns whether there are
enough. -/
theorem getBuyHoldPerformance_eq (p : Performance L F) (e : Enriched F) :
    p.getBuyHoldPerformance power e =
      p.performanceOf power e e.buyHold e.buyHoldCumu e.buyHoldDd := by
  funext f
  cases f <;> rfl

/-- The bar at which the slice after the warm-up begins, of `n` bars. -/
def metricStart (p : Performance L F) (n : ℕ) : ℕ :=
  if p.metricWindow < 0 then n - (-p.metricWindow).toNat else p.metricWindow.toNat

end Performance

/-- The bars of a curve whose returns enter a figure. Without a value in its last row,
a curve has no total return. -/
def Figure.bars (p : Performance L F) (curve : List F) : Figure → Set ℕ
  | .totalReturn => {i ∈ rows 0 curve | curve.length - 1 ∈ rows 0 curve}
  | .annualizedReturn => rows (p.metricStart curve.length) curve
  | .sharpeRatio => rows (p.metricStart curve.length) curve
  | .maxDrawdown => rows 0 curve
  | .calmarRatio => rows (p.metricStart curve.length) curve ∪ rows 0 curve

end

/-! ## What the figures read -/

section

variable {L F : Type} [IeeeFloat F] {xs ys : List F}

open IeeeFloat

/-- What a bar makes of the capital is known when its return is. -/
theorem isNan_growth (r : F) : isNan (clipLower 0 (1 + r)) = isNan r := by
  have hsum : isNan (1 + r) = isNan r := by
    have hone : isInf (1 : F) = false := one_eq (F := F) ▸ isInf_lit (by norm_num)
    rw [isNan_add, one_eq, isNan_lit, ← one_eq, hone, Bool.false_or, Bool.false_and,
      Bool.false_and, Bool.or_false]
  rw [clipLower]
  split
  · next hlt =>
    obtain ⟨hknown, hzero⟩ := lt_known hlt
    rw [hzero, ← hsum, hknown]
  · exact hsum

/-- The curve of the capital after some returns, from some capital on. -/
def equityFrom (capital : F) (pnl : List F) : List F :=
  loop (fun acc x => if isNan x then (nan, acc) else (acc * x, acc * x)) capital
    (pnl.map fun r => clipLower 0 (1 + r))

/-- The peak up to a bar, and what is carried on. -/
def peakStep (peak : Option F) (x : F) : F × Option F :=
  if isNan x then (nan, peak)
  else
    let m := match peak with
      | none => x
      | some m => if lt m x then x else m
    (m, some m)

/-- The drawdowns of a curve, from some peak on. -/
def drawdownFrom (peak : Option F) (equity : List F) : List F :=
  List.zipWith (fun e p => 1 - e / p) equity ((loop peakStep peak equity).map (clipLower 1))

/-- The first drawdown, from the peak that includes the first bar. -/
theorem drawdownFrom_cons (peak : Option F) (x : F) (equity : List F) :
    drawdownFrom peak (x :: equity) =
      (1 - x / clipLower 1 (peakStep peak x).1) :: drawdownFrom (peakStep peak x).2 equity := rfl

/-- The curve of the return and the curve of the drawdown, both of a capital that begins at one.
-/
theorem compound_eq (pnl : List F) :
    compound pnl = ((equityFrom 1 pnl).map (· - 1), drawdownFrom none (equityFrom 1 pnl)) := rfl

/-- A bar without a return has no capital, and the next one goes on from what there was. -/
theorem equityFrom_missing (capital : F) {r : F} (pnl : List F) (hr : isNan r = true) :
    equityFrom capital (r :: pnl) = nan :: equityFrom capital pnl := by
  have hgrowth : isNan (clipLower 0 (1 + r)) = true := (isNan_growth r).trans hr
  rw [equityFrom, List.map_cons, loop, if_pos hgrowth]
  rfl

/-- A bar with a return multiplies the capital by its growth, which a loss of everything cuts off
at zero. -/
theorem equityFrom_known (capital : F) {r : F} (pnl : List F) (hr : isNan r = false) :
    equityFrom capital (r :: pnl) =
      capital * clipLower 0 (1 + r) :: equityFrom (capital * clipLower 0 (1 + r)) pnl := by
  have hgrowth : ¬ isNan (clipLower 0 (1 + r)) = true := by
    rw [isNan_growth, hr]
    exact Bool.false_ne_true
  rw [equityFrom, List.map_cons, loop, if_neg hgrowth]
  rfl

/-- The drawdowns are those of the bars that have a return. -/
theorem known_drawdown (capital : F) (peak : Option F) (pnl : List F) :
    known (drawdownFrom peak (equityFrom capital pnl)) =
      known (drawdownFrom peak (equityFrom capital (known pnl))) := by
  induction pnl generalizing capital peak with
  | nil => rfl
  | cons r pnl ih =>
    rw [known_cons r]
    by_cases hr : isNan r = true
    · rw [if_pos hr, equityFrom_missing capital pnl hr, ← ih]
      have hfirst : isNan (1 - nan / clipLower 1 nan : F) = true := by
        rw [isNan_sub, isNan_div, isNan_nan]
        simp
      have hstep : peakStep peak (nan : F) = (nan, peak) := if_pos isNan_nan
      rw [drawdownFrom_cons, hstep, known_cons, if_pos hfirst]
    · have hr : isNan r = false := Bool.eq_false_iff.mpr hr
      rw [if_neg (by rw [hr]; exact Bool.false_ne_true), equityFrom_known capital pnl hr,
        equityFrom_known capital _ hr, drawdownFrom_cons, drawdownFrom_cons, known_cons,
        known_cons, ih]

/-- The capital at the end is that of the bars that have a return, where the last one
has. -/
theorem getLast?_equity {x : F} (capital : F) (hlast : xs.getLast? = some x)
    (hx : isNan x = false) :
    (equityFrom capital xs).getLast? = (equityFrom capital (known xs)).getLast? := by
  induction xs generalizing capital with
  | nil => cases hlast
  | cons r xs ih =>
    rw [known_cons]
    cases xs with
    | nil =>
      obtain rfl : r = x := Option.some.inj hlast
      rw [if_neg (by rw [hx]; exact Bool.false_ne_true)]
      rfl
    | cons s xs =>
      rw [List.getLast?_cons_cons] at hlast
      by_cases hr : isNan r = true
      · rw [if_pos hr, equityFrom_missing capital _ hr, ← ih capital hlast, List.getLast?_cons]
        have hne : (equityFrom capital (s :: xs)).getLast? ≠ none := by
          rw [equityFrom, ne_eq, List.getLast?_eq_none_iff, ← List.length_eq_zero_iff, length_loop,
            List.length_map]
          exact Nat.succ_ne_zero _
        obtain ⟨z, hz⟩ := Option.ne_none_iff_exists'.mp hne
        rw [hz, Option.getD_some]
      · have hr : isNan r = false := Bool.eq_false_iff.mpr hr
        rw [if_neg (by rw [hr]; exact Bool.false_ne_true), equityFrom_known capital _ hr,
          equityFrom_known capital _ hr, List.getLast?_cons, List.getLast?_cons, ih _ hlast]

/-- Without a return on the last bar there is no capital at the end. -/
theorem getLast?_equity_missing {x : F} (capital : F) (hlast : xs.getLast? = some x)
    (hx : isNan x = true) : (equityFrom capital xs).getLast? = some nan := by
  induction xs generalizing capital with
  | nil => cases hlast
  | cons r xs ih =>
    cases xs with
    | nil =>
      obtain rfl : r = x := Option.some.inj hlast
      rw [equityFrom_missing capital _ hx]
      rfl
    | cons s xs =>
      rw [List.getLast?_cons_cons] at hlast
      by_cases hr : isNan r = true
      · rw [equityFrom_missing capital _ hr, List.getLast?_cons, ih capital hlast]
        rfl
      · rw [equityFrom_known capital _ (Bool.eq_false_iff.mpr hr), List.getLast?_cons,
          ih _ hlast]
        rfl

/-- The last row of a column is among those that have a value, or is missing. -/
theorem last_mem_rows {x : F} (hlast : xs.getLast? = some x) :
    xs.length - 1 ∈ rows 0 xs ↔ isNan x = false := by
  have hrow : xs[xs.length - 1]? = some x := List.getLast?_eq_getElem? ▸ hlast
  constructor
  · rintro ⟨-, y, hy, hnan⟩
    exact Option.some.inj (hy.symm.trans hrow) ▸ hnan
  · exact fun hnan => ⟨Nat.zero_le _, x, hrow, hnan⟩

namespace Performance

variable (power : F → F → Except FigureError F) (p : Performance L F) (e : Enriched F)

omit [IeeeFloat F] in
/-- What comes after the warm-up, as the rows from `metricStart` on. -/
theorem sliceFrom_eq_drop [NpFloat F] (p : Performance L F) (xs : List F) :
    sliceFrom p.metricWindow xs = xs.drop (p.metricStart xs.length) := by
  rw [sliceFrom, metricStart]
  split <;> rfl

/-- The annualised return depends on the returns there are: it counts and multiplies those. -/
theorem cagr_congr (tradingPeriod : ℤ) (h : known xs = known ys) :
    cagr power xs tradingPeriod = cagr power ys tradingPeriod := by
  have hgrowth (zs : List F) : known (zs.map fun r => clipLower 0 (1 + r)) =
      (known zs).map fun r => clipLower 0 (1 + r) := by
    rw [known, List.filter_map]
    refine congrArg _ (List.filter_congr fun r _ => ?_)
    exact congrArg _ (isNan_growth r)
  rw [cagr, cagr, prod, prod, hgrowth, hgrowth, h]

/-- So does the figure of the report, on what comes after the warm-up. -/
theorem annualizedReturnOf_congr (h : known (sliceFrom p.metricWindow xs) =
    known (sliceFrom p.metricWindow ys)) :
    p.annualizedReturnOf power e xs = p.annualizedReturnOf power e ys := by
  rw [annualizedReturnOf, annualizedReturnOf, cagr_congr power _ h]

/-- So does the ratio, as mean, spread and count are of the returns there are. -/
theorem sharpeRatioOf_congr (h : known (sliceFrom p.metricWindow xs) =
    known (sliceFrom p.metricWindow ys)) : p.sharpeRatioOf xs = p.sharpeRatioOf ys := by
  rw [sharpeRatioOf, sharpeRatioOf, sharpeRatio, sharpeRatio]
  exact congrArg (fun zs : List F => if (zs.length : ℤ) < p.minMetricObs then nan
    else if eq (Pandas.std zs) 0 || isNan (Pandas.std zs) then nan
    else mean zs / Pandas.std zs * sqrt (lit (p.config.tradingPeriod : ℚ))) h

/-- So does the greatest drawdown, over all bars. -/
theorem maxDrawdown_congr (h : known xs = known ys) :
    maxKnown (compound xs).2 = maxKnown (compound ys).2 := by
  rw [compound_eq, compound_eq, maxKnown, maxKnown, known_drawdown, known_drawdown 1 none ys, h]

/-- The total return is the curve's last value, so that beside the returns there are it depends on
whether the last bar has one. -/
theorem totalReturnOf_congr (hlen : xs.length = ys.length)
    (h : ∀ i ∈ Figure.bars p xs .totalReturn ∪ Figure.bars p ys .totalReturn, xs[i]? = ys[i]?) :
    totalReturnOf (compound xs).1 = totalReturnOf (compound ys).1 := by
  -- the last row of one has a value when that of the other has
  have hsame {xs ys : List F} (hlen : xs.length = ys.length)
      (h : ∀ i ∈ Figure.bars p xs .totalReturn, xs[i]? = ys[i]?)
      (hmem : xs.length - 1 ∈ rows 0 xs) : ys.length - 1 ∈ rows 0 ys := by
    have hrow := h _ ⟨hmem, hmem⟩
    obtain ⟨-, x, hx, hnan⟩ := hmem
    exact ⟨Nat.zero_le _, x, hlen ▸ hrow.symm.trans hx, hnan⟩
  have hiff : xs.length - 1 ∈ rows 0 xs ↔ ys.length - 1 ∈ rows 0 ys :=
    ⟨hsame hlen fun i hi => h i (.inl hi), hsame hlen.symm fun i hi => (h i (.inr hi)).symm⟩
  rw [compound_eq, compound_eq, totalReturnOf, totalReturnOf, List.getLast?_map, List.getLast?_map]
  cases hx : xs.getLast? with
  | none =>
    have hnil : xs = [] := List.getLast?_eq_none_iff.mp hx
    have hnil' : ys = [] := List.eq_nil_of_length_eq_zero (hlen.symm.trans (hnil ▸ rfl))
    rw [hnil, hnil']
  | some x =>
    obtain ⟨y, hy⟩ : ∃ y, ys.getLast? = some y := by
      refine Option.ne_none_iff_exists'.mp fun hnone => ?_
      rw [List.getLast?_eq_none_iff.mp hnone] at hlen
      rw [List.eq_nil_of_length_eq_zero hlen] at hx
      cases hx
    rw [last_mem_rows hx, last_mem_rows hy] at hiff
    by_cases hnan : isNan x = false
    · have hknown : known xs = known ys := known_congr fun i hi =>
        h i (hi.imp (fun hi => ⟨hi, (last_mem_rows hx).mpr hnan⟩)
          fun hi => ⟨hi, (last_mem_rows hy).mpr (hiff.mp hnan)⟩)
      rw [getLast?_equity 1 hx hnan, getLast?_equity 1 hy (hiff.mp hnan), hknown]
    · rw [getLast?_equity_missing 1 hx (Bool.not_eq_false _ ▸ hnan),
        getLast?_equity_missing 1 hy (Bool.not_eq_false _ ▸ mt hiff.mpr hnan)]

/-- **What a figure reads.** On curves of one length that agree on its bars, a figure is
the same. -/
theorem performanceOf_congr (hlen : xs.length = ys.length) (f : Figure)
    (h : ∀ i ∈ f.bars p xs ∪ f.bars p ys, xs[i]? = ys[i]?) :
    p.performanceOf power e xs (compound xs).1 (compound xs).2 f =
      p.performanceOf power e ys (compound ys).1 (compound ys).2 f := by
  have hslice (h : ∀ i ∈ rows (p.metricStart xs.length) xs ∪ rows (p.metricStart ys.length) ys,
      xs[i]? = ys[i]?) :
      known (sliceFrom p.metricWindow xs) = known (sliceFrom p.metricWindow ys) := by
    rw [sliceFrom_eq_drop, sliceFrom_eq_drop, ← hlen]
    exact known_drop_congr (hlen ▸ h)
  cases f with
  | totalReturn => exact totalReturnOf_congr p hlen h
  | annualizedReturn => exact annualizedReturnOf_congr power p e (hslice h)
  | sharpeRatio => exact congrArg _ (sharpeRatioOf_congr p (hslice h))
  | maxDrawdown => exact congrArg _ (maxDrawdown_congr (known_congr h))
  | calmarRatio =>
    show calmarRatioOf _ _ = calmarRatioOf _ _
    rw [annualizedReturnOf_congr power p e (hslice fun i hi =>
        h i (hi.imp .inl .inl)), maxDrawdown_congr (known_congr fun i hi => h i (hi.imp .inr .inr))]

/-- **The figures of a backtest read their bars**, of the strategy and of buying and holding:
another column of returns of the same length has the same figure if it agrees on them, whatever
its other rows are. -/
theorem figures_read [DecidableEq L] {p : Performance L F} {e : Enriched F}
    (he : p.enrichPerformance = .ok e) (f : Figure) :
    (e.pnl.length = ys.length → (∀ i ∈ f.bars p e.pnl ∪ f.bars p ys, e.pnl[i]? = ys[i]?) →
      p.getStrategyPerformance power e f =
        p.performanceOf power e ys (compound ys).1 (compound ys).2 f) ∧
    (e.buyHold.length = ys.length →
      (∀ i ∈ f.bars p e.buyHold ∪ f.bars p ys, e.buyHold[i]? = ys[i]?) →
      p.getBuyHoldPerformance power e f =
        p.performanceOf power e ys (compound ys).1 (compound ys).2 f) := by
  -- the two curves and their drawdowns are compounded from the two columns
  obtain ⟨⟨outs, finalPosition⟩, -, he⟩ := bind_eq_ok.mp he
  obtain ⟨price, -, he⟩ := bind_eq_ok.mp he
  obtain ⟨⟨prior, turnover, pnl⟩, -, he⟩ := bind_eq_ok.mp he
  cases he
  rw [getStrategyPerformance_eq, getBuyHoldPerformance_eq]
  exact ⟨fun hlen h => performanceOf_congr power p _ hlen f h,
    fun hlen h => performanceOf_congr power p _ hlen f h⟩

end Performance

end
