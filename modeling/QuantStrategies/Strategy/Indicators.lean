import QuantStrategies.Lib.Result
import QuantStrategies.Lib.Rolling

/-!
# Indicators

`TechnicalAnalysis`: what each indicator makes of a frame with a `factor`
column. All of them but one keep the index of the frame. `getRsi` drops the rows
that have no difference, computes on what is left, and `indicator` puts the
result back by label.

An indicator answers a column with its labels, or refuses the window it is asked with. Which
windows it refuses is part of the model: a rolling window may not be negative, and the span
of an exponential mean is at least one. That is where a search over a range of windows can
fail as a whole although each of its reports would succeed.
-/

namespace TechnicalAnalysis

open Pandas NpFloat Result

variable {L F : Type} [DecidableEq L] [NpFloat F]

/-- `TechnicalAnalysis(data)`: the frame, if it has what every indicator needs. -/
def init (data : Frame L F) : Except PyError (Frame L F) :=
  if data.hasColumn "factor" then .ok data
  else .error (.valueError "DataFrame must contain a 'factor' column")

/-- `get_sma`: simple moving average. -/
def getSma (data : Frame L F) (period : ℤ) : Except PyError (Series L F) := do
  let factor ← data.series "factor"
  let w ← rollingWindow period
  return factor.transform (rolling rollMean w) (length_rolling rollMean w)

/-- `get_ema`: exponential moving average. -/
def getEma (data : Frame L F) (period : ℤ) : Except PyError (Series L F) := do
  let factor ← data.series "factor"
  let span ← ewmSpan period
  return factor.transform (ewm span) (length_ewm span)

/-- The index of relative strength, from the differences. -/
def rsi (w : ℕ) (delta : List F) : List F :=
  let up := delta.map fun x => if lt x 0 then 0 else x
  let down := delta.map fun x => if lt 0 x then 0 else x
  let rollUp := rolling rollMean w up
  let rollDown := rolling rollMean w (down.map NpFloat.abs)
  List.zipWith (fun u d => lit 100 - lit 100 / (1 + u / d)) rollUp rollDown

/-- The strength index has an entry for each difference, so that the labels of the differences are
its labels too. -/
@[simp] theorem length_rsi (w : ℕ) (delta : List F) : (rsi w delta).length = delta.length := by
  simp only [rsi, List.length_zipWith, length_rolling, List.length_map, min_self]

/-- `get_rsi`: relative strength index, from 0 to 100. It has a row for each
difference there is, so never one for the first row. -/
def getRsi (data : Frame L F) (period : ℤ) : Except PyError (Series L F) := do
  let factor ← data.series "factor"
  let delta := (factor.transform diff length_diff).dropna
  let w ← rollingWindow period
  return delta.transform (rsi w) (length_rsi w)

/-- The distance to the mean, in standard deviations. -/
def bollingerBand (w : ℕ) (factor : List F) : List F :=
  let sma := rolling rollMean w factor
  let rstd := rolling rollStd w factor
  List.zipWith (· / ·) (List.zipWith (· - ·) factor sma) rstd

@[simp] theorem length_bollingerBand (w : ℕ) (factor : List F) :
    (bollingerBand w factor).length = factor.length := by
  simp only [bollingerBand, List.length_zipWith, length_rolling, min_self]

/-- `get_bollinger_band`: Bollinger band z-score. -/
def getBollingerBand (data : Frame L F) (period : ℤ) : Except PyError (Series L F) := do
  let factor ← data.series "factor"
  let w ← rollingWindow period
  return factor.transform (bollingerBand w) (length_bollingerBand w)

/-- Where the close lies between the lowest low and the highest high. -/
def stochasticK (w : ℕ) (high low close : List F) : List F :=
  let high := rolling (alone max) w high
  let low := rolling (alone min) w low
  List.zipWith (· / ·)
    (List.zipWith (fun c l => lit 100 * (c - l)) close low) (List.zipWith (· - ·) high low)

/-- The same, smoothed. -/
def stochasticOscillator (w : ℕ) (high low close : List F) : List F :=
  rolling rollMean w (stochasticK w high low close)

/-- `get_stochastic_oscillator`. It reads `High`, `Low` and `Close`, and not
`factor`. -/
def getStochasticOscillator (data : Frame L F) (period : ℤ) : Except PyError (Series L F) := do
  let high ← data.column "High"
  let w ← rollingWindow period
  let low ← data.column "Low"
  let close ← data.column "Close"
  return ⟨data.index, stochasticOscillator w high.1 low.1 close.1, by
    simp only [stochasticOscillator, stochasticK, length_rolling, List.length_zipWith, high.2,
      low.2, close.2, min_self]⟩

/-- `getattr(self, name)(period)`. No other attribute of the class can be called
with a period and returns a series. -/
def method (data : Frame L F) (name : String) (period : ℤ) : Except PyError (Series L F) :=
  if name = "get_sma" then getSma data period
  else if name = "get_ema" then getEma data period
  else if name = "get_rsi" then getRsi data period
  else if name = "get_bollinger_band" then getBollingerBand data period
  else if name = "get_stochastic_oscillator" then getStochasticOscillator data period
  else .error (.attributeError name)

/-- `indicator`: the indicator of that name, aligned to the frame. -/
def indicator (data : Frame L F) (name : String) (period : ℤ) :
    Except PyError (Column F data.index) := do
  let s ← method data name period
  s.reindex data.index

/-! ## Which windows an indicator takes -/

/-- Whether the indicator of that name takes the period: a span is one row or
more, and a rolling window may be empty. -/
def accepts (name : String) (period : ℤ) : Bool :=
  if name = "get_ema" then decide (1 ≤ period) else decide (0 ≤ period)

omit [DecidableEq L] [NpFloat F] in
/-- **What construction asks**: a column called `factor`, and nothing else of the frame, which is
kept as it is. -/
theorem init_eq_ok {data ta : Frame L F} :
    init data = .ok ta ↔ data.hasColumn "factor" = true ∧ ta = data := by
  rw [init]
  split
  · rw [Except.ok.injEq, eq_comm]
    tauto
  · simp_all

/-- A window that is not negative is taken, zero included, and is the number it is. -/
theorem rollingWindow_eq_ok {period : ℤ} (h : 0 ≤ period) :
    rollingWindow period = .ok period.toNat := by
  rw [rollingWindow, if_neg (Int.not_lt.mpr h)]

/-- A span of at least one is taken. Zero, which a rolling window may be, is refused here. -/
theorem ewmSpan_eq_ok {period : ℤ} (h : 1 ≤ period) : ewmSpan period = .ok period := by
  rw [ewmSpan, if_neg (Int.not_lt.mpr h)]

omit [DecidableEq L] [NpFloat F] in
/-- A method that reads a rolling window gives the same rows for every window. -/
private theorem rolling_index {x : Except PyError (Series L F)} (g : Series L F → ℕ → Series L F)
    (hg : ∀ s w w', (g s w).index = (g s w').index) {w w' : ℤ} {s : Series L F}
    (h : (do let t ← x; let n ← rollingWindow w; return g t n) = Except.ok s) (hw' : 0 ≤ w') :
    ∃ s', (do let t ← x; let n ← rollingWindow w'; return g t n) = Except.ok s' ∧
      s'.index = s.index := by
  obtain ⟨t, ht, h⟩ := bind_eq_ok.mp h
  obtain ⟨n, -, h⟩ := bind_eq_ok.mp h
  cases h
  refine ⟨g t w'.toNat, bind_eq_ok.mpr ⟨t, ht, ?_⟩, hg t _ n⟩
  rw [rollingWindow_eq_ok hw']
  rfl

omit [DecidableEq L] in
/-- The rows an indicator has do not depend on the period. -/
theorem method_index {data : Frame L F} {name : String} {w w' : ℤ} {s : Series L F}
    (h : method data name w = .ok s) (hw' : accepts name w' = true) :
    ∃ s', method data name w' = .ok s' ∧ s'.index = s.index := by
  have hle : name ≠ "get_ema" → 0 ≤ w' := fun hne => by
    rw [accepts, if_neg hne] at hw'
    exact of_decide_eq_true hw'
  rw [method] at h ⊢
  split_ifs at h ⊢ with hsma hema hrsi hbb hso
  · exact rolling_index (fun t n => t.transform (rolling rollMean n) (length_rolling rollMean n))
      (fun _ _ _ => rfl) h (hle (by rw [hsma]; decide))
  · obtain ⟨t, ht, h⟩ := bind_eq_ok.mp h
    obtain ⟨n, -, h⟩ := bind_eq_ok.mp h
    cases h
    rw [accepts, if_pos hema] at hw'
    refine ⟨_, bind_eq_ok.mpr ⟨t, ht, bind_eq_ok.mpr
      ⟨w', ewmSpan_eq_ok (of_decide_eq_true hw'), rfl⟩⟩, rfl⟩
  · exact rolling_index
      (fun t n => (t.transform diff length_diff).dropna.transform (rsi n) (length_rsi n))
      (fun _ _ _ => rfl) h (hle hema)
  · exact rolling_index (fun t n => t.transform (bollingerBand n) (length_bollingerBand n))
      (fun _ _ _ => rfl) h (hle hema)
  · obtain ⟨high, hhigh, h⟩ := bind_eq_ok.mp h
    obtain ⟨n, -, h⟩ := bind_eq_ok.mp h
    obtain ⟨low, hlow, h⟩ := bind_eq_ok.mp h
    obtain ⟨close, hclose, h⟩ := bind_eq_ok.mp h
    cases h
    exact ⟨_, bind_eq_ok.mpr ⟨high, hhigh, bind_eq_ok.mpr ⟨_, rollingWindow_eq_ok (hle hema),
      bind_eq_ok.mpr ⟨low, hlow, bind_eq_ok.mpr ⟨close, hclose, rfl⟩⟩⟩⟩, rfl⟩

/-- A frame on which an indicator can be computed for one period is one on which
it can be computed for any that it takes. -/
theorem indicator_of_accepts {data : Frame L F} {name : String} {w w' : ℤ}
    {c : Column F data.index} (h : indicator data name w = .ok c)
    (hw' : accepts name w' = true) : ∃ c', indicator data name w' = .ok c' := by
  obtain ⟨s, hs, h⟩ := bind_eq_ok.mp h
  obtain ⟨s', hs', hidx⟩ := method_index hs hw'
  obtain ⟨c', hc'⟩ := Series.reindex_of_index h hidx
  exact ⟨c', bind_eq_ok.mpr ⟨s', hs', hc'⟩⟩

/-- The converse reading: a rolling window that was taken is not negative. The engines use it to
drop the sign of a window that an indicator has already been asked with. -/
theorem nonneg_of_rollingWindow {w : ℤ} {n : ℕ} (h : rollingWindow w = .ok n) : 0 ≤ w := by
  by_contra hneg
  rw [rollingWindow, if_pos (Int.not_le.mp hneg)] at h
  cases h

/-- An indicator that is computed takes its period. -/
theorem accepts_of_indicator {data : Frame L F} {name : String} {w : ℤ}
    {c : Column F data.index} (h : indicator data name w = .ok c) : accepts name w = true := by
  obtain ⟨s, hs, -⟩ := bind_eq_ok.mp h
  rw [method] at hs
  by_cases hema : name = "get_ema"
  · rw [if_neg (by rw [hema]; decide), if_pos hema] at hs
    obtain ⟨t, -, hs⟩ := bind_eq_ok.mp hs
    obtain ⟨n, hn, -⟩ := bind_eq_ok.mp hs
    rw [accepts, if_pos hema]
    refine decide_eq_true (Int.not_lt.mp fun hlt => ?_)
    rw [ewmSpan, if_pos hlt] at hn
    cases hn
  · rw [if_neg hema] at hs
    rw [accepts, if_neg hema]
    split_ifs at hs with hsma hrsi hbb hso
    all_goals
      obtain ⟨t, -, hs⟩ := bind_eq_ok.mp hs
      obtain ⟨n, hn, -⟩ := bind_eq_ok.mp hs
      exact decide_eq_true (nonneg_of_rollingWindow hn)

end TechnicalAnalysis
