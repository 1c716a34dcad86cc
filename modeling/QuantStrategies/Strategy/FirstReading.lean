import QuantStrategies.Lib.Ready
import QuantStrategies.Strategy.Live

/-!
# The first reading of an indicator

On data without gaps, on which it divides by nothing that is zero, each indicator
has no reading up to some row and one in every row from there on. Which row that
is differs from one indicator to the next. An exponential mean has a reading in
the first row, a rolling computation in the last one of its first window, the
relative strength a row later, as it starts from differences, and the stochastic
oscillator only after a second window.

Every lemma takes the numbers to be exact, where the only way to lose a reading is a
division by zero, and `NoZeroDivision` says of the frame that there is none. Under it the
rows that have a reading are those from `firstReading` on. The proof goes through each
indicator's computation by the rules of `ReadyFrom`: a window of `w` rows is ready `w - 1`
rows later.
-/

open Pandas NpFloat ExactFloat

namespace TechnicalAnalysis

section

variable {L F : Type} [DecidableEq L] [NpFloat F]

/-- The least window for which an indicator has readings: an empty one has none, and
neither has the deviation of a single value. -/
def leastWindow (name : String) : ℤ := if name = "get_bollinger_band" then 2 else 1

/-- The row in which an indicator has its first reading, of `n` rows. -/
def firstReading (name : String) (w : ℤ) (n : ℕ) : ℕ :=
  if name = "get_ema" then 0 else if leastWindow name ≤ w then warmUp name w else n

/-- The values that an indicator divides by. -/
def divisors (data : Frame L F) (name : String) (w : ℤ) : List F :=
  if name = "get_rsi" then
    rolling rollMean w.toNat (losses ((diff (data.valuesOf "factor")).filter fun x => !isNan x))
  else if name = "get_bollinger_band" then rolling rollStd w.toNat (data.valuesOf "factor")
  else if name = "get_stochastic_oscillator" then
    List.zipWith (· - ·) (rolling (alone max) w.toNat (data.valuesOf "High"))
      (rolling (alone min) w.toNat (data.valuesOf "Low"))
  else []

/-- An indicator of this frame divides by nothing that is zero. -/
def NoZeroDivision (data : Frame L F) (name : String) (w : ℤ) : Prop :=
  ∀ d ∈ divisors data name w, eq d 0 = false

/-- The columns that indicators read. -/
def inputs : List String := ["factor", "High", "Low", "Close"]

/-- A frame without gaps: each row has its own label, and a value in the columns that
indicators read. -/
structure Complete (data : Frame L F) : Prop where
  /-- No label repeats. -/
  nodup : data.index.Nodup
  /-- Every column that an indicator may read has a value in every row. -/
  values : ∀ k ∈ inputs, ∀ c, data.columns.lookup k = some c → ∀ x ∈ c.1, observed x = true

end

variable {K L F : Type} [DecidableEq L] [Field K] [LinearOrder K] [IsStrictOrderedRing K]
  [ExactFloat K F] {data : Frame L F} {xs high low close : List F}

/-- Relative strength of differences that are all there. -/
theorem rsi_readyFrom {w : ℕ} (hw : 0 < w) (h : ReadyFrom 0 xs)
    (hdiv : ∀ d ∈ rolling rollMean w ((xs.map fun x => if lt 0 x then 0 else x).map NpFloat.abs),
      eq d 0 = false) : ReadyFrom (w - 1) (rsi w xs) := by
  have hxs := readyFrom_zero.mp h
  -- neither the rises nor the falls are negative
  have hup : ∀ x ∈ xs.map fun x => if lt x 0 then 0 else x, ∃ a : K, 0 ≤ a ∧ x = fin a := by
    intro y hy
    obtain ⟨x, hx, rfl⟩ := List.mem_map.mp hy
    obtain ⟨a, rfl⟩ := observed_iff.mp (hxs x hx)
    rw [zero_fin]
    split
    · exact ⟨0, le_refl 0, rfl⟩
    · next hneg => exact ⟨a, not_lt.mp (mt lt_fin.mpr hneg), rfl⟩
  have hdown : ∀ x ∈ (xs.map fun x => if lt 0 x then 0 else x).map NpFloat.abs,
      ∃ a : K, 0 ≤ a ∧ x = fin a := by
    intro y hy
    obtain ⟨z, hz, rfl⟩ := List.mem_map.mp hy
    obtain ⟨x, hx, rfl⟩ := List.mem_map.mp hz
    obtain ⟨a, rfl⟩ := observed_iff.mp (hxs x hx)
    rw [zero_fin]
    split
    · exact ⟨|0|, abs_nonneg _, abs_fin 0⟩
    · exact ⟨|a|, abs_nonneg a, abs_fin a⟩
  have hready {ys : List F} (hys : ∀ x ∈ ys, ∃ a : K, 0 ≤ a ∧ x = fin a) :
      ReadyFrom (0 + (w - 1)) (rolling rollMean w ys) :=
    readyFrom_mean hw (readyFrom_zero.mpr fun x hx => by
      obtain ⟨a, -, rfl⟩ := hys x hx
      exact observed_fin a)
  have hrsi : ReadyFrom (Max.max (0 + (w - 1)) (0 + (w - 1))) (rsi w xs) :=
    (hready hup).zipWith (hready hdown)
    (fun u d hud => nan_sub (.inr (nan_div (.inr (nan_add (.inr (nan_div hud)))))))
    fun i u d hi hi' hu hd => by
      obtain ⟨a, ha, rfl⟩ := rolling_mean_nonneg hup (List.mem_of_getElem? hu)
        ((hready hup).after i u hi hu)
      obtain ⟨b, hb, rfl⟩ := rolling_mean_nonneg hdown (List.mem_of_getElem? hd)
        ((hready hdown).after i d hi' hd)
      have hb' : b ≠ 0 := ne_zero_of_eq_false (hdiv _ (List.mem_of_getElem? hd))
      have hsum : 1 + a / b ≠ 0 := (add_pos_of_pos_of_nonneg one_pos (div_nonneg ha hb)).ne'
      rw [lit_fin, one_fin, div_fin a hb', add_fin, div_fin _ hsum, sub_fin]
      exact observed_fin _
  rwa [Nat.zero_add, max_self] at hrsi

/-- The distance to the mean in deviations, of values that are all there. -/
theorem bollingerBand_readyFrom {w : ℕ} (hw : 2 ≤ w) (h : ReadyFrom 0 xs)
    (hdiv : ∀ d ∈ rolling rollStd w xs, eq d 0 = false) : ReadyFrom (w - 1) (bollingerBand w xs) := by
  have hpos : 0 < w := Nat.lt_of_lt_of_le Nat.two_pos hw
  have hobs {xs : List F} (hxs : ReadyFrom 0 xs) {i : ℕ} {x : F} (hx : xs[i]? = some x) :
      ∃ a : K, x = fin a := observed_iff.mp (hxs.after i x (Nat.zero_le i) hx)
  have hdist : ReadyFrom (Max.max 0 (0 + (w - 1)))
      (List.zipWith (· - ·) xs (rolling rollMean w xs)) :=
    h.zipWith (readyFrom_mean hpos h) (fun _ _ => nan_sub) fun i x y _ hi hx hy => by
      obtain ⟨a, rfl⟩ := hobs h hx
      obtain ⟨b, rfl⟩ := observed_iff.mp ((readyFrom_mean hpos h).after i y hi hy)
      rw [sub_fin]
      exact observed_fin _
  have hband := hdist.zipWith (readyFrom_std hw h) (fun _ _ => nan_div) fun i x y hi hi' hx hy => by
    obtain ⟨a, rfl⟩ := observed_iff.mp (hdist.after i x hi hx)
    obtain ⟨b, rfl⟩ := observed_iff.mp ((readyFrom_std hw h).after i y hi' hy)
    rw [div_fin _ (ne_zero_of_eq_false (hdiv _ (List.mem_of_getElem? hy)))]
    exact observed_fin _
  rwa [Nat.zero_add, Nat.zero_max, max_self] at hband

/-- Where the close lies, of bars that are all there. -/
theorem stochasticOscillator_readyFrom {w : ℕ} (hw : 0 < w) (hh : ReadyFrom 0 high)
    (hl : ReadyFrom 0 low) (hc : ReadyFrom 0 close)
    (hdiv : ∀ d ∈ List.zipWith (· - ·) (rolling (alone max) w high) (rolling (alone min) w low),
      eq d 0 = false) :
    ReadyFrom (w - 1 + (w - 1)) (stochasticOscillator w high low close) := by
  have hextreme {f : List F → F} (hf : ∀ as : List K, as ≠ [] → ∃ b : K, f (as.map fin) = fin b)
      {ys : List F} (hys : ReadyFrom 0 ys) : ReadyFrom (0 + (w - 1)) (rolling (alone f) w ys) :=
    hys.rolling hw fun _ zs hlen hobs => by
      obtain ⟨as, rfl⟩ := exists_map_fin hobs
      rw [List.length_map] at hlen
      obtain ⟨b, hb⟩ := hf as (List.ne_nil_of_length_pos (hlen ▸ hw))
      rw [alone, hb]
      exact observed_fin b
  have hhigh := hextreme (fun _ => max_map_fin) hh
  have hlow := hextreme (fun _ => min_map_fin) hl
  have hrise : ReadyFrom (Max.max 0 (0 + (w - 1)))
      (List.zipWith (fun c l => lit 100 * (c - l)) close (rolling (alone min) w low)) :=
    hc.zipWith hlow (fun _ _ h => nan_mul (.inr (nan_sub h))) fun i c l hi hi' hc' hl' => by
      obtain ⟨a, rfl⟩ := observed_iff.mp (hc.after i c hi hc')
      obtain ⟨b, rfl⟩ := observed_iff.mp (hlow.after i l hi' hl')
      rw [lit_fin, sub_fin, mul_fin]
      exact observed_fin _
  have hspan : ReadyFrom (Max.max (0 + (w - 1)) (0 + (w - 1)))
      (List.zipWith (· - ·) (rolling (alone max) w high) (rolling (alone min) w low)) :=
    hhigh.zipWith hlow (fun _ _ => nan_sub) fun i x y hi hi' hx hy => by
      obtain ⟨a, rfl⟩ := observed_iff.mp (hhigh.after i x hi hx)
      obtain ⟨b, rfl⟩ := observed_iff.mp (hlow.after i y hi' hy)
      rw [sub_fin]
      exact observed_fin _
  have hk := hrise.zipWith hspan (fun _ _ => nan_div) fun i x y hi hi' hx hy => by
    obtain ⟨a, rfl⟩ := observed_iff.mp (hrise.after i x hi hx)
    obtain ⟨b, rfl⟩ := observed_iff.mp (hspan.after i y hi' hy)
    rw [div_fin _ (ne_zero_of_eq_false (hdiv _ (List.mem_of_getElem? hy)))]
    exact observed_fin _
  have hd := readyFrom_mean hw hk
  rwa [Nat.zero_add, Nat.zero_max, max_self, max_self] at hd

omit [DecidableEq L] [Field K] [LinearOrder K] [IsStrictOrderedRing K] [ExactFloat K F] in
/-- How a window that is not refused is read. -/
theorem rollingWindow_toNat {w : ℤ} {v : ℕ} (h : rollingWindow w = .ok v) :
    0 ≤ w ∧ v = w.toNat := by
  rw [rollingWindow] at h
  split at h
  · cases h
  · next hw => exact ⟨Int.not_lt.mp hw, (Except.ok.inj h).symm⟩

omit [DecidableEq L] [Field K] [LinearOrder K] [IsStrictOrderedRing K] [ExactFloat K F] in
/-- A column taken out as a series, over the frame's index. -/
theorem series_eq_ok {k : String} {s : Series L F} :
    data.series k = .ok s ↔ ∃ c, data.columns.lookup k = some c ∧ s = ⟨data.index, c⟩ := by
  rw [Frame.series, Result.bind_eq_ok]
  refine exists_congr fun c => and_congr Frame.column_eq_ok ?_
  show Except.ok _ = Except.ok s ↔ _
  rw [Except.ok.injEq, eq_comm]

section Spec

omit [DecidableEq L] [Field K] [LinearOrder K] [IsStrictOrderedRing K] [ExactFloat K F]

variable {w : ℤ} {s : Series L F}

/-- What is computed of one column and a window. -/
theorem bind_series_window {k : String} {g : Series L F → ℕ → Series L F}
    (h : (data.series k >>= fun col => rollingWindow w >>= fun v => .ok (g col v)) = .ok s) :
    ∃ col, data.columns.lookup k = some col ∧ 0 ≤ w ∧ s = g ⟨data.index, col⟩ w.toNat := by
  obtain ⟨t, ht, h⟩ := Result.bind_eq_ok.mp h
  obtain ⟨v, hv, h⟩ := Result.bind_eq_ok.mp h
  cases h
  obtain ⟨col, hcol, rfl⟩ := series_eq_ok.mp ht
  obtain ⟨hw, rfl⟩ := rollingWindow_toNat hv
  exact ⟨col, hcol, hw, rfl⟩

variable [NpFloat F]

/-- A moving average that is answered: of the factor, over a window that is not negative. -/
theorem getSma_eq_ok (h : getSma data w = .ok s) :
    ∃ col, data.columns.lookup "factor" = some col ∧ 0 ≤ w ∧
      s = Series.transform ⟨data.index, col⟩ (rolling rollMean w.toNat) (length_rolling rollMean _) :=
  bind_series_window (g := fun t v => t.transform (rolling rollMean v) (length_rolling rollMean v)) h

/-- An exponential mean that is answered: of the factor, over a span of one at least. -/
theorem getEma_eq_ok (h : getEma data w = .ok s) :
    ∃ col, data.columns.lookup "factor" = some col ∧ 1 ≤ w ∧
      s = Series.transform ⟨data.index, col⟩ (ewm w) (length_ewm w) := by
  obtain ⟨t, ht, h⟩ := Result.bind_eq_ok.mp h
  obtain ⟨v, hv, h⟩ := Result.bind_eq_ok.mp h
  cases h
  obtain ⟨col, hcol, rfl⟩ := series_eq_ok.mp ht
  rw [ewmSpan] at hv
  split at hv
  · cases hv
  · next hspan =>
    cases hv
    exact ⟨col, hcol, Int.not_lt.mp hspan, rfl⟩

/-- Relative strength that is answered: of the differences of the factor, without the rows that
have none. -/
theorem getRsi_eq_ok (h : getRsi data w = .ok s) :
    ∃ col, data.columns.lookup "factor" = some col ∧ 0 ≤ w ∧
      s = (Series.transform ⟨data.index, col⟩ diff length_diff).dropna.transform (rsi w.toNat)
        (length_rsi _) :=
  bind_series_window (g := fun t v =>
    (t.transform diff length_diff).dropna.transform (rsi v) (length_rsi v)) h

/-- A distance from the band that is answered: of the factor, over a window that is not negative.
-/
theorem getBollingerBand_eq_ok (h : getBollingerBand data w = .ok s) :
    ∃ col, data.columns.lookup "factor" = some col ∧ 0 ≤ w ∧
      s = Series.transform ⟨data.index, col⟩ (bollingerBand w.toNat) (length_bollingerBand _) :=
  bind_series_window (g := fun t v =>
    t.transform (bollingerBand v) (length_bollingerBand v)) h

/-- A stochastic oscillator that is answered: of the highs, the lows and the closes. -/
theorem getStochasticOscillator_eq_ok (h : getStochasticOscillator data w = .ok s) :
    ∃ high low close, data.columns.lookup "High" = some high ∧
      data.columns.lookup "Low" = some low ∧ data.columns.lookup "Close" = some close ∧ 0 ≤ w ∧
      s.index = data.index ∧ s.values = stochasticOscillator w.toNat high.1 low.1 close.1 := by
  obtain ⟨high, hhigh, h⟩ := Result.bind_eq_ok.mp h
  obtain ⟨v, hv, h⟩ := Result.bind_eq_ok.mp h
  obtain ⟨low, hlow, h⟩ := Result.bind_eq_ok.mp h
  obtain ⟨close, hclose, h⟩ := Result.bind_eq_ok.mp h
  cases h
  obtain ⟨hw, rfl⟩ := rollingWindow_toNat hv
  exact ⟨high, low, close, Frame.column_eq_ok.mp hhigh, Frame.column_eq_ok.mp hlow,
    Frame.column_eq_ok.mp hclose, hw, rfl, rfl⟩

end Spec

omit [DecidableEq L] in
/-- Relative strength divides by the mean of the falls. -/
theorem divisors_rsi {col : Column F data.index}
    (hcol : data.columns.lookup "factor" = some col) (w : ℤ) :
    divisors data "get_rsi" w = rolling rollMean w.toNat ((((diff col.1).filter fun x =>
      !isNan x).map fun x => if lt 0 x then 0 else x).map NpFloat.abs) := by
  simp only [divisors, Frame.valuesOf_eq hcol, if_true, losses]

omit [DecidableEq L] in
theorem divisors_bollinger {col : Column F data.index}
    (hcol : data.columns.lookup "factor" = some col) (w : ℤ) :
    divisors data "get_bollinger_band" w = rolling rollStd w.toNat col.1 := by
  simp [divisors, Frame.valuesOf_eq hcol]

omit [DecidableEq L] in
theorem divisors_stochastic {highCol lowCol : Column F data.index}
    (hhigh : data.columns.lookup "High" = some highCol)
    (hlow : data.columns.lookup "Low" = some lowCol) (w : ℤ) :
    divisors data "get_stochastic_oscillator" w =
      List.zipWith (· - ·) (rolling (alone max) w.toNat highCol.1)
        (rolling (alone min) w.toNat lowCol.1) := by
  simp [divisors, Frame.valuesOf_eq hhigh, Frame.valuesOf_eq hlow]

omit [Field K] [LinearOrder K] [IsStrictOrderedRing K] [ExactFloat K F] in
/-- An indicator refuses a negative window. -/
theorem indicator_nonneg [NpFloat F] {name : String} {w : ℤ} {c : Column F data.index}
    (hc : indicator data name w = .ok c) : 0 ≤ w := by
  obtain ⟨s, hs, -⟩ := Result.bind_eq_ok.mp hc
  rw [method] at hs
  split_ifs at hs
  · obtain ⟨-, -, hw, -⟩ := getSma_eq_ok hs
    exact hw
  · obtain ⟨-, -, hw, -⟩ := getEma_eq_ok hs
    exact le_trans zero_le_one hw
  · obtain ⟨-, -, hw, -⟩ := getRsi_eq_ok hs
    exact hw
  · obtain ⟨-, -, hw, -⟩ := getBollingerBand_eq_ok hs
    exact hw
  · obtain ⟨-, -, -, -, -, -, hw, -⟩ := getStochasticOscillator_eq_ok hs
    exact hw

/-- A window that has readings, and one that never has. -/
theorem readyFrom_firstReading {name : String} {w : ℤ} {n : ℕ} (hema : name ≠ "get_ema")
    (hread : leastWindow name ≤ w → ReadyFrom (warmUp name w) xs)
    (hnever : w < leastWindow name → ReadyFrom n xs) :
    ReadyFrom (firstReading name w n) xs := by
  rw [firstReading, if_neg hema]
  by_cases h : leastWindow name ≤ w
  · rw [if_pos h]
    exact hread h
  · rw [if_neg h]
    exact hnever (Int.not_le.mp h)

/-- **The first reading of each indicator**, and one in every row from there on. A mean over a
window reads from the window's last bar on and an exponential one from the first; a gap in the
data or a division by zero would leave later rows without a reading. -/
theorem indicator_readyFrom {name : String} {w : ℤ} {c : Column F data.index}
    (hc : indicator data name w = .ok c) (hdata : Complete data)
    (hdiv : NoZeroDivision data name w) :
    ReadyFrom (firstReading name w data.index.length) c.1 := by
  obtain ⟨s, hs, hc⟩ := Result.bind_eq_ok.mp hc
  have hown (hidx : s.index = data.index) : c.1 = s.values := by
    rw [Series.reindex_self hidx] at hc
    cases hc
    rfl
  have hready {k : String} (hk : k ∈ inputs) {col : Column F data.index}
      (hcol : data.columns.lookup k = some col) : ReadyFrom 0 col.1 :=
    readyFrom_zero.mpr (hdata.values k hk col hcol)
  rw [method] at hs
  split_ifs at hs with hsma hema hrsi hbb hso
  · subst hsma
    obtain ⟨col, hcol, hw, rfl⟩ := getSma_eq_ok hs
    rw [hown rfl]
    refine readyFrom_firstReading (by decide) (fun hpos => ?_) fun hlt => ?_
    · have hpos' : 1 ≤ w := hpos
      have hsma := readyFrom_mean (w := w.toNat) (by omega) (hready (by decide) hcol)
      rwa [Nat.zero_add] at hsma
    · have hlt' : w < 1 := hlt
      exact .never (isNan_rolling fun hpos => by omega) (Series.length_values _).le
  · subst hema
    obtain ⟨col, hcol, hw, rfl⟩ := getEma_eq_ok hs
    rw [hown rfl]
    exact readyFrom_ewm hw (hready (by decide) hcol)
  · subst hrsi
    obtain ⟨col, hcol, hw, rfl⟩ := getRsi_eq_ok hs
    rcases Nat.eq_zero_or_pos data.index.length with hzero | hsome
    · have hc0 : c.1.length = 0 := c.2.trans hzero
      exact .never (fun x hx => absurd (List.length_pos_of_mem hx) (by omega)) (by omega)
    have hdiff : ReadyFrom 1 (diff col.1) :=
      .lagged fun i prev cur hprev hcur => by
        obtain ⟨a, rfl⟩ := observed_iff.mp
          ((hready (by decide) hcol).after i prev (Nat.zero_le i) hprev)
        obtain ⟨b, rfl⟩ := observed_iff.mp
          ((hready (by decide) hcol).after (i + 1) cur (Nat.zero_le _) hcur)
        rw [sub_fin]
        exact observed_fin _
    have htail : ReadyFrom 0 (diff col.1).tail := List.drop_one ▸ hdiff.drop 1
    obtain ⟨c', hc', hvalues⟩ := rsiSeries_reindex (s := ⟨data.index, col⟩) w.toNat hdata.nodup
      fun x hx => isNan_of_observed (readyFrom_zero.mp htail x hx)
    have hrow : c.1 = nan :: rsi w.toNat (diff col.1).tail := by
      have hcc : c' = c := Except.ok.inj (hc'.symm.trans hc)
      exact hcc ▸ hvalues (List.ne_nil_of_length_pos hsome)
    rw [hrow]
    refine readyFrom_firstReading (by decide) (fun hpos => ?_) fun hlt => ?_
    · have hpos' : 1 ≤ w := hpos
      refine (rsi_readyFrom (by omega) htail fun d hd => hdiv d ?_).cons isNan_nan
      rw [divisors_rsi hcol, hdiff.filter_known, List.drop_one]
      exact hd
    · have hlt' : w < 1 := hlt
      refine .never (List.forall_mem_cons.mpr ⟨isNan_nan, ?_⟩) (hrow ▸ c.2.le)
      exact forall_mem_zipWith (fun _ _ hd => nan_sub (.inr (nan_div (.inr (nan_add
        (.inr (nan_div (.inr hd)))))))) (isNan_rolling fun hpos => by omega)
  · subst hbb
    obtain ⟨col, hcol, hw, rfl⟩ := getBollingerBand_eq_ok hs
    rw [hown rfl]
    refine readyFrom_firstReading (by decide) (fun hpos => ?_) fun hlt => ?_
    · have hpos' : 2 ≤ w := hpos
      exact bollingerBand_readyFrom (by omega) (hready (by decide) hcol) fun d hd =>
        hdiv d (divisors_bollinger hcol w ▸ hd)
    · have hlt' : w < 2 := hlt
      have hstd : ∀ y ∈ rolling rollStd w.toNat col.1, isNan y = true :=
        isNan_rolling fun hpos _ zs hlen => by
          rw [rollStd_eq, std, if_pos (by omega), isNan_nan]
      exact .never (forall_mem_zipWith (fun _ _ hy => nan_div (.inr hy)) hstd)
        (Series.length_values _).le
  · subst hso
    obtain ⟨highCol, lowCol, closeCol, hhigh, hlow, hclose, hw, hidx, hvalues⟩ :=
      getStochasticOscillator_eq_ok hs
    have hrow : c.1 = stochasticOscillator w.toNat highCol.1 lowCol.1 closeCol.1 :=
      (hown hidx).trans hvalues
    rw [hrow]
    refine readyFrom_firstReading (by decide) (fun hpos => ?_) fun hlt => ?_
    · have hpos' : 1 ≤ w := hpos
      exact stochasticOscillator_readyFrom (by omega) (hready (by decide) hhigh)
        (hready (by decide) hlow) (hready (by decide) hclose) fun d hd =>
          hdiv d (divisors_stochastic hhigh hlow w ▸ hd)
    · have hlt' : w < 1 := hlt
      exact .never (isNan_rolling fun hpos => by omega) (hrow ▸ c.2.le)

end TechnicalAnalysis
