import QuantStrategies.Strategy.FirstReading
import QuantStrategies.Strategy.Search

/-!
# Which bars are scored

On data without gaps a strategy has no position up to the first bar on which all of
its factors have a reading, and one on every bar from there on. Its returns start
a bar later, as a bar earns on the position that it is entered with, and of these
the metrics take what comes after the largest window. So the number of bars that
are scored is a matter of arithmetic (`metricNObs_eq`).

The count has three parts, each a lemma: on which bars the combined position is known, on
which of those a return is, and how many are left once the warm-up is cut. The first is an
`iff` for every bar (`PositionsFrom`), so that the last is a subtraction.
-/

open Pandas NpFloat Result

namespace Performance

section

variable {L F : Type} [DecidableEq L] [NpFloat F]

/-- `get_metric_n_obs`: the finite returns after indicator warmup. -/
def metricNObs (p : Performance L F) (e : Enriched F) : ℕ :=
  ((sliceFrom p.metricWindow e.pnl).filter fun x => !isNan x).length

/-- An indicator that a strategy computes, and the frame that it computes it on. -/
inductive Computes (p : Performance L F) : Frame L F → String → ℤ → Prop
  | single {frame : Frame L F} {w : ℤ} : p.isMulti = false →
      p.frames.singleFactorFrame = .ok frame → p.windows[0]? = some w →
      Computes p frame p.config.indicatorName w
  | multi {i : ℕ} {sub : SubStrategy F} {c : Column F p.frames.main.index} {w : ℤ} :
      p.isMulti = true → p.subs[i]? = some sub → p.frames.factor sub = .ok c →
      p.windows[i]? = some w →
      Computes p (Frame.single "factor" p.frames.main.index c) sub.indicatorName w

/-- No indicator of a strategy divides by zero. -/
def NoZeroDivision (p : Performance L F) : Prop :=
  ∀ frame name w, p.Computes frame name w → TechnicalAnalysis.NoZeroDivision frame name w

/-- The bar of the first position of a strategy, of `n` bars. -/
def firstPosition (p : Performance L F) (n : ℕ) : ℕ :=
  (p.indicators.map fun e => TechnicalAnalysis.firstReading e.1 e.2 n).foldr Max.max 0

end

end Performance

section

variable {L F : Type} [DecidableEq L] [NpFloat F]

/-- Data without gaps: each bar of the traded product is there once, with a positive
price, and each factor has a value on it. -/
structure GapFreeBars (ff : FactorFrames L F) : Prop where
  /-- Each bar is there once. -/
  nodup : ff.main.index.Nodup
  /-- Every factor that can be read has a value on every bar. -/
  factor : ∀ sub ∈ ff.config.getSubstrategies, ∀ c, ff.factor sub = .ok c →
    ∀ x ∈ c.1, observed x = true
  /-- So has the traded product in the columns that an indicator may read. -/
  own : ∀ k ∈ TechnicalAnalysis.inputs, ∀ c, ff.main.columns.lookup k = some c →
    ∀ x ∈ c.1, observed x = true
  /-- And a price above zero, so that each bar has a return on the one in front. -/
  price : ∀ c, ff.main.columns.lookup "price" = some c →
    ∀ x ∈ c.1, observed x = true ∧ lt 0 x = true

/-- Positions that are known from a bar on, and not before. -/
def PositionsFrom (r : ℕ) (ps : List Position) : Prop :=
  ∀ i p, ps[i]? = some p → (p = none ↔ i < r)

/-- A signal is missing where the reading is. -/
theorem SignalDirection.call_none (d : SignalDirection) (s : F) {xs : List F} {i : ℕ}
    {p : Position} (hp : (d.call xs s)[i]? = some p) :
    ∃ x, xs[i]? = some x ∧ (p = none ↔ isNan x = true) := by
  have hthreshold {long short : F → Bool} {p : Position}
      (hp : (threshold long short xs)[i]? = some p) :
      ∃ x, xs[i]? = some x ∧ (p = none ↔ isNan x = true) := by
    obtain ⟨x, hx, rfl⟩ := Option.map_eq_some_iff.mp (List.getElem?_map ▸ hp)
    refine ⟨x, hx, ?_⟩
    split
    · next h => exact iff_of_true rfl h
    · next h => exact iff_of_false (fun hnone => by split_ifs at hnone) h
  have hlong {long short : F → Bool} {p : Position}
      (hp : (longOnly (threshold long short xs))[i]? = some p) :
      ∃ x, xs[i]? = some x ∧ (p = none ↔ isNan x = true) := by
    obtain ⟨q, hq, rfl⟩ := Option.map_eq_some_iff.mp (List.getElem?_map ▸ hp)
    obtain ⟨x, hx, hnan⟩ := hthreshold hq
    refine ⟨x, hx, Iff.trans ?_ hnan⟩
    split
    · next h => exact iff_of_false (Option.some_ne_none _) (h ▸ Option.some_ne_none _)
    · exact Iff.rfl
  cases d
  all_goals
    first
      | exact hthreshold hp
      | exact hlong hp

/-- Readings from a bar on make positions from that bar on, whatever the signal function does with
them. -/
theorem Pandas.ReadyFrom.positionsFrom {r : ℕ} {xs : List F} (h : ReadyFrom r xs) (d : SignalDirection)
    (s : F) : PositionsFrom r (d.call xs s) := by
  intro i p hp
  obtain ⟨x, hx, hnan⟩ := d.call_none s hp
  rw [hnan, ← Nat.not_le, ← h.isNan_eq_false_iff hx, Bool.not_eq_false]

/-- The largest of a list is one of it, and no other is larger. -/
theorem pyMax_eq_ok {xs : List ℤ} {m : ℤ} (h : pyMax xs = .ok m) : m ∈ xs ∧ ∀ x ∈ xs, x ≤ m := by
  have hfold (ys : List ℤ) : ∀ y : ℤ,
      ys.foldl Max.max y ∈ y :: ys ∧ ∀ x ∈ y :: ys, x ≤ ys.foldl Max.max y := by
    induction ys with
    | nil => exact fun y => ⟨List.mem_singleton_self y, fun x hx => (List.mem_singleton.mp hx).le⟩
    | cons z ys ih =>
      intro y
      obtain ⟨hmem, hle⟩ := ih (Max.max y z)
      obtain ⟨hmax, hle⟩ := List.forall_mem_cons.mp hle
      rw [List.foldl_cons]
      refine ⟨?_, List.forall_mem_cons.mpr ⟨(le_max_left y z).trans hmax,
        List.forall_mem_cons.mpr ⟨(le_max_right y z).trans hmax, hle⟩⟩⟩
      rcases List.mem_cons.mp hmem with hmem | hmem
      · rw [hmem]
        rcases max_choice y z with hyz | hyz
        · rw [hyz]
          exact List.mem_cons_self
        · rw [hyz]
          exact List.mem_cons_of_mem _ List.mem_cons_self
      · exact List.mem_cons_of_mem _ (List.mem_cons_of_mem _ hmem)
  match xs with
  | x :: xs => exact Except.ok.inj h ▸ hfold xs x

/-- There are as many returns as there are positions and price changes both. -/
theorem length_strategyPnl {pos chg : List F} {cost : F} {r : List F × List F × List F}
    (h : strategyPnl pos chg cost = .ok r) : r.2.2.length = Min.min pos.length chg.length := by
  rw [strategyPnl] at h
  split at h
  · cases h
  · cases h
    simp only [List.length_zipWith, length_shift]
    omega

/-- The largest of some bars is reached when all of them are. -/
theorem foldr_max_le {rs : List ℕ} {i : ℕ} : rs.foldr Max.max 0 ≤ i ↔ ∀ r ∈ rs, r ≤ i := by
  induction rs with
  | nil => simp
  | cons r rs ih => rw [List.foldr_cons, max_le_iff, ih, List.forall_mem_cons]

/-- A row has a position when, and only when, each of its factors has one. -/
theorem combineRow_none {conj : Conjunction} {signs : List Position} (htwo : 2 ≤ signs.length)
    (c : List F) : combineRow conj signs (some c) = none ↔ none ∈ signs := by
  constructor
  · intro hnone
    by_contra hknown
    exact combineRow_known (fun s hs h => hknown (h ▸ hs)) htwo c hnone
  · intro hmem
    have hany : signs.any (· = none) = true := List.any_eq_true.mpr ⟨none, hmem, rfl⟩
    simp only [combineRow, hany, if_true]

/-- The rows on which one of several factors has no position. -/
theorem mem_rowSigns_none {n i : ℕ} {rs : List ℕ} {ps : List (List Position)}
    (h : List.Forall₂ PositionsFrom rs ps) (hps : ∀ p ∈ ps, p.length = n) (hi : i < n) :
    none ∈ rowSigns ps i ↔ ∃ r ∈ rs, i < r := by
  induction h with
  | nil => simp [rowSigns]
  | @cons r p rs ps hp _ ih =>
    obtain ⟨hlen, hps⟩ := List.forall_mem_cons.mp hps
    have hlt : i < p.length := hlen.symm ▸ hi
    have hsigns : rowSigns (p :: ps) i = p[i] :: rowSigns ps i := by
      show List.filterMap _ (_ :: _) = _
      rw [List.filterMap_cons, List.getElem?_eq_getElem hlt]
      rfl
    rw [hsigns, List.mem_cons, List.exists_mem_cons_iff, ih hps, eq_comm,
      hp i p[i] (List.getElem?_eq_getElem hlt)]

/-- The combined positions are known from the bar on that is the last of the factors'
first ones. -/
theorem combinePositions_from {n : ℕ} {rs : List ℕ} {ps : List (List Position)}
    {ss : List (List F)} {conjunction : String} {combined : List Position}
    (h : combinePositions ps conjunction (some ss) = .ok combined)
    (hps : ∀ p ∈ ps, p.length = n) (hss : ∀ s ∈ ss, s.length = n) (htwo : 2 ≤ ps.length)
    (hlen : ss.length = ps.length) (hfrom : List.Forall₂ PositionsFrom rs ps) :
    PositionsFrom (rs.foldr Max.max 0) combined ∧ combined.length = n := by
  rw [combinePositions_eq conjunction hps hss htwo hlen] at h
  obtain ⟨conj, -, h⟩ := bind_eq_ok.mp h
  cases h
  refine ⟨fun i p hp => ?_, by rw [List.length_map, List.length_range]⟩
  rw [getElem?_range_map] at hp
  split at hp
  · next hi =>
    cases hp
    rw [combineRow_none (by rwa [rowSigns_length hps hi]), mem_rowSigns_none hfrom hps hi,
      ← Nat.not_le, foldr_max_le, not_forall]
    simp only [not_forall, Nat.not_le, exists_prop]
  · cases hp

namespace Performance

/-- A strategy whose outputs can be computed has a window that is not negative. -/
theorem window_nonneg {p : Performance L F} {outs : List (FactorOutput F)}
    {finalPosition : List Position} (h : p.factorOutputs = .ok (outs, finalPosition)) :
    ∃ w ∈ p.windows, 0 ≤ w := by
  obtain ⟨hmulti, -, houts, -⟩ | ⟨-, out, hout, -, -⟩ := factorOutputs_parts.mp h
  · have hpos : 0 < p.subs.zipIdx.length := by
      rw [List.length_zipIdx]
      exact Nat.lt_of_succ_lt (of_decide_eq_true hmulti)
    obtain ⟨out, -, hout⟩ := exists_mem_of_mapM houts (List.getElem_mem hpos)
    obtain ⟨_, w, _, _, _, -, hw, -, hind, -, -⟩ := factorOutput_parts.mp hout
    exact ⟨w, List.mem_of_getElem? (item_eq_ok.mp hw), TechnicalAnalysis.indicator_nonneg hind⟩
  · obtain ⟨_, _, w, _, _, -, -, hw, hind, -, -⟩ := singleFactorOutputs_parts.mp hout
    exact ⟨w, List.mem_of_getElem? (item_eq_ok.mp hw), TechnicalAnalysis.indicator_nonneg hind⟩

end Performance

end

section

variable {K L F : Type} [DecidableEq L] [Field K] [LinearOrder K] [IsStrictOrderedRing K]
  [ExactFloat K F] {p : Performance L F}

namespace Performance

/-- One factor's columns: as many rows as there are bars, and positions from the bar on
that has the first reading. -/
structure FactorFrom (n : ℕ) (e : String × ℤ) (out : FactorOutput F) : Prop where
  /-- Its positions start with its readings. -/
  positions : PositionsFrom (TechnicalAnalysis.firstReading e.1 e.2 n) out.position
  /-- They are as many as there are bars. -/
  length : out.position.length = n
  /-- So are its readings. -/
  indicator : out.indicator.length = n

/-- What comes of an indicator's readings. -/
theorem factorFrom_of_indicator {frame : Frame L F} {name : String} {w : ℤ}
    {c : Column F frame.index} (hc : TechnicalAnalysis.indicator frame name w = .ok c)
    (hframe : TechnicalAnalysis.Complete frame)
    (hdiv : TechnicalAnalysis.NoZeroDivision frame name w) (d : SignalDirection) (s : F)
    (factor : List F) :
    FactorFrom frame.index.length (name, w) ⟨factor, c.1, d.call c.1 s⟩ where
  positions := (TechnicalAnalysis.indicator_readyFrom hc hframe hdiv).positionsFrom d s
  length := (SignalDirection.length_call d c.1 s).trans c.2
  indicator := c.2

/-- The frame of a single factor has no gaps. -/
theorem complete_singleFactorFrame {frame : Frame L F} (hgap : GapFreeBars p.frames)
    (hframe : p.frames.singleFactorFrame = .ok frame) :
    frame.index = p.frames.main.index ∧ TechnicalAnalysis.Complete frame := by
  obtain ⟨sub, hsub, hframe⟩ := bind_eq_ok.mp hframe
  have hmem : sub ∈ p.frames.config.getSubstrategies := by
    rw [item] at hsub
    split at hsub
    · next hx => exact Except.ok.inj hsub ▸ List.mem_of_getElem? hx
    · cases hsub
  dsimp only at hframe
  split at hframe
  · obtain ⟨c, hc, hframe⟩ := bind_eq_ok.mp hframe
    cases hframe
    refine ⟨rfl, hgap.nodup, fun k hk c' hc' => ?_⟩
    have hset : (Frame.assign "factor" c p.frames.main.columns).lookup k = some c' := hc'
    rw [Frame.lookup_assign] at hset
    split at hset
    · exact Option.some.inj hset ▸ hgap.factor sub hmem c hc
    · exact hgap.own k hk c' hset
  · cases hframe
    exact ⟨rfl, hgap.nodup, hgap.own⟩

/-- A frame of one factor alone has no gaps. -/
theorem complete_single {sub : SubStrategy F} {c : Column F p.frames.main.index}
    (hgap : GapFreeBars p.frames) (hmem : sub ∈ p.frames.config.getSubstrategies)
    (hc : p.frames.factor sub = .ok c) :
    TechnicalAnalysis.Complete (Frame.single "factor" p.frames.main.index c) where
  nodup := hgap.nodup
  values k _ c' hc' := by
    have hlook : List.lookup k [("factor", c)] = some c' := hc'
    rw [List.lookup_cons] at hlook
    split at hlook
    · exact Option.some.inj hlook ▸ hgap.factor sub hmem c hc
    · cases hlook

/-- The columns of a single factor. -/
theorem singleFactorOutputs_from {out : FactorOutput F} (hout : p.singleFactorOutputs = .ok out)
    (hsingle : p.isMulti = false) (hgap : GapFreeBars p.frames) (hdiv : p.NoZeroDivision) :
    ∃ w, p.windows[0]? = some w ∧
      FactorFrom p.frames.main.index.length (p.config.indicatorName, w) out := by
  obtain ⟨frame, _, w, c, s, hframe, -, hw, hc, -, rfl⟩ := singleFactorOutputs_parts.mp hout
  have hw := item_eq_ok.mp hw
  obtain ⟨hidx, hcomplete⟩ := complete_singleFactorFrame hgap hframe
  refine ⟨w, hw, hidx ▸ ?_⟩
  exact factorFrom_of_indicator hc hcomplete (hdiv _ _ _ (.single hsingle hframe hw)) _ s _

/-- The columns of one of several factors. -/
theorem factorOutput_from {i : ℕ} {sub : SubStrategy F} {out : FactorOutput F}
    (hout : p.factorOutput i sub = .ok out) (hmulti : p.isMulti = true)
    (hi : p.subs[i]? = some sub) (hmem : sub ∈ p.frames.config.getSubstrategies)
    (hgap : GapFreeBars p.frames) (hdiv : p.NoZeroDivision) :
    ∃ w, p.windows[i]? = some w ∧
      FactorFrom p.frames.main.index.length (sub.indicatorName, w) out := by
  obtain ⟨c, w, s, ind, func, hc, hw, -, hind, -, rfl⟩ := factorOutput_parts.mp hout
  have hw := item_eq_ok.mp hw
  exact ⟨w, hw, factorFrom_of_indicator hind (complete_single hgap hmem hc)
    (hdiv _ _ _ (.multi hmulti hi hc hw)) func s _⟩

/-- **When a strategy takes positions**: from the bar on that is the last of its
indicators' first readings. -/
theorem factorOutputs_from {outs : List (FactorOutput F)} {finalPosition : List Position}
    (h : p.factorOutputs = .ok (outs, finalPosition))
    (hsubs : p.subs = p.frames.config.getSubstrategies) (hgap : GapFreeBars p.frames)
    (hdiv : p.NoZeroDivision) :
    PositionsFrom (p.firstPosition p.frames.main.index.length) finalPosition ∧
      finalPosition.length = p.frames.main.index.length := by
  obtain ⟨hmulti, -, houts, hcombined⟩ | ⟨hsingle, out, hout, -, rfl⟩ := factorOutputs_parts.mp h
  · have hloop := mapM_eq_ok.mp houts
    have hlen : p.subs.length = outs.length := List.length_zipIdx ▸ hloop.length_eq
    have hout {i : ℕ} {out : FactorOutput F} (hi : outs[i]? = some out) :
        ∃ sub w, p.subs[i]? = some sub ∧ p.windows[i]? = some w ∧
          FactorFrom p.frames.main.index.length (sub.indicatorName, w) out := by
      obtain ⟨hlt, rfl⟩ := List.getElem?_eq_some_iff.mp hi
      have hsub : p.subs[i]? = some p.subs[i] := List.getElem?_eq_getElem (hlen.symm ▸ hlt)
      have hturn : p.factorOutput i p.subs[i] = .ok outs[i] := by
        have hget := hloop.get (List.length_zipIdx.symm ▸ hlen.symm ▸ hlt) hlt
        simpa using hget
      obtain ⟨w, hw, hfrom⟩ := factorOutput_from hturn hmulti hsub
        (hsubs ▸ List.getElem_mem _) hgap hdiv
      exact ⟨_, w, hsub, hw, hfrom⟩
    have hindicator {i : ℕ} {out : FactorOutput F} (hi : outs[i]? = some out) :
        ∃ e, p.indicators[i]? = some e ∧ FactorFrom p.frames.main.index.length e out := by
      obtain ⟨sub, w, hsub, hw, hfrom⟩ := hout hi
      refine ⟨(sub.indicatorName, w), ?_, hfrom⟩
      rw [indicators, if_pos hmulti, List.getElem?_zip_eq_some, List.getElem?_map, hsub]
      exact ⟨rfl, hw⟩
    have hcount : p.indicators.length = outs.length := by
      refine le_antisymm ?_ (Nat.le_of_not_lt fun hlt => ?_)
      · rw [indicators, if_pos hmulti, List.length_zip, List.length_map, hlen]
        exact min_le_left _ _
      · obtain ⟨e, he, -⟩ := hindicator (List.getElem?_eq_getElem hlt)
        exact absurd (List.getElem?_eq_some_iff.mp he).1 (Nat.lt_irrefl _)
    have hfactors : List.Forall₂ (FactorFrom p.frames.main.index.length) p.indicators outs := by
      refine List.forall₂_iff_get.mpr ⟨hcount, fun i h₁ h₂ => ?_⟩
      obtain ⟨e, he, hfrom⟩ := hindicator (List.getElem?_eq_getElem h₂)
      obtain ⟨_, rfl⟩ := List.getElem?_eq_some_iff.mp he
      exact hfrom
    have hall {out : FactorOutput F} (hmem : out ∈ outs) :
        out.position.length = p.frames.main.index.length ∧
          out.indicator.length = p.frames.main.index.length := by
      obtain ⟨i, hi⟩ := List.mem_iff_getElem?.mp hmem
      obtain ⟨e, -, hfrom⟩ := hindicator hi
      exact ⟨hfrom.length, hfrom.indicator⟩
    refine combinePositions_from hcombined
      (List.forall_mem_map.mpr fun out hmem => (hall hmem).1)
      (List.forall_mem_map.mpr fun out hmem => (hall hmem).2) ?_ (by simp) ?_
    · rw [List.length_map, ← hlen]
      exact of_decide_eq_true hmulti
    · exact List.forall₂_map_left_iff.mpr (List.forall₂_map_right_iff.mpr
        (hfactors.imp fun _ _ h => h.positions))
  · obtain ⟨w, hw, hfrom⟩ := singleFactorOutputs_from hout hsingle hgap hdiv
    have hfirst : p.firstPosition p.frames.main.index.length =
        TechnicalAnalysis.firstReading p.config.indicatorName w p.frames.main.index.length := by
      have htake : p.windows.take 1 = [w] := by
        obtain ⟨hlt, rfl⟩ := List.getElem?_eq_some_iff.mp hw
        rw [List.take_one, List.head?_eq_getElem?, hw]
        rfl
      rw [firstPosition, indicators, if_neg (by rw [hsingle]; exact Bool.false_ne_true), htake]
      exact Nat.max_zero _
    exact ⟨hfirst ▸ hfrom.positions, hfrom.length⟩

end Performance

/-! ## Returns -/

open ExactFloat

/-- A sign as a number. -/
theorem Position.toFloat_fin (s : SignType) :
    ∃ a : K, (Position.toFloat (some s) : F) = fin a := by
  cases s with
  | zero => exact ⟨0, zero_fin⟩
  | neg => exact ⟨-1, (congrArg Neg.neg one_fin).trans (neg_fin 1)⟩
  | pos => exact ⟨1, one_fin⟩

/-- Positions written as numbers are ready from the bar on that has the first of them. -/
theorem PositionsFrom.readyFrom {r : ℕ} {ps : List Position} (h : PositionsFrom r ps) :
    ReadyFrom r (ps.map Position.toFloat : List F) where
  before i x hi hx := by
    obtain ⟨p, hp, rfl⟩ := Option.map_eq_some_iff.mp (List.getElem?_map ▸ hx)
    rw [(h i p hp).mpr hi]
    exact isNan_nan
  after i x hle hx := by
    obtain ⟨p, hp, rfl⟩ := Option.map_eq_some_iff.mp (List.getElem?_map ▸ hx)
    cases p with
    | none => exact absurd ((h i none hp).mp rfl) (Nat.not_lt.mpr hle)
    | some s =>
      obtain ⟨a, ha⟩ := Position.toFloat_fin (F := F) s
      rw [ha]
      exact observed_fin a

/-- The change of a price that is there and positive is there from the second bar on. -/
theorem pctChange_readyFrom {price : List F}
    (hprice : ∀ x ∈ price, observed x = true ∧ lt 0 x = true) :
    ReadyFrom 1 (pctChange price) :=
  .lagged fun i prev cur hprev hcur => by
    obtain ⟨hobs, hlt⟩ := hprice prev (List.mem_of_getElem? hprev)
    obtain ⟨a, rfl⟩ := observed_iff.mp hobs
    obtain ⟨b, rfl⟩ := observed_iff.mp (hprice cur (List.mem_of_getElem? hcur)).1
    rw [zero_fin, lt_fin] at hlt
    rw [div_fin _ hlt.ne', one_fin, sub_fin]
    exact observed_fin _

/-- **When a strategy has returns**: from the bar on that follows its first position. The first
position is not charged and earns from the next bar on; positive prices keep every later change a
number. -/
theorem strategyPnl_readyFrom {r : ℕ} {ps : List Position} {price : List F} {cost : F}
    {prior turnover pnl : List F}
    (h : strategyPnl (ps.map Position.toFloat) (pctChange price) cost =
      .ok (prior, turnover, pnl)) (hps : PositionsFrom r ps)
    (hprice : ∀ x ∈ price, observed x = true ∧ lt 0 x = true) (hcost : observed cost = true) :
    ReadyFrom (r + 1) pnl := by
  have hpos : ReadyFrom r (ps.map Position.toFloat : List F) := hps.readyFrom
  have hchg : ReadyFrom 1 (pctChange price) := pctChange_readyFrom hprice
  rw [strategyPnl] at h
  split at h
  · cases h
  · cases h
    have hgain := hpos.shift.zipWith hchg (g := (· * ·)) (fun _ _ => nan_mul)
      fun i x y hi hi' hx hy => by
        obtain ⟨a, rfl⟩ := observed_iff.mp (hpos.shift.after i x hi hx)
        obtain ⟨b, rfl⟩ := observed_iff.mp (hchg.after i y hi' hy)
        rw [mul_fin]
        exact observed_fin _
    -- on the bar of the first position nothing is traded
    have hturnover : ReadyFrom r (List.zipWith (fun pos prior =>
        if isNan pos then nan
        else if !isNan prior then NpFloat.abs (pos - prior) else 0)
        (ps.map Position.toFloat : List F) (shift (ps.map Position.toFloat))) :=
      .of_zipWith (fun i x y hi hx _ => by rw [hpos.before i x hi hx, if_pos rfl, isNan_nan])
        fun i x y hle hx hy => by
          have hobs := hpos.after i x hle hx
          rw [isNan_of_observed hobs, if_neg Bool.false_ne_true]
          obtain ⟨a, rfl⟩ := observed_iff.mp hobs
          split
          · next hknown =>
            have hi : r + 1 ≤ i := (hpos.shift.isNan_eq_false_iff hy).mp
              (Bool.not_eq_true' _ ▸ hknown)
            obtain ⟨b, rfl⟩ := observed_iff.mp (hpos.shift.after i y hi hy)
            rw [sub_fin, abs_fin]
            exact observed_fin _
          · rw [zero_fin]
            exact observed_fin _
    obtain ⟨k, rfl⟩ := observed_iff.mp hcost
    have hpnl := hgain.zipWith hturnover (g := fun gain turnover => gain - turnover * fin k)
      (fun x y hxy => nan_sub (hxy.imp id fun hy => nan_mul (.inl hy)))
      fun i x y hi hi' hx hy => by
        obtain ⟨a, rfl⟩ := observed_iff.mp (hgain.after i x hi hx)
        obtain ⟨b, rfl⟩ := observed_iff.mp (hturnover.after i y hi' hy)
        rw [mul_fin, sub_fin]
        exact observed_fin _
    have hrow : Max.max (Max.max (r + 1) 1) r = r + 1 := by omega
    exact hrow ▸ hpnl

namespace Performance

/-- **How many bars are scored.** Of the bars of the traded product, those that come
neither before the largest window nor before the first return. -/
theorem metricNObs_eq {e : Enriched F} (he : p.enrichPerformance = .ok e)
    (hsubs : p.subs = p.frames.config.getSubstrategies)
    (hmax : pyMax p.windows = .ok p.metricWindow) (hgap : GapFreeBars p.frames)
    (hdiv : p.NoZeroDivision) (hcost : observed p.transactionCost = true) :
    p.metricNObs e = p.frames.main.index.length -
      Max.max p.metricWindow.toNat (p.firstPosition p.frames.main.index.length + 1) := by
  obtain ⟨r, hr, he⟩ := bind_eq_ok.mp he
  obtain ⟨price, hprice, he⟩ := bind_eq_ok.mp he
  obtain ⟨q, hq, he⟩ := bind_eq_ok.mp he
  cases he
  obtain ⟨w, hw, hpos⟩ := window_nonneg hr
  obtain ⟨hfrom, hlen⟩ := factorOutputs_from hr hsubs hgap hdiv
  have hready : ReadyFrom _ q.2.2 := strategyPnl_readyFrom hq hfrom
    (hgap.price price (Frame.column_eq_ok.mp hprice)) hcost
  have hnonneg : ¬ p.metricWindow < 0 := Int.not_lt.mpr (hpos.trans ((pyMax_eq_ok hmax).2 w hw))
  have hrows : q.2.2.length = p.frames.main.index.length := by
    rw [length_strategyPnl hq, List.length_map, hlen, length_pctChange, price.2, min_self]
  rw [metricNObs, sliceFrom, if_neg hnonneg, hready.length_filter_drop, hrows]

end Performance

end
