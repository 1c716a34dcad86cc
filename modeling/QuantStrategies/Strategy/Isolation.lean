import QuantStrategies.Strategy.LookAhead
import QuantStrategies.Strategy.Search

/-!
# Factor isolation

What a factor's indicator and position depend on. It should be the factor's own
column, the range of its own product where the indicator reads one, and the index
of the traded product, and any indicator should be computable for any factor that
has these.

Four of the five indicators read the `factor` column, and for them it is so. The
stochastic oscillator reads a range instead. A strategy of one factor takes it
from the frame of the traded product, whichever product the factor is, and a
strategy of several gives it a frame that has none. So the oscillator of the traded
product is isolated and computed as long as it stands alone, and refused as soon as
another factor is put beside it.

The two paths are stated apart. `BothCompute` is about the path that the strategy itself
takes, and `bothCompute_iff_served` settles it for each factor. `BothPathsCompute` asks for
it in any strategy of the same traded product that has the factor, alone or beside others,
and there the oscillator fails whatever its product is (`not_bothPathsCompute`).
-/

open Pandas NpFloat Result TwoRuns

variable {L F : Type} [DecidableEq L] [NpFloat F]

namespace TechnicalAnalysis

/-- The indicators there are. -/
def names : List String :=
  ["get_sma", "get_ema", "get_rsi", "get_bollinger_band", "get_stochastic_oscillator"]

end TechnicalAnalysis

/-! ## One factor of a strategy -/

/-- Whether a strategy takes the path for several factors. -/
def StrategyConfig.Multi (config : StrategyConfig F) : Prop :=
  1 < config.getSubstrategies.length

instance (config : StrategyConfig F) : Decidable config.Multi := Nat.decLt _ _

/-- The indicator that is computed for a factor. -/
def indicatorOf (config : StrategyConfig F) (sub : SubStrategy F) : String :=
  if config.Multi then sub.indicatorName else config.indicatorName

/-- The columns of its own product that a factor's indicator may depend on. -/
def OwnReads (config : StrategyConfig F) (sub : SubStrategy F) (column : String) : Prop :=
  column = sub.dataColumn ∨ (indicatorOf config sub = "get_stochastic_oscillator" ∧
    (column = "High" ∨ column = "Low" ∨ column = "Close"))

/-- Two dictionaries over the same frames, that differ in what a factor should not
depend on. -/
structure OwnAgree (config : StrategyConfig F) (sub : SubStrategy F)
    (data data' : DataDict L F) : Prop where
  /-- The same products, indexes and column names. The values are free. -/
  shape : DataAgree (fun _ => False) data data'
  /-- The factor's own product has the same values in the columns it may depend on. -/
  own : Option.Rel (FrameAgree (fun _ => True) (OwnReads config sub))
    (data.lookup (FactorFrames.subCusip config sub))
    (data'.lookup (FactorFrames.subCusip config sub))
  /-- The column that the factor names is there, if its product is. -/
  column : ∀ f, data.lookup (FactorFrames.subCusip config sub) = some f →
    f.hasColumn sub.dataColumn = true

/-- The traded product's frame as the loaders return it, and the factor's, with the
columns that the factor and its indicator name, over dates that cover enough. -/
structure Suitable (config : StrategyConfig F) (sub : SubStrategy F) (data : DataDict L F)
    (main own : Frame L F) : Prop where
  /-- The traded product has a frame. -/
  hmain : data.lookup config.internalCusip = some main
  /-- So has the factor's product, which may be the same. -/
  hown : data.lookup (FactorFrames.subCusip config sub) = some own
  /-- The traded product's frame has the column every indicator is given. -/
  factor : main.hasColumn "factor" = true
  /-- The factor's frame has the columns its indicator may depend on. -/
  columns : ∀ c, OwnReads config sub c → own.hasColumn c = true
  /-- No label of the traded product repeats. -/
  mainNodup : main.index.Nodup
  /-- No label of the factor's product does. -/
  ownNodup : own.index.Nodup
  /-- Enough of the traded product's labels are among the factor's. -/
  coverage : FactorFrames.minCoverage ≤ FactorFrames.coverage main.index own.index

/-- The factors that the path of their strategy serves from their own product. -/
def Served (config : StrategyConfig F) (sub : SubStrategy F) : Prop :=
  indicatorOf config sub ≠ "get_stochastic_oscillator" ∨
    (¬ config.Multi ∧ FactorFrames.subCusip config sub = config.internalCusip)

/-! ## Isolation -/

omit [DecidableEq L] [NpFloat F] in
theorem FrameAgree.mono {S : L → Prop} {reads reads' : String → Prop} {f g : Frame L F}
    (h : FrameAgree S reads f g) (hr : ∀ c, reads' c → reads c) : FrameAgree S reads' f g :=
  ⟨h.index, fun name hn => h.columns name (hr name hn)⟩

omit [DecidableEq L] [NpFloat F] in
/-- Both frames are accepted as they are, or both are refused for want of a `factor` column. -/
theorem FrameAgree.init {reads : String → Prop} {f g : Frame L F}
    (h : FrameAgree (fun _ => True) reads f g) (hr : reads "factor") :
    Alike True (fun a b => a = f ∧ b = g) (TechnicalAnalysis.init f)
      (TechnicalAnalysis.init g) := by
  have hpre : PrefixEq 0 reads f g := h.prefixEq fun _ _ => trivial
  exact hpre.init hr

section

variable {config : StrategyConfig F} {sub : SubStrategy F} {data data' : DataDict L F}

/-- What the engines of the two runs start from. -/
structure OwnFrames (config : StrategyConfig F) (sub : SubStrategy F)
    (ff ff' : FactorFrames L F) : Prop where
  /-- One strategy, and one index of the traded product. -/
  same : SameTrade ff ff'
  /-- The strategy is the one at hand. -/
  left : ff.config = config
  /-- All frames differ only in what the factor should not depend on. -/
  agree : OwnAgree config sub ff.all ff'.all
  /-- The main frame is the traded product's, in the first run. -/
  main : ff.all.lookup config.internalCusip = some ff.main
  /-- And in the second. -/
  main' : ff'.all.lookup config.internalCusip = some ff'.main

omit [DecidableEq L] in
/-- Construction takes the traded product's frame out of both dictionaries, or is refused for
both. -/
theorem OwnAgree.frames (h : OwnAgree config sub data data') :
    Alike True (OwnFrames config sub) (FactorFrames.init data config)
      (FactorFrames.init data' config) := by
  have hrel := h.shape config.internalCusip
  rw [FactorFrames.init, FactorFrames.init, DataDict.get, DataDict.get]
  cases hd : data.lookup config.internalCusip with
  | none =>
    rw [hd] at hrel
    cases hd' : data'.lookup config.internalCusip with
    | none => exact .errors
    | some f' =>
      rw [hd'] at hrel
      cases hrel
  | some f =>
    rw [hd] at hrel
    cases hd' : data'.lookup config.internalCusip with
    | none =>
      rw [hd'] at hrel
      cases hrel
    | some f' =>
      rw [hd'] at hrel
      cases hrel with
      | some hf => exact .ok ⟨⟨rfl, hf.index⟩, rfl, h, hd, hd'⟩

/-- The factor's series is that of its own column. -/
theorem OwnFrames.factor {ff ff' : FactorFrames L F} (h : OwnFrames config sub ff ff') :
    Alike True (fun c d => c.1 = d.1) (ff.factor sub) (ff'.factor sub) := by
  have hown := h.agree.own
  rw [← h.left] at hown
  refine (factor_alike h.same (k := ff.main.index.length) hown (.inl rfl)
    fun _ _ => trivial).mono fun c d hcd => ?_
  rwa [List.take_of_length_le (Nat.le_of_eq c.2), List.take_of_length_le
    (Nat.le_of_eq (d.2.trans (congrArg List.length h.same.index)))] at hcd

omit [DecidableEq L] [NpFloat F] in
/-- A column put in the same place of two frames. -/
theorem FrameAgree.set {reads reads' : String → Prop} {f g : Frame L F} {name : String}
    (hidx : g.index = f.index) (h : ∀ c, reads c → c ≠ name → reads' c)
    (hfg : FrameAgree (fun _ => True) reads' f g)
    {c : Column F f.index} {d : Column F g.index} (hcd : c.1 = d.1) :
    FrameAgree (fun _ => True) reads (f.set name c) (g.set name d) where
  index := hidx
  columns col hr := lookup_set (fun _ _ _ _ => by rw [hcd]) fun hne => hfg.columns col (h col hr hne)

/-- A strategy of one factor puts the factor's series in the traded frame, when the
factor's product has the column. -/
theorem singleFactorFrame_eq {ff : FactorFrames L F} (hff : ff.config = config)
    (hsub : config.getSubstrategies[0]? = some sub)
    (hmain : ff.all.lookup config.internalCusip = some ff.main)
    (hcol : ∀ f, ff.all.lookup (FactorFrames.subCusip config sub) = some f →
      f.hasColumn sub.dataColumn = true) :
    ff.singleFactorFrame = (do
      let c ← ff.factor sub
      return ff.main.set "factor" c) := by
  have hitem : item ff.config.getSubstrategies 0 = .ok sub := by rw [hff, item, hsub]
  have hcond : FactorFrames.subCusip ff.config sub ≠ ff.config.internalCusip ∨
      ff.main.hasColumn sub.dataColumn = true := by
    rw [hff]
    by_cases hc : FactorFrames.subCusip config sub = config.internalCusip
    · exact .inr (hcol ff.main (hc ▸ hmain))
    · exact .inl hc
  rw [FactorFrames.singleFactorFrame, hitem]
  exact if_pos hcond

/-- The frame on which a strategy of one factor computes its indicator. -/
theorem OwnFrames.singleFactorFrame {ff ff' : FactorFrames L F} (h : OwnFrames config sub ff ff')
    (hsub : config.getSubstrategies[0]? = some sub) (hmulti : ¬ config.Multi)
    (hserved : Served config sub) :
    Alike True (FrameAgree (fun _ => True)
        fun c => Reads config.indicatorName c ∨ c = "factor")
      ff.singleFactorFrame ff'.singleFactorFrame := by
  have hone : indicatorOf config sub = config.indicatorName := if_neg hmulti
  have hcol' : ∀ f, ff'.all.lookup (FactorFrames.subCusip config sub) = some f →
      f.hasColumn sub.dataColumn = true := by
    intro g hg
    have hown := h.agree.own
    rw [hg] at hown
    cases hf : ff.all.lookup (FactorFrames.subCusip config sub) with
    | none =>
      rw [hf] at hown
      cases hown
    | some f =>
      rw [hf] at hown
      cases hown with
      | some hfg =>
        have hp : PrefixEq f.index.length (OwnReads config sub) f g := hfg.prefixEq fun _ _ => trivial
        rw [hp.hasColumn (.inl rfl)]
        exact h.agree.column f hf
  rw [singleFactorFrame_eq h.left hsub h.main h.agree.column,
    singleFactorFrame_eq (h.same.config.trans h.left) hsub h.main' hcol']
  -- What is read of the traded frame itself is the range, when it is the factor's own.
  have hmain : FrameAgree (fun _ => True) (fun c => Reads config.indicatorName c ∧ c ≠ "factor")
      ff.main ff'.main := by
    obtain hne | ⟨-, hc⟩ := hserved
    · refine ⟨h.same.index, fun c hc => absurd ?_ hc.2⟩
      have := hc.1
      rwa [Reads, if_neg (hone ▸ hne)] at this
    · have hown := h.agree.own
      rw [hc, h.main, h.main'] at hown
      cases hown with
      | some hfg =>
        refine ⟨hfg.index, fun c hr => hfg.columns c ?_⟩
        have hread := hr.1
        rw [Reads] at hread
        split at hread
        · next hso => exact .inr ⟨hone.trans hso, hread⟩
        · exact absurd hread hr.2
  exact h.factor.bind fun c d hcd =>
    .ok (.set h.same.index (fun c hr hne => ⟨hr.resolve_right hne, hne⟩) hmain hcd)

variable {main own : Frame L F}

omit [DecidableEq L] [NpFloat F] in
/-- Putting a column in keeps the columns that are there, and adds its own. -/
theorem hasColumn_set {f : Frame L F} {name col : String} {c : Column F f.index}
    (h : col = name ∨ f.hasColumn col = true) : (f.set name c).hasColumn col = true := by
  show ((Frame.assign name c f.columns).lookup col).isSome = true
  rw [Frame.lookup_assign]
  split
  · rfl
  · next hne => exact h.resolve_left hne

/-- The frame of a strategy of one factor has what its indicator reads. -/
theorem Suitable.reads (h : Suitable config sub data main own) (hmulti : ¬ config.Multi)
    (hserved : Served config sub) (c : Column F main.index) (col : String)
    (hr : Reads config.indicatorName col) : (main.set "factor" c).hasColumn col = true := by
  have hone : indicatorOf config sub = config.indicatorName := if_neg hmulti
  refine hasColumn_set ?_
  rw [Reads] at hr
  split at hr
  · next hso =>
    obtain hne | ⟨-, hc⟩ := hserved
    · exact absurd (hone.trans hso) hne
    · have hown : own = main := by
        have := h.hown
        rw [hc, h.hmain] at this
        exact (Option.some.inj this).symm
      exact .inr (hown ▸ h.columns col (.inr ⟨hone.trans hso, hr⟩))
  · exact .inl hr

end

namespace Isolation

/-- Two daily bars of one product, with a range and a close in it. -/
def bars (close : ExtRat) : Frame ℕ ExtRat :=
  let column (x : ExtRat) : Column ExtRat [1, 2] := ⟨[x, x], rfl⟩
  ⟨[1, 2], [("price", column close), ("factor", column close), ("High", column (.fin 120)),
    ("Low", column (.fin 100)), ("Close", column close)]⟩

/-- The traded product, and the one the factor is of. -/
def market (close : ExtRat) : DataDict ℕ ExtRat :=
  [("ethusdt.crypto", bars close), ("btcusdt.crypto", bars (.fin 105))]

/-- The oscillator of another product than the one that is traded. -/
def oscillator : SubStrategy ExtRat where
  indicatorName := "get_stochastic_oscillator"
  signalFuncName := "momentum_bounded_signal"
  window := 1
  signal := .fin 60
  dataColumn := "price"
  internalCusip := some "btcusdt.crypto"

/-- The moving average of that product. -/
def average : SubStrategy ExtRat := { oscillator with indicatorName := "get_sma" }

/-- A strategy of these factors. -/
def strategy (subs : List (SubStrategy ExtRat)) : StrategyConfig ExtRat where
  internalCusip := "ethusdt.crypto"
  indicatorName := "get_stochastic_oscillator"
  signalFunc := .momentumBoundedSignal
  tradingPeriod := 365
  substrategies := subs

end Isolation

omit [DecidableEq L] [NpFloat F] in
theorem FrameAgree.refl {S : L → Prop} {reads : String → Prop} (f : Frame L F) :
    FrameAgree S reads f f := by
  refine ⟨rfl, fun name _ => ?_⟩
  cases f.columns.lookup name with
  | none => exact .none
  | some c => exact .some fun _ _ _ _ => rfl
