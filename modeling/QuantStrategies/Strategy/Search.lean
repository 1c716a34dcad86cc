import QuantStrategies.Strategy.Objective

/-!
# Search and report

Whether the ratio a search assigns to a parameter set is the one the report
shows for it. The two engines differ in one thing that matters: a search computes
the indicators of all its windows before it scores any, so that a window the
indicator refuses ends the whole search. And with several factors the report asks
of the traded frame a `factor` column that neither engine reads.

The comparison goes down to one statement, `ratioOf`: both engines make a ratio of the same
positions, returns and fee by it, so that what is left to compare is where the positions
come from. For one factor that is a cache against a direct computation (`get_init`), and for
several the two loops over the factors (`loops_agree`), an induction on the list of factors
with the two offsets in step.
-/

open Pandas NpFloat Result

variable {L F : Type} [DecidableEq L] [NpFloat F]

/-! ## The cache -/

/-- What a cache holds for a window, computed for that window alone. -/
def IndicatorCache.direct (frame : Frame L F) (indicatorName : String) (window : ℤ) :
    Except PyError (List F) := do
  let ta ← TechnicalAnalysis.init frame
  let c ← TechnicalAnalysis.indicator ta indicatorName window
  return c.1

omit [NpFloat F] in
/-- A lookup succeeds with exactly what the cache holds for the window. A window that no range had
is a `KeyError`. -/
theorem IndicatorCache.get_eq_ok {cache : IndicatorCache F} {w : ℤ} {xs : List F} :
    cache.get w = .ok xs ↔ cache.lookup w = some xs := by
  rw [IndicatorCache.get]
  cases cache.lookup w with
  | none => simp
  | some ys => simp

/-- One turn of the loop that fills a cache. -/
theorem IndicatorCache.entry_eq_ok {ta : Frame L F} {name : String} {w : ℤ} {e : ℤ × List F} :
    (do let c ← TechnicalAnalysis.indicator ta name w; return (w, c.1)) = Except.ok e ↔
      ∃ c, TechnicalAnalysis.indicator ta name w = .ok c ∧ e = (w, c.1) := by
  rw [bind_eq_ok]
  refine exists_congr fun c => and_congr_right fun _ => ?_
  show Except.ok (w, c.1) = Except.ok e ↔ _
  rw [Except.ok.injEq, eq_comm]

/-- **A cache is the indicator**, when the indicator takes every window it is for. The cache is
filled for every window before the first set is scored, so that one bad window would refuse them
all. -/
theorem IndicatorCache.get_init {frame : Frame L F} {name : String} {ws : List ℤ} {w : ℤ}
    {xs : List F} (hacc : ∀ w ∈ ws, TechnicalAnalysis.accepts name w = true) (hw : w ∈ ws) :
    (∃ cache, IndicatorCache.init frame name ws = .ok cache ∧ cache.get w = .ok xs) ↔
      IndicatorCache.direct frame name w = .ok xs := by
  constructor
  · rintro ⟨cache, hcache, hget⟩
    obtain ⟨ta, hta, hloop⟩ := bind_eq_ok.mp hcache
    obtain ⟨l₁, l₂, hl, -⟩ := List.lookup_eq_some_iff.mp (IndicatorCache.get_eq_ok.mp hget)
    have hmem : (w, xs) ∈ cache := by
      rw [hl]
      exact List.mem_append_right l₁ List.mem_cons_self
    obtain ⟨w', -, he⟩ := exists_of_mem_mapM hloop hmem
    obtain ⟨c, hc, he⟩ := IndicatorCache.entry_eq_ok.mp he
    cases he
    exact bind_eq_ok.mpr ⟨ta, hta, bind_eq_ok.mpr ⟨c, hc, rfl⟩⟩
  · intro h
    obtain ⟨ta, hta, h⟩ := bind_eq_ok.mp h
    obtain ⟨c, hc, h⟩ := bind_eq_ok.mp h
    cases h
    -- Every window of the cache can be computed, as this one can.
    have hall : ∃ cache, ws.mapM (fun w => do
        let c ← TechnicalAnalysis.indicator ta name w
        return (w, c.1)) = Except.ok cache :=
      exists_mapM_eq_ok fun w' hw' => by
        obtain ⟨c', hc'⟩ := TechnicalAnalysis.indicator_of_accepts hc (hacc w' hw')
        exact ⟨_, IndicatorCache.entry_eq_ok.mpr ⟨c', hc', rfl⟩⟩
    obtain ⟨cache, hcache⟩ := hall
    refine ⟨cache, bind_eq_ok.mpr ⟨ta, hta, hcache⟩, IndicatorCache.get_eq_ok.mpr ?_⟩
    cases hlook : cache.lookup w with
    | none =>
      obtain ⟨e, hmem, he⟩ := exists_mem_of_mapM hcache hw
      obtain ⟨c', -, rfl⟩ := IndicatorCache.entry_eq_ok.mp he
      have hne := List.lookup_eq_none_iff.mp hlook (w, c'.1) hmem
      simp at hne
    | some ys =>
      obtain ⟨l₁, l₂, hl, -⟩ := List.lookup_eq_some_iff.mp hlook
      have hmem : (w, ys) ∈ cache := by
        rw [hl]
        exact List.mem_append_right l₁ List.mem_cons_self
      obtain ⟨w', -, he⟩ := exists_of_mem_mapM hcache hmem
      obtain ⟨c', hc', he⟩ := IndicatorCache.entry_eq_ok.mp he
      cases he
      rw [hc] at hc'
      cases hc'
      rfl

/-! ## Parameter sets -/

/-- The windows of a parameter set are among those searched. -/
inductive Searched : WindowValues → List ℤ → Prop
  | flat {ws : List ℤ} {w : ℤ} : w ∈ ws → Searched (.flat ws) [w]
  | perFactor {ranges : List (List ℤ)} {ws : List ℤ} :
      List.Forall₂ (· ∈ ·) ws ranges → Searched (.perFactor ranges) ws

/-- A search space that fits a strategy: one range, or one for each factor. -/
def Fits (config : StrategyConfig F) : WindowValues → Prop
  | .flat _ => config.getSubstrategies.length ≤ 1
  | .perFactor ranges => 1 < config.getSubstrategies.length ∧
      config.getSubstrategies.length ≤ ranges.length

/-- Every window searched is one that the indicator it is for takes. -/
def AllAccepted (config : StrategyConfig F) : WindowValues → Prop
  | .flat ws => ∀ w ∈ ws, TechnicalAnalysis.accepts config.indicatorName w = true
  | .perFactor ranges => ∀ s ∈ config.getSubstrategies.zip ranges, ∀ w ∈ s.2,
      TechnicalAnalysis.accepts s.1.indicatorName w = true

/-- A parameter set as `Performance` takes it: a scalar for one factor. -/
def paramArg {α : Type} (config : StrategyConfig F) (xs : List α) : Arg α :=
  if 1 < config.getSubstrategies.length then .tuple xs
  else match xs with
    | [x] => .one x
    | xs => .tuple xs

/-- The ratio that `Objective.for_config(...)` assigns to a parameter set. -/
def searchSharpe (data : DataDict L F) (config : StrategyConfig F) (space : WindowValues)
    (windows : List ℤ) (signals : List F) (feeBps : Option F) (minMetricObs : ℤ) :
    Except PyError F := do
  let objective ← Objective.forConfig data config space feeBps minMetricObs
  objective.call windows signals

/-- The ratio that `Performance(...)` reports for it. -/
def reportSharpe (data : DataDict L F) (config : StrategyConfig F) (windows : List ℤ)
    (signals : List F) (feeBps : Option F) (minMetricObs : ℤ) : Except PyError F := do
  let p ← Performance.init data config (some (paramArg config windows))
    (some (paramArg config signals)) feeBps minMetricObs
  let e ← p.enrichPerformance
  return p.getSharpeRatio e

/-! ## What both engines do last -/

/-- From the positions on: the returns, and their ratio. -/
def ratioOf (chg : List F) (position : List Position) (metricWindow tradingPeriod : ℤ)
    (cost : F) (minMetricObs : ℤ) : Except PyError F := do
  let (_, _, pnl) ← strategyPnl (position.map Position.toFloat) chg cost
  return sharpeRatio (sliceFrom metricWindow pnl) tradingPeriod minMetricObs

/-- What the report makes of the outputs. -/
theorem Performance.sharpe_eq (p : Performance L F) {v : F} :
    (do let e ← p.enrichPerformance; return p.getSharpeRatio e) = Except.ok v ↔
      ∃ r, p.factorOutputs = .ok r ∧ ∃ price, p.frames.main.column "price" = .ok price ∧
        ratioOf (pctChange price.1) r.2 p.metricWindow p.config.tradingPeriod p.transactionCost
          p.minMetricObs = .ok v := by
  constructor
  · intro h
    obtain ⟨e, he, h⟩ := bind_eq_ok.mp h
    obtain ⟨r, hr, he⟩ := bind_eq_ok.mp he
    obtain ⟨price, hprice, he⟩ := bind_eq_ok.mp he
    obtain ⟨q, hq, he⟩ := bind_eq_ok.mp he
    cases he
    exact ⟨r, hr, price, hprice, bind_eq_ok.mpr ⟨q, hq, h⟩⟩
  · rintro ⟨r, hr, price, hprice, h⟩
    obtain ⟨q, hq, h⟩ := bind_eq_ok.mp h
    refine bind_eq_ok.mpr ⟨_, bind_eq_ok.mpr ⟨r, hr, bind_eq_ok.mpr ⟨price, hprice,
      bind_eq_ok.mpr ⟨q, hq, rfl⟩⟩⟩, h⟩

/-! ## One factor -/

/-- The indicator that a single-factor strategy trades on. -/
theorem Performance.singleFactorOutputs_eq_ok {p : Performance L F} {w : ℤ} {s : F}
    (hw : item p.windows 0 = .ok w) (hs : item p.signals 0 = .ok s) {position : List Position} :
    (∃ out, p.singleFactorOutputs = .ok out ∧ out.position = position) ↔
      ∃ frame, p.frames.singleFactorFrame = .ok frame ∧
        ∃ ind, IndicatorCache.direct frame p.config.indicatorName w = .ok ind ∧
          p.config.signalFunc.call ind s = position := by
  constructor
  · rintro ⟨out, hout, rfl⟩
    obtain ⟨frame, factor, w', c, s', hframe, hfactor, hw', hc, hs', rfl⟩ :=
      Performance.singleFactorOutputs_parts.mp hout
    rw [hw] at hw'
    rw [hs] at hs'
    cases hw'
    cases hs'
    have hta : TechnicalAnalysis.init frame = .ok frame :=
      TechnicalAnalysis.init_eq_ok.mpr ⟨Frame.hasColumn_iff.mpr ⟨factor, hfactor⟩, rfl⟩
    exact ⟨frame, hframe, c.1, bind_eq_ok.mpr ⟨frame, hta, bind_eq_ok.mpr ⟨c, hc, rfl⟩⟩, rfl⟩
  · rintro ⟨frame, hframe, ind, hind, rfl⟩
    obtain ⟨ta, hta, hind⟩ := bind_eq_ok.mp hind
    obtain ⟨c, hc, hind⟩ := bind_eq_ok.mp hind
    cases hind
    obtain ⟨hcol, rfl⟩ := TechnicalAnalysis.init_eq_ok.mp hta
    obtain ⟨factor, hfactor⟩ := Frame.hasColumn_iff.mp hcol
    exact ⟨_, Performance.singleFactorOutputs_parts.mpr
      ⟨ta, factor, w, c, s, hframe, hfactor, hw, hc, hs, rfl⟩, rfl⟩

/-! ## Several factors -/

/-- What the report reads off one factor. -/
theorem Performance.factorOutput_eq_ok {p : Performance L F} {n : ℕ} {sub : SubStrategy F}
    {w : ℤ} {s : F} (hw : item p.windows n = .ok w) (hs : item p.signals n = .ok s)
    {pair : List Position × List F} :
    (∃ out, p.factorOutput n sub = .ok out ∧ (out.position, out.indicator) = pair) ↔
      ∃ c, p.frames.factor sub = .ok c ∧
        IndicatorCache.direct (Frame.single "factor" p.frames.main.index c)
          sub.indicatorName w = .ok pair.2 ∧
        ∃ func, sub.resolveSignalFunc = .ok func ∧ func.call pair.2 s = pair.1 := by
  constructor
  · rintro ⟨out, hout, rfl⟩
    obtain ⟨c, w', s', ind, func, hc, hw', hs', hind, hfunc, rfl⟩ :=
      Performance.factorOutput_parts.mp hout
    rw [hw] at hw'
    rw [hs] at hs'
    cases hw'
    cases hs'
    exact ⟨c, hc, bind_eq_ok.mpr ⟨_, rfl, bind_eq_ok.mpr ⟨ind, hind, rfl⟩⟩, func, hfunc, rfl⟩
  · obtain ⟨position, strength⟩ := pair
    rintro ⟨c, hc, hind, func, hfunc, hcall⟩
    obtain rfl : func.call strength s = position := hcall
    obtain ⟨ta, hta, hind⟩ := bind_eq_ok.mp hind
    obtain ⟨-, rfl⟩ := TechnicalAnalysis.init_eq_ok.mp hta
    obtain ⟨ind, hi, hind⟩ := bind_eq_ok.mp hind
    cases hind
    exact ⟨_, Performance.factorOutput_parts.mpr ⟨c, w, s, ind, func, hc, hw, hs, hi, hfunc, rfl⟩,
      rfl⟩

/-- One turn of the loop of a call. -/
def Objective.turn (windows : List ℤ) (signals : List F)
    (f : (IndicatorCache F × SignalDirection) × ℕ) : Except PyError (List Position × List F) := do
  let window ← item windows f.2
  let signal ← item signals f.2
  Objective.callFactor f.1 window signal

/-- What the search reads off one factor. -/
theorem Objective.turn_eq_ok {frames : FactorFrames L F} {n : ℕ} {sub : SubStrategy F}
    {range : List ℤ} {windows : List ℤ} {signals : List F} {w : ℤ} {s : F}
    (hw : item windows n = .ok w) (hs : item signals n = .ok s) (hmem : w ∈ range)
    (hacc : ∀ w ∈ range, TechnicalAnalysis.accepts sub.indicatorName w = true)
    {pair : List Position × List F} :
    (∃ f, Objective.initFactor frames sub range = .ok f ∧
        Objective.turn windows signals (f, n) = .ok pair) ↔
      ∃ c, frames.factor sub = .ok c ∧
        IndicatorCache.direct (Frame.single "factor" frames.main.index c)
          sub.indicatorName w = .ok pair.2 ∧
        ∃ func, sub.resolveSignalFunc = .ok func ∧ func.call pair.2 s = pair.1 := by
  constructor
  · rintro ⟨f, hf, hturn⟩
    obtain ⟨c, hc, hf⟩ := bind_eq_ok.mp hf
    obtain ⟨cache, hcache, hf⟩ := bind_eq_ok.mp hf
    obtain ⟨func, hfunc, hf⟩ := bind_eq_ok.mp hf
    cases hf
    obtain ⟨w', hw', hturn⟩ := bind_eq_ok.mp hturn
    obtain ⟨s', hs', hturn⟩ := bind_eq_ok.mp hturn
    rw [hw] at hw'
    rw [hs] at hs'
    cases hw'
    cases hs'
    obtain ⟨ind, hind, hturn⟩ := bind_eq_ok.mp hturn
    cases hturn
    exact ⟨c, hc, (IndicatorCache.get_init hacc hmem).mp ⟨cache, hcache, hind⟩, func, hfunc, rfl⟩
  · obtain ⟨position, strength⟩ := pair
    rintro ⟨c, hc, hind, func, hfunc, hcall⟩
    obtain rfl : func.call strength s = position := hcall
    obtain ⟨cache, hcache, hget⟩ := (IndicatorCache.get_init hacc hmem).mpr hind
    exact ⟨(cache, func), bind_eq_ok.mpr ⟨c, hc, bind_eq_ok.mpr ⟨cache, hcache,
      bind_eq_ok.mpr ⟨func, hfunc, rfl⟩⟩⟩, bind_eq_ok.mpr ⟨w, hw, bind_eq_ok.mpr ⟨s, hs,
      bind_eq_ok.mpr ⟨strength, hget, rfl⟩⟩⟩⟩

omit [DecidableEq L] [NpFloat F] in
/-- Reading an entry off what is left of a list, and leaving the rest for the next turn. The loop
over the factors counts up while the induction takes the list apart. -/
theorem item_eq_ok_of_drop {α : Type} {xs ys : List α} {n : ℕ} {y : α}
    (h : xs.drop n = y :: ys) : item xs n = .ok y ∧ xs.drop (n + 1) = ys := by
  constructor
  · rw [item, ← Nat.add_zero n, ← List.getElem?_drop, h]
    rfl
  · rw [← List.drop_drop, h]
    rfl

/-- **The two loops over the factors give the same positions and strengths.** -/
theorem loops_agree {p : Performance L F} {subs : List (SubStrategy F)} {ranges : List (List ℤ)}
    {ws : List ℤ} {ss : List F} {n : ℕ} (hws : p.windows.drop n = ws)
    (hss : p.signals.drop n = ss) (hin : List.Forall₂ (· ∈ ·) ws ranges)
    (hlen : ss.length = ws.length) (hfit : subs.length ≤ ranges.length)
    (hacc : ∀ s ∈ subs.zip ranges, ∀ w ∈ s.2,
      TechnicalAnalysis.accepts s.1.indicatorName w = true)
    {pairs : List (List Position × List F)} :
    (∃ outs, ((subs.zipIdx n).mapM fun s => p.factorOutput s.2 s.1) = .ok outs ∧
        outs.map (fun out => (out.position, out.indicator)) = pairs) ↔
      ∃ fs, ((subs.zip ranges).mapM fun s => Objective.initFactor p.frames s.1 s.2) = .ok fs ∧
        (fs.zipIdx n).mapM (Objective.turn p.windows p.signals) = .ok pairs := by
  induction subs generalizing ranges ws ss n pairs with
  | nil =>
    constructor
    · rintro ⟨outs, houts, rfl⟩
      cases houts
      exact ⟨[], rfl, rfl⟩
    · rintro ⟨fs, hfs, hpairs⟩
      cases hfs
      cases hpairs
      exact ⟨[], rfl, rfl⟩
  | cons sub subs ih =>
    cases hin with
    | nil => cases hfit
    | @cons w range ws ranges hmem hin =>
      cases ss with
      | nil => cases hlen
      | cons s ss =>
        obtain ⟨hw, hws⟩ := item_eq_ok_of_drop hws
        obtain ⟨hs, hss⟩ := item_eq_ok_of_drop hss
        have hstep (pair : List Position × List F) :
            (∃ out, p.factorOutput n sub = .ok out ∧ (out.position, out.indicator) = pair) ↔
              ∃ f, Objective.initFactor p.frames sub range = .ok f ∧
                Objective.turn p.windows p.signals (f, n) = .ok pair :=
          (Performance.factorOutput_eq_ok hw hs).trans
            (Objective.turn_eq_ok hw hs hmem (hacc (sub, range) List.mem_cons_self)).symm
        have hrest (pairs : List (List Position × List F)) :
            (∃ outs, ((subs.zipIdx (n + 1)).mapM fun s => p.factorOutput s.2 s.1) = .ok outs ∧
                outs.map (fun out => (out.position, out.indicator)) = pairs) ↔
              ∃ fs, ((subs.zip ranges).mapM fun s =>
                  Objective.initFactor p.frames s.1 s.2) = .ok fs ∧
                (fs.zipIdx (n + 1)).mapM (Objective.turn p.windows p.signals) = .ok pairs :=
          ih hws hss hin (Nat.succ.inj hlen) (Nat.le_of_succ_le_succ hfit)
            fun s hs => hacc s (List.mem_cons_of_mem _ hs)
        constructor
        · rintro ⟨outs, houts, rfl⟩
          obtain ⟨out, rest, hout, hloop, rfl⟩ := mapM_cons_eq_ok.mp houts
          obtain ⟨f, hf, hturn⟩ := (hstep _).mp ⟨out, hout, rfl⟩
          obtain ⟨fs, hfs, hturns⟩ := (hrest _).mp ⟨rest, hloop, rfl⟩
          exact ⟨f :: fs, mapM_cons_eq_ok.mpr ⟨f, fs, hf, hfs, rfl⟩,
            mapM_cons_eq_ok.mpr ⟨_, _, hturn, hturns, rfl⟩⟩
        · rintro ⟨all, hall, hturns⟩
          obtain ⟨f, fs, hf, hfs, rfl⟩ := mapM_cons_eq_ok.mp hall
          obtain ⟨pair, rest, hturn, hrests, rfl⟩ := mapM_cons_eq_ok.mp hturns
          obtain ⟨out, hout, hpair⟩ := (hstep pair).mpr ⟨f, hf, hturn⟩
          obtain ⟨outs, houts, hmap⟩ := (hrest rest).mpr ⟨fs, hfs, hrests⟩
          exact ⟨out :: outs, mapM_cons_eq_ok.mpr ⟨out, outs, hout, houts, rfl⟩, by
            rw [List.map_cons, hpair, hmap]⟩

/-! ## The two engines -/

omit [DecidableEq L] [NpFloat F] in
/-- The frames of a strategy can be made exactly when the traded product has one, and they hold
what they were made from. -/
theorem FactorFrames.init_eq_ok {data : DataDict L F} {config : StrategyConfig F}
    {frames : FactorFrames L F} :
    FactorFrames.init data config = .ok frames ↔
      ∃ main, data.get config.internalCusip = .ok main ∧ frames = ⟨data, config, main⟩ := by
  rw [FactorFrames.init, bind_eq_ok]
  refine exists_congr fun main => and_congr_right fun _ => ?_
  show Except.ok _ = Except.ok frames ↔ _
  rw [Except.ok.injEq, eq_comm]

omit [DecidableEq L] in
/-- The engine that reports, built from parameters. -/
theorem Performance.init_eq_ok {data : DataDict L F} {config : StrategyConfig F} {a : Arg ℤ}
    {b : Arg F} {feeBps : Option F} {minMetricObs : ℤ} {p : Performance L F} :
    Performance.init data config (some a) (some b) feeBps minMetricObs = .ok p ↔
      ∃ frames ws ss mw, FactorFrames.init data config = .ok frames ∧
        Performance.broadcast config.getSubstrategies.length a = .ok ws ∧
        Performance.broadcast config.getSubstrategies.length b = .ok ss ∧
        pyMax ws = .ok mw ∧
        p = ⟨config, Performance.costOf feeBps, minMetricObs, config.getSubstrategies, frames,
          ws, ss, mw⟩ := by
  constructor
  · intro h
    obtain ⟨frames, hframes, h⟩ := bind_eq_ok.mp h
    obtain ⟨q, hq, h⟩ := bind_eq_ok.mp h
    obtain ⟨ws, hws, hq⟩ := bind_eq_ok.mp hq
    obtain ⟨ss, hss, hq⟩ := bind_eq_ok.mp hq
    cases hq
    obtain ⟨mw, hmw, h⟩ := bind_eq_ok.mp h
    cases h
    exact ⟨frames, ws, ss, mw, hframes, hws, hss, hmw, rfl⟩
  · rintro ⟨frames, ws, ss, mw, hframes, hws, hss, hmw, rfl⟩
    exact bind_eq_ok.mpr ⟨frames, hframes, bind_eq_ok.mpr ⟨(ws, ss), bind_eq_ok.mpr ⟨ws, hws,
      bind_eq_ok.mpr ⟨ss, hss, rfl⟩⟩, bind_eq_ok.mpr ⟨mw, hmw, rfl⟩⟩⟩

/-- The engine that searches scores what it has built. -/
theorem searchSharpe_eq_ok {data : DataDict L F} {config : StrategyConfig F}
    {space : WindowValues} {windows : List ℤ} {signals : List F} {feeBps : Option F}
    {minMetricObs : ℤ} {v : F} :
    searchSharpe data config space windows signals feeBps minMetricObs = .ok v ↔
      ∃ frames, FactorFrames.init data config = .ok frames ∧
        ∃ price, frames.main.column "price" = .ok price ∧
        ∃ kind, Objective.initKind frames space = .ok kind ∧
          Objective.call ⟨Performance.costOf feeBps, minMetricObs, config.tradingPeriod,
            pctChange price.1, kind⟩ windows signals = .ok v := by
  constructor
  · intro h
    obtain ⟨o, ho, h⟩ := bind_eq_ok.mp h
    obtain ⟨frames, hframes, ho⟩ := bind_eq_ok.mp ho
    obtain ⟨price, hprice, ho⟩ := bind_eq_ok.mp ho
    obtain ⟨kind, hkind, ho⟩ := bind_eq_ok.mp ho
    cases ho
    exact ⟨frames, hframes, price, hprice, kind, hkind, h⟩
  · rintro ⟨frames, hframes, price, hprice, kind, hkind, h⟩
    exact bind_eq_ok.mpr ⟨_, bind_eq_ok.mpr ⟨frames, hframes, bind_eq_ok.mpr ⟨price, hprice,
      bind_eq_ok.mpr ⟨kind, hkind, rfl⟩⟩⟩, h⟩

/-- The report of a parameter set, from the frames on. -/
theorem reportSharpe_eq_ok {data : DataDict L F} {config : StrategyConfig F}
    {windows : List ℤ} {signals : List F} {feeBps : Option F} {minMetricObs : ℤ} {v : F} :
    reportSharpe data config windows signals feeBps minMetricObs = .ok v ↔
      ∃ p, Performance.init data config (some (paramArg config windows))
          (some (paramArg config signals)) feeBps minMetricObs = .ok p ∧
        ∃ r, p.factorOutputs = .ok r ∧ ∃ price, p.frames.main.column "price" = .ok price ∧
        ratioOf (pctChange price.1) r.2 p.metricWindow p.config.tradingPeriod p.transactionCost
          p.minMetricObs = .ok v := by
  rw [reportSharpe, bind_eq_ok]
  exact exists_congr fun p => and_congr_right fun _ => p.sharpe_eq

/-- **One factor.** Where the indicator takes every window of the range, searching a window and
reporting on it give the same ratio, and one succeeds when the other does. -/
theorem search_eq_report_single {data : DataDict L F} {config : StrategyConfig F} {ws : List ℤ}
    {w : ℤ} {s : F} {feeBps : Option F} {minMetricObs : ℤ}
    (hfit : Fits config (.flat ws)) (hw : w ∈ ws) (hacc : AllAccepted config (.flat ws)) {v : F} :
    searchSharpe data config (.flat ws) [w] [s] feeBps minMetricObs = .ok v ↔
      reportSharpe data config [w] [s] feeBps minMetricObs = .ok v := by
  have hn : ¬ 1 < config.getSubstrategies.length := Nat.not_lt.mpr hfit
  have hwin : Performance.broadcast config.getSubstrategies.length (paramArg config [w])
      = .ok [w] := by
    rw [paramArg, if_neg hn, Performance.broadcast, if_neg hn]
  have hsig : Performance.broadcast config.getSubstrategies.length (paramArg config [s])
      = .ok [s] := by
    rw [paramArg, if_neg hn, Performance.broadcast, if_neg hn]
  rw [searchSharpe_eq_ok, reportSharpe_eq_ok]
  constructor
  · rintro ⟨frames, hframes, price, hprice, kind, hkind, hcall⟩
    obtain ⟨main, hmain, rfl⟩ := FactorFrames.init_eq_ok.mp hframes
    rw [Objective.initKind, if_neg hn] at hkind
    obtain ⟨frame, hframe, hkind⟩ := bind_eq_ok.mp hkind
    obtain ⟨cache, hcache, hkind⟩ := bind_eq_ok.mp hkind
    cases hkind
    obtain ⟨w', hw', hcall⟩ := bind_eq_ok.mp hcall
    obtain ⟨s', hs', hcall⟩ := bind_eq_ok.mp hcall
    cases hw'
    cases hs'
    obtain ⟨ind, hind, hcall⟩ := bind_eq_ok.mp hcall
    refine ⟨_, Performance.init_eq_ok.mpr ⟨_, _, _, _, hframes, hwin, hsig, rfl, rfl⟩, ?_⟩
    obtain ⟨out, hout, hpos⟩ := (Performance.singleFactorOutputs_eq_ok
      (p := ⟨config, Performance.costOf feeBps, minMetricObs, config.getSubstrategies,
        ⟨data, config, main⟩, [w], [s], w⟩) rfl rfl).mpr ⟨frame, hframe, ind,
          (IndicatorCache.get_init hacc hw).mp ⟨cache, hcache, hind⟩, rfl⟩
    refine ⟨([out], out.position), ?_, price, hprice, ?_⟩
    · exact Performance.factorOutputs_parts.mpr (.inr ⟨decide_eq_false hn, out, hout, rfl, rfl⟩)
    · rw [hpos]
      exact hcall
  · rintro ⟨p, hp, ⟨outs, finalPosition⟩, hr, price, hprice, hratio⟩
    obtain ⟨frames, ws', ss', mw, hframes, hws', hss', hmw, rfl⟩ := Performance.init_eq_ok.mp hp
    rw [hwin] at hws'
    rw [hsig] at hss'
    cases hws'
    cases hss'
    cases hmw
    obtain ⟨main, hmain, rfl⟩ := FactorFrames.init_eq_ok.mp hframes
    obtain ⟨-, out, hout, -, rfl⟩ := (Performance.factorOutputs_parts.mp hr).resolve_left
      fun h => hn (of_decide_eq_true h.1)
    obtain ⟨frame, hframe, ind, hind, hpos⟩ :=
      (Performance.singleFactorOutputs_eq_ok rfl rfl).mp ⟨out, hout, rfl⟩
    obtain ⟨cache, hcache, hget⟩ := (IndicatorCache.get_init hacc hw).mpr hind
    refine ⟨_, hframes, price, hprice, .single cache config.signalFunc, ?_, ?_⟩
    · rw [Objective.initKind, if_neg hn]
      exact bind_eq_ok.mpr ⟨frame, hframe, bind_eq_ok.mpr ⟨cache, hcache, rfl⟩⟩
    · refine bind_eq_ok.mpr ⟨w, rfl, bind_eq_ok.mpr ⟨s, rfl, bind_eq_ok.mpr ⟨ind, hget, ?_⟩⟩⟩
      rw [hpos]
      exact hratio

/-- **Several factors.** The same for a window and a threshold for each factor, as long as the
traded frame, if there is one, has the `factor` column that the report asks of it. -/
theorem search_eq_report_multi {data : DataDict L F} {config : StrategyConfig F}
    {ranges : List (List ℤ)} {ws : List ℤ} {ss : List F} {feeBps : Option F} {minMetricObs : ℤ}
    (hfit : Fits config (.perFactor ranges)) (hin : List.Forall₂ (· ∈ ·) ws ranges)
    (hlen : ss.length = ws.length) (hacc : AllAccepted config (.perFactor ranges))
    (hfac : ∀ f, data.get config.internalCusip = .ok f → f.hasColumn "factor" = true) {v : F} :
    searchSharpe data config (.perFactor ranges) ws ss feeBps minMetricObs = .ok v ↔
      reportSharpe data config ws ss feeBps minMetricObs = .ok v := by
  obtain ⟨hn, hranges⟩ := hfit
  have hwin : Performance.broadcast config.getSubstrategies.length (paramArg config ws)
      = .ok ws := by
    unfold paramArg
    rw [if_pos hn]
    exact if_pos hn
  have hsig : Performance.broadcast config.getSubstrategies.length (paramArg config ss)
      = .ok ss := by
    unfold paramArg
    rw [if_pos hn]
    exact if_pos hn
  rw [searchSharpe_eq_ok, reportSharpe_eq_ok]
  constructor
  · rintro ⟨frames, hframes, price, hprice, kind, hkind, hcall⟩
    obtain ⟨main, hmain, rfl⟩ := FactorFrames.init_eq_ok.mp hframes
    rw [Objective.initKind, if_pos hn] at hkind
    obtain ⟨fs, hfs, hkind⟩ := bind_eq_ok.mp hkind
    cases hkind
    obtain ⟨pairs, hpairs, hcombine⟩ := bind_eq_ok.mp hcall
    obtain ⟨combined, hcombined, hscore⟩ := bind_eq_ok.mp hcombine
    obtain ⟨mw, hmw, hratio⟩ := bind_eq_ok.mp hscore
    refine ⟨_, Performance.init_eq_ok.mpr ⟨_, _, _, _, hframes, hwin, hsig, hmw, rfl⟩, ?_⟩
    obtain ⟨outs, houts, rfl⟩ := (loops_agree
      (p := ⟨config, Performance.costOf feeBps, minMetricObs, config.getSubstrategies,
        ⟨data, config, main⟩, ws, ss, mw⟩) List.drop_zero List.drop_zero hin hlen hranges hacc).mpr
        ⟨fs, hfs, hpairs⟩
    rw [List.map_map, List.map_map] at hcombined
    refine ⟨(outs, combined), ?_, price, hprice, hratio⟩
    exact Performance.factorOutputs_parts.mpr (.inl ⟨decide_eq_true hn,
      ⟨main, TechnicalAnalysis.init_eq_ok.mpr ⟨hfac main hmain, rfl⟩⟩, houts, hcombined⟩)
  · rintro ⟨p, hp, ⟨outs, combined⟩, hr, price, hprice, hratio⟩
    obtain ⟨frames, ws', ss', mw, hframes, hws', hss', hmw, rfl⟩ := Performance.init_eq_ok.mp hp
    rw [hwin] at hws'
    rw [hsig] at hss'
    cases hws'
    cases hss'
    obtain ⟨main, hmain, rfl⟩ := FactorFrames.init_eq_ok.mp hframes
    obtain ⟨-, -, houts, hcombined⟩ := (Performance.factorOutputs_parts.mp hr).resolve_right
      fun h => of_decide_eq_false h.1 hn
    obtain ⟨fs, hfs, hpairs⟩ :=
      (loops_agree List.drop_zero List.drop_zero hin hlen hranges hacc).mp ⟨outs, houts, rfl⟩
    refine ⟨_, hframes, price, hprice, .multi config.conjunction fs, ?_, ?_⟩
    · rw [Objective.initKind, if_pos hn]
      exact bind_eq_ok.mpr ⟨fs, hfs, rfl⟩
    · refine bind_eq_ok.mpr ⟨_, hpairs, bind_eq_ok.mpr ⟨combined, ?_,
        bind_eq_ok.mpr ⟨mw, hmw, hratio⟩⟩⟩
      rw [List.map_map, List.map_map]
      exact hcombined

/-- **Search and report score the same strategy**, and refuse the same ones, as long
as the indicators take every window that is searched and, with several factors, the
traded frame has a `factor` column. -/
theorem search_eq_report (data : DataDict L F) (config : StrategyConfig F)
    (space : WindowValues) (windows : List ℤ) (signals : List F) (feeBps : Option F)
    (minMetricObs : ℤ) (hfit : Fits config space) (hin : Searched space windows)
    (hlen : signals.length = windows.length) (hacc : AllAccepted config space)
    (hfac : 1 < config.getSubstrategies.length →
      ∀ f, data.get config.internalCusip = .ok f → f.hasColumn "factor" = true) :
    (searchSharpe data config space windows signals feeBps minMetricObs).toOption
      = (reportSharpe data config windows signals feeBps minMetricObs).toOption := by
  refine toOption_congr fun v => ?_
  cases hin with
  | @flat ws w hw =>
    obtain ⟨s, rfl⟩ := List.length_eq_one_iff.mp hlen
    exact search_eq_report_single hfit hw hacc
  | perFactor hin => exact search_eq_report_multi hfit hin hlen hacc (hfac hfit.1)

/-! ## A small market -/

namespace Search

/-- Four daily closes of one product. -/
def closes : Column ExtRat [1, 2, 3, 4] := ⟨[.fin 100, .fin 110, .fin 99, .fin 121], rfl⟩

/-- The frame of the product as the loaders return it. -/
def btc : Frame ℕ ExtRat := ⟨[1, 2, 3, 4], [("price", closes), ("factor", closes)]⟩

/-- A frame without a `factor` column. -/
def bare : Frame ℕ ExtRat := ⟨[1, 2, 3, 4], [("price", closes)]⟩

/-- A moving average of the price, exponential or simple. -/
def average (indicatorName : String) : StrategyConfig ExtRat where
  internalCusip := "btcusdt.crypto"
  indicatorName := indicatorName
  signalFunc := .momentumBandSignal
  tradingPeriod := 365

/-- Two simple moving averages of the price. -/
def pair : StrategyConfig ExtRat :=
  { average "get_sma" with
    substrategies :=
      [{ indicatorName := "get_sma", signalFuncName := "momentum_band_signal", window := 0,
         signal := 0, dataColumn := "price" },
       { indicatorName := "get_sma", signalFuncName := "reversion_band_signal", window := 0,
         signal := 0, dataColumn := "price" }] }

end Search

/-- A search over the spans 0 and 2 refuses the span 2, which the report scores. With
two factors and no `factor` column on the traded frame, it is the report that refuses. -/
theorem search_ne_report :
    ((Fits (Search.average "get_ema") (.flat [0, 2]) ∧ Searched (.flat [0, 2]) [2]) ∧
      (searchSharpe [("btcusdt.crypto", Search.btc)] (Search.average "get_ema") (.flat [0, 2])
        [2] [.fin 100] none 0).toOption = none ∧
      (reportSharpe [("btcusdt.crypto", Search.btc)] (Search.average "get_ema")
        [2] [.fin 100] none 0).toOption.isSome = true) ∧
    (Fits Search.pair (.perFactor [[1], [1]]) ∧ Searched (.perFactor [[1], [1]]) [1, 1] ∧
        AllAccepted Search.pair (.perFactor [[1], [1]])) ∧
      (searchSharpe [("btcusdt.crypto", Search.bare)] Search.pair (.perFactor [[1], [1]])
        [1, 1] [.fin 100, .fin 100] none 0).toOption.isSome = true ∧
      (reportSharpe [("btcusdt.crypto", Search.bare)] Search.pair
        [1, 1] [.fin 100, .fin 100] none 0).toOption = none := by
  refine ⟨⟨⟨?_, .flat (by decide)⟩, by decide +kernel, by decide +kernel⟩, ⟨?_, ?_, ?_⟩,
    by decide +kernel, by decide +kernel⟩
  · show (Search.average "get_ema").getSubstrategies.length ≤ 1
    decide
  · show 1 < Search.pair.getSubstrategies.length ∧ Search.pair.getSubstrategies.length ≤ 2
    decide
  · exact .perFactor (.cons (by decide) (.cons (by decide) .nil))
  · show ∀ s ∈ Search.pair.getSubstrategies.zip [[1], [1]], ∀ w ∈ s.2,
      TechnicalAnalysis.accepts s.1.indicatorName w = true
    decide

/-- Two moving averages of one price, over ranges that both take. -/
theorem pair_search_eq_report :
    (searchSharpe [("btcusdt.crypto", Search.btc)] Search.pair (.perFactor [[1, 2], [2, 3]])
        [1, 3] [.fin 100, .fin 105] none 0).toOption
      = (reportSharpe [("btcusdt.crypto", Search.btc)] Search.pair [1, 3]
        [.fin 100, .fin 105] none 0).toOption :=
  search_eq_report _ _ _ _ _ _ _ (by
    show 1 < Search.pair.getSubstrategies.length ∧ Search.pair.getSubstrategies.length ≤ 2
    decide) (.perFactor (.cons (by decide) (.cons (by decide) .nil))) rfl (by
    show ∀ s ∈ Search.pair.getSubstrategies.zip [[1, 2], [2, 3]], ∀ w ∈ s.2,
      TechnicalAnalysis.accepts s.1.indicatorName w = true
    decide) (by
    rintro - f hf
    cases hf
    decide)
