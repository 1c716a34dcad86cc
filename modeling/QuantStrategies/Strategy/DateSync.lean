import QuantStrategies.Frontend.ExchangeSeries
import QuantStrategies.Strategy.ExchangeSeries

/-!
# Two guards over one range

A run on an exchange passes two guards on its range. The read of each series
(`fetchExchangeDf`) compares the stored bounds with the instants asked for, and
gives the end of the range one bar of slack. Once every frame is there,
`enforceDateSync` compares the first and the last bar of each with the same
instants, and gives none. It looks at runs of two products or more only.

The second guard therefore refuses what the first lets through on purpose: a
range that ends with the bar that has not closed.

Both guards compare with the same pair of instants, but the first looks at what is stored
and the second at the rows that were read. The theorems state on the stored bars of each
series when a run passes both, and follow the loop of reads by the invariant `ReadUpTo`.
-/

open NpFloat Result Frontend

variable {F : Type} [NpFloat F]

/-! ## The frames of an exchange -/

/-- `_ohlcv_frame`: the columns every source of bars has. -/
def ohlcvFrame (bars : List OhlcvBar) : Pandas.Frame ℤ F :=
  let index := bars.map OhlcvBar.barTimestamp
  let columnOf (px : OhlcvBar → ℚ) : Pandas.Column F index :=
    ⟨bars.map fun b => lit (px b), by simp only [index, List.length_map]⟩
  if bars = [] then ⟨[], []⟩
  else
    let close := columnOf OhlcvBar.closePx
    ⟨index, [("price", close), ("factor", close), ("Open", columnOf OhlcvBar.openPx),
      ("High", columnOf OhlcvBar.highPx), ("Low", columnOf OhlcvBar.lowPx), ("Close", close),
      ("Volume", columnOf OhlcvBar.volume)]⟩

/-- The text that the read raises with an error. `stamp` writes an instant at the
granularity of the interval. -/
def ExchangeError.detail (stamp : ℤ → String) : ExchangeError → String
  | .noInterval tmIntervalId => s!"REFDATA.TM_INTERVAL has no interval {tmIntervalId}"
  | .noBarSource app =>
    s!"{app} is an exchange, so its bars come from MARKET_DATA.PRICE_BAR, but no price bar " ++
      "source is configured"
  | .notListed internalCusip app =>
    s!"{internalCusip} is not listed on {app} — no INST.PRODUCT_XREF row maps it there, so that " ++
      "venue has no bars for it. Give this factor its own data source; only the traded product " ++
      "has to follow the venue it executes on"
  | .noVenue app message =>
    s!"{app} does not resolve to a venue this platform can read bars from: {message}"
  | .notCaptured app internalCusip tmIntervalId =>
    s!"no {app} bars captured for {internalCusip} at interval {tmIntervalId} — subscribe to the " ++
      "series on the Data page and backfill it, then re-run"
  | .notSpanned app internalCusip firstBar lastBar rangeStart rangeEnd =>
    let first := stamp firstBar
    let last := stamp lastBar
    let start := stamp rangeStart
    let stop := stamp rangeEnd
    s!"{app} bars for {internalCusip} cover {first} to {last}, which does not span the requested " ++
      s!"{start} to {stop} — backfill the missing history on the Data page, or narrow the range. " ++
      "A venue cannot serve history from before the pair listed there"
  | .emptyRange app internalCusip rangeStart rangeEnd =>
    let start := stamp rangeStart
    let stop := stamp rangeEnd
    s!"no {app} bars for {internalCusip} between {start} and {stop}"

/-- What a read on an exchange needs: the interval table, the venues, the bars that were
captured, the vendor symbols and the names of the apps. -/
structure ExchangeReads where
  /-- The period of an interval, by its number. -/
  intervals : ℕ → Option Period
  /-- The bar services, if the process has them. -/
  services : Option BarServices
  /-- The bars that were captured. -/
  db : PriceBar
  /-- What a venue calls a product. -/
  resolveInternalCusip : String → ℕ → Option String
  /-- The name of a venue, for the messages. -/
  appName : ℕ → String
  /-- An instant as text, for the messages. -/
  stamp : ℤ → String

/-- The branch of `fetch_df` for an exchange. -/
def ExchangeReads.read (x : ExchangeReads) (rangeStart rangeEnd : ℤ) (k : Series) :
    Except EvaluationError (Pandas.Frame ℤ F) :=
  let bars := fetchExchangeDf x.intervals x.services x.db ⟨k.sourceAppId, x.appName k.sourceAppId⟩
    (x.resolveInternalCusip k.internalCusip k.sourceAppId) k.internalCusip k.tmIntervalId
    rangeStart rangeEnd
  (bars.mapError fun e => .backtest (e.detail x.stamp) 400).map ohlcvFrame

/-- `fetch_df` of a run: an exchange serves its own bars, and every other source is a
provider. -/
def ExchangeReads.fetch (x : ExchangeReads) (provider : Fetch ℤ F) (apps : List App)
    (tmIntervalId : ℕ) (rangeStart rangeEnd : ℤ) : Fetch ℤ F := fun symbol dataSource refresh =>
  (fetchDf apps ⟨x.read rangeStart rangeEnd, provider⟩ tmIntervalId symbol dataSource refresh).1

/-- `_build_data_dict`, up to its last guard. -/
def fetchDataDict {L : Type} (fetch : Fetch L F) (appRows : List AppRow) (req : BacktestRequest) :
    Except EvaluationError (DataDict L F) := do
  let main ← fetchFor fetch appRows req req.symbol req.dataSource
  req.factors.foldlM (addFactor fetch appRows req) [(req.symbol, main)]

/-! ## What a run reads -/

/-- The source a product is read from: that of its first reader. -/
def BacktestRequest.sourceOf (req : BacktestRequest) (c : String) : Option String :=
  (req.readers.find? fun r => r.1 = c).map Prod.snd

/-- The series that a run on exchanges reads: of each product, from its first source. -/
def BacktestRequest.ReadsSeries (req : BacktestRequest) (apps : List App) (tmIntervalId : ℕ)
    (k : Series) : Prop :=
  k.tmIntervalId = tmIntervalId ∧ ∃ source, req.sourceOf k.internalCusip = some source ∧
    serverVenue apps source = some k.sourceAppId

/-- Every factor is of the traded product. -/
def BacktestRequest.OneProduct (req : BacktestRequest) : Prop :=
  ∀ f ∈ req.factors, f.product req = req.symbol

/-- Every source that is named is an exchange. -/
def BacktestRequest.OnExchanges (req : BacktestRequest) (apps : List App) : Prop :=
  ∀ r ∈ req.readers, (serverVenue apps r.2).isSome = true

section Products

variable {L : Type} {fetch : Fetch L F} {appRows : List AppRow} {req : BacktestRequest}
variable {data data' : DataDict L F}

/-- A dictionary after some of the readers: an entry for each of their products, which
was fetched from its first source. -/
structure ReadUpTo (fetch : Fetch L F) (req : BacktestRequest) (readers : List (String × String))
    (data : DataDict L F) : Prop where
  /-- The dictionary has the readers' products. -/
  products : ∀ c, c ∈ data.map Prod.fst ↔ c ∈ readers.map Prod.fst
  /-- Each of them once. -/
  nodup : (data.map Prod.fst).Nodup
  /-- And each from the first reader that named it. -/
  fetched : ∀ e ∈ data, ∃ source refresh,
    (readers.find? fun r => r.1 = e.1).map Prod.snd = some source ∧
      fetch e.1 source refresh = .ok e.2

omit [NpFloat F] in
/-- A product is not found exactly when it is not among the keys. -/
theorem lookup_eq_none_iff_keys {c : String} : data.lookup c = none ↔ c ∉ data.map Prod.fst := by
  refine List.lookup_eq_none_iff.trans ⟨fun h hc => ?_, fun h e he => ?_⟩
  · obtain ⟨e, he, rfl⟩ := List.mem_map.mp hc
    simpa using h e he
  · exact bne_iff_ne.mpr fun hce => h (hce ▸ List.mem_map_of_mem he)

namespace ReadUpTo

variable {readers : List (String × String)} {r : String × String} {f : FactorConfig}

omit [NpFloat F] in
/-- A reader whose product is there adds nothing. -/
theorem known (h : ReadUpTo fetch req readers data) (hr : r.1 ∈ readers.map Prod.fst) :
    ReadUpTo fetch req (readers ++ [r]) data where
  products c := by
    rw [h.products, List.map_append, List.mem_append, List.map_singleton, List.mem_singleton]
    exact ⟨Or.inl, fun hc => hc.elim id fun hc => hc ▸ hr⟩
  nodup := h.nodup
  fetched e he := by
    obtain ⟨source, refresh, hsource, hfetch⟩ := h.fetched e he
    obtain ⟨r', hr', rfl⟩ := Option.map_eq_some_iff.mp hsource
    exact ⟨r'.2, refresh, by rw [List.find?_append, hr']; rfl, hfetch⟩

omit [NpFloat F] in
/-- A reader of a new product adds its frame. -/
theorem new {frame : Pandas.Frame L F} {refresh : Bool} (h : ReadUpTo fetch req readers data)
    (hr : r.1 ∉ data.map Prod.fst) (hfetch : fetch r.1 r.2 refresh = .ok frame) :
    ReadUpTo fetch req (readers ++ [r]) (data ++ [(r.1, frame)]) where
  products c := by
    simp only [List.map_append, List.mem_append, List.map_singleton, List.mem_singleton,
      h.products]
  nodup := by
    rw [List.map_append, List.map_singleton]
    exact List.nodup_append.mpr ⟨h.nodup, List.nodup_singleton _, fun c hc c' hc' hcc =>
      hr (List.mem_singleton.mp hc' ▸ hcc ▸ hc)⟩
  fetched e he := by
    obtain he | he := List.mem_append.mp he
    · obtain ⟨source, refresh, hsource, hfetch⟩ := h.fetched e he
      obtain ⟨r', hr', rfl⟩ := Option.map_eq_some_iff.mp hsource
      exact ⟨r'.2, refresh, by rw [List.find?_append, hr']; rfl, hfetch⟩
    · obtain rfl := List.mem_singleton.mp he
      have hnone : (readers.find? fun r' => r'.1 = r.1) = none := by
        refine List.find?_eq_none.mpr fun r' hr' heq => hr ((h.products _).mpr ?_)
        exact of_decide_eq_true heq ▸ List.mem_map_of_mem hr'
      refine ⟨r.2, refresh, ?_, hfetch⟩
      rw [List.find?_append, hnone, Option.none_or, List.find?_cons_of_pos (by simp)]
      rfl

omit [NpFloat F] in
/-- **One turn of the loop over the factors.** -/
theorem step (h : ReadUpTo fetch req readers data) (hsymbol : req.symbol ∈ readers.map Prod.fst)
    (hadd : addFactor fetch appRows req data f = .ok data') :
    ReadUpTo fetch req (readers ++ [(f.product req, f.source req)]) data' := by
  rw [addFactor] at hadd
  cases hcusip : f.cusip with
  | none =>
    rw [hcusip] at hadd
    cases hadd
    exact h.known (FactorConfig.product_of_cusip_none req hcusip ▸ hsymbol)
  | some cusip =>
    obtain ⟨hne, hproduct⟩ := FactorConfig.product_of_cusip_some req hcusip
    rw [hcusip] at hadd
    dsimp only at hadd
    rw [hproduct]
    split at hadd
    · next hnew =>
      obtain ⟨frame, hframe, hadd⟩ := bind_eq_ok.mp hadd
      cases hadd
      obtain ⟨refresh, hfetch⟩ := fetchFor_eq_ok hframe
      exact h.new (lookup_eq_none_iff_keys.mp hnew.2) hfetch
    · next hold =>
      cases hadd
      refine h.known ((h.products cusip).mp (not_not.mp fun hnot => hold ⟨hne, ?_⟩))
      exact lookup_eq_none_iff_keys.mpr hnot

omit [NpFloat F] in
/-- **The loop over the factors.** -/
theorem loop {fs : List FactorConfig} (h : ReadUpTo fetch req readers data)
    (hsymbol : req.symbol ∈ readers.map Prod.fst)
    (hadd : fs.foldlM (addFactor fetch appRows req) data = .ok data') :
    ReadUpTo fetch req (readers ++ fs.map fun f => (f.product req, f.source req)) data' := by
  induction fs generalizing data readers with
  | nil =>
    cases hadd
    rwa [List.map_nil, List.append_nil]
  | cons f fs ih =>
    rw [List.foldlM_cons] at hadd
    obtain ⟨mid, hmid, hadd⟩ := bind_eq_ok.mp hadd
    rw [List.map_cons, ← List.singleton_append, ← List.append_assoc]
    refine ih (h.step hsymbol hmid) ?_ hadd
    rw [List.map_append]
    exact List.mem_append_left _ hsymbol

end ReadUpTo

omit [NpFloat F] in
/-- **What a run has read** once every frame is there. -/
theorem fetchDataDict_readUpTo (h : fetchDataDict fetch appRows req = .ok data) :
    ReadUpTo fetch req req.readers data := by
  obtain ⟨main, hmain, h⟩ := bind_eq_ok.mp h
  obtain ⟨refresh, hfetch⟩ := fetchFor_eq_ok hmain
  have htraded : ReadUpTo fetch req [(req.symbol, req.dataSource)] [(req.symbol, main)] := by
    refine ⟨fun c => by simp, by simp, fun e he => ?_⟩
    obtain rfl := List.mem_singleton.mp he
    exact ⟨req.dataSource, refresh, by simp, hfetch⟩
  exact htraded.loop (by simp) h

omit [NpFloat F] in
/-- The last guard looks at runs of two products or more. -/
theorem length_le_one_iff (h : fetchDataDict fetch appRows req = .ok data) :
    data.length ≤ 1 ↔ req.OneProduct := by
  have hread := fetchDataDict_readUpTo h
  have hmem : ∀ c, c ∈ data.map Prod.fst ↔
      c = req.symbol ∨ ∃ f ∈ req.factors, f.product req = c := by
    intro c
    rw [hread.products, BacktestRequest.readers, List.map_cons, List.mem_cons, List.map_map]
    exact or_congr_right List.mem_map
  have hlen : (data.map Prod.fst).length = data.length := List.length_map _
  rw [← hlen]
  constructor
  · intro hle f hf
    have hsymbol : req.symbol ∈ data.map Prod.fst := (hmem _).mpr (Or.inl rfl)
    have hproduct : f.product req ∈ data.map Prod.fst := (hmem _).mpr (Or.inr ⟨f, hf, rfl⟩)
    obtain ⟨c, hc⟩ := List.length_eq_one_iff.mp (le_antisymm hle (List.length_pos_of_mem hsymbol))
    rw [hc] at hsymbol hproduct
    exact (List.mem_singleton.mp hproduct).trans (List.mem_singleton.mp hsymbol).symm
  · intro hone
    have hsub : data.map Prod.fst ⊆ [req.symbol] := by
      intro c hc
      obtain rfl | ⟨f, hf, rfl⟩ := (hmem c).mp hc
      · exact List.mem_singleton_self _
      · exact hone f hf ▸ List.mem_singleton_self _
    exact (hread.nodup.subperm hsub).length_le

end Products

/-! ## The last guard -/

section Guard

variable {L : Type} [LinearOrder L] {dates : Dates L} {req : BacktestRequest} {data : DataDict L F}

/-- A frame reaches from the start of a range to its end. -/
def Reaches (dates : Dates L) (req : BacktestRequest) (index : List L) : Prop :=
  (∃ l ∈ index, l ≤ dates.timestamp req.start) ∧ ∃ l ∈ index, dates.timestamp req.stop ≤ l

omit [NpFloat F] in
/-- The first and the last label say how far a frame reaches. -/
theorem reaches_of_boundsOf {e : String × Pandas.Frame L F} {b : String × L × L}
    (hb : boundsOf e = .ok b) : Reaches dates req e.2.index ↔
      b.2.1 ≤ dates.timestamp req.start ∧ dates.timestamp req.stop ≤ b.2.2 := by
  unfold boundsOf at hb
  split at hb
  · next lo hi hlo hhi =>
    cases hb
    obtain ⟨hlomem, hlomin⟩ := List.min?_eq_some_iff.mp hlo
    obtain ⟨hhimem, hhimax⟩ := List.max?_eq_some_iff.mp hhi
    constructor
    · rintro ⟨⟨l, hl, hls⟩, l', hl', hle⟩
      exact ⟨(hlomin l hl).trans hls, hle.trans (hhimax l' hl')⟩
    · exact fun h => ⟨⟨lo, hlomem, h.1⟩, hi, hhimem, h.2⟩
  · cases hb

omit [NpFloat F] in
/-- A frame with a row has a first and a last label. -/
theorem exists_boundsOf {e : String × Pandas.Frame L F} (he : e.2.index ≠ []) :
    ∃ b, boundsOf e = .ok b := by
  obtain ⟨lo, hlo⟩ := Option.isSome_iff_exists.mp (List.isSome_min?_of_ne_nil he)
  obtain ⟨hi, hhi⟩ := Option.isSome_iff_exists.mp (List.isSome_max?_of_ne_nil he)
  exact ⟨(e.1, lo, hi), by rw [boundsOf, hlo, hhi]⟩

omit [NpFloat F] in
/-- **What the last guard asks for**: with two frames or more, each reaches over the range. A
single frame passes whatever its dates are. -/
theorem enforceDateSync_eq_ok : enforceDateSync dates req data = .ok () ↔
    data.length ≤ 1 ∨ ∀ e ∈ data, Reaches dates req e.2.index := by
  rw [enforceDateSync]
  split
  · next hle => exact iff_of_true rfl (Or.inl hle)
  next hlt =>
  rw [or_iff_right hlt]
  constructor
  · intro h e he
    obtain ⟨bounds, hbounds, h⟩ := bind_eq_ok.mp h
    obtain ⟨b, hb, heb⟩ := exists_mem_of_mapM hbounds he
    rw [reaches_of_boundsOf heb]
    split at h
    · next commonStart commonEnd hstart hend =>
      split at h
      · cases h
      next hcover =>
      rw [not_or, not_lt, not_lt] at hcover
      have hfirst := (List.max?_eq_some_iff.mp hstart).2 _ (List.mem_map_of_mem hb)
      have hlast := (List.min?_eq_some_iff.mp hend).2 _ (List.mem_map_of_mem hb)
      exact ⟨hfirst.trans hcover.1, hcover.2.trans hlast⟩
    · next hnone =>
      have hmax : ((bounds.map fun b => b.2.1).max?).isSome = true :=
        List.isSome_max?_of_mem (List.mem_map_of_mem hb)
      have hmin : ((bounds.map fun b => b.2.2).min?).isSome = true :=
        List.isSome_min?_of_mem (List.mem_map_of_mem hb)
      obtain ⟨x, hx⟩ := Option.isSome_iff_exists.mp hmax
      obtain ⟨y, hy⟩ := Option.isSome_iff_exists.mp hmin
      exact (hnone x y hx hy).elim
  · intro h
    have hbound : ∀ e ∈ data, ∃ b, boundsOf e = .ok b := fun e he =>
      exists_boundsOf (List.ne_nil_of_mem (h e he).1.choose_spec.1)
    obtain ⟨bounds, hbounds⟩ := exists_mapM_eq_ok hbound
    refine bind_eq_ok.mpr ⟨bounds, hbounds, ?_⟩
    split
    · next commonStart commonEnd hstart hend =>
      obtain ⟨b, hb, rfl⟩ := List.mem_map.mp (List.max?_mem hstart)
      obtain ⟨b', hb', rfl⟩ := List.mem_map.mp (List.min?_mem hend)
      obtain ⟨e, he, heb⟩ := exists_of_mem_mapM hbounds hb
      obtain ⟨e', he', heb'⟩ := exists_of_mem_mapM hbounds hb'
      rw [if_neg]
      rw [not_or, not_lt, not_lt]
      exact ⟨((reaches_of_boundsOf heb).mp (h e he)).1,
        ((reaches_of_boundsOf heb').mp (h e' he')).2⟩
    · rfl

end Guard

/-! ## Both guards -/

variable {x : ExchangeReads} {provider : Fetch ℤ F} {apps : List App} {tmIntervalId : ℕ}
variable {dates : Dates ℤ} {req : BacktestRequest} {data : DataDict ℤ F} {period : Period}
variable {k : Series} {rangeStart rangeEnd : ℤ}

/-- The frame of a read that went through holds the stored bars of the range. -/
theorem ExchangeReads.read_eq_ok {frame : Pandas.Frame ℤ F}
    (h : x.read rangeStart rangeEnd k = .ok frame) :
    (∃ t, x.db.Stored k t ∧ rangeStart ≤ t ∧ t ≤ rangeEnd) ∧
      ∀ t, t ∈ frame.index ↔ x.db.Stored k t ∧ rangeStart ≤ t ∧ t ≤ rangeEnd := by
  unfold ExchangeReads.read at h
  dsimp only at h
  generalize hbars : fetchExchangeDf x.intervals x.services x.db _ _ _ _ _ _ = bars at h
  cases bars with
  | error e => cases h
  | ok bars =>
    obtain ⟨⟨period, hserved⟩, rfl⟩ := fetchExchangeDf_ok.mp hbars
    cases h
    refine ⟨hserved.nonempty, fun t => ?_⟩
    obtain ⟨u, hu⟩ := hserved.nonempty
    obtain ⟨b, hb, -⟩ := PriceBar.stored_iff_mem_getBars.mpr hu
    unfold ohlcvFrame
    dsimp only
    rw [if_neg (List.ne_nil_of_mem hb)]
    exact List.mem_map.trans PriceBar.stored_iff_mem_getBars

/-- On a venue, a fetch that succeeds is a read of the stored bars. -/
theorem ExchangeReads.fetch_eq_ok {symbol dataSource : String} {refresh : Bool}
    {frame : Pandas.Frame ℤ F} {v : ℕ} (hvenue : serverVenue apps dataSource = some v)
    (h : x.fetch provider apps tmIntervalId rangeStart rangeEnd symbol dataSource refresh
      = .ok frame) :
    x.read rangeStart rangeEnd ⟨symbol, tmIntervalId, v⟩ = .ok frame := by
  unfold serverVenue at hvenue
  obtain ⟨app, happ, rfl⟩ := Option.map_eq_some_iff.mp hvenue
  obtain ⟨happ, hexchange⟩ := Option.filter_eq_some_iff.mp happ
  unfold ExchangeReads.fetch fetchDf at h
  rw [happ] at h
  dsimp only at h
  rwa [if_pos (of_decide_eq_true hexchange)] at h

/-- A frame of an exchange reaches over the range when both its ends are stored. -/
theorem reaches_iff {frame : Pandas.Frame ℤ F}
    (h : x.read (dates.timestamp req.start) (dates.timestamp req.stop) k = .ok frame) :
    Reaches dates req frame.index ↔
      x.db.Stored k (dates.timestamp req.start) ∧ x.db.Stored k (dates.timestamp req.stop) := by
  obtain ⟨⟨u, -, hu1, hu2⟩, hindex⟩ := ExchangeReads.read_eq_ok h
  constructor
  · rintro ⟨⟨l, hl, hls⟩, l', hl', hle⟩
    obtain ⟨hst, h1, -⟩ := (hindex l).mp hl
    obtain ⟨hst', -, h2⟩ := (hindex l').mp hl'
    exact ⟨le_antisymm hls h1 ▸ hst, le_antisymm hle h2 ▸ hst'⟩
  · rintro ⟨hs, he⟩
    exact ⟨⟨_, (hindex _).mpr ⟨hs, le_refl _, hu1.trans hu2⟩, le_refl _⟩,
      _, (hindex _).mpr ⟨he, hu1.trans hu2, le_refl _⟩, le_refl _⟩

/-- In a series without a hole the ends of a range are stored when they are boundaries,
and a bar at or past its end is. -/
theorem WithoutHole.ends_iff {db : PriceBar} (h : WithoutHole period db k rangeStart rangeEnd)
    (hne : ∃ t, db.Stored k t ∧ rangeStart ≤ t ∧ t ≤ rangeEnd) :
    db.Stored k rangeStart ∧ db.Stored k rangeEnd ↔
      period.length ∣ rangeStart ∧ period.length ∣ rangeEnd ∧
        ∃ t, db.Stored k t ∧ rangeEnd ≤ t := by
  obtain ⟨u, hu, hu1, hu2⟩ := hne
  constructor
  · rintro ⟨hs, he⟩
    exact ⟨h.2 _ hs (le_refl _) (hu1.trans hu2), h.2 _ he (hu1.trans hu2) (le_refl _),
      _, he, le_refl _⟩
  · rintro ⟨hs, he, t, ht, hle⟩
    exact ⟨h.1 _ u hu hu1 (le_refl _) (hu1.trans hu2) hs,
      h.1 _ t ht hle (hu1.trans hu2) (le_refl _) he⟩

/-- The series of an exchange that a run reads. -/
theorem exists_readsSeries (hexchange : req.OnExchanges apps) {c source : String}
    (hsource : req.sourceOf c = some source) :
    ∃ v, serverVenue apps source = some v ∧
      req.ReadsSeries apps tmIntervalId ⟨c, tmIntervalId, v⟩ := by
  obtain ⟨r, hr, rfl⟩ := Option.map_eq_some_iff.mp hsource
  obtain ⟨v, hv⟩ := Option.isSome_iff_exists.mp (hexchange r (List.mem_of_find?_eq_some hr))
  exact ⟨v, hv, rfl, r.2, hsource, hv⟩

/-- **When the last guard accepts what the reads have served**: the run reads one product
alone, or its range starts and ends on boundaries of the interval and every series has a
bar at or past its end. -/
theorem dateSync_iff (hexchange : req.OnExchanges apps)
    (hread : fetchDataDict (x.fetch provider apps tmIntervalId (dates.timestamp req.start)
      (dates.timestamp req.stop)) (refreshRows apps) req = .ok data)
    (hwhole : ∀ k, req.ReadsSeries apps tmIntervalId k →
      WithoutHole period x.db k (dates.timestamp req.start) (dates.timestamp req.stop)) :
    enforceDateSync dates req data = .ok () ↔
      req.OneProduct ∨
        (period.length ∣ dates.timestamp req.start ∧ period.length ∣ dates.timestamp req.stop ∧
          ∀ k, req.ReadsSeries apps tmIntervalId k →
            ∃ t, x.db.Stored k t ∧ dates.timestamp req.stop ≤ t) := by
  have hup := fetchDataDict_readUpTo hread
  have hentry : ∀ e ∈ data, ∃ v, req.ReadsSeries apps tmIntervalId ⟨e.1, tmIntervalId, v⟩ ∧
      x.read (dates.timestamp req.start) (dates.timestamp req.stop) ⟨e.1, tmIntervalId, v⟩
        = .ok e.2 := by
    intro e he
    obtain ⟨source, refresh, hsource, hfetch⟩ := hup.fetched e he
    obtain ⟨v, hv, hreads⟩ := exists_readsSeries hexchange hsource
    exact ⟨v, hreads, ExchangeReads.fetch_eq_ok hv hfetch⟩
  rw [enforceDateSync_eq_ok, length_le_one_iff hread]
  refine or_congr_right ⟨fun h => ?_, fun h e he => ?_⟩
  · have hends : ∀ k, req.ReadsSeries apps tmIntervalId k →
        period.length ∣ dates.timestamp req.start ∧ period.length ∣ dates.timestamp req.stop ∧
          ∃ t, x.db.Stored k t ∧ dates.timestamp req.stop ≤ t := by
      rintro ⟨c, tm, v⟩ hk
      obtain ⟨rfl, source, hsource, hv⟩ := id hk
      obtain ⟨r, hr, -⟩ := Option.map_eq_some_iff.mp hsource
      have hproduct := List.find?_some hr
      have hc : c ∈ data.map Prod.fst := (hup.products c).mpr (List.mem_map.mpr
        ⟨r, List.mem_of_find?_eq_some hr, of_decide_eq_true hproduct⟩)
      obtain ⟨e, he, rfl⟩ := List.mem_map.mp hc
      obtain ⟨v', ⟨-, source', hsource', hv'⟩, hok⟩ := hentry e he
      obtain rfl := Option.some.inj (hsource.symm.trans hsource')
      obtain rfl := Option.some.inj (hv.symm.trans hv')
      exact ((hwhole _ hk).ends_iff (ExchangeReads.read_eq_ok hok).1).mp
        ((reaches_iff hok).mp (h e he))
    have hsource : req.sourceOf req.symbol = some req.dataSource := by
      simp [BacktestRequest.sourceOf, BacktestRequest.readers]
    obtain ⟨v, -, htraded⟩ := exists_readsSeries hexchange hsource
    obtain ⟨hs, he, -⟩ := hends _ htraded
    exact ⟨hs, he, fun k hk => (hends k hk).2.2⟩
  · obtain ⟨v, hreads, hok⟩ := hentry e he
    exact (reaches_iff hok).mpr (((hwhole _ hreads).ends_iff (ExchangeReads.read_eq_ok hok).1).mpr
      ⟨h.1, h.2.1, h.2.2 _ hreads⟩)

/-! ## A range that ends with the open bar -/

namespace DateSync

/-- Two products whose hours 0, 1 and 2 have closed. -/
def captured : PriceBar :=
  ⟨["BTC", "ETH"].flatMap fun c => [0, 1, 2].map fun hour => ⟨⟨c, 1, 1⟩,
    ⟨hour * 3600000000, 1, 1, 1, 1, 1⟩⟩, by decide⟩

/-- A venue on which both are listed. -/
def bybit : ExchangeReads where
  intervals _ := some hourPeriod
  services := some fun _ => .ok ()
  db := captured
  resolveInternalCusip c _ := some c
  appName _ := "bybit"
  stamp := toString

/-- The one source there is. -/
def venues : List App := [⟨1, "bybit", "Y", "N"⟩]

/-- The texts of two hours. -/
def hours : Dates ℤ where
  timestamp text := if text = "2h" then 2 * 3600000000 else if text = "3h" then 3 * 3600000000 else 0
  date := toString

/-- A run of BTC on itself and on ETH, up to an hour. -/
def request (stop : String) : BacktestRequest where
  symbol := "BTC"
  start := "0h"
  stop := stop
  tradingPeriod := 365
  dataSource := "bybit"
  factors := [{ indicator := "get_sma", strategy := "momentum" },
    { symbol := some "ETH", indicator := "get_sma", strategy := "momentum" }]
  conjunction := some "AND"
  namesSource := bybit_ne_empty
  hasFactor := List.cons_ne_nil _ _

/-- The reads of a run up to an hour. -/
def reads (stop : String) : Except EvaluationError (DataDict ℤ ExtRat) :=
  fetchDataDict (bybit.fetch (fun _ _ _ => .error (.cacheMiss "")) venues 1
    (hours.timestamp (request stop).start) (hours.timestamp (request stop).stop))
    (refreshRows venues) (request stop)

theorem captured_stored {c : String} (hc : c = "BTC" ∨ c = "ETH") {t : ℤ} :
    captured.Stored ⟨c, 1, 1⟩ t ↔ t = 0 ∨ t = 3600000000 ∨ t = 7200000000 := by
  obtain rfl | rfl := hc
  · simp [captured, PriceBar.Stored, PriceBarRow.key]
  · simp [captured, PriceBar.Stored, PriceBarRow.key]

theorem readers_eq (stop : String) :
    (request stop).readers = [("BTC", "bybit"), ("BTC", "bybit"), ("ETH", "bybit")] := rfl

theorem onExchanges (stop : String) : (request stop).OnExchanges venues := by
  intro r hr
  rw [readers_eq] at hr
  simp only [List.mem_cons, List.not_mem_nil, or_false, or_self_left] at hr
  rcases hr with rfl | rfl <;> rfl

theorem readsSeries {stop : String} {k : Series} (hk : (request stop).ReadsSeries venues 1 k) :
    k = ⟨"BTC", 1, 1⟩ ∨ k = ⟨"ETH", 1, 1⟩ := by
  obtain ⟨c, tm, v⟩ := k
  obtain ⟨rfl, source, hsource, hv⟩ := hk
  obtain ⟨r, hr, rfl⟩ := Option.map_eq_some_iff.mp hsource
  have hc := List.find?_some hr
  obtain rfl : r.1 = c := of_decide_eq_true hc
  have hmem := List.mem_of_find?_eq_some hr
  rw [readers_eq] at hmem
  simp only [List.mem_cons, List.not_mem_nil, or_false, or_self_left] at hmem
  rcases hmem with rfl | rfl
  · obtain rfl : (1 : ℕ) = v := Option.some.inj hv
    exact Or.inl rfl
  · obtain rfl : (1 : ℕ) = v := Option.some.inj hv
    exact Or.inr rfl

/-- Nothing is missing in any range that starts with the first hour. -/
theorem withoutHole {stop : String} {rangeEnd : ℤ} {k : Series}
    (hk : (request stop).ReadsSeries venues 1 k) : WithoutHole hourPeriod captured k 0 rangeEnd := by
  have hst (t : ℤ) : captured.Stored k t ↔ t = 0 ∨ t = 3600000000 ∨ t = 7200000000 := by
    rcases readsSeries hk with rfl | rfl
    · exact captured_stored (Or.inl rfl)
    · exact captured_stored (Or.inr rfl)
  constructor
  · intro t u hu htu h0 _ hdvd
    have hd : (3600000000 : ℤ) ∣ t := hdvd
    rw [hst] at hu ⊢
    omega
  · intro t ht _ _
    show (3600000000 : ℤ) ∣ t
    rw [hst] at ht
    omega

/-- Up to the last hour that has closed, both guards accept. -/
theorem closedBar_accepted :
    ∃ data, reads "2h" = .ok data ∧ enforceDateSync hours (request "2h") data = .ok () := by
  have hends : (request "2h").OneProduct ∨
      (hourPeriod.length ∣ hours.timestamp (request "2h").start ∧
        hourPeriod.length ∣ hours.timestamp (request "2h").stop ∧
        ∀ k, (request "2h").ReadsSeries venues 1 k →
          ∃ t, bybit.db.Stored k t ∧ hours.timestamp (request "2h").stop ≤ t) := by
    refine Or.inr ⟨by decide, by decide, fun k hk => ⟨7200000000, ?_, by decide⟩⟩
    rcases readsSeries hk with rfl | rfl
    · exact (captured_stored (Or.inl rfl)).mpr (by decide)
    · exact (captured_stored (Or.inr rfl)).mpr (by decide)
  obtain ⟨data, hdata⟩ : ∃ data, reads "2h" = .ok data := ⟨_, rfl⟩
  have hread := hdata
  unfold reads at hread
  exact ⟨data, hdata, (dateSync_iff (onExchanges "2h") hread fun k hk => withoutHole hk).mpr hends⟩

/-- **Up to the hour that is open, the reads are served and the run is refused.** -/
theorem openBar_refused : (request "3h").OnExchanges venues ∧
    ¬ ∀ data, reads "3h" = .ok data →
      (∀ k, (request "3h").ReadsSeries venues 1 k →
        WithoutHole hourPeriod captured k (hours.timestamp "0h") (hours.timestamp "3h")) →
      enforceDateSync hours (request "3h") data = .ok () := by
  refine ⟨onExchanges "3h", fun h => ?_⟩
  have hok := h _ rfl fun k hk => withoutHole hk
  obtain hle | hreach := enforceDateSync_eq_ok.mp hok
  · exact absurd hle (by decide)
  · obtain ⟨-, l, hl, hle⟩ := hreach _ List.mem_cons_self
    revert l
    decide

end DateSync
