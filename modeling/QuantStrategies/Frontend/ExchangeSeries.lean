import Mathlib.Data.List.Basic
import QuantStrategies.Lib.Separator
import QuantStrategies.MarketData.PriceBar
import QuantStrategies.Strategy.Sources

/-!
# The exchange series of a run, as the form predicts them

Before a run the form asks for the coverage of every exchange series that the run
will read. It works them out from the configuration itself (`exchangeSeriesKeys`).
What the server reads follows from the request that the configuration is sent as
(`buildOptimizeRequest`), product by product (`readDataDict`).

The two name a leg of the run by different fields: the form takes the symbol of the
product, trimmed, and of a factor the symbol before the vendor symbol; the server
takes the vendor symbol first, for both. And the server keeps its frames by product:
a product that is there already is not read again, whatever source the leg names.

A leg carries both readings (`Leg`), so that the loop of the server is a walk over the legs
with the products that are known so far, and `IsRead` says of that walk, without a loop,
which product is read from which source. The condition of the comparison (`SameLegs`) is
stated on the legs and on what the stores answer.
-/

namespace Frontend

open Pandas NpFloat Result

/-! ## The form -/

/-- A row of `REFDATA.APP`. -/
structure App where
  /-- The venue or provider, by its number. -/
  appId : ℕ
  /-- By its name. -/
  name : String
  /-- `Y` for a venue whose bars are captured. -/
  isExchangeInd : String
  /-- `Y` where data may be fetched again. -/
  refreshDatasetInd : String
deriving DecidableEq

/-- The configuration in the form, as far as it names what is read. -/
structure BacktestConfig where
  /-- The traded product. -/
  symbol : String
  /-- The same, in the vendor's words. -/
  vendorSymbol : String
  /-- The source of it. -/
  dataSource : String
  /-- The interval, once it is chosen. -/
  tmIntervalId : Option ℕ
  /-- The first date. -/
  start : String
  /-- The last date, the form's `end`. -/
  stop : String
  /-- How many bars a year has. -/
  tradingPeriod : ℤ
  /-- Whether the store is to be bypassed. -/
  refreshDataset : Bool
  /-- How the positions combine. -/
  conjunction : String
  /-- The factors. -/
  factors : List FactorConfig

/-- White space, as `trim` takes it off. -/
def isSpace (c : Char) : Bool :=
  c.toNat ∈ [0x9, 0xA, 0xB, 0xC, 0xD, 0x20, 0xA0, 0x1680, 0x2000, 0x2001, 0x2002, 0x2003, 0x2004,
    0x2005, 0x2006, 0x2007, 0x2008, 0x2009, 0x200A, 0x2028, 0x2029, 0x202F, 0x205F, 0x3000, 0xFEFF]

/-- `s.trim()`. -/
def trim (s : String) : String :=
  String.ofList ((s.toList.dropWhile isSpace).rdropWhile isSpace)

/-- `s || undefined`. -/
def orUndefined (s : Option String) : Option String := s.filter (· ≠ "")

/-- `apps.find(a => a.name === sourceName)`: the first row of the name. -/
def findApp (apps : List App) (sourceName : String) : Option App :=
  apps.find? (fun a => a.name = sourceName)

/-- `add`: the key of a leg on an exchange. -/
def addKey (apps : List App) (tmIntervalId : ℕ) (cusip : Option String) (sourceName : String) :
    List Series :=
  match cusip with
  | none => []
  | some cusip =>
    match findApp apps sourceName with
    | some app => if app.isExchangeInd = "Y" then [⟨cusip, tmIntervalId, app.appId⟩] else []
    | none => []

/-- `seriesKeyId`. -/
def seriesKeyId (key : Series) : List Char :=
  key.internalCusip.toList ++ '|' :: (Nat.toDigits 10 key.tmIntervalId ++
    '|' :: Nat.toDigits 10 key.sourceAppId)

/-- The keys whose id was not seen before. -/
def dropSeen (seen : List (List Char)) : List Series → List Series
  | [] => []
  | k :: keys =>
    if seriesKeyId k ∈ seen then dropSeen seen keys
    else k :: dropSeen (seriesKeyId k :: seen) keys

/-- `exchangeSeriesKeys`. -/
def exchangeSeriesKeys (config : BacktestConfig) (apps : List App) : List Series :=
  match config.tmIntervalId with
  | none => []
  | some tmIntervalId => dropSeen [] <|
      addKey apps tmIntervalId (orUndefined (some (trim config.symbol))) config.dataSource ++
      config.factors.flatMap (fun f => addKey apps tmIntervalId
        (orUndefined (textOr f.symbol f.vendorSymbol))
        ((textOr f.dataSource (some config.dataSource)).getD config.dataSource))

/-! ## The request -/

/-- `effectiveSymbol`. -/
def effectiveSymbol (config : BacktestConfig) : String :=
  if config.vendorSymbol ≠ "" then config.vendorSymbol else config.symbol

/-- `buildOptimizeRequest`, and the schema it is checked against: an interval, a source
and a factor are required. -/
def buildOptimizeRequest (config : BacktestConfig) : Option (BacktestRequest × ℕ) :=
  match config.tmIntervalId with
  | none => none
  | some tmIntervalId =>
    if hsource : config.dataSource ≠ "" then
      if hfactors : config.factors ≠ [] then
        some ({ symbol := effectiveSymbol config, start := config.start, stop := config.stop,
                tradingPeriod := config.tradingPeriod, dataSource := config.dataSource,
                refreshDataset := config.refreshDataset, factors := config.factors,
                conjunction :=
                  if 1 < config.factors.length then some config.conjunction else none,
                namesSource := hsource, hasFactor := hfactors }, tmIntervalId)
      else none
    else none

/-! ## The server -/

section Server

variable {L F : Type}

/-- What reading a series answers, from the bars of an exchange and from a provider. -/
structure Stores (L F : Type) where
  /-- What a series of an exchange answers. -/
  exchange : Series → Except EvaluationError (Frame L F)
  /-- What a provider answers. -/
  provider : Fetch L F

variable (apps : List App) (stores : Stores L F) (tmIntervalId : ℕ)

/-- `app_rows.get(data_source)`: the last row of the name. -/
def getApp (dataSource : String) : Option App :=
  apps.reverse.find? (fun a => a.name = dataSource)

/-- `fetch_df`, with the exchange series that it attempts to read. -/
def fetchDf (symbol dataSource : String) (refresh : Bool) :
    Except EvaluationError (Frame L F) × List Series :=
  match getApp apps dataSource with
  | none =>
    (.error (.python (.valueError
      s!"Unknown data source: {Python.repr dataSource}. Check REFDATA.APP.")), [])
  | some app =>
    if app.isExchangeInd = "Y" then
      let key : Series := ⟨symbol, tmIntervalId, app.appId⟩
      (stores.exchange key, [key])
    else (stores.provider symbol dataSource refresh, [])

/-- The rows that `_app_allows_refresh` looks at. -/
def refreshRows : List AppRow :=
  apps.map (fun a => ⟨a.name, a.refreshDatasetInd⟩)

/-- `_fetch`, with what it attempts to read. -/
def readFor (req : BacktestRequest) (symbol dataSource : String) :
    Except EvaluationError (Frame L F) × List Series :=
  (fetchFor (fun s d r => (fetchDf apps stores tmIntervalId s d r).1) (refreshRows apps) req symbol
      dataSource,
    (fetchDf apps stores tmIntervalId symbol dataSource
      (req.refreshDataset && appAllowsRefresh (refreshRows apps) dataSource)).2)

/-- The loop over the factors, with what it attempts to read. A read that fails ends
it. -/
def readFactors (req : BacktestRequest) : List FactorConfig → DataDict L F →
    Except EvaluationError (DataDict L F) × List Series
  | [], data => (.ok data, [])
  | f :: factors, data =>
    match f.cusip with
    | none => readFactors req factors data
    | some cusip =>
      if cusip ≠ "" ∧ data.lookup cusip = none then
        let read := readFor apps stores tmIntervalId req cusip (f.source req)
        match read.1 with
        | .error e => (.error e, read.2)
        | .ok frame =>
          let rest := readFactors req factors (data ++ [(cusip, frame)])
          (rest.1, read.2 ++ rest.2)
      else readFactors req factors data

variable [LinearOrder L]

/-- `_build_data_dict`, with the exchange series that it attempts to read. -/
def readDataDict (dates : Dates L) (req : BacktestRequest) :
    Except EvaluationError (DataDict L F) × List Series :=
  let main := readFor apps stores tmIntervalId req req.symbol req.dataSource
  match main.1 with
  | .error e => (.error e, main.2)
  | .ok frame =>
    let data := readFactors apps stores tmIntervalId req req.factors [(req.symbol, frame)]
    (data.1.bind (fun data => (enforceDateSync dates req data).map (fun _ => data)),
      main.2 ++ data.2)

/-- The exchange series that the server attempts to read for a configuration. -/
def attemptedReads (dates : Dates L) (config : BacktestConfig) : List Series :=
  match buildOptimizeRequest config with
  | none => []
  | some (req, tmIntervalId) => (readDataDict apps stores tmIntervalId dates req).2

end Server

/-! ## The legs of a run -/

/-- A leg of a run: the product that the form takes it for, the product that the
server reads for it, and its source. -/
structure Leg where
  /-- The product that the form takes it for. -/
  asked : Option String
  /-- The product that the server reads for it. -/
  read : Option String
  /-- Its source. -/
  source : String
deriving DecidableEq

/-- The traded leg. -/
def tradedLeg (config : BacktestConfig) : Leg :=
  ⟨orUndefined (some (trim config.symbol)), some (effectiveSymbol config), config.dataSource⟩

/-- The leg of a factor, which inherits the source where it names none. -/
def factorLeg (dataSource : String) (f : FactorConfig) : Leg :=
  ⟨orUndefined (textOr f.symbol f.vendorSymbol), f.cusip,
    (textOr f.dataSource (some dataSource)).getD dataSource⟩

/-- The legs of a run. -/
def BacktestConfig.legs (config : BacktestConfig) : List Leg :=
  tradedLeg config :: config.factors.map (factorLeg config.dataSource)

/-- The exchange that the form takes a source for. -/
def formVenue (apps : List App) (sourceName : String) : Option ℕ :=
  ((findApp apps sourceName).filter (fun a => a.isExchangeInd = "Y")).map App.appId

/-- The exchange that the server takes a source for. -/
def serverVenue (apps : List App) (dataSource : String) : Option ℕ :=
  ((getApp apps dataSource).filter (fun a => a.isExchangeInd = "Y")).map App.appId

/-! ## What the form asks for -/

variable {apps : List App} {config : BacktestConfig} {tmIntervalId : ℕ} {k : Series}

/-- The form adds a series for a leg that has a product and is on an exchange. -/
theorem mem_addKey {cusip : Option String} {sourceName : String} :
    k ∈ addKey apps tmIntervalId cusip sourceName ↔
      ∃ c v, cusip = some c ∧ formVenue apps sourceName = some v ∧ k = ⟨c, tmIntervalId, v⟩ := by
  unfold addKey formVenue
  cases cusip with
  | none => simp
  | some c =>
    cases findApp apps sourceName with
    | none => simp
    | some app =>
      by_cases happ : app.isExchangeInd = "Y"
      · simp [happ]
      · simp [happ]

/-- Keys with one id are one key. -/
theorem seriesKeyId_injective : Function.Injective seriesKeyId := by
  rintro ⟨c, tm, app⟩ ⟨c', tm', app'⟩ h
  have hdigits (n : ℕ) : '|' ∉ Nat.toDigits 10 n := fun hmem =>
    absurd (Nat.isDigit_of_mem_toDigits (by decide) (by decide) hmem) (by decide)
  unfold seriesKeyId at h
  rw [← List.cons_append, ← List.append_assoc, ← List.cons_append, ← List.append_assoc] at h
  obtain ⟨hrest, happ⟩ := Separator.last_inj (hdigits _) (hdigits _) h
  obtain ⟨hc, htm⟩ := Separator.last_inj (hdigits _) (hdigits _) hrest
  exact Series.mk.injEq .. ▸ ⟨String.toList_inj.mp hc, Python.toDigits_inj htm,
    Python.toDigits_inj happ⟩

/-- Every key is kept or was seen. -/
theorem mem_dropSeen (seen : List (List Char)) (keys : List Series) :
    k ∈ dropSeen seen keys ↔ k ∈ keys ∧ seriesKeyId k ∉ seen := by
  induction keys generalizing seen with
  | nil => simp [dropSeen]
  | cons key keys ih =>
    rw [dropSeen]
    by_cases hseen : seriesKeyId key ∈ seen
    · rw [if_pos hseen, ih, List.mem_cons]
      refine and_congr_left fun hk => ⟨Or.inr, fun h => h.resolve_left ?_⟩
      rintro rfl
      exact hk hseen
    · rw [if_neg hseen, List.mem_cons, List.mem_cons, ih, List.mem_cons]
      by_cases hkey : k = key
      · subst hkey
        exact iff_of_true (Or.inl rfl) ⟨Or.inl rfl, hseen⟩
      · have hid : seriesKeyId k ≠ seriesKeyId key := fun h => hkey (seriesKeyId_injective h)
        simp [hkey, hid]

/-- **What the form asks for**: the product of every leg that it takes for one of an
exchange. -/
theorem mem_exchangeSeriesKeys (htm : config.tmIntervalId = some tmIntervalId) :
    k ∈ exchangeSeriesKeys config apps ↔ ∃ leg ∈ config.legs, ∃ c v, leg.asked = some c ∧
      formVenue apps leg.source = some v ∧ k = ⟨c, tmIntervalId, v⟩ := by
  unfold exchangeSeriesKeys
  rw [htm]
  dsimp only
  rw [mem_dropSeen, and_iff_left List.not_mem_nil, List.mem_append, mem_addKey,
    List.mem_flatMap]
  simp only [mem_addKey, BacktestConfig.legs, List.exists_mem_cons_iff, List.mem_map,
    exists_exists_and_eq_and]
  rfl

/-! ## What the server reads -/

/-- The source that a product is read from: that of the first leg that names it. -/
def sourceOf (legs : List Leg) (c : String) : Option String :=
  (legs.find? (fun l => l.read = some c)).map Leg.source

/-- A product is read from a source: it is not there yet, the first leg that names it
has the source, and every product that is read before it is answered. -/
structure IsRead (answers : String → String → Prop) (legs : List Leg) (known : List String)
    (c s : String) : Prop where
  /-- It is not there yet. -/
  missing : c ∉ known
  /-- The first leg that names it has that source. -/
  source : sourceOf legs c = some s
  /-- What is read before it is answered. -/
  before : ∀ c' s', c' ∉ known →
    sourceOf (legs.takeWhile (fun l => l.read ≠ some c)) c' = some s' → answers c' s'

section Legs

variable {answers : String → String → Prop} {legs : List Leg} {known : List String} {leg : Leg}
variable {c c₀ s s' : String}

/-- A leg of another product does not change what a product is read from. -/
theorem sourceOf_cons_of_ne (h : leg.read ≠ some c) : sourceOf (leg :: legs) c = sourceOf legs c :=
  congrArg (Option.map Leg.source) (List.find?_cons_of_neg (by simpa using h))

/-- The first leg that names it does. -/
theorem sourceOf_cons_self (h : leg.read = some c) : sourceOf (leg :: legs) c = some leg.source :=
  congrArg (Option.map Leg.source) (List.find?_cons_of_pos (by simpa using h))

/-- It is the source of a leg that names the product. -/
theorem exists_of_sourceOf (h : sourceOf legs c = some s) :
    ∃ leg ∈ legs, leg.read = some c ∧ leg.source = s := by
  obtain ⟨leg, hfind, hs⟩ := Option.map_eq_some_iff.mp h
  have hread := List.find?_some hfind
  exact ⟨leg, List.mem_of_find?_eq_some hfind, of_decide_eq_true hread, hs⟩

/-- Nothing is read for a leg without a product, or with one that is there. -/
theorem isRead_cons_of_known (h : ∀ c, leg.read = some c → c ∈ known) :
    IsRead answers (leg :: legs) known c s ↔ IsRead answers legs known c s := by
  have hne {c : String} (hc : c ∉ known) : leg.read ≠ some c := fun hread => hc (h c hread)
  refine ⟨fun hr => ⟨hr.missing, ?_, fun c' s' hc' hs' => hr.before c' s' hc' ?_⟩,
    fun hr => ⟨hr.missing, ?_, fun c' s' hc' hs' => hr.before c' s' hc' ?_⟩⟩
  · exact sourceOf_cons_of_ne (hne hr.missing) ▸ hr.source
  · rw [List.takeWhile_cons_of_pos (by simpa using hne hr.missing), sourceOf_cons_of_ne (hne hc')]
    exact hs'
  · exact (sourceOf_cons_of_ne (hne hr.missing)).trans hr.source
  · rw [List.takeWhile_cons_of_pos (by simpa using hne hr.missing),
      sourceOf_cons_of_ne (hne hc')] at hs'
    exact hs'

/-- A leg with a product that is not there yet is read. Where the read fails, it is the
last one. -/
theorem isRead_cons_of_new (hleg : leg.read = some c₀) (hnew : c₀ ∉ known) :
    IsRead answers (leg :: legs) known c s ↔ (c = c₀ ∧ s = leg.source) ∨
      (answers c₀ leg.source ∧ IsRead answers legs (known ++ [c₀]) c s) := by
  have hne {c : String} (hc : c ≠ c₀) : leg.read ≠ some c := fun hread =>
    hc (Option.some.inj (hread.symm.trans hleg))
  constructor
  · intro hr
    by_cases hc : c = c₀
    · subst hc
      exact Or.inl ⟨rfl, Option.some.inj (hr.source.symm.trans (sourceOf_cons_self hleg))⟩
    · have hwhile : (leg :: legs).takeWhile (fun l => l.read ≠ some c) =
          leg :: legs.takeWhile (fun l => l.read ≠ some c) :=
        List.takeWhile_cons_of_pos (by simpa using hne hc)
      refine Or.inr ⟨hr.before c₀ leg.source hnew (hwhile ▸ sourceOf_cons_self hleg), ?_, ?_, ?_⟩
      · simpa using ⟨hr.missing, hc⟩
      · exact sourceOf_cons_of_ne (hne hc) ▸ hr.source
      · intro c' s' hc' hs'
        rw [List.mem_append, List.mem_singleton, not_or] at hc'
        exact hr.before c' s' hc'.1 (hwhile ▸ (sourceOf_cons_of_ne (hne hc'.2)).trans hs')
  · rintro (⟨rfl, rfl⟩ | ⟨hanswer, hr⟩)
    · refine ⟨hnew, sourceOf_cons_self hleg, fun c' s' _ hs' => ?_⟩
      rw [List.takeWhile_cons_of_neg (by simpa using hleg)] at hs'
      cases hs'
    · have hmissing := hr.missing
      rw [List.mem_append, List.mem_singleton, not_or] at hmissing
      have hc := hne hmissing.2
      refine ⟨hmissing.1, (sourceOf_cons_of_ne hc).trans hr.source, fun c' s' hc' hs' => ?_⟩
      rw [List.takeWhile_cons_of_pos (by simpa using hc)] at hs'
      by_cases hc₀ : c' = c₀
      · subst hc₀
        exact Option.some.inj ((sourceOf_cons_self hleg).symm.trans hs') ▸ hanswer
      · exact hr.before c' s' (by simpa using ⟨hc', hc₀⟩) (sourceOf_cons_of_ne (hne hc₀) ▸ hs')

end Legs

variable {L F : Type} {stores : Stores L F} {req : BacktestRequest}

/-- A read asks an exchange for one series, when the source is one. -/
theorem mem_readFor {c s : String} : k ∈ (readFor apps stores tmIntervalId req c s).2 ↔
    ∃ v, serverVenue apps s = some v ∧ k = ⟨c, tmIntervalId, v⟩ := by
  unfold readFor fetchDf serverVenue
  dsimp only
  cases getApp apps s with
  | none => simp
  | some app =>
    by_cases happ : app.isExchangeInd = "Y"
    · simp [happ]
    · simp [happ]

/-- The stores answer for a product and a source. -/
def Answers (apps : List App) (stores : Stores L F) (tmIntervalId : ℕ) (req : BacktestRequest)
    (c s : String) : Prop :=
  ∃ frame, (readFor apps stores tmIntervalId req c s).1 = .ok frame

/-- **The loop over the factors** reads a product for the first leg that names it, up to
the first read that fails. -/
theorem mem_readFactors (factors : List FactorConfig) (data : DataDict L F) :
    k ∈ (readFactors apps stores tmIntervalId req factors data).2 ↔ ∃ c s v,
      IsRead (Answers apps stores tmIntervalId req) (factors.map (factorLeg req.dataSource))
        (data.map Prod.fst) c s ∧ serverVenue apps s = some v ∧ k = ⟨c, tmIntervalId, v⟩ := by
  induction factors generalizing data with
  | nil =>
    refine iff_of_false List.not_mem_nil ?_
    rintro ⟨c, s, v, hr, -⟩
    cases hr.source
  | cons f factors ih =>
    have hlookup (c : String) : data.lookup c = none ↔ c ∉ data.map Prod.fst := by
      refine List.lookup_eq_none_iff.trans ⟨fun h hc => ?_, fun h p hp => ?_⟩
      · obtain ⟨p, hp, rfl⟩ := List.mem_map.mp hc
        simpa using h p hp
      · exact bne_iff_ne.mpr fun hcp => h (hcp ▸ List.mem_map_of_mem hp)
    rw [readFactors, List.map_cons]
    cases hcusip : f.cusip with
    | none =>
      have hskip (c : String) (h : (factorLeg req.dataSource f).read = some c) :
          c ∈ data.map Prod.fst := by cases hcusip.symm.trans h
      simp only [isRead_cons_of_known hskip]
      exact ih data
    | some cusip =>
      dsimp only
      have hread : (factorLeg req.dataSource f).read = some cusip := hcusip
      have hproduct : cusip ≠ "" ∧ f.product req = cusip :=
        FactorConfig.product_of_cusip_some req hcusip
      by_cases hnew : cusip ≠ "" ∧ data.lookup cusip = none
      · have hmissing := (hlookup cusip).mp hnew.2
        rw [if_pos hnew]
        simp only [isRead_cons_of_new hread hmissing]
        cases hres : (readFor apps stores tmIntervalId req cusip (f.source req)).1 with
        | error e =>
          have hno : ¬ Answers apps stores tmIntervalId req cusip
              (factorLeg req.dataSource f).source := by
            rintro ⟨frame, hframe⟩
            cases hres.symm.trans hframe
          simp only [hno, false_and, or_false]
          rw [mem_readFor]
          constructor
          · rintro ⟨v, hv, hk⟩
            exact ⟨_, _, v, ⟨rfl, rfl⟩, hv, hk⟩
          · rintro ⟨_, _, v, ⟨rfl, rfl⟩, hv, hk⟩
            exact ⟨v, hv, hk⟩
        | ok frame =>
          have hyes : Answers apps stores tmIntervalId req cusip
              (factorLeg req.dataSource f).source := ⟨frame, hres⟩
          simp only [hyes, true_and]
          rw [List.mem_append, mem_readFor, ih, List.map_append]
          constructor
          · rintro (⟨v, hv, hk⟩ | ⟨c, s, v, hr, hv, hk⟩)
            · exact ⟨_, _, v, Or.inl ⟨rfl, rfl⟩, hv, hk⟩
            · exact ⟨c, s, v, Or.inr hr, hv, hk⟩
          · rintro ⟨c, s, v, ⟨rfl, rfl⟩ | hr, hv, hk⟩
            · exact Or.inl ⟨v, hv, hk⟩
            · exact Or.inr ⟨c, s, v, hr, hv, hk⟩
      · have hskip (c : String) (h : (factorLeg req.dataSource f).read = some c) :
            c ∈ data.map Prod.fst := by
          cases hread.symm.trans h
          exact not_not.mp fun hc => hnew ⟨hproduct.1, (hlookup cusip).mpr hc⟩
        rw [if_neg hnew]
        simp only [isRead_cons_of_known hskip]
        exact ih data

/-- The loop makes the frames that the loop of the backtest makes. -/
theorem readFactors_fst (factors : List FactorConfig) (data : DataDict L F) :
    (readFactors apps stores tmIntervalId req factors data).1 =
      factors.foldlM (addFactor (fun s d r => (fetchDf apps stores tmIntervalId s d r).1)
        (refreshRows apps) req) data := by
  induction factors generalizing data with
  | nil => rfl
  | cons f factors ih =>
    rw [readFactors, List.foldlM_cons, addFactor]
    cases f.cusip with
    | none => exact ih data
    | some cusip =>
      dsimp only
      by_cases hnew : cusip ≠ "" ∧ data.lookup cusip = none
      · rw [if_pos hnew, if_pos hnew]
        change _ = ((readFor apps stores tmIntervalId req cusip (f.source req)).1.bind _).bind _
        cases (readFor apps stores tmIntervalId req cusip (f.source req)).1 with
        | error e => rfl
        | ok frame => exact ih _
      · rw [if_neg hnew, if_neg hnew]
        exact ih data

variable [LinearOrder L] {dates : Dates L}

/-- What is built is what the backtest builds. -/
theorem readDataDict_fst : (readDataDict apps stores tmIntervalId dates req).1 =
    buildDataDict dates (fun s d r => (fetchDf apps stores tmIntervalId s d r).1)
      (refreshRows apps) req := by
  unfold readDataDict buildDataDict
  dsimp only
  change _ = (readFor apps stores tmIntervalId req req.symbol req.dataSource).1.bind _
  cases (readFor apps stores tmIntervalId req req.symbol req.dataSource).1 with
  | error e => rfl
  | ok frame =>
    dsimp only
    rw [readFactors_fst]
    rfl

/-- What an accepted request has of the configuration. -/
theorem buildOptimizeRequest_eq_some
    (hreq : buildOptimizeRequest config = some (req, tmIntervalId)) :
    config.tmIntervalId = some tmIntervalId ∧ req.symbol = effectiveSymbol config ∧
      req.dataSource = config.dataSource ∧ req.factors = config.factors := by
  unfold buildOptimizeRequest at hreq
  split at hreq
  · cases hreq
  · next htm =>
    split at hreq
    · split at hreq
      · cases hreq
        exact ⟨htm, rfl, rfl, rfl⟩
      · cases hreq
    · cases hreq

/-- **What the server reads**: every product once, for the first leg that names it, up
to the first read that fails. -/
theorem mem_attemptedReads (hreq : buildOptimizeRequest config = some (req, tmIntervalId)) :
    k ∈ attemptedReads apps stores dates config ↔ ∃ c s v,
      IsRead (Answers apps stores tmIntervalId req) config.legs [] c s ∧
        serverVenue apps s = some v ∧ k = ⟨c, tmIntervalId, v⟩ := by
  obtain ⟨-, hsymbol, hsource, hfactors⟩ := buildOptimizeRequest_eq_some hreq
  unfold attemptedReads
  rw [hreq]
  dsimp only
  have htraded : (tradedLeg config).read = some req.symbol := congrArg some hsymbol.symm
  have hsrc : (tradedLeg config).source = req.dataSource := hsource.symm
  rw [readDataDict, BacktestConfig.legs]
  simp only [isRead_cons_of_new htraded List.not_mem_nil, hsrc]
  cases hres : (readFor apps stores tmIntervalId req req.symbol req.dataSource).1 with
  | error e =>
    have hno : ¬ Answers apps stores tmIntervalId req req.symbol req.dataSource := by
      rintro ⟨frame, hframe⟩
      cases hres.symm.trans hframe
    simp only [hno, false_and, or_false]
    rw [mem_readFor]
    constructor
    · rintro ⟨v, hv, hk⟩
      exact ⟨_, _, v, ⟨rfl, rfl⟩, hv, hk⟩
    · rintro ⟨_, _, v, ⟨rfl, rfl⟩, hv, hk⟩
      exact ⟨v, hv, hk⟩
  | ok frame =>
    have hyes : Answers apps stores tmIntervalId req req.symbol req.dataSource := ⟨frame, hres⟩
    simp only [hyes, true_and]
    rw [List.mem_append, mem_readFor, mem_readFactors, hfactors, hsource]
    constructor
    · rintro (⟨v, hv, hk⟩ | ⟨c, s, v, hr, hv, hk⟩)
      · exact ⟨_, _, v, Or.inl ⟨rfl, rfl⟩, hv, hk⟩
      · exact ⟨c, s, v, Or.inr hr, hv, hk⟩
    · rintro ⟨c, s, v, ⟨rfl, rfl⟩ | hr, hv, hk⟩
      · exact Or.inl ⟨v, hv, hk⟩
      · exact Or.inr ⟨c, s, v, hr, hv, hk⟩

/-! ## Where they agree -/

/-- The form asks for the exchange series that the server attempts to read. -/
def Predicted (apps : List App) (stores : Stores L F) (dates : Dates L)
    (config : BacktestConfig) : Prop :=
  ∀ k, k ∈ exchangeSeriesKeys config apps ↔ k ∈ attemptedReads apps stores dates config

/-- The products that the form takes the legs for are read on the exchanges that it
takes them for, and the products that are read on an exchange are those of a leg. -/
structure SameLegs (apps : List App) (answers : String → String → Prop)
    (config : BacktestConfig) : Prop where
  /-- What the form takes a leg for is read there. -/
  asked : ∀ leg ∈ config.legs, ∀ c v, leg.asked = some c → formVenue apps leg.source = some v →
    ∃ s, IsRead answers config.legs [] c s ∧ serverVenue apps s = some v
  /-- What is read on an exchange is a leg that the form takes for it. -/
  read : ∀ c s v, IsRead answers config.legs [] c s → serverVenue apps s = some v →
    ∃ leg ∈ config.legs, leg.asked = some c ∧ formVenue apps leg.source = some v

/-- Of a request that is refused nothing is read. -/
theorem predicted_iff_of_refused {apps : List App} {stores : Stores L F} {dates : Dates L}
    {config : BacktestConfig} {tmIntervalId : ℕ} (htm : config.tmIntervalId = some tmIntervalId)
    (hreq : buildOptimizeRequest config = none) : Predicted apps stores dates config ↔
      ∀ leg ∈ config.legs, leg.asked = none ∨ formVenue apps leg.source = none := by
  have hreads (k : Series) : k ∉ attemptedReads apps stores dates config := by
    rw [attemptedReads, hreq]
    exact List.not_mem_nil
  constructor
  · intro h leg hleg
    cases hasked : leg.asked with
    | none => exact Or.inl rfl
    | some c =>
      cases hvenue : formVenue apps leg.source with
      | none => exact Or.inr rfl
      | some v =>
        exact absurd ((h _).mp ((mem_exchangeSeriesKeys htm).mpr
          ⟨leg, hleg, c, v, hasked, hvenue, rfl⟩)) (hreads _)
  · intro h k
    refine iff_of_false (fun hk => ?_) (hreads k)
    obtain ⟨leg, hleg, c, v, hasked, hvenue, -⟩ := (mem_exchangeSeriesKeys htm).mp hk
    obtain hno | hno := h leg hleg
    · cases hno.symm.trans hasked
    · cases hno.symm.trans hvenue

/-- Of a request that is accepted the legs decide. -/
theorem predicted_iff_of_accepted {apps : List App} {stores : Stores L F} {dates : Dates L}
    {config : BacktestConfig} {req : BacktestRequest} {tmIntervalId : ℕ}
    (hreq : buildOptimizeRequest config = some (req, tmIntervalId)) :
    Predicted apps stores dates config ↔
      SameLegs apps (Answers apps stores tmIntervalId req) config := by
  have htm := (buildOptimizeRequest_eq_some hreq).1
  constructor
  · refine fun h => ⟨?_, ?_⟩
    · intro leg hleg c v hasked hvenue
      obtain ⟨c', s, v', hr, hv, hk⟩ := (mem_attemptedReads hreq).mp ((h _).mp
        ((mem_exchangeSeriesKeys htm).mpr ⟨leg, hleg, c, v, hasked, hvenue, rfl⟩))
      cases hk
      exact ⟨s, hr, hv⟩
    · intro c s v hr hv
      obtain ⟨leg, hleg, c', v', hasked, hvenue, hk⟩ := (mem_exchangeSeriesKeys htm).mp
        ((h _).mpr ((mem_attemptedReads hreq).mpr ⟨c, s, v, hr, hv, rfl⟩))
      cases hk
      exact ⟨leg, hleg, hasked, hvenue⟩
  · intro hsame k
    rw [mem_exchangeSeriesKeys htm, mem_attemptedReads hreq]
    constructor
    · rintro ⟨leg, hleg, c, v, hasked, hvenue, rfl⟩
      obtain ⟨s, hr, hv⟩ := hsame.asked leg hleg c v hasked hvenue
      exact ⟨c, s, v, hr, hv, rfl⟩
    · rintro ⟨c, s, v, hr, hv, rfl⟩
      obtain ⟨leg, hleg, hasked, hvenue⟩ := hsame.read c s v hr hv
      exact ⟨leg, hleg, c, v, hasked, hvenue, rfl⟩

/-- **The form predicts the reads exactly when** the interval is not chosen; or the
request is refused and no leg is one of an exchange; or the legs are read as the form
takes them. -/
theorem predicted_iff (apps : List App) (stores : Stores L F) (dates : Dates L)
    (config : BacktestConfig) : Predicted apps stores dates config ↔
      config.tmIntervalId = none ∨
      (buildOptimizeRequest config = none ∧
        ∀ leg ∈ config.legs, leg.asked = none ∨ formVenue apps leg.source = none) ∨
      ∃ req tmIntervalId, buildOptimizeRequest config = some (req, tmIntervalId) ∧
        SameLegs apps (Answers apps stores tmIntervalId req) config := by
  cases htm : config.tmIntervalId with
  | none =>
    refine iff_of_true (fun k => ?_) (Or.inl rfl)
    rw [exchangeSeriesKeys, attemptedReads, buildOptimizeRequest, htm]
  | some tmIntervalId =>
    cases hreq : buildOptimizeRequest config with
    | none =>
      rw [predicted_iff_of_refused htm hreq]
      simp only [reduceCtorEq, false_and, exists_false, or_false, true_and, false_or]
    | some answer =>
      obtain ⟨req, tmIntervalId'⟩ := answer
      rw [predicted_iff_of_accepted hreq]
      simp only [reduceCtorEq, false_and, false_or, Option.some.injEq, Prod.mk.injEq]
      constructor
      · exact fun h => ⟨req, tmIntervalId', ⟨rfl, rfl⟩, h⟩
      · rintro ⟨_, _, ⟨rfl, rfl⟩, hsame⟩
        exact hsame

/-- With names that are unique the first row of a name is the last one. -/
theorem formVenue_eq_serverVenue (hnames : (apps.map App.name).Nodup) (source : String) :
    formVenue apps source = serverVenue apps source := by
  have hget : findApp apps source = getApp apps source := by
    unfold findApp getApp
    cases hfind : apps.find? (fun a => a.name = source) with
    | none =>
      rw [List.find?_eq_none] at hfind
      exact (List.find?_eq_none.mpr fun a ha => hfind a (List.mem_reverse.mp ha)).symm
    | some app =>
      cases hlast : apps.reverse.find? (fun a => a.name = source) with
      | none =>
        exact absurd (List.find?_some hfind) (List.find?_eq_none.mp hlast app
          (List.mem_reverse.mpr (List.mem_of_find?_eq_some hfind)))
      | some app' =>
        refine congrArg some (List.inj_on_of_nodup_map hnames (List.mem_of_find?_eq_some hfind)
          (List.mem_reverse.mp (List.mem_of_find?_eq_some hlast)) ?_)
        have hname := List.find?_some hfind
        have hname' := List.find?_some hlast
        exact (of_decide_eq_true hname).trans (of_decide_eq_true hname').symm
  rw [formVenue, serverVenue, hget]

/-- Legs that both name alike, with one source for each product, are read as the form
takes them when every read is answered. -/
theorem SameLegs.of_alike {answers : String → String → Prop}
    (hnames : (apps.map App.name).Nodup) (halike : ∀ leg ∈ config.legs, leg.asked = leg.read)
    (hsource : ∀ leg ∈ config.legs, ∀ leg' ∈ config.legs, leg.read ≠ none →
      leg.read = leg'.read → leg.source = leg'.source)
    (hanswers : ∀ c s, answers c s) : SameLegs apps answers config := by
  refine ⟨fun leg hleg c v hasked hvenue => ⟨leg.source, ⟨List.not_mem_nil, ?_,
    fun c' s' _ _ => hanswers c' s'⟩, formVenue_eq_serverVenue hnames _ ▸ hvenue⟩, ?_⟩
  · have hread := (halike leg hleg).symm.trans hasked
    cases hfirst : sourceOf config.legs c with
    | none =>
      exact absurd (decide_eq_true hread)
        (List.find?_eq_none.mp (Option.map_eq_none_iff.mp hfirst) leg hleg)
    | some s =>
      obtain ⟨leg', hleg', hread', rfl⟩ := exists_of_sourceOf hfirst
      exact congrArg some (hsource leg' hleg' leg hleg
        (by rw [hread']; exact Option.some_ne_none c) (hread'.trans hread.symm))
  · intro c s v hr hv
    obtain ⟨leg, hleg, hread, rfl⟩ := exists_of_sourceOf hr.source
    exact ⟨leg, hleg, (halike leg hleg).trans hread,
      (formVenue_eq_serverVenue hnames _).trans hv⟩

namespace Predicted

/-- A provider and an exchange. -/
def yahooAndBybit : List App := [⟨1, "yahoo", "N", "Y"⟩, ⟨34, "bybit", "Y", "N"⟩]

/-- A run that trades on the provider's prices, by an average of the same product's
prices on the exchange. -/
def onYahoo : BacktestConfig where
  symbol := "btcusdt.crypto"
  vendorSymbol := ""
  dataSource := "yahoo"
  tmIntervalId := some 1
  start := "2026-01-01"
  stop := "2026-01-02"
  tradingPeriod := 365
  refreshDataset := false
  conjunction := "AND"
  factors := [Sources.average (some "btcusdt.crypto") "bybit"]

/-- Stores that have everything. -/
def fullStores : Stores ℕ ExtRat where
  exchange _ := .ok ⟨[1, 2], [("price", ⟨[.fin 35, .fin 35], rfl⟩)]⟩
  provider := Sources.store

/-- The form asks for the series of the exchange, which the run does not read: the
product is there, from the provider. -/
theorem not_secondSource : ¬ Predicted yahooAndBybit fullStores Sources.dates onYahoo := by
  intro h
  have hasked : exchangeSeriesKeys onYahoo yahooAndBybit = [⟨"btcusdt.crypto", 1, 34⟩] := by
    decide +kernel
  have hread : attemptedReads yahooAndBybit fullStores Sources.dates onYahoo = [] := by decide +kernel
  have hmem := (h ⟨"btcusdt.crypto", 1, 34⟩).mp (hasked ▸ List.mem_singleton_self _)
  rw [hread] at hmem
  exact List.not_mem_nil hmem

end Predicted

end Frontend
