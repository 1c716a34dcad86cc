import Mathlib.Data.List.Sort
import QuantStrategies.Database.ProductXref
import QuantStrategies.Lib.FirstWins
import QuantStrategies.Lib.Python

/-!
# Symbols of a provider

A provider knows an asset by a symbol of its own. Before its series are fetched, a product
without one is given one where the venues that list the product agree on its base, and the
provider lists that base. Bases and assets are compared without their case, by dictionaries
whose first entries stay.

So the order of the venues does not matter: they agree or they do not, and what they agree
on is one folded name. Only the spelling that a refusal quotes is that of the first. The
order of the provider's assets does matter, where two of them differ in nothing but their
case.

The pass reads a cache of the tables and writes the tables. What it writes is kept apart
from what is there by an index, so that a mapping the cache does not have yet is met, and
not changed. How texts are folded is a parameter.

A pass is a loop over products, each of which is decided on its own, and a decision depends
on the set of the listings and not on their order. What the pass writes it writes one
product at a time, so a pass that is broken off has written some of what it would have
written and nothing else.
-/

open Database FirstWins

namespace ProviderFill

/-! ## The decision -/

/-- `NOT_A_LISTED_ASSET`. -/
def notAListedAsset : String := "not a listed asset"

/-- `NO_VENUE_BASE`. -/
def noVenueBase : String := "no venue market base"

/-- `BASES_DISAGREE`. -/
def basesDisagree : String := "venue market bases disagree"

/-- `MARKETS_UNAVAILABLE`. -/
def marketsUnavailable : String := "venue markets unavailable"

/-- `ASSET_LIST_UNAVAILABLE`. -/
def assetListUnavailable : String := "provider asset list unavailable"

/-- `ExchangeListing`: one ccxt xref, after that venue's market table has been asked. -/
structure ExchangeListing where
  /-- What the venue calls the product. -/
  vendorSymbol : Option String
  /-- Its base asset, as the venue's market table has it. -/
  base : Option String
  /-- Whether that table could be read at all. -/
  marketsUnavailable : Bool := false
deriving DecidableEq

/-- `ProviderSymbolDecision`: whether the fill should insert a provider xref for one
product. -/
structure ProviderSymbolDecision where
  /-- The provider's symbol, where there is one. -/
  vendorSymbol : Option String
  /-- Whether it is to be written. -/
  write : Bool
  /-- Why not, where it is not. -/
  skipReason : Option String
deriving DecidableEq

/-- `_skip`. -/
def skip (reason : String) : ProviderSymbolDecision := ⟨none, false, some reason⟩

/-- `(base or "").strip()`. -/
def cleanedBase (base : Option String) : String := Python.strip (base.getD "")

/-- The base that a listing names, where its market table could be read. -/
def ExchangeListing.named (l : ExchangeListing) : Option String :=
  if l.marketsUnavailable then none
  else if cleanedBase l.base = "" then none else some (cleanedBase l.base)

section

variable (casefold : String → String)

/-- `_distinct_bases`. -/
def distinctBases (bases : List String) : List String :=
  (ofEntries (bases.map fun base => (casefold base, base))).map Prod.snd

/-- The assets of a list, without the space around them. What is not a string is passed
over. -/
def cleanedAssets (listedSymbols : List (Option String)) : List String :=
  (listedSymbols.filterMap fun symbol => symbol.map Python.strip).filter (· ≠ "")

/-- `_asset_catalog`. -/
def assetCatalog (listedSymbols : List (Option String)) : List (String × String) :=
  ofEntries ((cleanedAssets listedSymbols).map fun cleaned => (casefold cleaned, cleaned))

/-- The refusal of a base that the provider does not list. -/
def notListed (base : String) : String := s!"{base} is {notAListedAsset}"

/-- What becomes of the one base that the venues name. -/
def resolveBase (listedSymbols : Option (List (Option String))) (base : String) :
    ProviderSymbolDecision :=
  match listedSymbols with
  | none => skip assetListUnavailable
  | some listed =>
    match (assetCatalog casefold listed).lookup (casefold base) with
    | none => skip (notListed base)
    | some symbol => ⟨some symbol, true, none⟩

/-- `resolve_provider_symbol`: decide the provider vendor symbol from the exchange
listings. -/
def resolveProviderSymbol (listings : List ExchangeListing)
    (listedSymbols : Option (List (Option String))) (existingSymbol : Option String) :
    ProviderSymbolDecision :=
  if existingSymbol.getD "" ≠ "" then ⟨existingSymbol, false, none⟩
  else if listings = [] then skip noVenueBase
  else
    match distinctBases casefold (listings.filterMap ExchangeListing.named) with
    | [] =>
      skip (if listings.any (·.marketsUnavailable) then marketsUnavailable else noVenueBase)
    | [base] => resolveBase casefold listedSymbols base
    | _ :: _ :: _ => skip basesDisagree

end

/-! ## The tables and their cache -/

/-- A row of `INST.PRODUCT` that is current. -/
structure Product where
  /-- The key of the product. -/
  productId : ℤ
  /-- The name that the platform has for it. -/
  internalCusip : String
deriving DecidableEq

/-- What the pass reads of a row of `SP_GET_PRODUCT_XREF`. -/
structure Xref where
  /-- The product that is named. -/
  productId : ℤ
  /-- Who names it. -/
  appId : ℤ
  /-- What it is called there. -/
  vendorSymbol : String
deriving DecidableEq

/-- The tables of `INST`: the current products, and the versions of the mappings. -/
structure InstTables where
  /-- The products as they are now. -/
  products : List Product
  /-- Every version of every mapping. -/
  xrefs : List ProductXrefRow

/-- `SP_GET_PRODUCT_XREF` without a filter: the open mappings of current products, by
id. -/
def InstTables.spGetProductXref (t : InstTables) : List Xref :=
  ((t.xrefs.filter fun v => v.transactToTs = ⊤ &&
      t.products.any fun p => p.productId = v.productId).insertionSort
    fun v w => v.productXrefId ≤ w.productXrefId).map
      fun v => ⟨v.productId, v.appId, v.vendorSymbol⟩

/-- `InstrumentCache`: the products and the mappings of the last load. -/
structure InstrumentCache where
  /-- The products as they were loaded. -/
  products : List Product
  /-- The mappings as they were loaded, which may lag behind. -/
  xrefs : List Xref

namespace InstrumentCache

/-- `get_xrefs(product_id=...)`. -/
def getXrefs (cache : InstrumentCache) (productId : ℤ) : List Xref :=
  cache.xrefs.filter fun x => x.productId = productId

/-- `resolve_vendor_symbol`. The index keeps the last row of a pair. -/
def resolveVendorSymbol (cache : InstrumentCache) (productId appId : ℤ) : Option String :=
  (cache.xrefs.reverse.find? fun x => x.productId = productId && x.appId = appId).map
    Xref.vendorSymbol

/-- `load_all`, which reads the products and then the mappings. Either read may fail. -/
def loadAll (cache : InstrumentCache) (t : InstTables) (readProducts readXrefs : Option CallError) :
    Except CallError Unit × InstrumentCache :=
  match readProducts with
  | some e => (.error e, cache)
  | none =>
    match readXrefs with
    | some e => (.error e, { cache with products := t.products })
    | none => (.ok (), ⟨t.products, t.spGetProductXref⟩)

end InstrumentCache

/-! ## The pass -/

/-- What `_write_missing_symbols` is called with. -/
structure Fill where
  /-- The provider whose symbols are filled in. -/
  appId : ℤ
  /-- The venues that are asked what a product is made of. -/
  exchangeIds : List ℤ
  /-- The market tables of those that answered: the base of each symbol. -/
  marketsByApp : List (ℤ × List (String × Option String))
  /-- Those that did not answer. -/
  failedAppIds : List ℤ
  /-- What the provider lists, where it can be asked. -/
  listedSymbols : Option (List (Option String))
  /-- Whom the mappings are written as. -/
  userId : String := "system"

/-- What the pass logs of a product. -/
inductive FillEvent where
  | skipped (internalCusip skipReason : String)
  | notWritten (internalCusip message : String)
  | present (internalCusip : String)
  | wrote (internalCusip vendorSymbol : String)
deriving DecidableEq

/-- The pass writes, or finds that another writer has. -/
def FillEvent.stale : FillEvent → Bool
  | present _ => true
  | wrote _ _ => true
  | _ => false

/-- How the server answers a call: its clock, and what it raises. -/
structure Server where
  /-- What its clock shows. -/
  now : ℤ
  /-- What it raises, at which statement. -/
  faults : Faults

/-- `_listing_for`. -/
def listingFor (vendorSymbol : String) (markets : List (String × Option String))
    (unavailable : Bool) : ExchangeListing :=
  if unavailable then ⟨some vendorSymbol, none, true⟩
  else
    match markets.find? fun m => m.1 = vendorSymbol with
    | none => ⟨some vendorSymbol, none, false⟩
    | some m =>
      if cleanedBase m.2 = "" then ⟨some vendorSymbol, none, false⟩
      else ⟨some vendorSymbol, some (cleanedBase m.2), false⟩

namespace Fill

variable (casefold : String → String) (fill : Fill)

/-- The listings of a product on the exchanges. -/
def listings (cache : InstrumentCache) (productId : ℤ) : List ExchangeListing :=
  ((cache.getXrefs productId).filter fun x => x.appId ∈ fill.exchangeIds).map fun x =>
    listingFor x.vendorSymbol ((fill.marketsByApp.lookup x.appId).getD [])
      (x.appId ∈ fill.failedAppIds)

/-- What is decided of a product that an exchange lists. -/
def decision (cache : InstrumentCache) (productId : ℤ) : ProviderSymbolDecision :=
  resolveProviderSymbol casefold (fill.listings cache productId) fill.listedSymbols
    (cache.resolveVendorSymbol productId fill.appId)

/-- The symbol to insert for a product, if there is one. -/
def proposed (cache : InstrumentCache) (productId : ℤ) : Option String :=
  if fill.listings cache productId = [] then none
  else
    let d := fill.decision casefold cache productId
    if !d.write || d.vendorSymbol.getD "" = "" then none else d.vendorSymbol

/-- `sp_ins_product_xref`, for a new mapping. -/
def spInsProductXref (server : Server) (productId : ℤ) (vendorSymbol : String)
    (rows : List ProductXrefRow) : Except CallError (Option (ℕ × ℕ)) × List ProductXrefRow :=
  callWrite server.faults (Database.spInsProductXref server.faults server.now
    ⟨none, productId, fill.appId, vendorSymbol, fill.userId⟩) rows

/-- One turn of the loop: a product. -/
def writeProduct (cache : InstrumentCache) (server : Server) (product : Product)
    (rows : List ProductXrefRow) : Except CallError (Option FillEvent) × List ProductXrefRow :=
  match fill.proposed casefold cache product.productId with
  | none =>
    let reason := if fill.listings cache product.productId = [] then none
      else (fill.decision casefold cache product.productId).skipReason
    (.ok (reason.map (.skipped product.internalCusip)), rows)
  | some symbol =>
    match fill.spInsProductXref server product.productId symbol rows with
    | (.ok _, rows) => (.ok (some (.wrote product.internalCusip symbol)), rows)
    | (.error (.procedure sqlstate message), rows) =>
      if sqlstate ≠ "23505" then (.ok (some (.notWritten product.internalCusip message)), rows)
      else (.ok (some (.present product.internalCusip)), rows)
    | (.error e, rows) => (.error e, rows)

/-- The loop over the products. The `n`-th call of the pass is answered by `server n`. -/
def writeProducts (cache : InstrumentCache) (server : ℕ → Server) :
    ℕ → List Product → List ProductXrefRow →
      Except CallError (List FillEvent) × List ProductXrefRow
  | _, [], rows => (.ok [], rows)
  | n, product :: products, rows =>
    match fill.writeProduct casefold cache (server n) product rows with
    | (.error e, rows) => (.error e, rows)
    | (.ok event, rows) =>
      match writeProducts cache server (n + 1) products rows with
      | (.error e, rows) => (.error e, rows)
      | (.ok events, rows) => (.ok (event.toList ++ events), rows)

/-- What surrounds a pass: how its calls are answered, and what its refresh meets. -/
structure Run where
  /-- The answer to each call of the pass, counted from the first. -/
  server : ℕ → Server
  /-- What goes wrong when the products are loaded again. -/
  readProducts : Option CallError := none
  /-- What goes wrong when the mappings are. -/
  readXrefs : Option CallError := none

/-- `_write_missing_symbols`. -/
def writeMissingSymbols (run : Run) (t : InstTables) (cache : InstrumentCache) :
    Except CallError (List FillEvent) × InstTables × InstrumentCache :=
  match fill.writeProducts casefold cache run.server 0 cache.products t.xrefs with
  | (.error e, rows) => (.error e, { t with xrefs := rows }, cache)
  | (.ok events, rows) =>
    let t := { t with xrefs := rows }
    if events.any FillEvent.stale then
      match cache.loadAll t run.readProducts run.readXrefs with
      | (.error e, cache) => (.error e, t, cache)
      | (.ok _, cache) => (.ok events, t, cache)
    else (.ok events, t, cache)

end Fill

/-! ## What the pass promises -/

section

variable (casefold : String → String)

/-- The symbol is the provider's own spelling of a base that no readable listing names
otherwise, and the product has none yet. -/
structure Fits (listings : List ExchangeListing) (listedSymbols : Option (List (Option String)))
    (existingSymbol : Option String) (symbol : String) : Prop where
  /-- The product has no symbol of the provider yet. -/
  unmapped : existingSymbol.getD "" = ""
  /-- A venue names a base, every venue that can be read names the same, and it is the symbol's.
  -/
  agreed : ∃ base, (∃ l ∈ listings, l.named = some base) ∧
    (∀ l ∈ listings, ∀ other, l.named = some other → casefold other = casefold base) ∧
    casefold symbol = casefold base
  /-- The provider lists the symbol, in this spelling. -/
  listed : ∃ assets, listedSymbols = some assets ∧ symbol ∈ cleanedAssets assets

/-- Two decisions for one symbol, or for none. A refusal of a base that is not listed
quotes it in one of its spellings. -/
structure Alike (d d' : ProviderSymbolDecision) : Prop where
  /-- Both write, or neither does. -/
  write : d.write = d'.write
  /-- They write the same symbol. -/
  vendorSymbol : d.vendorSymbol = d'.vendorSymbol
  /-- They skip for the same reason, or the base that is not listed is quoted in another
  spelling. -/
  skipReason : d.skipReason = d'.skipReason ∨ ∃ base base', casefold base = casefold base' ∧
    d.skipReason = some (notListed base) ∧ d'.skipReason = some (notListed base')

/-- No two assets of the list differ in their case alone. -/
def CaseDistinct (listedSymbols : List (Option String)) : Prop :=
  ∀ a ∈ cleanedAssets listedSymbols, ∀ b ∈ cleanedAssets listedSymbols,
    casefold a = casefold b → a = b

/-- What a pass does to the mappings: it adds some, for products of the cache that had
none, with symbols that fit. -/
def Fill.Adds (fill : Fill) (cache : InstrumentCache) (rows rows' : List ProductXrefRow) : Prop :=
  ∃ added, rows' = added ++ rows ∧ ∀ r ∈ added, r.Maps r.productId fill.appId ∧
    (∀ v ∈ rows, ¬v.Maps r.productId fill.appId) ∧
    (∃ p ∈ cache.products, p.productId = r.productId) ∧
    Fits casefold (fill.listings cache r.productId) fill.listedSymbols
      (cache.resolveVendorSymbol r.productId fill.appId) r.vendorSymbol

/-- The cache lags behind the tables in nothing but mappings of the provider. -/
structure Fill.LagsIn (fill : Fill) (t : InstTables) (cache : InstrumentCache) : Prop where
  /-- The cache has the products that there are. -/
  products : ∀ p, p ∈ cache.products ↔ p ∈ t.products
  /-- It has the mappings of the venues that are asked. -/
  exchanges : ∀ x : Xref, x.appId ∈ fill.exchangeIds → x.appId ≠ fill.appId →
    (x ∈ cache.xrefs ↔ x ∈ t.spGetProductXref)
  /-- Of the provider's own it has none that are not there, though it may lack some. -/
  provider : ∀ x ∈ cache.xrefs, x.appId = fill.appId → x ∈ t.spGetProductXref

/-- Each insert of a run goes in, or meets a mapping that is there. -/
structure Fill.Run.Settles (run : Fill.Run) (events : List FillEvent) : Prop where
  /-- No insert is refused for another reason than a mapping that is there. -/
  noDuplicate : ∀ n, (run.server n).faults.NoDuplicate
  /-- And none is reported as not written. -/
  written : ∀ internalCusip message, .notWritten internalCusip message ∉ events

end

/-! ## The decision, in any order -/

section

variable {casefold : String → String} {listings listings' : List ExchangeListing}
  {listedSymbols : Option (List (Option String))} {existingSymbol : Option String}
  {bases bases' : List String} {base symbol : String}

/-- The one base of a list is the base of all. -/
theorem of_distinctBases_singleton (h : distinctBases casefold bases = [base]) :
    base ∈ bases ∧ ∀ other ∈ bases, casefold other = casefold base := by
  obtain ⟨e, he, rfl⟩ := List.map_eq_singleton_iff.mp h
  have hmem : e ∈ bases.map fun base => (casefold base, base) :=
    mem_of_mem_ofEntries (he ▸ List.mem_singleton_self e)
  obtain ⟨b, hb, rfl⟩ := List.mem_map.mp hmem
  refine ⟨hb, fun other hother => ?_⟩
  have hkey : casefold other ∈
      (ofEntries (bases.map fun base => (casefold base, base))).map Prod.fst :=
    mem_keys.mpr (List.mem_map.mpr ⟨_, List.mem_map_of_mem hother, rfl⟩)
  rw [he] at hkey
  exact List.mem_singleton.mp hkey

/-- How many bases there are does not depend on the order of the list, or on how often one
comes. -/
theorem length_distinctBases (h : ∀ b, b ∈ bases ↔ b ∈ bases') :
    (distinctBases casefold bases).length = (distinctBases casefold bases').length := by
  have hperm : ((ofEntries (bases.map fun base => (casefold base, base))).map Prod.fst).Perm
      ((ofEntries (bases'.map fun base => (casefold base, base))).map Prod.fst) :=
    keys_perm (by simp [h])
  simpa [distinctBases] using hperm.length_eq

/-- A base is found among the assets in the provider's own spelling. -/
theorem of_lookup_assetCatalog {assets : List (Option String)}
    (h : (assetCatalog casefold assets).lookup (casefold base) = some symbol) :
    symbol ∈ cleanedAssets assets ∧ casefold symbol = casefold base := by
  rw [assetCatalog, lookup_ofEntries] at h
  obtain ⟨cleaned, hmem, heq⟩ := List.mem_map.mp (mem_of_lookup h)
  obtain ⟨hfold, rfl⟩ := Prod.mk.inj heq
  exact ⟨hmem, hfold⟩

/-- The bases that are compared are those of the listings that name one. -/
theorem mem_named {b : String} :
    b ∈ listings.filterMap ExchangeListing.named ↔ ∃ l ∈ listings, l.named = some b :=
  List.mem_filterMap

/-- What the decision is where the product has no symbol, by the bases of its listings. -/
theorem resolve_unmapped (hnone : existingSymbol.getD "" = "") (hne : listings ≠ []) :
    resolveProviderSymbol casefold listings listedSymbols existingSymbol =
      match distinctBases casefold (listings.filterMap ExchangeListing.named) with
      | [] =>
        skip (if listings.any (·.marketsUnavailable) then marketsUnavailable else noVenueBase)
      | [base] => resolveBase casefold listedSymbols base
      | _ :: _ :: _ => skip basesDisagree := by
  rw [resolveProviderSymbol, if_neg (not_not.mpr hnone), if_neg hne]

/-- A base that the provider lists becomes the spelling that it lists it in. -/
theorem resolveBase_of_listed {assets : List (Option String)}
    (h : (assetCatalog casefold assets).lookup (casefold base) = some symbol) :
    resolveBase casefold (some assets) base = ⟨some symbol, true, none⟩ := by
  simp only [resolveBase, h]

/-- Any other base is refused, and quoted in the refusal. -/
theorem resolveBase_of_not_listed {assets : List (Option String)}
    (h : (assetCatalog casefold assets).lookup (casefold base) = none) :
    resolveBase casefold (some assets) base = skip (notListed base) := by
  simp only [resolveBase, h]

/-- What is decided of a base is a refusal, or the provider's spelling of it. -/
theorem resolveBase_write (h : (resolveBase casefold listedSymbols base).write = true) :
    ∃ assets, listedSymbols = some assets ∧
      (assetCatalog casefold assets).lookup (casefold base) =
        (resolveBase casefold listedSymbols base).vendorSymbol := by
  cases listedSymbols with
  | none => cases h
  | some assets =>
    refine ⟨assets, rfl, ?_⟩
    cases hfind : (assetCatalog casefold assets).lookup (casefold base) with
    | none =>
      rw [resolveBase_of_not_listed hfind] at h
      cases h
    | some symbol => rw [resolveBase_of_listed hfind]

/-- **A symbol that is to be written fits.** -/
theorem fits_of_write
    (hwrite : (resolveProviderSymbol casefold listings listedSymbols existingSymbol).write = true)
    (hsymbol : (resolveProviderSymbol casefold listings listedSymbols existingSymbol).vendorSymbol =
      some symbol) : Fits casefold listings listedSymbols existingSymbol symbol := by
  by_cases hnone : existingSymbol.getD "" = ""
  · by_cases hne : listings = []
    · rw [resolveProviderSymbol, if_neg (not_not.mpr hnone), if_pos hne] at hwrite
      cases hwrite
    · rw [resolve_unmapped hnone hne] at hwrite hsymbol
      split at hwrite
      · cases hwrite
      · next base hbase =>
        rw [hbase] at hsymbol
        obtain ⟨hmem, hall⟩ := of_distinctBases_singleton hbase
        obtain ⟨assets, hassets, hfind⟩ := resolveBase_write hwrite
        obtain ⟨hlisted, hfold⟩ := of_lookup_assetCatalog (hfind.trans hsymbol)
        exact ⟨hnone, ⟨base, mem_named.mp hmem, fun l hl other hother =>
          hall other (mem_named.mpr ⟨l, hl, hother⟩), hfold⟩, assets, hassets, hlisted⟩
      · cases hwrite
  · rw [resolveProviderSymbol, if_pos hnone] at hwrite
    cases hwrite

/-- Bases that fold alike are decided alike. -/
theorem alike_resolveBase {base' : String} (h : casefold base = casefold base') :
    Alike casefold (resolveBase casefold listedSymbols base)
      (resolveBase casefold listedSymbols base') := by
  cases listedSymbols with
  | none => exact ⟨rfl, rfl, Or.inl rfl⟩
  | some assets =>
    cases hfind : (assetCatalog casefold assets).lookup (casefold base') with
    | none =>
      rw [resolveBase_of_not_listed hfind, resolveBase_of_not_listed (h ▸ hfind)]
      exact ⟨rfl, rfl, Or.inr ⟨base, base', h, rfl, rfl⟩⟩
    | some symbol =>
      rw [resolveBase_of_listed hfind, resolveBase_of_listed (h ▸ hfind)]
      exact ⟨rfl, rfl, Or.inl rfl⟩

/-- **The order of the listings does not matter**, nor how often one of them comes. -/
theorem alike_of_mem_iff (h : ∀ l, l ∈ listings ↔ l ∈ listings') :
    Alike casefold (resolveProviderSymbol casefold listings listedSymbols existingSymbol)
      (resolveProviderSymbol casefold listings' listedSymbols existingSymbol) := by
  have hnil : listings = [] ↔ listings' = [] := by
    rw [List.eq_nil_iff_forall_not_mem, List.eq_nil_iff_forall_not_mem]
    exact forall_congr' fun l => not_congr (h l)
  by_cases hnone : existingSymbol.getD "" = ""
  · by_cases hne : listings = []
    · rw [hne, hnil.mp hne]
      exact ⟨rfl, rfl, Or.inl rfl⟩
    · have hnamed (b : String) : b ∈ listings.filterMap ExchangeListing.named ↔
          b ∈ listings'.filterMap ExchangeListing.named := by
        rw [mem_named, mem_named]
        exact exists_congr fun l => and_congr_left fun _ => h l
      have hfailed : listings.any (·.marketsUnavailable) = listings'.any (·.marketsUnavailable) := by
        rw [Bool.eq_iff_iff, List.any_eq_true, List.any_eq_true]
        exact exists_congr fun l => and_congr_left fun _ => h l
      have hlen := @length_distinctBases casefold _ _ hnamed
      rw [resolve_unmapped hnone hne, resolve_unmapped hnone (mt hnil.mpr hne), hfailed]
      match hd : distinctBases casefold (listings.filterMap ExchangeListing.named),
          hd' : distinctBases casefold (listings'.filterMap ExchangeListing.named) with
      | [], [] => exact ⟨rfl, rfl, Or.inl rfl⟩
      | [base], [base'] =>
        obtain ⟨hmem, -⟩ := of_distinctBases_singleton hd
        obtain ⟨-, hall⟩ := of_distinctBases_singleton hd'
        exact alike_resolveBase (hall base ((hnamed base).mp hmem))
      | _ :: _ :: _, _ :: _ :: _ => exact ⟨rfl, rfl, Or.inl rfl⟩
      | [], _ :: _ => rw [hd, hd'] at hlen; cases hlen
      | _ :: _, [] => rw [hd, hd'] at hlen; cases hlen
      | [_], _ :: _ :: _ => rw [hd, hd'] at hlen; cases hlen
      | _ :: _ :: _, [_] => rw [hd, hd'] at hlen; cases hlen
  · rw [resolveProviderSymbol, if_pos hnone, resolveProviderSymbol, if_pos hnone]
    exact ⟨rfl, rfl, Or.inl rfl⟩

/-- **The order of the assets does not matter**, where no two differ in their case alone. Where
two do, the one that is listed first is taken, and the outcome depends on the order. -/
theorem resolve_perm {assets assets' : List (Option String)} (h : assets.Perm assets')
    (hdistinct : CaseDistinct casefold assets) :
    resolveProviderSymbol casefold listings (some assets) existingSymbol =
      resolveProviderSymbol casefold listings (some assets') existingSymbol := by
  have hclean : (cleanedAssets assets).Perm (cleanedAssets assets') :=
    (h.filterMap _).filter _
  have hlookup (k : String) : (assetCatalog casefold assets).lookup k =
      (assetCatalog casefold assets').lookup k := by
    rw [assetCatalog, assetCatalog, lookup_ofEntries, lookup_ofEntries]
    refine lookup_perm (hclean.map _) (fun e he e' he' hkey => ?_) k
    obtain ⟨a, ha, rfl⟩ := List.mem_map.mp he
    obtain ⟨b, hb, rfl⟩ := List.mem_map.mp he'
    rw [hdistinct a ha b hb hkey]
  unfold resolveProviderSymbol resolveBase
  simp only [hlookup]

end

/-! ## One turn, and the loop -/

namespace Fill

variable {casefold : String → String} {fill : Fill} {cache : InstrumentCache} {f : Faults}
  {rows rows' : List ProductXrefRow} {symbol : String} {productId : ℤ}

/-- An insert that goes in is the first mapping of its pair. -/
theorem spInsProductXref_ok {server : Server} {ids : Option (ℕ × ℕ)}
    (h : fill.spInsProductXref server productId symbol rows = (.ok ids, rows')) :
    ∃ r : ProductXrefRow, r.Maps productId fill.appId ∧ r.vendorSymbol = symbol ∧
      (∀ v ∈ rows, ¬v.Maps productId fill.appId) ∧ rows' = r :: rows := by
  obtain ⟨-, -, row, hrow, hok, -⟩ := callWrite_eq_ok.mp h
  exact spInsProductXref_success rfl hrow hok

/-- An insert that is refused leaves the rows. -/
theorem spInsProductXref_error {server : Server} {e : CallError}
    (h : fill.spInsProductXref server productId symbol rows = (.error e, rows')) :
    rows' = rows := by
  have herror := callWrite_error (congrArg Prod.fst h)
  exact (congrArg Prod.snd h).symm.trans herror

/-- A unique violation is met where the pair has a symbol. -/
theorem spInsProductXref_present {server : Server} (hf : server.faults.NoDuplicate)
    {message : String} (h : fill.spInsProductXref server productId symbol rows =
      (.error (.procedure "23505" message), rows')) : ∃ v ∈ rows, v.Maps productId fill.appId := by
  obtain ⟨row, _, hrow, hcode⟩ := callWrite_procedure (congrArg Prod.fst h)
  exact spInsProductXref_duplicate hf rfl hrow hcode

/-- What is proposed is decided, and is not empty. -/
theorem proposed_eq_some (h : fill.proposed casefold cache productId = some symbol) :
    fill.listings cache productId ≠ [] ∧ (fill.decision casefold cache productId).write = true ∧
      (fill.decision casefold cache productId).vendorSymbol = some symbol := by
  unfold proposed at h
  split at h
  · cases h
  · next hne =>
    dsimp only at h
    split at h
    · cases h
    · next hwrite =>
      rw [Bool.or_eq_true, Bool.not_eq_true', not_or, Bool.not_eq_false] at hwrite
      exact ⟨hne, hwrite.1, h⟩

/-- **What one turn does**: nothing, or it writes the symbol that is proposed for a product
without one. -/
inductive Turn (casefold : String → String) (fill : Fill) (cache : InstrumentCache) (f : Faults)
    (product : Product) (rows : List ProductXrefRow) :
    Except CallError (Option FillEvent) → List ProductXrefRow → Prop
  | idle {event : Option FillEvent} :
      fill.proposed casefold cache product.productId = none →
      (∀ e, event = some e → ∃ reason, e = .skipped product.internalCusip reason) →
      Turn casefold fill cache f product rows (.ok event) rows
  | wrote {symbol : String} {r : ProductXrefRow} :
      fill.proposed casefold cache product.productId = some symbol →
      r.Maps product.productId fill.appId → r.vendorSymbol = symbol →
      (∀ v ∈ rows, ¬v.Maps product.productId fill.appId) →
      Turn casefold fill cache f product rows (.ok (some (.wrote product.internalCusip symbol)))
        (r :: rows)
  | refused {message : String} :
      Turn casefold fill cache f product rows
        (.ok (some (.notWritten product.internalCusip message))) rows
  | present : (f.NoDuplicate → ∃ v ∈ rows, v.Maps product.productId fill.appId) →
      Turn casefold fill cache f product rows (.ok (some (.present product.internalCusip))) rows
  | failed {e : CallError} : Turn casefold fill cache f product rows (.error e) rows

/-- **What one product does to the mappings**: it adds a version for this product, or nothing.
Each branch of the write is one of the two. -/
theorem turn (casefold : String → String) (fill : Fill) (cache : InstrumentCache)
    (server : Server) (product : Product) (rows : List ProductXrefRow) :
    Turn casefold fill cache server.faults product rows
      (fill.writeProduct casefold cache server product rows).1
      (fill.writeProduct casefold cache server product rows).2 := by
  unfold writeProduct
  split
  · next hnone =>
    refine .idle hnone fun e he => ?_
    obtain ⟨reason, -, rfl⟩ := Option.map_eq_some_iff.mp he
    exact ⟨reason, rfl⟩
  · next symbol hsome =>
    split
    · next hins =>
      obtain ⟨r, hmaps, hsymbol, hfresh, rfl⟩ := spInsProductXref_ok hins
      exact .wrote hsome hmaps hsymbol hfresh
    · next hins =>
      cases spInsProductXref_error hins
      split
      · exact .refused
      · next hcode =>
        cases not_not.mp hcode
        exact .present fun hf => spInsProductXref_present hf hins
    · next hins =>
      cases spInsProductXref_error hins
      exact .failed

/-- A turn that finds a mapping leaves the rows. -/
theorem Turn.rows_eq {product : Product} {result : Except CallError (Option FillEvent)}
    (h : Turn casefold fill cache f product rows result rows')
    (hmapped : fill.proposed casefold cache product.productId = none ∨
      ∃ v ∈ rows, v.Maps product.productId fill.appId) : rows' = rows := by
  cases h with
  | wrote hsome _ _ hfresh =>
    rcases hmapped with hnone | ⟨v, hv, hmaps⟩
    · rw [hnone] at hsome
      cases hsome
    · exact absurd hmaps (hfresh v hv)
  | idle _ _ => rfl
  | refused => rfl
  | present _ => rfl
  | failed => rfl

/-- A pass over no products adds nothing. -/
theorem Adds.refl (rows : List ProductXrefRow) : fill.Adds casefold cache rows rows :=
  ⟨[], rfl, fun _ h => absurd h List.not_mem_nil⟩

/-- A turn adds what fits, for a product without a mapping. -/
theorem Turn.adds {product : Product} {result : Except CallError (Option FillEvent)}
    (h : Turn casefold fill cache f product rows result rows') (hp : product ∈ cache.products) :
    fill.Adds casefold cache rows rows' := by
  cases h with
  | @wrote symbol r hsome hmaps hsymbol hfresh =>
    obtain ⟨-, hwrite, hvendor⟩ := proposed_eq_some hsome
    obtain ⟨hpid, happ, hopen⟩ := hmaps
    refine ⟨[r], rfl, fun r' hr' => ?_⟩
    cases List.mem_singleton.mp hr'
    rw [hpid]
    exact ⟨⟨hpid, happ, hopen⟩, hfresh, ⟨product, hp, rfl⟩,
      hsymbol ▸ fits_of_write hwrite hvendor⟩
  | idle _ _ => exact .refl rows
  | refused => exact .refl rows
  | present _ => exact .refl rows
  | failed => exact .refl rows

/-- What is added by one part of a pass and by the next is added by both together. -/
theorem Adds.trans {rows'' : List ProductXrefRow} (h : fill.Adds casefold cache rows rows')
    (h' : fill.Adds casefold cache rows' rows'') : fill.Adds casefold cache rows rows'' := by
  obtain ⟨added, rfl, hadded⟩ := h
  obtain ⟨added', rfl, hadded'⟩ := h'
  refine ⟨added' ++ added, (List.append_assoc _ _ _).symm, fun r hr => ?_⟩
  rcases List.mem_append.mp hr with hr | hr
  · obtain ⟨hmaps, hfresh, hrest⟩ := hadded' r hr
    exact ⟨hmaps, fun v hv => hfresh v (List.mem_append_right added hv), hrest⟩
  · exact hadded r hr

theorem Adds.mem {v : ProductXrefRow} (h : fill.Adds casefold cache rows rows') (hv : v ∈ rows) :
    v ∈ rows' := by
  obtain ⟨added, rfl, -⟩ := h
  exact List.mem_append_right added hv

/-- **The loop adds what fits.** -/
theorem writeProducts_adds (server : ℕ → Server) (n : ℕ) {products : List Product}
    (hsub : ∀ p ∈ products, p ∈ cache.products) (rows : List ProductXrefRow) :
    fill.Adds casefold cache rows
      (fill.writeProducts casefold cache server n products rows).2 := by
  induction products generalizing n rows with
  | nil => exact .refl rows
  | cons product products ih =>
    have hturn := (turn casefold fill cache (server n) product rows).adds
      (hsub product List.mem_cons_self)
    have hrest := ih (n + 1) (fun p hp => hsub p (List.mem_cons_of_mem _ hp))
      (fill.writeProduct casefold cache (server n) product rows).2
    rw [writeProducts]
    split
    · next hw =>
      rw [hw] at hturn
      exact hturn
    · next hw =>
      rw [hw] at hturn hrest
      split
      all_goals
        next hloop =>
        rw [hloop] at hrest
        exact hturn.trans hrest

/-- **A loop that finds every mapping leaves the rows.** A product is passed over where nothing is
proposed for it, or a row maps it already. -/
theorem writeProducts_rows_eq (server : ℕ → Server) (n : ℕ) {products : List Product}
    (hmapped : ∀ p ∈ products, fill.proposed casefold cache p.productId = none ∨
      ∃ v ∈ rows, v.Maps p.productId fill.appId) :
    (fill.writeProducts casefold cache server n products rows).2 = rows := by
  induction products generalizing n with
  | nil => rfl
  | cons product products ih =>
    have hturn := (turn casefold fill cache (server n) product rows).rows_eq
      (hmapped product List.mem_cons_self)
    have hrest := ih (n + 1) fun p hp => hmapped p (List.mem_cons_of_mem _ hp)
    rw [writeProducts]
    split
    · next hw =>
      rw [hw] at hturn
      exact hturn
    · next hw =>
      rw [hw] at hturn
      cases hturn
      split
      all_goals
        next hloop =>
        rw [hloop] at hrest
        exact hrest

/-- A turn that settles leaves the product with a mapping, or had none to propose. -/
theorem Turn.settles {product : Product} {event : Option FillEvent}
    (h : Turn casefold fill cache f product rows (.ok event) rows') (hf : f.NoDuplicate)
    (hwritten : ∀ internalCusip message, event ≠ some (.notWritten internalCusip message)) :
    fill.proposed casefold cache product.productId = none ∨
      event.toList.any FillEvent.stale = true ∧
        ∃ v ∈ rows', v.Maps product.productId fill.appId := by
  cases h with
  | idle hnone _ => exact Or.inl hnone
  | wrote _ hmaps _ _ => exact Or.inr ⟨rfl, _, List.mem_cons_self, hmaps⟩
  | refused => exact absurd rfl (hwritten _ _)
  | present hmapped => exact Or.inr ⟨rfl, hmapped hf⟩

/-- **A loop whose inserts settle leaves no product without the mapping proposed for it**,
and says so. -/
theorem writeProducts_settles {server : ℕ → Server} {n : ℕ} {products : List Product}
    {events : List FillEvent} (hf : ∀ n, (server n).faults.NoDuplicate)
    (hsub : ∀ p ∈ products, p ∈ cache.products)
    (h : fill.writeProducts casefold cache server n products rows = (.ok events, rows'))
    (hwritten : ∀ internalCusip message, .notWritten internalCusip message ∉ events) :
    ∀ p ∈ products, fill.proposed casefold cache p.productId = none ∨
      events.any FillEvent.stale = true ∧ ∃ v ∈ rows', v.Maps p.productId fill.appId := by
  induction products generalizing n rows events with
  | nil => exact fun p hp => absurd hp List.not_mem_nil
  | cons product products ih =>
    have hturn := turn casefold fill cache (server n) product rows
    have hadds := @writeProducts_adds casefold fill cache server (n + 1) products
      (fun p hp => hsub p (List.mem_cons_of_mem _ hp))
      (fill.writeProduct casefold cache (server n) product rows).2
    rw [writeProducts] at h
    split at h
    · cases h
    · next event rows₁ hw =>
      rw [hw] at hturn hadds
      split at h
      · cases h
      · next rest rows₂ hloop =>
        cases h
        rw [hloop] at hadds
        have hturn := hturn.settles (hf n) fun c m he => hwritten c m
          (List.mem_append_left _ (he ▸ List.mem_singleton_self _))
        have hrest := ih (fun p hp => hsub p (List.mem_cons_of_mem _ hp)) hloop
          fun c m he => hwritten c m (List.mem_append_right _ he)
        intro p hp
        rw [List.any_append, Bool.or_eq_true]
        rcases List.mem_cons.mp hp with rfl | hp
        · refine hturn.imp_right fun ⟨hstale, v, hv, hmaps⟩ => ⟨Or.inl hstale, v, ?_, hmaps⟩
          exact hadds.mem hv
        · exact (hrest p hp).imp_right fun ⟨hstale, hmaps⟩ => ⟨Or.inr hstale, hmaps⟩

/-! ## Two passes -/

variable {t t' : InstTables} {cache' : InstrumentCache}

/-- The tables after a pass are those after its loop. -/
theorem writeMissingSymbols_tables (run : Run) :
    (fill.writeMissingSymbols casefold run t cache).2.1 =
      { t with xrefs :=
          (fill.writeProducts casefold cache run.server 0 cache.products t.xrefs).2 } := by
  unfold writeMissingSymbols
  split
  · next hloop => rw [hloop]
  · next hloop =>
    rw [hloop]
    dsimp only
    split
    · split
      · rfl
      · rfl
    · rfl

/-- A load that returns has all the tables have. -/
theorem loadAll_ok {readProducts readXrefs : Option CallError} {u : Unit}
    (h : cache.loadAll t readProducts readXrefs = (.ok u, cache')) :
    cache' = ⟨t.products, t.spGetProductXref⟩ := by
  unfold InstrumentCache.loadAll at h
  split at h
  · cases h
  · split at h
    · cases h
    · cases h
      rfl

/-- A pass that returns has loaded what it wrote, if it wrote. -/
theorem writeMissingSymbols_ok {run : Run} {events : List FillEvent}
    (h : fill.writeMissingSymbols casefold run t cache = (.ok events, t', cache')) :
    ∃ rows, fill.writeProducts casefold cache run.server 0 cache.products t.xrefs =
        (.ok events, rows) ∧ t' = { t with xrefs := rows } ∧
      (events.any FillEvent.stale = true ∧ cache' = ⟨t.products, t'.spGetProductXref⟩ ∨
        events.any FillEvent.stale = false ∧ cache' = cache) := by
  unfold writeMissingSymbols at h
  split at h
  · cases h
  · next events' rows hloop =>
    dsimp only at h
    split at h
    · next hstale =>
      split at h
      · cases h
      · next hload =>
        cases h
        exact ⟨rows, hloop, rfl, Or.inl ⟨hstale, loadAll_ok hload⟩⟩
    · next hstale =>
      cases h
      exact ⟨rows, hloop, rfl, Or.inr ⟨Bool.eq_false_iff.mpr hstale, rfl⟩⟩

/-- The read returns the open mappings of the products that there are. -/
theorem mem_spGetProductXref {x : Xref} : x ∈ t.spGetProductXref ↔
    ∃ v ∈ t.xrefs, v.Maps x.productId x.appId ∧ v.vendorSymbol = x.vendorSymbol ∧
      ∃ p ∈ t.products, p.productId = x.productId := by
  simp only [InstTables.spGetProductXref, List.mem_map, List.mem_insertionSort, List.mem_filter,
    Bool.and_eq_true, decide_eq_true_eq, List.any_eq_true, ProductXrefRow.Maps]
  constructor
  · rintro ⟨v, ⟨hv, hopen, hp⟩, rfl⟩
    exact ⟨v, hv, ⟨rfl, rfl, hopen⟩, rfl, hp⟩
  · rintro ⟨v, hv, ⟨hpid, happ, hopen⟩, hsymbol, hp⟩
    obtain ⟨pid, app, symbol⟩ := x
    cases hpid
    cases happ
    cases hsymbol
    exact ⟨v, ⟨hv, hopen, hp⟩, rfl⟩

/-- A product has no symbol in a cache that has no row of the pair. -/
theorem resolveVendorSymbol_eq_none {appId : ℤ}
    (h : ∀ x ∈ cache.xrefs, x.productId = productId → x.appId ≠ appId) :
    cache.resolveVendorSymbol productId appId = none := by
  rw [InstrumentCache.resolveVendorSymbol, Option.map_eq_none_iff, List.find?_eq_none]
  intro x hx
  rw [List.mem_reverse] at hx
  simpa using h x hx

/-- A listing of a product comes from a mapping of it to one of the venues. -/
theorem mem_listings {l : ExchangeListing} : l ∈ fill.listings cache productId ↔
    ∃ x ∈ cache.xrefs, x.productId = productId ∧ x.appId ∈ fill.exchangeIds ∧
      listingFor x.vendorSymbol ((fill.marketsByApp.lookup x.appId).getD [])
        (x.appId ∈ fill.failedAppIds) = l := by
  simp only [listings, InstrumentCache.getXrefs, List.mem_map, List.mem_filter,
    decide_eq_true_eq, and_assoc]

/-- Caches that say the same of a product have the same proposed for it. -/
theorem proposed_congr
    (hlist : ∀ l, l ∈ fill.listings cache productId ↔ l ∈ fill.listings cache' productId)
    (hsymbol : cache.resolveVendorSymbol productId fill.appId =
      cache'.resolveVendorSymbol productId fill.appId) :
    fill.proposed casefold cache productId = fill.proposed casefold cache' productId := by
  have hnil : fill.listings cache productId = [] ↔ fill.listings cache' productId = [] := by
    rw [List.eq_nil_iff_forall_not_mem, List.eq_nil_iff_forall_not_mem]
    exact forall_congr' fun l => not_congr (hlist l)
  have halike : Alike casefold (fill.decision casefold cache productId)
      (fill.decision casefold cache' productId) := by
    unfold decision
    rw [hsymbol]
    exact alike_of_mem_iff hlist
  unfold proposed
  simp only [hnil, halike.write, halike.vendorSymbol]

/-- After a pass, a cache of the tables says of a product without a mapping what the cache
before it said. -/
theorem proposed_loaded (hlag : fill.LagsIn t cache) (hadds : fill.Adds casefold cache t.xrefs rows')
    (hnone : ∀ v ∈ rows', ¬v.Maps productId fill.appId) :
    fill.proposed casefold cache productId = fill.proposed casefold
      ⟨t.products, InstTables.spGetProductXref { t with xrefs := rows' }⟩ productId := by
  have hold (x : Xref) (hx : x ∈ t.spGetProductXref) (hpid : x.productId = productId) :
      x.appId ≠ fill.appId := by
    rintro happ
    obtain ⟨v, hv, hmaps, -⟩ := mem_spGetProductXref.mp hx
    rw [hpid, happ] at hmaps
    exact hnone v (hadds.mem hv) hmaps
  have hnew (x : Xref) (hx : x ∈ InstTables.spGetProductXref { t with xrefs := rows' })
      (hpid : x.productId = productId) : x.appId ≠ fill.appId := by
    rintro happ
    obtain ⟨v, hv, hmaps, -⟩ := mem_spGetProductXref.mp hx
    rw [hpid, happ] at hmaps
    exact hnone v hv hmaps
  have hcached (x : Xref) (hx : x ∈ cache.xrefs) (hpid : x.productId = productId) :
      x.appId ≠ fill.appId := fun happ => hold x (hlag.provider x hx happ) hpid happ
  -- rows of other applications are those there were
  have hother (x : Xref) (happ : x.appId ≠ fill.appId) : x ∈ t.spGetProductXref ↔
      x ∈ InstTables.spGetProductXref { t with xrefs := rows' } := by
    rw [mem_spGetProductXref, mem_spGetProductXref]
    constructor
    · rintro ⟨v, hv, h⟩
      exact ⟨v, hadds.mem hv, h⟩
    · rintro ⟨v, hv, hmaps, h⟩
      obtain ⟨added, rfl, hadded⟩ := hadds
      rcases List.mem_append.mp hv with hv | hv
      · exact absurd (hmaps.2.1.symm.trans (hadded v hv).1.2.1) happ
      · exact ⟨v, hv, hmaps, h⟩
  refine proposed_congr (fun l => ?_) ?_
  · rw [mem_listings, mem_listings]
    constructor
    · rintro ⟨x, hx, hpid, hex, hl⟩
      have happ := hcached x hx hpid
      exact ⟨x, (hother x happ).mp ((hlag.exchanges x hex happ).mp hx), hpid, hex, hl⟩
    · rintro ⟨x, hx, hpid, hex, hl⟩
      have happ := hnew x hx hpid
      exact ⟨x, (hlag.exchanges x hex happ).mpr ((hother x happ).mpr hx), hpid, hex, hl⟩
  · rw [resolveVendorSymbol_eq_none hcached, resolveVendorSymbol_eq_none hnew]

/-- **A second pass writes nothing.** -/
theorem writeMissingSymbols_twice {run : Run} {events : List FillEvent} (run' : Run)
    (hlag : fill.LagsIn t cache) (hsettles : run.Settles events)
    (h : fill.writeMissingSymbols casefold run t cache = (.ok events, t', cache')) :
    (fill.writeMissingSymbols casefold run' t' cache').2.1 = t' := by
  obtain ⟨rows, hloop, rfl, hcache⟩ := writeMissingSymbols_ok h
  have hsettled := writeProducts_settles hsettles.noDuplicate (fun p hp => hp) hloop
    hsettles.written
  have hadds := @writeProducts_adds casefold fill cache run.server 0 cache.products
    (fun p hp => hp) t.xrefs
  rw [hloop] at hadds
  rw [writeMissingSymbols_tables]
  congr 1
  apply writeProducts_rows_eq
  rcases hcache with ⟨-, rfl⟩ | ⟨hstale, rfl⟩
  · intro p hp
    by_cases hmapped : ∃ v ∈ rows, v.Maps p.productId fill.appId
    · exact Or.inr hmapped
    · refine Or.inl ?_
      have hnone (v) (hv : v ∈ rows) : ¬v.Maps p.productId fill.appId :=
        fun hmaps => hmapped ⟨v, hv, hmaps⟩
      rw [← proposed_loaded hlag hadds hnone]
      exact (hsettled p ((hlag.products p).mpr hp)).resolve_right fun h => hmapped h.2
  · intro p hp
    refine Or.inl ((hsettled p hp).resolve_right fun h => ?_)
    rw [h.1] at hstale
    cases hstale

end Fill

/-- **Symbols of a provider are resolved soundly.** What is to be written fits. The order of
the listings, and how often one of them comes, does not matter; the order of the assets does
not either, where no two of them differ in their case alone. A pass adds mappings that fit
for products that have none, and changes none. After a pass that returns and whose inserts
settle, from a cache that lags in nothing but mappings of the provider, a second one writes
nothing. A pass that raises part of the way has written what it came to, as the fourth part
says, and nothing is said of the one after it. -/
theorem resolution_sound (casefold : String → String) :
    (∀ listings listedSymbols existingSymbol symbol,
      (resolveProviderSymbol casefold listings listedSymbols existingSymbol).write = true →
      (resolveProviderSymbol casefold listings listedSymbols existingSymbol).vendorSymbol =
        some symbol →
      Fits casefold listings listedSymbols existingSymbol symbol) ∧
    (∀ listings listings' listedSymbols existingSymbol, (∀ l, l ∈ listings ↔ l ∈ listings') →
      Alike casefold (resolveProviderSymbol casefold listings listedSymbols existingSymbol)
        (resolveProviderSymbol casefold listings' listedSymbols existingSymbol)) ∧
    (∀ listings assets assets' existingSymbol, List.Perm assets assets' →
      CaseDistinct casefold assets →
      resolveProviderSymbol casefold listings (some assets) existingSymbol =
        resolveProviderSymbol casefold listings (some assets') existingSymbol) ∧
    (∀ (fill : Fill) (run : Fill.Run) t cache, fill.Adds casefold cache t.xrefs
      (fill.writeMissingSymbols casefold run t cache).2.1.xrefs) ∧
    (∀ (fill : Fill) (run run' : Fill.Run) t t' cache cache' events, fill.LagsIn t cache →
      run.Settles events →
      fill.writeMissingSymbols casefold run t cache = (.ok events, t', cache') →
      (fill.writeMissingSymbols casefold run' t' cache').2.1 = t') := by
  refine ⟨fun _ _ _ _ => fits_of_write, fun _ _ _ _ => alike_of_mem_iff,
    fun _ _ _ _ => resolve_perm, fun fill run t cache => ?_,
    fun _ _ run' _ _ _ _ _ => Fill.writeMissingSymbols_twice run'⟩
  rw [Fill.writeMissingSymbols_tables]
  exact Fill.writeProducts_adds run.server 0 (fun p hp => hp) t.xrefs

/-! ## Two products of one venue -/

/-- `str.casefold`, on ASCII letters. -/
def asciiFold (s : String) : String := .ofList (Python.lower s)

/-- A row of the first version of a mapping. -/
def mapping (productXrefId : ℕ) (productId appId : ℤ) (vendorSymbol : String) : ProductXrefRow :=
  ⟨productXrefId, 1, 0, ⊤, productId, appId, vendorSymbol, "liquibase"⟩

/-- Two products that the exchange 34 lists. -/
def tables : InstTables where
  products := [⟨1, "btcusdt.crypto"⟩, ⟨2, "ethusdt.crypto"⟩]
  xrefs := [mapping 2 2 34 "ETHUSDT", mapping 1 1 34 "BTCUSDT"]

/-- The fill of the provider 2. -/
def glassnode : Fill where
  appId := 2
  exchangeIds := [34]
  marketsByApp := [(34, [("BTCUSDT", some "BTC"), ("ETHUSDT", some "ETH")])]
  failedAppIds := []
  listedSymbols := some [some "btc", some "eth"]

/-- A cache of the tables. -/
def loaded : InstrumentCache := ⟨tables.products, tables.spGetProductXref⟩

/-- A cache from before the second product was made. -/
def older : InstrumentCache := ⟨[⟨1, "btcusdt.crypto"⟩], [⟨1, 34, "BTCUSDT"⟩]⟩

/-- A run that nothing disturbs. -/
def quiet : Fill.Run where
  server _ := ⟨0, fun _ => none⟩

/-- A run in which a lock is not had. -/
def locked : Fill.Run where
  server _ := ⟨0, fun st =>
    if st = .insert then some ⟨"55P03", "lock not available", by decide⟩ else none⟩

/-- The symbols that a provider has after two passes. -/
def mapped (run run' : Fill.Run) (cache : InstrumentCache) : List String × List String :=
  let first := glassnode.writeMissingSymbols asciiFold run tables cache
  let second := glassnode.writeMissingSymbols asciiFold run' first.2.1 first.2.2
  ((first.2.1.xrefs.filter fun v => v.appId = 2).map ProductXrefRow.vendorSymbol,
    (second.2.1.xrefs.filter fun v => v.appId = 2).map ProductXrefRow.vendorSymbol)

/-- **Two assets that differ in their case** are written as the first of them is spelled, so
that their order decides. A refusal quotes the first listing. A second pass writes where the
first one loaded a product that its cache did not have, and where it was refused. -/
theorem order_decides :
    List.Perm [some "BTC", some "btc"] [some "btc", some "BTC"] ∧
    resolveProviderSymbol asciiFold [⟨some "BTCUSDT", some "BTC", false⟩]
      (some [some "BTC", some "btc"]) none = ⟨some "BTC", true, none⟩ ∧
    resolveProviderSymbol asciiFold [⟨some "BTCUSDT", some "BTC", false⟩]
      (some [some "btc", some "BTC"]) none = ⟨some "btc", true, none⟩ ∧
    (resolveProviderSymbol asciiFold
      [⟨some "A", some "BTC", false⟩, ⟨some "B", some "btc", false⟩] (some []) none).skipReason =
        some "BTC is not a listed asset" ∧
    (resolveProviderSymbol asciiFold
      [⟨some "B", some "btc", false⟩, ⟨some "A", some "BTC", false⟩] (some []) none).skipReason =
        some "btc is not a listed asset" ∧
    mapped quiet quiet older = (["btc"], ["eth", "btc"]) ∧
    mapped locked quiet loaded = ([], ["eth", "btc"]) := by
  refine ⟨List.Perm.swap _ _ _, ?_⟩
  decide +kernel

/-- From a cache of the tables, a pass writes both symbols and a second one neither. -/
theorem glassnode_twice :
    (glassnode.writeMissingSymbols asciiFold quiet tables loaded).2.1.xrefs.length = 4 ∧
    (glassnode.writeMissingSymbols asciiFold quiet
      (glassnode.writeMissingSymbols asciiFold quiet tables loaded).2.1
      (glassnode.writeMissingSymbols asciiFold quiet tables loaded).2.2).2.1 =
        (glassnode.writeMissingSymbols asciiFold quiet tables loaded).2.1 := by
  refine ⟨by decide +kernel, ?_⟩
  refine (resolution_sound asciiFold).2.2.2.2 glassnode quiet quiet tables _ loaded _
    [.wrote "btcusdt.crypto" "btc", .wrote "ethusdt.crypto" "eth"] ?_ ?_ ?_
  · exact ⟨fun _ => Iff.rfl, fun _ _ _ => Iff.rfl, fun _ h _ => h⟩
  · exact ⟨fun _ _ _ h => (nomatch h), fun _ _ h => by simp at h⟩
  · have hok : (glassnode.writeMissingSymbols asciiFold quiet tables loaded).1.toOption =
        some [.wrote "btcusdt.crypto" "btc", .wrote "ethusdt.crypto" "eth"] := by decide +kernel
    exact Prod.ext (Result.toOption_eq_some.mp hok) rfl

end ProviderFill
