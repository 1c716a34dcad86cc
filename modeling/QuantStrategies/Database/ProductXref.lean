import QuantStrategies.Database.Gateway
import QuantStrategies.Lib.Result

/-!
# The table of vendor symbols

`INST.PRODUCT_XREF` maps a product to the symbol that a venue or a provider has for it.
A mapping is versioned by its id. An index keeps the open rows of a product and an
application apart, so that a pair has one symbol at a time.

The procedure is versioned like the others, with one statement of its own: it closes the
open row of the id that it is given, and not that of the pair. A pair that has an open row
under another id is refused by the index.
-/

namespace Database

/-- A row of `INST.PRODUCT_XREF`. -/
structure ProductXrefRow where
  /-- The mapping. -/
  productXrefId : ℕ
  /-- The number of the version. -/
  productXrefVid : ℕ
  /-- When the version begins. -/
  transactFromTs : ℤ
  /-- When it ends, infinity while it is open. -/
  transactToTs : WithTop ℤ
  /-- The product. -/
  productId : ℤ
  /-- The venue or provider. -/
  appId : ℤ
  /-- What that calls the product. -/
  vendorSymbol : String
  /-- Who wrote it. -/
  userId : String
deriving DecidableEq

namespace ProductXrefRow

/-- `INST.PRODUCT_XREF` is versioned by the id of the mapping. -/
def table : SoftTable ProductXrefRow ℕ where
  key := productXrefId
  vid := productXrefVid
  fromTs := transactFromTs
  toTs := transactToTs
  closeAt t v := { v with transactToTs := t }
  key_closeAt _ _ := rfl
  vid_closeAt _ _ := rfl
  fromTs_closeAt _ _ := rfl
  toTs_closeAt _ _ := rfl

/-- The unique constraints of `INST.PRODUCT_XREF`. -/
def unique : List (UniqueKey ProductXrefRow) :=
  [⟨"product_xref_pkey", fun v w =>
      v.productXrefId = w.productXrefId && v.productXrefVid = w.productXrefVid⟩,
    ⟨"uq_product_xref_current", fun v w => v.productId = w.productId && v.appId = w.appId &&
      v.transactToTs = ⊤ && w.transactToTs = ⊤⟩]

/-- The row is the open one of this product and this application. -/
def Maps (v : ProductXrefRow) (productId appId : ℤ) : Prop :=
  v.productId = productId ∧ v.appId = appId ∧ v.transactToTs = ⊤

/-- `COALESCE(MAX(PRODUCT_XREF_ID), 0) + 1`. -/
def nextId (log : List ProductXrefRow) : ℕ := (log.map productXrefId).foldr max 0 + 1

end ProductXrefRow

/-- The arguments of `SP_INS_PRODUCT_XREF`. -/
structure ProductXrefArgs where
  /-- The mapping, or none for a new one. -/
  productXrefId : Option ℕ
  /-- The product. -/
  productId : ℤ
  /-- The venue or provider. -/
  appId : ℤ
  /-- What it calls the product. -/
  vendorSymbol : String
  /-- The caller. -/
  userId : String
deriving DecidableEq

/-- The row that `SP_INS_PRODUCT_XREF` inserts. -/
def ProductXrefArgs.row (a : ProductXrefArgs) (now : ℤ) (productXrefId vid : ℕ) :
    Except SqlError ProductXrefRow :=
  .ok ⟨productXrefId, vid, now, ⊤, a.productId, a.appId, a.vendorSymbol, a.userId⟩

/-- A new mapping arrives without an id, and takes the next one. -/
def resolveProductXrefId (f : Faults) : Option ℕ → Sql (List ProductXrefRow) ℕ
  | some productXrefId => return productXrefId
  | none => do
    Sql.statement (f .resolve)
    let log ← get
    Sql.eval (int4 (ProductXrefRow.nextId log))

/-- `SP_INS_PRODUCT_XREF`. -/
def spInsProductXref (f : Faults) (now : ℤ) (a : ProductXrefArgs) :
    Sql (List ProductXrefRow) (OutRow (Option (ℕ × ℕ))) :=
  Sql.block (do
    let productXrefId ← resolveProductXrefId f a.productXrefId
    let vid ← insVersion ProductXrefRow.table ProductXrefRow.unique f now (some productXrefId)
      (a.row now productXrefId)
    let _ ← coreInsLogProc (f .log)
    return OutRow.success (some (productXrefId, vid))) (OutRow.failure none)

variable {f : Faults} {now : ℤ} {a : ProductXrefArgs} {log log' : List ProductXrefRow}
  {row : OutRow (Option (ℕ × ℕ))}

/-- A new id is above every one there is. -/
theorem ProductXrefRow.lt_nextId {v : ProductXrefRow} (hv : v ∈ log) :
    v.productXrefId < nextId log :=
  Nat.lt_succ_of_le (Versioned.le_foldr_max _ (List.mem_map_of_mem hv))

/-- A new mapping closes no row. -/
theorem ProductXrefRow.closeOpen_nextId (now : ℤ) (log : List ProductXrefRow) :
    table.closeOpen now (some (nextId log)) log = log := by
  unfold SoftTable.closeOpen
  refine (List.map_congr_left fun v hv => if_neg fun h => ?_).trans (List.map_id log)
  exact (lt_nextId hv).ne (Option.some.inj h.1)

/-- A row with a new id is kept apart from the open row of its product and application
only. -/
theorem ProductXrefRow.same_nextId {v r : ProductXrefRow} (hv : v ∈ log)
    (hr : r.productXrefId = nextId log) (hopen : r.transactToTs = ⊤) :
    (∃ u ∈ unique, u.same r v = true) ↔ v.Maps r.productId r.appId := by
  have hid : r.productXrefId ≠ v.productXrefId := hr ▸ (lt_nextId hv).ne'
  simp only [unique, List.mem_cons, List.not_mem_nil, or_false, exists_eq_or_imp,
    exists_eq_left, Bool.and_eq_true, decide_eq_true_eq]
  constructor
  · rintro (⟨h, -⟩ | ⟨⟨⟨hp, happ⟩, -⟩, hv⟩)
    · exact absurd h hid
    · exact ⟨hp.symm, happ.symm, hv⟩
  · rintro ⟨hp, happ, hv⟩
    exact Or.inr ⟨⟨⟨hp.symm, happ.symm⟩, hopen⟩, hv⟩

/-- The work of a new mapping, when it goes through. -/
theorem resolveProductXrefId_none {s : List ProductXrefRow} {r : ℕ × List ProductXrefRow} :
    resolveProductXrefId f none s = .ok r → r = (ProductXrefRow.nextId s, s) := by
  intro h
  obtain ⟨_, _, h1, h⟩ := Sql.bind_eq_ok.mp h
  obtain ⟨-, h1⟩ := Sql.statement_eq_ok.mp h1
  cases h1
  obtain ⟨_, _, h2, h⟩ := Sql.bind_eq_ok.mp h
  cases Sql.get_eq_ok.mp h2
  obtain ⟨n, hn, rfl⟩ := Sql.eval_eq_ok.mp h
  obtain ⟨-, rfl⟩ := int4_eq_ok.mp hn
  rfl

/-- Finding a new id raises no unique violation. -/
theorem resolveProductXrefId_error (hf : f.NoDuplicate) {s : List ProductXrefRow} {e : SqlError}
    (h : resolveProductXrefId f none s = .error e) : e.sqlstate ≠ "23505" := by
  obtain h | ⟨_, _, _, h⟩ := Sql.bind_eq_error.mp h
  · exact hf _ e (Sql.statement_eq_error.mp h)
  obtain h | ⟨_, _, _, h⟩ := Sql.bind_eq_error.mp h
  · cases h
  have hint := Sql.eval_eq_error.mp h
  unfold int4 at hint
  split at hint
  · cases hint
  · cases hint
    exact of_decide_eq_true rfl

/-- **What `SP_INS_PRODUCT_XREF` does for a new mapping**, when it reports success: the
pair had no symbol, and has this one. -/
theorem spInsProductXref_success (hnew : a.productXrefId = none)
    (h : spInsProductXref f now a log = .ok (row, log')) (hok : row.sqlstate = "00000") :
    ∃ r : ProductXrefRow, r.Maps a.productId a.appId ∧ r.vendorSymbol = a.vendorSymbol ∧
      (∀ v ∈ log, ¬v.Maps a.productId a.appId) ∧ log' = r :: log := by
  obtain h | ⟨e, -, -, h⟩ := Sql.block_eq_ok.mp h
  · rw [hnew] at h
    obtain ⟨_, _, hid, h⟩ := Sql.bind_eq_ok.mp h
    cases resolveProductXrefId_none hid
    obtain ⟨_, hins, rfl⟩ := logged_eq_ok h
    obtain ⟨-, -, -, rfl, -, r, hr, hunique, rfl⟩ := insVersion_eq_ok.mp hins
    cases hr
    rw [ProductXrefRow.closeOpen_nextId] at hunique ⊢
    refine ⟨_, ⟨rfl, rfl, rfl⟩, rfl, fun v hv hmaps => ?_, rfl⟩
    obtain ⟨u, hu, hsame⟩ := (ProductXrefRow.same_nextId (r := ⟨_, _, now, ⊤, _, _,
      a.vendorSymbol, a.userId⟩) hv rfl rfl).mpr hmaps
    exact absurd hsame (Bool.eq_false_iff.mp (hunique u hu v hv))
  · cases h
    exact absurd hok e.failed

/-- **A second symbol for a pair is refused**: where `SP_INS_PRODUCT_XREF` reports a unique
violation for a new mapping, the pair has a symbol. -/
theorem spInsProductXref_duplicate (hf : f.NoDuplicate) (hnew : a.productXrefId = none)
    (h : spInsProductXref f now a log = .ok (row, log')) (hcode : row.sqlstate = "23505") :
    ∃ v ∈ log, v.Maps a.productId a.appId := by
  obtain h | ⟨e, herror, hothers, hrow⟩ := Sql.block_eq_ok.mp h
  · obtain ⟨_, _, _, h⟩ := Sql.bind_eq_ok.mp h
    obtain ⟨_, _, rfl⟩ := logged_eq_ok h
    have hne : ("00000" : String) ≠ "23505" := by decide
    exact absurd hcode hne
  · cases hrow
    rw [hnew] at herror
    obtain h | ⟨_, _, hid, h⟩ := Sql.bind_eq_error.mp herror
    · exact absurd hcode (resolveProductXrefId_error hf h)
    cases resolveProductXrefId_none hid
    obtain h | ⟨_, _, _, h⟩ := Sql.bind_eq_error.mp h
    · obtain ⟨r, hr, hmeets⟩ := insVersion_duplicate hf (fun _ _ h => by cases h) h hcode
      rw [ProductXrefRow.closeOpen_nextId] at hmeets
      obtain ⟨u, hu, v, hv, hsame⟩ := hmeets
      cases hr
      exact ⟨v, hv, (ProductXrefRow.same_nextId hv rfl rfl).mp ⟨u, hu, hsame⟩⟩
    · obtain h | ⟨_, _, _, h⟩ := Sql.bind_eq_error.mp h
      · rw [(Sql.block_eq_error.mp h).2] at hothers
        cases hothers
      · cases h

end Database
