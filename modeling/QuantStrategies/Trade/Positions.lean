import Mathlib.Algebra.BigOperators.Group.List.Basic
import Mathlib.Algebra.Order.Ring.Rat
import Mathlib.Data.List.Find
import QuantStrategies.Trade.Ccxt

/-!
# Two readers of the positions

An order is sized from `fetch_position_qty`, and an operator reads
`fetch_open_positions`. Both read what ccxt makes of the positions of the
account, the one for a symbol and the other for all of them.

The snapshot drops the entries without a size and keeps every other. The order
path takes the first entry that it finds under the symbol, whatever its size,
and it does not look for the unified symbol among the entries. So a placeholder
before an entry hides it, a second entry is not counted, and an entry that has
lost the symbol of the exchange is not found.

They do not read a size alike either. An empty text is a missing number to the
snapshot, and an exception to the order path.

For an account with a single entry under a symbol, which is named by the exchange and has a
size, the readers agree. The condition of the theorem says how far that goes beyond such
accounts.
-/

/-! ## The snapshot -/

/-- An entry of `fetch_positions` with the fields that only the snapshot reads, as
`_as_float` reads them. -/
structure AccountPosition (F : Type) extends CcxtPosition F where
  /-- At which price it was entered. -/
  entryPrice : Option F
  /-- What it is valued at. -/
  markPrice : Option F
  /-- What it comes to. -/
  notional : Option F
  /-- What it has gained. -/
  unrealizedPnl : Option F
  /-- How far it is leveraged. -/
  leverage : Option F
  /-- At which price the venue closes it. -/
  liquidationPrice : Option F
deriving DecidableEq

/-- A row of `fetch_open_positions`. -/
structure PositionRow (F : Type) where
  /-- The symbol that the row is shown under. -/
  symbol : String
  /-- The symbol under which ccxt knows it. -/
  unifiedSymbol : Option String
  /-- How much is held, with its sign. -/
  qty : F
  /-- Long or short, where it is said. -/
  side : Option String
  /-- At which price it was entered. -/
  entryPrice : Option F
  /-- What it is valued at. -/
  markPrice : Option F
  /-- What it comes to. -/
  notional : Option F
  /-- What it has gained. -/
  unrealizedPnl : Option F
  /-- How far it is leveraged. -/
  leverage : Option F
  /-- At which price the venue closes it. -/
  liquidationPrice : Option F
deriving DecidableEq

/-- What the snapshot asks of the venue: the positions of the account. -/
inductive AccountCall where
  | fetchPositions
deriving DecidableEq

/-- What it is answered. -/
@[reducible]
def AccountCall.Answer (F : Type) : AccountCall → Type
  | .fetchPositions => Except VenueRaise (List (AccountPosition F))

/-- A program that reads an account. -/
abbrev AccountProg (F α : Type) := Prog AccountCall (AccountCall.Answer F) Raised α

namespace CcxtSession

variable {F : Type} [PyFloat F]

/-- The row of an entry, and none of an entry without a size. -/
def positionRow (pos : AccountPosition F) : Option (PositionRow F) :=
  let qty := (asFloat pos.contracts).getD ((asFloat pos.infoSize).getD 0)
  if PyFloat.eq qty 0 then none
  else some
    { symbol := ((pos.infoSymbol.filter (· != "")).or (pos.symbol.filter (· != ""))).getD ""
      unifiedSymbol := pos.symbol
      qty := if pos.side = some "short" then -PyFloat.abs qty else PyFloat.abs qty
      side := pos.side
      entryPrice := pos.entryPrice
      markPrice := pos.markPrice
      notional := pos.notional
      unrealizedPnl := pos.unrealizedPnl
      leverage := pos.leverage
      liquidationPrice := pos.liquidationPrice }

/-- `fetch_open_positions`. -/
def fetchOpenPositions (s : CcxtSession) : AccountProg F (List (PositionRow F)) := do
  let answer : Except VenueRaise (List (AccountPosition F)) ←
    Prog.call AccountCall.fetchPositions
  let positions ← Prog.ofExcept (Except.mapError (s.callError "fetch_positions") answer)
  pure (positions.filterMap positionRow)

end CcxtSession

namespace Positions

/-- A row of a symbol, under the symbol or under its unified symbol. -/
def ReportedFor {F : Type} (symbol unified : String) (row : PositionRow F) : Prop :=
  row.symbol = symbol ∨ row.unifiedSymbol = some unified

instance {F : Type} (symbol unified : String) :
    DecidablePred (ReportedFor (F := F) symbol unified) := fun _ =>
  inferInstanceAs (Decidable (_ ∨ _))

/-- The rows of a symbol. -/
def rowsOf {F : Type} (symbol unified : String) (rows : List (PositionRow F)) :
    List (PositionRow F) :=
  rows.filter fun row => ReportedFor symbol unified row

/-- **The two readers agree**: on the position in a symbol, and on whether there is one. -/
structure ReadersAgree (symbol unified : String) (qty : ℚ) (rows : List (PositionRow ℚ)) :
    Prop where
  /-- The order path trades from the sum of the rows that the operator sees under the symbol. -/
  sum : qty = ((rowsOf symbol unified rows).map (·.qty)).sum
  /-- It takes the position for none exactly where the operator sees none. -/
  flat : qty = 0 ↔ rowsOf symbol unified rows = []

/-- The names in ccxt's entries: an entry with the exchange's symbol is of the market that
the symbol names, and a unified symbol names itself. -/
structure Named (symbol unified : String) (positions : List (AccountPosition ℚ)) : Prop where
  /-- An entry that has the exchange's symbol has the unified one that belongs to it. -/
  info : ∀ pos ∈ positions, pos.infoSymbol = some symbol → pos.symbol = some unified
  /-- A symbol that is itself a unified one belongs to itself. -/
  own : ∀ pos ∈ positions, pos.symbol = some symbol → unified = symbol

/-- The entries of a market. ccxt answers a request for a symbol with these. -/
def ofMarket (unified : String) (positions : List (AccountPosition ℚ)) :
    List (AccountPosition ℚ) :=
  positions.filter fun pos => pos.symbol = some unified

/-- The size of an entry, as far as there is a number. -/
def size (pos : AccountPosition ℚ) : ℚ :=
  (asFloat pos.contracts).getD ((asFloat pos.infoSize).getD 0)

/-- What stands for the size of an entry is a number, or nothing stands there. -/
def Readable (pos : AccountPosition ℚ) : Prop :=
  (∀ text, pos.contracts ≠ some (.refused text)) ∧
    (pos.contracts = none → ∀ text, pos.infoSize ≠ some (.refused text))

/-- What an entry holds, by its side. -/
def held (pos : AccountPosition ℚ) : ℚ :=
  if pos.side = some "short" then -|size pos| else |size pos|

/-- What the other entries have to make up for: a negative size that is not marked as
short. -/
def misread (pos : AccountPosition ℚ) : ℚ :=
  if pos.side ≠ some "short" ∧ size pos < 0 then 2 * size pos else 0

/-- The entry is found under the symbol. -/
def Found (symbol unified : String) (pos : AccountPosition ℚ) : Prop :=
  unified = symbol ∨ pos.infoSymbol = some symbol

instance (symbol unified : String) : DecidablePred (Found symbol unified) := fun _ =>
  inferInstanceAs (Decidable (_ ∨ _))

/-- The size of the first entry that is found under the symbol can be read. -/
def FirstReadable (symbol unified : String) (entries : List (AccountPosition ℚ)) : Prop :=
  ∀ pos, entries.find? (fun pos => Found symbol unified pos) = some pos → Readable pos

/-- Nothing is open in the market; or the first entry that is found under the symbol is
open, and the others cancel out. -/
def FirstIsAll (symbol unified : String) (entries : List (AccountPosition ℚ)) : Prop :=
  (∀ pos ∈ entries, size pos = 0) ∨
    ∃ pos, entries.find? (fun pos => Found symbol unified pos) = some pos ∧ size pos ≠ 0 ∧
      ((entries.erase pos).map held).sum = misread pos

/-! ## What each of them reads -/

variable {s : CcxtSession} {symbol unified : String} {pos : AccountPosition ℚ}
variable {entries positions : List (AccountPosition ℚ)}

/-- The snapshot leaves out an entry exactly when it has no size. -/
theorem positionRow_eq_none : CcxtSession.positionRow pos = none ↔ size pos = 0 := by
  unfold CcxtSession.positionRow
  dsimp only
  split
  · next h => exact iff_of_true rfl (of_decide_eq_true h)
  · next h => exact iff_of_false (Option.some_ne_none _) fun h0 => h (decide_eq_true h0)

/-- What a row says of its entry. -/
theorem positionRow_eq_some {row : PositionRow ℚ} (h : CcxtSession.positionRow pos = some row) :
    row.qty = held pos ∧ row.unifiedSymbol = pos.symbol ∧
      row.symbol = ((pos.infoSymbol.filter (· != "")).or (pos.symbol.filter (· != ""))).getD "" := by
  unfold CcxtSession.positionRow at h
  dsimp only at h
  split at h
  · cases h
  · cases h
    exact ⟨rfl, rfl, rfl⟩

/-- An entry without a size counts for nothing on the order path. -/
theorem held_eq_zero (h : size pos = 0) : held pos = 0 := by
  simp [held, h]

/-- The first of two texts that is not empty. -/
theorem or_filter_eq {a b : Option String} (hsymbol : symbol ≠ "")
    (h : ((a.filter (· != "")).or (b.filter (· != ""))).getD "" = symbol) :
    a = some symbol ∨ b = some symbol := by
  have hfilter (a : Option String) : a.filter (· != "") = none ∨ a.filter (· != "") = a := by
    cases a with
    | none => exact .inl rfl
    | some x =>
      rw [Option.filter_some]
      split
      · exact .inr rfl
      · exact .inl rfl
  have hget {a : Option String} (h : a.getD "" = symbol) : a = some symbol := by
    cases a with
    | none => exact absurd h.symm hsymbol
    | some x => exact congrArg some h
  rcases hfilter a with ha | ha
  · rw [ha, Option.none_or] at h
    rcases hfilter b with hb | hb
    · rw [hb] at h
      exact absurd h.symm hsymbol
    · exact .inr (hget (hb ▸ h))
  · cases a with
    | none =>
      rw [Option.filter_none, Option.none_or] at h
      rcases hfilter b with hb | hb
      · rw [hb] at h
        exact absurd h.symm hsymbol
      · exact .inr (hget (hb ▸ h))
    | some x =>
      rw [ha, Option.some_or] at h
      exact .inl (hget h)

/-- The rows of a symbol are those of the entries of its market. -/
theorem rowsOf_filterMap (hsymbol : symbol ≠ "") (hnamed : Named symbol unified positions) :
    rowsOf symbol unified (positions.filterMap CcxtSession.positionRow) =
      (ofMarket unified positions).filterMap CcxtSession.positionRow := by
  rw [rowsOf, ofMarket, List.filter_filterMap, List.filterMap_filter]
  refine List.filterMap_congr fun pos hpos => ?_
  cases hrow : CcxtSession.positionRow pos with
  | none => simp
  | some row =>
    obtain ⟨-, hunified, hname⟩ := positionRow_eq_some hrow
    have hiff : ReportedFor symbol unified row ↔ pos.symbol = some unified := by
      rw [ReportedFor, hunified]
      refine ⟨fun h => h.elim (fun h => ?_) id, .inr⟩
      rcases or_filter_eq hsymbol (hname.symm.trans h) with hinfo | hown
      · exact hnamed.info pos hpos hinfo
      · exact (hnamed.own pos hpos hown) ▸ hown
    simp [hiff, Option.filter]

/-- The rows of some entries add up to what these hold. -/
theorem sum_rows (entries : List (AccountPosition ℚ)) :
    ((entries.filterMap CcxtSession.positionRow).map (·.qty)).sum = (entries.map held).sum := by
  induction entries with
  | nil => rfl
  | cons pos entries ih =>
    rw [List.map_cons, List.sum_cons, ← ih]
    cases hrow : CcxtSession.positionRow pos with
    | none =>
      rw [List.filterMap_cons_none hrow, held_eq_zero (positionRow_eq_none.mp hrow), zero_add]
    | some row =>
      rw [List.filterMap_cons_some hrow, List.map_cons, List.sum_cons, (positionRow_eq_some hrow).1]

/-- There is no row exactly when no entry has a size. -/
theorem rows_eq_nil : entries.filterMap CcxtSession.positionRow = [] ↔
    ∀ pos ∈ entries, size pos = 0 := by
  simp only [List.filterMap_eq_nil_iff, positionRow_eq_none]

/-- The size of an entry, signed as the order path signs it. -/
def signed (pos : AccountPosition ℚ) : ℚ :=
  if pos.side = some "short" then -|size pos| else size pos

/-- The first entry that is found, signed as the order path signs it. -/
def firstQty (symbol unified : String) (entries : List (AccountPosition ℚ)) : ℚ :=
  (entries.find? fun pos => Found symbol unified pos).elim 0 signed

/-- What the order path reads of the first entry that is found. -/
def firstRead (symbol unified : String) (entries : List (AccountPosition ℚ)) :
    Except Raised ℚ :=
  (entries.find? fun pos => Found symbol unified pos).elim (.ok 0)
    fun pos => CcxtSession.signedQty pos.toCcxtPosition

/-- The order path reads a size that can be read. -/
theorem signedQty_eq_ok (h : Readable pos) :
    CcxtSession.signedQty pos.toCcxtPosition = .ok (signed pos) := by
  obtain ⟨hcontracts, hsize⟩ := h
  unfold CcxtSession.signedQty signed size
  cases hc : pos.contracts with
  | some contracts =>
    cases contracts with
    | reads x => rfl
    | refused text => exact absurd hc (hcontracts text)
  | none =>
    cases hs : pos.infoSize with
    | none => rfl
    | some size =>
      cases size with
      | reads x => rfl
      | refused text => exact absurd hs (hsize hc text)

/-- It raises where a size cannot be read. -/
theorem signedQty_ne_ok (h : ¬ Readable pos) (qty : ℚ) :
    CcxtSession.signedQty pos.toCcxtPosition ≠ .ok qty := by
  intro hok
  unfold CcxtSession.signedQty at hok
  refine h ⟨fun text hc => ?_, fun hc text hs => ?_⟩
  · rw [hc] at hok
    cases hok
  · rw [hc, hs] at hok
    cases hok

/-- The first entry is read exactly where it can be, and is then what is signed. -/
theorem firstRead_eq_ok {qty : ℚ} : firstRead symbol unified entries = .ok qty ↔
    FirstReadable symbol unified entries ∧ qty = firstQty symbol unified entries := by
  unfold firstRead firstQty FirstReadable
  cases hfirst : entries.find? (fun pos => Found symbol unified pos) with
  | none =>
    show Except.ok 0 = Except.ok qty ↔ _ ∧ qty = 0
    rw [Except.ok.injEq, eq_comm]
    exact (and_iff_right fun p hp => (by cases hp)).symm
  | some pos =>
    show CcxtSession.signedQty pos.toCcxtPosition = .ok qty ↔ _
    by_cases hreadable : Readable pos
    · rw [signedQty_eq_ok hreadable]
      refine ⟨fun h => ⟨fun p hp => Option.some.inj hp ▸ hreadable, (Except.ok.inj h).symm⟩,
        fun h => congrArg Except.ok h.2.symm⟩
    · exact iff_of_false (signedQty_ne_ok hreadable qty) fun h => hreadable (h.1 pos rfl)

/-- The order path reads an entry as it is held, but for a negative size that is not
marked as short. -/
theorem signed_eq : signed pos = held pos + misread pos := by
  unfold signed held misread
  by_cases hshort : pos.side = some "short"
  · simp [hshort]
  · rw [if_neg hshort, if_neg hshort]
    by_cases hneg : size pos < 0
    · rw [if_pos ⟨hshort, hneg⟩, abs_of_neg hneg]
      ring
    · rw [if_neg fun h => hneg h.2, abs_of_nonneg (not_lt.mp hneg), add_zero]

/-- Nothing is held exactly when there is no size, whatever the side. -/
theorem signed_eq_zero : signed pos = 0 ↔ size pos = 0 := by
  unfold signed
  split
  · rw [neg_eq_zero, abs_eq_zero]
  · rfl

/-- The order path, on the entries of a market. -/
theorem fetchPositionQty_runs {answer : Except VenueRaise (CcxtMarket ℚ)}
    (hspot : s.defaultType ≠ some "spot")
    (hunified : CcxtSession.unifiedSymbol symbol answer = .ok unified)
    (hnamed : Named symbol unified positions) {r : Except Raised ℚ} :
    Prog.Runs (s.fetchPositionQty symbol)
      [⟨.fetchPositions symbol, .ok ((ofMarket unified positions).map (·.toCcxtPosition))⟩,
        ⟨.market symbol, answer⟩] r ↔
      r = firstRead symbol unified (ofMarket unified positions) := by
  have hfind : ((ofMarket unified positions).map (·.toCcxtPosition)).find? (fun pos =>
      pos.symbol = some symbol || unified = symbol || pos.infoSymbol = some symbol) =
      ((ofMarket unified positions).find? fun pos => Found symbol unified pos).map
        (·.toCcxtPosition) := by
    rw [List.find?_map]
    refine congrArg (Option.map _) (List.find?_congr fun pos hpos => ?_)
    have hown := hnamed.own pos (List.mem_of_mem_filter hpos)
    by_cases hu : unified = symbol
    · simp [Found, hu]
    · have hne : pos.symbol ≠ some symbol := fun h => hu (hown h)
      simp [Found, hu, hne]
  unfold CcxtSession.fetchPositionQty
  rw [if_neg hspot]
  refine Prog.runs_call_bind_cons.trans (Prog.runs_call_bind_cons.trans ?_)
  rw [hunified]
  refine Prog.runs_ofExcept.trans ?_
  rw [hfind, firstRead, Option.elim_map]
  exact and_iff_right rfl

/-- The snapshot, on the positions of the account. -/
theorem fetchOpenPositions_runs {r : Except Raised (List (PositionRow ℚ))} :
    Prog.Runs s.fetchOpenPositions [⟨.fetchPositions, .ok positions⟩] r ↔
      r = .ok (positions.filterMap CcxtSession.positionRow) := by
  unfold CcxtSession.fetchOpenPositions
  refine Prog.runs_call_bind_cons.trans (Prog.runs_pure.trans ?_)
  exact and_iff_right rfl

/-! ## When they agree -/

/-- An open entry is found first, or none is. -/
theorem agree_iff : (firstQty symbol unified entries = (entries.map held).sum ∧
      (firstQty symbol unified entries = 0 ↔ ∀ pos ∈ entries, size pos = 0)) ↔
    FirstIsAll symbol unified entries := by
  have hflat (h : ∀ pos ∈ entries, size pos = 0) :
      firstQty symbol unified entries = 0 ∧ (entries.map held).sum = 0 := by
    refine ⟨?_, List.sum_eq_zero fun x hx => ?_⟩
    · unfold firstQty
      cases hfirst : entries.find? (fun pos => Found symbol unified pos) with
      | none => rfl
      | some pos => exact signed_eq_zero.mpr (h pos (List.mem_of_find?_eq_some hfirst))
    · obtain ⟨pos, hpos, rfl⟩ := List.mem_map.mp hx
      exact held_eq_zero (h pos hpos)
  constructor
  · rintro ⟨hsum, hzero⟩
    by_cases h : ∀ pos ∈ entries, size pos = 0
    · exact .inl h
    · have hne : firstQty symbol unified entries ≠ 0 := fun h0 => h (hzero.mp h0)
      unfold firstQty at hsum hne
      cases hfirst : entries.find? (fun pos => Found symbol unified pos) with
      | none =>
        rw [hfirst] at hne
        exact absurd rfl hne
      | some pos =>
        rw [hfirst] at hsum hne
        have herase := List.sum_map_erase held (List.mem_of_find?_eq_some hfirst)
        refine .inr ⟨pos, hfirst, fun h0 => hne (signed_eq_zero.mpr h0), ?_⟩
        have hread : held pos + misread pos = (entries.map held).sum := signed_eq ▸ hsum
        linarith
  · rintro (h | ⟨pos, hfirst, hopen, hrest⟩)
    · obtain ⟨hfirst, hsum⟩ := hflat h
      exact ⟨hfirst.trans hsum.symm, iff_of_true hfirst h⟩
    · have hmem := List.mem_of_find?_eq_some hfirst
      have hread : firstQty symbol unified entries = held pos + misread pos := by
        rw [firstQty, hfirst, ← signed_eq]
        rfl
      have herase := List.sum_map_erase held hmem
      refine ⟨by rw [hread]; linarith, iff_of_false (fun h0 => hopen ?_) fun h => hopen (h pos hmem)⟩
      rw [hread, ← signed_eq] at h0
      exact signed_eq_zero.mp h0

/-- **When the two readers agree.** Over the entries of a market: where the first that is
found under the symbol has a size that can be read, and either none of them is open or that
first one is and the others cancel out. -/
theorem readersAgree_iff {answer : Except VenueRaise (CcxtMarket ℚ)}
    (hspot : s.defaultType ≠ some "spot") (hsymbol : symbol ≠ "")
    (hunified : CcxtSession.unifiedSymbol symbol answer = .ok unified)
    (hnamed : Named symbol unified positions) :
    ∃ read rows,
      (∀ r, Prog.Runs (s.fetchPositionQty symbol)
        [⟨.fetchPositions symbol, .ok ((ofMarket unified positions).map (·.toCcxtPosition))⟩,
          ⟨.market symbol, answer⟩] r ↔ r = read) ∧
      (∀ r, Prog.Runs s.fetchOpenPositions [⟨.fetchPositions, .ok positions⟩] r ↔ r = .ok rows) ∧
      ((∃ qty, read = .ok qty ∧ ReadersAgree symbol unified qty rows) ↔
        FirstReadable symbol unified (ofMarket unified positions) ∧
          FirstIsAll symbol unified (ofMarket unified positions)) := by
  refine ⟨_, _, fun r => fetchPositionQty_runs hspot hunified hnamed,
    fun r => fetchOpenPositions_runs, ?_⟩
  have hagree : ReadersAgree symbol unified (firstQty symbol unified (ofMarket unified positions))
      (positions.filterMap CcxtSession.positionRow) ↔
        FirstIsAll symbol unified (ofMarket unified positions) := by
    rw [← agree_iff, ← sum_rows, ← rows_eq_nil, ← rowsOf_filterMap hsymbol hnamed]
    exact ⟨fun h => ⟨h.sum, h.flat⟩, fun h => ⟨h.1, h.2⟩⟩
  simp only [firstRead_eq_ok, and_assoc, exists_and_left, exists_eq_left, hagree]

/-- An entry of a perpetual, as the exchange reports it. -/
def btc (contracts : ℚ) (side : Option String) : AccountPosition ℚ where
  symbol := some "BTC/USDT:USDT"
  infoSymbol := some "BTCUSDT"
  contracts := some (.reads contracts)
  infoSize := none
  side := side
  entryPrice := none
  markPrice := none
  notional := none
  unrealizedPnl := none
  leverage := none
  liquidationPrice := none

/-- A session on perpetuals. -/
def linear : CcxtSession := ⟨.bybit, ⟨true, false⟩, some "linear"⟩

/-- The market of the perpetual. -/
def btcMarket : CcxtMarket ℚ := ⟨"BTC/USDT:USDT", some "BTC", none, none⟩

/-- In the example the entries are named as the venue names them. -/
theorem named_btc {entries : List (ℚ × Option String)} :
    Named "BTCUSDT" "BTC/USDT:USDT" (entries.map fun e => btc e.1 e.2) := by
  refine ⟨fun pos hpos _ => ?_, fun pos hpos hown => ?_⟩ <;>
    obtain ⟨e, -, rfl⟩ := List.mem_map.mp hpos
  · rfl
  · exact absurd (Option.some.inj hown) (by decide)

/-- A long position in one entry. -/
theorem readersAgree_long : ∃ read rows,
    (∀ r, Prog.Runs (linear.fetchPositionQty "BTCUSDT")
      [⟨.fetchPositions "BTCUSDT", .ok ((ofMarket "BTC/USDT:USDT"
          ([(1 / 2, some "long")].map fun e => btc e.1 e.2)).map (·.toCcxtPosition))⟩,
        ⟨.market "BTCUSDT", .ok btcMarket⟩] r ↔ r = read) ∧
    (∀ r, Prog.Runs linear.fetchOpenPositions
      [⟨.fetchPositions, .ok ([(1 / 2, some "long")].map fun e => btc e.1 e.2)⟩] r ↔
        r = .ok rows) ∧
    ((∃ qty, read = .ok qty ∧ ReadersAgree "BTCUSDT" "BTC/USDT:USDT" qty rows) ↔
      FirstReadable "BTCUSDT" "BTC/USDT:USDT" (ofMarket "BTC/USDT:USDT"
          ([(1 / 2, some "long")].map fun e => btc e.1 e.2)) ∧
        FirstIsAll "BTCUSDT" "BTC/USDT:USDT" (ofMarket "BTC/USDT:USDT"
          ([(1 / 2, some "long")].map fun e => btc e.1 e.2))) :=
  readersAgree_iff (by decide) (by decide) rfl named_btc

/-- An entry without contracts whose size is an empty text is nothing to the snapshot, and
stops the order path. -/
example :
    let entry := { btc 0 none with contracts := none, infoSize := some (.refused "") }
    CcxtSession.positionRow entry = none ∧
      CcxtSession.signedQty entry.toCcxtPosition =
        .error (.value "could not convert string to float: ''") := by
  decide +kernel

/-- A placeholder before the entry with the position. -/
theorem placeholder_hides : ¬ ∀ (s : CcxtSession) (symbol unified : String)
    (positions : List (AccountPosition ℚ)) (answer : Except VenueRaise (CcxtMarket ℚ)) (qty : ℚ)
    (rows : List (PositionRow ℚ)), s.defaultType ≠ some "spot" → symbol ≠ "" →
      CcxtSession.unifiedSymbol symbol answer = .ok unified → Named symbol unified positions →
      Prog.Runs (s.fetchPositionQty symbol)
        [⟨.fetchPositions symbol, .ok ((ofMarket unified positions).map (·.toCcxtPosition))⟩,
          ⟨.market symbol, answer⟩] (.ok qty) →
      Prog.Runs s.fetchOpenPositions [⟨.fetchPositions, .ok positions⟩] (.ok rows) →
      ReadersAgree symbol unified qty rows := by
  intro hall
  have hnamed : Named "BTCUSDT" "BTC/USDT:USDT"
      ([(0, none), (1 / 2, some "long")].map fun e => btc e.1 e.2) := named_btc
  have hreadable : FirstReadable "BTCUSDT" "BTC/USDT:USDT" (ofMarket "BTC/USDT:USDT"
      ([(0, none), (1 / 2, some "long")].map fun e => btc e.1 e.2)) := by
    intro pos hpos
    obtain ⟨e, -, rfl⟩ := List.mem_map.mp
      (List.mem_of_mem_filter (List.mem_of_find?_eq_some hpos))
    exact ⟨nofun, nofun⟩
  have hagree := hall linear "BTCUSDT" "BTC/USDT:USDT" _ (.ok btcMarket) _ _ (by decide)
    (by decide) rfl hnamed ((fetchPositionQty_runs (by decide) rfl hnamed).mpr
      (firstRead_eq_ok.mpr ⟨hreadable, rfl⟩).symm)
    (fetchOpenPositions_runs.mpr rfl)
  have hsum := hagree.sum
  rw [rowsOf_filterMap (by decide) hnamed, sum_rows] at hsum
  simp [firstQty, ofMarket, Found, btc, held, size, signed, asFloat] at hsum

end Positions
