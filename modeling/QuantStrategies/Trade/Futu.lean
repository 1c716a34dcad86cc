import Mathlib.Algebra.Order.Ring.Rat
import QuantStrategies.Lib.Interaction
import QuantStrategies.Trade.Order

/-!
# Signals on Futu

`FutuTrader` reads a signal against a position by itself: it asks OpenD for the
positions of the account, closes what is held against the signal, and opens.
OpenD answers each request with a return code, and the trader turns a code that
is not zero into a value – no positions, a result without success – and goes on.

A position that could not be read is therefore taken for none, and an order that
closes is not asked what became of it.

So there are two ways to over-trade, and they are the two return codes that are not looked
at. A third is a position of less than a share, which is cut to nothing and is not closed
before the other side is opened.
-/

/-- What a request to OpenD comes back with: data, a return code that is not zero with
its message, or an exception. -/
inductive FutuReturn (α : Type) where
  | ok (data : α)
  | failed (message : String)
  | raised (message : String)
deriving DecidableEq

/-- A row of `position_list_query`. -/
structure FutuPosition where
  /-- The security. -/
  code : String
  /-- How much of it is held, negative where it is sold short. -/
  qty : ℚ
deriving DecidableEq

/-- What an order is for. OpenD is not told. -/
inductive FutuPurpose where
  | closing
  | opening
deriving DecidableEq

/-- The arguments of `place_order`, on the context of OpenD. -/
structure FutuOrder where
  /-- The price, which a market order has none of. -/
  price : ℚ
  /-- How many shares. -/
  qty : ℤ
  /-- The security. -/
  code : String
  /-- Whether it is bought or sold. -/
  trdSide : OrderSide
  /-- A market order. -/
  orderType : Trade.OrderType
  /-- Whether it closes what is held or opens what is asked for, which OpenD is not told. -/
  purpose : FutuPurpose
deriving DecidableEq

/-- What the trader asks of OpenD. -/
inductive FutuCall where
  | positionListQuery
  | placeOrder (order : FutuOrder)
deriving DecidableEq

/-- What each request is answered with. An order is answered with its id. -/
@[reducible]
def FutuCall.Answer : FutuCall → Type
  | .positionListQuery => FutuReturn (List FutuPosition)
  | .placeOrder _ => FutuReturn String

/-- A program that drives OpenD. -/
abbrev FutuProg (α : Type) := Prog FutuCall FutuCall.Answer String α

/-- A request to OpenD and its answer. -/
abbrev FutuEvent := CallEvent FutuCall FutuCall.Answer

/-- `OrderResult`, of this module. -/
structure FutuOrderResult where
  /-- Whether OpenD took the order. -/
  success : Bool
  /-- The id that it gave. -/
  orderId : Option String
  /-- What is told of it. -/
  message : String
deriving DecidableEq

namespace FutuTrader

/-! ## The trader -/

/-- `int(x)`. -/
def pyInt (x : ℚ) : ℤ := if x < 0 then ⌈x⌉ else ⌊x⌋

/-- `get_positions`: no positions when the query fails. -/
def getPositions : FutuProg (Option (List FutuPosition)) := do
  let answer : FutuReturn (List FutuPosition) ← Prog.call FutuCall.positionListQuery
  match answer with
  | .ok data => pure (some data)
  | .failed _ => pure none
  | .raised message => .throw message

/-- `place_order`. -/
def placeOrder (symbol : String) (qty : ℤ) (side : String) (purpose : FutuPurpose)
    (orderType : String := "MARKET") (price : Option ℚ := none) : FutuProg FutuOrderResult :=
  let futuSide : OrderSide := if Python.upper side = "BUY" then .buy else .sell
  let futuOrderType : Trade.OrderType :=
    if Python.upper orderType = "MARKET" then .market else .limit
  if futuOrderType ≠ .market ∧ price = none then
    pure ⟨false, none, "Limit price required for NORMAL orders"⟩
  else do
    let answer : FutuReturn String ← Prog.call (FutuCall.placeOrder
      ⟨price.getD 0, qty, symbol, futuSide, futuOrderType, purpose⟩)
    match answer with
    | .ok orderId => pure ⟨true, some orderId, "Order placed successfully"⟩
    | .failed message => pure ⟨false, none, message⟩
    | .raised message => .throw message

/-- The first row of a symbol. -/
def positionOf (symbol : String) (positions : List FutuPosition) : Option FutuPosition :=
  positions.find? fun p => p.code = symbol

/-- `current_qty`: positions that could not be read count as none. -/
def currentQty (symbol : String) (positions : Option (List FutuPosition)) : ℤ :=
  match positions.bind (positionOf symbol) with
  | some p => pyInt p.qty
  | none => 0

/-- An order that opens, after one that closes where there is something to close. What
became of that one is not looked at. -/
def openAfter (symbol : String) (closing : Option ℤ) (qty : ℤ) (side : String) :
    FutuProg (Option FutuOrderResult) := do
  match closing with
  | some held => do
    let _ ← placeOrder symbol held side .closing
    return some (← placeOrder symbol qty side .opening)
  | none => return some (← placeOrder symbol qty side .opening)

/-- `apply_signal`, from the position that it takes for the current one. -/
def applyTo (symbol : String) (signal : ℚ) (qty current : ℤ) : FutuProg (Option FutuOrderResult) :=
  if signal = 1 ∧ current ≤ 0 then
    openAfter symbol (if current < 0 then some |current| else none) qty "BUY"
  else if signal = -1 ∧ 0 ≤ current then
    openAfter symbol (if 0 < current then some current else none) qty "SELL"
  else if signal = 0 ∧ current ≠ 0 then do
    return some (← placeOrder symbol |current| (if 0 < current then "SELL" else "BUY") .closing)
  else pure none

/-- `apply_signal`. -/
def applySignal (symbol : String) (signal : ℚ) (qty : ℤ) : FutuProg (Option FutuOrderResult) := do
  let positions ← getPositions
  applyTo symbol signal qty (currentQty symbol positions)

/-! ## What became of the orders -/

/-- A quantity with the sign of its side. -/
def signedQty (order : FutuOrder) : ℚ :=
  match order.trdSide with
  | .buy => order.qty
  | .sell => -order.qty

/-- What an event adds to the position in a symbol. An order that goes through fills. -/
def moved (symbol : String) : FutuEvent → ℚ
  | ⟨.placeOrder order, .ok _⟩ => if order.code = symbol then signedQty order else 0
  | _ => 0

/-- The position after the orders that succeeded. -/
def positionAfter (symbol : String) (held : ℚ) (t : List FutuEvent) : ℚ :=
  held + (t.map (moved symbol)).sum

/-- The order of an event, with its purpose. -/
def orderOf? (purpose : FutuPurpose) : FutuEvent → Option FutuOrder
  | ⟨.placeOrder order, _⟩ => if order.purpose = purpose then some order else none
  | ⟨.positionListQuery, _⟩ => none

/-- The position query came back with a return code. -/
def queryFailed (e : FutuEvent) : Bool :=
  match e with
  | ⟨.positionListQuery, .failed _⟩ => true
  | _ => false

/-- An order for the purpose came back with a return code. -/
def orderFailed (purpose : FutuPurpose) (e : FutuEvent) : Bool :=
  match e with
  | ⟨.placeOrder order, .failed _⟩ => order.purpose = purpose
  | _ => false

/-- An order for the purpose went through. -/
def orderPlaced (purpose : FutuPurpose) (e : FutuEvent) : Bool :=
  match e with
  | ⟨.placeOrder order, .ok _⟩ => order.purpose = purpose
  | _ => false

/-- **A run does not over-trade.** -/
structure NeverOverTrades (symbol : String) (qty : ℤ) (held : ℚ) (t : List FutuEvent) : Prop where
  /-- No more is held afterwards than was held before, or than is asked for. -/
  bounded : |positionAfter symbol held t| ≤ max |held| qty
  /-- An order that closes is not larger than what is held. -/
  closing : ∀ order ∈ t.filterMap (orderOf? .closing), (order.qty : ℚ) ≤ |held|
  /-- Nothing is opened on a position that could not be read. -/
  unread : t.any queryFailed = true → t.filterMap (orderOf? .opening) = []
  /-- Nothing is opened while the other side has not been closed. -/
  unclosed : t.any (orderFailed .closing) = true → t.filterMap (orderOf? .opening) = []

/-- What the account holds is what an answer to the position query says of it. -/
def Reports (symbol : String) (held : ℚ) : FutuEvent → Prop
  | ⟨.positionListQuery, .ok positions⟩ => ((positionOf symbol positions).map (·.qty)).getD 0 = held
  | _ => True

/-! ## The runs of the trader -/

variable {symbol : String} {qty held : ℤ} {side : OrderSide} {word : String}
variable {purpose : FutuPurpose} {t : List FutuEvent}

/-- A market order. -/
def marketOrder (symbol : String) (qty : ℤ) (side : OrderSide) (purpose : FutuPurpose) :
    FutuOrder :=
  ⟨0, qty, symbol, side, .market, purpose⟩

/-- An order, and what came back. -/
abbrev placed (order : FutuOrder) (answer : FutuReturn String) : FutuEvent :=
  ⟨.placeOrder order, answer⟩

/-- What `place_order` makes of an answer. -/
def orderResult : FutuReturn String → Except String FutuOrderResult
  | .ok orderId => .ok ⟨true, some orderId, "Order placed successfully"⟩
  | .failed message => .ok ⟨false, none, message⟩
  | .raised message => .error message

/-- An order is one request to OpenD, and its result is the value of the return code. -/
theorem placeOrder_runs {r : Except String FutuOrderResult}
    (hside : (if Python.upper word = "BUY" then OrderSide.buy else .sell) = side) :
    Prog.Runs (placeOrder symbol qty word purpose) t r ↔
      ∃ a, t = [placed (marketOrder symbol qty side purpose) a] ∧ r = orderResult a := by
  have hmarket : Python.upper "MARKET" = "MARKET" := by decide +kernel
  have htype : ¬ ((if Python.upper "MARKET" = "MARKET" then Trade.OrderType.market else .limit)
      ≠ .market ∧ (none : Option ℚ) = none) := by
    rw [if_pos hmarket]
    exact fun h => h.1 rfl
  unfold placeOrder
  dsimp only
  rw [if_neg htype, hside, if_pos hmarket]
  refine Prog.runs_call_bind.trans ⟨?_, ?_⟩
  · rintro ⟨a, t', rfl, h⟩
    cases a with
    | ok orderId =>
      obtain ⟨rfl, rfl⟩ := Prog.runs_pure.mp h
      exact ⟨.ok orderId, rfl, rfl⟩
    | failed message =>
      obtain ⟨rfl, rfl⟩ := Prog.runs_pure.mp h
      exact ⟨.failed message, rfl, rfl⟩
    | raised message =>
      obtain ⟨rfl, rfl⟩ := Prog.runs_throw.mp h
      exact ⟨.raised message, rfl, rfl⟩
  · rintro ⟨a, rfl, rfl⟩
    refine ⟨a, [], rfl, ?_⟩
    cases a with
    | ok orderId => exact .ret _
    | failed message => exact .ret _
    | raised message => exact .throw _

/-- The events of an order that opens: after one that closes, unless that one raised. -/
inductive Opening (symbol : String) (qty : ℤ) (side : OrderSide) :
    Option ℤ → List FutuEvent → Prop where
  | direct (a : FutuReturn String) :
    Opening symbol qty side none [placed (marketOrder symbol qty side .opening) a]
  | raised (held : ℤ) (message : String) : Opening symbol qty side (some held)
    [placed (marketOrder symbol held side .closing) (.raised message)]
  | after (held : ℤ) (a b : FutuReturn String) (ha : ∀ message, a ≠ .raised message) :
    Opening symbol qty side (some held) [placed (marketOrder symbol held side .closing) a,
      placed (marketOrder symbol qty side .opening) b]

/-- What is opened after closing: the order that the signal asks for, with the result of the one
that closed as its caller has it. -/
theorem openAfter_runs {closing : Option ℤ} {r : Except String (Option FutuOrderResult)}
    (hside : (if Python.upper word = "BUY" then OrderSide.buy else .sell) = side)
    (h : Prog.Runs (openAfter symbol closing qty word) t r) :
    Opening symbol qty side closing t := by
  have hopen {t : List FutuEvent}
      (h : Prog.Runs (do return some (← placeOrder symbol qty word .opening)) t r) :
      ∃ a, t = [placed (marketOrder symbol qty side .opening) a] := by
    obtain ⟨e, he, -⟩ | ⟨x, t₁, t₂, hx, hret, rfl⟩ := Prog.runs_bind.mp h
    · obtain ⟨a, ht, -⟩ := (placeOrder_runs hside).mp he
      exact ⟨a, ht⟩
    · obtain ⟨a, rfl, -⟩ := (placeOrder_runs hside).mp hx
      obtain ⟨rfl, -⟩ := Prog.runs_pure.mp hret
      exact ⟨a, rfl⟩
  cases closing with
  | none =>
    obtain ⟨a, rfl⟩ := hopen h
    exact .direct a
  | some held =>
    obtain ⟨e, he, -⟩ | ⟨x, t₁, t₂, hx, hrest, rfl⟩ := Prog.runs_bind.mp h
    · obtain ⟨a, rfl, ha⟩ := (placeOrder_runs hside).mp he
      cases a with
      | ok orderId => cases ha
      | failed message => cases ha
      | raised message => exact .raised held message
    · obtain ⟨a, rfl, ha⟩ := (placeOrder_runs hside).mp hx
      obtain ⟨b, rfl⟩ := hopen hrest
      refine .after held a b fun message hraised => ?_
      rw [hraised] at ha
      cases ha

/-- The sign of a side. -/
def sideSign : OrderSide → ℤ
  | .buy => 1
  | .sell => -1

/-- The orders of a run, from the position that was read. -/
inductive Orders (symbol : String) (signal : ℚ) (qty current : ℤ) : List FutuEvent → Prop where
  | turn (side : OrderSide) {t : List FutuEvent} (hsignal : signal = sideSign side)
    (hagainst : sideSign side * current ≤ 0)
    (h : Opening symbol qty side (if sideSign side * current < 0 then some |current| else none) t) :
    Orders symbol signal qty current t
  | flatten (side : OrderSide) (a : FutuReturn String) (hsignal : signal = 0)
    (hagainst : sideSign side * current < 0) :
    Orders symbol signal qty current [placed (marketOrder symbol |current| side .closing) a]
  | none (h : ∀ side, signal = sideSign side → 0 < sideSign side * current)
    (hflat : signal = 0 → current = 0) : Orders symbol signal qty current []

/-- **The orders of a run**, by the signal and by the position that was read. Each branch of the
source is one case. -/
theorem applyTo_runs {signal : ℚ} {current : ℤ} {r : Except String (Option FutuOrderResult)}
    (h : Prog.Runs (applyTo symbol signal qty current) t r) :
    Orders symbol signal qty current t := by
  have hbuy : (if Python.upper "BUY" = "BUY" then OrderSide.buy else .sell) = .buy := by
    decide +kernel
  have hsell : (if Python.upper "SELL" = "BUY" then OrderSide.buy else .sell) = .sell := by
    decide +kernel
  unfold applyTo at h
  by_cases hlong : signal = 1 ∧ current ≤ 0
  · rw [if_pos hlong] at h
    have hclose : (if sideSign .buy * current < 0 then some |current| else none)
        = if current < 0 then some |current| else none := by rw [sideSign, one_mul]
    refine .turn .buy (by rw [hlong.1, sideSign, Int.cast_one]) ?_ (hclose ▸ openAfter_runs hbuy h)
    rw [sideSign, one_mul]
    exact hlong.2
  rw [if_neg hlong] at h
  by_cases hshort : signal = -1 ∧ 0 ≤ current
  · rw [if_pos hshort] at h
    have hclose : (if sideSign .sell * current < 0 then some |current| else none)
        = if 0 < current then some current else none := by
      simp only [sideSign, neg_mul, one_mul, neg_lt_zero, abs_of_nonneg hshort.2]
    refine .turn .sell (by rw [hshort.1, sideSign, Int.cast_neg, Int.cast_one]) ?_
      (hclose ▸ openAfter_runs hsell h)
    simp only [sideSign, neg_mul, one_mul]
    exact neg_nonpos.mpr hshort.2
  rw [if_neg hshort] at h
  by_cases hflat : signal = 0 ∧ current ≠ 0
  · rw [if_pos hflat] at h
    obtain ⟨side, hside, hagainst⟩ : ∃ side,
        (if Python.upper (if 0 < current then "SELL" else "BUY") = "BUY" then OrderSide.buy
          else .sell) = side ∧ sideSign side * current < 0 := by
      by_cases hpos : 0 < current
      · rw [if_pos hpos]
        exact ⟨.sell, hsell, by simpa [sideSign] using hpos⟩
      · rw [if_neg hpos]
        exact ⟨.buy, hbuy, by simpa [sideSign] using lt_of_le_of_ne (not_lt.mp hpos) hflat.2⟩
    obtain ⟨e, he, -⟩ | ⟨x, t₁, t₂, hx, hret, rfl⟩ := Prog.runs_bind.mp h
    · obtain ⟨a, rfl, -⟩ := (placeOrder_runs hside).mp he
      exact .flatten side a hflat.1 hagainst
    · obtain ⟨a, rfl, -⟩ := (placeOrder_runs hside).mp hx
      obtain ⟨rfl, -⟩ := Prog.runs_pure.mp hret
      exact .flatten side a hflat.1 hagainst
  rw [if_neg hflat] at h
  obtain ⟨rfl, -⟩ := Prog.runs_pure.mp h
  refine .none (fun side hside => ?_) fun h0 => not_not.mp fun hne => hflat ⟨h0, hne⟩
  by_contra hle
  cases side with
  | buy => exact hlong ⟨by simpa [sideSign] using hside, by simpa [sideSign] using hle⟩
  | sell => exact hshort ⟨by simpa [sideSign] using hside, by simpa [sideSign] using hle⟩

/-- **The runs of the trader**: the query, and the orders that its answer leads to. A query that
fails is taken for a flat account, a query that raises ends the call. -/
theorem applySignal_runs {signal : ℚ} {r : Except String (Option FutuOrderResult)}
    (h : Prog.Runs (applySignal symbol signal qty) t r) :
    (∃ message, t = [⟨.positionListQuery, .raised message⟩]) ∨
    (∃ message orders, t = ⟨.positionListQuery, .failed message⟩ :: orders ∧
      Orders symbol signal qty 0 orders) ∨
    ∃ positions orders, t = ⟨.positionListQuery, .ok positions⟩ :: orders ∧
      Orders symbol signal qty (currentQty symbol (some positions)) orders := by
  unfold applySignal getPositions at h
  obtain ⟨e, he, -⟩ | ⟨x, t₁, t₂, hx, hrest, rfl⟩ := Prog.runs_bind.mp h
  · obtain ⟨a, t', rfl, ha⟩ := Prog.runs_call_bind.mp he
    cases a with
    | ok positions => cases (Prog.runs_pure.mp ha).2
    | failed message => cases (Prog.runs_pure.mp ha).2
    | raised message =>
      obtain ⟨rfl, -⟩ := Prog.runs_throw.mp ha
      exact .inl ⟨message, rfl⟩
  · obtain ⟨a, t', rfl, ha⟩ := Prog.runs_call_bind.mp hx
    cases a with
    | ok positions =>
      obtain ⟨rfl, hread⟩ := Prog.runs_pure.mp ha
      obtain rfl := Except.ok.inj hread
      exact .inr (.inr ⟨positions, t₂, rfl, applyTo_runs hrest⟩)
    | failed message =>
      obtain ⟨rfl, hread⟩ := Prog.runs_pure.mp ha
      obtain rfl := Except.ok.inj hread
      exact .inr (.inl ⟨message, t₂, rfl, applyTo_runs hrest⟩)
    | raised message => cases (Prog.runs_throw.mp ha).2

/-! ## When a run over-trades -/

variable {x : ℚ}

/-- A position that is not negative is cut to the whole shares in it. -/
theorem pyInt_nonneg (hx : 0 ≤ x) : 0 ≤ pyInt x ∧ (pyInt x : ℚ) ≤ x ∧ x < pyInt x + 1 := by
  rw [pyInt, if_neg (not_lt.mpr hx)]
  exact ⟨Int.floor_nonneg.mpr hx, Int.floor_le x, Int.lt_floor_add_one x⟩

/-- And one that is negative is cut in the same way, towards zero. -/
theorem pyInt_neg (x : ℚ) : pyInt (-x) = -pyInt x := by
  unfold pyInt
  rcases lt_trichotomy x 0 with hx | rfl | hx
  · rw [if_neg (not_lt.mpr (neg_nonneg.mpr hx.le)), if_pos hx, Int.floor_neg]
  · simp
  · rw [if_pos (neg_lt_zero.mpr hx), if_neg (not_lt.mpr hx.le), Int.ceil_neg]

/-- Closing what is held in whole units leaves less than one of them. -/
theorem pyInt_nonpos (hx : x ≤ 0) : pyInt x ≤ 0 ∧ x ≤ pyInt x ∧ (pyInt x : ℚ) - 1 < x := by
  obtain ⟨h1, h2, h3⟩ := pyInt_nonneg (neg_nonneg.mpr hx)
  rw [pyInt_neg] at h1 h2 h3
  push_cast at h2 h3
  exact ⟨neg_nonneg.mp h1, by linarith, by linarith⟩

/-- What may go wrong does not: with a signal to take a side, the query does not fail, no
order that closes does, and no part of a unit is held on the side already when an order
that opens goes through. -/
def Heeded (signal held : ℚ) (t : List FutuEvent) : Prop :=
  signal = 0 ∨ (t.any queryFailed = false ∧ t.any (orderFailed .closing) = false ∧
    ¬ (0 < signal * held ∧ signal * held < 1 ∧ t.any (orderPlaced .opening) = true))

/-! ### Sides -/

@[simp] theorem sideSign_ne_zero (side : OrderSide) : sideSign side ≠ 0 := by
  cases side <;> decide

/-- What an order changes the position by, if it fills. -/
theorem signedQty_marketOrder :
    signedQty (marketOrder symbol qty side purpose) = sideSign side * (qty : ℚ) := by
  cases side <;> simp [signedQty, marketOrder, sideSign]

/-- Distances are alike on both sides. -/
theorem abs_add_side (side : OrderSide) (x y : ℚ) :
    |x + sideSign side * y| = |sideSign side * x + y| := by
  cases side with
  | buy => simp [sideSign]
  | sell =>
    simp only [sideSign, Int.cast_neg, Int.cast_one, neg_mul, one_mul]
    rw [← abs_neg, neg_add, neg_neg]

/-- The side does not change how much it is. -/
theorem abs_side (side : OrderSide) (x : ℚ) : |sideSign side * x| = |x| := by
  cases side <;> simp [sideSign]

theorem pyInt_side (side : OrderSide) (x : ℚ) :
    pyInt (sideSign side * x) = sideSign side * pyInt x := by
  cases side with
  | buy => simp [sideSign]
  | sell =>
    simp only [sideSign, Int.cast_neg, Int.cast_one, neg_mul, one_mul]
    exact pyInt_neg x

/-- What is held against a side is as much as it is on the other. -/
theorem abs_against {current : ℤ} (h : sideSign side * current ≤ 0) :
    |current| = -(sideSign side * current) := by
  cases side with
  | buy =>
    rw [sideSign, one_mul] at h ⊢
    exact abs_of_nonpos h
  | sell =>
    simp only [sideSign, neg_mul, one_mul, neg_neg] at h ⊢
    exact abs_of_nonneg (neg_nonpos.mp h)

/-- The position after an event and the others is the one after the others, from what the event
has made of it. -/
theorem positionAfter_cons {held : ℚ} {e : FutuEvent} :
    positionAfter symbol held (e :: t) = positionAfter symbol (held + moved symbol e) t := by
  rw [positionAfter, positionAfter, List.map_cons, List.sum_cons, add_assoc]

/-- Nothing has been moved before the first event. -/
@[simp] theorem positionAfter_nil {held : ℚ} : positionAfter symbol held [] = held := by
  simp [positionAfter]

/-- An order that OpenD takes moves the position by all of it. -/
theorem moved_ok {orderId : String} :
    moved symbol (placed (marketOrder symbol qty side purpose) (.ok orderId))
      = sideSign side * (qty : ℚ) :=
  (if_pos rfl).trans signedQty_marketOrder

/-- A position that is read as it is has the whole shares that are held. -/
theorem currentQty_eq {held : ℚ} {positions : List FutuPosition}
    (h : Reports symbol held ⟨.positionListQuery, .ok positions⟩) :
    currentQty symbol (some positions) = pyInt held := by
  obtain rfl := h
  unfold currentQty
  cases hp : positionOf symbol positions with
  | none => simp [hp, pyInt]
  | some p => simp [hp]

/-! ### The two ways to trade -/

section

variable {held : ℚ} {current : ℤ} {positions : List FutuPosition} {orders : List FutuEvent}

/-- The query, answered. -/
abbrev answered (positions : List FutuPosition) : FutuEvent :=
  ⟨.positionListQuery, .ok positions⟩

/-- The same of the side as a number. -/
theorem sideSign_cast_ne_zero (side : OrderSide) : (sideSign side : ℚ) ≠ 0 :=
  Int.cast_ne_zero.mpr (sideSign_ne_zero side)

/-- What is held on a side, when what is read is not against it. -/
theorem side_read (hcurrent : current = pyInt held) :
    pyInt (sideSign side * held) = sideSign side * current := by
  rw [pyInt_side, hcurrent]

/-- Turning a position: what is held against the side is less than a unit once it is
closed. -/
theorem turn_bounded (hcurrent : current = pyInt held) (hagainst : sideSign side * current < 0) :
    ((|current| : ℤ) : ℚ) ≤ |held| ∧ -1 < sideSign side * held + (|current| : ℤ) ∧
      sideSign side * held + (|current| : ℤ) ≤ 0 ∧ sideSign side * held < 0 := by
  have hread : pyInt (sideSign side * held) = sideSign side * current := side_read hcurrent
  have hheld : sideSign side * held < 0 := by
    by_contra hle
    have hnonneg := (pyInt_nonneg (not_lt.mp hle)).1
    rw [hread] at hnonneg
    exact absurd hagainst (not_lt.mpr hnonneg)
  obtain ⟨-, hle, hlt⟩ := pyInt_nonpos hheld.le
  rw [hread] at hle hlt
  rw [abs_against hagainst.le, ← abs_side side held, abs_of_neg hheld]
  push_cast at hle hlt ⊢
  exact ⟨by linarith, by linarith, by linarith, hheld⟩

/-- What is held in a symbol of which nothing is read is less than a unit. -/
theorem flat_bounded (hcurrent : current = pyInt held) (hflat : sideSign side * current = 0) :
    -1 < sideSign side * held ∧ sideSign side * held < 1 := by
  have hread : pyInt (sideSign side * held) = 0 := (side_read hcurrent).trans hflat
  rcases le_total 0 (sideSign side * held) with hpos | hneg
  · obtain ⟨-, -, hlt⟩ := pyInt_nonneg hpos
    rw [hread] at hlt
    exact ⟨by linarith, by simpa using hlt⟩
  · obtain ⟨-, -, hlt⟩ := pyInt_nonpos hneg
    rw [hread] at hlt
    exact ⟨by simpa using hlt, by linarith⟩

/-- Orders that go through on a side move the position along it. -/
theorem positionAfter_side (side : OrderSide) (x : ℚ)
    (h : positionAfter symbol held t = held + sideSign side * x) :
    |positionAfter symbol held t| = |sideSign side * held + x| := by
  rw [h, abs_add_side]

/-- **Both return codes are heeded** exactly when neither request failed and no fraction of a
share was taken for nothing to close. -/
theorem heeded_iff : Heeded (sideSign side) held t ↔
    t.any queryFailed = false ∧ t.any (orderFailed .closing) = false ∧
      ¬ (0 < sideSign side * held ∧ sideSign side * held < 1 ∧
        t.any (orderPlaced .opening) = true) :=
  or_iff_right (sideSign_cast_ne_zero side)

/-- Reading moves nothing. -/
theorem moved_answered : moved symbol (answered positions) = 0 := rfl

theorem moved_unplaced {order : FutuOrder} {a : FutuReturn String}
    (ha : ∀ orderId, a ≠ .ok orderId) : moved symbol (placed order a) = 0 := by
  cases a with
  | ok orderId => exact absurd rfl (ha orderId)
  | failed message => rfl
  | raised message => rfl

/-- An order that opens on its own. -/
theorem direct_iff (hqty : 0 < qty) (hcurrent : current = pyInt held)
    (hflat : sideSign side * current = 0) (a : FutuReturn String) :
    NeverOverTrades symbol qty held
        [answered positions, placed (marketOrder symbol qty side .opening) a] ↔
      Heeded (sideSign side) held
        [answered positions, placed (marketOrder symbol qty side .opening) a] := by
  have hone : (1 : ℚ) ≤ qty := by exact_mod_cast hqty
  obtain ⟨hlow, hhigh⟩ := flat_bounded hcurrent hflat
  -- no order closes, and the query did not fail: only the bound can go wrong
  have hbound : NeverOverTrades symbol qty held
        [answered positions, placed (marketOrder symbol qty side .opening) a] ↔
      |positionAfter symbol held [answered positions,
        placed (marketOrder symbol qty side .opening) a]| ≤ max |held| qty := by
    refine ⟨NeverOverTrades.bounded, fun hb => ⟨hb, fun order horder => ?_, fun hfailed => ?_,
      fun hfailed => ?_⟩⟩
    · simp [orderOf?, marketOrder] at horder
    · simp [queryFailed] at hfailed
    · cases a <;> simp [orderFailed, marketOrder] at hfailed
  rw [hbound, heeded_iff]
  by_cases ha : ∃ orderId, a = .ok orderId
  · obtain ⟨orderId, rfl⟩ := ha
    rw [positionAfter_side side qty
      (by rw [positionAfter_cons, positionAfter_cons, moved_ok, moved_answered, add_zero,
        positionAfter_nil]), ← abs_side side held]
    have hplaced : [answered positions, placed (marketOrder symbol qty side .opening)
        (.ok orderId)].any (orderPlaced .opening) = true := by
      simp [orderPlaced, marketOrder]
    simp only [hplaced, and_true, queryFailed, orderFailed, List.any_cons, List.any_nil,
      Bool.or_false, true_and]
    constructor
    · rintro hle ⟨hpos, -⟩
      rw [abs_of_pos hpos, abs_of_pos (by linarith)] at hle
      rcases le_max_iff.mp hle with h | h <;> linarith
    · intro hpart
      have hside : sideSign side * held ≤ 0 ∨ 1 ≤ sideSign side * held := by
        by_contra hno
        rw [not_or, not_le, not_le] at hno
        exact hpart hno
      have : sideSign side * held ≤ 0 := by
        rcases hside with h | h
        · exact h
        · linarith
      rw [abs_of_nonneg (by linarith)]
      exact le_max_of_le_right (by linarith)
  · have ha' : ∀ orderId, a ≠ .ok orderId := fun orderId h => ha ⟨orderId, h⟩
    rw [positionAfter_cons, positionAfter_cons, moved_unplaced ha', moved_answered,
      add_zero, add_zero, positionAfter_nil]
    refine iff_of_true (le_max_left _ _) ?_
    cases a with
    | ok orderId => exact absurd rfl (ha' orderId)
    | failed message => simp [queryFailed, orderFailed, orderPlaced, marketOrder]
    | raised message => simp [queryFailed, orderFailed, orderPlaced]

/-- An order that opens after one that closes. -/
theorem after_iff (hqty : 0 < qty) (hcurrent : current = pyInt held)
    (hagainst : sideSign side * current < 0) {a : FutuReturn String}
    (ha : ∀ message, a ≠ .raised message) (b : FutuReturn String) :
    NeverOverTrades symbol qty held
        [answered positions, placed (marketOrder symbol |current| side .closing) a,
          placed (marketOrder symbol qty side .opening) b] ↔
      Heeded (sideSign side) held
        [answered positions, placed (marketOrder symbol |current| side .closing) a,
          placed (marketOrder symbol qty side .opening) b] := by
  have hone : (1 : ℚ) ≤ qty := by exact_mod_cast hqty
  obtain ⟨hclose, hlow, hhigh, hheld⟩ := turn_bounded hcurrent hagainst
  rw [heeded_iff]
  cases a with
  | raised message => exact absurd rfl (ha message)
  | failed message =>
    refine iff_of_false (fun h => ?_) fun h => ?_
    · simpa [orderFailed, orderOf?, marketOrder] using h.unclosed
    · simpa [orderFailed, marketOrder] using h.2.1
  | ok orderId =>
    refine iff_of_true ⟨?_, fun order horder => ?_, fun hfailed => ?_, fun hfailed => ?_⟩
      ⟨?_, ?_, fun h => absurd h.1 (not_lt.mpr hheld.le)⟩
    · by_cases hb : ∃ orderId, b = .ok orderId
      · obtain ⟨_, rfl⟩ := hb
        rw [positionAfter_side side ((|current| : ℤ) + qty)
          (by rw [positionAfter_cons, positionAfter_cons, positionAfter_cons, moved_ok, moved_ok,
            moved_answered, add_zero, positionAfter_nil, mul_add, add_assoc]), ← add_assoc,
          abs_of_nonneg (by linarith)]
        exact le_max_of_le_right (by linarith)
      · rw [positionAfter_side side (|current| : ℤ)
          (by rw [positionAfter_cons, positionAfter_cons, positionAfter_cons, moved_ok,
            moved_unplaced (fun orderId h => hb ⟨orderId, h⟩), moved_answered, add_zero, add_zero,
            positionAfter_nil]), abs_of_nonpos hhigh]
        refine le_max_of_le_left ?_
        rw [← abs_side side held, abs_of_neg hheld]
        have : (0 : ℚ) ≤ (|current| : ℤ) := by exact_mod_cast abs_nonneg current
        linarith
    · obtain rfl : marketOrder symbol |current| side .closing = order := by
        simpa [orderOf?, marketOrder, eq_comm] using horder
      exact hclose
    · simp [queryFailed] at hfailed
    · cases b <;> simp [orderFailed, marketOrder] at hfailed
    · simp [queryFailed]
    · cases b <;> simp [orderFailed, marketOrder]

/-- An order that closes, and no order after it. -/
theorem closed_of_closing (hcurrent : current = pyInt held)
    (hagainst : sideSign side * current < 0) (a : FutuReturn String) :
    NeverOverTrades symbol qty held
      [answered positions, placed (marketOrder symbol |current| side .closing) a] := by
  obtain ⟨hclose, hlow, hhigh, hheld⟩ := turn_bounded hcurrent hagainst
  refine ⟨le_max_of_le_left ?_, fun order horder => ?_, fun _ => ?_, fun _ => ?_⟩
  · by_cases ha : ∃ orderId, a = .ok orderId
    · obtain ⟨orderId, rfl⟩ := ha
      rw [positionAfter_side side (|current| : ℤ)
        (by rw [positionAfter_cons, positionAfter_cons, moved_ok, moved_answered, add_zero,
          positionAfter_nil]), abs_of_nonpos hhigh, ← abs_side side held, abs_of_neg hheld]
      have : (0 : ℚ) ≤ (|current| : ℤ) := by exact_mod_cast abs_nonneg current
      linarith
    · rw [positionAfter_cons, positionAfter_cons,
        moved_unplaced (fun orderId h => ha ⟨orderId, h⟩), moved_answered, add_zero, add_zero,
        positionAfter_nil]
  · obtain rfl : marketOrder symbol |current| side .closing = order := by
      simpa [orderOf?, marketOrder, eq_comm] using horder
    exact hclose
  · simp [orderOf?, marketOrder]
  · simp [orderOf?, marketOrder]

/-- Where no order is sent, what is held stays. -/
theorem kept_of_no_order {e : FutuEvent} (hmoved : moved symbol e = 0)
    (horder : ∀ purpose, orderOf? purpose e = none) : NeverOverTrades symbol qty held [e] := by
  refine ⟨?_, fun order hmem => ?_, fun _ => ?_, fun _ => ?_⟩
  · rw [positionAfter_cons, hmoved, add_zero, positionAfter_nil]
    exact le_max_left _ _
  · simp [horder] at hmem
  · simp [horder]
  · simp [horder]

/-- Positions that could not be read, taken for none. -/
theorem unread_iff {signal : ℚ} {message : String}
    (hsignal : signal = -1 ∨ signal = 0 ∨ signal = 1) (h : Orders symbol signal qty 0 orders) :
    NeverOverTrades symbol qty held (⟨.positionListQuery, .failed message⟩ :: orders) ↔
      Heeded signal held (⟨.positionListQuery, .failed message⟩ :: orders) := by
  cases h with
  | turn side hside hagainst h =>
    rw [mul_zero, if_neg (lt_irrefl 0)] at h
    cases h with
    | direct a =>
      rw [hside, heeded_iff]
      refine iff_of_false (fun h => ?_) fun h => ?_
      · simpa [queryFailed, orderOf?, marketOrder] using h.unread
      · simpa [queryFailed] using h.1
  | flatten side a h0 hagainst => exact absurd hagainst (by simp)
  | none hside hflat =>
    refine iff_of_true (kept_of_no_order rfl fun _ => rfl) (.inl ?_)
    rcases hsignal with h | h | h
    · exact absurd (hside .sell (by simp [h, sideSign])) (by simp)
    · exact h
    · exact absurd (hside .buy (by simp [h, sideSign])) (by simp)

/-- Positions that were read. -/
theorem read_iff {signal : ℚ} (hqty : 0 < qty) (hcurrent : current = pyInt held)
    (h : Orders symbol signal qty current orders) :
    NeverOverTrades symbol qty held (answered positions :: orders) ↔
      Heeded signal held (answered positions :: orders) := by
  cases h with
  | turn side hside hagainst h =>
    rw [hside]
    rcases hagainst.lt_or_eq with hlt | heq
    · rw [if_pos hlt] at h
      cases h with
      | raised n message =>
        refine iff_of_true ?_ (heeded_iff.mpr ?_)
        · exact closed_of_closing hcurrent hlt (.raised message)
        · simp [queryFailed, orderFailed, orderPlaced]
      | after n a b ha => exact after_iff hqty hcurrent hlt ha b
    · rw [if_neg (not_lt.mpr heq.ge)] at h
      cases h with
      | direct a => exact direct_iff hqty hcurrent heq a
  | flatten side a h0 hagainst =>
    exact iff_of_true (closed_of_closing hcurrent hagainst a) (.inl h0)
  | none hside hflat =>
    refine iff_of_true (kept_of_no_order rfl fun _ => rfl) ?_
    exact .inr (by simp [queryFailed, orderFailed, orderPlaced])

end

variable {signal : ℚ} {r : Except String (Option FutuOrderResult)}

/-- **When a signal over-trades.** With a side to take, a run stays within what it held or
is to hold, closes no more than was there and opens nothing blindly exactly where nothing
goes wrong before the order that opens – and where no part of a unit is on the side
already, which reads as nothing. -/
theorem applySignal_never_over_trades {held : ℚ} (hsignal : signal = -1 ∨ signal = 0 ∨ signal = 1)
    (hqty : 0 < qty) (hreports : ∀ e ∈ t, Reports symbol held e)
    (h : Prog.Runs (applySignal symbol signal qty) t r) :
    NeverOverTrades symbol qty held t ↔ Heeded signal held t := by
  obtain ⟨message, rfl⟩ | ⟨message, orders, rfl, horders⟩ | ⟨positions, orders, rfl, horders⟩ :=
    applySignal_runs h
  · refine iff_of_true (kept_of_no_order rfl fun _ => rfl) (.inr ?_)
    simp [queryFailed, orderFailed, orderPlaced]
  · exact unread_iff hsignal horders
  · exact read_iff hqty (currentQty_eq (hreports _ List.mem_cons_self)) horders

/-- OpenD with a short position, and room for every order. -/
def shortOfFive (_ : List FutuEvent) : (c : FutuCall) → c.Answer
  | .positionListQuery => .ok [⟨"US.WEAT", -5⟩]
  | .placeOrder _ => .ok "1"

/-- A short position, turned long. -/
theorem shortOfFive_turned :
    NeverOverTrades "US.WEAT" 10 (-5) ((applySignal "US.WEAT" 1 10).play shortOfFive []).1 ↔
      Heeded 1 (-5) ((applySignal "US.WEAT" 1 10).play shortOfFive []).1 :=
  applySignal_never_over_trades (.inr (.inr rfl)) (by decide)
    (Prog.play_forall (fun past c => by cases c <;> simp [Reports, shortOfFive, positionOf]) _ _)
    (Prog.play_runs shortOfFive _ [])

/-- The query fails while five are held: another ten are bought. -/
theorem longOfFive_doubled :
    ¬ ∀ (symbol : String) (signal : ℚ) (qty : ℤ) (held : ℚ) (t : List FutuEvent)
        (r : Except String (Option FutuOrderResult)),
      (signal = -1 ∨ signal = 0 ∨ signal = 1) → 0 < qty → (∀ e ∈ t, Reports symbol held e) →
        Prog.Runs (applySignal symbol signal qty) t r → NeverOverTrades symbol qty held t := by
  intro hall
  have hbuy : (if Python.upper "BUY" = "BUY" then OrderSide.buy else .sell) = .buy := by
    decide +kernel
  have hrun : Prog.Runs (applySignal "US.WEAT" 1 10)
      ([⟨.positionListQuery, .failed "disconnected"⟩] ++
        ([placed (marketOrder "US.WEAT" 10 .buy .opening) (.ok "1")] ++ []))
      (.ok (some ⟨true, some "1", "Order placed successfully"⟩)) := by
    unfold applySignal
    refine Prog.runs_bind.mpr (.inr ⟨none, _, _, ?_, ?_, rfl⟩)
    · exact Prog.runs_call_bind.mpr ⟨FutuReturn.failed "disconnected", [], rfl, .ret _⟩
    · rw [applyTo, if_pos ⟨rfl, le_rfl⟩]
      exact Prog.runs_bind.mpr (.inr ⟨_, _, [],
        (placeOrder_runs hbuy).mpr ⟨.ok "1", rfl, rfl⟩, .ret _, rfl⟩)
  have hno := hall "US.WEAT" 1 10 5 _ _ (.inr (.inr rfl)) (by decide)
    (by simp [Reports]) hrun
  simpa [queryFailed, orderOf?, marketOrder] using hno.unread

end FutuTrader
