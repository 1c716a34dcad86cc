import QuantStrategies.Trade.Ccxt

/-!
# The ccxt adapter

What an order goes through at the adapter: what the key's profile already says
about it, the venue's size rules, `create_order`, and the poll of the order that
the venue acknowledged until it is known to be over or the poll's budget is
spent.

An acknowledged order comes back in one of three ways: as filled, with a reason,
or as unconfirmed under its own id (`confirmMarketOrder_result`). In particular
an order whose fate is unknown to the poll is never lost from the result, and it
is this that lets the executor cancel it.

So the executor can tell from the result alone what it has to do: an order that is filled,
or that was refused for a reason, is over, and one that may still be open carries the id
that it can be cancelled under.
-/

/-- `MarketLimits`. -/
structure MarketLimits (F : Type) where
  /-- Which market they are the limits of. -/
  symbol : String
  /-- The smallest quantity, if there is one. -/
  minQty : Option F
  /-- The smallest value, if there is one. -/
  minNotional : Option F

/-- `ApiKeyInfo`, as far as an order is judged by it. -/
structure ApiKeyInfo where
  /-- The region that the holder of the key is registered in. -/
  kycRegion : Option String
  /-- Whether the key may only read. -/
  readOnly : Option Bool

/-- `KeyProfile`. -/
structure KeyProfile where
  /-- The route on which the key was accepted. -/
  route : String
  /-- What the venue says of the key. -/
  info : Option ApiKeyInfo
  /-- The kinds of markets that it has been refused for so far. -/
  restrictedMarketTypes : List String

namespace KeyProfile

/-- `refusal`: why an order of the market type cannot succeed on this key. -/
def refusal (p : KeyProfile) (marketType : String) : Option (OrderRejectReason × String) :=
  if p.info.any (·.readOnly = some true) then
    some (.keyReadOnly, "API key is read-only — enable trading on it at the venue")
  else if p.restrictedMarketTypes.contains marketType then
    let region := ((p.info.bind (·.kycRegion)).filter (· != "")).getD "unknown"
    some (.regionRestricted,
      s!"venue refuses {marketType} for this account (KYC region {region})")
  else none

/-- `restricting`. -/
def restricting (p : KeyProfile) (marketType : String) : KeyProfile :=
  { p with restrictedMarketTypes := p.restrictedMarketTypes ++ [marketType] }

end KeyProfile

/-- `CcxtTradeAdapter`: a session, the poll schedule, and what is known of the
key so far. -/
structure CcxtAdapter (F : Type) where
  /-- The session that its calls go through. -/
  session : CcxtSession
  /-- How long is waited before each poll of an order, in seconds. -/
  confirmDelaysS : List F
  /-- What is known of the key, if anything. -/
  keyProfile : Option KeyProfile

variable {F : Type} [PyFloat F]

/-- `MarketLimits.undersized`: why the venue would refuse the size. -/
def MarketLimits.undersized (limits : MarketLimits F) (qty : F) (price : Option F) :
    Option String :=
  if PyFloat.le qty 0 then none
  else if limits.minQty.any (PyFloat.lt qty) then
    limits.minQty.map fun minQty =>
      s!"qty {PyFloat.showG qty} is below {limits.symbol} min qty {PyFloat.showG minQty}"
  else
    match limits.minNotional, price with
    | some minNotional, some price =>
      if PyFloat.lt (qty * price) minNotional then
        some (s!"notional {PyFloat.showG (qty * price)} is below {limits.symbol} " ++
          s!"min notional {PyFloat.showG minNotional}")
      else none
    | _, _ => none

/-! ## The fill of an order -/

/-- `_FillStatus`. -/
structure FillStatus (F : Type) where
  /-- Whether the order is over and filled. -/
  success : Bool
  /-- The id that was polled. -/
  vendorOrderId : Option String
  /-- What an operator is told. -/
  message : String
  /-- The status that was read. -/
  rawStatus : Option String
  /-- Why it was refused, where it was. -/
  reason : Option OrderRejectReason := none
  /-- How much of it filled. -/
  filledQty : Option F := none
  /-- At which price on average. -/
  avgPrice : Option F := none
  /-- What was charged. -/
  fee : Option F := none
  /-- In which currency. -/
  feeCcy : Option String := none

/-- `_fee_ccy`. -/
def feeCcy (value : Option String) : Option String :=
  (value.map Python.strip).filter (· != "")

/-- The statuses in which an order ended before it was done. -/
def endedEarly : List String :=
  ["canceled", "cancelled", "expired"]

/-- `_parse_terminal`: the fill of an order that reached a terminal state. -/
def parseTerminal (order : CcxtOrder F) (vendorOrderId : Option String) : Option (FillStatus F) :=
  let status := String.ofList (Python.lower (order.status.getD ""))
  let filled := order.filled.getD 0
  let oid := order.id <|> vendorOrderId
  if status = "closed" || (PyFloat.lt 0 filled && endedEarly.contains status) then
    some { success := true, vendorOrderId := oid, message := "order filled",
           rawStatus := some (if status = "" then "closed" else status),
           filledQty := some filled, avgPrice := order.average,
           fee := order.fee.bind (·.cost), feeCcy := feeCcy (order.fee.bind (·.currency)) }
  else if status = "rejected" || (PyFloat.eq filled 0 && endedEarly.contains status) then
    some { success := false, vendorOrderId := oid,
           message := "order rejected status=" ++ (if status = "" then "unknown" else status),
           rawStatus := some status, reason := some .venueRejected }
  else none

/-- `_unconfirmed`: the fill is unknown. -/
def unconfirmed (req : OrderRequest F) (vendorOrderId : String) (lastStatus : Option String)
    (delaysS : List F) : OrderResult F where
  success := false
  vendorOrderId := some vendorOrderId
  message := s!"fill unconfirmed after {PyFloat.showTenths (PyFloat.sum delaysS)}s — " ++
    s!"vendor_order_id={vendorOrderId} requires manual reconciliation" ++
    ((lastStatus.filter (· != "")).elim "" fun last => s!" (last status={Python.repr last})")
  rawStatus := lastStatus
  side := some req.side
  requestedQty := some req.qty

/-- The result of a poll that ended in a typed refusal. -/
def refusedPoll (req : OrderRequest F) (vendorOrderId : String) (e : Raised)
    (reason : OrderRejectReason) : OrderResult F where
  success := false
  vendorOrderId := some vendorOrderId
  message := e.message
  reason := some reason
  side := some req.side
  requestedQty := some req.qty

/-- The result of a poll that saw the order's end. -/
def settledPoll (req : OrderRequest F) (fill : FillStatus F) : OrderResult F where
  success := fill.success
  vendorOrderId := fill.vendorOrderId
  message := fill.message
  reason := fill.reason
  rawStatus := fill.rawStatus
  side := some req.side
  requestedQty := some req.qty
  filledQty := fill.filledQty
  avgPrice := fill.avgPrice
  fee := fill.fee
  feeCcy := fill.feeCcy

/-- The loop of `confirm_market_order`, with the delays slept so far and those
still ahead. -/
def confirmLoop (s : CcxtSession) (req : OrderRequest F) (vendorOrderId : String) :
    (sleptS aheadS : List F) → (lastStatus : Option String) → VenueProg F (OrderResult F)
  | sleptS, [], lastStatus => pure (unconfirmed req vendorOrderId lastStatus sleptS)
  | sleptS, delay :: aheadS, lastStatus => do
    venueCall (.sleep delay)
    let polled ← (s.fetchOrder vendorOrderId req.symbol).attempt
    match polled with
    | .error (.orderNotFound _) =>
      confirmLoop s req vendorOrderId (sleptS ++ [delay]) aheadS lastStatus
    | .error e =>
      if e.isConnectionError then
        match e.reason with
        | some reason => pure (refusedPoll req vendorOrderId e reason)
        | none => pure (unconfirmed req vendorOrderId lastStatus (sleptS ++ [delay]))
      else .throw e
    | .ok order =>
      match parseTerminal order (some vendorOrderId) with
      | some fill => pure (settledPoll req fill)
      | none => confirmLoop s req vendorOrderId (sleptS ++ [delay]) aheadS order.status

/-- `confirm_market_order`. -/
def confirmMarketOrder (s : CcxtSession) (req : OrderRequest F) (vendorOrderId : String)
    (delaysS : List F) : VenueProg F (OrderResult F) :=
  confirmLoop s req vendorOrderId [] delaysS none

/-! ## The adapter -/

namespace CcxtAdapter

variable (a : CcxtAdapter F)

/-- `_market_type`. -/
def marketType : String :=
  (a.session.defaultType.filter (· != "")).getD
    ((a.session.preset.defaultType.filter (· != "")).getD "default")

/-- `get_position_qty`. -/
def getPositionQty (symbol : String) : VenueProg F F :=
  a.session.fetchPositionQty symbol

/-- `fetch_market_limits`: a market that cannot be looked up enforces nothing. -/
def fetchMarketLimits (symbol : String) : VenueProg F (MarketLimits F) := do
  let answer : Except VenueRaise (CcxtMarket F) ← venueCall (.market symbol)
  match answer with
  | .ok market => pure ⟨symbol, market.minAmount, market.minCost⟩
  | .error (.ccxt ..) => pure ⟨symbol, none, none⟩
  | .error (.other text) => .throw (.other text)

/-- `get_last_price`: best effort, so that a broker error is no price. -/
def getLastPrice (symbol : String) : VenueProg F (Option F) := do
  let price ← (a.session.fetchLastPrice symbol).attempt
  match price with
  | .ok price => pure price
  | .error e => if e.isConnectionError then pure none else .throw e

/-- `_undersized`. -/
def undersized (req : OrderRequest F) : VenueProg F (Option String) := do
  let limits ← fetchMarketLimits req.symbol
  if limits.minNotional.isSome then do
    let price ← a.getLastPrice req.symbol
    pure (limits.undersized req.qty price)
  else pure (limits.undersized req.qty none)

/-- `_key_refusal`. -/
def keyRefusal : Option (OrderRejectReason × String) :=
  a.keyProfile.bind (·.refusal a.marketType)

/-- The key profile after a refused order, which may be for a product that the
venue will not offer this account. -/
def profileAfter (reason : Option OrderRejectReason) : Option KeyProfile :=
  if reason = some .regionRestricted then a.keyProfile.map (·.restricting a.marketType)
  else a.keyProfile

/-- `_rejected`: an order that did not reach the book. -/
def rejected (req : OrderRequest F) (message : String) (reason : Option OrderRejectReason) :
    OrderResult F where
  success := false
  vendorOrderId := none
  message := message
  reason := reason
  side := some req.side
  requestedQty := some req.qty

/-- The result of an order that the venue gave no id. -/
def notAcknowledged (req : OrderRequest F) (raw : CcxtOrder F) : OrderResult F where
  success := false
  vendorOrderId := none
  message := "create_order returned no order id"
  reason := some .notAcknowledged
  rawStatus := raw.status
  side := some req.side
  requestedQty := some req.qty

/-- ccxt's word for a side. -/
def sideWord : OrderSide → String
  | .buy => "buy"
  | .sell => "sell"

/-- The part of `place_order` that submits. The key profile that it leaves comes
with the result. -/
def submit (req : OrderRequest F) : VenueProg F (Option KeyProfile × OrderResult F) := do
  let created ← (a.session.createMarketOrder req.symbol (sideWord req.side) req.qty).attempt
  match created with
  | .error e =>
    if e.isConnectionError then pure (a.profileAfter e.reason, rejected req e.message e.reason)
    else .throw e
  | .ok raw =>
    match raw.id with
    | none => pure (a.keyProfile, notAcknowledged req raw)
    | some orderId => do
      let result ← confirmMarketOrder a.session req orderId a.confirmDelaysS
      pure (a.keyProfile, result)

/-- `place_order`. -/
def placeOrder (req : OrderRequest F) : VenueProg F (Option KeyProfile × OrderResult F) :=
  if req.orderType ≠ .market then
    .throw (.tradeValidation "LIMIT orders not supported by the ccxt adapter — market only")
  else if a.session.preset.defaultTypeByIssue ≠ [] ∧ a.session.defaultType = none then
    .throw (.tradeValidation
      s!"{a.session.preset.exchangeLabel} order needs the instrument ISSUE_TYPE")
  else
    match a.keyRefusal with
    | some (reason, message) => pure (a.keyProfile, rejected req message (some reason))
    | none => do
      let small ← a.undersized req
      match small with
      | some message => pure (a.keyProfile, rejected req message (some .sizeBelowMinimum))
      | none => a.submit req

/-- `cancel_order`. -/
def cancelOrder (vendorOrderId vendorSymbol : String) : VenueProg F (OrderResult F) := do
  let canceled ← (a.session.cancelOrder vendorOrderId vendorSymbol).attempt
  match canceled with
  | .error e =>
    if e.isConnectionError then
      pure { success := false, vendorOrderId := some vendorOrderId, message := e.message }
    else .throw e
  | .ok raw =>
    pure { success := true, vendorOrderId := some vendorOrderId, message := "order canceled",
           rawStatus := raw.status }

end CcxtAdapter

/-! ## What an order leaves behind -/

/-- The call submits or cancels an order. -/
def VenueCall.writes : VenueCall F → Bool
  | .createOrder .. | .cancelOrder .. => true
  | _ => false

/-- The call looks at the account or at the market, and at no order. -/
def VenueCall.looks : VenueCall F → Bool
  | .createOrder .. | .cancelOrder .. | .fetchOrder .. => false
  | _ => true

/-- A record with no order and no cancel in it. -/
def Quiet (t : List (VenueEvent F)) : Prop :=
  ∀ e ∈ t, e.1.writes = false

/-- A program that submits and cancels nothing. -/
abbrev Prog.Reads {α : Type} (p : VenueProg F α) : Prop :=
  p.Only fun c => c.writes = false

/-- A program that knows of no order. -/
abbrev Prog.Looks {α : Type} (p : VenueProg F α) : Prop :=
  p.Only fun c => c.looks = true

omit [PyFloat F] in
/-- A program that only looks does not submit, and does not cancel either. -/
theorem Prog.Looks.reads {α : Type} {p : VenueProg F α} (hp : p.Looks) : p.Reads :=
  hp.mono fun c hc => by cases c <;> first | rfl | cases hc

variable {s : CcxtSession} {a : CcxtAdapter F} {req : OrderRequest F} {t : List (VenueEvent F)}

omit [PyFloat F] in
/-- Reading an order changes nothing at the venue. -/
theorem reads_fetchOrder (id symbol : String) :
    (s.fetchOrder id symbol : VenueProg F (CcxtOrder F)).Reads :=
  .bind (.call rfl) fun _ => .ofExcept _

theorem reads_confirmLoop (id : String) (sleptS aheadS : List F) (last : Option String) :
    (confirmLoop s req id sleptS aheadS last).Reads := by
  induction aheadS generalizing sleptS last with
  | nil => exact .pure _
  | cons delay aheadS ih =>
    unfold confirmLoop
    refine .bind (.call rfl) fun _ => .bind (reads_fetchOrder id req.symbol).attempt fun polled => ?_
    split
    · exact ih _ _
    · split
      · split
        · exact .pure _
        · exact .pure _
      · exact .throw _
    · split
      · exact .pure _
      · exact ih _ _

/-- A balance is read in one call. -/
theorem looks_baseBalance (symbol : String) : (s.baseBalance symbol : VenueProg F F).Looks := by
  unfold CcxtSession.baseBalance
  refine .bind (.call rfl) fun _ => .bind (.ofExcept _) fun _ => .bind (.call rfl) fun _ =>
    .bind (.ofExcept _) fun _ => ?_
  split
  · exact .throw _
  · exact .pure _

/-- A position is read without touching the account. -/
theorem looks_getPositionQty (symbol : String) : (a.getPositionQty symbol).Looks := by
  unfold CcxtAdapter.getPositionQty CcxtSession.fetchPositionQty
  split
  · exact looks_baseBalance symbol
  · exact .bind (.call rfl) fun _ => .bind (.ofExcept _) fun _ => .bind (.call rfl) fun _ =>
      .bind (.ofExcept _) fun _ => .ofExcept _

omit [PyFloat F] in
theorem looks_fetchMarketLimits (symbol : String) :
    (CcxtAdapter.fetchMarketLimits symbol : VenueProg F (MarketLimits F)).Looks := by
  refine .bind (.call rfl) fun answer => ?_
  split
  · exact .pure _
  · exact .pure _
  · exact .throw _

omit [PyFloat F] in
theorem looks_getLastPrice (symbol : String) : (a.getLastPrice symbol).Looks := by
  refine .bind (Prog.Only.attempt ?_) fun price => ?_
  · exact .bind (.call rfl) fun _ => .bind (.ofExcept _) fun _ => .pure _
  · split
    · exact .pure _
    · split
      · exact .pure _
      · exact .throw _

/-- Whether an order is too small is found out by looking, before anything is submitted. -/
theorem looks_undersized : (a.undersized req).Looks := by
  refine .bind (looks_fetchMarketLimits req.symbol) fun limits => ?_
  split
  · exact .bind (looks_getLastPrice req.symbol) fun _ => .pure _
  · exact .pure _

/-- In particular the read before each attempt places no order. -/
theorem reads_getPositionQty (symbol : String) : (a.getPositionQty symbol).Reads :=
  (looks_getPositionQty symbol).reads

/-- A fill that is over is a success, or the venue's rejection. -/
theorem parseTerminal_settled {order : CcxtOrder F} {id : Option String} {fill : FillStatus F}
    (h : parseTerminal order id = some fill) :
    fill.success = true ∨ fill.reason = some .venueRejected := by
  unfold parseTerminal at h
  simp only at h
  split at h
  · obtain rfl := Option.some.inj h
    exact .inl rfl
  · split at h
    · obtain rfl := Option.some.inj h
      exact .inr rfl
    · cases h

/-- An unconfirmed result says so, whatever the text around it. -/
theorem isUnconfirmed_unconfirmed (id : String) (last : Option String) (sleptS : List F) :
    isUnconfirmed (unconfirmed req id last sleptS) = true := by
  have hfirst : "fill unconfirmed".toList <+: "fill unconfirmed after ".toList.map Char.toLower := by
    decide +kernel
  have hmsg : Python.mentions (unconfirmed req id last sleptS).message "fill unconfirmed" = true := by
    rw [Python.mentions, decide_eq_true_eq, Python.lower]
    show _ <:+: (toString "fill unconfirmed after " ++ _ ++ _ ++ _ ++ _).toList.map _
    simp only [String.toList_append, List.map_append, List.append_assoc]
    exact (hfirst.trans (List.prefix_append _ _)).isInfix
  rw [isUnconfirmed, hmsg, Bool.true_or]

/-- How the result of an order accounts for the id that the venue acknowledged it
under: the order is over, or the result names the id, and has a reason or says
that the fill is unconfirmed. -/
def AccountsFor (id : String) (result : OrderResult F) : Prop :=
  result.success = true ∨ result.reason = some .venueRejected ∨
    result.vendorOrderId = some id ∧ (result.reason ≠ none ∨ isUnconfirmed result = true)

/-- What an order ends in accounts for its id. Broker errors end in a result, so
that what is raised is another error. -/
def Accounted {α : Type} (result : α → OrderResult F) (id : String) : Except Raised α → Prop
  | .ok x => AccountsFor id (result x)
  | .error e => e.isConnectionError = false

variable {id : String} {sleptS aheadS : List F} {last : Option String}

/-- A poll that gives up hands the order on under its own id, so that somebody can still cancel
it. -/
theorem accountsFor_unconfirmed :
    AccountsFor id (unconfirmed req id last sleptS) :=
  .inr (.inr ⟨rfl, .inr (isUnconfirmed_unconfirmed id last sleptS)⟩)

/-- **No acknowledged order is lost.** In whichever way the poll of an order
ends, its result accounts for the order's id. -/
theorem confirmLoop_accounts {r : Except Raised (OrderResult F)}
    (h : (confirmLoop s req id sleptS aheadS last).Runs t r) :
    Accounted (fun result => result) id r := by
  induction aheadS generalizing sleptS last t with
  | nil =>
    obtain ⟨-, rfl⟩ := Prog.runs_pure.mp h
    exact accountsFor_unconfirmed
  | cons delay aheadS ih =>
    unfold confirmLoop at h
    obtain ⟨_, _, rfl, h₁⟩ := Prog.runs_call_bind.mp h
    obtain ⟨polled, _, _, -, h₂, -⟩ := Prog.runs_attempt_bind.mp h₁
    split at h₂
    · exact ih h₂
    · split at h₂
      · split at h₂
        · -- a typed refusal keeps its reason
          obtain ⟨-, rfl⟩ := Prog.runs_pure.mp h₂
          exact .inr (.inr ⟨rfl, .inl (Option.some_ne_none _)⟩)
        · obtain ⟨-, rfl⟩ := Prog.runs_pure.mp h₂
          exact accountsFor_unconfirmed
      · rename_i hconn
        obtain ⟨-, rfl⟩ := Prog.runs_throw.mp h₂
        exact Bool.eq_false_iff.mpr hconn
    · split at h₂
      · rename_i fill hfill
        obtain ⟨-, rfl⟩ := Prog.runs_pure.mp h₂
        exact (parseTerminal_settled hfill).imp_right .inl
      · exact ih h₂

/-- The run of an order that was submitted: once, as it was asked for, and with
nothing written around it. -/
def Submitted (req : OrderRequest F) (t : List (VenueEvent F))
    (r : Except Raised (Option KeyProfile × OrderResult F)) : Prop :=
  ∃ before answer after,
    t = before ++ ⟨.createOrder req.symbol (CcxtAdapter.sideWord req.side) req.qty, answer⟩ :: after ∧
    Quiet before ∧ Quiet after ∧
    ∀ raw id, answer = .ok raw → raw.id = some id → Accounted Prod.snd id r

omit [PyFloat F] in
/-- The call that submits is the only one, and what it raises is typed. -/
theorem createMarketOrder_runs {symbol side : String} {qty : F}
    {r : Except Raised (CcxtOrder F)} (h : (s.createMarketOrder symbol side qty).Runs t r) :
    ∃ answer, t = [⟨.createOrder symbol side qty, answer⟩] ∧
      r = Except.mapError s.createError answer := by
  obtain ⟨answer, t', rfl, h'⟩ := Prog.runs_call_bind.mp h
  obtain ⟨rfl, hr⟩ := Prog.runs_ofExcept.mp h'
  exact ⟨answer, rfl, hr⟩

/-- **What submitting does**: one `create_order`, and then the polls of the order that it was
answered with. Nothing else is sent to the venue, whatever is answered. -/
theorem submit_runs {r : Except Raised (Option KeyProfile × OrderResult F)}
    (h : (a.submit req).Runs t r) : Submitted req t r := by
  obtain ⟨created, t₁, t₂, h₁, h₂, rfl⟩ := Prog.runs_attempt_bind.mp h
  obtain ⟨answer, rfl, rfl⟩ := createMarketOrder_runs h₁
  have hnil : Quiet ([] : List (VenueEvent F)) := List.forall_mem_nil _
  cases answer with
  | error e =>
    have hquiet : t₂ = [] := by
      change Prog.Runs (if _ then _ else _) _ _ at h₂
      split at h₂
      · exact (Prog.runs_pure.mp h₂).1
      · exact (Prog.runs_throw.mp h₂).1
    refine ⟨[], .error e, t₂, rfl, hnil, hquiet ▸ hnil, ?_⟩
    rintro raw id ⟨⟩
  | ok raw =>
    change Prog.Runs (match raw.id with | none => _ | some orderId => _) _ _ at h₂
    split at h₂
    · rename_i hid
      obtain ⟨rfl, -⟩ := Prog.runs_pure.mp h₂
      refine ⟨[], .ok raw, [], rfl, hnil, hnil, ?_⟩
      rintro raw' id ⟨⟩ hid'
      cases hid.symm.trans hid'
    · rename_i orderId hid
      refine ⟨[], .ok raw, t₂, rfl, hnil, ?_, ?_⟩
      · exact (reads_confirmLoop orderId [] _ none).bind (fun _ => .pure _) _ _ h₂
      · rintro raw' id ⟨⟩ hid'
        obtain rfl := Option.some.inj (hid.symm.trans hid')
        obtain ⟨e, he, rfl⟩ | ⟨result, _, _, hres, hpure, -⟩ := Prog.runs_bind.mp h₂
        · have hacc := confirmLoop_accounts he
          exact hacc
        · obtain ⟨-, rfl⟩ := Prog.runs_pure.mp hpure
          have hacc := confirmLoop_accounts hres
          exact hacc

/-- **An order is submitted at most once.** A run of `place_order` refuses the
order before the venue sees it, or submits it. -/
theorem placeOrder_runs {r : Except Raised (Option KeyProfile × OrderResult F)}
    (h : (a.placeOrder req).Runs t r) : Quiet t ∨ Submitted req t r := by
  unfold CcxtAdapter.placeOrder at h
  split at h
  · obtain ⟨rfl, -⟩ := Prog.runs_throw.mp h
    exact .inl (List.forall_mem_nil _)
  · split at h
    · obtain ⟨rfl, -⟩ := Prog.runs_throw.mp h
      exact .inl (List.forall_mem_nil _)
    · split at h
      · obtain ⟨rfl, -⟩ := Prog.runs_pure.mp h
        exact .inl (List.forall_mem_nil _)
      · obtain ⟨e, he, rfl⟩ | ⟨small, t₁, t₂, h₁, h₂, rfl⟩ := Prog.runs_bind.mp h
        · exact .inl (looks_undersized.reads _ _ he)
        · have hq : Quiet t₁ := looks_undersized.reads _ _ h₁
          split at h₂
          · obtain ⟨rfl, -⟩ := Prog.runs_pure.mp h₂
            exact .inl (by rwa [List.append_nil])
          · obtain ⟨before, answer, after, rfl, hb, ha, hacc⟩ := submit_runs h₂
            exact .inr ⟨t₁ ++ before, answer, after, (List.append_assoc ..).symm,
              List.forall_mem_append.mpr ⟨hq, hb⟩, ha, hacc⟩
