import QuantStrategies.Lib.Python

/-!
# Orders, and which one a signal asks for

The value objects of an order, and the policy above the broker: what a signal
and a live position call for (`intendedAction`), the one market order that does
it (`orderFor`), and which failed orders may be tried again
(`OrderRetryPolicy`).

None of it looks at the venue: the policy is a function of the signal, of the position as it
was read and of the result of the last order. So it can be verified case by case, and what
the executor makes of it over several attempts is a matter of the record of its calls alone.
-/

/-- `OrderSide`. -/
inductive OrderSide where
  | buy
  | sell
deriving DecidableEq

/-- `OrderType`. -/
inductive Trade.OrderType where
  | market
  | limit
deriving DecidableEq

/-- `OrderRejectReason`: why an order was refused, typed where it was decided. -/
inductive OrderRejectReason where
  | sizeBelowMinimum
  | ipNotAllowed
  | regionRestricted
  | keyReadOnly
  | keyRefused
  | insufficientFunds
  | invalidOrder
  | venueRejected
  | notAcknowledged
  | cancelFailed
deriving DecidableEq

/-- `_OPERATOR_FIX`. -/
def operatorFix : List OrderRejectReason :=
  [.sizeBelowMinimum, .ipNotAllowed, .regionRestricted, .keyReadOnly, .cancelFailed]

/-- Another attempt is unsafe until a person acts. -/
def OrderRejectReason.requiresOperatorFix (r : OrderRejectReason) : Bool :=
  operatorFix.contains r

/-- `IntendedAction`. -/
inductive IntendedAction where
  | buy
  | sell
  | hold
  | openShort
  | closeShort
deriving DecidableEq

/-- `OrderRequest`. -/
structure OrderRequest (F : Type) where
  /-- What is traded, as the venue names it. -/
  symbol : String
  /-- How much of it, never a negative amount. -/
  qty : F
  /-- Whether it is bought or sold. -/
  side : OrderSide
  /-- A market order, as far as the policy makes any. -/
  orderType : Trade.OrderType := .market
  /-- The price of a limit order. -/
  limitPrice : Option F := none
deriving DecidableEq

/-- `OrderResult`. -/
structure OrderResult (F : Type) where
  /-- Whether the venue took the order, and it filled. -/
  success : Bool
  /-- The id that the venue gave it, if it did. -/
  vendorOrderId : Option String
  /-- What an operator is told of it. -/
  message : String
  /-- Why it was refused, where somebody could say. -/
  reason : Option OrderRejectReason := none
  /-- The status that was read last. -/
  rawStatus : Option String := none
  /-- The side that was asked for. -/
  side : Option OrderSide := none
  /-- And the quantity. -/
  requestedQty : Option F := none
  /-- How much of it filled, as the venue reports it. -/
  filledQty : Option F := none
  /-- At which price on average. -/
  avgPrice : Option F := none
  /-- What the venue charged. -/
  fee : Option F := none
  /-- In which currency. -/
  feeCcy : Option String := none
deriving DecidableEq

/-- Whether an optional text is there and not empty. -/
def Python.truthy (s : Option String) : Bool :=
  s.any fun s => s != ""

/-- The exceptions that a broker call, or the work around it, raises. The
classes below `BrokerConnectionError` are told apart where a handler does. -/
inductive Raised where
  | brokerConnection (message : String) (reason : Option OrderRejectReason)
  | brokerAuth (message : String) (reason : Option OrderRejectReason)
  | orderNotFound (message : String)
  | tradeValidation (message : String)
  | value (message : String)
  | assertion (message : String)
  | other (message : String)
deriving DecidableEq

namespace Raised

/-- `str(exc)`. -/
def message : Raised → String
  | .brokerConnection m _ | .brokerAuth m _ | .orderNotFound m | .tradeValidation m
  | .value m | .assertion m | .other m => m

/-- The class is `BrokerConnectionError`, or one below it. -/
def isConnectionError : Raised → Bool
  | .brokerConnection .. | .brokerAuth .. | .orderNotFound _ => true
  | _ => false

/-- `exc.reason`, where the exception has one. -/
def reason : Raised → Option OrderRejectReason
  | .brokerConnection _ r | .brokerAuth _ r => r
  | _ => none

end Raised

section Policy

variable {F : Type} [PyFloat F]

/-- `_FLAT_EPS`. -/
def flatEps : F :=
  PyFloat.lit (1 / 1000000000)

/-- A position that is float noise counts as none. -/
def flattened (positionQty : F) : F :=
  if PyFloat.le (PyFloat.abs positionQty) flatEps then 0 else positionQty

/-- `intended_action`. -/
def intendedAction (signal positionQty : F) : Except Raised IntendedAction :=
  match PyFloat.round signal with
  | none => .error (.value "cannot convert float to integer")
  | some sig =>
    let positionQty := flattened positionQty
    if 0 < sig then
      if PyFloat.lt positionQty 0 then .ok .closeShort
      else if PyFloat.eq positionQty 0 then .ok .buy else .ok .hold
    else if sig = 0 then
      if PyFloat.lt 0 positionQty then .ok .sell
      else if PyFloat.lt positionQty 0 then .ok .closeShort
      else .ok .hold
    else if PyFloat.lt 0 positionQty then .ok .sell
    else if PyFloat.eq positionQty 0 then .ok .openShort
    else .ok .hold

/-- The request that `order_for` builds before it looks at the size. -/
def requestFor (symbol : String) (action : IntendedAction) (qty positionQty : F) :
    Option (OrderRequest F) :=
  match action with
  | .hold => none
  | .buy => some { symbol, qty, side := .buy }
  | .openShort => some { symbol, qty, side := .sell }
  | .sell => some { symbol, qty := PyFloat.abs positionQty, side := .sell }
  | .closeShort => some { symbol, qty := PyFloat.abs positionQty, side := .buy }

/-- `order_for`: at most one market order for the action. -/
def orderFor (symbol : String) (action : IntendedAction) (qty positionQty : F) :
    Option (OrderRequest F) :=
  (requestFor symbol action qty positionQty).filter fun req => PyFloat.lt 0 req.qty

end Policy

/-- `ApplyAttempt`. -/
structure ApplyAttempt (F : Type) where
  /-- What the attempt was to do. -/
  action : IntendedAction
  /-- The position that it was decided from. -/
  positionQty : F
  /-- What came of its order, where it placed one. -/
  result : Option (OrderResult F)
deriving DecidableEq

/-- `OrderRetryResult`. -/
structure OrderRetryResult (F : Type) where
  /-- What the last attempt was to do. -/
  action : IntendedAction
  /-- The position that the last attempt read. -/
  positionQty : F
  /-- What came of its order. -/
  result : Option (OrderResult F)
  /-- All attempts, in their order. -/
  attempts : List (ApplyAttempt F)
  /-- How many there might have been. -/
  maxAttempts : ℕ
  /-- Whether trying again was of no use. -/
  permanentFailure : Bool
deriving DecidableEq

/-- `OrderRetryPolicy`. -/
structure OrderRetryPolicy (F : Type) where
  /-- How often an order is placed at most. -/
  maxAttempts : ℕ
  /-- How long is waited before the next attempt, in seconds. -/
  backoffS : F

variable {F : Type}

/-- `OrderRetryPolicy._TRANSIENT_MARKERS`. -/
def transientMarkers : List String :=
  ["unreachable", "rate", "timeout"]

/-- `OrderRetryPolicy.is_unconfirmed`: the state of the fill is unknown. -/
def isUnconfirmed (result : OrderResult F) : Bool :=
  Python.mentions result.message "fill unconfirmed" ||
    Python.mentions result.message "requires manual reconciliation"

/-- `OrderRetryPolicy.is_retryable`. -/
def isRetryable (result : OrderResult F) : Bool :=
  if result.success then false
  else if result.reason.isSome then false
  else if isUnconfirmed result then true
  else if Python.truthy result.vendorOrderId then true
  else transientMarkers.any (Python.mentions result.message)

/-- A result that may be tried again is a failure that nobody typed. -/
theorem isRetryable.untyped {result : OrderResult F} (h : isRetryable result = true) :
    result.success = false ∧ result.reason = none := by
  unfold isRetryable at h
  split at h
  · cases h
  · split at h
    · cases h
    · rename_i hs hr
      exact ⟨by simpa using hs, by simpa using hr⟩
