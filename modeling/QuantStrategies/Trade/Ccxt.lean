import QuantStrategies.Lib.Interaction
import QuantStrategies.Trade.Order

/-!
# The ccxt gateway

A connected session with a venue, as the gateway drives it through ccxt. ccxt
and the venue behind it are the surroundings of the programs here: a call is
answered by a value or by an exception, ccxt's own or any other, and nothing is
assumed of which.

The gateway's task is to type what ccxt raises. A refusal that the venue or ccxt
names is raised with its reason, and everything else of ccxt's without one.

What a call answers is typed as ccxt documents it, with every field that it may leave out as
an option. The programs read those fields in the order in which the source does, so that an
answer that lacks one raises where the source does, and not before.
-/

/-- The classes of ccxt's exceptions that the gateway tells apart. A class that
is not listed counts as the listed one it derives from. -/
inductive CcxtClass where
  | base
  | authentication
  | insufficientFunds
  | invalidOrder
  | orderNotFound
  | badSymbol
deriving DecidableEq

/-- What a call of the venue raises: one of ccxt's exceptions, or another one. -/
inductive VenueRaise where
  | ccxt (cls : CcxtClass) (text : String)
  | other (text : String)
deriving DecidableEq

/-- What stands where a number is expected, when something does: what `float` reads as
one, or a text that it refuses, such as an empty one. -/
inductive CcxtNumber (F : Type) where
  | reads (x : F)
  | refused (text : String)
deriving DecidableEq

/-- `float(value)`. -/
def CcxtNumber.float {F : Type} : CcxtNumber F → Except Raised F
  | reads x => .ok x
  | refused text => .error (.value ("could not convert string to float: " ++ Python.repr text))

/-- `_as_float`: a text that is refused counts as missing. -/
def asFloat {F : Type} : Option (CcxtNumber F) → Option F
  | some (.reads x) => some x
  | some (.refused _) | none => none

/-- An entry of `fetch_positions`. The fields `infoSymbol` and `infoSize` are
those that ccxt preserves from the venue. -/
structure CcxtPosition (F : Type) where
  /-- The symbol under which ccxt knows the market. -/
  symbol : Option String
  /-- The symbol under which the venue does. -/
  infoSymbol : Option String
  /-- The size as ccxt has it, which may be a text. -/
  contracts : Option (CcxtNumber F)
  /-- The size as the venue sent it. -/
  infoSize : Option (CcxtNumber F)
  /-- Long or short, where it is said. -/
  side : Option String
deriving DecidableEq

/-- An entry of `load_markets`, with its limits as `_as_float` reads them. -/
structure CcxtMarket (F : Type) where
  /-- The symbol under which ccxt knows the market. -/
  symbol : String
  /-- What is traded there. -/
  base : Option String
  /-- The smallest quantity of an order. -/
  minAmount : Option F
  /-- The smallest value of an order. -/
  minCost : Option F
deriving DecidableEq

/-- The prices of a ticker. -/
structure CcxtTicker (F : Type) where
  /-- The price of the last trade. -/
  last : Option F
  /-- The closing price, which some venues send in its place. -/
  close : Option F
  /-- What is offered for it. -/
  bid : Option F
  /-- What is asked for it. -/
  ask : Option F
deriving DecidableEq

/-- The fee of an order. -/
structure CcxtFee (F : Type) where
  /-- What was charged. -/
  cost : Option F
  /-- In which currency. -/
  currency : Option String
deriving DecidableEq

/-- An order as ccxt reports it. -/
structure CcxtOrder (F : Type) where
  /-- The id of the order. -/
  id : Option String
  /-- Open, closed, canceled, or a word of the venue's own. -/
  status : Option String
  /-- How much of it has filled so far. -/
  filled : Option F
  /-- The price on average. -/
  average : Option F
  /-- The fee so far. -/
  fee : Option (CcxtFee F)
deriving DecidableEq

/-- What the programs ask of their surroundings: ccxt, and the clock. -/
inductive VenueCall (F : Type) where
  | fetchPositions (symbol : String)
  | market (symbol : String)
  | fetchBalance
  | fetchTicker (symbol : String)
  | createOrder (symbol side : String) (qty : F)
  | cancelOrder (id symbol : String)
  | fetchOrder (id symbol : String)
  | sleep (seconds : F)
deriving DecidableEq

/-- What each call is answered with. -/
@[reducible]
def VenueCall.Answer {F : Type} : VenueCall F → Type
  | .fetchPositions _ => Except VenueRaise (List (CcxtPosition F))
  | .market _ => Except VenueRaise (CcxtMarket F)
  | .fetchBalance => Except VenueRaise (List (String × F))
  | .fetchTicker _ => Except VenueRaise (CcxtTicker F)
  | .createOrder .. => Except VenueRaise (CcxtOrder F)
  | .cancelOrder .. => Except VenueRaise (CcxtOrder F)
  | .fetchOrder .. => Except VenueRaise (CcxtOrder F)
  | .sleep _ => Unit

/-- A program that drives a venue. -/
abbrev VenueProg (F α : Type) := Prog (VenueCall F) VenueCall.Answer Raised α

/-- Ask the venue, or the clock. -/
abbrev venueCall {F : Type} (c : VenueCall F) : VenueProg F c.Answer :=
  Prog.call c

/-- A call of the venue and its answer. -/
abbrev VenueEvent (F : Type) := CallEvent (VenueCall F) VenueCall.Answer

/-! ## Venues and sessions -/

/-- `ConnectParams`. -/
structure ConnectParams where
  /-- Whether the session is with the venue's test network. -/
  paper : Bool
  /-- Whether it is one of the venue's demo accounts. -/
  demo : Bool

/-- `CcxtVenue`: where a venue differs from ccxt's default. `classifyDenial`
reads the text of the exception. -/
structure CcxtVenue where
  /-- What is added to the text of a refused key. -/
  authHint : ConnectParams → String
  /-- What the venue means by the text of an exception, where it can be told. -/
  classifyDenial : String → Option OrderRejectReason

/-- `BybitVenue._RET_CODE`, at the start of a text. -/
def retCodeHere (cs : List Char) : Option String :=
  let key := "\"retCode\"".toList
  if key.isPrefixOf cs then
    match (cs.drop key.length).dropWhile Python.isWhitespace with
    | ':' :: rest =>
      let digits := (rest.dropWhile Python.isWhitespace).takeWhile Python.isDecimal
      if digits.isEmpty then none else some (.ofList digits)
    | _ => none
  else none

/-- `BybitVenue._RET_CODE.search`: the first place where it matches. -/
def searchRetCode : List Char → Option String
  | [] => none
  | c :: cs => (retCodeHere (c :: cs)).or (searchRetCode cs)

/-- `BybitVenue._DENIALS`. -/
def bybitDenials : List (String × OrderRejectReason) :=
  [("10010", .ipNotAllowed), ("10024", .regionRestricted)]

/-- `BybitVenue`. -/
def CcxtVenue.bybit : CcxtVenue where
  authHint params :=
    if params.demo then
      " Demo mode uses Bybit Demo Trading (api-demo.bybit.com) — create keys on " ++
        "www.bybit.com under Demo Trading, not testnet.bybit.com."
    else if params.paper then
      " Paper/testnet mode uses https://testnet.bybit.com/ — mainnet and " ++
        "Demo Trading keys will not work. Run: " ++
        "scripts/bybit_local_testnet.py --diagnose"
    else ""
  classifyDenial text := (searchRetCode text.toList).bind fun code => bybitDenials.lookup code

/-- `CcxtExchangePreset`. -/
structure CcxtExchangePreset where
  /-- What the venue is called in messages. -/
  exchangeLabel : String
  /-- The kind of market that is traded unless the product says otherwise. -/
  defaultType : Option String
  /-- The kinds for some kinds of products. -/
  defaultTypeByIssue : List (String × String)
  /-- Where the venue differs. -/
  venue : CcxtVenue

/-- `CCXT_PRESETS["bybit"]`. -/
def CcxtExchangePreset.bybit : CcxtExchangePreset where
  exchangeLabel := "Bybit"
  defaultType := none
  defaultTypeByIssue := [("spot", "spot"), ("future", "linear")]
  venue := .bybit

/-- `CcxtSessionConfig`, with the product that the session was pinned to. -/
structure CcxtSession where
  /-- The venue. -/
  preset : CcxtExchangePreset
  /-- Which of its environments the session is with. -/
  params : ConnectParams
  /-- The kind of market of the product that it was pinned to. -/
  defaultType : Option String

/-! ## The gateway -/

namespace CcxtSession

variable (s : CcxtSession)

/-- `_auth_error`: a refused key is a reason when the venue names none. -/
def authError (text phase : String) : Raised :=
  .brokerAuth
    s!"authentication failed during {phase}: {text}.{s.preset.venue.authHint s.params}"
    (some ((s.preset.venue.classifyDenial text).getD .keyRefused))

/-- The exceptions of the gateway's calls: a refusal of the key is typed, and
what else ccxt raises is not. -/
def callError (phase : String) : VenueRaise → Raised
  | .ccxt .authentication text => s.authError text phase
  | .ccxt _ text => .brokerConnection s!"{phase} failed: {text}" none
  | .other text => .other text

/-- The exceptions of `create_market_order`. ccxt's `OrderNotFound` is an
`InvalidOrder`. -/
def createError : VenueRaise → Raised
  | .ccxt .insufficientFunds text =>
    .brokerConnection s!"insufficient funds: {text}" (some .insufficientFunds)
  | .ccxt .invalidOrder text | .ccxt .orderNotFound text =>
    .brokerConnection s!"invalid order: {text}" (some .invalidOrder)
  | e => s.callError "create_order" e

/-- The exceptions of `fetch_order`. -/
def fetchOrderError : VenueRaise → Raised
  | .ccxt .orderNotFound text => .orderNotFound s!"order not found: {text}"
  | e => s.callError "fetch_order" e

/-- The exceptions of `fetch_position_qty`, which types none of ccxt's. -/
def positionsError : VenueRaise → Raised
  | .ccxt _ text => .brokerConnection s!"fetch_positions failed: {text}" none
  | .other text => .other text

variable {F : Type}

/-- `create_market_order`. -/
def createMarketOrder (symbol side : String) (qty : F) : VenueProg F (CcxtOrder F) := do
  let answer ← venueCall (.createOrder symbol side qty)
  Prog.ofExcept (Except.mapError s.createError answer)

/-- `cancel_order`. -/
def cancelOrder (id symbol : String) : VenueProg F (CcxtOrder F) := do
  let answer ← venueCall (.cancelOrder id symbol)
  Prog.ofExcept (Except.mapError (s.callError "cancel_order") answer)

/-- `fetch_order`. -/
def fetchOrder (id symbol : String) : VenueProg F (CcxtOrder F) := do
  let answer ← venueCall (.fetchOrder id symbol)
  Prog.ofExcept (Except.mapError s.fetchOrderError answer)

/-- `fetch_last_price`: the first price that the ticker has. -/
def fetchLastPrice (symbol : String) : VenueProg F (Option F) := do
  let answer ← venueCall (.fetchTicker symbol)
  let ticker ← Prog.ofExcept (Except.mapError (s.callError "fetch_ticker") answer)
  pure (ticker.last <|> ticker.close <|> ticker.bid <|> ticker.ask)

/-- `_base_balance`: the holding of the base coin. -/
def baseBalance [PyFloat F] (symbol : String) : VenueProg F F := do
  let answer ← venueCall (.market symbol)
  let market ← Prog.ofExcept (Except.mapError (s.callError "fetch_balance") answer)
  let answer ← venueCall .fetchBalance
  let total ← Prog.ofExcept (Except.mapError (s.callError "fetch_balance") answer)
  match market.base.filter (· != "") with
  | none => .throw (.brokerConnection s!"no base currency for {symbol}" none)
  | some base => pure ((total.lookup base).getD 0)

/-- The unified symbol of a market. A symbol that ccxt does not know stands for
itself, and no other exception of `market` is caught. -/
def unifiedSymbol (symbol : String) : Except VenueRaise (CcxtMarket F) → Except Raised String
  | .ok market => .ok market.symbol
  | .error (.ccxt .badSymbol _) => .ok symbol
  | .error (.ccxt _ text) | .error (.other text) => .error (.other text)

/-- The signed size of a position. What stands for it is read by `float`, and only a
size that is missing is zero. -/
def signedQty [PyFloat F] (pos : CcxtPosition F) : Except Raised F := do
  let qty ← match pos.contracts with
    | some contracts => contracts.float
    | none => pos.infoSize.elim (.ok 0) CcxtNumber.float
  return if pos.side = some "short" then -PyFloat.abs qty else qty

/-- `fetch_position_qty`: the first entry that is of the symbol, under any of
its names. -/
def fetchPositionQty [PyFloat F] (symbol : String) : VenueProg F F :=
  if s.defaultType = some "spot" then s.baseBalance symbol
  else do
    let answer ← venueCall (.fetchPositions symbol)
    let positions ← Prog.ofExcept (Except.mapError positionsError answer)
    let answer ← venueCall (.market symbol)
    let unified ← Prog.ofExcept (unifiedSymbol symbol answer)
    Prog.ofExcept <| (positions.find? fun pos =>
      pos.symbol = some symbol || unified = symbol || pos.infoSymbol = some symbol).elim (.ok 0)
        signedQty

end CcxtSession
