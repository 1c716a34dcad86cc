import Mathlib.Data.List.Sort
import QuantStrategies.Trade.Adapter

/-!
# The route that a key is connected on

A key may be pinned to a source address at the venue, and nobody tells the platform. The
router opens a session on one egress route after the other, and asks the venue about the key
on each: a key that the address refuses goes on to the next route, and anything else ends the
search.

Whether the key is refused is asked twice on a route, by `load_markets` and by the
key-information call after it, and the two are handled apart. Only a refusal of the second
goes on. A refusal of the first ends the search, with the reason that stands for a refusal on
every route. What `load_markets` raises that is not ccxt's own passes the gateway by, and leaves its
session open.

What happens on a route is an input here.

The search itself is a loop over the routes, the remembered one first, so it never tries a
route twice, and a failure leaves the gateway closed. Which route the key is then used on is
what the cache remembers for the next time.
-/

/-! ## Routes and profiles -/

/-- `EgressRoute`. -/
structure EgressRoute where
  /-- What the route is called. -/
  name : String
  /-- The proxy that it goes through, if it goes through one. -/
  proxyUrl : Option String
deriving DecidableEq

/-- `KeyProfile.accepted`. -/
def KeyProfile.accepted (route : String) (info : Option ApiKeyInfo)
    (carrying : Option KeyProfile) : KeyProfile :=
  ⟨route, info, (carrying.map KeyProfile.restrictedMarketTypes).getD []⟩

/-- `RedisKeyProfiles`, at the key of one session. An unreachable cache reads as empty, and
is not written. -/
structure KeyProfiles where
  /-- What is stored of the key. -/
  entry : Option KeyProfile
  /-- Whether the cache answers. -/
  readable : Bool
  /-- Whether it takes what is stored. -/
  writable : Bool

/-- `RedisKeyProfiles.get`. -/
def KeyProfiles.get (store : KeyProfiles) : Option KeyProfile :=
  if store.readable then store.entry else none

/-- `RedisKeyProfiles.put`. -/
def KeyProfiles.put (store : KeyProfiles) (profile : KeyProfile) : KeyProfiles :=
  if store.writable then { store with entry := some profile } else store

/-- `CcxtSessionConfig`, with the exchange that it is for. -/
structure KeyedSession extends CcxtSession where
  /-- Which exchange is connected to. -/
  exchangeId : String

/-- How `_build_exchange` fails. -/
inductive BuildFailure where
  | noClass
  | raised (text : String)

/-- The exception of a build that fails. -/
def KeyedSession.buildError (s : KeyedSession) : BuildFailure → Raised
  | .noClass => .brokerConnection s!"ccxt has no exchange class {Python.repr s.exchangeId}" none
  | .raised text => .other text

/-- The exceptions of `load_markets`. -/
def KeyedSession.loadError (s : KeyedSession) : VenueRaise → Raised
  | .ccxt .authentication text => s.authError text "load_markets"
  | .ccxt _ text => .brokerConnection s!"broker unreachable during load_markets: {text}" none
  | .other text => .other text

/-- A route that is offered, and what happens on it: how the exchange is built, what
`load_markets` raises, and what the venue's key-information call comes to. -/
structure OfferedRoute extends EgressRoute where
  /-- Why the client cannot be built on the route, where it cannot. -/
  build : Option BuildFailure
  /-- What the first call on it raises, where it does. -/
  load : Option VenueRaise
  /-- What the venue says of the key there, or raises. -/
  info : Except VenueRaise (Option ApiKeyInfo)

/-- The order of the sort key `r.name != name`. -/
abbrev RouteKeyLe (name : Option String) (a b : OfferedRoute) : Prop :=
  decide (some a.name ≠ name) ≤ decide (some b.name ≠ name)

/-- `EgressRoutes.preferring`. -/
def preferring (name : Option String) (routes : List OfferedRoute) : List OfferedRoute :=
  routes.insertionSort (RouteKeyLe name)

/-! ## The gateway -/

/-- `CcxtTradeGateway`: the route that a session is open on, and the last route that was
asked for. -/
structure CcxtGateway where
  /-- The route that a client is open on, if one is. -/
  exchange : Option EgressRoute
  /-- The route that was asked for last. -/
  route : EgressRoute

namespace CcxtGateway

/-- `disconnect`. What `close` raises is not looked at. -/
def disconnect (g : CcxtGateway) : CcxtGateway := { g with exchange := none }

/-- `connect`: what it raises, and the gateway after it. -/
def connect (s : KeyedSession) (offer : OfferedRoute) (g : CcxtGateway) :
    Option Raised × CcxtGateway :=
  let g := { g with route := offer.toEgressRoute }
  match offer.build with
  | some failure => (some (s.buildError failure), g)
  | none =>
    let g := { g with exchange := some offer.toEgressRoute }
    match offer.load with
    | none => (none, g)
    | some (.ccxt cls text) => (some (s.loadError (.ccxt cls text)), g.disconnect)
    -- neither handler catches what is not ccxt's own
    | some (.other text) => (some (s.loadError (.other text)), g)

/-- `fetch_api_key_info`. -/
def fetchApiKeyInfo (s : KeyedSession) (offer : OfferedRoute) (g : CcxtGateway) :
    Except Raised (Option ApiKeyInfo) :=
  match g.exchange with
  | none => .error (.brokerConnection "exchange not connected" none)
  | some _ => offer.info.mapError (s.callError "fetch_api_key_info")

end CcxtGateway

/-! ## The router -/

/-- A refused key whose refusal the venue put down to the source address. -/
def Raised.isIpRefusal : Raised → Bool
  | .brokerAuth _ reason => reason = some .ipNotAllowed
  | _ => false

namespace KeyRouter

/-- A call of the router when it is over: what it comes to, the gateway and the cache, the
routes that it tried, and the profile that it stored. -/
structure RouterRun where
  /-- The profile, or why there is none. -/
  result : Except Raised KeyProfile
  /-- What the gateway was left as. -/
  gateway : CcxtGateway
  /-- What the cache was left as. -/
  store : Option KeyProfiles
  /-- The routes that were connected on, in their order. -/
  tried : List OfferedRoute
  /-- What was written to the cache. -/
  stored : Option KeyProfile

variable (s : KeyedSession) (store : Option KeyProfiles) (cached : Option KeyProfile)

/-- No route is left. -/
def allRefused (refused : List String) : Raised :=
  let routes := ", ".intercalate refused
  .brokerAuth
    (s!"{s.preset.exchangeLabel} refused this key's source IP on every egress route " ++
      s!"({routes}). Add one of the platform's egress IPs to the key's " ++
      "allowlist at the venue.")
    (some .ipNotAllowed)

/-- The loop of `connect`. Both handlers of the key-information call disconnect. -/
def tryRoutes : List OfferedRoute → CcxtGateway → (refused : List String) → RouterRun
  | [], g, refused => ⟨.error (allRefused s refused), g, store, [], none⟩
  | offer :: rest, g, refused =>
    match g.connect s offer with
    | (some e, g) => ⟨.error e, g, store, [offer], none⟩
    | (none, g) =>
      match g.fetchApiKeyInfo s offer with
      | .error e =>
        if e.isIpRefusal then
          let run := tryRoutes rest g.disconnect (refused ++ [offer.name])
          { run with tried := offer :: run.tried }
        else ⟨.error e, g.disconnect, store, [offer], none⟩
      | .ok info =>
        let profile := KeyProfile.accepted offer.name info cached
        ⟨.ok profile, g, store.map (·.put profile), [offer], store.map fun _ => profile⟩

/-- The profile that a call finds in the cache. -/
def cachedProfile : Option KeyProfile := store.bind KeyProfiles.get

/-- The routes, in the order in which a call tries them. -/
def candidates (routes : List OfferedRoute) : List OfferedRoute :=
  preferring ((cachedProfile store).map KeyProfile.route) routes

/-- `KeyRouter.connect`. -/
def connect (routes : List OfferedRoute) (g : CcxtGateway) : RouterRun :=
  tryRoutes s store (cachedProfile store) (candidates store routes) g []

/-! ## What is promised of the router -/

/-- What connecting on a route raises. -/
def connectError (o : OfferedRoute) : Option Raised :=
  match o.build with
  | some failure => some (s.buildError failure)
  | none => o.load.map s.loadError

/-- What the key meets on a route: what connecting raises, or what the key-information call
comes to. -/
def outcome (o : OfferedRoute) : Except Raised (Option ApiKeyInfo) :=
  match connectError s o with
  | some e => .error e
  | none => o.info.mapError (s.callError "fetch_api_key_info")

/-- The route accepts the key. -/
def Accepts (o : OfferedRoute) : Prop := ∃ info, outcome s o = .ok info

/-- The route refuses the key for its source address. -/
def RefusesIp (o : OfferedRoute) : Prop := ∃ e, outcome s o = .error e ∧ e.isIpRefusal = true

/-- A call picks a route that accepts the key, or reports why none was picked. -/
structure Routed (routes : List OfferedRoute) (run : RouterRun) : Prop where
  /-- Routes are tried once each, and only those that are offered. -/
  once : run.tried.Subperm routes
  /-- The route that is remembered is tried first. -/
  cachedFirst : ∀ p, cachedProfile store = some p → p.route ∈ routes.map (·.name) →
    run.tried.head?.map (·.name) = some p.route
  /-- It goes on to the next route for nothing but a refusal for the address. -/
  movesOn : ∀ o ∈ run.tried.dropLast, RefusesIp s o
  /-- The first route that is not refused is picked, if it accepts the key. -/
  picks : ∀ before o after, candidates store routes = before ++ o :: after →
    (∀ b ∈ before, RefusesIp s b) → Accepts s o →
    ∃ p, run.result = .ok p ∧ p.route = o.name ∧ run.gateway.exchange = some o.toEgressRoute
  /-- No other route is picked. -/
  picked : ∀ p, run.result = .ok p → ∃ before o after,
    candidates store routes = before ++ o :: after ∧ (∀ b ∈ before, RefusesIp s b) ∧
    Accepts s o ∧ p.route = o.name ∧ run.gateway.exchange = some o.toEgressRoute
  /-- A refusal for the address is reported only when all routes are refused. -/
  refused : ∀ e, run.result = .error e → e.reason = some .ipNotAllowed →
    ∀ o ∈ routes, RefusesIp s o
  /-- After a failure no client is left open. -/
  disconnected : ∀ e, run.result = .error e → run.gateway.exchange = none
  stored : ∀ p, run.stored = some p → ∃ o ∈ routes, Accepts s o ∧ p.route = o.name

/-- A refusal that goes on to the next route. -/
def MovesOn (o : OfferedRoute) : Prop := connectError s o = none ∧ RefusesIp s o

/-- Where the search stops: connecting there raises nothing but exceptions of ccxt, and if it
is a refusal for the source address, all the later routes refuse it, too. -/
structure StopsWell (o : OfferedRoute) (after : List OfferedRoute) : Prop where
  /-- The first call raises nothing that ccxt does not know of. -/
  load : ∀ text, o.build = none → o.load ≠ some (.other text)
  /-- A search that ends with a refusal for the address has no route left that would take the
  key. -/
  refusal : ∀ e, connectError s o = some e → e.isIpRefusal = true → ∀ a ∈ after, RefusesIp s a

/-- When the router keeps what is promised. -/
structure RoutesWell (routes : List OfferedRoute) (g : CcxtGateway) : Prop where
  /-- The first exchange is built, or the gateway was not connected. -/
  opens : g.exchange = none ∨ ∃ o, (candidates store routes).head? = some o ∧ o.build = none
  /-- It stops well wherever it stops. -/
  stops : ∀ before o after, candidates store routes = before ++ o :: after →
    (∀ b ∈ before, MovesOn s b) → StopsWell s o after

/-! ## The order of the routes -/

/-- The routes are tried in another order, and none is left out. -/
theorem perm_preferring (name : Option String) (routes : List OfferedRoute) :
    (preferring name routes).Perm routes :=
  List.perm_insertionSort (RouteKeyLe name) routes

/-- A preferred route that is offered is the first one. -/
theorem head?_preferring {name : String} {routes : List OfferedRoute}
    (h : name ∈ routes.map (·.name)) :
    (preferring (some name) routes).head?.map (·.name) = some name := by
  obtain ⟨o, ho, rfl⟩ := List.mem_map.mp h
  have htotal : Std.Total (RouteKeyLe (some o.name)) := ⟨fun _ _ => le_total _ _⟩
  have htrans : IsTrans OfferedRoute (RouteKeyLe (some o.name)) := ⟨fun _ _ _ => le_trans⟩
  have hsorted := List.pairwise_insertionSort (RouteKeyLe (some o.name)) routes
  have hmem := (perm_preferring (some o.name) routes).mem_iff.mpr ho
  unfold preferring at hmem ⊢
  generalize List.insertionSort (RouteKeyLe (some o.name)) routes = sorted at hsorted hmem ⊢
  cases sorted with
  | nil => cases hmem
  | cons first rest =>
    rw [List.head?_cons, Option.map_some]
    rcases List.mem_cons.mp hmem with rfl | hmem
    · rfl
    · have hle : decide (some first.name ≠ some o.name) ≤ decide (some o.name ≠ some o.name) :=
        List.rel_of_pairwise_cons hsorted hmem
      simpa [Bool.le_iff_imp] using hle

/-! ## One route -/

section

variable {s store cached} {o : OfferedRoute} {g : CcxtGateway} {rest : List OfferedRoute}
  {refused : List String}

/-- Where a session is left open, when connecting on a route or asking about the key has
failed. -/
def leftOpen (o : OfferedRoute) (g : CcxtGateway) : Option EgressRoute :=
  match o.build, o.load with
  | some _, _ => g.exchange
  | none, some (.other _) => some o.toEgressRoute
  | none, _ => none

/-- Connecting, by its error. -/
theorem connect_eq (g : CcxtGateway) : g.connect s o = (connectError s o,
    ⟨if connectError s o = none then some o.toEgressRoute else leftOpen o g, o.toEgressRoute⟩) := by
  unfold CcxtGateway.connect connectError leftOpen
  cases o.build with
  | some failure => rfl
  | none =>
    cases o.load with
    | none => rfl
    | some e => cases e <;> rfl

/-- A session that is open after `load_markets` is closed when the key is refused. -/
theorem leftOpen_of_connected (h : connectError s o = none) : leftOpen o g = none := by
  unfold connectError at h
  unfold leftOpen
  split at h
  · cases h
  · next hbuild =>
    rw [hbuild, Option.map_eq_none_iff.mp h]

/-- The key-information call, after a connect that went through. -/
theorem outcome_of_connected (h : connectError s o = none) :
    outcome s o = o.info.mapError (s.callError "fetch_api_key_info") := by
  unfold outcome
  rw [h]

/-- Connecting where something is raised comes to what was raised. -/
theorem outcome_of_connectError {e : Raised} (h : connectError s o = some e) :
    outcome s o = .error e := by
  unfold outcome
  rw [h]

/-- A route that accepts the key was connected to. -/
theorem connected_of_ok {info : Option ApiKeyInfo} (h : outcome s o = .ok info) :
    connectError s o = none :=
  Option.eq_none_iff_forall_ne_some.mpr fun _ he => by
    cases (outcome_of_connectError he).symm.trans h

/-- **A route that accepts the key** ends the search, with the session open on it. -/
theorem tryRoutes_of_ok {info : Option ApiKeyInfo} (h : outcome s o = .ok info) :
    tryRoutes s store cached (o :: rest) g refused =
      ⟨.ok (.accepted o.name info cached), ⟨some o.toEgressRoute, o.toEgressRoute⟩,
        store.map (·.put (.accepted o.name info cached)), [o],
        store.map fun _ => .accepted o.name info cached⟩ := by
  have hconnected := connected_of_ok h
  rw [tryRoutes, connect_eq, hconnected, if_pos rfl]
  dsimp only [CcxtGateway.fetchApiKeyInfo]
  rw [← outcome_of_connected hconnected, h]

/-- **A refusal that goes on** leaves nothing open. The session of the refused route is closed
before the next one is tried, and the refusal is noted. -/
theorem tryRoutes_of_movesOn (h : MovesOn s o) :
    tryRoutes s store cached (o :: rest) g refused =
      { tryRoutes s store cached rest ⟨none, o.toEgressRoute⟩ (refused ++ [o.name]) with
        tried := o :: (tryRoutes s store cached rest ⟨none, o.toEgressRoute⟩
          (refused ++ [o.name])).tried } := by
  obtain ⟨hconnected, e, he, hip⟩ := h
  rw [tryRoutes, connect_eq, hconnected, if_pos rfl]
  dsimp only [CcxtGateway.fetchApiKeyInfo]
  rw [← outcome_of_connected hconnected, he]
  exact if_pos hip

/-- **Any other failure** ends the search. The routes that are left are not tried, and the failure
is handed on as it is. -/
theorem tryRoutes_of_error {e : Raised} (h : outcome s o = .error e) (hstop : ¬MovesOn s o) :
    tryRoutes s store cached (o :: rest) g refused =
      ⟨.error e, ⟨leftOpen o g, o.toEgressRoute⟩, store, [o], none⟩ := by
  cases hconnect : connectError s o with
  | some e' =>
    have he : e' = e := Except.error.inj ((outcome_of_connectError hconnect).symm.trans h)
    rw [tryRoutes, connect_eq, hconnect, he]
    rfl
  | none =>
    have hip : e.isIpRefusal ≠ true := fun hip => hstop ⟨hconnect, e, h, hip⟩
    rw [tryRoutes, connect_eq, hconnect, if_pos rfl, leftOpen_of_connected hconnect]
    dsimp only [CcxtGateway.fetchApiKeyInfo]
    rw [← outcome_of_connected hconnect, h]
    exact if_neg hip

/-- Every exception whose reason is the source address is a refusal of the key. -/
theorem isIpRefusal_of_reason {e : Raised} (h : outcome s o = .error e)
    (hreason : e.reason = some .ipNotAllowed) : e.isIpRefusal = true := by
  have htyped (e : Raised) (v : VenueRaise) (he : e = s.loadError v ∨
      e = s.callError "fetch_api_key_info" v) (hr : e.reason = some .ipNotAllowed) :
      e.isIpRefusal = true := by
    cases v with
    | other text => rcases he with rfl | rfl <;> cases hr
    | ccxt cls text =>
      cases cls <;> rcases he with rfl | rfl <;> exact decide_eq_true hr
  unfold outcome connectError at h
  cases hbuild : o.build with
  | some failure =>
    rw [hbuild] at h
    cases Except.error.inj h
    cases failure <;> cases hreason
  | none =>
    rw [hbuild] at h
    cases hload : o.load with
    | some v =>
      rw [hload] at h
      exact htyped e v (Or.inl (Except.error.inj h).symm) hreason
    | none =>
      rw [hload] at h
      cases hinfo : o.info with
      | ok info =>
        rw [hinfo] at h
        cases h
      | error v =>
        rw [hinfo] at h
        exact htyped e v (Or.inr (Except.error.inj h).symm) hreason

/-- A connect that goes through has built the exchange. -/
theorem build_of_connected (h : connectError s o = none) : o.build = none := by
  unfold connectError at h
  split at h
  · cases h
  · assumption

/-- A route that the search goes on from is no stop. -/
theorem stopsWell_of_connected (h : connectError s o = none) (after : List OfferedRoute) :
    StopsWell s o after := by
  refine ⟨fun text hbuild hload => ?_, fun e he => absurd (h.symm.trans he) nofun⟩
  unfold connectError at h
  rw [hbuild, hload] at h
  cases h

/-! ## A whole search -/

/-- A search goes on from every route, or stops at one. -/
theorem exists_stop (s : KeyedSession) (routes : List OfferedRoute) :
    (∀ o ∈ routes, MovesOn s o) ∨ ∃ before o after, routes = before ++ o :: after ∧
      (∀ b ∈ before, MovesOn s b) ∧ ¬MovesOn s o := by
  induction routes with
  | nil => exact Or.inl fun _ h => absurd h List.not_mem_nil
  | cons first rest ih =>
    by_cases hfirst : MovesOn s first
    · rcases ih with hall | ⟨before, o, after, rfl, hbefore, hstop⟩
      · exact Or.inl (List.forall_mem_cons.mpr ⟨hfirst, hall⟩)
      · exact Or.inr ⟨first :: before, o, after, rfl,
          List.forall_mem_cons.mpr ⟨hfirst, hbefore⟩, hstop⟩
    · exact Or.inr ⟨[], first, rest, rfl, fun _ h => absurd h List.not_mem_nil, hfirst⟩

/-- An element that is not like those before another one is among the elements before it,
or is it. -/
theorem mem_or_eq_of_split {P : OfferedRoute → Prop}
    {before before' after after' : List OfferedRoute} {o o' : OfferedRoute}
    (h : before ++ o :: after = before' ++ o' :: after') (ho : ¬P o)
    (hbefore' : ∀ b ∈ before', P b) :
    o' ∈ before ∨ before' = before ∧ o' = o ∧ after' = after := by
  rcases List.append_eq_append_iff.mp h with ⟨between, rfl, hrest⟩ | ⟨between, rfl, hrest⟩
  · cases between with
    | nil =>
      obtain ⟨rfl, rfl⟩ := List.cons.inj hrest
      exact Or.inr ⟨List.append_nil before, rfl, rfl⟩
    | cons first between =>
      obtain ⟨rfl, -⟩ := List.cons.inj hrest
      exact absurd (hbefore' o (List.mem_append_right _ List.mem_cons_self)) ho
  · cases between with
    | nil =>
      obtain ⟨rfl, rfl⟩ := List.cons.inj hrest
      exact Or.inr ⟨(List.append_nil before').symm, rfl, rfl⟩
    | cons first between =>
      obtain ⟨rfl, -⟩ := List.cons.inj hrest
      exact Or.inl (List.mem_append_right _ List.mem_cons_self)

/-- **The refusals that go on** leave the gateway disconnected, and the rest of the search
as it is. -/
theorem tryRoutes_append {before : List OfferedRoute} (h : ∀ b ∈ before, MovesOn s b)
    (rest : List OfferedRoute) (g : CcxtGateway) (refused : List String) :
    ∃ g' refused', (before = [] ∧ g' = g ∨ before ≠ [] ∧ g'.exchange = none) ∧
      tryRoutes s store cached (before ++ rest) g refused =
        { tryRoutes s store cached rest g' refused' with
          tried := before ++ (tryRoutes s store cached rest g' refused').tried } := by
  induction before generalizing g refused with
  | nil => exact ⟨g, refused, Or.inl ⟨rfl, rfl⟩, rfl⟩
  | cons first before ih =>
    obtain ⟨hfirst, hbefore⟩ := List.forall_mem_cons.mp h
    obtain ⟨g', refused', hg', hrun⟩ := ih hbefore ⟨none, first.toEgressRoute⟩
      (refused ++ [first.name])
    refine ⟨g', refused', Or.inr ⟨List.cons_ne_nil _ _, ?_⟩, ?_⟩
    · rcases hg' with ⟨-, rfl⟩ | ⟨-, hnone⟩
      · rfl
      · exact hnone
    · rw [List.cons_append, tryRoutes_of_movesOn hfirst, hrun]
      rfl

variable {routes : List OfferedRoute} {run : RouterRun} {before after : List OfferedRoute}

/-- The routes that were tried come first among the candidates: each one is tried once, and a
cached route that is offered before the others. -/
theorem tried_of_candidates (hcandidates : candidates store routes = run.tried ++ after)
    (hstart : after = [] ∨ run.tried ≠ []) :
    run.tried.Subperm routes ∧ ∀ p, cachedProfile store = some p →
      p.route ∈ routes.map (·.name) → run.tried.head?.map (·.name) = some p.route := by
  have hperm : (candidates store routes).Perm routes := perm_preferring _ routes
  refine ⟨?_, fun p hp hmem => ?_⟩
  · refine (List.Sublist.subperm ?_).trans hperm.subperm
    rw [hcandidates]
    exact List.sublist_append_left _ _
  · have hhead : (candidates store routes).head?.map (·.name) = some p.route := by
      rw [candidates, hp]
      exact head?_preferring hmem
    rw [hcandidates] at hhead
    rcases hstart with rfl | hne
    · rw [List.append_nil] at hhead
      exact hhead
    · rw [List.head?_append_of_ne_nil _ hne] at hhead
      exact hhead

/-- Where the first route lets the search go on, its exchange was built. -/
theorem opens_of_movesOn (hne : before ≠ []) (hbefore : ∀ b ∈ before, MovesOn s b) :
    ∃ o, (before ++ after).head? = some o ∧ o.build = none := by
  cases before with
  | nil => exact absurd rfl hne
  | cons first before =>
    exact ⟨first, rfl, build_of_connected (hbefore first List.mem_cons_self).1⟩

/-- When every route lets the search go on. -/
theorem routed_iff_of_exhausted (g : CcxtGateway)
    (hall : ∀ o ∈ candidates store routes, MovesOn s o) :
    Routed s store routes (connect s store routes g) ↔ RoutesWell s store routes g := by
  obtain ⟨g', refused', hg', hrun⟩ := @tryRoutes_append s store (cachedProfile store) _ hall [] g []
  have hperm : (candidates store routes).Perm routes := perm_preferring _ routes
  rw [List.append_nil, tryRoutes] at hrun
  rw [connect, hrun]
  constructor
  · intro h
    refine ⟨?_, fun before o after hsplit _ => ?_⟩
    · rcases hg' with ⟨-, rfl⟩ | ⟨hne, -⟩
      · exact Or.inl (h.disconnected _ rfl)
      · have := @opens_of_movesOn s _ [] hne hall
        rw [List.append_nil] at this
        exact Or.inr this
    · have hmem : o ∈ candidates store routes := by rw [hsplit]; simp
      exact stopsWell_of_connected (hall o hmem).1 after
  · intro h
    obtain ⟨honce, hcached⟩ := @tried_of_candidates store routes
      ⟨.error (allRefused s refused'), g', store, candidates store routes ++ [], none⟩ []
      (by rw [List.append_nil, List.append_nil]) (Or.inl rfl)
    have hrefused : ∀ o ∈ routes, RefusesIp s o := fun o ho =>
      (hall o (hperm.mem_iff.mpr ho)).2
    refine ⟨honce, hcached, fun o ho => ?_, fun before o after hsplit _ hok => ?_, nofun,
      fun _ _ _ => hrefused, fun _ _ => ?_, nofun⟩
    · rw [List.append_nil] at ho
      exact (hall o (List.mem_of_mem_dropLast ho)).2
    · have hmem : o ∈ candidates store routes := by rw [hsplit]; simp
      obtain ⟨_, he, -⟩ := (hall o hmem).2
      obtain ⟨_, hinfo⟩ := hok
      cases he.symm.trans hinfo
    · rcases hg' with ⟨hnil, rfl⟩ | ⟨-, hnone⟩
      · rcases h.opens with hnone | ⟨o, ho, -⟩
        · exact hnone
        · rw [hnil] at ho
          cases ho
      · exact hnone

/-- A route is refused or accepted, and not both. -/
theorem not_accepts_of_refusesIp (h : RefusesIp s o) : ¬Accepts s o := by
  rintro ⟨info, hinfo⟩
  obtain ⟨e, he, -⟩ := h
  cases he.symm.trans hinfo

/-- When the search stops at a route that accepts the key. -/
theorem routed_of_accepted (g : CcxtGateway)
    (hsplit : candidates store routes = before ++ o :: after)
    (hbefore : ∀ b ∈ before, MovesOn s b) {info : Option ApiKeyInfo}
    (hout : outcome s o = .ok info) :
    Routed s store routes (connect s store routes g) ∧ RoutesWell s store routes g := by
  have haccepts : Accepts s o := ⟨info, hout⟩
  have hnot : ¬RefusesIp s o := fun h => not_accepts_of_refusesIp h haccepts
  have hconnected := connected_of_ok hout
  have hperm : (candidates store routes).Perm routes := perm_preferring _ routes
  have hmem : o ∈ routes := hperm.mem_iff.mp (by rw [hsplit]; simp)
  obtain ⟨g', refused', -, hrun⟩ :=
    @tryRoutes_append s store (cachedProfile store) _ hbefore (o :: after) g []
  rw [← hsplit, tryRoutes_of_ok hout] at hrun
  rw [connect, hrun]
  constructor
  · obtain ⟨honce, hcached⟩ := @tried_of_candidates store routes
      { result := .ok (.accepted o.name info (cachedProfile store))
        gateway := ⟨some o.toEgressRoute, o.toEgressRoute⟩
        store := store.map (·.put (.accepted o.name info (cachedProfile store)))
        tried := before ++ [o]
        stored := store.map fun _ => .accepted o.name info (cachedProfile store) } after
      (by rw [hsplit, List.append_assoc, List.singleton_append]) (Or.inr (by simp))
    refine ⟨honce, hcached, fun b hb => ?_, fun before' o' after' hsplit' hbefore' hok => ?_,
      fun p hp => ?_, nofun, nofun, fun p hp => ⟨o, hmem, haccepts, ?_⟩⟩
    · rw [List.dropLast_concat] at hb
      exact (hbefore b hb).2
    · rcases mem_or_eq_of_split (hsplit.symm.trans hsplit') hnot hbefore' with hb | ⟨-, rfl, -⟩
      · exact absurd hok (not_accepts_of_refusesIp (hbefore o' hb).2)
      · exact ⟨_, rfl, rfl, rfl⟩
    · cases Except.ok.inj hp
      exact ⟨before, o, after, hsplit, fun b hb => (hbefore b hb).2, haccepts, rfl, rfl⟩
    · obtain ⟨_, -, rfl⟩ := Option.map_eq_some_iff.mp hp
      rfl
  · refine ⟨Or.inr ?_, fun before' o' after' hsplit' hbefore' => ?_⟩
    · rw [hsplit]
      rcases List.eq_nil_or_concat before with rfl | hne
      · exact ⟨o, rfl, build_of_connected hconnected⟩
      · refine opens_of_movesOn (fun hnil => ?_) hbefore
        obtain ⟨_, _, hconcat⟩ := hne
        simp [hnil] at hconcat
    · rcases mem_or_eq_of_split (hsplit.symm.trans hsplit') (fun h => hnot h.2) hbefore' with
        hb | ⟨-, rfl, -⟩
      · exact stopsWell_of_connected (hbefore o' hb).1 after'
      · exact stopsWell_of_connected hconnected after'

/-- When the search stops at a route on which something else fails. -/
theorem routed_iff_of_error (g : CcxtGateway)
    (hsplit : candidates store routes = before ++ o :: after)
    (hbefore : ∀ b ∈ before, MovesOn s b) (hstop : ¬MovesOn s o) {e : Raised}
    (hout : outcome s o = .error e) :
    Routed s store routes (connect s store routes g) ↔ RoutesWell s store routes g := by
  have hnot : ¬Accepts s o := fun ⟨info, hinfo⟩ => by cases hout.symm.trans hinfo
  have hperm : (candidates store routes).Perm routes := perm_preferring _ routes
  have hafter : ∀ a ∈ after, a ∈ routes := fun a ha =>
    hperm.mem_iff.mp (by rw [hsplit]; exact List.mem_append_right _ (List.mem_cons_of_mem o ha))
  obtain ⟨g', refused', hg', hrun⟩ :=
    @tryRoutes_append s store (cachedProfile store) _ hbefore (o :: after) g []
  rw [← hsplit, tryRoutes_of_error hout hstop] at hrun
  rw [connect, hrun]
  constructor
  · intro h
    have hclosed : leftOpen o g' = none := h.disconnected e rfl
    refine ⟨?_, fun before' o' after' hsplit' hbefore' => ?_⟩
    · rw [hsplit]
      rcases hg' with ⟨rfl, rfl⟩ | ⟨hne, -⟩
      · cases hbuild : o.build with
        | some failure =>
          rw [leftOpen, hbuild] at hclosed
          exact Or.inl hclosed
        | none => exact Or.inr ⟨o, rfl, hbuild⟩
      · exact Or.inr (opens_of_movesOn hne hbefore)
    · rcases mem_or_eq_of_split (hsplit.symm.trans hsplit') hstop hbefore' with
        hb | ⟨-, rfl, rfl⟩
      · exact stopsWell_of_connected (hbefore o' hb).1 after'
      · refine ⟨fun text hbuild hload => ?_, fun e' he' hip a ha => ?_⟩
        · rw [leftOpen, hbuild, hload] at hclosed
          cases hclosed
        · have heq : e' = e := Except.error.inj ((outcome_of_connectError he').symm.trans hout)
          refine h.refused e rfl ?_ a (hafter a ha)
          rw [← heq]
          unfold Raised.isIpRefusal at hip
          split at hip
          · exact of_decide_eq_true hip
          · cases hip
  · intro h
    have hwell : StopsWell s o after := h.stops before o after hsplit hbefore
    have hlater : RefusesIp s o → ∀ b ∈ candidates store routes, RefusesIp s b := by
      rintro ⟨e', he', hip⟩ b hb
      have hconnect : connectError s o = some e' := by
        cases hconnect : connectError s o with
        | none => exact absurd ⟨hconnect, e', he', hip⟩ hstop
        | some e'' =>
          exact congrArg some (Except.error.inj ((outcome_of_connectError hconnect).symm.trans he'))
      rw [hsplit] at hb
      rcases List.mem_append.mp hb with hb | hb
      · exact (hbefore b hb).2
      · rcases List.mem_cons.mp hb with rfl | hb
        · exact ⟨e', he', hip⟩
        · exact hwell.refusal e' hconnect hip b hb
    obtain ⟨honce, hcached⟩ := @tried_of_candidates store routes
      ⟨.error e, ⟨leftOpen o g', o.toEgressRoute⟩, store, before ++ [o], none⟩ after
      (by rw [hsplit, List.append_assoc, List.singleton_append]) (Or.inr (by simp))
    refine ⟨honce, hcached, fun b hb => ?_, fun before' o' after' hsplit' hbefore' hok => ?_,
      nofun, fun e' he' hreason b hb => ?_, fun _ _ => ?_, nofun⟩
    · rw [List.dropLast_concat] at hb
      exact (hbefore b hb).2
    · -- a route that accepts the key stands neither before the stop, nor after it
      have hno : RefusesIp s o' → False := fun h => not_accepts_of_refusesIp h hok
      by_cases hip : RefusesIp s o
      · exact (hno (hlater hip o' (by rw [hsplit']; simp))).elim
      · rcases mem_or_eq_of_split (hsplit.symm.trans hsplit') hip hbefore' with hb | ⟨-, rfl, -⟩
        · exact (hno (hbefore o' hb).2).elim
        · exact absurd hok hnot
    · cases Except.error.inj he'
      exact hlater ⟨e, hout, isIpRefusal_of_reason hout hreason⟩ b (hperm.mem_iff.mpr hb)
    · show leftOpen o g' = none
      unfold leftOpen
      split
      · next failure _ hbuild =>
        rcases hg' with ⟨rfl, rfl⟩ | ⟨-, hnone⟩
        · rcases h.opens with hnone | ⟨first, hfirst, hbuilt⟩
          · exact hnone
          · rw [hsplit] at hfirst
            cases Option.some.inj hfirst
            cases hbuilt.symm.trans hbuild
        · exact hnone
      · next text hbuild hload => exact absurd hload (hwell.load text hbuild)
      · rfl

end

/-- **The router keeps what is promised exactly** where the search stops well, and the
gateway was disconnected or gets a new exchange. -/
theorem connect_routed_iff (s : KeyedSession) (store : Option KeyProfiles)
    (routes : List OfferedRoute) (g : CcxtGateway) :
    Routed s store routes (connect s store routes g) ↔ RoutesWell s store routes g := by
  rcases exists_stop s (candidates store routes) with
    hall | ⟨before, o, after, hsplit, hbefore, hstop⟩
  · exact routed_iff_of_exhausted g hall
  · cases hout : outcome s o with
    | ok info =>
      obtain ⟨hrouted, hwell⟩ := routed_of_accepted g hsplit hbefore hout
      exact ⟨fun _ => hwell, fun _ => hrouted⟩
    | error e => exact routed_iff_of_error g hsplit hbefore hstop hout

/-! ### A reply that is no exception of ccxt -/

/-- A session with Bybit. -/
def bybitSession : KeyedSession := ⟨⟨.bybit, ⟨false, false⟩, none⟩, "bybit"⟩

/-- The straight way out, on which `load_markets` stumbles over a reply. -/
def stumbling : OfferedRoute := ⟨⟨"direct", none⟩, none, some (.other "'result'"), .ok none⟩

/-- The exception passes both handlers of `connect`, and the session stays open. -/
theorem stumbling_not_routed : ¬Routed bybitSession none [stumbling]
    (connect bybitSession none [stumbling] ⟨none, stumbling.toEgressRoute⟩) := fun h => by
  have hopen := h.disconnected (.other "'result'") rfl
  cases hopen

end KeyRouter
