import Mathlib.Data.List.Basic
import Mathlib.Data.List.Dedup
import QuantStrategies.Trade.Adapter

/-!
# The venues' order-size rules in Redis

The publisher writes a snapshot of the rules of every app that it reaches, and moves
a version stamp in the same transaction. A reader keeps the snapshots that it has
loaded, and drops them when it finds that the stamp has moved.

A read that fails answers no rules, and no rules are kept like any other snapshot.
They stay in use until the stamp moves, however long Redis has been back by then.

No rules are the same as no limits: an order that is too small is then sent, and it is the
venue that refuses it. So what is at stake is not a wrong order but a late refusal, and how
long that goes on after the rules are there again.
-/

namespace VenueLimits

variable {F : Type}

/-! ## Snapshots -/

/-- The rules of an app, by symbol and default type. -/
abbrev Snapshot (F : Type) : Type := List (String × List (String × MarketLimits F))

/-- The rules of a symbol and a default type in JSON. -/
structure RuleJson (F : Type) where
  /-- The smallest quantity, where there is one. -/
  minQty : Option F
  /-- The smallest value, where there is one. -/
  minNotional : Option F

/-- A snapshot in JSON. There is `none` where a value is no object. -/
abbrev Payload (F : Type) : Type :=
  List (String × Option (List (String × Option (RuleJson F))))

/-- A text under a key: the object that it reads as, or one that does not read. -/
inductive Text (F : Type) where
  | json (payload : Payload F)
  | unreadable

/-- `_encode`. -/
def encode (limits : Snapshot F) : Payload F :=
  limits.map (fun e => (e.1, some (e.2.map (fun r =>
    (r.1, some ⟨r.2.minQty, r.2.minNotional⟩)))))

/-- `_decode`. -/
def decode (payload : Payload F) : Snapshot F :=
  payload.filterMap (fun e => e.2.map (fun byDefaultType =>
    (e.1, byDefaultType.filterMap (fun r => r.2.map (fun rule =>
      (r.1, ⟨e.1, rule.minQty, rule.minNotional⟩))))))

/-- The rules with the symbol that they are kept under. -/
def named (limits : Snapshot F) : Snapshot F :=
  limits.map (fun e => (e.1, e.2.map (fun r => (r.1, { r.2 with symbol := e.1 }))))

/-- What is written is read, each rule under its symbol and its default type. -/
theorem decode_encode (limits : Snapshot F) : decode (encode limits) = named limits := by
  have hrules (symbol : String) (rules : List (String × MarketLimits F)) :
      (rules.map (fun r => (r.1, some (RuleJson.mk r.2.minQty r.2.minNotional)))).filterMap
          (fun r => r.2.map (fun rule =>
            (r.1, MarketLimits.mk symbol rule.minQty rule.minNotional))) =
        rules.map (fun r => (r.1, { r.2 with symbol := symbol })) := by
    rw [List.filterMap_map]
    exact congrFun List.filterMap_eq_map rules
  unfold decode encode named
  rw [List.filterMap_map]
  refine Eq.trans (List.filterMap_congr ?_) (congrFun List.filterMap_eq_map limits)
  intro e _
  exact congrArg (fun rules => some (e.1, rules)) (hrules e.1 e.2)

/-! ## The publisher -/

/-- What Redis keeps of the rules. -/
structure Store (F : Type) where
  /-- The stamp, which each publish moves. -/
  version : Option ℕ
  /-- The snapshot of each app, as text. -/
  texts : ℕ → Option (Text F)

/-- The snapshots of the apps that were reached. -/
def snapshots (apps : List ℕ) (fetched : ℕ → Option (Snapshot F)) : List (ℕ × Snapshot F) :=
  apps.dedup.filterMap (fun a => (fetched a).map (fun limits => (a, limits)))

/-- `publish_all`, with how many apps were written. Nothing is written when no app was
reached. -/
def publishAll (store : Store F) (apps : List ℕ) (fetched : ℕ → Option (Snapshot F)) :
    Store F × ℕ :=
  if (snapshots apps fetched).isEmpty then (store, 0)
  else
    ({ version := some (store.version.getD 0 + 1)
       texts := fun a =>
        match (snapshots apps fetched).lookup a with
        | some limits => some (.json (encode limits))
        | none => store.texts a }, (snapshots apps fetched).length)

/-! ## The reader -/

/-- What a reader keeps. -/
structure Reader (F : Type) where
  /-- The snapshots that it has loaded. -/
  byApp : ℕ → Option (Snapshot F)
  /-- The stamp that it has seen last. -/
  version : Option ℕ

/-- A call of `get`, and which of its reads of Redis succeed. -/
structure Get where
  /-- The app whose rules are asked for. -/
  appId : ℕ
  /-- The symbol. -/
  vendorSymbol : String
  /-- The kind of market. -/
  defaultType : Option String
  /-- Whether the stamp can be read. -/
  versionRead : Bool
  /-- Whether the snapshot can. -/
  snapshotRead : Bool
deriving DecidableEq

/-- `_check_version`. -/
def checkVersion (store : Store F) (reader : Reader F) (versionRead : Bool) : Reader F :=
  if versionRead then
    if store.version ≠ reader.version then ⟨fun _ => none, store.version⟩ else reader
  else reader

/-- The snapshot that a text reads as. -/
def readText : Option (Text F) → Snapshot F
  | none => []
  | some .unreadable => []
  | some (.json payload) => decode payload

/-- `_load`. -/
def load (store : Store F) (appId : ℕ) (snapshotRead : Bool) : Snapshot F :=
  if snapshotRead then readText (store.texts appId) else []

/-- The rule for a symbol and a default type, or limits that enforce nothing. -/
def pick (snapshot : Snapshot F) (vendorSymbol : String) (defaultType : Option String) :
    MarketLimits F :=
  match (snapshot.lookup vendorSymbol).getD [] with
  | [] => ⟨vendorSymbol, none, none⟩
  | first :: rest =>
    match defaultType with
    | some defaultType =>
      ((first :: rest).lookup defaultType).getD ⟨vendorSymbol, none, none⟩
    | none => if rest.isEmpty then first.2 else ⟨vendorSymbol, none, none⟩

/-- `RedisVenueLimits.get`. -/
def Reader.get (store : Store F) (reader : Reader F) (g : Get) : Reader F × MarketLimits F :=
  let reader := checkVersion store reader g.versionRead
  match reader.byApp g.appId with
  | some snapshot => (reader, pick snapshot g.vendorSymbol g.defaultType)
  | none =>
    let snapshot := load store g.appId g.snapshotRead
    ({ reader with byApp := fun a => if a = g.appId then some snapshot else reader.byApp a },
      pick snapshot g.vendorSymbol g.defaultType)

/-! ## Runs -/

/-- What happens to Redis and a reader. -/
inductive Event (F : Type) where
  | publish (apps : List ℕ) (fetched : ℕ → Option (Snapshot F))
  | get (g : Get)

/-- Redis and a reader. -/
structure State (F : Type) where
  /-- What Redis has. -/
  store : Store F
  /-- What the reader has. -/
  reader : Reader F

/-- The state that an event leads to. -/
def State.step (s : State F) : Event F → State F
  | .publish apps fetched => { s with store := (publishAll s.store apps fetched).1 }
  | .get g => { s with reader := (s.reader.get s.store g).1 }

/-- The state after some events. Nothing is published, and nothing kept, before. -/
def run (events : List (Event F)) : State F :=
  events.foldl State.step ⟨⟨none, fun _ => none⟩, ⟨fun _ => none, none⟩⟩

/-- The reads that a call needs succeed. -/
def State.Serves (s : State F) : Event F → Prop
  | .publish _ _ => True
  | .get g => g.versionRead = true ∧
      ((checkVersion s.store s.reader g.versionRead).byApp g.appId = none →
        g.snapshotRead = true)

/-- The reads that the calls need all succeed. -/
def State.ServesAll (s : State F) : List (Event F) → Prop
  | [] => True
  | e :: events => s.Serves e ∧ (s.step e).ServesAll events

/-! ## What is published last -/

/-- The snapshot of an app that an event publishes. -/
def Event.publishes (app : ℕ) : Event F → Option (Snapshot F)
  | .publish apps fetched => if app ∈ apps then fetched app else none
  | .get _ => none

/-- The snapshot of an app that was published last. -/
def lastPublished (events : List (Event F)) (app : ℕ) : Snapshot F :=
  named ((events.filterMap (Event.publishes app)).getLast?.getD [])

/-- The rules recover after some events: from there on, while the reads that are needed
succeed, every call answers the rule that was published last. -/
def Recovers (events : List (Event F)) : Prop :=
  ∀ later g, (run events).ServesAll later → (run (events ++ later)).Serves (.get g) →
    ((run (events ++ later)).reader.get (run (events ++ later)).store g).2 =
      pick (lastPublished (events ++ later) g.appId) g.vendorSymbol g.defaultType

/-! ## The calls since the stamp was read -/

/-- The calls since the stamp was read, after an event: `none` while it has not been. -/
def Event.since (since : Option (List Get)) : Event F → Option (List Get)
  | .publish apps fetched => if (snapshots apps fetched).isEmpty then since else none
  | .get g =>
    match since with
    | some gets => some (gets ++ [g])
    | none => if g.versionRead then some [g] else none

/-- The calls since the stamp of the last publish was read. Before the first publish
there is no stamp, which is what a reader starts from. -/
def sinceStamp (events : List (Event F)) : Option (List Get) :=
  events.foldl Event.since (some [])

/-- The first call for an app since then, if there is one, reads the snapshot. -/
def FirstReads (events : List (Event F)) (app : ℕ) : Prop :=
  ∀ gets, sinceStamp events = some gets →
    ∀ g, gets.find? (fun g => g.appId = app) = some g → g.snapshotRead = true

/-- A snapshot has a rule to enforce. -/
def Enforces (snapshot : Snapshot F) : Prop :=
  ∃ symbol defaultType, pick snapshot symbol defaultType ≠ ⟨symbol, none, none⟩

/-! ## One event -/

variable {events later : List (Event F)} {apps : List ℕ} {fetched : ℕ → Option (Snapshot F)}
variable {e : Event F} {g : Get} {store : Store F} {reader : Reader F} {app : ℕ}

/-- The state after one more event is a step from the state before it. -/
theorem run_append : run (events ++ [e]) = (run events).step e := by
  rw [run, List.foldl_append]
  rfl

/-- A publish writes a snapshot for each app that it has reached, and none for the others. -/
theorem lookup_snapshots :
    (snapshots apps fetched).lookup app = if app ∈ apps then fetched app else none := by
  have hlist (as : List ℕ) : (as.filterMap (fun a => (fetched a).map (fun limits =>
      (a, limits)))).lookup app = if app ∈ as then fetched app else none := by
    induction as with
    | nil => rfl
    | cons a as ih =>
      by_cases ha : app = a
      · subst ha
        rw [if_pos List.mem_cons_self]
        cases hf : fetched app with
        | none =>
          rw [List.filterMap_cons_none (by rw [hf]; rfl), ih, hf, ite_self]
        | some limits =>
          rw [List.filterMap_cons_some (by rw [hf]; rfl)]
          exact List.lookup_cons_self
      · rw [if_congr (List.mem_cons.trans (or_iff_right ha)) rfl rfl, ← ih]
        cases hf : fetched a with
        | none => rw [List.filterMap_cons_none (by rw [hf]; rfl)]
        | some limits =>
          rw [List.filterMap_cons_some (by rw [hf]; rfl), List.lookup_cons, beq_false_of_ne ha]
  exact (hlist apps.dedup).trans (if_congr List.mem_dedup rfl rfl)

/-- An app that a publish does not write has nothing new. -/
theorem publishes_of_isEmpty (h : (snapshots apps fetched).isEmpty = true) :
    (Event.publish apps fetched).publishes app = none := by
  rw [Event.publishes, ← lookup_snapshots, List.isEmpty_iff.mp h]
  rfl

/-- The rules of an app after an event. -/
theorem lastPublished_append : lastPublished (events ++ [e]) app =
    ((e.publishes app).map named).getD (lastPublished events app) := by
  unfold lastPublished
  rw [List.filterMap_append, List.filterMap_cons, List.filterMap_nil]
  cases e.publishes app with
  | none =>
    rw [List.append_nil]
    rfl
  | some limits =>
    rw [List.getLast?_append]
    rfl

/-- What has been read since the stamp last moved grows by the event. -/
theorem sinceStamp_append : sinceStamp (events ++ [e]) = e.since (sinceStamp events) := by
  rw [sinceStamp, List.foldl_append]
  rfl

/-- A stamp that has not moved leaves everything as it is, whether or not it can be read. -/
theorem checkVersion_of_eq (h : reader.version = store.version) (versionRead : Bool) :
    checkVersion store reader versionRead = reader := by
  unfold checkVersion
  rw [if_neg (not_not.mpr h.symm), ite_self]

/-- A stamp that has moved, and can be read, drops all that was kept. -/
theorem checkVersion_of_ne (h : reader.version ≠ store.version) :
    checkVersion store reader true = ⟨fun _ => none, store.version⟩ := by
  unfold checkVersion
  rw [if_pos rfl, if_pos h.symm]

/-- What is kept is answered from, without asking Redis again. -/
theorem get_of_some {snapshot : Snapshot F}
    (h : (checkVersion store reader g.versionRead).byApp g.appId = some snapshot) :
    reader.get store g = (checkVersion store reader g.versionRead,
      pick snapshot g.vendorSymbol g.defaultType) := by
  unfold Reader.get
  dsimp only
  rw [h]

/-- What is not kept is loaded, and kept as it was loaded, even when nothing was. -/
theorem get_of_none (h : (checkVersion store reader g.versionRead).byApp g.appId = none) :
    reader.get store g = ({ checkVersion store reader g.versionRead with
      byApp := fun a => if a = g.appId then some (load store g.appId g.snapshotRead)
        else (checkVersion store reader g.versionRead).byApp a },
      pick (load store g.appId g.snapshotRead) g.vendorSymbol g.defaultType) := by
  unfold Reader.get
  dsimp only
  rw [h]

/-- A call keeps the stamp that it has checked. -/
theorem get_version :
    (reader.get store g).1.version = (checkVersion store reader g.versionRead).version := by
  cases h : (checkVersion store reader g.versionRead).byApp g.appId with
  | none => rw [get_of_none h]
  | some snapshot => rw [get_of_some h]

/-- A reader that keeps what the first call for an app has loaded still does after
another call. -/
theorem get_byApp (gets : List Get) {published : ℕ → Snapshot F}
    (htexts : ∀ app, readText (store.texts app) = published app)
    (hkept : ∀ app, (checkVersion store reader g.versionRead).byApp app =
      (gets.find? (fun g => g.appId = app)).map
        (fun g => if g.snapshotRead then published app else [])) (app : ℕ) :
    (reader.get store g).1.byApp app = ((gets ++ [g]).find? (fun g => g.appId = app)).map
      (fun g => if g.snapshotRead then published app else []) := by
  rw [List.find?_append]
  cases hfind : gets.find? (fun g' => g'.appId = g.appId) with
  | none =>
    rw [get_of_none (by rw [hkept, hfind]; rfl)]
    dsimp only
    by_cases happ : app = g.appId
    · subst happ
      rw [if_pos rfl, hfind, load, htexts, List.find?_cons_of_pos (by simp)]
      rfl
    · rw [if_neg happ, hkept, List.find?_cons_of_neg (by simpa using Ne.symm happ)]
      simp
  | some first =>
    rw [get_of_some (by rw [hkept, hfind]; rfl), hkept]
    by_cases happ : app = g.appId
    · subst happ
      rw [hfind]
      rfl
    · rw [List.find?_cons_of_neg (by simpa using Ne.symm happ)]
      simp

/-! ## What holds after every run -/

/-- What holds of the state after some events: Redis has the rules that were published
last; the reader's stamp is not ahead, and it is behind until the stamp is read; since
then the reader keeps what the first call for an app has loaded. -/
structure Inv (events : List (Event F)) : Prop where
  /-- Redis has for each app what was published of it last. -/
  texts : ∀ app, readText ((run events).store.texts app) = lastPublished events app
  /-- The reader's stamp is not ahead of the one in Redis. -/
  le : (run events).reader.version.getD 0 ≤ (run events).store.version.getD 0
  /-- It is behind from a publish on until the stamp is read. -/
  unread : sinceStamp events = none →
    (run events).reader.version.getD 0 < (run events).store.version.getD 0
  /-- Since then it is the same, and what is kept of an app is what the first call for it has
  loaded. -/
  since : ∀ gets, sinceStamp events = some gets →
    (run events).reader.version = (run events).store.version ∧
    ∀ app, (run events).reader.byApp app = (gets.find? (fun g => g.appId = app)).map
      (fun g => if g.snapshotRead then lastPublished events app else [])

/-- A publish moves the stamp and the snapshots together. -/
theorem Inv.publish (h : Inv events) : Inv (events ++ [.publish apps fetched]) := by
  by_cases hempty : (snapshots apps fetched).isEmpty = true
  · have hrun : run (events ++ [.publish apps fetched]) = run events := by
      rw [run_append, State.step, publishAll, if_pos hempty]
    have hsince : sinceStamp (events ++ [.publish apps fetched]) = sinceStamp events := by
      rw [sinceStamp_append, Event.since, if_pos hempty]
    have hlast (app : ℕ) :
        lastPublished (events ++ [.publish apps fetched]) app = lastPublished events app := by
      rw [lastPublished_append, publishes_of_isEmpty hempty]
      rfl
    constructor
    · exact fun app => by rw [hrun, hlast, h.texts]
    · exact hrun ▸ h.le
    · exact hsince ▸ hrun ▸ h.unread
    · simp only [hrun, hsince, hlast]
      exact h.since
  · have hrun : run (events ++ [.publish apps fetched]) =
        ⟨(publishAll (run events).store apps fetched).1, (run events).reader⟩ := run_append
    have hsince : sinceStamp (events ++ [.publish apps fetched]) = none := by
      rw [sinceStamp_append, Event.since, if_neg hempty]
    have hlt : (run events).reader.version.getD 0 <
        ((publishAll (run events).store apps fetched).1).version.getD 0 := by
      rw [publishAll, if_neg hempty]
      exact Nat.lt_succ_of_le h.le
    constructor
    · intro app
      rw [hrun, lastPublished_append, Event.publishes, ← lookup_snapshots, publishAll,
        if_neg hempty]
      dsimp only
      cases (snapshots apps fetched).lookup app with
      | none => exact h.texts app
      | some limits => exact decode_encode limits
    · exact hrun ▸ hlt.le
    · exact fun _ => hrun ▸ hlt
    · intro gets hgets
      cases hsince.symm.trans hgets

/-- A call keeps the first snapshot that it loads of an app, and changes nothing that is kept
already. -/
theorem Inv.get (h : Inv events) : Inv (events ++ [.get g]) := by
  have hrun : run (events ++ [.get g]) =
      ⟨(run events).store, ((run events).reader.get (run events).store g).1⟩ := run_append
  have hlast (app : ℕ) : lastPublished (events ++ [.get g]) app = lastPublished events app :=
    lastPublished_append
  have htexts (app : ℕ) : readText ((run (events ++ [.get g])).store.texts app) =
      lastPublished (events ++ [.get g]) app := by
    rw [hrun, hlast]
    exact h.texts app
  cases hs : sinceStamp events with
  | none =>
    have hlt := h.unread hs
    cases hv : g.versionRead with
    | false =>
      have hcheck : checkVersion (run events).store (run events).reader g.versionRead =
          (run events).reader := by
        rw [hv]
        rfl
      have hsince : sinceStamp (events ++ [.get g]) = none := by
        rw [sinceStamp_append, hs, Event.since, hv]
        rfl
      refine ⟨htexts, ?_, fun _ => ?_, fun gets hgets => ?_⟩
      · rw [hrun, get_version, hcheck]
        exact h.le
      · rw [hrun, get_version, hcheck]
        exact hlt
      · cases hsince.symm.trans hgets
    | true =>
      have hcheck : checkVersion (run events).store (run events).reader g.versionRead =
          ⟨fun _ => none, (run events).store.version⟩ := by
        rw [hv]
        exact checkVersion_of_ne fun heq => absurd (congrArg (fun v => v.getD 0) heq) hlt.ne
      have hsince : sinceStamp (events ++ [.get g]) = some [g] := by
        rw [sinceStamp_append, hs, Event.since, hv]
        rfl
      refine ⟨htexts, ?_, fun hnone => ?_, fun gets hgets => ⟨?_, fun app => ?_⟩⟩
      · rw [hrun, get_version, hcheck]
      · cases hsince.symm.trans hnone
      · rw [hrun, get_version, hcheck]
      · cases hsince.symm.trans hgets
        rw [hrun, hlast]
        exact get_byApp [] h.texts (fun _ => by rw [hcheck]; rfl) app
  | some gets =>
    obtain ⟨hversion, hkept⟩ := h.since gets hs
    have hcheck := checkVersion_of_eq hversion g.versionRead
    have hsince : sinceStamp (events ++ [.get g]) = some (gets ++ [g]) := by
      rw [sinceStamp_append, hs]
      rfl
    refine ⟨htexts, ?_, fun hnone => ?_, fun gets' hgets => ⟨?_, fun app => ?_⟩⟩
    · rw [hrun, get_version, hcheck]
      exact h.le
    · cases hsince.symm.trans hnone
    · rw [hrun, get_version, hcheck]
      exact hversion
    · cases hsince.symm.trans hgets
      rw [hrun, hlast]
      exact get_byApp gets h.texts (fun app => by rw [hcheck, hkept]) app

theorem inv (events : List (Event F)) : Inv events := by
  induction events using List.reverseRecOn with
  | nil =>
    refine ⟨fun _ => rfl, le_rfl, fun h => ?_, fun gets h => ⟨rfl, fun app => ?_⟩⟩
    · cases h
    · cases h
      rfl
  | append_singleton events e ih =>
    cases e with
    | publish apps fetched => exact ih.publish
    | get g => exact ih.get

/-! ## Recovering -/

/-- Where a snapshot has a rule to enforce, the first call since the stamp was read
reads it. -/
def NoneLost (events : List (Event F)) : Prop :=
  ∀ app, Enforces (lastPublished events app) → FirstReads events app

/-- A call whose reads succeed answers the rule that was published last. -/
theorem NoneLost.answer (h : NoneLost events) (hserves : (run events).Serves (.get g)) :
    ((run events).reader.get (run events).store g).2 =
      pick (lastPublished events g.appId) g.vendorSymbol g.defaultType := by
  obtain ⟨hv, hsnapshot⟩ := hserves
  have hinv := inv events
  cases hkept : (checkVersion (run events).store (run events).reader g.versionRead).byApp
      g.appId with
  | none => rw [get_of_none hkept, load, if_pos (hsnapshot hkept), hinv.texts]
  | some snapshot =>
    rw [get_of_some hkept]
    cases hs : sinceStamp events with
    | none =>
      -- the stamp is behind, so nothing is kept
      have hne : (run events).reader.version ≠ (run events).store.version := fun heq =>
        absurd (congrArg (fun v => v.getD 0) heq) (hinv.unread hs).ne
      rw [hv, checkVersion_of_ne hne] at hkept
      cases hkept
    | some gets =>
      obtain ⟨hversion, hbyApp⟩ := hinv.since gets hs
      rw [checkVersion_of_eq hversion, hbyApp] at hkept
      obtain ⟨first, hfind, rfl⟩ := Option.map_eq_some_iff.mp hkept
      by_cases hread : first.snapshotRead = true
      · rw [if_pos hread]
      · rw [if_neg hread]
        by_contra hne
        exact hread (h g.appId ⟨g.vendorSymbol, g.defaultType, Ne.symm hne⟩ gets hs first hfind)

/-- An event whose reads succeed loses nothing. -/
theorem NoneLost.step (h : NoneLost events) (hserves : (run events).Serves e) :
    NoneLost (events ++ [e]) := by
  intro app henforces gets hgets first hfind
  rw [sinceStamp_append] at hgets
  cases e with
  | publish apps fetched =>
    by_cases hempty : (snapshots apps fetched).isEmpty = true
    · rw [Event.since, if_pos hempty] at hgets
      rw [lastPublished_append, publishes_of_isEmpty hempty] at henforces
      exact h app henforces gets hgets first hfind
    · rw [Event.since, if_neg hempty] at hgets
      cases hgets
  | get g =>
    obtain ⟨hv, hsnapshot⟩ := hserves
    rw [lastPublished_append] at henforces
    have hinv := inv events
    cases hs : sinceStamp events with
    | none =>
      rw [hs, Event.since, hv] at hgets
      cases hgets
      obtain rfl := List.mem_singleton.mp (List.mem_of_find?_eq_some hfind)
      refine hsnapshot ?_
      rw [hv, checkVersion_of_ne fun heq =>
        absurd (congrArg (fun v => v.getD 0) heq) (hinv.unread hs).ne]
    | some gets' =>
      rw [hs] at hgets
      cases hgets
      obtain ⟨hversion, hbyApp⟩ := hinv.since gets' hs
      rw [List.find?_append] at hfind
      cases hfirst : gets'.find? (fun g => g.appId = app) with
      | some first' =>
        rw [hfirst] at hfind
        cases hfind
        exact h app henforces gets' hs first hfirst
      | none =>
        rw [hfirst, Option.none_or] at hfind
        obtain rfl := List.mem_singleton.mp (List.mem_of_find?_eq_some hfind)
        have happ := List.find?_some hfind
        refine hsnapshot ?_
        rw [checkVersion_of_eq hversion, hbyApp, of_decide_eq_true happ, hfirst]
        rfl

/-- Calls that serve what was published lose nothing. -/
theorem NoneLost.append (h : NoneLost events) (hserves : (run events).ServesAll later) :
    NoneLost (events ++ later) := by
  induction later generalizing events with
  | nil => rwa [List.append_nil]
  | cons e later ih =>
    rw [List.append_cons]
    exact ih (h.step hserves.1) (run_append ▸ hserves.2)

/-- **The rules recover exactly when**, for every app with a rule to enforce, the first
call since the stamp of the last publish was read has read the snapshot. -/
theorem recovers_iff (events : List (Event F)) :
    Recovers events ↔ ∀ app, Enforces (lastPublished events app) → FirstReads events app := by
  refine ⟨fun h app henforces gets hs first hfind => ?_,
    fun h later g hlater hg => (NoneLost.append h hlater).answer hg⟩
  obtain ⟨symbol, defaultType, hne⟩ := henforces
  by_contra hread
  obtain ⟨hversion, hbyApp⟩ := (inv events).since gets hs
  have hkept : (checkVersion (run events).store (run events).reader true).byApp app =
      some [] := by
    rw [checkVersion_of_eq hversion, hbyApp, hfind, Option.map_some, if_neg hread]
  have hanswer := h [] ⟨app, symbol, defaultType, true, true⟩ trivial
    ⟨rfl, fun _ => rfl⟩
  rw [List.append_nil, get_of_some hkept] at hanswer
  exact hne hanswer.symm

namespace Recovers

/-- A lot of a thousandth of a coin. -/
def lots : Snapshot ℚ := [("BTCUSDT", [("linear", ⟨"BTCUSDT", some (1 / 1000), none⟩)])]

/-- The rules are published. The first call finds the new stamp, and then Redis does not
answer for the snapshot. -/
def outage : List (Event ℚ) :=
  [.publish [34] (fun _ => some lots), .get ⟨34, "BTCUSDT", some "linear", true, false⟩]

/-- Redis is back, and the rule is still not enforced. -/
theorem not_outage : ¬ Recovers outage := by
  intro h
  have hanswer := h [] ⟨34, "BTCUSDT", some "linear", true, true⟩ trivial ⟨rfl, fun _ => rfl⟩
  exact absurd (congrArg MarketLimits.minQty hanswer) (by decide +kernel)

end Recovers

end VenueLimits
