import Mathlib.Data.Fintype.Defs
import Mathlib.Data.Rat.Defs
import QuantStrategies.Lib.Pool
import QuantStrategies.Lib.Versioned
import QuantStrategies.Trade.ScheduleAlign

/-!
# One deployment and its schedule

A deployment is a log of versions, and beside it stands the log of its schedule.
Two procedures append to them. `SP_INS_DEPLOYMENT` writes a whole version and
lets the schedule follow it; `SP_INS_DEPLOYMENT_SCHEDULE_STATUS` writes the
schedule alone. Neither is told what it replaces.

Their callers are the requests of a user (create, update, stop) and the sweeps
of the scheduler. Each reads first and writes later, in statements of their own:
an update rebuilds the whole version from the row it read, and a sweep moves the
cursor, or pauses the deployment, from the due row it read before it applied
the deployment. They are the workers of a pool here, and any number of them may
be under way at once.
-/

/-- `DeploymentStatus`. -/
inductive DeploymentStatus where
  | created
  | active
  | paused
  | stopped
deriving DecidableEq

/-- What no edit of a deployment changes: whose it is, and what it trades. -/
structure DeploymentTerms where
  /-- Whose it is. -/
  appUserId : ℕ
  /-- The strategy that it follows. -/
  strategyId : ℕ
  /-- The version of the strategy. -/
  strategyVid : ℕ
  /-- The keys that it trades with. -/
  apiCredentialId : ℕ
  /-- The venue that it trades at. -/
  appId : ℕ
  /-- The product that it trades. -/
  internalCusip : String
  /-- Whether it trades on the venue's test network. -/
  isPaperInd : Bool
deriving DecidableEq

/-- The arguments of `SP_INS_DEPLOYMENT`: the whole content of a version. -/
structure DeploymentRow where
  /-- What no edit changes. -/
  terms : DeploymentTerms
  /-- How much it trades. -/
  qty : ℚ
  /-- Whether it is switched on. -/
  isEnabledInd : Bool
  /-- Active, paused or stopped. -/
  deploymentStatus : DeploymentStatus
  /-- The interval of its schedule, where it has one. -/
  scheduleTmIntervalId : Option ℕ
  /-- Whom the version is written as. -/
  userId : String
deriving DecidableEq

/-- The fields that a call may change. -/
inductive DeploymentField where
  | qty
  | status
  | enabled
  | interval
deriving DecidableEq

instance : Fintype DeploymentField :=
  ⟨{.qty, .status, .enabled, .interval}, fun f => by cases f <;> decide⟩

/-- Two versions agree on a field. -/
def DeploymentField.Same (f : DeploymentField) (a b : DeploymentRow) : Prop :=
  match f with
  | .qty => a.qty = b.qty
  | .status => a.deploymentStatus = b.deploymentStatus
  | .enabled => a.isEnabledInd = b.isEnabledInd
  | .interval => a.scheduleTmIntervalId = b.scheduleTmIntervalId

instance (f : DeploymentField) (a b : DeploymentRow) : Decidable (f.Same a b) :=
  match f with
  | .qty => inferInstanceAs (Decidable (a.qty = b.qty))
  | .status => inferInstanceAs (Decidable (a.deploymentStatus = b.deploymentStatus))
  | .enabled => inferInstanceAs (Decidable (a.isEnabledInd = b.isEnabledInd))
  | .interval => inferInstanceAs (Decidable (a.scheduleTmIntervalId = b.scheduleTmIntervalId))

/-- What a call was asked to do: the fields it sets, and whether it was asked
for a status by name. A pause, and the resumption that enabling a paused
deployment brings with it, set a status that nobody named. -/
structure Asked where
  /-- The fields that the call sets. -/
  fields : List DeploymentField
  /-- Whether a status was named. -/
  statusByName : Bool
deriving DecidableEq

/-- One version of a deployment. `asked` is no column of the table: it records
what the call that wrote the version was asked to do, and no program reads it. -/
structure Deployment extends DeploymentRow where
  /-- The number of the version. -/
  deploymentVid : ℕ
  /-- What its call was asked to do, for what is proved and for nothing else. -/
  asked : Asked
deriving DecidableEq

/-- The statuses of `REFDATA.SCHEDULE_STATUS`. -/
inductive ScheduleStatus where
  | pending
  | success
  | failed
deriving DecidableEq

/-- One row of a deployment's schedule. -/
structure ScheduleRow where
  /-- The number of the row in the schedule. -/
  deploymentScheduleVid : ℕ
  /-- The version of the deployment that it was written for. -/
  deploymentVid : ℕ
  /-- Whether the slot is to come, is over or was dropped. -/
  status : ScheduleStatus
  /-- The slot. -/
  scheduledTs : ℤ
deriving DecidableEq

/-- What the callers share: the clock, and the two logs, newest row first. The
first row of a log is the current one. -/
structure DeploymentState where
  /-- What the server's clock shows. -/
  clock : ℤ
  /-- The versions, the newest first. -/
  deployments : List Deployment
  /-- The rows of the schedule, the newest first. -/
  schedule : List ScheduleRow
deriving DecidableEq

/-- The number of the deployment's next version. -/
abbrev nextDeploymentVid (log : List Deployment) : ℕ :=
  Versioned.nextVid (fun _ => ()) Deployment.deploymentVid log ()

/-- The number of the schedule's next row. -/
abbrev nextScheduleVid (log : List ScheduleRow) : ℕ :=
  Versioned.nextVid (fun _ => ()) ScheduleRow.deploymentScheduleVid log ()

/-- `SP_INS_DEPLOYMENT_SCHEDULE_STATUS`: append a row, whatever the current
one. -/
def spInsScheduleStatus (s : DeploymentState) (deploymentVid : ℕ) (status : ScheduleStatus)
    (scheduledTs : ℤ) : DeploymentState :=
  { s with
    schedule := ⟨nextScheduleVid s.schedule, deploymentVid, status, scheduledTs⟩ :: s.schedule }

/-- A version under which nothing is due. -/
def DeploymentRow.isClosed (d : DeploymentRow) : Bool :=
  d.deploymentStatus = .stopped ∨ d.isEnabledInd = false ∨ d.deploymentStatus = .paused

/-- The schedule row that goes with a new version, if one does. The first
version opens the schedule whatever its status. -/
def scheduleOf (s : DeploymentState) (deploymentVid : ℕ) (d : DeploymentRow)
    (initialScheduledTs : Option ℤ) : Option (ScheduleStatus × ℤ) :=
  match d.scheduleTmIntervalId with
  | some _ =>
      if deploymentVid = 1 then some (.pending, initialScheduledTs.getD s.clock)
      else some (if d.isClosed then .success else .pending,
        initialScheduledTs.getD ((s.schedule.head?.map ScheduleRow.scheduledTs).getD s.clock))
  | none =>
      if 1 < deploymentVid then s.schedule.head?.map (fun ss => (.success, ss.scheduledTs))
      else none

/-- `SP_INS_DEPLOYMENT`: append a version, whatever the current one, and let the
schedule follow. What becomes of the nested call (`scheduled`) is not looked
at. -/
def spInsDeployment (s : DeploymentState) (d : DeploymentRow) (asked : Asked)
    (initialScheduledTs : Option ℤ) (scheduled : Bool) : DeploymentState :=
  let vid := nextDeploymentVid s.deployments
  let written := { s with deployments := ⟨d, vid, asked⟩ :: s.deployments }
  match scheduleOf s vid d initialScheduledTs with
  | some (status, ts) => if scheduled then spInsScheduleStatus written vid status ts else written
  | none => written

/-! ## What a call reads and writes -/

/-- The body of an update. The outer option of a field is whether it is set at
all; `null` clears the interval and is refused for the quantity. -/
structure UpdateDeploymentRequest where
  /-- Switch it on or off. -/
  enabled : Option Bool
  /-- Give it a status by name. -/
  deploymentStatus : Option DeploymentStatus
  /-- Give it another interval, or none. -/
  scheduleTmIntervalId : Option (Option ℕ)
  /-- Have it trade another quantity. -/
  qty : Option (Option ℚ)
deriving DecidableEq

/-- Why a request is refused. -/
inductive DeploymentError where
  | notFound
  | notOwner
  | strategyRefused
  | unfitted (wanted fitted : ℕ)
  | qtyMissing
  | undersized (detail : String)
  | unknownInterval (tmIntervalId : ℕ)
  | slot (e : SlotError)
deriving DecidableEq

/-- What the callers look up: the intervals, an app's execute lead, a product's
market, the interval a strategy was fitted on (where the strategy may be used),
and what is wrong with a quantity at its venue. -/
structure TradeRefData where
  /-- The period of an interval, where it is known. -/
  period : ℕ → Option Period
  /-- How long before the close an app trades. -/
  executeOffset : ℕ → ℕ → ℤ
  /-- The hours of the market that a product is listed on. -/
  market : String → Market
  /-- The interval that a version of a strategy was fitted on. -/
  fittedIntervalId : ℕ → ℕ → Option ℕ
  /-- What is wrong with a quantity, in words, where something is. -/
  undersized : ℕ → String → ℚ → Option String

variable (ref : TradeRefData)

/-- The schedule of a deployment on an interval. -/
def TradeRefData.schedule (terms : DeploymentTerms) (tmIntervalId : ℕ) (period : Period) :
    Schedule :=
  ⟨period, ref.executeOffset terms.appId tmIntervalId, ref.market terms.internalCusip⟩

/-- `compute_initial_scheduled_ts`, as the service calls it. -/
def initialScheduledTs (now : ℤ) (terms : DeploymentTerms) (tmIntervalId : ℕ) :
    Except DeploymentError ℤ :=
  match ref.period tmIntervalId with
  | none => .error (.unknownInterval tmIntervalId)
  | some period =>
      match computeInitialScheduledTs (ref.schedule terms tmIntervalId period) now with
      | .error e => .error (.slot e)
      | .ok ts => .ok ts

/-- `require_fitted_interval`: no cadence but the one the strategy was fitted
on. -/
def requireFittedInterval (terms : DeploymentTerms) (wanted : Option ℕ) :
    Except DeploymentError Unit :=
  match ref.fittedIntervalId terms.strategyId terms.strategyVid with
  | none => .error .strategyRefused
  | some fitted =>
      match wanted with
      | none => .ok ()
      | some tmIntervalId =>
          if tmIntervalId = fitted then .ok () else .error (.unfitted tmIntervalId fitted)

/-- `_require_tradable_qty`. -/
def requireTradableQty (terms : DeploymentTerms) (qty : ℚ) : Except DeploymentError Unit :=
  match ref.undersized terms.appId terms.internalCusip qty with
  | none => .ok ()
  | some detail => .error (.undersized detail)

/-- `should_realign_schedule`: whether an update seeds a fresh cursor. -/
def shouldRealignSchedule (current : DeploymentRow) (req : UpdateDeploymentRequest) : Bool :=
  (match req.scheduleTmIntervalId with
    | some (some new) => current.scheduleTmIntervalId ≠ some new
    | _ => false) ||
  (req.enabled = some true && !current.isEnabledInd && current.scheduleTmIntervalId.isSome) ||
  (req.deploymentStatus = some .active && current.deploymentStatus = .paused &&
    current.scheduleTmIntervalId.isSome)

/-- Enabling a paused deployment resumes it, unless a status is asked for. -/
def UpdateDeploymentRequest.resumes (req : UpdateDeploymentRequest) (current : DeploymentRow) :
    Bool :=
  req.enabled = some true && req.deploymentStatus = none && current.deploymentStatus = .paused

/-- The quantity that an update writes. -/
def updatedQty (current : DeploymentRow) (req : UpdateDeploymentRequest) :
    Except DeploymentError ℚ :=
  match req.qty with
  | none => .ok current.qty
  | some none => .error .qtyMissing
  | some (some qty) => (requireTradableQty ref current.terms qty).map (fun _ => qty)

/-- The version that an update writes: what it was asked for, and the rest as it
was read. -/
def updatedRow (current : DeploymentRow) (req : UpdateDeploymentRequest) (qty : ℚ) :
    DeploymentRow :=
  { current with
    qty := qty
    isEnabledInd := req.enabled.getD current.isEnabledInd
    deploymentStatus := if req.resumes current then .active
      else req.deploymentStatus.getD current.deploymentStatus
    scheduleTmIntervalId := req.scheduleTmIntervalId.getD current.scheduleTmIntervalId
    userId := toString current.terms.appUserId }

/-- What an update was asked to do. -/
def UpdateDeploymentRequest.asked (req : UpdateDeploymentRequest) (current : DeploymentRow) :
    Asked where
  fields :=
    (if req.qty.isSome then [.qty] else []) ++
    (if req.deploymentStatus.isSome ∨ req.resumes current then [.status] else []) ++
    (if req.enabled.isSome then [.enabled] else []) ++
    (if req.scheduleTmIntervalId.isSome then [.interval] else [])
  statusByName := req.deploymentStatus.isSome

/-- The cursor that an update seeds, if it seeds one. -/
def updatedCursor (now : ℤ) (current : DeploymentRow) (req : UpdateDeploymentRequest) :
    Except DeploymentError (Option ℤ) :=
  match req.scheduleTmIntervalId.getD current.scheduleTmIntervalId with
  | none => .ok none
  | some tmIntervalId =>
      if shouldRealignSchedule current req then
        (initialScheduledTs ref now current.terms tmIntervalId).map some
      else .ok none

/-- Only a cadence that the update sets is held to the fitted one, never the one
already stored. -/
def requireNewInterval (terms : DeploymentTerms) (req : UpdateDeploymentRequest) :
    Except DeploymentError Unit :=
  match req.scheduleTmIntervalId with
  | some wanted => requireFittedInterval ref terms wanted
  | none => .ok ()

/-- `update_deployment` between its read and its write. -/
def planUpdate (now : ℤ) (current : DeploymentRow) (req : UpdateDeploymentRequest) :
    Except DeploymentError (DeploymentRow × Option ℤ) := do
  requireNewInterval ref current.terms req
  let qty ← updatedQty ref current req
  let cursor ← updatedCursor ref now current req
  return (updatedRow current req qty, cursor)

/-- `create_deployment` before its write. -/
def planCreate (now : ℤ) (d : DeploymentRow) : Except DeploymentError (Option ℤ) := do
  requireFittedInterval ref d.terms d.scheduleTmIntervalId
  requireTradableQty ref d.terms d.qty
  match d.scheduleTmIntervalId with
  | none => return none
  | some tmIntervalId => return some (← initialScheduledTs ref now d.terms tmIntervalId)

/-- The version that a stop writes. -/
def stoppedRow (current : DeploymentRow) : DeploymentRow :=
  { current with
    isEnabledInd := false
    deploymentStatus := .stopped
    userId := toString current.terms.appUserId }

/-- The version that an auto-pause writes, from the due row. -/
def pausedRow (due : DeploymentRow) : DeploymentRow :=
  { due with isEnabledInd := false, deploymentStatus := .paused }

/-- A due row: the deployment and the schedule row it was joined with, and the
slot after that. -/
structure DueRow where
  /-- The version that is current. -/
  deployment : Deployment
  /-- The row of the schedule that is current. -/
  schedule : ScheduleRow
  /-- The slot that the cursor will be moved to. -/
  nextScheduledTs : ℤ
deriving DecidableEq

/-- `SP_GET_MISSED_DUE_DEPLOYMENTS`, of this deployment. -/
def dueRow (s : DeploymentState) (tmIntervalId : ℕ) : Option DueRow :=
  match s.deployments.head?, s.schedule.head?, ref.period tmIntervalId with
  | some d, some ss, some period =>
      if d.scheduleTmIntervalId = some tmIntervalId ∧ d.isEnabledInd ∧
          d.deploymentStatus ≠ .paused ∧ d.deploymentStatus ≠ .stopped ∧
          ss.status = .pending ∧ ss.scheduledTs ≤ s.clock then
        some ⟨d, ss, nextScheduledTs (ref.schedule d.terms tmIntervalId period) ss.scheduledTs⟩
      else none
  | _, _, _ => none

/-- `get_deployment`: the current version, for its owner. -/
def getDeployment (s : DeploymentState) (appUserId : ℕ) : Option Deployment :=
  s.deployments.head?.filter (fun d => d.terms.appUserId = appUserId)

/-! ## The callers -/

/-- A caller, by what it has read. -/
inductive DeploymentCall where
  | create (d : DeploymentRow)
  | createOwned (d : DeploymentRow) (initialScheduledTs : Option ℤ)
  | createWrite (d : DeploymentRow) (initialScheduledTs : Option ℤ)
  | update (appUserId : ℕ) (req : UpdateDeploymentRequest)
  | updatePlan (current : Deployment) (req : UpdateDeploymentRequest)
  | updateWrite (current : Deployment) (req : UpdateDeploymentRequest) (row : DeploymentRow)
      (initialScheduledTs : Option ℤ)
  | stop (appUserId : ℕ)
  | stopWrite (current : Deployment)
  | sweep (tmIntervalId : ℕ)
  | applying (due : DueRow)
  | pauseWrite (due : DueRow)
  | advanceWrite (due : DueRow)
  | refused (e : DeploymentError)
  | finished

/-- What becomes of a write. It is refused, or committed; then the schedule row
nested in it is written or not, and the caller is answered or, like the caller
of a refused one, told of an error. -/
inductive WriteFate where
  | refused
  | committed (scheduled answered : Bool)
deriving DecidableEq

/-- What decides a step besides the tables: nothing; how an apply ends; what
becomes of a write. -/
inductive CallOutcome where
  | go
  | applied
  | failed
  | write (fate : WriteFate)

/-- What the world does: time passes. -/
inductive ClockTick where
  | tick (d : ℕ)

/-- What can be asked for. -/
inductive Request where
  | create (d : DeploymentRow)
  | update (appUserId : ℕ) (req : UpdateDeploymentRequest)
  | stop (appUserId : ℕ)
  | sweep (tmIntervalId : ℕ)

/-- `write_deployment`, as far as the tables go. -/
def writeDeployment (s : DeploymentState) (d : DeploymentRow) (asked : Asked)
    (initialScheduledTs : Option ℤ) (fate : WriteFate) : DeploymentState :=
  match fate with
  | .refused => s
  | .committed scheduled _ => spInsDeployment s d asked initialScheduledTs scheduled

/-- The `_advance` write: the slot after the due one, under the version of the
due row, which only has to exist. -/
def writeAdvance (s : DeploymentState) (due : DueRow) (fate : WriteFate) : DeploymentState :=
  match fate with
  | .refused => s
  | .committed _ _ =>
      if s.deployments.any (fun d => d.deploymentVid = due.deployment.deploymentVid) then
        spInsScheduleStatus s due.deployment.deploymentVid .pending due.nextScheduledTs
      else s

/-- What a create is asked to do: everything. -/
def createAsked : Asked := ⟨[.qty, .status, .enabled, .interval], true⟩

/-- What a stop is asked to do. -/
def stopAsked : Asked := ⟨[.status, .enabled], true⟩

/-- What an auto-pause does on its own account. -/
def pauseAsked : Asked := ⟨[.status, .enabled], false⟩

/-- One step of a caller. -/
def stepCall (s : DeploymentState) :
    DeploymentCall → CallOutcome → Option (DeploymentState × DeploymentCall)
  -- `create_deployment`, also of a deployment there is
  | .create d, .go =>
      match planCreate ref s.clock d with
      | .error e => some (s, .refused e)
      | .ok ts => some (s, .createOwned d ts)
  -- `_assert_owner` reads the deployment in a statement of its own
  | .createOwned d ts, .go =>
      if s.deployments.head?.any (fun current => current.terms.appUserId ≠ d.terms.appUserId) then
        some (s, .refused .notOwner)
      else some (s, .createWrite d ts)
  | .createWrite d ts, .write fate =>
      some (writeDeployment s d createAsked ts fate, .finished)
  -- `update_deployment`
  | .update appUserId req, .go =>
      match getDeployment s appUserId with
      | none => some (s, .refused .notFound)
      | some current => some (s, .updatePlan current req)
  | .updatePlan current req, .go =>
      match planUpdate ref s.clock current.toDeploymentRow req with
      | .error e => some (s, .refused e)
      | .ok (row, ts) => some (s, .updateWrite current req row ts)
  | .updateWrite current req row ts, .write fate =>
      some (writeDeployment s row (req.asked current.toDeploymentRow) ts fate, .finished)
  -- `stop_deployment`
  | .stop appUserId, .go =>
      match getDeployment s appUserId with
      | none => some (s, .refused .notFound)
      | some current =>
          if current.deploymentStatus = .stopped then some (s, .finished)
          else some (s, .stopWrite current)
  | .stopWrite current, .write fate =>
      some (writeDeployment s (stoppedRow current.toDeploymentRow) stopAsked none fate, .finished)
  -- `run_interval` and `_run_one`
  | .sweep tmIntervalId, .go =>
      match dueRow ref s tmIntervalId with
      | none => some (s, .finished)
      | some due => some (s, .applying due)
  | .applying due, .applied => some (s, .advanceWrite due)
  | .applying due, .failed => some (s, .pauseWrite due)
  -- `_auto_pause`; a pause that is not answered advances instead
  | .pauseWrite due, .write fate =>
      some (writeDeployment s (pausedRow due.deployment.toDeploymentRow) pauseAsked none fate,
        if fate matches .committed _ true then .finished else .advanceWrite due)
  -- `_advance`
  | .advanceWrite due, .write fate => some (writeAdvance s due fate, .finished)
  | _, _ => none

/-- What a request starts. -/
def startCall : Request → DeploymentCall
  | .create d => .create d
  | .update appUserId req => .update appUserId req
  | .stop appUserId => .stop appUserId
  | .sweep tmIntervalId => .sweep tmIntervalId

/-- The callers of one deployment, from empty logs. -/
def deploymentPool : Pool DeploymentState DeploymentCall ClockTick Request CallOutcome where
  Init s := s.deployments = [] ∧ s.schedule = []
  env s e := match e with | .tick d => some { s with clock := s.clock + d }
  fresh _ _ b := some (startCall b)
  work := stepCall ref

/-! ## What a step writes -/

/-- A version that a caller is about to commit: the version it read, if it read
one, what it writes, and what it was asked to do. -/
structure Commit where
  /-- The version that the call has read, and rebuilds from. -/
  read : Option DeploymentRow
  /-- The version that it writes. -/
  row : DeploymentRow
  /-- What it was asked to do. -/
  asked : Asked

/-- The version that a caller's next step commits, if any. A create's owner was read in
the step before (`createOwned`), so that it too may write over another user's version. -/
def commits : DeploymentCall → CallOutcome → Option Commit
  | .createWrite d _, .write (.committed _ _) => some ⟨none, d, createAsked⟩
  | .updateWrite current req row _, .write (.committed _ _) =>
      some ⟨some current.toDeploymentRow, row, req.asked current.toDeploymentRow⟩
  | .stopWrite current, .write (.committed _ _) =>
      some ⟨some current.toDeploymentRow, stoppedRow current.toDeploymentRow, stopAsked⟩
  | .pauseWrite due, .write (.committed _ _) =>
      some ⟨some due.deployment.toDeploymentRow, pausedRow due.deployment.toDeploymentRow,
        pauseAsked⟩
  | _, _ => none

/-- The due row whose cursor a caller's next step moves, if any. -/
def advances : DeploymentCall → CallOutcome → Option DueRow
  | .advanceWrite due, .write (.committed _ _) => some due
  | _, _ => none

variable {ref} {s s' : DeploymentState} {w w' : DeploymentCall} {o : CallOutcome}

/-- What a step does to the logs: it commits a version, moves the cursor, or
leaves them alone. -/
def Writes (s s' : DeploymentState) (w : DeploymentCall) (o : CallOutcome) : Prop :=
  (s' = s ∧ commits w o = none) ∨
    (∃ c ts scheduled, commits w o = some c ∧
      s' = spInsDeployment s c.row c.asked ts scheduled) ∨
    ∃ due, advances w o = some due ∧
      s' = spInsScheduleStatus s due.deployment.deploymentVid .pending due.nextScheduledTs

/-- A step that changes nothing commits nothing. -/
theorem writes_nothing (hs : s' = s) (h : commits w o = none) : Writes s s' w o :=
  .inl ⟨hs, h⟩

/-- A write of a version appends it, or leaves the log as it was, whichever becomes of the
statement. -/
theorem writes_writeDeployment (s : DeploymentState) (c : Commit) (ts : Option ℤ)
    (fate : WriteFate) (hr : fate = .refused → commits w (.write fate) = none)
    (hc : ∀ a b, fate = .committed a b → commits w (.write fate) = some c) :
    Writes s (writeDeployment s c.row c.asked ts fate) w (.write fate) := by
  cases fate with
  | refused => exact writes_nothing rfl (hr rfl)
  | committed a b => exact .inr (.inl ⟨c, ts, a, hc a b rfl, rfl⟩)

/-- A move of the cursor appends a row to the schedule, or leaves it as it was, and no version is
written by it. -/
theorem writes_writeAdvance (s : DeploymentState) (due : DueRow) (fate : WriteFate) :
    Writes s (writeAdvance s due fate) (.advanceWrite due) (.write fate) := by
  cases fate with
  | refused => exact writes_nothing rfl rfl
  | committed a b =>
    simp only [writeAdvance]
    split
    · exact .inr (.inr ⟨due, rfl, rfl⟩)
    · exact writes_nothing rfl rfl

/-- **A step commits a version, moves the cursor, or writes nothing.** So an invariant of the
versions or of the cursor is checked against three kinds of writes, not against each statement of
each call. -/
theorem stepCall_writes (h : stepCall ref s w o = some (s', w')) : Writes s s' w o := by
  have hs : ∀ {x : DeploymentState × DeploymentCall}, some x = some (s', w') → s' = x.1 :=
    fun h => congrArg Prod.fst (Option.some.inj h).symm
  unfold stepCall at h
  split at h
  · split at h <;> exact writes_nothing (hs h) rfl
  · split at h <;> exact writes_nothing (hs h) rfl
  · rename_i d ts fate
    rw [hs h]
    exact writes_writeDeployment s ⟨none, d, createAsked⟩ ts fate (fun hf => by rw [hf]; rfl)
      (fun a b hf => by rw [hf]; rfl)
  · split at h <;> exact writes_nothing (hs h) rfl
  · split at h <;> exact writes_nothing (hs h) rfl
  · rename_i current req row ts fate
    rw [hs h]
    exact writes_writeDeployment s ⟨some current.toDeploymentRow, row, _⟩ ts fate
      (fun hf => by rw [hf]; rfl) (fun a b hf => by rw [hf]; rfl)
  · split at h
    · exact writes_nothing (hs h) rfl
    · split at h <;> exact writes_nothing (hs h) rfl
  · rename_i current fate
    rw [hs h]
    exact writes_writeDeployment s ⟨some current.toDeploymentRow, _, stopAsked⟩ none fate
      (fun hf => by rw [hf]; rfl) (fun a b hf => by rw [hf]; rfl)
  · split at h <;> exact writes_nothing (hs h) rfl
  · exact writes_nothing (hs h) rfl
  · exact writes_nothing (hs h) rfl
  · rename_i due fate
    rw [hs h]
    exact writes_writeDeployment s ⟨some due.deployment.toDeploymentRow, _, pauseAsked⟩ none fate
      (fun hf => by rw [hf]; rfl) (fun a b hf => by rw [hf]; rfl)
  · rw [hs h]
    exact writes_writeAdvance _ _ _
  · exact absurd h (by simp)

/-- Writing the schedule writes no version. -/
@[simp] theorem spInsScheduleStatus_deployments (s : DeploymentState) (vid : ℕ)
    (status : ScheduleStatus) (ts : ℤ) :
    (spInsScheduleStatus s vid status ts).deployments = s.deployments := rfl

/-- Writing a version puts it in front of the log, under the next number. -/
@[simp] theorem spInsDeployment_deployments (s : DeploymentState) (d : DeploymentRow)
    (asked : Asked) (ts : Option ℤ) (scheduled : Bool) :
    (spInsDeployment s d asked ts scheduled).deployments
      = ⟨d, nextDeploymentVid s.deployments, asked⟩ :: s.deployments := by
  unfold spInsDeployment
  dsimp only
  split
  · split <;> rfl
  · rfl

/-! ## A deployment to run -/

/-- One interval of a minute on a market that never closes, where every quantity
can be traded. -/
def minuteTrading : TradeRefData where
  period i := if i = 0 then some minutePeriod else none
  executeOffset _ _ := 0
  market _ := .continuous
  fittedIntervalId _ _ := some 0
  undersized _ _ _ := none

/-- An enabled deployment, due every minute. -/
def everyMinute : DeploymentRow where
  terms := ⟨1, 1, 1, 1, 1, "BTCUSDT.crypto", true⟩
  qty := 1
  isEnabledInd := true
  deploymentStatus := .active
  scheduleTmIntervalId := some 0
  userId := "1"

/-- A write that is committed with its schedule row, and answered. -/
abbrev wrote : CallOutcome := .write (.committed true true)

/-- The deployment is created, and a sweep reads it as due a minute later. The
create is the first call, the sweep the second. -/
def dueAfterMinute : List (PoolAct ClockTick Request CallOutcome) :=
  [.spawn (.create everyMinute), .work 0 .go, .work 0 .go, .work 0 wrote,
    .env (.tick 60000000), .spawn (.sweep 0), .work 1 .go]
