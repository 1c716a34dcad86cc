import Mathlib.Data.Rat.Defs
import QuantStrategies.Database.Gateway
import QuantStrategies.Lib.Result

/-!
# The tables of deployments

`TRADE.DEPLOYMENT` keeps the versions of a deployment, and
`TRADE.DEPLOYMENT_SCHEDULE_STATUS` the rows of its schedule. `SP_INS_DEPLOYMENT`
writes a version and lets the schedule follow by a nested call, in the same
transaction. The nested procedure traps its own errors and reports them in an OUT
status, as every procedure does.

The columns are those that some constraint, some procedure or some query reads. A row that a
call writes is a function of its arguments and of the number it gets (`DeploymentArgs.row`),
and fails where a `NOT NULL` column would have no value.
-/

namespace Database

/-- A row of `TRADE.DEPLOYMENT`. -/
structure DeploymentRow where
  /-- The deployment. -/
  deploymentId : ℕ
  /-- The number of the version. -/
  deploymentVid : ℕ
  /-- Whose it is. -/
  appUserId : ℕ
  /-- The strategy it trades. -/
  strategyId : ℕ
  /-- Its version. -/
  strategyVid : ℤ
  /-- The credentials it trades with. -/
  apiCredentialId : ℤ
  /-- The venue. -/
  appId : ℤ
  /-- The product. -/
  internalCusip : String
  /-- How much of it. -/
  qty : ℚ
  /-- `Y` for an account without money. -/
  isPaperInd : Char
  /-- `Y` while it may trade. -/
  isEnabledInd : Char
  /-- What it is doing. -/
  deploymentStatus : String
  /-- The cadence it runs on, if it has one. -/
  scheduleTmIntervalId : Option ℤ
  /-- When the version begins. -/
  transactFromTs : ℤ
  /-- When it ends, infinity while it is open. -/
  transactToTs : WithTop ℤ
  /-- Who wrote it. -/
  userId : String
deriving DecidableEq

namespace DeploymentRow

/-- `TRADE.DEPLOYMENT` is versioned by the id of the deployment. -/
def table : SoftTable DeploymentRow ℕ where
  key := deploymentId
  vid := deploymentVid
  fromTs := transactFromTs
  toTs := transactToTs
  closeAt t v := { v with transactToTs := t }
  key_closeAt _ _ := rfl
  vid_closeAt _ _ := rfl
  fromTs_closeAt _ _ := rfl
  toTs_closeAt _ _ := rfl

/-- The unique constraints of `TRADE.DEPLOYMENT`. -/
def unique : List (UniqueKey DeploymentRow) :=
  [⟨"deployment_pkey", fun v w =>
    v.deploymentId = w.deploymentId && v.deploymentVid = w.deploymentVid⟩]

end DeploymentRow

/-- A row of `TRADE.DEPLOYMENT_SCHEDULE_STATUS`. -/
structure ScheduleStatusRow where
  /-- The schedule. -/
  deploymentScheduleId : ℕ
  /-- The number of the row. -/
  deploymentScheduleVid : ℕ
  /-- The deployment that it is of. -/
  deploymentId : ℕ
  /-- The version of it. -/
  deploymentVid : ℕ
  /-- Whether it is to run. -/
  status : String
  /-- When it is to run next. -/
  scheduledTs : ℤ
  /-- `Y` on the row that counts. -/
  isCurrentInd : Char
  /-- Who wrote it. -/
  userId : String
deriving DecidableEq

namespace ScheduleStatusRow

/-- The unique constraints of `TRADE.DEPLOYMENT_SCHEDULE_STATUS`. -/
def unique : List (UniqueKey ScheduleStatusRow) :=
  [⟨"deployment_schedule_status_pkey", fun v w =>
      v.deploymentScheduleId = w.deploymentScheduleId &&
        v.deploymentScheduleVid = w.deploymentScheduleVid⟩,
    ⟨"ux_deployment_schedule_status_current", fun v w =>
      v.deploymentScheduleId = w.deploymentScheduleId &&
        v.isCurrentInd = 'Y' && w.isCurrentInd = 'Y'⟩]

end ScheduleStatusRow

/-- The two tables. -/
structure DeploymentTables where
  /-- The versions of the deployments. -/
  deployments : List DeploymentRow
  /-- The rows of their schedules. -/
  schedule : List ScheduleStatusRow
deriving DecidableEq

/-- The arguments of `SP_INS_DEPLOYMENT_SCHEDULE_STATUS`. -/
structure ScheduleStatusArgs where
  /-- The schedule, or none for a new one. -/
  deploymentScheduleId : Option ℕ
  /-- The deployment. -/
  deploymentId : Option ℕ
  /-- Its version. -/
  deploymentVid : Option ℕ
  /-- The status. -/
  status : Option String
  /-- The time of the next run. -/
  scheduledTs : Option ℤ
  /-- The caller. -/
  userId : Option String
deriving DecidableEq

/-- The row that `SP_INS_DEPLOYMENT_SCHEDULE_STATUS` inserts. -/
def ScheduleStatusArgs.row (a : ScheduleStatusArgs) (vid : ℕ) :
    Except SqlError ScheduleStatusRow := do
  let scheduleId ← notNull "deployment_schedule_status" "deployment_schedule_id"
    a.deploymentScheduleId
  let deploymentId ← notNull "deployment_schedule_status" "deployment_id" a.deploymentId
  let deploymentVid ← notNull "deployment_schedule_status" "deployment_vid" a.deploymentVid
  let status ← notNull "deployment_schedule_status" "status" a.status
  let scheduledTs ← notNull "deployment_schedule_status" "scheduled_ts" a.scheduledTs
  let userId ← notNull "deployment_schedule_status" "user_id" a.userId
  return ⟨scheduleId, vid, deploymentId, deploymentVid, status, scheduledTs, 'Y', userId⟩

/-- `COALESCE(MAX(DEPLOYMENT_SCHEDULE_VID), 0) + 1`. -/
def nextScheduleVid (log : List ScheduleStatusRow) (scheduleId : Option ℕ) : ℕ :=
  Versioned.nextVid (fun v => some v.deploymentScheduleId)
    ScheduleStatusRow.deploymentScheduleVid log scheduleId

/-- The current row of a schedule is current no more. -/
def supersede (scheduleId : Option ℕ) (log : List ScheduleStatusRow) : List ScheduleStatusRow :=
  log.map fun v =>
    if some v.deploymentScheduleId = scheduleId ∧ v.isCurrentInd = 'Y' then
      { v with isCurrentInd := 'N' }
    else v

/-- The statements of `SP_INS_DEPLOYMENT_SCHEDULE_STATUS`. -/
def insScheduleStatus (f : Faults) (a : ScheduleStatusArgs) : Sql (List ScheduleStatusRow) Unit := do
  Sql.statement (f .scheduleNextVid)
  let log ← get
  let vid ← Sql.eval (int4 (nextScheduleVid log a.deploymentScheduleId))
  Sql.statement (f .scheduleClose)
  modify (supersede a.deploymentScheduleId)
  Sql.statement (f .scheduleInsert)
  let r ← Sql.eval (a.row vid)
  let superseded ← get
  let written ← Sql.eval (insertRow ScheduleStatusRow.unique r superseded)
  set written
  let _ ← coreInsLogProc (f .scheduleLog)

/-- `SP_INS_DEPLOYMENT_SCHEDULE_STATUS`. -/
def spInsScheduleStatus (f : Faults) (a : ScheduleStatusArgs) :
    Sql (List ScheduleStatusRow) (OutRow Unit) :=
  Sql.block (do
    insScheduleStatus f a
    return OutRow.success ()) (OutRow.failure ())

/-- The arguments of `SP_INS_DEPLOYMENT`. -/
structure DeploymentArgs where
  /-- The deployment, or none for a new one. -/
  deploymentId : Option ℕ
  /-- Whose it is. -/
  appUserId : Option ℕ
  /-- The strategy. -/
  strategyId : Option ℕ
  /-- Its version. -/
  strategyVid : Option ℤ
  /-- The credentials. -/
  apiCredentialId : Option ℤ
  /-- The venue. -/
  appId : Option ℤ
  /-- The product. -/
  internalCusip : Option String
  /-- How much of it. -/
  qty : Option ℚ
  /-- Whether the account is without money. -/
  isPaperInd : Option Char
  /-- Whether it may trade. -/
  isEnabledInd : Option Char
  /-- What it is to be doing. -/
  deploymentStatus : Option String
  /-- The cadence, if it has one. -/
  scheduleTmIntervalId : Option ℤ
  /-- The caller. -/
  userId : Option String
  /-- The first run of a new schedule. -/
  initialScheduledTs : Option ℤ
deriving DecidableEq

/-- The row that `SP_INS_DEPLOYMENT` inserts. -/
def DeploymentArgs.row (a : DeploymentArgs) (now : ℤ) (vid : ℕ) :
    Except SqlError DeploymentRow := do
  let deploymentId ← notNull "deployment" "deployment_id" a.deploymentId
  let appUserId ← notNull "deployment" "app_user_id" a.appUserId
  let strategyId ← notNull "deployment" "strategy_id" a.strategyId
  let strategyVid ← notNull "deployment" "strategy_vid" a.strategyVid
  let apiCredentialId ← notNull "deployment" "api_credential_id" a.apiCredentialId
  let appId ← notNull "deployment" "app_id" a.appId
  let internalCusip ← notNull "deployment" "internal_cusip" a.internalCusip
  let qty ← notNull "deployment" "qty" a.qty
  let isPaperInd ← notNull "deployment" "is_paper_ind" a.isPaperInd
  let isEnabledInd ← notNull "deployment" "is_enabled_ind" a.isEnabledInd
  let deploymentStatus ← notNull "deployment" "deployment_status" a.deploymentStatus
  let userId ← notNull "deployment" "user_id" a.userId
  return ⟨deploymentId, vid, appUserId, strategyId, strategyVid, apiCredentialId, appId,
    internalCusip, qty, isPaperInd, isEnabledInd, deploymentStatus, a.scheduleTmIntervalId, now, ⊤,
    userId⟩

/-- A version under which nothing is due. -/
def DeploymentArgs.isClosed (a : DeploymentArgs) : Bool :=
  a.deploymentStatus = some "STOPPED" || a.isEnabledInd = some 'N' ||
    a.deploymentStatus = some "PAUSED"

/-- The schedule row that a version owes: its status and its slot. The first
version opens the schedule, whatever its status; a version without an interval
closes the schedule there is. -/
def scheduleOwed (a : DeploymentArgs) (now : ℤ) (vid : ℕ) (prior : Option ScheduleStatusRow) :
    Option (String × ℤ) :=
  match a.scheduleTmIntervalId with
  | some _ =>
      if vid = 1 then some ("PENDING", a.initialScheduledTs.getD now)
      else some (if a.isClosed then "SUCCESS" else "PENDING",
        a.initialScheduledTs.getD ((prior.map ScheduleStatusRow.scheduledTs).getD now))
  | none => prior.map fun ss => ("SUCCESS", ss.scheduledTs)

/-- `SELECT … WHERE DEPLOYMENT_ID = … AND IS_CURRENT_IND = 'Y'`. -/
def currentSchedule (log : List ScheduleStatusRow) (deploymentId : Option ℕ) :
    Option ScheduleStatusRow :=
  log.find? fun ss => some ss.deploymentId = deploymentId ∧ ss.isCurrentInd = 'Y'

/-- The prior row of the schedule, which is read from the second version on. -/
def readPrior (f : Faults) (a : DeploymentArgs) (vid : ℕ) :
    Sql (List ScheduleStatusRow) (Option ScheduleStatusRow) := fun log =>
  if 1 < vid then (do
    Sql.statement (f .prior)
    let log ← get
    return currentSchedule log a.deploymentId : Sql _ _) log
  else .ok (none, log)

/-- The arguments of the nested call. -/
def DeploymentArgs.scheduleArgs (a : DeploymentArgs) (vid : ℕ) (owed : String × ℤ) :
    ScheduleStatusArgs :=
  ⟨a.deploymentId, a.deploymentId, some vid, some owed.1, some owed.2, a.userId⟩

/-- The nested call, when a row is owed. Its OUT row is what the variables of the
caller hold afterwards. -/
def callSchedule (f : Faults) (a : DeploymentArgs) (now : ℤ) (vid : ℕ) :
    Sql (List ScheduleStatusRow) (Option (OutRow Unit)) := do
  let prior ← readPrior f a vid
  match scheduleOwed a now vid prior with
  | some owed => some <$> spInsScheduleStatus f (a.scheduleArgs vid owed)
  | none => return none

/-- The statements of `SP_INS_DEPLOYMENT`. Returns what the nested call reported,
if it was made; nothing in the procedure reads it. -/
def insDeployment (f : Faults) (now : ℤ) (a : DeploymentArgs) :
    Sql DeploymentTables (Option (OutRow Unit)) := do
  let vid ← Sql.zoom DeploymentTables.deployments (fun log s => { s with deployments := log })
    (insVersion DeploymentRow.table DeploymentRow.unique f now a.deploymentId (a.row now))
  let nested ← Sql.zoom DeploymentTables.schedule (fun log s => { s with schedule := log })
    (callSchedule f a now vid)
  let _ ← coreInsLogProc (f .log)
  return nested

/-- `SP_INS_DEPLOYMENT`. -/
def spInsDeployment (f : Faults) (now : ℤ) (a : DeploymentArgs) :
    Sql DeploymentTables (OutRow Unit) :=
  Sql.block (do
    let _ ← insDeployment f now a
    return OutRow.success ()) (OutRow.failure ())

/-- What a row of `SP_INS_DEPLOYMENT` takes from its arguments. -/
theorem DeploymentArgs.of_row {a : DeploymentArgs} {now : ℤ} {vid : ℕ} {r : DeploymentRow}
    (h : a.row now vid = .ok r) :
    a.deploymentId = some r.deploymentId ∧ a.userId = some r.userId ∧
      r.deploymentVid = vid ∧ r.transactFromTs = now ∧ r.transactToTs = ⊤ := by
  obtain ⟨_, hid, h⟩ := Result.bind_eq_ok.mp h
  obtain ⟨_, -, h⟩ := Result.bind_eq_ok.mp h
  obtain ⟨_, -, h⟩ := Result.bind_eq_ok.mp h
  obtain ⟨_, -, h⟩ := Result.bind_eq_ok.mp h
  obtain ⟨_, -, h⟩ := Result.bind_eq_ok.mp h
  obtain ⟨_, -, h⟩ := Result.bind_eq_ok.mp h
  obtain ⟨_, -, h⟩ := Result.bind_eq_ok.mp h
  obtain ⟨_, -, h⟩ := Result.bind_eq_ok.mp h
  obtain ⟨_, -, h⟩ := Result.bind_eq_ok.mp h
  obtain ⟨_, -, h⟩ := Result.bind_eq_ok.mp h
  obtain ⟨_, -, h⟩ := Result.bind_eq_ok.mp h
  obtain ⟨_, huser, h⟩ := Result.bind_eq_ok.mp h
  cases h
  exact ⟨notNull_eq_ok.mp hid, notNull_eq_ok.mp huser, rfl, rfl, rfl⟩

/-- The rows of `SP_INS_DEPLOYMENT` are next versions of the deployment it names. -/
theorem DeploymentArgs.newVersion {now : ℤ} (a : DeploymentArgs) :
    NewVersion DeploymentRow.table now a.deploymentId (a.row now) := by
  intro vid r h
  obtain ⟨hid, -, hrest⟩ := DeploymentArgs.of_row h
  exact ⟨hid, hrest⟩

end Database
