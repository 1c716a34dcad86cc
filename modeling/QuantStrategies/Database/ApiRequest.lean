import QuantStrategies.Database.Gateway
import QuantStrategies.Lib.Result

/-!
# The tables of cached windows

`MARKET_DATA.API_REQUEST` keeps the windows that were fetched from providers,
versioned by the id of the request, and `MARKET_DATA.API_REQUEST_PAYLOAD` the data
of each version. The series a window is of is given by columns of the version, any
of which may be null. No constraint is on them.

The two tables are written by one procedure, the version first and then its data, in one
transaction. A window is looked up by any of the columns of its series: an argument that is
null asks for nothing.
-/

namespace Database

/-- What a window is of. -/
structure RequestKey where
  /-- The provider. -/
  appId : Option ℤ
  /-- The metric of it. -/
  appMetricId : Option ℤ
  /-- The interval of the bars. -/
  tmIntervalId : Option ℤ
  /-- The product. -/
  internalCusip : Option String
deriving DecidableEq

/-- A row of `MARKET_DATA.API_REQUEST`. -/
structure ApiRequestRow extends RequestKey where
  /-- The request. -/
  apiReqId : ℕ
  /-- The number of the version. -/
  apiReqVid : ℕ
  /-- The group of products, if it is for one. -/
  productGrpId : Option ℤ
  /-- The start of the window. -/
  rangeStartTs : Option ℤ
  /-- The end of the window. -/
  rangeEndTs : Option ℤ
  /-- When the version begins. -/
  transactFromTs : ℤ
  /-- When it ends, infinity while it is open. -/
  transactToTs : WithTop ℤ
  /-- Who wrote it. -/
  userId : Option String
deriving DecidableEq

namespace ApiRequestRow

/-- `MARKET_DATA.API_REQUEST` is versioned by the id of the request. -/
def table : SoftTable ApiRequestRow ℕ where
  key := apiReqId
  vid := apiReqVid
  fromTs := transactFromTs
  toTs := transactToTs
  closeAt t v := { v with transactToTs := t }
  key_closeAt _ _ := rfl
  vid_closeAt _ _ := rfl
  fromTs_closeAt _ _ := rfl
  toTs_closeAt _ _ := rfl

/-- The unique constraints of `MARKET_DATA.API_REQUEST`, on the columns that are
written. -/
def unique : List (UniqueKey ApiRequestRow) :=
  [⟨"api_request_pkey", fun v w => v.apiReqId = w.apiReqId && v.apiReqVid = w.apiReqVid⟩]

end ApiRequestRow

/-- A row of `MARKET_DATA.API_REQUEST_PAYLOAD`. -/
structure ApiPayloadRow where
  /-- The request. -/
  apiReqId : ℕ
  /-- The version of it. -/
  apiReqVid : ℕ
  /-- The data that was fetched, as text. -/
  payload : String
deriving DecidableEq

/-- The two tables. -/
structure ApiRequestTables where
  /-- The versions of the requests. -/
  requests : List ApiRequestRow
  /-- Their data. -/
  payloads : List ApiPayloadRow
deriving DecidableEq

/-- The arguments of `SP_INS_API_REQUEST`. -/
structure ApiRequestArgs where
  /-- The request, or none for a new one. -/
  apiReqId : Option ℕ
  /-- What the window is of. -/
  key : RequestKey
  /-- The group of products, if it is for one. -/
  productGrpId : Option ℤ
  /-- The start of the window. -/
  rangeStartTs : Option ℤ
  /-- The end of the window. -/
  rangeEndTs : Option ℤ
  /-- The data. -/
  payload : Option String
  /-- The caller. -/
  userId : Option String
deriving DecidableEq

/-- The row that `SP_INS_API_REQUEST` inserts. -/
def ApiRequestArgs.row (a : ApiRequestArgs) (now : ℤ) (vid : ℕ) : Except SqlError ApiRequestRow := do
  let apiReqId ← notNull "api_request" "api_req_id" a.apiReqId
  return ⟨a.key, apiReqId, vid, a.productGrpId, a.rangeStartTs, a.rangeEndTs, now, ⊤, a.userId⟩

/-- The data that `SP_INS_API_REQUEST` inserts with it. -/
def ApiRequestArgs.payloadRow (a : ApiRequestArgs) (vid : ℕ) : Except SqlError ApiPayloadRow := do
  let apiReqId ← notNull "api_request_payload" "api_req_id" a.apiReqId
  let payload ← notNull "api_request_payload" "payload" a.payload
  return ⟨apiReqId, vid, payload⟩

/-- The statements of `SP_INS_API_REQUEST`. -/
def insApiRequest (f : Faults) (now : ℤ) (a : ApiRequestArgs) : Sql ApiRequestTables Unit := do
  let vid ← Sql.zoom ApiRequestTables.requests (fun log s => { s with requests := log })
    (insVersion ApiRequestRow.table ApiRequestRow.unique f now a.apiReqId (a.row now))
  Sql.statement (f .payload)
  let p ← Sql.eval (a.payloadRow vid)
  modify fun s => { s with payloads := p :: s.payloads }
  let _ ← coreInsLogProc (f .log)

/-- `SP_INS_API_REQUEST`. -/
def spInsApiRequest (f : Faults) (now : ℤ) (a : ApiRequestArgs) :
    Sql ApiRequestTables (OutRow Unit) :=
  Sql.block (do
    insApiRequest f now a
    return OutRow.success ()) (OutRow.failure ())

/-- `SP_GET_API_REQUEST`: the open windows whose data is stored. A null argument asks
for nothing. -/
def spGetApiRequest (t : ApiRequestTables) (key : RequestKey) : List ApiRequestRow :=
  t.requests.filter fun r => r.transactToTs = ⊤ ∧
    (key.appId.isNone ∨ r.appId = key.appId) ∧
    (key.appMetricId.isNone ∨ r.appMetricId = key.appMetricId) ∧
    (key.tmIntervalId.isNone ∨ r.tmIntervalId = key.tmIntervalId) ∧
    (key.internalCusip.isNone ∨ r.internalCusip = key.internalCusip) ∧
    t.payloads.any (fun p => p.apiReqId = r.apiReqId && p.apiReqVid = r.apiReqVid)

variable {f : Faults} {now : ℤ}

/-- The rows of `SP_INS_API_REQUEST` are next versions of the request it names. -/
theorem ApiRequestArgs.newVersion (a : ApiRequestArgs) :
    NewVersion ApiRequestRow.table now a.apiReqId (a.row now) := by
  intro vid r h
  obtain ⟨_, hid, h⟩ := Result.bind_eq_ok.mp h
  cases h
  exact ⟨notNull_eq_ok.mp hid, rfl, rfl, rfl⟩

/-- **What `SP_INS_API_REQUEST` does** to the windows, when it reports success. One row is
written, open and under the key that the caller gave, and what was open of the same request is
closed at the time of the call; no other row is touched. -/
theorem spInsApiRequest_success {a : ApiRequestArgs} {t t' : ApiRequestTables} {row : OutRow Unit}
    (h : spInsApiRequest f now a t = .ok (row, t')) (hok : row.sqlstate = "00000") :
    ∃ r, a.apiReqId = some r.apiReqId ∧ r.toRequestKey = a.key ∧ r.transactToTs = ⊤ ∧
      t'.requests = r :: ApiRequestRow.table.closeOpen now (some r.apiReqId) t.requests := by
  obtain h | ⟨e, -, -, h⟩ := Sql.block_eq_ok.mp h
  · obtain ⟨_, _, h1, h⟩ := Sql.bind_eq_ok.mp h
    cases Sql.pure_eq_ok.mp h
    obtain ⟨vid, _, h2, h1⟩ := Sql.bind_eq_ok.mp h1
    obtain ⟨vid', log, hins, h2⟩ := Sql.zoom_eq_ok.mp h2
    cases h2
    obtain ⟨_, _, h3, h1⟩ := Sql.bind_eq_ok.mp h1
    obtain ⟨-, h3⟩ := Sql.statement_eq_ok.mp h3
    cases h3
    obtain ⟨_, _, h4, h1⟩ := Sql.bind_eq_ok.mp h1
    obtain ⟨_, -, h4⟩ := Sql.eval_eq_ok.mp h4
    cases h4
    obtain ⟨_, _, h5, h1⟩ := Sql.bind_eq_ok.mp h1
    cases Sql.modify_eq_ok.mp h5
    obtain ⟨_, _, h6, h1⟩ := Sql.bind_eq_ok.mp h1
    cases coreInsLogProc_state h6
    cases Sql.pure_eq_ok.mp h1
    obtain ⟨-, -, -, -, -, r, hr, -, rfl⟩ := insVersion_eq_ok.mp hins
    obtain ⟨hid, -, -, hto⟩ := a.newVersion _ r hr
    obtain ⟨_, -, hrow⟩ := Result.bind_eq_ok.mp hr
    cases hrow
    exact ⟨_, hid, rfl, hto, by rw [hid]; rfl⟩
  · cases h
    exact absurd hok e.failed

end Database
