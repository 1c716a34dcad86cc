import Mathlib.Data.List.MinMax
import QuantStrategies.Database.Gateway
import QuantStrategies.Lib.Result

/-!
# The tables of jobs and strategies

`BT.QUEUE` keeps the jobs and `BT.STRATEGY` the strategies. A job is versioned
by its id. A strategy is versioned by its id too, but its caller names it by user
and name: the procedure looks up the id that the name has, and takes the one it is
offered, or a new one, for a name that has none. So an id offered twice gathers
the versions of several names.

Both procedures share the versioning of `insVersion`, which closes the open row of the
entity and inserts the next one. What is their own is how the entity is named and which
columns a row takes from the one it replaces.
-/

namespace Database

/-- A row of `BT.QUEUE`. -/
structure QueueRow where
  /-- The job. -/
  queueId : ℕ
  /-- The number of the version. -/
  queueVid : ℕ
  /-- The strategy that it backtests. -/
  strategyId : ℕ
  /-- The strategy's version. -/
  strategyVid : ℤ
  /-- When the version begins. -/
  transactFromTs : ℤ
  /-- When it ends, infinity while it is open. -/
  transactToTs : WithTop ℤ
  /-- The status, by its number. -/
  queueStatusId : ℤ
  /-- How urgent the job is. -/
  priority : ℤ
  /-- Why it failed, if it did. -/
  errorText : Option String
  /-- Who wrote the version. -/
  userId : String
deriving DecidableEq

namespace QueueRow

/-- `BT.QUEUE` is versioned by the id of the job. -/
def table : SoftTable QueueRow ℕ where
  key := queueId
  vid := queueVid
  fromTs := transactFromTs
  toTs := transactToTs
  closeAt t v := { v with transactToTs := t }
  key_closeAt _ _ := rfl
  vid_closeAt _ _ := rfl
  fromTs_closeAt _ _ := rfl
  toTs_closeAt _ _ := rfl

/-- The unique constraints of `BT.QUEUE`. -/
def unique : List (UniqueKey QueueRow) :=
  [⟨"queue_pkey", fun v w => v.queueId = w.queueId && v.queueVid = w.queueVid⟩]

end QueueRow

/-- The arguments of `SP_INS_QUEUE`. -/
structure QueueArgs where
  /-- The job, or none for a new one. -/
  queueId : Option ℕ
  /-- The strategy. -/
  strategyId : Option ℕ
  /-- Its version. -/
  strategyVid : Option ℤ
  /-- The status. -/
  queueStatusId : Option ℤ
  /-- The priority. -/
  priority : Option ℤ
  /-- Why it failed, if it did. -/
  errorText : Option String
  /-- The caller. -/
  userId : Option String
deriving DecidableEq

/-- The row that `SP_INS_QUEUE` inserts. -/
def QueueArgs.row (a : QueueArgs) (now : ℤ) (vid : ℕ) : Except SqlError QueueRow := do
  let queueId ← notNull "queue" "queue_id" a.queueId
  let strategyId ← notNull "queue" "strategy_id" a.strategyId
  let strategyVid ← notNull "queue" "strategy_vid" a.strategyVid
  let queueStatusId ← notNull "queue" "queue_status_id" a.queueStatusId
  let priority ← notNull "queue" "priority" a.priority
  let userId ← notNull "queue" "user_id" a.userId
  return ⟨queueId, vid, strategyId, strategyVid, now, ⊤, queueStatusId, priority, a.errorText,
    userId⟩

/-- `SP_INS_QUEUE`. -/
def spInsQueue (f : Faults) (now : ℤ) (a : QueueArgs) : Sql (List QueueRow) (OutRow Unit) :=
  Sql.block (do
    let _ ← insVersion QueueRow.table QueueRow.unique f now a.queueId (a.row now)
    let _ ← coreInsLogProc (f .log)
    return OutRow.success ()) (OutRow.failure ())

/-- A row of `BT.STRATEGY`. -/
structure StrategyRow where
  /-- The strategy. -/
  strategyId : ℕ
  /-- The number of the version. -/
  strategyVid : ℕ
  /-- Its name, by which a caller finds it. -/
  strategyNm : Option String
  /-- The strategy as a document. -/
  configJson : String
  /-- Whose it is. -/
  userId : String
  /-- When the version begins. -/
  transactFromTs : ℤ
  /-- When it ends, infinity while it is open. -/
  transactToTs : WithTop ℤ
  /-- `Y` on the version that is the best. -/
  isBestInd : Char
  /-- `Y` on a version that is deleted. -/
  logicalDeleteInd : Char
deriving DecidableEq

namespace StrategyRow

/-- `BT.STRATEGY` is versioned by the id of the strategy. -/
def table : SoftTable StrategyRow ℕ where
  key := strategyId
  vid := strategyVid
  fromTs := transactFromTs
  toTs := transactToTs
  closeAt t v := { v with transactToTs := t }
  key_closeAt _ _ := rfl
  vid_closeAt _ _ := rfl
  fromTs_closeAt _ _ := rfl
  toTs_closeAt _ _ := rfl

/-- The unique constraints of `BT.STRATEGY`. Nulls are never the same. -/
def unique : List (UniqueKey StrategyRow) :=
  [⟨"strategy_pkey", fun v w => v.strategyId = w.strategyId && v.strategyVid = w.strategyVid⟩,
    ⟨"uq_strategy_user_nm_vid", fun v w => v.userId = w.userId && v.strategyNm.isSome &&
      v.strategyNm = w.strategyNm && v.strategyVid = w.strategyVid⟩]

end StrategyRow

/-- The arguments of `SP_INS_STRATEGY`. -/
structure StrategyArgs where
  /-- An id for a name that has none. -/
  strategyId : Option ℕ
  /-- The name. -/
  strategyNm : Option String
  /-- The document. -/
  configJson : Option String
  /-- The caller. -/
  userId : Option String
deriving DecidableEq

/-- The row that `SP_INS_STRATEGY` inserts under an id. -/
def StrategyArgs.row (a : StrategyArgs) (now : ℤ) (strategyId vid : ℕ) :
    Except SqlError StrategyRow := do
  let configJson ← notNull "strategy" "config_json" a.configJson
  let userId ← notNull "strategy" "user_id" a.userId
  return ⟨strategyId, vid, a.strategyNm, configJson, userId, now, ⊤, if vid = 1 then 'Y' else 'N',
    'N'⟩

/-- `x IS NULL OR BTRIM(x) = ''`. -/
def isBlank : Option String → Bool
  | none => true
  | some x => x.toList.all (· = ' ')

/-- The id that a strategy's name has: that of the highest version under it, or
else the one offered, or a new one. -/
def resolveStrategyId (log : List StrategyRow) (a : StrategyArgs) (generated : ℕ) : ℕ :=
  match (log.filter (fun v => some v.userId = a.userId ∧ v.strategyNm.isSome ∧
      v.strategyNm = a.strategyNm)).argmax StrategyRow.strategyVid with
  | some v => v.strategyId
  | none => a.strategyId.getD generated

/-- `SP_INS_STRATEGY`, past its checks. -/
def insStrategy (f : Faults) (now : ℤ) (generated : ℕ) (a : StrategyArgs) :
    Sql (List StrategyRow) (OutRow (Option ℕ × Option ℕ)) := do
  Sql.statement (f .lock)
  Sql.statement (f .resolve)
  let log ← get
  let strategyId := resolveStrategyId log a generated
  let vid ← insVersion StrategyRow.table StrategyRow.unique f now (some strategyId)
    (a.row now strategyId)
  let _ ← coreInsLogProc (f .log)
  return OutRow.success (some strategyId, some vid)

/-- `SP_INS_STRATEGY`. `generated` is what `gen_random_uuid()` returns. -/
def spInsStrategy (f : Faults) (now : ℤ) (generated : ℕ) (a : StrategyArgs) :
    Sql (List StrategyRow) (OutRow (Option ℕ × Option ℕ)) :=
  Sql.block
    (if isBlank a.strategyNm then pure ⟨"22023", "IN_STRATEGY_NM is required", none, none⟩
    else if isBlank a.userId then pure ⟨"22023", "IN_USER_ID is required", none, none⟩
    else insStrategy f now generated a)
    (OutRow.failure (none, none))

variable {f : Faults} {now : ℤ}

/-- The rows of `SP_INS_QUEUE` are next versions of the job it names. -/
theorem QueueArgs.newVersion (a : QueueArgs) :
    NewVersion QueueRow.table now a.queueId (a.row now) := by
  intro vid r h
  obtain ⟨queueId, hid, h⟩ := Result.bind_eq_ok.mp h
  obtain ⟨_, -, h⟩ := Result.bind_eq_ok.mp h
  obtain ⟨_, -, h⟩ := Result.bind_eq_ok.mp h
  obtain ⟨_, -, h⟩ := Result.bind_eq_ok.mp h
  obtain ⟨_, -, h⟩ := Result.bind_eq_ok.mp h
  obtain ⟨_, -, h⟩ := Result.bind_eq_ok.mp h
  cases h
  exact ⟨notNull_eq_ok.mp hid, rfl, rfl, rfl⟩

/-- **`SP_INS_QUEUE` keeps every job's history**, whatever it reports. The version that is written
follows the job's last one and begins where that one is closed, and a call that fails writes none.
-/
theorem spInsQueue_histories {a : QueueArgs} {log log' : List QueueRow} {row : OutRow Unit}
    (h : spInsQueue f now a log = .ok (row, log')) (hlog : QueueRow.table.Histories log) :
    QueueRow.table.Histories log' := by
  obtain h | ⟨e, -, -, h⟩ := Sql.block_eq_ok.mp h
  · obtain ⟨vid, hins, rfl⟩ := logged_eq_ok h
    exact insVersion_histories a.newVersion hins hlog
  · cases h
    exact hlog

/-- What `SP_INS_STRATEGY` leaves: the table as it was, or the next version of an id,
flagged as the best when it is the first one. -/
theorem spInsStrategy_eq_ok {generated : ℕ} {a : StrategyArgs} {log log' : List StrategyRow}
    {row : OutRow (Option ℕ × Option ℕ)}
    (h : spInsStrategy f now generated a log = .ok (row, log')) : log' = log ∨
      ∃ r : StrategyRow, r.strategyVid = StrategyRow.table.nextVid log (some r.strategyId) ∧
        r.transactFromTs = now ∧ r.transactToTs = ⊤ ∧
        r.isBestInd = (if r.strategyVid = 1 then 'Y' else 'N') ∧
        log' = r :: StrategyRow.table.closeOpen now (some r.strategyId) log := by
  obtain h | ⟨e, -, -, h⟩ := Sql.block_eq_ok.mp h
  · split at h
    · cases Sql.pure_eq_ok.mp h
      exact Or.inl rfl
    · split at h
      · cases Sql.pure_eq_ok.mp h
        exact Or.inl rfl
      · obtain ⟨_, _, hlock, h⟩ := Sql.bind_eq_ok.mp h
        obtain ⟨-, hlock⟩ := Sql.statement_eq_ok.mp hlock
        cases hlock
        obtain ⟨_, _, hresolve, h⟩ := Sql.bind_eq_ok.mp h
        obtain ⟨-, hresolve⟩ := Sql.statement_eq_ok.mp hresolve
        cases hresolve
        obtain ⟨_, _, hget, h⟩ := Sql.bind_eq_ok.mp h
        cases Sql.get_eq_ok.mp hget
        obtain ⟨vid, hins, rfl⟩ := logged_eq_ok h
        obtain ⟨-, -, -, rfl, -, r, hr, -, rfl⟩ := insVersion_eq_ok.mp hins
        obtain ⟨_, -, hr⟩ := Result.bind_eq_ok.mp hr
        obtain ⟨_, -, hr⟩ := Result.bind_eq_ok.mp hr
        cases hr
        exact Or.inr ⟨_, rfl, rfl, rfl, rfl, rfl⟩
  · cases h
    exact Or.inl rfl

/-- **`SP_INS_STRATEGY` keeps every strategy's history**, whatever it reports and whichever id the
name has. A name that is not known opens a history of one version under a new id, a known one
continues the history that it names. -/
theorem spInsStrategy_histories {generated : ℕ} {a : StrategyArgs} {log log' : List StrategyRow}
    {row : OutRow (Option ℕ × Option ℕ)}
    (h : spInsStrategy f now generated a log = .ok (row, log'))
    (hlog : StrategyRow.table.Histories log) : StrategyRow.table.Histories log' := by
  obtain rfl | ⟨r, hvid, hfrom, hto, -, rfl⟩ := spInsStrategy_eq_ok h
  · exact hlog
  · exact hlog.append hvid hfrom hto

/-- What `SP_INS_STRATEGY` returns when it reports success: a version of the name, the config
and the user that it was called with. -/
theorem spInsStrategy_stored {generated : ℕ} {a : StrategyArgs} {log log' : List StrategyRow}
    {row : OutRow (Option ℕ × Option ℕ)}
    (h : spInsStrategy f now generated a log = .ok (row, log')) (hok : row.sqlstate = "00000") :
    ∃ r ∈ log', row.tail = (some r.strategyId, some r.strategyVid) ∧
      r.strategyNm = a.strategyNm ∧ some r.configJson = a.configJson ∧
      some r.userId = a.userId := by
  obtain h | ⟨e, -, -, h⟩ := Sql.block_eq_ok.mp h
  · split at h
    · cases Sql.pure_eq_ok.mp h
      exact absurd hok (by decide : "22023" ≠ "00000")
    · split at h
      · cases Sql.pure_eq_ok.mp h
        exact absurd hok (by decide : "22023" ≠ "00000")
      · obtain ⟨_, _, hlock, h⟩ := Sql.bind_eq_ok.mp h
        obtain ⟨-, hlock⟩ := Sql.statement_eq_ok.mp hlock
        cases hlock
        obtain ⟨_, _, hresolve, h⟩ := Sql.bind_eq_ok.mp h
        obtain ⟨-, hresolve⟩ := Sql.statement_eq_ok.mp hresolve
        cases hresolve
        obtain ⟨_, _, hget, h⟩ := Sql.bind_eq_ok.mp h
        cases Sql.get_eq_ok.mp hget
        obtain ⟨vid, hins, rfl⟩ := logged_eq_ok h
        obtain ⟨-, -, -, rfl, -, r, hr, -, rfl⟩ := insVersion_eq_ok.mp hins
        obtain ⟨_, hconfig, hr⟩ := Result.bind_eq_ok.mp hr
        obtain ⟨_, huser, hr⟩ := Result.bind_eq_ok.mp hr
        cases hr
        exact ⟨_, List.mem_cons_self, rfl, rfl, (notNull_eq_ok.mp hconfig).symm,
          (notNull_eq_ok.mp huser).symm⟩
  · cases h
    exact absurd hok e.failed

/-- A version keeps its name, its config and its user, whatever `SP_INS_STRATEGY` reports. -/
theorem spInsStrategy_keeps {generated : ℕ} {a : StrategyArgs} {log log' : List StrategyRow}
    {row : OutRow (Option ℕ × Option ℕ)}
    (h : spInsStrategy f now generated a log = .ok (row, log')) {r : StrategyRow} (hr : r ∈ log) :
    ∃ r' ∈ log', r'.strategyId = r.strategyId ∧ r'.strategyVid = r.strategyVid ∧
      r'.strategyNm = r.strategyNm ∧ r'.configJson = r.configJson ∧ r'.userId = r.userId := by
  obtain rfl | ⟨x, -, -, -, -, rfl⟩ := spInsStrategy_eq_ok h
  · exact ⟨r, hr, rfl, rfl, rfl, rfl, rfl⟩
  · refine ⟨_, List.mem_cons_of_mem _ (List.mem_map_of_mem hr), ?_⟩
    split
    · exact ⟨rfl, rfl, rfl, rfl, rfl⟩
    · exact ⟨rfl, rfl, rfl, rfl, rfl⟩

end Database
