import QuantStrategies.Database.Deployment

/-!
# Writing a deployment, all or nothing

A write of a deployment has many parts that may fail: the connection, the
statements of the procedure, those of the nested call, and the commit. Whatever
the outer procedure raises undoes both tables. What the nested one raises is
trapped there and becomes a status, and that status is looked at by nobody: the
version is committed without its schedule row, and the caller sees success.

That is the one way in which a write is neither all nor nothing. The log of the
calls is no part of a write: `CORE_INS_LOG_PROC` keeps its own troubles to itself.

The condition under which all or nothing holds is about the nested call: where a schedule
row is owed, an error that its procedure traps must not come alone (`NestedHeard`). It is an
equivalence for every state, every set of arguments and every way in which the server may
fail.
-/

namespace Database

variable {f : Faults} {now : ℤ} {a : DeploymentArgs} {s s' : DeploymentTables}
variable {nested : Option (OutRow Unit)}

/-- The call of `SP_INS_DEPLOYMENT` by `TradeRepo.write_deployment`. -/
def writeDeployment (f : Faults) (now : ℤ) (a : DeploymentArgs) (s : DeploymentTables) :
    Except CallError Unit × DeploymentTables :=
  callWrite f (spInsDeployment f now a) s

/-- The call of `SP_INS_DEPLOYMENT_SCHEDULE_STATUS` by the scheduler. -/
def writeScheduleStatus (f : Faults) (b : ScheduleStatusArgs) (s : DeploymentTables) :
    Except CallError Unit × DeploymentTables :=
  callWrite f (Sql.zoom DeploymentTables.schedule (fun log s => { s with schedule := log })
    (spInsScheduleStatus f b)) s

/-- The tables that calls of the two procedures lead to, whatever the server refuses. -/
inductive Reachable : DeploymentTables → Prop where
  | empty : Reachable ⟨[], []⟩
  | deployment {s : DeploymentTables} (h : Reachable s) (f : Faults) (now : ℤ)
      (a : DeploymentArgs) : Reachable (writeDeployment f now a s).2
  | schedule {s : DeploymentTables} (h : Reachable s) (f : Faults) (b : ScheduleStatusArgs) :
      Reachable (writeScheduleStatus f b s).2

/-- The number of the version that a call writes. -/
def DeploymentTables.nextVid (s : DeploymentTables) (a : DeploymentArgs) : ℕ :=
  DeploymentRow.table.nextVid s.deployments a.deploymentId

/-- The prior row of the schedule, for a version that has one. -/
def priorSchedule (log : List ScheduleStatusRow) (a : DeploymentArgs) (vid : ℕ) :
    Option ScheduleStatusRow :=
  if 1 < vid then currentSchedule log a.deploymentId else none

/-- The schedule row that a call owes. -/
def DeploymentTables.owed (s : DeploymentTables) (now : ℤ) (a : DeploymentArgs) :
    Option (String × ℤ) :=
  scheduleOwed a now (s.nextVid a) (priorSchedule s.schedule a (s.nextVid a))

/-- A part of the call fails: the connection, the commit, a statement, or the
nested call, by its status. -/
def PartFails (f : Faults) (now : ℤ) (a : DeploymentArgs) (s : DeploymentTables) : Prop :=
  (f .connect).isSome ∨ (f .commit).isSome ∨ (∃ e, insDeployment f now a s = .error e) ∨
    ∃ row s', insDeployment f now a s = .ok (some row, s') ∧ row.sqlstate ≠ "00000"

/-- The new version is stored, and so is the schedule row that it owes. -/
structure Committed (now : ℤ) (a : DeploymentArgs) (s s' : DeploymentTables) : Prop where
  /-- The version that the call makes is in the table. -/
  version : ∃ r ∈ s'.deployments, a.row now (s.nextVid a) = .ok r
  /-- And so is the schedule row that it owes, if it owes one. -/
  schedule : ∀ owed, s.owed now a = some owed → ∃ ss ∈ s'.schedule, ∃ vid,
    (a.scheduleArgs (s.nextVid a) owed).row vid = .ok ss

/-- **All or nothing**: when a part of the call fails, the caller sees an error and
nothing is stored; when the caller sees success, all is. -/
structure AllOrNothing (f : Faults) (now : ℤ) (a : DeploymentArgs) (s : DeploymentTables) :
    Prop where
  /-- A part fails: the caller sees it, and nothing has changed. -/
  nothing : PartFails f now a s →
    (∃ e, (writeDeployment f now a s).1 = .error e) ∧ (writeDeployment f now a s).2 = s
  /-- The caller sees success: all is there. -/
  all : (∃ u, (writeDeployment f now a s).1 = .ok u) →
    Committed now a s (writeDeployment f now a s).2

/-- The error of a statement, when no handler takes it. -/
def escaped (fault : Option SqlError) : Option SqlError := fault.filter (fun e => !e.others)

/-- The error that ends the nested call, if one does: the first that its statements
meet. -/
def nestedError (f : Faults) (log : List ScheduleStatusRow) (scheduleId : Option ℕ) :
    Option SqlError :=
  match f .scheduleNextVid, int4 (nextScheduleVid log scheduleId), f .scheduleClose,
      f .scheduleInsert with
  | some e, _, _, _ => some e
  | none, .error e, _, _ => some e
  | none, .ok _, some e, _ => some e
  | none, .ok _, none, some e => some e
  | none, .ok _, none, none => escaped (f .scheduleLog)

/-- A part of the call other than the nested call fails. -/
def FailsElsewhere (f : Faults) (now : ℤ) (a : DeploymentArgs) (s : DeploymentTables) : Prop :=
  (f .connect).isSome ∨ (f .commit).isSome ∨ (f .nextVid).isSome ∨ (f .close).isSome ∨
    (f .insert).isSome ∨ maxInt4 < s.nextVid a ∨ (∀ r, a.row now (s.nextVid a) ≠ .ok r) ∨
    (1 < s.nextVid a ∧ (f .prior).isSome) ∨ (escaped (f .log)).isSome

/-- Where a schedule row is owed, an error that the nested procedure traps does not
come alone. -/
def NestedHeard (f : Faults) (now : ℤ) (a : DeploymentArgs) (s : DeploymentTables) : Prop :=
  (s.owed now a).isSome → ∀ e, nestedError f s.schedule a.deploymentId = some e →
    e.others = true → FailsElsewhere f now a s

/-! ## What the parts do -/

/-- A log call goes through unless an error escapes it. -/
theorem coreInsLogProc_ok_iff {σ : Type} {fault : Option SqlError} {t t' : σ} :
    (∃ row, coreInsLogProc fault t = .ok (row, t')) ↔ escaped fault = none ∧ t' = t := by
  constructor
  · rintro ⟨row, h⟩
    refine ⟨?_, coreInsLogProc_state h⟩
    cases fault with
    | none => rfl
    | some e =>
      obtain h | ⟨e', h, hothers, -⟩ := Sql.block_eq_ok.mp h
      · cases h
      · cases h
        show Option.filter _ (some e) = none
        rw [Option.filter_some, hothers]
        rfl
  · rintro ⟨hfault, rfl⟩
    cases fault with
    | none => exact ⟨_, rfl⟩
    | some e =>
      refine ⟨OutRow.failure () e, Sql.block_eq_ok.mpr (.inr ⟨e, rfl, ?_, rfl⟩)⟩
      unfold escaped at hfault
      rw [Option.filter_some] at hfault
      cases hothers : e.others with
      | true => rfl
      | false =>
        rw [hothers] at hfault
        cases hfault

/-- What escapes the handler of the log escapes the log. -/
theorem coreInsLogProc_error {σ : Type} {fault : Option SqlError} {t : σ} {e : SqlError}
    (h : escaped fault = some e) : coreInsLogProc fault t = .error e := by
  obtain ⟨rfl, hothers⟩ := Option.filter_eq_some_iff.mp h
  refine Sql.block_eq_error.mpr ⟨rfl, ?_⟩
  exact (Bool.not_eq_true' _).mp hothers

/-- The number above the highest is no number of the table, and the schedule has no
current row left: no constraint refuses the new one. -/
theorem insertRow_scheduleStatus {log : List ScheduleStatusRow} {r : ScheduleStatusRow}
    (hvid : r.deploymentScheduleVid = nextScheduleVid log (some r.deploymentScheduleId)) :
    insertRow ScheduleStatusRow.unique r (supersede (some r.deploymentScheduleId) log) =
      .ok (r :: supersede (some r.deploymentScheduleId) log) := by
  refine insertRow_eq_ok.mpr ⟨fun u hu v hv => Bool.eq_false_iff.mpr fun hsame => ?_, rfl⟩
  obtain ⟨w, hw, rfl⟩ := List.mem_map.mp hv
  obtain rfl | hu := List.mem_cons.mp hu
  · -- the primary key
    rw [Bool.and_eq_true, decide_eq_true_eq, decide_eq_true_eq] at hsame
    obtain ⟨hid, hsame⟩ := hsame
    have hlt : w.deploymentScheduleVid < r.deploymentScheduleVid := by
      rw [hvid]
      refine Versioned.lt_nextVid hw (congrArg some ?_)
      rw [hid]
      split <;> rfl
    refine absurd hsame (ne_of_gt ?_)
    split
    · exact hlt
    · exact hlt
  · obtain rfl := List.mem_singleton.mp hu
    -- the current row
    rw [Bool.and_eq_true, Bool.and_eq_true, decide_eq_true_eq, decide_eq_true_eq,
      decide_eq_true_eq] at hsame
    obtain ⟨⟨hid, -⟩, hcurrent⟩ := hsame
    split at hcurrent
    · exact absurd hcurrent (show ¬ 'N' = 'Y' from by decide)
    · next hno =>
      rw [if_neg hno] at hid
      exact hno ⟨congrArg some hid.symm, hcurrent⟩

/-- The nested procedure stops where its statements say, or appends its row. -/
theorem insScheduleStatus_eq {b : ScheduleStatusArgs} {log : List ScheduleStatusRow}
    {row : ℕ → ScheduleStatusRow} {id : ℕ} (hrow : ∀ vid, b.row vid = .ok (row vid))
    (hid : b.deploymentScheduleId = some id) (hkey : ∀ vid, (row vid).deploymentScheduleId = id)
    (hvid : ∀ vid, (row vid).deploymentScheduleVid = vid) :
    insScheduleStatus f b log =
      match nestedError f log (some id) with
      | some e => .error e
      | none => .ok ((), row (nextScheduleVid log (some id)) :: supersede (some id) log) := by
  unfold insScheduleStatus nestedError
  rw [hid]
  cases h1 : f .scheduleNextVid with
  | some e => exact Sql.bind_of_error rfl
  | none =>
    rw [Sql.bind_of_ok rfl, Sql.bind_of_ok rfl]
    cases h2 : int4 (nextScheduleVid log (some id)) with
    | error e => exact Sql.bind_of_error rfl
    | ok vid =>
      obtain ⟨-, rfl⟩ := int4_eq_ok.mp h2
      rw [Sql.bind_of_ok rfl]
      cases h3 : f .scheduleClose with
      | some e => exact Sql.bind_of_error rfl
      | none =>
        rw [Sql.bind_of_ok rfl, Sql.bind_of_ok rfl]
        cases h4 : f .scheduleInsert with
        | some e => exact Sql.bind_of_error rfl
        | none =>
          have hnumber : (row (nextScheduleVid log (some id))).deploymentScheduleVid =
              nextScheduleVid log (some (row (nextScheduleVid log (some id))).deploymentScheduleId) := by
            rw [hkey, hvid]
          have hinsert := insertRow_scheduleStatus hnumber
          rw [hkey] at hinsert
          rw [Sql.bind_of_ok rfl, Sql.bind_of_ok (Sql.eval_eq_ok.mpr ⟨_, hrow _, rfl⟩),
            Sql.bind_of_ok rfl, Sql.bind_of_ok (Sql.eval_eq_ok.mpr ⟨_, hinsert, rfl⟩),
            Sql.bind_of_ok rfl]
          show _ = (match escaped (f .scheduleLog) with
            | some e => Except.error e
            | none => Except.ok ((), row (nextScheduleVid log (some id)) :: supersede (some id) log))
          cases h5 : escaped (f .scheduleLog) with
          | some e => exact Sql.bind_of_error (coreInsLogProc_error h5)
          | none =>
            obtain ⟨_, hlogged⟩ := coreInsLogProc_ok_iff.mpr ⟨h5, rfl⟩
            exact Sql.bind_of_ok hlogged

/-- The row of a nested call of a version that was inserted. -/
theorem scheduleArgs_row {r : DeploymentRow} {vid : ℕ} (hr : a.row now vid = .ok r)
    (owed : String × ℤ) (scheduleVid : ℕ) :
    (a.scheduleArgs vid owed).row scheduleVid =
      .ok ⟨r.deploymentId, scheduleVid, r.deploymentId, vid, owed.1, owed.2, 'Y', r.userId⟩ ∧
    a.deploymentId = some r.deploymentId := by
  obtain ⟨hid, huser, -⟩ := DeploymentArgs.of_row hr
  refine ⟨?_, hid⟩
  unfold ScheduleStatusArgs.row DeploymentArgs.scheduleArgs
  rw [hid, huser]
  rfl

/-- **What the nested call reports**, of a version that was inserted: that it appended
its row, or the error that its handler took. -/
theorem spInsScheduleStatus_eq_ok {r : DeploymentRow} {vid : ℕ} (hr : a.row now vid = .ok r)
    {owed : String × ℤ} {log log' : List ScheduleStatusRow} {row : OutRow Unit} :
    spInsScheduleStatus f (a.scheduleArgs vid owed) log = .ok (row, log') ↔
      (nestedError f log a.deploymentId = none ∧ row = OutRow.success () ∧
        log' = ⟨r.deploymentId, nextScheduleVid log a.deploymentId, r.deploymentId, vid, owed.1,
          owed.2, 'Y', r.userId⟩ :: supersede a.deploymentId log) ∨
      ∃ e, nestedError f log a.deploymentId = some e ∧ e.others = true ∧
        row = OutRow.failure () e ∧ log' = log := by
  have hid := (scheduleArgs_row hr owed 0).2
  have hbody : insScheduleStatus f (a.scheduleArgs vid owed) log = _ :=
    insScheduleStatus_eq (fun v => (scheduleArgs_row hr owed v).1) hid (fun _ => rfl) (fun _ => rfl)
  rw [← hid] at hbody
  unfold spInsScheduleStatus
  rw [Sql.block_eq_ok]
  cases herr : nestedError f log a.deploymentId with
  | some e =>
    rw [herr] at hbody
    rw [Sql.bind_of_error hbody]
    constructor
    · rintro (h | ⟨e', he, hothers, h⟩)
      · cases h
      · cases he
        cases h
        exact .inr ⟨e, rfl, hothers, rfl, rfl⟩
    · rintro (⟨h, -⟩ | ⟨e', he, hothers, rfl, rfl⟩)
      · cases h
      · cases he
        exact .inr ⟨e, rfl, hothers, rfl⟩
  | none =>
    rw [herr] at hbody
    rw [Sql.bind_of_ok hbody]
    constructor
    · rintro (h | ⟨e', he, -⟩)
      · cases Sql.pure_eq_ok.mp h
        exact .inl ⟨rfl, rfl, rfl⟩
      · cases he
    · rintro (⟨-, rfl, rfl⟩ | ⟨e', he, -⟩)
      · exact .inl rfl
      · cases he

/-- What the versioning of a deployment does. Its number is above every other, so the
key never refuses it. -/
theorem insVersion_deployments {log log' : List DeploymentRow} {vid : ℕ} :
    insVersion DeploymentRow.table DeploymentRow.unique f now a.deploymentId (a.row now) log =
        .ok (vid, log') ↔
      f .nextVid = none ∧ f .close = none ∧ f .insert = none ∧
      vid = DeploymentRow.table.nextVid log a.deploymentId ∧ vid ≤ maxInt4 ∧
      ∃ r, a.row now vid = .ok r ∧
        log' = r :: DeploymentRow.table.closeOpen now a.deploymentId log := by
  rw [insVersion_eq_ok]
  constructor
  · rintro ⟨h1, h2, h3, hvid, hmax, r, hr, -, hlog⟩
    exact ⟨h1, h2, h3, hvid, hmax, r, hr, hlog⟩
  · rintro ⟨h1, h2, h3, hvid, hmax, r, hr, hlog⟩
    refine ⟨h1, h2, h3, hvid, hmax, r, hr, fun u hu v hv => ?_, hlog⟩
    obtain rfl := List.mem_singleton.mp hu
    refine Bool.eq_false_iff.mpr fun hsame => ?_
    rw [Bool.and_eq_true, decide_eq_true_eq, decide_eq_true_eq] at hsame
    obtain ⟨hkey, hsame⟩ := hsame
    obtain ⟨hid, hrvid, -⟩ := a.newVersion vid r hr
    have hlt := SoftTable.lt_nextVid_of_mem_closeOpen hv
      (hid.trans (congrArg some hkey)).symm
    rw [← hvid, ← hrvid] at hlt
    exact absurd hsame (ne_of_gt hlt)

/-- The prior row is read from the second version on. -/
theorem readPrior_eq_ok {vid : ℕ} {log t : List ScheduleStatusRow}
    {prior : Option ScheduleStatusRow} :
    readPrior f a vid log = .ok (prior, t) ↔
      (1 < vid → f .prior = none) ∧ prior = priorSchedule log a vid ∧ t = log := by
  unfold readPrior priorSchedule
  by_cases h : 1 < vid
  · rw [if_pos h, if_pos h]
    constructor
    · intro hread
      obtain ⟨_, _, hstmt, hread⟩ := Sql.bind_eq_ok.mp hread
      obtain ⟨hfault, hstmt⟩ := Sql.statement_eq_ok.mp hstmt
      cases hstmt
      cases Sql.pure_eq_ok.mp hread
      exact ⟨fun _ => hfault, rfl, rfl⟩
    · rintro ⟨hfault, rfl, rfl⟩
      exact Sql.bind_of_ok (Sql.statement_eq_ok.mpr ⟨hfault h, rfl⟩)
  · rw [if_neg h, if_neg h, Except.ok.injEq, Prod.mk.injEq]
    constructor
    · rintro ⟨rfl, rfl⟩
      exact ⟨fun hlt => absurd hlt h, rfl, rfl⟩
    · rintro ⟨-, rfl, rfl⟩
      exact ⟨rfl, rfl⟩

/-- The nested call is made when a row is owed. -/
theorem callSchedule_eq_ok {vid : ℕ} {log sched : List ScheduleStatusRow} :
    callSchedule f a now vid log = .ok (nested, sched) ↔
      (1 < vid → f .prior = none) ∧
      match scheduleOwed a now vid (priorSchedule log a vid) with
      | some owed => ∃ row, spInsScheduleStatus f (a.scheduleArgs vid owed) log = .ok (row, sched) ∧
          nested = some row
      | none => nested = none ∧ sched = log := by
  unfold callSchedule
  rw [Sql.bind_eq_ok]
  have hmap : ∀ (x : Sql (List ScheduleStatusRow) (OutRow Unit)),
      (some <$> x) log = .ok (nested, sched) ↔
        ∃ row, x log = .ok (row, sched) ∧ nested = some row := by
    intro x
    show (x >>= fun row => pure (some row)) log = _ ↔ _
    rw [Sql.bind_eq_ok]
    constructor
    · rintro ⟨row, t, hx, h⟩
      cases Sql.pure_eq_ok.mp h
      exact ⟨row, hx, rfl⟩
    · rintro ⟨row, hx, rfl⟩
      exact ⟨row, sched, hx, rfl⟩
  constructor
  · rintro ⟨prior, t, hread, h⟩
    obtain ⟨hfault, rfl, rfl⟩ := readPrior_eq_ok.mp hread
    refine ⟨hfault, ?_⟩
    cases howed : scheduleOwed a now vid (priorSchedule t a vid) with
    | some owed =>
      rw [howed] at h
      exact (hmap _).mp h
    | none =>
      rw [howed] at h
      cases Sql.pure_eq_ok.mp h
      exact ⟨rfl, rfl⟩
  · rintro ⟨hfault, h⟩
    refine ⟨_, log, readPrior_eq_ok.mpr ⟨hfault, rfl, rfl⟩, ?_⟩
    cases howed : scheduleOwed a now vid (priorSchedule log a vid) with
    | some owed =>
      rw [howed] at h
      exact (hmap _).mpr h
    | none =>
      rw [howed] at h
      obtain ⟨rfl, rfl⟩ := h
      rfl

/-- The procedure goes through when its versioning does, the schedule follows, and no
error escapes the log call. -/
theorem insDeployment_eq_ok :
    insDeployment f now a s = .ok (nested, s') ↔
      ∃ vid log sched,
        insVersion DeploymentRow.table DeploymentRow.unique f now a.deploymentId (a.row now)
          s.deployments = .ok (vid, log) ∧
        callSchedule f a now vid s.schedule = .ok (nested, sched) ∧ escaped (f .log) = none ∧
        s' = ⟨log, sched⟩ := by
  unfold insDeployment
  constructor
  · intro h
    obtain ⟨vid, _, h1, h⟩ := Sql.bind_eq_ok.mp h
    obtain ⟨vid', log, hins, h1⟩ := Sql.zoom_eq_ok.mp h1
    cases h1
    obtain ⟨nested', _, h2, h⟩ := Sql.bind_eq_ok.mp h
    obtain ⟨nested'', sched, hcall, h2⟩ := Sql.zoom_eq_ok.mp h2
    cases h2
    obtain ⟨_, _, h3, h⟩ := Sql.bind_eq_ok.mp h
    obtain ⟨hlog, rfl⟩ := coreInsLogProc_ok_iff.mp ⟨_, h3⟩
    cases Sql.pure_eq_ok.mp h
    exact ⟨_, log, sched, hins, hcall, hlog, rfl⟩
  · rintro ⟨vid, log, sched, hins, hcall, hlog, rfl⟩
    refine (Sql.bind_of_ok (Sql.zoom_eq_ok.mpr ⟨vid, log, hins, rfl⟩)).trans ?_
    have hfollows : Sql.zoom DeploymentTables.schedule (fun log s => { s with schedule := log })
        (callSchedule f a now vid) ⟨log, s.schedule⟩ = .ok (nested, ⟨log, sched⟩) :=
      Sql.zoom_eq_ok.mpr ⟨nested, sched, hcall, rfl⟩
    refine (Sql.bind_of_ok hfollows).trans ?_
    obtain ⟨_, hlogged⟩ := coreInsLogProc_ok_iff.mpr ⟨hlog, rfl⟩
    exact Sql.bind_of_ok hlogged

/-- The caller sees success exactly when the connection, the statements of the procedure
and the commit go through. What the nested call reported plays no part. -/
theorem writeDeployment_ok_iff {u : Unit} :
    writeDeployment f now a s = (.ok u, s') ↔ f .connect = none ∧ f .commit = none ∧
      ∃ nested, insDeployment f now a s = .ok (nested, s') := by
  unfold writeDeployment
  rw [callWrite_eq_ok]
  constructor
  · rintro ⟨hconnect, hcommit, row, h, hok, -⟩
    refine ⟨hconnect, hcommit, ?_⟩
    obtain h | ⟨e, -, -, h⟩ := Sql.block_eq_ok.mp h
    · obtain ⟨nested, _, hins, h⟩ := Sql.bind_eq_ok.mp h
      cases Sql.pure_eq_ok.mp h
      exact ⟨nested, hins⟩
    · cases h
      exact absurd hok e.failed
  · rintro ⟨hconnect, hcommit, nested, h⟩
    refine ⟨hconnect, hcommit, OutRow.success (), ?_, rfl, rfl⟩
    exact Sql.block_eq_ok.mpr (.inl ((Sql.bind_of_ok h).trans rfl))

/-! ## All or nothing -/

/-- What a call did that went through: nothing failed elsewhere, the version is in, and
the nested call appended the row that is owed, or reported its error. -/
theorem insDeployment_ok_cases (hconnect : f .connect = none) (hcommit : f .commit = none)
    (h : insDeployment f now a s = .ok (nested, s')) :
    ¬ FailsElsewhere f now a s ∧ (∃ r ∈ s'.deployments, a.row now (s.nextVid a) = .ok r) ∧
    ((∃ e, (s.owed now a).isSome ∧ nestedError f s.schedule a.deploymentId = some e ∧
        e.others = true ∧ nested = some (OutRow.failure () e)) ∨
      ((nested = none ∨ nested = some (OutRow.success ())) ∧
        ∀ owed, s.owed now a = some owed → ∃ ss ∈ s'.schedule, ∃ vid,
          (a.scheduleArgs (s.nextVid a) owed).row vid = .ok ss)) := by
  obtain ⟨vid, log, sched, hins, hcall, hlog, rfl⟩ := insDeployment_eq_ok.mp h
  obtain ⟨hnext, hclose, hinsert, hvid, hmax, r, hr, rfl⟩ := insVersion_deployments.mp hins
  obtain ⟨hprior, hcall⟩ := callSchedule_eq_ok.mp hcall
  have hvid : s.nextVid a = vid := hvid.symm
  have howed : s.owed now a = scheduleOwed a now vid (priorSchedule s.schedule a vid) := by
    unfold DeploymentTables.owed
    rw [hvid]
  rw [howed, hvid]
  refine ⟨?_, ⟨r, List.mem_cons_self, hr⟩, ?_⟩
  · unfold FailsElsewhere
    rw [hvid, hconnect, hcommit, hnext, hclose, hinsert, hlog]
    rintro (h | h | h | h | h | h | h | ⟨hlt, h⟩ | h)
    · cases h
    · cases h
    · cases h
    · cases h
    · cases h
    · exact absurd hmax (not_le.mpr h)
    · exact h r hr
    · rw [hprior hlt] at h
      cases h
    · cases h
  · cases howed : scheduleOwed a now vid (priorSchedule s.schedule a vid) with
    | none =>
      rw [howed] at hcall
      obtain ⟨rfl, -⟩ := hcall
      exact .inr ⟨.inl rfl, fun _ h => nomatch h⟩
    | some owed =>
      rw [howed] at hcall
      obtain ⟨row, hrow, rfl⟩ := hcall
      obtain ⟨-, rfl, rfl⟩ | ⟨e, he, hothers, rfl, -⟩ := (spInsScheduleStatus_eq_ok hr).mp hrow
      · refine .inr ⟨.inr rfl, fun owed' h => ?_⟩
        cases h
        exact ⟨_, List.mem_cons_self, _, (scheduleArgs_row hr owed _).1⟩
      · exact .inl ⟨e, rfl, he, hothers, rfl⟩

/-- Where nothing fails elsewhere and a row is owed, an error that the nested procedure
traps is reported to a caller that goes on. -/
theorem insDeployment_unheard (helse : ¬ FailsElsewhere f now a s)
    (howed : (s.owed now a).isSome) {e : SqlError}
    (herr : nestedError f s.schedule a.deploymentId = some e) (hothers : e.others = true) :
    ∃ s', insDeployment f now a s = .ok (some (OutRow.failure () e), s') := by
  have hnone : ∀ {x : Option SqlError}, ¬ x.isSome → x = none := fun h =>
    Option.not_isSome_iff_eq_none.mp h
  unfold FailsElsewhere at helse
  rw [not_or, not_or, not_or, not_or, not_or, not_or, not_or, not_or] at helse
  obtain ⟨-, -, hnext, hclose, hinsert, hmax, hrow, hprior, hlog⟩ := helse
  obtain ⟨r, hr⟩ := not_forall_not.mp hrow
  obtain ⟨owed, howed⟩ := Option.isSome_iff_exists.mp howed
  have hins := insVersion_deployments.mpr
    ⟨hnone hnext, hnone hclose, hnone hinsert, rfl, not_lt.mp hmax, r, hr, rfl⟩
  have hnested : spInsScheduleStatus f (a.scheduleArgs (s.nextVid a) owed) s.schedule =
      .ok (OutRow.failure () e, s.schedule) :=
    (spInsScheduleStatus_eq_ok hr).mpr (.inr ⟨e, herr, hothers, rfl, rfl⟩)
  have hcall : callSchedule f a now (s.nextVid a) s.schedule =
      .ok (some (OutRow.failure () e), s.schedule) := by
    refine callSchedule_eq_ok.mpr ⟨fun hlt => hnone fun h => hprior ⟨hlt, h⟩, ?_⟩
    rw [show scheduleOwed a now (s.nextVid a) (priorSchedule s.schedule a (s.nextVid a)) =
      some owed from howed]
    exact ⟨_, hnested, rfl⟩
  exact ⟨_, insDeployment_eq_ok.mpr ⟨_, _, _, hins, hcall, hnone hlog, rfl⟩⟩

/-- **A write of a deployment is all or nothing exactly when** an error that the nested
procedure traps, where it is called, does not come alone. -/
theorem writeDeployment_allOrNothing_iff (f : Faults) (now : ℤ) (a : DeploymentArgs)
    (s : DeploymentTables) : AllOrNothing f now a s ↔ NestedHeard f now a s := by
  constructor
  · intro h howed e herr hothers
    by_contra helse
    obtain ⟨s', hins⟩ := insDeployment_unheard helse howed herr hothers
    have hconnect : f .connect = none := by
      by_contra hne
      exact helse (.inl (Option.isSome_iff_ne_none.mpr hne))
    have hcommit : f .commit = none := by
      by_contra hne
      exact helse (.inr (.inl (Option.isSome_iff_ne_none.mpr hne)))
    obtain ⟨⟨e', he'⟩, -⟩ := h.nothing (.inr (.inr (.inr ⟨_, s', hins, e.failed⟩)))
    have hok : writeDeployment f now a s = (.ok (), s') :=
      writeDeployment_ok_iff.mpr ⟨hconnect, hcommit, _, hins⟩
    rw [hok] at he'
    cases he'
  · intro h
    -- a call that the caller sees succeed, whatever failed, appended all it owes
    have hall : ∀ u s', writeDeployment f now a s = (.ok u, s') →
        ¬ PartFails f now a s ∧ Committed now a s s' := by
      intro u s' hok
      obtain ⟨hconnect, hcommit, nested, hins⟩ := writeDeployment_ok_iff.mp hok
      obtain ⟨helse, hversion, ⟨e, howed, herr, hothers, -⟩ | ⟨hnested, hschedule⟩⟩ :=
        insDeployment_ok_cases hconnect hcommit hins
      · exact absurd (h howed e herr hothers) helse
      · refine ⟨?_, hversion, hschedule⟩
        unfold PartFails
        rw [hconnect, hcommit, hins]
        rintro (hp | hp | ⟨e, hp⟩ | ⟨row, t, hp, hfailed⟩)
        · cases hp
        · cases hp
        · cases hp
        · cases hp
          obtain hnested | hnested := hnested
          · cases hnested
          · cases hnested
            exact hfailed rfl
    refine ⟨fun hfails => ?_, fun ⟨u, hok⟩ => (hall u _ (Prod.ext hok rfl)).2⟩
    cases hseen : (writeDeployment f now a s).1 with
    | error e => exact ⟨⟨e, rfl⟩, callWrite_error hseen⟩
    | ok u => exact absurd hfails (hall u _ (Prod.ext hseen rfl)).1

namespace DeploymentWrite

/-- A call in which the server raises nothing. -/
def quiet : Faults := fun _ => none

/-- A sweep moved the cursor between the nested call's number and its insert. -/
def clash : Faults := fun
  | .scheduleInsert => some (duplicateKey "deployment_schedule_status_pkey")
  | _ => none

/-- A deployment on an interval, enabled. -/
def create : DeploymentArgs :=
  ⟨some 7, some 1, some 3, some 1, some 2, some 4, some "btcusdt.crypto", some 1, some 'Y', some 'Y',
    some "ACTIVE", some 1, some "1", some 60⟩

/-- The same, disabled. -/
def disable : DeploymentArgs := { create with isEnabledInd := some 'N', initialScheduledTs := none }

/-- The tables after the deployment was created. -/
def created : DeploymentTables := (writeDeployment quiet 0 create ⟨[], []⟩).2

/-- The caller saw success: the current version is disabled, and a slot is still due. -/
def disabledButDue (r : Except CallError Unit × DeploymentTables) : Bool :=
  (match r.1 with
    | .ok _ => true
    | .error _ => false) &&
  r.2.deployments.any (fun d => d.transactToTs = ⊤ && d.isEnabledInd = 'N') &&
  r.2.schedule.any (fun ss => ss.isCurrentInd = 'Y' && ss.status = "PENDING") &&
  r.2.schedule = created.schedule

end DeploymentWrite

/-- A deployment is disabled while its cursor moves. The nested insert is refused, the
caller sees success, and the disabled deployment is still due. -/
theorem nested_failure_unheard :
    DeploymentWrite.disabledButDue (writeDeployment DeploymentWrite.clash 30 DeploymentWrite.disable
      DeploymentWrite.created) = true ∧
    ¬ ∀ s, Reachable s → ∀ (f : Faults) (now : ℤ) (a : DeploymentArgs),
      AllOrNothing f now a s := by
  refine ⟨by decide +kernel, fun h => ?_⟩
  have hreach : Reachable DeploymentWrite.created :=
    .deployment .empty DeploymentWrite.quiet 0 DeploymentWrite.create
  have hnothing := (h _ hreach DeploymentWrite.clash 30 DeploymentWrite.disable).nothing
    (.inr (.inr (.inr ⟨_, _, rfl, by decide⟩)))
  obtain ⟨e, he⟩ := hnothing.1
  cases he

end Database
