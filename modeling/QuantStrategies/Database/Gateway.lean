import QuantStrategies.Lib.Plpgsql
import QuantStrategies.Lib.SoftVersions

/-!
# The database gateway

Every write of the application is one `CALL` of a stored procedure in a
transaction of its own. The procedure traps its errors and reports them in its
OUT row; the gateway reads the code there, and commits when it is the code of
success. An error that no handler took, a lost connection and a refused commit
reach the caller as errors of the driver, and undo the call as well.

What may go wrong at a statement is an input here (`Faults`): the error that the
server raises there, if it raises one.

A procedure is a program over the table that may end in an SQL error, and `Sql.block` is its
handler. Which codes a handler takes, and which escape it, is PostgreSQL's own rule and part
of the library. So "the caller sees success" and "the table has changed" are two results of
one function, and can be compared.
-/

namespace Database

/-- The statements of the soft-versioned procedures, and what surrounds them. -/
inductive Statement where
  | connect
  | lock
  | resolve
  | nextVid
  | close
  | insert
  | payload
  | prior
  | scheduleNextVid
  | scheduleClose
  | scheduleInsert
  | scheduleLog
  | log
  | commit
deriving DecidableEq

/-- The errors that the server raises in one call, by statement. -/
abbrev Faults := Statement → Option SqlError

/-- The OUT row of a procedure: the status, and what it returns besides. -/
structure OutRow (α : Type) where
  /-- The status, `00000` for success. -/
  sqlstate : String
  /-- The message that goes with it. -/
  sqlerrmc : String
  /-- What the procedure returns besides. -/
  tail : α

namespace OutRow

variable {α : Type}

/-- `'00000'`. -/
def success (tail : α) : OutRow α := ⟨"00000", "Stored Procedure completed successfully", tail⟩

/-- What a handler reports of the error it took. -/
def failure (tail : α) (e : SqlError) : OutRow α := ⟨e.sqlstate, e.message, tail⟩

end OutRow

/-- The largest `INTEGER`. -/
def maxInt4 : ℕ := 2147483647

/-- An `INTEGER` sum. -/
def int4 (n : ℕ) : Except SqlError ℕ :=
  if n ≤ maxInt4 then .ok n else .error ⟨"22003", "integer out of range", by decide⟩

/-- A `NOT NULL` column. -/
def notNull {α : Type} (relation column : String) : Option α → Except SqlError α
  | some a => .ok a
  | none => .error ⟨"23502", "null value in column \"" ++ column ++ "\" of relation \"" ++
      relation ++ "\" violates not-null constraint", by decide⟩

/-- A unique constraint: its name, and which rows it keeps apart. -/
structure UniqueKey (V : Type) where
  /-- The name, as an error has it. -/
  name : String
  /-- Whether it keeps two rows apart. -/
  same : V → V → Bool

/-- What a unique constraint raises. -/
def duplicateKey (constraint : String) : SqlError :=
  ⟨"23505", "duplicate key value violates unique constraint \"" ++ constraint ++ "\"", by decide⟩

/-- Insert a row, unless a constraint of the table keeps it apart from one that is there. -/
def insertRow {V : Type} (unique : List (UniqueKey V)) (r : V) (log : List V) :
    Except SqlError (List V) :=
  match unique.find? (fun u => log.any (u.same r)) with
  | none => .ok (r :: log)
  | some u => .error (duplicateKey u.name)

/-- `CORE_INS_LOG_PROC`, which traps its own errors. -/
def coreInsLogProc {σ : Type} (fault : Option SqlError) : Sql σ (OutRow Unit) :=
  Sql.block (do
    Sql.statement fault
    return OutRow.success ()) (OutRow.failure ())

/-- The versioning of a soft-versioned procedure: the next number, the open row
closed, and the new row inserted. Returns the number. -/
def insVersion {V K : Type} [DecidableEq K] (T : SoftTable V K) (unique : List (UniqueKey V))
    (f : Faults) (now : ℤ) (k : Option K) (row : ℕ → Except SqlError V) : Sql (List V) ℕ := do
  Sql.statement (f .nextVid)
  let log ← get
  let vid ← Sql.eval (int4 (T.nextVid log k))
  Sql.statement (f .close)
  modify (T.closeOpen now k)
  Sql.statement (f .insert)
  let r ← Sql.eval (row vid)
  let closed ← get
  let written ← Sql.eval (insertRow unique r closed)
  set written
  return vid

/-- How a write is refused. -/
inductive CallError where
  | procedure (sqlstate message : String)
  | badShape
  | database (e : SqlError)

/-- The `work` of `_call_write`: the call, and a look at its OUT row. -/
def writeWork {σ α : Type} (call : Sql σ (Option (OutRow α))) : StateT σ (Except CallError) α :=
  fun s =>
    match call s with
    | .error e => .error (.database e)
    | .ok (none, _) => .error .badShape
    | .ok (some row, s') =>
        if row.sqlstate ≠ "00000" then .error (.procedure row.sqlstate row.sqlerrmc)
        else .ok (row.tail, s')

/-- `_call_write`, on a pooled connection: what the caller sees, and what is
stored. -/
def callWrite {σ α : Type} (f : Faults) (call : Sql σ (OutRow α)) (s : σ) :
    Except CallError α × σ :=
  match f .connect with
  | some e => (.error (.database e), s)
  | none => Sql.transaction (writeWork (some <$> call)) ((f .commit).map .database) s

variable {σ α V K : Type} {f : Faults} {call : Sql σ (OutRow α)} {s : σ}

/-- **A write that the caller sees fail left everything as it was.** The call is one transaction,
so that an error at any of its statements undoes all of it. -/
theorem callWrite_error {e : CallError} (h : (callWrite f call s).1 = .error e) :
    (callWrite f call s).2 = s := by
  unfold callWrite at h ⊢
  cases hconnect : f .connect with
  | some e' => rfl
  | none =>
    rw [hconnect] at h
    exact Sql.transaction_error (Prod.ext h rfl)

/-- A call that returns its OUT row. -/
theorem some_map_call (call : Sql σ (OutRow α)) (s : σ) :
    (some <$> call) s = (call s).map (fun r => (some r.1, r.2)) := by
  show (call s >>= fun r => pure (some r.1, r.2)) = _
  cases call s <;> rfl

/-- The work goes through when the call does and reports success. -/
theorem writeWork_eq_ok {a : α} {s' : σ} :
    writeWork (some <$> call) s = .ok (a, s') ↔
      ∃ row, call s = .ok (row, s') ∧ row.sqlstate = "00000" ∧ row.tail = a := by
  unfold writeWork
  rw [some_map_call]
  cases call s with
  | error e =>
    constructor
    · intro h
      cases h
    · rintro ⟨row, h, -⟩
      cases h
  | ok r =>
    obtain ⟨row, t⟩ := r
    show (if row.sqlstate ≠ "00000" then _ else _) = _ ↔ _
    split
    · next hfailed =>
      constructor
      · intro h
        cases h
      · rintro ⟨row', h, hok, -⟩
        cases h
        exact absurd hok hfailed
    · next hok =>
      constructor
      · intro h
        cases h
        exact ⟨row, rfl, not_not.mp hok, rfl⟩
      · rintro ⟨row', h, -, rfl⟩
        cases h
        rfl

/-- A write that the caller sees succeed committed what a call left that reported
success. -/
theorem callWrite_eq_ok {a : α} {s' : σ} :
    callWrite f call s = (.ok a, s') ↔ f .connect = none ∧ f .commit = none ∧
      ∃ row, call s = .ok (row, s') ∧ row.sqlstate = "00000" ∧ row.tail = a := by
  unfold callWrite
  cases f .connect with
  | some e =>
    constructor
    · intro h
      cases h
    · rintro ⟨h, -⟩
      cases h
  | none =>
    rw [← writeWork_eq_ok]
    constructor
    · intro h
      obtain ⟨hwork, hcommit⟩ := Sql.transaction_ok h
      exact ⟨rfl, Option.map_eq_none_iff.mp hcommit, hwork⟩
    · rintro ⟨-, hcommit, hwork⟩
      show Sql.transaction _ _ _ = _
      rw [hcommit]
      unfold Sql.transaction
      rw [hwork]
      rfl

/-- A code that a procedure reported stood in its OUT row. -/
theorem callWrite_procedure {sqlstate message : String}
    (h : (callWrite f call s).1 = .error (.procedure sqlstate message)) :
    ∃ row s', call s = .ok (row, s') ∧ row.sqlstate = sqlstate := by
  unfold callWrite at h
  cases hconnect : f .connect with
  | some e =>
    rw [hconnect] at h
    cases h
  | none =>
    rw [hconnect] at h
    unfold Sql.transaction writeWork at h
    rw [some_map_call] at h
    cases hcall : call s with
    | error e =>
      rw [hcall] at h
      cases h
    | ok r =>
      obtain ⟨row, s'⟩ := r
      rw [hcall] at h
      refine ⟨row, s', rfl, ?_⟩
      dsimp only [Except.map] at h
      split at h
      · next hwork =>
        split at hwork
        · cases hwork
          cases h
          rfl
        · cases hwork
      · cases hcommit : f .commit with
        | none =>
          rw [hcommit] at h
          cases h
        | some e =>
          rw [hcommit] at h
          cases h

/-- What every call keeps, a committed write keeps. -/
theorem callWrite_keeps {P : σ → Prop} (hs : P s)
    (hcall : ∀ row s', call s = .ok (row, s') → P s') : P (callWrite f call s).2 := by
  cases h : (callWrite f call s).1 with
  | error e =>
    rw [callWrite_error h]
    exact hs
  | ok a =>
    obtain ⟨-, -, row, hrow, -, -⟩ := callWrite_eq_ok.mp (Prod.ext h rfl)
    exact hcall _ _ hrow

/-- A row goes in exactly when no constraint keeps it apart from one that is there. -/
theorem insertRow_eq_ok {unique : List (UniqueKey V)} {r : V} {log log' : List V} :
    insertRow unique r log = .ok log' ↔
      (∀ u ∈ unique, ∀ v ∈ log, u.same r v = false) ∧ log' = r :: log := by
  unfold insertRow
  cases h : unique.find? (fun u => log.any (u.same r)) with
  | some u =>
    constructor
    · intro hok
      cases hok
    · rintro ⟨hno, -⟩
      have hany : log.any (u.same r) = true := by
        have hsome := List.find?_some h
        exact hsome
      obtain ⟨v, hv, hsame⟩ := List.any_eq_true.mp hany
      rw [hno u (List.mem_of_find?_eq_some h) v hv] at hsame
      cases hsame
  | none =>
    constructor
    · intro hok
      cases hok
      refine ⟨fun u hu v hv => ?_, rfl⟩
      have hno := List.find?_eq_none.mp h u hu
      exact Bool.eq_false_iff.mpr fun hsame => hno (List.any_eq_true.mpr ⟨v, hv, hsame⟩)
    · rintro ⟨-, rfl⟩
      rfl

/-- An `INTEGER` sum goes through up to the largest one, and is the sum. -/
theorem int4_eq_ok {n m : ℕ} : int4 n = .ok m ↔ n ≤ maxInt4 ∧ m = n := by
  unfold int4
  split
  · next h => simp [h, eq_comm]
  · next h => simp [h]

/-- A `NOT NULL` column takes a value and refuses `NULL`. -/
theorem notNull_eq_ok {relation column : String} {x : Option α} {a : α} :
    notNull relation column x = .ok a ↔ x = some a := by
  cases x with
  | none => simp [notNull]
  | some b => simp [notNull]

/-- A log call keeps the tables, whatever becomes of it. -/
theorem coreInsLogProc_state {fault : Option SqlError} {s s' : σ} {row : OutRow Unit}
    (h : coreInsLogProc fault s = .ok (row, s')) : s' = s := by
  obtain h | ⟨e, -, -, h⟩ := Sql.block_eq_ok.mp h
  · obtain ⟨_, _, hlog, h⟩ := Sql.bind_eq_ok.mp h
    obtain ⟨-, hlog⟩ := Sql.statement_eq_ok.mp hlog
    cases hlog
    cases Sql.pure_eq_ok.mp h
    rfl
  · cases h
    rfl

/-- A call that logs last leaves what its work left. -/
theorem logged_eq_ok {β : Type} {work : Sql σ β} {fault : Option SqlError} {done : β → OutRow α}
    {s' : σ} {row : OutRow α}
    (h : (do
      let b ← work
      let _ ← coreInsLogProc fault
      return done b) s = .ok (row, s')) : ∃ b, work s = .ok (b, s') ∧ row = done b := by
  obtain ⟨b, _, hwork, h⟩ := Sql.bind_eq_ok.mp h
  obtain ⟨_, _, hlogged, h⟩ := Sql.bind_eq_ok.mp h
  cases coreInsLogProc_state hlogged
  cases Sql.pure_eq_ok.mp h
  exact ⟨b, hwork, rfl⟩

/-- **What the versioning of a procedure does**, when it goes through. The number is the next one
and fits its column, no statement fails, no unique index refuses the row, and the log that is left
is the new row on top of the log with the open version closed. -/
theorem insVersion_eq_ok [DecidableEq K] {T : SoftTable V K} {unique : List (UniqueKey V)}
    {now : ℤ} {k : Option K} {row : ℕ → Except SqlError V} {log log' : List V} {vid : ℕ} :
    insVersion T unique f now k row log = .ok (vid, log') ↔
      f .nextVid = none ∧ f .close = none ∧ f .insert = none ∧
      vid = T.nextVid log k ∧ vid ≤ maxInt4 ∧ ∃ r, row vid = .ok r ∧
        (∀ u ∈ unique, ∀ v ∈ T.closeOpen now k log, u.same r v = false) ∧
        log' = r :: T.closeOpen now k log := by
  unfold insVersion
  constructor
  · intro h
    obtain ⟨_, _, h1, h⟩ := Sql.bind_eq_ok.mp h
    obtain ⟨hnext, h1⟩ := Sql.statement_eq_ok.mp h1
    cases h1
    obtain ⟨_, _, h2, h⟩ := Sql.bind_eq_ok.mp h
    cases Sql.get_eq_ok.mp h2
    obtain ⟨_, _, h3, h⟩ := Sql.bind_eq_ok.mp h
    obtain ⟨vid', hvid, h3⟩ := Sql.eval_eq_ok.mp h3
    cases h3
    obtain ⟨hmax, rfl⟩ := int4_eq_ok.mp hvid
    obtain ⟨_, _, h4, h⟩ := Sql.bind_eq_ok.mp h
    obtain ⟨hclose, h4⟩ := Sql.statement_eq_ok.mp h4
    cases h4
    obtain ⟨_, _, h5, h⟩ := Sql.bind_eq_ok.mp h
    cases Sql.modify_eq_ok.mp h5
    obtain ⟨_, _, h6, h⟩ := Sql.bind_eq_ok.mp h
    obtain ⟨hinsert, h6⟩ := Sql.statement_eq_ok.mp h6
    cases h6
    obtain ⟨_, _, h7, h⟩ := Sql.bind_eq_ok.mp h
    obtain ⟨r, hr, h7⟩ := Sql.eval_eq_ok.mp h7
    cases h7
    obtain ⟨_, _, h8, h⟩ := Sql.bind_eq_ok.mp h
    cases Sql.get_eq_ok.mp h8
    obtain ⟨_, _, h9, h⟩ := Sql.bind_eq_ok.mp h
    obtain ⟨written, hwritten, h9⟩ := Sql.eval_eq_ok.mp h9
    cases h9
    obtain ⟨hunique, rfl⟩ := insertRow_eq_ok.mp hwritten
    obtain ⟨_, _, h10, h⟩ := Sql.bind_eq_ok.mp h
    cases Sql.set_eq_ok.mp h10
    cases Sql.pure_eq_ok.mp h
    exact ⟨hnext, hclose, hinsert, rfl, hmax, _, hr, hunique, rfl⟩
  · rintro ⟨hnext, hclose, hinsert, rfl, hmax, r, hr, hunique, rfl⟩
    refine Sql.bind_eq_ok.mpr ⟨(), log, Sql.statement_eq_ok.mpr ⟨hnext, rfl⟩, ?_⟩
    refine Sql.bind_eq_ok.mpr ⟨log, log, rfl, ?_⟩
    refine Sql.bind_eq_ok.mpr ⟨_, log, Sql.eval_eq_ok.mpr ⟨_, int4_eq_ok.mpr ⟨hmax, rfl⟩, rfl⟩, ?_⟩
    refine Sql.bind_eq_ok.mpr ⟨(), log, Sql.statement_eq_ok.mpr ⟨hclose, rfl⟩, ?_⟩
    refine Sql.bind_eq_ok.mpr ⟨⟨⟩, T.closeOpen now k log, rfl, ?_⟩
    refine Sql.bind_eq_ok.mpr ⟨(), _, Sql.statement_eq_ok.mpr ⟨hinsert, rfl⟩, ?_⟩
    refine Sql.bind_eq_ok.mpr ⟨r, _, Sql.eval_eq_ok.mpr ⟨r, hr, rfl⟩, ?_⟩
    refine Sql.bind_eq_ok.mpr ⟨_, _, rfl, ?_⟩
    refine Sql.bind_eq_ok.mpr ⟨r :: T.closeOpen now k log, _, Sql.eval_eq_ok.mpr
      ⟨_, insertRow_eq_ok.mpr ⟨hunique, rfl⟩, rfl⟩, ?_⟩
    exact Sql.bind_eq_ok.mpr ⟨⟨⟩, _, rfl, rfl⟩

/-- No unique violation is the server's own: a constraint of the table is behind each. -/
def Faults.NoDuplicate (f : Faults) : Prop := ∀ st e, f st = some e → e.sqlstate ≠ "23505"

/-- A row that does not go in meets one that a constraint keeps it apart from. -/
theorem insertRow_eq_error {unique : List (UniqueKey V)} {r : V} {log : List V} {e : SqlError}
    (h : insertRow unique r log = .error e) : ∃ u ∈ unique, ∃ v ∈ log, u.same r v = true := by
  unfold insertRow at h
  split at h
  · cases h
  · next u hfind =>
    have hany : log.any (u.same r) = true := by
      have hsome := List.find?_some hfind
      exact hsome
    obtain ⟨v, hv, hsame⟩ := List.any_eq_true.mp hany
    exact ⟨u, List.mem_of_find?_eq_some hfind, v, hv, hsame⟩

/-- **A unique violation** comes of a row that the table has, where the server raises none
of its own. -/
theorem insVersion_duplicate [DecidableEq K] {T : SoftTable V K} {unique : List (UniqueKey V)}
    {now : ℤ} {k : Option K} {row : ℕ → Except SqlError V} {log : List V} {e : SqlError}
    (hf : f.NoDuplicate) (hrow : ∀ vid e, row vid = .error e → e.sqlstate ≠ "23505")
    (h : insVersion T unique f now k row log = .error e) (hcode : e.sqlstate = "23505") :
    ∃ r, row (T.nextVid log k) = .ok r ∧
      ∃ u ∈ unique, ∃ v ∈ T.closeOpen now k log, u.same r v = true := by
  have hfault {st : Statement} {s : List V} (hst : Sql.statement (f st) s = .error e) : False :=
    hf st e (Sql.statement_eq_error.mp hst) hcode
  unfold insVersion at h
  obtain h | ⟨_, _, h1, h⟩ := Sql.bind_eq_error.mp h
  · exact (hfault h).elim
  obtain ⟨-, h1⟩ := Sql.statement_eq_ok.mp h1
  cases h1
  obtain h | ⟨_, _, h2, h⟩ := Sql.bind_eq_error.mp h
  · cases h
  cases Sql.get_eq_ok.mp h2
  obtain h | ⟨_, _, h3, h⟩ := Sql.bind_eq_error.mp h
  · have hint := Sql.eval_eq_error.mp h
    unfold int4 at hint
    split at hint
    · cases hint
    · cases hint
      exact absurd hcode (by decide)
  obtain ⟨_, hvid, h3⟩ := Sql.eval_eq_ok.mp h3
  cases h3
  obtain ⟨-, rfl⟩ := int4_eq_ok.mp hvid
  obtain h | ⟨_, _, h4, h⟩ := Sql.bind_eq_error.mp h
  · exact (hfault h).elim
  obtain ⟨-, h4⟩ := Sql.statement_eq_ok.mp h4
  cases h4
  obtain h | ⟨_, _, h5, h⟩ := Sql.bind_eq_error.mp h
  · cases h
  cases Sql.modify_eq_ok.mp h5
  obtain h | ⟨_, _, h6, h⟩ := Sql.bind_eq_error.mp h
  · exact (hfault h).elim
  obtain ⟨-, h6⟩ := Sql.statement_eq_ok.mp h6
  cases h6
  obtain h | ⟨r, _, h7, h⟩ := Sql.bind_eq_error.mp h
  · exact (hrow _ _ (Sql.eval_eq_error.mp h) hcode).elim
  obtain ⟨_, hr, h7⟩ := Sql.eval_eq_ok.mp h7
  cases h7
  obtain h | ⟨_, _, h8, h⟩ := Sql.bind_eq_error.mp h
  · cases h
  cases Sql.get_eq_ok.mp h8
  obtain h | ⟨_, _, _, h⟩ := Sql.bind_eq_error.mp h
  · exact ⟨r, hr, insertRow_eq_error (Sql.eval_eq_error.mp h)⟩
  obtain h | ⟨_, _, _, h⟩ := Sql.bind_eq_error.mp h
  · cases h
  · cases h

/-- The rows that a procedure inserts are the next version of the entity it names,
open from now on. -/
def NewVersion [DecidableEq K] (T : SoftTable V K) (now : ℤ) (k : Option K)
    (row : ℕ → Except SqlError V) : Prop :=
  ∀ vid r, row vid = .ok r → k = some (T.key r) ∧ T.vid r = vid ∧ T.fromTs r = now ∧ T.toTs r = ⊤

/-- **The versioning of a procedure keeps every history.** All that is asked of the procedure is
that the row it builds is a next version, open from the time of the call on. -/
theorem insVersion_histories [DecidableEq K] {T : SoftTable V K} {unique : List (UniqueKey V)}
    {now : ℤ} {k : Option K} {row : ℕ → Except SqlError V} (hrow : NewVersion T now k row)
    {log log' : List V} {vid : ℕ} (h : insVersion T unique f now k row log = .ok (vid, log'))
    (hlog : T.Histories log) : T.Histories log' := by
  obtain ⟨-, -, -, rfl, -, r, hr, -, rfl⟩ := insVersion_eq_ok.mp h
  obtain ⟨rfl, hvid, hfrom, hto⟩ := hrow _ r hr
  exact hlog.append hvid hfrom hto

end Database
