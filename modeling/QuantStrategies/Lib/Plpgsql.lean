import Mathlib.Data.List.Basic

/-!
# Statements, exception blocks and transactions

A stored procedure is a sequence of statements over the tables, and the server
may refuse any of them. An exception block takes back what its statements did
when one of them raises, and answers in its own way; an error that no handler
takes leaves the call. A transaction commits what its work leaves behind, or
nothing of it.

The rules take such a computation apart: what a sequence did when it went
through, where it stopped when it did not, and that a block, or a transaction,
that failed left everything as it was.

Every statement has its own fault, which is an input: a procedure is verified against all
ways in which the server may refuse it. What the statements compute is a function of the
tables that they find, so two runs on the same tables with the same faults do the same.
-/

/-- An error of the server: its code and its text. No error has the code of
success. -/
structure SqlError where
  /-- The code that `SQLSTATE` shows. -/
  sqlstate : String
  /-- The text of `SQLERRM`. -/
  message : String
  /-- What is raised is an error, so that a procedure that answers with the code of success has
  gone through. -/
  failed : sqlstate ≠ "00000"

/-- `WHEN OTHERS` takes every error but a cancelled query and a failed
assertion. -/
def SqlError.others (e : SqlError) : Bool :=
  e.sqlstate ≠ "57014" && e.sqlstate ≠ "P0004"

/-- Statements over the tables `σ`. -/
abbrev Sql (σ : Type) := StateT σ (Except SqlError)

namespace Sql

variable {σ α β ε : Type}

/-- A statement that the server may refuse, before it does anything. -/
def statement (fault : Option SqlError) : Sql σ Unit := fun s =>
  match fault with
  | some e => .error e
  | none => .ok ((), s)

/-- A value that the server may refuse to compute. -/
def eval (x : Except SqlError α) : Sql σ α := fun s => x.map (fun a => (a, s))

/-- Statements over a part of the tables. -/
def zoom {τ : Type} (part : τ → σ) (put : σ → τ → τ) (x : Sql σ α) : Sql τ α := fun t =>
  (x (part t)).map (fun r => (r.1, put r.2 t))

/-- `BEGIN … EXCEPTION WHEN OTHERS THEN … END`: an error that the handler takes
undoes the block. -/
def block (body : Sql σ α) (handler : SqlError → α) : Sql σ α := fun s =>
  match body s with
  | .ok r => .ok r
  | .error e => if e.others then .ok (handler e, s) else .error e

/-- A transaction: what the work leaves is committed, unless the work or the
commit itself fails. -/
def transaction (work : StateT σ (Except ε) α) (commit : Option ε) (s : σ) : Except ε α × σ :=
  match work s with
  | .error e => (.error e, s)
  | .ok (a, s') =>
      match commit with
      | some e => (.error e, s)
      | none => (.ok a, s')

/-- Past a part that went through. -/
theorem bind_of_ok {x : Sql σ α} {f : α → Sql σ β} {s s' : σ} {a : α} (h : x s = .ok (a, s')) :
    (x >>= f) s = f a s' := by
  show (x s >>= fun p => f p.1 p.2) = _
  rw [h]
  rfl

/-- A part that stopped stops the sequence. -/
theorem bind_of_error {x : Sql σ α} {f : α → Sql σ β} {s : σ} {e : SqlError}
    (h : x s = .error e) : (x >>= f) s = .error e := by
  show (x s >>= fun p => f p.1 p.2) = _
  rw [h]
  rfl

/-- A sequence goes through when its first part does, and the rest from there. -/
theorem bind_eq_ok {x : Sql σ α} {f : α → Sql σ β} {s : σ} {r : β × σ} :
    (x >>= f) s = .ok r ↔ ∃ a s', x s = .ok (a, s') ∧ f a s' = .ok r := by
  show (x s >>= fun p => f p.1 p.2) = .ok r ↔ _
  cases x s with
  | error e =>
    show Except.error e = Except.ok r ↔ _
    simp
  | ok p =>
    show f p.1 p.2 = .ok r ↔ _
    obtain ⟨a, s'⟩ := p
    simp

/-- A sequence stops in its first part, or in the rest. -/
theorem bind_eq_error {x : Sql σ α} {f : α → Sql σ β} {s : σ} {e : SqlError} :
    (x >>= f) s = .error e ↔
      x s = .error e ∨ ∃ a s', x s = .ok (a, s') ∧ f a s' = .error e := by
  show (x s >>= fun p => f p.1 p.2) = .error e ↔ _
  cases x s with
  | error e' =>
    show Except.error e' = Except.error e ↔ _
    simp
  | ok p =>
    obtain ⟨a, s'⟩ := p
    show f a s' = .error e ↔ _
    simp

/-- A statement fails exactly where the server refuses it, and with that error. -/
theorem statement_eq_error {fault : Option SqlError} {s : σ} {e : SqlError} :
    statement fault s = .error e ↔ fault = some e := by
  cases fault with
  | none =>
    show Except.ok ((), s) = Except.error e ↔ _
    simp
  | some e' =>
    show Except.error e' = Except.error e ↔ _
    simp

/-- An expression fails where its value does, and the tables play no part in it. -/
theorem eval_eq_error {x : Except SqlError α} {s : σ} {e : SqlError} :
    eval x s = .error e ↔ x = .error e := by
  cases x with
  | error e' =>
    show Except.error e' = Except.error e ↔ _
    simp
  | ok a =>
    show Except.ok (a, s) = Except.error e ↔ _
    simp

/-- A statement that goes through has not been refused, and has left the tables to the write that
it stands for. -/
theorem statement_eq_ok {fault : Option SqlError} {s : σ} {r : Unit × σ} :
    statement fault s = .ok r ↔ fault = none ∧ r = ((), s) := by
  cases fault with
  | none =>
    show Except.ok ((), s) = Except.ok r ↔ _
    simp [eq_comm]
  | some e =>
    show Except.error e = Except.ok r ↔ _
    simp

/-- An expression that has a value has changed nothing. -/
theorem eval_eq_ok {x : Except SqlError α} {s : σ} {r : α × σ} :
    eval x s = .ok r ↔ ∃ a, x = .ok a ∧ r = (a, s) := by
  cases x with
  | error e =>
    show Except.error e = Except.ok r ↔ _
    simp
  | ok a =>
    show Except.ok (a, s) = Except.ok r ↔ _
    simp [eq_comm]

/-- A result that is there already costs no statement. -/
theorem pure_eq_ok {a : α} {s : σ} {r : α × σ} :
    (pure a : Sql σ α) s = .ok r ↔ r = (a, s) := by
  show Except.ok (a, s) = Except.ok r ↔ _
  simp [eq_comm]

/-- A write goes through with the tables as it leaves them. -/
theorem modify_eq_ok {f : σ → σ} {s : σ} {r : PUnit × σ} :
    (modify f : Sql σ PUnit) s = .ok r ↔ r = (⟨⟩, f s) := by
  show Except.ok (⟨⟩, f s) = Except.ok r ↔ _
  simp [eq_comm]

/-- A read goes through with the tables as they are. -/
theorem get_eq_ok {s : σ} {r : σ × σ} : (get : Sql σ σ) s = .ok r ↔ r = (s, s) := by
  show Except.ok (s, s) = Except.ok r ↔ _
  simp [eq_comm]

/-- A write of all tables leaves what it was given. -/
theorem set_eq_ok {s s' : σ} {r : PUnit × σ} :
    (set s' : Sql σ PUnit) s = .ok r ↔ r = (⟨⟩, s') := by
  show Except.ok (⟨⟩, s') = Except.ok r ↔ _
  simp [eq_comm]

/-- A procedure on some of the tables goes through on all of them where it does on its own, and
leaves the others alone. -/
theorem zoom_eq_ok {τ : Type} {part : τ → σ} {put : σ → τ → τ} {x : Sql σ α} {t : τ}
    {r : α × τ} :
    zoom part put x t = .ok r ↔ ∃ a s', x (part t) = .ok (a, s') ∧ r = (a, put s' t) := by
  unfold zoom
  cases x (part t) with
  | error e =>
    show Except.error e = Except.ok r ↔ _
    simp
  | ok p =>
    obtain ⟨a, s'⟩ := p
    show Except.ok (a, put s' t) = Except.ok r ↔ _
    simp [eq_comm]

/-- A block ends as its statements did, or as it began. -/
theorem block_eq_ok {body : Sql σ α} {handler : SqlError → α} {s : σ} {r : α × σ} :
    block body handler s = .ok r ↔
      body s = .ok r ∨ ∃ e, body s = .error e ∧ e.others = true ∧ r = (handler e, s) := by
  unfold block
  cases body s with
  | ok r' => simp
  | error e =>
    show (if e.others then _ else _) = _ ↔ _
    split
    · next h =>
      constructor
      · intro hok
        cases hok
        exact .inr ⟨e, rfl, h, rfl⟩
      · rintro (hok | ⟨e', he, -, rfl⟩)
        · cases hok
        · cases he
          rfl
    · next h =>
      constructor
      · intro hok
        cases hok
      · rintro (hok | ⟨e', he, hothers, -⟩)
        · cases hok
        · cases he
          exact absurd hothers h

/-- Only an error that no handler takes leaves a block. -/
theorem block_eq_error {body : Sql σ α} {handler : SqlError → α} {s : σ} {e : SqlError} :
    block body handler s = .error e ↔ body s = .error e ∧ e.others = false := by
  unfold block
  cases body s with
  | ok r' => simp
  | error e' =>
    show (if e'.others then _ else _) = _ ↔ _
    split
    · next h =>
      constructor
      · intro hok
        cases hok
      · rintro ⟨he, hno⟩
        cases he
        rw [h] at hno
        cases hno
    · next h =>
      constructor
      · intro he
        cases he
        exact ⟨rfl, Bool.eq_false_iff.mpr h⟩
      · rintro ⟨he, -⟩
        cases he
        rfl

/-- **A transaction that failed changed nothing.** It does not matter whether the work failed or
the commit did. -/
theorem transaction_error {work : StateT σ (Except ε) α} {commit : Option ε} {s s' : σ} {e : ε}
    (h : transaction work commit s = (.error e, s')) : s' = s := by
  unfold transaction at h
  split at h
  · cases h
    rfl
  · split at h
    · cases h
      rfl
    · cases h

/-- A transaction that went through committed what its work left. -/
theorem transaction_ok {work : StateT σ (Except ε) α} {commit : Option ε} {s s' : σ} {a : α}
    (h : transaction work commit s = (.ok a, s')) : work s = .ok (a, s') ∧ commit = none := by
  unfold transaction at h
  split at h
  · cases h
  · next b t hwork =>
    split at h
    · cases h
    · cases h
      exact ⟨hwork, rfl⟩

end Sql
