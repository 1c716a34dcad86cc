import Mathlib.Data.List.Nodup
import QuantStrategies.Lib.Plpgsql

/-!
# Procedures under READ COMMITTED

A procedure over one table is a tree of statements (`Proc`): tests of whether a row
exists, updates, and calls that leave the table alone. On its own it runs from top to
bottom (`Proc.exec`). As a transaction among others it takes its statements one by one,
each on what is committed at that moment and on what the transaction has written itself.

An update finds its rows when it begins. It then visits them one after the other. A row
that another transaction has written must wait until that one ends; then the condition
of the update is looked at again, on the row as it is by then.

What a transaction is still going to leave, if nobody else commits, is `finish`. Its own
steps do not change it, and nor do the rows of others. So a transaction that nobody
interferes with does what the procedure does on its own.

The interference that is left is what two updates of the same rows do to each other: one
that waited decides anew on the row that it finds, and has not seen the rows that the other
one made fit its condition in the meantime. Whether that matters is a question about the
procedure, and the rules leave it open.
-/

namespace ReadCommitted

variable {ρ κ α : Type}

/-- `UPDATE … SET … WHERE …`: the rows that are updated, provided that there is none of
some kind, and what becomes of them. -/
structure Update (ρ : Type) where
  /-- The rows that are to be changed. -/
  selects : ρ → Bool
  /-- If there is a row of this kind, nothing is changed. -/
  unlessExists : ρ → Bool
  /-- What becomes of a row. -/
  set : ρ → ρ

/-- The statements of a procedure. -/
inductive Proc (ρ α : Type) where
  | answer (a : α)
  | ifExists (p : ρ → Bool) (yes no : Proc ρ α)
  | update (u : Update ρ) (next : Proc ρ α)
  | aside (next : Proc ρ α)

/-- What an update makes of the table. -/
def Update.run (u : Update ρ) (rows : List ρ) : List ρ :=
  if rows.any u.unlessExists then rows
  else rows.map (fun r => if u.selects r then u.set r else r)

/-- A procedure on its own: its answer, and what it leaves. -/
def Proc.exec : Proc ρ α → List ρ → α × List ρ
  | .answer a, rows => (a, rows)
  | .ifExists p yes no, rows => if rows.any p then yes.exec rows else no.exec rows
  | .update u next, rows => next.exec (u.run rows)
  | .aside next, rows => next.exec rows

/-- A procedure whose statements the server may refuse, from the `n`-th on. A call that
leaves the table alone traps its own errors. -/
def Proc.sql (faults : ℕ → Option SqlError) : ℕ → Proc ρ α → Sql (List ρ) α
  | _, .answer a => pure a
  | n, .ifExists p yes no => do
    Sql.statement (faults n)
    let rows ← get
    if rows.any p then yes.sql faults (n + 1) else no.sql faults (n + 1)
  | n, .update u next => do
    Sql.statement (faults n)
    modify u.run
    next.sql faults (n + 1)
  | n, .aside next => do
    Sql.block (Sql.statement (faults n)) (fun _ => ())
    next.sql faults (n + 1)

/-- A procedure that went through did what it does on its own. -/
theorem Proc.sql_eq_ok {faults : ℕ → Option SqlError} {n : ℕ} {p : Proc ρ α} {rows : List ρ}
    {r : α × List ρ} (h : p.sql faults n rows = .ok r) : r = p.exec rows := by
  induction p generalizing n rows with
  | answer a => exact Sql.pure_eq_ok.mp h
  | ifExists q yes no ihyes ihno =>
    obtain ⟨_, _, h1, h⟩ := Sql.bind_eq_ok.mp h
    obtain ⟨-, h1⟩ := Sql.statement_eq_ok.mp h1
    cases h1
    obtain ⟨_, _, h2, h⟩ := Sql.bind_eq_ok.mp h
    cases Sql.get_eq_ok.mp h2
    rw [exec]
    split at h
    · next hq =>
      rw [if_pos hq]
      exact ihyes h
    · next hq =>
      rw [if_neg hq]
      exact ihno h
  | update u next ih =>
    obtain ⟨_, _, h1, h⟩ := Sql.bind_eq_ok.mp h
    obtain ⟨-, h1⟩ := Sql.statement_eq_ok.mp h1
    cases h1
    obtain ⟨_, _, h2, h⟩ := Sql.bind_eq_ok.mp h
    cases Sql.modify_eq_ok.mp h2
    exact ih h
  | aside next ih =>
    obtain ⟨_, _, h1, h⟩ := Sql.bind_eq_ok.mp h
    obtain h1 | ⟨e, -, -, h1⟩ := Sql.block_eq_ok.mp h1
    · obtain ⟨-, h1⟩ := Sql.statement_eq_ok.mp h1
      cases h1
      exact ih h
    · cases h1
      exact ih h

/-- An update that nothing rules out changes the rows that it selects. -/
theorem Update.run_eq_map {u : Update ρ} {rows : List ρ}
    (h : ∀ r ∈ rows, u.unlessExists r = false) :
    u.run rows = rows.map (fun r => if u.selects r then u.set r else r) := by
  refine if_neg fun hany => ?_
  obtain ⟨r, hr, hex⟩ := List.any_eq_true.mp hany
  exact absurd hex (Bool.eq_false_iff.mp (h r hr))

/-- Every update of a procedure has a property. -/
def Proc.Each (P : Update ρ → Prop) : Proc ρ α → Prop
  | .answer _ => True
  | .ifExists _ yes no => yes.Each P ∧ no.Each P
  | .update u next => P u ∧ next.Each P
  | .aside next => next.Each P

/-- What every update of a procedure keeps, the procedure keeps. -/
theorem Proc.Each.exec {I : List ρ → Prop} {p : Proc ρ α} {rows : List ρ}
    (h : p.Each (fun u => ∀ rows, I rows → I (u.run rows))) (hrows : I rows) :
    I (p.exec rows).2 := by
  induction p generalizing rows with
  | answer a => exact hrows
  | ifExists q yes no ihyes ihno =>
    rw [Proc.exec]
    split
    · exact ihyes h.1 hrows
    · exact ihno h.2 hrows
  | update u next ih => exact ih h.2 (h.1 rows hrows)
  | aside next ih => exact ih h hrows

/-! ## A transaction among others -/

variable [DecidableEq κ] (key : ρ → κ)

/-- A row as the transaction sees it that has written some. -/
def overlay (writes : List (κ × ρ)) (r : ρ) : ρ := (writes.lookup (key r)).getD r

/-- The table as the transaction sees it. -/
def view (rows : List ρ) (writes : List (κ × ρ)) : List ρ := rows.map (overlay key writes)

/-- A transaction: the statements to come, the update under way with the rows that it
has still to visit, what it has written, and whether an update has begun. -/
structure Transaction (ρ κ α : Type) where
  /-- What the procedure has still to do. -/
  proc : Proc ρ α
  /-- An update that waits for rows, with the keys that it found when it began. -/
  pending : Option (Update ρ × List κ)
  /-- What it has written itself, which it sees and nobody else does. -/
  writes : List (κ × ρ)
  /-- Whether its snapshot for the present update has been taken. -/
  begun : Bool

/-- A transaction that is about to take its first statement. -/
def Transaction.start (p : Proc ρ α) : Transaction ρ κ α := ⟨p, none, [], false⟩

/-- An update visits a row. -/
def visit (u : Update ρ) (k : κ) (rows : List ρ) (writes : List (κ × ρ)) : List (κ × ρ) :=
  match (view key rows writes).find? (fun r => key r = k) with
  | some r => if u.selects r then (k, u.set r) :: writes else writes
  | none => writes

/-- The rows that an update finds when it begins. -/
def targets (u : Update ρ) (seen : List ρ) : List κ :=
  if seen.any u.unlessExists then [] else (seen.filter u.selects).map key

/-- The next step of a transaction, on what is committed. It visits the rows that are
`free`. -/
def Transaction.step (free : κ → Bool) (rows : List ρ) (t : Transaction ρ κ α) :
    Option (Transaction ρ κ α) :=
  match t.pending with
  | some (_, []) => some { t with pending := none }
  | some (u, k :: ks) =>
    if free k then some { t with pending := some (u, ks), writes := visit key u k rows t.writes }
    else none
  | none =>
    match t.proc with
    | .answer _ => none
    | .ifExists p yes no =>
      some { t with proc := if (view key rows t.writes).any p then yes else no }
    | .update u next =>
      some { t with
        proc := next, pending := some (u, targets key u (view key rows t.writes)), begun := true }
    | .aside next => some { t with proc := next }

/-- The answer of a transaction that is through. -/
def Transaction.ended (t : Transaction ρ κ α) : Option α :=
  match t.pending, t.proc with
  | none, .answer a => some a
  | _, _ => none

/-- The next statement is the first update. -/
def Transaction.atUpdate (t : Transaction ρ κ α) : Bool :=
  match t.begun, t.proc with
  | false, .update _ _ => true
  | _, _ => false

/-- What the transaction has left once the update under way is through. -/
def Transaction.settled (rows : List ρ) (t : Transaction ρ κ α) : List ρ :=
  match t.pending with
  | none => view key rows t.writes
  | some (u, ks) =>
    (view key rows t.writes).map (fun r => if key r ∈ ks ∧ u.selects r then u.set r else r)

/-- What the transaction is going to leave. -/
def Transaction.finish (rows : List ρ) (t : Transaction ρ κ α) : List ρ :=
  (t.proc.exec (t.settled key rows)).2

/-! ## Statements about some of the keys -/

variable (p : κ → Bool)

/-- An update looks at rows with some of the keys, and does not change the keys. -/
structure Update.Local (u : Update ρ) : Prop where
  /-- It changes rows of its own keys only. -/
  selects : ∀ r, u.selects r = true → p (key r) = true
  /-- It looks for rows of its own keys only. -/
  unlessExists : ∀ r, u.unlessExists r = true → p (key r) = true
  /-- It does not move a row to another key. -/
  key_set : ∀ r, key (u.set r) = key r

/-- So do all statements of a procedure. -/
def Proc.Local : Proc ρ α → Prop
  | .answer _ => True
  | .ifExists q yes no => (∀ r, q r = true → p (key r) = true) ∧ yes.Local ∧ no.Local
  | .update u next => u.Local key p ∧ next.Local
  | .aside next => next.Local

/-- A transaction has written under the keys of its statements. -/
structure Transaction.Valid (t : Transaction ρ κ α) : Prop where
  /-- The statements to come keep to their keys. -/
  proc : t.proc.Local key p
  /-- So does the one under way, which visits each of its rows once. -/
  pending : ∀ u ks, t.pending = some (u, ks) → u.Local key p ∧ ks.Nodup
  /-- What was written is filed under its own key. -/
  keyed : ∀ e ∈ t.writes, key e.2 = e.1
  /-- And under one of the keys that the statements keep to. -/
  within : ∀ e ∈ t.writes, p e.1 = true

variable {key p} {u : Update ρ} {rows : List ρ} {writes : List (κ × ρ)} {k : κ} {ks : List κ}
variable {t t' : Transaction ρ κ α} {free : κ → Bool} {proc : Proc ρ α}

omit [DecidableEq κ] in
/-- A transaction that has not begun has written nothing. -/
theorem Transaction.Valid.start (h : proc.Local key p) :
    (Transaction.start proc : Transaction ρ κ α).Valid key p := by
  refine ⟨h, fun u ks hp => ?_, fun e he => ?_, fun e he => ?_⟩
  · cases hp
  · cases he
  · cases he

/-! ## What a transaction sees -/

/-- What is found among the writes was written. -/
theorem mem_of_lookup {r : ρ} (h : writes.lookup k = some r) :
    (k, r) ∈ writes := by
  obtain ⟨l₁, l₂, rfl, -⟩ := List.lookup_eq_some_iff.mp h
  exact List.mem_append_right _ List.mem_cons_self

/-- A row keeps its key when a transaction's own write is laid over it. -/
theorem key_overlay (hkeyed : ∀ e ∈ writes, key e.2 = e.1) (r : ρ) :
    key (overlay key writes r) = key r := by
  unfold overlay
  cases h : writes.lookup (key r) with
  | none => rfl
  | some r' => exact hkeyed _ (mem_of_lookup h)

/-- So a transaction sees the keys that are committed, with its own values for some of them. -/
theorem map_key_view (hkeyed : ∀ e ∈ writes, key e.2 = e.1) (rows : List ρ) :
    (view key rows writes).map key = rows.map key := by
  rw [view, List.map_map]
  exact List.map_congr_left fun r _ => key_overlay hkeyed r

omit [DecidableEq κ] in
/-- A map that keeps the keys commutes with a choice by key. -/
theorem filter_map_key {f : ρ → ρ} (hf : ∀ r, key (f r) = key r) (rows : List ρ) :
    (rows.map f).filter (fun r => p (key r)) = (rows.filter (fun r => p (key r))).map f := by
  rw [List.filter_map]
  congr 1
  exact List.filter_congr fun r _ => congrArg p (hf r)

omit [DecidableEq κ] in
/-- A test of rows with some of the keys does not look at the others. -/
theorem any_filter_key {q : ρ → Bool} (hq : ∀ r, q r = true → p (key r) = true) (rows : List ρ) :
    (rows.filter (fun r => p (key r))).any q = rows.any q := by
  rw [List.any_filter]
  refine congrArg rows.any (funext fun r => ?_)
  cases hr : q r with
  | false => rw [Bool.and_false]
  | true => rw [hq r hr, Bool.and_true]

/-- A transaction sees the rows of other keys as they are committed. -/
theorem view_filter_other {q : κ → Bool} (hkeyed : ∀ e ∈ writes, key e.2 = e.1)
    (hother : ∀ e ∈ writes, q e.1 = false) :
    (view key rows writes).filter (fun r => q (key r)) = rows.filter (fun r => q (key r)) := by
  rw [view, filter_map_key (key_overlay hkeyed)]
  refine (List.map_congr_left fun r hr => ?_).trans (List.map_id _)
  unfold overlay
  cases h : writes.lookup (key r) with
  | none => rfl
  | some r' =>
    have hq : q (key r) = true := by simpa using (List.mem_filter.mp hr).2
    exact absurd hq (Bool.eq_false_iff.mp (hother _ (mem_of_lookup h)))

/-- **A visit** updates the row, where it is still selected. A row that another transaction has
moved out of the selection in the meantime is passed over, as the condition is evaluated again on
the row as it is now. -/
theorem view_visit (hrows : (rows.map key).Nodup) (hkeyed : ∀ e ∈ writes, key e.2 = e.1) :
    view key rows (visit key u k rows writes) =
      (view key rows writes).map (fun r => if key r = k ∧ u.selects r then u.set r else r) := by
  have hnodup : ((view key rows writes).map key).Nodup := map_key_view hkeyed rows ▸ hrows
  have hunique {r r' : ρ} (hr : r ∈ view key rows writes) (hr' : r' ∈ view key rows writes)
      (hk : key r = key r') : r = r' := List.inj_on_of_nodup_map hnodup hr hr' hk
  have hsame (hno : ∀ r ∈ view key rows writes, key r = k → u.selects r = false) :
      (view key rows writes).map (fun r => if key r = k ∧ u.selects r then u.set r else r) =
        view key rows writes := by
    refine (List.map_congr_left fun r hr => if_neg ?_).trans (List.map_id _)
    rintro ⟨hk, hsel⟩
    exact absurd hsel (Bool.eq_false_iff.mp (hno r hr hk))
  unfold visit
  cases hfind : (view key rows writes).find? (fun r => key r = k) with
  | none =>
    refine (hsame fun r hr hk => ?_).symm
    exact absurd (decide_eq_true hk) (List.find?_eq_none.mp hfind r hr)
  | some r₀ =>
    have hr₀ := List.mem_of_find?_eq_some hfind
    have hdec := List.find?_some hfind
    have hk₀ : key r₀ = k := of_decide_eq_true hdec
    dsimp only
    by_cases hsel : u.selects r₀ = true
    · rw [if_pos hsel, view, view, List.map_map]
      refine List.map_congr_left fun r hr => ?_
      have hmem : overlay key writes r ∈ view key rows writes := List.mem_map_of_mem hr
      rw [Function.comp_apply, key_overlay hkeyed]
      by_cases hk : key r = k
      · have hr₀' : overlay key writes r = r₀ :=
          hunique hmem hr₀ ((key_overlay hkeyed r).trans (hk.trans hk₀.symm))
        rw [hr₀', if_pos ⟨hk, hsel⟩, overlay, hk, List.lookup_cons_self]
        rfl
      · rw [if_neg (fun h => hk h.1)]
        unfold overlay
        rw [List.lookup_cons, beq_false_of_ne hk]
    · rw [if_neg hsel]
      refine (hsame fun r hr hk => ?_).symm
      rw [hunique hr hr₀ (hk.trans hk₀.symm)]
      exact Bool.eq_false_iff.mpr hsel

/-! ## The steps of a transaction -/

omit [DecidableEq κ] in
/-- On the rows of its own keys a local update does what it does on the whole table. -/
theorem Update.Local.run_filter (hu : u.Local key p) (rows : List ρ) :
    (u.run rows).filter (fun r => p (key r)) = u.run (rows.filter (fun r => p (key r))) := by
  unfold Update.run
  rw [any_filter_key hu.unlessExists]
  split
  · rfl
  · refine filter_map_key (fun r => ?_) rows
    split
    · exact hu.key_set r
    · rfl

omit [DecidableEq κ] in
/-- A procedure about some of the keys does not look at the other rows. -/
theorem Proc.Local.exec_filter (h : proc.Local key p) (rows : List ρ) :
    (proc.exec rows).2.filter (fun r => p (key r)) =
      (proc.exec (rows.filter (fun r => p (key r)))).2 := by
  induction proc generalizing rows with
  | answer a => rfl
  | ifExists q yes no ihyes ihno =>
    obtain ⟨hq, hyes, hno⟩ := h
    rw [Proc.exec, Proc.exec, any_filter_key hq]
    split
    · exact ihyes hyes rows
    · exact ihno hno rows
  | update u next ih =>
    obtain ⟨hu, hnext⟩ := h
    rw [Proc.exec, Proc.exec, ← hu.run_filter]
    exact ih hnext _
  | aside next ih => exact ih h rows

omit [DecidableEq κ] in
/-- And on the rows of other keys it does nothing. -/
theorem Update.Local.run_filter_other {q : κ → Bool} (hu : u.Local key p)
    (hq : ∀ k, p k = true → q k = false) (rows : List ρ) :
    (u.run rows).filter (fun r => q (key r)) = rows.filter (fun r => q (key r)) := by
  unfold Update.run
  split
  · rfl
  · rw [filter_map_key (fun r => ?_) rows]
    · refine (List.map_congr_left fun r hr => if_neg fun hsel => ?_).trans (List.map_id _)
      have hqr : q (key r) = true := by simpa using (List.mem_filter.mp hr).2
      exact absurd hqr (Bool.eq_false_iff.mp (hq _ (hu.selects r hsel)))
    · split
      · exact hu.key_set r
      · rfl

omit [DecidableEq κ] in
/-- A procedure about some of the keys leaves the other rows alone. -/
theorem Proc.Local.exec_filter_other {q : κ → Bool} (h : proc.Local key p)
    (hq : ∀ k, p k = true → q k = false) (rows : List ρ) :
    (proc.exec rows).2.filter (fun r => q (key r)) = rows.filter (fun r => q (key r)) := by
  induction proc generalizing rows with
  | answer a => rfl
  | ifExists c yes no ihyes ihno =>
    rw [Proc.exec]
    split
    · exact ihyes h.2.1 rows
    · exact ihno h.2.2 rows
  | update u next ih => exact (ih h.2 _).trans (h.1.run_filter_other hq rows)
  | aside next ih => exact ih h rows

namespace Transaction

omit [DecidableEq κ] in
/-- The keys of an update's rows are different. -/
theorem nodup_targets (hkeys : (rows.map key).Nodup) : (targets key u rows).Nodup := by
  unfold targets
  split
  · exact List.nodup_nil
  · exact hkeys.sublist (List.filter_sublist.map key)

/-- A visit writes under the key of the row. -/
theorem mem_visit (hu : u.Local key p) {e : κ × ρ} (he : e ∈ visit key u k rows writes) :
    e ∈ writes ∨ (key e.2 = e.1 ∧ p e.1 = true) := by
  unfold visit at he
  split at he
  · next r hfind =>
    have hdec := List.find?_some hfind
    have hk : key r = k := of_decide_eq_true hdec
    split at he
    · next hsel =>
      obtain rfl | he := List.mem_cons.mp he
      · exact Or.inr ⟨(hu.key_set r).trans hk, hk ▸ hu.selects r hsel⟩
      · exact Or.inl he
    · exact Or.inl he
  · exact Or.inl he

/-- **A step keeps a transaction valid.** -/
theorem Valid.step (hrows : (rows.map key).Nodup) (ht : t.Valid key p)
    (h : t.step key free rows = some t') : t'.Valid key p := by
  unfold Transaction.step at h
  split at h
  · cases h
    refine ⟨ht.proc, fun u ks hp => ?_, ht.keyed, ht.within⟩
    cases hp
  · next u k ks hpending =>
    obtain ⟨hu, hks⟩ := ht.pending u (k :: ks) hpending
    split at h
    · cases h
      refine ⟨ht.proc, fun u' ks' hp => ?_, fun e he => ?_, fun e he => ?_⟩
      · cases hp
        exact ⟨hu, hks.of_cons⟩
      · exact (mem_visit hu he).elim (ht.keyed e) (fun h => h.1)
      · exact (mem_visit hu he).elim (ht.within e) (fun h => h.2)
    · cases h
  · next hpending =>
    have hproc := ht.proc
    split at h
    · cases h
    · next q yes no hp =>
      rw [hp] at hproc
      cases h
      refine ⟨?_, fun u ks hp => ?_, ht.keyed, ht.within⟩
      · show Proc.Local key p (if _ then yes else no)
        split
        · exact hproc.2.1
        · exact hproc.2.2
      · cases hpending.symm.trans hp
    · next u next hp =>
      rw [hp] at hproc
      cases h
      refine ⟨hproc.2, fun u' ks hp => ?_, ht.keyed, ht.within⟩
      cases hp
      exact ⟨hproc.1, nodup_targets (map_key_view ht.keyed rows ▸ hrows)⟩
    · next next hp =>
      rw [hp] at hproc
      cases h
      refine ⟨hproc, fun u ks hp => ?_, ht.keyed, ht.within⟩
      cases hpending.symm.trans hp

/-- A visit does of an update what is left of it for the row. -/
theorem map_visit (hrows : (rows.map key).Nodup) (hkeyed : ∀ e ∈ writes, key e.2 = e.1)
    (hu : u.Local key p) (hks : (k :: ks).Nodup) :
    (view key rows (visit key u k rows writes)).map
        (fun r => if key r ∈ ks ∧ u.selects r then u.set r else r) =
      (view key rows writes).map
        (fun r => if key r ∈ k :: ks ∧ u.selects r then u.set r else r) := by
  rw [view_visit hrows hkeyed, List.map_map]
  refine List.map_congr_left fun r _ => ?_
  rw [Function.comp_apply]
  by_cases hr : key r = k ∧ u.selects r = true
  · -- the row is not visited again
    have hnot : ¬ (key (u.set r) ∈ ks ∧ u.selects (u.set r) = true) := fun hr' =>
      (List.nodup_cons.mp hks).1 (hr.1 ▸ hu.key_set r ▸ hr'.1)
    rw [if_pos hr, if_neg hnot, if_pos ⟨hr.1 ▸ List.mem_cons_self, hr.2⟩]
  · rw [if_neg hr]
    refine if_congr ⟨fun hr' => ⟨List.mem_cons_of_mem k hr'.1, hr'.2⟩, fun hr' => ?_⟩ rfl rfl
    exact ⟨(List.mem_cons.mp hr'.1).resolve_left fun hk => hr ⟨hk, hr'.2⟩, hr'.2⟩

/-- The rows that an update finds are those it updates. -/
theorem map_targets (rows : List ρ) :
    rows.map (fun r => if key r ∈ targets key u rows ∧ u.selects r then u.set r else r) =
      u.run rows := by
  unfold targets Update.run
  split
  · refine (List.map_congr_left fun r _ => if_neg ?_).trans (List.map_id _)
    exact fun hr => List.not_mem_nil hr.1
  · refine List.map_congr_left fun r hr => if_congr (and_iff_right_of_imp fun hsel => ?_) rfl rfl
    exact List.mem_map_of_mem (List.mem_filter.mpr ⟨hr, hsel⟩)

/-- **A step does not change what a transaction is going to leave.** So a transaction that nobody
disturbs leaves the same table however it is cut into steps. -/
theorem finish_step (hrows : (rows.map key).Nodup) (ht : t.Valid key p)
    (h : t.step key free rows = some t') : t'.finish key rows = t.finish key rows := by
  unfold Transaction.step at h
  split at h
  · next u hpending =>
    cases h
    unfold finish settled
    rw [hpending]
    refine congrArg (fun rows => (t.proc.exec rows).2) ?_
    refine ((List.map_congr_left fun r _ => if_neg ?_).trans (List.map_id _)).symm
    exact fun hr => List.not_mem_nil hr.1
  · next u k ks hpending =>
    obtain ⟨hu, hks⟩ := ht.pending u (k :: ks) hpending
    split at h
    · cases h
      unfold finish settled
      rw [hpending]
      exact congrArg (fun rows => (t.proc.exec rows).2) (map_visit hrows ht.keyed hu hks)
    · cases h
  · next hpending =>
    split at h
    · cases h
    · next q yes no hp =>
      cases h
      unfold finish settled
      rw [hpending, hp]
      dsimp only
      rw [Proc.exec]
      split
      · rfl
      · rfl
    · next u next hp =>
      cases h
      unfold finish settled
      rw [hpending, hp]
      dsimp only
      rw [Proc.exec]
      exact congrArg (fun rows => (next.exec rows).2) (map_targets _)
    · next next hp =>
      cases h
      unfold finish settled
      rw [hpending, hp]
      rfl

/-- What is going to be left is, before any update, what the procedure leaves. -/
theorem finish_unbegun (hpending : t.pending = none) (hwrites : t.writes = []) (rows : List ρ) :
    t.finish key rows = (t.proc.exec rows).2 := by
  have hview : view key rows [] = rows := List.map_id rows
  unfold finish settled
  rw [hpending, hwrites, hview]

/-- At the end it is what the transaction sees. -/
theorem finish_answer {a : α} (hpending : t.pending = none) (hproc : t.proc = .answer a) :
    t.finish key rows = view key rows t.writes := by
  unfold finish settled
  rw [hpending, hproc]
  rfl

omit [DecidableEq κ] in
/-- A transaction has ended when nothing is pending and its procedure has answered. -/
theorem ended_eq_some {a : α} : t.ended = some a ↔ t.pending = none ∧ t.proc = .answer a := by
  unfold ended
  split
  · next b hpending hproc =>
    rw [hpending, hproc]
    simp
  · next hno =>
    refine iff_of_false nofun fun h => hno a h.1 h.2

omit [DecidableEq κ] in
/-- It stands before an update when that is its next statement and has not begun. -/
theorem atUpdate_iff : t.atUpdate = true ↔ t.begun = false ∧ ∃ u next, t.proc = .update u next := by
  unfold atUpdate
  split
  · next u next hbegun hproc => exact iff_of_true rfl ⟨hbegun, u, next, hproc⟩
  · next hno =>
    refine iff_of_false Bool.false_ne_true ?_
    rintro ⟨hbegun, u, next, hproc⟩
    exact hno u next hbegun hproc

/-- Only an update begins the updates, and they stay begun. -/
theorem begun_of_step (h : t.step key free rows = some t') :
    (t'.begun = true → t.begun = true ∨ t.atUpdate = true) ∧
      (t.begun = true → t'.begun = true) := by
  unfold Transaction.step at h
  split at h
  · cases h
    exact ⟨Or.inl, id⟩
  · split at h
    · cases h
      exact ⟨Or.inl, id⟩
    · cases h
  · split at h
    · cases h
    · cases h
      exact ⟨Or.inl, id⟩
    · next u next hproc =>
      cases h
      refine ⟨fun _ => ?_, fun _ => rfl⟩
      unfold atUpdate
      rw [hproc]
      cases t.begun with
      | false => exact Or.inr rfl
      | true => exact Or.inl rfl
    · cases h
      exact ⟨Or.inl, id⟩

/-- It turns on the rows with the transaction's keys. -/
theorem Valid.finish_filter (ht : t.Valid key p) (rows : List ρ) :
    (t.finish key rows).filter (fun r => p (key r)) =
      t.finish key (rows.filter (fun r => p (key r))) := by
  have hview : (view key rows t.writes).filter (fun r => p (key r)) =
      view key (rows.filter (fun r => p (key r))) t.writes :=
    filter_map_key (key_overlay ht.keyed) rows
  unfold finish
  rw [ht.proc.exec_filter]
  refine congrArg (fun rows => (t.proc.exec rows).2) ?_
  unfold settled
  cases hpending : t.pending with
  | none => exact hview
  | some pending =>
    obtain ⟨u, ks⟩ := pending
    obtain ⟨hu, -⟩ := ht.pending u ks hpending
    dsimp only
    rw [← hview]
    refine filter_map_key (fun r => ?_) _
    split
    · exact hu.key_set r
    · rfl

end Transaction

end ReadCommitted
