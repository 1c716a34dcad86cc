import Mathlib.Data.List.Basic
import Mathlib.Logic.Function.Basic
import Mathlib.Order.Nat
import QuantStrategies.Lib.Pool

/-!
# The shared reader of the reference data

The publisher writes the tables of a schema to Redis, and moves the version stamp of
the schema, in one transaction. A reader keeps the tables that it has read. It reads
the stamp first, and drops what it keeps of the schema when the stamp is not the one it
has recorded.

The threads of a process share one reader, and nothing orders their steps. Rows that
were read before a publish may be kept after another thread has recorded the new
stamp. From then on they are what every thread finds, until the next publish.

What a call is to answer is what some publish has left that was the last one when the call
began, or a later one. It does in every run in which rows are kept under the stamp that they
belong to: when rows are stored, no newer stamp may have been recorded, and no other call
may be about to look for them under one.
-/

namespace Refdata

/-- The schemas that are published. -/
inductive Schema where
  | refdata
  | config
deriving DecidableEq

/-- The prefix of a schema's keys. -/
def Schema.name : Schema → String
  | .refdata => "refdata"
  | .config => "config"

/-- The rows under a schema's keys, by table. -/
abbrev Snapshot (R : Type) : Type := String → Option (List R)

/-- What `_get` raises. -/
inductive ReadError where
  | runtimeError (message : String)
  | valueError (message : String)
deriving DecidableEq

/-- A table that is not there. -/
def notInRedis (schema : Schema) (table : String) : ReadError :=
  .valueError s!"{schema.name}.{table} not in Redis — publisher may not have run yet"

/-- A table without rows. -/
def isEmpty (schema : Schema) (table : String) : ReadError :=
  .valueError s!"{schema.name}.{table} is empty"

variable {R : Type}

/-- What `_get` makes of the rows that it has. -/
def checkRows (schema : Schema) (table : String) : List R → Except ReadError (List R)
  | [] => .error (isEmpty schema table)
  | first :: rest => .ok (first :: rest)

/-- The answer of a read of a snapshot itself. -/
def directRead (snapshot : Snapshot R) (schema : Schema) (table : String) :
    Except ReadError (List R) :=
  match snapshot table with
  | none => .error (notInRedis schema table)
  | some rows => checkRows schema table rows

/-! ## Redis and the reader -/

/-- Redis and the dictionaries of the reader. `count` and `log` record what was
published: the number of publishes of a schema, and what each has left, from an empty
Redis on. -/
structure Shared (R : Type) where
  /-- The stamps in Redis. -/
  version : Schema → Option ℕ
  /-- The tables in Redis. -/
  tables : Schema → Snapshot R
  /-- The tables that the reader keeps. -/
  store : Schema → Snapshot R
  /-- The stamps that it has recorded. -/
  versions : Schema → Option ℕ
  /-- How often a schema has been published, which the stamp shows. -/
  count : Schema → ℕ
  /-- What each publish has left, the tables of it that it could not fetch as they were before. -/
  log : Schema → ℕ → Snapshot R

/-- The stamp after a number of publishes. -/
def stamp : ℕ → Option ℕ
  | 0 => none
  | n + 1 => some (n + 1)

/-- What is published of a schema: its tables, each with its rows, or without rows where
they could not be loaded. -/
def snapshot (discovered : List String) (fetchEnum : String → Option (List R)) : Snapshot R :=
  fun table => if table ∈ discovered then some ((fetchEnum table).getD []) else none

/-- A publish of a schema. -/
structure Publish (R : Type) where
  /-- The schema that is published. -/
  schema : Schema
  /-- The tables that were found in it. -/
  discovered : List String
  /-- The rows of each, or nothing where the fetch failed. -/
  fetchEnum : String → Option (List R)

/-- `publish`: the transaction. Keys of other tables are deleted. -/
def publish (s : Shared R) (p : Publish R) : Shared R :=
  let next := snapshot p.discovered p.fetchEnum
  { s with
    version := Function.update s.version p.schema (some ((s.version p.schema).getD 0 + 1))
    tables := Function.update s.tables p.schema next
    count := Function.update s.count p.schema (s.count p.schema + 1)
    log := Function.update s.log p.schema
      (Function.update (s.log p.schema) (s.count p.schema + 1) next) }

/-! ## A call -/

/-- Where a call of `_get` stands. It is about to read the stamp; to compare it with the
one recorded; to look the table up; to read it from Redis; to keep the rows; or it has
an answer. The stamp that it has checked, and the number of the publish that its rows
are from, are recorded with it. -/
inductive Position (R : Type) where
  | version
  | invalidate (current : Option ℕ)
  | lookup (current : Option ℕ)
  | load
  | store (rows : List R) (readAt : ℕ)
  | done (answer : Except ReadError (List R))

/-- A call of `_get`, with the number of publishes of its schema when it started. -/
structure Caller (R : Type) where
  /-- The schema that is asked for. -/
  schema : Schema
  /-- The table of it. -/
  table : String
  /-- How often it had been published when the call began. -/
  since : ℕ
  /-- Where the call stands. -/
  position : Position R

/-- Whether Redis answers. -/
inductive Reply where
  | answers
  | fails (message : String)
deriving DecidableEq

/-- A call goes on. -/
def Caller.at (w : Caller R) (position : Position R) : Caller R := { w with position }

/-- A call ends, as Redis does not answer. -/
def Caller.unavailable (w : Caller R) (message : String) : Caller R :=
  w.at (.done (.error (.runtimeError s!"Redis unavailable: {message}")))

/-- `_check_version`, from the stamp that was read on. -/
def invalidate (s : Shared R) (schema : Schema) (current : Option ℕ) : Shared R :=
  if current ≠ s.versions schema then
    { s with
      store := Function.update s.store schema (fun _ => none)
      versions := Function.update s.versions schema current }
  else s

/-- `self._store[(schema, table)] = rows`. -/
def keep (s : Shared R) (schema : Schema) (table : String) (rows : List R) : Shared R :=
  { s with
    store := Function.update s.store schema
      (Function.update (s.store schema) table (some rows)) }

/-- A step of `_get`. -/
def work (s : Shared R) (w : Caller R) (reply : Reply) : Option (Shared R × Caller R) :=
  match w.position, reply with
  | .version, .answers => some (s, w.at (.invalidate (s.version w.schema)))
  | .version, .fails message => some (s, w.unavailable message)
  | .invalidate current, _ => some (invalidate s w.schema current, w.at (.lookup current))
  | .lookup _, _ =>
    match s.store w.schema w.table with
    | some (first :: rest) => some (s, w.at (.done (.ok (first :: rest))))
    | _ => some (s, w.at .load)
  | .load, .fails message => some (s, w.unavailable message)
  | .load, .answers =>
    match s.tables w.schema w.table with
    | none => some (s, w.at (.done (.error (notInRedis w.schema w.table))))
    | some rows => some (s, w.at (.store rows (s.count w.schema)))
  | .store rows _, _ =>
    some (keep s w.schema w.table rows, w.at (.done (checkRows w.schema w.table rows)))
  | .done _, _ => none

/-- The threads that share a reader. It starts with nothing kept, on a Redis that some
publishes have written. -/
def sharedReader (R : Type) : Pool (Shared R) (Caller R) (Publish R) (Schema × String) Reply where
  Init s := ∀ schema, s.store schema = (fun _ => none) ∧ s.versions schema = none ∧
    s.log schema 0 = (fun _ => none) ∧ s.version schema = stamp (s.count schema) ∧
    s.tables schema = s.log schema (s.count schema)
  env s p := some (publish s p)
  fresh s _ call := some ⟨call.1, call.2, s.count call.1, .version⟩
  work := work

/-! ## What a call should answer -/

/-- An answer is that of a read of what a publish has left, the `since`-th one or a
later one; or Redis did not answer. -/
def Current (s : Shared R) (schema : Schema) (table : String) (since : ℕ)
    (answer : Except ReadError (List R)) : Prop :=
  (∃ message, answer = .error (.runtimeError message)) ∨
    ∃ n, since ≤ n ∧ n ≤ s.count schema ∧ answer = directRead (s.log schema n) schema table

/-- Every call that has an answer has one that was current when it started, or later. -/
def CallsCurrent (s : PoolState (Shared R) (Caller R)) : Prop :=
  ∀ w ∈ s.workers, ∀ answer, w.position = .done answer →
    Current s.shared w.schema w.table w.since answer

/-- The publish that the rows are from that a call is about to keep. -/
def Position.readAt : Position R → Option ℕ
  | .store _ n => some n
  | _ => none

/-- The stamp that a call has checked that is about to look its table up. -/
def Position.checked : Position R → Option (Option ℕ)
  | .lookup current => some current
  | _ => none

/-- Rows are kept under the stamp of the publish that they are from, or an older one. -/
def KeptInTime (s : Shared R) (w : Caller R) (_ : Reply) : Prop :=
  ∀ n ∈ w.position.readAt, (s.versions w.schema).getD 0 ≤ n

/-- No call is about to look the table up that has checked a later stamp. -/
def LookedUpInTime (_ : Shared R) (w : Caller R) (_ : Reply) (v : Caller R) : Prop :=
  v.schema = w.schema ∧ v.table = w.table →
    ∀ n ∈ w.position.readAt, ∀ current ∈ v.position.checked, current.getD 0 ≤ n

instance (s : Shared R) (w : Caller R) (reply : Reply) : Decidable (KeptInTime s w reply) :=
  inferInstanceAs (Decidable (∀ n ∈ w.position.readAt, (s.versions w.schema).getD 0 ≤ n))

instance (s : Shared R) (w : Caller R) (reply : Reply) (v : Caller R) :
    Decidable (LookedUpInTime s w reply v) :=
  inferInstanceAs (Decidable (v.schema = w.schema ∧ v.table = w.table →
    ∀ n ∈ w.position.readAt, ∀ current ∈ v.position.checked, current.getD 0 ≤ n))

/-! ## What grows -/

variable {s s' : Shared R} {w v : Caller R} {schema : Schema} {table : String} {k l : ℕ}
variable {rows : List R} {answer : Except ReadError (List R)}

/-- The stamp of a publish is its number, and there is none before the first. -/
@[simp] theorem stamp_getD (n : ℕ) : (stamp n).getD 0 = n := by
  cases n with
  | zero => rfl
  | succ n => rfl

/-- What was published stays on record. -/
structure Grows (s s' : Shared R) : Prop where
  /-- A schema is not published less often. -/
  count : ∀ schema, s.count schema ≤ s'.count schema
  /-- And what a publish left stays what it was. -/
  log : ∀ schema n, n ≤ s.count schema → s'.log schema n = s.log schema n

/-- What does not touch the record does not change it. -/
theorem Grows.of_eq (hcount : s'.count = s.count) (hlog : s'.log = s.log) : Grows s s' :=
  ⟨fun _ => hcount ▸ le_rfl, fun _ _ _ => hlog ▸ rfl⟩

/-- A publish adds itself to the record of its schema. -/
theorem grows_publish (s : Shared R) (p : Publish R) : Grows s (publish s p) := by
  constructor
  · intro schema
    by_cases h : schema = p.schema
    · subst h
      simp [publish]
    · simp [publish, h]
  · intro schema n hn
    by_cases h : schema = p.schema
    · subst h
      have hne : n ≠ s.count p.schema + 1 := by omega
      simp [publish, hne]
    · simp [publish, h]

/-- Rows that the `k`-th publish has left, or a later one. -/
def FromPublish (s : Shared R) (schema : Schema) (table : String) (k : ℕ) (rows : List R) :
    Prop :=
  ∃ n, k ≤ n ∧ n ≤ s.count schema ∧ s.log schema n table = some rows

/-- Rows of a recent enough publish are rows of a recent enough one by any weaker measure. -/
theorem FromPublish.mono (h : FromPublish s schema table k rows) (hl : l ≤ k) :
    FromPublish s schema table l rows := by
  obtain ⟨n, hk, hn, hrows⟩ := h
  exact ⟨n, hl.trans hk, hn, hrows⟩

/-- They stay that while others are published. -/
theorem FromPublish.grows (h : FromPublish s schema table k rows) (hg : Grows s s') :
    FromPublish s' schema table k rows := by
  obtain ⟨n, hk, hn, hrows⟩ := h
  exact ⟨n, hk, hn.trans (hg.count schema), by rw [hg.log schema n hn, hrows]⟩

/-- An answer that was current when it was given stays one that was current then. -/
theorem Current.grows (h : Current s schema table k answer) (hg : Grows s s') :
    Current s' schema table k answer := by
  obtain hfail | ⟨n, hk, hn, rfl⟩ := h
  · exact Or.inl hfail
  · exact Or.inr ⟨n, hk, hn.trans (hg.count schema), by rw [hg.log schema n hn]⟩

/-- Rows from a publish are what a read of it answers. -/
theorem FromPublish.current (h : FromPublish s schema table k rows) :
    Current s schema table k (checkRows schema table rows) := by
  obtain ⟨n, hk, hn, hrows⟩ := h
  exact Or.inr ⟨n, hk, hn, by rw [directRead, hrows]⟩

/-! ## What holds of Redis, the reader and the calls -/

/-- Redis has what was published last. What the reader keeps is from the publish whose
stamp it has recorded, or from a later one. -/
structure Inv (s : Shared R) : Prop where
  /-- The stamp in Redis is the number of publishes. -/
  version : ∀ schema, s.version schema = stamp (s.count schema)
  /-- The tables in Redis are those of the last one. -/
  tables : ∀ schema, s.tables schema = s.log schema (s.count schema)
  /-- What the reader keeps is not older than the stamp that it has recorded. -/
  kept : ∀ schema, ∃ k, k ≤ s.count schema ∧ s.versions schema = stamp k ∧
    ∀ table rows, s.store schema table = some rows → FromPublish s schema table k rows

/-- What holds of a call where it stands. -/
def Holds (s : Shared R) (w : Caller R) : Prop :=
  w.since ≤ s.count w.schema ∧
    match w.position with
    | .version => True
    | .invalidate current =>
      ∃ c, current = stamp c ∧ w.since ≤ c ∧ c ≤ s.count w.schema
    | .lookup current => ∃ c, current = stamp c ∧ w.since ≤ c ∧
      ∀ rows, s.store w.schema w.table = some rows → FromPublish s w.schema w.table c rows
    | .load => True
    | .store rows readAt => w.since ≤ readAt ∧ FromPublish s w.schema w.table readAt rows
    | .done answer => Current s w.schema w.table w.since answer

/-- Where nothing is kept for a call that is not from the publish whose stamp it has
checked, what holds of the call still does. -/
theorem Holds.grows (h : Holds s v) (hg : Grows s s')
    (hstore : ∀ current rows, v.position = .lookup current →
      s'.store v.schema v.table = some rows → s.store v.schema v.table = some rows ∨
        FromPublish s v.schema v.table (current.getD 0) rows) : Holds s' v := by
  obtain ⟨hsince, hpos⟩ := h
  refine ⟨hsince.trans (hg.count v.schema), ?_⟩
  cases hp : v.position with
  | version => trivial
  | load => trivial
  | invalidate current =>
    rw [hp] at hpos
    obtain ⟨c, hc, hle, hcount⟩ := hpos
    exact ⟨c, hc, hle, hcount.trans (hg.count v.schema)⟩
  | lookup current =>
    rw [hp] at hpos
    obtain ⟨c, rfl, hle, hrows⟩ := hpos
    refine ⟨c, rfl, hle, fun rows hkept => ?_⟩
    obtain hold | hnew := hstore (stamp c) rows hp hkept
    · exact (hrows rows hold).grows hg
    · exact (stamp_getD c ▸ hnew).grows hg
  | store rows readAt =>
    rw [hp] at hpos
    exact ⟨hpos.1, hpos.2.grows hg⟩
  | done answer =>
    rw [hp] at hpos
    exact hpos.grows hg

/-! ## The steps -/

/-- Dropping what is kept publishes nothing. -/
theorem invalidate_count {current : Option ℕ} : (invalidate s schema current).count = s.count := by
  unfold invalidate
  split
  · rfl
  · rfl

theorem invalidate_log {current : Option ℕ} : (invalidate s schema current).log = s.log := by
  unfold invalidate
  split
  · rfl
  · rfl

/-- An invalidation keeps nothing new. -/
theorem of_store_invalidate {current : Option ℕ} {schema' : Schema}
    (h : (invalidate s schema current).store schema' table = some rows) :
    s.store schema' table = some rows := by
  unfold invalidate at h
  split at h
  · by_cases hs : schema' = schema
    · subst hs
      simp at h
    · simpa [hs] using h
  · exact h

/-- What is kept after a store was kept before, or is what was stored. -/
theorem of_store_keep {table' : String} {schema' : Schema} {rows' : List R}
    (h : (keep s schema table rows).store schema' table' = some rows') :
    s.store schema' table' = some rows' ∨ (schema' = schema ∧ table' = table ∧ rows' = rows) := by
  by_cases hs : schema' = schema
  · subst hs
    by_cases ht : table' = table
    · subst ht
      simp [keep] at h
      exact Or.inr ⟨rfl, rfl, h.symm⟩
    · simp [keep, ht] at h
      exact Or.inl h
  · simp [keep, hs] at h
    exact Or.inl h

/-- A publish keeps what holds of the reader: it moves the stamp and the tables together, and
touches nothing that is kept. -/
theorem Inv.publish (h : Inv s) (p : Publish R) : Inv (publish s p) := by
  have hg := grows_publish s p
  constructor
  · intro schema
    by_cases hs : schema = p.schema
    · subst hs
      simp only [Refdata.publish, Function.update_self, h.version, stamp_getD]
      rfl
    · simp [Refdata.publish, hs, h.version]
  · intro schema
    by_cases hs : schema = p.schema
    · subst hs
      simp [Refdata.publish]
    · simp [Refdata.publish, hs, h.tables]
  · intro schema
    obtain ⟨k, hk, hversions, hkept⟩ := h.kept schema
    exact ⟨k, hk.trans (hg.count schema), hversions,
      fun table rows hrows => (hkept table rows hrows).grows hg⟩

/-- A stamp that was read is recorded, with nothing kept under the one before. -/
theorem Inv.invalidate (h : Inv s) {c : ℕ} (hc : c ≤ s.count schema) :
    Inv (invalidate s schema (stamp c)) := by
  have hg : Grows s (Refdata.invalidate s schema (stamp c)) :=
    .of_eq invalidate_count invalidate_log
  constructor
  · intro schema'
    rw [invalidate_count]
    unfold Refdata.invalidate
    split
    · exact h.version schema'
    · exact h.version schema'
  · intro schema'
    rw [invalidate_count, invalidate_log]
    unfold Refdata.invalidate
    split
    · exact h.tables schema'
    · exact h.tables schema'
  · intro schema'
    obtain ⟨k, hk, hversions, hkept⟩ := h.kept schema'
    rw [invalidate_count]
    by_cases hne : stamp c ≠ s.versions schema
    · by_cases hs : schema' = schema
      · subst hs
        refine ⟨c, hc, ?_, fun table rows hrows => ?_⟩
        · simp [Refdata.invalidate, hne]
        · simp [Refdata.invalidate, hne] at hrows
      · refine ⟨k, hk, ?_, fun table rows hrows =>
          (hkept table rows (of_store_invalidate hrows)).grows hg⟩
        simp [Refdata.invalidate, hne, hs, hversions]
    · refine ⟨k, hk, ?_, fun table rows hrows =>
        (hkept table rows (of_store_invalidate hrows)).grows hg⟩
      simp [Refdata.invalidate, hne, hversions]

/-- Rows are kept that are from the publish of the recorded stamp, or a later one. -/
theorem Inv.keep (h : Inv s) (hrows : FromPublish s schema table k rows)
    (hk : (s.versions schema).getD 0 ≤ k) : Inv (keep s schema table rows) := by
  refine ⟨h.version, h.tables, fun schema' => ?_⟩
  obtain ⟨k', hk', hversions, hkept⟩ := h.kept schema'
  refine ⟨k', hk', hversions, fun table' rows' hrows' => ?_⟩
  obtain hold | ⟨rfl, rfl, rfl⟩ := of_store_keep hrows'
  · exact hkept table' rows' hold
  · rw [hversions, stamp_getD] at hk
    exact hrows.mono hk

variable {reply : Reply} {w' : Caller R}

/-- What a step does to the reader. -/
theorem shared_of_work (h : work s w reply = some (s', w')) : s' = s ∨
    (∃ current, w.position = .invalidate current ∧ s' = invalidate s w.schema current) ∨
    ∃ rows readAt, w.position = .store rows readAt ∧ s' = keep s w.schema w.table rows := by
  unfold work at h
  split at h
  · cases h
    exact Or.inl rfl
  · cases h
    exact Or.inl rfl
  · next _ current hp =>
    cases h
    exact Or.inr (Or.inl ⟨current, hp, rfl⟩)
  · split at h
    · cases h
      exact Or.inl rfl
    · cases h
      exact Or.inl rfl
  · cases h
    exact Or.inl rfl
  · split at h
    · cases h
      exact Or.inl rfl
    · cases h
      exact Or.inl rfl
  · next _ rows readAt hp =>
    cases h
    exact Or.inr (Or.inr ⟨rows, readAt, hp, rfl⟩)
  · cases h

/-- A step keeps what holds of the other calls. -/
theorem Holds.other (hw : Holds s w) (hv : Holds s v) (hguard : LookedUpInTime s w reply v)
    (h : work s w reply = some (s', w')) : Holds s' v := by
  obtain rfl | ⟨current, hp, rfl⟩ | ⟨rows, readAt, hp, rfl⟩ := shared_of_work h
  · exact hv
  · exact hv.grows (.of_eq invalidate_count invalidate_log)
      fun _ rows _ hrows => Or.inl (of_store_invalidate hrows)
  · refine hv.grows (.of_eq rfl rfl) fun current rows' hv' hrows => ?_
    obtain hold | ⟨hschema, htable, rfl⟩ := of_store_keep hrows
    · exact Or.inl hold
    · have hle := hguard ⟨hschema, htable⟩ readAt (by rw [hp]; rfl) current (by rw [hv']; rfl)
      obtain ⟨-, hpos⟩ := hw
      rw [hp] at hpos
      exact Or.inr (hschema ▸ htable ▸ hpos.2.mono hle)

/-- A step keeps what holds of Redis and the reader, and of the call. -/
theorem Inv.work (hinv : Inv s) (hw : Holds s w) (hguard : KeptInTime s w reply)
    (h : work s w reply = some (s', w')) : Inv s' ∧ Holds s' w' := by
  obtain ⟨hsince, hpos⟩ := hw
  unfold Refdata.work at h
  split at h
  · cases h
    exact ⟨hinv, hsince, s.count w.schema, hinv.version w.schema, hsince, le_rfl⟩
  · cases h
    exact ⟨hinv, hsince, Or.inl ⟨_, rfl⟩⟩
  · next _ current hp =>
    rw [hp] at hpos
    obtain ⟨c, rfl, hle, hcount⟩ := hpos
    cases h
    refine ⟨hinv.invalidate hcount, ?_, c, rfl, hle, fun rows hrows => ?_⟩
    · show w.since ≤ (Refdata.invalidate s w.schema (stamp c)).count w.schema
      rw [invalidate_count]
      exact hsince
    · obtain ⟨k, hk, hversions, hkept⟩ := hinv.kept w.schema
      by_cases hne : stamp c ≠ s.versions w.schema
      · simp [Refdata.invalidate, hne, Caller.at] at hrows
      · have hkc : k = c := by
          rw [← stamp_getD k, ← hversions, ← not_not.mp hne, stamp_getD]
        exact (hkc ▸ hkept w.table rows (of_store_invalidate hrows)).grows
          (.of_eq invalidate_count invalidate_log)
  · next _ current hp =>
    rw [hp] at hpos
    obtain ⟨c, rfl, hle, hrows⟩ := hpos
    split at h
    · next first rest hkept =>
      cases h
      exact ⟨hinv, hsince, ((hrows _ hkept).mono hle).current⟩
    · cases h
      exact ⟨hinv, hsince, trivial⟩
  · cases h
    exact ⟨hinv, hsince, Or.inl ⟨_, rfl⟩⟩
  · split at h
    · next hnone =>
      cases h
      refine ⟨hinv, hsince, Or.inr ⟨s.count w.schema, hsince, le_rfl, ?_⟩⟩
      show _ = directRead (s.log w.schema (s.count w.schema)) w.schema w.table
      rw [← hinv.tables, directRead, hnone]
    · next rows hrows =>
      cases h
      exact ⟨hinv, hsince, hsince, s.count w.schema, le_rfl, le_rfl, hinv.tables w.schema ▸ hrows⟩
  · next _ rows readAt hp =>
    rw [hp] at hpos
    cases h
    have hg : Grows s (Refdata.keep s w.schema w.table rows) := .of_eq rfl rfl
    exact ⟨hinv.keep hpos.2 (hguard readAt (by rw [hp]; rfl)), hsince,
      ((hpos.2.mono hpos.1).current).grows hg⟩
  · cases h

/-- **A shared reader is current** as long as rows are only kept under the stamp of the
publish that they are from or an older one, with no call about to look the table up
that has checked a later one: then every call answers what a publish has left that was
the last one when the call started, or came later. -/
theorem callsCurrent {s : PoolState (Shared R) (Caller R)}
    (hs : (sharedReader R).machine.Reach (Pool.Guard KeptInTime LookedUpInTime) s) :
    CallsCurrent s := by
  have h := Pool.invariant (I := Inv) (L := Holds) hs
    (fun s hinit => ⟨fun schema => (hinit schema).2.2.2.1, fun schema => (hinit schema).2.2.2.2,
      fun schema => ⟨0, Nat.zero_le _, (hinit schema).2.1, fun table rows hrows => by
        rw [(hinit schema).1] at hrows
        cases hrows⟩⟩)
    (fun s _ call w hinv hw => by
      cases hw
      exact ⟨le_rfl, trivial⟩)
    (fun s p s' hinv hp => by
      cases hp
      exact ⟨hinv.publish p, fun w hw => hw.grows (grows_publish s p)
        fun _ _ _ hrows => Or.inl hrows⟩)
    (fun s w reply s' w' hinv hw hguard h => hinv.work hw hguard h)
    (fun s w reply s' w' v _ hw hv _ hguard h => hw.other hv hguard h)
  intro w hw answer hp
  obtain ⟨-, hpos⟩ := h.2 w hw
  rwa [hp] at hpos

namespace CallsCurrent

/-- An empty Redis, and a reader that keeps nothing. -/
def start : PoolState (Shared ℕ) (Caller ℕ) where
  shared := ⟨fun _ => none, fun _ _ => none, fun _ _ => none, fun _ => none, fun _ => 0,
    fun _ _ _ => none⟩
  workers := []

/-- The run starts from an empty Redis and a reader that has nothing. -/
theorem start_init : (sharedReader ℕ).machine.Init start :=
  ⟨fun _ => ⟨rfl, rfl, rfl, rfl, rfl⟩, rfl⟩

/-- The table of indicators is published with one row. -/
def indicators (row : ℕ) : PoolAct (Publish ℕ) (Schema × String) Reply :=
  .env ⟨.refdata, ["indicator"], fun _ => some [row]⟩

/-- A call for it starts. -/
def callIndicators : PoolAct (Publish ℕ) (Schema × String) Reply :=
  .spawn (.refdata, "indicator")

/-- A call takes its next step, and Redis answers. -/
def next (i : ℕ) : PoolAct (Publish ℕ) (Schema × String) Reply := .work i .answers

/-- The rows that a call has answered. -/
def answered (w : Caller ℕ) : Option (List ℕ) :=
  match w.position with
  | .done (.ok rows) => some rows
  | _ => none

/-- A call that has answered with rows is over. -/
theorem position_of_answered {w : Caller ℕ} {rows : List ℕ} (h : answered w = some rows) :
    w.position = .done (.ok rows) := by
  unfold answered at h
  split at h
  · next hp =>
    cases h
    exact hp
  · cases h

/-- A call that started after the second publish has answered a row. -/
def AnsweredSecond (s : PoolState (Shared ℕ) (Caller ℕ)) (row : ℕ) : Prop :=
  s.shared.count .refdata = 2 ∧ s.shared.log .refdata 2 "indicator" = some [2] ∧
    ∃ w ∈ s.workers, w.schema = .refdata ∧ w.table = "indicator" ∧ w.since = 2 ∧
      answered w = some [row]

instance (s : PoolState (Shared ℕ) (Caller ℕ)) (row : ℕ) : Decidable (AnsweredSecond s row) :=
  inferInstanceAs (Decidable (_ ∧ _ ∧ _))

/-- A call reads the first row. The second one is published, and another call records
its stamp, before the first keeps what it has read. -/
def slowReader : List (PoolAct (Publish ℕ) (Schema × String) Reply) :=
  [indicators 1, callIndicators, next 0, next 0, next 0, next 0,
    indicators 2, callIndicators, next 1, next 1, next 0,
    callIndicators, next 2, next 2, next 2]

/-- The third call starts after the second publish, and answers the first one's row. -/
theorem not_slowReader :
    ¬ ∀ s, (sharedReader ℕ).machine.Reach (fun _ _ => True) s → CallsCurrent s := by
  intro h
  obtain ⟨s, hs, hp⟩ := Machine.Reach.exists_of_runs (M := (sharedReader ℕ).machine)
    (G := fun _ _ => True) (P := fun s => decide (AnsweredSecond s 1))
    start_init slowReader (by decide +kernel)
  obtain ⟨hcount, hlog, w, hw, hschema, htable, hsince, hanswer⟩ := of_decide_eq_true hp
  obtain ⟨message, hfail⟩ | ⟨n, hn, hle, hread⟩ := h s hs w hw _ (position_of_answered hanswer)
  · cases hfail
  · rw [hschema, hcount] at hle
    obtain rfl : n = 2 := le_antisymm hle (hsince ▸ hn)
    rw [hschema, htable, directRead, hlog] at hread
    cases hread

/-- A call is done before the second publish, and the next one reads what that has
left. -/
def inTurn : List (PoolAct (Publish ℕ) (Schema × String) Reply) :=
  [indicators 1, callIndicators, next 0, next 0, next 0, next 0, next 0,
    indicators 2, callIndicators, next 1, next 1, next 1, next 1, next 1]

/-- Two calls one after the other, with a publish between them: the second one finds what was
published. -/
theorem inTurn_callsCurrent : ∃ s, AnsweredSecond s 2 ∧ CallsCurrent s := by
  obtain ⟨s, hs, hp⟩ := Machine.Reach.exists_of_runs (M := (sharedReader ℕ).machine)
    (G := Pool.Guard KeptInTime LookedUpInTime) (P := fun s => decide (AnsweredSecond s 2))
    start_init inTurn (by decide +kernel)
  exact ⟨s, of_decide_eq_true hp, callsCurrent hs⟩

end CallsCurrent

end Refdata
