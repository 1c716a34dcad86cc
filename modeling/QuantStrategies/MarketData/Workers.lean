import QuantStrategies.Lib.Pool
import QuantStrategies.MarketData.Service

/-!
# Interleaved calls of the price bar service

Several workers run calls of the service on one table. Between two statements
of one call – a coverage probe, a range read, a fetch, an insert of one bar, a
reading of the clock – any statement of another may run, the clock may move,
and a worker may die with the bars it has inserted in place and the rest not.

A `Worker` is a call together with where it stands and the local variables it
still needs; `work` is its next statement. The pieces are those of
`Service`, so that a worker that runs alone computes what the call computes.
Each bar that is inserted is recorded with the clock of its call, which is what
is claimed about the bars in the table.

The record of the inserts is a ghost: no statement reads it. It is there to say of each
stored bar by which clock its call went, and to tell the bars of one call from those that
another one stored in the meantime.
-/

/-- A call of the service. `now` is the instant the caller passes, if any. -/
inductive Call where
  | ensureFresh (s : Series) (lookback : ℤ) (now : Option ℤ)
  | sync (instruments : List (String × ℕ)) (tmIntervalId : ℕ) (lookback : ℤ) (now : Option ℤ)
  | backfill (s : Series) (start : ℤ) (stop : Option ℤ) (now : Option ℤ)
  | loadWindow (s : Series) (lookback : ℤ) (now : Option ℤ) (includeForming : Bool)

/-- The window `ensure_fresh` is completing: `now` is its clock reading. -/
structure Window where
  /-- What is to be completed. -/
  series : Series
  /-- How many bars back from the newest closed one. -/
  lookback : ℤ
  /-- The clock as it was read at the beginning, which the whole call goes by. -/
  now : ℤ

/-- Who called `ensure_fresh`, with what the caller still has to do. -/
inductive Caller where
  | direct
  | loadWindow (now : Option ℤ) (includeForming : Bool)
  | sync (seen rest : List (String × ℕ)) (tmIntervalId : ℕ) (lookback : ℤ) (now : Option ℤ)

/-- A range `backfill` is repairing, with the clock of the call. -/
structure Repair where
  /-- What is to be repaired. -/
  series : Series
  /-- The clock of the call, which decides nothing about the range. -/
  now : ℤ
  /-- The range that was asked for, from here. -/
  start : ℤ
  /-- And up to here. -/
  stop : ℤ

/-- A call and where it stands. -/
inductive Worker where
  | call (c : Call)
  | coverage (k : Caller) (w : Window)
  | gaps (k : Caller) (w : Window)
  | fetch (k : Caller) (w : Window) (first : ℤ) (rest : List ℤ)
  | insert (k : Caller) (w : Window) (todo : List OhlcvBar)
  | syncNext (seen rest : List (String × ℕ)) (tmIntervalId : ℕ) (lookback : ℤ) (now : Option ℤ)
  | clock (w : Window) (now : Option ℤ) (includeForming : Bool)
  | read (w : Window) (includeForming : Bool) (moment : ℤ)
  | forming (w : Window) (moment : ℤ) (bars : List OhlcvBar)
  | returned (w : Window) (includeForming : Bool) (moment : ℤ) (bars : List OhlcvBar)
  | backfillGaps (r : Repair)
  | backfillFetch (r : Repair) (first : ℤ) (rest : List ℤ)
  | backfillInsert (r : Repair) (missing : List ℤ) (fetched todo : List OhlcvBar) (inserted : ℕ)
  | backfilled (result : BackfillResult)
  | done
  | raised (e : BarError)

/-- One insert that went through, with the clock of its call. -/
structure Insertion where
  /-- The series of the bar that was stored. -/
  series : Series
  /-- The bar. -/
  bar : OhlcvBar
  /-- What the clock of the call showed. -/
  now : ℤ

/-- What the workers share: the clock, the table, and the record of inserts. -/
structure Shared where
  /-- What the next reading of the clock shows. It does not go back. -/
  clock : ℤ
  /-- The table, in which a bar that is stored stays. -/
  db : PriceBar
  /-- Every insert that went through, for what is proved and for nothing else. -/
  inserted : List Insertion

/-- What answers a statement: the database or the clock, as they are; the
exchange; or a procedure call that fails. -/
inductive Reply where
  | proceed
  | venue (v : VenueReply)
  | failed (e : ProcedureError)

/-- Where an exception of `ensure_fresh` goes: a batch warmer notes it and
turns to the next instrument. -/
def Caller.fail (e : BarError) : Caller → Worker
  | .direct => .raised e
  | .loadWindow _ _ => .raised e
  | .sync seen rest tmIntervalId lookback now => .syncNext seen rest tmIntervalId lookback now

/-- Where `ensure_fresh` returns to. -/
def Caller.resume (w : Window) : Caller → Worker
  | .direct => .done
  | .loadWindow now includeForming => .clock w now includeForming
  | .sync seen rest tmIntervalId lookback now => .syncNext seen rest tmIntervalId lookback now

/-- The entry of `ensure_fresh`, with its clock reading. -/
def Caller.enter (k : Caller) (s : Series) (lookback now : ℤ) : Worker :=
  if lookback < 1 then k.fail (.lookback lookback) else .coverage k ⟨s, lookback, now⟩

section

variable (ref : RefData)

/-- The newest closed bar of a window. -/
def Window.newest (w : Window) : ℤ := lastClosedBar w.now (ref.period w.series)

/-- The oldest bar of a window. -/
def Window.start (w : Window) : ℤ :=
  windowStart (ref.period w.series) (w.newest ref) w.lookback

/-- The first statement of a call. -/
def workCall (clock : ℤ) : Call → Worker
  | .ensureFresh s lookback now => Caller.direct.enter s lookback (now.getD clock)
  | .sync instruments tmIntervalId lookback now =>
      .syncNext [] instruments tmIntervalId lookback now
  | .backfill s start stop now =>
      let stop := stop.getD (lastClosedBar (now.getD clock) (ref.period s))
      match backfillRange (ref.period s) start stop with
      | .error e => .raised e
      | .ok () => .backfillGaps ⟨s, now.getD clock, start, stop⟩
  | .loadWindow s lookback now includeForming =>
      (Caller.loadWindow now includeForming).enter s lookback (now.getD clock)

/-- The next instrument of a batch; one already seen is folded. -/
def workSync (clock : ℤ) (seen rest : List (String × ℕ)) (tmIntervalId : ℕ) (lookback : ℤ)
    (now : Option ℤ) : Worker :=
  match rest with
  | [] => .done
  | (internalCusip, sourceAppId) :: rest =>
      if (internalCusip, sourceAppId) ∈ seen then
        .syncNext seen rest tmIntervalId lookback now
      else
        (Caller.sync ((internalCusip, sourceAppId) :: seen) rest tmIntervalId lookback now).enter
          ⟨internalCusip, tmIntervalId, sourceAppId⟩ lookback (now.getD clock)

/-- The coverage probe. -/
def workCoverage (db : PriceBar) (k : Caller) (w : Window) : Worker :=
  if isFresh (db.getCoverage w.series) (w.newest ref) then k.resume w else .gaps k w

/-- The gap check. -/
def workGaps (db : PriceBar) (k : Caller) (w : Window) : Worker :=
  match findGaps (ref.period w.series) db w.series (w.start ref) (w.newest ref) with
  | [] => k.resume w
  | first :: rest => .fetch k w first rest

/-- The fetch, and the check of what it brought. -/
def workFetch (v : VenueReply) (k : Caller) (w : Window) (first : ℤ) (rest : List ℤ) : Worker :=
  match fetch v w.series (ref.period w.series) first (w.newest ref) with
  | .error e => k.fail e
  | .ok fetched =>
      match rejectIncomplete w.series.internalCusip (first :: rest) fetched (w.newest ref) with
      | .error e => k.fail e
      | .ok () => .insert k w (toStore (first :: rest) fetched)

/-- The insert of one bar, with its record when this worker stored it. -/
def Shared.insert (sh : Shared) (s : Series) (now : ℤ) (b : OhlcvBar) :
    Except BarError (Bool × Shared) :=
  (insertBar sh.db s b).map (fun r => (r.1, { sh with
    db := r.2
    inserted := if r.1 then ⟨s, b, now⟩ :: sh.inserted else sh.inserted }))

/-- The end of `load_window`. -/
def serve (w : Window) (includeForming : Bool) (moment : ℤ) (bars : List OhlcvBar) : Worker :=
  match requireCoverage w.series w.lookback bars with
  | .error e => .raised e
  | .ok bars => .returned w includeForming moment bars

/-- The read of the closed bars. -/
def workRead (db : PriceBar) (w : Window) (includeForming : Bool) (moment : ℤ) : Worker :=
  let bars := readClosed (ref.period w.series) db w.series w.lookback includeForming moment
  if includeForming then .forming w moment bars else serve w false moment bars

/-- The fetch of the forming bar. -/
def workForming (v : VenueReply) (w : Window) (moment : ℤ) (bars : List OhlcvBar) : Worker :=
  match appendForming v bars w.series (ref.period w.series)
      (floorToPeriod moment (ref.period w.series)) with
  | .error e => .raised e
  | .ok bars => serve w true moment bars

/-- The gap check of a repair. -/
def workBackfillGaps (db : PriceBar) (r : Repair) : Worker :=
  match findGaps (ref.period r.series) db r.series r.start r.stop with
  | [] => .backfilled ⟨r.start, r.stop,
      (barStarts r.start r.stop (ref.period r.series)).length, 0, 0, []⟩
  | first :: rest => .backfillFetch r first rest

/-- The fetch of a repair: whatever came is stored. -/
def workBackfillFetch (v : VenueReply) (r : Repair) (first : ℤ) (rest : List ℤ) : Worker :=
  match fetch v r.series (ref.period r.series) first r.stop with
  | .error e => .raised e
  | .ok fetched => .backfillInsert r (first :: rest) fetched (toStore (first :: rest) fetched) 0

/-- The report of a repair. -/
def backfillReport (r : Repair) (missing : List ℤ) (fetched : List OhlcvBar) (inserted : ℕ) :
    Worker :=
  .backfilled ⟨r.start, r.stop, (barStarts r.start r.stop (ref.period r.series)).length,
    missing.length, inserted, unfilled missing fetched⟩

/-- The next statement of a worker. -/
def work (sh : Shared) : Worker → Reply → Option (Shared × Worker)
  | .call c, .proceed => some (sh, workCall ref sh.clock c)
  | .syncNext seen rest tmIntervalId lookback now, .proceed =>
      some (sh, workSync sh.clock seen rest tmIntervalId lookback now)
  | .coverage k w, .proceed => some (sh, workCoverage ref sh.db k w)
  | .gaps k w, .proceed => some (sh, workGaps ref sh.db k w)
  | .fetch k w first rest, .venue v => some (sh, workFetch ref v k w first rest)
  | .insert k w [], .proceed => some (sh, k.resume w)
  | .insert k w (b :: todo), .proceed =>
      match sh.insert w.series w.now b with
      | .error e => some (sh, k.fail e)
      | .ok (_, sh') => some (sh', .insert k w todo)
  | .clock w now includeForming, .proceed => some (sh, .read w includeForming (now.getD sh.clock))
  | .read w includeForming moment, .proceed =>
      some (sh, workRead ref sh.db w includeForming moment)
  | .forming w moment bars, .venue v => some (sh, workForming ref v w moment bars)
  | .backfillGaps r, .proceed => some (sh, workBackfillGaps ref sh.db r)
  | .backfillFetch r first rest, .venue v => some (sh, workBackfillFetch ref v r first rest)
  | .backfillInsert r missing fetched [] inserted, .proceed =>
      some (sh, backfillReport ref r missing fetched inserted)
  | .backfillInsert r missing fetched (b :: todo) inserted, .proceed =>
      match sh.insert r.series r.now b with
      | .error e => some (sh, .raised e)
      | .ok (stored, sh') => some (sh', .backfillInsert r missing fetched todo
          (if stored then inserted + 1 else inserted))
  -- a procedure call that fails for a reason other than the key
  | .coverage k _, .failed e => some (sh, k.fail (.procedure e))
  | .gaps k _, .failed e => some (sh, k.fail (.procedure e))
  | .insert k _ (_ :: _), .failed e =>
      if e.sqlstate = uniqueViolation then none else some (sh, k.fail (.procedure e))
  | .read _ _ _, .failed e => some (sh, .raised (.procedure e))
  | .backfillGaps _, .failed e => some (sh, .raised (.procedure e))
  | .backfillInsert _ _ _ (_ :: _) _, .failed e =>
      if e.sqlstate = uniqueViolation then none else some (sh, .raised (.procedure e))
  | _, _ => none

/-- The workers as a pool: the world moves the clock on, and a run starts from
an empty table. -/
def barPool : Pool Shared Worker ℕ Call Reply where
  Init sh := sh.db = .empty ∧ sh.inserted = []
  env sh d := some { sh with clock := sh.clock + d }
  fresh _ _ c := some (.call c)
  work sh w a := work ref sh w a

end

/-! ## What a statement can do -/

/-- The bar a worker is about to insert, with its series and the clock of its
call. -/
def Worker.nextInsert : Worker → Option Insertion
  | .insert _ w (b :: _) => some ⟨w.series, b, w.now⟩
  | .backfillInsert r _ _ (b :: _) _ => some ⟨r.series, b, r.now⟩
  | _ => none

variable {ref : RefData} {sh sh' : Shared} {w w' : Worker} {a : Reply}

/-- The effect of an insert: the bar is stored, and the insert is recorded
unless the bar was stored before. -/
def Insertion.Effect (e : Insertion) (sh sh' : Shared) : Prop :=
  sh'.clock = sh.clock ∧
  (∀ s t, sh'.db.Stored s t ↔ sh.db.Stored s t ∨ (s = e.series ∧ t = e.bar.barTimestamp)) ∧
  (sh'.inserted = e :: sh.inserted ∨
    (sh'.inserted = sh.inserted ∧ sh.db.Stored e.series e.bar.barTimestamp))

/-- **What an insert does**: it stores the bar if its key is free, changes nothing if it is not,
and is recorded where it went through. Both cases return normally, since the conflict is
swallowed. -/
theorem Shared.insert_spec (sh : Shared) (s : Series) (now : ℤ) (b : OhlcvBar) :
    ∃ stored sh', sh.insert s now b = .ok (stored, sh') ∧
      Insertion.Effect ⟨s, b, now⟩ sh sh' := by
  obtain ⟨stored, db', hins, hold, hst⟩ := insertBar_spec sh.db s b
  refine ⟨stored, { sh with
    db := db'
    inserted := if stored then ⟨s, b, now⟩ :: sh.inserted else sh.inserted },
    by rw [Shared.insert, hins]; rfl, rfl, hst, ?_⟩
  cases stored with
  | false => exact Or.inr ⟨rfl, hold rfl⟩
  | true => exact Or.inl rfl

/-- **What a step does to what is shared.** A step leaves the clock, the table
and the record alone, or it is the insert the worker was about to make. -/
theorem work_shared (h : work ref sh w a = some (sh', w')) :
    sh' = sh ∨ ∃ e, w.nextInsert = some e ∧ e.Effect sh sh' := by
  unfold work at h
  split at h
  all_goals first
    | exact Or.inl (Prod.mk.inj (Option.some.inj h)).1.symm
    | skip
  · rename_i k v b todo
    obtain ⟨stored, sh₁, hins, heff⟩ := sh.insert_spec v.series v.now b
    simp only [hins] at h
    obtain ⟨rfl, -⟩ := Prod.mk.inj (Option.some.inj h)
    exact Or.inr ⟨_, rfl, heff⟩
  · rename_i r missing fetched b todo inserted
    obtain ⟨stored, sh₁, hins, heff⟩ := sh.insert_spec r.series r.now b
    simp only [hins] at h
    obtain ⟨rfl, -⟩ := Prod.mk.inj (Option.some.inj h)
    exact Or.inr ⟨_, rfl, heff⟩
  · split at h
    · exact absurd h (by simp)
    · exact Or.inl (Prod.mk.inj (Option.some.inj h)).1.symm
  · split at h
    · exact absurd h (by simp)
    · exact Or.inl (Prod.mk.inj (Option.some.inj h)).1.symm
  · exact absurd h (by simp)

/-! ## A worker that runs alone

When no other worker moves and the clock stands, the statements of a worker
compute what the call computes. -/

/-- The steps of one worker, with nothing in between. -/
def Alone (ref : RefData) : Shared × Worker → Shared × Worker → Prop :=
  Relation.ReflTransGen (fun x y => ∃ a, work ref x.1 x.2 a = some y)

/-- A statement of the worker, and then the rest of its run, with nothing in between. -/
theorem Alone.step {x y z : Shared × Worker} (a : Reply) (h : work ref x.1 x.2 a = some y)
    (hz : Alone ref y z) : Alone ref x z :=
  Relation.ReflTransGen.head ⟨a, h⟩ hz

/-- The inserts of one list, one statement each, are the store loop. -/
theorem alone_insert (k : Caller) (w : Window) (todo : List OhlcvBar) (sh : Shared) :
    ∃ sh', Alone ref (sh, .insert k w todo) (sh', k.resume w) ∧ sh'.clock = sh.clock ∧
      sh'.db = (store sh.db w.series todo).2 := by
  induction todo generalizing sh with
  | nil => exact ⟨sh, .step .proceed rfl .refl, rfl, rfl⟩
  | cons b todo ih =>
    obtain ⟨stored, db', hins, -, -⟩ := insertBar_spec sh.db w.series b
    have hsh : sh.insert w.series w.now b = .ok (stored, { sh with
        db := db'
        inserted := if stored then ⟨w.series, b, w.now⟩ :: sh.inserted else sh.inserted }) := by
      rw [Shared.insert, hins]
      rfl
    obtain ⟨sh', hrun, hclock, hdb⟩ := ih { sh with
      db := db'
      inserted := if stored then ⟨w.series, b, w.now⟩ :: sh.inserted else sh.inserted }
    refine ⟨sh', .step .proceed ?_ hrun, hclock, ?_⟩
    · simp only [work, hsh]
    · rw [hdb, store]
      simp only [hins]

/-- Where a worker stands once `ensure_fresh` has answered. -/
def Caller.settle (k : Caller) (w : Window) : Except BarError ℕ → Worker
  | .ok _ => k.resume w
  | .error e => k.fail e

/-- From its fetch on, a worker is `fillGaps`. -/
theorem alone_fetch (v : VenueReply) (k : Caller) (w : Window) (first : ℤ) (rest : List ℤ)
    (sh : Shared) :
    ∃ sh', Alone ref (sh, .fetch k w first rest) (sh', k.settle w
        (fillGaps (ref.period w.series) v sh.db w.series first rest (w.newest ref)).1) ∧
      sh'.clock = sh.clock ∧
      sh'.db = (fillGaps (ref.period w.series) v sh.db w.series first rest (w.newest ref)).2 := by
  suffices hfetched : ∃ sh', Alone ref (sh, workFetch ref v k w first rest) (sh', k.settle w
      (fillGaps (ref.period w.series) v sh.db w.series first rest (w.newest ref)).1) ∧
      sh'.clock = sh.clock ∧
      sh'.db = (fillGaps (ref.period w.series) v sh.db w.series first rest (w.newest ref)).2 by
    obtain ⟨sh', hrun, h⟩ := hfetched
    exact ⟨sh', Alone.step (.venue v) rfl hrun, h⟩
  unfold workFetch fillGaps
  cases fetch v w.series (ref.period w.series) first (w.newest ref) with
  | error e => exact ⟨sh, .refl, rfl, rfl⟩
  | ok fetched =>
    simp only
    cases rejectIncomplete w.series.internalCusip (first :: rest) fetched (w.newest ref) with
    | error e => exact ⟨sh, .refl, rfl, rfl⟩
    | ok u =>
      obtain ⟨sh', hrun, hclock, hdb⟩ := alone_insert k w
        (toStore (first :: rest) fetched) sh
      obtain ⟨n, hn⟩ := (stored_store (s := w.series) (toStore (first :: rest) fetched) sh.db).1
      refine ⟨sh', ?_, hclock, hdb⟩
      simp only [hn]
      exact hrun

/-- **`ensure_fresh`, statement by statement, is the function.** So what is proved of the function
holds of a worker that nobody interrupts. -/
theorem alone_ensureFresh (v : VenueReply) (k : Caller) (s : Series) (lookback now : ℤ)
    (sh : Shared) :
    ∃ sh', Alone ref (sh, k.enter s lookback now)
        (sh', k.settle ⟨s, lookback, now⟩ (ensureFresh ref v sh.db s lookback now).1) ∧
      sh'.clock = sh.clock ∧ sh'.db = (ensureFresh ref v sh.db s lookback now).2 := by
  unfold Caller.enter ensureFresh
  split
  · exact ⟨sh, .refl, rfl, rfl⟩
  simp only
  cases hfresh : isFresh (sh.db.getCoverage s) (lastClosedBar now (ref.period s)) with
  | true =>
    have hprobe : work ref sh (.coverage k ⟨s, lookback, now⟩) .proceed
        = some (sh, k.resume ⟨s, lookback, now⟩) := by
      simp only [work, workCoverage, Window.newest, hfresh, if_true]
    simp only [if_true]
    exact ⟨sh, Alone.step .proceed hprobe .refl, rfl, rfl⟩
  | false =>
    have hprobe : work ref sh (.coverage k ⟨s, lookback, now⟩) .proceed
        = some (sh, .gaps k ⟨s, lookback, now⟩) := by
      simp only [work, workCoverage, Window.newest, hfresh, Bool.false_eq_true, if_false]
    simp only [Bool.false_eq_true, if_false]
    cases hgaps : findGaps (ref.period s) sh.db s
        (windowStart (ref.period s) (lastClosedBar now (ref.period s)) lookback)
        (lastClosedBar now (ref.period s)) with
    | nil =>
      have hcheck : work ref sh (.gaps k ⟨s, lookback, now⟩) .proceed
          = some (sh, k.resume ⟨s, lookback, now⟩) := by
        simp only [work, workGaps, Window.start, Window.newest, hgaps]
      exact ⟨sh, Alone.step .proceed hprobe (Alone.step .proceed hcheck .refl), rfl, rfl⟩
    | cons first rest =>
      have hcheck : work ref sh (.gaps k ⟨s, lookback, now⟩) .proceed
          = some (sh, .fetch k ⟨s, lookback, now⟩ first rest) := by
        simp only [work, workGaps, Window.start, Window.newest, hgaps]
      obtain ⟨sh', hrun, h⟩ := alone_fetch v k ⟨s, lookback, now⟩ first rest sh
      exact ⟨sh', Alone.step .proceed hprobe (Alone.step .proceed hcheck hrun), h⟩

/-- Where a worker stands once `load_window` has answered. -/
def loadSettle (w : Window) (includeForming : Bool) (moment : ℤ) :
    Except BarError (List OhlcvBar) → Worker
  | .ok bars => .returned w includeForming moment bars
  | .error e => .raised e

/-- **`load_window`, statement by statement, is the function**, both readings of
the clock being the instant its caller passed. -/
theorem alone_loadWindow (v v' : VenueReply) (s : Series) (lookback now : ℤ)
    (includeForming : Bool) (sh : Shared) :
    ∃ sh', Alone ref (sh, .call (.loadWindow s lookback (some now) includeForming))
        (sh', loadSettle ⟨s, lookback, now⟩ includeForming now
          (loadWindow ref v v' sh.db s lookback now now includeForming).1) ∧
      sh'.db = (loadWindow ref v v' sh.db s lookback now now includeForming).2 := by
  obtain ⟨sh', hrun, -, hdb⟩ := alone_ensureFresh v
    (.loadWindow (some now) includeForming) s lookback now sh
  unfold loadWindow
  generalize ensureFresh ref v sh.db s lookback now = r at *
  obtain ⟨r1, db'⟩ := r
  obtain rfl : sh'.db = db' := hdb
  cases r1 with
  | error e => exact ⟨sh', Alone.step .proceed rfl hrun, rfl⟩
  | ok n =>
    -- the second reading of the clock, the read, and the forming candle if asked for
    refine ⟨sh', Alone.step .proceed rfl (hrun.trans (Alone.step .proceed rfl
      (Alone.step .proceed rfl ?_))), rfl⟩
    cases includeForming with
    | false =>
      simp only [workRead, serve, Bool.false_eq_true, if_false, Except.bind, Option.getD_some]
      cases requireCoverage s lookback (readClosed (ref.period s) sh'.db s lookback false now) <;>
        exact .refl
    | true =>
      refine Alone.step (.venue v') rfl ?_
      simp only [workForming, serve, if_true, Option.getD_some]
      cases appendForming v' (readClosed (ref.period s) sh'.db s lookback true now) s
          (ref.period s) (floorToPeriod now (ref.period s)) with
      | error e => exact .refl
      | ok bars =>
        simp only [Except.bind]
        cases requireCoverage s lookback bars <;> exact .refl
