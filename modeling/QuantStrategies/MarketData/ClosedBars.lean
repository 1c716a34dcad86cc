import QuantStrategies.MarketData.Workers

/-!
# Only closed bars are stored

A bar whose period has not ended is still changing. Stored, it would be frozen:
the key is taken, the conflict of the true bar is swallowed, and nothing ever
repairs it. `ensure_fresh` asks for nothing newer than the newest closed bar,
and `load_window` never writes the forming candle it appends. `backfill` takes
its range as it is given: an explicit end in the current period, or in the
future, reaches the exchange, which serves its open candle like any other.

The condition under which every stored bar was closed at the clock of the call
that stored it is therefore one on the ranges handed to `backfill`.

That is a condition on the arguments of one kind of call, decided when the call begins, and
it is enough over all interleavings: whatever the other workers do, no statement stores a
bar that was open at the clock of its call. A range that reaches into the present bar has
this bar stored before it is closed, by an exchange that serves it.
-/

variable {ref : RefData} {sh sh' : Shared} {w w' : Worker} {a : Reply}

/-- A bar is closed at an instant. -/
def ClosedAt (ref : RefData) (s : Series) (now t : ℤ) : Prop :=
  t ≤ lastClosedBar now (ref.period s)

/-- The explicit range a call is about to start on, when it is accepted. -/
def Worker.explicitRepair (ref : RefData) (clock : ℤ) : Worker → Option Repair
  | .call (.backfill s start (some stop) now) =>
      match backfillRange (ref.period s) start stop with
      | .error _ => none
      | .ok () => some ⟨s, now.getD clock, start, stop⟩
  | _ => none

/-- **The condition on a step.** A `backfill` that starts with an explicit,
accepted range has no boundary in it that is newer than the newest closed bar
at the clock of the call. -/
def RangeClosed (ref : RefData) (sh : Shared) (w : Worker) (_ : Reply) : Prop :=
  ∀ r ∈ w.explicitRepair ref sh.clock, ∀ t ∈ barStarts r.start r.stop (ref.period r.series),
    t ≤ lastClosedBar r.now (ref.period r.series)

instance (ref : RefData) (sh : Shared) (w : Worker) (a : Reply) :
    Decidable (RangeClosed ref sh w a) :=
  inferInstanceAs (Decidable (∀ r ∈ w.explicitRepair ref sh.clock, _))

/-- What a worker is going to store is closed at the clock of its call. -/
def StoresClosed (ref : RefData) (w : Worker) : Prop :=
  match w with
  | .fetch _ w first rest => ∀ t ∈ first :: rest, ClosedAt ref w.series w.now t
  | .insert _ w todo => ∀ b ∈ todo, ClosedAt ref w.series w.now b.barTimestamp
  | .backfillGaps r =>
      ∀ t ∈ barStarts r.start r.stop (ref.period r.series), ClosedAt ref r.series r.now t
  | .backfillFetch r first rest => ∀ t ∈ first :: rest, ClosedAt ref r.series r.now t
  | .backfillInsert r _ _ todo _ => ∀ b ∈ todo, ClosedAt ref r.series r.now b.barTimestamp
  | _ => True

/-- A call that has failed stores nothing more. -/
theorem storesClosed_fail (k : Caller) (e : BarError) : StoresClosed ref (k.fail e) := by
  cases k <;> trivial

/-- A call that goes on after a window was completed starts with nothing to store. -/
theorem storesClosed_resume (k : Caller) (w : Window) : StoresClosed ref (k.resume w) := by
  cases k <;> trivial

/-- So does a call that has just begun. -/
theorem storesClosed_enter (k : Caller) (s : Series) (lookback now : ℤ) :
    StoresClosed ref (k.enter s lookback now) := by
  unfold Caller.enter
  split
  · exact storesClosed_fail k _
  · trivial

/-- And so does one that serves what it has read: the forming candle is appended to the answer,
and not to the table. -/
theorem storesClosed_serve (w : Window) (includeForming : Bool) (moment : ℤ)
    (bars : List OhlcvBar) : StoresClosed ref (serve w includeForming moment bars) := by
  unfold serve
  split <;> trivial

/-- Of the missing boundaries, only fetched ones are stored. -/
theorem closedAt_toStore {s : Series} {now : ℤ} {missing : List ℤ} {fetched : List OhlcvBar}
    (h : ∀ t ∈ missing, ClosedAt ref s now t) :
    ∀ b ∈ toStore missing fetched, ClosedAt ref s now b.barTimestamp :=
  fun _ hb => h _ (mem_toStore.mp (List.mem_map_of_mem hb)).1

/-- The bar a worker is about to insert is closed. -/
theorem StoresClosed.nextInsert (hw : StoresClosed ref w) {e : Insertion}
    (he : w.nextInsert = some e) : ClosedAt ref e.series e.now e.bar.barTimestamp := by
  unfold Worker.nextInsert at he
  split at he
  · obtain rfl := Option.some.inj he
    exact hw _ List.mem_cons_self
  · obtain rfl := Option.some.inj he
    exact hw _ List.mem_cons_self
  · exact absurd he (by simp)

/-- The first statement of a call keeps to closed bars under the condition. -/
theorem storesClosed_workCall {c : Call} (hg : RangeClosed ref sh (.call c) a) :
    StoresClosed ref (workCall ref sh.clock c) := by
  cases c with
  | ensureFresh s lookback now => exact storesClosed_enter _ _ _ _
  | sync => trivial
  | loadWindow => exact storesClosed_enter _ _ _ _
  | backfill s start stop now =>
    unfold workCall
    simp only
    split
    · trivial
    · rename_i hrange
      cases stop with
      | some stop =>
        have hrange : backfillRange (ref.period s) start stop = .ok () := hrange
        refine hg ⟨s, now.getD sh.clock, start, stop⟩ ?_
        simp only [Worker.explicitRepair, hrange]
        rfl
      | none => exact fun t ht => (mem_barStarts.mp ht).2.1

/-- **One step keeps to closed bars.** Whatever a worker will store after a
step that meets the condition is closed at the clock of its call. -/
theorem StoresClosed.step (hw : StoresClosed ref w) (hg : RangeClosed ref sh w a)
    (h : work ref sh w a = some (sh', w')) : StoresClosed ref w' := by
  unfold work at h
  split at h
  all_goals first
    | obtain ⟨-, rfl⟩ := Prod.mk.inj (Option.some.inj h)
    | skip
  · exact storesClosed_workCall hg
  · unfold workSync
    split
    · trivial
    · split
      · trivial
      · exact storesClosed_enter _ _ _ _
  · unfold workCoverage
    split
    · exact storesClosed_resume _ _
    · trivial
  · unfold workGaps
    split
    · exact storesClosed_resume _ _
    · rename_i first rest hgaps
      exact fun t ht => (mem_findGaps.mp (hgaps ▸ ht)).2.1
  · unfold workFetch
    split
    · exact storesClosed_fail _ _
    · split
      · exact storesClosed_fail _ _
      · exact closedAt_toStore hw
  · exact storesClosed_resume _ _
  · -- the insert of one bar leaves the rest of the list
    split at h
    · obtain ⟨-, rfl⟩ := Prod.mk.inj (Option.some.inj h)
      exact storesClosed_fail _ _
    · obtain ⟨-, rfl⟩ := Prod.mk.inj (Option.some.inj h)
      exact fun b hb => hw b (List.mem_cons_of_mem _ hb)
  · trivial
  · unfold workRead
    simp only
    split
    · trivial
    · exact storesClosed_serve _ _ _ _
  · unfold workForming
    split
    · trivial
    · exact storesClosed_serve _ _ _ _
  · unfold workBackfillGaps
    split
    · trivial
    · rename_i first rest hgaps
      refine fun t ht => hw t (mem_barStarts.mpr ?_)
      obtain ⟨h1, h2, h3, -⟩ := mem_findGaps.mp (hgaps ▸ ht)
      exact ⟨h1, h2, h3⟩
  · unfold workBackfillFetch
    split
    · trivial
    · exact closedAt_toStore hw
  · trivial
  · split at h
    · obtain ⟨-, rfl⟩ := Prod.mk.inj (Option.some.inj h)
      trivial
    · obtain ⟨-, rfl⟩ := Prod.mk.inj (Option.some.inj h)
      exact fun b hb => hw b (List.mem_cons_of_mem _ hb)
  · exact storesClosed_fail _ _
  · exact storesClosed_fail _ _
  · split at h
    · exact absurd h (by simp)
    · obtain ⟨-, rfl⟩ := Prod.mk.inj (Option.some.inj h)
      exact storesClosed_fail _ _
  · trivial
  · trivial
  · split at h
    · exact absurd h (by simp)
    · obtain ⟨-, rfl⟩ := Prod.mk.inj (Option.some.inj h)
      trivial
  · exact absurd h (by simp)

/-- The record of inserts misses nothing, and all of it was closed. -/
def RecordClosed (ref : RefData) (sh : Shared) : Prop :=
  (∀ s t, sh.db.Stored s t → ∃ e ∈ sh.inserted, e.series = s ∧ e.bar.barTimestamp = t) ∧
    ∀ e ∈ sh.inserted, ClosedAt ref e.series e.now e.bar.barTimestamp

/-- **A statement keeps the record closed**, if what its worker is still to store is closed: it
records an insert of what was to be stored, or nothing. -/
theorem RecordClosed.step (hI : RecordClosed ref sh) (hw : StoresClosed ref w)
    (h : work ref sh w a = some (sh', w')) : RecordClosed ref sh' := by
  rcases work_shared h with rfl | ⟨e, he, -, hst, hrec⟩
  · exact hI
  · have hclosed := hw.nextInsert he
    rcases hrec with hrec | ⟨hrec, hold⟩
    · refine ⟨fun s t hs => ?_, fun e' he' => ?_⟩
      · rw [hrec]
        rcases (hst s t).mp hs with hs | ⟨rfl, rfl⟩
        · obtain ⟨e', he', h'⟩ := hI.1 s t hs
          exact ⟨e', List.mem_cons_of_mem _ he', h'⟩
        · exact ⟨e, List.mem_cons_self, rfl, rfl⟩
      · rcases List.mem_cons.mp (hrec ▸ he') with rfl | he'
        · exact hclosed
        · exact hI.2 e' he'
    · refine ⟨fun s t hs => ?_, hrec ▸ hI.2⟩
      rw [hrec]
      rcases (hst s t).mp hs with hs | ⟨rfl, rfl⟩
      · exact hI.1 s t hs
      · exact hI.1 _ _ hold

/-- **Only closed bars are stored, when no repair reaches past them.** In every
run of interleaved calls from an empty table in which each explicit `backfill`
range ends with closed bars, every stored bar has its insert recorded, and
every insert was of a bar closed at the clock of its call. -/
theorem inserted_closed {p : PoolState Shared Worker}
    (hp : (barPool ref).machine.Reach
      (Pool.Guard (RangeClosed ref) (fun _ _ _ _ => True)) p) :
    (∀ s t, p.shared.db.Stored s t →
      ∃ e ∈ p.shared.inserted, e.series = s ∧ e.bar.barTimestamp = t) ∧
    ∀ e ∈ p.shared.inserted,
      e.bar.barTimestamp ≤ lastClosedBar e.now (ref.period e.series) := by
  refine (Pool.invariant (I := RecordClosed ref) (L := fun _ w => StoresClosed ref w) hp
    (fun sh h => ?_) (fun _ _ _ _ _ h => Option.some.inj h ▸ trivial)
    (fun sh d sh' hI h => ?_)
    (fun sh w a sh' w' hI hw hg h => ⟨hI.step hw h, hw.step hg h⟩)
    (fun _ _ _ _ _ _ _ _ hv _ _ _ => hv)).1
  · obtain ⟨hdb, hins⟩ := h
    refine ⟨fun s t hs => ?_, fun e he => ?_⟩
    · exact absurd (hdb ▸ hs) PriceBar.not_stored_empty
    · exact absurd (hins ▸ he) List.not_mem_nil
  · obtain rfl := Option.some.inj h
    exact ⟨hI, fun _ hw => hw⟩

/-! ## A repair that reaches the open bar -/

/-- Half a minute into the second minute, with nothing stored. -/
def halfPastOne : PoolState Shared Worker := ⟨⟨minute 1 + 30000000, .empty, []⟩, []⟩

/-- **A forming candle is frozen.** A `backfill` whose explicit end is the
current minute stores the open candle. -/
theorem backfill_stores_forming :
    ¬ ∀ (ref : RefData) (p : PoolState Shared Worker),
      (barPool ref).machine.Reach (fun _ _ => True) p →
      ∀ e ∈ p.shared.inserted,
        e.bar.barTimestamp ≤ lastClosedBar e.now (ref.period e.series) := by
  intro h
  obtain ⟨p, hp, hbad⟩ := Machine.Reach.exists_of_runs
    (M := (barPool minuteRef).machine) (G := fun _ _ => True) (s := halfPastOne) ⟨⟨rfl, rfl⟩, rfl⟩
    [.spawn (.backfill minuteSeries (minute 0) (some (minute 1)) none),
      .work 0 .proceed, .work 0 .proceed, .work 0 (.venue (minuteVenue [0, 1])),
      .work 0 .proceed, .work 0 .proceed]
    (P := fun p => p.shared.inserted.any (fun e =>
      lastClosedBar e.now (minuteRef.period e.series) < e.bar.barTimestamp))
    (by decide +kernel)
  obtain ⟨e, he, hlt⟩ := List.any_eq_true.mp hbad
  exact absurd (h minuteRef p hp e he) (not_le.mpr (of_decide_eq_true hlt))

/-- A repair that ends with the newest closed bar, next to a `load_window` with
the forming candle, stores that closed bar and nothing newer. -/
theorem backfill_to_closed :
    ∃ p, (barPool minuteRef).machine.Reach
        (Pool.Guard (RangeClosed minuteRef) (fun _ _ _ _ => True)) p ∧
      p.shared.inserted ≠ [] ∧ ∀ e ∈ p.shared.inserted,
        e.bar.barTimestamp ≤ lastClosedBar e.now (minuteRef.period e.series) := by
  obtain ⟨p, hp, hsome⟩ := Machine.Reach.exists_of_runs
    (M := (barPool minuteRef).machine)
    (G := Pool.Guard (RangeClosed minuteRef) (fun _ _ _ _ => True))
    (s := halfPastOne) ⟨⟨rfl, rfl⟩, rfl⟩
    [.spawn (.backfill minuteSeries (minute 0) (some (minute 0)) none),
      .spawn (.loadWindow minuteSeries 1 none true),
      .work 0 .proceed, .work 1 .proceed, .work 0 .proceed, .work 1 .proceed,
      .work 0 (.venue (minuteVenue [0, 1])), .work 0 .proceed]
    (P := fun p => !p.shared.inserted.isEmpty) (by decide +kernel)
  exact ⟨p, hp, by simpa using hsome, (inserted_closed hp).2⟩
