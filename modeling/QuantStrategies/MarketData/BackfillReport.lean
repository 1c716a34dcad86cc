import QuantStrategies.MarketData.Workers

/-!
# What a backfill reports

A backfill counts three times: by arithmetic, before it looks at anything; over
the boundaries, once it has read what is stored; and over what the exchange
sent. Meanwhile other workers write the same bars, and a bar that another one
stored first is passed over in silence.

The report is about the exchange and not about the table. What it lists as
unfilled is what was missing and did not come, and of that the table lacks
whatever nobody else has stored.

All of it is proved of a backfill that runs among others, with their inserts between any two
of its own statements. For a backfill that runs alone the report and the table agree; among
others they differ by what these have written.
-/

/-- `is_continuous`. -/
def BackfillResult.isContinuous (r : BackfillResult) : Bool := r.unfilled.isEmpty

/-- A backfill among other workers: where it stands, and the rows that it and the others
have written since it was called. -/
structure BackfillRun where
  /-- The clock, the table and the record of inserts. -/
  shared : Shared
  /-- Where the backfill stands. -/
  worker : Worker
  /-- The rows that it has inserted itself, the newest first. -/
  own : List PriceBarRow
  /-- The rows that others have inserted since it was called. -/
  others : List PriceBarRow

/-- A step of the backfill, or of the others, who may store any rows and move the clock. -/
inductive BackfillStep (ref : RefData) : BackfillRun → BackfillRun → Prop where
  | own {x : BackfillRun} {sh' : Shared} {w' : Worker} {a : Reply} {new : List PriceBarRow}
    (h : work ref x.shared x.worker a = some (sh', w'))
    (hnew : sh'.db.rows = new ++ x.shared.db.rows) :
    BackfillStep ref x ⟨sh', w', new ++ x.own, x.others⟩
  | others {x : BackfillRun} {sh' : Shared} {new : List PriceBarRow}
    (hnew : sh'.db.rows = new ++ x.shared.db.rows) :
    BackfillStep ref x ⟨sh', x.worker, x.own, new ++ x.others⟩

/-- The runs of a backfill among other workers. -/
abbrev BackfillRuns (ref : RefData) : BackfillRun → BackfillRun → Prop :=
  Relation.ReflTransGen (BackfillStep ref)

/-- **The report is exact.** -/
structure ReportExact (period : Period) (s : Series) (db db' : PriceBar) (r : BackfillResult)
    (own others : List PriceBarRow) : Prop where
  /-- What the table lacks is what is reported as unfilled, less what others have stored of it. -/
  unfilled : findGaps period db' s r.start r.stop =
    r.unfilled.filter fun t => (s, t) ∉ others.map PriceBarRow.key
  /-- The flag says that nothing is reported as unfilled. -/
  continuous : r.isContinuous = true ↔ r.unfilled = []
  /-- The count of inserts is that of the rows that the backfill has written. -/
  inserted : r.inserted = own.length
  /-- It has not written more than was missing. -/
  inserted_le : r.inserted ≤ r.missing
  /-- And not more was missing than there are boundaries. -/
  missing_le : r.missing ≤ r.expected
  /-- The boundaries are counted by arithmetic, and are as many as are listed. -/
  expected : r.expected = (barStarts r.start r.stop period).length
  /-- They are not more than a backfill takes on. -/
  bounded : (r.expected : ℤ) ≤ maxBackfillBars
  /-- Every row that it wrote is a bar of the series, on a boundary of the range. -/
  written : ∀ row ∈ own, row.series = s ∧ r.start ≤ row.bar.barTimestamp ∧
    row.bar.barTimestamp ≤ r.stop ∧ period.length ∣ row.bar.barTimestamp
  /-- What was stored before is still there. -/
  kept : db.rows <:+ db'.rows
  /-- And the table has nothing but that, what the backfill wrote and what the others did. -/
  table : ∀ row, row ∈ db'.rows ↔ row ∈ own ∨ row ∈ others ∨ row ∈ db.rows

namespace BackfillReport

variable {ref : RefData} {period : Period} {s : Series} {start stop t : ℤ} {db db' : PriceBar}
variable {own others new : List PriceBarRow} {missing : List ℤ} {fetched done : List OhlcvBar}
variable {x y : BackfillRun}

/-! ## The size guard -/

/-- The boundaries of a range lie a period apart. -/
theorem length_barStarts_le (hle : start ≤ stop) :
    ((barStarts start stop period).length : ℤ) ≤ (stop - start) / period.length + 1 := by
  have hloop (n : ℕ) (current : ℤ) : (barStartsLoop stop period n current).length ≤ n := by
    induction n generalizing current with
    | zero => exact le_rfl
    | succ n ih =>
      unfold barStartsLoop
      split
      · exact Nat.succ_le_succ (ih _)
      · exact Nat.zero_le _
  obtain ⟨-, hfirst, -⟩ := firstBoundary_spec start period
  unfold barStarts
  dsimp only
  set first := if floorToPeriod start period < start
    then floorToPeriod start period + period.length else floorToPeriod start period
  have hspan : (stop - first) / period.length ≤ (stop - start) / period.length :=
    Int.ediv_le_ediv period.pos (by omega)
  have hnonneg : 0 ≤ (stop - start) / period.length :=
    Int.ediv_nonneg (by omega) period.pos.le
  have hlen := hloop ((stop - first) / period.length + 1).toNat first
  omega

/-- **What the size guard lets through has so many boundaries at most.** The guard counts the
boundaries before anything is fetched. -/
theorem length_barStarts_of_range (h : backfillRange period start stop = .ok ()) :
    ((barStarts start stop period).length : ℤ) ≤ maxBackfillBars := by
  unfold backfillRange at h
  split at h
  · cases h
  · next hle =>
    dsimp only at h
    split at h
    · cases h
    · next hspan => exact (length_barStarts_le (not_lt.mp hle)).trans (not_lt.mp hspan)

/-! ## A call among others -/

/-- What has been written is the backfill's or the others'. -/
structure Accounted (db : PriceBar) (x : BackfillRun) : Prop where
  /-- Nothing is taken out of the table. -/
  kept : db.rows <:+ x.shared.db.rows
  /-- What has come in was written by the backfill or by another worker. -/
  table : ∀ row, row ∈ x.shared.db.rows ↔ row ∈ x.own ∨ row ∈ x.others ∨ row ∈ db.rows

/-- Where a repair stands after it has asked the exchange: some of what came is stored. -/
structure Filling (period : Period) (s : Series) (start stop : ℤ) (db db' : PriceBar)
    (own : List PriceBarRow) (missing : List ℤ) (done : List OhlcvBar) : Prop where
  /-- What is missing was determined on a table between the first and the present one. -/
  read : ∃ read : PriceBar, (∀ t, db.Stored s t → read.Stored s t) ∧
    (∀ t, read.Stored s t → db'.Stored s t) ∧ missing = findGaps period read s start stop
  /-- What has been stored so far is in the table, by whomever. -/
  stored : ∀ b ∈ done, db'.Stored s b.barTimestamp
  /-- What the backfill has written is among what it has dealt with. -/
  mine : ∀ row ∈ own, row.series = s ∧ row.bar ∈ done
  /-- It has not written more rows than it has dealt with bars. -/
  count : own.length ≤ done.length

/-- A call that is a repair of the series from the start. -/
def Repairs (ref : RefData) (s : Series) (start : ℤ) (stop : Option ℤ) (r : Repair) : Prop :=
  r.series = s ∧ r.start = start ∧ (∀ e ∈ stop, r.stop = e) ∧
    backfillRange (ref.period s) start r.stop = .ok ()

/-- Where a backfill can stand. -/
def Standing (ref : RefData) (s : Series) (start : ℤ) (stop now : Option ℤ) (db : PriceBar)
    (x : BackfillRun) : Prop :=
  match x.worker with
  | .call c => c = .backfill s start stop now ∧ x.own = []
  | .backfillGaps r => Repairs ref s start stop r ∧ x.own = []
  | .backfillFetch r first rest => Repairs ref s start stop r ∧ x.own = [] ∧
      Filling (ref.period s) s start r.stop db x.shared.db [] (first :: rest) []
  | .backfillInsert r missing fetched todo n => Repairs ref s start stop r ∧ n = x.own.length ∧
      ∃ done, toStore missing fetched = done ++ todo ∧
        Filling (ref.period s) s start r.stop db x.shared.db x.own missing done
  | .backfilled result => result.start = start ∧ (∀ e ∈ stop, result.stop = e) ∧
      result.expected = (barStarts start result.stop (ref.period s)).length ∧
      (result.expected : ℤ) ≤ maxBackfillBars ∧ result.inserted = x.own.length ∧
      ∃ missing fetched, result.missing = missing.length ∧
        result.unfilled = unfilled missing fetched ∧
        Filling (ref.period s) s start result.stop db x.shared.db x.own missing
          (toStore missing fetched)
  | .raised _ => True
  | _ => False

/-! ### What the others do, and what a step of the call does -/

/-- A bar stays stored when rows are put in front. -/
theorem stored_of_rows (hnew : db'.rows = new ++ db.rows) (h : db.Stored s t) : db'.Stored s t := by
  unfold PriceBar.Stored at h ⊢
  rw [hnew, List.map_append]
  exact List.mem_append_right _ h

/-- What others store in the meantime does not undo what the repair has done. -/
theorem Filling.mono {db'' : PriceBar} (h : Filling period s start stop db db' own missing done)
    (hgrows : ∀ t, db'.Stored s t → db''.Stored s t) :
    Filling period s start stop db db'' own missing done := by
  obtain ⟨read, h1, h2, h3⟩ := h.read
  exact ⟨⟨read, h1, fun t ht => hgrows t (h2 t ht), h3⟩, fun b hb => hgrows _ (h.stored b hb),
    h.mine, h.count⟩

/-- A step of the backfill or of anybody else is accounted for: it writes one row, which is
entered on one side or the other, or none. -/
theorem Accounted.step (h : Accounted db x) (hstep : BackfillStep ref x y) : Accounted db y := by
  cases hstep with
  | own hwork hnew =>
    refine ⟨hnew ▸ h.kept.trans (List.suffix_append _ _), fun row => ?_⟩
    rw [hnew, List.mem_append, List.mem_append, h.table row, or_assoc]
  | others hnew =>
    refine ⟨hnew ▸ h.kept.trans (List.suffix_append _ _), fun row => ?_⟩
    rw [hnew, List.mem_append, List.mem_append, h.table row]
    exact or_left_comm.trans (or_congr_right or_assoc.symm)

/-- The others do not move a backfill on. -/
theorem Standing.interfere {start : ℤ} {stop now : Option ℤ} {sh' : Shared}
    (h : Standing ref s start stop now db x) (hnew : sh'.db.rows = new ++ x.shared.db.rows) :
    Standing ref s start stop now db ⟨sh', x.worker, x.own, new ++ x.others⟩ := by
  obtain ⟨sh, w, own, others⟩ := x
  have hgrows (t : ℤ) (ht : sh.db.Stored s t) : sh'.db.Stored s t := stored_of_rows hnew ht
  cases w with
  | call c => exact h
  | backfillGaps r => exact h
  | backfillFetch r first rest => exact ⟨h.1, h.2.1, h.2.2.mono hgrows⟩
  | backfillInsert r missing fetched todo n =>
    obtain ⟨hr, hn, done, hdone, hfill⟩ := h
    exact ⟨hr, hn, done, hdone, hfill.mono hgrows⟩
  | backfilled result =>
    obtain ⟨h1, h2, h3, h4, h5, missing, fetched, h6, h7, hfill⟩ := h
    exact ⟨h1, h2, h3, h4, h5, missing, fetched, h6, h7, hfill.mono hgrows⟩
  | raised e => exact h
  | _ => exact h.elim

/-- An insert adds the bar where it says that it did, and the bar is stored either way. -/
theorem insert_rows {sh sh' : Shared} {now : ℤ} {b : OhlcvBar} {stored : Bool}
    (h : sh.insert s now b = .ok (stored, sh')) :
    sh'.db.rows = (if stored then [⟨s, b⟩] else []) ++ sh.db.rows ∧
      sh'.db.Stored s b.barTimestamp := by
  unfold Shared.insert insertBar at h
  by_cases hb : sh.db.Stored s b.barTimestamp
  · rw [PriceBar.insBar_error hb] at h
    cases h
    exact ⟨rfl, hb⟩
  · rw [PriceBar.insBar, dif_neg hb] at h
    cases h
    exact ⟨rfl, List.mem_cons_self⟩

section

variable {stop now : Option ℤ} {sh : Shared} {r : Repair}

/-- The call reads what is missing. -/
theorem standing_gaps (hr : Repairs ref s start stop r)
    (hkept : ∀ t, db.Stored s t → sh.db.Stored s t) :
    Standing ref s start stop now db ⟨sh, workBackfillGaps ref sh.db r, [], others⟩ := by
  obtain ⟨rfl, rfl, hstop, hrange⟩ := hr
  have hfill : Filling (ref.period r.series) r.series r.start r.stop db sh.db []
      (findGaps (ref.period r.series) sh.db r.series r.start r.stop) [] :=
    ⟨⟨sh.db, hkept, fun _ h => h, rfl⟩, fun _ h => absurd h List.not_mem_nil,
      fun _ h => absurd h List.not_mem_nil, le_rfl⟩
  unfold workBackfillGaps
  cases hgaps : findGaps (ref.period r.series) sh.db r.series r.start r.stop with
  | nil =>
    rw [hgaps] at hfill
    exact ⟨rfl, hstop, rfl, length_barStarts_of_range hrange, rfl, [], [], rfl, rfl, hfill⟩
  | cons first rest =>
    rw [hgaps] at hfill
    exact ⟨⟨rfl, rfl, hstop, hrange⟩, rfl, hfill⟩

/-- The call asks the exchange. -/
theorem standing_fetch {v : VenueReply} {first : ℤ} {rest : List ℤ}
    (hr : Repairs ref s start stop r)
    (hfill : Filling (ref.period s) s start r.stop db sh.db [] (first :: rest) []) :
    Standing ref s start stop now db ⟨sh, workBackfillFetch ref v r first rest, [], others⟩ := by
  unfold workBackfillFetch
  cases fetch v r.series (ref.period r.series) first r.stop with
  | error e => trivial
  | ok fetched => exact ⟨hr, rfl, [], rfl, hfill⟩

/-- The call stores one of the bars that came, or finds it stored. -/
theorem standing_insert {sh' : Shared} {fetched todo : List OhlcvBar} {b : OhlcvBar} {n : ℕ}
    {stored : Bool} (hr : Repairs ref s start stop r) (hn : n = own.length)
    (hdone : toStore missing fetched = done ++ b :: todo)
    (hfill : Filling (ref.period s) s start r.stop db sh.db own missing done)
    (hins : sh.insert s r.now b = .ok (stored, sh')) :
    Standing ref s start stop now db ⟨sh', .backfillInsert r missing fetched todo
      (if stored then n + 1 else n), (if stored then [⟨s, b⟩] else []) ++ own, others⟩ := by
  obtain ⟨hrows, hstored⟩ := insert_rows hins
  have hgrown := hfill.mono fun t ht => stored_of_rows hrows ht
  refine ⟨hr, ?_, done ++ [b], by rw [hdone, List.append_assoc]; rfl, hgrown.read,
    fun c hc => ?_, fun row hrow => ?_, ?_⟩
  · cases stored with
    | false => exact hn
    | true => exact congrArg (· + 1) hn
  · rcases List.mem_append.mp hc with hc | hc
    · exact hgrown.stored c hc
    · rw [List.mem_singleton.mp hc]
      exact hstored
  · rcases List.mem_append.mp hrow with hrow | hrow
    · cases stored with
      | false => exact absurd hrow List.not_mem_nil
      | true =>
        rw [List.mem_singleton.mp hrow]
        exact ⟨rfl, List.mem_append_right _ List.mem_cons_self⟩
    · exact ⟨(hfill.mine row hrow).1, List.mem_append_left _ (hfill.mine row hrow).2⟩
  · have hcount := hfill.count
    rw [List.length_append, List.length_append, List.length_singleton]
    cases stored with
    | false => exact (Nat.zero_add _).le.trans (hcount.trans (Nat.le_succ _))
    | true => exact (Nat.add_comm _ _).le.trans (Nat.succ_le_succ hcount)

/-- **The step of a backfill.** -/
theorem Standing.step {sh' : Shared} {w' : Worker} {a : Reply}
    (h : Standing ref s start stop now db x) (hacc : Accounted db x)
    (hwork : work ref x.shared x.worker a = some (sh', w'))
    (hnew : sh'.db.rows = new ++ x.shared.db.rows) :
    Standing ref s start stop now db ⟨sh', w', new ++ x.own, x.others⟩ := by
  obtain ⟨sh, w, own, others⟩ := x
  have hsame (hsh : sh' = sh) : new = [] := by
    rw [hsh] at hnew
    exact List.self_eq_append_left.mp hnew
  have hkept (t : ℤ) (ht : db.Stored s t) : sh.db.Stored s t := by
    obtain ⟨rows, hrows⟩ := hacc.kept
    exact stored_of_rows hrows.symm ht
  cases w with
  | call c =>
    obtain ⟨rfl, rfl⟩ := h
    cases a with
    | proceed =>
      cases hwork
      rw [hsame rfl, List.append_nil, workCall]
      dsimp only
      cases hrange : backfillRange (ref.period s) start
          (stop.getD (lastClosedBar (now.getD sh.clock) (ref.period s))) with
      | error e => trivial
      | ok u => exact ⟨⟨rfl, rfl, fun e he => by rw [Option.mem_def.mp he]; rfl, hrange⟩, rfl⟩
    | venue v => cases hwork
    | failed e => cases hwork
  | backfillGaps r =>
    obtain ⟨hr, rfl⟩ := h
    cases a with
    | proceed =>
      cases hwork
      rw [hsame rfl]
      exact standing_gaps hr hkept
    | venue v => cases hwork
    | failed e =>
      cases hwork
      trivial
  | backfillFetch r first rest =>
    obtain ⟨hr, rfl, hfill⟩ := h
    cases a with
    | proceed => cases hwork
    | venue v =>
      cases hwork
      rw [hsame rfl]
      exact standing_fetch hr hfill
    | failed e => cases hwork
  | backfillInsert r missing fetched todo n =>
    obtain ⟨hr, hn, done, hdone, hfill⟩ := h
    cases todo with
    | nil =>
      cases a with
      | proceed =>
        cases hwork
        rw [hsame rfl]
        obtain ⟨rfl, rfl, hstop, hrange⟩ := hr
        rw [List.append_nil] at hdone
        exact ⟨rfl, hstop, rfl, length_barStarts_of_range hrange, hn, missing, fetched, rfl, rfl,
          hdone ▸ hfill⟩
      | venue v => cases hwork
      | failed e => cases hwork
    | cons b todo =>
      cases a with
      | proceed =>
        obtain ⟨stored, sh₁, hins, -⟩ := sh.insert_spec r.series r.now b
        simp only [work, hins] at hwork
        cases hwork
        have hnew' := (insert_rows hins).1
        rw [hnew'] at hnew
        rw [← List.append_cancel_right hnew]
        have hs := hr.1
        subst hs
        exact standing_insert hr hn hdone hfill hins
      | venue v => cases hwork
      | failed e =>
        simp only [work] at hwork
        split at hwork
        · cases hwork
        · cases hwork
          trivial
  | backfilled result => cases a <;> cases hwork
  | raised e => cases a <;> cases hwork
  | _ => exact h.elim

/-- **The run of a backfill.** The induction is on the run, whose steps are the backfill's own and
the inserts of others. -/
theorem Standing.run (hrun : BackfillRuns ref x y) (h : Standing ref s start stop now db x)
    (hacc : Accounted db x) : Standing ref s start stop now db y ∧ Accounted db y := by
  induction hrun with
  | refl => exact ⟨h, hacc⟩
  | tail _ hstep ih =>
    refine ⟨?_, ih.2.step hstep⟩
    cases hstep with
    | own hwork hnew => exact ih.1.step ih.2 hwork hnew
    | others hnew => exact ih.1.interfere hnew

end

/-! ## The report -/

/-- The gap check asks of each boundary whether it is stored. -/
theorem findGaps_eq : findGaps period db s start stop =
    (barStarts start stop period).filter fun t => ¬ db.Stored s t := by
  unfold findGaps
  refine List.filter_congr fun t ht => decide_eq_decide.mpr (not_congr ?_)
  obtain ⟨hstart, hstop, -⟩ := mem_barStarts.mp ht
  exact (List.mem_map.trans PriceBar.stored_iff_mem_getBars).trans
    (and_iff_left ⟨hstart, hstop⟩)

/-- What the table lacks in the end is what did not come and nobody else stored. -/
theorem unfilled_exact (hfill : Filling period s start stop db db' own missing
      (toStore missing fetched))
    (htable : ∀ row, row ∈ db'.rows ↔ row ∈ own ∨ row ∈ others ∨ row ∈ db.rows) :
    findGaps period db' s start stop =
      (unfilled missing fetched).filter fun t => (s, t) ∉ others.map PriceBarRow.key := by
  obtain ⟨read, hbefore, hafter, rfl⟩ := hfill.read
  rw [unfilled, findGaps_eq, findGaps_eq, List.filter_filter, List.filter_filter]
  refine List.filter_congr fun t ht => ?_
  obtain ⟨hstart, hstop, hdvd⟩ := mem_barStarts.mp ht
  have hgap (hread : ¬ read.Stored s t) : t ∈ findGaps period read s start stop :=
    mem_findGaps.mpr ⟨hstart, hstop, hdvd, hread⟩
  have hiff : ¬ db'.Stored s t ↔
      (s, t) ∉ others.map PriceBarRow.key ∧ ¬ Fetched fetched t ∧ ¬ read.Stored s t := by
    constructor
    · intro hno
      have hread : ¬ read.Stored s t := fun h => hno (hafter t h)
      refine ⟨fun hmem => hno ?_, fun hfetched => hno ?_, hread⟩
      · obtain ⟨row, hrow, hkey⟩ := List.mem_map.mp hmem
        exact List.mem_map.mpr ⟨row, (htable row).mpr (.inr (.inl hrow)), hkey⟩
      · obtain ⟨b, hb, rfl⟩ := List.mem_map.mp (mem_toStore.mpr ⟨hgap hread, hfetched⟩)
        exact hfill.stored b hb
    · rintro ⟨hothers, hfetched, hread⟩ hstored
      obtain ⟨row, hrow, hkey⟩ := List.mem_map.mp hstored
      rcases (htable row).mp hrow with h | h | h
      · obtain ⟨-, hbar⟩ := hfill.mine row h
        have hcame := (mem_toStore.mp (List.mem_map_of_mem hbar)).2
        rw [← (Prod.mk.inj hkey).2] at hfetched
        exact hfetched hcame
      · exact hothers (List.mem_map.mpr ⟨row, h, hkey⟩)
      · exact hread (hbefore t (List.mem_map.mpr ⟨row, h, hkey⟩))
  rw [← Bool.decide_and, ← Bool.decide_and]
  exact decide_eq_decide.mpr (hiff.trans and_assoc.symm)

/-- A backfill that has reported has reported exactly. -/
theorem Standing.exact {result : BackfillResult} {stop now : Option ℤ}
    (h : Standing ref s start stop now db x) (hacc : Accounted db x)
    (hx : x.worker = .backfilled result) :
    ReportExact (ref.period s) s db x.shared.db result x.own x.others := by
  unfold Standing at h
  rw [hx] at h
  obtain ⟨rfl, -, hexpected, hbounded, hinserted, missing, fetched, hmissing, hunfilled, hfill⟩ := h
  obtain ⟨read, -, -, hgaps⟩ := hfill.read
  refine ⟨hunfilled ▸ unfilled_exact hfill hacc.table, List.isEmpty_iff, hinserted, ?_, ?_,
    hexpected, hbounded, fun row hrow => ?_, hacc.kept, hacc.table⟩
  · rw [hinserted, hmissing]
    exact hfill.count.trans (List.length_filterMap_le _ _)
  · rw [hmissing, hexpected, hgaps]
    exact List.length_filter_le _ _
  · obtain ⟨hs, hbar⟩ := hfill.mine row hrow
    have hmem := (mem_toStore.mp (List.mem_map_of_mem hbar)).1
    rw [hgaps] at hmem
    obtain ⟨h1, h2, h3, -⟩ := mem_findGaps.mp hmem
    exact ⟨hs, h1, h2, h3⟩

/-- **A backfill report is exact**, whatever the exchange sends and whatever other workers
store while it runs; and a range that passes the size guard has no more boundaries than
that. -/
theorem backfill_report_exact (ref : RefData) (s : Series) :
    (∀ start stop, backfillRange (ref.period s) start stop = .ok () →
      ((barStarts start stop (ref.period s)).length : ℤ) ≤ maxBackfillBars) ∧
    ∀ (start : ℤ) (stop now : Option ℤ) (sh : Shared) (y : BackfillRun) (result : BackfillResult),
      BackfillRuns ref ⟨sh, .call (.backfill s start stop now), [], []⟩ y →
      y.worker = .backfilled result →
        result.start = start ∧ (∀ e ∈ stop, result.stop = e) ∧
        ReportExact (ref.period s) s sh.db y.shared.db result y.own y.others := by
  refine ⟨fun start stop h => length_barStarts_of_range h,
    fun start stop now sh y result hrun hy => ?_⟩
  have hcall : Standing ref s start stop now sh.db
      ⟨sh, .call (.backfill s start stop now), [], []⟩ := ⟨rfl, rfl⟩
  obtain ⟨hstanding, hacc⟩ := hcall.run hrun ⟨List.suffix_rfl, fun row => by simp⟩
  refine ⟨?_, ?_, hstanding.exact hacc hy⟩ <;> unfold Standing at hstanding <;> rw [hy] at hstanding
  · exact hstanding.1
  · exact hstanding.2.1

/-- A bar that another worker stores. -/
def otherRow (n : ℤ) : PriceBarRow := ⟨minuteSeries, ⟨minute n, 1, 1, 1, 1, 1⟩⟩

/-- **A backfill that others interfere with.** Of five minutes the exchange has the first
two and the fourth. Another worker stores the second and the third one while the backfill
is about to store what came. It inserts two bars and reports two minutes as unfilled, of
which the table lacks the last one only. -/
theorem minute_reported : ∃ (y : BackfillRun) (result : BackfillResult),
    y.worker = .backfilled result ∧ result.inserted = 2 ∧
      result.unfilled = [minute 2, minute 4] ∧
      findGaps minutePeriod y.shared.db minuteSeries 0 (minute 4) = [minute 4] ∧
      y.others = [otherRow 2, otherRow 1] ∧
      ReportExact (minuteRef.period minuteSeries) minuteSeries .empty y.shared.db result y.own
        y.others := by
  have hcall : BackfillRuns minuteRef
      ⟨⟨0, .empty, []⟩, .call (.backfill minuteSeries 0 (some (minute 4)) none), [], []⟩ _ :=
    .tail (.tail (.tail (.tail (.tail (.tail (.tail (.tail .refl
      (.own (a := .proceed) rfl (List.nil_append _).symm))
      (.own (a := .proceed) rfl (List.nil_append _).symm))
      (.own (a := .venue (minuteVenue [0, 1, 3])) rfl (List.nil_append _).symm))
      (@BackfillStep.others _ _ ⟨0, ⟨[otherRow 2, otherRow 1], by decide⟩, []⟩ _
        (List.append_nil _).symm))
      (.own (a := .proceed) rfl List.singleton_append.symm))
      (.own (a := .proceed) rfl (List.nil_append _).symm))
      (.own (a := .proceed) rfl List.singleton_append.symm))
      (.own (a := .proceed) rfl (List.nil_append _).symm)
  exact ⟨_, _, rfl, rfl, rfl, rfl, rfl, ((backfill_report_exact minuteRef minuteSeries).2 0
    (some (minute 4)) none _ _ _ hcall rfl).2.2⟩

end BackfillReport
