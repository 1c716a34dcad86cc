import QuantStrategies.MarketData.PriceBar

/-!
# Keeping the bars of a series current

The calls of the price bar service: `ensure_fresh` completes the window a
signal needs, `load_window` serves it, `backfill` repairs an explicit range.
Each is given here as the source computes it when nothing else touches the
table between its statements; what interleaved calls do to each other is the
subject of the modules that follow, and they are made of the same pieces.

What the exchange answers is a parameter. One `_fetch` is one `VenueReply`: the
vendor symbol the instrument is mapped to, and a page of candles for each
cursor asked. The cursors of one fetch increase, so a page for each cursor is
as general as any sequence of answers.

The errors carry what their messages are made of.

Nothing here decides what is right. A call that returns early, a bar that is left out and an
exception that is swallowed are modelled as the source has them, and the modules that follow
say what comes of it.
-/

/-- What the calls of the service raise, with the values their messages name. -/
inductive BarError where
  | lookback (lookback : ℤ)
  | startAfterEnd (start stop : ℤ)
  | backfillTooLarge (start stop span affordable : ℤ)
  | noMapping (internalCusip : String) (sourceAppId : ℕ)
  | noTimeframe (period : ℤ)
  | barFetch (message : String)
  | incomplete (bars : ℕ) (internalCusip : String) (oldestMissing newest : ℤ)
  | noFormingBar (formingOpen : ℤ) (internalCusip : String)
  | shortWindow (bars : ℕ) (lookback : ℤ) (internalCusip : String) (tmIntervalId : ℕ)
      (required : ℤ)
  | procedure (error : ProcedureError)
deriving DecidableEq

/-- The period of each interval of the reference data. -/
structure RefData where
  /-- The period of an interval id; how it is looked up is the subject of `Refdata`. -/
  getIntervalPeriod : ℕ → Period

/-- The period of a series' bars. -/
def RefData.period (ref : RefData) (s : Series) : Period :=
  ref.getIntervalPeriod s.tmIntervalId

/-! ## Reading candles from an exchange

The instants that are exchanged here are on whole seconds, as the boundaries of a period
are, and milliseconds are exact on these. The source converts by way of doubles. What they
make of other instants is the subject of `MarketData/Paging`, and `Paging.fetchBars_runs`
connects the two. -/

/-- One row of a page: an open time in epoch milliseconds, and the bar. -/
structure VenueRow where
  /-- When the candle opened, in milliseconds since the epoch, as the exchange says it. -/
  tsMs : ℤ
  /-- The first price of the candle. -/
  openPx : ℚ
  /-- The highest one. -/
  highPx : ℚ
  /-- The lowest one. -/
  lowPx : ℚ
  /-- The last one. -/
  closePx : ℚ
  /-- What was traded. -/
  volume : ℚ

/-- What the exchange answers to one fetch. -/
structure VenueReply where
  /-- What the venue calls the instrument, or nothing where the mapping is missing. -/
  vendorSymbol : Option String
  /-- What it answers to each cursor: candles, or an error with its text. -/
  page : ℤ → Except String (List VenueRow)

/-- The bar of a row that falls between the cursor and the last instant asked
for. -/
def VenueRow.toBar (cursorMs untilMs : ℤ) (row : VenueRow) : Option OhlcvBar :=
  if row.tsMs < cursorMs ∨ untilMs < row.tsMs then none
  else some ⟨row.tsMs * 1000, row.openPx, row.highPx, row.lowPx, row.closePx, row.volume⟩

/-- The `while cursor_ms <= until_ms` loop of `fetch_bars`, for at most so many
pages. -/
def fetchLoop (page : ℤ → Except String (List VenueRow)) (untilMs stepMs : ℤ) :
    ℕ → ℤ → Except BarError (List OhlcvBar)
  | 0, _ => .ok []
  | n + 1, cursorMs =>
      if cursorMs ≤ untilMs then
        match page cursorMs with
        | .error message => .error (.barFetch message)
        | .ok batch =>
            match batch.getLast? with
            | none => .ok []
            | some newest =>
                let bars := batch.filterMap (VenueRow.toBar cursorMs untilMs)
                -- the exchange ignored the cursor and replayed older bars
                if newest.tsMs < cursorMs then .ok bars
                else (fetchLoop page untilMs stepMs n (newest.tsMs + stepMs)).map (bars ++ ·)
      else .ok []

/-- Epoch milliseconds of an instant: what `int(ts.timestamp() * 1000)` is on whole
seconds. -/
def toMs (ts : ℤ) : ℤ := Int.tdiv ts 1000

/-- Bars with an open time from `since` to `stop`, page after page. -/
def fetchBars (page : ℤ → Except String (List VenueRow)) (period : Period)
    (since stop : ℤ) : Except BarError (List OhlcvBar) :=
  if stop < since then .ok []
  else
    match ccxtTimeframe period with
    | none => .error (.noTimeframe period.length)
    | some _ =>
        let stepMs := period.length / 1000
        let pages := (toMs stop - toMs since) / stepMs + 1
        fetchLoop page (toMs stop) stepMs pages.toNat (toMs since)

/-- `_fetch`: refuse an instrument the venue has no name for, else read. -/
def fetch (v : VenueReply) (s : Series) (period : Period) (since stop : ℤ) :
    Except BarError (List OhlcvBar) :=
  match v.vendorSymbol with
  | none => .error (.noMapping s.internalCusip s.sourceAppId)
  | some _ => fetchBars v.page period since stop

/-! ## The fetched bars as a dictionary

The fetched bars are looked up by timestamp; of two bars with one timestamp the
later in the list is kept. -/

/-- `fetched.get(ts)`. -/
def fetchedGet (fetched : List OhlcvBar) (t : ℤ) : Option OhlcvBar :=
  fetched.reverse.find? (fun b => b.barTimestamp = t)

/-- `ts in fetched`. -/
def Fetched (fetched : List OhlcvBar) (t : ℤ) : Prop := t ∈ fetched.map OhlcvBar.barTimestamp

instance (fetched : List OhlcvBar) (t : ℤ) : Decidable (Fetched fetched t) :=
  inferInstanceAs (Decidable (_ ∈ _))

/-- What is found among the fetched bars under an open time has that open time. -/
theorem fetchedGet_some {fetched : List OhlcvBar} {t : ℤ} {b : OhlcvBar}
    (h : fetchedGet fetched t = some b) : b.barTimestamp = t := by
  have hb := List.find?_some h
  exact of_decide_eq_true hb

/-- A bar is found exactly when one with the open time was fetched. -/
theorem fetchedGet_isSome {fetched : List OhlcvBar} {t : ℤ} :
    (fetchedGet fetched t).isSome ↔ Fetched fetched t := by
  unfold fetchedGet Fetched
  simp only [List.find?_isSome, List.mem_reverse, decide_eq_true_eq, List.mem_map]

/-! ## The pieces of a call -/

/-- Boundaries of the range with no stored row, oldest first. -/
def findGaps (period : Period) (db : PriceBar) (s : Series) (start stop : ℤ) : List ℤ :=
  let stored := (db.getBars s start stop).map OhlcvBar.barTimestamp
  (barStarts start stop period).filter (fun ts => ts ∉ stored)

/-- The fetched bars among the missing ones, oldest first: what `_store`
inserts. -/
def toStore (missing : List ℤ) (fetched : List OhlcvBar) : List OhlcvBar :=
  missing.filterMap (fetchedGet fetched)

/-- The boundaries the exchange did not supply. -/
def unfilled (missing : List ℤ) (fetched : List OhlcvBar) : List ℤ :=
  missing.filter (fun ts => ¬ Fetched fetched ts)

/-- `min(fetched)`, when anything was fetched. -/
def earliestAvailable (fetched : List OhlcvBar) : Option ℤ :=
  (PriceBar.bounds (fetched.map OhlcvBar.barTimestamp)).map Prod.fst

/-- The unfilled boundaries newer than the earliest fetched bar. -/
def holes (missing : List ℤ) (fetched : List OhlcvBar) : List ℤ :=
  match earliestAvailable fetched with
  | none => []
  | some earliest => (unfilled missing fetched).filter (fun ts => earliest < ts)

/-- Fail closed on a hole; tolerate history that predates the listing. -/
def rejectIncomplete (internalCusip : String) (missing : List ℤ) (fetched : List OhlcvBar)
    (newest : ℤ) : Except BarError Unit :=
  match unfilled missing fetched with
  | [] => .ok ()
  | oldest :: rest =>
      if holes missing fetched ≠ [] ∨ newest ∈ oldest :: rest then
        .error (.incomplete (rest.length + 1) internalCusip oldest newest)
      else .ok ()

/-- `_insert`: store one bar. `false` if another worker stored it first; any
other failure of the procedure is raised. -/
def insertBar (db : PriceBar) (s : Series) (b : OhlcvBar) : Except BarError (Bool × PriceBar) :=
  match db.insBar s b with
  | .error e => if e.sqlstate = uniqueViolation then .ok (false, db) else .error (.procedure e)
  | .ok db' => .ok (true, db')

/-- `_store`: persist bars, oldest first. The count is of the bars this loop
stored. -/
def store (db : PriceBar) (s : Series) : List OhlcvBar → Except BarError ℕ × PriceBar
  | [] => (.ok 0, db)
  | b :: todo =>
      match insertBar db s b with
      | .error e => (.error e, db)
      | .ok (stored, db') =>
          let (inserted, db'') := store db' s todo
          (inserted.map (fun n => if stored then n + 1 else n), db'')

/-- The oldest bar of a window of so many bars that ends with the newest. -/
def windowStart (period : Period) (newest lookback : ℤ) : ℤ :=
  newest - period.length * (lookback - 1)

/-- The newest stored bar is at least as new as the newest closed one: the
early return of `ensure_fresh`. -/
def isFresh (coverage : Option (ℤ × ℤ)) (newest : ℤ) : Bool :=
  match coverage with
  | none => false
  | some (_, storedMax) => newest ≤ storedMax

/-! ## The calls -/

/-- What `ensure_fresh` does about the boundaries it found missing: fetch from
the first of them, check what came, and store it. -/
def fillGaps (period : Period) (v : VenueReply) (db : PriceBar) (s : Series)
    (first : ℤ) (rest : List ℤ) (newest : ℤ) : Except BarError ℕ × PriceBar :=
  match fetch v s period first newest with
  | .error e => (.error e, db)
  | .ok fetched =>
      match rejectIncomplete s.internalCusip (first :: rest) fetched newest with
      | .error e => (.error e, db)
      | .ok () => store db s (toStore (first :: rest) fetched)

/-- Make sure the newest closed bars of the lookback are stored. -/
def ensureFresh (ref : RefData) (v : VenueReply) (db : PriceBar) (s : Series)
    (lookback now : ℤ) : Except BarError ℕ × PriceBar :=
  if lookback < 1 then (.error (.lookback lookback), db)
  else
    let period := ref.period s
    let newest := lastClosedBar now period
    if isFresh (db.getCoverage s) newest then (.ok 0, db)
    else
      match findGaps period db s (windowStart period newest lookback) newest with
      | [] => (.ok 0, db)
      | first :: rest => fillGaps period v db s first rest newest

/-- The bars a window must reach before a signal may be computed on it:
`math.ceil(lookback * 0.8)`. -/
def requiredBars (lookback : ℤ) : ℤ := (lookback * 4 + 4) / 5

/-- The live candle for the open bar, appended and never written. -/
def appendForming (v : VenueReply) (bars : List OhlcvBar) (s : Series) (period : Period)
    (formingOpen : ℤ) : Except BarError (List OhlcvBar) :=
  match fetch v s period formingOpen formingOpen with
  | .error e => .error e
  | .ok fetched =>
      match fetchedGet fetched formingOpen with
      | none => .error (.noFormingBar formingOpen s.internalCusip)
      | some bar => .ok ((bars ++ [bar]).insertionSort
          (fun a b => a.barTimestamp ≤ b.barTimestamp))

/-- The closed bars among a window's bars: the forming candle takes one slot. -/
def closedSlots (lookback : ℤ) (includeForming : Bool) : ℤ :=
  if includeForming then lookback - 1 else lookback

/-- The closed bars `load_window` reads at its own clock reading. -/
def readClosed (period : Period) (db : PriceBar) (s : Series) (lookback : ℤ)
    (includeForming : Bool) (moment : ℤ) : List OhlcvBar :=
  let newest := lastClosedBar moment period
  let nClosed := closedSlots lookback includeForming
  if 1 ≤ nClosed then db.getBars s (windowStart period newest nClosed) newest else []

/-- Refuse a window with too little history. -/
def requireCoverage (s : Series) (lookback : ℤ) (bars : List OhlcvBar) :
    Except BarError (List OhlcvBar) :=
  let required := requiredBars lookback
  if (bars.length : ℤ) < required then
    .error (.shortWindow bars.length lookback s.internalCusip s.tmIntervalId required)
  else .ok bars

/-- The newest bars of the lookback, fetching whatever closed history is
missing. The clock is read once by `ensure_fresh`, as `now`, and once more for
the read, as `moment`; a caller that passes its own instant fixes both. -/
def loadWindow (ref : RefData) (v v' : VenueReply) (db : PriceBar) (s : Series)
    (lookback now moment : ℤ) (includeForming : Bool) :
    Except BarError (List OhlcvBar) × PriceBar :=
  match ensureFresh ref v db s lookback now with
  | (.error e, db') => (.error e, db')
  | (.ok _, db') =>
      let period := ref.period s
      let bars := readClosed period db' s lookback includeForming moment
      let bars :=
        if includeForming then appendForming v' bars s period (floorToPeriod moment period)
        else .ok bars
      (bars.bind (requireCoverage s lookback), db')

/-- Most bar boundaries one backfill may span. -/
def maxBackfillBars : ℤ := 10000

/-- The outcome of a repair over an explicit range. -/
structure BackfillResult where
  /-- The range as it was asked for, from here. -/
  start : ℤ
  /-- And up to here, both inclusive. -/
  stop : ℤ
  /-- How many boundaries the range has, by arithmetic. -/
  expected : ℕ
  /-- How many of them had no bar when the table was read. -/
  missing : ℕ
  /-- How many bars this call has stored. -/
  inserted : ℕ
  /-- The boundaries that were missing and that the exchange did not send. -/
  unfilled : List ℤ
deriving DecidableEq

/-- Refuse a range that is empty or too long. -/
def backfillRange (period : Period) (start stop : ℤ) : Except BarError Unit :=
  if stop < start then .error (.startAfterEnd start stop)
  else
    let span := (stop - start) / period.length + 1
    if maxBackfillBars < span then
      .error (.backfillTooLarge start stop span
        (start + period.length * (maxBackfillBars - 1)))
    else .ok ()

/-- Fill every hole of the range; what could not be filled is reported. -/
def backfill (ref : RefData) (v : VenueReply) (db : PriceBar) (s : Series)
    (start : ℤ) (stop : Option ℤ) (now : ℤ) : Except BarError BackfillResult × PriceBar :=
  let period := ref.period s
  let stop := stop.getD (lastClosedBar now period)
  match backfillRange period start stop with
  | .error e => (.error e, db)
  | .ok () =>
      let missing := findGaps period db s start stop
      let expected := (barStarts start stop period).length
      match missing with
      | [] => (.ok ⟨start, stop, expected, 0, 0, []⟩, db)
      | first :: _ =>
          match fetch v s period first stop with
          | .error e => (.error e, db)
          | .ok fetched =>
              let (inserted, db') := store db s (toStore missing fetched)
              (inserted.map (fun n =>
                ⟨start, stop, expected, missing.length, n, unfilled missing fetched⟩), db')

/-! ## A series to run the model on -/

/-- Every interval is one minute. -/
def minuteRef : RefData := ⟨fun _ => minutePeriod⟩

/-- An instrument on a venue. -/
def minuteSeries : Series := ⟨"BTC", 1, 1⟩

/-- So many minutes after the epoch. -/
def minute (n : ℤ) : ℤ := n * 60000000

/-- An exchange that has a candle for each of the listed minutes. -/
def minuteVenue (minutes : List ℤ) : VenueReply where
  vendorSymbol := some "BTCUSDT"
  page cursorMs := .ok ((minutes.map (fun m => ⟨m * 60000, 1, 1, 1, 1, 1⟩)).filter
    (fun row => cursorMs ≤ row.tsMs))

/-! ## What the pieces compute -/

variable {period : Period} {db db' : PriceBar} {s s' : Series} {start stop t : ℤ}
variable {missing : List ℤ} {fetched : List OhlcvBar}

/-- **The gap check finds exactly the boundaries that are not stored.** The check lists the
boundaries and takes away those of the stored bars, so that bars off the grid change nothing. -/
theorem mem_findGaps :
    t ∈ findGaps period db s start stop
      ↔ start ≤ t ∧ t ≤ stop ∧ period.length ∣ t ∧ ¬ db.Stored s t := by
  unfold findGaps
  rw [List.mem_filter, mem_barStarts, decide_eq_true_iff]
  have hst : t ∈ (db.getBars s start stop).map OhlcvBar.barTimestamp
      ↔ db.Stored s t ∧ start ≤ t ∧ t ≤ stop :=
    List.mem_map.trans PriceBar.stored_iff_mem_getBars
  rw [hst]
  constructor
  · rintro ⟨⟨h1, h2, h3⟩, h4⟩
    exact ⟨h1, h2, h3, fun h => h4 ⟨h, h1, h2⟩⟩
  · rintro ⟨h1, h2, h3, h4⟩
    exact ⟨⟨h1, h2, h3⟩, fun h => h4 h.1⟩

/-- What is stored is what was missing and fetched. -/
theorem mem_toStore :
    t ∈ (toStore missing fetched).map OhlcvBar.barTimestamp
      ↔ t ∈ missing ∧ Fetched fetched t := by
  unfold toStore
  rw [List.mem_map]
  constructor
  · rintro ⟨b, hb, rfl⟩
    obtain ⟨u, hu, hg⟩ := List.mem_filterMap.mp hb
    obtain rfl := fetchedGet_some hg
    exact ⟨hu, fetchedGet_isSome.mp (Option.isSome_of_eq_some hg)⟩
  · rintro ⟨hm, hf⟩
    obtain ⟨b, hb⟩ := Option.isSome_iff_exists.mp (fetchedGet_isSome.mpr hf)
    exact ⟨b, List.mem_filterMap.mpr ⟨t, hm, hb⟩, fetchedGet_some hb⟩

/-- What is reported as unfilled was missing, and was not among what came. -/
theorem mem_unfilled :
    t ∈ unfilled missing fetched ↔ t ∈ missing ∧ ¬ Fetched fetched t := by
  unfold unfilled
  rw [List.mem_filter, decide_eq_true_iff]

/-- The coverage probe reports freshness exactly when a bar at or past the
newest closed one is stored. -/
theorem isFresh_iff {newest : ℤ} :
    isFresh (db.getCoverage s) newest = true ↔ ∃ t, db.Stored s t ∧ newest ≤ t := by
  unfold isFresh
  split
  · rename_i h
    exact ⟨fun h' => absurd h' (by simp), fun ⟨t, ht, _⟩ => absurd ht (PriceBar.getCoverage_none h)⟩
  · rename_i lo hi h
    obtain ⟨h1, h2⟩ := PriceBar.getCoverage_some h
    rw [decide_eq_true_iff]
    exact ⟨fun hn => ⟨hi, h1, hn⟩, fun ⟨t, ht, hn⟩ => hn.trans (h2 t ht)⟩

/-- **A call goes on only without a new hole.** What the check lets through
leaves no boundary unfilled above a fetched bar, and has the newest closed bar
when it was missing. -/
theorem rejectIncomplete_ok {c : String} {newest : ℤ}
    (h : rejectIncomplete c missing fetched newest = .ok ()) :
    (∀ u ∈ missing, ∀ o, Fetched fetched o → o < u → Fetched fetched u) ∧
      (newest ∈ missing → Fetched fetched newest) := by
  unfold rejectIncomplete at h
  split at h
  · rename_i hnil
    have hall : ∀ u ∈ missing, Fetched fetched u := fun u hu => by
      by_contra hf
      exact List.not_mem_nil (hnil ▸ mem_unfilled.mpr ⟨hu, hf⟩)
    exact ⟨fun u hu _ _ _ => hall u hu, hall newest⟩
  · rename_i oldest rest heq
    split at h
    · exact absurd h (by simp)
    · rename_i hno
      rw [not_or, not_not, ← heq] at hno
      obtain ⟨hholes, hnewest⟩ := hno
      refine ⟨fun u hu o ho hlt => ?_, fun hn => ?_⟩
      · by_contra hf
        unfold holes earliestAvailable at hholes
        cases hb : PriceBar.bounds (fetched.map OhlcvBar.barTimestamp) with
        | none =>
          unfold PriceBar.bounds at hb
          split at hb
          · rename_i hnil
            unfold Fetched at ho
            exact List.not_mem_nil (hnil ▸ ho)
          · exact absurd hb (by simp)
        | some b =>
          rw [hb] at hholes
          have hlt' : b.1 < u := lt_of_le_of_lt (PriceBar.bounds_fst_le hb o ho) hlt
          refine List.filter_eq_nil_iff.mp hholes u (mem_unfilled.mpr ⟨hu, hf⟩) ?_
          exact decide_eq_true hlt'
      · by_contra hf
        exact hnewest (mem_unfilled.mpr ⟨hn, hf⟩)

/-- Nothing is refused when everything missing was fetched. -/
theorem rejectIncomplete_of_filled {c : String} {newest : ℤ}
    (h : ∀ u ∈ missing, Fetched fetched u) :
    rejectIncomplete c missing fetched newest = .ok () := by
  have hnil : unfilled missing fetched = [] :=
    List.eq_nil_iff_forall_not_mem.mpr
      (fun u hu => (mem_unfilled.mp hu).2 (h u (mem_unfilled.mp hu).1))
  unfold rejectIncomplete
  rw [hnil]

/-- **An insert leaves its bar stored and changes nothing else**, whoever stored it. A bar that is
there already is refused by the key, and the refusal is taken for one that somebody else has
stored. -/
theorem insertBar_spec (db : PriceBar) (s : Series) (b : OhlcvBar) :
    ∃ stored db', insertBar db s b = .ok (stored, db') ∧
      (stored = false → db.Stored s b.barTimestamp) ∧
      ∀ s' t, db'.Stored s' t ↔ db.Stored s' t ∨ (s' = s ∧ t = b.barTimestamp) := by
  unfold insertBar
  by_cases hb : db.Stored s b.barTimestamp
  · refine ⟨false, db, ?_, fun _ => hb, fun s' t => ⟨Or.inl, fun h => ?_⟩⟩
    · rw [PriceBar.insBar_error hb]
      rfl
    · rcases h with h | ⟨rfl, rfl⟩
      · exact h
      · exact hb
  · obtain ⟨db', hdb'⟩ : ∃ db', db.insBar s b = .ok db' := ⟨_, dif_neg hb⟩
    exact ⟨true, db', by rw [hdb'], fun h => absurd h (by simp),
      fun s' t => PriceBar.stored_insBar hdb'⟩

/-- **The store loop stores its bars and nothing else.** It does not fail, and a bar that is
refused by the key does not keep it from the next one. -/
theorem stored_store (todo : List OhlcvBar) (db : PriceBar) :
    (∃ n, (store db s todo).1 = .ok n) ∧
      ∀ s' t, (store db s todo).2.Stored s' t
        ↔ db.Stored s' t ∨ (s' = s ∧ t ∈ todo.map OhlcvBar.barTimestamp) := by
  induction todo generalizing db with
  | nil => exact ⟨⟨0, rfl⟩, fun s' t => by simp [store]⟩
  | cons b todo ih =>
    obtain ⟨stored, db', hins, -, hst⟩ := insertBar_spec db s b
    obtain ⟨⟨n, hn⟩, hrest⟩ := ih db'
    unfold store
    simp only [hins, hn, Except.map]
    refine ⟨⟨_, rfl⟩, fun s' t => ?_⟩
    rw [hrest s' t, hst s' t, List.map_cons, List.mem_cons]
    tauto
