import QuantStrategies.MarketData.Warming

/-!
# Backfilling in passes

One backfill may span only so many bars, so a deep history is filled in passes:
`plan_backfill` says what the next pass spans, and the caller runs it and asks
again. A pass ends where the stored bars begin and works backwards, down to the
target.

The plan steps by instants and the bars lie on boundaries. With the target on a
boundary the two agree, and each pass brings the oldest stored bar down to its
start. With the target between two boundaries the oldest bar stops above it: the
plan is never done, and spans nothing from then on. And a plan only looks below
the stored bars, so what is missing above them stays missing.

The loop that runs the passes is the caller's: it asks for a plan, runs what the plan says
and asks again. That it converges is therefore a statement about this protocol, with an
exchange that has every closed bar, and `converges_iff` says for which targets it does.
-/

/-- The next pass of a staged deep backfill, or nothing to run. -/
structure BackfillPlan where
  /-- Where the next pass begins, or nothing where none is left. -/
  start : Option ℤ
  /-- Where it ends, which is where the stored bars begin. -/
  stop : Option ℤ
  /-- How many bars that is. -/
  bars : ℤ
  /-- How many passes there are to run, this one included. -/
  passesRemaining : ℤ
  /-- Down to where the history is wanted. -/
  target : ℤ
deriving DecidableEq

/-- The plan of a series that has nothing to run. -/
def nothingToDo (target : ℤ) : BackfillPlan := ⟨none, none, 0, 0, target⟩

/-- `stored_bounds`. -/
def storedBounds (db : PriceBar) (s : Series) : Option (ℤ × ℤ) := db.getCoverage s

/-- A pass that ends at `stop`. The quotient of two durations is rounded towards
zero; it is exact as long as they are shorter than 285 years. -/
def planUpTo (period : Period) (target stop : ℤ) : BackfillPlan :=
  let start := max target (stop - period.length * (maxBackfillBars - 1))
  let bars := Int.tdiv (stop - start) period.length + 1
  let outstanding := Int.tdiv (stop - target) period.length + 1
  ⟨some start, some stop, bars, -(-outstanding / maxBackfillBars), target⟩

/-- The next pass that moves a series toward the target. -/
def planBackfill (ref : RefData) (db : PriceBar) (s : Series) (target now : ℤ) : BackfillPlan :=
  let period := ref.period s
  let lastClosed := lastClosedBar now period
  if lastClosed < target then nothingToDo target
  else
    match storedBounds db s with
    | none => planUpTo period target lastClosed
    | some (firstBar, _) =>
        if firstBar ≤ target then nothingToDo target
        else planUpTo period target (firstBar - period.length)

/-! ## The loop -/

/-- Run the pass that is planned, if one is. -/
def runPlan (ref : RefData) (v : VenueReply) (db : PriceBar) (s : Series) (target now : ℤ) :
    PriceBar :=
  match (planBackfill ref db s target now).start, (planBackfill ref db s target now).stop with
  | some start, some stop => (backfill ref v db s start (some stop) now).2
  | _, _ => db

/-- The table after so many passes. The exchange is asked anew in each. -/
def afterPasses (ref : RefData) (venue : ℕ → VenueReply) (db : PriceBar) (s : Series)
    (target now : ℤ) : ℕ → PriceBar
  | 0 => db
  | n + 1 => runPlan ref (venue n) (afterPasses ref venue db s target now n) s target now

/-- The plan after so many passes. -/
def planAfter (ref : RefData) (venue : ℕ → VenueReply) (db : PriceBar) (s : Series)
    (target now : ℤ) (n : ℕ) : BackfillPlan :=
  planBackfill ref (afterPasses ref venue db s target now n) s target now

/-- The loop converges: as many passes as the first plan says, each spans a range
that the backfill accepts and leaves one pass less to run; then there is nothing
to do, and every boundary from the target to the newest closed bar is stored. -/
structure Converges (ref : RefData) (venue : ℕ → VenueReply) (db : PriceBar) (s : Series)
    (target now : ℤ) : Prop where
  /-- The plan never asks for more than a backfill takes on. -/
  accepted : ∀ n : ℕ, n < (planBackfill ref db s target now).passesRemaining →
    ∃ start stop, (planAfter ref venue db s target now n).start = some start ∧
      (planAfter ref venue db s target now n).stop = some stop ∧ start ≤ stop ∧
      ∃ r, (backfill ref (venue n) (afterPasses ref venue db s target now n) s start (some stop)
        now).1 = .ok r
  /-- Each pass leaves one pass less to run, so that the number of passes is the one that was
  announced. -/
  lowered : ∀ n : ℕ, n < (planBackfill ref db s target now).passesRemaining →
    (planAfter ref venue db s target now (n + 1)).passesRemaining
      = (planAfter ref venue db s target now n).passesRemaining - 1
  /-- Afterwards the plan is empty, and nothing from the target on is missing. -/
  complete : planAfter ref venue db s target now
    (planBackfill ref db s target now).passesRemaining.toNat = nothingToDo target
  stored : ∀ t, target ≤ t → t ≤ lastClosedBar now (ref.period s) → (ref.period s).length ∣ t →
    (afterPasses ref venue db s target now
      (planBackfill ref db s target now).passesRemaining.toNat).Stored s t

/-- The stored bars of the series are those of one range, which may be empty. A
stored bar has opened by the time of the clock. -/
def Contiguous (period : Period) (db : PriceBar) (s : Series) (now : ℤ) : Prop :=
  (∀ t, ¬ db.Stored s t) ∨ ∃ lo hi, lo ≤ hi ∧ period.length ∣ lo ∧ period.length ∣ hi ∧
    hi ≤ now ∧ ∀ t, db.Stored s t ↔ lo ≤ t ∧ t ≤ hi ∧ period.length ∣ t

/-- The exchange serves every closed bar that it is asked for. -/
def ServesClosed (period : Period) (v : VenueReply) (s : Series) (now : ℤ) : Prop :=
  ∀ lo hi, hi ≤ lastClosedBar now period → ServesRange v s period lo hi

/-- When a plan gets to its target: the target is not closed yet, or it is a
boundary and the newest closed bar is stored if any bar is; or the stored bars
reach from the target to the newest closed bar already. -/
def Attainable (period : Period) (db : PriceBar) (s : Series) (target now : ℤ) : Prop :=
  lastClosedBar now period < target ∨
    match storedBounds db s with
    | none => period.length ∣ target
    | some (firstBar, lastBar) => lastClosedBar now period ≤ lastBar ∧
        (firstBar ≤ target ∨ period.length ∣ target)

variable {ref : RefData} {v : VenueReply} {venue : ℕ → VenueReply} {db : PriceBar} {s : Series}
variable {period : Period} {target now start stop t : ℤ}

/-! ## What a backfill stores -/

/-- A backfill leaves the table alone, or stores what it fetched of the gaps. -/
theorem backfill_table (ref : RefData) (v : VenueReply) (db : PriceBar) (s : Series)
    (start stop now : ℤ) : (backfill ref v db s start (some stop) now).2 = db ∨ ∃ fetched,
      (backfill ref v db s start (some stop) now).2
        = (store db s (toStore (findGaps (ref.period s) db s start stop) fetched)).2 := by
  unfold backfill
  dsimp only [Option.getD_some]
  split
  · exact Or.inl rfl
  split
  · exact Or.inl rfl
  split
  · exact Or.inl rfl
  · exact Or.inr ⟨_, rfl⟩

/-- A backfill stores boundaries of its range and nothing else. -/
theorem stored_backfill_within
    (h : (backfill ref v db s start (some stop) now).2.Stored s t) :
    db.Stored s t ∨ start ≤ t ∧ t ≤ stop ∧ (ref.period s).length ∣ t := by
  obtain heq | ⟨fetched, heq⟩ := backfill_table ref v db s start stop now
  · exact Or.inl (heq ▸ h)
  · rw [heq] at h
    rcases ((stored_store _ db).2 s t).mp h with h | ⟨-, h⟩
    · exact Or.inl h
    · obtain ⟨h1, h2, h3, -⟩ := mem_findGaps.mp (mem_toStore.mp h).1
      exact Or.inr ⟨h1, h2, h3⟩

/-- A backfill never removes a bar. -/
theorem stored_backfill_of_stored (h : db.Stored s t) :
    (backfill ref v db s start (some stop) now).2.Stored s t := by
  obtain heq | ⟨fetched, heq⟩ := backfill_table ref v db s start stop now
  · exact heq.symm ▸ h
  · rw [heq]
    exact ((stored_store _ db).2 s t).mpr (Or.inl h)

/-- **A range that the exchange serves is filled.** Nothing is asked of what the table held
before: bars that are there already are left as they are. -/
theorem backfill_served (db : PriceBar) (now : ℤ)
    (hrange : backfillRange (ref.period s) start stop = .ok ())
    (hserve : ServesRange v s (ref.period s) start stop) :
    (∃ r, (backfill ref v db s start (some stop) now).1 = .ok r) ∧
      ∀ t, start ≤ t → t ≤ stop → (ref.period s).length ∣ t →
        (backfill ref v db s start (some stop) now).2.Stored s t := by
  unfold backfill
  dsimp only [Option.getD_some]
  rw [hrange]
  dsimp only
  split
  · rename_i hgaps
    refine ⟨⟨_, rfl⟩, fun t h1 h2 h3 => ?_⟩
    by_contra hst
    exact List.not_mem_nil (hgaps ▸ mem_findGaps.mpr ⟨h1, h2, h3, hst⟩)
  · rename_i first rest hgaps
    have hfirst : first ∈ findGaps (ref.period s) db s start stop := hgaps ▸ List.mem_cons_self
    obtain ⟨hf1, hf2, hf3, -⟩ := mem_findGaps.mp hfirst
    obtain ⟨fetched, hfetch, hall⟩ := hserve first (mem_barStarts.mpr ⟨hf1, hf2, hf3⟩)
    simp only [hfetch]
    obtain ⟨⟨n, hn⟩, hst⟩ := stored_store (s := s)
      (toStore (findGaps (ref.period s) db s start stop) fetched) db
    refine ⟨⟨_, by rw [hn]; rfl⟩, fun t h1 h2 h3 => (hst s t).mpr ?_⟩
    by_cases hdb : db.Stored s t
    · exact Or.inl hdb
    · have ht : t ∈ findGaps (ref.period s) db s start stop :=
        mem_findGaps.mpr ⟨h1, h2, h3, hdb⟩
      have hle : first ≤ t := by
        rcases List.mem_cons.mp (hgaps ▸ ht) with rfl | ht'
        · exact le_refl _
        · have hsorted : (first :: rest).Pairwise (· < ·) :=
            hgaps ▸ barStarts_pairwise.filter _
          exact le_of_lt (List.rel_of_pairwise_cons hsorted ht')
      refine Or.inr ⟨rfl, mem_toStore.mpr ⟨ht, ?_⟩⟩
      exact hall t (mem_barStarts.mpr ⟨hle, h2, h3⟩)

/-! ## Where the stored bars begin -/

/-- The oldest stored bar; with nothing stored, the boundary after the newest closed
bar. A pass ends one bar below it. -/
def edge (period : Period) (db : PriceBar) (s : Series) (now : ℤ) : ℤ :=
  match storedBounds db s with
  | none => lastClosedBar now period + period.length
  | some (firstBar, _) => firstBar

/-- **The plan goes by the edge alone**: there is nothing to do once it is at or below
the target. -/
theorem planBackfill_eq (h : target ≤ lastClosedBar now (ref.period s)) :
    planBackfill ref db s target now =
      if edge (ref.period s) db s now ≤ target then nothingToDo target
      else planUpTo (ref.period s) target
        (edge (ref.period s) db s now - (ref.period s).length) := by
  have hp := (ref.period s).pos
  unfold planBackfill edge
  dsimp only
  rw [if_neg (not_lt.mpr h)]
  split
  · rw [if_neg (by omega), Int.add_sub_cancel]
  · rfl

/-- The edge is where the oldest bar is stored. -/
theorem edge_of_oldest (ht : db.Stored s t) (hmin : ∀ u, db.Stored s u → t ≤ u) :
    edge period db s now = t := by
  unfold edge storedBounds
  cases h : db.getCoverage s with
  | none => exact absurd ht (PriceBar.getCoverage_none h)
  | some bounds =>
    obtain ⟨lo, hi⟩ := bounds
    obtain ⟨h1, h2⟩ := PriceBar.getCoverage_oldest h
    exact le_antisymm (h2 t ht) (hmin lo h1)

/-- Nothing is stored below the edge. -/
theorem edge_le_stored (ht : db.Stored s t) : edge period db s now ≤ t := by
  unfold edge storedBounds
  cases h : db.getCoverage s with
  | none => exact absurd ht (PriceBar.getCoverage_none h)
  | some bounds =>
    obtain ⟨lo, hi⟩ := bounds
    exact (PriceBar.getCoverage_oldest h).2 t ht

/-! ## Toward a target on a boundary -/

/-- `ceil(n / MAX_BACKFILL_BARS)`. -/
def passesFor (n : ℤ) : ℤ := -(-n / maxBackfillBars)

/-- The boundaries that a pass leaves outstanding. -/
def leftAfter (n : ℤ) : ℤ := max 0 (n - maxBackfillBars)

/-- A pass leaves one pass less. -/
theorem passesFor_leftAfter {n : ℤ} (h : 0 < n) : passesFor (leftAfter n) = passesFor n - 1 := by
  unfold passesFor leftAfter maxBackfillBars
  omega

/-- There are passes to run exactly when there are boundaries left. -/
theorem passesFor_pos_iff {n : ℤ} : 0 < passesFor n ↔ 0 < n := by
  unfold passesFor maxBackfillBars
  omega

/-- The boundaries from the edge to the newest closed bar are stored, and so many
boundaries from the target up to the edge are outstanding. -/
structure Progress (ref : RefData) (db : PriceBar) (s : Series) (target now n : ℤ) : Prop where
  /-- What is outstanding is counted, and cannot be less than nothing. -/
  nonneg : 0 ≤ n
  /-- The stored bars begin that many boundaries above the target. -/
  edge_eq : edge (ref.period s) db s now = target + (ref.period s).length * n
  /-- They begin no later than the bar after the newest closed one, which is where an empty
  table begins. -/
  edge_le : edge (ref.period s) db s now
    ≤ lastClosedBar now (ref.period s) + (ref.period s).length
  /-- And from there on none is missing. -/
  stored : ∀ t, edge (ref.period s) db s now ≤ t → t ≤ lastClosedBar now (ref.period s) →
    (ref.period s).length ∣ t → db.Stored s t

/-- The pass that is planned for so many outstanding boundaries. -/
theorem Progress.plan {n : ℤ} (h : Progress ref db s target now n)
    (hle : target ≤ lastClosedBar now (ref.period s)) (hn : 0 < n) :
    planBackfill ref db s target now =
      ⟨some (target + (ref.period s).length * leftAfter n),
        some (target + (ref.period s).length * (n - 1)), n - leftAfter n, passesFor n, target⟩ := by
  have hp := (ref.period s).pos
  have hedge : ¬ edge (ref.period s) db s now ≤ target := by
    rw [h.edge_eq]
    have := mul_pos hp hn
    omega
  have hstop : edge (ref.period s) db s now - (ref.period s).length
      = target + (ref.period s).length * (n - 1) := by
    rw [h.edge_eq]
    ring
  have hstart : max target (target + (ref.period s).length * (n - 1)
        - (ref.period s).length * (maxBackfillBars - 1))
      = target + (ref.period s).length * leftAfter n := by
    have hdiff : target + (ref.period s).length * (n - 1)
        - (ref.period s).length * (maxBackfillBars - 1)
        = target + (ref.period s).length * (n - maxBackfillBars) := by ring
    rw [hdiff]
    unfold leftAfter
    rcases le_total 0 (n - maxBackfillBars) with hM | hM
    · rw [max_eq_right hM]
      exact max_eq_right (by have := mul_nonneg hp.le hM; omega)
    · rw [max_eq_left hM, mul_zero, add_zero]
      exact max_eq_left (by have := mul_nonpos_of_nonneg_of_nonpos hp.le hM; omega)
  have hbars : target + (ref.period s).length * (n - 1)
      - (target + (ref.period s).length * leftAfter n)
      = (ref.period s).length * (n - 1 - leftAfter n) := by ring
  rw [planBackfill_eq hle, if_neg hedge, hstop, planUpTo]
  rw [hstart, hbars, add_sub_cancel_left, Int.mul_tdiv_cancel_left _ hp.ne',
    Int.mul_tdiv_cancel_left _ hp.ne', sub_add_cancel, passesFor]
  congr 1
  ring

/-- A pass takes as many boundaries as it may: something of what is outstanding, and nothing
beyond it. -/
theorem leftAfter_bounds {n : ℤ} (hn : 0 < n) :
    0 ≤ leftAfter n ∧ leftAfter n ≤ n - 1 ∧ n ≤ leftAfter n + maxBackfillBars := by
  unfold leftAfter maxBackfillBars
  omega

/-- The range of a pass is within the limit. -/
theorem backfillRange_pass (period : Period) (target : ℤ) {n : ℤ} (hn : 0 < n) :
    backfillRange period (target + period.length * leftAfter n)
      (target + period.length * (n - 1)) = .ok () := by
  obtain ⟨-, hleft, hmax⟩ := leftAfter_bounds hn
  have hspan : target + period.length * (n - 1) - (target + period.length * leftAfter n)
      = period.length * (n - 1 - leftAfter n) := by ring
  have hnonneg := mul_nonneg period.pos.le (sub_nonneg.mpr hleft)
  unfold backfillRange
  dsimp only
  rw [if_neg (by omega), hspan, Int.mul_ediv_cancel_left _ period.pos.ne', if_neg (by omega)]

/-- **A pass is accepted and leaves so many boundaries less.** The pass is the range that the plan
proposes, the newest boundaries of those that are left, as many as one backfill may ask for. -/
theorem Progress.step {n : ℤ} (h : Progress ref db s target now n)
    (hd : (ref.period s).length ∣ target) (hle : target ≤ lastClosedBar now (ref.period s))
    (hn : 0 < n) (hserve : ServesClosed (ref.period s) v s now) :
    (target + (ref.period s).length * leftAfter n ≤ target + (ref.period s).length * (n - 1)) ∧
      (∃ r, (backfill ref v db s (target + (ref.period s).length * leftAfter n)
        (some (target + (ref.period s).length * (n - 1))) now).1 = .ok r) ∧
      Progress ref (runPlan ref v db s target now) s target now (leftAfter n) := by
  have hp := (ref.period s).pos
  obtain ⟨hnonneg, hleft1, -⟩ := leftAfter_bounds hn
  have hstart : target + (ref.period s).length * leftAfter n
      ≤ target + (ref.period s).length * (n - 1) := by
    have := mul_nonneg hp.le (sub_nonneg.mpr hleft1)
    have : (ref.period s).length * (n - 1 - leftAfter n)
      = (ref.period s).length * (n - 1) - (ref.period s).length * leftAfter n := mul_sub _ _ _
    omega
  have hstop : target + (ref.period s).length * (n - 1)
      ≤ lastClosedBar now (ref.period s) := by
    have hedge := h.edge_le
    rw [h.edge_eq] at hedge
    have : (ref.period s).length * (n - 1) = (ref.period s).length * n - (ref.period s).length := by
      ring
    omega
  have hrange := backfillRange_pass (ref.period s) target hn
  obtain ⟨hok, hfilled⟩ := backfill_served db now hrange (hserve _ _ hstop)
  refine ⟨hstart, hok, ?_⟩
  have hrun : runPlan ref v db s target now
      = (backfill ref v db s (target + (ref.period s).length * leftAfter n)
        (some (target + (ref.period s).length * (n - 1))) now).2 := by
    rw [runPlan, h.plan hle hn]
  have hlow : (ref.period s).length ∣ target + (ref.period s).length * leftAfter n :=
    Int.dvd_add hd (Dvd.intro _ rfl)
  have hbelow : target + (ref.period s).length * leftAfter n ≤ edge (ref.period s) db s now := by
    have := mul_nonneg hp.le (sub_nonneg.mpr hleft1)
    rw [h.edge_eq]
    have : (ref.period s).length * (n - 1 - leftAfter n)
      = (ref.period s).length * n - (ref.period s).length
        - (ref.period s).length * leftAfter n := by ring
    omega
  have hedge : edge (ref.period s) (runPlan ref v db s target now) s now
      = target + (ref.period s).length * leftAfter n := by
    rw [hrun]
    refine edge_of_oldest (hfilled _ (le_refl _) hstart hlow) (fun u hu => ?_)
    rcases stored_backfill_within hu with hu | ⟨hu, -, -⟩
    · exact hbelow.trans (edge_le_stored hu)
    · exact hu
  refine ⟨hnonneg, hedge, hedge.le.trans (hbelow.trans h.edge_le), fun t ht hL hdt => ?_⟩
  rw [hedge] at ht
  rw [hrun]
  by_cases htop : t ≤ target + (ref.period s).length * (n - 1)
  · exact hfilled t ht htop hdt
  · -- above the pass, the boundary is one of those stored before it
    refine stored_backfill_of_stored (h.stored t ?_ hL hdt)
    have hstep := Grid.add_le_of_lt (Int.dvd_add hd (Dvd.intro _ rfl)) hdt (not_le.mp htop)
    have : (ref.period s).length * (n - 1) = (ref.period s).length * n - (ref.period s).length := by
      ring
    rw [h.edge_eq]
    omega

/-- The boundaries outstanding after so many passes. -/
def leftAfterPasses (n : ℤ) : ℕ → ℤ
  | 0 => n
  | i + 1 => leftAfter (leftAfterPasses n i)

/-- After some of the passes as many are left as there were in the beginning less these, which is
the count that the plan shows. -/
theorem passesFor_leftAfterPasses {n : ℤ} (hn : 0 ≤ n) {i : ℕ} (hi : i ≤ passesFor n) :
    passesFor (leftAfterPasses n i) = passesFor n - i ∧ 0 ≤ leftAfterPasses n i := by
  induction i with
  | zero => exact ⟨by simp [leftAfterPasses], hn⟩
  | succ i ih =>
    push_cast at hi
    obtain ⟨ih1, ih2⟩ := ih (by omega)
    have hpos : 0 < leftAfterPasses n i := passesFor_pos_iff.mp (by omega)
    refine ⟨?_, le_max_left _ _⟩
    rw [leftAfterPasses, passesFor_leftAfter hpos, ih1]
    push_cast
    ring

/-- **So many passes leave so many boundaries**, until none are left. The induction is on the
number of passes, each with an answer of its own of the exchange. -/
theorem Progress.after {n : ℤ} (h : Progress ref db s target now n)
    (hd : (ref.period s).length ∣ target) (hle : target ≤ lastClosedBar now (ref.period s))
    (hserve : ∀ i, ServesClosed (ref.period s) (venue i) s now) {i : ℕ} (hi : i ≤ passesFor n) :
    Progress ref (afterPasses ref venue db s target now i) s target now (leftAfterPasses n i) := by
  induction i with
  | zero => exact h
  | succ i ih =>
    push_cast at hi
    have hpos : 0 < leftAfterPasses n i := by
      have := (passesFor_leftAfterPasses h.nonneg (i := i) (by omega)).1
      exact passesFor_pos_iff.mp (by omega)
    exact ((ih (by omega)).step hd hle hpos (hserve i)).2.2

/-- The plan of a series that has come so far. -/
theorem Progress.passesRemaining {n : ℤ} (h : Progress ref db s target now n)
    (hle : target ≤ lastClosedBar now (ref.period s)) :
    (planBackfill ref db s target now).passesRemaining = passesFor n := by
  rcases h.nonneg.lt_or_eq with hn | rfl
  · rw [h.plan hle hn]
  · rw [planBackfill_eq hle, if_pos (by rw [h.edge_eq]; omega)]
    rfl

/-- **From such a state the loop converges.** After as many passes as the boundaries take nothing
is left, and the plan says so from then on. -/
theorem Progress.converges {n : ℤ} (h : Progress ref db s target now n)
    (hd : (ref.period s).length ∣ target) (hle : target ≤ lastClosedBar now (ref.period s))
    (hserve : ∀ i, ServesClosed (ref.period s) (venue i) s now) :
    Converges ref venue db s target now := by
  have hpasses := h.passesRemaining hle
  have hnonneg : 0 ≤ passesFor n := by
    rcases h.nonneg.lt_or_eq with hn | rfl
    · exact (passesFor_pos_iff.mpr hn).le
    · exact le_refl _
  have hat : ∀ i : ℕ, (i : ℤ) ≤ passesFor n → Progress ref
      (afterPasses ref venue db s target now i) s target now (leftAfterPasses n i) :=
    fun i hi => h.after hd hle hserve hi
  have hleft : ∀ i : ℕ, (i : ℤ) < passesFor n → 0 < leftAfterPasses n i := fun i hi => by
    have := (passesFor_leftAfterPasses h.nonneg hi.le).1
    exact passesFor_pos_iff.mp (by omega)
  -- after the last pass no boundary is left
  have hlast : leftAfterPasses n (passesFor n).toNat = 0 := by
    obtain ⟨h1, h2⟩ := passesFor_leftAfterPasses h.nonneg (i := (passesFor n).toNat) (by omega)
    have h3 : ¬ 0 < leftAfterPasses n (passesFor n).toNat := fun h3 => by
      have := passesFor_pos_iff.mpr h3
      omega
    omega
  have hend := hat (passesFor n).toNat (by omega)
  rw [hlast] at hend
  have hedge := hend.edge_eq
  rw [mul_zero, add_zero] at hedge
  refine ⟨fun i hi => ?_, fun i hi => ?_, ?_, fun t ht hL hdt => ?_⟩
  · rw [hpasses] at hi
    obtain ⟨hstart, hok, -⟩ := (hat i hi.le).step hd hle (hleft i hi) (hserve i)
    refine ⟨_, _, ?_, ?_, hstart, hok⟩
    · rw [planAfter, (hat i hi.le).plan hle (hleft i hi)]
    · rw [planAfter, (hat i hi.le).plan hle (hleft i hi)]
  · rw [hpasses] at hi
    have hi' : ((i + 1 : ℕ) : ℤ) ≤ passesFor n := by omega
    rw [planAfter, planAfter, (hat i hi.le).passesRemaining hle,
      (hat (i + 1) hi').passesRemaining hle]
    exact passesFor_leftAfter (hleft i hi)
  · rw [hpasses, planAfter, planBackfill_eq hle, if_pos hedge.le]
  · rw [hpasses]
    exact hend.stored t (hedge.le.trans ht) hL hdt

/-! ## Where the loop does not converge -/

/-- A pass stores boundaries from the target to one bar below the oldest stored bar,
or to the newest closed bar with nothing stored. -/
theorem stored_runPlan_within (hle : target ≤ lastClosedBar now (ref.period s))
    (h : (runPlan ref v db s target now).Stored s t) :
    db.Stored s t ∨ target ≤ t ∧
      t ≤ edge (ref.period s) db s now - (ref.period s).length ∧ (ref.period s).length ∣ t := by
  unfold runPlan at h
  rw [planBackfill_eq hle] at h
  by_cases hedge : edge (ref.period s) db s now ≤ target
  · rw [if_pos hedge] at h
    exact Or.inl h
  · rw [if_neg hedge] at h
    rcases stored_backfill_within h with h | ⟨h1, h2, h3⟩
    · exact Or.inl h
    · exact Or.inr ⟨(le_max_left _ _).trans h1, h2, h3⟩

/-- **Below a target between two boundaries nothing is ever stored**, and the plan is never done.
The oldest bar that can be stored is the first boundary above the target, so that the plan always
finds something missing before it. -/
theorem not_complete_of_unaligned (hle : target ≤ lastClosedBar now (ref.period s))
    (hd : ¬ (ref.period s).length ∣ target) (habove : ∀ t, db.Stored s t → target < t) (n : ℕ) :
    planAfter ref venue db s target now n ≠ nothingToDo target := by
  have habove : ∀ t, (afterPasses ref venue db s target now n).Stored s t → target < t := by
    induction n with
    | zero => exact habove
    | succ n ih =>
      intro t ht
      rcases stored_runPlan_within hle ht with ht | ⟨h1, -, h3⟩
      · exact ih t ht
      · exact lt_of_le_of_ne h1 (fun heq => hd (heq ▸ h3))
  have hedge : ¬ edge (ref.period s) (afterPasses ref venue db s target now n) s now ≤ target := by
    have hp := (ref.period s).pos
    unfold edge storedBounds
    cases hcov : (afterPasses ref venue db s target now n).getCoverage s with
    | none =>
      dsimp only
      omega
    | some bounds =>
      obtain ⟨lo, hi⟩ := bounds
      exact not_le.mpr (habove lo (PriceBar.getCoverage_oldest hcov).1)
  rw [planAfter, planBackfill_eq hle, if_neg hedge]
  exact nofun

/-- **Above the stored bars nothing is ever filled.** The plan looks below the oldest stored bar
only, so that a gap above it is never proposed. -/
theorem not_stored_above (hle : target ≤ lastClosedBar now (ref.period s))
    (hsome : ∃ u, db.Stored s u ∧ u ≤ t) (ht : ¬ db.Stored s t) (n : ℕ) :
    ¬ (afterPasses ref venue db s target now n).Stored s t := by
  have hp := (ref.period s).pos
  suffices hboth : (∃ u, (afterPasses ref venue db s target now n).Stored s u ∧ u ≤ t) ∧
      ¬ (afterPasses ref venue db s target now n).Stored s t from hboth.2
  induction n with
  | zero => exact ⟨hsome, ht⟩
  | succ n ih =>
    obtain ⟨⟨u, hu, hut⟩, ih⟩ := ih
    refine ⟨⟨u, ?_, hut⟩, fun h => ?_⟩
    · unfold afterPasses runPlan
      split
      · exact stored_backfill_of_stored hu
      · exact hu
    · rcases stored_runPlan_within hle h with h | ⟨-, h, -⟩
      · exact ih h
      · have hbelow : edge (ref.period s) (afterPasses ref venue db s target now n) s now ≤ u :=
          edge_le_stored hu
        omega

/-! ## The condition -/

/-- A series with nothing to run and nothing missing has converged. -/
theorem converges_of_nothingToDo (h : planBackfill ref db s target now = nothingToDo target)
    (hst : ∀ t, target ≤ t → t ≤ lastClosedBar now (ref.period s) → (ref.period s).length ∣ t →
      db.Stored s t) : Converges ref venue db s target now := by
  have hzero : (planBackfill ref db s target now).passesRemaining = 0 := by
    rw [h]
    rfl
  refine ⟨fun n hn => ?_, fun n hn => ?_, ?_, fun t h1 h2 h3 => ?_⟩
  · rw [hzero] at hn
    omega
  · rw [hzero] at hn
    omega
  · rw [hzero]
    exact h
  · rw [hzero]
    exact hst t h1 h2 h3

/-- What is stored between the oldest and the newest bar of a contiguous series. -/
theorem Contiguous.stored (h : Contiguous period db s now) {lo hi : ℤ}
    (hcov : storedBounds db s = some (lo, hi)) :
    (∀ t, lo ≤ t → t ≤ hi → period.length ∣ t → db.Stored s t) ∧ lo ≤ hi ∧ hi ≤ now ∧
      period.length ∣ lo := by
  have hlo := (PriceBar.getCoverage_oldest hcov).1
  have hhi := PriceBar.getCoverage_some hcov
  obtain h | ⟨lo', hi', -, -, -, hnow, h⟩ := h
  · exact absurd hlo (h lo)
  · obtain ⟨hlo1, -, hlo3⟩ := (h lo).mp hlo
    obtain ⟨-, hhi2, -⟩ := (h hi).mp hhi.1
    exact ⟨fun t h1 h2 h3 => (h t).mpr ⟨hlo1.trans h1, h2.trans hhi2, h3⟩, hhi.2 lo hlo,
      hhi2.trans hnow, hlo3⟩

/-- A series whose edge is above a target on a boundary, with everything stored from
there to the newest closed bar, has so many boundaries outstanding. -/
theorem progress_of_edge (hd : (ref.period s).length ∣ target)
    (hedge : (ref.period s).length ∣ edge (ref.period s) db s now)
    (habove : target < edge (ref.period s) db s now)
    (hle : edge (ref.period s) db s now
      ≤ lastClosedBar now (ref.period s) + (ref.period s).length)
    (hst : ∀ t, edge (ref.period s) db s now ≤ t → t ≤ lastClosedBar now (ref.period s) →
      (ref.period s).length ∣ t → db.Stored s t) :
    ∃ n, Progress ref db s target now n := by
  have hp := (ref.period s).pos
  obtain ⟨n, hn⟩ := Int.dvd_sub hedge hd
  refine ⟨n, ?_, by omega, hle, hst⟩
  by_contra hneg
  have := mul_neg_of_pos_of_neg hp (not_le.mp hneg)
  omega

/-- **When the plan loop converges.** A gap above the oldest stored bar, or a target off the
period's grid that no stored bar reaches below, is never filled; there is nothing else that keeps
the loop from its end. -/
theorem converges_iff (hserve : ∀ i, ServesClosed (ref.period s) (venue i) s now)
    (hstored : Contiguous (ref.period s) db s now) :
    Converges ref venue db s target now ↔ Attainable (ref.period s) db s target now := by
  have hp := (ref.period s).pos
  by_cases hlt : lastClosedBar now (ref.period s) < target
  · refine ⟨fun _ => Or.inl hlt, fun _ => converges_of_nothingToDo ?_ (fun t h1 h2 => by omega)⟩
    unfold planBackfill
    dsimp only
    rw [if_pos hlt]
  have hle : target ≤ lastClosedBar now (ref.period s) := not_lt.mp hlt
  unfold Attainable
  rw [or_iff_right hlt]
  cases hcov : storedBounds db s with
  | none =>
    have hedge : edge (ref.period s) db s now
        = lastClosedBar now (ref.period s) + (ref.period s).length := by
      rw [edge, hcov]
    refine ⟨fun h => ?_, fun hd => ?_⟩
    · by_contra hd
      exact not_complete_of_unaligned hle hd
        (fun t ht => absurd ht (PriceBar.getCoverage_none hcov)) _ h.complete
    · obtain ⟨n, hprogress⟩ := progress_of_edge hd
        (by rw [hedge]; exact Int.dvd_add (lastClosedBar_dvd _ _) (Int.dvd_refl _))
        (by omega) hedge.le (fun t h1 h2 _ => by omega)
      exact hprogress.converges hd hle hserve
  | some bounds =>
    obtain ⟨lo, hi⟩ := bounds
    have hlo := PriceBar.getCoverage_oldest hcov
    have hhi := PriceBar.getCoverage_some hcov
    obtain ⟨hfull, hlohi, hnow, hdlo⟩ := hstored.stored hcov
    have hedge : edge (ref.period s) db s now = lo := by rw [edge, hcov]
    refine ⟨fun h => ⟨?_, ?_⟩, fun ⟨hL, h⟩ => ?_⟩
    · by_contra hL
      refine not_stored_above hle ⟨lo, hlo.1, hlohi.trans (not_le.mp hL).le⟩
        (fun hst => hL (hhi.2 _ hst)) _ (h.stored _ hle (le_refl _) (lastClosedBar_dvd _ _))
    · by_contra hno
      obtain ⟨hlo', hd⟩ := not_or.mp hno
      exact not_complete_of_unaligned hle hd
        (fun t ht => (not_le.mp hlo').trans_le (hlo.2 t ht)) _ h.complete
    · by_cases hreach : lo ≤ target
      · refine converges_of_nothingToDo ?_
          (fun t h1 h2 h3 => hfull t (hreach.trans h1) (h2.trans hL) h3)
        rw [planBackfill_eq hle, if_pos (hedge ▸ hreach)]
      · have hd := h.resolve_left hreach
        -- the oldest stored bar has opened, so it is at most one bar past the closed ones
        have hlast : lo ≤ lastClosedBar now (ref.period s) + (ref.period s).length := by
          unfold lastClosedBar floorToPeriod
          rw [Int.sub_add_cancel]
          exact Grid.le_floor hp hdlo (hlohi.trans hnow)
        obtain ⟨n, hprogress⟩ := progress_of_edge hd (hedge ▸ hdlo)
          (hedge ▸ not_le.mp hreach) (hedge ▸ hlast)
          (fun t h1 h2 h3 => hfull t (hedge ▸ h1) (h2.trans hL) h3)
        exact hprogress.converges hd hle hserve

/-! ## Hourly bars -/

/-- Every interval is one hour. -/
def hourRef : RefData := ⟨fun _ => hourPeriod⟩

/-- So many hours and minutes after the epoch. -/
def clockTime (hours minutes : ℤ) : ℤ := hours * 3600000000 + minutes * 60000000

/-- An exchange that has a candle for every hour, and serves one a page. -/
def hourStream : VenueReply where
  vendorSymbol := some "BTCUSDT"
  page cursorMs := .ok [⟨-(-cursorMs / 3600000) * 3600000, 1, 1, 1, 1, 1⟩]

/-- The pages from a boundary have every candle from there. -/
theorem fetchLoop_hourStream {untilMs : ℤ} (n : ℕ) {c : ℤ} (hc : 3600000 ∣ c)
    (hn : (untilMs - c) / 3600000 + 1 ≤ n) :
    ∃ bars, fetchLoop hourStream.page untilMs 3600000 n c = .ok bars ∧
      ∀ t, 3600000 ∣ t → c ≤ t → t ≤ untilMs → Fetched bars (t * 1000) := by
  induction n generalizing c with
  | zero =>
    push_cast at hn
    exact ⟨[], rfl, fun t ht h1 h2 => by omega⟩
  | succ n ih =>
    push_cast at hn
    by_cases hle : c ≤ untilMs
    · have hpage : hourStream.page c = .ok [⟨c, 1, 1, 1, 1, 1⟩] := by
        have hrow : -(-c / 3600000) * 3600000 = c := by omega
        change Except.ok [VenueRow.mk (-(-c / 3600000) * 3600000) 1 1 1 1 1] = _
        rw [hrow]
      obtain ⟨bars, hbars, hall⟩ := ih (Int.dvd_add hc (Int.dvd_refl _)) (by omega)
      refine ⟨⟨c * 1000, 1, 1, 1, 1, 1⟩ :: bars, ?_, fun t ht h1 h2 => ?_⟩
      · rw [fetchLoop, if_pos hle, hpage]
        simp [VenueRow.toBar, not_lt.mpr hle, hbars, Except.map]
      · unfold Fetched
        rw [List.map_cons, List.mem_cons]
        by_cases htc : t = c
        · exact Or.inl (by rw [htc])
        · exact Or.inr (hall t ht (by omega) h2)
    · exact ⟨[], by rw [fetchLoop, if_neg hle], fun t ht h1 h2 => by omega⟩

/-- A whole number of milliseconds that has passed. -/
theorem le_toMs {m ts : ℤ} (h : m * 1000 ≤ ts) : m ≤ toMs ts := by
  unfold toMs
  rw [Int.tdiv_eq_ediv]
  split
  · omega
  · rw [show Int.sign 1000 = 1 from rfl]
    omega

theorem hourStream_serves (s : Series) (lo hi : ℤ) :
    ServesRange hourStream s hourPeriod lo hi := by
  intro since hsince
  obtain ⟨-, hle, k, rfl⟩ := mem_barStarts.mp hsince
  have hms : ∀ m, hourPeriod.length * m = 3600000 * m * 1000 := fun m => by
    change 3600000000 * m = 3600000 * m * 1000
    ring
  have hsinceMs : toMs (hourPeriod.length * k) = 3600000 * k := by
    rw [hms, toMs, Int.mul_tdiv_cancel _ (by decide)]
  obtain ⟨bars, hbars, hall⟩ := @fetchLoop_hourStream (toMs hi)
    ((toMs hi - 3600000 * k) / 3600000 + 1).toNat (3600000 * k) (Dvd.intro k rfl) (by omega)
  refine ⟨bars, ?_, fun u hu => ?_⟩
  · have htf : ccxtTimeframe hourPeriod = some ⟨1, 'h'⟩ := rfl
    unfold fetch fetchBars
    dsimp only [hourStream]
    rw [if_neg (not_lt.mpr hle), htf]
    dsimp only
    rw [hsinceMs]
    exact hbars
  · obtain ⟨h1, h2, m, rfl⟩ := mem_barStarts.mp hu
    rw [hms] at h1 h2 ⊢
    rw [hms] at h1
    exact hall (3600000 * m) (Dvd.intro m rfl) (by omega) (le_toMs h2)

namespace Converges

/-- A target half an hour after a boundary, an empty series and an exchange that
serves everything: after the one pass the plan spans nothing, and is refused. -/
theorem not_halfHour : ServesClosed hourPeriod hourStream minuteSeries (clockTime 12 15) ∧
    Contiguous hourPeriod .empty minuteSeries (clockTime 12 15) ∧
    ¬ Converges hourRef (fun _ => hourStream) .empty minuteSeries (clockTime 9 30)
      (clockTime 12 15) := by
  refine ⟨fun lo hi _ => hourStream_serves minuteSeries lo hi,
    Or.inl (fun _ => PriceBar.not_stored_empty), fun h => ?_⟩
  exact absurd h.complete (by decide +kernel)

/-- On the boundary the loop converges. -/
theorem onTheHour : ServesClosed hourPeriod hourStream minuteSeries (clockTime 12 15) ∧
    Contiguous hourPeriod .empty minuteSeries (clockTime 12 15) ∧
    Converges hourRef (fun _ => hourStream) .empty minuteSeries (clockTime 9 0)
      (clockTime 12 15) := by
  have hserves : ServesClosed hourPeriod hourStream minuteSeries (clockTime 12 15) :=
    fun lo hi _ => hourStream_serves minuteSeries lo hi
  have hstored : Contiguous hourPeriod .empty minuteSeries (clockTime 12 15) :=
    Or.inl (fun _ => PriceBar.not_stored_empty)
  refine ⟨hserves, hstored, (@converges_iff hourRef (fun _ => hourStream) .empty minuteSeries
    (clockTime 9 0) (clockTime 12 15) (fun _ => hserves) hstored).mpr (Or.inr ?_)⟩
  exact (by decide : hourPeriod.length ∣ clockTime 9 0)

end Converges
