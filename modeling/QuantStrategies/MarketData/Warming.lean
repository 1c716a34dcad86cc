import QuantStrategies.MarketData.Service

/-!
# Warming a short window, then serving a long one

The bar warmer asks for a short lookback and relies on the apply to complete
whatever longer window its strategy needs. This module says exactly when that
works. `ensure_fresh` decides from the newest stored bar alone whether to look
for gaps, so a warm pass in the *same* bar period makes the later, longer
request return early: nothing fills the head of its window. A warm pass in an
earlier period is harmless, as the newest closed bar has moved on.

The condition that comes out of it is about the two clock readings alone, so it can be read
as a rule for the scheduler: a warm pass is safe where the apply comes in a later bar, and
not where it comes in the same one.
-/

variable {ref : RefData} {v v' : VenueReply} {db db' : PriceBar} {s : Series}
variable {period : Period} {lookback now moment : ℤ} {includeForming : Bool}

/-- The exchange answers a fetch from any boundary of the range to its end with
every boundary from there. -/
def ServesRange (v : VenueReply) (s : Series) (period : Period) (lo hi : ℤ) : Prop :=
  ∀ since ∈ barStarts lo hi period, ∃ fetched, fetch v s period since hi = .ok fetched ∧
    ∀ u ∈ barStarts since hi period, Fetched fetched u

/-- A property of a result holds when there is a result and it has it. -/
instance decidableExistsOk {ε α : Type} (x : Except ε α) (P : α → Prop) [DecidablePred P] :
    Decidable (∃ a, x = .ok a ∧ P a) :=
  match x with
  | .ok a => decidable_of_iff (P a) ⟨fun h => ⟨a, rfl, h⟩, fun ⟨_, h, hP⟩ => Except.ok.inj h ▸ hP⟩
  | .error _ => .isFalse (fun ⟨_, h, _⟩ => nomatch h)

instance (v : VenueReply) (s : Series) (period : Period) (lo hi : ℤ) :
    Decidable (ServesRange v s period lo hi) :=
  inferInstanceAs (Decidable (∀ since ∈ barStarts lo hi period, _))

/-- Every boundary of the window of closed bars read at `moment` is stored. -/
def WindowStored (period : Period) (db : PriceBar) (s : Series) (lookback : ℤ)
    (includeForming : Bool) (moment : ℤ) : Prop :=
  let newest := lastClosedBar moment period
  ∀ u ∈ barStarts (windowStart period newest (closedSlots lookback includeForming)) newest period,
    db.Stored s u

/-- The call returned, every closed boundary of its window is stored, and every
bar of the window is in what it returned: the closed ones, and the forming one
when it was asked for. -/
def ServedInFull (period : Period) (s : Series) (lookback : ℤ) (includeForming : Bool)
    (moment : ℤ) (r : Except BarError (List OhlcvBar) × PriceBar) : Prop :=
  ∃ bars, r.1 = .ok bars ∧ WindowStored period r.2 s lookback includeForming moment ∧
    lookback ≤ bars.length ∧
    (∀ u ∈ barStarts
        (windowStart period (lastClosedBar moment period) (closedSlots lookback includeForming))
        (lastClosedBar moment period) period, u ∈ bars.map OhlcvBar.barTimestamp) ∧
    (includeForming = true → floorToPeriod moment period ∈ bars.map OhlcvBar.barTimestamp)

/-- A call served in full returned. -/
theorem ServedInFull.isOk {r : Except BarError (List OhlcvBar) × PriceBar}
    (h : ServedInFull period s lookback includeForming moment r) : r.1.isOk = true := by
  obtain ⟨bars, hbars, -⟩ := h
  rw [hbars]
  rfl

/-- **A pass that is not fresh completes its window.** When the newest closed
bar is not stored and the exchange serves the window, `ensure_fresh` goes
through and stores every boundary of it, and nothing past its end. -/
theorem ensureFresh_completes (hl : 1 ≤ lookback)
    (hserves : ServesRange v s (ref.period s)
      (windowStart (ref.period s) (lastClosedBar now (ref.period s)) lookback)
      (lastClosedBar now (ref.period s)))
    (hstale : isFresh (db.getCoverage s) (lastClosedBar now (ref.period s)) = false) :
    ∃ n, (ensureFresh ref v db s lookback now).1 = .ok n ∧
      (∀ u ∈ barStarts (windowStart (ref.period s) (lastClosedBar now (ref.period s)) lookback)
          (lastClosedBar now (ref.period s)) (ref.period s),
        (ensureFresh ref v db s lookback now).2.Stored s u) ∧
      ∀ u, (ensureFresh ref v db s lookback now).2.Stored s u →
        u ≤ lastClosedBar now (ref.period s) := by
  unfold ensureFresh
  simp only [if_neg (not_lt.mpr hl)]
  generalize ref.period s = period at *
  generalize lastClosedBar now period = newest at *
  simp only [hstale, Bool.false_eq_true, if_false]
  -- nothing newer than the newest closed bar is stored
  have hold : ∀ u, db.Stored s u → u ≤ newest := fun u hu => by
    by_contra hlt
    exact Bool.false_ne_true (hstale ▸ isFresh_iff.mpr ⟨u, hu, le_of_not_ge hlt⟩)
  cases hm : findGaps period db s (windowStart period newest lookback) newest with
  | nil =>
    refine ⟨0, rfl, fun u hu => ?_, hold⟩
    obtain ⟨h1, h2, h3⟩ := mem_barStarts.mp hu
    by_contra hns
    exact List.not_mem_nil (hm ▸ mem_findGaps.mpr ⟨h1, h2, h3, hns⟩)
  | cons first rest =>
    have hmem : ∀ u ∈ first :: rest, u ∈ barStarts (windowStart period newest lookback)
        newest period := fun u hu => by
      obtain ⟨h1, h2, h3, -⟩ := mem_findGaps.mp (hm ▸ hu)
      exact mem_barStarts.mpr ⟨h1, h2, h3⟩
    obtain ⟨fetched, hf, hall⟩ := hserves first (hmem first List.mem_cons_self)
    -- the gaps are listed oldest first, so the fetch covers them all
    have hfirst : ∀ u ∈ first :: rest, first ≤ u := fun u hu => by
      rcases List.mem_cons.mp hu with rfl | hu
      · exact le_refl _
      · have hsorted : (first :: rest).Pairwise (· < ·) := hm ▸ barStarts_pairwise.filter _
        exact le_of_lt ((List.pairwise_cons.mp hsorted).1 u hu)
    have hfilled : ∀ u ∈ first :: rest, Fetched fetched u := fun u hu => by
      obtain ⟨-, h2, h3⟩ := mem_barStarts.mp (hmem u hu)
      exact hall u (mem_barStarts.mpr ⟨hfirst u hu, h2, h3⟩)
    obtain ⟨⟨n, hn⟩, hst⟩ := stored_store (s := s) (toStore (first :: rest) fetched) db
    simp only [fillGaps, hf, rejectIncomplete_of_filled hfilled]
    refine ⟨n, hn, fun u hu => (hst s u).mpr ?_, fun u hu => ?_⟩
    · by_cases hns : db.Stored s u
      · exact Or.inl hns
      · obtain ⟨h1, h2, h3⟩ := mem_barStarts.mp hu
        have hu' : u ∈ first :: rest := hm ▸ mem_findGaps.mpr ⟨h1, h2, h3, hns⟩
        exact Or.inr ⟨rfl, mem_toStore.mpr ⟨hu', hfilled u hu'⟩⟩
    · rcases (hst s u).mp hu with hu | ⟨-, hu⟩
      · exact hold u hu
      · exact (mem_barStarts.mp (hmem u (mem_toStore.mp hu).1)).2.1

/-- A fresh pass changes nothing. -/
theorem ensureFresh_fresh (hl : 1 ≤ lookback)
    (hfresh : isFresh (db.getCoverage s) (lastClosedBar now (ref.period s)) = true) :
    ensureFresh ref v db s lookback now = (.ok 0, db) := by
  unfold ensureFresh
  simp only [if_neg (not_lt.mpr hl), hfresh, if_true]

/-- A window read of so many bars holds each of its stored boundaries. -/
theorem mem_readClosed {u : ℤ} (hc : 1 ≤ closedSlots lookback includeForming)
    (hu : u ∈ barStarts (windowStart period (lastClosedBar moment period)
      (closedSlots lookback includeForming)) (lastClosedBar moment period) period) :
    u ∈ (readClosed period db s lookback includeForming moment).map OhlcvBar.barTimestamp
      ↔ db.Stored s u := by
  obtain ⟨h1, h2, -⟩ := mem_barStarts.mp hu
  unfold readClosed
  simp only [if_pos hc]
  rw [List.mem_map, PriceBar.stored_iff_mem_getBars]
  exact ⟨fun h => h.1, fun h => ⟨h, h1, h2⟩⟩

/-- A completely stored window is read in full. -/
theorem length_readClosed (hc : 1 ≤ closedSlots lookback includeForming)
    (hw : WindowStored period db s lookback includeForming moment) :
    closedSlots lookback includeForming
      ≤ (readClosed period db s lookback includeForming moment).length := by
  obtain ⟨k, hk⟩ : ∃ k : ℕ, closedSlots lookback includeForming = k :=
    Int.eq_ofNat_of_zero_le (by omega)
  have hlen := length_barStarts_window (lastClosedBar_dvd moment period) k
  have hsub : barStarts (windowStart period (lastClosedBar moment period)
      (closedSlots lookback includeForming)) (lastClosedBar moment period) period ⊆
      (readClosed period db s lookback includeForming moment).map OhlcvBar.barTimestamp :=
    fun u hu => (mem_readClosed hc hu).mpr (hw u hu)
  have hnodup : (barStarts (windowStart period (lastClosedBar moment period)
      (closedSlots lookback includeForming)) (lastClosedBar moment period) period).Nodup :=
    barStarts_pairwise.imp (fun h => ne_of_lt h)
  have hle := (List.subperm_of_subset hnodup hsub).length_le
  rw [List.length_map, windowStart, hk, hlen] at hle
  rw [hk]
  exact_mod_cast hle

/-- **What the read returns.** Once `ensure_fresh` has gone through, the call is
served in full exactly when the closed part of its window is stored, provided
the exchange has the forming bar where one is asked for. -/
theorem servedInFull_iff_windowStored (hl : 2 ≤ lookback)
    (hforming : includeForming = true → ∃ fetched,
      fetch v' s period (floorToPeriod moment period) (floorToPeriod moment period) = .ok fetched
        ∧ Fetched fetched (floorToPeriod moment period)) :
    ServedInFull period s lookback includeForming moment
      ((if includeForming then
          appendForming v' (readClosed period db s lookback includeForming moment) s period
            (floorToPeriod moment period)
        else .ok (readClosed period db s lookback includeForming moment)).bind
          (requireCoverage s lookback), db)
      ↔ WindowStored period db s lookback includeForming moment := by
  have hc : 1 ≤ closedSlots lookback includeForming := by
    unfold closedSlots
    split <;> omega
  refine ⟨fun ⟨_, _, hw, _⟩ => hw, fun hw => ?_⟩
  have hlen := length_readClosed hc hw
  -- what is read passes the coverage check, with or without the forming bar
  have hcover : ∀ bars : List OhlcvBar, lookback ≤ bars.length →
      requireCoverage s lookback bars = .ok bars := fun bars hb => by
    unfold requireCoverage requiredBars
    simp only [ite_eq_right_iff, reduceCtorEq, imp_false, not_lt]
    omega
  cases includeForming with
  | false =>
    rw [closedSlots, if_neg (by simp)] at hlen
    refine ⟨_, hcover _ hlen, hw, hlen, fun u hu => ?_, fun h => absurd h (by simp)⟩
    exact (mem_readClosed hc hu).mpr (hw u hu)
  | true =>
    obtain ⟨fetched, hf, hbar⟩ := hforming rfl
    obtain ⟨bar, hget⟩ := Option.isSome_iff_exists.mp (fetchedGet_isSome.mpr hbar)
    rw [closedSlots, if_pos rfl] at hlen
    simp only [appendForming, hf, hget, if_true]
    set bars := readClosed period db s lookback true moment
    set frame := (bars ++ [bar]).insertionSort (fun a b => a.barTimestamp ≤ b.barTimestamp)
    have hframe : lookback ≤ frame.length := by
      rw [List.length_insertionSort, List.length_append, List.length_singleton, Nat.cast_add,
        Nat.cast_one]
      omega
    have hmem : ∀ b, b ∈ frame ↔ b ∈ bars ∨ b = bar := fun b => by
      rw [List.mem_insertionSort, List.mem_append, List.mem_singleton]
    refine ⟨frame, hcover _ hframe, hw, hframe, fun u hu => ?_, fun _ => ?_⟩
    · obtain ⟨b, hb, rfl⟩ := List.mem_map.mp ((mem_readClosed hc hu).mpr (hw u hu))
      exact List.mem_map_of_mem ((hmem b).mpr (Or.inl hb))
    · rw [← fetchedGet_some hget]
      exact List.mem_map_of_mem ((hmem bar).mpr (Or.inr rfl))

/-- **When a warmed series serves a longer window in full.** After
`ensure_fresh` for a short lookback went through, and whatever became of the
table since, a `load_window` for a longer one, against an exchange that serves
its window, stores and returns that window exactly when either the newest
closed bar of the call is not stored yet and the clock enters no new period
within the call, or a bar that new is stored already and so is everything else
of the window. -/
theorem loadWindow_servedInFull_iff {v₀ : VenueReply} {db₀ : PriceBar} {short now₀ : ℤ} {n : ℕ}
    (hshort : (ensureFresh ref v₀ db₀ s short now₀).1 = .ok n)
    (hlong : short < lookback) (hmoment : now ≤ moment)
    (hserves : ServesRange v s (ref.period s)
      (windowStart (ref.period s) (lastClosedBar now (ref.period s)) lookback)
      (lastClosedBar now (ref.period s)))
    (hforming : includeForming = true → ∃ fetched,
      fetch v' s (ref.period s) (floorToPeriod moment (ref.period s))
        (floorToPeriod moment (ref.period s)) = .ok fetched
        ∧ Fetched fetched (floorToPeriod moment (ref.period s))) :
    ServedInFull (ref.period s) s lookback includeForming moment
        (loadWindow ref v v' db s lookback now moment includeForming)
      ↔ (isFresh (db.getCoverage s) (lastClosedBar now (ref.period s)) = false ∧
          lastClosedBar moment (ref.period s) = lastClosedBar now (ref.period s)) ∨
        (isFresh (db.getCoverage s) (lastClosedBar now (ref.period s)) = true ∧
          WindowStored (ref.period s) db s lookback includeForming moment) := by
  have hl : 2 ≤ lookback := by
    by_contra hlt
    unfold ensureFresh at hshort
    rw [if_pos (by omega)] at hshort
    exact absurd hshort (by simp)
  cases hfresh : isFresh (db.getCoverage s) (lastClosedBar now (ref.period s)) with
  | true =>
    unfold loadWindow
    rw [ensureFresh_fresh (by omega) hfresh]
    rw [servedInFull_iff_windowStored hl hforming]
    simp
  | false =>
    obtain ⟨m, hm, hfull, hmax⟩ := ensureFresh_completes (by omega) hserves hfresh
    unfold loadWindow
    generalize ensureFresh ref v db s lookback now = r at *
    obtain ⟨r1, db'⟩ := r
    obtain rfl : r1 = .ok m := hm
    simp only
    rw [servedInFull_iff_windowStored hl hforming]
    generalize ref.period s = period at *
    have hc : 1 ≤ closedSlots lookback includeForming ∧
        closedSlots lookback includeForming ≤ lookback := by
      unfold closedSlots
      split <;> omega
    simp only [true_and, Bool.false_eq_true, false_and, or_false]
    constructor
    · -- the newest bar of the later window is stored, so it is not past the earlier one
      intro hw
      refine le_antisymm (hmax _ (hw _ (mem_barStarts.mpr ⟨?_, le_refl _, lastClosedBar_dvd _ _⟩)))
        (lastClosedBar_mono hmoment)
      unfold windowStart
      have := mul_nonneg (le_of_lt period.pos) (sub_nonneg.mpr hc.1)
      omega
    · intro heq u hu
      obtain ⟨h1, h2, h3⟩ := mem_barStarts.mp hu
      rw [heq] at h1 h2
      refine hfull u (mem_barStarts.mpr ⟨le_trans ?_ h1, h2, h3⟩)
      unfold windowStart
      have := Int.mul_le_mul_of_nonneg_left (Int.sub_le_sub_right hc.2 1) (le_of_lt period.pos)
      omega

/-! ## A warm pass in the same period -/

/-- An exchange that has the first ten candles. -/
def tenCandles : VenueReply := minuteVenue [0, 1, 2, 3, 4, 5, 6, 7, 8, 9]

/-- It serves every window of five that ends with the newest closed bar. -/
theorem tenCandles_serves :
    ServesRange tenCandles minuteSeries (minuteRef.period minuteSeries)
      (windowStart (minuteRef.period minuteSeries)
        (lastClosedBar (minute 10 + 30000000) (minuteRef.period minuteSeries)) 5)
      (lastClosedBar (minute 10 + 30000000) (minuteRef.period minuteSeries)) := by
  decide +kernel

/-- **Warming short is not safe.** The property claimed of a warmed series fails
when both calls fall in one period: with one bar warmed, a request for five
finds the newest bar stored, returns early, and is refused for its coverage. -/
theorem warmed_window_refused :
    ¬ ∀ (ref : RefData) (v₀ v v' : VenueReply) (db₀ : PriceBar) (s : Series)
      (short lookback now₀ now moment : ℤ) (includeForming : Bool),
      (∃ n, (ensureFresh ref v₀ db₀ s short now₀).1 = .ok n) → short < lookback →
      now₀ ≤ now → now ≤ moment →
      ServesRange v s (ref.period s)
        (windowStart (ref.period s) (lastClosedBar now (ref.period s)) lookback)
        (lastClosedBar now (ref.period s)) →
      (includeForming = true → ∃ fetched,
        fetch v' s (ref.period s) (floorToPeriod moment (ref.period s))
          (floorToPeriod moment (ref.period s)) = .ok fetched
          ∧ Fetched fetched (floorToPeriod moment (ref.period s))) →
      ServedInFull (ref.period s) s lookback includeForming moment
        (loadWindow ref v v' (ensureFresh ref v₀ db₀ s short now₀).2 s lookback now moment
          includeForming) := by
  intro h
  have hserved := h minuteRef tenCandles tenCandles (minuteVenue [])
    .empty minuteSeries 1 5 (minute 10 + 30000000) (minute 10 + 30000000)
    (minute 10 + 30000000) false ⟨1, by decide +kernel⟩ (by decide) (le_refl _) (le_refl _)
    tenCandles_serves (fun hf => absurd hf (by decide))
  exact absurd hserved.isOk (by decide +kernel)

/-- From an empty table the longer request is served in full, after a warm pass
one period earlier. -/
theorem warmed_earlier_served :
    ServedInFull (minuteRef.period minuteSeries) minuteSeries 5 false (minute 10 + 30000000)
      (loadWindow minuteRef tenCandles (minuteVenue [])
        (ensureFresh minuteRef (minuteVenue [8]) .empty minuteSeries 1 (minute 9)).2
        minuteSeries 5 (minute 10 + 30000000) (minute 10 + 30000000) false) := by
  have hshort : (ensureFresh minuteRef (minuteVenue [8]) .empty minuteSeries 1 (minute 9)).1
      = .ok 1 := by decide +kernel
  have hstale : isFresh
      ((ensureFresh minuteRef (minuteVenue [8]) .empty minuteSeries 1 (minute 9)).2.getCoverage
        minuteSeries)
      (lastClosedBar (minute 10 + 30000000) (minuteRef.period minuteSeries)) = false := by
    decide +kernel
  exact (loadWindow_servedInFull_iff hshort (by decide) (le_refl _) tenCandles_serves
    (fun hf => absurd hf (by decide))).mpr (Or.inl ⟨hstale, rfl⟩)
