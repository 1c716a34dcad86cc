import QuantStrategies.MarketData.Workers

/-!
# The live window has no hole

What `load_window` returns is read from the table, and nothing in the read looks
for holes: the coverage check counts rows. That the window is whole rests on
what `ensure_fresh` did before, and on what happened to the table and the clock
in between. Four things can leave a hole in it, and each is a condition on one
kind of step:

* the newest closed bar is stored, so `ensure_fresh` returns early over a hole
  that an outage or an earlier repair left (`FreshWindowWhole`);
* the exchange no longer has a stretch of the window that is newer than a bar
  stored before, which the check of the fetched bars takes for history that
  predates the listing (`AnswerFills`);
* a bar closes between the two readings of the clock, and is not stored
  (`NewlyClosedStored`);
* another call, filling older history oldest first, has stored a bar of the
  window and not yet the bars after it (`Undisturbed`).

Under these conditions the window is whole in every run.

Each condition is on the step at which it is decided, and on the state that the step finds.
None of them asks anything of a call that serves no window, and what the calls do to each
other is otherwise left open. The first of them fails in the run that is given as an
example: a repair for which the exchange leaves a bar out makes a hole, and the next window
is served over it.
-/

variable {ref : RefData} {sh sh' : Shared} {w w' : Worker} {a : Reply}

/-! ## What a worker is doing for a live window -/

/-- The first clock reading of a live window, and the instant its caller passed
for both readings, while `ensure_fresh` runs for it. -/
def Worker.firstReading : Worker → Option (ℤ × Option ℤ)
  | .coverage (.loadWindow now _) w => some (w.now, now)
  | .gaps (.loadWindow now _) w => some (w.now, now)
  | .fetch (.loadWindow now _) w _ _ => some (w.now, now)
  | .insert (.loadWindow now _) w _ => some (w.now, now)
  | .clock w now _ => some (w.now, now)
  | _ => none

/-- The live window whose coverage is about to be probed. -/
def Worker.probing : Worker → Option Window
  | .coverage (.loadWindow _ _) w => some w
  | _ => none

/-- The live window whose gaps are about to be fetched. -/
def Worker.fetching : Worker → Option (Window × ℤ × List ℤ)
  | .fetch (.loadWindow _ _) w first rest => some (w, first, rest)
  | _ => none

/-- The live window whose closed bars are about to be read. -/
def Worker.reading : Worker → Option (Window × Bool × ℤ)
  | .read w includeForming moment => some (w, includeForming, moment)
  | _ => none

/-- The oldest bar the read of a live window asks for. -/
def Window.readStart (ref : RefData) (w : Window) (includeForming : Bool) (moment : ℤ) : ℤ :=
  windowStart (ref.period w.series) (lastClosedBar moment (ref.period w.series))
    (closedSlots w.lookback includeForming)

/-- A stretch of a series that a live window relies on, with the bars the call
itself is still to insert. -/
structure Serving where
  /-- The series whose window it is. -/
  series : Series
  /-- The oldest bar that is relied on. -/
  start : ℤ
  /-- The newest one. -/
  newest : ℤ
  /-- What the call has fetched and not stored yet. -/
  todo : List OhlcvBar

/-- The stretch a live window relies on once its gaps have been fetched. -/
def Worker.serving (ref : RefData) : Worker → Option Serving
  | .insert (.loadWindow _ _) w todo => some ⟨w.series, w.start ref, w.newest ref, todo⟩
  | .clock w _ _ => some ⟨w.series, w.start ref, w.newest ref, []⟩
  | .read w includeForming moment =>
      some ⟨w.series, w.readStart ref includeForming moment, w.newest ref, []⟩
  | _ => none

/-- The frame a live window has: its closed bars, and at the end the forming one
as well. -/
def Worker.frame : Worker → Option (Series × Bool × ℤ × List OhlcvBar)
  | .forming w moment bars => some (w.series, false, moment, bars)
  | .returned w includeForming moment bars => some (w.series, includeForming, moment, bars)
  | _ => none

/-- The exchange's part of a reply. -/
def Reply.answer : Reply → Option VenueReply
  | .venue v => some v
  | _ => none

/-! ## The conditions -/

/-- Every boundary from `lo` to `hi` that is newer than a stored bar of the
window is stored, or is among the bars at hand. -/
def NoHole (ref : RefData) (db : PriceBar) (s : Series) (start lo hi : ℤ)
    (bars : List OhlcvBar) : Prop :=
  ∀ u ∈ barStarts lo hi (ref.period s),
    (∃ b ∈ db.getBars s start hi, b.barTimestamp < u) → db.Stored s u ∨ Fetched bars u

instance (ref : RefData) (db : PriceBar) (s : Series) (start lo hi : ℤ) (bars : List OhlcvBar) :
    Decidable (NoHole ref db s start lo hi bars) :=
  inferInstanceAs (Decidable (∀ u ∈ barStarts lo hi (ref.period s), _))

/-- A window that is passed over as fresh has no hole. -/
def FreshWindowWhole (ref : RefData) (sh : Shared) (w : Worker) : Prop :=
  ∀ win ∈ w.probing, isFresh (sh.db.getCoverage win.series) (win.newest ref) = true →
    NoHole ref sh.db win.series (win.start ref) (win.start ref) (win.newest ref) []

/-- The exchange has every missing boundary that is newer than a stored bar of
the window. -/
def AnswerFills (ref : RefData) (sh : Shared) (w : Worker) (a : Reply) : Prop :=
  ∀ f ∈ w.fetching, ∀ v ∈ a.answer,
    ∀ fetched ∈ (fetch v f.1.series (ref.period f.1.series) f.2.1 (f.1.newest ref)).toOption,
      NoHole ref sh.db f.1.series (f.1.start ref) (f.1.start ref) (f.1.newest ref) fetched

/-- What closed between the two readings of the clock is stored, where the
window that is read has a bar before it. -/
def NewlyClosedStored (ref : RefData) (sh : Shared) (w : Worker) : Prop :=
  ∀ r ∈ w.reading, NoHole ref sh.db r.1.series (r.1.readStart ref r.2.1 r.2.2)
    (r.1.newest ref + 1) (lastClosedBar r.2.2 (ref.period r.1.series)) []

/-- **The condition on a live window's own steps.** -/
def KeepsWhole (ref : RefData) (sh : Shared) (w : Worker) (a : Reply) : Prop :=
  FreshWindowWhole ref sh w ∧ AnswerFills ref sh w a ∧ NewlyClosedStored ref sh w

instance (ref : RefData) (sh : Shared) (w : Worker) (a : Reply) :
    Decidable (KeepsWhole ref sh w a) :=
  inferInstanceAs (Decidable
    ((∀ win ∈ w.probing, _ → _) ∧
      (∀ f ∈ w.fetching, ∀ v ∈ a.answer, ∀ fetched ∈ (fetch v f.1.series _ f.2.1 _).toOption, _) ∧
      (∀ r ∈ w.reading, _)))

/-- **The condition on a step against another worker's live window.** An insert
into the stretch the window relies on leaves no boundary after it that is
neither stored nor about to be inserted by the window's own call. -/
def Undisturbed (ref : RefData) (sh : Shared) (w : Worker) (_ : Reply) (v : Worker) : Prop :=
  ∀ e ∈ w.nextInsert, ∀ srv ∈ v.serving ref, e.series = srv.series →
    srv.start ≤ e.bar.barTimestamp →
    ∀ u ∈ barStarts (e.bar.barTimestamp + 1) srv.newest (ref.period srv.series),
      sh.db.Stored srv.series u ∨ Fetched srv.todo u

instance (ref : RefData) (sh : Shared) (w : Worker) (a : Reply) (v : Worker) :
    Decidable (Undisturbed ref sh w a v) :=
  inferInstanceAs (Decidable (∀ e ∈ w.nextInsert, ∀ srv ∈ v.serving ref,
    e.series = srv.series → srv.start ≤ e.bar.barTimestamp → _))

/-! ## The assertion of a worker -/

/-- A frame is whole: it has every boundary from each of its bars to the newest
closed bar, and the forming bar where that was asked for. -/
def FrameWhole (ref : RefData) (s : Series) (includeForming : Bool) (moment : ℤ)
    (bars : List OhlcvBar) : Prop :=
  (∀ o ∈ bars, ∀ u ∈ barStarts o.barTimestamp (lastClosedBar moment (ref.period s)) (ref.period s),
    Fetched bars u) ∧
  (includeForming = true → Fetched bars (floorToPeriod moment (ref.period s)))

/-- What a worker relies on for its live window. -/
structure Whole (ref : RefData) (sh : Shared) (w : Worker) : Prop where
  /-- The second reading of the clock is not before the first. -/
  later : ∀ r ∈ w.firstReading, r.1 ≤ r.2.getD sh.clock
  /-- Every boundary of the window that is not stored is being fetched. -/
  gaps : ∀ f ∈ w.fetching, ∀ u ∈ barStarts (f.1.start ref) (f.1.newest ref)
    (ref.period f.1.series), sh.db.Stored f.1.series u ∨ u ∈ f.2.1 :: f.2.2
  /-- The stretch relied on has no hole, once the call has made its inserts. -/
  holeFree : ∀ srv ∈ w.serving ref, Grid.HoleFree (ref.period srv.series).length
    (fun t => sh.db.Stored srv.series t ∨ Fetched srv.todo t) srv.start srv.newest
  /-- The frame is whole. -/
  frame : ∀ f ∈ w.frame, FrameWhole ref f.1 f.2.1 f.2.2.1 f.2.2.2

/-- A worker that does nothing for a live window relies on nothing. -/
theorem whole_of_idle (h1 : w.firstReading = none) (h2 : w.fetching = none)
    (h3 : w.serving ref = none) (h4 : w.frame = none) : Whole ref sh w where
  later _ h := absurd (h1 ▸ h) (by simp)
  gaps _ h := absurd (h2 ▸ h) (by simp)
  holeFree _ h := absurd (h3 ▸ h) (by simp)
  frame _ h := absurd (h4 ▸ h) (by simp)

/-- From nothing that was fetched no bar can come. -/
theorem fetched_nil {t : ℤ} : ¬ Fetched [] t := List.not_mem_nil

/-- A window without a hole newer than its oldest stored bar has no hole. -/
theorem NoHole.holeFree {db : PriceBar} {s : Series} {lo hi : ℤ} {bars : List OhlcvBar}
    (h : NoHole ref db s lo lo hi bars) :
    ∀ o u, db.Stored s o → lo ≤ o → o < u → u ≤ hi → (ref.period s).length ∣ u →
      db.Stored s u ∨ Fetched bars u := by
  intro o u ho h1 h2 h3 hu
  obtain ⟨b, hb, rfl⟩ := PriceBar.stored_iff_mem_getBars.mpr
    ⟨ho, h1, (le_of_lt h2).trans h3⟩
  exact h u (mem_barStarts.mpr ⟨h1.trans (le_of_lt h2), h3, hu⟩) ⟨b, hb, h2⟩

/-! ## One step of the worker itself -/

/-- A call that has failed promises nothing about its window. -/
theorem whole_fail (k : Caller) (e : BarError) : Whole ref sh (k.fail e) := by
  cases k <;> exact whole_of_idle rfl rfl rfl rfl

/-- A call that enters `ensure_fresh` has read the clock. -/
theorem whole_enter (k : Caller) (s : Series) (lookback : ℤ) (now : Option ℤ)
    (hk : ∀ n f, k = .loadWindow n f → n = now) :
    Whole ref sh (k.enter s lookback (now.getD sh.clock)) := by
  unfold Caller.enter
  split
  · exact whole_fail k _
  · cases k with
    | direct => exact whole_of_idle rfl rfl rfl rfl
    | sync => exact whole_of_idle rfl rfl rfl rfl
    | loadWindow n f =>
      obtain rfl := hk n f rfl
      exact ⟨fun r hr => by obtain rfl := Option.some.inj hr; exact le_refl _,
        fun _ h => absurd h (by simp [Worker.fetching]),
        fun _ h => absurd h (by simp [Worker.serving]),
        fun _ h => absurd h (by simp [Worker.frame])⟩

/-- A live window whose stretch has no hole can go on to its read. -/
theorem whole_resume (k : Caller) (w : Window)
    (hlater : ∀ n f, k = .loadWindow n f → w.now ≤ n.getD sh.clock)
    (hfree : ∀ n f, k = .loadWindow n f → Grid.HoleFree (ref.period w.series).length
      (sh.db.Stored w.series) (w.start ref) (w.newest ref)) :
    Whole ref sh (k.resume w) := by
  cases k with
  | direct => exact whole_of_idle rfl rfl rfl rfl
  | sync => exact whole_of_idle rfl rfl rfl rfl
  | loadWindow n f =>
    refine ⟨fun r hr => ?_, fun _ h => absurd h (by simp [Caller.resume, Worker.fetching]),
      fun srv hsrv => ?_, fun _ h => absurd h (by simp [Caller.resume, Worker.frame])⟩
    · obtain rfl := Option.some.inj hr
      exact hlater n f rfl
    · obtain rfl := Option.some.inj hsrv
      exact (hfree n f rfl).congr (fun t => (or_iff_left fetched_nil).symm)

/-- A call that has just been made promises nothing yet, as it has not looked at the table. -/
theorem whole_workCall (c : Call) : Whole ref sh (workCall ref sh.clock c) := by
  cases c with
  | ensureFresh s lookback now =>
    exact whole_enter _ _ _ _ (fun n f h => absurd h (by simp))
  | sync => exact whole_of_idle rfl rfl rfl rfl
  | loadWindow s lookback now includeForming =>
    exact whole_enter _ _ _ _ (fun n f h => (Caller.loadWindow.inj h).1.symm)
  | backfill s start stop now =>
    unfold workCall
    simp only
    split <;> exact whole_of_idle rfl rfl rfl rfl

/-- Nor does a pass over a list of instruments, between two of them. -/
theorem whole_workSync (seen rest : List (String × ℕ)) (tmIntervalId : ℕ) (lookback : ℤ)
    (now : Option ℤ) : Whole ref sh (workSync sh.clock seen rest tmIntervalId lookback now) := by
  unfold workSync
  split
  · exact whole_of_idle rfl rfl rfl rfl
  · split
    · exact whole_of_idle rfl rfl rfl rfl
    · exact whole_enter _ _ _ _ (fun n f h => absurd h (by simp))

/-- The probe passes over a fresh window only if it is whole. -/
theorem whole_workCoverage {k : Caller} {w : Window} (hw : Whole ref sh (.coverage k w))
    (hg : FreshWindowWhole ref sh (.coverage k w)) : Whole ref sh (workCoverage ref sh.db k w) := by
  unfold workCoverage
  split
  · rename_i hfresh
    refine whole_resume k w (fun n f hk => ?_) (fun n f hk => ?_)
    · subst hk
      exact hw.later _ rfl
    · subst hk
      intro o u ho h1 h2 h3 hu
      exact (or_iff_left fetched_nil).mp ((hg w rfl hfresh).holeFree o u ho h1 h2 h3 hu)
  · cases k with
    | direct => exact whole_of_idle rfl rfl rfl rfl
    | sync => exact whole_of_idle rfl rfl rfl rfl
    | loadWindow n f =>
      exact ⟨fun r hr => by obtain rfl := Option.some.inj hr; exact hw.later _ rfl,
        fun _ h => absurd h (by simp [Worker.fetching]),
        fun _ h => absurd h (by simp [Worker.serving]),
        fun _ h => absurd h (by simp [Worker.frame])⟩

/-- The gap check finds the whole of what is missing. -/
theorem whole_workGaps {k : Caller} {w : Window} (hw : Whole ref sh (.gaps k w)) :
    Whole ref sh (workGaps ref sh.db k w) := by
  unfold workGaps
  split
  · rename_i hnil
    refine whole_resume k w (fun n f hk => ?_) (fun n f hk => ?_)
    · subst hk
      exact hw.later _ rfl
    · refine Grid.HoleFree.of_full (fun u h1 h2 hu => ?_)
      by_contra hns
      exact List.not_mem_nil (hnil ▸ mem_findGaps.mpr ⟨h1, h2, hu, hns⟩)
  · rename_i first rest hgaps
    cases k with
    | direct => exact whole_of_idle rfl rfl rfl rfl
    | sync => exact whole_of_idle rfl rfl rfl rfl
    | loadWindow n f =>
      refine ⟨fun r hr => by obtain rfl := Option.some.inj hr; exact hw.later _ rfl,
        fun m hm u hu => ?_, fun _ h => absurd h (by simp [Worker.serving]),
        fun _ h => absurd h (by simp [Worker.frame])⟩
      obtain rfl := Option.some.inj hm
      obtain ⟨h1, h2, h3⟩ := mem_barStarts.mp hu
      by_cases hns : sh.db.Stored w.series u
      · exact Or.inl hns
      · exact Or.inr (hgaps ▸ mem_findGaps.mpr ⟨h1, h2, h3, hns⟩)

/-- **What the fetch brings closes the window.** A boundary newer than a bar
that was fetched is fetched too, or the check refuses; a boundary newer than a
stored bar is fetched by the condition. -/
theorem whole_workFetch {k : Caller} {w : Window} {first : ℤ} {rest : List ℤ} {v : VenueReply}
    (hw : Whole ref sh (.fetch k w first rest))
    (hg : AnswerFills ref sh (.fetch k w first rest) (.venue v)) :
    Whole ref sh (workFetch ref v k w first rest) := by
  unfold workFetch
  split
  · exact whole_fail k _
  · rename_i fetched hfetch
    split
    · exact whole_fail k _
    · rename_i hok
      cases k with
      | direct => exact whole_of_idle rfl rfl rfl rfl
      | sync => exact whole_of_idle rfl rfl rfl rfl
      | loadWindow n f =>
        refine ⟨fun r hr => by obtain rfl := Option.some.inj hr; exact hw.later _ rfl,
          fun _ h => absurd h (by simp [Worker.fetching]), fun srv hsrv => ?_,
          fun _ h => absurd h (by simp [Worker.frame])⟩
        obtain rfl := Option.some.inj hsrv
        have hmissing := hw.gaps (w, first, rest) rfl
        have hfills := (hg (w, first, rest) rfl v rfl fetched
          (by simp only [hfetch]; rfl)).holeFree
        obtain ⟨hnew, -⟩ := rejectIncomplete_ok hok
        intro o u ho h1 h2 h3 hu
        by_cases hns : sh.db.Stored w.series u
        · exact Or.inl hns
        have hmem : u ∈ first :: rest :=
          (hmissing u (mem_barStarts.mpr ⟨h1.trans (le_of_lt h2), h3, hu⟩)).resolve_left hns
        rcases ho with ho | ho
        · have hf := (hfills o u ho h1 h2 h3 hu).resolve_left hns
          exact Or.inr (mem_toStore.mpr ⟨hmem, hf⟩)
        · exact Or.inr (mem_toStore.mpr ⟨hmem, hnew u hmem o (mem_toStore.mp ho).2 h2⟩)

/-- An insert of the call itself moves a bar from what is to come to what is
stored. -/
theorem whole_insert {k : Caller} {w : Window} {b : OhlcvBar} {todo : List OhlcvBar}
    (hw : Whole ref sh (.insert k w (b :: todo)))
    (heff : Insertion.Effect ⟨w.series, b, w.now⟩ sh sh') : Whole ref sh' (.insert k w todo) := by
  obtain ⟨hclock, hst, -⟩ := heff
  cases k with
  | direct => exact whole_of_idle rfl rfl rfl rfl
  | sync => exact whole_of_idle rfl rfl rfl rfl
  | loadWindow n f =>
    refine ⟨fun r hr => ?_, fun _ h => absurd h (by simp [Worker.fetching]), fun srv hsrv => ?_,
      fun _ h => absurd h (by simp [Worker.frame])⟩
    · obtain rfl := Option.some.inj hr
      rw [hclock]
      exact hw.later _ rfl
    · obtain rfl := Option.some.inj hsrv
      refine (hw.holeFree _ rfl).congr (fun t => ?_)
      simp only [hst, Fetched, List.map_cons, List.mem_cons, true_and]
      tauto

/-- The second reading of the clock can only narrow the window at its old
end. -/
theorem whole_clock {w : Window} {now : Option ℤ} {includeForming : Bool}
    (hw : Whole ref sh (.clock w now includeForming)) :
    Whole ref sh (.read w includeForming (now.getD sh.clock)) := by
  refine ⟨fun _ h => absurd h (by simp [Worker.firstReading]),
    fun _ h => absurd h (by simp [Worker.fetching]), fun srv hsrv => ?_,
    fun _ h => absurd h (by simp [Worker.frame])⟩
  obtain rfl := Option.some.inj hsrv
  refine (hw.holeFree _ rfl).narrow ?_ (le_refl _)
  have hmono : lastClosedBar w.now (ref.period w.series) ≤
      lastClosedBar (now.getD sh.clock) (ref.period w.series) :=
    lastClosedBar_mono (hw.later _ rfl)
  have hslots : closedSlots w.lookback includeForming ≤ w.lookback := by
    unfold closedSlots
    split <;> omega
  have hmul := Int.mul_le_mul_of_nonneg_left (Int.sub_le_sub_right hslots 1)
    (le_of_lt (ref.period w.series).pos)
  show w.start ref ≤ w.readStart ref includeForming (now.getD sh.clock)
  unfold Window.start Window.readStart Window.newest windowStart
  omega

/-- A window whose frame is whole is served whole. -/
theorem whole_serve {w : Window} {includeForming : Bool} {moment : ℤ} {bars : List OhlcvBar}
    (h : FrameWhole ref w.series includeForming moment bars) :
    Whole ref sh (serve w includeForming moment bars) := by
  unfold serve requireCoverage
  simp only
  split
  · exact whole_of_idle rfl rfl rfl rfl
  · rename_i bars' hbars
    split at hbars
    · exact absurd hbars (by simp)
    · obtain rfl := Except.ok.inj hbars
      refine ⟨fun _ h => absurd h (by simp [Worker.firstReading]),
        fun _ h => absurd h (by simp [Worker.fetching]),
        fun _ h => absurd h (by simp [Worker.serving]), fun f hf => ?_⟩
      obtain rfl := Option.some.inj hf
      exact h

/-- **The bars read are whole.** Up to the newest bar of the first reading by
the assertion, past it by the condition. -/
theorem frameWhole_readClosed {w : Window} {includeForming : Bool} {moment : ℤ}
    (hw : Whole ref sh (.read w includeForming moment))
    (hg : NewlyClosedStored ref sh (.read w includeForming moment)) :
    FrameWhole ref w.series false moment
      (readClosed (ref.period w.series) sh.db w.series w.lookback includeForming moment) := by
  refine ⟨fun o ho u hu => ?_, fun h => absurd h (by simp)⟩
  unfold readClosed at ho ⊢
  simp only at ho ⊢
  split at ho
  · rename_i hslots
    rw [if_pos hslots]
    obtain ⟨hob, h1, -⟩ := PriceBar.mem_getBars.mp ho
    obtain ⟨h3, h4, h5⟩ := mem_barStarts.mp hu
    refine List.mem_map.mpr (PriceBar.stored_iff_mem_getBars.mpr ⟨?_, h1.trans h3, h4⟩)
    have hos : sh.db.Stored w.series o.barTimestamp := PriceBar.stored_iff_mem_bars.mpr ⟨o, hob, rfl⟩
    rcases eq_or_lt_of_le h3 with rfl | hlt
    · exact hos
    · by_cases hnew : u ≤ w.newest ref
      · exact (or_iff_left fetched_nil).mp
          (hw.holeFree _ rfl _ u (Or.inl hos) h1 hlt hnew h5)
      · refine (or_iff_left fetched_nil).mp (hg _ rfl u
          (mem_barStarts.mpr ⟨by simp only; omega, h4, h5⟩) ⟨o, ?_, hlt⟩)
        exact PriceBar.mem_getBars.mpr ⟨hob, h1, (le_of_lt hlt).trans h4⟩
  · exact absurd ho List.not_mem_nil

/-- **A read returns a whole window** from one that was completed, if the bars that have closed
since then are stored: the rows that it reads have all boundaries, and the newest ones are the
newest that there are. -/
theorem whole_workRead {w : Window} {includeForming : Bool} {moment : ℤ}
    (hw : Whole ref sh (.read w includeForming moment))
    (hg : NewlyClosedStored ref sh (.read w includeForming moment)) :
    Whole ref sh (workRead ref sh.db w includeForming moment) := by
  have hframe := frameWhole_readClosed hw hg
  unfold workRead
  simp only
  split
  · refine ⟨fun _ h => absurd h (by simp [Worker.firstReading]),
      fun _ h => absurd h (by simp [Worker.fetching]),
      fun _ h => absurd h (by simp [Worker.serving]), fun f hf => ?_⟩
    obtain rfl := Option.some.inj hf
    exact hframe
  · rename_i hno
    obtain rfl := Bool.not_eq_true _ ▸ hno
    exact whole_serve hframe

/-- The forming bar comes after every closed one. -/
theorem whole_workForming {v : VenueReply} {w : Window} {moment : ℤ} {bars : List OhlcvBar}
    (hw : Whole ref sh (.forming w moment bars)) :
    Whole ref sh (workForming ref v w moment bars) := by
  unfold workForming
  split
  · exact whole_of_idle rfl rfl rfl rfl
  · rename_i frame happ
    refine whole_serve ?_
    obtain ⟨hclosed, -⟩ := hw.frame _ rfl
    unfold appendForming at happ
    split at happ
    · exact absurd happ (by simp)
    · split at happ
      · exact absurd happ (by simp)
      · rename_i bar hget
        obtain rfl := Except.ok.inj happ
        have hmem : ∀ t, Fetched ((bars ++ [bar]).insertionSort
            (fun a b => a.barTimestamp ≤ b.barTimestamp)) t
            ↔ Fetched bars t ∨ t = bar.barTimestamp := fun t => by
          rw [Fetched, ((List.perm_insertionSort _ _).map OhlcvBar.barTimestamp).mem_iff,
            List.map_append, List.mem_append, List.map_singleton, List.mem_singleton]
          rfl
        have hbar := fetchedGet_some hget
        refine ⟨fun o ho u hu => (hmem u).mpr ?_, fun _ => (hmem _).mpr (Or.inr hbar.symm)⟩
        rw [List.mem_insertionSort, List.mem_append, List.mem_singleton] at ho
        rcases ho with ho | rfl
        · exact Or.inl (hclosed o ho u hu)
        · -- no closed boundary is at or after the forming one
          obtain ⟨h1, h2, -⟩ := mem_barStarts.mp hu
          have hp := (ref.period w.series).pos
          unfold lastClosedBar at h2
          omega

/-- **One step of a worker keeps its live window whole**, under the conditions. The conditions are
on what the step reads and on the answer that it takes in, not on what the call returns. -/
theorem Whole.step (hw : Whole ref sh w) (hg : KeepsWhole ref sh w a)
    (h : work ref sh w a = some (sh', w')) : Whole ref sh' w' := by
  obtain ⟨hg1, hg2, hg3⟩ := hg
  unfold work at h
  split at h
  all_goals first
    | obtain ⟨rfl, rfl⟩ := Prod.mk.inj (Option.some.inj h)
    | skip
  · exact whole_workCall _
  · exact whole_workSync _ _ _ _ _
  · exact whole_workCoverage hw hg1
  · exact whole_workGaps hw
  · exact whole_workFetch hw hg2
  · rename_i k w
    refine whole_resume k w (fun n f hk => ?_) (fun n f hk => ?_)
    · subst hk
      exact hw.later _ rfl
    · subst hk
      exact (hw.holeFree _ rfl).congr (fun t => or_iff_left fetched_nil)
  · rename_i k w b todo
    obtain ⟨stored, sh₁, hins, heff⟩ := sh.insert_spec w.series w.now b
    simp only [hins] at h
    obtain ⟨rfl, rfl⟩ := Prod.mk.inj (Option.some.inj h)
    exact whole_insert hw heff
  · exact whole_clock hw
  · exact whole_workRead hw hg3
  · exact whole_workForming hw
  · unfold workBackfillGaps
    split <;> exact whole_of_idle rfl rfl rfl rfl
  · unfold workBackfillFetch
    split <;> exact whole_of_idle rfl rfl rfl rfl
  · exact whole_of_idle rfl rfl rfl rfl
  · split at h
    · obtain ⟨-, rfl⟩ := Prod.mk.inj (Option.some.inj h)
      exact whole_of_idle rfl rfl rfl rfl
    · obtain ⟨-, rfl⟩ := Prod.mk.inj (Option.some.inj h)
      exact whole_of_idle rfl rfl rfl rfl
  · exact whole_fail _ _
  · exact whole_fail _ _
  · split at h
    · exact absurd h (by simp)
    · obtain ⟨rfl, rfl⟩ := Prod.mk.inj (Option.some.inj h)
      exact whole_fail _ _
  · exact whole_of_idle rfl rfl rfl rfl
  · exact whole_of_idle rfl rfl rfl rfl
  · split at h
    · exact absurd h (by simp)
    · obtain ⟨-, rfl⟩ := Prod.mk.inj (Option.some.inj h)
      exact whole_of_idle rfl rfl rfl rfl
  · exact absurd h (by simp)

/-! ## Steps of others -/

/-- A step of another worker that meets the condition does not disturb a live
window: the table only grows, and grows without leaving a hole in the stretch
the window relies on. -/
theorem Whole.undisturbed {v : Worker} (hv : Whole ref sh v) (hg : Undisturbed ref sh w a v)
    (h : work ref sh w a = some (sh', w')) : Whole ref sh' v := by
  rcases work_shared h with rfl | ⟨e, he, hclock, hst, -⟩
  · exact hv
  · refine ⟨fun r hr => ?_, fun f hf u hu => ?_, fun srv hsrv => ?_, hv.frame⟩
    · rw [hclock]
      exact hv.later r hr
    · exact (hv.gaps f hf u hu).imp_left (fun hs => (hst _ _).mpr (Or.inl hs))
    · by_cases hser : e.series = srv.series
      · have hins := (hv.holeFree srv hsrv).insert (t := e.bar.barTimestamp)
          (fun hlo u hlt hhi hu => Or.inl (hg e he srv hsrv hser hlo u
            (mem_barStarts.mpr ⟨by omega, hhi, hu⟩)))
        refine hins.congr (fun t => ?_)
        rw [hst, ← hser]
        tauto
      · refine (hv.holeFree srv hsrv).congr (fun t => or_congr_left ?_)
        rw [hst]
        exact (or_iff_left (fun hs => hser hs.1.symm)).symm

/-- The clock moving on disturbs nothing. -/
theorem Whole.tick {d : ℕ} (hv : Whole ref sh w) :
    Whole ref { sh with clock := sh.clock + d } w := by
  refine ⟨fun r hr => ?_, hv.gaps, hv.holeFree, hv.frame⟩
  have hr' := hv.later r hr
  cases hr2 : r.2 with
  | none =>
    rw [hr2] at hr'
    simp only [Option.getD_none] at hr' ⊢
    omega
  | some t =>
    rw [hr2] at hr'
    exact hr'

/-- **A live window that is returned has no hole.** In every run of interleaved
calls from an empty table whose steps meet the conditions, a window that
`load_window` returned has every bar boundary from its oldest bar to the newest
closed bar at the second reading of the clock, and the forming bar when it was
asked for. -/
theorem returned_window_whole {p : PoolState Shared Worker}
    (hp : (barPool ref).machine.Reach
      (Pool.Guard (KeepsWhole ref) (Undisturbed ref)) p) {w : Window} {includeForming : Bool}
    {moment : ℤ} {bars : List OhlcvBar}
    (hw : .returned w includeForming moment bars ∈ p.workers) :
    (∀ o ∈ bars, ∀ u, (ref.period w.series).length ∣ u → o.barTimestamp ≤ u →
      u ≤ lastClosedBar moment (ref.period w.series) → Fetched bars u) ∧
    (includeForming = true → Fetched bars (floorToPeriod moment (ref.period w.series))) := by
  have hinv := Pool.invariant (I := fun _ => True) (L := Whole ref) hp
    (fun _ _ => trivial)
    (fun _ _ _ _ _ h => Option.some.inj h ▸ whole_of_idle rfl rfl rfl rfl)
    (fun sh d sh' _ h => by
      obtain rfl := Option.some.inj h
      exact ⟨trivial, fun _ hw => hw.tick⟩)
    (fun sh w a sh' w' _ hw hg h => ⟨trivial, hw.step hg h⟩)
    (fun sh w a sh' w' v _ _ hv _ hg h => hv.undisturbed hg h)
  obtain ⟨h1, h2⟩ := (hinv.2 _ hw).frame _ rfl
  exact ⟨fun o ho u hu hlo hhi => h1 o ho u (mem_barStarts.mpr ⟨hlo, hhi, hu⟩), h2⟩

/-! ## A hole that is served -/

/-- Half a minute into the minute after the first six, with nothing stored. -/
def halfPastSix : PoolState Shared Worker := ⟨⟨minute 6 + 30000000, .empty, []⟩, []⟩

/-- A worker has returned a window that lacks a boundary after one of its
bars. -/
def Worker.returnedHole (ref : RefData) : Worker → Bool
  | .returned w _ moment bars =>
      bars.any (fun o => (barStarts o.barTimestamp (lastClosedBar moment (ref.period w.series))
        (ref.period w.series)).any (fun u => ¬ Fetched bars u))
  | _ => false

/-- A hole is a boundary inside the window that is closed and that no returned bar has. The test
finds one where there is one, and is what the counterexamples are checked with. -/
theorem Worker.returnedHole_spec {w : Worker} (h : w.returnedHole ref = true) :
    ∃ win includeForming moment bars, w = .returned win includeForming moment bars ∧
      ∃ o ∈ bars, ∃ u, (ref.period win.series).length ∣ u ∧ o.barTimestamp ≤ u ∧
        u ≤ lastClosedBar moment (ref.period win.series) ∧ ¬ Fetched bars u := by
  unfold Worker.returnedHole at h
  split at h
  · obtain ⟨o, ho, h⟩ := List.any_eq_true.mp h
    obtain ⟨u, hu, h⟩ := List.any_eq_true.mp h
    obtain ⟨h1, h2, h3⟩ := mem_barStarts.mp hu
    exact ⟨_, _, _, _, rfl, o, ho, u, h3, h1, h2, of_decide_eq_true h⟩
  · exact absurd h (by simp)

/-- **A live window is served with a hole.** A repair of five bars for which
the exchange omits the middle one leaves the newest bar stored; a live window of
the same five returns early over the hole, passes the coverage check with four
bars, and is served. -/
theorem window_served_over_hole :
    ¬ ∀ (ref : RefData) (p : PoolState Shared Worker),
      (barPool ref).machine.Reach (fun _ _ => True) p →
      ∀ w includeForming moment bars, .returned w includeForming moment bars ∈ p.workers →
        (∀ o ∈ bars, ∀ u, (ref.period w.series).length ∣ u → o.barTimestamp ≤ u →
          u ≤ lastClosedBar moment (ref.period w.series) → Fetched bars u) ∧
        (includeForming = true → Fetched bars (floorToPeriod moment (ref.period w.series))) := by
  intro h
  obtain ⟨p, hp, hbad⟩ := Machine.Reach.exists_of_runs
    (M := (barPool minuteRef).machine) (G := fun _ _ => True) (s := halfPastSix) ⟨⟨rfl, rfl⟩, rfl⟩
    [.spawn (.backfill minuteSeries (minute 1) none none),
      .work 0 .proceed, .work 0 .proceed, .work 0 (.venue (minuteVenue [1, 2, 4, 5])),
      .work 0 .proceed, .work 0 .proceed, .work 0 .proceed, .work 0 .proceed, .work 0 .proceed,
      .spawn (.loadWindow minuteSeries 5 none false),
      .work 1 .proceed, .work 1 .proceed, .work 1 .proceed, .work 1 .proceed]
    (P := fun p => p.workers.any (Worker.returnedHole minuteRef)) (by decide +kernel)
  obtain ⟨w, hw, hhole⟩ := List.any_eq_true.mp hbad
  obtain ⟨win, f, moment, bars, rfl, o, ho, u, h1, h2, h3, h4⟩ := Worker.returnedHole_spec hhole
  exact h4 ((h minuteRef p hp win f moment bars hw).1 o ho u h1 h2 h3)

/-- A live window with the forming candle, next to a longer `ensure_fresh` whose
inserts fall between its own, meets the conditions and is served whole. -/
theorem window_served_whole :
    ∃ p w moment bars, (barPool minuteRef).machine.Reach
        (Pool.Guard (KeepsWhole minuteRef) (Undisturbed minuteRef)) p ∧
      .returned w true moment bars ∈ p.workers ∧
      (∀ o ∈ bars, ∀ u, (minuteRef.period w.series).length ∣ u → o.barTimestamp ≤ u →
        u ≤ lastClosedBar moment (minuteRef.period w.series) → Fetched bars u) ∧
      Fetched bars (floorToPeriod moment (minuteRef.period w.series)) := by
  obtain ⟨p, hp, hret⟩ := Machine.Reach.exists_of_runs
    (M := (barPool minuteRef).machine)
    (G := Pool.Guard (KeepsWhole minuteRef) (Undisturbed minuteRef))
    (s := halfPastSix) ⟨⟨rfl, rfl⟩, rfl⟩
    [.spawn (.loadWindow minuteSeries 3 none true), .spawn (.ensureFresh minuteSeries 4 none),
      .work 0 .proceed, .work 0 .proceed, .work 0 .proceed,
      .work 1 .proceed, .work 1 .proceed, .work 1 .proceed,
      .work 0 (.venue (minuteVenue [2, 3, 4, 5])), .work 1 (.venue (minuteVenue [2, 3, 4, 5])),
      .work 1 .proceed, .work 1 .proceed, .work 0 .proceed, .work 0 .proceed, .work 0 .proceed,
      .crash 1, .work 0 .proceed, .work 0 .proceed, .work 0 .proceed,
      .work 0 (.venue (minuteVenue [6]))]
    (P := fun p => p.workers.any (fun w => match w with | .returned _ f _ _ => f | _ => false))
    (by decide +kernel)
  obtain ⟨w, hw, hret⟩ := List.any_eq_true.mp hret
  split at hret
  · rename_i win f moment bars
    obtain rfl : f = true := hret
    exact ⟨p, win, moment, bars, hp, hw, (returned_window_whole hp hw).1,
      (returned_window_whole hp hw).2 rfl⟩
  · exact absurd hret (by simp)
