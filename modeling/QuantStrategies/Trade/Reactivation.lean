import QuantStrategies.Lib.Result
import QuantStrategies.Lib.Transition
import QuantStrategies.Trade.Deployment

/-!
# Turning a deployment on again

A deployment that is off is not due, but its cursor stays where it was. An update
that turns it on should move the cursor ahead of the time of the update, or every
slot that went by meanwhile is applied for at once. An update moves it when
`shouldRealignSchedule` says so, and that looks at some of the ways of turning a
deployment on.

Calls follow one another here, each with its writes, and every write goes through: a
version is committed, and so is the schedule row that is nested in it. What a call that
is cut short leaves behind, and what calls do that overlap, is the pool's business
(`deploymentPool`), in which a version can be committed without its schedule row. Here
the cursor is only ever left where it was because a call did not ask for it to be moved.

The guard on an update is a condition on the row that it finds and on the request, so it can
be checked before the update is made. It leaves out the updates that turn a deployment on in
a way that `shouldRealignSchedule` does not look at, with a cursor that is behind.
-/

open Result

/-! ## Slots ahead -/

/-- The slot that is seeded is ahead of the time it is seeded at. On a listed daily
session, the clock must not be set back before the slot by as much as the slot is
away. -/
def StaysAhead (c : Schedule) (now : ℤ) : Prop :=
  match c.market with
  | .continuous => True
  | .session closeTime zone => dayLength ≤ c.period.length →
      let slot := sessionCandidate closeTime c.offset
        (nextWeekday ((zone.wall now - closeTime.micros + c.offset) / dayLength + 1))
      zone.wallOffset slot - zone.utcOffset now < slot - zone.wall now

/-- A slot that is computed is to come, so a schedule that is seeded is ahead. -/
theorem lt_nextApplySlot {after s offset : ℤ} {period : Period}
    (h : nextApplySlot after period offset = .ok s) : after < s := by
  rw [nextApplySlot] at h
  split at h
  · cases h
  · next hoffset =>
    rw [not_not] at hoffset
    have hfloor : after < floorToPeriod after period + period.length :=
      Grid.lt_floor_add period.pos after
    dsimp only at h
    split at h
    · next hlt =>
      cases h
      exact hlt
    · cases h
      omega

/-- The first slot of a schedule is ahead exactly when the market's calendar leaves one, which is
a condition on the schedule and the clock. -/
theorem lt_computeInitial_iff {c : Schedule} {now s : ℤ}
    (h : computeInitialScheduledTs c now = .ok s) : now < s ↔ StaysAhead c now := by
  rw [computeInitialScheduledTs] at h
  rw [StaysAhead]
  cases hm : c.market with
  | continuous =>
    rw [hm] at h
    exact iff_of_true (lt_nextApplySlot h) trivial
  | session closeTime zone =>
    rw [hm] at h
    dsimp only at h ⊢
    split at h
    · next hday =>
      rw [nextSessionApplySlot] at h
      split at h
      · cases h
      · next hoffset =>
        dsimp only at h
        split at h
        · cases h
        · next day hloop =>
          cases h
          rw [sessionLoop_ten (not_lt.mp hoffset)] at hloop
          rw [← hloop.1, Zone.toUtc, Zone.wall]
          constructor
          · intro hlt _
            omega
          · intro hlt
            have := hlt hday
            omega
    · next hday => exact iff_of_true (lt_nextApplySlot h) fun hle => absurd hle hday

/-! ## Calls, one after the other -/

/-- What `SP_GET_MISSED_DUE_DEPLOYMENTS` asks of a deployment besides the time. -/
def eligible (s : DeploymentState) : Bool :=
  match s.deployments.head?, s.schedule.head? with
  | some d, some ss => !d.isClosed && d.scheduleTmIntervalId.isSome && ss.status = .pending
  | _, _ => false

/-- The logs, when an update last turned the deployment on, and the slots that it was
applied for, each with that time. The last two are no tables: no program reads them. -/
structure Life where
  /-- The logs and the clock. -/
  state : DeploymentState
  /-- When an update has last turned the deployment on. -/
  onSince : Option ℤ
  /-- The slots that it was applied for, and since when it was on. -/
  fired : List (ℤ × Option ℤ)
deriving DecidableEq

/-- A call that ends before the next one starts. A sweep applies the deployment, if it
is due, and advances it, or pauses it where the apply fails. -/
inductive LifeAct where
  | tick (d : ℕ)
  | create (d : DeploymentRow)
  | update (appUserId : ℕ) (req : UpdateDeploymentRequest)
  | stop (appUserId : ℕ)
  | applied (tmIntervalId : ℕ)
  | failed (tmIntervalId : ℕ)

variable (ref : TradeRefData)

/-- `create_deployment`. -/
def created (s : DeploymentState) (d : DeploymentRow) : DeploymentState :=
  match planCreate ref s.clock d with
  | .error _ => s
  | .ok ts =>
    if s.deployments.head?.any (fun current => current.terms.appUserId ≠ d.terms.appUserId) then s
    else spInsDeployment s d createAsked ts true

/-- `update_deployment`. -/
def updated (s : DeploymentState) (appUserId : ℕ) (req : UpdateDeploymentRequest) :
    DeploymentState :=
  match getDeployment s appUserId with
  | none => s
  | some current =>
    match planUpdate ref s.clock current.toDeploymentRow req with
    | .error _ => s
    | .ok (row, ts) => spInsDeployment s row (req.asked current.toDeploymentRow) ts true

/-- `stop_deployment`. -/
def stopped (s : DeploymentState) (appUserId : ℕ) : DeploymentState :=
  match getDeployment s appUserId with
  | none => s
  | some current =>
    if current.deploymentStatus = .stopped then s
    else spInsDeployment s (stoppedRow current.toDeploymentRow) stopAsked none true

/-- One call, or time passing. -/
def lifeStep (l : Life) : LifeAct → Option Life
  | .tick d => some { l with state := { l.state with clock := l.state.clock + d } }
  | .create d => some { l with state := created ref l.state d, onSince := none }
  | .update appUserId req =>
    let s := updated ref l.state appUserId req
    some { l with
      state := s
      onSince := if eligible s && !eligible l.state then some l.state.clock else l.onSince }
  | .stop appUserId => some { l with state := stopped l.state appUserId }
  | .applied tmIntervalId => (dueRow ref l.state tmIntervalId).map fun due =>
    { l with
      state := writeAdvance l.state due (.committed true true)
      fired := (due.schedule.scheduledTs, l.onSince) :: l.fired }
  | .failed tmIntervalId => (dueRow ref l.state tmIntervalId).map fun due =>
    { l with
      state := spInsDeployment l.state (pausedRow due.deployment.toDeploymentRow) pauseAsked none
        true
      fired := (due.schedule.scheduledTs, l.onSince) :: l.fired }

/-- A deployment from empty logs. -/
def life : Machine Life LifeAct where
  Init l := l.state.deployments = [] ∧ l.state.schedule = [] ∧ l.onSince = none ∧ l.fired = []
  step := lifeStep ref

/-- **When an update leaves the cursor ahead of its time**: it realigns the schedule, and
the clock is not set back before the slot; or it does not, and the cursor is ahead as it
is. -/
def FreshCursor (s : DeploymentState) (req : UpdateDeploymentRequest) : Prop :=
  ∃ d ∈ s.deployments.head?,
    (shouldRealignSchedule d.toDeploymentRow req = true ∧
      ∀ i ∈ req.scheduleTmIntervalId.getD d.scheduleTmIntervalId, ∀ period ∈ ref.period i,
        StaysAhead (ref.schedule d.terms i period) s.clock) ∨
    (shouldRealignSchedule d.toDeploymentRow req = false ∧
      ∃ ss ∈ s.schedule.head?, s.clock < ss.scheduledTs)

/-- The current schedule row is pending, for a time that is ahead. -/
def CursorAhead (s : DeploymentState) (now : ℤ) : Prop :=
  ∃ ss ∈ s.schedule.head?, ss.status = .pending ∧ now < ss.scheduledTs

variable {ref} {s : DeploymentState} {d : DeploymentRow} {asked : Asked} {ts : Option ℤ}

/-! ## What a version does to the schedule -/

/-- Every version is numbered from one. -/
def FromOne (s : DeploymentState) : Prop := ∀ d ∈ s.deployments, 1 ≤ d.deploymentVid

/-- Writing a version does not move the clock. -/
@[simp] theorem spInsDeployment_clock : (spInsDeployment s d asked ts true).clock = s.clock := by
  rw [spInsDeployment]
  split
  · rfl
  · rfl

/-- Only the first version of a deployment has the number one. -/
theorem nextDeploymentVid_ne_one (h : FromOne s) {c : Deployment}
    (hc : s.deployments.head? = some c) : nextDeploymentVid s.deployments ≠ 1 := by
  have hmem : c ∈ s.deployments := List.mem_of_mem_head? hc
  have hlt : c.deploymentVid < nextDeploymentVid s.deployments := Versioned.lt_nextVid hmem rfl
  have hone := h c hmem
  omega

/-- The schedule row that comes with a version. -/
theorem spInsDeployment_schedule {status : ScheduleStatus} {t : ℤ}
    (h : scheduleOf s (nextDeploymentVid s.deployments) d ts = some (status, t)) :
    (spInsDeployment s d asked ts true).schedule.head?
      = some ⟨nextScheduleVid s.schedule, nextDeploymentVid s.deployments, status, t⟩ := by
  rw [spInsDeployment, h]
  rfl

/-- **A version is eligible when it is open and scheduled.** -/
theorem eligible_spInsDeployment :
    eligible (spInsDeployment s d asked ts true)
      = (!d.isClosed && d.scheduleTmIntervalId.isSome) := by
  have hhead : (spInsDeployment s d asked ts true).deployments.head?
      = some ⟨d, nextDeploymentVid s.deployments, asked⟩ := by
    rw [spInsDeployment_deployments]
    rfl
  rw [eligible, hhead]
  cases hi : d.scheduleTmIntervalId with
  | none =>
    have hfalse : (!d.isClosed && (none : Option ℕ).isSome) = false := Bool.and_false _
    rw [hfalse]
    split
    · next ss heq _ =>
      cases heq
      show (!d.isClosed && d.scheduleTmIntervalId.isSome && _) = false
      rw [hi, hfalse]
      rfl
    · rfl
  | some i =>
    by_cases hone : nextDeploymentVid s.deployments = 1
    · have hof : scheduleOf s (nextDeploymentVid s.deployments) d ts
          = some (.pending, ts.getD s.clock) := by
        rw [scheduleOf, hi]
        exact if_pos hone
      rw [spInsDeployment_schedule hof]
      dsimp only
      rw [hi, Bool.and_assoc]
      rfl
    · have hof : scheduleOf s (nextDeploymentVid s.deployments) d ts
          = some (if d.isClosed then .success else .pending,
            ts.getD ((s.schedule.head?.map ScheduleRow.scheduledTs).getD s.clock)) := by
        rw [scheduleOf, hi]
        exact if_neg hone
      rw [spInsDeployment_schedule hof]
      dsimp only
      rw [hi]
      cases d.isClosed with
      | true => rfl
      | false => rfl

/-- An eligible version that is not the first is due at the cursor it seeds, or at the one
there was. -/
theorem cursorAhead_spInsDeployment {now : ℤ} (hopen : d.isClosed = false)
    (hsome : d.scheduleTmIntervalId.isSome = true)
    (hvid : nextDeploymentVid s.deployments ≠ 1) :
    CursorAhead (spInsDeployment s d asked ts true) now ↔
      now < ts.getD ((s.schedule.head?.map ScheduleRow.scheduledTs).getD s.clock) := by
  obtain ⟨i, hi⟩ := Option.isSome_iff_exists.mp hsome
  have hof : scheduleOf s (nextDeploymentVid s.deployments) d ts
      = some (.pending,
        ts.getD ((s.schedule.head?.map ScheduleRow.scheduledTs).getD s.clock)) := by
    rw [scheduleOf, hi]
    dsimp only
    rw [if_neg hvid, hopen]
    rfl
  rw [CursorAhead, spInsDeployment_schedule hof]
  constructor
  · rintro ⟨ss, hss, -, hlt⟩
    cases hss
    exact hlt
  · intro hlt
    exact ⟨_, rfl, rfl, hlt⟩

/-! ## An update -/

/-- What an update does: nothing, when it is refused, or it writes a version. -/
theorem updated_cases (ref : TradeRefData) (s : DeploymentState) (appUserId : ℕ)
    (req : UpdateDeploymentRequest) :
    updated ref s appUserId req = s ∨ ∃ current qty ts, s.deployments.head? = some current ∧
      updatedCursor ref s.clock current.toDeploymentRow req = .ok ts ∧
      updated ref s appUserId req = spInsDeployment s
        (updatedRow current.toDeploymentRow req qty) (req.asked current.toDeploymentRow) ts
        true := by
  rw [updated]
  split
  · exact .inl rfl
  · next current hget =>
    split
    · exact .inl rfl
    · next row ts hplan =>
      obtain ⟨_, _, hplan⟩ := bind_eq_ok.mp hplan
      obtain ⟨qty, _, hplan⟩ := bind_eq_ok.mp hplan
      obtain ⟨cursor, hcursor, hplan⟩ := bind_eq_ok.mp hplan
      cases hplan
      exact .inr ⟨current, qty, ts, (Option.filter_eq_some_iff.mp hget).1, hcursor, rfl⟩

/-- The cursor that an update seeds. -/
theorem updatedCursor_eq_ok {current : DeploymentRow} {req : UpdateDeploymentRequest} {now : ℤ}
    {i : ℕ} (hi : req.scheduleTmIntervalId.getD current.scheduleTmIntervalId = some i)
    (h : updatedCursor ref now current req = .ok ts) :
    (shouldRealignSchedule current req = true ∧ ∃ period t, ref.period i = some period ∧
      computeInitialScheduledTs (ref.schedule current.terms i period) now = .ok t ∧
      ts = some t) ∨
    (shouldRealignSchedule current req = false ∧ ts = none) := by
  rw [updatedCursor, hi] at h
  dsimp only at h
  split at h
  · next hre =>
    refine .inl ⟨hre, ?_⟩
    rw [initialScheduledTs] at h
    split at h
    · cases h
    · next period hp =>
      split at h
      · cases h
      · next t ht =>
        cases h
        exact ⟨period, t, hp, ht, rfl⟩
  · next hre =>
    cases h
    exact .inr ⟨Bool.eq_false_iff.mpr hre, rfl⟩

/-- **After an update the cursor is ahead exactly when the condition holds**, where the
update leaves the deployment eligible. -/
theorem updated_cursor_iff {appUserId : ℕ} {req : UpdateDeploymentRequest} (hone : FromOne s)
    {current : Deployment} {qty : ℚ} (hhead : s.deployments.head? = some current)
    (hcursor : updatedCursor ref s.clock current.toDeploymentRow req = .ok ts)
    (heq : updated ref s appUserId req = spInsDeployment s
      (updatedRow current.toDeploymentRow req qty) (req.asked current.toDeploymentRow) ts true)
    (helig : eligible (updated ref s appUserId req) = true) :
    CursorAhead (updated ref s appUserId req) s.clock ↔ FreshCursor ref s req := by
  rw [heq, eligible_spInsDeployment, Bool.and_eq_true, Bool.not_eq_true'] at helig
  obtain ⟨hopen, hsome⟩ := helig
  obtain ⟨i, hi⟩ := Option.isSome_iff_exists.mp hsome
  have hvid := nextDeploymentVid_ne_one hone hhead
  rw [heq, cursorAhead_spInsDeployment hopen hsome hvid]
  obtain ⟨hre, period, t, hp, ht, rfl⟩ | ⟨hre, rfl⟩ := updatedCursor_eq_ok hi hcursor
  · rw [Option.getD_some, lt_computeInitial_iff ht]
    constructor
    · intro hahead
      refine ⟨current, hhead, .inl ⟨hre, fun j hj p hpj => ?_⟩⟩
      cases Option.some.inj (hi.symm.trans hj)
      cases Option.some.inj (hp.symm.trans hpj)
      exact hahead
    · rintro ⟨d, hd, ⟨-, hahead⟩ | ⟨hno, -⟩⟩
      · cases Option.some.inj (hhead.symm.trans hd)
        exact hahead i hi period hp
      · cases Option.some.inj (hhead.symm.trans hd)
        rw [hre] at hno
        cases hno
  · rw [Option.getD_none]
    constructor
    · intro hlt
      refine ⟨current, hhead, .inr ⟨hre, ?_⟩⟩
      cases hs : s.schedule.head? with
      | none =>
        rw [hs] at hlt
        exact absurd hlt (lt_irrefl _)
      | some ss =>
        rw [hs] at hlt
        exact ⟨ss, rfl, hlt⟩
    · rintro ⟨d, hd, ⟨hyes, -⟩ | ⟨-, ss, hss, hlt⟩⟩
      · cases Option.some.inj (hhead.symm.trans hd)
        rw [hre] at hyes
        cases hyes
      · rw [Option.mem_def.mp hss]
        exact hlt

/-! ## Runs -/

/-- A log that begins with the number one still does after a write. -/
theorem FromOne.spInsDeployment (h : FromOne s) :
    FromOne (spInsDeployment s d asked ts true) := by
  intro c hc
  rw [spInsDeployment_deployments] at hc
  obtain rfl | hc := List.mem_cons.mp hc
  · exact Nat.succ_le_succ (Nat.zero_le _)
  · exact h c hc

/-- What every call keeps, said of what a call may do to the logs. -/
theorem created_cases (ref : TradeRefData) (s : DeploymentState) (d : DeploymentRow) :
    created ref s d = s ∨ ∃ ts, created ref s d = spInsDeployment s d createAsked ts true := by
  rw [created]
  split
  · exact .inl rfl
  · next ts _ =>
    split
    · exact .inl rfl
    · exact .inr ⟨ts, rfl⟩

/-- A stop writes a version, or finds nothing to stop. -/
theorem stopped_cases (s : DeploymentState) (appUserId : ℕ) :
    stopped s appUserId = s ∨ ∃ current, stopped s appUserId
      = spInsDeployment s (stoppedRow current) stopAsked none true := by
  rw [stopped]
  split
  · exact .inl rfl
  · next current _ =>
    split
    · exact .inl rfl
    · exact .inr ⟨current.toDeploymentRow, rfl⟩

/-- Moving the cursor writes no version. -/
theorem writeAdvance_deployments (s : DeploymentState) (due : DueRow) :
    (writeAdvance s due (.committed true true)).deployments = s.deployments := by
  rw [writeAdvance]
  split
  · rfl
  · rfl

/-- Every log that is reached begins with the number one. -/
theorem fromOne_reachable {G : Life → LifeAct → Prop} {l : Life} (h : (life ref).Reach G l) :
    FromOne l.state := by
  refine h.invariant (I := fun l => FromOne l.state) (fun l hl => ?_) fun l a l' hl _ hstep => ?_
  · intro d hd
    rw [hl.1] at hd
    cases hd
  · have hstep : lifeStep ref l a = some l' := hstep
    cases a with
    | tick d =>
      cases hstep
      exact hl
    | create d =>
      cases hstep
      obtain h | ⟨ts, h⟩ := created_cases ref l.state d
      · exact h.symm ▸ hl
      · exact h.symm ▸ hl.spInsDeployment
    | update appUserId req =>
      cases hstep
      obtain h | ⟨_, _, _, -, -, h⟩ := updated_cases ref l.state appUserId req
      · exact h.symm ▸ hl
      · exact h.symm ▸ hl.spInsDeployment
    | stop appUserId =>
      cases hstep
      obtain h | ⟨_, h⟩ := stopped_cases l.state appUserId
      · exact h.symm ▸ hl
      · exact h.symm ▸ hl.spInsDeployment
    | applied i =>
      obtain ⟨due, -, rfl⟩ := Option.map_eq_some_iff.mp hstep
      intro d hd
      rw [writeAdvance_deployments] at hd
      exact hl d hd
    | failed i =>
      obtain ⟨due, -, rfl⟩ := Option.map_eq_some_iff.mp hstep
      exact hl.spInsDeployment

/-! ## Slots that went by -/

/-- Every update that turns the deployment on, or moves its cursor, leaves the cursor
ahead. -/
def UpdatesAhead (ref : TradeRefData) (l : Life) : LifeAct → Prop
  | .update appUserId req => eligible (updated ref l.state appUserId req) = true →
      (eligible l.state = false ∨
        ∃ d ∈ l.state.deployments.head?, shouldRealignSchedule d.toDeploymentRow req = true) →
      FreshCursor ref l.state req
  | _ => True

/-- What is kept: no slot is applied for that went by while the deployment was off, and
the next one did not either. -/
structure NoStaleSlot (l : Life) : Prop where
  /-- A slot that was applied for came after the deployment was turned on. -/
  fired : ∀ f ∈ l.fired, ∀ t ∈ f.2, t < f.1
  /-- It was turned on in the past. -/
  past : ∀ t ∈ l.onSince, t ≤ l.state.clock
  /-- While it is due, its cursor is ahead of that time. -/
  next : eligible l.state = true → ∀ t ∈ l.onSince, CursorAhead l.state t

/-- A cursor that is ahead of a time is ahead of any earlier one. -/
theorem CursorAhead.mono {now now' : ℤ} (h : CursorAhead s now) (hle : now' ≤ now) :
    CursorAhead s now' := by
  obtain ⟨ss, hss, hp, hlt⟩ := h
  exact ⟨ss, hss, hp, lt_of_le_of_lt hle hlt⟩

/-- A due deployment is eligible, and its slot is the cursor. -/
theorem dueRow_eq_some {i : ℕ} {due : DueRow} (h : dueRow ref s i = some due) :
    eligible s = true ∧ s.deployments.head? = some due.deployment ∧
      s.schedule.head? = some due.schedule ∧
      due.schedule.scheduledTs < due.nextScheduledTs := by
  rw [dueRow] at h
  split at h
  · next d ss period hd hss hp =>
    split at h
    · next hdue =>
      obtain ⟨hi, hen, hnp, hns, hpend, -⟩ := hdue
      cases h
      refine ⟨?_, hd, hss, ?_⟩
      · have hopen : d.isClosed = false := by
          rw [DeploymentRow.isClosed, decide_eq_false_iff_not]
          rintro (h | h | h)
          · exact hns h
          · rw [h] at hen
            cases hen
          · exact hnp h
        rw [eligible, hd, hss]
        dsimp only
        rw [hopen, hi, hpend]
        rfl
      · show ss.scheduledTs < ss.scheduledTs + period.length
        exact lt_add_of_pos_right _ period.pos
    · cases h
  · cases h

/-- What an update keeps. -/
theorem NoStaleSlot.updated {l : Life} {appUserId : ℕ} {req : UpdateDeploymentRequest}
    (h : NoStaleSlot l) (hone : FromOne l.state)
    (hguard : UpdatesAhead ref l (.update appUserId req))
    (helig : eligible (updated ref l.state appUserId req) = true) :
    (eligible l.state = false → CursorAhead (updated ref l.state appUserId req) l.state.clock) ∧
      (eligible l.state = true → ∀ t ∈ l.onSince,
        CursorAhead (updated ref l.state appUserId req) t) := by
  obtain hsame | ⟨current, qty, ts, hhead, hcursor, heq⟩ :=
    updated_cases ref l.state appUserId req
  · rw [hsame] at helig ⊢
    refine ⟨fun hoff => ?_, fun _ => h.next helig⟩
    rw [hoff] at helig
    cases helig
  · have hiff := updated_cursor_iff hone hhead hcursor heq helig
    refine ⟨fun hoff => hiff.mpr (hguard helig (.inl hoff)), fun hon t ht => ?_⟩
    by_cases hre : shouldRealignSchedule current.toDeploymentRow req = true
    · exact (hiff.mpr (hguard helig (.inr ⟨current, hhead, hre⟩))).mono (h.past t ht)
    · -- The cursor is the one there was, which was ahead.
      obtain ⟨ss, hss, -, hlt⟩ := h.next hon t ht
      have hopen := helig
      rw [heq, eligible_spInsDeployment, Bool.and_eq_true, Bool.not_eq_true'] at hopen
      obtain ⟨i, hi⟩ := Option.isSome_iff_exists.mp hopen.2
      obtain ⟨hyes, -⟩ | ⟨-, hnone⟩ := updatedCursor_eq_ok hi hcursor
      · exact absurd hyes hre
      · rw [heq, cursorAhead_spInsDeployment hopen.1 hopen.2 (nextDeploymentVid_ne_one hone hhead),
          hnone, Option.mem_def.mp hss]
        exact hlt

/-- The slot of a due deployment has not gone by while it was off. -/
theorem NoStaleSlot.fire {l : Life} (h : NoStaleSlot l) {i : ℕ} {due : DueRow}
    (hdue : dueRow ref l.state i = some due) :
    (∀ t ∈ l.onSince, t < due.schedule.scheduledTs) ∧
      ∀ f ∈ (due.schedule.scheduledTs, l.onSince) :: l.fired, ∀ t ∈ f.2, t < f.1 := by
  obtain ⟨helig, -, hss, -⟩ := dueRow_eq_some hdue
  have hfire : ∀ t ∈ l.onSince, t < due.schedule.scheduledTs := by
    intro t ht
    obtain ⟨ss, hss', -, hlt⟩ := h.next helig t ht
    cases Option.some.inj (hss.symm.trans hss')
    exact hlt
  exact ⟨hfire, List.forall_mem_cons.mpr ⟨hfire, h.fired⟩⟩

/-- A deployment that is off has no next slot. -/
theorem NoStaleSlot.off {l : Life} (h : NoStaleSlot l) {fired : List (ℤ × Option ℤ)}
    (hfired : ∀ f ∈ fired, ∀ t ∈ f.2, t < f.1) {s : DeploymentState}
    (hclock : s.clock = l.state.clock) (hoff : eligible s = false) :
    NoStaleSlot { l with state := s, fired := fired } where
  fired := hfired
  past t ht := hclock.symm ▸ h.past t ht
  next hon := absurd (hoff.symm.trans hon) Bool.false_ne_true

/-- **An update keeps it**, if it moves the cursor where it turns the deployment on with one that
is behind. -/
theorem noStaleSlot_update {l : Life} (h : NoStaleSlot l) (hone : FromOne l.state)
    {appUserId : ℕ} {req : UpdateDeploymentRequest}
    (hguard : UpdatesAhead ref l (.update appUserId req)) :
    NoStaleSlot { l with
      state := updated ref l.state appUserId req
      onSince := if eligible (updated ref l.state appUserId req) && !eligible l.state
        then some l.state.clock else l.onSince } := by
  have hclock : (updated ref l.state appUserId req).clock = l.state.clock := by
    obtain h | ⟨_, _, _, -, -, h⟩ := updated_cases ref l.state appUserId req
    · rw [h]
    · rw [h, spInsDeployment_clock]
  refine ⟨h.fired, fun t ht => ?_, fun helig t ht => ?_⟩
  · rw [hclock]
    dsimp only at ht
    split at ht
    · cases ht
      exact le_rfl
    · exact h.past t ht
  · obtain ⟨hoff, hon⟩ := h.updated hone hguard helig
    dsimp only at ht
    split at ht
    · next hturned =>
      cases ht
      rw [Bool.and_eq_true, Bool.not_eq_true'] at hturned
      exact hoff hturned.2
    · next hnot =>
      have hwas : eligible l.state = true := by
        rw [helig, Bool.true_and, Bool.not_eq_true', Bool.not_eq_false] at hnot
        exact hnot
      exact hon hwas t ht

/-- A stop keeps it, as a deployment that is stopped is not due. -/
theorem NoStaleSlot.stop {l : Life} (h : NoStaleSlot l) (appUserId : ℕ) :
    NoStaleSlot { l with state := stopped l.state appUserId } := by
  obtain hsame | ⟨current, hsame⟩ := stopped_cases l.state appUserId
  · rw [hsame]
    exact h
  · refine h.off h.fired ?_ ?_
    · rw [hsame, spInsDeployment_clock]
    · rw [hsame, eligible_spInsDeployment]
      rfl

/-- The slot has been applied for, and the cursor moves on. -/
theorem NoStaleSlot.applied {l : Life} (h : NoStaleSlot l) {i : ℕ} {due : DueRow}
    (hdue : dueRow ref l.state i = some due) :
    NoStaleSlot { l with
      state := writeAdvance l.state due (.committed true true)
      fired := (due.schedule.scheduledTs, l.onSince) :: l.fired } := by
  obtain ⟨-, hd, -, hnext⟩ := dueRow_eq_some hdue
  obtain ⟨hfire, hfired⟩ := h.fire hdue
  have hany : l.state.deployments.any
      (fun d => d.deploymentVid = due.deployment.deploymentVid) = true :=
    List.any_eq_true.mpr ⟨_, List.mem_of_mem_head? hd, decide_eq_true rfl⟩
  have hadv : writeAdvance l.state due (.committed true true)
      = spInsScheduleStatus l.state due.deployment.deploymentVid .pending
        due.nextScheduledTs := by
    rw [writeAdvance, if_pos hany]
  refine ⟨hfired, fun t ht => ?_, fun _ t ht => ?_⟩
  · show t ≤ (writeAdvance l.state due (.committed true true)).clock
    rw [hadv]
    exact h.past t ht
  · show CursorAhead (writeAdvance l.state due (.committed true true)) t
    rw [hadv]
    exact ⟨_, rfl, rfl, (hfire t ht).trans hnext⟩

/-- **No slot is applied for that went by while the deployment was off**, in runs whose
updates leave the cursor ahead. -/
theorem noStaleSlot_reachable {l : Life} (h : (life ref).Reach (UpdatesAhead ref) l) :
    NoStaleSlot l := by
  induction h with
  | @init l hl =>
    obtain ⟨-, -, hon, hfired⟩ := hl
    refine ⟨fun f hf => ?_, fun t ht => ?_, fun _ t ht => ?_⟩
    · rw [hfired] at hf
      cases hf
    · rw [hon] at ht
      cases ht
    · rw [hon] at ht
      cases ht
  | @step l l' a hreach hguard hstep ih =>
    have hstep : lifeStep ref l a = some l' := hstep
    cases a with
    | tick d =>
      cases hstep
      refine ⟨ih.fired, fun t ht => ?_, ih.next⟩
      have hle := ih.past t ht
      show t ≤ l.state.clock + d
      omega
    | create d =>
      cases hstep
      exact ⟨ih.fired, fun _ ht => (by cases ht), fun _ _ ht => (by cases ht)⟩
    | update appUserId req =>
      cases hstep
      exact noStaleSlot_update ih (fromOne_reachable hreach) hguard
    | stop appUserId =>
      cases hstep
      exact ih.stop appUserId
    | applied i =>
      obtain ⟨due, hdue, rfl⟩ := Option.map_eq_some_iff.mp hstep
      exact ih.applied hdue
    | failed i =>
      obtain ⟨due, hdue, rfl⟩ := Option.map_eq_some_iff.mp hstep
      exact ih.off (ih.fire hdue).2 spInsDeployment_clock eligible_spInsDeployment

/-- **An update that turns a deployment on leaves its cursor ahead exactly when** it
realigns the schedule and the clock is not set back before the slot, or the stored cursor
is ahead as it is. In runs where every such update does, no slot is applied for that went
by while the deployment was off. -/
theorem reactivation_ahead_iff (ref : TradeRefData) :
    (∀ l, (life ref).Reach (fun _ _ => True) l →
      ∀ (appUserId : ℕ) (req : UpdateDeploymentRequest) (l' : Life),
        (life ref).step l (.update appUserId req) = some l' →
        eligible l.state = false → eligible l'.state = true →
        (CursorAhead l'.state l.state.clock ↔ FreshCursor ref l.state req)) ∧
    ∀ l, (life ref).Reach (UpdatesAhead ref) l → ∀ f ∈ l.fired, ∀ t ∈ f.2, t < f.1 := by
  refine ⟨fun l hl appUserId req l' hstep hoff hon => ?_,
    fun l hl => (noStaleSlot_reachable hl).fired⟩
  have hstep : lifeStep ref l (.update appUserId req) = some l' := hstep
  cases hstep
  obtain hsame | ⟨current, qty, ts, hhead, hcursor, heq⟩ :=
    updated_cases ref l.state appUserId req
  · have hon : eligible (updated ref l.state appUserId req) = true := hon
    rw [hsame, hoff] at hon
    cases hon
  · exact updated_cursor_iff (fromOne_reachable hl) hhead hcursor heq hon

namespace Reactivation

/-- An update of a status alone. -/
def statusOnly (status : DeploymentStatus) : UpdateDeploymentRequest := ⟨none, some status, none, none⟩

/-- An update that only enables. -/
def enableOnly : UpdateDeploymentRequest := ⟨some true, none, none, none⟩

/-- The deployment is created, put in a status for five minutes while it stays enabled,
updated again, and swept. -/
def offAndOn (status : DeploymentStatus) (back : UpdateDeploymentRequest) : List LifeAct :=
  [.create everyMinute, .update 1 (statusOnly status), .tick 300000000, .update 1 back,
    .applied 0]

/-- Whether the last slot that was applied for went by before the deployment was on. -/
def firedStale (l : Life) : Bool :=
  match l.fired with
  | (slot, some t) :: _ => decide (slot ≤ t)
  | _ => false

/-- Empty logs. -/
def start : Life := ⟨⟨0, [], []⟩, none, []⟩

end Reactivation

/-- Paused, and made active by name. -/
theorem resumed_ahead : ∃ l l', (life minuteTrading).step l
      (.update 1 (Reactivation.statusOnly .active)) = some l' ∧ eligible l.state = false ∧
    eligible l'.state = true ∧ CursorAhead l'.state l.state.clock := by
  have hinit : (life minuteTrading).Init Reactivation.start := ⟨rfl, rfl, rfl, rfl⟩
  have hrun : ((life minuteTrading).runs (fun _ _ => True) Reactivation.start
      [.create everyMinute, .update 1 (Reactivation.statusOnly .paused), .tick 300000000]).any
      (fun l => !eligible l.state &&
        eligible (updated minuteTrading l.state 1 (Reactivation.statusOnly .active)) &&
        l.state.deployments.head?.any fun d =>
          shouldRealignSchedule d.toDeploymentRow (Reactivation.statusOnly .active)) = true := by
    decide +kernel
  obtain ⟨l, hl, hwas⟩ := Machine.Reach.exists_of_runs hinit _ hrun
  rw [Bool.and_eq_true, Bool.and_eq_true, Bool.not_eq_true'] at hwas
  obtain ⟨⟨hoff, hon⟩, hre⟩ := hwas
  obtain ⟨d, hd, hre⟩ := (Option.any_eq_true _ _).mp hre
  refine ⟨l, _, rfl, hoff, hon, ?_⟩
  refine ((reactivation_ahead_iff minuteTrading).1 l hl 1 _ _ rfl hoff hon).mpr ?_
  exact ⟨d, hd, .inl ⟨hre, fun _ _ _ _ => trivial⟩⟩

/-- A deployment that was stopped or paused without being disabled is not realigned when
it is made active again, or enabled: the slot of four minutes ago is applied for. -/
theorem reactivated_stale :
    ((life minuteTrading).runs (fun _ _ => True) Reactivation.start
        (Reactivation.offAndOn .stopped (Reactivation.statusOnly .active))).any
          Reactivation.firedStale = true ∧
    ((life minuteTrading).runs (fun _ _ => True) Reactivation.start
        (Reactivation.offAndOn .paused Reactivation.enableOnly)).any
          Reactivation.firedStale = true ∧
    ((life minuteTrading).runs (fun _ _ => True) Reactivation.start
        (Reactivation.offAndOn .paused (Reactivation.statusOnly .created))).any
          Reactivation.firedStale = true ∧
    ¬ ∀ (ref : TradeRefData) (l : Life), (life ref).Reach (fun _ _ => True) l →
      ∀ f ∈ l.fired, ∀ t ∈ f.2, t < f.1 := by
  have hrun : ((life minuteTrading).runs (fun _ _ => True) Reactivation.start
      (Reactivation.offAndOn .stopped (Reactivation.statusOnly .active))).any
        Reactivation.firedStale = true := by decide +kernel
  refine ⟨hrun, by decide +kernel, by decide +kernel, fun h => ?_⟩
  have hinit : (life minuteTrading).Init Reactivation.start := ⟨rfl, rfl, rfl, rfl⟩
  obtain ⟨l, hl, hstale⟩ := Machine.Reach.exists_of_runs hinit _ hrun
  rw [Reactivation.firedStale] at hstale
  split at hstale
  · next slot t rest hfired =>
    have hlt := h minuteTrading l hl (slot, some t) (hfired ▸ List.mem_cons_self) t rfl
    exact absurd (of_decide_eq_true hstale) (not_le.mpr hlt)
  · cases hstale
