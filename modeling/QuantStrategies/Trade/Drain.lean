import QuantStrategies.Trade.Deployment
import QuantStrategies.Trade.Tick

/-!
# Draining a backlog

When the poller starts, it sweeps all intervals again and again until a sweep moves no
cursor. Each sweep applies what is due and moves a cursor by one slot, so a backlog of
so many slots takes so many sweeps.

What keeps the loop alive is a cursor that moved, and while the clock stands still there
are only so many slots below it: the slots that are owed are the measure of the loop. A
deployment that is paused moves no cursor and is not due any more. One that was applied
and whose cursor did not move ends the loop.

The loop is over, too, when a sweep moved nothing because an interval could not be read.
What is due there stays due, and waits for the sweeps on the timer.

How an apply ends, and what becomes of a write or a read, is an input here.

The measure is a function of the state before the loop, so that a poller which is started
after a long outage is known to come to rest whatever the answers are. What is applied on
the way is a matter of the answers: where nothing fails and everything can be read, each
deployment is applied for each slot that it owes, in their order.
-/

namespace Drain

/-! ## One row -/

/-- How an apply ends. A failure may require an operator's fix. -/
inductive ApplyEnd where
  | applied
  | failed (requiresOperatorFix : Bool)

/-- What a due row meets: how its attempts end, and what becomes of its writes. -/
structure RowAnswers where
  /-- How each attempt ends. -/
  apply : ℕ → ApplyEnd
  /-- What becomes of the write that pauses the deployment. -/
  pause : WriteFate
  /-- What becomes of the write that moves the cursor. -/
  advance : WriteFate

/-- The caller of a write is told that it went through. -/
def answered : WriteFate → Bool
  | .refused => false
  | .committed _ answered => answered

/-- `TickResult`, as far as the sweep looks at it. -/
structure RowResult where
  /-- Which deployment was due. -/
  deploymentId : ℕ
  /-- How it went. -/
  outcome : TickOutcome
  /-- Which attempt it ended with. -/
  attempt : ℕ
deriving DecidableEq

/-- A row whose cursor moved. -/
def RowResult.moved (r : RowResult) : Bool := r.outcome = .applied || r.outcome = .abandoned

/-- The attempts of `_run_one`: whether the last one was applied, and its number. Without an
attempt there is no result. -/
def attempts (apply : ℕ → ApplyEnd) : (attempt left : ℕ) → Option (Bool × ℕ)
  | _, 0 => none
  | attempt, left + 1 =>
    match apply attempt with
    | .applied => some (true, attempt)
    | .failed fix =>
      if fix || left = 0 then some (false, attempt) else attempts apply (attempt + 1) left

/-- `_advance`. -/
def advance (a : RowAnswers) (id : ℕ) (outcome : TickOutcome) (attempt : ℕ) (s : DeploymentState)
    (due : DueRow) : RowResult × DeploymentState :=
  let wrote := answered a.advance &&
    s.deployments.any fun d => d.deploymentVid = due.deployment.deploymentVid
  (⟨id, if wrote then outcome else .stuck, attempt⟩, writeAdvance s due a.advance)

/-- `_auto_pause`. -/
def autoPause (a : RowAnswers) (id attempt : ℕ) (s : DeploymentState) (due : DueRow) :
    RowResult × DeploymentState :=
  let written :=
    writeDeployment s (pausedRow due.deployment.toDeploymentRow) pauseAsked none a.pause
  if answered a.pause then (⟨id, .paused, attempt⟩, written)
  else advance a id .abandoned attempt written due

/-- `_run_one`. -/
def runOne (maxAttempts : ℕ) (a : RowAnswers) (id : ℕ) (s : DeploymentState) (due : DueRow) :
    Option (RowResult × DeploymentState) :=
  (attempts a.apply 1 maxAttempts).map fun r =>
    if r.1 then advance a id .applied r.2 s due else autoPause a id r.2 s due

/-! ## One interval -/

/-- The deployments, by their ids. -/
structure Fleet where
  /-- The deployments that there are. -/
  ids : List ℕ
  /-- Each of them once. -/
  nodup : ids.Nodup
  /-- The two logs of each. -/
  state : ℕ → DeploymentState

/-- The deployments, and each apply so far with the slot that it was for. The applies are
no table: no program reads them. -/
structure DrainState extends Fleet where
  /-- Each apply, with its slot, for what is proved and for nothing else. -/
  applies : List (ℕ × ℤ)

/-- The state of one deployment, after applies for one of its slots. -/
def DrainState.put (f : DrainState) (id : ℕ) (s : DeploymentState) (applies : List (ℕ × ℤ)) :
    DrainState :=
  { f with state := Function.update f.state id s, applies := f.applies ++ applies }

/-- A deployment that was written is as it was written. -/
theorem DrainState.put_state_self (f : DrainState) (id : ℕ) (s : DeploymentState)
    (applies : List (ℕ × ℤ)) : (f.put id s applies).state id = s := by
  show Function.update f.state id s id = s
  rw [Function.update_self]

theorem DrainState.put_state_of_ne (f : DrainState) {id id' : ℕ} (h : id' ≠ id)
    (s : DeploymentState) (applies : List (ℕ × ℤ)) :
    (f.put id s applies).state id' = f.state id' := by
  show Function.update f.state id s id' = f.state id'
  rw [Function.update_of_ne h]

/-- The clock shows this time. -/
def DrainState.at (f : DrainState) (now : ℤ) : DrainState :=
  { f with state := fun id => { f.state id with clock := now } }

/-- What the sweep of an interval meets. -/
structure IntervalAnswers where
  /-- Whether the due rows cannot be read. -/
  readFails : Bool
  /-- What the clock shows when they are. -/
  now : ℤ
  /-- What each due row meets. -/
  row : ℕ → RowAnswers

/-- `TickReport`. -/
structure TickReport where
  /-- The interval that was swept. -/
  tmIntervalId : ℕ
  /-- How its due rows went. -/
  results : List RowResult
deriving DecidableEq

/-- `advanced`: rows whose cursor moved. -/
def TickReport.advanced (r : TickReport) : ℕ :=
  r.results.countP RowResult.moved

variable (ref : TradeRefData) (maxAttempts : ℕ)

/-- `SP_GET_MISSED_DUE_DEPLOYMENTS`, of all deployments, by their slots. -/
def dueRows (f : Fleet) (tmIntervalId : ℕ) : List (ℕ × DueRow) :=
  (f.ids.filterMap fun id => (dueRow ref (f.state id) tmIntervalId).map (id, ·)).insertionSort
    fun a b => a.2.schedule.scheduledTs ≤ b.2.schedule.scheduledTs

/-- The rows of an interval, one after the other. What a row raises ends the interval. -/
def runRows (row : ℕ → RowAnswers) :
    List (ℕ × DueRow) → DrainState → Option (List RowResult) × DrainState
  | [], f => (some [], f)
  | (id, due) :: rows, f =>
    match runOne maxAttempts (row id) id (f.state id) due with
    | none => (none, f)
    | some (result, s) =>
      let r := runRows row rows
        (f.put id s (List.replicate result.attempt (id, due.schedule.scheduledTs)))
      (r.1.map (result :: ·), r.2)

/-- `run_interval`. -/
def runInterval (a : IntervalAnswers) (tmIntervalId : ℕ) (f : DrainState) :
    Option TickReport × DrainState :=
  if a.readFails then (none, f)
  else
    let f := f.at a.now
    let r := runRows maxAttempts a.row (dueRows ref f.toFleet tmIntervalId) f
    (r.1.map fun results => ⟨tmIntervalId, results⟩, r.2)

/-! ## The sweep and the loop -/

/-- What a sweep meets: the intervals, where they can be read, and how each is answered. -/
structure PassAnswers where
  /-- The intervals, where they can be read. -/
  intervals : Option (List ℕ)
  /-- What the sweep of each meets. -/
  interval : ℕ → IntervalAnswers

/-- The intervals of a sweep, from the `n`-th on. One that raises is skipped. -/
def sweepFrom (answers : ℕ → IntervalAnswers) (n : ℕ) :
    List ℕ → DrainState → List TickReport × DrainState
  | [], f => ([], f)
  | tmIntervalId :: rest, f =>
    let r := runInterval ref maxAttempts (answers n) tmIntervalId f
    let reports := sweepFrom answers (n + 1) rest r.2
    (r.1.toList ++ reports.1, reports.2)

/-- `ScheduleSweeper.sweep`. -/
def sweep (pass : PassAnswers) (f : DrainState) : Option (List TickReport) × DrainState :=
  match pass.intervals with
  | none => (none, f)
  | some tmIntervalIds =>
    let r := sweepFrom ref maxAttempts pass.interval 0 tmIntervalIds f
    (some r.1, r.2)

/-- `ScheduleSweeper.has_stuck`. -/
def hasStuck (reports : List TickReport) : Bool :=
  reports.any fun report => report.results.any fun result => result.outcome = .stuck

/-- How many cursors a sweep moved. -/
def advancedIn (reports : List TickReport) : ℕ := (reports.map TickReport.advanced).sum

/-- How the loop ends: a sweep raised, a deployment was stuck, nothing moved, or all passes
were spent. -/
inductive DrainEnd where
  | raised
  | stuck
  | caughtUp
  | ceiling
deriving DecidableEq

/-- The loop, when it has ended: what it returns, and the passes it made. -/
structure DrainRun where
  /-- Why it ended. -/
  ending : DrainEnd
  /-- How many cursors were moved. -/
  advancedTotal : ℕ
  /-- The reports of each sweep. -/
  passes : List (List TickReport)
  /-- The fleet afterwards. -/
  state : DrainState

/-- The loop of `drain`, from the `n`-th pass on. -/
def drainFrom (world : ℕ → PassAnswers) : (n left advancedTotal : ℕ) → DrainState → DrainRun
  | _, 0, advancedTotal, f => ⟨.ceiling, advancedTotal, [], f⟩
  | n, left + 1, advancedTotal, f =>
    match sweep ref maxAttempts (world n) f with
    | (none, f) => ⟨.raised, advancedTotal, [], f⟩
    | (some reports, f) =>
      if hasStuck reports then ⟨.stuck, advancedTotal, [reports], f⟩
      else if advancedIn reports = 0 then ⟨.caughtUp, advancedTotal, [reports], f⟩
      else
        let run := drainFrom world (n + 1) left (advancedTotal + advancedIn reports) f
        { run with passes := reports :: run.passes }

/-- `SchedulePoller.drain`. -/
def drain (maxDrainPasses : ℕ) (world : ℕ → PassAnswers) (fleet : Fleet) : DrainRun :=
  drainFrom ref maxAttempts world 0 maxDrainPasses 0 ⟨fleet, []⟩

/-! ## What is promised of a drain -/

/-- The clock stands still. -/
def StandsStill (now : ℤ) (world : ℕ → PassAnswers) : Prop :=
  ∀ n k, ((world n).interval k).now = now

/-- No apply and no write of a cursor fails. -/
structure NothingFails (world : ℕ → PassAnswers) : Prop where
  /-- Every apply goes through at its first attempt. -/
  apply : ∀ n k id attempt, (((world n).interval k).row id).apply attempt = .applied
  /-- And every cursor is moved. -/
  advance : ∀ n k id, answered (((world n).interval k).row id).advance = true

/-- Every interval is swept, and can be read. -/
structure ReadsAll (world : ℕ → PassAnswers) : Prop where
  /-- All intervals with a period are swept. -/
  intervals : ∀ n, ∃ tmIntervalIds, (world n).intervals = some tmIntervalIds ∧
    ∀ tmIntervalId, (ref.period tmIntervalId).isSome → tmIntervalId ∈ tmIntervalIds
  /-- And the due rows of each are read. -/
  read : ∀ n k, ((world n).interval k).readFails = false

/-- The slots of a schedule that are not after the clock, from its cursor on. -/
def owedSlots (now : ℤ) (s : DeploymentState) : ℕ :=
  match s.deployments.head?, s.schedule.head? with
  | some d, some ss =>
    match d.scheduleTmIntervalId.bind ref.period with
    | some period => ((now - ss.scheduledTs) / period.length + 1).toNat
    | none => 0
  | _, _ => 0

/-- The slots that all deployments owe. -/
def owed (now : ℤ) (f : Fleet) : ℕ := (f.ids.map fun id => owedSlots ref now (f.state id)).sum

/-- The schedule that a due row is on. -/
def dueSchedule (tmIntervalId : ℕ) (period : Period) (due : DueRow) : Schedule :=
  ref.schedule due.deployment.terms tmIntervalId period

/-- A deployment is caught up: it was applied once for each of its slots from the cursor to
the clock, in their order, and its cursor is on the first slot after the clock. -/
def CaughtUp (now : ℤ) (run : DrainRun) (id : ℕ) (schedule : Schedule) (due : DueRow) : Prop :=
  ∃ n, (∀ k, k < n ↔ cursorAfter schedule due.schedule.scheduledTs k ≤ now) ∧
    (run.state.applies.filter fun e => e.1 = id) =
      (List.range n).map (fun k => (id, cursorAfter schedule due.schedule.scheduledTs k)) ∧
    ((run.state.state id).schedule.head?.map fun ss => (ss.status, ss.scheduledTs)) =
      some (.pending, cursorAfter schedule due.schedule.scheduledTs n)

/-! ## One row -/

section

variable {ref : TradeRefData} {maxAttempts : ℕ} {s : DeploymentState} {tmIntervalId : ℕ}
  {due : DueRow} {now : ℤ}

/-- What a due row was joined from. -/
structure Due (ref : TradeRefData) (s : DeploymentState) (tmIntervalId : ℕ) (due : DueRow)
    (period : Period) : Prop where
  /-- It is the current version. -/
  deployment : s.deployments.head? = some due.deployment
  /-- And the current row of the schedule. -/
  schedule : s.schedule.head? = some due.schedule
  /-- The deployment is on this interval. -/
  interval : due.deployment.scheduleTmIntervalId = some tmIntervalId
  /-- Which has a period. -/
  hasPeriod : ref.period tmIntervalId = some period
  /-- It is switched on. -/
  enabled : due.deployment.isEnabledInd = true
  /-- It is not paused. -/
  paused : due.deployment.deploymentStatus ≠ .paused
  /-- And not stopped. -/
  stopped : due.deployment.deploymentStatus ≠ .stopped
  /-- The slot is to come. -/
  pending : due.schedule.status = .pending
  /-- And has come. -/
  past : due.schedule.scheduledTs ≤ s.clock
  /-- The slot after it is a period later. -/
  next : due.nextScheduledTs = due.schedule.scheduledTs + period.length

/-- The query finds a row exactly when all of this holds of it. -/
theorem dueRow_eq_some_iff :
    dueRow ref s tmIntervalId = some due ↔ ∃ period, Due ref s tmIntervalId due period := by
  constructor
  · intro h
    unfold dueRow at h
    split at h
    · next d ss period hd hss hperiod =>
      split at h
      · next hcond =>
        obtain ⟨hi, hen, hnp, hns, hpend, hpast⟩ := hcond
        cases h
        exact ⟨period, hd, hss, hi, hperiod, hen, hnp, hns, hpend, hpast, rfl⟩
      · cases h
    · cases h
  · rintro ⟨period, h⟩
    obtain ⟨d, ss, next⟩ := due
    have hnext : next = nextScheduledTs (ref.schedule d.terms tmIntervalId period)
        ss.scheduledTs := h.next
    unfold dueRow
    rw [h.deployment, h.schedule, h.hasPeriod, hnext]
    exact if_pos ⟨h.interval, h.enabled, h.paused, h.stopped, h.pending, h.past⟩

/-- The deployment is on an interval, and its cursor is on a slot. -/
structure AtSlot (s : DeploymentState) (tmIntervalId : ℕ) (slot : ℤ) : Prop where
  /-- It is on the interval. -/
  deployment : ∃ d, s.deployments.head? = some d ∧ d.scheduleTmIntervalId = some tmIntervalId
  /-- And its cursor on the slot. -/
  schedule : ∃ ss, s.schedule.head? = some ss ∧ ss.scheduledTs = slot

/-- What is due is at its slot. -/
theorem Due.atSlot {period : Period} (h : Due ref s tmIntervalId due period) :
    AtSlot s tmIntervalId due.schedule.scheduledTs :=
  ⟨⟨_, h.deployment, h.interval⟩, _, h.schedule, rfl⟩

/-- What is owed is a matter of the slot. -/
theorem AtSlot.owedSlots {slot : ℤ} {period : Period} (h : AtSlot s tmIntervalId slot)
    (hp : ref.period tmIntervalId = some period) :
    owedSlots ref now s = ((now - slot) / period.length + 1).toNat := by
  obtain ⟨⟨d, hd, hi⟩, ss, hss, rfl⟩ := h
  unfold Drain.owedSlots
  rw [hd, hss]
  dsimp only
  rw [hi, Option.bind_some, hp]

/-- The write of a pause leaves the cursor, or sets it to the present. -/
theorem AtSlot.pause {slot : ℤ} (h : AtSlot s tmIntervalId slot) (hle : slot ≤ s.clock)
    {d : Deployment} (hi : d.scheduleTmIntervalId = some tmIntervalId) (fate : WriteFate) :
    ∃ slot', slot ≤ slot' ∧
      AtSlot (writeDeployment s (pausedRow d.toDeploymentRow) pauseAsked none fate)
        tmIntervalId slot' := by
  obtain ⟨hdep, ss, hss, rfl⟩ := h
  cases fate with
  | refused => exact ⟨_, le_refl _, hdep, ss, hss, rfl⟩
  | committed scheduled told =>
    have hrow : (pausedRow d.toDeploymentRow).scheduleTmIntervalId = some tmIntervalId := hi
    unfold writeDeployment spInsDeployment
    dsimp only
    cases scheduled with
    | false =>
      refine ⟨ss.scheduledTs, le_refl _, ?_⟩
      split
      · exact ⟨⟨_, rfl, hrow⟩, ss, hss, rfl⟩
      · exact ⟨⟨_, rfl, hrow⟩, ss, hss, rfl⟩
    | true =>
      unfold scheduleOf
      rw [hrow]
      dsimp only
      split
      · next hsome =>
        split at hsome
        · cases hsome
          exact ⟨s.clock, hle, ⟨_, rfl, hrow⟩, _, rfl, rfl⟩
        · cases hsome
          rw [hss]
          exact ⟨ss.scheduledTs, le_refl _, ⟨_, rfl, hrow⟩, _, rfl, rfl⟩
      · next hnone => split at hnone <;> cases hnone

/-- The write of a cursor moves it to the next slot, or leaves it and is not answered. -/
theorem AtSlot.advance {slot : ℤ} (h : AtSlot s tmIntervalId slot) (fate : WriteFate) :
    AtSlot (writeAdvance s due fate) tmIntervalId due.nextScheduledTs ∨
      writeAdvance s due fate = s ∧ (answered fate &&
        s.deployments.any fun d => d.deploymentVid = due.deployment.deploymentVid) = false := by
  cases fate with
  | refused => exact Or.inr ⟨rfl, rfl⟩
  | committed scheduled told =>
    unfold writeAdvance
    dsimp only
    split
    · exact Or.inl ⟨h.deployment, _, rfl, rfl⟩
    · next hno =>
      rw [Bool.not_eq_true] at hno
      exact Or.inr ⟨rfl, by rw [hno, Bool.and_false]⟩

/-- A later cursor owes no more. -/
theorem owed_antitone {slot slot' : ℤ} (period : Period) (h : slot ≤ slot') :
    ((now - slot') / period.length + 1).toNat ≤ ((now - slot) / period.length + 1).toNat :=
  Int.toNat_le_toNat (Int.add_le_add_right
    (Int.ediv_le_ediv period.pos (Int.sub_le_sub_left h now)) 1)

/-- The next slot owes one less. -/
theorem owed_next {slot : ℤ} (period : Period) (h : slot ≤ now) :
    ((now - (slot + period.length)) / period.length + 1).toNat + 1 =
      ((now - slot) / period.length + 1).toNat := by
  have hx : 0 ≤ (now - slot) / period.length := Int.ediv_nonneg (sub_nonneg.mpr h) period.pos.le
  have hnext : (now - (slot + period.length)) / period.length =
      (now - slot) / period.length - 1 := by
    rw [← Int.sub_sub, Int.sub_ediv_of_dvd _ (dvd_refl _), Int.ediv_self period.pos.ne']
  omega

/-- A cursor that is moved on owes one slot less than the due row did. -/
theorem advance_owed {period : Period} {slot : ℤ} {a : RowAnswers} {id attempt : ℕ}
    {outcome : TickOutcome} (hp : ref.period tmIntervalId = some period)
    (hnext : due.nextScheduledTs = due.schedule.scheduledTs + period.length)
    (hpast : due.schedule.scheduledTs ≤ now) (hle : due.schedule.scheduledTs ≤ slot)
    (h : AtSlot s tmIntervalId slot) :
    owedSlots ref now (advance a id outcome attempt s due).2 +
        (if (advance a id outcome attempt s due).1.moved then 1 else 0) ≤
      ((now - due.schedule.scheduledTs) / period.length + 1).toNat := by
  obtain hmoved | ⟨hsame, hno⟩ :
      AtSlot (writeAdvance s due a.advance) tmIntervalId due.nextScheduledTs ∨ _ :=
    h.advance a.advance
  · have howed : owedSlots ref now (advance a id outcome attempt s due).2 =
        ((now - due.nextScheduledTs) / period.length + 1).toNat := hmoved.owedSlots hp
    rw [howed, hnext, ← owed_next period hpast]
    split
    · exact le_refl _
    · exact Nat.le_succ _
  · have hstuck : (advance a id outcome attempt s due).1.moved = false := by
      unfold advance
      rw [hno]
      rfl
    have howed : owedSlots ref now (advance a id outcome attempt s due).2 =
        ((now - slot) / period.length + 1).toNat := by
      show owedSlots ref now (writeAdvance s due a.advance) = _
      rw [hsame]
      exact h.owedSlots hp
    rw [hstuck, howed]
    exact owed_antitone period hle

/-- **What a due row owes after its turn**: one slot less, if its cursor moved, and never
more. -/
theorem runOne_owed {period : Period} {a : RowAnswers} {id : ℕ} {result : RowResult}
    {s' : DeploymentState} (h : Due ref s tmIntervalId due period) (hclock : s.clock = now)
    (hrun : runOne maxAttempts a id s due = some (result, s')) :
    owedSlots ref now s' + (if result.moved then 1 else 0) ≤ owedSlots ref now s := by
  have hpast : due.schedule.scheduledTs ≤ now := hclock ▸ h.past
  rw [h.atSlot.owedSlots h.hasPeriod]
  obtain ⟨⟨ok, attempt⟩, -, hr⟩ := Option.map_eq_some_iff.mp hrun
  cases ok with
  | true =>
    obtain ⟨rfl, rfl⟩ := Prod.ext_iff.mp hr
    exact advance_owed h.hasPeriod h.next hpast (le_refl _) h.atSlot
  | false =>
    obtain ⟨slot, hle, hslot⟩ := h.atSlot.pause h.past h.interval a.pause
    have hr : autoPause a id attempt s due = (result, s') := hr
    unfold autoPause at hr
    dsimp only at hr
    split at hr
    · obtain ⟨rfl, rfl⟩ := Prod.ext_iff.mp hr
      rw [hslot.owedSlots h.hasPeriod]
      exact owed_antitone period hle
    · obtain ⟨rfl, rfl⟩ := Prod.ext_iff.mp hr
      exact advance_owed h.hasPeriod h.next hpast hle hslot

/-! ## From a row to a sweep -/

/-- A relation between the states before and after so many advances, that every row keeps:
it composes, and holds without the advances of an interval whose report was lost. -/
structure SweepRule (ref : TradeRefData) (maxAttempts : ℕ) (now : ℤ) (A : RowAnswers → Prop)
    (R : ℕ → DrainState → DrainState → Prop) : Prop where
  /-- Nothing that happens is nothing. -/
  refl : ∀ f, R 0 f f
  /-- Two stretches of a sweep are one. -/
  trans : ∀ {m n f g h}, R m f g → R n g h → R (m + n) f h
  /-- An interval whose report was lost has moved cursors that nobody counts. -/
  lost : ∀ {m f g}, (∃ a id s due, A a ∧ runOne maxAttempts a id s due = none) → R m f g → R 0 f g
  /-- Reading the clock moves none. -/
  clock : ∀ f, R 0 f (f.at now)
  /-- A due row keeps the relation, counting itself where its cursor moved. -/
  row : ∀ {f : DrainState} {tmIntervalId id due period a result s}, id ∈ f.ids →
    Due ref (f.state id) tmIntervalId due period → (f.state id).clock = now → A a →
    runOne maxAttempts a id (f.state id) due = some (result, s) →
    R (if result.moved then 1 else 0) f
      (f.put id s (List.replicate result.attempt (id, due.schedule.scheduledTs)))

/-- Rows as they were read, of deployments that have not had their turn. -/
structure Fresh (ref : TradeRefData) (now : ℤ) (tmIntervalId : ℕ) (rows : List (ℕ × DueRow))
    (f : DrainState) : Prop where
  /-- Each deployment is due once. -/
  nodup : (rows.map Prod.fst).Nodup
  /-- And is still as it was when the rows were read. -/
  due : ∀ e ∈ rows, e.1 ∈ f.ids ∧ (f.state e.1).clock = now ∧
    dueRow ref (f.state e.1) tmIntervalId = some e.2

/-- When one has had its turn the others are still as they were read, as no two rows are of one
deployment. -/
theorem Fresh.tail {e : ℕ × DueRow} {rows : List (ℕ × DueRow)} {f : DrainState}
    (h : Fresh ref now tmIntervalId (e :: rows) f) (s : DeploymentState)
    (applies : List (ℕ × ℤ)) : Fresh ref now tmIntervalId rows (f.put e.1 s applies) := by
  obtain ⟨hnot, hnodup⟩ := List.nodup_cons.mp h.nodup
  refine ⟨hnodup, fun e' he' => ?_⟩
  have hne : e'.1 ≠ e.1 := fun heq => hnot (heq ▸ List.mem_map_of_mem he')
  rw [f.put_state_of_ne hne]
  exact h.due e' (List.mem_cons_of_mem e he')

/-- The due rows are fresh when they are read. -/
theorem fresh_dueRows {f : DrainState} (hclock : ∀ id, (f.state id).clock = now) :
    Fresh ref now tmIntervalId (dueRows ref f.toFleet tmIntervalId) f := by
  have hperm := List.perm_insertionSort (fun a b : ℕ × DueRow =>
    a.2.schedule.scheduledTs ≤ b.2.schedule.scheduledTs)
    (f.ids.filterMap fun id => (dueRow ref (f.state id) tmIntervalId).map (id, ·))
  constructor
  · rw [dueRows, (hperm.map Prod.fst).nodup_iff, List.map_filterMap]
    refine f.nodup.filterMap fun id id' x hx hx' => ?_
    rw [Option.map_map] at hx hx'
    obtain ⟨_, -, rfl⟩ := Option.map_eq_some_iff.mp hx
    obtain ⟨_, -, heq⟩ := Option.map_eq_some_iff.mp hx'
    exact heq.symm
  · intro e he
    obtain ⟨id, hid, heq⟩ := List.mem_filterMap.mp (hperm.mem_iff.mp he)
    obtain ⟨due, hdue, rfl⟩ := Option.map_eq_some_iff.mp heq
    exact ⟨hid, hclock id, hdue⟩

variable {A : RowAnswers → Prop} {R : ℕ → DrainState → DrainState → Prop}

/-- The rows of an interval end early where one of them raises. -/
theorem runRows_eq_none {row : ℕ → RowAnswers} (hA : ∀ id, A (row id)) {rows : List (ℕ × DueRow)}
    {f : DrainState} (h : (runRows maxAttempts row rows f).1 = none) :
    ∃ a id s due, A a ∧ runOne maxAttempts a id s due = none := by
  induction rows generalizing f with
  | nil => cases h
  | cons e rows ih =>
    obtain ⟨id, due⟩ := e
    rw [runRows] at h
    split at h
    · next hnone => exact ⟨row id, id, f.state id, due, hA id, hnone⟩
    · exact ih (Option.map_eq_none_iff.mp h)

/-- A relation that every row keeps is kept by the rows of an interval. -/
theorem SweepRule.runRows (hR : SweepRule ref maxAttempts now A R) {row : ℕ → RowAnswers}
    (hA : ∀ id, A (row id)) {rows : List (ℕ × DueRow)} {f : DrainState}
    (h : Fresh ref now tmIntervalId rows f) :
    R (((runRows maxAttempts row rows f).1.map (List.countP RowResult.moved)).getD 0) f
      (runRows maxAttempts row rows f).2 := by
  induction rows generalizing f with
  | nil => exact hR.refl f
  | cons e rows ih =>
    obtain ⟨id, due⟩ := e
    obtain ⟨hid, hclock, hdue⟩ := h.due _ List.mem_cons_self
    obtain ⟨period, hdue⟩ := dueRow_eq_some_iff.mp hdue
    rw [Drain.runRows]
    split
    · exact hR.refl f
    · next result s hrun =>
      have hone := hR.row hid hdue hclock (hA id) hrun
      have hrest := hR.trans hone
        (ih (h.tail s (List.replicate result.attempt (id, due.schedule.scheduledTs))))
      dsimp only
      cases hresults : (Drain.runRows maxAttempts row rows
          (f.put id s (List.replicate result.attempt (id, due.schedule.scheduledTs)))).1 with
      | none => exact hR.lost (runRows_eq_none hA hresults) hrest
      | some results =>
        rw [hresults] at hrest
        rw [Option.map_some, Option.map_some, Option.getD_some, List.countP_cons, Nat.add_comm]
        exact hrest

/-- … and by an interval. -/
theorem SweepRule.runInterval (hR : SweepRule ref maxAttempts now A R) {a : IntervalAnswers}
    (hnow : a.now = now) (hA : ∀ id, A (a.row id)) (tmIntervalId : ℕ) (f : DrainState) :
    R (((runInterval ref maxAttempts a tmIntervalId f).1.map TickReport.advanced).getD 0) f
      (runInterval ref maxAttempts a tmIntervalId f).2 := by
  unfold Drain.runInterval
  split
  · exact hR.refl f
  · have hfresh : Fresh ref now tmIntervalId (dueRows ref (f.at a.now).toFleet tmIntervalId)
        (f.at a.now) := fresh_dueRows fun _ => hnow
    have hrows := hR.trans (hnow ▸ hR.clock f) (hR.runRows hA hfresh)
    rw [Nat.zero_add] at hrows
    dsimp only
    rw [Option.map_map]
    exact hrows

/-- … and by a sweep. -/
theorem SweepRule.sweepFrom (hR : SweepRule ref maxAttempts now A R) {answers : ℕ → IntervalAnswers}
    (hnow : ∀ k, (answers k).now = now) (hA : ∀ k id, A ((answers k).row id)) (n : ℕ)
    (tmIntervalIds : List ℕ) (f : DrainState) :
    R (advancedIn (sweepFrom ref maxAttempts answers n tmIntervalIds f).1) f
      (sweepFrom ref maxAttempts answers n tmIntervalIds f).2 := by
  induction tmIntervalIds generalizing n f with
  | nil => exact hR.refl f
  | cons tmIntervalId rest ih =>
    have hboth := hR.trans (hR.runInterval (hnow n) (hA n) tmIntervalId f) (ih (n + 1) _)
    rw [Drain.sweepFrom]
    dsimp only
    cases hreport : (Drain.runInterval ref maxAttempts (answers n) tmIntervalId f).1 with
    | none =>
      rw [hreport] at hboth
      simpa using hboth
    | some report =>
      rw [hreport] at hboth
      simpa [advancedIn] using hboth

/-! ## The measure -/

/-- A sum over the deployments goes down by what one of them goes down. -/
theorem sum_map_add_le {ids : List ℕ} (hnodup : ids.Nodup) {g h : ℕ → ℕ} {id m : ℕ}
    (hid : id ∈ ids) (hle : g id + m ≤ h id) (hne : ∀ id', id' ≠ id → g id' = h id') :
    (ids.map g).sum + m ≤ (ids.map h).sum := by
  induction ids with
  | nil => cases hid
  | cons j ids ih =>
    obtain ⟨hnot, hnodup⟩ := List.nodup_cons.mp hnodup
    rw [List.map_cons, List.sum_cons, List.map_cons, List.sum_cons]
    rcases List.mem_cons.mp hid with rfl | hid
    · have hrest : ids.map g = ids.map h :=
        List.map_congr_left fun id' hid' => hne id' fun heq => hnot (heq ▸ hid')
      rw [hrest]
      omega
    · have hj : g j = h j := hne j fun heq => hnot (heq ▸ hid)
      have hsum := ih hnodup hid
      omega

/-- **Each advance of a sweep is paid for** by a slot that is not owed any more. -/
theorem owed_rule (ref : TradeRefData) (maxAttempts : ℕ) (now : ℤ) (A : RowAnswers → Prop) :
    SweepRule ref maxAttempts now A fun m f g =>
      owed ref now g.toFleet + m ≤ owed ref now f.toFleet where
  refl _ := le_refl _
  trans h1 h2 := by omega
  lost _ h := by omega
  clock _ := le_refl _
  row := by
    intro f tmIntervalId id due period a result s hid hdue hclock _ hrun
    refine sum_map_add_le f.nodup hid ?_ fun id' hne => ?_
    · rw [f.put_state_self]
      exact runOne_owed hdue hclock hrun
    · rw [f.put_state_of_ne hne]

/-- A sweep that is over has paid for what it reports. -/
theorem sweep_owed {pass : PassAnswers} (hnow : ∀ k, (pass.interval k).now = now) {f : DrainState}
    {reports : List TickReport} {g : DrainState}
    (h : sweep ref maxAttempts pass f = (some reports, g)) :
    owed ref now g.toFleet + advancedIn reports ≤ owed ref now f.toFleet := by
  unfold sweep at h
  split at h
  · cases h
  · next tmIntervalIds _ =>
    obtain ⟨hreports, rfl⟩ := Prod.ext_iff.mp h
    cases hreports
    exact (owed_rule ref maxAttempts now fun _ => True).sweepFrom hnow (fun _ _ => trivial) 0
      tmIntervalIds f

/-! ## The loop -/

variable {world : ℕ → PassAnswers} {f : DrainState} {n left advancedTotal : ℕ}

/-- The loop makes no more passes than it may. -/
theorem length_passes_le :
    (drainFrom ref maxAttempts world n left advancedTotal f).passes.length ≤ left := by
  induction left generalizing n advancedTotal f with
  | zero => exact le_refl _
  | succ left ih =>
    rw [drainFrom]
    split
    · exact Nat.zero_le _
    · split
      · exact Nat.succ_le_succ (Nat.zero_le left)
      · split
        · exact Nat.succ_le_succ (Nat.zero_le left)
        · exact Nat.succ_le_succ ih

/-- **A pass in which a deployment was stuck** is the last one, and the loop ends at it. -/
theorem ends_of_hasStuck {before after : List (List TickReport)} {reports : List TickReport}
    (h : (drainFrom ref maxAttempts world n left advancedTotal f).passes =
      before ++ reports :: after) (hstuck : hasStuck reports = true) :
    after = [] ∧ (drainFrom ref maxAttempts world n left advancedTotal f).ending = .stuck := by
  induction left generalizing n advancedTotal f before with
  | zero => cases List.append_eq_nil_iff.mp h.symm |>.2
  | succ left ih =>
    rw [drainFrom] at h ⊢
    split at h
    · cases List.append_eq_nil_iff.mp h.symm |>.2
    · next reports' g _ =>
      dsimp only at h ⊢
      cases before with
      | nil =>
        -- the pass is the first one
        have hfirst : hasStuck reports' = true := by
          split at h
          · rw [(List.cons.inj h).1, hstuck]
          · split at h <;> rw [(List.cons.inj h).1, hstuck]
        rw [if_pos hfirst] at h ⊢
        exact ⟨(List.cons.inj h).2.symm, rfl⟩
      | cons first before =>
        split at h
        · cases List.append_eq_nil_iff.mp (List.cons.inj h).2.symm |>.2
        · next hno =>
          rw [if_neg hno]
          split at h
          · cases List.append_eq_nil_iff.mp (List.cons.inj h).2.symm |>.2
          · next hmoved =>
            rw [if_neg hmoved]
            exact ih (List.cons.inj h).2

/-- **While the clock stands still, the loop ends by itself**: it makes one pass more than
slots are owed, at most, and spends all its passes only on slots that are owed. -/
theorem passes_le_owed (hstill : StandsStill now world) :
    (drainFrom ref maxAttempts world n left advancedTotal f).passes.length ≤
        owed ref now f.toFleet + 1 ∧
      ((drainFrom ref maxAttempts world n left advancedTotal f).ending = .ceiling →
        left ≤ owed ref now f.toFleet) := by
  induction left generalizing n advancedTotal f with
  | zero => exact ⟨Nat.zero_le _, fun _ => Nat.zero_le _⟩
  | succ left ih =>
    rw [drainFrom]
    split
    · exact ⟨Nat.zero_le _, fun h => by cases h⟩
    · next reports g hsweep =>
      have hpaid := sweep_owed (hstill n) hsweep
      split
      · exact ⟨Nat.succ_le_succ (Nat.zero_le _), fun h => by cases h⟩
      · split
        · exact ⟨Nat.succ_le_succ (Nat.zero_le _), fun h => by cases h⟩
        · next hmoved =>
          obtain ⟨hlen, hceiling⟩ :=
            @ih g (n + 1) (advancedTotal + advancedIn reports)
          refine ⟨?_, fun h => ?_⟩
          · rw [List.length_cons]
            omega
          · have := hceiling h
            omega

/-! ## Nothing fails -/

/-- A row whose apply and whose advance go through. -/
def GoesThrough (a : RowAnswers) : Prop :=
  (∀ attempt, a.apply attempt = .applied) ∧ answered a.advance = true

/-- **A row that goes through** is applied once, and its cursor is on the next slot. The first
attempt succeeds, so that the limit on attempts does not matter beyond there being one. -/
theorem runOne_of_goesThrough {a : RowAnswers} (ha : GoesThrough a) (hmax : 0 < maxAttempts)
    {period : Period} (h : Due ref s tmIntervalId due period) (id : ℕ) :
    runOne maxAttempts a id s due = some (⟨id, .applied, 1⟩,
      spInsScheduleStatus s due.deployment.deploymentVid .pending due.nextScheduledTs) := by
  obtain ⟨left, rfl⟩ := Nat.exists_eq_succ_of_ne_zero hmax.ne'
  have hattempts : attempts a.apply 1 (left + 1) = some (true, 1) := by
    rw [attempts, ha.1]
  have hversion : (s.deployments.any fun d =>
      d.deploymentVid = due.deployment.deploymentVid) = true :=
    List.any_eq_true.mpr ⟨due.deployment, List.mem_of_head? h.deployment, decide_eq_true rfl⟩
  have hwrite : writeAdvance s due a.advance =
      spInsScheduleStatus s due.deployment.deploymentVid .pending due.nextScheduledTs := by
    cases hfate : a.advance with
    | refused =>
      have := ha.2
      rw [hfate] at this
      cases this
    | committed scheduled told => exact if_pos hversion
  rw [runOne, hattempts, Option.map_some, if_pos rfl, advance, hversion, ha.2, hwrite]
  rfl

/-- Every row that goes through is reported as applied. -/
theorem runRows_of_goesThrough {row : ℕ → RowAnswers} (ha : ∀ id, GoesThrough (row id))
    (hmax : 0 < maxAttempts) {rows : List (ℕ × DueRow)}
    (h : Fresh ref now tmIntervalId rows f) :
    ∃ results, (runRows maxAttempts row rows f).1 = some results ∧
      results.length = rows.length ∧ ∀ r ∈ results, r.outcome = .applied := by
  induction rows generalizing f with
  | nil => exact ⟨[], rfl, rfl, fun _ h => absurd h List.not_mem_nil⟩
  | cons e rows ih =>
    obtain ⟨id, due⟩ := e
    obtain ⟨-, -, hdue⟩ := h.due _ List.mem_cons_self
    obtain ⟨period, hdue⟩ := dueRow_eq_some_iff.mp hdue
    obtain ⟨results, hresults, hlen, hall⟩ := ih (h.tail
      (spInsScheduleStatus (f.state id) due.deployment.deploymentVid .pending due.nextScheduledTs)
      (List.replicate 1 (id, due.schedule.scheduledTs)))
    rw [runRows, runOne_of_goesThrough (ha id) hmax hdue id]
    dsimp only
    rw [hresults]
    refine ⟨⟨id, .applied, 1⟩ :: results, rfl, congrArg Nat.succ hlen, fun r hr => ?_⟩
    rcases List.mem_cons.mp hr with rfl | hr
    · rfl
    · exact hall r hr

/-- An interval that can be read reports every due row as applied. -/
theorem runInterval_of_goesThrough (ref : TradeRefData) {a : IntervalAnswers}
    (hread : a.readFails = false) (hnow : a.now = now) (ha : ∀ id, GoesThrough (a.row id))
    (hmax : 0 < maxAttempts) (tmIntervalId : ℕ) (f : DrainState) :
    ∃ report, (runInterval ref maxAttempts a tmIntervalId f).1 = some report ∧
      report.advanced = (dueRows ref (f.at now).toFleet tmIntervalId).length ∧
      ∀ r ∈ report.results, r.outcome = .applied := by
  have hfresh : Fresh ref now tmIntervalId (dueRows ref (f.at now).toFleet tmIntervalId)
      (f.at now) := fresh_dueRows fun _ => rfl
  obtain ⟨results, hresults, hlen, hall⟩ := runRows_of_goesThrough ha hmax hfresh
  refine ⟨⟨tmIntervalId, results⟩, ?_, ?_, hall⟩
  · rw [runInterval, hread, hnow]
    show Option.map _ (runRows maxAttempts a.row _ _).1 = _
    rw [hresults]
    rfl
  · rw [← hlen]
    exact List.countP_eq_length.mpr fun r hr => by rw [RowResult.moved, hall r hr]; rfl

/-- How far a deployment has come: it was applied once for each slot below its cursor. -/
structure Progress (schedule : Schedule) (due : DueRow) (now : ℤ) (id n : ℕ) (f : DrainState) :
    Prop where
  /-- It is one of the fleet. -/
  mem : id ∈ f.ids
  /-- It is still the version that it was. -/
  deployment : (f.state id).deployments.head? = some due.deployment
  /-- Its cursor has moved on by so many slots. -/
  cursor : ∃ ss, (f.state id).schedule.head? = some ss ∧ ss.status = .pending ∧
    ss.scheduledTs = cursorAfter schedule due.schedule.scheduledTs n
  /-- It was applied once for each of them, in their order. -/
  applies : (f.applies.filter fun e => e.1 = id) =
    (List.range n).map (fun k => (id, cursorAfter schedule due.schedule.scheduledTs k))
  /-- All of which have come. -/
  past : ∀ k < n, cursorAfter schedule due.schedule.scheduledTs k ≤ now

/-- The turn of a due deployment takes it one slot further. -/
theorem Progress.next {period : Period} {id : ℕ} {due' : DueRow} {period' : Period}
    {tmIntervalId' : ℕ} {s' : DeploymentState} (hdue : Due ref s tmIntervalId due period)
    (h : Progress (dueSchedule ref tmIntervalId period due) due now id n f)
    (hdue' : Due ref (f.state id) tmIntervalId' due' period') (hclock : (f.state id).clock = now)
    (hs' : s' = spInsScheduleStatus (f.state id) due'.deployment.deploymentVid .pending
      due'.nextScheduledTs) :
    Progress (dueSchedule ref tmIntervalId period due) due now id (n + 1)
      (f.put id s' [(id, due'.schedule.scheduledTs)]) := by
  obtain ⟨ss, hss, hpending, hts⟩ := h.cursor
  cases hss.symm.trans hdue'.schedule
  have hdep : due'.deployment = due.deployment :=
    Option.some.inj (hdue'.deployment.symm.trans h.deployment)
  have htm : tmIntervalId' = tmIntervalId := by
    have := hdue'.interval
    rw [hdep, hdue.interval] at this
    exact (Option.some.inj this).symm
  subst htm
  cases Option.some.inj (hdue'.hasPeriod.symm.trans hdue.hasPeriod)
  constructor
  · exact h.mem
  · rw [f.put_state_self, hs']
    exact h.deployment
  · rw [f.put_state_self, hs']
    refine ⟨_, rfl, rfl, ?_⟩
    show due'.nextScheduledTs = _
    rw [hdue'.next, hts]
    rfl
  · show List.filter _ (f.applies ++ _) = _
    rw [List.filter_append, h.applies, List.range_succ, List.map_append, hts]
    simp
  · intro k hk
    rcases Nat.lt_succ_iff_lt_or_eq.mp hk with hk | rfl
    · exact h.past k hk
    · rw [← hts, ← hclock]
      exact hdue'.past

/-- **A sweep in which rows go through takes a deployment further**, by no more slots than
it reports advances. -/
theorem progress_rule {id : ℕ} {period : Period} (hmax : 0 < maxAttempts)
    (hdue : Due ref s tmIntervalId due period) :
    SweepRule ref maxAttempts now GoesThrough fun m f g =>
      ∀ n, Progress (dueSchedule ref tmIntervalId period due) due now id n f →
        ∃ n', n ≤ n' ∧ n' ≤ n + m ∧
          Progress (dueSchedule ref tmIntervalId period due) due now id n' g where
  refl _ n h := ⟨n, le_refl _, le_refl _, h⟩
  trans h1 h2 n h := by
    obtain ⟨n1, hle1, hn1, h⟩ := h1 n h
    obtain ⟨n2, hle2, hn2, h⟩ := h2 n1 h
    exact ⟨n2, hle1.trans hle2, by omega, h⟩
  lost := by
    rintro m f g ⟨a, id', s', due', ha, hnone⟩ -
    obtain ⟨left, rfl⟩ := Nat.exists_eq_succ_of_ne_zero hmax.ne'
    rw [runOne, attempts, ha.1] at hnone
    cases hnone
  clock _ n h := ⟨n, le_refl _, le_refl _, h.mem, h.deployment, h.cursor, h.applies, h.past⟩
  row := by
    intro f tmIntervalId' id' due' period' a result s' hid' hdue' hclock ha hrun n h
    rw [runOne_of_goesThrough ha hmax hdue' id'] at hrun
    obtain ⟨rfl, hs'⟩ := Prod.ext_iff.mp (Option.some.inj hrun)
    by_cases hne : id = id'
    · subst hne
      exact ⟨n + 1, Nat.le_succ n, le_refl _, h.next hdue hdue' hclock hs'.symm⟩
    · refine ⟨n, le_refl _, Nat.le_add_right _ _, h.mem, ?_, ?_, ?_, h.past⟩
      · rw [f.put_state_of_ne hne]
        exact h.deployment
      · rw [f.put_state_of_ne hne]
        exact h.cursor
      · rw [← h.applies]
        show List.filter _ (f.applies ++ _) = _
        rw [List.filter_append]
        simp [Ne.symm hne]

/-! ## A pass in which nothing fails -/

/-- The slots of a schedule come one after the other. -/
theorem cursorAfter_mono (c : Schedule) (scheduledTs : ℤ) {m n : ℕ} (h : m ≤ n) :
    cursorAfter c scheduledTs m ≤ cursorAfter c scheduledTs n :=
  monotone_nat_of_le_succ
    (fun n => (le_add_iff_nonneg_right (cursorAfter c scheduledTs n)).mpr c.period.pos.le) h

variable {answers : ℕ → IntervalAnswers} {id : ℕ} {period : Period}

/-- While the next slot is not after the clock, the deployment is due. -/
theorem Progress.dueAgain (hdue : Due ref s tmIntervalId due period)
    (h : Progress (dueSchedule ref tmIntervalId period due) due now id n f)
    (hle : cursorAfter (dueSchedule ref tmIntervalId period due) due.schedule.scheduledTs n ≤ now) :
    ∃ due', dueRow ref ((f.at now).state id) tmIntervalId = some due' := by
  obtain ⟨ss, hss, hpending, hts⟩ := h.cursor
  exact ⟨⟨due.deployment, ss, ss.scheduledTs + period.length⟩, dueRow_eq_some_iff.mpr
    ⟨period, h.deployment, hss, hdue.interval, hdue.hasPeriod, hdue.enabled, hdue.paused,
      hdue.stopped, hpending, hts.le.trans hle, rfl⟩⟩

/-- What is due is among the rows of its interval. -/
theorem length_dueRows_pos {f : Fleet} (hid : id ∈ f.ids)
    (h : dueRow ref (f.state id) tmIntervalId = some due) :
    0 < (dueRows ref f tmIntervalId).length := by
  have hmem : (id, due) ∈ dueRows ref f tmIntervalId := by
    rw [dueRows, List.mem_insertionSort]
    exact List.mem_filterMap.mpr ⟨id, hid, Option.map_eq_some_iff.mpr ⟨due, h, rfl⟩⟩
  exact List.length_pos_of_mem hmem

/-- A sweep in which rows go through has applied all that it reports. -/
theorem applied_of_goesThrough (hread : ∀ k, (answers k).readFails = false)
    (hnow : ∀ k, (answers k).now = now) (ha : ∀ k id, GoesThrough ((answers k).row id))
    (hmax : 0 < maxAttempts) (tmIntervalIds : List ℕ) :
    ∀ report ∈ (sweepFrom ref maxAttempts answers n tmIntervalIds f).1,
      ∀ r ∈ report.results, r.outcome = .applied := by
  induction tmIntervalIds generalizing n f with
  | nil => exact fun _ h => absurd h List.not_mem_nil
  | cons t rest ih =>
    obtain ⟨report, hreport, -, hall⟩ :=
      runInterval_of_goesThrough ref (hread n) (hnow n) (ha n) hmax t f
    intro report' h
    rw [sweepFrom, hreport] at h
    rcases List.mem_cons.mp h with rfl | h
    · exact hall
    · exact ih report' h

/-- **A sweep that leaves out nothing moves a cursor** while a slot is not after the
clock. -/
theorem advancedIn_pos (hread : ∀ k, (answers k).readFails = false)
    (hnow : ∀ k, (answers k).now = now) (ha : ∀ k id, GoesThrough ((answers k).row id))
    (hmax : 0 < maxAttempts) (hdue : Due ref s tmIntervalId due period) {m : ℕ}
    (h : Progress (dueSchedule ref tmIntervalId period due) due now id m f)
    (hle : cursorAfter (dueSchedule ref tmIntervalId period due) due.schedule.scheduledTs m ≤ now)
    {tmIntervalIds : List ℕ} (hmem : tmIntervalId ∈ tmIntervalIds) :
    0 < advancedIn (sweepFrom ref maxAttempts answers n tmIntervalIds f).1 := by
  induction tmIntervalIds generalizing n m f with
  | nil => cases hmem
  | cons t rest ih =>
    obtain ⟨report, hreport, hlen, -⟩ :=
      runInterval_of_goesThrough ref (hread n) (hnow n) (ha n) hmax t f
    have hsum : advancedIn (sweepFrom ref maxAttempts answers n (t :: rest) f).1 =
        report.advanced + advancedIn (sweepFrom ref maxAttempts answers (n + 1) rest
          (runInterval ref maxAttempts (answers n) t f).2).1 := by
      rw [sweepFrom, hreport]
      rfl
    rw [hsum]
    rcases Nat.eq_zero_or_pos report.advanced with hzero | hpos
    · -- the interval moved nothing: it is another one, and the deployment is where it was
      have hne : tmIntervalId ≠ t := by
        rintro rfl
        obtain ⟨due', hdue'⟩ := h.dueAgain hdue hle
        have := length_dueRows_pos (f := (f.at now).toFleet) h.mem hdue'
        omega
      obtain ⟨m', -, hm', hnext⟩ :=
        (progress_rule hmax hdue).runInterval (hnow n) (ha n) t f m h
      rw [hreport, Option.map_some, Option.getD_some, hzero] at hm'
      have hrest := ih (n := n + 1) hnext
        ((cursorAfter_mono _ _ hm').trans hle) (List.mem_of_ne_of_mem hne hmem)
      omega
    · omega

/-- **The loop takes a deployment to the clock** when nothing fails and not all its passes
are spent. -/
theorem drainFrom_progress (hstill : StandsStill now world) (hfails : NothingFails world)
    (hreads : ReadsAll ref world) (hmax : 0 < maxAttempts)
    (hdue : Due ref s tmIntervalId due period) {m : ℕ}
    (h : Progress (dueSchedule ref tmIntervalId period due) due now id m f)
    (hend : (drainFrom ref maxAttempts world n left advancedTotal f).ending ≠ .ceiling) :
    ∃ m', Progress (dueSchedule ref tmIntervalId period due) due now id m'
        (drainFrom ref maxAttempts world n left advancedTotal f).state ∧
      now < cursorAfter (dueSchedule ref tmIntervalId period due) due.schedule.scheduledTs m' := by
  induction left generalizing n m advancedTotal f with
  | zero => exact absurd rfl hend
  | succ left ih =>
    obtain ⟨tmIntervalIds, hids, hall⟩ := hreads.intervals n
    have ha : ∀ k id, GoesThrough (((world n).interval k).row id) := fun k id =>
      ⟨hfails.apply n k id, hfails.advance n k id⟩
    have hsweep : sweep ref maxAttempts (world n) f =
        (some (sweepFrom ref maxAttempts (world n).interval 0 tmIntervalIds f).1,
          (sweepFrom ref maxAttempts (world n).interval 0 tmIntervalIds f).2) := by
      rw [sweep, hids]
    have hstuck : hasStuck (sweepFrom ref maxAttempts (world n).interval 0 tmIntervalIds f).1 =
        false := by
      refine List.any_eq_false.mpr fun report hreport => ?_
      rw [List.any_eq_true]
      rintro ⟨r, hr, hout⟩
      rw [applied_of_goesThrough (hreads.read n) (hstill n) ha hmax tmIntervalIds report hreport
        r hr] at hout
      cases hout
    obtain ⟨m', hle', hm', hnext⟩ :=
      (progress_rule hmax hdue).sweepFrom (hstill n) ha 0 tmIntervalIds f m h
    rw [drainFrom, hsweep] at hend ⊢
    dsimp only at hend ⊢
    rw [hstuck, if_neg Bool.false_ne_true] at hend ⊢
    split at hend
    · next hzero =>
      rw [if_pos hzero]
      refine ⟨m', hnext, lt_of_not_ge fun hle => ?_⟩
      -- no cursor moved, so this one was due in this very pass
      obtain rfl : m = m' := by omega
      have hpos := advancedIn_pos (n := 0) (hreads.read n) (hstill n) ha hmax hdue h hle
        (hall tmIntervalId (by rw [hdue.hasPeriod]; rfl))
      omega
    · next hmoved =>
      rw [if_neg hmoved]
      exact ih hnext hend

/-- Progress past the clock is what is promised. -/
theorem Progress.caughtUp {run : DrainRun} {schedule : Schedule}
    (h : Progress schedule due now id n run.state)
    (hlt : now < cursorAfter schedule due.schedule.scheduledTs n) :
    CaughtUp now run id schedule due := by
  obtain ⟨ss, hss, hpending, hts⟩ := h.cursor
  refine ⟨n, fun k => ⟨h.past k, fun hle => lt_of_not_ge fun hge => ?_⟩, h.applies, ?_⟩
  · exact absurd (cursorAfter_mono _ _ hge) (not_le.mpr (hle.trans_lt hlt))
  · rw [hss, Option.map_some, hpending, hts]

/-- A fleet that has not been swept. -/
theorem Progress.start {fleet : Fleet} (hid : id ∈ fleet.ids)
    (hdue : Due ref { fleet.state id with clock := now } tmIntervalId due period) :
    Progress (dueSchedule ref tmIntervalId period due) due now id 0 ⟨fleet, []⟩ :=
  ⟨hid, hdue.deployment, ⟨_, hdue.schedule, hdue.pending, rfl⟩, rfl,
    fun _ h => absurd h (Nat.not_lt_zero _)⟩

end

/-- **A drain ends, and skips nothing.** It makes no more passes than it may, and none after
one in which a deployment was stuck. While the clock stands still it ends by itself, after
one pass more than slots are owed. If also no apply and no write fails and every interval
can be read, each deployment that is due is caught up, unless all passes were spent. -/
theorem drain_catches_up (ref : TradeRefData) (maxAttempts maxDrainPasses : ℕ)
    (world : ℕ → PassAnswers) (fleet : Fleet) :
    (drain ref maxAttempts maxDrainPasses world fleet).passes.length ≤ maxDrainPasses ∧
    (∀ before reports after,
      (drain ref maxAttempts maxDrainPasses world fleet).passes = before ++ reports :: after →
      hasStuck reports = true →
      after = [] ∧ (drain ref maxAttempts maxDrainPasses world fleet).ending = .stuck) ∧
    ∀ now, StandsStill now world →
      (drain ref maxAttempts maxDrainPasses world fleet).passes.length ≤ owed ref now fleet + 1 ∧
      ((drain ref maxAttempts maxDrainPasses world fleet).ending = .ceiling →
        maxDrainPasses ≤ owed ref now fleet) ∧
      (NothingFails world → ReadsAll ref world → 0 < maxAttempts →
        (drain ref maxAttempts maxDrainPasses world fleet).ending ≠ .ceiling →
        ∀ id ∈ fleet.ids, ∀ tmIntervalId period due,
          Due ref { fleet.state id with clock := now } tmIntervalId due period →
          CaughtUp now (drain ref maxAttempts maxDrainPasses world fleet) id
            (dueSchedule ref tmIntervalId period due) due) := by
  refine ⟨length_passes_le, fun before reports after => ends_of_hasStuck, fun now hstill =>
    ⟨(passes_le_owed hstill).1, (passes_le_owed hstill).2,
      fun hfails hreads hmax hend id hid tmIntervalId period due hdue => ?_⟩⟩
  obtain ⟨n, hn, hlt⟩ :=
    drainFrom_progress hstill hfails hreads hmax hdue (Progress.start hid hdue) hend
  exact hn.caughtUp hlt

/-! ### Two deployments behind -/

/-- Every deployment is applied, and every write goes through. The clock shows three
minutes. Some passes cannot read the interval. -/
def applies (unread : ℕ → Bool) (n : ℕ) : PassAnswers where
  intervals := some [0]
  interval _ := ⟨unread n, 180000000,
    fun _ => ⟨fun _ => .applied, .committed true true, .committed true true⟩⟩

/-- The deployment of every minute, with its cursor here. -/
def waiting (scheduledTs : ℤ) : DeploymentState :=
  ⟨0, [⟨everyMinute, 1, ⟨[], false⟩⟩], [⟨1, 1, .pending, scheduledTs⟩]⟩

/-- What is read of it. -/
def waitingDue (scheduledTs : ℤ) : DueRow :=
  ⟨⟨everyMinute, 1, ⟨[], false⟩⟩, ⟨1, 1, .pending, scheduledTs⟩, scheduledTs + minutePeriod.length⟩

/-- One deployment is three minutes behind, and one a minute. -/
def twoBehind : Fleet := ⟨[1, 2], by decide, fun id => waiting (if id = 1 then 0 else 120000000)⟩

/-- The one that is further behind is due. -/
theorem twoBehind_due : Due minuteTrading { twoBehind.state 1 with clock := 180000000 } 0
    (waitingDue 0) minutePeriod :=
  ⟨rfl, rfl, rfl, rfl, rfl, by decide, by decide, rfl, by decide, rfl⟩

/-- It is applied for its four slots. -/
theorem twoBehind_catches_up :
    CaughtUp 180000000 (drain minuteTrading 2 8 (applies fun _ => false) twoBehind) 1
      (dueSchedule minuteTrading 0 minutePeriod (waitingDue 0)) (waitingDue 0) := by
  have hreads : ReadsAll minuteTrading (applies fun _ => false) := by
    refine ⟨fun _ => ⟨[0], rfl, fun i hi => List.mem_singleton.mpr ?_⟩, fun _ _ => rfl⟩
    by_contra hne
    rw [show minuteTrading.period i = none from if_neg hne] at hi
    cases hi
  exact ((drain_catches_up minuteTrading 2 8 (applies fun _ => false) twoBehind).2.2 180000000
    fun _ _ => rfl).2.2 ⟨fun _ _ _ _ => rfl, fun _ _ _ => rfl⟩ hreads (by decide)
    (by decide +kernel) 1 (by decide) 0 minutePeriod (waitingDue 0) twoBehind_due

/-- The first pass cannot read the interval, and is the last one: nothing is applied. -/
theorem unread_not_caughtUp : StandsStill 180000000 (applies fun n => n = 0) ∧
    NothingFails (applies fun n => n = 0) ∧
    (drain minuteTrading 2 8 (applies fun n => n = 0) twoBehind).ending = .caughtUp ∧
    Due minuteTrading { twoBehind.state 1 with clock := 180000000 } 0 (waitingDue 0)
      minutePeriod ∧
    ¬CaughtUp 180000000 (drain minuteTrading 2 8 (applies fun n => n = 0) twoBehind) 1
      (dueSchedule minuteTrading 0 minutePeriod (waitingDue 0)) (waitingDue 0) := by
  refine ⟨fun _ _ => rfl, ⟨fun _ _ _ _ => rfl, fun _ _ _ => rfl⟩, by decide +kernel,
    twoBehind_due, ?_⟩
  rintro ⟨n, hn, happlies, -⟩
  have hzero : n = 0 := by
    have hnone :
        (drain minuteTrading 2 8 (applies fun n => n = 0) twoBehind).state.applies = [] := by
      decide +kernel
    rw [hnone, List.filter_nil, eq_comm, List.map_eq_nil_iff] at happlies
    exact List.range_eq_nil.mp happlies
  exact absurd ((hn 0).mpr (by decide)) (by rw [hzero]; exact lt_irrefl 0)

end Drain
