import QuantStrategies.Trade.Deployment

/-!
# A schedule's cursor only moves on

A tick moves the cursor from a due row that it read before the apply. By the time
it writes, the user may have stopped, rescheduled or re-enabled the deployment,
and another sweep may have moved the cursor already. The advance is written all
the same: `SP_INS_DEPLOYMENT_SCHEDULE_STATUS` takes the version it is handed, and
the check before it asks only that the version exists.

What is claimed of the schedule is that the deployment versions of its rows never
go down (so that no tick reopens or replaces what a later version wrote), and
that the pending slots of one version rise. A version's own row always satisfies
both, since it carries the highest version there is. An advance does when the
schedule has no row of its version, or of a later one, that is newer than the
row it was due on (`CursorUnmoved`), and in runs where every advance meets this
the cursor only moves on (`cursor_moves_on`).

A row of the schedule is written under the version that its writer has read, and not under
the one that is current. This is why an advance that comes late can bring an old version
back, and why it is enough to look at the cursor when it is moved: if it is still the one
that the due row was read with, nothing can have come in between.
-/

variable {ref : TradeRefData} {s s' : DeploymentState} {w w' : DeploymentCall} {o : CallOutcome}

/-- No row of a schedule is of an older version than a row before it: nothing
that a version wrote is reopened or replaced on behalf of an earlier one. -/
def NeverReinstated (schedule : List ScheduleRow) : Prop :=
  schedule.Pairwise (fun later earlier => earlier.deploymentVid ≤ later.deploymentVid)

/-- The pending slots of one version rise. -/
def SlotsRise (schedule : List ScheduleRow) : Prop :=
  schedule.Pairwise (fun later earlier => later.status = .pending → earlier.status = .pending →
    later.deploymentVid = earlier.deploymentVid → earlier.scheduledTs < later.scheduledTs)

instance (schedule : List ScheduleRow) : Decidable (NeverReinstated schedule) :=
  inferInstanceAs (Decidable (schedule.Pairwise _))

instance (schedule : List ScheduleRow) : Decidable (SlotsRise schedule) :=
  inferInstanceAs (Decidable (schedule.Pairwise _))

/-- The condition on an advance: no schedule row newer than the due one is of
the due row's version or of a later one. -/
def CursorUnmoved (s : DeploymentState) (w : DeploymentCall) (o : CallOutcome) : Prop :=
  ∀ due ∈ advances w o, ∀ x ∈ s.schedule,
    due.schedule.deploymentScheduleVid < x.deploymentScheduleVid →
      x.deploymentVid < due.deployment.deploymentVid

instance (s : DeploymentState) (w : DeploymentCall) (o : CallOutcome) :
    Decidable (CursorUnmoved s w o) :=
  inferInstanceAs (Decidable (∀ due ∈ advances w o, ∀ x ∈ s.schedule,
    due.schedule.deploymentScheduleVid < x.deploymentScheduleVid →
      x.deploymentVid < due.deployment.deploymentVid))

/-- The numbers of the deployment's versions grow as they are written. -/
abbrev VersionsNumbered : List Deployment → Prop :=
  Versioned.Numbered (fun _ => ()) Deployment.deploymentVid

/-- The numbers of the schedule's rows grow as they are written. -/
abbrev RowsNumbered : List ScheduleRow → Prop :=
  Versioned.Numbered (fun _ => ()) ScheduleRow.deploymentScheduleVid

/-- What the logs keep: their numbers, and what is claimed of the schedule. Every
row of the schedule is of a version there is. -/
structure ScheduleOk (s : DeploymentState) : Prop where
  /-- The versions are numbered in the order in which they were written. -/
  versions : VersionsNumbered s.deployments
  /-- So are the rows of the schedule. -/
  rows : RowsNumbered s.schedule
  /-- A row of the schedule is written for a version that exists. -/
  bounded : ∀ x ∈ s.schedule, x.deploymentVid < nextDeploymentVid s.deployments
  /-- The versions of the rows never go down. -/
  never : NeverReinstated s.schedule
  /-- And under one version the slots go up. -/
  rise : SlotsRise s.schedule

/-- What a due row keeps: it is pending, of a version no later than the one it
was joined with, and the slot after it is later. -/
structure DueOk (s : DeploymentState) (due : DueRow) : Prop where
  /-- The row that is due is one of the schedule's. -/
  mem : due.schedule ∈ s.schedule
  /-- The deployment that it was joined with is one of the versions. -/
  deployment : due.deployment ∈ s.deployments
  /-- The slot is still to come. -/
  pending : due.schedule.status = .pending
  /-- It was written for this version of the deployment or for an earlier one. -/
  le : due.schedule.deploymentVid ≤ due.deployment.deploymentVid
  /-- The cursor is to be moved on. -/
  next : due.schedule.scheduledTs < due.nextScheduledTs

/-- What a call keeps of the due row it has read, if it has read one. -/
def CallDueOk (s : DeploymentState) : DeploymentCall → Prop
  | .applying due => DueOk s due
  | .pauseWrite due => DueOk s due
  | .advanceWrite due => DueOk s due
  | _ => True

/-- The next number is above all that there are. -/
theorem lt_nextDeploymentVid {log : List Deployment} {d : Deployment} (h : d ∈ log) :
    d.deploymentVid < nextDeploymentVid log :=
  Versioned.lt_nextVid h rfl

/-! ## What a step appends -/

/-- In the beginning nothing is there that could break it. -/
theorem ScheduleOk.init (h : s.deployments = [] ∧ s.schedule = []) : ScheduleOk s := by
  obtain ⟨hd, hs⟩ := h
  constructor
  · rw [hd]
    exact List.Pairwise.nil
  · rw [hs]
    exact List.Pairwise.nil
  · rw [hs]
    exact fun x hx => absurd hx List.not_mem_nil
  · rw [hs]
    exact List.Pairwise.nil
  · rw [hs]
    exact List.Pairwise.nil

/-- A row goes on top of a schedule when it is of a version there is, no older
than any before it, and its slot, if it is pending, is later than those of its
version. -/
theorem ScheduleOk.append (h : ScheduleOk s) {vid : ℕ} {status : ScheduleStatus} {ts : ℤ}
    (hb : vid < nextDeploymentVid s.deployments)
    (hnever : ∀ x ∈ s.schedule, x.deploymentVid ≤ vid)
    (hrise : ∀ x ∈ s.schedule, status = .pending → x.status = .pending → vid = x.deploymentVid →
      x.scheduledTs < ts) :
    ScheduleOk (spInsScheduleStatus s vid status ts) where
  versions := h.versions
  rows := h.rows.append rfl
  bounded := by
    intro x hx
    rcases List.mem_cons.mp hx with rfl | hx
    · exact hb
    · exact h.bounded x hx
  never := List.pairwise_cons.mpr ⟨hnever, h.never⟩
  rise := List.pairwise_cons.mpr ⟨hrise, h.rise⟩

/-- The schedule row of a new version is of the highest version there is. -/
theorem ScheduleOk.commit (h : ScheduleOk s) (d : DeploymentRow) (asked : Asked) (ts : Option ℤ)
    (scheduled : Bool) : ScheduleOk (spInsDeployment s d asked ts scheduled) := by
  have hwritten : ScheduleOk
      { s with deployments := ⟨d, nextDeploymentVid s.deployments, asked⟩ :: s.deployments } :=
    ⟨h.versions.append rfl, h.rows,
      fun x hx => (h.bounded x hx).trans_le Versioned.nextVid_le_cons, h.never, h.rise⟩
  have hlt : nextDeploymentVid s.deployments
      < nextDeploymentVid (⟨d, nextDeploymentVid s.deployments, asked⟩ :: s.deployments) :=
    lt_nextDeploymentVid (d := ⟨d, nextDeploymentVid s.deployments, asked⟩) List.mem_cons_self
  unfold spInsDeployment
  dsimp only
  split
  · split
    · refine hwritten.append hlt
        (fun x hx => (h.bounded x hx).le) (fun x hx _ _ hvid => ?_)
      exact absurd hvid.symm (ne_of_lt (h.bounded x hx))
    · exact hwritten
  · exact hwritten

/-- An advance that meets the condition goes on top of the schedule. -/
theorem ScheduleOk.advance (h : ScheduleOk s) {due : DueRow} (hdue : DueOk s due)
    (hunmoved : ∀ x ∈ s.schedule,
      due.schedule.deploymentScheduleVid < x.deploymentScheduleVid →
        x.deploymentVid < due.deployment.deploymentVid) :
    ScheduleOk (spInsScheduleStatus s due.deployment.deploymentVid .pending
      due.nextScheduledTs) := by
  refine h.append (lt_nextDeploymentVid hdue.deployment) (fun x hx => ?_)
    (fun x hx _ hpending hvid => ?_)
  · rcases lt_trichotomy x.deploymentScheduleVid due.schedule.deploymentScheduleVid
      with hlt | heq | hgt
    · exact (h.rows.of_lt h.never hx hdue.mem rfl hlt).trans hdue.le
    · rw [h.rows.eq hx hdue.mem rfl heq]
      exact hdue.le
    · exact (hunmoved x hx hgt).le
  · rcases lt_trichotomy x.deploymentScheduleVid due.schedule.deploymentScheduleVid
      with hlt | heq | hgt
    -- an older row of the version: the due row is of it too, and rose above it
    · have hle := h.rows.of_lt h.never hx hdue.mem rfl hlt
      have hsame : due.schedule.deploymentVid = x.deploymentVid :=
        le_antisymm (hdue.le.trans_eq hvid) hle
      exact (h.rows.of_lt h.rise hx hdue.mem rfl hlt hdue.pending hpending hsame).trans hdue.next
    · rw [h.rows.eq hx hdue.mem rfl heq]
      exact hdue.next
    · exact absurd hvid.symm (ne_of_lt (hunmoved x hx hgt))

/-- **A step keeps the schedule**, if a cursor that it moves is the one that it read. The cases
are the statements that write a row. -/
theorem stepCall_scheduleOk (h : ScheduleOk s) (hw : CallDueOk s w) (hu : CursorUnmoved s w o)
    (hstep : stepCall ref s w o = some (s', w')) : ScheduleOk s' := by
  rcases stepCall_writes hstep with ⟨rfl, -⟩ | ⟨c, ts, scheduled, -, rfl⟩ | ⟨due, hadv, rfl⟩
  · exact h
  · exact h.commit _ _ _ _
  · refine h.advance ?_ (hu due hadv)
    unfold advances at hadv
    split at hadv
    · exact Option.some.inj hadv ▸ hw
    · exact absurd hadv (by simp)

/-! ## What a call keeps -/

/-- Both logs only grow. -/
def Grows (s s' : DeploymentState) : Prop :=
  (∀ d ∈ s.deployments, d ∈ s'.deployments) ∧ ∀ x ∈ s.schedule, x ∈ s'.schedule

/-- Writing a version takes nothing away. -/
theorem spInsDeployment_grows (s : DeploymentState) (d : DeploymentRow) (asked : Asked)
    (ts : Option ℤ) (scheduled : Bool) : Grows s (spInsDeployment s d asked ts scheduled) := by
  refine ⟨fun d' hd' => ?_, fun x hx => ?_⟩
  · rw [spInsDeployment_deployments]
    exact List.mem_cons_of_mem _ hd'
  · unfold spInsDeployment
    dsimp only
    split
    · split
      · exact List.mem_cons_of_mem _ hx
      · exact hx
    · exact hx

theorem stepCall_grows (hstep : stepCall ref s w o = some (s', w')) : Grows s s' := by
  rcases stepCall_writes hstep with ⟨rfl, -⟩ | ⟨c, ts, scheduled, -, rfl⟩ | ⟨due, -, rfl⟩
  · exact ⟨fun _ h => h, fun _ h => h⟩
  · exact spInsDeployment_grows _ _ _ _ _
  · exact ⟨fun _ h => h, fun _ h => List.mem_cons_of_mem _ h⟩

/-- So what is known of a due row stays known. -/
theorem DueOk.grow {due : DueRow} (h : DueOk s due) (hs : Grows s s') : DueOk s' due :=
  ⟨hs.2 _ h.mem, hs.1 _ h.deployment, h.pending, h.le, h.next⟩

/-- And what a call under way knows of its own. -/
theorem CallDueOk.grow (h : CallDueOk s w) (hs : Grows s s') : CallDueOk s' w := by
  cases w with
  | applying due => exact DueOk.grow h hs
  | pauseWrite due => exact DueOk.grow h hs
  | advanceWrite due => exact DueOk.grow h hs
  | _ => trivial

/-- The due query joins the current version with the current schedule row. -/
theorem dueRow_ok (h : ScheduleOk s) {tmIntervalId : ℕ} {due : DueRow}
    (hdue : dueRow ref s tmIntervalId = some due) : DueOk s due := by
  unfold dueRow at hdue
  split at hdue
  · rename_i d ss period hd hss hperiod
    split at hdue
    · rename_i hcond
      obtain rfl := Option.some.inj hdue
      obtain ⟨-, -, -, -, hpending, -⟩ := hcond
      have hmem := List.mem_of_head? hss
      obtain ⟨earlier, hlog⟩ := List.head?_eq_some_iff.mp hd
      -- the current version has the highest number
      have hnext : nextDeploymentVid s.deployments = d.deploymentVid + 1 := by
        have hn := h.versions
        rw [hlog] at hn ⊢
        exact hn.nextVid_cons
      refine ⟨hmem, List.mem_of_head? hd, hpending, ?_, ?_⟩
      · have hlt := h.bounded ss hmem
        rw [hnext] at hlt
        exact Nat.lt_succ_iff.mp hlt
      · exact lt_add_of_pos_right _ period.pos
    · exact absurd hdue (by simp)
  · exact absurd hdue (by simp)

/-- A call's step re-establishes what it knows of its due row: reading one is where it comes from.
-/
theorem stepCall_dueOk (h : ScheduleOk s) (hw : CallDueOk s w)
    (hstep : stepCall ref s w o = some (s', w')) : CallDueOk s' w' := by
  have hgrow := stepCall_grows hstep
  have hw' : ∀ {x : DeploymentState × DeploymentCall}, some x = some (s', w') → w' = x.2 :=
    fun h => congrArg Prod.snd (Option.some.inj h).symm
  unfold stepCall at hstep
  split at hstep
  · split at hstep <;> exact hw' hstep ▸ trivial
  · split at hstep <;> exact hw' hstep ▸ trivial
  · exact hw' hstep ▸ trivial
  · split at hstep <;> exact hw' hstep ▸ trivial
  · split at hstep <;> exact hw' hstep ▸ trivial
  · exact hw' hstep ▸ trivial
  · split at hstep
    · exact hw' hstep ▸ trivial
    · split at hstep <;> exact hw' hstep ▸ trivial
  · exact hw' hstep ▸ trivial
  -- a sweep has read a due row
  · split at hstep
    · exact hw' hstep ▸ trivial
    · rename_i due hdue
      rw [hw' hstep]
      exact (dueRow_ok h hdue).grow hgrow
  · rw [hw' hstep]
    exact DueOk.grow hw hgrow
  · rw [hw' hstep]
    exact DueOk.grow hw hgrow
  -- a pause that is not answered advances from the same row
  · rw [hw' hstep]
    dsimp only
    split
    · trivial
    · exact DueOk.grow hw hgrow
  · exact hw' hstep ▸ trivial
  · exact absurd hstep (by simp)

/-! ## Runs -/

/-- The runs in which every advance meets the condition. -/
abbrev UnmovedRun (ref : TradeRefData) : PoolState DeploymentState DeploymentCall → Prop :=
  (deploymentPool ref).machine.Reach (Pool.Guard CursorUnmoved (fun _ _ _ _ => True))

/-- Along a run in which no cursor is moved behind a call's back, the schedule is as it should be
and so is each call. -/
theorem UnmovedRun.invariant {p : PoolState DeploymentState DeploymentCall}
    (hp : UnmovedRun ref p) :
    ScheduleOk p.shared ∧ ∀ w ∈ p.workers, CallDueOk p.shared w := by
  refine Pool.invariant (I := ScheduleOk) (L := CallDueOk) hp ?_ ?_ ?_ ?_ ?_
  · exact fun s hs => ScheduleOk.init hs
  · intro s ws b w _ hw
    obtain rfl := Option.some.inj hw
    cases b <;> trivial
  · intro s e s' hI he
    cases e
    obtain rfl := Option.some.inj he
    refine ⟨⟨hI.versions, hI.rows, hI.bounded, hI.never, hI.rise⟩, fun w hw => hw.grow ?_⟩
    exact ⟨fun _ h => h, fun _ h => h⟩
  · intro s w o s' w' hI hw hu hstep
    exact ⟨stepCall_scheduleOk hI hw hu hstep, stepCall_dueOk hI hw hstep⟩
  · intro s w o s' w' v _ _ hv _ _ hstep
    exact hv.grow (stepCall_grows hstep)

/-- **The cursor only moves on** in a run whose advances meet the condition: no
schedule row reopens or replaces what a later version of the deployment wrote,
and the pending slots of one version rise. -/
theorem cursor_moves_on {p : PoolState DeploymentState DeploymentCall} (hp : UnmovedRun ref p) :
    NeverReinstated p.shared.schedule ∧ SlotsRise p.shared.schedule :=
  ⟨hp.invariant.1.never, hp.invariant.1.rise⟩

/-- A cursor is moved by a sweep and the deployment is stopped, one after the other, and the
schedule keeps its promise. -/
theorem advanced_then_stopped : ∃ p, UnmovedRun minuteTrading p ∧
    p.shared.schedule.map (fun x => (x.deploymentVid, x.status, x.scheduledTs))
      = [(2, .success, 120000000), (1, .pending, 120000000), (1, .pending, 60000000)] ∧
    NeverReinstated p.shared.schedule ∧ SlotsRise p.shared.schedule := by
  obtain ⟨p, hp, hP⟩ := Machine.Reach.exists_of_runs (M := (deploymentPool minuteTrading).machine)
    (G := Pool.Guard CursorUnmoved (fun _ _ _ _ => True))
    (s := ⟨⟨0, [], []⟩, []⟩) ⟨⟨rfl, rfl⟩, rfl⟩
    (dueAfterMinute ++ [.work 1 .applied, .work 1 wrote, .spawn (.stop 1), .work 2 .go,
      .work 2 wrote])
    (P := fun p => p.shared.schedule.map (fun x => (x.deploymentVid, x.status, x.scheduledTs))
      = [(2, .success, 120000000), (1, .pending, 120000000), (1, .pending, 60000000)])
    (by decide +kernel)
  exact ⟨p, hp, of_decide_eq_true hP, cursor_moves_on hp⟩

/-- **A stopped schedule is reopened**, by the advance of a sweep that read it as
due before the stop. -/
theorem advance_reopens_stopped : ∃ p,
    (deploymentPool minuteTrading).machine.Reach (fun _ _ => True) p ∧
      p.shared.schedule.map (fun x => (x.deploymentVid, x.status, x.scheduledTs))
        = [(1, .pending, 120000000), (2, .success, 60000000), (1, .pending, 60000000)] ∧
      p.shared.deployments.head?.map (fun d => d.deploymentStatus) = some .stopped ∧
      ¬ NeverReinstated p.shared.schedule := by
  obtain ⟨p, hp, hP⟩ := Machine.Reach.exists_of_runs (M := (deploymentPool minuteTrading).machine)
    (G := fun _ _ => True) (s := ⟨⟨0, [], []⟩, []⟩) ⟨⟨rfl, rfl⟩, rfl⟩
    (dueAfterMinute ++ [.work 1 .applied, .spawn (.stop 1), .work 2 .go, .work 2 wrote,
      .work 1 wrote])
    (P := fun p => p.shared.schedule.map (fun x => (x.deploymentVid, x.status, x.scheduledTs))
        = [(1, .pending, 120000000), (2, .success, 60000000), (1, .pending, 60000000)] ∧
      p.shared.deployments.head?.map (fun d => d.deploymentStatus) = some .stopped ∧
      ¬ NeverReinstated p.shared.schedule)
    (by decide +kernel)
  exact ⟨p, hp, of_decide_eq_true hP⟩
