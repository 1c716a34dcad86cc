import QuantStrategies.Lib.Result
import QuantStrategies.Trade.Deployment

/-!
# No edit of a deployment is lost

Every call that changes a deployment rebuilds the whole version from the row it
read: the fields it was asked to set, and the rest as it found them. An edit that
another call has committed in between is therefore written back to its older
value, unless the value happens to be the same.

What is claimed of the versions is that each differs from the one before it only
in fields its call was asked to set, and that a stopped deployment leaves that
status only when a status was asked for by name. The condition of this module
(`SeesEdits`) is on the two rows a call has before it: the one it read and the
one it replaces agree on the fields it was not asked to set. Runs in which every
commit meets it lose no edit (`edits_kept`), and a commit loses one exactly when
it does not.

So the condition is about the moment of the write, and not about how long a call takes: a
call may be held up for any time, as long as nobody else has changed, when it writes, what
it was not asked to change. It is needed as well as enough, step by step.
-/

variable {ref : TradeRefData} {s s' : DeploymentState} {w w' : DeploymentCall} {o : CallOutcome}

/-- A version differs from the one before it only in what its call was asked to
set, and does not undo a stop on its own account. -/
structure KeepsEdits (later earlier : Deployment) : Prop where
  /-- A field that was not asked for is as it was in the version before. -/
  same : ∀ f, f ∉ later.asked.fields → f.Same later.toDeploymentRow earlier.toDeploymentRow
  /-- And a deployment that was stopped stays so, unless a status was asked for. -/
  stopped : later.asked.statusByName = false → earlier.deploymentStatus = .stopped →
    later.deploymentStatus = .stopped

/-- No version of a log loses an edit. -/
def NoEditLost (log : List Deployment) : Prop := log.IsChain KeepsEdits

instance (later earlier : Deployment) : Decidable (KeepsEdits later earlier) :=
  decidable_of_iff ((∀ f, f ∉ later.asked.fields →
      f.Same later.toDeploymentRow earlier.toDeploymentRow) ∧
    (later.asked.statusByName = false → earlier.deploymentStatus = .stopped →
      later.deploymentStatus = .stopped)) ⟨fun h => ⟨h.1, h.2⟩, fun h => ⟨h.same, h.stopped⟩⟩

instance (log : List Deployment) : Decidable (NoEditLost log) :=
  inferInstanceAs (Decidable (log.IsChain KeepsEdits))

/-- Two versions agree on a field, whichever of them is looked at first. -/
theorem DeploymentField.Same.symm {f : DeploymentField} {a b : DeploymentRow} (h : f.Same a b) :
    f.Same b a := by
  cases f <;> exact Eq.symm h

/-- And the comparison goes through a version in between. -/
theorem DeploymentField.Same.trans {f : DeploymentField} {a b c : DeploymentRow}
    (h : f.Same a b) (h' : f.Same b c) : f.Same a c := by
  cases f <;> exact Eq.trans h h'

/-- **An edit stands** until a call that was asked to set its field commits. The induction is on
the commits after the edit, each of which keeps what it was not asked to change. -/
theorem NoEditLost.stands {later earlier : List Deployment} {c : Deployment}
    (h : NoEditLost (later ++ c :: earlier)) {f : DeploymentField}
    (hf : ∀ v ∈ later, f ∉ v.asked.fields) :
    ∀ v ∈ later, f.Same v.toDeploymentRow c.toDeploymentRow := by
  induction later with
  | nil => exact fun v hv => absurd hv List.not_mem_nil
  | cons x later ih =>
    have ih := ih h.tail fun v hv => hf v (List.mem_cons_of_mem _ hv)
    intro v hv
    rcases List.mem_cons.mp hv with rfl | hv
    · have hx := hf v List.mem_cons_self
      cases later with
      | nil => exact (List.isChain_cons_cons.mp h).1.same f hx
      | cons y later =>
        exact ((List.isChain_cons_cons.mp h).1.same f hx).trans (ih y List.mem_cons_self)
    · exact ih v hv

/-- **A stop stands** until a call that was asked for a status by name commits. -/
theorem NoEditLost.stop_stands {later earlier : List Deployment} {c : Deployment}
    (h : NoEditLost (later ++ c :: earlier)) (hc : c.deploymentStatus = .stopped)
    (hnamed : ∀ v ∈ later, v.asked.statusByName = false) :
    ∀ v ∈ later, v.deploymentStatus = .stopped := by
  induction later with
  | nil => exact fun v hv => absurd hv List.not_mem_nil
  | cons x later ih =>
    have ih := ih h.tail fun v hv => hnamed v (List.mem_cons_of_mem _ hv)
    intro v hv
    rcases List.mem_cons.mp hv with rfl | hv
    · have hx := hnamed v List.mem_cons_self
      cases later with
      | nil => exact (List.isChain_cons_cons.mp h).1.stopped hx hc
      | cons y later => exact (List.isChain_cons_cons.mp h).1.stopped hx (ih y List.mem_cons_self)
    · exact ih v hv

/-! ## The condition on a commit -/

/-- The condition on a commit: the current version agrees with the one the call
read on every field that the call was not asked to set, and is not stopped where
the call sets a status that nobody named. -/
def SeesEdits (s : DeploymentState) (w : DeploymentCall) (o : CallOutcome) : Prop :=
  ∀ c ∈ commits w o, ∀ current ∈ s.deployments.head?, ∀ read ∈ c.read,
    (∀ f, f ∉ c.asked.fields → f.Same current.toDeploymentRow read) ∧
    (c.asked.statusByName = false → .status ∈ c.asked.fields →
      current.deploymentStatus ≠ .stopped)

instance (s : DeploymentState) (w : DeploymentCall) (o : CallOutcome) :
    Decidable (SeesEdits s w o) :=
  inferInstanceAs (Decidable (∀ c ∈ commits w o, ∀ current ∈ s.deployments.head?,
    ∀ read ∈ c.read, (∀ f, f ∉ c.asked.fields → f.Same current.toDeploymentRow read) ∧
      (c.asked.statusByName = false → DeploymentField.status ∈ c.asked.fields →
        current.deploymentStatus ≠ .stopped)))

/-- What a call writes: the fields it was not asked to set as it read them, and
no stop that nobody named. Without a row read it was asked for everything. -/
structure Rebuilt (c : Commit) : Prop where
  /-- A field that was not asked for is written back as it was read. -/
  same : ∀ read ∈ c.read, ∀ f, f ∉ c.asked.fields → f.Same c.row read
  /-- A stop is never made up by the rebuilding. -/
  status : c.asked.statusByName = false → .status ∈ c.asked.fields →
    c.row.deploymentStatus ≠ .stopped
  /-- A call that read nothing was asked for everything: it creates the deployment. -/
  whole : c.read = none → c.asked = createAsked

/-- An update writes what it was asked for over the row it read. -/
theorem updatedRow_rebuilt {current : DeploymentRow} {req : UpdateDeploymentRequest} {qty : ℚ}
    (hqty : req.qty = none → qty = current.qty) :
    Rebuilt ⟨some current, updatedRow current req qty, req.asked current⟩ := by
  refine ⟨?_, ?_, fun h => absurd h (by simp)⟩
  · rintro read hread f hf
    obtain rfl := Option.some.inj hread
    simp only [UpdateDeploymentRequest.asked, List.mem_append, not_or] at hf
    obtain ⟨⟨⟨hq, hs⟩, he⟩, hi⟩ := hf
    cases f with
    | qty =>
      refine hqty (Option.not_isSome_iff_eq_none.mp fun h => hq ?_)
      rw [if_pos h]
      exact List.mem_singleton_self _
    | status =>
      have hnot : ¬ (req.deploymentStatus.isSome ∨ req.resumes current) := fun h => hs (by
        rw [if_pos h]
        exact List.mem_singleton_self _)
      obtain ⟨h1, h2⟩ := not_or.mp hnot
      show (if req.resumes current then _ else _) = _
      rw [if_neg h2, Option.not_isSome_iff_eq_none.mp h1]
      rfl
    | enabled =>
      have hnone : req.enabled = none := Option.not_isSome_iff_eq_none.mp fun h => he (by
        rw [if_pos h]
        exact List.mem_singleton_self _)
      show req.enabled.getD _ = _
      rw [hnone]
      rfl
    | interval =>
      have hnone : req.scheduleTmIntervalId = none :=
        Option.not_isSome_iff_eq_none.mp fun h => hi (by
          rw [if_pos h]
          exact List.mem_singleton_self _)
      show req.scheduleTmIntervalId.getD _ = _
      rw [hnone]
      rfl
  -- a status that was not named is the one a resumption sets
  · intro hnamed hmem
    have hnone : ¬ req.deploymentStatus.isSome := Bool.eq_false_iff.mp hnamed
    have hres : req.resumes current := by
      by_contra hres
      simp [UpdateDeploymentRequest.asked, hnone, hres] at hmem
    show (if req.resumes current then DeploymentStatus.active else _) ≠ _
    rw [if_pos hres]
    decide

/-- **What an update writes** is the row that it read with the fields of the request put in, and a
quantity that has been checked. -/
theorem planUpdate_row {now : ℤ} {current : DeploymentRow} {req : UpdateDeploymentRequest}
    {row : DeploymentRow} {ts : Option ℤ} (h : planUpdate ref now current req = .ok (row, ts)) :
    ∃ qty, updatedQty ref current req = .ok qty ∧ row = updatedRow current req qty := by
  unfold planUpdate at h
  obtain ⟨-, -, h⟩ := Result.bind_eq_ok.mp h
  obtain ⟨qty, hqty, h⟩ := Result.bind_eq_ok.mp h
  obtain ⟨cursor, -, h⟩ := Result.bind_eq_ok.mp h
  exact ⟨qty, hqty, (Prod.mk.inj (Except.ok.inj h)).1.symm⟩

/-- A quantity that is not asked for stays as it is. -/
theorem updatedQty_none {current : DeploymentRow} {req : UpdateDeploymentRequest} {qty : ℚ}
    (h : updatedQty ref current req = .ok qty) (hnone : req.qty = none) : qty = current.qty := by
  unfold updatedQty at h
  rw [hnone] at h
  exact (Except.ok.inj h).symm

/-- What switches a deployment off sets its status and its switch. -/
theorem same_of_switched {row current : DeploymentRow} (hqty : DeploymentField.qty.Same row current)
    (hinterval : DeploymentField.interval.Same row current) :
    ∀ read ∈ some current, ∀ f : DeploymentField, f ∉ [.status, .enabled] → f.Same row read := by
  rintro read hread f hf
  obtain rfl := Option.some.inj hread
  cases f with
  | qty => exact hqty
  | interval => exact hinterval
  | status => exact absurd List.mem_cons_self hf
  | enabled => exact absurd (List.mem_cons_of_mem _ List.mem_cons_self) hf

/-- Stopping changes the status and what goes with it, and nothing else. -/
theorem stoppedRow_rebuilt (current : DeploymentRow) :
    Rebuilt ⟨some current, stoppedRow current, stopAsked⟩ :=
  ⟨same_of_switched rfl rfl, fun h => Bool.noConfusion h, fun h => absurd h (by simp)⟩

theorem pausedRow_rebuilt (due : DeploymentRow) :
    Rebuilt ⟨some due, pausedRow due, pauseAsked⟩ :=
  ⟨same_of_switched rfl rfl, fun _ _ h => DeploymentStatus.noConfusion h,
    fun h => absurd h (by simp)⟩

/-- An update that is about to commit has rebuilt its version from the row it
read. The other calls do it in the step that commits. -/
def CallOk (ref : TradeRefData) : DeploymentCall → Prop
  | .updateWrite current req row _ => ∃ qty, updatedQty ref current.toDeploymentRow req = .ok qty ∧
      row = updatedRow current.toDeploymentRow req qty
  | _ => True

/-- A call that commits has rebuilt what it commits. -/
theorem CallOk.rebuilt (hw : CallOk ref w) {c : Commit} (h : commits w o = some c) :
    Rebuilt c := by
  unfold commits at h
  split at h
  · obtain rfl := Option.some.inj h
    exact ⟨fun _ h => absurd h (by simp), fun h => Bool.noConfusion h, fun _ => rfl⟩
  · obtain rfl := Option.some.inj h
    obtain ⟨qty, hqty, rfl⟩ := hw
    exact updatedRow_rebuilt (updatedQty_none hqty)
  · obtain rfl := Option.some.inj h
    exact stoppedRow_rebuilt _
  · obtain rfl := Option.some.inj h
    exact pausedRow_rebuilt _
  · exact absurd h (by simp)

/-- Whatever a call has planned, it has planned from what it was asked and from what it read. -/
theorem stepCall_ok (h : stepCall ref s w o = some (s', w')) : CallOk ref w' := by
  have hw : ∀ {x : DeploymentState × DeploymentCall}, some x = some (s', w') → w' = x.2 :=
    fun h => congrArg Prod.snd (Option.some.inj h).symm
  unfold stepCall at h
  split at h
  · split at h <;> exact hw h ▸ trivial
  · split at h <;> exact hw h ▸ trivial
  · exact hw h ▸ trivial
  · split at h <;> exact hw h ▸ trivial
  -- an update is planned
  · split at h
    · exact hw h ▸ trivial
    · rename_i row ts hplan
      exact hw h ▸ planUpdate_row hplan
  · exact hw h ▸ trivial
  · split at h
    · exact hw h ▸ trivial
    · split at h <;> exact hw h ▸ trivial
  · exact hw h ▸ trivial
  · split at h <;> exact hw h ▸ trivial
  · exact hw h ▸ trivial
  · exact hw h ▸ trivial
  · rw [hw h]
    dsimp only
    split <;> trivial
  · exact hw h ▸ trivial
  · exact absurd h (by simp)

/-- **A commit loses no edit exactly when it meets the condition.** -/
theorem Rebuilt.keepsEdits_iff {c : Commit} (hr : Rebuilt c) {vid : ℕ} {current : Deployment} :
    KeepsEdits ⟨c.row, vid, c.asked⟩ current ↔ ∀ read ∈ c.read,
      (∀ f, f ∉ c.asked.fields → f.Same current.toDeploymentRow read) ∧
      (c.asked.statusByName = false → .status ∈ c.asked.fields →
        current.deploymentStatus ≠ .stopped) := by
  constructor
  · intro h read hread
    refine ⟨fun f hf => (h.same f hf).symm.trans (hr.same read hread f hf), ?_⟩
    exact fun hnamed hmem hstop => hr.status hnamed hmem (h.stopped hnamed hstop)
  · intro h
    cases hread : c.read with
    | none =>
      have hall := hr.whole hread
      refine ⟨fun f hf => absurd ?_ hf, fun hnamed => ?_⟩
      · show f ∈ c.asked.fields
        rw [hall]
        cases f <;> decide
      · have hnamed : c.asked.statusByName = false := hnamed
        rw [hall] at hnamed
        exact Bool.noConfusion hnamed
    | some read =>
      obtain ⟨hsame, hstop⟩ := h read hread
      refine ⟨fun f hf => (hr.same read hread f hf).trans (hsame f hf).symm, ?_⟩
      intro hnamed hcur
      by_cases hmem : .status ∈ c.asked.fields
      · exact absurd hcur (hstop hnamed hmem)
      · have hrow : c.row.deploymentStatus = read.deploymentStatus := hr.same read hread _ hmem
        have hold : current.deploymentStatus = read.deploymentStatus := hsame _ hmem
        exact hrow.trans (hold.symm.trans hcur)

/-- **One commit**: the log keeps its promise exactly when the call has seen the edits that its
version is put on top of. -/
theorem noEditLost_commit {c : Commit} {vid : ℕ} (hr : Rebuilt c) (hc : commits w o = some c)
    (h : NoEditLost s.deployments) :
    NoEditLost (⟨c.row, vid, c.asked⟩ :: s.deployments) ↔ SeesEdits s w o := by
  have hsees : SeesEdits s w o ↔ ∀ current ∈ s.deployments.head?,
      KeepsEdits ⟨c.row, vid, c.asked⟩ current := by
    constructor
    · exact fun hs current hcur => hr.keepsEdits_iff.mpr (hs c hc current hcur)
    · intro hk c' hc' current hcur
      obtain rfl := Option.some.inj (hc.symm.trans hc')
      exact hr.keepsEdits_iff.mp (hk current hcur)
  rw [hsees]
  cases hlog : s.deployments with
  | nil =>
    exact ⟨fun _ current hcur => absurd hcur (by simp), fun _ => List.isChain_singleton _⟩
  | cons current earlier =>
    rw [hlog] at h
    refine List.isChain_cons_cons.trans ⟨fun hk current' hcur => ?_, fun hk => ⟨hk current rfl, h⟩⟩
    exact Option.some.inj hcur ▸ hk.1

/-- A step that moves the cursor commits no version. -/
theorem commits_of_advances {due : DueRow} (h : advances w o = some due) :
    commits w o = none := by
  unfold advances at h
  split at h
  · rfl
  · exact absurd h (by simp)

/-- A step keeps a log that has lost no edit so exactly when it meets the
condition. -/
theorem stepCall_noEditLost (hw : CallOk ref w) (h : NoEditLost s.deployments)
    (hstep : stepCall ref s w o = some (s', w')) :
    NoEditLost s'.deployments ↔ SeesEdits s w o := by
  rcases stepCall_writes hstep with ⟨rfl, hnone⟩ | ⟨c, ts, scheduled, hc, rfl⟩ | ⟨due, hadv, rfl⟩
  · exact ⟨fun _ c hc => absurd (hnone.symm.trans hc) (by simp), fun _ => h⟩
  · rw [spInsDeployment_deployments]
    exact noEditLost_commit (hw.rebuilt hc) hc h
  · rw [spInsScheduleStatus_deployments]
    refine ⟨fun _ c hc => absurd ((commits_of_advances hadv).symm.trans hc) (by simp), fun _ => h⟩

/-- The runs in which every commit meets the condition. -/
abbrev SeeingRun (ref : TradeRefData) : PoolState DeploymentState DeploymentCall → Prop :=
  (deploymentPool ref).machine.Reach (Pool.Guard SeesEdits (fun _ _ _ _ => True))

/-- Along a run of calls that see the edits, the log keeps its promise and each call under way is
as it should be. -/
theorem SeeingRun.invariant {p : PoolState DeploymentState DeploymentCall}
    (hp : SeeingRun ref p) :
    NoEditLost p.shared.deployments ∧ ∀ w ∈ p.workers, CallOk ref w := by
  refine Pool.invariant (I := fun s => NoEditLost s.deployments)
    (L := fun _ w => CallOk ref w) hp ?_ ?_ ?_ ?_ ?_
  · intro s hs
    rw [hs.1]
    exact List.isChain_nil
  · intro s ws b w _ hw
    obtain rfl := Option.some.inj hw
    cases b <;> trivial
  · intro s e s' hI he
    cases e
    obtain rfl := Option.some.inj he
    exact ⟨hI, fun w hw => hw⟩
  · intro s w o s' w' hI hw hsees hstep
    exact ⟨(stepCall_noEditLost hw hI hstep).mpr hsees, stepCall_ok hstep⟩
  · intro s w o s' w' v _ _ hv _ _ _
    exact hv

/-- **No edit is lost** in a run whose commits meet the condition: every version
differs from the one before it only in what its call was asked to set, so that
an edit stands until a call that was asked to set its field commits, and a stop
until one that was asked for a status by name does. A next step keeps this so
exactly when it meets the condition. -/
theorem edits_kept {p : PoolState DeploymentState DeploymentCall} (hp : SeeingRun ref p) :
    NoEditLost p.shared.deployments ∧
      (∀ later c earlier, p.shared.deployments = later ++ c :: earlier →
        (∀ f, (∀ v ∈ later, f ∉ v.asked.fields) →
          ∀ v ∈ later, f.Same v.toDeploymentRow c.toDeploymentRow) ∧
        (c.deploymentStatus = .stopped → (∀ v ∈ later, v.asked.statusByName = false) →
          ∀ v ∈ later, v.deploymentStatus = .stopped)) ∧
      ∀ w ∈ p.workers, ∀ o s' w', stepCall ref p.shared w o = some (s', w') →
        (NoEditLost s'.deployments ↔ SeesEdits p.shared w o) := by
  obtain ⟨hlog, hcalls⟩ := hp.invariant
  refine ⟨hlog, fun later c earlier heq => ?_, fun w hw o s' w' hstep => ?_⟩
  · rw [heq] at hlog
    exact ⟨fun f hf => hlog.stands hf, fun hc hnamed => hlog.stop_stands hc hnamed⟩
  · exact stepCall_noEditLost (hcalls w hw) hlog hstep

/-! ## A run that keeps the condition, and one that does not -/

/-- An update of the quantity and nothing else. -/
def setQty (qty : ℚ) : UpdateDeploymentRequest := ⟨none, none, none, some (some qty)⟩

/-- A deployment is paused by a sweep, edited and stopped, each call seeing the ones before it,
and nothing is lost. -/
theorem stopped_after_pause : ∃ p, SeeingRun minuteTrading p ∧
    p.shared.deployments.map (fun d => (d.deploymentStatus, d.qty))
      = [(.stopped, 2), (.paused, 2), (.paused, 1), (.active, 1)] ∧
    NoEditLost p.shared.deployments := by
  obtain ⟨p, hp, hP⟩ := Machine.Reach.exists_of_runs (M := (deploymentPool minuteTrading).machine)
    (G := Pool.Guard SeesEdits (fun _ _ _ _ => True)) (s := ⟨⟨0, [], []⟩, []⟩) ⟨⟨rfl, rfl⟩, rfl⟩
    (dueAfterMinute ++ [.work 1 .failed, .work 1 wrote, .spawn (.update 1 (setQty 2)),
      .work 2 .go, .work 2 .go, .work 2 wrote, .spawn (.stop 1), .work 3 .go, .work 3 wrote])
    (P := fun p => p.shared.deployments.map (fun d => (d.deploymentStatus, d.qty))
      = [(.stopped, 2), (.paused, 2), (.paused, 1), (.active, 1)])
    (by decide +kernel)
  exact ⟨p, hp, of_decide_eq_true hP, (edits_kept hp).1⟩

/-- **A stopped deployment is paused, and its new quantity is undone**, by the
auto-pause of a sweep that read it before. -/
theorem pause_undoes_edits : ∃ p,
    (deploymentPool minuteTrading).machine.Reach (fun _ _ => True) p ∧
      p.shared.deployments.map (fun d => (d.deploymentStatus, d.qty))
        = [(.paused, 1), (.stopped, 2), (.active, 2), (.active, 1)] ∧
      p.shared.deployments.head?.map Deployment.asked = some pauseAsked ∧
      ¬ NoEditLost p.shared.deployments := by
  obtain ⟨p, hp, hP⟩ := Machine.Reach.exists_of_runs (M := (deploymentPool minuteTrading).machine)
    (G := fun _ _ => True) (s := ⟨⟨0, [], []⟩, []⟩) ⟨⟨rfl, rfl⟩, rfl⟩
    (dueAfterMinute ++ [.work 1 .failed, .spawn (.update 1 (setQty 2)), .work 2 .go, .work 2 .go,
      .work 2 wrote, .spawn (.stop 1), .work 3 .go, .work 3 wrote, .work 1 wrote])
    (P := fun p => p.shared.deployments.map (fun d => (d.deploymentStatus, d.qty))
        = [(.paused, 1), (.stopped, 2), (.active, 2), (.active, 1)] ∧
      p.shared.deployments.head?.map Deployment.asked = some pauseAsked ∧
      ¬ NoEditLost p.shared.deployments)
    (by decide +kernel)
  exact ⟨p, hp, of_decide_eq_true hP⟩
