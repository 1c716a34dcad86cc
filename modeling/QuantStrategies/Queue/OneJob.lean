import QuantStrategies.Queue.Ticks

/-!
# One job of the queue

A job is claimed at most once, so it has at most one child. All that can happen to it is
told by that child and by its own versions (`JobView`): which steps may end it, and that
none of them does so after another one has (`JobOk`).

The versions of a claimed job have one shape (`Claimed`): queued, running, and then versions
that are never running again. The loop's ends are counted on them (`endsOf`), and every way
in which the loop can end a job is one lemma that takes a `JobOk` view to another.
-/

namespace Queue

/-! ## The versions of one job -/

/-- The status of the newest version. -/
def newestStatus (rows : List QueueRow) : Option QueueStatus :=
  rows.head?.map QueueRow.queueStatus

/-- How often the loop has ended the job. -/
def endsOf (rows : List QueueRow) : ℕ :=
  rows.countP (fun r => r.writtenBy = .loop && r.queueStatus.isTerminal)

/-- The job has ended. -/
def Over (rows : List QueueRow) : Prop :=
  (newestStatus rows).any QueueStatus.isTerminal = true

/-- The versions of a job that has been claimed, once. -/
inductive Claimed : List QueueRow → Prop where
  | claim {running job : QueueRow} (h : running.queueStatus = .running) : Claimed [running, job]
  | later {x : QueueRow} {rows : List QueueRow} (hrunning : x.queueStatus ≠ .running)
      (hqueued : x.queueStatus ≠ .queued) (h : Claimed rows) : Claimed (x :: rows)

variable {rows : List QueueRow} {x : QueueRow}

@[simp]
theorem newestStatus_cons : newestStatus (x :: rows) = some x.queueStatus := rfl

theorem over_cons : Over (x :: rows) ↔ x.Terminal := Iff.rfl

theorem not_over_of_status {status : QueueStatus} (h : newestStatus rows = some status)
    (hs : status.isTerminal = false) : ¬ Over rows := by
  rw [Over, h, Option.any_some, hs]
  exact Bool.false_ne_true

theorem endsOf_cons_of_writer (h : x.writtenBy ≠ .loop) : endsOf (x :: rows) = endsOf rows := by
  refine List.countP_cons_of_neg fun hx => h ?_
  exact of_decide_eq_true ((Bool.and_eq_true _ _).mp hx).1

theorem endsOf_cons_of_live (h : ¬ x.Terminal) : endsOf (x :: rows) = endsOf rows := by
  refine List.countP_cons_of_neg fun hx => h ?_
  exact ((Bool.and_eq_true _ _).mp hx).2

/-- An end by the loop is counted. -/
theorem endsOf_cons_of_end (hw : x.writtenBy = .loop) (ht : x.Terminal) :
    endsOf (x :: rows) = endsOf rows + 1 := by
  refine List.countP_cons_of_pos ?_
  exact (Bool.and_eq_true _ _).mpr ⟨decide_eq_true hw, ht⟩

namespace Claimed

/-- A claimed job has two versions at least: queued, and running. -/
theorem two_le_length (h : Claimed rows) : 2 ≤ rows.length := by
  induction h with
  | claim _ => exact le_rfl
  | later _ _ _ ih => exact ih.trans (Nat.le_succ _)

/-- The newest version of a claimed job has a status, and not that of a queued one. -/
theorem status (h : Claimed rows) : ∃ status, newestStatus rows = some status ∧
    status ≠ .queued := by
  cases h with
  | claim h => exact ⟨_, congrArg some h, by decide⟩
  | later _ hqueued _ => exact ⟨_, rfl, hqueued⟩

/-- A claimed job is running until a second version follows. -/
theorem running_iff (h : Claimed rows) :
    newestStatus rows = some .running ↔ rows.length = 2 := by
  cases h with
  | claim h => exact iff_of_true (congrArg some h) rfl
  | later hrunning _ h =>
    have hlen := h.two_le_length
    refine iff_of_false (fun hx => hrunning (Option.some.inj hx)) ?_
    rw [List.length_cons]
    omega

/-- The last of the first versions says so too, however few are read. -/
theorem getLast?_take (h : Claimed rows) {n : ℕ} (hn : 3 ≤ n) :
    ∃ latest, (rows.reverse.take n).getLast? = some latest ∧
      (latest.queueStatus = .running ↔ rows.length = 2) := by
  induction h with
  | @claim running job h =>
    refine ⟨running, ?_, iff_of_true h rfl⟩
    rw [List.take_of_length_le (Nat.le_of_succ_le hn)]
    rfl
  | @later x rows hrunning _ h ih =>
    have hlen := h.two_le_length
    have hne : (x :: rows).length ≠ 2 := by
      rw [List.length_cons]
      omega
    rw [List.reverse_cons]
    rcases Nat.lt_or_ge rows.length n with hlt | hge
    -- the newest version is read
    · refine ⟨x, ?_, iff_of_false hrunning hne⟩
      rw [List.take_of_length_le
        (by rw [List.length_append, List.length_reverse]; exact hlt), List.getLast?_concat]
    -- or one that is not the claim
    · obtain ⟨latest, hlatest, hiff⟩ := ih
      rw [List.take_append_of_le_length (by rw [List.length_reverse]; exact hge)]
      exact ⟨latest, hlatest, iff_of_false (fun hr => absurd (hiff.mp hr) (by omega)) hne⟩

end Claimed

/-- What is read of a claimed job before it is reaped. -/
theorem getActive_of_claimed {queue : List QueueRow} {queueId : ℕ}
    (h : Claimed (versions queue queueId)) : ∃ latest, getActive queue queueId none = some latest ∧
      (latest.queueStatus = .running ↔
        newestStatus (versions queue queueId) = some .running) := by
  obtain ⟨latest, hlatest, hiff⟩ := h.getLast?_take (show 3 ≤ 50 by decide)
  refine ⟨latest, ?_, hiff.trans h.running_iff.symm⟩
  have hall : (history queue queueId).filter
      (fun r => (none : Option String).all (fun u => r.userId = u)) =
      (versions queue queueId).reverse := List.filter_eq_self.mpr fun _ _ => rfl
  unfold getActive
  rw [hall]
  exact hlatest

/-! ## One job and its child -/

/-- What concerns one job: its versions, its child, whether the loop tracks it, and whether
its child crashed while it was running. -/
structure JobView where
  /-- Its versions, newest first. -/
  rows : List QueueRow
  /-- Where its child stands. -/
  agent : Agent
  /-- The exit code of the child, once it has ended. -/
  exit : Option ℤ
  /-- Whether the loop has the child in its table. -/
  tracked : Bool
  /-- Whether the child crashed while the job was running. -/
  crashed : Bool

/-- What holds of a job that has a child. -/
structure JobOk (v : JobView) : Prop where
  /-- It was claimed, once. -/
  claimed : Claimed v.rows
  /-- The loop ends it at most once. -/
  once : endsOf v.rows ≤ 1
  /-- When it has, the job is over and no longer tracked. -/
  ended : endsOf v.rows = 1 → Over v.rows ∧ v.tracked = false
  /-- A child that exits with zero has written the end itself, and the loop none. -/
  exitedZero : v.exit = some 0 → endsOf v.rows = 0 ∧ Over v.rows
  /-- A child that says it is done has ended the job. -/
  done : isDone v.agent = true → Over v.rows
  /-- A child that runs untracked is of a job that the loop has ended. -/
  dropped : v.tracked = false → v.exit = none → endsOf v.rows = 1
  /-- A crashed child has a code other than zero, and its job is ended by the loop, still
  tracked and running, or waits to be cancelled. -/
  crash : v.crashed = true → (∃ code, v.exit = some code ∧ code ≠ 0) ∧
    (endsOf v.rows = 1 ∨ v.tracked = true ∧ newestStatus v.rows = some .running ∨
      newestStatus v.rows = some .cancelRequested)
  /-- A child works on a row of its own job. -/
  fetched : ∀ pid job, v.agent = .childRun pid job → job ∈ v.rows

namespace JobOk

variable {v : JobView}

/-- A job that has not ended has not been ended by the loop. -/
theorem endsOf_eq_zero (h : JobOk v) (hover : ¬ Over v.rows) : endsOf v.rows = 0 := by
  have honce := h.once
  have hended : endsOf v.rows ≠ 1 := fun hone => hover (h.ended hone).1
  omega

/-- Nor has one that the loop tracks. -/
theorem endsOf_eq_zero_of_tracked (h : JobOk v) (htracked : v.tracked = true) :
    endsOf v.rows = 0 := by
  have honce := h.once
  have hended : endsOf v.rows ≠ 1 := fun hone =>
    Bool.false_ne_true ((h.ended hone).2.symm.trans htracked)
  omega

/-- The child of a job that has not ended has not exited with zero. -/
theorem exit_ne_zero (h : JobOk v) (hover : ¬ Over v.rows) : v.exit ≠ some 0 :=
  fun hexit => hover (h.exitedZero hexit).2

/-- The loop claims the job. -/
theorem claim {running job : QueueRow} {agent : Agent} {exit : Option ℤ} {tracked : Bool}
    (hrunning : running.queueStatus = .running) (hqueued : job.queueStatus = .queued)
    (hagent : ∃ pid queueId, agent = .child pid queueId) (hexit : exit ≠ some 0)
    (htracked : tracked = true ∨ exit.isSome) :
    JobOk ⟨[running, job], agent, exit, tracked, false⟩ := by
  have hends : endsOf [running, job] = 0 := by
    rw [endsOf_cons_of_live (not_terminal_of_status hrunning rfl),
      endsOf_cons_of_live (not_terminal_of_status hqueued rfl)]
    rfl
  obtain ⟨pid, queueId, rfl⟩ := hagent
  refine ⟨.claim hrunning, hends.le.trans zero_le_one, fun h => ?_, fun h => absurd h hexit,
    nofun, fun hfalse hnone => ?_, nofun, nofun⟩
  · exact absurd (hends.symm.trans h) Nat.zero_ne_one
  · rcases htracked with htrue | hsome
    · exact absurd (hfalse.symm.trans htrue) Bool.false_ne_true
    · have hnone' : exit = none := hnone
      rw [hnone'] at hsome
      cases hsome

/-- The child fetches its job. -/
theorem begins {pid : ℕ} {job : QueueRow} (h : JobOk v) (hjob : job ∈ v.rows) :
    JobOk { v with agent := .childRun pid job } :=
  { h with
    done := nofun
    fetched := by
      intro pid' job' heq
      cases heq
      exact hjob }

/-- The child writes the end of its job. -/
theorem finishes {pid : ℕ} (h : JobOk v) (hw : x.writtenBy = .worker) (ht : x.Terminal)
    (hexit : v.exit = none) : JobOk { v with rows := x :: v.rows, agent := .childDone pid } := by
  have hends : endsOf (x :: v.rows) = endsOf v.rows :=
    endsOf_cons_of_writer (by rw [hw]; decide)
  have hlive {status : QueueStatus} (hs : status.isTerminal = false) :
      x.queueStatus ≠ status := fun heq => not_terminal_of_status heq hs ht
  refine ⟨.later (hlive rfl) (hlive rfl) h.claimed, hends.trans_le h.once,
    fun hone => ⟨over_cons.mpr ht, (h.ended (hends.symm.trans hone)).2⟩, fun hzero => ?_,
    fun _ => over_cons.mpr ht, fun hfalse hnone => hends.trans (h.dropped hfalse hnone),
    fun hcrashed => ?_, nofun⟩
  · exact absurd (hexit.symm.trans hzero) nofun
  · obtain ⟨⟨code, hcode, -⟩, -⟩ := h.crash hcrashed
    exact absurd (hexit.symm.trans hcode) nofun

/-- The child exits. It does so with zero when it has written the end of its job. -/
theorem exits {code : ℤ} (h : JobOk v) (hexit : v.exit = none)
    (hzero : code = 0 → isDone v.agent = true ∧ v.tracked = true) :
    JobOk { v with
      exit := some code
      crashed := v.crashed || (code ≠ 0 ∧ newestStatus v.rows = some .running) } := by
  have hcrashed : v.crashed = false := by
    refine Bool.eq_false_iff.mpr fun hcrashed => ?_
    obtain ⟨⟨code', hcode, -⟩, -⟩ := h.crash hcrashed
    exact absurd (hexit.symm.trans hcode) nofun
  refine { h with exitedZero := fun heq => ?_, dropped := nofun, crash := fun hc => ?_ }
  · obtain ⟨hdone, htracked⟩ := hzero (Option.some.inj heq)
    exact ⟨h.endsOf_eq_zero_of_tracked htracked, h.done hdone⟩
  · have hc' : (v.crashed || decide (code ≠ 0 ∧ newestStatus v.rows = some .running)) = true := hc
    rw [hcrashed, Bool.false_or, decide_eq_true_eq] at hc'
    obtain ⟨hcode, hrunning⟩ := hc'
    refine ⟨⟨code, rfl, hcode⟩, ?_⟩
    -- a running job has not been dropped
    cases htracked : v.tracked with
    | true => exact .inr (.inl ⟨rfl, hrunning⟩)
    | false => exact .inl (h.dropped htracked hexit)

/-- The loop kills the child, unless it has ended before. -/
theorem kill {code : ℤ} (h : JobOk v) (hcode : code ≠ 0) :
    JobOk { v with exit := some (v.exit.getD code) } := by
  refine { h with exitedZero := fun heq => ?_, dropped := nofun, crash := fun hc => ?_ }
  · have heq' : v.exit.getD code = 0 := Option.some.inj heq
    cases hexit : v.exit with
    | none =>
      rw [hexit] at heq'
      exact absurd heq' hcode
    | some c =>
      rw [hexit] at heq'
      exact h.exitedZero (hexit.trans (congrArg some heq'))
  · obtain ⟨⟨c, hc, hne⟩, hcases⟩ := h.crash hc
    exact ⟨⟨c, by rw [hc]; rfl, hne⟩, hcases⟩

/-- A cancel request writes in time. -/
theorem cancel (h : JobOk v) (hw : x.writtenBy = .api)
    (hx : (x.queueStatus = .cancelRequested ∧ ¬ Over v.rows) ∨
      (x.queueStatus = .cancelled ∧ Over v.rows ∧
        newestStatus v.rows ≠ some .cancelRequested)) :
    JobOk { v with rows := x :: v.rows } := by
  have hends : endsOf (x :: v.rows) = endsOf v.rows :=
    endsOf_cons_of_writer (by rw [hw]; decide)
  have hkept : Over v.rows → Over (x :: v.rows) := by
    intro hover
    rcases hx with ⟨-, hlive⟩ | ⟨hcancelled, -⟩
    · exact absurd hover hlive
    · exact over_cons.mpr (by rw [QueueRow.Terminal, hcancelled]; rfl)
  have hclaimed : Claimed (x :: v.rows) := by
    rcases hx with ⟨hx, -⟩ | ⟨hx, -⟩
    · exact .later (by rw [hx]; decide) (by rw [hx]; decide) h.claimed
    · exact .later (by rw [hx]; decide) (by rw [hx]; decide) h.claimed
  refine ⟨hclaimed, hends.trans_le h.once, fun hone => ?_, fun hzero => ?_,
    fun hdone => hkept (h.done hdone), fun hfalse hnone => hends.trans (h.dropped hfalse hnone),
    fun hcrashed => ?_, fun pid job heq => List.mem_cons_of_mem _ (h.fetched pid job heq)⟩
  · obtain ⟨hover, hfalse⟩ := h.ended (hends.symm.trans hone)
    exact ⟨hkept hover, hfalse⟩
  · obtain ⟨hz, hover⟩ := h.exitedZero hzero
    exact ⟨hends.trans hz, hkept hover⟩
  · obtain ⟨hcode, hcases⟩ := h.crash hcrashed
    refine ⟨hcode, ?_⟩
    rcases hx with ⟨hx, -⟩ | ⟨-, hover, hne⟩
    · exact .inr (.inr (congrArg some hx))
    · rcases hcases with hone | ⟨-, hrunning⟩ | hrequested
      · exact .inl (hends.trans hone)
      · exact absurd hover (not_over_of_status hrunning rfl)
      · exact absurd hrequested hne

/-- The loop drops a child that has ended, but not one of a job that it is to end. -/
theorem untrack (h : JobOk v) (hexit : v.exit ≠ none)
    (hcrashed : v.crashed = true → newestStatus v.rows ≠ some .running) :
    JobOk { v with tracked := false } := by
  refine { h with
    ended := fun hone => ⟨(h.ended hone).1, rfl⟩
    dropped := fun _ hnone => absurd hnone hexit
    crash := fun hc => ?_ }
  obtain ⟨hcode, hone | ⟨-, hrunning⟩ | hrequested⟩ := h.crash hc
  · exact ⟨hcode, .inl hone⟩
  · exact absurd hrunning (hcrashed hc)
  · exact ⟨hcode, .inr (.inr hrequested)⟩

/-- The loop ends the job. -/
theorem endJob (h : JobOk v) (hw : x.writtenBy = .loop) (ht : x.Terminal)
    (hends : endsOf v.rows = 0) (hexit : v.exit ≠ some 0) :
    JobOk { v with rows := x :: v.rows, tracked := false } := by
  have hone : endsOf (x :: v.rows) = 1 := by
    rw [endsOf_cons_of_end hw ht, hends]
  have hlive {status : QueueStatus} (hs : status.isTerminal = false) :
      x.queueStatus ≠ status := fun heq => not_terminal_of_status heq hs ht
  exact ⟨.later (hlive rfl) (hlive rfl) h.claimed, hone.le,
    fun _ => ⟨over_cons.mpr ht, rfl⟩, fun hzero => absurd hzero hexit,
    fun _ => over_cons.mpr ht, fun _ _ => hone,
    fun hcrashed => ⟨(h.crash hcrashed).1, .inl hone⟩,
    fun pid job heq => List.mem_cons_of_mem _ (h.fetched pid job heq)⟩

end JobOk

end Queue
