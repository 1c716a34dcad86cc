import QuantStrategies.Queue.Results

/-!
# A complete job has one result

`BT.RESULT` is to get one row for each job that is completed. Nothing in the table says so:
a row names its job, and that is all. It holds because a job is started once, and its worker
writes that the job is complete after the result is stored, as the last thing it does.

What a worker knows (`ResultKnows`) is that its job has no result until its own is stored,
and has one afterwards. No other worker is of the same job, and so none takes this from it.

The invariant has a part on the tables (`ResultsInv`) and a part on each process
(`ResultAgentInv`), and it extends that of `Children`, which says that a job has one child.
That two processes are of one job is thereby excluded (`Distinct`), and this is what lets a
worker keep what it knows while the others move.
-/

namespace Queue

variable {π : Type}

/-! ## What holds in every run -/

/-- A job has no result. -/
def Unstored (s : ResultState π) (queueId : ℕ) : Prop := ∀ r ∈ s.results, r.queueId ≠ queueId

/-- A job has a result. -/
def Stored (s : ResultState π) (queueId : ℕ) : Prop := ∃ r ∈ s.results, r.queueId = queueId

/-- A child has begun. -/
def Begun (s : ResultState π) (pid : ℕ) : Prop :=
  ∃ p, s.jobs.procs[pid]? = some p ∧ p.started = true

/-- What holds of the tables: the results are of different jobs, which have been started, and
of the versions that these jobs run; and a complete job has one. -/
structure ResultsInv (s : ResultState π) : Prop where
  /-- What holds of the queue. -/
  jobs : JobsInv s.jobs
  /-- No two results are of one job. -/
  apart : (s.results.map ResultRow.queueId).Nodup
  /-- A job that has a result has a child that has begun. -/
  begun : ∀ r ∈ s.results, ∃ (pid : ℕ) (p : Proc), s.jobs.procs[pid]? = some p ∧
    p.queueId = r.queueId ∧ p.started = true
  /-- A result is of the version that its job runs. -/
  version : ∀ r ∈ s.results, ∃ v ∈ s.jobs.queue, v.queueId = r.queueId ∧
    r.version = (v.strategyId, v.strategyVid)
  /-- A complete job has a result. -/
  completed : ∀ v ∈ s.jobs.queue, v.queueStatus = .completed → Stored s v.queueId

/-- The version of the strategy that the procedure has looked up is the job's. -/
def StageOf (job : QueueRow) : InsResult → Prop
  | .keys => True
  | .resultVid _ strategyId strategyVid =>
      strategyId = job.strategyId ∧ strategyVid = job.strategyVid
  | .flip _ strategyId strategyVid _ =>
      strategyId = job.strategyId ∧ strategyVid = job.strategyVid
  | .insert _ strategyId strategyVid _ _ =>
      strategyId = job.strategyId ∧ strategyVid = job.strategyVid

/-- What a worker knows of the result of its job. -/
def ResultKnows (s : ResultState π) : ResultAgent π → Prop
  | .process (.child _ queueId) => Unstored s queueId
  | .process (.childRun pid job) => Unstored s job.queueId ∧ Begun s pid
  | .insResult pid job _ _ stage => Unstored s job.queueId ∧ Begun s pid ∧ StageOf job stage
  | .promote _ job => Stored s job.queueId
  | .complete _ job => Stored s job.queueId
  | _ => True

/-- What holds of a process. -/
structure ResultAgentInv (s : ResultState π) (w : ResultAgent π) : Prop where
  /-- The rows it holds are of the table. -/
  held : ∀ r ∈ heldRows w.agent, r ∈ s.jobs.queue
  /-- It knows what it has to of the queue. -/
  knows : Knows s.jobs w.agent
  /-- And of its job's result. -/
  result : ResultKnows s w

/-- Two processes that are not both the loop, and not both the same child. -/
def Distinct (w v : Agent) : Prop :=
  NotBothLoop w v ∧ ∀ pid, ¬ (w.isChild pid = true ∧ v.isChild pid = true)

/-! ## The steps of a process -/

section Steps

variable {cfg : LoopConfig} {s s' : ResultState π} {w w' v : ResultAgent π} {a : ResultOutcome π}

/-- A process is a child from its start: no step turns another one into it. -/
theorem stepAgent_isChild {s s' : QueueState} {w w' : Agent} {o : Outcome} {pid : ℕ}
    (h : stepAgent cfg s w o = some (s', w')) (hw : w'.isChild pid = true) :
    w.isChild pid = true := by
  unfold stepAgent at h
  split at h
  · obtain ⟨-, rfl⟩ := by simpa using h
    unfold stepCancel at hw
    split at hw
    · exact hw
    · split at hw <;> exact hw
  · obtain ⟨-, rfl⟩ := by simpa using h
    exact hw
  · obtain ⟨_, -, heq⟩ := Option.map_eq_some_iff.mp h
    obtain ⟨-, rfl⟩ := by simpa using heq
    exact hw
  · split at h
    · split at h
      · obtain ⟨-, rfl⟩ := by simpa using h
        exact hw
      · obtain ⟨-, rfl⟩ := by simpa using h
        exact hw
    · cases h
  · split at h
    · obtain ⟨-, rfl⟩ := by simpa using h
      exact hw
    · cases h
  · split at h
    · obtain ⟨-, rfl⟩ := by simpa using h
      exact hw
    · cases h
  · split at h
    · obtain ⟨-, rfl⟩ := by simpa using h
      exact hw
    · cases h
  · cases h

/-- Being two different processes has no direction. -/
theorem Distinct.symm {w v : Agent} (h : Distinct w v) : Distinct v w :=
  ⟨fun hb => h.1 ⟨hb.2, hb.1⟩, fun pid hb => h.2 pid ⟨hb.2, hb.1⟩⟩

/-- A process does not become another one. -/
theorem stepResult_distinct (h : stepResult cfg s w a = some (s', w'))
    (hd : Distinct w.agent v.agent) : Distinct w'.agent v.agent := by
  obtain ⟨-, hsame⟩ | ⟨o, -, hstep⟩ := stepResult_agent h
  · rw [hsame]
    exact hd
  · exact ⟨fun hb => hd.1 ⟨stepAgent_isLoop hstep hb.1, hb.2⟩,
      fun pid hb => hd.2 pid ⟨stepAgent_isChild hstep hb.1, hb.2⟩⟩

/-- A process is started that none of those under way is. -/
theorem startAgent_distinct {s : QueueState} {agents : List Agent} {b : Start} {w : Agent}
    (h : startAgent s agents b = some w) : ∀ v ∈ agents, Distinct v w := by
  refine fun v hv => ⟨startAgent_notBothLoop h v hv, fun pid hb => ?_⟩
  cases b with
  | cancel queueId userId =>
    obtain rfl := Option.some.inj h
    exact Bool.false_ne_true hb.2
  | loop =>
    simp only [startAgent] at h
    split at h
    · cases h
    · obtain rfl := Option.some.inj h
      exact Bool.false_ne_true hb.2
  | child pid' =>
    simp only [startAgent] at h
    split at h
    · cases h
    · split at h
      · cases h
      · next hfree =>
        obtain rfl := Option.some.inj h
        have hpid : pid' = pid := of_decide_eq_true hb.2
        exact hfree (.inr (.inr (List.any_eq_true.mpr ⟨v, hv, hpid ▸ hb.1⟩)))

/-- Children that are different processes are of different jobs. -/
theorem JobsInv.queueId_ne {s : QueueState} (hI : JobsInv s) {w v : Agent} {p q j k : ℕ}
    (hd : Distinct w v) (hw : w.isChild p = true) (hv : v.isChild q = true)
    (hj : (childKeys s)[p]? = some j) (hk : (childKeys s)[q]? = some k) : k ≠ j := by
  rintro rfl
  obtain ⟨hp, hjp⟩ := List.getElem?_eq_some_iff.mp hj
  obtain ⟨hq, hkq⟩ := List.getElem?_eq_some_iff.mp hk
  have hpq : p = q := (List.Nodup.getElem_inj_iff hI.apart).mp (hjp.trans hkq.symm)
  exact hd.2 p ⟨hw, hpq ▸ hv⟩

/-- Who completes a job: its child, when its backtest has succeeded. -/
theorem completed_of_step {s s' : QueueState} {w w' : Agent} {o : Outcome} (hk : Knows s w)
    (h : stepAgent cfg s w o = some (s', w')) {v : QueueRow} (hv : v ∈ s'.queue)
    (hs : v.queueStatus = .completed) :
    v ∈ s.queue ∨ ∃ pid job, w = .childRun pid job ∧ o = .finish none ∧
      v.queueId = job.queueId := by
  obtain hq | ⟨row, -, status, ⟨writer, errorText, hq⟩, -, hdone⟩ :=
    (stepAgent_effect hk h).queue
  · exact .inl (hq ▸ hv)
  · rw [hq] at hv
    obtain rfl | hv := List.mem_cons.mp hv
    · obtain ⟨pid, rfl, -⟩ := hdone hs
      have hstatus : status = .completed := hs
      subst hstatus
      cases o with
      | finish e =>
        cases e with
        | none => exact .inr ⟨pid, row, rfl, rfl, rfl⟩
        | some e =>
          -- a backtest that has failed
          simp only [stepAgent] at h
          split at h
          · obtain ⟨rfl, -⟩ := by simpa using h
            have hhead := congrArg (fun q => q.head?.map QueueRow.queueStatus) hq
            cases hhead
          · cases h
      | exit code =>
        simp only [stepAgent] at h
        split at h
        · obtain ⟨rfl, -⟩ := by simpa using h
          exact absurd (congrArg List.length hq) (Nat.succ_ne_self _).symm
        · cases h
      | go => cases h
      | stuck => cases h
      | stop => cases h
    · exact .inl hv

/-! ## The tables -/

/-- A child that has begun stays so. -/
theorem Begun.kept (h : ProcsKept s.jobs s'.jobs) {pid : ℕ} (hb : Begun s pid) : Begun s' pid := by
  obtain ⟨p, hp, hs⟩ := hb
  obtain ⟨p', hp', -, hs'⟩ := h pid p hp
  exact ⟨p', hp', hs' hs⟩

/-- A step that leaves the results alone, and completes no job without one. -/
theorem ResultsInv.jobs_step (hI : ResultsInv s) (hJ : JobsInv s'.jobs)
    (hr : s'.results = s.results) (hkept : ProcsKept s.jobs s'.jobs)
    (hmem : ∀ v ∈ s.jobs.queue, v ∈ s'.jobs.queue)
    (hdone : ∀ v ∈ s'.jobs.queue, v.queueStatus = .completed →
      v ∈ s.jobs.queue ∨ Stored s v.queueId) : ResultsInv s' := by
  refine ⟨hJ, hr ▸ hI.apart, fun r hrow => ?_, fun r hrow => ?_, fun v hv hs => ?_⟩
  · obtain ⟨pid, p, hp, hk, hs⟩ := hI.begun r (hr ▸ hrow)
    obtain ⟨p', hp', hk', hs'⟩ := hkept pid p hp
    exact ⟨pid, p', hp', hk'.trans hk, hs' hs⟩
  · obtain ⟨v, hv, hk⟩ := hI.version r (hr ▸ hrow)
    exact ⟨v, hmem v hv, hk⟩
  · have hstored := (hdone v hv hs).elim (fun hv => hI.completed v hv hs) id
    unfold Stored at hstored ⊢
    rw [hr]
    exact hstored

@[simp] theorem ResultRow.flip_resultId (current : List ℕ) (r : ResultRow π) :
    (r.flip current).resultId = r.resultId := by
  unfold ResultRow.flip
  split <;> rfl

@[simp] theorem ResultRow.flip_queueId (current : List ℕ) (r : ResultRow π) :
    (r.flip current).queueId = r.queueId := by
  unfold ResultRow.flip
  split <;> rfl

@[simp] theorem ResultRow.flip_version (current : List ℕ) (r : ResultRow π) :
    (r.flip current).version = r.version := by
  unfold ResultRow.flip
  split <;> rfl

@[simp] theorem ResultRow.flip_resultVid (current : List ℕ) (r : ResultRow π) :
    (r.flip current).resultVid = r.resultVid := by
  unfold ResultRow.flip
  split <;> rfl

/-- What a transaction leaves: the row of a job that had none, in front of those there were. -/
structure Inserts (s s' : ResultState π) (job : QueueRow) (row : ResultRow π) : Prop where
  /-- The queue stays. -/
  jobs : s'.jobs = s.jobs
  /-- The row is put in front, and others are turned off. -/
  results : ∃ current, s'.results = row :: s.results.map (ResultRow.flip current)
  /-- It is of the job. -/
  queueId : row.queueId = job.queueId
  /-- And of the version that the job runs. -/
  version : row.version = (job.strategyId, job.strategyVid)

/-- A job has a result afterwards when it had one, or is the one. -/
theorem Inserts.stored {job : QueueRow} {row : ResultRow π} (h : Inserts s s' job row)
    {queueId : ℕ} : Stored s' queueId ↔ queueId = job.queueId ∨ Stored s queueId := by
  obtain ⟨current, hr⟩ := h.results
  unfold Stored
  rw [hr, List.exists_mem_cons_iff, h.queueId]
  refine or_congr eq_comm ⟨fun ⟨r, hrow, hk⟩ => ?_, fun ⟨r, hrow, hk⟩ => ?_⟩
  · obtain ⟨r, hold, rfl⟩ := List.mem_map.mp hrow
    exact ⟨r, hold, (ResultRow.flip_queueId _ _).symm.trans hk⟩
  · exact ⟨_, List.mem_map_of_mem hrow, (ResultRow.flip_queueId _ _).trans hk⟩

/-- A job has no result, or has one. -/
theorem unstored_iff {queueId : ℕ} : Unstored s queueId ↔ ¬ Stored s queueId :=
  ⟨fun h ⟨r, hr, hk⟩ => h r hr hk, fun h r hr hk => h ⟨r, hr, hk⟩⟩

/-- **An insertion keeps what holds of the tables.** The row is the first one of its job, and the
process that writes it is the job's one child. -/
theorem ResultsInv.inserts (hI : ResultsInv s) {job : QueueRow} {row : ResultRow π} {pid : ℕ}
    (h : Inserts s s' job row) (hjob : job ∈ s.jobs.queue) (hno : Unstored s job.queueId)
    (hb : Begun s pid) (hkey : (childKeys s.jobs)[pid]? = some job.queueId) : ResultsInv s' := by
  obtain ⟨current, hr⟩ := h.results
  have hmap : (s.results.map (ResultRow.flip current)).map ResultRow.queueId =
      s.results.map ResultRow.queueId := by
    rw [List.map_map]
    exact List.map_congr_left fun r _ => ResultRow.flip_queueId _ _
  refine ⟨h.jobs ▸ hI.jobs, ?_, fun r hrow => ?_, fun r hrow => ?_, fun v hv hs => ?_⟩
  · rw [hr, List.map_cons, hmap, h.queueId]
    refine List.nodup_cons.mpr ⟨fun hmem => ?_, hI.apart⟩
    obtain ⟨r, hrow, hk⟩ := List.mem_map.mp hmem
    exact hno r hrow hk
  · rw [h.jobs]
    rw [hr] at hrow
    obtain rfl | hrow := List.mem_cons.mp hrow
    · obtain ⟨p, hp, hs⟩ := hb
      refine ⟨pid, p, hp, ?_, hs⟩
      rw [childKeys, List.getElem?_map, hp] at hkey
      exact (Option.some.inj hkey).trans h.queueId.symm
    · obtain ⟨r, hold, rfl⟩ := List.mem_map.mp hrow
      rw [ResultRow.flip_queueId]
      exact hI.begun r hold
  · rw [h.jobs]
    rw [hr] at hrow
    obtain rfl | hrow := List.mem_cons.mp hrow
    · exact ⟨job, hjob, h.queueId.symm, h.version⟩
    · obtain ⟨r, hold, rfl⟩ := List.mem_map.mp hrow
      rw [ResultRow.flip_queueId, ResultRow.flip_version]
      exact hI.version r hold
  · exact h.stored.mpr (.inr (hI.completed v (h.jobs ▸ hv) hs))

/-! ## The workers -/

/-- What becomes of a statement of the procedure. -/
theorem insResult_cases {job : QueueRow} {resultId : ℕ} {payload : π} {stage : InsResult}
    {next : InsResult ⊕ List (ResultRow π)} (hI : JobsInv s.jobs) (hjob : job ∈ s.jobs.queue)
    (hstage : StageOf job stage)
    (h : insResult s job.queueId resultId payload stage = some next) :
    (∃ stage', next = .inl stage' ∧ StageOf job stage') ∨
      ∃ results row, next = .inr results ∧ Inserts s { s with results := results } job row := by
  cases stage with
  | keys =>
    obtain ⟨row, hrow, rfl⟩ := Option.map_eq_some_iff.mp h
    have hdec := List.find?_some hrow
    have hk : row.queueId = job.queueId := of_decide_eq_true hdec
    exact .inl ⟨_, rfl, hI.oneStrategy row (fetchJob_mem hrow) job hjob hk⟩
  | resultVid createdAt strategyId strategyVid =>
    obtain rfl := Option.some.inj h
    exact .inl ⟨_, rfl, hstage⟩
  | flip createdAt strategyId strategyVid resultVid =>
    obtain rfl := Option.some.inj h
    exact .inl ⟨_, rfl, hstage⟩
  | insert createdAt strategyId strategyVid resultVid current =>
    simp only [insResult] at h
    split at h
    · cases h
    · obtain rfl := Option.some.inj h
      exact .inr ⟨_, _, rfl, rfl, ⟨current, rfl⟩, rfl, by rw [← hstage.1, ← hstage.2]; rfl⟩

/-- A worker begins by reading its job. After any other step of a process there is nothing
that it knows of a result. -/
theorem stepAgent_begins {s s' : QueueState} {w w' : Agent} {o : Outcome}
    (h : stepAgent cfg s w o = some (s', w')) :
    (∃ pid queueId job, w = .child pid queueId ∧ w' = .childRun pid job ∧
        job.queueId = queueId ∧ s' = s.beginProc pid ∧ s.alive pid = true) ∨
      ∀ t : ResultState π, ResultKnows t (.process w') := by
  unfold stepAgent at h
  split at h
  · obtain ⟨-, rfl⟩ := by simpa using h
    refine .inr fun t => ?_
    unfold stepCancel
    split
    · trivial
    · split <;> trivial
  · obtain ⟨-, rfl⟩ := by simpa using h
    exact .inr fun t => trivial
  · obtain ⟨_, -, heq⟩ := Option.map_eq_some_iff.mp h
    obtain ⟨-, rfl⟩ := by simpa using heq
    exact .inr fun t => trivial
  · next pid queueId =>
    split at h
    · next halive =>
      split at h
      · obtain ⟨-, rfl⟩ := by simpa using h
        exact .inr fun t => trivial
      · next job hjob =>
        obtain ⟨rfl, rfl⟩ := by simpa using h
        have hdec := List.find?_some hjob
        exact .inl ⟨pid, queueId, job, rfl, rfl, of_decide_eq_true hdec, rfl, halive⟩
    · cases h
  · split at h
    · obtain ⟨-, rfl⟩ := by simpa using h
      exact .inr fun t => trivial
    · cases h
  · split at h
    · obtain ⟨-, rfl⟩ := by simpa using h
      exact .inr fun t => trivial
    · cases h
  · split at h
    · obtain ⟨-, rfl⟩ := by simpa using h
      exact .inr fun t => trivial
    · cases h
  · cases h

/-- A child that lives and begins has begun. -/
theorem begun_beginProc {s : ResultState π} {jobs : QueueState} {pid : ℕ}
    (halive : s.jobs.alive pid = true) (hjobs : jobs = s.jobs.beginProc pid) :
    Begun { s with jobs := jobs } pid := by
  obtain ⟨p, hp, -⟩ := alive_iff.mp halive
  refine ⟨{ p with started := true }, ?_, rfl⟩
  show jobs.procs[pid]? = _
  rw [hjobs, QueueState.beginProc, List.getElem?_modify_eq, hp]
  rfl

/-- What a step is to the results: nothing, while it may be that a job is completed that has
one; or the insertion of the result of a job. -/
theorem stepResult_cases (hI : ResultsInv s) (hw : ResultAgentInv s w)
    (h : stepResult cfg s w a = some (s', w')) :
    (s'.results = s.results ∧
        (∀ v ∈ s'.jobs.queue, v.queueStatus = .completed →
          v ∈ s.jobs.queue ∨ Stored s v.queueId) ∧ ResultKnows s' w') ∨
      ∃ pid job resultId payload stage row, w = .insResult pid job resultId payload stage ∧
        w' = .promote pid job ∧ Inserts s s' job row := by
  have hexit {pid : ℕ} {code : ℤ} (h : exitWorker s pid code = some (s', w')) :
      s'.results = s.results ∧ (∀ v ∈ s'.jobs.queue, v.queueStatus = .completed →
        v ∈ s.jobs.queue ∨ Stored s v.queueId) ∧ ResultKnows s' w' := by
    obtain ⟨-, rfl, rfl⟩ := exitWorker_eq_some h
    exact ⟨rfl, fun v hv _ => .inl hv, trivial⟩
  have hresult := hw.result
  unfold stepResult at h
  split at h
  · next pid job resultId payload =>
    split at h
    · obtain ⟨rfl, rfl⟩ := by simpa using h
      exact .inl ⟨rfl, fun v hv _ => .inl hv, hresult.1, hresult.2, trivial⟩
    · cases h
  · cases h
  -- a step of the queue
  · next ag o _ hnot =>
    obtain ⟨⟨jobs, w₁⟩, hstep, heq⟩ := Option.map_eq_some_iff.mp h
    obtain ⟨rfl, rfl⟩ := by simpa using heq
    refine .inl ⟨rfl, fun v hv hs => ?_, ?_⟩
    · obtain hv | ⟨pid, job, rfl, rfl, -⟩ := completed_of_step hw.knows hstep hv hs
      · exact .inl hv
      · exact absurd rfl (hnot pid job rfl)
    · obtain ⟨pid, queueId, job, rfl, rfl, rfl, hjobs, halive⟩ | hnone :=
        stepAgent_begins (π := π) hstep
      · exact ⟨hresult, begun_beginProc halive hjobs⟩
      · exact hnone _
  -- a statement of the procedure
  · next pid job resultId payload stage =>
    split at h
    · split at h
      · exact .inl (hexit h)
      · next stage' hins =>
        obtain ⟨rfl, rfl⟩ := by simpa using h
        obtain ⟨stage₁, heq, hstage⟩ | ⟨_, _, heq, -⟩ :=
          insResult_cases hI.jobs (hw.held job List.mem_cons_self) hresult.2.2 hins
        · cases heq
          exact .inl ⟨rfl, fun v hv _ => .inl hv, hresult.1, hresult.2.1, hstage⟩
        · cases heq
      · next results hins =>
        obtain ⟨rfl, rfl⟩ := by simpa using h
        obtain ⟨_, heq, -⟩ | ⟨results₁, row, heq, hrow⟩ :=
          insResult_cases hI.jobs (hw.held job List.mem_cons_self) hresult.2.2 hins
        · cases heq
        · cases heq
          exact .inr ⟨pid, job, resultId, payload, stage, row, rfl, rfl, hrow⟩
    · cases h
  · split at h
    · obtain ⟨rfl, rfl⟩ := by simpa using h
      exact .inl ⟨rfl, fun v hv _ => .inl hv, hresult⟩
    · cases h
  -- the job is completed
  · next pid job =>
    split at h
    · obtain ⟨rfl, rfl⟩ := by simpa using h
      refine .inl ⟨rfl, fun v hv _ => ?_, trivial⟩
      obtain rfl | hv := List.mem_cons.mp hv
      · exact .inr hresult
      · exact .inl hv
    · cases h
  · exact .inl (hexit h)
  · exact .inl (hexit h)
  · exact .inl (hexit h)
  · cases h

/-- What a step leaves of the queue. -/
structure JobsStep (s s' : ResultState π) (w' : ResultAgent π) : Prop where
  /-- What holds of the queue holds afterwards. -/
  inv : JobsInv s'.jobs
  /-- The rows the process holds are of the table. -/
  held : ∀ r ∈ heldRows w'.agent, r ∈ s'.jobs.queue
  /-- It knows what it has to. -/
  knows : Knows s'.jobs w'.agent
  /-- The children are kept. -/
  kept : ProcsKept s.jobs s'.jobs
  /-- No version goes. -/
  mem : ∀ v ∈ s.jobs.queue, v ∈ s'.jobs.queue

/-- **A step among results is a step of the queue, or none of it**, so that all that holds of the
queue is kept. -/
theorem stepResult_jobs (hI : ResultsInv s) (hw : ResultAgentInv s w)
    (h : stepResult cfg s w a = some (s', w')) : JobsStep s s' w' := by
  obtain ⟨hjobs, hsame⟩ | ⟨o, -, hstep⟩ := stepResult_agent h
  · refine ⟨hjobs ▸ hI.jobs, ?_, ?_, hjobs ▸ .refl _, fun v hv => hjobs ▸ hv⟩
    · rw [hsame, hjobs]
      exact hw.held
    · rw [hsame, hjobs]
      exact hw.knows
  · have he := stepAgent_effect hw.knows hstep
    exact ⟨he.jobsInv hI.jobs hw.held hw.knows, he.heldRows_mem hw.held,
      stepAgent_knows hI.jobs hw.knows hstep, he.kept, fun v hv => he.mem hv⟩

/-- **A step keeps what holds of the tables, and of the process that takes it.** Only the commit
of the procedure adds a row, and it is the rule for insertions that it has to meet. -/
theorem stepResult_inv (hI : ResultsInv s) (hw : ResultAgentInv s w)
    (h : stepResult cfg s w a = some (s', w')) : ResultsInv s' ∧ ResultAgentInv s' w' := by
  have hjobs := stepResult_jobs hI hw h
  obtain ⟨hr, hdone, hknows⟩ | ⟨pid, job, resultId, payload, stage, row, rfl, rfl, hrow⟩ :=
    stepResult_cases hI hw h
  · exact ⟨hI.jobs_step hjobs.inv hr hjobs.kept hjobs.mem hdone, hjobs.held, hjobs.knows, hknows⟩
  · obtain ⟨hno, hb, -⟩ := hw.result
    exact ⟨hI.inserts hrow (hw.held job List.mem_cons_self) hno hb hw.knows, hjobs.held,
      hjobs.knows, hrow.stored.mpr (.inl rfl)⟩

/-- What a worker knows stays known while nobody stores a result of its job. -/
theorem ResultKnows.kept (hv : ResultKnows s v) (hk : Knows s.jobs v.agent)
    (hkept : ProcsKept s.jobs s'.jobs) (hstored : ∀ queueId, Stored s queueId → Stored s' queueId)
    (hno : ∀ pid queueId, v.agent.isChild pid = true → (childKeys s.jobs)[pid]? = some queueId →
      Unstored s queueId → Unstored s' queueId) : ResultKnows s' v := by
  cases v with
  | process ag =>
    cases ag with
    | child pid queueId => exact hno pid queueId (decide_eq_true rfl) hk hv
    | childRun pid job => exact ⟨hno pid _ (decide_eq_true rfl) hk hv.1, hv.2.kept hkept⟩
    | _ => trivial
  | insResult pid job resultId payload stage =>
    exact ⟨hno pid _ (decide_eq_true rfl) hk hv.1, hv.2.1.kept hkept, hv.2.2⟩
  | promote pid job => exact hstored _ hv
  | complete pid job => exact hstored _ hv

/-- **Nor does it break what holds of another process.** The two are not both the loop and not the
same child, so that neither writes what the other knows of its job. -/
theorem stepResult_other (hI : ResultsInv s) (hw : ResultAgentInv s w) (hv : ResultAgentInv s v)
    (hd : Distinct w.agent v.agent) (h : stepResult cfg s w a = some (s', w')) :
    ResultAgentInv s' v := by
  have hjobs := stepResult_jobs hI hw h
  refine ⟨fun r hr => hjobs.mem r (hv.held r hr), ?_, ?_⟩
  · obtain ⟨hsame, -⟩ | ⟨o, -, hstep⟩ := stepResult_agent h
    · rw [hsame]
      exact hv.knows
    · exact (stepAgent_effect hw.knows hstep).knows_other hd.1 hv.knows
  · obtain ⟨hr, -, -⟩ | ⟨pid, job, resultId, payload, stage, row, rfl, rfl, hrow⟩ :=
      stepResult_cases hI hw h
    · refine hv.result.kept hv.knows hjobs.kept (fun queueId hs => ?_) fun pid queueId _ _ hno => ?_
      · unfold Stored at hs ⊢
        rw [hr]
        exact hs
      · unfold Unstored at hno ⊢
        rw [hr]
        exact hno
    · -- the other worker is of another job
      refine hv.result.kept hv.knows hjobs.kept (fun queueId hs => hrow.stored.mpr (.inr hs))
        fun pid' queueId hchild hkey hno => unstored_iff.mpr fun hs => ?_
      obtain hs | hs := hrow.stored.mp hs
      · exact hI.jobs.queueId_ne hd (decide_eq_true rfl) hchild hw.knows hkey hs
      · exact unstored_iff.mp hno hs

end Steps

/-! ## Runs -/

section Runs

variable {cfg : LoopConfig}

/-- A process that starts knows nothing of a result, and has to know nothing. -/
theorem resultPool_fresh {s : ResultState π} {ws : List (ResultAgent π)} {b : Start}
    {w : ResultAgent π} (hI : ResultsInv s)
    (h : (resultPool π cfg).fresh s ws b = some w) : ResultAgentInv s w := by
  obtain ⟨a, ha, rfl⟩ := Option.map_eq_some_iff.mp h
  obtain ⟨queueId, userId, rfl⟩ | ⟨rfl, -⟩ | ⟨pid, queueId, rfl⟩ := startAgent_cases ha
  · exact ⟨fun r hr => (by cases hr), trivial, trivial⟩
  · exact ⟨fun r hr => (by cases hr), trivial, trivial⟩
  · obtain ⟨p, hp, rfl, hs⟩ := startAgent_child ha
    have hkey : (childKeys s.jobs)[pid]? = some p.queueId := by
      rw [childKeys, List.getElem?_map, hp]
      rfl
    refine ⟨fun r hr => (by cases hr), hkey, fun r hr hk => ?_⟩
    -- the child of a job that has a result has begun
    obtain ⟨pid', p', hp', hk', hs'⟩ := hI.begun r hr
    have hkey' : (childKeys s.jobs)[pid']? = some p.queueId := by
      rw [childKeys, List.getElem?_map, hp', Option.map_some, hk', hk]
    obtain ⟨hlt, heq⟩ := List.getElem?_eq_some_iff.mp hkey
    obtain ⟨hlt', heq'⟩ := List.getElem?_eq_some_iff.mp hkey'
    have hpid : pid' = pid := (List.Nodup.getElem_inj_iff hI.jobs.apart).mp (heq'.trans heq.symm)
    subst hpid
    obtain rfl := Option.some.inj (hp.symm.trans hp')
    exact Bool.false_ne_true (hs.symm.trans hs')

/-- **What holds in every run of the pool**, whatever the order of the steps and whichever
processes are lost. -/
theorem resultPool_invariant {s : PoolState (ResultState π) (ResultAgent π)}
    (hs : (resultPool π cfg).machine.Reach (fun _ _ => True) s) :
    ResultsInv s.shared ∧ ∀ w ∈ s.workers, ResultAgentInv s.shared w := by
  have hs : (resultPool π cfg).machine.Reach
      (Pool.Guard (fun _ _ _ => True) (fun _ _ _ _ => True)) s := hs.mono fun s act _ => by
    cases act with
    | work i a => exact fun w hw => ⟨trivial, fun _ _ => trivial⟩
    | _ => trivial
  have hs := Pool.exclusive (R := fun v w => Distinct v.agent w.agent) hs
    (fun v w hd => hd.symm)
    (fun s ws b w h v hv => by
      obtain ⟨a, ha, rfl⟩ := Option.map_eq_some_iff.mp h
      exact startAgent_distinct ha _ (List.mem_map_of_mem hv))
    (fun s w a s' w' v h hd => stepResult_distinct h hd)
  refine Pool.invariant (I := ResultsInv) (L := ResultAgentInv) hs (fun s h => ?_)
    (fun s ws b w hI h => resultPool_fresh hI h) (fun s e s' hI h => ?_)
    (fun s w a s' w' hI hw _ h => stepResult_inv hI hw h)
    (fun s w a s' w' v hI hw hv _ hd h => stepResult_other hI hw hv hd.2 h)
  · obtain ⟨⟨hq, hp⟩, hr⟩ := h
    refine ⟨JobsInv.empty hq hp, ?_, ?_, ?_, ?_⟩
    · rw [hr]
      exact List.nodup_nil
    · rw [hr]
      exact fun v hv => absurd hv List.not_mem_nil
    · rw [hr]
      exact fun v hv => absurd hv List.not_mem_nil
    · rw [hq]
      exact fun v hv => absurd hv List.not_mem_nil
  · obtain ⟨jobs, hjobs, rfl⟩ := Option.map_eq_some_iff.mp h
    obtain ⟨hJ, hkept, hkeys, hmem, hdone⟩ := hI.jobs.world hjobs
    refine ⟨hI.jobs_step hJ rfl hkept hmem fun v hv hc => .inl (hdone v hv hc), fun w hw => ?_⟩
    exact ⟨fun r hr => hmem r (hw.held r hr), hw.knows.of_keys hkeys hmem,
      hw.result.kept hw.knows hkept (fun _ => id) fun _ _ _ _ => id⟩

/-- What is read by a job is its only result. -/
theorem spGetResult_queueId {rows : List (ResultRow π)} {queueId : ℕ} {r : ResultRow π}
    (h : rows.filter (fun r' => r'.queueId = queueId) = [r]) :
    spGetResult rows (some queueId) none none = .ok (some r) := by
  have hrows : rows.filter (fun r => (some queueId).all (· = r.queueId) ∧
      (none : Option ℕ).all (· = r.strategyId) ∧ (none : Option ℕ).all (· = r.strategyVid)) =
      [r] := by
    rw [← h]
    refine List.filter_congr fun r' _ => ?_
    simp [eq_comm]
  unfold spGetResult
  rw [if_neg (by simp)]
  dsimp only
  rw [hrows]
  rfl

/-- **A complete job has one result.** In every run of the pool, whatever the order of the
steps and whichever processes are lost, a job has one child in its life and no more than one
result; and a job that has been completed has one, of the version of the strategy that it was
submitted with, which is what a reader of the job is given. -/
theorem completed_has_one_result {s : PoolState (ResultState π) (ResultAgent π)}
    (hs : (resultPool π cfg).machine.Reach (fun _ _ => True) s) :
    (s.shared.jobs.procs.map Proc.queueId).Nodup ∧
      (s.shared.results.map ResultRow.queueId).Nodup ∧
      ∀ v ∈ s.shared.jobs.queue, v.queueStatus = .completed →
        ∃ r, s.shared.results.filter (fun r => r.queueId = v.queueId) = [r] ∧
          r.strategyId = v.strategyId ∧ r.strategyVid = v.strategyVid ∧
          spGetResult s.shared.results (some v.queueId) none none = .ok (some r) ∧
          ∀ userId row, getActive s.shared.jobs.queue v.queueId (some userId) = some row →
            getJob s.shared userId v.queueId = .ok (some (row, some r.payloadJson)) := by
  obtain ⟨hI, -⟩ := resultPool_invariant hs
  refine ⟨hI.jobs.apart, hI.apart, fun v hv hc => ?_⟩
  obtain ⟨r, hr, hk⟩ := hI.completed v hv hc
  have hone := hk ▸ Versioned.filter_eq_singleton hI.apart hr
  have hget := spGetResult_queueId hone
  obtain ⟨v', hv', hk', hversion⟩ := hI.version r hr
  obtain ⟨hid, hvid⟩ := Prod.mk.inj hversion
  obtain ⟨hsid, hsvid⟩ := hI.jobs.oneStrategy v' hv' v hv (hk'.trans hk)
  refine ⟨r, hone, hid.trans hsid, hvid.trans hsvid, hget, fun userId row hrow => ?_⟩
  unfold getJob
  rw [hrow]
  dsimp only
  rw [hget]
  rfl

end Runs

/-! ## A run -/

/-- A run in which a job is completed and has its result. -/
theorem run_completes : ∃ s, (resultPool ℕ defaultLoop).machine.Reach (fun _ _ => True) s ∧
    (∃ v ∈ s.shared.jobs.queue, v.queueStatus = .completed) ∧
    (s.shared.results.map ResultRow.queueId).Nodup := by
  obtain ⟨s, hs, hP⟩ := Machine.Reach.exists_of_runs (M := (resultPool ℕ defaultLoop).machine)
    (G := fun _ _ => True) (s := ⟨⟨⟨0, [], []⟩, []⟩, []⟩) ⟨⟨⟨rfl, rfl⟩, rfl⟩, rfl⟩ completes
    (P := fun s => decide (∃ v ∈ s.shared.jobs.queue, v.queueStatus = .completed))
    (by decide +kernel)
  exact ⟨s, hs, of_decide_eq_true hP, (completed_has_one_result hs).2.1⟩

end Queue
