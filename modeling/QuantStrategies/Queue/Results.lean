import QuantStrategies.Lib.Simulation
import QuantStrategies.Queue.Children

/-!
# The result of a job

A worker whose backtest has succeeded does not end its job at once. It draws an id and calls
`SP_INS_RESULT`, which looks up the strategy of the job, numbers the result among those of
that version of the strategy, turns off the current ones and inserts its own as the current
one. Then it lets the version be promoted, and only then writes that the job is complete. It
can be lost or killed in between, and so can any other process.

The procedure is one transaction, and under READ COMMITTED each of its statements sees what
is committed by then (`InsResult`). Its update turns off the rows that were current when it
began; one that waits for another transaction looks at the row again, which is off by then.
What the transaction leaves takes effect when it commits.

The pool of these processes is simulated by the pool of the queue, in which a backtest ends
in one step. So what holds of every run of the queue holds of the runs with results as
well, first of all that an ended job stays ended. And it tells that a job's backtest
is started once, so that its result is stored at most once, and has been stored by the time
the job is complete (`completed_has_one_result`).
-/

/-- A row of `BT.RESULT`. -/
structure ResultRow (π : Type) where
  /-- The id it was given. -/
  resultId : ℕ
  /-- The job it is the result of. -/
  queueId : ℕ
  /-- The strategy of the job. -/
  strategyId : ℕ
  /-- Its version. -/
  strategyVid : ℕ
  /-- The number of the result among those of the version. -/
  resultVid : ℕ
  /-- Whether it is the current one of the version. -/
  isCurrentInd : Bool
  /-- The result itself, which nothing here reads. -/
  payloadJson : π
  /-- When it was stored. -/
  createdAt : ℤ
deriving DecidableEq

variable {π : Type}

/-- The version of the strategy that a result is of. -/
def ResultRow.version (r : ResultRow π) : ℕ × ℕ := (r.strategyId, r.strategyVid)

/-- A result that has been turned off, if it is among these. -/
def ResultRow.flip (current : List ℕ) (r : ResultRow π) : ResultRow π :=
  if r.resultId ∈ current then { r with isCurrentInd := false } else r

/-- The tables of the queue, and the results, newest first. -/
structure ResultState (π : Type) where
  /-- The queue and its processes. -/
  jobs : QueueState
  /-- The results. -/
  results : List (ResultRow π)

/-- Where `SP_INS_RESULT` stands: what it has read so far. -/
inductive InsResult where
  | keys
  | resultVid (createdAt : ℤ) (strategyId strategyVid : ℕ)
  | flip (createdAt : ℤ) (strategyId strategyVid resultVid : ℕ)
  | insert (createdAt : ℤ) (strategyId strategyVid resultVid : ℕ) (current : List ℕ)

/-- A process that touches the queue, or a worker that has its result. -/
inductive ResultAgent (π : Type) where
  | process (a : Agent)
  | insResult (pid : ℕ) (job : QueueRow) (resultId : ℕ) (payload : π) (stage : InsResult)
  | promote (pid : ℕ) (job : QueueRow)
  | complete (pid : ℕ) (job : QueueRow)

/-- What decides a step: what decides that of a process of the queue; the result of a
backtest and the id drawn for it; or nothing. -/
inductive ResultOutcome (π : Type) where
  | process (o : Outcome)
  | optimised (resultId : ℕ) (payload : π)
  | next

/-- A worker with its result is one that runs its job. -/
def ResultAgent.agent : ResultAgent π → Agent
  | .process a => a
  | .insResult pid job _ _ _ => .childRun pid job
  | .promote pid job => .childRun pid job
  | .complete pid job => .childRun pid job

namespace Queue

/-- The number of the next result of a version. -/
abbrev nextResultVid (results : List (ResultRow π)) (version : ℕ × ℕ) : ℕ :=
  Versioned.nextVid ResultRow.version ResultRow.resultVid results version

/-- The ids of the current results of a version. -/
def currentIds (results : List (ResultRow π)) (version : ℕ × ℕ) : List ℕ :=
  (results.filter (fun r => r.version = version ∧ r.isCurrentInd)).map ResultRow.resultId

/-- `SP_INS_RESULT`, statement by statement: the next statement, or the table that the
transaction leaves. It fails when the job is not found, or the id is taken. -/
def insResult (s : ResultState π) (queueId resultId : ℕ) (payload : π) :
    InsResult → Option (InsResult ⊕ List (ResultRow π))
  | .keys => (fetchJob s.jobs.queue queueId).map (fun row =>
      .inl (.resultVid s.jobs.clock row.strategyId row.strategyVid))
  | .resultVid createdAt strategyId strategyVid =>
      some (.inl (.flip createdAt strategyId strategyVid
        (nextResultVid s.results (strategyId, strategyVid))))
  | .flip createdAt strategyId strategyVid resultVid =>
      some (.inl (.insert createdAt strategyId strategyVid resultVid
        (currentIds s.results (strategyId, strategyVid))))
  | .insert createdAt strategyId strategyVid resultVid current =>
      if s.results.any (fun r => r.resultId = resultId) then none
      else some (.inr ({
        resultId := resultId
        queueId := queueId
        strategyId := strategyId
        strategyVid := strategyVid
        resultVid := resultVid
        isCurrentInd := true
        payloadJson := payload
        createdAt := createdAt } :: s.results.map (ResultRow.flip current)))

/-- A worker exits with an error. -/
def exitWorker (s : ResultState π) (pid : ℕ) (code : ℤ) :
    Option (ResultState π × ResultAgent π) :=
  if s.jobs.alive pid ∧ code ≠ 0 then
    some ({ s with jobs := s.jobs.endProc pid code }, .process (.childDone pid))
  else none

/-- One step of a process. A promotion that fails is logged and no more. -/
def stepResult (cfg : LoopConfig) (s : ResultState π) :
    ResultAgent π → ResultOutcome π → Option (ResultState π × ResultAgent π)
  | .process (.childRun pid job), .optimised resultId payload =>
      if s.jobs.alive pid then some (s, .insResult pid job resultId payload .keys) else none
  -- a backtest that has succeeded ends with its result
  | .process (.childRun _ _), .process (.finish none) => none
  | .process a, .process o =>
      (stepAgent cfg s.jobs a o).map (fun r => ({ s with jobs := r.1 }, .process r.2))
  | .insResult pid job resultId payload stage, .next =>
      if s.jobs.alive pid then
        match insResult s job.queueId resultId payload stage with
        | none => exitWorker s pid 1
        | some (.inl stage) => some (s, .insResult pid job resultId payload stage)
        | some (.inr results) => some ({ s with results := results }, .promote pid job)
      else none
  | .promote pid job, .next =>
      if s.jobs.alive pid then some (s, .complete pid job) else none
  | .complete pid job, .next =>
      if s.jobs.alive pid then
        some ({ s with jobs := s.jobs.write .worker job .completed job.userId none },
          .process (.childDone pid))
      else none
  | .insResult pid _ _ _ _, .process (.exit code) => exitWorker s pid code
  | .promote pid _, .process (.exit code) => exitWorker s pid code
  | .complete pid _, .process (.exit code) => exitWorker s pid code
  | _, _ => none

/-- The processes of the queue, with the results of the jobs, from empty tables. -/
def resultPool (π : Type) (cfg : LoopConfig) :
    Pool (ResultState π) (ResultAgent π) World Start (ResultOutcome π) where
  Init s := (s.jobs.queue = [] ∧ s.jobs.procs = []) ∧ s.results = []
  env s e := (stepWorld s.jobs e).map (fun jobs => { s with jobs := jobs })
  fresh s ws b := (startAgent s.jobs (ws.map ResultAgent.agent) b).map ResultAgent.process
  work := stepResult cfg

/-! ## What is read -/

/-- `SP_GET_RESULT`: the newest result of a job, or the current one of a version. -/
def spGetResult (results : List (ResultRow π)) (queueId strategyId strategyVid : Option ℕ) :
    Except String (Option (ResultRow π)) :=
  if queueId.isNone ∧ strategyId.isNone then
    .error "SP_GET_RESULT needs IN_QUEUE_ID or IN_STRATEGY_ID"
  else
    let rows := results.filter (fun r => queueId.all (· = r.queueId) ∧
      strategyId.all (· = r.strategyId) ∧ strategyVid.all (· = r.strategyVid))
    if queueId.isNone then
      .ok ((rows.filter ResultRow.isCurrentInd).insertionSort
        (fun a b => b.resultVid ≤ a.resultVid)).head?
    else .ok (rows.insertionSort (fun a b => b.createdAt ≤ a.createdAt)).head?

/-- `JobsService.get`: a job of a user, and the payload of its result if there is one. -/
def getJob (s : ResultState π) (userId : String) (queueId : ℕ) :
    Except String (Option (QueueRow × Option π)) :=
  match getActive s.jobs.queue queueId (some userId) with
  | none => .ok none
  | some row => do
    let result ← spGetResult s.results (some queueId) none none
    return some (row, result.map ResultRow.payloadJson)

/-- `fetch_result_payload`: what the live path reads of a version. An empty payload, of
which Python says that it is false, is read as none. -/
def fetchResultPayload (isEmpty : π → Bool) (results : List (ResultRow π))
    (strategyId strategyVid : ℕ) : Except String (Option π) := do
  let result ← spGetResult results none (some strategyId) (some strategyVid)
  return (result.map ResultRow.payloadJson).filter (!isEmpty ·)

/-! ## A run with results is a run of the queue -/

section Simulation

variable {cfg : LoopConfig} {s s' : ResultState π} {w w' : ResultAgent π} {a : ResultOutcome π}

/-- A worker that is lost or killed ends with a code other than zero, and its transaction leaves
nothing. -/
theorem exitWorker_eq_some {pid : ℕ} {code : ℤ} (h : exitWorker s pid code = some (s', w')) :
    (s.jobs.alive pid ∧ code ≠ 0) ∧ s' = { s with jobs := s.jobs.endProc pid code } ∧
      w' = .process (.childDone pid) := by
  unfold exitWorker at h
  split at h
  · next hc =>
    obtain ⟨rfl, rfl⟩ := by simpa using h
    exact ⟨hc, rfl, rfl⟩
  · cases h

/-- An exit is one of the queue's. -/
theorem stepAgent_exitWorker {pid : ℕ} {code : ℤ} (job : QueueRow)
    (h : exitWorker s pid code = some (s', w')) :
    stepAgent cfg s.jobs (.childRun pid job) (.exit code) = some (s'.jobs, w'.agent) := by
  obtain ⟨hc, rfl, rfl⟩ := exitWorker_eq_some h
  exact if_pos hc

/-- The end of a worker's backtest, as the queue sees it. -/
def queueOutcome : ResultAgent π → ResultOutcome π → Option Outcome
  | .process _, .process o => some o
  | .complete _ _, .next => some (.finish none)
  | _, .process o => some o
  | .insResult _ _ _ _ _, .next => some (.exit 1)
  | _, _ => none

/-- **A step is one of the queue, or none that it sees.** It is the step that the refinement asks
for: what lies between two calls of the queue changes no table of it. -/
theorem stepResult_agent (h : stepResult cfg s w a = some (s', w')) :
    (s'.jobs = s.jobs ∧ w'.agent = w.agent) ∨
      ∃ o, queueOutcome w a = some o ∧
        stepAgent cfg s.jobs w.agent o = some (s'.jobs, w'.agent) := by
  unfold stepResult at h
  split at h
  · split at h
    · obtain ⟨rfl, rfl⟩ := by simpa using h
      exact .inl ⟨rfl, rfl⟩
    · cases h
  · cases h
  · obtain ⟨⟨jobs, w₁⟩, hstep, heq⟩ := Option.map_eq_some_iff.mp h
    obtain ⟨rfl, rfl⟩ := by simpa using heq
    exact .inr ⟨_, rfl, hstep⟩
  -- a statement of the procedure
  · next pid job resultId payload stage =>
    split at h
    · split at h
      · exact .inr ⟨_, rfl, stepAgent_exitWorker job h⟩
      · obtain ⟨rfl, rfl⟩ := by simpa using h
        exact .inl ⟨rfl, rfl⟩
      · obtain ⟨rfl, rfl⟩ := by simpa using h
        exact .inl ⟨rfl, rfl⟩
    · cases h
  · split at h
    · obtain ⟨rfl, rfl⟩ := by simpa using h
      exact .inl ⟨rfl, rfl⟩
    · cases h
  · next pid job =>
    split at h
    · next halive =>
      obtain ⟨rfl, rfl⟩ := by simpa using h
      exact .inr ⟨_, rfl, if_pos halive⟩
    · cases h
  · next job resultId payload stage code => exact .inr ⟨_, rfl, stepAgent_exitWorker job h⟩
  · next job code => exact .inr ⟨_, rfl, stepAgent_exitWorker job h⟩
  · next job code => exact .inr ⟨_, rfl, stepAgent_exitWorker job h⟩
  · cases h

/-- The condition on a write, of a process or of a worker that completes its job. -/
def UndisputedResult (s : ResultState π) (w : ResultAgent π) (a : ResultOutcome π) : Prop :=
  ∀ o ∈ queueOutcome w a, Undisputed s.jobs w.agent o

instance (s : ResultState π) (w : ResultAgent π) (a : ResultOutcome π) :
    Decidable (UndisputedResult s w a) :=
  inferInstanceAs (Decidable (∀ o ∈ queueOutcome w a, Undisputed s.jobs w.agent o))

/-- The pool with results is simulated by the queue's, as far as a condition goes that the
queue's runs are to meet. -/
theorem simulates (cfg : LoopConfig) (own : QueueState → Agent → Outcome → Prop) :
    (resultPool π cfg).Simulates (queuePool cfg) ResultState.jobs ResultAgent.agent
      (fun s w a => ∀ o ∈ queueOutcome w a, own s.jobs w.agent o) own where
  init _ h := h.1
  env s e s' h := by
    obtain ⟨jobs, hjobs, rfl⟩ := Option.map_eq_some_iff.mp h
    exact hjobs
  fresh s ws b w h := by
    obtain ⟨a, ha, rfl⟩ := Option.map_eq_some_iff.mp h
    exact ha
  work s w a s' w' hown h := by
    obtain hsame | ⟨o, ho, hstep⟩ := stepResult_agent h
    · exact .inl hsame
    · exact .inr ⟨o, hown o ho, hstep⟩

end Simulation

/-- **A run with results is a run of the queue**, whose tables are the same and whose workers
run their jobs as long as their results are under way; and where every write meets the
condition of the queue, an ended job stays ended, and ends at most once. -/
theorem resultPool_refines {cfg : LoopConfig} {s : PoolState (ResultState π) (ResultAgent π)}
    (hs : (resultPool π cfg).machine.Reach (fun _ _ => True) s) :
    (queuePool cfg).machine.Reach (fun _ _ => True)
        ⟨s.shared.jobs, s.workers.map ResultAgent.agent⟩ ∧
      ((resultPool π cfg).machine.Reach
          (Pool.Guard UndisputedResult (fun _ _ _ _ => True)) s →
        EndedStayEnded s.shared.jobs.queue ∧
          ∀ queueId, (s.shared.jobs.queue.filter
            (fun v => v.queueId = queueId ∧ v.Terminal)).length ≤ 1) := by
  refine ⟨?_, fun hs => ?_⟩
  · have hs := (simulates (π := π) cfg (fun _ _ _ => True)).reach (hs.mono fun s act _ => by
      cases act with
      | work i a => exact fun w hw => ⟨fun _ _ => trivial, fun _ _ => trivial⟩
      | _ => trivial)
    exact hs.mono fun _ _ _ => trivial
  · have hs := (simulates (π := π) cfg Undisputed).reach hs
    obtain ⟨hT, -⟩ := UndisputedRun.invariant hs
    exact ⟨hT.endedStayEnded, hT.endedStayEnded.length_le_one⟩

/-- A job is submitted and claimed, and its worker runs it to its end. -/
def completes : List (PoolAct World Start (ResultOutcome ℕ)) :=
  [.env (.enqueue submitted), .spawn .loop] ++ List.replicate 11 (.work 0 (.process .go)) ++
    [.spawn (.child 0), .work 1 (.process .go), .work 1 (.optimised 7 42)] ++
    List.replicate 6 (.work 1 .next) ++ [.work 1 (.process (.exit 0))]

/-- A job that is completed, with its result, in a run of all the processes. -/
theorem run_refines : ∃ s, (resultPool ℕ defaultLoop).machine.Reach
      (Pool.Guard UndisputedResult (fun _ _ _ _ => True)) s ∧
    (s.shared.jobs.queue.map QueueRow.queueStatus = [.completed, .running, .queued]) ∧
    EndedStayEnded s.shared.jobs.queue := by
  obtain ⟨s, hs, hP⟩ := Machine.Reach.exists_of_runs (M := (resultPool ℕ defaultLoop).machine)
    (G := Pool.Guard UndisputedResult (fun _ _ _ _ => True)) (s := ⟨⟨⟨0, [], []⟩, []⟩, []⟩)
    ⟨⟨⟨rfl, rfl⟩, rfl⟩, rfl⟩ completes
    (P := fun s => s.shared.jobs.queue.map QueueRow.queueStatus = [.completed, .running, .queued])
    (by decide +kernel)
  exact ⟨s, hs, of_decide_eq_true hP,
    ((resultPool_refines (hs.mono fun _ _ _ => trivial)).2 hs).1⟩

end Queue
