import QuantStrategies.Database.Backtest
import QuantStrategies.Frontend.StrategyIdentity
import QuantStrategies.Lib.Admission
import QuantStrategies.Lib.Simulation
import QuantStrategies.Queue.Children
import QuantStrategies.Queue.RunOrder

/-!
# Submitting jobs

A job is submitted with a strategy of its own (`enqueue`), or again when it has failed or
was cancelled (`reenqueue`). Either request counts the jobs of its user that wait, and is
refused when there are too many. The count, the version of the strategy and the job are
calls of their own, each committed before the next one begins, and requests of one user run
side by side.

The requests are workers of a pool, together with the processes of the queue.

A request goes through positions: counted, strategy stored, job stored. At each of them it
may be lost, and what it has committed by then stays. What it has read on the way is in the
position, so that nothing is looked up again which the code does not look up.
-/

namespace Queue

/-! ## The definitions -/

/-- `EnqueueRequest`. -/
structure Submission where
  /-- The name under which the strategy is stored. -/
  strategyNm : String
  /-- The strategy, as a document. -/
  configJson : String
  /-- The priority, by name. -/
  priority : String

/-- What the service reads of the reference data, and the interval in a config. -/
structure SubmitConfig where
  /-- The intervals, with their names, or why they cannot be read. -/
  tmInterval : Except Refdata.ReadError (List (ℤ × String))
  /-- The priorities by name, or why they cannot be read. -/
  queuePriority : Except Refdata.ReadError (List (String × ℤ))
  /-- How many jobs of a user may wait. -/
  maxQueuedPerUser : ℤ
  /-- The interval that a document names, as untyped as the document is. -/
  tmIntervalId : String → Frontend.JsonValue

/-- How a submission is refused, or fails. -/
inductive SubmitError where
  | strategyName (e : Frontend.NameError)
  | rateLimitError (message : String)
  | unknownPriority (message : String)
  | jobNotFound (message : String)
  | reenqueueNotAllowed (message : String)
  | refdata (e : Refdata.ReadError)
  | database (e : Database.CallError)

/-- The `NAME`s of `REFDATA.QUEUE_STATUS`. -/
def queueStatusName : QueueStatus → String
  | .queued => "QUEUED"
  | .running => "RUNNING"
  | .cancelRequested => "CANCEL_REQUESTED"
  | .completed => "COMPLETED"
  | .failed => "FAILED"
  | .cancelled => "CANCELLED"

/-- `SP_GET_QUEUED_COUNT`: the jobs of a user that wait. -/
def spGetQueuedCount (queue : List QueueRow) (userId : String) : ℕ :=
  (queuedJobs queue).countP (fun r => r.userId = userId)

/-- `RedisRefData.resolve_queue_priority`, as the service reports it. -/
def resolveQueuePriority (rows : Except Refdata.ReadError (List (String × ℤ))) (name : String) :
    Except SubmitError ℤ :=
  match rows with
  | .error (.runtimeError message) => .error (.unknownPriority message)
  | .error e => .error (.refdata e)
  | .ok rows =>
    match rows.find? (·.1 = name) with
    | some r => .ok r.2
    | none => .error (.unknownPriority ("REFDATA.QUEUE_PRIORITY missing NAME=" ++
        Python.repr name))

/-- What the requests and the queue share. -/
structure SubmitState where
  /-- The queue. -/
  jobs : QueueState
  /-- The versions of the strategies. -/
  strategies : List Database.StrategyRow

/-- A process of the queue, or a request. An `enqueue` counts, stores its strategy and then
its job. A `reenqueue` reads the job, counts, and stores another one. -/
inductive SubmitAgent where
  | process (agent : Agent)
  | enqueue (userId : String) (req : Submission)
  | insStrategy (userId : String) (req : Submission) (priority : ℤ)
  | reenqueue (userId : String) (queueId : ℕ)
  | recount (userId : String) (row : QueueRow)
  | insQueue (userId : String) (strategyId strategyVid : ℕ) (priority : ℤ)
  | position (queueId : ℕ)
  | done (answer : Except SubmitError (ℕ × ℕ))

/-- What is started: a process of the queue, or a request. -/
inductive SubmitStart where
  | process (b : Start)
  | enqueue (userId : String) (req : Submission)
  | reenqueue (userId : String) (queueId : ℕ)

/-- What decides a step: what decides one of a process; nothing; what goes wrong in the call
that stores the strategy, and the id that is generated there; the id of the new job, and what
goes wrong in the call that stores it. -/
inductive SubmitOutcome where
  | process (o : Outcome)
  | go
  | strategy (f : Database.Faults) (generated : ℕ)
  | job (queueId : ℕ) (fault : Option Database.CallError)

/-- What happens besides: time passes, and strategies are promoted and retired. -/
inductive SubmitWorld where
  | tick (d : ℕ)
  | flags (isBestInd logicalDeleteInd : Database.StrategyRow → Char)

/-- The guard of both requests: `None`, or the refusal. -/
def rateLimited (cfg : SubmitConfig) (s : SubmitState) (userId : String) : Option SubmitError :=
  if cfg.maxQueuedPerUser ≤ spGetQueuedCount s.jobs.queue userId then
    some (.rateLimitError s!"rate_limited: at most {cfg.maxQueuedPerUser} QUEUED jobs per user")
  else none

/-- `JobsService.enqueue`, up to the first write. -/
def checkEnqueue (cfg : SubmitConfig) (s : SubmitState) (userId : String) (req : Submission) :
    Except SubmitError ℤ :=
  match Frontend.assertCadenceInName cfg.tmInterval
      ⟨req.strategyNm, cfg.tmIntervalId req.configJson⟩ with
  | .error e => .error (.strategyName e)
  | .ok () =>
    match rateLimited cfg s userId with
    | some e => .error e
    | none => resolveQueuePriority cfg.queuePriority req.priority

/-- `JobsService.reenqueue`, up to the count. -/
def checkReenqueue (s : SubmitState) (userId : String) (queueId : ℕ) :
    Except SubmitError QueueRow :=
  match getActive s.jobs.queue queueId (some userId) with
  | none => .error (.jobNotFound (toString queueId))
  | some row =>
    if row.queueStatus = .failed ∨ row.queueStatus = .cancelled then .ok row
    else
      let status := Python.repr (queueStatusName row.queueStatus)
      .error (.reenqueueNotAllowed s!"job {queueId} cannot be re-enqueued from state {status}")

/-- A request goes on with what it has, or ends. -/
def SubmitAgent.orDone {α : Type} (next : α → SubmitAgent) : Except SubmitError α → SubmitAgent
  | .ok a => next a
  | .error e => .done (.error e)

/-- The job that a request submits. -/
def newJob (queueId strategyId strategyVid : ℕ) (priority : ℤ) (userId : String) : QueueRow where
  queueId := queueId
  queueVid := 1
  strategyId := strategyId
  strategyVid := strategyVid
  transactFromTs := 0
  queueStatus := .queued
  priority := priority
  errorText := none
  userId := userId
  writtenBy := .api

/-- The call of `SP_INS_STRATEGY` that a request makes. -/
def storeStrategy (s : SubmitState) (f : Database.Faults) (generated : ℕ) (userId : String)
    (req : Submission) :
    Except Database.CallError (Option ℕ × Option ℕ) × List Database.StrategyRow :=
  Database.callWrite f (Database.spInsStrategy f s.jobs.clock generated
    ⟨none, some req.strategyNm, some req.configJson, some userId⟩) s.strategies

/-- One step of a process, or of a request. -/
def stepSubmit (cfg : SubmitConfig) (loop : LoopConfig) (s : SubmitState) :
    SubmitAgent → SubmitOutcome → Option (SubmitState × SubmitAgent)
  | .process agent, .process o =>
      (stepAgent loop s.jobs agent o).map (fun r => ({ s with jobs := r.1 }, .process r.2))
  | .enqueue userId req, .go =>
      some (s, .orDone (.insStrategy userId req) (checkEnqueue cfg s userId req))
  | .insStrategy userId req priority, .strategy f generated =>
      let r := storeStrategy s f generated userId req
      match r.1 with
      | .error e => some ({ s with strategies := r.2 }, .done (.error (.database e)))
      | .ok (some strategyId, some strategyVid) =>
          some ({ s with strategies := r.2 }, .insQueue userId strategyId strategyVid priority)
      | .ok _ => some ({ s with strategies := r.2 }, .done (.error (.database .badShape)))
  | .reenqueue userId queueId, .go =>
      some (s, .orDone (.recount userId) (checkReenqueue s userId queueId))
  | .recount userId row, .go =>
      match rateLimited cfg s userId with
      | some e => some (s, .done (.error e))
      | none => some (s, .insQueue userId row.strategyId row.strategyVid row.priority)
  | .insQueue userId strategyId strategyVid priority, .job queueId fault =>
      match fault with
      | some e => some (s, .done (.error (.database e)))
      | none =>
          (stepWorld s.jobs (.enqueue (newJob queueId strategyId strategyVid priority userId))).map
            (fun jobs => ({ s with jobs := jobs }, .position queueId))
  | .position queueId, .go =>
      some (s, .done (.ok (queueId, queuedPosition s.jobs.queue queueId)))
  | _, _ => none

/-- The processes of the queue among the workers. -/
def SubmitAgent.guest : SubmitAgent → Option Agent
  | .process agent => some agent
  | _ => none

/-- What may be started. -/
def startSubmit (s : SubmitState) (agents : List SubmitAgent) : SubmitStart → Option SubmitAgent
  | .process b => (startAgent s.jobs (agents.filterMap SubmitAgent.guest) b).map .process
  | .enqueue userId req => some (.enqueue userId req)
  | .reenqueue userId queueId => some (.reenqueue userId queueId)

/-- What happens besides. -/
def stepSubmitWorld (s : SubmitState) : SubmitWorld → Option SubmitState
  | .tick d => (stepWorld s.jobs (.tick d)).map (fun jobs => { s with jobs := jobs })
  | .flags isBestInd logicalDeleteInd =>
      some { s with strategies := s.strategies.map fun r =>
        { r with isBestInd := isBestInd r, logicalDeleteInd := logicalDeleteInd r } }

/-- The processes of the queue and the requests that submit jobs, from empty tables. -/
def submitPool (cfg : SubmitConfig) (loop : LoopConfig) :
    Pool SubmitState SubmitAgent SubmitWorld SubmitStart SubmitOutcome where
  Init s := (s.jobs.queue = [] ∧ s.jobs.procs = []) ∧ s.strategies = []
  env := stepSubmitWorld
  fresh := startSubmit
  work := stepSubmit cfg loop

/-- A request of a user has counted and is yet to store its job. -/
def SubmitAgent.admitted (userId : String) : SubmitAgent → Bool
  | .insStrategy u _ _ => u = userId
  | .insQueue u _ _ _ => u = userId
  | _ => false

/-- At no time have more than `K` requests of a user counted and not yet stored their jobs. -/
def AtMost (cfg : SubmitConfig) (loop : LoopConfig) (userId : String) (K : ℕ)
    (s : PoolState SubmitState SubmitAgent) (act : PoolAct SubmitWorld SubmitStart SubmitOutcome) :
    Prop :=
  ∀ s' ∈ (submitPool cfg loop).step s act, s'.workers.countP (SubmitAgent.admitted userId) ≤ K

instance (cfg : SubmitConfig) (loop : LoopConfig) (userId : String) (K : ℕ)
    (s : PoolState SubmitState SubmitAgent) (act : PoolAct SubmitWorld SubmitStart SubmitOutcome) :
    Decidable (AtMost cfg loop userId K s act) :=
  inferInstanceAs (Decidable (∀ s' ∈ (submitPool cfg loop).step s act, _))

/-- A name ends its traded leg with the cadence of the config that it is stored with. -/
def NamesCadence (cfg : SubmitConfig) (r : Database.StrategyRow) : Prop :=
  ∃ strategyNm tmIntervalId cadence, r.strategyNm = some strategyNm ∧
    (cfg.tmIntervalId r.configJson).int = some tmIntervalId ∧
    Frontend.intervalName cfg.tmInterval tmIntervalId = .ok cadence ∧
    (":" ++ cadence).toList <:+ Frontend.traded strategyNm

/-- A priority is one of the reference data. -/
def PriorityListed (cfg : SubmitConfig) (priority : ℤ) : Prop :=
  ∃ rows name, cfg.queuePriority = .ok rows ∧ (name, priority) ∈ rows

/-- What is asked of a job: the version of its strategy is stored, once, for the user, under a
name that has its cadence; and the priority is one of the reference data. -/
structure Submitted (cfg : SubmitConfig) (rows : List Database.StrategyRow) (userId : String)
    (strategyId strategyVid : ℕ) (priority : ℤ) : Prop where
  /-- The version is stored once, of the user, under a name with its cadence. -/
  strategy : ∃ r, rows.filter (fun r => (r.strategyId, r.strategyVid) = (strategyId, strategyVid)) =
    [r] ∧ r.userId = userId ∧ NamesCadence cfg r
  /-- The priority is one of the reference data. -/
  priority : PriorityListed cfg priority

/-! ## What the queue knows of it -/

variable {cfg : SubmitConfig} {loop : LoopConfig}

/-- The processes of the queue run among the requests, for which a submission is a move of
the world. -/
theorem submitPool_hosts :
    (submitPool cfg loop).Hosts (queuePool loop) SubmitState.jobs SubmitAgent.guest where
  init s h := h.1
  env s e s' h := by
    cases e with
    | tick d =>
      simp only [submitPool, stepSubmitWorld, Option.map_eq_some_iff] at h
      obtain ⟨jobs, hjobs, rfl⟩ := h
      exact .inr ⟨.tick d, hjobs⟩
    | flags isBestInd logicalDeleteInd =>
      obtain rfl := Option.some.inj h
      exact .inl rfl
  fresh s ws b w h := by
    cases b with
    | process b =>
      obtain ⟨agent, hagent, rfl⟩ := Option.map_eq_some_iff.mp h
      exact .inr ⟨b, agent, rfl, hagent⟩
    | enqueue userId req => exact .inl (Option.some.inj h ▸ rfl)
    | reenqueue userId queueId => exact .inl (Option.some.inj h ▸ rfl)
  work s w a s' w' h := by
    have hdone {α : Type} (next : α → SubmitAgent) (hnext : ∀ a, (next a).guest = none)
        (r : Except SubmitError α) : (SubmitAgent.orDone next r).guest = none := by
      cases r with
      | ok a => exact hnext a
      | error e => rfl
    change stepSubmit cfg loop s w a = some (s', w') at h
    unfold stepSubmit at h
    split at h
    · obtain ⟨⟨jobs, agent'⟩, hstep, heq⟩ := Option.map_eq_some_iff.mp h
      obtain ⟨rfl, rfl⟩ := by simpa using heq
      exact .inl ⟨_, _, _, rfl, rfl, hstep⟩
    · obtain ⟨rfl, rfl⟩ := by simpa using h
      exact .inr ⟨rfl, hdone _ (fun _ => rfl) _, .inl rfl⟩
    · dsimp only at h
      split at h
      · obtain ⟨rfl, rfl⟩ := by simpa using h
        exact .inr ⟨rfl, rfl, .inl rfl⟩
      · obtain ⟨rfl, rfl⟩ := by simpa using h
        exact .inr ⟨rfl, rfl, .inl rfl⟩
      · obtain ⟨rfl, rfl⟩ := by simpa using h
        exact .inr ⟨rfl, rfl, .inl rfl⟩
    · obtain ⟨rfl, rfl⟩ := by simpa using h
      exact .inr ⟨rfl, hdone _ (fun _ => rfl) _, .inl rfl⟩
    · split at h
      · obtain ⟨rfl, rfl⟩ := by simpa using h
        exact .inr ⟨rfl, rfl, .inl rfl⟩
      · obtain ⟨rfl, rfl⟩ := by simpa using h
        exact .inr ⟨rfl, rfl, .inl rfl⟩
    -- the job is enqueued
    · split at h
      · obtain ⟨rfl, rfl⟩ := by simpa using h
        exact .inr ⟨rfl, rfl, .inl rfl⟩
      · obtain ⟨jobs, hjobs, heq⟩ := Option.map_eq_some_iff.mp h
        obtain ⟨rfl, rfl⟩ := by simpa using heq
        exact .inr ⟨rfl, rfl, .inr ⟨.enqueue _, hjobs⟩⟩
    · obtain ⟨rfl, rfl⟩ := by simpa using h
      exact .inr ⟨rfl, rfl, .inl rfl⟩
    · cases h

end Queue
