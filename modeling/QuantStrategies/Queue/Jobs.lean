import Mathlib.Data.List.Sort
import QuantStrategies.Lib.Pool
import QuantStrategies.Lib.Versioned

/-!
# The backtest queue

`BT.QUEUE` keeps the versions of each job. Three kinds of process write it: the
API cancels, the single worker loop claims, reaps, cancels, times out and
recovers, and the worker subprocess of a claimed job writes its own end. Every
one of them reads a version, decides, and appends another in a second statement;
`SP_INS_QUEUE` asks nothing of the version it replaces.

The processes are the workers of a pool. The loop is a program with a position
(`LoopPc`) and the table of the children it tracks; a child is a process the
loop has started, which lives until it exits or is killed, and survives a loop
that dies. Job ids are numbers; what a version carries for the strategy it runs
is passed along as it was read.

The table is a list, newest version first, and a write puts a version in front. Nothing is
ever taken out, so that "since the row was read" is a matter of what stands before the row.
Time is a clock that only goes forward; no step takes time of its own.
-/

/-- The statuses of `REFDATA.QUEUE_STATUS`. -/
inductive QueueStatus where
  | queued
  | running
  | cancelRequested
  | completed
  | failed
  | cancelled
deriving DecidableEq

/-- A job in one of these has ended. -/
def QueueStatus.isTerminal : QueueStatus → Bool
  | .completed | .failed | .cancelled => true
  | _ => false

/-- The programs that write versions of a job. -/
inductive QueueWriter where
  | api
  | loop
  | worker
deriving DecidableEq

/-- One version of a job. `writtenBy` is no column of the table: it records
which program appended the version, and no program reads it. -/
structure QueueRow where
  /-- The job. -/
  queueId : ℕ
  /-- The number of the version among those of the job. -/
  queueVid : ℕ
  /-- The strategy that the job backtests. -/
  strategyId : ℕ
  /-- Its version. -/
  strategyVid : ℕ
  /-- When the version was written. -/
  transactFromTs : ℤ
  /-- What it says of the job. -/
  queueStatus : QueueStatus
  /-- How urgent the job is; a smaller number runs sooner. -/
  priority : ℤ
  /-- Why it failed, if it did. -/
  errorText : Option String
  /-- The user who submitted it. -/
  userId : String
  /-- The program that appended the version. -/
  writtenBy : QueueWriter
deriving DecidableEq

/-- A version of an ended job. -/
def QueueRow.Terminal (r : QueueRow) : Prop := r.queueStatus.isTerminal = true

instance (r : QueueRow) : Decidable r.Terminal := inferInstanceAs (Decidable (_ = true))

/-- The number of the next version of a job. -/
abbrev nextQueueVid : List QueueRow → ℕ → ℕ :=
  Versioned.nextVid QueueRow.queueId QueueRow.queueVid

/-- `SP_INS_QUEUE`: append a version, whatever the version before it. -/
def spInsQueue (queue : List QueueRow) (now : ℤ) (writer : QueueWriter) (row : QueueRow)
    (status : QueueStatus) (userId : String) (errorText : Option String) : List QueueRow :=
  { row with
    queueVid := nextQueueVid queue row.queueId
    transactFromTs := now
    queueStatus := status
    errorText := errorText
    userId := userId
    writtenBy := writer } :: queue

/-- The versions of one job, oldest first. -/
def history (queue : List QueueRow) (queueId : ℕ) : List QueueRow :=
  (queue.filter (fun r => r.queueId = queueId)).reverse

/-- The rows still open: the newest version of each job, newest first. -/
def openRows (queue : List QueueRow) : List QueueRow :=
  queue.filter (fun r => queue.all (fun r' => r'.queueId = r.queueId → r'.queueVid ≤ r.queueVid))

/-- `get_active`: the last of the first fifty versions of a job, of one user
where a user is named. -/
def getActive (queue : List QueueRow) (queueId : ℕ) (userId : Option String) : Option QueueRow :=
  (((history queue queueId).filter
    (fun r => userId.all (fun u => r.userId = u))).take 50).getLast?

/-- `list_by_status`: open rows of a status, newest first, at most so many. -/
def listByStatus (queue : List QueueRow) (status : QueueStatus) : List QueueRow :=
  ((openRows queue).filter (fun r => r.queueStatus = status)).take 1000

/-- Lower priority number first, then earlier. -/
def runsBefore (a b : QueueRow) : Prop :=
  a.priority < b.priority ∨ (a.priority = b.priority ∧ a.transactFromTs ≤ b.transactFromTs)

instance : DecidableRel runsBefore := fun a b =>
  inferInstanceAs (Decidable (a.priority < b.priority ∨
    (a.priority = b.priority ∧ a.transactFromTs ≤ b.transactFromTs)))

/-- `in_run_order`: jobs that should run sooner come first. -/
def inRunOrder (rows : List QueueRow) : List QueueRow := rows.insertionSort runsBefore

/-- `fetch_job`: the open row of a job, in whatever status it is. -/
def fetchJob (queue : List QueueRow) (queueId : ℕ) : Option QueueRow :=
  (openRows queue).find? (fun r => r.queueId = queueId)

/-! ## Processes -/

/-- A child process: the job it was started for, whether it has begun, and its
exit code once it has ended. -/
structure Proc where
  /-- The job it was started for. -/
  queueId : ℕ
  /-- Whether it has begun. -/
  started : Bool
  /-- Its exit code, once it has ended. -/
  exit : Option ℤ
deriving DecidableEq

/-- What the processes share: the clock, the table, and the operating system's
table of child processes. -/
structure QueueState where
  /-- The time. -/
  clock : ℤ
  /-- The versions of all jobs, newest first. -/
  queue : List QueueRow
  /-- The child processes, by number, those that have ended included. -/
  procs : List Proc

/-- An entry of the loop's table of children. -/
structure Active where
  /-- The job. -/
  queueId : ℕ
  /-- The number of its child. -/
  pid : ℕ
  /-- When the child was started. -/
  start : ℤ
  /-- The row of the job that the loop keeps with it. -/
  row : QueueRow

/-- Where the loop stands: what it has read and not yet acted on. -/
inductive LoopPc where
  | recoverStale
  | recovering (rows : List QueueRow)
  | reap
  | reaping (finished : List Active)
  | reapWrite (latest : QueueRow) (code : ℤ) (finished : List Active)
  | cancels
  | cancelling (rows : List QueueRow)
  | cancelWrite (row : QueueRow) (rows : List QueueRow)
  | timeouts
  | timing (now : ℤ) (keys : List ℕ)
  | timeoutWrite (entry : Active) (now : ℤ) (keys : List ℕ)
  | claim
  | claimWrite (row : QueueRow)
  | spawn (row : QueueRow)
  | waiting
  | draining
  | stopped

/-- A process that touches the queue. -/
inductive Agent where
  | cancel (queueId : ℕ) (userId : String)
  | cancelWrite (row : QueueRow) (userId : String) (target : QueueStatus)
  | cancelDone
  | loop (active : List Active) (pc : LoopPc)
  | child (pid queueId : ℕ)
  | childRun (pid : ℕ) (job : QueueRow)
  | childDone (pid : ℕ)

/-- What can be started: a cancel request, the loop, or the process of a child
that the loop has asked for. -/
inductive Start where
  | cancel (queueId : ℕ) (userId : String)
  | loop
  | child (pid : ℕ)

/-- What decides a step besides the tables: nothing; a child that outlives its
kill; a loop asked to stop; the end of an optimisation; the end of a process. -/
inductive Outcome where
  | go
  | stuck
  | stop
  | finish (errorText : Option String)
  | exit (code : ℤ)

/-- What the world does: time passes, and jobs are enqueued. -/
inductive World where
  | tick (d : ℕ)
  | enqueue (row : QueueRow)

/-- The limits of a loop. -/
structure LoopConfig where
  /-- How many children may run at a time. -/
  maxConcurrent : ℕ
  /-- How long one may run. -/
  jobTimeout : ℤ

/-- A child process has not ended. -/
def QueueState.alive (s : QueueState) (pid : ℕ) : Bool :=
  match s.procs[pid]? with
  | some p => p.exit.isNone
  | none => false

/-- The exit code of a child process. -/
def QueueState.exitCode (s : QueueState) (pid : ℕ) : Option ℤ := s.procs[pid]?.bind Proc.exit

/-- A child process ends, unless it has ended before. -/
def QueueState.endProc (s : QueueState) (pid : ℕ) (code : ℤ) : QueueState :=
  { s with procs := s.procs.modify pid (fun p => { p with exit := some (p.exit.getD code) }) }

/-- A child process begins. -/
def QueueState.beginProc (s : QueueState) (pid : ℕ) : QueueState :=
  { s with procs := s.procs.modify pid (fun p => { p with started := true }) }

/-- Append a version with a status for a job, from a row of it. -/
def QueueState.write (s : QueueState) (writer : QueueWriter) (row : QueueRow) (status : QueueStatus)
    (userId : String) (errorText : Option String) : QueueState :=
  { s with queue := spInsQueue s.queue s.clock writer row status userId errorText }

/-- `mark_terminal`: the loop ends a job from a row it holds. -/
def markTerminal (s : QueueState) (row : QueueRow) (status : QueueStatus)
    (errorText : Option String) : QueueState :=
  s.write .loop row status row.userId errorText

/-- Stop a child: it has ended afterwards, or it has survived its kill. -/
def stopChild (s : QueueState) (pid : ℕ) (code : ℤ) : Outcome → Option QueueState
  | .go => some (s.endProc pid code)
  | .stuck => some s
  | _ => none

/-- `_CANCEL_TARGET`: what a cancel request writes over a status. -/
def cancelTarget : QueueStatus → Option QueueStatus
  | .queued => some .cancelled
  | .running => some .cancelRequested
  | _ => none

/-- One step of a cancel request. -/
def stepCancel (s : QueueState) (queueId : ℕ) (userId : String) : Agent :=
  match getActive s.queue queueId (some userId) with
  | none => .cancelDone
  | some row =>
      match cancelTarget row.queueStatus with
      | none => .cancelDone
      | some target => .cancelWrite row userId target

/-- The table of children with one set, as an insertion into a dictionary. -/
def setActive (active : List Active) (entry : Active) : List Active :=
  if active.any (fun e => e.queueId = entry.queueId) then
    active.map (fun e => if e.queueId = entry.queueId then entry else e)
  else active ++ [entry]

/-- The table of children without one. -/
def popActive (active : List Active) (queueId : ℕ) : List Active :=
  active.filter (fun e => e.queueId ≠ queueId)

/-- `recover_stale`: at boot, end every job that is running. -/
def recoverStep (s : QueueState) (active : List Active) :
    LoopPc → Outcome → Option (QueueState × List Active × LoopPc)
  | .recoverStale, .go => some (s, active, .recovering (listByStatus s.queue .running))
  | .recovering [], .go => some (s, active, .reap)
  | .recovering [], .stop => some (s, active, .draining)
  | .recovering (row :: rows), .go =>
      some (markTerminal s row .failed (some "worker_loop restarted while job was running"),
        active, .recovering rows)
  | _, _ => none

/-- `_reap_children`: drop the children that have ended, and end the job of one
that crashed while its newest version still says it is running. -/
def reapStep (s : QueueState) (active : List Active) :
    LoopPc → Outcome → Option (QueueState × List Active × LoopPc)
  | .reap, .go =>
      some (s, active, .reaping (active.filter (fun e => (s.exitCode e.pid).isSome)))
  | .reaping [], .go => some (s, active, .cancels)
  | .reaping (e :: finished), .go =>
      let code := (s.exitCode e.pid).getD 0
      if code = 0 then some (s, popActive active e.queueId, .reaping finished)
      else
        match getActive s.queue e.queueId none with
        | none => some (s, popActive active e.queueId, .reaping finished)
        | some latest =>
            if latest.queueStatus = .running then
              some (s, popActive active e.queueId, .reapWrite latest code finished)
            else some (s, popActive active e.queueId, .reaping finished)
  | .reapWrite latest code finished, .go =>
      some (markTerminal s latest .failed (some ("worker crashed exit=" ++ toString code)),
        active, .reaping finished)
  | _, _ => none

/-- `_enforce_cancels`: stop the child of a job whose cancel was requested, then
end the job. -/
def cancelStep (s : QueueState) (active : List Active) :
    LoopPc → Outcome → Option (QueueState × List Active × LoopPc)
  | .cancels, .go => some (s, active, .cancelling (listByStatus s.queue .cancelRequested))
  | .cancelling [], .go => some (s, active, .timeouts)
  | .cancelling (row :: rows), o =>
      match active.find? (fun e => e.queueId = row.queueId), o with
      | none, .go => some (s, active, .cancelWrite row rows)
      | none, _ => none
      | some e, o => (stopChild s e.pid (-15) o).map
          (fun s => (s, popActive active row.queueId, .cancelWrite row rows))
  | .cancelWrite row rows, .go =>
      some (markTerminal s row .cancelled none, active, .cancelling rows)
  | _, _ => none

/-- `_enforce_timeouts`: kill a child that has run for too long, then end its
job. -/
def timeoutStep (cfg : LoopConfig) (s : QueueState) (active : List Active) :
    LoopPc → Outcome → Option (QueueState × List Active × LoopPc)
  | .timeouts, .go => some (s, active, .timing s.clock (active.map Active.queueId))
  | .timing _ [], .go => some (s, active, .claim)
  | .timing now (queueId :: keys), o =>
      match active.find? (fun e => e.queueId = queueId) with
      | none => none
      | some e =>
          if (s.exitCode e.pid).isSome ∨ now - e.start < cfg.jobTimeout then
            if o matches .go then some (s, active, .timing now keys) else none
          else (stopChild s e.pid (-9) o).map (fun s => (s, active, .timeoutWrite e now keys))
  | .timeoutWrite e now keys, .go =>
      some (markTerminal s e.row .failed
          (some ("job exceeded " ++ toString cfg.jobTimeout ++ "s timeout")),
        popActive active e.queueId, .timing now keys)
  | _, _ => none

/-- The end of a tick and what follows it: `_try_claim_and_spawn` while there is
room, the wait for a wake, and the shutdown of a loop that was asked to stop,
which waits for its children and kills those that remain. -/
def claimStep (cfg : LoopConfig) (s : QueueState) (active : List Active) :
    LoopPc → Outcome → Option (QueueState × List Active × LoopPc)
  | .claim, .go =>
      if active.length < cfg.maxConcurrent then
        match inRunOrder (listByStatus s.queue .queued) with
        | [] => some (s, active, .waiting)
        | row :: _ => some (s, active, .claimWrite row)
      else some (s, active, .waiting)
  | .claimWrite row, .go =>
      some (s.write .loop row .running row.userId none, active, .spawn row)
  | .spawn row, .go =>
      some ({ s with procs := s.procs ++ [⟨row.queueId, false, none⟩] },
        setActive active ⟨row.queueId, s.procs.length, s.clock, row⟩, .claim)
  | .waiting, .go => some (s, active, .reap)
  | .claim, .stop => some (s, active, .draining)
  | .waiting, .stop => some (s, active, .draining)
  | .draining, .go =>
      some (active.foldl (fun s e => s.endProc e.pid (-9)) s, active, .stopped)
  | _, _ => none

/-- One step of the worker loop: `tick`, method by method, after boot. -/
def stepLoop (cfg : LoopConfig) (s : QueueState) (active : List Active) (pc : LoopPc)
    (o : Outcome) : Option (QueueState × List Active × LoopPc) :=
  match pc with
  | .recoverStale | .recovering _ => recoverStep s active pc o
  | .reap | .reaping _ | .reapWrite _ _ _ => reapStep s active pc o
  | .cancels | .cancelling _ | .cancelWrite _ _ => cancelStep s active pc o
  | .timeouts | .timing _ _ | .timeoutWrite _ _ _ => timeoutStep cfg s active pc o
  | .claim | .claimWrite _ | .spawn _ | .waiting | .draining | .stopped =>
      claimStep cfg s active pc o

/-- One step of a process. -/
def stepAgent (cfg : LoopConfig) (s : QueueState) : Agent → Outcome → Option (QueueState × Agent)
  | .cancel queueId userId, .go => some (s, stepCancel s queueId userId)
  | .cancelWrite row userId target, .go =>
      some (s.write .api row target userId none, .cancelDone)
  | .loop active pc, o =>
      (stepLoop cfg s active pc o).map (fun r => (r.1, .loop r.2.1 r.2.2))
  -- a child reads its job, runs it, writes its end, and exits; it can die at any moment
  | .child pid queueId, .go =>
      if s.alive pid then
        match fetchJob s.queue queueId with
        | none => some ((s.beginProc pid).endProc pid 2, .childDone pid)
        | some job => some (s.beginProc pid, .childRun pid job)
      else none
  | .childRun pid job, .finish errorText =>
      if s.alive pid then
        some (s.write .worker job (if errorText.isSome then .failed else .completed) job.userId
          errorText, .childDone pid)
      else none
  | .childRun pid _, .exit code =>
      if s.alive pid ∧ code ≠ 0 then some (s.endProc pid code, .childDone pid) else none
  | .childDone pid, .exit code =>
      if s.alive pid then some (s.endProc pid code, .childDone pid) else none
  | _, _ => none

/-- A loop is under way. -/
def Agent.isLoop : Agent → Bool
  | .loop _ _ => true
  | _ => false

/-- The process of a child is under way. -/
def Agent.isChild (pid : ℕ) : Agent → Bool
  | .child p _ => p = pid
  | .childRun p _ => p = pid
  | .childDone p => p = pid
  | _ => false

/-- What may be started: any cancel request, one loop at a time, and a child
process that was asked for and has not begun. -/
def startAgent (s : QueueState) (agents : List Agent) : Start → Option Agent
  | .cancel queueId userId => some (.cancel queueId userId)
  | .loop => if agents.any Agent.isLoop then none else some (.loop [] .recoverStale)
  | .child pid =>
      match s.procs[pid]? with
      | none => none
      | some p =>
          if p.started ∨ p.exit.isSome ∨ agents.any (Agent.isChild pid) then none
          else some (.child pid p.queueId)

/-- What the world does to the shared state. A job is enqueued under a fresh
id, as version one. -/
def stepWorld (s : QueueState) : World → Option QueueState
  | .tick d => some { s with clock := s.clock + d }
  | .enqueue row =>
      if s.queue.any (fun r => r.queueId = row.queueId) then none
      else some (s.write .api row .queued row.userId none)

/-- The processes of the queue, from an empty table. -/
def queuePool (cfg : LoopConfig) : Pool QueueState Agent World Start Outcome where
  Init s := s.queue = [] ∧ s.procs = []
  env := stepWorld
  fresh := startAgent
  work := stepAgent cfg
