import Mathlib.Logic.Relation
import QuantStrategies.Queue.LoopRows

/-!
# Ticks of the worker loop

A tick takes four steps: it reaps the children that have ended, honours the cancel
requests, enforces the timeout, and claims jobs while there is room. Each of them is a
run of the loop's own small steps in which nobody else moves (`runs_reapChildren` and
the ones after it). Between any two of them children may write, exit or crash, jobs may
be submitted, and cancels may be requested.

The loop moves by whole steps of a tick. A cancel request reads the status of its job in
one step, and writes in another (`InTime` is when it may).

A step of a tick is a fold over a list, in which the loop's small steps follow one another
without a gap. The lemmas named `runs_` say so, entry by entry, and are what makes the big
steps of this module the loop of the others.
-/

namespace Queue

/-! ## The steps of a tick -/

/-- `_reap_children`, of one of the children that have ended. -/
def reapChild (l : QueueState × List Active) (e : Active) : QueueState × List Active :=
  let active := popActive l.2 e.queueId
  let code := (l.1.exitCode e.pid).getD 0
  if code = 0 then (l.1, active)
  else
    match getActive l.1.queue e.queueId none with
    | none => (l.1, active)
    | some latest =>
      if latest.queueStatus = .running then
        (markTerminal l.1 latest .failed (some ("worker crashed exit=" ++ toString code)), active)
      else (l.1, active)

/-- `_reap_children`. -/
def reapChildren (s : QueueState) (active : List Active) : QueueState × List Active :=
  (active.filter (fun e => (s.exitCode e.pid).isSome)).foldl reapChild (s, active)

/-- Kill a child, unless it outlives that. -/
def killChild (s : QueueState) (stuck : List ℕ) (pid : ℕ) (code : ℤ) : QueueState :=
  if pid ∈ stuck then s else s.endProc pid code

/-- `_enforce_cancels`, of one row. -/
def enforceCancel (stuck : List ℕ) (l : QueueState × List Active) (row : QueueRow) :
    QueueState × List Active :=
  let s :=
    match l.2.find? (fun e => e.queueId = row.queueId) with
    | none => l.1
    | some e => killChild l.1 stuck e.pid (-15)
  (markTerminal s row .cancelled none, popActive l.2 row.queueId)

/-- `_enforce_cancels`. -/
def enforceCancels (stuck : List ℕ) (s : QueueState) (active : List Active) :
    QueueState × List Active :=
  (listByStatus s.queue .cancelRequested).foldl (enforceCancel stuck) (s, active)

/-- `_enforce_timeouts`, of one of the children. -/
def enforceTimeout (cfg : LoopConfig) (stuck : List ℕ) (now : ℤ) (l : QueueState × List Active)
    (queueId : ℕ) : QueueState × List Active :=
  match l.2.find? (fun e => e.queueId = queueId) with
  | none => l
  | some e =>
    if (l.1.exitCode e.pid).isSome ∨ now - e.start < cfg.jobTimeout then l
    else
      (markTerminal (killChild l.1 stuck e.pid (-9)) e.row .failed
        (some ("job exceeded " ++ toString cfg.jobTimeout ++ "s timeout")),
        popActive l.2 e.queueId)

/-- `_enforce_timeouts`. -/
def enforceTimeouts (cfg : LoopConfig) (stuck : List ℕ) (s : QueueState) (active : List Active) :
    QueueState × List Active :=
  (active.map Active.queueId).foldl (enforceTimeout cfg stuck s.clock) (s, active)

/-- `claim_next`: the first job in run order is running. -/
def claimNext (s : QueueState) : Option (QueueRow × QueueState) :=
  match inRunOrder (listByStatus s.queue .queued) with
  | [] => none
  | row :: _ => some (row, s.write .loop row .running row.userId none)

/-- `_try_claim_and_spawn`. Where the call that starts the child raises, the child has
ended by then, as one that could not execute its program. -/
def tryClaimAndSpawn (s : QueueState) (active : List Active) (raises : Bool) :
    Option (QueueRow × QueueState × List Active) :=
  match claimNext s with
  | none => none
  | some (row, s') =>
    if raises then
      some (row, { s' with procs := s'.procs ++ [⟨row.queueId, false, some 255⟩] }, active)
    else
      some (row, { s' with procs := s'.procs ++ [⟨row.queueId, false, none⟩] },
        setActive active ⟨row.queueId, s'.procs.length, s'.clock, row⟩)

/-! ## The small steps of a tick -/

/-- The loop takes steps while nobody else moves. -/
abbrev LoopRuns (cfg : LoopConfig) : QueueState × List Active × LoopPc →
    QueueState × List Active × LoopPc → Prop :=
  Relation.ReflTransGen (fun l l' => ∃ o, stepLoop cfg l.1 l.2.1 l.2.2 o = some l')

section SmallSteps

variable {cfg : LoopConfig} {s s' : QueueState} {active active' : List Active} {stuck : List ℕ}
variable {pc pc' : LoopPc}

theorem runs_single (o : Outcome) (h : stepLoop cfg s active pc o = some (s', active', pc')) :
    LoopRuns cfg (s, active, pc) (s', active', pc') :=
  .single ⟨o, h⟩

/-- A list that is worked through one by one. -/
theorem runs_foldl {α : Type} {pc : List α → LoopPc}
    {f : QueueState × List Active → α → QueueState × List Active} {xs : List α}
    (hstep : ∀ l x xs, LoopRuns cfg (l.1, l.2, pc (x :: xs)) ((f l x).1, (f l x).2, pc xs))
    (l : QueueState × List Active) :
    LoopRuns cfg (l.1, l.2, pc xs) ((xs.foldl f l).1, (xs.foldl f l).2, pc []) := by
  induction xs generalizing l with
  | nil => exact .refl
  | cons x xs ih => exact (hstep l x xs).trans (ih (f l x))

/-- Reaping one child is a few small steps, which leave the rest of the list to be reaped. -/
theorem runs_reapChild (l : QueueState × List Active) (e : Active) (es : List Active) :
    LoopRuns cfg (l.1, l.2, .reaping (e :: es))
      ((reapChild l e).1, (reapChild l e).2, .reaping es) := by
  unfold reapChild
  dsimp only
  split
  · next hcode => exact runs_single .go (if_pos hcode)
  · next hcode =>
    have hread : stepLoop cfg l.1 l.2 (.reaping (e :: es)) .go = _ := if_neg hcode
    split
    · next hnone =>
      rw [hnone] at hread
      exact runs_single .go hread
    · next latest hlatest =>
      rw [hlatest] at hread
      split
      · next hrunning =>
        exact (runs_single .go (hread.trans (if_pos hrunning))).trans (runs_single .go rfl)
      · next hended => exact runs_single .go (hread.trans (if_neg hended))

/-- `_reap_children` is a run of the loop. -/
theorem runs_reapChildren :
    LoopRuns cfg (s, active, .reap)
      ((reapChildren s active).1, (reapChildren s active).2, .cancels) :=
  ((runs_single .go rfl).trans (runs_foldl runs_reapChild (s, active))).trans (runs_single .go rfl)

/-- How a kill ends. -/
theorem stopChild_killChild (s : QueueState) (stuck : List ℕ) (pid : ℕ) (code : ℤ) :
    ∃ o, stopChild s pid code o = some (killChild s stuck pid code) := by
  unfold killChild
  split
  · exact ⟨.stuck, rfl⟩
  · exact ⟨.go, rfl⟩

/-- A job that is not in the table cannot be dropped from it. -/
theorem popActive_of_find?_eq_none {queueId : ℕ}
    (h : active.find? (fun e => e.queueId = queueId) = none) : popActive active queueId = active := by
  refine List.filter_eq_self.mpr fun e he => decide_eq_true fun hk => ?_
  exact absurd (decide_eq_true hk) (List.find?_eq_none.mp h e he)

/-- Honouring one cancel is a few small steps, which leave the rest of the list. -/
theorem runs_enforceCancel (l : QueueState × List Active) (row : QueueRow) (rows : List QueueRow) :
    LoopRuns cfg (l.1, l.2, .cancelling (row :: rows))
      ((enforceCancel stuck l row).1, (enforceCancel stuck l row).2, .cancelling rows) := by
  unfold enforceCancel
  dsimp only
  cases hfind : l.2.find? (fun e => e.queueId = row.queueId) with
  | none =>
    have hread : stepLoop cfg l.1 l.2 (.cancelling (row :: rows)) .go =
        some (l.1, l.2, .cancelWrite row rows) := by
      show cancelStep l.1 l.2 (.cancelling (row :: rows)) .go = _
      simp only [cancelStep, hfind]
    rw [popActive_of_find?_eq_none hfind]
    exact (runs_single .go hread).trans (runs_single .go rfl)
  | some e =>
    obtain ⟨o, ho⟩ := stopChild_killChild l.1 stuck e.pid (-15)
    have hstop : stepLoop cfg l.1 l.2 (.cancelling (row :: rows)) o =
        some (killChild l.1 stuck e.pid (-15), popActive l.2 row.queueId,
          .cancelWrite row rows) := by
      show cancelStep l.1 l.2 (.cancelling (row :: rows)) o = _
      simp only [cancelStep, hfind, ho, Option.map_some]
    exact (runs_single o hstop).trans (runs_single .go rfl)

/-- `_enforce_cancels` is a run of the loop. -/
theorem runs_enforceCancels :
    LoopRuns cfg (s, active, .cancels)
      ((enforceCancels stuck s active).1, (enforceCancels stuck s active).2, .timeouts) :=
  ((runs_single .go rfl).trans (runs_foldl runs_enforceCancel (s, active))).trans
    (runs_single .go rfl)

/-- So is one timeout, of a job that is in the table. -/
theorem runs_enforceTimeout (l : QueueState × List Active) (now : ℤ) {queueId : ℕ}
    (queueIds : List ℕ) (h : queueId ∈ l.2.map Active.queueId) :
    LoopRuns cfg (l.1, l.2, .timing now (queueId :: queueIds))
      ((enforceTimeout cfg stuck now l queueId).1, (enforceTimeout cfg stuck now l queueId).2,
        .timing now queueIds) := by
  unfold enforceTimeout
  cases hfind : l.2.find? (fun e => e.queueId = queueId) with
  | none =>
    obtain ⟨e, he, hk⟩ := List.mem_map.mp h
    exact absurd (decide_eq_true hk) (List.find?_eq_none.mp hfind e he)
  | some e =>
    dsimp only
    split
    · next hin =>
      refine runs_single .go ?_
      show timeoutStep cfg l.1 l.2 (.timing now (queueId :: queueIds)) .go = _
      simp only [timeoutStep, hfind, if_pos hin, if_true]
    · next hover =>
      obtain ⟨o, ho⟩ := stopChild_killChild l.1 stuck e.pid (-9)
      have hstop : stepLoop cfg l.1 l.2 (.timing now (queueId :: queueIds)) o =
          some (killChild l.1 stuck e.pid (-9), l.2, .timeoutWrite e now queueIds) := by
        show timeoutStep cfg l.1 l.2 (.timing now (queueId :: queueIds)) o = _
        simp only [timeoutStep, hfind, if_neg hover, ho, Option.map_some]
      exact (runs_single o hstop).trans (runs_single .go rfl)

/-- The children that remain, past one of them. -/
theorem mem_enforceTimeout {now : ℤ} {l : QueueState × List Active} {queueId k : ℕ}
    (h : k ∈ l.2.map Active.queueId) (hk : k ≠ queueId) :
    k ∈ (enforceTimeout cfg stuck now l queueId).2.map Active.queueId := by
  unfold enforceTimeout
  cases hfind : l.2.find? (fun e => e.queueId = queueId) with
  | none => exact h
  | some e =>
    have hdec := List.find?_some hfind
    have he : e.queueId = queueId := of_decide_eq_true hdec
    dsimp only
    split
    · exact h
    · obtain ⟨e', he', rfl⟩ := List.mem_map.mp h
      exact List.mem_map_of_mem (mem_popActive.mpr ⟨he', he ▸ hk⟩)

/-- `_enforce_timeouts` is a run of the loop, where no two children are of one job. -/
theorem runs_enforceTimeouts (h : (active.map Active.queueId).Nodup) :
    LoopRuns cfg (s, active, .timeouts)
      ((enforceTimeouts cfg stuck s active).1, (enforceTimeouts cfg stuck s active).2, .claim) := by
  have hfold (now : ℤ) (queueIds : List ℕ) (l : QueueState × List Active)
      (hnodup : queueIds.Nodup) (hmem : ∀ k ∈ queueIds, k ∈ l.2.map Active.queueId) :
      LoopRuns cfg (l.1, l.2, .timing now queueIds)
        ((queueIds.foldl (enforceTimeout cfg stuck now) l).1,
          (queueIds.foldl (enforceTimeout cfg stuck now) l).2, .timing now []) := by
    induction queueIds generalizing l with
    | nil => exact .refl
    | cons k queueIds ih =>
      obtain ⟨hk, hnodup⟩ := List.nodup_cons.mp hnodup
      refine (runs_enforceTimeout l now queueIds (hmem k List.mem_cons_self)).trans
        (ih _ hnodup fun k' hk' => ?_)
      exact mem_enforceTimeout (hmem k' (List.mem_cons_of_mem k hk')) fun heq => hk (heq ▸ hk')
  exact ((runs_single .go rfl).trans (hfold s.clock _ (s, active) h fun _ hk => hk)).trans
    (runs_single .go rfl)

/-- `_try_claim_and_spawn` is a run of the loop, where there is room and the child starts. -/
theorem runs_tryClaimAndSpawn {row : QueueRow} (hroom : active.length < cfg.maxConcurrent)
    (h : tryClaimAndSpawn s active false = some (row, s', active')) :
    LoopRuns cfg (s, active, .claim) (s', active', .claim) := by
  unfold tryClaimAndSpawn claimNext at h
  cases hhead : inRunOrder (listByStatus s.queue .queued) with
  | nil =>
    rw [hhead] at h
    cases h
  | cons row' rows =>
    rw [hhead] at h
    cases h
    have hread : stepLoop cfg s active .claim .go = some (s, active, .claimWrite row) := by
      show claimStep cfg s active .claim .go = _
      simp only [claimStep, if_pos hroom, hhead]
    exact ((runs_single .go hread).trans (runs_single .go rfl)).trans (runs_single .go rfl)

end SmallSteps

/-! ## Sequences of ticks -/

/-- The step of a tick that comes next. -/
inductive Phase where
  | reap
  | cancels
  | timeouts
  | claim
deriving DecidableEq

/-- The loop between two steps of a tick, its children, each of them at its number, the
cancel requests, and the jobs whose child crashed while they were running. -/
structure TickState where
  /-- The queue and the child processes. -/
  shared : QueueState
  /-- The loop's table of children. -/
  active : List Active
  /-- Which step of the tick is next. -/
  phase : Phase
  /-- Where each child stands. -/
  children : List Agent
  /-- Where each cancel request stands. -/
  requests : List Agent
  /-- The jobs whose child crashed while they were running. It is noted for the statements, and
  no step reads it. -/
  crashed : List ℕ

/-- A step of a tick, with the children that outlive a kill, or what happens between two of
them. `rest` ends the tick of a loop that was asked to stop. -/
inductive TickStep where
  | reap
  | cancels (stuck : List ℕ)
  | timeouts (stuck : List ℕ)
  | claim (raises : Bool)
  | rest
  | begins (pid : ℕ)
  | finishes (pid : ℕ) (errorText : Option String)
  | exits (pid : ℕ) (code : ℤ)
  | request (queueId : ℕ) (userId : String)
  | cancel (i : ℕ)
  | world (e : World)

/-- The status of a job's open row. -/
def openStatus (queue : List QueueRow) (queueId : ℕ) : Option QueueStatus :=
  (fetchJob queue queueId).map QueueRow.queueStatus

/-- A job has a child in the loop's table. -/
def tracks (active : List Active) (queueId : ℕ) : Bool :=
  active.any (fun e => e.queueId = queueId)

/-- A child has written the end of its job. -/
def isDone : Agent → Bool
  | .childDone _ => true
  | _ => false

/-- A child takes a step of its own. -/
def stepChild (cfg : LoopConfig) (s : TickState) (pid : ℕ) (o : Outcome) : Option TickState :=
  match s.children[pid]? with
  | none => none
  | some agent => (stepAgent cfg s.shared agent o).map
      (fun r => { s with shared := r.1, children := s.children.set pid r.2 })

/-- A child exits. It does so with zero when it has written the end of its job, and has
not been killed: the loop kills the children that it drops. -/
def exitChild (s : TickState) (pid : ℕ) (code : ℤ) : Option TickState :=
  match s.children[pid]?, s.shared.procs[pid]? with
  | some agent, some p =>
    if p.exit = none ∧ (code = 0 → isDone agent ∧ tracks s.active p.queueId) then
      some { s with
        shared := s.shared.endProc pid code
        crashed :=
          if code ≠ 0 ∧ openStatus s.shared.queue p.queueId = some .running then
            p.queueId :: s.crashed
          else s.crashed }
    else none
  | _, _ => none

/-- A cancel request reads, or writes. -/
def stepRequest (cfg : LoopConfig) (s : TickState) (i : ℕ) : Option TickState :=
  match s.requests[i]? with
  | none => none
  | some agent => (stepAgent cfg s.shared agent .go).map
      (fun r => { s with shared := r.1, requests := s.requests.set i r.2 })

/-- The loop claims a job while there is room, and its tick ends when there is no room, or
none to claim, or when a child does not start. -/
def stepClaim (cfg : LoopConfig) (s : TickState) (raises : Bool) : TickState :=
  if s.active.length < cfg.maxConcurrent then
    match tryClaimAndSpawn s.shared s.active raises with
    | none => { s with phase := .reap }
    | some (row, shared, active) =>
      { s with
        shared := shared
        active := active
        phase := if raises then .reap else .claim
        children := s.children ++ [.child s.shared.procs.length row.queueId] }
  else { s with phase := .reap }

/-- One step. -/
def stepTick (cfg : LoopConfig) (s : TickState) : TickStep → Option TickState
  | .reap =>
    if s.phase = .reap then
      let l := reapChildren s.shared s.active
      some { s with shared := l.1, active := l.2, phase := .cancels }
    else none
  | .cancels stuck =>
    if s.phase = .cancels then
      let l := enforceCancels stuck s.shared s.active
      some { s with shared := l.1, active := l.2, phase := .timeouts }
    else none
  | .timeouts stuck =>
    if s.phase = .timeouts then
      let l := enforceTimeouts cfg stuck s.shared s.active
      some { s with shared := l.1, active := l.2, phase := .claim }
    else none
  | .claim raises => if s.phase = .claim then some (stepClaim cfg s raises) else none
  | .rest => if s.phase = .claim then some { s with phase := .reap } else none
  | .begins pid => stepChild cfg s pid .go
  | .finishes pid errorText => stepChild cfg s pid (.finish errorText)
  | .exits pid code => exitChild s pid code
  | .request queueId userId => some { s with requests := s.requests ++ [.cancel queueId userId] }
  | .cancel i => stepRequest cfg s i
  | .world e => (stepWorld s.shared e).map (fun shared => { s with shared := shared })

/-- A cancel request writes in time: its job has the status that the request read, or the
one that it writes. -/
def InTime (queue : List QueueRow) : Agent → Prop
  | .cancelWrite row _ target => openStatus queue row.queueId = some row.queueStatus ∨
      openStatus queue row.queueId = some target
  | _ => True

instance (queue : List QueueRow) (a : Agent) : Decidable (InTime queue a) :=
  match a with
  | .cancelWrite row _ target =>
    inferInstanceAs (Decidable (openStatus queue row.queueId = some row.queueStatus ∨
      openStatus queue row.queueId = some target))
  | .cancel _ _ | .cancelDone | .loop _ _ | .child _ _ | .childRun _ _ | .childDone _ =>
    .isTrue trivial

/-- The steps of a cancel request are in time. -/
def CancelsInTime (s : TickState) : TickStep → Prop
  | .cancel i => ∀ a ∈ s.requests[i]?, InTime s.shared.queue a
  | _ => True

instance (s : TickState) (l : TickStep) : Decidable (CancelsInTime s l) :=
  match l with
  | .cancel i => inferInstanceAs (Decidable (∀ a ∈ s.requests[i]?, InTime s.shared.queue a))
  | .reap | .cancels _ | .timeouts _ | .claim _ | .rest | .begins _ | .finishes _ _
  | .exits _ _ | .request _ _ | .world _ => .isTrue trivial

/-- A job is queued when it is submitted, and never again. -/
def QueuedFirst (queue : List QueueRow) : Prop :=
  queue.Pairwise (fun later earlier => later.queueId = earlier.queueId →
    later.queueStatus ≠ .queued)

/-- The sequences of ticks of a loop that has no children yet, on any table. -/
def ticks (cfg : LoopConfig) : Machine TickState TickStep where
  Init s := s.shared.procs = [] ∧ s.active = [] ∧ s.phase = .reap ∧ s.children = [] ∧
    s.requests = [] ∧ s.crashed = [] ∧ Numbered s.shared.queue ∧ QueuedFirst s.shared.queue
  step := stepTick cfg

/-! ## What is promised -/

/-- How often the loop has ended a job. -/
def loopEnds (queue : List QueueRow) (queueId : ℕ) : ℕ :=
  queue.countP (fun r => r.queueId = queueId && r.writtenBy = .loop && r.queueStatus.isTerminal)

/-- The promise of a sequence of ticks: no more children than there are slots, and no two
of one job that live; no job ended twice, nor one whose child exited with zero; and none
forgotten whose child crashed while it was running. -/
structure SlotsAndEnds (cfg : LoopConfig) (s : TickState) : Prop where
  /-- No more children are tracked than there are slots. -/
  slots : s.active.length ≤ cfg.maxConcurrent
  /-- A job has at most one child that lives. -/
  oneChild : ∀ queueId, s.shared.procs.countP
    (fun p => p.queueId = queueId && p.exit.isNone) ≤ 1
  /-- The loop ends a job at most once. -/
  once : ∀ p ∈ s.shared.procs, loopEnds s.shared.queue p.queueId ≤ 1
  /-- It ends none whose child has exited with zero. -/
  exitedZero : ∀ p ∈ s.shared.procs, p.exit = some 0 → loopEnds s.shared.queue p.queueId = 0
  /-- It has ended a job whose child crashed, or still tracks it, or the job is to be cancelled.
  -/
  crashed : ∀ queueId ∈ s.crashed, loopEnds s.shared.queue queueId = 1 ∨
    tracks s.active queueId ∨ openStatus s.shared.queue queueId = some .cancelRequested

/-- The jobs that a step of a tick is to end: when it reaps, those whose child crashed
while they were running, but for those that a cancel has been requested of since; then
those whose request it finds; and those whose child has run for too long. -/
def EndsDue (cfg : LoopConfig) (s s' : TickState) : TickStep → Prop
  | .reap => ∀ queueId ∈ s.crashed, loopEnds s'.shared.queue queueId = 1 ∨
      openStatus s'.shared.queue queueId = some .cancelRequested
  | .cancels _ => ∀ r ∈ listByStatus s.shared.queue .cancelRequested,
      (∃ p ∈ s.shared.procs, p.queueId = r.queueId) → loopEnds s'.shared.queue r.queueId = 1
  | .timeouts _ => ∀ e ∈ s.active, s.shared.alive e.pid →
      cfg.jobTimeout ≤ s.shared.clock - e.start → loopEnds s'.shared.queue e.queueId = 1
  | _ => True

/-! ## What is read -/

/-- The versions of a job, newest first. -/
def versions (queue : List QueueRow) (queueId : ℕ) : List QueueRow :=
  queue.filter (fun r => r.queueId = queueId)

variable {queue : List QueueRow} {r x : QueueRow} {queueId : ℕ}

/-- The versions of a job are the rows of the table that are of it. -/
theorem mem_versions : r ∈ versions queue queueId ↔ r ∈ queue ∧ r.queueId = queueId := by
  rw [versions, List.mem_filter, decide_eq_true_eq]

/-- The versions below the newest one have lower numbers. -/
theorem queueVid_le_head {h : QueueRow} {vs : List QueueRow} (hn : Numbered queue)
    (hvs : versions queue queueId = h :: vs) : h ∈ openRows queue := by
  have hpair : (versions queue queueId).Pairwise
      (fun v w => v.queueId = w.queueId → w.queueVid < v.queueVid) :=
    List.Pairwise.sublist List.filter_sublist hn
  rw [hvs] at hpair
  obtain ⟨hh, hk⟩ := mem_versions.mp (hvs ▸ List.mem_cons_self : h ∈ versions queue queueId)
  refine List.mem_filter.mpr ⟨hh, List.all_eq_true.mpr fun r hr => decide_eq_true fun hrk => ?_⟩
  have hmem : r ∈ h :: vs := hvs ▸ mem_versions.mpr ⟨hr, hrk.trans hk⟩
  obtain rfl | hr' := List.mem_cons.mp hmem
  · exact le_rfl
  · exact ((List.pairwise_cons.mp hpair).1 r hr' hrk.symm).le

/-- An open row is the newest version of its job. -/
theorem head?_versions (hn : Numbered queue) (hr : r ∈ openRows queue) :
    (versions queue r.queueId).head? = some r := by
  have hmem := mem_versions.mpr ⟨(openRows_sublist queue).mem hr, rfl⟩
  cases hvs : versions queue r.queueId with
  | nil =>
    rw [hvs] at hmem
    cases hmem
  | cons h vs =>
    obtain ⟨hh, hk⟩ := mem_versions.mp (hvs ▸ List.mem_cons_self : h ∈ versions queue r.queueId)
    have hle := openRows_newest (queueVid_le_head hn hvs) (mem_versions.mp hmem).1 hk.symm
    have hge := openRows_newest hr hh hk
    exact congrArg some (hn.eq hh (mem_versions.mp hmem).1 hk (le_antisymm hge hle))

/-- The newest version of a job is its open row. -/
theorem fetchJob_eq (hn : Numbered queue) : fetchJob queue queueId =
    (versions queue queueId).head? := by
  unfold fetchJob
  cases hfind : (openRows queue).find? (fun r => r.queueId = queueId) with
  | some r =>
    have hdec := List.find?_some hfind
    have hk : r.queueId = queueId := of_decide_eq_true hdec
    exact hk ▸ (head?_versions hn (List.mem_of_find?_eq_some hfind)).symm
  | none =>
    cases hvs : versions queue queueId with
    | nil => rfl
    | cons h vs =>
      obtain ⟨-, hk⟩ := mem_versions.mp (hvs ▸ List.mem_cons_self : h ∈ versions queue queueId)
      exact absurd (decide_eq_true hk) (List.find?_eq_none.mp hfind h (queueVid_le_head hn hvs))

/-- A new row is one more version of its own job. -/
theorem versions_cons (x : QueueRow) (queue : List QueueRow) (queueId : ℕ) :
    versions (x :: queue) queueId =
      if x.queueId = queueId then x :: versions queue queueId else versions queue queueId := by
  rw [versions, List.filter_cons]
  exact if_congr decide_eq_true_iff rfl rfl

/-- How often the loop has ended a job, counted among its versions. -/
theorem loopEnds_eq (queue : List QueueRow) (queueId : ℕ) : loopEnds queue queueId =
    (versions queue queueId).countP (fun r => r.writtenBy = .loop && r.queueStatus.isTerminal) := by
  rw [loopEnds, versions, List.countP_filter]
  refine List.countP_congr fun r _ => ?_
  simp [Bool.and_comm, Bool.and_assoc]

end Queue
