import QuantStrategies.Queue.LoopRows

/-!
# An ended job stays ended

No version of a job should be written after one that ends it. The programs see
to this by reading: a cancel request looks at the status it replaces, the loop
lists rows by status, and re-reads before it reaps. What they decide on is then
written in a second statement, and `SP_INS_QUEUE` compares nothing.

The invariant of a run is that the table is absorbing for ended versions. A
program that writes keeps it when its job has not been ended, and what a
program can answer for is only what it has read and written itself: no row that
a program holds was an ended one when it was read, and the loop never ends a job
of which it still holds a row. What is left is the condition of this module: no
*other* process has ended the job since the row was read (`Undisputed`). Runs
in which every write meets it keep every job ended (`ended_stays_ended`), a
write that does not meet it breaks it, and a cancel request that loses the race
against the end of a backtest is such a write.
-/

namespace Queue

variable {queue : List QueueRow} {r x : QueueRow}

/-! ## The condition on a write -/

/-- Another process has ended a row's job since the row was read. There is one
loop at a time; a request and a worker write once, so that whatever they find
written is another process's. -/
def Overtaken (queue : List QueueRow) (writer : QueueWriter) (r : QueueRow) : Prop :=
  ∃ v ∈ queue, v.queueId = r.queueId ∧ r.queueVid < v.queueVid ∧ v.Terminal ∧
    ¬ (writer = .loop ∧ v.writtenBy = .loop)

instance (queue : List QueueRow) (writer : QueueWriter) (r : QueueRow) :
    Decidable (Overtaken queue writer r) :=
  inferInstanceAs (Decidable (∃ v ∈ queue, v.queueId = r.queueId ∧ r.queueVid < v.queueVid ∧
    v.Terminal ∧ ¬ (writer = .loop ∧ v.writtenBy = .loop)))

/-- The condition on a write: no other process has ended the job since the row
was read, and a worker runs no job that had ended when it read it. -/
def Undisputed (s : QueueState) (w : Agent) (o : Outcome) : Prop :=
  ∀ p ∈ nextWrite w o, ¬ Overtaken s.queue p.1 p.2 ∧ (p.1 = .worker → ¬ p.2.Terminal)

instance (s : QueueState) (w : Agent) (o : Outcome) : Decidable (Undisputed s w o) :=
  inferInstanceAs (Decidable (∀ p ∈ nextWrite w o,
    ¬ Overtaken s.queue p.1 p.2 ∧ (p.1 = .worker → ¬ p.2.Terminal)))

/-! ## The step of a process -/

section Agents

variable {cfg : LoopConfig} {s s' : QueueState} {w w' : Agent} {o : Outcome}

/-- What a process answers for. A worker answers for nothing but that the row it
runs is one of the table: it reads its job whatever its status. -/
def AgentOk (queue : List QueueRow) : Agent → Prop
  | .cancelWrite row _ _ => Held queue row
  | .loop active pc => LoopOk queue active pc
  | .childRun _ job => job ∈ queue
  | _ => True

/-- What the table keeps. -/
structure TableOk (queue : List QueueRow) : Prop where
  /-- The versions of each job are numbered in the order they were written. -/
  numbered : Numbered queue
  /-- No version comes after one that ends the job. -/
  absorbing : Absorbing queue

/-- **One write.** A version with the next number, of a job that has not been ended, keeps the
table. -/
theorem TableOk.append (h : TableOk queue) (hx : x.queueVid = nextQueueVid queue x.queueId)
    (hno : ∀ v ∈ queue, v.queueId = x.queueId → ¬ v.Terminal) : TableOk (x :: queue) :=
  ⟨h.numbered.append hx, (h.absorbing.append_iff hx).mpr hno⟩

/-- **A step appends the version that was decided on, or nothing.** What a process is about to
write, from what it has read, is what `nextWrite` says. -/
theorem stepAgent_queue (hT : TableOk s.queue) (hA : AgentOk s.queue w)
    (h : stepAgent cfg s w o = some (s', w')) :
    (s'.queue = s.queue ∧ nextWrite w o = none) ∨
      ∃ writer row, nextWrite w o = some (writer, row) ∧ Appends s s' writer row := by
  unfold stepAgent at h
  split at h
  · obtain ⟨rfl, rfl⟩ := by simpa using h
    exact .inl ⟨rfl, rfl⟩
  · obtain ⟨rfl, rfl⟩ := by simpa using h
    exact .inr ⟨_, _, rfl, write_appends _ _ _ _ _ _⟩
  · obtain ⟨⟨s'', active', pc'⟩, hstep, heq⟩ := Option.map_eq_some_iff.mp h
    obtain ⟨rfl, rfl⟩ := by simpa using heq
    rcases (stepLoop_ok hT.numbered hT.absorbing hA hstep).1 with hq | ⟨row, hw, hx⟩
    · exact .inl hq
    · exact .inr ⟨_, row, hw, hx⟩
  · split at h
    · split at h
      · obtain ⟨rfl, rfl⟩ := by simpa using h
        exact .inl ⟨rfl, rfl⟩
      · obtain ⟨rfl, rfl⟩ := by simpa using h
        exact .inl ⟨rfl, rfl⟩
    · exact absurd h (by simp)
  · split at h
    · obtain ⟨rfl, rfl⟩ := by simpa using h
      exact .inr ⟨_, _, rfl, write_appends _ _ _ _ _ _⟩
    · exact absurd h (by simp)
  · split at h
    · obtain ⟨rfl, rfl⟩ := by simpa using h
      exact .inl ⟨rfl, rfl⟩
    · exact absurd h (by simp)
  · split at h
    · obtain ⟨rfl, rfl⟩ := by simpa using h
      exact .inl ⟨rfl, rfl⟩
    · exact absurd h (by simp)
  · exact absurd h (by simp)

/-- What is known of the row a process is about to write from. -/
theorem nextWrite_held {writer : QueueWriter} (hA : AgentOk queue w)
    (hw : nextWrite w o = some (writer, r)) :
    r ∈ queue ∧ (writer ≠ .worker → ¬ r.Terminal) ∧
      (writer = .loop → Unended queue r.queueId) := by
  have howned : ∀ {r' : QueueRow}, Owned queue r' → some (QueueWriter.loop, r') = some (writer, r) →
      r ∈ queue ∧ (writer ≠ .worker → ¬ r.Terminal) ∧
        (writer = .loop → Unended queue r.queueId) := by
    intro r' ho heq
    obtain ⟨rfl, rfl⟩ := by simpa using heq
    exact ⟨ho.mem, fun _ => ho.live, fun _ => ho.unended⟩
  unfold nextWrite at hw
  split at hw
  · obtain ⟨rfl, rfl⟩ := by simpa using hw
    exact ⟨hA.mem, fun _ => hA.live, fun h => absurd h (by decide)⟩
  · exact howned (hA.pcOk.2.owned _ List.mem_cons_self) hw
  · exact howned hA.pcOk.1 hw
  · exact howned (hA.pcOk.1.owned _ List.mem_cons_self) hw
  · exact howned (hA.activeOk.owned _ hA.pcOk).2 hw
  · exact howned hA.pcOk hw
  · obtain ⟨rfl, rfl⟩ := by simpa using hw
    exact ⟨hA, fun h => absurd rfl h, fun h => absurd h (by decide)⟩
  · exact absurd hw (by simp)

/-- **The condition leaves no ended version.** Where no other process has ended
the job since the row was read, the job has not been ended at all. -/
theorem Undisputed.unended {writer : QueueWriter} (hT : TableOk s.queue)
    (hA : AgentOk s.queue w) (hu : Undisputed s w o)
    (hw : nextWrite w o = some (writer, r)) :
    ∀ v ∈ s.queue, v.queueId = r.queueId → ¬ v.Terminal := by
  obtain ⟨hmem, hlive, hloop⟩ := nextWrite_held hA hw
  obtain ⟨hover, hworker⟩ := hu _ hw
  have hrt : ¬ r.Terminal := by
    by_cases hwr : writer = .worker
    · exact hworker hwr
    · exact hlive hwr
  refine hT.absorbing.fresh hT.numbered hmem hrt fun v hv hk hlt ht => hover ?_
  refine ⟨v, hv, hk, hlt, ht, fun hboth => ?_⟩
  exact hloop hboth.1 v hv hk hboth.2 ht

/-- **A step keeps the table**, if what it writes is not disputed. -/
theorem stepAgent_tableOk (hT : TableOk s.queue) (hA : AgentOk s.queue w)
    (hu : Undisputed s w o) (h : stepAgent cfg s w o = some (s', w')) : TableOk s'.queue := by
  rcases stepAgent_queue hT hA h with ⟨hq, -⟩ | ⟨writer, row, hw, x, hx, hk, -, hvid⟩
  · rw [hq]
    exact hT
  · rw [hx]
    exact hT.append hvid (hk ▸ hu.unended hT hA hw)

/-- A cancel request changes nothing that has ended: such a status has no target. -/
theorem cancelTarget_live {status target : QueueStatus} (h : cancelTarget status = some target) :
    status.isTerminal = false := by
  cases status with
  | queued => rfl
  | running => rfl
  | cancelRequested => exact absurd h (by simp [cancelTarget])
  | completed => exact absurd h (by simp [cancelTarget])
  | failed => exact absurd h (by simp [cancelTarget])
  | cancelled => exact absurd h (by simp [cancelTarget])

/-- **A step keeps what its own process can answer for**, disputed or not. -/
theorem stepAgent_ok (hT : TableOk s.queue) (hA : AgentOk s.queue w)
    (h : stepAgent cfg s w o = some (s', w')) : AgentOk s'.queue w' := by
  unfold stepAgent at h
  split at h
  -- a request reads its job
  · obtain ⟨rfl, rfl⟩ := by simpa using h
    unfold stepCancel
    split
    · trivial
    · rename_i row hrow
      split
      · trivial
      · rename_i target htarget
        exact ⟨(getActive_mem hrow).1, not_terminal_of_status rfl (cancelTarget_live htarget)⟩
  · obtain ⟨rfl, rfl⟩ := by simpa using h
    trivial
  · obtain ⟨⟨s'', active', pc'⟩, hstep, heq⟩ := Option.map_eq_some_iff.mp h
    obtain ⟨rfl, rfl⟩ := by simpa using heq
    exact (stepLoop_ok hT.numbered hT.absorbing hA hstep).2
  -- a worker reads its job
  · split at h
    · split at h
      · obtain ⟨rfl, rfl⟩ := by simpa using h
        trivial
      · rename_i job hjob
        obtain ⟨rfl, rfl⟩ := by simpa using h
        exact fetchJob_mem hjob
    · exact absurd h (by simp)
  · split at h
    · obtain ⟨rfl, rfl⟩ := by simpa using h
      trivial
    · exact absurd h (by simp)
  · split at h
    · obtain ⟨rfl, rfl⟩ := by simpa using h
      trivial
    · exact absurd h (by simp)
  · split at h
    · obtain ⟨rfl, rfl⟩ := by simpa using h
      trivial
    · exact absurd h (by simp)
  · exact absurd h (by simp)

/-- And what another process can answer for stays so, as long as only the loop itself writes what
the loop has to answer for. -/
theorem AgentOk.append (hA : AgentOk queue w)
    (hx : w.isLoop = true → ∀ queueId, Spares x queueId) : AgentOk (x :: queue) w := by
  cases w with
  | cancel queueId userId => trivial
  | cancelWrite row userId target => exact Held.append hA
  | cancelDone => trivial
  | loop active pc => exact LoopOk.append hA (hx rfl)
  | child pid queueId => trivial
  | childRun pid job => exact List.mem_cons_of_mem _ hA
  | childDone pid => trivial

/-- Two processes that are not both the loop. -/
def NotBothLoop (w v : Agent) : Prop := ¬ (w.isLoop = true ∧ v.isLoop = true)

/-- Only the loop writes as the loop. -/
theorem isLoop_of_nextWrite {row : QueueRow} (h : nextWrite w o = some (.loop, row)) :
    w.isLoop = true := by
  cases w with
  | loop active pc => rfl
  | cancel queueId userId => exact absurd h (by simp [nextWrite])
  | cancelWrite row userId target => cases o <;> exact absurd h (by simp [nextWrite])
  | cancelDone => exact absurd h (by simp [nextWrite])
  | child pid queueId => exact absurd h (by simp [nextWrite])
  | childRun pid job => cases o <;> exact absurd h (by simp [nextWrite])
  | childDone pid => exact absurd h (by simp [nextWrite])

/-- No process takes from another what it answers for. -/
theorem stepAgent_other {v : Agent} (hT : TableOk s.queue) (hA : AgentOk s.queue w)
    (hv : AgentOk s.queue v) (hne : NotBothLoop w v)
    (h : stepAgent cfg s w o = some (s', w')) : AgentOk s'.queue v := by
  rcases stepAgent_queue hT hA h with ⟨hq, -⟩ | ⟨writer, row, hw, x, hx, -, hwr, -⟩
  · rw [hq]
    exact hv
  · rw [hx]
    refine hv.append fun hv => spares_of_writer ?_
    rw [hwr]
    rintro rfl
    exact hne ⟨isLoop_of_nextWrite hw, hv⟩

end Agents

/-! ## Runs -/

/-- Nothing was written for a job after a version that ended it. The table holds
its versions newest first. -/
def EndedStayEnded (queue : List QueueRow) : Prop :=
  queue.Pairwise (fun later earlier => later.queueId = earlier.queueId → ¬ earlier.Terminal)

instance (queue : List QueueRow) : Decidable (EndedStayEnded queue) :=
  inferInstanceAs (Decidable (queue.Pairwise _))

/-- An absorbing table is one in which ended jobs stay ended. -/
theorem TableOk.endedStayEnded (h : TableOk queue) : EndedStayEnded queue := by
  refine List.Pairwise.imp_of_mem (fun {v w} hv hw hlt hk ht => ?_) h.numbered
  exact absurd (hlt hk) (not_lt.mpr (h.absorbing w hw ht v hv hk))

/-- A job ends at most once. -/
theorem EndedStayEnded.length_le_one (h : EndedStayEnded queue) (queueId : ℕ) :
    (queue.filter (fun v => v.queueId = queueId ∧ v.Terminal)).length ≤ 1 := by
  have hends : ∀ v ∈ queue.filter (fun v => v.queueId = queueId ∧ v.Terminal),
      v.queueId = queueId ∧ v.Terminal := fun v hv =>
    of_decide_eq_true (List.mem_filter.mp hv).2
  have hpair : EndedStayEnded (queue.filter (fun v => v.queueId = queueId ∧ v.Terminal)) :=
    List.Pairwise.sublist List.filter_sublist h
  generalize queue.filter (fun v => v.queueId = queueId ∧ v.Terminal) = ends at hends hpair
  match ends, hends, hpair with
  | [], _, _ => exact Nat.zero_le _
  | [_], _, _ => exact Nat.le_refl _
  | later :: earlier :: _, hends, hpair =>
    obtain ⟨hkl, -⟩ := hends later List.mem_cons_self
    obtain ⟨hke, hte⟩ := hends earlier (List.mem_cons_of_mem _ List.mem_cons_self)
    exact absurd hte ((List.pairwise_cons.mp hpair).1 earlier List.mem_cons_self
      (hkl.trans hke.symm))

section Processes

variable {cfg : LoopConfig} {s s' : QueueState} {agents : List Agent} {w w' : Agent}

/-- What can be started. -/
theorem startAgent_cases {b : Start} (h : startAgent s agents b = some w) :
    (∃ queueId userId, w = .cancel queueId userId) ∨
      (w = .loop [] .recoverStale ∧ agents.any Agent.isLoop = false) ∨
      ∃ pid queueId, w = .child pid queueId := by
  cases b with
  | cancel queueId userId =>
    exact .inl ⟨queueId, userId, (Option.some.inj h).symm⟩
  | loop =>
    by_cases hany : agents.any Agent.isLoop = true
    · exact absurd h (by simp [startAgent, hany])
    · rw [startAgent, if_neg hany] at h
      exact .inr (.inl ⟨(Option.some.inj h).symm, Bool.eq_false_iff.mpr hany⟩)
  | child pid =>
    simp only [startAgent] at h
    split at h
    · exact absurd h (by simp)
    · split at h
      · exact absurd h (by simp)
      · exact .inr (.inr ⟨pid, _, (Option.some.inj h).symm⟩)

/-- The loop is only started where there is none. -/
theorem startAgent_notBothLoop {b : Start} (h : startAgent s agents b = some w) :
    ∀ v ∈ agents, NotBothLoop v w := by
  intro v hv hboth
  rcases startAgent_cases h with ⟨queueId, userId, rfl⟩ | ⟨-, hnone⟩ | ⟨pid, queueId, rfl⟩
  · exact Bool.false_ne_true hboth.2
  · rw [List.any_eq_false] at hnone
    exact hnone v hv hboth.1
  · exact Bool.false_ne_true hboth.2

/-- A process that starts holds no row, and answers for none. -/
theorem startAgent_ok {b : Start} (h : startAgent s agents b = some w) : AgentOk s.queue w := by
  rcases startAgent_cases h with ⟨queueId, userId, rfl⟩ | ⟨rfl, -⟩ | ⟨pid, queueId, rfl⟩
  · trivial
  · exact ⟨⟨List.nodup_nil, fun e he => absurd he List.not_mem_nil⟩, rfl⟩
  · trivial

/-- No process becomes the loop. -/
theorem stepAgent_isLoop {o : Outcome} (h : stepAgent cfg s w o = some (s', w'))
    (hw : w'.isLoop = true) : w.isLoop = true := by
  unfold stepAgent at h
  split at h
  · obtain ⟨-, rfl⟩ := by simpa using h
    unfold stepCancel at hw
    split at hw
    · exact hw
    · split at hw <;> exact hw
  · obtain ⟨-, rfl⟩ := by simpa using h
    exact hw
  · rfl
  · split at h
    · split at h
      · obtain ⟨-, rfl⟩ := by simpa using h
        exact hw
      · obtain ⟨-, rfl⟩ := by simpa using h
        exact hw
    · exact absurd h (by simp)
  · split at h
    · obtain ⟨-, rfl⟩ := by simpa using h
      exact hw
    · exact absurd h (by simp)
  · split at h
    · obtain ⟨-, rfl⟩ := by simpa using h
      exact hw
    · exact absurd h (by simp)
  · split at h
    · obtain ⟨-, rfl⟩ := by simpa using h
      exact hw
    · exact absurd h (by simp)
  · exact absurd h (by simp)

end Processes

/-- The world ends no job: it lets time pass, and enqueues jobs that have no
version yet. -/
theorem stepWorld_ok {s s' : QueueState} {e : World} (hT : TableOk s.queue)
    (h : stepWorld s e = some s') :
    TableOk s'.queue ∧ ∀ w, AgentOk s.queue w → AgentOk s'.queue w := by
  cases e with
  | tick d =>
    obtain rfl := Option.some.inj h
    exact ⟨hT, fun w hw => hw⟩
  | enqueue row =>
    simp only [stepWorld] at h
    split at h
    · exact absurd h (by simp)
    · rename_i hnone
      obtain rfl := Option.some.inj h
      refine ⟨hT.append rfl fun v hv hk => absurd ?_ hnone, fun w hw => hw.append fun _ => ?_⟩
      · exact List.any_eq_true.mpr ⟨v, hv, decide_eq_true hk⟩
      · exact spares_of_live Bool.false_ne_true

/-- The runs in which every write meets the condition. -/
abbrev UndisputedRun (cfg : LoopConfig) : PoolState QueueState Agent → Prop :=
  (queuePool cfg).machine.Reach (Pool.Guard Undisputed (fun _ _ _ _ => True))

/-- **The invariant of a run** whose writes are all undisputed: the table, and what each process
answers for. -/
theorem UndisputedRun.invariant {cfg : LoopConfig} {s : PoolState QueueState Agent}
    (hs : UndisputedRun cfg s) :
    TableOk s.shared.queue ∧ ∀ w ∈ s.workers, AgentOk s.shared.queue w := by
  have hs := Pool.exclusive (R := NotBothLoop) hs
    (fun v w h hboth => h ⟨hboth.2, hboth.1⟩)
    (fun s ws b w h => startAgent_notBothLoop h)
    (fun s w a s' w' v h hne hboth => hne ⟨stepAgent_isLoop h hboth.1, hboth.2⟩)
  exact Pool.invariant (I := fun s => TableOk s.queue) (L := fun s w => AgentOk s.queue w) hs
    (fun s h => h.1 ▸ ⟨Versioned.Numbered.nil, Versioned.Absorbing.nil⟩)
    (fun s ws b w _ h => startAgent_ok h)
    (fun s e s' hT h => stepWorld_ok hT h)
    (fun s w a s' w' hT hA hu h => ⟨stepAgent_tableOk hT hA hu h, stepAgent_ok hT hA h⟩)
    (fun s w a s' w' v hT hw hv _ hne h => stepAgent_other hT hw hv hne.2 h)

/-- **An ended job stays ended** in every run whose writes meet the condition:
nothing is written after the version that ended it, and it ends at most once.
A step that a process takes next keeps it so exactly when it meets the
condition. -/
theorem ended_stays_ended {cfg : LoopConfig} {s : PoolState QueueState Agent}
    (hs : UndisputedRun cfg s) :
    EndedStayEnded s.shared.queue ∧
      (∀ queueId, (s.shared.queue.filter
        (fun v => v.queueId = queueId ∧ v.Terminal)).length ≤ 1) ∧
      ∀ w ∈ s.workers, ∀ o s' w', stepAgent cfg s.shared w o = some (s', w') →
        (EndedStayEnded s'.queue ↔ Undisputed s.shared w o) := by
  obtain ⟨hT, hA⟩ := hs.invariant
  refine ⟨hT.endedStayEnded, hT.endedStayEnded.length_le_one, fun w hw o s' w' h => ?_⟩
  refine ⟨fun hends p hp => ?_, fun hu => (stepAgent_tableOk hT (hA w hw) hu h).endedStayEnded⟩
  obtain ⟨writer, r⟩ := p
  rcases stepAgent_queue hT (hA w hw) h with ⟨-, hnone⟩ | ⟨_, row, hw', x, hx, hk, -⟩
  · exact absurd (hnone.symm.trans hp) (by simp)
  · obtain ⟨rfl, rfl⟩ := by simpa using hp.symm.trans hw'
    -- what is written comes after every version of its job
    rw [hx] at hends
    have hno := (List.pairwise_cons.mp hends).1
    refine ⟨fun hover => ?_, fun _ => hno r (nextWrite_held (hA w hw) hp).1 hk⟩
    obtain ⟨v, hv, hvk, -, ht, -⟩ := hover
    exact hno v hv (hk.trans hvk.symm) ht

/-! ## A run that keeps the condition, and one that does not -/

/-- A job as it is submitted. -/
def submitted : QueueRow where
  queueId := 0
  queueVid := 1
  strategyId := 0
  strategyVid := 1
  transactFromTs := 0
  queueStatus := .queued
  priority := 100
  errorText := none
  userId := "user"
  writtenBy := .api

/-- A loop of the default limits. -/
def defaultLoop : LoopConfig := ⟨1, 6000⟩

/-- A job is submitted, and the loop boots, claims it and starts its worker,
which reads it. The loop is the first process, the worker the second. -/
def claimed : List (PoolAct World Start Outcome) :=
  [.env (.enqueue submitted), .spawn .loop] ++ List.replicate 11 (.work 0 .go) ++
    [.spawn (.child 0), .work 1 .go]

/-- A backtest that runs to its end, and a cancel request that comes after it. -/
def cancelLate : List (PoolAct World Start Outcome) :=
  claimed ++ [.work 1 (.finish none), .work 1 (.exit 0), .spawn (.cancel 0 "user"), .work 2 .go]

/-- A cancel request that has read the running job when its backtest ends, and
is honoured by the loop on its next tick. -/
def cancelRaced : List (PoolAct World Start Outcome) :=
  claimed ++ [.spawn (.cancel 0 "user"), .work 2 .go, .work 1 (.finish none), .work 2 .go,
    .work 1 (.exit 0)] ++ List.replicate 8 (.work 0 .go)

/-- A run in which a child completes its job. -/
theorem completed_stays_completed : ∃ s, UndisputedRun defaultLoop s ∧
    (s.shared.queue.head?.map QueueRow.queueStatus = some .completed) ∧
    EndedStayEnded s.shared.queue := by
  obtain ⟨s, hs, hP⟩ := Machine.Reach.exists_of_runs (M := (queuePool defaultLoop).machine)
    (G := Pool.Guard Undisputed (fun _ _ _ _ => True))
    (s := ⟨⟨0, [], []⟩, []⟩) ⟨⟨rfl, rfl⟩, rfl⟩ cancelLate
    (P := fun s => s.shared.queue.head?.map QueueRow.queueStatus = some .completed)
    (by decide +kernel)
  exact ⟨s, hs, of_decide_eq_true hP, (ended_stays_ended hs).1⟩

/-- **A completed backtest is cancelled.** The API has read the row of the running job when the
worker completes it, writes its request on top of that, and the loop honours it. -/
theorem completed_then_cancelled : ∃ s,
    (queuePool defaultLoop).machine.Reach (fun _ _ => True) s ∧
      (history s.shared.queue 0).map QueueRow.queueStatus
        = [.queued, .running, .completed, .cancelRequested, .cancelled] ∧
      ¬ EndedStayEnded s.shared.queue := by
  obtain ⟨s, hs, hP⟩ := Machine.Reach.exists_of_runs (M := (queuePool defaultLoop).machine)
    (G := fun _ _ => True) (s := ⟨⟨0, [], []⟩, []⟩) ⟨⟨rfl, rfl⟩, rfl⟩ cancelRaced
    (P := fun s => (history s.shared.queue 0).map QueueRow.queueStatus
        = [.queued, .running, .completed, .cancelRequested, .cancelled] ∧
      ¬ EndedStayEnded s.shared.queue)
    (by decide +kernel)
  exact ⟨s, hs, of_decide_eq_true hP⟩

end Queue
