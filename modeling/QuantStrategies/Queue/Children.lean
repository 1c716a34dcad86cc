import QuantStrategies.Queue.AllJobs
import QuantStrategies.Queue.Terminal

/-!
# A job has one child

Whatever the processes of the queue do, and whichever of them are lost on the way, the loop
included, a job is claimed once and has one child in its life: it is queued when it is
submitted and never again, and only a job that is still queued is claimed. All versions
of a job are about the version of the strategy that it was submitted with, and of the user
who submitted it, since each is made from a row of the job.

Nothing is asked of the writes here: an ended job may well be written over. What a step can
do is said once (`Effect`), and the invariants are read off it.
-/

namespace Queue

/-- The jobs that the children are of, by number. -/
def childKeys (s : QueueState) : List ℕ := s.procs.map Proc.queueId

/-- The rows that the loop holds where it stands. -/
def pcRows : LoopPc → List QueueRow
  | .recovering rows => rows
  | .reapWrite latest _ _ => [latest]
  | .cancelling rows => rows
  | .cancelWrite row rows => row :: rows
  | .timeoutWrite e _ _ => [e.row]
  | .claimWrite row => [row]
  | .spawn row => [row]
  | _ => []

/-- The rows that a process holds. -/
def heldRows : Agent → List QueueRow
  | .cancelWrite row _ _ => [row]
  | .loop active pc => active.map Active.row ++ pcRows pc
  | .childRun _ job => [job]
  | _ => []

/-- A job has been claimed: it has a version that is not queued. -/
def WasClaimed (s : QueueState) (queueId : ℕ) : Prop :=
  ∃ v ∈ s.queue, v.queueId = queueId ∧ v.queueStatus ≠ .queued

/-- What a process knows besides the rows it holds: a job that is about to be claimed has no
child yet, and a child is the one of its job. -/
def Knows (s : QueueState) : Agent → Prop
  | .cancelWrite row userId target =>
      userId = row.userId ∧ target ≠ .queued ∧ target ≠ .completed
  | .loop _ (.claimWrite row) => row.queueId ∉ childKeys s
  | .loop _ (.spawn row) => row.queueId ∉ childKeys s ∧ WasClaimed s row.queueId
  | .child pid queueId => (childKeys s)[pid]? = some queueId
  | .childRun pid job => (childKeys s)[pid]? = some job.queueId
  | _ => True

/-- What holds of the tables whatever the processes do. -/
structure JobsInv (s : QueueState) : Prop where
  /-- The versions of each job are numbered in the order they were written. -/
  numbered : Numbered s.queue
  /-- A job is queued when it is submitted, and never again. -/
  queuedFirst : QueuedFirst s.queue
  /-- All versions of a job are about one version of one strategy. -/
  oneStrategy : ∀ v ∈ s.queue, ∀ w ∈ s.queue, v.queueId = w.queueId →
    v.strategyId = w.strategyId ∧ v.strategyVid = w.strategyVid
  /-- And of one user. -/
  oneUser : ∀ v ∈ s.queue, ∀ w ∈ s.queue, v.queueId = w.queueId → v.userId = w.userId
  /-- No two children are of one job. -/
  apart : (childKeys s).Nodup
  /-- A job that has a child was claimed. -/
  claimed : ∀ queueId ∈ childKeys s, WasClaimed s queueId

/-! ## What a step can do -/

/-- A version is written for a job of a user, from a row of it. -/
def Writes (s s' : QueueState) (row : QueueRow) (status : QueueStatus) : Prop :=
  ∃ writer errorText,
    s'.queue = spInsQueue s.queue s.clock writer row status row.userId errorText

/-- The children stay, and those that have begun have begun. -/
def ProcsKept (s s' : QueueState) : Prop :=
  ∀ (pid : ℕ) (p : Proc), s.procs[pid]? = some p → ∃ p', s'.procs[pid]? = some p' ∧
    p'.queueId = p.queueId ∧ (p.started = true → p'.started = true)

/-- A claim is under way. -/
def isClaim : Agent → Bool
  | .loop _ (.claimWrite _) => true
  | .loop _ (.spawn _) => true
  | _ => false

/-- **What a step of a process can do.** It writes a version from a row that it holds, and
that a job is complete is written by its child only. It comes to hold rows of the table. It
claims a job that is queued. And the loop starts a child for the job that it has claimed. -/
structure Effect (s s' : QueueState) (w w' : Agent) : Prop where
  /-- Nothing is written, or one version made of a row that it holds, which does not queue the
  job again. That a job is complete is the last thing its child writes. -/
  queue : s'.queue = s.queue ∨ ∃ row ∈ heldRows w, ∃ status, Writes s s' row status ∧
    status ≠ .queued ∧ (status = .completed → ∃ pid, w = .childRun pid row ∧
      w' = .childDone pid)
  /-- What it holds then, it held or has read. -/
  held : ∀ r ∈ heldRows w', r ∈ heldRows w ∨ r ∈ s.queue
  /-- It is about to claim a job that it has read as queued, or has claimed it. -/
  claims : isClaim w' = true → ∃ active row,
    (w' = .loop active (.claimWrite row) ∧ s' = s ∧ row ∈ listByStatus s.queue .queued) ∨
      (w = .loop active (.claimWrite row) ∧ w' = .loop active (.spawn row) ∧
        Writes s s' row .running)
  /-- No child comes, save the one that the loop starts for the job that it has claimed. -/
  keys : childKeys s' = childKeys s ∨ ∃ active row, w = .loop active (.spawn row) ∧
    childKeys s' = childKeys s ++ [row.queueId]
  /-- No child is of another job than before, and none that has begun has not. -/
  kept : ProcsKept s s'

section Procs

variable {s s' s'' : QueueState}

theorem ProcsKept.refl (s : QueueState) : ProcsKept s s := fun _ p hp => ⟨p, hp, rfl, id⟩

theorem ProcsKept.trans (h : ProcsKept s s') (h' : ProcsKept s' s'') : ProcsKept s s'' := by
  intro pid p hp
  obtain ⟨p', hp', hk', hb'⟩ := h pid p hp
  obtain ⟨p'', hp'', hk'', hb''⟩ := h' pid p' hp'
  exact ⟨p'', hp'', hk''.trans hk', fun hb => hb'' (hb' hb)⟩

/-- A change of one child that leaves its job, and lets it begin at most, keeps the children and
their jobs. -/
theorem ProcsKept.modify {f : Proc → Proc} {pid : ℕ} (h : s'.procs = s.procs.modify pid f)
    (hk : ∀ p, (f p).queueId = p.queueId) (hb : ∀ p, p.started = true → (f p).started = true) :
    ProcsKept s s' ∧ childKeys s' = childKeys s := by
  have hget (k : ℕ) : s'.procs[k]? = if pid = k then s.procs[k]?.map f else s.procs[k]? := by
    rw [h, List.getElem?_modify]
    split
    · rfl
    · exact Option.map_id'
  refine ⟨fun k p hp => ?_, List.ext_getElem? fun k => ?_⟩
  · rw [hget, hp]
    split
    · exact ⟨_, rfl, hk p, hb p⟩
    · exact ⟨p, rfl, rfl, id⟩
  · rw [childKeys, childKeys, List.getElem?_map, List.getElem?_map, hget]
    split
    · rw [Option.map_map]
      exact congrArg (fun g => s.procs[k]?.map g) (funext hk)
    · rfl

theorem kept_endProc (s : QueueState) (pid : ℕ) (code : ℤ) :
    ProcsKept s (s.endProc pid code) ∧ childKeys (s.endProc pid code) = childKeys s :=
  ProcsKept.modify rfl (fun _ => rfl) (fun _ h => h)

theorem kept_beginProc (s : QueueState) (pid : ℕ) :
    ProcsKept s (s.beginProc pid) ∧ childKeys (s.beginProc pid) = childKeys s :=
  ProcsKept.modify rfl (fun _ => rfl) (fun _ _ => rfl)

/-- And ending all of those the loop tracks. -/
theorem kept_foldl_endProc (active : List Active) (s : QueueState) :
    ProcsKept s (active.foldl (fun s e => s.endProc e.pid (-9)) s) ∧
      childKeys (active.foldl (fun s e => s.endProc e.pid (-9)) s) = childKeys s := by
  induction active generalizing s with
  | nil => exact ⟨.refl s, rfl⟩
  | cons e active ih =>
    obtain ⟨hkept, hkeys⟩ := kept_endProc s e.pid (-9)
    obtain ⟨hrest, hkeys'⟩ := ih (s.endProc e.pid (-9))
    exact ⟨hkept.trans hrest, hkeys'.trans hkeys⟩

theorem kept_stopChild {pid : ℕ} {code : ℤ} {o : Outcome} (h : stopChild s pid code o = some s') :
    ProcsKept s s' ∧ childKeys s' = childKeys s := by
  cases o with
  | go => exact Option.some.inj h ▸ kept_endProc s pid code
  | stuck => exact Option.some.inj h ▸ ⟨.refl s, rfl⟩
  | stop => exact absurd h (by simp [stopChild])
  | finish e => exact absurd h (by simp [stopChild])
  | exit c => exact absurd h (by simp [stopChild])

end Procs

section Loop

variable {cfg : LoopConfig} {s s' : QueueState} {active active' : List Active}
variable {pc pc' : LoopPc} {o : Outcome}

/-- A step that writes nothing. -/
theorem Effect.reads {w w' : Agent} (hq : s'.queue = s.queue) (hc : isClaim w' = false)
    (hp : ProcsKept s s' ∧ childKeys s' = childKeys s)
    (hheld : ∀ r ∈ heldRows w', r ∈ heldRows w ∨ r ∈ s.queue) : Effect s s' w w' :=
  ⟨.inl hq, hheld, fun h => absurd (hc.symm.trans h) Bool.false_ne_true, .inl hp.2, hp.1⟩

/-- A step that writes a version which does not complete the job. -/
theorem Effect.writes {w w' : Agent} {writer : QueueWriter} {row : QueueRow}
    {status : QueueStatus} {errorText : Option String} (hrow : row ∈ heldRows w)
    (hs : status ≠ .queued) (hdone : status ≠ .completed) (hc : isClaim w' = false)
    (hheld : ∀ r ∈ heldRows w', r ∈ heldRows w ∨ r ∈ s.queue) :
    Effect s (s.write writer row status row.userId errorText) w w' :=
  ⟨.inr ⟨row, hrow, status, ⟨writer, errorText, rfl⟩, hs, fun h => absurd h hdone⟩, hheld,
    fun h => absurd (hc.symm.trans h) Bool.false_ne_true, .inl rfl, .refl s⟩

/-- The rows of fewer children. -/
theorem mem_rows_popActive {queueId : ℕ} {r : QueueRow}
    (h : r ∈ (popActive active queueId).map Active.row) : r ∈ active.map Active.row := by
  obtain ⟨e, he, rfl⟩ := List.mem_map.mp h
  exact List.mem_map_of_mem (mem_popActive.mp he).1

/-- What is listed by a status is of the table. -/
theorem mem_of_mem_listByStatus {queue : List QueueRow} {status : QueueStatus} {r : QueueRow}
    (h : r ∈ listByStatus queue status) : r ∈ queue :=
  (openRows_sublist queue).mem ((listByStatus_sublist queue status).mem h)

/-- What is held after a step that reads rows of the table. -/
theorem held_of {rows : List QueueRow}
    (hactive : ∀ r ∈ active'.map Active.row, r ∈ active.map Active.row)
    (hrows : pcRows pc' = rows) (h : ∀ r ∈ rows, r ∈ pcRows pc ∨ r ∈ s.queue) :
    ∀ r ∈ heldRows (.loop active' pc'), r ∈ heldRows (.loop active pc) ∨ r ∈ s.queue := by
  intro r hr
  obtain hr | hr := List.mem_append.mp hr
  · exact .inl (List.mem_append_left _ (hactive r hr))
  · exact (h r (hrows ▸ hr)).imp_left (List.mem_append_right _)

/-- Recovery writes the end of rows it has listed. -/
theorem recoverStep_effect (h : recoverStep s active pc o = some (s', active', pc')) :
    Effect s s' (.loop active pc) (.loop active' pc') := by
  unfold recoverStep at h
  split at h
  · obtain ⟨rfl, rfl, rfl⟩ := by simpa using h
    exact .reads rfl rfl ⟨.refl s, rfl⟩ (held_of (fun r => id) rfl fun r hr =>
      .inr (mem_of_mem_listByStatus hr))
  · obtain ⟨rfl, rfl, rfl⟩ := by simpa using h
    exact .reads rfl rfl ⟨.refl s, rfl⟩ (held_of (fun r => id) rfl fun r hr => by cases hr)
  · obtain ⟨rfl, rfl, rfl⟩ := by simpa using h
    exact .reads rfl rfl ⟨.refl s, rfl⟩ (held_of (fun r => id) rfl fun r hr => by cases hr)
  · obtain ⟨rfl, rfl, rfl⟩ := by simpa using h
    exact .writes (List.mem_append_right _ List.mem_cons_self) (by decide) (by decide) rfl
      (held_of (fun r => id) rfl fun r hr => .inl (List.mem_cons_of_mem _ hr))
  · exact absurd h (by simp)

/-- Reaping writes the end of a row that it has re-read. -/
theorem reapStep_effect (h : reapStep s active pc o = some (s', active', pc')) :
    Effect s s' (.loop active pc) (.loop active' pc') := by
  unfold reapStep at h
  split at h
  · obtain ⟨rfl, rfl, rfl⟩ := by simpa using h
    exact .reads rfl rfl ⟨.refl s, rfl⟩ (held_of (fun r => id) rfl fun r hr => by cases hr)
  · obtain ⟨rfl, rfl, rfl⟩ := by simpa using h
    exact .reads rfl rfl ⟨.refl s, rfl⟩ (held_of (fun r => id) rfl fun r hr => by cases hr)
  -- the next child leaves the table
  · dsimp only at h
    split at h
    · obtain ⟨rfl, rfl, rfl⟩ := by simpa using h
      exact .reads rfl rfl ⟨.refl s, rfl⟩ (held_of (fun r => mem_rows_popActive) rfl fun r hr => by
        cases hr)
    · split at h
      · obtain ⟨rfl, rfl, rfl⟩ := by simpa using h
        exact .reads rfl rfl ⟨.refl s, rfl⟩ (held_of (fun r => mem_rows_popActive) rfl fun r hr => by
          cases hr)
      · rename_i latest hlatest
        split at h
        · obtain ⟨rfl, rfl, rfl⟩ := by simpa using h
          exact .reads rfl rfl ⟨.refl s, rfl⟩ (held_of (fun r => mem_rows_popActive) rfl fun r hr =>
            .inr (List.mem_singleton.mp hr ▸ (getActive_mem hlatest).1))
        · obtain ⟨rfl, rfl, rfl⟩ := by simpa using h
          exact .reads rfl rfl ⟨.refl s, rfl⟩ (held_of (fun r => mem_rows_popActive) rfl fun r hr => by
            cases hr)
  · obtain ⟨rfl, rfl, rfl⟩ := by simpa using h
    exact .writes (List.mem_append_right _ List.mem_cons_self) (by decide) (by decide) rfl
      (held_of (fun r => id) rfl fun r hr => by cases hr)
  · exact absurd h (by simp)

/-- Honouring a cancel writes the end of a row it has listed. -/
theorem cancelStep_effect (h : cancelStep s active pc o = some (s', active', pc')) :
    Effect s s' (.loop active pc) (.loop active' pc') := by
  unfold cancelStep at h
  split at h
  · obtain ⟨rfl, rfl, rfl⟩ := by simpa using h
    exact .reads rfl rfl ⟨.refl s, rfl⟩ (held_of (fun r => id) rfl fun r hr =>
      .inr (mem_of_mem_listByStatus hr))
  · obtain ⟨rfl, rfl, rfl⟩ := by simpa using h
    exact .reads rfl rfl ⟨.refl s, rfl⟩ (held_of (fun r => id) rfl fun r hr => by cases hr)
  · split at h
    · obtain ⟨rfl, rfl, rfl⟩ := by simpa using h
      exact .reads rfl rfl ⟨.refl s, rfl⟩ (held_of (fun r => id) rfl fun r hr => .inl hr)
    · exact absurd h (by simp)
    -- the child of the job is stopped and leaves the table
    · obtain ⟨s₁, hstop, heq⟩ := Option.map_eq_some_iff.mp h
      obtain ⟨rfl, rfl, rfl⟩ := by simpa using heq
      exact .reads (stopChild_queue hstop) rfl (kept_stopChild hstop)
        (held_of (fun r => mem_rows_popActive) rfl fun r hr => .inl hr)
  · obtain ⟨rfl, rfl, rfl⟩ := by simpa using h
    exact .writes (List.mem_append_right _ List.mem_cons_self) (by decide) (by decide) rfl
      (held_of (fun r => id) rfl fun r hr => .inl (List.mem_cons_of_mem _ hr))
  · exact absurd h (by simp)

/-- The timeout writes the end of a row kept in the table of children. -/
theorem timeoutStep_effect (h : timeoutStep cfg s active pc o = some (s', active', pc')) :
    Effect s s' (.loop active pc) (.loop active' pc') := by
  unfold timeoutStep at h
  split at h
  · obtain ⟨rfl, rfl, rfl⟩ := by simpa using h
    exact .reads rfl rfl ⟨.refl s, rfl⟩ (held_of (fun r => id) rfl fun r hr => by cases hr)
  · obtain ⟨rfl, rfl, rfl⟩ := by simpa using h
    exact .reads rfl rfl ⟨.refl s, rfl⟩ (held_of (fun r => id) rfl fun r hr => by cases hr)
  · split at h
    · exact absurd h (by simp)
    · rename_i e he
      split at h
      · split at h
        · obtain ⟨rfl, rfl, rfl⟩ := by simpa using h
          exact .reads rfl rfl ⟨.refl s, rfl⟩ (held_of (fun r => id) rfl fun r hr => by cases hr)
        · exact absurd h (by simp)
      -- the child is killed, and its row comes from the table of children
      · obtain ⟨s₁, hstop, heq⟩ := Option.map_eq_some_iff.mp h
        obtain ⟨rfl, rfl, rfl⟩ := by simpa using heq
        refine .reads (stopChild_queue hstop) rfl (kept_stopChild hstop) fun r hr => .inl ?_
        obtain hr | hr := List.mem_append.mp hr
        · exact List.mem_append_left _ hr
        · rw [List.mem_singleton.mp hr]
          exact List.mem_append_left _ (List.mem_map_of_mem (List.mem_of_find?_eq_some he))
  · obtain ⟨rfl, rfl, rfl⟩ := by simpa using h
    exact .writes (List.mem_append_right _ List.mem_cons_self) (by decide) (by decide) rfl
      (held_of (fun r => mem_rows_popActive) rfl fun r hr => by cases hr)
  · exact absurd h (by simp)

/-- Claiming reads a queued row, writes that it runs, and starts its child. -/
theorem claimStep_effect (h : claimStep cfg s active pc o = some (s', active', pc')) :
    Effect s s' (.loop active pc) (.loop active' pc') := by
  unfold claimStep at h
  split at h
  · split at h
    · split at h
      · obtain ⟨rfl, rfl, rfl⟩ := by simpa using h
        exact .reads rfl rfl ⟨.refl s, rfl⟩ (held_of (fun r => id) rfl fun r hr => by cases hr)
      -- the first job in run order is read
      · rename_i row rows hrows
        obtain ⟨rfl, rfl, rfl⟩ := by simpa using h
        have hrow : row ∈ inRunOrder (listByStatus s.queue .queued) := hrows ▸ List.mem_cons_self
        have hlisted := mem_inRunOrder.mp hrow
        exact ⟨.inl rfl, held_of (fun r => id) rfl fun r hr =>
            .inr (List.mem_singleton.mp hr ▸ mem_of_mem_listByStatus hlisted),
          fun _ => ⟨active, row, .inl ⟨rfl, rfl, hlisted⟩⟩, .inl rfl, .refl s⟩
    · obtain ⟨rfl, rfl, rfl⟩ := by simpa using h
      exact .reads rfl rfl ⟨.refl s, rfl⟩ (held_of (fun r => id) rfl fun r hr => by cases hr)
  · rename_i row
    obtain ⟨rfl, rfl, rfl⟩ := by simpa using h
    have hwrites : Writes s (s.write .loop row .running row.userId none) row .running :=
      ⟨.loop, none, rfl⟩
    exact ⟨.inr ⟨row, List.mem_append_right _ List.mem_cons_self, .running, hwrites, by decide,
        fun h => absurd h (by decide)⟩, held_of (fun r => id) rfl fun r hr => .inl hr,
      fun _ => ⟨active, row, .inr ⟨rfl, rfl, hwrites⟩⟩, .inl rfl, .refl s⟩
  -- the child of the job that was claimed
  · rename_i row
    obtain ⟨rfl, rfl, rfl⟩ := by simpa using h
    refine ⟨.inl rfl, fun r hr => .inl ?_, by simp [isClaim],
      .inr ⟨active, row, rfl, List.map_append⟩, fun pid p hp => ⟨p, ?_, rfl, id⟩⟩
    · obtain hr | hr := List.mem_append.mp hr
      · obtain ⟨e, he, rfl⟩ := List.mem_map.mp hr
        obtain rfl | he := mem_setActive he
        · exact List.mem_append_right _ List.mem_cons_self
        · exact List.mem_append_left _ (List.mem_map_of_mem he)
      · cases hr
    · rw [List.getElem?_append_left (List.getElem?_eq_some_iff.mp hp).1, hp]
  · obtain ⟨rfl, rfl, rfl⟩ := by simpa using h
    exact .reads rfl rfl ⟨.refl s, rfl⟩ (held_of (fun r => id) rfl fun r hr => by cases hr)
  · obtain ⟨rfl, rfl, rfl⟩ := by simpa using h
    exact .reads rfl rfl ⟨.refl s, rfl⟩ (held_of (fun r => id) rfl fun r hr => by cases hr)
  · obtain ⟨rfl, rfl, rfl⟩ := by simpa using h
    exact .reads rfl rfl ⟨.refl s, rfl⟩ (held_of (fun r => id) rfl fun r hr => by cases hr)
  · obtain ⟨rfl, rfl, rfl⟩ := by simpa using h
    exact .reads (endProc_foldl_queue active s) rfl (kept_foldl_endProc active s)
      (held_of (fun r => id) rfl fun r hr => by cases hr)
  · exact absurd h (by simp)

/-- The loop does one of these. -/
theorem stepLoop_effect (h : stepLoop cfg s active pc o = some (s', active', pc')) :
    Effect s s' (.loop active pc) (.loop active' pc') := by
  unfold stepLoop at h
  split at h
  · exact recoverStep_effect h
  · exact recoverStep_effect h
  · exact reapStep_effect h
  · exact reapStep_effect h
  · exact reapStep_effect h
  · exact cancelStep_effect h
  · exact cancelStep_effect h
  · exact cancelStep_effect h
  · exact timeoutStep_effect h
  · exact timeoutStep_effect h
  · exact timeoutStep_effect h
  · exact claimStep_effect h
  · exact claimStep_effect h
  · exact claimStep_effect h
  · exact claimStep_effect h
  · exact claimStep_effect h
  · exact claimStep_effect h

end Loop

section Agents

variable {cfg : LoopConfig} {s s' : QueueState} {w w' v : Agent} {o : Outcome} {r : QueueRow}

/-- **What a step of any process does.** What the process knows is used for the completion of a
job, which is its own child's. -/
theorem stepAgent_effect (hk : Knows s w) (h : stepAgent cfg s w o = some (s', w')) :
    Effect s s' w w' := by
  unfold stepAgent at h
  split at h
  -- a request reads its job
  · rename_i queueId userId
    obtain ⟨rfl, rfl⟩ := by simpa using h
    unfold stepCancel
    split
    · exact .reads rfl rfl ⟨.refl s, rfl⟩ fun r hr => by cases hr
    · rename_i row hrow
      split
      · exact .reads rfl rfl ⟨.refl s, rfl⟩ fun r hr => by cases hr
      · exact .reads rfl rfl ⟨.refl s, rfl⟩ fun r hr =>
          .inr (List.mem_singleton.mp hr ▸ (getActive_mem hrow).1)
  · rename_i row userId target
    obtain ⟨rfl, rfl⟩ := by simpa using h
    obtain ⟨rfl, hqueued, hdone⟩ := hk
    exact .writes List.mem_cons_self hqueued hdone rfl fun r hr => by cases hr
  · obtain ⟨⟨s₁, active', pc'⟩, hstep, heq⟩ := Option.map_eq_some_iff.mp h
    obtain ⟨rfl, rfl⟩ := by simpa using heq
    exact stepLoop_effect hstep
  -- a child begins, and reads its job
  · rename_i pid queueId
    obtain ⟨hbegin, hkeys⟩ := kept_beginProc s pid
    split at h
    · split at h
      · obtain ⟨rfl, rfl⟩ := by simpa using h
        obtain ⟨hend, hkeys'⟩ := kept_endProc (s.beginProc pid) pid 2
        exact .reads rfl rfl ⟨hbegin.trans hend, hkeys'.trans hkeys⟩ fun r hr => by cases hr
      · rename_i job hjob
        obtain ⟨rfl, rfl⟩ := by simpa using h
        exact .reads rfl rfl ⟨hbegin, hkeys⟩ fun r hr =>
          .inr (List.mem_singleton.mp hr ▸ fetchJob_mem hjob)
    · exact absurd h (by simp)
  · rename_i pid job errorText
    split at h
    · obtain ⟨rfl, rfl⟩ := by simpa using h
      refine ⟨.inr ⟨job, List.mem_cons_self, _, ⟨.worker, errorText, rfl⟩, ?_,
        fun _ => ⟨pid, rfl, rfl⟩⟩, fun r hr => (by cases hr), by simp [isClaim], .inl rfl, .refl s⟩
      split <;> decide
    · exact absurd h (by simp)
  · split at h
    · obtain ⟨rfl, rfl⟩ := by simpa using h
      exact .reads rfl rfl (kept_endProc s _ _) fun r hr => by cases hr
    · exact absurd h (by simp)
  · split at h
    · obtain ⟨rfl, rfl⟩ := by simpa using h
      exact .reads rfl rfl (kept_endProc s _ _) fun r hr => by cases hr
    · exact absurd h (by simp)
  · exact absurd h (by simp)

/-! ## What a step keeps -/

theorem Effect.mem (he : Effect s s' w w') (hr : r ∈ s.queue) : r ∈ s'.queue := by
  obtain hq | ⟨row, -, status, ⟨writer, errorText, hq⟩, -⟩ := he.queue
  · rw [hq]
    exact hr
  · rw [hq]
    exact List.mem_cons_of_mem _ hr

theorem Effect.wasClaimed (he : Effect s s' w w') {queueId : ℕ} (h : WasClaimed s queueId) :
    WasClaimed s' queueId := by
  obtain ⟨v, hv, hk, hs⟩ := h
  exact ⟨v, he.mem hv, hk, hs⟩

theorem Effect.key (he : Effect s s' w w') {pid queueId : ℕ}
    (h : (childKeys s)[pid]? = some queueId) : (childKeys s')[pid]? = some queueId := by
  obtain hkeys | ⟨active, row, -, hkeys⟩ := he.keys
  · rw [hkeys]
    exact h
  · rw [hkeys, List.getElem?_append_left (List.getElem?_eq_some_iff.mp h).1]
    exact h

/-- What is written for a job is about the strategy that its other versions are about, and of
the same user. -/
theorem JobsInv.write (hI : JobsInv s) {status : QueueStatus} (hr : r ∈ s.queue)
    (hs : status ≠ .queued) (hw : Writes s s' r status) :
    Numbered s'.queue ∧ QueuedFirst s'.queue ∧
      ∀ v ∈ s'.queue, ∀ w ∈ s'.queue, v.queueId = w.queueId →
        (v.strategyId = w.strategyId ∧ v.strategyVid = w.strategyVid) ∧ v.userId = w.userId := by
  obtain ⟨writer, errorText, hq⟩ := hw
  rw [hq]
  refine ⟨hI.numbered.append rfl, List.pairwise_cons.mpr ⟨fun v _ _ => hs, hI.queuedFirst⟩,
    fun v hv w hw hk => ?_⟩
  obtain rfl | hv := List.mem_cons.mp hv
  · obtain rfl | hw := List.mem_cons.mp hw
    · exact ⟨⟨rfl, rfl⟩, rfl⟩
    · exact ⟨hI.oneStrategy r hr w hw hk, hI.oneUser r hr w hw hk⟩
  · obtain rfl | hw := List.mem_cons.mp hw
    · exact ⟨hI.oneStrategy v hv r hr hk, hI.oneUser v hv r hr hk⟩
    · exact ⟨hI.oneStrategy v hv w hw hk, hI.oneUser v hv w hw hk⟩

/-- A job that is queued has no child. -/
theorem JobsInv.childless (hI : JobsInv s) (hr : r ∈ listByStatus s.queue .queued) :
    r.queueId ∉ childKeys s := by
  intro hkey
  obtain ⟨v, hv, hk, hs⟩ := hI.claimed _ hkey
  have hstatus := listByStatus_status hr
  have hopen := (listByStatus_sublist s.queue .queued).mem hr
  have hmem := (openRows_sublist s.queue).mem hopen
  obtain hlt | heq := (openRows_newest hopen hv hk).lt_or_eq
  · exact hI.numbered.of_lt hI.queuedFirst hv hmem hk hlt hk.symm hstatus
  · exact hs (hI.numbered.eq hv hmem hk heq ▸ hstatus)

/-- **A step keeps what holds of the tables.** -/
theorem Effect.jobsInv (he : Effect s s' w w') (hI : JobsInv s)
    (hheld : ∀ r ∈ heldRows w, r ∈ s.queue) (hk : Knows s w) : JobsInv s' := by
  have htable : Numbered s'.queue ∧ QueuedFirst s'.queue ∧
      ∀ v ∈ s'.queue, ∀ w ∈ s'.queue, v.queueId = w.queueId →
        (v.strategyId = w.strategyId ∧ v.strategyVid = w.strategyVid) ∧ v.userId = w.userId := by
    obtain hq | ⟨row, hrow, status, hw, hs, -⟩ := he.queue
    · rw [hq]
      exact ⟨hI.numbered, hI.queuedFirst, fun v hv w hw hk =>
        ⟨hI.oneStrategy v hv w hw hk, hI.oneUser v hv w hw hk⟩⟩
    · exact hI.write (hheld row hrow) hs hw
  refine ⟨htable.1, htable.2.1, fun v hv w hw hk => (htable.2.2 v hv w hw hk).1,
    fun v hv w hw hk => (htable.2.2 v hv w hw hk).2, ?_, fun queueId hkey => ?_⟩
  · obtain hkeys | ⟨active, row, rfl, hkeys⟩ := he.keys
    · rw [hkeys]
      exact hI.apart
    · rw [hkeys]
      exact List.nodup_append.mpr ⟨hI.apart, List.nodup_singleton _,
        fun a ha b hb hab => hk.1 (List.mem_singleton.mp hb ▸ hab ▸ ha)⟩
  · obtain hkeys | ⟨active, row, rfl, hkeys⟩ := he.keys
    · exact he.wasClaimed (hI.claimed queueId (hkeys ▸ hkey))
    · obtain hkey | hkey := List.mem_append.mp (hkeys ▸ hkey)
      · exact he.wasClaimed (hI.claimed queueId hkey)
      · rw [List.mem_singleton.mp hkey]
        exact he.wasClaimed hk.2

/-- What a process holds is of the table, after a step as before it. -/
theorem Effect.heldRows_mem (he : Effect s s' w w') (hheld : ∀ r ∈ heldRows w, r ∈ s.queue) :
    ∀ r ∈ heldRows w', r ∈ s'.queue :=
  fun r hr => (he.held r hr).elim (fun h => he.mem (hheld r h)) he.mem

/-- A loop that is claiming nothing knows all it needs to. -/
theorem knows_of_not_isClaim {active : List Active} {pc : LoopPc}
    (h : isClaim (.loop active pc) = false) : Knows s (.loop active pc) := by
  cases pc with
  | claimWrite row => exact absurd h (by simp [isClaim])
  | spawn row => exact absurd h (by simp [isClaim])
  | _ => trivial

/-- What a process knows turns on the children, and on what has been written. -/
theorem Knows.of_keys (h : Knows s w) (hkeys : childKeys s' = childKeys s)
    (hmem : ∀ v ∈ s.queue, v ∈ s'.queue) : Knows s' w := by
  unfold Knows at h ⊢
  split at h
  · exact h
  · rw [hkeys]
    exact h
  · obtain ⟨hnew, v, hv, hk⟩ := h
    exact ⟨hkeys ▸ hnew, v, hmem v hv, hk⟩
  · rw [hkeys]
    exact h
  · rw [hkeys]
    exact h
  · trivial

/-- A user is given their own jobs. -/
theorem getActive_userId {queue : List QueueRow} {queueId : ℕ} {userId : String}
    (h : getActive queue queueId (some userId) = some r) : r.userId = userId := by
  have hr := (List.take_sublist _ _).mem (List.mem_of_getLast? h)
  exact of_decide_eq_true (List.mem_filter.mp hr).2

/-- **What a process knows, it still knows after its step**: a job about to be claimed has no
child, as it is still queued. -/
theorem stepAgent_knows (hI : JobsInv s) (hk : Knows s w)
    (h : stepAgent cfg s w o = some (s', w')) : Knows s' w' := by
  have he := stepAgent_effect hk h
  unfold stepAgent at h
  split at h
  · obtain ⟨rfl, rfl⟩ := by simpa using h
    unfold stepCancel
    split
    · trivial
    · rename_i row hrow
      split
      · trivial
      · rename_i target htarget
        refine ⟨(getActive_userId hrow).symm, ?_⟩
        unfold cancelTarget at htarget
        split at htarget
        · exact Option.some.inj htarget ▸ ⟨by decide, by decide⟩
        · exact Option.some.inj htarget ▸ ⟨by decide, by decide⟩
        · cases htarget
  · obtain ⟨-, rfl⟩ := by simpa using h
    trivial
  -- the loop claims a job that is queued, or has claimed it
  · obtain ⟨⟨s₁, active', pc'⟩, hstep, heq⟩ := Option.map_eq_some_iff.mp h
    obtain ⟨rfl, rfl⟩ := by simpa using heq
    by_cases hc : isClaim (.loop active' pc') = true
    · obtain ⟨_, row, ⟨hw', rfl, hrow⟩ | ⟨hw, hw', hwrites⟩⟩ := he.claims hc
      · rw [hw']
        exact hI.childless hrow
      · rw [hw']
        rw [hw] at hk he
        have hkeys : childKeys s₁ = childKeys s := by
          obtain hkeys | ⟨_, _, hpc, -⟩ := he.keys
          · exact hkeys
          · cases hpc
        obtain ⟨writer, errorText, hq⟩ := hwrites
        refine ⟨hkeys ▸ hk, ?_⟩
        unfold WasClaimed
        rw [hq]
        refine ⟨_, List.mem_cons_self, rfl, ?_⟩
        show QueueStatus.running ≠ .queued
        decide
    · exact knows_of_not_isClaim (Bool.eq_false_iff.mpr hc)
  · rename_i pid queueId
    split at h
    · split at h
      · obtain ⟨-, rfl⟩ := by simpa using h
        trivial
      · rename_i job hjob
        obtain ⟨-, rfl⟩ := by simpa using h
        have hdec := List.find?_some hjob
        have hkey : job.queueId = queueId := of_decide_eq_true hdec
        show (childKeys s')[pid]? = some job.queueId
        rw [hkey]
        exact he.key hk
    · exact absurd h (by simp)
  · split at h
    · obtain ⟨-, rfl⟩ := by simpa using h
      trivial
    · exact absurd h (by simp)
  · split at h
    · obtain ⟨-, rfl⟩ := by simpa using h
      trivial
    · exact absurd h (by simp)
  · split at h
    · obtain ⟨-, rfl⟩ := by simpa using h
      trivial
    · exact absurd h (by simp)
  · exact absurd h (by simp)

/-- No process takes from another what it knows. -/
theorem Effect.knows_other (he : Effect s s' w w') (hne : NotBothLoop w v) (hv : Knows s v) :
    Knows s' v := by
  obtain hkeys | ⟨active, row, rfl, -⟩ := he.keys
  · exact hv.of_keys hkeys fun r hr => he.mem hr
  -- a child is started, by the loop, and the other process is none
  · cases v with
    | loop active' pc => exact absurd ⟨rfl, rfl⟩ hne
    | child pid queueId => exact he.key hv
    | childRun pid job => exact he.key hv
    | cancelWrite row userId target => exact hv
    | _ => trivial

end Agents

/-! ## Runs -/

section Runs

variable {cfg : LoopConfig} {s s' : QueueState} {agents : List Agent} {w : Agent}

theorem JobsInv.empty (hq : s.queue = []) (hp : s.procs = []) : JobsInv s := by
  have hkeys : childKeys s = [] := by
    rw [childKeys, hp]
    rfl
  refine ⟨hq ▸ Versioned.Numbered.nil, ?_, ?_, ?_, hkeys ▸ List.nodup_nil, ?_⟩
  · unfold QueuedFirst
    rw [hq]
    exact List.Pairwise.nil
  · rw [hq]
    exact fun v hv => absurd hv List.not_mem_nil
  · rw [hq]
    exact fun v hv => absurd hv List.not_mem_nil
  · rw [hkeys]
    exact fun v hv => absurd hv List.not_mem_nil

/-- The world keeps it: a job that is submitted is a new one, and is queued. -/
theorem JobsInv.world {e : World} (hI : JobsInv s)
    (h : stepWorld s e = some s') : JobsInv s' ∧ ProcsKept s s' ∧ childKeys s' = childKeys s ∧
      (∀ v ∈ s.queue, v ∈ s'.queue) ∧
      ∀ v ∈ s'.queue, v.queueStatus = .completed → v ∈ s.queue := by
  cases e with
  | tick d =>
    obtain rfl := Option.some.inj h
    exact ⟨⟨hI.numbered, hI.queuedFirst, hI.oneStrategy, hI.oneUser, hI.apart, hI.claimed⟩, .refl _,
      rfl, fun v => id, fun v hv _ => hv⟩
  | enqueue row =>
    simp only [stepWorld] at h
    split at h
    · cases h
    · next hnone =>
      obtain rfl := Option.some.inj h
      have hfresh : ∀ v ∈ s.queue, v.queueId ≠ row.queueId := fun v hv hk =>
        hnone (List.any_eq_true.mpr ⟨v, hv, decide_eq_true hk⟩)
      have hone {P : QueueRow → QueueRow → Prop} (hP : ∀ v, P v v)
          (hold : ∀ v ∈ s.queue, ∀ w ∈ s.queue, v.queueId = w.queueId → P v w) :
          ∀ v ∈ (s.write .api row .queued row.userId none).queue,
            ∀ w ∈ (s.write .api row .queued row.userId none).queue,
              v.queueId = w.queueId → P v w := fun v hv w hw hk => by
        obtain rfl | hv := List.mem_cons.mp hv
        · obtain rfl | hw := List.mem_cons.mp hw
          · exact hP _
          · exact absurd hk.symm (hfresh w hw)
        · obtain rfl | hw := List.mem_cons.mp hw
          · exact absurd hk (hfresh v hv)
          · exact hold v hv w hw hk
      refine ⟨⟨hI.numbered.append rfl, List.pairwise_cons.mpr ⟨fun v hv hk => ?_, hI.queuedFirst⟩,
        hone (fun _ => ⟨rfl, rfl⟩) hI.oneStrategy, hone (fun _ => rfl) hI.oneUser, hI.apart,
        fun queueId hkey => ?_⟩, .refl _, rfl, fun v hv => List.mem_cons_of_mem _ hv,
        fun v hv hs => ?_⟩
      · exact absurd hk.symm (hfresh v hv)
      · obtain ⟨v, hv, hk⟩ := hI.claimed queueId hkey
        exact ⟨v, List.mem_cons_of_mem _ hv, hk⟩
      · obtain rfl | hv := List.mem_cons.mp hv
        · cases hs
        · exact hv

/-- A child that is started is one that has not begun. -/
theorem startAgent_child {b : Start} {pid queueId : ℕ}
    (h : startAgent s agents b = some (.child pid queueId)) :
    ∃ p, s.procs[pid]? = some p ∧ p.queueId = queueId ∧ p.started = false := by
  cases b with
  | cancel queueId userId => cases h
  | loop =>
    simp only [startAgent] at h
    split at h
    · cases h
    · cases h
  | child pid' =>
    simp only [startAgent] at h
    split at h
    · cases h
    · next p hp =>
      split at h
      · cases h
      · next hfree =>
        obtain ⟨rfl, rfl⟩ := by simpa using h
        exact ⟨p, hp, rfl, Bool.eq_false_iff.mpr fun hs => hfree (.inl hs)⟩

/-- A process that starts knows what it has to, and holds rows of the table only. -/
theorem startAgent_knows {b : Start} (h : startAgent s agents b = some w) :
    Knows s w ∧ ∀ r ∈ heldRows w, r ∈ s.queue := by
  obtain ⟨queueId, userId, rfl⟩ | ⟨rfl, -⟩ | ⟨pid, queueId, rfl⟩ := startAgent_cases h
  · exact ⟨trivial, fun r hr => by cases hr⟩
  · exact ⟨trivial, fun r hr => by cases hr⟩
  · obtain ⟨p, hp, rfl, -⟩ := startAgent_child h
    refine ⟨?_, fun r hr => by cases hr⟩
    show (childKeys s)[pid]? = some p.queueId
    rw [childKeys, List.getElem?_map, hp]
    rfl

/-- **What holds in every run of the queue**, whatever the order of the steps and whichever
processes are lost. -/
theorem queuePool_invariant {s : PoolState QueueState Agent}
    (hs : (queuePool cfg).machine.Reach (fun _ _ => True) s) :
    JobsInv s.shared ∧ ∀ w ∈ s.workers, Knows s.shared w ∧ ∀ r ∈ heldRows w, r ∈ s.shared.queue := by
  have hs : (queuePool cfg).machine.Reach
      (Pool.Guard (fun _ _ _ => True) (fun _ _ _ _ => True)) s := hs.mono fun s act _ => by
    cases act with
    | work i a => exact fun w hw => ⟨trivial, fun _ _ => trivial⟩
    | _ => trivial
  have hs := Pool.exclusive (R := NotBothLoop) hs (fun v w h hboth => h ⟨hboth.2, hboth.1⟩)
    (fun s ws b w h => startAgent_notBothLoop h)
    (fun s w a s' w' v h hne hboth => hne ⟨stepAgent_isLoop h hboth.1, hboth.2⟩)
  refine Pool.invariant (I := JobsInv)
    (L := fun s w => Knows s w ∧ ∀ r ∈ heldRows w, r ∈ s.queue) hs
    (fun s h => JobsInv.empty h.1 h.2) (fun s ws b w _ h => startAgent_knows h)
    (fun s e s' hI h => ?_) (fun s w a s' w' hI hw _ h => ?_)
    (fun s w a s' w' v hI hw hv _ hne h => ?_)
  · obtain ⟨hI', -, hkeys, hmem, -⟩ := hI.world h
    exact ⟨hI', fun w hw => ⟨hw.1.of_keys hkeys hmem, fun r hr => hmem r (hw.2 r hr)⟩⟩
  · have he := stepAgent_effect hw.1 h
    exact ⟨he.jobsInv hI hw.2 hw.1, stepAgent_knows hI hw.1 h, he.heldRows_mem hw.2⟩
  · have he := stepAgent_effect hw.1 h
    exact ⟨he.knows_other hne.2 hv.1, fun r hr => he.mem (hv.2 r hr)⟩

end Runs

end Queue
