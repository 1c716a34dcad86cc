import QuantStrategies.Queue.Jobs

/-!
# What the loop answers for

The worker loop acts on rows it has read: those it listed by status, those it
claimed and keeps with its children, the one it re-reads before it reaps. This
module follows these rows through every step of the loop. No row was an ended
one when it was read, and the loop never ends a job of which it still holds a
row (`stepLoop_ok`): a job it ends has left its table of children first, and no
list it works through names a job twice.

What other programs write meanwhile does not enter here. The table is only
asked to be absorbing when the loop reads it.

The rows have three strengths. A row is `Held` when it is of the table and was not an ended
one, `Owned` when the loop has not ended its job either, and a `Batch` when several of them
are of different jobs. Each step of the loop is given one lemma (`recoverStep_ok` and the
ones after it), which says both what it appends and what it holds afterwards.
-/

namespace Queue

/-- The numbers of a job's versions grow as they are written. -/
abbrev Numbered : List QueueRow → Prop :=
  Versioned.Numbered QueueRow.queueId QueueRow.queueVid

/-- No job has a version after one that ended it. -/
abbrev Absorbing : List QueueRow → Prop :=
  Versioned.Absorbing QueueRow.queueId QueueRow.queueVid QueueRow.Terminal

variable {queue : List QueueRow} {r x : QueueRow}

/-! ## What is read -/

/-- Open rows are rows of the table, in its order. -/
theorem openRows_sublist (queue : List QueueRow) : (openRows queue).Sublist queue :=
  List.filter_sublist

/-- An open row is the newest version of its job. -/
theorem openRows_newest (hr : r ∈ openRows queue) {v : QueueRow} (hv : v ∈ queue)
    (hk : v.queueId = r.queueId) : v.queueVid ≤ r.queueVid := by
  have h := List.all_eq_true.mp (List.mem_filter.mp hr).2 v hv
  rw [decide_eq_true_eq] at h
  exact h hk

/-- A list by status has open rows only, in their order. -/
theorem listByStatus_sublist (queue : List QueueRow) (status : QueueStatus) :
    (listByStatus queue status).Sublist (openRows queue) :=
  (List.take_sublist _ _).trans List.filter_sublist

theorem listByStatus_status {status : QueueStatus} (hr : r ∈ listByStatus queue status) :
    r.queueStatus = status :=
  of_decide_eq_true (List.mem_filter.mp ((List.take_sublist _ _).mem hr)).2

/-- What a re-read of a job finds is a row of the table, of that job. -/
theorem getActive_mem {queueId : ℕ} {userId : Option String}
    (h : getActive queue queueId userId = some r) : r ∈ queue ∧ r.queueId = queueId := by
  have hr := (List.take_sublist _ _).mem (List.mem_of_getLast? h)
  obtain ⟨hin, -⟩ := List.mem_filter.mp hr
  obtain ⟨hmem, hk⟩ := List.mem_filter.mp (List.mem_reverse.mp hin)
  exact ⟨hmem, of_decide_eq_true hk⟩

/-- What a fetch of a job finds is a row of the table. -/
theorem fetchJob_mem {queueId : ℕ} (h : fetchJob queue queueId = some r) : r ∈ queue :=
  (openRows_sublist queue).mem (List.mem_of_find?_eq_some h)

/-- Putting rows in the order in which they run keeps the rows. -/
theorem mem_inRunOrder {rows : List QueueRow} : r ∈ inRunOrder rows ↔ r ∈ rows :=
  (List.perm_insertionSort _ _).mem_iff

/-- A status under which a job has not ended. -/
theorem not_terminal_of_status {status : QueueStatus} (h : r.queueStatus = status)
    (hs : status.isTerminal = false) : ¬ r.Terminal := by
  rw [QueueRow.Terminal, h, hs]
  exact Bool.false_ne_true

/-! ## What a program can answer for -/

/-- The loop has not ended a job. -/
def Unended (queue : List QueueRow) (queueId : ℕ) : Prop :=
  ∀ v ∈ queue, v.queueId = queueId → v.writtenBy = .loop → ¬ v.Terminal

/-- A row of the table that was not an ended one. -/
structure Held (queue : List QueueRow) (r : QueueRow) : Prop where
  /-- It is in the table. -/
  mem : r ∈ queue
  /-- It did not end its job. -/
  live : ¬ r.Terminal

/-- A row of the table that was not an ended one, of a job the loop has not
ended. -/
structure Owned (queue : List QueueRow) (r : QueueRow) : Prop extends Held queue r where
  /-- Nor has the loop since. -/
  unended : Unended queue r.queueId

/-- Rows that the loop has read in one go: of different jobs, none of which it
has ended. -/
structure Batch (queue : List QueueRow) (rows : List QueueRow) : Prop where
  /-- No two are of one job. -/
  apart : (rows.map QueueRow.queueId).Nodup
  /-- The loop has ended none of their jobs. -/
  owned : ∀ r ∈ rows, Owned queue r

/-- A version that does not have the loop end a given job. -/
def Spares (x : QueueRow) (queueId : ℕ) : Prop :=
  x.writtenBy = .loop → x.Terminal → x.queueId ≠ queueId

/-- A new version leaves a job unended by the loop, unless it is the loop's end of that job. -/
theorem Unended.append {queueId : ℕ} (h : Unended queue queueId) (hx : Spares x queueId) :
    Unended (x :: queue) queueId := by
  intro v hv hk hw ht
  rcases List.mem_cons.mp hv with rfl | hv
  · exact hx hw ht hk
  · exact h v hv hk hw ht

/-- A row that is held stays so when the table grows. -/
theorem Held.append (h : Held queue r) : Held (x :: queue) r :=
  ⟨List.mem_cons_of_mem _ h.mem, h.live⟩

/-- A row that is owned stays so, unless the loop ends its job. -/
theorem Owned.append (h : Owned queue r) (hx : Spares x r.queueId) : Owned (x :: queue) r :=
  ⟨h.toHeld.append, h.unended.append hx⟩

/-- And so does a batch, as long as the new version spares each of its jobs. -/
theorem Batch.append {rows : List QueueRow} (h : Batch queue rows)
    (hx : ∀ r ∈ rows, Spares x r.queueId) : Batch (x :: queue) rows :=
  ⟨h.apart, fun r hr => (h.owned r hr).append (hx r hr)⟩

/-- What is left of a batch is one. -/
theorem Batch.tail {rows : List QueueRow} (h : Batch queue (r :: rows)) : Batch queue rows :=
  ⟨(List.nodup_cons.mp h.apart).2, fun r hr => h.owned r (List.mem_cons_of_mem _ hr)⟩

/-- Rows listed by a status that is not an ended one are of different jobs, none
of which has been ended. -/
theorem batch_listByStatus (hn : Numbered queue) (ha : Absorbing queue) {status : QueueStatus}
    (hs : status.isTerminal = false) : Batch queue (listByStatus queue status) := by
  have hopen := fun r (hr : r ∈ listByStatus queue status) =>
    (listByStatus_sublist queue status).mem hr
  refine ⟨hn.pairwise_newest ((listByStatus_sublist _ _).trans (openRows_sublist _))
    fun r hr v hv hk => openRows_newest (hopen r hr) hv hk, fun r hr => ?_⟩
  have hmem := (openRows_sublist queue).mem (hopen r hr)
  have hlive := not_terminal_of_status (listByStatus_status hr) hs
  exact ⟨⟨hmem, hlive⟩, fun v hv hk _ => ha.newest hn hmem hlive
    (fun v hv hk => openRows_newest (hopen r hr) hv hk) v hv hk⟩

/-! ## What a step writes -/

/-- The row that a process holds when its next step is a write, and the program
it runs. -/
def nextWrite : Agent → Outcome → Option (QueueWriter × QueueRow)
  | .cancelWrite row _ _, .go => some (.api, row)
  | .loop _ (.recovering (row :: _)), .go => some (.loop, row)
  | .loop _ (.reapWrite latest _ _), .go => some (.loop, latest)
  | .loop _ (.cancelWrite row _), .go => some (.loop, row)
  | .loop _ (.timeoutWrite e _ _), .go => some (.loop, e.row)
  | .loop _ (.claimWrite row), .go => some (.loop, row)
  | .childRun _ job, .finish _ => some (.worker, job)
  | _, _ => none

/-- What a step does to the table: it appends a version, from the row held, or
leaves the table alone. -/
def Appends (s s' : QueueState) (writer : QueueWriter) (row : QueueRow) : Prop :=
  ∃ x, s'.queue = x :: s.queue ∧ x.queueId = row.queueId ∧ x.writtenBy = writer ∧
    x.queueVid = nextQueueVid s.queue x.queueId

/-- A write puts one version in front, made of the row that it is given. -/
theorem write_appends (s : QueueState) (writer : QueueWriter) (row : QueueRow)
    (status : QueueStatus) (userId : String) (errorText : Option String) :
    Appends s (s.write writer row status userId errorText) writer row :=
  ⟨_, rfl, rfl, rfl, rfl⟩

/-- The loop's step appends the version it decided on, or nothing. -/
def LoopAppends (s s' : QueueState) (active : List Active) (pc : LoopPc) (o : Outcome) : Prop :=
  (s'.queue = s.queue ∧ nextWrite (.loop active pc) o = none) ∨
    ∃ row, nextWrite (.loop active pc) o = some (.loop, row) ∧ Appends s s' .loop row

theorem stopChild_queue {s s' : QueueState} {pid : ℕ} {code : ℤ} {o : Outcome}
    (h : stopChild s pid code o = some s') : s'.queue = s.queue := by
  cases o with
  | go => exact Option.some.inj h ▸ rfl
  | stuck => exact congrArg QueueState.queue (Option.some.inj h).symm
  | stop => exact absurd h (by simp [stopChild])
  | finish e => exact absurd h (by simp [stopChild])
  | exit c => exact absurd h (by simp [stopChild])

/-- Nor does ending all children, as a loop that shuts down does. -/
theorem endProc_foldl_queue (active : List Active) (s : QueueState) :
    (active.foldl (fun s e => s.endProc e.pid (-9)) s).queue = s.queue := by
  induction active generalizing s with
  | nil => rfl
  | cons e active ih => exact ih (s.endProc e.pid (-9))

/-! ## What the loop can answer for -/

/-- What the loop answers for where it stands: the rows it has read and not yet
written are of jobs it has not ended, and a job it is about to end has left its
table of children. -/
def PcOk (queue : List QueueRow) (active : List Active) : LoopPc → Prop
  | .recoverStale => active = []
  | .recovering rows => active = [] ∧ Batch queue rows
  | .reaping finished => (finished.map Active.queueId).Nodup ∧
      ∀ e ∈ finished, Unended queue e.queueId
  | .reapWrite latest _ finished => Owned queue latest ∧
      latest.queueId ∉ active.map Active.queueId ∧
      (latest.queueId :: finished.map Active.queueId).Nodup ∧
      ∀ e ∈ finished, Unended queue e.queueId
  | .cancelling rows => Batch queue rows
  | .cancelWrite row rows => Batch queue (row :: rows) ∧
      row.queueId ∉ active.map Active.queueId
  | .timeoutWrite e _ _ => e ∈ active
  | .claimWrite row => Owned queue row
  | .spawn row => Owned queue row
  | _ => True

/-- The table of children: a job has one entry, with a row of it, and none has
been ended by the loop. -/
structure ActiveOk (queue : List QueueRow) (active : List Active) : Prop where
  /-- A job has one entry. -/
  apart : (active.map Active.queueId).Nodup
  /-- Its row is of the job of the entry, and the loop has not ended that job. -/
  owned : ∀ e ∈ active, e.row.queueId = e.queueId ∧ Owned queue e.row

/-- The loop has ended no job that it tracks. -/
theorem ActiveOk.unended {active : List Active} (h : ActiveOk queue active) {e : Active}
    (he : e ∈ active) : Unended queue e.queueId := by
  obtain ⟨hk, ho⟩ := h.owned e he
  exact hk ▸ ho.unended

/-- The table of children stays right while versions come that spare the jobs in it. -/
theorem ActiveOk.append {active : List Active} (h : ActiveOk queue active)
    (hx : ∀ e ∈ active, Spares x e.queueId) : ActiveOk (x :: queue) active := by
  refine ⟨h.apart, fun e he => ?_⟩
  obtain ⟨hk, ho⟩ := h.owned e he
  exact ⟨hk, ho.append (hk ▸ hx e he)⟩

/-- Dropping a job from the table keeps the entries of the others. -/
theorem mem_popActive {active : List Active} {queueId : ℕ} {e : Active} :
    e ∈ popActive active queueId ↔ e ∈ active ∧ e.queueId ≠ queueId := by
  rw [popActive, List.mem_filter, decide_eq_true_eq]

theorem not_mem_popActive (active : List Active) (queueId : ℕ) :
    queueId ∉ (popActive active queueId).map Active.queueId := by
  intro h
  obtain ⟨e, he, hk⟩ := List.mem_map.mp h
  exact (mem_popActive.mp he).2 hk

/-- A table without one of its jobs is right if it was. -/
theorem ActiveOk.pop {active : List Active} (h : ActiveOk queue active) (queueId : ℕ) :
    ActiveOk queue (popActive active queueId) :=
  ⟨(List.filter_sublist.map Active.queueId).nodup h.apart,
    fun e he => h.owned e (mem_popActive.mp he).1⟩

/-- Setting an entry replaces the job's own, or is put behind the others. -/
theorem map_queueId_setActive (active : List Active) (entry : Active) :
    (setActive active entry).map Active.queueId
      = if active.any (fun e => e.queueId = entry.queueId) then active.map Active.queueId
        else active.map Active.queueId ++ [entry.queueId] := by
  unfold setActive
  split
  · rw [List.map_map]
    refine List.map_congr_left fun e _ => ?_
    show (if e.queueId = entry.queueId then entry else e).queueId = e.queueId
    split
    · exact (‹e.queueId = entry.queueId›).symm
    · rfl
  · exact List.map_append

/-- Its entries are the new one and those that there were. -/
theorem mem_setActive {active : List Active} {entry e : Active}
    (h : e ∈ setActive active entry) : e = entry ∨ e ∈ active := by
  unfold setActive at h
  split at h
  · obtain ⟨e', he', rfl⟩ := List.mem_map.mp h
    split
    · exact .inl rfl
    · exact .inr he'
  · rcases List.mem_append.mp h with h | h
    · exact .inr h
    · exact .inl (List.mem_singleton.mp h)

/-- Setting the entry of a job that the loop owns keeps the table right. -/
theorem ActiveOk.set {active : List Active} (h : ActiveOk queue active) {entry : Active}
    (hk : entry.row.queueId = entry.queueId) (ho : Owned queue entry.row) :
    ActiveOk queue (setActive active entry) := by
  refine ⟨?_, fun e he => ?_⟩
  · rw [map_queueId_setActive]
    split
    · exact h.apart
    · rename_i hnone
      refine List.nodup_append.mpr ⟨h.apart, List.nodup_singleton _, fun a ha b hb hab => ?_⟩
      obtain ⟨e, he, hke⟩ := List.mem_map.mp ha
      exact hnone (List.any_eq_true.mpr ⟨e, he, decide_eq_true
        (hke.trans (hab.trans (List.mem_singleton.mp hb)))⟩)
  · rcases mem_setActive he with rfl | he
    · exact ⟨hk, ho⟩
    · exact h.owned e he

/-- What the loop answers for. -/
structure LoopOk (queue : List QueueRow) (active : List Active) (pc : LoopPc) : Prop where
  /-- The rows of the children. -/
  activeOk : ActiveOk queue active
  /-- The rows it is working through. -/
  pcOk : PcOk queue active pc

/-- What the loop works through stays right while it appends nothing that ends a job. -/
theorem PcOk.append {active : List Active} {pc : LoopPc} (h : PcOk queue active pc)
    (hx : ∀ queueId, Spares x queueId) : PcOk (x :: queue) active pc := by
  cases pc with
  | recovering rows => exact ⟨h.1, h.2.append fun r _ => hx _⟩
  | reaping finished => exact ⟨h.1, fun e he => (h.2 e he).append (hx _)⟩
  | reapWrite latest code finished =>
    obtain ⟨ho, hact, hnd, hun⟩ := h
    exact ⟨ho.append (hx _), hact, hnd, fun e he => (hun e he).append (hx _)⟩
  | cancelling rows => exact Batch.append h fun r _ => hx _
  | cancelWrite row rows => exact ⟨h.1.append fun _ _ => hx _, h.2⟩
  | claimWrite row => exact Owned.append h (hx _)
  | spawn row => exact Owned.append h (hx _)
  | recoverStale => exact h
  | timeoutWrite e now keys => exact h
  | reap => trivial
  | cancels => trivial
  | timeouts => trivial
  | timing now keys => trivial
  | claim => trivial
  | waiting => trivial
  | draining => trivial
  | stopped => trivial

/-- A version that does not have the loop end a job leaves the loop with what it
answers for. -/
theorem LoopOk.append {active : List Active} {pc : LoopPc} (h : LoopOk queue active pc)
    (hx : ∀ queueId, Spares x queueId) : LoopOk (x :: queue) active pc :=
  ⟨h.activeOk.append fun _ _ => hx _, h.pcOk.append hx⟩

theorem spares_of_ne {queueId : ℕ} (h : x.queueId ≠ queueId) : Spares x queueId :=
  fun _ _ => h

theorem spares_of_writer (h : x.writtenBy ≠ .loop) (queueId : ℕ) : Spares x queueId :=
  fun hw _ => absurd hw h

theorem spares_of_live (h : ¬ x.Terminal) (queueId : ℕ) : Spares x queueId :=
  fun _ ht => absurd ht h

theorem not_mem_ne {α : Type} {l : List α} {f : α → ℕ} {k : ℕ} (h : k ∉ l.map f) {a : α}
    (ha : a ∈ l) : k ≠ f a :=
  fun hk => h (hk ▸ List.mem_map_of_mem ha)

section Steps

variable {cfg : LoopConfig} {s s' : QueueState} {active active' : List Active}
variable {pc pc' : LoopPc} {o : Outcome}

/-- A step that leaves the table alone. -/
theorem LoopOk.rest (hL : LoopOk s.queue active' pc') (hq : s'.queue = s.queue)
    (hw : nextWrite (.loop active pc) o = none) :
    LoopAppends s s' active pc o ∧ LoopOk s'.queue active' pc' :=
  ⟨.inl ⟨hq, hw⟩, hq.symm ▸ hL⟩

/-- A step that ends a job. -/
theorem LoopOk.markTerminal {row : QueueRow} {status : QueueStatus} {errorText : Option String}
    (hL : LoopOk (markTerminal s row status errorText).queue active' pc')
    (hw : nextWrite (.loop active pc) o = some (.loop, row)) :
    LoopAppends s (markTerminal s row status errorText) active pc o ∧
      LoopOk (markTerminal s row status errorText).queue active' pc' :=
  ⟨.inr ⟨row, hw, write_appends s .loop row status row.userId errorText⟩, hL⟩

/-- **Recovery at boot** ends rows that it has listed as running, each once. It tracks no child
yet. -/
theorem recoverStep_ok (hn : Numbered s.queue) (ha : Absorbing s.queue)
    (hL : LoopOk s.queue active pc)
    (h : recoverStep s active pc o = some (s', active', pc')) :
    LoopAppends s s' active pc o ∧ LoopOk s'.queue active' pc' := by
  obtain ⟨hact, hpc⟩ := hL
  unfold recoverStep at h
  split at h
  -- the rows still running are read
  · obtain ⟨rfl, rfl, rfl⟩ := by simpa using h
    exact LoopOk.rest ⟨hact, hpc, batch_listByStatus hn ha rfl⟩ rfl rfl
  · obtain ⟨rfl, rfl, rfl⟩ := by simpa using h
    exact LoopOk.rest ⟨hact, trivial⟩ rfl rfl
  · obtain ⟨rfl, rfl, rfl⟩ := by simpa using h
    exact LoopOk.rest ⟨hact, trivial⟩ rfl rfl
  -- one of them is ended; the others are other jobs, and there are no children yet
  · rename_i row rows
    obtain ⟨rfl, rfl, rfl⟩ := by simpa using h
    obtain ⟨rfl, hb⟩ := hpc
    refine LoopOk.markTerminal ⟨hact.append fun e he => absurd he List.not_mem_nil, rfl,
      hb.tail.append fun r hr => spares_of_ne ?_⟩ rfl
    exact not_mem_ne (List.nodup_cons.mp hb.apart).1 hr
  · exact absurd h (by simp)

/-- **Reaping** ends a job only after a re-read, and has dropped it from the table of children
before. -/
theorem reapStep_ok (hL : LoopOk s.queue active pc)
    (h : reapStep s active pc o = some (s', active', pc')) :
    LoopAppends s s' active pc o ∧ LoopOk s'.queue active' pc' := by
  obtain ⟨hact, hpc⟩ := hL
  unfold reapStep at h
  split at h
  -- the children that have ended are collected
  · obtain ⟨rfl, rfl, rfl⟩ := by simpa using h
    exact LoopOk.rest ⟨hact, (List.filter_sublist.map _).nodup hact.apart,
      fun e he => hact.unended (List.mem_filter.mp he).1⟩ rfl rfl
  · obtain ⟨rfl, rfl, rfl⟩ := by simpa using h
    exact LoopOk.rest ⟨hact, trivial⟩ rfl rfl
  -- the next of them leaves the table, and its job is read
  · rename_i e finished
    obtain ⟨hnd, hun⟩ := hpc
    have hrest : LoopOk s.queue (popActive active e.queueId) (.reaping finished) :=
      ⟨hact.pop _, (List.nodup_cons.mp hnd).2, fun e' he' => hun e' (List.mem_cons_of_mem _ he')⟩
    dsimp only at h
    split at h
    · obtain ⟨rfl, rfl, rfl⟩ := by simpa using h
      exact hrest.rest rfl rfl
    · split at h
      · obtain ⟨rfl, rfl, rfl⟩ := by simpa using h
        exact hrest.rest rfl rfl
      · rename_i latest hlatest
        obtain ⟨hmem, hk⟩ := getActive_mem hlatest
        split at h
        · rename_i hrunning
          obtain ⟨rfl, rfl, rfl⟩ := by simpa using h
          have hown : Owned s.queue latest :=
            ⟨⟨hmem, not_terminal_of_status hrunning rfl⟩, hk ▸ hun e List.mem_cons_self⟩
          refine LoopOk.rest ⟨hact.pop _, hown, hk ▸ not_mem_popActive active e.queueId, ?_,
            fun e' he' => hun e' (List.mem_cons_of_mem _ he')⟩ rfl rfl
          rw [hk]
          exact hnd
        · obtain ⟨rfl, rfl, rfl⟩ := by simpa using h
          exact hrest.rest rfl rfl
  -- a job that crashed is ended; it has left the table and is not reaped again
  · rename_i latest code finished
    obtain ⟨rfl, rfl, rfl⟩ := by simpa using h
    obtain ⟨-, hnact, hnd, hun⟩ := hpc
    obtain ⟨hnfin, hnd⟩ := List.nodup_cons.mp hnd
    exact LoopOk.markTerminal ⟨hact.append fun e he => spares_of_ne (not_mem_ne hnact he), hnd,
      fun e he => (hun e he).append (spares_of_ne (not_mem_ne hnfin he))⟩ rfl
  · exact absurd h (by simp)

/-- **Honouring cancels** ends rows listed as cancel-requested, one after the other. -/
theorem cancelStep_ok (hn : Numbered s.queue) (ha : Absorbing s.queue)
    (hL : LoopOk s.queue active pc)
    (h : cancelStep s active pc o = some (s', active', pc')) :
    LoopAppends s s' active pc o ∧ LoopOk s'.queue active' pc' := by
  obtain ⟨hact, hpc⟩ := hL
  unfold cancelStep at h
  split at h
  -- the requests are read
  · obtain ⟨rfl, rfl, rfl⟩ := by simpa using h
    exact LoopOk.rest ⟨hact, batch_listByStatus hn ha rfl⟩ rfl rfl
  · obtain ⟨rfl, rfl, rfl⟩ := by simpa using h
    exact LoopOk.rest ⟨hact, trivial⟩ rfl rfl
  -- the child of the next of them, if it has one, is stopped and leaves the table
  · rename_i row rows
    split at h
    · rename_i hnone
      obtain ⟨rfl, rfl, rfl⟩ := by simpa using h
      refine LoopOk.rest ⟨hact, hpc, fun hk => ?_⟩ rfl rfl
      obtain ⟨e, he, hke⟩ := List.mem_map.mp hk
      exact absurd (decide_eq_true hke) (List.find?_eq_none.mp hnone e he)
    · exact absurd h (by simp)
    · obtain ⟨s'', hstop, heq⟩ := Option.map_eq_some_iff.mp h
      obtain ⟨rfl, rfl, rfl⟩ := by simpa using heq
      exact LoopOk.rest ⟨hact.pop _, hpc, not_mem_popActive active row.queueId⟩
        (stopChild_queue hstop) rfl
  -- its job is ended; it is in no other request, and has no child
  · rename_i row rows
    obtain ⟨rfl, rfl, rfl⟩ := by simpa using h
    obtain ⟨hb, hnact⟩ := hpc
    refine LoopOk.markTerminal ⟨hact.append fun e he => spares_of_ne (not_mem_ne hnact he),
      hb.tail.append fun r hr => spares_of_ne ?_⟩ rfl
    exact not_mem_ne (List.nodup_cons.mp hb.apart).1 hr
  · exact absurd h (by simp)

/-- **The timeout** ends a job of the table of children by the row kept there, when it drops it.
-/
theorem timeoutStep_ok (hL : LoopOk s.queue active pc)
    (h : timeoutStep cfg s active pc o = some (s', active', pc')) :
    LoopAppends s s' active pc o ∧ LoopOk s'.queue active' pc' := by
  obtain ⟨hact, hpc⟩ := hL
  unfold timeoutStep at h
  split at h
  · obtain ⟨rfl, rfl, rfl⟩ := by simpa using h
    exact LoopOk.rest ⟨hact, trivial⟩ rfl rfl
  · obtain ⟨rfl, rfl, rfl⟩ := by simpa using h
    exact LoopOk.rest ⟨hact, trivial⟩ rfl rfl
  -- the next child is left alone, or killed
  · rename_i now queueId keys
    split at h
    · exact absurd h (by simp)
    · rename_i e hfind
      split at h
      · split at h
        · obtain ⟨rfl, rfl, rfl⟩ := by simpa using h
          exact LoopOk.rest ⟨hact, trivial⟩ rfl rfl
        · exact absurd h (by simp)
      · obtain ⟨s'', hstop, heq⟩ := Option.map_eq_some_iff.mp h
        obtain ⟨rfl, rfl, rfl⟩ := by simpa using heq
        exact LoopOk.rest ⟨hact, List.mem_of_find?_eq_some hfind⟩ (stopChild_queue hstop) rfl
  -- its job is ended, and it leaves the table
  · rename_i e now keys
    obtain ⟨rfl, rfl, rfl⟩ := by simpa using h
    obtain ⟨hk, -⟩ := hact.owned e hpc
    refine LoopOk.markTerminal
      ⟨(hact.pop e.queueId).append fun e' he' => spares_of_ne ?_, trivial⟩ rfl
    show e.row.queueId ≠ e'.queueId
    rw [hk]
    exact ((mem_popActive.mp he').2).symm
  · exact absurd h (by simp)

/-- **Claiming** writes that a job runs, which ends nothing, and puts the job into the table when
its child has been started. -/
theorem claimStep_ok (hn : Numbered s.queue) (ha : Absorbing s.queue)
    (hL : LoopOk s.queue active pc)
    (h : claimStep cfg s active pc o = some (s', active', pc')) :
    LoopAppends s s' active pc o ∧ LoopOk s'.queue active' pc' := by
  obtain ⟨hact, hpc⟩ := hL
  unfold claimStep at h
  split at h
  -- the first queued row is claimed
  · split at h
    · split at h
      · obtain ⟨rfl, rfl, rfl⟩ := by simpa using h
        exact LoopOk.rest ⟨hact, trivial⟩ rfl rfl
      · rename_i row rows hrows
        obtain ⟨rfl, rfl, rfl⟩ := by simpa using h
        have hrow : row ∈ inRunOrder (listByStatus s.queue .queued) :=
          hrows ▸ List.mem_cons_self
        exact LoopOk.rest
          ⟨hact, (batch_listByStatus hn ha rfl).owned row (mem_inRunOrder.mp hrow)⟩ rfl rfl
    · obtain ⟨rfl, rfl, rfl⟩ := by simpa using h
      exact LoopOk.rest ⟨hact, trivial⟩ rfl rfl
  -- a claim ends no job
  · rename_i row
    obtain ⟨rfl, rfl, rfl⟩ := by simpa using h
    have hx := spares_of_live (x := { row with
      queueVid := nextQueueVid s.queue row.queueId, transactFromTs := s.clock,
      queueStatus := .running, errorText := none, userId := row.userId, writtenBy := .loop })
      Bool.false_ne_true
    exact ⟨.inr ⟨row, rfl, write_appends s .loop row .running row.userId none⟩,
      LoopOk.append ⟨hact, hpc⟩ hx⟩
  · rename_i row
    obtain ⟨rfl, rfl, rfl⟩ := by simpa using h
    exact LoopOk.rest ⟨hact.set rfl hpc, trivial⟩ rfl rfl
  · obtain ⟨rfl, rfl, rfl⟩ := by simpa using h
    exact LoopOk.rest ⟨hact, trivial⟩ rfl rfl
  · obtain ⟨rfl, rfl, rfl⟩ := by simpa using h
    exact LoopOk.rest ⟨hact, trivial⟩ rfl rfl
  · obtain ⟨rfl, rfl, rfl⟩ := by simpa using h
    exact LoopOk.rest ⟨hact, trivial⟩ rfl rfl
  · obtain ⟨rfl, rfl, rfl⟩ := by simpa using h
    exact LoopOk.rest ⟨hact, trivial⟩ (endProc_foldl_queue _ _) rfl
  · exact absurd h (by simp)

/-- **The loop keeps what it answers for.** A step of the loop appends the
version it decided on, or nothing, and never ends a job of which it still holds
a row. -/
theorem stepLoop_ok (hn : Numbered s.queue) (ha : Absorbing s.queue)
    (hL : LoopOk s.queue active pc)
    (h : stepLoop cfg s active pc o = some (s', active', pc')) :
    LoopAppends s s' active pc o ∧ LoopOk s'.queue active' pc' := by
  unfold stepLoop at h
  split at h
  · exact recoverStep_ok hn ha hL h
  · exact recoverStep_ok hn ha hL h
  · exact reapStep_ok hL h
  · exact reapStep_ok hL h
  · exact reapStep_ok hL h
  · exact cancelStep_ok hn ha hL h
  · exact cancelStep_ok hn ha hL h
  · exact cancelStep_ok hn ha hL h
  · exact timeoutStep_ok hL h
  · exact timeoutStep_ok hL h
  · exact timeoutStep_ok hL h
  all_goals exact claimStep_ok hn ha hL h

end Steps

end Queue
