import QuantStrategies.Lib.StableSort
import QuantStrategies.Queue.Slots

/-!
# The head of the queue

`SP_GET_QUEUE` lists the jobs of a status newest first, under a limit, and the
order in which they run is put on top of that list. The loop claims from the
newest thousand, and a user is shown a position among the newest five hundred.

Up to that many the list is the queue: what is claimed comes first of all, and a
position counts what runs before. Beyond it the jobs that are cut off are the
ones that wait longest. They are at position 0, and newer jobs pass them.
-/

namespace Queue

/-! ## The definitions -/

/-- `sp_get_queue`, by a status: open rows, newest first, at most so many. -/
def spGetQueue (queue : List QueueRow) (status : QueueStatus) (limit : ℕ) : List QueueRow :=
  ((openRows queue).filter (fun r => r.queueStatus = status)).take limit

/-- `queued_position`: counted from one in run order, 0 where the job is not found. -/
def queuedPosition (queue : List QueueRow) (queueId : ℕ) : ℕ :=
  match (inRunOrder (spGetQueue queue .queued 500)).findIdx? (fun r => r.queueId = queueId) with
  | some i => i + 1
  | none => 0

/-- The jobs that wait, newest first. -/
def queuedJobs (queue : List QueueRow) : List QueueRow :=
  (openRows queue).filter (fun r => r.queueStatus = .queued)

/-- The primary key of `BT.QUEUE`. -/
def PrimaryKey (queue : List QueueRow) : Prop :=
  (queue.map fun r => (r.queueId, r.queueVid)).Nodup

/-- A job is to run sooner than another: by priority, then by the time it was queued. -/
def RunsSooner (a b : QueueRow) : Prop :=
  a.priority < b.priority ∨ (a.priority = b.priority ∧ a.transactFromTs < b.transactFromTs)

instance : DecidableRel RunsSooner := fun a b =>
  inferInstanceAs (Decidable (a.priority < b.priority ∨
    (a.priority = b.priority ∧ a.transactFromTs < b.transactFromTs)))

/-- Jobs of one priority, queued at one time. -/
def Level (a b : QueueRow) : Prop :=
  a.priority = b.priority ∧ a.transactFromTs = b.transactFromTs

instance : DecidableRel Level := fun a b =>
  inferInstanceAs (Decidable (a.priority = b.priority ∧ a.transactFromTs = b.transactFromTs))

/-- How many of all the jobs that wait run before one of them. Of jobs that are level the
one that is listed first runs first. -/
def jobsBefore (queue : List QueueRow) (q : QueueRow) : ℕ :=
  (queuedJobs queue).countP (fun a => RunsSooner a q) +
    ((queuedJobs queue).takeWhile (fun a => a ≠ q)).countP (fun a => Level a q)

/-- **The head of the queue is the true head**: what is claimed is a job before which no
job is to run, and the position of a job counts the jobs before it. -/
structure TrueHead (s : QueueState) : Prop where
  /-- What is claimed waits, and no job that waits is to run sooner. -/
  claims : ∀ q ∈ queuedJobs s.queue, ∃ row s', claimNext s = some (row, s') ∧
    row ∈ queuedJobs s.queue ∧ ¬ RunsSooner q row
  /-- The position shown is the number of jobs that run before, and one. -/
  position : ∀ q ∈ queuedJobs s.queue,
    queuedPosition s.queue q.queueId = 1 + jobsBefore s.queue q

/-! ## The order -/

variable {queue : List QueueRow} {s : QueueState} {a b q r : QueueRow}

theorem runsSooner_iff : RunsSooner a b ↔ ¬ runsBefore b a := by
  unfold RunsSooner runsBefore
  omega

/-- Two jobs are level when neither is sorted strictly before the other. -/
theorem level_iff : Level a b ↔ runsBefore b a ∧ runsBefore a b := by
  unfold Level runsBefore
  omega

instance : IsTrans QueueRow runsBefore :=
  ⟨fun a b c hab hbc => by unfold runsBefore at *; omega⟩

instance : Std.Total runsBefore := ⟨fun a b => by unfold runsBefore; omega⟩

/-! ## What is listed -/

/-- A job has one open row. -/
theorem openRows_nodup (hk : PrimaryKey queue) : ((openRows queue).map (·.queueId)).Nodup := by
  refine List.Nodup.map_on (fun r hr r' hr' hid => ?_)
    ((List.Nodup.of_map _ hk).sublist (openRows_sublist queue))
  have hmem := (openRows_sublist queue).mem hr
  have hmem' := (openRows_sublist queue).mem hr'
  have hvid : r.queueVid = r'.queueVid :=
    le_antisymm (openRows_newest hr' hmem hid) (openRows_newest hr hmem' hid.symm)
  exact List.inj_on_of_nodup_map hk hmem hmem' (Prod.ext hid hvid)

/-- No job waits twice. -/
theorem queuedJobs_nodup (hk : PrimaryKey queue) :
    ((queuedJobs queue).map (·.queueId)).Nodup :=
  (openRows_nodup hk).sublist (List.filter_sublist.map _)

/-- Up to the limit, the list is all the jobs that wait. -/
theorem spGetQueue_eq {limit : ℕ} (h : (queuedJobs queue).length ≤ limit) :
    spGetQueue queue .queued limit = queuedJobs queue :=
  List.take_of_length_le h

/-- The loop's list is the first thousand of them, newest first. -/
theorem listByStatus_queued : listByStatus queue .queued = (queuedJobs queue).take 1000 := rfl

/-- Jobs that have been written once are all open. -/
theorem queuedJobs_eq_self (h : ∀ r ∈ queue, r.queueVid = 1 ∧ r.queueStatus = .queued) :
    queuedJobs queue = queue := by
  have hopen : openRows queue = queue := by
    refine List.filter_eq_self.mpr fun r hr => List.all_eq_true.mpr fun r' hr' => ?_
    rw [decide_eq_true_eq, (h r hr).1, (h r' hr').1]
    exact fun _ => le_rfl
  rw [queuedJobs, hopen]
  exact List.filter_eq_self.mpr fun r hr => decide_eq_true (h r hr).2

/-- The place of a job among jobs with different ids. -/
theorem findIdx?_eq {rows : List QueueRow} (hrows : (rows.map (·.queueId)).Nodup) (hq : q ∈ rows) :
    rows.findIdx? (fun r => r.queueId = q.queueId) = some (rows.idxOf q) := by
  induction rows with
  | nil => cases hq
  | cons b rows ih =>
    obtain ⟨hb, hrows⟩ := List.nodup_cons.mp hrows
    rw [List.findIdx?_cons]
    by_cases hid : b.queueId = q.queueId
    · obtain rfl | hmem := List.mem_cons.mp hq
      · simp
      · exact absurd (List.mem_map.mpr ⟨q, hmem, hid.symm⟩) hb
    · have hne : b ≠ q := fun h => hid (h ▸ rfl)
      have hmem : q ∈ rows := (List.mem_cons.mp hq).resolve_left fun h => hne h.symm
      rw [if_neg (by simpa using hid), ih hrows hmem, List.idxOf_cons_ne _ hne]
      rfl

/-- The place of a job in run order. -/
theorem idxOf_inRunOrder {rows : List QueueRow} (hrows : rows.Nodup) (hq : q ∈ rows) :
    (inRunOrder rows).idxOf q = rows.countP (fun a => RunsSooner a q) +
      (rows.takeWhile (fun a => a ≠ q)).countP (fun a => Level a q) := by
  rw [inRunOrder, StableSort.idxOf_insertionSort hrows hq, StableSort.ahead]
  simp only [runsSooner_iff, level_iff]

/-- What stands first in run order: nothing is to run sooner. -/
theorem head_inRunOrder {rows rest : List QueueRow} (h : inRunOrder rows = r :: rest)
    (hq : q ∈ rows) : ¬ RunsSooner q r := by
  have hsorted : (r :: rest).Pairwise runsBefore := h ▸ List.pairwise_insertionSort runsBefore rows
  rw [runsSooner_iff, not_not]
  rcases List.mem_cons.mp (h ▸ mem_inRunOrder.mpr hq) with rfl | hmem
  · exact (Std.Total.total q q).elim id id
  · exact (List.pairwise_cons.mp hsorted).1 q hmem

/-! ## Long queues -/

/-- Every position counts while the queue is no longer than the list. -/
theorem queuedPosition_eq (hk : PrimaryKey queue) (h : (queuedJobs queue).length ≤ 500)
    (hq : q ∈ queuedJobs queue) : queuedPosition queue q.queueId = 1 + jobsBefore queue q := by
  have hids : ((inRunOrder (queuedJobs queue)).map (·.queueId)).Nodup :=
    ((List.perm_insertionSort _ _).map _).nodup_iff.mpr (queuedJobs_nodup hk)
  rw [queuedPosition, spGetQueue_eq h, findIdx?_eq hids (mem_inRunOrder.mpr hq),
    idxOf_inRunOrder (List.Nodup.of_map _ (queuedJobs_nodup hk)) hq]
  exact Nat.add_comm _ 1

/-- The loop claims a job before which nothing listed is to run. -/
theorem claimNext_head (hq : q ∈ listByStatus s.queue .queued) :
    ∃ row s', claimNext s = some (row, s') ∧ row ∈ listByStatus s.queue .queued ∧
      ¬ RunsSooner q row := by
  unfold claimNext
  cases hrows : inRunOrder (listByStatus s.queue .queued) with
  | nil => exact absurd (hrows ▸ mem_inRunOrder.mpr hq) List.not_mem_nil
  | cons row rest =>
    exact ⟨row, _, rfl, mem_inRunOrder.mp (hrows ▸ List.mem_cons_self), head_inRunOrder hrows hq⟩

/-- A queue longer than the list has a job that is at position 0. -/
theorem exists_queuedPosition_zero (hk : PrimaryKey queue)
    (h : 500 < (queuedJobs queue).length) :
    ∃ q ∈ queuedJobs queue, queuedPosition queue q.queueId = 0 := by
  refine ⟨(queuedJobs queue)[500], List.getElem_mem h, ?_⟩
  have hnone : (inRunOrder (spGetQueue queue .queued 500)).findIdx?
      (fun r => r.queueId = (queuedJobs queue)[500].queueId) = none := by
    refine List.findIdx?_eq_none_iff.mpr fun r hr => decide_eq_false fun hid => ?_
    obtain ⟨i, hi, hget⟩ := List.mem_take_iff_getElem.mp (mem_inRunOrder.mp hr)
    have hlt : i < 500 := lt_of_lt_of_le hi (min_le_left _ _)
    have hids := queuedJobs_nodup hk
    rw [List.Nodup, List.pairwise_iff_getElem] at hids
    refine hids i 500 (by rw [List.length_map]; omega) (by rwa [List.length_map]) hlt ?_
    rw [List.getElem_map, List.getElem_map]
    exact (congrArg QueueRow.queueId hget).trans hid
  rw [queuedPosition, hnone]

/-- **How far the head is the true head**: for queues of up to five hundred jobs. The rank of a
job is counted in a listing that is cut at five hundred jobs. -/
theorem trueHead_iff (hk : PrimaryKey s.queue) :
    TrueHead s ↔ (queuedJobs s.queue).length ≤ 500 := by
  refine ⟨fun h => ?_, fun h => ⟨fun q hq => ?_, fun q hq => queuedPosition_eq hk h hq⟩⟩
  · by_contra hlt
    obtain ⟨q, hq, hzero⟩ := exists_queuedPosition_zero hk (not_le.mp hlt)
    have hpos := h.position q hq
    omega
  · have hlist : listByStatus s.queue .queued = queuedJobs s.queue :=
      spGetQueue_eq (le_trans h (by decide))
    obtain ⟨row, s', hclaim, hrow, hsooner⟩ := claimNext_head (hlist ▸ hq)
    exact ⟨row, s', hclaim, hlist ▸ hrow, hsooner⟩

/-- A job as it is queued, all of them at one priority. -/
def queuedJob (i : ℕ) : QueueRow :=
  ⟨i, 1, 0, 1, i, .queued, 100, none, "alice", .api⟩

/-- So many jobs, queued one after the other. -/
def manyJobs : ℕ → List QueueRow
  | 0 => []
  | n + 1 => queuedJob n :: manyJobs n

theorem mem_manyJobs {n : ℕ} : r ∈ manyJobs n ↔ ∃ i < n, r = queuedJob i := by
  induction n with
  | zero => simp [manyJobs]
  | succ n ih =>
    rw [manyJobs, List.mem_cons, ih]
    constructor
    · rintro (rfl | ⟨i, hi, rfl⟩)
      · exact ⟨n, Nat.lt_succ_self n, rfl⟩
      · exact ⟨i, Nat.lt_succ_of_lt hi, rfl⟩
    · rintro ⟨i, hi, rfl⟩
      rcases Nat.lt_succ_iff_lt_or_eq.mp hi with hlt | rfl
      · exact .inr ⟨i, hlt, rfl⟩
      · exact .inl rfl

theorem primaryKey_manyJobs (n : ℕ) : PrimaryKey (manyJobs n) := by
  induction n with
  | zero => exact List.nodup_nil
  | succ n ih =>
    refine List.nodup_cons.mpr ⟨fun h => ?_, ih⟩
    obtain ⟨r, hr, hkey⟩ := List.mem_map.mp h
    obtain ⟨i, hi, rfl⟩ := mem_manyJobs.mp hr
    exact hi.ne (Prod.ext_iff.mp hkey).1

theorem queuedJobs_manyJobs (n : ℕ) : queuedJobs (manyJobs n) = manyJobs n := by
  refine queuedJobs_eq_self fun r hr => ?_
  obtain ⟨i, -, rfl⟩ := mem_manyJobs.mp hr
  exact ⟨rfl, rfl⟩

/-- The newest of them do not reach down to the oldest. -/
theorem le_of_mem_take_manyJobs {m k : ℕ} (h : r ∈ (manyJobs (m + k)).take k) :
    (m : ℤ) ≤ r.transactFromTs := by
  induction k with
  | zero => simp at h
  | succ k ih =>
    rw [← Nat.add_assoc, manyJobs, List.take_succ_cons] at h
    rcases List.mem_cons.mp h with rfl | h
    · exact Int.ofNat_le.mpr (Nat.le_add_right m k)
    · exact ih h

/-- Two jobs that wait. -/
theorem trueHead_two : TrueHead ⟨0, manyJobs 2, []⟩ ↔ (queuedJobs (manyJobs 2)).length ≤ 500 :=
  trueHead_iff (primaryKey_manyJobs 2)

/-- Of a thousand and one jobs the oldest is not the one that is claimed. -/
theorem oldest_passed_over : ¬ ∀ s : QueueState, PrimaryKey s.queue → TrueHead s := by
  intro h
  have hhead : TrueHead ⟨0, manyJobs (1 + 1000), []⟩ := h _ (primaryKey_manyJobs _)
  have holdest : queuedJob 0 ∈ queuedJobs (manyJobs (1 + 1000)) := by
    rw [queuedJobs_manyJobs]
    exact mem_manyJobs.mpr ⟨0, by decide, rfl⟩
  obtain ⟨row, s', hclaim, hrow, hsooner⟩ := hhead.claims _ holdest
  have hlisted := (claimNext_eq_some hclaim).1
  rw [listByStatus_queued, queuedJobs_manyJobs] at hlisted
  have hlate := le_of_mem_take_manyJobs hlisted
  rw [queuedJobs_manyJobs] at hrow
  obtain ⟨i, -, rfl⟩ := mem_manyJobs.mp hrow
  exact hsooner (.inr ⟨rfl, lt_of_lt_of_le Int.zero_lt_one hlate⟩)

end Queue
