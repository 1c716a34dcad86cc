import QuantStrategies.Queue.ResultRows

/-!
# The current result of a version

A version of a strategy that is backtested again gets another result, and only the last one
is to be current: it is what the live path trades on. `SP_INS_RESULT` reads the highest
number and turns off the current results, and inserts its own when it is through. Another
transaction may have committed a result of the version in between, which it has not seen:
then both are current, and both may have one number (`two_current_results`).

A procedure is *timely* when it commits while nobody else has stored a result of the version
since it looked. In runs where all are, the newest result of a version is the current one,
and no other is; and the next one to commit keeps it so exactly when it is timely.

The procedure is taken statement by statement: its look at the highest number, its list of
current results, and its commit. `StageKnows` is what it has seen, and `Timely` compares it
with the tables as they are when it commits. The numbers of the versions come from a library
of numbered rows, which knows nothing of results.
-/

namespace Queue

variable {π : Type}

/-- The newest result of a version. -/
def newestResult (results : List (ResultRow π)) (version : ℕ × ℕ) : Option (ResultRow π) :=
  results.find? (fun r => r.version = version)

/-- The current results of a version. -/
def currentResults (results : List (ResultRow π)) (version : ℕ × ℕ) : List (ResultRow π) :=
  results.filter (fun r => r.version = version ∧ r.isCurrentInd)

/-- The newest result of a version is the current one, and the numbers grow. -/
structure OneCurrent (results : List (ResultRow π)) : Prop where
  /-- The results of a version are numbered in the order they came. -/
  numbered : Versioned.Numbered ResultRow.version ResultRow.resultVid results
  /-- Its current result is the newest one, and no other. -/
  current : ∀ version, currentResults results version = (newestResult results version).toList

/-- A procedure that commits has seen the results of the version that there are. -/
def Timely (s : ResultState π) : ResultAgent π → ResultOutcome π → Prop
  | .insResult _ _ resultId _ (.insert _ strategyId strategyVid resultVid current), .next =>
      resultId ∉ s.results.map ResultRow.resultId →
        resultVid = nextResultVid s.results (strategyId, strategyVid) ∧
          ∀ id ∈ currentIds s.results (strategyId, strategyVid), id ∈ current
  | _, _ => True

instance (s : ResultState π) (w : ResultAgent π) (a : ResultOutcome π) :
    Decidable (Timely s w a) := by
  unfold Timely
  split <;> infer_instance

/-- What a procedure knows of the results: the number that it has read has not been above the
next one, and the rows that it has found are of the version. -/
def StageKnows (s : ResultState π) : ResultAgent π → Prop
  | .insResult _ _ _ _ (.flip _ strategyId strategyVid resultVid) =>
      0 < resultVid ∧ resultVid ≤ nextResultVid s.results (strategyId, strategyVid)
  | .insResult _ _ _ _ (.insert _ strategyId strategyVid resultVid current) =>
      (0 < resultVid ∧ resultVid ≤ nextResultVid s.results (strategyId, strategyVid)) ∧
        ∀ id ∈ current, ∃ r ∈ s.results, r.resultId = id ∧ r.version = (strategyId, strategyVid)
  | _ => True

/-! ## The table after an insertion -/

section Table

variable {rows : List (ResultRow π)} {current : List ℕ} {x : ResultRow π} {version : ℕ × ℕ}

/-- The ids that the procedure turns off are those of the version's current results. -/
theorem mem_currentIds {id : ℕ} : id ∈ currentIds rows version ↔
    ∃ r ∈ rows, r.resultId = id ∧ r.version = version ∧ r.isCurrentInd = true := by
  rw [currentIds, List.mem_map]
  refine exists_congr fun r => ?_
  rw [List.mem_filter, decide_eq_true_eq]
  exact ⟨fun ⟨⟨hr, hv, hc⟩, hid⟩ => ⟨hr, hid, hv, hc⟩, fun ⟨hr, hid, hv, hc⟩ => ⟨⟨hr, hv, hc⟩, hid⟩⟩

/-- Turning rows off does not touch what they are called by. -/
theorem filter_version_flip : ((rows.map (ResultRow.flip current)).filter
      (fun r => r.version = version)).map ResultRow.resultVid =
    (rows.filter (fun r => r.version = version)).map ResultRow.resultVid := by
  rw [List.filter_map, List.map_map]
  simp only [Function.comp_def, ResultRow.flip_version, ResultRow.flip_resultVid]

/-- Turning results off does not change which number comes next. -/
theorem nextResultVid_flip :
    nextResultVid (rows.map (ResultRow.flip current)) version = nextResultVid rows version := by
  unfold nextResultVid Versioned.nextVid
  rw [filter_version_flip]

theorem numbered_flip :
    Versioned.Numbered ResultRow.version ResultRow.resultVid (rows.map (ResultRow.flip current)) ↔
      Versioned.Numbered ResultRow.version ResultRow.resultVid rows := by
  unfold Versioned.Numbered
  rw [List.pairwise_map]
  simp only [ResultRow.flip_version, ResultRow.flip_resultVid]

/-- The number that comes next never goes down. -/
theorem nextResultVid_le : nextResultVid rows version ≤
    nextResultVid (x :: rows.map (ResultRow.flip current)) version := by
  calc nextResultVid rows version
      = nextResultVid (rows.map (ResultRow.flip current)) version := nextResultVid_flip.symm
    _ ≤ nextResultVid (x :: rows.map (ResultRow.flip current)) version :=
      Versioned.nextVid_le_cons

/-- The rows found are of the version `x` is of, and nobody else has their ids. -/
theorem flip_of_ne (hids : (rows.map ResultRow.resultId).Nodup)
    (hfound : ∀ id ∈ current, ∃ r ∈ rows, r.resultId = id ∧ r.version = x.version)
    {r : ResultRow π} (hr : r ∈ rows) (hne : r.version ≠ x.version) : r.flip current = r := by
  refine if_neg fun hid => ?_
  obtain ⟨r', hr', hid', hv⟩ := hfound _ hid
  exact hne (List.inj_on_of_nodup_map hids hr' hr hid' ▸ hv)

/-- The row that is inserted is the newest of its version, and the only current one when those
there were have been found. -/
theorem currentResults_insert (hcur : x.isCurrentInd = true) :
    currentResults (x :: rows.map (ResultRow.flip current)) x.version =
        (newestResult (x :: rows.map (ResultRow.flip current)) x.version).toList ↔
      ∀ id ∈ currentIds rows x.version, id ∈ current := by
  have hx : decide (x.version = x.version ∧ x.isCurrentInd = true) = true :=
    decide_eq_true ⟨rfl, hcur⟩
  have hfind : (x :: rows.map (ResultRow.flip current)).find?
      (fun r => r.version = x.version) = some x := List.find?_cons_of_pos (decide_eq_true rfl)
  unfold currentResults newestResult
  rw [List.filter_cons, if_pos hx, hfind, Option.toList_some, List.cons_eq_cons,
    and_iff_right rfl, List.filter_eq_nil_iff]
  constructor
  · intro h id hid
    obtain ⟨r, hr, rfl, hv, hc⟩ := mem_currentIds.mp hid
    by_contra hnot
    refine h _ (List.mem_map_of_mem hr) (decide_eq_true ⟨?_, ?_⟩)
    · rw [ResultRow.flip_version, hv]
    · rw [ResultRow.flip, if_neg hnot, hc]
  · intro h r hr hc
    obtain ⟨r, hold, rfl⟩ := List.mem_map.mp hr
    obtain ⟨hv, hc⟩ := of_decide_eq_true hc
    by_cases hid : r.resultId ∈ current
    · rw [ResultRow.flip, if_pos hid] at hc
      exact Bool.false_ne_true hc
    · rw [ResultRow.flip_version] at hv
      rw [ResultRow.flip, if_neg hid] at hc
      exact hid (h _ (mem_currentIds.mpr ⟨r, hold, rfl, hv, hc⟩))

/-- The results of another version stay as they are. -/
theorem filter_insert_of_ne (hids : (rows.map ResultRow.resultId).Nodup)
    (hfound : ∀ id ∈ current, ∃ r ∈ rows, r.resultId = id ∧ r.version = x.version)
    (hne : version ≠ x.version) (p : ResultRow π → Bool) :
    (x :: rows.map (ResultRow.flip current)).filter (fun r => r.version = version && p r) =
      rows.filter (fun r => r.version = version && p r) := by
  rw [List.filter_cons, if_neg (fun h => hne ?_)]
  · rw [List.filter_map]
    have hsame : ∀ r ∈ rows, r.version = version → r.flip current = r := fun r hr hv =>
      flip_of_ne hids hfound hr (hv ▸ hne)
    have hcongr : rows.filter ((fun r => decide (r.version = version) && p r) ∘
          ResultRow.flip current) = rows.filter (fun r => r.version = version && p r) := by
      refine List.filter_congr fun r hr => ?_
      by_cases hv : r.version = version
      · rw [Function.comp_apply, hsame r hr hv]
      · simp [hv]
    rw [hcongr]
    refine (List.map_congr_left fun r hr => ?_).trans (List.map_id _)
    obtain ⟨hmem, hv⟩ := List.mem_filter.mp hr
    exact hsame r hmem (of_decide_eq_true (Bool.and_eq_true_iff.mp hv).1)
  · exact (of_decide_eq_true (Bool.and_eq_true_iff.mp h).1).symm

/-- **An insertion is an append to one version.** The others have the current results that
they had. -/
theorem oneCurrent_insert (h : OneCurrent rows) (hids : (rows.map ResultRow.resultId).Nodup)
    (hfound : ∀ id ∈ current, ∃ r ∈ rows, r.resultId = id ∧ r.version = x.version)
    (hcur : x.isCurrentInd = true) (hpos : 0 < x.resultVid)
    (hle : x.resultVid ≤ nextResultVid rows x.version) :
    OneCurrent (x :: rows.map (ResultRow.flip current)) ↔
      x.resultVid = nextResultVid rows x.version ∧
        ∀ id ∈ currentIds rows x.version, id ∈ current := by
  constructor
  · intro h'
    refine ⟨le_antisymm hle (Versioned.nextVid_le hpos fun r hr hv => ?_),
      (currentResults_insert hcur).mp (h'.current x.version)⟩
    have hlt := (List.pairwise_cons.mp h'.numbered).1 _ (List.mem_map_of_mem hr)
    rw [ResultRow.flip_version, ResultRow.flip_resultVid] at hlt
    exact hlt hv.symm
  · rintro ⟨hvid, hall⟩
    refine ⟨List.pairwise_cons.mpr ⟨fun r hr hv => ?_, numbered_flip.mpr h.numbered⟩,
      fun version => ?_⟩
    · obtain ⟨r, hold, rfl⟩ := List.mem_map.mp hr
      rw [ResultRow.flip_version] at hv
      rw [ResultRow.flip_resultVid, hvid]
      exact Versioned.lt_nextVid hold hv.symm
    · by_cases hv : version = x.version
      · rw [hv]
        exact (currentResults_insert hcur).mpr hall
      · have hcurrent := filter_insert_of_ne hids hfound hv ResultRow.isCurrentInd
        have hnewest := filter_insert_of_ne hids hfound hv (fun _ => true)
        simp only [Bool.and_true] at hnewest
        have hold := h.current version
        unfold currentResults newestResult at hold ⊢
        simp only [Bool.decide_and, Bool.decide_eq_true] at hold ⊢
        rw [hcurrent, hold, ← List.head?_filter, ← List.head?_filter, hnewest]

end Table

/-! ## The steps of a process -/

section Steps

variable {cfg : LoopConfig} {s s' : ResultState π} {w w' v : ResultAgent π} {a : ResultOutcome π}

/-- The commit of a procedure: its row, in front of those there were, under an id of its
own. -/
structure Commits (s s' : ResultState π) (x : ResultRow π) (current : List ℕ) : Prop where
  /-- Its row comes in front of the others, of which some are turned off. -/
  results : s'.results = x :: s.results.map (ResultRow.flip current)
  /-- Its id is a new one. -/
  fresh : x.resultId ∉ s.results.map ResultRow.resultId
  /-- Its row is current. -/
  current : x.isCurrentInd = true

/-- A step leaves the results alone, or it is the commit of a procedure. -/
theorem stepResult_results (h : stepResult cfg s w a = some (s', w')) :
    (s'.results = s.results ∧ (StageKnows s w → StageKnows s' w') ∧ Timely s w a) ∨
      ∃ x current, Commits s s' x current ∧ StageKnows s' w' ∧
        (StageKnows s w → (0 < x.resultVid ∧ x.resultVid ≤ nextResultVid s.results x.version) ∧
          ∀ id ∈ current, ∃ r ∈ s.results, r.resultId = id ∧ r.version = x.version) ∧
        (Timely s w a ↔ x.resultVid = nextResultVid s.results x.version ∧
          ∀ id ∈ currentIds s.results x.version, id ∈ current) := by
  have hexit {pid : ℕ} {code : ℤ} (h : exitWorker s pid code = some (s', w')) :
      s'.results = s.results ∧ StageKnows s' w' := by
    obtain ⟨-, rfl, rfl⟩ := exitWorker_eq_some h
    exact ⟨rfl, trivial⟩
  unfold stepResult at h
  split at h
  · split at h
    · obtain ⟨rfl, rfl⟩ := by simpa using h
      exact .inl ⟨rfl, fun _ => trivial, trivial⟩
    · cases h
  · cases h
  · obtain ⟨_, -, heq⟩ := Option.map_eq_some_iff.mp h
    obtain ⟨rfl, rfl⟩ := by simpa using heq
    exact .inl ⟨rfl, fun _ => trivial, trivial⟩
  -- a statement of the procedure
  · next pid job resultId payload stage =>
    split at h
    · cases stage with
      | keys =>
        simp only [insResult] at h
        cases hrow : fetchJob s.jobs.queue job.queueId with
        | none =>
          rw [hrow] at h
          obtain ⟨hr, hk⟩ := hexit h
          exact .inl ⟨hr, fun _ => hk, trivial⟩
        | some row =>
          rw [hrow] at h
          obtain ⟨rfl, rfl⟩ := by simpa using h
          exact .inl ⟨rfl, fun _ => trivial, trivial⟩
      | resultVid createdAt strategyId strategyVid =>
        obtain ⟨rfl, rfl⟩ := by simpa [insResult] using h
        exact .inl ⟨rfl, fun _ => ⟨Nat.succ_pos _, le_rfl⟩, trivial⟩
      | flip createdAt strategyId strategyVid resultVid =>
        obtain ⟨rfl, rfl⟩ := by simpa [insResult] using h
        refine .inl ⟨rfl, fun hk => ⟨hk, fun id hid => ?_⟩, trivial⟩
        obtain ⟨r, hr, hid, hv, -⟩ := mem_currentIds.mp hid
        exact ⟨r, hr, hid, hv⟩
      | insert createdAt strategyId strategyVid resultVid current =>
        by_cases hid : s.results.any (fun r => r.resultId = resultId) = true
        · simp only [insResult, if_pos hid] at h
          obtain ⟨hr, hk⟩ := hexit h
          refine .inl ⟨hr, fun _ => hk, fun hfresh => absurd ?_ hfresh⟩
          obtain ⟨r, hmem, hrid⟩ := List.any_eq_true.mp hid
          exact List.mem_map.mpr ⟨r, hmem, of_decide_eq_true hrid⟩
        · simp only [insResult, if_neg hid] at h
          obtain ⟨rfl, rfl⟩ := by simpa using h
          have hfresh : resultId ∉ s.results.map ResultRow.resultId := fun hmem => by
            obtain ⟨r, hr, hrid⟩ := List.mem_map.mp hmem
            exact hid (List.any_eq_true.mpr ⟨r, hr, decide_eq_true hrid⟩)
          exact .inr ⟨_, current, ⟨rfl, hfresh, rfl⟩, trivial, fun hk => hk,
            forall_prop_of_true hfresh⟩
    · cases h
  · split at h
    · obtain ⟨rfl, rfl⟩ := by simpa using h
      exact .inl ⟨rfl, fun _ => trivial, trivial⟩
    · cases h
  · split at h
    · obtain ⟨rfl, rfl⟩ := by simpa using h
      exact .inl ⟨rfl, fun _ => trivial, trivial⟩
    · cases h
  · obtain ⟨hr, hk⟩ := hexit h
    exact .inl ⟨hr, fun _ => hk, by simp [Timely]⟩
  · obtain ⟨hr, hk⟩ := hexit h
    exact .inl ⟨hr, fun _ => hk, trivial⟩
  · obtain ⟨hr, hk⟩ := hexit h
    exact .inl ⟨hr, fun _ => hk, trivial⟩
  · cases h

/-- What holds of the results in a run of timely procedures. -/
structure CurrentInv (s : ResultState π) : Prop where
  /-- No two results have one id. -/
  ids : (s.results.map ResultRow.resultId).Nodup
  /-- The newest result of each version is its current one. -/
  oneCurrent : OneCurrent s.results

/-- A commit keeps the ids apart. -/
theorem Commits.ids {x : ResultRow π} {current : List ℕ} (h : Commits s s' x current)
    (hids : (s.results.map ResultRow.resultId).Nodup) :
    (s'.results.map ResultRow.resultId).Nodup := by
  rw [h.results, List.map_cons, List.map_map]
  have hmap : s.results.map (ResultRow.resultId ∘ ResultRow.flip current) =
      s.results.map ResultRow.resultId :=
    List.map_congr_left fun r _ => ResultRow.flip_resultId _ _
  rw [hmap]
  exact List.nodup_cons.mpr ⟨h.fresh, hids⟩

/-- What a procedure knows stays true when another one commits. -/
theorem StageKnows.commits {x : ResultRow π} {current : List ℕ} (h : Commits s s' x current)
    (hv : StageKnows s v) : StageKnows s' v := by
  have hle (version : ℕ × ℕ) : nextResultVid s.results version ≤
      nextResultVid s'.results version := by
    rw [h.results]
    exact nextResultVid_le
  unfold StageKnows at hv ⊢
  split at hv
  · exact ⟨hv.1, hv.2.trans (hle _)⟩
  · refine ⟨⟨hv.1.1, hv.1.2.trans (hle _)⟩, fun id hid => ?_⟩
    obtain ⟨r, hr, hrid, hversion⟩ := hv.2 id hid
    refine ⟨r.flip current, ?_, (ResultRow.flip_resultId _ _).trans hrid,
      (ResultRow.flip_version _ _).trans hversion⟩
    rw [h.results]
    exact List.mem_cons_of_mem _ (List.mem_map_of_mem hr)
  · trivial

/-- **The step that comes next keeps one current result exactly when it is timely.** Every other
step leaves the results as they are, so that only the commit can go wrong. -/
theorem stepResult_oneCurrent (hI : CurrentInv s) (hw : StageKnows s w)
    (h : stepResult cfg s w a = some (s', w')) : OneCurrent s'.results ↔ Timely s w a := by
  obtain ⟨hr, -, ht⟩ | ⟨x, current, hc, -, hknows, ht⟩ := stepResult_results h
  · rw [hr]
    exact iff_of_true hI.oneCurrent ht
  · obtain ⟨⟨hpos, hle⟩, hfound⟩ := hknows hw
    rw [ht, hc.results]
    exact oneCurrent_insert hI.oneCurrent hI.ids hfound hc.current hpos hle

/-- **A timely step keeps it**, with what the process has seen. What it has seen is not outdated
by a step of its own. -/
theorem stepResult_currentInv (hI : CurrentInv s) (hw : StageKnows s w) (ht : Timely s w a)
    (h : stepResult cfg s w a = some (s', w')) : CurrentInv s' ∧ StageKnows s' w' := by
  have hone := (stepResult_oneCurrent hI hw h).mpr ht
  obtain ⟨hr, hk, -⟩ | ⟨x, current, hc, hk, -, -⟩ := stepResult_results h
  · exact ⟨⟨hr ▸ hI.ids, hone⟩, hk hw⟩
  · exact ⟨⟨hc.ids hI.ids, hone⟩, hk⟩

/-- What one process has seen stays seen when another moves: results are only added. -/
theorem stepResult_stage_other (hv : StageKnows s v)
    (h : stepResult cfg s w a = some (s', w')) : StageKnows s' v := by
  obtain ⟨hr, -, -⟩ | ⟨x, current, hc, -, -, -⟩ := stepResult_results h
  · unfold StageKnows at hv ⊢
    rw [hr]
    exact hv
  · exact hv.commits hc

end Steps

/-! ## Runs -/

/-- What is read by a version is its newest result, if that is not empty. -/
theorem fetchResultPayload_eq {results : List (ResultRow π)} (h : OneCurrent results)
    (isEmpty : π → Bool) (strategyId strategyVid : ℕ) :
    fetchResultPayload isEmpty results strategyId strategyVid =
      .ok (((newestResult results (strategyId, strategyVid)).map ResultRow.payloadJson).filter
        (!isEmpty ·)) := by
  have hrows : (results.filter (fun r => (none : Option ℕ).all (· = r.queueId) ∧
      (some strategyId).all (· = r.strategyId) ∧ (some strategyVid).all (· = r.strategyVid))).filter
        ResultRow.isCurrentInd = (newestResult results (strategyId, strategyVid)).toList := by
    rw [← h.current, currentResults, List.filter_filter]
    refine List.filter_congr fun r _ => Bool.eq_iff_iff.mpr ?_
    simp only [Bool.and_eq_true, decide_eq_true_eq, Option.all_none, Option.all_some, true_and,
      ResultRow.version, Prod.mk.injEq]
    exact ⟨fun ⟨hc, hid, hvid⟩ => ⟨⟨hid.symm, hvid.symm⟩, hc⟩,
      fun ⟨⟨hid, hvid⟩, hc⟩ => ⟨hc, hid.symm, hvid.symm⟩⟩
  unfold fetchResultPayload spGetResult
  rw [if_neg (by simp)]
  dsimp only
  rw [if_pos (show (none : Option ℕ).isNone = true from rfl), hrows]
  cases newestResult results (strategyId, strategyVid) with
  | none => rfl
  | some r => rfl

/-- **One result of a version is current.** In every run whose procedures are timely, whatever
the order of the steps and whichever processes are lost, the newest result of a version is
the current one and no other is, and it is what the live path reads, if it is not empty. The
step that comes next keeps it so exactly when it is timely. -/
theorem one_current_result {cfg : LoopConfig} {s : PoolState (ResultState π) (ResultAgent π)}
    (hs : (resultPool π cfg).machine.Reach (Pool.Guard Timely (fun _ _ _ _ => True)) s) :
    OneCurrent s.shared.results ∧
      (∀ isEmpty strategyId strategyVid,
        fetchResultPayload isEmpty s.shared.results strategyId strategyVid =
          .ok (((newestResult s.shared.results (strategyId, strategyVid)).map
            ResultRow.payloadJson).filter (!isEmpty ·))) ∧
      ∀ w ∈ s.workers, ∀ a s' w', stepResult cfg s.shared w a = some (s', w') →
        (OneCurrent s'.results ↔ Timely s.shared w a) := by
  have hinv : CurrentInv s.shared ∧ ∀ w ∈ s.workers, StageKnows s.shared w := by
    refine Pool.invariant (I := CurrentInv) (L := StageKnows) hs (fun s h => ?_)
      (fun s ws b w _ h => ?_) (fun s e s' hI h => ?_)
      (fun s w a s' w' hI hw ht h => stepResult_currentInv hI hw ht h)
      (fun s w a s' w' v _ _ hv _ _ h => stepResult_stage_other hv h)
    · refine ⟨?_, ?_, fun version => ?_⟩
      · rw [h.2]
        exact List.nodup_nil
      · rw [h.2]
        exact Versioned.Numbered.nil
      · rw [h.2]
        rfl
    · obtain ⟨a, -, rfl⟩ := Option.map_eq_some_iff.mp h
      trivial
    · obtain ⟨jobs, -, rfl⟩ := Option.map_eq_some_iff.mp h
      exact ⟨⟨hI.ids, hI.oneCurrent⟩, fun w hw => hw⟩
  obtain ⟨hI, hL⟩ := hinv
  exact ⟨hI.oneCurrent, fetchResultPayload_eq hI.oneCurrent,
    fun w hw a s' w' h => stepResult_oneCurrent hI (hL w hw) h⟩

/-- A version is backtested a second time. -/
def backtestedTwice : List (PoolAct World Start (ResultOutcome ℕ)) :=
  completes ++ [.env (.enqueue { submitted with queueId := 1 })] ++
    List.replicate 12 (.work 0 (.process .go)) ++
    [.spawn (.child 1), .work 2 (.process .go), .work 2 (.optimised 8 43)] ++
    List.replicate 4 (.work 2 .next)

/-- A version backtested twice, one after the other. -/
theorem twice_one_current : ∃ s,
    (resultPool ℕ defaultLoop).machine.Reach (Pool.Guard Timely (fun _ _ _ _ => True)) s ∧
      s.shared.results.length = 2 ∧ OneCurrent s.shared.results := by
  obtain ⟨s, hs, hP⟩ := Machine.Reach.exists_of_runs (M := (resultPool ℕ defaultLoop).machine)
    (G := Pool.Guard Timely (fun _ _ _ _ => True)) (s := ⟨⟨⟨0, [], []⟩, []⟩, []⟩)
    ⟨⟨⟨rfl, rfl⟩, rfl⟩, rfl⟩ backtestedTwice
    (P := fun s => s.shared.results.length = 2) (by decide +kernel)
  exact ⟨s, hs, of_decide_eq_true hP, (one_current_result hs).1⟩

/-- Two jobs of one version, whose workers store their results at the same time. -/
def backtestedTogether : List (PoolAct World Start (ResultOutcome ℕ)) :=
  [.env (.enqueue submitted), .env (.enqueue { submitted with queueId := 1 }), .spawn .loop] ++
    List.replicate 14 (.work 0 (.process .go)) ++ [.spawn (.child 0), .spawn (.child 1),
      .work 1 (.process .go), .work 2 (.process .go), .work 1 (.optimised 7 42),
      .work 2 (.optimised 8 43)] ++
    List.replicate 3 (.work 1 .next) ++ List.replicate 4 (.work 2 .next) ++ [.work 1 .next]

/-- **Two results of a version can be current.** Both procedures look before either of them
commits, and each finds no current result to close. -/
theorem two_current_results : ∃ s, (resultPool ℕ ⟨2, 6000⟩).machine.Reach (fun _ _ => True) s ∧
    (currentResults s.shared.results (0, 1)).map ResultRow.resultVid = [1, 1] := by
  obtain ⟨s, hs, hP⟩ := Machine.Reach.exists_of_runs (M := (resultPool ℕ ⟨2, 6000⟩).machine)
    (G := fun _ _ => True) (s := ⟨⟨⟨0, [], []⟩, []⟩, []⟩) ⟨⟨⟨rfl, rfl⟩, rfl⟩, rfl⟩
    backtestedTogether
    (P := fun s => (currentResults s.shared.results (0, 1)).map ResultRow.resultVid = [1, 1])
    (by decide +kernel)
  exact ⟨s, hs, of_decide_eq_true hP⟩

end Queue
