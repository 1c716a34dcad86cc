import QuantStrategies.Queue.Submit

/-!
# The cap on the jobs that wait

`max_queued_per_user` is meant as a bound of the jobs of a user that wait. It is one when the
user's requests come one at a time. Requests that run side by side each count before any of
them has stored its job, and all of them are let through: the bound is exceeded by as many as
there are between their count and their write, less one (`submissions_capped`).

Whatever the order of the steps, and whichever requests are lost between two calls, a job that
is stored is one of a version of a strategy that is stored: a request that is lost leaves a
strategy without a job, and never a job without its strategy. The strategy is one of the
user's, under a name that has the cadence it is run on, and what the queue makes of a job
later on is about the same version.
-/

namespace Queue

variable {cfg : SubmitConfig} {loop : LoopConfig} {s s' : SubmitState} {w w' v : SubmitAgent}
  {o : SubmitOutcome} {userId : String}

/-! ## The count -/

section Count

variable {queue : List QueueRow} {x : QueueRow}

/-- A version adds to the count only if it is queued, and of the user. -/
theorem spGetQueuedCount_cons_le : spGetQueuedCount (x :: queue) userId ≤
    spGetQueuedCount queue userId +
      (decide (x.queueStatus = .queued) && decide (x.userId = userId)).toNat := by
  unfold spGetQueuedCount queuedJobs openRows
  rw [List.countP_filter, List.countP_filter, List.countP_filter, List.countP_filter,
    List.countP_cons]
  refine Nat.add_le_add (List.countP_mono_left fun r _ hr => ?_) ?_
  · simp only [List.all_cons, Bool.and_eq_true] at hr ⊢
    exact ⟨hr.1, hr.2.2⟩
  · split
    · next hx =>
      simp only [Bool.and_eq_true] at hx
      rw [hx.1.1, hx.1.2]
      exact le_rfl
    · exact Nat.zero_le _

/-- What the queue makes of its jobs adds none to the count. -/
theorem Effect.spGetQueuedCount_le {s s' : QueueState} {w w' : Agent} (he : Effect s s' w w') :
    spGetQueuedCount s'.queue userId ≤ spGetQueuedCount s.queue userId := by
  obtain hq | ⟨row, -, status, ⟨writer, errorText, hq⟩, hs, -⟩ := he.queue
  · rw [hq]
  · rw [hq]
    refine spGetQueuedCount_cons_le.trans ?_
    rw [decide_eq_false hs]
    exact le_rfl

/-- A request is let through while fewer of its user's jobs wait than may. -/
theorem rateLimited_eq_none : rateLimited cfg s userId = none ↔
    (spGetQueuedCount s.jobs.queue userId : ℤ) < cfg.maxQueuedPerUser := by
  unfold rateLimited
  split
  · next h => exact iff_of_false (by simp) (not_lt.mpr h)
  · next h => exact iff_of_true rfl (not_le.mp h)

/-- What is known of a request that goes on to store its strategy. -/
theorem checkEnqueue_eq_ok {req : Submission} {priority : ℤ}
    (h : checkEnqueue cfg s userId req = .ok priority) :
    Frontend.assertCadenceInName cfg.tmInterval ⟨req.strategyNm, cfg.tmIntervalId req.configJson⟩ =
        .ok () ∧ rateLimited cfg s userId = none ∧
      resolveQueuePriority cfg.queuePriority req.priority = .ok priority := by
  unfold checkEnqueue at h
  split at h
  · cases h
  · next hname =>
    split at h
    · cases h
    · next hlimit => exact ⟨hname, hlimit, h⟩

/-- **What a step does to the count**: it leaves no more of the jobs that wait together with
the requests that are admitted, or it admits a request, while the count is below the cap. -/
theorem stepSubmit_count (hk : ∀ agent, w.guest = some agent → Knows s.jobs agent)
    (h : stepSubmit cfg loop s w o = some (s', w')) :
    spGetQueuedCount s'.jobs.queue userId + (w'.admitted userId).toNat ≤
        spGetQueuedCount s.jobs.queue userId + (w.admitted userId).toNat ∨
      ((spGetQueuedCount s.jobs.queue userId : ℤ) < cfg.maxQueuedPerUser ∧
        spGetQueuedCount s'.jobs.queue userId ≤ spGetQueuedCount s.jobs.queue userId) := by
  unfold stepSubmit at h
  split at h
  · obtain ⟨⟨jobs, agent'⟩, hstep, heq⟩ := Option.map_eq_some_iff.mp h
    obtain ⟨rfl, rfl⟩ := by simpa using heq
    exact .inl (stepAgent_effect (hk _ rfl) hstep).spGetQueuedCount_le
  -- the count of an `enqueue`
  · rename_i u req
    obtain ⟨rfl, rfl⟩ := by simpa using h
    cases hcheck : checkEnqueue cfg s u req with
    | error e => exact .inl le_rfl
    | ok priority =>
      by_cases hu : u = userId
      · subst hu
        exact .inr ⟨rateLimited_eq_none.mp (checkEnqueue_eq_ok hcheck).2.1, le_rfl⟩
      · refine .inl (Nat.add_le_add_left ?_ _)
        show (decide (u = userId)).toNat ≤ 0
        rw [decide_eq_false hu]
        exact le_rfl
  · dsimp only at h
    split at h
    · obtain ⟨rfl, rfl⟩ := by simpa using h
      exact .inl (Nat.le_add_right _ _)
    · obtain ⟨rfl, rfl⟩ := by simpa using h
      exact .inl le_rfl
    · obtain ⟨rfl, rfl⟩ := by simpa using h
      exact .inl (Nat.le_add_right _ _)
  · rename_i u queueId
    obtain ⟨rfl, rfl⟩ := by simpa using h
    cases checkReenqueue s u queueId with
    | error e => exact .inl le_rfl
    | ok row => exact .inl le_rfl
  -- the count of a `reenqueue`
  · rename_i u row
    split at h
    · obtain ⟨rfl, rfl⟩ := by simpa using h
      exact .inl le_rfl
    · next hlimit =>
      obtain ⟨rfl, rfl⟩ := by simpa using h
      by_cases hu : u = userId
      · subst hu
        exact .inr ⟨rateLimited_eq_none.mp hlimit, le_rfl⟩
      · refine .inl (Nat.add_le_add_left ?_ _)
        show (decide (u = userId)).toNat ≤ 0
        rw [decide_eq_false hu]
        exact le_rfl
  -- the job that was admitted is stored
  · split at h
    · obtain ⟨rfl, rfl⟩ := by simpa using h
      exact .inl (Nat.le_add_right _ _)
    · obtain ⟨jobs, hjobs, heq⟩ := Option.map_eq_some_iff.mp h
      obtain ⟨rfl, rfl⟩ := by simpa using heq
      simp only [stepWorld] at hjobs
      split at hjobs
      · cases hjobs
      · obtain rfl := Option.some.inj hjobs
        exact .inl spGetQueuedCount_cons_le
  · obtain ⟨rfl, rfl⟩ := by simpa using h
    exact .inl le_rfl
  · cases h

end Count

/-! ## What is stored -/

section Stored

variable {rows rows' : List Database.StrategyRow} {strategyId strategyVid : ℕ} {priority : ℤ}

/-- A version of a strategy that is stored is one of the version of that number. -/
theorem filter_version {r : Database.StrategyRow}
    (h : Database.StrategyRow.table.Histories rows) (hr : r ∈ rows) :
    rows.filter (fun v => (v.strategyId, v.strategyVid) = (r.strategyId, r.strategyVid)) = [r] :=
  Versioned.filter_eq_singleton (f := fun v : Database.StrategyRow =>
    (v.strategyId, v.strategyVid)) h.nodup hr

/-- What is asked of a job goes on to hold where its strategy keeps its name, its config and
its user. -/
theorem Submitted.keeps (h : Submitted cfg rows userId strategyId strategyVid priority)
    (hrows : Database.StrategyRow.table.Histories rows')
    (hkeeps : ∀ r ∈ rows, ∃ r' ∈ rows', r'.strategyId = r.strategyId ∧
      r'.strategyVid = r.strategyVid ∧ r'.strategyNm = r.strategyNm ∧
      r'.configJson = r.configJson ∧ r'.userId = r.userId) :
    Submitted cfg rows' userId strategyId strategyVid priority := by
  obtain ⟨r, hr, huser, strategyNm, tmIntervalId, cadence, hname, hconfig, hcadence⟩ := h.strategy
  have hmem : r ∈ rows.filter (fun r => (r.strategyId, r.strategyVid) =
      (strategyId, strategyVid)) := hr ▸ List.mem_cons_self
  obtain ⟨hmem, hversion⟩ := List.mem_filter.mp hmem
  obtain ⟨r', hr', hid, hvid, hname', hconfig', huser'⟩ := hkeeps r hmem
  refine ⟨⟨r', ?_, huser'.trans huser, strategyNm, tmIntervalId, cadence, hname'.trans hname,
    hconfig' ▸ hconfig, hcadence⟩, h.priority⟩
  rw [← of_decide_eq_true hversion, ← hid, ← hvid]
  exact filter_version hrows hr'

/-- A name that passes the check names the cadence of the document stored under it. -/
theorem namesCadence_of_ok {strategyNm : String} {r : Database.StrategyRow}
    (hname : r.strategyNm = some strategyNm)
    (h : Frontend.assertCadenceInName cfg.tmInterval ⟨strategyNm, cfg.tmIntervalId r.configJson⟩ =
      .ok ()) : NamesCadence cfg r := by
  obtain ⟨tmIntervalId, cadence, hinterval, hcadence, hsuffix⟩ :=
    Frontend.assertCadenceInName_eq_ok.mp h
  exact ⟨strategyNm, tmIntervalId, cadence, hname, hinterval, hcadence, hsuffix⟩

/-- A priority that is resolved is one of the reference data. -/
theorem priorityListed_of_ok {name : String}
    (h : resolveQueuePriority cfg.queuePriority name = .ok priority) :
    PriorityListed cfg priority := by
  unfold resolveQueuePriority at h
  split at h
  · cases h
  · cases h
  · next rows hrows =>
    split at h
    · next r hr =>
      obtain rfl := Except.ok.inj h
      exact ⟨rows, r.1, hrows, List.mem_of_find?_eq_some hr⟩
    · cases h

/-- What holds of the tables. -/
structure SubmitInv (cfg : SubmitConfig) (s : SubmitState) : Prop where
  /-- The versions of each strategy are a history, one without gaps whose newest version is
  open. -/
  strategies : Database.StrategyRow.table.Histories s.strategies
  /-- Every job has what is asked of one. -/
  submitted : ∀ v ∈ s.jobs.queue,
    Submitted cfg s.strategies v.userId v.strategyId v.strategyVid v.priority

/-- What a request knows: the name that it stores has its cadence; the job that it submits
again is one of its user; and the strategy of its job is stored. -/
def SubmitKnows (cfg : SubmitConfig) (s : SubmitState) : SubmitAgent → Prop
  | .insStrategy _ req priority => Frontend.assertCadenceInName cfg.tmInterval
      ⟨req.strategyNm, cfg.tmIntervalId req.configJson⟩ = .ok () ∧ PriorityListed cfg priority
  | .recount userId row => row.userId = userId ∧ row ∈ s.jobs.queue
  | .insQueue userId strategyId strategyVid priority =>
      Submitted cfg s.strategies userId strategyId strategyVid priority
  | _ => True

/-- The tables of a later state have what those of an earlier one had. -/
structure Grows (cfg : SubmitConfig) (s s' : SubmitState) : Prop where
  /-- No version of a job goes. -/
  jobs : ∀ r ∈ s.jobs.queue, r ∈ s'.jobs.queue
  /-- What is asked of a job is still there for it. -/
  submitted : ∀ userId strategyId strategyVid priority,
    Submitted cfg s.strategies userId strategyId strategyVid priority →
    Submitted cfg s'.strategies userId strategyId strategyVid priority

/-- What a request knows stays known when the tables grow. -/
theorem SubmitKnows.grows (h : SubmitKnows cfg s v) (hs : Grows cfg s s') :
    SubmitKnows cfg s' v := by
  cases v with
  | insStrategy u req priority => exact h
  | recount u row => exact ⟨h.1, hs.jobs row h.2⟩
  | insQueue u strategyId strategyVid priority => exact hs.submitted _ _ _ _ h
  | _ => trivial

/-- The strategies are the same, and what is new among the jobs is asked for. -/
theorem SubmitInv.jobs (hI : SubmitInv cfg s) (hsame : s'.strategies = s.strategies)
    (hjobs : ∀ r ∈ s.jobs.queue, r ∈ s'.jobs.queue)
    (hnew : ∀ v ∈ s'.jobs.queue, v ∈ s.jobs.queue ∨
      Submitted cfg s.strategies v.userId v.strategyId v.strategyVid v.priority) :
    SubmitInv cfg s' ∧ Grows cfg s s' := by
  refine ⟨⟨hsame ▸ hI.strategies, fun v hv => ?_⟩, hjobs, fun _ _ _ _ h => hsame ▸ h⟩
  rw [hsame]
  exact (hnew v hv).elim (hI.submitted v) id

/-- The jobs are the same, and the strategies keep what jobs need of them. -/
theorem SubmitInv.strategies_step (hI : SubmitInv cfg s) (hsame : s'.jobs = s.jobs)
    (hrows : Database.StrategyRow.table.Histories s'.strategies)
    (hkeeps : ∀ r ∈ s.strategies, ∃ r' ∈ s'.strategies, r'.strategyId = r.strategyId ∧
      r'.strategyVid = r.strategyVid ∧ r'.strategyNm = r.strategyNm ∧
      r'.configJson = r.configJson ∧ r'.userId = r.userId) :
    SubmitInv cfg s' ∧ Grows cfg s s' := by
  refine ⟨⟨hrows, fun v hv => ?_⟩, fun r hr => hsame ▸ hr, fun _ _ _ _ h => h.keeps hrows hkeeps⟩
  exact (hI.submitted v (hsame ▸ hv)).keeps hrows hkeeps

end Stored

/-! ## What a step stores -/

section Steps

/-- The strategies keep what jobs need of them, whatever the call reports. -/
theorem SubmitInv.storeStrategy (hI : SubmitInv cfg s) {f : Database.Faults} {generated : ℕ}
    {req : Submission} :
    SubmitInv cfg { s with strategies := (storeStrategy s f generated userId req).2 } ∧
      Grows cfg s { s with strategies := (storeStrategy s f generated userId req).2 } := by
  refine hI.strategies_step rfl ?_ fun r hr => ?_
  · exact Database.callWrite_keeps hI.strategies fun row log h =>
      Database.spInsStrategy_histories h hI.strategies
  · exact Database.callWrite_keeps (P := fun log => ∃ r' ∈ log, r'.strategyId = r.strategyId ∧
      r'.strategyVid = r.strategyVid ∧ r'.strategyNm = r.strategyNm ∧
      r'.configJson = r.configJson ∧ r'.userId = r.userId) ⟨r, hr, rfl, rfl, rfl, rfl, rfl⟩
      fun row log h => Database.spInsStrategy_keeps h hr

/-- The version that a call has stored is what is asked of a job. -/
theorem submitted_of_stored (hI : SubmitInv cfg s) {f : Database.Faults} {generated : ℕ}
    {req : Submission} {priority : ℤ} (hk : SubmitKnows cfg s (.insStrategy userId req priority))
    {strategyId strategyVid : ℕ}
    (h : (storeStrategy s f generated userId req).1 = .ok (some strategyId, some strategyVid)) :
    Submitted cfg (storeStrategy s f generated userId req).2 userId strategyId strategyVid
      priority := by
  obtain ⟨-, -, row, hrow, hok, htail⟩ := Database.callWrite_eq_ok.mp (Prod.ext h rfl)
  obtain ⟨r, hr, htail', hname, hconfig, huser⟩ := Database.spInsStrategy_stored hrow hok
  obtain ⟨hid, hvid⟩ := Prod.mk.inj (htail.symm.trans htail')
  obtain rfl := Option.some.inj hid
  obtain rfl := Option.some.inj hvid
  refine ⟨⟨r, filter_version (Database.spInsStrategy_histories hrow hI.strategies) hr,
    Option.some.inj huser, ?_⟩, hk.2⟩
  refine namesCadence_of_ok hname ?_
  rw [Option.some.inj hconfig]
  exact hk.1

/-- A job that is submitted again is the user's own, and is in the queue. -/
theorem checkReenqueue_eq_ok {queueId : ℕ} {row : QueueRow}
    (h : checkReenqueue s userId queueId = .ok row) :
    row.userId = userId ∧ row ∈ s.jobs.queue := by
  unfold checkReenqueue at h
  split at h
  · cases h
  · next row' hrow =>
    split at h
    · obtain rfl := Except.ok.inj h
      exact ⟨getActive_userId hrow, (getActive_mem hrow).1⟩
    · cases h

/-- What a process of the queue knows and holds. -/
def GuestOk (s : SubmitState) (w : SubmitAgent) : Prop :=
  ∀ agent, w.guest = some agent →
    Knows s.jobs agent ∧ ∀ r ∈ heldRows agent, r ∈ s.jobs.queue

theorem Grows.refl (s : SubmitState) : Grows cfg s s := ⟨fun _ => id, fun _ _ _ _ => id⟩

/-- **A step keeps what holds of the tables, and of the one that takes it.** The tables only grow
by it, which is what the other requests rely on. -/
theorem stepSubmit_inv (hI : SubmitInv cfg s) (hg : GuestOk s w) (hw : SubmitKnows cfg s w)
    (h : stepSubmit cfg loop s w o = some (s', w')) :
    (SubmitInv cfg s' ∧ Grows cfg s s') ∧ SubmitKnows cfg s' w' := by
  unfold stepSubmit at h
  split at h
  -- a process writes from a row that it holds
  · obtain ⟨⟨jobs, agent'⟩, hstep, heq⟩ := Option.map_eq_some_iff.mp h
    obtain ⟨rfl, rfl⟩ := by simpa using heq
    obtain ⟨hknows, hheld⟩ := hg _ rfl
    have he := stepAgent_effect hknows hstep
    refine ⟨hI.jobs rfl (fun r => he.mem) fun v hv => ?_, trivial⟩
    obtain hq | ⟨row, hrow, status, ⟨writer, errorText, hq⟩, -⟩ := he.queue
    · exact .inl (hq ▸ hv)
    · obtain rfl | hv := List.mem_cons.mp (hq ▸ hv)
      · exact .inr (hI.submitted row (hheld row hrow))
      · exact .inl hv
  · rename_i u req
    obtain ⟨rfl, rfl⟩ := by simpa using h
    refine ⟨⟨hI, .refl s⟩, ?_⟩
    cases hcheck : checkEnqueue cfg s u req with
    | error e => trivial
    | ok priority =>
      obtain ⟨hname, -, hpriority⟩ := checkEnqueue_eq_ok hcheck
      exact ⟨hname, priorityListed_of_ok hpriority⟩
  · dsimp only at h
    split at h
    · obtain ⟨rfl, rfl⟩ := by simpa using h
      exact ⟨hI.storeStrategy, trivial⟩
    · next strategyId strategyVid hstored =>
      obtain ⟨rfl, rfl⟩ := by simpa using h
      exact ⟨hI.storeStrategy, submitted_of_stored hI hw hstored⟩
    · obtain ⟨rfl, rfl⟩ := by simpa using h
      exact ⟨hI.storeStrategy, trivial⟩
  · rename_i u queueId
    obtain ⟨rfl, rfl⟩ := by simpa using h
    refine ⟨⟨hI, .refl s⟩, ?_⟩
    cases hcheck : checkReenqueue s u queueId with
    | error e => trivial
    | ok row => exact checkReenqueue_eq_ok hcheck
  · split at h
    · obtain ⟨rfl, rfl⟩ := by simpa using h
      exact ⟨⟨hI, .refl s⟩, trivial⟩
    · obtain ⟨rfl, rfl⟩ := by simpa using h
      exact ⟨⟨hI, .refl s⟩, hw.1 ▸ hI.submitted _ hw.2⟩
  -- the job is stored
  · split at h
    · obtain ⟨rfl, rfl⟩ := by simpa using h
      exact ⟨⟨hI, .refl s⟩, trivial⟩
    · obtain ⟨jobs, hjobs, heq⟩ := Option.map_eq_some_iff.mp h
      obtain ⟨rfl, rfl⟩ := by simpa using heq
      simp only [stepWorld] at hjobs
      split at hjobs
      · cases hjobs
      · obtain rfl := Option.some.inj hjobs
        refine ⟨hI.jobs rfl (fun r => List.mem_cons_of_mem _) fun v hv => ?_, trivial⟩
        obtain rfl | hv := List.mem_cons.mp hv
        · exact .inr hw
        · exact .inl hv
  · obtain ⟨rfl, rfl⟩ := by simpa using h
    exact ⟨⟨hI, .refl s⟩, trivial⟩
  · cases h

/-- The world keeps the invariant: time passes, and strategies are promoted and retired, but none
is stored and no job. -/
theorem stepSubmitWorld_inv {e : SubmitWorld} (hI : SubmitInv cfg s)
    (h : stepSubmitWorld s e = some s') : SubmitInv cfg s' ∧ Grows cfg s s' := by
  cases e with
  | tick d =>
    simp only [stepSubmitWorld, stepWorld, Option.map_some, Option.some.injEq] at h
    subst h
    exact hI.jobs rfl (fun r => id) fun v => .inl
  | flags isBestInd logicalDeleteInd =>
    obtain rfl := Option.some.inj h
    refine hI.strategies_step rfl ?_ fun r hr =>
      ⟨_, List.mem_map_of_mem hr, rfl, rfl, rfl, rfl, rfl⟩
    exact hI.strategies.map (fun _ => rfl) (fun _ => rfl) (fun _ => rfl) fun _ => rfl

end Steps

/-! ## Runs -/

section Runs

variable {t : PoolState SubmitState SubmitAgent}

/-- What the processes of the queue know and hold, in every run. -/
theorem guests_ok (ht : (submitPool cfg loop).machine.Reach (fun _ _ => True) t) :
    ∀ w ∈ t.workers, GuestOk t.shared w := fun _ hw agent hagent =>
  (queuePool_invariant (submitPool_hosts.reach ht)).2 agent
    (List.mem_filterMap.mpr ⟨_, hw, hagent⟩)

/-- **What holds of the tables in every run**, whatever the order of the steps and whichever
processes and requests are lost. -/
theorem submitPool_invariant (ht : (submitPool cfg loop).machine.Reach (fun _ _ => True) t) :
    SubmitInv cfg t.shared := by
  have ht := (ht.strengthen fun t ht => guests_ok ht).mono (H := Pool.Guard
    (fun s w _ => GuestOk s w) (fun _ _ _ _ => True)) fun t act hg => by
      cases act with
      | work i a => exact fun w hw => ⟨hg.2 w (List.mem_of_getElem? hw), fun _ _ => trivial⟩
      | _ => trivial
  refine (Pool.invariant (I := SubmitInv cfg) (L := SubmitKnows cfg) ht (fun s h => ?_)
    (fun s ws b w _ h => ?_) (fun s e s' hI h => ?_) (fun s w a s' w' hI hw hg h => ?_)
    (fun s w a s' w' v hI hw hv hg _ h => ?_)).1
  · obtain ⟨⟨hq, -⟩, hr⟩ := h
    refine ⟨hr ▸ SoftTable.Histories.nil, ?_⟩
    rw [hq]
    exact fun v hv => absurd hv List.not_mem_nil
  · cases b with
    | process b =>
      obtain ⟨agent, -, rfl⟩ := Option.map_eq_some_iff.mp h
      trivial
    | enqueue userId req =>
      obtain rfl := Option.some.inj h
      trivial
    | reenqueue userId queueId =>
      obtain rfl := Option.some.inj h
      trivial
  · obtain ⟨hI', hgrows⟩ := stepSubmitWorld_inv hI h
    exact ⟨hI', fun w hw => hw.grows hgrows⟩
  · obtain ⟨⟨hI', -⟩, hw'⟩ := stepSubmit_inv hI hg hw h
    exact ⟨hI', hw'⟩
  · exact hv.grows (stepSubmit_inv hI hg hw h).1.2

/-- The jobs that wait, with the requests that are admitted. -/
theorem admitted_capped {K : ℕ}
    (ht : (submitPool cfg loop).machine.Reach (AtMost cfg loop userId K) t) :
    ((spGetQueuedCount t.shared.jobs.queue userId +
        t.workers.countP (SubmitAgent.admitted userId) : ℕ) : ℤ) ≤
      max 0 (cfg.maxQueuedPerUser - 1) + K := by
  refine Pool.admission (fun s : SubmitState => spGetQueuedCount s.jobs.queue userId)
    (SubmitAgent.admitted userId) ht
    (J := fun t => ∀ w ∈ t.workers, GuestOk t.shared w)
    (fun t ht => guests_ok (ht.mono fun _ _ _ => trivial)) (fun t act t' hK h => hK t' h)
    (fun s h => ?_) (fun s e s' h => ?_) (fun s ws b w h => ?_) fun t w a s' w' hg hw h =>
      stepSubmit_count (fun agent hagent => (hg w hw agent hagent).1) h
  · rw [h.1.1]
    rfl
  · cases e with
    | tick d =>
      obtain rfl := Option.some.inj h
      exact le_rfl
    | flags isBestInd logicalDeleteInd =>
      obtain rfl := Option.some.inj h
      exact le_rfl
  · cases b with
    | process b =>
      obtain ⟨agent, -, rfl⟩ := Option.map_eq_some_iff.mp h
      rfl
    | enqueue userId req =>
      obtain rfl := Option.some.inj h
      rfl
    | reenqueue userId queueId =>
      obtain rfl := Option.some.inj h
      rfl

/-- **Submissions are capped, and complete.** When no more than `K` requests of a user are at
any time between their count and their write, no more of the user's jobs wait than the cap,
less one, and `K`. Every job, whatever the queue has made of it, is of a version of a strategy
that is stored, once, for the user of the job and under a name that has its cadence. And the
queue, among the requests, does what it does on its own. -/
theorem submissions_capped {K : ℕ}
    (ht : (submitPool cfg loop).machine.Reach (AtMost cfg loop userId K) t) :
    (spGetQueuedCount t.shared.jobs.queue userId : ℤ) ≤ max 0 (cfg.maxQueuedPerUser - 1) + K ∧
      (∀ v ∈ t.shared.jobs.queue,
        Submitted cfg t.shared.strategies v.userId v.strategyId v.strategyVid v.priority) ∧
      (queuePool loop).machine.Reach (fun _ _ => True)
        (Pool.Hosts.view SubmitState.jobs SubmitAgent.guest t) := by
  have hrun := ht.mono (H := fun _ _ => True) fun _ _ _ => trivial
  refine ⟨?_, (submitPool_invariant hrun).submitted, submitPool_hosts.reach hrun⟩
  have := admitted_capped ht
  omega

end Runs

/-! ## A run -/

/-- A cap of one. -/
def capOne : SubmitConfig where
  tmInterval := .ok [(1, "DAILY")]
  queuePriority := .ok [("normal", 5)]
  maxQueuedPerUser := 1
  tmIntervalId _ := .number 1

/-- Two requests of a user that both count before either stores its job. -/
def sideBySide : List (PoolAct SubmitWorld SubmitStart SubmitOutcome) :=
  let req : Submission := ⟨"btcusdt.crypto@bybit:DAILY ← x", "", "normal"⟩
  [.spawn (.enqueue "ann" req), .spawn (.enqueue "ann" req), .work 0 .go, .work 1 .go,
    .work 0 (.strategy (fun _ => none) 7), .work 1 (.strategy (fun _ => none) 8),
    .work 0 (.job 0 none), .work 1 (.job 1 none)]

/-- Two requests side by side under a cap of one: two jobs wait, which is within the bound. -/
theorem sideBySide_capped :
    ∃ t, (submitPool capOne defaultLoop).machine.Reach (AtMost capOne defaultLoop "ann" 2) t ∧
      spGetQueuedCount t.shared.jobs.queue "ann" = 2 ∧
      (spGetQueuedCount t.shared.jobs.queue "ann" : ℤ) ≤ max 0 (capOne.maxQueuedPerUser - 1) + 2 := by
  obtain ⟨t, ht, hP⟩ := Machine.Reach.exists_of_runs
    (M := (submitPool capOne defaultLoop).machine) (G := AtMost capOne defaultLoop "ann" 2)
    (s := ⟨⟨⟨0, [], []⟩, []⟩, []⟩) ⟨⟨⟨rfl, rfl⟩, rfl⟩, rfl⟩ sideBySide
    (P := fun t => decide (spGetQueuedCount t.shared.jobs.queue "ann" = 2))
    (by decide +kernel)
  exact ⟨t, ht, of_decide_eq_true hP, (submissions_capped ht).1⟩

end Queue
