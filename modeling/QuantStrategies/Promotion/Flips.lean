import QuantStrategies.Database.Promote
import QuantStrategies.Lib.Pool
import QuantStrategies.Promotion.Evaluate

/-!
# Flips among others

A finished job weighs its version against the one that is the best by then, and flips the
flag when it is promoted or demoted (`stepFlow`). It reads the best in one transaction
and flips it in another, and the flip takes its updates one by one.

Two flips of one strategy may overlap: the second has looked for the best that it is to
demote before the first has promoted its own, and both versions are flagged in the end.
And a version may be demoted that is not the one the decision was about. Neither happens
when a flip takes its first update while no other one of the strategy is in its updates,
and a demotion does so while the version it is about is the best, or the first one is.

The flips are among themselves here: nothing else writes the strategies while they run.
The other procedures that do, `SP_INS_STRATEGY`, which stores a version, and
`SP_UPD_STRATEGY_LOGICAL_DELETE`, which retires one, are no steps of these runs (the pool
has no world outside its flows), and nothing is said of a flip that one of them overtakes.

A flip is a transaction of the library of statements: before its first update it has locked
nothing and written nothing, and from then on what it is going to leave is fixed, unless
another flip of the strategy commits in between. The invariant has the strategies on one
side (`BestInv`) and every flow on the other (`FlowOk`), and the condition on a run is about
the first update of each flip: no other flip of the strategy is in its updates (`Alone`),
and a demotion is of the version that is the best by then (`Current`).
-/

namespace Promotion

open Database ReadCommitted

/-- The transaction of a flip. -/
abbrev FlipTransaction := Transaction StrategyRow (ℕ × ℕ) (OutRow Unit)

/-- A job whose backtest is over: the version that it ran, the result, and the metrics. -/
structure FinishedJob (α : Type) where
  /-- The strategy. -/
  strategyId : ℕ
  /-- The version that the job ran. -/
  strategyVid : ℤ
  /-- Its result. -/
  payload : Payload α
  /-- What it is to be weighed by. -/
  promotionMetrics : List (PromotionMetric α)

/-- How far `PromotionRepo.run` is. -/
inductive Stage
  | fetchBest
  | decide (bestStrat : Option StrategyRow)
  | flipBest (outcome : Outcome) (t : FlipTransaction)
  | insPromotion
  | done
  | failed

/-- A run of `PromotionRepo.run`, in a database session of its own. -/
structure Flow (α : Type) where
  /-- The database session. -/
  session : ℕ
  /-- The job that is being promoted. -/
  job : FinishedJob α
  /-- How far it is. -/
  stage : Stage

/-- The strategies, and the session that has locked a row. -/
structure FlipState where
  /-- The versions of all strategies. -/
  rows : List StrategyRow
  /-- The rows that are locked, each with the session that has locked it. -/
  locks : List ((ℕ × ℕ) × ℕ)

/-- A step of a flow: its next statement, with the payload that it fetches if it fetches
one, or a failure of that statement. -/
inductive FlowStep (α : Type)
  | next (bestPayload : Option (Payload α))
  | fail

variable {α : Type}

namespace FlipState

/-- No other session has locked a row. -/
def free (s : FlipState) (session : ℕ) (k : ℕ × ℕ) : Bool :=
  s.locks.all (fun l => l.1 ≠ k || l.2 = session)

/-- A session locks the rows that it has written. -/
def lock (s : FlipState) (session : ℕ) (t : FlipTransaction) : FlipState :=
  { s with locks :=
      t.writes.map (fun e => (e.1, session)) ++ s.locks.filter (fun l => l.2 ≠ session) }

/-- The end of a transaction. -/
def release (s : FlipState) (session : ℕ) : FlipState :=
  { s with locks := s.locks.filter (fun l => l.2 ≠ session) }

end FlipState

namespace FinishedJob

/-- The version that a flip names. -/
def target (job : FinishedJob α) (outcome : Outcome) : Option ℤ :=
  if outcome = .promoted then some job.strategyVid else none

/-- `_apply`. -/
def apply (job : FinishedJob α) (decision : PromotionDecision α) : Stage :=
  if decision.outcome = .demoted ∨ decision.outcome = .promoted then
    .flipBest decision.outcome (.start (promote job.strategyId (job.target decision.outcome)))
  else .insPromotion

variable [LinearOrder α] [Sub α]

/-- The decision of `run`. -/
def decision (job : FinishedJob α) (bestStrat : Option StrategyRow)
    (bestPayload : Option (Payload α)) : PromotionDecision α :=
  let isCurrentBest := bestStrat.any (fun v => (v.strategyVid : ℤ) = job.strategyVid)
  let bestVid := bestStrat.map (fun v => (v.strategyVid : ℤ))
  let bestPayload := if !isCurrentBest && bestStrat.isSome then bestPayload else none
  evaluatePromotion job.payload bestPayload job.promotionMetrics isCurrentBest bestVid
    (some job.strategyVid)

end FinishedJob

variable [LinearOrder α] [Sub α]

/-- One step of `PromotionRepo.run`. A failure takes back what is not committed. -/
def stepFlow (s : FlipState) (w : Flow α) : FlowStep α → Option (FlipState × Flow α)
  | .fail =>
    match w.stage with
    | .done => none
    | .failed => none
    | _ => some (s.release w.session, { w with stage := .failed })
  | .next bestPayload =>
    match w.stage with
    | .fetchBest =>
      let bestRows := s.rows.filter (StrategyRow.isBest w.job.strategyId)
      some (s, { w with stage := .decide bestRows.head? })
    | .decide bestStrat =>
      some (s, { w with stage := w.job.apply (w.job.decision bestStrat bestPayload) })
    | .flipBest outcome t =>
      match t.ended with
      | none => (t.step StrategyRow.pk (s.free w.session) s.rows).map
          (fun t' => (s.lock w.session t', { w with stage := .flipBest outcome t' }))
      | some row =>
        if row.sqlstate = "00000" then
          some ({ s.release w.session with rows := view StrategyRow.pk s.rows t.writes },
            { w with stage := .insPromotion })
        else some (s.release w.session, { w with stage := .failed })
    | .insPromotion => some (s, { w with stage := .done })
    | .done => none
    | .failed => none

/-- The flows of finished jobs, over strategies that any calls have left. -/
def flips (α : Type) [LinearOrder α] [Sub α] :
    Pool FlipState (Flow α) Empty (ℕ × FinishedJob α) (FlowStep α) where
  Init s := s.locks = [] ∧ ∃ calls, strategyCalls.Reach (fun _ _ => True) calls ∧
    s.rows = calls.rows
  env _ e := e.elim
  fresh s ws b :=
    if ws.all (fun w => w.session ≠ b.1) && s.locks.all (fun l => l.2 ≠ b.1) then
      some ⟨b.1, b.2, .fetchBest⟩
    else none
  work := stepFlow

/-! ## What is promised -/

/-- No strategy has two versions that are flagged as the best. -/
def AtMostOneBest (rows : List StrategyRow) : Prop :=
  ∀ id, (rows.filter (StrategyRow.isBest id)).length ≤ 1

/-- A version loses the flag. -/
def Loses (v : StrategyRow) (rows rows' : List StrategyRow) : Prop :=
  v ∈ rows ∧ v.isBestInd = 'Y' ∧ ∀ v' ∈ rows', v'.pk = v.pk → v'.isBestInd ≠ 'Y'

/-- A flow promotes another version of the strategy, or has decided to demote this one. -/
def Takes (w : Flow α) (v : StrategyRow) : Prop :=
  ∃ outcome t, w.stage = .flipBest outcome t ∧ w.job.strategyId = v.strategyId ∧
    (outcome = .promoted ∧ w.job.strategyVid ≠ v.strategyVid ∨
      outcome = .demoted ∧ w.job.strategyVid = v.strategyVid)

/-- One call after another, a strategy has exactly one best version: the one that was
promoted last, or the first one. -/
def CallsKeepBest : Prop :=
  ∀ s, strategyCalls.Reach (fun _ _ => True) s → ∀ id, (∃ v ∈ s.rows, v.strategyId = id) →
    OneBest s.rows id ((s.promoted id).getD 1)

/-- Among others, flows leave at most one best version, and take the flag only from a
version that another one is promoted over, or that is itself to be demoted. -/
def FlowsKeepBest (α : Type) [LinearOrder α] [Sub α]
    (G : PoolState FlipState (Flow α) → PoolAct Empty (ℕ × FinishedJob α) (FlowStep α) → Prop) :
    Prop :=
  ∀ p, (flips α).machine.Reach G p → AtMostOneBest p.shared.rows ∧
    ∀ a p', G p a → (flips α).step p a = some p' → ∀ v, Loses v p.shared.rows p'.shared.rows →
      ∃ i l w, a = .work i l ∧ p.workers[i]? = some w ∧ Takes w v

/-! ## Flips that do not overlap -/

/-- A flow is in its updates. -/
def Flow.updating (w : Flow α) : Bool :=
  match w.stage with
  | .flipBest _ t => t.begun
  | _ => false

/-- A flow takes its first update, of the outcome. -/
def Begins (w : Flow α) (outcome : Outcome) (a : FlowStep α) : Prop :=
  a ≠ .fail ∧ ∃ t, w.stage = .flipBest outcome t ∧ t.atUpdate = true

/-- A demotion takes its first update while the version that it is about is the best, or
the first one is. -/
def Current (s : FlipState) (w : Flow α) (a : FlowStep α) : Prop :=
  Begins w .demoted a → ∀ v ∈ s.rows, v.isBest w.job.strategyId →
    (v.strategyVid : ℤ) = w.job.strategyVid ∨ v.strategyVid = 1

/-- A flow takes its first update while another one of the strategy is not in its own. -/
def Alone (_ : FlipState) (w : Flow α) (a : FlowStep α) (v : Flow α) : Prop :=
  (∃ outcome, Begins w outcome a) → ¬ (v.updating ∧ v.job.strategyId = w.job.strategyId)

omit [LinearOrder α] [Sub α] in
/-- A flow is in its updates when its flip has taken the first one. -/
theorem Flow.updating_iff {w : Flow α} :
    w.updating = true ↔ ∃ outcome t, w.stage = .flipBest outcome t ∧ t.begun = true := by
  unfold Flow.updating
  split
  · next outcome t hstage =>
    refine ⟨fun h => ⟨outcome, t, hstage, h⟩, ?_⟩
    rintro ⟨outcome', t', hstage', h⟩
    cases hstage.symm.trans hstage'
    exact h
  · next hno =>
    refine iff_of_false Bool.false_ne_true ?_
    rintro ⟨outcome, t, hstage, -⟩
    exact hno outcome t hstage

/-! ## The strategies between two commits -/

variable {rows rows' : List StrategyRow} {id : ℕ} {vid : ℤ} {outcome : Outcome}
variable {t t' : FlipTransaction} {job : FinishedJob α}

/-- Every strategy has a first version, and one that is the best. -/
structure BestInv (rows : List StrategyRow) : Prop where
  /-- No two rows are of one version. -/
  nodup : (rows.map StrategyRow.pk).Nodup
  /-- Every strategy has a version 1. -/
  first : ∀ id, (∃ v ∈ rows, v.strategyId = id) → ∃ v ∈ rows, v.isVersion id 1 = true
  /-- And one version that is flagged as the best. -/
  best : ∀ id, (∃ v ∈ rows, v.strategyId = id) → ∃ b, BestIs rows id b

/-- What serial calls leave has it. -/
theorem BestInv.of_calls {s : Strategies} (h : BestKept s) : BestInv s.rows := by
  refine ⟨h.nodup, fun id hrow => ?_, fun id hrow => ⟨_, h.best id hrow⟩⟩
  obtain ⟨v, hv, hid, hvid⟩ := h.histories.exists_first hrow
  exact ⟨v, hv, isVersion_iff.mpr ⟨hid, congrArg Nat.cast hvid⟩⟩

theorem BestInv.atMostOneBest (h : BestInv rows) : AtMostOneBest rows := by
  intro id
  by_cases hrow : ∃ v ∈ rows, v.strategyId = id
  · obtain ⟨b, hb⟩ := h.best id hrow
    obtain ⟨v, hone, -⟩ := hb.oneBest h.nodup
    rw [hone]
    exact le_rfl
  · have hnil : rows.filter (StrategyRow.isBest id) = [] := by
      refine List.filter_eq_nil_iff.mpr fun v hv hbest => ?_
      exact hrow ⟨v, hv, (isBest_iff.mp hbest).1⟩
    rw [hnil]
    exact Nat.zero_le 1

/-- A version is there when it is in a key. -/
theorem exists_version_iff : (∃ v ∈ rows, v.isVersion id vid = true) ↔
    ∃ k ∈ rows.map StrategyRow.pk, k.1 = id ∧ (k.2 : ℤ) = vid := by
  constructor
  · rintro ⟨v, hv, hversion⟩
    exact ⟨v.pk, List.mem_map_of_mem hv, isVersion_iff.mp hversion⟩
  · rintro ⟨k, hk, hversion⟩
    obtain ⟨v, hv, rfl⟩ := List.mem_map.mp hk
    exact ⟨v, hv, isVersion_iff.mpr hversion⟩

/-! ## A flip on its way -/

/-- What a flip has yet to do before its updates: a version that it moves the flag to is
there. -/
def Waiting (rows : List StrategyRow) (id : ℕ) :
    Option ℤ → Proc StrategyRow (OutRow Unit) → Prop
  | none, proc => proc = demoteOnly id
  | some vid, proc => proc = promote id (some vid) ∨ (∃ a, proc = .answer a) ∨
      (∃ v ∈ rows, v.isVersion id vid = true) ∧
        (proc = moveUnlessBest id vid ∨ proc = moveBest id vid)

/-- What holds of a flip: before its updates it has written nothing, and from then on it
is going to leave the version that it names as the best, or the first one. -/
structure FlipOk (rows : List StrategyRow) (job : FinishedJob α) (outcome : Outcome)
    (t : FlipTransaction) : Prop where
  /-- It promotes or demotes. -/
  flips : outcome = .promoted ∨ outcome = .demoted
  /-- Its statements are about one strategy, and keep the keys. -/
  valid : t.Valid StrategyRow.pk (ofStrategy job.strategyId)
  /-- A strategy that is demoted has a version. -/
  exists_row : outcome = .demoted → ∃ v ∈ rows, v.strategyId = job.strategyId
  /-- Before its updates it has written nothing, and what it waits for is there. -/
  before : t.begun = false → t.pending = none ∧ t.writes = [] ∧
    Waiting rows job.strategyId (job.target outcome) t.proc
  /-- From then on it is going to leave the version that it names as the best, or version 1. -/
  leaves : t.begun = true →
    BestIs (t.finish StrategyRow.pk rows) job.strategyId ((job.target outcome).getD 1)
  /-- A demotion that has begun is of the best version, or the best is version 1 already. -/
  current : t.begun = true → outcome = .demoted →
    ∃ b, BestIs rows job.strategyId b ∧ (b = job.strategyVid ∨ b = 1)

omit [LinearOrder α] [Sub α] in
/-- A flip that starts is on its way. -/
theorem FlipOk.start (houtcome : outcome = .promoted ∨ outcome = .demoted)
    (hrow : outcome = .demoted → ∃ v ∈ rows, v.strategyId = job.strategyId) :
    FlipOk rows job outcome (.start (promote job.strategyId (job.target outcome))) := by
  refine ⟨houtcome, .start (local_promote _), hrow, fun _ => ⟨rfl, rfl, ?_⟩, nofun, nofun⟩
  cases job.target outcome with
  | none => rfl
  | some vid => exact Or.inl rfl

/-- Before its updates a flip takes tests only, until the update that begins them. -/
theorem Waiting.step {free : ℕ × ℕ → Bool} {target : Option ℤ}
    (hwaiting : Waiting rows id target t.proc) (hpending : t.pending = none)
    (hwrites : t.writes = []) (h : t.step StrategyRow.pk free rows = some t')
    (hbegun : t'.begun = false) :
    t'.pending = none ∧ t'.writes = [] ∧ Waiting rows id target t'.proc := by
  have hview : view StrategyRow.pk rows [] = rows := List.map_id rows
  unfold Transaction.step at h
  rw [hpending, hwrites, hview] at h
  cases target with
  | none =>
    have hproc : t.proc = demoteOnly id := hwaiting
    rw [hproc] at h
    cases h
    cases hbegun
  | some vid =>
    obtain hproc | ⟨a, hproc⟩ | ⟨hrow, hproc | hproc⟩ := hwaiting
    · rw [hproc] at h
      cases h
      refine ⟨rfl, rfl, ?_⟩
      show Waiting rows id (some vid) (if _ then _ else _)
      split
      · next hexists =>
        obtain ⟨v, hv, hvid⟩ := List.any_eq_true.mp hexists
        exact Or.inr (Or.inr ⟨⟨v, hv, hvid⟩, Or.inl rfl⟩)
      · exact Or.inr (Or.inl ⟨_, rfl⟩)
    · rw [hproc] at h
      cases h
    · rw [hproc] at h
      cases h
      refine ⟨rfl, rfl, ?_⟩
      show Waiting rows id (some vid) (if _ then _ else _)
      split
      · exact Or.inr (Or.inl ⟨_, rfl⟩)
      · exact Or.inr (Or.inr ⟨hrow, Or.inr rfl⟩)
    · rw [hproc] at h
      cases h
      cases hbegun

/-- A flip that takes its first update is about to leave a best version. -/
theorem Waiting.bestIs {target : Option ℤ} (hwaiting : Waiting rows id target t.proc)
    (hfirst : target = none → ∃ v ∈ rows, v.isVersion id 1 = true)
    (hpending : t.pending = none) (hwrites : t.writes = []) (h : t.atUpdate = true) :
    BestIs (t.finish StrategyRow.pk rows) id (target.getD 1) := by
  rw [Transaction.finish_unbegun hpending hwrites]
  obtain ⟨-, u, next, hupdate⟩ := Transaction.atUpdate_iff.mp h
  cases target with
  | none =>
    have hproc : t.proc = demoteOnly id := hwaiting
    rw [hproc]
    exact bestIs_demoteOnly (hfirst rfl)
  | some vid =>
    obtain hproc | ⟨a, hproc⟩ | ⟨hrow, hproc | hproc⟩ := hwaiting
    · cases hupdate.symm.trans hproc
    · cases hupdate.symm.trans hproc
    · cases hupdate.symm.trans hproc
    · rw [hproc]
      exact bestIs_moveBest hrow

/-- What a flip waits for stays there while the keys do. -/
theorem Waiting.congr {target : Option ℤ} {proc : Proc StrategyRow (OutRow Unit)}
    (hkeys : rows'.map StrategyRow.pk = rows.map StrategyRow.pk)
    (h : Waiting rows id target proc) : Waiting rows' id target proc := by
  cases target with
  | none => exact h
  | some vid =>
    refine h.imp_right (Or.imp_right (And.imp_left fun hrow => ?_))
    rw [exists_version_iff, hkeys]
    exact exists_version_iff.mp hrow

omit [LinearOrder α] [Sub α] in
/-- **A statement of a flip** keeps it on its way, when its first update meets the
condition. -/
theorem FlipOk.step {free : ℕ × ℕ → Bool} (hI : BestInv rows) (hok : FlipOk rows job outcome t)
    (h : t.step StrategyRow.pk free rows = some t')
    (hcurrent : t.atUpdate = true → outcome = .demoted → ∀ v ∈ rows,
      v.isBest job.strategyId → (v.strategyVid : ℤ) = job.strategyVid ∨ v.strategyVid = 1) :
    FlipOk rows job outcome t' := by
  obtain ⟨hbegins, hstays⟩ := Transaction.begun_of_step h
  have hfinish := Transaction.finish_step hI.nodup hok.valid h
  refine ⟨hok.flips, hok.valid.step hI.nodup h, hok.exists_row, fun hno => ?_, fun hb => ?_,
    fun hb hdemoted => ?_⟩
  · have hbefore : t.begun = false := Bool.eq_false_iff.mpr fun hb =>
      Bool.false_ne_true (hno.symm.trans (hstays hb))
    obtain ⟨hpending, hwrites, hwaiting⟩ := hok.before hbefore
    exact hwaiting.step hpending hwrites h hno
  · rw [hfinish]
    obtain hb | hat := hbegins hb
    · exact hok.leaves hb
    · obtain ⟨hbefore, -⟩ := Transaction.atUpdate_iff.mp hat
      obtain ⟨hpending, hwrites, hwaiting⟩ := hok.before hbefore
      refine hwaiting.bestIs (fun hnone => hI.first _ (hok.exists_row ?_)) hpending hwrites hat
      refine hok.flips.resolve_left fun hpromoted => ?_
      rw [FinishedJob.target, if_pos hpromoted] at hnone
      cases hnone
  · obtain hb | hat := hbegins hb
    · exact hok.current hb hdemoted
    · obtain ⟨b, hbest⟩ := hI.best _ (hok.exists_row hdemoted)
      obtain ⟨v, hv, hversion⟩ := hbest.exists_row
      obtain ⟨hid, hvid⟩ := isVersion_iff.mp hversion
      have hflag := (hbest.flagged v hv hid).mpr hvid
      refine ⟨b, hbest, (hcurrent hat hdemoted v hv (isBest_iff.mpr ⟨hid, hflag⟩)).imp ?_ ?_⟩
      · exact hvid.symm.trans
      · exact fun hone => hvid.symm.trans (congrArg Nat.cast hone)

/-! ## The commit of a flip -/

/-- What a flip that is through commits. -/
structure Committed (rows rows' : List StrategyRow) (job : FinishedJob α) (outcome : Outcome)
    (t : FlipTransaction) : Prop where
  /-- The versions are the same. -/
  keys : rows'.map StrategyRow.pk = rows.map StrategyRow.pk
  /-- A flip without updates changes nothing. -/
  unbegun : t.begun = false → rows' = rows
  /-- One with updates leaves the version that it names as the best, or version 1. -/
  leaves : t.begun = true → BestIs rows' job.strategyId ((job.target outcome).getD 1)
  /-- Other strategies are as they were. -/
  others : ∀ id, id ≠ job.strategyId →
    rows'.filter (StrategyRow.isOf id) = rows.filter (StrategyRow.isOf id)

omit [LinearOrder α] [Sub α] in
/-- A flip that is through commits so. -/
theorem FlipOk.commit {row : OutRow Unit} (hok : FlipOk rows job outcome t)
    (h : t.ended = some row) :
    Committed rows (view StrategyRow.pk rows t.writes) job outcome t := by
  obtain ⟨hpending, hproc⟩ := Transaction.ended_eq_some.mp h
  refine ⟨map_key_view hok.valid.keyed rows, fun hno => ?_, fun hb => ?_, fun id hid => ?_⟩
  · obtain ⟨-, hwrites, -⟩ := hok.before hno
    rw [hwrites]
    exact List.map_id rows
  · rw [← Transaction.finish_answer hpending hproc]
    exact hok.leaves hb
  · refine view_filter_other (q := ofStrategy id) hok.valid.keyed fun e he => ?_
    exact decide_eq_false fun hid' =>
      hid (hid'.symm.trans (of_decide_eq_true (hok.valid.within e he)))

omit [LinearOrder α] [Sub α] in
/-- **A commit** leaves every strategy with a best version. A flip without updates leaves the rows
alone, and one with updates leaves the version that it names, or version 1, as the best. -/
theorem BestInv.commit (hI : BestInv rows) (h : Committed rows rows' job outcome t) :
    BestInv rows' := by
  have hrow (id : ℕ) : (∃ v ∈ rows', v.strategyId = id) ↔ ∃ v ∈ rows, v.strategyId = id := by
    rw [exists_row_iff, h.keys, ← exists_row_iff]
  refine ⟨h.keys.symm ▸ hI.nodup, fun id hid => ?_, fun id hid => ?_⟩
  · rw [exists_version_iff, h.keys, ← exists_version_iff]
    exact hI.first id ((hrow id).mp hid)
  · obtain ⟨b, hb⟩ := hI.best id ((hrow id).mp hid)
    by_cases hjob : id = job.strategyId
    · cases hbegun : t.begun with
      | false =>
        rw [h.unbegun hbegun]
        exact ⟨b, hb⟩
      | true => exact hjob ▸ ⟨_, h.leaves hbegun⟩
    · exact ⟨b, hb.congr (h.others id hjob)⟩

omit [LinearOrder α] [Sub α] in
/-- The commit of a flip of another strategy, or of one without updates, leaves a flip on
its way. -/
theorem FlipOk.commit_other {job' : FinishedJob α} {outcome' : Outcome}
    (hok : FlipOk rows job outcome t) (h : Committed rows rows' job' outcome' t')
    (hother : t.begun = true → t'.begun = true → job.strategyId ≠ job'.strategyId) :
    FlipOk rows' job outcome t := by
  have hfilter (hb : t.begun = true) : rows'.filter (StrategyRow.isOf job.strategyId) =
      rows.filter (StrategyRow.isOf job.strategyId) := by
    cases hb' : t'.begun with
    | false => rw [h.unbegun hb']
    | true => exact h.others _ (hother hb hb')
  refine ⟨hok.flips, hok.valid, fun hdemoted => ?_, fun hno => ?_, fun hb => ?_,
    fun hb hdemoted => ?_⟩
  · rw [exists_row_iff, h.keys, ← exists_row_iff]
    exact hok.exists_row hdemoted
  · obtain ⟨hpending, hwrites, hwaiting⟩ := hok.before hno
    exact ⟨hpending, hwrites, hwaiting.congr h.keys⟩
  · refine (hok.leaves hb).congr ?_
    exact (hok.valid.finish_filter rows').trans ((congrArg (t.finish StrategyRow.pk) (hfilter hb)).trans
      (hok.valid.finish_filter rows).symm)
  · obtain ⟨b, hbest, hvid⟩ := hok.current hb hdemoted
    exact ⟨b, hbest.congr (hfilter hb), hvid⟩

/-! ## The steps of a flow -/

/-- What a step of a flow does to the strategies, and how far it gets. -/
inductive FlowMove (rows : List StrategyRow) (job : FinishedJob α) :
    Stage → FlowStep α → List StrategyRow → Stage → Prop
  | fail {stage} : FlowMove rows job stage .fail rows .failed
  | fetchBest {bestPayload} : FlowMove rows job .fetchBest (.next bestPayload) rows
      (.decide (rows.filter (StrategyRow.isBest job.strategyId)).head?)
  | decide {bestStrat bestPayload} : FlowMove rows job (.decide bestStrat) (.next bestPayload) rows
      (job.apply (job.decision bestStrat bestPayload))
  | statement {outcome t t' free bestPayload} (h : t.step StrategyRow.pk free rows = some t') :
      FlowMove rows job (.flipBest outcome t) (.next bestPayload) rows (.flipBest outcome t')
  | commit {outcome t row bestPayload} (h : t.ended = some row) :
      FlowMove rows job (.flipBest outcome t) (.next bestPayload)
        (view StrategyRow.pk rows t.writes) .insPromotion
  | rollback {outcome t bestPayload} :
      FlowMove rows job (.flipBest outcome t) (.next bestPayload) rows .failed
  | insPromotion {bestPayload} : FlowMove rows job .insPromotion (.next bestPayload) rows .done

variable {s s' : FlipState} {w w' v : Flow α} {a : FlowStep α}

/-- A step of a flow is one of its moves, and its job stays. -/
theorem stepFlow_move (h : stepFlow s w a = some (s', w')) :
    w'.job = w.job ∧ FlowMove s.rows w.job w.stage a s'.rows w'.stage := by
  unfold stepFlow at h
  split at h
  · split at h
    · cases h
    · cases h
    · cases h
      exact ⟨rfl, .fail⟩
  · split at h
    · next hstage =>
      cases h
      exact ⟨rfl, hstage ▸ .fetchBest⟩
    · next bestStrat hstage =>
      cases h
      exact ⟨rfl, hstage ▸ .decide⟩
    · next outcome t hstage =>
      split at h
      · obtain ⟨t', ht', h⟩ := Option.map_eq_some_iff.mp h
        cases h
        exact ⟨rfl, hstage ▸ .statement ht'⟩
      · next row hended =>
        split at h
        · cases h
          exact ⟨rfl, hstage ▸ .commit hended⟩
        · cases h
          exact ⟨rfl, hstage ▸ .rollback⟩
    · next hstage =>
      cases h
      exact ⟨rfl, hstage ▸ .insPromotion⟩
    · cases h
    · cases h

/-- What holds of a flow: the best that it has read has a row, and its flip is on its
way. -/
structure FlowOk (rows : List StrategyRow) (job : FinishedJob α) (stage : Stage) : Prop where
  /-- The best that it has read has a row. -/
  decides : ∀ v, stage = .decide (some v) → ∃ v ∈ rows, v.strategyId = job.strategyId
  /-- Its flip is on its way. -/
  flips : ∀ outcome t, stage = .flipBest outcome t → FlipOk rows job outcome t

omit [LinearOrder α] [Sub α] in
/-- A flow with a flip that is on its way is right. -/
theorem FlowOk.flip (h : FlipOk rows job outcome t) : FlowOk rows job (.flipBest outcome t) := by
  refine ⟨nofun, fun outcome' t' heq => ?_⟩
  cases heq
  exact h

/-- **A decision** starts a flip that is on its way. The best that it has read has a row, and its
flip needs no more. -/
theorem FlowOk.decide {bestStrat : Option StrategyRow} {bestPayload : Option (Payload α)}
    (hok : FlowOk rows job (.decide bestStrat)) :
    FlowOk rows job (job.apply (job.decision bestStrat bestPayload)) := by
  unfold FinishedJob.apply
  split
  · next houtcome =>
    refine .flip (.start houtcome.symm fun hdemoted => ?_)
    -- only the best that was read is demoted
    obtain ⟨hcurrent, -, -⟩ := evaluatePromotion_demoted hdemoted
    cases bestStrat with
    | none => cases hcurrent
    | some v => exact hok.decides v rfl
  · exact ⟨nofun, nofun⟩

/-- **A step of a flow** keeps what holds of the strategies and of the flow, when its
first update meets the condition. -/
theorem FlowMove.keeps {stage stage' : Stage} {a : FlowStep α}
    (h : FlowMove rows job stage a rows' stage') (hI : BestInv rows) (hok : FlowOk rows job stage)
    (hcurrent : ∀ t, a ≠ .fail → stage = .flipBest .demoted t → t.atUpdate = true → ∀ v ∈ rows,
      v.isBest job.strategyId → (v.strategyVid : ℤ) = job.strategyVid ∨ v.strategyVid = 1) :
    BestInv rows' ∧ FlowOk rows' job stage' := by
  cases h with
  | fail => exact ⟨hI, nofun, nofun⟩
  | fetchBest =>
    refine ⟨hI, fun v hv => ?_, nofun⟩
    obtain ⟨hv, hbest⟩ := List.mem_filter.mp (List.mem_of_head? (Stage.decide.inj hv))
    exact ⟨v, hv, (isBest_iff.mp hbest).1⟩
  | decide => exact ⟨hI, hok.decide⟩
  | statement hstep =>
    refine ⟨hI, .flip ((hok.flips _ _ rfl).step hI hstep fun hat hdemoted => ?_)⟩
    subst hdemoted
    exact hcurrent _ nofun rfl hat
  | commit hended => exact ⟨hI.commit ((hok.flips _ _ rfl).commit hended), nofun, nofun⟩
  | rollback => exact ⟨hI, nofun, nofun⟩
  | insPromotion => exact ⟨hI, nofun, nofun⟩

omit [LinearOrder α] [Sub α] in
/-- A commit leaves another flow right, as long as not both are in their updates on one strategy.
-/
theorem Committed.flow {job' : FinishedJob α} {outcome' : Outcome} {stage : Stage}
    (h : Committed rows rows' job' outcome' t') (hok : FlowOk rows job stage)
    (hother : ∀ outcome t, stage = .flipBest outcome t → t.begun = true → t'.begun = true →
      job.strategyId ≠ job'.strategyId) : FlowOk rows' job stage := by
  refine ⟨fun v hv => ?_, fun outcome t ht => ?_⟩
  · rw [exists_row_iff, h.keys, ← exists_row_iff]
    exact hok.decides v hv
  · exact (hok.flips outcome t ht).commit_other h (hother outcome t ht)

/-- **The steps of the other flows** keep what holds of a flow, unless both are in the
updates of one strategy. -/
theorem FlowMove.keeps_other {job' : FinishedJob α} {stage stage' other : Stage} {a : FlowStep α}
    (h : FlowMove rows job stage a rows' stage') (hok : FlowOk rows job stage)
    (hv : FlowOk rows job' other)
    (hother : ∀ outcome t outcome' t', stage = .flipBest outcome t →
      other = .flipBest outcome' t' → t'.begun = true → t.begun = true →
      job'.strategyId ≠ job.strategyId) : FlowOk rows' job' other := by
  cases h with
  | commit hended =>
    refine ((hok.flips _ _ rfl).commit hended).flow hv fun outcome' t' ht' => ?_
    exact hother _ _ outcome' t' rfl ht'
  | fail => exact hv
  | fetchBest => exact hv
  | decide => exact hv
  | statement => exact hv
  | rollback => exact hv
  | insPromotion => exact hv

/-! ## Runs of flows -/

/-- The runs in which flips do not overlap and demotions are current. -/
abbrev OrderlyRun : PoolState FlipState (Flow α) → Prop :=
  (flips α).machine.Reach (Pool.Guard Current Alone)

/-- Two flows that are in the updates of one strategy. -/
def NotBothUpdating (v w : Flow α) : Prop :=
  ¬ (v.updating = true ∧ w.updating = true ∧ v.job.strategyId = w.job.strategyId)

/-- Only a step that begins the updates takes a flow into them. -/
theorem FlowMove.begins {stage stage' : Stage} {a : FlowStep α}
    (h : FlowMove rows job stage a rows' stage') (hstage : stage' = .flipBest outcome t')
    (hb : t'.begun = true) :
    a ≠ .fail ∧ ∃ t, stage = .flipBest outcome t ∧ (t.begun = true ∨ t.atUpdate = true) := by
  cases h with
  | decide =>
    unfold FinishedJob.apply at hstage
    split at hstage
    · cases hstage
      cases hb
    · cases hstage
  | statement hstep =>
    cases hstage
    exact ⟨nofun, _, rfl, (Transaction.begun_of_step hstep).1 hb⟩
  | fail => cases hstage
  | fetchBest => cases hstage
  | commit => cases hstage
  | rollback => cases hstage
  | insPromotion => cases hstage

/-- A flow that is alone in the updates of its strategy stays so. -/
theorem stepFlow_notBothUpdating (halone : Alone s w a v) (h : stepFlow s w a = some (s', w'))
    (hR : NotBothUpdating w v) : NotBothUpdating w' v := by
  obtain ⟨hjob, hmove⟩ := stepFlow_move h
  rintro ⟨hw, hv, hid⟩
  rw [hjob] at hid
  obtain ⟨outcome, t', hstage, hb⟩ := Flow.updating_iff.mp hw
  obtain ⟨hnext, t, hstage, hb | hat⟩ := hmove.begins hstage hb
  · exact hR ⟨Flow.updating_iff.mpr ⟨outcome, t, hstage, hb⟩, hv, hid⟩
  · exact halone ⟨outcome, hnext, t, hstage, hat⟩ ⟨hv, hid.symm⟩

/-- A flow begins by reading the best. -/
theorem flips_fresh {ws : List (Flow α)} {b : ℕ × FinishedJob α}
    (h : (flips α).fresh s ws b = some w) : w.stage = .fetchBest := by
  unfold flips at h
  dsimp only at h
  split at h
  · cases h
    rfl
  · cases h

/-- **The invariant of an orderly run**, of the strategies and of each flow. -/
theorem OrderlyRun.invariant {p : PoolState FlipState (Flow α)} (hp : OrderlyRun p) :
    BestInv p.shared.rows ∧ ∀ w ∈ p.workers, FlowOk p.shared.rows w.job w.stage := by
  have hp := Pool.exclusive_of_guard (R := NotBothUpdating) hp
    (fun v w h hboth => h ⟨hboth.2.1, hboth.1, hboth.2.2.symm⟩)
    (fun s ws b w h v _ hboth => by
      obtain ⟨outcome, t, hstage, -⟩ := Flow.updating_iff.mp hboth.2.1
      cases (flips_fresh h).symm.trans hstage)
    (fun s w a s' w' v halone h => stepFlow_notBothUpdating halone h)
  refine Pool.invariant (I := fun s => BestInv s.rows)
    (L := fun s w => FlowOk s.rows w.job w.stage) hp (fun s h => ?_) (fun s ws b w _ h => ?_)
    (fun s e _ _ _ => e.elim) (fun s w a s' w' hI hw hcurrent h => ?_)
    (fun s w a s' w' v hI hw hv _ hother h => ?_)
  · obtain ⟨-, calls, hcalls, hrows⟩ := h
    exact hrows ▸ .of_calls (bestKept_of_reach hcalls)
  · rw [flips_fresh h]
    exact ⟨nofun, nofun⟩
  · obtain ⟨hjob, hmove⟩ := stepFlow_move h
    rw [hjob]
    exact hmove.keeps hI hw fun t hnext hstage hat => hcurrent ⟨hnext, t, hstage, hat⟩
  · obtain ⟨-, hmove⟩ := stepFlow_move h
    refine hmove.keeps_other hw hv fun outcome t outcome' t' hstage hstage' hb' hb hid => ?_
    exact hother.2 ⟨Flow.updating_iff.mpr ⟨outcome, t, hstage, hb⟩,
      Flow.updating_iff.mpr ⟨outcome', t', hstage', hb'⟩, hid.symm⟩

omit [LinearOrder α] [Sub α] in
/-- A commit that takes the flag from a version is of a flip that may. -/
theorem Committed.takes {v : StrategyRow} (h : Committed rows rows' job outcome t)
    (hok : FlipOk rows job outcome t) (hloses : Loses v rows rows') :
    job.strategyId = v.strategyId ∧ (outcome = .promoted ∧ job.strategyVid ≠ v.strategyVid ∨
      outcome = .demoted ∧ job.strategyVid = v.strategyVid) := by
  obtain ⟨hv, hflag, hlost⟩ := hloses
  have hbegun : t.begun = true := Bool.eq_true_of_not_eq_false fun hno =>
    hlost v (h.unbegun hno ▸ hv) rfl hflag
  have hid : v.strategyId = job.strategyId := by
    by_contra hne
    have hmem : v ∈ rows'.filter (StrategyRow.isOf v.strategyId) :=
      h.others _ hne ▸ List.mem_filter.mpr ⟨hv, decide_eq_true rfl⟩
    exact hlost v (List.mem_filter.mp hmem).1 rfl hflag
  -- the version is there afterwards, but it is not the best
  have hkey : v.pk ∈ rows'.map StrategyRow.pk := h.keys ▸ List.mem_map_of_mem hv
  obtain ⟨v', hv', hpk⟩ := List.mem_map.mp hkey
  obtain ⟨hid', hvid'⟩ := Prod.mk.inj hpk
  have hne : (v.strategyVid : ℤ) ≠ (job.target outcome).getD 1 := fun heq =>
    hlost v' hv' hpk (((h.leaves hbegun).flagged v' hv' (hid'.trans hid)).mpr
      ((congrArg Nat.cast hvid').trans heq))
  refine ⟨hid.symm, hok.flips.imp (fun hpromoted => ⟨hpromoted, ?_⟩) fun hdemoted => ⟨hdemoted, ?_⟩⟩
  · rw [FinishedJob.target, if_pos hpromoted] at hne
    exact hne.symm
  · obtain ⟨b, hbest, hb⟩ := hok.current hbegun hdemoted
    have hvb := (hbest.flagged v hv hid).mp hflag
    rw [FinishedJob.target, if_neg (hdemoted ▸ nofun)] at hne
    exact (hb.resolve_right fun hone => hne (hvb.trans hone)).symm.trans hvb.symm

/-- Only a commit changes the strategies. -/
theorem FlowMove.rows_eq {stage stage' : Stage} {a : FlowStep α}
    (h : FlowMove rows job stage a rows' stage') : rows' = rows ∨
      ∃ outcome t row, stage = .flipBest outcome t ∧ t.ended = some row ∧
        rows' = view StrategyRow.pk rows t.writes := by
  cases h with
  | commit hended => exact Or.inr ⟨_, _, _, rfl, hended, rfl⟩
  | fail => exact Or.inl rfl
  | fetchBest => exact Or.inl rfl
  | decide => exact Or.inl rfl
  | statement => exact Or.inl rfl
  | rollback => exact Or.inl rfl
  | insPromotion => exact Or.inl rfl

/-- A version that stays as it is loses nothing. -/
theorem not_loses {v : StrategyRow} : ¬ Loses v rows rows := by
  rintro ⟨hv, hflag, hlost⟩
  exact hlost v hv rfl hflag

/-- A version loses the flag only to a flow that promotes another one, or has decided to demote
it. -/
theorem stepFlow_takes {v : StrategyRow} (hok : FlowOk s.rows w.job w.stage)
    (h : stepFlow s w a = some (s', w')) (hloses : Loses v s.rows s'.rows) : Takes w v := by
  obtain ⟨-, hmove⟩ := stepFlow_move h
  obtain hrows | ⟨outcome, t, row, hstage, hended, hrows⟩ := hmove.rows_eq
  · rw [hrows] at hloses
    exact (not_loses hloses).elim
  · rw [hrows] at hloses
    have hflip := hok.flips outcome t hstage
    exact ⟨outcome, t, hstage, (hflip.commit hended).takes hflip hloses⟩

/-- **Flips that do not overlap keep the best**, where a demotion is of the best that it
is about: so do calls one after another. -/
theorem orderly_keepBest (α : Type) [LinearOrder α] [Sub α] :
    CallsKeepBest ∧ FlowsKeepBest α (Pool.Guard Current Alone) := by
  refine ⟨fun s hs id hrow => (bestKept_of_reach hs).oneBest hrow, fun p hp => ?_⟩
  obtain ⟨hI, hok⟩ := OrderlyRun.invariant hp
  refine ⟨hI.atMostOneBest, fun a p' _ hstep v hloses => ?_⟩
  cases a with
  | env e => exact e.elim
  | spawn b =>
    obtain ⟨w, -, rfl⟩ := Option.map_eq_some_iff.mp hstep
    exact (not_loses hloses).elim
  | crash i =>
    cases hstep
    exact (not_loses hloses).elim
  | work i l =>
    obtain ⟨w, sh, w', hw, hwork, rfl⟩ := Pool.step_work hstep
    exact ⟨i, l, w, rfl, hw, stepFlow_takes (hok w (List.mem_of_getElem? hw)) hwork hloses⟩

/-! ## Flips that overlap -/

/-- A strategy is submitted. -/
def submission (now : ℤ) : Faults × StrategyCall :=
  (fun _ => none, .spInsStrategy now 0 ⟨some 0, some "strategy", some "{}", some "user"⟩)

/-- A strategy of three versions. -/
def threeVersions : List StrategyRow :=
  [⟨0, 3, some "strategy", "{}", "user", 2, ⊤, 'N', 'N'⟩,
    ⟨0, 2, some "strategy", "{}", "user", 1, ((2 : ℤ) : WithTop ℤ), 'N', 'N'⟩,
    ⟨0, 1, some "strategy", "{}", "user", 0, ((1 : ℤ) : WithTop ℤ), 'Y', 'N'⟩]

/-- Three versions that were submitted one after the other are where a run may begin. -/
theorem flips_init_threeVersions : (flips ℤ).machine.Init ⟨⟨threeVersions, []⟩, []⟩ := by
  obtain ⟨calls, hcalls, hrows⟩ := Machine.Reach.exists_of_runs (M := strategyCalls)
    (G := fun _ _ => True) (s := ⟨[], fun _ => none⟩) ⟨rfl, rfl⟩
    [submission 0, submission 1, submission 2] (P := fun s => s.rows = threeVersions)
    (by decide +kernel)
  exact ⟨⟨rfl, calls, hcalls, (of_decide_eq_true hrows).symm⟩, rfl⟩

/-- A job with a result, under one SOFT metric. The best has no result. -/
def soft (strategyVid : ℤ) : FinishedJob ℤ :=
  ⟨0, strategyVid, ⟨[], [], []⟩, [⟨none, "Sharpe Ratio", "higher_is_better", some "SOFT", none⟩]⟩

/-- The next statements of a flow. -/
def statements (i n : ℕ) : List (PoolAct Empty (ℕ × FinishedJob ℤ) (FlowStep ℤ)) :=
  List.replicate n (.work i (.next none))

/-- Versions 2 and 3 are promoted. Both flips have found version 1 to be demoted before
the first one of them commits. -/
def overlapping : List (PoolAct Empty (ℕ × FinishedJob ℤ) (FlowStep ℤ)) :=
  [.spawn (0, soft 2), .spawn (1, soft 3)] ++ statements 0 5 ++ statements 1 5 ++
    statements 0 7 ++ statements 1 7

/-- Two promotions that overlap leave two versions flagged. -/
theorem FlowsKeepBest.not_overlapping :
    ¬ (CallsKeepBest ∧ FlowsKeepBest ℤ (fun _ _ => True)) := by
  rintro ⟨-, h⟩
  obtain ⟨p, hp, htwo⟩ := Machine.Reach.exists_of_runs (M := (flips ℤ).machine)
    (G := fun _ _ => True) flips_init_threeVersions overlapping
    (P := fun p => (p.shared.rows.filter (StrategyRow.isBest 0)).length = 2) (by decide +kernel)
  have htwo := of_decide_eq_true htwo
  have hone := (h p hp).1 0
  omega

end Promotion
