import QuantStrategies.Database.Backtest
import QuantStrategies.Database.Deployment
import QuantStrategies.Database.SeriesSubscr
import QuantStrategies.Lib.Transition

/-!
# Histories without gaps

Four procedures version their tables, each in its own words and each with a
handler of its own. The calls are serialised, a call that fails is rolled back,
and time does not run backwards between calls. After any number of calls, with
any arguments and whatever the server refused, an entity that has a row has one
open row, which is its newest; its versions are numbered from one; and nothing
lies between the windows of two versions that follow each other.

The invariant is one statement about a table of any kind (`SoftTable.Histories`), and one
rule for a write of the next version. Each procedure then has to be shown to be such a
write, or to leave its table alone, and the run follows by induction on the calls.
-/

namespace Database

/-- The soft-versioned tables, and the time of the last call. -/
structure VersionedTables where
  /-- The time of the last call. -/
  clock : ℤ
  /-- The jobs. -/
  queue : List QueueRow
  /-- The deployments. -/
  deployment : DeploymentTables
  /-- The subscriptions. -/
  seriesSubscr : List SeriesSubscrRow
  /-- The strategies. -/
  strategy : List StrategyRow
deriving DecidableEq

/-- A call of one of the procedures, with its arguments. A strategy's may need an id
that the server generates. -/
inductive Call where
  | spInsQueue (a : QueueArgs)
  | spInsDeployment (a : DeploymentArgs)
  | spInsSeriesSubscr (a : SeriesSubscrArgs)
  | spInsStrategy (generated : ℕ) (a : StrategyArgs)

/-- What a call leaves stored. -/
def Call.write (f : Faults) (now : ℤ) (s : VersionedTables) : Call → VersionedTables
  | spInsQueue a => { s with
      clock := now
      queue := (callWrite f (Database.spInsQueue f now a) s.queue).2 }
  | spInsDeployment a => { s with
      clock := now
      deployment := (callWrite f (Database.spInsDeployment f now a) s.deployment).2 }
  | spInsSeriesSubscr a => { s with
      clock := now
      seriesSubscr := (callWrite f (Database.spInsSeriesSubscr f now a) s.seriesSubscr).2 }
  | spInsStrategy generated a => { s with
      clock := now
      strategy := (callWrite f (Database.spInsStrategy f now generated a) s.strategy).2 }

/-- One call after another, from empty tables, at times that do not decrease. What the
server refuses in a call is part of its label. -/
def serialised : Machine VersionedTables (Faults × ℤ × Call) where
  Init s := s.queue = [] ∧ s.deployment = ⟨[], []⟩ ∧ s.seriesSubscr = [] ∧ s.strategy = []
  step s l := if s.clock ≤ l.2.1 then some (l.2.2.write l.1 l.2.1 s) else none

/-- Every entity of the four tables has a history that is still open. -/
structure Histories (s : VersionedTables) : Prop where
  /-- Every job has one. -/
  queue : QueueRow.table.Histories s.queue
  /-- So has every deployment. -/
  deployment : DeploymentRow.table.Histories s.deployment.deployments
  /-- And every subscription. -/
  seriesSubscr : SeriesSubscrRow.table.Histories s.seriesSubscr
  /-- And every strategy. -/
  strategy : StrategyRow.table.Histories s.strategy

/-- What the four tables promise of every entity that has a row. -/
structure SoftVersionedTables (s : VersionedTables) : Prop where
  /-- Every job. -/
  queue : ∀ k, (∃ v ∈ s.queue, v.queueId = k) → QueueRow.table.SoftVersioned s.queue k
  /-- Every deployment. -/
  deployment : ∀ k, (∃ v ∈ s.deployment.deployments, v.deploymentId = k) →
    DeploymentRow.table.SoftVersioned s.deployment.deployments k
  /-- Every subscription. -/
  seriesSubscr : ∀ k, (∃ v ∈ s.seriesSubscr, v.seriesSubscrId = k) →
    SeriesSubscrRow.table.SoftVersioned s.seriesSubscr k
  /-- Every strategy. -/
  strategy : ∀ k, (∃ v ∈ s.strategy, v.strategyId = k) →
    StrategyRow.table.SoftVersioned s.strategy k

variable {f : Faults} {now : ℤ} {s s' : VersionedTables}

/-- **`SP_INS_DEPLOYMENT` keeps every deployment's history**, whatever it reports and
whatever becomes of the schedule. -/
theorem spInsDeployment_histories {a : DeploymentArgs} {t t' : DeploymentTables}
    {row : OutRow Unit} (h : spInsDeployment f now a t = .ok (row, t'))
    (ht : DeploymentRow.table.Histories t.deployments) :
    DeploymentRow.table.Histories t'.deployments := by
  obtain h | ⟨e, -, -, h⟩ := Sql.block_eq_ok.mp h
  · obtain ⟨nested, _, h1, h⟩ := Sql.bind_eq_ok.mp h
    cases Sql.pure_eq_ok.mp h
    obtain ⟨vid, _, h2, h1⟩ := Sql.bind_eq_ok.mp h1
    obtain ⟨_, log, hins, h2⟩ := Sql.zoom_eq_ok.mp h2
    cases h2
    obtain ⟨_, _, h3, h1⟩ := Sql.bind_eq_ok.mp h1
    obtain ⟨_, sched, -, h3⟩ := Sql.zoom_eq_ok.mp h3
    cases h3
    obtain ⟨_, _, h4, h1⟩ := Sql.bind_eq_ok.mp h1
    cases coreInsLogProc_state h4
    cases Sql.pure_eq_ok.mp h1
    exact insVersion_histories a.newVersion hins ht
  · cases h
    exact ht

/-- Every call keeps every history. -/
theorem Histories.write (h : Histories s) (c : Call) : Histories (c.write f now s) := by
  cases c with
  | spInsQueue a =>
    exact ⟨callWrite_keeps h.queue fun _ _ hcall => spInsQueue_histories hcall h.queue,
      h.deployment, h.seriesSubscr, h.strategy⟩
  | spInsDeployment a =>
    refine ⟨h.queue, ?_, h.seriesSubscr, h.strategy⟩
    exact callWrite_keeps (P := fun t => DeploymentRow.table.Histories t.deployments) h.deployment
      fun _ _ hcall => spInsDeployment_histories hcall h.deployment
  | spInsSeriesSubscr a =>
    exact ⟨h.queue, h.deployment, callWrite_keeps h.seriesSubscr fun _ _ hcall =>
      spInsSeriesSubscr_histories hcall h.seriesSubscr, h.strategy⟩
  | spInsStrategy generated a =>
    exact ⟨h.queue, h.deployment, h.seriesSubscr, callWrite_keeps h.strategy fun _ _ hcall =>
      spInsStrategy_histories hcall h.strategy⟩

theorem Histories.reach (h : serialised.Reach (fun _ _ => True) s) : Histories s := by
  refine h.invariant (fun s hs => ?_) fun s l s' ih _ hstep => ?_
  · obtain ⟨hqueue, hdeployment, hseries, hstrategy⟩ := hs
    refine ⟨?_, ?_, ?_, ?_⟩
    · rw [hqueue]
      exact SoftTable.Histories.nil
    · rw [hdeployment]
      exact SoftTable.Histories.nil
    · rw [hseries]
      exact SoftTable.Histories.nil
    · rw [hstrategy]
      exact SoftTable.Histories.nil
  · obtain ⟨-, hs'⟩ := Option.ite_none_right_eq_some.mp hstep
    cases hs'
    exact ih.write _

/-- **After any serialised calls** every entity that has a row, in each of the four
tables, has one open row, which is its newest, versions numbered from one, and windows
without a gap. -/
theorem serialised_softVersioned (s : VersionedTables)
    (hs : serialised.Reach (fun _ _ => True) s) : SoftVersionedTables s :=
  have h := Histories.reach hs
  ⟨fun _ hk => h.queue.softVersioned hk, fun _ hk => h.deployment.softVersioned hk,
    fun _ hk => h.seriesSubscr.softVersioned hk, fun _ hk => h.strategy.softVersioned hk⟩

namespace History

/-- A call in which the server raises nothing. -/
def quiet : Faults := fun _ => none

/-- A call whose insert is refused. -/
def refused : Faults := fun
  | .insert => some ⟨"53100", "could not extend file", by decide⟩
  | _ => none

/-- Two names of a strategy on one id, a job that is run twice, a deployment and a
subscription, with refused calls in between. -/
def calls : List (Faults × ℤ × Call) :=
  let job : QueueArgs := ⟨some 7, some 5, some 1, some 1, some 0, none, some "1"⟩
  [(quiet, 0, .spInsStrategy 9 ⟨some 5, some "trend", some "a", some "1"⟩),
    (quiet, 1, .spInsStrategy 9 ⟨some 5, some "carry", some "b", some "1"⟩),
    (quiet, 1, .spInsStrategy 9 ⟨none, some " ", some "b", some "1"⟩),
    (quiet, 2, .spInsQueue job), (refused, 3, .spInsQueue job), (quiet, 3, .spInsQueue job),
    (quiet, 3, .spInsDeployment ⟨some 7, some 1, some 5, some 2, some 2, some 4,
      some "btcusdt.crypto", some 1, some 'Y', some 'Y', some "ACTIVE", some 1, some "1", none⟩),
    (quiet, 4, .spInsSeriesSubscr ⟨some 7, some "btcusdt.crypto", some 4, none, some 1, some 'Y',
      none⟩)]

/-- Each table has rows, and two of them are versions of the strategy 5. -/
def filled (s : VersionedTables) : Bool :=
  s.queue.length = 2 && s.deployment.deployments.length = 1 && s.seriesSubscr.length = 1 &&
    (s.strategy.map StrategyRow.strategyId) = [5, 5]

end History

/-- Two names that share an id, and refused calls in between. -/
theorem calls_softVersioned : ∃ s, serialised.Reach (fun _ _ => True) s ∧
    History.filled s = true ∧ SoftVersionedTables s := by
  have hinit : serialised.Init ⟨0, [], ⟨[], []⟩, [], []⟩ := ⟨rfl, rfl, rfl, rfl⟩
  have hrun : (serialised.runs (fun _ _ => True) ⟨0, [], ⟨[], []⟩, [], []⟩ History.calls).any
      History.filled = true := by decide +kernel
  obtain ⟨s, hs, hfilled⟩ := Machine.Reach.exists_of_runs hinit _ hrun
  exact ⟨s, hs, hfilled, serialised_softVersioned s hs⟩

end Database
