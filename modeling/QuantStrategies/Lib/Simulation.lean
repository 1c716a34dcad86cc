import QuantStrategies.Lib.Pool

/-!
# Simulations

A machine is *simulated* by another through a view of its states: every step it takes is
one that the other takes as well, or is not seen at all. What holds in every state that
the second one reaches then holds of the view of every state that the first one reaches,
and a guard on the second one's runs is met where the first one's guard sees to it.

For pools the view is one of the shared state together with one of each worker, and it is
enough to look at the steps of a single worker (`Pool.Simulates`). A pool may have workers
that another pool knows nothing of, beside those it has from it (`Pool.Hosts`): what they do
to the other pool's state are moves of that one's world.

A simulation is composed with invariants and not with other simulations: what the second
machine keeps is proved of it alone, on its smaller state, and carried over in one step.
-/

universe u v u' v'

/-- **The simulation rule.** What is reached is reached by the simulating machine. A step of the
first machine may be no step of the second, and the guards of the two may differ. -/
theorem Machine.Reach.simulate {σ : Type u} {α : Type v} {τ : Type u'} {γ : Type v'}
    {M : Machine σ α} {N : Machine τ γ} {G : σ → α → Prop} {H : τ → γ → Prop} {s : σ}
    (view : σ → τ) (hs : M.Reach G s) (hinit : ∀ s, M.Init s → N.Init (view s))
    (hstep : ∀ s a s', G s a → M.step s a = some s' →
      view s' = view s ∨ ∃ c, H (view s) c ∧ N.step (view s) c = some (view s')) :
    N.Reach H (view s) := by
  induction hs with
  | init h => exact .init (hinit _ h)
  | step _ hg h ih =>
    obtain hsame | ⟨c, hc, hnext⟩ := hstep _ _ _ hg h
    · rw [hsame]
      exact ih
    · exact .step ih hc hnext

namespace Pool

variable {σ ω ε β α : Type u} {σ' ω' α' : Type u}

/-- A pool is simulated by another one that has the same world and starts the same
workers: a worker's step is not seen, or it is a step of the other pool's worker. The
steps that meet a condition are steps that meet the other pool's condition. -/
structure Simulates (P : Pool σ ω ε β α) (Q : Pool σ' ω' ε β α') (shared : σ → σ')
    (worker : ω → ω') (own : σ → ω → α → Prop) (own' : σ' → ω' → α' → Prop) : Prop where
  /-- What the pool starts from is what the other one starts from. -/
  init : ∀ s, P.Init s → Q.Init (shared s)
  /-- A move of the world is one there, too. -/
  env : ∀ s e s', P.env s e = some s' → Q.env (shared s) e = some (shared s')
  /-- A worker that is started is started there as well. -/
  fresh : ∀ s ws b w, P.fresh s ws b = some w →
    Q.fresh (shared s) (ws.map worker) b = some (worker w)
  /-- A worker's step is not seen there, or is the step of the worker that it looks like. -/
  work : ∀ s w a s' w', own s w a → P.work s w a = some (s', w') →
    (shared s' = shared s ∧ worker w' = worker w) ∨
      ∃ a', own' (shared s) (worker w) a' ∧
        Q.work (shared s) (worker w) a' = some (shared s', worker w')

namespace Simulates

variable {P : Pool σ ω ε β α} {Q : Pool σ' ω' ε β α'} {shared : σ → σ'} {worker : ω → ω'}
  {own : σ → ω → α → Prop} {own' : σ' → ω' → α' → Prop}

/-- The view of a pool. -/
def view (shared : σ → σ') (worker : ω → ω') (s : PoolState σ ω) : PoolState σ' ω' :=
  ⟨shared s.shared, s.workers.map worker⟩

/-- **The simulation rule for pools.** -/
theorem reach (h : P.Simulates Q shared worker own own') {s : PoolState σ ω}
    (hs : P.machine.Reach (Guard own (fun _ _ _ _ => True)) s) :
    Q.machine.Reach (Guard own' (fun _ _ _ _ => True)) (view shared worker s) := by
  refine hs.simulate (view shared worker) (fun s hs => ⟨h.init _ hs.1, ?_⟩)
    (fun s act s' hg hstep => ?_)
  · rw [view, hs.2]
    rfl
  · cases act with
    | env e =>
      obtain ⟨sh, he, rfl⟩ := Option.map_eq_some_iff.mp hstep
      exact .inr ⟨.env e, trivial, Option.map_eq_some_iff.mpr ⟨_, h.env _ _ _ he, rfl⟩⟩
    | spawn b =>
      obtain ⟨w, hw, rfl⟩ := Option.map_eq_some_iff.mp hstep
      refine .inr ⟨.spawn b, trivial, Option.map_eq_some_iff.mpr ⟨_, h.fresh _ _ _ _ hw, ?_⟩⟩
      rw [view, view, List.map_append]
      rfl
    | crash i =>
      obtain rfl := Option.some.inj hstep
      refine .inr ⟨.crash i, trivial, congrArg some ?_⟩
      rw [view, view, List.eraseIdx_eq_take_drop_succ, List.eraseIdx_eq_take_drop_succ,
        List.map_append, List.map_take, List.map_drop]
    | work i a =>
      obtain ⟨w, sh, w', hw, hr, rfl⟩ := step_work hstep
      have hview : (view shared worker s).workers[i]? = some (worker w) := by
        rw [view, List.getElem?_map, hw]
        rfl
      obtain ⟨hsh, hsame⟩ | ⟨a', hown, hr'⟩ := h.work _ _ _ _ _ (hg w hw).1 hr
      · -- the step is not seen
        refine .inl ?_
        obtain ⟨hi, hwi⟩ := List.getElem?_eq_some_iff.mp hview
        rw [view, List.map_set, hsame, hsh, ← hwi]
        exact congrArg _ (List.set_getElem_self hi)
      · refine .inr ⟨.work i a', fun v hv => ?_, ?_⟩
        · obtain rfl := Option.some.inj (hview.symm.trans hv)
          exact ⟨hown, fun _ _ => trivial⟩
        · unfold machine step
          dsimp only
          rw [hview]
          refine Option.map_eq_some_iff.mpr ⟨_, hr', ?_⟩
          rw [view, view, List.map_set]

end Simulates

/-! ## Guests -/

variable {ε' β' : Type u}

/-- A pool hosts another one: some of its workers are the other one's, its guests, and take
their steps. What happens besides is not seen, or is a move of the other one's world. -/
structure Hosts (P : Pool σ ω ε β α) (Q : Pool σ' ω' ε' β' α') (shared : σ → σ')
    (guest : ω → Option ω') : Prop where
  /-- What the pool starts from is what the other one starts from. -/
  init : ∀ s, P.Init s → Q.Init (shared s)
  /-- A move of its world is not seen by its guests, or is a move of theirs. -/
  env : ∀ s e s', P.env s e = some s' →
    shared s' = shared s ∨ ∃ e', Q.env (shared s) e' = some (shared s')
  /-- A worker that is started is no guest, or is one that the other pool would have started. -/
  fresh : ∀ s ws b w, P.fresh s ws b = some w →
    guest w = none ∨ ∃ b' g, guest w = some g ∧
      Q.fresh (shared s) (ws.filterMap guest) b' = some g
  /-- A guest takes a step of its own; what any other worker does is not seen, or is a move of
  the guests' world. -/
  work : ∀ s w a s' w', P.work s w a = some (s', w') →
    (∃ g g' a', guest w = some g ∧ guest w' = some g' ∧
      Q.work (shared s) g a' = some (shared s', g')) ∨
      (guest w = none ∧ guest w' = none ∧
        (shared s' = shared s ∨ ∃ e', Q.env (shared s) e' = some (shared s')))

namespace Hosts

variable {P : Pool σ ω ε β α} {Q : Pool σ' ω' ε' β' α'} {shared : σ → σ'}
  {guest : ω → Option ω'}

/-- The pool that is hosted. -/
def view (shared : σ → σ') (guest : ω → Option ω') (s : PoolState σ ω) : PoolState σ' ω' :=
  ⟨shared s.shared, s.workers.filterMap guest⟩

/-- A worker of a list and those around it. -/
theorem split {ws : List ω} {i : ℕ} {w : ω} (h : ws[i]? = some w) (w' : ω) :
    ws = ws.take i ++ w :: ws.drop (i + 1) ∧ ws.set i w' = ws.take i ++ w' :: ws.drop (i + 1) := by
  obtain ⟨hi, rfl⟩ := List.getElem?_eq_some_iff.mp h
  refine ⟨?_, ?_⟩
  · rw [List.getElem_cons_drop, List.take_append_drop]
  · rw [List.set_eq_take_append_cons_drop, if_pos hi]

/-- A worker is lost, or a guest is. -/
theorem view_crash (shared : σ → σ') (guest : ω → Option ω') (s : PoolState σ ω) (i : ℕ) :
    view shared guest { s with workers := s.workers.eraseIdx i } = view shared guest s ∨
      ∃ j, view shared guest { s with workers := s.workers.eraseIdx i } =
        { view shared guest s with workers := (view shared guest s).workers.eraseIdx j } := by
  cases hw : s.workers[i]? with
  | none =>
    refine .inl ?_
    rw [List.eraseIdx_of_length_le (List.getElem?_eq_none_iff.mp hw)]
  | some w =>
    obtain ⟨hsplit, -⟩ := split hw w
    have herase : (s.workers.eraseIdx i).filterMap guest =
        (s.workers.take i).filterMap guest ++ (s.workers.drop (i + 1)).filterMap guest := by
      rw [List.eraseIdx_eq_take_drop_succ, List.filterMap_append]
    have hws := congrArg (List.filterMap guest) hsplit
    rw [List.filterMap_append] at hws
    cases hg : guest w with
    | none =>
      rw [List.filterMap_cons_none hg] at hws
      refine .inl ?_
      rw [view, view, herase, hws]
    | some g =>
      rw [List.filterMap_cons_some hg] at hws
      refine .inr ⟨((s.workers.take i).filterMap guest).length, ?_⟩
      dsimp only [view]
      rw [herase, hws, List.eraseIdx_append_of_length_le (Nat.le_refl _), Nat.sub_self,
        List.eraseIdx_cons_zero]

/-- **The rule for guests.** What a run reaches, its guests reach on their own. -/
theorem reach (h : P.Hosts Q shared guest) {s : PoolState σ ω}
    (hs : P.machine.Reach (fun _ _ => True) s) :
    Q.machine.Reach (fun _ _ => True) (view shared guest s) := by
  refine hs.simulate (view shared guest) (fun s hs => ⟨h.init _ hs.1, ?_⟩)
    (fun s act s' _ hstep => ?_)
  · rw [view, hs.2]
    rfl
  · have hworld {sh : σ} {ws : List ω} (hws : ws.filterMap guest = s.workers.filterMap guest)
        (hsh : shared sh = shared s.shared ∨ ∃ e', Q.env (shared s.shared) e' = some (shared sh)) :
        view shared guest ⟨sh, ws⟩ = view shared guest s ∨ ∃ c, True ∧
          Q.machine.step (view shared guest s) c = some (view shared guest ⟨sh, ws⟩) := by
      obtain hsh | ⟨e', he'⟩ := hsh
      · refine .inl ?_
        rw [view, view, hsh, hws]
      · refine .inr ⟨.env e', trivial, Option.map_eq_some_iff.mpr ⟨_, he', ?_⟩⟩
        rw [view, view, hws]
    cases act with
    | env e =>
      obtain ⟨sh, he, rfl⟩ := Option.map_eq_some_iff.mp hstep
      exact hworld rfl (h.env _ _ _ he)
    | spawn b =>
      obtain ⟨w, hw, rfl⟩ := Option.map_eq_some_iff.mp hstep
      obtain hg | ⟨b', g, hg, hfresh⟩ := h.fresh _ _ _ _ hw
      · refine .inl ?_
        rw [view, view, List.filterMap_append, List.filterMap_cons_none hg, List.filterMap_nil,
          List.append_nil]
      · refine .inr ⟨.spawn b', trivial, Option.map_eq_some_iff.mpr ⟨_, hfresh, ?_⟩⟩
        rw [view, view, List.filterMap_append, List.filterMap_cons_some hg]
        rfl
    | crash i =>
      obtain rfl := Option.some.inj hstep
      obtain hsame | ⟨j, hj⟩ := view_crash shared guest s i
      · exact .inl hsame
      · exact .inr ⟨.crash j, trivial, congrArg some hj.symm⟩
    | work i a =>
      obtain ⟨w, sh, w', hw, hr, rfl⟩ := step_work hstep
      obtain ⟨hsplit, hset⟩ := split hw w'
      have hws := congrArg (List.filterMap guest) hsplit
      have hws' := congrArg (List.filterMap guest) hset
      rw [List.filterMap_append] at hws hws'
      obtain ⟨g, g', a', hg, hg', hr'⟩ | ⟨hg, hg', hsh⟩ := h.work _ _ _ _ _ hr
      -- a guest's step is taken where the guest stands among the guests
      · rw [List.filterMap_cons_some hg] at hws
        rw [List.filterMap_cons_some hg'] at hws'
        refine .inr ⟨.work ((s.workers.take i).filterMap guest).length a', trivial, ?_⟩
        unfold machine step
        dsimp only [view]
        rw [hws, hws', List.getElem?_append_right (Nat.le_refl _), Nat.sub_self, List.getElem?_cons_zero]
        refine Option.map_eq_some_iff.mpr ⟨_, hr', ?_⟩
        rw [List.set_append_right _ _ (Nat.le_refl _), Nat.sub_self, List.set_cons_zero]
      · rw [List.filterMap_cons_none hg] at hws
        rw [List.filterMap_cons_none hg'] at hws'
        exact hworld (hws'.trans hws.symm) hsh

end Hosts

end Pool
