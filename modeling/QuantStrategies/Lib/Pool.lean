import Mathlib.Data.List.Basic
import QuantStrategies.Lib.Transition

/-!
# Workers over a shared state

A `Pool` is a number of workers that take atomic steps on one shared state:
the steps of different workers interleave in any order, a worker may be
started at any moment, and may be lost at any moment with nothing undone. The
world around the pool (a clock, say) moves the shared state as well.

Invariants of such a pool have two parts, one about the shared state and one
about each worker against the shared state. `Pool.invariant` is the rule that
establishes both: a worker's own step must keep the shared invariant and
re-establish its own assertion, and must not *interfere* with the assertion
any other worker relies on. A guard may rule out steps, in terms of the worker
that takes them and of any other worker that is under way at that moment.

A worker that is lost takes its assertion with it and leaves the shared state as it was. So
an invariant that is kept by single steps is kept by crashes as well, at whatever point of a
program they come, and nothing has to be proved of them.
-/

universe u

/-- A pool of workers `ω` over a shared state `σ`: `ε` are the moves of the
world, `β` what a worker can be started for, `α` the labels of its steps. -/
structure Pool (σ ω ε β α : Type u) where
  /-- The shared states a run may start from, with no worker under way. -/
  Init : σ → Prop
  /-- A move of the world. -/
  env : σ → ε → Option σ
  /-- The worker started for a task, when the shared state and the workers under
  way admit one. -/
  fresh : σ → List ω → β → Option ω
  /-- One atomic step of a worker. -/
  work : σ → ω → α → Option (σ × ω)

/-- A shared state with the workers under way. -/
structure PoolState (σ ω : Type u) where
  /-- What all workers read and write: tables, caches, the clock. -/
  shared : σ
  /-- Where each of them is, with what it has read so far. -/
  workers : List ω

/-- What can happen next in a pool. -/
inductive PoolAct (ε β α : Type u) where
  | env (e : ε)
  | spawn (b : β)
  | work (i : ℕ) (a : α)
  | crash (i : ℕ)

namespace Pool

variable {σ ω ε β α : Type u} (P : Pool σ ω ε β α)

/-- One step of the pool. -/
def step (s : PoolState σ ω) : PoolAct ε β α → Option (PoolState σ ω)
  | .env e => (P.env s.shared e).map (fun sh => { s with shared := sh })
  | .spawn b => (P.fresh s.shared s.workers b).map
      (fun w => { s with workers := s.workers ++ [w] })
  | .work i a =>
      match s.workers[i]? with
      | none => none
      | some w => (P.work s.shared w a).map
          (fun r => { shared := r.1, workers := s.workers.set i r.2 })
  | .crash i => some { s with workers := s.workers.eraseIdx i }

/-- The pool as a machine that starts with no worker. -/
def machine : Machine (PoolState σ ω) (PoolAct ε β α) where
  Init s := P.Init s.shared ∧ s.workers = []
  step := P.step

/-- The guard on a pool's steps made of a condition on the step a worker takes
and a condition on that step against every other worker under way. -/
def Guard (own : σ → ω → α → Prop) (other : σ → ω → α → ω → Prop)
    (s : PoolState σ ω) : PoolAct ε β α → Prop
  | .work i a => ∀ w ∈ s.workers[i]?, own s.shared w a ∧
      ∀ v ∈ s.workers.eraseIdx i, other s.shared w a v
  | _ => True

instance (own : σ → ω → α → Prop) (other : σ → ω → α → ω → Prop)
    [∀ s w a, Decidable (own s w a)] [∀ s w a v, Decidable (other s w a v)]
    (s : PoolState σ ω) (a : PoolAct ε β α) : Decidable (Guard own other s a) :=
  match a with
  | .work i a => inferInstanceAs (Decidable (∀ w ∈ s.workers[i]?, own s.shared w a ∧
      ∀ v ∈ s.workers.eraseIdx i, other s.shared w a v))
  | .env _ => .isTrue trivial
  | .spawn _ => .isTrue trivial
  | .crash _ => .isTrue trivial

variable {P}

/-- What a worker's step does to the pool. -/
theorem step_work {s s' : PoolState σ ω} {i : ℕ} {a : α}
    (h : P.step s (.work i a) = some s') :
    ∃ w sh w', s.workers[i]? = some w ∧ P.work s.shared w a = some (sh, w') ∧
      s' = { shared := sh, workers := s.workers.set i w' } := by
  unfold step at h
  cases hw : s.workers[i]? with
  | none => simp only [hw, reduceCtorEq] at h
  | some w =>
    simp only [hw, Option.map_eq_some_iff] at h
    obtain ⟨⟨sh, w'⟩, hr, rfl⟩ := h
    exact ⟨w, sh, w', rfl, hr, rfl⟩

/-- A symmetric relation holds between any two workers under way at once, when
a worker is only started if it stands in the relation to those there are, and
no step that meets the guard takes a worker out of it. -/
theorem pairwise {R : ω → ω → Prop} {own : σ → ω → α → Prop}
    {other : σ → ω → α → ω → Prop} {s : PoolState σ ω}
    (hs : P.machine.Reach (Guard own other) s) (hsymm : ∀ v w, R v w → R w v)
    (hfresh : ∀ s ws b w, P.fresh s ws b = some w → ∀ v ∈ ws, R v w)
    (hwork : ∀ s w a s' w' v, other s w a v → P.work s w a = some (s', w') → R w v → R w' v) :
    s.workers.Pairwise R := by
  refine hs.invariant (I := fun s => s.workers.Pairwise R) (fun s h => ?_)
    (fun s a s' hI hg h => ?_)
  · rw [h.2]
    exact List.Pairwise.nil
  · cases a with
    | env e =>
      obtain ⟨sh, -, rfl⟩ := Option.map_eq_some_iff.mp h
      exact hI
    | spawn b =>
      obtain ⟨w, hw, rfl⟩ := Option.map_eq_some_iff.mp h
      exact List.pairwise_append.mpr ⟨hI, List.pairwise_singleton _ _,
        fun v hv x hx => List.mem_singleton.mp hx ▸ hfresh _ _ _ _ hw v hv⟩
    | crash i =>
      obtain rfl := Option.some.inj h
      exact hI.sublist (List.eraseIdx_sublist _ _)
    | work i a =>
      obtain ⟨w, sh, w', hw, hr, rfl⟩ := step_work h
      obtain ⟨-, hgv⟩ := hg w hw
      obtain ⟨hi, rfl⟩ := List.getElem?_eq_some_iff.mp hw
      have hR := List.pairwise_iff_getElem.mp hI
      have hgo (j : ℕ) (hj : j < s.workers.length) (hji : j ≠ i) :
          other s.shared s.workers[i] a s.workers[j] :=
        hgv _ (List.mem_eraseIdx_iff_getElem?.mpr ⟨j, hji, List.getElem?_eq_getElem hj⟩)
      refine List.pairwise_iff_getElem.mpr fun j k hj hk hjk => ?_
      rw [List.length_set] at hj hk
      rw [List.getElem_set, List.getElem_set]
      split
      · rename_i hij
        subst hij
        rw [if_neg (Nat.ne_of_lt hjk)]
        exact hwork _ _ _ _ _ _ (hgo k hk (Nat.ne_of_gt hjk)) hr (hR _ _ hi hk hjk)
      · split
        · rename_i hik
          subst hik
          exact hsymm _ _ (hwork _ _ _ _ _ _ (hgo j hj (Nat.ne_of_lt hjk)) hr
            (hsymm _ _ (hR _ _ hj hi hjk)))
        · exact hR _ _ hj hk hjk

/-- **The exclusion rule.** A relation that any two workers stand in can be
added to the guard of a run. -/
theorem exclusive_of_guard {R : ω → ω → Prop} {own : σ → ω → α → Prop}
    {other : σ → ω → α → ω → Prop} {s : PoolState σ ω}
    (hs : P.machine.Reach (Guard own other) s) (hsymm : ∀ v w, R v w → R w v)
    (hfresh : ∀ s ws b w, P.fresh s ws b = some w → ∀ v ∈ ws, R v w)
    (hwork : ∀ s w a s' w' v, other s w a v → P.work s w a = some (s', w') → R w v → R w' v) :
    P.machine.Reach (Guard own (fun s w a v => other s w a v ∧ R w v)) s := by
  refine (hs.strengthen fun s hs => pairwise hs hsymm hfresh hwork).mono fun s a hga => ?_
  obtain ⟨hg, hR⟩ := hga
  cases a with
  | work i a =>
    intro w hw
    obtain ⟨hgo, hgv⟩ := hg w hw
    refine ⟨hgo, fun v hv => ⟨hgv v hv, ?_⟩⟩
    obtain ⟨j, hji, hj⟩ := List.mem_eraseIdx_iff_getElem?.mp hv
    obtain ⟨hi, rfl⟩ := List.getElem?_eq_some_iff.mp hw
    obtain ⟨hlj, rfl⟩ := List.getElem?_eq_some_iff.mp hj
    rcases Nat.lt_or_gt_of_ne hji with hlt | hlt
    · exact hsymm _ _ (List.pairwise_iff_getElem.mp hR j i hlj hi hlt)
    · exact List.pairwise_iff_getElem.mp hR i j hi hlj hlt
  | env e => trivial
  | spawn b => trivial
  | crash i => trivial

/-- The exclusion rule, for a relation that every step keeps. -/
theorem exclusive {R : ω → ω → Prop} {own : σ → ω → α → Prop}
    {other : σ → ω → α → ω → Prop} {s : PoolState σ ω}
    (hs : P.machine.Reach (Guard own other) s) (hsymm : ∀ v w, R v w → R w v)
    (hfresh : ∀ s ws b w, P.fresh s ws b = some w → ∀ v ∈ ws, R v w)
    (hwork : ∀ s w a s' w' v, P.work s w a = some (s', w') → R w v → R w' v) :
    P.machine.Reach (Guard own (fun s w a v => other s w a v ∧ R w v)) s :=
  exclusive_of_guard hs hsymm hfresh fun s w a s' w' v _ => hwork s w a s' w' v

/-- **The interference rule.** An invariant `I` of the shared state together
with an assertion `L` of each worker holds in every state a guarded run
reaches, when starting a worker establishes its assertion, the world keeps
everything, a worker's step keeps the invariant and its own assertion, and no
step that meets the guard breaks the assertion of another worker. -/
theorem invariant {I : σ → Prop} {L : σ → ω → Prop}
    {own : σ → ω → α → Prop} {other : σ → ω → α → ω → Prop}
    {s : PoolState σ ω} (hs : P.machine.Reach (Guard own other) s)
    (hinit : ∀ s, P.Init s → I s)
    (hfresh : ∀ s ws b w, I s → P.fresh s ws b = some w → L s w)
    (henv : ∀ s e s', I s → P.env s e = some s' →
      I s' ∧ ∀ w, L s w → L s' w)
    (hown : ∀ s w a s' w', I s → L s w → own s w a →
      P.work s w a = some (s', w') → I s' ∧ L s' w')
    (hother : ∀ s w a s' w' v, I s → L s w → L s v → own s w a → other s w a v →
      P.work s w a = some (s', w') → L s' v) :
    I s.shared ∧ ∀ w ∈ s.workers, L s.shared w := by
  refine hs.invariant (I := fun s => I s.shared ∧ ∀ w ∈ s.workers, L s.shared w)
    (fun s h => ⟨hinit _ h.1, ?_⟩) (fun s a s' hI hg h => ?_)
  · rw [h.2]
    exact fun w hw => absurd hw List.not_mem_nil
  · obtain ⟨hsh, hws⟩ := hI
    cases a with
    | env e =>
      obtain ⟨sh, he, rfl⟩ := Option.map_eq_some_iff.mp h
      obtain ⟨h1, h2⟩ := henv _ _ _ hsh he
      exact ⟨h1, fun w hw => h2 w (hws w hw)⟩
    | spawn b =>
      obtain ⟨w, hw, rfl⟩ := Option.map_eq_some_iff.mp h
      refine ⟨hsh, fun v hv => ?_⟩
      rcases List.mem_append.mp hv with hv | hv
      · exact hws v hv
      · rw [List.mem_singleton.mp hv]
        exact hfresh _ _ _ _ hsh hw
    | crash i =>
      obtain rfl := Option.some.inj h
      exact ⟨hsh, fun w hw => hws w (List.mem_of_mem_eraseIdx hw)⟩
    | work i a =>
      obtain ⟨w, sh, w', hw, hr, rfl⟩ := step_work h
      obtain ⟨hgo, hgv⟩ := hg w hw
      have hLw := hws w (List.mem_of_getElem? hw)
      obtain ⟨h1, h2⟩ := hown _ _ _ _ _ hsh hLw hgo hr
      refine ⟨h1, fun v hv => ?_⟩
      -- a worker of the new list is the one that stepped, or another one
      obtain ⟨j, hj⟩ := List.mem_iff_getElem?.mp hv
      by_cases hji : j = i
      · subst hji
        rw [List.getElem?_set_self (List.getElem?_eq_some_iff.mp hw).1] at hj
        exact Option.some.inj hj ▸ h2
      · rw [List.getElem?_set_ne (Ne.symm hji)] at hj
        exact hother _ _ _ _ _ _ hsh hLw (hws v (List.mem_of_getElem? hj)) hgo
          (hgv v (List.mem_eraseIdx_iff_getElem?.mpr ⟨j, hji, hj⟩)) hr

end Pool
