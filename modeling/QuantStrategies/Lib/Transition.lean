import Mathlib.Data.List.Basic

/-!
# Labelled machines, guarded runs and their invariants

A `Machine` is a set of initial states and an executable, partial step
function on labelled states. What can be said about its runs is said through
*guarded reachability*: `Reach G s` holds of a state reached by steps each of
which met the condition `G` in the state it started from. Reachability without
a condition is the case of the guard that always holds.

The guard is what separates what a program does under every schedule from
what it does under the schedules it was written for: a property that holds on
guarded runs only is stated with its guard, and a run that leaves the guard is
exhibited by `Machine.runs`, which executes a list of labels under a guard that
can be decided.

A run is given by its labels, and a step is a function, so a run can be computed and a state
that it ends in looked at. Invariants are proved by one rule (`Machine.invariant`), which
asks of a single step what the run is then known to keep.
-/

universe u v

variable {σ : Type u} {α : Type v}

/-- A labelled machine: its initial states, and a step function that answers
`none` where the label is not enabled. -/
structure Machine (σ : Type u) (α : Type v) where
  /-- The states a run may start from. -/
  Init : σ → Prop
  /-- One step under a label, when it is enabled. -/
  step : σ → α → Option σ

namespace Machine

variable (M : Machine σ α)

/-- The states reached by steps that all meet the guard. -/
inductive Reach (G : σ → α → Prop) : σ → Prop where
  | init {s : σ} (h : M.Init s) : Reach G s
  | step {s s' : σ} {a : α} (hs : Reach G s) (hg : G s a)
      (h : M.step s a = some s') : Reach G s'

/-- The state a list of labels leads to, when each label is enabled in turn
and meets the guard. -/
def runs (G : σ → α → Prop) [∀ s a, Decidable (G s a)] (s : σ) : List α → Option σ
  | [] => some s
  | a :: as => if G s a then (M.step s a).bind (fun s' => runs G s' as) else none

variable {M} {G H : σ → α → Prop}

/-- **The invariant rule.** What holds initially, and is preserved by every
step that meets the guard, holds in every state a guarded run reaches. -/
theorem Reach.invariant {I : σ → Prop} {s : σ} (hs : M.Reach G s)
    (h0 : ∀ s, M.Init s → I s)
    (hstep : ∀ s a s', I s → G s a → M.step s a = some s' → I s') : I s := by
  induction hs with
  | init h => exact h0 _ h
  | step _ hg h ih => exact hstep _ _ _ ih hg h

theorem Reach.mono (hGH : ∀ s a, G s a → H s a) {s : σ} (hs : M.Reach G s) :
    M.Reach H s := by
  induction hs with
  | init h => exact .init h
  | step _ hg h ih => exact .step ih (hGH _ _ hg) h

/-- What holds in every state of a guarded run can be added to its guard. -/
theorem Reach.strengthen {J : σ → Prop} {s : σ} (hs : M.Reach G s)
    (hJ : ∀ s, M.Reach G s → J s) : M.Reach (fun s a => G s a ∧ J s) s := by
  induction hs with
  | init h => exact .init h
  | step hs hg h ih => exact .step ih ⟨hg, hJ _ hs⟩ h

/-- **A run that executes is a run.** The state an executed list of labels
ends in is reached by guarded steps. -/
theorem Reach.of_runs [∀ s a, Decidable (G s a)] {s t : σ} (hs : M.Reach G s) (as : List α)
    (h : M.runs G s as = some t) : M.Reach G t := by
  induction as generalizing s with
  | nil => exact Option.some.inj h ▸ hs
  | cons a as ih =>
    unfold runs at h
    split at h
    · rename_i hg
      obtain ⟨s', hs', ht⟩ := Option.bind_eq_some_iff.mp h
      exact ih (.step hs hg hs') ht
    · exact absurd h (by simp)

/-- A state with a decidable property is reached when an executed run ends in
one. -/
theorem Reach.exists_of_runs [∀ s a, Decidable (G s a)] {s : σ} (hs : M.Init s) (as : List α)
    {P : σ → Bool} (h : (M.runs G s as).any P = true) : ∃ t, M.Reach G t ∧ P t = true := by
  cases hr : M.runs G s as with
  | none => exact absurd (hr ▸ h) (by simp)
  | some t => exact ⟨t, .of_runs (.init hs) as hr, by rwa [hr] at h⟩

end Machine
