import Mathlib.Data.List.Basic

/-!
# Loops that may run on

A loop is given by its body: a turn from a state either ends the loop with a
result, or hands something over and goes on from another state. Nothing says
that it ends. `Iterates body s os r` holds when it does, from the state `s` and
with the result `r`, having handed over `os` on the way.

A loop has one run at most. It has one when every turn brings down a measure,
and what every turn keeps holds all along.

Termination is kept apart from what a loop does: a program that pages through a venue's
answers ends when the venue moves on, which is an assumption about the venue, while what the
pages amount to is proved of every run that ends.
-/

variable {σ ω ρ : Type}

/-- The finite runs of a loop. -/
inductive Iterates (body : σ → ρ ⊕ ω × σ) : σ → List ω → ρ → Prop where
  | done {s : σ} {r : ρ} (h : body s = .inl r) : Iterates body s [] r
  | more {s s' : σ} {o : ω} {os : List ω} {r : ρ} (h : body s = .inr (o, s'))
    (hrest : Iterates body s' os r) : Iterates body s (o :: os) r

namespace Iterates

variable {body : σ → ρ ⊕ ω × σ} {s s' : σ} {os os' : List ω} {r r' : ρ} {o : ω}

/-- **A loop has one run at most.** The body is a function, so that a run can only end where it
ends. -/
theorem unique (h : Iterates body s os r) (h' : Iterates body s os' r') : os = os' ∧ r = r' := by
  induction h generalizing os' with
  | done hbody =>
    cases h' with
    | done hbody' => exact ⟨rfl, Sum.inl.inj (hbody.symm.trans hbody')⟩
    | more hbody' _ => cases hbody.symm.trans hbody'
  | more hbody _ ih =>
    cases h' with
    | done hbody' => cases hbody.symm.trans hbody'
    | more hbody' hrest' =>
      obtain ⟨rfl, rfl⟩ := Prod.mk.inj (Sum.inr.inj (hbody.symm.trans hbody'))
      obtain ⟨rfl, rfl⟩ := ih hrest'
      exact ⟨rfl, rfl⟩

/-- **A loop ends when a measure comes down**, among the states that its turns lead to. The
measure need not come down on states that the loop never gets to. -/
theorem exists_of_measure {I : σ → Prop} (m : σ → ℕ)
    (hstep : ∀ s o s', I s → body s = .inr (o, s') → I s' ∧ m s' < m s) (hs : I s) :
    ∃ os r, Iterates body s os r := by
  induction hm : m s using Nat.strongRecOn generalizing s with
  | _ n ih =>
    cases hbody : body s with
    | inl r => exact ⟨[], r, .done hbody⟩
    | inr next =>
      obtain ⟨hI, hlt⟩ := hstep s next.1 next.2 hs hbody
      obtain ⟨os, r, hrest⟩ := ih _ (hm ▸ hlt) hI rfl
      exact ⟨next.1 :: os, r, .more hbody hrest⟩

/-- A loop whose turns lead back to where they start does not end. -/
theorem not_of_fixed (hfixed : body s = .inr (o, s)) : ¬ Iterates body s os r := by
  intro h
  induction h with
  | done hbody => cases hbody.symm.trans hfixed
  | more hbody _ ih =>
    obtain ⟨-, rfl⟩ := Prod.mk.inj (Sum.inr.inj (hbody.symm.trans hfixed))
    exact ih hfixed

/-- **What every turn keeps holds all along**: of what was handed over, and of the result. This is
the rule for loops that hand something over at every turn, as a generator does. -/
theorem invariant {I : σ → Prop} {P : ω → Prop} {Q : ρ → Prop}
    (hmore : ∀ s o s', I s → body s = .inr (o, s') → I s' ∧ P o)
    (hdone : ∀ s r, I s → body s = .inl r → Q r) (h : Iterates body s os r) (hs : I s) :
    (∀ o ∈ os, P o) ∧ Q r := by
  induction h with
  | done hbody => exact ⟨fun _ h => absurd h List.not_mem_nil, hdone _ _ hs hbody⟩
  | more hbody _ ih =>
    obtain ⟨hI, hP⟩ := hmore _ _ _ hs hbody
    obtain ⟨hos, hr⟩ := ih hI
    exact ⟨List.forall_mem_cons.mpr ⟨hP, hos⟩, hr⟩

end Iterates
