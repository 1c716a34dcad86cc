import QuantStrategies.Lib.Result

/-!
# Two runs of a fallible computation

`Alike strict R x y` relates two computations that may fail: if both succeed,
their results are related by `R`. When the comparison is strict, neither may
fail without the other, and otherwise nothing is said of a run that fails where
the other one does not. The rules follow the way a computation is put together,
so that two runs of one program are compared step by step.

`Follows R x y` says it of one direction: where the first succeeds, so does the
second, with a related result.

What fails is part of the comparison only where it is strict. A program that stops earlier
on less data is the case in which it cannot be: there the two runs agree as far as both of
them go.
-/

namespace TwoRuns

variable {ε α α' β β' : Type}

/-- Two computations that end alike. -/
inductive Alike (strict : Prop) (R : α → α' → Prop) : Except ε α → Except ε α' → Prop
  | ok {a : α} {a' : α'} : R a a' → Alike strict R (.ok a) (.ok a')
  | errors {e e' : ε} : Alike strict R (.error e) (.error e')
  | left {e : ε} {a' : α'} : ¬ strict → Alike strict R (.error e) (.ok a')
  | right {a : α} {e' : ε} : ¬ strict → Alike strict R (.ok a) (.error e')

namespace Alike

variable {strict : Prop} {R : α → α' → Prop} {S : β → β' → Prop}

theorem refl {R : α → α → Prop} (h : ∀ a, R a a) (x : Except ε α) : Alike strict R x x := by
  cases x with
  | ok a => exact .ok (h a)
  | error e => exact .errors

/-- Two runs that both succeed have related results. -/
theorem related {a : α} {a' : α'} (h : Alike strict R (Except.ok a : Except ε α) (.ok a')) :
    R a a' := by
  cases h with
  | ok h => exact h

/-- Under a strict comparison, one run succeeds exactly when the other one does. -/
theorem isOk_iff {x : Except ε α} {y : Except ε α'} (h : Alike strict R x y) (hs : strict) :
    (∃ a, x = .ok a) ↔ ∃ a', y = .ok a' := by
  cases h with
  | ok h => exact ⟨fun _ => ⟨_, rfl⟩, fun _ => ⟨_, rfl⟩⟩
  | errors =>
    constructor
    · rintro ⟨_, h⟩
      cases h
    · rintro ⟨_, h⟩
      cases h
  | left h => exact absurd hs h
  | right h => exact absurd hs h

/-- Two runs, with what they ended in. -/
theorem ends {x : Except ε α} {y : Except ε α'} (h : Alike strict R x y) :
    Alike strict (fun a a' => x = .ok a ∧ y = .ok a' ∧ R a a') x y := by
  cases h with
  | ok h => exact .ok ⟨rfl, rfl, h⟩
  | errors => exact .errors
  | left h => exact .left h
  | right h => exact .right h

/-- A weaker relation of the results is kept as well. -/
theorem mono {R' : α → α' → Prop} {x : Except ε α} {y : Except ε α'} (h : Alike strict R x y)
    (hR : ∀ a a', R a a' → R' a a') : Alike strict R' x y := by
  cases h with
  | ok h => exact .ok (hR _ _ h)
  | errors => exact .errors
  | left h => exact .left h
  | right h => exact .right h

/-- **The rule of sequence.** Where the first parts are alike and end in results that correspond,
the second parts need to be alike on corresponding results only. -/
theorem bind {x : Except ε α} {y : Except ε α'} {f : α → Except ε β} {g : α' → Except ε β'}
    (h : Alike strict R x y) (hfg : ∀ a a', R a a' → Alike strict S (f a) (g a')) :
    Alike strict S (x >>= f) (y >>= g) := by
  cases h with
  | @ok a a' h => exact hfg a a' h
  | errors => exact .errors
  | @left e a' h =>
    show Alike strict S (.error e) (g a')
    cases g a' with
    | ok b => exact .left h
    | error e' => exact .errors
  | @right a e' h =>
    show Alike strict S (f a) (.error e')
    cases f a with
    | ok b => exact .right h
    | error e => exact .errors

/-- The rule of a loop: its turns end alike, so it does. -/
theorem mapM {γ γ' : Type} {P : γ → γ' → Prop} {f : γ → Except ε β} {g : γ' → Except ε β'}
    {xs : List γ} {ys : List γ'} (hxy : List.Forall₂ P xs ys)
    (h : ∀ x y, P x y → Alike strict S (f x) (g y)) :
    Alike strict (List.Forall₂ S) (xs.mapM f) (ys.mapM g) := by
  induction hxy with
  | nil => exact .ok .nil
  | cons hp _ ih =>
    rw [List.mapM_cons, List.mapM_cons]
    exact (h _ _ hp).bind fun b b' hb => ih.bind fun bs bs' hbs => .ok (.cons hb hbs)

end Alike

/-- A computation succeeds where another one does, with a related result. -/
def Follows (R : α → α' → Prop) (x : Except ε α) (y : Except ε α') : Prop :=
  ∀ a, x = .ok a → ∃ a', y = .ok a' ∧ R a a'

namespace Follows

variable {R : α → α' → Prop} {S : β → β' → Prop}

/-- Two computations that are done are related as their results are. -/
theorem ok {a : α} {a' : α'} (h : R a a') : Follows R (Except.ok a : Except ε α) (.ok a') :=
  fun _ ha => ⟨a', rfl, Except.ok.inj ha ▸ h⟩

/-- A run that fails asks nothing of the other one. -/
theorem error {e : ε} {y : Except ε α'} : Follows R (.error e) y := fun _ ha => by cases ha

theorem refl {R : α → α → Prop} (h : ∀ a, R a a) (x : Except ε α) : Follows R x x :=
  fun a ha => ⟨a, ha, h a⟩

/-- A strict comparison says of each direction that the second run follows the first. -/
theorem of_alike {strict : Prop} {x : Except ε α} {y : Except ε α'} (h : Alike strict R x y)
    (hs : strict) : Follows R x y := by
  intro a ha
  obtain ⟨a', ha'⟩ := (h.isOk_iff hs).mp ⟨a, ha⟩
  rw [ha, ha'] at h
  exact ⟨a', ha', h.related⟩

/-- The rule of sequence. -/
theorem bind {x : Except ε α} {y : Except ε α'} {f : α → Except ε β} {g : α' → Except ε β'}
    (h : Follows R x y) (hfg : ∀ a a', x = .ok a → R a a' → Follows S (f a) (g a')) :
    Follows S (x >>= f) (y >>= g) := by
  intro b hb
  obtain ⟨a, ha, hb⟩ := Result.bind_eq_ok.mp hb
  obtain ⟨a', ha', hrel⟩ := h a ha
  obtain ⟨b', hb', hbb⟩ := hfg a a' ha hrel b hb
  exact ⟨b', Result.bind_eq_ok.mpr ⟨a', ha', hb'⟩, hbb⟩

/-- The rule of a loop over one list. -/
theorem mapM {γ : Type} {f : γ → Except ε β} {g : γ → Except ε β'} {xs : List γ}
    (h : ∀ x ∈ xs, Follows S (f x) (g x)) :
    Follows (List.Forall₂ S) (xs.mapM f) (xs.mapM g) := by
  induction xs with
  | nil => exact .ok .nil
  | cons x xs ih =>
    rw [List.mapM_cons, List.mapM_cons]
    refine (h x List.mem_cons_self).bind fun b b' _ hb => ?_
    exact (ih fun z hz => h z (List.mem_cons_of_mem x hz)).bind fun bs bs' _ hbs => .ok (.cons hb hbs)

end Follows

end TwoRuns
