import Mathlib.Data.List.Forall2

/-!
# Fallible computations

A computation in `Except` that goes through has gone through at each step. These
lemmas take such a computation apart, so that what a caller learns from success
is stated step by step.

They are used by `obtain`, a step of the program for each step of the proof, which is why
they are stated as equivalences and why failure is taken apart in the same way.
-/

namespace Result

variable {ε α β : Type}

/-- A sequence goes on with what its first part returns. -/
theorem ok_bind (a : α) (f : α → Except ε β) : (Except.ok a >>= f) = f a := rfl

/-- A sequence succeeds when its first part does, and the rest does from there. -/
theorem bind_eq_ok {x : Except ε α} {f : α → Except ε β} {b : β} :
    x >>= f = .ok b ↔ ∃ a, x = .ok a ∧ f a = .ok b := by
  cases x with
  | error e =>
    show Except.error e = Except.ok b ↔ _
    simp
  | ok a =>
    show f a = .ok b ↔ _
    simp

/-- Another error is raised for an error only. -/
theorem mapError_eq_ok {ε' : Type} {x : Except ε α} {f : ε → ε'} {a : α} :
    x.mapError f = .ok a ↔ x = .ok a := by
  cases x with
  | error e => exact iff_of_false (fun h => by cases h) fun h => by cases h
  | ok b =>
    show Except.ok b = Except.ok a ↔ _
    rw [Except.ok.injEq, Except.ok.injEq]

/-- Forgetting the error does not change what success is. -/
theorem toOption_eq_some {x : Except ε α} {a : α} : x.toOption = some a ↔ x = .ok a := by
  cases x with
  | error e => exact iff_of_false (fun h => by cases h) fun h => by cases h
  | ok b =>
    show some b = some a ↔ _
    rw [Option.some.injEq, Except.ok.injEq]

/-- What holds of the result of a computation holds of what it returns. -/
theorem of_toOption_all {x : Except ε α} {b : α → Bool} {a : α}
    (h : x.toOption.all b = true) (hx : x = .ok a) : b a = true := by
  rw [hx] at h
  exact h

/-- Two computations that succeed alike, with the same result, are the same but for
their errors. -/
theorem toOption_congr {x y : Except ε α} (h : ∀ a, x = .ok a ↔ y = .ok a) :
    x.toOption = y.toOption := by
  cases x with
  | ok a => rw [(h a).mp rfl]
  | error e =>
    cases y with
    | ok b => cases (h b).mpr rfl
    | error e' => rfl

/-- The first turn of a loop, and the rest. -/
theorem mapM_cons_eq_ok {f : α → Except ε β} {x : α} {xs : List α} {ys : List β} :
    (x :: xs).mapM f = .ok ys ↔ ∃ y zs, f x = .ok y ∧ xs.mapM f = .ok zs ∧ ys = y :: zs := by
  rw [List.mapM_cons, bind_eq_ok]
  constructor
  · rintro ⟨y, hy, h⟩
    obtain ⟨zs, hzs, h⟩ := bind_eq_ok.mp h
    cases h
    exact ⟨y, zs, hy, hzs, rfl⟩
  · rintro ⟨y, zs, hy, hzs, rfl⟩
    exact ⟨y, hy, bind_eq_ok.mpr ⟨zs, hzs, rfl⟩⟩

/-- A loop succeeds when each of its turns does, with the results in order. -/
theorem mapM_eq_ok {f : α → Except ε β} {xs : List α} {ys : List β} :
    xs.mapM f = .ok ys ↔ List.Forall₂ (fun x y => f x = .ok y) xs ys := by
  induction xs generalizing ys with
  | nil =>
    rw [List.mapM_nil, List.forall₂_nil_left_iff]
    show Except.ok [] = Except.ok ys ↔ _
    rw [Except.ok.injEq, eq_comm]
  | cons x xs ih =>
    rw [mapM_cons_eq_ok, List.forall₂_cons_left_iff]
    simp only [ih]

/-- Each result of a loop is that of one of its turns. -/
theorem exists_of_mem_mapM {f : α → Except ε β} {xs : List α} {ys : List β}
    (h : xs.mapM f = .ok ys) {y : β} (hy : y ∈ ys) : ∃ x ∈ xs, f x = .ok y := by
  induction xs generalizing ys with
  | nil =>
    cases h
    cases hy
  | cons x xs ih =>
    obtain ⟨z, zs, hz, hzs, rfl⟩ := mapM_cons_eq_ok.mp h
    cases hy with
    | head => exact ⟨x, List.mem_cons_self, hz⟩
    | tail _ hy =>
      obtain ⟨x', hx', hf⟩ := ih hzs hy
      exact ⟨x', List.mem_cons_of_mem x hx', hf⟩

/-- Each turn of a loop has its result among those of the loop. -/
theorem exists_mem_of_mapM {f : α → Except ε β} {xs : List α} {ys : List β}
    (h : xs.mapM f = .ok ys) {x : α} (hx : x ∈ xs) : ∃ y ∈ ys, f x = .ok y := by
  induction xs generalizing ys with
  | nil => cases hx
  | cons x' xs ih =>
    obtain ⟨z, zs, hz, hzs, rfl⟩ := mapM_cons_eq_ok.mp h
    cases hx with
    | head => exact ⟨z, List.mem_cons_self, hz⟩
    | tail _ hx =>
      obtain ⟨y, hy, hf⟩ := ih hzs hx
      exact ⟨y, List.mem_cons_of_mem z hy, hf⟩

/-- A loop fails with the error of one of its turns. -/
theorem exists_error_of_mapM {f : α → Except ε β} {xs : List α} {e : ε}
    (h : xs.mapM f = .error e) : ∃ x ∈ xs, f x = .error e := by
  induction xs with
  | nil => cases h
  | cons x xs ih =>
    rw [List.mapM_cons] at h
    cases hx : f x with
    | error e' =>
      rw [hx] at h
      cases h
      exact ⟨x, List.mem_cons_self, hx⟩
    | ok y =>
      rw [hx, ok_bind] at h
      cases hxs : xs.mapM f with
      | error e' =>
        rw [hxs] at h
        cases h
        obtain ⟨x', hx', hf⟩ := ih hxs
        exact ⟨x', List.mem_cons_of_mem x hx', hf⟩
      | ok ys =>
        rw [hxs] at h
        cases h

/-- A loop whose turns all succeed succeeds. -/
theorem exists_mapM_eq_ok {f : α → Except ε β} {xs : List α}
    (h : ∀ x ∈ xs, ∃ y, f x = .ok y) : ∃ ys, xs.mapM f = .ok ys := by
  induction xs with
  | nil => exact ⟨[], rfl⟩
  | cons x xs ih =>
    obtain ⟨y, hy⟩ := h x List.mem_cons_self
    obtain ⟨ys, hys⟩ := ih fun z hz => h z (List.mem_cons_of_mem x hz)
    exact ⟨y :: ys, mapM_cons_eq_ok.mpr ⟨y, ys, hy, hys, rfl⟩⟩

end Result
