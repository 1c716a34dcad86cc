import Mathlib.Algebra.Group.Nat.Defs
import Mathlib.Data.List.Dedup
import Mathlib.Data.List.Forall2
import Mathlib.Data.List.ProdSigma

/-!
# Grids of candidates, and the best of them

A grid has a list of values on each of its axes, and a *combination* takes one value
of each. `product` lists them all, the last axis fastest.

Of a list of candidates of which some are ahead of others, the *top* `k` are those
that remain of a sorted list when it is cut after `k`. A sort may leave level
candidates in any order, so that what the top is depends on the sort. What does not
is that nobody left out is ahead of anybody taken in (`IsTop`).

The order of the combinations is part of the definition, since it decides which of several
level candidates a stable sort puts first. Whether a search went through all of them does
not depend on it.
-/

namespace GridSearch

variable {α : Type}

/-! ## Combinations -/

/-- The combinations of the axes' values, the last axis fastest. -/
def product : List (List α) → List (List α)
  | [] => [[]]
  | values :: axes => values.flatMap fun x => (product axes).map (x :: ·)

/-- **A combination** takes one value of each axis. The axes come in their order, so that a
combination is as long as the list of axes. -/
theorem mem_product {axes : List (List α)} {combo : List α} :
    combo ∈ product axes ↔ List.Forall₂ (· ∈ ·) combo axes := by
  induction axes generalizing combo with
  | nil => rw [product, List.mem_singleton, List.forall₂_nil_right_iff]
  | cons values axes ih =>
    simp only [product, List.mem_flatMap, List.mem_map, List.forall₂_cons_right_iff, ih]
    constructor
    · rintro ⟨x, hx, rest, hrest, rfl⟩
      exact ⟨x, rest, hx, hrest, rfl⟩
    · rintro ⟨x, rest, hx, hrest, rfl⟩
      exact ⟨x, hx, rest, hrest, rfl⟩

/-- There are as many as the axes' lengths multiply to. -/
theorem length_product (axes : List (List α)) :
    (product axes).length = (axes.map List.length).prod := by
  induction axes with
  | nil => rfl
  | cons values axes ih =>
    rw [product, List.length_flatMap, List.map_cons, List.prod_cons, ← ih]
    simp only [List.length_map, List.map_const', List.sum_replicate_nat]

/-- There is a combination as long as no axis is empty. -/
theorem product_ne_nil {axes : List (List α)} (h : ∀ values ∈ axes, values ≠ []) :
    product axes ≠ [] := by
  induction axes with
  | nil => exact List.cons_ne_nil [] []
  | cons values axes ih =>
    obtain ⟨x, hx⟩ := List.exists_mem_of_ne_nil _ (h values List.mem_cons_self)
    obtain ⟨combo, hcombo⟩ := List.exists_mem_of_ne_nil _
      (ih fun v hv => h v (List.mem_cons_of_mem _ hv))
    exact List.ne_nil_of_mem (List.mem_flatMap.mpr ⟨x, hx, List.mem_map_of_mem hcombo⟩)

/-! ## The best of a list -/

/-- **The top of a list**: at most `k` of its elements, in order, and nobody who is
left out is ahead of one of them. -/
structure IsTop (ahead : α → α → Prop) (k : ℕ) (xs top : List α) : Prop where
  /-- Nothing is left out as long as there is room. -/
  length : top.length = min k xs.length
  /-- What is taken in stands in order, where level candidates may stand either way. -/
  sorted : top.Pairwise fun a b => ¬ ahead b a
  /-- Together with what is left out they are the list, and nobody left out is ahead of anybody
  taken in. -/
  rest : ∃ rest, (top ++ rest).Perm xs ∧ ∀ a ∈ top, ∀ b ∈ rest, ¬ ahead b a

namespace IsTop

variable {ahead : α → α → Prop} {k : ℕ} {xs ys top : List α}

/-- The first elements of a sorted list are its top. -/
theorem of_sorted (hperm : ys.Perm xs) (hsorted : ys.Pairwise fun a b => ¬ ahead b a) :
    IsTop ahead k xs (ys.take k) where
  length := by rw [List.length_take, hperm.length_eq]
  sorted := hsorted.sublist (List.take_sublist k ys)
  rest := by
    refine ⟨ys.drop k, by rwa [List.take_append_drop], ?_⟩
    rw [← List.take_append_drop k ys] at hsorted
    exact (List.pairwise_append.mp hsorted).2.2

/-- Only candidates of the list get to the top. -/
theorem mem (h : IsTop ahead k xs top) {a : α} (ha : a ∈ top) : a ∈ xs := by
  obtain ⟨rest, hperm, -⟩ := h.rest
  exact hperm.subset (List.mem_append_left rest ha)

/-- There is no top when there is nobody to be in it. -/
theorem eq_nil_iff (h : IsTop ahead (k + 1) xs top) : top = [] ↔ xs = [] := by
  have hlen := h.length
  rw [← List.length_eq_zero_iff, ← List.length_eq_zero_iff]
  omega

/-- **The best**: nobody is ahead of the first one. -/
theorem head_best (h : IsTop ahead k xs top) (hirrefl : ∀ a, ¬ ahead a a) {a : α}
    (ha : top.head? = some a) : a ∈ xs ∧ ∀ b ∈ xs, ¬ ahead b a := by
  obtain ⟨rest, hperm, hrest⟩ := h.rest
  obtain ⟨tail, rfl⟩ := List.head?_eq_some_iff.mp ha
  refine ⟨h.mem List.mem_cons_self, fun b hb => ?_⟩
  rcases List.mem_append.mp (hperm.symm.subset hb) with hb | hb
  · rcases List.mem_cons.mp hb with rfl | hb
    · exact hirrefl b
    · exact (List.pairwise_cons.mp h.sorted).1 b hb
  · exact hrest a List.mem_cons_self b hb

end IsTop

end GridSearch
