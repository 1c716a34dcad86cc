import Mathlib.Data.List.Basic

/-!
# The first of the largest

A scan for the largest element of a list that changes its mind only for a larger
one ends with the first of the largest. Elements may be level without being
equal, so that the order is a Boolean comparison which is asymmetric, and which
places every element on one side or the other of any gap. Both are asked for
where they are used, of the elements in question.

Numbers with missing values among them are the case that it is made for. There a comparison
is false as soon as one side is missing, which makes it neither total nor the strict part of
an order, and the rules that sorting relies on do not hold of it.
-/

variable {α β : Type} {lt : α → α → Bool} {xs ys : List α} {i : ℕ}

/-- Row `i` of a list is the first of its largest: what stands before it is less, and
what stands after it is not more. -/
def FirstMax (lt : α → α → Bool) (xs : List α) (i : ℕ) : Prop :=
  ∃ before x after, xs = before ++ x :: after ∧ before.length = i ∧
    (∀ y ∈ before, lt y x = true) ∧ ∀ y ∈ after, lt x y = false

namespace FirstMax

theorem single (lt : α → α → Bool) (x : α) : FirstMax lt [x] 0 :=
  ⟨[], x, [], rfl, rfl, List.forall_mem_nil _, List.forall_mem_nil _⟩

/-- The place that a scan ends at is one of the list. -/
theorem getElem? (h : FirstMax lt xs i) : ∃ x, xs[i]? = some x := by
  obtain ⟨before, x, after, rfl, rfl, -, -⟩ := h
  exact ⟨x, by simp⟩

/-- One more that is not larger changes nothing. -/
theorem append_of_not_lt {x y : α} (h : FirstMax lt xs i) (hx : xs[i]? = some x)
    (hy : lt x y = false) : FirstMax lt (xs ++ [y]) i := by
  obtain ⟨before, z, after, rfl, rfl, hbefore, hafter⟩ := h
  have hz : z = x := by simpa using hx
  subst hz
  refine ⟨before, z, after ++ [y], by simp, rfl, hbefore, fun w hw => ?_⟩
  rcases List.mem_append.mp hw with hw | hw
  · exact hafter w hw
  · rw [List.mem_singleton.mp hw]
    exact hy

/-- One more that is larger takes the place of the largest. -/
theorem append_of_lt {x y : α} (hasymm : ∀ a b, lt a b = true → lt b a = false)
    (hside : ∀ a ∈ xs, ∀ b c, lt b c = true → lt b a = true ∨ lt a c = true)
    (h : FirstMax lt xs i) (hx : xs[i]? = some x) (hy : lt x y = true) :
    FirstMax lt (xs ++ [y]) xs.length := by
  refine ⟨xs, y, [], rfl, rfl, fun a ha => ?_, List.forall_mem_nil _⟩
  -- what was not above the largest is below what is
  have hlow : lt x a = false → lt a y = true := fun hxa =>
    (hside a ha x y hy).resolve_left (by rw [hxa]; exact Bool.false_ne_true)
  obtain ⟨before, z, after, rfl, rfl, hbefore, hafter⟩ := h
  have hz : z = x := by simpa using hx
  subst hz
  rcases List.mem_append.mp ha with ha | ha
  · exact hlow (hasymm a z (hbefore a ha))
  · rcases List.mem_cons.mp ha with rfl | ha
    · exact hy
    · exact hlow (hafter a ha)

/-- The first of the largest of a list of images, among what they are images of. -/
theorem of_map {f : β → α} {zs : List β} (h : FirstMax lt (zs.map f) i) :
    ∃ before z after, zs = before ++ z :: after ∧ before.length = i ∧
      (∀ y ∈ before, lt (f y) (f z) = true) ∧ ∀ y ∈ after, lt (f z) (f y) = false := by
  obtain ⟨before, x, after, hsplit, hi, hbefore, hafter⟩ := h
  obtain ⟨zs₁, zs₂, rfl, rfl, hrest⟩ := List.map_eq_append_iff.mp hsplit
  obtain ⟨z, zs₃, rfl, rfl, rfl⟩ := List.map_eq_cons_iff.mp hrest
  exact ⟨zs₁, z, zs₃, rfl, by rw [← hi, List.length_map],
    fun y hy => hbefore _ (List.mem_map_of_mem hy), fun y hy => hafter _ (List.mem_map_of_mem hy)⟩

end FirstMax
