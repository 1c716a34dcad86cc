import Mathlib.Data.List.Basic
import Mathlib.Data.List.Pairwise

/-!
# Binary search, and insertion where it ends

A search halves an interval until it is empty. It ends at the first index at which a
test holds when the test goes on to hold from there. In a list whose elements fail a
predicate first and satisfy it from some place on, that place is the number of those
that fail it.

A list is sorted by a comparison when none of its elements comes before an earlier one.
Elements may be level. A value that is inserted behind all that it does not come before
leaves the list sorted.

The search is written with fuel, and `search_eq` says that the length of the interval is
enough of it. Nothing else is known of the test but that it goes on to hold, so the same
search serves for a list that is sorted and for one that is not: what it finds is the first
place from which on the test holds, and there is one only where the test does not change its
mind.
-/

namespace Bisect

variable {α : Type}

/-- The search, for at most so many turns. -/
def search (test : ℕ → Bool) : ℕ → ℕ → ℕ → ℕ
  | 0, lo, _ => lo
  | fuel + 1, lo, hi =>
    if lo < hi then
      if test ((lo + hi) / 2) then search test fuel lo ((lo + hi) / 2)
      else search test fuel ((lo + hi) / 2 + 1) hi
    else lo

/-- **The search ends where the test begins to hold.** The induction is on the fuel, of which the
width of the interval is enough; the test has to be monotone inside the interval only. -/
theorem search_eq {test : ℕ → Bool} {k fuel lo hi : ℕ}
    (htest : ∀ i, lo ≤ i → i < hi → (test i = true ↔ k ≤ i)) (hlo : lo ≤ k) (hhi : k ≤ hi)
    (hfuel : hi ≤ lo + fuel) : search test fuel lo hi = k := by
  induction fuel generalizing lo hi with
  | zero =>
    rw [search]
    omega
  | succ fuel ih =>
    rw [search]
    split
    · next hlt =>
      have hmid := htest ((lo + hi) / 2) (by omega) (by omega)
      split
      · next h =>
        have := hmid.mp h
        exact ih (fun i h1 h2 => htest i h1 (by omega)) hlo this (by omega)
      · next h =>
        have := mt hmid.mpr h
        exact ih (fun i h1 h2 => htest i (by omega) h2) (by omega) hhi (by omega)
    · omega

/-- Elements that fail a predicate come first. -/
theorem getElem_iff_countP_le {p : α → Bool} {xs : List α}
    (h : xs.Pairwise fun x y => p x = true → p y = true) {i : ℕ} (hi : i < xs.length) :
    p xs[i] = true ↔ xs.countP (fun x => !p x) ≤ i := by
  induction xs generalizing i with
  | nil => exact absurd hi (Nat.not_lt_zero i)
  | cons x xs ih =>
    obtain ⟨hx, hxs⟩ := List.pairwise_cons.mp h
    cases hp : p x with
    | true =>
      have hall : ∀ y ∈ x :: xs, p y = true := List.forall_mem_cons.mpr ⟨hp, fun y hy => hx y hy hp⟩
      have hzero : (x :: xs).countP (fun x => !p x) = 0 :=
        List.countP_eq_zero.mpr fun y hy => by simp [hall y hy]
      rw [hzero]
      exact iff_of_true (hall _ (List.getElem_mem hi)) (Nat.zero_le i)
    | false =>
      rw [List.countP_cons_of_pos (by rw [hp]; rfl)]
      cases i with
      | zero => exact iff_of_false (by simp [hp]) (Nat.not_succ_le_zero _)
      | succ i =>
        rw [List.getElem_cons_succ, ih hxs (Nat.lt_of_succ_lt_succ hi), Nat.succ_le_succ_iff]

/-- The elements before the place fail the predicate. -/
theorem forall_mem_take {p : α → Bool} {xs : List α}
    (h : xs.Pairwise fun x y => p x = true → p y = true) :
    ∀ y ∈ xs.take (xs.countP fun x => !p x), p y = false := by
  intro y hy
  obtain ⟨i, hi, rfl⟩ := List.mem_take_iff_getElem.mp hy
  obtain ⟨hplace, hlength⟩ := Nat.lt_min.mp hi
  exact Bool.eq_false_iff.mpr fun hp =>
    Nat.not_le.mpr hplace ((getElem_iff_countP_le h hlength).mp hp)

/-- The elements from the place on satisfy it. -/
theorem forall_mem_drop {p : α → Bool} {xs : List α}
    (h : xs.Pairwise fun x y => p x = true → p y = true) :
    ∀ y ∈ xs.drop (xs.countP fun x => !p x), p y = true := by
  intro y hy
  obtain ⟨i, hi, rfl⟩ := List.mem_drop_iff_getElem.mp hy
  exact (getElem_iff_countP_le h _).mpr (by omega)

/-! ## Sorted lists -/

/-- No element comes before an earlier one. -/
def Sorted (lt : α → α → Bool) (xs : List α) : Prop := xs.Pairwise fun x y => lt y x = false

variable {lt : α → α → Bool} {xs : List α} {x : α}

/-- In a sorted list, what a value comes before are the elements from some place on. -/
theorem Sorted.from_place (h : Sorted lt xs)
    (hgap : ∀ z ∈ xs, ∀ y, lt x y = true → lt x z = true ∨ lt z y = true) :
    xs.Pairwise fun y z => lt x y = true → lt x z = true := by
  refine List.Pairwise.imp_of_mem (fun hy hz hyz hxy => ?_) h
  refine (hgap _ hz _ hxy).resolve_right ?_
  rw [hyz]
  exact Bool.false_ne_true

/-- **An insertion behind all that the value does not come before** keeps a list sorted. -/
theorem Sorted.insert (h : Sorted lt xs) (hasymm : ∀ y, lt x y = true → lt y x = false)
    (hgap : ∀ z ∈ xs, ∀ y, lt x y = true → lt x z = true ∨ lt z y = true) :
    Sorted lt (xs.take (xs.countP fun y => !lt x y) ++
      x :: xs.drop (xs.countP fun y => !lt x y)) := by
  have hplace := h.from_place hgap
  have hparts : Sorted lt (xs.take (xs.countP fun y => !lt x y) ++
      xs.drop (xs.countP fun y => !lt x y)) := by
    rwa [List.take_append_drop]
  obtain ⟨htake, hdrop, hcross⟩ := List.pairwise_append.mp hparts
  refine List.pairwise_append.mpr ⟨htake, List.pairwise_cons.mpr ⟨fun z hz => ?_, hdrop⟩, ?_⟩
  · exact hasymm z (forall_mem_drop hplace z hz)
  · intro y hy
    exact List.forall_mem_cons.mpr ⟨forall_mem_take hplace y hy, hcross y hy⟩

/-- An insertion adds the value, and moves nothing else. -/
theorem insert_perm (xs : List α) (x : α) (k : ℕ) :
    (xs.take k ++ x :: xs.drop k).Perm (x :: xs) := by
  refine List.perm_middle.trans ?_
  rw [List.take_append_drop]

end Bisect
