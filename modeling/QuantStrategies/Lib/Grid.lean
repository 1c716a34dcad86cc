import Mathlib.Data.Int.Interval
import Mathlib.Algebra.Order.Group.Unbundled.Int
import Mathlib.Tactic.Ring

/-!
# The multiples of a step

Instants are integers, and a *boundary* of a step `p` is a multiple of `p`.
This module has the two notions that periodic data rests on: rounding an
instant down to a boundary, and a set of instants having no hole in a window.

A set has no hole in a window when, from its oldest element there, it holds
every boundary up to the window's end (`HoleFree`). Older boundaries may be
absent: a series that starts late has no hole. The rules say how the property
travels: to a smaller window, to a larger set, past the window's end, and how
one insertion keeps it.

A progression is a list with the same step throughout.

The two notions are tied together by rounding: the newest boundary that a clock has passed
is the floor of the clock, and a window that ends there has no hole when every boundary
below it is present.
-/

namespace Grid

variable {p a b t u : ℤ}

/-- The boundary at or below `t`. -/
def floor (p t : ℤ) : ℤ := t / p * p

/-- What an instant is rounded down to is a boundary. -/
theorem floor_dvd (p t : ℤ) : p ∣ floor p t := Dvd.intro_left _ rfl

theorem floor_le (hp : 0 < p) (t : ℤ) : floor p t ≤ t :=
  Int.ediv_mul_le t (ne_of_gt hp)

/-- The next boundary is after the instant, so that nothing is skipped in between. -/
theorem lt_floor_add (hp : 0 < p) (t : ℤ) : t < floor p t + p := by
  have h := Int.lt_ediv_add_one_mul_self t hp
  rwa [add_mul, one_mul] at h

/-- A boundary is rounded to itself. -/
theorem floor_of_dvd (h : p ∣ t) : floor p t = t := Int.ediv_mul_cancel h

/-- Two boundaries that differ are a step apart. -/
theorem add_le_of_lt (ha : p ∣ a) (hb : p ∣ b) (h : a < b) :
    a + p ≤ b := by
  have hle := Int.le_of_dvd (sub_pos.mpr h) (Int.dvd_sub hb ha)
  omega

/-- The boundary below `t` is the greatest one that is at most `t`. -/
theorem le_floor (hp : 0 < p) (ha : p ∣ a) (h : a ≤ t) : a ≤ floor p t := by
  by_contra hlt
  have h1 := add_le_of_lt (floor_dvd p t) ha (not_le.mp hlt)
  have h2 := lt_floor_add hp t
  omega

/-- A later instant is not rounded to an earlier boundary. -/
theorem floor_mono (hp : 0 < p) (h : t ≤ u) : floor p t ≤ floor p u :=
  le_floor hp (floor_dvd p t) ((floor_le hp t).trans h)

/-! ## Windows without a hole -/

variable {S T : ℤ → Prop} {lo hi : ℤ}

/-- The set `S` has no hole in the window from `lo` to `hi`: every boundary
newer than an element of the window is an element. -/
def HoleFree (p : ℤ) (S : ℤ → Prop) (lo hi : ℤ) : Prop :=
  ∀ o u, S o → lo ≤ o → o < u → u ≤ hi → p ∣ u → S u

/-- A part of a window without a hole has none either. -/
theorem HoleFree.narrow (h : HoleFree p S lo hi) {lo' hi' : ℤ} (hlo : lo ≤ lo')
    (hhi : hi' ≤ hi) : HoleFree p S lo' hi' :=
  fun o u ho h1 h2 h3 hu => h o u ho (hlo.trans h1) h2 (h3.trans hhi) hu

/-- Whether there is a hole is a matter of which instants are in the set, not of how the set is
given. -/
theorem HoleFree.congr (h : HoleFree p S lo hi) (hST : ∀ t, S t ↔ T t) :
    HoleFree p T lo hi :=
  fun o u ho h1 h2 h3 hu => (hST u).mp (h o u ((hST o).mpr ho) h1 h2 h3 hu)

/-- A window whose every boundary is in the set has no hole. -/
theorem HoleFree.of_full (h : ∀ u, lo ≤ u → u ≤ hi → p ∣ u → S u) :
    HoleFree p S lo hi :=
  fun _ u _ h1 h2 h3 hu => h u (h1.trans (le_of_lt h2)) h3 hu

/-- **One insertion keeps a window without a hole** when the element lies
outside the window or everything newer in the window is there. -/
theorem HoleFree.insert (h : HoleFree p S lo hi)
    (ht : lo ≤ t → ∀ u, t < u → u ≤ hi → p ∣ u → S u ∨ u = t) :
    HoleFree p (fun x => S x ∨ x = t) lo hi := by
  intro o u ho h1 h2 h3 hu
  rcases ho with ho | rfl
  · exact Or.inl (h o u ho h1 h2 h3 hu)
  · exact ht h1 u h2 h3 hu

/-- **A window without a hole can be extended** to a later end when what lies
past the old end has no hole below it either. -/
theorem HoleFree.extend (h : HoleFree p S lo hi) {hi' : ℤ}
    (hnew : ∀ o u, S o → lo ≤ o → o < u → hi < u → u ≤ hi' → p ∣ u → S u) :
    HoleFree p S lo hi' := by
  intro o u ho h1 h2 h3 hu
  by_cases hu' : u ≤ hi
  · exact h o u ho h1 h2 hu' hu
  · exact hnew o u ho h1 h2 (not_le.mp hu') h3 hu

/-! ## Progressions -/

section Progression

variable {K : Type} [Ring K]

/-- The first `n` values from `a` on, `d` apart. -/
def progression (a d : K) (n : ℕ) : List K := (List.range n).map fun i : ℕ => a + i * d

/-- A progression has as many elements as it was asked for. -/
@[simp]
theorem length_progression (a d : K) (n : ℕ) : (progression a d n).length = n := by
  rw [progression, List.length_map, List.length_range]

/-- Its elements are the whole steps from the first one. -/
theorem mem_progression {a d x : K} {n : ℕ} :
    x ∈ progression a d n ↔ ∃ i < n, x = a + i * d := by
  simp only [progression, List.mem_map, List.mem_range, eq_comm]

/-- **Progressions are equal** when they have the same number of values, the same first
one, and, where there is a second one, the same step. -/
theorem progression_eq_iff {a b d e : K} {n m : ℕ} :
    progression a d (n + 1) = progression b e (m + 1) ↔ n = m ∧ a = b ∧ (n = 0 ∨ d = e) := by
  constructor
  · intro h
    have hnm : n = m := by simpa using congrArg List.length h
    subst hnm
    have hget (i : ℕ) (hi : i < n + 1) : a + i * d = b + i * e := by
      have hi' := congrArg (·[i]?) h
      simpa [progression, hi] using hi'
    have hab : a = b := by simpa using hget 0 n.succ_pos
    refine ⟨rfl, hab, n.eq_zero_or_pos.imp_right fun hn => ?_⟩
    have h1 := hget 1 (Nat.succ_lt_succ hn)
    rw [hab, Nat.cast_one, one_mul, one_mul] at h1
    exact add_left_cancel h1
  · rintro ⟨rfl, rfl, rfl | rfl⟩
    · simp [progression]
    · rfl

end Progression

end Grid
