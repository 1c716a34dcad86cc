import Mathlib.Data.List.Sort

/-!
# Where a stable sort puts things

Insertion sort keeps what its order does not tell apart as it stood. What comes
before an element in the sorted list is therefore what is less than it, wherever
it stood, and what is level with it and stood before it.

This is what the rank of an element in a queue comes down to when the queue is sorted by a
key that several elements share.
-/

namespace StableSort

variable {α : Type} (r : α → α → Prop) [DecidableRel r] {a x : α} {l : List α}

section

variable [DecidableEq α]

/-- What comes before an element in a stable sort: what is less, and what is level and
stood before. -/
def ahead (l : List α) (x : α) : ℕ :=
  l.countP (fun y => ¬ r x y) + (l.takeWhile (fun y => y ≠ x)).countP (fun y => r x y ∧ r y x)

variable {r}

/-- An element that is inserted stands after what is less than it. -/
theorem idxOf_orderedInsert_self (hl : l.Pairwise r) (ha : a ∉ l) [IsTrans α r] :
    (l.orderedInsert r a).idxOf a = l.countP (fun y => ¬ r a y) := by
  induction l with
  | nil => simp
  | cons b l ih =>
    obtain ⟨hb, hl⟩ := List.pairwise_cons.mp hl
    have hne : b ≠ a := fun h => ha (h ▸ List.mem_cons_self)
    by_cases hab : r a b
    · have hnone : (b :: l).countP (fun y => ¬ r a y) = 0 := by
        refine List.countP_eq_zero.mpr fun y hy => ?_
        rw [decide_eq_true_eq, not_not]
        rcases List.mem_cons.mp hy with rfl | hy
        · exact hab
        · exact trans_of r hab (hb y hy)
      rw [List.orderedInsert_cons_of_le r l hab, List.idxOf_cons_self, hnone]
    · rw [List.orderedInsert_of_not_le r l hab, List.idxOf_cons_ne _ hne,
        ih hl fun h => ha (List.mem_cons_of_mem b h), List.countP_cons_of_pos (by simpa using hab)]

/-- An element moves up by one where the inserted one is not above it. -/
theorem idxOf_orderedInsert_of_ne (hl : l.Pairwise r) (hx : x ∈ l) (hne : a ≠ x)
    [IsTrans α r] :
    (l.orderedInsert r a).idxOf x = l.idxOf x + if r a x then 1 else 0 := by
  induction l with
  | nil => cases hx
  | cons b l ih =>
    obtain ⟨hb, hl⟩ := List.pairwise_cons.mp hl
    by_cases hab : r a b
    · have hax : r a x := by
        rcases List.mem_cons.mp hx with rfl | hx
        · exact hab
        · exact trans_of r hab (hb x hx)
      rw [List.orderedInsert_cons_of_le r l hab, List.idxOf_cons_ne _ hne, if_pos hax]
    · rw [List.orderedInsert_of_not_le r l hab]
      by_cases hbx : b = x
      · rw [hbx, List.idxOf_cons_self, List.idxOf_cons_self, if_neg (hbx ▸ hab)]
      · have hx' : x ∈ l := (List.mem_cons.mp hx).resolve_left fun h => hbx h.symm
        rw [List.idxOf_cons_ne _ hbx, List.idxOf_cons_ne _ hbx, ih hl hx']
        exact (Nat.succ_add _ _).symm

/-- **A stable sort puts an element after what is less and what is level and stood
before it.** -/
theorem idxOf_insertionSort [IsTrans α r] [Std.Total r] (hl : l.Nodup) (hx : x ∈ l) :
    (l.insertionSort r).idxOf x = ahead r l x := by
  have hrefl (y : α) : r y y := (Std.Total.total y y).elim id id
  induction l with
  | nil => cases hx
  | cons a l ih =>
    obtain ⟨ha, hl⟩ := List.nodup_cons.mp hl
    have hsorted : (l.insertionSort r).Pairwise r := List.pairwise_insertionSort r l
    have hperm := List.perm_insertionSort r l
    rw [List.insertionSort_cons]
    by_cases hax : a = x
    · subst hax
      rw [idxOf_orderedInsert_self hsorted (hperm.mem_iff.not.mpr ha), hperm.countP_eq, ahead,
        List.countP_cons_of_neg (by simpa using hrefl a), List.takeWhile_cons_of_neg (by simp),
        List.countP_nil, Nat.add_zero]
    · have hx' : x ∈ l := (List.mem_cons.mp hx).resolve_left fun h => hax h.symm
      rw [idxOf_orderedInsert_of_ne hsorted (hperm.mem_iff.mpr hx') hax, ih hl hx', ahead,
        ahead, List.takeWhile_cons_of_pos (by simpa using hax), List.countP_cons, List.countP_cons]
      -- the inserted element is level with the other, less, or greater
      by_cases h1 : r a x <;> by_cases h2 : r x a
      · simp [h1, h2]
        omega
      · simp [h1, h2]
        omega
      · simp [h1, h2]
      · exact absurd (Std.Total.total (r := r) a x) (not_or.mpr ⟨h1, h2⟩)

end

end StableSort
