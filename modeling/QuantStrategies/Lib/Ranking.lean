import Mathlib.Order.WellFoundedSet

/-!
# Rankings by a list of criteria

A criterion says of some pairs which one is ahead. It is a *ranking* when nothing
is both ahead and behind, and when whoever stands between two others is behind
the one or ahead of the other. Criteria in an order of priority are read as one:
the first criterion on which a pair is not level decides (`First`), and it is a
ranking again.

A *champion* is challenged by one candidate after another and gives way to those
that beat it. Among finitely many candidates, a strict order lets it give way
only so often.

A ranking leaves room for ties, and being level is an equivalence, so a ranking is a strict
order of classes of level candidates. Where a rule for promoting a candidate is not a
ranking, champions can follow each other for ever: `champion_settles` is what is lost.
-/

/-- A ranking: nothing is both ahead and behind, and a third candidate cannot
stand level with both of a pair. -/
structure IsRanking {P : Type} (r : P → P → Prop) : Prop where
  /-- Nobody is both ahead and behind. -/
  asymm : ∀ ⦃a b⦄, r a b → ¬ r b a
  /-- Whoever stands beside a pair is behind the first or ahead of the second, so that being
  level is transitive. -/
  between : ∀ ⦃a c⦄, r a c → ∀ b, r a b ∨ r b c

namespace IsRanking

variable {P : Type} {r : P → P → Prop} (h : IsRanking r)
include h

theorem irrefl (a : P) : ¬ r a a := fun haa => h.asymm haa haa

/-- Who is ahead of someone is ahead of all that this one is ahead of. -/
theorem trans {a b c : P} (hab : r a b) (hbc : r b c) : r a c :=
  (h.between hab c).resolve_right (h.asymm hbc)

end IsRanking

namespace Ranking

variable {ι P : Type} (r : ι → P → P → Prop)

/-- The criteria in their order of priority: the first on which the two are not
level decides. -/
def First : List ι → P → P → Prop
  | [], _, _ => False
  | i :: is, a, b => r i a b ∨ ¬ r i b a ∧ First is a b

/-- The two are level on a criterion. -/
def Level (i : ι) (a b : P) : Prop := ¬ r i a b ∧ ¬ r i b a

variable {r}

/-- **Rankings in an order of priority are one ranking.** The first ranking that tells two
candidates apart decides between them, as in a lexicographic order. -/
theorem first_isRanking {is : List ι} (h : ∀ i ∈ is, IsRanking (r i)) :
    IsRanking (First r is) := by
  induction is with
  | nil => exact ⟨fun _ _ hab => hab.elim, fun _ _ hac => hac.elim⟩
  | cons i is ih =>
    have hi := h i (List.mem_cons_self)
    have his := ih (fun j hj => h j (List.mem_cons_of_mem i hj))
    refine ⟨?_, ?_⟩
    · rintro a b (hab | ⟨hba, hab⟩) (hba' | ⟨hab', hba'⟩)
      · exact hi.asymm hab hba'
      · exact hab' hab
      · exact hba hba'
      · exact his.asymm hab hba'
    · rintro a c (hac | ⟨hca, hac⟩) b
      · exact (hi.between hac b).imp Or.inl Or.inl
      · by_cases hab : r i a b
        · exact Or.inl (Or.inl hab)
        by_cases hbc : r i b c
        · exact Or.inr (Or.inl hbc)
        -- `b` is level with neither only if it is level with both
        have hba : ¬ r i b a := fun hba => (hi.between hba c).elim hbc hca
        have hcb : ¬ r i c b := fun hcb => (hi.between hcb a).elim hca hab
        exact (his.between hac b).imp (fun hab' => Or.inr ⟨hba, hab'⟩)
          (fun hbc' => Or.inr ⟨hcb, hbc'⟩)

/-- The pair is level on every criterion above the one that decides. -/
theorem first_iff_exists {is : List ι} {a b : P} :
    First r is a b ↔ ∃ before i after, is = before ++ i :: after ∧
      (∀ j ∈ before, Level r j a b) ∧ r i a b := by
  induction is with
  | nil => exact ⟨fun h => h.elim, fun ⟨before, i, after, his, _⟩ => by simp at his⟩
  | cons i is ih =>
    refine ⟨fun h => ?_, ?_⟩
    · by_cases hab : r i a b
      · exact ⟨[], i, is, rfl, by simp, hab⟩
      obtain ⟨hba, h⟩ := h.resolve_left hab
      obtain ⟨before, j, after, rfl, hbefore, hj⟩ := ih.mp h
      refine ⟨i :: before, j, after, rfl, ?_, hj⟩
      rintro k (_ | ⟨_, hk⟩)
      · exact ⟨hab, hba⟩
      · exact hbefore k hk
    · rintro ⟨before, j, after, his, hbefore, hj⟩
      cases before with
      | nil =>
        obtain ⟨rfl, rfl⟩ := List.cons.inj his
        exact Or.inl hj
      | cons k before =>
        obtain ⟨rfl, rfl⟩ := List.cons.inj his
        exact Or.inr ⟨(hbefore i List.mem_cons_self).2, ih.mpr ⟨before, j, after, rfl,
          fun l hl => hbefore l (List.mem_cons_of_mem i hl), hj⟩⟩

/-- Of a pair, one is ahead, or the two are level throughout. -/
theorem first_or_first_or_level (is : List ι) (a b : P) :
    First r is a b ∨ First r is b a ∨ ∀ i ∈ is, Level r i a b := by
  induction is with
  | nil => exact Or.inr (Or.inr (by simp))
  | cons i is ih =>
    by_cases hab : r i a b
    · exact Or.inl (Or.inl hab)
    by_cases hba : r i b a
    · exact Or.inr (Or.inl (Or.inl hba))
    obtain h | h | h := ih
    · exact Or.inl (Or.inr ⟨hba, h⟩)
    · exact Or.inr (Or.inl (Or.inr ⟨hab, h⟩))
    · refine Or.inr (Or.inr ?_)
      rintro j (_ | ⟨_, hj⟩)
      · exact ⟨hab, hba⟩
      · exact h j hj

end Ranking

/-! ## Champions -/

section Champion

variable {P : Type} (beats : P → P → Prop) [DecidableRel beats]

/-- The champion after each challenge. -/
def champion (first : P) (challengers : ℕ → P) : ℕ → P
  | 0 => first
  | n + 1 =>
    if beats (challengers n) (champion first challengers n) then challengers n
    else champion first challengers n

variable {beats} {first : P} {challengers : ℕ → P}

/-- A champion is one of the candidates. -/
theorem champion_mem {s : Set P} (hfirst : first ∈ s) (hs : ∀ n, challengers n ∈ s) (n : ℕ) :
    champion beats first challengers n ∈ s := by
  induction n with
  | zero => exact hfirst
  | succ n ih =>
    rw [champion]
    split
    · exact hs n
    · exact ih

/-- A challenge leaves the champion in place, or brings in one that beats it. -/
theorem champion_succ (n : ℕ) :
    champion beats first challengers (n + 1) = champion beats first challengers n ∨
      beats (champion beats first challengers (n + 1)) (champion beats first challengers n) := by
  rw [champion]
  split
  · rename_i h
    exact Or.inr h
  · exact Or.inl rfl

/-- **Among finitely many candidates a strict order settles**: from some challenge on, the
champion stays. Each change of the champion goes up in a strict order on a finite set, so that
there are finitely many. -/
theorem champion_settles {s : Set P} (hfin : s.Finite) (hfirst : first ∈ s)
    (hs : ∀ n, challengers n ∈ s) (hirr : ∀ a ∈ s, ¬ beats a a)
    (htrans : ∀ a ∈ s, ∀ b ∈ s, ∀ c ∈ s, beats a b → beats b c → beats a c) :
    ∃ N, ∀ n, N ≤ n →
      champion beats first challengers n = champion beats first challengers N := by
  have hmem : ∀ n, champion beats first challengers n ∈ s := champion_mem hfirst hs
  have : Finite s := hfin
  have : IsTrans s (fun a b => beats a b) :=
    ⟨fun a b c hab hbc => htrans a a.2 b b.2 c c.2 hab hbc⟩
  have : Std.Irrefl (fun a b : s => beats a b) := ⟨fun a => hirr a a.2⟩
  have hwf := Finite.wellFounded_of_trans_of_irrefl (fun a b : s => beats a b)
  -- a champion that none of the later champions beats
  obtain ⟨_, ⟨N, rfl⟩, hmin⟩ := hwf.has_min
    (Set.range (fun n => (⟨champion beats first challengers n, hmem n⟩ : s))) ⟨_, 0, rfl⟩
  refine ⟨N, fun n hn => ?_⟩
  induction n, hn using Nat.le_induction with
  | base => rfl
  | succ n _ ih =>
    refine (champion_succ n).elim (fun h => h.trans ih) (fun h => ?_)
    rw [ih] at h
    exact (hmin _ ⟨n + 1, rfl⟩ h).elim

end Champion
