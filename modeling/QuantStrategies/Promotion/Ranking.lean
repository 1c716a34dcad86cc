import QuantStrategies.Lib.Ranking
import QuantStrategies.Promotion.Evaluate

/-!
# The promotion metrics as a ranking

On one SOFT metric, a result is ahead of another when it has the metric and the
other lacks it or has a worse value. That is a ranking, with the missing value
lowest, and the metrics in their order of priority are one again. The code does
not follow it: a metric that the candidate lacks is passed over, whether or not the
best has it, while one that the best lacks promotes the candidate at once. So a
candidate can come back on a best that is ahead of it, and be beaten by it in turn.

What is proved is an exact condition. The code's rule is a strict order on some candidates
exactly when none of them comes back on another in this way (`ComesBack`). Without a
comeback it is the lexicographic ranking of the library.
-/

namespace Promotion

variable {α : Type} [LinearOrder α]

/-! ## One metric -/

/-- The other way round, a comparison has the other sign. -/
theorem compareValues_swap (a b : α) (direction : String) :
    compareValues b a direction = -compareValues a b direction := by
  unfold compareValues
  split <;> simp

/-- It is above zero when the first value is better, by the direction of the metric. -/
theorem compareValues_pos {a b : α} {direction : String} :
    0 < compareValues a b direction ↔ if direction = "lower_is_better" then a < b else b < a := by
  unfold compareValues indicator
  split
  · obtain h | rfl | h := lt_trichotomy a b
    · simp [h, h.not_gt]
    · simp
    · simp [h, h.not_gt]
  · obtain h | rfl | h := lt_trichotomy a b
    · simp [h, h.not_gt]
    · simp
    · simp [h, h.not_gt]

variable [Sub α]

/-- The result has a finite value of the metric. -/
def Has (m : PromotionMetric α) (a : Payload α) : Prop :=
  (extractMetric a m.metricKey).isSome

/-- Both have the metric, with values that do not decide. -/
def Tied (m : PromotionMetric α) (a b : Payload α) : Prop :=
  ∃ x ∈ extractMetric a m.metricKey, ∃ y ∈ extractMetric b m.metricKey,
    compareValues x y m.direction = 0

/-- `a` has the metric, and `b` lacks it or has a worse value. -/
def Ahead (m : PromotionMetric α) (a b : Payload α) : Prop :=
  ∃ x ∈ extractMetric a m.metricKey, ∀ y ∈ extractMetric b m.metricKey,
    0 < compareValues x y m.direction

/-- A missing value lowest, one metric is a ranking. -/
theorem ahead_isRanking (m : PromotionMetric α) : IsRanking (Ahead m) := by
  refine ⟨?_, ?_⟩
  · rintro a b ⟨x, hx, hxy⟩ ⟨y, hy, hyx⟩
    have hxy := hxy y hy
    have hyx := hyx x hx
    rw [compareValues_swap] at hyx
    omega
  · rintro a c ⟨x, hx, hxz⟩ b
    cases hb : extractMetric b m.metricKey with
    | none => exact Or.inl ⟨x, hx, by simp [hb]⟩
    | some y =>
      by_cases hxy : 0 < compareValues x y m.direction
      · exact Or.inl ⟨x, hx, by simpa [hb] using hxy⟩
      · refine Or.inr ⟨y, hb, fun z hz => ?_⟩
        have hxz := hxz z hz
        rw [compareValues_pos] at hxy hxz ⊢
        split at hxy
        · rw [if_pos ‹_›] at hxz ⊢
          exact lt_of_le_of_lt (not_lt.mp hxy) hxz
        · rw [if_neg ‹_›] at hxz ⊢
          exact lt_of_lt_of_le hxz (not_lt.mp hxy)

/-- Level on a metric: tied on it, or both without it. -/
theorem level_iff {m : PromotionMetric α} {a b : Payload α} :
    Ranking.Level Ahead m a b ↔ Tied m a b ∨ ¬ Has m a ∧ ¬ Has m b := by
  unfold Ranking.Level Ahead Tied Has
  cases extractMetric a m.metricKey with
  | none => cases extractMetric b m.metricKey <;> simp
  | some x =>
    cases extractMetric b m.metricKey with
    | none => simp
    | some y =>
      have hswap := compareValues_swap x y m.direction
      simp only [Option.mem_def, Option.some.injEq, exists_eq_left', forall_eq',
        Option.isSome_some, not_true_eq_false, and_false, or_false]
      omega

/-- Who is ahead on a metric has it. -/
theorem Ahead.has {m : PromotionMetric α} {a b : Payload α} (h : Ahead m a b) : Has m a := by
  obtain ⟨x, hx, -⟩ := h
  exact Option.isSome_of_mem hx

/-- A result is not behind on a metric on which the two are tied. -/
theorem Tied.not_ahead {m : PromotionMetric α} {a b : Payload α} (h : Tied m a b) :
    ¬ Ahead m a b ∧ ¬ Ahead m b a :=
  level_iff.mpr (Or.inl h)

/-! ## The SOFT metrics in their order -/

/-- **What promotes a candidate**: the first metric on which it is ahead, if on every
one above that it lacks the metric or is tied. -/
theorem evaluateSoft_promoted_iff {a b : Payload α} {soft : List (PromotionMetric α)} :
    evaluateSoft a b soft = .promoted ↔ ∃ before m after, soft = before ++ m :: after ∧
      (∀ k ∈ before, Has k a → Tied k a b) ∧ Ahead m a b := by
  induction soft with
  | nil =>
    refine ⟨nofun, ?_⟩
    rintro ⟨before, m, after, h, -⟩
    simp at h
  | cons m soft ih =>
    -- the first of the metrics decides, or is passed over
    have hcons : evaluateSoft a b (m :: soft) = .promoted ↔
        Ahead m a b ∨ (Has m a → Tied m a b) ∧ evaluateSoft a b soft = .promoted := by
      rw [evaluateSoft]
      unfold Ahead Has Tied
      cases hx : extractMetric a m.metricKey with
      | none => simp
      | some x =>
        cases hy : extractMetric b m.metricKey with
        | none => simp
        | some y =>
          obtain h | h | h := lt_trichotomy (compareValues x y m.direction) 0
          · simp [h.ne, h.not_gt]
          · simp [h]
          · simp [h.ne', h]
    rw [hcons, ih]
    refine ⟨?_, ?_⟩
    · rintro (h | ⟨hm, before, k, after, rfl, hbefore, hk⟩)
      · exact ⟨[], m, soft, rfl, by simp, h⟩
      · refine ⟨m :: before, k, after, rfl, ?_, hk⟩
        rintro l (_ | ⟨_, hl⟩)
        · exact hm
        · exact hbefore l hl
    · rintro ⟨before, k, after, hsoft, hbefore, hk⟩
      cases before with
      | nil =>
        obtain ⟨rfl, rfl⟩ := List.cons.inj hsoft
        exact Or.inl hk
      | cons l before =>
        obtain ⟨rfl, rfl⟩ := List.cons.inj hsoft
        exact Or.inr ⟨hbefore m List.mem_cons_self, before, k, after, rfl,
          fun j hj => hbefore j (List.mem_cons_of_mem m hj), hk⟩

/-- Whoever is ahead on the metrics in their order is promoted. -/
theorem evaluateSoft_of_first {a b : Payload α} {soft : List (PromotionMetric α)}
    (h : Ranking.First Ahead soft a b) : evaluateSoft a b soft = .promoted := by
  obtain ⟨before, m, after, hsoft, hbefore, hm⟩ := Ranking.first_iff_exists.mp h
  refine evaluateSoft_promoted_iff.mpr ⟨before, m, after, hsoft, fun k hk hka => ?_, hm⟩
  exact (level_iff.mp (hbefore k hk)).resolve_right (fun h => h.1 hka)

/-- `b` comes back on `a`: on the first metric on which the two are not level, `a`
has a value and `b` has none; and of the later metrics that `b` has, the first on
which the two are not tied is one on which `b` is ahead. -/
def ComesBack (soft : List (PromotionMetric α)) (b a : Payload α) : Prop :=
  ∃ before m between k after, soft = before ++ m :: (between ++ k :: after) ∧
    (∀ j ∈ before, Tied j a b ∨ ¬ Has j a ∧ ¬ Has j b) ∧ Has m a ∧ ¬ Has m b ∧
    (∀ j ∈ between, Has j b → Tied j b a) ∧ Ahead k b a

theorem Tied.symm {m : PromotionMetric α} {a b : Payload α} (h : Tied m a b) : Tied m b a := by
  obtain ⟨x, hx, y, hy, hxy⟩ := h
  exact ⟨y, hy, x, hx, by rw [compareValues_swap, hxy, neg_zero]⟩

/-- A candidate that comes back is promoted over the other, and the other over it. -/
theorem ComesBack.both {soft : List (PromotionMetric α)} {a b : Payload α}
    (h : ComesBack soft b a) :
    evaluateSoft b a soft = .promoted ∧ evaluateSoft a b soft = .promoted := by
  obtain ⟨before, m, between, k, after, rfl, hbefore, hma, hmb, hbetween, hk⟩ := h
  refine ⟨evaluateSoft_promoted_iff.mpr ⟨before ++ m :: between, k, after, by simp, ?_, hk⟩,
    evaluateSoft_promoted_iff.mpr ⟨before, m, between ++ k :: after, rfl, ?_, ?_⟩⟩
  · intro j hj hjb
    obtain hj | hj := List.mem_append.mp hj
    · exact ((hbefore j hj).resolve_right (fun h => h.2 hjb)).symm
    obtain rfl | hj := List.mem_cons.mp hj
    · exact (hmb hjb).elim
    · exact hbetween j hj hjb
  · exact fun j hj hja => (hbefore j hj).resolve_right (fun h => h.1 hja)
  · obtain ⟨x, hx⟩ := Option.isSome_iff_exists.mp hma
    refine ⟨x, hx, fun y hy => (hmb ?_).elim⟩
    exact Option.isSome_of_mem hy

/-- Promoted over a result that is ahead of it, a candidate has come back. -/
theorem comesBack_of_promoted {soft : List (PromotionMetric α)} {a b : Payload α}
    (hab : Ranking.First Ahead soft a b) (h : evaluateSoft b a soft = .promoted) :
    ComesBack soft b a := by
  induction soft with
  | nil => exact hab.elim
  | cons m soft ih =>
    obtain ⟨before, k, after, hsoft, hbefore, hk⟩ := evaluateSoft_promoted_iff.mp h
    by_cases hm : Ahead m a b
    · cases before with
      | nil =>
        obtain ⟨rfl, rfl⟩ := List.cons.inj hsoft
        exact ((ahead_isRanking m).asymm hm hk).elim
      | cons l before =>
        obtain ⟨rfl, rfl⟩ := List.cons.inj hsoft
        have hmb : ¬ Has m b := fun hmb =>
          (hbefore m List.mem_cons_self hmb).not_ahead.2 hm
        exact ⟨[], m, before, k, after, rfl, by simp, hm.has, hmb,
          fun j hj => hbefore j (List.mem_cons_of_mem m hj), hk⟩
    · obtain ⟨hmb, hab⟩ := hab.resolve_left hm
      cases before with
      | nil =>
        obtain ⟨rfl, rfl⟩ := List.cons.inj hsoft
        exact (hmb hk).elim
      | cons l before =>
        obtain ⟨rfl, rfl⟩ := List.cons.inj hsoft
        obtain ⟨before', m', between, k', after', hsoft', hbefore', hrest⟩ :=
          ih hab (evaluateSoft_promoted_iff.mpr ⟨before, k, after, rfl,
            fun j hj => hbefore j (List.mem_cons_of_mem m hj), hk⟩)
        refine ⟨m :: before', m', between, k', after', congrArg (m :: ·) hsoft', ?_, hrest⟩
        rintro j (_ | ⟨_, hj⟩)
        · exact level_iff.mp ⟨hm, hmb⟩
        · exact hbefore' j hj

/-- **Without a comeback the SOFT metrics rank by their order.** -/
theorem promoted_iff_first {soft : List (PromotionMetric α)} {a b : Payload α}
    (h : ¬ ComesBack soft a b) :
    evaluateSoft a b soft = .promoted ↔ Ranking.First Ahead soft a b := by
  refine ⟨fun hpromoted => ?_, evaluateSoft_of_first⟩
  obtain hab | hba | hlevel := Ranking.first_or_first_or_level (r := Ahead) soft a b
  · exact hab
  · exact (h (comesBack_of_promoted hba hpromoted)).elim
  · obtain ⟨before, m, after, rfl, -, hm⟩ := evaluateSoft_promoted_iff.mp hpromoted
    exact ((hlevel m (by simp)).1 hm).elim

/-! ## The candidates for the best version -/

/-- A version with its stored result. -/
structure Candidate (α : Type) where
  /-- The version. -/
  strategyVid : ℤ
  /-- Its result. -/
  payload : Payload α
deriving DecidableEq

/-- `evaluate_promotion` of `a` against the best `b` answers PROMOTED. -/
def Promotes (metrics : List (PromotionMetric α)) (a b : Candidate α) : Prop :=
  (evaluatePromotion a.payload (some b.payload) metrics false (some b.strategyVid)
    (some a.strategyVid)).outcome = .promoted

instance (metrics : List (PromotionMetric α)) : DecidableRel (Promotes metrics) :=
  fun _ _ => inferInstanceAs (Decidable (_ = _))

/-- A strict order on the candidates, and what one is for: however the candidates
challenge the best, from some challenge on the best stays. -/
structure StrictOrder (metrics : List (PromotionMetric α)) (candidates : List (Candidate α)) :
    Prop where
  /-- None is promoted over itself. -/
  irrefl : ∀ a ∈ candidates, ¬ Promotes metrics a a
  /-- No two are promoted over each other. -/
  asymm : ∀ a ∈ candidates, ∀ b ∈ candidates, Promotes metrics a b → ¬ Promotes metrics b a
  /-- Whoever is promoted over one that is promoted over a third is promoted over the third. -/
  trans : ∀ a ∈ candidates, ∀ b ∈ candidates, ∀ c ∈ candidates,
    Promotes metrics a b → Promotes metrics b c → Promotes metrics a c
  /-- However they challenge the best, it stays from some challenge on. -/
  settles : ∀ first ∈ candidates, ∀ challengers : ℕ → Candidate α,
    (∀ n, challengers n ∈ candidates) → ∃ N, ∀ n, N ≤ n →
      champion (Promotes metrics) first challengers n
        = champion (Promotes metrics) first challengers N

variable {metrics : List (PromotionMetric α)} {candidates : List (Candidate α)}

/-- A candidate that passes the gates is promoted by the SOFT metrics alone. -/
theorem promotes_iff {a b : Candidate α} (ha : passesHardGates a.payload metrics) :
    Promotes metrics a b ↔
      evaluateSoft a.payload b.payload (ofType metrics "SOFT") = .promoted := by
  refine evaluatePromotion_challenger.trans ⟨fun h => h.2.2, fun h => ⟨?_, ha, h⟩⟩
  rintro rfl
  cases h

/-- **The promotion ranking is a strict order exactly without a comeback.** The gates are asked
for since a candidate that fails one is never promoted, whatever its metrics. -/
theorem strictOrder_iff (hgates : ∀ a ∈ candidates, passesHardGates a.payload metrics) :
    StrictOrder metrics candidates ↔ ∀ a ∈ candidates, ∀ b ∈ candidates,
      ¬ ComesBack (ofType metrics "SOFT") a.payload b.payload := by
  refine ⟨fun h a ha b hb hback => ?_, fun h => ?_⟩
  · obtain ⟨hab, hba⟩ := hback.both
    exact h.asymm a ha b hb ((promotes_iff (hgates a ha)).mpr hab)
      ((promotes_iff (hgates b hb)).mpr hba)
  · have hranking : IsRanking (Ranking.First Ahead (ofType metrics "SOFT")) :=
      Ranking.first_isRanking (fun m _ => ahead_isRanking m)
    have hiff : ∀ a ∈ candidates, ∀ b ∈ candidates, (Promotes metrics a b ↔
        Ranking.First Ahead (ofType metrics "SOFT") a.payload b.payload) := fun a ha b hb =>
      (promotes_iff (hgates a ha)).trans (promoted_iff_first (h a ha b hb))
    have hirrefl : ∀ a ∈ candidates, ¬ Promotes metrics a a := fun a ha hpromotes =>
      hranking.irrefl _ ((hiff a ha a ha).mp hpromotes)
    have htrans : ∀ a ∈ candidates, ∀ b ∈ candidates, ∀ c ∈ candidates,
        Promotes metrics a b → Promotes metrics b c → Promotes metrics a c := by
      intro a ha b hb c hc hab hbc
      exact (hiff a ha c hc).mpr
        (hranking.trans ((hiff a ha b hb).mp hab) ((hiff b hb c hc).mp hbc))
    refine ⟨hirrefl, ?_, htrans, ?_⟩
    · intro a ha b hb hab hba
      exact hranking.asymm ((hiff a ha b hb).mp hab) ((hiff b hb a ha).mp hba)
    · intro first hfirst challengers hchallengers
      exact champion_settles (List.finite_toSet candidates) hfirst hchallengers hirrefl htrans

namespace StrictOrder

/-- A gate on the Sharpe ratio, then the SOFT metrics as they are seeded. -/
def seeded : List (PromotionMetric ℤ) :=
  [⟨some "sharpe_gate", "Sharpe Ratio", "higher_is_better", some "HARD", some 1⟩,
    ⟨some "sharpe_compare", "Sharpe Ratio", "higher_is_better", some "SOFT", none⟩,
    ⟨some "calmar_compare", "Calmar Ratio", "higher_is_better", some "SOFT", none⟩,
    ⟨some "total_return", "Total Return", "higher_is_better", some "SOFT", none⟩]

/-- A result with a Calmar ratio, and one without whose return is higher. -/
def contenders : List (Candidate ℤ) :=
  [⟨1, ⟨[("Sharpe Ratio", .number 2), ("Calmar Ratio", .number 1), ("Total Return", .number 3)],
      [], []⟩⟩,
    ⟨2, ⟨[("Sharpe Ratio", .number 2), ("Calmar Ratio", .nonFinite), ("Total Return", .number 4)],
      [], []⟩⟩]

/-- Two results that pass the gates, each promoted over the other. -/
theorem seeded_contenders_not : (∀ a ∈ contenders, passesHardGates a.payload seeded) ∧
    ¬ StrictOrder seeded contenders := by
  refine ⟨by decide, fun h => ?_⟩
  exact h.asymm _ (List.mem_cons_self) _ (List.mem_cons_of_mem _ List.mem_cons_self)
    (by decide) (by decide)

/-- Three candidates under the seeded metrics: all pass the gates, and the order is strict exactly
when none comes back. -/
theorem seeded_contenders_iff : (∀ a ∈ contenders, passesHardGates a.payload seeded) ∧
    (StrictOrder seeded contenders ↔ ∀ a ∈ contenders, ∀ b ∈ contenders,
      ¬ ComesBack (ofType seeded "SOFT") a.payload b.payload) :=
  ⟨by decide, strictOrder_iff (by decide)⟩

end StrictOrder

end Promotion
