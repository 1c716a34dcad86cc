import QuantStrategies.Lib.FirstMax
import QuantStrategies.Lib.Ieee
import QuantStrategies.Strategy.Live

/-!
# What combined positions are

The vectorised masks of `combinePositions`, against a description of each row that
mentions none. A factor that is not known leaves the row unknown. Otherwise AND is
the side that all factors take, OR the only side that any takes, and FILTER the
side of the factors behind the gate. Where two sides are taken, it is the side of
the first factor of the largest conviction, or one that is fixed in advance where
there are no strengths.

The largest conviction is found on a masked row, in which a flat factor has minus
infinity. It is found because a conviction is a distance, and never missing, not
even where the reading is.

The description is relational: `RowOf` says of each case what the row has to be, and where
conviction decides it says so by the order of the strengths, with no masked row and no
`argmax`. The proof is then that the masks compute a row with that description, one
conjunction at a time.
-/

open Pandas NpFloat IeeeFloat

/-! ## The description -/

section

variable {F : Type} [NpFloat F]

/-- The sign of the first factor of the largest conviction, among those that are not
flat. -/
def MostConvicted (signs : List Position) (conviction : List F) (s : Position) : Prop :=
  ∃ before c after, signs.zip conviction = before ++ (s, c) :: after ∧ s ≠ some 0 ∧
    (∀ e ∈ before, e.1 ≠ some 0 → lt e.2 c = true) ∧
    ∀ e ∈ after, e.1 ≠ some 0 → lt c e.2 = false

/-- How a conflict ends: by conviction where there is one, or else as it must. -/
def ConflictEnds (signs : List Position) (conviction : Option (List F)) (otherwise s : Position) :
    Prop :=
  (conviction = none → s = otherwise) ∧ ∀ c, conviction = some c → MostConvicted signs c s

/-- AND, of signs that are all known. -/
structure AndOf (signs : List Position) (conviction : Option (List F)) (s : Position) : Prop where
  /-- The common sign when all agree. -/
  agree : ∀ σ : SignType, σ ≠ 0 → (∀ x ∈ signs, x = some σ) → s = some σ
  /-- A flat factor vetoes. -/
  veto : some 0 ∈ signs → s = some 0
  /-- All take a side, and not the same one. -/
  disagree : some 0 ∉ signs → some 1 ∈ signs → some (-1) ∈ signs →
    ConflictEnds signs conviction (some 0) s

/-- OR, of signs that are all known. -/
structure OrOf (signs : List Position) (conviction : Option (List F)) (s : Position) : Prop where
  /-- The only side that is taken. -/
  only : ∀ σ : SignType, σ ≠ 0 → some σ ∈ signs → some (-σ) ∉ signs → s = some σ
  /-- No side is taken. -/
  flat : some 1 ∉ signs → some (-1) ∉ signs → s = some 0
  /-- Both sides are taken. -/
  conflict : some 1 ∈ signs → some (-1) ∈ signs → ConflictEnds signs conviction (some 1) s

/-- FILTER, of signs that are all known. The conviction is that of the factors behind
the gate. -/
structure FilterOf (signs : List Position) (conviction : Option (List F)) (s : Position) :
    Prop where
  /-- The gate is closed. -/
  closed : signs.head? = some (some 0) → s = some 0
  /-- One factor behind an open gate. -/
  two : ∀ gate direction, signs = [gate, direction] → gate ≠ some 0 → s = direction
  /-- Several factors behind an open gate. -/
  more : ∀ gate rest, signs = gate :: rest → 2 ≤ rest.length → gate ≠ some 0 →
    AndOf rest conviction s

/-- The combination of signs that are all known. -/
def CombinationOf : Conjunction → List Position → Option (List F) → Position → Prop
  | .and => AndOf
  | .or => OrOf
  | .filter => FilterOf

/-- What a row of `combinePositions` is to be. -/
structure RowOf (conj : Conjunction) (signs : List Position) (conviction : Option (List F))
    (s : Position) : Prop where
  /-- The row is missing exactly when a factor is. -/
  unknown : s = none ↔ none ∈ signs
  /-- With every factor known, it is their combination. -/
  known : none ∉ signs → CombinationOf conj signs conviction s

end

variable {F : Type} [IeeeFloat F]

/-! ## The largest conviction -/

/-- A number above minus infinity, as every distance is. -/
structure Conviction (c : F) : Prop where
  /-- It is a number. -/
  known : isNan c = false
  /-- And larger than the value that masks a flat factor. -/
  above : lt (-inf) c = true

/-- A distance has a conviction as soon as it is a number: no distance is below zero. -/
theorem Conviction.abs {x : F} (h : isNan x = false) : Conviction (NpFloat.abs x) :=
  ⟨by rw [isNan_abs, h], neg_inf_lt_abs h⟩

/-- A distance from the median, of a number. -/
theorem Conviction.fromMedian {x : F} (h : isNan x = false) :
    Conviction (NpFloat.abs (x - lit (1 / 2))) := by
  refine .abs ?_
  have hhalf : isInf (lit (1 / 2) : F) = false := isInf_lit (by norm_num [abs_le])
  rw [isNan_sub, h, isNan_lit, hhalf, Bool.and_false, Bool.false_and]
  rfl

/-- Every row has a conviction, whatever the readings. -/
theorem conviction_mem (strength : List F) : ∀ c ∈ conviction strength, Conviction c := by
  refine Causal.forall_mem_loop (fun seen value => ?_) [] strength
  rw [convictionStep]
  dsimp only
  split_ifs with hnan hone
  · exact .fromMedian (isNan_lit _)
  · exact .fromMedian (isNan_lit _)
  · obtain ⟨n, hn⟩ := Nat.exists_eq_add_of_lt (not_le.mp hone)
    rw [show (insort seen value).length = (1 + n) + 1 from hn]
    exact .fromMedian (isNan_ratio _ _)

/-- `argmax` is the first of the largest of what is not missing. -/
theorem argmax_firstMax {xs : List F} (hne : xs ≠ []) (hknown : ∀ x ∈ xs, isNan x = false) :
    FirstMax lt xs (argmax xs) := by
  obtain ⟨x, xs, rfl⟩ := List.exists_cons_of_ne_nil hne
  -- what the scan has seen, the largest of it, and how much it is
  have hscan (ys : List F) : ∀ (seen : List F) (s : F × ℕ × ℕ),
      (∀ y ∈ seen ++ ys, isNan y = false) → FirstMax lt seen s.2.1 → seen[s.2.1]? = some s.1 →
      s.2.2 = seen.length →
      FirstMax lt (seen ++ ys) (ys.foldl (fun (s : F × ℕ × ℕ) y =>
        if !isNan s.1 && (isNan y || lt s.1 y) then (y, s.2.2, s.2.2 + 1)
        else (s.1, s.2.1, s.2.2 + 1)) s).2.1 := by
    induction ys with
    | nil => exact fun seen s _ hmax _ _ => by rwa [List.append_nil]
    | cons y ys ih =>
      intro seen s hnan hmax hlargest hlen
      have hy : isNan y = false := hnan y (by simp)
      have hs : isNan s.1 = false :=
        hnan _ (List.mem_append_left _ (List.mem_of_getElem? hlargest))
      have hseen : ∀ z ∈ seen, isNan z = false := fun z hz => hnan z (List.mem_append_left _ hz)
      rw [List.append_cons] at hnan ⊢
      rw [List.foldl_cons, hs, hy, Bool.not_false, Bool.true_and, Bool.false_or]
      cases hlt : lt s.1 y with
      | true =>
        refine ih _ _ hnan ?_ ?_ ?_
        · rw [if_pos rfl, hlen]
          exact hmax.append_of_lt (fun _ _ => lt_asymm)
            (fun a ha _ _ h => lt_or_lt h (hseen a ha)) hlargest hlt
        · rw [if_pos rfl, hlen, List.getElem?_concat_length]
        · rw [if_pos rfl, hlen, List.length_append, List.length_singleton]
      | false =>
        refine ih _ _ hnan ?_ ?_ ?_
        · exact hmax.append_of_not_lt hlargest hlt
        · rw [if_neg Bool.false_ne_true]
          exact List.getElem?_append_left (List.getElem?_eq_some_iff.mp hlargest).1 ▸ hlargest
        · rw [if_neg Bool.false_ne_true, hlen, List.length_append, List.length_singleton]
  exact hscan xs [x] (x, 0, 1) hknown (.single lt x) rfl rfl

/-- The masked row finds the most convicted factor, where one is not flat. -/
theorem strongestSign_mostConvicted {signs : List Position} {conviction : List F}
    (hlen : conviction.length = signs.length) (hc : ∀ c ∈ conviction, Conviction c)
    {σ : Position} (hσ : σ ∈ signs) (hflat : σ ≠ some 0) :
    MostConvicted signs conviction (strongestSign signs conviction) := by
  let mask : Position × F → F := fun e => if e.1 = some 0 then -inf else e.2
  have hmasked : List.zipWith (fun s c => if s = some 0 then -inf else c) signs conviction
      = (signs.zip conviction).map mask :=
    (@List.map_zip_eq_zipWith _ _ _ mask signs conviction).symm
  have hfst : (signs.zip conviction).map Prod.fst = signs := List.map_fst_zip hlen.ge
  have hconv : ∀ e ∈ signs.zip conviction, Conviction e.2 := fun e he =>
    hc _ (List.of_mem_zip he).2
  -- a factor that takes a side is above the ones that are masked
  obtain ⟨e, he, rfl⟩ : ∃ e ∈ signs.zip conviction, e.1 = σ :=
    List.mem_map.mp (hfst.symm ▸ hσ)
  have hside : mask e = e.2 := if_neg hflat
  have hnan : ∀ x ∈ (signs.zip conviction).map mask, isNan x = false := fun x hx => by
    obtain ⟨e', he', rfl⟩ := List.mem_map.mp hx
    show isNan (if e'.1 = some 0 then -inf else e'.2) = false
    split
    · rw [isNan_neg, isNan_inf]
    · exact (hconv e' he').known
  have hne : (signs.zip conviction).map mask ≠ [] :=
    List.ne_nil_of_mem (List.mem_map_of_mem he)
  obtain ⟨before, z, after, hzip, hlength, hbefore, hafter⟩ :=
    (argmax_firstMax hne hnan).of_map
  have hsign : strongestSign signs conviction = z.1 := by
    have hrow : signs[argmax ((signs.zip conviction).map mask)]? = some z.1 := by
      rw [← hlength, ← congrArg (·[before.length]?) hfst, hzip]
      simp
    rw [strongestSign, hmasked, List.getD_eq_getElem?_getD, hrow]
    rfl
  have hz : z.1 ≠ some 0 := fun hzero => by
    have hlow : mask z = -inf := if_pos hzero
    have hmem : e ∈ before ++ z :: after := hzip ▸ he
    rcases List.mem_append.mp hmem with hmem | hmem
    · have hlt := hbefore e hmem
      rw [hlow, hside, lt_asymm (hconv e he).above] at hlt
      cases hlt
    · rcases List.mem_cons.mp hmem with rfl | hmem
      · exact hflat hzero
      · have hlt := hafter e hmem
        rw [hlow, hside, (hconv e he).above] at hlt
        cases hlt
  have hval : mask z = z.2 := if_neg hz
  refine ⟨before, z.2, after, hsign ▸ hzip, hsign ▸ hz, fun y hy hyflat => ?_, fun y hy hyflat => ?_⟩
  · have hlt := hbefore y hy
    rwa [hval, show mask y = y.2 from if_neg hyflat] at hlt
  · have hlt := hafter y hy
    rwa [hval, show mask y = y.2 from if_neg hyflat] at hlt

/-! ## What the description leaves open

Nothing, where all signs are known: then so is what they combine to. -/

section

variable {signs : List Position} {conviction : Option (List F)} {s otherwise : Position}

omit [IeeeFloat F] in
/-- The side that conviction picks is the side of one of the factors. -/
theorem MostConvicted.mem [NpFloat F] {c : List F} (h : MostConvicted signs c s) : s ∈ signs := by
  obtain ⟨before, x, after, hzip, -, -, -⟩ := h
  have hmem : (s, x) ∈ signs.zip c := hzip ▸ List.mem_append_right _ List.mem_cons_self
  exact (List.of_mem_zip hmem).1

/-- A conflict ends in a position, by either way to end it. -/
theorem ConflictEnds.known (h : ConflictEnds signs conviction otherwise s) (hknown : none ∉ signs)
    (hotherwise : otherwise ≠ none) : s ≠ none := by
  cases hc : conviction with
  | none => exact h.1 hc ▸ hotherwise
  | some c => exact fun hs => hknown (hs ▸ (h.2 c hc).mem)

/-- All factors being known, AND leaves a position. -/
theorem AndOf.known (h : AndOf signs conviction s) (hknown : none ∉ signs) : s ≠ none := by
  by_cases hflat : some 0 ∈ signs
  · exact h.veto hflat ▸ Option.some_ne_none _
  by_cases hlong : some 1 ∈ signs
  · by_cases hshort : some (-1) ∈ signs
    · exact (h.disagree hflat hlong hshort).known hknown (Option.some_ne_none _)
    · refine h.agree 1 (by decide) (fun x hx => ?_) ▸ Option.some_ne_none _
      rcases x with _ | _ | _ | _
      exacts [absurd hx hknown, absurd hx hflat, absurd hx hshort, rfl]
  · refine h.agree (-1) (by decide) (fun x hx => ?_) ▸ Option.some_ne_none _
    rcases x with _ | _ | _ | _
    exacts [absurd hx hknown, absurd hx hflat, rfl, absurd hx hlong]

theorem OrOf.known (h : OrOf signs conviction s) (hknown : none ∉ signs) : s ≠ none := by
  by_cases hlong : some 1 ∈ signs
  · by_cases hshort : some (-1) ∈ signs
    · exact (h.conflict hlong hshort).known hknown (Option.some_ne_none _)
    · exact h.only 1 (by decide) hlong hshort ▸ Option.some_ne_none _
  · by_cases hshort : some (-1) ∈ signs
    · exact h.only (-1) (by decide) hshort hlong ▸ Option.some_ne_none _
    · exact h.flat hlong hshort ▸ Option.some_ne_none _

/-- So does FILTER, of a gate and one factor behind it at least. -/
theorem FilterOf.known (h : FilterOf signs conviction s) (htwo : 2 ≤ signs.length)
    (hknown : none ∉ signs) : s ≠ none := by
  match signs, htwo with
  | gate :: direction :: rest, _ =>
    obtain ⟨-, hknown'⟩ := not_or.mp (mt List.mem_cons.mpr hknown)
    by_cases hgate : gate = some 0
    · exact h.closed (congrArg some hgate) ▸ Option.some_ne_none _
    · cases rest with
      | nil =>
        refine h.two gate direction rfl hgate ▸ fun hnone => hknown' ?_
        exact hnone ▸ List.mem_singleton_self _
      | cons x xs =>
        exact (h.more gate _ rfl (Nat.le_add_left 2 xs.length) hgate).known hknown'

/-- **Nothing is lost by combining**: where every factor is known, so is the row. -/
theorem CombinationOf.known {conj : Conjunction} (h : CombinationOf conj signs conviction s)
    (htwo : 2 ≤ signs.length) (hknown : none ∉ signs) : s ≠ none := by
  cases conj with
  | and => exact AndOf.known h hknown
  | or => exact OrOf.known h hknown
  | filter => exact FilterOf.known h htwo hknown

end

/-! ## One row -/

/-- Convictions for the factors of a row, where there are any. -/
def Convictions (signs : List Position) (conviction : Option (List F)) : Prop :=
  ∀ c, conviction = some c → c.length = signs.length ∧ ∀ x ∈ c, Conviction x

/-- A conflict that conviction decides, or nothing does. -/
theorem conflictEnds {signs : List Position} {conviction : Option (List F)}
    (hc : Convictions signs conviction) (hlong : some 1 ∈ signs) {otherwise s : Position}
    (hnone : conviction = none → s = otherwise)
    (hsome : ∀ c, conviction = some c → s = strongestSign signs c) :
    ConflictEnds signs conviction otherwise s :=
  ⟨hnone, fun c h => hsome c h ▸
    strongestSign_mostConvicted (hc c h).1 (hc c h).2 hlong (by decide)⟩

/-- The mask of a side has a row set exactly when some factor takes that side. -/
theorem any_sign (signs : List Position) (s : Position) :
    signs.any (· = s) = decide (s ∈ signs) := by
  rw [Bool.eq_iff_iff]
  simp

/-- `_combine_and`, on a row of known signs. -/
theorem combineAnd_andOf {signs : List Position} {conviction : Option (List F)}
    (hne : signs ≠ []) (hc : Convictions signs conviction) :
    AndOf signs conviction (combineAnd signs false conviction) := by
  -- without a conflict, or without convictions, a side is taken when all take it
  have hclear (h : ¬ (some 1 ∈ signs ∧ some (-1) ∈ signs ∧ some 0 ∉ signs) ∨ conviction = none) :
      combineAnd signs false conviction =
        if ∀ x ∈ signs, x = some 1 then some 1
        else if ∀ x ∈ signs, x = some (-1) then some (-1) else some 0 := by
    simp only [combineAnd, any_sign, List.all_eq_true, decide_eq_true_eq]
    cases conviction with
    | none => rfl
    | some c =>
      refine if_neg fun hconflict => h.resolve_right (Option.some_ne_none c) ?_
      simpa only [Bool.and_eq_true, Bool.not_eq_true', decide_eq_true_eq, decide_eq_false_iff_not,
        Bool.not_false, and_true, and_assoc] using hconflict
  have hnot {s : Position} (t : Position) (hs : s ∈ signs) (hst : s ≠ t) :
      ¬ ∀ x ∈ signs, x = t := fun hall => hst (hall s hs)
  obtain ⟨x, hx⟩ := List.exists_mem_of_ne_nil _ hne
  refine ⟨fun σ hσ hall => ?_, fun hflat => ?_, fun hflat hlong hshort => ?_⟩
  · have hagree : ¬ (some 1 ∈ signs ∧ some (-1) ∈ signs ∧ some 0 ∉ signs) := fun h => by
      cases (hall _ h.1).trans (hall _ h.2.1).symm
    rw [hclear (.inl hagree)]
    cases σ with
    | zero => exact absurd rfl hσ
    | pos => exact if_pos hall
    | neg =>
      have hx' : x ≠ some 1 := (hall x hx).symm ▸ (by decide)
      rw [if_neg (hnot (some 1) hx hx')]
      exact if_pos hall
  · rw [hclear (.inl fun h => h.2.2 hflat), if_neg (hnot (some 1) hflat (by decide)),
      if_neg (hnot (some (-1)) hflat (by decide))]
  · refine conflictEnds hc hlong (fun hnone => ?_) fun c hsome => ?_
    · rw [hclear (.inr hnone), if_neg (hnot (some 1) hshort (by decide)),
        if_neg (hnot (some (-1)) hlong (by decide))]
    · subst hsome
      simp only [combineAnd, any_sign]
      exact if_pos (by simp [hflat, hlong, hshort])

/-- `_combine_or`, on a row. -/
theorem combineOr_orOf {signs : List Position} {conviction : Option (List F)}
    (hc : Convictions signs conviction) :
    OrOf signs conviction (combineOr signs conviction) := by
  simp only [combineOr, any_sign]
  refine ⟨fun σ hσ htaken hnot => ?_, fun hlong hshort => ?_, fun hlong hshort => ?_⟩
  · cases σ with
    | zero => exact absurd rfl hσ
    | pos =>
      have hlong : some 1 ∈ signs := htaken
      have hshort : some (-1) ∉ signs := hnot
      simp [hlong, hshort]
    | neg =>
      have hlong : some 1 ∉ signs := hnot
      have hshort : some (-1) ∈ signs := htaken
      simp [hlong, hshort]
  · simp [hlong, hshort]
  · simp only [hlong, hshort, decide_true, Bool.and_self, if_true]
    exact conflictEnds hc hlong (fun hnone => by rw [hnone]) fun c hsome => by rw [hsome]

/-- `_combine_filter`, on a row of known signs. The convictions are those of the factors
behind the gate. -/
theorem combineFilter_filterOf {signs : List Position} {conviction : Option (List F)}
    (htwo : 2 ≤ signs.length) (hc : Convictions (signs.drop 1) conviction) :
    FilterOf signs conviction (combineFilter signs false conviction) := by
  match signs, htwo with
  | gate :: direction :: rest, _ =>
    have hrow : combineFilter (gate :: direction :: rest) false conviction =
        if gate = some 0 then some 0
        else if rest = [] then direction
        else combineAnd (direction :: rest) false conviction := by
      show (if decide (gate ≠ some 0) = true then
        (if rest.length + 1 + 1 = 2 then direction
          else combineAnd (direction :: rest) false conviction) else some 0) = _
      by_cases hgate : gate = some 0
      · simp [hgate]
      · simp [hgate, List.length_eq_zero_iff]
    rw [hrow]
    refine ⟨fun h => if_pos (Option.some.inj h), fun g d hsigns hopen => ?_,
      fun g r hsigns hlong hopen => ?_⟩
    · cases hsigns
      rw [if_neg hopen, if_pos rfl]
    · cases hsigns
      have hrest : rest ≠ [] := fun h => by
        rw [h] at hlong
        exact Nat.not_succ_le_self 1 hlong
      rw [if_neg hopen, if_neg hrest]
      exact combineAnd_andOf (List.cons_ne_nil _ _) hc

/-- One row of `combine_positions`. The convictions are those that a conflict is
resolved with. -/
theorem combineRow_rowOf (conj : Conjunction) {signs : List Position}
    {conviction : Option (List F)} (htwo : 2 ≤ signs.length)
    (hc : Convictions (directions conj signs) conviction) :
    RowOf conj signs conviction (combineRow conj signs conviction) := by
  have hne : signs ≠ [] := List.ne_nil_of_length_pos (Nat.lt_of_lt_of_le Nat.two_pos htwo)
  by_cases hunknown : none ∈ signs
  · have hrow : combineRow conj signs conviction = none := by
      simp only [combineRow, any_sign, hunknown, decide_true, if_true]
    exact ⟨iff_of_true hrow hunknown, fun h => absurd hunknown h⟩
  · have hrow : CombinationOf conj signs conviction (combineRow conj signs conviction) := by
      simp only [combineRow, any_sign, hunknown, decide_false, Bool.false_eq_true, if_false]
      cases conj with
      | and => exact combineAnd_andOf hne hc
      | or => exact combineOr_orOf hc
      | filter => exact combineFilter_filterOf htwo hc
    exact ⟨iff_of_false (hrow.known htwo hunknown) hunknown, fun _ => hrow⟩

/-! ## Every row -/

omit [IeeeFloat F] in
/-- As many strengths decide as there are factors that do. -/
theorem length_directions {α β : Type} (conj : Conjunction) {xs : List α} {ys : List β}
    (h : xs.length = ys.length) : (directions conj xs).length = (directions conj ys).length := by
  cases conj with
  | filter => rw [directions, directions, List.length_drop, List.length_drop, h]
  | and => exact h
  | or => exact h

/-- A row of convictions has one for each factor that takes part in a conflict. -/
theorem convictions_row (conj : Conjunction) {positions : List (List Position)}
    {ss : List (List F)} {n i : ℕ} (hpositions : ∀ p ∈ positions, p.length = n)
    (hlen : ss.length = positions.length) (hss : ∀ s ∈ ss, s.length = n) (hi : i < n) :
    Convictions (directions conj (rowSigns positions i))
      (some (rowSigns ((directions conj ss).map conviction) i)) := by
  rintro c ⟨⟩
  refine ⟨?_, fun x hx => ?_⟩
  · have hcol : ∀ c ∈ (directions conj ss).map conviction, c.length = n := fun c hc => by
      obtain ⟨s, hs, rfl⟩ := List.mem_map.mp hc
      rw [length_conviction]
      exact hss s (mem_of_mem_directions conj hs)
    rw [rowSigns_length hcol hi, List.length_map]
    exact length_directions conj (hlen.trans (rowSigns_length hpositions hi).symm)
  · obtain ⟨c, hc, hxc⟩ := List.mem_filterMap.mp hx
    obtain ⟨s, -, rfl⟩ := List.mem_map.mp hc
    exact conviction_mem s x (List.mem_of_getElem? hxc)

/-- Without strengths, a row is made of the signs there. -/
theorem combinePositions_none {positions : List (List Position)} {n : ℕ} (conjunction : String)
    (htwo : 2 ≤ positions.length) (hpositions : ∀ p ∈ positions, p.length = n) :
    combinePositions (F := F) positions conjunction none = do
      let conj ← Conjunction.ofString conjunction
      return (List.range n).map fun i => combineRow (F := F) conj (rowSigns positions i) none := by
  match positions, htwo with
  | p :: p' :: ps, _ =>
    show (Conjunction.ofString conjunction >>= fun conj => columnStack _ >>= fun stacked => _) = _
    rw [columnStack_eq (List.cons_ne_nil _ _) hpositions]
    cases Conjunction.ofString conjunction with
    | error e => rfl
    | ok conj =>
      have hnone : weighed conj (p :: p' :: ps).length (none : Option (List (List F))) = none := by
        rw [weighed, Option.map_none, ite_self]
      simp only [bind, Except.bind, hnone]
      exact congrArg Except.ok List.map_map

/-- **Combined positions are what they are to be, row by row.** For any number of
factors from two on, with strengths for all of them or for none. -/
theorem combinePositions_meets_spec {positions : List (List Position)} {conjunction : String}
    {conj : Conjunction} {strengths : Option (List (List F))} {n : ℕ}
    (htwo : 2 ≤ positions.length) (hconj : Conjunction.ofString conjunction = .ok conj)
    (hpositions : ∀ p ∈ positions, p.length = n)
    (hstrengths : ∀ ss, strengths = some ss →
      ss.length = positions.length ∧ ∀ s ∈ ss, s.length = n) :
    ∃ combined, combinePositions positions conjunction strengths = .ok combined ∧
      combined.length = n ∧ ∀ i s, combined[i]? = some s →
        RowOf conj (rowSigns positions i)
          (strengths.map fun ss => rowSigns ((directions conj ss).map conviction) i) s := by
  have hrun : combinePositions positions conjunction strengths = .ok ((List.range n).map fun i =>
      combineRow conj (rowSigns positions i)
        (strengths.map fun ss => rowSigns ((directions conj ss).map conviction) i)) := by
    cases strengths with
    | none => rw [combinePositions_none conjunction htwo hpositions, hconj]; rfl
    | some ss =>
      obtain ⟨hlen, hss⟩ := hstrengths ss rfl
      rw [combinePositions_eq conjunction hpositions hss htwo hlen, hconj]
      rfl
  refine ⟨_, hrun, by rw [List.length_map, List.length_range], fun i s hs => ?_⟩
  rw [getElem?_range_map] at hs
  split at hs
  · next hi =>
    cases hs
    refine combineRow_rowOf conj (by rwa [rowSigns_length hpositions hi]) ?_
    cases strengths with
    | none => exact fun c hc => nomatch hc
    | some ss =>
      obtain ⟨hlen, hss⟩ := hstrengths ss rfl
      exact convictions_row conj hpositions hlen hss hi
  · cases hs

namespace Combine

/-- A gate and two factors behind it, on three bars. The gate is closed on the second
and missing on the third. -/
def positions : List (List Position) :=
  [[some 1, some 0, none], [some 1, some 1, some 1], [some (-1), some 1, some 1]]

/-- Their readings. -/
def readings : List (List ExtRat) :=
  [[.fin 1, .fin 2, .nan], [.fin 4, .fin 3, .fin 5], [.fin 7, .fin 6, .fin 8]]

end Combine

/-- The three bars are combined as they are to be. -/
theorem combinePositions_three_bars :
    ∃ combined, combinePositions Combine.positions "filter" (some Combine.readings)
        = .ok combined ∧
      combined.length = 3 ∧ ∀ i s, combined[i]? = some s →
        RowOf .filter (rowSigns Combine.positions i)
          ((some Combine.readings).map fun ss =>
            rowSigns ((directions .filter ss).map conviction) i) s :=
  combinePositions_meets_spec (by decide) (by decide +kernel) (by decide) fun ss h => by
    cases h
    decide
