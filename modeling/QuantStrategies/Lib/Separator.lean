import Mathlib.Data.List.Infix

/-!
# Texts with separators

A text is put together from parts with separators between them. A separator that is one
character is found again when the part before it does not have that character. A separator
that is a word between two blanks is found again when the part before it does not have it,
also not where a blank follows the part: a part that ends in the word and misses only the
last blank would borrow it.

Nothing is quoted, so there is nothing to escape, and what is asked of a part depends on
what stands behind it. The lemmas are about lists of anything, and a part is read off from
the front or from the back, whichever side the separator is found from.
-/

namespace Separator

variable {α : Type} {a b : α} {w w' x x' y y' : List α}

/-- A part before a separating character is read off. -/
theorem first_inj (hx : a ∉ x) (hx' : a ∉ x') (h : x ++ a :: y = x' ++ a :: y') :
    x = x' ∧ y = y' := by
  rcases List.append_eq_append_iff.mp h with ⟨between, hbetween, hrest⟩ | ⟨between, hbetween, hrest⟩
  all_goals cases between with
  | nil => simp_all
  | cons c between =>
    obtain ⟨rfl, -⟩ := List.cons.inj hrest
    simp_all

/-- A part after a separating character is read off. -/
theorem last_inj (hy : a ∉ y) (hy' : a ∉ y') (h : x ++ a :: y = x' ++ a :: y') :
    x = x' ∧ y = y' := by
  have hreverse : y.reverse ++ a :: x.reverse = y'.reverse ++ a :: x'.reverse := by
    simpa using congrArg List.reverse h
  obtain ⟨hafter, hbefore⟩ := first_inj (mt List.mem_reverse.mp hy) (mt List.mem_reverse.mp hy')
    hreverse
  exact ⟨List.reverse_injective hbefore, List.reverse_injective hafter⟩

/-- A word between two blanks. -/
def spaced (b : α) (w : List α) : List α := b :: (w ++ [b])

/-- A part does not have the word between two blanks, also not where a blank follows. -/
def Free (b : α) (w x : List α) : Prop := ¬spaced b w <:+: x ++ [b]

instance [DecidableEq α] : Decidable (Free b w x) := inferInstanceAs (Decidable (¬_))

/-- The end of a part that does not have the word does not have it either. -/
theorem Free.of_append_left (h : Free b w (x ++ y)) : Free b w y := fun hy =>
  h (hy.trans ⟨x, [], by rw [List.append_nil, List.append_assoc]⟩)

/-- No part is free of a word that it is followed by, if it goes on beyond another part
that is followed by a word. -/
theorem eq_nil_of_free {z : List α} (hw : b ∉ w) (h : spaced b w ++ y = z ++ (spaced b w' ++ y'))
    (hz : Free b w (x ++ z)) : z = [] := by
  cases z with
  | nil => rfl
  | cons c z =>
    obtain ⟨rfl, htail⟩ : b = c ∧ w ++ b :: y = z ++ b :: (w' ++ b :: y') := by
      simpa [spaced] using h
    -- the blank after the word is the first one
    have hprefix : w ++ [b] <+: z ++ [b] := by
      rcases List.append_eq_append_iff.mp htail with ⟨between, rfl, hrest⟩ | ⟨between, rfl, hrest⟩
      · cases between with
        | nil => rw [List.append_nil]
        | cons d between =>
          obtain ⟨rfl, -⟩ := List.cons.inj hrest
          exact ⟨between ++ [b], by simp⟩
      · cases between with
        | nil => rw [List.append_nil]
        | cons d between =>
          obtain ⟨rfl, -⟩ := List.cons.inj hrest
          exact absurd (List.mem_append_right _ List.mem_cons_self) hw
    obtain ⟨rest, hrest⟩ := hprefix
    refine absurd ⟨x, rest, ?_⟩ hz
    rw [spaced, List.append_assoc, List.append_assoc, List.cons_append, List.cons_append, hrest]

/-- **A part before a word between two blanks is read off**, and so are the word and the
rest. -/
theorem spaced_inj (hw : b ∉ w) (hw' : b ∉ w') (hx : Free b w' x) (hx' : Free b w x')
    (h : x ++ (spaced b w ++ y) = x' ++ (spaced b w' ++ y')) : x = x' ∧ w = w' ∧ y = y' := by
  have heq : x = x' := by
    rcases List.append_eq_append_iff.mp h with ⟨between, rfl, hrest⟩ | ⟨between, rfl, hrest⟩
    · rw [eq_nil_of_free hw hrest hx', List.append_nil]
    · rw [eq_nil_of_free hw' hrest hx, List.append_nil]
  subst heq
  have hrest : w ++ b :: y = w' ++ b :: y' := by simpa [spaced] using h
  exact ⟨rfl, first_inj hw hw' hrest⟩

/-- What does not have a character is on one side of it. -/
theorem infix_of_notMem {s : List α} (ha : a ∉ s) (h : s <:+: x ++ a :: y) :
    s <:+: x ∨ s <:+: y := by
  obtain ⟨p, q, h⟩ := h
  rw [List.append_assoc] at h
  rcases List.append_eq_append_iff.mp h with ⟨between, rfl, hrest⟩ | ⟨between, rfl, hrest⟩
  · rcases List.append_eq_append_iff.mp hrest with ⟨more, rfl, hq⟩ | ⟨more, hs, hq⟩
    · exact Or.inl ⟨p, more, by rw [List.append_assoc]⟩
    · cases more with
      | nil =>
        rw [List.append_nil] at hs
        exact Or.inl ⟨p, [], by rw [hs, List.append_nil]⟩
      | cons c more =>
        obtain ⟨rfl, -⟩ := List.cons.inj hq
        exact absurd (hs ▸ List.mem_append_right _ List.mem_cons_self) ha
  · cases between with
    | nil =>
      cases s with
      | nil => exact Or.inr List.nil_infix
      | cons c s =>
        obtain ⟨rfl, -⟩ := List.cons.inj hrest
        exact absurd List.mem_cons_self ha
    | cons c between =>
      obtain ⟨rfl, hy⟩ := List.cons.inj hrest
      exact Or.inr ⟨between, q, by rw [hy, List.append_assoc]; rfl⟩

/-! ## The part before the first separator -/

variable [DecidableEq α]

/-- `s.split(sep, 1)[0]`. -/
def before (sep : List α) : List α → List α
  | [] => []
  | c :: cs => if sep <+: c :: cs then [] else c :: before sep cs

/-- **The part before the first word between two blanks.** The word must not come between two
blanks any earlier, which is what `Free` says of the part before. -/
theorem before_spaced (hw : b ∉ w) (hx : Free b w x) (y : List α) :
    before (spaced b w) (x ++ (spaced b w ++ y)) = x := by
  induction x with
  | nil =>
    show before _ (b :: (w ++ [b] ++ y)) = []
    rw [before]
    exact if_pos ⟨y, by simp [spaced]⟩
  | cons c x ih =>
    have hnot : ¬spaced b w <+: c :: (x ++ (spaced b w ++ y)) := by
      rintro ⟨rest, hrest⟩
      have hnil : Free b w ([] : List α) := by
        rintro hinfix
        have := hinfix.length_le
        simp [spaced] at this
      cases (spaced_inj hw hw hx hnil hrest.symm).1
    rw [List.cons_append, before, if_neg hnot, ih (Free.of_append_left (x := [c]) hx)]

end Separator
