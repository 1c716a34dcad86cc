import Mathlib.Data.List.Basic
import Mathlib.Data.List.Infix

/-!
# Regular expressions with groups

What a backtracking matcher makes of a pattern: the ways to match it from a place in a
text, the preferred one first. A repetition of characters takes as many as it can, and
fewer after that. What follows it is tried from each of these places in turn. The match
is the first way that there is, and the groups are the parts of the text that it took.

`First` is for a pattern whose preferred way goes through: then nothing has to be taken
back, and the match of a sequence is the one of its parts, one after the other. `Needs` is
for a pattern that cannot match, as the text lacks what each way needs.

The matcher is a function and may be run, so that a pattern of a program can be tried on a
text. A pattern is verified by following its preferred way, and by `Needs` for the texts
that it refuses; neither asks how many other ways there are.
-/

/-- A pattern over an alphabet, with named groups. -/
inductive Regex (α G : Type) where
  /-- So many characters of a class, at least and at most. -/
  | chars (p : α → Bool) (least : ℕ) (most : Option ℕ)
  /-- The characters themselves. -/
  | word (w : List α)
  /-- Nothing is before the place. -/
  | start
  /-- What is behind the place. -/
  | finish (ends : List α → Bool)
  | seq (r s : Regex α G)
  | optional (r : Regex α G)
  | group (g : G) (r : Regex α G)

namespace Regex

variable {α G : Type}

/-- One after the other. -/
def all (rs : List (Regex α G)) : Regex α G := rs.foldr .seq (.word [])

/-- `p*`, `p+` and `p?`. -/
def many (p : α → Bool) : Regex α G := .chars p 0 none

@[inherit_doc many]
def plus (p : α → Bool) : Regex α G := .chars p 1 none

@[inherit_doc many]
def maybe (p : α → Bool) : Regex α G := .chars p 0 (some 1)

/-- `p{k}`. -/
def exactly (p : α → Bool) (k : ℕ) : Regex α G := .chars p k (some k)

/-- A place in a text: how much is before it, what is behind it, and the groups so far,
the last one first. -/
structure Place (α G : Type) where
  /-- How many characters have been passed. -/
  position : ℕ
  /-- What has still to be matched. -/
  rest : List α
  /-- What the groups have taken, the last one first. -/
  groups : List (G × List α)
deriving DecidableEq

namespace Place

/-- So many characters further on. -/
def advance (s : Place α G) (n : ℕ) : Place α G :=
  { s with position := s.position + n, rest := s.rest.drop n }

/-- The text of a group, where it took part. -/
def group [BEq G] (s : Place α G) (g : G) : Option (List α) := s.groups.lookup g

end Place

/-- How many characters a repetition takes first. -/
def greed (p : α → Bool) (most : Option ℕ) (rest : List α) : ℕ :=
  match most with
  | none => (rest.takeWhile p).length
  | some m => min m (rest.takeWhile p).length

variable [DecidableEq α]

/-- The places that a match of a pattern leads to, the preferred one first. -/
def run : Regex α G → Place α G → List (Place α G)
  | chars p least most, s =>
    (List.range (greed p most s.rest + 1 - least)).map fun i =>
      s.advance (greed p most s.rest - i)
  | word w, s => if w.isPrefixOf s.rest then [s.advance w.length] else []
  | start, s => if s.position = 0 then [s] else []
  | finish ends, s => if ends s.rest then [s] else []
  | seq r q, s => (r.run s).flatMap q.run
  | optional r, s => r.run s ++ [s]
  | group g r, s => (r.run s).map fun t =>
    { t with groups := (g, s.rest.take (s.rest.length - t.rest.length)) :: t.groups }

/-- The match from the start of a text. -/
def matchStart (r : Regex α G) (text : List α) : Option (Place α G) := (r.run ⟨0, text, []⟩).head?

/-- The first match from a place of a text on. -/
def search (r : Regex α G) : ℕ → List α → Option (Place α G)
  | n, [] => (r.run ⟨n, [], []⟩).head?
  | n, a :: text => ((r.run ⟨n, a :: text, []⟩).head?).or (search r (n + 1) text)

variable {r q : Regex α G} {s t u : Place α G} {p : α → Bool} {least n m : ℕ} {most : Option ℕ}
variable {xs rest : List α} {gs gs' : List (G × List α)} {g : G}

/-! ## The preferred way -/

/-- The preferred way to match a pattern. -/
def First (r : Regex α G) (s t : Place α G) : Prop := (r.run s).head? = some t

namespace First

/-- One pattern after the other goes through where each of them does. -/
theorem seq (h : First r s t) (h' : First q t u) : First (.seq r q) s u := by
  show ((r.run s).flatMap q.run).head? = some u
  obtain ⟨ts, hts⟩ := List.head?_eq_some_iff.mp h
  obtain ⟨us, hus⟩ := List.head?_eq_some_iff.mp h'
  rw [hts, List.flatMap_cons, hus]
  rfl

/-- A sequence of no patterns goes through at once. -/
theorem nil : First (all []) s s := rfl

/-- And a longer one where its first pattern does and then the rest. -/
theorem cons {rs : List (Regex α G)} (h : First r s t) (h' : First (all rs) t u) :
    First (all (r :: rs)) s u := h.seq h'

/-- An optional part that can be matched is matched: leaving it out is the second choice. -/
theorem optional (h : First r s t) : First (.optional r) s t := by
  show (r.run s ++ [s]).head? = some t
  rw [List.head?_append, show (r.run s).head? = some t from h]
  rfl

theorem skip (h : r.run s = []) : First (.optional r) s s := by
  show (r.run s ++ [s]).head? = some s
  rw [h]
  rfl

/-- A group goes through with its pattern, and keeps the text that was taken. -/
theorem group (h : First r ⟨n, xs ++ rest, gs⟩ ⟨m, rest, gs'⟩) :
    First (.group g r) ⟨n, xs ++ rest, gs⟩ ⟨m, rest, (g, xs) :: gs'⟩ := by
  show (List.map _ (r.run _)).head? = _
  rw [List.head?_map, show (r.run _).head? = _ from h, Option.map_some, List.length_append,
    Nat.add_sub_cancel, List.take_left]

/-- A word goes through where it stands. -/
theorem word {w : List α} : First (.word w) ⟨n, w ++ rest, gs⟩ ⟨n + w.length, rest, gs⟩ := by
  have hbegin : w.isPrefixOf (w ++ rest) = true := List.isPrefixOf_iff_prefix.mpr ⟨rest, rfl⟩
  show (if w.isPrefixOf (w ++ rest) then [Place.advance _ w.length] else []).head? = _
  rw [if_pos hbegin, List.head?_cons, Place.advance, List.drop_left]

/-- A repetition that takes so many characters first. -/
theorem chars_of_greed (hleast : least ≤ xs.length)
    (hgreed : greed p most (xs ++ rest) = xs.length) :
    First (.chars p least most) ⟨n, xs ++ rest, gs⟩ ⟨n + xs.length, rest, gs⟩ := by
  show (List.map _ (List.range (greed p most (xs ++ rest) + 1 - least))).head? = _
  obtain ⟨k, hk⟩ : ∃ k, xs.length + 1 - least = k + 1 := ⟨xs.length - least, by omega⟩
  rw [hgreed, hk, List.range_succ_eq_map, List.map_cons, List.head?_cons, Nat.sub_zero,
    Place.advance, List.drop_left]

omit [DecidableEq α] in
/-- As many characters as fit, up to the first that does not. -/
theorem takeWhile_stop (hall : ∀ x ∈ xs, p x = true) (hstop : ∀ x ∈ rest.head?, p x = false) :
    (xs ++ rest).takeWhile p = xs := by
  rw [List.takeWhile_append_of_pos hall]
  cases rest with
  | nil => exact List.append_nil xs
  | cons x rest =>
    rw [List.takeWhile_cons_of_neg (by rw [hstop x rfl]; exact Bool.false_ne_true), List.append_nil]

/-- A repetition takes all characters of its class. -/
theorem chars (hall : ∀ x ∈ xs, p x = true) (hstop : ∀ x ∈ rest.head?, p x = false)
    (hleast : least ≤ xs.length) (hmost : ∀ k ∈ most, xs.length ≤ k) :
    First (.chars p least most) ⟨n, xs ++ rest, gs⟩ ⟨n + xs.length, rest, gs⟩ := by
  refine chars_of_greed hleast ?_
  cases most with
  | none => rw [greed, takeWhile_stop hall hstop]
  | some k =>
    rw [greed, takeWhile_stop hall hstop]
    exact min_eq_right (hmost k rfl)

/-- A repetition takes as many characters as it may. -/
theorem chars_most {k : ℕ} (hall : ∀ x ∈ xs, p x = true) (hleast : least ≤ k)
    (hmost : xs.length = k) :
    First (.chars p least (some k)) ⟨n, xs ++ rest, gs⟩ ⟨n + xs.length, rest, gs⟩ := by
  refine chars_of_greed (hmost ▸ hleast) ?_
  rw [greed, List.takeWhile_append_of_pos hall, List.length_append, hmost]
  exact min_eq_left (Nat.le_add_right _ _)

/-- A repetition takes nothing where nothing is of its class. -/
theorem chars_nothing (hstop : ∀ x ∈ rest.head?, p x = false) :
    First (.chars p 0 most) ⟨n, rest, gs⟩ ⟨n, rest, gs⟩ := by
  have h : First (.chars p 0 most) ⟨n, [] ++ rest, gs⟩ ⟨n + ([] : List α).length, rest, gs⟩ :=
    First.chars (fun _ hx => absurd hx List.not_mem_nil) hstop le_rfl fun _ _ => Nat.zero_le _
  exact h

/-- A character that may be there is taken where it is. -/
theorem maybe {a : α} (P : Prop) [Decidable P] (hstop : a ∉ rest.head?) :
    First (.maybe (· = a)) ⟨n, (if P then [a] else []) ++ rest, gs⟩
      ⟨n + (if P then [a] else []).length, rest, gs⟩ := by
  refine First.chars ?_ (fun x hx => decide_eq_false ?_) (Nat.zero_le _) ?_
  · split
    · exact List.forall_mem_singleton.mpr (decide_eq_true rfl)
    · exact fun x hx => absurd hx List.not_mem_nil
  · rintro rfl
    exact hstop hx
  · split
    · exact fun k hk => (Option.mem_some_iff.mp hk).le
    · exact fun _ _ => Nat.zero_le _

end First

/-- At the start of a text the preferred way is the match. -/
theorem matchStart_eq (h : First r ⟨0, xs, []⟩ t) : r.matchStart xs = some t := h

/-- And a search finds it there, as it looks at the start first. -/
theorem search_eq (h : First r ⟨n, xs, []⟩ t) : r.search n xs = some t := by
  cases xs with
  | nil => exact h
  | cons x xs =>
    rw [search, show (r.run ⟨n, x :: xs, []⟩).head? = some t from h]
    rfl

/-! ## What cannot match -/

/-- A pattern takes a part of the text, and leaves what is behind it. -/
theorem rest_suffix (h : t ∈ r.run s) : t.rest <:+ s.rest := by
  induction r generalizing s t with
  | chars p least most =>
    obtain ⟨i, -, rfl⟩ := List.mem_map.mp h
    exact List.drop_suffix _ _
  | word w =>
    rw [run] at h
    split at h
    · obtain rfl := List.mem_singleton.mp h
      exact List.drop_suffix _ _
    · exact absurd h List.not_mem_nil
  | start =>
    rw [run] at h
    split at h
    · obtain rfl := List.mem_singleton.mp h
      exact List.suffix_rfl
    · exact absurd h List.not_mem_nil
  | finish ends =>
    rw [run] at h
    split at h
    · obtain rfl := List.mem_singleton.mp h
      exact List.suffix_rfl
    · exact absurd h List.not_mem_nil
  | seq r q ihr ihq =>
    obtain ⟨u, hu, ht⟩ := List.mem_flatMap.mp h
    exact (ihq ht).trans (ihr hu)
  | optional r ih =>
    obtain h | h := List.mem_append.mp h
    · exact ih h
    · obtain rfl := List.mem_singleton.mp h
      exact List.suffix_rfl
  | group g r ih =>
    obtain ⟨u, hu, rfl⟩ := List.mem_map.mp h
    exact (ih hu : u.rest <:+ s.rest)

/-- Each way to match a pattern takes a character of a class. -/
def Needs (p : α → Bool) : Regex α G → Prop
  | chars q least _ => 0 < least ∧ ∀ x, q x = true → p x = true
  | word w => ∃ x ∈ w, p x = true
  | start => False
  | finish _ => False
  | seq r q => r.Needs p ∨ q.Needs p
  | optional _ => False
  | group _ r => r.Needs p

/-- **A pattern does not match** where the text has none of the characters that it needs. One
character that every match has to consume is enough to refuse a text without it. -/
theorem run_eq_nil_of_needs (h : r.Needs p) (hs : ∀ x ∈ s.rest, p x = false) : r.run s = [] := by
  induction r generalizing s with
  | chars q least most =>
    have hnone : s.rest.takeWhile q = [] := by
      cases hrest : s.rest with
      | nil => rfl
      | cons x rest =>
        refine List.takeWhile_cons_of_neg fun hx => ?_
        have := hs x (by rw [hrest]; exact List.mem_cons_self)
        rw [h.2 x hx] at this
        cases this
    have hgreed : greed q most s.rest = 0 := by
      unfold greed
      rw [hnone]
      cases most with
      | none => rfl
      | some m => exact Nat.min_zero m
    rw [run, hgreed, Nat.sub_eq_zero_of_le h.1]
    rfl
  | word w =>
    obtain ⟨x, hx, hp⟩ := h
    refine if_neg fun hbegin => ?_
    have := hs x ((List.isPrefixOf_iff_prefix.mp hbegin).subset hx)
    rw [hp] at this
    cases this
  | start => exact h.elim
  | finish ends => exact h.elim
  | seq r q ihr ihq =>
    rw [run]
    obtain h | h := h
    · rw [ihr h hs]
      rfl
    · exact List.flatMap_eq_nil_iff.mpr fun t ht =>
        ihq h fun x hx => hs x ((rest_suffix ht).subset hx)
  | optional r => exact h.elim
  | group g r ih =>
    rw [run, ih h hs]
    rfl

/-- A text without what a pattern needs is searched in vain. -/
theorem search_eq_none (h : r.Needs p) (hs : ∀ x ∈ xs, p x = false) : r.search n xs = none := by
  induction xs generalizing n with
  | nil =>
    rw [search, run_eq_nil_of_needs h hs]
    rfl
  | cons x xs ih =>
    rw [search, run_eq_nil_of_needs h hs, ih (List.forall_mem_cons.mp hs).2]
    rfl

/-- A part of a text in which no match begins is passed over. -/
theorem search_append
    (h : ∀ ys, ys ≠ [] → ys <:+ xs → ∀ n, r.run ⟨n, ys ++ rest, []⟩ = []) :
    r.search n (xs ++ rest) = r.search (n + xs.length) rest := by
  induction xs generalizing n with
  | nil => rfl
  | cons x xs ih =>
    have hx : r.run ⟨n, x :: (xs ++ rest), []⟩ = [] := h _ (List.cons_ne_nil x xs) List.suffix_rfl n
    rw [List.cons_append, search, hx, List.length_cons, Nat.add_comm xs.length, ← Nat.add_assoc]
    exact ih fun ys hne hys => h ys hne (hys.trans (List.suffix_cons x xs))

/-- A repetition that is to be followed by a character goes through characters of its class
up to there. -/
theorem run_chars_word_eq_nil {a : α} {w : List α} (hstop : ∃ x ∈ xs, p x = false) (ha : a ∉ xs) :
    (seq (group g (chars p least most)) (seq (word (a :: w)) q)).run ⟨n, xs ++ rest, gs⟩ = [] := by
  refine List.flatMap_eq_nil_iff.mpr fun t ht => ?_
  obtain ⟨u, hu, rfl⟩ := List.mem_map.mp ht
  obtain ⟨i, -, rfl⟩ := List.mem_map.mp hu
  -- the repetition ends before the first character that is not of its class
  obtain ⟨x, hx, hp⟩ := hstop
  have hshort : ((xs ++ rest).takeWhile p).length < xs.length := by
    by_contra hlong
    have hbegin : xs <+: (xs ++ rest).takeWhile p :=
      List.prefix_of_prefix_length_le (List.prefix_append xs rest) (List.takeWhile_prefix p)
        (not_lt.mp hlong)
    have := List.all_eq_true.mp List.all_takeWhile x (hbegin.subset hx)
    rw [hp] at this
    cases this
  have hgreed : greed p most (xs ++ rest) - i < xs.length := by
    refine lt_of_le_of_lt ((Nat.sub_le _ _).trans ?_) hshort
    cases most with
    | none => exact le_rfl
    | some m => exact Nat.min_le_right _ _
  refine List.flatMap_eq_nil_iff.mpr fun v hv => absurd hv ?_
  have hnot : ¬ (a :: w).isPrefixOf ((xs ++ rest).drop (greed p most (xs ++ rest) - i)) = true := by
    intro h
    rw [List.drop_append_of_le_length hgreed.le, List.drop_eq_getElem_cons hgreed] at h
    obtain ⟨rfl, -⟩ := List.cons_prefix_cons.mp (List.isPrefixOf_iff_prefix.mp h)
    exact ha (List.getElem_mem hgreed)
  rw [run]
  show v ∉ if (a :: w).isPrefixOf ((xs ++ rest).drop (greed p most (xs ++ rest) - i)) then _ else []
  rw [if_neg hnot]
  exact List.not_mem_nil

end Regex
