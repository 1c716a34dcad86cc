import Mathlib.Data.List.Basic
import Mathlib.Order.Lattice
import Mathlib.Order.MinMax

/-!
# Append-only version logs

An entity is stored as its versions: nothing is changed in place, a write
appends a version whose number is one above the highest there is, and the
highest number is the current version. A writer reads a version, decides, and
appends; what it decided on may by then be old, and nothing in the append says
so.

This module is about what such logs keep. A log is *absorbing* for a kind of
version when nothing was ever appended after one of that kind. The rule for an
append is that it keeps an absorbing log absorbing exactly when the entity has
no version of that kind yet, and a writer that read a version of another kind
can only break it when one of that kind was appended since (`Absorbing.fresh`).

The rule says what a writer has to check and when: it is enough to look at the newest
version just before the append, and not enough to have looked at it when the request came
in. Which of the two a program does is read off its steps.
-/

namespace Versioned

variable {V K : Type} [DecidableEq K] (key : V → K) (vid : V → ℕ) (Terminal : V → Prop)

/-- The number of the next version of an entity: one above the highest. -/
def nextVid (log : List V) (k : K) : ℕ :=
  ((log.filter (fun v => key v = k)).map vid).foldr max 0 + 1

/-- The log, newest version first, numbers the versions of each entity in the
order they were written. -/
def Numbered (log : List V) : Prop := log.Pairwise (fun v w => key v = key w → vid w < vid v)

/-- No version of an entity is newer than a terminal one. -/
def Absorbing (log : List V) : Prop :=
  ∀ v ∈ log, Terminal v → ∀ w ∈ log, key w = key v → vid w ≤ vid v

variable {key vid Terminal} {log : List V} {k : K} {v w x r : V}

/-- Of rows that have one key each, those of a row's key are that row. -/
theorem filter_eq_singleton {f : V → K} (h : (log.map f).Nodup) (hr : r ∈ log) :
    log.filter (fun v => f v = f r) = [r] := by
  induction log with
  | nil => cases hr
  | cons x log ih =>
    obtain ⟨hx, hrest⟩ := List.nodup_cons.mp h
    obtain rfl | hr := List.mem_cons.mp hr
    · rw [List.filter_cons, if_pos (decide_eq_true rfl)]
      refine congrArg _ (List.filter_eq_nil_iff.mpr fun v hv hk => ?_)
      exact hx (of_decide_eq_true hk ▸ List.mem_map_of_mem hv)
    · have hne : f x ≠ f r := fun hk => hx (hk ▸ List.mem_map_of_mem hr)
      rw [List.filter_cons, if_neg (fun hk => hne (of_decide_eq_true hk))]
      exact ih hrest hr

/-- The highest number is not exceeded. -/
theorem le_foldr_max (ns : List ℕ) {n : ℕ} (h : n ∈ ns) : n ≤ ns.foldr max 0 := by
  induction ns with
  | nil => exact absurd h List.not_mem_nil
  | cons m ns ih =>
    rcases List.mem_cons.mp h with rfl | h
    · exact le_max_left _ _
    · exact (ih h).trans (le_max_right _ _)

/-- The next number is above every version there is. -/
theorem lt_nextVid (hv : v ∈ log) (hk : key v = k) : vid v < nextVid key vid log k :=
  Nat.lt_succ_of_le (le_foldr_max _ (List.mem_map_of_mem
    (List.mem_filter.mpr ⟨hv, decide_eq_true hk⟩)))

/-- A number above every version there is is not below the next one. -/
theorem nextVid_le {n : ℕ} (hn : 0 < n) (h : ∀ v ∈ log, key v = k → vid v < n) :
    nextVid key vid log k ≤ n := by
  have hall : ∀ m ∈ (log.filter (fun v => key v = k)).map vid, m < n := by
    intro m hm
    obtain ⟨v, hv, rfl⟩ := List.mem_map.mp hm
    obtain ⟨hmem, hk⟩ := List.mem_filter.mp hv
    exact h v hmem (of_decide_eq_true hk)
  unfold nextVid
  generalize (log.filter (fun v => key v = k)).map vid = ns at hall
  induction ns with
  | nil => exact hn
  | cons m ns ih =>
    have hrest := ih fun m hm => hall m (List.mem_cons_of_mem _ hm)
    exact Nat.succ_le_of_lt (max_lt (hall m List.mem_cons_self) hrest)

/-- An append does not lower the next number. -/
theorem nextVid_le_cons : nextVid key vid log k ≤ nextVid key vid (x :: log) k := by
  unfold nextVid
  rw [List.filter_cons]
  split
  · exact Nat.succ_le_succ (le_max_right _ _)
  · exact le_rfl

omit [DecidableEq K] in
/-- In an empty log no number comes twice. -/
theorem Numbered.nil : Numbered key vid ([] : List V) := List.Pairwise.nil

omit [DecidableEq K] in
theorem Absorbing.nil : Absorbing key vid Terminal ([] : List V) :=
  fun _ h => absurd h List.not_mem_nil

/-- An append keeps the numbers in order. -/
theorem Numbered.append (h : Numbered key vid log)
    (hx : vid x = nextVid key vid log (key x)) : Numbered key vid (x :: log) := by
  refine List.pairwise_cons.mpr ⟨fun v hv hk => ?_, h⟩
  rw [hx]
  exact lt_nextVid hv hk.symm

omit [DecidableEq K] in
/-- A version is known by its entity and its number. -/
theorem Numbered.eq (h : Numbered key vid log) (hv : v ∈ log) (hw : w ∈ log)
    (hk : key v = key w) (hvid : vid v = vid w) : v = w := by
  by_contra hne
  have hlt := List.Pairwise.forall_of_forall_of_flip
    (R := fun v w => v ≠ w → key v = key w → vid v ≠ vid w) (l := log)
    (fun v _ hne => absurd rfl hne) (h.imp fun h _ hk => ne_of_gt (h hk))
    (h.imp fun h _ hk => ne_of_lt (h hk.symm))
  exact hlt hv hw hne hk hvid

omit [DecidableEq K] in
/-- A relation between later and earlier versions of an entity holds wherever the
numbers say which is later. -/
theorem Numbered.of_lt (h : Numbered key vid log) {R : V → V → Prop} (hR : log.Pairwise R)
    (hv : v ∈ log) (hw : w ∈ log) (hk : key v = key w) (hlt : vid v < vid w) : R w v := by
  have hboth := h.and hR
  clear hR h
  induction log with
  | nil => exact absurd hv List.not_mem_nil
  | cons x log ih =>
    obtain ⟨hx, hlog⟩ := List.pairwise_cons.mp hboth
    rcases List.mem_cons.mp hw with hwx | hw'
    · rcases List.mem_cons.mp hv with hvx | hv'
      · exact absurd hlt (by rw [hvx, hwx]; exact lt_irrefl _)
      · exact hwx ▸ (hx v hv').2
    · rcases List.mem_cons.mp hv with hvx | hv'
      · exact absurd ((hx w hw').1 (hvx ▸ hk)) (not_lt.mpr (hvx ▸ hlt.le))
      · exact ih hv' hw' hlog

/-- The newest version has the highest number. -/
theorem Numbered.nextVid_cons (h : Numbered key vid (v :: log)) :
    nextVid key vid (v :: log) (key v) = vid v + 1 := by
  have hle : ((log.filter (fun w => key w = key v)).map vid).foldr max 0 ≤ vid v := by
    have hall : ∀ n ∈ (log.filter (fun w => key w = key v)).map vid, n ≤ vid v := by
      intro n hn
      obtain ⟨w, hw, rfl⟩ := List.mem_map.mp hn
      obtain ⟨hmem, hk⟩ := List.mem_filter.mp hw
      exact ((List.pairwise_cons.mp h).1 w hmem (of_decide_eq_true hk).symm).le
    clear h
    generalize (log.filter (fun w => key w = key v)).map vid = ns at hall
    induction ns with
    | nil => exact Nat.zero_le _
    | cons n ns ih =>
      exact max_le (hall n List.mem_cons_self) (ih fun m hm => hall m (List.mem_cons_of_mem _ hm))
  unfold nextVid
  rw [List.filter_cons, if_pos (decide_eq_true rfl), List.map_cons, List.foldr_cons,
    max_eq_left hle]

omit [DecidableEq K] in
/-- Versions none of which is outnumbered belong to different entities. -/
theorem Numbered.pairwise_newest (h : Numbered key vid log) {rows : List V}
    (hsub : rows.Sublist log)
    (hnew : ∀ r ∈ rows, ∀ v ∈ log, key v = key r → vid v ≤ vid r) :
    (rows.map key).Nodup := by
  rw [List.Nodup, List.pairwise_map]
  refine List.Pairwise.imp_of_mem (fun hr hw hlt hk => ?_) (List.Pairwise.sublist hsub h)
  exact absurd (hlt hk) (not_lt.mpr (hnew _ hw _ (hsub.mem hr) hk))

/-- **An append keeps a log absorbing exactly when its entity has no terminal version yet.** So
one condition at the time of the write is all that keeps an end from being followed by another
version. -/
theorem Absorbing.append_iff (h : Absorbing key vid Terminal log)
    (hx : vid x = nextVid key vid log (key x)) :
    Absorbing key vid Terminal (x :: log) ↔ ∀ v ∈ log, key v = key x → ¬ Terminal v := by
  have habove : ∀ v ∈ log, key v = key x → vid v < vid x := fun v hv hk => by
    rw [hx]
    exact lt_nextVid hv hk
  constructor
  · intro h' v hv hk ht
    have hle := h' v (List.mem_cons_of_mem _ hv) ht x List.mem_cons_self hk.symm
    exact absurd (habove v hv hk) (not_lt.mpr hle)
  · intro hno v hv ht w hw hk
    rcases List.mem_cons.mp hv with hvx | hv'
    · rcases List.mem_cons.mp hw with hwx | hw'
      · rw [hvx, hwx]
      · subst hvx
        exact le_of_lt (habove w hw' hk)
    · rcases List.mem_cons.mp hw with hwx | hw'
      · subst hwx
        exact absurd ht (hno v hv' hk.symm)
      · exact h v hv' ht w hw' hk

omit [DecidableEq K] in
/-- **A fresh writer does no harm.** When the version a writer read is not
terminal and no newer version is, its entity has no terminal version. -/
theorem Absorbing.fresh (h : Absorbing key vid Terminal log) (hn : Numbered key vid log)
    (hr : r ∈ log) (hrt : ¬ Terminal r)
    (hnew : ∀ v ∈ log, key v = key r → vid r < vid v → ¬ Terminal v) :
    ∀ v ∈ log, key v = key r → ¬ Terminal v := by
  intro v hv hk ht
  rcases lt_trichotomy (vid r) (vid v) with hlt | heq | hgt
  · exact hnew v hv hk hlt ht
  · exact hrt (hn.eq hr hv hk.symm heq ▸ ht)
  · exact absurd (h v hv ht r hr hk.symm) (not_le.mpr hgt)

omit [DecidableEq K] in
/-- An entity whose newest version is not terminal has no terminal version. -/
theorem Absorbing.newest (h : Absorbing key vid Terminal log) (hn : Numbered key vid log)
    (hr : r ∈ log) (hrt : ¬ Terminal r) (hnew : ∀ v ∈ log, key v = key r → vid v ≤ vid r) :
    ∀ v ∈ log, key v = key r → ¬ Terminal v :=
  h.fresh hn hr hrt fun v hv hk hlt => absurd hlt (not_lt.mpr (hnew v hv hk))

end Versioned
