import Mathlib.Algebra.Order.Group.Defs
import Mathlib.Algebra.Order.Sub.Basic
import Mathlib.Data.List.Basic
import Mathlib.Tactic.Linarith

/-!
# Caches with a time to live

A value is written now and then, and read by way of a cache that keeps what it was given for
a while. How old can be what is read? A reader that does not find the value in the cache
reads it where it is written, and puts it into the cache later, when it may have been
written again: the cache is given a value that is old already. So what is found in the cache
was current no longer ago than the time to live and the time between a read and the insertion
that it leads to (`Backed.get`).

What has been written is kept as a log, newest first, with the times of the writes.
`CurrentSince log a v` says that `v` was the newest value at `a` or later. It is true of what
is read at `a`, and stays true.

The bound is the sum of two times and neither of them alone. A run comes close to it when a
reader is held up between its read and its insertion for as long as a request may take, and
the entry is then used until it expires.
-/

universe u v w

variable {τ : Type u} {ν : Type v} {κ : Type w}

/-- A value was the newest one at a time, or later. -/
def CurrentSince [LE τ] (log : List (τ × ν)) (a : τ) (x : ν) : Prop :=
  ∃ newer t older, log = newer ++ (t, x) :: older ∧ ∀ w ∈ newer, a ≤ w.1

namespace CurrentSince

section Order

variable [LinearOrder τ] {log : List (τ × ν)} {a b t : τ} {x y : ν}

/-- What was written last is current from any time on. -/
theorem head : CurrentSince ((t, x) :: log) a x :=
  ⟨[], t, log, rfl, fun _ hw => absurd hw List.not_mem_nil⟩

/-- A write does not take back that the value before it was current, up to the time of the write.
-/
theorem append (h : CurrentSince log a x) (hat : a ≤ t) : CurrentSince ((t, y) :: log) a x := by
  obtain ⟨newer, t', older, rfl, hnewer⟩ := h
  refine ⟨(t, y) :: newer, t', older, rfl, fun w hw => ?_⟩
  obtain rfl | hw := List.mem_cons.mp hw
  · exact hat
  · exact hnewer w hw

/-- What was current after a time was current after any earlier one. -/
theorem mono (h : CurrentSince log a x) (hba : b ≤ a) : CurrentSince log b x := by
  obtain ⟨newer, t, older, hlog, hnewer⟩ := h
  exact ⟨newer, t, older, hlog, fun w hw => hba.trans (hnewer w hw)⟩

theorem mem (h : CurrentSince log a x) : ∃ t, (t, x) ∈ log := by
  obtain ⟨newer, t, older, rfl, -⟩ := h
  exact ⟨t, List.mem_append_right _ List.mem_cons_self⟩

/-- A value that has not been written for a while is the only one that was current in it. -/
theorem eq_of_settled (h : CurrentSince ((t, y) :: log) a x) (ht : t < a) : x = y := by
  obtain ⟨newer, t', older, hlog, hnewer⟩ := h
  cases newer with
  | nil => exact (Prod.mk.inj (List.cons.inj hlog).1).2.symm
  | cons w newer =>
    have hw : w = (t, y) := (List.cons.inj hlog).1.symm
    exact absurd (hnewer w List.mem_cons_self) (not_le.mpr (hw ▸ ht))

/-- Where a figure of the values grows as they are written, a greater one than that of a
value which was current has been written later. -/
theorem le_of_rank_lt {ρ : Type*} [LinearOrder ρ] {rank : ν → ρ}
    (hrank : log.Pairwise (fun later earlier => rank earlier.2 ≤ rank later.2))
    (h : CurrentSince log a x) {w : τ × ν} (hw : w ∈ log) (hlt : rank x < rank w.2) :
    a ≤ w.1 := by
  obtain ⟨newer, t, older, rfl, hnewer⟩ := h
  obtain hw | hw := List.mem_append.mp hw
  · exact hnewer w hw
  · obtain ⟨-, hrest, -⟩ := List.pairwise_append.mp hrank
    obtain rfl | hw := List.mem_cons.mp hw
    · exact absurd hlt (lt_irrefl _)
    · exact absurd ((List.pairwise_cons.mp hrest).1 w hw) (not_le.mpr hlt)

end Order

end CurrentSince

/-- A cache: for each key that it has, when the value expires, and the value. -/
structure TtlCache (κ : Type w) (τ : Type u) (ν : Type v) where
  /-- The entries, each with the instant at which it is no longer given out. -/
  entries : List (κ × τ × ν)

namespace TtlCache

variable [DecidableEq κ] [LinearOrder τ] (c : TtlCache κ τ ν)

/-- The empty cache. -/
def empty : TtlCache κ τ ν := ⟨[]⟩

/-- The cache without a key. -/
def drop (k : κ) : TtlCache κ τ ν := ⟨c.entries.filter (fun e => e.1 ≠ k)⟩

/-- The cache with a value under a key. -/
def put (k : κ) (expires : τ) (x : ν) : TtlCache κ τ ν := ⟨(k, expires, x) :: (c.drop k).entries⟩

/-- What is found under a key, with the cache afterwards: a value that has expired is
dropped. -/
def get (now : τ) (k : κ) : Option ν × TtlCache κ τ ν :=
  match c.entries.lookup k with
  | none => (none, c)
  | some (expires, x) => if expires < now then (none, c.drop k) else (some x, c)

/-- Every value in the cache was the newest one under its key at a time since which no more
than `lag` passes until it expires. -/
def Backed [Add τ] (log : κ → List (τ × ν)) (lag now : τ) : Prop :=
  ∀ k expires x, (k, expires, x) ∈ c.entries →
    ∃ a ≤ now, CurrentSince (log k) a x ∧ expires ≤ a + lag

variable {c} {log log' : κ → List (τ × ν)} {lag now : τ} {k : κ} {x : ν}

omit [LinearOrder τ] in
/-- Dropping a key adds nothing. -/
theorem mem_of_mem_drop {e : κ × τ × ν} (h : e ∈ (c.drop k).entries) : e ∈ c.entries :=
  (List.mem_filter.mp h).1

namespace Backed

section Entries

variable [Add τ]

omit [DecidableEq κ] in
/-- An empty cache has nothing that could be too old. -/
theorem empty : (TtlCache.empty : TtlCache κ τ ν).Backed log lag now :=
  fun _ _ _ h => absurd h List.not_mem_nil

/-- Nor does a cache from which a key was dropped have anything that it did not have. -/
theorem drop (h : c.Backed log lag now) : (c.drop k).Backed log lag now :=
  fun k' expires x hx => h k' expires x (mem_of_mem_drop hx)

/-- What is put into the cache has been read before, and what has passed since is part of the
lag. -/
theorem put (h : c.Backed log lag now) {a expires : τ} (ha : a ≤ now)
    (hx : CurrentSince (log k) a x) (hexp : expires ≤ a + lag) :
    (c.put k expires x).Backed log lag now := by
  intro k' expires' x' hmem
  obtain heq | hmem := List.mem_cons.mp hmem
  · cases heq
    exact ⟨a, ha, hx, hexp⟩
  · exact h k' expires' x' (mem_of_mem_drop hmem)

omit [DecidableEq κ] in
/-- Time passes. -/
theorem later (h : c.Backed log lag now) {now' : τ} (hle : now ≤ now') :
    c.Backed log lag now' := fun k expires x hx => by
  obtain ⟨a, ha, hcur, hexp⟩ := h k expires x hx
  exact ⟨a, ha.trans hle, hcur, hexp⟩

omit [DecidableEq κ] in
/-- A value is written, or nothing is. -/
theorem write (h : c.Backed log lag now)
    (hlog : ∀ k, log' k = log k ∨ ∃ y, log' k = (now, y) :: log k) :
    c.Backed log' lag now := fun k expires x hx => by
  obtain ⟨a, ha, hcur, hexp⟩ := h k expires x hx
  refine ⟨a, ha, ?_, hexp⟩
  obtain hk | ⟨y, hk⟩ := hlog k
  · exact hk ▸ hcur
  · exact hk ▸ hcur.append ha

/-- Reading may drop what has expired, and adds nothing. -/
theorem get_snd (h : c.Backed log lag now) : (c.get now k).2.Backed log lag now := by
  unfold TtlCache.get
  split
  · exact h
  · split
    · exact h.drop
    · exact h

end Entries

/-- **What is found in the cache was current no longer ago than the lag.** -/
theorem get [AddCommGroup τ] [IsOrderedAddMonoid τ] (h : c.Backed log lag now)
    (hget : (c.get now k).1 = some x) :
    CurrentSince (log k) (now - lag) x := by
  unfold TtlCache.get at hget
  cases hlook : c.entries.lookup k with
  | none =>
    rw [hlook] at hget
    cases hget
  | some e =>
    obtain ⟨expires, y⟩ := e
    rw [hlook] at hget
    dsimp only at hget
    split at hget
    · cases hget
    · next hlive =>
      obtain rfl := Option.some.inj hget
      obtain ⟨l₁, l₂, hl, -⟩ := List.lookup_eq_some_iff.mp hlook
      have hmem : (k, expires, y) ∈ c.entries := hl ▸ List.mem_append_right _ List.mem_cons_self
      obtain ⟨a, -, hcur, hexp⟩ := h k expires y hmem
      exact hcur.mono (sub_le_iff_le_add.mpr ((not_lt.mp hlive).trans hexp))

end Backed

end TtlCache
