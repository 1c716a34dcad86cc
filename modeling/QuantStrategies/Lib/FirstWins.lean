import Mathlib.Data.List.Nodup
import Mathlib.Data.List.Perm.Lattice

/-!
# Dictionaries whose first entries stay

A dictionary is a list of entries, in the order they went in. An entry that is only
set where its key has none leaves what is there (`setDefault`), so of several entries
with one key the first stays.

What such a dictionary finds is what the list of its entries finds. Which keys it has,
and how many, depends on the set of the entries' keys alone, not on their order or on
how often one of them comes.

This is what a report keeps of keys that name the same instrument twice, and why it does not
matter in which order a batch is asked for.
-/

namespace FirstWins

variable {K V : Type} [DecidableEq K]

/-- Set an entry, unless its key has one. -/
def setDefault (d : List (K × V)) (e : K × V) : List (K × V) :=
  if (d.lookup e.1).isSome then d else d ++ [e]

/-- The dictionary of some entries. -/
def ofEntries (entries : List (K × V)) : List (K × V) := entries.foldl setDefault []

variable {d entries entries' : List (K × V)} {e : K × V} {k : K} {v : V}

/-- What is found after an entry went in: what was there before, and the entry's own value where
nothing was. -/
theorem lookup_setDefault (d : List (K × V)) (e : K × V) (k : K) :
    (setDefault d e).lookup k = (d.lookup k).or ([e].lookup k) := by
  unfold setDefault
  split
  · next h =>
    by_cases hk : k = e.1
    · subst hk
      obtain ⟨v, hv⟩ := Option.isSome_iff_exists.mp h
      rw [hv]
      rfl
    · have hne : (k == e.1) = false := beq_eq_false_iff_ne.mpr hk
      rw [List.lookup_cons, hne]
      exact (Option.or_none).symm
  · exact List.lookup_append

/-- **The first entry of a key is the one that is found.** A later entry of a key that is there
already is dropped, as `setdefault` drops it. -/
theorem lookup_ofEntries (entries : List (K × V)) (k : K) :
    (ofEntries entries).lookup k = entries.lookup k := by
  suffices h : ∀ d : List (K × V),
      (entries.foldl setDefault d).lookup k = (d.lookup k).or (entries.lookup k) by
    exact h []
  induction entries with
  | nil => exact fun d => Option.or_none.symm
  | cons e entries ih =>
    intro d
    rw [List.foldl_cons, ih, lookup_setDefault, Option.or_assoc]
    exact congrArg _ List.lookup_append.symm

/-- A key is found exactly when some entry has it. -/
theorem lookup_isSome : (entries.lookup k).isSome ↔ k ∈ entries.map Prod.fst := by
  rw [List.lookup_isSome_iff, List.mem_map]
  exact exists_congr fun e => and_congr_right fun _ => beq_iff_eq.trans eq_comm

/-- What is found is an entry. -/
theorem mem_of_lookup (h : entries.lookup k = some v) : (k, v) ∈ entries := by
  obtain ⟨l₁, l₂, rfl, -⟩ := List.lookup_eq_some_iff.mp h
  exact List.mem_append_right l₁ List.mem_cons_self

/-- An entry is what is found of its key, where no key is there twice. -/
theorem lookup_of_mem (hnd : (entries.map Prod.fst).Nodup) (he : e ∈ entries) :
    entries.lookup e.1 = some e.2 := by
  have hsome : (entries.lookup e.1).isSome := lookup_isSome.mpr (List.mem_map_of_mem he)
  obtain ⟨v, hv⟩ := Option.isSome_iff_exists.mp hsome
  have heq : e = (e.1, v) := List.inj_on_of_nodup_map hnd he (mem_of_lookup hv) rfl
  rw [hv, heq]

/-- What is in a dictionary went into it. -/
theorem mem_of_mem_ofEntries (h : e ∈ ofEntries entries) : e ∈ entries := by
  suffices hd : ∀ d : List (K × V), e ∈ entries.foldl setDefault d → e ∈ d ∨ e ∈ entries by
    exact (hd [] h).resolve_left List.not_mem_nil
  clear h
  induction entries with
  | nil => exact fun d hd => Or.inl hd
  | cons x entries ih =>
    intro d hd
    rcases ih (setDefault d x) hd with hd | he
    · unfold setDefault at hd
      split at hd
      · exact Or.inl hd
      · rcases List.mem_append.mp hd with hd | hd
        · exact Or.inl hd
        · exact Or.inr (List.mem_singleton.mp hd ▸ List.mem_cons_self)
    · exact Or.inr (List.mem_cons_of_mem x he)

/-! ## The keys -/

/-- The keys of a dictionary are those of its entries. -/
theorem mem_keys : k ∈ (ofEntries entries).map Prod.fst ↔ k ∈ entries.map Prod.fst := by
  rw [← lookup_isSome, lookup_ofEntries, lookup_isSome]

/-- No key is there twice. -/
theorem nodup_keys (entries : List (K × V)) : ((ofEntries entries).map Prod.fst).Nodup := by
  suffices h : ∀ d : List (K × V), (d.map Prod.fst).Nodup →
      ((entries.foldl setDefault d).map Prod.fst).Nodup by
    exact h [] List.nodup_nil
  induction entries with
  | nil => exact fun d hd => hd
  | cons e entries ih =>
    refine fun d hd => ih _ ?_
    unfold setDefault
    split
    · exact hd
    · next h =>
      rw [List.map_append, List.map_singleton, ← List.concat_eq_append]
      exact hd.concat fun hmem => h (lookup_isSome.mpr hmem)

/-- **Entries with the same keys make dictionaries with the same keys**, up to order. -/
theorem keys_perm (h : ∀ k, k ∈ entries.map Prod.fst ↔ k ∈ entries'.map Prod.fst) :
    ((ofEntries entries).map Prod.fst).Perm ((ofEntries entries').map Prod.fst) :=
  (List.perm_ext_iff_of_nodup (nodup_keys entries) (nodup_keys entries')).mpr fun k => by
    rw [mem_keys, mem_keys, h]

/-- Entries that are a function of their keys are found in any order. -/
theorem lookup_perm (h : entries.Perm entries')
    (hfun : ∀ e ∈ entries, ∀ e' ∈ entries, e.1 = e'.1 → e = e') (k : K) :
    entries.lookup k = entries'.lookup k := by
  cases hk : entries.lookup k with
  | none =>
    have hnone : ¬(entries.lookup k).isSome := by rw [hk]; exact Bool.false_ne_true
    rw [lookup_isSome, (h.map Prod.fst).mem_iff, ← lookup_isSome] at hnone
    exact (Option.not_isSome_iff_eq_none.mp hnone).symm
  | some v =>
    have hmem := mem_of_lookup hk
    have hsome : (entries'.lookup k).isSome :=
      lookup_isSome.mpr (List.mem_map.mpr ⟨(k, v), h.mem_iff.mp hmem, rfl⟩)
    obtain ⟨v', hv'⟩ := Option.isSome_iff_exists.mp hsome
    have heq := hfun _ hmem _ (h.mem_iff.mpr (mem_of_lookup hv')) rfl
    rw [hv', (Prod.mk.inj heq).2]

end FirstWins
