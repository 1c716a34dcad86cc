import Mathlib.Data.Nat.Cast.Order.Ring
import Mathlib.Order.Lattice
import QuantStrategies.Lib.Pool

/-!
# Admission by a count

A pool stores things, of which there are to be fewer than a number. A worker that wants to
store one more counts first, and stores in a later step. It is *admitted* between the two:
when several workers are, each has counted without the others' things.

So the number is no bound of what is stored. What is bounded is what is stored together
with the workers that are admitted: the count is one short of the number at an admission,
and the number of admitted workers is added to it (`Pool.admission`).

The number of workers that can be between their count and their insertion is not a property
of the pool, and is asked for as a guard. In a program it is the number of requests that are
served at a time.
-/

universe u

namespace Pool

variable {σ ω ε β α : Type u} {P : Pool σ ω ε β α}

/-- A worker of a list is replaced. -/
theorem countP_set {p : ω → Bool} {ws : List ω} {i : ℕ} {w : ω} (h : ws[i]? = some w) (w' : ω) :
    (ws.set i w').countP p + (p w).toNat = ws.countP p + (p w').toNat := by
  obtain ⟨hi, rfl⟩ := List.getElem?_eq_some_iff.mp h
  rw [List.countP_set hi]
  have hmem : p ws[i] = true → 0 < ws.countP p := fun hp =>
    List.countP_pos_iff.mpr ⟨_, List.getElem_mem hi, hp⟩
  cases hp : p ws[i] with
  | false => cases p w' <;> simp
  | true =>
    have := hmem hp
    cases p w' <;> simp <;> omega

/-- **The admission rule.** What is stored and what is admitted is bounded by the number that
is counted up to, less one, and the number of workers that are admitted at once, when a worker
is only admitted while the count is below the number, and every other step leaves no more of
the two together. The steps are looked at in states where `J` holds, which every state has
that a run reaches. -/
theorem admission (stored : σ → ℕ) (admitted : ω → Bool) {number : ℤ} {K : ℕ}
    {G : PoolState σ ω → PoolAct ε β α → Prop} {J : PoolState σ ω → Prop} {s : PoolState σ ω}
    (hs : P.machine.Reach G s) (hJ : ∀ s, P.machine.Reach G s → J s)
    (hK : ∀ s a s', G s a → P.step s a = some s' → s'.workers.countP admitted ≤ K)
    (hinit : ∀ s, P.Init s → stored s = 0)
    (henv : ∀ s e s', P.env s e = some s' → stored s' ≤ stored s)
    (hfresh : ∀ s ws b w, P.fresh s ws b = some w → admitted w = false)
    (hwork : ∀ (s : PoolState σ ω) (w : ω) a s' w', J s → w ∈ s.workers →
      P.work s.shared w a = some (s', w') →
      stored s' + (admitted w').toNat ≤ stored s.shared + (admitted w).toNat ∨
        (stored s.shared < number ∧ stored s' ≤ stored s.shared)) :
    ((stored s.shared + s.workers.countP admitted : ℕ) : ℤ) ≤ max 0 (number - 1) + K := by
  have hs := hs.strengthen hJ
  refine hs.invariant (I := fun s =>
    ((stored s.shared + s.workers.countP admitted : ℕ) : ℤ) ≤ max 0 (number - 1) + K)
    (fun s h => ?_) (fun s act s' hI hg h => ?_)
  · rw [h.2, hinit _ h.1, List.countP_nil]
    omega
  · have hadmitted := hK _ _ _ hg.1 h
    cases act with
    | env e =>
      obtain ⟨sh, he, rfl⟩ := Option.map_eq_some_iff.mp h
      have := henv _ _ _ he
      dsimp only
      omega
    | spawn b =>
      obtain ⟨w, hw, rfl⟩ := Option.map_eq_some_iff.mp h
      have hout := hfresh _ _ _ _ hw
      dsimp only
      rw [List.countP_append, List.countP_singleton, if_neg (by rw [hout]; exact Bool.false_ne_true)]
      exact hI
    | crash i =>
      obtain rfl := Option.some.inj h
      have := (List.eraseIdx_sublist s.workers i).countP_le (p := admitted)
      dsimp only
      omega
    | work i a =>
      obtain ⟨w, sh, w', hw, hr, rfl⟩ := step_work h
      have hset := countP_set (p := admitted) hw w'
      obtain hless | ⟨hbelow, hless⟩ := hwork _ _ _ _ _ hg.2 (List.mem_of_getElem? hw) hr
      · dsimp only
        omega
      -- the worker is admitted: those that are, it included, are no more than allowed
      · dsimp only at hadmitted ⊢
        omega

end Pool
