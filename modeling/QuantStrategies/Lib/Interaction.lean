import Mathlib.Data.List.Basic

/-!
# Programs that call their surroundings

A program in `Prog` computes, raises, or calls something outside it and goes on
from the answer. The calls are the constructor `ask`, and nothing is said about
the answers: `Runs p t r` holds of every record `t` of calls and answers that
the program may leave behind, with the value or the exception `r` it ends in.
What holds of every run therefore holds whatever the surroundings do.

The rules take a run of a program apart along its structure, one rule for each
way of putting programs together. `Prog.play` goes the other way, and builds
the run that given surroundings, which may answer by all they have been asked
before, lead to. Programs are finite trees along every answer, so every program
has a run in every surroundings.

Runs are also what two programs are compared by: those that leave the same records behind,
with the same results, are the same to every caller. `Only` keeps track of which calls a
program can make at all; what a run leaves behind is then among them.
-/

variable {C : Type} {A : C → Type} {ε α β : Type}

/-- A program that asks the calls `c : C` for answers in `A c`. -/
inductive Prog (C : Type) (A : C → Type) (ε : Type) (α : Type) where
  | ret (a : α)
  | throw (e : ε)
  | ask (c : C) (k : A c → Prog C A ε α)

/-- A call and what was answered. -/
abbrev CallEvent (C : Type) (A : C → Type) := (c : C) × A c

namespace Prog

/-- Go on with the value, if there is one. -/
def bind : Prog C A ε α → (α → Prog C A ε β) → Prog C A ε β
  | .ret a, f => f a
  | .throw e, _ => .throw e
  | .ask c k, f => .ask c fun x => (k x).bind f

instance : Monad (Prog C A ε) where
  pure := .ret
  bind := .bind

/-- Make one call. -/
def call (c : C) : Prog C A ε (A c) :=
  .ask c .ret

/-- Raise what a fallible value raises. -/
def ofExcept : Except ε α → Prog C A ε α
  | .ok a => .ret a
  | .error e => .throw e

/-- Run a program to its value or its exception, and hand over which it was. -/
def attempt : Prog C A ε α → Prog C A ε (Except ε α)
  | .ret a => .ret (.ok a)
  | .throw e => .ret (.error e)
  | .ask c k => .ask c fun x => (k x).attempt

/-! ## Runs -/

/-- The runs of a program: the calls it made, each with its answer, and what it
ended in. -/
inductive Runs : Prog C A ε α → List (CallEvent C A) → Except ε α → Prop where
  | ret (a : α) : Runs (.ret a) [] (.ok a)
  | throw (e : ε) : Runs (.throw e) [] (.error e)
  | ask (c : C) (k : A c → Prog C A ε α) (x : A c) {t : List (CallEvent C A)}
      {r : Except ε α} (h : Runs (k x) t r) : Runs (.ask c k) (⟨c, x⟩ :: t) r

variable {t : List (CallEvent C A)} {r : Except ε α}

/-- A program that only returns leaves nothing behind. -/
@[simp]
theorem runs_pure {a : α} : Runs (pure a : Prog C A ε α) t r ↔ t = [] ∧ r = .ok a := by
  constructor
  · rintro ⟨⟩
    exact ⟨rfl, rfl⟩
  · rintro ⟨rfl, rfl⟩
    exact .ret a

/-- The same, of the constructor that it is made of. -/
@[simp]
theorem runs_ret {a : α} : Runs (.ret a : Prog C A ε α) t r ↔ t = [] ∧ r = .ok a :=
  runs_pure

/-- A program that raises at once leaves nothing behind either, and ends in the exception. -/
@[simp]
theorem runs_throw {e : ε} :
    Runs (.throw e : Prog C A ε α) t r ↔ t = [] ∧ r = .error e := by
  constructor
  · rintro ⟨⟩
    exact ⟨rfl, rfl⟩
  · rintro ⟨rfl, rfl⟩
    exact .throw e

/-- A call stands at the front of the record with whatever was answered, and the rest of the run
is one of the rest of the program. -/
theorem runs_ask {c : C} {k : A c → Prog C A ε α} :
    Runs (.ask c k) t r ↔ ∃ x t', t = ⟨c, x⟩ :: t' ∧ Runs (k x) t' r := by
  constructor
  · intro h
    cases h with
    | ask _ _ x h => exact ⟨x, _, rfl, h⟩
  · rintro ⟨x, t', rfl, h⟩
    exact .ask c k x h

/-- A single call leaves its own event, and hands over the answer. -/
theorem runs_call {c : C} {r : Except ε (A c)} :
    Runs (call c : Prog C A ε (A c)) t r ↔ ∃ x, t = [⟨c, x⟩] ∧ r = .ok x := by
  rw [call, runs_ask]
  constructor
  · rintro ⟨x, t', rfl, h⟩
    obtain ⟨rfl, rfl⟩ := runs_ret.mp h
    exact ⟨x, rfl, rfl⟩
  · rintro ⟨x, rfl, rfl⟩
    exact ⟨x, [], rfl, .ret x⟩

/-- A computation that was already done is the end of the run. -/
@[simp]
theorem runs_ofExcept {x : Except ε α} :
    Runs (ofExcept x : Prog C A ε α) t r ↔ t = [] ∧ r = x := by
  cases x with
  | ok a => exact runs_ret
  | error e => exact runs_throw

/-- **A sequence runs in two parts**: either its first part raises, or the first
part has a value and the rest runs from there. -/
theorem runs_bind {p : Prog C A ε α} {f : α → Prog C A ε β} {r : Except ε β} :
    Runs (p >>= f) t r ↔
      (∃ e, Runs p t (.error e) ∧ r = .error e) ∨
      ∃ a t₁ t₂, Runs p t₁ (.ok a) ∧ Runs (f a) t₂ r ∧ t = t₁ ++ t₂ := by
  show Runs (p.bind f) t r ↔ _
  induction p generalizing t with
  | ret a =>
    constructor
    · exact fun h => .inr ⟨a, [], t, .ret a, h, rfl⟩
    · rintro (⟨e, h, -⟩ | ⟨a', t₁, t₂, h₁, h₂, rfl⟩)
      · cases h
      · cases h₁
        exact h₂
  | throw e =>
    constructor
    · rintro ⟨⟩
      exact .inl ⟨e, .throw e, rfl⟩
    · rintro (⟨e', h, rfl⟩ | ⟨a, t₁, t₂, h₁, -, -⟩)
      · cases h
        exact .throw e
      · cases h₁
  | ask c k ih =>
    constructor
    · intro h
      obtain ⟨x, t', rfl, h'⟩ := runs_ask.mp h
      obtain ⟨e, he, rfl⟩ | ⟨a, t₁, t₂, h₁, h₂, rfl⟩ := (ih x).mp h'
      · exact .inl ⟨e, .ask c k x he, rfl⟩
      · exact .inr ⟨a, ⟨c, x⟩ :: t₁, t₂, .ask c k x h₁, h₂, rfl⟩
    · rintro (⟨e, h, rfl⟩ | ⟨a, t₁, t₂, h₁, h₂, rfl⟩)
      · obtain ⟨x, t', rfl, h'⟩ := runs_ask.mp h
        exact .ask c _ x ((ih x).mpr (.inl ⟨e, h', rfl⟩))
      · obtain ⟨x, t', rfl, h'⟩ := runs_ask.mp h₁
        exact .ask c _ x ((ih x).mpr (.inr ⟨a, t', t₂, h', h₂, rfl⟩))

/-- A call, and what is done with its answer. -/
theorem runs_call_bind {c : C} {f : A c → Prog C A ε β} {r : Except ε β} :
    Runs (call c >>= f) t r ↔ ∃ x t', t = ⟨c, x⟩ :: t' ∧ Runs (f x) t' r :=
  runs_ask

theorem runs_call_bind_cons {c : C} {x : A c} {f : A c → Prog C A ε β} {r : Except ε β} :
    Runs (call c >>= f) (⟨c, x⟩ :: t) r ↔ Runs (f x) t r := by
  constructor
  · intro h
    obtain ⟨x, t', ht, h⟩ := runs_call_bind.mp h
    cases ht
    exact h
  · exact fun h => runs_call_bind.mpr ⟨x, t, rfl, h⟩

/-- An attempt has the runs of the program, and never raises. -/
theorem runs_attempt {p : Prog C A ε α} {r : Except ε (Except ε α)} :
    Runs p.attempt t r ↔ ∃ x, Runs p t x ∧ r = .ok x := by
  induction p generalizing t with
  | ret a =>
    constructor
    · rintro ⟨⟩
      exact ⟨.ok a, .ret a, rfl⟩
    · rintro ⟨x, ⟨⟩, rfl⟩
      exact .ret _
  | throw e =>
    constructor
    · rintro ⟨⟩
      exact ⟨.error e, .throw e, rfl⟩
    · rintro ⟨x, ⟨⟩, rfl⟩
      exact .ret _
  | ask c k ih =>
    constructor
    · intro h
      obtain ⟨y, t', rfl, h'⟩ := runs_ask.mp h
      obtain ⟨x, hx, rfl⟩ := (ih y).mp h'
      exact ⟨x, .ask c k y hx, rfl⟩
    · rintro ⟨x, h, rfl⟩
      obtain ⟨y, t', rfl, h'⟩ := runs_ask.mp h
      exact .ask c _ y ((ih y).mpr ⟨x, h', rfl⟩)

/-- An attempt, and what is done with how it ended. -/
theorem runs_attempt_bind {p : Prog C A ε α} {f : Except ε α → Prog C A ε β}
    {r : Except ε β} :
    Runs (p.attempt >>= f) t r ↔
      ∃ x t₁ t₂, Runs p t₁ x ∧ Runs (f x) t₂ r ∧ t = t₁ ++ t₂ := by
  rw [runs_bind]
  constructor
  · rintro (⟨e, he, -⟩ | ⟨x, t₁, t₂, h₁, h₂, rfl⟩)
    · obtain ⟨_, -, hx⟩ := runs_attempt.mp he
      cases hx
    · obtain ⟨y, hy, hx⟩ := runs_attempt.mp h₁
      obtain rfl := Except.ok.inj hx
      exact ⟨x, t₁, t₂, hy, h₂, rfl⟩
  · rintro ⟨x, t₁, t₂, h₁, h₂, rfl⟩
    exact .inr ⟨x, t₁, t₂, runs_attempt.mpr ⟨x, h₁, rfl⟩, h₂, rfl⟩

/-! ## Programs among more calls -/

section Sum

variable {D : Type} {B : D → Type}

/-- A program among more calls than it makes. -/
def inl : Prog C A ε α → Prog (C ⊕ D) (Sum.elim A B) ε α
  | .ret a => .ret a
  | .throw e => .throw e
  | .ask c k => .ask (.inl c) fun x => (k x).inl

/-- An event among those of more calls. -/
def inlEvent (e : CallEvent C A) : CallEvent (C ⊕ D) (Sum.elim A B) :=
  ⟨.inl e.1, e.2⟩

/-- The event of a program among more calls, if it is one. -/
def left? : CallEvent (C ⊕ D) (Sum.elim A B) → Option (CallEvent C A)
  | ⟨.inl c, x⟩ => some ⟨c, x⟩
  | ⟨.inr _, _⟩ => none

/-- The runs of a program do not depend on what else could be called. -/
theorem runs_inl {p : Prog C A ε α} {t : List (CallEvent (C ⊕ D) (Sum.elim A B))} :
    Runs p.inl t r ↔ ∃ t', t = t'.map inlEvent ∧ Runs p t' r := by
  induction p generalizing t with
  | ret a =>
    constructor
    · rintro ⟨⟩
      exact ⟨[], rfl, .ret a⟩
    · rintro ⟨t', rfl, h⟩
      obtain ⟨rfl, rfl⟩ := runs_ret.mp h
      exact .ret a
  | throw e =>
    constructor
    · rintro ⟨⟩
      exact ⟨[], rfl, .throw e⟩
    · rintro ⟨t', rfl, h⟩
      obtain ⟨rfl, rfl⟩ := runs_throw.mp h
      exact .throw e
  | ask c k ih =>
    constructor
    · intro h
      obtain ⟨x, t₁, rfl, h₁⟩ := runs_ask.mp h
      obtain ⟨t', rfl, h'⟩ := (ih x).mp h₁
      exact ⟨⟨c, x⟩ :: t', rfl, .ask c k x h'⟩
    · rintro ⟨t', rfl, h⟩
      obtain ⟨x, t₁, rfl, h₁⟩ := runs_ask.mp h
      exact runs_ask.mpr ⟨x, _, rfl, (ih x).mpr ⟨t₁, rfl, h₁⟩⟩

/-- What is recorded on the left alone is all there if nothing else was recorded. -/
theorem filterMap_left?_map (t : List (CallEvent C A)) :
    (t.map (inlEvent (B := B))).filterMap left? = t := by
  rw [List.filterMap_map]
  exact List.filterMap_some

end Sum

/-! ## What a program may call -/

/-- The program makes no other calls than those. -/
def Only (P : C → Prop) (p : Prog C A ε α) : Prop :=
  ∀ t r, Runs p t r → ∀ e ∈ t, P e.1

variable {P : C → Prop}

/-- A program that only returns makes no call. -/
theorem Only.pure (a : α) : Only P (Pure.pure a : Prog C A ε α) := by
  intro t r h e he
  obtain ⟨rfl, -⟩ := runs_pure.mp h
  cases he

theorem Only.throw (e : ε) : Only P (.throw e : Prog C A ε α) := by
  intro t r h e' he
  obtain ⟨rfl, -⟩ := runs_throw.mp h
  cases he

/-- Nor one that hands on what was computed. -/
theorem Only.ofExcept (x : Except ε α) : Only P (ofExcept x : Prog C A ε α) := by
  intro t r h e he
  obtain ⟨rfl, -⟩ := runs_ofExcept.mp h
  cases he

/-- One call makes that call. -/
theorem Only.call {c : C} (hc : P c) : Only P (call c : Prog C A ε (A c)) := by
  intro t r h e he
  obtain ⟨x, rfl, -⟩ := runs_call.mp h
  rw [List.mem_singleton.mp he]
  exact hc

/-- Two programs one after the other make the calls of either, whatever the first one hands to the
second. -/
theorem Only.bind {p : Prog C A ε α} {f : α → Prog C A ε β} (hp : Only P p)
    (hf : ∀ a, Only P (f a)) : Only P (p >>= f) := by
  intro t r h e he
  obtain ⟨x, hx, rfl⟩ | ⟨a, t₁, t₂, h₁, h₂, rfl⟩ := runs_bind.mp h
  · exact hp _ _ hx e he
  · rcases List.mem_append.mp he with he₁ | he₂
    · exact hp _ _ h₁ e he₁
    · exact hf a _ _ h₂ e he₂

/-- Catching an exception makes no call of its own. -/
theorem Only.attempt {p : Prog C A ε α} (hp : Only P p) : Only P p.attempt := by
  intro t r h
  obtain ⟨x, hx, rfl⟩ := runs_attempt.mp h
  exact hp t x hx

/-- A program that makes these calls only makes no others, in particular none outside any larger
set. -/
theorem Only.mono {Q : C → Prop} {p : Prog C A ε α} (hp : Only P p)
    (hPQ : ∀ c, P c → Q c) : Only Q p :=
  fun t r h e he => hPQ _ (hp t r h e he)

/-! ## Playing a program against its surroundings -/

/-- The run of a program in surroundings that answer each call by what they have
been asked and have answered so far. -/
def play (world : List (CallEvent C A) → (c : C) → A c) :
    Prog C A ε α → List (CallEvent C A) → List (CallEvent C A) × Except ε α
  | .ret a, _ => ([], .ok a)
  | .throw e, _ => ([], .error e)
  | .ask c k, past =>
    let x := world past c
    let rest := play world (k x) (past ++ [⟨c, x⟩])
    (⟨c, x⟩ :: rest.1, rest.2)

/-- **Every surroundings have a run.** What is played is a run of the program. The surroundings
answer by all that has happened before, so that they may be a venue, a store or a clock, and
change their mind. -/
theorem play_runs (world : List (CallEvent C A) → (c : C) → A c) (p : Prog C A ε α)
    (past : List (CallEvent C A)) :
    Runs p (p.play world past).1 (p.play world past).2 := by
  induction p generalizing past with
  | ret a => exact .ret a
  | throw e => exact .throw e
  | ask c k ih => exact .ask c k _ (ih _ _)

/-- What holds of every answer of the surroundings holds all along the run. -/
theorem play_forall {P : CallEvent C A → Prop} {world : List (CallEvent C A) → (c : C) → A c}
    (h : ∀ past c, P ⟨c, world past c⟩) (p : Prog C A ε α) (past : List (CallEvent C A)) :
    ∀ e ∈ (p.play world past).1, P e := by
  induction p generalizing past with
  | ret a => exact fun _ he => nomatch he
  | throw e => exact fun _ he => nomatch he
  | ask c k ih =>
    intro e he
    rcases List.mem_cons.mp he with rfl | he
    · exact h past c
    · exact ih _ _ e he

end Prog
