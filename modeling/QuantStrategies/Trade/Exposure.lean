import Mathlib.Data.Sign.Basic
import Mathlib.Tactic.Linarith
import QuantStrategies.Lib.Transition
import QuantStrategies.Trade.Order

/-!
# Exposure

The position of a deployment, applied again and again: each apply reads the
position, derives an action and its one order, and the venue fills some part of
that order. Whatever the signals and the fills are, the position stays within what
it was and what the deployment trades. Under a signal that stays, with orders that
fill, it gets there in two applies and rests.

Quantities are exact here.

The proof has three layers. `intendedAction_eq` is the whole table of the action, over the
sign of the signal and the sign of the position. `Moved` says what one apply may then do to
a position, whatever part of its order fills, and `exposure_step` that an apply does nothing
else. The bound on a run is then an invariant of `Moved`, and the arrival in two applies a
case split on the sides; neither opens the executor again.
-/

/-- The action that a signal and the sign of a position call for. -/
def actionFor : SignType → SignType → IntendedAction
  | .pos, .neg => .closeShort
  | .pos, .zero => .buy
  | .pos, .pos => .hold
  | .zero, .pos => .sell
  | .zero, .zero => .hold
  | .zero, .neg => .closeShort
  | .neg, .pos => .sell
  | .neg, .zero => .openShort
  | .neg, .neg => .hold

/-- The sign of a position, where float noise counts as none. -/
def positionSign (p : ℚ) : SignType := SignType.sign (flattened p)

/-- A quantity with the sign that its side gives it. -/
def OrderSide.signed : OrderSide → ℚ → ℚ
  | .buy, q => q
  | .sell, q => -q

/-- The order that an apply places on a position. -/
def orderOn (symbol : String) (qty : ℚ) (signal : SignType) (p : ℚ) :
    Except Raised (Option (OrderRequest ℚ)) := do
  let action ← intendedAction (signal : ℚ) p
  return orderFor symbol action qty p

/-- The position after the venue fills some quantity of an order. -/
def fillOn (order : Except Raised (Option (OrderRequest ℚ))) (fill p : ℚ) : Option ℚ :=
  match order with
  | .ok none => some p
  | .ok (some req) =>
    if 0 ≤ fill ∧ fill ≤ req.qty then some (p + req.side.signed fill) else none
  | .error _ => none

/-- A deployment under a venue that fills any part of each order. A step is one
apply, under the signal of the time and with the quantity that the venue fills. -/
def exposure (symbol : String) (qty p₀ : ℚ) : Machine ℚ (SignType × ℚ) where
  Init p := p = p₀
  step p a := fillOn (orderOn symbol qty a.1 p) a.2 p

/-- The position after an apply whose order fills. -/
def filled (symbol : String) (qty : ℚ) (signal : SignType) (p : ℚ) : ℚ :=
  match orderOn symbol qty signal p with
  | .ok (some req) => p + req.side.signed req.qty
  | _ => p

/-! ## The action -/

/-- A signal is already whole, so that rounding it, as `intended_action` does before it looks at
it, changes nothing. The three signs are three evaluations. -/
theorem round_sign (s : SignType) : PyFloat.round (s : ℚ) = some (s : ℤ) := by
  cases s with
  | zero => decide +kernel
  | neg => decide +kernel
  | pos => decide +kernel

/-- **The table of `intended_action`.** Only the signs of the signal and of the position enter,
and there is one action for each pair of them. -/
theorem intendedAction_eq (s : SignType) (p : ℚ) :
    intendedAction (s : ℚ) p = .ok (actionFor s (positionSign p)) := by
  rw [intendedAction, round_sign, positionSign]
  have hlt (a b : ℚ) : PyFloat.lt a b = decide (a < b) := rfl
  have heq (a b : ℚ) : PyFloat.eq a b = decide (a = b) := rfl
  generalize flattened p = q
  simp only [hlt, heq, decide_eq_true_eq]
  obtain hq | rfl | hq := lt_trichotomy q 0
  · have hnot : ¬ 0 < q := not_lt.mpr hq.le
    rw [sign_neg hq]
    cases s with
    | zero => simp [hq, hnot]; rfl
    | neg => simp [hnot, hq.ne]; rfl
    | pos => simp [hq]; rfl
  · rw [sign_zero]
    cases s with
    | zero => simp; rfl
    | neg => simp; rfl
    | pos => simp; rfl
  · have hnot : ¬ q < 0 := not_lt.mpr hq.le
    rw [sign_pos hq]
    cases s with
    | zero => simp [hq]; rfl
    | neg => simp [hq]; rfl
    | pos => simp [hnot, hq.ne']; rfl

/-- A position of float noise has no sign. -/
theorem positionSign_eq_zero {p : ℚ} : positionSign p = 0 ↔ |p| ≤ flatEps := by
  have hle : PyFloat.le (PyFloat.abs p) flatEps = decide (|p| ≤ flatEps) := rfl
  rw [positionSign, sign_eq_zero_iff, flattened, hle]
  by_cases h : |p| ≤ flatEps
  · rw [decide_eq_true h, if_pos rfl]
    exact ⟨fun _ => h, fun _ => rfl⟩
  · rw [decide_eq_false h, if_neg Bool.false_ne_true]
    refine ⟨fun hp => absurd ?_ h, fun hp => absurd hp h⟩
    rw [hp, abs_zero]
    decide +kernel

/-- Any other position has its own. -/
theorem positionSign_of_lt {p : ℚ} (h : flatEps < |p|) : positionSign p = SignType.sign p := by
  have hle : PyFloat.le (PyFloat.abs p) flatEps = decide (|p| ≤ flatEps) := rfl
  rw [positionSign, flattened, hle, decide_eq_false (not_le.mpr h), if_neg Bool.false_ne_true]

theorem flatEps_pos : (0 : ℚ) < flatEps := by
  decide +kernel

/-- A position is float noise, long or short. -/
theorem position_cases (p : ℚ) :
    (positionSign p = .zero ∧ |p| ≤ flatEps) ∨ (positionSign p = .pos ∧ flatEps < p) ∨
      (positionSign p = .neg ∧ p < -flatEps) := by
  obtain h | h := le_or_gt |p| flatEps
  · exact .inl ⟨positionSign_eq_zero.mpr h, h⟩
  · rw [positionSign_of_lt h]
    obtain hp | hp := lt_abs.mp h
    · exact .inr (.inl ⟨sign_pos (flatEps_pos.trans hp), hp⟩)
    · exact .inr (.inr ⟨sign_neg (by linarith [flatEps_pos]), by linarith⟩)

/-! ## One apply -/

/-- The order of an apply, by action. -/
theorem orderOn_eq (symbol : String) (qty : ℚ) (s : SignType) (p : ℚ) :
    orderOn symbol qty s p = .ok (orderFor symbol (actionFor s (positionSign p)) qty p) := by
  rw [orderOn, intendedAction_eq]
  rfl

/-- What one apply may do to a position: nothing, open from float noise, or take away
from what is held. -/
inductive Moved (qty p : ℚ) : IntendedAction → ℚ → Prop
  | rest {action : IntendedAction} : Moved qty p action p
  | opened {action : IntendedAction} {p' : ℚ} (hopen : action = .buy ∨ action = .openShort)
      (hflat : |p| ≤ flatEps) (hmove : |p' - p| ≤ qty) : Moved qty p action p'
  | closed {action : IntendedAction} {p' : ℚ} (hlong : 0 ≤ p → 0 ≤ p' ∧ p' ≤ p)
      (hshort : p ≤ 0 → p ≤ p' ∧ p' ≤ 0) : Moved qty p action p'

/-- Selling some of what is held. -/
theorem Moved.sell {qty p fill : ℚ} (hp : 0 < p) (h0 : 0 ≤ fill) (hfill : fill ≤ |p|) :
    Moved qty p .sell (p + -fill) := by
  rw [abs_of_pos hp] at hfill
  exact .closed (fun _ => ⟨by linarith, by linarith⟩) fun hneg => absurd hneg (not_le.mpr hp)

/-- Buying back some of what is short. -/
theorem Moved.cover {qty p fill : ℚ} (hp : p < 0) (h0 : 0 ≤ fill) (hfill : fill ≤ |p|) :
    Moved qty p .closeShort (p + fill) := by
  rw [abs_of_neg hp] at hfill
  exact .closed (fun hpos => absurd hpos (not_le.mpr hp)) fun _ => ⟨by linarith, by linarith⟩

/-- An order that is filled in part moves the position as its action says. -/
theorem moved_of_fill {symbol : String} {qty p fill : ℚ} {s : SignType} {req : OrderRequest ℚ}
    (h : orderFor symbol (actionFor s (positionSign p)) qty p = some req) (h0 : 0 ≤ fill)
    (hfill : fill ≤ req.qty) :
    Moved qty p (actionFor s (positionSign p)) (p + req.side.signed fill) := by
  obtain ⟨hreq, -⟩ := Option.filter_eq_some_iff.mp h
  obtain ⟨hs, hp⟩ | ⟨hs, hp⟩ | ⟨hs, hp⟩ := position_cases p
  · have hbuy : |p + fill - p| = fill := by rw [add_sub_cancel_left, abs_of_nonneg h0]
    have hsell : |p + -fill - p| = fill := by rw [add_sub_cancel_left, abs_neg, abs_of_nonneg h0]
    rw [hs] at hreq ⊢
    cases s with
    | zero => cases hreq
    | neg =>
      cases hreq
      exact .opened (.inr rfl) hp (hsell.trans_le hfill)
    | pos =>
      cases hreq
      exact .opened (.inl rfl) hp (hbuy.trans_le hfill)
  · have hpos : 0 < p := flatEps_pos.trans hp
    rw [hs] at hreq ⊢
    cases s with
    | zero =>
      cases hreq
      exact .sell hpos h0 hfill
    | neg =>
      cases hreq
      exact .sell hpos h0 hfill
    | pos => cases hreq
  · have hneg : p < 0 := by linarith [flatEps_pos]
    rw [hs] at hreq ⊢
    cases s with
    | zero =>
      cases hreq
      exact .cover hneg h0 hfill
    | neg => cases hreq
    | pos =>
      cases hreq
      exact .cover hneg h0 hfill

/-- **One apply, one move.** A flat position may open, an opposite one is closed, and one that
stands where the signal wants it is held. -/
theorem exposure_step {symbol : String} {qty p₀ p p' : ℚ} {a : SignType × ℚ}
    (h : (exposure symbol qty p₀).step p a = some p') :
    Moved qty p (actionFor a.1 (positionSign p)) p' := by
  have hstep : fillOn (orderOn symbol qty a.1 p) a.2 p = some p' := h
  rw [orderOn_eq] at hstep
  cases horder : orderFor symbol (actionFor a.1 (positionSign p)) qty p with
  | none =>
    rw [horder] at hstep
    cases hstep
    exact .rest
  | some req =>
    rw [horder, fillOn] at hstep
    split at hstep
    · next hfill =>
      cases hstep
      exact moved_of_fill horder hfill.1 hfill.2
    · cases hstep

/-- What one apply keeps: a position within a bound that has room to open from float
noise. -/
theorem Moved.abs_le {qty p p' bound : ℚ} {action : IntendedAction} (h : Moved qty p action p')
    (hqty : qty + flatEps ≤ bound) (hp : |p| ≤ bound) : |p'| ≤ bound := by
  cases h with
  | rest => exact hp
  | opened _ hflat hmove =>
    have := abs_add_le p (p' - p)
    rw [add_sub_cancel] at this
    linarith
  | closed hlong hshort =>
    obtain h0 | h0 := le_total 0 p
    · obtain ⟨h1, h2⟩ := hlong h0
      rw [abs_of_nonneg h0] at hp
      rw [abs_of_nonneg h1]
      linarith
    · obtain ⟨h1, h2⟩ := hshort h0
      rw [abs_of_nonpos h0] at hp
      rw [abs_of_nonpos h2]
      linarith

/-- **The position stays within what it was and what the deployment trades**, whatever
the signals and the fills. -/
theorem exposure_bounded {symbol : String} {qty p₀ p : ℚ}
    (h : (exposure symbol qty p₀).Reach (fun _ _ => True) p) :
    |p| ≤ max |p₀| qty + flatEps := by
  refine h.invariant (I := fun p => |p| ≤ max |p₀| qty + flatEps) (fun p hp => ?_)
    fun p a p' hp _ hstep => (exposure_step hstep).abs_le ?_ hp
  · have hinit : p = p₀ := hp
    rw [hinit]
    exact (le_max_left _ _).trans (le_add_of_nonneg_right flatEps_pos.le)
  · exact add_le_add_left (le_max_right _ _) _

/-- An order that closes leaves the position on its side of zero. -/
theorem Moved.side {qty p p' : ℚ} {action : IntendedAction} (h : Moved qty p action p')
    (hclose : action = .sell ∨ action = .closeShort) : (0 ≤ p → 0 ≤ p') ∧ (p ≤ 0 → p' ≤ 0) := by
  cases h with
  | rest => exact ⟨id, id⟩
  | opened hopen =>
    obtain rfl | rfl := hclose
    · exact absurd hopen (by decide)
    · exact absurd hopen (by decide)
  | closed hlong hshort => exact ⟨fun h0 => (hlong h0).1, fun h0 => (hshort h0).2⟩

/-! ## Orders that fill -/

/-- A position at which the signal asks for nothing. -/
def AtRest (symbol : String) (qty : ℚ) (signal : SignType) (p : ℚ) : Prop :=
  positionSign p = signal ∧ intendedAction (signal : ℚ) p = .ok .hold ∧
    orderOn symbol qty signal p = .ok none

/-- A position that is on the side of its signal, or flat under a flat signal, is at rest: the
action is to hold, and there is no order to send. This is the diagonal of the table. -/
theorem atRest_of_sign {symbol : String} {qty p : ℚ} {signal : SignType}
    (h : positionSign p = signal) : AtRest symbol qty signal p := by
  have hact : actionFor signal (positionSign p) = .hold := by
    rw [h]
    cases signal with
    | zero => rfl
    | neg => rfl
    | pos => rfl
  refine ⟨h, ?_, ?_⟩
  · rw [intendedAction_eq, hact]
  · rw [orderOn_eq, hact]
    rfl

/-- A position at rest stays where it is. -/
theorem AtRest.stays {symbol : String} {qty p : ℚ} {signal : SignType}
    (h : AtRest symbol qty signal p) : filled symbol qty signal p = p := by
  unfold filled
  rw [h.2.2]

/-- A long or a short position, by how far it is on its side. -/
theorem positionSign_of_mul {p : ℚ} {s : SignType} (hs : s ≠ 0) (h : flatEps < s * p) :
    positionSign p = s := by
  have hpos := flatEps_pos
  cases s with
  | zero => exact absurd rfl hs
  | neg =>
    have hp : flatEps < -p := by simpa using h
    rw [positionSign_of_lt (lt_abs.mpr (.inr hp))]
    exact sign_neg (by linarith)
  | pos =>
    have hp : flatEps < p := by simpa using h
    rw [positionSign_of_lt (lt_abs.mpr (.inl hp))]
    exact sign_pos (by linarith)

/-- One on the right side of zero has that sign, when it is not float noise. -/
theorem positionSign_of_mul_pos {p : ℚ} {s : SignType} (h : 0 < s * p)
    (hp : positionSign p ≠ 0) : positionSign p = s := by
  rw [positionSign_of_lt (not_le.mp fun hle => hp (positionSign_eq_zero.mpr hle))]
  cases s with
  | zero => exact absurd h (by simp)
  | neg => exact sign_neg (by simpa using h)
  | pos => exact sign_pos (by simpa using h)

/-- An apply that asks for something moves the position by all of it. -/
theorem filled_of_request {symbol : String} {qty p : ℚ} {s : SignType} {req : OrderRequest ℚ}
    (h : requestFor symbol (actionFor s (positionSign p)) qty p = some req) (hpos : 0 < req.qty) :
    filled symbol qty s p = p + req.side.signed req.qty := by
  have horder : orderFor symbol (actionFor s (positionSign p)) qty p = some req := by
    rw [orderFor, h, Option.filter_some]
    exact if_pos (decide_eq_true hpos)
  unfold filled
  rw [orderOn_eq, horder]

/-- From float noise a signal opens its side. -/
theorem filled_of_flat {symbol : String} {qty p : ℚ} {s : SignType} (hqty : 0 < qty)
    (hs : s ≠ 0) (hp : positionSign p = 0) : filled symbol qty s p = p + s * qty := by
  cases s with
  | zero => exact absurd rfl hs
  | neg =>
    have hreq : requestFor symbol (actionFor .neg (positionSign p)) qty p
        = some { symbol, qty, side := .sell } := by rw [hp]; rfl
    rw [filled_of_request hreq hqty]
    show p + -qty = p + (-1 : ℚ) * qty
    rw [neg_one_mul]
  | pos =>
    have hreq : requestFor symbol (actionFor .pos (positionSign p)) qty p
        = some { symbol, qty, side := .buy } := by rw [hp]; rfl
    rw [filled_of_request hreq hqty]
    show p + qty = p + (1 : ℚ) * qty
    rw [one_mul]

/-- A position that the signal is against is closed at once. -/
theorem filled_of_against {symbol : String} {qty p : ℚ} {s : SignType}
    (hp : positionSign p ≠ 0) (hs : positionSign p ≠ s) : filled symbol qty s p = 0 := by
  obtain ⟨h, -⟩ | ⟨h, hlt⟩ | ⟨h, hlt⟩ := position_cases p
  · exact absurd h hp
  · have hpos : 0 < p := flatEps_pos.trans hlt
    have hreq : requestFor symbol (actionFor s (positionSign p)) qty p
        = some { symbol, qty := |p|, side := .sell } := by
      rw [h] at hs ⊢
      cases s with
      | zero => rfl
      | neg => rfl
      | pos => exact absurd rfl hs
    rw [filled_of_request hreq (abs_pos.mpr hpos.ne')]
    show p + -|p| = 0
    rw [abs_of_pos hpos, add_neg_cancel]
  · have hneg : p < 0 := hlt.trans (neg_lt_zero.mpr flatEps_pos)
    have hreq : requestFor symbol (actionFor s (positionSign p)) qty p
        = some { symbol, qty := |p|, side := .buy } := by
      rw [h] at hs ⊢
      cases s with
      | zero => rfl
      | neg => exact absurd rfl hs
      | pos => rfl
    rw [filled_of_request hreq (abs_pos.mpr hneg.ne)]
    show p + |p| = 0
    rw [abs_of_neg hneg, add_neg_cancel]

/-- A side, counted twice, is the long side. It lets a statement about a position on its own side
be read with the side multiplied out. -/
theorem signed_mul_self {s : SignType} (hs : s ≠ 0) : (s : ℚ) * s = 1 := by
  cases s with
  | zero => exact absurd rfl hs
  | neg => decide +kernel
  | pos => decide +kernel

/-- A flat position is at most a tolerance on the wrong side, of either side. The bound holds for
a flat signal too, where the product is zero. -/
theorem sign_mul_of_flat {p : ℚ} (hp : positionSign p = 0) (s : SignType) : -flatEps ≤ s * p := by
  have habs := abs_le.mp (positionSign_eq_zero.mp hp)
  cases s with
  | zero => simpa using flatEps_pos.le
  | neg => simpa using habs.2
  | pos => simpa using habs.1

/-- **Under one signal, with orders that fill, two applies are enough.** Float noise on
the other side may take two orders to leave, and a position on the other side takes one
to close. -/
theorem filled_settles (symbol : String) {qty : ℚ} (hqty : flatEps < qty) (s : SignType) (p : ℚ) :
    ∃ n ≤ 2, ∀ m, n ≤ m → AtRest symbol qty s ((filled symbol qty s)^[m] p) := by
  have hrest (n : ℕ) (hn : n ≤ 2) (h : positionSign ((filled symbol qty s)^[n] p) = s) :
      ∃ n ≤ 2, ∀ m, n ≤ m → AtRest symbol qty s ((filled symbol qty s)^[m] p) := by
    refine ⟨n, hn, fun m hm => ?_⟩
    obtain ⟨k, rfl⟩ := Nat.exists_eq_add_of_le' hm
    rw [Function.iterate_add_apply, Function.iterate_fixed (atRest_of_sign h).stays]
    exact atRest_of_sign h
  have hpos : 0 < qty := flatEps_pos.trans hqty
  have hgain (hs : s ≠ 0) (q : ℚ) : s * (q + s * qty) = s * q + qty := by
    rw [mul_add, ← mul_assoc, signed_mul_self hs, one_mul]
  by_cases hsame : positionSign p = s
  · exact hrest 0 (Nat.zero_le 2) hsame
  by_cases hflat : positionSign p = 0
  · have hs : s ≠ 0 := fun h => hsame (hflat.trans h.symm)
    have hone : filled symbol qty s p = p + s * qty := filled_of_flat hpos hs hflat
    have hnoise := sign_mul_of_flat hflat s
    by_cases hstill : positionSign (filled symbol qty s p) = 0
    · refine hrest 2 le_rfl ?_
      show positionSign (filled symbol qty s (filled symbol qty s p)) = s
      rw [filled_of_flat hpos hs hstill, hone]
      refine positionSign_of_mul hs ?_
      rw [hgain hs, hgain hs]
      linarith
    · refine hrest 1 one_le_two (positionSign_of_mul_pos ?_ hstill)
      rw [Function.iterate_one, hone, hgain hs]
      linarith
  · have hzero : filled symbol qty s p = 0 := filled_of_against hflat hsame
    have hnone : positionSign (0 : ℚ) = 0 :=
      positionSign_eq_zero.mpr (by rw [abs_zero]; exact flatEps_pos.le)
    by_cases hs : s = 0
    · refine hrest 1 one_le_two ?_
      rw [Function.iterate_one, hzero, hnone, hs]
    · refine hrest 2 le_rfl ?_
      show positionSign (filled symbol qty s (filled symbol qty s p)) = s
      rw [hzero, filled_of_flat hpos hs hnone]
      refine positionSign_of_mul hs ?_
      rw [hgain hs, mul_zero, zero_add]
      exact hqty

/-- **Exposure stays bounded and converges.** In every run from any position, whatever
the signals and the fills, the position is within the larger of what it was and what the
deployment trades, but for float noise; no order that closes changes its sign; and under
one signal, with orders that fill, it has the sign of the signal after two applies at
most, and every later apply holds. -/
theorem exposure_bounded_converges (symbol : String) (p₀ qty : ℚ) (hqty : flatEps < qty) :
    (∀ p, (exposure symbol qty p₀).Reach (fun _ _ => True) p →
      |p| ≤ max |p₀| qty + flatEps ∧
      ∀ (s : SignType) (fill p' : ℚ), (exposure symbol qty p₀).step p (s, fill) = some p' →
        intendedAction (s : ℚ) p = .ok .sell ∨ intendedAction (s : ℚ) p = .ok .closeShort →
        (0 ≤ p → 0 ≤ p') ∧ (p ≤ 0 → p' ≤ 0)) ∧
    ∀ s : SignType, ∃ n ≤ 2, ∀ m, n ≤ m →
      positionSign ((filled symbol qty s)^[m] p₀) = s ∧
      intendedAction (s : ℚ) ((filled symbol qty s)^[m] p₀) = .ok .hold := by
  refine ⟨fun p hp => ⟨exposure_bounded hp, fun s fill p' hstep hclose => ?_⟩, fun s => ?_⟩
  · refine (exposure_step hstep).side ?_
    rw [intendedAction_eq, Except.ok.injEq, Except.ok.injEq] at hclose
    exact hclose
  · obtain ⟨n, hn, h⟩ := filled_settles symbol hqty s p₀
    exact ⟨n, hn, fun m hm => ⟨(h m hm).1, (h m hm).2.1⟩⟩

/-- A deployment of one unit, from two units short. -/
theorem two_short_bounded_converges :
    flatEps < (1 : ℚ) ∧
    ((∀ p, (exposure "BTCUSDT" 1 (-2)).Reach (fun _ _ => True) p →
      |p| ≤ max |(-2 : ℚ)| 1 + flatEps ∧
      ∀ (s : SignType) (fill p' : ℚ), (exposure "BTCUSDT" 1 (-2)).step p (s, fill) = some p' →
        intendedAction (s : ℚ) p = .ok .sell ∨ intendedAction (s : ℚ) p = .ok .closeShort →
        (0 ≤ p → 0 ≤ p') ∧ (p ≤ 0 → p' ≤ 0)) ∧
    ∀ s : SignType, ∃ n ≤ 2, ∀ m, n ≤ m →
      positionSign ((filled "BTCUSDT" 1 s)^[m] (-2)) = s ∧
      intendedAction (s : ℚ) ((filled "BTCUSDT" 1 s)^[m] (-2)) = .ok .hold) :=
  ⟨by decide +kernel, exposure_bounded_converges "BTCUSDT" (-2) 1 (by decide +kernel)⟩

/-- Float noise on the other side takes both orders. -/
example : filled "BTCUSDT" (3 / 2000000000) .pos (-1 / 1000000000) = 1 / 2000000000 ∧
    filled "BTCUSDT" (3 / 2000000000) .pos (1 / 2000000000) = 2 / 1000000000 := by
  decide +kernel
