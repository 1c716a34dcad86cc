import QuantStrategies.Trade.Adapter

/-!
# The order executor

`OrderRetryExecutor.execute` places the order that a signal and the live
position call for, and tries again what failed for no reason anybody could name.
An order that may still be open is cancelled before the next one is placed, and a
cancel that fails ends the run.

The record of a run is cut into its attempts. What one attempt does is said once
(`AttemptRun`), and each of the executor's promises is read off it: no attempt
that is followed by another leaves an order behind that the venue acknowledged
and did not cancel.

An attempt begins with a read of the position, so a signal is never applied to a position
that an earlier attempt has changed. What the venue answers to the read is taken at its
word: the executor cannot know of a fill that the venue does not report.
-/

variable {F : Type} [PyFloat F]

/-! ## The program -/

/-- What follows the placing of an order: whether to try again, and the cancel
that this may take. -/
def CcxtAdapter.settle (a : CcxtAdapter F) (symbol : String) (action : IntendedAction)
    (positionQty : F) (result : OrderResult F) : VenueProg F (ApplyAttempt F × Bool) :=
  if result.success then pure (⟨action, positionQty, some result⟩, false)
  else if !isRetryable result then pure (⟨action, positionQty, some result⟩, false)
  else
    match if isUnconfirmed result then result.vendorOrderId.filter (· != "") else none with
    | none => pure (⟨action, positionQty, some result⟩, true)
    | some vendorOrderId => do
      let cancel ← a.cancelOrder vendorOrderId symbol
      if cancel.success then pure (⟨action, positionQty, some result⟩, true)
      else
        pure (⟨action, positionQty, some { result with reason := some .cancelFailed }⟩, false)

/-- The body of the loop of `execute`: one attempt, with the key profile that it
leaves and whether the loop may go on. -/
def CcxtAdapter.attempt (a : CcxtAdapter F) (symbol : String) (signal qty : F) :
    VenueProg F (Option KeyProfile × ApplyAttempt F × Bool) := do
  let positionQty ← a.getPositionQty symbol
  let action ← Prog.ofExcept (intendedAction signal positionQty)
  match orderFor symbol action qty positionQty with
  | none => pure (a.keyProfile, ⟨action, positionQty, none⟩, false)
  | some req => do
    let placed ← a.placeOrder req
    let settled ← a.settle symbol action positionQty placed.2
    pure (placed.1, settled)

/-- `_outcome`, after the attempts, of which `last` is the last one. -/
def outcome (policy : OrderRetryPolicy F) (last : ApplyAttempt F)
    (attempts : List (ApplyAttempt F)) : OrderRetryResult F where
  action := last.action
  positionQty := last.positionQty
  result := last.result
  attempts := attempts
  maxAttempts := policy.maxAttempts
  permanentFailure :=
    last.result.any fun result =>
      !result.success && attempts.length = 1 && !isRetryable result

/-- The loop of `execute`, with the attempts made so far and the number of those
that are left. -/
def executeLoop (policy : OrderRetryPolicy F) (a : CcxtAdapter F) (symbol : String)
    (signal qty : F) : List (ApplyAttempt F) → ℕ → VenueProg F (OrderRetryResult F)
  | _, 0 => .throw (.assertion "unreachable — loop always returns")
  | attempts, left + 1 => do
    let made ← a.attempt symbol signal qty
    if !made.2.2 || left = 0 then
      pure (outcome policy made.2.1 (attempts ++ [made.2.1]))
    else do
      venueCall (.sleep policy.backoffS)
      executeLoop policy { a with keyProfile := made.1 } symbol signal qty
        (attempts ++ [made.2.1]) left

/-- `OrderRetryExecutor.execute`. -/
def execute (policy : OrderRetryPolicy F) (a : CcxtAdapter F) (symbol : String)
    (signal qty : F) : VenueProg F (OrderRetryResult F) :=
  executeLoop policy a symbol signal qty [] policy.maxAttempts

/-! ## What one attempt does -/

variable {s : CcxtSession} {a : CcxtAdapter F} {symbol : String} {signal qty : F}
  {t : List (VenueEvent F)}

/-- The gateway turns ccxt's exceptions, and no others, into broker errors. -/
theorem callError_isConnectionError (phase : String) (e : VenueRaise) :
    (s.callError phase e).isConnectionError = true ↔ ∃ cls text, e = .ccxt cls text := by
  cases e with
  | ccxt cls text =>
    refine ⟨fun _ => ⟨cls, text, rfl⟩, fun _ => ?_⟩
    cases cls <;> rfl
  | other text => exact ⟨fun h => Bool.noConfusion h, fun ⟨_, _, h⟩ => by cases h⟩

omit [PyFloat F] in
/-- A cancel is one call. It succeeds when the venue answers, fails on one of
ccxt's exceptions, and passes any other on. -/
theorem cancelOrder_runs {id : String} {r : Except Raised (OrderResult F)}
    (h : (a.cancelOrder id symbol).Runs t r) :
    (∃ raw result, t = [⟨.cancelOrder id symbol, .ok raw⟩] ∧ r = .ok result ∧
      result.success = true) ∨
    (∃ cls text result, t = [⟨.cancelOrder id symbol, .error (.ccxt cls text)⟩] ∧
      r = .ok result ∧ result.success = false) ∨
    ∃ text, t = [⟨.cancelOrder id symbol, .error (.other text)⟩] ∧ r = .error (.other text) := by
  obtain ⟨canceled, t₁, t₂, h₁, h₂, rfl⟩ := Prog.runs_attempt_bind.mp h
  obtain ⟨answer, t', rfl, h'⟩ := Prog.runs_call_bind.mp h₁
  obtain ⟨rfl, rfl⟩ := Prog.runs_ofExcept.mp h'
  cases answer with
  | ok raw =>
    obtain ⟨rfl, rfl⟩ := Prog.runs_pure.mp h₂
    exact .inl ⟨raw, _, rfl, rfl, rfl⟩
  | error e =>
    change Prog.Runs (if _ then _ else _) _ _ at h₂
    cases e with
    | ccxt cls text =>
      rw [if_pos ((callError_isConnectionError _ _).mpr ⟨cls, text, rfl⟩)] at h₂
      obtain ⟨rfl, rfl⟩ := Prog.runs_pure.mp h₂
      exact .inr (.inl ⟨cls, text, _, rfl, rfl, rfl⟩)
    | other text =>
      obtain ⟨rfl, rfl⟩ := Prog.runs_throw.mp h₂
      exact .inr (.inr ⟨text, rfl, rfl⟩)

/-- What follows the placing of an order, case by case. -/
inductive Settled (symbol : String) (action : IntendedAction) (positionQty : F)
    (result : OrderResult F) :
    List (VenueEvent F) → Except Raised (ApplyAttempt F × Bool) → Prop where
  | final (h : isRetryable result = false) :
    Settled symbol action positionQty result [] (.ok (⟨action, positionQty, some result⟩, false))
  | again (h : isRetryable result = true)
      (hid : ∀ id, isUnconfirmed result = true → result.vendorOrderId = some id → id = "") :
    Settled symbol action positionQty result [] (.ok (⟨action, positionQty, some result⟩, true))
  | canceled {id : String} (raw : CcxtOrder F) (h : isRetryable result = true)
      (hid : result.vendorOrderId = some id) :
    Settled symbol action positionQty result [⟨.cancelOrder id symbol, .ok raw⟩]
      (.ok (⟨action, positionQty, some result⟩, true))
  | cancelFailed {id : String} (cls : CcxtClass) (text : String) (h : isRetryable result = true)
      (hid : result.vendorOrderId = some id) :
    Settled symbol action positionQty result
      [⟨.cancelOrder id symbol, .error (.ccxt cls text)⟩]
      (.ok (⟨action, positionQty, some { result with reason := some .cancelFailed }⟩, false))
  | cancelRaised {id : String} (text : String) (hid : result.vendorOrderId = some id) :
    Settled symbol action positionQty result
      [⟨.cancelOrder id symbol, .error (.other text)⟩] (.error (.other text))

omit [PyFloat F] in
/-- **What settling an attempt does**: an order that may be open is cancelled, once and under its
own id, and any other is left alone. -/
theorem settle_runs {action : IntendedAction} {positionQty : F} {result : OrderResult F}
    {r : Except Raised (ApplyAttempt F × Bool)}
    (h : (a.settle symbol action positionQty result).Runs t r) :
    Settled symbol action positionQty result t r := by
  unfold CcxtAdapter.settle at h
  split at h
  · rename_i hs
    obtain ⟨rfl, rfl⟩ := Prog.runs_pure.mp h
    exact .final (by rw [isRetryable, if_pos hs])
  · split at h
    · rename_i hr
      obtain ⟨rfl, rfl⟩ := Prog.runs_pure.mp h
      exact .final (by simpa using hr)
    · rename_i hr
      have hretry : isRetryable result = true := by simpa using hr
      split at h
      · rename_i hid
        obtain ⟨rfl, rfl⟩ := Prog.runs_pure.mp h
        refine .again hretry fun id hu hv => ?_
        rw [if_pos hu, hv] at hid
        simpa using hid
      · rename_i id hid
        have hv : result.vendorOrderId = some id := by
          split at hid
          · exact (Option.filter_eq_some_iff.mp hid).1
          · cases hid
        obtain ⟨e, he, rfl⟩ | ⟨cancel, t₁, t₂, h₁, h₂, rfl⟩ := Prog.runs_bind.mp h
        · obtain ⟨_, _, _, h', _⟩ | ⟨_, _, _, _, h', _⟩ | ⟨text, rfl, h'⟩ := cancelOrder_runs he
          · cases h'
          · cases h'
          · cases h'
            exact .cancelRaised text hv
        · obtain ⟨raw, _, rfl, h', hc⟩ | ⟨cls, text, _, rfl, h', hc⟩ | ⟨_, _, h'⟩ :=
            cancelOrder_runs h₁
          · obtain rfl := Except.ok.inj h'
            rw [if_pos hc] at h₂
            obtain ⟨rfl, rfl⟩ := Prog.runs_pure.mp h₂
            exact .canceled raw hretry hv
          · obtain rfl := Except.ok.inj h'
            rw [if_neg (by rw [hc]; exact Bool.false_ne_true)] at h₂
            obtain ⟨rfl, rfl⟩ := Prog.runs_pure.mp h₂
            exact .cancelFailed cls text hretry hv
          · cases h'

/-- What an attempt does, case by case: up to where it raises, or through. -/
inductive AttemptRun (a : CcxtAdapter F) (symbol : String) (signal qty : F) :
    List (VenueEvent F) → Except Raised (Option KeyProfile × ApplyAttempt F × Bool) → Prop where
  | unread {read : List (VenueEvent F)} {e : Raised}
      (hread : (a.getPositionQty symbol).Runs read (.error e)) :
    AttemptRun a symbol signal qty read (.error e)
  | undecided {read : List (VenueEvent F)} {positionQty : F} {e : Raised}
      (hread : (a.getPositionQty symbol).Runs read (.ok positionQty))
      (haction : intendedAction signal positionQty = .error e) :
    AttemptRun a symbol signal qty read (.error e)
  | noOrder {read : List (VenueEvent F)} {positionQty : F} {action : IntendedAction}
      (hread : (a.getPositionQty symbol).Runs read (.ok positionQty))
      (haction : intendedAction signal positionQty = .ok action)
      (horder : orderFor symbol action qty positionQty = none) :
    AttemptRun a symbol signal qty read
      (.ok (a.keyProfile, ⟨action, positionQty, none⟩, false))
  | unplaced {read placed : List (VenueEvent F)} {positionQty : F} {action : IntendedAction}
      {req : OrderRequest F} {e : Raised}
      (hread : (a.getPositionQty symbol).Runs read (.ok positionQty))
      (haction : intendedAction signal positionQty = .ok action)
      (horder : orderFor symbol action qty positionQty = some req)
      (hplaced : (a.placeOrder req).Runs placed (.error e)) :
    AttemptRun a symbol signal qty (read ++ placed) (.error e)
  | placed {read placed settled : List (VenueEvent F)} {positionQty : F}
      {action : IntendedAction} {req : OrderRequest F} {profile : Option KeyProfile}
      {result : OrderResult F} {r : Except Raised (ApplyAttempt F × Bool)}
      (hread : (a.getPositionQty symbol).Runs read (.ok positionQty))
      (haction : intendedAction signal positionQty = .ok action)
      (horder : orderFor symbol action qty positionQty = some req)
      (hplaced : (a.placeOrder req).Runs placed (.ok (profile, result)))
      (hsettled : Settled symbol action positionQty result settled r) :
    AttemptRun a symbol signal qty (read ++ (placed ++ settled)) (r.map (Prod.mk profile))

/-- **What one attempt does.** The position is read, the action is derived from it, and an order
is submitted and followed up only where the action asks for one. -/
theorem attempt_runs {r : Except Raised (Option KeyProfile × ApplyAttempt F × Bool)}
    (h : (a.attempt symbol signal qty).Runs t r) : AttemptRun a symbol signal qty t r := by
  obtain ⟨e, he, rfl⟩ | ⟨positionQty, read, t₁, hread, h₁, rfl⟩ := Prog.runs_bind.mp h
  · exact .unread he
  obtain ⟨e, he, rfl⟩ | ⟨action, t₂, t₃, ha, h₂, rfl⟩ := Prog.runs_bind.mp h₁
  · obtain ⟨rfl, haction⟩ := Prog.runs_ofExcept.mp he
    rw [List.append_nil]
    exact .undecided hread haction.symm
  obtain ⟨rfl, haction⟩ := Prog.runs_ofExcept.mp ha
  rw [List.nil_append]
  split at h₂
  · rename_i horder
    obtain ⟨rfl, rfl⟩ := Prog.runs_pure.mp h₂
    rw [List.append_nil]
    exact .noOrder hread haction.symm horder
  · rename_i req horder
    obtain ⟨e, he, rfl⟩ | ⟨placed, t₄, t₅, hplaced, h₃, rfl⟩ := Prog.runs_bind.mp h₂
    · exact .unplaced hread haction.symm horder he
    obtain ⟨e, he, rfl⟩ | ⟨settled, t₆, t₇, hsettled, h₄, rfl⟩ := Prog.runs_bind.mp h₃
    · exact .placed hread haction.symm horder hplaced (settle_runs he)
    · obtain ⟨rfl, rfl⟩ := Prog.runs_pure.mp h₄
      rw [List.append_nil]
      exact .placed hread haction.symm horder hplaced (settle_runs hsettled)
