import QuantStrategies.Trade.LiveApply
import QuantStrategies.Trade.Stacking

/-!
# One due deployment of a tick

`ScheduleTickRunner._run_one` applies a due deployment, and applies it again a few
seconds later when that failed, until the budget of the pass is spent. A failure
whose reason requires an operator's fix ends it at once, and the deployment is
paused.

Each apply starts over, with a read of the position. What an earlier one left at
the venue is the question here. The tick goes on when it cannot rule out that an
order was placed and is still open: after an order that the venue did not
acknowledge, after a `create_order` that failed, and after an order whose poll a
refused key has ended (`apply_again_unacknowledged` and the cases beside it). It
does not go on after a cancel that failed, and apart from a refused poll every
order that was acknowledged in an earlier cycle is over or cancelled
(`applied_again_after`).
-/

variable {F : Type} [PyFloat F]

/-- `TickOutcome`. -/
inductive TickOutcome where
  | applied
  | paused
  | abandoned
  | stuck
deriving DecidableEq

/-- `TickResult`, of the one deployment. -/
structure TickResult (F : Type) where
  /-- How it went. -/
  outcome : TickOutcome
  /-- Which attempt it ended with. -/
  attempt : ℕ
  /-- What the last failure said. -/
  error : Option String := none
  /-- The position that the apply has read. -/
  positionQty : Option F := none
deriving DecidableEq

/-- The settings of `ScheduleTickRunner`. -/
structure TickPolicy (F : Type) where
  /-- How often a due deployment is applied in a pass. -/
  maxAttempts : ℕ
  /-- How long is waited before it is applied again, in seconds. -/
  retryBackoffS : F

omit [PyFloat F] in
/-- `_failed_order`, and the failure of an apply that raised: the message, and the
reason if there is one. -/
def applyFailure : Except Raised (ApplyReport F) → Option (String × Option OrderRejectReason)
  | .error e => some (e.message, e.reason)
  | .ok report =>
    if report.orderSuccess = some false then
      some (if report.message = "" then "order failed" else report.message, report.rejectReason)
    else none

/-- `_advance`: move the cursor on. -/
def advance (outcome : TickOutcome) (attempt : ℕ) (error : Option String)
    (positionQty : Option F) : ApplyProg F (TickResult F) := do
  let wrote : Except Raised Unit ← applyCall .insScheduleStatus
  match wrote with
  | .ok () => pure { outcome, attempt, error, positionQty }
  | .error e => pure { outcome := .stuck, attempt, error := some e.message, positionQty }

/-- `_auto_pause`: disable the deployment, and move the cursor on when that
cannot be written. -/
def autoPause (attempt : ℕ) (error : String) : ApplyProg F (TickResult F) := do
  let wrote : Except Raised Unit ← applyCall .writeDeployment
  match wrote with
  | .ok () => pure { outcome := .paused, attempt, error := some error }
  | .error e => advance .abandoned attempt (some s!"{error}; pause failed: {e.message}") none

/-- The loop of `_run_one`, with the number of the attempt and of those left. -/
def runOneLoop (tick : TickPolicy F) (policy : OrderRetryPolicy F) :
    (attempt left : ℕ) → ApplyProg F (TickResult F)
  | _, 0 => .throw (.other "cannot access local variable 'attempt'")
  | attempt, left + 1 => do
    let applied ← (applyDeployment policy).attempt
    match applyFailure applied with
    | none =>
      advance .applied attempt none (applied.toOption.map (·.positionQty))
    | some (error, reason) =>
      if reason.any (·.requiresOperatorFix) || left = 0 then autoPause attempt error
      else do
        Prog.inl (venueCall (.sleep tick.retryBackoffS))
        runOneLoop tick policy (attempt + 1) left

/-- `_run_one`. -/
def runOne (tick : TickPolicy F) (policy : OrderRetryPolicy F) : ApplyProg F (TickResult F) :=
  runOneLoop tick policy 1 tick.maxAttempts

/-! ## What a cycle leaves behind -/

/-- The cycle failed, and with no reason that requires an operator's fix. -/
def MayBeRetried (x : Except Raised (ApplyReport F)) : Prop :=
  ∃ failure, applyFailure x = some failure ∧ failure.2.any (·.requiresOperatorFix) = false

/-- What the end of a cycle says of an acknowledged order that it did not cancel:
that the venue rejected it, or refused to be asked about it for a reason that
requires no operator's fix; or the cycle ended in an exception that is no broker
error. -/
def FateLeft (id : String) : Except Raised (ApplyReport F) → Prop
  | .error e => e.isConnectionError = false
  | .ok report => ∃ reason, report.rejectReason = some reason ∧
      reason.requiresOperatorFix = false ∧
      (reason = .venueRejected ∨ report.vendorOrderId = some id)

/-- A cycle that another one may follow: in its record no cancel was refused, and
no order was left resting but one whose fate is left so. -/
structure CycleRetried (policy : OrderRetryPolicy F) (t : List (ApplyEvent F))
    (x : Except Raised (ApplyReport F)) : Prop where
  /-- It is a cycle: an apply with its record and what it came to. -/
  run : (applyDeployment policy).Runs t x
  /-- What it came to is of the kind that is tried again. -/
  retried : MayBeRetried x
  /-- Its own orders are submitted while none of them rests. -/
  neverStacks : NeverStacks [] (venueEvents t)
  /-- No cancel was refused in it, as that would have ended the tick. -/
  noRefusedCancel : ∀ e ∈ venueEvents t, ∀ cls text, cancelRefused e ≠ some (.ccxt cls text)
  /-- An order that it leaves is one that could not be cancelled for want of an id, or whose
  fate nobody knows. -/
  fate : ∀ id ∈ resting [] (venueEvents t), FateLeft id x

variable {tick : TickPolicy F} {policy : OrderRetryPolicy F} {t : List (ApplyEvent F)}

omit [PyFloat F] in
/-- A reported cycle that may be retried has a failed result, with no reason that
requires an operator's fix. -/
theorem MayBeRetried.result {prepared : Prepared F} {o : OrderRetryResult F}
    (h : MayBeRetried (.ok (applyReport prepared o))) :
    ∃ final, o.result = some final ∧ final.success = false ∧
      ∀ reason, final.reason = some reason → reason.requiresOperatorFix = false := by
  obtain ⟨failure, hfail, hfix⟩ := h
  unfold applyFailure at hfail
  split at hfail
  · cases ‹Except.ok _ = Except.error _›
  · rename_i hreport
    obtain rfl := Except.ok.inj hreport
    split at hfail
    · rename_i hs
      obtain rfl := Option.some.inj hfail
      change (o.result.map (·.success)) = some false at hs
      change ((o.result.bind (·.reason)).any _) = false at hfix
      cases hr : o.result with
      | none =>
        rw [hr] at hs
        cases hs
      | some final =>
        rw [hr] at hs hfix
        refine ⟨final, rfl, Option.some.inj hs, fun reason hreason => ?_⟩
        change final.reason.any _ = false at hfix
        rw [hreason] at hfix
        exact hfix
    · cases hfail

/-- **A cycle that may be retried** lost no cancel, and left no acknowledged
order behind but one that was rejected or refused. -/
theorem cycleRetried {x : Except Raised (ApplyReport F)}
    (h : (applyDeployment policy).Runs t x) (hx : MayBeRetried x) : CycleRetried policy t x := by
  obtain ⟨hv, e, rfl⟩ | ⟨prepared, y, hrun, rfl⟩ := applyDeployment_runs h
  · refine ⟨h, hx, ?_, ?_, ?_⟩
    · rw [hv]; trivial
    · rw [hv]; exact fun e he => (by cases he)
    · rw [hv]; exact fun id hid => (by cases hid)
  · have hok := executeLoop_ok hrun
    refine ⟨h, hx, hok.neverStacks, ?_, ?_⟩
    · intro e he cls text hrefused
      obtain ⟨before, after, ht⟩ := List.append_of_mem he
      obtain ⟨-, o, final, rfl, hfinal, -, hr⟩ := hok.cancelFails before e after cls text ht hrefused
      obtain ⟨final', hfinal', -, hfix⟩ := hx.result
      obtain rfl := Option.some.inj (hfinal.symm.trans hfinal')
      cases hfix _ hr
    · intro id hid
      have hleaves := hok.leaves id hid
      cases y with
      | error e => exact hleaves
      | ok o =>
        obtain ⟨final, hfinal, hleft⟩ := hleaves
        obtain ⟨final', hfinal', hs, hfix⟩ := hx.result
        obtain rfl := Option.some.inj (hfinal.symm.trans hfinal')
        rcases hleft with h | ⟨reason, hr, hcase⟩
        · cases hs.symm.trans h
        · refine ⟨reason, ?_, hfix reason hr, ?_⟩
          · show o.result.bind (·.reason) = some reason
            rw [hfinal]
            exact hr
          · rcases hcase with h | rfl | h
            · exact .inl h
            · cases hfix _ hr
            · refine .inr ?_
              show o.result.bind (·.vendorOrderId) = some id
              rw [hfinal]
              exact h

/-! ## What the tick does after a cycle -/

/-- How the tick ends after its last cycle: it moves the cursor on when nothing
failed, and otherwise asks for the deployment to be paused, and for nothing else
if that is written. -/
def Closing (x : Except Raised (ApplyReport F)) (closing : List (ApplyEvent F))
    (r : Except Raised (TickResult F)) : Prop :=
  match applyFailure x with
  | none => ∃ answer, closing = [⟨.inr .insScheduleStatus, answer⟩]
  | some _ => ∃ (answer : Except Raised Unit) (rest : List (ApplyEvent F)),
      closing = ⟨.inr .writeDeployment, answer⟩ :: rest ∧ venueEvents rest = [] ∧
      (answer = .ok () → rest = [] ∧ ∃ result, r = .ok result ∧ result.outcome = .paused)

omit [PyFloat F] in
/-- Moving the cursor is one write, whatever is answered. -/
theorem advance_runs {outcome : TickOutcome} {attempt : ℕ} {error : Option String}
    {positionQty : Option F} {r : Except Raised (TickResult F)}
    (h : (advance outcome attempt error positionQty).Runs t r) :
    ∃ answer, t = [⟨.inr .insScheduleStatus, answer⟩] := by
  obtain ⟨answer, t', rfl, h'⟩ := Prog.runs_call_bind.mp h
  refine ⟨answer, ?_⟩
  split at h'
  · rw [(Prog.runs_pure.mp h').1]
  · rw [(Prog.runs_pure.mp h').1]

omit [PyFloat F] in
/-- Pausing a deployment after a failure closes the tick: the writes that it makes say nothing to
the venue. -/
theorem autoPause_runs {x : Except Raised (ApplyReport F)} {attempt : ℕ} {error : String}
    {failure : String × Option OrderRejectReason} {r : Except Raised (TickResult F)}
    (hx : applyFailure x = some failure) (h : (autoPause attempt error).Runs t r) :
    Closing x t r := by
  obtain ⟨answer, rest, rfl, h'⟩ := Prog.runs_call_bind.mp h
  rw [Closing, hx]
  refine ⟨answer, rest, rfl, ?_⟩
  split at h'
  · obtain ⟨rfl, rfl⟩ := Prog.runs_pure.mp h'
    exact ⟨rfl, fun _ => ⟨rfl, _, rfl, rfl⟩⟩
  · obtain ⟨wrote, rfl⟩ := advance_runs h'
    exact ⟨rfl, fun h => by cases h⟩

/-- The record of the loop: cycles that may be retried, each with a pause after
it, then the last cycle, and how the tick ends. -/
def TickRecord (tick : TickPolicy F) (policy : OrderRetryPolicy F) (left : ℕ)
    (t : List (ApplyEvent F)) (r : Except Raised (TickResult F)) : Prop :=
  ∃ (cycles : List (List (ApplyEvent F) × Except Raised (ApplyReport F)))
    (last closing : List (ApplyEvent F)) (x : Except Raised (ApplyReport F)),
    t = (cycles.map fun c => c.1 ++ [⟨.inl (.sleep tick.retryBackoffS), ()⟩]).flatten ++
      (last ++ closing) ∧
    cycles.length < left ∧
    (∀ c ∈ cycles, CycleRetried policy c.1 c.2) ∧
    (applyDeployment policy).Runs last x ∧ Closing x closing r

/-- **The record of a tick** is cut into its cycles, each of which but the last may be followed by
another, and the closing writes. The induction is on the attempts that are left. -/
theorem runOneLoop_record {attempt left : ℕ} {r : Except Raised (TickResult F)} (hleft : 0 < left)
    (h : (runOneLoop tick policy attempt left).Runs t r) : TickRecord tick policy left t r := by
  induction left generalizing attempt t with
  | zero => exact absurd hleft (Nat.lt_irrefl 0)
  | succ left ih =>
    obtain ⟨x, t₁, t₂, hx, h₁, rfl⟩ := Prog.runs_attempt_bind.mp h
    split at h₁
    · rename_i hnone
      obtain ⟨answer, rfl⟩ := advance_runs h₁
      refine ⟨[], t₁, _, x, rfl, Nat.zero_lt_succ left, fun c hc => (by cases hc), hx, ?_⟩
      rw [Closing, hnone]
      exact ⟨answer, rfl⟩
    · rename_i error reason hsome
      split at h₁
      · exact ⟨[], t₁, t₂, x, rfl, Nat.zero_lt_succ left, fun c hc => (by cases hc), hx,
          autoPause_runs hsome h₁⟩
      · rename_i hcont
        obtain ⟨hfix, hne⟩ : reason.any (·.requiresOperatorFix) = false ∧ left ≠ 0 := by
          simpa using hcont
        obtain ⟨_, t₃, rfl, h₂⟩ := Prog.runs_call_bind.mp h₁
        obtain ⟨cycles, last, closing, y, rfl, hlen, hcycles, hlast, hclosing⟩ :=
          ih (Nat.pos_of_ne_zero hne) h₂
        refine ⟨(t₁, x) :: cycles, last, closing, y, ?_, Nat.succ_lt_succ hlen, ?_, hlast, hclosing⟩
        · simp only [List.map_cons, List.flatten_cons, List.append_assoc, List.cons_append,
            List.nil_append]
          rfl
        · rintro c hc
          rcases List.mem_cons.mp hc with rfl | hc
          · exact cycleRetried hx ⟨_, hsome, hfix⟩
          · exact hcycles c hc

/-- **When a deployment is applied again.** In every run of `_run_one`, whatever
the venue does and whatever the preparations and the writes answer, the cycles
that another one follows

* failed, with no reason that requires an operator's fix;
* submitted an order only when none of theirs rested, and had no cancel refused;
* left no acknowledged order behind that was not cancelled, except one that the
  venue rejected, one whose poll was refused for a reason that requires no
  operator's fix, and one after which the cycle ended in an exception that is no
  broker error.

The last cycle either went through, and the cursor moves on, or the pause of the
deployment is written, as it is whenever a cancel was refused. -/
theorem applied_again_after {r : Except Raised (TickResult F)}
    (h : (runOne tick policy).Runs t r) :
    tick.maxAttempts = 0 ∧ t = [] ∨
    ∃ (cycles : List (List (ApplyEvent F) × Except Raised (ApplyReport F)))
      (last closing : List (ApplyEvent F)) (x : Except Raised (ApplyReport F)),
      t = (cycles.map fun c => c.1 ++ [⟨.inl (.sleep tick.retryBackoffS), ()⟩]).flatten ++
        (last ++ closing) ∧
      cycles.length < tick.maxAttempts ∧
      (∀ c ∈ cycles, CycleRetried policy c.1 c.2) ∧
      (applyDeployment policy).Runs last x ∧ Closing x closing r ∧
      ∀ e ∈ venueEvents last, ∀ cls text, cancelRefused e = some (.ccxt cls text) →
        applyFailure x ≠ none := by
  cases hmax : tick.maxAttempts with
  | zero =>
    rw [runOne, hmax] at h
    exact .inl ⟨rfl, (Prog.runs_throw.mp h).1⟩
  | succ left =>
    rw [runOne, hmax] at h
    obtain ⟨cycles, last, closing, x, ht, hlen, hcycles, hlast, hclosing⟩ :=
      runOneLoop_record (Nat.zero_lt_succ left) h
    refine .inr ⟨cycles, last, closing, x, ht, hlen, hcycles, hlast, hclosing, ?_⟩
    intro e he cls text hrefused
    obtain ⟨hv, -, -⟩ | ⟨prepared, y, hrun, rfl⟩ := applyDeployment_runs hlast
    · rw [hv] at he
      cases he
    · obtain ⟨before, after, ht'⟩ := List.append_of_mem he
      obtain ⟨-, o, final, rfl, hfinal, hs, -⟩ :=
        (executeLoop_ok hrun).cancelFails before e after cls text ht' hrefused
      show (if o.result.map (·.success) = some false then _ else none) ≠ none
      rw [hfinal, Option.map_some, if_pos (congrArg some hs)]
      exact Option.some_ne_none _

/-! ## Applied again while an order's fate is unknown -/

/-- The orders whose fate a record leaves unknown, after one more event, each by
its id if the venue acknowledged one. An order is known to be over once it was
cancelled or seen in a terminal state, and was never placed when the venue
refused it. -/
def unknownAfter (orders : List (Option String)) : VenueEvent F → List (Option String)
  | ⟨.createOrder .., .ok order⟩ => order.acknowledgedId :: orders
  | ⟨.createOrder .., .error (.ccxt .base _)⟩ | ⟨.createOrder .., .error (.other _)⟩ =>
    none :: orders
  | ⟨.cancelOrder id _, .ok _⟩ => orders.filter (· != some id)
  | ⟨.fetchOrder id _, .ok order⟩ =>
    if (parseTerminal order (some id)).isSome then orders.filter (· != some id) else orders
  | _ => orders

/-- Every apply of the record starts with the fate of every order known. -/
def fatesKnown : List (Option String) → List (ApplyEvent F) → Bool
  | _, [] => true
  | orders, ⟨.inr .prepare, _⟩ :: t => orders.isEmpty && fatesKnown orders t
  | orders, ⟨.inl c, x⟩ :: t => fatesKnown (unknownAfter orders ⟨c, x⟩) t
  | orders, _ :: t => fatesKnown orders t

/-- How a venue answers the first `create_order` and the polls of its order. It
fills every later order, and the position reads flat. -/
structure FirstOrder where
  /-- The answer to the first `create_order`. -/
  created : Except VenueRaise (CcxtOrder ℚ)
  /-- The answer to each poll of that order. -/
  polled : Except VenueRaise (CcxtOrder ℚ)

/-- The surroundings of a tick on such a venue, with all preparations and writes
going through. -/
def FirstOrder.world (first : FirstOrder) (past : List (ApplyEvent ℚ)) :
    (c : VenueCall ℚ ⊕ ApplyCall ℚ) → Sum.elim VenueCall.Answer ApplyCall.Answer c
  | .inl (.createOrder ..) =>
    if (submissions (venueEvents past)).isEmpty then first.created
    else .ok ⟨some "2", none, none, none, none⟩
  | .inl (.fetchOrder id _) =>
    if id = "1" then first.polled else .ok ⟨some id, some "closed", some 1, some 50000, none⟩
  | .inl c => losesFirstOrder (venueEvents past) c
  | .inr .prepare => .ok ⟨linearAdapter, "BTCUSDT", 1, 1⟩
  | .inr .productCcy => some "USDT"
  | .inr (.setting _) => .ok "USDT"
  | .inr (.insExecutionEvent _) | .inr (.insTransaction _) | .inr .writeDeployment
  | .inr .insScheduleStatus => .ok ()

/-- An order that the venue takes without naming it. -/
def unacknowledged : FirstOrder :=
  ⟨.ok ⟨none, none, none, none, none⟩, .error (.ccxt .base "")⟩

/-- An order whose submission ends in a dropped connection. -/
def connectionLost : FirstOrder :=
  ⟨.error (.ccxt .base "connection reset by peer"), .error (.ccxt .base "")⟩

/-- An order that may not be asked about, as its key is refused from then on. -/
def pollRefused : FirstOrder :=
  ⟨.ok ⟨some "1", none, none, none, none⟩, .error (.ccxt .authentication "Invalid Api-Key")⟩

/-- The tick of a deployment on such a venue. -/
def FirstOrder.pass (first : FirstOrder) : List (ApplyEvent ℚ) × Except Raised (TickResult ℚ) :=
  (runOne ⟨3, 5⟩ ⟨3, 5⟩).play first.world []

/-- The deployment is not paused: it is applied again while the fate of its first
order is unknown, and a second order goes out. -/
def FirstOrder.AppliedAgain (first : FirstOrder) : Prop :=
  fatesKnown [] first.pass.1 = false ∧
  submissions (venueEvents first.pass.1) = [("BTCUSDT", "buy", 1), ("BTCUSDT", "buy", 1)] ∧
  first.pass.2 = .ok { outcome := .applied, attempt := 2, positionQty := some 0 }

instance (first : FirstOrder) : Decidable first.AppliedAgain :=
  inferInstanceAs (Decidable (_ ∧ _ ∧ _))

/-- So it goes on each of the three venues. -/
theorem applied_again_unknown :
    unacknowledged.AppliedAgain ∧ connectionLost.AppliedAgain ∧ pollRefused.AppliedAgain := by
  decide +kernel

/-- The pause of a deployment is written. -/
def pauseWritten (t : List (ApplyEvent F)) : Bool :=
  t.any fun e => match e.1 with
    | .inr .writeDeployment => true
    | _ => false

/-- The run in which the venue does not acknowledge the first order has a cycle that another
one follows, and it is one that may be retried: the deployment is prepared twice, and its pause
is not written. -/
theorem unacknowledged_applied_again :
    ∃ cycles : List (List (ApplyEvent ℚ) × Except Raised (ApplyReport ℚ)),
      cycles ≠ [] ∧ cycles.length < 3 ∧ ∀ c ∈ cycles, CycleRetried ⟨3, 5⟩ c.1 c.2 := by
  obtain ⟨h, -⟩ | ⟨cycles, last, closing, x, ht, hlen, hcycles, hlast, hclosing, -⟩ :=
    applied_again_after (Prog.play_runs unacknowledged.world (runOne ⟨3, 5⟩ ⟨3, 5⟩) [])
  · cases h
  refine ⟨cycles, fun hnil => ?_, hlen, hcycles⟩
  have htwice : preparations unacknowledged.pass.1 = 2 := by decide +kernel
  have hpause : pauseWritten unacknowledged.pass.1 = false := by decide +kernel
  rw [hnil] at ht
  change unacknowledged.pass.1 = last ++ closing at ht
  rw [ht, preparations, List.countP_append, ← preparations, ← preparations,
    applyDeployment_preparations hlast] at htwice
  rw [ht, pauseWritten, List.any_append, ← pauseWritten, ← pauseWritten] at hpause
  unfold Closing at hclosing
  split at hclosing
  · obtain ⟨answer, rfl⟩ := hclosing
    cases htwice
  · obtain ⟨answer, rest, rfl, -⟩ := hclosing
    cases (Bool.or_eq_false_iff.mp hpause).2
