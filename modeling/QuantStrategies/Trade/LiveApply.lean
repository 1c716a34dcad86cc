import QuantStrategies.Trade.Executor

/-!
# One live apply

`TradeService.apply_deployment`: the deployment, its signal and a connected
session are prepared, the executor runs, and what it did is written down. The
writes are best effort, and the alert that goes out after a failure swallows its
own errors, so that nothing is raised once the executor is through.

The preparation submits nothing to the venue, and is one call here, answered by
what it prepared or by what it raised: the kill switch, a credential that cannot
be read, a signal that cannot be computed, a broker that refuses the session.

Which rows are written is not part of what is promised of the orders, and the orders are not
part of what is promised of the rows: the two are connected by the result of the executor,
which is what the writes are made from (`applyDeployment_cases`).
-/

variable {F : Type} [PyFloat F]

/-- What an apply has prepared when the executor starts. -/
structure Prepared (F : Type) where
  /-- The connected session. -/
  adapter : CcxtAdapter F
  /-- What the product is called at the venue. -/
  vendorSymbol : String
  /-- What the strategy says. -/
  signal : F
  /-- How much the deployment trades. -/
  qty : F

/-- `ApplyReport`, as far as it is about the order. -/
structure ApplyReport (F : Type) where
  /-- What was to be done. -/
  action : IntendedAction
  /-- Of which product. -/
  vendorSymbol : String
  /-- On which signal. -/
  signal : F
  /-- From which position. -/
  positionQty : F
  /-- Whether the order went through, where there was one. -/
  orderSuccess : Option Bool
  /-- Its id. -/
  vendorOrderId : Option String
  /-- How much filled. -/
  filledQty : Option F
  /-- At which price. -/
  avgPrice : Option F
  /-- What was charged. -/
  fee : Option F
  /-- In which currency. -/
  feeCcy : Option String
  /-- What an operator is told. -/
  message : String
  /-- Why it was refused, where it was. -/
  rejectReason : Option OrderRejectReason

/-- `IntendedAction.order_side`. -/
def IntendedAction.orderSide : IntendedAction → Option OrderSide
  | .buy | .closeShort => some .buy
  | .sell | .openShort => some .sell
  | .hold => none

/-- A row of `EXECUTION_EVENT`. -/
structure ExecutionEvent (F : Type) where
  /-- The side of `BUY_SELL_CD`; none is a `HOLD`. -/
  buySellCd : Option OrderSide
  /-- Whether the attempt succeeded, or had nothing to do. -/
  isSuccessInd : Bool
  /-- The signal that it was made on. -/
  signalValue : F
  /-- What was asked for, where an order was placed. -/
  quantity : Option F
  /-- The id of the order. -/
  vendorOrderId : Option String
  /-- The position that it was decided from. -/
  positionQty : F
deriving DecidableEq

/-- A row of `TRANSACTION`. -/
structure TransactionRow (F : Type) where
  /-- The side of the fill. -/
  buySellCd : OrderSide
  /-- The currency that the product is settled in. -/
  transCcyCd : String
  /-- What was traded. -/
  vendorSymbol : String
  /-- How much of it. -/
  quantity : F
  /-- At which price. -/
  price : Option F
  /-- What that comes to. -/
  notionalAmt : Option F
  /-- What was charged. -/
  feeAmt : Option F
  /-- In which currency. -/
  feeCcyCd : Option String
  /-- The order that filled. -/
  vendorOrderId : Option String
deriving DecidableEq

/-- What an apply, and the tick around it, ask of their surroundings besides the
venue. -/
inductive ApplyCall (F : Type) where
  | prepare
  | insExecutionEvent (row : ExecutionEvent F)
  /-- `CCY` of the product in the instrument cache, if the product is there and has one. -/
  | productCcy
  | setting (name : String)
  | insTransaction (row : TransactionRow F)
  | writeDeployment
  | insScheduleStatus
deriving DecidableEq

/-- What each call is answered with. -/
@[reducible]
def ApplyCall.Answer {F : Type} : ApplyCall F → Type
  | .prepare => Except Raised (Prepared F)
  | .productCcy => Option String
  | .setting _ => Except Raised String
  | .insExecutionEvent _ | .insTransaction _ | .writeDeployment | .insScheduleStatus =>
    Except Raised Unit

/-- A program that applies deployments. -/
abbrev ApplyProg (F α : Type) :=
  Prog (VenueCall F ⊕ ApplyCall F) (Sum.elim VenueCall.Answer ApplyCall.Answer) Raised α

/-- A call that an apply makes and its answer. -/
abbrev ApplyEvent (F : Type) :=
  CallEvent (VenueCall F ⊕ ApplyCall F) (Sum.elim VenueCall.Answer ApplyCall.Answer)

/-- Ask anything but the venue. -/
abbrev applyCall {F : Type} (c : ApplyCall F) : ApplyProg F c.Answer :=
  Prog.call (A := Sum.elim VenueCall.Answer ApplyCall.Answer) (.inr c)

omit [PyFloat F] in
/-- `ApplyAttempt.quantity`. -/
def ApplyAttempt.quantity (attempt : ApplyAttempt F) (defaultQty : F) : Option F :=
  attempt.result.map fun result =>
    (result.filledQty <|> result.requestedQty).getD defaultQty

/-- The row that an attempt is audited with. -/
def ApplyAttempt.executionEvent (attempt : ApplyAttempt F) (signal qty : F) :
    ExecutionEvent F where
  buySellCd := attempt.action.orderSide
  isSuccessInd := attempt.result.all (·.success)
  signalValue := signal
  quantity := attempt.quantity qty
  vendorOrderId := attempt.result.bind (·.vendorOrderId)
  positionQty := attempt.positionQty

/-- `_audit_attempts`: a row for each attempt, whether or not it can be written. -/
def auditAttempts (signal qty : F) : List (ApplyAttempt F) → ApplyProg F Unit
  | [] => pure ()
  | attempt :: attempts => do
    let _ ← applyCall (.insExecutionEvent (attempt.executionEvent signal qty))
    auditAttempts signal qty attempts

omit [PyFloat F] in
/-- `_settlement_ccy`. -/
def settlementCcy : ApplyProg F String := do
  let ccy : Option String ← applyCall .productCcy
  match ccy.filter (· ≠ "") with
  | some ccy => pure ccy
  | none =>
    let fallback : Except Raised String ← applyCall (.setting "fallback_settlement_ccy")
    Prog.ofExcept fallback

/-- The row of a fill. -/
def transactionRow (side : OrderSide) (transCcyCd vendorSymbol : String) (filledQty : F)
    (result : OrderResult F) : TransactionRow F where
  buySellCd := side
  transCcyCd := transCcyCd
  vendorSymbol := vendorSymbol
  quantity := filledQty
  price := result.avgPrice
  notionalAmt := result.avgPrice.map (filledQty * ·)
  feeAmt := result.fee
  feeCcyCd := result.feeCcy
  vendorOrderId := result.vendorOrderId

/-- `_write_transaction`: the row of a fill, whether or not it can be written. There is no row
to write, and nothing is raised, where its currency cannot be read. -/
def writeTransaction (action : IntendedAction) (vendorSymbol : String)
    (result : OrderResult F) : ApplyProg F Unit :=
  match action.orderSide, result.filledQty with
  | some side, some filledQty => do
    let ccy ← settlementCcy.attempt
    match ccy with
    | .ok transCcyCd =>
      let _ ← applyCall (.insTransaction
        (transactionRow side transCcyCd vendorSymbol filledQty result))
      pure ()
    | .error _ => pure ()
  | _, _ => pure ()

/-- `OrderRetryResult.no_order_message`. -/
def OrderRetryResult.noOrderMessage (o : OrderRetryResult F) : String :=
  if o.action = .hold then "no order needed (HOLD)" else "no order needed (qty resolved to 0)"

/-- `_report`. -/
def applyReport (prepared : Prepared F) (o : OrderRetryResult F) : ApplyReport F where
  action := o.action
  vendorSymbol := prepared.vendorSymbol
  signal := prepared.signal
  positionQty := o.positionQty
  orderSuccess := o.result.map (·.success)
  vendorOrderId := o.result.bind (·.vendorOrderId)
  filledQty := o.result.bind (·.filledQty)
  avgPrice := o.result.bind (·.avgPrice)
  fee := o.result.bind (·.fee)
  feeCcy := o.result.bind (·.feeCcy)
  message := o.result.elim o.noOrderMessage (·.message)
  rejectReason := o.result.bind (·.reason)

/-- What is written down of an outcome. -/
def writeOutcome (prepared : Prepared F) (o : OrderRetryResult F) : ApplyProg F Unit := do
  auditAttempts prepared.signal prepared.qty o.attempts
  match o.result with
  | some result =>
    if result.success then writeTransaction o.action prepared.vendorSymbol result else pure ()
  | none => pure ()

/-- `apply_deployment`. -/
def applyDeployment (policy : OrderRetryPolicy F) : ApplyProg F (ApplyReport F) := do
  let answer : Except Raised (Prepared F) ← applyCall .prepare
  let prepared ← Prog.ofExcept answer
  let o ← (execute policy prepared.adapter prepared.vendorSymbol prepared.signal
    prepared.qty).inl
  writeOutcome prepared o
  pure (applyReport prepared o)

/-! ## What an apply does at the venue -/

variable {t : List (ApplyEvent F)} {policy : OrderRetryPolicy F}

/-- What the venue sees of a record. -/
abbrev venueEvents (t : List (ApplyEvent F)) : List (VenueEvent F) :=
  t.filterMap Prog.left?

/-- The call is none of the venue's, and prepares nothing. -/
def aside : VenueCall F ⊕ ApplyCall F → Bool
  | .inl _ | .inr .prepare => false
  | .inr _ => true

/-- The program leaves the venue alone, and prepares nothing. -/
abbrev Prog.Aside {α : Type} (p : ApplyProg F α) : Prop :=
  p.Only fun c => aside c = true

/-- How often a record prepares an apply. -/
def preparations (t : List (ApplyEvent F)) : ℕ :=
  t.countP fun e => match e.1 with
    | .inr .prepare => true
    | _ => false

omit [PyFloat F] in
/-- A program that only writes down says nothing to the venue. -/
theorem venueEvents_aside {α : Type} {p : ApplyProg F α} (hp : p.Aside) {r : Except Raised α}
    (h : p.Runs t r) : venueEvents t = [] := by
  refine List.filterMap_eq_nil_iff.mpr fun e he => ?_
  have haside := hp t r h e he
  obtain ⟨c, x⟩ := e
  cases c with
  | inl c => cases haside
  | inr c => rfl

omit [PyFloat F] in
theorem preparations_aside {α : Type} {p : ApplyProg F α} (hp : p.Aside) {r : Except Raised α}
    (h : p.Runs t r) : preparations t = 0 := by
  refine List.countP_eq_zero.mpr fun e he hprepare => ?_
  have haside := hp t r h e he
  obtain ⟨c, x⟩ := e
  cases c with
  | inl c => cases haside
  | inr c =>
    cases c with
    | prepare => cases haside
    | _ => cases hprepare

omit [PyFloat F] in
/-- Writing down the attempts is such a program. -/
theorem auditAttempts_aside (signal qty : F) (attempts : List (ApplyAttempt F)) :
    (auditAttempts signal qty attempts).Aside := by
  induction attempts with
  | nil => exact .pure _
  | cons attempt attempts ih => exact .bind (.call rfl) fun _ => ih

omit [PyFloat F] in
/-- So is looking up the currency of the product. -/
theorem settlementCcy_aside : (settlementCcy : ApplyProg F String).Aside := by
  refine .bind (.call rfl) fun ccy => ?_
  split
  · exact .pure _
  · exact .bind (.call rfl) fun _ => .ofExcept _

theorem writeTransaction_aside (action : IntendedAction) (vendorSymbol : String)
    (result : OrderResult F) : (writeTransaction action vendorSymbol result).Aside := by
  unfold writeTransaction
  split
  · refine .bind settlementCcy_aside.attempt fun ccy => ?_
    split
    · exact .bind (.call rfl) fun _ => .pure _
    · exact .pure _
  · exact .pure _

theorem writeOutcome_aside (prepared : Prepared F) (o : OrderRetryResult F) :
    (writeOutcome prepared o).Aside := by
  refine .bind (auditAttempts_aside _ _ _) fun _ => ?_
  split
  · split
    · exact writeTransaction_aside _ _ _
    · exact .pure _
  · exact .pure _

omit [PyFloat F] in
/-- Nothing is raised by what is written down. -/
theorem auditAttempts_runs {signal qty : F} {attempts : List (ApplyAttempt F)}
    {r : Except Raised Unit} (h : (auditAttempts signal qty attempts).Runs t r) : r = .ok () := by
  induction attempts generalizing t with
  | nil => exact (Prog.runs_pure.mp h).2
  | cons attempt attempts ih =>
    obtain ⟨_, _, _, h'⟩ := Prog.runs_call_bind.mp h
    exact ih h'

/-- Writing down a fill never raises: what goes wrong in it is logged and dropped, and the row
with it. -/
theorem writeTransaction_runs {action : IntendedAction} {vendorSymbol : String}
    {result : OrderResult F} {r : Except Raised Unit}
    (h : (writeTransaction action vendorSymbol result).Runs t r) : r = .ok () := by
  unfold writeTransaction at h
  split at h
  · obtain ⟨ccy, t₁, t₂, -, h', -⟩ := Prog.runs_attempt_bind.mp h
    split at h'
    · obtain ⟨_, _, _, h''⟩ := Prog.runs_call_bind.mp h'
      exact (Prog.runs_pure.mp h'').2
    · exact (Prog.runs_pure.mp h').2
  · exact (Prog.runs_pure.mp h).2

/-- So the writes of a run never raise, and the report is made whatever became of them. -/
theorem writeOutcome_runs {prepared : Prepared F} {o : OrderRetryResult F}
    {r : Except Raised Unit} (h : (writeOutcome prepared o).Runs t r) : r = .ok () := by
  obtain ⟨e, he, -⟩ | ⟨_, _, _, -, h', -⟩ := Prog.runs_bind.mp h
  · cases auditAttempts_runs he
  · split at h'
    · split at h'
      · exact writeTransaction_runs h'
      · exact (Prog.runs_pure.mp h').2
    · exact (Prog.runs_pure.mp h').2

/-- A run of an apply: its preparation raises, or the executor runs, and what
it has done is written down, if it raises nothing. -/
inductive ApplyRun (policy : OrderRetryPolicy F) :
    List (ApplyEvent F) → Except Raised (ApplyReport F) → Prop where
  | unprepared (e : Raised) :
    ApplyRun policy [⟨.inr .prepare, .error e⟩] (.error e)
  | raised {prepared : Prepared F} {v : List (VenueEvent F)} {e : Raised}
      (hexecute : (execute policy prepared.adapter prepared.vendorSymbol prepared.signal
        prepared.qty).Runs v (.error e)) :
    ApplyRun policy (⟨.inr .prepare, .ok prepared⟩ :: v.map Prog.inlEvent) (.error e)
  | written {prepared : Prepared F} {v : List (VenueEvent F)} {o : OrderRetryResult F}
      {w : List (ApplyEvent F)}
      (hexecute : (execute policy prepared.adapter prepared.vendorSymbol prepared.signal
        prepared.qty).Runs v (.ok o))
      (hwrite : (writeOutcome prepared o).Runs w (.ok ())) :
    ApplyRun policy (⟨.inr .prepare, .ok prepared⟩ :: (v.map Prog.inlEvent ++ w))
      (.ok (applyReport prepared o))

/-- **What an apply is**: a preparation that raised, and nothing else; or a preparation, a run of
the executor and the writes of its outcome, in this order. -/
theorem applyDeployment_cases {r : Except Raised (ApplyReport F)}
    (h : (applyDeployment policy).Runs t r) : ApplyRun policy t r := by
  obtain ⟨answer, t₁, rfl, h₁⟩ := Prog.runs_call_bind.mp h
  obtain ⟨e, he, rfl⟩ | ⟨prepared, t₂, t₃, hp, h₂, rfl⟩ := Prog.runs_bind.mp h₁
  · obtain ⟨rfl, rfl⟩ := Prog.runs_ofExcept.mp he
    exact .unprepared e
  obtain ⟨rfl, rfl⟩ := Prog.runs_ofExcept.mp hp
  obtain ⟨e, he, rfl⟩ | ⟨o, t₄, t₅, ho, h₃, rfl⟩ := Prog.runs_bind.mp h₂
  · obtain ⟨v, rfl, hv⟩ := Prog.runs_inl.mp he
    exact .raised hv
  · obtain ⟨v, rfl, hv⟩ := Prog.runs_inl.mp ho
    obtain ⟨e, he, -⟩ | ⟨_, t₆, t₇, hw, h₄, rfl⟩ := Prog.runs_bind.mp h₃
    · cases writeOutcome_runs he
    obtain ⟨rfl, rfl⟩ := Prog.runs_pure.mp h₄
    rw [List.append_nil]
    exact .written hv hw

/-- **What an apply does at the venue** is nothing, when its preparation raises,
or else a run of the executor, of which the apply reports. -/
theorem applyDeployment_runs {r : Except Raised (ApplyReport F)}
    (h : (applyDeployment policy).Runs t r) :
    (venueEvents t = [] ∧ ∃ e, r = .error e) ∨
    ∃ prepared x, (execute policy prepared.adapter prepared.vendorSymbol prepared.signal
      prepared.qty).Runs (venueEvents t) x ∧ r = x.map (applyReport prepared) := by
  cases applyDeployment_cases h with
  | unprepared e => exact .inl ⟨rfl, e, rfl⟩
  | @raised prepared v e hexecute =>
    refine .inr ⟨prepared, .error e, ?_, rfl⟩
    show Prog.Runs _ (List.filterMap _ (v.map _)) _
    rw [Prog.filterMap_left?_map]
    exact hexecute
  | @written prepared v o w hexecute hwrite =>
    refine .inr ⟨prepared, .ok o, ?_, rfl⟩
    show Prog.Runs _ (List.filterMap _ (v.map _ ++ w)) _
    rw [List.filterMap_append, Prog.filterMap_left?_map,
      show w.filterMap Prog.left? = [] from venueEvents_aside (writeOutcome_aside _ _) hwrite,
      List.append_nil]
    exact hexecute

/-- **An apply is prepared once.** -/
theorem applyDeployment_preparations {r : Except Raised (ApplyReport F)}
    (h : (applyDeployment policy).Runs t r) : preparations t = 1 := by
  have hvenue (v : List (VenueEvent F)) :
      preparations (v.map (Prog.inlEvent (B := ApplyCall.Answer))) = 0 :=
    List.countP_eq_zero.mpr fun e he hprepare => by
      obtain ⟨e', -, rfl⟩ := List.mem_map.mp he
      cases hprepare
  cases applyDeployment_cases h with
  | unprepared e => rfl
  | @raised prepared v e hexecute =>
    rw [preparations, List.countP_cons_of_pos rfl, ← preparations, hvenue]
  | @written prepared v o w hexecute hwrite =>
    rw [preparations, List.countP_cons_of_pos rfl, List.countP_append, ← preparations,
      ← preparations, hvenue, preparations_aside (writeOutcome_aside _ _) hwrite]
