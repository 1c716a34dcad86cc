import QuantStrategies.Trade.Exposure
import QuantStrategies.Trade.LiveApply
import QuantStrategies.Trade.Stacking

/-!
# The fills of a cycle

A row of `TRANSACTION` stands for a fill that a poll reported, and of these a
cycle writes the one that its last attempt ended in. Nothing is lost by that as
far as the reports go, as an order that is reported filled is the cycle's last
one (`written_eq_reportedFills`). The row has a currency, and where that cannot be
read no row is written, although no write to the database has failed.

What an order filled is another matter. The venue knows it, and the cycle does
not ask again once the poll of the order is over: an order that was cancelled
after it had filled in part, or whose poll ended in a refusal, or that was filled
without having been acknowledged, has no report. The quantities in the rows are
short by what such orders filled (`fills_eq_recorded_add`), so that the rows add up
when each order that filled anything was told to a poll, and where the fills do not
offset each other only then.

Quantities are summed as exact numbers, with the side as their sign, and compared over a
whole cycle and not order by order, so that an order which is written down under another
one's name would not go unnoticed.
-/

/-! ## What a record tells of fills -/

section Records

variable {F : Type}

/-- The side that a word of ccxt names. -/
def OrderSide.ofWord (word : String) : OrderSide :=
  if word = "buy" then .buy else .sell

/-- The word that an order is sent with is read back as its side. -/
@[simp]
theorem OrderSide.ofWord_sideWord (side : OrderSide) :
    OrderSide.ofWord (CcxtAdapter.sideWord side) = side := by
  cases side <;> decide

variable [PyFloat F]

/-- The fill that a poll was answered with. -/
def fillReport : VenueEvent F → Option F
  | ⟨.fetchOrder id _, .ok order⟩ => (parseTerminal order (some id)).bind (·.filledQty)
  | _ => none

/-- The fill that is reported before anything else is submitted. -/
def reported : List (VenueEvent F) → Option F
  | [] => none
  | e :: t => if (submitted e).isSome then none else fillReport e <|> reported t

/-- The orders of a record by their sides, each with the fill that was reported
of it. -/
def orderFills : List (VenueEvent F) → List (OrderSide × Option F)
  | [] => []
  | e :: t =>
    match submitted e with
    | some (_, word, _) => (.ofWord word, reported t) :: orderFills t
    | none => orderFills t

/-- The fills that were reported. -/
abbrev reportedFills (t : List (VenueEvent F)) : List (OrderSide × F) :=
  (orderFills t).filterMap fun order => order.2.map (order.1, ·)

variable {e : VenueEvent F} {t t₁ t₂ : List (VenueEvent F)}

/-- A look at the account submits nothing and reports no fill. -/
theorem looks_event (h : e.1.looks = true) : submitted e = none ∧ fillReport e = none := by
  obtain ⟨c, x⟩ := e
  cases c with
  | createOrder _ _ _ => cases h
  | cancelOrder _ _ => cases h
  | fetchOrder _ _ => cases h
  | _ => exact ⟨rfl, rfl⟩

/-- A record in which nothing is submitted and no fill reported. -/
def Unfilled (t : List (VenueEvent F)) : Prop :=
  ∀ e ∈ t, submitted e = none ∧ fillReport e = none

/-- A program that only looks fills nothing. -/
theorem Unfilled.of_looks {α : Type} {p : VenueProg F α} {r : Except Raised α} (hp : p.Looks)
    (h : p.Runs t r) : Unfilled t :=
  fun e he => looks_event (hp t r h e he)

/-- A part of the record without orders in front does not change what is reported. -/
theorem Unfilled.reported_append (h : Unfilled t₁) : reported (t₁ ++ t₂) = reported t₂ := by
  induction t₁ with
  | nil => rfl
  | cons e t₁ ih =>
    obtain ⟨hs, hf⟩ := h e List.mem_cons_self
    show (if (submitted e).isSome then none else fillReport e <|> reported (t₁ ++ t₂)) = _
    rw [hs, hf, ih fun e' he' => h e' (List.mem_cons_of_mem _ he')]
    rfl

theorem Unfilled.orderFills_append (h : Unfilled t₁) : orderFills (t₁ ++ t₂) = orderFills t₂ := by
  induction t₁ with
  | nil => rfl
  | cons e t₁ ih =>
    show (match submitted e with
      | some (_, word, _) => (OrderSide.ofWord word, reported (t₁ ++ t₂)) :: orderFills (t₁ ++ t₂)
      | none => orderFills (t₁ ++ t₂)) = _
    rw [(h e List.mem_cons_self).1]
    exact ih fun e' he' => h e' (List.mem_cons_of_mem _ he')

/-- In such a part nothing is reported. -/
theorem Unfilled.reported_eq (h : Unfilled t) : reported t = none :=
  (congrArg reported (List.append_nil t)).symm.trans h.reported_append

theorem Unfilled.orderFills_eq (h : Unfilled t) : orderFills t = [] :=
  (congrArg orderFills (List.append_nil t)).symm.trans h.orderFills_append

/-- What follows does not change what is reported before it, when it reports
nothing of its own. -/
theorem reported_append (h : reported t₂ = none) : reported (t₁ ++ t₂) = reported t₁ := by
  induction t₁ with
  | nil => exact h
  | cons e t₁ ih =>
    show (if (submitted e).isSome then none else fillReport e <|> reported (t₁ ++ t₂)) = _
    rw [ih]
    rfl

/-- The fills of a record are those of its parts, as long as the second one does not begin within
an order of the first. -/
theorem orderFills_append (h : reported t₂ = none) :
    orderFills (t₁ ++ t₂) = orderFills t₁ ++ orderFills t₂ := by
  induction t₁ with
  | nil => rfl
  | cons e t₁ ih =>
    rw [List.cons_append, orderFills, orderFills, ih, reported_append h]
    cases submitted e <;> rfl

/-- The same of the fills that are reported. -/
theorem reportedFills_append (h : reported t₂ = none) :
    reportedFills (t₁ ++ t₂) = reportedFills t₁ ++ reportedFills t₂ := by
  rw [reportedFills, orderFills_append h, List.filterMap_append]

/-- The orders of a record are those that it submits. -/
theorem orderFills_sides :
    (orderFills t).map Prod.fst = (submissions t).map fun order => OrderSide.ofWord order.2.1 := by
  induction t with
  | nil => rfl
  | cons e t ih =>
    rw [orderFills, submissions, List.filterMap_cons]
    cases submitted e with
    | none => exact ih
    | some order => exact congrArg (_ :: ·) ih

end Records

/-! ## The fill of an attempt -/

section Attempts

variable {F : Type} [PyFloat F]

/-- The fill that a result reports, of an order of the side. -/
def OrderResult.fill (result : OrderResult F) (side : OrderSide) : List (OrderSide × F) :=
  if result.success then (result.filledQty.map (side, ·)).toList else []

/-- The fill that an action ended in, which is what `_write_transaction` is given
of it. -/
def IntendedAction.fill (action : IntendedAction) (result : Option (OrderResult F)) :
    List (OrderSide × F) :=
  match action.orderSide, result with
  | some side, some result => result.fill side
  | _, _ => []

/-- The fill that the end of a program reports; an exception reports none. -/
def endFill {α : Type} (fill : α → List (OrderSide × F)) : Except Raised α → List (OrderSide × F)
  | .ok x => fill x
  | .error _ => []

variable {s : CcxtSession} {a : CcxtAdapter F} {req : OrderRequest F} {symbol : String}
  {signal qty : F} {t : List (VenueEvent F)}

omit [PyFloat F] in
/-- A result without success stands for no fill. -/
theorem OrderResult.fill_failed {result : OrderResult F} (h : result.success = false)
    (side : OrderSide) : result.fill side = [] := by
  rw [OrderResult.fill, if_neg (by rw [h]; exact Bool.false_ne_true)]

/-- A fill that is over is reported when it is a success. -/
theorem parseTerminal_filledQty {order : CcxtOrder F} {id : Option String} {fill : FillStatus F}
    (h : parseTerminal order id = some fill) :
    (fill.success = true ∧ ∃ filled, fill.filledQty = some filled) ∨
      (fill.success = false ∧ fill.filledQty = none) := by
  unfold parseTerminal at h
  simp only at h
  split at h
  · obtain rfl := Option.some.inj h
    exact .inl ⟨rfl, _, rfl⟩
  · split at h
    · obtain rfl := Option.some.inj h
      exact .inr ⟨rfl, rfl⟩
    · cases h

omit [PyFloat F] in
/-- The call that polls is the only one, and what it is answered with is handed
on. -/
theorem fetchOrder_runs {id : String} {r : Except Raised (CcxtOrder F)}
    (h : (s.fetchOrder id symbol).Runs t r) :
    ∃ answer, t = [⟨.fetchOrder id symbol, answer⟩] ∧
      r = Except.mapError s.fetchOrderError answer := by
  obtain ⟨answer, t', rfl, h'⟩ := Prog.runs_call_bind.mp h
  obtain ⟨rfl, hr⟩ := Prog.runs_ofExcept.mp h'
  exact ⟨answer, rfl, hr⟩

/-- A poll that reports no fill leaves it to the polls after it. -/
theorem unfilled_poll (delay : F) (u : Unit) {id : String}
    {answer : Except VenueRaise (CcxtOrder F)}
    (h : fillReport ⟨.fetchOrder id symbol, answer⟩ = none) :
    Unfilled [⟨.sleep delay, u⟩, ⟨.fetchOrder id symbol, answer⟩] :=
  List.forall_mem_cons.mpr ⟨⟨rfl, rfl⟩, List.forall_mem_singleton.mpr ⟨rfl, h⟩⟩

/-- A poll that is refused reports no fill. -/
theorem fillReport_refused {id : String} {answer : Except VenueRaise (CcxtOrder F)} {e : Raised}
    {typed : VenueRaise → Raised} (h : .error e = Except.mapError typed answer) :
    fillReport ⟨.fetchOrder id symbol, answer⟩ = none := by
  cases answer with
  | error e' => rfl
  | ok order => cases h

/-- **A poll reports the fill that it ends in**, and submits nothing. A poll that finds the order
still open reports nothing, whatever it says of its fill. -/
theorem confirmLoop_fill {id : String} {sleptS aheadS : List F} {last : Option String}
    {r : Except Raised (OrderResult F)}
    (h : (confirmLoop s req id sleptS aheadS last).Runs t r) (side : OrderSide) :
    orderFills t = [] ∧
      ((reported t).map (side, ·)).toList = endFill (·.fill side) r := by
  induction aheadS generalizing sleptS last t with
  | nil =>
    obtain ⟨rfl, rfl⟩ := Prog.runs_pure.mp h
    exact ⟨rfl, rfl⟩
  | cons delay aheadS ih =>
    unfold confirmLoop at h
    obtain ⟨u, _, rfl, h₁⟩ := Prog.runs_call_bind.mp h
    obtain ⟨polled, t₁, t₂, hpoll, h₂, rfl⟩ := Prog.runs_attempt_bind.mp h₁
    obtain ⟨answer, rfl, hpolled⟩ := fetchOrder_runs hpoll
    -- what a poll without a fill leaves to the polls after it
    have hquiet (hf : fillReport ⟨.fetchOrder id req.symbol, answer⟩ = none) :
        orderFills (⟨.sleep delay, u⟩ :: ([⟨.fetchOrder id req.symbol, answer⟩] ++ t₂)) =
            orderFills t₂ ∧
          reported (⟨.sleep delay, u⟩ :: ([⟨.fetchOrder id req.symbol, answer⟩] ++ t₂)) =
            reported t₂ :=
      ⟨(unfilled_poll delay u hf).orderFills_append, (unfilled_poll delay u hf).reported_append⟩
    split at h₂
    · obtain ⟨ho, hr⟩ := hquiet (fillReport_refused hpolled)
      rw [ho, hr]
      exact ih h₂
    · obtain ⟨ho, hr⟩ := hquiet (fillReport_refused hpolled)
      rw [ho, hr]
      split at h₂
      · split at h₂
        · obtain ⟨rfl, rfl⟩ := Prog.runs_pure.mp h₂
          exact ⟨rfl, rfl⟩
        · obtain ⟨rfl, rfl⟩ := Prog.runs_pure.mp h₂
          exact ⟨rfl, rfl⟩
      · obtain ⟨rfl, rfl⟩ := Prog.runs_throw.mp h₂
        exact ⟨rfl, rfl⟩
    · next order =>
      obtain rfl : answer = .ok order := by
        cases answer with
        | error e => cases hpolled
        | ok raw =>
          cases hpolled
          rfl
      split at h₂
      · rename_i fill hfill
        obtain ⟨rfl, rfl⟩ := Prog.runs_pure.mp h₂
        refine ⟨rfl, ?_⟩
        have hreport : fillReport ⟨.fetchOrder id req.symbol, .ok order⟩ = fill.filledQty :=
          congrArg (·.bind (·.filledQty)) hfill
        show (((fillReport ⟨.fetchOrder id req.symbol, .ok order⟩ <|> none).map _).toList) =
          (settledPoll req fill).fill side
        rw [hreport]
        rcases parseTerminal_filledQty hfill with ⟨hs, filled, hq⟩ | ⟨hs, hq⟩
        · have hqty : (settledPoll req fill).filledQty = some filled := hq
          rw [OrderResult.fill, if_pos (show (settledPoll req fill).success = true from hs),
            hqty, hq]
          rfl
        · rw [OrderResult.fill_failed (show (settledPoll req fill).success = false from hs), hq]
          rfl
      · rename_i hfill
        obtain ⟨ho, hr⟩ := hquiet (congrArg (·.bind (·.filledQty)) hfill)
        rw [ho, hr]
        exact ih h₂

/-- An order is submitted, and reported filled by the polls of it. -/
theorem reportedFills_submitted {symbol : String} (side : OrderSide) {qty : F}
    {answer : Except VenueRaise (CcxtOrder F)} (h : orderFills t = []) :
    reportedFills (⟨.createOrder symbol (CcxtAdapter.sideWord side) qty, answer⟩ :: t) =
      ((reported t).map (side, ·)).toList := by
  show List.filterMap _ ((OrderSide.ofWord (CcxtAdapter.sideWord side), reported t) ::
    orderFills t) = _
  rw [h, OrderSide.ofWord_sideWord]
  cases reported t <;> rfl

/-- **What an order reports** is what its result says, and it is the last thing that is reported
in it. -/
theorem submit_fill {r : Except Raised (Option KeyProfile × OrderResult F)}
    (h : (a.submit req).Runs t r) :
    reported t = none ∧ reportedFills t = endFill (·.2.fill req.side) r := by
  obtain ⟨created, t₁, t₂, h₁, h₂, rfl⟩ := Prog.runs_attempt_bind.mp h
  obtain ⟨answer, rfl, -⟩ := createMarketOrder_runs h₁
  refine ⟨rfl, ?_⟩
  split at h₂
  · split at h₂
    · obtain ⟨rfl, rfl⟩ := Prog.runs_pure.mp h₂
      exact reportedFills_submitted req.side rfl
    · obtain ⟨rfl, rfl⟩ := Prog.runs_throw.mp h₂
      exact reportedFills_submitted req.side rfl
  · split at h₂
    · obtain ⟨rfl, rfl⟩ := Prog.runs_pure.mp h₂
      exact reportedFills_submitted req.side rfl
    · obtain ⟨e, he, rfl⟩ | ⟨result, t₃, t₄, hres, hpure, rfl⟩ := Prog.runs_bind.mp h₂
      · obtain ⟨hnone, hfill⟩ := confirmLoop_fill he req.side
        exact (reportedFills_submitted req.side hnone).trans hfill
      · obtain ⟨rfl, rfl⟩ := Prog.runs_pure.mp hpure
        obtain ⟨hnone, hfill⟩ := confirmLoop_fill hres req.side
        rw [List.append_nil]
        exact (reportedFills_submitted req.side hnone).trans hfill

/-- The same of placing an order, which may be refused before it is sent. -/
theorem placeOrder_fill {r : Except Raised (Option KeyProfile × OrderResult F)}
    (h : (a.placeOrder req).Runs t r) :
    reported t = none ∧ reportedFills t = endFill (·.2.fill req.side) r := by
  unfold CcxtAdapter.placeOrder at h
  split at h
  · obtain ⟨rfl, rfl⟩ := Prog.runs_throw.mp h
    exact ⟨rfl, rfl⟩
  · split at h
    · obtain ⟨rfl, rfl⟩ := Prog.runs_throw.mp h
      exact ⟨rfl, rfl⟩
    · split at h
      · obtain ⟨rfl, rfl⟩ := Prog.runs_pure.mp h
        exact ⟨rfl, rfl⟩
      · obtain ⟨e, he, rfl⟩ | ⟨small, t₁, t₂, h₁, h₂, rfl⟩ := Prog.runs_bind.mp h
        · have hquiet := Unfilled.of_looks looks_undersized he
          rw [reportedFills, hquiet.orderFills_eq]
          exact ⟨hquiet.reported_eq, rfl⟩
        · have hquiet := Unfilled.of_looks looks_undersized h₁
          rw [hquiet.reported_append, reportedFills, hquiet.orderFills_append]
          split at h₂
          · obtain ⟨rfl, rfl⟩ := Prog.runs_pure.mp h₂
            exact ⟨rfl, rfl⟩
          · exact submit_fill h₂

omit [PyFloat F] in
/-- The order of an action is on the action's side. -/
theorem orderFor_side [PyFloat F] {action : IntendedAction} {positionQty : F}
    (h : orderFor symbol action qty positionQty = some req) :
    action.orderSide = some req.side := by
  obtain ⟨hr, -⟩ := Option.filter_eq_some_iff.mp h
  cases action with
  | hold => cases hr
  | buy => cases hr; rfl
  | openShort => cases hr; rfl
  | sell => cases hr; rfl
  | closeShort => cases hr; rfl

/-- What follows the placing of an order reports no fill. It changes none that
the order ended in, and does not go on after one. -/
theorem settle_fill {action : IntendedAction} {positionQty : F} {result : OrderResult F}
    {side : OrderSide} (hside : action.orderSide = some side)
    {r : Except Raised (ApplyAttempt F × Bool)}
    (h : (a.settle symbol action positionQty result).Runs t r) :
    Unfilled t ∧ endFill (fun made => made.1.action.fill made.1.result) r = result.fill side ∧
      ∀ made, r = .ok made → made.2 = true → made.1.action.fill made.1.result = [] := by
  have hfill (result : OrderResult F) : action.fill (some result) = result.fill side := by
    simp only [IntendedAction.fill, hside]
  cases hs : result.success with
  | true =>
    rw [CcxtAdapter.settle, if_pos hs] at h
    obtain ⟨rfl, rfl⟩ := Prog.runs_pure.mp h
    exact ⟨List.forall_mem_nil _, hfill result, fun made hr hagain => by cases hr; cases hagain⟩
  | false =>
    have hnil {result' : OrderResult F} (h : result'.success = false) :
        action.fill (some result') = [] := by
      rw [hfill, OrderResult.fill_failed h]
    rw [OrderResult.fill_failed hs]
    cases settle_runs h with
    | final _ =>
      exact ⟨List.forall_mem_nil _, hnil hs, fun made hr hagain => by cases hr; cases hagain⟩
    | again _ _ =>
      exact ⟨List.forall_mem_nil _, hnil hs, fun made hr _ => by cases hr; exact hnil hs⟩
    | canceled _ _ _ =>
      exact ⟨List.forall_mem_singleton.mpr ⟨rfl, rfl⟩, hnil hs,
        fun made hr _ => by cases hr; exact hnil hs⟩
    | cancelFailed _ _ _ _ =>
      exact ⟨List.forall_mem_singleton.mpr ⟨rfl, rfl⟩, hnil hs,
        fun made hr hagain => by cases hr; cases hagain⟩
    | cancelRaised _ _ =>
      exact ⟨List.forall_mem_singleton.mpr ⟨rfl, rfl⟩, rfl, fun made hr => by cases hr⟩

/-- **The step lemma.** The fill that is reported in an attempt is the one that it
ends in, and an attempt that is followed by another ends in none. -/
theorem attempt_fill {r : Except Raised (Option KeyProfile × ApplyAttempt F × Bool)}
    (h : (a.attempt symbol signal qty).Runs t r) :
    reported t = none ∧
    reportedFills t = endFill (fun made => made.2.1.action.fill made.2.1.result) r ∧
    ∀ made, r = .ok made → made.2.2 = true → made.2.1.action.fill made.2.1.result = [] := by
  have hlooks {read x} (hread : (a.getPositionQty symbol).Runs read x) : Unfilled read :=
    .of_looks (looks_getPositionQty symbol) hread
  obtain ⟨e, he, rfl⟩ | ⟨positionQty, read, t₁, hread, h₁, rfl⟩ := Prog.runs_bind.mp h
  · rw [reportedFills, (hlooks he).orderFills_eq]
    exact ⟨(hlooks he).reported_eq, rfl, fun made hr => by cases hr⟩
  rw [(hlooks hread).reported_append, reportedFills, (hlooks hread).orderFills_append]
  obtain ⟨e, he, rfl⟩ | ⟨action, t₂, t₃, ha, h₂, rfl⟩ := Prog.runs_bind.mp h₁
  · obtain ⟨rfl, -⟩ := Prog.runs_ofExcept.mp he
    exact ⟨rfl, rfl, fun made hr => by cases hr⟩
  obtain ⟨rfl, -⟩ := Prog.runs_ofExcept.mp ha
  rw [List.nil_append]
  split at h₂
  · obtain ⟨rfl, rfl⟩ := Prog.runs_pure.mp h₂
    refine ⟨rfl, ?_, fun made hr hagain => by cases hr; cases hagain⟩
    show [] = action.fill none
    unfold IntendedAction.fill
    cases action.orderSide <;> rfl
  · rename_i req horder
    have hside := orderFor_side horder
    obtain ⟨e, he, rfl⟩ | ⟨placed, t₄, t₅, hplaced, h₃, rfl⟩ := Prog.runs_bind.mp h₂
    · obtain ⟨hnone, hfill⟩ := placeOrder_fill he
      exact ⟨hnone, hfill, fun made hr => by cases hr⟩
    obtain ⟨hnone, hfill⟩ := placeOrder_fill hplaced
    have hsettle {t₅ r} (hs : (a.settle symbol action positionQty placed.2).Runs t₅ r) :
        reported (t₄ ++ t₅) = none ∧ reportedFills (t₄ ++ t₅) = placed.2.fill req.side := by
      obtain ⟨hquiet, -, -⟩ := settle_fill hside hs
      rw [reported_append hquiet.reported_eq, reportedFills_append hquiet.reported_eq,
        reportedFills, reportedFills, hquiet.orderFills_eq, List.filterMap_nil, List.append_nil]
      exact ⟨hnone, hfill⟩
    obtain ⟨e, he, rfl⟩ | ⟨settled, t₆, t₇, hsettled, h₄, rfl⟩ := Prog.runs_bind.mp h₃
    · obtain ⟨-, hend, -⟩ := settle_fill hside he
      exact ⟨(hsettle he).1, (hsettle he).2.trans hend.symm, fun made hr => by cases hr⟩
    · obtain ⟨rfl, rfl⟩ := Prog.runs_pure.mp h₄
      obtain ⟨-, hend, hagain⟩ := settle_fill hside hsettled
      rw [List.append_nil]
      exact ⟨(hsettle hsettled).1, (hsettle hsettled).2.trans hend.symm,
        fun made hr => by cases hr; exact hagain settled rfl⟩

/-- **The run lemma.** The fills that are reported in a run are the one that its
last attempt ends in. -/
theorem executeLoop_fill {policy : OrderRetryPolicy F} {attempts : List (ApplyAttempt F)}
    {left : ℕ} {r : Except Raised (OrderRetryResult F)}
    (h : (executeLoop policy a symbol signal qty attempts left).Runs t r) :
    reported t = none ∧ reportedFills t = endFill (fun o => o.action.fill o.result) r := by
  induction left generalizing a attempts t with
  | zero =>
    obtain ⟨rfl, rfl⟩ := Prog.runs_throw.mp h
    exact ⟨rfl, rfl⟩
  | succ left ih =>
    obtain ⟨e, he, rfl⟩ | ⟨made, t₁, t₂, h₁, h₂, rfl⟩ := Prog.runs_bind.mp h
    · obtain ⟨hnone, hfill, -⟩ := attempt_fill he
      exact ⟨hnone, hfill⟩
    obtain ⟨hnone, hfill, hagain⟩ := attempt_fill h₁
    split at h₂
    · obtain ⟨rfl, rfl⟩ := Prog.runs_pure.mp h₂
      rw [List.append_nil]
      exact ⟨hnone, hfill⟩
    · rename_i hcont
      have hmade : made.2.2 = true := by
        simp only [Bool.or_eq_true, not_or, Bool.not_eq_true, Bool.not_eq_false'] at hcont
        exact hcont.1
      obtain ⟨u, t₃, rfl, h₃⟩ := Prog.runs_call_bind.mp h₂
      obtain ⟨hnone', hfill'⟩ := ih h₃
      have hsleep : reported (⟨.sleep policy.backoffS, u⟩ :: t₃) = none := hnone'
      have hempty : reportedFills t₁ = [] := hfill.trans (hagain made rfl hmade)
      rw [reported_append hsleep, reportedFills_append hsleep, hempty, List.nil_append]
      exact ⟨hnone, hfill'⟩

end Attempts

/-! ## The rows of a cycle -/

section Rows

variable {F : Type}

/-- The row of `TRANSACTION` that an event writes. -/
def writtenRow : ApplyEvent F → Option (TransactionRow F)
  | ⟨.inr (.insTransaction row), .ok ()⟩ => some row
  | _ => none

/-- The rows that a record writes to `TRANSACTION`. -/
abbrev writtenRows (t : List (ApplyEvent F)) : List (TransactionRow F) :=
  t.filterMap writtenRow

/-- A write to the database was answered by an exception. -/
def writeFailed : ApplyEvent F → Bool
  | ⟨.inr (.insExecutionEvent _), .error _⟩ | ⟨.inr (.insTransaction _), .error _⟩
  | ⟨.inr .writeDeployment, .error _⟩ | ⟨.inr .insScheduleStatus, .error _⟩ => true
  | _ => false

/-- The setting that stands in for the currency of a product was not read. -/
def currencyRefused : ApplyEvent F → Bool
  | ⟨.inr (.setting _), .error _⟩ => true
  | _ => false

/-- The currencies that a record asks for are read. -/
def CurrencyRead (t : List (ApplyEvent F)) : Prop := ∀ e ∈ t, currencyRefused e = false

instance (t : List (ApplyEvent F)) : Decidable (CurrencyRead t) :=
  inferInstanceAs (Decidable (∀ e ∈ t, _))

/-- The rows that are written are those of the parts, in order. -/
theorem writtenRows_append (t₁ t₂ : List (ApplyEvent F)) :
    writtenRows (t₁ ++ t₂) = writtenRows t₁ ++ writtenRows t₂ :=
  List.filterMap_append

/-- A currency is read in a record if it is in its parts. -/
theorem currencyRead_append {t₁ t₂ : List (ApplyEvent F)} (h : CurrencyRead t₁) :
    CurrencyRead (t₁ ++ t₂) ↔ CurrencyRead t₂ :=
  List.forall_mem_append.trans (and_iff_right h)

/-- A look at the currency writes no row, and ends as its reads do. -/
theorem settlementCcy_rows {t : List (ApplyEvent F)} {r : Except Raised String}
    (h : settlementCcy.Runs t r) :
    writtenRows t = [] ∧ ((CurrencyRead t ∧ ∃ ccy, r = .ok ccy) ∨
      (¬ CurrencyRead t ∧ ∃ e, r = .error e)) := by
  obtain ⟨ccy, t₁, rfl, h₁⟩ := Prog.runs_call_bind.mp h
  split at h₁
  · next ccy _ =>
    obtain ⟨rfl, rfl⟩ := Prog.runs_pure.mp h₁
    exact ⟨rfl, .inl ⟨List.forall_mem_singleton.mpr rfl, ccy, rfl⟩⟩
  · obtain ⟨answer, t₂, rfl, h₂⟩ := Prog.runs_call_bind.mp h₁
    obtain ⟨rfl, hr⟩ := Prog.runs_ofExcept.mp h₂
    subst hr
    cases r with
    | ok ccy =>
      exact ⟨rfl, .inl ⟨List.forall_mem_cons.mpr ⟨rfl, List.forall_mem_singleton.mpr rfl⟩,
        ccy, rfl⟩⟩
    | error e =>
      refine ⟨rfl, .inr ⟨fun hread => ?_, e, rfl⟩⟩
      have hrefused := hread _ (List.mem_cons_of_mem _ List.mem_cons_self)
      cases hrefused

variable [PyFloat F] {t : List (ApplyEvent F)} {policy : OrderRetryPolicy F}

omit [PyFloat F] in
/-- Writing down the attempts writes no fill. -/
theorem auditAttempts_rows {signal qty : F} {attempts : List (ApplyAttempt F)}
    {r : Except Raised Unit} (h : (auditAttempts signal qty attempts).Runs t r) :
    writtenRows t = [] ∧ CurrencyRead t := by
  induction attempts generalizing t with
  | nil =>
    obtain ⟨rfl, -⟩ := Prog.runs_pure.mp h
    exact ⟨rfl, List.forall_mem_nil _⟩
  | cons attempt attempts ih =>
    obtain ⟨_, t', rfl, h'⟩ := Prog.runs_call_bind.mp h
    obtain ⟨hrows, hread⟩ := ih h'
    exact ⟨hrows, List.forall_mem_cons.mpr ⟨rfl, hread⟩⟩

/-- What is written of a fill is the fill, if its currency is read. -/
theorem writeTransaction_rows {action : IntendedAction} {vendorSymbol : String}
    {result : OrderResult F} {r : Except Raised Unit}
    (h : (writeTransaction action vendorSymbol result).Runs t r)
    (hwrites : ∀ e ∈ t, writeFailed e = false) (hsuccess : result.success = true) :
    (writtenRows t).map (fun row => (row.buySellCd, row.quantity)) =
      if CurrencyRead t then action.fill (some result) else [] := by
  unfold IntendedAction.fill OrderResult.fill
  unfold writeTransaction at h
  split at h
  · rename_i side filledQty hside hqty
    obtain ⟨ccy, t₁, t₂, hccy, h', rfl⟩ := Prog.runs_attempt_bind.mp h
    obtain ⟨hrows, ⟨hread, ccy', rfl⟩ | ⟨hread, e, rfl⟩⟩ := settlementCcy_rows hccy
    · obtain ⟨answer, t₃, rfl, h''⟩ := Prog.runs_call_bind.mp h'
      obtain ⟨rfl, -⟩ := Prog.runs_pure.mp h''
      cases answer with
      | ok _ =>
        rw [if_pos ((currencyRead_append hread).mpr (List.forall_mem_singleton.mpr rfl)),
          writtenRows_append, hrows, hside]
        show _ = if result.success = true then _ else _
        rw [if_pos hsuccess, hqty]
        rfl
      | error e => cases hwrites _ (List.mem_append_right _ List.mem_cons_self)
    · obtain ⟨rfl, -⟩ := Prog.runs_pure.mp h'
      rw [List.append_nil, hrows, if_neg hread]
      rfl
  · rename_i hnone
    obtain ⟨rfl, -⟩ := Prog.runs_pure.mp h
    rw [if_pos (show CurrencyRead [] from List.forall_mem_nil _)]
    cases hside : action.orderSide with
    | none => rfl
    | some side =>
      cases hqty : result.filledQty with
      | none =>
        show [] = if result.success = true then (Option.map _ result.filledQty).toList else []
        rw [if_pos hsuccess, hqty]
        rfl
      | some filledQty => exact (hnone side filledQty hside hqty).elim

/-- What is written of an outcome is the fill that its last attempt ended in. -/
theorem writeOutcome_rows {prepared : Prepared F} {o : OrderRetryResult F}
    {r : Except Raised Unit} (h : (writeOutcome prepared o).Runs t r)
    (hwrites : ∀ e ∈ t, writeFailed e = false) :
    (writtenRows t).map (fun row => (row.buySellCd, row.quantity)) =
      if CurrencyRead t then o.action.fill o.result else [] := by
  obtain ⟨e, he, -⟩ | ⟨_, t₁, t₂, haudit, h', rfl⟩ := Prog.runs_bind.mp h
  · cases auditAttempts_runs he
  obtain ⟨hnone, hread⟩ := auditAttempts_rows haudit
  rw [writtenRows_append, hnone, List.nil_append, if_congr (currencyRead_append hread) rfl rfl]
  split at h'
  · rename_i result hresult
    rw [hresult]
    split at h'
    · next hsuccess =>
      exact writeTransaction_rows h' (fun e he => hwrites e (List.mem_append_right _ he)) hsuccess
    · next hfailed =>
      obtain ⟨rfl, -⟩ := Prog.runs_pure.mp h'
      have hfill : o.action.fill (some result) = [] := by
        unfold IntendedAction.fill
        cases o.action.orderSide with
        | none => rfl
        | some side => exact OrderResult.fill_failed (Bool.not_eq_true _ ▸ hfailed) side
      rw [hfill, ite_self]
      rfl
  · next hresult =>
    obtain ⟨rfl, -⟩ := Prog.runs_pure.mp h'
    have hfill : o.action.fill (none : Option (OrderResult F)) = [] := by
      unfold IntendedAction.fill
      cases o.action.orderSide <;> rfl
    rw [hresult, hfill, ite_self]
    rfl

omit [PyFloat F] in
/-- What is said to the venue writes no row. -/
theorem writtenRows_inl (v : List (VenueEvent F)) :
    writtenRows (v.map (Prog.inlEvent (B := ApplyCall.Answer))) = [] :=
  List.filterMap_eq_nil_iff.mpr fun e he => by
    obtain ⟨e', -, rfl⟩ := List.mem_map.mp he
    rfl

omit [PyFloat F] in
theorem currencyRead_inl (v : List (VenueEvent F)) :
    CurrencyRead (v.map (Prog.inlEvent (B := ApplyCall.Answer))) := fun e he => by
  obtain ⟨e', -, rfl⟩ := List.mem_map.mp he
  rfl

/-- **What is reported is written.** When the writes succeed, the rows of a cycle
are the fills that were reported to it, on their sides, if their currency is read. -/
theorem written_eq_reportedFills {r : Except Raised (ApplyReport F)}
    (h : (applyDeployment policy).Runs t r) (hwrites : ∀ e ∈ t, writeFailed e = false) :
    (writtenRows t).map (fun row => (row.buySellCd, row.quantity)) =
      if CurrencyRead t then reportedFills (venueEvents t) else [] := by
  have hexecuted {v : List (VenueEvent F)} {a : CcxtAdapter F} {symbol : String} {signal qty : F}
      {x : Except Raised (OrderRetryResult F)} (hv : (execute policy a symbol signal qty).Runs v x) :
      reportedFills v = endFill (fun o => o.action.fill o.result) x := (executeLoop_fill hv).2
  cases applyDeployment_cases h with
  | unprepared e => exact (ite_self _).symm
  | @raised prepared v e hv =>
    show (writtenRows (v.map _)).map _ = if _ then reportedFills ((v.map _).filterMap _) else _
    rw [writtenRows_inl, Prog.filterMap_left?_map, hexecuted hv]
    exact (ite_self _).symm
  | @written prepared v o w hv hw =>
    have hread : CurrencyRead (⟨.inr .prepare, .ok prepared⟩ :: (v.map Prog.inlEvent ++ w)) ↔
        CurrencyRead w :=
      List.forall_mem_cons.trans ((and_iff_right rfl).trans
        (currencyRead_append (currencyRead_inl v)))
    show (writtenRows (v.map _ ++ w)).map _ = if _ then reportedFills ((v.map _ ++ w).filterMap _)
      else _
    rw [if_congr hread rfl rfl, writtenRows_append, writtenRows_inl, List.nil_append,
      List.filterMap_append, Prog.filterMap_left?_map,
      show w.filterMap Prog.left? = [] from venueEvents_aside (writeOutcome_aside _ _) hw,
      List.append_nil, hexecuted hv]
    refine writeOutcome_rows hw fun e he => hwrites e ?_
    exact List.mem_cons_of_mem _ (List.mem_append_right _ he)

end Rows

/-! ## What the venue tells -/

section Told

variable {F : Type} [PyFloat F]

/-- The status of an order, in any case of its letters. -/
def CcxtOrder.HasStatus (order : CcxtOrder F) (status : String) : Prop :=
  String.ofList (Python.lower (order.status.getD "")) = status

instance (order : CcxtOrder F) (status : String) : Decidable (order.HasStatus status) :=
  inferInstanceAs (Decidable (_ = _))

/-- A poll is answered with an order that is over and has filled `qty`: it is closed, or it was
cancelled or has expired after a part of it was filled. The statuses are those of ccxt. -/
def Tells (qty : F) : VenueEvent F → Prop
  | ⟨.fetchOrder _ _, .ok order⟩ =>
    order.filled.getD 0 = qty ∧ (order.HasStatus "closed" ∨ (PyFloat.lt 0 qty = true ∧
      (order.HasStatus "canceled" ∨ order.HasStatus "cancelled" ∨ order.HasStatus "expired")))
  | _ => False

/-- The orders of a record by their sides, each with what was asked before the next one. -/
def orderRecords : List (VenueEvent F) → List (OrderSide × List (VenueEvent F))
  | [] => []
  | e :: t =>
    match submitted e with
    | some (_, word, _) =>
      (.ofWord word, t.takeWhile fun e => (submitted e).isNone) :: orderRecords t
    | none => orderRecords t

/-- What the venue tells of an order is what the order filled: the one that was submitted after
`n` others has filled `filled n`. -/
def TellsTruth (value : F → ℚ) (filled : ℕ → ℚ) (t : List (VenueEvent F)) : Prop :=
  ∀ order ∈ (orderRecords t).zipIdx, ∀ e ∈ order.1.2, ∀ qty, Tells qty e →
    value qty = filled order.2

/-- The fills do not offset each other: they are all on one side. -/
def OneWay (filled : ℕ → ℚ) (t : List (VenueEvent F)) : Prop :=
  (∀ order ∈ (orderRecords t).zipIdx, 0 ≤ order.1.1.signed (filled order.2)) ∨
    ∀ order ∈ (orderRecords t).zipIdx, order.1.1.signed (filled order.2) ≤ 0

/-- Each order that filled anything was told to a poll, and the currency of its row is read. -/
def Confirmed (filled : ℕ → ℚ) (t : List (ApplyEvent F)) : Prop :=
  ∀ order ∈ (orderRecords (venueEvents t)).zipIdx, filled order.2 ≠ 0 →
    (∃ e ∈ order.1.2, ∃ qty, Tells qty e) ∧ CurrencyRead t

/-- The fill that a parsed order has. -/
theorem parseTerminal_eq {order : CcxtOrder F} {id : Option String} :
    (parseTerminal order id).bind (·.filledQty) =
      if order.HasStatus "closed" ∨ (PyFloat.lt 0 (order.filled.getD 0) = true ∧
        (order.HasStatus "canceled" ∨ order.HasStatus "cancelled" ∨ order.HasStatus "expired"))
      then some (order.filled.getD 0) else none := by
  have hover : (decide (String.ofList (Python.lower (order.status.getD "")) = "closed") ||
      (PyFloat.lt 0 (order.filled.getD 0) &&
        endedEarly.contains (String.ofList (Python.lower (order.status.getD ""))))) = true ↔
      order.HasStatus "closed" ∨ (PyFloat.lt 0 (order.filled.getD 0) = true ∧
        (order.HasStatus "canceled" ∨ order.HasStatus "cancelled" ∨ order.HasStatus "expired")) := by
    simp [endedEarly, CcxtOrder.HasStatus]
  unfold parseTerminal
  simp only
  rw [← if_congr hover rfl rfl]
  split
  · rfl
  · split <;> rfl

/-- **What the venue tells is what the poll reports**: the parser of the polls knows the orders
that are over, and their fills. -/
theorem tells_iff {qty : F} {e : VenueEvent F} : Tells qty e ↔ fillReport e = some qty := by
  obtain ⟨c, x⟩ := e
  cases c with
  | fetchOrder id symbol =>
    cases x with
    | error e => exact ⟨False.elim, fun h => by cases h⟩
    | ok order =>
      show (order.filled.getD 0 = qty ∧ _) ↔ (parseTerminal order (some id)).bind _ = some qty
      rw [parseTerminal_eq]
      constructor
      · rintro ⟨rfl, hover⟩
        exact if_pos hover
      · intro h
        obtain ⟨hover, hqty⟩ := Option.ite_none_right_eq_some.mp h
        obtain rfl := Option.some.inj hqty
        exact ⟨rfl, hover⟩
  | _ => exact ⟨False.elim, fun h => by cases h⟩

/-- The fill that is told first in an order's part of a record. -/
def told (events : List (VenueEvent F)) : Option F := events.findSome? fillReport

/-- A quantity that is told is told by one of the polls. -/
theorem tells_of_told {events : List (VenueEvent F)} {qty : F} (h : told events = some qty) :
    ∃ e ∈ events, Tells qty e := by
  obtain ⟨e, he, hqty⟩ := List.exists_of_findSome?_eq_some h
  exact ⟨e, he, tells_iff.mpr hqty⟩

/-- And there is one exactly when a poll tells it. -/
theorem told_isSome {events : List (VenueEvent F)} :
    (told events).isSome ↔ ∃ e ∈ events, ∃ qty, Tells qty e := by
  constructor
  · intro h
    obtain ⟨qty, hqty⟩ := Option.isSome_iff_exists.mp h
    obtain ⟨e, he, htells⟩ := tells_of_told hqty
    exact ⟨e, he, qty, htells⟩
  · rintro ⟨e, he, qty, htells⟩
    refine List.findSome?_isSome_iff.mpr ⟨e, he, ?_⟩
    rw [tells_iff.mp htells]
    rfl

/-- What is reported of an order is what the polls tell until the next order is submitted. -/
theorem reported_eq_told (t : List (VenueEvent F)) :
    reported t = told (t.takeWhile fun e => (submitted e).isNone) := by
  induction t with
  | nil => rfl
  | cons e t ih =>
    rw [reported, List.takeWhile_cons]
    cases hs : submitted e with
    | some order => rfl
    | none =>
      show (fillReport e <|> reported t) = told (e :: t.takeWhile _)
      rw [ih, told, told, List.findSome?_cons]
      cases fillReport e with
      | none => rfl
      | some qty => rfl

/-- The fills of a record are those that the venue tells of its orders. -/
theorem orderFills_eq_told (t : List (VenueEvent F)) :
    orderFills t = (orderRecords t).map fun order => (order.1, told order.2) := by
  induction t with
  | nil => rfl
  | cons e t ih =>
    rw [orderFills, orderRecords]
    cases submitted e with
    | none => exact ih
    | some order =>
      show (_, reported t) :: orderFills t = (_, told _) :: _
      rw [ih, reported_eq_told]

end Told

/-! ## What the rows are short by -/

section Accounting

variable {F : Type}

/-- A side changes no quantity to nothing. -/
theorem OrderSide.signed_eq_zero {side : OrderSide} {v : ℚ} : side.signed v = 0 ↔ v = 0 := by
  cases side with
  | buy => exact Iff.rfl
  | sell => exact neg_eq_zero

/-- The signed sum of the quantities that a record writes to `TRANSACTION`, each
at its exact value. -/
def recordedQty (value : F → ℚ) (t : List (ApplyEvent F)) : ℚ :=
  ((writtenRows t).map fun row => row.buySellCd.signed (value row.quantity)).sum

/-- What the orders submitted in a record filled net, where the order that was
submitted after `n` others filled `filled n`. -/
def netFilled (filled : ℕ → ℚ) (t : List (VenueEvent F)) : ℚ :=
  ((submissions t).zipIdx.map fun order =>
    (OrderSide.ofWord order.1.2.1).signed (filled order.2)).sum

variable [PyFloat F]

/-- What the orders of a record filled of which no row is written: the venue told no poll of
them, or the currency of the row was not read. -/
def shortfalls (filled : ℕ → ℚ) (t : List (ApplyEvent F)) : List ℚ :=
  (orderRecords (venueEvents t)).zipIdx.map fun order =>
    if (told order.1.2).isSome ∧ CurrencyRead t then 0 else order.1.1.signed (filled order.2)

variable {value : F → ℚ} {filled : ℕ → ℚ}

/-- What is reported of orders, of which the venue tells the truth, is what those that it tells
of filled. -/
theorem sum_reported {orders : List (OrderSide × List (VenueEvent F))} {n : ℕ}
    (h : ∀ order ∈ orders.zipIdx n, ∀ e ∈ order.1.2, ∀ qty, Tells qty e →
      value qty = filled order.2) :
    (((orders.map fun order => (order.1, told order.2)).filterMap fun order =>
        order.2.map (order.1, ·)).map fun fill => fill.1.signed (value fill.2)).sum =
      ((orders.zipIdx n).map fun order =>
        if (told order.1.2).isSome then order.1.1.signed (filled order.2) else 0).sum := by
  induction orders generalizing n with
  | nil => rfl
  | cons order orders ih =>
    rw [List.zipIdx_cons] at h
    have hrest := ih fun order' horder' => h order' (List.mem_cons_of_mem _ horder')
    rw [List.zipIdx_cons, List.map_cons, List.map_cons, List.sum_cons, ← hrest]
    cases htold : told order.2 with
    | none =>
      rw [List.filterMap_cons_none (by rfl), if_neg (by simp), zero_add]
    | some qty =>
      obtain ⟨e, he, htells⟩ := tells_of_told htold
      have hvalue : value qty = filled n := h (order, n) List.mem_cons_self e he qty htells
      rw [List.filterMap_cons_some (by rfl), if_pos (Option.isSome_some), List.map_cons,
        List.sum_cons, hvalue]

/-- What is filled is the sum over the orders. -/
theorem netFilled_eq (t : List (VenueEvent F)) :
    netFilled filled t =
      ((orderRecords t).zipIdx.map fun order => order.1.1.signed (filled order.2)).sum := by
  have hsides : (submissions t).map (fun order => OrderSide.ofWord order.2.1) =
      (orderRecords t).map Prod.fst := by
    rw [← orderFills_sides, orderFills_eq_told, List.map_map]
    rfl
  have hmap : ∀ {α : Type} (g : α → OrderSide) (xs : List α),
      (xs.zipIdx.map fun x => (g x.1).signed (filled x.2)) =
        ((xs.map g).zipIdx.map fun x => x.1.signed (filled x.2)) := fun g xs => by
    rw [List.zipIdx_map, List.map_map]
    rfl
  rw [netFilled, hmap fun order : String × String × F => OrderSide.ofWord order.2.1, hsides,
    ← hmap Prod.fst]

variable {t : List (ApplyEvent F)} {policy : OrderRetryPolicy F}
  {r : Except Raised (ApplyReport F)}

/-- **What a cycle writes down**, order by order: what the order has filled, where a poll told it
and the currency of the product could be read, and nothing otherwise. -/
theorem recordedQty_eq (h : (applyDeployment policy).Runs t r)
    (hwrites : ∀ e ∈ t, writeFailed e = false)
    (htruth : TellsTruth value filled (venueEvents t)) :
    recordedQty value t = ((orderRecords (venueEvents t)).zipIdx.map fun order =>
      if (told order.1.2).isSome ∧ CurrencyRead t then order.1.1.signed (filled order.2)
      else 0).sum := by
  have hrows : recordedQty value t =
      (((writtenRows t).map fun row => (row.buySellCd, row.quantity)).map fun fill =>
        fill.1.signed (value fill.2)).sum := by
    rw [recordedQty, List.map_map]
    rfl
  rw [hrows, written_eq_reportedFills h hwrites]
  by_cases hread : CurrencyRead t
  · simp only [hread, and_true, if_true]
    rw [reportedFills, orderFills_eq_told, sum_reported htruth]
  · rw [if_neg hread, List.map_nil, List.sum_nil]
    refine (List.sum_eq_zero fun x hx => ?_).symm
    obtain ⟨order, -, rfl⟩ := List.mem_map.mp hx
    exact if_neg fun hrow => hread hrow.2

/-- **What the rows are short by.** When the writes of a cycle succeed, and the venue tells the
truth, its rows add up to what its orders filled, less what those filled that have no row. -/
theorem fills_eq_recorded_add (h : (applyDeployment policy).Runs t r)
    (hwrites : ∀ e ∈ t, writeFailed e = false)
    (htruth : TellsTruth value filled (venueEvents t)) :
    netFilled filled (venueEvents t) = recordedQty value t + (shortfalls filled t).sum := by
  rw [netFilled_eq, recordedQty_eq h hwrites htruth, shortfalls, ← List.sum_map_add]
  refine congrArg List.sum (List.map_congr_left fun order _ => ?_)
  split
  · exact (add_zero _).symm
  · exact (zero_add _).symm

/-- An order has nothing without a row, exactly when what it filled was told and is written. -/
theorem confirmed_iff : Confirmed filled t ↔ ∀ x ∈ shortfalls filled t, x = 0 := by
  rw [shortfalls, List.forall_mem_map]
  refine forall₂_congr fun order _ => ?_
  rw [← told_isSome]
  split
  · next hrow => exact iff_of_true (fun _ => hrow) rfl
  · next hrow =>
    rw [OrderSide.signed_eq_zero]
    exact ⟨fun hfilled => by_contra fun hne => hrow (hfilled hne), fun hzero hne => absurd hzero hne⟩

/-- What the fills that go one way are short by goes that way too. -/
theorem OneWay.shortfalls (h : OneWay filled (venueEvents t)) :
    (∀ x ∈ shortfalls filled t, 0 ≤ x) ∨ ∀ x ∈ shortfalls filled t, x ≤ 0 := by
  refine h.imp (fun h x hx => ?_) fun h x hx => ?_
  all_goals
    obtain ⟨order, horder, rfl⟩ := List.mem_map.mp hx
    split
    · exact le_rfl
    · exact h order horder

/-- Numbers of one sign that add up to nothing are nothing. -/
theorem eq_zero_of_sum {xs : List ℚ} (h : (∀ x ∈ xs, 0 ≤ x) ∨ ∀ x ∈ xs, x ≤ 0)
    (hsum : xs.sum = 0) {x : ℚ} (hx : x ∈ xs) : x = 0 := by
  rcases h with h | h
  · exact List.all_zero_of_le_zero_le_of_sum_eq_zero h hsum hx
  · have hneg : -x ∈ xs.map Neg.neg := List.mem_map_of_mem hx
    have hsum' : (xs.map Neg.neg).sum = 0 := (List.sum_neg xs).symm.trans (neg_eq_zero.mpr hsum)
    have hle : ∀ y ∈ xs.map Neg.neg, 0 ≤ y := List.forall_mem_map.mpr fun y hy =>
      neg_nonneg.mpr (h y hy)
    exact neg_eq_zero.mp (List.all_zero_of_le_zero_le_of_sum_eq_zero hle hsum' hneg)

/-- **When the rows add up to what was filled.** Whatever the venue answers and whatever the
orders of a cycle filled, if its writes succeed, then the signed sum of the quantities that it
wrote is what its orders filled net, when the venue tells the truth and told of each order that
filled anything, and the currency of the row was read. Where the fills are all on one side,
nothing less will do. -/
theorem recorded_eq_filled_of_confirmed (h : (applyDeployment policy).Runs t r)
    (hwrites : ∀ e ∈ t, writeFailed e = false) :
    (TellsTruth value filled (venueEvents t) → Confirmed filled t →
      recordedQty value t = netFilled filled (venueEvents t)) ∧
    (TellsTruth value filled (venueEvents t) → OneWay filled (venueEvents t) →
      recordedQty value t = netFilled filled (venueEvents t) → Confirmed filled t) := by
  constructor
  · intro htruth hconfirmed
    rw [fills_eq_recorded_add h hwrites htruth, List.sum_eq_zero (confirmed_iff.mp hconfirmed),
      add_zero]
  · intro htruth hway heq
    rw [fills_eq_recorded_add h hwrites htruth, left_eq_add] at heq
    exact confirmed_iff.mpr fun x hx => eq_zero_of_sum hway.shortfalls heq hx

end Accounting

/-- A flat account on a venue that fills of an order what it is given to fill,
and answers its polls and the next read of the position by that. -/
def fillsOrder (ccy : Option String) (status : String) (filled : ℚ) (past : List (ApplyEvent ℚ)) :
    (c : VenueCall ℚ ⊕ ApplyCall ℚ) → Sum.elim VenueCall.Answer ApplyCall.Answer c
  | .inl (.fetchPositions _) =>
    .ok (if (submissions (venueEvents past)).isEmpty then []
      else [⟨some "BTC/USDT:USDT", some "BTCUSDT", some (.reads filled), none, some "long"⟩])
  | .inl (.market _) => .ok ⟨"BTC/USDT:USDT", some "BTC", none, none⟩
  | .inl .fetchBalance => .ok []
  | .inl (.fetchTicker _) => .ok ⟨none, none, none, none⟩
  | .inl (.createOrder ..) => .ok ⟨some "1", none, none, none, none⟩
  | .inl (.cancelOrder id _) => .ok ⟨some id, some "canceled", some filled, none, none⟩
  | .inl (.fetchOrder id _) => .ok ⟨some id, some status, some filled, some 50000, none⟩
  | .inl (.sleep _) => ()
  | .inr .prepare => .ok ⟨linearAdapter, "BTCUSDT", 1, 1⟩
  | .inr .productCcy => ccy
  | .inr (.setting _) => .error (.other "Redis unavailable")
  | .inr (.insExecutionEvent _) | .inr (.insTransaction _) | .inr .writeDeployment
  | .inr .insScheduleStatus => .ok ()

/-- The cycle of a signal to go long by one on that venue. -/
def goLongCycle (ccy : Option String) (status : String) (filled : ℚ) :
    List (ApplyEvent ℚ) × Except Raised (ApplyReport ℚ) :=
  (applyDeployment ⟨3, 5⟩).play (fillsOrder ccy status filled) []

/-- An order that fills whole is written. -/
theorem whole_fill_recorded :
    recordedQty id (goLongCycle (some "USDT") "closed" 1).1 =
      netFilled (fun _ => 1) (venueEvents (goLongCycle (some "USDT") "closed" 1).1) := by
  have hall : ∀ order ∈ (orderRecords (venueEvents (goLongCycle (some "USDT") "closed" 1).1)).zipIdx,
      (∀ e ∈ order.1.2, ∀ qty ∈ fillReport e, qty = 1) ∧ (told order.1.2).isSome := by
    decide +kernel
  refine (recorded_eq_filled_of_confirmed (Prog.play_runs (fillsOrder (some "USDT") "closed" 1) _ [])
    (by decide +kernel)).1 (fun order horder e he qty htells => ?_) fun order horder _ => ⟨?_, ?_⟩
  · exact (hall order horder).1 e he qty (tells_iff.mp htells)
  · exact told_isSome.mp (hall order horder).2
  · decide +kernel

/-- Of an order that is cancelled after it filled in part nothing is written,
although every poll told of the part, and the next attempt found it in the
position. Nor is anything of one that filled whole, where the product has no currency
and the setting cannot be read. -/
theorem part_fill_unrecorded :
    (let cycle := goLongCycle (some "USDT") "open" (2 / 5)
     (applyDeployment ⟨3, 5⟩).Runs cycle.1 cycle.2 ∧
      (∀ e ∈ cycle.1, writeFailed e = false) ∧
      cycle.2.toOption.map (·.positionQty) = some (2 / 5) ∧
      netFilled (fun _ => 2 / 5) (venueEvents cycle.1) = 2 / 5 ∧ recordedQty id cycle.1 = 0) ∧
    (let cycle := goLongCycle none "closed" 1
     (applyDeployment ⟨3, 5⟩).Runs cycle.1 cycle.2 ∧
      (∀ e ∈ cycle.1, writeFailed e = false) ∧
      netFilled (fun _ => 1) (venueEvents cycle.1) = 1 ∧ recordedQty id cycle.1 = 0) := by
  refine ⟨⟨Prog.play_runs (fillsOrder (some "USDT") "open" (2 / 5)) _ [], ?_, ?_, ?_, ?_⟩,
    ⟨Prog.play_runs (fillsOrder none "closed" 1) _ [], ?_, ?_, ?_⟩⟩ <;> decide +kernel
