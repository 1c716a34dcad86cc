import QuantStrategies.Trade.Executor

/-!
# Orders are not stacked

The promises of the executor about the record of a whole run, whatever the venue
answers. An order that the venue acknowledged rests until the venue answers a
cancel of it, as far as the executor may assume; a further order is submitted
when none rests (`NeverStacks`).

An order is acknowledged under the id that `create_order` answers. ccxt reads
ids by its `safe_string`, for which an empty field is a missing one, so that an
empty text is nobody's id (`CcxtOrder.acknowledgedId`). That is an assumption on the
venue's answers, `NamesOrders`: an order that a venue acknowledged under an empty id
could not be cancelled, and would not be seen here. Under it the orders that rest are
those of any id (`restingAfter_of_namesOrders`).
-/

variable {F : Type}

/-! ## What a record says -/

/-- The symbol, side and size of the order that an event submits. -/
def submitted : VenueEvent F → Option (String × String × F)
  | ⟨.createOrder symbol side qty, _⟩ => some (symbol, side, qty)
  | _ => none

/-- The orders submitted in a record. -/
abbrev submissions (t : List (VenueEvent F)) : List (String × String × F) :=
  t.filterMap submitted

/-- The id that an order was acknowledged under. The executor takes an empty one for
none, as ccxt does. -/
def CcxtOrder.acknowledgedId (order : CcxtOrder F) : Option String :=
  order.id.filter (· != "")

/-- The venue acknowledges no order under an empty id. -/
def NamesOrders : VenueEvent F → Prop
  | ⟨.createOrder .., .ok order⟩ => order.id ≠ some ""
  | _ => True

/-- The acknowledged orders that no answered cancel has ended yet, after one more
event. -/
def restingAfter (ids : List String) : VenueEvent F → List String
  | ⟨.createOrder .., .ok order⟩ => order.acknowledgedId.toList ++ ids
  | ⟨.cancelOrder id _, .ok _⟩ => ids.filter (· != id)
  | _ => ids

/-- **Of a venue that names its orders, every acknowledged order is counted**, under
whatever id it was acknowledged. -/
theorem restingAfter_of_namesOrders {symbol side : String} {qty : F} {order : CcxtOrder F}
    (h : NamesOrders ⟨.createOrder symbol side qty, .ok order⟩) (ids : List String) :
    restingAfter ids ⟨.createOrder symbol side qty, .ok order⟩ = order.id.toList ++ ids := by
  have hid : order.acknowledgedId = order.id := by
    rw [CcxtOrder.acknowledgedId]
    cases hid : order.id with
    | none => rfl
    | some id =>
      have hne : id ≠ "" := fun hempty => h (hid.trans (congrArg some hempty))
      exact if_pos (bne_iff_ne.mpr hne)
  rw [restingAfter, hid]

/-- The acknowledged orders that a record leaves resting. -/
abbrev resting (ids : List String) (t : List (VenueEvent F)) : List String :=
  t.foldl restingAfter ids

/-- In the record, an order is only submitted when none rests. -/
def NeverStacks : List String → List (VenueEvent F) → Prop
  | _, [] => True
  | ids, e :: t => ((submitted e).isSome → ids = []) ∧ NeverStacks (restingAfter ids e) t

/-- What a cancel was refused with. -/
def cancelRefused : VenueEvent F → Option VenueRaise
  | ⟨.cancelOrder .., .error e⟩ => some e
  | _ => none

/-- The final result of an attempt whose order had the result, and what happened
to the order after that. -/
def finalResult (settled : List (VenueEvent F)) (result : OrderResult F) : OrderResult F :=
  if settled.any fun e => (cancelRefused e).isSome then
    { result with reason := some .cancelFailed }
  else result

section Records

variable [PyFloat F]

/-- The orders of the record of an attempt: none, or the one that `order_for`
derives from the position that the attempt read first. -/
def OrdersFromRead (s : CcxtSession) (symbol : String) (signal qty : F)
    (t : List (VenueEvent F)) : Prop :=
  submissions t = [] ∨
    ∃ read rest positionQty action req, t = read ++ rest ∧ submissions read = [] ∧
      (s.fetchPositionQty symbol).Runs read (.ok positionQty) ∧
      intendedAction signal positionQty = .ok action ∧
      orderFor symbol action qty positionQty = some req ∧
      submissions rest = [(req.symbol, CcxtAdapter.sideWord req.side, req.qty)]

/-- The record `t` is that of the attempt `att`: it reads the position that `att`
has, and if that calls for an order, the order is placed, and cancelled where it
has to be, with the result that `att` has. -/
def Recorded (a : CcxtAdapter F) (symbol : String) (signal qty : F)
    (t : List (VenueEvent F)) (att : ApplyAttempt F) : Prop :=
  ∃ read rest, t = read ++ rest ∧
    (a.session.fetchPositionQty symbol).Runs read (.ok att.positionQty) ∧
    intendedAction signal att.positionQty = .ok att.action ∧
    match orderFor symbol att.action qty att.positionQty with
    | none => rest = [] ∧ att.result = none
    | some req =>
      ∃ profile placed settled profile' result,
        rest = placed ++ settled ∧
        ({ a with keyProfile := profile }.placeOrder req).Runs placed (.ok (profile', result)) ∧
        (∀ e ∈ settled, ∃ id, result.vendorOrderId = some id ∧ e.1 = .cancelOrder id symbol) ∧
        att.result = some (finalResult settled result)

end Records

/-! ## Records piece by piece -/

variable {ids : List String} {e : VenueEvent F} {t t₁ t₂ : List (VenueEvent F)}

/-- A record stacks no order exactly when its first part does not, and its second one does not
either, beginning with what rests after the first. -/
theorem neverStacks_append :
    NeverStacks ids (t₁ ++ t₂) ↔ NeverStacks ids t₁ ∧ NeverStacks (resting ids t₁) t₂ := by
  induction t₁ generalizing ids with
  | nil => exact (true_and _).symm ▸ Iff.rfl
  | cons e t₁ ih =>
    show _ ∧ NeverStacks _ (t₁ ++ t₂) ↔ (_ ∧ NeverStacks _ t₁) ∧ _
    rw [ih, and_assoc]
    rfl

/-- An event that writes nothing submits nothing, and ends no order. -/
theorem quiet_event (h : e.1.writes = false) :
    submitted e = none ∧ (∀ ids, restingAfter ids e = ids) ∧ cancelRefused e = none := by
  obtain ⟨c, x⟩ := e
  cases c with
  | createOrder _ _ _ => cases h
  | cancelOrder _ _ => cases h
  | _ => exact ⟨rfl, fun _ => rfl, rfl⟩

/-- What rests at the end of a record is what its second part leaves of what rested before. -/
theorem resting_append : resting ids (t₁ ++ t₂) = resting (resting ids t₁) t₂ :=
  List.foldl_append

/-- The submissions of a record are those of its parts, in order. -/
theorem submissions_append : submissions (t₁ ++ t₂) = submissions t₁ ++ submissions t₂ :=
  List.filterMap_append

/-- A part of the record without orders and cancels leaves what rests. -/
theorem resting_quiet (h : Quiet t) : resting ids t = ids := by
  induction t with
  | nil => rfl
  | cons e t ih =>
    have he : restingAfter ids e = ids := (quiet_event (h e List.mem_cons_self)).2.1 ids
    show resting (restingAfter ids e) t = ids
    rw [he]
    exact ih fun e' he' => h e' (List.mem_cons_of_mem _ he')

theorem submissions_quiet (h : Quiet t) : submissions t = [] :=
  List.filterMap_eq_nil_iff.mpr fun e he => (quiet_event (h e he)).1

/-- A record without orders stacks none. -/
theorem neverStacks_of_submissions (h : submissions t = []) : NeverStacks ids t := by
  induction t generalizing ids with
  | nil => trivial
  | cons e t ih =>
    have hnone := List.filterMap_eq_nil_iff.mp h
    refine ⟨fun hs => ?_, ih (List.filterMap_eq_nil_iff.mpr fun e' he' =>
      hnone e' (List.mem_cons_of_mem _ he'))⟩
    rw [hnone e List.mem_cons_self] at hs
    cases hs

theorem neverStacks_quiet (h : Quiet t) : NeverStacks ids t :=
  neverStacks_of_submissions (submissions_quiet h)

theorem cancelRefused_quiet (h : Quiet t) (he : e ∈ t) : cancelRefused e = none :=
  (quiet_event (h e he)).2.2

/-- An event of a joined record that the first part has none of is in the second. -/
theorem split_append {P : VenueEvent F → Prop} {before after : List (VenueEvent F)}
    (h₁ : ∀ e ∈ t₁, ¬ P e) (he : P e)
    (h : t₁ ++ t₂ = before ++ e :: after) : ∃ rest, t₂ = rest ++ e :: after := by
  induction t₁ generalizing before with
  | nil => exact ⟨before, h⟩
  | cons e₁ t₁ ih =>
    cases before with
    | nil =>
      obtain rfl : e₁ = e := (List.cons.inj h).1
      exact absurd he (h₁ e₁ List.mem_cons_self)
    | cons _ before =>
      exact ih (fun e' he' => h₁ e' (List.mem_cons_of_mem _ he')) (List.cons.inj h).2

/-! ## The record of one order -/

variable [PyFloat F] {s : CcxtSession} {a : CcxtAdapter F} {symbol : String} {signal qty : F}
  {req : OrderRequest F}

/-- What placing an order leaves in the record: one submission at most, of the
order as it was asked for, no cancel, and no order resting that the result does
not account for. -/
structure Placed (req : OrderRequest F) (t : List (VenueEvent F))
    (r : Except Raised (Option KeyProfile × OrderResult F)) : Prop where
  /-- The order is submitted while none rests. -/
  neverStacks : NeverStacks [] t
  /-- It is submitted once, as it was asked for, or not at all. -/
  submissions : submissions t = [] ∨
    submissions t = [(req.symbol, CcxtAdapter.sideWord req.side, req.qty)]
  /-- Placing cancels nothing. -/
  noCancel : ∀ e ∈ t, cancelRefused e = none
  /-- An order that rests afterwards is named by the result. -/
  accounts : ∀ id ∈ resting [] t, id ≠ "" ∧ Accounted Prod.snd id r

/-- **Placing an order** keeps all of this, whether it is refused before it is sent, refused by
the venue, polled to its end or given up. -/
theorem placeOrder_placed {r : Except Raised (Option KeyProfile × OrderResult F)}
    (h : (a.placeOrder req).Runs t r) : Placed req t r := by
  obtain hq | ⟨before, answer, after, rfl, hb, ha, hacc⟩ := placeOrder_runs h
  · refine ⟨neverStacks_quiet hq, .inl (submissions_quiet hq), fun e => cancelRefused_quiet hq,
      fun id hid => ?_⟩
    rw [resting_quiet hq] at hid
    cases hid
  · refine ⟨neverStacks_append.mpr ⟨neverStacks_quiet hb, fun _ => resting_quiet hb,
      neverStacks_quiet ha⟩, .inr ?_, fun e he => ?_, fun id hid => ?_⟩
    · rw [submissions_append, submissions_quiet hb, List.nil_append]
      show _ :: submissions after = _
      rw [submissions_quiet ha]
    · rcases List.mem_append.mp he with he | he
      · exact cancelRefused_quiet hb he
      · rcases List.mem_cons.mp he with rfl | he
        · rfl
        · exact cancelRefused_quiet ha he
    · rw [resting_append, resting_quiet hb] at hid
      change id ∈ resting (restingAfter [] _) after at hid
      rw [resting_quiet ha] at hid
      cases answer with
      | error e => cases hid
      | ok raw =>
        have hid' : raw.acknowledgedId = some id := by
          simpa [restingAfter] using hid
        obtain ⟨hsome, hne⟩ := Option.filter_eq_some_iff.mp hid'
        exact ⟨by simpa using hne, hacc raw id rfl hsome⟩

section Settled

variable {action : IntendedAction} {positionQty : F} {result : OrderResult F}
  {r : Except Raised (ApplyAttempt F × Bool)} {made : ApplyAttempt F × Bool}

omit [PyFloat F] in
/-- What an attempt hands on: what it was to do, from which position, and the result with what
became of the cancel. -/
theorem Settled.made_eq (h : Settled symbol action positionQty result t r) (hr : r = .ok made) :
    made.1 = ⟨action, positionQty, some (finalResult t result)⟩ := by
  cases h with
  | cancelRaised _ _ => cases hr
  | _ => cases hr; rfl

omit [PyFloat F] in
/-- Settling speaks to the venue of the order that the result names, and of no other. -/
theorem Settled.cancels (h : Settled symbol action positionQty result t r) :
    ∀ e ∈ t, ∃ id, result.vendorOrderId = some id ∧ e.1 = .cancelOrder id symbol := by
  intro e he
  cases h with
  | final _ => cases he
  | again _ _ => cases he
  | canceled _ _ hid => exact ⟨_, hid, List.mem_singleton.mp he ▸ rfl⟩
  | cancelFailed _ _ _ hid => exact ⟨_, hid, List.mem_singleton.mp he ▸ rfl⟩
  | cancelRaised _ hid => exact ⟨_, hid, List.mem_singleton.mp he ▸ rfl⟩

omit [PyFloat F] in
theorem Settled.submissions_eq (h : Settled symbol action positionQty result t r) :
    submissions t = [] := by
  cases h <;> rfl

omit [PyFloat F] in
/-- A cancel that ccxt refuses is the attempt's last act, and its reason. -/
theorem Settled.cancelFails (h : Settled symbol action positionQty result t r)
    {before after : List (VenueEvent F)} {cls : CcxtClass} {text : String}
    (ht : t = before ++ e :: after) (he : cancelRefused e = some (.ccxt cls text)) :
    after = [] ∧ ∃ made final, r = .ok made ∧ made.2 = false ∧
      made.1.result = some final ∧ final.success = false ∧
        final.reason = some .cancelFailed := by
  have hmem : e ∈ t := ht ▸ List.mem_append_right _ List.mem_cons_self
  have hone : t.length ≤ 1 := by
    cases h <;> exact Nat.le_of_ble_eq_true rfl
  have hafter : after = [] := by
    rw [ht, List.length_append, List.length_cons] at hone
    exact List.eq_nil_of_length_eq_zero (by omega)
  refine ⟨hafter, ?_⟩
  cases h with
  | final _ => cases hmem
  | again _ _ => cases hmem
  | canceled _ _ _ =>
    rw [List.mem_singleton.mp hmem] at he
    cases he
  | cancelFailed _ _ hretry _ =>
    exact ⟨_, _, rfl, rfl, rfl, (isRetryable.untyped hretry).1, rfl⟩
  | cancelRaised _ _ =>
    rw [List.mem_singleton.mp hmem] at he
    cases he

omit [PyFloat F] in
/-- An order that may be tried again, and whose result accounts for its id, is
unconfirmed under that id. -/
theorem AccountsFor.unconfirmed {id : String} (h : AccountsFor id result)
    (hretry : isRetryable result = true) :
    isUnconfirmed result = true ∧ result.vendorOrderId = some id := by
  obtain ⟨hs, hn⟩ := isRetryable.untyped hretry
  rcases h with h | h | ⟨hid, h | h⟩
  · exact absurd (hs.symm.trans h) Bool.noConfusion
  · cases hn.symm.trans h
  · exact absurd hn h
  · exact ⟨h, hid⟩

omit [PyFloat F] in
/-- **An attempt that may be followed by another leaves no order resting.** An
order whose result may be tried again is unconfirmed under its own id, and was
cancelled. -/
theorem Settled.resting_eq (hids : ∀ id ∈ ids, id ≠ "" ∧ AccountsFor id result)
    (h : Settled symbol action positionQty result t r) (hr : r = .ok made)
    (hagain : made.2 = true) : resting ids t = [] := by
  cases h with
  | final _ => cases hr; cases hagain
  | cancelFailed _ _ _ _ => cases hr; cases hagain
  | cancelRaised _ _ => cases hr
  | again hretry hnone =>
    refine List.eq_nil_iff_forall_not_mem.mpr fun id hid => (hids id hid).1 ?_
    obtain ⟨hu, hv⟩ := (hids id hid).2.unconfirmed hretry
    exact hnone id hu hv
  | canceled raw hretry hv =>
    refine List.filter_eq_nil_iff.mpr fun id hid => ?_
    have : _ = id := Option.some.inj (hv.symm.trans ((hids id hid).2.unconfirmed hretry).2)
    simp [this]

/-- What a final result says of an order that it leaves resting: that it is over,
or a reason, which is that of a failed cancel, or of a refusal under the order's
own id. -/
def LeftWith (id : String) (final : OrderResult F) : Prop :=
  final.success = true ∨ ∃ reason, final.reason = some reason ∧
    (reason = .venueRejected ∨ reason = .cancelFailed ∨ final.vendorOrderId = some id)

/-- What an end says of an order that it leaves resting, by its final result, or
by an exception, which is no broker error. -/
def Leaves {α : Type} (result : α → Option (OrderResult F)) (id : String) :
    Except Raised α → Prop
  | .ok x => ∃ final, result x = some final ∧ LeftWith id final
  | .error e => e.isConnectionError = false

omit [PyFloat F] in
/-- **No order is left resting without a word.** An order that may still rest when the attempt
ends is named by its result, or what the attempt raises is no connection error. -/
theorem Settled.leaves (hids : ∀ id ∈ ids, id ≠ "" ∧ AccountsFor id result)
    (h : Settled symbol action positionQty result t r) {id : String} (hid : id ∈ resting ids t) :
    Leaves (fun made => made.1.result) id r := by
  have hnone {made : ApplyAttempt F × Bool} (hr : r = .ok made) (hagain : made.2 = true) : False := by
    rw [h.resting_eq hids hr hagain] at hid
    cases hid
  cases h with
  | final hfinal =>
    refine ⟨result, rfl, ?_⟩
    rcases (hids id hid).2 with h | h | ⟨hv, h⟩
    · exact .inl h
    · exact .inr ⟨_, h, .inl rfl⟩
    · cases hs : result.success with
      | true => exact .inl hs
      | false =>
        cases hr : result.reason with
        | some reason => exact .inr ⟨reason, hr, .inr (.inr hv)⟩
        | none =>
          -- an unconfirmed result may be tried again
          have hu : isUnconfirmed result = true := h.resolve_left (absurd hr)
          rw [isRetryable, if_neg (by rw [hs]; exact Bool.false_ne_true),
            if_neg (by rw [hr]; exact Bool.false_ne_true), if_pos hu] at hfinal
          cases hfinal
  | cancelFailed _ _ _ _ => exact ⟨_, rfl, .inr ⟨_, rfl, .inr (.inl rfl)⟩⟩
  | cancelRaised _ _ => rfl
  | again _ _ => exact (hnone rfl rfl).elim
  | canceled _ _ _ => exact (hnone rfl rfl).elim

end Settled

/-! ## The record of one attempt -/

/-- What the record of one attempt promises. -/
structure AttemptOk (a : CcxtAdapter F) (symbol : String) (signal qty : F)
    (t : List (VenueEvent F))
    (r : Except Raised (Option KeyProfile × ApplyAttempt F × Bool)) : Prop where
  /-- The attempt submits while none rests. -/
  neverStacks : NeverStacks [] t
  /-- A cancel that ccxt refuses is the last thing that it does, and ends the run. -/
  cancelFails : ∀ before e after cls text, t = before ++ e :: after →
    cancelRefused e = some (.ccxt cls text) → after = [] ∧
      ∃ made final, r = .ok made ∧ made.2.2 = false ∧
        made.2.1.result = some final ∧ final.success = false ∧ final.reason = some .cancelFailed
  /-- It submits one order at most. -/
  submissions_le : (submissions t).length ≤ 1
  /-- An order is the one that the signal and the position that was read call for. -/
  ordersFromRead : OrdersFromRead a.session symbol signal qty t
  /-- What is handed on tells what was done. -/
  recorded : ∀ made, r = .ok made → Recorded a symbol signal qty t made.2.1
  /-- Where another attempt follows, nothing rests. -/
  again : ∀ made, r = .ok made → made.2.2 = true → resting [] t = []
  /-- What does rest is named by the result, with the reason that it was left. -/
  leaves : ∀ id ∈ resting [] t, Leaves (fun made => made.2.1.result) id r

/-- An attempt that only read. -/
theorem AttemptOk.of_quiet {r : Except Raised (Option KeyProfile × ApplyAttempt F × Bool)}
    (h : Quiet t) (hr : ∀ made, r = .ok made → Recorded a symbol signal qty t made.2.1) :
    AttemptOk a symbol signal qty t r where
  neverStacks := neverStacks_quiet h
  cancelFails before e after cls text ht he := by
    rw [cancelRefused_quiet h (ht ▸ List.mem_append_right _ List.mem_cons_self)] at he
    cases he
  submissions_le := by rw [submissions_quiet h]; exact Nat.zero_le 1
  ordersFromRead := .inl (submissions_quiet h)
  recorded := hr
  again _ _ _ := resting_quiet h
  leaves id hid := by
    rw [resting_quiet h] at hid
    cases hid

/-- An attempt that placed an order, with what followed. -/
theorem AttemptOk.of_placed {read placed settled : List (VenueEvent F)} {positionQty : F}
    {action : IntendedAction}
    {p : Except Raised (Option KeyProfile × OrderResult F)}
    {r : Except Raised (Option KeyProfile × ApplyAttempt F × Bool)}
    (hread : (a.getPositionQty symbol).Runs read (.ok positionQty))
    (haction : intendedAction signal positionQty = .ok action)
    (horder : orderFor symbol action qty positionQty = some req)
    (hplaced : (a.placeOrder req).Runs placed p)
    (hsubs : submissions settled = [])
    (hfails : ∀ before e after cls text, settled = before ++ e :: after →
      cancelRefused e = some (.ccxt cls text) → after = [] ∧
        ∃ made final, r = .ok made ∧ made.2.2 = false ∧
          made.2.1.result = some final ∧ final.success = false ∧
          final.reason = some .cancelFailed)
    (hrecorded : ∀ made, r = .ok made →
      Recorded a symbol signal qty (read ++ (placed ++ settled)) made.2.1)
    (hagain : ∀ made, r = .ok made → made.2.2 = true → resting (resting [] placed) settled = [])
    (hleaves : ∀ id ∈ resting (resting [] placed) settled,
      Leaves (fun made => made.2.1.result) id r) :
    AttemptOk a symbol signal qty (read ++ (placed ++ settled)) r := by
  have hq : Quiet read := reads_getPositionQty symbol _ _ hread
  have hp := placeOrder_placed hplaced
  have hsubmissions : submissions (placed ++ settled) = submissions placed := by
    rw [submissions_append, hsubs, List.append_nil]
  have hresting : resting [] (read ++ (placed ++ settled)) = resting (resting [] placed) settled := by
    rw [resting_append, resting_quiet hq, resting_append]
  refine ⟨?_, ?_, ?_, ?_, hrecorded, fun made hr h => hresting ▸ hagain made hr h,
    fun id hid => hleaves id (hresting ▸ hid)⟩
  · refine neverStacks_append.mpr ⟨neverStacks_quiet hq, ?_⟩
    rw [resting_quiet hq]
    exact neverStacks_append.mpr ⟨hp.neverStacks, neverStacks_of_submissions hsubs⟩
  · intro before e after cls text ht he
    have hrefused : ∀ {t : List (VenueEvent F)}, (∀ e ∈ t, cancelRefused e = none) →
        ∀ e ∈ t, ¬ cancelRefused e = some (.ccxt cls text) :=
      fun h e he h' => by cases (h e he).symm.trans h'
    obtain ⟨before', ht'⟩ := split_append (hrefused fun e he => cancelRefused_quiet hq he) he ht
    obtain ⟨before'', ht''⟩ := split_append (hrefused hp.noCancel) he ht'
    exact hfails before'' e after cls text ht'' he
  · rw [submissions_append, submissions_quiet hq, List.nil_append, hsubmissions]
    rcases hp.submissions with h | h
    · rw [h]; exact Nat.zero_le 1
    · rw [h]; exact le_refl 1
  · rcases hp.submissions with h | h
    · refine .inl ?_
      rw [submissions_append, submissions_quiet hq, hsubmissions, h]
      rfl
    · exact .inr ⟨read, placed ++ settled, positionQty, action, req, rfl, submissions_quiet hq,
        hread, haction, horder, hsubmissions.trans h⟩

/-- **One attempt keeps the executor's promises.** It submits one order at most, of the action
that the position it read calls for, and accounts for what it leaves resting. -/
theorem attempt_ok {r : Except Raised (Option KeyProfile × ApplyAttempt F × Bool)}
    (h : (a.attempt symbol signal qty).Runs t r) : AttemptOk a symbol signal qty t r := by
  have hquiet : ∀ {read x}, (a.getPositionQty symbol).Runs read x → Quiet read :=
    fun hread => reads_getPositionQty symbol _ _ hread
  cases attempt_runs h with
  | unread hread => exact .of_quiet (hquiet hread) (fun _ h => by cases h)
  | undecided hread _ => exact .of_quiet (hquiet hread) (fun _ h => by cases h)
  | noOrder hread haction horder =>
    refine .of_quiet (hquiet hread) fun made hr => ?_
    obtain rfl := Except.ok.inj hr
    refine ⟨_, [], (List.append_nil _).symm, hread, haction, ?_⟩
    rw [horder]
    exact ⟨rfl, rfl⟩
  | @unplaced read placed positionQty action req e hread haction horder hplaced =>
    rw [← List.append_nil placed]
    refine .of_placed hread haction horder hplaced rfl ?_ (fun _ h => (by cases h))
      (fun _ h => (by cases h)) fun id hid => ((placeOrder_placed hplaced).accounts id hid).2
    exact fun before _ _ _ _ h _ => absurd h (by simp)
  | @placed read placed settled positionQty action req profile result r hread haction horder
      hplaced hsettled =>
    have hids : ∀ id ∈ resting [] placed, id ≠ "" ∧ AccountsFor id result :=
      fun id hid => (placeOrder_placed hplaced).accounts id hid
    refine .of_placed hread haction horder hplaced hsettled.submissions_eq ?_ ?_ ?_ ?_
    · intro before e after cls text ht he
      obtain ⟨hafter, made, final, rfl, hagain, hfinal, hfailed⟩ := hsettled.cancelFails ht he
      exact ⟨hafter, (profile, made), final, rfl, hagain, hfinal, hfailed⟩
    · rintro made hr
      cases r with
      | error e => cases hr
      | ok settledMade =>
        obtain rfl := Except.ok.inj hr
        show Recorded _ _ _ _ _ settledMade.1
        rw [hsettled.made_eq rfl]
        refine ⟨read, placed ++ settled, rfl, hread, haction, ?_⟩
        rw [horder]
        exact ⟨a.keyProfile, placed, settled, profile, result, rfl, hplaced, hsettled.cancels, rfl⟩
    · rintro made hr hagain
      cases r with
      | error e => cases hr
      | ok settledMade =>
        obtain rfl := Except.ok.inj hr
        exact hsettled.resting_eq hids rfl hagain
    · intro id hid
      have hleaves := hsettled.leaves hids hid
      cases r with
      | error e => exact hleaves
      | ok settledMade => exact hleaves

/-! ## The record of a run -/

/-- What the record of a run promises, with the attempts made before it and the
number of those that were left. -/
structure RunOk (policy : OrderRetryPolicy F) (a : CcxtAdapter F) (symbol : String)
    (signal qty : F) (attempts : List (ApplyAttempt F)) (left : ℕ) (t : List (VenueEvent F))
    (r : Except Raised (OrderRetryResult F)) : Prop where
  /-- No order of the run is submitted while one rests. -/
  neverStacks : NeverStacks [] t
  /-- A cancel that ccxt refuses is the last call of the run. -/
  cancelFails : ∀ before e after cls text, t = before ++ e :: after →
    cancelRefused e = some (.ccxt cls text) → after = [] ∧
      ∃ o final, r = .ok o ∧ o.result = some final ∧ final.success = false ∧
        final.reason = some .cancelFailed
  /-- As many orders as there were attempts left, at most. -/
  submissions_le : (submissions t).length ≤ left
  /-- What rests at the end is named by the result. -/
  leaves : ∀ id ∈ resting [] t, Leaves OrderRetryResult.result id r
  /-- The record is cut into the attempts, with a wait between any two of them, and each is
  listed with what it did. -/
  recorded : ∃ (made : List (List (VenueEvent F) × ApplyAttempt F)) (last : List (VenueEvent F)),
    t = (made.map fun m => m.1 ++ [⟨.sleep policy.backoffS, ()⟩]).flatten ++ last ∧
    made.length ≤ left - 1 ∧
    (∀ m ∈ made, OrdersFromRead a.session symbol signal qty m.1 ∧
      Recorded a symbol signal qty m.1 m.2) ∧
    OrdersFromRead a.session symbol signal qty last ∧
    ∀ o, r = .ok o → ∃ att, Recorded a symbol signal qty last att ∧
      o.attempts = attempts ++ made.map Prod.snd ++ [att] ∧ o.result = att.result

variable {policy : OrderRetryPolicy F} {attempts : List (ApplyAttempt F)} {left : ℕ}
  {r : Except Raised (OrderRetryResult F)}

/-- A run that ends with its first attempt. -/
theorem RunOk.of_last {x : Except Raised (Option KeyProfile × ApplyAttempt F × Bool)}
    (h : AttemptOk a symbol signal qty t x)
    (hr : r = x.map fun made => outcome policy made.2.1 (attempts ++ [made.2.1])) :
    RunOk policy a symbol signal qty attempts (left + 1) t r where
  neverStacks := h.neverStacks
  cancelFails before e after cls text ht he := by
    obtain ⟨hafter, made, final, rfl, -, hfinal, hfailed⟩ := h.cancelFails before e after cls text ht he
    exact ⟨hafter, _, final, hr, hfinal, hfailed⟩
  submissions_le := h.submissions_le.trans (Nat.le_add_left 1 left)
  leaves id hid := by
    have hleaves := h.leaves id hid
    subst hr
    cases x with
    | error e => exact hleaves
    | ok made => exact hleaves
  recorded := by
    refine ⟨[], t, rfl, Nat.zero_le _, fun m hm => (by cases hm), h.ordersFromRead, ?_⟩
    intro o ho
    cases x with
    | error e => cases hr.symm.trans ho
    | ok made =>
      obtain rfl := Except.ok.inj (hr.symm.trans ho)
      exact ⟨made.2.1, h.recorded made rfl, by rw [List.map_nil, List.append_nil]; rfl, rfl⟩

/-- **The run lemma.** An attempt that may be tried again, and a run that keeps
the promises after it, keep them together. -/
theorem RunOk.cons {made : Option KeyProfile × ApplyAttempt F × Bool} (hleft : left ≠ 0)
    (h₁ : AttemptOk a symbol signal qty t₁ (.ok made)) (hagain : made.2.2 = true)
    (h₂ : RunOk policy { a with keyProfile := made.1 } symbol signal qty
      (attempts ++ [made.2.1]) left t₂ r) :
    RunOk policy a symbol signal qty attempts (left + 1)
      (t₁ ++ ⟨.sleep policy.backoffS, ()⟩ :: t₂) r where
  neverStacks := by
    refine neverStacks_append.mpr ⟨h₁.neverStacks, fun h => (by cases h), ?_⟩
    rw [h₁.again made rfl hagain]
    exact h₂.neverStacks
  cancelFails before e after cls text ht he := by
    have hnone : ∀ e ∈ t₁ ++ [⟨.sleep policy.backoffS, ()⟩],
        ¬ cancelRefused e = some (.ccxt cls text) := by
      intro e he h
      rcases List.mem_append.mp he with he | he
      · obtain ⟨before, after, ht⟩ := List.append_of_mem he
        obtain ⟨-, made', final, hr, hfinal, -⟩ := h₁.cancelFails before e after cls text ht h
        obtain rfl := Except.ok.inj hr
        exact absurd (hagain.symm.trans hfinal) Bool.noConfusion
      · rw [List.mem_singleton.mp he] at h
        cases h
    have ht' : (t₁ ++ [⟨.sleep policy.backoffS, ()⟩]) ++ t₂ = before ++ e :: after := by
      rw [List.append_assoc]
      exact ht
    obtain ⟨rest, ht₂⟩ := split_append hnone he ht'
    exact h₂.cancelFails rest e after cls text ht₂ he
  submissions_le := by
    have h := h₁.submissions_le
    have h' := h₂.submissions_le
    rw [submissions_append, List.length_append]
    show (submissions t₁).length + (submissions t₂).length ≤ _
    omega
  leaves id hid := by
    refine h₂.leaves id ?_
    rw [resting_append, h₁.again made rfl hagain] at hid
    exact hid
  recorded := by
    obtain ⟨mades, last, rfl, hlen, hmades, hlast, hok⟩ := h₂.recorded
    refine ⟨(t₁, made.2.1) :: mades, last, ?_, ?_, ?_, hlast, ?_⟩
    · simp only [List.map_cons, List.flatten_cons, List.append_assoc, List.cons_append,
        List.nil_append]
    · rw [List.length_cons]
      omega
    · rintro m hm
      rcases List.mem_cons.mp hm with rfl | hm
      · exact ⟨h₁.ordersFromRead, h₁.recorded made rfl⟩
      · exact hmades m hm
    · intro o ho
      obtain ⟨att, hatt, hattempts, hresult⟩ := hok o ho
      refine ⟨att, hatt, ?_, hresult⟩
      rw [hattempts, List.map_cons]
      simp only [List.append_assoc, List.singleton_append]

/-- **A run keeps the executor's promises.** The induction is on the attempts that are left; each
starts with a fresh reading of the position. -/
theorem executeLoop_ok
    (h : (executeLoop policy a symbol signal qty attempts left).Runs t r) :
    RunOk policy a symbol signal qty attempts left t r := by
  induction left generalizing a attempts t with
  | zero =>
    obtain ⟨rfl, rfl⟩ := Prog.runs_throw.mp h
    refine ⟨trivial, fun before _ _ _ _ h _ => absurd h (by simp), le_refl 0,
      fun id hid => (by cases hid), [], [], rfl, le_refl 0, fun m hm => (by cases hm),
      .inl rfl, fun o ho => by cases ho⟩
  | succ left ih =>
    obtain ⟨e, he, rfl⟩ | ⟨made, t₁, t₂, h₁, h₂, rfl⟩ := Prog.runs_bind.mp h
    · exact .of_last (attempt_ok he) rfl
    · split at h₂
      · obtain ⟨rfl, rfl⟩ := Prog.runs_pure.mp h₂
        rw [List.append_nil]
        exact .of_last (attempt_ok h₁) rfl
      · rename_i hcont
        obtain ⟨hagain, hleft⟩ : made.2.2 = true ∧ left ≠ 0 := by simpa using hcont
        obtain ⟨_, t₃, rfl, h₃⟩ := Prog.runs_call_bind.mp h₂
        exact .cons hleft (attempt_ok h₁) hagain (ih h₃)

/-- **Acknowledged orders are never stacked.** Whatever the venue answers, in
every run of `execute`

* an order is submitted only when every order acknowledged before it has been
  cancelled, with an answer from the venue;
* a cancel that fails ends the run, with the reason `CANCEL_FAILED`;
* no more orders are submitted than there are attempts;
* the record falls into attempts, each with the orders that its own position
  read calls for, and the attempts returned are these, in their order, with
  their positions and final results. -/
theorem execute_never_stacks (hmax : 1 ≤ policy.maxAttempts)
    (h : (execute policy a symbol signal qty).Runs t r) :
    NeverStacks [] t ∧
    (∀ before e after cls text, t = before ++ e :: after →
      cancelRefused e = some (.ccxt cls text) → after = [] ∧
        ∃ o final, r = .ok o ∧ o.result = some final ∧ final.success = false ∧
          final.reason = some .cancelFailed) ∧
    (submissions t).length ≤ policy.maxAttempts ∧
    ∃ (made : List (List (VenueEvent F) × ApplyAttempt F)) (last : List (VenueEvent F)),
      t = (made.map fun m => m.1 ++ [⟨.sleep policy.backoffS, ()⟩]).flatten ++ last ∧
      made.length < policy.maxAttempts ∧
      (∀ m ∈ made, OrdersFromRead a.session symbol signal qty m.1 ∧
        Recorded a symbol signal qty m.1 m.2) ∧
      OrdersFromRead a.session symbol signal qty last ∧
      ∀ o, r = .ok o → ∃ att, Recorded a symbol signal qty last att ∧
        o.attempts = made.map Prod.snd ++ [att] ∧ o.result = att.result := by
  have hrun := executeLoop_ok h
  obtain ⟨made, last, ht, hlen, hmade, hlast, hok⟩ := hrun.recorded
  have hlt : made.length < policy.maxAttempts := by omega
  exact ⟨hrun.neverStacks, hrun.cancelFails, hrun.submissions_le,
    made, last, ht, hlt, hmade, hlast, hok⟩

/-- A session on Bybit's perpetuals, which polls an order twice. -/
def linearAdapter : CcxtAdapter ℚ where
  session := ⟨.bybit, ⟨true, false⟩, some "linear"⟩
  confirmDelaysS := [1, 2]
  keyProfile := some ⟨"direct", none, []⟩

/-- A flat account, and a venue that loses sight of the first order it is sent
and fills the second one. -/
def losesFirstOrder (past : List (VenueEvent ℚ)) : (c : VenueCall ℚ) → c.Answer
  | .fetchPositions _ => .ok []
  | .market _ => .ok ⟨"BTC/USDT:USDT", some "BTC", none, none⟩
  | .fetchBalance => .ok []
  | .fetchTicker _ => .ok ⟨none, none, none, none⟩
  | .createOrder .. =>
    .ok ⟨some (if (submissions past).isEmpty then "1" else "2"), none, none, none, none⟩
  | .cancelOrder id _ => .ok ⟨some id, some "canceled", none, none, none⟩
  | .fetchOrder id _ =>
    if id = "1" then .error (.ccxt .base "timed out")
    else .ok ⟨some id, some "closed", some 1, some 50000, none⟩
  | .sleep _ => ()

/-- The run of a signal to go long against that venue. -/
def goLong : List (VenueEvent ℚ) × Except Raised (OrderRetryResult ℚ) :=
  (execute ⟨3, 5⟩ linearAdapter "BTCUSDT" 1 1).play losesFirstOrder []

/-- Two orders go out, and when the second one does, the first is cancelled. -/
theorem goLong_never_stacks :
    NeverStacks [] goLong.1 ∧
      submissions goLong.1 = [("BTCUSDT", "buy", 1), ("BTCUSDT", "buy", 1)] :=
  ⟨(execute_never_stacks (show 1 ≤ 3 by decide) (Prog.play_runs losesFirstOrder _ [])).1,
    by decide +kernel⟩
