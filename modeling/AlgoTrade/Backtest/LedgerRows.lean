import AlgoTrade.Backtest.Desk

/-! # What the ledger tells of the orders

The rows that an order, a batch and the broker's own orders add to the order ledger,
and the statuses that are read off them.

* `executeOrder_told`: an attempt adds a row of its order, or is one more poll of it.
* `executeTickets_told`: after a batch an order's status is open when it was kept.
* `processProtections_quiet`: the broker's own orders tell nothing of the strategy's. -/

namespace AlgoTrade.Backtest

/-! ## Statuses -/

def EventStatus.isOpen : EventStatus → Bool
  | .deferred | .partFilled => true
  | .filled | .rejected => false

/-- Neither filled nor rejected nor cancelled. -/
def OrderState.isOpen : OrderState → Bool
  | .unknown | .queued | .live _ => true
  | .cancelled => false
  | .event status => status.isOpen

/-- The status `get_order_status` tells. -/
def Context.statusOf (c : Context) (reference : ClientRef) : OrderState :=
  ((c.orderStatuses.get? reference).getD {}).status

/-- What a ledger row tells: the order it is about, its status, and what was filled. -/
structure Telling where
  reference : Option ClientRef
  status : EventStatus
  quantity : ℚ

def OrderEvent.tells (e : OrderEvent) : Telling where
  reference := e.clientOrderId.bind ClientRef.stripped
  status := e.status
  quantity := max 0 e.filledQuantity

def Book.told (b : Book) : List Telling := b.orderLedger.map OrderEvent.tells

/-- The status of an order after these rows. -/
def statusAfter (reference : ClientRef) (state : OrderState) (rows : List Telling) : OrderState :=
  rows.foldl
    (fun state row => if row.reference = some reference then .event row.status else state) state

theorem statusAfter_append (reference : ClientRef) (state : OrderState) (rows rows' : List Telling) :
    statusAfter reference state (rows ++ rows') =
      statusAfter reference (statusAfter reference state rows) rows' := List.foldl_append

/-- Rows of other orders. -/
theorem statusAfter_of_ne {reference : ClientRef} {rows : List Telling}
    (h : ∀ row ∈ rows, row.reference ≠ some reference) (state : OrderState) :
    statusAfter reference state rows = state := by
  unfold statusAfter
  induction rows with
  | nil => rfl
  | cons row rows ih =>
    rw [List.foldl_cons, if_neg (h row List.mem_cons_self)]
    exact ih fun row' hrow => h row' (List.mem_cons_of_mem row hrow)

theorem statusAfter_singleton {reference : ClientRef} {row : Telling} (state : OrderState)
    (h : row.reference = some reference) :
    statusAfter reference state [row] = .event row.status := if_pos h

section
variable {G : Type}

theorem statusOf_summarize (s : Session G) (event : OrderEvent) (reference : ClientRef) :
    (s.summarize event).context.statusOf reference =
      if event.tells.reference = some reference then .event event.tells.status
      else s.context.statusOf reference := by
  unfold Session.summarize OrderEvent.tells
  dsimp only
  cases event.clientOrderId.bind ClientRef.stripped with
  | none => rfl
  | some own =>
    dsimp only
    unfold Context.statusOf
    rw [Dict.get?_set]
    by_cases h : own = reference
    · rw [if_pos h, if_pos (congrArg some h)]
      rfl
    · rw [if_neg h, if_neg fun heq => h (Option.some.inj heq)]

/-- **The sync** reads the rows from its cursor on. -/
theorem statusOf_syncOrderStatuses (s : Session G) (b : Book) (reference : ClientRef) :
    (s.syncOrderStatuses b).context.statusOf reference =
      statusAfter reference (s.context.statusOf reference) (b.told.drop s.orderStatusCursor) := by
  unfold Session.syncOrderStatuses Book.told statusAfter
  dsimp only
  rw [← List.map_drop, List.foldl_map]
  generalize b.orderLedger.drop s.orderStatusCursor = events
  induction events generalizing s with
  | nil => rfl
  | cons event events ih =>
    rw [List.foldl_cons, List.foldl_cons, ih, statusOf_summarize]

end

/-! ## One order -/

/-- What an attempt tells; `rows` are the rows it adds. -/
structure Attempted (b : Book) (order : OrderIntent) (out : Outcome) (rows : List Telling) :
    Prop where
  told : out.book.told = b.told ++ rows
  own : ∀ row ∈ rows, row.reference = order.clientOrderId.bind ClientRef.stripped
  others : ∀ reference, order.clientOrderId.bind ClientRef.stripped ≠ some reference →
    out.book.restingDeferredEvents.get? reference = b.restingDeferredEvents.get? reference
  rests : ∀ reference, order.clientOrderId.bind ClientRef.stripped = some reference →
    (out.book.restingDeferredEvents.get? reference).isSome = true → out.deferred.isSome = true
  outcome : (rows = [] ∧ out.deferred.isSome = true ∧ ∃ reference,
      order.clientOrderId.bind ClientRef.stripped = some reference ∧
        (b.restingDeferredEvents.get? reference).isSome = true) ∨
    ∃ row, rows = [row] ∧ (out.deferred.isSome = true → row.status.isOpen = true) ∧
      ((order.isLimit = false → 4 ≤ order.attempts → row.status ≠ .partFilled) →
        row.status.isOpen = out.deferred.isSome)

section
variable {b : Book} {order : OrderIntent} {timestamp : Time}

theorem told_appendOrderEvent (b : Book) (event : OrderEvent) :
    (b.appendOrderEvent event).told = b.told ++ [event.tells] := List.map_append

/-- A row that ends the order's resting period. -/
theorem Attempted.append (event : OrderEvent) (deferred : Option OrderIntent) (fill : Option Fill)
    (href : event.clientOrderId = order.clientOrderId)
    (hkept : deferred.isSome = true → event.status.isOpen = true)
    (hopen : (order.isLimit = false → 4 ≤ order.attempts → event.status ≠ .partFilled) →
      event.status.isOpen = deferred.isSome) :
    Attempted b order ⟨b.appendOrderEvent event, deferred, fill⟩ [event.tells] := by
  refine ⟨told_appendOrderEvent b event, ?_, ?_, ?_, .inr ⟨event.tells, rfl, hkept, hopen⟩⟩
  · intro row hrow
    rw [List.mem_singleton.mp hrow, ← href]
    rfl
  · intro reference hne
    unfold Book.appendOrderEvent
    dsimp only
    rw [href]
    cases hown : order.clientOrderId.bind ClientRef.stripped with
    | none => rfl
    | some own =>
      dsimp only
      rw [Dict.get?_pop, if_neg fun heq => hne (hown.trans (congrArg some heq))]
  · intro reference hown hsome
    unfold Book.appendOrderEvent at hsome
    dsimp only at hsome
    rw [href, hown] at hsome
    dsimp only at hsome
    rw [Dict.get?_pop, if_pos rfl] at hsome
    cases hsome

/-- One more poll tells nothing new. -/
theorem told_poll {index : ℕ} {existing event : OrderEvent} {w : RestingWindow}
    (hindex : b.orderLedger[index]? = some existing) :
    (b.orderLedger.set index (existing.poll event w)).map OrderEvent.tells =
      b.orderLedger.map OrderEvent.tells := by
  refine List.ext_getElem? fun i => ?_
  rw [List.getElem?_map, List.getElem?_map, List.getElem?_set]
  split
  next heq =>
    subst heq
    rw [hindex]
    split
    · rfl
    next hlength =>
      rw [List.getElem?_eq_none (not_lt.mp hlength)] at hindex
      cases hindex
  next => rfl

/-- A resting limit order. -/
theorem Attempted.rest (event : OrderEvent) (kept : OrderIntent) (fill : Option Fill)
    (href : event.clientOrderId = order.clientOrderId) (hstatus : event.status = .deferred)
    (hfilled : event.filledQuantity = 0) :
    ∃ rows, Attempted b order ⟨b.appendRestingEvent event, some kept, fill⟩ rows ∧
      (rows.map Telling.quantity).sum = 0 := by
  have hopen : event.status.isOpen = true := hstatus ▸ rfl
  have hnone : ([event.tells].map Telling.quantity).sum = 0 := by
    show max 0 event.filledQuantity + 0 = 0
    rw [hfilled, max_self, add_zero]
  have hreference : event.clientOrderId.bind ClientRef.stripped =
      order.clientOrderId.bind ClientRef.stripped := congrArg (Option.bind · ClientRef.stripped) href
  cases hown : order.clientOrderId.bind ClientRef.stripped with
  | none =>
    rw [hown] at hreference
    have heq : b.appendRestingEvent event = { b with orderLedger := b.orderLedger ++ [event] } := by
      unfold Book.appendRestingEvent
      rw [hreference]
    refine ⟨[event.tells], ⟨?_, ?_, ?_, fun _ _ _ => rfl,
      .inr ⟨event.tells, rfl, fun _ => hopen, fun _ => hopen⟩⟩, hnone⟩
    · dsimp only
      rw [heq]
      exact List.map_append
    · intro row hrow
      rw [List.mem_singleton.mp hrow, hown]
      exact hreference
    · intro reference _
      dsimp only
      rw [heq]
  | some own =>
    rw [hown] at hreference
    have hopening : ∀ window : RestingWindow, Attempted b order
        ⟨{ b with
            orderLedger := b.orderLedger ++ [{ event with resting := some window }]
            restingDeferredEvents := b.restingDeferredEvents.set own b.orderLedger.length },
          some kept, fill⟩ [event.tells] := by
      intro window
      refine ⟨List.map_append, ?_, ?_, fun _ _ _ => rfl,
        .inr ⟨event.tells, rfl, fun _ => hopen, fun _ => hopen⟩⟩
      · intro row hrow
        rw [List.mem_singleton.mp hrow, hown]
        exact hreference
      · intro reference hne
        dsimp only
        rw [Dict.get?_set, if_neg fun heq => hne (hown.trans (congrArg some heq))]
    unfold Book.appendRestingEvent
    rw [hreference]
    dsimp only
    split
    · exact ⟨_, hopening _, hnone⟩
    next index hindex =>
      split
      · exact ⟨_, hopening _, hnone⟩
      next existing hexisting =>
        split
        next w _ _ _ =>
          refine ⟨[], ⟨?_, fun row hrow => (by cases hrow), fun _ _ => rfl, fun _ _ _ => rfl,
            .inl ⟨rfl, rfl, own, hown, by rw [hindex]; rfl⟩⟩, rfl⟩
          rw [List.append_nil]
          exact told_poll hexisting
        next => exact ⟨_, hopening _, hnone⟩

theorem told_recordClosedTrade (b : Book) (e : Execution) (oldAmount oldCost targetAmount : ℚ) :
    (b.recordClosedTrade e oldAmount oldCost targetAmount).orderLedger = b.orderLedger ∧
      (b.recordClosedTrade e oldAmount oldCost targetAmount).restingDeferredEvents =
        b.restingDeferredEvents :=
  ⟨Book.recordClosedTrade_keeps Book.orderLedger (fun _ _ _ _ _ _ _ => rfl)
      (fun _ _ _ _ _ => rfl) ..,
    Book.recordClosedTrade_keeps Book.restingDeferredEvents (fun _ _ _ _ _ _ _ => rfl)
      (fun _ _ _ _ _ => rfl) ..⟩

/-- What is attempted on books with the same ledger and resting periods. -/
theorem Attempted.congr {b' : Book} {out out' : Outcome} {rows : List Telling}
    (h : Attempted b order out rows) (hledger : b'.orderLedger = b.orderLedger)
    (hresting : b'.restingDeferredEvents = b.restingDeferredEvents)
    (hledger' : out'.book.orderLedger = out.book.orderLedger)
    (hresting' : out'.book.restingDeferredEvents = out.book.restingDeferredEvents)
    (hdeferred : out'.deferred.isSome = out.deferred.isSome) : Attempted b' order out' rows := by
  obtain ⟨htold, hown, hothers, hrests, houtcome⟩ := h
  unfold Book.told at htold
  refine ⟨?_, hown, ?_, ?_, ?_⟩
  · unfold Book.told
    rw [hledger, hledger', htold]
  · rw [hresting, hresting']
    exact hothers
  · rw [hresting', hdeferred]
    exact hrests
  · rw [hresting, hdeferred]
    exact houtcome

/-- A block ends the order, or keeps it for another bar. -/
theorem blockOrder_told (timestamp : Time) (b : Book) (order : OrderIntent) (orderId : OrderId)
    (reason : StatusReason) : ∃ row, Attempted b order
      (blockOrder timestamp b order orderId reason) [row] ∧ row.quantity = 0 := by
  unfold blockOrder
  split
  · exact ⟨_, (Attempted.append (orderEvent orderId order timestamp .rejected reason) none none rfl
      (fun hkept => (by cases hkept)) fun _ => rfl).congr rfl rfl rfl rfl rfl, max_self _⟩
  · exact ⟨_, (Attempted.append (orderEvent orderId order timestamp .deferred reason) (some order)
      none rfl (fun _ => rfl) fun _ => rfl).congr rfl rfl rfl rfl rfl, max_self _⟩

theorem rejectOrder_told (timestamp : Time) (b : Book) (order : OrderIntent) (orderId : OrderId)
    (reason : StatusReason) (requested : ℚ) : ∃ row, Attempted b order
      (rejectOrder timestamp b order orderId reason requested) [row] ∧ row.quantity = 0 :=
  ⟨_, Attempted.append { orderEvent orderId order timestamp .rejected reason with
      requestedQuantity := requested } none none rfl (fun hkept => (by cases hkept)) fun _ => rfl,
    max_self _⟩

/-- A fill ends the order, or leaves a part of it for another bar; after the last
attempt that part is lost. -/
theorem fillOrder_told (cfg : BrokerConfig) (timestamp : Time) (b : Book) (order : OrderIntent)
    (orderId : OrderId) (openPrice : ℚ) (z : Sizing) (delta fillPrice lot : ℚ)
    (reference : FillReference) (cap : Option ℚ) (constraint : Option StatusReason) :
    ∃ row, Attempted b order (fillOrder cfg timestamp b order orderId openPrice z delta fillPrice
      lot reference cap constraint) [row] ∧ row.quantity = |delta| := by
  have hkept : ∀ (tradable : Prop) [Decidable tradable] (left : OrderIntent),
      (if tradable ∧ (order.isLimit = true ∨ order.attempts < 4) then some left
        else none).isSome = true →
        (if tradable then EventStatus.partFilled else .filled).isOpen = true := by
    intro tradable _ left hsome
    split at hsome
    next h => rw [if_pos h.1, EventStatus.isOpen]
    next => cases hsome
  have hopen : ∀ (tradable : Prop) [Decidable tradable] (left : OrderIntent),
      (order.isLimit = false → 4 ≤ order.attempts →
        (if tradable then EventStatus.partFilled else .filled) ≠ .partFilled) →
      (if tradable then EventStatus.partFilled else .filled).isOpen =
        (if tradable ∧ (order.isLimit = true ∨ order.attempts < 4) then some left
          else none).isSome := by
    intro tradable _ left hkept
    by_cases htradable : tradable
    · rw [if_pos htradable] at hkept ⊢
      have hagain : order.isLimit = true ∨ order.attempts < 4 := by
        by_contra hlast
        obtain ⟨hmarket, hattempts⟩ := not_or.mp hlast
        exact hkept (Bool.eq_false_of_not_eq_true hmarket) (not_lt.mp hattempts) rfl
      rw [if_pos ⟨htradable, hagain⟩, Option.isSome_some, EventStatus.isOpen]
    · rw [if_neg htradable, if_neg fun h => htradable h.1]
      rfl
  unfold fillOrder
  dsimp only
  exact ⟨_, (Attempted.append _ _ none rfl (hkept _ _) (hopen _ _)).congr rfl rfl
    (told_recordClosedTrade ..).1 (told_recordClosedTrade ..).2 rfl, max_eq_right (abs_nonneg delta)⟩

/-- **An attempt** adds a row of its order, or is one more poll of it. -/
theorem executeOrder_told {cfg : BrokerConfig} {p : Portal} {priceOverrides : Dict Instrument ℚ}
    {out : Outcome} (h : executeOrder cfg p timestamp priceOverrides b order = some out) :
    ∃ rows, Attempted b order out rows := by
  cases executeOrder_tried h with
  | blocked reason =>
    obtain ⟨row, hrow, -⟩ := blockOrder_told timestamp b.nextOrder order (orderIdAt b timestamp) reason
    exact ⟨_, hrow.congr rfl rfl rfl rfl rfl⟩
  | rejected reason requested =>
    obtain ⟨row, hrow, -⟩ :=
      rejectOrder_told timestamp (b.sized p) order (orderIdAt b timestamp) reason requested
    exact ⟨_, hrow.congr rfl rfl rfl rfl rfl⟩
  | resting openPrice z hsized =>
    obtain ⟨rows, hrows, -⟩ : ∃ rows, Attempted (b.sized p) order _ rows ∧ _ := Attempted.rest
      { orderEvent (orderIdAt b timestamp) order timestamp .deferred .limitNotReached with
        requestedQuantity := |z.delta|
        price := order.limitPrice } order none rfl rfl rfl
    exact ⟨rows, hrows.congr rfl rfl rfl rfl rfl⟩
  | filled openPrice z fillPrice reference hsized hquote hlots =>
    obtain ⟨row, hrow, -⟩ := fillOrder_told cfg timestamp (b.sized p) order (orderIdAt b timestamp)
      openPrice z (settledOf cfg p b order z fillPrice).1 fillPrice (lotOf p order) reference
      (capOf order (p.openBarAt order.symbol)) (settledOf cfg p b order z fillPrice).2
    exact ⟨_, hrow.congr rfl rfl rfl rfl rfl⟩

end

/-! ## Batches -/

/-- A market order is filled in part, and is not tried a sixth time. -/
def Outcome.losesRest (order : OrderIntent) (out : Outcome) : Bool :=
  !order.isLimit && 4 ≤ order.attempts &&
    out.book.orderLedger.getLast?.any fun e => e.status = .partFilled

/-- No order of the batch loses the rest of a partial fill. -/
def RestsKept (cfg : BrokerConfig) (p : Portal) (timestamp : Time) : Book → List Ticket → Prop
  | _, [] => True
  | b, tk :: tks =>
    ∀ out ∈ executeOrder cfg p timestamp {} b tk.order,
      out.losesRest tk.order = false ∧ RestsKept cfg p timestamp out.book tks

instance decidableRestsKept (cfg : BrokerConfig) (p : Portal) (timestamp : Time) :
    ∀ b tks, Decidable (RestsKept cfg p timestamp b tks)
  | _, [] => inferInstanceAs (Decidable True)
  | b, tk :: tks =>
    have : ∀ out : Outcome, Decidable (RestsKept cfg p timestamp out.book tks) :=
      fun _ => decidableRestsKept ..
    inferInstanceAs (Decidable (∀ out ∈ executeOrder cfg p timestamp {} b tk.order, _))

/-- The order is kept under the id it was asked under. -/
structure Ticket.Named (tk : Ticket) : Prop where
  clientOrderId : tk.order.clientOrderId = some tk.asked
  stripped : tk.asked.stripped = some tk.asked

theorem Ticket.Named.reference {tk : Ticket} (h : tk.Named) :
    tk.order.clientOrderId.bind ClientRef.stripped = some tk.asked := by
  rw [h.clientOrderId, Option.bind_some, h.stripped]

theorem Ticket.Named.same {tk k : Ticket} (h : tk.Named) (hsame : k.Same tk) : k.Named :=
  ⟨by rw [hsame.clientOrderId, h.clientOrderId, hsame.asked], by rw [hsame.asked, h.stripped]⟩

/-- What a batch tells; `rows` are the rows it adds. -/
structure BatchTold (cfg : BrokerConfig) (p : Portal) (timestamp : Time) (b : Book)
    (tks : List Ticket) (o : TicketBatch) (rows : List Telling) : Prop where
  told : o.out.book.told = b.told ++ rows
  own : ∀ row ∈ rows, ∃ tk ∈ tks, row.reference = some tk.asked
  rests : ∀ reference, (o.out.book.restingDeferredEvents.get? reference).isSome = true →
    (b.restingDeferredEvents.get? reference).isSome = true ∧
        (∀ tk ∈ tks, tk.asked ≠ reference) ∨
      ∃ k ∈ o.deferred, k.asked = reference
  stays : ∀ tk ∈ tks, ∀ state : OrderState,
    ((b.restingDeferredEvents.get? tk.asked).isSome = true → state.isOpen = true) →
      (∃ k ∈ o.deferred, k.asked = tk.asked) → (statusAfter tk.asked state rows).isOpen = true
  waits : ∀ tk ∈ tks, tk.order.isLimit = true ∨ RestsKept cfg p timestamp b tks →
    ∀ state : OrderState,
      ((b.restingDeferredEvents.get? tk.asked).isSome = true → state.isOpen = true) →
        (statusAfter tk.asked state rows).isOpen = true → ∃ k ∈ o.deferred, k.asked = tk.asked

theorem Outcome.losesRest_limit {order : OrderIntent} (out : Outcome) (h : order.isLimit = true) :
    out.losesRest order = false := by
  unfold Outcome.losesRest
  rw [h]
  rfl

section
variable {cfg : BrokerConfig} {p : Portal} {timestamp : Time} {b : Book} {tk : Ticket}
  {out : Outcome} {rows : List Telling}

theorem Attempted.own_ticket (h : Attempted b tk.order out rows) (hnamed : tk.Named) {row : Telling}
    (hrow : row ∈ rows) : row.reference = some tk.asked := by
  rw [h.own row hrow, hnamed.reference]

/-- The status after an attempt is open when the order was kept. -/
theorem Attempted.stays (h : Attempted b tk.order out rows) (hnamed : tk.Named) {state : OrderState}
    (hstate : (b.restingDeferredEvents.get? tk.asked).isSome = true → state.isOpen = true)
    (hkept : out.deferred.isSome = true) : (statusAfter tk.asked state rows).isOpen = true := by
  have hown : ∀ row ∈ rows, row.reference = some tk.asked := fun row => h.own_ticket hnamed
  rcases h.outcome with ⟨rfl, -, reference, hreference, hrests⟩ | ⟨row, rfl, hstatus, -⟩
  · obtain rfl := Option.some.inj (hnamed.reference.symm.trans hreference)
    exact hstate hrests
  · rw [statusAfter_singleton state (hown row (List.mem_singleton.mpr rfl))]
    exact hstatus hkept

/-- An order whose status is open was kept. -/
theorem Attempted.waits (h : Attempted b tk.order out rows) (hnamed : tk.Named)
    (hrest : out.losesRest tk.order = false) {state : OrderState}
    (hopen : (statusAfter tk.asked state rows).isOpen = true) : out.deferred.isSome = true := by
  have hown : ∀ row ∈ rows, row.reference = some tk.asked := fun row => h.own_ticket hnamed
  rcases h.outcome with ⟨-, hdeferred, -⟩ | ⟨row, rfl, -, hstatus⟩
  · exact hdeferred
  · rw [statusAfter_singleton state (hown row (List.mem_singleton.mpr rfl))] at hopen
    rw [← hopen]
    refine (hstatus fun hmarket hattempts hpart => ?_).symm
    have hlast : out.book.orderLedger.getLast?.map OrderEvent.status = some row.status := by
      have htold := congrArg List.getLast? h.told
      unfold Book.told at htold
      rw [List.getLast?_append, List.getLast?_singleton, List.getLast?_map] at htold
      obtain ⟨e, he, htells⟩ := Option.map_eq_some_iff.mp htold
      rw [he]
      exact congrArg (fun row : Telling => some row.status) htells
    obtain ⟨e, he, hstatus'⟩ := Option.map_eq_some_iff.mp hlast
    unfold Outcome.losesRest at hrest
    rw [hmarket, he, decide_eq_true hattempts] at hrest
    exact absurd (hstatus'.trans hpart) (of_decide_eq_false hrest)

/-- **A batch.** -/
theorem executeTickets_told {tks : List Ticket} {o : TicketBatch}
    (h : executeTickets cfg p timestamp b tks = some o) (hnamed : ∀ tk ∈ tks, tk.Named)
    (hdistinct : (tks.map Ticket.asked).Nodup) : ∃ rows, BatchTold cfg p timestamp b tks o rows := by
  induction tks generalizing b o with
  | nil =>
    obtain rfl := Option.some.inj h
    exact ⟨[], (List.append_nil _).symm, fun row hrow => (by cases hrow),
      fun reference hrests => .inl ⟨hrests, fun tk htk => (by cases htk)⟩,
      fun tk htk => (by cases htk), fun tk htk => (by cases htk)⟩
  | cons tk tks ih =>
    obtain ⟨out, hout, h⟩ := Option.bind_eq_some_iff.mp h
    obtain ⟨rest, hrest, rfl⟩ := Option.map_eq_some_iff.mp h
    obtain ⟨hnew, hdistinct⟩ := List.nodup_cons.mp hdistinct
    obtain ⟨rows, hrows⟩ := executeOrder_told hout
    obtain ⟨rows', hrows'⟩ := ih hrest (fun tk' htk' => hnamed tk' (List.mem_cons_of_mem tk htk'))
      hdistinct
    have hown := (hnamed tk List.mem_cons_self).reference
    have hkeeps : ∀ reference, (∃ k ∈ (tk.kept out).toList ++ rest.deferred, k.asked = reference) ↔
        (out.deferred.isSome = true ∧ tk.asked = reference) ∨
          ∃ k ∈ rest.deferred, k.asked = reference := by
      intro reference
      unfold Ticket.kept
      cases out.deferred with
      | none => simp
      | some order => simp
    have hapart : ∀ tk' ∈ tks, tk.asked ≠ tk'.asked := fun tk' htk' heq =>
      hnew (heq ▸ List.mem_map_of_mem htk')
    have hlater : ∀ row ∈ rows', row.reference ≠ some tk.asked := by
      intro row hrow heq
      obtain ⟨tk', htk', hrow⟩ := hrows'.own row hrow
      exact hapart tk' htk' (Option.some.inj (heq.symm.trans hrow))
    have hearlier : ∀ tk' ∈ tks, ∀ row ∈ rows, row.reference ≠ some tk'.asked := by
      intro tk' htk' row hrow heq
      rw [hrows.own row hrow, hown] at heq
      exact hapart tk' htk' (Option.some.inj heq)
    have hothers : ∀ tk' ∈ tks, out.book.restingDeferredEvents.get? tk'.asked =
        b.restingDeferredEvents.get? tk'.asked := fun tk' htk' => hrows.others tk'.asked <| by
      rw [hown]
      exact fun h => hapart tk' htk' (Option.some.inj h)
    refine ⟨rows ++ rows', ?_, ?_, ?_, ?_, ?_⟩
    · show rest.out.book.told = _
      rw [hrows'.told, hrows.told, List.append_assoc]
    · intro row hrow
      rcases List.mem_append.mp hrow with hrow | hrow
      · exact ⟨tk, List.mem_cons_self, (hrows.own row hrow).trans hown⟩
      · obtain ⟨tk', htk', hrow⟩ := hrows'.own row hrow
        exact ⟨tk', List.mem_cons_of_mem tk htk', hrow⟩
    · intro reference hrests
      rw [hkeeps]
      rcases hrows'.rests reference hrests with ⟨hrests, hne⟩ | hkept'
      · by_cases heq : tk.asked = reference
        · subst heq
          exact .inr (.inl ⟨hrows.rests tk.asked hown hrests, rfl⟩)
        · have hne' : tk.order.clientOrderId.bind ClientRef.stripped ≠ some reference := by
            rw [hown]
            exact fun h => heq (Option.some.inj h)
          rw [hrows.others reference hne'] at hrests
          refine .inl ⟨hrests, fun tk' htk' => ?_⟩
          rcases List.mem_cons.mp htk' with rfl | htk'
          · exact heq
          · exact hne tk' htk'
      · exact .inr (.inr hkept')
    · intro tk' htk' state hstate hkept
      rw [hkeeps] at hkept
      rw [statusAfter_append]
      rcases List.mem_cons.mp htk' with rfl | htk'
      · rw [statusAfter_of_ne hlater]
        refine hrows.stays (hnamed tk' List.mem_cons_self) hstate ?_
        rcases hkept with ⟨hkept, -⟩ | ⟨k, hk, heq⟩
        · exact hkept
        · obtain ⟨tk'', htk'', hsame⟩ := executeTickets_kept hrest hk
          exact absurd (heq.symm.trans hsame.asked) (hapart tk'' htk'')
      · rw [statusAfter_of_ne (hearlier tk' htk')]
        refine hrows'.stays tk' htk' state (fun hrests => hstate (hothers tk' htk' ▸ hrests)) ?_
        rcases hkept with ⟨-, heq⟩ | hkept
        · exact absurd heq (hapart tk' htk')
        · exact hkept
    · intro tk' htk' hwhole state hstate hopen
      rw [statusAfter_append] at hopen
      refine (hkeeps tk'.asked).mpr ?_
      rcases List.mem_cons.mp htk' with rfl | htk'
      · rw [statusAfter_of_ne hlater] at hopen
        have hrest : out.losesRest tk'.order = false := by
          rcases hwhole with hlimit | hwhole
          · exact out.losesRest_limit hlimit
          · exact (hwhole out hout).1
        exact .inl ⟨hrows.waits (hnamed tk' List.mem_cons_self) hrest hopen, rfl⟩
      · rw [statusAfter_of_ne (hearlier tk' htk')] at hopen
        exact .inr (hrows'.waits tk' htk' (hwhole.imp_right fun hwhole => (hwhole out hout).2) state
          (fun hrests => hstate (hothers tk' htk' ▸ hrests)) hopen)

end

/-! ## The broker's own orders -/

/-- What tells nothing of the strategy's orders. -/
structure Book.Quiet (b b' : Book) : Prop where
  told : ∃ rows, b'.told = b.told ++ rows ∧ ∀ row ∈ rows, row.reference = none
  rests : ∀ reference,
    b'.restingDeferredEvents.get? reference = b.restingDeferredEvents.get? reference

theorem Book.Quiet.refl {b b' : Book} (hledger : b'.orderLedger = b.orderLedger)
    (hresting : b'.restingDeferredEvents = b.restingDeferredEvents) : b.Quiet b' := by
  refine ⟨⟨[], ?_, fun row hrow => (by cases hrow)⟩, fun reference => by rw [hresting]⟩
  rw [List.append_nil, Book.told, hledger, Book.told]

theorem Book.Quiet.trans {b b' b'' : Book} (h : b.Quiet b') (h' : b'.Quiet b'') : b.Quiet b'' := by
  obtain ⟨⟨rows, htold, hrows⟩, hrests⟩ := h
  obtain ⟨⟨rows', htold', hrows'⟩, hrests'⟩ := h'
  refine ⟨⟨rows ++ rows', ?_, fun row hrow => ?_⟩, fun reference => ?_⟩
  · rw [htold', htold, List.append_assoc]
  · rcases List.mem_append.mp hrow with hrow | hrow
    · exact hrows row hrow
    · exact hrows' row hrow
  · rw [hrests', hrests]

namespace Broker

section
variable {cfg : BrokerConfig} {p : Portal} {timestamp : Time} {priceOverrides : Dict Instrument ℚ}

/-- Orders without an id tell nothing of those that have one. -/
theorem executeOrders_quiet {b : Book} {orders : List OrderIntent} {o : BatchOutcome}
    (hnone : ∀ order ∈ orders, order.clientOrderId = none)
    (h : executeOrders cfg p timestamp priceOverrides b orders = some o) : b.Quiet o.book := by
  induction orders generalizing b o with
  | nil =>
    obtain rfl := Option.some.inj h
    exact .refl rfl rfl
  | cons order orders ih =>
    obtain ⟨out, hout, h⟩ := Option.bind_eq_some_iff.mp h
    obtain ⟨rest, hrest, rfl⟩ := Option.map_eq_some_iff.mp h
    have hid := hnone order List.mem_cons_self
    obtain ⟨rows, hrows⟩ := executeOrder_told hout
    have hhead : b.Quiet out.book := by
      refine ⟨⟨rows, hrows.told, fun row hrow => ?_⟩, fun reference => hrows.others reference ?_⟩
      · rw [hrows.own row hrow, hid]
        rfl
      · rw [hid]
        exact fun heq => by cases heq
    have htail : out.book.Quiet rest.book :=
      ih (fun order' horder => hnone order' (List.mem_cons_of_mem order horder)) hrest
    exact hhead.trans htail

theorem execute_quiet {b : Broker} {orders : List OrderIntent} {r : Broker × List OrderIntent}
    (hnone : ∀ order ∈ orders, order.clientOrderId = none)
    (h : b.execute cfg p timestamp priceOverrides orders = some r) : b.book.Quiet r.1.book := by
  unfold execute at h
  split at h
  · obtain rfl := Option.some.inj h
    exact .refl rfl rfl
  · obtain ⟨out, hout, rfl⟩ := Option.map_eq_some_iff.mp h
    have hmark : b.book.Quiet (b.book.markToMarket p) := .refl rfl rfl
    have hmark' : out.book.Quiet (out.book.markToMarket p) := .refl rfl rfl
    exact (hmark.trans (executeOrders_quiet hnone hout)).trans hmark'

theorem exitPosition_quiet {b : Broker} {key : PositionKey} {position : Position}
    {decision : ProtectionDecision} {r : Broker × List ProtectionDecision}
    (h : b.exitPosition cfg p timestamp key position decision = some r) :
    b.book.Quiet r.1.book := by
  obtain ⟨e, he, rfl⟩ := Option.map_eq_some_iff.mp h
  have hexit : b.book.Quiet e.1.book :=
    execute_quiet (fun order horder => List.mem_singleton.mp horder ▸ rfl) he
  split
  · split
    · exact hexit
    · exact hexit
  · exact hexit

variable (p timestamp) in
theorem evaluateProtection_book (b : Broker) (key : PositionKey) :
    (b.evaluateProtection p timestamp key).1.book = b.book := by
  unfold evaluateProtection
  split
  · rfl
  · rfl
  · split
    · rfl
    · rfl

theorem processProtection_quiet {b : Broker} {key : PositionKey}
    {r : Broker × List ProtectionDecision}
    (h : b.processProtection cfg p timestamp key = some r) : b.book.Quiet r.1.book := by
  have hbook := evaluateProtection_book p timestamp b key
  unfold processProtection at h
  split at h
  next b' heq =>
    obtain rfl := Option.some.inj h
    rw [heq] at hbook
    rw [← hbook]
    exact .refl rfl rfl
  next b' position decision heq =>
    rw [heq] at hbook
    rw [← hbook]
    exact exitPosition_quiet h

/-- **The protections.** -/
theorem processProtections_quiet {b : Broker} {r : Broker × List ProtectionDecision}
    (h : b.processProtections cfg p timestamp = some r) : b.book.Quiet r.1.book := by
  unfold processProtections at h
  generalize b.protections.keys = keys at h
  induction keys generalizing b r with
  | nil =>
    obtain rfl := Option.some.inj h
    exact .refl rfl rfl
  | cons key keys ih =>
    obtain ⟨first, hfirst, h⟩ := Option.bind_eq_some_iff.mp h
    obtain ⟨rest, hrest, rfl⟩ := Option.map_eq_some_iff.mp h
    have htail : first.1.book.Quiet rest.1.book := ih hrest
    exact (processProtection_quiet hfirst).trans htail

/-- A solvent account is only marked. -/
theorem liquidateIfInsolvent_solvent {b : Broker} {r : Broker × Bool}
    (h : b.liquidateIfInsolvent cfg p timestamp = some r) (hsolvent : r.2 = false) :
    r.1 = b.mark p := by
  unfold liquidateIfInsolvent at h
  split at h
  · obtain rfl := Option.some.inj h
    cases hsolvent
  · dsimp only at h
    split at h
    · obtain rfl := Option.some.inj h
      rfl
    · split at h
      · cases h
      · obtain rfl := Option.some.inj h
        cases hsolvent

end

end Broker

end AlgoTrade.Backtest
