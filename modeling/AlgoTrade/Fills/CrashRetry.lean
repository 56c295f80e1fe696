import AlgoTrade.Fills.Stream

/-! # Crashes and retries of one stream event

`processPending` is what `process_pending` does with one event: skip it when a
trade row already carries it, project it, mark it processed, or count a failed
attempt.  A failed attempt stops after one of its commits; the next attempt
starts from the committed state.

* `projected_iff`: the event ends up projected exactly once if and only if it
  brings nothing new, or it is bookable and the first attempt that committed
  anything got as far as the trade row. -/

namespace AlgoTrade

/-- The event's own row beside the order's tables. -/
structure EventState where
  order : OrderState
  processed : Bool := false
  attempts : Nat := 0
  deriving DecidableEq

/-- A failed attempt: where it stops, and whether the process died there instead
of raising (a raise is counted by `mark_failed`). -/
structure Failure where
  stop : Stop
  crash : Bool := false
  deriving DecidableEq, Repr

/-- `mark_failed` after an exception; a crash counts nothing. -/
def EventState.failed (s : EventState) (failure : Option Failure) : EventState :=
  match failure with
  | some ⟨_, true⟩ => s
  | _ => { s with attempts := s.attempts + 1 }

/-- `process_pending` on one event of a pending order. -/
def processPending (ctx : OrderContext) (ev : ExecutionEvent) (failure : Option Failure)
    (s : EventState) : EventState :=
  if s.processed ∨ 20 ≤ s.attempts then s
  else if hasTradeOf ev.id s.order.ledger.trades then
    if failure.isNone then { s with processed := true } else s.failed failure
  else
    let attempt := processPendingOrder ctx ev (failure.map Failure.stop) s.order
    let s' := { s with order := attempt.state }
    if attempt.returned then { s' with processed := true } else s'.failed failure

/-- The failed attempts, then one that meets no failure. -/
def retried (ctx : OrderContext) (ev : ExecutionEvent) : List Failure → EventState → EventState
  | [], s => processPending ctx ev none s
  | failure :: rest, s => retried ctx ev rest (processPending ctx ev (some failure) s)

/-- The quantities of the event's own trade rows. -/
def eventTrades (ev : ExecutionEvent) (s : OrderState) : List ℚ :=
  (s.ledger.trades.filter fun t => t.executionEventId = ev.id).map TradeRow.amount

/-- The event's new quantity is counted in the row and recorded once in trades
and once in the position. -/
def Projected (ev : ExecutionEvent) (s s' : OrderState) : Prop :=
  let newQty := eventDelta ev s.pending.filled
  s'.pending.filled = s.pending.filled + newQty ∧
    s'.ledger.bookedTrades = s.ledger.bookedTrades + newQty ∧
    s'.ledger.bookedPosition = s.ledger.bookedPosition + newQty ∧
    eventTrades ev s' = if newQty = 0 then [] else [newQty]

instance (ev : ExecutionEvent) (s s' : OrderState) : Decidable (Projected ev s s') :=
  inferInstanceAs (Decidable (_ ∧ _ ∧ _ ∧ _))

/-- Where the first attempt that committed anything stopped. -/
def firstCommit (failures : List Failure) : Option Stop :=
  (failures.map Failure.stop).find? (· ≠ .beforeRow)

/-- The event brings nothing new, or it is bookable and no attempt stopped
between its first commit and its trade row. -/
def CrashSafe (ctx : OrderContext) (ev : ExecutionEvent) (p : PendingOrder)
    (failures : List Failure) : Prop :=
  eventDelta ev p.filled = 0 ∨
    (booksFill ctx ev p ∧ (eventFill ctx ev p).positionQty = eventDelta ev p.filled ∧
      (firstCommit failures = none ∨ firstCommit failures = some .afterTrade))

instance (ctx : OrderContext) (ev : ExecutionEvent) (p : PendingOrder) (failures : List Failure) :
    Decidable (CrashSafe ctx ev p failures) :=
  inferInstanceAs (Decidable (_ ∨ _))

/-! ## Lemmas -/

section
variable {ctx : OrderContext} {ev : ExecutionEvent}

@[simp] theorem order_failed (s : EventState) (f : Option Failure) :
    (s.failed f).order = s.order := by
  unfold EventState.failed
  split <;> rfl

@[simp] theorem processed_failed (s : EventState) (f : Option Failure) :
    (s.failed f).processed = s.processed := by
  unfold EventState.failed
  split <;> rfl

/-- Once a trade row carries the event, no attempt touches the order again. -/
theorem order_processPending_of_trade {s : EventState} (f : Option Failure)
    (h : hasTradeOf ev.id s.order.ledger.trades = true) :
    (processPending ctx ev f s).order = s.order := by
  unfold processPending
  split
  · rfl
  · split
    · rfl
    · exact order_failed ..

theorem order_retried_of_trade {failures : List Failure} {s : EventState}
    (h : hasTradeOf ev.id s.order.ledger.trades = true) :
    (retried ctx ev failures s).order = s.order := by
  induction failures generalizing s with
  | nil => exact order_processPending_of_trade none h
  | cons f rest ih =>
    have hf : (processPending ctx ev (some f) s).order = s.order :=
      order_processPending_of_trade (some f) h
    rw [retried, ih (hf.symm ▸ h), hf]

/-- A failed attempt never marks the event processed. -/
theorem processed_processPending_some (f : Failure) (s : EventState) :
    (processPending ctx ev (some f) s).processed = s.processed := by
  have hret : (processPendingOrder ctx ev (some f.stop) s.order).returned = false := by
    unfold processPendingOrder
    cases f.stop <;> dsimp only
    split <;> rfl
  unfold processPending
  split
  · rfl
  · split <;> simp [hret]

/-- The event is no longer picked up. -/
theorem processPending_stuck {s : EventState} (f : Option Failure)
    (h : s.processed = true ∨ 20 ≤ s.attempts) : processPending ctx ev f s = s := by
  simp only [processPending, h, if_true]

theorem retried_stuck {failures : List Failure} {s : EventState}
    (h : s.processed = true ∨ 20 ≤ s.attempts) : retried ctx ev failures s = s := by
  induction failures with
  | nil => exact processPending_stuck none h
  | cons f rest ih => rw [retried, processPending_stuck _ h, ih]

/-- An event that ends processed was still picked up at the start. -/
theorem active_of_retried {failures : List Failure} {s : EventState} (hproc : s.processed = false)
    (hsucc : (retried ctx ev failures s).processed = true) :
    ¬ (s.processed = true ∨ 20 ≤ s.attempts) := by
  intro hstuck
  rw [retried_stuck hstuck, hproc] at hsucc
  cases hsucc

/-- What an attempt on an event without a trade row leaves of the order. -/
theorem order_processPending (ctx : OrderContext) {s : EventState} (f : Option Failure)
    (hactive : ¬ (s.processed = true ∨ 20 ≤ s.attempts))
    (hfresh : hasTradeOf ev.id s.order.ledger.trades = false) :
    (processPending ctx ev f s).order =
      (processPendingOrder ctx ev (f.map Failure.stop) s.order).state := by
  simp only [processPending, hactive, if_false, hfresh, Bool.false_eq_true]
  split <;> simp

/-- In any case the order is as it was or as one attempt leaves it. -/
theorem order_processPending_cases (f : Option Failure) (s : EventState) :
    (processPending ctx ev f s).order = s.order ∨
      (processPending ctx ev f s).order =
        (processPendingOrder ctx ev (f.map Failure.stop) s.order).state := by
  by_cases hstuck : s.processed = true ∨ 20 ≤ s.attempts
  · exact .inl (by rw [processPending_stuck _ hstuck])
  · cases hfresh : hasTradeOf ev.id s.order.ledger.trades with
    | true => exact .inl (order_processPending_of_trade f hfresh)
    | false => exact .inr (order_processPending ctx f hstuck hfresh)

/-- An attempt that commits anything moves the row's counter by the event's new
quantity. -/
theorem filled_processPendingOrder {stop : Option Stop} (h : stop ≠ some .beforeRow)
    (s : OrderState) :
    (processPendingOrder ctx ev stop s).state.pending.filled =
      s.pending.filled + eventDelta ev s.pending.filled := by
  unfold processPendingOrder
  match stop with
  | none => simp [filled_projectRow]
  | some .beforeRow => exact absurd rfl h
  | some .afterRow => exact filled_projectRow ..
  | some .afterPosition =>
    dsimp only
    split <;> exact filled_projectRow ..
  | some .afterTrade => simp [filled_projectRow]

/-- An attempt on an event that is not bookable books nothing. -/
theorem processPendingOrder_unbooked {stop : Option Stop} {s : OrderState}
    (h : booksFill ctx ev s.pending = false) :
    let s' := (processPendingOrder ctx ev stop s).state
    s'.ledger.bookedTrades = s.ledger.bookedTrades ∧
      s'.ledger.bookedPosition = s.ledger.bookedPosition ∧
      s'.ledger.eventIds = s.ledger.eventIds := by
  unfold processPendingOrder
  have hproj := projectBooking_unbooked (s := { s with pending := projectRow ev s.pending }) h
  match stop with
  | none => exact hproj
  | some .beforeRow => exact ⟨rfl, rfl, rfl⟩
  | some .afterRow => exact ⟨rfl, rfl, rfl⟩
  | some .afterPosition => simp [h]
  | some .afterTrade => exact hproj

theorem booksFill_of_spent {p : PendingOrder} (h : eventDelta ev p.filled = 0) :
    booksFill ctx ev p = false := by
  simp [booksFill, h, not_lt.mpr fillEpsilon_pos.le]

/-- **A spent event.**  An event that brings nothing new changes no quantity,
however often it is tried. -/
theorem retried_spent {failures : List Failure} {s : EventState}
    (h : eventDelta ev s.order.pending.filled = 0) :
    let s' := (retried ctx ev failures s).order
    s'.pending.filled = s.order.pending.filled ∧
      s'.ledger.bookedTrades = s.order.ledger.bookedTrades ∧
      s'.ledger.bookedPosition = s.order.ledger.bookedPosition ∧
      s'.ledger.eventIds = s.order.ledger.eventIds := by
  have hone : ∀ (f : Option Failure) (s : EventState), eventDelta ev s.order.pending.filled = 0 →
      let s' := (processPending ctx ev f s).order
      s'.pending.filled = s.order.pending.filled ∧
        s'.ledger.bookedTrades = s.order.ledger.bookedTrades ∧
        s'.ledger.bookedPosition = s.order.ledger.bookedPosition ∧
        s'.ledger.eventIds = s.order.ledger.eventIds := by
    intro f s h
    dsimp only
    rcases order_processPending_cases f s with heq | heq
    · rw [heq]
      exact ⟨rfl, rfl, rfl, rfl⟩
    · rw [heq]
      refine ⟨?_, processPendingOrder_unbooked (booksFill_of_spent h)⟩
      by_cases hstop : f.map Failure.stop = some .beforeRow
      · rw [hstop]
        rfl
      · rw [filled_processPendingOrder hstop, h, add_zero]
  induction failures generalizing s with
  | nil => exact hone none s h
  | cons f rest ih =>
    obtain ⟨hf, htr, hpos, hids⟩ := hone (some f) s h
    obtain ⟨hf', htr', hpos', hids'⟩ := ih (s := processPending ctx ev (some f) s) (hf ▸ h)
    exact ⟨hf'.trans hf, htr'.trans htr, hpos'.trans hpos, hids'.trans hids⟩

/-- **Recounting.**  From a state without a trade row, a successful end adds the
quantity of an incremental event to the counter once more. -/
theorem retried_recounts {failures : List Failure} {s : EventState}
    (hmode : ev.cumulativeMode = false) (hproc : s.processed = false)
    (hsucc : (retried ctx ev failures s).processed = true)
    (hfresh : hasTradeOf ev.id s.order.ledger.trades = false) :
    s.order.pending.filled + max 0 ev.quantity ≤
      (retried ctx ev failures s).order.pending.filled := by
  have hq : 0 ≤ max 0 ev.quantity := le_max_left _ _
  induction failures generalizing s with
  | nil =>
    have hactive := active_of_retried hproc hsucc
    rw [retried, order_processPending ctx none hactive hfresh, Option.map_none,
      filled_processPendingOrder (by simp), eventDelta_incremental hmode]
  | cons f rest ih =>
    have hactive := active_of_retried hproc hsucc
    have hproc' : (processPending ctx ev (some f) s).processed = false :=
      (processed_processPending_some f s).trans hproc
    have horder := order_processPending ctx (some f) hactive hfresh
    have hup : s.order.pending.filled ≤
        (processPending ctx ev (some f) s).order.pending.filled := by
      rw [horder]
      by_cases hstop : f.stop = .beforeRow
      · simp [hstop, processPendingOrder]
      · rw [filled_processPendingOrder (by simpa using hstop), eventDelta_incremental hmode]
        linarith
    rw [retried] at hsucc ⊢
    cases htrade : hasTradeOf ev.id (processPending ctx ev (some f) s).order.ledger.trades with
    | false => linarith [ih hproc' hsucc htrade]
    | true =>
      -- the attempt got as far as the trade row, so it moved the counter
      have hstop : some f.stop ≠ some Stop.beforeRow := by
        intro hstop
        rw [horder, Option.map_some, hstop] at htrade
        simp [processPendingOrder, hfresh] at htrade
      rw [order_retried_of_trade htrade, horder, Option.map_some,
        filled_processPendingOrder hstop, eventDelta_incremental hmode]

/-- After a commit that left no trade row, no retry ends in a projected event. -/
theorem not_projected_of_committed {failures : List Failure} {o : OrderState} {s : EventState}
    (hnew : 0 < eventDelta ev o.pending.filled) (hproc : s.processed = false)
    (hfilled : s.order.pending.filled = o.pending.filled + eventDelta ev o.pending.filled)
    (htrades : s.order.ledger.bookedTrades = o.ledger.bookedTrades)
    (hfresh : hasTradeOf ev.id s.order.ledger.trades = false)
    (hsucc : (retried ctx ev failures s).processed = true) :
    ¬ Projected ev o (retried ctx ev failures s).order := by
  rintro ⟨hcount, htr, -, -⟩
  cases hmode : ev.cumulativeMode with
  | true =>
    -- the retry finds the counter advanced and nothing left to book
    have hspent : eventDelta ev s.order.pending.filled = 0 := by
      rw [hfilled, eventDelta_cumulative hmode]
      unfold eventDelta eventTarget
      simp [hmode]
    have : (retried ctx ev failures s).order.ledger.bookedTrades = s.order.ledger.bookedTrades :=
      (retried_spent hspent).2.1
    linarith
  | false =>
    have := retried_recounts hmode hproc hsucc hfresh
    rw [eventDelta_incremental hmode] at *
    linarith

theorem eventTrades_fresh {s : OrderState} (h : ev.id ∉ s.ledger.eventIds) :
    eventTrades ev s = [] := by
  simp only [eventTrades, List.map_eq_nil_iff, List.filter_eq_nil_iff, decide_eq_true_eq]
  intro t ht heq
  exact h (heq ▸ List.mem_map_of_mem ht)

/-- One undisturbed attempt projects a new quantity if and only if the event is
bookable at its full quantity. -/
theorem projected_projectBooking {o : OrderState} (hfresh : ev.id ∉ o.ledger.eventIds)
    (hnew : 0 < eventDelta ev o.pending.filled) :
    Projected ev o
        (projectBooking ctx ev o.pending { o with pending := projectRow ev o.pending }).state ↔
      booksFill ctx ev o.pending ∧
        (eventFill ctx ev o.pending).positionQty = eventDelta ev o.pending.filled := by
  cases hbook : booksFill ctx ev o.pending with
  | false =>
    obtain ⟨htr, -⟩ :=
      projectBooking_unbooked (s := { o with pending := projectRow ev o.pending }) hbook
    simp only [Bool.false_eq_true, false_and, iff_false]
    rintro ⟨-, hbooked, -⟩
    linarith
  | true =>
    have hq := hbook
    simp only [booksFill, decide_eq_true_eq] at hq
    obtain ⟨profitOut, heq⟩ := persistStrategyFill_eq (f := eventFill ctx ev o.pending) hq.2.1
      (hasTradeOf_eq_false hfresh)
    have hrest := eventTrades_fresh hfresh
    simp only [eventTrades, List.map_eq_nil_iff] at hrest
    simp only [Projected, pending_projectBooking, filled_projectRow, ledger_projectBooking hbook,
      heq, eventTrades, List.filter_append, hrest, hnew.ne', if_false, true_and]
    simp only [Ledger.bookedTrades, Ledger.bookedPosition, tradeOf, eventFill, List.map_append,
      List.map_cons, List.map_nil, List.sum_append, List.sum_singleton, decide_true,
      List.filter_cons_of_pos, List.filter_nil, List.nil_append, true_and, and_true]
    simp only [PositionLedger.apply, not_le.mpr hq.2.2, or_false]
    split
    · next hle =>
      constructor
      · intro h
        linarith
      · intro h
        rw [h] at hle
        linarith
    · exact add_right_inj _

/-- The first attempt that commits anything decides. -/
theorem projected_retried_iff {failures : List Failure} {s : EventState}
    (hfresh : ev.id ∉ s.order.ledger.eventIds) (hid : 0 < ev.id)
    (hnew : 0 < eventDelta ev s.order.pending.filled) (hproc : s.processed = false)
    (hsucc : (retried ctx ev failures s).processed = true) :
    Projected ev s.order (retried ctx ev failures s).order ↔
      booksFill ctx ev s.order.pending ∧
        (eventFill ctx ev s.order.pending).positionQty = eventDelta ev s.order.pending.filled ∧
        (firstCommit failures = none ∨ firstCommit failures = some .afterTrade) := by
  have hnone := hasTradeOf_eq_false hfresh
  induction failures generalizing s with
  | nil =>
    have hactive := active_of_retried hproc hsucc
    rw [retried, order_processPending ctx none hactive hnone]
    simpa [processPendingOrder, firstCommit] using projected_projectBooking hfresh hnew
  | cons f rest ih =>
    have hactive := active_of_retried hproc hsucc
    have hproc' : (processPending ctx ev (some f) s).processed = false :=
      (processed_processPending_some f s).trans hproc
    have horder := order_processPending ctx (some f) hactive hnone
    rw [retried] at hsucc ⊢
    cases hstop : f.stop with
    | beforeRow =>
      have hsame : (processPending ctx ev (some f) s).order = s.order := by
        rw [horder, Option.map_some, hstop]
        rfl
      have hfc : firstCommit (f :: rest) = firstCommit rest := by simp [firstCommit, hstop]
      have := ih (s := processPending ctx ev (some f) s) (by rwa [hsame]) (by rwa [hsame]) hproc'
        hsucc (by rwa [hsame])
      rwa [hsame, ← hfc] at this
    | afterRow =>
      have hfc : firstCommit (f :: rest) = some .afterRow := by simp [firstCommit, hstop]
      rw [Option.map_some, hstop] at horder
      simp only [hfc, reduceCtorEq, Option.some.injEq, or_self, and_false, iff_false]
      refine not_projected_of_committed hnew hproc' ?_ ?_ ?_ hsucc <;> rw [horder]
      · exact filled_processPendingOrder (by simp) _
      · rfl
      · exact hnone
    | afterPosition =>
      have hfc : firstCommit (f :: rest) = some .afterPosition := by simp [firstCommit, hstop]
      rw [Option.map_some, hstop] at horder
      have htrades : (processPendingOrder ctx ev (some .afterPosition) s.order).state.ledger.trades =
          s.order.ledger.trades := by
        unfold processPendingOrder
        dsimp only
        split <;> rfl
      simp only [hfc, reduceCtorEq, Option.some.injEq, or_self, and_false, iff_false]
      refine not_projected_of_committed hnew hproc' ?_ ?_ ?_ hsucc <;> rw [horder]
      · exact filled_processPendingOrder (by simp) _
      · rw [Ledger.bookedTrades, htrades]
        rfl
      · rwa [htrades]
    | afterTrade =>
      have hfc : firstCommit (f :: rest) = some .afterTrade := by simp [firstCommit, hstop]
      rw [Option.map_some, hstop] at horder
      have hstate : (processPendingOrder ctx ev (some .afterTrade) s.order).state =
          (projectBooking ctx ev s.order.pending
            { s.order with pending := projectRow ev s.order.pending }).state := rfl
      rw [hstate] at horder
      simp only [hfc, reduceCtorEq, or_true, and_true]
      cases hbook : booksFill ctx ev s.order.pending with
      | true =>
        have hq := hbook
        simp only [booksFill, decide_eq_true_eq] at hq
        have htrade : hasTradeOf ev.id
            (processPending ctx ev (some f) s).order.ledger.trades = true := by
          obtain ⟨profitOut, heq⟩ := persistStrategyFill_eq (f := eventFill ctx ev s.order.pending)
            hq.2.1 hnone
          rw [horder, ledger_projectBooking hbook, heq]
          simp [hasTradeOf, hid, tradeOf, eventFill]
        rw [order_retried_of_trade htrade, horder, projected_projectBooking hfresh hnew, hbook]
      | false =>
        obtain ⟨htr, -, hids⟩ :=
          projectBooking_unbooked (s := { s.order with pending := projectRow ev s.order.pending })
            hbook
        simp only [Bool.false_eq_true, false_and, iff_false]
        refine not_projected_of_committed hnew hproc' ?_ ?_ ?_ hsucc <;> rw [horder]
        · rw [pending_projectBooking, filled_projectRow]
        · exact htr
        · exact hasTradeOf_eq_false (by rwa [hids])

end

/-! ## Every sequence of failures -/

/-- **Crash-atomic projection.**  After any failures and then a success, the
event is projected exactly once if and only if `CrashSafe` holds. -/
theorem projected_iff_crashSafe {ctx : OrderContext} {ev : ExecutionEvent} {o : OrderState}
    {failures : List Failure} (hid : 0 < ev.id) (hfresh : ev.id ∉ o.ledger.eventIds)
    (hsucc : (retried ctx ev failures { order := o }).processed = true) :
    Projected ev o (retried ctx ev failures { order := o }).order ↔
      CrashSafe ctx ev o.pending failures := by
  rcases (eventDelta_nonneg ev o.pending.filled).eq_or_lt with hzero | hnew
  · obtain ⟨hf, htr, hpos, hids⟩ :=
      @retried_spent ctx ev failures { order := o } hzero.symm
    refine iff_of_true ⟨?_, ?_, ?_, ?_⟩ (.inl hzero.symm)
    · rw [hf, ← hzero, add_zero]
    · rw [htr, ← hzero, add_zero]
    · rw [hpos, ← hzero, add_zero]
    · rw [if_pos hzero.symm]
      exact eventTrades_fresh (by rwa [hids])
  · rw [CrashSafe, projected_retried_iff (s := { order := o }) hfresh hid hnew rfl hsucc]
    simp only [hnew.ne', false_or]

/-- An order to open a long swap position, partly filled. -/
def streamOrder : OrderContext where
  orderId := 1
  strategyId := 7
  symbol := "BTC/USDT"
  baseCurrency := "BTC"
  signal := .openLong
  market := .swap
  exchangeId := "okx"
  exchangeOrderId := "991"
  amount := 8

def partlyFilled : OrderState where
  pending := { filled := 0, avgPrice := 0, status := .sent }
  ledger := { position := { row := none, applied := 0 }, trades := [] }

/-- The venue reports 5 filled so far. -/
def cumulativeEvent : ExecutionEvent where
  id := 1
  quantity := 5
  cumulativeQuantity := 5
  isCumulative := true
  price := 100

/-- The venue reports a fill of 5. -/
def incrementalEvent : ExecutionEvent where
  id := 1
  quantity := 5
  price := 100

/-- The first attempt dies after its trade row, the second one before anything. -/
theorem projected_iff_crashSafe_afterTrade :
    Projected incrementalEvent partlyFilled
        (retried streamOrder incrementalEvent [⟨.beforeRow, false⟩, ⟨.afterTrade, true⟩]
          { order := partlyFilled }).order ↔
      CrashSafe streamOrder incrementalEvent partlyFilled.pending
        [⟨.beforeRow, false⟩, ⟨.afterTrade, true⟩] :=
  projected_iff_crashSafe (by decide) (by decide) (by decide +kernel)

/-- A crash right after the order row was committed loses a cumulative event's
fill and counts an incremental event's fill twice. -/
theorem crash_afterRow_misprojects :
    ((retried streamOrder cumulativeEvent [⟨.afterRow, true⟩] { order := partlyFilled }).processed ∧
        (retried streamOrder cumulativeEvent [⟨.afterRow, true⟩]
          { order := partlyFilled }).order.ledger.trades = [] ∧
        ¬ Projected cumulativeEvent partlyFilled
          (retried streamOrder cumulativeEvent [⟨.afterRow, true⟩] { order := partlyFilled }).order) ∧
      ((retried streamOrder incrementalEvent [⟨.afterRow, true⟩] { order := partlyFilled }).processed ∧
        (retried streamOrder incrementalEvent [⟨.afterRow, true⟩]
          { order := partlyFilled }).order.pending.filled = 10 ∧
        ¬ Projected incrementalEvent partlyFilled
          (retried streamOrder incrementalEvent [⟨.afterRow, true⟩]
            { order := partlyFilled }).order) := by
  decide +kernel

end AlgoTrade
