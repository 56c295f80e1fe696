import AlgoTrade.Fills.PendingOrder

/-! # Projection of a private stream event into a pending order

`processPendingOrder` is `_process_pending_order`.  It commits the order row,
then the position, then the trade; `Stop` says after which commit an attempt
fails, so that a crash or an exception between two transactions is a value of
the model.

* `filled_projectRow`: the row's counter moves up by the event's new quantity.
* `projectBooking_booked`: a bookable event is booked once on both sides. -/

namespace AlgoTrade

inductive EventStatus
  | filled | cancelled | other
  deriving DecidableEq, Repr

/-- A row of `qd_execution_events`, with the fees and the quote fee that `_fees`
computes from its fee components. -/
structure ExecutionEvent where
  id : Nat
  quantity : ℚ
  cumulativeQuantity : ℚ := 0
  isCumulative : Bool := false
  price : ℚ := 0
  orderStatus : EventStatus := .other
  feeStatus : String := "pending"
  fees : Fees := []
  commissionQuote : Option ℚ := none
  realizedPnl : Option ℚ := none
  marketType : Option MarketType := none
  deriving DecidableEq, Repr

/-- `bool(event.is_cumulative) or cumulative > 0`. -/
def ExecutionEvent.cumulativeMode (ev : ExecutionEvent) : Bool :=
  ev.isCumulative || decide (0 < max 0 ev.cumulativeQuantity)

/-- The quantity the row's counter is moved to. -/
def eventTarget (ev : ExecutionEvent) (previous : ℚ) : ℚ :=
  if ev.cumulativeMode then max previous (max 0 ev.cumulativeQuantity)
  else previous + max 0 ev.quantity

/-- The new quantity the event brings to a row that holds `previous`. -/
def eventDelta (ev : ExecutionEvent) (previous : ℚ) : ℚ :=
  if ev.cumulativeMode then max 0 (eventTarget ev previous - previous) else max 0 ev.quantity

/-- `event.price or pending.avg_price`. -/
def eventPrice (ev : ExecutionEvent) (p : PendingOrder) : ℚ := orElse ev.price p.avgPrice

/-- The transaction on the order row. -/
def projectRow (ev : ExecutionEvent) (p : PendingOrder) : PendingOrder :=
  let target := eventTarget ev p.filled
  let delta := eventDelta ev p.filled
  let price := eventPrice ev p
  let aggregateAvg :=
    if 0 < target ∧ 0 < delta ∧ 0 < price then (p.filled * p.avgPrice + delta * price) / target
    else orElse p.avgPrice price
  { p with
    filled := max p.filled target
    avgPrice := if 0 < aggregateAvg then aggregateAvg else p.avgPrice
    status :=
      match p.status with
      | .failed => .failed
      | .cancelled => .cancelled
      | status => if ev.orderStatus = .filled then .filled else status }

/-- The fill the event hands to `persist_strategy_fill`, computed from the row
as it was read. -/
def eventFill (ctx : OrderContext) (ev : ExecutionEvent) (p : PendingOrder) : StrategyFill :=
  let delta := eventDelta ev p.filled
  { signal := ctx.signal
    filled := delta
    positionFilled := some <|
      spotPositionFillQuantity (ev.marketType.getD ctx.market) ctx.baseCurrency ctx.signal delta
        ev.fees
    avgPrice := eventPrice ev p
    commission := (feeStorageValues ev.fees).1
    commissionCcy := (feeStorageValues ev.fees).2
    commissionQuote := ev.commissionQuote
    profit := ev.realizedPnl
    executionEventId := ev.id
    feeStatus := ev.feeStatus
    feeSource := "websocket" }

/-- `delta > 1e-12 and price > 0`, for an order that belongs to a strategy. -/
def booksFill (ctx : OrderContext) (ev : ExecutionEvent) (p : PendingOrder) : Bool :=
  0 < ctx.strategyId ∧ fillEpsilon < eventDelta ev p.filled ∧ 0 < eventPrice ev p

/-- The fee columns `_apply_late_fee` writes on the last trade of the order. -/
def lateFeeTrade (ev : ExecutionEvent) (t : TradeRow) : TradeRow :=
  let (commission, ccy) := feeStorageValues ev.fees
  let actual := t.feeStatus = "actual" ∨ t.feeStatus = "actual_zero"
  let foreignSource := t.feeSource ≠ "" ∧ t.feeSource ≠ "websocket"
  if actual ∧ foreignSource ∧ 1 / 10 ^ 18 < |t.commission| then t
  else
    let append : Bool := t.feeSource == "websocket"
    { t with
      commission := if append then t.commission + commission else commission
      commissionCcy :=
        if append ∧ t.commissionCcy ≠ "" ∧ t.commissionCcy ≠ ccy then "MIXED" else ccy
      commissionQuote :=
        if append then some (t.commissionQuote.getD 0 + ev.commissionQuote.getD 0)
        else ev.commissionQuote
      feeStatus := if ev.feeStatus = "" then "actual" else ev.feeStatus
      feeSource := "websocket" }

/-- `_apply_late_fee`; `none` when no trade row is there yet and it raises. -/
def applyLateFee (ev : ExecutionEvent) (s : OrderState) : Option OrderState :=
  if ev.id ∈ s.feeProjections then some s
  else
    match s.ledger.trades.reverse with
    | [] => none
    | last :: earlier =>
      some { s with
        ledger := { s.ledger with trades := earlier.reverse ++ [lateFeeTrade ev last] }
        feeProjections := ev.id :: s.feeProjections }

/-- Where an attempt that fails ends: before anything was committed, or after one
of the commits. -/
inductive Stop
  | beforeRow | afterRow | afterPosition | afterTrade
  deriving DecidableEq, Repr

/-- The state an attempt leaves, and whether it returned normally. -/
structure Attempt where
  state : OrderState
  returned : Bool
  deriving DecidableEq, Repr

/-- The part of `_process_pending_order` after the row was committed; `p` is the
row as it was read, `s` the state with the new row. -/
def projectBooking (ctx : OrderContext) (ev : ExecutionEvent) (p : PendingOrder)
    (s : OrderState) : Attempt :=
  if ctx.strategyId ≤ 0 then ⟨s, true⟩
  else if booksFill ctx ev p then
    ⟨{ s with ledger := persistStrategyFill (eventFill ctx ev p) s.ledger }, true⟩
  else if ev.fees.isEmpty then ⟨s, true⟩
  else
    match applyLateFee ev s with
    | none => ⟨s, false⟩
    | some s' => ⟨s', true⟩

/-- `_process_pending_order`, up to the stop if there is one. -/
def processPendingOrder (ctx : OrderContext) (ev : ExecutionEvent) (stop : Option Stop)
    (s : OrderState) : Attempt :=
  let projected := { s with pending := projectRow ev s.pending }
  match stop with
  | some .beforeRow => ⟨s, false⟩
  | some .afterRow => ⟨projected, false⟩
  | some .afterPosition =>
    if booksFill ctx ev s.pending then
      ⟨{ projected with ledger := bookPosition (eventFill ctx ev s.pending) s.ledger }, false⟩
    else ⟨projected, false⟩
  | some .afterTrade => ⟨(projectBooking ctx ev s.pending projected).state, false⟩
  | none => projectBooking ctx ev s.pending projected

/-! ## Lemmas -/

theorem eventDelta_nonneg (ev : ExecutionEvent) (q : ℚ) : 0 ≤ eventDelta ev q := by
  unfold eventDelta
  split <;> exact le_max_left _ _

theorem eventTarget_eq (ev : ExecutionEvent) (q : ℚ) : eventTarget ev q = q + eventDelta ev q := by
  unfold eventDelta eventTarget
  split
  · rw [max_eq_right (sub_nonneg.mpr (le_max_left _ _))]
    ring
  · rfl

/-- The row's counter moves up by the event's new quantity. -/
theorem filled_projectRow (ev : ExecutionEvent) (p : PendingOrder) :
    (projectRow ev p).filled = p.filled + eventDelta ev p.filled := by
  have h := eventDelta_nonneg ev p.filled
  simp only [projectRow, eventTarget_eq]
  exact max_eq_right (by linarith)

/-- The row transaction never rewrites the stored response. -/
theorem response_projectRow (ev : ExecutionEvent) (p : PendingOrder) :
    (projectRow ev p).response = p.response := rfl

theorem eventDelta_cumulative {ev : ExecutionEvent} {q : ℚ} (h : ev.cumulativeMode = true) :
    q + eventDelta ev q = max q (max 0 ev.cumulativeQuantity) := by
  rw [← eventTarget_eq]
  simp [eventTarget, h]

theorem eventDelta_incremental {ev : ExecutionEvent} {q : ℚ} (h : ev.cumulativeMode = false) :
    eventDelta ev q = max 0 ev.quantity := by
  simp [eventDelta, h]

/-- A late fee moves no quantity. -/
theorem amounts_applyLateFee {ev : ExecutionEvent} {s s' : OrderState}
    (h : applyLateFee ev s = some s') :
    s'.pending = s.pending ∧ s'.ledger.bookedTrades = s.ledger.bookedTrades ∧
      s'.ledger.bookedPosition = s.ledger.bookedPosition := by
  unfold applyLateFee at h
  split at h
  · cases h
    exact ⟨rfl, rfl, rfl⟩
  · split at h
    · cases h
    · next last earlier htr =>
      cases h
      refine ⟨rfl, ?_, rfl⟩
      have hrev : s.ledger.trades = earlier.reverse ++ [last] := by
        rw [← List.reverse_reverse s.ledger.trades, htr, List.reverse_cons]
      have hamount : (lateFeeTrade ev last).amount = last.amount := by
        unfold lateFeeTrade
        dsimp only
        split <;> rfl
      simp [Ledger.bookedTrades, hrev, hamount]

theorem eventIds_applyLateFee {ev : ExecutionEvent} {s s' : OrderState}
    (h : applyLateFee ev s = some s') : s'.ledger.eventIds = s.ledger.eventIds := by
  unfold applyLateFee at h
  split at h
  · cases h
    rfl
  · split at h
    · cases h
    · next last earlier htr =>
      cases h
      have hrev : s.ledger.trades = earlier.reverse ++ [last] := by
        rw [← List.reverse_reverse s.ledger.trades, htr, List.reverse_cons]
      have hid : (lateFeeTrade ev last).executionEventId = last.executionEventId := by
        unfold lateFeeTrade
        dsimp only
        split <;> rfl
      simp [Ledger.eventIds, hrev, hid]

/-- The trade rows carry this event and earlier ones. -/
theorem eventIds_projectBooking {ctx : OrderContext} {ev : ExecutionEvent} {p : PendingOrder}
    {s : OrderState} {id : Nat} (h : id ∈ (projectBooking ctx ev p s).state.ledger.eventIds) :
    id = ev.id ∨ id ∈ s.ledger.eventIds := by
  unfold projectBooking at h
  split at h
  · exact .inr h
  · split at h
    · exact eventIds_persistStrategyFill h
    · split at h
      · exact .inr h
      · split at h
        · exact .inr h
        · next s' hs => exact .inr (eventIds_applyLateFee hs ▸ h)

/-- What follows the row's commit leaves the row alone. -/
@[simp] theorem pending_projectBooking (ctx : OrderContext) (ev : ExecutionEvent) (p : PendingOrder)
    (s : OrderState) : (projectBooking ctx ev p s).state.pending = s.pending := by
  unfold projectBooking
  split
  · rfl
  · split
    · rfl
    · split
      · rfl
      · split
        · rfl
        · next s' h => exact (amounts_applyLateFee h).1

/-- An event that is not booked moves no quantity and adds no trade row. -/
theorem projectBooking_unbooked {ctx : OrderContext} {ev : ExecutionEvent} {p : PendingOrder}
    {s : OrderState} (h : booksFill ctx ev p = false) :
    (projectBooking ctx ev p s).state.ledger.bookedTrades = s.ledger.bookedTrades ∧
      (projectBooking ctx ev p s).state.ledger.bookedPosition = s.ledger.bookedPosition ∧
      (projectBooking ctx ev p s).state.ledger.eventIds = s.ledger.eventIds := by
  unfold projectBooking
  split
  · exact ⟨rfl, rfl, rfl⟩
  · simp only [h, Bool.false_eq_true, if_false]
    split
    · exact ⟨rfl, rfl, rfl⟩
    · split
      · exact ⟨rfl, rfl, rfl⟩
      · next s' hs =>
        obtain ⟨-, htr, hpos⟩ := amounts_applyLateFee hs
        exact ⟨htr, hpos, eventIds_applyLateFee hs⟩

/-- A bookable event hands its fill to the ledger. -/
theorem ledger_projectBooking {ctx : OrderContext} {ev : ExecutionEvent} {p : PendingOrder}
    {s : OrderState} (h : booksFill ctx ev p = true) :
    (projectBooking ctx ev p s).state.ledger =
      persistStrategyFill (eventFill ctx ev p) s.ledger := by
  have hb := h
  simp only [booksFill, decide_eq_true_eq] at hb
  simp only [projectBooking, not_le.mpr hb.1, if_false, h, if_true]

/-- **Booking by the stream.**  A bookable event is booked once, on both sides. -/
theorem projectBooking_booked {ctx : OrderContext} {ev : ExecutionEvent} {p : PendingOrder}
    {s : OrderState} (h : booksFill ctx ev p = true)
    (hpos : (eventFill ctx ev p).positionQty = eventDelta ev p.filled)
    (hid : hasTradeOf ev.id s.ledger.trades = false) :
    (projectBooking ctx ev p s).state.ledger.bookedTrades =
        s.ledger.bookedTrades + eventDelta ev p.filled ∧
      (projectBooking ctx ev p s).state.ledger.bookedPosition =
        s.ledger.bookedPosition + eventDelta ev p.filled := by
  rw [ledger_projectBooking h]
  simp only [booksFill, decide_eq_true_eq] at h
  exact persistStrategyFill_booked (f := eventFill ctx ev p) h.2.1 hpos h.2.2 hid

end AlgoTrade
