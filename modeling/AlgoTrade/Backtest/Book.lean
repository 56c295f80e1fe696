import AlgoTrade.Backtest.Protection
import AlgoTrade.Lib.Text
import Mathlib.Data.Rat.Floor

/-! # Orders and the simulation book

The order intents of a strategy, the rows the broker writes, and `Book`: the part
of `MultiAssetSimulationBroker` that sizing and filling read and write.

* `markToMarket`: the marks and the equity.
* `appendOrderEvent`: the order ledger with its compaction of resting polls.
* `recordClosedTrade`: open entries and closed trades. -/

namespace AlgoTrade.Backtest

/-! ## Orders -/

inductive OrderKind
  | quantity | value | targetQuantity | targetValue | targetPercent
  deriving DecidableEq, Repr

/-- `kind.startswith("target_")`. -/
def OrderKind.isTarget : OrderKind → Bool
  | targetQuantity | targetValue | targetPercent => true
  | _ => false

inductive OrderType
  | market | limit
  deriving DecidableEq, Repr

inductive ExecutionAlgo
  | market | limit | makerThenMarket
  deriving DecidableEq, Repr

/-- A reference a strategy gave, or one the runtime made up. -/
inductive ClientRef
  | given (reference : String)
  | generated (time : Time) (sequence : ℕ)
  deriving DecidableEq, Repr

namespace ClientRef

/-- `str(text or "").strip()`; `none` when nothing is left. -/
def named (text : String) : Option ClientRef :=
  if Text.strip text = "" then none else some (.given (Text.strip text))

/-- The same of a reference. -/
def stripped : ClientRef → Option ClientRef
  | .given text => named text
  | reference => some reference

end ClientRef

structure OrderIntent where
  symbol : Instrument
  kind : OrderKind
  value : ℚ
  reason : String := "strategy"
  protection : Option ProtectionSpec := none
  signalTime : Option Time := none
  attempts : ℕ := 0
  pendingDirection : ℤ := 0
  orderType : OrderType := .market
  limitPrice : ℚ := 0
  executionAlgo : ExecutionAlgo := .market
  positionSide : Option Side := none
  clientOrderId : Option ClientRef := none
  deriving DecidableEq

def OrderIntent.isLimit (o : OrderIntent) : Bool := o.orderType = .limit ∨ o.executionAlgo = .limit

/-- `_position_key`. -/
structure PositionKey where
  symbol : Instrument
  side : Option Side
  deriving DecidableEq, Repr

def OrderIntent.positionKey (o : OrderIntent) : PositionKey := ⟨o.symbol, o.positionSide⟩

structure Position where
  symbol : Instrument
  amount : ℚ := 0
  avgCost : ℚ := 0
  lastPrice : ℚ := 0
  positionSide : Option Side := none
  deriving DecidableEq, Repr

def Position.marketValue (p : Position) : ℚ := p.amount * p.lastPrice

/-! ## What the broker records -/

inductive EventStatus
  | filled | partFilled | deferred | rejected
  deriving DecidableEq, Repr

inductive StatusReason
  | noPrice | suspended | limitUp | limitDown
  | targetAlreadyMet | limitPriceRequired | limitNotReached | minimumTradeUnit
  | insufficientCash | positionLimit
  | filled | marginLiquidation | insufficientLiquidity | partFill
  | cancelledByStrategy
  deriving DecidableEq, Repr

/-- The time and the sequence number of an order. -/
structure OrderId where
  time : Time
  sequence : ℕ
  deriving DecidableEq, Repr

/-- A resting period folded into one ledger row. -/
structure RestingWindow where
  firstEventTime : Time
  lastEventTime : Time
  lastOrderId : Option OrderId := none
  occurrenceCount : ℕ := 1
  minRequestedQuantity : ℚ
  maxRequestedQuantity : ℚ
  deriving DecidableEq, Repr

structure OrderEvent where
  orderId : OrderId
  clientOrderId : Option ClientRef
  symbol : Instrument
  positionSide : Option Side
  kind : OrderKind
  value : ℚ
  reason : String
  status : EventStatus
  statusReason : StatusReason
  signalTime : Time
  eventTime : Time
  attempt : ℕ
  requestedQuantity : ℚ := 0
  filledQuantity : ℚ := 0
  price : ℚ := 0
  commission : ℚ := 0
  resting : Option RestingWindow := none
  deriving DecidableEq, Repr

inductive TradeSide
  | buy | sell
  deriving DecidableEq, Repr

inductive ExecutionType
  | openLong | addLong | reduceLong | closeLong
  | openShort | addShort | reduceShort | closeShort
  | reverseToLong | reverseToShort
  deriving DecidableEq, Repr

inductive FillReference
  | barOpen | gapOpen | limit
  deriving DecidableEq, Repr

structure Execution where
  orderId : OrderId
  symbol : Instrument
  time : Time
  side : TradeSide
  type : ExecutionType
  positionSide : Side
  positionKey : PositionKey
  quantity : ℚ
  price : ℚ
  notional : ℚ
  commission : ℚ
  balance : ℚ
  reason : String
  signalTime : Time
  fillReference : FillReference
  referencePrice : ℚ
  orderType : OrderType
  limitPrice : ℚ
  status : EventStatus
  requestedQuantity : ℚ
  deriving DecidableEq, Repr

/-- An open entry of a position key. -/
structure Entry where
  time : Time
  price : ℚ
  quantity : ℚ
  commission : ℚ
  side : Side
  deriving DecidableEq, Repr

structure ClosedTrade where
  symbol : PositionKey
  side : Side
  entryTime : Time
  exitTime : Time
  entryPrice : ℚ
  exitPrice : ℚ
  quantity : ℚ
  profit : ℚ
  grossProfit : ℚ
  entryCommission : ℚ
  exitCommission : ℚ
  balance : ℚ
  closeReason : String
  deriving DecidableEq, Repr

/-- A ledger row of the order; quantities, price and fee are added by the caller. -/
def orderEvent (orderId : OrderId) (order : OrderIntent) (timestamp : Time) (status : EventStatus)
    (reason : StatusReason) : OrderEvent where
  orderId := orderId
  clientOrderId := order.clientOrderId
  symbol := order.symbol
  positionSide := order.positionSide
  kind := order.kind
  value := order.value
  reason := order.reason
  status := status
  statusReason := reason
  signalTime := order.signalTime.getD timestamp
  eventTime := timestamp
  attempt := order.attempts + 1

/-- One more poll of a resting order. -/
def OrderEvent.poll (existing event : OrderEvent) (w : RestingWindow) : OrderEvent :=
  let requested := event.requestedQuantity
  let orElse (x : ℚ) := if x = 0 then requested else x
  { existing with
    requestedQuantity := requested
    resting := some { w with
      lastEventTime := event.eventTime
      lastOrderId := some event.orderId
      occurrenceCount := w.occurrenceCount + 1
      minRequestedQuantity := min (orElse w.minRequestedQuantity) requested
      maxRequestedQuantity := max (orElse w.maxRequestedQuantity) requested } }

/-- Cash, positions and what was recorded about orders. -/
structure Book where
  availableCash : ℚ
  positions : Dict PositionKey Position := {}
  totalValue : ℚ
  executions : List Execution := []
  closedTrades : List ClosedTrade := []
  entries : Dict PositionKey Entry := {}
  orderLedger : List OrderEvent := []
  restingDeferredEvents : Dict ClientRef ℕ := {}
  orderSequence : ℕ := 0
  deriving DecidableEq, Repr

/-- Settings of the broker. -/
structure BrokerConfig where
  initialCapital : ℚ
  leverage : ℚ := 1
  commission : ℚ := 1 / 2000
  slippage : ℚ := 1 / 2000
  one_le_leverage : 1 ≤ leverage
  commission_nonneg : 0 ≤ commission
  slippage_nonneg : 0 ≤ slippage

namespace BrokerConfig

theorem one_le_unlevered : (1 : ℚ) ≤ 1 := le_rfl

theorem free_nonneg : (0 : ℚ) ≤ 0 := le_rfl

/-- Neither leverage nor costs. -/
def costless (initialCapital : ℚ) : BrokerConfig where
  initialCapital := initialCapital
  commission := 0
  slippage := 0
  one_le_leverage := one_le_unlevered
  commission_nonneg := free_nonneg
  slippage_nonneg := free_nonneg

/-- The usual costs, without leverage. -/
def unlevered (initialCapital : ℚ) : BrokerConfig where
  initialCapital := initialCapital
  one_le_leverage := one_le_unlevered
  commission_nonneg := by norm_num
  slippage_nonneg := by norm_num

end BrokerConfig

/-- The tolerance for amounts. -/
def amountEpsilon : ℚ := 1 / 10 ^ 12

/-! ## Marks -/

/-- The price `mark_to_market` gives a position: the close of the current bar, else
the last visible close; a zero price falls back to the last price and the cost. -/
def markPrice (p : Portal) (pos : Position) : ℚ :=
  let price := (p.closeAt pos.symbol).getD (p.current pos.symbol pos.lastPrice)
  if price ≠ 0 then price else if pos.lastPrice ≠ 0 then pos.lastPrice else pos.avgCost

namespace Book

def positionsValue (b : Book) : ℚ := (b.positions.values.map Position.marketValue).sum

def markToMarket (p : Portal) (b : Book) : Book :=
  let marked :=
    { b with positions := b.positions.mapValues fun pos => { pos with lastPrice := markPrice p pos } }
  { marked with totalValue := marked.availableCash + marked.positionsValue }

/-- `_gross_value`. -/
def grossValue (b : Book) (exclude : PositionKey) : ℚ :=
  (b.positions.entries.map fun e => if e.1 = exclude then 0 else |e.2.marketValue|).sum

/-! ## The order ledger -/

/-- `_append_order_event` without coalescing: ends the reference's resting period. -/
def appendOrderEvent (b : Book) (event : OrderEvent) : Book :=
  { b with
    orderLedger := b.orderLedger ++ [event]
    restingDeferredEvents := match event.clientOrderId.bind ClientRef.stripped with
      | none => b.restingDeferredEvents
      | some ref => b.restingDeferredEvents.pop ref }

/-- `_append_order_event` with `coalesce_resting`. -/
def appendRestingEvent (b : Book) (event : OrderEvent) : Book :=
  match event.clientOrderId.bind ClientRef.stripped with
  | none => { b with orderLedger := b.orderLedger ++ [event] }
  | some ref =>
    let opening : Book :=
      { b with
        orderLedger := b.orderLedger ++ [{ event with
          resting := some
            { firstEventTime := event.eventTime
              lastEventTime := event.eventTime
              minRequestedQuantity := event.requestedQuantity
              maxRequestedQuantity := event.requestedQuantity } }]
        restingDeferredEvents := b.restingDeferredEvents.set ref b.orderLedger.length }
    match b.restingDeferredEvents.get? ref with
    | none => opening
    | some index =>
      match b.orderLedger[index]? with
      | none => opening
      | some existing =>
        match existing.status, existing.statusReason, existing.resting with
        | .deferred, .limitNotReached, some w =>
          { b with orderLedger := b.orderLedger.set index (OrderEvent.poll existing event w) }
        | _, _, _ => opening

/-- `release_resting_order_references`. -/
def releaseResting (b : Book) (references : List ClientRef) : Book :=
  { b with restingDeferredEvents := references.foldl Dict.pop b.restingDeferredEvents }

/-! ## Entries and closed trades -/

/-- The closing part of a fill. -/
def closeEntry (b : Book) (e : Execution) (oldAmount oldCost targetAmount closing closeFee : ℚ) :
    Book :=
  let entry := (b.entries.get? e.positionKey).getD
    { time := e.time, price := oldCost, quantity := |oldAmount|, commission := 0,
      side := if 0 < oldAmount then .long else .short }
  let entryPrice := if entry.price = 0 then oldCost else entry.price
  let entryQuantity := max entry.quantity closing
  let entryFee := entry.commission * closing / entryQuantity
  let direction : ℚ := if 0 < oldAmount then 1 else -1
  let grossProfit := (e.price - entryPrice) * closing * direction
  let trade : ClosedTrade :=
    { symbol := e.positionKey, side := entry.side, entryTime := entry.time, exitTime := e.time,
      entryPrice, exitPrice := e.price, quantity := closing,
      profit := grossProfit - entryFee - closeFee, grossProfit, entryCommission := entryFee,
      exitCommission := closeFee, balance := e.balance, closeReason := e.reason }
  let remaining := max 0 (entryQuantity - closing)
  { b with
    closedTrades := b.closedTrades ++ [trade]
    entries :=
      if amountEpsilon < remaining ∧ 0 ≤ oldAmount * targetAmount then
        b.entries.set e.positionKey
          { entry with quantity := remaining, commission := max 0 (entry.commission - entryFee) }
      else b.entries.pop e.positionKey }

/-- The opening part of a fill. -/
def openEntry (b : Book) (e : Execution) (targetAmount opening openFee : ℚ) : Book :=
  let side : Side := if 0 < targetAmount then .long else .short
  let fresh : Entry :=
    { time := e.time, price := e.price, quantity := opening, commission := openFee, side }
  let entry := match b.entries.get? e.positionKey with
    | none => fresh
    | some existing =>
      if existing.side = side then
        let combined := existing.quantity + opening
        let price := if existing.price = 0 then e.price else existing.price
        { existing with
          price := (price * existing.quantity + e.price * opening) / combined
          quantity := combined
          commission := existing.commission + openFee }
      else fresh
  { b with entries := b.entries.set e.positionKey entry }

/-- `_record_closed_trade`. -/
def recordClosedTrade (b : Book) (e : Execution) (oldAmount oldCost targetAmount : ℚ) : Book :=
  let delta := match e.side with
    | .buy => e.quantity
    | .sell => -e.quantity
  let closing := if oldAmount * delta < 0 then min |oldAmount| |delta| else 0
  let opening := max 0 (|delta| - closing)
  let closeFee := e.commission * closing / max |delta| amountEpsilon
  let openFee := e.commission - closeFee
  let b := if amountEpsilon < closing then
      b.closeEntry e oldAmount oldCost targetAmount closing closeFee
    else b
  if amountEpsilon < opening then b.openEntry e targetAmount opening openFee else b

end Book

end AlgoTrade.Backtest
