import AlgoTrade.Backtest.Book

/-! # The simulation broker

`execute` and what it is made of, in the order the source reads prices: the open
of the bar, the marks, and for limit orders its high and low.

* `executeOrder`, `executeOrders`: an order and a batch on the book; `none` when
  the source raises.
* `execute`: a batch, with the marks before and after it, and the protections.
* `processProtections`, `liquidateIfInsolvent`, `recordEquity`. -/

namespace AlgoTrade.Backtest

/-! ## Sizing -/

/-- 1, -1 or 0. -/
def direction (x : ℚ) : ℤ := if 0 < x then 1 else if x < 0 then -1 else 0

/-- `math.copysign`. -/
def copysign (magnitude sign : ℚ) : ℚ := if sign < 0 then -|magnitude| else |magnitude|

/-- `_target_quantity`; `none` for a division by a zero price. -/
def targetQuantity (cfg : BrokerConfig) (order : OrderIntent) (currentAmount price equity : ℚ) :
    Option ℚ :=
  match order.kind with
  | .quantity => some (currentAmount + order.value)
  | .value => if price = 0 then none else some (currentAmount + order.value * cfg.leverage / price)
  | .targetQuantity => some order.value
  | .targetValue => if price = 0 then none else some (order.value * cfg.leverage / price)
  | .targetPercent =>
    if price = 0 then none
    else
      let targetValue := equity * order.value * cfg.leverage
      let targetValue :=
        if 0 < targetValue then targetValue / ((1 + cfg.slippage) * (1 + cfg.commission))
        else targetValue
      some (targetValue / price)

def lotSize (symbol : Instrument) (bar : Option OpenBar) : ℚ :=
  let explicit := (bar.map OpenBar.lotSize).getD 0
  if 0 < explicit then explicit else if symbol.market = "Crypto" then 1 / 10 ^ 8 else 1

def roundToLot (value lotSize : ℚ) : ℚ :=
  if lotSize ≤ 0 then value
  else
    let units : ℤ := ⌊|value| / lotSize + 1 / 10 ^ 8⌋
    if units = 0 then 0 else copysign (units * lotSize) value

def liquidityCap (bar : Option OpenBar) (lotSize : ℚ) : Option ℚ :=
  let volume := (bar.map OpenBar.volume).getD 0
  if volume ≤ 0 then none
  else
    let units : ℤ := ⌊volume * (1 / 10) / lotSize + 1 / 10 ^ 10⌋
    some (if units = 0 then 0 else units * lotSize)

/-- `_feasible_delta`. -/
def feasibleDelta (cfg : BrokerConfig) (b : Book) (delta currentAmount fillPrice equity lotSize : ℚ)
    (positionKey : PositionKey) : ℚ × Option StatusReason :=
  let spendable := max 0 (b.availableCash + equity * (cfg.leverage - 1))
  let cashCap := spendable / max (fillPrice * (1 + cfg.commission)) amountEpsilon
  let (feasible, reason) : ℚ × Option StatusReason :=
    if 0 < delta ∧ cashCap < delta then (cashCap, some .insufficientCash) else (delta, none)
  let grossLimit := max 0 (equity * cfg.leverage - b.grossValue positionKey)
  let maxTargetAbs := grossLimit / max fillPrice amountEpsilon
  let desiredTarget := currentAmount + feasible
  let (feasible, reason) : ℚ × Option StatusReason :=
    if maxTargetAbs + amountEpsilon < |desiredTarget| then
      (copysign maxTargetAbs desiredTarget - currentAmount, some .positionLimit)
    else (feasible, reason)
  -- a cap never turns a buy into a sell, or the other way
  if direction delta ≠ 0 ∧ direction feasible ≠ 0 ∧ direction feasible ≠ direction delta then
    (0, some (reason.getD .positionLimit))
  else (roundToLot feasible lotSize, reason)

/-- `_next_average_cost`. -/
def nextAverageCost (oldAmount oldCost delta fillPrice : ℚ) : ℚ :=
  let newAmount := oldAmount + delta
  if |newAmount| ≤ amountEpsilon then 0
  else if oldAmount = 0 ∨ 0 < oldAmount * delta then
    (oldAmount * oldCost + delta * fillPrice) / newAmount
  else if oldAmount * newAmount < 0 then fillPrice
  else oldCost

/-- `_execution_identity`. -/
def executionIdentity (oldAmount targetAmount delta : ℚ) : ExecutionType × Side :=
  if 0 ≤ oldAmount ∧ 0 ≤ targetAmount then
    if 0 < delta then (if |oldAmount| ≤ amountEpsilon then .openLong else .addLong, .long)
    else (if |targetAmount| ≤ amountEpsilon then .closeLong else .reduceLong, .long)
  else if oldAmount ≤ 0 ∧ targetAmount ≤ 0 then
    if delta < 0 then (if |oldAmount| ≤ amountEpsilon then .openShort else .addShort, .short)
    else (if |targetAmount| ≤ amountEpsilon then .closeShort else .reduceShort, .short)
  else if 0 < targetAmount then (.reverseToLong, .long)
  else (.reverseToShort, .short)

namespace Book

/-- The position of the order's leg, or an empty one. -/
def positionOf (b : Book) (order : OrderIntent) : Position :=
  (b.positions.get? order.positionKey).getD
    { symbol := order.symbol, positionSide := order.positionSide }

/-- `_execution_block_reason`. -/
def executionBlockReason (cfg : BrokerConfig) (b : Book) (order : OrderIntent)
    (bar : Option OpenBar) (openPrice : Option ℚ) : Option StatusReason :=
  match bar, openPrice with
  | some bar, some openPrice =>
    if openPrice ≤ 0 then some .noPrice
    else if bar.suspended then some .suspended
    else
      let current := b.positionOf order
      let target := targetQuantity cfg order current.amount openPrice (max b.totalValue 0)
      let delta := target.getD 0 - current.amount
      if 0 < delta ∧ bar.limitUp then some .limitUp
      else if delta < 0 ∧ bar.limitDown then some .limitDown
      else none
  | _, _ => some .noPrice

end Book

/-! ## The fill price -/

inductive Quote
  | limitPriceRequired
  | notReached
  | fills (price : ℚ) (reference : FillReference)
  deriving DecidableEq, Repr

/-- The fill price of a market order at the open; of a limit order within the bar. -/
def quote (cfg : BrokerConfig) (order : OrderIntent) (delta openPrice : ℚ) (bar : Option Bar) :
    Quote :=
  if order.isLimit then
    let orOpen (x : ℚ) := if x = 0 then openPrice else x
    let highPrice := orOpen ((bar.map Bar.high).getD 0)
    let lowPrice := orOpen ((bar.map Bar.low).getD 0)
    if order.limitPrice ≤ 0 then .limitPriceRequired
    else if 0 < delta ∧ openPrice ≤ order.limitPrice then .fills openPrice .gapOpen
    else if 0 < delta ∧ lowPrice ≤ order.limitPrice then .fills order.limitPrice .limit
    else if delta < 0 ∧ order.limitPrice ≤ openPrice then .fills openPrice .gapOpen
    else if delta < 0 ∧ order.limitPrice ≤ highPrice then .fills order.limitPrice .limit
    else .notReached
  else .fills (openPrice * (if 0 < delta then 1 + cfg.slippage else 1 - cfg.slippage)) .barOpen

/-! ## One order -/

/-- What a fill did to its position. -/
structure Fill where
  key : PositionKey
  symbol : Instrument
  amount : ℚ
  avgCost : ℚ
  price : ℚ
  deriving DecidableEq, Repr

structure Outcome where
  book : Book
  deferred : Option OrderIntent := none
  fill : Option Fill := none
  deriving DecidableEq

/-- The target and the change an order asks for, at its sizing price. -/
structure Sizing where
  current : Position
  equity : ℚ
  sizingPrice : ℚ
  targetQty : ℚ
  deriving DecidableEq, Repr

def Sizing.delta (z : Sizing) : ℚ := z.targetQty - z.current.amount

/-- The sizing on a marked book; `none` for a division by a zero price. -/
def sizeOrder (cfg : BrokerConfig) (b : Book) (order : OrderIntent) (openPrice : ℚ) :
    Option Sizing :=
  let current := b.positionOf order
  let equity := b.totalValue
  let sizingPrice := if order.isLimit ∧ 0 < order.limitPrice then order.limitPrice else openPrice
  (targetQuantity cfg order current.amount sizingPrice equity).map fun targetQty =>
    ⟨current, equity, sizingPrice, targetQty⟩

/-- The target is already met: the kept direction is gone, or the change is dust
and does not close the position. -/
def Sizing.alreadyMet (z : Sizing) (order : OrderIntent) : Bool :=
  let closesPosition :=
    order.kind.isTarget ∧ |z.targetQty| ≤ amountEpsilon ∧ amountEpsilon < |z.current.amount|
  (order.pendingDirection ≠ 0 ∧ direction z.delta ≠ order.pendingDirection) ∨
    |z.delta| ≤ amountEpsilon ∨ (|z.delta * z.sizingPrice| < 1 / 100 ∧ ¬ closesPosition)

/-- What is left of a partly filled order for a later bar. -/
def remainder (order : OrderIntent) (requestedDelta delta sizingPrice : ℚ) : OrderIntent :=
  let attempts := if order.isLimit then order.attempts else order.attempts + 1
  let pendingDirection : ℤ := if 0 < requestedDelta then 1 else -1
  let remaining := max 0 (|requestedDelta| - |delta|)
  match order.kind with
  | .quantity =>
    { order with value := copysign remaining requestedDelta, attempts, pendingDirection }
  | .value =>
    { order with value := copysign (remaining * sizingPrice) requestedDelta, attempts,
                 pendingDirection }
  | _ => { order with attempts, pendingDirection }

/-- Book a fill of `delta`: cash, position, execution, ledger row and trades. -/
def fillOrder (cfg : BrokerConfig) (timestamp : Time) (b : Book) (order : OrderIntent)
    (orderId : OrderId) (openPrice : ℚ) (z : Sizing) (delta fillPrice lot : ℚ)
    (reference : FillReference) (cap : Option ℚ) (constraint : Option StatusReason) : Outcome :=
  let requestedDelta := z.delta
  let targetQty := z.current.amount + delta
  let remainingQuantity := max 0 (|requestedDelta| - |delta|)
  let hasTradableRemainder := lot ≤ remainingQuantity + amountEpsilon ∧
    1 / 100 ≤ remainingQuantity * fillPrice + amountEpsilon
  let status : EventStatus := if hasTradableRemainder then .partFilled else .filled
  let notional := |delta * fillPrice|
  let fee := notional * cfg.commission
  let avgCost := nextAverageCost z.current.amount z.current.avgCost delta fillPrice
  let position : Position :=
    { z.current with amount := targetQty, avgCost, lastPrice := fillPrice }
  let filled : Book :=
    { b with
      availableCash := b.availableCash - delta * fillPrice - fee
      positions := if |targetQty| ≤ amountEpsilon then b.positions.pop order.positionKey
        else b.positions.set order.positionKey position }
  let filled : Book := { filled with totalValue := filled.availableCash + filled.positionsValue }
  let identity := executionIdentity z.current.amount targetQty delta
  let execution : Execution :=
    { orderId, symbol := order.symbol, time := timestamp
      side := if 0 < delta then .buy else .sell
      type := identity.1
      positionSide := order.positionSide.getD identity.2
      positionKey := order.positionKey, quantity := |delta|, price := fillPrice, notional
      commission := fee, balance := filled.totalValue, reason := order.reason
      signalTime := order.signalTime.getD timestamp, fillReference := reference
      referencePrice := openPrice
      orderType := if order.isLimit then .limit else .market
      limitPrice := if order.isLimit then order.limitPrice else 0
      status, requestedQuantity := |requestedDelta| }
  let reason : StatusReason :=
    if hasTradableRemainder then
      constraint.getD (if ∃ c ∈ cap, c < |requestedDelta| then .insufficientLiquidity else .partFill)
    else if order.reason = "margin_liquidation" then .marginLiquidation
    else .filled
  let event : OrderEvent :=
    { orderEvent orderId order timestamp status reason with
      requestedQuantity := |requestedDelta|
      filledQuantity := |delta|
      price := fillPrice
      commission := fee }
  let recorded := { filled with executions := filled.executions ++ [execution] }
  { book := (recorded.appendOrderEvent event).recordClosedTrade execution z.current.amount
      z.current.avgCost targetQty
    deferred := if hasTradableRemainder ∧ (order.isLimit ∨ order.attempts < 4) then
        some (remainder order requestedDelta delta z.sizingPrice)
      else none
    fill := some ⟨order.positionKey, order.symbol, targetQty, avgCost, fillPrice⟩ }

/-- A rejected order, with the quantity it asked for. -/
def rejectOrder (timestamp : Time) (b : Book) (order : OrderIntent) (orderId : OrderId)
    (reason : StatusReason) (requested : ℚ) : Outcome where
  book := b.appendOrderEvent
    { orderEvent orderId order timestamp .rejected reason with requestedQuantity := requested }

/-- From the quote on: lots, liquidity, feasibility, fill. -/
def settleOrder (cfg : BrokerConfig) (timestamp : Time) (b : Book) (order : OrderIntent)
    (orderId : OrderId) (bar : Option OpenBar) (openPrice : ℚ) (z : Sizing) : Quote → Outcome
  | .limitPriceRequired => rejectOrder timestamp b order orderId .limitPriceRequired |z.delta|
  | .notReached =>
    -- a resting limit stays as it is until it is reached
    { book := b.appendRestingEvent
        { orderEvent orderId order timestamp .deferred .limitNotReached with
          requestedQuantity := |z.delta|
          price := order.limitPrice }
      deferred := some order }
  | .fills fillPrice reference =>
    let forcedLiquidation := order.reason = "margin_liquidation"
    let lot := lotSize order.symbol bar
    let delta := roundToLot z.delta lot
    if |delta| < lot - amountEpsilon then
      rejectOrder timestamp b order orderId .minimumTradeUnit |z.delta|
    else
      let cap := if forcedLiquidation then none else liquidityCap bar lot
      let delta := match cap with
        | some c => if c < |delta| then copysign c delta else delta
        | none => delta
      let (delta, constraint) : ℚ × Option StatusReason :=
        if forcedLiquidation then (delta, none)
        else feasibleDelta cfg b delta z.current.amount fillPrice z.equity lot order.positionKey
      if |delta| < lot - amountEpsilon then
        rejectOrder timestamp b order orderId (constraint.getD .positionLimit) |z.delta|
      else
        fillOrder cfg timestamp b order orderId openPrice z delta fillPrice lot reference cap
          constraint

/-- The price the order meets: an override, else the open of the bar. -/
def openPriceOf (p : Portal) (priceOverrides : Dict Instrument ℚ) (order : OrderIntent) :
    Option ℚ :=
  (priceOverrides.get? order.symbol).or ((p.openBarAt order.symbol).map OpenBar.openPrice)

/-- Why the order is not tried; a forced liquidation always is. -/
def blockedReason (cfg : BrokerConfig) (p : Portal) (priceOverrides : Dict Instrument ℚ)
    (b : Book) (order : OrderIntent) : Option StatusReason :=
  if order.reason = "margin_liquidation" then none
  else
    b.executionBlockReason cfg order (p.openBarAt order.symbol) (openPriceOf p priceOverrides order)

/-- The order that is not tried now waits for a later bar, four times. -/
def blockOrder (timestamp : Time) (b : Book) (order : OrderIntent) (orderId : OrderId)
    (reason : StatusReason) : Outcome :=
  if 4 ≤ order.attempts then
    { book := b.appendOrderEvent (orderEvent orderId order timestamp .rejected reason) }
  else
    { book := b.appendOrderEvent (orderEvent orderId order timestamp .deferred reason)
      deferred := some { order with attempts := order.attempts + 1 } }

/-- The order that is tried, on a marked book; `none` when the source raises. -/
def tryOrder (cfg : BrokerConfig) (p : Portal) (timestamp : Time) (b : Book) (order : OrderIntent)
    (orderId : OrderId) (openPrice : ℚ) : Option Outcome :=
  (sizeOrder cfg b order openPrice).map fun z =>
    if z.alreadyMet order then rejectOrder timestamp b order orderId .targetAlreadyMet 0
    else
      settleOrder cfg timestamp b order orderId (p.openBarAt order.symbol) openPrice z
        (quote cfg order z.delta openPrice (p.barAt order.symbol))

def Book.nextOrder (b : Book) : Book := { b with orderSequence := b.orderSequence + 1 }

/-- One order of a batch. -/
def executeOrder (cfg : BrokerConfig) (p : Portal) (timestamp : Time)
    (priceOverrides : Dict Instrument ℚ) (b : Book) (order : OrderIntent) : Option Outcome :=
  let orderId : OrderId := ⟨timestamp, b.nextOrder.orderSequence⟩
  match blockedReason cfg p priceOverrides b.nextOrder order with
  | some reason => some (blockOrder timestamp b.nextOrder order orderId reason)
  | none =>
    (openPriceOf p priceOverrides order).bind fun openPrice =>
      tryOrder cfg p timestamp (b.nextOrder.markToMarket p) order orderId openPrice

/-- What a batch leaves: the book, the orders to try again, and the fills. -/
structure BatchOutcome where
  book : Book
  deferred : List OrderIntent := []
  fills : List (OrderIntent × Fill) := []
  deriving DecidableEq

/-- The batch with an order's outcome before it. -/
def BatchOutcome.after (rest : BatchOutcome) (order : OrderIntent) (out : Outcome) :
    BatchOutcome where
  book := rest.book
  deferred := out.deferred.toList ++ rest.deferred
  fills := (out.fill.map fun fill => (order, fill)).toList ++ rest.fills

/-- The orders of a batch, in turn. -/
def executeOrders (cfg : BrokerConfig) (p : Portal) (timestamp : Time)
    (priceOverrides : Dict Instrument ℚ) : Book → List OrderIntent → Option BatchOutcome
  | b, [] => some { book := b }
  | b, order :: orders =>
    (executeOrder cfg p timestamp priceOverrides b order).bind fun out =>
      (executeOrders cfg p timestamp priceOverrides out.book orders).map fun rest =>
        rest.after order out

/-! ## The broker -/

structure ProtectionEvent where
  symbol : Instrument
  side : Side
  reason : ExitReason
  triggerPrice : ℚ
  fillReferencePrice : ℚ
  time : Time
  deriving DecidableEq, Repr

structure LiquidationEvent where
  time : Time
  equityBefore : ℚ
  deficitAbsorbed : ℚ
  positionsClosed : ℕ
  deriving DecidableEq, Repr

/-- A point of the equity curve, before it is rounded for the report. -/
structure EquityPoint where
  time : Time
  value : ℚ
  cash : ℚ
  deriving DecidableEq, Repr

structure Broker where
  book : Book
  protections : Dict PositionKey ProtectionState := {}
  protectionEvents : List ProtectionEvent := []
  equityCurve : List EquityPoint := []
  bankrupt : Bool := false
  liquidationEvents : List LiquidationEvent := []
  liquidationAdjustment : ℚ := 0
  deriving DecidableEq

namespace Broker

/-- The protections after a fill: gone with the position, scaled in, or opened. -/
def protectionsAfter (protections : Dict PositionKey ProtectionState) (timestamp : Time)
    (order : OrderIntent) (fill : Fill) : Dict PositionKey ProtectionState :=
  if |fill.amount| ≤ amountEpsilon then protections.pop fill.key
  else
    let newSide : Side := if 0 < fill.amount then .long else .short
    let existing := protections.get? fill.key
    let sideChanged := existing.any fun s => s.side ≠ newSide
    if order.protection.isSome ∨ sideChanged then
      match order.protection.or (existing.map ProtectionState.spec) with
      | none => protections
      | some spec =>
        match existing with
        | some state =>
          if sideChanged then
            protections.set fill.key
              (.opened fill.symbol newSide fill.avgCost spec timestamp)
          else
            protections.set fill.key
              (state.applyScaleIn fill.avgCost fill.price spec timestamp)
        | none =>
          protections.set fill.key (.opened fill.symbol newSide fill.avgCost spec timestamp)
    else protections

def mark (b : Broker) (p : Portal) : Broker := { b with book := b.book.markToMarket p }

/-- `execute`; the last mark is that of `_record_rebalance`. -/
def execute (cfg : BrokerConfig) (p : Portal) (timestamp : Time)
    (priceOverrides : Dict Instrument ℚ) (b : Broker) (orders : List OrderIntent) :
    Option (Broker × List OrderIntent) :=
  if orders = [] then some (b, [])
  else
    (executeOrders cfg p timestamp priceOverrides (b.book.markToMarket p) orders).map fun out =>
      ({ b with
          book := out.book.markToMarket p
          protections := out.fills.foldl (fun ps e => protectionsAfter ps timestamp e.1 e.2)
            b.protections },
        out.deferred)

/-! ## Protections, insolvency, equity -/

/-- The exit order of a protection. -/
def exitOrder (timestamp : Time) (position : Position) (decision : ProtectionDecision) :
    OrderIntent where
  symbol := position.symbol
  kind := .targetQuantity
  value := 0
  reason := decision.reason.name
  signalTime := some timestamp
  positionSide := position.positionSide

/-- The evaluation of one protection on the bar: the position to exit, and why. -/
def evaluateProtection (p : Portal) (timestamp : Time) (b : Broker) (key : PositionKey) :
    Broker × Option (Position × ProtectionDecision) :=
  match b.protections.get? key, b.book.positions.get? key with
  | none, _ => (b, none)
  | some _, none => ({ b with protections := b.protections.pop key }, none)
  | some state, some position =>
    match p.barAt position.symbol with
    | none => (b, none)
    | some bar =>
      let evaluated := evaluateBar .conservative { state with entryPrice := position.avgCost }
        timestamp bar.openPrice bar.high bar.low
      ({ b with protections := b.protections.set key evaluated.1 },
        evaluated.2.map fun decision => (position, decision))

/-- The exit; without an execution the protection stays, unless nothing is left
to close. -/
def exitPosition (cfg : BrokerConfig) (p : Portal) (timestamp : Time) (b : Broker)
    (key : PositionKey) (position : Position) (decision : ProtectionDecision) :
    Option (Broker × List ProtectionDecision) :=
  (b.execute cfg p timestamp (Dict.empty.set position.symbol decision.price)
    [exitOrder timestamp position decision]).map fun r =>
      if r.1.book.executions.length = b.book.executions.length then
        if r.1.book.orderLedger.getLast?.any fun e => e.statusReason = .targetAlreadyMet then
          ({ r.1 with protections := r.1.protections.pop key }, [])
        else (r.1, [])
      else
        ({ r.1 with
            protectionEvents := r.1.protectionEvents ++
              [⟨position.symbol, decision.side, decision.reason, decision.triggerPrice,
                decision.price, decision.timestamp⟩] },
          [decision])

/-- One protection of `process_protections`. -/
def processProtection (cfg : BrokerConfig) (p : Portal) (timestamp : Time) (b : Broker)
    (key : PositionKey) : Option (Broker × List ProtectionDecision) :=
  match b.evaluateProtection p timestamp key with
  | (b, none) => some (b, [])
  | (b, some (position, decision)) => b.exitPosition cfg p timestamp key position decision

/-- The protections with these keys, in turn. -/
def processKeys (cfg : BrokerConfig) (p : Portal) (timestamp : Time) :
    Broker → List PositionKey → Option (Broker × List ProtectionDecision)
  | b, [] => some (b, [])
  | b, key :: keys =>
    (b.processProtection cfg p timestamp key).bind fun r =>
      (processKeys cfg p timestamp r.1 keys).map fun rest => (rest.1, r.2 ++ rest.2)

def processProtections (cfg : BrokerConfig) (p : Portal) (timestamp : Time) (b : Broker) :
    Option (Broker × List ProtectionDecision) :=
  processKeys cfg p timestamp b b.protections.keys

/-- The price a liquidation closes a position at; `none` without a valid one. -/
def liquidationPrice (p : Portal) (pos : Position) : Option ℚ :=
  let price := (p.closeAt pos.symbol).getD
    (if pos.lastPrice ≠ 0 then pos.lastPrice else pos.avgCost)
  if 0 < price then some price else none

def liquidationOrder (timestamp : Time) (pos : Position) : OrderIntent where
  symbol := pos.symbol
  kind := .targetQuantity
  value := 0
  reason := "margin_liquidation"
  signalTime := some timestamp
  positionSide := pos.positionSide

/-- `liquidate_if_insolvent`; says whether the account is bankrupt. -/
def liquidateIfInsolvent (cfg : BrokerConfig) (p : Portal) (timestamp : Time) (b : Broker) :
    Option (Broker × Bool) :=
  if b.bankrupt then some (b, true)
  else
    let b := b.mark p
    let equityBefore := b.book.totalValue
    if 0 < equityBefore then some (b, false)
    else
      let priced := b.book.positions.values.filterMap fun pos =>
        (liquidationPrice p pos).map fun price => (pos, price)
      let orders := priced.map fun e => liquidationOrder timestamp e.1
      let priceOverrides := priced.foldl (fun d e => d.set e.1.symbol e.2) Dict.empty
      match b.execute cfg p timestamp priceOverrides orders with
      | none => none
      | some (b, _) =>
        let deficit := max 0 (-b.book.availableCash)
        let absorbed : Broker :=
          { b with
            liquidationAdjustment := b.liquidationAdjustment + deficit
            book := { b.book with availableCash := b.book.availableCash + deficit } }
        let marked := absorbed.mark p
        some
          ({ marked with
              book := { marked.book with totalValue := max 0 marked.book.totalValue }
              bankrupt := true
              liquidationEvents := marked.liquidationEvents ++
                [⟨timestamp, equityBefore, deficit, orders.length⟩] },
            true)

/-- `record_equity`. -/
def recordEquity (p : Portal) (timestamp : Time) (b : Broker) : Broker :=
  let b := b.mark p
  { b with
    equityCurve := b.equityCurve ++ [⟨timestamp, b.book.totalValue, b.book.availableCash⟩] }

end Broker

end AlgoTrade.Backtest
