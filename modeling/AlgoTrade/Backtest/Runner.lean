import AlgoTrade.Backtest.Broker
import AlgoTrade.Lib.Runs
import AlgoTrade.Lib.Text

/-! # The backtest runner

`StrategyV2BacktestRunner.run` over any strategy: a strategy's callbacks are
functions of what they are shown and of the strategy's own state, and answer with
requests to the runtime, or raise.

* `openPhase`: a bar up to its close, with a trace of what it executed for the
  strategy and of what it showed.
* `closePhase`: the rest of the bar.
* `stateBefore`: the run up to a time. -/

namespace AlgoTrade.Backtest

/-! ## The strategy's side -/

inductive OrderState
  | unknown | queued | cancelled
  | event (status : EventStatus)
  /-- As a live session is told, such as `submitted`. -/
  | live (status : String)
  deriving DecidableEq, Repr

/-- What `get_order_status` answers. -/
structure OrderStatus where
  status : OrderState := .unknown
  filledQuantity : ℚ := 0
  filledNotional : ℚ := 0
  fee : ℚ := 0
  reason : Option StatusReason := none
  deriving DecidableEq, Repr

/-- What a callback is shown: the clock, the portfolio, the statuses of its
orders, the last protection exits, and the visible rows. -/
structure View where
  currentDt : Time
  previousTradingDate : Option Time
  availableCash : ℚ
  totalValue : ℚ
  positions : Dict PositionKey Position
  orderStatuses : Dict ClientRef OrderStatus
  lastExitReasons : Dict Instrument String
  symbols : List Instrument
  visible : Instrument → List (Time × Bar)

/-- An order as the strategy asks for it. -/
structure OrderRequest where
  symbol : Instrument
  kind : OrderKind
  value : ℚ
  reason : String := "strategy"
  protection : Option ProtectionValues := none
  orderType : OrderType := .market
  executionAlgo : Option ExecutionAlgo := none
  limitPrice : Option ℚ := none
  price : Option ℚ := none
  positionSide : Option Side := none
  clientOrderId : Option String := none
  deriving DecidableEq, Repr

inductive Request
  | order (r : OrderRequest)
  | cancelOrder (reference : ClientRef)
  | setDefaultProtection (values : ProtectionValues)
  | consumeLastExitReason (symbol : Instrument)
  deriving DecidableEq, Repr

/-- A callback; `none` when it raises. -/
abbrev Callback (G : Type) := View → G → Option (G × List Request)

/-- A scheduled callback and when `_schedule_due` lets it run. -/
structure Schedule (G : Type) where
  due : Time → Option Time → Bool
  callback : Callback G

/-- A strategy; a missing handler answers with no request. -/
structure Program (G : Type) where
  init : G
  beforeTradingStart : Callback G
  schedules : List (Schedule G)
  isPortfolio : Bool := false
  onRebalance : Callback G
  handleData : Callback G
  afterTradingEnd : Callback G

/-! ## References -/

namespace ClientRef

/-- The reference an order is kept under, `client_order_id[:100]`. -/
def stored : ClientRef → ClientRef
  | .given text => .given (Text.take text 100)
  | reference => reference

end ClientRef

/-- The reference an order is asked under: the given one, or one made up. -/
def OrderRequest.reference (r : OrderRequest) (currentDt : Time) (sequence : ℕ) : ClientRef :=
  (r.clientOrderId.bind ClientRef.named).getD (.generated currentDt sequence)

/-! ## The context -/

/-- `StrategyRuntimeContext`. -/
structure Context where
  orders : List OrderIntent := []
  orderSequence : ℕ := 0
  orderStatuses : Dict ClientRef OrderStatus := {}
  cancelledOrderIds : List ClientRef := []
  lastExitReasons : Dict Instrument String := {}
  defaultProtection : Option ProtectionSpec := none
  deriving DecidableEq

namespace Context

/-- `_queue`; `none` when the contract refuses the order. -/
def queue (c : Context) (symbols : List Instrument) (currentDt : Time) (r : OrderRequest) :
    Option Context :=
  let algo := r.executionAlgo.getD (if r.orderType = .limit then .limit else .market)
  let limitPrice := (r.limitPrice.or (if r.orderType = .limit then r.price else none)).getD 0
  if r.symbol ∉ symbols ∨ (algo = .limit ∧ limitPrice ≤ 0) then none
  else
    let sequence := c.orderSequence + 1
    let reference := (r.reference currentDt sequence).stored
    let order : OrderIntent :=
      { symbol := r.symbol, kind := r.kind, value := r.value, reason := r.reason
        protection := (r.protection.bind ProtectionSpec.fromValue).or c.defaultProtection
        signalTime := some currentDt, orderType := r.orderType, limitPrice, executionAlgo := algo
        positionSide := r.positionSide, clientOrderId := some reference }
    some { c with
      orders := c.orders ++ [order]
      orderSequence := sequence
      orderStatuses := match c.orderStatuses.get? reference with
        | some _ => c.orderStatuses
        | none => c.orderStatuses.set reference { status := .queued } }

/-- The reference a call of `cancel_order` succeeds for. -/
def cancels (c : Context) (reference : ClientRef) : Option ClientRef :=
  reference.stripped.filter fun reference =>
    ((c.orderStatuses.get? reference).getD {}).status ≠ .event .filled

/-- `cancel_order`. -/
def cancelOrder (c : Context) (reference : ClientRef) : Context :=
  match c.cancels reference with
  | none => c
  | some reference =>
    { c with
      orderStatuses := c.orderStatuses.set reference
        { (c.orderStatuses.get? reference).getD {} with
          status := .cancelled, reason := some .cancelledByStrategy }
      cancelledOrderIds := c.cancelledOrderIds ++ [reference] }

def perform (symbols : List Instrument) (currentDt : Time) (c : Context) :
    Request → Option Context
  | .order r => c.queue symbols currentDt r
  | .cancelOrder reference => some (c.cancelOrder reference)
  | .setDefaultProtection values =>
    some { c with defaultProtection := ProtectionSpec.fromValue values }
  | .consumeLastExitReason symbol =>
    some { c with lastExitReasons := c.lastExitReasons.pop symbol }

def performAll (symbols : List Instrument) (currentDt : Time) :
    Context → List Request → Option Context
  | c, [] => some c
  | c, r :: rs =>
    match c.perform symbols currentDt r with
    | none => none
    | some c => performAll symbols currentDt c rs

end Context

/-! ## The runner -/

/-- `_merge_pending`: a newer target drops the older targets of its leg. -/
def mergePending (current incoming : List OrderIntent) : List OrderIntent :=
  incoming.foldl (fun output order =>
    (if order.kind.isTarget then
      output.filter fun item => ¬ (item.positionKey = order.positionKey ∧ item.kind.isTarget)
    else output) ++ [order]) current

/-- Everything of the runner besides the broker. -/
structure Session (G : Type) where
  context : Context := {}
  pendingOrders : List OrderIntent := []
  previous : Option Time := none
  orderStatusCursor : ℕ := 0
  orderStatusSummaries : Dict ClientRef OrderStatus := {}
  strategy : G
  deriving DecidableEq

structure Runner (G : Type) where
  broker : Broker
  session : Session G
  deriving DecidableEq

/-- `update_order_statuses`. -/
def Context.updateOrderStatuses (c : Context) (values : Dict ClientRef OrderStatus) : Context :=
  let named := values.entries.filterMap fun e => e.1.stripped.map (·, e.2)
  { c with orderStatuses := c.orderStatuses.update ⟨named⟩ }

namespace Session

variable {G : Type}

/-- One ledger row of `_sync_order_statuses`. -/
def summarize (s : Session G) (event : OrderEvent) : Session G :=
  match event.clientOrderId.bind ClientRef.stripped with
  | none => s
  | some reference =>
    let current := (s.orderStatusSummaries.get? reference).getD {}
    let quantity := max 0 event.filledQuantity
    let summary : OrderStatus :=
      { status := .event event.status
        filledQuantity := current.filledQuantity + quantity
        filledNotional := current.filledNotional + quantity * max 0 event.price
        fee := current.fee + max 0 event.commission
        reason := some event.statusReason }
    { s with
      orderStatusSummaries := s.orderStatusSummaries.set reference summary
      context := { s.context with
        orderStatuses := s.context.orderStatuses.set reference summary } }

/-- `_sync_order_statuses`. -/
def syncOrderStatuses (s : Session G) (b : Book) : Session G :=
  { (b.orderLedger.drop s.orderStatusCursor).foldl summarize s with
    orderStatusCursor := b.orderLedger.length }

/-- `context.flush_orders`. -/
def flushOrders (s : Session G) : Session G :=
  { s with context := { s.context with orders := [] } }

def setExitReasons (s : Session G) (decisions : List ProtectionDecision) : Session G :=
  { s with context := { s.context with
      lastExitReasons := decisions.foldl (fun d e => d.set e.symbol e.reason.name)
        s.context.lastExitReasons } }

end Session

/-- What a callback is shown. -/
def viewOf {G : Type} (p : Portal) (timestamp : Time) (b : Book) (s : Session G) : View where
  currentDt := timestamp
  previousTradingDate := s.previous
  availableCash := b.availableCash
  totalValue := b.totalValue
  positions := b.positions
  orderStatuses := s.context.orderStatuses
  lastExitReasons := s.context.lastExitReasons
  symbols := p.symbols
  visible := p.visible

/-- `_invoke` with the `_remove_cancelled_orders` that follows every callback. -/
def invoke {G : Type} (p : Portal) (timestamp : Time) (callback : Callback G) (b : Book)
    (s : Session G) : Option (Book × Session G) :=
  (callback (viewOf p timestamp b s) s.strategy).bind fun answer =>
    (s.context.performAll p.symbols timestamp answer.2).map fun context =>
      let cancelled := context.cancelledOrderIds
      (b.releaseResting cancelled,
        { s with
          strategy := answer.1
          context := { context with cancelledOrderIds := [] }
          pendingOrders := s.pendingOrders.filter fun o =>
            ¬ ∃ reference ∈ o.clientOrderId, reference ∈ cancelled })

/-- What the callbacks before the close do: the books they leave, the orders they
queue, and what each was shown. -/
def invokeOpening {G : Type} (p : Portal) (timestamp : Time) :
    List (Callback G) → Book → Session G →
      Option (Book × Session G × List OrderIntent × List View)
  | [], b, s => some (b, s, [], [])
  | callback :: callbacks, b, s =>
    (invoke p timestamp callback b s).bind fun o =>
      (invokeOpening p timestamp callbacks o.1 o.2.flushOrders).map fun rest =>
        (rest.1, rest.2.1, o.2.context.orders ++ rest.2.2.1,
          viewOf p timestamp b s :: rest.2.2.2)

/-- The callbacks that run before the close of the bar. -/
def Program.openingCallbacks {G : Type} (prog : Program G) (timestamp : Time)
    (previous : Option Time) : List (Callback G) :=
  prog.beforeTradingStart ::
    (prog.schedules.filter fun schedule => schedule.due timestamp previous).map Schedule.callback ++
    if prog.isPortfolio ∧ prog.schedules = [] then [prog.onRebalance] else []

/-- What a bar did for the strategy before its close. -/
structure OpenTrace where
  executions : List Execution := []
  shown : List View := []

namespace Runner

variable {G : Type}

/-- The executions `r'` has and `r` has not. -/
def executedSince (r r' : Book) : List Execution := r'.executions.drop r.executions.length

/-- Orders kept from earlier bars. -/
def executePending (cfg : BrokerConfig) (p : Portal) (timestamp : Time) (r : Runner G) :
    Option (Runner G) :=
  if r.session.pendingOrders = [] then some r
  else
    (r.broker.execute cfg p timestamp {} r.session.pendingOrders).map fun e =>
      { broker := e.1
        session := { r.session with pendingOrders := e.2 }.syncOrderStatuses e.1.book }

/-- Protection exits, and what they tell the strategy. -/
def exitProtections (cfg : BrokerConfig) (p : Portal) (timestamp : Time) (r : Runner G) :
    Option (Runner G) :=
  (r.broker.processProtections cfg p timestamp).map fun e =>
    { broker := e.1, session := r.session.setExitReasons e.2 }

/-- The callbacks before the close. -/
def runOpening (prog : Program G) (p : Portal) (timestamp : Time) (r : Runner G) :
    Option (Runner G × List OrderIntent × List View) :=
  (invokeOpening p timestamp (prog.openingCallbacks timestamp r.session.previous) r.broker.book
    r.session).map fun o =>
      ({ broker := { r.broker with book := o.1 }, session := o.2.1 }, o.2.2)

/-- The orders these callbacks have queued. -/
def executeOpening (cfg : BrokerConfig) (p : Portal) (timestamp : Time)
    (orders : List OrderIntent) (r : Runner G) : Option (Runner G) :=
  if orders = [] then some r
  else
    (r.broker.execute cfg p timestamp {} orders).map fun e =>
      { broker := e.1
        session := { r.session with
          pendingOrders := mergePending r.session.pendingOrders e.2 }.syncOrderStatuses e.1.book }

/-- A bar up to its close; `p` hides the current bar. -/
def openPhase (cfg : BrokerConfig) (prog : Program G) (p : Portal) (timestamp : Time)
    (r : Runner G) : Option (Runner G × OpenTrace) :=
  (r.executePending cfg p timestamp).bind fun r₁ =>
    (r₁.exitProtections cfg p timestamp).bind fun r₂ =>
      (r₂.runOpening prog p timestamp).bind fun o =>
        (o.1.executeOpening cfg p timestamp o.2.1).map fun r₄ =>
          (r₄,
            { executions := executedSince r.broker.book r₁.broker.book ++
                executedSince o.1.broker.book r₄.broker.book
              shown := o.2.2 })

/-- One callback after the close, and its orders. -/
def invokeClosing (r : Runner G) (p : Portal) (timestamp : Time) (callback : Callback G) :
    Option (Runner G) :=
  (invoke p timestamp callback r.broker.book r.session).map fun o =>
    { broker := { r.broker with book := o.1 }
      session := { o.2 with
        pendingOrders := mergePending o.2.pendingOrders o.2.context.orders }.flushOrders }

def finishBar (p : Portal) (timestamp : Time) (r : Runner G) : Runner G where
  broker := r.broker.recordEquity p timestamp
  session := { r.session with previous := some timestamp }

/-- The bar from its close on; `p` shows the current bar. -/
def closePhase (cfg : BrokerConfig) (prog : Program G) (p : Portal) (timestamp : Time)
    (r : Runner G) : Option (Runner G) :=
  (r.broker.liquidateIfInsolvent cfg p timestamp).bind fun e =>
    let r : Runner G := { r with broker := e.1 }
    if e.2 then
      some ({ r with session := { r.session with pendingOrders := [] }.flushOrders }.finishBar p
        timestamp)
    else
      (r.invokeClosing p timestamp prog.handleData).bind fun r =>
        (r.invokeClosing p timestamp prog.afterTradingEnd).map fun r => r.finishBar p timestamp

/-- The part of a bar before its close; a bankrupt account has none. -/
def barOpen (cfg : BrokerConfig) (prog : Program G) (p : Portal) (timestamp : Time)
    (r : Runner G) : Option (Runner G × OpenTrace) :=
  if r.broker.bankrupt then some (r, {}) else r.openPhase cfg prog p timestamp

/-- A bar of `run`. -/
def bar (cfg : BrokerConfig) (prog : Program G) (frames : Frames) (r : Runner G)
    (timestamp : Time) : Option (Runner G) :=
  if r.broker.bankrupt then some (r.finishBar (portalAt frames timestamp true) timestamp)
  else
    (r.openPhase cfg prog (portalAt frames timestamp false) timestamp).bind fun o =>
      o.1.closePhase cfg prog (portalAt frames timestamp true) timestamp

def start (cfg : BrokerConfig) (prog : Program G) : Runner G where
  broker := { book := { availableCash := cfg.initialCapital, totalValue := cfg.initialCapital } }
  session := { strategy := prog.init }

/-- The times `run` goes through. -/
def barTimes (frames : Frames) (startDate endDate : Option Time) : List Time :=
  (timestamps frames).filter fun t =>
    (startDate.all fun s => s ≤ t) && endDate.all fun e => t ≤ e

/-- `run`; `none` when it raises, as it does on an empty range. -/
def run (cfg : BrokerConfig) (prog : Program G) (frames : Frames)
    (startDate endDate : Option Time) : Option (Runner G) :=
  if barTimes frames startDate endDate = [] then none
  else Runs.run (bar cfg prog frames) (start cfg prog) (barTimes frames startDate endDate)

/-- The run up to the bar at `t`. -/
def stateBefore (cfg : BrokerConfig) (prog : Program G) (frames : Frames)
    (startDate endDate : Option Time) (t : Time) : Option (Runner G) :=
  Runs.run (bar cfg prog frames) (start cfg prog)
    ((barTimes frames startDate endDate).filter (· < t))

end Runner

end AlgoTrade.Backtest
