import AlgoTrade.Backtest.Desk
import AlgoTrade.Backtest.PriceTicks
import AlgoTrade.Lib.Calendar

/-! # The live session

`StrategyV2LiveSession` over any strategy: its callbacks share one context, whose
orders are handed over as intents at the end of a call.  A call that raises leaves
what it has queued in the context.

* `process`: the callbacks that are due on new data.
* `synchronizePositions`, `evaluateProtections`: positions, protection states, and
  the legs with an exit under way.
* `evaluateEquityRisk`, `evaluatePriceTick`: the hooks of generated robots. -/

namespace AlgoTrade.Live

open Backtest

/-! ## The strategy's side -/

/-- What a callback answers with; when it raises, what it has asked before counts. -/
structure Answer (G : Type) where
  strategy : G
  requests : List Request := []
  raises : Bool := false

abbrev Callback (G : Type) := View → G → Answer G

/-- A scheduled callback, due between the check before and the clock. -/
structure Schedule (G : Type) where
  due : Time → Time → Bool
  callback : Callback G

/-- A strategy with the hooks that generated robots expose; a missing handler answers
with no request. -/
structure Program (G : Type) where
  init : G
  beforeTradingStart : Callback G
  schedules : List (Schedule G) := []
  isPortfolio : Bool := false
  onRebalance : Callback G
  handleData : Callback G
  equityRiskExit : Option (Callback G) := none
  releaseEquityRiskExit : G → G := id
  onPriceTick : Option (Dict Instrument ℚ → Callback G) := none

/-! ## The session -/

/-- `StrategyV2LiveSession`. -/
structure Session (G : Type) where
  strategy : G
  portal : Portal
  context : Context := {}
  currentDt : Option Time := none
  availableCash : ℚ
  totalValue : ℚ
  positions : Dict PositionKey Position := {}
  lastProcessed : Option Time := none
  lastScheduleCheck : Option Time := none
  protectionSpecs : Dict PositionKey ProtectionSpec := {}
  protectionStates : Dict PositionKey ProtectionState := {}
  exitPending : List PositionKey := []
  legExitReasons : Dict PositionKey String := {}

/-- What a call hands over: the intents, unless it raises, and what the callbacks
have queued and cancelled. -/
structure Handed where
  intents : Option (List OrderIntent)
  events : List DeskEvent := []

end AlgoTrade.Live

namespace AlgoTrade.Backtest.Context

/-- The requests up to the first one that is refused, with the events, and whether one
was. -/
def performUntil (symbols : List Instrument) (currentDt : Time) :
    Context → List Request → Context × List DeskEvent × Bool
  | c, [] => (c, [], false)
  | c, r :: rs =>
    match c.perform symbols currentDt r with
    | none => (c, [], true)
    | some c' =>
      let rest := performUntil symbols currentDt c' rs
      (rest.1, c.events currentDt c' r ++ rest.2.1, rest.2.2)

end AlgoTrade.Backtest.Context

namespace AlgoTrade.Live

open Backtest

namespace Session

variable {G : Type}

/-- The session as it starts. -/
def start (prog : Program G) (portal : Portal) (initialCapital : ℚ) : Session G where
  strategy := prog.init
  portal := portal
  availableCash := initialCapital
  totalValue := initialCapital

/-! ## Callbacks -/

def view (s : Session G) (currentDt : Time) (previousTradingDate : Option Time) : View where
  currentDt := currentDt
  previousTradingDate := previousTradingDate
  availableCash := s.availableCash
  totalValue := s.totalValue
  positions := s.positions
  orderStatuses := s.context.orderStatuses
  lastExitReasons := s.context.lastExitReasons
  symbols := s.portal.symbols
  visible := s.portal.visible

/-- `_invoke` with `current_dt` set: what it has queued and cancelled, and whether it
raised. -/
def invoke (s : Session G) (currentDt : Time) (callback : Callback G) :
    Session G × List DeskEvent × Bool :=
  let answer := callback (s.view currentDt s.lastProcessed) s.strategy
  let performed := s.context.performUntil s.portal.symbols currentDt answer.requests
  ({ s with strategy := answer.strategy, context := performed.1, currentDt := some currentDt },
    performed.2.1, performed.2.2 || answer.raises)

/-- Callbacks in turn, up to the first that raises. -/
def invokeAll : Session G → List (Time × Callback G) → Session G × List DeskEvent × Bool
  | s, [] => (s, [], false)
  | s, (currentDt, callback) :: callbacks =>
    let first := s.invoke currentDt callback
    if first.2.2 then first
    else
      let rest := first.1.invokeAll callbacks
      (rest.1, first.2.1 ++ rest.2.1, rest.2.2)

/-- One intent of `_capture_protection_intents`. -/
def captureProtection (s : Session G) (order : OrderIntent) : Session G :=
  { s with
    protectionSpecs := match order.protection with
      | some spec => s.protectionSpecs.set order.positionKey spec
      | none => s.protectionSpecs
    exitPending :=
      if order.kind.isTarget ∧ |order.value| ≤ amountEpsilon then
        s.exitPending.insert order.positionKey
      else s.exitPending }

/-- `flush_orders` and `_capture_protection_intents`. -/
def handOver (s : Session G) : Session G × List OrderIntent :=
  (s.context.orders.foldl captureProtection
    { s with context := { s.context with orders := [] } }, s.context.orders)

/-- A hook on its own: its orders are handed over unless it raises. -/
def callHook (s : Session G) (currentDt : Time) (callback : Callback G) : Session G × Handed :=
  let called := s.invoke currentDt callback
  if called.2.2 then (called.1, { intents := none, events := called.2.1 })
  else
    let handed := called.1.handOver
    (handed.1, { intents := some handed.2, events := called.2.1 })

/-! ## New data -/

/-- The callbacks before and with the schedules. -/
def dueFirst (prog : Program G) (s : Session G) (timestamp clock : Time) :
    List (Time × Callback G) :=
  (if s.lastProcessed.all fun last => last < timestamp ∧
      last / Calendar.secondsPerDay ≠ timestamp / Calendar.secondsPerDay then
    [(timestamp, prog.beforeTradingStart)] else []) ++
  match s.lastScheduleCheck with
  | none => []
  | some previous =>
    if previous < clock then
      (prog.schedules.filter fun schedule => schedule.due clock previous).map fun schedule =>
        (clock, schedule.callback)
    else []

/-- The callbacks of a new bar. -/
def dueOnBar (prog : Program G) (s : Session G) (timestamp : Time) : List (Time × Callback G) :=
  if s.lastProcessed.all (· < timestamp) then
    (if prog.isPortfolio ∧ prog.schedules.isEmpty then [(timestamp, prog.onRebalance)] else []) ++
      [(timestamp, prog.handleData)]
  else []

/-- The view of new data. -/
def showData (frames : Frames) (timestamp : Time) (s : Session G) : Session G :=
  { s with portal := portalAt frames timestamp true }

def invokeFirst (prog : Program G) (timestamp clock : Time) (s : Session G) :
    Session G × List DeskEvent × Bool :=
  s.invokeAll (s.dueFirst prog timestamp clock)

def invokeBar (prog : Program G) (timestamp clock : Time) (s : Session G) :
    Session G × List DeskEvent × Bool :=
  { s with lastScheduleCheck := some clock }.invokeAll (s.dueOnBar prog timestamp)

/-- The bar has been processed, when it is a new one. -/
def advance (timestamp : Time) (s : Session G) : Session G :=
  { s with
    lastProcessed := if s.lastProcessed.all (· < timestamp) then some timestamp
      else s.lastProcessed }

/-- `process` with new data and the schedule clock. -/
def process (prog : Program G) (frames : Frames) (clock : Time) (s : Session G) :
    Session G × Handed :=
  match (timestamps frames).getLast? with
  | none => (s, { intents := none })
  | some timestamp =>
    let first := (s.showData frames timestamp).invokeFirst prog timestamp clock
    if first.2.2 then (first.1, { intents := none, events := first.2.1 })
    else
      let second := first.1.invokeBar prog timestamp clock
      let events := first.2.1 ++ second.2.1
      if second.2.2 then (second.1, { intents := none, events })
      else
        let handed := second.1.handOver
        (handed.1.advance timestamp, { intents := some handed.2, events })

/-- `evaluate_equity_risk`. -/
def evaluateEquityRisk (prog : Program G) (timestamp : Time) (s : Session G) :
    Session G × Handed :=
  match prog.equityRiskExit with
  | none => (s, { intents := some [] })
  | some callback => s.callHook timestamp callback

/-- `evaluate_price_tick`. -/
def evaluatePriceTick (prog : Program G) (prices : Dict Instrument ℚ) (timestamp : Time)
    (s : Session G) : Session G × Handed :=
  let normalized : Dict Instrument ℚ :=
    ⟨prices.entries.filter fun e => e.1 ∈ s.portal.symbols ∧ 0 < e.2⟩
  match prog.onPriceTick with
  | none => (s, { intents := some [] })
  | some callback =>
    if normalized.entries = [] then (s, { intents := some [] })
    else s.callHook timestamp (callback normalized)

/-! ## Positions -/

/-- A row of `synchronize_positions`; its key names a symbol and maybe a side. -/
structure PositionRow where
  symbol : Instrument
  suffixSide : Option Side := none
  side : Side := .long
  positionSide : Option Side := none
  amount : ℚ
  avgCost : ℚ := 0
  lastPrice : ℚ := 0
  deriving DecidableEq, Repr

def PositionRow.position (row : PositionRow) : Position where
  symbol := row.symbol
  amount := if row.side = .short ∧ 0 < row.amount then -row.amount else row.amount
  avgCost := row.avgCost
  lastPrice := row.lastPrice
  positionSide := row.suffixSide.or row.positionSide

def PositionRow.key (row : PositionRow) : PositionKey :=
  ⟨row.symbol, row.suffixSide.or row.positionSide⟩

/-- The text of a position key, as it names a protection state. -/
def keyText (key : PositionKey) : Instrument :=
  match key.side with
  | none => key.symbol
  | some .long => { key.symbol with symbol := key.symbol.symbol ++ "::long" }
  | some .short => { key.symbol with symbol := key.symbol.symbol ++ "::short" }

/-- The protection of one synchronized position: opened, scaled in, or left alone. -/
def synchronizeProtection (now : Time) (s : Session G) (key : PositionKey) (position : Position) :
    Session G :=
  match s.protectionSpecs.get? key with
  | none => s
  | some spec =>
    if |position.amount| ≤ amountEpsilon ∨ position.avgCost ≤ 0 then s
    else
      let side : Side := if 0 < position.amount then .long else .short
      let opened := ProtectionState.opened (keyText key) side position.avgCost spec
        (s.currentDt.getD now)
      match s.protectionStates.get? key with
      | none => { s with protectionStates := s.protectionStates.set key opened }
      | some state =>
        if state.side ≠ side then { s with protectionStates := s.protectionStates.set key opened }
        else if max amountEpsilon (|state.entryPrice| * (1 / 10 ^ 10)) <
            |position.avgCost - state.entryPrice| then
          let fill := if position.lastPrice = 0 then position.avgCost else position.lastPrice
          let scaled := state.applyScaleIn position.avgCost fill spec
            (s.currentDt.getD state.openedAt)
          { s with protectionStates := s.protectionStates.set key scaled }
        else s

/-- An exit under way of a leg that is gone is over, with its protection. -/
def forgetExit (s : Session G) (key : PositionKey) : Session G :=
  if s.positions.get? key = none then
    { s with
      exitPending := s.exitPending.erase key
      protectionSpecs := s.protectionSpecs.pop key
      protectionStates := s.protectionStates.pop key }
  else s

/-- `synchronize_positions`. -/
def synchronizePositions (now : Time) (rows : List PositionRow) (availableCash totalValue : Option ℚ)
    (s : Session G) : Session G :=
  let synced : Dict PositionKey Position :=
    rows.foldl (fun d row => d.set row.key row.position) Dict.empty
  let s := synced.entries.foldl (fun s e => s.synchronizeProtection now e.1 e.2)
    { s with positions := synced }
  let s := s.exitPending.foldl forgetExit s
  { s with
    availableCash := availableCash.getD s.availableCash
    totalValue := totalValue.getD s.totalValue }

/-! ## Protections -/

/-- `prices.get(symbol)`, else `prices.get(position_key)`. -/
def priceOf (prices : Dict PositionKey ℚ) (key : PositionKey) (position : Position) : Option ℚ :=
  (prices.get? ⟨position.symbol, none⟩).or (prices.get? key)

/-- The exit order of a live protection. -/
def exitIntent (position : Position) (reason : ExitReason) : OrderIntent where
  symbol := position.symbol
  kind := .targetQuantity
  value := 0
  reason := reason.name
  positionSide := position.positionSide

/-- One state of `evaluate_protections`; a leg with an exit under way is skipped. -/
def evaluateProtection (prices : Dict PositionKey ℚ) (timestamp : Time) (s : Session G)
    (key : PositionKey) (state : ProtectionState) : Session G × Option OrderIntent :=
  if key ∈ s.exitPending then (s, none)
  else
    match s.positions.get? key with
    | none => (s, none)
    | some position =>
      if |position.amount| ≤ amountEpsilon then (s, none)
      else
        match priceOf prices key position with
        | none => (s, none)
        | some price =>
          let evaluated := evaluatePrice .conservative state timestamp price
          let s := { s with protectionStates := s.protectionStates.set key evaluated.1 }
          match evaluated.2 with
          | none => (s, none)
          | some decision =>
            ({ s with
                context := { s.context with
                  lastExitReasons :=
                    s.context.lastExitReasons.set position.symbol decision.reason.name }
                legExitReasons := s.legExitReasons.set key decision.reason.name
                exitPending := s.exitPending.insert key },
              some (exitIntent position decision.reason))

/-- These protection states, in turn. -/
def evaluateStates (prices : Dict PositionKey ℚ) (timestamp : Time) :
    Session G → List (PositionKey × ProtectionState) → Session G × List OrderIntent
  | s, [] => (s, [])
  | s, e :: es =>
    let first := s.evaluateProtection prices timestamp e.1 e.2
    let rest := evaluateStates prices timestamp first.1 es
    (rest.1, first.2.toList ++ rest.2)

/-- `evaluate_protections`. -/
def evaluateProtections (prices : Dict PositionKey ℚ) (timestamp : Time) (s : Session G) :
    Session G × List OrderIntent :=
  s.evaluateStates prices timestamp s.protectionStates.entries

/-- `release_protection_exit`. -/
def releaseProtectionExit (s : Session G) (key : PositionKey) : Session G :=
  { s with exitPending := s.exitPending.erase key }

/-- `release_equity_risk_exit`. -/
def releaseEquityRiskExit (prog : Program G) (s : Session G) : Session G :=
  { s with strategy := prog.releaseEquityRiskExit s.strategy }

/-- `context.update_order_statuses`. -/
def updateOrderStatuses (s : Session G) (statuses : Dict ClientRef OrderStatus) : Session G :=
  { s with context := s.context.updateOrderStatuses statuses }

end Session

/-! ## Calls -/

/-- The calls of a live session. -/
inductive Call (G : Type)
  | process (frames : Frames) (clock : Time)
  | equityRisk (timestamp : Time)
  | priceTick (prices : Dict Instrument ℚ) (timestamp : Time)
  | synchronize (now : Time) (rows : List Session.PositionRow) (availableCash totalValue : Option ℚ)
  | protections (prices : Dict PositionKey ℚ) (timestamp : Time)
  | releaseProtection (key : PositionKey)
  | releaseEquityRisk
  | updateStatuses (statuses : Dict ClientRef OrderStatus)

/-- A call, and what it hands over. -/
def Session.call {G : Type} (prog : Program G) (s : Session G) : Call G → Session G × Handed
  | .process frames clock => s.process prog frames clock
  | .equityRisk timestamp => s.evaluateEquityRisk prog timestamp
  | .priceTick prices timestamp => s.evaluatePriceTick prog prices timestamp
  | .synchronize now rows availableCash totalValue =>
    (s.synchronizePositions now rows availableCash totalValue, { intents := none })
  | .protections prices timestamp =>
    ((s.evaluateProtections prices timestamp).1, { intents := none })
  | .releaseProtection key => (s.releaseProtectionExit key, { intents := none })
  | .releaseEquityRisk => (s.releaseEquityRiskExit prog, { intents := none })
  | .updateStatuses statuses => (s.updateOrderStatuses statuses, { intents := none })

end AlgoTrade.Live
