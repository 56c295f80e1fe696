import AlgoTrade.Ledger.Position
import AlgoTrade.Lib.Runs
import AlgoTrade.Lib.Lists
import Mathlib.Data.Rat.Floor

/-! # Market orders of the grid through the queue

`execute_grid_market_order` enqueues an order under its client order id, or joins
the row that is there, and polls the row for a bounded time.  Any number of calls
run while a worker executes the rows; every statement, every poll and every
exception is a label of its own.

* `callStep`: what one call does.
* `workStep`: what the worker and the exchange do.
* `marketStep`: one label of the system. -/

namespace AlgoTrade.GridMarket

/-! ## Rows -/

/-- `status` of a row of `pending_orders`. -/
inductive RowStatus
  | pending | processing | sent | syncing | deferred
  | partiallyFilled | filled | failed | rejected | cancelled
  deriving DecidableEq, Repr

namespace RowStatus

/-- The statuses at which the polling loop breaks. -/
def stopsPolling : RowStatus → Bool
  | filled | partiallyFilled | failed | rejected | cancelled => true
  | pending | processing | sent | syncing | deferred => false

def terminal : RowStatus → Bool
  | filled | failed | rejected | cancelled => true
  | pending | processing | sent | syncing | deferred | partiallyFilled => false

end RowStatus

/-- A row of `pending_orders`, and what the exchange has filled of its order. -/
structure QueuedOrder where
  idempotencyKey : String
  clientOrderId : String
  orderIntentId : ℕ
  signal : SignalType
  amount : ℚ
  status : RowStatus := .pending
  filled : ℚ := 0
  avgPrice : ℚ := 0
  exchangeOrderId : String := ""
  exchangeFilled : ℚ := 0
  deriving DecidableEq, Repr

def idempotencyKey (clientOrderId : String) : String := "grid:" ++ clientOrderId

theorem idempotencyKey_inj {a b : String} : idempotencyKey a = idempotencyKey b ↔ a = b :=
  String.append_right_inj "grid:"

/-- `sig.startswith("close_")`. -/
def isClose : SignalType → Bool
  | .closeLong | .closeLongStop | .closeLongProfit | .closeLongTrailing
  | .closeShort | .closeShortStop | .closeShortProfit | .closeShortTrailing => true
  | .openLong | .addLong | .openShort | .addShort | .reduceLong | .reduceShort => false

/-- `n` in decimal, with leading zeros up to `width` digits. -/
def padded (width n : ℕ) : String :=
  let digits := Nat.toDigits 10 n
  String.ofList (List.replicate (width - digits.length) '0' ++ digits)

/-- `s[:32]`. -/
def clip (s : String) : String := String.ofList (s.toList.take 32)

/-- `make_grid_initial_client_order_id`, with the first letter of the leg. -/
def makeGridInitialClientOrderId (strategyId : ℕ) (leg : Option Char) : String :=
  let suffix := match leg with
    | some 'l' => "l"
    | some 's' => "s"
    | _ => ""
  clip ("ginit" ++ padded 5 (strategyId % 100000) ++ suffix)

/-! ## Calls -/

/-- The arguments; the client order id is stripped. -/
structure Order where
  signal : SignalType
  quantity : ℚ
  clientOrderId : String
  maxWaitSec : ℚ := 15
  deriving DecidableEq, Repr

/-- `GridMarketOrderExecution`; the fees stay at their defaults. -/
structure Execution where
  ok : Bool := false
  filled : ℚ := 0
  avgPrice : ℚ := 0
  exchangeOrderId : String := ""
  clientOrderId : String := ""
  deriving DecidableEq, Repr

/-- The local variables of the polling loop. -/
structure Polling where
  pendingId : ℕ
  start : ℚ
  wakes : ℚ
  filledQty : ℚ := 0
  avgPrice : ℚ := 0
  exchangeOrderId : String := ""
  deriving DecidableEq, Repr

inductive CallPhase
  | placing
  /-- `create_intent` has returned. -/
  | intended (intentId : ℕ)
  | polling (p : Polling)
  | returned (r : Execution)
  /-- The process ended before the call returned. -/
  | lost
  deriving DecidableEq, Repr

structure Call where
  order : Order
  clientOrderId : String
  phase : CallPhase
  deriving DecidableEq, Repr

namespace Call

variable (c : Call)

def isOpen : Bool :=
  match c.phase with
  | .placing | .intended _ | .polling _ => true
  | .returned _ | .lost => false

/-- The call has returned a fill. -/
def isOk : Bool :=
  match c.phase with
  | .returned r => r.ok
  | _ => false

/-- What the call has returned as filled. -/
def reported (clientOrderId : String) : ℚ :=
  match c.phase with
  | .returned r => if c.clientOrderId = clientOrderId ∧ r.ok then r.filled else 0
  | _ => 0

/-- The row the call enqueues. -/
def queued (intentId : ℕ) : QueuedOrder where
  idempotencyKey := idempotencyKey c.clientOrderId
  clientOrderId := c.clientOrderId
  orderIntentId := intentId
  signal := c.order.signal
  amount := c.order.quantity

end Call

/-- What a call returns after its loop. -/
def Polling.result (p : Polling) (clientOrderId : String) : Execution where
  ok := 0 < p.filledQty
  filled := p.filledQty
  avgPrice := p.avgPrice
  exchangeOrderId := p.exchangeOrderId
  clientOrderId := clientOrderId

/-- The row as the loop reads it. -/
def Polling.reads (p : Polling) (clock : ℚ) (row : QueuedOrder) : Polling :=
  { p with wakes := clock + 1, filledQty := row.filled, avgPrice := row.avgPrice,
           exchangeOrderId := row.exchangeOrderId }

/-! ## The system -/

/-- `intents` are the keys of `strategy_order_intents`. -/
structure Market where
  clock : ℚ := 0
  intents : List String := []
  rows : List QueuedOrder := []
  calls : List Call := []
  deriving DecidableEq, Repr

inductive CallLabel
  /-- `create_intent`, which falls back on an id of `0`. -/
  | createsIntent (fails : Bool)
  | inserts
  | polls
  /-- The loop ends because its time is over. -/
  | timesOut
  | raises
  | dies
  deriving DecidableEq, Repr

inductive Work
  /-- The exchange fills a part of the order. -/
  | fills (quantity : ℚ)
  /-- The worker writes the row. -/
  | writes (status : RowStatus) (filled avgPrice : ℚ) (exchangeOrderId : String)
  deriving DecidableEq, Repr

inductive MarketLabel
  | tick (seconds : ℚ)
  | calls (order : Order)
  | call (k : ℕ) (l : CallLabel)
  | work (i : ℕ) (w : Work)
  deriving DecidableEq, Repr

namespace Market

variable (s : Market)

/-- The id an order gets when it has none. -/
def defaultId : String := clip ("ginit" ++ (toString (⌊s.clock⌋.toNat % 100000000)))

def begins (order : Order) : Call :=
  let clientOrderId := if order.clientOrderId = "" then s.defaultId else order.clientOrderId
  { order, clientOrderId
    phase := if order.quantity ≤ 0 ∧ !isClose order.signal then .returned {} else .placing }

def setPhase (k : ℕ) (c : Call) (phase : CallPhase) : Market :=
  { s with calls := s.calls.set k { c with phase } }

/-- The row with the key. -/
def rowId (key : String) : Option ℕ := s.rows.findIdx? fun row => row.idempotencyKey = key

/-- `INSERT … ON CONFLICT (idempotency_key) DO NOTHING`, or the row that is there. -/
def inserts (k : ℕ) (c : Call) (intentId : ℕ) : Market :=
  let key := idempotencyKey c.clientOrderId
  match s.rowId key with
  | some i => s.setPhase k c (.polling ⟨i, s.clock, s.clock, 0, 0, ""⟩)
  | none =>
    { s.setPhase k c (.polling ⟨s.rows.length, s.clock, s.clock, 0, 0, ""⟩) with
      rows := s.rows ++ [c.queued intentId] }

/-- `create_intent`: the intent with the key, or a new one. -/
def createsIntent (k : ℕ) (c : Call) (fails : Bool) : Market :=
  let key := idempotencyKey c.clientOrderId
  match s.intents.findIdx? (· = key) with
  | some i => s.setPhase k c (.intended (i + 1))
  | none =>
    if fails then s.setPhase k c (.intended 0)
    else { s.setPhase k c (.intended (s.intents.length + 1)) with intents := s.intents ++ [key] }

/-- The time of a call is not over. -/
def inTime (c : Call) (p : Polling) : Bool := s.clock - p.start < c.order.maxWaitSec

end Market

def callStep (s : Market) (k : ℕ) (c : Call) : CallPhase → CallLabel → Option Market
  | .placing, .createsIntent fails => some (s.createsIntent k c fails)
  | .intended intentId, .inserts => some (s.inserts k c intentId)
  | .polling p, .polls =>
    if s.inTime c p ∧ p.wakes ≤ s.clock then
      (s.rows[p.pendingId]?).map fun row =>
        s.setPhase k c
          (if row.status.stopsPolling then .returned ((p.reads s.clock row).result c.clientOrderId)
           else .polling (p.reads s.clock row))
    else none
  | .polling p, .timesOut =>
    if s.inTime c p = false ∧ p.wakes ≤ s.clock then
      some (s.setPhase k c (.returned (p.result c.clientOrderId)))
    else none
  | .returned _, _ | .lost, _ => none
  | _, .raises => some (s.setPhase k c (.returned { clientOrderId := c.clientOrderId }))
  | _, .dies => some (s.setPhase k c .lost)
  | _, _ => none

def workStep (row : QueuedOrder) : Work → Option QueuedOrder
  | .fills quantity =>
    if 0 < quantity then some { row with exchangeFilled := row.exchangeFilled + quantity } else none
  | .writes status filled avgPrice exchangeOrderId =>
    some { row with status, filled, avgPrice, exchangeOrderId }

def marketStep (s : Market) : MarketLabel → Option Market
  | .tick seconds => if 0 < seconds then some { s with clock := s.clock + seconds } else none
  | .calls order => some { s with calls := s.calls ++ [s.begins order] }
  | .call k l => (s.calls[k]?).bind fun c => callStep s k c c.phase l
  | .work i w => (s.rows[i]?).bind fun row =>
      (workStep row w).map fun row' => { s with rows := s.rows.set i row' }

/-! ## The property -/

namespace Market

variable (s : Market)

/-- The sum of what the calls with the id have returned as filled. -/
def reported (clientOrderId : String) : ℚ := (s.calls.map fun c => c.reported clientOrderId).sum

/-- Once an order is terminal and none of its calls is in progress, they have
returned what the exchange has filled. -/
def CountedOnce : Prop :=
  ∀ row ∈ s.rows, row.status.terminal = true →
    (∀ c ∈ s.calls, c.clientOrderId = row.clientOrderId → c.isOpen = false) →
      s.reported row.clientOrderId = row.exchangeFilled

end Market

end AlgoTrade.GridMarket
