import AlgoTrade.Execution.Executors
import AlgoTrade.Execution.OrderSizing
import AlgoTrade.Lib.Runs
import Mathlib.Algebra.BigOperators.Group.List.Basic

/-! # The executions of one pending order

The row of one pending order, its attempt ledger, the executions that claimed it, and
the orders the broker made of their submissions.

* `step`: one statement, one call or one answer; any execution may end without a
  word at any point, and a row that stays in processing goes back to pending.
* `State.counted`: what the broker's orders come to. -/

namespace AlgoTrade.Dispatch

/-! ## State -/

inductive RowStatus
  | pending | processing | sent | filled | failed
  deriving DecidableEq, Repr

inductive AttemptStatus
  | submitted | confirmed | failed | timeout
  deriving DecidableEq, Repr

/-- A row of `execution_attempts`. -/
structure Attempt where
  attemptNumber : ℕ
  status : AttemptStatus := .submitted
  deriving DecidableEq, Repr

/-- Which order of an execution: its only one, or the limit order and the market order
of a limit-then-market execution. -/
inductive Leg
  | single | limit | fallback
  deriving DecidableEq, Repr

/-- An order at the broker; `withdrawn` is what a cancel took out of it. -/
structure BrokerOrder where
  leg : Leg
  quantity : ℚ
  filled : ℚ := 0
  withdrawn : ℚ := 0
  deriving DecidableEq, Repr

/-- Where an execution stands. -/
inductive Phase
  /-- The row is claimed. -/
  | checks
  | ledger
  | insert (attemptNumber : ℕ)
  | lookUp
  | placing (leg : Leg) (size : ℚ)
  /-- The placement is out; the order is the one the broker made of it. -/
  | answering (leg : Leg) (order : Option ℕ)
  | waiting (leg : Leg) (order : ℕ)
  | cancelling (order : ℕ) (reported : ℚ)
  | logging (status : AttemptStatus)
  | finishing (success : Bool)
  | ended
  deriving DecidableEq, Repr

/-- An execution; `logged` once it has its own row in the ledger. -/
structure Execution where
  phase : Phase := .checks
  sized : Sized := {}
  logged : Bool := false
  deriving DecidableEq, Repr

/-- `ledgerRead` is no part of the code's state: the largest ledger size that sized the
order. -/
structure State where
  status : RowStatus := .pending
  attempts : ℕ := 0
  ledger : List Attempt := []
  executions : List Execution := []
  orders : List BrokerOrder := []
  ledgerRead : ℚ := 0
  deriving DecidableEq, Repr

/-- The exceptions that are told apart; any other one ends the execution as failed. -/
inductive Raised
  | liveTradingError | timeoutError
  deriving DecidableEq, Repr

/-- A step of an execution. -/
inductive Move
  | size (reads : SizingReads) (limitPrice : ℚ)
  | readLedger
  | insertAttempt
  | lookUp (found : Bool)
  | submit (accepted : Bool)
  | returns (success : Bool)
  | raises (exception : Raised)
  | waited (fill : Option FillSnapshot)
  | cancelled
  | logEnd
  | markSent (finalFilled : Bool)
  | markFailed
  /-- The process dies, or the status cannot be written. -/
  | crash

inductive Act
  /-- The two statements before the fetch. -/
  | deadLetter
  | requeueStale
  | claim
  | execution (i : ℕ) (move : Move)
  /-- The broker's own. -/
  | fill (k : ℕ) (quantity : ℚ)
  | withdraw (k : ℕ)

/-! ## What the broker was asked for -/

/-- An order counts in full; a limit order that makes way for a market order counts
without what was withdrawn from it. -/
def BrokerOrder.counted (order : BrokerOrder) : ℚ :=
  if order.leg = .limit then order.quantity - order.withdrawn else order.quantity

def countedIn (orders : List BrokerOrder) : ℚ := (orders.map BrokerOrder.counted).sum

/-! ## The ledger -/

/-- `_log_execution_attempt_start` asks for the row with the highest number. -/
def latestAttempt (ledger : List Attempt) : Option Attempt := ledger.maxOn? Attempt.attemptNumber

/-- It answers that the order was attempted before. -/
def reconciled (ledger : List Attempt) : Bool :=
  match latestAttempt ledger with
  | none => false
  | some row => row.status ∈ [.confirmed, .submitted]

def nextAttempt (ledger : List Attempt) : ℕ :=
  match latestAttempt ledger with
  | none => 1
  | some row => orElse row.attemptNumber 1 + 1
where
  /-- `value or default`. -/
  orElse (value default : ℕ) : ℕ := if value = 0 then default else value

/-- `_log_execution_attempt_end`. -/
def logAttemptEnd (status : AttemptStatus) (ledger : List Attempt) : List Attempt :=
  ledger.map fun row => if row.status = .submitted then { row with status := status } else row

/-! ## Steps -/

variable (o : Order)

/-- The first order after the quantity is known. -/
def firstPhase (sized : Sized) (limitPrice : ℚ) : Phase :=
  match o.mode with
  | .market | .stock => .ledger
  | .limit =>
    if limitPrice ≤ 0 then .finishing false else .placing .single sized.quantity
  | .limitThenMarket =>
    if limitPrice ≤ 0 then .placing .single (sized.marketSize o sized.quantity)
    else .placing .limit sized.quantity

/-- The size of the only order of a ledgered execution. -/
def singleSize (sized : Sized) : ℚ :=
  match o.mode with
  | .stock => sized.quantity
  | _ => sized.marketSize o sized.quantity

/-- After a placement that returned. -/
def placedPhase (leg : Leg) (order : Option ℕ) (success : Bool) : Phase :=
  match o.mode, order with
  | .stock, _ => .logging (if success then .confirmed else .failed)
  | .limit, _ => .finishing true
  | _, some k => .waiting leg k
  | _, none => .finishing false

/-- After a placement or a wait that raised: `MarketOrderExecutor` turns a
`LiveTradingError` into a failure, which goes into the ledger. -/
def raisedPhase (logged : Bool) (exception : Raised) : Phase :=
  match o.mode, exception with
  | .market, .liveTradingError => if logged then .logging .failed else .finishing false
  | .market, .timeoutError => if logged then .logging .timeout else .finishing false
  | .stock, .timeoutError => .logging .timeout
  | _, _ => .finishing false

/-- After `wait_for_fill`. -/
def waitedPhase (x : Execution) (leg : Leg) (k : ℕ) (fill : Option FillSnapshot) : Phase :=
  match leg with
  | .limit =>
    if isComplete fill x.sized.quantity ∨ ¬ o.fallbackToMarket then .finishing true
    else .cancelling k ((fill.map FillSnapshot.filledQty).getD 0)
  | _ => if o.mode = .market ∧ x.logged then .logging .confirmed else .finishing true

/-- After `cancel_order`. -/
def cancelledPhase (x : Execution) (reported : ℚ) : Phase :=
  let remainingQty := max 0 (x.sized.quantity - reported)
  if remainingQty ≤ 0 then .finishing true
  else .placing .fallback (x.sized.marketSize o remainingQty)

namespace State

/-- The execution goes on. -/
def goOn (s : State) (i : ℕ) (x : Execution) (phase : Phase) : State :=
  { s with executions := s.executions.set i { x with phase := phase } }

/-- One step of a running execution. -/
def move (s : State) (i : ℕ) (x : Execution) : Move → Option State
  | .size reads limitPrice =>
    if x.phase ≠ .checks then none
    else if o.stock then
      some (s.goOn i { x with sized := { quantity := o.amount } } .ledger)
    else
      let s' : State := { s with ledgerRead := max s.ledgerRead reads.ledgerSize }
      match sizeOrder o reads with
      | none => some (s'.goOn i x (.finishing false))
      | some sized => some (s'.goOn i { x with sized := sized } (firstPhase o sized limitPrice))
  | .readLedger =>
    if x.phase ≠ .ledger then none
    else if ¬ reconciled s.ledger then some (s.goOn i x (.insert (nextAttempt s.ledger)))
    else if o.looksUp then some (s.goOn i x .lookUp)
    else some (s.goOn i x (.placing .single (singleSize o x.sized)))
  | .insertAttempt =>
    match x.phase with
    | .insert number =>
      -- the unique key of the table
      if number ∈ s.ledger.map Attempt.attemptNumber then none
      else
        let s' : State := { s with ledger := s.ledger ++ [{ attemptNumber := number }] }
        some (s'.goOn i { x with logged := true } (.placing .single (singleSize o x.sized)))
    | _ => none
  | .lookUp found =>
    if x.phase ≠ .lookUp then none
    else if found then some (s.goOn i x (.finishing true))
    else some (s.goOn i x (.placing .single (singleSize o x.sized)))
  | .submit accepted =>
    match x.phase with
    | .placing leg size =>
      if accepted then
        let s' : State := { s with orders := s.orders ++ [{ leg := leg, quantity := size }] }
        some (s'.goOn i x (.answering leg (some s.orders.length)))
      else some (s.goOn i x (.answering leg none))
    | _ => none
  | .returns success =>
    match x.phase with
    | .answering leg order =>
      -- no success for an order the broker did not take; only a stock client returns a failure
      if (success ∧ order = none) ∨ (¬ success ∧ o.mode ≠ .stock) then none
      else some (s.goOn i x (placedPhase o leg order success))
    | _ => none
  | .raises exception =>
    match x.phase with
    | .answering .. | .waiting .. => some (s.goOn i x (raisedPhase o x.logged exception))
    | _ => none
  | .waited fill =>
    match x.phase with
    | .waiting leg k => some (s.goOn i x (waitedPhase o x leg k fill))
    | _ => none
  | .cancelled =>
    match x.phase with
    | .cancelling _ reported => some (s.goOn i x (cancelledPhase o x reported))
    | _ => none
  | .logEnd =>
    match x.phase with
    | .logging status =>
      let s' : State := { s with ledger := logAttemptEnd status s.ledger }
      some (s'.goOn i x (.finishing (status = AttemptStatus.confirmed)))
    | _ => none
  | .markSent finalFilled =>
    if x.phase ≠ .finishing true then none
    else
      let s' : State :=
        { s with status := if s.status = .filled ∨ finalFilled then .filled else .sent }
      some (s'.goOn i x .ended)
  | .markFailed =>
    let s' : State := { s with status := .failed }
    some (s'.goOn i x .ended)
  | .crash => some (s.goOn i x .ended)

/-- A running execution takes its step. -/
def execute (s : State) (i : ℕ) (m : Move) : Option State :=
  match s.executions[i]? with
  | none => none
  | some x => if x.phase = .ended then none else s.move o i x m

/-- The broker changes one of its orders. -/
def modify (s : State) (k : ℕ) (f : BrokerOrder → BrokerOrder) : State :=
  { s with orders := s.orders.modify k f }

end State

def step (s : State) : Act → Option State
  | .deadLetter =>
    if s.status ∈ [.pending, .processing] ∧ o.maxAttempts ≤ s.attempts then
      some { s with status := .failed }
    else none
  | .requeueStale =>
    if s.status = .processing ∧ s.attempts < o.maxAttempts then some { s with status := .pending }
    else none
  -- the list of fetched rows may be older than the row
  | .claim =>
    if s.status = .pending then
      some { s with
        status := .processing
        attempts := s.attempts + 1
        executions := s.executions ++ [{}] }
    else none
  | .execution i m => s.execute o i m
  | .fill k quantity =>
    match s.orders[k]? with
    | none => none
    | some order =>
      if 0 ≤ quantity ∧ order.filled + quantity ≤ order.quantity - order.withdrawn then
        some (s.modify k fun order => { order with filled := order.filled + quantity })
      else none
  | .withdraw k =>
    match s.orders[k]? with
    | none => none
    | some _ =>
      some (s.modify k fun order =>
        { order with withdrawn := max order.withdrawn (order.quantity - order.filled) })

end AlgoTrade.Dispatch
