import Mathlib.Algebra.BigOperators.Fin
import AlgoTrade.Robot.Orders

/-! # The martingale robot

The source that `build_robot_v2_source` generates for a martingale: levels at growing
distance from the anchor, each with its weight of the capital, bought once in a cycle.
The parallel lists `level_statuses`, `level_refs`, `level_spend`, `level_planned` and
`level_attempts` are one `Level` for each index.

* `reconcileOrders`: what the reports of the orders do to their levels.
* `submitLevels`, `submitFinalSweep`: the orders of a cycle.
* `prepareCycle`, `onPriceTick`, `handleData`: the callbacks.
* `step`: callbacks in any order, with fills and ends of the orders in between. -/

namespace AlgoTrade.Robot.Martingale

/-! ## Configuration -/

structure Config (n : ℕ) where
  priceLevels : Fin n → ℚ
  amountWeights : Fin n → ℚ
  startingCash : ℚ
  short : Bool := false
  dynamicAnchor : Bool := false
  takeProfit : ℚ := 0
  hardStop : ℚ := 0
  equityRisk : EquityRisk := {}
  restartAfterStop : Bool := false
  /-- `context.params["commission"]` and `["fee_rate"]`. -/
  commissionParam : Option ℚ := none
  feeRateParam : Option ℚ := none
  startingCash_nonneg : 0 ≤ startingCash
  weights_nonneg : ∀ i, 0 ≤ amountWeights i
  weights_sum : ∑ i, amountWeights i = 1

def finalSweepMinQuote : ℚ := 1

/-- `DIRECTION`. -/
def Config.direction {n : ℕ} (cfg : Config n) : ℚ := if cfg.short then -1 else 1

/-- `_fee_rate`. -/
def Config.feeRate {n : ℕ} (cfg : Config n) : ℚ :=
  max 0 (cfg.commissionParam.getD (cfg.feeRateParam.getD (1 / 1000)))

theorem Config.feeRate_nonneg {n : ℕ} (cfg : Config n) : 0 ≤ cfg.feeRate := le_max_left _ _

/-! ## State -/

/-- `martingale:<cycle>:levels:<first>-<last>:attempt:<attempt>` and
`martingale:<cycle>:final_sweep`. -/
inductive Ref
  | levels (cycle first last attempt : ℕ)
  | finalSweep (cycle : ℕ)
  deriving DecidableEq, Repr

inductive LevelStatus
  | ready | pending | filled
  deriving DecidableEq, Repr

structure Level where
  status : LevelStatus := .ready
  ref : Option Ref := none
  spend : ℚ := 0
  planned : ℚ := 0
  attempts : ℕ := 0
  deriving DecidableEq, Repr

/-- The cycle of an order, and what it plans for each level; a sweep is for none. -/
structure Tag (n : ℕ) where
  cycle : ℕ
  sweep : Bool
  part : Fin n → ℚ

abbrev LevelOrder (n : ℕ) := Order Ref (Tag n)

/-- The strategy's `g`; an empty text is `none`. -/
structure State (n : ℕ) where
  levels : Fin n → Level := fun _ => {}
  nextLevel : ℕ := 0
  anchorPrice : ℚ := 0
  initialized : Bool := false
  cycleNo : ℕ := 1
  haltedAfterStop : Bool := false
  recoveryRequired : Bool := false
  exitPendingReason : Option String := none
  cooldownBar : Option ℤ := none
  finalSweepRef : Option Ref := none
  finalSweepDone : Bool := false
  equityWatch : EquityWatch := {}
  equityHalted : Bool := false
  equityExitPending : Bool := false
  equityStopReason : Option String := none
  priceTickSeen : Bool := false

structure System (n : ℕ) where
  g : State n := {}
  /-- Newest first. -/
  orders : List (LevelOrder n) := []
  /-- The reasons of the exits that were requested. -/
  exits : List String := []

/-- What a callback is shown: the position, the equity, the clock, and what
`consume_last_exit_reason` would answer. -/
structure Seen where
  amount : ℚ := 0
  average : ℚ := 0
  totalValue : ℚ := 0
  currentDt : Option ℤ := none
  lastExitReason : Option String := none
  deriving DecidableEq, Repr

variable {n : ℕ}

def Level.isReady (l : Level) : Bool := l.status = .ready

/-- A level that is pending or filled. -/
def State.hadCycle (g : State n) : Bool := decide (∃ i, (g.levels i).status ≠ .ready)

def State.allFilled (g : State n) : Bool := decide (∀ i, (g.levels i).status = .filled)

/-- `_new_cycle`. -/
def State.newCycle (g : State n) : State n :=
  { g with
    nextLevel := 0
    anchorPrice := 0
    levels := fun _ => {}
    exitPendingReason := none
    finalSweepRef := none
    finalSweepDone := false
    cycleNo := g.cycleNo + 1 }

/-! ## Reports -/

/-- The quote that is planned for all levels of a reference. -/
def plannedTotal (levels : Fin n → Level) (r : Ref) : ℚ :=
  ∑ i, if (levels i).ref = some r then (levels i).planned else 0

/-- What the report of its order does to a level. -/
def Level.reconcile (l : Level) (total : ℚ) (status : Report) : Level :=
  let filledSpend := status.filledNotional + status.fee
  let spend :=
    if 0 < filledSpend ∧ 0 < total then max l.spend (filledSpend * (l.planned / total))
    else l.spend
  if status.name = .filled then { l with spend := spend, status := .filled }
  else if status.name.isFailure then { attempts := l.attempts + 1 }
  else { l with spend := spend, status := .pending }

/-- Each report reaches exactly the levels of its reference. -/
def reconcileLevels (getStatus : Ref → Report) (levels : Fin n → Level) : Fin n → Level :=
  fun i =>
    match (levels i).ref with
    | none => levels i
    | some r => (levels i).reconcile (plannedTotal levels r) (getStatus r)

/-- `_reconcile_orders`; `next_level` counts the filled levels in front. -/
def reconcileOrders (getStatus : Ref → Report) (g : State n) : State n :=
  let levels := reconcileLevels getStatus g.levels
  { g with
    levels := levels
    nextLevel := ((List.finRange n).takeWhile fun i => (levels i).status = .filled).length }

/-- `_reconcile_final_sweep`. -/
def reconcileFinalSweep (getStatus : Ref → Report) (g : State n) : State n :=
  match g.finalSweepRef with
  | none => g
  | some r =>
    let name := (getStatus r).name
    if name = .filled ∨ name.isFailure ∨ g.finalSweepDone then
      { g with finalSweepDone := true, finalSweepRef := none }
    else g

/-! ## Orders -/

/-- What a pending level is still expected to spend. -/
def reservation (feeRate : ℚ) (l : Level) : ℚ :=
  if l.status = .pending then max 0 (l.planned - l.spend) * (1 + feeRate) else 0

def spentTotal (levels : Fin n → Level) : ℚ := ∑ i, (levels i).spend

/-- `_planned_quote`: the last level takes what the others leave. -/
def plannedQuote (cfg : Config n) (levels : Fin n → Level) (i : Fin n) : ℚ :=
  if i.val + 1 < n then cfg.startingCash * cfg.amountWeights i
  else
    let reserved := ∑ j : Fin n, if j.val + 1 < n then reservation cfg.feeRate (levels j) else 0
    max 0 (cfg.startingCash - spentTotal levels - reserved) / (1 + cfg.feeRate)

def Level.plan (l : Level) (quote : ℚ) : Level := { l with status := .pending, planned := quote }

def Level.refer (l : Level) (r : Ref) : Level := { l with ref := some r }

/-- One level of a batch; a level without a quote is left out. -/
def planLevel (cfg : Config n) (b : (Fin n → Level) × List (Fin n)) (i : Fin n) :
    (Fin n → Level) × List (Fin n) :=
  let quote := plannedQuote cfg b.1 i
  if quote ≤ 0 then b else (Function.update b.1 i ((b.1 i).plan quote), b.2 ++ [i])

/-- What is planned for the levels of a batch. -/
def batchPart (levels : Fin n → Level) (batch : List (Fin n)) : Fin n → ℚ :=
  fun i => if i ∈ batch then (levels i).planned else 0

def batchRef (g : State n) (levels : Fin n → Level) (batch : List (Fin n)) : Option Ref :=
  match batch.head?, batch.getLast? with
  | some first, some last =>
    let attempt := (batch.map fun i => (levels i).attempts).foldr max 0
    some (.levels g.cycleNo first.val last.val attempt)
  | _, _ => none

/-- `_submit_levels`. -/
def submitLevels (cfg : Config n) (indexes : List (Fin n)) (s : System n) : System n :=
  let b := indexes.foldl (planLevel cfg) (s.g.levels, [])
  let quoteTotal := (b.2.map fun i => (b.1 i).planned).sum
  match batchRef s.g b.1 b.2 with
  | none => { s with g := { s.g with levels := b.1 } }
  | some r =>
    if quoteTotal ≤ 0 then { s with g := { s.g with levels := b.1 } }
    else
      { s with
        g := { s.g with
          levels := fun i => if i ∈ b.2 then (b.1 i).refer r else b.1 i }
        orders := ⟨r, ⟨s.g.cycleNo, false, batchPart b.1 b.2⟩, quoteTotal, 0, .working⟩ :: s.orders }

/-- `_submit_final_sweep`. -/
def submitFinalSweep (cfg : Config n) (s : System n) : System n :=
  if s.g.finalSweepDone ∨ s.g.finalSweepRef.isSome then s
  else if n = 0 ∨ s.g.allFilled = false then s
  else
    let remaining := max 0 (cfg.startingCash - spentTotal s.g.levels)
    if remaining < finalSweepMinQuote then { s with g := { s.g with finalSweepDone := true } }
    else
      let r := .finalSweep s.g.cycleNo
      { s with
        g := { s.g with finalSweepRef := some r }
        orders := ⟨r, ⟨s.g.cycleNo, true, 0⟩, remaining / (1 + cfg.feeRate), 0, .working⟩ :: s.orders }

/-! ## Exits and cycles -/

/-- `_request_exit`. -/
def requestExit (reason : String) (s : System n) : System n :=
  { s with g := { s.g with exitPendingReason := some reason }, exits := s.exits ++ [reason] }

/-- `_risk_exit`; says whether it asked for an exit. -/
def riskExit (cfg : Config n) (price : ℚ) (seen : Seen) (s : System n) : System n × Bool :=
  if |seen.amount| ≤ 1 / 10 ^ 12 ∨ seen.average ≤ 0 ∨ s.g.exitPendingReason.isSome then (s, false)
  else
    let profit := (price - seen.average) / seen.average * cfg.direction
    if 0 < cfg.takeProfit ∧ cfg.takeProfit ≤ profit then (requestExit "robot_take_profit" s, true)
    else if 0 < cfg.hardStop ∧ cfg.hardStop ≤ -profit then (requestExit "robot_hard_stop" s, true)
    else (s, false)

/-- `_equity_risk_exit`. -/
def equityRiskExit (cfg : Config n) (seen : Seen) (s : System n) : System n × Bool :=
  if s.g.exitPendingReason.isSome ∨ s.g.equityExitPending then (s, false)
  else
    let risk := equityRiskReason cfg.equityRisk cfg.startingCash seen.totalValue s.g.equityWatch
    let s : System n := { s with g := { s.g with equityWatch := risk.1 } }
    match risk.2 with
    | none => (s, false)
    | some reason =>
      let s := requestExit ("robot_" ++ reason) s
      ({ s with g := { s.g with
          equityHalted := true
          equityExitPending := true
          equityStopReason := some ("robot_" ++ reason) } }, true)

/-- `_release_equity_risk_exit`. -/
def releaseEquityRiskExit (g : State n) : State n :=
  { g with
    exitPendingReason := if g.equityExitPending then none else g.exitPendingReason
    equityHalted := false
    equityExitPending := false
    equityStopReason := none }

/-- `_handle_flat_transition`: without a confirmed reason a flat position ends no cycle. -/
def handleFlatTransition (cfg : Config n) (seen : Seen) (g : State n) : State n × Bool :=
  if 1 / 10 ^ 12 < |seen.amount| ∨ g.hadCycle = false then (g, false)
  else
    match seen.lastExitReason.or g.exitPendingReason with
    | none => (g, false)
    | some reason =>
      let stopped := reason = "stop_loss" ∨ reason = "robot_hard_stop"
      let next := { g.newCycle with cooldownBar := seen.currentDt }
      (if stopped ∧ cfg.restartAfterStop = false then { next with haltedAfterStop := true } else next,
        true)

/-! ## Callbacks -/

/-- The reports, and the anchor that an open position sets. -/
def settleReports (getStatus : Ref → Report) (seen : Seen) (g : State n) : State n :=
  let g := reconcileFinalSweep getStatus (reconcileOrders getStatus g)
  if 1 / 10 ^ 12 < |seen.amount| ∧ 0 < seen.average ∧ g.anchorPrice ≤ 0 then
    { g with anchorPrice := seen.average }
  else g

/-- A new cycle, a halt or the bar of the last exit keep the callback from going on. -/
def enterCycle (cfg : Config n) (seen : Seen) (g : State n) : State n × Bool :=
  let o := handleFlatTransition cfg seen g
  if o.2 then (o.1, false)
  else if g.equityHalted then (g, false)
  else if g.cooldownBar.isSome ∧ seen.currentDt = g.cooldownBar then (g, false)
  else ({ g with cooldownBar := none }, true)

/-- `_prepare_cycle`; says whether the callback goes on. -/
def prepareCycle (cfg : Config n) (getStatus : Ref → Report) (seen : Seen) (g : State n) :
    State n × Bool :=
  let found := !g.initialized && decide (1 / 10 ^ 12 < |seen.amount|) && !g.hadCycle
  let g := { g with initialized := true }
  if found then ({ g with recoveryRequired := true }, false)
  else if g.recoveryRequired ∨ g.haltedAfterStop then (g, false)
  else enterCycle cfg seen (settleReports getStatus seen g)

/-- The anchor after the levels are looked at; the first ready one sets it. -/
def withAnchor (cfg : Config n) (price : ℚ) (g : State n) : State n :=
  if cfg.dynamicAnchor ∧ g.anchorPrice ≤ 0 ∧ ∃ i, (g.levels i).status = .ready then
    { g with anchorPrice := price }
  else g

/-- `_level_price`. -/
def levelPrice (cfg : Config n) (g : State n) (i : Fin n) : ℚ :=
  if cfg.dynamicAnchor then cfg.priceLevels i * g.anchorPrice else cfg.priceLevels i

/-- The ready levels up to the first that is not due; the first level always is. -/
def dueLevels (cfg : Config n) (crossed : ℚ → Bool) (g : State n) : List (Fin n) :=
  ((List.finRange n).filter fun i => (g.levels i).isReady).takeWhile fun i =>
    i.val = 0 || crossed (levelPrice cfg g i)

/-- `target` is reached by a bar with these extremes. -/
def crossedBy (cfg : Config n) (low high target : ℚ) : Bool :=
  if cfg.short then target ≤ high else low ≤ target

/-- Submit what is due. -/
def submitDue (cfg : Config n) (low high price : ℚ) (s : System n) : System n :=
  let g := withAnchor cfg price s.g
  submitFinalSweep cfg
    (submitLevels cfg (dueLevels cfg (crossedBy cfg low high) g) { s with g := g })

def System.status (cfg : Config n) (s : System n) : Ref → Report :=
  getOrderStatus cfg.feeRate s.orders

def prepare (cfg : Config n) (seen : Seen) (s : System n) : System n × Bool :=
  let o := prepareCycle cfg (s.status cfg) seen s.g
  ({ s with g := o.1 }, o.2)

/-- `on_price_tick` up to its entries; says whether it goes on to them. -/
def tickEntry (cfg : Config n) (price : ℚ) (seen : Seen) (s : System n) : System n × Bool :=
  if price ≤ 0 ∨ n = 0 then (s, false)
  else prepare cfg seen { s with g := { s.g with priceTickSeen := true } }

/-- `handle_data` up to its entries; with price ticks it has none. -/
def barEntry (cfg : Config n) (close : ℚ) (seen : Seen) (s : System n) : System n × Bool :=
  if n = 0 then (s, false)
  else
    let o := prepare cfg seen s
    if o.2 = false ∨ o.1.g.priceTickSeen then (o.1, false)
    else
      let e := equityRiskExit cfg seen o.1
      if e.2 then (e.1, false)
      else
        let r := riskExit cfg close seen e.1
        (r.1, !r.2)

/-- `on_price_tick`. -/
def onPriceTick (cfg : Config n) (price : ℚ) (seen : Seen) (s : System n) : System n :=
  let o := tickEntry cfg price seen s
  if o.2 then submitDue cfg price price price o.1 else o.1

/-- `handle_data`. -/
def handleData (cfg : Config n) (low high close : ℚ) (seen : Seen) (s : System n) : System n :=
  let o := barEntry cfg close seen s
  if o.2 then submitDue cfg low high close o.1 else o.1

/-! ## Runs -/

inductive Label
  | tick (price : ℚ) (seen : Seen)
  | bar (low high close : ℚ) (seen : Seen)
  | equityRisk (seen : Seen)
  | releaseEquityRisk
  | fills (r : Ref) (amount : ℚ)
  | ends (r : Ref) (name : StatusName)
  deriving DecidableEq, Repr

def step (cfg : Config n) (s : System n) : Label → Option (System n)
  | .tick price seen => some (onPriceTick cfg price seen s)
  | .bar low high close seen => some (handleData cfg low high close seen s)
  | .equityRisk seen => some (equityRiskExit cfg seen s).1
  | .releaseEquityRisk => some { s with g := releaseEquityRiskExit s.g }
  | .fills r amount => (fillMore s.orders r amount).map fun orders => { s with orders := orders }
  | .ends r name => (endWith s.orders r name).map fun orders => { s with orders := orders }

/-- `initialize`. -/
def start : System n := {}

/-- Filled notional plus fees of all orders of a cycle. -/
def System.spentIn (cfg : Config n) (s : System n) (cycle : ℕ) : ℚ :=
  (s.orders.map fun o =>
    if o.tag.cycle = cycle then o.filled * (1 + cfg.feeRate) else 0).sum

end AlgoTrade.Robot.Martingale
