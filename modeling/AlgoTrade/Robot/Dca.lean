import AlgoTrade.Robot.Orders

/-! # The DCA robot

The source that `build_robot_v2_source` generates for a DCA robot: one purchase after
another, at least an interval apart, until the budget of the cycle or its number of
orders is used up; a flat position after an exit starts the next cycle.

* `reconcilePurchase`: what the report of the pending purchase does.
* `schedule`, `purchase`: the next purchase.
* `handleData`: the bar callback.
* `step`: callbacks in any order, with fills and ends of the orders in between. -/

namespace AlgoTrade.Robot.Dca

/-! ## Configuration -/

/-- The configuration as it is given; the constants of the source are made from it. -/
structure Config where
  dcaIntervalMinutes : ℤ := 0
  dcaMaxOrders : ℤ := 0
  dcaTotalBudgetPct : ℚ := 0
  dcaOrderPct : ℚ := 0
  dynamicAnchor : Bool := false
  entryPrice : ℚ := 0
  dcaPriceFilterEnabled : Bool := false
  dcaMaxAdversePricePct : ℚ := 0
  trailingTakeProfitEnabled : Bool := false
  takeProfitPct : ℚ := 0
  hardStopPct : ℚ := 0
  equityRisk : EquityRisk := {}
  deriving DecidableEq, Repr

namespace Config

variable (cfg : Config)

/-- `DCA_INTERVAL_MINUTES`. -/
def intervalMinutes : ℤ := max 1 cfg.dcaIntervalMinutes

/-- `DCA_MAX_ORDERS`. -/
def maxOrders : ℕ := (max 1 cfg.dcaMaxOrders).toNat

/-- `DCA_TOTAL_BUDGET_PCT`. -/
def totalBudgetPct : ℚ := min 1 (max 0 cfg.dcaTotalBudgetPct)

/-- `DCA_ORDER_PCT`. -/
def orderPct : ℚ := min cfg.totalBudgetPct (max 0 cfg.dcaOrderPct)

/-- `DCA_MAX_ADVERSE_PRICE_PCT`. -/
def maxAdversePricePct : ℚ := max 0 cfg.dcaMaxAdversePricePct

/-- `TAKE_PROFIT`; a trailing take profit leaves it to the order. -/
def takeProfit : ℚ := if cfg.trailingTakeProfitEnabled then 0 else cfg.takeProfitPct

theorem intervalMinutes_pos : 0 < cfg.intervalMinutes :=
  zero_lt_one.trans_le (le_max_left 1 _)

end Config

/-! ## State -/

/-- `dca:<cycle>:order:<number>:attempt:<attempt>`. -/
structure Ref where
  cycle : ℕ
  number : ℕ
  attempt : ℕ
  deriving DecidableEq, Repr

/-- The cycle of a purchase, the capital of the cycle, and when it was asked for. -/
structure Tag where
  cycle : ℕ
  capital : ℚ
  time : ℚ
  deriving DecidableEq, Repr

abbrev Purchase := Order Ref Tag

/-- The strategy's `g`; an empty text is `none`, times are in seconds. -/
structure State where
  orderCount : ℕ := 0
  lastScheduleAt : Option ℚ := none
  spentValue : ℚ := 0
  cycleCapital : ℚ := 0
  anchorPrice : ℚ := 0
  pendingRef : Option Ref := none
  pendingValue : ℚ := 0
  attempt : ℕ := 0
  cycleNo : ℕ := 1
  exitPending : Bool := false
  equityWatch : EquityWatch := {}
  equityHalted : Bool := false
  equityExitPending : Bool := false
  equityStopReason : Option String := none
  deriving DecidableEq, Repr

structure System where
  g : State := {}
  /-- Newest first. -/
  orders : List Purchase := []
  /-- The reasons of the exits that were requested. -/
  exits : List String := []
  deriving DecidableEq, Repr

/-- What a callback is shown: the last close, the position, the portfolio, the clock, the
fee in the report of the pending purchase, and what `consume_last_exit_reason` would
answer. -/
structure Seen where
  close : Option ℚ := none
  amount : ℚ := 0
  average : ℚ := 0
  totalValue : ℚ := 0
  startingCash : ℚ := 0
  currentDt : Option ℚ := none
  fee : ℚ := 0
  lastExitReason : Option String := none
  deriving DecidableEq, Repr

/-- `_reset`. -/
def State.reset (g : State) : State :=
  { g with
    orderCount := 0
    lastScheduleAt := none
    spentValue := 0
    cycleCapital := 0
    anchorPrice := 0
    pendingRef := none
    pendingValue := 0
    attempt := 0
    exitPending := false
    cycleNo := g.cycleNo + 1 }

/-! ## Reports -/

/-- What a filled purchase counts for; a report without an amount counts as planned. -/
def settledValue (status : Report) (pendingValue : ℚ) : ℚ :=
  if status.filledNotional + status.fee ≤ 0 then pendingValue
  else status.filledNotional + status.fee

/-- `_reconcile_purchase`. -/
def reconcilePurchase (getStatus : Ref → Report) (g : State) : State :=
  match g.pendingRef with
  | none => g
  | some r =>
    let status := getStatus r
    if status.name = .filled then
      { g with
        spentValue := g.spentValue + settledValue status g.pendingValue
        orderCount := g.orderCount + 1
        pendingRef := none
        pendingValue := 0
        attempt := 0 }
    else if status.name.isFailure then
      { g with pendingRef := none, pendingValue := 0, attempt := g.attempt + 1 }
    else g

/-! ## Exits -/

/-- `_equity_risk_exit`; says whether it asked for an exit. -/
def equityRiskExit (cfg : Config) (seen : Seen) (s : System) : System × Bool :=
  if s.g.equityExitPending then (s, false)
  else
    let risk := equityRiskReason cfg.equityRisk seen.startingCash seen.totalValue s.g.equityWatch
    let s : System := { s with g := { s.g with equityWatch := risk.1 } }
    match risk.2 with
    | none => (s, false)
    | some reason =>
      ({ s with
          exits := s.exits ++ ["dca_" ++ reason]
          g := { s.g with
            equityHalted := true
            equityExitPending := true
            exitPending := true
            equityStopReason := some ("dca_" ++ reason) } }, true)

/-- `_release_equity_risk_exit`. -/
def releaseEquityRiskExit (g : State) : State :=
  { g with
    equityHalted := false
    equityExitPending := false
    exitPending := false
    equityStopReason := none }

def requestExit (reason : String) (s : System) : System :=
  { s with g := { s.g with exitPending := true }, exits := s.exits ++ [reason] }

/-- `_risk_exit`. -/
def riskExit (cfg : Config) (price : ℚ) (seen : Seen) (s : System) : System × Bool :=
  if seen.amount = 0 ∨ seen.average ≤ 0 then (s, false)
  else
    let profit := (price - seen.average) / seen.average
    if 0 < cfg.takeProfit ∧ cfg.takeProfit ≤ profit then (requestExit "dca_take_profit" s, true)
    else if 0 < cfg.hardStopPct ∧ cfg.hardStopPct ≤ -profit then
      (requestExit "dca_hard_stop" s, true)
    else (s, false)

/-- A flat position after an exit starts the next cycle. -/
def flatTransition (seen : Seen) (g : State) : State × Bool :=
  if seen.amount = 0 ∧ g.pendingRef = none then
    let exitReason := if g.exitPending ∨ 0 < g.orderCount then seen.lastExitReason else none
    if g.exitPending ∨ exitReason.isSome then (g.reset, true) else (g, false)
  else (g, false)

/-! ## Purchases -/

/-- `_price_filter_allows`. -/
def priceFilterAllows (cfg : Config) (price : ℚ) (g : State) : State × Bool :=
  let g :=
    if g.anchorPrice ≤ 0 then
      if cfg.dynamicAnchor ∨ cfg.entryPrice ≤ 0 then { g with anchorPrice := price }
      else { g with anchorPrice := cfg.entryPrice }
    else g
  (g, !cfg.dcaPriceFilterEnabled || decide (price ≤ g.anchorPrice * (1 + cfg.maxAdversePricePct)))

/-- The capital of the cycle, set by its first purchase. -/
def cycleCapital (seen : Seen) (g : State) : ℚ :=
  if g.cycleCapital ≤ 0 then max 0 seen.startingCash else g.cycleCapital

/-- What the next purchase may cost. -/
def purchaseValue (cfg : Config) (capital spent : ℚ) : ℚ :=
  min (capital * cfg.orderPct) (max 0 (capital * cfg.totalBudgetPct - spent))

/-- The purchase itself. -/
def purchase (cfg : Config) (seen : Seen) (now : ℚ) (s : System) : System :=
  let capital := cycleCapital seen s.g
  let value := purchaseValue cfg capital s.g.spentValue
  if value ≤ 0 then { s with g := { s.g with cycleCapital := capital } }
  else
    let r : Ref := ⟨s.g.cycleNo, s.g.orderCount + 1, s.g.attempt⟩
    { s with
      g := { s.g with cycleCapital := capital, pendingValue := value, pendingRef := some r }
      orders := ⟨r, ⟨s.g.cycleNo, capital, now⟩, value, 0, .working⟩ :: s.orders }

/-- Not yet an interval since the last schedule. -/
def tooSoon (cfg : Config) (now : ℚ) (lastScheduleAt : Option ℚ) : Bool :=
  lastScheduleAt.any fun last => decide ((now - last) / 60 < cfg.intervalMinutes)

def State.scheduled (g : State) (now : ℚ) : State := { g with lastScheduleAt := some now }

/-- `handle_data` from the number of orders on. -/
def schedule (cfg : Config) (price : ℚ) (seen : Seen) (s : System) : System :=
  if cfg.maxOrders ≤ s.g.orderCount then s
  else
    match seen.currentDt with
    | none => s
    | some now =>
      if tooSoon cfg now s.g.lastScheduleAt then s
      else
        let filter := priceFilterAllows cfg price (s.g.scheduled now)
        let s : System := { s with g := filter.1 }
        if filter.2 then purchase cfg seen now s else s

/-! ## Callbacks -/

/-- `get_order_status`; the fee is what the report shows. -/
def System.status (s : System) (seen : Seen) (r : Ref) : Report :=
  let report := getOrderStatus 0 s.orders r
  ⟨report.name, report.filledNotional, seen.fee⟩

/-- `handle_data`. -/
def handleData (cfg : Config) (seen : Seen) (s : System) : System :=
  match seen.close with
  | none => s
  | some price =>
    let s : System := { s with g := reconcilePurchase (s.status seen) s.g }
    let flat := flatTransition seen s.g
    if flat.2 then { s with g := flat.1 }
    else if s.g.equityHalted ∨ s.g.pendingRef.isSome ∨ s.g.exitPending then s
    else
      let equity := equityRiskExit cfg seen s
      if equity.2 then equity.1
      else
        let risk := riskExit cfg price seen equity.1
        if risk.2 then risk.1 else schedule cfg price seen risk.1

/-! ## Runs -/

inductive Label
  | bar (seen : Seen)
  | equityRisk (seen : Seen)
  | releaseEquityRisk
  | fills (r : Ref) (amount : ℚ)
  | ends (r : Ref) (name : StatusName)
  deriving DecidableEq, Repr

def step (cfg : Config) (s : System) : Label → Option System
  | .bar seen => some (handleData cfg seen s)
  | .equityRisk seen => some (equityRiskExit cfg seen s).1
  | .releaseEquityRisk => some { s with g := releaseEquityRiskExit s.g }
  | .fills r amount => (fillMore s.orders r amount).map fun orders => { s with orders := orders }
  | .ends r name => (endWith s.orders r name).map fun orders => { s with orders := orders }

/-- `initialize`. -/
def start : System := {}

/-- The filled notional of the purchases of a cycle. -/
def filledIn (orders : List Purchase) (cycle : ℕ) : ℚ :=
  (orders.map fun o => if o.tag.cycle = cycle then o.filled else 0).sum

/-- The purchases of a cycle that filled anything. -/
def purchasesIn (orders : List Purchase) (cycle : ℕ) : List Purchase :=
  orders.filter fun o => o.tag.cycle = cycle ∧ 0 < o.filled

end AlgoTrade.Robot.Dca
