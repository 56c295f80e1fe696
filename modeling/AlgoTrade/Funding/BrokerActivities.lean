import AlgoTrade.Funding.Reconciliation

/-! # Broker activities

`sync_strategy_alpaca_activities` asks the broker for the fees and interest of an
account and `_insert_activities` attributes each one to strategies.

* `activityAllocations`: to the order's strategy, by positions, or by fills.
* `insertActivity`: one row for each allocation, unless that strategy has one already.
* `step`: syncs one after the other, with the local tables and the broker moving
  between any two activities.  A sync that raises is rolled back. -/

namespace AlgoTrade.BrokerActivities

open Funding (normalizeStrategySymbol strip upper storedDecimal)

/-! ## Rows -/

/-- A fee, interest or fill as the broker returns it.  Days are numbers, and texts are
empty where a field is missing. -/
structure Activity where
  id : List Char
  activityType : String := "FEE"
  givenSubtype : String := ""
  description : List Char := []
  netAmount : ℚ := 0
  /-- `order_id`, of the row or its details. -/
  orderId : String := ""
  executionId : String := ""
  parentId : List Char := []
  symbol : List Char := []
  currency : String := "USD"
  side : String := ""
  qty : ℚ := 0
  price : ℚ := 0
  /-- `system_date` or `settle_date`. -/
  settleDay : Option ℤ := none
  /-- `date`. -/
  day : Option ℤ := none
  /-- The day in New York of the activity's time. -/
  timeDay : ℤ := 0
  deriving DecidableEq, Repr

/-- A row of the broker's own position list. -/
structure AccountPosition where
  symbol : List Char
  marketValue : ℚ
  deriving DecidableEq, Repr

/-- A row of `qd_strategy_positions`; the symbol is the canonical one when it is set. -/
structure StrategyPosition where
  strategyId : ℕ
  userId : ℕ
  credentialId : ℕ
  symbol : List Char
  size : ℚ
  currentPrice : Option ℚ := none
  entryPrice : Option ℚ := none
  deriving DecidableEq, Repr

/-- A row of `pending_orders`. -/
structure PendingOrder where
  id : ℕ
  credentialId : ℕ
  exchangeId : String
  exchangeOrderId : String
  strategyId : Option ℕ
  userId : ℕ
  deriving DecidableEq, Repr

/-- A row of `qd_strategy_trades`. -/
structure Trade where
  pendingOrderId : ℕ
  commission : Option ℚ := none
  commissionQuote : Option ℚ := none
  deriving DecidableEq, Repr

/-- The local tables a sync reads. -/
structure Tables where
  positions : List StrategyPosition := []
  orders : List PendingOrder := []
  trades : List Trade := []
  deriving DecidableEq, Repr

/-- A row of `qd_strategy_broker_activities`, unique by key and strategy. -/
structure ActivityRow where
  userId : ℕ
  strategyId : ℕ
  credentialId : ℕ
  activityType : String
  activitySubtype : String
  symbol : List Char
  currency : String
  amount : ℚ
  accountAmount : ℚ
  allocationRatio : ℚ
  allocationReason : String
  externalId : List Char
  deriving DecidableEq, Repr

/-- Credential and external id. -/
def ActivityRow.key (r : ActivityRow) : ℕ × List Char := (r.credentialId, r.externalId)

/-! ## What an activity is -/

def bulkSellFees : List String := ["REG", "TAF"]

def bulkAllFees : List String := ["CAT", "NRV", "NRC"]

/-- `_activity_subtype`. -/
def activitySubtype (a : Activity) : String :=
  if a.givenSubtype ≠ "" then a.givenSubtype
  else
    let description := upper a.description
    match ["REG", "TAF", "CAT", "ADR", "COM", "MGN"].find? fun c => c.toList <:+: description with
    | some candidate => candidate
    | none =>
      if "MARGIN".toList <:+: description ∧ "INTEREST".toList <:+: description then "MGN" else ""

/-- `_symbol`. -/
def symbolOf (a : Activity) : List Char := upper (normalizeStrategySymbol a.symbol)

/-- `_business_date`. -/
def businessDate (a : Activity) (bulkFee : Bool) : ℤ :=
  match a.settleDay with
  | some day => day
  | none =>
    match a.day with
    | some day => if bulkFee then day - 1 else day
    | none => a.timeDay

/-- `fill_by_ref.get(parent, "")`: of fills of one id the last counts. -/
def parentOrder (fills : List Activity) (parentId : List Char) : String :=
  ((fills.reverse.find? fun f => f.id = parentId).map Activity.orderId).getD ""

/-- `_order_id`. -/
def orderIdOf (a : Activity) (fills : List Activity) : String :=
  if a.orderId ≠ "" then a.orderId
  else if a.executionId ≠ "" then a.executionId
  else parentOrder fills (strip a.parentId)

/-! ## Who it belongs to -/

structure Owner where
  strategyId : ℕ
  userId : ℕ
  recordedCommission : ℚ
  deriving DecidableEq, Repr

/-- The commission booked with an order's trades. -/
def recordedCommission (trades : List Trade) (o : PendingOrder) : ℚ :=
  ((trades.filter fun t => t.pendingOrderId = o.id).map fun t =>
    t.commissionQuote.getD (t.commission.getD 0)).sum

/-- `_order_owners`: of rows of one exchange order the last counts. -/
def orderOwners (t : Tables) (credentialId : ℕ) : Dict String Owner :=
  t.orders.foldl (fun owners o =>
    match o.strategyId with
    | none => owners
    | some strategyId =>
      if o.credentialId = credentialId ∧ o.exchangeId.toLower = "alpaca" ∧ o.exchangeOrderId ≠ "" then
        owners.set o.exchangeOrderId
          { strategyId, userId := o.userId, recordedCommission := recordedCommission t.trades o }
      else owners) .empty

structure Allocation where
  strategyId : ℕ
  userId : ℕ
  ratio : ℚ
  reason : String
  recordedCommission : ℚ := 0
  deriving DecidableEq, Repr

/-- `_eligible_fill`. -/
def eligibleFill (fill : Activity) (subtype : String) (target : ℤ) : Bool :=
  businessDate fill false = target ∧ (subtype ∈ bulkSellFees → fill.side = "sell")

/-- `_fill_metric`. -/
def fillMetric (fill : Activity) (subtype : String) : ℚ :=
  if subtype = "REG" ∨ subtype ∉ ["TAF", "CAT"] then |fill.qty| * |fill.price| else |fill.qty|

/-- `_fill_allocations`. -/
def fillAllocations (a : Activity) (fills : List Activity) (owners : Dict String Owner) :
    List Allocation :=
  let subtype := activitySubtype a
  let target := businessDate a (subtype ∈ bulkSellFees ++ bulkAllFees)
  let eligible := fills.filter fun f => eligibleFill f subtype target ∧ 0 < fillMetric f subtype
  let accountTotal := (eligible.map fun f => fillMetric f subtype).sum
  let totals : Dict ℕ (ℕ × ℚ) := eligible.foldl (fun totals f =>
    match owners.get? f.orderId with
    | none => totals
    | some owner =>
      let previous := ((totals.get? owner.strategyId).map Prod.snd).getD 0
      totals.set owner.strategyId (owner.userId, previous + fillMetric f subtype)) .empty
  if accountTotal ≤ 0 then []
  else totals.entries.map fun e =>
    { strategyId := e.1, userId := e.2.1, ratio := e.2.2 / accountTotal
      reason := "account_fill_share" }

/-- What a position row is worth at the local price. -/
def exposure (p : StrategyPosition) : ℚ :=
  let price := match p.currentPrice with
    | some price => if price = 0 then p.entryPrice.getD 0 else price
    | none => p.entryPrice.getD 0
  |p.size * price|

/-- `_position_allocations`. -/
def positionAllocations (positions : List StrategyPosition) (credentialId : ℕ)
    (accountPositions : List AccountPosition) (symbol : List Char) : List Allocation :=
  let wanted := upper (normalizeStrategySymbol symbol)
  let account := accountPositions.filter fun p =>
    wanted = [] ∨ upper (normalizeStrategySymbol p.symbol) = wanted
  let accountTotal := (account.map fun p => |p.marketValue|).sum
  let held := positions.filter fun p =>
    p.credentialId = credentialId ∧ 0 < |p.size| ∧ (wanted = [] ∨ upper p.symbol = wanted)
  let groups := (held.map fun p => (p.strategyId, p.userId)).dedup.map fun g =>
    (g, ((held.filter fun p => (p.strategyId, p.userId) = g).map exposure).sum)
  if accountTotal ≤ 0 then []
  else (groups.filter fun g => 0 < g.2).map fun g =>
    { strategyId := g.1.1, userId := g.1.2, ratio := min 1 (g.2 / accountTotal)
      reason := "account_position_share" }

/-- `_activity_allocations`. -/
def activityAllocations (positions : List StrategyPosition) (credentialId : ℕ)
    (fills : List Activity) (owners : Dict String Owner) (accountPositions : List AccountPosition)
    (a : Activity) : List Allocation :=
  match owners.get? (orderIdOf a fills) with
  | some owner =>
    [{ strategyId := owner.strategyId, userId := owner.userId, ratio := 1, reason := "parent_order"
       recordedCommission := owner.recordedCommission }]
  | none =>
    let subtype := activitySubtype a
    if subtype = "ADR" then
      positionAllocations positions credentialId accountPositions (symbolOf a)
    else if a.activityType = "INT" ∨ subtype = "MGN" then
      positionAllocations positions credentialId accountPositions []
    else fillAllocations a fills owners

/-- `_allocated_amount`: a commission already booked with the trades is taken off. -/
def allocatedAmount (a : Activity) (al : Allocation) : ℚ :=
  let amount := a.netAmount * max 0 (min 1 al.ratio)
  if activitySubtype a = "COM" ∧ amount < 0 ∧ 0 < al.recordedCommission then
    min 0 (amount + al.recordedCommission)
  else amount

/-! ## Inserts -/

def dust : ℚ := 1 / 10 ^ 12

/-- The activity is one that is attributed. -/
def accepts (a : Activity) : Bool :=
  ¬ (a.activityType = "INT" ∧ activitySubtype a ∉ ["MGN", ""]) ∧ dust < |a.netAmount| ∧
    strip a.id ≠ []

def activityRow (credentialId : ℕ) (a : Activity) (al : Allocation) : ActivityRow where
  userId := al.userId
  strategyId := al.strategyId
  credentialId := credentialId
  activityType := a.activityType
  activitySubtype := activitySubtype a
  symbol := symbolOf a
  currency := a.currency
  amount := storedDecimal 8 (allocatedAmount a al)
  accountAmount := storedDecimal 8 a.netAmount
  allocationRatio := storedDecimal 12 al.ratio
  allocationReason := al.reason
  externalId := strip a.id

/-- `INSERT ... ON CONFLICT DO NOTHING`. -/
def insertRow (rows : List ActivityRow) (r : ActivityRow) : List ActivityRow :=
  if rows.any fun r' => r'.key = r.key ∧ r'.strategyId = r.strategyId then rows else rows ++ [r]

/-- The allocation gets a row. -/
def Allocation.valid (a : Activity) (al : Allocation) : Bool :=
  0 < al.strategyId ∧ 0 < al.userId ∧ dust < |allocatedAmount a al|

def insertActivity (credentialId : ℕ) (a : Activity) (allocations : List Allocation)
    (rows : List ActivityRow) : List ActivityRow :=
  allocations.foldl (fun rows al =>
    if al.valid a then insertRow rows (activityRow credentialId a al) else rows) rows

/-! ## Syncs -/

/-- An activity of an account. -/
structure Charge where
  credentialId : ℕ
  activity : Activity
  deriving DecidableEq, Repr

def Charge.key (q : Charge) : ℕ × List Char := (q.credentialId, strip q.activity.id)

/-- A commission that was attributed to the strategy of its order. -/
structure OrderCharge where
  charge : Charge
  strategyId : ℕ
  orderId : String
  deriving DecidableEq, Repr

/-- The table, and the commissions that were attributed by their order. -/
structure Recorded where
  rows : List ActivityRow := []
  commissions : List OrderCharge := []
  deriving DecidableEq, Repr

/-- A sync in progress: what the broker answered, the owners it read, the activities
still to insert, and the table as it sees it. -/
structure Sync where
  credentialId : ℕ
  fills : List Activity
  owners : Dict String Owner
  accountPositions : List AccountPosition
  activities : List Activity
  recorded : Recorded
  deriving DecidableEq, Repr

structure Books where
  tables : Tables := {}
  recorded : Recorded := {}
  charges : List Charge := []
  sync : Option Sync := none
  deriving DecidableEq, Repr

inductive Label
  /-- Positions, orders and trades change in any way. -/
  | changes (tables : Tables)
  /-- A strategy is deleted, and its rows with it. -/
  | deletes (strategyId : ℕ)
  | charges (q : Charge)
  | begins (credentialId : ℕ) (activities fills : List Activity)
      (accountPositions : List AccountPosition)
  | inserts
  | commits
  | raises
  deriving DecidableEq, Repr

def Recorded.delete (rec : Recorded) (strategyId : ℕ) : Recorded where
  rows := rec.rows.filter fun r => r.strategyId ≠ strategyId
  commissions := rec.commissions.filter fun e => e.strategyId ≠ strategyId

/-- The order charge an activity is, when it is a commission of an owned order. -/
def Sync.orderCharge (sync : Sync) (a : Activity) : Option (OrderCharge × Owner) :=
  let orderId := orderIdOf a sync.fills
  match sync.owners.get? orderId with
  | none => none
  | some owner =>
    if activitySubtype a = "COM" ∧ a.netAmount < 0 ∧ 0 < owner.strategyId ∧ 0 < owner.userId then
      some (⟨⟨sync.credentialId, a⟩, owner.strategyId, orderId⟩, owner)
    else none

/-- The allocations of the sync's next activity, from the positions of now. -/
def Sync.allocations (sync : Sync) (t : Tables) (a : Activity) : List Allocation :=
  activityAllocations t.positions sync.credentialId sync.fills sync.owners sync.accountPositions a

def Sync.insert (sync : Sync) (t : Tables) (a : Activity) : Recorded where
  rows := insertActivity sync.credentialId a (sync.allocations t a) sync.recorded.rows
  commissions := match sync.orderCharge a with
    | none => sync.recorded.commissions
    | some (e, _) =>
      if e ∈ sync.recorded.commissions then sync.recorded.commissions
      else sync.recorded.commissions ++ [e]

def Books.insert (s : Books) (sync : Sync) : Option Books :=
  match sync.activities with
  | [] => none
  | a :: rest =>
    some { s with
      sync := some { sync with
        activities := rest
        recorded := if accepts a then sync.insert s.tables a else sync.recorded } }

def step (s : Books) : Label → Option Books
  | .changes tables => some { s with tables }
  | .deletes strategyId =>
    some { s with
      recorded := s.recorded.delete strategyId
      sync := s.sync.map fun sync => { sync with recorded := sync.recorded.delete strategyId } }
  | .charges q =>
    if s.charges.any fun q' => q'.key = q.key then none else some { s with charges := s.charges ++ [q] }
  | .begins credentialId activities fills accountPositions =>
    if s.sync.isSome ∨ ¬ activities.all fun a => ⟨credentialId, a⟩ ∈ s.charges then none
    else
      some { s with
        sync := some {
          credentialId, fills, accountPositions, activities
          owners := orderOwners s.tables credentialId
          recorded := s.recorded } }
  | .inserts => s.sync.bind s.insert
  | .commits =>
    match s.sync with
    | some sync =>
      if sync.activities = [] then some { s with recorded := sync.recorded, sync := none } else none
    | none => none
  | .raises => if s.sync.isSome then some { s with sync := none } else none

end AlgoTrade.BrokerActivities
