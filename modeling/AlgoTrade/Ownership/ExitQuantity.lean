import AlgoTrade.Ledger.Position
import AlgoTrade.Lib.Dict
import AlgoTrade.Lib.Lists

/-! # Who owns an account leg, and how much an exit may take

The exchange shows one quantity for an account leg:
account quantity = strategy allocations + protected manual quantity.

* `calculatePositionOwnership`, `repairPositionOwnership`: the reservation row that
  holds the protected quantity, and what it says about drift.
* `resolveReduceOnlyQuantity`: the quantity of one exit, with its trace; cut to the
  strategy's ledger, to the exchange and to what stands above the protected quantity.
* `step`: exits of any number of strategies, each resolved, submitted, filled in
  parts and booked, with the others in between. -/

namespace AlgoTrade.Ownership

/-! ## Reservations -/

inductive CoexistenceMode
  | strict | advanced
  deriving DecidableEq, Repr

/-- A row of `qd_position_reservations`, of one account leg. -/
structure Reservation where
  coexistenceMode : CoexistenceMode := .strict
  manualReservedQty : ℚ := 0
  observedAccountQty : ℚ := 0
  allocatedQty : ℚ := 0
  status : String := ""
  driftReason : String := ""
  deriving DecidableEq, Repr

structure OwnershipSnapshot where
  accountQty : ℚ
  strategyQty : ℚ
  protectedQty : ℚ
  expectedQty : ℚ
  unknownQty : ℚ
  tolerance : ℚ
  coexistenceMode : CoexistenceMode
  status : String
  reason : String
  allowed : Bool
  shouldLog : Bool
  deriving DecidableEq, Repr

/-- `calculate_position_ownership`. -/
def calculatePositionOwnership (accountQty strategyQty protectedQty : ℚ)
    (mode : CoexistenceMode) (previousStatus previousReason : String) (absoluteTolerance : ℚ) :
    OwnershipSnapshot :=
  let account := max 0 accountQty
  let strategy := max 0 strategyQty
  -- A stale protected value must never silently weaken strict mode.
  let protectedQty := if mode = .strict then 0 else max 0 protectedQty
  let expected := strategy + protectedQty
  let tolerance := max (1 / 100000000) (max (expected * (1 / 1000)) (max 0 absoluteTolerance))
  let unknown := account - expected
  let reason :=
    if |unknown| ≤ tolerance then ""
    else if 0 < unknown then "unallocated_account_position"
    else "account_below_protected_allocation"
  let status := if |unknown| ≤ tolerance then "ok" else "drift_blocked"
  { accountQty := account
    strategyQty := strategy
    protectedQty := protectedQty
    expectedQty := expected
    unknownQty := unknown
    tolerance := tolerance
    coexistenceMode := mode
    status := status
    reason := reason
    allowed := |unknown| ≤ tolerance
    shouldLog := status = "drift_blocked" ∧
      (previousStatus ≠ "drift_blocked" ∨ previousReason ≠ reason) }

/-- What a snapshot writes into the row; mode and manual quantity are the caller's. -/
def Reservation.record (snap : OwnershipSnapshot) (mode : CoexistenceMode) (manual : ℚ) :
    Reservation where
  coexistenceMode := mode
  manualReservedQty := manual
  observedAccountQty := snap.accountQty
  allocatedQty := snap.strategyQty
  status := snap.status
  driftReason := snap.reason

/-- `evaluate_and_record_ownership`: an existing row keeps mode and manual quantity. -/
def evaluateAndRecordOwnership (row : Option Reservation)
    (accountQty strategyQty absoluteTolerance : ℚ) : Reservation × OwnershipSnapshot :=
  let r := row.getD {}
  let snap := calculatePositionOwnership accountQty strategyQty r.manualReservedQty
    r.coexistenceMode r.status r.driftReason absoluteTolerance
  match row with
  | none => (.record snap snap.coexistenceMode snap.protectedQty, snap)
  | some r => (.record snap r.coexistenceMode r.manualReservedQty, snap)

/-- `is_position_leg_blocked`: asked before an entry is queued, never before an exit. -/
def isPositionLegBlocked (row : Option Reservation) : Bool :=
  (row.getD {}).status = "drift_blocked"

/-- `protected_quantity`. -/
def protectedQuantity (row : Option Reservation) : ℚ :=
  let r := row.getD {}
  if r.coexistenceMode ≠ .advanced then 0 else max 0 r.manualReservedQty

inductive RepairAction
  | protectManual | strictMode | recheck
  deriving DecidableEq, Repr

def RepairAction.ofName : String → Option RepairAction
  | "protect_manual" => some .protectManual
  | "strict_mode" => some .strictMode
  | "recheck" => some .recheck
  | _ => none

def cryptoCoexistenceExchanges : List String :=
  ["binance", "bitget", "bybit", "gate", "htx", "okx"]

/-- `supports_position_coexistence`, on lower-case names. -/
def supportsPositionCoexistence (marketType exchangeId : String) : Bool :=
  let market := if marketType ∈ ["future", "futures", "perp", "perpetual"] then "swap" else marketType
  market ∈ ["spot", "swap"] ∧
    (market = "swap" ∨ exchangeId = "" ∨ exchangeId ∈ cryptoCoexistenceExchanges)

/-- `repair_position_ownership`: the row it writes and the snapshot it returns. -/
def repairPositionOwnership (row : Option Reservation) (marketType exchangeId : String)
    (accountQty strategyQty : ℚ) (action : String) :
    Except String (Reservation × OwnershipSnapshot) :=
  match RepairAction.ofName action with
  | none => .error "positionOwnership.invalidRepairAction"
  | some act =>
    if act = .protectManual ∧ ¬ supportsPositionCoexistence marketType exchangeId then
      .error "positionOwnership.coexistenceMarketUnsupported"
    else if act = .protectManual ∧ accountQty + 1 / 100000000 < strategyQty then
      .error "positionOwnership.accountBelowStrategyAllocation"
    else
      let r := row.getD {}
      let mode :=
        match act with
        | .protectManual => .advanced
        | .strictMode => .strict
        | .recheck => r.coexistenceMode
      let manual :=
        match act with
        | .protectManual => max 0 (accountQty - strategyQty)
        | .strictMode => 0
        | .recheck => max 0 r.manualReservedQty
      let snap := calculatePositionOwnership accountQty strategyQty manual mode "" "" 0
      .ok (.record snap mode manual, snap)

theorem protectedQuantity_nonneg (row : Option Reservation) : 0 ≤ protectedQuantity row := by
  unfold protectedQuantity
  dsimp only
  split
  · exact le_rfl
  · exact le_max_left _ _

/-- Recording drift does not move the protected quantity. -/
theorem protectedQuantity_evaluate (row : Option Reservation)
    (accountQty strategyQty absoluteTolerance : ℚ) :
    protectedQuantity
        (evaluateAndRecordOwnership row accountQty strategyQty absoluteTolerance).1 =
      protectedQuantity row := by
  cases row with
  | none => rfl
  | some r => rfl

/-- What `protect_manual` protects is on the account. -/
theorem protectedQuantity_repair_le {row : Option Reservation} {marketType exchangeId : String}
    {accountQty strategyQty : ℚ} {res : Reservation × OwnershipSnapshot}
    (ha : 0 ≤ accountQty) (hs : 0 ≤ strategyQty)
    (h : repairPositionOwnership row marketType exchangeId accountQty strategyQty
      "protect_manual" = .ok res) :
    protectedQuantity res.1 ≤ accountQty := by
  simp only [repairPositionOwnership, RepairAction.ofName] at h
  split at h
  · cases h
  · split at h
    · cases h
    · obtain rfl := Except.ok.inj h
      show max 0 (max 0 (accountQty - strategyQty)) ≤ accountQty
      exact max_le ha (max_le ha (sub_le_self accountQty hs))

/-! ## The quantity of an exit -/

/-- The trace `resolve_reduce_only_quantity` returns beside the quantity. -/
structure CloseMeta where
  requested : ℚ
  dbSize : ℚ
  dbMissing : Bool := false
  blockedBy : Option String := none
  filledFrom : Option String := none
  cappedBy : Option String := none
  exchangeSize : ℚ := 0
  protectedManualQty : Option ℚ := none
  exchangeStrategyAvailable : Option ℚ := none
  resolved : ℚ := 0
  deriving DecidableEq, Repr

/-- Cut by the strategy's ledger. -/
def capByLedger (requestedAmount dbSize : ℚ) (allowExchangeFallback : Bool) : ℚ × CloseMeta :=
  let amount := max 0 requestedAmount
  let trace : CloseMeta := { requested := amount, dbSize := dbSize }
  if 0 < dbSize then
    if amount ≤ 0 then (dbSize, { trace with filledFrom := some "db" })
    else if dbSize < amount then (dbSize, { trace with cappedBy := some "db" })
    else (amount, trace)
  else if allowExchangeFallback then (amount, { trace with dbMissing := true })
  else (0, { trace with dbMissing := true, blockedBy := some "strategy_position_missing" })

/-- Cut by what the exchange shows. -/
def capByExchange (allowExchangeFallback : Bool) (exchSize : ℚ) (x : ℚ × CloseMeta) :
    ℚ × CloseMeta :=
  let trace := { x.2 with exchangeSize := exchSize }
  if 0 < exchSize then
    if x.1 ≤ 0 ∧ allowExchangeFallback then
      (exchSize, { trace with filledFrom := some "exchange" })
    else if exchSize < x.1 then (exchSize, { trace with cappedBy := some "exchange" })
    else (x.1, trace)
  else if x.1 ≤ 0 then (x.1, { trace with filledFrom := some "none" })
  else (x.1, trace)

/-- Cut by the quantity above the protected one. -/
def capByProtected (protectedQty exchSize : ℚ) (x : ℚ × CloseMeta) : ℚ × CloseMeta :=
  let available := max 0 (exchSize - protectedQty)
  let trace :=
    { x.2 with
      protectedManualQty := some protectedQty
      exchangeStrategyAvailable := some available }
  if available < x.1 then
    (available, { trace with cappedBy := some "protected_manual_position" })
  else (x.1, trace)

/-- `resolve_reduce_only_quantity`, for a strategy with `dbSize` in its ledger on a leg
where the exchange shows `exchSize`. -/
def resolveReduceOnlyQuantity (requestedAmount dbSize exchSize : ℚ)
    (allowExchangeFallback : Bool) (userId credentialId : ℕ) (row : Option Reservation) :
    ℚ × CloseMeta :=
  let x := capByExchange allowExchangeFallback exchSize
    (capByLedger requestedAmount dbSize allowExchangeFallback)
  let y := if 0 < userId ∧ 0 < credentialId then capByProtected (protectedQuantity row) exchSize x
    else x
  (y.1, { y.2 with resolved := y.1 })

/-! ## Exits in flight -/

/-- An account leg; its reservation belongs to a user and a credential. -/
structure Leg where
  userId : ℕ
  credentialId : ℕ
  userId_pos : 0 < userId
  credentialId_pos : 0 < credentialId
  deriving DecidableEq, Repr

inductive Stage
  | resolved | submitted | ended
  deriving DecidableEq, Repr

/-- An exit; `ledgerSize` is what the strategy's ledger held when it was resolved. -/
structure Exit where
  strategyId : ℕ
  ledgerSize : ℚ
  quantity : ℚ
  filled : ℚ := 0
  booked : ℚ := 0
  stage : Stage := .resolved
  deriving DecidableEq, Repr

/-- What the exit may still take from the account. -/
def Exit.remaining (e : Exit) : ℚ := if e.stage = .ended then 0 else e.quantity - e.filled

structure System where
  leg : Leg
  account : ℚ
  reservation : Option Reservation
  rows : Dict ℕ PositionRow := {}
  exits : List Exit := []

namespace System

/-- The protected quantity of the leg. -/
def floor (s : System) : ℚ := protectedQuantity s.reservation

/-- `fetch_position_size_for_side`. -/
def ledgerSize (s : System) (strategyId : ℕ) : ℚ := positionSize (s.rows.get? strategyId)

/-- `query_exchange_position_size`: zero where the exchange does not answer. -/
def exchangeSize (s : System) (answers : Bool) : ℚ := if answers then max 0 s.account else 0

def resolve (s : System) (strategyId : ℕ) (requestedAmount : ℚ) (answers : Bool) : ℚ × CloseMeta :=
  resolveReduceOnlyQuantity requestedAmount (s.ledgerSize strategyId) (s.exchangeSize answers)
    false s.leg.userId s.leg.credentialId s.reservation

/-- What the exits in flight may still take. -/
def inFlight (s : System) : ℚ := (s.exits.map Exit.remaining).sum

/-- The rows after a fill of a strategy is worked into its ledger. -/
def book (s : System) (strategyId : ℕ) (signal : SignalType) (quantity price : ℚ) :
    Dict ℕ PositionRow :=
  match (applyFillToLocalPosition signal quantity price (s.rows.get? strategyId)).position with
  | some row => s.rows.set strategyId row
  | none => s.rows.pop strategyId

end System

inductive Label
  | resolves (strategyId : ℕ) (requestedAmount : ℚ) (answers : Bool)
  | submits (k : ℕ)
  | fills (k : ℕ) (quantity : ℚ)
  | ends (k : ℕ)
  | books (k : ℕ) (signal : SignalType) (quantity price : ℚ)
  deriving DecidableEq, Repr

def step (s : System) : Label → Option System
  | .resolves strategyId requestedAmount answers =>
    some { s with
      exits := s.exits ++
        [{ strategyId := strategyId
           ledgerSize := s.ledgerSize strategyId
           quantity := (s.resolve strategyId requestedAmount answers).1 }] }
  | .submits k =>
    s.exits[k]?.bind fun e =>
      if e.stage = .resolved ∧ 0 < e.quantity then
        some { s with exits := s.exits.set k { e with stage := .submitted } }
      else none
  | .fills k quantity =>
    s.exits[k]?.bind fun e =>
      if e.stage = .submitted ∧ 0 < quantity ∧ quantity ≤ e.quantity - e.filled then
        some { s with
          account := s.account - quantity
          exits := s.exits.set k { e with filled := e.filled + quantity } }
      else none
  -- done, cancelled, rejected, or never sent
  | .ends k =>
    s.exits[k]?.bind fun e =>
      if e.stage ≠ .ended then some { s with exits := s.exits.set k { e with stage := .ended } }
      else none
  | .books k signal quantity price =>
    s.exits[k]?.bind fun e =>
      if signal.isOpen = false ∧ 0 < quantity ∧ quantity ≤ e.filled - e.booked then
        some { s with
          rows := s.book e.strategyId signal quantity price
          exits := s.exits.set k { e with booked := e.booked + quantity } }
      else none

end AlgoTrade.Ownership
