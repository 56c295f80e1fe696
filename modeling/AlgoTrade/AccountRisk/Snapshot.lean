import AlgoTrade.Funding.Reconciliation
import AlgoTrade.Ledger.Position

/-! # Account-level exposure controls

`accountRiskSnapshot` values the filled strategy positions of one account, adds one
proposed entry, and compares the sums with the limits.

* `grossNotional`: what the positions of the account come to.
* `accountRiskSnapshot_grossNotional`: the gross notional of a snapshot is that plus the
  proposal.
* `accountRiskSnapshot_allowed`: an allowed proposal is within the gross limit, with
  nothing but the filled positions beside it. -/

namespace AlgoTrade.AccountRisk

open Funding (strip normalizeStrategySymbol)

/-! ## Configuration values -/

/-- A value of a JSON configuration; `text` is a nonempty string (or anything else) with
what `float` makes of it. -/
inductive Setting
  | absent
  | num (value : ℚ)
  | text (value : Option ℚ)
  deriving DecidableEq, Repr

def Setting.truthy : Setting → Bool
  | .absent => false
  | .num value => value ≠ 0
  | .text _ => true

/-- Python's `or`. -/
def Setting.or (a b : Setting) : Setting := if a.truthy then a else b

/-- `_positive`: the default is for values that `float` refuses, not for missing ones. -/
def positive (value : Setting) (default : ℚ := 0) : ℚ :=
  match value with
  | .absent => 0
  | .num v => max 0 v
  | .text (some v) => max 0 v
  | .text none => max 0 default

/-- `_ratio`. -/
def ratio (value : Setting) (default : ℚ := 0) : ℚ :=
  if 1 < positive value default then positive value default / 100 else positive value default

/-- `trading_config["account_risk"]`, also the `limits` of a snapshot. -/
structure RiskConfig where
  feeRate : Setting := .absent
  fundingRateEstimate : Setting := .absent
  maxGrossNotional : Setting := .absent
  maxMarginEstimate : Setting := .absent
  maxRoundTripFee : Setting := .absent
  maxFeeBudgetRatio : Setting := .absent
  maxFundingPerInterval : Setting := .absent
  maxFundingBudgetRatio : Setting := .absent
  maxGrossLeverage : Setting := .absent
  maxSymbolGrossNotional : Setting := .absent
  deriving DecidableEq, Repr

structure TradingConfig where
  leverage : Setting := .absent
  commission : Setting := .absent
  fundingRateEstimate : Setting := .absent
  credentialId : ℤ := 0
  accountRisk : RiskConfig := {}
  deriving DecidableEq, Repr

structure ExchangeConfig where
  credentialId : ℤ := 0
  credentialsId : ℤ := 0
  deriving DecidableEq, Repr

/-- A row of `qd_strategies_trading`; `live` is `execution_mode = 'live'`. -/
structure StrategyRow where
  live : Bool := false
  status : List Char := []
  initialCapital : Setting := .absent
  leverage : Setting := .absent
  marketType : List Char := []
  exchangeConfig : ExchangeConfig := {}
  tradingConfig : TradingConfig := {}
  deriving DecidableEq, Repr

def lower (s : List Char) : List Char := s.map Char.toLower

/-- `_market_type`. -/
def marketTypeOf (value : List Char) : List Char :=
  let out := lower (strip (if value = [] then "swap".toList else value))
  if out ∈ ["future", "futures", "perp", "perpetual"].map String.toList then "swap".toList
  else if out = [] then "swap".toList
  else out

/-- `credential_id_from_exchange_config`. -/
def credentialIdFromExchangeConfig (cfg : ExchangeConfig) : ℤ :=
  if 0 < cfg.credentialId then cfg.credentialId
  else if 0 < cfg.credentialsId then cfg.credentialsId
  else 0

namespace StrategyRow

variable (row : StrategyRow)

/-- `_strategy_credential_id`. -/
def strategyCredentialId : ℤ :=
  let fromExchange := credentialIdFromExchangeConfig row.exchangeConfig
  if fromExchange ≠ 0 then fromExchange else row.tradingConfig.credentialId

/-- `_strategy_leverage`. -/
def strategyLeverage : ℚ := max 1 (positive (row.tradingConfig.leverage.or row.leverage) 1)

/-- `_strategy_fee_rate`. -/
def strategyFeeRate : ℚ :=
  ratio ((row.tradingConfig.accountRisk.feeRate.or row.tradingConfig.commission).or
    (.num (1 / 1000)))

/-- `_strategy_funding_rate`. -/
def strategyFundingRate : ℚ :=
  ratio ((row.tradingConfig.accountRisk.fundingRateEstimate.or
    row.tradingConfig.fundingRateEstimate).or (.num 0))

end StrategyRow

/-! ## Positions -/

inductive PositionSide
  | long | short
  deriving DecidableEq, Repr

/-- The key of `qd_strategy_positions`; a row is written under its canonical symbol. -/
structure Leg where
  strategyId : ℕ
  symbol : List Char
  side : PositionSide
  deriving DecidableEq, Repr

structure Position extends PositionRow where
  currentPrice : ℚ
  marketType : List Char := []
  credentialId : ℤ := 0
  deriving DecidableEq, Repr

namespace Position

variable (p : Position)

/-- What the snapshot values the position at. -/
def mark : ℚ := positive (.num (orElse p.currentPrice p.entryPrice))

def notional : ℚ := positive (.num p.size) * p.mark

end Position

/-- The strategies of one user, and their positions. -/
structure Tables where
  strategies : Dict ℕ StrategyRow := {}
  positions : Dict Leg Position := {}
  deriving DecidableEq, Repr

/-- A credential, zero for any, and a market. -/
structure Account where
  credentialId : ℤ
  marketType : List Char
  deriving DecidableEq, Repr

structure AccountRow where
  strategyId : ℕ
  strategy : StrategyRow
  position : Option (Leg × Position)
  deriving DecidableEq, Repr

/-- `_load_account_rows`: the live strategies, each with its positions or alone. -/
def loadAccountRows (t : Tables) : List AccountRow :=
  (t.strategies.entries.filter fun e => e.2.live).flatMap fun e =>
    match t.positions.entries.filter fun p => p.1.strategyId = e.1 ∧ 0 < p.2.size with
    | [] => [⟨e.1, e.2, none⟩]
    | ps => ps.map fun p => ⟨e.1, e.2, some p⟩

/-- The row is of the account's market and credential. -/
def Account.matches (a : Account) (row : AccountRow) : Prop :=
  let positionMarket := row.position.elim [] fun p => p.2.marketType
  let positionCredential := row.position.elim 0 fun p => p.2.credentialId
  let rowMarket :=
    if row.strategy.marketType ≠ [] then row.strategy.marketType else positionMarket
  let rowCredential :=
    if positionCredential ≠ 0 then positionCredential else row.strategy.strategyCredentialId
  marketTypeOf rowMarket = marketTypeOf a.marketType ∧
    ¬ (0 < a.credentialId ∧ rowCredential ≠ a.credentialId)

instance (a : Account) (row : AccountRow) : Decidable (a.matches row) :=
  inferInstanceAs (Decidable (_ ∧ ¬ _))

/-- The row is a position with a symbol. -/
def AccountRow.Held (row : AccountRow) : Prop := ∃ p ∈ row.position, p.1.symbol ≠ []

instance (row : AccountRow) : Decidable row.Held :=
  match hp : row.position with
  | none => isFalse fun ⟨p, hmem, _⟩ => by rw [hp] at hmem; cases hmem
  | some p =>
    decidable_of_iff (p.1.symbol ≠ [])
      ⟨fun h => ⟨p, hp, h⟩, fun ⟨q, hq, h⟩ => by
        rw [hp] at hq
        exact Option.some.inj hq ▸ h⟩

/-- The positions of the account. -/
def Account.matched (a : Account) (t : Tables) : List AccountRow :=
  (loadAccountRows t).filter fun row => a.matches row ∧ row.Held

/-- `strategy_rows`: the account's strategies, and the one that proposes. -/
def Account.strategyRows (a : Account) (t : Tables) (strategyId : ℕ) : Dict ℕ StrategyRow :=
  let rows := ((loadAccountRows t).filter fun row => a.matches row).foldl
    (fun (d : Dict ℕ StrategyRow) row =>
      if (d.get? row.strategyId).isSome then d else d.set row.strategyId row.strategy) {}
  if 0 < strategyId ∧ rows.get? strategyId = none then
    match t.strategies.get? strategyId with
    | some current => rows.set strategyId current
    | none => rows
  else rows

/-! ## The sums -/

structure Totals where
  longNotional : ℚ := 0
  shortNotional : ℚ := 0
  marginEstimate : ℚ := 0
  feeEstimate : ℚ := 0
  fundingEstimate : ℚ := 0
  symbolGross : Dict (List Char) ℚ := {}
  unpricedPositionCount : ℕ := 0
  deriving DecidableEq, Repr

namespace Totals

def grossNotional (t : Totals) : ℚ := t.longNotional + t.shortNotional

/-- Count a notional on its side and symbol. -/
def add (t : Totals) (side : PositionSide) (symbol : List Char)
    (notional leverage feeRate fundingRate : ℚ) : Totals :=
  { t with
    longNotional := if side = .short then t.longNotional else t.longNotional + notional
    shortNotional := if side = .short then t.shortNotional + notional else t.shortNotional
    symbolGross := t.symbolGross.set symbol ((t.symbolGross.get? symbol).getD 0 + notional)
    marginEstimate := t.marginEstimate + notional / leverage
    feeEstimate := t.feeEstimate + notional * feeRate * 2
    fundingEstimate := t.fundingEstimate + notional * fundingRate }

/-- One turn of the loop over the positions. -/
def addPosition (strategyRows : Dict ℕ StrategyRow) (t : Totals) (row : AccountRow) : Totals :=
  match row.position with
  | none => t
  | some (leg, p) =>
    let t := if 0 < positive (.num p.size) ∧ p.mark ≤ 0 then
      { t with unpricedPositionCount := t.unpricedPositionCount + 1 } else t
    if p.notional ≤ 0 then t
    else
      let strategy := (strategyRows.get? row.strategyId).getD row.strategy
      t.add leg.side (normalizeStrategySymbol leg.symbol) p.notional strategy.strategyLeverage
        strategy.strategyFeeRate strategy.strategyFundingRate

end Totals

/-- An entry as the caller proposes it. -/
structure Proposal where
  strategyId : ℕ
  symbol : List Char
  side : PositionSide
  quantity : ℚ
  price : ℚ
  leverage : ℚ := 1
  deriving DecidableEq, Repr

def Proposal.notional (p : Proposal) : ℚ := positive (.num p.quantity) * positive (.num p.price)

def Totals.addProposal (strategyRows : Dict ℕ StrategyRow) (t : Totals) (p : Proposal) : Totals :=
  if 0 < p.notional then
    let current := (strategyRows.get? p.strategyId).getD {}
    t.add p.side (normalizeStrategySymbol p.symbol) p.notional
      (max 1 (positive (.num p.leverage) 1)) current.strategyFeeRate current.strategyFundingRate
  else t

/-! ## The snapshot -/

structure Limits where
  maxGrossNotional : ℚ
  maxSymbolGrossNotional : ℚ
  maxMarginEstimate : ℚ
  maxRoundTripFee : ℚ
  maxFundingPerInterval : ℚ
  maxGrossLeverage : ℚ
  deriving DecidableEq, Repr

/-- Each limit of the policy, and what stands in for one that is not positive. -/
def Limits.ofPolicy (policy : RiskConfig) (capitalBudget grossCapacity : ℚ) : Limits where
  maxGrossNotional := orElse (positive policy.maxGrossNotional) grossCapacity
  maxSymbolGrossNotional := orElse (positive policy.maxSymbolGrossNotional)
    (orElse (positive policy.maxGrossNotional) grossCapacity)
  maxMarginEstimate := orElse (positive policy.maxMarginEstimate) capitalBudget
  maxRoundTripFee := orElse (positive policy.maxRoundTripFee)
    (capitalBudget * ratio policy.maxFeeBudgetRatio (5 / 100))
  maxFundingPerInterval := orElse (positive policy.maxFundingPerInterval)
    (capitalBudget * ratio policy.maxFundingBudgetRatio (2 / 100))
  maxGrossLeverage := orElse (positive policy.maxGrossLeverage)
    (if 0 < capitalBudget then grossCapacity / capitalBudget else 0)

structure Snapshot where
  violations : List String
  credentialId : ℤ
  marketType : List Char
  strategyCount : ℕ
  totals : Totals
  netNotional : ℚ
  hedgeRatio : ℚ
  grossLeverage : ℚ
  capitalBudget : ℚ
  grossCapacity : ℚ
  limits : Limits
  deriving DecidableEq, Repr

namespace Snapshot

def grossNotional (s : Snapshot) : ℚ := s.totals.grossNotional

def allowed (s : Snapshot) : Bool := s.violations = []

end Snapshot

/-- `1e-8`. -/
def tolerance : ℚ := 1 / 100000000

/-- A sum above a limit that is set. -/
def Exceeds (sum limit : ℚ) : Prop := 0 < limit ∧ limit + tolerance < sum

instance (sum limit : ℚ) : Decidable (Exceeds sum limit) := inferInstanceAs (Decidable (_ ∧ _))

/-- What the strategies that run, and the one that proposes, count for. -/
def sumRunning (strategyRows : Dict ℕ StrategyRow) (strategyId : ℕ) (f : StrategyRow → ℚ) : ℚ :=
  strategyRows.total fun id row =>
    if lower row.status = "running".toList ∨ id = strategyId then f row else 0

/-- `account_risk_snapshot`. -/
def accountRiskSnapshot (a : Account) (t : Tables) (p : Proposal) (limits : RiskConfig) :
    Snapshot :=
  let strategyRows := a.strategyRows t p.strategyId
  let totals := ((a.matched t).foldl (Totals.addPosition strategyRows) {}).addProposal strategyRows p
  let capitalBudget := sumRunning strategyRows p.strategyId fun row => positive row.initialCapital
  let grossCapacity := sumRunning strategyRows p.strategyId fun row =>
    positive row.initialCapital * row.strategyLeverage
  let grossNotional := totals.longNotional + totals.shortNotional
  let hedged := min totals.longNotional totals.shortNotional
  let larger := max totals.longNotional totals.shortNotional
  let grossLeverage := if 0 < capitalBudget then grossNotional / capitalBudget else 0
  let lim := Limits.ofPolicy limits capitalBudget grossCapacity
  let symbol := normalizeStrategySymbol p.symbol
  let symbolGross := (totals.symbolGross.get? symbol).getD 0
  let priceMissing := 0 < positive (.num p.quantity) ∧ positive (.num p.price) ≤ 0
  { violations :=
      (if 0 < totals.unpricedPositionCount then ["accountRisk.positionPriceMissing"] else []) ++
      (if priceMissing then ["accountRisk.proposedPriceMissing"] else []) ++
      (if Exceeds grossNotional lim.maxGrossNotional then
        ["accountRisk.grossNotionalExceeded"] else []) ++
      (if Exceeds totals.marginEstimate lim.maxMarginEstimate then
        ["accountRisk.marginEstimateExceeded"] else []) ++
      (if Exceeds totals.feeEstimate lim.maxRoundTripFee then
        ["accountRisk.feeBudgetExceeded"] else []) ++
      (if Exceeds totals.fundingEstimate lim.maxFundingPerInterval then
        ["accountRisk.fundingBudgetExceeded"] else []) ++
      (if Exceeds grossLeverage lim.maxGrossLeverage then
        ["accountRisk.grossLeverageExceeded"] else []) ++
      (if symbol ≠ [] ∧ Exceeds symbolGross lim.maxSymbolGrossNotional then
        ["accountRisk.symbolGrossNotionalExceeded"] else [])
    credentialId := a.credentialId
    marketType := marketTypeOf a.marketType
    strategyCount := strategyRows.entries.length
    totals := totals
    netNotional := totals.longNotional - totals.shortNotional
    hedgeRatio := if 0 < larger then hedged / larger else 0
    grossLeverage := grossLeverage
    capitalBudget := capitalBudget
    grossCapacity := grossCapacity
    limits := lim }

/-- The check of `_execute_live_order`: the error an order is rejected with. -/
def accountRiskError (reduceOnly : Bool) (marketType : String) (snapshot : Except String Snapshot) :
    Option String :=
  if reduceOnly = false ∧ marketType ∈ ["spot", "swap"] then
    match snapshot with
    | .ok s => if s.allowed then none else some (s.violations.headD "accountRisk.rejected")
    | .error e => some ("accountRisk.snapshotFailed:" ++ e)
  else none

theorem accountRiskError_isNone {marketType : String} {s : Snapshot}
    (h : marketType ∈ ["spot", "swap"]) :
    accountRiskError false marketType (.ok s) = none ↔ s.allowed = true := by
  unfold accountRiskError
  rw [if_pos ⟨rfl, h⟩]
  dsimp only
  split
  next hs => exact ⟨fun _ => hs, fun _ => rfl⟩
  next hs => exact ⟨fun hnone => (Option.some_ne_none _ hnone).elim, fun h' => absurd h' hs⟩

/-! ## The gross notional -/

theorem positive_num_nonneg (q : ℚ) : 0 ≤ positive (.num q) := le_max_left 0 q

theorem Position.notional_nonneg (p : Position) : 0 ≤ p.notional :=
  mul_nonneg (positive_num_nonneg _) (positive_num_nonneg _)

theorem Proposal.notional_nonneg (p : Proposal) : 0 ≤ p.notional :=
  mul_nonneg (positive_num_nonneg _) (positive_num_nonneg _)

/-- What a row counts for. -/
def AccountRow.notional (row : AccountRow) : ℚ := row.position.elim 0 fun p => p.2.notional

/-- The gross notional of the account's positions. -/
def Account.grossNotional (a : Account) (t : Tables) : ℚ :=
  ((a.matched t).map AccountRow.notional).sum

theorem Totals.grossNotional_add (t : Totals) (side : PositionSide) (symbol : List Char)
    (notional leverage feeRate fundingRate : ℚ) :
    (t.add side symbol notional leverage feeRate fundingRate).grossNotional =
      t.grossNotional + notional := by
  cases side with
  | long =>
    show t.longNotional + notional + t.shortNotional = t.longNotional + t.shortNotional + notional
    ring
  | short =>
    show t.longNotional + (t.shortNotional + notional) = t.longNotional + t.shortNotional + notional
    ring

theorem Totals.grossNotional_addPosition (strategyRows : Dict ℕ StrategyRow) (t : Totals)
    (row : AccountRow) :
    (t.addPosition strategyRows row).grossNotional = t.grossNotional + row.notional := by
  obtain ⟨strategyId, strategy, position⟩ := row
  cases position with
  | none => exact (add_zero _).symm
  | some e =>
    obtain ⟨leg, p⟩ := e
    show Totals.grossNotional (Totals.addPosition _ _ _) = t.grossNotional + p.notional
    have hsame : ∀ u : Totals, u.grossNotional = t.grossNotional →
        (if p.notional ≤ 0 then u
          else u.add leg.side (normalizeStrategySymbol leg.symbol) p.notional
            ((strategyRows.get? strategyId).getD strategy).strategyLeverage
            ((strategyRows.get? strategyId).getD strategy).strategyFeeRate
            ((strategyRows.get? strategyId).getD strategy).strategyFundingRate).grossNotional =
          t.grossNotional + p.notional := by
      intro u hu
      split
      next hle => rw [hu, le_antisymm hle p.notional_nonneg, add_zero]
      next => rw [Totals.grossNotional_add, hu]
    refine hsame _ ?_
    split
    · rfl
    · rfl

theorem Totals.grossNotional_foldl (strategyRows : Dict ℕ StrategyRow) (rows : List AccountRow)
    (t : Totals) :
    (rows.foldl (Totals.addPosition strategyRows) t).grossNotional =
      t.grossNotional + (rows.map AccountRow.notional).sum := by
  induction rows generalizing t with
  | nil => exact (add_zero _).symm
  | cons row rows ih =>
    rw [List.foldl_cons, ih, grossNotional_addPosition, List.map_cons, List.sum_cons, add_assoc]

theorem Totals.grossNotional_addProposal (strategyRows : Dict ℕ StrategyRow) (t : Totals)
    (p : Proposal) :
    (t.addProposal strategyRows p).grossNotional = t.grossNotional + p.notional := by
  unfold Totals.addProposal
  split
  next => exact grossNotional_add t ..
  next hle => rw [le_antisymm (not_lt.mp hle) p.notional_nonneg, add_zero]

/-- The gross notional of a snapshot is that of the positions and the proposal. -/
theorem accountRiskSnapshot_grossNotional (a : Account) (t : Tables) (p : Proposal)
    (limits : RiskConfig) :
    (accountRiskSnapshot a t p limits).grossNotional = a.grossNotional t + p.notional := by
  show Totals.grossNotional (Totals.addProposal _ _ p) = _
  rw [Totals.grossNotional_addProposal, Totals.grossNotional_foldl]
  show (0 + 0 : ℚ) + a.grossNotional t + p.notional = _
  ring

/-- **What a snapshot lets through**, nothing else being in flight. -/
theorem accountRiskSnapshot_allowed {a : Account} {t : Tables} {p : Proposal} {limits : RiskConfig}
    (h : (accountRiskSnapshot a t p limits).allowed = true)
    (hlimit : 0 < (accountRiskSnapshot a t p limits).limits.maxGrossNotional) :
    a.grossNotional t + p.notional ≤
      (accountRiskSnapshot a t p limits).limits.maxGrossNotional + tolerance := by
  have hviolations : (accountRiskSnapshot a t p limits).violations = [] := of_decide_eq_true h
  rw [← accountRiskSnapshot_grossNotional a t p limits]
  by_contra hgt
  have hexceeds : Exceeds (accountRiskSnapshot a t p limits).grossNotional
      (accountRiskSnapshot a t p limits).limits.maxGrossNotional := ⟨hlimit, not_le.mp hgt⟩
  have hmem : "accountRisk.grossNotionalExceeded" ∈
      (accountRiskSnapshot a t p limits).violations := by
    have hpart : "accountRisk.grossNotionalExceeded" ∈
        (if Exceeds (accountRiskSnapshot a t p limits).grossNotional
            (accountRiskSnapshot a t p limits).limits.maxGrossNotional then
          ["accountRisk.grossNotionalExceeded"] else []) := by
      rw [if_pos hexceeds]
      exact List.mem_singleton_self _
    unfold accountRiskSnapshot
    dsimp only
    refine List.mem_append_left _ <| List.mem_append_left _ <| List.mem_append_left _ <|
      List.mem_append_left _ <| List.mem_append_left _ <| List.mem_append_right _ hpart
  rw [hviolations] at hmem
  cases hmem

end AlgoTrade.AccountRisk
