import AlgoTrade.Ledger.FillRecords

/-! # The pending order row and its reconciliation helpers

The row of `pending_orders` with the part of `exchange_response_json` that the
fill reconciliation reads back, and the pure helpers of `sent_order_recovery`,
`order_quantities` and `fee_reconciliation`. -/

namespace AlgoTrade

/-- Exchange status of an order after `normalize_live_order_status`, with the
two values the reconciliation itself writes. -/
inductive ExchangeStatus
  | filled | cancelled | partialFill | working | unknown | syncError | fillPriceMissing
  deriving DecidableEq, Repr

inductive QueueStatus
  | pending | processing | sent | syncing | filled | cancelled | failed
  deriving DecidableEq, Repr

/-- `dispatch_note` as far as `_claim_live_sent_order` tells notes apart. -/
inductive DispatchNote
  | blank | liveFillSyncing | liveFillSync (status : ExchangeStatus) | feeRetry | noFee
  deriving DecidableEq, Repr

/-- `live_fill_sync` of the stored response. -/
structure SyncState where
  trackedFilled : ℚ
  trackedAvgPrice : ℚ
  feesByCcy : Fees
  deriving DecidableEq, Repr

/-- `phases.executor.market_summary` of the stored response. -/
structure MarketSummary where
  exchangeOrderId : String
  filledQty : ℚ
  avgPrice : ℚ
  deriving DecidableEq, Repr

/-- `exchange_response_json`. -/
structure ExchangeResponse where
  liveFillSync : Option SyncState := none
  marketSummary : Option MarketSummary := none
  feesByCcy : Fees := []
  deriving DecidableEq, Repr

/-- A row of `pending_orders`. -/
structure PendingOrder where
  filled : ℚ
  avgPrice : ℚ
  status : QueueStatus
  dispatchNote : DispatchNote := .blank
  response : ExchangeResponse := {}
  deriving DecidableEq, Repr

/-- What stays fixed while the order lives: its payload and its venue. -/
structure OrderContext where
  orderId : Nat
  strategyId : ℤ
  symbol : String
  baseCurrency : String
  signal : SignalType
  market : MarketType
  exchangeId : String
  exchangeOrderId : String
  amount : ℚ
  deriving DecidableEq, Repr

/-- The order row, its trades and its position, and the events whose late fee
was projected (`qd_execution_fee_projections`). -/
structure OrderState where
  pending : PendingOrder
  ledger : Ledger
  feeProjections : List Nat := []
  deriving DecidableEq, Repr

/-- `ALPACA_FILL_DELTA_EPSILON`. -/
def alpacaFillDeltaEpsilon : ℚ := 1 / 10 ^ 8

/-- `tracked_fill_baseline`: the cumulative quantity and average already seen on
the tracked exchange order. -/
def trackedFillBaseline (p : PendingOrder) (exchangeOrderId : String)
    (previousFilled previousAvg : ℚ) : ℚ × ℚ :=
  match p.response.liveFillSync with
  | some sync => (max 0 sync.trackedFilled, max 0 sync.trackedAvgPrice)
  | none =>
    match p.response.marketSummary with
    | some m =>
      if m.exchangeOrderId = exchangeOrderId then (max 0 m.filledQty, max 0 m.avgPrice)
      else (max 0 previousFilled, max 0 previousAvg)
    | none => (max 0 previousFilled, max 0 previousAvg)

/-- `is_final_fill`. -/
def isFinalFill (requested filled avgPrice : ℚ) (status : ExchangeStatus) : Bool :=
  let requestedQty := max 0 requested
  let filledQty := max 0 filled
  if requestedQty ≤ 0 ∨ filledQty ≤ 0 ∨ avgPrice ≤ 0 then false
  else status == .filled || decide (requestedQty * (999999 / 10 ^ 6) ≤ filledQty)

/-- `reconciled_queue_status`, with the executable quantity of the venue. -/
def reconciledQueueStatus (executable filled avgPrice : ℚ) (status : ExchangeStatus) :
    QueueStatus :=
  if isFinalFill executable filled avgPrice status then .filled
  else if status = .cancelled then .cancelled
  else .sent

/-- `previous_fee_breakdown`. -/
def previousFeeBreakdown (p : PendingOrder) : Fees :=
  match p.response.liveFillSync with
  | some sync => sync.feesByCcy
  | none => p.response.feesByCcy

/-- `incremental_fees`. -/
def incrementalFees (cumulative previous : Fees) : Fees :=
  cumulative.filterMap fun (currency, amount) =>
    let change := amount - previous.get currency
    if 1 / 10 ^ 12 < |change| then some (currency, change) else none

/-- `fee_storage_values`; `_fee_storage` keeps the name of an unknown currency,
which no fee row of the stream has. -/
def feeStorageValues : Fees → ℚ × String
  | [] => (0, "")
  | [(currency, amount)] => (amount, if currency = "UNKNOWN" then "" else currency)
  | _ => (0, "MIXED")

/-- A trade row whose fee is still to be filled in. -/
def TradeRow.feeMissing (t : TradeRow) : Bool :=
  t.commission = 0 ∨ t.commissionQuote.getD 0 = 0

/-- `backfill_zero_commission_trades`: the cumulative fee is shared among the
rows without one, by value. -/
def backfillZeroCommissionTrades (feesByCcy : Fees) (commissionQuote : Option ℚ)
    (trades : List TradeRow) : List TradeRow :=
  if feesByCcy.isEmpty then trades
  else
    let (nativeTotal, ccy) := feeStorageValues feesByCcy
    let rows := trades.filter TradeRow.feeMissing
    let weight := fun t : TradeRow => max 0 (orElse t.value t.amount)
    let totalWeight := (rows.map weight).sum
    let ratio := fun t : TradeRow =>
      if totalWeight ≤ 0 then 1 / (rows.length : ℚ) else weight t / totalWeight
    trades.map fun t =>
      if t.feeMissing then
        { t with
          commission := if t.commission = 0 then nativeTotal * ratio t else t.commission
          commissionCcy := if t.commission = 0 then ccy else t.commissionCcy
          commissionQuote :=
            if t.commissionQuote.getD 0 = 0 then commissionQuote.map (· * ratio t)
            else t.commissionQuote }
      else t

/-- Filling in fees changes the fee columns only. -/
theorem map_backfill {β : Type} (f : TradeRow → β)
    (hf : ∀ (t : TradeRow) (c : ℚ) (ccy : String) (q : Option ℚ),
      f { t with commission := c, commissionCcy := ccy, commissionQuote := q } = f t)
    (fees : Fees) (quote : Option ℚ) (trades : List TradeRow) :
    (backfillZeroCommissionTrades fees quote trades).map f = trades.map f := by
  unfold backfillZeroCommissionTrades
  split
  · rfl
  · simp only [List.map_map]
    refine List.map_congr_left fun t _ => ?_
    simp only [Function.comp_apply]
    split
    · exact hf ..
    · rfl

theorem bookedTrades_backfill (fees : Fees) (quote : Option ℚ) (l : Ledger) :
    ({ l with trades := backfillZeroCommissionTrades fees quote l.trades } : Ledger).bookedTrades =
      l.bookedTrades := by
  simp only [Ledger.bookedTrades]
  rw [map_backfill _ fun _ _ _ _ => rfl]

theorem eventIds_backfill (fees : Fees) (quote : Option ℚ) (l : Ledger) :
    ({ l with trades := backfillZeroCommissionTrades fees quote l.trades } : Ledger).eventIds =
      l.eventIds :=
  map_backfill _ (fun _ _ _ _ => rfl) ..

/-- Without a stored snapshot the baseline is the row's own counter. -/
theorem trackedFillBaseline_blank {p : PendingOrder} {oid : String} {f a : ℚ}
    (h : p.response = {}) (hf : 0 ≤ f) : (trackedFillBaseline p oid f a).1 = f := by
  simp [trackedFillBaseline, h, hf]

end AlgoTrade
