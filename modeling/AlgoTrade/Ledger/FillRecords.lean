import AlgoTrade.Ledger.Position
import Mathlib.Tactic.NormNum

/-! # Booking a fill: position first, then the trade row

`persistStrategyFill` is `persist_strategy_fill`.  It commits two transactions,
the position row (`bookPosition`) and then the trade row (`recordTrade`), and a
process can stop between them.  The third one, the runtime copy in
`strategy_order_fills`, is best effort and nothing here reads it.

* `persistStrategyFill_booked`: a fill with a quantity and a price adds its
  position quantity to the position and its quantity to the trades, once. -/

namespace AlgoTrade

inductive MarketType
  | spot | swap
  deriving DecidableEq, Repr

inductive Venue
  | binance | okx | bybit | bitget | gate | htx
  deriving DecidableEq, Repr

/-- Fees by currency, one entry a currency. -/
abbrev Fees := List (String × ℚ)

/-- `fees.get(currency, 0.0)`. -/
def Fees.get (fees : Fees) (currency : String) : ℚ :=
  (List.lookup currency fees).getD 0

/-- `spot_position_fill_quantity`, with the base currency of the symbol. -/
def spotPositionFillQuantity (market : MarketType) (base : String) (signal : SignalType)
    (grossQuantity : ℚ) (feesByCcy : Fees) : ℚ :=
  let gross := max 0 grossQuantity
  match market with
  | .swap => gross
  | .spot =>
    let baseFee := max 0 (feesByCcy.get base)
    match signal with
    | .openLong | .addLong => max 0 (gross - baseFee)
    | .closeLong | .reduceLong => gross + baseFee
    | _ => gross

/-- A row of `qd_strategy_trades` of the order under study. -/
structure TradeRow where
  amount : ℚ
  price : ℚ
  value : ℚ
  commission : ℚ
  commissionCcy : String
  commissionQuote : Option ℚ
  profit : Option ℚ
  executionEventId : Nat
  feeStatus : String
  feeSource : String
  deriving DecidableEq, Repr

/-- Positions and trades of one order. -/
structure Ledger where
  position : PositionLedger
  trades : List TradeRow
  deriving DecidableEq, Repr

/-- Total quantity booked into trades. -/
def Ledger.bookedTrades (l : Ledger) : ℚ := (l.trades.map TradeRow.amount).sum

/-- Total quantity booked into the local position. -/
def Ledger.bookedPosition (l : Ledger) : ℚ := l.position.applied

/-- The execution events the trade rows carry. -/
def Ledger.eventIds (l : Ledger) : List Nat := l.trades.map TradeRow.executionEventId

/-- The arguments of `persist_strategy_fill`. -/
structure StrategyFill where
  signal : SignalType
  filled : ℚ
  avgPrice : ℚ
  positionFilled : Option ℚ := none
  commission : ℚ := 0
  commissionCcy : String := ""
  commissionQuote : Option ℚ := none
  profit : Option ℚ := none
  executionEventId : Nat := 0
  feeStatus : String := "pending"
  feeSource : String := ""
  deriving DecidableEq, Repr

/-- Quantity at or below which `persist_strategy_fill` skips a fill. -/
def fillEpsilon : ℚ := 1 / 10 ^ 12

/-- The quantity the position row gets. -/
def StrategyFill.positionQty (f : StrategyFill) : ℚ := f.positionFilled.getD f.filled

/-- The transaction on the position row. -/
def bookPosition (f : StrategyFill) (l : Ledger) : Ledger :=
  { l with position := l.position.apply f.signal f.positionQty f.avgPrice }

/-- The trade row of a fill; the profit is the event's own or the one the
position row gave. -/
def tradeOf (f : StrategyFill) (profitOut : Option ℚ) : TradeRow where
  amount := f.filled
  price := f.avgPrice
  value := f.filled * f.avgPrice
  commission := f.commission
  commissionCcy := f.commissionCcy
  commissionQuote := f.commissionQuote
  profit := f.profit.orElse fun _ => profitOut
  executionEventId := f.executionEventId
  feeStatus := f.feeStatus
  feeSource := f.feeSource

/-- Some trade row carries this execution event. -/
def hasTradeOf (eventId : Nat) (trades : List TradeRow) : Bool :=
  0 < eventId && trades.any fun t => t.executionEventId == eventId

/-- `record_trade`: `ON CONFLICT (execution_event_id) WHERE execution_event_id > 0
DO NOTHING`. -/
def recordTrade (t : TradeRow) (l : Ledger) : Ledger :=
  if hasTradeOf t.executionEventId l.trades then l else { l with trades := l.trades ++ [t] }

/-- `persist_strategy_fill`. -/
def persistStrategyFill (f : StrategyFill) (l : Ledger) : Ledger :=
  if |f.filled| ≤ fillEpsilon then l
  else
    let profitOut :=
      (applyFillToLocalPosition f.signal f.positionQty f.avgPrice l.position.row).profit
    recordTrade (tradeOf f profitOut) (bookPosition f l)

@[simp] theorem trades_bookPosition (f : StrategyFill) (l : Ledger) :
    (bookPosition f l).trades = l.trades := rfl

theorem hasTradeOf_eq_false {id : Nat} {l : Ledger} (h : id ∉ l.eventIds) :
    hasTradeOf id l.trades = false := by
  simp only [hasTradeOf, Bool.and_eq_false_imp, List.any_eq_false, beq_iff_eq]
  rintro - t ht rfl
  exact h (List.mem_map_of_mem ht)

/-- A fill that is not dust works its position quantity into the row and appends
one trade row. -/
theorem persistStrategyFill_eq {f : StrategyFill} {l : Ledger} (hq : fillEpsilon < f.filled)
    (hid : hasTradeOf f.executionEventId l.trades = false) :
    ∃ profitOut, persistStrategyFill f l =
      { position := l.position.apply f.signal f.positionQty f.avgPrice
        trades := l.trades ++ [tradeOf f profitOut] } := by
  have habs : ¬ |f.filled| ≤ fillEpsilon := not_le.mpr (hq.trans_le (le_abs_self _))
  refine ⟨(applyFillToLocalPosition f.signal f.positionQty f.avgPrice l.position.row).profit, ?_⟩
  simp only [persistStrategyFill, habs, if_false]
  unfold recordTrade
  simp only [tradeOf, trades_bookPosition, hid, Bool.false_eq_true, if_false]
  rfl

theorem eventIds_recordTrade {t : TradeRow} {l : Ledger} {id : Nat}
    (h : id ∈ (recordTrade t l).eventIds) : id = t.executionEventId ∨ id ∈ l.eventIds := by
  unfold recordTrade at h
  split at h
  · exact .inr h
  · simp only [Ledger.eventIds, List.map_append, List.map_cons, List.map_nil, List.mem_append,
      List.mem_singleton] at h
    exact h.symm

theorem eventIds_persistStrategyFill {f : StrategyFill} {l : Ledger} {id : Nat}
    (h : id ∈ (persistStrategyFill f l).eventIds) : id = f.executionEventId ∨ id ∈ l.eventIds := by
  unfold persistStrategyFill at h
  split at h
  · exact .inr h
  · exact eventIds_recordTrade h

theorem fillEpsilon_pos : 0 < fillEpsilon := by
  norm_num [fillEpsilon]

/-- A fill that is not dust, has a price and no trade row yet is booked once on
both sides. -/
theorem persistStrategyFill_booked {f : StrategyFill} {l : Ledger} (hq : fillEpsilon < f.filled)
    (hpos : f.positionQty = f.filled) (hp : 0 < f.avgPrice)
    (hid : hasTradeOf f.executionEventId l.trades = false) :
    (persistStrategyFill f l).bookedTrades = l.bookedTrades + f.filled ∧
      (persistStrategyFill f l).bookedPosition = l.bookedPosition + f.filled := by
  obtain ⟨profitOut, heq⟩ := persistStrategyFill_eq hq hid
  have hpos' : 0 < f.positionQty := hpos ▸ fillEpsilon_pos.trans hq
  rw [heq]
  refine ⟨by simp [Ledger.bookedTrades, tradeOf], ?_⟩
  rw [← hpos]
  exact PositionLedger.applied_apply hpos' hp

/-- On a derivative the position moves by the gross quantity. -/
theorem spotPositionFillQuantity_swap {base : String} {signal : SignalType} {q : ℚ} {fees : Fees}
    (hq : 0 ≤ q) : spotPositionFillQuantity .swap base signal q fees = q :=
  max_eq_right hq

end AlgoTrade
