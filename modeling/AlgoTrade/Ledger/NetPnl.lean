import AlgoTrade.Ledger.Replay
import AlgoTrade.Lib.Fifo
import AlgoTrade.Lib.Json
import AlgoTrade.Lib.Rounding
import Mathlib.Data.List.Infix
import Mathlib.Data.List.Sort
import Mathlib.Data.Prod.Lex

/-! # Net profit of trade rows

The commissions of opening trades, allocated to the exits that close them, and the
profit net of both commissions.

* `allocateOpenCommissionsFifo`: the walk over the rows of all legs.
* `enrichTradesNetPnl`, `netPnlForEquityStep`: what is written on the rows, and read
  off them again. -/

namespace AlgoTrade.NetPnl

open Fifo Replay
open Json (Scalar)
open Funding (normalizeStrategySymbol strip upper)

/-! ## Rows -/

abbrev Text := List Char

/-- A row of `qd_strategy_trades`. -/
structure TradeRow where
  /-- 0 when it has none. -/
  id : ℕ
  symbol : Symbol
  symbolCanonical : Symbol := []
  type : Text
  amount : ℚ
  commission : Scalar := .absent
  commissionQuote : Scalar := .absent
  profit : Option ℚ := none
  gridMatchedProfit : Option ℚ := none
  /-- In seconds. -/
  createdAt : ℤ

def lower (s : Text) : Text := s.map Char.toLower

/-- `is_exit_trade_type`. -/
def isExitTradeType (tradeType : Text) : Bool :=
  let t := lower (strip tradeType)
  "close_".toList <+: t ∨ "reduce_".toList <+: t

/-- `_leg_side`. -/
def legSide (tradeType : Text) : Option Side :=
  let t := lower (strip tradeType)
  if "long".toList <:+: t then some .long
  else if "short".toList <:+: t then some .short
  else none

namespace TradeRow

variable (row : TradeRow)

/-- `_symbol_key`. -/
def symbolKey : Symbol :=
  let raw := if row.symbolCanonical = [] then row.symbol else row.symbolCanonical
  if normalizeStrategySymbol raw = [] then upper (strip raw) else normalizeStrategySymbol raw

/-- `_sort_key`. -/
def sortKey : ℤ ×ₗ ℕ := toLex (row.createdAt, row.id)

/-- `_quote_commission`. -/
def quoteCommission : ℚ :=
  if row.commissionQuote.given then row.commissionQuote.asFloat else row.commission.asFloat

/-- The symbol and side a row opens or closes. -/
def leg : Option (Symbol × Side) := (legSide row.type).map fun side => (row.symbolKey, side)

def isExit : Bool := isExitTradeType row.type

end TradeRow

/-! ## Allocation -/

/-- What counts as nothing, and the decimals that are kept. -/
structure Tolerance where
  dust : ℚ
  round : ℚ → ℚ

/-- The tolerances of the source. -/
def Tolerance.stored : Tolerance := ⟨1 / 10 ^ 12, Rounding.roundTo 8⟩

def Tolerance.exact : Tolerance := ⟨0, id⟩

/-- The loop over the queue of one leg: the lots that are left, and what they cost. -/
def consume (dust : ℚ) : List (Lot ℚ) → ℚ → List (Lot ℚ) × ℚ
  | [], _ => ([], 0)
  | lot :: queue, closeQty =>
    if closeQty ≤ dust then (lot :: queue, 0)
    else if lot.amount ≤ dust then
      let rest := consume dust queue closeQty
      (lot :: rest.1, rest.2)
    else
      let take := min lot.amount closeQty
      let left : Lot ℚ := { lot with amount := lot.amount - take }
      if left.amount ≤ dust then
        let rest := consume dust queue (closeQty - take)
        (left :: rest.1, take * lot.unitCost + rest.2)
      else (left :: queue, take * lot.unitCost)

structure Allocation where
  lots : Dict (Symbol × Side) (List (Lot ℚ)) := {}
  /-- The commission of the opening trades, by the id of the exit. -/
  out : Dict ℕ ℚ := {}

/-- The queue of a leg. -/
def Allocation.queue (s : Allocation) (key : Symbol × Side) : List (Lot ℚ) :=
  (s.lots.get? key).getD []

/-- One row of the walk. -/
def Allocation.step (tol : Tolerance) (s : Allocation) (row : TradeRow) : Allocation :=
  match row.leg with
  | none => s
  | some key =>
    if row.isExit then
      match row.profit with
      | none => s
      | some _ =>
        let left := consume tol.dust (s.queue key) row.amount
        { lots := s.lots.set key (left.1.filter fun lot => tol.dust < lot.amount)
          out := if 0 < row.id then s.out.set row.id left.2 else s.out }
    else if tol.dust < row.amount then
      let perUnit := if 0 < row.amount then row.quoteCommission / row.amount else 0
      { s with lots := s.lots.set key (s.queue key ++ [⟨row.amount, perUnit⟩]) }
    else s

/-- The rows in the order of time. -/
def chronological (trades : List TradeRow) : List TradeRow :=
  trades.insertionSort fun a b => a.sortKey ≤ b.sortKey

/-- `allocate_open_commissions_fifo`. -/
def allocateOpenCommissionsFifo (tol : Tolerance) (trades : List TradeRow) : Dict ℕ ℚ :=
  ((chronological trades).foldl (Allocation.step tol) {}).out

/-! ## Enrichment -/

structure EnrichedRow extends TradeRow where
  profitGross : Option ℚ := none
  openCommissionAllocated : Option ℚ := none
  closeCommission : Option ℚ := none
  totalCommission : Option ℚ := none
  netPnl : Option ℚ := none

/-- What `enrich_trades_net_pnl` writes on a row. -/
def enrich (tol : Tolerance) (openMap : Dict ℕ ℚ) (row : TradeRow) : EnrichedRow :=
  match row.isExit, row.profit with
  | true, some gross =>
    let openComm := if 0 < row.id then (openMap.get? row.id).getD 0 else 0
    let closeComm := row.quoteCommission
    let net := gross - closeComm - openComm
    { row with
      profit := some (tol.round net)
      gridMatchedProfit := row.gridMatchedProfit.map fun matched =>
        if |matched - gross| ≤ max (1 / 10 ^ 8) (|gross| / 10 ^ 6) then tol.round net else matched
      profitGross := some gross
      openCommissionAllocated := some (tol.round openComm)
      closeCommission := some closeComm
      totalCommission := some (tol.round (closeComm + openComm))
      netPnl := some (tol.round net) }
  | _, _ => { row with }

/-- `enrich_trades_net_pnl`. -/
def enrichTradesNetPnl (tol : Tolerance) (trades : List TradeRow) : List EnrichedRow :=
  trades.map (enrich tol (allocateOpenCommissionsFifo tol trades))

/-- `net_realized_pnl`. -/
def netRealizedPnl (trade : EnrichedRow) (openCommission : ℚ) : Option ℚ :=
  trade.profit.map fun profit =>
    trade.profitGross.getD profit - trade.closeCommission.getD trade.quoteCommission -
      openCommission

/-- `net_pnl_for_equity_step`. -/
def netPnlForEquityStep (trade : EnrichedRow) : ℚ :=
  match trade.profit with
  | none => -trade.quoteCommission
  | some _ =>
    let openComm := trade.openCommissionAllocated.getD 0
    match trade.netPnl with
    | some net => net + openComm
    | none => (netRealizedPnl trade openComm).getD 0 + openComm

/-! ## The queue -/

/-- Without dust the loop takes the first units of the queue. -/
theorem consume_exact {lots : List (Lot ℚ)} (hlots : Positive lots) {closeQty : ℚ}
    (hqty : 0 ≤ closeQty) :
    ((consume 0 lots closeQty).1.filter fun lot => 0 < lot.amount) = drop lots closeQty ∧
      (consume 0 lots closeQty).2 = first lots closeQty := by
  have hkeep : ∀ {lots : List (Lot ℚ)}, Positive lots →
      lots.filter (fun lot => 0 < lot.amount) = lots := fun h =>
    List.filter_eq_self.mpr fun lot hlot => decide_eq_true (h lot hlot)
  induction lots generalizing closeQty with
  | nil => exact ⟨rfl, rfl⟩
  | cons lot lots ih =>
    have hlot := hlots lot List.mem_cons_self
    rw [consume]
    by_cases hnone : closeQty ≤ 0
    · obtain rfl := le_antisymm hnone hqty
      rw [if_pos le_rfl, drop_zero hlots, first_zero hlots]
      exact ⟨hkeep hlots, rfl⟩
    · rw [if_neg hnone, if_neg (not_le.mpr hlot), drop, first]
      dsimp only
      by_cases hpart : closeQty < lot.amount
      · rw [min_eq_right hpart.le, if_neg (not_le.mpr (sub_pos.mpr hpart)), if_pos hpart,
          if_pos hpart]
        dsimp only
        rw [List.filter_cons_of_pos (by simpa using hpart), hkeep hlots.tail]
        exact ⟨rfl, rfl⟩
      · have hall := not_lt.mp hpart
        obtain ⟨hdrop, hcost⟩ := ih hlots.tail (sub_nonneg.mpr hall)
        rw [min_eq_left hall, sub_self, if_pos le_rfl, if_neg hpart, if_neg hpart, hcost]
        dsimp only
        rw [List.filter_cons_of_neg (by simp), hdrop]
        exact ⟨rfl, rfl⟩

end AlgoTrade.NetPnl
