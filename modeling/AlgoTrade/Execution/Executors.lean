import AlgoTrade.Streams.Normalizers
import Mathlib.Tactic.Linarith

/-! # Order executors

`marketOrderExecute` and `limitThenMarketExecute` are the `execute` methods of
`MarketOrderExecutor` and `LimitThenMarketExecutor`.  A `Leg` is one order as the
adapter and the exchange play it: the answers the executor gets, and what the
exchange filled by the time `execute` returns.

* `limitThenMarketExecute_spec`: which orders are sent, whether the result says
  success, and the quantity it reports. -/

namespace AlgoTrade

/-- A call of the adapter returns or raises a `LiveTradingError`. -/
inductive Answer (α : Type)
  | returned (value : α)
  | raised (error : String)
  deriving DecidableEq, Repr

def Answer.hasRaised {α : Type} : Answer α → Bool
  | .returned _ => false
  | .raised _ => true

structure LiveOrderResult where
  exchangeId : String := ""
  exchangeOrderId : String := ""
  filled : ℚ := 0
  avgPrice : ℚ := 0
  deriving DecidableEq, Repr

structure FillSnapshot where
  filledQty : ℚ
  avgPrice : ℚ := 0
  status : String := ""
  feesByCcy : Fees := []
  deriving DecidableEq, Repr

structure OrderIntent where
  quantity : ℚ
  price : ℚ := 0
  clientOrderId : String := ""
  fallbackClientOrderId : String := ""
  deriving DecidableEq, Repr

/-- `OrderExecutionResult`; the raw payloads are left out. -/
structure OrderExecutionResult where
  success : Bool
  exchangeId : String := ""
  exchangeOrderId : String := ""
  filledQty : ℚ := 0
  avgPrice : ℚ := 0
  status : String := ""
  error : String := ""
  feesByCcy : Fees := []
  deriving DecidableEq, Repr

namespace OrderExecutionResult

def fromLiveOrder (result : LiveOrderResult) (status : String) : OrderExecutionResult where
  success := true
  exchangeId := result.exchangeId
  exchangeOrderId := result.exchangeOrderId
  filledQty := result.filled
  avgPrice := result.avgPrice
  status := status

def rejected (error : String) : OrderExecutionResult where
  success := false
  status := "rejected"
  error := textOr error "order rejected"

end OrderExecutionResult

/-! ## The adapter and the exchange -/

/-- One order: the placement's answer, the answer of `wait_for_fill`, and the
quantity filled and whether the order still works when `execute` returns.  The
answers never report more than was filled. -/
structure Leg where
  place : Answer LiveOrderResult
  wait : Answer (Option FillSnapshot)
  filled : ℚ
  working : Bool
  filled_nonneg : 0 ≤ filled
  place_le : ∀ r, place = .returned r → r.filled ≤ filled
  wait_le : ∀ s, wait = .returned (some s) → s.filledQty ≤ filled

/-- An adapter's behaviour over one `execute`: its limit order, the answer of
`cancel_order`, and its market order, whose fill no quantity bounds (a spot buy
may be sized by a quote amount). -/
structure AdapterRun where
  limit : Leg
  cancel : Answer Unit
  market : Leg

namespace Leg

def raises (leg : Leg) : Bool := leg.place.hasRaised || leg.wait.hasRaised

/-- The snapshot `wait_for_fill` returned. -/
def snapshot (leg : Leg) : Option FillSnapshot :=
  match leg.wait with
  | .returned fill => fill
  | .raised _ => none

/-- `fill.filled_qty if fill else 0.0`. -/
def limitReported (leg : Leg) : ℚ := (leg.snapshot.map FillSnapshot.filledQty).getD 0

/-- `fill.filled_qty or result.filled`, or `result.filled` without a snapshot. -/
def marketReported (leg : Leg) : ℚ :=
  match leg.place with
  | .raised _ => 0
  | .returned result =>
    match leg.snapshot with
    | none => result.filled
    | some fill => orElse fill.filledQty result.filled

/-- Nothing was filled and nothing works. -/
def Dead (leg : Leg) : Prop := leg.filled = 0 ∧ leg.working = false

end Leg

/-! ## Executors -/

/-- `MarketOrderExecutor.execute`. -/
def marketOrderExecute (leg : Leg) : OrderExecutionResult :=
  match leg.place with
  | .raised error => .rejected error
  | .returned result =>
    match leg.wait with
    | .raised error => .rejected error
    | .returned none => .fromLiveOrder result (if 0 < result.filled then "filled" else "submitted")
    | .returned (some fill) => {
        success := true
        exchangeId := result.exchangeId
        exchangeOrderId := result.exchangeOrderId
        filledQty := orElse fill.filledQty result.filled
        avgPrice := orElse fill.avgPrice result.avgPrice
        status := textOr fill.status "submitted"
        feesByCcy := fill.feesByCcy }

/-- `_is_complete`. -/
def isComplete (fill : Option FillSnapshot) (requestedQty : ℚ) : Bool :=
  match fill with
  | none => false
  | some fill =>
    stripLower fill.status ∈ ["filled", "closed", "complete"] ∨
      (0 < requestedQty ∧ requestedQty * (999999 / 1000000) ≤ fill.filledQty)

/-- `_weighted_avg`. -/
def weightedAvg (fills : List (ℚ × ℚ)) : ℚ :=
  let totalQty := (fills.map fun f => max 0 f.1).sum
  let notional := (fills.map fun f => max 0 f.1 * max 0 f.2).sum
  if totalQty ≤ 0 ∨ notional ≤ 0 then 0 else notional / totalQty

/-- `_merge_fee_breakdowns`. -/
def mergeFeeBreakdowns (items : List Fees) : Fees :=
  (items.flatten.filter fun fee => fee.2 ≠ 0).foldl
    (fun merged fee => addFee merged (textOr (stripLower fee.1).toUpper "UNKNOWN", |fee.2|)) []

/-- What one `execute` did: its result and the orders it sent. -/
structure Execution where
  result : OrderExecutionResult
  limitSent : Option OrderIntent := none
  marketSent : Option OrderIntent := none
  deriving DecidableEq, Repr

/-- The result for the limit order alone. -/
def limitResult (result : LiveOrderResult) (fill : Option FillSnapshot) (status : String) :
    OrderExecutionResult where
  success := true
  exchangeId := result.exchangeId
  exchangeOrderId := result.exchangeOrderId
  filledQty := (fill.map FillSnapshot.filledQty).getD 0
  avgPrice := (fill.map FillSnapshot.avgPrice).getD 0
  status := textOr ((fill.map FillSnapshot.status).getD "") status
  feesByCcy := (fill.map FillSnapshot.feesByCcy).getD []

/-- The market order for what the limit order left. -/
def marketIntent (intent : OrderIntent) (remainingQty : ℚ) : OrderIntent where
  quantity := remainingQty
  price := 0
  clientOrderId := textOr intent.fallbackClientOrderId intent.clientOrderId
  fallbackClientOrderId := intent.fallbackClientOrderId

/-- The result of a limit order and a market order. -/
def mergedResult (result : LiveOrderResult) (fill : Option FillSnapshot)
    (market : OrderExecutionResult) : OrderExecutionResult :=
  let limitFilled := (fill.map FillSnapshot.filledQty).getD 0
  let limitAvg := (fill.map FillSnapshot.avgPrice).getD 0
  { success := market.success
    exchangeId := textOr market.exchangeId result.exchangeId
    exchangeOrderId := textOr market.exchangeOrderId result.exchangeOrderId
    filledQty := limitFilled + market.filledQty
    avgPrice := weightedAvg [(limitFilled, limitAvg), (market.filledQty, market.avgPrice)]
    status := textOr market.status "submitted"
    error := market.error
    feesByCcy :=
      mergeFeeBreakdowns [(fill.map FillSnapshot.feesByCcy).getD [], market.feesByCcy] }

/-- `LimitThenMarketExecutor.execute`. -/
def limitThenMarketExecute (fallbackToMarket : Bool) (run : AdapterRun) (intent : OrderIntent) :
    Execution :=
  if intent.price ≤ 0 then ⟨marketOrderExecute run.market, none, some intent⟩
  else
    match run.limit.place with
    | .raised error => ⟨.rejected error, some intent, none⟩
    | .returned result =>
      match run.limit.wait with
      | .raised error => ⟨.rejected error, some intent, none⟩
      | .returned fill =>
        if isComplete fill intent.quantity then
          ⟨limitResult result fill "filled", some intent, none⟩
        else if ¬ fallbackToMarket then ⟨limitResult result fill "submitted", some intent, none⟩
        else
          match run.cancel with
          | .raised error => ⟨.rejected error, some intent, none⟩
          | .returned _ =>
            let remainingQty := max 0 (intent.quantity - (fill.map FillSnapshot.filledQty).getD 0)
            if remainingQty ≤ 0 then ⟨limitResult result fill "submitted", some intent, none⟩
            else
              ⟨mergedResult result fill (marketOrderExecute run.market), some intent,
                some (marketIntent intent remainingQty)⟩

/-! ## What an execution does -/

/-- The limit order is waited for and then cancelled. -/
def cancels (fallbackToMarket : Bool) (run : AdapterRun) (intent : OrderIntent) : Bool :=
  0 < intent.price ∧ ¬ run.limit.raises ∧ ¬ isComplete run.limit.snapshot intent.quantity ∧
    fallbackToMarket

/-- The market order is sent: at once without a price, else for what the
snapshot of the limit order leaves. -/
def crosses (fallbackToMarket : Bool) (run : AdapterRun) (intent : OrderIntent) : Bool :=
  intent.price ≤ 0 ∨
    (cancels fallbackToMarket run intent ∧ ¬ run.cancel.hasRaised ∧
      run.limit.limitReported < intent.quantity)

/-- Some call raises. -/
def callRaises (fallbackToMarket : Bool) (run : AdapterRun) (intent : OrderIntent) : Bool :=
  (0 < intent.price ∧ run.limit.raises) ∨
    (cancels fallbackToMarket run intent ∧ run.cancel.hasRaised) ∨
    (crosses fallbackToMarket run intent ∧ run.market.raises)

theorem marketOrderExecute_success (leg : Leg) :
    (marketOrderExecute leg).success = !leg.raises := by
  unfold marketOrderExecute Leg.raises
  cases leg.place with
  | raised error => rfl
  | returned result =>
    rcases leg.wait with (_ | fill) | error <;> rfl

theorem marketOrderExecute_reported {leg : Leg} (h : leg.raises = false) :
    (marketOrderExecute leg).filledQty = leg.marketReported := by
  unfold Leg.raises at h
  unfold marketOrderExecute Leg.marketReported Leg.snapshot
  cases hp : leg.place with
  | raised error => simp [hp, Answer.hasRaised] at h
  | returned result =>
    rcases hw : leg.wait with (_ | fill) | error
    · rfl
    · rfl
    · simp [hw, Answer.hasRaised] at h

/-- Which orders an execution sends, whether its result says success, and the
quantity it then reports. -/
structure Executed (fallbackToMarket : Bool) (run : AdapterRun) (intent : OrderIntent)
    (x : Execution) : Prop where
  limitSent : x.limitSent.isSome = decide (0 < intent.price)
  marketSent : x.marketSent.isSome = crosses fallbackToMarket run intent
  success : x.result.success = !callRaises fallbackToMarket run intent
  reported : callRaises fallbackToMarket run intent = false →
    x.result.filledQty = (if 0 < intent.price then run.limit.limitReported else 0) +
      if crosses fallbackToMarket run intent then run.market.marketReported else 0

section
variable {fallbackToMarket : Bool} {run : AdapterRun} {intent : OrderIntent}

/-- Without a price only the market order is sent. -/
theorem executed_marketOnly (hprice : intent.price ≤ 0) :
    Executed fallbackToMarket run intent ⟨marketOrderExecute run.market, none, some intent⟩ := by
  have hnot : ¬ 0 < intent.price := not_lt.mpr hprice
  have hcross : crosses fallbackToMarket run intent = true := by simp [crosses, hprice]
  have hraise : callRaises fallbackToMarket run intent = run.market.raises := by
    simp [callRaises, cancels, hcross, hnot]
  refine ⟨by simp [hnot], hcross.symm, ?_, fun h => ?_⟩
  · rw [hraise]
    exact marketOrderExecute_success _
  · rw [if_neg hnot, if_pos hcross, zero_add]
    exact marketOrderExecute_reported (hraise ▸ h)

/-- The execution ends with the limit order when it is not cancelled. -/
theorem executed_uncancelled (hpos : 0 < intent.price) {r : OrderExecutionResult}
    (hcancels : cancels fallbackToMarket run intent = false)
    (hsuccess : r.success = !run.limit.raises)
    (hreported : run.limit.raises = false → r.filledQty = run.limit.limitReported) :
    Executed fallbackToMarket run intent ⟨r, some intent, none⟩ := by
  have hcross : crosses fallbackToMarket run intent = false := by
    simp [crosses, not_le.mpr hpos, hcancels]
  have hraise : callRaises fallbackToMarket run intent = run.limit.raises := by
    simp [callRaises, hpos, hcancels, hcross]
  refine ⟨by simp [hpos], hcross.symm, hraise ▸ hsuccess, fun h => ?_⟩
  rw [if_pos hpos, if_neg (by simp [hcross]), add_zero]
  exact hreported (hraise ▸ h)

/-- The cancel raises. -/
theorem executed_cancelRaised (hpos : 0 < intent.price) {error : String}
    (hcancels : cancels fallbackToMarket run intent = true) (hcancel : run.cancel.hasRaised = true) :
    Executed fallbackToMarket run intent ⟨.rejected error, some intent, none⟩ := by
  have hcross : crosses fallbackToMarket run intent = false := by
    simp [crosses, not_le.mpr hpos, hcancel]
  have hraise : callRaises fallbackToMarket run intent = true := by
    simp [callRaises, hcancels, hcancel]
  exact ⟨by simp [hpos], hcross.symm, by rw [hraise]; rfl, by simp [hraise]⟩

/-- After the cancel the snapshot leaves nothing for the market. -/
theorem executed_nothingLeft (hpos : 0 < intent.price) {r : OrderExecutionResult}
    (hraises : run.limit.raises = false) (hcancel : run.cancel.hasRaised = false)
    (hleft : ¬ run.limit.limitReported < intent.quantity) (hsuccess : r.success = true)
    (hreported : r.filledQty = run.limit.limitReported) :
    Executed fallbackToMarket run intent ⟨r, some intent, none⟩ := by
  have hcross : crosses fallbackToMarket run intent = false := by
    simp [crosses, not_le.mpr hpos, hleft]
  have hraise : callRaises fallbackToMarket run intent = false := by
    simp [callRaises, hraises, hcancel, hcross]
  refine ⟨by simp [hpos], hcross.symm, by rw [hraise]; exact hsuccess, fun _ => ?_⟩
  rw [if_pos hpos, if_neg (by simp [hcross]), add_zero]
  exact hreported

/-- After the cancel the market order is sent for what the snapshot leaves. -/
theorem executed_crossed (hpos : 0 < intent.price) (result : LiveOrderResult) (m : OrderIntent)
    (hcancels : cancels fallbackToMarket run intent = true) (hcancel : run.cancel.hasRaised = false)
    (hleft : run.limit.limitReported < intent.quantity) :
    Executed fallbackToMarket run intent
      ⟨mergedResult result run.limit.snapshot (marketOrderExecute run.market), some intent,
        some m⟩ := by
  have hraises : run.limit.raises = false := by
    simp only [cancels, decide_eq_true_eq] at hcancels
    simpa using hcancels.2.1
  have hcross : crosses fallbackToMarket run intent = true := by
    simp [crosses, hcancels, hcancel, hleft]
  have hraise : callRaises fallbackToMarket run intent = run.market.raises := by
    simp [callRaises, hraises, hcancel, hcross]
  refine ⟨by simp [hpos], hcross.symm, ?_, fun h => ?_⟩
  · rw [hraise]
    exact marketOrderExecute_success _
  · rw [if_pos hpos, if_pos hcross, ← marketOrderExecute_reported (hraise ▸ h)]
    rfl

end

/-- What `execute` does, for every behaviour of the adapter. -/
theorem limitThenMarketExecute_spec (fallbackToMarket : Bool) (run : AdapterRun)
    (intent : OrderIntent) :
    Executed fallbackToMarket run intent (limitThenMarketExecute fallbackToMarket run intent) := by
  unfold limitThenMarketExecute
  split
  next hprice => exact executed_marketOnly hprice
  next hprice =>
  have hpos : 0 < intent.price := not_le.mp hprice
  cases hplace : run.limit.place with
  | raised error =>
    have hraises : run.limit.raises = true := by simp [Leg.raises, hplace, Answer.hasRaised]
    exact executed_uncancelled hpos (by simp [cancels, hraises]) (by rw [hraises]; rfl)
      (by simp [hraises])
  | returned result =>
    cases hwait : run.limit.wait with
    | raised error =>
      have hraises : run.limit.raises = true := by simp [Leg.raises, hwait, Answer.hasRaised]
      exact executed_uncancelled hpos (by simp [cancels, hraises]) (by rw [hraises]; rfl)
        (by simp [hraises])
    | returned fill =>
      have hraises : run.limit.raises = false := by
        simp [Leg.raises, hplace, hwait, Answer.hasRaised]
      have hsnap : fill = run.limit.snapshot := by simp [Leg.snapshot, hwait]
      subst hsnap
      dsimp only
      split
      next hcomplete =>
        exact executed_uncancelled hpos (by simp [cancels, hcomplete]) (by rw [hraises]; rfl)
          fun _ => rfl
      next hcomplete =>
      split
      next hfall =>
        exact executed_uncancelled hpos (by simp [cancels, hfall]) (by rw [hraises]; rfl)
          fun _ => rfl
      next hfall =>
      have hcancels : cancels fallbackToMarket run intent = true := by
        simp [cancels, hpos, hraises, hcomplete, not_not.mp hfall]
      cases hcancel : run.cancel with
      | raised error =>
        exact executed_cancelRaised hpos hcancels (by rw [hcancel]; rfl)
      | returned _ =>
        have hreturned : run.cancel.hasRaised = false := by rw [hcancel]; rfl
        have hremaining : max 0 (intent.quantity - run.limit.limitReported) ≤ 0 ↔
            ¬ run.limit.limitReported < intent.quantity := by simp
        dsimp only
        split
        next hnone =>
          exact executed_nothingLeft hpos hraises hreturned (hremaining.mp hnone) rfl rfl
        next hsome =>
          exact executed_crossed hpos result _ hcancels hreturned
            (not_not.mp (mt hremaining.mpr hsome))

end AlgoTrade
