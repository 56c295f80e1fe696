import AlgoTrade.Ownership.ExitQuantity
import AlgoTrade.Streams.Normalizers

/-! # The size of a live order

What `_execute_live_order` makes of a pending order before it talks to the broker:
the flow it takes, and the quantity it submits.

* `sizeOrder`: the amount cut to the owned position, to the free balance and to the
  exchange's step size; a spot buy of some clients is sized in quote currency.
* `quantity_sizeOrder_le`: never more than the order asks for. -/

namespace AlgoTrade.Dispatch

open Ownership

inductive Side
  | buy | sell
  deriving DecidableEq, Repr

/-- The flows of `_execute_live_order`; `stock` is the one of the IBKR and Alpaca
clients. -/
inductive Mode
  | market | limit | limitThenMarket | stock
  deriving DecidableEq, Repr

/-- What a pending order, its payload and its client fix for all executions. -/
structure Order where
  amount : ℚ
  side : Side
  reduceOnly : Bool := false
  spot : Bool := false
  bitgetSwap : Bool := false
  /-- An IBKR or Alpaca client. -/
  stock : Bool := false
  /-- A Bitget or Gate spot client: its market buys are sized in quote currency. -/
  quoteClient : Bool := false
  /-- The adapter has `find_order_by_client_id`. -/
  looksUp : Bool := false
  orderMode : String := "market"
  executionAlgo : String := ""
  fallbackToMarket : Bool := true
  maxAttempts : ℕ := 10
  deriving DecidableEq, Repr

def resolveOrderMode (orderMode executionAlgo : String) : String :=
  if executionAlgo = "market" then "market"
  else if executionAlgo ∈ ["limit_then_market", "maker", "maker_then_market"] then
    "maker_then_market"
  else if executionAlgo = "limit" then "limit"
  else orderMode

namespace Order

def mode (o : Order) : Mode :=
  let executionAlgo := stripLower o.executionAlgo
  if o.stock then .stock
  else if executionAlgo = "limit" then .limit
  else if resolveOrderMode (stripLower o.orderMode) executionAlgo ∈
      ["maker", "limit", "limit_first", "maker_then_market"] then .limitThenMarket
  else .market

/-- The flows that keep the attempt ledger. -/
def ledgered (o : Order) : Bool := o.mode = .market ∨ o.mode = .stock

def buysInQuote (o : Order) : Bool := o.quoteClient ∧ o.spot ∧ o.side = .buy ∧ ¬ o.reduceOnly

/-- The order's quantity.  A close of amount zero is a close of what the strategy's
ledger holds. -/
def asked (o : Order) (ledgerSize : ℚ) : ℚ := if 0 < o.amount then o.amount else max 0 ledgerSize

end Order

/-! ## Sizing -/

/-- Flooring to an exchange's step size. -/
structure StepSize where
  floor : ℚ → ℚ
  floor_le : ∀ q, 0 ≤ q → floor q ≤ q

/-- What a resolution of a reduce-only quantity reads. -/
structure PositionReads where
  ledgerSize : ℚ
  exchangeSize : ℚ
  userId : ℕ := 0
  credentialId : ℕ := 0
  reservation : Option Reservation := none

def PositionReads.resolve (reads : PositionReads) (amount : ℚ) : ℚ :=
  (resolveReduceOnlyQuantity amount reads.ledgerSize reads.exchangeSize false reads.userId
    reads.credentialId reads.reservation).1

/-- What one execution reads to size its order; `none` where the read raises. -/
structure SizingReads where
  position : PositionReads := { ledgerSize := 0, exchangeSize := 0 }
  retry : Option PositionReads := none
  freeBase : Option ℚ := none
  closeSafety : ℚ := 1
  /-- The reference price, else the ticker's. -/
  price : ℚ := 0
  /-- What a unit costs when the broker gets the order. -/
  marketPrice : ℚ := 1
  baseStep : StepSize
  quoteStep : StepSize

/-- The quantity an execution intends, and the size of a quote-sized market buy in base
units at the price it was computed with. -/
structure Sized where
  quantity : ℚ := 0
  quote : Option ℚ := none
  marketPrice : ℚ := 1
  deriving DecidableEq, Repr

/-- `_close_safety_ratio`. -/
def closeSafetyRatio (v : ℚ) : ℚ := if v ≤ 0 ∨ 1 < v then 1 else v

def normalizeSpotBaseQuantity (step : StepSize) (quantity : ℚ) : ℚ :=
  if quantity ≤ 0 then 0 else step.floor quantity

def normalizeSpotQuoteAmount (step : StepSize) (quoteAmount : ℚ) : ℚ :=
  if quoteAmount ≤ 0 then 0 else step.floor quoteAmount

def clampSpotCloseQuantity (step : StepSize) (free ratio requestedQty : ℚ) : ℚ :=
  if requestedQty ≤ 0 then 0
  else
    let cap := if 0 < free then min requestedQty (free * ratio) else requestedQty
    max 0 (normalizeSpotBaseQuantity step cap)

/-- The quote amount of an opening spot buy. -/
def quoteAmount (reads : SizingReads) (baseQty : ℚ) : ℚ :=
  normalizeSpotQuoteAmount reads.quoteStep
    (if 0 < reads.price ∧ 0 < baseQty then baseQty * reads.price else 0)

/-- `market_buy_uses_quote`. -/
def marketBuyUsesQuote (o : Order) (reads : SizingReads) (baseQty : ℚ) : Bool :=
  o.buysInQuote ∧ 0 < quoteAmount reads baseQty

def prepareSpotLiveOrderSizes (o : Order) (reads : SizingReads) (baseQty : ℚ) : Sized :=
  if marketBuyUsesQuote o reads baseQty then
    { quantity := max 0 baseQty
      quote := some (quoteAmount reads baseQty / reads.price)
      marketPrice := reads.marketPrice }
  else
    { quantity := max 0 (normalizeSpotBaseQuantity reads.baseStep baseQty)
      marketPrice := reads.marketPrice }

/-- `exchange_executable_base_quantity` on a Bitget swap. -/
def exchangeExecutableBaseQuantity (step : StepSize) (requested : ℚ) : ℚ :=
  max 0 (step.floor (max 0 requested))

/-- A close that came out as nothing is resolved once more. -/
def retryClose (o : Order) (reads : SizingReads) (quantity : ℚ) : ℚ :=
  match reads.retry with
  | none => quantity
  | some position =>
    let amount := position.resolve o.amount
    if 0 < amount ∧ o.bitgetSwap then exchangeExecutableBaseQuantity reads.baseStep amount
    else amount

/-- The quantity before the spot rules. -/
def ownedQuantity (o : Order) (reads : SizingReads) : ℚ :=
  let resolved := if o.reduceOnly then reads.position.resolve o.amount else o.amount
  if o.reduceOnly ∧ o.spot ∧ o.side = .sell then
    match reads.freeBase with
    | none => resolved
    | some free =>
      clampSpotCloseQuantity reads.baseStep free (closeSafetyRatio reads.closeSafety) resolved
  else resolved

/-- The sizes after the spot rules. -/
def preparedSizes (o : Order) (reads : SizingReads) : Sized :=
  if o.spot then prepareSpotLiveOrderSizes o reads (ownedQuantity o reads)
  else { quantity := ownedQuantity o reads }

/-- The quantity after the step size of a Bitget swap. -/
def executableQuantity (o : Order) (reads : SizingReads) : ℚ :=
  if o.bitgetSwap then
    exchangeExecutableBaseQuantity reads.baseStep (preparedSizes o reads).quantity
  else (preparedSizes o reads).quantity

/-- The size of the order, or `none` when nothing is left of it. -/
def sizeOrder (o : Order) (reads : SizingReads) : Option Sized :=
  let prepared := preparedSizes o reads
  let executable := executableQuantity o reads
  let quantity :=
    if executable ≤ 0 ∧ o.reduceOnly ∧ prepared.quote = none then retryClose o reads executable
    else executable
  if quantity ≤ 0 ∧ prepared.quote = none then none else some { prepared with quantity := quantity }

/-- What a market order for `quantity` asks of the broker, in base units.  Without a
quote amount the quantity itself goes out as one. -/
def Sized.marketSize (o : Order) (sized : Sized) (quantity : ℚ) : ℚ :=
  if o.buysInQuote then sized.quote.getD (quantity / sized.marketPrice) else quantity

/-! ## Sizing never adds -/

section
variable {o : Order} {reads : SizingReads} {step : StepSize}

theorem normalizeSpotBaseQuantity_le {q : ℚ} : normalizeSpotBaseQuantity step q ≤ max 0 q := by
  unfold normalizeSpotBaseQuantity
  split
  next h => exact le_max_left ..
  next h => exact (step.floor_le q (not_le.mp h).le).trans (le_max_right ..)

theorem exchangeExecutableBaseQuantity_le {q : ℚ} :
    exchangeExecutableBaseQuantity step q ≤ max 0 q :=
  max_le (le_max_left ..) (step.floor_le _ (le_max_left ..))

theorem clampSpotCloseQuantity_le {free ratio q : ℚ} :
    clampSpotCloseQuantity step free ratio q ≤ max 0 q := by
  unfold clampSpotCloseQuantity
  split
  next h => exact le_max_left ..
  next h =>
    have hcap : (if 0 < free then min q (free * ratio) else q) ≤ q := by
      split
      · exact min_le_left ..
      · exact le_rfl
    exact max_le (le_max_left ..)
      (normalizeSpotBaseQuantity_le.trans (max_le_max le_rfl hcap))

theorem resolve_le (position : PositionReads) (amount : ℚ) :
    position.resolve amount ≤ if 0 < amount then amount else max 0 position.ledgerSize := by
  have hledger : (capByLedger amount position.ledgerSize false).1 ≤
      if 0 < amount then amount else max 0 position.ledgerSize := by
    unfold capByLedger
    grind
  have hexchange : ∀ x : ℚ × CloseMeta, (capByExchange false position.exchangeSize x).1 ≤ x.1 := by
    intro x
    unfold capByExchange
    grind
  have hprotected : ∀ protectedQty (x : ℚ × CloseMeta),
      (capByProtected protectedQty position.exchangeSize x).1 ≤ x.1 := by
    intro protectedQty x
    unfold capByProtected
    grind
  unfold PositionReads.resolve resolveReduceOnlyQuantity
  dsimp only
  split
  · exact (hprotected ..).trans ((hexchange _).trans hledger)
  · exact (hexchange _).trans hledger

/-- The larger of the two ledger sizes an execution may read. -/
def SizingReads.ledgerSize (reads : SizingReads) : ℚ :=
  max reads.position.ledgerSize ((reads.retry.map PositionReads.ledgerSize).getD 0)

theorem Order.asked_mono {a b : ℚ} (h : a ≤ b) : o.asked a ≤ o.asked b := by
  unfold Order.asked
  split
  · exact le_rfl
  · exact max_le_max le_rfl h

theorem Order.asked_nonneg {a : ℚ} : 0 ≤ o.asked a := by
  unfold Order.asked
  split
  next h => exact h.le
  next h => exact le_max_left ..

theorem Order.amount_le_asked {a : ℚ} : o.amount ≤ o.asked a := by
  unfold Order.asked
  split
  next h => exact le_rfl
  next h => exact (not_lt.mp h).trans (le_max_left ..)

theorem resolve_le_asked {position : PositionReads} {a : ℚ} (h : position.ledgerSize ≤ a) :
    position.resolve o.amount ≤ o.asked a :=
  (resolve_le position o.amount).trans (o.asked_mono h)

theorem ownedQuantity_le : ownedQuantity o reads ≤ o.asked reads.ledgerSize := by
  have hresolved : (if o.reduceOnly then reads.position.resolve o.amount else o.amount) ≤
      o.asked reads.ledgerSize := by
    split
    · exact resolve_le_asked (le_max_left ..)
    · exact o.amount_le_asked
  unfold ownedQuantity
  dsimp only
  split
  · split
    · exact hresolved
    · exact clampSpotCloseQuantity_le.trans (max_le o.asked_nonneg hresolved)
  · exact hresolved

theorem retryClose_le {quantity : ℚ} (h : quantity ≤ o.asked reads.ledgerSize) :
    retryClose o reads quantity ≤ o.asked reads.ledgerSize := by
  unfold retryClose
  cases hretry : reads.retry with
  | none => exact h
  | some position =>
    have hle : position.ledgerSize ≤ reads.ledgerSize := by
      simp [SizingReads.ledgerSize, hretry]
    have hresolve := resolve_le_asked (o := o) hle
    dsimp only
    split
    · exact exchangeExecutableBaseQuantity_le.trans (max_le o.asked_nonneg hresolve)
    · exact hresolve

theorem quantity_prepare_le {q : ℚ} : (prepareSpotLiveOrderSizes o reads q).quantity ≤ max 0 q := by
  unfold prepareSpotLiveOrderSizes
  split
  · exact le_rfl
  · exact max_le (le_max_left ..) normalizeSpotBaseQuantity_le

theorem quote_prepare_le {q v : ℚ} (h : (prepareSpotLiveOrderSizes o reads q).quote = some v) :
    v ≤ max 0 q := by
  unfold prepareSpotLiveOrderSizes at h
  split at h
  next huses =>
    simp only [marketBuyUsesQuote, decide_eq_true_eq] at huses
    obtain ⟨-, hpos⟩ := huses
    simp only [Option.some.injEq] at h
    subst h
    by_cases hreads : 0 < reads.price ∧ 0 < q
    · have hle : quoteAmount reads q ≤ q * reads.price := by
        have hnn : 0 < q * reads.price := mul_pos hreads.2 hreads.1
        simp only [quoteAmount, normalizeSpotQuoteAmount, hreads, and_self, if_true,
          if_neg (not_le.mpr hnn)]
        exact reads.quoteStep.floor_le _ hnn.le
      exact ((div_le_iff₀ hreads.1).mpr hle).trans (le_max_right ..)
    · simp [quoteAmount, normalizeSpotQuoteAmount, hreads] at hpos
  next huses => simp at h

theorem quantity_preparedSizes_le :
    (preparedSizes o reads).quantity ≤ o.asked reads.ledgerSize := by
  unfold preparedSizes
  split
  · exact quantity_prepare_le.trans (max_le o.asked_nonneg ownedQuantity_le)
  · exact ownedQuantity_le

theorem quote_sizeOrder {sized : Sized} (h : sizeOrder o reads = some sized) :
    sized.quote = (preparedSizes o reads).quote := by
  simp only [sizeOrder, Option.ite_none_left_eq_some, Option.some.injEq] at h
  rw [← h.2]

theorem executableQuantity_le : executableQuantity o reads ≤ o.asked reads.ledgerSize := by
  unfold executableQuantity
  split
  · exact exchangeExecutableBaseQuantity_le.trans
      (max_le o.asked_nonneg quantity_preparedSizes_le)
  · exact quantity_preparedSizes_le

/-- **Sizing never adds.** -/
theorem quantity_sizeOrder_le {sized : Sized} (h : sizeOrder o reads = some sized) :
    sized.quantity ≤ o.asked reads.ledgerSize := by
  simp only [sizeOrder, Option.ite_none_left_eq_some, Option.some.injEq] at h
  rw [← h.2]
  dsimp only
  split
  · exact retryClose_le executableQuantity_le
  · exact executableQuantity_le

theorem quote_sizeOrder_le {sized : Sized} {v : ℚ} (h : sizeOrder o reads = some sized)
    (hv : sized.quote = some v) : v ≤ o.asked reads.ledgerSize := by
  rw [quote_sizeOrder h, preparedSizes] at hv
  split at hv
  · exact (quote_prepare_le hv).trans (max_le o.asked_nonneg ownedQuantity_le)
  · simp at hv

/-- A buy whose quote amount could be computed is sized by it. -/
theorem quote_sizeOrder_isSome {sized : Sized} (h : sizeOrder o reads = some sized)
    (huses : marketBuyUsesQuote o reads (ownedQuantity o reads) = true) :
    sized.quote.isSome = true := by
  have hspot : o.spot = true := by
    simp only [marketBuyUsesQuote, Order.buysInQuote, decide_eq_true_eq] at huses
    exact huses.1.2.1
  rw [quote_sizeOrder h, preparedSizes, if_pos hspot, prepareSpotLiveOrderSizes, if_pos huses]
  rfl

end

end AlgoTrade.Dispatch
