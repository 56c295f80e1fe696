import AlgoTrade.Fills.PendingOrder

/-! # REST reconciliation of a sent order

`syncOneLiveSentOrder` is `_sync_one_live_sent_order`: claim the row, ask the
venue for the cumulative fill of the tracked order, book the increment over the
stored baseline and rewrite the row with a new snapshot.

* `booked_syncLedger`: a priced increment is booked in full on both sides.
* `syncOneLiveSentOrder_idle`: a call that sees no cumulative quantity changes
  neither the counter nor the ledger. -/

namespace AlgoTrade

/-- What the venue answers, with the two helpers that ask it again: the quote
value of fees (`fee_breakdown_to_quote`) and the executable size of a requested
quantity (`exchange_executable_base_quantity`). -/
structure SyncAnswer where
  cumulativeFilled : ℚ
  cumulativeAvg : ℚ
  exchangeStatus : ExchangeStatus
  fees : Fees := []
  feeToQuote : Fees → ℚ → Option ℚ := fun _ _ => none
  executable : ℚ → ℚ := id

/-- The `WHERE` of `_claim_live_sent_order`; `retryDue` is
`updated_at < NOW() - retry interval`. -/
def claimable (ctx : OrderContext) (retryDue : Bool) (s : OrderState) : Bool :=
  let p := s.pending
  (p.status = .sent
    ∨ (p.status = .filled ∧ p.filled ≤ 0 ∧ p.avgPrice ≤ 0)
    ∨ (p.status = .filled ∧ 0 < p.filled
        ∧ ((p.dispatchNote ≠ .noFee ∧ p.dispatchNote ≠ .feeRetry) ∨ retryDue)
        ∧ s.ledger.trades.any fun t => t.commissionQuote.getD 0 = 0))
  ∧ ctx.exchangeId ≠ "alpaca" ∧ ctx.exchangeOrderId ≠ ""

/-- `_claim_live_sent_order`. -/
def claimLiveSentOrder (s : OrderState) : OrderState :=
  { s with pending := { s.pending with status := .syncing, dispatchNote := .liveFillSyncing } }

/-- `_update_live_sent_order_snapshot`. -/
def updateLiveSentOrderSnapshot (status : QueueStatus) (note : DispatchNote) (filled avgPrice : ℚ)
    (response : ExchangeResponse) (s : OrderState) : OrderState :=
  { s with
    pending :=
      { status := status
        dispatchNote := note
        filled := filled
        avgPrice := avgPrice
        response := response } }

/-- The increment over the baseline of the tracked exchange order. -/
def syncDelta (ctx : OrderContext) (cumulativeFilled : ℚ) (p : PendingOrder) : ℚ :=
  max 0 cumulativeFilled -
    (trackedFillBaseline p ctx.exchangeOrderId (max 0 p.filled) (max 0 p.avgPrice)).1

/-- Average price of the increment: the difference of the notionals when both
ends are priced. -/
def deltaAvg (cumulativeFilled cumulativeAvg trackedFilled trackedAvg delta : ℚ) : ℚ :=
  let deltaNotional := cumulativeFilled * cumulativeAvg - trackedFilled * trackedAvg
  if (0 < trackedFilled ∧ 0 < trackedAvg) ∧ 0 < deltaNotional then deltaNotional / delta
  else cumulativeAvg

/-- Average price of the row once the increment is in. -/
def aggregateAvg (previousFilled previousAvg delta deltaAvg : ℚ) : ℚ :=
  if 0 < previousFilled ∧ 0 < previousAvg then
    (previousFilled * previousAvg + delta * deltaAvg) / (previousFilled + delta)
  else deltaAvg

/-- The fill `_sync_one_live_sent_order` hands to `persist_strategy_fill`. -/
def syncFill (ctx : OrderContext) (ans : SyncAnswer) (p : PendingOrder) : StrategyFill :=
  let cumulativeFilled := max 0 ans.cumulativeFilled
  let cumulativeAvg := max 0 ans.cumulativeAvg
  let tracked := trackedFillBaseline p ctx.exchangeOrderId (max 0 p.filled) (max 0 p.avgPrice)
  let delta := syncDelta ctx ans.cumulativeFilled p
  let avg := deltaAvg cumulativeFilled cumulativeAvg tracked.1 tracked.2 delta
  let feeDeltas := incrementalFees ans.fees (previousFeeBreakdown p)
  { signal := ctx.signal
    filled := delta
    avgPrice := avg
    commission := (feeStorageValues feeDeltas).1
    commissionCcy := (feeStorageValues feeDeltas).2
    commissionQuote := ans.feeToQuote feeDeltas avg }

/-- The ledger after the increment is booked and missing fees are filled in. -/
def syncLedger (ctx : OrderContext) (ans : SyncAnswer) (p : PendingOrder) (l : Ledger) : Ledger :=
  let cumulativeAvg := max 0 ans.cumulativeAvg
  let booked :=
    if alpacaFillDeltaEpsilon < syncDelta ctx ans.cumulativeFilled p ∧ 0 < cumulativeAvg then
      persistStrategyFill (syncFill ctx ans p) l
    else l
  if ¬ ans.fees.isEmpty ∧ 0 < cumulativeAvg then
    { booked with
      trades := backfillZeroCommissionTrades ans.fees (ans.feeToQuote ans.fees cumulativeAvg)
        booked.trades }
  else booked

/-- The row's new filled quantity and average. -/
def syncAggregate (ctx : OrderContext) (ans : SyncAnswer) (p : PendingOrder) : ℚ × ℚ :=
  let delta := syncDelta ctx ans.cumulativeFilled p
  if alpacaFillDeltaEpsilon < delta ∧ 0 < max 0 ans.cumulativeAvg then
    (max 0 p.filled + delta,
      aggregateAvg (max 0 p.filled) (max 0 p.avgPrice) delta (syncFill ctx ans p).avgPrice)
  else (max 0 p.filled, max 0 p.avgPrice)

/-- `_sync_one_live_sent_order` on a claimed row with the venue's answer. -/
def reconcile (ctx : OrderContext) (ans : SyncAnswer) (s : OrderState) : OrderState :=
  let p := s.pending
  let delta := syncDelta ctx ans.cumulativeFilled p
  let aggregate := syncAggregate ctx ans p
  let exchangeStatus :=
    if alpacaFillDeltaEpsilon < delta ∧ max 0 ans.cumulativeAvg ≤ 0 then .fillPriceMissing
    else ans.exchangeStatus
  let requestedQty := max 0 (orElse ctx.amount aggregate.1)
  let queueStatus :=
    reconciledQueueStatus (ans.executable requestedQty) aggregate.1 aggregate.2 exchangeStatus
  let note :=
    if queueStatus = .filled ∧ ans.fees.isEmpty ∧ delta ≤ alpacaFillDeltaEpsilon then
      DispatchNote.feeRetry
    else .liveFillSync exchangeStatus
  updateLiveSentOrderSnapshot queueStatus note aggregate.1 aggregate.2
    { liveFillSync := some
        { trackedFilled := max 0 ans.cumulativeFilled
          trackedAvgPrice := max 0 ans.cumulativeAvg
          feesByCcy := ans.fees } }
    { s with ledger := syncLedger ctx ans p s.ledger }

/-- `_sync_one_live_sent_order`; `none` is an answer that never came. -/
def syncOneLiveSentOrder (ctx : OrderContext) (retryDue : Bool) (ans : Option SyncAnswer)
    (s : OrderState) : OrderState :=
  if claimable ctx retryDue s then
    let claimed := claimLiveSentOrder s
    if ctx.strategyId ≤ 0 ∨ ctx.symbol = "" then
      { claimed with pending := { claimed.pending with status := .failed } }
    else
      match ans with
      | none =>
        updateLiveSentOrderSnapshot .sent (.liveFillSync .syncError) s.pending.filled
          s.pending.avgPrice {} claimed
      | some ans => reconcile ctx ans claimed
  else s

/-- The call claims the row and gets an answer, so that it sees the venue's
cumulative quantity. -/
def syncReads (ctx : OrderContext) (retryDue : Bool) (answer : Option SyncAnswer)
    (s : OrderState) : Bool :=
  claimable ctx retryDue s ∧ 0 < ctx.strategyId ∧ ctx.symbol ≠ "" ∧ answer.isSome

/-! ## Lemmas -/

theorem syncOneLiveSentOrder_reads {ctx : OrderContext} {retryDue : Bool} {ans : SyncAnswer}
    {s : OrderState} (h : syncReads ctx retryDue (some ans) s = true) :
    syncOneLiveSentOrder ctx retryDue (some ans) s = reconcile ctx ans (claimLiveSentOrder s) := by
  simp only [syncReads, decide_eq_true_eq] at h
  obtain ⟨hclaim, hsid, hsym, -⟩ := h
  have hctx : ¬ (ctx.strategyId ≤ 0 ∨ ctx.symbol = "") := not_or.mpr ⟨not_le.mpr hsid, hsym⟩
  simp only [syncOneLiveSentOrder, hclaim, if_true, hctx, if_false]

/-- A call that sees no cumulative quantity books nothing. -/
theorem syncOneLiveSentOrder_idle {ctx : OrderContext} {retryDue : Bool}
    {answer : Option SyncAnswer} {s : OrderState} (h : syncReads ctx retryDue answer s = false) :
    (syncOneLiveSentOrder ctx retryDue answer s).pending.filled = s.pending.filled ∧
      (syncOneLiveSentOrder ctx retryDue answer s).ledger = s.ledger := by
  unfold syncOneLiveSentOrder
  split
  · next hclaim =>
    dsimp only
    split
    · exact ⟨rfl, rfl⟩
    · next hctx =>
      cases answer with
      | none => exact ⟨rfl, rfl⟩
      | some ans =>
        obtain ⟨hsid, hsym⟩ := not_or.mp hctx
        simp [syncReads, hclaim, not_le.mp hsid, hsym] at h
  · exact ⟨rfl, rfl⟩

@[simp] theorem syncDelta_claim (ctx : OrderContext) (q : ℚ) (s : OrderState) :
    syncDelta ctx q (claimLiveSentOrder s).pending = syncDelta ctx q s.pending := rfl

theorem alpacaFillDeltaEpsilon_pos : 0 < alpacaFillDeltaEpsilon := by
  norm_num [alpacaFillDeltaEpsilon]

theorem fillEpsilon_lt_alpaca : fillEpsilon < alpacaFillDeltaEpsilon := by
  norm_num [alpacaFillDeltaEpsilon, fillEpsilon]

/-- A priced increment has a priced average. -/
theorem deltaAvg_pos {cf ca tf ta d : ℚ} (hca : 0 < ca) (hd : 0 < d) : 0 < deltaAvg cf ca tf ta d := by
  unfold deltaAvg
  dsimp only
  split
  · next h => exact div_pos h.2 hd
  · exact hca

/-- The row's counter after a reconciliation. -/
theorem pending_reconcile_filled (ctx : OrderContext) (ans : SyncAnswer) (s : OrderState) :
    (reconcile ctx ans s).pending.filled = (syncAggregate ctx ans s.pending).1 := rfl

theorem ledger_reconcile (ctx : OrderContext) (ans : SyncAnswer) (s : OrderState) :
    (reconcile ctx ans s).ledger = syncLedger ctx ans s.pending s.ledger := rfl

/-- REST trades carry no execution event. -/
theorem eventIds_syncLedger {ctx : OrderContext} {ans : SyncAnswer} {p : PendingOrder} {l : Ledger}
    {id : Nat} (h : id ∈ (syncLedger ctx ans p l).eventIds) : id = 0 ∨ id ∈ l.eventIds := by
  have hbooked : ∀ {b : Prop} [Decidable b],
      id ∈ (if b then persistStrategyFill (syncFill ctx ans p) l else l).eventIds →
        id = 0 ∨ id ∈ l.eventIds := by
    intro b _ hb
    split at hb
    · exact eventIds_persistStrategyFill hb
    · exact .inr hb
  unfold syncLedger at h
  dsimp only at h
  split at h
  · rw [eventIds_backfill] at h
    exact hbooked h
  · exact hbooked h

theorem syncLedger_unbooked (ctx : OrderContext) (ans : SyncAnswer) (p : PendingOrder)
    (l : Ledger) (h : ¬ (alpacaFillDeltaEpsilon < syncDelta ctx ans.cumulativeFilled p ∧
      0 < max 0 ans.cumulativeAvg)) :
    (syncLedger ctx ans p l).bookedPosition = l.bookedPosition ∧
      (syncLedger ctx ans p l).bookedTrades = l.bookedTrades := by
  simp only [syncLedger, h, if_false]
  split
  · exact ⟨rfl, bookedTrades_backfill _ _ _⟩
  · exact ⟨rfl, rfl⟩

/-- **Booking by REST.**  A priced increment above the threshold is booked in
full, on both sides. -/
theorem booked_syncLedger {ctx : OrderContext} {ans : SyncAnswer} {p : PendingOrder} {l : Ledger}
    (hd : alpacaFillDeltaEpsilon < syncDelta ctx ans.cumulativeFilled p)
    (hp : 0 < ans.cumulativeAvg) :
    (syncLedger ctx ans p l).bookedPosition =
        l.bookedPosition + syncDelta ctx ans.cumulativeFilled p ∧
      (syncLedger ctx ans p l).bookedTrades =
        l.bookedTrades + syncDelta ctx ans.cumulativeFilled p := by
  have hca : 0 < max 0 ans.cumulativeAvg := lt_max_of_lt_right hp
  have hbook := persistStrategyFill_booked (f := syncFill ctx ans p) (l := l)
    (fillEpsilon_lt_alpaca.trans hd) rfl
    (deltaAvg_pos hca (alpacaFillDeltaEpsilon_pos.trans hd)) (by simp [hasTradeOf, syncFill])
  simp only [syncLedger, hd, hca, and_self, if_true]
  split
  · exact ⟨hbook.2, by rw [bookedTrades_backfill]; exact hbook.1⟩
  · exact ⟨hbook.2, hbook.1⟩

theorem syncAggregate_unbooked {ctx : OrderContext} {ans : SyncAnswer} {p : PendingOrder}
    (h : ¬ (alpacaFillDeltaEpsilon < syncDelta ctx ans.cumulativeFilled p ∧
      0 < max 0 ans.cumulativeAvg)) : (syncAggregate ctx ans p).1 = max 0 p.filled := by
  simp only [syncAggregate, h, if_false]

theorem syncAggregate_booked {ctx : OrderContext} {ans : SyncAnswer} {p : PendingOrder}
    (hd : alpacaFillDeltaEpsilon < syncDelta ctx ans.cumulativeFilled p)
    (hp : 0 < ans.cumulativeAvg) :
    (syncAggregate ctx ans p).1 = max 0 p.filled + syncDelta ctx ans.cumulativeFilled p := by
  simp only [syncAggregate, hd, lt_max_of_lt_right hp, and_self, if_true]

end AlgoTrade
