import AlgoTrade.Fills.RestSync
import AlgoTrade.Fills.Exchange
import AlgoTrade.Lib.Runs

/-! # Two writers of one order's fills

The exchange fills the order; REST reconciliation and the private stream book
the fills, in any order of completed steps.  REST keeps its baseline in the
stored snapshot, the stream in the row's `filled` counter.

* `Consistent` is the invariant: counter, trades and position agree and stay
  between what a step has seen and what the exchange filled.
* `consistent_step`: a step that finds its own baseline current keeps it. -/

namespace AlgoTrade

open Runs

/-- The order, the exchange's fills, and the largest cumulative quantity a
completed step was shown. -/
structure FillWorld where
  order : OrderState
  exchange : Exchange := {}
  seen : ℚ := 0

/-- One step: a fill on the exchange, a REST reconciliation with the venue's
answer, or a stream event that reports the fill at `index`. -/
inductive FillStep
  | fill (quantity : ℚ)
  | rest (retryDue : Bool) (answer : Option SyncAnswer)
  | stream (index : Nat) (ev : ExecutionEvent)

/-- The venue answers with its current cumulative quantity. -/
def truthfulAnswer (w : FillWorld) : Option SyncAnswer → Bool
  | none => true
  | some ans => ans.cumulativeFilled = w.exchange.filled

/-- One completed step; a stream event that raised has not completed. -/
def fillStep (ctx : OrderContext) (w : FillWorld) : FillStep → Option FillWorld
  | .fill quantity =>
    if 0 < quantity then some { w with exchange := w.exchange.fill quantity } else none
  | .rest retryDue answer =>
    if truthfulAnswer w answer then
      some { w with
        order := syncOneLiveSentOrder ctx retryDue answer w.order
        seen :=
          if syncReads ctx retryDue answer w.order then max w.seen w.exchange.filled
          else w.seen }
    else none
  | .stream index ev =>
    let attempt := processPendingOrder ctx ev none w.order
    if w.exchange.reports index ev ∧ attempt.returned then
      some { w with
        order := attempt.state
        exchange := w.exchange.report index ev
        seen := if ev.cumulativeMode then max w.seen ev.cumulativeQuantity else w.seen }
    else none

/-- Nothing was booked twice, and nothing is missing once a step has seen the
whole cumulative quantity. -/
def ExactlyOnce (w : FillWorld) : Prop :=
  w.order.ledger.bookedTrades ≤ w.exchange.filled ∧
    w.order.ledger.bookedPosition ≤ w.exchange.filled ∧
    (w.seen = w.exchange.filled →
      w.order.ledger.bookedTrades = w.exchange.filled ∧
        w.order.ledger.bookedPosition = w.exchange.filled)

instance : DecidablePred ExactlyOnce := fun _ => inferInstanceAs (Decidable (_ ∧ _ ∧ (_ → _)))

/-- The order right after submission: whatever the executor already booked, it
booked on both sides and counted in the row. -/
structure Submitted (w : FillWorld) : Prop where
  positive : w.exchange.Positive
  filled_nonneg : 0 ≤ w.order.pending.filled
  filled_le : w.order.pending.filled ≤ w.exchange.filled
  trades : w.order.ledger.bookedTrades = w.order.pending.filled
  position : w.order.ledger.bookedPosition = w.order.pending.filled
  noEvents : ∀ id ∈ w.order.ledger.eventIds, id = 0
  unseen : w.seen = 0

/-- Where a REST reconciliation starts from the row's own counter: either the
row already holds all the exchange filled and the reconciliation finds nothing
to book, or its baseline is the row's counter and the increment is priced and
above the threshold. -/
def baselineCurrent (ctx : OrderContext) (ans : SyncAnswer) (w : FillWorld) : Prop :=
  let p := w.order.pending
  let baseline :=
    (trackedFillBaseline p ctx.exchangeOrderId (max 0 p.filled) (max 0 p.avgPrice)).1
  (p.filled = w.exchange.filled ∧
      (w.exchange.filled - baseline ≤ alpacaFillDeltaEpsilon ∨ ans.cumulativeAvg ≤ 0)) ∨
    (p.filled = baseline ∧ alpacaFillDeltaEpsilon < w.exchange.filled - baseline ∧
      0 < ans.cumulativeAvg)

/-- The step finds its own baseline current. -/
def StepCurrent (ctx : OrderContext) (w : FillWorld) : FillStep → Prop
  | .fill _ => True
  | .rest _ none => True
  | .rest retryDue (some ans) =>
    syncReads ctx retryDue (some ans) w.order → baselineCurrent ctx ans w
  | .stream _ ev =>
    let p := w.order.pending
    eventDelta ev p.filled = 0 ∨
      (booksFill ctx ev p ∧ (eventFill ctx ev p).positionQty = eventDelta ev p.filled ∧
        (¬ ev.cumulativeMode → p.filled + ev.quantity ≤ w.exchange.filled))

instance (ctx : OrderContext) (ans : SyncAnswer) (w : FillWorld) :
    Decidable (baselineCurrent ctx ans w) :=
  inferInstanceAs (Decidable (_ ∨ _))

instance (ctx : OrderContext) (w : FillWorld) : ∀ a, Decidable (StepCurrent ctx w a)
  | .fill _ => inferInstanceAs (Decidable True)
  | .rest _ none => inferInstanceAs (Decidable True)
  | .rest _ (some _) => inferInstanceAs (Decidable (_ → _))
  | .stream _ _ => inferInstanceAs (Decidable (_ ∨ _))

/-! ## The invariant -/

/-- The row's counter is what trades and position hold; it is at least what a
step has seen and at most what the exchange filled. -/
structure Consistent (w : FillWorld) : Prop where
  positive : w.exchange.Positive
  filled_nonneg : 0 ≤ w.order.pending.filled
  filled_le : w.order.pending.filled ≤ w.exchange.filled
  seen_le : w.seen ≤ w.order.pending.filled
  trades : w.order.ledger.bookedTrades = w.order.pending.filled
  position : w.order.ledger.bookedPosition = w.order.pending.filled
  events : ∀ id ∈ w.order.ledger.eventIds, id = 0 ∨ id ∈ w.exchange.keys

theorem Submitted.consistent {w : FillWorld} (h : Submitted w) : Consistent w where
  positive := h.positive
  filled_nonneg := h.filled_nonneg
  filled_le := h.filled_le
  seen_le := h.unseen ▸ h.filled_nonneg
  trades := h.trades
  position := h.position
  events id hid := .inl (h.noEvents id hid)

theorem Consistent.exactlyOnce {w : FillWorld} (h : Consistent w) : ExactlyOnce w := by
  refine ⟨h.trades ▸ h.filled_le, h.position ▸ h.filled_le, fun hseen => ?_⟩
  have : w.order.pending.filled = w.exchange.filled :=
    le_antisymm h.filled_le (hseen ▸ h.seen_le)
  exact ⟨h.trades.trans this, h.position.trans this⟩

/-- A fresh event key has no trade row. -/
theorem Consistent.no_trade {w : FillWorld} (h : Consistent w) {id : Nat} (hid : id ∉ w.exchange.keys)
    (hpos : 0 < id) : hasTradeOf id w.order.ledger.trades = false := by
  refine hasTradeOf_eq_false fun hmem => ?_
  rcases h.events id hmem with h0 | hk
  · omega
  · exact hid hk

/-! ## One step -/

theorem consistent_fill {w : FillWorld} {q : ℚ} (h : Consistent w) (hq : 0 < q) :
    Consistent { w with exchange := w.exchange.fill q } where
  positive := h.positive.fill hq
  filled_nonneg := h.filled_nonneg
  filled_le := by
    have := h.filled_le
    simp only [Exchange.filled_fill]
    linarith
  seen_le := h.seen_le
  trades := h.trades
  position := h.position
  events := h.events

/-- What a reconciliation with a current baseline leaves: the counter, the
trades and the position at the exchange's cumulative quantity. -/
theorem reconcile_current {ctx : OrderContext} {ans : SyncAnswer} {w : FillWorld}
    (h : Consistent w) (hans : ans.cumulativeFilled = w.exchange.filled)
    (hcur : baselineCurrent ctx ans w) :
    let s' := reconcile ctx ans (claimLiveSentOrder w.order)
    s'.pending.filled = w.exchange.filled ∧ s'.ledger.bookedTrades = w.exchange.filled ∧
      s'.ledger.bookedPosition = w.exchange.filled := by
  have hF : max 0 w.order.pending.filled = w.order.pending.filled := max_eq_right h.filled_nonneg
  have hE : max 0 ans.cumulativeFilled = w.exchange.filled := by
    rw [hans]
    exact max_eq_right h.positive.filled_nonneg
  have hpending : (claimLiveSentOrder w.order).pending.filled = w.order.pending.filled := rfl
  have hledger : (claimLiveSentOrder w.order).ledger = w.order.ledger := rfl
  dsimp only
  rw [pending_reconcile_filled, ledger_reconcile, hledger]
  unfold baselineCurrent at hcur
  dsimp only at hcur
  rcases hcur with ⟨hfull, hidle⟩ | ⟨hbase, hdelta, hprice⟩
  · -- nothing is booked, and the row already holds everything
    have hnot : ¬ (alpacaFillDeltaEpsilon <
        syncDelta ctx ans.cumulativeFilled (claimLiveSentOrder w.order).pending ∧
          0 < max 0 ans.cumulativeAvg) := by
      rintro ⟨hd, ha⟩
      rw [syncDelta_claim, syncDelta, hE] at hd
      rcases hidle with hsmall | hunpriced
      · linarith
      · rw [max_eq_left hunpriced] at ha
        exact lt_irrefl _ ha
    obtain ⟨hpos, htr⟩ := syncLedger_unbooked ctx ans _ w.order.ledger hnot
    refine ⟨?_, htr.trans (h.trades.trans hfull), hpos.trans (h.position.trans hfull)⟩
    rw [syncAggregate_unbooked hnot, hpending, hF, hfull]
  · have hd : syncDelta ctx ans.cumulativeFilled (claimLiveSentOrder w.order).pending =
        w.exchange.filled - w.order.pending.filled := by
      rw [syncDelta_claim, syncDelta, hE, ← hbase]
    have hlt : alpacaFillDeltaEpsilon <
        syncDelta ctx ans.cumulativeFilled (claimLiveSentOrder w.order).pending := by
      rw [hd]
      linarith
    obtain ⟨hpos, htr⟩ := booked_syncLedger (l := w.order.ledger) hlt hprice
    refine ⟨?_, ?_, ?_⟩
    · rw [syncAggregate_booked hlt hprice, hd, hpending, hF]
      ring
    · rw [htr, hd, h.trades]
      ring
    · rw [hpos, hd, h.position]
      ring

theorem consistent_rest {ctx : OrderContext} {retryDue : Bool} {answer : Option SyncAnswer}
    {w w' : FillWorld} (h : Consistent w) (hok : StepCurrent ctx w (.rest retryDue answer))
    (hs : fillStep ctx w (.rest retryDue answer) = some w') : Consistent w' := by
  simp only [fillStep, Option.ite_none_right_eq_some, Option.some.injEq] at hs
  obtain ⟨htruth, rfl⟩ := hs
  cases hread : syncReads ctx retryDue answer w.order with
  | false =>
    obtain ⟨hfilled, hledger⟩ := syncOneLiveSentOrder_idle hread
    constructor <;> simp only [hfilled, hledger, Bool.false_eq_true, if_false]
    exacts [h.positive, h.filled_nonneg, h.filled_le, h.seen_le, h.trades, h.position, h.events]
  | true =>
    obtain ⟨ans, rfl⟩ : ∃ ans, answer = some ans := by
      simp only [syncReads, decide_eq_true_eq] at hread
      exact Option.isSome_iff_exists.mp hread.2.2.2
    have hans : ans.cumulativeFilled = w.exchange.filled := by simpa [truthfulAnswer] using htruth
    obtain ⟨hfilled, htrades, hposition⟩ := reconcile_current h hans (hok hread)
    rw [← syncOneLiveSentOrder_reads hread] at hfilled htrades hposition
    refine ⟨h.positive, ?_, ?_, ?_, htrades.trans hfilled.symm, hposition.trans hfilled.symm, ?_⟩
    · exact hfilled.symm ▸ h.positive.filled_nonneg
    · exact hfilled.le
    · simp only [if_true, hfilled]
      exact max_le (h.seen_le.trans h.filled_le) le_rfl
    · intro id hid
      simp only [syncOneLiveSentOrder_reads hread, ledger_reconcile] at hid
      rcases eventIds_syncLedger hid with h0 | hid
      · exact .inl h0
      · exact h.events id hid

theorem consistent_stream {ctx : OrderContext} {index : Nat} {ev : ExecutionEvent}
    {w w' : FillWorld} (h : Consistent w) (hok : StepCurrent ctx w (.stream index ev))
    (hs : fillStep ctx w (.stream index ev) = some w') : Consistent w' := by
  simp only [fillStep, Option.ite_none_right_eq_some, Option.some.injEq] at hs
  obtain ⟨⟨hrep, -⟩, rfl⟩ := hs
  obtain ⟨hidpos, hkey⟩ := Exchange.reports_key hrep
  have hnew := eventDelta_nonneg ev w.order.pending.filled
  have hfilled : (processPendingOrder ctx ev none w.order).state.pending.filled =
      w.order.pending.filled + eventDelta ev w.order.pending.filled := by
    simp only [processPendingOrder, pending_projectBooking, filled_projectRow]
  -- the counter stays at or below what the exchange filled
  have hle : w.order.pending.filled + eventDelta ev w.order.pending.filled ≤ w.exchange.filled := by
    cases hmode : ev.cumulativeMode with
    | true =>
      rw [eventDelta_cumulative hmode]
      exact max_le h.filled_le (Exchange.reports_cumulative h.positive hrep hmode)
    | false =>
      rcases hok with hzero | ⟨-, -, hroom⟩
      · rw [hzero, add_zero]
        exact h.filled_le
      · have hq := Exchange.reports_incremental h.positive hrep hmode
        rw [eventDelta_incremental hmode, max_eq_right hq.le]
        exact hroom (by simp [hmode])
  -- trades and position move by the same quantity
  have hbooked : (processPendingOrder ctx ev none w.order).state.ledger.bookedTrades =
        w.order.pending.filled + eventDelta ev w.order.pending.filled ∧
      (processPendingOrder ctx ev none w.order).state.ledger.bookedPosition =
        w.order.pending.filled + eventDelta ev w.order.pending.filled := by
    cases hbook : booksFill ctx ev w.order.pending with
    | true =>
      rcases hok with hzero | ⟨-, hposq, -⟩
      · simp only [booksFill, hzero, decide_eq_true_eq] at hbook
        exact absurd hbook.2.1 (not_lt.mpr fillEpsilon_pos.le)
      · have := projectBooking_booked (s := { w.order with pending := projectRow ev w.order.pending })
          hbook hposq (h.no_trade hkey hidpos)
        rw [h.trades, h.position] at this
        exact this
    | false =>
      have hzero : eventDelta ev w.order.pending.filled = 0 := by
        rcases hok with hzero | ⟨hb, -⟩
        · exact hzero
        · simp [hbook] at hb
      obtain ⟨htr, hpos, -⟩ := projectBooking_unbooked
        (s := { w.order with pending := projectRow ev w.order.pending }) hbook
      rw [hzero, add_zero]
      exact ⟨htr.trans h.trades, hpos.trans h.position⟩
  refine ⟨h.positive, ?_, hfilled.trans_le hle, ?_, hbooked.1.trans hfilled.symm,
    hbooked.2.trans hfilled.symm, ?_⟩
  · rw [hfilled]
    linarith [h.filled_nonneg]
  · rw [hfilled]
    split
    · next hmode =>
      rw [eventDelta_cumulative hmode]
      exact max_le_max h.seen_le (le_max_right _ _)
    · linarith [h.seen_le]
  · intro id hid
    rcases eventIds_projectBooking hid with rfl | hid
    · exact .inr List.mem_cons_self
    · exact (h.events id hid).imp_right (List.mem_cons_of_mem _)

/-- A step that finds its own baseline current keeps the invariant. -/
theorem consistent_step {ctx : OrderContext} (w : FillWorld) (a : FillStep) (w' : FillWorld)
    (h : Consistent w) (hok : StepCurrent ctx w a) (hs : fillStep ctx w a = some w') :
    Consistent w' := by
  cases a with
  | fill q =>
    simp only [fillStep, Option.ite_none_right_eq_some, Option.some.injEq] at hs
    obtain ⟨hq, rfl⟩ := hs
    exact consistent_fill h hq
  | rest retryDue answer => exact consistent_rest h hok hs
  | stream index ev => exact consistent_stream h hok hs

/-! ## Runs -/

/-- **Exactly-once booking.**  In a run whose steps all find their own baseline
current, every fill is booked once. -/
theorem exactlyOnce_of_current {ctx : OrderContext} {w w' : FillWorld} {steps : List FillStep}
    (hw : Submitted w) (hok : AllSteps (fillStep ctx) (StepCurrent ctx) w steps)
    (hrun : run (fillStep ctx) w steps = some w') : ExactlyOnce w' :=
  (run_invariant_of_allSteps consistent_step hw.consistent hok hrun).exactlyOnce

/-- An order to open a long swap position, sent to the venue. -/
def sentOrder : OrderContext where
  orderId := 1
  strategyId := 7
  symbol := "BTC/USDT"
  baseCurrency := "BTC"
  signal := .openLong
  market := .swap
  exchangeId := "binance"
  exchangeOrderId := "991"
  amount := 8

/-- The order right after submission, nothing filled. -/
def unfilled : FillWorld where
  order :=
    { pending := { filled := 0, avgPrice := 0, status := .sent }
      ledger := { position := { row := none, applied := 0 }, trades := [] } }

theorem submitted_unfilled : Submitted unfilled := by
  constructor <;> simp [unfilled, Exchange.Positive, Exchange.filled, Ledger.bookedTrades,
    Ledger.bookedPosition, Ledger.eventIds]

/-- REST's answer with everything filled so far at price 100. -/
def answerOf (filled : ℚ) : SyncAnswer where
  cumulativeFilled := filled
  cumulativeAvg := 100
  exchangeStatus := .partialFill

/-- The stream reports the first fill, REST books the second one. -/
def streamThenRest : List FillStep :=
  [.fill 5, .stream 0 { id := 1, quantity := 5, price := 100 }, .rest false (some (answerOf 5)),
    .fill 3, .rest false (some (answerOf 8))]

theorem exactlyOnce_streamThenRest :
    ∃ w, run (fillStep sentOrder) unfilled streamThenRest = some w ∧ ExactlyOnce w := by
  obtain ⟨w, hw⟩ := Option.isSome_iff_exists.mp
    (show (run (fillStep sentOrder) unfilled streamThenRest).isSome by decide +kernel)
  exact ⟨w, hw, exactlyOnce_of_current submitted_unfilled (by decide +kernel) hw⟩

/-- REST books 5 and keeps 5 as its baseline; the stream books the next 3; REST
books these 3 again. -/
def restStreamRest : List FillStep :=
  [.fill 5, .rest false (some (answerOf 5)), .fill 3,
    .stream 1 { id := 1, quantity := 3, cumulativeQuantity := 8, isCumulative := true, price := 100 },
    .rest false (some (answerOf 8))]

theorem restStreamRest_overbooks :
    Submitted unfilled ∧ ∃ w, run (fillStep sentOrder) unfilled restStreamRest = some w ∧
      w.exchange.filled = 8 ∧ w.order.ledger.bookedTrades = 11 ∧ w.order.ledger.bookedPosition = 11 ∧
        ¬ ExactlyOnce w :=
  ⟨submitted_unfilled, exists_of_any (by decide +kernel)⟩

end AlgoTrade
