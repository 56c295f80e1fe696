import AlgoTrade.Fills.Exchange
import AlgoTrade.Grid.RestingOrder
import AlgoTrade.Lib.Runs

/-! # Poller and stream on one resting grid order

The poller reads totals, the stream totals or single fills; both hand the
increment over `processed_fill_qty` to `on_order_filled`.

* `GridConsistent`: what was handed over is `processed_fill_qty`, below the
  observed quantity, below the exchange's.
* `gridConsistent_step`: a step whose reading is truthful for the row keeps it. -/

namespace AlgoTrade

open Runs

/-- The resting order, the exchange's fills, the quantities handed to
`on_order_filled`, and the largest cumulative quantity a completed step saw. -/
structure GridWorld where
  order : GridRestingOrder
  exchange : Exchange := {}
  booked : List ℚ := []
  seen : ℚ := 0
  deriving DecidableEq, Repr

/-- A fill on the exchange, a poll, or a stream event about the fill at `index`. -/
inductive GridStep
  | fill (quantity : ℚ)
  | poll (ans : PollAnswer) (raises : Bool)
  | stream (index : Nat) (ev : ExecutionEvent) (runner : Bool)
  deriving DecidableEq, Repr

/-- A reading's row and its call of `on_order_filled`. -/
def GridWorld.absorb (w : GridWorld) (r : Reading) : GridWorld :=
  { w with order := r.order, booked := w.booked ++ (r.booking.map Booking.quantity).toList }

/-- The poll got an answer and `on_order_filled` did not raise. -/
def pollSees (ans : PollAnswer) (raises : Bool) (o : GridRestingOrder) : Bool :=
  ans.status ≠ .unknown ∧ (raises → pollTotal ans o - o.processedFillQty ≤ gridEpsilon)

/-- One completed step; the poller sees the current cumulative quantity. -/
def gridStep (w : GridWorld) : GridStep → Option GridWorld
  | .fill quantity =>
    if 0 < quantity then some { w with exchange := w.exchange.fill quantity } else none
  | .poll ans raises =>
    if ans.status = .unknown ∨ ans.filled = w.exchange.filled then
      some { w.absorb (pollOrder ans raises w.order) with
        seen := if pollSees ans raises w.order then max w.seen w.exchange.filled else w.seen }
    else none
  | .stream index ev runner =>
    if w.exchange.reports index ev then
      some { w.absorb (processGrid ev runner w.order) with
        exchange := w.exchange.report index ev
        seen := if ev.cumulativeMode then max w.seen ev.cumulativeQuantity else w.seen }
    else none

/-- Nothing was handed over twice, and nothing is missing once a step has seen
the whole cumulative quantity. -/
def GridExactlyOnce (w : GridWorld) : Prop :=
  w.booked.sum ≤ w.exchange.filled ∧
    (w.seen = w.exchange.filled → w.booked.sum = w.exchange.filled)

instance : DecidablePred GridExactlyOnce := fun _ => inferInstanceAs (Decidable (_ ∧ (_ → _)))

/-- A resting order right after it was placed. -/
structure Placed (w : GridWorld) : Prop where
  positive : w.exchange.Positive
  quantity_nonneg : 0 ≤ w.order.quantity
  unobserved : w.order.filledQuantity = 0
  unprocessed : w.order.processedFillQty = 0
  unbooked : w.booked = []
  unseen : w.seen = 0

/-- The reading is truthful for the row: no poll takes an unfilled order for a
filled one, no increment is dust, an incremental event's fill is not already in
the observed quantity, and an event with the whole quantity is handed over. -/
def ReadingTruthful (w : GridWorld) : GridStep → Prop
  | .fill _ => True
  | .poll ans _ =>
    ans.status = .unknown ∨
      (¬ (w.exchange.filled = 0 ∧ ans.status = .filled ∧ 0 < w.order.quantity) ∧
        (w.exchange.filled ≤ w.order.processedFillQty ∨
          gridEpsilon < w.exchange.filled - w.order.processedFillQty))
  | .stream _ ev runner =>
    (ev.cumulativeMode → gridDelta ev w.order = 0 ∨ gridBooks ev runner w.order ∨
        ev.cumulativeQuantity < w.exchange.filled) ∧
      (¬ ev.cumulativeMode → w.order.filledQuantity + ev.quantity ≤ w.exchange.filled)

instance (w : GridWorld) : ∀ a, Decidable (ReadingTruthful w a)
  | .fill _ => inferInstanceAs (Decidable True)
  | .poll _ _ => inferInstanceAs (Decidable (_ ∨ _))
  | .stream _ _ _ => inferInstanceAs (Decidable ((_ → _) ∧ (_ → _)))

/-! ## The invariant -/

structure GridConsistent (w : GridWorld) : Prop where
  positive : w.exchange.Positive
  quantity_nonneg : 0 ≤ w.order.quantity
  booked : w.booked.sum = w.order.processedFillQty
  processed_nonneg : 0 ≤ w.order.processedFillQty
  processed_le : w.order.processedFillQty ≤ w.order.filledQuantity
  observed_le : w.order.filledQuantity ≤ w.exchange.filled
  seen_le : w.seen ≤ w.exchange.filled
  complete : w.seen = w.exchange.filled → w.order.processedFillQty = w.exchange.filled

theorem Placed.gridConsistent {w : GridWorld} (h : Placed w) : GridConsistent w where
  positive := h.positive
  quantity_nonneg := h.quantity_nonneg
  booked := by simp [h.unbooked, h.unprocessed]
  processed_nonneg := h.unprocessed.ge
  processed_le := by rw [h.unprocessed, h.unobserved]
  observed_le := h.unobserved ▸ h.positive.filled_nonneg
  seen_le := h.unseen ▸ h.positive.filled_nonneg
  complete hseen := by rw [← hseen, h.unseen, h.unprocessed]

theorem GridConsistent.gridExactlyOnce {w : GridWorld} (h : GridConsistent w) :
    GridExactlyOnce w := by
  refine ⟨?_, fun hseen => h.booked.trans (h.complete hseen)⟩
  rw [h.booked]
  exact h.processed_le.trans h.observed_le

@[simp] theorem sum_booked_absorb (w : GridWorld) (r : Reading) :
    (w.absorb r).booked.sum = w.booked.sum + r.booked := by
  unfold GridWorld.absorb Reading.booked
  cases r.booking <;> simp

/-- A truthful answer about an order that is not taken for filled by mistake
gives the exchange's quantity. -/
theorem pollTotal_eq {w : GridWorld} {ans : PollAnswer} (h : GridConsistent w)
    (hans : ans.filled = w.exchange.filled)
    (hphantom : ¬ (w.exchange.filled = 0 ∧ ans.status = .filled ∧ 0 < w.order.quantity)) :
    pollTotal ans w.order = w.exchange.filled := by
  unfold pollTotal orElse
  dsimp only
  rw [hans]
  by_cases hzero : w.exchange.filled = 0
  · simp only [hzero, if_true]
    split
    · next hst =>
      have : ¬ 0 < w.order.quantity := fun hq => hphantom ⟨hzero, hst.2, hq⟩
      exact le_antisymm (not_lt.mp this) h.quantity_nonneg
    · exact le_antisymm (hzero ▸ h.observed_le) (h.processed_nonneg.trans h.processed_le)
  · have hpos := lt_of_le_of_ne h.positive.filled_nonneg (Ne.symm hzero)
    simp only [hzero, if_false, not_le.mpr hpos, false_and]

/-! ## One step -/

theorem gridConsistent_fill {w : GridWorld} {q : ℚ} (h : GridConsistent w) (hq : 0 < q) :
    GridConsistent { w with exchange := w.exchange.fill q } := by
  have hobs := h.observed_le
  have hseen := h.seen_le
  refine ⟨h.positive.fill hq, h.quantity_nonneg, h.booked, h.processed_nonneg, h.processed_le, ?_,
    ?_, ?_⟩ <;> simp only [Exchange.filled_fill]
  · linarith
  · linarith
  · -- the new fill is above everything a step has seen
    intro heq
    linarith

theorem quantity_pollOrder (ans : PollAnswer) (raises : Bool) (o : GridRestingOrder) :
    (pollOrder ans raises o).order.quantity = o.quantity := by
  unfold pollOrder
  split
  · rfl
  · dsimp only
    split
    · split <;> rfl
    · rfl

theorem quantity_processGrid (ev : ExecutionEvent) (runner : Bool) (o : GridRestingOrder) :
    (processGrid ev runner o).order.quantity = o.quantity := by
  unfold processGrid projectGridRow
  dsimp only
  split
  · rfl
  · split <;> rfl

/-- A reading keeps the invariant when it hands over what it processes, observes
no more than the exchange filled, and processes all of it once that was seen. -/
theorem GridConsistent.absorb {w : GridWorld} {r : Reading} {x : Exchange} {seen : ℚ}
    (h : GridConsistent w) (hx : x.Positive) (hfilled : x.filled = w.exchange.filled)
    (hquantity : r.order.quantity = w.order.quantity)
    (hbooks : r.order.processedFillQty = w.order.processedFillQty + r.booked)
    (hbooked : 0 ≤ r.booked) (hle : r.order.processedFillQty ≤ r.order.filledQuantity)
    (hobs : r.order.filledQuantity ≤ w.exchange.filled) (hseen : seen ≤ w.exchange.filled)
    (hcomplete : seen = w.exchange.filled → r.order.processedFillQty = w.exchange.filled) :
    GridConsistent { w.absorb r with exchange := x, seen := seen } where
  positive := hx
  quantity_nonneg := hquantity.symm ▸ h.quantity_nonneg
  booked := by
    have := sum_booked_absorb w r
    rw [h.booked, ← hbooks] at this
    exact this
  processed_nonneg := by
    have := h.processed_nonneg
    simp only [GridWorld.absorb]
    linarith
  processed_le := hle
  observed_le := hfilled.symm ▸ hobs
  seen_le := hfilled.symm ▸ hseen
  complete := fun heq => (hcomplete (heq.trans hfilled)).trans hfilled.symm

theorem gridConsistent_poll {w w' : GridWorld} {ans : PollAnswer} {raises : Bool}
    (h : GridConsistent w) (hok : ReadingTruthful w (.poll ans raises))
    (hs : gridStep w (.poll ans raises) = some w') : GridConsistent w' := by
  simp only [gridStep, Option.ite_none_right_eq_some, Option.some.injEq] at hs
  obtain ⟨htruth, rfl⟩ := hs
  by_cases hun : ans.status = .unknown
  · have hread : pollOrder ans raises w.order = ⟨w.order, none⟩ := by simp [pollOrder, hun]
    have hsees : pollSees ans raises w.order = false := by simp [pollSees, hun]
    simp only [hread, hsees, GridWorld.absorb, Bool.false_eq_true, if_false, Option.map_none,
      Option.toList_none, List.append_nil]
    exact h
  · obtain ⟨hphantom, hdust⟩ := hok.resolve_left hun
    have htotal := pollTotal_eq h (htruth.resolve_left hun) hphantom
    have hbooks := pollOrder_books ans raises w.order
    have hfilled : (pollOrder ans raises w.order).order.filledQuantity = w.exchange.filled :=
      (filledQuantity_pollOrder hun).trans htotal
    have hseen := max_le h.seen_le (le_refl w.exchange.filled)
    have hP := h.processed_le.trans h.observed_le
    rcases hdust with hnone | hnew
    · -- nothing new on the exchange
      have hzero : (pollOrder ans raises w.order).booked = 0 :=
        booked_pollOrder_eq_zero (by rw [htotal]; linarith [gridEpsilon_pos])
      have hprocessed : (pollOrder ans raises w.order).order.processedFillQty = w.exchange.filled := by
        rw [hbooks, hzero, add_zero]
        exact le_antisymm hP hnone
      refine h.absorb h.positive rfl (quantity_pollOrder ..) hbooks hzero.ge ?_ hfilled.le ?_ ?_
      · rw [hprocessed, hfilled]
      · split
        · exact hseen
        · exact h.seen_le
      · exact fun _ => hprocessed
    · cases raises with
      | false =>
        have hbooked := booked_pollOrder hun (by rwa [htotal])
        rw [htotal] at hbooked
        have hprocessed : (pollOrder ans false w.order).order.processedFillQty =
            w.exchange.filled := by
          rw [hbooks, hbooked]
          ring
        refine h.absorb h.positive rfl (quantity_pollOrder ..) hbooks ?_ ?_ hfilled.le ?_ ?_
        · rw [hbooked]
          linarith [gridEpsilon_pos]
        · rw [hprocessed, hfilled]
        · split
          · exact hseen
          · exact h.seen_le
        · exact fun _ => hprocessed
      | true =>
        have hread : (pollOrder ans true w.order).booked = 0 := by
          simp [pollOrder, hun, htotal, hnew, Reading.booked]
        have hsees : pollSees ans true w.order = false :=
          decide_eq_false fun hs => absurd (hs.2 rfl) (by rw [htotal]; exact not_le.mpr hnew)
        have hprocessed : (pollOrder ans true w.order).order.processedFillQty =
            w.order.processedFillQty := by
          rw [hbooks, hread, add_zero]
        simp only [hsees, Bool.false_eq_true, if_false]
        refine h.absorb h.positive rfl (quantity_pollOrder ..) hbooks hread.ge ?_ hfilled.le
          h.seen_le ?_
        · rw [hprocessed, hfilled]
          exact hP
        · exact fun hall => hprocessed.trans (h.complete hall)

theorem gridConsistent_stream {w w' : GridWorld} {index : Nat} {ev : ExecutionEvent}
    {runner : Bool} (h : GridConsistent w) (hok : ReadingTruthful w (.stream index ev runner))
    (hs : gridStep w (.stream index ev runner) = some w') : GridConsistent w' := by
  simp only [gridStep, Option.ite_none_right_eq_some, Option.some.injEq] at hs
  obtain ⟨hrep, rfl⟩ := hs
  obtain ⟨hcum, hinc⟩ := hok
  have hpositive : (w.exchange.report index ev).Positive := h.positive
  -- the observed total grows, up to what the exchange filled
  have htotal : w.order.filledQuantity ≤ gridTotal ev w.order ∧
      gridTotal ev w.order ≤ w.exchange.filled := by
    unfold gridTotal
    cases hmode : ev.cumulativeMode with
    | true =>
      exact ⟨le_max_left _ _,
        max_le h.observed_le (Exchange.reports_cumulative h.positive hrep hmode)⟩
    | false =>
      have hq := Exchange.reports_incremental h.positive hrep hmode
      have hroom := hinc (by simp [hmode])
      simp only [Bool.false_eq_true, if_false, max_eq_right hq.le]
      exact ⟨by linarith, hroom⟩
  have hP := h.processed_le.trans htotal.1
  have hdelta : gridDelta ev w.order = gridTotal ev w.order - w.order.processedFillQty :=
    max_eq_right (sub_nonneg.mpr hP)
  have hbooks : (processGrid ev runner w.order).order.processedFillQty =
      w.order.processedFillQty + (processGrid ev runner w.order).booked := processGrid_books hP
  have hwhole : ev.cumulativeMode = true → ev.cumulativeQuantity = w.exchange.filled →
      w.exchange.filled ≤ gridTotal ev w.order := by
    intro hmode hall
    simp only [gridTotal, hmode, if_true, ← hall]
    exact (le_max_right _ _).trans (le_max_right _ _)
  have hseen : (if ev.cumulativeMode then max w.seen ev.cumulativeQuantity else w.seen) ≤
      w.exchange.filled := by
    split
    · next hmode =>
      have := Exchange.reports_cumulative h.positive hrep hmode
      exact max_le h.seen_le ((le_max_right _ _).trans this)
    · exact h.seen_le
  cases hbook : gridBooks ev runner w.order with
  | true =>
    have hbooked := booked_processGrid hbook
    have hprocessed : (processGrid ev runner w.order).order.processedFillQty =
        gridTotal ev w.order := by
      rw [hbooks, hbooked, hdelta]
      ring
    refine h.absorb hpositive rfl (quantity_processGrid ..) hbooks ?_ ?_ ?_ hseen ?_
    · rw [hbooked]
      exact le_max_left _ _
    · rw [hprocessed, filledQuantity_processGrid]
    · exact (filledQuantity_processGrid ..).trans_le htotal.2
    · intro hall
      rw [hprocessed]
      refine le_antisymm htotal.2 ?_
      split at hall
      · next hmode =>
        rcases max_choice w.seen ev.cumulativeQuantity with hm | hm
        · rw [hm] at hall
          exact (h.complete hall).symm.le.trans hP
        · exact hwhole hmode (hm ▸ hall)
      · exact (h.complete hall).symm.le.trans hP
  | false =>
    have hread := processGrid_unbooked hbook
    have hzero : (processGrid ev runner w.order).booked = 0 := by rw [hread]; rfl
    have hprocessed : (processGrid ev runner w.order).order.processedFillQty =
        w.order.processedFillQty := by
      rw [hbooks, hzero, add_zero]
    refine h.absorb hpositive rfl (quantity_processGrid ..) hbooks hzero.ge ?_ ?_ hseen ?_
    · rw [hprocessed, filledQuantity_processGrid]
      exact hP
    · exact (filledQuantity_processGrid ..).trans_le htotal.2
    · intro hall
      rw [hprocessed]
      split at hall
      · next hmode =>
        rcases max_choice w.seen ev.cumulativeQuantity with hm | hm
        · exact h.complete (hm ▸ hall)
        · rw [hm] at hall
          rcases hcum hmode with hidle | hb | hless
          · -- the event brings nothing beyond what was handed over
            rw [hdelta] at hidle
            linarith [hwhole hmode hall, htotal.2]
          · simp [hbook] at hb
          · exact absurd hall hless.ne
      · exact h.complete hall

/-- A truthful reading keeps the invariant. -/
theorem gridConsistent_step (w : GridWorld) (a : GridStep) (w' : GridWorld)
    (h : GridConsistent w) (hok : ReadingTruthful w a) (hs : gridStep w a = some w') :
    GridConsistent w' := by
  cases a with
  | fill q =>
    simp only [gridStep, Option.ite_none_right_eq_some, Option.some.injEq] at hs
    obtain ⟨hq, rfl⟩ := hs
    exact gridConsistent_fill h hq
  | poll ans raises => exact gridConsistent_poll h hok hs
  | stream index ev runner => exact gridConsistent_stream h hok hs

/-! ## Runs -/

/-- A resting long entry of 8 at price 100. -/
def restingEntry : GridWorld where
  order := { id := 1, cellIndex := 0, purpose := .longEntry, price := 100, quantity := 8 }

theorem placed_restingEntry : Placed restingEntry := by
  constructor <;> simp [restingEntry, Exchange.Positive]

/-- The stream reports the first fill, a poll sees both, a late event repeats the
total. -/
def streamThenPoll : List GridStep :=
  [.fill 5, .stream 0 { id := 1, quantity := 5, price := 100 } true, .fill 3,
    .poll ⟨8, 100, .filled⟩ false,
    .stream 1 { id := 2, quantity := 3, cumulativeQuantity := 8, isCumulative := true } true]

/-- The poller hands over a fill of 5; the stream then reports the same fill by
its own quantity. -/
def pollThenStream : List GridStep :=
  [.fill 5, .poll ⟨5, 100, .partialFill⟩ false,
    .stream 0 { id := 1, quantity := 5, price := 100 } true]

end AlgoTrade
