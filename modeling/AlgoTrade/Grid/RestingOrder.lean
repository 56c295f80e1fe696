import AlgoTrade.Fills.Stream

/-! # Resting grid orders and their two fill readers

`pollOrder` is `_poll_order` of the grid poller, `processGrid` is `_process_grid`
of the stream processor.  Both derive an increment over `processed_fill_qty` and
hand it to `on_order_filled`; `Booking` is what they hand over.

* `pollOrder_books`, `processGrid_books`: the quantity handed over is exactly
  what `processed_fill_qty` moves by. -/

namespace AlgoTrade

inductive GridPurpose
  | longEntry | longExit | shortEntry | shortExit
  deriving DecidableEq, Repr

/-- `status` of a row; `placed` is the source's `pending`, `working` its `open`. -/
inductive RestingStatus
  | placed | working | partialFill | filled | cancelled
  deriving DecidableEq, Repr

/-- A row of `qd_grid_resting_orders`. -/
structure GridRestingOrder where
  id : Nat
  cellIndex : Nat
  purpose : GridPurpose
  price : ℚ
  quantity : ℚ
  status : RestingStatus := .working
  filledQuantity : ℚ := 0
  avgFillPrice : ℚ := 0
  processedFillQty : ℚ := 0
  deriving DecidableEq, Repr

/-- One call of `on_order_filled`. -/
structure Booking where
  quantity : ℚ
  price : ℚ
  deriving DecidableEq, Repr

/-- Increments at or below this are not handed over. -/
def gridEpsilon : ℚ := 1 / 10 ^ 12

/-- The row a reader leaves, and the call of `on_order_filled` it made. -/
structure Reading where
  order : GridRestingOrder
  booking : Option Booking
  deriving DecidableEq, Repr

/-- Quantity a reading handed to `on_order_filled`. -/
def Reading.booked (r : Reading) : ℚ := (r.booking.map Booking.quantity).getD 0

/-! ## The poller -/

/-- Order status as `query_grid_order_fill` reports it. -/
inductive PollStatus
  | working | partialFill | filled | cancelled | unknown
  deriving DecidableEq, Repr

/-- The answer of `query_grid_order_fill`. -/
structure PollAnswer where
  filled : ℚ
  avg : ℚ
  status : PollStatus
  deriving DecidableEq, Repr

/-- `total_filled`: the answer or the stored quantity, and the whole order when
a filled order reports nothing. -/
def pollTotal (ans : PollAnswer) (o : GridRestingOrder) : ℚ :=
  let total := orElse ans.filled o.filledQuantity
  if total ≤ 0 ∧ ans.status = .filled then o.quantity else total

/-- The status a poll stores. -/
def pollLocalStatus (ans : PollAnswer) (total : ℚ) (o : GridRestingOrder) : RestingStatus :=
  match ans.status with
  | .working | .partialFill => if 0 < total then .partialFill else .working
  | .cancelled => .cancelled
  | .filled => .filled
  | .unknown => o.status

/-- `_poll_order`; `raises` says that `on_order_filled` raised, in which case the
exchange quantity is stored and the posting is left for a retry. -/
def pollOrder (ans : PollAnswer) (raises : Bool) (o : GridRestingOrder) : Reading :=
  if ans.status = .unknown then ⟨o, none⟩
  else
    let prev := o.processedFillQty
    let total := pollTotal ans o
    let newFill := total - prev
    if gridEpsilon < newFill then
      if raises then
        ⟨{ o with
            status := if 0 < total then .partialFill else o.status
            filledQuantity := total
            avgFillPrice := ans.avg }, none⟩
      else
        ⟨{ o with
            status := pollLocalStatus ans total o
            filledQuantity := total
            avgFillPrice := ans.avg
            processedFillQty := total }, some ⟨newFill, orElse ans.avg o.price⟩⟩
    else
      ⟨{ o with
          status := pollLocalStatus ans total o
          filledQuantity := total
          avgFillPrice := ans.avg }, none⟩

/-! ## The stream -/

/-- The observed total an event moves the row to. -/
def gridTotal (ev : ExecutionEvent) (o : GridRestingOrder) : ℚ :=
  if ev.cumulativeMode then max o.filledQuantity (max 0 ev.cumulativeQuantity)
  else o.filledQuantity + max 0 ev.quantity

/-- The increment over what was handed over already. -/
def gridDelta (ev : ExecutionEvent) (o : GridRestingOrder) : ℚ :=
  max 0 (gridTotal ev o - o.processedFillQty)

/-- `event.price or row.price`. -/
def gridPrice (ev : ExecutionEvent) (o : GridRestingOrder) : ℚ := orElse ev.price o.price

/-- The transaction on the resting order row. -/
def projectGridRow (ev : ExecutionEvent) (o : GridRestingOrder) : GridRestingOrder :=
  let total := gridTotal ev o
  let price := gridPrice ev o
  let observedDelta := max 0 (total - o.filledQuantity)
  { o with
    filledQuantity := total
    avgFillPrice :=
      if 0 < total ∧ 0 < observedDelta then
        (o.filledQuantity * o.avgFillPrice + observedDelta * price) / total
      else orElse o.avgFillPrice price
    status :=
      match ev.orderStatus with
      | .filled => .filled
      | .cancelled => .cancelled
      | .other => if 0 < total then .partialFill else o.status }

/-- `_process_grid`; `runner` says that the strategy's runner is loaded.  The
fee projection of an event that hands nothing over moves no quantity. -/
def processGrid (ev : ExecutionEvent) (runner : Bool) (o : GridRestingOrder) : Reading :=
  let delta := gridDelta ev o
  let price := gridPrice ev o
  let row := projectGridRow ev o
  if delta ≤ gridEpsilon ∨ price ≤ 0 then ⟨row, none⟩
  else if runner then
    ⟨{ row with processedFillQty := max o.processedFillQty (gridTotal ev o) }, some ⟨delta, price⟩⟩
  else ⟨row, none⟩

/-- The event is handed to `on_order_filled`. -/
def gridBooks (ev : ExecutionEvent) (runner : Bool) (o : GridRestingOrder) : Bool :=
  gridEpsilon < gridDelta ev o ∧ 0 < gridPrice ev o ∧ runner

/-! ## Lemmas -/

theorem gridEpsilon_pos : 0 < gridEpsilon := by
  norm_num [gridEpsilon]

/-- What a poll hands over is what it moves `processed_fill_qty` by. -/
theorem pollOrder_books (ans : PollAnswer) (raises : Bool) (o : GridRestingOrder) :
    (pollOrder ans raises o).order.processedFillQty =
      o.processedFillQty + (pollOrder ans raises o).booked := by
  unfold pollOrder Reading.booked
  split
  · simp
  · dsimp only
    split
    · split
      · simp
      · simp only [Option.map_some, Option.getD_some]
        ring
    · simp

/-- The stored quantity after a poll that got an answer. -/
theorem filledQuantity_pollOrder {ans : PollAnswer} {raises : Bool} {o : GridRestingOrder}
    (h : ans.status ≠ .unknown) :
    (pollOrder ans raises o).order.filledQuantity = pollTotal ans o := by
  unfold pollOrder
  simp only [h, if_false]
  split
  · split <;> rfl
  · rfl

theorem booked_pollOrder {ans : PollAnswer} {o : GridRestingOrder} (h : ans.status ≠ .unknown)
    (hnew : gridEpsilon < pollTotal ans o - o.processedFillQty) :
    (pollOrder ans false o).booked = pollTotal ans o - o.processedFillQty := by
  simp only [pollOrder, h, if_false, hnew, if_true, Bool.false_eq_true, Reading.booked,
    Option.map_some, Option.getD_some]

theorem booked_pollOrder_eq_zero {ans : PollAnswer} {raises : Bool} {o : GridRestingOrder}
    (h : pollTotal ans o - o.processedFillQty ≤ gridEpsilon) :
    (pollOrder ans raises o).booked = 0 := by
  unfold pollOrder
  split
  · rfl
  · simp only [not_lt.mpr h, if_false]
    rfl

theorem booked_processGrid {ev : ExecutionEvent} {runner : Bool} {o : GridRestingOrder}
    (h : gridBooks ev runner o = true) : (processGrid ev runner o).booked = gridDelta ev o := by
  simp only [gridBooks, decide_eq_true_eq] at h
  obtain ⟨hd, hp, hr⟩ := h
  simp only [processGrid, not_le.mpr hd, not_le.mpr hp, or_self, if_false, hr, if_true,
    Reading.booked, Option.map_some, Option.getD_some]

theorem processGrid_unbooked {ev : ExecutionEvent} {runner : Bool} {o : GridRestingOrder}
    (h : gridBooks ev runner o = false) : processGrid ev runner o = ⟨projectGridRow ev o, none⟩ := by
  simp only [gridBooks, decide_eq_false_iff_not, not_and, Bool.not_eq_true] at h
  by_cases hbook : gridDelta ev o ≤ gridEpsilon ∨ gridPrice ev o ≤ 0
  · simp only [processGrid, hbook, if_true]
  · obtain ⟨hd, hp⟩ := not_or.mp hbook
    simp only [processGrid, hbook, if_false, h (not_le.mp hd) (not_le.mp hp), Bool.false_eq_true]

/-- The stored quantity after an event. -/
@[simp] theorem filledQuantity_processGrid (ev : ExecutionEvent) (runner : Bool)
    (o : GridRestingOrder) : (processGrid ev runner o).order.filledQuantity = gridTotal ev o := by
  unfold processGrid projectGridRow
  dsimp only
  split
  · rfl
  · split <;> rfl

/-- What an event hands over is what it moves `processed_fill_qty` by. -/
theorem processGrid_books {ev : ExecutionEvent} {runner : Bool} {o : GridRestingOrder}
    (h : o.processedFillQty ≤ gridTotal ev o) :
    (processGrid ev runner o).order.processedFillQty =
      o.processedFillQty + (processGrid ev runner o).booked := by
  cases hbook : gridBooks ev runner o with
  | false =>
    rw [processGrid_unbooked hbook]
    simp [Reading.booked, projectGridRow]
  | true =>
    rw [booked_processGrid hbook]
    simp only [gridBooks, decide_eq_true_eq] at hbook
    obtain ⟨hd, hp, hr⟩ := hbook
    simp only [processGrid, not_le.mpr hd, not_le.mpr hp, or_self, if_false, hr, if_true]
    rw [max_eq_right h, gridDelta, max_eq_right (sub_nonneg.mpr h)]
    ring

end AlgoTrade
