import AlgoTrade.Grid.Interleaving

/-! # Local cancels beside the exchange's fills

A local cancel sends `cancel_grid_order` for some rows and marks rows `cancelled`;
the exchange fills orders when it likes.  `cancels` says for each place that
cancels which rows it calls for and which it marks.

* `orders_dedupe`, `orders_cancelPositionOrders`, `orders_shutdown`: the engine's
  cancels mark these rows.
* `Inv.step`: a row neither reader would select again is over at the exchange, and
  all it filled was handed over.
* `kept_of_sound`: so no fill is lost while a row is closed only then. -/

namespace AlgoTrade.LocalCancels

open Runs GridEngine

/-! ## What a cancel calls for and marks -/

/-- How the calls of `cancel_grid_order` end, by row: a call that raises may have
ended the order all the same. -/
structure CancelCalls where
  client : Bool := true
  raises : ℕ → Bool := fun _ => false
  ends : ℕ → Bool := fun _ => true

/-- The rows marked `cancelled`, and those a call was made for. -/
structure Cancelled where
  marked : List ℕ
  called : List ℕ

/-- The places that cancel. -/
inductive LocalCancel
  /-- `_dedupe_open_entry_orders`, `_dedupe_open_exit_orders` -/
  | dedupe (purpose : GridPurpose)
  /-- `_ensure_cell_exit_coverage` -/
  | exitCoverage (cellIndex : ℕ) (purpose : GridPurpose) (desired : ℚ)
  /-- `_cancel_position_orders_on_exchange`; `none` is both sides -/
  | position (long : Option Bool) (exits : Bool)
  /-- `cancel_all_orders_on_exchange`, `shutdown` -/
  | all

def openIds (select : GridRestingOrder → Bool) (rows : List GridRestingOrder) : List ℕ :=
  (rows.filter fun o => isOpen o && select o).map GridRestingOrder.id

/-- The order a deduplication removes. -/
def isExtra (purpose : GridPurpose) (rows : List GridRestingOrder) (o : GridRestingOrder) : Bool :=
  o.purpose = purpose ∧
    ∃ o' ∈ rows, isOpen o' = true ∧ o'.purpose = purpose ∧ o'.cellIndex = o.cellIndex ∧
      (o.quantity - o.processedFillQty < o'.quantity - o'.processedFillQty ∨
        o.quantity - o.processedFillQty = o'.quantity - o'.processedFillQty ∧ o'.id < o.id)

def cancels (calls : CancelCalls) (rows : List GridRestingOrder) : LocalCancel → Cancelled
  | .dedupe purpose =>
    let ids := openIds (isExtra purpose rows) rows
    ⟨ids, if calls.client then ids else []⟩
  | .exitCoverage cellIndex purpose desired =>
    let orders := rows.filter fun o => isOpen o ∧ o.cellIndex = cellIndex ∧ o.purpose = purpose
    let ids := orders.map GridRestingOrder.id
    if desired ≤ 0 ∨
        |(orders.map remainingQty).sum - desired| ≤ max (1 / 10 ^ 10) (desired * (1 / 10 ^ 8)) then
      ⟨[], []⟩
    else if calls.client then
      -- the first call that raises returns before its row is marked
      let marked := ids.takeWhile fun id => !calls.raises id
      ⟨marked, ids.take (marked.length + 1)⟩
    else ⟨ids, []⟩
  | .position long exits =>
    let ids := openIds
      (fun o => o.purpose.isExit == exits && long.all fun side => o.purpose.isLong == side) rows
    if calls.client then ⟨ids.filter fun id => !calls.raises id, ids⟩ else ⟨[], []⟩
  | .all =>
    let ids := openIds (fun _ => true) rows
    ⟨ids, if calls.client then ids else []⟩

/-- `update_status(..., status="cancelled")`. -/
def mark (ids : List ℕ) (rows : List GridRestingOrder) : List GridRestingOrder :=
  rows.map fun o => if o.id ∈ ids then { o with status := .cancelled } else o

/-! ## Rows, exchange and ledger -/

structure ExchangeOrder where
  filled : ℚ := 0
  live : Bool := true
  deriving DecidableEq, Repr

/-- `exchange` and `booked`, what went through `on_order_filled`, are by row. -/
structure Books where
  rows : List GridRestingOrder := []
  exchange : ℕ → ExchangeOrder := fun _ => {}
  booked : ℕ → ℚ := fun _ => 0
  listed : List GridRestingOrder := []

inductive Act
  | place (cellIndex : ℕ) (purpose : GridPurpose) (price quantity : ℚ)
  /-- the exchange fills an order -/
  | fill (id : ℕ) (qty : ℚ)
  /-- the exchange ends an order -/
  | ends (id : ℕ)
  | cancel (c : LocalCancel) (calls : CancelCalls)
  | list
  | poll (o : GridRestingOrder) (ans : PollAnswer) (raises : Bool)
  | event (id : ℕ) (ev : ExecutionEvent) (runner : Bool)

namespace Books

/-- The exchange after the calls. -/
def afterCalls (b : Books) (called : List ℕ) (calls : CancelCalls) : ℕ → ExchangeOrder := fun id =>
  if id ∈ called ∧ calls.ends id = true then { b.exchange id with live := false }
  else b.exchange id

/-- A reader hands the fill of row `id` over and writes the row. -/
def read (b : Books) (id : ℕ) (r : Reading) : Books :=
  { b with
    rows := b.rows.map (writtenBy r.order)
    booked := Function.update b.booked id (b.booked id + r.booked) }

/-- `list_open` and `list_unprocessed`. -/
def selected (o : GridRestingOrder) : Bool := isOpen o || isUnprocessed o

end Books

open Books

def step (b : Books) : Act → Option Books
  | .place cellIndex purpose price quantity =>
    let id := b.rows.length + 1
    some { b with
      rows := b.rows ++ [{ id, cellIndex, purpose, price, quantity }]
      exchange := Function.update b.exchange id {} }
  | .fill id qty =>
    if (b.exchange id).live = true ∧ 0 < qty then
      some { b with
        exchange := Function.update b.exchange id
          { b.exchange id with filled := (b.exchange id).filled + qty } }
    else none
  | .ends id =>
    some { b with exchange := Function.update b.exchange id { b.exchange id with live := false } }
  | .cancel c calls =>
    let cancelled := cancels calls b.rows c
    some { b with
      rows := mark cancelled.marked b.rows
      exchange := b.afterCalls cancelled.called calls }
  | .list => some { b with listed := b.listed ++ b.rows.filter selected }
  | .poll o ans raises =>
    if o ∈ b.listed then
      if ans.status = .unknown then some { b with listed := b.listed.erase o }
      else some (({ b with listed := b.listed.erase o } : Books).read o.id (pollOrder ans raises o))
    else none
  | .event id ev runner =>
    match b.rows.find? fun o => o.id = id with
    | none => some b
    | some o => some (b.read id (processGrid ev runner o))

/-- Every fill of the exchange was handed over, or a reader selects its row. -/
def Kept (b : Books) : Prop :=
  ∀ o ∈ b.rows, (b.exchange o.id).filled ≤ b.booked o.id ∨ selected o = true

/-- Nothing more can fill, and all that did was handed over. -/
def Over (x : ExchangeOrder) (booked : ℚ) : Prop := x.live = false ∧ x.filled ≤ booked

/-- An answer that closes the row tells the order's end: all that filled, and
nothing too small to be handed over. -/
def Told (x : ExchangeOrder) (o : GridRestingOrder) (total : ℚ) : Prop :=
  x.live = false ∧ x.filled ≤ total ∧
    (total - o.processedFillQty ≤ gridEpsilon → total ≤ o.processedFillQty)

/-- A row is closed only where its order is over. -/
def Sound (b : Books) : Act → Prop
  | .cancel c calls =>
    ∀ o ∈ b.rows, o.id ∈ (cancels calls b.rows c).marked →
      isUnprocessed o = true ∨
        Over (b.afterCalls (cancels calls b.rows c).called calls o.id) (b.booked o.id)
  | .poll o ans raises =>
    ans.status ≠ .unknown → selected (pollOrder ans raises o).order = false →
      Told (b.exchange o.id) o (pollTotal ans o)
  | .event id ev runner =>
    ∀ o ∈ b.rows.find? fun o => o.id = id, selected o = true →
      selected (processGrid ev runner o).order = false → Told (b.exchange o.id) o (gridTotal ev o)
  | _ => True

instance (b : Books) : Decidable (Kept b) :=
  inferInstanceAs (Decidable (∀ o ∈ b.rows, _ ∨ _))

instance (x : ExchangeOrder) (booked : ℚ) : Decidable (Over x booked) :=
  inferInstanceAs (Decidable (_ ∧ _))

instance (x : ExchangeOrder) (o : GridRestingOrder) (total : ℚ) : Decidable (Told x o total) :=
  inferInstanceAs (Decidable (_ ∧ _ ∧ (_ → _)))

instance (b : Books) : ∀ act, Decidable (Sound b act)
  | .cancel .. => inferInstanceAs (Decidable (∀ _ ∈ _, _ → _ ∨ _))
  | .poll .. => inferInstanceAs (Decidable (_ → _ → _))
  | .event .. => inferInstanceAs (Decidable (∀ _ ∈ _, _ → _ → _))
  | .place .. | .fill .. | .ends _ | .list => inferInstanceAs (Decidable True)

/-- A row that no reader selects is over. -/
structure Inv (b : Books) : Prop where
  ids : b.rows.map GridRestingOrder.id = List.range' 1 b.rows.length
  nonneg : ∀ id, 0 ≤ b.booked id
  processed : ∀ o ∈ b.rows, 0 ≤ o.processedFillQty ∧ o.processedFillQty ≤ b.booked o.id
  listed : ∀ o ∈ b.listed, 0 ≤ o.processedFillQty ∧ o.processedFillQty ≤ b.booked o.id
  gone : ∀ o ∈ b.rows, selected o = false → Over (b.exchange o.id) (b.booked o.id)

/-! ## The engine's cancels -/

section
variable {e : GridEngine}

theorem orders_cancelWhere (h : e.IdsOk) (select : GridRestingOrder → Bool) :
    (e.cancelWhere select).orders = mark (openIds select e.orders) e.orders := by
  unfold cancelWhere mark
  refine List.map_congr_left fun o ho => ?_
  have hiff : o.id ∈ openIds select e.orders ↔ (isOpen o && select o) = true := by
    constructor
    · intro hid
      obtain ⟨o', ho', heq⟩ := List.mem_map.mp hid
      obtain ⟨hmem, hsel⟩ := List.mem_filter.mp ho'
      exact List.inj_on_of_nodup_map h.nodup hmem ho heq ▸ hsel
    · exact fun hsel => List.mem_map_of_mem (List.mem_filter.mpr ⟨ho, hsel⟩)
  simp only [hiff]

theorem orders_dedupe (h : e.IdsOk) (purpose : GridPurpose) (calls : CancelCalls) :
    (e.dedupe purpose).orders = mark (cancels calls e.orders (.dedupe purpose)).marked e.orders :=
  orders_cancelWhere h _

/-- Of one side, with calls that all succeed or no client. -/
theorem orders_cancelPositionOrders (h : e.IdsOk) (v : GridVenue) (long exits : Bool) :
    (e.cancelPositionOrders long exits v).orders =
      mark (cancels { client := v.cancels } e.orders (.position (some long) exits)).marked
        e.orders := by
  unfold cancelPositionOrders cancels
  dsimp only
  split
  · rw [orders_cancelWhere h]
    simp
  · simp [mark]

theorem orders_shutdown (h : e.IdsOk) (calls : CancelCalls) :
    e.shutdown.orders = mark (cancels calls e.orders .all).marked e.orders :=
  orders_cancelWhere h _

end

/-! ## Readings -/

section
variable {o : GridRestingOrder}

theorem selected_of_columns {o o' : GridRestingOrder} (hstatus : o.status = o'.status)
    (hfilled : o.filledQuantity = o'.filledQuantity)
    (hprocessed : o.processedFillQty = o'.processedFillQty) : selected o = selected o' := by
  unfold selected isOpen isUnprocessed
  rw [hstatus, hfilled, hprocessed]

/-- A poll hands over what is more than a dust amount. -/
theorem booked_pollOrder_nonneg (ans : PollAnswer) (raises : Bool) (o : GridRestingOrder) :
    0 ≤ (pollOrder ans raises o).booked := by
  unfold pollOrder Reading.booked
  dsimp only
  split
  · exact le_rfl
  · split
    next hnew =>
      split
      · exact le_rfl
      · exact (gridEpsilon_pos.trans hnew).le
    · exact le_rfl

theorem booked_processGrid_nonneg (ev : ExecutionEvent) (runner : Bool) (o : GridRestingOrder) :
    0 ≤ (processGrid ev runner o).booked := by
  cases hbooks : gridBooks ev runner o with
  | false =>
    rw [processGrid_unbooked hbooks]
    exact le_rfl
  | true =>
    rw [booked_processGrid hbooks]
    exact le_max_left _ _

/-- A poll that closes a row has handed over its whole total. -/
theorem total_le_of_closed_poll {ans : PollAnswer} {raises : Bool} (hans : ans.status ≠ .unknown)
    (hnonneg : 0 ≤ o.processedFillQty) {x : ExchangeOrder} (htold : Told x o (pollTotal ans o))
    (hclosed : selected (pollOrder ans raises o).order = false) :
    pollTotal ans o ≤ o.processedFillQty + (pollOrder ans raises o).booked := by
  obtain ⟨-, -, hdust⟩ := htold
  by_cases hnew : gridEpsilon < pollTotal ans o - o.processedFillQty
  · cases raises with
    | false =>
      rw [booked_pollOrder hans hnew]
      linarith
    | true =>
      have hpos : 0 < pollTotal ans o := by linarith [gridEpsilon_pos]
      have hopen : isOpen (pollOrder ans true o).order = true := by
        simp [pollOrder, hans, hnew, hpos, isOpen]
      rw [selected, hopen] at hclosed
      cases hclosed
  · rw [booked_pollOrder_eq_zero (not_lt.mp hnew), add_zero]
    exact hdust (not_lt.mp hnew)

/-- So has an event. -/
theorem total_le_of_closed_event {ev : ExecutionEvent} {runner : Bool}
    (hnonneg : 0 ≤ o.processedFillQty) {x : ExchangeOrder} (htold : Told x o (gridTotal ev o))
    (hclosed : selected (processGrid ev runner o).order = false) :
    gridTotal ev o ≤ o.processedFillQty + (processGrid ev runner o).booked := by
  obtain ⟨-, -, hdust⟩ := htold
  cases hbooks : gridBooks ev runner o with
  | true =>
    rw [booked_processGrid hbooks]
    have hle := le_max_right 0 (gridTotal ev o - o.processedFillQty)
    unfold gridDelta
    linarith
  | false =>
    rw [processGrid_unbooked hbooks] at hclosed ⊢
    by_cases hnew : gridTotal ev o - o.processedFillQty ≤ gridEpsilon
    · have hbooked : (⟨projectGridRow ev o, none⟩ : Reading).booked = 0 := rfl
      rw [hbooked, add_zero]
      exact hdust hnew
    · have hmore := not_le.mp hnew
      have hunprocessed : isUnprocessed (projectGridRow ev o) = true := by
        refine decide_eq_true ⟨?_, ?_⟩
        · show 0 < gridTotal ev o
          linarith [gridEpsilon_pos]
        · show o.processedFillQty + gridEpsilon < gridTotal ev o
          linarith
      have hselected : selected (projectGridRow ev o) = true := by
        rw [selected, hunprocessed, Bool.or_true]
      rw [hselected] at hclosed
      cases hclosed

/-- What a reading leaves in `processed_fill_qty` was handed over. -/
theorem processed_processGrid_le (ev : ExecutionEvent) (runner : Bool) (o : GridRestingOrder) :
    o.processedFillQty ≤ (processGrid ev runner o).order.processedFillQty ∧
      (processGrid ev runner o).order.processedFillQty ≤
        o.processedFillQty + (processGrid ev runner o).booked := by
  have hbooked := booked_processGrid_nonneg ev runner o
  by_cases hle : o.processedFillQty ≤ gridTotal ev o
  · have heq : (processGrid ev runner o).order.processedFillQty =
        o.processedFillQty + (processGrid ev runner o).booked := processGrid_books hle
    constructor
    · linarith
    · exact heq.le
  · have hunbooked : gridBooks ev runner o = false := by
      refine decide_eq_false fun h => ?_
      have hzero : gridDelta ev o = 0 := max_eq_left (by linarith)
      rw [hzero] at h
      exact lt_asymm gridEpsilon_pos h.1
    have heq : (processGrid ev runner o).order.processedFillQty = o.processedFillQty := by
      rw [processGrid_unbooked hunbooked]
      rfl
    constructor
    · exact heq.ge
    · linarith

end

/-! ## Steps and runs -/

section
variable {b b' t : Books}

/-- **A row is read.** -/
theorem Inv.read (h : Inv b) {id : ℕ} {r : Reading} (hid : r.order.id = id)
    (hbooked : 0 ≤ r.booked)
    (hprocessed : 0 ≤ r.order.processedFillQty ∧
      r.order.processedFillQty ≤ b.booked id + r.booked)
    (hover : selected r.order = false → Over (b.exchange id) (b.booked id + r.booked)) :
    Inv (b.read id r) := by
  have hmono : ∀ i, b.booked i ≤ (b.read id r).booked i := by
    intro i
    show b.booked i ≤ Function.update b.booked id _ i
    by_cases hi : i = id
    · subst hi
      rw [Function.update_self]
      linarith
    · rw [Function.update_of_ne hi]
  have hself : (b.read id r).booked id = b.booked id + r.booked := Function.update_self ..
  refine ⟨?_, fun i => (h.nonneg i).trans (hmono i), fun o ho => ?_, fun o ho => ?_,
    fun o ho hclosed => ?_⟩
  · show (b.rows.map (writtenBy r.order)).map GridRestingOrder.id = _
    rw [List.map_map, Books.read, List.length_map, ← h.ids]
    exact List.map_congr_left fun o _ => id_writtenBy _ o
  · obtain ⟨o, hmem, rfl⟩ := List.mem_map.mp ho
    rw [id_writtenBy]
    by_cases hrow : o.id = r.order.id
    · have hwritten : (writtenBy r.order o).processedFillQty = r.order.processedFillQty := by
        unfold writtenBy
        rw [if_pos hrow]
      rw [hwritten, hrow, hid, hself]
      exact hprocessed
    · have hsame : writtenBy r.order o = o := if_neg hrow
      rw [hsame]
      exact ⟨(h.processed o hmem).1, (h.processed o hmem).2.trans (hmono _)⟩
  · exact ⟨(h.listed o ho).1, (h.listed o ho).2.trans (hmono _)⟩
  · obtain ⟨o, hmem, rfl⟩ := List.mem_map.mp ho
    rw [id_writtenBy]
    by_cases hrow : o.id = r.order.id
    · have hcolumns : selected (writtenBy r.order o) = selected r.order := by
        unfold writtenBy
        rw [if_pos hrow]
        exact selected_of_columns rfl rfl rfl
      rw [hrow, hid, hself]
      exact hover (hcolumns ▸ hclosed)
    · have hsame : writtenBy r.order o = o := if_neg hrow
      rw [hsame] at hclosed
      obtain ⟨hlive, hfilled⟩ := h.gone o hmem hclosed
      exact ⟨hlive, hfilled.trans (hmono _)⟩

/-- **Rows are marked** where their orders are over. -/
theorem Inv.cancel (h : Inv b) {c : LocalCancel} {calls : CancelCalls}
    (hsound : Sound b (.cancel c calls)) :
    Inv { b with
      rows := mark (cancels calls b.rows c).marked b.rows
      exchange := b.afterCalls (cancels calls b.rows c).called calls } := by
  have hover : ∀ id, Over (b.exchange id) (b.booked id) →
      Over (b.afterCalls (cancels calls b.rows c).called calls id) (b.booked id) := by
    rintro id ⟨hlive, hfilled⟩
    unfold Books.afterCalls
    split
    · exact ⟨rfl, hfilled⟩
    · exact ⟨hlive, hfilled⟩
  refine ⟨?_, h.nonneg, fun o ho => ?_, h.listed, fun o ho hclosed => ?_⟩
  · show (mark _ b.rows).map GridRestingOrder.id = _
    unfold mark
    rw [List.map_map, List.length_map, ← h.ids]
    refine List.map_congr_left fun o _ => ?_
    rw [Function.comp_apply]
    split <;> rfl
  · obtain ⟨o, hmem, rfl⟩ := List.mem_map.mp ho
    have hrow := h.processed o hmem
    split <;> exact hrow
  · obtain ⟨o, hmem, rfl⟩ := List.mem_map.mp ho
    split at hclosed
    next hmarked =>
      rw [if_pos hmarked]
      rcases hsound o hmem hmarked with hunprocessed | hsettled
      · have hselected : selected { o with status := .cancelled } = true := by
          rw [selected, Bool.or_eq_true]
          exact .inr hunprocessed
        rw [hselected] at hclosed
        cases hclosed
      · exact hsettled
    next hmarked =>
      rw [if_neg hmarked]
      exact hover o.id (h.gone o hmem hclosed)

theorem id_le_length (h : Inv b) {o : GridRestingOrder} (ho : o ∈ b.rows) :
    o.id ≤ b.rows.length := by
  have hmem : o.id ∈ List.range' 1 b.rows.length := h.ids ▸ List.mem_map_of_mem ho
  have hlt := (List.mem_range'_1.mp hmem).2
  omega

/-- A new row is open, and its order unfilled. -/
theorem Inv.place (h : Inv b) (cellIndex : ℕ) (purpose : GridPurpose) (price quantity : ℚ) :
    Inv { b with
      rows := b.rows ++ [{ id := b.rows.length + 1, cellIndex, purpose, price, quantity }]
      exchange := Function.update b.exchange (b.rows.length + 1) {} } := by
  refine ⟨?_, h.nonneg, fun o ho => ?_, h.listed, fun o ho hclosed => ?_⟩
  · show (b.rows ++ [_]).map GridRestingOrder.id = _
    rw [List.map_append, h.ids, List.length_append, List.map_singleton, List.length_singleton,
      List.range'_concat, one_mul, Nat.add_comm 1]
  · rcases List.mem_append.mp ho with ho | ho
    · exact h.processed o ho
    · rw [List.mem_singleton.mp ho]
      exact ⟨le_rfl, h.nonneg _⟩
  · rcases List.mem_append.mp ho with ho | ho
    · have hne : o.id ≠ b.rows.length + 1 := by
        have hle := id_le_length h ho
        omega
      show Over (Function.update b.exchange _ _ o.id) _
      rw [Function.update_of_ne hne]
      exact h.gone o ho hclosed
    · rw [List.mem_singleton.mp ho] at hclosed
      cases hclosed

/-- Only live orders fill. -/
theorem Inv.fill (h : Inv b) {id : ℕ} (hlive : (b.exchange id).live = true) (qty : ℚ) :
    Inv { b with
      exchange := Function.update b.exchange id
        { b.exchange id with filled := (b.exchange id).filled + qty } } := by
  refine ⟨h.ids, h.nonneg, h.processed, h.listed, fun o ho hclosed => ?_⟩
  have hover := h.gone o ho hclosed
  have hne : o.id ≠ id := by
    rintro rfl
    rw [hover.1] at hlive
    cases hlive
  show Over (Function.update b.exchange _ _ o.id) _
  rw [Function.update_of_ne hne]
  exact hover

theorem Inv.ends (h : Inv b) (id : ℕ) :
    Inv { b with
      exchange := Function.update b.exchange id { b.exchange id with live := false } } := by
  refine ⟨h.ids, h.nonneg, h.processed, h.listed, fun o ho hclosed => ?_⟩
  obtain ⟨hlive, hfilled⟩ := h.gone o ho hclosed
  show Over (Function.update b.exchange _ _ o.id) _
  by_cases hid : o.id = id
  · subst hid
    rw [Function.update_self]
    exact ⟨rfl, hfilled⟩
  · rw [Function.update_of_ne hid]
    exact ⟨hlive, hfilled⟩

theorem Inv.poll (h : Inv b) {o : GridRestingOrder} (ho : o ∈ b.listed) {ans : PollAnswer}
    {raises : Bool} (hans : ans.status ≠ .unknown) (hsound : Sound b (.poll o ans raises)) :
    Inv (b.read o.id (pollOrder ans raises o)) := by
  obtain ⟨hnonneg, hbooked⟩ := h.listed o ho
  have hbooks := pollOrder_books ans raises o
  have hmore := booked_pollOrder_nonneg ans raises o
  have hid : (pollOrder ans raises o).order.id = o.id := by
    unfold pollOrder
    dsimp only
    split
    · rfl
    · split
      · split <;> rfl
      · rfl
  refine h.read hid hmore ⟨by linarith, by linarith⟩ fun hclosed => ?_
  have htold := hsound hans hclosed
  have htotal := total_le_of_closed_poll hans hnonneg htold hclosed
  exact ⟨htold.1, by linarith [htold.2.1]⟩

theorem Inv.event (h : Inv b) {id : ℕ} {ev : ExecutionEvent} {runner : Bool}
    {o : GridRestingOrder} (hrow : (b.rows.find? fun o => o.id = id) = some o)
    (hsound : Sound b (.event id ev runner)) : Inv (b.read id (processGrid ev runner o)) := by
  obtain rfl : o.id = id := by simpa using List.find?_some hrow
  have hmem := List.mem_of_find?_eq_some hrow
  obtain ⟨hnonneg, hbooked⟩ := h.processed o hmem
  obtain ⟨hge, hle⟩ := processed_processGrid_le ev runner o
  have hmore := booked_processGrid_nonneg ev runner o
  have hid : (processGrid ev runner o).order.id = o.id := by
    unfold processGrid
    dsimp only
    split
    · rfl
    · split <;> rfl
  refine h.read hid hmore ⟨by linarith, by linarith⟩ fun hclosed => ?_
  cases hopen : selected o with
  | false =>
    obtain ⟨hlive, hfilled⟩ := h.gone o hmem hopen
    exact ⟨hlive, by linarith⟩
  | true =>
    have htold := hsound o hrow hopen hclosed
    have htotal := total_le_of_closed_event hnonneg htold hclosed
    exact ⟨htold.1, by linarith [htold.2.1]⟩

/-- **One step** under its condition. -/
theorem Inv.step {act : Act} (h : Inv b) (hsound : Sound b act)
    (hs : LocalCancels.step b act = some b') : Inv b' := by
  cases act with
  | place cellIndex purpose price quantity =>
    obtain rfl := Option.some.inj hs
    exact h.place cellIndex purpose price quantity
  | fill id qty =>
    dsimp only [LocalCancels.step] at hs
    split at hs
    next hlive =>
      obtain rfl := Option.some.inj hs
      exact h.fill hlive.1 qty
    next => cases hs
  | ends id =>
    obtain rfl := Option.some.inj hs
    exact h.ends id
  | cancel c calls =>
    obtain rfl := Option.some.inj hs
    exact h.cancel hsound
  | list =>
    obtain rfl := Option.some.inj hs
    refine ⟨h.ids, h.nonneg, h.processed, fun o ho => ?_, h.gone⟩
    rcases List.mem_append.mp ho with ho | ho
    · exact h.listed o ho
    · exact h.processed o (List.mem_of_mem_filter ho)
  | poll o ans raises =>
    dsimp only [LocalCancels.step] at hs
    split at hs
    next ho =>
      have herased : Inv { b with listed := b.listed.erase o } :=
        ⟨h.ids, h.nonneg, h.processed, fun o' ho' => h.listed o' (List.mem_of_mem_erase ho'), h.gone⟩
      split at hs
      · obtain rfl := Option.some.inj hs
        exact herased
      next hans =>
        obtain rfl := Option.some.inj hs
        have hread := h.poll ho hans hsound
        exact ⟨hread.ids, hread.nonneg, hread.processed,
          fun o' ho' => hread.listed o' (List.mem_of_mem_erase ho'), hread.gone⟩
    next => cases hs
  | event id ev runner =>
    dsimp only [LocalCancels.step] at hs
    split at hs
    · obtain rfl := Option.some.inj hs
      exact h
    next o hrow =>
      obtain rfl := Option.some.inj hs
      exact h.event hrow hsound

theorem Inv.kept (h : Inv b) : Kept b := by
  intro o ho
  cases hselected : selected o with
  | true => exact .inr rfl
  | false => exact .inl (h.gone o ho hselected).2

theorem inv_empty : Inv {} :=
  ⟨rfl, fun _ => le_rfl, (fun _ ho => nomatch ho), (fun _ ho => nomatch ho), fun _ ho => nomatch ho⟩

end

/-! ## An exit that is replaced -/

/-- The exit of ten at 100. -/
def exitOfTen : GridRestingOrder :=
  { id := 1, cellIndex := 0, purpose := .longExit, price := 100, quantity := 10 }

/-- Four of it fill, a poll books them, and everything is cancelled. -/
def polledFirst : List Act :=
  [.place 0 .longExit 100 10, .fill 1 4, .list, .poll exitOfTen ⟨4, 100, .working⟩ false,
    .cancel .all {}]

end AlgoTrade.LocalCancels
