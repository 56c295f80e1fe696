import AlgoTrade.Grid.RestingOrder
import Mathlib.Logic.Function.Basic

/-! # The grid engine's cells

A cell is one rung of the ladder with its state and its leg.  Every writer of
`qd_grid_cells` goes through `update_state` or
`release_cancelled_working_orders`: order placement (`placeLimit`), fills
(`onOrderFilled`) with the exit coverage they trigger
(`ensureCellExitCoverage`), the coverage passes (`rehangExit`, `seedExit`: one
cell's turn of `sync_held_cell_exits` and `sync_exit_coverage`) and the release
at shutdown.

* `placeLimit_cells`: what a placement can do to the cells. -/

namespace AlgoTrade

inductive CellState
  | idle | buyOpen | longHeld | sellOpen | shortHeld
  deriving DecidableEq, Repr

/-- A row of `qd_grid_cells`. -/
structure GridCell where
  lowerPrice : ℚ
  upperPrice : ℚ
  state : CellState := .idle
  legSize : ℚ := 0
  legEntryPrice : ℚ := 0
  deriving DecidableEq, Repr

namespace GridPurpose

def isExit : GridPurpose → Bool
  | longExit | shortExit => true
  | _ => false

/-- `pos_side == "long"`. -/
def isLong : GridPurpose → Bool
  | longEntry | longExit => true
  | _ => false

/-- The state a placement of this purpose writes. -/
def placedState : GridPurpose → CellState
  | longEntry => .buyOpen
  | shortEntry => .sellOpen
  | longExit => .longHeld
  | shortExit => .shortHeld

/-- The state of a cell that holds inventory of this purpose's side. -/
def heldState (p : GridPurpose) : CellState := if p.isLong then .longHeld else .shortHeld

/-- The exit that closes this purpose's side. -/
def exit (p : GridPurpose) : GridPurpose := if p.isLong then longExit else shortExit

def entry (p : GridPurpose) : GridPurpose := if p.isLong then longEntry else shortEntry

/-- The grid line an order of this purpose rests on. -/
def line (p : GridPurpose) (c : GridCell) : ℚ :=
  match p with
  | longEntry | shortExit => c.lowerPrice
  | longExit | shortEntry => c.upperPrice

end GridPurpose

/-- `boundary_action`. -/
inductive BoundaryAction
  | pause | hold | stopLoss
  deriving DecidableEq, Repr

inductive GridDirection
  | long | short | neutral
  deriving DecidableEq, Repr

structure GridConfig where
  direction : GridDirection
  boundaryAction : BoundaryAction
  market : MarketType
  leverage : ℚ
  gridBudgetUsdt : ℚ

structure GridEngine where
  cells : Nat → GridCell
  cellCount : Nat
  orders : List GridRestingOrder := []
  pausedEntries : Bool := false
  waterfallPause : Bool := false
  initialSeededCells : List Nat := []

/-- What the exchange and the position ledger answer during one step. -/
structure GridVenue where
  /-- `normalize_grid_order_quantity` -/
  normalize : ℚ → ℚ := id
  entryAllowed : Bool := true
  snapshotUnsafe : Bool := false
  /-- `resolve_reduce_only_quantity` -/
  resolveReduceOnly : ℚ → ℚ := id
  safeTotal : ℚ
  /-- `clamp_spot_close_quantity` -/
  clampSpotClose : ℚ → ℚ := id
  accepts : Bool := true
  inserts : Bool := true
  cancels : Bool := true
  autoStops : Bool := false

namespace GridEngine

/-! ## Resting orders -/

/-- `status in OPEN_STATUSES`. -/
def isOpen (o : GridRestingOrder) : Bool :=
  o.status = .placed ∨ o.status = .working ∨ o.status = .partialFill

def remainingQty (o : GridRestingOrder) : ℚ := max 0 (o.quantity - o.processedFillQty)

/-- `_open_orders_for_cell`. -/
def openOrdersForCell (e : GridEngine) (idx : Nat) (purpose : GridPurpose) :
    List GridRestingOrder :=
  e.orders.filter fun o => isOpen o ∧ o.cellIndex = idx ∧ o.purpose = purpose

/-- `has_open_for_cell`. -/
def hasOpenForCell (e : GridEngine) (idx : Nat) (purpose : GridPurpose) : Bool :=
  !(e.openOrdersForCell idx purpose).isEmpty

/-- Mark the selected open orders cancelled. -/
def cancelWhere (select : GridRestingOrder → Bool) (e : GridEngine) : GridEngine :=
  { e with
    orders := e.orders.map fun o => if isOpen o && select o then { o with status := .cancelled } else o }

/-- `_cancel_position_orders_on_exchange`. -/
def cancelPositionOrders (long exits : Bool) (v : GridVenue) (e : GridEngine) : GridEngine :=
  if v.cancels then
    e.cancelWhere fun o => o.purpose.isExit == exits && o.purpose.isLong == long
  else e

/-- `_cell_allows_entry`. -/
def cellAllowsEntry (e : GridEngine) (idx : Nat) (purpose : GridPurpose) : Bool :=
  (e.cells idx).state = .idle ∧ ¬ e.hasOpenForCell idx purpose.entry ∧
    ¬ e.hasOpenForCell idx purpose.exit

/-! ## Quantities -/

/-- `_normalize_grid_base_qty`. -/
def normalizeGridBaseQty (v : GridVenue) (qty price : ℚ) : ℚ :=
  if qty ≤ 0 ∨ price ≤ 0 then 0 else v.normalize qty

/-- `_qty_from_usdt` of the grid budget. -/
def qtyFromUsdt (cfg : GridConfig) (price : ℚ) : ℚ :=
  if price ≤ 0 ∨ cfg.gridBudgetUsdt ≤ 0 then 0
  else cfg.gridBudgetUsdt * (if cfg.market = .spot then 1 else cfg.leverage) / price

/-- `_resolve_grid_exit_quantity`: what the safe strategy quantity leaves beside
the exits that already rest on this side. -/
def resolveGridExitQuantity (cfg : GridConfig) (v : GridVenue) (e : GridEngine) (long : Bool)
    (requestedQty : ℚ) : ℚ :=
  let existing := ((e.orders.filter fun o =>
    isOpen o ∧ o.purpose.isExit ∧ o.purpose.isLong = long).map remainingQty).sum
  let amount := min (max 0 (v.resolveReduceOnly requestedQty)) (max 0 (v.safeTotal - existing))
  max 0 (if cfg.market = .spot ∧ 0 < amount then v.clampSpotClose amount else amount)

/-- The quantity `_place_limit` sends, zero or less when it sends nothing. -/
def orderQuantity (cfg : GridConfig) (v : GridVenue) (e : GridEngine) (purpose : GridPurpose)
    (price : ℚ) (quantity : Option ℚ) : ℚ :=
  let qty := normalizeGridBaseQty v (quantity.getD (qtyFromUsdt cfg price)) price
  if qty ≤ 0 then 0
  else if purpose.isExit then
    normalizeGridBaseQty v (resolveGridExitQuantity cfg v e purpose.isLong qty) price
  else qty

/-! ## Placement -/

/-- `_cell_cost_basis`. -/
def cellCostBasis (c : GridCell) (purpose : GridPurpose) : ℚ :=
  if 0 < c.legEntryPrice then c.legEntryPrice
  else if purpose.isLong then c.lowerPrice else c.upperPrice

/-- The cell after an accepted order of `qty`. -/
def placedCell (c : GridCell) (purpose : GridPurpose) (price qty : ℚ) : GridCell :=
  { c with
    state := purpose.placedState
    legSize := qty
    legEntryPrice := if purpose.isExit then cellCostBasis c purpose else price }

/-- `_place_limit`. -/
def placeLimit (cfg : GridConfig) (v : GridVenue) (idx : Nat) (purpose : GridPurpose) (price : ℚ)
    (quantity : Option ℚ) (e : GridEngine) : GridEngine × Bool :=
  let qty := orderQuantity cfg v e purpose price quantity
  if price ≤ 0 ∨ normalizeGridBaseQty v (quantity.getD (qtyFromUsdt cfg price)) price ≤ 0 then
    (e, false)
  else if ¬ purpose.isExit ∧ ¬ v.entryAllowed then
    let e' := e.cancelPositionOrders purpose.isLong false v
    (if v.snapshotUnsafe then e'.cancelPositionOrders purpose.isLong true v else e', false)
  else if qty ≤ 0 then (e, false)
  else if ¬ v.accepts then ({ e with pausedEntries := e.pausedEntries || v.autoStops }, false)
  else if ¬ v.inserts then (e, false)
  else
    let order : GridRestingOrder :=
      { id := e.orders.length + 1, cellIndex := idx, purpose := purpose, price := price
        quantity := qty }
    ({ e with
        orders := e.orders ++ [order]
        cells := Function.update e.cells idx (placedCell (e.cells idx) purpose price qty) }, true)

/-- `_ensure_cell_exit_coverage`. -/
def ensureCellExitCoverage (cfg : GridConfig) (v : GridVenue) (idx : Nat) (purpose : GridPurpose)
    (price quantity : ℚ) (e : GridEngine) : GridEngine × Bool :=
  let desired := normalizeGridBaseQty v quantity price
  let openOrders := e.openOrdersForCell idx purpose
  let covered := (openOrders.map remainingQty).sum
  if desired ≤ 0 then (e, false)
  else if |covered - desired| ≤ max (1 / 10 ^ 10) (desired * (1 / 10 ^ 8)) then (e, true)
  else if ¬ openOrders.isEmpty ∧ ¬ v.cancels then (e, false)
  else
    (e.cancelWhere fun o => o.cellIndex = idx ∧ o.purpose = purpose).placeLimit cfg v idx purpose
      price (some desired)

/-! ## Fills -/

/-- Size at or below which a cell counts as empty. -/
def cellEpsilon : ℚ := 1 / 10 ^ 10

/-- The cell after an entry fill. -/
def entryFilledCell (c : GridCell) (purpose : GridPurpose) (fq px : ℚ) : GridCell :=
  let priorQty := if c.state = purpose.heldState then max 0 c.legSize else 0
  let heldQty := priorQty + fq
  { c with
    state := purpose.heldState
    legSize := heldQty
    legEntryPrice := if 0 < heldQty then (max 0 c.legEntryPrice * priorQty + px * fq) / heldQty else px }

/-- The cell after an exit fill. -/
def exitFilledCell (c : GridCell) (purpose : GridPurpose) (fq : ℚ) : GridCell :=
  let remaining := max 0 (max 0 c.legSize - fq)
  { c with
    state := if cellEpsilon < remaining then purpose.heldState else .idle
    legSize := remaining }

/-- An entry fill that arrives while entries are paused under action `pause`
returns before the cell is touched. -/
def skipsCell (cfg : GridConfig) (purpose : GridPurpose) (e : GridEngine) : Bool :=
  (e.pausedEntries ∨ e.waterfallPause) ∧ ¬ purpose.isExit ∧ cfg.boundaryAction = .pause

/-- `on_order_filled` after the fill was booked in the strategy's ledger. -/
def onOrderFilled (cfg : GridConfig) (v : GridVenue) (order : GridRestingOrder)
    (filledQty avgPrice : ℚ) (e : GridEngine) : GridEngine :=
  let idx := order.cellIndex
  let purpose := order.purpose
  let fq := orElse filledQty order.quantity
  let px := orElse avgPrice order.price
  let cell := e.cells idx
  if e.cellCount ≤ idx ∨ skipsCell cfg purpose e then e
  else if purpose.isExit then
    let cell' := exitFilledCell cell purpose fq
    let e' := { e with cells := Function.update e.cells idx cell' }
    if cell'.legSize ≤ cellEpsilon ∧ ¬ e.pausedEntries ∧ e'.cellAllowsEntry idx purpose then
      (e'.placeLimit cfg v idx purpose.entry (purpose.entry.line cell) (some fq)).1
    else e'
  else
    let cell' := entryFilledCell cell purpose fq px
    let e' := { e with cells := Function.update e.cells idx cell' }
    (e'.ensureCellExitCoverage cfg v idx purpose.exit (purpose.exit.line cell) cell'.legSize).1

/-! ## Coverage passes, entries and release -/

/-- One cell's turn of `sync_held_cell_exits`. -/
def rehangExit (cfg : GridConfig) (v : GridVenue) (idx : Nat) (e : GridEngine) : GridEngine :=
  let cell := e.cells idx
  let rehang := fun purpose : GridPurpose =>
    let qty := normalizeGridBaseQty v cell.legSize (purpose.line cell)
    if e.hasOpenForCell idx purpose ∨ qty ≤ 0 then e
    else (e.placeLimit cfg v idx purpose (purpose.line cell) (some qty)).1
  if e.cellCount ≤ idx then e
  else if cell.state = .longHeld ∧ cfg.direction ≠ .short then rehang .longExit
  else if cell.state = .shortHeld ∧ cfg.direction ≠ .long then rehang .shortExit
  else e

/-- One candidate's turn of `sync_exit_coverage`, with the quantity the pass
still finds uncovered: a take-profit for initial inventory on an idle cell. -/
def seedExit (cfg : GridConfig) (v : GridVenue) (idx : Nat) (uncoveredQty : ℚ) (e : GridEngine) :
    GridEngine :=
  let cell := e.cells idx
  let purpose : GridPurpose := if cfg.direction = .long then .longExit else .shortExit
  let gridQty := normalizeGridBaseQty v (qtyFromUsdt cfg (purpose.line cell)) (purpose.line cell)
  if e.cellCount ≤ idx ∨ cfg.direction = .neutral ∨ idx ∈ e.initialSeededCells ∨
      ¬ e.cellAllowsEntry idx purpose ∨ gridQty ≤ 0 ∨ uncoveredQty + 1 / 10 ^ 8 < gridQty then e
  else
    let placed := e.placeLimit cfg v idx purpose (purpose.line cell) (some gridQty)
    if placed.2 then { placed.1 with initialSeededCells := idx :: e.initialSeededCells }
    else placed.1

/-- One entry of `sync_grid_orders`, on a cell that allows it. -/
def placeEntry (cfg : GridConfig) (v : GridVenue) (idx : Nat) (long : Bool) (e : GridEngine) :
    GridEngine :=
  let purpose : GridPurpose := if long then .longEntry else .shortEntry
  if e.cellCount ≤ idx ∨ e.pausedEntries ∨ e.waterfallPause ∨ ¬ e.cellAllowsEntry idx purpose then e
  else (e.placeLimit cfg v idx purpose (purpose.line (e.cells idx)) none).1

/-- A cell after `release_cancelled_working_orders`. -/
def releasedCell (c : GridCell) : GridCell :=
  if c.state = .buyOpen ∨ c.state = .sellOpen then
    { c with state := .idle, legSize := 0, legEntryPrice := 0 }
  else c

/-- `release_cancelled_working_orders`. -/
def releaseCancelledWorkingOrders (e : GridEngine) : GridEngine :=
  { e with cells := fun idx => releasedCell (e.cells idx) }

/-- `shutdown`: every open order is cancelled and the working cells released. -/
def shutdown (e : GridEngine) : GridEngine :=
  (e.cancelWhere fun _ => true).releaseCancelledWorkingOrders

/-! ## Lemmas -/

@[simp] theorem cells_cancelWhere (select : GridRestingOrder → Bool) (e : GridEngine) :
    (e.cancelWhere select).cells = e.cells := rfl

@[simp] theorem cells_cancelPositionOrders (long exits : Bool) (v : GridVenue) (e : GridEngine) :
    (e.cancelPositionOrders long exits v).cells = e.cells := by
  unfold cancelPositionOrders
  split <;> rfl

/-- A placement writes its cell with the quantity it sends, once the exchange
accepted it and the row is in, or touches no cell. -/
theorem placeLimit_cells (cfg : GridConfig) (v : GridVenue) (idx : Nat) (purpose : GridPurpose)
    (price : ℚ) (quantity : Option ℚ) (e : GridEngine) :
    (e.placeLimit cfg v idx purpose price quantity).1.cells = e.cells ∨
      (0 < orderQuantity cfg v e purpose price quantity ∧ v.accepts = true ∧ v.inserts = true ∧
        (e.placeLimit cfg v idx purpose price quantity).1.cells =
          Function.update e.cells idx
            (placedCell (e.cells idx) purpose price
              (orderQuantity cfg v e purpose price quantity))) := by
  unfold placeLimit
  dsimp only
  split
  · exact .inl rfl
  · split
    · left
      split <;> simp
    · split
      · exact .inl rfl
      · next hqty =>
        split
        · exact .inl rfl
        · next hacc =>
          split
          · exact .inl rfl
          · next hins =>
            exact .inr ⟨not_le.mp hqty, by simpa using hacc, by simpa using hins, rfl⟩

end GridEngine

end AlgoTrade
