import AlgoTrade.Backtest.Runner
import AlgoTrade.Lib.Rounding
import AlgoTrade.Robot.Orders
import Mathlib.Data.List.Sort

/-! # The grid template

The strategy that `_build_grid_v2_source` generates: a grid over the bars of a backtest,
with one limit order a cell.

* `GridConstants`, `buildGrid`: the constants of the generated source.
* `GridState`: its `g`.
* `gridProgram`: its `handle_data`, as a program of the runner. -/

namespace AlgoTrade.Robot.Grid

open Backtest

/-! ## Constants -/

inductive GridSide
  | long | short | neutral
  deriving DecidableEq, Repr

/-- The leg the initial position is on. -/
def GridSide.initialSide (side : GridSide) : Side := if side = .short then .short else .long

inductive CellRole
  | longEntry | shortEntry | longSeed | shortSeed
  deriving DecidableEq, Repr

namespace CellRole

def side : CellRole → Side
  | .longEntry | .longSeed => .long
  | .shortEntry | .shortSeed => .short

def isSeed : CellRole → Bool
  | .longEntry | .shortEntry => false
  | .longSeed | .shortSeed => true

end CellRole

/-- A cell's `CELL_ROLES`, `CELL_LOWER`, `CELL_UPPER` and `CELL_BUDGET_PCTS`, with their
index. -/
structure CellConstants where
  index : ℕ
  role : CellRole
  lower : ℚ
  upper : ℚ
  budgetPct : ℚ
  deriving DecidableEq, Repr

structure GridConstants where
  instrument : Instrument
  gridSide : GridSide
  dynamicAnchor : Bool := false
  cells : List CellConstants
  armOrder : List ℕ
  initialPositionPct : ℚ := 0
  maxOpenEntryOrders : ℕ := 4
  risk : EquityRisk := {}
  indexes : cells.map CellConstants.index = List.range cells.length
  budgetPct_nonneg : ∀ cell ∈ cells, 0 ≤ cell.budgetPct
  initialPositionPct_nonneg : 0 ≤ initialPositionPct
  seed_side : ∀ cell ∈ cells, cell.role.isSeed = true → cell.role.side = gridSide.initialSide

/-! ## The generator -/

/-- What `_build_grid_v2_source` reads of a configuration. -/
structure GridConfig where
  side : GridSide := .long
  dynamicAnchor : Bool := false
  startPrice : ℚ
  endPrice : ℚ
  gridCount : ℕ
  geometric : Bool := false
  initialPositionPct : ℚ := 0
  maxOpenOrders : ℕ := 4
  equityTakeProfitPct : ℚ := 0
  equityStopLossPct : ℚ := 0
  equityTrailingEnabled : Bool := false
  equityTrailingActivationPct : ℚ := 0
  equityTrailingCallbackPct : ℚ := 0

def maxGridCells : ℕ := 200

/-- `_equity_risk_constants`. -/
def GridConfig.risk (config : GridConfig) : EquityRisk where
  takeProfit := max 0 config.equityTakeProfitPct
  stopLoss := max 0 config.equityStopLossPct
  trailingEnabled := config.equityTrailingEnabled
  trailingActivation := max 0 config.equityTrailingActivationPct
  trailingCallback := max 0 config.equityTrailingCallbackPct

namespace GridConfig

/- The points of the geometric mode take a root, which is no rational. -/
variable (geometricPoints : ℚ → ℚ → ℕ → List ℚ) (config : GridConfig)

def low : ℚ := min config.startPrice config.endPrice

def high : ℚ := max config.startPrice config.endPrice

/-- `_grid_points` for the count of `_build_grid_v2_source`. -/
def points : List ℚ :=
  let cells := max 2 config.gridCount
  if config.low ≤ 0 ∨ config.high ≤ config.low then []
  else if config.geometric then geometricPoints config.low config.high cells
  else
    let step := (config.high - config.low) / cells
    (List.range (cells + 1)).map fun i : ℕ => Rounding.roundTo 12 (config.low + step * i)

def reference : ℚ := (config.low + config.high) / 2

def initialPct : ℚ := if config.side = .neutral then 0 else min 1 (max 0 config.initialPositionPct)

def roleOf (lower upper : ℚ) : CellRole :=
  let midpoint := (lower + upper) / 2
  match config.side with
  | .neutral => if midpoint < config.reference then .longEntry else .shortEntry
  | .short => if config.reference ≤ midpoint then .shortEntry else .shortSeed
  | .long => if midpoint < config.reference then .longEntry else .longSeed

/-- The role and the two prices of each cell. -/
def ranges : List (CellRole × ℚ × ℚ) :=
  let points := config.points geometricPoints
  (points.dropLast.zip points.tail).map fun e => (config.roleOf e.1 e.2, e.1, e.2)

def entryBudget : ℚ := if config.side = .neutral then 1 else max 0 (1 - config.initialPct)

def entryIndexes : List ℕ :=
  let ranges := config.ranges geometricPoints
  (List.range ranges.length).filter fun i => (ranges[i]?).any fun e => !e.1.isSeed

def budgetPctOf (role : CellRole) : ℚ :=
  let seeds := (config.ranges geometricPoints).countP fun e => e.1.isSeed
  let entries := (config.ranges geometricPoints).countP fun e => !e.1.isSeed
  if role.isSeed then config.initialPct / max 1 seeds else config.entryBudget / max 1 entries

/-- How far the entry of a cell is from the reference. -/
def distance (i : ℕ) : ℚ :=
  match (config.ranges geometricPoints)[i]? with
  | some (role, lower, upper) => |(if role = .longEntry then lower else upper) - config.reference|
  | none => 0

/-- A price, in units of the reference where the anchor is dynamic. -/
def scaled (price : ℚ) : ℚ :=
  if config.dynamicAnchor ∧ 0 < config.reference then price / config.reference else price

theorem initialPct_nonneg : 0 ≤ config.initialPct := by
  unfold initialPct
  split
  · exact le_rfl
  · exact le_min zero_le_one (le_max_left _ _)

theorem entryBudget_nonneg : 0 ≤ config.entryBudget := by
  unfold entryBudget
  split
  · exact zero_le_one
  · exact le_max_left _ _

theorem budgetPctOf_nonneg (role : CellRole) : 0 ≤ config.budgetPctOf geometricPoints role := by
  unfold budgetPctOf
  dsimp only
  split
  · exact div_nonneg config.initialPct_nonneg (Nat.cast_nonneg _)
  · exact div_nonneg config.entryBudget_nonneg (Nat.cast_nonneg _)

theorem roleOf_seed_side {lower upper : ℚ} (h : (config.roleOf lower upper).isSeed = true) :
    (config.roleOf lower upper).side = config.side.initialSide := by
  unfold roleOf at h ⊢
  dsimp only at h ⊢
  cases hside : config.side with
  | neutral =>
    rw [hside] at h
    dsimp only at h
    split at h
    · cases h
    · cases h
  | short =>
    dsimp only
    split
    · rfl
    · rfl
  | long =>
    dsimp only
    split
    · rfl
    · rfl

/-- The cells of the generated source. -/
def cells : List CellConstants :=
  (config.ranges geometricPoints).mapIdx fun index e =>
    { index
      role := e.1
      lower := config.scaled e.2.1
      upper := config.scaled e.2.2
      budgetPct := config.budgetPctOf geometricPoints e.1 }

theorem cells_indexes : (config.cells geometricPoints).map CellConstants.index =
    List.range (config.cells geometricPoints).length := by
  unfold cells
  rw [List.length_mapIdx, List.mapIdx_eq_zipIdx_map, List.map_map]
  exact (List.zipIdx_map_snd 0 _).trans (List.range_eq_range' ..).symm

theorem cells_spec : ∀ cell ∈ config.cells geometricPoints, 0 ≤ cell.budgetPct ∧
    (cell.role.isSeed = true → cell.role.side = config.side.initialSide) := by
  intro cell hcell
  obtain ⟨i, hi, rfl⟩ := List.mem_mapIdx.mp hcell
  obtain ⟨range, -, hrange⟩ := List.mem_map.mp (List.getElem_mem hi)
  refine ⟨config.budgetPctOf_nonneg geometricPoints _, fun hseed => ?_⟩
  dsimp only at hseed ⊢
  rw [← hrange] at hseed ⊢
  exact config.roleOf_seed_side hseed

/-- Entry slots, no more than entry cells. -/
def openEntryOrders : ℕ :=
  min (max 1 config.maxOpenOrders) (max 1 (config.entryIndexes geometricPoints).length)

/-- The entry cells, nearest to the reference first. -/
def armOrder : List ℕ :=
  (config.entryIndexes geometricPoints).insertionSort fun i j =>
    config.distance geometricPoints i ≤ config.distance geometricPoints j

end GridConfig

/-- The constants of `_build_grid_v2_source`; `none` when it raises. -/
def buildGrid (geometricPoints : ℚ → ℚ → ℕ → List ℚ) (instrument : Instrument)
    (config : GridConfig) : Option GridConstants :=
  if maxGridCells < max 2 config.gridCount then none
  else some
    { instrument
      gridSide := config.side
      dynamicAnchor := config.dynamicAnchor
      cells := config.cells geometricPoints
      armOrder := config.armOrder geometricPoints
      initialPositionPct := config.initialPct
      maxOpenEntryOrders := config.openEntryOrders geometricPoints
      risk := config.risk
      indexes := config.cells_indexes geometricPoints
      budgetPct_nonneg := fun cell hcell => (config.cells_spec geometricPoints cell hcell).1
      initialPositionPct_nonneg := config.initialPct_nonneg
      seed_side := fun cell hcell => (config.cells_spec geometricPoints cell hcell).2 }

/-! ## The state -/

inductive CellState
  | disabled | entryReady | entryPending | exitReady | exitPending
  deriving DecidableEq, Repr

inductive OrderPurpose
  | entry | exit
  deriving DecidableEq, Repr

/-- The reference of a cell's order. -/
structure CellRef where
  index : ℕ
  side : Side
  purpose : OrderPurpose
  cycle : ℕ
  deriving DecidableEq, Repr

def sideText : Side → String
  | .long => "long"
  | .short => "short"

def purposeText : OrderPurpose → String
  | .entry => "entry"
  | .exit => "exit"

/-- `"grid-%s-%s-entry-%s" % (index, side, cycle)`, or with `exit`. -/
def CellRef.text (r : CellRef) : String :=
  "grid-" ++ r.index.repr ++ "-" ++ sideText r.side ++ "-" ++ purposeText r.purpose ++ "-" ++
    r.cycle.repr

def initialText (side : Side) : String := "grid-initial-" ++ sideText side

/-- A cell, with its entries of the lists in `g`. -/
structure GridCell where
  constants : CellConstants
  state : CellState
  ref : Option CellRef := none
  quantity : ℚ := 0
  cycle : ℕ := 1
  deriving DecidableEq, Repr

namespace GridCell

def side (cell : GridCell) : Side := cell.constants.role.side

def isSeed (cell : GridCell) : Bool := cell.constants.role.isSeed

/-- The reference of its next entry. -/
def entryRef (cell : GridCell) : CellRef := ⟨cell.constants.index, cell.side, .entry, cell.cycle⟩

def exitRef (cell : GridCell) : CellRef := ⟨cell.constants.index, cell.side, .exit, cell.cycle⟩

end GridCell

structure GridState where
  anchorPrice : ℚ := 0
  initialRef : Option String := none
  initialAllocated : Bool := false
  cells : List GridCell
  halted : Bool := false
  watch : EquityWatch := {}
  equityExitPending : Bool := false
  equityStopReason : String := ""
  deriving DecidableEq, Repr

def initialState (c : GridConstants) : GridState where
  cells := c.cells.map fun constants =>
    { constants, state := if constants.role.isSeed then .disabled else .entryReady }

/-! ## Statuses -/

/-- The words of the runtime. -/
def statusName : Backtest.OrderState → String
  | .unknown => "unknown"
  | .queued => "queued"
  | .cancelled => "cancelled"
  | .event .deferred => "deferred"
  | .event .partFilled => "partial"
  | .event .filled => "filled"
  | .event .rejected => "rejected"
  | .live status => (Text.strip status).map Char.toLower

/-- `_status`. -/
def statusOf (view : View) (ref : String) : OrderStatus :=
  (view.orderStatuses.get? (.given ref)).getD {}

def nameOf (view : View) (ref : String) : String := statusName (statusOf view ref).status

def isWorking (name : String) : Bool :=
  name ∈ ["queued", "deferred", "submitted", "open", "partial"]

/-- The tolerance for quantities. -/
def dust : ℚ := 1 / 10 ^ 12

/-! ## Risk -/

/-- `_cancel_working_orders`. -/
def cancelWorkingOrders (view : View) (g : GridState) : List Request :=
  ((g.initialRef.toList ++ (g.cells.filterMap GridCell.ref).map CellRef.text).filter fun ref =>
    isWorking (nameOf view ref)).map fun ref => .cancelOrder (.given ref)

/-- The order of `_close_all` for a leg. -/
def closeLeg (c : GridConstants) (view : View) (reason : String) (side : Side) : List Request :=
  let amount := ((view.positions.get? ⟨c.instrument, some side⟩).map Position.amount).getD 0
  if dust < |amount| then
    [.order { symbol := c.instrument, kind := .targetValue, value := 0, reason
              positionSide := some side, clientOrderId := some ("grid-risk-" ++ sideText side) }]
  else []

/-- `_close_all`. -/
def closeAll (c : GridConstants) (view : View) (reason : String) (g : GridState) :
    GridState × List Request :=
  ({ g with halted := true },
    cancelWorkingOrders view g ++
      (if c.gridSide ≠ .short then closeLeg c view reason .long else []) ++
      if c.gridSide ≠ .long then closeLeg c view reason .short else [])

/-- `_risk_exit`; the requests when it exits. -/
def riskExit (c : GridConstants) (startingCash : ℚ) (view : View) (g : GridState) :
    GridState × Option (List Request) :=
  if g.equityExitPending then (g, none)
  else
    let watched := equityRiskReason c.risk startingCash view.totalValue g.watch
    let g := { g with watch := watched.1 }
    match watched.2 with
    | none => (g, none)
    | some reason =>
      let closed := closeAll c view ("grid_" ++ reason)
        { g with equityExitPending := true, equityStopReason := "grid_" ++ reason }
      (closed.1, some closed.2)

/-! ## Reconciliation -/

/-- What the seeds share. -/
def seedTotal (cells : List GridCell) : ℚ :=
  ((cells.filter GridCell.isSeed).map fun cell => cell.constants.budgetPct).sum

/-- A seed's share of the initial position. -/
def GridCell.share (filled total : ℚ) (cell : GridCell) : ℚ :=
  filled * if 0 < total then cell.constants.budgetPct / total else 0

def GridCell.allocate (filled total : ℚ) (cell : GridCell) : GridCell :=
  if cell.isSeed then
    { cell with
      quantity := cell.share filled total
      state := if dust < cell.share filled total then .exitReady else .disabled }
  else cell

/-- `_reconcile_initial`. -/
def reconcileInitial (view : View) (g : GridState) : GridState :=
  match g.initialRef with
  | none => g
  | some ref =>
    if g.initialAllocated then g
    else if nameOf view ref = "filled" then
      { g with
        cells := g.cells.map
          (GridCell.allocate |(statusOf view ref).filledQuantity| (seedTotal g.cells))
        initialAllocated := true }
    else if nameOf view ref = "rejected" ∨ nameOf view ref = "cancelled" then
      { g with halted := true }
    else g

/-- A cell of `_reconcile_cells`. -/
def reconcileCell (view : View) (cell : GridCell) : GridCell :=
  match cell.ref with
  | none => cell
  | some ref =>
    if nameOf view ref.text = "filled" then
      match cell.state with
      | .entryPending =>
        { cell with
          quantity := |(statusOf view ref.text).filledQuantity|, state := .exitReady, ref := none }
      | .exitPending =>
        { cell with state := .entryReady, cycle := cell.cycle + 1, ref := none }
      | _ => { cell with ref := none }
    else if nameOf view ref.text = "rejected" ∨ nameOf view ref.text = "cancelled" then
      { cell with
        state := if cell.state = .entryPending then .entryReady else .exitReady
        ref := none }
    else cell

/-- `_reconcile_cells`. -/
def reconcileCells (view : View) (g : GridState) : GridState :=
  { g with cells := g.cells.map (reconcileCell view) }

/-! ## Orders -/

/-- `_price`. -/
def price (c : GridConstants) (g : GridState) (raw : ℚ) : ℚ :=
  if c.dynamicAnchor then raw * g.anchorPrice else raw

/-- An amount of a leg: positive is long. -/
def signed (side : Side) (amount : ℚ) : ℚ := if side = .long then amount else -amount

/-- A limit order of a cell. -/
def cellOrder (c : GridConstants) (kind : OrderKind) (value limitPrice : ℚ) (ref : CellRef) :
    OrderRequest where
  symbol := c.instrument
  kind := kind
  value := value
  positionSide := some ref.side
  orderType := .limit
  limitPrice := some limitPrice
  reason := sideText ref.side ++ "_" ++ purposeText ref.purpose
  clientOrderId := some ref.text

/-- `_place_entry`. -/
def placeEntry (c : GridConstants) (startingCash : ℚ) (g : GridState) (cell : GridCell) :
    GridCell × OrderRequest :=
  let entryPrice := price c g
    (if cell.side = .long then cell.constants.lower else cell.constants.upper)
  ({ cell with ref := some cell.entryRef, state := .entryPending },
    if dust < |cell.quantity| then
      cellOrder c .quantity (signed cell.side |cell.quantity|) entryPrice cell.entryRef
    else
      cellOrder c .value (signed cell.side (startingCash * cell.constants.budgetPct)) entryPrice
        cell.entryRef)

/-- `_place_exit`. -/
def placeExit (c : GridConstants) (g : GridState) (cell : GridCell) :
    GridCell × List OrderRequest :=
  if |cell.quantity| ≤ dust then ({ cell with state := .entryReady }, [])
  else
    let exitPrice := price c g
      (if cell.side = .long then cell.constants.upper else cell.constants.lower)
    ({ cell with ref := some cell.exitRef, state := .exitPending },
      [cellOrder c .quantity (-signed cell.side |cell.quantity|) exitPrice cell.exitRef])

/-- The exits of `_arm_orders`. -/
def armExits (c : GridConstants) (g : GridState) :
    List ℕ → List GridCell → List GridCell × List OrderRequest
  | [], cells => (cells, [])
  | index :: indexes, cells =>
    match cells[index]? with
    | none => armExits c g indexes cells
    | some cell =>
      if cell.state = .exitReady then
        let placed := placeExit c g cell
        let rest := armExits c g indexes (cells.set index placed.1)
        (rest.1, placed.2 ++ rest.2)
      else armExits c g indexes cells

/-- The entries of `_arm_orders`; `none` for an index out of range. -/
def armEntries (c : GridConstants) (startingCash : ℚ) (g : GridState) :
    List ℕ → ℕ → List GridCell → Option (List GridCell × List OrderRequest)
  | [], _, cells => some (cells, [])
  | index :: indexes, active, cells =>
    if c.maxOpenEntryOrders ≤ active then some (cells, [])
    else
      match cells[index]? with
      | none => none
      | some cell =>
        if cell.state = .entryReady then
          let placed := placeEntry c startingCash g cell
          (armEntries c startingCash g indexes (active + 1) (cells.set index placed.1)).map
            fun rest => (rest.1, placed.2 :: rest.2)
        else armEntries c startingCash g indexes active cells

/-- `_arm_orders`. -/
def armOrders (c : GridConstants) (startingCash : ℚ) (g : GridState) :
    Option (GridState × List OrderRequest) :=
  let exits := armExits c g (List.range g.cells.length) g.cells
  let active := exits.1.countP fun cell => cell.state = .entryPending
  (armEntries c startingCash g c.armOrder active exits.1).map fun entries =>
    ({ g with cells := entries.1 }, exits.2 ++ entries.2)

/-- The order for the initial position. -/
def initialOrder (c : GridConstants) (startingCash : ℚ) : OrderRequest :=
  let side := c.gridSide.initialSide
  { symbol := c.instrument, kind := .value
    value := signed side (startingCash * c.initialPositionPct)
    positionSide := some side, reason := "grid_initial_" ++ sideText side
    clientOrderId := some (initialText side) }

/-- The initial position, when it is to be asked for. -/
def placeInitial (c : GridConstants) (startingCash : ℚ) (g : GridState) :
    GridState × List OrderRequest :=
  if 0 < c.initialPositionPct ∧ g.initialRef = none then
    ({ g with initialRef := some (initialText c.gridSide.initialSide) },
      [initialOrder c startingCash])
  else (g, [])

/-- The orders of a bar without a risk exit. -/
def placeOrders (c : GridConstants) (startingCash : ℚ) (g : GridState) :
    Option (GridState × List OrderRequest) :=
  let placed := placeInitial c startingCash g
  (armOrders c startingCash placed.1).map fun armed => (armed.1, placed.2 ++ armed.2)

/-- `handle_data` on a bar with this close. -/
def handleBar (c : GridConstants) (startingCash close : ℚ) (view : View) (g : GridState) :
    Option (GridState × List Request) :=
  let g := if g.anchorPrice ≤ 0 then { g with anchorPrice := close } else g
  let watched := riskExit c startingCash view (reconcileCells view (reconcileInitial view g))
  match watched.2 with
  | some requests => some (watched.1, requests)
  | none =>
    (placeOrders c startingCash watched.1).map fun placed => (placed.1, placed.2.map Request.order)

/-- `handle_data`. -/
def handleData (c : GridConstants) (startingCash : ℚ) : Callback GridState := fun view g =>
  match (view.visible c.instrument).getLast? with
  | none => some (g, [])
  | some row => if g.halted then some (g, []) else handleBar c startingCash row.2.close view g

/-- A missing handler. -/
def silent : Callback GridState := fun _ g => some (g, [])

/-- The generated strategy. -/
def gridProgram (c : GridConstants) (startingCash : ℚ) : Program GridState where
  init := initialState c
  beforeTradingStart := silent
  schedules := []
  onRebalance := silent
  handleData := handleData c startingCash
  afterTradingEnd := silent

end AlgoTrade.Robot.Grid
