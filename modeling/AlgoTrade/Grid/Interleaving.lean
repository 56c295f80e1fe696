import AlgoTrade.Grid.EntrySync
import AlgoTrade.Lib.Runs

/-! # Runner, poller and stream over one grid

The runner's thread syncs the entries, the poller's threads and the stream's hand
fills to the engine; nothing but the tables orders them.  `GridTable.step` is one turn
of one of them: a sync in progress, the rows a poller has listed and the entries
that fills have still to hang again are part of the state, so that any turn of
the others can come between. -/

namespace AlgoTrade

open GridEngine

/-- The grid between two turns. -/
structure GridTable where
  engine : GridEngine
  sync : Option EntrySync := none
  /-- Entries that exit fills are about to place. -/
  rehangs : List Rehang := []
  /-- Rows a poller has read and not polled yet. -/
  listed : List GridRestingOrder := []

/-- One turn. -/
inductive GridAct
  /-- the runner: `sync_grid_orders`, then its placements -/
  | syncStart (inp : SyncInputs)
  | syncTurn (v : GridVenue)
  /-- the runner: one cell of the coverage passes -/
  | rehangExit (v : GridVenue) (idx : ℕ)
  | seedExit (v : GridVenue) (idx : ℕ) (uncoveredQty : ℚ)
  | dedupeExits (purpose : GridPurpose)
  /-- the runner: `handle_boundary`, a risk exit, the guards -/
  | cancelPosition (v : GridVenue) (long exits : Bool)
  | pause (entries waterfall : Bool)
  | shutdown
  /-- a poller: it lists rows, then polls one -/
  | list
  | poll (o : GridRestingOrder) (ans : PollAnswer) (raises : Bool) (v : GridVenue)
  /-- the stream: one event of the row `id` -/
  | event (id : ℕ) (ev : ExecutionEvent) (runner : Bool) (v : GridVenue)
  /-- an exit's fill handler goes on -/
  | rehang (r : Rehang) (v : GridVenue)

namespace GridEngine

/-- The columns that a reader's `update_status` writes, in the row they are for. -/
def writtenBy (row o : GridRestingOrder) : GridRestingOrder :=
  if o.id = row.id then
    { o with
      status := row.status
      filledQuantity := row.filledQuantity
      avgFillPrice := row.avgFillPrice
      processedFillQty := row.processedFillQty }
  else o

/-- `update_status`. -/
def writeRow (row : GridRestingOrder) (e : GridEngine) : GridEngine :=
  { e with orders := e.orders.map (writtenBy row) }

/-- `processed_fill_qty = GREATEST(processed_fill_qty, total)` in the row `id`. -/
def raisedBy (id : ℕ) (total : ℚ) (o : GridRestingOrder) : GridRestingOrder :=
  if o.id = id then { o with processedFillQty := max o.processedFillQty total } else o

def raiseProcessed (id : ℕ) (total : ℚ) (e : GridEngine) : GridEngine :=
  { e with orders := e.orders.map (raisedBy id total) }

/-- `list_unprocessed`. -/
def isUnprocessed (o : GridRestingOrder) : Bool :=
  0 < o.filledQuantity ∧ o.processedFillQty + gridEpsilon < o.filledQuantity

end GridEngine

namespace GridTable

/-- `_poll_order` of a listed row: the fill is handed over before the row is written. -/
def poll (cfg : GridConfig) (o : GridRestingOrder) (ans : PollAnswer) (raises : Bool) (v : GridVenue)
    (s : GridTable) : GridTable :=
  if ans.status = .unknown then s
  else
    let reading := pollOrder ans raises o
    match reading.booking with
    | none => { s with engine := s.engine.writeRow reading.order }
    | some b =>
      let filled := s.engine.fillCell cfg v o b.quantity b.price
      { s with
        engine := filled.1.writeRow reading.order
        rehangs := s.rehangs ++ filled.2.toList }

/-- `_process_grid`: the row is written before the fill is handed over. -/
def event (cfg : GridConfig) (id : ℕ) (ev : ExecutionEvent) (runner : Bool) (v : GridVenue)
    (s : GridTable) : GridTable :=
  match s.engine.orders.find? fun o => o.id = id with
  | none => s
  | some o =>
    let written := s.engine.writeRow (projectGridRow ev o)
    if gridBooks ev runner o then
      let filled := written.fillCell cfg v o (gridDelta ev o) (gridPrice ev o)
      { s with
        engine := filled.1.raiseProcessed id (gridTotal ev o)
        rehangs := s.rehangs ++ filled.2.toList }
    else { s with engine := written }

end GridTable

def GridTable.step (cfg : GridEntryConfig) (s : GridTable) : GridAct → Option GridTable
  | .syncStart inp =>
    match s.sync with
    | some _ => none
    | none =>
      let started := s.engine.syncStart cfg inp
      some { s with engine := started.1, sync := started.2 }
  | .syncTurn v =>
    match s.sync with
    | none => none
    | some sync =>
      let turned := s.engine.syncTurn cfg v sync
      some { s with engine := turned.1, sync := turned.2 }
  | .rehangExit v idx => some { s with engine := s.engine.rehangExit cfg.toGridConfig v idx }
  | .seedExit v idx uncoveredQty =>
    some { s with engine := s.engine.seedExit cfg.toGridConfig v idx uncoveredQty }
  | .dedupeExits purpose =>
    if purpose.isExit then some { s with engine := s.engine.dedupe purpose } else none
  | .cancelPosition v long exits =>
    some { s with engine := s.engine.cancelPositionOrders long exits v }
  | .pause entries waterfall =>
    some { s with
      engine := { s.engine with pausedEntries := entries, waterfallPause := waterfall } }
  | .shutdown => some { s with engine := s.engine.shutdown }
  | .list =>
    some { s with
      listed := s.listed ++ s.engine.orders.filter fun o => isOpen o || isUnprocessed o }
  | .poll o ans raises v =>
    if o ∈ s.listed then
      some (({ s with listed := s.listed.erase o } : GridTable).poll cfg.toGridConfig o ans raises v)
    else none
  | .event id ev runner v => some (s.event cfg.toGridConfig id ev runner v)
  | .rehang r v =>
    if r ∈ s.rehangs then
      some { s with
        engine := s.engine.placeRehang cfg.toGridConfig v r
        rehangs := s.rehangs.erase r }
    else none

/-! ## Lemmas -/

namespace GridEngine

section
variable {e : GridEngine}

theorem IdsOk.nodup (h : e.IdsOk) : (e.orders.map GridRestingOrder.id).Nodup := by
  rw [h]
  exact List.nodup_range'

@[simp] theorem id_writtenBy (row o : GridRestingOrder) : (writtenBy row o).id = o.id := by
  unfold writtenBy
  split <;> rfl

@[simp] theorem id_raisedBy (id : ℕ) (total : ℚ) (o : GridRestingOrder) :
    (raisedBy id total o).id = o.id := by
  unfold raisedBy
  split <;> rfl

theorem IdsOk.map (h : e.IdsOk) {f : GridRestingOrder → GridRestingOrder}
    (hf : ∀ o, (f o).id = o.id) : ({ e with orders := e.orders.map f } : GridEngine).IdsOk := by
  unfold IdsOk at *
  dsimp only
  rw [List.map_map, List.length_map, ← h]
  exact List.map_congr_left fun o _ => hf o

theorem IdsOk.writeRow (h : e.IdsOk) (row : GridRestingOrder) : (e.writeRow row).IdsOk :=
  h.map (id_writtenBy row)

theorem IdsOk.raiseProcessed (h : e.IdsOk) (id : ℕ) (total : ℚ) :
    (e.raiseProcessed id total).IdsOk :=
  h.map (id_raisedBy id total)

end

end GridEngine

/-! ## A small grid -/

namespace GridTable

/-- A long grid over 90, 100 and 110 that may rest one entry. -/
def oneEntryGrid : GridEntryConfig :=
  { direction := .long, boundaryAction := .hold, market := .spot, leverage := 1
    gridBudgetUsdt := 900, maxOpenOrders := 1 }

def emptyTable : GridTable :=
  { engine :=
      { cells := fun idx => ⟨90 + 10 * idx, 100 + 10 * idx, .idle, 0, 0⟩, cellCount := 2 } }

def openVenue : GridVenue := { safeTotal := 1000 }

def syncAt (price : ℚ) : GridAct :=
  .syncStart { price := price, long := openVenue, short := openVenue }

/-- The whole order `id` is filled, as the stream reports it. -/
def filledEvent (id : ℕ) (qty price : ℚ) : GridAct :=
  .event id
    { id := id, quantity := qty, cumulativeQuantity := qty, isCumulative := true, price := price
      orderStatus := .filled } true openVenue

end GridTable

end AlgoTrade
