import AlgoTrade.Grid.Engine
import AlgoTrade.Lib.Lists
import Mathlib.Data.List.Sort

/-! # The entry sync

`sync_grid_orders` checks who may enter, removes doubled entries, counts the open
ones and then places one entry after another while slots are left.  `syncStart`
is its first half; `EntrySync` is what it holds between two placements and
`syncTurn` its next turn, so that fills and polls can come between.  `fillCell`
is `on_order_filled` up to the entry it re-hangs after an exit, `placeRehang`
that entry.

* `onOrderFilled_eq`: the fill handler is the two together.
* `ExitsOnly`: what the exits' functions leave alone.
* `openEntries_add_slots`, `openEntries_syncTurn`: a sync gets the slots its count
  leaves, and a turn that adds an entry gives up one. -/

namespace AlgoTrade

structure GridEntryConfig extends GridConfig where
  maxOpenOrders : ℕ

/-- `sync_grid_orders` between two placements. -/
structure EntrySync where
  /-- `remaining_slots - placed` -/
  slots : ℕ
  /-- `allowed_sides` -/
  allowed : GridPurpose → Bool
  cellStates : ℕ → CellState
  /-- What is left of the candidates of each purpose. -/
  candidates : GridPurpose → List ℕ
  openByPurpose : GridPurpose → ℕ
  /-- The purposes of the round that had no turn yet. -/
  purposes : List GridPurpose

/-- What `sync_grid_orders` is told before it places. -/
structure SyncInputs where
  price : ℚ
  client : Bool := true
  long : GridVenue
  short : GridVenue
  /-- `order_frequency` has passed since the last entry. -/
  due : Bool := true
  /-- `list_open` answers when the open entries are counted. -/
  lists : Bool := true

/-- The entry an exit fill hangs again. -/
structure Rehang where
  cellIndex : ℕ
  purpose : GridPurpose
  quantity : ℚ
  deriving DecidableEq, Repr

namespace GridEngine

/-! ## Before the placements -/

def isOpenEntry (o : GridRestingOrder) : Bool := isOpen o && !o.purpose.isExit

/-- `open_entries`. -/
def openEntries (e : GridEngine) : ℕ := e.orders.countP isOpenEntry

/-- The entries ever inserted. -/
def entryOrders (e : GridEngine) : List GridRestingOrder :=
  e.orders.filter fun o => !o.purpose.isExit

/-- Rows are numbered as they are inserted. -/
def IdsOk (e : GridEngine) : Prop := e.orders.map GridRestingOrder.id = List.range' 1 e.orders.length

/-- `_dedupe_open_entry_orders` and `_dedupe_open_exit_orders`: of the open orders
of a purpose on one cell the first with the largest remainder is kept. -/
def dedupe (purpose : GridPurpose) (e : GridEngine) : GridEngine :=
  e.cancelWhere fun o =>
    o.purpose = purpose ∧
      ∃ o' ∈ e.orders, isOpen o' = true ∧ o'.purpose = purpose ∧ o'.cellIndex = o.cellIndex ∧
        (o.quantity - o.processedFillQty < o'.quantity - o'.processedFillQty ∨
          o.quantity - o.processedFillQty = o'.quantity - o'.processedFillQty ∧ o'.id < o.id)

def dedupeEntries (e : GridEngine) : GridEngine := (e.dedupe .longEntry).dedupe .shortEntry

/-- The orders cancelled on a side that may not enter. -/
def cancelRefused (long : Bool) (v : GridVenue) (e : GridEngine) : GridEngine :=
  if v.entryAllowed then e
  else
    let e' := e.cancelPositionOrders long false v
    if v.snapshotUnsafe then e'.cancelPositionOrders long true v else e'

/-- `entry_sides`, as the purposes of their entries. -/
def entryPurposes : GridDirection → List GridPurpose
  | .long => [.longEntry]
  | .short => [.shortEntry]
  | .neutral => [.longEntry, .shortEntry]

/-- The cells `current_price` lets enter, in the order they are tried: by index
when one side trades, from the price outwards when both do. -/
def entryCandidates (dir : GridDirection) (price : ℚ) (e : GridEngine) (purpose : GridPurpose) :
    List ℕ :=
  let cells := List.range e.cellCount
  if purpose.isLong then
    let below := cells.filter fun idx => (e.cells idx).lowerPrice < price
    if dir = .neutral then
      below.mergeSort fun i j => (e.cells j).lowerPrice ≤ (e.cells i).lowerPrice
    else below
  else
    let above := cells.filter fun idx => price < (e.cells idx).upperPrice
    if dir = .neutral then
      above.mergeSort fun i j => (e.cells i).upperPrice ≤ (e.cells j).upperPrice
    else above

/-- The purposes of a round, the one with fewer open entries first. -/
def roundOf (dir : GridDirection) (openByPurpose : GridPurpose → ℕ) : List GridPurpose :=
  if dir = .neutral ∧ openByPurpose .shortEntry < openByPurpose .longEntry then
    [.shortEntry, .longEntry]
  else entryPurposes dir

/-- The sync after its checks: the sides that may not enter are cleared. -/
def clearRefused (cfg : GridEntryConfig) (inp : SyncInputs) (e : GridEngine) : GridEngine :=
  let e' := if cfg.direction = .short then e else e.cancelRefused true inp.long
  if cfg.direction = .long then e' else e'.cancelRefused false inp.short

/-- `sync_grid_orders` up to its first placement. -/
def syncStart (cfg : GridEntryConfig) (inp : SyncInputs) (e : GridEngine) :
    GridEngine × Option EntrySync :=
  let allowed : GridPurpose → Bool := fun p =>
    if p.isLong then inp.long.entryAllowed else inp.short.entryAllowed
  if e.pausedEntries ∨ inp.price ≤ 0 ∨ e.waterfallPause ∨ ¬ inp.client then (e, none)
  else
    let e₁ := e.clearRefused cfg inp
    if ¬ (entryPurposes cfg.direction).any allowed ∨ ¬ inp.due then (e₁, none)
    else
      let e₂ := e₁.dedupeEntries
      let listed := if inp.lists then e₂.orders else []
      let remainingSlots := cfg.maxOpenOrders - listed.countP isOpenEntry
      let openByPurpose : GridPurpose → ℕ := fun p =>
        listed.countP fun o => isOpen o && o.purpose = p
      if remainingSlots = 0 then (e₂, none)
      else
        (e₂, some
          { slots := remainingSlots
            allowed := allowed
            cellStates := fun idx => (e₂.cells idx).state
            candidates := e₂.entryCandidates cfg.direction inp.price
            openByPurpose := openByPurpose
            purposes := roundOf cfg.direction openByPurpose })

/-! ## The placements -/

/-- `_cell_allows_entry` against the states read when the sync began. -/
def allowsEntry (states : ℕ → CellState) (e : GridEngine) (purpose : GridPurpose) (idx : ℕ) : Bool :=
  states idx = .idle ∧ ¬ e.hasOpenForCell idx purpose.entry ∧ ¬ e.hasOpenForCell idx purpose.exit

/-- The next purpose's turn: its first candidate that allows an entry is tried. -/
def syncTurn (cfg : GridEntryConfig) (v : GridVenue) (sync : EntrySync) (e : GridEngine) :
    GridEngine × Option EntrySync :=
  match sync.purposes with
  | [] => (e, none)
  | p :: rest =>
    if sync.slots = 0 then (e, none)
    else if ¬ sync.allowed p then (e, some { sync with purposes := rest })
    else
      match (sync.candidates p).dropWhile fun idx => !allowsEntry sync.cellStates e p idx with
      | [] =>
        (e, some { sync with
          purposes := rest, candidates := Function.update sync.candidates p [] })
      | idx :: cells =>
        let sync' := { sync with candidates := Function.update sync.candidates p cells }
        let placed := e.placeLimit cfg.toGridConfig v idx p (p.line (e.cells idx)) none
        if placed.2 then
          let openByPurpose :=
            Function.update sync.openByPurpose p (sync.openByPurpose p + 1)
          (placed.1, some { sync' with
            slots := sync.slots - 1
            cellStates := Function.update sync.cellStates idx p.placedState
            openByPurpose := openByPurpose
            purposes := roundOf cfg.direction openByPurpose })
        else
          -- with two sides the other one is next, with one side the next cell
          (placed.1, some { sync' with
            purposes := if cfg.direction = .neutral then rest else p :: rest })

/-! ## The fill handler -/

/-- `on_order_filled` up to the entry it hangs again. -/
def fillCell (cfg : GridConfig) (v : GridVenue) (order : GridRestingOrder) (filledQty avgPrice : ℚ)
    (e : GridEngine) : GridEngine × Option Rehang :=
  let idx := order.cellIndex
  let purpose := order.purpose
  let fq := orElse filledQty order.quantity
  let px := orElse avgPrice order.price
  let cell := e.cells idx
  if e.cellCount ≤ idx ∨ skipsCell cfg purpose e then (e, none)
  else if purpose.isExit then
    let cell' := exitFilledCell cell purpose fq
    let e' := { e with cells := Function.update e.cells idx cell' }
    (e', if cell'.legSize ≤ cellEpsilon ∧ ¬ e.pausedEntries ∧ e'.cellAllowsEntry idx purpose then
        some ⟨idx, purpose.entry, fq⟩ else none)
  else
    let cell' := entryFilledCell cell purpose fq px
    let e' := { e with cells := Function.update e.cells idx cell' }
    ((e'.ensureCellExitCoverage cfg v idx purpose.exit (purpose.exit.line cell) cell'.legSize).1,
      none)

/-- The entry after the exit. -/
def placeRehang (cfg : GridConfig) (v : GridVenue) (r : Rehang) (e : GridEngine) : GridEngine :=
  (e.placeLimit cfg v r.cellIndex r.purpose (r.purpose.line (e.cells r.cellIndex))
    (some r.quantity)).1

/-! ## Lemmas -/

theorem openEntries_eq (e : GridEngine) : e.openEntries = e.entryOrders.countP isOpen := by
  unfold openEntries entryOrders
  rw [List.countP_filter]
  rfl

theorem isExit_exit (p : GridPurpose) : p.exit.isExit = true := by
  cases p <;> rfl

/-- What a step on the exits leaves alone. -/
structure ExitsOnly (e e' : GridEngine) : Prop where
  entries : e'.entryOrders = e.entryOrders
  ids : e.IdsOk → e'.IdsOk

section
variable {e e' e'' : GridEngine}

theorem ExitsOnly.refl (e : GridEngine) : ExitsOnly e e := ⟨rfl, id⟩

theorem ExitsOnly.trans (h : ExitsOnly e e') (h' : ExitsOnly e' e'') : ExitsOnly e e'' :=
  ⟨h'.entries.trans h.entries, fun hids => h'.ids (h.ids hids)⟩

theorem ExitsOnly.openEntries (h : ExitsOnly e e') : e'.openEntries = e.openEntries := by
  rw [openEntries_eq, openEntries_eq, h.entries]

theorem ExitsOnly.cells (f : ℕ → GridCell) : ExitsOnly e { e with cells := f } := ⟨rfl, id⟩

/-! ### Cancels -/

theorem IdsOk.cancelWhere (h : e.IdsOk) (select : GridRestingOrder → Bool) :
    (e.cancelWhere select).IdsOk := by
  unfold IdsOk GridEngine.cancelWhere at *
  dsimp only
  rw [List.map_map, List.length_map, ← h]
  refine List.map_congr_left fun o _ => ?_
  rw [Function.comp_apply]
  split <;> rfl

theorem openEntries_cancelWhere_le (select : GridRestingOrder → Bool) :
    (e.cancelWhere select).openEntries ≤ e.openEntries := by
  unfold GridEngine.openEntries cancelWhere
  dsimp only
  rw [List.countP_map]
  refine List.countP_mono_left fun o _ ho => ?_
  rw [Function.comp_apply] at ho
  split at ho
  next => cases ho
  next => exact ho

theorem ExitsOnly.cancelWhere {select : GridRestingOrder → Bool}
    (hselect : ∀ o, select o = true → o.purpose.isExit = true) :
    ExitsOnly e (e.cancelWhere select) := by
  refine ⟨?_, fun h => h.cancelWhere select⟩
  refine List.filter_map_of_forall (fun o _ hentry => ?_) fun o _ hexit => ?_
  · refine if_neg fun h => ?_
    rw [hselect o (Bool.and_eq_true_iff.mp h).2] at hentry
    cases hentry
  · split
    · exact hexit
    · exact hexit

theorem openEntries_cancelPositionOrders_le (v : GridVenue) (long exits : Bool) :
    (e.cancelPositionOrders long exits v).openEntries ≤ e.openEntries := by
  unfold cancelPositionOrders
  split
  · exact openEntries_cancelWhere_le _
  · exact le_rfl

theorem IdsOk.cancelPositionOrders (h : e.IdsOk) (v : GridVenue) (long exits : Bool) :
    (e.cancelPositionOrders long exits v).IdsOk := by
  unfold GridEngine.cancelPositionOrders
  split
  · exact h.cancelWhere _
  · exact h

@[simp] theorem cells_cancelRefused (long : Bool) (v : GridVenue) (e : GridEngine) :
    (e.cancelRefused long v).cells = e.cells := by
  unfold cancelRefused
  split
  · rfl
  · dsimp only
    split
    · rw [cells_cancelPositionOrders, cells_cancelPositionOrders]
    · rw [cells_cancelPositionOrders]

theorem openEntries_cancelRefused_le (long : Bool) (v : GridVenue) :
    (e.cancelRefused long v).openEntries ≤ e.openEntries := by
  unfold cancelRefused
  split
  · exact le_rfl
  · dsimp only
    split
    · exact (openEntries_cancelPositionOrders_le v long true).trans
        (openEntries_cancelPositionOrders_le v long false)
    · exact openEntries_cancelPositionOrders_le v long false

theorem IdsOk.cancelRefused (h : e.IdsOk) (long : Bool) (v : GridVenue) :
    (e.cancelRefused long v).IdsOk := by
  unfold GridEngine.cancelRefused
  split
  · exact h
  · dsimp only
    split
    · exact (h.cancelPositionOrders v long false).cancelPositionOrders v long true
    · exact h.cancelPositionOrders v long false

/-! ### Placements -/

theorem IdsOk.append (h : e.IdsOk) {o : GridRestingOrder} (ho : o.id = e.orders.length + 1)
    {e' : GridEngine} (he' : e'.orders = e.orders ++ [o]) : e'.IdsOk := by
  unfold IdsOk at *
  rw [he', List.map_append, h, List.length_append, List.map_singleton, List.length_singleton,
    List.range'_concat, ho, one_mul, Nat.add_comm 1]

variable {cfg : GridConfig} {v : GridVenue}

/-- What a placement does: it fails and cancels at most, or an order is inserted. -/
theorem placeLimit_cases (cfg : GridConfig) (v : GridVenue) (idx : ℕ) (purpose : GridPurpose)
    (price : ℚ) (quantity : Option ℚ) (e : GridEngine) :
    (∃ pausedEntries, e.placeLimit cfg v idx purpose price quantity =
        ({ e with pausedEntries := pausedEntries }, false)) ∨
      purpose.isExit = false ∧ v.entryAllowed = false ∧
        e.placeLimit cfg v idx purpose price quantity = (e.cancelRefused purpose.isLong v, false) ∨
      ∃ qty, (purpose.isExit = false → v.entryAllowed = true) ∧ v.accepts = true ∧
        v.inserts = true ∧ e.placeLimit cfg v idx purpose price quantity =
          ({ e with
              orders := e.orders ++ [{ id := e.orders.length + 1, cellIndex := idx
                                       purpose := purpose, price := price, quantity := qty }]
              cells := Function.update e.cells idx (placedCell (e.cells idx) purpose price qty) },
            true) := by
  unfold placeLimit
  dsimp only
  split
  · exact .inl ⟨e.pausedEntries, rfl⟩
  · split
    next hrefused =>
      have hallowed : v.entryAllowed = false := by simpa using hrefused.2
      refine .inr (.inl ⟨by simpa using hrefused.1, hallowed, ?_⟩)
      unfold cancelRefused
      rw [if_neg hrefused.2]
    next hallowed =>
      split
      · exact .inl ⟨e.pausedEntries, rfl⟩
      · split
        · exact .inl ⟨_, rfl⟩
        next haccepts =>
          split
          · exact .inl ⟨e.pausedEntries, rfl⟩
          next hinserts =>
            refine .inr (.inr ⟨_, fun hentry => ?_, by simpa using haccepts,
              by simpa using hinserts, rfl⟩)
            by_contra hnot
            exact hallowed ⟨by simp [hentry], hnot⟩

theorem IdsOk.placeLimit (h : e.IdsOk) (idx : ℕ) (purpose : GridPurpose) (price : ℚ)
    (quantity : Option ℚ) : (e.placeLimit cfg v idx purpose price quantity).1.IdsOk := by
  rcases placeLimit_cases cfg v idx purpose price quantity e with
    ⟨_, heq⟩ | ⟨-, -, heq⟩ | ⟨_, -, -, -, heq⟩
  · rw [heq]
    exact h
  · rw [heq]
    exact h.cancelRefused _ v
  · rw [heq]
    exact h.append rfl rfl

/-- A placement adds an open entry only where an entry was placed. -/
theorem openEntries_placeLimit_le (idx : ℕ) (purpose : GridPurpose) (price : ℚ)
    (quantity : Option ℚ) :
    (e.placeLimit cfg v idx purpose price quantity).1.openEntries ≤
      e.openEntries + if (e.placeLimit cfg v idx purpose price quantity).2 = true ∧
        purpose.isExit = false then 1 else 0 := by
  rcases placeLimit_cases cfg v idx purpose price quantity e with
    ⟨_, heq⟩ | ⟨-, -, heq⟩ | ⟨_, -, -, -, heq⟩
  · rw [heq]
    exact Nat.le_add_right _ _
  · rw [heq]
    exact (openEntries_cancelRefused_le _ v).trans (Nat.le_add_right _ _)
  · rw [heq]
    unfold GridEngine.openEntries
    rw [List.countP_append, List.countP_singleton]
    cases hexit : purpose.isExit <;> simp [isOpenEntry, isOpen, hexit]

theorem ExitsOnly.placeLimit {purpose : GridPurpose} (hexit : purpose.isExit = true) (idx : ℕ)
    (price : ℚ) (quantity : Option ℚ) :
    ExitsOnly e (e.placeLimit cfg v idx purpose price quantity).1 := by
  refine ⟨?_, fun h => h.placeLimit idx purpose price quantity⟩
  rcases placeLimit_cases cfg v idx purpose price quantity e with
    ⟨_, heq⟩ | ⟨hentry, -⟩ | ⟨_, -, -, -, heq⟩
  · rw [heq]
    rfl
  · rw [hexit] at hentry
    cases hentry
  · rw [heq]
    unfold entryOrders
    rw [List.filter_append, List.filter_cons_of_neg (by simp [hexit]), List.filter_nil,
      List.append_nil]

theorem ExitsOnly.ensureCellExitCoverage {purpose : GridPurpose} (hexit : purpose.isExit = true)
    (idx : ℕ) (price quantity : ℚ) :
    ExitsOnly e (e.ensureCellExitCoverage cfg v idx purpose price quantity).1 := by
  unfold GridEngine.ensureCellExitCoverage
  dsimp only
  split
  · exact .refl e
  · split
    · exact .refl e
    · split
      · exact .refl e
      · refine .trans (.cancelWhere fun o ho => ?_) (.placeLimit hexit idx price _)
        obtain ⟨-, hpurpose⟩ := of_decide_eq_true ho
        rw [hpurpose]
        exact hexit

theorem ExitsOnly.rehangExit (idx : ℕ) : ExitsOnly e (e.rehangExit cfg v idx) := by
  unfold GridEngine.rehangExit
  dsimp only
  split
  · exact .refl e
  · split
    · split
      · exact .refl e
      · exact .placeLimit rfl idx _ _
    · split
      · split
        · exact .refl e
        · exact .placeLimit rfl idx _ _
      · exact .refl e

theorem ExitsOnly.seedExit (idx : ℕ) (uncoveredQty : ℚ) :
    ExitsOnly e (e.seedExit cfg v idx uncoveredQty) := by
  have hexit : (if cfg.direction = .long then GridPurpose.longExit else .shortExit).isExit = true := by
    split <;> rfl
  unfold GridEngine.seedExit
  dsimp only
  generalize (if cfg.direction = .long then GridPurpose.longExit else .shortExit) = purpose at hexit ⊢
  split
  · exact .refl e
  · split
    · exact ⟨(ExitsOnly.placeLimit hexit _ _ _).entries, (ExitsOnly.placeLimit hexit _ _ _).ids⟩
    · exact .placeLimit hexit _ _ _

/-! ### Fills -/

theorem ExitsOnly.fillCell (order : GridRestingOrder) (qty px : ℚ) :
    ExitsOnly e (e.fillCell cfg v order qty px).1 := by
  unfold GridEngine.fillCell
  dsimp only
  split
  · exact .refl e
  · split
    · exact .cells _
    · exact .trans (.cells _) (.ensureCellExitCoverage (isExit_exit _) _ _ _)

theorem line_exitFilledCell (c : GridCell) (p purpose : GridPurpose) (fq : ℚ) :
    p.line (exitFilledCell c purpose fq) = p.line c := by
  cases p <;> rfl

/-- **The fill handler** is the fill and the entry it hangs again. -/
theorem onOrderFilled_eq (order : GridRestingOrder) (qty px : ℚ) :
    e.onOrderFilled cfg v order qty px =
      match (e.fillCell cfg v order qty px).2 with
      | none => (e.fillCell cfg v order qty px).1
      | some r => (e.fillCell cfg v order qty px).1.placeRehang cfg v r := by
  unfold onOrderFilled GridEngine.fillCell
  dsimp only
  split
  · rfl
  · split
    · split
      · dsimp only [placeRehang]
        rw [Function.update_self, line_exitFilledCell]
      · rfl
    · rfl

end

/-! ### The sync -/

section
variable {cfg : GridEntryConfig} {e : GridEngine}

theorem openEntries_clearRefused_le (inp : SyncInputs) :
    (e.clearRefused cfg inp).openEntries ≤ e.openEntries := by
  unfold clearRefused
  dsimp only
  split
  · split
    · exact le_rfl
    · exact openEntries_cancelRefused_le true _
  · split
    · exact openEntries_cancelRefused_le false _
    · exact (openEntries_cancelRefused_le false _).trans (openEntries_cancelRefused_le true _)

theorem IdsOk.clearRefused (h : e.IdsOk) (inp : SyncInputs) : (e.clearRefused cfg inp).IdsOk := by
  unfold GridEngine.clearRefused
  dsimp only
  split
  · split
    · exact h
    · exact h.cancelRefused true _
  · split
    · exact h.cancelRefused false _
    · exact (h.cancelRefused true _).cancelRefused false _

/-- What is read before the first placement. -/
theorem syncStart_cases (inp : SyncInputs) :
    ((e.syncStart cfg inp).1 = e ∨ (e.syncStart cfg inp).1 = e.clearRefused cfg inp ∨
        (e.syncStart cfg inp).1 = (e.clearRefused cfg inp).dedupeEntries) ∧
      ∀ sync, (e.syncStart cfg inp).2 = some sync →
        (e.syncStart cfg inp).1 = (e.clearRefused cfg inp).dedupeEntries ∧
          (sync.cellStates = fun idx => ((e.clearRefused cfg inp).cells idx).state) ∧
          sync.slots ≠ 0 ∧ (inp.lists = true → sync.slots =
            cfg.maxOpenOrders - (e.clearRefused cfg inp).dedupeEntries.openEntries) := by
  unfold syncStart
  dsimp only
  split
  · exact ⟨.inl rfl, fun _ h => by cases h⟩
  · split
    · exact ⟨.inr (.inl rfl), fun _ h => by cases h⟩
    · generalize hlisted : (if inp.lists = true then
        (e.clearRefused cfg inp).dedupeEntries.orders else []) = listed
      split
      · exact ⟨.inr (.inr rfl), fun _ h => by cases h⟩
      next hslots =>
        refine ⟨.inr (.inr rfl), fun sync hsync => ?_⟩
        obtain rfl := Option.some.inj hsync
        refine ⟨rfl, rfl, hslots, fun hlists => ?_⟩
        rw [if_pos hlists] at hlisted
        subst hlisted
        rfl

theorem openEntries_dedupeEntries_le : e.dedupeEntries.openEntries ≤ e.openEntries :=
  (openEntries_cancelWhere_le _).trans (openEntries_cancelWhere_le _)

theorem openEntries_syncStart_le (inp : SyncInputs) :
    (e.syncStart cfg inp).1.openEntries ≤ e.openEntries := by
  rcases (syncStart_cases inp).1 with heq | heq | heq
  · rw [heq]
  · rw [heq]
    exact openEntries_clearRefused_le inp
  · rw [heq]
    exact openEntries_dedupeEntries_le.trans (openEntries_clearRefused_le inp)

/-- A sync gets the slots that its count of the open entries leaves. -/
theorem openEntries_add_slots {inp : SyncInputs} {sync : EntrySync}
    (hsync : (e.syncStart cfg inp).2 = some sync) (hlists : inp.lists = true) :
    (e.syncStart cfg inp).1.openEntries + sync.slots = cfg.maxOpenOrders := by
  obtain ⟨heq, -, hslots, hcount⟩ := (syncStart_cases inp).2 sync hsync
  have hleft := hcount hlists
  rw [heq]
  omega

theorem IdsOk.syncStart (h : e.IdsOk) (inp : SyncInputs) : (e.syncStart cfg inp).1.IdsOk := by
  rcases (syncStart_cases inp).1 with heq | heq | heq
  · rw [heq]
    exact h
  · rw [heq]
    exact h.clearRefused inp
  · rw [heq]
    exact ((h.clearRefused inp).cancelWhere _).cancelWhere _

/-- A turn places one order at most. -/
theorem syncTurn_cases (v : GridVenue) (sync : EntrySync) :
    (e.syncTurn cfg v sync).1 = e ∧
        (∀ sync', (e.syncTurn cfg v sync).2 = some sync' → sync'.slots = sync.slots) ∨
      ∃ p idx price sync', sync.slots ≠ 0 ∧
        (e.syncTurn cfg v sync).1 = (e.placeLimit cfg.toGridConfig v idx p price none).1 ∧
        (e.syncTurn cfg v sync).2 = some sync' ∧
        sync'.slots = sync.slots -
          if (e.placeLimit cfg.toGridConfig v idx p price none).2 = true then 1 else 0 := by
  unfold syncTurn
  split
  · exact .inl ⟨rfl, fun _ h => by cases h⟩
  · split
    · exact .inl ⟨rfl, fun _ h => by cases h⟩
    next hslots =>
      split
      · exact .inl ⟨rfl, fun _ h => by obtain rfl := Option.some.inj h; rfl⟩
      · split
        · exact .inl ⟨rfl, fun _ h => by obtain rfl := Option.some.inj h; rfl⟩
        next p _ _ _ _ idx _ _ =>
          refine .inr ⟨p, idx, p.line (e.cells idx), ?_⟩
          dsimp only
          split
          · exact ⟨_, hslots, rfl, rfl, rfl⟩
          · exact ⟨_, hslots, rfl, rfl, rfl⟩

/-- **A turn** keeps the open entries and the slots that are left together. -/
theorem openEntries_syncTurn (v : GridVenue) (sync : EntrySync) :
    (e.syncTurn cfg v sync).1.openEntries +
        ((e.syncTurn cfg v sync).2.map EntrySync.slots).getD 0 ≤ e.openEntries + sync.slots := by
  rcases syncTurn_cases v sync with ⟨heq, hslots⟩ | ⟨p, idx, price, sync', hslots, heq, hsync, hleft⟩
  · rw [heq]
    cases hsync : (e.syncTurn cfg v sync).2 with
    | none => exact Nat.add_le_add_left (Nat.zero_le _) _
    | some sync' => exact Nat.add_le_add_left (hslots sync' hsync).le _
  · have hplaced : (e.placeLimit cfg.toGridConfig v idx p price none).1.openEntries ≤ _ :=
      openEntries_placeLimit_le idx p price none
    rw [heq, hsync, Option.map_some, Option.getD_some, hleft]
    split at hplaced
    next h =>
      rw [if_pos h.1]
      omega
    next => exact Nat.add_le_add hplaced (Nat.sub_le _ _)

theorem IdsOk.syncTurn (h : e.IdsOk) (v : GridVenue) (sync : EntrySync) :
    (e.syncTurn cfg v sync).1.IdsOk := by
  rcases syncTurn_cases v sync with ⟨heq, -⟩ | ⟨p, idx, price, sync', -, heq, -⟩
  · rw [heq]
    exact h
  · rw [heq]
    exact h.placeLimit idx p price none

end

end GridEngine

end AlgoTrade
