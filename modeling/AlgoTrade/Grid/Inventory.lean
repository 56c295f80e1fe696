import AlgoTrade.Grid.Engine
import AlgoTrade.Lib.Runs
import Mathlib.Algebra.BigOperators.Group.List.Basic

/-! # What a cell's leg size says about its inventory

Beside the engine runs a record of the fills booked for each cell since it was
last empty.  In a held cell `leg_size` is that inventory; in an entry-working
cell it is the size of the working order, and nothing is booked.

* `CellOk`: the invariant of one cell and its record.
* `cellsOk_step`: a step keeps it unless it is one of the steps that write a
  cell without regard to what it holds (`StepRegards` excludes these). -/

namespace AlgoTrade

open Runs GridEngine

/-- A booking for one cell: an entry fill, an exit fill, or initial inventory a
coverage pass assigned to the cell. -/
inductive CellFill
  | entry (qty : ℚ) | exit (qty : ℚ) | seed (qty : ℚ)
  deriving DecidableEq, Repr

def CellFill.signed : CellFill → ℚ
  | entry q => q
  | exit q => -q
  | seed q => q

/-- Entries and seeds minus exits. -/
def inventory (fills : List CellFill) : ℚ := (fills.map CellFill.signed).sum

/-- An exit is booked; a cell left with at most `cellEpsilon` is empty. -/
def bookExit (fills : List CellFill) (qty : ℚ) : List CellFill :=
  let fills' := fills ++ [.exit qty]
  if inventory fills' ≤ cellEpsilon then [] else fills'

/-- The engine, and the fills booked for each cell since it was last empty. -/
structure GridState where
  engine : GridEngine
  fills : Nat → List CellFill

/-- One step of the engine.  `rows` is any rewrite of the resting order rows by
the fill readers; `cancel` covers every local cancel and deduplication. -/
inductive EngineStep
  | placeEntry (v : GridVenue) (idx : Nat) (long : Bool)
  | fill (v : GridVenue) (order : GridRestingOrder) (qty px : ℚ)
  | rehang (v : GridVenue) (idx : Nat)
  | seed (v : GridVenue) (idx : Nat) (uncoveredQty : ℚ)
  | cancel (select : GridRestingOrder → Bool)
  | rows (orders : List GridRestingOrder)
  | pause (entries waterfall : Bool)
  | release

/-- The record after a fill of `order`. -/
def bookFill (s : GridState) (order : GridRestingOrder) (qty : ℚ) : Nat → List CellFill :=
  let idx := order.cellIndex
  if s.engine.cellCount ≤ idx then s.fills
  else if order.purpose.isExit then Function.update s.fills idx (bookExit (s.fills idx) qty)
  else Function.update s.fills idx (s.fills idx ++ [.entry qty])

def engineStep (cfg : GridConfig) (s : GridState) : EngineStep → Option GridState
  | .placeEntry v idx long => some { s with engine := s.engine.placeEntry cfg v idx long }
  | .fill v order qty px =>
    if 0 < qty ∧ 0 < px then
      some { engine := s.engine.onOrderFilled cfg v order qty px, fills := bookFill s order qty }
    else none
  | .rehang v idx => some { s with engine := s.engine.rehangExit cfg v idx }
  | .seed v idx uncoveredQty =>
    let e := s.engine.seedExit cfg v idx uncoveredQty
    if (e.cells idx).state = (s.engine.cells idx).state then some { s with engine := e }
    else some { engine := e, fills := Function.update s.fills idx [.seed (e.cells idx).legSize] }
  | .cancel select => some { s with engine := s.engine.cancelWhere select }
  | .rows orders => some { s with engine := { s.engine with orders := orders } }
  | .pause entries waterfall =>
    some { s with
      engine := { s.engine with pausedEntries := entries, waterfallPause := waterfall } }
  | .release => some { s with engine := s.engine.releaseCancelledWorkingOrders }

/-! ## The invariant -/

/-- The cell holds inventory. -/
def CellState.isHeld : CellState → Bool
  | .longHeld | .shortHeld => true
  | _ => false

/-- A held cell's leg size is its inventory; a cell that is not held has none. -/
structure CellOk (c : GridCell) (fills : List CellFill) : Prop where
  held : c.state.isHeld = true → c.legSize = inventory fills
  free : c.state.isHeld = false → fills = []
  nonneg : 0 ≤ c.legSize
  idle : c.state = .idle → c.legSize ≤ cellEpsilon

/-- Every cell's leg size and state tell its inventory. -/
def CellsOk (s : GridState) : Prop := ∀ idx, CellOk (s.engine.cells idx) (s.fills idx)

@[simp] theorem inventory_append (l : List CellFill) (f : CellFill) :
    inventory (l ++ [f]) = inventory l + f.signed := by
  simp [inventory]

@[simp] theorem isHeld_heldState (p : GridPurpose) : p.heldState.isHeld = true := by
  cases p <;> rfl

@[simp] theorem placedState_exit {p : GridPurpose} (h : p.isExit = true) :
    p.placedState = p.heldState := by
  cases p <;> simp_all [GridPurpose.placedState, GridPurpose.heldState, GridPurpose.isLong,
    GridPurpose.isExit]

theorem isHeld_placedState_entry {p : GridPurpose} (h : p.isExit = false) :
    p.placedState.isHeld = false ∧ p.placedState ≠ .idle := by
  cases p <;> simp_all [GridPurpose.placedState, GridPurpose.isExit, CellState.isHeld]

theorem cellEpsilon_pos : 0 < cellEpsilon := by
  norm_num [cellEpsilon]

/-- An entry fill of a cell that does not hold the other side. -/
theorem CellOk.entryFilled {c : GridCell} {fills : List CellFill} {p : GridPurpose} {fq px : ℚ}
    (h : CellOk c fills) (hq : 0 < fq) (hside : c.state.isHeld = true → c.state = p.heldState) :
    CellOk (entryFilledCell c p fq px) (fills ++ [.entry fq]) := by
  have hleg : (entryFilledCell c p fq px).legSize = inventory (fills ++ [.entry fq]) := by
    rw [inventory_append]
    simp only [entryFilledCell, CellFill.signed]
    cases hheld : c.state.isHeld with
    | true =>
      rw [if_pos (hside hheld), max_eq_right h.nonneg, h.held hheld]
    | false =>
      have hne : c.state ≠ p.heldState := fun heq => by simp [heq] at hheld
      rw [if_neg hne, h.free hheld]
      rfl
  have hstate : (entryFilledCell c p fq px).state = p.heldState := rfl
  refine ⟨fun _ => hleg, fun hf => ?_, ?_, fun hidle => ?_⟩
  · rw [hstate, isHeld_heldState] at hf
    cases hf
  · simp only [entryFilledCell]
    split
    · linarith [le_max_left 0 c.legSize]
    · linarith
  · rw [hstate] at hidle
    have := isHeld_heldState p
    rw [hidle] at this
    cases this

/-- An exit fill of a cell that holds that side or is idle. -/
theorem CellOk.exitFilled {c : GridCell} {fills : List CellFill} {p : GridPurpose} {fq : ℚ}
    (h : CellOk c fills) (hq : 0 < fq) (hside : c.state = p.heldState ∨ c.state = .idle) :
    CellOk (exitFilledCell c p fq) (bookExit fills fq) := by
  have hleg : (exitFilledCell c p fq).legSize = max 0 (c.legSize - fq) := by
    simp only [exitFilledCell, max_eq_right h.nonneg]
  by_cases hleft : cellEpsilon < max 0 (c.legSize - fq)
  · -- inventory is left, so the cell was held
    have hpos : cellEpsilon < c.legSize - fq := by
      rcases lt_max_iff.mp hleft with h0 | h1
      · exact absurd h0 (not_lt.mpr cellEpsilon_pos.le)
      · exact h1
    have hheld : c.state = p.heldState := by
      refine hside.resolve_right fun hidle => ?_
      linarith [h.idle hidle]
    have hinv : inventory (fills ++ [.exit fq]) = c.legSize - fq := by
      rw [inventory_append, ← h.held (by simp [hheld])]
      exact (sub_eq_add_neg _ _).symm
    have hstate : (exitFilledCell c p fq).state = p.heldState := by
      simp only [exitFilledCell, max_eq_right h.nonneg, hleft, if_true]
    have hbook : bookExit fills fq = fills ++ [.exit fq] := by
      simp only [bookExit, hinv, not_le.mpr hpos, if_false]
    rw [hbook]
    refine ⟨fun _ => ?_, fun hf => ?_, ?_, fun hidle => ?_⟩
    · rw [hleg, hinv]
      exact max_eq_right (cellEpsilon_pos.le.trans hpos.le)
    · simp [hstate] at hf
    · rw [hleg]
      exact le_max_left _ _
    · have := isHeld_heldState p
      rw [← hstate, hidle] at this
      cases this
  · have hstate : (exitFilledCell c p fq).state = .idle := by
      simp only [exitFilledCell, max_eq_right h.nonneg, hleft, if_false]
    have hinv : inventory (fills ++ [.exit fq]) ≤ cellEpsilon := by
      rw [inventory_append]
      rcases hside with hheld | hidle
      · rw [← h.held (by simp [hheld])]
        have := (le_max_right 0 (c.legSize - fq)).trans (not_lt.mp hleft)
        simpa [CellFill.signed, sub_eq_add_neg] using this
      · rw [h.free (by simp [hidle, CellState.isHeld])]
        simp only [inventory, List.map_nil, List.sum_nil, CellFill.signed]
        linarith [cellEpsilon_pos]
    have hbook : bookExit fills fq = [] := by simp only [bookExit, hinv, if_true]
    rw [hbook]
    refine ⟨fun hf => ?_, fun _ => rfl, ?_, fun _ => ?_⟩
    · simp [hstate, CellState.isHeld] at hf
    · rw [hleg]
      exact le_max_left _ _
    · rw [hleg]
      exact not_lt.mp hleft

/-- A placed entry turns an idle cell into a working one. -/
theorem CellOk.placedEntry {c : GridCell} {fills : List CellFill} {p : GridPurpose} {price qty : ℚ}
    (h : CellOk c fills) (hp : p.isExit = false) (hidle : c.state = .idle) (hq : 0 < qty) :
    CellOk (placedCell c p price qty) fills := by
  obtain ⟨hfree, hne⟩ := isHeld_placedState_entry hp
  refine ⟨fun hf => ?_, fun _ => h.free (by simp [hidle, CellState.isHeld]), hq.le, fun hi => ?_⟩
  · have : p.placedState.isHeld = true := hf
    simp [hfree] at this
  · exact absurd hi hne

/-- A placed exit of the whole leg leaves a held cell as it was. -/
theorem CellOk.placedExit {c : GridCell} {fills : List CellFill} {p : GridPurpose} {price qty : ℚ}
    (h : CellOk c fills) (hp : p.isExit = true) (hheld : c.state = p.heldState)
    (hq : qty = c.legSize) : CellOk (placedCell c p price qty) fills := by
  have hstate : (placedCell c p price qty).state = c.state := by
    rw [hheld, ← placedState_exit hp]
    rfl
  have hleg : (placedCell c p price qty).legSize = c.legSize := hq
  exact ⟨fun hf => hleg.trans (h.held (hstate ▸ hf)), fun hf => h.free (hstate ▸ hf),
    hleg.symm ▸ h.nonneg, fun hi => hleg.symm ▸ h.idle (hstate ▸ hi)⟩

/-- A placed exit on an idle cell assigns it initial inventory. -/
theorem CellOk.seeded (c : GridCell) {p : GridPurpose} (price : ℚ) {qty : ℚ} (hp : p.isExit = true)
    (hq : 0 < qty) : CellOk (placedCell c p price qty) [.seed qty] := by
  have hstate : (placedCell c p price qty).state.isHeld = true := by
    have : (placedCell c p price qty).state = p.placedState := rfl
    rw [this, placedState_exit hp, isHeld_heldState]
  refine ⟨fun _ => by simp [placedCell, inventory, CellFill.signed], fun hf => ?_, hq.le,
    fun hi => ?_⟩
  · simp [hstate] at hf
  · simp [hi, CellState.isHeld] at hstate

/-- A released cell. -/
theorem CellOk.released {c : GridCell} {fills : List CellFill} (h : CellOk c fills) :
    CellOk (releasedCell c) fills := by
  unfold releasedCell
  split
  · next hwork =>
    refine ⟨fun hf => ?_, fun _ => h.free ?_, le_rfl, fun _ => cellEpsilon_pos.le⟩
    · cases hf
    · rcases hwork with hw | hw <;> simp [hw, CellState.isHeld]
  · exact h

/-! ## Every cell -/

theorem CellsOk.congr {s s' : GridState} (h : CellsOk s) (hcells : s'.engine.cells = s.engine.cells)
    (hfills : s'.fills = s.fills) : CellsOk s' := by
  intro idx
  rw [hcells, hfills]
  exact h idx

theorem CellsOk.update {s s' : GridState} {idx : Nat} {c : GridCell} {fills : List CellFill}
    (h : CellsOk s) (hcells : s'.engine.cells = Function.update s.engine.cells idx c)
    (hfills : s'.fills = Function.update s.fills idx fills) (hc : CellOk c fills) : CellsOk s' := by
  intro j
  rw [hcells, hfills]
  by_cases hj : j = idx
  · subst hj
    simpa using hc
  · simpa [hj] using h j

/-- Placing an entry on an idle cell keeps every cell. -/
theorem CellsOk.placeEntry {s : GridState} {cfg : GridConfig} {v : GridVenue} {idx : Nat}
    {p : GridPurpose} {price : ℚ} {quantity : Option ℚ} (h : CellsOk s) (hp : p.isExit = false)
    (hidle : (s.engine.cells idx).state = .idle) :
    CellsOk { s with engine := (s.engine.placeLimit cfg v idx p price quantity).1 } := by
  rcases placeLimit_cells cfg v idx p price quantity s.engine with hsame | ⟨hq, -, -, hcells⟩
  · exact h.congr hsame rfl
  · exact h.update hcells (Function.update_eq_self idx s.fills).symm
      ((h idx).placedEntry hp hidle hq)

/-- The exit is for the cell's whole leg, or is not placed. -/
def WholeLeg (cfg : GridConfig) (v : GridVenue) (idx : Nat) (p : GridPurpose) (qty : ℚ)
    (e : GridEngine) : Prop :=
  let sent := orderQuantity cfg v e p (p.line (e.cells idx)) (some qty)
  sent ≤ 0 ∨ ¬ (v.accepts = true ∧ v.inserts = true) ∨ sent = (e.cells idx).legSize

instance (cfg : GridConfig) (v : GridVenue) (idx : Nat) (p : GridPurpose) (qty : ℚ)
    (e : GridEngine) : Decidable (WholeLeg cfg v idx p qty e) :=
  inferInstanceAs (Decidable (_ ∨ _))

/-- Placing an exit for the whole leg of a held cell keeps every cell. -/
theorem CellsOk.placeExit {s : GridState} {cfg : GridConfig} {v : GridVenue} {idx : Nat}
    {p : GridPurpose} {qty : ℚ} (h : CellsOk s) (hp : p.isExit = true)
    (hheld : (s.engine.cells idx).state = p.heldState) (hw : WholeLeg cfg v idx p qty s.engine) :
    CellsOk { s with
      engine := (s.engine.placeLimit cfg v idx p (p.line (s.engine.cells idx)) (some qty)).1 } := by
  rcases placeLimit_cells cfg v idx p (p.line (s.engine.cells idx)) (some qty) s.engine with
    hsame | ⟨hq, hacc, hins, hcells⟩
  · exact h.congr hsame rfl
  · rcases hw with hnone | hnot | hwhole
    · exact absurd hq (not_lt.mpr hnone)
    · exact absurd ⟨hacc, hins⟩ hnot
    · exact h.update hcells (Function.update_eq_self idx s.fills).symm
        ((h idx).placedExit hp hheld hwhole)

/-- The exit coverage an entry fill triggers places no exit, or one for the
cell's whole leg. -/
def CoverageWhole (cfg : GridConfig) (v : GridVenue) (idx : Nat) (p : GridPurpose) (qty : ℚ)
    (e : GridEngine) : Prop :=
  let desired := normalizeGridBaseQty v qty (p.line (e.cells idx))
  let openOrders := e.openOrdersForCell idx p
  desired ≤ 0 ∨
    |(openOrders.map remainingQty).sum - desired| ≤ max (1 / 10 ^ 10) (desired * (1 / 10 ^ 8)) ∨
    (¬ openOrders.isEmpty ∧ ¬ v.cancels) ∨
    WholeLeg cfg v idx p desired (e.cancelWhere fun o => o.cellIndex = idx ∧ o.purpose = p)

instance (cfg : GridConfig) (v : GridVenue) (idx : Nat) (p : GridPurpose) (qty : ℚ)
    (e : GridEngine) : Decidable (CoverageWhole cfg v idx p qty e) :=
  inferInstanceAs (Decidable (_ ∨ _ ∨ _ ∨ _))

/-- The step writes a cell with regard to what it holds: no entry fill is booked
past a cell (paused under action `pause`) or into a cell that holds the other
side, no exit fill comes to a cell whose entry is working, and every exit is
placed for the cell's whole leg. -/
def StepRegards (cfg : GridConfig) (s : GridState) : EngineStep → Prop
  | .fill v order qty px =>
    let idx := order.cellIndex
    let p := order.purpose
    let cell := s.engine.cells idx
    let cell' := entryFilledCell cell p qty px
    idx < s.engine.cellCount →
      (p.isExit → cell.state = p.heldState ∨ cell.state = .idle) ∧
      (¬ p.isExit →
        ¬ skipsCell cfg p s.engine ∧ (cell.state.isHeld → cell.state = p.heldState) ∧
          CoverageWhole cfg v idx p.exit cell'.legSize
            { s.engine with cells := Function.update s.engine.cells idx cell' })
  | .rehang v idx =>
    let cell := s.engine.cells idx
    let p : GridPurpose := if cell.state = .longHeld then .longExit else .shortExit
    cell.state.isHeld → WholeLeg cfg v idx p
      (normalizeGridBaseQty v cell.legSize (p.line cell)) s.engine
  | _ => True

instance (cfg : GridConfig) (s : GridState) : ∀ a, Decidable (StepRegards cfg s a)
  | .fill _ _ _ _ =>
    inferInstanceAs (Decidable (_ → (_ → _ ∨ _) ∧ (_ → _ ∧ (_ → _) ∧ CoverageWhole ..)))
  | .rehang _ _ => inferInstanceAs (Decidable (_ → WholeLeg ..))
  | .placeEntry _ _ _ | .seed _ _ _ | .cancel _ | .rows _ | .pause _ _ | .release =>
    inferInstanceAs (Decidable True)

@[simp] theorem line_entryFilledCell (p r : GridPurpose) (c : GridCell) (fq px : ℚ) :
    p.line (entryFilledCell c r fq px) = p.line c := by
  cases p <;> rfl

@[simp] theorem isExit_exit (p : GridPurpose) : p.exit.isExit = true := by
  cases p <;> rfl

@[simp] theorem isExit_entry (p : GridPurpose) : p.entry.isExit = false := by
  cases p <;> rfl

@[simp] theorem heldState_exit (p : GridPurpose) : p.exit.heldState = p.heldState := by
  cases p <;> rfl

theorem CellsOk.coverage {s : GridState} (cfg : GridConfig) (v : GridVenue) {idx : Nat}
    {p : GridPurpose} {qty : ℚ} (h : CellsOk s) (hp : p.isExit = true)
    (hheld : (s.engine.cells idx).state = p.heldState)
    (hw : CoverageWhole cfg v idx p qty s.engine) :
    CellsOk { s with
      engine := (s.engine.ensureCellExitCoverage cfg v idx p (p.line (s.engine.cells idx)) qty).1 } := by
  unfold ensureCellExitCoverage
  dsimp only
  split
  · exact h
  · next hdesired =>
    split
    · exact h
    · next htol =>
      split
      · exact h
      · next hcancel =>
        have hwhole := ((hw.resolve_left hdesired).resolve_left htol).resolve_left hcancel
        exact CellsOk.placeExit
          (s := { s with
            engine := s.engine.cancelWhere fun o => o.cellIndex = idx ∧ o.purpose = p })
          (h.congr rfl rfl) hp hheld hwhole

theorem cellsOk_entryFill {cfg : GridConfig} {s : GridState} {v : GridVenue}
    {order : GridRestingOrder} {qty px : ℚ} (h : CellsOk s) (hq : 0 < qty) (hpx : 0 < px)
    (hin : order.cellIndex < s.engine.cellCount) (hp : order.purpose.isExit = false)
    (hok : StepRegards cfg s (.fill v order qty px)) :
    CellsOk
      { engine := s.engine.onOrderFilled cfg v order qty px, fills := bookFill s order qty } := by
  obtain ⟨hskip, hside, hcov⟩ := (hok hin).2 (by simp [hp])
  have hfq : orElse qty order.quantity = qty := by simp [orElse, hq.ne']
  have hfpx : orElse px order.price = px := by simp [orElse, hpx.ne']
  have hbook : bookFill s order qty = Function.update s.fills order.cellIndex
      (s.fills order.cellIndex ++ [.entry qty]) := by
    simp only [bookFill, not_le.mpr hin, if_false, hp, Bool.false_eq_true]
  have hmid : CellsOk
      { engine := { s.engine with
          cells := Function.update s.engine.cells order.cellIndex
            (entryFilledCell (s.engine.cells order.cellIndex) order.purpose qty px) }
        fills := bookFill s order qty } :=
    h.update rfl hbook ((h order.cellIndex).entryFilled hq hside)
  have hfinal := hmid.coverage cfg v (isExit_exit order.purpose)
    (by simp [entryFilledCell]) hcov
  simp only [Function.update_self, line_entryFilledCell] at hfinal
  simpa only [onOrderFilled, hfq, hfpx, not_le.mpr hin, hskip, or_self, if_false, hp,
    Bool.false_eq_true] using hfinal

theorem cellsOk_exitFill {cfg : GridConfig} {s : GridState} {v : GridVenue}
    {order : GridRestingOrder} {qty px : ℚ} (h : CellsOk s) (hq : 0 < qty)
    (hin : order.cellIndex < s.engine.cellCount) (hp : order.purpose.isExit = true)
    (hok : StepRegards cfg s (.fill v order qty px)) :
    CellsOk
      { engine := s.engine.onOrderFilled cfg v order qty px, fills := bookFill s order qty } := by
  have hside := (hok hin).1 hp
  have hfq : orElse qty order.quantity = qty := by simp [orElse, hq.ne']
  have hskip : skipsCell cfg order.purpose s.engine = false := by simp [skipsCell, hp]
  have hbook : bookFill s order qty = Function.update s.fills order.cellIndex
      (bookExit (s.fills order.cellIndex) qty) := by
    simp only [bookFill, not_le.mpr hin, if_false, hp, if_true]
  have hmid : CellsOk
      { engine := { s.engine with
          cells := Function.update s.engine.cells order.cellIndex
            (exitFilledCell (s.engine.cells order.cellIndex) order.purpose qty) }
        fills := bookFill s order qty } :=
    h.update rfl hbook ((h order.cellIndex).exitFilled hq hside)
  simp only [onOrderFilled, hfq, not_le.mpr hin, hskip, Bool.false_eq_true, or_self, if_false, hp,
    if_true]
  split
  · next hrehang =>
    have hallow := hrehang.2.2
    simp only [cellAllowsEntry, decide_eq_true_eq] at hallow
    exact CellsOk.placeEntry hmid (isExit_entry _) hallow.1
  · exact hmid

theorem cellsOk_rehang {cfg : GridConfig} {s : GridState} {v : GridVenue} {idx : Nat}
    (h : CellsOk s) (hok : StepRegards cfg s (.rehang v idx)) :
    CellsOk { s with engine := s.engine.rehangExit cfg v idx } := by
  unfold rehangExit
  dsimp only
  split
  · exact h
  · split
    · next hlong =>
      split
      · exact h
      · have hw := hok (by simp [hlong.1, CellState.isHeld])
        simp only [hlong.1, if_true] at hw
        exact h.placeExit rfl hlong.1 hw
    · split
      · next hshort =>
        split
        · exact h
        · have hw := hok (by simp [hshort.1, CellState.isHeld])
          simp only [hshort.1, reduceCtorEq, if_false] at hw
          exact h.placeExit rfl hshort.1 hw
      · exact h

theorem cellsOk_placeEntry {cfg : GridConfig} {s : GridState} {v : GridVenue} {idx : Nat}
    {long : Bool} (h : CellsOk s) :
    CellsOk { s with engine := s.engine.placeEntry cfg v idx long } := by
  have hp : (if long then GridPurpose.longEntry else .shortEntry).isExit = false := by
    cases long <;> rfl
  unfold GridEngine.placeEntry
  dsimp only
  generalize (if long then GridPurpose.longEntry else .shortEntry) = p at hp ⊢
  split
  · exact h
  · next hguard =>
    simp only [not_or, not_not] at hguard
    have hallow := hguard.2.2.2
    simp only [cellAllowsEntry, decide_eq_true_eq] at hallow
    exact CellsOk.placeEntry h hp hallow.1

/-- A seeded exit assigns initial inventory to an idle cell. -/
theorem cellsOk_seed {cfg : GridConfig} {s s' : GridState} {v : GridVenue} {idx : Nat}
    {uncoveredQty : ℚ} (h : CellsOk s)
    (hs : engineStep cfg s (.seed v idx uncoveredQty) = some s') : CellsOk s' := by
  have hp : (if cfg.direction = .long then GridPurpose.longExit else .shortExit).isExit = true := by
    split <;> rfl
  have hcells : (s.engine.seedExit cfg v idx uncoveredQty).cells = s.engine.cells ∨
      ∃ p price qty, p.isExit = true ∧ 0 < qty ∧ (s.engine.cells idx).state = .idle ∧
        (s.engine.seedExit cfg v idx uncoveredQty).cells =
          Function.update s.engine.cells idx (placedCell (s.engine.cells idx) p price qty) := by
    unfold seedExit
    dsimp only
    generalize (if cfg.direction = .long then GridPurpose.longExit else .shortExit) = p at hp ⊢
    split
    · exact .inl rfl
    · next hguard =>
      simp only [not_or, not_not] at hguard
      have hallow := hguard.2.2.2.1
      simp only [cellAllowsEntry, decide_eq_true_eq] at hallow
      have hplaced := placeLimit_cells cfg v idx p (p.line (s.engine.cells idx))
        (some (normalizeGridBaseQty v (qtyFromUsdt cfg (p.line (s.engine.cells idx)))
          (p.line (s.engine.cells idx)))) s.engine
      have hlast : ∀ r : GridEngine × Bool,
          (if r.2 = true then { r.1 with initialSeededCells := idx :: s.engine.initialSeededCells }
            else r.1).cells = r.1.cells := by
        intro r
        split <;> rfl
      rw [hlast]
      rcases hplaced with hsame | ⟨hq, -, -, hup⟩
      · exact .inl hsame
      · exact .inr ⟨p, _, _, hp, hq, hallow.1, hup⟩
  simp only [engineStep] at hs
  rcases hcells with hsame | ⟨p, price, qty, hexit, hq, hidle, hup⟩
  · rw [if_pos (by rw [hsame]), Option.some.injEq] at hs
    subst hs
    exact h.congr hsame rfl
  · have hnew := CellOk.seeded (s.engine.cells idx) price hexit hq
    have hstate : (placedCell (s.engine.cells idx) p price qty).state ≠ .idle := by
      intro hi
      have := isHeld_heldState p
      rw [← placedState_exit hexit] at this
      simp [show p.placedState = .idle from hi, CellState.isHeld] at this
    rw [if_neg (by rw [hup, Function.update_self, hidle]; exact hstate), Option.some.injEq] at hs
    subst hs
    refine h.update hup rfl ?_
    rw [hup, Function.update_self]
    exact hnew

/-- A step that regards what its cell holds keeps every cell. -/
theorem cellsOk_step {cfg : GridConfig} (s : GridState) (a : EngineStep) (s' : GridState)
    (h : CellsOk s) (hok : StepRegards cfg s a) (hs : engineStep cfg s a = some s') : CellsOk s' := by
  cases a with
  | placeEntry v idx long =>
    simp only [engineStep, Option.some.injEq] at hs
    exact hs ▸ cellsOk_placeEntry h
  | fill v order qty px =>
    simp only [engineStep, Option.ite_none_right_eq_some, Option.some.injEq] at hs
    obtain ⟨⟨hq, hpx⟩, rfl⟩ := hs
    rcases Nat.lt_or_ge order.cellIndex s.engine.cellCount with hin | hout
    · cases hp : order.purpose.isExit with
      | false => exact cellsOk_entryFill h hq hpx hin hp hok
      | true => exact cellsOk_exitFill h hq hin hp hok
    · refine h.congr ?_ ?_
      · simp only [onOrderFilled, hout, true_or, if_true]
      · simp only [bookFill, hout, if_true]
  | rehang v idx =>
    simp only [engineStep, Option.some.injEq] at hs
    exact hs ▸ cellsOk_rehang h hok
  | seed v idx uncoveredQty => exact cellsOk_seed h hs
  | cancel select =>
    simp only [engineStep, Option.some.injEq] at hs
    exact hs ▸ h.congr rfl rfl
  | rows orders =>
    simp only [engineStep, Option.some.injEq] at hs
    exact hs ▸ h.congr rfl rfl
  | pause entries waterfall =>
    simp only [engineStep, Option.some.injEq] at hs
    exact hs ▸ h.congr rfl rfl
  | release =>
    simp only [engineStep, Option.some.injEq] at hs
    subst hs
    exact fun idx => (h idx).released

/-! ## Runs -/

/-- A freshly bootstrapped ladder: every cell idle and empty. -/
structure Bootstrapped (s : GridState) : Prop where
  idle : ∀ idx, (s.engine.cells idx).state = .idle
  empty : ∀ idx, (s.engine.cells idx).legSize = 0
  unbooked : ∀ idx, s.fills idx = []

theorem Bootstrapped.cellsOk {s : GridState} (h : Bootstrapped s) : CellsOk s := by
  intro idx
  refine ⟨fun hf => ?_, fun _ => h.unbooked idx, (h.empty idx).ge, fun _ => ?_⟩
  · simp [h.idle idx, CellState.isHeld] at hf
  · rw [h.empty idx]
    exact cellEpsilon_pos.le

/-- A held cell's leg size is what was booked for it since it was last empty; a
cell with a positive booked quantity is held. -/
def CellInventory (s : GridState) : Prop :=
  ∀ idx, ((s.engine.cells idx).state.isHeld → (s.engine.cells idx).legSize = inventory (s.fills idx)) ∧
    (0 < inventory (s.fills idx) → (s.engine.cells idx).state.isHeld)

/-- A long grid of one cell between 100 and 110 with a budget of 1000. -/
def ladderConfig : GridConfig where
  direction := .long
  boundaryAction := .pause
  market := .swap
  leverage := 1
  gridBudgetUsdt := 1000

def ladder : GridState where
  engine := { cells := fun _ => { lowerPrice := 100, upperPrice := 110 }, cellCount := 1 }
  fills := fun _ => []

theorem bootstrapped_ladder : Bootstrapped ladder := ⟨fun _ => rfl, fun _ => rfl, fun _ => rfl⟩

/-- The entry of the cell as it rests after placement. -/
def ladderOrder (purpose : GridPurpose) (price : ℚ) : GridRestingOrder where
  id := 1
  cellIndex := 0
  purpose := purpose
  price := price
  quantity := 10

/-- The entry is placed and fills twice, then the exit fills in part. -/
def ladderRound : List EngineStep :=
  [.placeEntry { safeTotal := 10 } 0 true,
    .fill { safeTotal := 4 } (ladderOrder .longEntry 100) 4 100,
    .fill { safeTotal := 10 } (ladderOrder .longEntry 100) 6 100,
    .fill { safeTotal := 10 } (ladderOrder .longExit 110) 3 110]

/-- Leg size read as inventory in every state of the cell. -/
def LegAlwaysInventory (s : GridState) : Prop :=
  ∀ idx, (s.engine.cells idx).legSize = inventory (s.fills idx) ∧
    (0 < inventory (s.fills idx) → (s.engine.cells idx).state.isHeld)

end AlgoTrade
