import AlgoTrade.Grid.Interleaving

/-! # The link between a cell and its entry

A cell is `BUY_OPEN` or `SELL_OPEN` from the placement of its entry to the first
fill that is booked.  From then on it is held, and the entry may go on resting
beside it.

* `Linked`: a working cell has the one entry of its side that nothing was booked
  for, and such an entry has its cell.
* `Linked.rewrite`, `Linked.insert`: what rows and cells may do to it.
* `Linked.placeLimit`, `Linked.read`, `Linked.shutdown`: what the engine's functions
  and the readers need in order to keep it. -/

namespace AlgoTrade

/-- The cell waits for an entry. -/
def CellState.isWorking : CellState → Bool
  | .buyOpen | .sellOpen => true
  | _ => false

namespace GridEngine

/-- Open, and nothing was booked for it. -/
def isFresh (o : GridRestingOrder) : Bool := isOpen o && decide (o.processedFillQty = 0)

/-- Cells and entries agree. -/
structure Linked (e : GridEngine) : Prop where
  ids : e.IdsOk
  nonneg : ∀ o ∈ e.entryOrders, 0 ≤ o.processedFillQty
  working : ∀ idx p, p.isExit = false → (e.cells idx).state = p.placedState →
    ∃ o ∈ e.entryOrders, o.cellIndex = idx ∧ o.purpose = p ∧ isFresh o = true
  fresh : ∀ o ∈ e.entryOrders, isFresh o = true →
    (e.cells o.cellIndex).state = o.purpose.placedState
  single : ∀ o ∈ e.entryOrders, ∀ o' ∈ e.entryOrders, isOpen o = true → isOpen o' = true →
    o.cellIndex = o'.cellIndex → o.purpose = o'.purpose → o = o'

/-! ## What rows and cells may do -/

section
variable {e e' : GridEngine}

theorem isWorking_placedState {p : GridPurpose} (h : p.isExit = false) :
    p.placedState.isWorking = true := by
  cases p with
  | longEntry => rfl
  | shortEntry => rfl
  | longExit => cases h
  | shortExit => cases h

theorem isWorking_placedState_exit {p : GridPurpose} (h : p.isExit = true) :
    p.placedState.isWorking = false := by
  cases p with
  | longEntry => cases h
  | shortEntry => cases h
  | longExit => rfl
  | shortExit => rfl

theorem placedState_inj {p q : GridPurpose} (hp : p.isExit = false) (hq : q.isExit = false)
    (h : p.placedState = q.placedState) : p = q := by
  revert hp hq h
  cases p <;> cases q <;> decide

theorem isWorking_heldState (p : GridPurpose) : p.heldState.isWorking = false := by
  cases p <;> rfl

theorem isExit_of_mem {o : GridRestingOrder} (h : o ∈ e.entryOrders) : o.purpose.isExit = false := by
  simpa [entryOrders] using (List.mem_filter.mp h).2

theorem isFresh_iff {o : GridRestingOrder} :
    isFresh o = true ↔ isOpen o = true ∧ o.processedFillQty = 0 := by
  unfold isFresh
  rw [Bool.and_eq_true, decide_eq_true_eq]

/-- A fresh entry's cell is working. -/
theorem Linked.isWorking (h : e.Linked) {o : GridRestingOrder} (ho : o ∈ e.entryOrders)
    (hfresh : isFresh o = true) : (e.cells o.cellIndex).state.isWorking = true := by
  rw [h.fresh o ho hfresh]
  exact isWorking_placedState (isExit_of_mem ho)

/-- What may happen to one entry's row, with the cell's state before and after. -/
structure RowKept (o o' : GridRestingOrder) (before after : CellState) : Prop where
  nonneg : 0 ≤ o'.processedFillQty
  closed : isOpen o' = true → isOpen o = true
  stays : isFresh o' = true → isFresh o = true ∧ after = before
  leaves : isFresh o = true → isFresh o' = true ∨ after.isWorking = false

/-- **Rows are rewritten** and cells change, as long as each row keeps its link. -/
theorem Linked.rewrite (h : e.Linked) (hids : e'.IdsOk) {f : GridRestingOrder → GridRestingOrder}
    (hentries : e'.entryOrders = e.entryOrders.map f)
    (hsame : ∀ o, (f o).cellIndex = o.cellIndex ∧ (f o).purpose = o.purpose)
    (hrow : ∀ o ∈ e.entryOrders,
      RowKept o (f o) (e.cells o.cellIndex).state (e'.cells o.cellIndex).state)
    (hcells : ∀ j, (e'.cells j).state = (e.cells j).state ∨ (e'.cells j).state.isWorking = false) :
    e'.Linked := by
  refine ⟨hids, fun o ho => ?_, fun idx p hp hstate => ?_, fun o ho hfresh => ?_,
    fun o ho o' ho' hopen hopen' hcell hpurpose => ?_⟩
  · rw [hentries] at ho
    obtain ⟨o, hmem, rfl⟩ := List.mem_map.mp ho
    exact (hrow o hmem).nonneg
  · have hworking : (e'.cells idx).state.isWorking = true := hstate ▸ isWorking_placedState hp
    rcases hcells idx with hsameState | hnot
    · obtain ⟨o, ho, rfl, rfl, hfresh⟩ := h.working idx p hp (hsameState ▸ hstate)
      rcases (hrow o ho).leaves hfresh with hfresh' | hnot
      · refine ⟨f o, hentries ▸ List.mem_map_of_mem ho, (hsame o).1, (hsame o).2, hfresh'⟩
      · rw [hworking] at hnot
        cases hnot
    · rw [hworking] at hnot
      cases hnot
  · rw [hentries] at ho
    obtain ⟨o, hmem, rfl⟩ := List.mem_map.mp ho
    obtain ⟨hfresh', hstate⟩ := (hrow o hmem).stays hfresh
    rw [(hsame o).1, (hsame o).2, hstate]
    exact h.fresh o hmem hfresh'
  · rw [hentries] at ho ho'
    obtain ⟨o, hmem, rfl⟩ := List.mem_map.mp ho
    obtain ⟨o', hmem', rfl⟩ := List.mem_map.mp ho'
    rw [(hsame o).1, (hsame o').1] at hcell
    rw [(hsame o).2, (hsame o').2] at hpurpose
    rw [h.single o hmem o' hmem' ((hrow o hmem).closed hopen) ((hrow o' hmem').closed hopen') hcell
      hpurpose]

theorem RowKept.refl {o : GridRestingOrder} (h : 0 ≤ o.processedFillQty) (state : CellState) :
    RowKept o o state state :=
  ⟨h, id, fun hfresh => ⟨hfresh, rfl⟩, .inl⟩

/-- A row that is not fresh may be closed. -/
theorem RowKept.cancelled {o : GridRestingOrder} (h : 0 ≤ o.processedFillQty)
    {before after : CellState} (hnot : isFresh o = true → after.isWorking = false) :
    RowKept o { o with status := .cancelled } before after :=
  ⟨h, fun hopen => (by cases hopen), fun hfresh => (by cases hfresh), fun hfresh => .inr (hnot hfresh)⟩

/-- Only exits and cells that are not working change. -/
theorem Linked.exitsOnly (h : e.Linked) (hexits : ExitsOnly e e')
    (hcells : ∀ j, (e'.cells j).state = (e.cells j).state ∨
      (e.cells j).state.isWorking = false ∧ (e'.cells j).state.isWorking = false) : e'.Linked := by
  refine h.rewrite (hexits.ids h.ids) (f := id) (hexits.entries.trans (List.map_id _).symm)
    (fun _ => ⟨rfl, rfl⟩) (fun o ho => ?_) fun j => (hcells j).imp_right And.right
  rcases hcells o.cellIndex with heq | ⟨hnot, hnot'⟩
  · rw [heq]
    exact .refl (h.nonneg o ho) _
  · have hstale : ¬ isFresh o = true := fun hfresh => by
      rw [h.isWorking ho hfresh] at hnot
      cases hnot
    exact ⟨h.nonneg o ho, id, fun hfresh => absurd hfresh hstale, fun hfresh => absurd hfresh hstale⟩

theorem entryOrders_map {f : GridRestingOrder → GridRestingOrder}
    (hf : ∀ o, (f o).purpose = o.purpose) (e : GridEngine) :
    ({ e with orders := e.orders.map f } : GridEngine).entryOrders = e.entryOrders.map f := by
  unfold entryOrders
  dsimp only
  rw [List.filter_map]
  congr 1
  refine List.filter_congr fun o _ => ?_
  rw [Function.comp_apply, hf]

/-! ### Cancels -/

/-- Open entries that nothing was booked for are not selected. -/
theorem Linked.cancelWhere (h : e.Linked) {select : GridRestingOrder → Bool}
    (hselect : ∀ o ∈ e.entryOrders, isFresh o = true → select o = true → False) :
    (e.cancelWhere select).Linked := by
  refine h.rewrite (h.ids.cancelWhere select) (entryOrders_map (fun o => ?_) e) (fun o => ?_)
    (fun o ho => ?_) fun _ => .inl rfl
  · split <;> rfl
  · split <;> exact ⟨rfl, rfl⟩
  · split
    next hsel =>
      exact .cancelled (h.nonneg o ho) fun hfresh =>
        (hselect o ho hfresh (Bool.and_eq_true_iff.mp hsel).2).elim
    next => exact .refl (h.nonneg o ho) _

/-- No entry of the side is open that nothing was booked for. -/
def NoFresh (long : Bool) (e : GridEngine) : Prop :=
  ∀ o ∈ e.entryOrders, isFresh o = true → o.purpose.isLong ≠ long

theorem Linked.cancelPositionOrders (h : e.Linked) {long exits : Bool} {v : GridVenue}
    (hno : exits = false → v.cancels = true → e.NoFresh long) :
    (e.cancelPositionOrders long exits v).Linked := by
  unfold GridEngine.cancelPositionOrders
  split
  next hcancels =>
    refine h.cancelWhere fun o ho hfresh hsel => ?_
    rw [Bool.and_eq_true, beq_iff_eq, beq_iff_eq, isExit_of_mem ho] at hsel
    exact hno hsel.1.symm hcancels o ho hfresh hsel.2
  next => exact h

theorem Linked.cancelRefused (h : e.Linked) {long : Bool} {v : GridVenue}
    (hno : v.entryAllowed = false → v.cancels = true → e.NoFresh long) :
    (e.cancelRefused long v).Linked := by
  unfold GridEngine.cancelRefused
  split
  · exact h
  next hrefused =>
    have hentries : (e.cancelPositionOrders long false v).Linked :=
      h.cancelPositionOrders fun _ => hno (by simpa using hrefused)
    dsimp only
    split
    · exact hentries.cancelPositionOrders fun h => nomatch h
    · exact hentries

/-- Of several open orders of a cell and purpose one is kept; entries have one. -/
theorem Linked.dedupe (h : e.Linked) (purpose : GridPurpose) : (e.dedupe purpose).Linked := by
  refine h.cancelWhere fun o ho hfresh hsel => ?_
  obtain ⟨hpurpose, o', ho', hopen', hpurpose', hcell, hlarger⟩ := of_decide_eq_true hsel
  have hentry' : o' ∈ e.entryOrders := by
    refine List.mem_filter.mpr ⟨ho', ?_⟩
    rw [hpurpose', ← hpurpose, isExit_of_mem ho]
    rfl
  obtain rfl : o' = o :=
    h.single o' hentry' o ho hopen' (isFresh_iff.mp hfresh).1 hcell (hpurpose'.trans hpurpose.symm)
  rcases hlarger with hlt | ⟨-, hlt⟩
  · exact lt_irrefl _ hlt
  · exact lt_irrefl _ hlt

/-- At shutdown no entry is left, and no cell waits for one. -/
theorem Linked.shutdown (h : e.Linked) : e.shutdown.Linked := by
  have hreleased : ∀ j, (e.shutdown.cells j).state.isWorking = false := by
    intro j
    show (releasedCell (e.cells j)).state.isWorking = false
    unfold releasedCell
    split
    · rfl
    next hstate =>
      obtain ⟨hbuy, hsell⟩ := not_or.mp hstate
      cases hcell : (e.cells j).state <;> first | rfl | exact absurd hcell ‹_›
  refine h.rewrite (h.ids.cancelWhere _) (entryOrders_map (fun o => ?_) e) (fun o => ?_)
    (fun o ho => ?_) fun j => .inr (hreleased j)
  · split <;> rfl
  · dsimp only
    split <;> exact ⟨rfl, rfl⟩
  · dsimp only
    split
    · exact .cancelled (h.nonneg o ho) fun _ => hreleased _
    next hclosed =>
      have hstale : ¬ isFresh o = true := fun hfresh =>
        hclosed (Bool.and_eq_true_iff.mpr ⟨(isFresh_iff.mp hfresh).1, rfl⟩)
      exact ⟨h.nonneg o ho, id, fun hfresh => absurd hfresh hstale, fun hfresh => absurd hfresh hstale⟩

/-! ### Placements -/

/-- **An entry is inserted** on a cell that waits for none. -/
theorem Linked.insert (h : e.Linked) {o : GridRestingOrder} (hids : e'.IdsOk)
    (hentry : o.purpose.isExit = false) (hfresh : isFresh o = true)
    (hentries : e'.entryOrders = e.entryOrders ++ [o])
    (hcell : (e'.cells o.cellIndex).state = o.purpose.placedState)
    (hcells : ∀ j, j ≠ o.cellIndex → (e'.cells j).state = (e.cells j).state)
    (hfree : (e.cells o.cellIndex).state.isWorking = false)
    (hno : ∀ o' ∈ e.entryOrders, isOpen o' = true → o'.cellIndex = o.cellIndex →
      o'.purpose ≠ o.purpose) : e'.Linked := by
  have hmem : ∀ o', o' ∈ e'.entryOrders ↔ o' ∈ e.entryOrders ∨ o' = o := fun o' => by
    rw [hentries, List.mem_append, List.mem_singleton]
  have helsewhere : ∀ o' ∈ e.entryOrders, isFresh o' = true → o'.cellIndex ≠ o.cellIndex := by
    intro o' ho' hfresh' heq
    have hworking := h.isWorking ho' hfresh'
    rw [heq, hfree] at hworking
    cases hworking
  refine ⟨hids, fun o' ho' => ?_, fun idx p hp hstate => ?_, fun o' ho' hfresh' => ?_,
    fun o₁ ho₁ o₂ ho₂ hopen₁ hopen₂ heq hpurpose => ?_⟩
  · rcases (hmem o').mp ho' with ho' | rfl
    · exact h.nonneg o' ho'
    · rw [(isFresh_iff.mp hfresh).2]
  · by_cases hidx : idx = o.cellIndex
    · subst hidx
      exact ⟨o, (hmem o).mpr (.inr rfl), rfl, placedState_inj hentry hp (hcell.symm.trans hstate),
        hfresh⟩
    · rw [hcells idx hidx] at hstate
      obtain ⟨o', ho', hplace⟩ := h.working idx p hp hstate
      exact ⟨o', (hmem o').mpr (.inl ho'), hplace⟩
  · rcases (hmem o').mp ho' with ho' | rfl
    · rw [hcells _ (helsewhere o' ho' hfresh')]
      exact h.fresh o' ho' hfresh'
    · exact hcell
  · rcases (hmem o₁).mp ho₁ with ho₁ | rfl <;> rcases (hmem o₂).mp ho₂ with ho₂ | rfl
    · exact h.single o₁ ho₁ o₂ ho₂ hopen₁ hopen₂ heq hpurpose
    · exact absurd hpurpose (hno o₁ ho₁ hopen₁ heq)
    · exact absurd hpurpose.symm (hno o₂ ho₂ hopen₂ heq.symm)
    · rfl

variable {cfg : GridConfig} {v : GridVenue}

/-- A placement leaves the states, but for that of its cell. -/
theorem state_placeLimit (idx : ℕ) (purpose : GridPurpose) (price : ℚ) (quantity : Option ℚ) (j : ℕ) :
    ((e.placeLimit cfg v idx purpose price quantity).1.cells j).state = (e.cells j).state ∨
      j = idx ∧
        ((e.placeLimit cfg v idx purpose price quantity).1.cells j).state = purpose.placedState := by
  rcases placeLimit_cases cfg v idx purpose price quantity e with
    ⟨_, heq⟩ | ⟨-, -, heq⟩ | ⟨_, -, -, -, heq⟩
  · rw [heq]
    exact .inl rfl
  · rw [heq, cells_cancelRefused]
    exact .inl rfl
  · rw [heq]
    dsimp only
    by_cases hj : j = idx
    · subst hj
      rw [Function.update_self]
      exact .inr ⟨rfl, rfl⟩
    · rw [Function.update_of_ne hj]
      exact .inl rfl

/-- What a placement has to find. -/
structure Placeable (v : GridVenue) (idx : ℕ) (purpose : GridPurpose) (e : GridEngine) : Prop where
  free : (e.cells idx).state.isWorking = false
  single : purpose.isExit = false → ∀ o ∈ e.entryOrders, isOpen o = true → o.cellIndex = idx →
    o.purpose ≠ purpose
  refused : purpose.isExit = false → v.entryAllowed = false → v.cancels = true →
    e.NoFresh purpose.isLong

theorem Linked.placeLimit (h : e.Linked) {idx : ℕ} {purpose : GridPurpose}
    (hplace : e.Placeable v idx purpose) (price : ℚ) (quantity : Option ℚ) :
    (e.placeLimit cfg v idx purpose price quantity).1.Linked := by
  have hids : (e.placeLimit cfg v idx purpose price quantity).1.IdsOk := h.ids.placeLimit ..
  cases hexit : purpose.isExit with
  | true =>
    refine h.exitsOnly (.placeLimit hexit idx price quantity) fun j => ?_
    refine (state_placeLimit idx purpose price quantity j).imp_right ?_
    rintro ⟨rfl, heq⟩
    rw [heq]
    exact ⟨hplace.free, isWorking_placedState_exit hexit⟩
  | false =>
    rcases placeLimit_cases cfg v idx purpose price quantity e with
      ⟨_, heq⟩ | ⟨-, hrefused, heq⟩ | ⟨qty, -, -, -, heq⟩
    · rw [heq]
      exact h.exitsOnly ⟨rfl, id⟩ fun _ => .inl rfl
    · rw [heq]
      exact h.cancelRefused fun hallowed => hplace.refused hexit hallowed
    · rw [heq] at hids ⊢
      refine h.insert (o := { id := e.orders.length + 1, cellIndex := idx, purpose := purpose
                              price := price, quantity := qty }) hids hexit rfl ?_ ?_ ?_
        hplace.free (hplace.single hexit)
      · unfold entryOrders
        rw [List.filter_append, List.filter_cons_of_pos (by simp [hexit]), List.filter_nil]
      · dsimp only
        rw [Function.update_self]
        rfl
      · intro j hj
        dsimp only
        rw [Function.update_of_ne hj]

/-- Exits find a cell that is not working. -/
theorem Placeable.exit {idx : ℕ} {purpose : GridPurpose} (hexit : purpose.isExit = true)
    (hfree : (e.cells idx).state.isWorking = false) : e.Placeable v idx purpose := by
  refine ⟨hfree, fun h => ?_, fun h => ?_⟩
  · rw [hexit] at h
    cases h
  · rw [hexit] at h
    cases h

theorem Linked.rehangExit (h : e.Linked) (idx : ℕ) : (e.rehangExit cfg v idx).Linked := by
  unfold GridEngine.rehangExit
  dsimp only
  split
  · exact h
  · split
    next hheld =>
      split
      · exact h
      · exact h.placeLimit (.exit rfl (by rw [hheld.1]; rfl)) _ _
    · split
      next hheld =>
        split
        · exact h
        · exact h.placeLimit (.exit rfl (by rw [hheld.1]; rfl)) _ _
      · exact h

theorem Linked.seedExit (h : e.Linked) (idx : ℕ) (uncoveredQty : ℚ) :
    (e.seedExit cfg v idx uncoveredQty).Linked := by
  have hexit : (if cfg.direction = .long then GridPurpose.longExit else .shortExit).isExit = true := by
    split <;> rfl
  unfold GridEngine.seedExit
  dsimp only
  generalize (if cfg.direction = .long then GridPurpose.longExit else .shortExit) = purpose at hexit ⊢
  split
  · exact h
  next hseed =>
    have hidle : (e.cells idx).state = .idle := by
      simp only [not_or, not_not] at hseed
      exact (of_decide_eq_true hseed.2.2.2.1).1
    have hplace : e.Placeable v idx purpose := .exit hexit (by rw [hidle]; rfl)
    split
    · exact (h.placeLimit hplace _ _).exitsOnly ⟨rfl, id⟩ fun _ => .inl rfl
    · exact h.placeLimit hplace _ _

/-! ### Fills -/

/-- The fill handler gets to the cell. -/
def reachesCell (cfg : GridConfig) (o : GridRestingOrder) (e : GridEngine) : Bool :=
  o.cellIndex < e.cellCount ∧ skipsCell cfg o.purpose e = false

theorem exit_placedState (p : GridPurpose) : p.exit.placedState.isWorking = false :=
  isWorking_placedState_exit (isExit_exit p)

theorem state_ensureCellExitCoverage (cfg : GridConfig) (v : GridVenue) (e : GridEngine) (idx : ℕ)
    {purpose : GridPurpose} (hexit : purpose.isExit = true) (price quantity : ℚ) (j : ℕ) :
    ((e.ensureCellExitCoverage cfg v idx purpose price quantity).1.cells j).state =
        (e.cells j).state ∨
      j = idx ∧ ((e.ensureCellExitCoverage cfg v idx purpose price quantity).1.cells
        j).state.isWorking = false := by
  unfold ensureCellExitCoverage
  dsimp only
  split
  · exact .inl rfl
  · split
    · exact .inl rfl
    · split
      · exact .inl rfl
      · refine (state_placeLimit idx purpose price _ j).imp_right ?_
        rintro ⟨rfl, heq⟩
        rw [heq]
        exact ⟨rfl, isWorking_placedState_exit hexit⟩

/-- A fill touches its cell alone, and leaves it held or idle. -/
theorem state_fillCell (o : GridRestingOrder) (qty px : ℚ) (j : ℕ) :
    (((e.fillCell cfg v o qty px).1.cells j).state = (e.cells j).state ∧
        (e.reachesCell cfg o = true → j ≠ o.cellIndex)) ∨
      j = o.cellIndex ∧ ((e.fillCell cfg v o qty px).1.cells j).state.isWorking = false := by
  unfold fillCell
  dsimp only
  split
  next hskips =>
    refine .inl ⟨rfl, fun hreaches => ?_⟩
    obtain ⟨hlt, hnot⟩ := of_decide_eq_true hreaches
    rcases hskips with hle | hskips
    · exact absurd hlt (not_lt.mpr hle)
    · rw [hnot] at hskips
      cases hskips
  · by_cases hj : j = o.cellIndex
    · subst hj
      refine .inr ⟨rfl, ?_⟩
      split
      · dsimp only
        rw [Function.update_self]
        unfold exitFilledCell
        dsimp only
        split
        · exact isWorking_heldState _
        · rfl
      · rcases state_ensureCellExitCoverage cfg v _ o.cellIndex (isExit_exit o.purpose) _ _
          o.cellIndex with heq | ⟨-, hnot⟩
        · rw [heq]
          dsimp only
          rw [Function.update_self]
          exact isWorking_heldState _
        · exact hnot
    · refine .inl ⟨?_, fun _ => hj⟩
      split
      · dsimp only
        rw [Function.update_of_ne hj]
      · rcases state_ensureCellExitCoverage cfg v _ o.cellIndex (isExit_exit o.purpose) _ _ j
          with heq | ⟨heq, -⟩
        · rw [heq]
          dsimp only
          rw [Function.update_of_ne hj]
        · exact absurd heq hj

/-! ### Readings -/

/-- What a reader's answer for a row has to find: the row as it stands; a fill that
is booked, its cell; and an entry without one is not closed. -/
structure ReadKept (cfg : GridConfig) (o : GridRestingOrder) (r : Reading) (e : GridEngine) :
    Prop where
  current : o ∈ e.orders
  waiting : r.booking ≠ none → (e.cells o.cellIndex).state.isWorking = true →
    o.purpose.isExit = false ∧ o.processedFillQty = 0
  reaches : r.booking ≠ none → o.purpose.isExit = false → e.reachesCell cfg o = true
  opened : o.purpose.isExit = false → isOpen o = true
  stays : o.purpose.isExit = false → r.booking = none → o.processedFillQty = 0 →
    isOpen r.order = true

/-- What a reading says of the booked quantity. -/
structure BooksRow (o : GridRestingOrder) (r : Reading) : Prop where
  kept : r.booking = none → r.order.processedFillQty = o.processedFillQty
  raised : r.booking ≠ none → 0 ≤ o.processedFillQty → 0 < r.order.processedFillQty

/-- **A row is read**: its columns are written, and its cell is where the fill went. -/
theorem Linked.read (h : e.Linked) {o : GridRestingOrder} {r : Reading}
    (hkept : e.ReadKept cfg o r) (hbooks : BooksRow o r) (hids : e'.IdsOk)
    {f : GridRestingOrder → GridRestingOrder} (hentries : e'.entryOrders = e.entryOrders.map f)
    (hsame : ∀ o', (f o').cellIndex = o'.cellIndex ∧ (f o').purpose = o'.purpose)
    (hother : ∀ o', o'.id ≠ o.id → f o' = o')
    (hstatus : (f o).status = r.order.status)
    (hprocessed : (f o).processedFillQty = r.order.processedFillQty)
    (hcells : ∀ j, (e'.cells j).state = (e.cells j).state ∧
        (r.booking ≠ none → e.reachesCell cfg o = true → j ≠ o.cellIndex) ∨
      r.booking ≠ none ∧ j = o.cellIndex ∧ (e'.cells j).state.isWorking = false) : e'.Linked := by
  have hopen : isOpen (f o) = isOpen r.order := by
    unfold isOpen
    rw [hstatus]
  refine h.rewrite hids hentries hsame (fun o' ho' => ?_) fun j =>
    (hcells j).imp And.left fun hcell => hcell.2.2
  by_cases hid : o'.id = o.id
  · obtain rfl : o' = o :=
      List.inj_on_of_nodup_map h.ids.nodup (List.mem_of_mem_filter ho') hkept.current hid
    have hentry := isExit_of_mem ho'
    by_cases hbooked : r.booking = none
    · have hsameQty := hprocessed.trans (hbooks.kept hbooked)
      have hstate : (e'.cells o'.cellIndex).state = (e.cells o'.cellIndex).state :=
        (hcells o'.cellIndex).elim And.left fun hcell => absurd hbooked hcell.1
      refine ⟨hsameQty ▸ h.nonneg o' ho', fun _ => hkept.opened hentry, fun hfresh => ⟨?_, hstate⟩,
        fun hfresh => .inl ?_⟩
      · exact isFresh_iff.mpr ⟨hkept.opened hentry, hsameQty ▸ (isFresh_iff.mp hfresh).2⟩
      · obtain ⟨-, hzero⟩ := isFresh_iff.mp hfresh
        exact isFresh_iff.mpr ⟨hopen.trans (hkept.stays hentry hbooked hzero), hsameQty.trans hzero⟩
    · have hpos : 0 < (f o').processedFillQty := by
        rw [hprocessed]
        exact hbooks.raised hbooked (h.nonneg o' ho')
      refine ⟨hpos.le, fun _ => hkept.opened hentry, fun hfresh => ?_, fun _ => .inr ?_⟩
      · exact absurd (isFresh_iff.mp hfresh).2 hpos.ne'
      · rcases hcells o'.cellIndex with ⟨-, hne⟩ | ⟨-, -, hnot⟩
        · exact absurd rfl (hne hbooked (hkept.reaches hbooked hentry))
        · exact hnot
  · rw [hother o' hid]
    rcases hcells o'.cellIndex with ⟨heq, -⟩ | ⟨hbooked, hcell, hnot⟩
    · rw [heq]
      exact .refl (h.nonneg o' ho') _
    · have hstale : ¬ isFresh o' = true := by
        intro hfresh
        have hstate := h.fresh o' ho' hfresh
        obtain ⟨hentry, hzero⟩ := hkept.waiting hbooked (hcell ▸ h.isWorking ho' hfresh)
        have hmem : o ∈ e.entryOrders :=
          List.mem_filter.mpr ⟨hkept.current, by rw [hentry]; rfl⟩
        have hstate' := h.fresh o hmem (isFresh_iff.mpr ⟨hkept.opened hentry, hzero⟩)
        rw [hcell, hstate'] at hstate
        have hpurpose := placedState_inj hentry (isExit_of_mem ho') hstate
        exact hid (congrArg GridRestingOrder.id (h.single o' ho' o hmem (isFresh_iff.mp hfresh).1
          (hkept.opened hentry) hcell hpurpose.symm))
      exact ⟨h.nonneg o' ho', id, fun hfresh => absurd hfresh hstale,
        fun hfresh => absurd hfresh hstale⟩

theorem BooksRow.pollOrder (ans : PollAnswer) (raises : Bool) (o : GridRestingOrder) :
    BooksRow o (pollOrder ans raises o) := by
  have hbooks := pollOrder_books ans raises o
  refine ⟨fun hnone => ?_, fun hsome hnonneg => ?_⟩
  · rw [hbooks, Reading.booked, hnone, Option.map_none, Option.getD_none, add_zero]
  · have hpos : 0 < (AlgoTrade.pollOrder ans raises o).booked := by
      revert hsome
      unfold AlgoTrade.pollOrder Reading.booked
      dsimp only
      split
      · exact fun hsome => absurd rfl hsome
      · split
        next hnew =>
          split
          · exact fun hsome => absurd rfl hsome
          · exact fun _ => gridEpsilon_pos.trans hnew
        · exact fun hsome => absurd rfl hsome
    rw [hbooks]
    linarith

/-- What an event that is handed over leaves. -/
theorem processGrid_of_books {ev : ExecutionEvent} {runner : Bool} {o : GridRestingOrder}
    (h : gridBooks ev runner o = true) :
    processGrid ev runner o =
      ⟨{ projectGridRow ev o with processedFillQty := max o.processedFillQty (gridTotal ev o) },
        some ⟨gridDelta ev o, gridPrice ev o⟩⟩ := by
  simp only [gridBooks, decide_eq_true_eq] at h
  obtain ⟨hdelta, hprice, hrunner⟩ := h
  simp only [processGrid, not_le.mpr hdelta, not_le.mpr hprice, or_self, if_false, hrunner, if_true]

theorem BooksRow.processGrid (ev : ExecutionEvent) (runner : Bool) (o : GridRestingOrder) :
    BooksRow o (processGrid ev runner o) := by
  cases hbooks : gridBooks ev runner o with
  | false =>
    rw [processGrid_unbooked hbooks]
    exact ⟨fun _ => rfl, fun hsome => absurd rfl hsome⟩
  | true =>
    rw [processGrid_of_books hbooks]
    refine ⟨fun hnone => (by cases hnone), fun _ hnonneg => ?_⟩
    obtain ⟨hdelta, -⟩ := of_decide_eq_true hbooks
    have hpos : 0 < gridDelta ev o := gridEpsilon_pos.trans hdelta
    unfold gridDelta at hpos
    have htotal : 0 < gridTotal ev o - o.processedFillQty := by
      by_contra hle
      rw [max_eq_left (not_lt.mp hle)] at hpos
      exact lt_irrefl _ hpos
    exact lt_max_of_lt_right (by linarith)

/-! ### The sync -/

/-- What is open after a cancel was there before. -/
theorem mem_of_cancelWhere {select : GridRestingOrder → Bool} {o : GridRestingOrder}
    (ho : o ∈ (e.cancelWhere select).entryOrders) (hopen : isOpen o = true) : o ∈ e.entryOrders := by
  obtain ⟨hmem, hentry⟩ := List.mem_filter.mp ho
  obtain ⟨o', ho', heq⟩ := List.mem_map.mp hmem
  split at heq
  · subst heq
    cases hopen
  · subst heq
    exact List.mem_filter.mpr ⟨ho', hentry⟩

theorem mem_of_cancelPositionOrders {long exits : Bool} {o : GridRestingOrder}
    (ho : o ∈ (e.cancelPositionOrders long exits v).entryOrders) (hopen : isOpen o = true) :
    o ∈ e.entryOrders := by
  unfold GridEngine.cancelPositionOrders at ho
  split at ho
  · exact mem_of_cancelWhere ho hopen
  · exact ho

theorem mem_of_cancelRefused {long : Bool} {o : GridRestingOrder}
    (ho : o ∈ (e.cancelRefused long v).entryOrders) (hopen : isOpen o = true) :
    o ∈ e.entryOrders := by
  unfold GridEngine.cancelRefused at ho
  split at ho
  · exact ho
  · dsimp only at ho
    split at ho
    · exact mem_of_cancelPositionOrders (mem_of_cancelPositionOrders ho hopen) hopen
    · exact mem_of_cancelPositionOrders ho hopen

/-- A sync clears a side that may not enter of entries that were filled in part. -/
theorem Linked.clearRefused {cfg : GridEntryConfig} (h : e.Linked) {inp : SyncInputs}
    (hlong : inp.long.entryAllowed = false → inp.long.cancels = true → e.NoFresh true)
    (hshort : inp.short.entryAllowed = false → inp.short.cancels = true → e.NoFresh false) :
    (e.clearRefused cfg inp).Linked := by
  have hboth : ((e.cancelRefused true inp.long).cancelRefused false inp.short).Linked := by
    refine (h.cancelRefused hlong).cancelRefused fun hrefused hcancels => ?_
    exact fun o ho hfresh => hshort hrefused hcancels o
      (mem_of_cancelRefused ho (isFresh_iff.mp hfresh).1) hfresh
  unfold GridEngine.clearRefused
  dsimp only
  split
  · split
    · exact h
    · exact h.cancelRefused hlong
  · split
    · exact h.cancelRefused hshort
    · exact hboth

theorem Linked.syncStart {cfg : GridEntryConfig} (h : e.Linked) {inp : SyncInputs}
    (hlong : inp.long.entryAllowed = false → inp.long.cancels = true → e.NoFresh true)
    (hshort : inp.short.entryAllowed = false → inp.short.cancels = true → e.NoFresh false) :
    (e.syncStart cfg inp).1.Linked := by
  rcases (syncStart_cases inp).1 with heq | heq | heq
  · rw [heq]
    exact h
  · rw [heq]
    exact h.clearRefused hlong hshort
  · rw [heq]
    exact ((h.clearRefused hlong hshort).dedupe _).dedupe _

/-- A cell that passes the check has no open entry of the purpose. -/
theorem not_open_of_hasOpenForCell {idx : ℕ} {p : GridPurpose}
    (hnone : e.hasOpenForCell idx p = false) {o : GridRestingOrder} (ho : o ∈ e.entryOrders)
    (hopen : isOpen o = true) (hcell : o.cellIndex = idx) : o.purpose ≠ p := by
  intro hpurpose
  have hmem : o ∈ e.openOrdersForCell idx p :=
    List.mem_filter.mpr ⟨List.mem_of_mem_filter ho, decide_eq_true ⟨hopen, hcell, hpurpose⟩⟩
  unfold hasOpenForCell at hnone
  rw [Bool.not_eq_false', List.isEmpty_iff] at hnone
  rw [hnone] at hmem
  cases hmem

theorem entry_of_entry {p : GridPurpose} (h : p.isExit = false) : p.entry = p := by
  cases p with
  | longEntry => rfl
  | shortEntry => rfl
  | longExit => cases h
  | shortExit => cases h

/-- What a turn of the sync has to find: a cell that passes the check against the
states read before does not wait for an entry by now. -/
structure TurnKept (v : GridVenue) (sync : EntrySync) (p : GridPurpose) (e : GridEngine) : Prop where
  free : ∀ idx ∈ sync.candidates p, allowsEntry sync.cellStates e p idx = true →
    (e.cells idx).state.isWorking = false
  refused : v.entryAllowed = false → v.cancels = true → e.NoFresh p.isLong

theorem Linked.syncTurn {cfg : GridEntryConfig} (h : e.Linked) {sync : EntrySync}
    (hkept : ∀ p ∈ sync.purposes.head?, e.TurnKept v sync p) : (e.syncTurn cfg v sync).1.Linked := by
  unfold GridEngine.syncTurn
  split
  · exact h
  next p rest hpurposes =>
    split
    · exact h
    · split
      · exact h
      · split
        · exact h
        next idx cells hcells =>
          obtain ⟨hfree, hrefused⟩ := hkept p (by rw [hpurposes]; rfl)
          have hmem : idx ∈ sync.candidates p :=
            (List.dropWhile_sublist _).mem (hcells ▸ List.mem_cons_self)
          have hallows : allowsEntry sync.cellStates e p idx = true := by
            have hhead := List.head?_dropWhile_not (fun idx => !allowsEntry sync.cellStates e p idx)
              (sync.candidates p)
            rw [hcells] at hhead
            simpa using hhead
          have hplace : e.Placeable v idx p := by
            refine ⟨hfree idx hmem hallows, fun hentry o ho hopen hcell => ?_, fun _ => hrefused⟩
            obtain ⟨-, hnone, -⟩ := of_decide_eq_true hallows
            rw [entry_of_entry hentry] at hnone
            exact not_open_of_hasOpenForCell (by simpa using hnone) ho hopen hcell
          dsimp only
          split
          · exact h.placeLimit hplace _ _
          · exact h.placeLimit hplace _ _

end

end GridEngine

end AlgoTrade
