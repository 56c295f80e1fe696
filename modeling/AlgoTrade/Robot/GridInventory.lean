import AlgoTrade.Robot.GridCells
import Mathlib.Algebra.BigOperators.Ring.List

/-! # The inventory of a grid

Every leg is what its cells hold, at the end of every bar.

* `GridTold`: what the statuses tell of the ended orders is all that they did.
* `GridAt.handleBar`: the handler keeps the cells holding the legs.
* `accounted_of_barKept`: every run whose bars tell so. -/

namespace AlgoTrade.Robot.Grid

open Backtest

/-! ## What the statuses tell -/

/-- An ended entry has more than dust, a refused one nothing, and an ended exit has
all that the cell had. -/
def CellTold (view : View) (cell : GridCell) : Prop :=
  ∀ ref ∈ cell.ref,
    let name := nameOf view ref.text
    let filled := (statusOf view ref.text).filledQuantity
    (cell.state = .entryPending → (name = "filled" → dust < filled) ∧
      (name = "rejected" ∨ name = "cancelled" → filled = 0)) ∧
    (cell.state = .exitPending → filled ≤ cell.quantity ∧
      (name = "filled" → filled = cell.quantity))

instance (view : View) (cell : GridCell) : Decidable (CellTold view cell) :=
  inferInstanceAs (Decidable (∀ ref ∈ cell.ref, _ ∧ _))

/-- The seeds share the whole initial order, each with more than dust. -/
def SeedsTold (view : View) (g : GridState) : Prop :=
  ∀ ref ∈ g.initialRef, g.initialAllocated = false → nameOf view ref = "filled" →
    (∃ cell ∈ g.cells, cell.isSeed = true) ∧
    ∀ cell ∈ g.cells, cell.isSeed = true →
      dust < cell.share |(statusOf view ref).filledQuantity| (seedTotal g.cells)

instance (view : View) (g : GridState) : Decidable (SeedsTold view g) :=
  inferInstanceAs (Decidable (∀ ref ∈ g.initialRef, _ → _ → _ ∧ _))

/-- The ids of a cell's orders are not cut. -/
def GridCell.Fits (cell : GridCell) : Prop :=
  ∀ r ∈ [cell.entryRef, cell.exitRef], r.text.toList.length ≤ 100

instance (cell : GridCell) : Decidable cell.Fits :=
  inferInstanceAs (Decidable (∀ r ∈ [cell.entryRef, cell.exitRef], _))

/-- The cell of the next cycle. -/
def GridCell.next (cell : GridCell) : GridCell := { cell with cycle := cell.cycle + 1 }

structure GridTold (view : View) (g : GridState) : Prop where
  cells : ∀ cell ∈ g.cells, CellTold view cell
  seeds : SeedsTold view g
  fits : ∀ cell ∈ g.cells, cell.Fits ∧ cell.next.Fits

instance (view : View) (g : GridState) : Decidable (GridTold view g) :=
  decidable_of_iff (_ ∧ _ ∧ _)
    ⟨fun h => ⟨h.1, h.2.1, h.2.2⟩, fun h => ⟨h.cells, h.seeds, h.fits⟩⟩

/-- The view tells these quantities, and the statuses of the work under way are open. -/
structure Shown (filled : ClientRef → ℚ) (works : List Work) (view : View) : Prop where
  tells : ∀ ref, (statusOf view ref).filledQuantity = filled (.given ref)
  nonneg : ∀ reference, 0 ≤ filled reference
  waits : ∀ w ∈ works, ∀ ref, w.reference = .given ref →
    (statusOf view ref).status.waits = true

section
variable {c : GridConstants} {filled : ClientRef → ℚ} {amount : Side → ℚ} {g : GridState}
  {works : List Work} {cell : GridCell} {view : View} {startingCash : ℚ}

theorem nameOf_of_waits {ref : String} (h : (statusOf view ref).status.waits = true) :
    nameOf view ref ≠ "filled" ∧
      ¬ (nameOf view ref = "rejected" ∨ nameOf view ref = "cancelled") := by
  unfold nameOf
  cases hstatus : (statusOf view ref).status with
  | event status =>
    rw [hstatus] at h
    cases status with
    | deferred => decide
    | partFilled => decide
    | filled => cases h
    | rejected => cases h
  | unknown =>
    rw [hstatus] at h
    cases h
  | queued =>
    rw [hstatus] at h
    cases h
  | cancelled =>
    rw [hstatus] at h
    cases h
  | live status =>
    rw [hstatus] at h
    cases h

/-! ## The seeds -/

theorem allocate_spec (quantity total : ℚ) (cell : GridCell) :
    (cell.allocate quantity total).constants = cell.constants ∧
      (cell.allocate quantity total).ref = cell.ref ∧
        (cell.allocate quantity total).cycle = cell.cycle := by
  unfold GridCell.allocate
  split
  · exact ⟨rfl, rfl, rfl⟩
  · exact ⟨rfl, rfl, rfl⟩

/-- The shares of the seeds come to what they share. -/
theorem sum_share (cells : List GridCell) (quantity : ℚ) (h : 0 < seedTotal cells) :
    (cells.map fun cell => if cell.isSeed = true then
      cell.share quantity (seedTotal cells) else 0).sum = quantity := by
  have hshare : ∀ cell : GridCell, cell.share quantity (seedTotal cells) =
      quantity / seedTotal cells * cell.constants.budgetPct := by
    intro cell
    unfold GridCell.share
    rw [if_pos h]
    ring
  rw [← List.sum_map_filter]
  calc ((cells.filter GridCell.isSeed).map fun cell => cell.share quantity (seedTotal cells)).sum
      = ((cells.filter GridCell.isSeed).map fun cell =>
          quantity / seedTotal cells * cell.constants.budgetPct).sum :=
        congrArg List.sum (List.map_congr_left fun cell _ => hshare cell)
    _ = quantity / seedTotal cells * seedTotal cells := List.sum_map_mul_left _ _ _
    _ = quantity := div_mul_cancel₀ quantity h.ne'

theorem share_zero_of_total {quantity total : ℚ} (h : ¬ 0 < total) (cell : GridCell) :
    cell.share quantity total = 0 := by
  unfold GridCell.share
  rw [if_neg h, mul_zero]

/-- A seed that shares the initial order. -/
theorem CellOk.allocate (h : CellOk filled cell) {quantity total : ℚ}
    (hdisabled : cell.isSeed = true → cell.state = .disabled)
    (hshare : cell.isSeed = true → dust < cell.share quantity total) :
    CellOk filled (cell.allocate quantity total) ∧
      (cell.allocate quantity total).held filled =
        cell.held filled + if cell.isSeed = true then cell.share quantity total else 0 := by
  unfold GridCell.allocate
  by_cases hseed : cell.isSeed = true
  · rw [if_pos hseed, if_pos hseed, if_pos (hshare hseed)]
    have hunsold : filled (.given cell.exitRef.text) = 0 :=
      h.unsold (by rw [hdisabled hseed]; rfl)
    have href : cell.ref = none := by
      rw [h.ref]
      unfold GridCell.awaited
      rw [hdisabled hseed]
    refine ⟨⟨href, h.later, fun hexits => (by cases hexits), fun hready => (by cases hready),
      fun _ => ⟨hshare hseed, ?_⟩⟩, ?_⟩
    · show filled (.given cell.exitRef.text) ≤ cell.share quantity total
      rw [hunsold]
      exact le_trans (by unfold dust; norm_num) (hshare hseed).le
    · have hheld : cell.held filled = 0 := by
        unfold GridCell.held
        rw [hdisabled hseed]
      rw [hheld, zero_add]
      show cell.share quantity total - filled (.given cell.exitRef.text) = _
      rw [hunsold, sub_zero]
  · rw [if_neg hseed, if_neg hseed, add_zero]
    exact ⟨h, rfl⟩

theorem filterMap_ref_map {f : GridCell → GridCell} {cells : List GridCell}
    (hf : ∀ cell ∈ cells, (f cell).ref = cell.ref) :
    (cells.map f).filterMap GridCell.ref = cells.filterMap GridCell.ref := by
  rw [List.filterMap_map]
  exact List.filterMap_congr hf

theorem map_constants_map {f : GridCell → GridCell} {cells : List GridCell}
    (hf : ∀ cell ∈ cells, (f cell).constants = cell.constants) :
    (cells.map f).map GridCell.constants = cells.map GridCell.constants := by
  rw [List.map_map]
  exact List.map_congr_left hf

theorem GridAt.allocate (h : GridAt c filled amount g works) {ref : String} {quantity : ℚ}
    (href : g.initialRef = some ref) (hallocated : g.initialAllocated = false)
    (hquantity : quantity = filled (.given ref)) {seed : GridCell} (hseed : seed ∈ g.cells)
    (hisSeed : seed.isSeed = true)
    (hshares : ∀ cell ∈ g.cells, cell.isSeed = true →
      dust < cell.share quantity (seedTotal g.cells))
    (hdone : ∀ w ∈ works, w.reference ≠ .given ref) :
    GridAt c filled amount
      { g with
        cells := g.cells.map (GridCell.allocate quantity (seedTotal g.cells))
        initialAllocated := true } works := by
  have hcell : ∀ cell ∈ g.cells, CellOk filled (cell.allocate quantity (seedTotal g.cells)) ∧
      (cell.allocate quantity (seedTotal g.cells)).held filled = cell.held filled +
        if cell.isSeed = true then cell.share quantity (seedTotal g.cells) else 0 :=
    fun cell hcell => (h.cells cell hcell).allocate (h.seeds hallocated cell hcell) (hshares cell hcell)
  have htotal : 0 < seedTotal g.cells := by
    by_contra hnot
    have hzero := hshares seed hseed hisSeed
    rw [share_zero_of_total hnot] at hzero
    exact absurd hzero (not_lt.mpr (by unfold dust; norm_num))
  refine ⟨?_, fun cell' hcell' => ?_, h.initialRef, fun hnone => ?_,
    fun hfalse => (by cases hfalse), fun side => ?_, h.distinct, fun w hw => ?_⟩
  · exact (map_constants_map fun cell _ => (allocate_spec _ _ cell).1).trans h.constants
  · obtain ⟨cell, hmem, rfl⟩ := List.mem_map.mp hcell'
    exact (hcell cell hmem).1
  · cases href.symm.trans hnone
  · -- the seeds take what the initial order gives up
    have hsides : ∀ cell ∈ g.cells, cell.isSeed = true → cell.side = c.gridSide.initialSide := by
      intro cell hmem
      refine c.seed_side cell.constants ?_
      rw [← h.constants]
      exact List.mem_map_of_mem hmem
    rw [h.held side]
    refine congrArg (signed side) ?_
    unfold heldBy GridState.initialFilled
    dsimp only
    rw [hallocated, href, if_neg Bool.false_ne_true, if_pos rfl, Option.map_some, Option.getD_some,
      ite_self, zero_add, ← hquantity]
    have hsum : ((g.cells.map (GridCell.allocate quantity (seedTotal g.cells))).map fun cell =>
          if cell.side = side then cell.held filled else 0).sum =
        (g.cells.map fun cell => if cell.side = side then cell.held filled else 0).sum +
          (g.cells.map fun cell => if cell.side = side then
            (if cell.isSeed = true then cell.share quantity (seedTotal g.cells) else 0)
              else 0).sum := by
      rw [← List.sum_map_add, List.map_map]
      refine congrArg List.sum (List.map_congr_left fun cell hmem => ?_)
      have hside : (cell.allocate quantity (seedTotal g.cells)).side = cell.side :=
        congrArg (fun constants => constants.role.side) (allocate_spec _ _ cell).1
      show (if (cell.allocate quantity (seedTotal g.cells)).side = side then _ else _) = _
      rw [hside, (hcell cell hmem).2]
      split
      · rfl
      · exact (add_zero 0).symm
    rw [hsum, add_comm]
    refine congrArg (_ + ·) ?_
    by_cases hinitial : side = c.gridSide.initialSide
    · rw [if_pos hinitial]
      refine (sum_share g.cells quantity htotal).symm.trans
        (congrArg List.sum (List.map_congr_left fun cell hmem => ?_))
      split
      next hisSeed => rw [if_pos ((hsides cell hmem hisSeed).trans hinitial.symm)]
      next => rw [ite_self]
    · rw [if_neg hinitial]
      refine (List.sum_eq_zero fun x hx => ?_).symm
      obtain ⟨cell, hmem, rfl⟩ := List.mem_map.mp hx
      split
      next hside =>
        rw [if_neg fun hisSeed => hinitial (hside.symm.trans (hsides cell hmem hisSeed))]
      next => rfl
  · have hrefs : (g.cells.map (GridCell.allocate quantity (seedTotal g.cells))).filterMap
        GridCell.ref = g.cells.filterMap GridCell.ref :=
      filterMap_ref_map fun cell _ => (allocate_spec _ _ cell).2.1
    unfold worksOf
    rw [hrefs]
    refine List.mem_append_right _ ?_
    rcases List.mem_append.mp (h.awaited w hw) with hw' | hw'
    · split at hw'
      · obtain rfl := List.mem_singleton.mp hw'
        rcases h.initialRef with hnone | hsome
        · cases href.symm.trans hnone
        · obtain rfl := Option.some.inj (hsome.symm.trans href)
          exact absurd rfl (hdone _ hw)
      · cases hw'
    · exact hw'

/-- **The seeds** take over the initial order. -/
theorem GridAt.reconcileInitial (h : GridAt c filled amount g works)
    (hshown : Shown filled works view) (htold : SeedsTold view g) :
    (reconcileInitial view g).halted = true ∨
      GridAt c filled amount (reconcileInitial view g) works := by
  unfold Grid.reconcileInitial
  split
  · exact .inr h
  next ref href =>
    split
    · exact .inr h
    next hallocated =>
      rw [Bool.not_eq_true] at hallocated
      split
      next hname =>
        obtain ⟨⟨seed, hseed, hisSeed⟩, hshares⟩ :=
          htold ref (Option.mem_def.mpr href) hallocated hname
        refine .inr (h.allocate href hallocated ?_ hseed hisSeed hshares ?_)
        · rw [hshown.tells, abs_of_nonneg (hshown.nonneg _)]
        · intro w hw heq
          exact (nameOf_of_waits (hshown.waits w hw ref heq)).1 hname
      next =>
        split
        · exact .inl rfl
        · exact .inr h

/-! ## The cells -/

/-- What the status of its order makes of a cell. -/
structure CellReconciled (filled : ClientRef → ℚ) (view : View) (cell cell' : GridCell) :
    Prop where
  constants : cell'.constants = cell.constants
  ok : CellOk filled cell'
  held : cell'.held filled = cell.held filled
  kept : ∀ ref ∈ cell.ref, (statusOf view ref.text).status.waits = true → cell' = cell
  disabled : cell.state = .disabled → cell'.state = .disabled

/-- What a cell's order was told to have filled. -/
theorem reconcileCell_spec (h : CellOk filled cell) (htold : CellTold view cell)
    (htells : ∀ ref, (statusOf view ref).filledQuantity = filled (.given ref))
    (hnonneg : ∀ reference, 0 ≤ filled reference) :
    CellReconciled filled view cell (reconcileCell view cell) := by
  unfold reconcileCell
  cases href : cell.ref with
  | none => exact ⟨rfl, h, rfl, fun _ _ _ => rfl, id⟩
  | some ref =>
    have hawaited : cell.awaited = some ref := h.ref.symm.trans href
    obtain ⟨hentry, hexit⟩ := htold ref (Option.mem_def.mpr href)
    dsimp only at hentry hexit ⊢
    rw [htells] at hentry hexit
    have hended : ∀ {name : String}, nameOf view ref.text = name →
        (name = "filled" ∨ name = "rejected" ∨ name = "cancelled") →
          ∀ cell' : GridCell, ∀ ref' ∈ cell.ref,
            (statusOf view ref'.text).status.waits = true → cell' = cell := by
      intro name hname hends cell' ref' href' hwaits
      obtain rfl := Option.some.inj (href.symm.trans (Option.mem_def.mp href'))
      obtain ⟨hne, hneither⟩ := nameOf_of_waits hwaits
      rcases hends with hends | hends
      · exact absurd (hname.trans hends) hne
      · exact absurd (hname ▸ hends) hneither
    split
    next hname =>
      rcases GridCell.awaited_spec hawaited with ⟨hstate, rfl⟩ | ⟨hstate, rfl⟩
      · -- a filled entry holds what it has filled
        have hunsold : filled (.given cell.exitRef.text) = 0 := h.unsold (by rw [hstate]; rfl)
        have hdust := (hentry hstate).1 hname
        rw [hstate, htells, abs_of_nonneg (hnonneg _)]
        refine ⟨rfl, ⟨rfl, h.later, fun hexits => (by cases hexits),
          fun hready => (by cases hready), fun _ => ⟨hdust, ?_⟩⟩, ?_, hended hname (.inl rfl) _,
          fun hdisabled => ?_⟩
        · show filled (.given cell.exitRef.text) ≤ _
          rw [hunsold]
          exact hnonneg _
        · show _ - filled (.given cell.exitRef.text) = cell.held filled
          unfold GridCell.held
          rw [hstate, hunsold, sub_zero]
        · cases hdisabled.symm.trans hstate
      · -- a filled exit leaves nothing, and the next entry has a new id
        have hsold := (hexit hstate).2 hname
        have hnext : ∀ purpose, filled (.given
            (CellRef.text ⟨cell.constants.index, cell.side, purpose, cell.cycle + 1⟩)) = 0 :=
          fun purpose => h.later purpose _ (Nat.lt_succ_self _)
        rw [hstate]
        refine ⟨rfl, ⟨rfl, fun purpose cycle hcycle => ?_, fun _ => hnext .exit,
          fun _ => hnext .entry, fun hexits => (by cases hexits)⟩, ?_, hended hname (.inl rfl) _,
          fun hdisabled => ?_⟩
        · exact h.later purpose cycle (Nat.lt_of_succ_lt hcycle)
        · unfold GridCell.held
          rw [hstate]
          exact (hnext .entry).trans (by rw [hsold, sub_self])
        · cases hdisabled.symm.trans hstate
    next =>
      split
      next hname =>
        rcases GridCell.awaited_spec hawaited with ⟨hstate, rfl⟩ | ⟨hstate, rfl⟩
        · have hnone := (hentry hstate).2 hname
          rw [if_pos hstate]
          refine ⟨rfl, ⟨rfl, h.later, fun _ => h.unsold (by rw [hstate]; rfl), fun _ => hnone,
            fun hexits => (by cases hexits)⟩, ?_, hended rfl (.inr hname) _, fun hdisabled => ?_⟩
          · unfold GridCell.held
            rw [hstate]
            rfl
          · cases hdisabled.symm.trans hstate
        · have hne : cell.state ≠ .entryPending := fun heq => by cases heq.symm.trans hstate
          rw [if_neg hne]
          refine ⟨rfl, ⟨rfl, h.later, fun hexits => (by cases hexits),
            fun hready => (by cases hready), fun _ => h.quantity (by rw [hstate]; rfl)⟩, ?_,
            hended rfl (.inr hname) _, fun hdisabled => ?_⟩
          · unfold GridCell.held
            rw [hstate]
            rfl
          · cases hdisabled.symm.trans hstate
      next => exact ⟨rfl, h, rfl, fun _ _ _ => rfl, id⟩

/-- **The cells** take over what the statuses tell of their orders. -/
theorem GridAt.reconcileCells (h : GridAt c filled amount g works)
    (hshown : Shown filled works view) (htold : ∀ cell ∈ g.cells, CellTold view cell) :
    GridAt c filled amount (reconcileCells view g) works := by
  have hspec : ∀ cell ∈ g.cells, CellReconciled filled view cell (reconcileCell view cell) :=
    fun cell hcell => reconcileCell_spec (h.cells cell hcell) (htold cell hcell) hshown.tells
      hshown.nonneg
  refine ⟨?_, fun cell' hcell' => ?_, h.initialRef, h.unasked, fun hallocated cell' hcell' => ?_,
    fun side => ?_, h.distinct, fun w hw => ?_⟩
  · exact (map_constants_map fun cell hcell => (hspec cell hcell).constants).trans h.constants
  · obtain ⟨cell, hcell, rfl⟩ := List.mem_map.mp hcell'
    exact (hspec cell hcell).ok
  · obtain ⟨cell, hcell, rfl⟩ := List.mem_map.mp hcell'
    intro hseed
    have hconstants := (hspec cell hcell).constants
    unfold GridCell.isSeed at hseed
    rw [hconstants] at hseed
    exact (hspec cell hcell).disabled (h.seeds hallocated cell hcell hseed)
  · rw [h.held side]
    unfold heldBy
    refine congrArg (fun sum : ℚ => signed side ((if side = c.gridSide.initialSide then
      g.initialFilled filled else 0) + sum)) ?_
    unfold Grid.reconcileCells
    dsimp only
    rw [List.map_map]
    refine congrArg List.sum (List.map_congr_left fun cell hcell => ?_)
    have hside : (reconcileCell view cell).side = cell.side :=
      congrArg (fun constants => constants.role.side) (hspec cell hcell).constants
    show _ = if (reconcileCell view cell).side = side then _ else _
    rw [hside, (hspec cell hcell).held]
  · have hmem := h.awaited w hw
    unfold worksOf at hmem ⊢
    rcases List.mem_append.mp hmem with hinitial | hmem
    · exact List.mem_append_left _ hinitial
    · obtain ⟨ref, href, rfl⟩ := List.mem_map.mp hmem
      obtain ⟨cell, hcell, hsome⟩ := List.mem_filterMap.mp href
      have hkept := (hspec cell hcell).kept ref (Option.mem_def.mpr hsome)
        (hshown.waits _ hw ref.text rfl)
      refine List.mem_append_right _ (List.mem_map.mpr ⟨ref, List.mem_filterMap.mpr
        ⟨reconcileCell view cell, List.mem_map_of_mem hcell, ?_⟩, rfl⟩)
      rw [hkept, hsome]

/-! ## Orders -/

/-- A cell whose order is placed. -/
structure Placed (filled : ClientRef → ℚ) (cell cell' : GridCell) (r : CellRef) : Prop where
  constants : cell'.constants = cell.constants
  cycle : cell'.cycle = cell.cycle
  ok : CellOk filled cell'
  held : cell'.held filled = cell.held filled
  ref : cell'.ref = some r
  idle : cell.ref = none
  enabled : cell.state ≠ .disabled

theorem Placed.index {cell' : GridCell} {r : CellRef} (h : Placed filled cell cell' r) :
    r.index = cell.constants.index := by
  rw [(GridCell.awaited_index (h.ok.ref.symm.trans h.ref)).1, h.constants]

theorem Placed.fits {cell' : GridCell} {r : CellRef} (h : Placed filled cell cell' r)
    (hfits : cell.Fits) : cell'.Fits := by
  unfold GridCell.Fits GridCell.entryRef GridCell.exitRef GridCell.side at hfits ⊢
  rwa [h.constants, h.cycle]

/-- One more order. -/
theorem GridAt.place (h : GridAt c filled amount g works) {i : ℕ} (hi : g.cells[i]? = some cell)
    {cell' : GridCell} {r : CellRef} (hplaced : Placed filled cell cell' r) :
    GridAt c filled amount { g with cells := g.cells.set i cell' } (works ++ [r.work c]) := by
  have hmem : cell ∈ g.cells := List.mem_of_getElem? hi
  have hside : cell'.side = cell.side :=
    congrArg (fun constants => constants.role.side) hplaced.constants
  have hrefs : ((g.cells.set i cell').filterMap GridCell.ref).Perm
      (g.cells.filterMap GridCell.ref ++ [r]) :=
    List.filterMap_set_perm hi hplaced.idle hplaced.ref
  have hnew : ∀ w ∈ works, w.reference ≠ .given r.text := h.nobodys hmem hplaced.index (by
    rw [← (h.cells cell hmem).ref, hplaced.idle]
    exact fun hsome => by cases hsome)
  have hworks : ∀ w, w ∈ worksOf c g ∨ w = r.work c →
      w ∈ worksOf c { g with cells := g.cells.set i cell' } := by
    intro w hw
    unfold worksOf at hw ⊢
    rcases hw with hw | rfl
    · rcases List.mem_append.mp hw with hw | hw
      · exact List.mem_append_left _ hw
      · obtain ⟨r', hr', rfl⟩ := List.mem_map.mp hw
        exact List.mem_append_right _ (List.mem_map_of_mem
          (hrefs.mem_iff.mpr (List.mem_append_left _ hr')))
    · exact List.mem_append_right _ (List.mem_map_of_mem
        (hrefs.mem_iff.mpr (List.mem_append_right _ (List.mem_singleton.mpr rfl))))
  refine ⟨?_, fun other hother => ?_, h.initialRef, h.unasked, fun hallocated other hother => ?_,
    fun side => ?_, ?_, fun w hw => ?_⟩
  · exact (List.map_set_of_eq hi hplaced.constants).trans h.constants
  · rcases List.mem_or_eq_of_mem_set hother with hother | rfl
    · exact h.cells other hother
    · exact hplaced.ok
  · rcases List.mem_or_eq_of_mem_set hother with hother | rfl
    · exact h.seeds hallocated other hother
    · intro hseed
      unfold GridCell.isSeed at hseed
      rw [hplaced.constants] at hseed
      exact absurd (h.seeds hallocated cell hmem hseed) hplaced.enabled
  · rw [h.held side]
    refine congrArg (fun sums : List ℚ => signed side ((if side = c.gridSide.initialSide then
      g.initialFilled filled else 0) + sums.sum)) ?_
    exact (List.map_set_of_eq hi (by rw [hside, hplaced.held])).symm
  · rw [List.map_append]
    refine List.nodup_append.mpr
      ⟨h.distinct, List.nodup_singleton _, fun reference hreference _ hr heq => ?_⟩
    obtain ⟨w, hw, rfl⟩ := List.mem_map.mp hreference
    obtain rfl := List.mem_singleton.mp hr
    exact hnew w hw heq
  · rcases List.mem_append.mp hw with hw | hw
    · exact hworks w (.inl (h.awaited w hw))
    · exact hworks w (.inr (List.mem_singleton.mp hw))

/-- An order of a cell works for it. -/
theorem cellOrder_asks {kind : OrderKind} {value : ℚ} {r : CellRef} (hkind : kind.isIncremental)
    (hvalue : 0 ≤ r.tradeSide.sign * value) (hfits : r.text.toList.length ≤ 100) (limitPrice : ℚ) :
    Asks (r.work c) (cellOrder c kind value limitPrice r) := by
  refine ⟨rfl, rfl, hkind, ?_, rfl, hvalue,
    r.text, rfl, rfl, (strip_text r).1, (strip_text r).2, hfits⟩
  unfold cellOrder
  dsimp only
  cases r.side <;> cases r.purpose <;> decide

theorem sign_mul_entry {r : CellRef} (hpurpose : r.purpose = .entry) (x : ℚ) :
    r.tradeSide.sign * signed r.side x = x := by
  unfold CellRef.tradeSide signed
  rw [hpurpose]
  cases r.side with
  | long => exact one_mul _
  | short => exact (neg_one_mul _).trans (neg_neg x)

theorem sign_mul_exit {r : CellRef} (hpurpose : r.purpose = .exit) (x : ℚ) :
    r.tradeSide.sign * -signed r.side x = x := by
  unfold CellRef.tradeSide signed
  rw [hpurpose]
  cases r.side with
  | long => exact (neg_one_mul _).trans (neg_neg x)
  | short => exact (one_mul _).trans (neg_neg x)

theorem placeExit_spec (h : CellOk filled cell) (hstate : cell.state = .exitReady)
    (hfits : cell.Fits) : ∃ cell' order, placeExit c g cell = (cell', [order]) ∧
      Placed filled cell cell' cell.exitRef ∧ Asks (cell.exitRef.work c) order ∧
        cell'.state = .exitPending := by
  obtain ⟨hdust, hle⟩ := h.quantity (by rw [hstate]; rfl)
  have hpos : 0 < cell.quantity := lt_trans (by unfold dust; norm_num) hdust
  unfold placeExit
  rw [if_neg (by rw [abs_of_pos hpos]; exact not_le.mpr hdust)]
  refine ⟨_, _, rfl, ⟨rfl, rfl, ⟨rfl, h.later, fun hexits => (by cases hexits),
    fun hready => (by cases hready), fun _ => ⟨hdust, hle⟩⟩, ?_, rfl, ?_, ?_⟩,
    cellOrder_asks (.inl rfl) ?_ (hfits _ (by simp)) _, rfl⟩
  · unfold GridCell.held
    rw [hstate]
    rfl
  · rw [h.ref]
    unfold GridCell.awaited
    rw [hstate]
  · intro hdisabled
    cases hdisabled.symm.trans hstate
  · rw [show cell.side = cell.exitRef.side from rfl, sign_mul_exit rfl]
    exact abs_nonneg _

theorem placeEntry_spec (h : CellOk filled cell) (hstate : cell.state = .entryReady)
    (hfits : cell.Fits) (hbudget : 0 ≤ startingCash * cell.constants.budgetPct) :
    ∃ cell' order, placeEntry c startingCash g cell = (cell', order) ∧
      Placed filled cell cell' cell.entryRef ∧ Asks (cell.entryRef.work c) order ∧
        cell'.state = .entryPending := by
  refine ⟨_, _, rfl, ⟨rfl, rfl, ⟨rfl, h.later, fun _ => h.unsold (by rw [hstate]; rfl),
    fun hready => (by cases hready), fun hexits => (by cases hexits)⟩, ?_, rfl, ?_, ?_⟩, ?_, rfl⟩
  · unfold GridCell.held
    rw [hstate]
    rfl
  · rw [h.ref]
    unfold GridCell.awaited
    rw [hstate]
  · intro hdisabled
    cases hdisabled.symm.trans hstate
  · have hside : cell.side = cell.entryRef.side := rfl
    split
    · refine cellOrder_asks (.inl rfl) ?_ (hfits _ (by simp)) _
      rw [hside, sign_mul_entry rfl]
      exact abs_nonneg _
    · refine cellOrder_asks (.inr rfl) ?_ (hfits _ (by simp)) _
      rw [hside, sign_mul_entry rfl]
      exact hbudget

/-- What requests leave of a grid: the orders they ask for are under way. -/
structure Armed (c : GridConstants) (filled : ClientRef → ℚ) (amount : Side → ℚ) (works : List Work)
    (g : GridState) (rs : List OrderRequest) : Prop where
  asked : ∃ ws, List.Forall₂ Asks ws rs ∧ GridAt c filled amount g (works ++ ws)
  fits : ∀ cell ∈ g.cells, cell.Fits

theorem Armed.cons {g' : GridState} {w : Work} {r : OrderRequest} {rs : List OrderRequest}
    (hw : Asks w r) (h : Armed c filled amount (works ++ [w]) g' rs) :
    Armed c filled amount works g' (r :: rs) := by
  obtain ⟨⟨ws, hws, hgrid⟩, hfits⟩ := h
  refine ⟨⟨w :: ws, .cons hw hws, ?_⟩, hfits⟩
  rwa [List.append_assoc] at hgrid

theorem Armed.nil (h : GridAt c filled amount g works) (hfits : ∀ cell ∈ g.cells, cell.Fits) :
    Armed c filled amount works g [] :=
  ⟨⟨[], .nil, by rwa [List.append_nil]⟩, hfits⟩

theorem fits_set {cells : List GridCell} {i : ℕ} {cell' : GridCell}
    (hfits : ∀ cell ∈ cells, cell.Fits) (h : cell'.Fits) :
    ∀ cell ∈ cells.set i cell', cell.Fits := by
  intro cell hcell
  rcases List.mem_or_eq_of_mem_set hcell with hcell | rfl
  · exact hfits cell hcell
  · exact h

/-- **Exits** go to the cells that are ready for one, and no such cell is left. -/
theorem armExits_spec (indexes : List ℕ) {cells : List GridCell}
    (h : GridAt c filled amount { g with cells := cells } works)
    (hfits : ∀ cell ∈ cells, cell.Fits) :
    Armed c filled amount works { g with cells := (armExits c g indexes cells).1 }
        (armExits c g indexes cells).2 ∧
      ∀ j cell, (armExits c g indexes cells).1[j]? = some cell → cell.state = .exitReady →
        cells[j]? = some cell ∧ j ∉ indexes := by
  induction indexes generalizing cells works with
  | nil => exact ⟨.nil h hfits, fun j cell hj _ => ⟨hj, List.not_mem_nil⟩⟩
  | cons index indexes ih =>
    unfold armExits
    split
    next hnone =>
      obtain ⟨harmed, hleft⟩ := ih h hfits
      refine ⟨harmed, fun j cell hj hstate => ?_⟩
      obtain ⟨hj, hnot⟩ := hleft j cell hj hstate
      refine ⟨hj, fun hmem => ?_⟩
      rcases List.mem_cons.mp hmem with rfl | hmem
      · cases hnone.symm.trans hj
      · exact hnot hmem
    next cell hcell =>
      have hmem := List.mem_of_getElem? hcell
      split
      next hready =>
        obtain ⟨cell', order, hplace, hplaced, hasks, hstate'⟩ :=
          placeExit_spec (c := c) (g := g) (h.cells cell hmem) hready (hfits cell hmem)
        obtain ⟨harmed, hleft⟩ := ih (h.place hcell hplaced)
          (fits_set hfits (hplaced.fits (hfits cell hmem)))
        dsimp only
        rw [hplace]
        refine ⟨.cons hasks harmed, fun j left hj hstate => ?_⟩
        obtain ⟨hj, hnot⟩ := hleft j left hj hstate
        rcases List.getElem?_set_cases hj with ⟨-, rfl⟩ | ⟨hne, hj⟩
        · cases hstate.symm.trans hstate'
        · refine ⟨hj, fun hmem => ?_⟩
          rcases List.mem_cons.mp hmem with rfl | hmem
          · exact hne rfl
          · exact hnot hmem
      next hready =>
        obtain ⟨harmed, hleft⟩ := ih h hfits
        refine ⟨harmed, fun j left hj hstate => ?_⟩
        obtain ⟨hj, hnot⟩ := hleft j left hj hstate
        refine ⟨hj, fun hmem => ?_⟩
        rcases List.mem_cons.mp hmem with rfl | hmem
        · obtain rfl := Option.some.inj (hj.symm.trans hcell)
          exact hready hstate
        · exact hnot hmem

/-- **Entries** go to cells that are ready for one. -/
theorem armEntries_spec (hcash : 0 ≤ startingCash) (indexes : List ℕ) {active : ℕ}
    {cells : List GridCell} {o : List GridCell × List OrderRequest}
    (h : GridAt c filled amount { g with cells := cells } works) (hfits : ∀ cell ∈ cells, cell.Fits)
    (ho : armEntries c startingCash g indexes active cells = some o) :
    Armed c filled amount works { g with cells := o.1 } o.2 ∧
      ((∀ cell ∈ cells, cell.state ≠ .exitReady) → ∀ cell ∈ o.1, cell.state ≠ .exitReady) := by
  induction indexes generalizing active cells works o with
  | nil =>
    obtain rfl := Option.some.inj ho
    exact ⟨.nil h hfits, id⟩
  | cons index indexes ih =>
    unfold armEntries at ho
    split at ho
    · obtain rfl := Option.some.inj ho
      exact ⟨.nil h hfits, id⟩
    · split at ho
      · cases ho
      next cell hcell =>
        have hmem := List.mem_of_getElem? hcell
        split at ho
        next hready =>
          have hbudget : 0 ≤ cell.constants.budgetPct := by
            refine c.budgetPct_nonneg _ ?_
            rw [← h.constants]
            exact List.mem_map_of_mem hmem
          obtain ⟨cell', order, hplace, hplaced, hasks, hstate'⟩ :=
            placeEntry_spec (c := c) (g := g) (h.cells cell hmem) hready (hfits cell hmem)
              (mul_nonneg hcash hbudget)
          obtain ⟨rest, hrest, rfl⟩ := Option.map_eq_some_iff.mp ho
          rw [hplace] at hrest ⊢
          obtain ⟨harmed, hkeep⟩ := ih (h.place hcell hplaced)
            (fits_set hfits (hplaced.fits (hfits cell hmem))) hrest
          refine ⟨.cons hasks harmed, fun hnone => hkeep fun left hleft => ?_⟩
          rcases List.mem_or_eq_of_mem_set hleft with hleft | rfl
          · exact hnone left hleft
          · rw [hstate']
            exact fun heq => by cases heq
        next => exact ih h hfits ho

/-- **The initial order.** -/
theorem GridAt.placeInitial (h : GridAt c filled amount g works) (hcash : 0 ≤ startingCash)
    (hfits : ∀ cell ∈ g.cells, cell.Fits) :
    Armed c filled amount works (placeInitial c startingCash g).1
      (placeInitial c startingCash g).2 := by
  unfold Grid.placeInitial
  split
  next hask =>
    obtain ⟨hallocated, hzero⟩ := h.unasked hask.2
    have hinitial : worksOf c { g with initialRef := some (initialText c.gridSide.initialSide) } =
        [initialWork c] ++ worksOf c g := by
      unfold worksOf
      rw [hallocated, hask.2]
      rfl
    have hnew : ∀ w ∈ works, w.reference ≠ .given (initialText c.gridSide.initialSide) := by
      intro w hw heq
      have hmem := h.awaited w hw
      unfold worksOf at hmem
      rw [hask.2] at hmem
      obtain ⟨r, -, rfl⟩ := List.mem_map.mp hmem
      exact initialText_ne _ r (ClientRef.given.inj heq).symm
    refine .cons (w := initialWork c) ?_ (.nil ⟨h.constants, h.cells, .inr rfl,
      fun hnone => (by cases hnone), h.seeds, fun side => ?_, ?_, fun w hw => ?_⟩ hfits)
    · have htext : Text.strip (initialText c.gridSide.initialSide) =
          initialText c.gridSide.initialSide ∧ initialText c.gridSide.initialSide ≠ "" ∧
            (initialText c.gridSide.initialSide).toList.length ≤ 100 := by
        cases c.gridSide.initialSide <;> decide
      refine ⟨rfl, rfl, .inr rfl, ?_, rfl, ?_, _, rfl, rfl, htext⟩
      · unfold initialOrder
        dsimp only
        cases c.gridSide.initialSide <;> decide
      · have hnonneg := mul_nonneg hcash c.initialPositionPct_nonneg
        unfold initialWork initialOrder signed
        dsimp only
        cases c.gridSide.initialSide with
        | long =>
          rw [if_pos rfl, TradeSide.sign, one_mul]
          exact hnonneg
        | short =>
          rw [if_neg (by decide), TradeSide.sign, neg_one_mul, neg_neg]
          exact hnonneg
    · rw [h.held side]
      unfold heldBy GridState.initialFilled
      dsimp only
      rw [hask.2, hallocated, Option.map_some, Option.getD_some, hzero]
      rfl
    · rw [List.map_append]
      refine List.nodup_append.mpr
        ⟨h.distinct, List.nodup_singleton _, fun reference hreference _ hr heq => ?_⟩
      obtain ⟨w, hw, rfl⟩ := List.mem_map.mp hreference
      obtain rfl := List.mem_singleton.mp hr
      exact hnew w hw heq
    · rw [hinitial]
      rcases List.mem_append.mp hw with hw | hw
      · exact List.mem_append_right _ (h.awaited w hw)
      · exact List.mem_append_left _ hw
  next => exact .nil h hfits

theorem Armed.append {g' g'' : GridState} {rs rs' : List OrderRequest}
    (h : Armed c filled amount works g' rs)
    (h' : ∀ works', GridAt c filled amount g' works' → Armed c filled amount works' g'' rs') :
    Armed c filled amount works g'' (rs ++ rs') := by
  obtain ⟨⟨ws, hws, hgrid⟩, -⟩ := h
  obtain ⟨⟨ws', hws', hgrid'⟩, hfits⟩ := h' _ hgrid
  refine ⟨⟨ws ++ ws', List.rel_append hws hws', ?_⟩, hfits⟩
  rwa [List.append_assoc] at hgrid'

/-- **The orders of a bar.** -/
theorem placeOrders_spec (hcash : 0 ≤ startingCash) (h : GridAt c filled amount g works)
    (hfits : ∀ cell ∈ g.cells, cell.Fits) {o : GridState × List OrderRequest}
    (ho : placeOrders c startingCash g = some o) :
    Armed c filled amount works o.1 o.2 ∧ ∀ cell ∈ o.1.cells, cell.state ≠ .exitReady := by
  obtain ⟨o', ho', rfl⟩ := Option.map_eq_some_iff.mp ho
  obtain ⟨entries, hentries, rfl⟩ := Option.map_eq_some_iff.mp ho'
  have hinitial := h.placeInitial (c := c) hcash hfits
  obtain ⟨g', hg'⟩ : ∃ g', g' = (placeInitial c startingCash g).1 := ⟨_, rfl⟩
  rw [← hg'] at hinitial hentries ⊢
  have hexits := fun works' (hgrid : GridAt c filled amount g' works') =>
    armExits_spec (g := g') (List.range g'.cells.length) hgrid hinitial.fits
  refine ⟨hinitial.append fun works' hgrid => (hexits works' hgrid).1.append
    fun works'' hgrid' => (armEntries_spec hcash _ hgrid' (hexits works' hgrid).1.fits hentries).1,
      ?_⟩
  obtain ⟨ws, -, hgrid⟩ := hinitial.asked
  obtain ⟨ws', -, hgrid'⟩ := (hexits _ hgrid).1.asked
  refine (armEntries_spec hcash _ hgrid' (hexits _ hgrid).1.fits hentries).2
    fun cell hcell hstate => ?_
  obtain ⟨j, hj⟩ := List.mem_iff_getElem?.mp hcell
  obtain ⟨hj, hnot⟩ := (hexits _ hgrid).2 j cell hj hstate
  exact hnot (List.mem_range.mpr (List.getElem?_eq_some_iff.mp hj).1)

/-! ## The handler -/

theorem GridCell.Fits.congr {cell' : GridCell} (hconstants : cell'.constants = cell.constants)
    (hcycle : cell'.cycle = cell.cycle) (h : cell.Fits) : cell'.Fits := by
  unfold GridCell.Fits GridCell.entryRef GridCell.exitRef GridCell.side at h ⊢
  rwa [hconstants, hcycle]

theorem reconcileCell_fits (view : View) (h : cell.Fits ∧ cell.next.Fits) :
    (reconcileCell view cell).Fits := by
  unfold reconcileCell
  split
  · exact h.1
  · split
    · split
      · exact .congr rfl rfl h.1
      · exact .congr rfl rfl h.2
      · exact .congr rfl rfl h.1
    · split
      · exact .congr rfl rfl h.1
      · exact h.1

/-- Sharing the initial order leaves what is told of the cells. -/
theorem GridTold.reconcileInitial (h : GridAt c filled amount g works) (htold : GridTold view g) :
    ∀ cell ∈ (reconcileInitial view g).cells,
      CellTold view cell ∧ cell.Fits ∧ cell.next.Fits := by
  have hsame : ∀ cell ∈ g.cells, CellTold view cell ∧ cell.Fits ∧ cell.next.Fits :=
    fun cell hcell => ⟨htold.cells cell hcell, htold.fits cell hcell⟩
  unfold Grid.reconcileInitial
  split
  · exact hsame
  next ref _ =>
    split
    · exact hsame
    next hallocated =>
      rw [Bool.not_eq_true] at hallocated
      split
      · intro cell' hcell'
        obtain ⟨cell, hcell, rfl⟩ := List.mem_map.mp hcell'
        obtain ⟨hconstants, href, hcycle⟩ :=
          allocate_spec |(statusOf view ref).filledQuantity| (seedTotal g.cells) cell
        have hnext : (cell.allocate |(statusOf view ref).filledQuantity|
            (seedTotal g.cells)).next.Fits :=
          @GridCell.Fits.congr cell.next _ hconstants (congrArg (· + 1) hcycle)
            (htold.fits cell hcell).2
        refine ⟨?_, .congr hconstants hcycle (htold.fits cell hcell).1, hnext⟩
        by_cases hseed : cell.isSeed = true
        · intro r hr
          rw [href, (h.cells cell hcell).ref] at hr
          unfold GridCell.awaited at hr
          rw [h.seeds hallocated cell hcell hseed] at hr
          cases hr
        · unfold GridCell.allocate
          rw [if_neg hseed]
          exact htold.cells cell hcell
      · split
        · exact hsame
        · exact hsame

/-- A risk exit halts the grid. -/
theorem riskExit_spec (c : GridConstants) (startingCash : ℚ) (view : View) (g : GridState) :
    ((riskExit c startingCash view g).1.halted = true ∨
        (riskExit c startingCash view g).2 = none ∧
          ∃ watch, (riskExit c startingCash view g).1 = { g with watch := watch }) ∧
      (g.halted = true → (riskExit c startingCash view g).1.halted = true) := by
  unfold riskExit
  split
  · exact ⟨.inr ⟨rfl, g.watch, rfl⟩, id⟩
  · dsimp only
    split
    · exact ⟨.inr ⟨rfl, _, rfl⟩, id⟩
    · exact ⟨.inl rfl, fun _ => rfl⟩

theorem placeOrders_halted {o : GridState × List OrderRequest} (hg : g.halted = true)
    (ho : placeOrders c startingCash g = some o) : o.1.halted = true := by
  obtain ⟨o', ho', rfl⟩ := Option.map_eq_some_iff.mp ho
  obtain ⟨entries, -, rfl⟩ := Option.map_eq_some_iff.mp ho'
  show (placeInitial c startingCash g).1.halted = true
  unfold Grid.placeInitial
  split
  · exact hg
  · exact hg

/-- **The handler** halts the grid, or leaves its orders under way. -/
theorem GridAt.handleBar (h : GridAt c filled amount g works) (hshown : Shown filled works view)
    (htold : GridTold view g) (hcash : 0 ≤ startingCash) {close : ℚ}
    {o : GridState × List Request} (ho : handleBar c startingCash close view g = some o) :
    o.1.halted = true ∨ ∃ rs, o.2 = rs.map Request.order ∧ Armed c filled amount works o.1 rs ∧
      ∀ cell ∈ o.1.cells, cell.state ≠ .exitReady := by
  unfold Grid.handleBar at ho
  obtain ⟨anchored, hanchored⟩ : ∃ anchored, anchored =
    if g.anchorPrice ≤ 0 then { g with anchorPrice := close } else g := ⟨_, rfl⟩
  rw [← hanchored] at ho
  dsimp only at ho
  have hgrid : GridAt c filled amount anchored works ∧ GridTold view anchored := by
    rw [hanchored]
    split
    · exact ⟨⟨h.constants, h.cells, h.initialRef, h.unasked, h.seeds, h.held, h.distinct,
        h.awaited⟩, ⟨htold.cells, htold.seeds, htold.fits⟩⟩
    · exact ⟨h, htold⟩
  obtain ⟨hrisk, hhalted⟩ := riskExit_spec c startingCash view
    (Grid.reconcileCells view (Grid.reconcileInitial view anchored))
  rcases hgrid.1.reconcileInitial hshown hgrid.2.seeds with hhalt | hinitial
  · left
    split at ho
    · obtain rfl := Option.some.inj ho
      exact hhalted hhalt
    · obtain ⟨placed, hplaced, rfl⟩ := Option.map_eq_some_iff.mp ho
      exact placeOrders_halted (hhalted hhalt) hplaced
  · have hkept := hgrid.2.reconcileInitial hgrid.1
    have hcells := hinitial.reconcileCells hshown fun cell hcell => (hkept cell hcell).1
    have hfits : ∀ cell ∈ (Grid.reconcileCells view (Grid.reconcileInitial view anchored)).cells,
        cell.Fits := by
      intro cell' hcell'
      obtain ⟨cell, hcell, rfl⟩ := List.mem_map.mp hcell'
      exact reconcileCell_fits view (hkept cell hcell).2
    rcases hrisk with hhalt | ⟨hnone, watch, hwatched⟩
    · left
      split at ho
      · obtain rfl := Option.some.inj ho
        exact hhalt
      · obtain ⟨placed, hplaced, rfl⟩ := Option.map_eq_some_iff.mp ho
        exact placeOrders_halted hhalt hplaced
    · right
      rw [hnone, hwatched] at ho
      obtain ⟨placed, hplaced, rfl⟩ := Option.map_eq_some_iff.mp ho
      have hwatching : GridAt c filled amount
          { Grid.reconcileCells view (Grid.reconcileInitial view anchored) with watch := watch }
          works :=
        ⟨hcells.constants, hcells.cells, hcells.initialRef, hcells.unasked, hcells.seeds,
          hcells.held, hcells.distinct, hcells.awaited⟩
      obtain ⟨harmed, hready⟩ := placeOrders_spec hcash hwatching hfits hplaced
      exact ⟨_, rfl, harmed, hready⟩

/-- `handle_data` halts the grid, or leaves its orders under way. -/
theorem GridAt.handleData (h : GridAt c filled amount g works) (hshown : Shown filled works view)
    (htold : GridTold view g) (hcash : 0 ≤ startingCash) (hlive : g.halted = false)
    (hready : ∀ cell ∈ g.cells, cell.state ≠ .exitReady) {o : GridState × List Request}
    (ho : handleData c startingCash view g = some o) :
    o.1.halted = true ∨ ∃ rs, o.2 = rs.map Request.order ∧ Armed c filled amount works o.1 rs ∧
      ∀ cell ∈ o.1.cells, cell.state ≠ .exitReady := by
  unfold Grid.handleData at ho
  split at ho
  · obtain rfl := Option.some.inj ho
    exact .inr ⟨[], rfl, .nil h fun cell hcell => (htold.fits cell hcell).1, hready⟩
  · rw [hlive, if_neg Bool.false_ne_true] at ho
    exact h.handleBar hshown htold hcash ho

end

/-! ## Runs -/

/-- What the handler is shown at the close. -/
def closingView (frames : Frames) (timestamp : Time) (r : Runner GridState) : View :=
  viewOf (portalAt frames timestamp true) timestamp
    (r.broker.book.markToMarket (portalAt frames timestamp true)) r.session

/-- What a bar has to be like: its fills go the way of their orders and leave no dust, the
account stays solvent, and at the close the statuses tell all that the ended orders did. -/
structure BarKept (cfg : BrokerConfig) (frames : Frames) (r : Runner GridState) (timestamp : Time) :
    Prop where
  clean : BatchClean cfg (portalAt frames timestamp false) timestamp
    (r.broker.book.markToMarket (portalAt frames timestamp false)) r.session.pendingOrders
  solvent : ∀ r₁ ∈ r.executePending cfg (portalAt frames timestamp false) timestamp,
    ∀ e ∈ r₁.broker.liquidateIfInsolvent cfg (portalAt frames timestamp true) timestamp, e.2 = false
  told : ∀ r₁ ∈ r.executePending cfg (portalAt frames timestamp false) timestamp,
    GridTold (closingView frames timestamp r₁) r₁.session.strategy

instance (cfg : BrokerConfig) (frames : Frames) (r : Runner GridState) (timestamp : Time) :
    Decidable (BarKept cfg frames r timestamp) :=
  decidable_of_iff (_ ∧ _ ∧ _)
    ⟨fun h => ⟨h.1, h.2.1, h.2.2⟩, fun h => ⟨h.clean, h.solvent, h.told⟩⟩

/-- Between bars the cells hold the legs, the pending orders are theirs, and no exit is
missing. -/
structure GridKept (c : GridConstants) (r : Runner GridState) : Prop where
  settled : r.Settled
  solvent : r.broker.bankrupt = false
  grid : ∃ works, List.Forall₂ Working works r.session.pendingOrders ∧
    GridAt c r.broker.book.filledOf (fun side => r.broker.book.amountOf (legKey c side))
      r.session.strategy works
  ready : ∀ cell ∈ r.session.strategy.cells, cell.state ≠ .exitReady

section
variable {c : GridConstants} {cfg : BrokerConfig} {frames : Frames} {r r' : Runner GridState}
  {timestamp : Time}

theorem filledOf_nonneg (b : Book) (reference : ClientRef) : 0 ≤ b.filledOf reference := by
  unfold Book.filledOf filledIn Book.told
  refine List.sum_nonneg fun q hq => ?_
  obtain ⟨row, hrow, rfl⟩ := List.mem_map.mp hq
  obtain ⟨e, -, rfl⟩ := List.mem_map.mp hrow
  split
  · exact le_max_left _ _
  · exact le_rfl

theorem gridProgram_onlyHandlesData (c : GridConstants) (startingCash : ℚ) :
    (gridProgram c startingCash).OnlyHandlesData :=
  ⟨fun _ _ => rfl, rfl, rfl, fun _ _ => rfl⟩

theorem handleData_halted (c : GridConstants) (startingCash : ℚ) (view : View) (g : GridState)
    (answer : GridState × List Request) (hg : g.halted = true)
    (hanswer : handleData c startingCash view g = some answer) : answer.1.halted = true := by
  unfold handleData at hanswer
  split at hanswer
  · obtain rfl := Option.some.inj hanswer
    exact hg
  · rw [if_pos hg] at hanswer
    obtain rfl := Option.some.inj hanswer
    exact hg

/-- **A bar.** -/
theorem GridKept.bar (h : GridKept c r) (hcash : 0 ≤ cfg.initialCapital)
    (hlive : r.session.strategy.halted = false) (hbar : BarKept cfg frames r timestamp)
    (hr' : r.bar cfg (gridProgram c cfg.initialCapital) frames timestamp = some r') :
    r'.session.strategy.halted = true ∨ GridKept c r' := by
  have hprog := gridProgram_onlyHandlesData c cfg.initialCapital
  obtain ⟨works, hworking, hgrid⟩ := h.grid
  unfold Runner.bar at hr'
  rw [h.solvent, if_neg Bool.false_ne_true] at hr'
  obtain ⟨o, ho, hclose⟩ := Option.bind_eq_some_iff.mp hr'
  obtain ⟨r₁, hr₁, -⟩ := Option.bind_eq_some_iff.mp ho
  obtain ⟨rows, left, hmoved⟩ :=
    executePending_moved h.settled hworking hgrid.distinct hbar.clean hr₁
  have hopened := openPhase_fst hprog hr₁ hmoved.settled
  rw [ho, Option.map_some] at hopened
  obtain rfl := Option.some.inj hopened
  have htold := hbar.told _ hr₁
  -- the fills of the bar
  have hfilled : o.1.broker.book.filledOf =
      filledMore r.broker.book.filledOf (filledIn · rows) := funext hmoved.filled
  have hamount : (fun side => o.1.broker.book.amountOf (legKey c side)) = fun side =>
      r.broker.book.amountOf (legKey c side) + movedBy works (filledIn · rows) (legKey c side) :=
    funext fun side => hmoved.amount (legKey c side)
  have hshows : ∀ ref, (statusOf (closingView frames timestamp o.1) ref).filledQuantity =
      o.1.broker.book.filledOf (.given ref) := fun ref => (hmoved.settled.told _).2
  have hafter : GridAt c o.1.broker.book.filledOf
      (fun side => o.1.broker.book.amountOf (legKey c side)) o.1.session.strategy left := by
    rw [hfilled, hamount, hmoved.strategy]
    refine hgrid.fill (fun reference hnone => filledIn_of_ne fun row hrow heq => ?_)
      (fun cell hcell hstate => ?_) hmoved.sublist
    · obtain ⟨w, hw, hown⟩ := hmoved.own row hrow
      exact hnone w hw (Option.some.inj (hown.symm.trans heq))
    · have href : cell.ref = some cell.exitRef := by
        rw [(hgrid.cells cell hcell).ref]
        unfold GridCell.awaited
        rw [hstate]
      have hcell' : cell ∈ o.1.session.strategy.cells := hmoved.strategy ▸ hcell
      have hle := ((htold.cells cell hcell' _ (Option.mem_def.mpr href)).2 hstate).1
      rw [hshows] at hle
      rwa [← hfilled]
  -- the handler at the close
  obtain ⟨answer, context, hanswer, hcontext, hstrategy, hhandled⟩ :=
    closePhase_handled hprog (hbar.solvent _ hr₁) hclose
  have hshown : Shown o.1.broker.book.filledOf left (closingView frames timestamp o.1) := by
    refine ⟨hshows, filledOf_nonneg _, fun w hw ref href => ?_⟩
    have hwaits := hmoved.waits w hw
    rwa [href] at hwaits
  rcases hafter.handleData hshown htold hcash (hmoved.strategy ▸ hlive)
      (hmoved.strategy ▸ h.ready) hanswer with hhalt | ⟨rs, hrs, ⟨⟨ws, hws, hnext⟩, -⟩, hready⟩
  · left
    rw [hstrategy]
    exact hhalt
  · right
    rw [hrs] at hcontext
    obtain ⟨hcancelled, hwell⟩ := handled_settled hmoved.settled hws hcontext answer.1
    obtain rfl := hhandled hcancelled
    obtain ⟨orders, horders, hpending⟩ := hwell.working
    refine ⟨hwell.settled, ?_, ⟨left ++ ws, ?_, ?_⟩, hready⟩
    · exact hwell.bankrupt.trans (hmoved.bankrupt.trans h.solvent)
    · rw [hpending]
      exact List.rel_append hmoved.working horders
    · rw [hwell.filled, hwell.amount]
      exact hnext

theorem GridKept.start (c : GridConstants) (cfg : BrokerConfig) :
    GridKept c (Runner.start cfg (gridProgram c cfg.initialCapital)) := by
  have hstate : ∀ cell ∈ (initialState c).cells, cell.ref = none ∧
      cell.state = if cell.isSeed = true then .disabled else .entryReady := by
    intro cell hcell
    obtain ⟨constants, -, rfl⟩ := List.mem_map.mp hcell
    exact ⟨rfl, rfl⟩
  have hidle : ∀ cell ∈ (initialState c).cells,
      cell.state = .disabled ∨ cell.state = .entryReady := by
    intro cell hcell
    rw [(hstate cell hcell).2]
    split
    · exact .inl rfl
    · exact .inr rfl
  refine ⟨⟨rfl, rfl, rfl, rfl, rfl, fun reference => ⟨rfl, rfl⟩, fun reference hrests => ?_⟩, rfl,
    ⟨[], .nil, ?_, fun cell hcell => ?_, .inl rfl, fun _ => ⟨rfl, rfl⟩,
      fun _ cell hcell hseed => ?_, fun side => ?_, List.nodup_nil, fun w hw => (by cases hw)⟩,
    fun cell hcell => ?_⟩
  · cases hrests
  · show (c.cells.map _).map GridCell.constants = c.cells
    rw [List.map_map]
    exact List.map_id _
  · refine ⟨?_, fun _ _ _ => rfl, fun _ => rfl, fun _ => rfl, fun hexits => ?_⟩
    · rw [(hstate cell hcell).1]
      unfold GridCell.awaited
      rcases hidle cell hcell with hcell | hcell
      · rw [hcell]
      · rw [hcell]
    · rcases hidle cell hcell with hcell | hcell
      · rw [hcell] at hexits
        cases hexits
      · rw [hcell] at hexits
        cases hexits
  · rw [(hstate cell hcell).2, if_pos hseed]
  · have hzero : heldBy c (Book.filledOf (Runner.start cfg
        (gridProgram c cfg.initialCapital)).broker.book) (initialState c) side = 0 := by
      unfold heldBy
      have hcells : ((initialState c).cells.map fun cell => if cell.side = side then cell.held
          (Book.filledOf (Runner.start cfg (gridProgram c cfg.initialCapital)).broker.book)
            else 0).sum = 0 := by
        refine List.sum_eq_zero fun x hx => ?_
        obtain ⟨cell, hcell, rfl⟩ := List.mem_map.mp hx
        split
        · unfold GridCell.held
          rcases hidle cell hcell with hcell | hcell
          · rw [hcell]
          · rw [hcell]
            rfl
        · rfl
      rw [hcells, add_zero]
      exact ite_self _
    refine Eq.trans ?_ (congrArg (signed side) hzero).symm
    exact (signed_zero side).symm
  · rcases hidle cell hcell with hcell | hcell
    · rw [hcell]
      exact fun heq => by cases heq
    · rw [hcell]
      exact fun heq => by cases heq

theorem inventory_eq_held {filled : ClientRef → ℚ} {cell : GridCell} (h : CellOk filled cell)
    (hready : cell.state ≠ .exitReady) : cell.inventory filled = cell.held filled := by
  have href := h.ref
  unfold GridCell.awaited at href
  unfold GridCell.inventory GridCell.held GridCell.orderFilled
  cases hstate : cell.state with
  | disabled => rfl
  | entryReady => exact (h.ready hstate).symm
  | entryPending =>
    rw [hstate] at href
    rw [href]
    rfl
  | exitReady => exact absurd hstate hready
  | exitPending =>
    rw [hstate] at href
    rw [href]
    rfl

theorem CellOk.held_nonneg {filled : ClientRef → ℚ} {cell : GridCell} (h : CellOk filled cell)
    (hfilled : ∀ reference, 0 ≤ filled reference) : 0 ≤ cell.held filled := by
  unfold GridCell.held
  split
  · exact le_rfl
  · exact hfilled _
  · exact hfilled _
  next hstate => exact sub_nonneg.mpr (h.quantity (by rw [hstate]; rfl)).2
  next hstate => exact sub_nonneg.mpr (h.quantity (by rw [hstate]; rfl)).2

theorem GridKept.accounted (h : GridKept c r) : Accounted c r := by
  obtain ⟨works, -, hgrid⟩ := h.grid
  intro side
  have hnonneg : 0 ≤ heldBy c r.broker.book.filledOf r.session.strategy side := by
    refine add_nonneg ?_ (List.sum_nonneg fun x hx => ?_)
    · split
      · unfold GridState.initialFilled
        split
        · exact le_rfl
        · cases r.session.strategy.initialRef with
          | none => exact le_rfl
          | some ref => exact filledOf_nonneg _ _
      · exact le_rfl
    · obtain ⟨cell, hcell, rfl⟩ := List.mem_map.mp hx
      split
      · exact (hgrid.cells cell hcell).held_nonneg (filledOf_nonneg _)
      · exact le_rfl
  have hheld : inventory c r.broker.book.filledOf r.session.strategy side =
      heldBy c r.broker.book.filledOf r.session.strategy side := by
    unfold inventory heldBy
    refine congrArg (_ + ·) (congrArg List.sum (List.map_congr_left fun cell hcell => ?_))
    rw [inventory_eq_held (hgrid.cells cell hcell) (h.ready cell hcell)]
  rw [hheld, hgrid.held side]
  unfold signed
  split
  · exact abs_of_nonneg hnonneg
  · rw [abs_neg, abs_of_nonneg hnonneg]

/-- **The inventory.**  In a run whose bars are all kept, every leg of a grid that is not
halted is what its cells hold. -/
theorem accounted_of_barKept (hcash : 0 ≤ cfg.initialCapital) {times : List Time}
    (hkept : Runs.AllSteps (Runner.bar cfg (gridProgram c cfg.initialCapital) frames)
      (fun r timestamp => r.session.strategy.halted = true ∨ BarKept cfg frames r timestamp)
      (Runner.start cfg (gridProgram c cfg.initialCapital)) times)
    (hrun : Runs.run (Runner.bar cfg (gridProgram c cfg.initialCapital) frames)
      (Runner.start cfg (gridProgram c cfg.initialCapital)) times = some r) :
    r.session.strategy.halted = true ∨ Accounted c r := by
  have hstep : ∀ (s : Runner GridState) (timestamp : Time) (s' : Runner GridState),
      s.session.strategy.halted = true ∨ GridKept c s →
        s.session.strategy.halted = true ∨ BarKept cfg frames s timestamp →
          Runner.bar cfg (gridProgram c cfg.initialCapital) frames s timestamp = some s' →
            s'.session.strategy.halted = true ∨ GridKept c s' := by
    intro s timestamp s' hs hok hs'
    by_cases hlive : s.session.strategy.halted = true
    · exact .inl (bar_keeps (gridProgram_onlyHandlesData c _)
        (handleData_halted c cfg.initialCapital) hlive hs')
    · rcases hs with hhalt | hs
      · exact absurd hhalt hlive
      · exact hs.bar hcash (Bool.not_eq_true _ ▸ hlive) (hok.resolve_left hlive) hs'
  exact (Runs.run_invariant_of_allSteps hstep (.inr (GridKept.start c cfg)) hkept
    hrun).imp_right GridKept.accounted

end

/-! ## A grid of four cells -/

def coin : Instrument := ⟨"Crypto", "BTC/USDT"⟩

def coinBar (low high : ℚ) : Bar where
  openPrice := 125
  high := high
  low := low
  close := 125

/-- A seed is sold in the third bar, and an entry bought in the fourth. -/
def coinFrames : Frames where
  entries :=
    [(coin, ⟨[(1, coinBar 125 125), (2, coinBar 115 125), (3, coinBar 125 135),
      (4, coinBar 108 125)], by decide⟩)]

def coinGrid : GridConstants :=
  (buildGrid (fun _ _ _ => []) coin
    { startPrice := 100, endPrice := 140, gridCount := 4, initialPositionPct := 1 / 2 }).get rfl

def coinRun : Option (Runner GridState) :=
  Runs.run (Runner.bar (.costless 1250) (gridProgram coinGrid 1250) coinFrames)
    (Runner.start (.costless 1250) (gridProgram coinGrid 1250)) [1, 2, 3, 4]

theorem accounted_of_barKept_coin :
    (coinRun.map fun r => r.session.strategy.halted) = some false ∧
      ∀ r, coinRun = some r → r.session.strategy.halted = true ∨ Accounted coinGrid r :=
  ⟨by decide +kernel, fun _ hrun =>
    accounted_of_barKept (by decide +kernel : (0 : ℚ) ≤ (BrokerConfig.costless 1250).initialCapital)
      (by decide +kernel) hrun⟩

end AlgoTrade.Robot.Grid
