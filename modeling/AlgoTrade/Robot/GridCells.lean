import AlgoTrade.Backtest.HandledBars
import AlgoTrade.Lib.Digits
import AlgoTrade.Robot.GridTemplate
import Mathlib.Algebra.BigOperators.Group.Finset.Basic
import Mathlib.Data.Finset.Dedup

/-! # The cells of a grid

The position of each leg against what the cells of the grid say they hold.

* `inventory`: the cells of a leg, with what is filled of the orders under way.
* `text_inj`: a reference says which order of which cell it is.
* `GridAt`: the cells account for the legs, and `GridAt.fill`: fills keep it so. -/

namespace AlgoTrade.Robot.Grid

open Backtest Digits

/-! ## The property -/

/-- What is filled of a cell's order. -/
def GridCell.orderFilled (filled : ClientRef → ℚ) (cell : GridCell) : ℚ :=
  (cell.ref.map fun ref => filled (.given ref.text)).getD 0

/-- What a cell says it holds. -/
def GridCell.inventory (filled : ClientRef → ℚ) (cell : GridCell) : ℚ :=
  match cell.state with
  | .disabled | .entryReady => 0
  | .entryPending => cell.orderFilled filled
  | .exitReady => cell.quantity
  | .exitPending => cell.quantity - cell.orderFilled filled

/-- What is filled of the initial order, until the seeds share it. -/
def GridState.initialFilled (filled : ClientRef → ℚ) (g : GridState) : ℚ :=
  if g.initialAllocated then 0 else (g.initialRef.map fun ref => filled (.given ref)).getD 0

def inventory (c : GridConstants) (filled : ClientRef → ℚ) (g : GridState) (side : Side) : ℚ :=
  (if side = c.gridSide.initialSide then g.initialFilled filled else 0) +
    (g.cells.map fun cell => if cell.side = side then cell.inventory filled else 0).sum

def legKey (c : GridConstants) (side : Side) : PositionKey := ⟨c.instrument, some side⟩

/-- Every leg is what its cells hold. -/
def Accounted (c : GridConstants) (r : Runner GridState) : Prop :=
  ∀ side, |r.broker.book.amountOf (legKey c side)| =
    inventory c r.broker.book.filledOf r.session.strategy side

/-! ## References -/

theorem toList_text (r : CellRef) : r.text.toList = "grid-".toList ++ (Nat.toDigits 10 r.index ++
    '-' :: ((sideText r.side).toList ++ '-' :: ((purposeText r.purpose).toList ++
      '-' :: Nat.toDigits 10 r.cycle))) := by
  unfold CellRef.text
  simp [Nat.repr]

theorem dash_notMem_toDigits (n : ℕ) : '-' ∉ Nat.toDigits 10 n := fun h => by
  cases isDigit_of_mem_toDigits h

theorem not_isWhitespace_of_all {l : List Char} (h : (l.all fun c => !c.isWhitespace) = true)
    {c : Char} (hc : c ∈ l) : ¬ c.isWhitespace = true := by
  have hnot := List.all_eq_true.mp h c hc
  rwa [Bool.not_eq_true', ← Bool.not_eq_true] at hnot

theorem sideText_spec (side : Side) : '-' ∉ (sideText side).toList ∧
    ((sideText side).toList.all fun c => !c.isWhitespace) = true := by
  cases side with
  | long => decide
  | short => decide

theorem purposeText_spec (purpose : OrderPurpose) : '-' ∉ (purposeText purpose).toList ∧
    ((purposeText purpose).toList.all fun c => !c.isWhitespace) = true := by
  cases purpose with
  | entry => decide
  | exit => decide

theorem sideText_inj {side side' : Side} (h : (sideText side).toList = (sideText side').toList) :
    side = side' := by
  cases side <;> cases side' <;> first | rfl | (revert h; decide)

theorem purposeText_inj {purpose purpose' : OrderPurpose}
    (h : (purposeText purpose).toList = (purposeText purpose').toList) : purpose = purpose' := by
  cases purpose <;> cases purpose' <;> first | rfl | (revert h; decide)

/-- The dashes tell a reference's parts apart. -/
theorem text_inj {r r' : CellRef} (h : r.text = r'.text) : r = r' := by
  have hlist := congrArg String.toList h
  rw [toList_text, toList_text, List.append_cancel_left_eq,
    append_separator_inj (dash_notMem_toDigits _) (dash_notMem_toDigits _),
    append_separator_inj (sideText_spec _).1 (sideText_spec _).1,
    append_separator_inj (purposeText_spec _).1 (purposeText_spec _).1, toDigits_inj,
    toDigits_inj] at hlist
  obtain ⟨hindex, hside, hpurpose, hcycle⟩ := hlist
  obtain ⟨index, side, purpose, cycle⟩ := r
  obtain ⟨index', side', purpose', cycle'⟩ := r'
  obtain rfl := sideText_inj hside
  obtain rfl := purposeText_inj hpurpose
  obtain rfl := hindex
  obtain rfl := hcycle
  rfl

theorem initialText_ne (side : Side) (r : CellRef) : initialText side ≠ r.text := by
  intro h
  have hlist := congrArg String.toList h
  have hinitial : (initialText side).toList =
      "grid-".toList ++ 'i' :: ("nitial-".toList ++ (sideText side).toList) := by
    unfold initialText
    simp
  rw [hinitial, toList_text, List.append_cancel_left_eq] at hlist
  cases hdigits : Nat.toDigits 10 r.index with
  | nil =>
    rw [hdigits] at hlist
    cases hlist
  | cons digit digits =>
    rw [hdigits] at hlist
    obtain rfl := List.head_eq_of_cons_eq hlist
    cases isDigit_of_mem_toDigits (hdigits ▸ List.mem_cons_self)

theorem isWhitespace_of_isDigit {c : Char} (h : c.isDigit = true) : ¬ c.isWhitespace = true := by
  simp only [Char.isDigit, Char.isWhitespace, Bool.and_eq_true, decide_eq_true_eq,
    Bool.or_eq_true] at h ⊢
  rintro (((rfl | rfl) | rfl) | rfl) <;> revert h <;> decide

/-- A reference is kept as it is, but for its length. -/
theorem strip_text (r : CellRef) : Text.strip r.text = r.text ∧ r.text ≠ "" := by
  refine ⟨Text.strip_eq_self fun c hc => ?_, fun h => ?_⟩
  · rw [toList_text] at hc
    simp only [List.mem_append, List.mem_cons] at hc
    rcases hc with hc | hc | rfl | hc | rfl | hc | rfl | hc
    · exact not_isWhitespace_of_all (by decide) hc
    · exact isWhitespace_of_isDigit (isDigit_of_mem_toDigits hc)
    · decide
    · exact not_isWhitespace_of_all (sideText_spec r.side).2 hc
    · decide
    · exact not_isWhitespace_of_all (purposeText_spec r.purpose).2 hc
    · decide
    · exact isWhitespace_of_isDigit (isDigit_of_mem_toDigits hc)
  · have hlist := congrArg String.toList h
    rw [toList_text] at hlist
    cases hlist

/-! ## Work under way -/

/-- An entry buys on the long leg, an exit on the short one. -/
def CellRef.tradeSide (r : CellRef) : TradeSide :=
  match r.side, r.purpose with
  | .long, .entry | .short, .exit => .buy
  | .long, .exit | .short, .entry => .sell

def CellRef.work (c : GridConstants) (r : CellRef) : Work :=
  ⟨.given r.text, legKey c r.side, r.tradeSide⟩

def initialWork (c : GridConstants) : Work :=
  ⟨.given (initialText c.gridSide.initialSide), legKey c c.gridSide.initialSide,
    match c.gridSide.initialSide with
    | .long => .buy
    | .short => .sell⟩

/-- The work of the orders the grid waits for. -/
def worksOf (c : GridConstants) (g : GridState) : List Work :=
  (if g.initialRef.isSome ∧ g.initialAllocated = false then [initialWork c] else []) ++
    (g.cells.filterMap GridCell.ref).map (CellRef.work c)

/-- Whether a cell is on its way out. -/
def CellState.exits : CellState → Bool
  | .exitReady | .exitPending => true
  | .disabled | .entryReady | .entryPending => false

/-- The reference a cell waits for. -/
def GridCell.awaited (cell : GridCell) : Option CellRef :=
  match cell.state with
  | .entryPending => some cell.entryRef
  | .exitPending => some cell.exitRef
  | .disabled | .entryReady | .exitReady => none

/-- What a cell really holds: what its entry has filled, or what its exit has left. -/
def GridCell.held (filled : ClientRef → ℚ) (cell : GridCell) : ℚ :=
  match cell.state with
  | .disabled => 0
  | .entryReady | .entryPending => filled (.given cell.entryRef.text)
  | .exitReady | .exitPending => cell.quantity - filled (.given cell.exitRef.text)

structure CellOk (filled : ClientRef → ℚ) (cell : GridCell) : Prop where
  ref : cell.ref = cell.awaited
  later : ∀ purpose cycle, cell.cycle < cycle →
    filled (.given (CellRef.text ⟨cell.constants.index, cell.side, purpose, cycle⟩)) = 0
  unsold : cell.state.exits = false → filled (.given cell.exitRef.text) = 0
  ready : cell.state = .entryReady → filled (.given cell.entryRef.text) = 0
  quantity : cell.state.exits = true →
    dust < cell.quantity ∧ filled (.given cell.exitRef.text) ≤ cell.quantity

def heldBy (c : GridConstants) (filled : ClientRef → ℚ) (g : GridState) (side : Side) : ℚ :=
  (if side = c.gridSide.initialSide then g.initialFilled filled else 0) +
    (g.cells.map fun cell => if cell.side = side then cell.held filled else 0).sum

/-- The cells hold the legs, and `works` is under way. -/
structure GridAt (c : GridConstants) (filled : ClientRef → ℚ) (amount : Side → ℚ) (g : GridState)
    (works : List Work) : Prop where
  constants : g.cells.map GridCell.constants = c.cells
  cells : ∀ cell ∈ g.cells, CellOk filled cell
  initialRef : g.initialRef = none ∨ g.initialRef = some (initialText c.gridSide.initialSide)
  unasked : g.initialRef = none →
    g.initialAllocated = false ∧ filled (.given (initialText c.gridSide.initialSide)) = 0
  seeds : g.initialAllocated = false → ∀ cell ∈ g.cells, cell.isSeed = true → cell.state = .disabled
  held : ∀ side, amount side = signed side (heldBy c filled g side)
  distinct : (works.map Work.reference).Nodup
  awaited : ∀ w ∈ works, w ∈ worksOf c g

section
variable {c : GridConstants} {filled delta : ClientRef → ℚ} {amount : Side → ℚ} {g : GridState}
  {works : List Work} {cell : GridCell}

theorem signed_add (side : Side) (x y : ℚ) :
    signed side (x + y) = signed side x + signed side y := by
  unfold signed
  split
  · rfl
  · exact neg_add x y

theorem signed_zero (side : Side) : signed side 0 = 0 := by
  unfold signed
  split
  · rfl
  · exact neg_zero

theorem legKey_inj {side side' : Side} : legKey c side = legKey c side' ↔ side = side' := by
  unfold legKey
  rw [PositionKey.mk.injEq, Option.some.injEq, and_iff_right rfl]

/-! ### References apart -/

theorem GridCell.awaited_spec {r : CellRef} (h : cell.awaited = some r) :
    cell.state = .entryPending ∧ r = cell.entryRef ∨
      cell.state = .exitPending ∧ r = cell.exitRef := by
  unfold awaited at h
  split at h
  next hstate => exact .inl ⟨hstate, (Option.some.inj h).symm⟩
  next hstate => exact .inr ⟨hstate, (Option.some.inj h).symm⟩
  all_goals cases h

theorem GridCell.awaited_index {r : CellRef} (h : cell.awaited = some r) :
    r.index = cell.constants.index ∧ r.cycle = cell.cycle := by
  rcases awaited_spec h with ⟨-, rfl⟩ | ⟨-, rfl⟩
  · exact ⟨rfl, rfl⟩
  · exact ⟨rfl, rfl⟩

theorem GridCell.awaited_exitRef (h : cell.awaited = some cell.exitRef) :
    cell.state = .exitPending := by
  rcases awaited_spec h with ⟨-, heq⟩ | ⟨hstate, -⟩
  · cases congrArg CellRef.purpose heq
  · exact hstate

/-- The cells wait for references of their own index. -/
theorem awaited_indexes {cells : List GridCell} (hok : ∀ cell ∈ cells, cell.ref = cell.awaited) :
    ((cells.filterMap GridCell.ref).map CellRef.index).Sublist
      (cells.map fun cell => cell.constants.index) := by
  induction cells with
  | nil => exact List.Sublist.refl _
  | cons cell cells ih =>
    have htail := ih fun cell' hcell => hok cell' (List.mem_cons_of_mem cell hcell)
    cases href : cell.ref with
    | none =>
      rw [List.filterMap_cons_none href]
      exact htail.cons _
    | some r =>
      obtain ⟨hindex, -⟩ := GridCell.awaited_index ((hok cell List.mem_cons_self).symm.trans href)
      rw [List.filterMap_cons_some href, List.map_cons, List.map_cons, hindex]
      exact htail.cons_cons _

theorem GridAt.indexes (h : GridAt c filled amount g works) :
    (g.cells.map fun cell => cell.constants.index).Nodup := by
  have hindexes : (g.cells.map fun cell => cell.constants.index) = List.range c.cells.length := by
    rw [← c.indexes, ← h.constants, List.map_map]
    rfl
  rw [hindexes]
  exact List.nodup_range

theorem GridAt.distinct_works (h : GridAt c filled amount g works) :
    ((worksOf c g).map Work.reference).Nodup := by
  have hrefs : (g.cells.filterMap GridCell.ref).Nodup :=
    List.Nodup.of_map _
      (h.indexes.sublist (awaited_indexes fun cell hcell => (h.cells cell hcell).ref))
  unfold worksOf
  rw [List.map_append, List.map_map]
  refine List.nodup_append.mpr
    ⟨?_, hrefs.map fun r r' heq => text_inj (ClientRef.given.inj heq), ?_⟩
  · split
    · exact List.nodup_singleton _
    · exact List.nodup_nil
  · intro reference hinitial reference' hcell heq
    obtain ⟨r, -, rfl⟩ := List.mem_map.mp hcell
    split at hinitial
    · rw [List.map_singleton, List.mem_singleton] at hinitial
      exact initialText_ne _ r (ClientRef.given.inj (hinitial.symm.trans heq))
    · cases hinitial

/-- A reference of a cell that it does not wait for is nobody's. -/
theorem GridAt.nobodys (h : GridAt c filled amount g works) (hcell : cell ∈ g.cells) {r : CellRef}
    (hindex : r.index = cell.constants.index) (hne : cell.awaited ≠ some r) :
    ∀ w ∈ works, w.reference ≠ .given r.text := by
  intro w hw heq
  rcases List.mem_append.mp (h.awaited w hw) with hw | hw
  · split at hw
    · obtain rfl := List.mem_singleton.mp hw
      exact initialText_ne _ r (ClientRef.given.inj heq)
    · cases hw
  · obtain ⟨r', hr', rfl⟩ := List.mem_map.mp hw
    obtain rfl := text_inj (ClientRef.given.inj heq)
    obtain ⟨cell', hcell', href⟩ := List.mem_filterMap.mp hr'
    rw [(h.cells cell' hcell').ref] at href
    have hsame : cell' = cell := List.inj_on_of_nodup_map h.indexes hcell' hcell
      ((GridCell.awaited_index href).1.symm.trans hindex)
    exact hne (hsame ▸ href)

/-! ### Fills -/

/-- The quantities after some more was filled. -/
def filledMore (filled delta : ClientRef → ℚ) (reference : ClientRef) : ℚ :=
  filled reference + delta reference

theorem movedBy_append (works works' : List Work) (delta : ClientRef → ℚ) (key : PositionKey) :
    movedBy (works ++ works') delta key = movedBy works delta key + movedBy works' delta key := by
  unfold movedBy
  rw [List.map_append, List.sum_append]

/-- Work that fills nothing moves nothing. -/
theorem movedBy_of_subset {works works' : List Work} (hsub : ∀ w ∈ works, w ∈ works')
    (hdistinct : (works.map Work.reference).Nodup) (hdistinct' : (works'.map Work.reference).Nodup)
    (hnone : ∀ reference, (∀ w ∈ works, w.reference ≠ reference) → delta reference = 0)
    (key : PositionKey) : movedBy works delta key = movedBy works' delta key := by
  unfold movedBy
  rw [← List.sum_toFinset _ (List.Nodup.of_map _ hdistinct),
    ← List.sum_toFinset _ (List.Nodup.of_map _ hdistinct')]
  refine Finset.sum_subset (fun w hw => ?_) fun w hw hnot => ?_
  · exact List.mem_toFinset.mpr (hsub w (List.mem_toFinset.mp hw))
  · rw [hnone w.reference fun v hv heq => ?_, mul_zero, ite_self]
    have hsame := List.inj_on_of_nodup_map hdistinct' (hsub v hv) (List.mem_toFinset.mp hw) heq
    exact hnot (List.mem_toFinset.mpr (hsame ▸ hv))

/-- What fills add to a cell. -/
theorem movedBy_cell (hok : cell.ref = cell.awaited)
    (hidle : ∀ r, cell.awaited ≠ some r → r = cell.entryRef ∨ r = cell.exitRef →
      delta (.given r.text) = 0) (side : Side) :
    movedBy (cell.ref.toList.map (CellRef.work c)) delta (legKey c side) =
      signed side (if cell.side = side then
        cell.held (filledMore filled delta) - cell.held filled else 0) := by
  have hone : ∀ (r : CellRef) (x : ℚ), r.side = cell.side →
      r.tradeSide.sign * delta (.given r.text) = signed cell.side x →
        movedBy [r.work c] delta (legKey c side) =
          signed side (if cell.side = side then x else 0) := by
    intro r x hside hx
    unfold movedBy CellRef.work
    rw [List.map_singleton, List.sum_singleton]
    dsimp only
    by_cases heq : cell.side = side
    · rw [if_pos (legKey_inj.mpr (hside.trans heq)), if_pos heq, ← heq]
      exact hx
    · rw [if_neg fun h => heq (hside.symm.trans (legKey_inj.mp h)), if_neg heq, signed_zero]
  have hnone : ∀ x : ℚ, x = 0 → (0 : ℚ) = signed side (if cell.side = side then x else 0) := by
    rintro x rfl
    rw [ite_self, signed_zero]
  rw [hok]
  unfold GridCell.awaited at hidle ⊢
  unfold GridCell.held filledMore
  cases hstate : cell.state with
  | disabled => exact hnone _ (sub_self _)
  | entryReady =>
    rw [hstate] at hidle
    refine hnone _ ?_
    dsimp only
    rw [hidle cell.entryRef (fun h => by cases h) (.inl rfl), add_zero, sub_self]
  | exitReady =>
    rw [hstate] at hidle
    refine hnone _ ?_
    dsimp only
    rw [hidle cell.exitRef (fun h => by cases h) (.inr rfl), add_zero, sub_self]
  | entryPending =>
    refine hone cell.entryRef _ rfl ?_
    dsimp only
    rw [add_sub_cancel_left]
    unfold CellRef.tradeSide GridCell.entryRef signed
    cases cell.side with
    | long => exact one_mul _
    | short => exact neg_one_mul _
  | exitPending =>
    refine hone cell.exitRef _ rfl ?_
    dsimp only
    rw [sub_sub_sub_cancel_left, ← sub_sub, sub_self, zero_sub]
    unfold CellRef.tradeSide GridCell.exitRef signed
    cases cell.side with
    | long => exact neg_one_mul _
    | short => exact (one_mul _).trans (neg_neg _).symm

theorem movedBy_cells {cells : List GridCell} (hok : ∀ cell ∈ cells, cell.ref = cell.awaited)
    (hidle : ∀ cell ∈ cells, ∀ r, cell.awaited ≠ some r → r = cell.entryRef ∨ r = cell.exitRef →
      delta (.given r.text) = 0) (side : Side) :
    movedBy ((cells.filterMap GridCell.ref).map (CellRef.work c)) delta (legKey c side) =
      signed side (cells.map fun cell => if cell.side = side then
        cell.held (filledMore filled delta) - cell.held filled else 0).sum := by
  induction cells with
  | nil => exact (signed_zero side).symm
  | cons cell cells ih =>
    have hhead : movedBy (cell.ref.toList.map (CellRef.work c)) delta (legKey c side) =
        signed side (if cell.side = side then
          cell.held (filledMore filled delta) - cell.held filled else 0) :=
      movedBy_cell (hok cell List.mem_cons_self) (hidle cell List.mem_cons_self) side
    have htail := ih (fun cell' hcell => hok cell' (List.mem_cons_of_mem cell hcell))
      fun cell' hcell => hidle cell' (List.mem_cons_of_mem cell hcell)
    have hsplit : (cell :: cells).filterMap GridCell.ref =
        cell.ref.toList ++ cells.filterMap GridCell.ref := by
      cases href : cell.ref with
      | none => exact List.filterMap_cons_none href
      | some r => exact List.filterMap_cons_some href
    rw [hsplit, List.map_append, movedBy_append, List.map_cons, List.sum_cons, signed_add, htail]
    exact congrArg (· + _) hhead

theorem GridAt.movedBy_initial (h : GridAt c filled amount g works) (side : Side) :
    movedBy (if g.initialRef.isSome ∧ g.initialAllocated = false then [initialWork c] else [])
        delta (legKey c side) =
      signed side (if side = c.gridSide.initialSide then
        g.initialFilled (filledMore filled delta) - g.initialFilled filled else 0) := by
  have hzero : ∀ {x : ℚ}, x = 0 → (0 : ℚ) =
      signed side (if side = c.gridSide.initialSide then x else 0) := by
    rintro x rfl
    rw [ite_self, signed_zero]
  unfold GridState.initialFilled
  cases hallocated : g.initialAllocated with
  | true =>
    rw [if_neg fun hopen => by cases hopen.2]
    exact hzero (sub_self _)
  | false =>
    rcases h.initialRef with href | href
    · rw [href, if_neg fun hopen => by cases hopen.1]
      exact hzero (sub_self _)
    · rw [href, if_pos ⟨rfl, rfl⟩]
      unfold movedBy initialWork filledMore
      rw [List.map_singleton, List.sum_singleton]
      dsimp only
      rw [if_neg Bool.false_ne_true, if_neg Bool.false_ne_true, Option.map_some, Option.getD_some,
        Option.map_some, Option.getD_some, add_sub_cancel_left]
      by_cases heq : side = c.gridSide.initialSide
      · rw [if_pos (legKey_inj.mpr heq.symm), if_pos heq, heq]
        unfold signed
        cases c.gridSide.initialSide with
        | long => exact one_mul _
        | short => exact neg_one_mul _
      · rw [if_neg fun hkey => heq (legKey_inj.mp hkey).symm, if_neg heq, signed_zero]

theorem heldBy_filledMore (c : GridConstants) (filled delta : ClientRef → ℚ) (g : GridState)
    (side : Side) : heldBy c (filledMore filled delta) g side = heldBy c filled g side +
      ((if side = c.gridSide.initialSide then
          g.initialFilled (filledMore filled delta) - g.initialFilled filled else 0) +
        (g.cells.map fun cell => if cell.side = side then
          cell.held (filledMore filled delta) - cell.held filled else 0).sum) := by
  have hcells : (g.cells.map fun cell =>
        if cell.side = side then cell.held (filledMore filled delta) else 0).sum =
      (g.cells.map fun cell => if cell.side = side then cell.held filled else 0).sum +
        (g.cells.map fun cell => if cell.side = side then
          cell.held (filledMore filled delta) - cell.held filled else 0).sum := by
    rw [← List.sum_map_add]
    refine congrArg List.sum (List.map_congr_left fun cell _ => ?_)
    split
    · exact (add_sub_cancel _ _).symm
    · exact (add_zero 0).symm
  unfold heldBy
  rw [hcells]
  split
  · ring
  · ring

/-- **Fills** of the work under way leave the cells holding the legs. -/
theorem GridAt.fill (h : GridAt c filled amount g works)
    (hnone : ∀ reference, (∀ w ∈ works, w.reference ≠ reference) → delta reference = 0)
    (hbound : ∀ cell ∈ g.cells, cell.state = .exitPending →
      filledMore filled delta (.given cell.exitRef.text) ≤ cell.quantity)
    {left : List Work} (hleft : left.Sublist works) :
    GridAt c (filledMore filled delta)
      (fun side => amount side + movedBy works delta (legKey c side)) g left := by
  have hidle : ∀ cell ∈ g.cells, ∀ r : CellRef, r.index = cell.constants.index →
      cell.awaited ≠ some r → delta (.given r.text) = 0 := fun cell hcell r hindex hne =>
    hnone _ (h.nobodys hcell hindex hne)
  refine ⟨h.constants, fun cell hcell => ?_, h.initialRef, fun href => ?_, h.seeds, fun side => ?_,
    h.distinct.sublist (hleft.map _), fun w hw => h.awaited w (hleft.subset hw)⟩
  · have hok := h.cells cell hcell
    have hexit : cell.state ≠ .exitPending → delta (.given cell.exitRef.text) = 0 := fun hne =>
      hidle cell hcell _ rfl fun hsome => hne (GridCell.awaited_exitRef hsome)
    refine ⟨hok.ref, fun purpose cycle hcycle => ?_, fun hexits => ?_, fun hready => ?_,
      fun hexits => ⟨(hok.quantity hexits).1, ?_⟩⟩
    · have hlater := hidle cell hcell ⟨cell.constants.index, cell.side, purpose, cycle⟩ rfl
        fun hsome => hcycle.ne (GridCell.awaited_index hsome).2.symm
      unfold filledMore
      rw [hok.later purpose cycle hcycle, hlater, add_zero]
    · unfold filledMore
      have hstate : cell.state ≠ .exitPending := by
        intro hstate
        rw [hstate] at hexits
        cases hexits
      rw [hok.unsold hexits, hexit hstate, add_zero]
    · unfold filledMore
      rw [hok.ready hready, hidle cell hcell _ rfl, add_zero]
      unfold GridCell.awaited
      rw [hready]
      exact fun hsome => by cases hsome
    · by_cases hpending : cell.state = .exitPending
      · exact hbound cell hcell hpending
      · unfold filledMore
        rw [hexit hpending, add_zero]
        exact (hok.quantity hexits).2
  · obtain ⟨hallocated, hzero⟩ := h.unasked href
    refine ⟨hallocated, ?_⟩
    unfold filledMore
    rw [hzero, hnone, add_zero]
    intro w hw heq
    rcases List.mem_append.mp (h.awaited w hw) with hw | hw
    · rw [href, if_neg fun hopen => by cases hopen.1] at hw
      cases hw
    · obtain ⟨r, -, rfl⟩ := List.mem_map.mp hw
      exact initialText_ne _ r (ClientRef.given.inj heq).symm
  · have hcells : movedBy ((g.cells.filterMap GridCell.ref).map (CellRef.work c)) delta
        (legKey c side) = signed side (g.cells.map fun cell => if cell.side = side then
          cell.held (filledMore filled delta) - cell.held filled else 0).sum := movedBy_cells
      (fun cell hcell => (h.cells cell hcell).ref)
      (fun cell hcell r hne hr => hidle cell hcell r (by rcases hr with rfl | rfl <;> rfl) hne) side
    rw [movedBy_of_subset h.awaited h.distinct h.distinct_works hnone, worksOf, movedBy_append,
      h.movedBy_initial side, hcells, heldBy_filledMore, signed_add, signed_add, h.held side]

end

end AlgoTrade.Robot.Grid
