import Mathlib.Algebra.Order.Field.Rat
import Mathlib.Tactic.Linarith
import Mathlib.Tactic.Ring

/-! # The local position row of one strategy leg

`applyFillToLocalPosition` is `apply_fill_to_local_position`: it reads the row of
(strategy, symbol, side), works one fill into it and writes it back.  Amounts
and prices are exact rationals; the table's `DECIMAL` rounding is not modelled.

* `size_applyFill_open`: an opening fill adds its quantity to the size.
* `size_applyFill_close`: a closing fill takes its quantity off, down to zero. -/

namespace AlgoTrade

/-- The signal types an order can carry (`signal_to_side_pos_reduce` refuses
every other string). -/
inductive SignalType
  | openLong | addLong | openShort | addShort
  | closeLong | reduceLong | closeLongStop | closeLongProfit | closeLongTrailing
  | closeShort | reduceShort | closeShortStop | closeShortProfit | closeShortTrailing
  deriving DecidableEq, Repr

namespace SignalType

/-- `"long" in sig`; every other signal contains `"short"`. -/
def isLong : SignalType → Bool
  | openLong | addLong | closeLong | reduceLong | closeLongStop | closeLongProfit
  | closeLongTrailing => true
  | _ => false

/-- `sig.startswith("open_") or sig.startswith("add_")`; every other signal
starts with `close_` or `reduce_`. -/
def isOpen : SignalType → Bool
  | openLong | addLong | openShort | addShort => true
  | _ => false

end SignalType

/-- A row of `qd_strategy_positions`. -/
structure PositionRow where
  size : ℚ
  entryPrice : ℚ
  highestPrice : ℚ
  lowestPrice : ℚ
  deriving DecidableEq, Repr

/-- What `apply_fill_to_local_position` leaves and returns. -/
structure FillResult where
  position : Option PositionRow
  profit : Option ℚ := none
  matchedEntryPrice : Option ℚ := none
  deriving DecidableEq, Repr

/-- `_fetch_position_fuzzy`: only a row with a positive size is used. -/
def fetchPosition (row : Option PositionRow) : Option PositionRow :=
  row.filter fun r => 0 < r.size

/-- Python's `x or y` on numbers. -/
def orElse (x y : ℚ) : ℚ := if x = 0 then y else x

/-- Size held by a row, zero when there is none. -/
def positionSize (row : Option PositionRow) : ℚ :=
  match fetchPosition row with
  | none => 0
  | some r => r.size

def entryPriceOf (row : Option PositionRow) : ℚ :=
  match fetchPosition row with
  | none => 0
  | some r => r.entryPrice

/-- `max(cur_high or px, px)` of the row in use. -/
def nextHigh (row : Option PositionRow) (px : ℚ) : ℚ :=
  match fetchPosition row with
  | none => px
  | some r => max (orElse r.highestPrice px) px

def nextLow (row : Option PositionRow) (px : ℚ) : ℚ :=
  match fetchPosition row with
  | none => px
  | some r => min (orElse r.lowestPrice px) px

/-- `apply_fill_to_local_position`. -/
def applyFillToLocalPosition (signal : SignalType) (filled avgPrice : ℚ)
    (row : Option PositionRow) : FillResult :=
  if filled ≤ 0 ∨ avgPrice ≤ 0 then { position := row }
  else
    let curSize := positionSize row
    let curEntry := entryPriceOf row
    if signal.isOpen then
      let newSize := curSize + filled
      let newEntry :=
        if 0 < curSize ∧ 0 < curEntry then (curSize * curEntry + filled * avgPrice) / newSize
        else avgPrice
      { position := some
          { size := newSize
            entryPrice := newEntry
            highestPrice := nextHigh row avgPrice
            lowestPrice := nextLow row avgPrice } }
    else
      let closeQty := min curSize filled
      let hasBasis : Bool := 0 < curSize ∧ 0 < curEntry
      let profit :=
        if signal.isLong then (avgPrice - curEntry) * closeQty else (curEntry - avgPrice) * closeQty
      let newSize := curSize - filled
      { position :=
          if newSize ≤ 0 then none
          else some
            { size := newSize
              entryPrice := if 0 < curEntry then curEntry else avgPrice
              highestPrice := nextHigh row avgPrice
              lowestPrice := nextLow row avgPrice }
        profit := if hasBasis then some profit else none
        matchedEntryPrice := if hasBasis then some curEntry else none }

theorem positionSize_nonneg (row : Option PositionRow) : 0 ≤ positionSize row := by
  unfold positionSize
  split
  · exact le_rfl
  · next r h =>
    have := (Option.filter_eq_some_iff.mp h).2
    simp only [decide_eq_true_eq] at this
    exact this.le

theorem positionSize_some {r : PositionRow} (h : 0 < r.size) : positionSize (some r) = r.size := by
  simp [positionSize, fetchPosition, Option.filter, h]

/-- A fill without quantity or price leaves the row alone. -/
theorem applyFill_noop {signal : SignalType} {filled avgPrice : ℚ} {row : Option PositionRow}
    (h : filled ≤ 0 ∨ avgPrice ≤ 0) :
    (applyFillToLocalPosition signal filled avgPrice row).position = row := by
  simp [applyFillToLocalPosition, h]

theorem size_applyFill_open {signal : SignalType} {filled avgPrice : ℚ} {row : Option PositionRow}
    (hs : signal.isOpen = true) (hq : 0 < filled) (hp : 0 < avgPrice) :
    positionSize (applyFillToLocalPosition signal filled avgPrice row).position =
      positionSize row + filled := by
  have hlt : 0 < positionSize row + filled := by
    have := positionSize_nonneg row
    linarith
  simp only [applyFillToLocalPosition, not_or.mpr ⟨not_le.mpr hq, not_le.mpr hp⟩, if_false, hs,
    if_true]
  exact positionSize_some hlt

theorem size_applyFill_close {signal : SignalType} {filled avgPrice : ℚ} {row : Option PositionRow}
    (hs : signal.isOpen = false) (hq : 0 < filled) (hp : 0 < avgPrice) :
    positionSize (applyFillToLocalPosition signal filled avgPrice row).position =
      max 0 (positionSize row - filled) := by
  simp only [applyFillToLocalPosition, not_or.mpr ⟨not_le.mpr hq, not_le.mpr hp⟩, if_false, hs,
    Bool.false_eq_true]
  split
  · next h => rw [max_eq_left h]; rfl
  · next h =>
    rw [max_eq_right (not_le.mp h).le]
    exact positionSize_some (not_le.mp h)

/-- The position row of one leg with the total quantity worked into it so far. -/
structure PositionLedger where
  row : Option PositionRow
  applied : ℚ
  deriving DecidableEq, Repr

/-- Apply a fill to the row and count the quantity when the row took it. -/
def PositionLedger.apply (l : PositionLedger) (signal : SignalType) (filled avgPrice : ℚ) :
    PositionLedger where
  row := (applyFillToLocalPosition signal filled avgPrice l.row).position
  applied := if filled ≤ 0 ∨ avgPrice ≤ 0 then l.applied else l.applied + filled

theorem PositionLedger.applied_apply {l : PositionLedger} {signal : SignalType}
    {filled avgPrice : ℚ} (hq : 0 < filled) (hp : 0 < avgPrice) :
    (l.apply signal filled avgPrice).applied = l.applied + filled := by
  simp [PositionLedger.apply, not_le.mpr hq, not_le.mpr hp]

/-- The count is what an opening order adds to the size. -/
theorem PositionLedger.size_apply_open {l : PositionLedger} {signal : SignalType}
    {filled avgPrice : ℚ} (hs : signal.isOpen = true) :
    positionSize (l.apply signal filled avgPrice).row - (l.apply signal filled avgPrice).applied =
      positionSize l.row - l.applied := by
  by_cases h : filled ≤ 0 ∨ avgPrice ≤ 0
  · simp [PositionLedger.apply, h, applyFill_noop h]
  · obtain ⟨hq, hp⟩ := not_or.mp h
    rw [PositionLedger.applied_apply (not_le.mp hq) (not_le.mp hp)]
    unfold PositionLedger.apply
    rw [size_applyFill_open hs (not_le.mp hq) (not_le.mp hp)]
    ring

end AlgoTrade
