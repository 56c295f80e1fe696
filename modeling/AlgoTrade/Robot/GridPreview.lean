import AlgoTrade.Lib.Rounding
import AlgoTrade.Robot.ExecutorConfig
import Mathlib.Algebra.BigOperators.Group.List.Basic
import Mathlib.Data.List.GetD
import Mathlib.Tactic.FieldSimp
import Mathlib.Tactic.Ring

/-! # Grid previews

`previewGrid` splits the range of a grid into cells and shares the investment among the
cells it shows.

* `linspace`, `gridPoints`: the lines of a leg.
* `WellPaired`: the rows come to the investment, the cells of a leg get the same, and
  every row goes out at the next line on its profitable side.
* `wellPaired_iff`: that is so exactly when no two lines of a shown cell are rounded to
  one price. -/

namespace AlgoTrade.Executors

open Rounding

/-! ## Lines -/

/-- `_linspace`. -/
def linspace (start stop : ℚ) (count : ℕ) : List ℚ :=
  if count ≤ 1 then [roundTo 8 ((start + stop) / 2)]
  else
    let step := (stop - start) / (count - 1 : ℕ)
    (List.range count).map fun i : ℕ => roundTo 8 (start + step * i)

section
/- `_geospace` takes a root, which is no rational. -/
variable (geospace : ℚ → ℚ → ℕ → List ℚ)

/-- `_grid_points`. -/
def gridPoints (start stop : ℚ) (cellCount : ℕ) (mode : String) : List ℚ :=
  let pointCount := max 1 cellCount + 1
  if mode = "geometric" then geospace start stop pointCount else linspace start stop pointCount

end

/-- `list(zip(points[:-1], points[1:]))`. -/
def cellsOf (points : List ℚ) : List (ℚ × ℚ) := points.dropLast.zip points.tail

/-! ## Preview -/

def maxGridCells : ℕ := 200

/-- What `_preview_grid` works out before the levels; `count` is even for a neutral grid. -/
structure GridPlan where
  side : Side
  low : ℚ
  high : ℚ
  count : ℕ
  total : ℚ
  mode : String
  dynamicAnchor : Bool
  reference : ℚ
  warnings : List String
  deriving DecidableEq, Repr

/-- The first `reference` of `_preview_grid`. -/
def gridReference (dynamicAnchor : Bool) (low high : ℚ) : ℚ :=
  if dynamicAnchor ∧ low < 1 ∧ 1 < high then 1 else (low + high) / 2

section
variable (py : Numerals) (cfg : Payload)

/-- `_preview_grid`, up to the levels. -/
def gridPlan : Except String GridPlan :=
  let start := toFloat py (cfg.either "start_price" "startPrice") 0
  let stop := toFloat py (cfg.either "end_price" "endPrice") 0
  let count := (max 2 (toInt py (cfg.either "grid_count" "gridCount") 2)).toNat
  if maxGridCells < count then .error "GRID_COUNT_EXCEEDS_SAFE_LIMIT"
  else
    let total := max 0 (toFloat py (cfg.either "total_amount_quote" "totalAmountQuote") count)
    let side := side (cfg.get "side") true
    let mode :=
      match cfg.either "grid_mode" "gridMode" with
      | .text s => if s = "" then "arithmetic" else lowered s
      | _ => "arithmetic"
    let low := min start stop
    let high := max start stop
    let dynamicAnchor := (cfg.get "dynamic_anchor").truthy
    let reference := gridReference dynamicAnchor low high
    let anchored : Bool := low < reference ∧ reference < high
    let odd := count % 2 = 1
    .ok
      { side, low, high, total, mode, dynamicAnchor
        count := if side = .neutral ∧ odd then count + 1 else count
        reference := if side = .neutral ∧ ¬ anchored then (low + high) / 2 else reference
        warnings :=
          (if start ≤ 0 ∨ stop ≤ 0 ∨ start = stop then ["invalid_price_bounds"] else []) ++
            (if side = .neutral ∧ odd then ["neutral_grid_count_adjusted_even"] else []) ++
            (if side = .neutral ∧ ¬ anchored then ["neutral_grid_anchor_outside_bounds"] else []) }

/-- The warnings `_preview_grid` adds after the levels. -/
def workloadWarnings (count : ℕ) : List String :=
  let requested := (max 1 (toInt py (cfg.either "max_open_orders" "maxOpenOrders") 4)).toNat
  let equity := equityRisk py cfg true
  (if count < requested then ["max_open_orders_adjusted_to_grid_count"] else []) ++
    (if 60 ≤ count ∨ 40 ≤ min count requested then ["high_frequency_grid_backtest_workload"]
      else []) ++
    (if trailingInvalid equity.trailingEnabled equity.trailingActivation equity.trailingCallback
      then ["invalid_equity_trailing_take_profit"] else [])

end

namespace GridPlan

section
variable (geospace : ℚ → ℚ → ℕ → List ℚ) (g : GridPlan)

/-- Entry and exit of the rows of a neutral grid, nearest first. -/
def neutralRows : List (Side × ℚ × ℚ) :=
  let legCount := g.count / 2
  let longCells := cellsOf (gridPoints geospace g.low g.reference legCount g.mode)
  let shortCells := cellsOf (gridPoints geospace g.reference g.high legCount g.mode)
  longCells.reverse.map (fun cell => (.long, cell.1, cell.2)) ++
    shortCells.map fun cell => (.short, cell.2, cell.1)

/-- Entry and exit of the rows of a grid with one leg. -/
def oneLegRows : List (Side × ℚ × ℚ) :=
  let cells := cellsOf (gridPoints geospace g.low g.high g.count g.mode)
  if g.side = .long then
    ((cells.filter fun cell => ¬ g.dynamicAnchor ∨ cell.1 < g.reference).map fun cell =>
      (g.side, cell.1, cell.2)).reverse
  else
    (cells.filter fun cell => ¬ g.dynamicAnchor ∨ g.reference < cell.2).map fun cell =>
      (g.side, cell.2, cell.1)

def rows : List (Side × ℚ × ℚ) :=
  if g.side = .neutral then g.neutralRows geospace else g.oneLegRows geospace

/-- The quote amount of a row. -/
def amount : ℚ :=
  if g.side = .neutral then g.total * (1 / 2) / (max 1 (g.count / 2) : ℕ)
  else g.total / (max 1 (g.rows geospace).length : ℕ)

def levels : List ExecutorLevel :=
  (g.rows geospace).mapIdx fun i row =>
    { level := i + 1
      action := "open"
      side := row.1
      price := row.2.1
      amountQuote := g.amount geospace
      takeProfitPrice := row.2.2
      triggerPct :=
        if g.side = .neutral ∨ 0 < g.reference then |row.2.1 / g.reference - 1| else 0 }

end

end GridPlan

/-- `_preview_grid`. -/
def previewGrid (py : Numerals) (geospace : ℚ → ℚ → ℕ → List ℚ) (cfg : Payload) :
    Except String ExecutorPreview :=
  match gridPlan py cfg with
  | .error e => .error e
  | .ok g =>
    .ok { levels := g.levels geospace, warnings := g.warnings ++ workloadWarnings py cfg g.count }

/-! ## Statement -/

/-- A leg of a grid: its range and the number of its cells. -/
structure Leg where
  start : ℚ
  stop : ℚ
  cells : ℕ
  deriving DecidableEq, Repr

/-- A grid line, rounded to eight decimals. -/
def Leg.line (leg : Leg) (i : ℕ) : ℚ :=
  roundTo 8 (leg.start + (leg.stop - leg.start) / leg.cells * i)

namespace GridPlan

variable (g : GridPlan)

def leg (side : Side) : Leg :=
  if g.side = .neutral then
    if side = .long then ⟨g.low, g.reference, g.count / 2⟩ else ⟨g.reference, g.high, g.count / 2⟩
  else ⟨g.low, g.high, g.count⟩

/-- The preview has a row for a cell of a leg. -/
def Shows (side : Side) (i : ℕ) : Prop :=
  i < (g.leg side).cells ∧
    if g.side = .neutral then side ≠ .neutral
    else side = g.side ∧ (g.dynamicAnchor = true →
      if side = .long then (g.leg side).line i < g.reference
      else g.reference < (g.leg side).line (i + 1))

/-- Entry and exit of a cell. -/
def rowAt (side : Side) (i : ℕ) : Side × ℚ × ℚ :=
  if side = .long then (side, (g.leg side).line i, (g.leg side).line (i + 1))
  else (side, (g.leg side).line (i + 1), (g.leg side).line i)

/-- No two lines of a cell that is shown are rounded to one price. -/
def Distinct : Prop :=
  ∀ side i, g.Shows side i → (g.leg side).line i ≠ (g.leg side).line (i + 1)

end GridPlan

structure WellPaired (g : GridPlan) (levels : List ExecutorLevel) : Prop where
  total : levels ≠ [] → (levels.map ExecutorLevel.amountQuote).sum = g.total
  equal : g.side = .neutral → ∀ l ∈ levels, ∀ l' ∈ levels, l.side = l'.side →
    l.amountQuote = l'.amountQuote
  adjacent : ∀ l ∈ levels, ∃ i < (g.leg l.side).cells,
    (l.side, l.price, l.takeProfitPrice) = g.rowAt l.side i
  profitable : ∀ l ∈ levels, Loses l.side l.takeProfitPrice l.price

/-! ## Lines and cells -/

section
variable {geospace : ℚ → ℚ → ℕ → List ℚ}

theorem gridPoints_eq {start stop : ℚ} {cells : ℕ} {mode : String} (hmode : mode ≠ "geometric")
    (hcells : 1 ≤ cells) :
    gridPoints geospace start stop cells mode =
      (List.range (cells + 1)).map (Leg.line ⟨start, stop, cells⟩) := by
  unfold gridPoints linspace
  simp only [if_neg hmode, Nat.max_eq_right hcells]
  rw [if_neg (by omega), Nat.add_sub_cancel]
  rfl

theorem cellsOf_map_range (f : ℕ → ℚ) (n : ℕ) :
    cellsOf ((List.range (n + 1)).map f) = (List.range n).map fun i => (f i, f (i + 1)) := by
  unfold cellsOf
  apply List.ext_getElem
  · simp
  · intro i hi hi'
    simp

theorem cellsOf_gridPoints {start stop : ℚ} {cells : ℕ} {mode : String} (hmode : mode ≠ "geometric")
    (hcells : 1 ≤ cells) :
    cellsOf (gridPoints geospace start stop cells mode) =
      (List.range cells).map fun i =>
        (Leg.line ⟨start, stop, cells⟩ i, Leg.line ⟨start, stop, cells⟩ (i + 1)) := by
  rw [gridPoints_eq hmode hcells, cellsOf_map_range]

theorem Leg.line_mono {leg : Leg} (h : leg.start ≤ leg.stop) : Monotone leg.line := by
  intro i j hij
  have hstep : 0 ≤ (leg.stop - leg.start) / leg.cells :=
    div_nonneg (sub_nonneg.mpr h) (Nat.cast_nonneg _)
  have hcast : (i : ℚ) ≤ j := by exact_mod_cast hij
  exact roundTo_mono 8 (add_le_add_right (mul_le_mul_of_nonneg_left hcast hstep) _)

/-- Lines more than a unit of the eighth decimal apart stay apart. -/
theorem Leg.line_ne {leg : Leg} (h : 1 < (leg.stop - leg.start) / leg.cells * 10 ^ 8) (i : ℕ) :
    leg.line i ≠ leg.line (i + 1) := by
  refine (roundTo_lt ?_).ne
  push_cast
  linarith

end

/-! ## Plans -/

/-- What every plan keeps to. -/
structure GridPlan.Valid (g : GridPlan) : Prop where
  range : g.low ≤ g.high
  count : 2 ≤ g.count
  even : g.side = .neutral → g.count % 2 = 0
  reference : g.side = .neutral → g.low ≤ g.reference ∧ g.reference ≤ g.high

theorem gridPlan_valid {py : Numerals} {cfg : Payload} {g : GridPlan}
    (h : gridPlan py cfg = .ok g) : g.Valid := by
  unfold gridPlan at h
  dsimp only at h
  split at h
  · cases h
  · obtain rfl := Except.ok.inj h
    generalize toFloat py (cfg.either "start_price" "startPrice") 0 = start
    generalize toFloat py (cfg.either "end_price" "endPrice") 0 = stop
    have hrange : min start stop ≤ max start stop := min_le_max
    generalize min start stop = low at hrange ⊢
    generalize max start stop = high at hrange ⊢
    refine ⟨hrange, ?_, fun hside => ?_, fun hside => ?_⟩
    · dsimp only
      split <;> omega
    · dsimp only at hside ⊢
      simp only [hside, true_and]
      split <;> omega
    · dsimp only at hside ⊢
      simp only [hside, true_and]
      split
      · constructor <;> linarith
      next hanchored =>
        simp only [not_not, decide_eq_true_eq] at hanchored
        exact ⟨hanchored.1.le, hanchored.2.le⟩

/-! ## Rows -/

namespace GridPlan

section
variable {geospace : ℚ → ℚ → ℕ → List ℚ} {g : GridPlan}

theorem rowAt_side (side : Side) (i : ℕ) : (g.rowAt side i).1 = side := by
  unfold rowAt
  split <;> rfl

theorem neutralRows_eq (hg : g.Valid) (hmode : g.mode ≠ "geometric") (hside : g.side = .neutral) :
    g.neutralRows geospace =
      ((List.range (g.count / 2)).map (g.rowAt .long)).reverse ++
        (List.range (g.count / 2)).map (g.rowAt .short) := by
  have hcells : 1 ≤ g.count / 2 := by have := hg.count; omega
  have hlong : g.rowAt .long = fun i => (.long, Leg.line ⟨g.low, g.reference, g.count / 2⟩ i,
      Leg.line ⟨g.low, g.reference, g.count / 2⟩ (i + 1)) := by
    funext i
    simp [rowAt, leg, hside]
  have hshort : g.rowAt .short = fun i =>
      (.short, Leg.line ⟨g.reference, g.high, g.count / 2⟩ (i + 1),
        Leg.line ⟨g.reference, g.high, g.count / 2⟩ i) := by
    funext i
    simp [rowAt, leg, hside]
  unfold neutralRows
  rw [hlong, hshort]
  simp only [cellsOf_gridPoints hmode hcells, List.map_reverse, List.map_map]
  rfl

theorem mem_neutralRows (hg : g.Valid) (hmode : g.mode ≠ "geometric") (hside : g.side = .neutral)
    {row : Side × ℚ × ℚ} :
    row ∈ g.neutralRows geospace ↔ ∃ side i, g.Shows side i ∧ row = g.rowAt side i := by
  rw [neutralRows_eq hg hmode hside]
  simp only [List.mem_append, List.mem_reverse, List.mem_map, List.mem_range]
  have hcells : ∀ side, (g.leg side).cells = g.count / 2 := fun side => by
    unfold leg
    rw [if_pos hside]
    split <;> rfl
  have hshows : ∀ side i, g.Shows side i ↔ i < g.count / 2 ∧ side ≠ .neutral := fun side i => by
    unfold Shows
    rw [if_pos hside, hcells]
  constructor
  · rintro (⟨i, hi, rfl⟩ | ⟨i, hi, rfl⟩)
    · exact ⟨.long, i, (hshows _ _).mpr ⟨hi, by decide⟩, rfl⟩
    · exact ⟨.short, i, (hshows _ _).mpr ⟨hi, by decide⟩, rfl⟩
  · rintro ⟨side, i, hshown, rfl⟩
    obtain ⟨hi, hne⟩ := (hshows _ _).mp hshown
    cases side with
    | long => exact .inl ⟨i, hi, rfl⟩
    | short => exact .inr ⟨i, hi, rfl⟩
    | neutral => exact absurd rfl hne

theorem mem_oneLegRows (hg : g.Valid) (hmode : g.mode ≠ "geometric") (hside : g.side ≠ .neutral)
    {row : Side × ℚ × ℚ} :
    row ∈ g.oneLegRows geospace ↔ ∃ side i, g.Shows side i ∧ row = g.rowAt side i := by
  have hcells : 1 ≤ g.count := by have := hg.count; omega
  have hleg : g.leg g.side = ⟨g.low, g.high, g.count⟩ := if_neg hside
  have hshows : ∀ side i, g.Shows side i ↔ side = g.side ∧ i < g.count ∧
      (g.dynamicAnchor = true → if g.side = .long then (g.leg g.side).line i < g.reference
        else g.reference < (g.leg g.side).line (i + 1)) := fun side i => by
    unfold Shows
    rw [if_neg hside]
    constructor
    · rintro ⟨hi, rfl, hanchor⟩
      rw [hleg] at hi
      exact ⟨rfl, hi, hanchor⟩
    · rintro ⟨rfl, hi, hanchor⟩
      refine ⟨?_, rfl, hanchor⟩
      rwa [hleg]
  have hrow : (∃ side i, g.Shows side i ∧ row = g.rowAt side i) ↔
      ∃ i, g.Shows g.side i ∧ row = g.rowAt g.side i := by
    constructor
    · rintro ⟨side, i, hshown, rfl⟩
      obtain rfl := ((hshows _ _).mp hshown).1
      exact ⟨i, hshown, rfl⟩
    · rintro ⟨i, h⟩
      exact ⟨g.side, i, h⟩
  rw [hrow]
  unfold oneLegRows
  simp only [cellsOf_gridPoints hmode hcells]
  split
  next hlong =>
    simp only [List.mem_reverse, List.mem_map, List.mem_filter, List.mem_range, hshows, hleg,
      if_pos hlong, rowAt, true_and, decide_eq_true_eq, imp_iff_not_or]
    constructor
    · rintro ⟨_, ⟨⟨i, hi, rfl⟩, hanchor⟩, rfl⟩
      exact ⟨i, ⟨hi, hanchor⟩, rfl⟩
    · rintro ⟨i, ⟨hi, hanchor⟩, rfl⟩
      exact ⟨_, ⟨⟨i, hi, rfl⟩, hanchor⟩, rfl⟩
  next hshort =>
    simp only [List.mem_map, List.mem_filter, List.mem_range, hshows, hleg,
      if_neg hshort, rowAt, true_and, decide_eq_true_eq, imp_iff_not_or]
    constructor
    · rintro ⟨_, ⟨⟨i, hi, rfl⟩, hanchor⟩, rfl⟩
      exact ⟨i, ⟨hi, hanchor⟩, rfl⟩
    · rintro ⟨i, ⟨hi, hanchor⟩, rfl⟩
      exact ⟨_, ⟨⟨i, hi, rfl⟩, hanchor⟩, rfl⟩

/-- The rows of a preview are the cells it shows. -/
theorem mem_rows (hg : g.Valid) (hmode : g.mode ≠ "geometric") {row : Side × ℚ × ℚ} :
    row ∈ g.rows geospace ↔ ∃ side i, g.Shows side i ∧ row = g.rowAt side i := by
  unfold rows
  split
  next hside => exact mem_neutralRows hg hmode hside
  next hside => exact mem_oneLegRows hg hmode hside

/-- Each level is a row, at the amount of a row. -/
theorem mem_levels {l : ExecutorLevel} (hl : l ∈ g.levels geospace) :
    (l.side, l.price, l.takeProfitPrice) ∈ g.rows geospace ∧ l.amountQuote = g.amount geospace := by
  obtain ⟨i, hi, rfl⟩ := List.mem_mapIdx.mp hl
  exact ⟨List.getElem_mem hi, rfl⟩

variable (geospace) in
theorem exists_level {row : Side × ℚ × ℚ} (hrow : row ∈ g.rows geospace) :
    ∃ l ∈ g.levels geospace, (l.side, l.price, l.takeProfitPrice) = row := by
  obtain ⟨i, hi, rfl⟩ := List.mem_iff_getElem.mp hrow
  exact ⟨_, List.mem_mapIdx.mpr ⟨i, hi, rfl⟩, rfl⟩

theorem sum_amounts : ((g.levels geospace).map ExecutorLevel.amountQuote).sum =
    (g.rows geospace).length * g.amount geospace := by
  have hconst : (g.levels geospace).map ExecutorLevel.amountQuote =
      List.replicate (g.rows geospace).length (g.amount geospace) := by
    refine List.eq_replicate_iff.mpr ⟨by simp [levels], fun a ha => ?_⟩
    obtain ⟨l, hl, rfl⟩ := List.mem_map.mp ha
    exact (mem_levels hl).2
  rw [hconst, List.sum_replicate, nsmul_eq_mul]

/-- The shares of the rows make up the investment. -/
theorem sum_amounts_eq_total (hg : g.Valid) (hmode : g.mode ≠ "geometric")
    (hne : g.rows geospace ≠ []) :
    ((g.levels geospace).map ExecutorLevel.amountQuote).sum = g.total := by
  rw [sum_amounts]
  unfold amount
  split
  next hside =>
    have hcount := hg.count
    have hlen : (g.rows geospace).length = 2 * (g.count / 2) := by
      unfold rows
      rw [if_pos hside, neutralRows_eq hg hmode hside]
      simp only [List.length_append, List.length_reverse, List.length_map, List.length_range]
      omega
    have hhalf : ((g.count / 2 : ℕ) : ℚ) ≠ 0 := by
      have : g.count / 2 ≠ 0 := by omega
      exact_mod_cast this
    rw [hlen, Nat.max_eq_right (by omega)]
    push_cast
    field_simp
  next hside =>
    have hlen : 1 ≤ (g.rows geospace).length := List.length_pos_of_ne_nil hne
    have hpos : ((g.rows geospace).length : ℚ) ≠ 0 := by
      have : (g.rows geospace).length ≠ 0 := by omega
      exact_mod_cast this
    rw [Nat.max_eq_right hlen]
    field_simp

end

end GridPlan

/-! ## Main result -/

/-- **Grid previews.**  The investment is shared out and each row goes out at the next
line, strictly on its profitable side exactly when no shown cell has its two lines
rounded to one price. -/
theorem wellPaired_iff {py : Numerals} {geospace : ℚ → ℚ → ℕ → List ℚ} {cfg : Payload}
    {g : GridPlan} {preview : ExecutorPreview} (hplan : gridPlan py cfg = .ok g)
    (hpreview : previewGrid py geospace cfg = .ok preview) (hmode : g.mode ≠ "geometric") :
    WellPaired g preview.levels ↔ g.Distinct := by
  have hg := gridPlan_valid hplan
  obtain rfl : { levels := g.levels geospace
                 warnings := g.warnings ++ workloadWarnings py cfg g.count } = preview := by
    unfold previewGrid at hpreview
    rw [hplan] at hpreview
    exact Except.ok.inj hpreview
  change WellPaired g (g.levels geospace) ↔ g.Distinct
  have hordered : ∀ side, (g.leg side).start ≤ (g.leg side).stop := fun side => by
    unfold GridPlan.leg
    split
    next hside =>
      have hreference := hg.reference hside
      split
      · exact hreference.1
      · exact hreference.2
    next => exact hg.range
  have hloses : ∀ side i, Loses side (g.rowAt side i).2.2 (g.rowAt side i).2.1 ↔
      (g.leg side).line i ≠ (g.leg side).line (i + 1) := fun side i => by
    have hle := Leg.line_mono (hordered side) (Nat.le_succ i)
    unfold GridPlan.rowAt Loses
    split <;> exact ⟨fun h => h.ne, fun h => lt_of_le_of_ne hle h⟩
  constructor
  · intro hpaired side i hshown
    obtain ⟨l, hl, hrow⟩ := GridPlan.exists_level geospace
      ((GridPlan.mem_rows hg hmode).mpr ⟨side, i, hshown, rfl⟩)
    have hside : l.side = side := (congrArg Prod.fst hrow).trans (GridPlan.rowAt_side side i)
    have hprofit := hpaired.profitable l hl
    rw [show l.takeProfitPrice = (g.rowAt side i).2.2 from congrArg (·.2.2) hrow,
      show l.price = (g.rowAt side i).2.1 from congrArg (·.2.1) hrow, hside] at hprofit
    exact (hloses side i).mp hprofit
  · intro hdistinct
    have hrows : ∀ l ∈ g.levels geospace, ∃ i, g.Shows l.side i ∧
        (l.side, l.price, l.takeProfitPrice) = g.rowAt l.side i := fun l hl => by
      obtain ⟨side, i, hshown, hrow⟩ := (GridPlan.mem_rows hg hmode).mp (GridPlan.mem_levels hl).1
      obtain rfl : l.side = side :=
        (congrArg Prod.fst hrow).trans (GridPlan.rowAt_side side i)
      exact ⟨i, hshown, hrow⟩
    refine ⟨fun hne => ?_, fun _ l hl l' hl' _ => ?_, fun l hl => ?_, fun l hl => ?_⟩
    · refine GridPlan.sum_amounts_eq_total hg hmode fun hnil => hne ?_
      simp [GridPlan.levels, hnil]
    · rw [(GridPlan.mem_levels hl).2, (GridPlan.mem_levels hl').2]
    · obtain ⟨i, hshown, hrow⟩ := hrows l hl
      exact ⟨i, hshown.1, hrow⟩
    · obtain ⟨i, hshown, hrow⟩ := hrows l hl
      have hprofit := (hloses l.side i).mpr (hdistinct _ i hshown)
      rwa [← show l.takeProfitPrice = (g.rowAt l.side i).2.2 from congrArg (·.2.2) hrow,
        ← show l.price = (g.rowAt l.side i).2.1 from congrArg (·.2.1) hrow] at hprofit

/-- A neutral grid of seven cells, made eight, between 90 and 110. -/
def neutralGrid : Payload :=
  .of [("side", .text "neutral"), ("start_price", .number 90), ("end_price", .number 110),
    ("grid_count", .number 7), ("total_amount_quote", .number 400)]

/-- The plan of `neutralGrid`. -/
def neutralPlan : GridPlan :=
  { side := .neutral, low := 90, high := 110, count := 8, total := 400, mode := "arithmetic"
    dynamicAnchor := false, reference := 100, warnings := ["neutral_grid_count_adjusted_even"] }

theorem wellPaired_neutralGrid :
    ∃ preview, previewGrid .none (fun _ _ _ => []) neutralGrid = .ok preview ∧
      WellPaired neutralPlan preview.levels := by
  have hplan : gridPlan .none neutralGrid = .ok neutralPlan := by decide +kernel
  have hpreview : previewGrid .none (fun _ _ _ => []) neutralGrid =
      .ok { levels := neutralPlan.levels fun _ _ _ => []
            warnings := neutralPlan.warnings ++ workloadWarnings .none neutralGrid 8 } := by
    unfold previewGrid
    rw [hplan]
    rfl
  refine ⟨_, hpreview, (wellPaired_iff hplan hpreview (by decide)).mpr fun side i _ => ?_⟩
  refine Leg.line_ne ?_ i
  cases side <;> decide +kernel

/-- Twenty cells between 0.0000012 and 0.0000013. -/
def fineGrid : Payload :=
  .of [("side", .text "long"), ("start_price", .number (12 / 10 ^ 7)),
    ("end_price", .number (13 / 10 ^ 7)), ("grid_count", .number 20),
    ("total_amount_quote", .number 400)]

def finePlan : GridPlan :=
  { side := .long, low := 12 / 10 ^ 7, high := 13 / 10 ^ 7, count := 20, total := 400
    mode := "arithmetic", dynamicAnchor := false, reference := 125 / 10 ^ 8, warnings := [] }

/-- Rows of the grid go out at the price they come in at. -/
theorem samePrice_fineGrid :
    gridPlan .none fineGrid = .ok finePlan ∧
      ∃ preview, previewGrid .none (fun _ _ _ => []) fineGrid = .ok preview ∧ preview.Unblocked ∧
        (∃ l ∈ preview.levels, l.takeProfitPrice = l.price) ∧
        ¬ WellPaired finePlan preview.levels := by
  have hplan : gridPlan .none fineGrid = .ok finePlan := by decide +kernel
  have hpreview : previewGrid .none (fun _ _ _ => []) fineGrid =
      .ok { levels := finePlan.levels fun _ _ _ => []
            warnings := finePlan.warnings ++ workloadWarnings .none fineGrid 20 } := by
    unfold previewGrid
    rw [hplan]
    rfl
  have hsame : ∃ l ∈ finePlan.levels fun _ _ _ => [], l.takeProfitPrice = l.price := by
    decide +kernel
  refine ⟨hplan, _, hpreview, by decide +kernel, hsame, fun h => ?_⟩
  obtain ⟨l, hl, hprice⟩ := hsame
  have hloses := h.profitable l hl
  rw [hprice] at hloses
  unfold Loses at hloses
  split at hloses <;> exact lt_irrefl _ hloses

end AlgoTrade.Executors
