import AlgoTrade.Robot.ExecutorConfig
import Mathlib.Algebra.BigOperators.Ring.Finset
import Mathlib.Algebra.Order.BigOperators.Group.Finset
import Mathlib.Data.List.GetD
import Mathlib.Tactic.Linarith
import Mathlib.Tactic.Positivity

/-! # Ladder previews

The previews of the layered martingale and of the layered DCA: levels ever further
from the entry price, each with the take profit of the basket filled so far.

* `previewLayeredMartingale`, `previewLayeredDca`: the previews.
* `WellFormed`: prices are positive, move away from the entry on the losing side, and
  every take profit lies on the profitable side of the basket's average.
* `wellFormed_iff`: which payloads without a blocking warning have such a preview. -/

namespace AlgoTrade.Executors

/-! ## Levels -/

/-- Quote and quantity of the levels filled so far. -/
structure Basket where
  quote : ℚ := 0
  quantity : ℚ := 0
  deriving DecidableEq, Repr

def Basket.add (basket : Basket) (price amount : ℚ) : Basket :=
  { quote := basket.quote + amount
    quantity := if 0 < price then basket.quantity + amount / price else basket.quantity }

/-- `_basket_take_profit_price`. -/
def basketTakeProfitPrice (basket : Basket) (side : Side) (takeProfit : ℚ) : ℚ :=
  if basket.quote ≤ 0 ∨ basket.quantity ≤ 0 then 0
  else
    let averagePrice := basket.quote / basket.quantity
    if side = .short then averagePrice * (1 - takeProfit) else averagePrice * (1 + takeProfit)

/-- What the loop of a preview works out for a level before its take profit. -/
structure Rung where
  price : ℚ
  amount : ℚ
  trigger : ℚ
  layerIndex : ℕ := 0
  orderIndex : ℕ := 0
  deriving DecidableEq, Repr

/-- The levels of the rungs, numbered from `seq`, over a basket. -/
def fill (side : Side) (exitReference : ℚ) : ℕ → Basket → List Rung → List ExecutorLevel
  | _, _, [] => []
  | seq, basket, rung :: rungs =>
    let basket := basket.add rung.price rung.amount
    { level := seq
      action := if seq = 1 then "open" else "add"
      side
      price := rung.price
      amountQuote := rung.amount
      takeProfitPrice := basketTakeProfitPrice basket side exitReference
      triggerPct := rung.trigger
      layerIndex := rung.layerIndex
      orderIndex := rung.orderIndex } :: fill side exitReference (seq + 1) basket rungs

/-- The price a spacing further on the losing side. -/
def furtherBy (side : Side) (price spacing : ℚ) : ℚ :=
  if side = .long then price * (1 - spacing) else price * (1 + spacing)

/-- Some level of `_martingale_hard_stop_diagnostics` lies beyond the stop of the basket
before it. -/
def hardStopBlocks (side : Side) (stop : ℚ) : Basket → List ExecutorLevel → Bool
  | basket, level :: next :: levels =>
    let basket := basket.add (max 0 level.price) (max 0 level.amountQuote)
    let average := basket.quote / basket.quantity
    let nextPrice := max 0 next.price
    (¬ (basket.quote ≤ 0 ∨ basket.quantity ≤ 0) ∧
        if side = .short then average * (1 + stop) ≤ nextPrice
        else nextPrice ≤ average * (1 - stop)) ||
      hardStopBlocks side stop basket (next :: levels)
  | _, _ => false

def hardStopBlocksLevel (levels : List ExecutorLevel) (hardStop : ℚ) (side : Side) : Bool :=
  0 < hardStop ∧ hardStopBlocks side hardStop {} levels

/-- The warnings that the two previews share. -/
def ladderWarnings (entry base : ℚ) (trailing : TrailingTakeProfit) (equity : EquityRisk)
    (blocked : Bool) : List String :=
  (if entry ≤ 0 then ["missing_entry_price"] else []) ++
    (if base ≤ 0 then ["missing_base_order_size"] else []) ++
    (if trailingInvalid trailing.enabled trailing.activation trailing.callback then
      ["invalid_trailing_take_profit"] else []) ++
    (if trailingInvalid equity.trailingEnabled equity.trailingActivation equity.trailingCallback
      then ["invalid_equity_trailing_take_profit"] else []) ++
    (if blocked then ["hard_stop_blocks_level"] else [])

/-- What the take profit of a level is measured with. -/
def exitReference (trailing : TrailingTakeProfit) (takeProfit : ℚ) : ℚ :=
  if trailing.enabled then trailing.activation else takeProfit

/-! ## Layered martingale -/

structure LayeredMartingale where
  side : Side
  entry : ℚ
  layerCount : ℕ
  ordersPerLayer : ℕ
  base : ℚ
  volumeMult : ℚ
  takeProfit : ℚ
  trailing : TrailingTakeProfit
  equity : EquityRisk
  hardStop : ℚ
  intraSpacings : List ℚ
  interSpacings : List ℚ
  deriving DecidableEq, Repr

section
variable (py : Numerals) (cfg : Payload)

def layeredMartingale : LayeredMartingale :=
  let layerCount := (max 1 (toInt py (cfg.either "layer_count" "layerCount") 5)).toNat
  let ordersPerLayer := (max 1 (toInt py (cfg.either "orders_per_layer" "ordersPerLayer") 3)).toNat
  let takeProfit := max 0 (ratio py (cfg.either "take_profit_pct" "takeProfitPct") (6 / 1000))
  let intraDefaults :=
    [ratio py (cfg.either "intra_spacing_1_pct" "intraSpacing1Pct") (5 / 1000),
      ratio py (cfg.either "intra_spacing_2_pct" "intraSpacing2Pct") (8 / 1000)]
  let interDefaults :=
    [ratio py (cfg.either "inter_spacing_1_pct" "interSpacing1Pct") (12 / 1000),
      ratio py (cfg.either "inter_spacing_2_pct" "interSpacing2Pct") (15 / 1000),
      ratio py (cfg.either "inter_spacing_3_pct" "interSpacing3Pct") (18 / 1000),
      ratio py (cfg.either "inter_spacing_4_pct" "interSpacing4Pct") (22 / 1000)]
  { side := side (cfg.get "side")
    entry := toFloat py (cfg.either "entry_price" "entryPrice") 0
    layerCount
    ordersPerLayer
    base := max 0 (toFloat py (cfg.either "base_order_size" "baseOrderSize") 0)
    volumeMult := max 1 (toFloat py (cfg.either "volume_multiplier" "volumeMultiplier") (18 / 10))
    takeProfit
    trailing := trailingTakeProfit py cfg takeProfit
    equity := equityRisk py cfg
    hardStop := max 0 (ratio py (cfg.either "hard_stop_pct" "hardStopPct") 0)
    intraSpacings :=
      ratioList py (cfg.either "intra_spacings" "intraSpacings") intraDefaults (ordersPerLayer - 1)
    interSpacings :=
      ratioList py (cfg.either "inter_spacings" "interSpacings") interDefaults (layerCount - 1) }

end

namespace LayeredMartingale

variable (c : LayeredMartingale)

/-- Layer and order of each turn of the two loops. -/
def slots : List (ℕ × ℕ) :=
  (List.range' 1 c.layerCount).flatMap fun layer =>
    (List.range' 1 c.ordersPerLayer).map fun order => (layer, order)

/-- The `spacing` of a turn after the first. -/
def spacing : ℕ × ℕ → ℚ
  | (layer, order) =>
    if order = 1 then
      if 2 ≤ layer ∧ c.interSpacings ≠ [] then c.interSpacings.getD (layer - 2) 0 else 0
    else if c.intraSpacings ≠ [] then c.intraSpacings.getD (order - 2) 0
    else 0

def rungs : ℕ → ℚ → List (ℕ × ℕ) → List Rung
  | _, _, [] => []
  | seq, price, slot :: slots =>
    let trigger := if seq = 1 then 0 else c.spacing slot
    let price := if seq = 1 then c.entry else furtherBy c.side price (c.spacing slot)
    { price
      amount := c.base * c.volumeMult ^ (slot.2 - 1)
      trigger
      layerIndex := slot.1
      orderIndex := slot.2 } :: rungs (seq + 1) price slots

def levels : List ExecutorLevel :=
  fill c.side (exitReference c.trailing c.takeProfit) 1 {} (c.rungs 1 c.entry c.slots)

end LayeredMartingale

/-- `_preview_layered_martingale`. -/
def previewLayeredMartingale (py : Numerals) (cfg : Payload) : ExecutorPreview :=
  let c := layeredMartingale py cfg
  { levels := c.levels
    warnings :=
      ladderWarnings c.entry c.base c.trailing c.equity
        (hardStopBlocksLevel c.levels c.hardStop c.side) }

/-! ## Layered DCA -/

structure LayeredDca where
  side : Side
  entry : ℚ
  base : ℚ
  safety : ℚ
  maxLayers : ℕ
  deviation : ℚ
  stepMult : ℚ
  volumeMult : ℚ
  takeProfit : ℚ
  trailing : TrailingTakeProfit
  equity : EquityRisk
  hardStop : ℚ
  deriving DecidableEq, Repr

section
variable (py : Numerals) (cfg : Payload)

def layeredDca : LayeredDca :=
  let base := max 0 (toFloat py (cfg.either "base_order_size" "baseOrderSize") 0)
  let takeProfit := max 0 (ratio py (cfg.either "take_profit_pct" "takeProfitPct") (5 / 1000))
  { side := side (cfg.get "side")
    entry := toFloat py (cfg.either "entry_price" "entryPrice") 0
    base
    safety := max 0 (toFloat py (cfg.either "safety_order_size" "safetyOrderSize") base)
    maxLayers := (max 1 (toInt py (cfg.either "max_layers" "maxLayers") 1)).toNat
    deviation := max 0 (ratio py (cfg.either "price_deviation_pct" "priceDeviationPct") (1 / 100))
    stepMult := max 1 (toFloat py (cfg.either "step_multiplier" "stepMultiplier") 1)
    volumeMult := max 1 (toFloat py (cfg.either "volume_multiplier" "volumeMultiplier") 1)
    takeProfit
    trailing := trailingTakeProfit py cfg takeProfit
    equity := equityRisk py cfg
    hardStop := max 0 (ratio py (cfg.either "hard_stop_pct" "hardStopPct") 0) }

end

namespace LayeredDca

variable (c : LayeredDca)

/-- The turns of the loop from `layer` on, after the first. -/
def safetyRungs : ℕ → ℕ → ℚ → List Rung
  | 0, _, _ => []
  | n + 1, layer, cumulativeDeviation =>
    let trigger := c.deviation * c.stepMult ^ (layer - 2)
    let cumulativeDeviation := cumulativeDeviation + trigger
    { price := furtherBy c.side c.entry cumulativeDeviation
      amount := c.safety * c.volumeMult ^ (layer - 2)
      trigger } :: safetyRungs n (layer + 1) cumulativeDeviation

def rungs : List Rung :=
  { price := c.entry, amount := c.base, trigger := 0 } :: c.safetyRungs (c.maxLayers - 1) 2 0

def levels : List ExecutorLevel :=
  fill c.side (exitReference c.trailing c.takeProfit) 1 {} c.rungs

end LayeredDca

/-- `_preview_layered_dca`. -/
def previewLayeredDca (py : Numerals) (cfg : Payload) : ExecutorPreview :=
  let c := layeredDca py cfg
  { levels := c.levels
    warnings :=
      ladderWarnings c.entry c.base c.trailing c.equity
        (hardStopBlocksLevel c.levels c.hardStop c.side) }

/-! ## Statement -/

def ExecutorLevel.quantity (l : ExecutorLevel) : ℚ := l.amountQuote / l.price

/-- The average price of the levels, weighted with their quantities. -/
def averagePrice (filled : List ExecutorLevel) : ℚ :=
  (filled.map fun l => l.quantity * l.price).sum / (filled.map ExecutorLevel.quantity).sum

structure WellFormed (side : Side) (levels : List ExecutorLevel) : Prop where
  positive : ∀ l ∈ levels, 0 < l.price ∧ 0 < l.takeProfitPrice
  away : levels.IsChain fun l next => Loses side l.price next.price
  profitable : ∀ k l, levels[k]? = some l →
    Loses side l.takeProfitPrice (averagePrice (levels.take (k + 1)))

/-- A take profit that lies above the average of a long basket, and between zero and
the average of a short one. -/
def ExitOk (side : Side) (x : ℚ) : Prop := 0 < x ∧ (side = .short → x < 1)

/-- A spacing that moves the price, and leaves some of a long ladder's. -/
def SpacingOk (side : Side) (spacing : ℚ) : Prop := 0 < spacing ∧ (side = .long → spacing < 1)

instance (side : Side) (x : ℚ) : Decidable (ExitOk side x) :=
  inferInstanceAs (Decidable (_ ∧ (_ → _)))

instance (side : Side) (spacing : ℚ) : Decidable (SpacingOk side spacing) :=
  inferInstanceAs (Decidable (_ ∧ (_ → _)))

/-- Every spacing that the loops read is one to step by. -/
structure LayeredMartingale.Ok (c : LayeredMartingale) : Prop where
  inter : 2 ≤ c.layerCount → ∀ spacing ∈ c.interSpacings, SpacingOk c.side spacing
  intra : 2 ≤ c.ordersPerLayer → ∀ spacing ∈ c.intraSpacings, SpacingOk c.side spacing
  exit : ExitOk c.side (exitReference c.trailing c.takeProfit)

/-- The deviations of all layers are positive, and come to less than one for a long. -/
structure LayeredDca.Ok (c : LayeredDca) : Prop where
  deviation : 2 ≤ c.maxLayers → 0 < c.deviation
  total : c.side = .long →
    c.deviation * ∑ i ∈ Finset.range (c.maxLayers - 1), c.stepMult ^ i < 1
  exit : ExitOk c.side (exitReference c.trailing c.takeProfit)

/-! ## The basket and its take profit -/

section
variable {side : Side} {x : ℚ}

theorem side_ne_neutral (value : Raw) : Executors.side value ≠ .neutral := by
  cases value with
  | text s => by_cases h : lowered s = "short" <;> simp [Executors.side, h]
  | _ => simp [Executors.side]

variable (side x) in
theorem fill_map_price (seq : ℕ) (basket : Basket) (rungs : List Rung) :
    (fill side x seq basket rungs).map ExecutorLevel.price = rungs.map Rung.price := by
  induction rungs generalizing seq basket with
  | nil => rfl
  | cons rung rungs ih => simp only [fill, List.map_cons, ih]

variable (side x) in
theorem fill_map_amount (seq : ℕ) (basket : Basket) (rungs : List Rung) :
    (fill side x seq basket rungs).map ExecutorLevel.amountQuote = rungs.map Rung.amount := by
  induction rungs generalizing seq basket with
  | nil => rfl
  | cons rung rungs ih => simp only [fill, List.map_cons, ih]

/-- The basket of the levels filled. -/
def basketOf (filled : List ExecutorLevel) : Basket :=
  ⟨(filled.map ExecutorLevel.amountQuote).sum, (filled.map ExecutorLevel.quantity).sum⟩

/-- At positive prices, each take profit is the one of the levels up to its own. -/
theorem fill_takeProfit {rungs : List Rung} (hpos : ∀ rung ∈ rungs, 0 < rung.price) {seq : ℕ}
    (before : List ExecutorLevel) {k : ℕ} {l : ExecutorLevel}
    (hl : (fill side x seq (basketOf before) rungs)[k]? = some l) :
    l.takeProfitPrice = basketTakeProfitPrice
      (basketOf (before ++ (fill side x seq (basketOf before) rungs).take (k + 1))) side x := by
  induction rungs generalizing seq before k with
  | nil => cases hl
  | cons rung rungs ih =>
    have hprice : 0 < rung.price := hpos rung List.mem_cons_self
    simp only [fill] at hl ⊢
    generalize hfirst : (ExecutorLevel.mk seq _ side rung.price rung.amount _ rung.trigger
      rung.layerIndex rung.orderIndex) = first at hl ⊢
    have hadd : (basketOf before).add rung.price rung.amount = basketOf (before ++ [first]) := by
      subst hfirst
      simp [basketOf, Basket.add, hprice, ExecutorLevel.quantity]
    cases k with
    | zero =>
      obtain rfl := Option.some.inj hl
      rw [List.take_succ_cons, List.take_zero, ← hadd, ← hfirst]
    | succ k =>
      rw [hadd] at hl ⊢
      rw [ih (fun r hr => hpos r (List.mem_cons_of_mem _ hr)) _ hl, List.take_succ_cons,
        List.append_assoc, List.singleton_append]

/-- The exit of a basket that is held, against its average price. -/
theorem takeProfit_iff {basket : Basket} (hside : side ≠ .neutral) (hquote : 0 < basket.quote)
    (hquantity : 0 < basket.quantity) :
    0 < basketTakeProfitPrice basket side x ∧
        Loses side (basketTakeProfitPrice basket side x) (basket.quote / basket.quantity) ↔
      ExitOk side x := by
  have haverage : 0 < basket.quote / basket.quantity := div_pos hquote hquantity
  have hheld : ¬ (basket.quote ≤ 0 ∨ basket.quantity ≤ 0) := by
    rintro (h | h)
    · exact h.not_gt hquote
    · exact h.not_gt hquantity
  unfold basketTakeProfitPrice Loses ExitOk
  rw [if_neg hheld]
  cases side with
  | long =>
    simp only [reduceCtorEq, if_false, if_true, false_implies, and_true]
    constructor
    · rintro ⟨-, h⟩
      nlinarith
    · intro h
      constructor <;> nlinarith
  | short =>
    simp only [reduceCtorEq, if_false, if_true, forall_const]
    constructor
    · rintro ⟨hpos, hlt⟩
      constructor <;> nlinarith
    · rintro ⟨hpos, hlt⟩
      constructor <;> nlinarith
  | neutral => exact absurd rfl hside

theorem averagePrice_eq {filled : List ExecutorLevel} (hpos : ∀ l ∈ filled, 0 < l.price) :
    averagePrice filled = (basketOf filled).quote / (basketOf filled).quantity := by
  have hquote : ∀ l ∈ filled, l.quantity * l.price = l.amountQuote := fun l hl =>
    div_mul_cancel₀ l.amountQuote (hpos l hl).ne'
  unfold averagePrice basketOf
  rw [List.map_congr_left hquote]

/-- A basket that begins with a real order is held. -/
theorem basketOf_pos {first : ExecutorLevel} {rest : List ExecutorLevel}
    (hfirst : 0 < first.amountQuote) (hpos : ∀ l ∈ first :: rest, 0 < l.price)
    (hamount : ∀ l ∈ rest, 0 ≤ l.amountQuote) :
    0 < (basketOf (first :: rest)).quote ∧ 0 < (basketOf (first :: rest)).quantity := by
  have hquote : 0 ≤ (rest.map ExecutorLevel.amountQuote).sum :=
    List.sum_nonneg fun a ha => by
      obtain ⟨l, hl, rfl⟩ := List.mem_map.mp ha
      exact hamount l hl
  have hquantity : 0 ≤ (rest.map ExecutorLevel.quantity).sum :=
    List.sum_nonneg fun a ha => by
      obtain ⟨l, hl, rfl⟩ := List.mem_map.mp ha
      exact div_nonneg (hamount l hl) (hpos l (List.mem_cons_of_mem _ hl)).le
  have hbought : 0 < first.quantity := div_pos hfirst (hpos first List.mem_cons_self)
  simp only [basketOf, List.map_cons, List.sum_cons]
  exact ⟨add_pos_of_pos_of_nonneg hfirst hquote, add_pos_of_pos_of_nonneg hbought hquantity⟩

/-- At positive prices the exit of every level stands or falls with the reference. -/
theorem exit_iff {rung : Rung} {rungs : List Rung} (hside : side ≠ .neutral)
    (hfirst : 0 < rung.amount) (hamount : ∀ r ∈ rungs, 0 ≤ r.amount)
    (hpos : ∀ r ∈ rung :: rungs, 0 < r.price) {k : ℕ} {l : ExecutorLevel}
    (hl : (fill side x 1 {} (rung :: rungs))[k]? = some l) :
    0 < l.takeProfitPrice ∧ Loses side l.takeProfitPrice
        (averagePrice ((fill side x 1 {} (rung :: rungs)).take (k + 1))) ↔ ExitOk side x := by
  obtain ⟨first, rest, hlevels⟩ :
      ∃ first rest, fill side x 1 {} (rung :: rungs) = first :: rest := ⟨_, _, rfl⟩
  have hprices := fill_map_price side x 1 {} (rung :: rungs)
  have hamounts := fill_map_amount side x 1 {} (rung :: rungs)
  have htake := fill_takeProfit hpos [] hl
  rw [List.nil_append, show fill side x 1 (basketOf []) (rung :: rungs) = first :: rest from hlevels,
    List.take_succ_cons] at htake
  rw [hlevels] at hprices hamounts
  rw [List.map_cons, List.map_cons] at hamounts
  have hlevelPos : ∀ l ∈ first :: rest, 0 < l.price := fun l hl => by
    obtain ⟨r, hr, hprice⟩ := List.mem_map.mp
      (hprices ▸ List.mem_map_of_mem hl : l.price ∈ (rung :: rungs).map Rung.price)
    exact hprice ▸ hpos r hr
  have hlevelAmount : ∀ l ∈ rest, 0 ≤ l.amountQuote := fun l hl => by
    obtain ⟨r, hr, hprice⟩ := List.mem_map.mp
      ((List.cons.inj hamounts).2 ▸ List.mem_map_of_mem hl : l.amountQuote ∈ rungs.map Rung.amount)
    exact hprice ▸ hamount r hr
  have hsub : first :: rest.take k ⊆ first :: rest :=
    List.cons_subset_cons _ (List.take_subset k rest)
  have hbasket : 0 < (basketOf (first :: rest.take k)).quote ∧
      0 < (basketOf (first :: rest.take k)).quantity :=
    basketOf_pos ((List.cons.inj hamounts).1 ▸ hfirst : 0 < first.amountQuote)
      (fun l hl => hlevelPos l (hsub hl)) (fun l hl => hlevelAmount l (List.take_subset k rest hl))
  obtain ⟨hquote, hquantity⟩ := hbasket
  rw [hlevels, List.take_succ_cons, averagePrice_eq fun l hl => hlevelPos l (hsub hl), htake]
  exact takeProfit_iff hside hquote hquantity

/-- A ladder is well formed when its prices are, and its exit. -/
theorem wellFormed_fill_iff {rung : Rung} {rungs : List Rung} (hside : side ≠ .neutral)
    (hfirst : 0 < rung.amount) (hamount : ∀ r ∈ rungs, 0 ≤ r.amount) :
    WellFormed side (fill side x 1 {} (rung :: rungs)) ↔
      ((∀ r ∈ rung :: rungs, 0 < r.price) ∧
        ((rung :: rungs).map Rung.price).IsChain (Loses side)) ∧ ExitOk side x := by
  have hprices := fill_map_price side x 1 {} (rung :: rungs)
  have hchain : (fill side x 1 {} (rung :: rungs)).IsChain
      (fun l next => Loses side l.price next.price) ↔
        ((rung :: rungs).map Rung.price).IsChain (Loses side) := by
    rw [← hprices, List.isChain_map]
  have hlevelPos : (∀ l ∈ fill side x 1 {} (rung :: rungs), 0 < l.price) ↔
      ∀ r ∈ rung :: rungs, 0 < r.price := by
    rw [← List.forall_mem_map (f := ExecutorLevel.price) (P := fun p => 0 < p), hprices,
      List.forall_mem_map]
  constructor
  · rintro ⟨hpositive, haway, hprofitable⟩
    have hpos := hlevelPos.mp fun l hl => (hpositive l hl).1
    refine ⟨⟨hpos, hchain.mp haway⟩, (exit_iff hside hfirst hamount hpos (k := 0) rfl).mp ?_⟩
    exact ⟨(hpositive _ List.mem_cons_self).2, hprofitable 0 _ rfl⟩
  · rintro ⟨⟨hpos, haway⟩, hexit⟩
    have hall : ∀ k l, (fill side x 1 {} (rung :: rungs))[k]? = some l → 0 < l.takeProfitPrice ∧
        Loses side l.takeProfitPrice
          (averagePrice ((fill side x 1 {} (rung :: rungs)).take (k + 1))) :=
      fun k l hl => (exit_iff hside hfirst hamount hpos hl).mpr hexit
    refine ⟨fun l hl => ⟨hlevelPos.mpr hpos l hl, ?_⟩, hchain.mpr haway, fun k l hl => (hall k l hl).2⟩
    obtain ⟨k, hk⟩ := List.mem_iff_getElem?.mp hl
    exact (hall k l hk).1

end

/-! ## Prices -/

section
variable {side : Side} {entry price spacing d τ : ℚ}

/-- A spacing is one to step by when its step leaves a positive price further out. -/
theorem furtherBy_iff (hside : side ≠ .neutral) (hprice : 0 < price) :
    0 < furtherBy side price spacing ∧ Loses side price (furtherBy side price spacing) ↔
      SpacingOk side spacing := by
  unfold furtherBy Loses SpacingOk
  cases side with
  | long =>
    simp only [if_true, forall_const]
    constructor
    · rintro ⟨hpos, hlt⟩
      constructor <;> nlinarith
    · rintro ⟨hpos, hlt⟩
      constructor <;> nlinarith
  | short =>
    simp only [reduceCtorEq, if_false, false_implies, and_true]
    constructor
    · rintro ⟨-, hlt⟩
      nlinarith
    · intro h
      constructor <;> nlinarith
  | neutral => exact absurd rfl hside

/-- The same for deviations from one entry price that add up. -/
theorem furtherBy_add_iff (hside : side ≠ .neutral) (hentry : 0 < entry) (hd : 0 ≤ d) (hτ : 0 ≤ τ) :
    0 < furtherBy side entry (d + τ) ∧
        Loses side (furtherBy side entry d) (furtherBy side entry (d + τ)) ↔
      0 < τ ∧ (side = .long → d + τ < 1) := by
  unfold furtherBy Loses
  cases side with
  | long =>
    simp only [if_true, forall_const]
    constructor
    · rintro ⟨hpos, hlt⟩
      constructor <;> nlinarith
    · rintro ⟨hpos, hlt⟩
      constructor <;> nlinarith
  | short =>
    simp only [reduceCtorEq, if_false, false_implies, and_true]
    constructor
    · rintro ⟨-, hlt⟩
      nlinarith
    · intro h
      constructor <;> nlinarith
  | neutral => exact absurd rfl hside

end

/-- Positive prices that move on along the losing side, from `price` on. -/
def Descends (side : Side) (price : ℚ) (rungs : List Rung) : Prop :=
  (∀ r ∈ rungs, 0 < r.price) ∧ (price :: rungs.map Rung.price).IsChain (Loses side)

theorem descends_nil (side : Side) (price : ℚ) : Descends side price [] :=
  ⟨List.forall_mem_nil _, List.isChain_singleton _⟩

theorem descends_cons {side : Side} {price : ℚ} {rung : Rung} {rungs : List Rung} :
    Descends side price (rung :: rungs) ↔
      (0 < rung.price ∧ Loses side price rung.price) ∧ Descends side rung.price rungs := by
  unfold Descends
  rw [List.forall_mem_cons, List.map_cons, List.isChain_cons_cons]
  constructor
  · rintro ⟨⟨hpos, hall⟩, hloses, hchain⟩
    exact ⟨⟨hpos, hloses⟩, hall, hchain⟩
  · rintro ⟨⟨hpos, hloses⟩, hall, hchain⟩
    exact ⟨⟨hpos, hall⟩, hloses, hchain⟩

/-! ## Readers -/

section
variable {py : Numerals} {cfg : Payload}

theorem ratioList_length (value : Raw) (defaults : List ℚ) {expected : ℕ} (h : 0 < expected) :
    (ratioList py value defaults expected).length = expected := by
  unfold ratioList
  simp only [List.length_map, if_pos h, List.length_take, List.length_append,
    List.length_replicate]
  omega

/-- A preview that is not blocked has an entry price and a first order. -/
theorem pos_of_unblocked {levels : List ExecutorLevel} {entry base : ℚ}
    {trailing : TrailingTakeProfit} {equity : EquityRisk} {blocked : Bool}
    (h : ExecutorPreview.Unblocked ⟨levels, ladderWarnings entry base trailing equity blocked⟩) :
    0 < entry ∧ 0 < base := by
  constructor
  · by_contra hle
    exact h "missing_entry_price" (by simp [ladderWarnings, not_lt.mp hle])
      (by simp [blockingPreviewWarnings])
  · by_contra hle
    exact h "missing_base_order_size" (by simp [ladderWarnings, not_lt.mp hle])
      (by simp [blockingPreviewWarnings])

end

/-! ## Layered martingale -/

namespace LayeredMartingale

variable {c : LayeredMartingale}

theorem descends_rungs (hside : c.side ≠ .neutral) {seq : ℕ} (hseq : seq ≠ 1) {price : ℚ}
    (hprice : 0 < price) (hgt : 0 < seq) (slots : List (ℕ × ℕ)) :
    Descends c.side price (c.rungs seq price slots) ↔
      ∀ slot ∈ slots, SpacingOk c.side (c.spacing slot) := by
  induction slots generalizing seq price with
  | nil => simp [rungs, descends_nil]
  | cons slot slots ih =>
    simp only [rungs, if_neg hseq]
    rw [descends_cons, furtherBy_iff hside hprice, List.forall_mem_cons]
    refine and_congr_right fun hok => ?_
    have hnext := ((furtherBy_iff hside hprice).mpr hok).1
    exact ih (by omega) hnext (by omega)

/-- The turns after the first. -/
theorem slots_eq (hlayers : 1 ≤ c.layerCount) (horders : 1 ≤ c.ordersPerLayer) :
    c.slots = (1, 1) ::
      ((List.range' 2 (c.ordersPerLayer - 1)).map (fun order => (1, order)) ++
        (List.range' 2 (c.layerCount - 1)).flatMap fun layer =>
          (List.range' 1 c.ordersPerLayer).map fun order => (layer, order)) := by
  obtain ⟨l, hl⟩ := Nat.exists_eq_add_of_le' hlayers
  obtain ⟨o, ho⟩ := Nat.exists_eq_add_of_le' horders
  unfold slots
  rw [hl, ho, List.range'_succ, List.range'_succ]
  rfl

/-- The spacings of the turns after the first are the ones that were configured. -/
theorem forall_spacing_iff {P : ℚ → Prop} (hlayers : 1 ≤ c.layerCount)
    (horders : 1 ≤ c.ordersPerLayer)
    (hinter : 2 ≤ c.layerCount → c.interSpacings.length = c.layerCount - 1)
    (hintra : 2 ≤ c.ordersPerLayer → c.intraSpacings.length = c.ordersPerLayer - 1) :
    (∀ slot ∈ c.slots.tail, P (c.spacing slot)) ↔
      (2 ≤ c.layerCount → ∀ s ∈ c.interSpacings, P s) ∧
        (2 ≤ c.ordersPerLayer → ∀ s ∈ c.intraSpacings, P s) := by
  rw [slots_eq hlayers horders, List.tail_cons]
  have hinterAt : ∀ i, i + 2 ≤ c.layerCount →
      c.spacing (i + 2, 1) = c.interSpacings.getD i 0 := fun i hi => by
    have hne : c.interSpacings ≠ [] := fun h => by
      have := hinter (by omega)
      simp only [h, List.length_nil] at this
      omega
    simp [spacing, hne]
  have hintraAt : ∀ i layer, i + 2 ≤ c.ordersPerLayer →
      c.spacing (layer, i + 2) = c.intraSpacings.getD i 0 := fun i layer hi => by
    have hne : c.intraSpacings ≠ [] := fun h => by
      have := hintra (by omega)
      simp only [h, List.length_nil] at this
      omega
    simp [spacing, hne]
  constructor
  · intro h
    refine ⟨fun htwo s hs => ?_, fun htwo s hs => ?_⟩
    · obtain ⟨i, hi, rfl⟩ := List.mem_iff_getElem.mp hs
      have hlt : i + 2 ≤ c.layerCount := by have := hinter htwo; omega
      have hmem : (i + 2, 1) ∈ (List.range' 2 (c.layerCount - 1)).flatMap fun layer =>
          (List.range' 1 c.ordersPerLayer).map fun order => (layer, order) := by
        simp only [List.mem_flatMap, List.mem_map, List.mem_range'_1]
        exact ⟨i + 2, by omega, 1, by omega, rfl⟩
      have hat := h _ (List.mem_append_right _ hmem)
      rwa [hinterAt i hlt, List.getD_eq_getElem _ _ hi] at hat
    · obtain ⟨i, hi, rfl⟩ := List.mem_iff_getElem.mp hs
      have hlt : i + 2 ≤ c.ordersPerLayer := by have := hintra htwo; omega
      have hmem : (1, i + 2) ∈ (List.range' 2 (c.ordersPerLayer - 1)).map
          (fun order => (1, order)) := by
        simp only [List.mem_map, List.mem_range'_1]
        exact ⟨i + 2, by omega, rfl⟩
      have hat := h _ (List.mem_append_left _ hmem)
      rwa [hintraAt i 1 hlt, List.getD_eq_getElem _ _ hi] at hat
  · rintro ⟨hinterP, hintraP⟩ slot hslot
    have hintraCase : ∀ i layer, i + 2 ≤ c.ordersPerLayer → P (c.spacing (layer, i + 2)) := by
      intro i layer hi
      have hlt : i < c.intraSpacings.length := by have := hintra (by omega); omega
      rw [hintraAt i layer hi, List.getD_eq_getElem _ _ hlt]
      exact hintraP (by omega) _ (List.getElem_mem hlt)
    rcases List.mem_append.mp hslot with hslot | hslot
    · simp only [List.mem_map, List.mem_range'_1] at hslot
      obtain ⟨order, horder, rfl⟩ := hslot
      obtain ⟨i, rfl⟩ := Nat.exists_eq_add_of_le' horder.1
      exact hintraCase i 1 (by omega)
    · simp only [List.mem_flatMap, List.mem_map, List.mem_range'_1] at hslot
      obtain ⟨layer, hlayer, order, horder, rfl⟩ := hslot
      obtain ⟨j, rfl⟩ := Nat.exists_eq_add_of_le' hlayer.1
      rcases Nat.lt_or_ge order 2 with hone | htwo
      · obtain rfl : order = 1 := by omega
        have hlt : j < c.interSpacings.length := by have := hinter (by omega); omega
        rw [hinterAt j (by omega), List.getD_eq_getElem _ _ hlt]
        exact hinterP (by omega) _ (List.getElem_mem hlt)
      · obtain ⟨i, rfl⟩ := Nat.exists_eq_add_of_le' htwo
        exact hintraCase i (j + 2) (by omega)

theorem wellFormed_levels (hside : c.side ≠ .neutral) (hentry : 0 < c.entry) (hbase : 0 < c.base)
    (hmult : 1 ≤ c.volumeMult) (hlayers : 1 ≤ c.layerCount) (horders : 1 ≤ c.ordersPerLayer)
    (hinter : 2 ≤ c.layerCount → c.interSpacings.length = c.layerCount - 1)
    (hintra : 2 ≤ c.ordersPerLayer → c.intraSpacings.length = c.ordersPerLayer - 1) :
    WellFormed c.side c.levels ↔ c.Ok := by
  have hmultPos : 0 < c.volumeMult := zero_lt_one.trans_le hmult
  have hamount : ∀ {seq : ℕ} {price : ℚ} {slots : List (ℕ × ℕ)},
      ∀ r ∈ c.rungs seq price slots, 0 ≤ r.amount := by
    intro seq price slots
    induction slots generalizing seq price with
    | nil => exact List.forall_mem_nil _
    | cons slot slots ih =>
      exact List.forall_mem_cons.mpr ⟨(mul_pos hbase (pow_pos hmultPos _)).le, ih⟩
  have hspacings := forall_spacing_iff (P := SpacingOk c.side) hlayers horders hinter hintra
  have hslots := slots_eq hlayers horders
  rw [hslots, List.tail_cons] at hspacings
  unfold levels
  rw [hslots, rungs, wellFormed_fill_iff hside (mul_pos hbase (pow_pos hmultPos _)) hamount]
  simp only [if_true]
  rw [List.forall_mem_cons, List.map_cons, and_assoc (a := 0 < c.entry)]
  change (0 < c.entry ∧ Descends c.side c.entry _) ∧ _ ↔ _
  rw [descends_rungs hside (by omega) hentry (by omega), hspacings]
  exact ⟨fun h => ⟨h.1.2.1, h.1.2.2, h.2⟩, fun h => ⟨⟨hentry, h.inter, h.intra⟩, h.exit⟩⟩

end LayeredMartingale

/-! ## Layered DCA -/

namespace LayeredDca

variable {c : LayeredDca}

/-- The deviations of `n` turns from the one of layer `i + 2` on. -/
def totalDeviation (c : LayeredDca) (i n : ℕ) : ℚ :=
  ∑ k ∈ Finset.range n, c.deviation * c.stepMult ^ (i + k)

theorem totalDeviation_succ (i n : ℕ) :
    c.totalDeviation i (n + 1) = c.deviation * c.stepMult ^ i + c.totalDeviation (i + 1) n := by
  unfold totalDeviation
  rw [Finset.sum_range_succ', add_comm]
  simp only [add_zero, Nat.add_assoc, Nat.add_comm 1]

theorem totalDeviation_nonneg (hdeviation : 0 ≤ c.deviation) (hstep : 0 < c.stepMult) (i n : ℕ) :
    0 ≤ c.totalDeviation i n :=
  Finset.sum_nonneg fun _ _ => mul_nonneg hdeviation (pow_pos hstep _).le

theorem descends_safetyRungs (hside : c.side ≠ .neutral) (hentry : 0 < c.entry)
    (hdeviation : 0 ≤ c.deviation) (hstep : 0 < c.stepMult) (n i : ℕ) {d : ℚ} (hd : 0 ≤ d)
    (hlt : c.side = .long → d < 1) :
    Descends c.side (furtherBy c.side c.entry d) (c.safetyRungs n (i + 2) d) ↔
      (n ≠ 0 → 0 < c.deviation) ∧ (c.side = .long → d + c.totalDeviation i n < 1) := by
  induction n generalizing i d with
  | zero => simpa [safetyRungs, descends_nil, totalDeviation] using hlt
  | succ n ih =>
    have hpow : 0 < c.stepMult ^ i := pow_pos hstep i
    have htrigger : 0 ≤ c.deviation * c.stepMult ^ i := mul_nonneg hdeviation hpow.le
    have hrest := totalDeviation_nonneg hdeviation hstep (i + 1) n
    simp only [safetyRungs, Nat.add_sub_cancel]
    rw [descends_cons, furtherBy_add_iff hside hentry hd htrigger, mul_pos_iff_of_pos_right hpow,
      totalDeviation_succ, ← add_assoc]
    constructor
    · rintro ⟨⟨hpos, hnext⟩, hdescends⟩
      exact ⟨fun _ => hpos, ((ih (i + 1) (add_nonneg hd htrigger) hnext).mp hdescends).2⟩
    · rintro ⟨hpos, htotal⟩
      have hnext : c.side = .long → d + c.deviation * c.stepMult ^ i < 1 := fun h =>
        lt_of_le_of_lt (le_add_of_nonneg_right hrest) (htotal h)
      exact ⟨⟨hpos (Nat.succ_ne_zero n), hnext⟩,
        (ih (i + 1) (add_nonneg hd htrigger) hnext).mpr ⟨fun _ => hpos (Nat.succ_ne_zero n), htotal⟩⟩

theorem safetyRungs_amount (hsafety : 0 ≤ c.safety) (hmult : 0 < c.volumeMult) (n layer : ℕ) (d : ℚ) :
    ∀ r ∈ c.safetyRungs n layer d, 0 ≤ r.amount := by
  induction n generalizing layer d with
  | zero => exact List.forall_mem_nil _
  | succ n ih =>
    exact List.forall_mem_cons.mpr ⟨mul_nonneg hsafety (pow_pos hmult _).le, ih _ _⟩

theorem wellFormed_levels (hside : c.side ≠ .neutral) (hentry : 0 < c.entry) (hbase : 0 < c.base)
    (hsafety : 0 ≤ c.safety) (hmult : 1 ≤ c.volumeMult) (hdeviation : 0 ≤ c.deviation)
    (hstep : 1 ≤ c.stepMult) : WellFormed c.side c.levels ↔ c.Ok := by
  have hentryAt : furtherBy c.side c.entry 0 = c.entry := by
    unfold furtherBy
    split <;> simp
  have hdescends := descends_safetyRungs hside hentry hdeviation (zero_lt_one.trans_le hstep)
    (c.maxLayers - 1) 0 le_rfl fun _ => zero_lt_one
  have htotal : c.totalDeviation 0 (c.maxLayers - 1) =
      c.deviation * ∑ i ∈ Finset.range (c.maxLayers - 1), c.stepMult ^ i := by
    unfold totalDeviation
    rw [Finset.mul_sum]
    simp only [Nat.zero_add]
  simp only [zero_add] at hdescends
  rw [hentryAt, htotal, show c.maxLayers - 1 ≠ 0 ↔ 2 ≤ c.maxLayers by omega] at hdescends
  unfold levels rungs
  rw [wellFormed_fill_iff hside hbase
    (safetyRungs_amount hsafety (zero_lt_one.trans_le hmult) _ _ _)]
  rw [List.forall_mem_cons, List.map_cons, and_assoc (a := 0 < c.entry)]
  change (0 < c.entry ∧ Descends c.side c.entry _) ∧ _ ↔ _
  rw [hdescends]
  exact ⟨fun h => ⟨h.1.2.1, h.1.2.2, h.2⟩, fun h => ⟨⟨hentry, h.deviation, h.total⟩, h.exit⟩⟩

end LayeredDca

/-! ## Main result -/

/-- **Ladder previews.**  A payload without a blocking warning has a well-formed
preview exactly when its spacings are positive and leave a long ladder some of its price,
and its exit reference is positive and, for a short, below one. -/
theorem wellFormed_iff (py : Numerals) (cfg : Payload) :
    ((previewLayeredMartingale py cfg).Unblocked →
      (WellFormed (layeredMartingale py cfg).side (previewLayeredMartingale py cfg).levels ↔
        (layeredMartingale py cfg).Ok)) ∧
    ((previewLayeredDca py cfg).Unblocked →
      (WellFormed (layeredDca py cfg).side (previewLayeredDca py cfg).levels ↔
        (layeredDca py cfg).Ok)) := by
  constructor
  · intro h
    obtain ⟨hentry, hbase⟩ := pos_of_unblocked h
    exact LayeredMartingale.wellFormed_levels (side_ne_neutral _) hentry hbase (le_max_left _ _)
      (by simp [layeredMartingale]) (by simp [layeredMartingale])
      (fun htwo => ratioList_length _ _
        (show 0 < (layeredMartingale py cfg).layerCount - 1 by omega))
      (fun htwo => ratioList_length _ _
        (show 0 < (layeredMartingale py cfg).ordersPerLayer - 1 by omega))
  · intro h
    obtain ⟨hentry, hbase⟩ := pos_of_unblocked h
    exact LayeredDca.wellFormed_levels (side_ne_neutral _) hentry hbase (le_max_left _ _)
      (le_max_left _ _) (le_max_left _ _) (le_max_left _ _)

/-- Five layers of three orders from 100 on, with the default spacings. -/
def samplePayload : Payload :=
  .of [("side", .text "long"), ("entry_price", .number 100), ("base_order_size", .number 10),
    ("max_layers", .number 5)]

theorem wellFormed_samplePayload :
    WellFormed (layeredMartingale .none samplePayload).side
        (previewLayeredMartingale .none samplePayload).levels ∧
      WellFormed (layeredDca .none samplePayload).side
        (previewLayeredDca .none samplePayload).levels := by
  obtain ⟨hmartingale, hdca⟩ := wellFormed_iff .none samplePayload
  exact ⟨(hmartingale (by decide +kernel)).mpr
      ⟨by decide +kernel, by decide +kernel, by decide +kernel⟩,
    (hdca (by decide +kernel)).mpr ⟨by decide +kernel, by decide +kernel, by decide +kernel⟩⟩

/-- A long ladder of four layers, 20% apart and twice as far each time. -/
def deepPayload : Payload :=
  .of [("side", .text "long"), ("entry_price", .number 100), ("base_order_size", .number 10),
    ("max_layers", .number 4), ("price_deviation_pct", .number 20), ("step_multiplier", .number 2)]

/-- The last level of the ladder has a negative price. -/
theorem negativePrice_deepPayload :
    (previewLayeredDca .none deepPayload).Unblocked ∧
      (previewLayeredDca .none deepPayload).levels.map ExecutorLevel.price =
        [100, 80, 40, -40] ∧
      ¬ WellFormed (layeredDca .none deepPayload).side
        (previewLayeredDca .none deepPayload).levels := by
  have hprices : (previewLayeredDca .none deepPayload).levels.map ExecutorLevel.price =
      [100, 80, 40, -40] := by decide +kernel
  refine ⟨by decide +kernel, hprices, fun h => ?_⟩
  have hall : ∀ price ∈ ([100, 80, 40, -40] : List ℚ), 0 < price := fun price hprice => by
    rw [← hprices] at hprice
    obtain ⟨l, hl, rfl⟩ := List.mem_map.mp hprice
    exact (h.positive l hl).1
  exact absurd (hall (-40) (by simp)) (by norm_num)

end AlgoTrade.Executors
