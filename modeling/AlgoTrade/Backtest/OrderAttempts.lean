import AlgoTrade.Backtest.BrokerMoves
import Mathlib.Tactic.Linarith
import Mathlib.Tactic.Positivity

/-! # What one attempt does to an order

`Tried` lists the outcomes of `executeOrder`: blocked, rejected, left resting, or
filled by the settled change.

* `executeOrder_tried`: every attempt has one of them.
* `roundToLot_spec`, `cappedDelta_spec`, `feasibleDelta_spec`: the settled change
  is whole lots in the direction asked for, no more than the capped change unless
  the position limit enlarges it. -/

namespace AlgoTrade.Backtest

/-! ## Outcomes -/

def orderIdAt (b : Book) (timestamp : Time) : OrderId := ⟨timestamp, b.nextOrder.orderSequence⟩

/-- The book an order is sized on. -/
def Book.sized (b : Book) (p : Portal) : Book := b.nextOrder.markToMarket p

/-- The attempt gets as far as a quote. -/
structure Sized (cfg : BrokerConfig) (p : Portal) (priceOverrides : Dict Instrument ℚ) (b : Book)
    (order : OrderIntent) (openPrice : ℚ) (z : Sizing) : Prop where
  unblocked : blockedReason cfg p priceOverrides b.nextOrder order = none
  opens : openPriceOf p priceOverrides order = some openPrice
  sized : sizeOrder cfg (b.sized p) order openPrice = some z
  unmet : ¬ z.alreadyMet order

/-- The quote of a sized order. -/
def quoteOf (cfg : BrokerConfig) (p : Portal) (order : OrderIntent) (openPrice : ℚ) (z : Sizing) :
    Quote :=
  quote cfg order z.delta openPrice (p.barAt order.symbol)

def lotOf (p : Portal) (order : OrderIntent) : ℚ := lotSize order.symbol (p.openBarAt order.symbol)

/-- The settled change of a sized order. -/
def settledOf (cfg : BrokerConfig) (p : Portal) (b : Book) (order : OrderIntent) (z : Sizing)
    (fillPrice : ℚ) : ℚ × Option StatusReason :=
  settledDelta cfg (b.sized p) order (p.openBarAt order.symbol) z fillPrice

inductive Tried (cfg : BrokerConfig) (p : Portal) (timestamp : Time)
    (priceOverrides : Dict Instrument ℚ) (b : Book) (order : OrderIntent) : Outcome → Prop
  | blocked (reason : StatusReason) : Tried cfg p timestamp priceOverrides b order
      (blockOrder timestamp b.nextOrder order (orderIdAt b timestamp) reason)
  | rejected (reason : StatusReason) (requested : ℚ) : Tried cfg p timestamp priceOverrides b order
      (rejectOrder timestamp (b.sized p) order (orderIdAt b timestamp) reason requested)
  | resting (openPrice : ℚ) (z : Sizing) (hsized : Sized cfg p priceOverrides b order openPrice z) :
      Tried cfg p timestamp priceOverrides b order
      { book := (b.sized p).appendRestingEvent
          { orderEvent (orderIdAt b timestamp) order timestamp .deferred .limitNotReached with
            requestedQuantity := |z.delta|
            price := order.limitPrice }
        deferred := some order }
  | filled (openPrice : ℚ) (z : Sizing) (fillPrice : ℚ) (reference : FillReference)
      (hsized : Sized cfg p priceOverrides b order openPrice z)
      (hquote : quoteOf cfg p order openPrice z = .fills fillPrice reference)
      (hlots : lotOf p order - amountEpsilon ≤ |(settledOf cfg p b order z fillPrice).1|) :
      Tried cfg p timestamp priceOverrides b order
        (fillOrder cfg timestamp (b.sized p) order (orderIdAt b timestamp) openPrice z
          (settledOf cfg p b order z fillPrice).1 fillPrice (lotOf p order) reference
          (capOf order (p.openBarAt order.symbol)) (settledOf cfg p b order z fillPrice).2)

/-- **An attempt.** -/
theorem executeOrder_tried {cfg : BrokerConfig} {p : Portal} {timestamp : Time}
    {priceOverrides : Dict Instrument ℚ} {b : Book} {order : OrderIntent} {out : Outcome}
    (h : executeOrder cfg p timestamp priceOverrides b order = some out) :
    Tried cfg p timestamp priceOverrides b order out := by
  unfold executeOrder at h
  dsimp only at h
  split at h
  next reason _ =>
    obtain rfl := Option.some.inj h
    exact .blocked reason
  next hunblocked =>
    obtain ⟨openPrice, hopen, h⟩ := Option.bind_eq_some_iff.mp h
    obtain ⟨z, hz, rfl⟩ := Option.map_eq_some_iff.mp h
    split
    · exact .rejected ..
    next hunmet =>
      have hsized : Sized cfg p priceOverrides b order openPrice z := ⟨hunblocked, hopen, hz, hunmet⟩
      cases hquote : quote cfg order z.delta openPrice (p.barAt order.symbol) with
      | limitPriceRequired => exact .rejected ..
      | notReached => exact .resting openPrice z hsized
      | fills fillPrice reference =>
        rw [settleOrder_fills]
        split
        · exact .rejected ..
        · split
          · exact .rejected ..
          next hlots => exact .filled openPrice z fillPrice reference hsized hquote (not_lt.mp hlots)

theorem openPrice_pos {cfg : BrokerConfig} {p : Portal} {priceOverrides : Dict Instrument ℚ}
    {b : Book} {order : OrderIntent} {openPrice : ℚ} (hforced : order.reason ≠ "margin_liquidation")
    (hunblocked : blockedReason cfg p priceOverrides b order = none)
    (hopens : openPriceOf p priceOverrides order = some openPrice) : 0 < openPrice := by
  unfold blockedReason Book.executionBlockReason at hunblocked
  rw [if_neg hforced, hopens] at hunblocked
  by_contra hle
  split at hunblocked
  next bar price _ hprice =>
    obtain rfl := Option.some.inj hprice
    rw [if_pos (not_lt.mp hle)] at hunblocked
    cases hunblocked
  next => cases hunblocked

/-! ## The settled change -/

theorem lotSize_pos (symbol : Instrument) (bar : Option OpenBar) : 0 < lotSize symbol bar := by
  unfold lotSize
  dsimp only
  split
  next h => exact h
  next =>
    split
    · norm_num
    · norm_num

theorem abs_copysign (x y : ℚ) : |copysign x y| = |x| := by
  unfold copysign
  split
  · rw [abs_neg, abs_abs]
  · exact abs_abs x

theorem copysign_mul_nonneg (x y : ℚ) : 0 ≤ copysign x y * y := by
  unfold copysign
  split
  next h => exact mul_nonneg_of_nonpos_of_nonpos (neg_nonpos.mpr (abs_nonneg x)) h.le
  next h => exact mul_nonneg (abs_nonneg x) (not_lt.mp h)

/-- Whole lots in the direction of the value. -/
theorem roundToLot_spec {lot : ℚ} (hlot : 0 < lot) (value : ℚ) :
    (∃ n : ℕ, |roundToLot value lot| = n * lot) ∧ 0 ≤ roundToLot value lot * value := by
  unfold roundToLot
  rw [if_neg (not_le.mpr hlot)]
  dsimp only
  split
  · exact ⟨⟨0, by simp⟩, by simp⟩
  · have hunits : 0 ≤ ⌊|value| / lot + 1 / 10 ^ 8⌋ := Int.floor_nonneg.mpr (by positivity)
    refine ⟨⟨⌊|value| / lot + 1 / 10 ^ 8⌋.toNat, ?_⟩, copysign_mul_nonneg _ _⟩
    rw [abs_copysign, abs_mul, abs_of_pos hlot, abs_of_nonneg (Int.cast_nonneg hunits)]
    congr 1
    exact_mod_cast (Int.toNat_of_nonneg hunits).symm

/-- A value of no more than some whole lots rounds to no more than these. -/
theorem abs_roundToLot_le {lot value : ℚ} (hlot : 0 < lot) {n : ℕ} (h : |value| ≤ n * lot) :
    |roundToLot value lot| ≤ n * lot := by
  have hfloor : ⌊|value| / lot + 1 / 10 ^ 8⌋ ≤ (n : ℤ) := by
    have hquotient : |value| / lot ≤ n := (div_le_iff₀ hlot).mpr h
    refine Int.lt_add_one_iff.mp (Int.floor_lt.mpr ?_)
    push_cast
    linarith
  unfold roundToLot
  rw [if_neg (not_le.mpr hlot)]
  dsimp only
  split
  · rw [abs_zero]
    positivity
  · have hunits : 0 ≤ ⌊|value| / lot + 1 / 10 ^ 8⌋ := Int.floor_nonneg.mpr (by positivity)
    rw [abs_copysign, abs_mul, abs_of_pos hlot, abs_of_nonneg (Int.cast_nonneg hunits)]
    exact mul_le_mul_of_nonneg_right (by exact_mod_cast hfloor) hlot.le

theorem liquidityCap_spec {bar : Option OpenBar} {lot cap : ℚ} (hlot : 0 < lot)
    (h : liquidityCap bar lot = some cap) : ∃ n : ℕ, cap = n * lot := by
  unfold liquidityCap at h
  dsimp only at h
  split at h
  · cases h
  next hvolume =>
    obtain rfl := Option.some.inj h
    split
    · exact ⟨0, by simp⟩
    · have hunits : 0 ≤ ⌊(bar.map OpenBar.volume).getD 0 * (1 / 10) / lot + 1 / 10 ^ 10⌋ :=
        Int.floor_nonneg.mpr (by
          have := (not_le.mp hvolume).le
          positivity)
      refine ⟨⌊(bar.map OpenBar.volume).getD 0 * (1 / 10) / lot + 1 / 10 ^ 10⌋.toNat, ?_⟩
      congr 1
      exact_mod_cast (Int.toNat_of_nonneg hunits).symm

/-- The capped change is whole lots in the direction asked for. -/
theorem cappedDelta_spec (order : OrderIntent) (bar : Option OpenBar) (z : Sizing) :
    (∃ n : ℕ, |cappedDelta order bar z| = n * lotSize order.symbol bar) ∧
      0 ≤ cappedDelta order bar z * z.delta := by
  have hlot := lotSize_pos order.symbol bar
  obtain ⟨hlots, hsign⟩ := roundToLot_spec hlot z.delta
  unfold cappedDelta
  dsimp only
  split
  next c hc =>
    split
    next hlt =>
      have hcap : liquidityCap bar (lotSize order.symbol bar) = some c := by
        unfold capOf at hc
        split at hc
        · cases hc
        · exact hc
      obtain ⟨n, rfl⟩ := liquidityCap_spec hlot hcap
      refine ⟨⟨n, ?_⟩, ?_⟩
      · rw [abs_copysign, abs_of_nonneg (by positivity)]
      · unfold copysign
        rcases lt_trichotomy (roundToLot z.delta (lotSize order.symbol bar)) 0 with h | h | h
        · rw [if_pos h]
          exact mul_nonneg_of_nonpos_of_nonpos (neg_nonpos.mpr (abs_nonneg _))
            (nonpos_of_mul_nonneg_right hsign h)
        · rw [h, abs_zero] at hlt
          exact absurd hlt (not_lt.mpr (by positivity))
        · rw [if_neg h.not_gt]
          exact mul_nonneg (abs_nonneg _) (nonneg_of_mul_nonneg_right hsign h)
    next => exact ⟨hlots, hsign⟩
  next => exact ⟨hlots, hsign⟩

/-! ## Feasibility -/

/-- What the cash allows of a change. -/
def cashCapped (cfg : BrokerConfig) (b : Book) (delta fillPrice equity : ℚ) :
    ℚ × Option StatusReason :=
  let spendable := max 0 (b.availableCash + equity * (cfg.leverage - 1))
  let cashCap := spendable / max (fillPrice * (1 + cfg.commission)) amountEpsilon
  if 0 < delta ∧ cashCap < delta then (cashCap, some .insufficientCash) else (delta, none)

/-- The largest position the leverage allows. -/
def positionLimit (cfg : BrokerConfig) (b : Book) (fillPrice equity : ℚ)
    (positionKey : PositionKey) : ℚ :=
  max 0 (equity * cfg.leverage - b.grossValue positionKey) / max fillPrice amountEpsilon

/-- After the change the position is still beyond the limit on the other side, so
that the limit enlarges the change. -/
def LimitEnlarges (cfg : BrokerConfig) (b : Book) (delta currentAmount fillPrice equity : ℚ)
    (positionKey : PositionKey) : Prop :=
  positionLimit cfg b fillPrice equity positionKey + amountEpsilon <
      |currentAmount + (cashCapped cfg b delta fillPrice equity).1| ∧
    (currentAmount + (cashCapped cfg b delta fillPrice equity).1) * delta ≤ 0

instance (cfg : BrokerConfig) (b : Book) (delta currentAmount fillPrice equity : ℚ)
    (positionKey : PositionKey) :
    Decidable (LimitEnlarges cfg b delta currentAmount fillPrice equity positionKey) :=
  inferInstanceAs (Decidable (_ ∧ _))

theorem max_epsilon_pos (x : ℚ) : 0 < max x amountEpsilon :=
  lt_max_of_lt_right (by unfold amountEpsilon; norm_num)

theorem cashCapped_spec (cfg : BrokerConfig) (b : Book) (delta fillPrice equity : ℚ) :
    |(cashCapped cfg b delta fillPrice equity).1| ≤ |delta| ∧
      0 ≤ (cashCapped cfg b delta fillPrice equity).1 * delta := by
  unfold cashCapped
  dsimp only
  split
  next h =>
    have hcap : 0 ≤ max 0 (b.availableCash + equity * (cfg.leverage - 1)) /
        max (fillPrice * (1 + cfg.commission)) amountEpsilon :=
      div_nonneg (le_max_left ..) (max_epsilon_pos _).le
    rw [abs_of_nonneg hcap, abs_of_pos h.1]
    exact ⟨h.2.le, mul_nonneg hcap h.1.le⟩
  next => exact ⟨le_rfl, mul_self_nonneg delta⟩

theorem positionLimit_nonneg (cfg : BrokerConfig) (b : Book) (fillPrice equity : ℚ)
    (positionKey : PositionKey) : 0 ≤ positionLimit cfg b fillPrice equity positionKey :=
  div_nonneg (le_max_left ..) (max_epsilon_pos _).le

theorem feasibleDelta_eq (cfg : BrokerConfig) (b : Book)
    (delta currentAmount fillPrice equity lot : ℚ) (positionKey : PositionKey) :
    ∃ feasible : ℚ,
      feasible = (if positionLimit cfg b fillPrice equity positionKey + amountEpsilon <
          |currentAmount + (cashCapped cfg b delta fillPrice equity).1| then
        copysign (positionLimit cfg b fillPrice equity positionKey)
          (currentAmount + (cashCapped cfg b delta fillPrice equity).1) - currentAmount
        else (cashCapped cfg b delta fillPrice equity).1) ∧
      (feasibleDelta cfg b delta currentAmount fillPrice equity lot positionKey).1 =
        if direction delta ≠ 0 ∧ direction feasible ≠ 0 ∧ direction feasible ≠ direction delta then 0
        else roundToLot feasible lot := by
  refine ⟨_, rfl, ?_⟩
  unfold feasibleDelta cashCapped positionLimit
  dsimp only
  split
  · split
    · split
      · rfl
      · rfl
    · split
      · rfl
      · rfl
  · split
    · split
      · rfl
      · rfl
    · split
      · rfl
      · rfl

theorem mul_nonneg_of_direction {x y : ℚ}
    (h : ¬ (direction y ≠ 0 ∧ direction x ≠ 0 ∧ direction x ≠ direction y)) : 0 ≤ x * y := by
  by_contra hneg
  refine h ?_
  unfold direction
  rcases mul_neg_iff.mp (not_le.mp hneg) with ⟨hx, hy⟩ | ⟨hx, hy⟩
  · rw [if_pos hx, if_neg hy.not_gt, if_pos hy]
    decide
  · rw [if_neg hx.not_gt, if_pos hx, if_pos hy]
    decide

/-- Towards a limit `m` on the side of the change, no more is left than the change. -/
theorem abs_sub_le_of_beyond {x f m delta : ℚ} (hm : m < |x + f|) (hside : 0 < (x + f) * delta)
    (hf : |f| ≤ |delta|) (hdirection : 0 ≤ (copysign m (x + f) - x) * delta) (hnonneg : 0 ≤ m) :
    |copysign m (x + f) - x| ≤ |delta| := by
  unfold copysign at hdirection ⊢
  rw [abs_of_nonneg hnonneg] at hdirection ⊢
  rcases pos_and_pos_or_neg_and_neg_of_mul_pos hside with ⟨ht, hd⟩ | ⟨ht, hd⟩
  · rw [if_neg ht.not_gt] at hdirection ⊢
    rw [abs_of_pos ht] at hm
    have hrest : 0 ≤ m - x := nonneg_of_mul_nonneg_left hdirection hd
    rw [abs_of_nonneg hrest]
    linarith [le_abs_self f]
  · rw [if_pos ht] at hdirection ⊢
    rw [abs_of_neg ht] at hm
    have hrest : -m - x ≤ 0 := nonpos_of_mul_nonneg_left hdirection hd
    rw [abs_of_nonpos hrest]
    linarith [neg_abs_le f]

/-- Feasibility keeps the direction of the change. -/
theorem feasibleDelta_side (cfg : BrokerConfig) (b : Book) {lot : ℚ} (hlot : 0 < lot)
    (delta currentAmount fillPrice equity : ℚ) (positionKey : PositionKey) :
    0 ≤ (feasibleDelta cfg b delta currentAmount fillPrice equity lot positionKey).1 * delta := by
  obtain ⟨feasible, -, heq⟩ :=
    feasibleDelta_eq cfg b delta currentAmount fillPrice equity lot positionKey
  rw [heq]
  split
  · rw [zero_mul]
  next hdirection =>
    have hnonneg := mul_nonneg_of_direction hdirection
    obtain ⟨-, hround⟩ := roundToLot_spec hlot feasible
    rcases lt_trichotomy feasible 0 with h | h | h
    · exact mul_nonneg_of_nonpos_of_nonpos (nonpos_of_mul_nonneg_left hround h)
        (nonpos_of_mul_nonneg_right hnonneg h)
    · have hzero : |roundToLot feasible lot| ≤ (0 : ℕ) * lot :=
        abs_roundToLot_le hlot (by rw [h, abs_zero, Nat.cast_zero, zero_mul])
      rw [Nat.cast_zero, zero_mul] at hzero
      rw [abs_nonpos_iff.mp hzero, zero_mul]
    · exact mul_nonneg (nonneg_of_mul_nonneg_left hround h)
        (nonneg_of_mul_nonneg_right hnonneg h)

/-- **Feasibility** gives no more than the change, in its direction, unless the
position limit enlarges it. -/
theorem feasibleDelta_spec {cfg : BrokerConfig} {b : Book}
    {delta currentAmount fillPrice equity lot : ℚ} {positionKey : PositionKey} (hlot : 0 < lot)
    {n : ℕ} (hlots : |delta| = n * lot)
    (hlimit : ¬ LimitEnlarges cfg b delta currentAmount fillPrice equity positionKey) :
    |(feasibleDelta cfg b delta currentAmount fillPrice equity lot positionKey).1| ≤ |delta| ∧
      0 ≤ (feasibleDelta cfg b delta currentAmount fillPrice equity lot positionKey).1 * delta := by
  refine ⟨?_, feasibleDelta_side cfg b hlot delta currentAmount fillPrice equity positionKey⟩
  obtain ⟨feasible, hfeasible, heq⟩ :=
    feasibleDelta_eq cfg b delta currentAmount fillPrice equity lot positionKey
  obtain ⟨hcash, hsame⟩ := cashCapped_spec cfg b delta fillPrice equity
  rw [heq]
  split
  · rw [abs_zero]
    exact abs_nonneg delta
  next hdirection =>
    have hnonneg := mul_nonneg_of_direction hdirection
    have hle : |feasible| ≤ |delta| := by
      by_cases hover : positionLimit cfg b fillPrice equity positionKey + amountEpsilon <
          |currentAmount + (cashCapped cfg b delta fillPrice equity).1|
      · rw [if_pos hover] at hfeasible
        have hside := not_le.mp fun hle => hlimit ⟨hover, hle⟩
        have hm : positionLimit cfg b fillPrice equity positionKey <
            |currentAmount + (cashCapped cfg b delta fillPrice equity).1| :=
          (lt_add_of_pos_right _ (by unfold amountEpsilon; norm_num)).trans hover
        rw [hfeasible] at hnonneg ⊢
        exact abs_sub_le_of_beyond hm hside hcash hnonneg (positionLimit_nonneg ..)
      · rw [if_neg hover] at hfeasible
        rwa [hfeasible]
    rw [hlots] at hle ⊢
    exact abs_roundToLot_le hlot hle

/-- The position limit enlarges the settled change; a forced liquidation has no
limit. -/
def SettledEnlarged (cfg : BrokerConfig) (p : Portal) (b : Book) (order : OrderIntent) (z : Sizing)
    (fillPrice : ℚ) : Prop :=
  order.reason ≠ "margin_liquidation" ∧
    LimitEnlarges cfg (b.sized p) (cappedDelta order (p.openBarAt order.symbol) z)
      z.current.amount fillPrice z.equity order.positionKey

instance (cfg : BrokerConfig) (p : Portal) (b : Book) (order : OrderIntent) (z : Sizing)
    (fillPrice : ℚ) : Decidable (SettledEnlarged cfg p b order z fillPrice) :=
  inferInstanceAs (Decidable (_ ∧ _))

/-- **The settled change** is no more than the capped one, in its direction. -/
theorem settledOf_spec {cfg : BrokerConfig} {p : Portal} {b : Book} {order : OrderIntent}
    {z : Sizing} {fillPrice : ℚ} (hlimit : ¬ SettledEnlarged cfg p b order z fillPrice) :
    |(settledOf cfg p b order z fillPrice).1| ≤ |cappedDelta order (p.openBarAt order.symbol) z| ∧
      0 ≤ (settledOf cfg p b order z fillPrice).1 * z.delta := by
  obtain ⟨⟨n, hlots⟩, hcapped⟩ := cappedDelta_spec order (p.openBarAt order.symbol) z
  unfold settledOf settledDelta
  by_cases hforced : order.reason = "margin_liquidation"
  · rw [if_pos hforced]
    exact ⟨le_rfl, hcapped⟩
  · rw [if_neg hforced]
    obtain ⟨hle, hsame⟩ :=
      feasibleDelta_spec (lotSize_pos ..) hlots fun h => hlimit ⟨hforced, h⟩
    refine ⟨hle, ?_⟩
    rcases lt_trichotomy (cappedDelta order (p.openBarAt order.symbol) z) 0 with h | h | h
    · exact mul_nonneg_of_nonpos_of_nonpos (nonpos_of_mul_nonneg_left hsame h)
        (nonpos_of_mul_nonneg_right hcapped h)
    · rw [h, abs_zero] at hle
      rw [h, abs_nonpos_iff.mp hle, zero_mul]
    · exact mul_nonneg (nonneg_of_mul_nonneg_left hsame h) (nonneg_of_mul_nonneg_right hcapped h)

/-- The settled change goes the order's way, unless the liquidity allows none and the
position limit makes one. -/
theorem settledOf_side {cfg : BrokerConfig} {p : Portal} {b : Book} {order : OrderIntent}
    {z : Sizing} {fillPrice : ℚ} (h : cappedDelta order (p.openBarAt order.symbol) z ≠ 0 ∨
      ¬ SettledEnlarged cfg p b order z fillPrice) :
    0 ≤ (settledOf cfg p b order z fillPrice).1 * z.delta := by
  rcases h with hne | hlimit
  · obtain ⟨-, hcapped⟩ := cappedDelta_spec order (p.openBarAt order.symbol) z
    unfold settledOf settledDelta
    split
    · exact hcapped
    · have hsame := feasibleDelta_side cfg (b.sized p)
        (lotSize_pos order.symbol (p.openBarAt order.symbol))
        (cappedDelta order (p.openBarAt order.symbol) z) z.current.amount fillPrice z.equity
        order.positionKey
      rcases lt_or_gt_of_ne hne with h | h
      · exact mul_nonneg_of_nonpos_of_nonpos (nonpos_of_mul_nonneg_left hsame h)
          (nonpos_of_mul_nonneg_right hcapped h)
      · exact mul_nonneg (nonneg_of_mul_nonneg_left hsame h) (nonneg_of_mul_nonneg_right hcapped h)
  · exact (settledOf_spec hlimit).2

end AlgoTrade.Backtest
