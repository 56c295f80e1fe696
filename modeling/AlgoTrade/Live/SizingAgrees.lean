import AlgoTrade.Backtest.Broker
import AlgoTrade.Ledger.Position
import Mathlib.Tactic.FieldSimp

/-! # Live and backtest sizing

`targetAmount` is `_target_amount` of the live executor, `Backtest.targetQuantity` the
simulation broker's `_target_quantity`.  Only the live one looks at the market type.

* `targetAmount_eq_iff`: when the two agree, on a broker without costs.
* `leverage_le_one_of_spot`: the contract and the backtest runner keep leverage away
  from spot instruments.
* `sizing_agrees`: both, for every intent. -/

namespace AlgoTrade.SizingAgrees

open Backtest

/-! ## The live executor -/

def notionalMultiplier (leverage : ℚ) (marketType : String) : ℚ :=
  if marketType.toLower ≠ "spot" then max 1 (orElse leverage 1) else 1

/-- `_target_amount`; `none` for a division by a zero price. -/
def targetAmount (intent : OrderIntent) (current capital price leverage : ℚ)
    (marketType : String) : Option ℚ :=
  let multiplier := notionalMultiplier leverage marketType
  match intent.kind with
  | .quantity => some (current + intent.value)
  | .value => if price = 0 then none else some (current + intent.value * multiplier / price)
  | .targetQuantity => some intent.value
  | .targetValue => if price = 0 then none else some (intent.value * multiplier / price)
  | .targetPercent =>
    if price = 0 then none else some (capital * intent.value * multiplier / price)

/-! ## The backtest -/

theorem one_le_leverage (leverage : ℚ) : 1 ≤ max 1 (orElse leverage 1) := le_max_left _ _

/-- A `MultiAssetSimulationBroker` without fee and slippage. -/
def costlessBroker (initialCapital leverage : ℚ) : BrokerConfig where
  initialCapital := initialCapital
  leverage := max 1 (orElse leverage 1)
  commission := 0
  slippage := 0
  one_le_leverage := one_le_leverage leverage
  commission_nonneg := BrokerConfig.free_nonneg
  slippage_nonneg := BrokerConfig.free_nonneg

/-- What of a manifest leverage depends on. -/
structure Manifest where
  /-- `(market, market_type)` of every instrument. -/
  instruments : List (String × String)
  universeReference : Bool := false
  leverageAllowed : Bool := false
  maxLeverage : ℚ := 1
  deriving DecidableEq, Repr

/-- `allow_leverage`. -/
def Manifest.allowLeverage (m : Manifest) (maxLeverage : ℚ) : Manifest :=
  let value := max 1 (orElse maxLeverage 1)
  { m with leverageAllowed := 1 < value, maxLeverage := value }

/-- The leverage check of `compile_strategy_v2`. -/
def Manifest.compiles (m : Manifest) : Bool :=
  !m.leverageAllowed ||
    (!m.universeReference && !m.instruments.isEmpty &&
      m.instruments.all fun item => item.1 = "Crypto" && item.2 = "swap")

/-- The leverage of a `StrategyV2BacktestRunner`; `none` when it refuses. -/
def Manifest.requestedLeverage (m : Manifest) (leverageEnabled : Bool) (leverage : ℚ) : Option ℚ :=
  let requested := if leverageEnabled then max 1 (orElse leverage 1) else 1
  if 1 < requested ∧ ¬ m.leverageAllowed then none
  else if m.maxLeverage < requested then none
  else some requested

/-! ## Agreement -/

/-- Leverage does not scale the intent. -/
def Unscaled (intent : OrderIntent) (capital : ℚ) : Prop :=
  match intent.kind with
  | .quantity | .targetQuantity => True
  | .value | .targetValue => intent.value = 0
  | .targetPercent => capital * intent.value = 0

instance (intent : OrderIntent) (capital : ℚ) : Decidable (Unscaled intent capital) := by
  unfold Unscaled
  split
  · exact instDecidableTrue
  · exact instDecidableTrue
  · infer_instance
  · infer_instance
  · infer_instance

section
variable {intent : OrderIntent} {current capital price leverage : ℚ} {marketType : String}

theorem max_orElse_eq_one_iff : max 1 (orElse leverage 1) = 1 ↔ leverage ≤ 1 := by
  rw [max_eq_left_iff]
  unfold orElse
  split
  next h => simp [h]
  next => rfl

/-- The two multipliers. -/
theorem notionalMultiplier_eq_iff :
    notionalMultiplier leverage marketType = max 1 (orElse leverage 1) ↔
      marketType.toLower ≠ "spot" ∨ leverage ≤ 1 := by
  unfold notionalMultiplier
  split
  next h => exact ⟨fun _ => .inl h, fun _ => rfl⟩
  next h =>
    rw [eq_comm, max_orElse_eq_one_iff]
    exact ⟨.inr, fun hor => hor.resolve_left h⟩

/-- The backtest's percent target without costs. -/
theorem targetQuantity_percent (h : intent.kind = .targetPercent) :
    targetQuantity (costlessBroker capital leverage) intent current price capital =
      if price = 0 then none
      else some (capital * intent.value * max 1 (orElse leverage 1) / price) := by
  unfold targetQuantity costlessBroker
  rw [h]
  dsimp only
  simp only [add_zero, mul_one, div_one, ite_self]

theorem scaled_eq_iff {x a b p : ℚ} (hp : p ≠ 0) :
    x * a / p = x * b / p ↔ x = 0 ∨ a = b := by
  rw [div_left_inj' hp, mul_eq_mul_left_iff, or_comm]

/-- **When the two agree.** -/
theorem targetAmount_eq_iff :
    targetAmount intent current capital price leverage marketType =
        targetQuantity (costlessBroker capital leverage) intent current price capital ↔
      marketType.toLower ≠ "spot" ∨ leverage ≤ 1 ∨ price = 0 ∨ Unscaled intent capital := by
  rw [← or_assoc, ← notionalMultiplier_eq_iff, or_comm (a := price = 0)]
  unfold targetAmount Unscaled
  dsimp only
  cases hkind : intent.kind with
  | quantity =>
    unfold targetQuantity
    simp only [hkind, true_or, or_true]
  | targetQuantity =>
    unfold targetQuantity
    simp only [hkind, true_or, or_true]
  | value =>
    unfold targetQuantity costlessBroker
    by_cases hp : price = 0
    · simp only [hkind, hp, if_true, or_true]
    · simp only [hkind, hp, if_false, Option.some.injEq, add_right_inj, scaled_eq_iff hp, or_false]
      exact or_comm
  | targetValue =>
    unfold targetQuantity costlessBroker
    by_cases hp : price = 0
    · simp only [hkind, hp, if_true, or_true]
    · simp only [hkind, hp, if_false, Option.some.injEq, scaled_eq_iff hp, or_false]
      exact or_comm
  | targetPercent =>
    rw [targetQuantity_percent hkind]
    by_cases hp : price = 0
    · simp only [hp, if_true, or_true]
    · simp only [hp, if_false, Option.some.injEq, scaled_eq_iff hp, or_false]
      exact or_comm

/-- **Leverage stays away from spot.**  A strategy with a spot instrument is
backtested without leverage. -/
theorem leverage_le_one_of_spot {m : Manifest} {maxLeverage : ℚ} {enabled : Bool}
    {requested leverage : ℚ} {market : String}
    (hm : (m.allowLeverage maxLeverage).compiles = true)
    (hitem : (market, marketType) ∈ m.instruments) (hspot : marketType.toLower = "spot")
    (hleverage : (m.allowLeverage maxLeverage).requestedLeverage enabled requested = some leverage) :
    leverage ≤ 1 := by
  have hnone : (m.allowLeverage maxLeverage).leverageAllowed = false := by
    by_contra hallowed
    unfold Manifest.compiles at hm
    rw [Bool.not_eq_false] at hallowed
    rw [hallowed, Bool.not_true, Bool.false_or, Bool.and_eq_true, List.all_eq_true] at hm
    have hswap := hm.2 _ hitem
    rw [Bool.and_eq_true] at hswap
    have hswap' : marketType = "swap" := of_decide_eq_true hswap.2
    rw [hswap'] at hspot
    exact absurd hspot (by decide +kernel)
  unfold Manifest.requestedLeverage at hleverage
  rw [hnone] at hleverage
  dsimp only at hleverage
  obtain ⟨hle, hleverage⟩ := Option.ite_none_left_eq_some.mp hleverage
  obtain ⟨-, hleverage⟩ := Option.ite_none_left_eq_some.mp hleverage
  rw [← Option.some.inj hleverage]
  by_contra hlt
  exact hle ⟨not_le.mp hlt, Bool.false_ne_true⟩

end

/-- **Live and backtest sizing agree** on what leverage does not scale and off spot;
and on every instrument of a strategy, at every leverage its backtest is given. -/
theorem sizing_agrees :
    (∀ intent current capital price leverage marketType,
      targetAmount intent current capital price leverage marketType =
          targetQuantity (costlessBroker capital leverage) intent current price capital ↔
        marketType.toLower ≠ "spot" ∨ leverage ≤ 1 ∨ price = 0 ∨ Unscaled intent capital) ∧
    ∀ (m : Manifest) maxLeverage enabled requested leverage market marketType,
      (m.allowLeverage maxLeverage).compiles = true →
      (market, marketType) ∈ m.instruments →
      (m.allowLeverage maxLeverage).requestedLeverage enabled requested = some leverage →
      ∀ intent current capital price,
        targetAmount intent current capital price leverage marketType =
          targetQuantity (costlessBroker capital leverage) intent current price capital := by
  refine ⟨fun _ _ _ _ _ _ => targetAmount_eq_iff, ?_⟩
  intro m maxLeverage enabled requested leverage market marketType hm hitem hleverage intent current
    capital price
  refine targetAmount_eq_iff.mpr ?_
  by_cases hspot : marketType.toLower = "spot"
  · exact .inr (.inl (leverage_le_one_of_spot hm hitem hspot hleverage))
  · exact .inl hspot

/-- A quarter of the capital. -/
def quarter : OrderIntent where
  symbol := ⟨"Crypto", "BTCUSDT"⟩
  kind := .targetPercent
  value := 1 / 4

/-- A swap at five times. -/
theorem sizing_agrees_swap :
    targetAmount quarter 0 10000 100 5 "swap" =
        targetQuantity (costlessBroker 10000 5) quarter 0 100 10000 ∧
      targetAmount quarter 0 10000 100 5 "swap" = some 125 :=
  ⟨sizing_agrees.2 { instruments := [("Crypto", "swap")] } 10 true 5 5 "Crypto" "swap" rfl
    (List.mem_singleton.mpr rfl) (by decide +kernel) quarter 0 10000 100, by decide +kernel⟩

/-- A spot market at five times. -/
theorem leveredSpot_disagrees :
    targetAmount quarter 0 10000 100 5 "spot" = some 25 ∧
      targetQuantity (costlessBroker 10000 5) quarter 0 100 10000 = some 125 := by
  constructor
  · decide +kernel
  · decide +kernel

end AlgoTrade.SizingAgrees
