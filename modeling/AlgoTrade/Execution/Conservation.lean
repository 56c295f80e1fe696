import AlgoTrade.Execution.Executors

/-! # Conservation of one limit-then-market execution

`Conserves` compares the result of one `execute` with what the exchange filled:
never more than the intent, exactly what a success reports, and nothing at all
(filled or working) after a failure.

* `conserves_iff_settled`: it holds exactly when every order sent is settled:
  after a raise it is dead, else its last report is what it filled and the
  market order filled no more than the limit order left. -/

namespace AlgoTrade

/-- What the orders of an execution have filled when it returns. -/
def filledInAll (run : AdapterRun) (x : Execution) : ℚ :=
  (if x.limitSent.isSome then run.limit.filled else 0) +
    if x.marketSent.isSome then run.market.filled else 0

/-- No order the execution sent still works. -/
def NothingWorking (run : AdapterRun) (x : Execution) : Prop :=
  (x.limitSent.isSome = true → run.limit.working = false) ∧
    (x.marketSent.isSome = true → run.market.working = false)

def Conserves (run : AdapterRun) (intent : OrderIntent) (x : Execution) : Prop :=
  filledInAll run x ≤ intent.quantity ∧
    (x.result.success = true → x.result.filledQty = filledInAll run x) ∧
    (x.result.success = false → filledInAll run x = 0 ∧ NothingWorking run x)

/-- Every order is settled.  When a call raises, each order sent is dead.  When
none does, nothing is filled after an order's last report, and the market order
fills no more than the limit order left. -/
def Settled (fallbackToMarket : Bool) (run : AdapterRun) (intent : OrderIntent) : Prop :=
  (callRaises fallbackToMarket run intent = true →
      (0 < intent.price → run.limit.Dead) ∧
        (crosses fallbackToMarket run intent = true → run.market.Dead)) ∧
    (callRaises fallbackToMarket run intent = false →
      (0 < intent.price → run.limit.filled = run.limit.limitReported) ∧
        (crosses fallbackToMarket run intent = true →
          run.market.filled = run.market.marketReported ∧
            run.market.filled + (if 0 < intent.price then run.limit.filled else 0) ≤
              intent.quantity))

/-! ## Reports never exceed fills -/

theorem Leg.limitReported_le (leg : Leg) : leg.limitReported ≤ leg.filled := by
  unfold limitReported snapshot
  cases hw : leg.wait with
  | raised error => exact leg.filled_nonneg
  | returned fill =>
    cases fill with
    | none => exact leg.filled_nonneg
    | some fill => exact leg.wait_le fill hw

theorem Leg.marketReported_le (leg : Leg) : leg.marketReported ≤ leg.filled := by
  unfold marketReported
  cases hp : leg.place with
  | raised error => exact leg.filled_nonneg
  | returned result =>
    have hplace := leg.place_le result hp
    unfold snapshot
    rcases hw : leg.wait with (_ | fill) | error
    · exact hplace
    · show orElse fill.filledQty result.filled ≤ leg.filled
      unfold orElse
      split
      · exact hplace
      · exact leg.wait_le fill hw
    · exact hplace

/-- Two fills add up to nothing only when both are nothing. -/
theorem add_eq_zero_of_nonneg {a b : ℚ} (ha : 0 ≤ a) (hb : 0 ≤ b) : a + b = 0 ↔ a = 0 ∧ b = 0 := by
  constructor
  · intro h
    exact ⟨by linarith, by linarith⟩
  · rintro ⟨rfl, rfl⟩
    exact add_zero 0

/-- Two reports add up to the fills only when each report is its fill. -/
theorem reports_eq_fills {r₁ r₂ f₁ f₂ : ℚ} (h₁ : r₁ ≤ f₁) (h₂ : r₂ ≤ f₂) :
    r₁ + r₂ = f₁ + f₂ ↔ f₁ = r₁ ∧ f₂ = r₂ := by
  constructor
  · intro h
    exact ⟨by linarith, by linarith⟩
  · rintro ⟨rfl, rfl⟩
    rfl

/-! ## Main result -/

/-- **Conservation.**  An execution conserves exactly when its orders are
settled.  The exchange fills a limit order for at most its quantity. -/
theorem conserves_iff_settled {fallbackToMarket : Bool} {run : AdapterRun} {intent : OrderIntent}
    (hquantity : 0 ≤ intent.quantity) (hlimit : run.limit.filled ≤ intent.quantity) :
    Conserves run intent (limitThenMarketExecute fallbackToMarket run intent) ↔
      Settled fallbackToMarket run intent := by
  obtain ⟨hsentLimit, hsentMarket, hsuccess, hreported⟩ :=
    limitThenMarketExecute_spec fallbackToMarket run intent
  generalize limitThenMarketExecute fallbackToMarket run intent = x at *
  have hl := run.limit.filled_nonneg
  have hm := run.market.filled_nonneg
  have hfilled : filledInAll run x =
      (if 0 < intent.price then run.limit.filled else 0) +
        if crosses fallbackToMarket run intent then run.market.filled else 0 := by
    simp only [filledInAll, hsentLimit, hsentMarket, decide_eq_true_eq]
  unfold Conserves Settled NothingWorking
  rw [hfilled, hsuccess, hsentLimit, hsentMarket]
  cases hraise : callRaises fallbackToMarket run intent with
  | true =>
    simp only [Bool.not_true, Bool.false_eq_true, false_imp_iff, true_and, true_imp_iff, and_true,
      Bool.true_eq_false]
    by_cases hprice : 0 < intent.price <;> cases hcross : crosses fallbackToMarket run intent <;>
      simp only [hprice, Leg.Dead, decide_true, decide_false, if_true, if_false, add_zero, zero_add,
        Bool.false_eq_true, false_imp_iff, true_imp_iff, and_true, true_and]
    case pos.false =>
      exact ⟨fun h => h.2, fun h => ⟨hlimit, h⟩⟩
    case neg.false => exact iff_of_true hquantity trivial
    case pos.true =>
      rw [add_eq_zero_of_nonneg hl hm]
      constructor
      · rintro ⟨-, ⟨h₁, h₂⟩, h₃, h₄⟩
        exact ⟨⟨h₁, h₃⟩, h₂, h₄⟩
      · rintro ⟨⟨h₁, h₃⟩, h₂, h₄⟩
        exact ⟨by rw [h₁, h₂, add_zero]; exact hquantity, ⟨h₁, h₂⟩, h₃, h₄⟩
    case neg.true =>
      constructor
      · exact fun h => h.2
      · exact fun h => ⟨by rw [h.1]; exact hquantity, h⟩
  | false =>
    rw [hreported hraise]
    simp only [Bool.not_false, Bool.true_eq_false, false_imp_iff, true_imp_iff, and_true, true_and,
      Bool.false_eq_true]
    have hlr := run.limit.limitReported_le
    have hmr := run.market.marketReported_le
    by_cases hprice : 0 < intent.price <;> cases hcross : crosses fallbackToMarket run intent <;>
      simp only [hprice, if_true, if_false, add_zero, zero_add, Bool.false_eq_true, false_imp_iff,
        true_imp_iff, and_true, true_and]
    case pos.false =>
      exact ⟨fun h => h.2.symm, fun h => ⟨hlimit, h.symm⟩⟩
    case neg.false => exact iff_of_true hquantity trivial
    case pos.true =>
      rw [reports_eq_fills hlr hmr, add_comm run.market.filled]
      constructor
      · rintro ⟨hle, h₁, h₂⟩
        exact ⟨h₁, h₂, hle⟩
      · rintro ⟨h₁, h₂, hle⟩
        exact ⟨hle, h₁, h₂⟩
    case neg.true =>
      exact ⟨fun h => ⟨h.2.symm, h.1⟩, fun h => ⟨h.2, h.1.symm⟩⟩

/-- A limit order for 8 that shows 3 filled; 2 more are filled before the cancel
takes effect, and the market order fills the 5 it asks for. -/
def lateFillRun : AdapterRun where
  limit := {
    place := .returned { exchangeOrderId := "l1" }
    wait := .returned (some { filledQty := 3, status := "open" })
    filled := 5
    working := false
    filled_nonneg := by norm_num
    place_le := by rintro r ⟨⟩; norm_num
    wait_le := by rintro s ⟨⟩; norm_num }
  cancel := .returned ()
  market := {
    place := .returned { exchangeOrderId := "m1" }
    wait := .returned (some { filledQty := 5, status := "filled" })
    filled := 5
    working := false
    filled_nonneg := by norm_num
    place_le := by rintro r ⟨⟩; norm_num
    wait_le := by rintro s ⟨⟩; norm_num }

def buyEight : OrderIntent where
  quantity := 8
  price := 100

theorem conserves_iff_settled_lateFill :
    Conserves lateFillRun buyEight (limitThenMarketExecute true lateFillRun buyEight) ↔
      Settled true lateFillRun buyEight :=
  conserves_iff_settled (by norm_num [buyEight]) (by norm_num [lateFillRun, buyEight])

/-- The fills between the snapshot and the cancel are bought once more: 10 for an
intent of 8, reported as 8. -/
theorem lateFill_overfills :
    filledInAll lateFillRun (limitThenMarketExecute true lateFillRun buyEight) = 10 ∧
      (limitThenMarketExecute true lateFillRun buyEight).result.success = true ∧
      (limitThenMarketExecute true lateFillRun buyEight).result.filledQty = 8 ∧
      ¬ Conserves lateFillRun buyEight (limitThenMarketExecute true lateFillRun buyEight) := by
  have hfilled : filledInAll lateFillRun (limitThenMarketExecute true lateFillRun buyEight) = 10 := by
    decide +kernel
  refine ⟨hfilled, by decide +kernel, by decide +kernel, ?_⟩
  rintro ⟨hle, -⟩
  rw [hfilled] at hle
  norm_num [buyEight] at hle

end AlgoTrade
