import AlgoTrade.Backtest.OrderAttempts
import AlgoTrade.Lib.Runs
import Mathlib.Tactic.FieldSimp

/-! # Incremental orders are not over-filled

An order of an amount or of a value, through any sequence of attempts on any books
and bars: what it has filled and what its remainder still asks for.

* `attempt`: one attempt, with the executions it adds.
* `FillSound`: a value remainder is not multiplied by a leverage again, whole lots
  do not exceed the change, and the position limit does not enlarge it.
* `attempt_kept`: what an attempt keeps.
* `neverOverfilled_of_sound`: every run of attempts. -/

namespace AlgoTrade.Backtest

/-! ## The life of an order -/

/-- The order as it waits, if it does, and its executions. -/
structure OrderLife where
  order : Option OrderIntent
  fills : List Execution := []
  deriving DecidableEq

/-- Where and when an order is tried; anything may have happened to the book since
the attempt before. -/
structure Attempt where
  portal : Portal
  timestamp : Time
  priceOverrides : Dict Instrument ℚ := {}
  book : Book

/-- One attempt, and what it leaves to try again. -/
def attempt (cfg : BrokerConfig) (life : OrderLife) (a : Attempt) : Option OrderLife :=
  life.order.bind fun order =>
    (executeOrder cfg a.portal a.timestamp a.priceOverrides a.book order).map fun out =>
      { order := out.deferred
        fills := life.fills ++ Runner.executedSince a.book out.book }

/-- The price an execution was sized at. -/
def Execution.sizingPrice (e : Execution) : ℚ := match e.orderType with
  | .limit => e.limitPrice
  | .market => e.referencePrice

/-- What an execution uses up of the requested amount. -/
def consumed (cfg : BrokerConfig) (kind : OrderKind) (e : Execution) : ℚ := match kind with
  | .value => e.quantity * e.sizingPrice / cfg.leverage
  | _ => e.quantity

def OrderKind.isIncremental (kind : OrderKind) : Prop := kind = .quantity ∨ kind = .value

/-- The executions use up no more than the requested amount, all on its side. -/
structure NeverOverfilled (cfg : BrokerConfig) (order : OrderIntent) (fills : List Execution) :
    Prop where
  amount : (fills.map (consumed cfg order.kind)).sum ≤ |order.value|
  sides : ∀ e ∈ fills, 0 < order.value ∧ e.side = .buy ∨ order.value < 0 ∧ e.side = .sell

/-! ## When an attempt is sound -/

/-- A fill that is about to happen keeps the unit of its order and its size. -/
structure FillSound (cfg : BrokerConfig) (p : Portal) (b : Book) (order : OrderIntent) (z : Sizing)
    (fillPrice : ℚ) : Prop where
  unit : order.kind = .value → order.pendingDirection ≠ 0 → cfg.leverage = 1
  price : order.kind = .value → 0 < z.sizingPrice
  lots : amountEpsilon < lotOf p order
  whole : |cappedDelta order (p.openBarAt order.symbol) z| ≤ |z.delta|
  limit : ¬ SettledEnlarged cfg p b order z fillPrice

instance (cfg : BrokerConfig) (p : Portal) (b : Book) (order : OrderIntent) (z : Sizing)
    (fillPrice : ℚ) : Decidable (FillSound cfg p b order z fillPrice) :=
  decidable_of_iff
    ((order.kind = .value → order.pendingDirection ≠ 0 → cfg.leverage = 1) ∧
      (order.kind = .value → 0 < z.sizingPrice) ∧ amountEpsilon < lotOf p order ∧
      |cappedDelta order (p.openBarAt order.symbol) z| ≤ |z.delta| ∧
      ¬ SettledEnlarged cfg p b order z fillPrice)
    ⟨fun ⟨h₁, h₂, h₃, h₄, h₅⟩ => ⟨h₁, h₂, h₃, h₄, h₅⟩,
      fun ⟨h₁, h₂, h₃, h₄, h₅⟩ => ⟨h₁, h₂, h₃, h₄, h₅⟩⟩

/-- The price of a quote within reach. -/
def Quote.price? : Quote → Option ℚ
  | .fills price _ => some price
  | _ => none

/-- An attempt that gets as far as a price is sound there. -/
def AttemptSound (cfg : BrokerConfig) (life : OrderLife) (a : Attempt) : Prop :=
  ∀ order ∈ life.order,
    blockedReason cfg a.portal a.priceOverrides a.book.nextOrder order = none →
      ∀ openPrice ∈ openPriceOf a.portal a.priceOverrides order,
        ∀ z ∈ sizeOrder cfg (a.book.sized a.portal) order openPrice, ¬ z.alreadyMet order →
          ∀ fillPrice ∈ (quoteOf cfg a.portal order openPrice z).price?,
            FillSound cfg a.portal a.book order z fillPrice

instance (cfg : BrokerConfig) (life : OrderLife) (a : Attempt) :
    Decidable (AttemptSound cfg life a) :=
  inferInstanceAs (Decidable (∀ order ∈ life.order, _))

/-! ## Sizing -/

section
variable {cfg : BrokerConfig} {b : Book} {order : OrderIntent} {openPrice : ℚ} {z : Sizing}

theorem sizeOrder_quantity (hz : sizeOrder cfg b order openPrice = some z)
    (hkind : order.kind = .quantity) : z.delta = order.value := by
  obtain ⟨targetQty, htarget, rfl⟩ := Option.map_eq_some_iff.mp hz
  unfold targetQuantity at htarget
  rw [hkind] at htarget
  obtain rfl := Option.some.inj htarget
  exact add_sub_cancel_left _ _

theorem sizeOrder_value (hz : sizeOrder cfg b order openPrice = some z)
    (hkind : order.kind = .value) : z.delta = order.value * cfg.leverage / z.sizingPrice := by
  unfold sizeOrder at hz
  dsimp only at hz
  generalize (if order.isLimit ∧ 0 < order.limitPrice then order.limitPrice else openPrice) = price
    at hz
  obtain ⟨targetQty, htarget, rfl⟩ := Option.map_eq_some_iff.mp hz
  unfold targetQuantity at htarget
  rw [hkind] at htarget
  dsimp only at htarget
  split at htarget
  · cases htarget
  · obtain rfl := Option.some.inj htarget
    exact add_sub_cancel_left _ _

theorem sizeOrder_sizingPrice (hz : sizeOrder cfg b order openPrice = some z) :
    z.sizingPrice = if order.isLimit ∧ 0 < order.limitPrice then order.limitPrice else openPrice := by
  unfold sizeOrder at hz
  dsimp only at hz
  generalize (if order.isLimit ∧ 0 < order.limitPrice then order.limitPrice else openPrice) = price
    at hz ⊢
  obtain ⟨targetQty, -, rfl⟩ := Option.map_eq_some_iff.mp hz
  rfl

theorem quote_limitPrice {delta fillPrice : ℚ} {bar : Option Bar} {reference : FillReference}
    (h : quote cfg order delta openPrice bar = .fills fillPrice reference)
    (hlimit : order.isLimit = true) : 0 < order.limitPrice := by
  unfold quote at h
  rw [if_pos hlimit] at h
  dsimp only at h
  split at h
  · cases h
  next hprice => exact not_le.mp hprice

/-- What one unit of quantity uses up. -/
def Sizing.unitOf (cfg : BrokerConfig) (kind : OrderKind) (z : Sizing) : ℚ := match kind with
  | .value => z.sizingPrice / cfg.leverage
  | _ => 1

/-- What a waiting order still asks for, in the unit of the requested amount: the
remainder of a value is a notional. -/
def outstanding (cfg : BrokerConfig) (order : OrderIntent) : ℚ := match order.kind with
  | .value => if order.pendingDirection = 0 then |order.value| else |order.value| / cfg.leverage
  | _ => |order.value|

theorem outstanding_of_quantity (h : order.kind = .quantity) :
    outstanding cfg order = |order.value| := by
  unfold outstanding
  rw [h]

theorem outstanding_of_value (h : order.kind = .value) : outstanding cfg order =
    if order.pendingDirection = 0 then |order.value| else |order.value| / cfg.leverage := by
  unfold outstanding
  rw [h]

theorem leverage_pos (cfg : BrokerConfig) : 0 < cfg.leverage :=
  zero_lt_one.trans_le cfg.one_le_leverage

/-- A sound fill is of what the order still asks for. -/
theorem outstanding_eq {p : Portal} {b' : Book} {fillPrice : ℚ} (hkind : order.kind.isIncremental)
    (hz : sizeOrder cfg b order openPrice = some z) (hsound : FillSound cfg p b' order z fillPrice) :
    outstanding cfg order = |z.delta| * z.unitOf cfg order.kind ∧
      0 ≤ z.unitOf cfg order.kind ∧
      (0 < z.delta → 0 < order.value) ∧ (z.delta < 0 → order.value < 0) := by
  have hleverage := leverage_pos cfg
  rcases hkind with hkind | hkind
  · rw [sizeOrder_quantity hz hkind, outstanding_of_quantity hkind, hkind]
    exact ⟨(mul_one _).symm, zero_le_one, id, id⟩
  · have hprice := hsound.price hkind
    have hfactor : 0 < cfg.leverage / z.sizingPrice := div_pos hleverage hprice
    have hdelta : z.delta = order.value * (cfg.leverage / z.sizingPrice) := by
      rw [sizeOrder_value hz hkind, mul_div_assoc]
    have hunit : z.unitOf cfg .value = z.sizingPrice / cfg.leverage := rfl
    rw [hdelta, outstanding_of_value hkind, hkind, hunit]
    refine ⟨?_, (div_pos hprice hleverage).le, fun h => pos_of_mul_pos_left h hfactor.le,
      fun h => neg_of_mul_neg_left h hfactor.le⟩
    have hone : cfg.leverage / z.sizingPrice * (z.sizingPrice / cfg.leverage) = 1 := by
      field_simp
    rw [abs_mul, abs_of_pos hfactor, mul_assoc, hone, mul_one]
    split
    · rfl
    next hpending => rw [hsound.unit hkind hpending, div_one]

end

/-! ## One attempt -/

/-- A waiting order asks for what is left, on the side it began. -/
structure Waiting (cfg : BrokerConfig) (first : OrderIntent) (fills : List Execution)
    (order : OrderIntent) : Prop where
  kind : order.kind = first.kind
  buys : 0 < order.value → 0 < first.value
  sells : order.value < 0 → first.value < 0
  amount : (fills.map (consumed cfg first.kind)).sum + outstanding cfg order ≤ |first.value|

structure LifeKept (cfg : BrokerConfig) (first : OrderIntent) (life : OrderLife) : Prop where
  never : NeverOverfilled cfg first life.fills
  waiting : ∀ order ∈ life.order, Waiting cfg first life.fills order

/-- The execution of a fill. -/
theorem fillOrder_execution (cfg : BrokerConfig) (timestamp : Time) (b : Book)
    (order : OrderIntent) (orderId : OrderId) (openPrice : ℚ) (z : Sizing)
    (delta fillPrice lot : ℚ) (reference : FillReference) (cap : Option ℚ)
    (constraint : Option StatusReason) :
    ∃ e : Execution, e.side = (if 0 < delta then .buy else .sell) ∧ e.quantity = |delta| ∧
      e.sizingPrice = (if order.isLimit then order.limitPrice else openPrice) ∧
      (fillOrder cfg timestamp b order orderId openPrice z delta fillPrice lot reference cap
        constraint).book.executions = b.executions ++ [e] := by
  have hexecutions := Book.recordClosedTrade_keeps Book.executions (fun _ _ _ _ _ _ _ => rfl)
    (fun _ _ _ _ _ => rfl)
  refine ⟨_, ?_, ?_, ?_, hexecutions ..⟩
  · rfl
  · rfl
  · unfold Execution.sizingPrice
    dsimp only
    by_cases h : order.isLimit = true
    · simp only [h, if_true]
    · simp only [h, if_false, Bool.false_eq_true]

theorem remainder_kind (order : OrderIntent) (requestedDelta delta sizingPrice : ℚ) :
    (remainder order requestedDelta delta sizingPrice).kind = order.kind := by
  unfold remainder
  dsimp only
  split
  · rfl
  · rfl
  · rfl

theorem copysign_sides {x y : ℚ} (hy : y ≠ 0) :
    (0 < copysign x y → 0 < y) ∧ (copysign x y < 0 → y < 0) := by
  unfold copysign
  split
  next h => exact ⟨fun hpos => absurd hpos (not_lt.mpr (neg_nonpos.mpr (abs_nonneg x))), fun _ => h⟩
  next h =>
    exact ⟨fun _ => lt_of_le_of_ne (not_lt.mp h) hy.symm,
      fun hneg => absurd hneg (not_lt.mpr (abs_nonneg x))⟩

/-- The remainder asks for what the fill has left. -/
theorem remainder_spec {cfg : BrokerConfig} {order : OrderIntent} {z : Sizing} {delta : ℚ}
    (hkind : order.kind.isIncremental) (hle : |delta| ≤ |z.delta|) (hne : z.delta ≠ 0)
    (hprice : order.kind = .value → 0 < z.sizingPrice) :
    outstanding cfg (remainder order z.delta delta z.sizingPrice) =
        (|z.delta| - |delta|) * z.unitOf cfg order.kind ∧
      (0 < (remainder order z.delta delta z.sizingPrice).value → 0 < z.delta) ∧
      ((remainder order z.delta delta z.sizingPrice).value < 0 → z.delta < 0) := by
  have hrest : max 0 (|z.delta| - |delta|) = |z.delta| - |delta| := max_eq_right (sub_nonneg.mpr hle)
  have hkept := remainder_kind order z.delta delta z.sizingPrice
  rcases hkind with hkind | hkind
  · have hvalue : (remainder order z.delta delta z.sizingPrice).value =
        copysign (|z.delta| - |delta|) z.delta := by
      unfold remainder
      rw [hkind, hrest]
    rw [outstanding_of_quantity (hkept.trans hkind), hvalue, abs_copysign,
      abs_of_nonneg (sub_nonneg.mpr hle), hkind]
    exact ⟨(mul_one _).symm, copysign_sides hne⟩
  · have hvalue : (remainder order z.delta delta z.sizingPrice).value =
        copysign ((|z.delta| - |delta|) * z.sizingPrice) z.delta := by
      unfold remainder
      rw [hkind, hrest]
    have hpending : (remainder order z.delta delta z.sizingPrice).pendingDirection ≠ 0 := by
      unfold remainder
      rw [hkind]
      dsimp only
      split
      · decide
      · decide
    have hunit : z.unitOf cfg .value = z.sizingPrice / cfg.leverage := rfl
    rw [outstanding_of_value (hkept.trans hkind), if_neg hpending, hvalue, abs_copysign,
      abs_of_nonneg (mul_nonneg (sub_nonneg.mpr hle) (hprice hkind).le), hkind, hunit,
      mul_div_assoc]
    exact ⟨rfl, copysign_sides hne⟩

/-- An attempt without a fill leaves the executions as they are. -/
theorem LifeKept.unfilled {cfg : BrokerConfig} {first order : OrderIntent} {life : OrderLife}
    {a : Attempt} {out : Outcome} (h : LifeKept cfg first life) (horder : life.order = some order)
    (hexecutions : out.book.executions = a.book.executions)
    (hdeferred : ∀ o ∈ out.deferred, o.kind = order.kind ∧ o.value = order.value ∧
      o.pendingDirection = order.pendingDirection) :
    LifeKept cfg first ⟨out.deferred, life.fills ++ Runner.executedSince a.book out.book⟩ := by
  have hnone : Runner.executedSince a.book out.book = [] := by
    rw [Runner.executedSince, hexecutions, List.drop_length]
  rw [hnone, List.append_nil]
  refine ⟨h.never, fun o ho => ?_⟩
  obtain ⟨hkind, hvalue, hpending⟩ := hdeferred o ho
  have hwaiting := h.waiting order horder
  have hsame : outstanding cfg o = outstanding cfg order := by
    rw [outstanding, outstanding, hkind, hvalue, hpending]
  exact ⟨hkind.trans hwaiting.kind, hvalue ▸ hwaiting.buys, hvalue ▸ hwaiting.sells,
    hsame ▸ hwaiting.amount⟩

/-- A sound fill uses up what the order asked for, and leaves the rest. -/
theorem LifeKept.filled {cfg : BrokerConfig} {first order : OrderIntent} {life : OrderLife}
    {z : Sizing} {delta : ℚ} {e : Execution} (h : LifeKept cfg first life)
    (hincremental : first.kind.isIncremental) (horder : life.order = some order)
    (hle : |delta| ≤ |z.delta|) (hside : 0 < delta ∧ 0 < z.delta ∨ delta < 0 ∧ z.delta < 0)
    (houtstanding : outstanding cfg order = |z.delta| * z.unitOf cfg order.kind)
    (hunit : 0 ≤ z.unitOf cfg order.kind) (hbuys : 0 < z.delta → 0 < order.value)
    (hsells : z.delta < 0 → order.value < 0) (hprice : order.kind = .value → 0 < z.sizingPrice)
    (heside : e.side = if 0 < delta then .buy else .sell)
    (hconsumed : consumed cfg order.kind e = |delta| * z.unitOf cfg order.kind)
    {deferred : Option OrderIntent}
    (hdeferred : ∀ o ∈ deferred, o = remainder order z.delta delta z.sizingPrice) :
    LifeKept cfg first ⟨deferred, life.fills ++ [e]⟩ := by
  have hwaiting := h.waiting order horder
  have hamount := hwaiting.amount
  rw [houtstanding] at hamount
  rw [hwaiting.kind] at hconsumed hamount hunit
  have hsum : ((life.fills ++ [e]).map (consumed cfg first.kind)).sum =
      (life.fills.map (consumed cfg first.kind)).sum + |delta| * z.unitOf cfg first.kind := by
    rw [List.map_append, List.sum_append, List.map_singleton, List.sum_singleton, hconsumed]
  refine ⟨⟨?_, fun d hd => ?_⟩, fun o ho => ?_⟩
  · rw [hsum]
    have := mul_le_mul_of_nonneg_right hle hunit
    linarith
  · rcases List.mem_append.mp hd with hd | hd
    · exact h.never.sides d hd
    · rw [List.mem_singleton.mp hd, heside]
      rcases hside with ⟨hdelta, hz⟩ | ⟨hdelta, hz⟩
      · exact .inl ⟨hwaiting.buys (hbuys hz), if_pos hdelta⟩
      · exact .inr ⟨hwaiting.sells (hsells hz), if_neg hdelta.not_gt⟩
  · have hne : z.delta ≠ 0 := by
      rcases hside with ⟨-, hz⟩ | ⟨-, hz⟩
      · exact hz.ne'
      · exact hz.ne
    have hkind : order.kind.isIncremental := hwaiting.kind ▸ hincremental
    obtain ⟨hrest, hpos, hneg⟩ := remainder_spec hkind hle hne hprice
    rw [hdeferred o ho]
    refine ⟨(remainder_kind ..).trans hwaiting.kind, fun h => hwaiting.buys (hbuys (hpos h)),
      fun h => hwaiting.sells (hsells (hneg h)), ?_⟩
    rw [hrest, hsum, hwaiting.kind]
    linarith

/-- **A sound attempt** keeps what is used up and what is asked for together. -/
theorem attempt_kept {cfg : BrokerConfig} {first : OrderIntent}
    (hincremental : first.kind.isIncremental) (life : OrderLife) (a : Attempt) (life' : OrderLife)
    (hkept : LifeKept cfg first life) (hsound : AttemptSound cfg life a)
    (h : attempt cfg life a = some life') : LifeKept cfg first life' := by
  obtain ⟨order, horder, h⟩ := Option.bind_eq_some_iff.mp h
  obtain ⟨out, hout, rfl⟩ := Option.map_eq_some_iff.mp h
  cases executeOrder_tried hout with
  | blocked reason =>
    refine hkept.unfilled horder ?_ fun o ho => ?_
    · unfold blockOrder
      split
      · rfl
      · rfl
    · unfold blockOrder at ho
      split at ho
      · cases ho
      · obtain rfl := Option.some.inj ho
        exact ⟨rfl, rfl, rfl⟩
  | rejected reason requested => exact hkept.unfilled horder rfl fun o ho => by cases ho
  | resting openPrice z hsized =>
    refine hkept.unfilled horder
      (congrArg Accounts.executions (Book.appendRestingEvent_accounts ..)) fun o ho => ?_
    obtain rfl := Option.some.inj ho
    exact ⟨rfl, rfl, rfl⟩
  | filled openPrice z fillPrice reference hsized hquote hlots =>
    have hfill : FillSound cfg a.portal a.book order z fillPrice :=
      hsound order horder hsized.unblocked openPrice hsized.opens z hsized.sized hsized.unmet
        fillPrice (by rw [hquote]; rfl)
    have hkind : order.kind.isIncremental := (hkept.waiting order horder).kind ▸ hincremental
    obtain ⟨houtstanding, hunit, hbuys, hsells⟩ := outstanding_eq hkind hsized.sized hfill
    obtain ⟨hcapped, hsign⟩ := settledOf_spec hfill.limit
    have hle := hcapped.trans hfill.whole
    have hpos : 0 < |(settledOf cfg a.portal a.book order z fillPrice).1| :=
      (sub_pos.mpr hfill.lots).trans_le hlots
    have hside := hsign.lt_of_ne' (mul_ne_zero (abs_pos.mp hpos)
      (abs_pos.mp (hpos.trans_le hle)))
    obtain ⟨e, heside, hquantity, hprice, hexecutions⟩ := fillOrder_execution cfg a.timestamp
      (a.book.sized a.portal) order (orderIdAt a.book a.timestamp) openPrice z
      (settledOf cfg a.portal a.book order z fillPrice).1 fillPrice (lotOf a.portal order) reference
      (capOf order (a.portal.openBarAt order.symbol))
      (settledOf cfg a.portal a.book order z fillPrice).2
    have hnew : ∀ book : Book, book.executions = (a.book.sized a.portal).executions ++ [e] →
        Runner.executedSince a.book book = [e] := fun book hbook => by
      rw [Runner.executedSince, hbook]
      exact List.drop_left ..
    rw [hnew _ hexecutions]
    have hsizing : e.sizingPrice = z.sizingPrice := by
      rw [hprice, sizeOrder_sizingPrice hsized.sized]
      by_cases hlimit : order.isLimit = true
      · rw [if_pos hlimit, if_pos ⟨hlimit, quote_limitPrice hquote hlimit⟩]
      · rw [if_neg hlimit, if_neg fun h => hlimit h.1]
    have hconsumed : consumed cfg order.kind e =
        |(settledOf cfg a.portal a.book order z fillPrice).1| * z.unitOf cfg order.kind := by
      rw [← hquantity]
      rcases hkind with hkind | hkind
      · rw [hkind]
        exact (mul_one e.quantity).symm
      · rw [hkind]
        show e.quantity * e.sizingPrice / cfg.leverage = e.quantity * (z.sizingPrice / cfg.leverage)
        rw [hsizing, mul_div_assoc]
    refine hkept.filled hincremental horder hle
      (pos_and_pos_or_neg_and_neg_of_mul_pos hside) houtstanding hunit hbuys hsells hfill.price
      heside hconsumed fun o ho => ?_
    unfold fillOrder at ho
    dsimp only at ho
    split at ho
    · exact (Option.some.inj ho).symm
    · cases ho

/-! ## Every run -/

/-- **Never over-filled.**  A fresh order of an amount or of a value, through any
attempts that are sound where they get as far as a price. -/
theorem neverOverfilled_of_sound {cfg : BrokerConfig} {order : OrderIntent} {as : List Attempt}
    {life : OrderLife} (hincremental : order.kind.isIncremental)
    (hfresh : order.pendingDirection = 0)
    (hsound : Runs.AllSteps (attempt cfg) (AttemptSound cfg) ⟨some order, []⟩ as)
    (hrun : Runs.run (attempt cfg) ⟨some order, []⟩ as = some life) :
    NeverOverfilled cfg order life.fills := by
  have hstart : LifeKept cfg order ⟨some order, []⟩ := by
    refine ⟨⟨abs_nonneg _, fun e he => by cases he⟩, fun o ho => ?_⟩
    obtain rfl := Option.some.inj ho
    refine ⟨rfl, id, id, ?_⟩
    rw [List.map_nil, List.sum_nil, zero_add]
    rcases hincremental with hkind | hkind
    · exact (outstanding_of_quantity hkind).le
    · rw [outstanding_of_value hkind, if_pos hfresh]
  exact (Runs.run_invariant_of_allSteps (fun life a life' hkept hok =>
    attempt_kept hincremental life a life' hkept hok) hstart hsound hrun).never

/-! ## A value in two parts -/

namespace TwoParts

def coin : Instrument := ⟨"Crypto", "BTC/USDT"⟩

/-- A tenth of the volume can be filled. -/
def flatBar (volume : ℚ) : Bar where
  openPrice := 100
  volume := volume
  high := 100
  low := 100
  close := 100

def history : Frames where
  entries := [(coin, ⟨[(1, flatBar 50), (2, flatBar 1000)], by simp⟩)]

def config (leverage : ℚ) (h : 1 ≤ leverage) : BrokerConfig where
  initialCapital := 10000
  leverage := leverage
  commission := 0
  slippage := 0
  one_le_leverage := h
  commission_nonneg := BrokerConfig.free_nonneg
  slippage_nonneg := BrokerConfig.free_nonneg

def order : OrderIntent where
  symbol := coin
  kind := .value
  value := 1000

def startBook : Book := { availableCash := 10000, totalValue := 10000 }

/-- The book after the first part. -/
def bookAfter (cfg : BrokerConfig) : Book :=
  ((executeOrder cfg (portalAt history 1 false) 1 {} startBook order).map Outcome.book).getD
    startBook

def attempts (cfg : BrokerConfig) : List Attempt :=
  [⟨portalAt history 1 false, 1, {}, startBook⟩,
    ⟨portalAt history 2 false, 2, {}, bookAfter cfg⟩]

end TwoParts

/-- Without leverage the two parts come to the value. -/
theorem neverOverfilled_of_sound_twoParts :
    ∃ life, Runs.run (attempt (TwoParts.config 1 le_rfl)) ⟨some TwoParts.order, []⟩
        (TwoParts.attempts (TwoParts.config 1 le_rfl)) = some life ∧
      life.fills.length = 2 ∧
      NeverOverfilled (TwoParts.config 1 le_rfl) TwoParts.order life.fills := by
  obtain ⟨life, hlife, hlength⟩ := Runs.exists_of_any
    (p := fun life : OrderLife => life.fills.length = 2)
    (show (Runs.run (attempt (TwoParts.config 1 le_rfl)) ⟨some TwoParts.order, []⟩
      (TwoParts.attempts (TwoParts.config 1 le_rfl))).any _ = true by decide +kernel)
  exact ⟨life, hlife, hlength,
    neverOverfilled_of_sound (.inr rfl) rfl (by decide +kernel) hlife⟩

/-- With leverage 2 the first part uses up half of the value, and the remainder is
sized at the whole of it again. -/
theorem leveredRemainder_overfills :
    ∃ life, Runs.run (attempt (TwoParts.config 2 (by decide))) ⟨some TwoParts.order, []⟩
        (TwoParts.attempts (TwoParts.config 2 (by decide))) = some life ∧
      ¬ NeverOverfilled (TwoParts.config 2 (by decide)) TwoParts.order life.fills := by
  obtain ⟨life, hlife, hover⟩ := Runs.exists_of_any
    (p := fun life : OrderLife =>
      1000 < (life.fills.map (consumed (TwoParts.config 2 (by decide)) .value)).sum)
    (show (Runs.run (attempt (TwoParts.config 2 (by decide))) ⟨some TwoParts.order, []⟩
      (TwoParts.attempts (TwoParts.config 2 (by decide)))).any _ = true by decide +kernel)
  refine ⟨life, hlife, fun h => ?_⟩
  have hamount : _ ≤ |(1000 : ℚ)| := h.amount
  rw [abs_of_pos (by norm_num)] at hamount
  exact absurd hover (not_lt.mpr hamount)

end AlgoTrade.Backtest
