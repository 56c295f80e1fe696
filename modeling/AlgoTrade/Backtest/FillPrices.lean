import AlgoTrade.Backtest.BookCalls
import AlgoTrade.Backtest.LedgerRows
import AlgoTrade.Backtest.LeverageBound
import AlgoTrade.Backtest.ProtectionExits

/-! # The price of every fill

An execution is made on a bar that trades, at a price of that bar.

* `Priced`: what an execution takes from its bar.
* `executeOrder_fair`: an attempt prices its execution so.
* `executions_priced`: every execution of every run, the margin liquidations aside. -/

namespace AlgoTrade.Backtest

/-! ## Bars and executions -/

/-- Low, open and high in order. -/
def Bar.Ordered (bar : Bar) : Prop := bar.low ≤ bar.openPrice ∧ bar.openPrice ≤ bar.high

/-- The lots an instrument trades in on the bar. -/
def Bar.lotOf (bar : Bar) (symbol : Instrument) : ℚ := lotSize symbol (some bar.toOpenBar)

/-- A lot is more than dust, and the share of the volume an order may take, where the
volume is known, is a lot at least. -/
def Bar.Fillable (bar : Bar) (symbol : Instrument) : Prop :=
  amountEpsilon < bar.lotOf symbol ∧
    liquidityCap (some bar.toOpenBar) (bar.lotOf symbol) ≠ some 0

/-- What an execution takes from its bar: the open as its reference, or for the exit of a
protection a price of the bar; whole lots; a price of the bar under a limit; and where the
bar is fillable, the price the audit expects, on the right side of the limit. -/
structure Priced (cfg : BrokerConfig) (bar : Bar) (e : Execution) : Prop where
  trades : bar.suspended = false
  positive : 0 < e.referencePrice
  reference : e.referencePrice = bar.openPrice ∨
    e.orderType = .market ∧ (∃ reason : ExitReason, e.reason = reason.name) ∧
      (bar.Ordered → bar.low ≤ e.referencePrice ∧ e.referencePrice ≤ bar.high)
  lots : ∃ n : ℕ, e.quantity = n * bar.lotOf e.symbol
  limit : e.orderType = .limit →
    0 < e.limitPrice ∧ (bar.Ordered → bar.low ≤ e.price ∧ e.price ≤ bar.high)
  expected : bar.Fillable e.symbol → e.price = expectedPrice cfg e
  bounded : bar.Fillable e.symbol → e.orderType = .limit →
    if e.side = .buy then e.price ≤ e.limitPrice else e.limitPrice ≤ e.price

/-- The bar of an instrument at a time. -/
def barOf (frames : Frames) (symbol : Instrument) (timestamp : Time) : Option Bar :=
  (frames.get? symbol).bind fun f => f.barAt timestamp

/-- Every execution has its price from its own bar, the margin liquidations aside. -/
def FairlyPriced (cfg : BrokerConfig) (frames : Frames) (b : Book) : Prop :=
  ∀ e ∈ b.executions, e.reason ≠ "margin_liquidation" →
    ∃ bar, barOf frames e.symbol e.time = some bar ∧ Priced cfg bar e

/-! ## Quotes -/

section
variable {cfg : BrokerConfig} {order : OrderIntent} {delta openPrice fillPrice : ℚ} {bar : Bar}
  {reference : FillReference}

theorem quote_market (hmarket : order.isLimit = false)
    (h : quote cfg order delta openPrice (some bar) = .fills fillPrice reference) :
    reference = .barOpen ∧
      fillPrice = openPrice * (if 0 < delta then 1 + cfg.slippage else 1 - cfg.slippage) := by
  unfold quote at h
  rw [hmarket, if_neg Bool.false_ne_true] at h
  obtain ⟨rfl, rfl⟩ := Quote.fills.inj h
  exact ⟨rfl, rfl⟩

/-- Which of the four conditions of a limit filled it. -/
theorem reached_cases {p₁ p₂ p₃ p₄ : Prop} [Decidable p₁] [Decidable p₂] [Decidable p₃]
    [Decidable p₄] {limitPrice : ℚ}
    (h : (if p₁ then Quote.fills openPrice .gapOpen
      else if p₂ then .fills limitPrice .limit
      else if p₃ then .fills openPrice .gapOpen
      else if p₄ then .fills limitPrice .limit
      else .notReached) = .fills fillPrice reference) :
    (p₁ ∨ p₃) ∧ openPrice = fillPrice ∧ .gapOpen = reference ∨
      (¬ p₁ ∧ p₂ ∨ ¬ p₃ ∧ p₄) ∧ limitPrice = fillPrice ∧ .limit = reference := by
  split at h
  next h₁ => exact .inl ⟨.inl h₁, Quote.fills.inj h⟩
  next h₁ =>
    split at h
    next h₂ => exact .inr ⟨.inl ⟨h₁, h₂⟩, Quote.fills.inj h⟩
    next =>
      split at h
      next h₃ => exact .inl ⟨.inr h₃, Quote.fills.inj h⟩
      next h₃ =>
        split at h
        next h₄ => exact .inr ⟨.inr ⟨h₃, h₄⟩, Quote.fills.inj h⟩
        next => cases h

/-- A price a limit is compared with is the bar's own, unless it is missing. -/
theorem le_of_orOpen {x limitPrice : ℚ} (h : (if x = 0 then openPrice else x) ≤ limitPrice)
    (hlt : limitPrice < openPrice) : x ≤ limitPrice := by
  split at h
  · exact absurd h hlt.not_ge
  · exact h

theorem ge_of_orOpen {x limitPrice : ℚ} (h : limitPrice ≤ (if x = 0 then openPrice else x))
    (hlt : openPrice < limitPrice) : limitPrice ≤ x := by
  split at h
  · exact absurd h hlt.not_ge
  · exact h

/-- A limit fills at the open or at the limit, never beyond it, and at a price the bar got
to. -/
theorem quote_limit (hlimit : order.isLimit = true)
    (h : quote cfg order delta openPrice (some bar) = .fills fillPrice reference) :
    0 < order.limitPrice ∧
      (reference = .gapOpen ∧ fillPrice = openPrice ∨
        reference = .limit ∧ fillPrice = order.limitPrice ∧
          (bar.low ≤ fillPrice ∧ fillPrice ≤ openPrice ∨
            openPrice ≤ fillPrice ∧ fillPrice ≤ bar.high)) ∧
      (0 < delta → fillPrice ≤ order.limitPrice) ∧
      (delta < 0 → order.limitPrice ≤ fillPrice) := by
  unfold quote at h
  rw [if_pos hlimit] at h
  dsimp only [Option.map_some, Option.getD_some] at h
  by_cases hpositive : order.limitPrice ≤ 0
  · rw [if_pos hpositive] at h
    cases h
  rw [if_neg hpositive] at h
  refine ⟨not_le.mp hpositive, ?_⟩
  rcases reached_cases h with ⟨hopen, rfl, rfl⟩ | ⟨hreached, rfl, rfl⟩
  · refine ⟨.inl ⟨rfl, rfl⟩, fun hbuy => ?_, fun hsell => ?_⟩
    · exact hopen.elim And.right fun h => absurd hbuy h.1.not_gt
    · exact hopen.elim (fun h => absurd hsell h.1.not_gt) And.right
  · refine ⟨.inr ⟨rfl, rfl, ?_⟩, fun _ => le_rfl, fun _ => le_rfl⟩
    rcases hreached with ⟨hopen, hbuy, hlow⟩ | ⟨hopen, hsell, hhigh⟩
    · have hbelow : order.limitPrice < openPrice := not_le.mp fun hle => hopen ⟨hbuy, hle⟩
      exact .inl ⟨le_of_orOpen hlow hbelow, hbelow.le⟩
    · have habove : openPrice < order.limitPrice := not_le.mp fun hle => hopen ⟨hsell, hle⟩
      exact .inr ⟨habove.le, ge_of_orOpen hhigh habove⟩

end

/-! ## One execution -/

/-- What an execution says of its order. -/
structure Execution.Of (order : OrderIntent) (timestamp : Time) (delta fillPrice openPrice : ℚ)
    (reference : FillReference) (e : Execution) : Prop where
  symbol : e.symbol = order.symbol
  time : e.time = timestamp
  reason : e.reason = order.reason
  side : e.side = if 0 < delta then .buy else .sell
  quantity : e.quantity = |delta|
  price : e.price = fillPrice
  referencePrice : e.referencePrice = openPrice
  fillReference : e.fillReference = reference
  orderType : e.orderType = if order.isLimit then .limit else .market
  limitPrice : e.limitPrice = if order.isLimit then order.limitPrice else 0

theorem fillOrder_of (cfg : BrokerConfig) (timestamp : Time) (b : Book) (order : OrderIntent)
    (orderId : OrderId) (openPrice : ℚ) (z : Sizing) (delta fillPrice lot : ℚ)
    (reference : FillReference) (cap : Option ℚ) (constraint : Option StatusReason) :
    ∃ e : Execution, e.Of order timestamp delta fillPrice openPrice reference ∧
      (fillOrder cfg timestamp b order orderId openPrice z delta fillPrice lot reference cap
        constraint).book.executions = b.executions ++ [e] := by
  have hexecutions := Book.recordClosedTrade_keeps Book.executions (fun _ _ _ _ _ _ _ => rfl)
    (fun _ _ _ _ _ => rfl)
  exact ⟨_, ⟨rfl, rfl, rfl, rfl, rfl, rfl, rfl, rfl, rfl, rfl⟩, hexecutions ..⟩

section
variable {cfg : BrokerConfig} {p : Portal} {timestamp : Time} {priceOverrides : Dict Instrument ℚ}
  {b : Book} {order : OrderIntent} {openPrice fillPrice : ℚ} {z : Sizing}
  {reference : FillReference} {out : Outcome} {bar : Bar}

/-- An attempt adds no execution, or the one of its fill. -/
theorem executeOrder_executions
    (h : executeOrder cfg p timestamp priceOverrides b order = some out) :
    out.book.executions = b.executions ∨
      ∃ (openPrice : ℚ) (z : Sizing) (fillPrice : ℚ) (reference : FillReference) (e : Execution),
        Sized cfg p priceOverrides b order openPrice z ∧
          quoteOf cfg p order openPrice z = .fills fillPrice reference ∧
          lotOf p order - amountEpsilon ≤ |roundToLot z.delta (lotOf p order)| ∧
          lotOf p order - amountEpsilon ≤ |(settledOf cfg p b order z fillPrice).1| ∧
          e.Of order timestamp (settledOf cfg p b order z fillPrice).1 fillPrice openPrice
            reference ∧
          out.book.executions = b.executions ++ [e] := by
  have hattempt := executeOrder_tried h
  cases hattempt with
  | blocked reason =>
    refine .inl ?_
    unfold blockOrder
    split
    · rfl
    · rfl
  | rejected reason requested => exact .inl rfl
  | resting openPrice z hsized =>
    exact .inl (congrArg Accounts.executions (Book.appendRestingEvent_accounts (b.sized p) _))
  | filled openPrice z fillPrice reference hsized hquote hlots =>
    obtain ⟨e, hof, hexecutions⟩ := fillOrder_of cfg timestamp (b.sized p) order
      (orderIdAt b timestamp) openPrice z (settledOf cfg p b order z fillPrice).1 fillPrice
      (lotOf p order) reference (capOf order (p.openBarAt order.symbol))
      (settledOf cfg p b order z fillPrice).2
    refine .inr ⟨openPrice, z, fillPrice, reference, e, hsized, hquote, ?_, hlots, hof,
      hexecutions⟩
    -- the other outcome of the first lot check has no execution
    by_contra hround
    unfold lotOf at hround
    unfold executeOrder at h
    dsimp only at h
    rw [hsized.unblocked] at h
    dsimp only at h
    rw [hsized.opens, Option.bind_some] at h
    unfold tryOrder at h
    have hz : sizeOrder cfg (b.nextOrder.markToMarket p) order openPrice = some z := hsized.sized
    have hq : quote cfg order z.delta openPrice (p.barAt order.symbol) =
        .fills fillPrice reference := hquote
    rw [hz, Option.map_some, if_neg hsized.unmet, hq, settleOrder_fills,
      if_pos (not_le.mp hround)] at h
    have hfill := congrArg Outcome.fill (Option.some.inj h)
    cases hfill

/-- An order that is tried has a bar that trades. -/
theorem barAt_of_unblocked (hforced : order.reason ≠ "margin_liquidation")
    (hunblocked : blockedReason cfg p priceOverrides b order = none) :
    ∃ bar, p.barAt order.symbol = some bar ∧ bar.suspended = false := by
  unfold blockedReason Book.executionBlockReason Portal.openBarAt at hunblocked
  rw [if_neg hforced] at hunblocked
  cases hbar : p.barAt order.symbol with
  | none =>
    rw [hbar] at hunblocked
    cases hunblocked
  | some bar =>
    refine ⟨bar, rfl, ?_⟩
    by_contra hsuspended
    rw [hbar, Option.map_some] at hunblocked
    split at hunblocked
    next bar' price hbar' _ =>
      obtain rfl := Option.some.inj hbar'
      split at hunblocked
      · cases hunblocked
      · rw [if_pos (Bool.not_eq_false _ ▸ hsuspended)] at hunblocked
        cases hunblocked
    next => cases hunblocked

/-- The settled change is whole lots. -/
theorem settledOf_lots (cfg : BrokerConfig) (p : Portal) (b : Book) (order : OrderIntent)
    (z : Sizing) (fillPrice : ℚ) :
    ∃ n : ℕ, |(settledOf cfg p b order z fillPrice).1| = n * lotOf p order := by
  obtain ⟨hcapped, -⟩ := cappedDelta_spec order (p.openBarAt order.symbol) z
  unfold settledOf settledDelta
  split
  · exact hcapped
  · obtain ⟨feasible, -, heq⟩ := feasibleDelta_eq cfg (b.sized p)
      (cappedDelta order (p.openBarAt order.symbol) z) z.current.amount fillPrice z.equity
      (lotSize order.symbol (p.openBarAt order.symbol)) order.positionKey
    rw [heq]
    split
    · exact ⟨0, by rw [abs_zero, Nat.cast_zero, zero_mul]⟩
    · exact (roundToLot_spec (lotSize_pos ..) feasible).1

/-- On a fillable bar the settled change goes the order's way. -/
theorem settledOf_side_of_fillable (hforced : order.reason ≠ "margin_liquidation")
    (hbar : p.barAt order.symbol = some bar) (hfillable : bar.Fillable order.symbol)
    (hunmet : ¬ z.alreadyMet order)
    (hround : lotOf p order - amountEpsilon ≤ |roundToLot z.delta (lotOf p order)|)
    (hlots : lotOf p order - amountEpsilon ≤ |(settledOf cfg p b order z fillPrice).1|) :
    0 < (settledOf cfg p b order z fillPrice).1 * z.delta := by
  obtain ⟨hdust, hcap⟩ := hfillable
  have hlot : lotOf p order = bar.lotOf order.symbol := by
    unfold lotOf Bar.lotOf Portal.openBarAt
    rw [hbar, Option.map_some]
  have hopenBar : p.openBarAt order.symbol = some bar.toOpenBar := by
    unfold Portal.openBarAt
    rw [hbar, Option.map_some]
  rw [hlot] at hround hlots
  have hround0 : roundToLot z.delta (bar.lotOf order.symbol) ≠ 0 := by
    intro hzero
    rw [hzero, abs_zero] at hround
    linarith
  have hcapped : cappedDelta order (p.openBarAt order.symbol) z ≠ 0 := by
    rw [hopenBar]
    unfold cappedDelta capOf
    rw [if_neg hforced]
    dsimp only
    unfold Bar.lotOf at hround0 hcap
    split
    next c hc =>
      split
      · intro hzero
        have habs := abs_copysign c (roundToLot z.delta (lotSize order.symbol (some bar.toOpenBar)))
        rw [hzero, abs_zero] at habs
        rw [abs_eq_zero.mp habs.symm] at hc
        exact hcap hc
      · exact hround0
    next => exact hround0
  have hsettled : (settledOf cfg p b order z fillPrice).1 ≠ 0 := by
    intro hzero
    rw [hzero, abs_zero] at hlots
    linarith
  have hdelta : z.delta ≠ 0 := by
    intro hzero
    refine hunmet ?_
    unfold Sizing.alreadyMet
    rw [hzero, abs_zero]
    exact decide_eq_true (.inr (.inl (by norm_num [amountEpsilon])))
  exact lt_of_le_of_ne (settledOf_side (.inl hcapped)) (mul_ne_zero hsettled hdelta).symm

/-- A price the exit of a protection may ask for. -/
def ExitPriced (p : Portal) (order : OrderIntent) (price : ℚ) : Prop :=
  order.isLimit = false ∧ (∃ reason : ExitReason, order.reason = reason.name) ∧
    ∀ bar ∈ p.barAt order.symbol, bar.Ordered → bar.low ≤ price ∧ price ≤ bar.high

/-- **An execution** has its price from the bar. -/
theorem executed_priced {e : Execution} (hforced : order.reason ≠ "margin_liquidation")
    (hexit : ∀ price ∈ priceOverrides.get? order.symbol, ExitPriced p order price)
    (hsized : Sized cfg p priceOverrides b order openPrice z)
    (hquote : quoteOf cfg p order openPrice z = .fills fillPrice reference)
    (hround : lotOf p order - amountEpsilon ≤ |roundToLot z.delta (lotOf p order)|)
    (hlots : lotOf p order - amountEpsilon ≤ |(settledOf cfg p b order z fillPrice).1|)
    (hof : e.Of order timestamp (settledOf cfg p b order z fillPrice).1 fillPrice openPrice
      reference)
    (hbar : p.barAt order.symbol = some bar) (htrades : bar.suspended = false) :
    Priced cfg bar e := by
  have hopenBar : p.openBarAt order.symbol = some bar.toOpenBar := by
    unfold Portal.openBarAt
    rw [hbar, Option.map_some]
  have hlot : lotOf p order = bar.lotOf e.symbol := by
    unfold lotOf Bar.lotOf
    rw [hopenBar, hof.symbol]
  have hreference : openPrice = bar.openPrice ∨ ExitPriced p order openPrice := by
    have hopens := hsized.opens
    unfold openPriceOf at hopens
    cases hget : priceOverrides.get? order.symbol with
    | none =>
      rw [hget, Option.none_or, hopenBar, Option.map_some] at hopens
      exact .inl (Option.some.inj hopens).symm
    | some price =>
      rw [hget, Option.some_or] at hopens
      obtain rfl := Option.some.inj hopens
      exact .inr (hexit price hget)
  have hlots' : ∃ n : ℕ, |(settledOf cfg p b order z fillPrice).1| = n * lotOf p order :=
    settledOf_lots ..
  have hquote' : quote cfg order z.delta openPrice (some bar) = .fills fillPrice reference :=
    hbar ▸ hquote
  have hside : bar.Fillable e.symbol → 0 < (settledOf cfg p b order z fillPrice).1 * z.delta := by
    rw [hof.symbol]
    exact fun hfillable =>
      settledOf_side_of_fillable hforced hbar hfillable hsized.unmet hround hlots
  refine ⟨htrades, ?_, ?_, ?_, ?_, ?_, ?_⟩
  · rw [hof.referencePrice]
    exact openPrice_pos hforced hsized.unblocked hsized.opens
  · rw [hof.referencePrice, hof.orderType, hof.reason]
    rcases hreference with hopen | ⟨hmarket, hreason, hwithin⟩
    · exact .inl hopen
    · exact .inr ⟨if_neg (by rw [hmarket]; exact Bool.false_ne_true), hreason, hwithin bar hbar⟩
  · obtain ⟨n, hn⟩ := hlots'
    exact ⟨n, by rw [hof.quantity, hn, hlot]⟩
  · intro htype
    have hlimit : order.isLimit = true := by
      by_contra hmarket
      rw [hof.orderType, if_neg hmarket] at htype
      cases htype
    obtain ⟨hpositive, hprice, -⟩ := quote_limit hlimit hquote'
    rw [hof.limitPrice, if_pos hlimit, hof.price]
    refine ⟨hpositive, fun hordered => ?_⟩
    rcases hprice with ⟨-, rfl⟩ | ⟨-, -, hwithin⟩
    · rcases hreference with rfl | ⟨hmarket, -⟩
      · exact hordered
      · rw [hmarket] at hlimit
        cases hlimit
    · have hopen : openPrice = bar.openPrice := by
        rcases hreference with hopen | ⟨hmarket, -⟩
        · exact hopen
        · rw [hmarket] at hlimit
          cases hlimit
      rw [hopen] at hwithin
      rcases hwithin with ⟨hlow, hle⟩ | ⟨hge, hhigh⟩
      · exact ⟨hlow, hle.trans hordered.2⟩
      · exact ⟨hordered.1.trans hge, hhigh⟩
  · intro hfillable
    have hsame := hside hfillable
    unfold expectedPrice
    rw [hof.fillReference, hof.price, hof.limitPrice, hof.referencePrice, hof.side]
    by_cases hlimit : order.isLimit = true
    · obtain ⟨-, hprice, -⟩ := quote_limit hlimit hquote'
      rcases hprice with ⟨rfl, rfl⟩ | ⟨rfl, rfl, -⟩
      · rfl
      · exact (if_pos hlimit).symm
    · obtain ⟨rfl, hprice⟩ := quote_market (Bool.not_eq_true _ ▸ hlimit) hquote'
      dsimp only
      rcases pos_and_pos_or_neg_and_neg_of_mul_pos hsame with ⟨hd, hz⟩ | ⟨hd, hz⟩
      · rw [if_pos hd, if_pos rfl, hprice, if_pos hz]
      · rw [if_neg hd.not_gt, if_neg (fun h => by cases h), hprice, if_neg hz.not_gt]
  · intro hfillable htype
    have hsame := hside hfillable
    have hlimit : order.isLimit = true := by
      by_contra hmarket
      rw [hof.orderType, if_neg hmarket] at htype
      cases htype
    obtain ⟨-, -, hbuy, hsell⟩ := quote_limit hlimit hquote'
    rw [hof.limitPrice, if_pos hlimit, hof.price, hof.side]
    rcases pos_and_pos_or_neg_and_neg_of_mul_pos hsame with ⟨hd, hz⟩ | ⟨hd, hz⟩
    · rw [if_pos hd, if_pos rfl]
      exact hbuy hz
    · rw [if_neg hd.not_gt, if_neg fun h => by cases h]
      exact hsell hz

/-- **An attempt.** -/
theorem executeOrder_fair {frames : Frames}
    (hbars : ∀ symbol, p.barAt symbol = barOf frames symbol timestamp)
    (hexit : order.reason ≠ "margin_liquidation" →
      ∀ price ∈ priceOverrides.get? order.symbol, ExitPriced p order price)
    (h : executeOrder cfg p timestamp priceOverrides b order = some out)
    (hb : FairlyPriced cfg frames b) : FairlyPriced cfg frames out.book := by
  rcases executeOrder_executions h with
    hsame | ⟨openPrice, z, fillPrice, reference, e, hsized, hquote, hround, hlots, hof, hadded⟩
  · unfold FairlyPriced
    rwa [hsame]
  · intro e' he' hforced
    rw [hadded] at he'
    rcases List.mem_append.mp he' with he' | he'
    · exact hb e' he' hforced
    · obtain rfl := List.mem_singleton.mp he'
      rw [hof.reason] at hforced
      obtain ⟨bar, hbar, htrades⟩ := barAt_of_unblocked hforced hsized.unblocked
      refine ⟨bar, ?_, executed_priced hforced (hexit hforced) hsized hquote hround hlots hof hbar
        htrades⟩
      rw [hof.symbol, hof.time, ← hbars, hbar]

end

/-! ## The broker -/

namespace Broker

section
variable {cfg : BrokerConfig} {frames : Frames} {p : Portal} {timestamp : Time}
  {priceOverrides : Dict Instrument ℚ}

theorem executeOrders_fair {b : Book} {orders : List OrderIntent} {o : BatchOutcome}
    (hbars : ∀ symbol, p.barAt symbol = barOf frames symbol timestamp)
    (hexit : ∀ order ∈ orders, order.reason ≠ "margin_liquidation" →
      ∀ price ∈ priceOverrides.get? order.symbol, ExitPriced p order price)
    (h : executeOrders cfg p timestamp priceOverrides b orders = some o)
    (hb : FairlyPriced cfg frames b) : FairlyPriced cfg frames o.book := by
  induction orders generalizing b o with
  | nil =>
    obtain rfl := Option.some.inj h
    exact hb
  | cons order orders ih =>
    obtain ⟨out, hout, h⟩ := Option.bind_eq_some_iff.mp h
    obtain ⟨rest, hrest, rfl⟩ := Option.map_eq_some_iff.mp h
    have hhead := executeOrder_fair hbars (hexit order List.mem_cons_self) hout hb
    have htail : FairlyPriced cfg frames rest.book :=
      ih (fun order' horder => hexit order' (List.mem_cons_of_mem order horder)) hrest hhead
    exact htail

theorem execute_fair {b : Broker} {orders : List OrderIntent} {r : Broker × List OrderIntent}
    (hbars : ∀ symbol, p.barAt symbol = barOf frames symbol timestamp)
    (hexit : ∀ order ∈ orders, order.reason ≠ "margin_liquidation" →
      ∀ price ∈ priceOverrides.get? order.symbol, ExitPriced p order price)
    (h : b.execute cfg p timestamp priceOverrides orders = some r)
    (hb : FairlyPriced cfg frames b.book) : FairlyPriced cfg frames r.1.book := by
  unfold execute at h
  split at h
  · obtain rfl := Option.some.inj h
    exact hb
  · obtain ⟨out, hout, rfl⟩ := Option.map_eq_some_iff.mp h
    have hmark : FairlyPriced cfg frames (b.book.markToMarket p) := hb
    have hout' : FairlyPriced cfg frames out.book := executeOrders_fair hbars hexit hout hmark
    exact hout'

/-- What the strategy orders is priced at the bar. -/
theorem execute_fair_of_open {b : Broker} {orders : List OrderIntent}
    {r : Broker × List OrderIntent}
    (hbars : ∀ symbol, p.barAt symbol = barOf frames symbol timestamp)
    (h : b.execute cfg p timestamp {} orders = some r)
    (hb : FairlyPriced cfg frames b.book) : FairlyPriced cfg frames r.1.book := by
  refine execute_fair hbars (fun order _ _ price hprice => ?_) h hb
  cases hprice

/-- The price of an exit is within the bar. -/
theorem evaluateProtection_within {b : Broker} {key : PositionKey} {b' : Broker}
    {position : Position} {decision : ProtectionDecision}
    (h : b.evaluateProtection p timestamp key = (b', some (position, decision))) :
    ∀ bar ∈ p.barAt position.symbol, bar.Ordered →
      bar.low ≤ decision.price ∧ decision.price ≤ bar.high := by
  intro bar hbar hordered
  unfold evaluateProtection at h
  split at h
  · cases (Prod.mk.inj h).2
  · cases (Prod.mk.inj h).2
  next state position' _ _ =>
    split at h
    · cases (Prod.mk.inj h).2
    next bar' hbar' =>
      obtain ⟨e, he, hpair⟩ := Option.map_eq_some_iff.mp (Prod.mk.inj h).2
      obtain ⟨rfl, rfl⟩ := Prod.mk.inj hpair
      obtain rfl := Option.some.inj (hbar'.symm.trans hbar)
      have heval := evaluateBar_eq .conservative { state with entryPrice := position'.avgCost }
        ⟨timestamp, bar'.openPrice, bar'.high, bar'.low⟩
      dsimp only at heval
      rw [heval] at he
      split at he
      next decision hchoice =>
        obtain rfl := Option.some.inj he
        obtain ⟨hlow, hhigh⟩ := (exitsOn_of_choose hchoice).within
        unfold PriceBar.low at hlow
        unfold PriceBar.high at hhigh
        rw [min_eq_right hordered.1] at hlow
        rw [max_eq_right hordered.2] at hhigh
        exact ⟨hlow, hhigh⟩
      next => cases he

theorem processProtection_fair {b : Broker} {key : PositionKey}
    {r : Broker × List ProtectionDecision}
    (hbars : ∀ symbol, p.barAt symbol = barOf frames symbol timestamp)
    (h : b.processProtection cfg p timestamp key = some r)
    (hb : FairlyPriced cfg frames b.book) : FairlyPriced cfg frames r.1.book := by
  have hbook := evaluateProtection_book p timestamp b key
  unfold processProtection at h
  split at h
  next b' heq =>
    obtain rfl := Option.some.inj h
    rw [heq] at hbook
    rwa [hbook]
  next b' position decision heq =>
    have hwithin := evaluateProtection_within heq
    rw [heq] at hbook
    obtain ⟨e, he, rfl⟩ := Option.map_eq_some_iff.mp h
    have hexit : FairlyPriced cfg frames e.1.book := by
      refine execute_fair hbars (fun order horder _ price hprice => ?_) he (hbook ▸ hb)
      obtain rfl := List.mem_singleton.mp horder
      obtain rfl := Option.some.inj ((Dict.get?_set_self ..).symm.trans hprice)
      exact ⟨rfl, ⟨decision.reason, rfl⟩, hwithin⟩
    split
    · split
      · exact hexit
      · exact hexit
    · exact hexit

/-- **A liquidation** prices nothing else. -/
theorem liquidateIfInsolvent_fair {b : Broker} {r : Broker × Bool}
    (hbars : ∀ symbol, p.barAt symbol = barOf frames symbol timestamp)
    (h : b.liquidateIfInsolvent cfg p timestamp = some r)
    (hb : FairlyPriced cfg frames b.book) : FairlyPriced cfg frames r.1.book := by
  unfold liquidateIfInsolvent at h
  split at h
  · obtain rfl := Option.some.inj h
    exact hb
  · dsimp only at h
    split at h
    · obtain rfl := Option.some.inj h
      exact hb
    · split at h
      · cases h
      next b' _ hexecute =>
        obtain rfl := Option.some.inj h
        have hmark : FairlyPriced cfg frames (b.mark p).book := hb
        have hclosed : FairlyPriced cfg frames b'.book := by
          refine execute_fair hbars (fun order horder hforced => ?_) hexecute hmark
          obtain ⟨e, -, rfl⟩ := List.mem_map.mp horder
          exact absurd rfl hforced
        exact hclosed

end

end Broker

/-! ## Bars -/

section
variable {G : Type} {cfg : BrokerConfig} {prog : Program G} {frames : Frames} {p : Portal}
  {timestamp : Time} {r r' : Runner G}

theorem phaseRule_fair (hbars : ∀ symbol, p.barAt symbol = barOf frames symbol timestamp) :
    PhaseRule cfg p timestamp fun b b' =>
      FairlyPriced cfg frames b.book → FairlyPriced cfg frames b'.book where
  refl _ hb := hb
  trans h h' hb := h' (h hb)
  execute h hb := Broker.execute_fair_of_open hbars h hb
  exits h hb := Broker.processProtection_fair hbars h hb
  releases _ _ hb := hb

/-- **A bar.** -/
theorem Runner.bar_fair (h : r.bar cfg prog frames timestamp = some r')
    (hr : FairlyPriced cfg frames r.broker.book) : FairlyPriced cfg frames r'.broker.book := by
  unfold bar at h
  split at h
  · obtain rfl := Option.some.inj h
    exact hr
  · obtain ⟨o, ho, h⟩ := Option.bind_eq_some_iff.mp h
    have hopen := (phaseRule_fair fun _ => rfl).openPhase ho hr
    exact (phaseRule_fair fun _ => rfl).closePhase
      (Broker.liquidateIfInsolvent_fair fun _ => rfl) (fun _ hb => hb) h hopen

end

/-- **Every execution** of a run has its price from its own bar. -/
theorem executions_priced {G : Type} {cfg : BrokerConfig} {prog : Program G} {frames : Frames}
    {times : List Time} {r : Runner G}
    (hrun : Runs.run (Runner.bar cfg prog frames) (Runner.start cfg prog) times = some r) :
    FairlyPriced cfg frames r.broker.book :=
  Runs.run_invariant (fun _ _ _ hs hbar => Runner.bar_fair hbar hs)
    (fun _ he => absurd he List.not_mem_nil) hrun

/-! ## A limit in a falling bar -/

def dipBar (low : ℚ) : Bar where
  openPrice := 100
  volume := 1000000
  high := 100
  low := low
  close := 100

/-- The second bar falls below the limit. -/
def dipHistory : Frames where
  entries := [(⟨"Crypto", "BTC/USDT"⟩, ⟨[(0, dipBar 100), (1, dipBar 90)], by decide⟩)]

def limitBuyer : Program Unit where
  init := ()
  beforeTradingStart _ s := some (s, [])
  schedules := []
  onRebalance _ s := some (s, [])
  handleData _ s :=
    some (s, [.order { symbol := ⟨"Crypto", "BTC/USDT"⟩, kind := .targetQuantity, value := 1,
                       orderType := .limit, limitPrice := some 95 }])
  afterTradingEnd _ s := some (s, [])

theorem executions_priced_limitBuyer :
    ∃ r, Runs.run (Runner.bar (.unlevered 10000) limitBuyer dipHistory)
        (Runner.start (.unlevered 10000) limitBuyer) [0, 1] = some r ∧
      r.broker.book.executions.map Execution.price = [95] ∧
      FairlyPriced (.unlevered 10000) dipHistory r.broker.book := by
  obtain ⟨r, hr, hprice⟩ := Runs.exists_of_any
    (p := fun r : Runner Unit => r.broker.book.executions.map Execution.price = [95])
    (show (Runs.run (Runner.bar (.unlevered 10000) limitBuyer dipHistory)
      (Runner.start (.unlevered 10000) limitBuyer) [0, 1]).any _ = true by decide +kernel)
  exact ⟨r, hr, hprice, executions_priced hr⟩

end AlgoTrade.Backtest
