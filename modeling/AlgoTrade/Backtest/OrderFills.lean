import AlgoTrade.Backtest.IncrementalOrders
import AlgoTrade.Backtest.LedgerConservation
import AlgoTrade.Backtest.OrderLedger

/-! # What orders fill

The fills of an order against its position, the ledger and its status.

* `Book.filledOf`: what the ledger says was filled under an id.
* `BatchClean`: no fill goes against its order, and none leaves dust.
* `executeOrder_worked`: an attempt moves its position by what it tells.
* `performAll_filledQuantity`: requests leave what the statuses say was filled. -/

namespace AlgoTrade.Backtest

/-! ## Fills in the ledger -/

/-- What the ledger says was filled under an id. -/
def Book.filledOf (b : Book) (reference : ClientRef) : ℚ := filledIn reference b.told

/-- Rows of one order. -/
theorem filledIn_own {own : Option ClientRef} {rows : List Telling}
    (h : ∀ row ∈ rows, row.reference = own) (reference : ClientRef) :
    filledIn reference rows =
      if own = some reference then (rows.map Telling.quantity).sum else 0 := by
  unfold filledIn
  induction rows with
  | nil => rw [List.map_nil, List.map_nil, List.sum_nil, ite_self]
  | cons row rows ih =>
    rw [List.map_cons, List.sum_cons, ih fun row' hrow => h row' (List.mem_cons_of_mem row hrow),
      h row List.mem_cons_self, List.map_cons, List.sum_cons]
    split
    · rfl
    · exact add_zero 0

theorem Book.filledOf_of_told {b b' : Book} {rows : List Telling} (h : b'.told = b.told ++ rows)
    (reference : ClientRef) :
    b'.filledOf reference = b.filledOf reference + filledIn reference rows := by
  unfold filledOf
  rw [h, filledIn_append]

/-! ## One attempt -/

/-- What is left of an order. -/
structure OrderIntent.Remains (order o : OrderIntent) : Prop where
  symbol : o.symbol = order.symbol
  positionSide : o.positionSide = order.positionSide
  kind : o.kind = order.kind
  reason : o.reason = order.reason
  protection : o.protection = order.protection
  clientOrderId : o.clientOrderId = order.clientOrderId
  isLimit : o.isLimit = order.isLimit
  buys : 0 ≤ order.value → 0 ≤ o.value
  sells : order.value ≤ 0 → o.value ≤ 0

/-- A fill that is about to happen goes the order's way, and leaves no dust. -/
structure FillClean (cfg : BrokerConfig) (p : Portal) (b : Book) (order : OrderIntent) (z : Sizing)
    (fillPrice : ℚ) : Prop where
  side : cappedDelta order (p.openBarAt order.symbol) z ≠ 0 ∨
    ¬ SettledEnlarged cfg p b order z fillPrice
  flat : |z.current.amount + (settledOf cfg p b order z fillPrice).1| ≤ amountEpsilon →
    z.current.amount + (settledOf cfg p b order z fillPrice).1 = 0

instance (cfg : BrokerConfig) (p : Portal) (b : Book) (order : OrderIntent) (z : Sizing)
    (fillPrice : ℚ) : Decidable (FillClean cfg p b order z fillPrice) :=
  decidable_of_iff (_ ∧ _) ⟨fun h => ⟨h.1, h.2⟩, fun h => ⟨h.side, h.flat⟩⟩

/-- An attempt that gets as far as a fill is clean there. -/
def OrderClean (cfg : BrokerConfig) (p : Portal) (b : Book) (order : OrderIntent) : Prop :=
  blockedReason cfg p {} b.nextOrder order = none →
    ∀ openPrice ∈ openPriceOf p {} order,
      ∀ z ∈ sizeOrder cfg (b.sized p) order openPrice, ¬ z.alreadyMet order →
        ∀ fillPrice ∈ (quoteOf cfg p order openPrice z).price?,
          lotOf p order - amountEpsilon ≤ |(settledOf cfg p b order z fillPrice).1| →
            FillClean cfg p b order z fillPrice

instance (cfg : BrokerConfig) (p : Portal) (b : Book) (order : OrderIntent) :
    Decidable (OrderClean cfg p b order) :=
  inferInstanceAs (Decidable (_ → ∀ openPrice ∈ openPriceOf p {} order, _))

def BatchClean (cfg : BrokerConfig) (p : Portal) (timestamp : Time) : Book → List OrderIntent → Prop
  | _, [] => True
  | b, order :: orders => OrderClean cfg p b order ∧
    ∀ out ∈ executeOrder cfg p timestamp {} b order, BatchClean cfg p timestamp out.book orders

instance decidableBatchClean (cfg : BrokerConfig) (p : Portal) (timestamp : Time) :
    ∀ b orders, Decidable (BatchClean cfg p timestamp b orders)
  | _, [] => inferInstanceAs (Decidable True)
  | b, order :: orders =>
    have : ∀ out : Outcome, Decidable (BatchClean cfg p timestamp out.book orders) :=
      fun _ => decidableBatchClean ..
    inferInstanceAs (Decidable (OrderClean cfg p b order ∧
      ∀ out ∈ executeOrder cfg p timestamp {} b order, _))

/-- What an attempt that fills `delta` does to the positions and to the order. -/
structure Worked (b : Book) (order : OrderIntent) (out : Outcome) (delta : ℚ) : Prop where
  amount : out.book.amountOf order.positionKey = b.amountOf order.positionKey + delta
  others : ∀ key, order.positionKey ≠ key → out.book.amountOf key = b.amountOf key
  buys : 0 < delta → 0 < order.value
  sells : delta < 0 → order.value < 0
  remains : ∀ o ∈ out.deferred, order.Remains o ∧
    (order.kind = .quantity → |o.value| + |delta| = |order.value|)

section
variable {cfg : BrokerConfig} {p : Portal} {timestamp : Time} {b : Book} {order : OrderIntent}
  {out : Outcome}

theorem Worked.unfilled (hamount : ∀ key, out.book.amountOf key = b.amountOf key)
    (hremains : ∀ o ∈ out.deferred, order.Remains o ∧ o.value = order.value) :
    Worked b order out 0 := by
  refine ⟨by rw [hamount, add_zero], fun key _ => hamount key, fun h => absurd h (lt_irrefl 0),
    fun h => absurd h (lt_irrefl 0), ?_⟩
  intro o ho
  obtain ⟨hremains, hvalue⟩ := hremains o ho
  exact ⟨hremains, fun _ => by rw [hvalue, abs_zero, add_zero]⟩

theorem OrderIntent.Remains.refl (order : OrderIntent) : order.Remains order :=
  ⟨rfl, rfl, rfl, rfl, rfl, rfl, rfl, id, id⟩

theorem blockOrder_worked (timestamp : Time) (b : Book) (order : OrderIntent) (orderId : OrderId)
    (reason : StatusReason) :
    Worked b order (blockOrder timestamp b order orderId reason) 0 := by
  unfold blockOrder
  split
  · exact .unfilled (fun _ => rfl) fun o ho => (by cases ho)
  · refine .unfilled (fun _ => rfl) fun o ho => ?_
    obtain rfl := Option.some.inj ho
    exact ⟨⟨rfl, rfl, rfl, rfl, rfl, rfl, rfl, id, id⟩, rfl⟩

theorem sizeOrder_current {openPrice : ℚ} {z : Sizing}
    (hz : sizeOrder cfg b order openPrice = some z) : z.current = b.positionOf order := by
  obtain ⟨targetQty, -, rfl⟩ := Option.map_eq_some_iff.mp hz
  rfl

theorem amountOf_sized (b : Book) (p : Portal) (key : PositionKey) :
    (b.sized p).amountOf key = b.amountOf key :=
  amountOf_markToMarket b.nextOrder p key

/-- An order asks for a change on its own side. -/
theorem sizeOrder_side {openPrice : ℚ} {z : Sizing} (hkind : order.kind.isIncremental)
    (hopen : 0 < openPrice) (hz : sizeOrder cfg b order openPrice = some z) :
    ∃ unit : ℚ, 0 < unit ∧ z.delta = order.value * unit := by
  rcases hkind with hkind | hkind
  · exact ⟨1, zero_lt_one, by rw [sizeOrder_quantity hz hkind, mul_one]⟩
  · have hprice : 0 < z.sizingPrice := by
      rw [sizeOrder_sizingPrice hz]
      split
      next h => exact h.2
      next => exact hopen
    exact ⟨cfg.leverage / z.sizingPrice, div_pos (leverage_pos cfg) hprice, by
      rw [sizeOrder_value hz hkind, mul_div_assoc]⟩

/-- What a fill leaves for another bar is not nothing. -/
theorem fillOrder_deferred {orderId : OrderId} {openPrice : ℚ} {z : Sizing}
    {delta fillPrice lot : ℚ} {reference : FillReference} {cap : Option ℚ}
    {constraint : Option StatusReason} {o : OrderIntent}
    (ho : (fillOrder cfg timestamp b order orderId openPrice z delta fillPrice lot reference cap
      constraint).deferred = some o) :
    o = remainder order z.delta delta z.sizingPrice ∧ |delta| < |z.delta| := by
  unfold fillOrder at ho
  dsimp only at ho
  split at ho
  next h =>
    refine ⟨(Option.some.inj ho).symm, ?_⟩
    by_contra hle
    have hnone : max 0 (|z.delta| - |delta|) = 0 := max_eq_left (by linarith)
    have hnotional := h.1.2
    rw [hnone, zero_mul, zero_add] at hnotional
    unfold amountEpsilon at hnotional
    norm_num at hnotional
  next => cases ho

theorem remainder_remains {z : Sizing} {delta unit : ℚ} (hunit : 0 < unit)
    (hdelta : z.delta = order.value * unit) (hne : z.delta ≠ 0) :
    order.Remains (remainder order z.delta delta z.sizingPrice) := by
  have hside : ∀ x : ℚ, (0 ≤ order.value → 0 ≤ copysign x z.delta) ∧
      (order.value ≤ 0 → copysign x z.delta ≤ 0) := by
    intro x
    unfold copysign
    rw [hdelta] at hne ⊢
    constructor
    · intro hvalue
      rw [if_neg (not_lt.mpr (mul_nonneg hvalue hunit.le))]
      exact abs_nonneg x
    · intro hvalue
      have hneg := lt_of_le_of_ne (mul_nonpos_of_nonpos_of_nonneg hvalue hunit.le) hne
      rw [if_pos hneg]
      exact neg_nonpos.mpr (abs_nonneg x)
  unfold remainder
  dsimp only
  split
  · exact ⟨rfl, rfl, rfl, rfl, rfl, rfl, rfl, (hside _).1, (hside _).2⟩
  · exact ⟨rfl, rfl, rfl, rfl, rfl, rfl, rfl, (hside _).1, (hside _).2⟩
  · exact ⟨rfl, rfl, rfl, rfl, rfl, rfl, rfl, id, id⟩

theorem fillOrder_worked {openPrice : ℚ} {z : Sizing} {delta : ℚ}
    (hkind : order.kind.isIncremental) (hopen : 0 < openPrice)
    (hz : sizeOrder cfg b order openPrice = some z) (hmet : ¬ z.alreadyMet order)
    (hside : 0 ≤ delta * z.delta)
    (hflat : |z.current.amount + delta| ≤ amountEpsilon → z.current.amount + delta = 0)
    (timestamp : Time) (orderId : OrderId) (fillPrice lot : ℚ) (reference : FillReference)
    (cap : Option ℚ) (constraint : Option StatusReason) :
    Worked b order (fillOrder cfg timestamp b order orderId openPrice z delta fillPrice lot
      reference cap constraint) delta := by
  obtain ⟨unit, hunit, hdelta⟩ := sizeOrder_side hkind hopen hz
  have hcurrent : z.current.amount = b.amountOf order.positionKey := by
    rw [sizeOrder_current hz, amountOf_positionOf]
  have hne : z.delta ≠ 0 := by
    intro hzero
    refine hmet ?_
    unfold Sizing.alreadyMet
    rw [hzero, abs_zero]
    exact decide_eq_true (.inr (.inl (by unfold amountEpsilon; norm_num)))
  obtain ⟨e, -, -, -, -, -, haccounts⟩ := fillOrder_spec cfg timestamp b order orderId openPrice z
    delta fillPrice lot reference cap constraint
  have hpositions := congrArg Accounts.positions haccounts
  refine ⟨?_, fun key hkey => ?_, fun hpos => ?_, fun hneg => ?_, fun o ho => ?_⟩
  · unfold Book.amountOf
    rw [show (fillOrder cfg timestamp b order orderId openPrice z delta fillPrice lot reference cap
      constraint).book.positions = _ from hpositions]
    rw [← Book.amountOf, ← hcurrent]
    dsimp only
    split
    next hle =>
      rw [Dict.get?_pop, if_pos rfl]
      exact (hflat hle).symm
    next =>
      rw [Dict.get?_set_self]
      rfl
  · unfold Book.amountOf
    rw [show (fillOrder cfg timestamp b order orderId openPrice z delta fillPrice lot reference cap
      constraint).book.positions = _ from hpositions]
    dsimp only
    split
    · rw [Dict.get?_pop, if_neg hkey]
    · rw [Dict.get?_set, if_neg hkey]
  · have hz := lt_of_le_of_ne (nonneg_of_mul_nonneg_right hside hpos) hne.symm
    rw [hdelta] at hz
    exact pos_of_mul_pos_left hz hunit.le
  · have hz := lt_of_le_of_ne (nonpos_of_mul_nonneg_right hside hneg) hne
    rw [hdelta] at hz
    exact neg_of_mul_neg_left hz hunit.le
  · obtain ⟨rfl, hlt⟩ := fillOrder_deferred ho
    refine ⟨remainder_remains hunit hdelta hne, fun hquantity => ?_⟩
    have hvalue : (remainder order z.delta delta z.sizingPrice).value =
        copysign (max 0 (|z.delta| - |delta|)) z.delta := by
      unfold remainder
      rw [hquantity]
    rw [hvalue, abs_copysign, max_eq_right (sub_nonneg.mpr hlt.le),
      abs_of_nonneg (sub_nonneg.mpr hlt.le), sub_add_cancel, sizeOrder_quantity hz hquantity]

/-- **An attempt** moves its position by what it tells. -/
theorem executeOrder_worked (hkind : order.kind.isIncremental)
    (hforced : order.reason ≠ "margin_liquidation") (hclean : OrderClean cfg p b order)
    (h : executeOrder cfg p timestamp {} b order = some out) :
    ∃ rows delta, Attempted b order out rows ∧ (rows.map Telling.quantity).sum = |delta| ∧
      Worked b order out delta := by
  cases executeOrder_tried h with
  | blocked reason =>
    obtain ⟨row, hrow, hnone⟩ :=
      blockOrder_told timestamp b.nextOrder order (orderIdAt b timestamp) reason
    obtain ⟨hamount, hothers, hbuys, hsells, hremains⟩ :=
      blockOrder_worked timestamp b.nextOrder order (orderIdAt b timestamp) reason
    refine ⟨_, 0, hrow.congr rfl rfl rfl rfl rfl, ?_, hamount, hothers, hbuys, hsells, hremains⟩
    rw [List.map_singleton, List.sum_singleton, hnone, abs_zero]
  | rejected reason requested =>
    obtain ⟨row, hrow, hnone⟩ :=
      rejectOrder_told timestamp (b.sized p) order (orderIdAt b timestamp) reason requested
    refine ⟨_, 0, hrow.congr rfl rfl rfl rfl rfl, ?_,
      .unfilled (amountOf_sized b p) fun o ho => (by cases ho)⟩
    rw [List.map_singleton, List.sum_singleton, hnone, abs_zero]
  | resting openPrice z hsized =>
    obtain ⟨rows, hrows, hnone⟩ : ∃ rows, Attempted (b.sized p) order _ rows ∧ _ := Attempted.rest
      { orderEvent (orderIdAt b timestamp) order timestamp .deferred .limitNotReached with
        requestedQuantity := |z.delta|
        price := order.limitPrice } order none rfl rfl rfl
    refine ⟨rows, 0, hrows.congr rfl rfl rfl rfl rfl, hnone.trans abs_zero.symm, .unfilled ?_ ?_⟩
    · intro key
      have hpositions := congrArg Accounts.positions (Book.appendRestingEvent_accounts (b.sized p)
        { orderEvent (orderIdAt b timestamp) order timestamp .deferred .limitNotReached with
          requestedQuantity := |z.delta|
          price := order.limitPrice })
      rw [← amountOf_sized b p key]
      exact congrArg (fun positions : Dict PositionKey Position =>
        ((positions.get? key).map Position.amount).getD 0) hpositions
    · intro o ho
      obtain rfl := Option.some.inj ho
      exact ⟨.refl _, rfl⟩
  | filled openPrice z fillPrice reference hsized hquote hlots =>
    obtain ⟨row, hrow, hquantity⟩ := fillOrder_told cfg timestamp (b.sized p) order
      (orderIdAt b timestamp) openPrice z (settledOf cfg p b order z fillPrice).1 fillPrice
      (lotOf p order) reference (capOf order (p.openBarAt order.symbol))
      (settledOf cfg p b order z fillPrice).2
    obtain ⟨hside, hflat⟩ := hclean hsized.unblocked openPrice hsized.opens z hsized.sized
      hsized.unmet fillPrice (by rw [hquote]; rfl) hlots
    obtain ⟨hamount, hothers, hbuys, hsells, hremains⟩ := fillOrder_worked hkind
      (openPrice_pos hforced hsized.unblocked hsized.opens) hsized.sized hsized.unmet
      (settledOf_side hside) hflat timestamp (orderIdAt b timestamp) fillPrice (lotOf p order)
      reference (capOf order (p.openBarAt order.symbol)) (settledOf cfg p b order z fillPrice).2
    refine ⟨_, (settledOf cfg p b order z fillPrice).1, hrow.congr rfl rfl rfl rfl rfl, ?_, ?_, ?_,
      hbuys, hsells, hremains⟩
    · rw [List.map_singleton, List.sum_singleton, hquantity]
    · rw [← amountOf_sized b p]
      exact hamount
    · intro key hkey
      rw [← amountOf_sized b p]
      exact hothers key hkey

theorem Attempted.filledOf {rows : List Telling} (h : Attempted b order out rows)
    (reference : ClientRef) : out.book.filledOf reference = b.filledOf reference +
      if order.clientOrderId.bind ClientRef.stripped = some reference then
        (rows.map Telling.quantity).sum else 0 := by
  rw [Book.filledOf_of_told h.told, filledIn_own h.own]

end

/-! ## Statuses -/

section
variable {G : Type}

/-- Requests leave what the statuses say was filled. -/
theorem perform_filledQuantity {symbols : List Instrument} {currentDt : Time} {c c' : Context}
    {r : Request} (h : c.perform symbols currentDt r = some c') (reference : ClientRef) :
    ((c'.orderStatuses.get? reference).getD {}).filledQuantity =
      ((c.orderStatuses.get? reference).getD {}).filledQuantity := by
  cases r with
  | order r =>
    obtain ⟨order, -, rfl⟩ := Context.queue_spec h
    dsimp only
    split
    · rfl
    next hnone =>
      rw [Dict.get?_set]
      split
      next heq =>
        rw [← heq, hnone]
        rfl
      · rfl
  | cancelOrder reference' =>
    obtain rfl := Option.some.inj h
    unfold Context.cancelOrder
    split
    · rfl
    · dsimp only
      rw [Dict.get?_set]
      split
      next heq =>
        rw [heq]
        rfl
      · rfl
  | setDefaultProtection values =>
    obtain rfl := Option.some.inj h
    rfl
  | consumeLastExitReason symbol =>
    obtain rfl := Option.some.inj h
    rfl

theorem performAll_filledQuantity {symbols : List Instrument} {currentDt : Time} {c c' : Context}
    {rs : List Request} (h : c.performAll symbols currentDt rs = some c') (reference : ClientRef) :
    ((c'.orderStatuses.get? reference).getD {}).filledQuantity =
      ((c.orderStatuses.get? reference).getD {}).filledQuantity := by
  induction rs generalizing c with
  | nil =>
    obtain rfl := Option.some.inj h
    rfl
  | cons r rs ih =>
    unfold Context.performAll at h
    split at h
    · cases h
    next c₁ hc₁ => exact (ih h).trans (perform_filledQuantity hc₁ reference)

end

end AlgoTrade.Backtest
