import AlgoTrade.Backtest.DeskRuns
import AlgoTrade.Backtest.OrderFills

/-! # Working orders

Orders that each work one leg, to one side, under an id of their own.

* `Working`: such an order; `movedBy`: what the rows of such orders move.
* `executeOrders_moved`: a batch moves each leg by what it tells of the orders on it.
* `executePending_moved`: the same of the pending orders of a bar. -/

namespace AlgoTrade.Backtest

/-! ## Orders -/

/-- 1 for a buy. -/
def TradeSide.sign : TradeSide → ℚ
  | .buy => 1
  | .sell => -1

/-- An id, and the leg and the side its order works. -/
structure Work where
  reference : ClientRef
  key : PositionKey
  side : TradeSide
  deriving DecidableEq

/-- An order of this work; no bracket comes with it. -/
structure Working (w : Work) (order : OrderIntent) : Prop where
  clientOrderId : order.clientOrderId = some w.reference
  stripped : w.reference.stripped = some w.reference
  key : order.positionKey = w.key
  kind : order.kind.isIncremental
  reason : order.reason ≠ "margin_liquidation"
  protection : order.protection = none
  value : 0 ≤ w.side.sign * order.value

/-- What fills under these ids move a leg by. -/
def movedBy (works : List Work) (filled : ClientRef → ℚ) (key : PositionKey) : ℚ :=
  (works.map fun w => if w.key = key then w.side.sign * filled w.reference else 0).sum

theorem movedBy_congr {works : List Work} {filled filled' : ClientRef → ℚ}
    (h : ∀ w ∈ works, filled w.reference = filled' w.reference) (key : PositionKey) :
    movedBy works filled key = movedBy works filled' key := by
  unfold movedBy
  refine congrArg List.sum (List.map_congr_left fun w hw => ?_)
  rw [h w hw]

theorem Working.remains {w : Work} {order o : OrderIntent} (h : Working w order)
    (ho : order.Remains o) : Working w o := by
  refine ⟨ho.clientOrderId.trans h.clientOrderId, h.stripped, ?_, ho.kind ▸ h.kind,
    ho.reason ▸ h.reason, ho.protection.trans h.protection, ?_⟩
  · rw [← h.key]
    unfold OrderIntent.positionKey
    rw [ho.symbol, ho.positionSide]
  · have hvalue := h.value
    cases hside : w.side with
    | buy =>
      rw [hside, TradeSide.sign, one_mul] at hvalue
      rw [TradeSide.sign, one_mul]
      exact ho.buys hvalue
    | sell =>
      rw [hside, TradeSide.sign, neg_one_mul] at hvalue
      rw [TradeSide.sign, neg_one_mul]
      exact neg_nonneg.mpr (ho.sells (neg_nonneg.mp hvalue))

/-- A working order fills to its side. -/
theorem Working.sign_mul {w : Work} {b : Book} {order : OrderIntent} {out : Outcome} {delta : ℚ}
    (h : Working w order) (hworked : Worked b order out delta) : w.side.sign * |delta| = delta := by
  have hvalue := h.value
  rcases lt_trichotomy delta 0 with hneg | rfl | hpos
  · have hsells := hworked.sells hneg
    cases hside : w.side with
    | buy =>
      rw [hside, TradeSide.sign, one_mul] at hvalue
      exact absurd hvalue (not_le.mpr hsells)
    | sell => rw [TradeSide.sign, neg_one_mul, abs_of_neg hneg, neg_neg]
  · rw [abs_zero, mul_zero]
  · have hbuys := hworked.buys hpos
    cases hside : w.side with
    | buy => rw [TradeSide.sign, one_mul, abs_of_pos hpos]
    | sell =>
      rw [hside, TradeSide.sign, neg_one_mul] at hvalue
      exact absurd (neg_nonneg.mp hvalue) (not_le.mpr hbuys)

/-! ## Batches -/

theorem filledIn_of_ne {reference : ClientRef} {rows : List Telling}
    (h : ∀ row ∈ rows, row.reference ≠ some reference) : filledIn reference rows = 0 := by
  unfold filledIn
  refine List.sum_eq_zero fun q hq => ?_
  obtain ⟨row, hrow, rfl⟩ := List.mem_map.mp hq
  exact if_neg (h row hrow)

/-- The status of an order that goes on waiting. -/
def OrderState.waits : OrderState → Bool
  | .event status => status.isOpen
  | _ => false

/-- What a batch does; `rows` are the rows it adds, and `left` is the work that goes on. -/
structure BatchMoved (b : Book) (works : List Work) (out : BatchOutcome) (rows : List Telling)
    (left : List Work) : Prop where
  told : out.book.told = b.told ++ rows
  own : ∀ row ∈ rows, ∃ w ∈ works, row.reference = some w.reference
  amount : ∀ key,
    out.book.amountOf key = b.amountOf key + movedBy works (filledIn · rows) key
  sublist : left.Sublist works
  working : List.Forall₂ Working left out.deferred
  plain : ∀ e ∈ out.fills, e.1.protection = none
  rests : ∀ reference, (out.book.restingDeferredEvents.get? reference).isSome = true →
    (b.restingDeferredEvents.get? reference).isSome = true ∧
        (∀ w ∈ works, w.reference ≠ reference) ∨
      ∃ w ∈ left, w.reference = reference
  waits : ∀ w ∈ left, ∀ state : OrderState,
    ((b.restingDeferredEvents.get? w.reference).isSome = true → state.waits = true) →
      (statusAfter w.reference state rows).waits = true

section
variable {cfg : BrokerConfig} {p : Portal} {timestamp : Time} {b : Book}

/-- The status after an attempt whose order is kept. -/
theorem Attempted.waiting {w : Work} {order : OrderIntent} {out : Outcome} {rows : List Telling}
    (h : Attempted b order out rows)
    (hown : order.clientOrderId.bind ClientRef.stripped = some w.reference) {state : OrderState}
    (hstate : (b.restingDeferredEvents.get? w.reference).isSome = true → state.waits = true)
    (hkept : out.deferred.isSome = true) : (statusAfter w.reference state rows).waits = true := by
  rcases h.outcome with ⟨rfl, -, reference, hreference, hrests⟩ | ⟨row, rfl, hstatus, -⟩
  · obtain rfl := Option.some.inj (hown.symm.trans hreference)
    exact hstate hrests
  · have hrow := (h.own row (List.mem_singleton.mpr rfl)).trans hown
    rw [statusAfter_singleton state hrow]
    exact hstatus hkept

/-- **A batch.** -/
theorem executeOrders_moved {works : List Work} {orders : List OrderIntent} {out : BatchOutcome}
    (hworking : List.Forall₂ Working works orders) (hdistinct : (works.map Work.reference).Nodup)
    (hclean : BatchClean cfg p timestamp b orders)
    (h : executeOrders cfg p timestamp {} b orders = some out) :
    ∃ rows left, BatchMoved b works out rows left := by
  induction hworking generalizing b out with
  | nil =>
    obtain rfl := Option.some.inj h
    refine ⟨[], [], (List.append_nil _).symm, fun row hrow => (by cases hrow), fun key => ?_,
      List.Sublist.refl _, .nil, fun e he => (by cases he),
      fun reference hrests => .inl ⟨hrests, fun w hw => (by cases hw)⟩, fun w hw => (by cases hw)⟩
    exact (add_zero _).symm
  | @cons w order works orders hfirst _ ih =>
    obtain ⟨first, hout, h⟩ := Option.bind_eq_some_iff.mp h
    obtain ⟨rest, hrest, rfl⟩ := Option.map_eq_some_iff.mp h
    obtain ⟨hnew, hdistinct⟩ := List.nodup_cons.mp hdistinct
    obtain ⟨hclean₁, hclean₂⟩ := hclean
    obtain ⟨rows, delta, hrows, hsum, hworked⟩ :=
      executeOrder_worked hfirst.kind hfirst.reason hclean₁ hout
    obtain ⟨rows', left, hmoved⟩ := ih hdistinct (hclean₂ first hout) hrest
    have hown : order.clientOrderId.bind ClientRef.stripped = some w.reference := by
      rw [hfirst.clientOrderId, Option.bind_some, hfirst.stripped]
    have hapart : ∀ w' ∈ works, w.reference ≠ w'.reference := fun w' hw' heq =>
      hnew (heq ▸ List.mem_map_of_mem hw')
    have hlater : ∀ row ∈ rows', row.reference ≠ some w.reference := by
      intro row hrow heq
      obtain ⟨w', hw', hrow⟩ := hmoved.own row hrow
      exact hapart w' hw' (Option.some.inj (heq.symm.trans hrow))
    have hearlier : ∀ w' ∈ works, ∀ row ∈ rows, row.reference ≠ some w'.reference := by
      intro w' hw' row hrow heq
      rw [hrows.own row hrow, hown] at heq
      exact hapart w' hw' (Option.some.inj heq)
    have hothers : ∀ reference, w.reference ≠ reference →
        first.book.restingDeferredEvents.get? reference = b.restingDeferredEvents.get? reference :=
      fun reference hne => hrows.others reference (by
        rw [hown]
        exact fun heq => hne (Option.some.inj heq))
    -- the work of the order goes on when some of it is kept
    have hkept : ∀ w', w' ∈ (first.deferred.map fun _ => w).toList ++ left ↔
        (first.deferred.isSome = true ∧ w' = w) ∨ w' ∈ left := by
      intro w'
      cases first.deferred with
      | none => simp
      | some o => simp
    refine ⟨rows ++ rows', (first.deferred.map fun _ => w).toList ++ left, ?_, ?_, ?_, ?_, ?_, ?_,
      ?_, ?_⟩
    · show rest.book.told = _
      rw [hmoved.told, hrows.told, List.append_assoc]
    · intro row hrow
      rcases List.mem_append.mp hrow with hrow | hrow
      · exact ⟨w, List.mem_cons_self, (hrows.own row hrow).trans hown⟩
      · obtain ⟨w', hw', hrow⟩ := hmoved.own row hrow
        exact ⟨w', List.mem_cons_of_mem w hw', hrow⟩
    · intro key
      have hhead : filledIn w.reference (rows ++ rows') = |delta| := by
        rw [filledIn_append, filledIn_of_ne hlater, add_zero, filledIn_own hrows.own, if_pos hown,
          hsum]
      have htail : movedBy works (filledIn · (rows ++ rows')) key =
          movedBy works (filledIn · rows') key := movedBy_congr (fun w' hw' => by
        rw [filledIn_append, filledIn_of_ne (hearlier w' hw'), zero_add]) key
      have hfirstMoved : first.book.amountOf key =
          b.amountOf key + if w.key = key then delta else 0 := by
        by_cases hkey : w.key = key
        · rw [if_pos hkey, ← hkey, ← hfirst.key]
          exact hworked.amount
        · rw [if_neg hkey, add_zero]
          exact hworked.others key (hfirst.key ▸ hkey)
      show rest.book.amountOf key = b.amountOf key +
        ((if w.key = key then w.side.sign * filledIn w.reference (rows ++ rows') else 0) +
          movedBy works (filledIn · (rows ++ rows')) key)
      rw [hmoved.amount, hfirstMoved, htail, hhead, hfirst.sign_mul hworked, add_assoc]
    · cases first.deferred with
      | none => exact hmoved.sublist.cons w
      | some o => exact hmoved.sublist.cons_cons w
    · show List.Forall₂ Working _ (first.deferred.toList ++ rest.deferred)
      cases hdeferred : first.deferred with
      | none => exact hmoved.working
      | some o => exact .cons (hfirst.remains (hworked.remains o hdeferred).1) hmoved.working
    · intro e he
      rcases List.mem_append.mp he with he | he
      · obtain ⟨fill, -, rfl⟩ := Option.map_eq_some_iff.mp (Option.mem_toList.mp he)
        exact hfirst.protection
      · exact hmoved.plain e he
    · intro reference hrests
      rcases hmoved.rests reference hrests with ⟨hrests, hne⟩ | ⟨w', hw', heq⟩
      · by_cases heq : w.reference = reference
        · subst heq
          exact .inr ⟨w, (hkept w).mpr (.inl ⟨hrows.rests w.reference hown hrests, rfl⟩), rfl⟩
        · rw [hothers reference heq] at hrests
          refine .inl ⟨hrests, fun w' hw' => ?_⟩
          rcases List.mem_cons.mp hw' with rfl | hw'
          · exact heq
          · exact hne w' hw'
      · exact .inr ⟨w', (hkept w').mpr (.inr hw'), heq⟩
    · intro w' hw' state hstate
      rw [statusAfter_append]
      rcases (hkept w').mp hw' with ⟨hsome, rfl⟩ | hw'
      · rw [statusAfter_of_ne hlater]
        exact hrows.waiting hown hstate hsome
      · have hmem := hmoved.sublist.subset hw'
        rw [statusAfter_of_ne (hearlier w' hmem)]
        refine hmoved.waits w' hw' state fun hrests => hstate ?_
        rwa [hothers w'.reference (hapart w' hmem)] at hrests

/-! ## The broker -/

/-- Fills of orders without a bracket leave an account without protections as it is. -/
theorem protectionsAfter_plain {fills : List (OrderIntent × Fill)}
    (h : ∀ e ∈ fills, e.1.protection = none) :
    fills.foldl (fun ps e => Broker.protectionsAfter ps timestamp e.1 e.2) {} = {} := by
  induction fills with
  | nil => rfl
  | cons e fills ih =>
    have hnone : Broker.protectionsAfter {} timestamp e.1 e.2 = {} := by
      unfold Broker.protectionsAfter
      rw [h e List.mem_cons_self]
      split
      · rfl
      · rfl
    rw [List.foldl_cons, hnone]
    exact ih fun e' he' => h e' (List.mem_cons_of_mem e he')

end

/-! ## The pending orders of a bar -/

variable {G : Type}

/-- Between bars: nothing is protected or queued, and the statuses tell what the ledger
says. -/
structure Runner.Settled (r : Runner G) : Prop where
  protections : r.broker.protections = {}
  orders : r.session.context.orders = []
  cancelled : r.session.context.cancelledOrderIds = []
  plain : r.session.context.defaultProtection = none
  cursor : r.session.orderStatusCursor = r.broker.book.orderLedger.length
  told : FillsTold r.session r.broker.book.filledOf
  rests : ∀ reference, (r.broker.book.restingDeferredEvents.get? reference).isSome = true →
    (r.session.context.statusOf reference).waits = true

/-- What the pending orders of a bar do. -/
structure PendingMoved (r r' : Runner G) (works : List Work) (rows : List Telling)
    (left : List Work) : Prop where
  settled : r'.Settled
  bankrupt : r'.broker.bankrupt = r.broker.bankrupt
  strategy : r'.session.strategy = r.session.strategy
  filled : ∀ reference,
    r'.broker.book.filledOf reference = r.broker.book.filledOf reference + filledIn reference rows
  own : ∀ row ∈ rows, ∃ w ∈ works, row.reference = some w.reference
  amount : ∀ key, r'.broker.book.amountOf key =
    r.broker.book.amountOf key + movedBy works (filledIn · rows) key
  sublist : left.Sublist works
  working : List.Forall₂ Working left r'.session.pendingOrders
  waits : ∀ w ∈ left, (r'.session.context.statusOf w.reference).waits = true

theorem syncOrderStatuses_strategy (s : Session G) (b : Book) :
    (s.syncOrderStatuses b).strategy = s.strategy ∧
      (s.syncOrderStatuses b).context.defaultProtection = s.context.defaultProtection := by
  unfold Session.syncOrderStatuses
  dsimp only
  induction b.orderLedger.drop s.orderStatusCursor generalizing s with
  | nil => exact ⟨rfl, rfl⟩
  | cons event events ih =>
    have hone : (s.summarize event).strategy = s.strategy ∧
        (s.summarize event).context.defaultProtection = s.context.defaultProtection := by
      unfold Session.summarize
      split
      · exact ⟨rfl, rfl⟩
      · exact ⟨rfl, rfl⟩
    obtain ⟨h₁, h₂⟩ := ih (s.summarize event)
    rw [List.foldl_cons]
    exact ⟨h₁.trans hone.1, h₂.trans hone.2⟩

theorem executePending_moved {cfg : BrokerConfig} {p : Portal} {timestamp : Time} {r r' : Runner G}
    {works : List Work} (hr : r.Settled)
    (hworking : List.Forall₂ Working works r.session.pendingOrders)
    (hdistinct : (works.map Work.reference).Nodup)
    (hclean : BatchClean cfg p timestamp (r.broker.book.markToMarket p) r.session.pendingOrders)
    (h : r.executePending cfg p timestamp = some r') :
    ∃ rows left, PendingMoved r r' works rows left := by
  unfold Runner.executePending at h
  split at h
  next hnone =>
    obtain rfl := Option.some.inj h
    rw [hnone] at hworking
    cases hworking
    refine ⟨[], [], hr, rfl, rfl, fun reference => (add_zero _).symm,
      fun row hrow => (by cases hrow),
      fun key => (add_zero _).symm, List.Sublist.refl _, ?_, fun w hw => (by cases hw)⟩
    rw [hnone]
    exact .nil
  next hsome =>
    obtain ⟨e, he, rfl⟩ := Option.map_eq_some_iff.mp h
    unfold Broker.execute at he
    rw [if_neg hsome] at he
    obtain ⟨out, hout, rfl⟩ := Option.map_eq_some_iff.mp he
    obtain ⟨rows, left, hmoved⟩ := executeOrders_moved hworking hdistinct hclean hout
    have htold : (out.book.markToMarket p).told = r.broker.book.told ++ rows := hmoved.told
    have hfilled : ∀ reference, (out.book.markToMarket p).filledOf reference =
        r.broker.book.filledOf reference + filledIn reference rows :=
      Book.filledOf_of_told htold
    have hread : (out.book.markToMarket p).told.drop r.session.orderStatusCursor = rows := by
      have hlength : r.session.orderStatusCursor = r.broker.book.told.length := by
        rw [hr.cursor, Book.told, List.length_map]
      rw [htold, hlength, List.drop_left]
    obtain ⟨horders, hcancelled, -, -⟩ := Desk.syncOrderStatuses_context
      { r.session with pendingOrders := out.deferred } (out.book.markToMarket p)
    obtain ⟨hstrategy, hplain⟩ := syncOrderStatuses_strategy
      { r.session with pendingOrders := out.deferred } (out.book.markToMarket p)
    have hstatus : ∀ reference, (({ r.session with pendingOrders := out.deferred }.syncOrderStatuses
        (out.book.markToMarket p)).context.statusOf reference) =
          statusAfter reference (r.session.context.statusOf reference) rows := by
      intro reference
      rw [statusOf_syncOrderStatuses, hread]
    have hwaits : ∀ w ∈ left, (statusAfter w.reference (r.session.context.statusOf w.reference)
        rows).waits = true := fun w hw => hmoved.waits w hw _ (hr.rests w.reference)
    refine ⟨rows, left, ⟨?_, horders.trans hr.orders, hcancelled.trans hr.cancelled,
      hplain.trans hr.plain, rfl, ?_, ?_⟩, rfl, hstrategy, hfilled, hmoved.own, fun key => ?_,
      hmoved.sublist, ?_, fun w hw => ?_⟩
    · dsimp only
      rw [hr.protections]
      exact protectionsAfter_plain hmoved.plain
    · intro reference
      dsimp only
      rw [hfilled, ← hread]
      exact (show FillsTold { r.session with pendingOrders := out.deferred }
        r.broker.book.filledOf from hr.told).sync (out.book.markToMarket p) reference
    · intro reference hrests
      dsimp only
      rw [hstatus]
      rcases hmoved.rests reference hrests with ⟨hrests, hne⟩ | ⟨w, hw, rfl⟩
      · rw [statusAfter_of_ne fun row hrow heq => ?_]
        · exact hr.rests reference hrests
        · obtain ⟨w, hw, hrow⟩ := hmoved.own row hrow
          exact hne w hw (Option.some.inj (hrow.symm.trans heq))
      · exact hwaits w hw
    · dsimp only
      rw [amountOf_markToMarket, hmoved.amount, amountOf_markToMarket]
    · dsimp only
      rw [Desk.syncOrderStatuses_pending]
      exact hmoved.working
    · dsimp only
      rw [hstatus]
      exact hwaits w hw

end AlgoTrade.Backtest
