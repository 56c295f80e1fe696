import AlgoTrade.Backtest.Runner

/-! # No intrabar look-ahead

Two histories that agree before `t`, and at `t` on what the bars tell at their
open, run through the same strategy.

* `OpenReadsAgree`: every read of the bar's high, low or close that its open phase
  makes gives the same in both.
* `noLookahead_of_readsAgree`: then the open phase executes the same and shows the
  same.
* `markedClose_leaks`: the marks of the open phase read the close of the bar. -/

namespace AlgoTrade.Backtest

/-! ## The property -/

/-- A market execution. -/
structure MarketFill where
  positionKey : PositionKey
  side : TradeSide
  quantity : ℚ
  price : ℚ
  deriving DecidableEq, Repr

/-- The account a callback is shown. -/
structure ShownAccount where
  availableCash : ℚ
  totalValue : ℚ
  positions : Dict PositionKey Position
  deriving DecidableEq, Repr

structure Observation where
  fills : List MarketFill
  shown : List ShownAccount
  deriving DecidableEq, Repr

/-- The market executions of an open phase, and the account each of its callbacks
was shown. -/
def OpenTrace.observed (tr : OpenTrace) : Observation where
  fills := (tr.executions.filter fun e => e.orderType = .market).map fun e =>
    ⟨e.positionKey, e.side, e.quantity, e.price⟩
  shown := tr.shown.map fun v => ⟨v.availableCash, v.totalValue, v.positions⟩

/-- What a run does and shows at `t` before the close; `none` when it raises. -/
def openTraceAt {G : Type} (cfg : BrokerConfig) (prog : Program G) (frames : Frames)
    (startDate endDate : Option Time) (t : Time) : Option OpenTrace :=
  (Runner.stateBefore cfg prog frames startDate endDate t).bind fun r =>
    (r.barOpen cfg prog (portalAt frames t false) t).map Prod.snd

/-- Both runs do and show the same at `t` before the close. -/
def NoLookahead {G : Type} (cfg : BrokerConfig) (prog : Program G) (h h' : Frames)
    (startDate endDate : Option Time) (t : Time) : Prop :=
  (openTraceAt cfg prog h startDate endDate t).map OpenTrace.observed =
    (openTraceAt cfg prog h' startDate endDate t).map OpenTrace.observed

/-! ## The condition -/

section
variable (cfg : BrokerConfig) (p p' : Portal) (timestamp : Time)

/-- Marking the book reads the same prices. -/
def MarksAgree (b : Book) : Prop := ∀ pos ∈ b.positions.values, markPrice p pos = markPrice p' pos

/-- Trying the order reads the same: the marks, and the quote of what it asks for
(of a limit order, whether the bar reaches it). -/
def OrderReadsAgree (priceOverrides : Dict Instrument ℚ) (b : Book) (order : OrderIntent) : Prop :=
  blockedReason cfg p priceOverrides b order = none →
    ∀ openPrice ∈ openPriceOf p priceOverrides order, MarksAgree p p' b ∧
      ∀ z ∈ sizeOrder cfg (b.markToMarket p) order openPrice, z.alreadyMet order = false →
        quote cfg order z.delta openPrice (p.barAt order.symbol) =
          quote cfg order z.delta openPrice (p'.barAt order.symbol)

/-- So does every order of the batch, in turn. -/
def OrdersAgree (priceOverrides : Dict Instrument ℚ) : Book → List OrderIntent → Prop
  | _, [] => True
  | b, order :: orders =>
    OrderReadsAgree cfg p p' priceOverrides b.nextOrder order ∧
      ∀ out ∈ executeOrder cfg p timestamp priceOverrides b order,
        OrdersAgree priceOverrides out.book orders

/-- A batch reads the same up to its last fill. -/
def BatchAgrees (priceOverrides : Dict Instrument ℚ) (b : Book) (orders : List OrderIntent) :
    Prop :=
  orders ≠ [] → MarksAgree p p' b ∧
    OrdersAgree cfg p p' timestamp priceOverrides (b.markToMarket p) orders

/-- And in the marks that end it. -/
def BatchEndAgrees (priceOverrides : Dict Instrument ℚ) (b : Book) (orders : List OrderIntent) :
    Prop :=
  orders ≠ [] →
    ∀ out ∈ executeOrders cfg p timestamp priceOverrides (b.markToMarket p) orders,
      MarksAgree p p' out.book

/-- The protection exits the same position for the same reason and price, or not
at all, and its exit order reads the same. -/
def ProtectionAgrees (b b' : Broker) (key : PositionKey) : Prop :=
  (b.evaluateProtection p timestamp key).2 = (b'.evaluateProtection p' timestamp key).2 ∧
    ∀ e ∈ (b.evaluateProtection p timestamp key).2,
      let priceOverrides := Dict.empty.set e.1.symbol e.2.price
      let orders := [Broker.exitOrder timestamp e.1 e.2]
      BatchAgrees cfg p p' timestamp priceOverrides b.book orders ∧
        BatchEndAgrees cfg p p' timestamp priceOverrides b.book orders

/-- So does every protection, in turn, on the brokers of both runs. -/
def ProtectionsAgree : Broker → Broker → List PositionKey → Prop
  | _, _, [] => True
  | b, b', key :: keys =>
    ProtectionAgrees cfg p p' timestamp b b' key ∧
      ∀ r ∈ b.processProtection cfg p timestamp key,
        ∀ r' ∈ b'.processProtection cfg p' timestamp key, ProtectionsAgree r.1 r'.1 keys

/-- Every read the open phase makes of the high, the low or the close of its bar
gives the same in both histories: the marks around and within each batch (those
that end the last batch apart), the range that a limit order meets, and the
protection exits. -/
structure OpenReadsAgree {G : Type} (prog : Program G) (r : Runner G) : Prop where
  pending : BatchAgrees cfg p p' timestamp {} r.broker.book r.session.pendingOrders ∧
    BatchEndAgrees cfg p p' timestamp {} r.broker.book r.session.pendingOrders
  protections : ∀ r₁ ∈ r.executePending cfg p timestamp,
    ProtectionsAgree cfg p p' timestamp r₁.broker r₁.broker r₁.broker.protections.keys
  opening : ∀ r₁ ∈ r.executePending cfg p timestamp, ∀ r₂ ∈ r₁.exitProtections cfg p timestamp,
    ∀ o ∈ r₂.runOpening prog p timestamp,
      BatchAgrees cfg p p' timestamp {} o.1.broker.book o.2.1

end

/-- The condition at the bar at `t`, in the state the run of `h` brings to it. -/
def ReadsAgree {G : Type} (cfg : BrokerConfig) (prog : Program G) (h h' : Frames)
    (startDate endDate : Option Time) (t : Time) : Prop :=
  ∀ r ∈ Runner.stateBefore cfg prog h startDate endDate t, r.broker.bankrupt = false →
    OpenReadsAgree cfg (portalAt h t false) (portalAt h' t false) t prog r

/-! ### Evaluating it -/

section
variable (cfg : BrokerConfig) (p p' : Portal) (timestamp : Time)

instance (b : Book) : Decidable (MarksAgree p p' b) :=
  inferInstanceAs (Decidable (∀ pos ∈ b.positions.values, _))

instance (priceOverrides : Dict Instrument ℚ) (b : Book) (order : OrderIntent) :
    Decidable (OrderReadsAgree cfg p p' priceOverrides b order) :=
  inferInstanceAs (Decidable (_ → ∀ openPrice ∈ openPriceOf p priceOverrides order, _))

instance decidableOrdersAgree (priceOverrides : Dict Instrument ℚ) :
    ∀ b orders, Decidable (OrdersAgree cfg p p' timestamp priceOverrides b orders)
  | _, [] => inferInstanceAs (Decidable True)
  | b, order :: orders =>
    have : ∀ b, Decidable (OrdersAgree cfg p p' timestamp priceOverrides b orders) :=
      fun b => decidableOrdersAgree priceOverrides b orders
    inferInstanceAs (Decidable (_ ∧ ∀ out ∈ executeOrder cfg p timestamp priceOverrides b order, _))

instance (priceOverrides : Dict Instrument ℚ) (b : Book) (orders : List OrderIntent) :
    Decidable (BatchAgrees cfg p p' timestamp priceOverrides b orders) :=
  inferInstanceAs (Decidable (_ → _ ∧ _))

instance (priceOverrides : Dict Instrument ℚ) (b : Book) (orders : List OrderIntent) :
    Decidable (BatchEndAgrees cfg p p' timestamp priceOverrides b orders) :=
  inferInstanceAs (Decidable (_ → ∀ out ∈ executeOrders cfg p timestamp priceOverrides
    (b.markToMarket p) orders, MarksAgree p p' out.book))

instance (b b' : Broker) (key : PositionKey) :
    Decidable (ProtectionAgrees cfg p p' timestamp b b' key) :=
  inferInstanceAs (Decidable (_ ∧ ∀ e ∈ (b.evaluateProtection p timestamp key).2,
    BatchAgrees cfg p p' timestamp _ b.book _ ∧ BatchEndAgrees cfg p p' timestamp _ b.book _))

instance decidableProtectionsAgree :
    ∀ b b' keys, Decidable (ProtectionsAgree cfg p p' timestamp b b' keys)
  | _, _, [] => inferInstanceAs (Decidable True)
  | b, b', key :: keys =>
    have : ∀ b b', Decidable (ProtectionsAgree cfg p p' timestamp b b' keys) :=
      fun b b' => decidableProtectionsAgree b b' keys
    inferInstanceAs (Decidable (_ ∧ ∀ r ∈ b.processProtection cfg p timestamp key,
      ∀ r' ∈ b'.processProtection cfg p' timestamp key, _))

instance {G : Type} (prog : Program G) (r : Runner G) :
    Decidable (OpenReadsAgree cfg p p' timestamp prog r) :=
  decidable_of_iff
    ((BatchAgrees cfg p p' timestamp {} r.broker.book r.session.pendingOrders ∧
        BatchEndAgrees cfg p p' timestamp {} r.broker.book r.session.pendingOrders) ∧
      (∀ r₁ ∈ r.executePending cfg p timestamp,
        ProtectionsAgree cfg p p' timestamp r₁.broker r₁.broker r₁.broker.protections.keys) ∧
      ∀ r₁ ∈ r.executePending cfg p timestamp, ∀ r₂ ∈ r₁.exitProtections cfg p timestamp,
        ∀ o ∈ r₂.runOpening prog p timestamp,
          BatchAgrees cfg p p' timestamp {} o.1.broker.book o.2.1)
    ⟨fun h => ⟨h.1, h.2.1, h.2.2⟩, fun h => ⟨h.pending, h.protections, h.opening⟩⟩

end

instance {G : Type} (cfg : BrokerConfig) (prog : Program G) (h h' : Frames)
    (startDate endDate : Option Time) (t : Time) :
    Decidable (NoLookahead cfg prog h h' startDate endDate t) :=
  inferInstanceAs (Decidable (_ = _))

instance {G : Type} (cfg : BrokerConfig) (prog : Program G) (h h' : Frames)
    (startDate endDate : Option Time) (t : Time) :
    Decidable (ReadsAgree cfg prog h h' startDate endDate t) :=
  inferInstanceAs (Decidable (∀ r ∈ Runner.stateBefore cfg prog h startDate endDate t, _ → _))

/-! ## Orders and batches -/

/-- Portals that differ in nothing but the high, the low and the close of the
current bar. -/
structure SameOpen (p p' : Portal) : Prop where
  symbols : p.symbols = p'.symbols
  openBarAt : ∀ symbol, p.openBarAt symbol = p'.openBarAt symbol
  visible : p.visible = p'.visible

section
variable {cfg : BrokerConfig} {p p' : Portal} {timestamp : Time}
  {priceOverrides : Dict Instrument ℚ}

theorem markToMarket_congr {b : Book} (h : MarksAgree p p' b) :
    b.markToMarket p = b.markToMarket p' := by
  have hpos : b.positions.mapValues (fun pos => { pos with lastPrice := markPrice p pos }) =
      b.positions.mapValues fun pos => { pos with lastPrice := markPrice p' pos } :=
    Dict.mapValues_congr fun pos hmem => by rw [h pos hmem]
  simp only [Book.markToMarket, hpos]

theorem openPriceOf_congr (hsame : SameOpen p p') (order : OrderIntent) :
    openPriceOf p priceOverrides order = openPriceOf p' priceOverrides order := by
  simp only [openPriceOf, hsame.openBarAt]

theorem blockedReason_congr (hsame : SameOpen p p') (b : Book) (order : OrderIntent) :
    blockedReason cfg p priceOverrides b order = blockedReason cfg p' priceOverrides b order := by
  simp only [blockedReason, openPriceOf_congr hsame, hsame.openBarAt]

/-- Quoted the same, the order ends the same. -/
theorem tryOrder_congr (hsame : SameOpen p p') {b : Book} {order : OrderIntent}
    {orderId : OrderId} {openPrice : ℚ}
    (h : ∀ z ∈ sizeOrder cfg b order openPrice, z.alreadyMet order = false →
      quote cfg order z.delta openPrice (p.barAt order.symbol) =
        quote cfg order z.delta openPrice (p'.barAt order.symbol)) :
    tryOrder cfg p timestamp b order orderId openPrice =
      tryOrder cfg p' timestamp b order orderId openPrice := by
  unfold tryOrder
  refine Option.map_congr fun z hz => ?_
  by_cases hmet : z.alreadyMet order = true
  · rw [if_pos hmet, if_pos hmet]
  · rw [if_neg hmet, if_neg hmet, h z hz (eq_false_of_ne_true hmet), hsame.openBarAt]

/-- An order that reads the same ends the same. -/
theorem executeOrder_congr (hsame : SameOpen p p') {b : Book} {order : OrderIntent}
    (h : OrderReadsAgree cfg p p' priceOverrides b.nextOrder order) :
    executeOrder cfg p timestamp priceOverrides b order =
      executeOrder cfg p' timestamp priceOverrides b order := by
  unfold executeOrder
  rw [← blockedReason_congr hsame, ← openPriceOf_congr hsame]
  cases hblocked : blockedReason cfg p priceOverrides b.nextOrder order with
  | some reason => rfl
  | none =>
    refine Option.bind_congr fun openPrice hopen => ?_
    obtain ⟨hmarks, hquote⟩ := h hblocked openPrice hopen
    rw [← markToMarket_congr hmarks]
    exact tryOrder_congr hsame hquote

theorem executeOrders_congr (hsame : SameOpen p p') {b : Book} {orders : List OrderIntent}
    (h : OrdersAgree cfg p p' timestamp priceOverrides b orders) :
    executeOrders cfg p timestamp priceOverrides b orders =
      executeOrders cfg p' timestamp priceOverrides b orders := by
  induction orders generalizing b with
  | nil => rfl
  | cons order orders ih =>
    obtain ⟨horder, hrest⟩ := h
    rw [executeOrders, executeOrders, ← executeOrder_congr hsame horder]
    refine Option.bind_congr fun out hout => ?_
    rw [ih (hrest out hout)]

/-- A batch that reads the same to its end is the same. -/
theorem execute_congr (hsame : SameOpen p p') {b : Broker} {orders : List OrderIntent}
    (h : BatchAgrees cfg p p' timestamp priceOverrides b.book orders)
    (hend : BatchEndAgrees cfg p p' timestamp priceOverrides b.book orders) :
    b.execute cfg p timestamp priceOverrides orders =
      b.execute cfg p' timestamp priceOverrides orders := by
  unfold Broker.execute
  by_cases hnil : orders = []
  · rw [if_pos hnil, if_pos hnil]
  · obtain ⟨hmarks, horders⟩ := h hnil
    rw [if_neg hnil, if_neg hnil, ← markToMarket_congr hmarks,
      ← executeOrders_congr hsame horders]
    refine Option.map_congr fun out hout => ?_
    rw [markToMarket_congr (hend hnil out hout)]

/-! ## Runs whose brokers differ in their protections -/

/-- What the rest of the open phase sees of a step on a broker. -/
def Broker.seen {α : Type} (r : Broker × α) : Book × α := (r.1.book, r.2)

/-- What a batch leaves to see depends on the book alone. -/
theorem execute_seen (b : Broker) (orders : List OrderIntent) :
    (b.execute cfg p timestamp priceOverrides orders).map Broker.seen =
      if orders = [] then some (b.book, [])
      else (executeOrders cfg p timestamp priceOverrides (b.book.markToMarket p) orders).map
        fun out => (out.book.markToMarket p, out.deferred) := by
  unfold Broker.execute
  by_cases hnil : orders = []
  · rw [if_pos hnil, if_pos hnil]
    rfl
  · rw [if_neg hnil, if_neg hnil, Option.map_map]
    rfl

theorem execute_seen_congr (hsame : SameOpen p p') {b b' : Broker} (hbook : b.book = b'.book)
    {orders : List OrderIntent}
    (h : BatchAgrees cfg p p' timestamp priceOverrides b.book orders)
    (hend : BatchEndAgrees cfg p p' timestamp priceOverrides b.book orders) :
    (b.execute cfg p timestamp priceOverrides orders).map Broker.seen =
      (b'.execute cfg p' timestamp priceOverrides orders).map Broker.seen := by
  rw [execute_congr hsame h hend, execute_seen, execute_seen, hbook]

theorem evaluateProtection_book (p : Portal) (timestamp : Time) (b : Broker) (key : PositionKey) :
    (b.evaluateProtection p timestamp key).1.book = b.book := by
  unfold Broker.evaluateProtection
  split
  · rfl
  · rfl
  · split <;> rfl

/-- What an exit leaves to see, from what its batch does. -/
theorem exitPosition_seen (b : Broker) (key : PositionKey) (position : Position)
    (decision : ProtectionDecision) :
    (b.exitPosition cfg p timestamp key position decision).map Broker.seen =
      ((b.execute cfg p timestamp (Dict.empty.set position.symbol decision.price)
        [Broker.exitOrder timestamp position decision]).map Broker.seen).map fun r =>
          (r.1, if r.1.executions.length = b.book.executions.length then [] else [decision]) := by
  unfold Broker.exitPosition
  rw [Option.map_map, Option.map_map]
  refine Option.map_congr fun r _ => ?_
  by_cases hexec : r.1.book.executions.length = b.book.executions.length
  · show Broker.seen (if r.1.book.executions.length = b.book.executions.length then _ else _) =
      (r.1.book, if r.1.book.executions.length = b.book.executions.length then [] else [decision])
    rw [if_pos hexec, if_pos hexec]
    split <;> rfl
  · show Broker.seen (if r.1.book.executions.length = b.book.executions.length then _ else _) =
      (r.1.book, if r.1.book.executions.length = b.book.executions.length then [] else [decision])
    rw [if_neg hexec, if_neg hexec]
    rfl

theorem processProtection_seen_congr (hsame : SameOpen p p') {b b' : Broker} {key : PositionKey}
    (hbook : b.book = b'.book) (h : ProtectionAgrees cfg p p' timestamp b b' key) :
    (b.processProtection cfg p timestamp key).map Broker.seen =
      (b'.processProtection cfg p' timestamp key).map Broker.seen := by
  obtain ⟨hdecision, hexit⟩ := h
  have hbook₁ := evaluateProtection_book p timestamp b key
  have hbook₂ := evaluateProtection_book p' timestamp b' key
  unfold Broker.processProtection
  generalize b.evaluateProtection p timestamp key = ev at hdecision hexit hbook₁ ⊢
  generalize b'.evaluateProtection p' timestamp key = ev' at hdecision hbook₂ ⊢
  obtain ⟨b₁, d⟩ := ev
  obtain ⟨b₂, d'⟩ := ev'
  obtain rfl : d = d' := hdecision
  have hbooks : b₁.book = b₂.book := hbook₁.trans (hbook.trans hbook₂.symm)
  cases d with
  | none =>
    show some (b₁.book, []) = some (b₂.book, [])
    rw [hbooks]
  | some e =>
    obtain ⟨position, decision⟩ := e
    obtain ⟨hbatch, hend⟩ := hexit (position, decision) rfl
    show (b₁.exitPosition cfg p timestamp key position decision).map Broker.seen =
      (b₂.exitPosition cfg p' timestamp key position decision).map Broker.seen
    rw [← hbook₁] at hbatch hend
    rw [exitPosition_seen, exitPosition_seen, execute_seen_congr hsame hbooks hbatch hend, hbooks]

end

/-- Steps with equal images go on alike, when what follows them does. -/
theorem map_bind_congr {α β γ δ ε ζ : Type} {x : Option α} {y : Option β} {f : α → γ} {g : β → γ}
    {k : α → Option δ} {l : β → Option ε} {u : δ → ζ} {v : ε → ζ} (h : x.map f = y.map g)
    (hk : ∀ a ∈ x, ∀ b ∈ y, f a = g b → (k a).map u = (l b).map v) :
    (x.bind k).map u = (y.bind l).map v := by
  cases x with
  | none =>
    rw [Option.map_none, eq_comm, Option.map_eq_none_iff] at h
    rw [h]
    rfl
  | some a =>
    rw [Option.map_some, eq_comm, Option.map_eq_some_iff] at h
    obtain ⟨b, rfl, heq⟩ := h
    exact hk a rfl b rfl heq.symm

/-- And so do maps of them. -/
theorem map_map_congr {α β γ δ ε ζ : Type} {x : Option α} {y : Option β} {f : α → γ} {g : β → γ}
    {k : α → δ} {l : β → ε} {u : δ → ζ} {v : ε → ζ} (h : x.map f = y.map g)
    (hk : ∀ a ∈ x, ∀ b ∈ y, f a = g b → u (k a) = v (l b)) :
    (x.map k).map u = (y.map l).map v := by
  have hx : x.map k = x.bind (some ∘ k) := Option.map_eq_bind
  have hy : y.map l = y.bind (some ∘ l) := Option.map_eq_bind
  rw [hx, hy]
  refine map_bind_congr h fun a ha b hb heq => ?_
  show some (u (k a)) = some (v (l b))
  rw [hk a ha b hb heq]

section
variable {cfg : BrokerConfig} {p p' : Portal} {timestamp : Time} {G : Type}

theorem processKeys_seen_congr (hsame : SameOpen p p') {b b' : Broker} {keys : List PositionKey}
    (hbook : b.book = b'.book) (h : ProtectionsAgree cfg p p' timestamp b b' keys) :
    (Broker.processKeys cfg p timestamp b keys).map Broker.seen =
      (Broker.processKeys cfg p' timestamp b' keys).map Broker.seen := by
  induction keys generalizing b b' with
  | nil =>
    show some (b.book, []) = some (b'.book, [])
    rw [hbook]
  | cons key keys ih =>
    obtain ⟨hkey, hkeys⟩ := h
    rw [Broker.processKeys, Broker.processKeys]
    refine map_bind_congr (processProtection_seen_congr hsame hbook hkey) ?_
    intro r hr r' hr' hseen
    obtain ⟨hbooks, hdecisions⟩ := Prod.mk.inj hseen
    refine map_map_congr (ih hbooks (hkeys r hr r' hr')) ?_
    intro q _ q' _ hseen'
    obtain ⟨hbooks', hrest⟩ := Prod.mk.inj hseen'
    show (q.1.book, r.2 ++ q.2) = (q'.1.book, r'.2 ++ q'.2)
    rw [hbooks', hdecisions, hrest]

/-! ## The callbacks before the close -/

theorem viewOf_congr (hsame : SameOpen p p') (b : Book) (s : Session G) :
    viewOf p timestamp b s = viewOf p' timestamp b s := by
  simp only [viewOf, hsame.symbols, hsame.visible]

theorem invokeOpening_congr (hsame : SameOpen p p') (callbacks : List (Callback G)) (b : Book)
    (s : Session G) :
    invokeOpening p timestamp callbacks b s = invokeOpening p' timestamp callbacks b s := by
  induction callbacks generalizing b s with
  | nil => rfl
  | cons callback callbacks ih =>
    have hinvoke : invoke p timestamp callback b s = invoke p' timestamp callback b s := by
      simp only [invoke, viewOf_congr hsame, hsame.symbols]
    rw [invokeOpening, invokeOpening, hinvoke, viewOf_congr hsame]
    refine Option.bind_congr fun o _ => ?_
    rw [ih]

/-! ## The open phase -/

namespace Runner

/-- What the rest of the open phase sees of the runner. -/
def seen (r : Runner G) : Book × Session G := (r.broker.book, r.session)

theorem executePending_congr (hsame : SameOpen p p') {r : Runner G}
    (h : BatchAgrees cfg p p' timestamp {} r.broker.book r.session.pendingOrders)
    (hend : BatchEndAgrees cfg p p' timestamp {} r.broker.book r.session.pendingOrders) :
    r.executePending cfg p timestamp = r.executePending cfg p' timestamp := by
  unfold executePending
  rw [execute_congr hsame h hend]

theorem exitProtections_seen_congr (hsame : SameOpen p p') {r : Runner G}
    (h : ProtectionsAgree cfg p p' timestamp r.broker r.broker r.broker.protections.keys) :
    (r.exitProtections cfg p timestamp).map seen =
      (r.exitProtections cfg p' timestamp).map seen := by
  unfold exitProtections Broker.processProtections
  refine map_map_congr (processKeys_seen_congr hsame rfl h) ?_
  intro q _ q' _ hseen
  obtain ⟨hbooks, hdecisions⟩ := Prod.mk.inj hseen
  show (q.1.book, r.session.setExitReasons q.2) = (q'.1.book, r.session.setExitReasons q'.2)
  rw [hbooks, hdecisions]

theorem runOpening_seen_congr (hsame : SameOpen p p') (prog : Program G) (timestamp : Time)
    {r r' : Runner G}
    (h : r.seen = r'.seen) :
    (r.runOpening prog p timestamp).map (fun o => (o.1.seen, o.2)) =
      (r'.runOpening prog p' timestamp).map fun o => (o.1.seen, o.2) := by
  obtain ⟨hbook, hsession⟩ := Prod.mk.inj h
  unfold runOpening
  rw [hbook, hsession, invokeOpening_congr hsame, Option.map_map, Option.map_map]
  rfl

/-- The executions of the last batch. -/
theorem executeOpening_executions (r : Runner G) (orders : List OrderIntent) :
    (r.executeOpening cfg p timestamp orders).map (fun q => q.broker.book.executions) =
      if orders = [] then some r.broker.book.executions
      else (executeOrders cfg p timestamp {} (r.broker.book.markToMarket p) orders).map
        fun out => out.book.executions := by
  unfold executeOpening
  by_cases hnil : orders = []
  · rw [if_pos hnil, if_pos hnil]
    rfl
  · rw [if_neg hnil, if_neg hnil, Option.map_map, Broker.execute, if_neg hnil, Option.map_map]
    rfl

theorem executeOpening_executions_congr (hsame : SameOpen p p') {r r' : Runner G}
    {orders : List OrderIntent} (hbook : r.broker.book = r'.broker.book)
    (h : BatchAgrees cfg p p' timestamp {} r.broker.book orders) :
    (r.executeOpening cfg p timestamp orders).map (fun q => q.broker.book.executions) =
      (r'.executeOpening cfg p' timestamp orders).map fun q => q.broker.book.executions := by
  rw [executeOpening_executions, executeOpening_executions, ← hbook]
  by_cases hnil : orders = []
  · rw [if_pos hnil, if_pos hnil]
  · obtain ⟨hmarks, horders⟩ := h hnil
    rw [if_neg hnil, if_neg hnil, ← markToMarket_congr hmarks, executeOrders_congr hsame horders]

/-- **The open phase.**  Where its reads agree, it does and shows the same. -/
theorem openPhase_congr (hsame : SameOpen p p') {prog : Program G} {r : Runner G}
    (h : OpenReadsAgree cfg p p' timestamp prog r) :
    (r.openPhase cfg prog p timestamp).map Prod.snd =
      (r.openPhase cfg prog p' timestamp).map Prod.snd := by
  unfold openPhase
  refine map_bind_congr (f := id) (g := id)
    (congrArg _ (executePending_congr hsame h.pending.1 h.pending.2)) ?_
  rintro r₁ hr₁ r₁' - (rfl : r₁ = r₁')
  refine map_bind_congr (exitProtections_seen_congr hsame (h.protections r₁ hr₁)) ?_
  intro r₂ hr₂ r₂' _ hseen
  refine map_bind_congr (runOpening_seen_congr hsame prog timestamp hseen) ?_
  intro o ho o' _ hseen'
  obtain ⟨hstate, hqueued⟩ := Prod.mk.inj hseen'
  have hbook : o.1.broker.book = o'.1.broker.book := (Prod.mk.inj hstate).1
  have hexec := executeOpening_executions_congr hsame hbook (h.opening r₁ hr₁ r₂ hr₂ o ho)
  rw [← hqueued]
  refine map_map_congr hexec ?_
  intro r₄ _ r₄' _ hexecutions
  simp only [executedSince, hbook, hexecutions]

end Runner

end

/-! ## The run up to the bar -/

section
variable {cfg : BrokerConfig} {h h' : Frames} {startDate endDate : Option Time} {t : Time}
  {G : Type}

theorem Runner.bar_congr (hag : AgreeBefore t h h') (prog : Program G) {s : Time} (hst : s < t)
    (r : Runner G) : r.bar cfg prog h s = r.bar cfg prog h' s := by
  unfold Runner.bar
  rw [hag.portalAt_eq hst, hag.portalAt_eq hst]

theorem Runner.barTimes_before_eq (hag : AgreeBefore t h h') :
    (Runner.barTimes h startDate endDate).filter (· < t) =
      (Runner.barTimes h' startDate endDate).filter (· < t) := by
  unfold Runner.barTimes
  rw [List.filter_comm, hag.timestamps_eq le_rfl, ← List.filter_comm]

/-- Histories that agree before `t` bring the same runner to it. -/
theorem Runner.stateBefore_congr (hag : AgreeBefore t h h') (prog : Program G) :
    Runner.stateBefore cfg prog h startDate endDate t =
      Runner.stateBefore cfg prog h' startDate endDate t := by
  unfold Runner.stateBefore
  rw [← Runner.barTimes_before_eq hag]
  refine Runs.run_congr (fun s hs r => ?_) _
  exact Runner.bar_congr hag prog (of_decide_eq_true (List.mem_filter.mp hs).2) r

theorem AgreeAtOpen.sameOpen (hag : AgreeAtOpen t h h') :
    SameOpen (portalAt h t false) (portalAt h' t false) where
  symbols := hag.keys
  openBarAt := hag.openBar
  visible := hag.visible_eq

/-- **No look-ahead.**  Where the reads of the open phase agree, it executes the
same and shows the same. -/
theorem noLookahead_of_readsAgree {prog : Program G} (hag : AgreeAtOpen t h h')
    (hreads : ReadsAgree cfg prog h h' startDate endDate t) :
    NoLookahead cfg prog h h' startDate endDate t := by
  unfold NoLookahead openTraceAt
  rw [← Runner.stateBefore_congr hag.toAgreeBefore]
  refine congrArg _ (Option.bind_congr fun r hr => ?_)
  unfold Runner.barOpen
  by_cases hbankrupt : r.broker.bankrupt = true
  · rw [if_pos hbankrupt, if_pos hbankrupt, Option.map_some]
  · have hopen := hreads r hr (eq_false_of_ne_true hbankrupt)
    rw [if_neg hbankrupt, if_neg hbankrupt, Runner.openPhase_congr hag.sameOpen hopen]

end

/-! ## Two histories -/

namespace Lookahead

def coin : Instrument := ⟨"Crypto", "BTC/USDT"⟩

def flatBar (close : ℚ) : Bar where
  openPrice := 100
  volume := 1000000
  high := max 100 close
  low := min 100 close
  close := close

/-- Three bars that open at 100; the last one ends at `close`. -/
def history (close : ℚ) : Frames where
  entries := [(coin, ⟨[(0, flatBar 100), (1, flatBar 100), (2, flatBar close)], by simp⟩)]

theorem history_agree (close close' : ℚ) :
    AgreeAtOpen 2 (history close) (history close') where
  keys := rfl
  rows k := by
    by_cases hk : coin = k
    · subst hk
      rfl
    · simp [history, Dict.get?, hk]
  openBar k := by
    by_cases hk : coin = k
    · subst hk
      rfl
    · simp [Portal.openBarAt, portalAt, history, Dict.get?, hk]

def config : BrokerConfig := .unlevered 10000

def silent : Callback Unit := fun _ s => some (s, [])

def targetPercent (value : ℚ) : Request := .order { symbol := coin, kind := .targetPercent, value }

/-- Half of the equity before the bar at 2, no position before. -/
def enterAtTwo : Program Unit where
  init := ()
  beforeTradingStart := silent
  schedules := [⟨fun t _ => t = 2, fun _ s => some (s, [targetPercent (1 / 2)])⟩]
  onRebalance := silent
  handleData := silent
  afterTradingEnd := silent

/-- A quarter of the equity from the bar at 1 on, and half of it from the next. -/
def addAtTwo : Program Unit where
  init := ()
  beforeTradingStart := silent
  schedules := []
  onRebalance := silent
  handleData view s := some (s, [targetPercent (if view.currentDt = 0 then 1 / 4 else 1 / 2)])
  afterTradingEnd := silent

end Lookahead

/-- An entry without a position to mark. -/
theorem noLookahead_of_readsAgree_entry :
    NoLookahead Lookahead.config Lookahead.enterAtTwo (Lookahead.history 100)
      (Lookahead.history 200) none none 2 :=
  noLookahead_of_readsAgree (Lookahead.history_agree 100 200) (by decide +kernel)

/-- The position is marked at the close of the bar that has just opened, and the
order of the bar before is sized on that equity. -/
theorem markedClose_leaks :
    AgreeAtOpen 2 (Lookahead.history 100) (Lookahead.history 200) ∧
      ¬ NoLookahead Lookahead.config Lookahead.addAtTwo (Lookahead.history 100)
        (Lookahead.history 200) none none 2 :=
  ⟨Lookahead.history_agree 100 200, by decide +kernel⟩

end AlgoTrade.Backtest
