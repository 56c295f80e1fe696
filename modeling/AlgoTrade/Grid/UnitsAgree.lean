import AlgoTrade.Grid.FillUnits
import Mathlib.Algebra.Order.BigOperators.Group.List
import Mathlib.Tactic.FieldSimp

/-! # The unit of a grid order's fills on the stream and on REST

A venue reports sizes in contracts or in base units.  The snapshot reader
converts contracts to base units, the stream parsers hand sizes on as they come.

* `streamGrid_booked`: the stream hands over the sum of the reported sizes.
* `extractGridFillBaseQty_of_tells`: the snapshot reader yields base units.
* `sameUnit_iff`: the two agree on the base quantity exactly when contracts are
  base units or nothing was filled. -/

namespace AlgoTrade

open Json (Scalar)

namespace Venue

/-- The venue's REST client of a market. -/
def client : Venue → MarketType → GridClient
  | binance, .spot => .binanceSpot
  | binance, .swap => .binanceFutures
  | okx, _ => .okx
  | bybit, _ => .bybit
  | bitget, .spot => .bitgetSpot
  | bitget, .swap => .bitgetMix
  | gate, .spot => .gateSpot
  | gate, .swap => .gateFutures
  | htx, _ => .htx

/-- Sizes are reported in contracts: OKX swap, Gate futures, HTX swap. -/
def inContracts : Venue → MarketType → Bool
  | okx, .swap | gate, .swap | htx, .swap => true
  | _, _ => false

/-- Base units in one reported unit, for contracts of `contractValue`. -/
def unit (venue : Venue) (market : MarketType) (contractValue : ℚ) : ℚ :=
  if venue.inContracts market then contractValue else 1

end Venue

/-- One fill, in base units. -/
structure GridFill where
  quantity : ℚ
  price : ℚ
  quantity_pos : 0 < quantity
  price_pos : 0 < price

/-- The base quantity filled. -/
def baseFilled (fills : List GridFill) : ℚ := (fills.map GridFill.quantity).sum

/-! ## What the venues say

`u` is the unit, `before` the base quantity filled before the fill. -/

/-- The size of the fill. -/
def TellsSize (u : ℚ) (f : GridFill) (v : Scalar) : Prop := v.asFloat = f.quantity / u

/-- The running total after the fill, where the message carries one. -/
def TellsTotal (u before : ℚ) (f : GridFill) (v : Scalar) : Prop :=
  v.asFloat = 0 ∨ v.asFloat = (before + f.quantity) / u

def BinanceOrder.Tells (u before : ℚ) (o : BinanceOrder) (f : GridFill) : Prop :=
  o.eventType ∈ ["executionReport", "ORDER_TRADE_UPDATE"] ∧
    TellsSize u f o.l ∧ TellsTotal u before f o.z ∧ o.L.asFloat = f.price

def OkxItem.Tells (u before : ℚ) (item : OkxItem) (f : GridFill) : Prop :=
  TellsSize u f item.fillSz ∧ TellsTotal u before f item.accFillSz ∧ item.fillPx.asFloat = f.price

def BybitItem.Tells (u : ℚ) (item : BybitItem) (f : GridFill) : Prop :=
  TellsSize u f item.execQty ∧ item.execPrice.asFloat = f.price

/-- Spot fills carry `size` and `priceAvg`; futures fills `fillQty` or
`baseVolume`, and `fillPrice` or `price`. -/
def BitgetItem.Tells (isSpot : Bool) (u before : ℚ) (item : BitgetItem) (f : GridFill) : Prop :=
  if isSpot then TellsSize u f item.size ∧ item.priceAvg.asFloat = f.price
  else
    (TellsSize u f item.fillQty ∨ item.fillQty = .absent ∧ TellsSize u f item.baseVolume) ∧
      TellsTotal u before f item.accBaseVolume ∧
      (item.fillPrice.asFloat = f.price ∨
        item.fillPrice = .absent ∧ item.price.asFloat = f.price)

/-- Spot trades carry `amount`; futures trades a `size`, negative for sells. -/
def GateItem.Tells (market : MarketType) (u : ℚ) (item : GateItem) (f : GridFill) : Prop :=
  (match market with
    | .spot => TellsSize u f item.amount
    | .swap => item.amount = .absent ∧ |item.size.asFloat| = f.quantity / u) ∧
    item.price.asFloat = f.price

def HtxItem.Tells (market : MarketType) (u : ℚ) (item : HtxItem) (f : GridFill) : Prop :=
  match market with
  | .spot => TellsSize u f item.tradeVolume ∧ item.tradePrice.asFloat = f.price
  | .swap => item.tradeVolume = .absent ∧ TellsSize u f item.trade_volume ∧
      item.tradePrice = .absent ∧ item.trade_price.asFloat = f.price

/-- The items report the fills one by one. -/
def EachTells {Item : Type} (tells : ℚ → Item → GridFill → Prop) :
    ℚ → List Item → List GridFill → Prop
  | _, [], [] => True
  | before, item :: items, f :: fs =>
    tells before item f ∧ EachTells tells (before + f.quantity) items fs
  | _, _, _ => False

/-- A private-stream payload of one of the venues. -/
inductive StreamMessage
  | binance (order : BinanceOrder)
  | okx (payload : OkxPayload)
  | bybit (payload : BybitPayload)
  | bitget (payload : BitgetPayload)
  | gate (payload : GatePayload)
  | htx (payload : HtxPayload)
  deriving DecidableEq, Repr

/-- The venue's adapter parses a payload of its connection. -/
def StreamMessage.parse (market : MarketType) : StreamMessage → List ParsedExecution
  | .binance order => parseBinance market order
  | .okx payload => parseOkx payload
  | .bybit payload => parseBybit payload
  | .bitget payload => parseBitget payload
  | .gate payload => parseGate market payload
  | .htx payload => parseHtx market payload

/-- The message is the venue's report of the fills, on its fill channel. -/
def StreamMessage.Reports (venue : Venue) (market : MarketType) (u before : ℚ)
    (msg : StreamMessage) (fills : List GridFill) : Prop :=
  match venue, msg with
  | .binance, .binance order => EachTells (BinanceOrder.Tells u) before [order] fills
  | .okx, .okx p => p.channel ∈ ["orders", "fills"] ∧ EachTells (OkxItem.Tells u) before p.data fills
  | .bybit, .bybit p =>
    "execution".toList <+: p.topic.toList ∧ EachTells (fun _ => BybitItem.Tells u) before p.data fills
  | .bitget, .bitget p =>
    p.channel ∈ ["fill", "orders"] ∧
      (p.instType.toUpper = "SPOT" ↔ market = .spot) ∧
      EachTells (BitgetItem.Tells (market = .spot) u) before p.data fills
  | .gate, .gate p =>
    p.channel ∈ ["spot.usertrades", "futures.usertrades"] ∧
      EachTells (fun _ => GateItem.Tells market u) before p.result fills
  | .htx, .htx p =>
    (hasSubstring "trade.clearing" p.topic || hasSubstring "matchOrders" p.topic) = true ∧
      EachTells (fun _ => HtxItem.Tells market u) before p.data fills
  | _, _ => False

/-- The messages report the fills, each fill in one of them. -/
inductive MessagesReport (venue : Venue) (market : MarketType) (u : ℚ) :
    ℚ → List StreamMessage → List GridFill → Prop
  | done (before : ℚ) : MessagesReport venue market u before [] []
  | next {before : ℚ} {msg : StreamMessage} {msgs : List StreamMessage} (fs rest : List GridFill)
      (hmsg : msg.Reports venue market u before fs)
      (hrest : MessagesReport venue market u (before + baseFilled fs) msgs rest) :
      MessagesReport venue market u before (msg :: msgs) (fs ++ rest)

/-- `v` carries the filled quantity `q`, and no alias contradicts a zero. -/
def TellsFilled (q : ℚ) (v : Scalar) (aliases : List Scalar) : Prop :=
  v.asFloat = q ∧ (q = 0 → ∀ a ∈ aliases, a.asFloat = 0)

/-- The snapshot carries the filled quantity, `q` in the venue's unit, where the
venue documents it. -/
def OrderSnapshot.Tells (venue : Venue) (market : MarketType) (q : ℚ) (data : OrderSnapshot) :
    Prop :=
  match venue, market with
  | .binance, _ => TellsFilled q data.executedQty []
  | .okx, _ => TellsFilled q data.accFillSz [data.fillSz]
  | .bybit, _ => TellsFilled q data.cumExecQty []
  | .bitget, .spot => TellsFilled q data.baseVolume [data.dealSize, data.filled]
  | .bitget, .swap => TellsFilled q data.baseVolume [data.fillSize, data.filledQty, data.filled]
  | .gate, .spot => TellsFilled q data.filled_amount [data.filledAmount]
  | .gate, .swap =>
    let contracts := (data.filled_size.or data.filledSize).asFloat
    let done := |data.size.asFloat| - |data.left.asFloat|
    contracts = q ∧ (q = 0 → done = 0) ∨ contracts = 0 ∧ done = q
  | .htx, .spot => TellsFilled q data.field_amount [data.filled_dash_amount, data.filled_amount]
  | .htx, .swap => TellsFilled q data.trade_volume [data.tradeVolume, data.volume]

/-! ## The two readings of one order -/

/-- The stored rows of parsed executions, from row id `n` on. -/
def storedRows (quote : Nat → Option ℚ) : Nat → List ParsedExecution → List ExecutionEvent
  | _, [] => []
  | n, e :: es => e.row n (quote n) :: storedRows quote (n + 1) es

/-- `_process_grid` on the events in turn, with the runner loaded: the row it
leaves and the quantity handed to `on_order_filled`. -/
def streamGrid : GridRestingOrder → List ExecutionEvent → GridRestingOrder × ℚ
  | o, [] => (o, 0)
  | o, ev :: evs =>
    let r := processGrid ev true o
    let rest := streamGrid r.order evs
    (rest.1, r.booked + rest.2)

/-- What the stream books for the order. -/
def streamBooked (market : MarketType) (quote : Nat → Option ℚ) (o : GridRestingOrder)
    (msgs : List StreamMessage) : ℚ :=
  (streamGrid o (storedRows quote 1 (msgs.flatMap (StreamMessage.parse market)))).2

/-- What the poller books for the order when it sees the snapshot. -/
def pollBooked (venue : Venue) (market : MarketType) (lookup : ContractLookup)
    (o : GridRestingOrder) (data : OrderSnapshot) : ℚ :=
  (pollOrder (parseGridOrderFill (venue.client market) market lookup data) false o).booked

/-- A row no fill was observed for yet. -/
structure Unfilled (o : GridRestingOrder) : Prop where
  quantity : gridEpsilon < o.quantity
  unobserved : o.filledQuantity = 0
  unprocessed : o.processedFillQty = 0

/-! ## The parsers hand sizes on as reported -/

/-- The event reports the fill in the venue's unit. -/
structure EventTells (u before : ℚ) (f : GridFill) (ev : ExecutionEvent) : Prop where
  quantity : ev.quantity = f.quantity / u
  cumulative : ev.cumulativeQuantity = 0 ∨ ev.cumulativeQuantity = (before + f.quantity) / u
  single : ev.isCumulative = false
  price : ev.price = f.price

/-- The parsed execution reports the fill, whatever row it becomes. -/
def ParsedExecution.Tells (u before : ℚ) (e : ParsedExecution) (f : GridFill) : Prop :=
  ∀ id quote, EventTells u before f (e.row id quote)

theorem ParsedExecution.tells {u before : ℚ} {e : ParsedExecution} {f : GridFill}
    (hq : e.quantity = f.quantity / u)
    (hc : e.cumulativeQuantity = 0 ∨ e.cumulativeQuantity = (before + f.quantity) / u)
    (hs : e.isCumulative = false) (hp : e.price = f.price) : e.Tells u before f :=
  fun _ _ => ⟨hq, hc, hs, hp⟩

section
variable {u before : ℚ} {f : GridFill}

/-- A member that carries the fill's price hides its aliases. -/
theorem asFloat_price {a b : Scalar} (h : a.asFloat = f.price) : (a.or b).asFloat = f.price :=
  Scalar.asFloat_or h fun h0 => absurd h0 f.price_pos.ne'

/-- A member that carries the fill's size hides its aliases. -/
theorem asFloat_size {a b : Scalar} (hu : 0 < u) (h : TellsSize u f a) :
    (a.or b).asFloat = f.quantity / u :=
  Scalar.asFloat_or h fun h0 => absurd h0 (div_pos f.quantity_pos hu).ne'

/-- An item with a positive size is never dropped. -/
theorem dropItem_of_size (hu : 0 < u) {q : ℚ} (hq : q = f.quantity / u) (id : String) :
    dropItem q id = false := by
  have := div_pos f.quantity_pos hu
  simp [dropItem, hq, not_le.mpr this]

theorem parseOkxItem_tells (hu : 0 < u) {item : OkxItem} (h : item.Tells u before f) (arg : String) :
    ∃ e, parseOkxItem arg item = some e ∧ e.Tells u before f := by
  obtain ⟨hsize, htotal, hprice⟩ := h
  simp only [parseOkxItem, dropItem_of_size hu hsize, Bool.false_eq_true, if_false]
  exact ⟨_, rfl, ParsedExecution.tells hsize htotal rfl (asFloat_price hprice)⟩

theorem parseBybitItem_tells (hu : 0 < u) {item : BybitItem} (h : item.Tells u f) :
    ∃ e, parseBybitItem item = some e ∧ e.Tells u before f := by
  obtain ⟨hsize, hprice⟩ := h
  simp only [parseBybitItem, dropItem_of_size hu hsize, Bool.false_eq_true, if_false]
  exact ⟨_, rfl, ParsedExecution.tells hsize (.inl rfl) rfl hprice⟩

theorem parseBitgetItem_tells (hu : 0 < u) {isSpot : Bool} {item : BitgetItem}
    (h : item.Tells isSpot u before f) :
    ∃ e, parseBitgetItem isSpot item = some e ∧ e.Tells u before f := by
  cases isSpot with
  | true =>
    obtain ⟨hsize, hprice⟩ : TellsSize u f item.size ∧ item.priceAvg.asFloat = f.price := by
      simpa [BitgetItem.Tells] using h
    simp only [parseBitgetItem, if_true, dropItem_of_size hu hsize, Bool.false_eq_true, if_false]
    exact ⟨_, rfl, ParsedExecution.tells hsize (.inl rfl) rfl hprice⟩
  | false =>
    simp only [BitgetItem.Tells, Bool.false_eq_true, if_false] at h
    obtain ⟨hsize, htotal, hprice⟩ := h
    have hquantity : ((item.fillQty.or item.baseVolume).or item.execQty).asFloat = f.quantity / u := by
      rcases hsize with hsize | ⟨habsent, hsize⟩
      · exact asFloat_size hu (asFloat_size hu hsize)
      · simpa [habsent] using asFloat_size hu hsize
    have hpaid : ((item.fillPrice.or item.price).or item.execPrice).asFloat = f.price := by
      rcases hprice with hprice | ⟨habsent, hprice⟩
      · exact asFloat_price (asFloat_price hprice)
      · simpa [habsent] using asFloat_price hprice
    simp only [parseBitgetItem, Bool.false_eq_true, if_false, dropItem_of_size hu hquantity]
    exact ⟨_, rfl, ParsedExecution.tells hquantity htotal rfl hpaid⟩

theorem parseGateItem_tells (hu : 0 < u) {market : MarketType} {item : GateItem}
    (h : item.Tells market u f) :
    ∃ e, parseGateItem market item = some e ∧ e.Tells u before f := by
  obtain ⟨hsize, hprice⟩ := h
  have hquantity : |(item.amount.or item.size).asFloat| = f.quantity / u := by
    cases market with
    | spot => rw [asFloat_size hu hsize, abs_of_pos (div_pos f.quantity_pos hu)]
    | swap =>
      obtain ⟨habsent, hsize⟩ := hsize
      rw [habsent, Scalar.absent_or, hsize]
  simp only [parseGateItem, dropItem_of_size hu hquantity, Bool.false_eq_true, if_false]
  exact ⟨_, rfl, ParsedExecution.tells hquantity (.inl rfl) rfl hprice⟩

theorem parseHtxItem_tells (hu : 0 < u) {market : MarketType} {item : HtxItem}
    (h : item.Tells market u f) :
    ∃ e, parseHtxItem market item = some e ∧ e.Tells u before f := by
  have hread : ((item.tradeVolume.or item.trade_volume).or item.volume).asFloat = f.quantity / u ∧
      ((item.tradePrice.or item.trade_price).or item.price).asFloat = f.price := by
    cases market with
    | spot => exact ⟨asFloat_size hu (asFloat_size hu h.1), asFloat_price (asFloat_price h.2)⟩
    | swap =>
      obtain ⟨hnoSize, hsize, hnoPrice, hprice⟩ := h
      rw [hnoSize, hnoPrice, Scalar.absent_or, Scalar.absent_or]
      exact ⟨asFloat_size hu hsize, asFloat_price hprice⟩
  have hquantity : |((item.tradeVolume.or item.trade_volume).or item.volume).asFloat| =
      f.quantity / u := by
    rw [hread.1, abs_of_pos (div_pos f.quantity_pos hu)]
  simp only [parseHtxItem, dropItem_of_size hu hquantity, Bool.false_eq_true, if_false]
  exact ⟨_, rfl, ParsedExecution.tells hquantity (.inl rfl) rfl hread.2⟩

theorem parseBinance_tells (hu : 0 < u) {o : BinanceOrder} (h : o.Tells u before f)
    (market : MarketType) :
    ∃ e, parseBinance market o = [e] ∧ e.Tells u before f := by
  obtain ⟨htype, hsize, htotal, hprice⟩ := h
  simp only [parseBinance, htype, not_true, if_false, dropItem_of_size hu hsize, Bool.false_eq_true]
  exact ⟨_, rfl, ParsedExecution.tells hsize htotal rfl (asFloat_price hprice)⟩

end

/-! ## From items to messages to rows -/

/-- The executions report the fills one by one. -/
def ExecutionsTell (u : ℚ) : ℚ → List ParsedExecution → List GridFill → Prop :=
  EachTells fun before e f => e.Tells u before f

theorem baseFilled_cons (f : GridFill) (fs : List GridFill) :
    baseFilled (f :: fs) = f.quantity + baseFilled fs := by
  simp [baseFilled]

theorem baseFilled_append (fs gs : List GridFill) :
    baseFilled (fs ++ gs) = baseFilled fs + baseFilled gs := by
  simp [baseFilled]

/-- A parser that keeps every telling item keeps the whole report. -/
theorem filterMap_tells {Item : Type} {u : ℚ} {tells : ℚ → Item → GridFill → Prop}
    {parseItem : Item → Option ParsedExecution}
    (hitem : ∀ before item f, tells before item f →
      ∃ e, parseItem item = some e ∧ e.Tells u before f) :
    ∀ {items : List Item} {fills : List GridFill} {before : ℚ},
      EachTells tells before items fills →
      ExecutionsTell u before (items.filterMap parseItem) fills := by
  intro items
  induction items with
  | nil =>
    intro fills before h
    cases fills with
    | nil => trivial
    | cons f fs => exact h.elim
  | cons item items ih =>
    intro fills before h
    cases fills with
    | nil => exact h.elim
    | cons f fs =>
      obtain ⟨e, he, htells⟩ := hitem _ _ _ h.1
      rw [List.filterMap_cons_some he]
      exact ⟨htells, ih h.2⟩

theorem ExecutionsTell.append {u : ℚ} {es es' : List ParsedExecution} {fs gs : List GridFill} :
    ∀ {before : ℚ}, ExecutionsTell u before es fs →
      ExecutionsTell u (before + baseFilled fs) es' gs →
      ExecutionsTell u before (es ++ es') (fs ++ gs) := by
  induction es generalizing fs with
  | nil =>
    intro before h h'
    cases fs with
    | nil => simpa [baseFilled] using h'
    | cons f fs => exact h.elim
  | cons e es ih =>
    intro before h h'
    cases fs with
    | nil => exact h.elim
    | cons f fs =>
      refine ⟨h.1, ih h.2 ?_⟩
      rwa [baseFilled_cons, ← add_assoc] at h'

/-- Every venue's parser keeps the report of a message. -/
theorem parse_tells {venue : Venue} {market : MarketType} {u before : ℚ} (hu : 0 < u)
    {msg : StreamMessage} {fills : List GridFill} (h : msg.Reports venue market u before fills) :
    ExecutionsTell u before (msg.parse market) fills := by
  cases msg <;> cases venue <;> try exact h.elim
  case binance.binance o =>
    match fills, h with
    | [f], ⟨htells, _⟩ =>
      obtain ⟨e, he, hexecution⟩ := parseBinance_tells hu htells market
      rw [StreamMessage.parse, he]
      exact ⟨hexecution, trivial⟩
  case okx.okx p =>
    rw [StreamMessage.parse, parseOkx, if_neg (not_not.mpr h.1)]
    refine filterMap_tells ?_ h.2
    exact fun _ _ _ hitem => parseOkxItem_tells hu hitem p.instType
  case bybit.bybit p =>
    rw [StreamMessage.parse, parseBybit, if_pos h.1]
    refine filterMap_tells ?_ h.2
    exact fun _ _ _ hitem => parseBybitItem_tells hu hitem
  case bitget.bitget p =>
    obtain ⟨hchannel, hinst, htells⟩ := h
    rw [StreamMessage.parse, parseBitget, if_neg (not_not.mpr hchannel), decide_eq_decide.mpr hinst]
    refine filterMap_tells ?_ htells
    exact fun _ _ _ hitem => parseBitgetItem_tells hu hitem
  case gate.gate p =>
    rw [StreamMessage.parse, parseGate, if_neg (not_not.mpr h.1)]
    refine filterMap_tells ?_ h.2
    exact fun _ _ _ hitem => parseGateItem_tells hu hitem
  case htx.htx p =>
    rw [StreamMessage.parse, parseHtx, if_pos h.1]
    refine filterMap_tells ?_ h.2
    exact fun _ _ _ hitem => parseHtxItem_tells hu hitem

/-- All messages together report all fills. -/
theorem messages_tell {venue : Venue} {market : MarketType} {u before : ℚ} (hu : 0 < u)
    {msgs : List StreamMessage} {fills : List GridFill}
    (h : MessagesReport venue market u before msgs fills) :
    ExecutionsTell u before (msgs.flatMap (StreamMessage.parse market)) fills := by
  induction h with
  | done before => trivial
  | next fs rest hmsg _ ih =>
    rw [List.flatMap_cons]
    exact (parse_tells hu hmsg).append ih

theorem storedRows_tell {u : ℚ} (quote : Nat → Option ℚ) {es : List ParsedExecution} :
    ∀ {fills : List GridFill} {before : ℚ} (n : Nat), ExecutionsTell u before es fills →
      EachTells (fun before ev f => EventTells u before f ev) before (storedRows quote n es) fills := by
  induction es with
  | nil =>
    intro fills before n h
    cases fills with
    | nil => trivial
    | cons f fs => exact h.elim
  | cons e es ih =>
    intro fills before n h
    cases fills with
    | nil => exact h.elim
    | cons f fs => exact ⟨h.1 n (quote n), ih (n + 1) h.2⟩

/-! ## The stream hands over the reported sizes -/

theorem EventTells.gridTotal {u before : ℚ} {f : GridFill} {ev : ExecutionEvent}
    {o : GridRestingOrder} (hu : 0 < u) (hb : 0 ≤ before) (h : EventTells u before f ev)
    (ho : o.filledQuantity = before / u) : gridTotal ev o = (before + f.quantity) / u := by
  have hsize : 0 < f.quantity / u := div_pos f.quantity_pos hu
  have hbefore : 0 ≤ before / u := div_nonneg hb hu.le
  rcases h.cumulative with hc | hc
  · have hmode : ev.cumulativeMode = false := by simp [ExecutionEvent.cumulativeMode, h.single, hc]
    simp only [AlgoTrade.gridTotal, hmode, Bool.false_eq_true, if_false, h.quantity, ho,
      max_eq_right hsize.le, add_div]
  · have htotal : 0 < (before + f.quantity) / u := by rw [add_div]; linarith
    have hmode : ev.cumulativeMode = true := by
      simp [ExecutionEvent.cumulativeMode, hc, htotal]
    simp only [AlgoTrade.gridTotal, hmode, if_true, hc, ho, max_eq_right htotal.le]
    exact max_eq_right (by rw [add_div]; linarith)

/-- An event either leaves what was handed over, or hands over the whole total;
it does the latter when its own size is above the threshold. -/
theorem processed_processGrid {u before : ℚ} {f : GridFill} {ev : ExecutionEvent}
    {o : GridRestingOrder} (hu : 0 < u) (hb : 0 ≤ before) (h : EventTells u before f ev)
    (ho : o.filledQuantity = before / u) (hp : o.processedFillQty ≤ o.filledQuantity) :
    let r := processGrid ev true o
    (r.order.processedFillQty = o.processedFillQty + r.booked) ∧
      r.order.processedFillQty ≤ r.order.filledQuantity ∧
      (gridEpsilon < f.quantity / u → r.order.processedFillQty = r.order.filledQuantity) := by
  intro r
  have htotal := h.gridTotal hu hb ho
  have hsize : 0 < f.quantity / u := div_pos f.quantity_pos hu
  have hover : o.processedFillQty + f.quantity / u ≤ gridTotal ev o := by
    rw [htotal, add_div, ← ho]
    linarith
  have hbooks : r.order.processedFillQty = o.processedFillQty + r.booked :=
    processGrid_books (by linarith)
  have hdelta : gridDelta ev o = gridTotal ev o - o.processedFillQty :=
    max_eq_right (by linarith)
  have hprice : 0 < gridPrice ev o := by
    simp [gridPrice, orElse, h.price, f.price_pos.ne', f.price_pos]
  refine ⟨hbooks, ?_⟩
  rw [show r.order.processedFillQty = o.processedFillQty + r.booked from hbooks,
    show r.order.filledQuantity = gridTotal ev o from filledQuantity_processGrid ev true o]
  cases hb : gridBooks ev true o with
  | true =>
    have : r.booked = gridTotal ev o - o.processedFillQty := (booked_processGrid hb).trans hdelta
    exact ⟨by linarith, fun _ => by linarith⟩
  | false =>
    have hnone : r.booked = 0 := by
      show (processGrid ev true o).booked = 0
      rw [processGrid_unbooked hb]
      rfl
    have hsmall : gridDelta ev o ≤ gridEpsilon := by
      simp only [gridBooks, decide_eq_false_iff_not, not_and] at hb
      by_contra hlarge
      exact hb (not_le.mp hlarge) hprice trivial
    exact ⟨by linarith, fun hlarge => by linarith⟩

/-- **The stream books the reported sizes**: what was handed over is the total of
the sizes in the venue's unit, when the last size is above the threshold. -/
theorem streamGrid_booked {u : ℚ} (hu : 0 < u) {evs : List ExecutionEvent} :
    ∀ {fills : List GridFill} {before : ℚ} {o : GridRestingOrder},
      EachTells (fun before ev f => EventTells u before f ev) before evs fills →
      0 ≤ before → o.filledQuantity = before / u → o.processedFillQty ≤ o.filledQuantity →
      fills ≠ [] → (∀ f ∈ fills.getLast?, gridEpsilon < f.quantity / u) →
      o.processedFillQty + (streamGrid o evs).2 = (before + baseFilled fills) / u := by
  induction evs with
  | nil =>
    intro fills before o h _ _ _ hne _
    cases fills with
    | nil => exact absurd rfl hne
    | cons f fs => exact h.elim
  | cons ev evs ih =>
    intro fills before o h hb ho hp hne hlast
    cases fills with
    | nil => exact absurd rfl hne
    | cons f fs =>
      obtain ⟨hev, hevs⟩ := h
      obtain ⟨hbooked, hle, hwhole⟩ := processed_processGrid hu hb hev ho hp
      have hfilled : (processGrid ev true o).order.filledQuantity = (before + f.quantity) / u := by
        rw [filledQuantity_processGrid]
        exact hev.gridTotal hu hb ho
      simp only [streamGrid, baseFilled_cons]
      cases fs with
      | nil =>
        cases evs with
        | cons _ _ => exact hevs.elim
        | nil =>
          have := hwhole (hlast f rfl)
          simp only [streamGrid, baseFilled, List.map_nil, List.sum_nil, add_zero]
          linarith
      | cons g gs =>
        have := ih hevs (add_nonneg hb f.quantity_pos.le) hfilled hle (List.cons_ne_nil g gs)
          (by simpa [List.getLast?_cons_cons] using hlast)
        rw [add_assoc] at this
        linarith

/-! ## The snapshot reader yields base units -/

theorem TellsFilled.asFloat_or {q : ℚ} {v a : Scalar} {aliases : List Scalar}
    (h : TellsFilled q v aliases) (ha : a ∈ aliases) : (v.or a).asFloat = q :=
  Scalar.asFloat_or h.1 fun h0 => h.2 h0 a ha

theorem bitgetMixBaseQty_of_tells {q : ℚ} (hq : 0 ≤ q) {lookup : ContractLookup}
    {data : OrderSnapshot}
    (h : TellsFilled q data.baseVolume [data.fillSize, data.filledQty, data.filled]) :
    bitgetMixBaseQty .swap lookup data = q := by
  obtain ⟨hbase, hzero⟩ := h
  rcases hq.eq_or_lt with rfl | hpos
  · have hsize := hzero rfl data.fillSize (by simp)
    have hqty := hzero rfl data.filledQty (by simp)
    have hfilled := hzero rfl data.filled (by simp)
    have hsz : (data.fillSize.or data.filledQty).asFloat = 0 :=
      Scalar.asFloat_or hsize fun _ => hqty
    have hrest : (data.filledQty.or (.num 0)).asFloat = 0 := Scalar.asFloat_or hqty fun _ => rfl
    simp only [bitgetMixBaseQty, hbase, hsz, lt_irrefl, if_false, false_and]
    exact Scalar.asFloat_or hfilled fun _ => hrest
  · simp only [bitgetMixBaseQty, hbase, hpos, if_true]

theorem gateFuturesContracts_of_tells {q : ℚ} (hq : 0 ≤ q) {data : OrderSnapshot}
    (h : data.Tells .gate .swap q) : gateFuturesContracts data = q := by
  have hsize := abs_nonneg data.size.asFloat
  have hleft := abs_nonneg data.left.asFloat
  simp only [OrderSnapshot.Tells] at h
  simp only [gateFuturesContracts]
  rcases h with ⟨hc, hdone⟩ | ⟨hc, hdone⟩
  · rw [hc]
    rcases hq.eq_or_lt with rfl | hpos
    · have := hdone rfl
      simp [this]
    · simp [hpos]
  · rw [hc, hdone, max_eq_right hq, if_neg (lt_irrefl 0)]
    split
    · rfl
    · linarith

/-- Contracts times the contract value, as the readers of futures compute it. -/
theorem contracts_mul {q size : ℚ} (hq : 0 ≤ q) : (if q ≤ 0 then 0 else |q| * size) = q * size := by
  split
  next h => rw [le_antisymm h hq, zero_mul]
  next => rw [abs_of_nonneg hq]

/-- **The snapshot reader yields base units.** -/
theorem extractGridFillBaseQty_of_tells {venue : Venue} {market : MarketType} {q c : ℚ} (hq : 0 ≤ q)
    {lookup : ContractLookup} (hlookup : venue.inContracts market = true → contractSize lookup = c)
    {data : OrderSnapshot} (h : data.Tells venue market q) :
    extractGridFillBaseQty (venue.client market) market lookup data = q * venue.unit market c := by
  cases venue <;> cases market <;>
    simp only [extractGridFillBaseQty, Venue.client, Venue.unit, Venue.inContracts,
      Bool.false_eq_true, if_false, if_true, mul_one]
  case binance.spot | binance.swap | bybit.spot | bybit.swap => exact h.1
  case okx.spot => exact h.asFloat_or (by simp)
  case okx.swap => rw [TellsFilled.asFloat_or h (by simp), hlookup rfl]
  case bitget.spot =>
    exact Scalar.asFloat_or (h.asFloat_or (by simp)) fun h0 => h.2 h0 _ (by simp)
  case bitget.swap => exact bitgetMixBaseQty_of_tells hq h
  case gate.spot => exact h.asFloat_or (by simp)
  case gate.swap => rw [gateFuturesContracts_of_tells hq h, contracts_mul hq, hlookup rfl]
  case htx.spot =>
    exact Scalar.asFloat_or (h.asFloat_or (by simp)) fun h0 => h.2 h0 _ (by simp)
  case htx.swap =>
    have : ((data.trade_volume.or data.tradeVolume).or data.volume).asFloat = q :=
      Scalar.asFloat_or (TellsFilled.asFloat_or h (by simp)) fun h0 => h.2 h0 _ (by simp)
    rw [this, contracts_mul hq, hlookup rfl]

/-! ## Same unit -/

theorem Venue.unit_pos {venue : Venue} {market : MarketType} {c : ℚ} (hc : 0 < c) :
    0 < venue.unit market c := by
  unfold Venue.unit
  split
  · exact hc
  · exact one_pos

theorem le_baseFilled {fills : List GridFill} {f : GridFill} (h : f ∈ fills) :
    f.quantity ≤ baseFilled fills :=
  List.single_le_sum (fun q hq => by
    obtain ⟨g, -, rfl⟩ := List.mem_map.mp hq
    exact g.quantity_pos.le) _ (List.mem_map_of_mem h)

theorem baseFilled_nonneg (fills : List GridFill) : 0 ≤ baseFilled fills :=
  List.sum_nonneg fun q hq => by
    obtain ⟨g, -, rfl⟩ := List.mem_map.mp hq
    exact g.quantity_pos.le

/-- The stream books the base quantity in reported units. -/
theorem streamBooked_eq {venue : Venue} {market : MarketType} {u : ℚ} (hu : 0 < u)
    {msgs : List StreamMessage} {fills : List GridFill} {o : GridRestingOrder} (ho : Unfilled o)
    (hmsgs : MessagesReport venue market u 0 msgs fills)
    (hlast : ∀ f ∈ fills.getLast?, gridEpsilon < f.quantity / u) (quote : Nat → Option ℚ) :
    streamBooked market quote o msgs = baseFilled fills / u := by
  have hrows := storedRows_tell quote 1 (messages_tell hu hmsgs)
  have hstart : o.filledQuantity = 0 / u := by rw [ho.unobserved, zero_div]
  unfold streamBooked
  cases fills with
  | nil =>
    generalize storedRows quote 1 _ = evs at hrows
    cases evs with
    | nil => simp [streamGrid, baseFilled]
    | cons ev evs => exact hrows.elim
  | cons f fs =>
    have := streamGrid_booked hu hrows le_rfl hstart
      (by rw [ho.unobserved, ho.unprocessed]) (List.cons_ne_nil f fs) hlast
    rwa [ho.unprocessed, zero_add, zero_add] at this

/-- What the poller books when the snapshot says `q` in base units. -/
theorem pollBooked_eq {venue : Venue} {market : MarketType} {lookup : ContractLookup}
    {o : GridRestingOrder} (ho : Unfilled o) {data : OrderSnapshot} {q : ℚ}
    (hq : extractGridFillBaseQty (venue.client market) market lookup data = q)
    (hlarge : gridEpsilon < q) : pollBooked venue market lookup o data = q := by
  have hpos : 0 < q := gridEpsilon_pos.trans hlarge
  have htotal : pollTotal (parseGridOrderFill (venue.client market) market lookup data) o = q := by
    simp [pollTotal, parseGridOrderFill, hq, orElse, hpos.ne', not_le.mpr hpos]
  unfold pollBooked
  rw [booked_pollOrder (parseGridOrderFill_status _ _ _ _) (by rwa [htotal, ho.unprocessed, sub_zero]),
    htotal, ho.unprocessed, sub_zero]

/-- With nothing filled the poller books nothing unless it reads the status as
filled, and then it books the whole order. -/
theorem pollBooked_unfilled {venue : Venue} {market : MarketType} {lookup : ContractLookup}
    {o : GridRestingOrder} (ho : Unfilled o) {data : OrderSnapshot}
    (hq : extractGridFillBaseQty (venue.client market) market lookup data = 0) :
    pollBooked venue market lookup o data = 0 ↔ orderStatusFromData data ≠ .filled := by
  have htotal : pollTotal (parseGridOrderFill (venue.client market) market lookup data) o =
      if orderStatusFromData data = .filled then o.quantity else 0 := by
    simp [pollTotal, parseGridOrderFill, hq, orElse, ho.unobserved]
  unfold pollBooked
  by_cases hfilled : orderStatusFromData data = .filled
  · rw [if_pos hfilled] at htotal
    rw [booked_pollOrder (parseGridOrderFill_status _ _ _ _)
      (by rw [htotal, ho.unprocessed, sub_zero]; exact ho.quantity), htotal, ho.unprocessed, sub_zero]
    have := gridEpsilon_pos.trans ho.quantity
    simp [hfilled, this.ne']
  · rw [if_neg hfilled] at htotal
    rw [booked_pollOrder_eq_zero (by
      rw [htotal, ho.unprocessed, sub_zero]
      exact gridEpsilon_pos.le)]
    simp [hfilled]

/-- Both readers book the base quantity. -/
def SameUnit (venue : Venue) (market : MarketType) (lookup : ContractLookup)
    (quote : Nat → Option ℚ) (o : GridRestingOrder) (msgs : List StreamMessage)
    (data : OrderSnapshot) (fills : List GridFill) : Prop :=
  streamBooked market quote o msgs = baseFilled fills ∧
    pollBooked venue market lookup o data = baseFilled fills

/-- **Same unit exactly when a contract is a base unit.**  `hlast`: the last fill
is no dust, which neither reader hands over. -/
theorem sameUnit_iff {venue : Venue} {market : MarketType} {c : ℚ} (hc : 0 < c)
    {lookup : ContractLookup} (hlookup : (lookup.getD .absent).asFloat = c)
    {msgs : List StreamMessage} {data : OrderSnapshot} {fills : List GridFill}
    (hmsgs : MessagesReport venue market (venue.unit market c) 0 msgs fills)
    (hdata : data.Tells venue market (baseFilled fills / venue.unit market c))
    {o : GridRestingOrder} (ho : Unfilled o)
    (hlast : ∀ f ∈ fills.getLast?, gridEpsilon < f.quantity / venue.unit market c)
    (quote : Nat → Option ℚ) :
    SameUnit venue market lookup quote o msgs data fills ↔
      (venue.inContracts market = true → c = 1 ∨ fills = []) ∧
        (fills = [] → orderStatusFromData data ≠ .filled) := by
  have hu : 0 < venue.unit market c := Venue.unit_pos hc
  have hstream := streamBooked_eq hu ho hmsgs hlast quote
  have hextract : extractGridFillBaseQty (venue.client market) market lookup data =
      baseFilled fills := by
    rw [extractGridFillBaseQty_of_tells (div_nonneg (baseFilled_nonneg fills) hu.le)
      (fun _ => contractSize_of_pos hc hlookup) hdata, div_mul_cancel₀ _ hu.ne']
  unfold SameUnit
  rw [hstream]
  rcases fills.eq_nil_or_concat' with rfl | ⟨init, f, rfl⟩
  · have hnone : baseFilled [] = 0 := rfl
    rw [hnone, zero_div, pollBooked_unfilled ho (hextract.trans hnone)]
    simp
  · have hlast : gridEpsilon < f.quantity / venue.unit market c := hlast f (by simp)
    have hle : f.quantity ≤ baseFilled (init ++ [f]) := le_baseFilled (by simp)
    have hpos : 0 < baseFilled (init ++ [f]) := f.quantity_pos.trans_le hle
    have hunit : baseFilled (init ++ [f]) / venue.unit market c = baseFilled (init ++ [f]) ↔
        (venue.inContracts market = true → c = 1) := by
      rw [div_eq_iff hu.ne', eq_comm, mul_eq_left₀ hpos.ne']
      unfold Venue.unit
      split
      next h => simp [h]
      next h => simp [h]
    have hne : init ++ [f] ≠ [] := by simp
    rw [hunit]
    constructor
    · exact fun h => ⟨fun hin => .inl (h.1 hin), fun hnil => absurd hnil hne⟩
    · rintro ⟨h, -⟩
      replace h := fun hin => (h hin).resolve_right hne
      have hone : venue.unit market c = 1 := by
        unfold Venue.unit
        split
        next hin => exact h hin
        next => rfl
      rw [hone, div_one] at hlast
      exact ⟨h, pollBooked_eq ho hextract (hlast.trans_le hle)⟩

/-- An OKX swap of 0.01 BTC a contract. -/
def okxCtVal : ContractLookup := some (.text (1 / 100))

def okxEntry : GridRestingOrder where
  id := 1
  cellIndex := 0
  purpose := .longEntry
  price := 60000
  quantity := 1 / 100

/-- One contract of the swap: 0.01 BTC. -/
def okxFill : GridFill := ⟨1 / 100, 60000, by norm_num, by norm_num⟩

def okxFillMessage : StreamMessage :=
  .okx {
    channel := "orders"
    instType := "SWAP"
    data := [{
      tradeId := "101"
      fillSz := .text 1
      accFillSz := .text 1
      fillPx := .text 60000
      state := "filled" }] }

def okxFilledSnapshot : OrderSnapshot where
  accFillSz := .text 1
  avgPx := .text 60000
  state := "filled"

theorem okxFillMessage_reports :
    MessagesReport .okx .swap (1 / 100) 0 [okxFillMessage] [okxFill] := by
  refine .next [okxFill] [] ⟨by decide, ⟨?_, ?_, rfl⟩, trivial⟩ (.done _)
  · norm_num [TellsSize, okxFill]
  · exact .inr (by norm_num [okxFill])

theorem okxFilledSnapshot_tells :
    okxFilledSnapshot.Tells .okx .swap (baseFilled [okxFill] / (1 / 100)) := by
  refine ⟨?_, ?_⟩
  · norm_num [okxFilledSnapshot, baseFilled, okxFill]
  · norm_num [baseFilled, okxFill]

theorem sameUnit_iff_okxSwap :
    SameUnit .okx .swap okxCtVal (fun _ => none) okxEntry [okxFillMessage] okxFilledSnapshot
        [okxFill] ↔
      (Venue.okx.inContracts .swap = true → (1 / 100 : ℚ) = 1 ∨ [okxFill] = []) ∧
        ([okxFill] = [] → orderStatusFromData okxFilledSnapshot ≠ .filled) :=
  @sameUnit_iff .okx .swap (1 / 100) (by norm_num) okxCtVal rfl [okxFillMessage] okxFilledSnapshot
    [okxFill] okxFillMessage_reports okxFilledSnapshot_tells okxEntry
    ⟨by norm_num [gridEpsilon, okxEntry], rfl, rfl⟩
    (by norm_num [gridEpsilon, okxFill, Venue.unit, Venue.inContracts])
    (fun _ => none)

/-- One contract of 0.01 BTC: the stream books 1, the poller 0.01. -/
theorem okxSwap_streamBooksContracts :
    MessagesReport .okx .swap (1 / 100) 0 [okxFillMessage] [okxFill] ∧
      okxFilledSnapshot.Tells .okx .swap (baseFilled [okxFill] / (1 / 100)) ∧
      streamBooked .swap (fun _ => none) okxEntry [okxFillMessage] = 1 ∧
      pollBooked .okx .swap okxCtVal okxEntry okxFilledSnapshot = 1 / 100 ∧
      baseFilled [okxFill] = 1 / 100 := by
  exact ⟨okxFillMessage_reports, okxFilledSnapshot_tells, by decide +kernel, by decide +kernel,
    by decide +kernel⟩

end AlgoTrade
