import AlgoTrade.Fills.Stream
import AlgoTrade.Lib.Json
import Mathlib.Data.List.Infix

/-! # Private-stream messages of the six venues

`parseBinance` to `parseHtx` are the venue parsers.  A message's items keep the
members the parsers read under the venue's own keys.  Order and client ids, the
symbol, the side, the maker flag and the time carry no quantity and are left out.

* `ParsedExecution.row`: the row of `qd_execution_events` an execution becomes. -/

namespace AlgoTrade

open Json (Scalar)

/-! ## Text -/

/-- `str.strip().lower()`. -/
def stripLower (s : String) : String :=
  let inner := s.toList.dropWhile Char.isWhitespace
  String.ofList (((inner.reverse.dropWhile Char.isWhitespace).reverse).map Char.toLower)

/-- `needle in s`. -/
def hasSubstring (needle s : String) : Bool := needle.toList <:+: s.toList

def normalizeStatus (value : String) : String :=
  let raw := String.ofList ((stripLower value).toList.map fun c => if c = '-' then '_' else c)
  if raw ∈ ["filled", "fill", "closed", "done", "fully_filled", "full_fill"] then "filled"
  else if raw ∈ ["partiallyfilled", "partially_filled", "partial_fill", "partial"] then "partial"
  else if raw ∈ ["cancelled", "canceled", "expired", "rejected", "failed"] then "cancelled"
  else if raw ∈ ["new", "open", "live", "submitted", "accepted"] then "open"
  else raw

/-- `a or b` on texts. -/
def textOr (a b : String) : String := if a = "" then b else a

/-! ## Parsed executions -/

/-- A fee component: currency and amount, positive for an expense. -/
abbrev FeeComponent := String × ℚ

/-- What a parser emits for one execution. -/
structure ParsedExecution where
  marketType : MarketType
  exchangeFillId : String
  orderStatus : String
  price : ℚ
  quantity : ℚ
  cumulativeQuantity : ℚ := 0
  isCumulative : Bool := false
  realizedPnl : Option ℚ := none
  feeStatus : String
  fees : List FeeComponent := []
  deriving DecidableEq, Repr

/-- Fee components of one currency are added up. -/
def addFee (fees : Fees) (component : FeeComponent) : Fees :=
  if fees.any (·.1 = component.1) then
    fees.map fun entry => if entry.1 = component.1 then (entry.1, entry.2 + component.2) else entry
  else fees ++ [component]

/-- The stored row, under the id the insertion gave it and with the quote fee
that `_fees` finds. -/
def ParsedExecution.row (e : ParsedExecution) (id : Nat) (commissionQuote : Option ℚ) :
    ExecutionEvent where
  id := id
  quantity := e.quantity
  cumulativeQuantity := e.cumulativeQuantity
  isCumulative := e.isCumulative
  price := e.price
  orderStatus :=
    if e.orderStatus = "filled" then .filled
    else if e.orderStatus = "cancelled" then .cancelled
    else .other
  feeStatus := e.feeStatus
  fees := e.fees.foldl addFee []
  commissionQuote := commissionQuote
  realizedPnl := e.realizedPnl
  marketType := some e.marketType

/-- `_fee`. -/
def feeOf (currency : String) (amount : ℚ) (signedDeduction : Bool) : List FeeComponent :=
  let ccy := (stripLower currency).toUpper
  let value := if signedDeduction then -amount else amount
  if ccy = "" ∨ |value| ≤ 1 / 10 ^ 18 then [] else [(ccy, value)]

def optionalPnl (v : Scalar) : Option ℚ := if v.given then some v.asFloat else none

def actualWhen (fees : List FeeComponent) : String :=
  if fees.isEmpty then "actual_zero" else "actual"

/-- Every parser drops an item without a quantity that names no fill. -/
def dropItem (quantity : ℚ) (fillId : String) : Bool := quantity ≤ 0 ∧ fillId = ""

/-! ## Binance -/

structure BinanceOrder where
  eventType : String
  t : String := ""
  l : Scalar := .absent
  z : Scalar := .absent
  L : Scalar := .absent
  ap : Scalar := .absent
  X : String := ""
  rp : Scalar := .absent
  N : String := ""
  n : Scalar := .absent
  deriving DecidableEq, Repr

/-- `parse_binance`, on the order object of the payload. -/
def parseBinance (marketType : MarketType) (data : BinanceOrder) : List ParsedExecution :=
  if data.eventType ∉ ["executionReport", "ORDER_TRADE_UPDATE"] then []
  else if dropItem data.l.asFloat data.t then []
  else [{
    marketType := marketType
    exchangeFillId := data.t
    orderStatus := normalizeStatus data.X
    price := (data.L.or data.ap).asFloat
    quantity := data.l.asFloat
    cumulativeQuantity := data.z.asFloat
    realizedPnl := if data.rp = .absent then none else some data.rp.asFloat
    feeStatus := if data.N = "" then "actual_zero" else "actual"
    fees := feeOf data.N data.n.asFloat false }]

/-! ## OKX -/

structure OkxItem where
  tradeId : String := ""
  fillId : String := ""
  instType : String := ""
  fillSz : Scalar := .absent
  accFillSz : Scalar := .absent
  fillPx : Scalar := .absent
  avgPx : Scalar := .absent
  state : String := ""
  fillPnl : Scalar := .absent
  feeCcy : String := ""
  fillFeeCcy : String := ""
  fee : Scalar := .absent
  fillFee : Scalar := .absent
  rebateCcy : String := ""
  rebate : Scalar := .absent
  deriving DecidableEq, Repr

structure OkxPayload where
  channel : String
  instType : String := ""
  data : List OkxItem
  deriving DecidableEq, Repr

def okxFees (item : OkxItem) : List FeeComponent :=
  let feeValue := if item.fee.given then item.fee else item.fillFee
  feeOf (textOr item.feeCcy item.fillFeeCcy) feeValue.asFloat true
    ++ feeOf item.rebateCcy (-item.rebate.asFloat) false

def parseOkxItem (argInstType : String) (item : OkxItem) : Option ParsedExecution :=
  let fillId := textOr item.tradeId item.fillId
  if dropItem item.fillSz.asFloat fillId then none
  else some {
    marketType := if (textOr item.instType argInstType).toUpper = "SPOT" then .spot else .swap
    exchangeFillId := fillId
    orderStatus := normalizeStatus item.state
    price := (item.fillPx.or item.avgPx).asFloat
    quantity := item.fillSz.asFloat
    cumulativeQuantity := item.accFillSz.asFloat
    realizedPnl := optionalPnl item.fillPnl
    feeStatus := actualWhen (okxFees item)
    fees := okxFees item }

/-- `parse_okx`. -/
def parseOkx (payload : OkxPayload) : List ParsedExecution :=
  if payload.channel ∉ ["orders", "fills"] then []
  else payload.data.filterMap (parseOkxItem payload.instType)

/-! ## Bybit -/

structure BybitItem where
  execId : String := ""
  category : String := ""
  execQty : Scalar := .absent
  execPrice : Scalar := .absent
  leavesQty : Scalar := .absent
  execPnl : Scalar := .absent
  feeCurrency : String := ""
  execFee : Scalar := .absent
  extraFees : List (String × Scalar) := []
  deriving DecidableEq, Repr

structure BybitPayload where
  topic : String
  data : List BybitItem
  deriving DecidableEq, Repr

def bybitFees (item : BybitItem) : List FeeComponent :=
  feeOf item.feeCurrency item.execFee.asFloat false
    ++ item.extraFees.flatMap fun extra =>
      feeOf (textOr extra.1 item.feeCurrency) extra.2.asFloat false

def parseBybitItem (item : BybitItem) : Option ParsedExecution :=
  if dropItem item.execQty.asFloat item.execId then none
  else some {
    marketType := if item.category.toLower = "spot" then .spot else .swap
    exchangeFillId := item.execId
    orderStatus :=
      if item.leavesQty.given ∧ item.leavesQty.asFloat ≤ 0 then "filled" else "partial"
    price := item.execPrice.asFloat
    quantity := item.execQty.asFloat
    realizedPnl := optionalPnl item.execPnl
    feeStatus := actualWhen (bybitFees item)
    fees := bybitFees item }

/-- `parse_bybit`. -/
def parseBybit (payload : BybitPayload) : List ParsedExecution :=
  if "execution".toList <+: payload.topic.toList then payload.data.filterMap parseBybitItem else []

/-! ## Bitget -/

/-- An entry of `feeDetail`. -/
structure BitgetFeeDetail where
  feeCoin : String := ""
  coin : String := ""
  totalFee : Scalar := .absent
  fee : Scalar := .absent
  deriving DecidableEq, Repr

structure BitgetItem where
  tradeId : String := ""
  execId : String := ""
  size : Scalar := .absent
  fillQty : Scalar := .absent
  baseVolume : Scalar := .absent
  execQty : Scalar := .absent
  accBaseVolume : Scalar := .absent
  priceAvg : Scalar := .absent
  fillPrice : Scalar := .absent
  price : Scalar := .absent
  execPrice : Scalar := .absent
  status : String := ""
  profit : Scalar := .absent
  feeDetail : List BitgetFeeDetail := []
  fillFeeCoin : String := ""
  feeCoin : String := ""
  fillFee : Scalar := .absent
  fee : Scalar := .absent
  deriving DecidableEq, Repr

structure BitgetPayload where
  channel : String
  instType : String
  data : List BitgetItem
  deriving DecidableEq, Repr

/-- Bitget reports deductions with either sign; both are expenses. -/
def bitgetFee (currency : String) (value : Scalar) : List FeeComponent :=
  if currency = "" ∨ |value.asFloat| ≤ 1 / 10 ^ 18 then []
  else [(currency.toUpper, |value.asFloat|)]

def bitgetFees (item : BitgetItem) : List FeeComponent :=
  let detailed := item.feeDetail.flatMap fun d =>
    bitgetFee (textOr d.feeCoin d.coin) (if d.totalFee.given then d.totalFee else d.fee)
  if detailed.isEmpty then
    bitgetFee (textOr item.fillFeeCoin item.feeCoin) (item.fillFee.or item.fee)
  else detailed

def parseBitgetItem (isSpot : Bool) (item : BitgetItem) : Option ParsedExecution :=
  let quantity :=
    if isSpot then item.size.asFloat
    else ((item.fillQty.or item.baseVolume).or item.execQty).asFloat
  let fillId := textOr item.tradeId item.execId
  if dropItem quantity fillId then none
  else some {
    marketType := if isSpot then .spot else .swap
    exchangeFillId := fillId
    orderStatus := normalizeStatus (textOr item.status "partial")
    price :=
      if isSpot then item.priceAvg.asFloat
      else ((item.fillPrice.or item.price).or item.execPrice).asFloat
    quantity := quantity
    cumulativeQuantity := if isSpot then 0 else item.accBaseVolume.asFloat
    realizedPnl := optionalPnl item.profit
    feeStatus := actualWhen (bitgetFees item)
    fees := bitgetFees item }

/-- `parse_bitget`. -/
def parseBitget (payload : BitgetPayload) : List ParsedExecution :=
  if payload.channel ∉ ["fill", "orders"] then []
  else payload.data.filterMap (parseBitgetItem (payload.instType.toUpper = "SPOT"))

/-! ## Gate -/

structure GateItem where
  id : String := ""
  trade_id : String := ""
  amount : Scalar := .absent
  size : Scalar := .absent
  price : Scalar := .absent
  pnl : Scalar := .absent
  fee : Scalar := .absent
  fee_currency : String := ""
  /-- The quote currency of the item's symbol, empty when it has none. -/
  quoteCurrency : String := ""
  deriving DecidableEq, Repr

structure GatePayload where
  channel : String
  result : List GateItem
  deriving DecidableEq, Repr

def parseGateItem (marketType : MarketType) (item : GateItem) : Option ParsedExecution :=
  let quantity := |(item.amount.or item.size).asFloat|
  let fillId := textOr item.id item.trade_id
  let named := stripLower item.fee_currency
  let feeCcy := if named = "" ∧ marketType ≠ .spot then item.quoteCurrency else named
  if dropItem quantity fillId then none
  else some {
    marketType := marketType
    exchangeFillId := fillId
    orderStatus := "partial"
    price := item.price.asFloat
    quantity := quantity
    realizedPnl := optionalPnl item.pnl
    feeStatus := if 1 / 10 ^ 18 < |item.fee.asFloat| then "actual" else "actual_zero"
    fees := feeOf feeCcy item.fee.asFloat false }

/-- `parse_gate`. -/
def parseGate (marketType : MarketType) (payload : GatePayload) : List ParsedExecution :=
  if payload.channel ∉ ["spot.usertrades", "futures.usertrades"] then []
  else payload.result.filterMap (parseGateItem marketType)

/-! ## HTX -/

structure HtxItem where
  tradeId : String := ""
  trade_id : String := ""
  match_id : String := ""
  tradeVolume : Scalar := .absent
  trade_volume : Scalar := .absent
  volume : Scalar := .absent
  tradePrice : Scalar := .absent
  trade_price : Scalar := .absent
  price : Scalar := .absent
  real_profit : Scalar := .absent
  feeCurrency : String := ""
  fee_asset : String := ""
  feeCurrencyCode : String := ""
  transactFee : Scalar := .absent
  trade_fee : Scalar := .absent
  deriving DecidableEq, Repr

structure HtxPayload where
  topic : String
  data : List HtxItem
  deriving DecidableEq, Repr

def htxFees (item : HtxItem) : List FeeComponent :=
  let value := if item.transactFee = .absent then item.trade_fee else item.transactFee
  feeOf (textOr (textOr item.feeCurrency item.fee_asset) item.feeCurrencyCode) value.asFloat false

def parseHtxItem (marketType : MarketType) (item : HtxItem) : Option ParsedExecution :=
  let quantity := |((item.tradeVolume.or item.trade_volume).or item.volume).asFloat|
  let fillId := textOr (textOr item.tradeId item.trade_id) item.match_id
  if dropItem quantity fillId then none
  else some {
    marketType := marketType
    exchangeFillId := fillId
    orderStatus := "partial"
    price := ((item.tradePrice.or item.trade_price).or item.price).asFloat
    quantity := quantity
    realizedPnl := optionalPnl item.real_profit
    feeStatus := actualWhen (htxFees item)
    fees := htxFees item }

/-- `parse_htx`. -/
def parseHtx (marketType : MarketType) (payload : HtxPayload) : List ParsedExecution :=
  if hasSubstring "trade.clearing" payload.topic || hasSubstring "matchOrders" payload.topic then
    payload.data.filterMap (parseHtxItem marketType)
  else []

end AlgoTrade
