import AlgoTrade.Grid.RestingOrder
import AlgoTrade.Streams.Normalizers

/-! # Order snapshots and the base quantity they say was filled

`parseGridOrderFill` is `parse_grid_order_fill`: the filled base quantity, the
average price and the status of one REST order snapshot, by exchange client.

* `parseGridOrderFill_status`: a snapshot is never taken for no answer. -/

namespace AlgoTrade

open Json (Scalar)

/-- The REST client classes the extraction tells apart. -/
inductive GridClient
  | binanceFutures | binanceSpot | bybit | bitgetMix | bitgetSpot
  | okx | gateFutures | gateSpot | htx | other
  deriving DecidableEq, Repr

/-- The venue's contract size of the instrument as the client reports it;
`none` when the lookup raised. -/
abbrev ContractLookup := Option Scalar

/-- `_okx_ct_val`, `_gate_quanto_multiplier`, `_htx_contract_size` and
`_bitget_contract_size`: the contract size, or one when there is none. -/
def contractSize (lookup : ContractLookup) : ℚ :=
  let size := (lookup.getD .absent).asFloat
  if 0 < size then size else 1

/-- The members of a nonempty order snapshot that the readers look at. -/
structure OrderSnapshot where
  executedQty : Scalar := .absent
  cumExecQty : Scalar := .absent
  baseVolume : Scalar := .absent
  fillSize : Scalar := .absent
  filledQty : Scalar := .absent
  filled : Scalar := .absent
  dealSize : Scalar := .absent
  accFillSz : Scalar := .absent
  fillSz : Scalar := .absent
  filled_size : Scalar := .absent
  filledSize : Scalar := .absent
  size : Scalar := .absent
  left : Scalar := .absent
  filled_amount : Scalar := .absent
  filledAmount : Scalar := .absent
  field_amount : Scalar := .absent
  /-- `filled-amount`, with a dash. -/
  filled_dash_amount : Scalar := .absent
  trade_volume : Scalar := .absent
  tradeVolume : Scalar := .absent
  volume : Scalar := .absent
  filled_total : Scalar := .absent
  filledTotal : Scalar := .absent
  avgPrice : Scalar := .absent
  avg_price : Scalar := .absent
  priceAvg : Scalar := .absent
  avgPx : Scalar := .absent
  fillPx : Scalar := .absent
  fill_price : Scalar := .absent
  fillPrice : Scalar := .absent
  price : Scalar := .absent
  trade_avg_price : Scalar := .absent
  tradeAvgPrice : Scalar := .absent
  trade_turnover : Scalar := .absent
  tradeTurnover : Scalar := .absent
  state : String := ""
  status : String := ""
  orderStatus : String := ""
  order_status : String := ""
  deriving DecidableEq, Repr

/-! ## Quantity -/

/-- Bitget futures: the base volume, else the contracts filled. -/
def bitgetMixBaseQty (market : MarketType) (lookup : ContractLookup) (data : OrderSnapshot) : ℚ :=
  let baseVol := data.baseVolume.asFloat
  let fillSz := (data.fillSize.or data.filledQty).asFloat
  if 0 < baseVol then baseVol
  else if 0 < fillSz ∧ market = .swap ∧ contractSize lookup ≠ 1 then fillSz * contractSize lookup
  else (data.filled.or (data.filledQty.or (.num fillSz))).asFloat

/-- Gate futures: the contracts filled, or the order size less what is left. -/
def gateFuturesContracts (data : OrderSnapshot) : ℚ :=
  let contracts := (data.filled_size.or data.filledSize).asFloat
  let size := |data.size.asFloat|
  if 0 < contracts then contracts
  else if 0 < size then max 0 (size - |data.left.asFloat|)
  else contracts

/-- `extract_grid_fill_base_qty`. -/
def extractGridFillBaseQty (client : GridClient) (market : MarketType) (lookup : ContractLookup)
    (data : OrderSnapshot) : ℚ :=
  match client with
  | .binanceFutures | .binanceSpot => data.executedQty.asFloat
  | .bybit => data.cumExecQty.asFloat
  | .bitgetMix => bitgetMixBaseQty market lookup data
  | .bitgetSpot => ((data.baseVolume.or data.dealSize).or data.filled).asFloat
  | .okx =>
    let contracts := (data.accFillSz.or data.fillSz).asFloat
    match market with
    | .spot => contracts
    | .swap => contracts * contractSize lookup
  | .gateFutures =>
    let contracts := gateFuturesContracts data
    if contracts ≤ 0 then 0 else |contracts| * contractSize lookup
  | .gateSpot => (data.filled_amount.or data.filledAmount).asFloat
  | .htx =>
    match market with
    | .spot => ((data.field_amount.or data.filled_dash_amount).or data.filled_amount).asFloat
    | .swap =>
      let contracts := ((data.trade_volume.or data.tradeVolume).or data.volume).asFloat
      if contracts ≤ 0 then 0 else |contracts| * contractSize lookup
  | .other =>
    ((((((data.filled.or data.executedQty).or data.cumExecQty).or data.baseVolume).or
      data.dealSize).or data.accFillSz).or data.filled_size).asFloat

/-! ## Average price -/

/-- `turnover / volume` when both are positive. -/
def ratioOr (turnover volume fallback : ℚ) : ℚ :=
  if 0 < turnover ∧ 0 < volume then turnover / volume else fallback

/-- `extract_grid_fill_avg_price`. -/
def extractGridFillAvgPrice (client : GridClient) (data : OrderSnapshot) : ℚ :=
  match client with
  | .binanceFutures | .binanceSpot | .bybit => data.avgPrice.asFloat
  | .bitgetMix | .bitgetSpot => ((data.priceAvg.or data.avgPrice).or data.avg_price).asFloat
  | .okx => (data.avgPx.or data.fillPx).asFloat
  | .gateSpot =>
    let avg := ((data.fill_price.or data.fillPrice).or data.price).asFloat
    if avg ≤ 0 then
      ratioOr (data.filled_total.or data.filledTotal).asFloat
        (data.filled_amount.or data.filledAmount).asFloat avg
    else avg
  | .gateFutures => ((data.fill_price.or data.fillPrice).or data.price).asFloat
  | .htx =>
    let avg := (data.trade_avg_price.or data.tradeAvgPrice).asFloat
    if 0 < avg then avg
    else
      ratioOr (data.trade_turnover.or data.tradeTurnover).asFloat
        (data.trade_volume.or data.tradeVolume).asFloat data.price.asFloat
  | .other =>
    let avg :=
      (((((data.avgPx.or data.avgPrice).or data.avg_price).or data.fill_price).or
        data.trade_avg_price).or data.price).asFloat
    if avg ≤ 0 ∧ data.filled_total.truthy ∧ data.filled_amount.truthy then
      ratioOr data.filled_total.asFloat data.filled_amount.asFloat avg
    else avg

/-! ## Status -/

/-- `int(text)` of an unsigned decimal. -/
def decimal? (s : String) : Option Nat :=
  if s.toList ≠ [] ∧ s.toList.all Char.isDigit then
    some (s.toList.foldl (fun n c => 10 * n + (c.toNat - '0'.toNat)) 0)
  else none

/-- A quantity the snapshot reports as filled, in whatever unit. -/
def filledHint (data : OrderSnapshot) : ℚ :=
  ((((((data.accFillSz.or data.executedQty).or data.cumExecQty).or data.baseVolume).or
    data.dealSize).or data.trade_volume).or data.filled_size).asFloat

/-- HTX status numbers; `none` for the numbers that decide nothing. -/
def htxStatusNumber (n : Nat) : Option PollStatus :=
  if n = 6 then some .filled
  else if n ∈ [5, 7, 11] then some .cancelled
  else if n = 4 then some .partialFill
  else if n ∈ [1, 2, 3] then some .working
  else none

/-- The status a status text spells; `none` when it spells none. -/
def statusWord (st : String) : Option PollStatus :=
  if st ∈ ["filled", "full_fill", "full-fill", "fullfill", "success", "done", "closed",
      "finished"] then some .filled
  else if st ∈ ["canceled", "cancelled", "expired", "rejected", "deactivated"] then
    some .cancelled
  else if st ∈ ["partially_filled", "partial_fill", "partial-fill", "partially-filled",
      "partial"] then some .partialFill
  else if st ∈ ["live", "new", "open", "not_deal", "notdeal", "submitted"] then some .working
  else if hasSubstring "fill" st ∧ ¬ hasSubstring "partial" st then some .filled
  else if hasSubstring "cancel" st then some .cancelled
  else (decimal? st).bind htxStatusNumber

/-- `order_status_from_data`, of a nonempty snapshot. -/
def orderStatusFromData (data : OrderSnapshot) : PollStatus :=
  let raw := textOr (textOr (textOr data.state data.status) data.orderStatus) data.order_status
  match statusWord (String.ofList (raw.toList.map Char.toLower)) with
  | some status => status
  | none => if 0 < filledHint data then .partialFill else .working

/-- `parse_grid_order_fill`. -/
def parseGridOrderFill (client : GridClient) (market : MarketType) (lookup : ContractLookup)
    (data : OrderSnapshot) : PollAnswer where
  filled := extractGridFillBaseQty client market lookup data
  avg := extractGridFillAvgPrice client data
  status := orderStatusFromData data

/-! ## Lemmas -/

theorem contractSize_of_pos {lookup : ContractLookup} {c : ℚ} (hc : 0 < c)
    (h : (lookup.getD .absent).asFloat = c) : contractSize lookup = c := by
  simp only [contractSize, h, hc, if_true]

theorem htxStatusNumber_ne_unknown (n : Nat) : htxStatusNumber n ≠ some .unknown := by
  unfold htxStatusNumber
  split_ifs <;> simp

theorem statusWord_ne_unknown (st : String) : statusWord st ≠ some .unknown := by
  intro h
  simp only [statusWord, ite_eq_iff, Option.some.injEq, reduceCtorEq,
    and_false, false_or] at h
  obtain ⟨-, -, -, -, -, -, h⟩ := h
  obtain ⟨n, -, hn⟩ := Option.bind_eq_some_iff.mp h
  exact htxStatusNumber_ne_unknown n hn

theorem parseGridOrderFill_status (client : GridClient) (market : MarketType)
    (lookup : ContractLookup) (data : OrderSnapshot) :
    (parseGridOrderFill client market lookup data).status ≠ .unknown := by
  simp only [parseGridOrderFill, orderStatusFromData]
  split
  next status h =>
    rintro rfl
    exact statusWord_ne_unknown _ h
  next => split <;> simp

end AlgoTrade
