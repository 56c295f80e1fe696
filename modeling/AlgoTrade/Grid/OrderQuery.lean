import AlgoTrade.Grid.UnitsAgree

/-! # Asking the venue about a grid order

`queryGridOrderFill` is `query_grid_order_fill`: the row the client returns, its
parse, and for Bitget the fill list when the row has nothing filled.

* `fetchGridClientOrder`: the row as the client hands it on.
* `aggregateBitgetGridFills`: the fill list summed up. -/

namespace AlgoTrade

open Json (Scalar)

/-- `str.lower()`. -/
def lower (s : String) : String := String.ofList (s.toList.map Char.toLower)

/-- The row `BitgetMixClient.get_order` makes of the venue's. -/
def bitgetMixGetOrder (row : OrderSnapshot) : OrderSnapshot :=
  let filled : Scalar := .num ((row.baseVolume.or row.filledQty).or row.fillSize).asFloat
  let avg : Scalar := .num (row.priceAvg.or row.fillPrice).asFloat
  let state := lower (textOr row.state row.status)
  { filled := filled
    filledSize := filled
    executedQty := filled
    avg_price := avg
    avgPrice := avg
    status := state
    state := state }

/-- `_fetch_grid_client_order`, on the row the venue answers with. -/
def fetchGridClientOrder (client : GridClient) (row : OrderSnapshot) : OrderSnapshot :=
  match client with
  | .bitgetMix => bitgetMixGetOrder row
  | _ => row

/-! ## The Bitget fill list -/

structure BitgetFillRow where
  size : Scalar := .absent
  baseVolume : Scalar := .absent
  dealSize : Scalar := .absent
  fillSize : Scalar := .absent
  filledQty : Scalar := .absent
  priceAvg : Scalar := .absent
  price : Scalar := .absent
  fillPrice : Scalar := .absent
  amount : Scalar := .absent
  quoteVolume : Scalar := .absent
  deriving DecidableEq, Repr

namespace BitgetFillRow

variable (client : GridClient) (market : MarketType) (lookup : ContractLookup)

/-- The base quantity of one fill. -/
def baseQty (f : BitgetFillRow) : ℚ :=
  if client = .bitgetSpot then ((f.size.or f.baseVolume).or f.dealSize).asFloat
  else
    let qty := f.baseVolume.asFloat
    if 0 < qty then qty
    else
      let contracts := ((f.size.or f.fillSize).or f.filledQty).asFloat
      if 0 < contracts ∧ market = .swap then contracts * contractSize lookup else contracts

/-- What one fill of base quantity `qty` paid. -/
def quotePaid (f : BitgetFillRow) (qty : ℚ) : ℚ :=
  let px :=
    if client = .bitgetSpot then ((f.priceAvg.or f.price).or f.fillPrice).asFloat
    else ((f.fillPrice.or f.priceAvg).or f.price).asFloat
  let amount :=
    if client = .bitgetSpot then (f.amount.or f.quoteVolume).asFloat
    else (f.quoteVolume.or f.amount).asFloat
  if 0 < px then qty * px else if 0 < amount then amount else 0

end BitgetFillRow

/-- `_aggregate_bitget_grid_fills`: base quantity and average price; `none` for
no known fill. -/
def aggregateBitgetGridFills (client : GridClient) (market : MarketType) (lookup : ContractLookup)
    (rows : List BitgetFillRow) : Option (ℚ × ℚ) :=
  let counted := rows.filter fun f => 0 < f.baseQty client market lookup
  let totalBase := (counted.map fun f => f.baseQty client market lookup).sum
  let totalQuote := (counted.map fun f => f.quotePaid client (f.baseQty client market lookup)).sum
  if totalBase ≤ 0 then none
  else some (totalBase, if 0 < totalQuote then totalQuote / totalBase else 0)

/-! ## The query -/

/-- `query_grid_order_fill`; no row when the client raised or had none, no fills
when asking for them raised. -/
def queryGridOrderFill (client : GridClient) (market : MarketType) (lookup : ContractLookup)
    (row : Option OrderSnapshot) (fills : Option (List BitgetFillRow)) : PollAnswer :=
  match row with
  | none => ⟨0, 0, .unknown⟩
  | some row =>
    let ans := parseGridOrderFill client market lookup (fetchGridClientOrder client row)
    if (client = .bitgetMix ∨ client = .bitgetSpot) ∧ ans.filled ≤ 0 ∧
        (ans.status = .working ∨ ans.status = .unknown) then
      match fills.bind (aggregateBitgetGridFills client market lookup) with
      | some (filled, avg) => ⟨filled, avg, .filled⟩
      | none => ans
    else ans

/-! ## Lemmas -/

/-- The fill list counts as soon as one of its fills has a size. -/
theorem aggregateBitgetGridFills_eq_none {client : GridClient} {market : MarketType}
    {lookup : ContractLookup} {rows : List BitgetFillRow} :
    aggregateBitgetGridFills client market lookup rows = none ↔
      ∀ f ∈ rows, f.baseQty client market lookup ≤ 0 := by
  unfold aggregateBitgetGridFills
  simp only [ite_eq_left_iff, not_le, reduceCtorEq, imp_false, not_lt]
  constructor
  · intro hsum f hf
    by_contra hpos
    have hmem : f.baseQty client market lookup ∈
        (rows.filter fun f => 0 < f.baseQty client market lookup).map
          fun f => f.baseQty client market lookup :=
      List.mem_map_of_mem (List.mem_filter.mpr ⟨hf, decide_eq_true (not_le.mp hpos)⟩)
    have hle := List.single_le_sum (fun q hq => by
      obtain ⟨g, hg, rfl⟩ := List.mem_map.mp hq
      exact (of_decide_eq_true (List.mem_filter.mp hg).2).le) _ hmem
    exact hpos (hle.trans hsum)
  · intro hall
    have hnil : (rows.filter fun f => 0 < f.baseQty client market lookup) = [] :=
      List.filter_eq_nil_iff.mpr fun f hf => by simpa using hall f hf
    rw [hnil]
    exact le_refl (0 : ℚ)

/-- Where the fill list is not asked for or has no size, the row is the answer. -/
theorem queryGridOrderFill_row {client : GridClient} {market : MarketType}
    {lookup : ContractLookup} {row : OrderSnapshot} {fills : Option (List BitgetFillRow)}
    (h : (client = .bitgetMix ∨ client = .bitgetSpot) →
      (parseGridOrderFill client market lookup (fetchGridClientOrder client row)).filled ≤ 0 →
      (parseGridOrderFill client market lookup (fetchGridClientOrder client row)).status =
        .working →
      ∀ rows ∈ fills, ∀ f ∈ rows, f.baseQty client market lookup ≤ 0) :
    queryGridOrderFill client market lookup (some row) fills =
      parseGridOrderFill client market lookup (fetchGridClientOrder client row) := by
  show (if _ then _ else _) = _
  split
  next hask =>
    obtain ⟨hclient, hfilled, hstatus⟩ := hask
    have hworking := hstatus.resolve_right (parseGridOrderFill_status _ _ _ _)
    have hnone : fills.bind (aggregateBitgetGridFills client market lookup) = none := by
      rw [Option.bind_eq_none_iff]
      intro rows hrows
      exact aggregateBitgetGridFills_eq_none.mpr (h hclient hfilled hworking rows hrows)
    rw [hnone]
  next => rfl

/-- A fill with a size, asked for, makes the order a filled one. -/
theorem queryGridOrderFill_fills {client : GridClient} {market : MarketType}
    {lookup : ContractLookup} {row : OrderSnapshot} {rows : List BitgetFillRow} {f : BitgetFillRow}
    (hclient : client = .bitgetMix ∨ client = .bitgetSpot)
    (hfilled :
      (parseGridOrderFill client market lookup (fetchGridClientOrder client row)).filled ≤ 0)
    (hstatus : (parseGridOrderFill client market lookup (fetchGridClientOrder client row)).status =
      .working)
    (hf : f ∈ rows) (hpos : 0 < f.baseQty client market lookup) :
    (queryGridOrderFill client market lookup (some row) (some rows)).status = .filled := by
  have hsome : aggregateBitgetGridFills client market lookup rows ≠ none := by
    rw [Ne, aggregateBitgetGridFills_eq_none]
    intro hall
    exact absurd (hall f hf) (not_le.mpr hpos)
  obtain ⟨total, htotal⟩ := Option.ne_none_iff_exists'.mp hsome
  unfold queryGridOrderFill
  simp only [hclient, hfilled, hstatus, true_or, and_self, if_true, Option.bind_some, htotal]

end AlgoTrade
