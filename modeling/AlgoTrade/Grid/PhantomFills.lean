import AlgoTrade.Grid.OrderQuery

/-! # Phantom grid fills

A venue's row documents a state, a size and a filled quantity of an order; the
poller makes a booking and a status of it.

* `statusWord_statusTexts`: which documented state texts are read as filled.
* `queryGridOrderFill_filled`: which quantity the answer carries.
* `noPhantomFills_iff`: the poller books and records no more than the row
  documents exactly when the order's end and its zero are told apart. -/

namespace AlgoTrade

open Json (Scalar)

/-! ## What the venues document -/

inductive OrderPhase
  | working | partialFill | filled | cancelled
  deriving DecidableEq, Repr

/-- An order as the venue knows it, in the venue's unit; `cancelled` is any end
other than a whole fill. -/
structure OrderFacts where
  phase : OrderPhase
  size : ℚ
  filled : ℚ
  size_pos : 0 < size
  filled_nonneg : 0 ≤ filled
  filled_le_size : filled ≤ size
  whole_of_filled : phase = .filled → filled = size

/-- The texts a venue documents for an order's state.  Gate futures has one text
for every end. -/
def statusTexts : Venue → MarketType → OrderPhase → List String
  | .binance, _, .working => ["NEW", "PENDING_NEW"]
  | .binance, _, .partialFill => ["PARTIALLY_FILLED"]
  | .binance, _, .filled => ["FILLED"]
  | .binance, _, .cancelled =>
    ["CANCELED", "PENDING_CANCEL", "REJECTED", "EXPIRED", "EXPIRED_IN_MATCH"]
  | .okx, _, .working => ["live"]
  | .okx, _, .partialFill => ["partially_filled"]
  | .okx, _, .filled => ["filled"]
  | .okx, _, .cancelled => ["canceled", "mmp_canceled"]
  | .bybit, _, .working => ["New", "Created", "Untriggered", "Triggered", "Active"]
  | .bybit, _, .partialFill => ["PartiallyFilled"]
  | .bybit, _, .filled => ["Filled"]
  | .bybit, _, .cancelled => ["Cancelled", "PartiallyFilledCanceled", "Rejected", "Deactivated"]
  | .bitget, _, .working => ["live", "new"]
  | .bitget, _, .partialFill => ["partially_filled", "partial-fill"]
  | .bitget, _, .filled => ["filled", "full-fill"]
  | .bitget, _, .cancelled => ["canceled", "cancelled"]
  | .gate, .spot, .working | .gate, .spot, .partialFill => ["open"]
  | .gate, .spot, .filled => ["closed"]
  | .gate, .spot, .cancelled => ["cancelled"]
  | .gate, .swap, .working | .gate, .swap, .partialFill => ["open"]
  | .gate, .swap, .filled | .gate, .swap, .cancelled => ["finished"]
  | .htx, .spot, .working => ["created", "submitted"]
  | .htx, .spot, .partialFill => ["partial-filled"]
  | .htx, .spot, .filled => ["filled"]
  | .htx, .spot, .cancelled => ["partial-canceled", "canceling", "canceled", "rejected"]
  | .htx, .swap, .working => ["1", "2", "3", "new"]
  | .htx, .swap, .partialFill => ["4", "partially_filled"]
  | .htx, .swap, .filled => ["6", "filled"]
  | .htx, .swap, .cancelled => ["5", "7", "11", "partially_canceled", "canceled", "rejected"]

namespace OrderSnapshot

/-- The row's state member, where the venue has it. -/
def StatusIs (venue : Venue) (text : String) (row : OrderSnapshot) : Prop :=
  match venue with
  | .okx => row.state = text
  | .binance | .gate => row.state = "" ∧ row.status = text
  | .bybit => row.state = "" ∧ row.status = "" ∧ row.orderStatus = text
  | .bitget | .htx => textOr row.state row.status = text

/-- The row documents the order: its state text and its filled quantity.  A row
of HTX swap also carries the size, under `volume`. -/
def Documents (venue : Venue) (market : MarketType) (facts : OrderFacts) (row : OrderSnapshot) :
    Prop :=
  (∃ text ∈ statusTexts venue market facts.phase, row.StatusIs venue text) ∧
    match venue, market with
    | .htx, .swap => row.trade_volume.asFloat = facts.filled ∧ row.tradeVolume = .absent ∧
        row.volume.asFloat = facts.size
    | _, _ => row.Tells venue market facts.filled

end OrderSnapshot

/-! ## The property and its condition -/

section
variable (venue : Venue) (market : MarketType) (c : ℚ) (lookup : ContractLookup)
  (facts : OrderFacts) (row : OrderSnapshot) (fills : Option (List BitgetFillRow))
  (o : GridRestingOrder)

/-- `_poll_order` on the venue's answer. -/
def pollGridOrder (raises : Bool) : Reading :=
  pollOrder (queryGridOrderFill (venue.client market) market lookup (some row) fills) raises o

/-- One poll books at most what the row says was filled beyond what was already
processed, and records the order as filled only when the whole order was. -/
def NoPhantomFills : Prop :=
  ∀ raises, (pollGridOrder venue market lookup row fills o raises).booked ≤
      max 0 (facts.filled * venue.unit market c - o.processedFillQty) ∧
    ((pollGridOrder venue market lookup row fills o raises).order.status = .filled →
      facts.filled = facts.size)

/-- The end of the order and its fills are told apart: a finished Gate futures
order is a whole fill, and an open Bitget order with nothing filled has no fill
with a size in its fill list. -/
def EndTold : Prop :=
  (venue = .gate ∧ market = .swap ∧ facts.phase = .cancelled → facts.filled = facts.size) ∧
    (venue = .bitget ∧ facts.phase = .working ∧ facts.filled = 0 →
      ∀ rows ∈ fills, ∀ f ∈ rows, f.baseQty (venue.client market) market lookup ≤ 0)

/-- What stands for the filled quantity of an order with nothing filled: the whole
size when HTX swap reports the number zero, else the stored quantity. -/
def unfilledStandIn : ℚ :=
  if venue = .htx ∧ market = .swap ∧ row.trade_volume.truthy = false then facts.size * c
  else o.filledQuantity

/-- And of an order with nothing filled, nothing is left to process. -/
def ZeroTold : Prop :=
  facts.filled = 0 → unfilledStandIn venue market c facts row o - o.processedFillQty ≤ gridEpsilon

end

/-! ## The status of the answer -/

/-- The text the status is read from. -/
def OrderSnapshot.statusText (data : OrderSnapshot) : String :=
  textOr (textOr (textOr data.state data.status) data.orderStatus) data.order_status

/-- Documented texts are not empty, and lower case stays as it is. -/
theorem statusTexts_plain (venue : Venue) (market : MarketType) (phase : OrderPhase) :
    ∀ text ∈ statusTexts venue market phase, text ≠ "" ∧ lower text ≠ "" ∧
      lower (lower text) = lower text := by
  cases venue <;> cases market <;> cases phase <;> decide +kernel

/-- Only whole fills are read as filled, and every end of a Gate futures order. -/
theorem statusWord_statusTexts (venue : Venue) (market : MarketType) (phase : OrderPhase) :
    ∀ text ∈ statusTexts venue market phase,
      (statusWord (lower text) = some .filled ↔
        phase = .filled ∨ venue = .gate ∧ market = .swap ∧ phase = .cancelled) := by
  cases venue <;> cases market <;> cases phase <;> decide +kernel

/-- Bitget spells every state. -/
theorem statusWord_bitget (market : MarketType) (phase : OrderPhase) :
    ∀ text ∈ statusTexts .bitget market phase,
      (statusWord (lower text) = some .working ↔ phase = .working) ∧
        statusWord (lower text) ≠ none := by
  cases market <;> cases phase <;> decide +kernel

theorem textOr_of_ne {a b : String} (h : a ≠ "") : textOr a b = a := if_neg h

/-- The fetched row keeps the documented text. -/
theorem statusText_fetch {venue : Venue} {market : MarketType} {facts : OrderFacts}
    {row : OrderSnapshot} {text : String} (htext : text ∈ statusTexts venue market facts.phase)
    (h : row.StatusIs venue text) :
    lower (fetchGridClientOrder (venue.client market) row).statusText = lower text := by
  obtain ⟨hne, hlower, hidem⟩ := statusTexts_plain venue market facts.phase text htext
  have hplain : row.statusText = text → lower row.statusText = lower text := congrArg lower
  have hfirst : textOr row.state row.status = text → row.statusText = text := by
    intro hfirst
    unfold OrderSnapshot.statusText
    rw [hfirst, textOr_of_ne hne, textOr_of_ne hne]
  cases venue with
  | okx => exact hplain (hfirst (by rw [h, textOr_of_ne hne]))
  | binance | gate =>
    cases market <;> exact hplain (hfirst (by rw [h.1, h.2]; rfl))
  | bybit =>
    obtain ⟨hstate, hstatus, hword⟩ := h
    refine hplain ?_
    unfold OrderSnapshot.statusText
    rw [hstate, hstatus, hword]
    exact textOr_of_ne hne
  | htx => exact hplain (hfirst h)
  | bitget =>
    cases market with
    | spot => exact hplain (hfirst h)
    | swap =>
      have hstate : textOr row.state row.status = text := h
      have hmade : (bitgetMixGetOrder row).statusText = lower text := by
        unfold OrderSnapshot.statusText bitgetMixGetOrder
        rw [hstate, textOr_of_ne hlower, textOr_of_ne hlower, textOr_of_ne hlower]
      show lower (bitgetMixGetOrder row).statusText = lower text
      rw [hmade, hidem]

theorem orderStatusFromData_of_word {data : OrderSnapshot} {status : PollStatus}
    (h : statusWord (lower data.statusText) = some status) : orderStatusFromData data = status := by
  unfold orderStatusFromData
  dsimp only
  split
  next status' h' =>
    have : some status' = some status := h'.symm.trans h
    exact Option.some.inj this
  next hnone =>
    have : none = some status := hnone.symm.trans h
    cases this

theorem orderStatusFromData_of_none {data : OrderSnapshot}
    (h : statusWord (lower data.statusText) = none) :
    orderStatusFromData data = if 0 < filledHint data then .partialFill else .working := by
  unfold orderStatusFromData
  dsimp only
  split
  next status h' =>
    have : some status = none := h'.symm.trans h
    cases this
  next => rfl

theorem orderStatusFromData_eq_filled {data : OrderSnapshot} :
    orderStatusFromData data = .filled ↔ statusWord (lower data.statusText) = some .filled := by
  cases hword : statusWord (lower data.statusText) with
  | some status =>
    rw [orderStatusFromData_of_word hword, Option.some.injEq]
  | none =>
    rw [orderStatusFromData_of_none hword]
    by_cases hhint : 0 < filledHint data
    · simp [hhint]
    · simp [hhint]

/-- The parse of the row. -/
def parsedRow (venue : Venue) (market : MarketType) (lookup : ContractLookup)
    (row : OrderSnapshot) : PollAnswer :=
  parseGridOrderFill (venue.client market) market lookup
    (fetchGridClientOrder (venue.client market) row)

theorem parse_status (client : GridClient) (market : MarketType) (lookup : ContractLookup)
    (data : OrderSnapshot) :
    (parseGridOrderFill client market lookup data).status = orderStatusFromData data := by
  unfold parseGridOrderFill
  dsimp only

section
variable {venue : Venue} {market : MarketType} {lookup : ContractLookup} {facts : OrderFacts}
  {row : OrderSnapshot}

/-- The parse reads the order as filled when it was, and at any end on Gate
futures. -/
theorem parse_status_filled (h : row.Documents venue market facts) :
    (parsedRow venue market lookup row).status = .filled ↔
      facts.phase = .filled ∨ venue = .gate ∧ market = .swap ∧ facts.phase = .cancelled := by
  obtain ⟨⟨text, htext, hstatus⟩, -⟩ := h
  rw [parsedRow, parse_status, orderStatusFromData_eq_filled, statusText_fetch htext hstatus]
  exact statusWord_statusTexts venue market facts.phase text htext

/-- A Bitget order is read as open when it is. -/
theorem parse_status_working (h : row.Documents .bitget market facts) :
    (parsedRow .bitget market lookup row).status = .working ↔ facts.phase = .working := by
  obtain ⟨⟨text, htext, hstatus⟩, -⟩ := h
  obtain ⟨hworking, hspelt⟩ := statusWord_bitget market facts.phase text htext
  obtain ⟨status, hword⟩ := Option.ne_none_iff_exists'.mp hspelt
  rw [hword, Option.some.injEq] at hworking
  rw [← statusText_fetch htext hstatus] at hword
  rw [parsedRow, parse_status, orderStatusFromData_of_word hword]
  exact hworking

/-! ## The quantity of the answer -/

theorem bitgetMixGetOrder_filled {q : ℚ}
    (h : TellsFilled q row.baseVolume [row.fillSize, row.filledQty, row.filled]) :
    extractGridFillBaseQty .bitgetMix market lookup (bitgetMixGetOrder row) = q := by
  have hmade : ((row.baseVolume.or row.filledQty).or row.fillSize).asFloat = q :=
    Scalar.asFloat_or (Scalar.asFloat_or h.1 fun h0 => h.2 h0 _ (by simp)) fun h0 =>
      h.2 h0 _ (by simp)
  show bitgetMixBaseQty market lookup (bitgetMixGetOrder row) = q
  unfold bitgetMixBaseQty bitgetMixGetOrder
  rw [hmade]
  by_cases hq : q = 0
  · simp [Scalar.or, Scalar.truthy, hq]
  · simp [Scalar.or, Scalar.truthy, hq]

/-- HTX swap falls back to the size when the number zero was reported. -/
theorem htxSwap_filled {q size c : ℚ} (hq : 0 ≤ q) (hsize : 0 < size)
    (hc : contractSize lookup = c) (hvolume : row.trade_volume.asFloat = q)
    (halias : row.tradeVolume = .absent) (hwhole : row.volume.asFloat = size) :
    extractGridFillBaseQty .htx .swap lookup row =
      (if row.trade_volume.truthy = false then size else q) * c := by
  show (if ((row.trade_volume.or row.tradeVolume).or row.volume).asFloat ≤ 0 then 0
    else |((row.trade_volume.or row.tradeVolume).or row.volume).asFloat| * contractSize lookup) = _
  rw [halias, hc]
  cases htruthy : row.trade_volume.truthy with
  | true =>
    rw [Scalar.or_of_truthy htruthy, Scalar.or_of_truthy htruthy, hvolume, contracts_mul hq]
    rfl
  | false =>
    rw [Scalar.or_of_not_truthy htruthy, Scalar.absent_or, hwhole, contracts_mul hsize.le]
    rfl

/-- Every row but that of Bitget futures is handed on as it is, and carries the
documented quantity. -/
theorem otherVenue_filled {c : ℚ}
    (hsize : venue.inContracts market = true → contractSize lookup = c)
    (hfilled : 0 ≤ facts.filled) (h : row.Tells venue market facts.filled) :
    extractGridFillBaseQty (venue.client market) market lookup
      (fetchGridClientOrder (venue.client market) row) = facts.filled * venue.unit market c := by
  by_cases hbitget : venue = .bitget ∧ market = .swap
  · obtain ⟨rfl, rfl⟩ := hbitget
    show extractGridFillBaseQty .bitgetMix .swap lookup (bitgetMixGetOrder row) = facts.filled * 1
    rw [mul_one]
    exact bitgetMixGetOrder_filled h
  · have hrow : fetchGridClientOrder (venue.client market) row = row := by
      cases venue <;> cases market <;> first | rfl | exact absurd ⟨rfl, rfl⟩ hbitget
    rw [hrow]
    exact extractGridFillBaseQty_of_tells hfilled hsize h

/-- The answer carries the documented quantity in base units; an HTX swap order
with nothing filled, reported as the number zero, carries its size. -/
theorem parse_filled {c : ℚ} (hc : 0 < c)
    (hlookup : venue.inContracts market = true → (lookup.getD .absent).asFloat = c)
    (h : row.Documents venue market facts) :
    (parsedRow venue market lookup row).filled =
      if venue = .htx ∧ market = .swap ∧ row.trade_volume.truthy = false then facts.size * c
      else facts.filled * venue.unit market c := by
  have hsize : venue.inContracts market = true → contractSize lookup = c := fun hin =>
    contractSize_of_pos hc (hlookup hin)
  obtain ⟨-, htells⟩ := h
  show extractGridFillBaseQty (venue.client market) market lookup
    (fetchGridClientOrder (venue.client market) row) = _
  by_cases hhtx : venue = .htx ∧ market = .swap
  · obtain ⟨rfl, rfl⟩ := hhtx
    obtain ⟨hvolume, halias, hwhole⟩ := htells
    show extractGridFillBaseQty .htx .swap lookup row = _
    rw [htxSwap_filled facts.filled_nonneg facts.size_pos (hsize rfl) hvolume halias hwhole]
    by_cases htruthy : row.trade_volume.truthy = false
    · rw [if_pos htruthy, if_pos ⟨rfl, rfl, htruthy⟩]
    · rw [if_neg htruthy, if_neg fun hbad => htruthy hbad.2.2]
      rfl
  · rw [if_neg fun hbad => hhtx ⟨hbad.1, hbad.2.1⟩]
    refine otherVenue_filled hsize facts.filled_nonneg ?_
    cases venue <;> cases market <;> first | exact htells | exact absurd ⟨rfl, rfl⟩ hhtx

end

/-! ## One poll -/

section
variable {ans : PollAnswer} {o : GridRestingOrder}

theorem pollLocalStatus_eq_filled {total : ℚ} (h : ans.status ≠ .unknown) :
    pollLocalStatus ans total o = .filled ↔ ans.status = .filled := by
  unfold pollLocalStatus
  split
  next hs => rw [hs]; split <;> simp
  next hs => rw [hs]; split <;> simp
  next hs => rw [hs]; simp
  next hs => simp [hs]
  next hs => exact absurd hs h

/-- A filled answer is recorded, unless its booking raised. -/
theorem status_pollOrder_of_filled (h : ans.status = .filled) :
    (pollOrder ans false o).order.status = .filled := by
  have hknown : ans.status ≠ .unknown := by simp [h]
  unfold pollOrder
  rw [if_neg hknown]
  dsimp only
  split <;> exact (pollLocalStatus_eq_filled hknown).mpr h

/-- Nothing else is recorded as filled. -/
theorem answer_filled_of_status {raises : Bool} (hknown : ans.status ≠ .unknown)
    (hprocessed : 0 ≤ o.processedFillQty)
    (h : (pollOrder ans raises o).order.status = .filled) : ans.status = .filled := by
  unfold pollOrder at h
  rw [if_neg hknown] at h
  dsimp only at h
  split at h
  next hnew =>
    have htotal : 0 < pollTotal ans o := by
      have := gridEpsilon_pos
      linarith
    split at h
    · cases h
    · exact (pollLocalStatus_eq_filled hknown).mp h
  next => exact (pollLocalStatus_eq_filled hknown).mp h

/-- A poll hands over the new quantity or nothing. -/
theorem booked_pollOrder_le {raises : Bool} {bound : ℚ} (hbound : 0 ≤ bound)
    (h : gridEpsilon < pollTotal ans o - o.processedFillQty →
      pollTotal ans o - o.processedFillQty ≤ bound) :
    (pollOrder ans raises o).booked ≤ bound := by
  by_cases hnew : gridEpsilon < pollTotal ans o - o.processedFillQty
  · unfold pollOrder
    split
    · exact hbound
    · dsimp only
      rw [if_pos hnew]
      split
      · exact hbound
      · exact h hnew
  · rw [booked_pollOrder_eq_zero (not_lt.mp hnew)]
    exact hbound

theorem pollTotal_of_pos (h : 0 < ans.filled) : pollTotal ans o = ans.filled := by
  have htotal : orElse ans.filled o.filledQuantity = ans.filled := if_neg h.ne'
  unfold pollTotal
  rw [htotal]
  exact if_neg fun hbad => absurd hbad.1 (not_le.mpr h)

theorem pollTotal_of_zero (h : ans.filled = 0) (hstatus : ans.status ≠ .filled) :
    pollTotal ans o = o.filledQuantity := by
  have htotal : orElse ans.filled o.filledQuantity = o.filledQuantity := if_pos h
  unfold pollTotal
  rw [htotal]
  exact if_neg fun hbad => hstatus hbad.2

end

/-! ## No phantom fills -/

section
variable {venue : Venue} {market : MarketType} {c : ℚ} {lookup : ContractLookup}
  {facts : OrderFacts} {row : OrderSnapshot} {fills : Option (List BitgetFillRow)}
  {o : GridRestingOrder}

theorem parsedRow_known (venue : Venue) (market : MarketType) (lookup : ContractLookup)
    (row : OrderSnapshot) : (parsedRow venue market lookup row).status ≠ .unknown :=
  parseGridOrderFill_status _ _ _ _

theorem bitget_of_client
    (h : venue.client market = .bitgetMix ∨ venue.client market = .bitgetSpot) :
    venue = .bitget := by
  cases venue <;> cases market <;> simp [Venue.client] at h ⊢

theorem client_bitget (market : MarketType) :
    Venue.bitget.client market = .bitgetMix ∨ Venue.bitget.client market = .bitgetSpot := by
  cases market
  · exact .inr rfl
  · exact .inl rfl

/-- With the end told, the fill list changes nothing. -/
theorem query_of_endTold (hc : 0 < c)
    (hlookup : venue.inContracts market = true → (lookup.getD .absent).asFloat = c)
    (hrow : row.Documents venue market facts) (h : EndTold venue market lookup facts fills) :
    queryGridOrderFill (venue.client market) market lookup (some row) fills =
      parsedRow venue market lookup row := by
  refine queryGridOrderFill_row fun hclient hfilled hstatus rows hrows f hf => ?_
  obtain rfl := bitget_of_client hclient
  have hzero : facts.filled = 0 := by
    change (parsedRow .bitget market lookup row).filled ≤ 0 at hfilled
    rw [parse_filled hc hlookup hrow, if_neg (by simp)] at hfilled
    have hunit : 0 < Venue.bitget.unit market c := Venue.unit_pos hc
    have hnonneg := facts.filled_nonneg
    by_contra hne
    have := mul_pos (lt_of_le_of_ne hnonneg (Ne.symm hne)) hunit
    linarith
  exact h.2 ⟨rfl, (parse_status_working hrow).mp hstatus, hzero⟩ rows hrows f hf

/-- An unfilled order is answered with its stand-in. -/
theorem pollTotal_unfilled (hc : 0 < c)
    (hlookup : venue.inContracts market = true → (lookup.getD .absent).asFloat = c)
    (hrow : row.Documents venue market facts) (hzero : facts.filled = 0)
    (hstatus : (parsedRow venue market lookup row).status ≠ .filled) :
    pollTotal (parsedRow venue market lookup row) o =
      unfilledStandIn venue market c facts row o := by
  have hfilled := parse_filled hc hlookup hrow
  unfold unfilledStandIn
  by_cases hhtx : venue = .htx ∧ market = .swap ∧ row.trade_volume.truthy = false
  · rw [if_pos hhtx] at hfilled ⊢
    have hpos : 0 < (parsedRow venue market lookup row).filled := by
      rw [hfilled]
      exact mul_pos facts.size_pos hc
    exact (pollTotal_of_pos hpos).trans hfilled
  · rw [if_neg hhtx, hzero, zero_mul] at hfilled
    rw [if_neg hhtx]
    exact pollTotal_of_zero hfilled hstatus

/-- A filled order is answered with its quantity. -/
theorem pollTotal_filled (hc : 0 < c)
    (hlookup : venue.inContracts market = true → (lookup.getD .absent).asFloat = c)
    (hrow : row.Documents venue market facts) (hne : facts.filled ≠ 0) :
    pollTotal (parsedRow venue market lookup row) o = facts.filled * venue.unit market c := by
  have hfilled := parse_filled hc hlookup hrow
  have hhtx : ¬ (venue = .htx ∧ market = .swap ∧ row.trade_volume.truthy = false) := by
    rintro ⟨rfl, rfl, htruthy⟩
    have hvolume : row.trade_volume.asFloat = facts.filled := hrow.2.1
    exact hne (hvolume ▸ Scalar.asFloat_eq_zero_of_not_truthy htruthy)
  rw [if_neg hhtx] at hfilled
  have hpos : 0 < (parsedRow venue market lookup row).filled := by
    rw [hfilled]
    exact mul_pos (lt_of_le_of_ne facts.filled_nonneg (Ne.symm hne)) (Venue.unit_pos hc)
  exact (pollTotal_of_pos hpos).trans hfilled

/-- Where the poll records no phantom, the end of the order is told. -/
theorem endTold_of_noPhantomFills (hc : 0 < c)
    (hlookup : venue.inContracts market = true → (lookup.getD .absent).asFloat = c)
    (hrow : row.Documents venue market facts)
    (h : NoPhantomFills venue market c lookup facts row fills o) :
    EndTold venue market lookup facts fills := by
  constructor
  · intro hgate
    have hquery : queryGridOrderFill (venue.client market) market lookup (some row) fills =
        parsedRow venue market lookup row := by
      refine queryGridOrderFill_row fun hclient => ?_
      rw [hgate.1] at hclient
      cases bitget_of_client hclient
    have hstatus : (parsedRow venue market lookup row).status = .filled :=
      (parse_status_filled hrow).mpr (.inr hgate)
    rw [← hquery] at hstatus
    exact (h false).2 (status_pollOrder_of_filled hstatus)
  · rintro ⟨rfl, hphase, hzero⟩ rows hrows f hf
    by_contra hpos
    have hfilled : (parsedRow .bitget market lookup row).filled ≤ 0 := by
      rw [parse_filled hc hlookup hrow, if_neg (by simp), hzero, zero_mul]
    have hstatus := queryGridOrderFill_fills (client_bitget market) hfilled
      ((parse_status_working hrow).mpr hphase) hf (not_le.mp hpos)
    rw [Option.mem_def] at hrows
    subst hrows
    have hwhole := (h false).2 (status_pollOrder_of_filled hstatus)
    have := facts.size_pos
    linarith

/-- With the end told, a parse that says filled is a whole fill. -/
theorem whole_of_status (hrow : row.Documents venue market facts)
    (hend : EndTold venue market lookup facts fills)
    (hstatus : (parsedRow venue market lookup row).status = .filled) :
    facts.filled = facts.size := by
  rcases (parse_status_filled hrow).mp hstatus with hphase | hgate
  · exact facts.whole_of_filled hphase
  · exact hend.1 hgate

/-- **No phantom fills.**  A poll books at most what the row says was filled
beyond what was processed, and records the order as filled only when it was,
exactly when the row's end and its zero are told apart. -/
theorem noPhantomFills_iff (hc : 0 < c)
    (hlookup : venue.inContracts market = true → (lookup.getD .absent).asFloat = c)
    (hrow : row.Documents venue market facts) (hprocessed : 0 ≤ o.processedFillQty) :
    NoPhantomFills venue market c lookup facts row fills o ↔
      EndTold venue market lookup facts fills ∧ ZeroTold venue market c facts row o := by
  constructor
  · intro h
    have hend := endTold_of_noPhantomFills hc hlookup hrow h
    refine ⟨hend, fun hzero => ?_⟩
    have hquery := query_of_endTold hc hlookup hrow hend
    have hstatus : (parsedRow venue market lookup row).status ≠ .filled := by
      intro hfilled
      have hwhole := whole_of_status hrow hend hfilled
      have := facts.size_pos
      linarith
    by_contra hnew
    have hbooked := (h false).1
    have htotal := pollTotal_unfilled (o := o) hc hlookup hrow hzero hstatus
    have hnew' : gridEpsilon < pollTotal (parsedRow venue market lookup row) o -
        o.processedFillQty := htotal ▸ not_le.mp hnew
    rw [pollGridOrder, hquery, booked_pollOrder (parsedRow_known venue market lookup row) hnew',
      htotal, hzero, zero_mul, zero_sub, max_eq_left (neg_nonpos.mpr hprocessed)] at hbooked
    have := gridEpsilon_pos
    exact hnew (hbooked.trans this.le)
  · rintro ⟨hend, hzeroTold⟩ raises
    have hquery := query_of_endTold hc hlookup hrow hend
    rw [pollGridOrder, hquery]
    constructor
    · refine booked_pollOrder_le (le_max_left _ _) fun hnew => ?_
      by_cases hzero : facts.filled = 0
      · have hstatus : (parsedRow venue market lookup row).status ≠ .filled := by
          intro hfilled
          have hwhole := whole_of_status hrow hend hfilled
          have := facts.size_pos
          linarith
        rw [pollTotal_unfilled hc hlookup hrow hzero hstatus] at hnew
        exact absurd hnew (not_lt.mpr (hzeroTold hzero))
      · rw [pollTotal_filled hc hlookup hrow hzero]
        exact le_max_right _ _
    · intro hfilled
      exact whole_of_status hrow hend
        (answer_filled_of_status (parsedRow_known venue market lookup row) hprocessed hfilled)

end

/-- A resting entry of one coin. -/
def oneCoinEntry : GridRestingOrder where
  id := 1
  cellIndex := 0
  purpose := .longEntry
  price := 60000
  quantity := 1

/-- A tenth of 100 contracts was filled before the cancel. -/
def cancelledPartly : OrderFacts where
  phase := .cancelled
  size := 100
  filled := 10
  size_pos := by norm_num
  filled_nonneg := by norm_num
  filled_le_size := by norm_num
  whole_of_filled := by intro h; cases h

def okxCancelledRow : OrderSnapshot where
  state := "canceled"
  accFillSz := .text 10
  avgPx := .text 60000

theorem noPhantomFills_iff_okxCancelled :
    okxCancelledRow.Documents .okx .swap cancelledPartly ∧ 0 ≤ oneCoinEntry.processedFillQty ∧
      (NoPhantomFills .okx .swap (1 / 100) okxCtVal cancelledPartly okxCancelledRow none
          oneCoinEntry ↔
        EndTold .okx .swap okxCtVal cancelledPartly none ∧
          ZeroTold .okx .swap (1 / 100) cancelledPartly okxCancelledRow oneCoinEntry) :=
  have hrow : okxCancelledRow.Documents .okx .swap cancelledPartly :=
    ⟨⟨"canceled", by decide, rfl⟩, rfl, fun h => absurd h (by norm_num [cancelledPartly])⟩
  ⟨hrow, le_rfl, noPhantomFills_iff (by norm_num) (fun _ => rfl) hrow le_rfl⟩

theorem nothingFilled_nonneg : (0 : ℚ) ≤ 0 := le_rfl

/-- Cancelled with nothing filled. -/
def cancelledUnfilled : OrderFacts where
  phase := .cancelled
  size := 100
  filled := 0
  size_pos := by norm_num
  filled_nonneg := nothingFilled_nonneg
  filled_le_size := by norm_num
  whole_of_filled := by intro h; cases h

def gateFinishedRow : OrderSnapshot where
  status := "finished"
  size := .num 100
  left := .num 100
  price := .text 60000

/-- A Gate futures order that was cancelled unfilled is booked whole. -/
theorem gateFinished_booksWhole :
    gateFinishedRow.Documents .gate .swap cancelledUnfilled ∧
      (pollGridOrder .gate .swap okxCtVal gateFinishedRow none oneCoinEntry false).booked = 1 ∧
      ¬ NoPhantomFills .gate .swap (1 / 100) okxCtVal cancelledUnfilled gateFinishedRow none
        oneCoinEntry := by
  have hbooked :
      (pollGridOrder .gate .swap okxCtVal gateFinishedRow none oneCoinEntry false).booked = 1 := by
    decide +kernel
  refine ⟨⟨⟨"finished", by decide, rfl, rfl⟩, .inl ⟨rfl, fun _ => ?_⟩⟩, hbooked, ?_⟩
  · norm_num [gateFinishedRow]
  · intro h
    have hle := (h false).1
    rw [hbooked] at hle
    norm_num [cancelledUnfilled, oneCoinEntry] at hle

end AlgoTrade
