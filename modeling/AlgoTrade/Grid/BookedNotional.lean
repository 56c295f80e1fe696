import AlgoTrade.Grid.RestingOrder
import AlgoTrade.Lib.Runs
import Mathlib.Tactic.FieldSimp

/-! # What the grid poller books for one order

An increment of the exchange's cumulative quantity is booked at the exchange's
cumulative average price.

* `applyGridFill`: one call of `apply_grid_fill_to_local_state` on the leg's row.
* `PolledOrder.step`: one poll, with what was booked so far.
* `BookedRight`: the booked notional is the exchange's, and so is the entry price.
* `bookedRight_of_steady`: it holds while the average stays as it was. -/

namespace AlgoTrade.BookedNotional

open Runs

/-- `_PURPOSE_TO_SIGNAL`. -/
def signalOf : GridPurpose → SignalType
  | .longEntry => .openLong
  | .longExit => .closeLong
  | .shortEntry => .openShort
  | .shortExit => .closeShort

/-- A fill as `apply_grid_fill_to_local_state` takes it; `none` when it is refused. -/
def localFill (o : GridRestingOrder) (b : Booking) : Option Booking :=
  let px := orElse b.price o.price
  let qty := orElse b.quantity o.quantity
  if qty ≤ 0 ∨ px ≤ 0 then none else some ⟨qty, px⟩

/-- The leg's row after a fill. -/
def applyGridFill (o : GridRestingOrder) (row : Option PositionRow) (fill : Booking) :
    Option PositionRow :=
  (applyFillToLocalPosition (signalOf o.purpose) fill.quantity fill.price row).position

/-- The row of a resting order, the notional booked for it, the leg's row, and the
cumulative quantity and average the last poll saw. -/
structure PolledOrder where
  order : GridRestingOrder
  notional : ℚ := 0
  row : Option PositionRow := none
  filled : ℚ := 0
  avg : ℚ := 0
  deriving DecidableEq, Repr

/-- A poll: the exchange's answer, whether the local posting took effect, and
whether `on_order_filled` raised. -/
structure Poll where
  answer : PollAnswer
  lands : Bool := true
  raises : Bool := false
  deriving DecidableEq, Repr

namespace PolledOrder

def book (s : PolledOrder) (fill : Booking) : PolledOrder :=
  { s with
    notional := s.notional + fill.quantity * fill.price
    row := applyGridFill s.order s.row fill }

/-- An answer the exchange can give next: its cumulative quantity does not fall, has
an average price once there is one, and a filled order has one. -/
def Follows (s : PolledOrder) (ans : PollAnswer) : Prop :=
  s.filled ≤ ans.filled ∧ (0 < ans.filled → 0 < ans.avg) ∧ (ans.status = .filled → 0 < ans.filled)

instance (s : PolledOrder) (ans : PollAnswer) : Decidable (s.Follows ans) :=
  inferInstanceAs (Decidable (_ ∧ (_ → _) ∧ (_ → _)))

/-- One poll of the order. -/
def step (s : PolledOrder) (poll : Poll) : Option PolledOrder :=
  if poll.answer.status = .unknown then some s
  else if s.Follows poll.answer then
    let fill := (pollOrder poll.answer false s.order).booking.bind (localFill s.order)
    let s' := if poll.lands then fill.elim s s.book else s
    some { s' with
      order := (pollOrder poll.answer poll.raises s.order).order
      filled := poll.answer.filled
      avg := poll.answer.avg }
  else none

/-- **The law.** -/
structure BookedRight (s : PolledOrder) : Prop where
  notional : s.notional = s.filled * s.avg
  entry : (signalOf s.order.purpose).isOpen = true → 0 < s.filled → entryPriceOf s.row = s.avg

/-- **The condition.**  The average is the one seen before, if anything was filled;
and what is new is more than dust, is posted, and raises nothing. -/
def Steady (s : PolledOrder) (poll : Poll) : Prop :=
  poll.answer.status ≠ .unknown →
    (s.filled = 0 ∨ poll.answer.avg = s.avg) ∧
      (poll.answer.filled ≠ s.filled →
        gridEpsilon < poll.answer.filled - s.filled ∧ poll.lands = true ∧ poll.raises = false)

instance (s : PolledOrder) (poll : Poll) : Decidable (s.Steady poll) :=
  inferInstanceAs (Decidable (_ → (_ ∨ _) ∧ (_ → _)))

/-- A resting order nothing of which has been seen to fill. -/
def fresh (o : GridRestingOrder) : PolledOrder where
  order := { o with filledQuantity := 0, avgFillPrice := 0, processedFillQty := 0 }

/-! ## One poll -/

/-- While the average stays, all that was filled is booked at it. -/
structure Inv (s : PolledOrder) : Prop where
  nonneg : 0 ≤ s.filled
  processed : s.order.processedFillQty = s.filled
  stored : s.order.filledQuantity = s.filled
  notional : s.notional = s.filled * s.avg
  avg : 0 < s.filled → 0 < s.avg
  size : (signalOf s.order.purpose).isOpen = true → positionSize s.row = s.filled
  entry : (signalOf s.order.purpose).isOpen = true → 0 < s.filled → entryPriceOf s.row = s.avg

section
variable {s s' : PolledOrder} {poll : Poll}

theorem Inv.bookedRight (h : s.Inv) : s.BookedRight := ⟨h.notional, h.entry⟩

theorem purpose_pollOrder (ans : PollAnswer) (raises : Bool) (o : GridRestingOrder) :
    (pollOrder ans raises o).order.purpose = o.purpose := by
  unfold pollOrder
  dsimp only
  split
  · rfl
  · split
    · split
      · rfl
      · rfl
    · rfl

/-- An opening fill at the entry price, or on a flat leg. -/
theorem entry_applyFill_open {signal : SignalType} {filled avgPrice : ℚ} {row : Option PositionRow}
    (hs : signal.isOpen = true) (hq : 0 < filled) (hp : 0 < avgPrice)
    (hrow : positionSize row = 0 ∨ entryPriceOf row = avgPrice) :
    entryPriceOf (applyFillToLocalPosition signal filled avgPrice row).position = avgPrice := by
  have hsize := positionSize_nonneg row
  have hlt : 0 < positionSize row + filled := by linarith
  simp only [applyFillToLocalPosition, not_or.mpr ⟨not_le.mpr hq, not_le.mpr hp⟩, if_false, hs,
    if_true]
  have hread : ∀ r : PositionRow, 0 < r.size → entryPriceOf (some r) = r.entryPrice := fun r hr => by
    simp [entryPriceOf, fetchPosition, Option.filter, hr]
  rw [hread _ hlt]
  dsimp only
  split
  next hheld =>
    rcases hrow with hflat | hentry
    · exact absurd hheld.1 (by rw [hflat]; exact lt_irrefl 0)
    · rw [hentry, ← add_mul, mul_div_cancel_left₀ _ hlt.ne']
  next => rfl

/-- What the exchange's answer comes to, when all that was filled is booked. -/
theorem Inv.pollTotal (h : s.Inv) {ans : PollAnswer} (hfollows : s.Follows ans) :
    pollTotal ans s.order = ans.filled := by
  obtain ⟨hmono, -, hfilled⟩ := hfollows
  have hnonneg : 0 ≤ ans.filled := h.nonneg.trans hmono
  unfold AlgoTrade.pollTotal orElse
  dsimp only
  by_cases hzero : ans.filled = 0
  · have hstored : s.order.filledQuantity = 0 := by
      rw [h.stored]
      exact le_antisymm (hzero ▸ hmono) h.nonneg
    rw [if_pos hzero, hstored, if_neg, hzero]
    rintro ⟨-, hstatus⟩
    exact (hfilled hstatus).ne' hzero
  · rw [if_neg hzero, if_neg]
    rintro ⟨hle, -⟩
    exact hzero (le_antisymm hle hnonneg)

theorem pollOrder_old {ans : PollAnswer} {raises : Bool} {o : GridRestingOrder}
    (h : AlgoTrade.pollTotal ans o - o.processedFillQty ≤ gridEpsilon) :
    (pollOrder ans raises o).booking = none ∧
      (pollOrder ans raises o).order.processedFillQty = o.processedFillQty := by
  unfold pollOrder
  split
  · exact ⟨rfl, rfl⟩
  · rw [if_neg (not_lt.mpr h)]
    exact ⟨rfl, rfl⟩

theorem pollOrder_new {ans : PollAnswer} {o : GridRestingOrder} (hstatus : ans.status ≠ .unknown)
    (h : gridEpsilon < AlgoTrade.pollTotal ans o - o.processedFillQty) :
    (pollOrder ans false o).booking =
        some ⟨AlgoTrade.pollTotal ans o - o.processedFillQty, orElse ans.avg o.price⟩ ∧
      (pollOrder ans false o).order.processedFillQty = AlgoTrade.pollTotal ans o := by
  unfold pollOrder
  rw [if_neg hstatus]
  dsimp only
  rw [if_pos h]
  exact ⟨rfl, rfl⟩

/-- **One poll** keeps the books while the average stays. -/
theorem Inv.step (h : s.Inv) (hok : s.Steady poll) (hs : s.step poll = some s') : s'.Inv := by
  unfold PolledOrder.step at hs
  split at hs
  next => exact Option.some.inj hs ▸ h
  next hstatus =>
  obtain ⟨havg, hnew⟩ := hok hstatus
  split at hs
  case isFalse => cases hs
  next hfollows =>
  obtain rfl := Option.some.inj hs
  have htotal := h.pollTotal hfollows
  have hstored : (pollOrder poll.answer poll.raises s.order).order.filledQuantity =
      poll.answer.filled := (filledQuantity_pollOrder hstatus).trans htotal
  have hpurpose := purpose_pollOrder poll.answer poll.raises s.order
  obtain ⟨hmono, hpositive, -⟩ := hfollows
  by_cases hsame : poll.answer.filled = s.filled
  · have hold : AlgoTrade.pollTotal poll.answer s.order - s.order.processedFillQty ≤ gridEpsilon := by
      rw [htotal, h.processed, hsame, sub_self]
      exact gridEpsilon_pos.le
    have hkept : (if poll.lands = true then
        ((pollOrder poll.answer false s.order).booking.bind (localFill s.order)).elim s s.book
        else s) = s := by
      rw [(pollOrder_old hold).1]
      exact ite_self s
    have havg' : 0 < s.filled → poll.answer.avg = s.avg := fun hpos => havg.resolve_left hpos.ne'
    rw [hkept]
    refine ⟨hsame ▸ h.nonneg, ?_, hstored, ?_, hpositive, fun hopen => ?_, fun hopen hpos => ?_⟩
    · exact (pollOrder_old hold).2.trans (h.processed.trans hsame.symm)
    · rcases havg with hzero | havg
      · show s.notional = poll.answer.filled * poll.answer.avg
        rw [h.notional, hsame, hzero, zero_mul, zero_mul]
      · show s.notional = poll.answer.filled * poll.answer.avg
        rw [h.notional, hsame, havg]
    · exact (h.size (hpurpose ▸ hopen)).trans hsame.symm
    · exact (h.entry (hpurpose ▸ hopen) (hsame ▸ hpos)).trans (havg' (hsame ▸ hpos)).symm
  · obtain ⟨hmore, hlands, hraises⟩ := hnew hsame
    have hqty : 0 < poll.answer.filled - s.filled := gridEpsilon_pos.trans hmore
    have hfilled : 0 < poll.answer.filled := by
      have := h.nonneg
      linarith
    have hprice := hpositive hfilled
    have hnew' : gridEpsilon < AlgoTrade.pollTotal poll.answer s.order - s.order.processedFillQty := by
      rwa [htotal, h.processed]
    obtain ⟨hbooking, hprocessed⟩ := pollOrder_new hstatus hnew'
    have hbooked : (pollOrder poll.answer false s.order).booking.bind (localFill s.order) =
        some ⟨poll.answer.filled - s.filled, poll.answer.avg⟩ := by
      rw [hbooking, htotal, h.processed, Option.bind_some]
      unfold localFill orElse
      dsimp only
      rw [if_neg hprice.ne', if_neg hprice.ne', if_neg hqty.ne', if_neg]
      rintro (hle | hle)
      · exact absurd hqty (not_lt.mpr hle)
      · exact absurd hprice (not_lt.mpr hle)
    rw [if_pos hlands, hbooked, hraises]
    rw [hraises] at hstored hpurpose
    refine ⟨hfilled.le, hprocessed.trans htotal, hstored, ?_, fun _ => hprice, fun hopen => ?_,
      fun hopen _ => ?_⟩
    · show s.notional + (poll.answer.filled - s.filled) * poll.answer.avg =
        poll.answer.filled * poll.answer.avg
      rcases havg with hzero | havg
      · rw [h.notional, hzero]
        ring
      · rw [h.notional, havg]
        ring
    · rw [hpurpose] at hopen
      refine (size_applyFill_open hopen hqty hprice).trans ?_
      rw [h.size hopen]
      ring
    · rw [hpurpose] at hopen
      refine entry_applyFill_open hopen hqty hprice ?_
      rcases havg with hzero | havg
      · exact .inl ((h.size hopen).trans hzero)
      · by_cases hzero : s.filled = 0
        · exact .inl ((h.size hopen).trans hzero)
        · exact .inr ((h.entry hopen (h.nonneg.lt_of_ne' hzero)).trans havg.symm)

theorem inv_fresh (o : GridRestingOrder) : (fresh o).Inv :=
  ⟨le_rfl, rfl, rfl, (mul_zero 0).symm, fun h => absurd h (lt_irrefl 0), fun _ => rfl,
    fun _ h => absurd h (lt_irrefl 0)⟩

end

end PolledOrder

open PolledOrder

/-- **The poller books the right notional** after every poll of a run in which the
average stays as it was. -/
theorem bookedRight_of_steady {o : GridRestingOrder} {polls : List Poll} {s : PolledOrder}
    (hok : AllSteps PolledOrder.step PolledOrder.Steady (fresh o) polls)
    (hrun : run PolledOrder.step (fresh o) polls = some s) : s.BookedRight := by
  have h : s.Inv := run_invariant_of_allSteps (fun _ _ _ hinv hok hs => hinv.step hok hs)
    (inv_fresh o) hok hrun
  exact h.bookedRight

def twoLots : GridRestingOrder where
  id := 1
  cellIndex := 0
  purpose := .longEntry
  price := 100
  quantity := 2

/-- Two fills at one price. -/
theorem bookedRight_of_steady_onePrice :
    ∃ s, run PolledOrder.step (fresh twoLots)
        [{ answer := ⟨1, 100, .partialFill⟩ }, { answer := ⟨2, 100, .filled⟩ }] = some s ∧
      s.BookedRight ∧ s.notional = 200 := by
  obtain ⟨s, hrun, hnotional⟩ := exists_of_any (p := fun s : PolledOrder => s.notional = 200)
    (show (run PolledOrder.step (fresh twoLots)
      [{ answer := ⟨1, 100, .partialFill⟩ }, { answer := ⟨2, 100, .filled⟩ }]).any _ = true by
        decide +kernel)
  exact ⟨s, hrun, bookedRight_of_steady (by decide +kernel) hrun, hnotional⟩

/-- One at 90 and one at 100: 190 in all, and 185 booked. -/
theorem movedAverage_misbooks :
    ∃ s, run PolledOrder.step (fresh twoLots)
        [{ answer := ⟨1, 90, .partialFill⟩ }, { answer := ⟨2, 95, .filled⟩ }] = some s ∧
      s.notional = 185 ∧ entryPriceOf s.row = 92 + 1 / 2 ∧ ¬ s.BookedRight := by
  obtain ⟨s, hrun, hnotional, hentry, hfilled, havg⟩ := exists_of_any (p := fun s : PolledOrder =>
      s.notional = 185 ∧ entryPriceOf s.row = 92 + 1 / 2 ∧ s.filled = 2 ∧ s.avg = 95)
    (show (run PolledOrder.step (fresh twoLots)
      [{ answer := ⟨1, 90, .partialFill⟩ }, { answer := ⟨2, 95, .filled⟩ }]).any _ = true by
        decide +kernel)
  refine ⟨s, hrun, hnotional, hentry, fun hright => ?_⟩
  have hsum := hright.notional
  rw [hnotional, hfilled, havg] at hsum
  norm_num at hsum

end AlgoTrade.BookedNotional
