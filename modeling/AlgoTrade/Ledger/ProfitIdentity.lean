import AlgoTrade.Ledger.Position
import AlgoTrade.Lib.Runs

/-! # The profit identity of one leg

Fills of one side of one symbol, worked in by `applyFillToLocalPosition`, with what
they opened, closed, realised and paid.

* `Leg.step`: one fill that closes no more than is held.
* `Leg.Inv.fill`: what a fill keeps, an opening one and a closing one.
* `identity_of_run`: size, entry price and profit after every sequence of fills. -/

namespace AlgoTrade.ProfitIdentity

open Runs

/-- A fill with a quantity and a price; any other is ignored. -/
structure Fill where
  signal : SignalType
  quantity : ℚ
  price : ℚ
  quantity_pos : 0 < quantity
  price_pos : 0 < price

/-- The row of a leg, and what its fills come to. -/
structure Leg where
  row : Option PositionRow := none
  opened : ℚ := 0
  closed : ℚ := 0
  /-- The prices of the opening fills since the leg was last flat. -/
  openPrices : List ℚ := []
  realised : ℚ := 0
  cash : ℚ := 0
  deriving DecidableEq, Repr

/-- 1 for a long leg, -1 for a short one. -/
def sideSign (long : Bool) : ℚ := if long then 1 else -1

namespace Leg

/-- The leg after a fill of its side. -/
def fill (long : Bool) (l : Leg) (f : Fill) : Leg :=
  let result := applyFillToLocalPosition f.signal f.quantity f.price l.row
  if f.signal.isOpen then
    { l with
      row := result.position
      opened := l.opened + f.quantity
      openPrices := if positionSize l.row = 0 then [f.price] else f.price :: l.openPrices
      cash := l.cash - sideSign long * (f.quantity * f.price) }
  else
    { l with
      row := result.position
      closed := l.closed + f.quantity
      realised := l.realised + result.profit.getD 0
      cash := l.cash + sideSign long * (f.quantity * f.price) }

/-- A fill of this side that closes no more than is held. -/
def step (long : Bool) (l : Leg) (f : Fill) : Option Leg :=
  if f.signal.isLong = long ∧ (f.signal.isOpen = false → f.quantity ≤ positionSize l.row) then
    some (l.fill long f)
  else none

/-- **The identity.** -/
structure Identity (long : Bool) (l : Leg) : Prop where
  nonneg : ∀ r ∈ l.row, 0 ≤ r.size
  size : positionSize l.row = l.opened - l.closed
  entry : 0 < positionSize l.row →
    (∃ low ∈ l.openPrices, low ≤ entryPriceOf l.row) ∧
      ∃ high ∈ l.openPrices, entryPriceOf l.row ≤ high
  profit : ∀ mark, l.realised + sideSign long * ((mark - entryPriceOf l.row) * positionSize l.row) =
    l.cash + sideSign long * (mark * positionSize l.row)

/-! ## One fill -/

/-- What is kept from fill to fill. -/
structure Inv (long : Bool) (l : Leg) : Prop where
  row : ∀ r ∈ l.row, 0 < r.size
  size : positionSize l.row = l.opened - l.closed
  entry : 0 < positionSize l.row → 0 < entryPriceOf l.row ∧
    (∃ low ∈ l.openPrices, low ≤ entryPriceOf l.row) ∧
      ∃ high ∈ l.openPrices, entryPriceOf l.row ≤ high
  profit : l.realised - sideSign long * (entryPriceOf l.row * positionSize l.row) = l.cash

section
variable {long : Bool} {l l' : Leg} {f : Fill}

theorem Inv.identity (h : l.Inv long) : l.Identity long where
  nonneg r hr := (h.row r hr).le
  size := h.size
  entry hpos := (h.entry hpos).2
  profit mark := by
    rw [← h.profit]
    ring

theorem entryPriceOf_some {r : PositionRow} (h : 0 < r.size) :
    entryPriceOf (some r) = r.entryPrice := by
  simp [entryPriceOf, fetchPosition, Option.filter, h]

/-- The row an opening fill leaves. -/
theorem row_open (hopen : f.signal.isOpen = true) :
    ∃ r, (applyFillToLocalPosition f.signal f.quantity f.price l.row).position = some r ∧
      r.size = positionSize l.row + f.quantity ∧
      r.entryPrice =
        if 0 < positionSize l.row ∧ 0 < entryPriceOf l.row then
          (positionSize l.row * entryPriceOf l.row + f.quantity * f.price) /
            (positionSize l.row + f.quantity)
        else f.price := by
  unfold applyFillToLocalPosition
  rw [if_neg (not_or.mpr ⟨not_le.mpr f.quantity_pos, not_le.mpr f.price_pos⟩)]
  dsimp only
  rw [if_pos hopen]
  exact ⟨_, rfl, rfl, rfl⟩

/-- A weighted average lies between the two. -/
theorem average_between {a b s q x : ℚ} (hs : 0 < s) (hq : 0 < q)
    (h : x * (s + q) = a * s + q * b) : min a b ≤ x ∧ x ≤ max a b := by
  have hpos : 0 < s + q := add_pos hs hq
  constructor
  · refine le_of_mul_le_mul_right ?_ hpos
    have hmin := mul_le_mul_of_nonneg_right (min_le_left a b) hs.le
    have hmin' := mul_le_mul_of_nonneg_right (min_le_right a b) hq.le
    linarith
  · refine le_of_mul_le_mul_right ?_ hpos
    have hmax := mul_le_mul_of_nonneg_right (le_max_left a b) hs.le
    have hmax' := mul_le_mul_of_nonneg_right (le_max_right a b) hq.le
    linarith

/-- **An opening fill** averages into the entry price. -/
theorem Inv.open (h : l.Inv long) (hopen : f.signal.isOpen = true) : (l.fill long f).Inv long := by
  obtain ⟨r, hrow, hsize, hprice⟩ := row_open (l := l) hopen
  have hnonneg := positionSize_nonneg l.row
  have hquantity := f.quantity_pos
  have hpos : 0 < r.size := by linarith
  have hfill : l.fill long f = { l with
      row := some r
      opened := l.opened + f.quantity
      openPrices := if positionSize l.row = 0 then [f.price] else f.price :: l.openPrices
      cash := l.cash - sideSign long * (f.quantity * f.price) } := by
    unfold fill
    rw [if_pos hopen, hrow]
  have hcost : r.entryPrice * r.size =
      entryPriceOf l.row * positionSize l.row + f.quantity * f.price := by
    rcases hnonneg.eq_or_lt with hflat | hheld
    · rw [hprice, if_neg (fun hc => hc.1.ne hflat), hsize, ← hflat]
      ring
    · rw [hprice, if_pos ⟨hheld, (h.entry hheld).1⟩, hsize, div_mul_cancel₀ _ (hsize ▸ hpos.ne')]
      ring
  rw [hfill]
  refine ⟨fun r' hr' => Option.some.inj hr' ▸ hpos, ?_, fun _ => ?_, ?_⟩
  · show positionSize (some r) = l.opened + f.quantity - l.closed
    rw [positionSize_some hpos, hsize, h.size]
    ring
  · show 0 < entryPriceOf (some r) ∧
      (∃ low ∈ if positionSize l.row = 0 then [f.price] else f.price :: l.openPrices,
        low ≤ entryPriceOf (some r)) ∧
      ∃ high ∈ if positionSize l.row = 0 then [f.price] else f.price :: l.openPrices,
        entryPriceOf (some r) ≤ high
    rw [entryPriceOf_some hpos]
    rcases hnonneg.eq_or_lt with hflat | hheld
    · have hentry : r.entryPrice = f.price := by rw [hprice, if_neg (fun hc => hc.1.ne hflat)]
      rw [if_pos hflat.symm, hentry]
      exact ⟨f.price_pos, ⟨f.price, List.mem_singleton.mpr rfl, le_rfl⟩,
        f.price, List.mem_singleton.mpr rfl, le_rfl⟩
    · obtain ⟨hentry, ⟨low, hlow, hle⟩, high, hhigh, hge⟩ := h.entry hheld
      obtain ⟨hmin, hmax⟩ := average_between hheld hquantity (hsize ▸ hcost)
      rw [if_neg hheld.ne']
      refine ⟨(lt_min hentry f.price_pos).trans_le hmin, ?_, ?_⟩
      · rcases min_choice (entryPriceOf l.row) f.price with heq | heq
        · exact ⟨low, List.mem_cons_of_mem _ hlow, hle.trans (heq ▸ hmin)⟩
        · exact ⟨f.price, List.mem_cons_self, heq ▸ hmin⟩
      · rcases max_choice (entryPriceOf l.row) f.price with heq | heq
        · exact ⟨high, List.mem_cons_of_mem _ hhigh, (heq ▸ hmax).trans hge⟩
        · exact ⟨f.price, List.mem_cons_self, heq ▸ hmax⟩
  · show l.realised - sideSign long * (entryPriceOf (some r) * positionSize (some r)) =
      l.cash - sideSign long * (f.quantity * f.price)
    rw [entryPriceOf_some hpos, positionSize_some hpos, hcost, ← h.profit]
    ring

/-- What a closing fill leaves and realises, on a leg that holds enough. -/
theorem row_close (hclose : f.signal.isOpen = false) (hheld : f.quantity ≤ positionSize l.row)
    (hentry : 0 < entryPriceOf l.row) :
    positionSize (applyFillToLocalPosition f.signal f.quantity f.price l.row).position =
        positionSize l.row - f.quantity ∧
      (∀ r ∈ (applyFillToLocalPosition f.signal f.quantity f.price l.row).position,
        0 < r.size ∧ r.entryPrice = entryPriceOf l.row) ∧
      (applyFillToLocalPosition f.signal f.quantity f.price l.row).profit =
        some (sideSign f.signal.isLong * ((f.price - entryPriceOf l.row) * f.quantity)) := by
  have hpos : 0 < positionSize l.row := f.quantity_pos.trans_le hheld
  refine ⟨?_, ?_, ?_⟩
  · rw [size_applyFill_close hclose f.quantity_pos f.price_pos,
      max_eq_right (sub_nonneg.mpr hheld)]
  · unfold applyFillToLocalPosition
    rw [if_neg (not_or.mpr ⟨not_le.mpr f.quantity_pos, not_le.mpr f.price_pos⟩)]
    dsimp only
    rw [if_neg (by rw [hclose]; exact Bool.false_ne_true)]
    dsimp only
    intro r hr
    split at hr
    · cases hr
    next hlt =>
      obtain rfl := Option.some.inj hr
      exact ⟨not_le.mp hlt, rfl⟩
  · unfold applyFillToLocalPosition
    rw [if_neg (not_or.mpr ⟨not_le.mpr f.quantity_pos, not_le.mpr f.price_pos⟩)]
    dsimp only
    rw [if_neg (by rw [hclose]; exact Bool.false_ne_true)]
    dsimp only
    rw [if_pos (decide_eq_true ⟨hpos, hentry⟩), min_eq_right hheld]
    unfold sideSign
    split
    · rw [one_mul]
    · congr 1
      ring

/-- **A closing fill** realises its part of the profit. -/
theorem Inv.close (h : l.Inv long) (hside : f.signal.isLong = long)
    (hclose : f.signal.isOpen = false) (hheld : f.quantity ≤ positionSize l.row) :
    (l.fill long f).Inv long := by
  have hpos : 0 < positionSize l.row := f.quantity_pos.trans_le hheld
  obtain ⟨hentry, hbounds⟩ := h.entry hpos
  obtain ⟨hsize, hrow, hprofit⟩ := row_close hclose hheld hentry
  have hfill : l.fill long f = { l with
      row := (applyFillToLocalPosition f.signal f.quantity f.price l.row).position
      closed := l.closed + f.quantity
      realised := l.realised + sideSign long * ((f.price - entryPriceOf l.row) * f.quantity)
      cash := l.cash + sideSign long * (f.quantity * f.price) } := by
    unfold fill
    rw [if_neg (by rw [hclose]; exact Bool.false_ne_true), hprofit, hside]
    rfl
  rw [hfill]
  generalize hresult : (applyFillToLocalPosition f.signal f.quantity f.price l.row).position = row
    at hsize hrow
  have hsame : 0 < positionSize row → entryPriceOf row = entryPriceOf l.row := fun hleft => by
    cases row with
    | none => exact absurd hleft (lt_irrefl 0)
    | some r =>
      obtain ⟨hr, hprice⟩ := hrow r rfl
      rw [entryPriceOf_some hr, hprice]
  have hcost : entryPriceOf row * positionSize row =
      entryPriceOf l.row * (positionSize l.row - f.quantity) := by
    rcases (positionSize_nonneg row).eq_or_lt with hflat | hleft
    · rw [← hsize, ← hflat, mul_zero, mul_zero]
    · rw [hsame hleft, hsize]
  refine ⟨fun r hr => (hrow r hr).1, ?_, fun hleft => ?_, ?_⟩
  · show positionSize row = l.opened - (l.closed + f.quantity)
    rw [hsize, h.size]
    ring
  · show 0 < entryPriceOf row ∧ (∃ low ∈ l.openPrices, low ≤ entryPriceOf row) ∧
      ∃ high ∈ l.openPrices, entryPriceOf row ≤ high
    rw [hsame hleft]
    exact ⟨hentry, hbounds⟩
  · show l.realised + sideSign long * ((f.price - entryPriceOf l.row) * f.quantity) -
      sideSign long * (entryPriceOf row * positionSize row) =
        l.cash + sideSign long * (f.quantity * f.price)
    rw [hcost, ← h.profit]
    ring

/-- **What a fill keeps.** -/
theorem Inv.step (h : l.Inv long) (hs : l.step long f = some l') : l'.Inv long := by
  unfold Leg.step at hs
  obtain ⟨⟨hside, hheld⟩, hs⟩ := Option.ite_none_right_eq_some.mp hs
  obtain rfl := Option.some.inj hs
  cases hopen : f.signal.isOpen with
  | true => exact h.open hopen
  | false => exact h.close hside hopen (hheld hopen)

end

end Leg

/-- **The profit identity** after every sequence of fills of one side in which no
close exceeds what is held. -/
theorem identity_of_run {long : Bool} {fills : List Fill} {l : Leg}
    (hrun : run (Leg.step long) {} fills = some l) : l.Identity long := by
  have hstart : Leg.Inv long {} :=
    ⟨fun r hr => (nomatch hr), (sub_self 0).symm, fun h => absurd h (lt_irrefl 0), by
      show (0 : ℚ) - sideSign long * (0 * 0) = 0
      ring⟩
  have h : l.Inv long := run_invariant (fun _ _ _ hinv hs => hinv.step hs) hstart hrun
  exact h.identity

def fillOf (signal : SignalType) (quantity price : ℕ) (h : 0 < quantity ∧ 0 < price) : Fill where
  signal := signal
  quantity := quantity
  price := price
  quantity_pos := Nat.cast_pos.mpr h.1
  price_pos := Nat.cast_pos.mpr h.2

/-- Two shorts, a part closed, the rest closed, and one short again. -/
def shortAndBack : List Fill :=
  [fillOf .openShort 2 100 (by decide), fillOf .addShort 2 110 (by decide),
    fillOf .reduceShort 1 90 (by decide), fillOf .closeShort 3 120 (by decide),
    fillOf .openShort 1 95 (by decide)]

theorem identity_of_run_shortAndBack :
    ∃ l, run (Leg.step false) {} shortAndBack = some l ∧ l.realised = -30 ∧
      l.Identity false := by
  obtain ⟨l, hrun, hrealised⟩ := exists_of_any (p := fun l : Leg => l.realised = -30)
    (show (run (Leg.step false) {} shortAndBack).any _ = true by decide +kernel)
  exact ⟨l, hrun, hrealised, identity_of_run hrun⟩

end AlgoTrade.ProfitIdentity
