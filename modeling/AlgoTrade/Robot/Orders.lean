import Mathlib.Algebra.BigOperators.Group.List.Basic
import Mathlib.Algebra.Order.BigOperators.Group.List
import Mathlib.Algebra.Order.Field.Basic
import Mathlib.Algebra.Order.Field.Rat
import Mathlib.Tactic.Linarith
import Mathlib.Tactic.Ring

/-! # The orders of a robot

A robot asks for an order under a reference and later reads what became of it by
`get_order_status`.  Its orders are kept newest first; a reference means the newest
order that has it.

* `Order.committed`: what an order may still come to, the whole quote while it works
  and what it filled once it has ended.
* `sum_replace`: a total over the orders after one of them moved.
* `equityRiskReason`: the equity risk that every robot shares. -/

namespace AlgoTrade.Robot

/-! ## Reports -/

/-- What a status report calls the order; `working` stands for every other name. -/
inductive StatusName
  | filled | rejected | failed | cancelled | canceled | expired | working
  deriving DecidableEq, Repr

/-- `name in ("rejected", "failed", "cancelled", "canceled", "expired")`. -/
def StatusName.isFailure : StatusName → Bool
  | rejected | failed | cancelled | canceled | expired => true
  | filled | working => false

/-- What `get_order_status` answers. -/
structure Report where
  name : StatusName := .working
  filledNotional : ℚ := 0
  fee : ℚ := 0
  deriving DecidableEq, Repr

/-! ## Orders -/

/-- An order with its requested quote and what is filled of it; `tag` says what it is
for. -/
structure Order (ρ τ : Type) where
  reference : ρ
  tag : τ
  quote : ℚ
  filled : ℚ := 0
  status : StatusName := .working
  deriving DecidableEq, Repr

variable {ρ τ : Type}

namespace Order

/-- The order never fills more than it asks for. -/
structure Ok (o : Order ρ τ) : Prop where
  quote_pos : 0 < o.quote
  filled_nonneg : 0 ≤ o.filled
  filled_le : o.filled ≤ o.quote

/-- The part of the quote that counts: all of it while the order works. -/
def rate (o : Order ρ τ) : ℚ := if o.status = .working then 1 else o.filled / o.quote

def committed (o : Order ρ τ) : ℚ := if o.status = .working then o.quote else o.filled

/-- Its report, with the fee of its filled notional. -/
def report (feeRate : ℚ) (o : Order ρ τ) : Report where
  name := o.status
  filledNotional := o.filled
  fee := feeRate * o.filled

theorem Ok.filled_le_committed {o : Order ρ τ} (h : o.Ok) : o.filled ≤ o.committed := by
  unfold committed
  split
  · exact h.filled_le
  · exact le_rfl

theorem Ok.committed_eq {o : Order ρ τ} (h : o.Ok) : o.committed = o.quote * o.rate := by
  unfold committed rate
  split
  · rw [mul_one]
  · rw [mul_div_cancel₀ _ h.quote_pos.ne']

theorem Ok.rate_nonneg {o : Order ρ τ} (h : o.Ok) : 0 ≤ o.rate := by
  unfold rate
  split
  · exact zero_le_one
  · exact div_nonneg h.filled_nonneg h.quote_pos.le

theorem Ok.rate_le_one {o : Order ρ τ} (h : o.Ok) : o.rate ≤ 1 := by
  unfold rate
  split
  · exact le_rfl
  · exact (div_le_one h.quote_pos).mpr h.filled_le

end Order

/-! ## By reference -/

variable [DecidableEq ρ]

/-- The newest order with the reference. -/
def find (orders : List (Order ρ τ)) (r : ρ) : Option (Order ρ τ) :=
  orders.find? fun o => o.reference = r

/-- Put `o` in the place of the newest order with its reference. -/
def replace (o : Order ρ τ) : List (Order ρ τ) → List (Order ρ τ)
  | [] => []
  | x :: xs => if x.reference = o.reference then o :: xs else x :: replace o xs

/-- `get_order_status`. -/
def getOrderStatus (feeRate : ℚ) (orders : List (Order ρ τ)) (r : ρ) : Report :=
  match find orders r with
  | some o => o.report feeRate
  | none => {}

/-- A working order fills some more of its quote. -/
def fillMore (orders : List (Order ρ τ)) (r : ρ) (amount : ℚ) : Option (List (Order ρ τ)) :=
  (find orders r).bind fun o =>
    if o.status = .working ∧ 0 < amount ∧ o.filled + amount ≤ o.quote then
      some (replace { o with filled := o.filled + amount } orders)
    else none

/-- A working order ends. -/
def endWith (orders : List (Order ρ τ)) (r : ρ) (name : StatusName) :
    Option (List (Order ρ τ)) :=
  (find orders r).bind fun o =>
    if o.status = .working ∧ name ≠ .working then
      some (replace { o with status := name } orders)
    else none

theorem find_cons (x : Order ρ τ) (xs : List (Order ρ τ)) (r : ρ) :
    find (x :: xs) r = if x.reference = r then some x else find xs r := by
  unfold find
  rw [List.find?_cons]
  split
  next h => rw [if_pos (of_decide_eq_true h)]
  next h => rw [if_neg (of_decide_eq_false h)]

theorem reference_of_find {orders : List (Order ρ τ)} {r : ρ} {o : Order ρ τ}
    (h : find orders r = some o) : o.reference = r := by
  simpa using List.find?_some h

theorem mem_of_find {orders : List (Order ρ τ)} {r : ρ} {o : Order ρ τ}
    (h : find orders r = some o) : o ∈ orders :=
  List.mem_of_find?_eq_some h

/-- The reference means the new order, every other one what it meant. -/
theorem find_replace {orders : List (Order ρ τ)} {r : ρ} {o o' : Order ρ τ}
    (h : find orders r = some o) (hr : o'.reference = r) (r' : ρ) :
    find (replace o' orders) r' = if r' = r then some o' else find orders r' := by
  induction orders with
  | nil => cases h
  | cons x xs ih =>
    rw [find_cons] at h
    unfold replace
    by_cases hx : x.reference = r
    · rw [if_pos (hx.trans hr.symm), find_cons, find_cons, hr, hx]
      by_cases hr' : r' = r
      · rw [if_pos hr'.symm, if_pos hr']
      · rw [if_neg fun heq => hr' heq.symm, if_neg hr', if_neg fun heq => hr' heq.symm]
    · rw [if_neg hx] at h
      rw [if_neg fun heq => hx (heq.trans hr), find_cons, find_cons, ih h]
      by_cases hx' : x.reference = r'
      · rw [if_pos hx', if_pos hx', if_neg fun heq => hx (hx'.trans heq)]
      · rw [if_neg hx', if_neg hx']

theorem replace_cons (o x : Order ρ τ) (xs : List (Order ρ τ)) :
    replace o (x :: xs) = if x.reference = o.reference then o :: xs else x :: replace o xs :=
  rfl

/-- Among the orders that `p` picks, the order that moved is replaced too, if `p` picks it. -/
theorem filter_replace {orders : List (Order ρ τ)} {r : ρ} {o o' : Order ρ τ}
    (h : find orders r = some o) (hr : o'.reference = r) {p : Order ρ τ → Bool}
    (hp : p o' = p o) :
    (replace o' orders).filter p =
      if p o = true then replace o' (orders.filter p) else orders.filter p := by
  induction orders with
  | nil => cases h
  | cons x xs ih =>
    rw [find_cons] at h
    rw [replace_cons]
    by_cases hx : x.reference = r
    · rw [if_pos hx] at h
      obtain rfl := Option.some.inj h
      rw [if_pos (hx.trans hr.symm)]
      cases hpx : p x with
      | true =>
        rw [if_pos rfl, List.filter_cons_of_pos hpx, List.filter_cons_of_pos (hp.trans hpx),
          replace_cons, if_pos (hx.trans hr.symm)]
      | false =>
        rw [if_neg Bool.false_ne_true, List.filter_cons_of_neg (by simp [hp, hpx]),
          List.filter_cons_of_neg (by simp [hpx])]
    · rw [if_neg hx] at h
      have hne : x.reference ≠ o'.reference := fun heq => hx (heq.trans hr)
      rw [if_neg hne]
      cases hpx : p x with
      | true =>
        rw [List.filter_cons_of_pos hpx, List.filter_cons_of_pos hpx, ih h, replace_cons,
          if_neg hne]
        split
        · rfl
        · rfl
      | false =>
        rw [List.filter_cons_of_neg (by simp [hpx]), List.filter_cons_of_neg (by simp [hpx]), ih h]

theorem mem_replace {orders : List (Order ρ τ)} {o x : Order ρ τ} (h : x ∈ replace o orders) :
    x = o ∨ x ∈ orders := by
  induction orders with
  | nil => cases h
  | cons y ys ih =>
    unfold replace at h
    split at h
    · rcases List.mem_cons.mp h with rfl | h
      · exact .inl rfl
      · exact .inr (List.mem_cons_of_mem y h)
    · rcases List.mem_cons.mp h with rfl | h
      · exact .inr List.mem_cons_self
      · exact (ih h).imp_right (List.mem_cons_of_mem y)

/-- A total changes by what the order counts for. -/
theorem sum_replace {orders : List (Order ρ τ)} {r : ρ} {o o' : Order ρ τ}
    (h : find orders r = some o) (hr : o'.reference = r) (φ : Order ρ τ → ℚ) :
    ((replace o' orders).map φ).sum = (orders.map φ).sum - φ o + φ o' := by
  induction orders with
  | nil => cases h
  | cons x xs ih =>
    rw [find_cons] at h
    unfold replace
    by_cases hx : x.reference = r
    · rw [if_pos hx] at h
      obtain rfl := Option.some.inj h
      rw [if_pos (hx.trans hr.symm), List.map_cons, List.map_cons, List.sum_cons, List.sum_cons]
      ring
    · rw [if_neg hx] at h
      rw [if_neg fun heq => hx (heq.trans hr), List.map_cons, List.map_cons, List.sum_cons,
        List.sum_cons, ih h]
      ring

/-- What filling and ending have in common: a working order moves on. -/
structure Moves (r : ρ) (orders orders' : List (Order ρ τ)) (o o' : Order ρ τ) : Prop where
  find : find orders r = some o
  working : o.status = .working
  reference : o'.reference = r
  tag : o'.tag = o.tag
  quote : o'.quote = o.quote
  filled_ge : o.filled ≤ o'.filled
  filled_le : o.Ok → o'.filled ≤ o'.quote
  eq : orders' = replace o' orders

theorem moves_of_fillMore {orders orders' : List (Order ρ τ)} {r : ρ} {amount : ℚ}
    (h : fillMore orders r amount = some orders') :
    ∃ o, Moves r orders orders' o { o with filled := o.filled + amount } := by
  obtain ⟨o, ho, hs⟩ := Option.bind_eq_some_iff.mp h
  obtain ⟨⟨hw, hpos, hle⟩, rfl⟩ := Option.ite_none_right_eq_some.mp hs |>.imp_right Option.some.inj
  have href : o.reference = r := reference_of_find ho
  exact ⟨o, ho, hw, href, rfl, rfl, by dsimp only; linarith, fun _ => hle, rfl⟩

theorem moves_of_endWith {orders orders' : List (Order ρ τ)} {r : ρ} {name : StatusName}
    (h : endWith orders r name = some orders') :
    ∃ o, Moves r orders orders' o { o with status := name } ∧ name ≠ .working := by
  obtain ⟨o, ho, hs⟩ := Option.bind_eq_some_iff.mp h
  obtain ⟨⟨hw, hname⟩, rfl⟩ := Option.ite_none_right_eq_some.mp hs |>.imp_right Option.some.inj
  have href : o.reference = r := reference_of_find ho
  exact ⟨o, ⟨ho, hw, href, rfl, rfl, le_rfl, fun h => h.filled_le, rfl⟩, hname⟩

theorem Moves.ok {r : ρ} {orders orders' : List (Order ρ τ)} {o o' : Order ρ τ}
    (h : Moves r orders orders' o o') (ho : o.Ok) : o'.Ok where
  quote_pos := h.quote ▸ ho.quote_pos
  filled_nonneg := ho.filled_nonneg.trans h.filled_ge
  filled_le := h.filled_le ho

/-- A working order counts in full, and for no more afterwards. -/
theorem Moves.committed_le {r : ρ} {orders orders' : List (Order ρ τ)} {o o' : Order ρ τ}
    (h : Moves r orders orders' o o') (ho : o.Ok) : o'.committed ≤ o.committed := by
  have hcommitted : o.committed = o.quote := if_pos h.working
  rw [hcommitted, ← h.quote]
  unfold Order.committed
  split
  · exact le_rfl
  · exact h.filled_le ho

/-! ## Equity risk -/

structure EquityRisk where
  takeProfit : ℚ := 0
  stopLoss : ℚ := 0
  trailingEnabled : Bool := false
  trailingActivation : ℚ := 0
  trailingCallback : ℚ := 0
  deriving DecidableEq, Repr

/-- The peak return of the equity, and whether its trailing stop is armed. -/
structure EquityWatch where
  peakReturn : ℚ := 0
  trailingArmed : Bool := false
  deriving DecidableEq, Repr

/-- `_equity_risk_reason`; an empty reason is `none`. -/
def equityRiskReason (risk : EquityRisk) (startingEquity currentEquity : ℚ) (w : EquityWatch) :
    EquityWatch × Option String :=
  if startingEquity ≤ 0 then (w, none)
  else
    let totalReturn := currentEquity / startingEquity - 1
    let w := { w with peakReturn := max w.peakReturn totalReturn }
    if 0 < risk.takeProfit ∧ risk.takeProfit ≤ totalReturn then (w, some "equity_take_profit")
    else if 0 < risk.stopLoss ∧ totalReturn ≤ -risk.stopLoss then (w, some "equity_stop_loss")
    else if risk.trailingEnabled then
      let w := if risk.trailingActivation ≤ totalReturn then { w with trailingArmed := true } else w
      if w.trailingArmed ∧ risk.trailingCallback ≤ w.peakReturn - totalReturn then
        (w, some "equity_trailing_stop")
      else (w, none)
    else (w, none)

end AlgoTrade.Robot
