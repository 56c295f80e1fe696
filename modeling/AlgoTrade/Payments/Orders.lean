import AlgoTrade.Payments.Chains
import AlgoTrade.Billing.Credits
import AlgoTrade.Lib.Runs

/-! # USDT orders

`qd_usdt_orders` with its unique index on the chain and amount of the pending
and paid orders, and the transactions of the payment service on it.

* `createOrder`: reuse the user's open order, or insert one under a free amount.
* `UsdtOrder.refreshAction`: what `_refresh_one_order` decides from the row it
  holds and the watcher's answer.
* `refreshOneOrder_eq_set`: a refresh rewrites one row; it records the hash it
  found when the row may become paid, and changes no other recorded hash. -/

namespace AlgoTrade

inductive UsdtOrderStatus
  | pending | paid | confirmed | expired | cancelled | failed
  deriving DecidableEq, Repr

/-- A row of `qd_usdt_orders`; times in microseconds. -/
structure UsdtOrder where
  userId : ℕ
  plan : MembershipPlan
  chain : UsdtChain
  amountUsdt : ℚ
  amountSuffix : ℚ
  status : UsdtOrderStatus := .pending
  txHash : String := ""
  paidAt : Option ℤ := none
  confirmedAt : Option ℤ := none
  expiresAt : ℤ
  createdAt : ℤ
  deriving DecidableEq, Repr

/-- Default membership prices. -/
def defaultPriceUsd : MembershipPlan → ℚ
  | .monthly => 199 / 10
  | .yearly => 199
  | .lifetime => 499

/-- Settings of the payment service. -/
structure UsdtPayConfig where
  enabled : Bool := true
  confirmSeconds : ℤ := 30
  orderExpireMinutes : ℤ := 30
  amountSuffixDecimals : ℤ := 6
  priceUsd : MembershipPlan → ℚ := defaultPriceUsd
  chainAvailable : UsdtChain → Bool := fun _ => true

/-- `int(cfg.get("confirm_seconds") or 30)`. -/
def UsdtPayConfig.confirmSec (cfg : UsdtPayConfig) : ℤ :=
  if cfg.confirmSeconds = 0 then 30 else cfg.confirmSeconds

def microseconds : ℤ := 1000000

/-! ## The row -/

namespace UsdtOrder

/-- The row is in the unique index. -/
def isActive (o : UsdtOrder) : Bool := o.status = .pending ∨ o.status = .paid

/-- The transfer recorded on an order that reached paid or confirmed. -/
def payment (o : UsdtOrder) : Option String :=
  if o.status = .paid ∨ o.status = .confirmed then some o.txHash else none

/-- `SET status='paid' ... WHERE status IN ('pending','expired')`; `none` when it
matches no row. -/
def markPaid (txHash : String) (paidAt : ℤ) (o : UsdtOrder) : Option UsdtOrder :=
  if o.status = .pending ∨ o.status = .expired then
    some { o with status := .paid, txHash := txHash, paidAt := some paidAt }
  else none

/-- `SET status='expired' ... WHERE status='pending'`. -/
def markExpired (o : UsdtOrder) : Option UsdtOrder :=
  if o.status = .pending then some { o with status := .expired } else none

/-- `SET status='confirmed' ... WHERE status IN ('paid','pending')`. -/
def markConfirmed (now : ℤ) (o : UsdtOrder) : Option UsdtOrder :=
  if o.status = .paid ∨ o.status = .pending then
    some { o with status := .confirmed, confirmedAt := some now }
  else none

end UsdtOrder

/-- What `_refresh_one_order` does with the row it was given. -/
inductive RefreshAction
  | skip
  | confirm
  | pay (txHash : String) (confirmNow : Bool)
  | expire
  deriving DecidableEq, Repr

/-- A paid order has waited long enough. -/
def UsdtPayConfig.paidReady (cfg : UsdtPayConfig) (now : ℤ) : Option ℤ → Bool
  | some paidAt => cfg.confirmSec * microseconds ≤ now - paidAt
  | none => cfg.confirmSec ≤ 0

/-- A transfer that was just found is old enough to confirm at once. -/
def UsdtPayConfig.txReady (cfg : UsdtPayConfig) (now : ℤ) (tx : IncomingTransfer) : Bool :=
  if tx.blockTimestampMs ≠ 0 then
    cfg.confirmSec * microseconds ≤ now - tx.blockTimestampMs * 1000
  else cfg.confirmSec ≤ 0

def UsdtOrder.refreshAction (cfg : UsdtPayConfig) (now : ℤ) (tx : Option IncomingTransfer)
    (row : UsdtOrder) : RefreshAction :=
  if row.amountUsdt ≤ 0 then .skip
  else
    match row.status with
    | .paid => if cfg.paidReady now row.paidAt then .confirm else .skip
    | .pending =>
      match tx with
      | some tx => .pay tx.txHash (cfg.txReady now tx)
      | none => if row.expiresAt ≤ now then .expire else .skip
    | .expired =>
      match tx with
      | some tx => .pay tx.txHash (cfg.txReady now tx)
      | none => .skip
    | _ => .skip

/-! ## The table -/

/-- Another active row has the chain and amount of `o`. -/
def amountTaken (orders : List UsdtOrder) (id : ℕ) (o : UsdtOrder) : Bool :=
  orders.zipIdx.any fun (b, j) =>
    j ≠ id && b.isActive && b.chain = o.chain && b.amountUsdt = o.amountUsdt

/-- An `UPDATE` of the row `id`; `none` when the unique index refuses it. -/
def updateOrder (orders : List UsdtOrder) (id : ℕ) (update : UsdtOrder → Option UsdtOrder) :
    Option (List UsdtOrder) :=
  match orders[id]? with
  | none => some orders
  | some o =>
    match update o with
    | none => some orders
    | some o' => if o'.isActive && amountTaken orders id o' then none else some (orders.set id o')

/-- The first transaction of `_confirm_and_activate`. -/
def confirmOrder (now : ℤ) (orders : List UsdtOrder) (id : ℕ) : List UsdtOrder :=
  match orders[id]? with
  | none => orders
  | some o =>
    if o.status = .confirmed then orders
    else (updateOrder orders id (UsdtOrder.markConfirmed now)).getD orders

/-- `_refresh_one_order` of the row `id`, alone; `tx` is the watcher's answer. -/
def refreshOneOrder (cfg : UsdtPayConfig) (now : ℤ) (orders : List UsdtOrder) (id : ℕ)
    (tx : Option IncomingTransfer) : List UsdtOrder :=
  match orders[id]? with
  | none => orders
  | some row =>
    match row.refreshAction cfg now tx with
    | .skip => orders
    | .confirm => confirmOrder now orders id
    | .pay txHash confirmNow =>
      match updateOrder orders id (UsdtOrder.markPaid txHash now) with
      | none => orders
      | some orders' => if confirmNow then confirmOrder now orders' id else orders'
    | .expire => (updateOrder orders id UsdtOrder.markExpired).getD orders

/-- `_find_active_order`: an open order of the user for the plan and chain. -/
def findActiveOrder (orders : List UsdtOrder) (userId : ℕ) (plan : MembershipPlan)
    (chain : UsdtChain) (now : ℤ) : Option UsdtOrder :=
  orders.reverse.find? fun o =>
    o.userId = userId && o.plan = plan && o.chain = chain && o.status = .pending &&
      decide (now < o.expiresAt)

/-- The attempts of `create_order`, one digest each: insert under the first
amount the unique index admits. -/
def insertOrder (cfg : UsdtPayConfig) (now : ℤ) (orders : List UsdtOrder) (userId : ℕ)
    (plan : MembershipPlan) (chain : UsdtChain) : List ℕ → List UsdtOrder
  | [] => orders
  | digest :: digests =>
    let (amount, suffix) :=
      buildAmountWithSuffix (suffixDecimals cfg.amountSuffixDecimals) (cfg.priceUsd plan) digest
    let row : UsdtOrder :=
      { userId, plan, chain, amountUsdt := amount, amountSuffix := suffix, createdAt := now,
        expiresAt := now + cfg.orderExpireMinutes * 60 * microseconds }
    if amountTaken orders orders.length row then
      insertOrder cfg now orders userId plan chain digests
    else orders ++ [row]

def createRetryLimit : ℕ := 10

/-- `create_order`; the digests are those its attempts draw. -/
def createOrder (cfg : UsdtPayConfig) (now : ℤ) (orders : List UsdtOrder) (userId : ℕ)
    (plan : MembershipPlan) (chain : UsdtChain) (digests : List ℕ) : List UsdtOrder :=
  if ¬ cfg.enabled ∨ ¬ cfg.chainAvailable chain ∨ cfg.priceUsd plan ≤ 0 then orders
  else
    match findActiveOrder orders userId plan chain now with
    | some _ => orders
    | none => insertOrder cfg now orders userId plan chain (digests.take createRetryLimit)

/-! ## What a refresh changes -/

/-- The row may become paid: it is payable, and the index admits it as paid. -/
def mayPay (orders : List UsdtOrder) (id : ℕ) (o : UsdtOrder) : Bool :=
  0 < o.amountUsdt ∧ (o.status = .pending ∨ o.status = .expired) ∧ ¬ amountTaken orders id o

/-- `o'` is the order `o` with that payment recorded. -/
structure UsdtOrder.Rewrites (o : UsdtOrder) (payment : Option String) (o' : UsdtOrder) : Prop where
  chain : o'.chain = o.chain
  amountUsdt : o'.amountUsdt = o.amountUsdt
  payment : o'.payment = payment

theorem UsdtOrder.Rewrites.refl (o : UsdtOrder) : o.Rewrites o.payment o := ⟨rfl, rfl, rfl⟩

theorem amountTaken_congr {orders : List UsdtOrder} {id : ℕ} {o o' : UsdtOrder}
    (hc : o'.chain = o.chain) (ha : o'.amountUsdt = o.amountUsdt) :
    amountTaken orders id o' = amountTaken orders id o := by
  simp only [amountTaken, hc, ha]

theorem payment_eq_none_of_mayPay {orders : List UsdtOrder} {id : ℕ} {o : UsdtOrder}
    (h : mayPay orders id o = true) : o.payment = none := by
  obtain ⟨-, hst, -⟩ := of_decide_eq_true h
  rcases hst with hst | hst <;> simp [UsdtOrder.payment, hst]

theorem set_of_getElem? {orders : List UsdtOrder} {id : ℕ} {o : UsdtOrder}
    (ho : orders[id]? = some o) : orders.set id o = orders := by
  obtain ⟨hlt, rfl⟩ := List.getElem?_eq_some_iff.mp ho
  exact List.set_getElem_self hlt

/-- Confirming a paid order changes no recorded hash. -/
theorem confirmOrder_eq_set (now : ℤ) {orders : List UsdtOrder} {id : ℕ} {o : UsdtOrder}
    (ho : orders[id]? = some o) (hst : o.status = .paid) :
    ∃ o', confirmOrder now orders id = orders.set id o' ∧ o.Rewrites o.payment o' := by
  refine ⟨{ o with status := .confirmed, confirmedAt := some now }, ?_, rfl, rfl, ?_⟩
  · simp [confirmOrder, updateOrder, UsdtOrder.markConfirmed, UsdtOrder.isActive, ho, hst]
  · simp [UsdtOrder.payment, hst]

/-- A payable row: the hash that was found is recorded when the index admits the
row as paid. -/
theorem payOrder_eq_set {now : ℤ} {orders : List UsdtOrder} {id : ℕ} {o : UsdtOrder}
    {txHash : String} {confirmNow : Bool} (ho : orders[id]? = some o) (hpos : 0 < o.amountUsdt)
    (hst : o.status = .pending ∨ o.status = .expired) :
    ∃ o', (match updateOrder orders id (UsdtOrder.markPaid txHash now) with
        | none => orders
        | some orders' => if confirmNow then confirmOrder now orders' id else orders') =
          orders.set id o' ∧
      o.Rewrites (if mayPay orders id o then some txHash else o.payment) o' := by
  let paid : UsdtOrder := { o with status := .paid, txHash := txHash, paidAt := some now }
  have hmark : UsdtOrder.markPaid txHash now o = some paid := if_pos hst
  have hpaid : paid.payment = some txHash := by simp [UsdtOrder.payment, paid]
  have htaken : amountTaken orders id paid = amountTaken orders id o := amountTaken_congr rfl rfl
  by_cases hfree : amountTaken orders id o = true
  · have hmay : mayPay orders id o = false := by simp [mayPay, hfree]
    have hactive : paid.isActive = true := by simp [UsdtOrder.isActive, paid]
    refine ⟨o, ?_, ?_⟩
    · simp [updateOrder, ho, hmark, htaken, hfree, hactive, set_of_getElem? ho]
    · rw [hmay]
      exact .refl o
  · have hmay : mayPay orders id o = true := by simp [mayPay, hfree, hpos, hst]
    have hupd : updateOrder orders id (UsdtOrder.markPaid txHash now) = some (orders.set id paid) := by
      simp [updateOrder, ho, hmark, htaken, hfree]
    rw [hupd, hmay]
    cases confirmNow with
    | false => exact ⟨paid, rfl, rfl, rfl, hpaid⟩
    | true =>
      have hlt : id < orders.length := (List.getElem?_eq_some_iff.mp ho).1
      have hself : (orders.set id paid)[id]? = some paid := List.getElem?_set_self hlt
      obtain ⟨o', heq, hrw⟩ := confirmOrder_eq_set now hself rfl
      refine ⟨o', ?_, hrw.chain, hrw.amountUsdt, hrw.payment.trans hpaid⟩
      show confirmOrder now (orders.set id paid) id = orders.set id o'
      rw [heq, List.set_set]

/-- The hash a refresh leaves recorded on the row. -/
def paymentAfter (orders : List UsdtOrder) (id : ℕ) (o : UsdtOrder) :
    Option IncomingTransfer → Option String
  | some tx => if mayPay orders id o then some tx.txHash else o.payment
  | none => o.payment

theorem paymentAfter_of_not_mayPay {orders : List UsdtOrder} {id : ℕ} {o : UsdtOrder}
    {tx : Option IncomingTransfer} (h : mayPay orders id o = false) :
    paymentAfter orders id o tx = o.payment := by
  cases tx <;> simp [paymentAfter, h]

/-- **Spec of a refresh.**  It rewrites its row and no other, and keeps the
chain and the amount. -/
theorem refreshOneOrder_eq_set (cfg : UsdtPayConfig) (now : ℤ) (tx : Option IncomingTransfer)
    {orders : List UsdtOrder} {id : ℕ} {o : UsdtOrder} (ho : orders[id]? = some o) :
    ∃ o', refreshOneOrder cfg now orders id tx = orders.set id o' ∧
      o.Rewrites (paymentAfter orders id o tx) o' := by
  have hskip : ∀ {p}, p = o.payment → ∃ o', orders = orders.set id o' ∧ o.Rewrites p o' := by
    rintro p rfl
    exact ⟨o, (set_of_getElem? ho).symm, .refl o⟩
  unfold refreshOneOrder
  rw [ho]
  by_cases hpos : o.amountUsdt ≤ 0
  · have hmay : mayPay orders id o = false := by simp [mayPay, hpos]
    simp only [UsdtOrder.refreshAction, if_pos hpos]
    exact hskip (paymentAfter_of_not_mayPay hmay)
  simp only [UsdtOrder.refreshAction, if_neg hpos]
  rw [not_le] at hpos
  have hfixed : o.status ≠ .pending → o.status ≠ .expired →
      paymentAfter orders id o tx = o.payment := by
    intro hp he
    exact paymentAfter_of_not_mayPay (by simp [mayPay, hp, he])
  cases hst : o.status with
  | pending =>
    cases tx with
    | some tx => exact payOrder_eq_set ho hpos (.inl hst)
    | none =>
      by_cases hexp : o.expiresAt ≤ now
      · refine ⟨{ o with status := .expired }, ?_, rfl, rfl, ?_⟩
        · simp [hexp, updateOrder, UsdtOrder.markExpired, UsdtOrder.isActive, ho, hst]
        · simp [UsdtOrder.payment, paymentAfter, hst]
      · simp only [if_neg hexp]
        exact hskip rfl
  | expired =>
    cases tx with
    | some tx => exact payOrder_eq_set ho hpos (.inr hst)
    | none => exact hskip rfl
  | paid =>
    have hpay := hfixed (by simp [hst]) (by simp [hst])
    by_cases hready : cfg.paidReady now o.paidAt = true
    · simp only [hready, if_true]
      rw [hpay]
      exact confirmOrder_eq_set now ho hst
    · simp only [hready]
      exact hskip hpay
  | confirmed => exact hskip (hfixed (by simp [hst]) (by simp [hst]))
  | cancelled => exact hskip (hfixed (by simp [hst]) (by simp [hst]))
  | failed => exact hskip (hfixed (by simp [hst]) (by simp [hst]))

end AlgoTrade
