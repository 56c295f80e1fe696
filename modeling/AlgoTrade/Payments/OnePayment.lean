import AlgoTrade.Payments.Orders

/-! # One payment, one order

Any sequence of order creations by any users, incoming transfers, passing time
and refreshes of any order from any source its chain's watcher reads.

* `onePayment_step_iff`: a step keeps "one payment, one order" exactly when it is
  `Fresh`.
* `onePayment_iff_fresh`: it holds in every state of a run exactly when every
  step is fresh.
* `sameTransfer_confirms_twice`: a confirmed order frees its amount, and the RPC
  scan finds its transfer again for the next order of that amount. -/

namespace AlgoTrade

open Runs

/-! ## The system -/

/-- The order table, the incoming transfers so far and the time. -/
structure Payments where
  orders : List UsdtOrder
  transfers : List Transfer
  clock : ℤ
  deriving DecidableEq, Repr

inductive PaymentLabel
  | create (userId : ℕ) (plan : MembershipPlan) (chain : UsdtChain) (digests : List ℕ)
  | transfer (t : Transfer)
  | tick (elapsed : ℕ)
  | refresh (id : ℕ) (source : Source) (items : List Transfer)
  deriving DecidableEq, Repr

namespace Payments

def initial (clock : ℤ) : Payments where
  orders := []
  transfers := []
  clock := clock

/-- The source serves the order's chain and lists transfers to it. -/
def Lists (s : Payments) (o : UsdtOrder) (source : Source) (items : List Transfer) : Prop :=
  source.serves o.chain = true ∧ ∀ t ∈ items, t ∈ s.transfers ∧ t.chain = o.chain

instance (s : Payments) (o : UsdtOrder) (source : Source) (items : List Transfer) :
    Decidable (s.Lists o source items) :=
  inferInstanceAs (Decidable (_ ∧ _))

/-- The watcher's answer for the order. -/
def watch (s : Payments) (o : UsdtOrder) (source : Source) (items : List Transfer) :
    Option IncomingTransfer :=
  findIncoming source o.chain o.amountUsdt o.createdAt s.clock items

/-- The next state; a refresh is enabled for an existing order and an answer the
chain's sources can give. -/
def step (cfg : UsdtPayConfig) (s : Payments) : PaymentLabel → Option Payments
  | .create userId plan chain digests =>
    some { s with orders := createOrder cfg s.clock s.orders userId plan chain digests }
  | .transfer t => some { s with transfers := s.transfers ++ [t] }
  | .tick elapsed => some { s with clock := s.clock + elapsed }
  | .refresh id source items =>
    match s.orders[id]? with
    | none => none
    | some o =>
      if s.Lists o source items then
        some { s with
          orders := refreshOneOrder cfg s.clock s.orders id (s.watch o source items) }
      else none

/-! ## The property -/

/-- A transfer with that hash brought exactly the order's amount, in the chain's
smallest unit. -/
def PaysExactly (s : Payments) (o : UsdtOrder) (txHash : String) : Prop :=
  ∃ t ∈ s.transfers, t.chain = o.chain ∧ t.txHash = txHash ∧
    (t.value : ℚ) = o.amountUsdt * 10 ^ o.chain.decimals

/-- A hash is recorded on one paid or confirmed order at most, and it paid that
order's amount. -/
structure OnePayment (s : Payments) : Prop where
  unique : ∀ (i j : ℕ) (a b : UsdtOrder) (txHash : String),
    s.orders[i]? = some a → s.orders[j]? = some b →
    a.payment = some txHash → b.payment = some txHash → i = j
  exact : ∀ (i : ℕ) (a : UsdtOrder) (txHash : String),
    s.orders[i]? = some a → a.payment = some txHash → s.PaysExactly a txHash

/-- When a refresh may mark its order paid, the transfer that its scan accepts
first is recorded on no other paid or confirmed order, and has brought exactly
the order's amount. -/
def Fresh (s : Payments) : PaymentLabel → Prop
  | .refresh id source items =>
    ∀ o ∈ s.orders[id]?, mayPay s.orders id o = true → ∀ tx ∈ s.watch o source items,
      (∀ j < s.orders.length, j ≠ id → ∀ b ∈ s.orders[j]?, b.payment ≠ some tx.txHash) ∧
        s.PaysExactly o tx.txHash
  | _ => True

instance (s : Payments) (o : UsdtOrder) (txHash : String) : Decidable (s.PaysExactly o txHash) :=
  inferInstanceAs (Decidable (∃ t ∈ s.transfers, _))

instance (s : Payments) : ∀ l, Decidable (s.Fresh l)
  | .refresh id _ _ => inferInstanceAs (Decidable (∀ o ∈ s.orders[id]?, _ → _))
  | .create .. => inferInstanceAs (Decidable True)
  | .transfer _ => inferInstanceAs (Decidable True)
  | .tick _ => inferInstanceAs (Decidable True)

/-! ## One step -/

section
variable {s : Payments} {id : ℕ} {o o' : UsdtOrder}

/-- A row of the rewritten table is the new row or an old one. -/
theorem getElem?_set_cases {orders : List UsdtOrder} {i : ℕ} {a : UsdtOrder}
    (h : (orders.set id o')[i]? = some a) : i = id ∧ a = o' ∨ i ≠ id ∧ orders[i]? = some a := by
  rw [List.getElem?_set] at h
  split at h
  next hid =>
    split at h
    · exact .inl ⟨hid.symm, (Option.some.inj h).symm⟩
    · cases h
  next hid => exact .inr ⟨fun hi => hid hi.symm, h⟩

/-- The rewritten row is paid exactly by what pays the row. -/
theorem paysExactly_rewrites {p : Option String} {txHash : String} (h : o.Rewrites p o') :
    ({ s with orders := s.orders.set id o' } : Payments).PaysExactly o' txHash ↔
      s.PaysExactly o txHash := by
  simp only [PaysExactly, h.chain, h.amountUsdt]

/-- A rewrite that keeps the recorded hash keeps the property. -/
theorem OnePayment.set_same (h : s.OnePayment) (ho : s.orders[id]? = some o)
    (hrw : o.Rewrites o.payment o') :
    ({ s with orders := s.orders.set id o' } : Payments).OnePayment := by
  have hold : ∀ {i : ℕ} {a : UsdtOrder}, (s.orders.set id o')[i]? = some a →
      ∃ b, s.orders[i]? = some b ∧ a.payment = b.payment := by
    intro i a ha
    rcases getElem?_set_cases ha with ⟨rfl, rfl⟩ | ⟨-, ha⟩
    · exact ⟨o, ho, hrw.payment⟩
    · exact ⟨a, ha, rfl⟩
  constructor
  · intro i j a b txHash ha hb hpa hpb
    obtain ⟨a', ha', hpa'⟩ := hold ha
    obtain ⟨b', hb', hpb'⟩ := hold hb
    exact h.unique i j a' b' txHash ha' hb' (hpa' ▸ hpa) (hpb' ▸ hpb)
  · intro i a txHash ha hpa
    rcases getElem?_set_cases ha with ⟨rfl, rfl⟩ | ⟨-, ha⟩
    · exact (paysExactly_rewrites hrw).mpr (h.exact i o txHash ho (hrw.payment ▸ hpa))
    · exact h.exact i a txHash ha hpa

/-- A rewrite that records a hash on an order without one keeps the property
exactly when the hash is new and has paid the order's amount. -/
theorem OnePayment.set_new_iff {txHash : String} (h : s.OnePayment) (ho : s.orders[id]? = some o)
    (hrw : o.Rewrites (some txHash) o') :
    ({ s with orders := s.orders.set id o' } : Payments).OnePayment ↔
      (∀ j < s.orders.length, j ≠ id → ∀ b ∈ s.orders[j]?, b.payment ≠ some txHash) ∧
        s.PaysExactly o txHash := by
  have hself : (s.orders.set id o')[id]? = some o' :=
    List.getElem?_set_self (List.getElem?_eq_some_iff.mp ho).1
  constructor
  · intro h'
    refine ⟨?_, (paysExactly_rewrites hrw).mp (h'.exact id o' txHash hself hrw.payment)⟩
    intro j _ hj b hb hpb
    have hb' : (s.orders.set id o')[j]? = some b := by
      rw [List.getElem?_set_ne hj.symm]
      exact hb
    exact hj (h'.unique j id b o' txHash hb' hself hpb hrw.payment)
  · rintro ⟨hnew, hpays⟩
    have hne : ∀ {j : ℕ} {b : UsdtOrder}, j ≠ id → s.orders[j]? = some b →
        b.payment ≠ some txHash := fun hj hb =>
      hnew _ (List.getElem?_eq_some_iff.mp hb).1 hj _ hb
    constructor
    · intro i j a b tx ha hb hpa hpb
      rcases getElem?_set_cases ha with ⟨rfl, rfl⟩ | ⟨hi, hai⟩ <;>
        rcases getElem?_set_cases hb with ⟨rfl, rfl⟩ | ⟨hj, hbj⟩
      · rfl
      · obtain rfl : txHash = tx := Option.some.inj (hrw.payment.symm.trans hpa)
        exact absurd hpb (hne hj hbj)
      · obtain rfl : txHash = tx := Option.some.inj (hrw.payment.symm.trans hpb)
        exact absurd hpa (hne hi hai)
      · exact h.unique i j a b tx hai hbj hpa hpb
    · intro i a tx ha hpa
      rcases getElem?_set_cases ha with ⟨rfl, rfl⟩ | ⟨-, ha⟩
      · obtain rfl : txHash = tx := Option.some.inj (hrw.payment.symm.trans hpa)
        exact (paysExactly_rewrites hrw).mpr hpays
      · exact h.exact i a tx ha hpa

/-- A new order records nothing. -/
theorem OnePayment.append (h : s.OnePayment) {row : UsdtOrder} (hrow : row.payment = none) :
    ({ s with orders := s.orders ++ [row] } : Payments).OnePayment := by
  have hold : ∀ {i : ℕ} {a : UsdtOrder} {txHash : String}, (s.orders ++ [row])[i]? = some a →
      a.payment = some txHash → s.orders[i]? = some a := by
    intro i a txHash ha hpa
    by_cases hi : i < s.orders.length
    · rwa [List.getElem?_append_left hi] at ha
    · rw [List.getElem?_append_right (not_lt.mp hi), List.getElem?_singleton] at ha
      split at ha
      · obtain rfl : row = a := Option.some.inj ha
        simp [hrow] at hpa
      · cases ha
  constructor
  · intro i j a b txHash ha hb hpa hpb
    exact h.unique i j a b txHash (hold ha hpa) (hold hb hpb) hpa hpb
  · intro i a txHash ha hpa
    exact h.exact i a txHash (hold ha hpa) hpa

end

/-- What `create_order` leaves: the table, or the table with one new order. -/
theorem createOrder_cases (cfg : UsdtPayConfig) (now : ℤ) (orders : List UsdtOrder) (userId : ℕ)
    (plan : MembershipPlan) (chain : UsdtChain) (digests : List ℕ) :
    createOrder cfg now orders userId plan chain digests = orders ∨
      ∃ row : UsdtOrder, row.payment = none ∧
        createOrder cfg now orders userId plan chain digests = orders ++ [row] := by
  have hinsert : ∀ ds : List ℕ, insertOrder cfg now orders userId plan chain ds = orders ∨
      ∃ row : UsdtOrder, row.payment = none ∧
        insertOrder cfg now orders userId plan chain ds = orders ++ [row] := by
    intro ds
    induction ds with
    | nil => exact .inl rfl
    | cons d ds ih =>
      simp only [insertOrder]
      split
      · exact ih
      · exact .inr ⟨_, rfl, rfl⟩
  unfold createOrder
  split
  · exact .inl rfl
  · split
    · exact .inl rfl
    · exact hinsert _

/-- **One step.**  It keeps "one payment, one order" exactly when it is fresh. -/
theorem onePayment_step_iff {cfg : UsdtPayConfig} {s s' : Payments} {l : PaymentLabel}
    (h : s.OnePayment) (hs : s.step cfg l = some s') : s'.OnePayment ↔ s.Fresh l := by
  cases l with
  | create userId plan chain digests =>
    obtain rfl := Option.some.inj hs
    refine iff_of_true ?_ trivial
    rcases createOrder_cases cfg s.clock s.orders userId plan chain digests with
      heq | ⟨row, hrow, heq⟩
    · rw [heq]
      exact h
    · rw [heq]
      exact h.append hrow
  | transfer t =>
    obtain rfl := Option.some.inj hs
    refine iff_of_true ⟨h.unique, ?_⟩ trivial
    intro i a txHash ha hpa
    obtain ⟨t', ht', hpays⟩ := h.exact i a txHash ha hpa
    exact ⟨t', List.mem_append_left _ ht', hpays⟩
  | tick elapsed =>
    obtain rfl := Option.some.inj hs
    exact iff_of_true ⟨h.unique, h.exact⟩ trivial
  | refresh id source items =>
    cases ho : s.orders[id]? with
    | none => simp [step, ho] at hs
    | some o =>
      simp only [step, ho, Option.ite_none_right_eq_some, Option.some.injEq] at hs
      obtain ⟨-, rfl⟩ := hs
      obtain ⟨o', heq, hrw⟩ := refreshOneOrder_eq_set cfg s.clock
        (s.watch o source items) ho
      rw [heq]
      have hfresh : s.Fresh (.refresh id source items) ↔ (mayPay s.orders id o = true →
          ∀ tx ∈ s.watch o source items,
            (∀ j < s.orders.length, j ≠ id → ∀ b ∈ s.orders[j]?, b.payment ≠ some tx.txHash) ∧
              s.PaysExactly o tx.txHash) := by
        simp only [Fresh, ho, Option.mem_some_iff, forall_eq']
      rw [hfresh]
      by_cases hmay : mayPay s.orders id o = true
      · cases htx : s.watch o source items with
        | none =>
          rw [htx] at hrw
          exact iff_of_true (h.set_same ho hrw) (by simp)
        | some tx =>
          have hrw' : o.Rewrites (some tx.txHash) o' := by
            simpa [paymentAfter, htx, hmay] using hrw
          simpa [hmay] using h.set_new_iff ho hrw'
      · rw [paymentAfter_of_not_mayPay (eq_false_of_ne_true hmay)] at hrw
        exact iff_of_true (h.set_same ho hrw) fun hm => absurd hm hmay

theorem onePayment_initial (clock : ℤ) : (initial clock).OnePayment where
  unique := by simp [initial]
  exact := by simp [initial]

/-! ## Runs -/

/-- An order of 19.901235 on Tron, its transfer a minute later, a refresh that
finds it and one that confirms it; then the next order. -/
def paidInTime : List PaymentLabel :=
  [.create 1 .monthly .trc20 [1234],
   .tick 60000000,
   .transfer ⟨.trc20, "a1", 19901235, 1700000060000, 500⟩,
   .refresh 0 .tron [⟨.trc20, "a1", 19901235, 1700000060000, 500⟩],
   .tick 30000000,
   .refresh 0 .tron [],
   .create 2 .monthly .trc20 [4321],
   .refresh 1 .tron [⟨.trc20, "a1", 19901235, 1700000060000, 500⟩]]

/-- The first user's order is paid on BSC and confirmed, which frees its amount;
the second user's order draws the same suffix and is refreshed. -/
def paidTwice : List PaymentLabel :=
  [.create 1 .monthly .bep20 [1234],
   .transfer ⟨.bep20, "b7", 19901235000000000000, 1700000060000, 5000⟩,
   .refresh 0 (.rpc 5001) [⟨.bep20, "b7", 19901235000000000000, 1700000060000, 5000⟩],
   .tick 30000000,
   .refresh 0 (.rpc 5041) [],
   .create 2 .monthly .bep20 [1234],
   .refresh 1 (.rpc 5042) [⟨.bep20, "b7", 19901235000000000000, 1700000060000, 5000⟩]]

end Payments

end AlgoTrade
