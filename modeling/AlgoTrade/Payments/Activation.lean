import AlgoTrade.Payments.Orders

/-! # Refreshes of one order, interleaved

Any number of refreshes of one order (worker loop and `get_order` requests).
Each reads the row, asks the watcher, writes paid or expired; when it goes on to
`_confirm_and_activate` it selects the status, updates it and commits, and then
runs `purchase_membership` in a transaction of its own.  It may stop between any
two of these, by an exception or with its process.

* `afterPurchase`: what a committed purchase leaves, as the credit calls'
  statements compute it (`succeeds_purchase`).
* `activatesOnce_of_confirmedAlone`: an order is activated exactly once in every
  run where no refresh confirms it again and none stops after confirming it. -/

namespace AlgoTrade

open Runs ReadCommitted

/-! ## The purchase -/

/-- The account after a committed `purchase_membership`. -/
def Account.afterPurchase (billing : BillingConfig) (plan : MembershipPlan) (orderRef : String)
    (a : Account) (now : ℤ) : Account :=
  let vip := if a.vip.isLifetime ∧ plan ≠ .lifetime then a.vip else a.vip.purchased billing plan now
  let bonus : ℚ := billing.bonus plan
  let action := if plan = .lifetime then "membership_monthly" else "membership_bonus"
  let granted : Account :=
    if 0 < billing.bonus plan then
      { credits := a.credits + bonus, vip := vip
        log := a.log ++ [⟨action, bonus, a.credits + bonus, orderRef⟩] }
    else { a with vip := vip }
  if plan = .lifetime then
    { granted with vip := { granted.vip with monthlyCreditsLastGrant := some now } }
  else granted

/-- The bonus of a purchase, alone: the balance and the log row. -/
theorem alone_bonus {billing : BillingConfig} {p : CreditTx × Account} {n : ℕ} {t : CreditTx}
    {plan : MembershipPlan} {now : ℤ} {orderRef : String}
    (ht : t.call = .purchase plan now orderRef) {v : Account}
    (h : AloneIn (creditProgram billing) n p (t.goTo (t.bonusPhase (billing.bonus plan)), v)) :
    ∃ m, AloneIn (creditProgram billing) m p (t.goTo t.afterCredits,
      if 0 < billing.bonus plan then
        { v with
          credits := v.credits + billing.bonus plan
          log := v.log ++ [⟨t.logKey.1, billing.bonus plan, v.credits + billing.bonus plan,
            orderRef⟩] }
      else v) := by
  have href : t.logKey.2 = orderRef := by
    cases plan <;> simp [CreditTx.logKey, ht]
  by_cases hpos : 0 < billing.bonus plan
  · rw [CreditTx.bonusPhase, if_pos hpos] at h
    rw [if_pos hpos]
    have hread := h.succ (r := (t.goTo (.creditsRead (billing.bonus plan) v.credits), v)) rfl
    have hcredits := hread.succ (r := (t.goTo (.written (billing.bonus plan)
      (v.credits + billing.bonus plan)), { v with credits := v.credits + billing.bonus plan })) rfl
    refine ⟨_, hcredits.succ ?_⟩
    rw [← href]
    rfl
  · rw [CreditTx.bonusPhase, if_neg hpos] at h
    rw [if_neg hpos]
    exact ⟨n, h⟩

/-- The end of a purchase, alone: a lifetime member's grant is stamped. -/
theorem alone_stamp {billing : BillingConfig} {p : CreditTx × Account} {n : ℕ} {t : CreditTx}
    {plan : MembershipPlan} {now : ℤ} {orderRef : String}
    (ht : t.call = .purchase plan now orderRef) {v : Account}
    (h : AloneIn (creditProgram billing) n p (t.goTo t.afterCredits, v)) :
    ∃ m, AloneIn (creditProgram billing) m p (t.goTo .logged,
      if plan = .lifetime then { v with vip := { v.vip with monthlyCreditsLastGrant := some now } }
      else v) := by
  cases plan with
  | monthly =>
    simp only [CreditTx.afterCredits, ht] at h
    exact ⟨n, h⟩
  | yearly =>
    simp only [CreditTx.afterCredits, ht] at h
    exact ⟨n, h⟩
  | lifetime =>
    simp only [CreditTx.afterCredits, ht] at h
    have hstamp : t.stampTime = some now := by simp [CreditTx.stampTime, ht]
    refine ⟨_, h.succ ?_⟩
    rw [if_pos rfl, ← hstamp]
    rfl

/-- The purchase call, alone, succeeds and leaves `afterPurchase`. -/
theorem succeeds_purchase (billing : BillingConfig) (plan : MembershipPlan) (now : ℤ)
    (orderRef : String) (a : Account) :
    Succeeds (creditProgram billing) ⟨.purchase plan now orderRef, .start⟩ a
      (a.afterPurchase billing plan orderRef now) := by
  let t : CreditTx := ⟨.purchase plan now orderRef, .start⟩
  -- the membership columns
  obtain ⟨n, hvip⟩ : ∃ n, AloneIn (creditProgram billing) n (t, a)
      (t.goTo (t.bonusPhase (billing.bonus plan)),
        { a with vip := if a.vip.isLifetime ∧ plan ≠ .lifetime then a.vip
          else a.vip.purchased billing plan now }) := by
    have hread : AloneIn (creditProgram billing) 1 (t, a)
        (t.goTo (t.purchasePhase billing plan a.vip), a) := rfl
    by_cases hkeep : a.vip.isLifetime ∧ plan ≠ .lifetime
    · rw [if_pos hkeep]
      rw [CreditTx.purchasePhase, if_pos hkeep] at hread
      exact ⟨1, hread⟩
    · rw [if_neg hkeep]
      rw [CreditTx.purchasePhase, if_neg hkeep] at hread
      exact ⟨2, hread.succ rfl⟩
  obtain ⟨n, hbonus⟩ := alone_bonus rfl hvip
  obtain ⟨n, hstamp⟩ := alone_stamp rfl hbonus
  refine ⟨n, _, _, hstamp, .inl ⟨rfl, ?_⟩⟩
  cases plan <;> simp only [Account.afterPurchase] <;> rfl

/-! ## The system -/

/-- Where a refresh stands; `loaded` holds the row it has read. -/
inductive RefreshPhase
  | loading
  | loaded (row : UsdtOrder)
  | selecting
  | updating
  | activating
  | ended
  deriving DecidableEq, Repr

/-- The order, its user's account with the times of the purchases committed for
the order, and the refreshes. -/
structure Refreshes where
  orderId : ℕ
  order : UsdtOrder
  account : Account
  activations : List ℤ := []
  phases : List RefreshPhase := []
  deriving DecidableEq, Repr

inductive RefreshLabel
  | start
  | load (i : ℕ)
  | write (i : ℕ) (now : ℤ) (tx : Option IncomingTransfer)
  | select (i : ℕ)
  | confirm (i : ℕ) (now : ℤ)
  | activate (i : ℕ) (now : ℤ)
  | stop (i : ℕ)
  deriving DecidableEq, Repr

/-- The label is not a failure. -/
def RefreshLabel.Succeeds : RefreshLabel → Prop
  | .stop _ => False
  | _ => True

instance : DecidablePred RefreshLabel.Succeeds
  | .stop _ => inferInstanceAs (Decidable False)
  | .start => inferInstanceAs (Decidable True)
  | .load _ => inferInstanceAs (Decidable True)
  | .write .. => inferInstanceAs (Decidable True)
  | .select _ => inferInstanceAs (Decidable True)
  | .confirm .. => inferInstanceAs (Decidable True)
  | .activate .. => inferInstanceAs (Decidable True)

namespace Refreshes

def goTo (s : Refreshes) (i : ℕ) (phase : RefreshPhase) : Refreshes :=
  { s with phases := s.phases.set i phase }

/-- `fulfillment_ref`. -/
def orderRef (s : Refreshes) : String := "usdt_order:" ++ toString s.orderId

/-- The order after an `UPDATE`; the number of rows it matched is not read. -/
def updated (s : Refreshes) (update : UsdtOrder → Option UsdtOrder) : Refreshes :=
  { s with order := (update s.order).getD s.order }

/-- The next state; `none` when the refresh is not at that point. -/
def step (pay : UsdtPayConfig) (billing : BillingConfig) (s : Refreshes) :
    RefreshLabel → Option Refreshes
  | .start => some { s with phases := s.phases ++ [.loading] }
  | .load i =>
    match s.phases[i]? with
    | some .loading => some (s.goTo i (.loaded s.order))
    | _ => none
  | .write i now tx =>
    match s.phases[i]? with
    | some (.loaded row) =>
      match row.refreshAction pay now tx with
      | .skip => some (s.goTo i .ended)
      | .confirm => some (s.goTo i .selecting)
      | .pay txHash confirmNow =>
        some ((s.updated (UsdtOrder.markPaid txHash now)).goTo i
          (if confirmNow then .selecting else .ended))
      | .expire => some ((s.updated UsdtOrder.markExpired).goTo i .ended)
    | _ => none
  | .select i =>
    match s.phases[i]? with
    | some .selecting =>
      some (s.goTo i (if s.order.status = .confirmed then .ended else .updating))
    | _ => none
  | .confirm i now =>
    match s.phases[i]? with
    | some .updating => some ((s.updated (UsdtOrder.markConfirmed now)).goTo i .activating)
    | _ => none
  | .activate i now =>
    match s.phases[i]? with
    | some .activating =>
      some { s.goTo i .ended with
        account := s.account.afterPurchase billing s.order.plan s.orderRef now
        activations := s.activations ++ [now] }
    | _ => none
  -- an exception, a purchase that reports failure, or the end of the process
  | .stop i =>
    match s.phases[i]? with
    | none | some .ended => none
    | some _ => some (s.goTo i .ended)

/-! ## The property -/

/-- All refreshes have ended. -/
def Quiet (s : Refreshes) : Prop := ∀ p ∈ s.phases, p = .ended

instance (s : Refreshes) : Decidable s.Quiet := inferInstanceAs (Decidable (∀ p ∈ s.phases, _))

/-- At the end `s` of the run `labels` from `s₀`: the purchase was committed once
at most, and the account is what that leaves; it was only committed for a
confirmed order; and once the order was confirmed and refreshes started later
have all run without failure, it was. -/
structure ActivatesOnce (pay : UsdtPayConfig) (billing : BillingConfig) (s₀ : Refreshes)
    (labels : List RefreshLabel) (s : Refreshes) : Prop where
  atMostOnce : s.activations.length ≤ 1
  account : s.account =
    s.activations.foldl (Account.afterPurchase billing s₀.order.plan s₀.orderRef) s₀.account
  onlyConfirmed : s.activations ≠ [] → s.order.status = .confirmed
  eventually : ∀ as bs s₁, labels = as ++ bs → run (step pay billing) s₀ as = some s₁ →
    s₁.order.status = .confirmed → .start ∈ bs → (∀ l ∈ bs, RefreshLabel.Succeeds l) → s.Quiet →
      s.activations ≠ []

/-- A confirming `UPDATE` finds the order not confirmed yet, and no refresh stops
between the confirmation it committed and its purchase. -/
def ConfirmedAlone (s : Refreshes) : RefreshLabel → Prop
  | .confirm _ _ => s.order.status ≠ .confirmed
  | .stop i => s.phases[i]? ≠ some .activating
  | _ => True

instance (s : Refreshes) : DecidablePred s.ConfirmedAlone
  | .confirm .. => inferInstanceAs (Decidable (_ ≠ _))
  | .stop _ => inferInstanceAs (Decidable (_ ≠ _))
  | .start => inferInstanceAs (Decidable True)
  | .load _ => inferInstanceAs (Decidable True)
  | .write .. => inferInstanceAs (Decidable True)
  | .select _ => inferInstanceAs (Decidable True)
  | .activate .. => inferInstanceAs (Decidable True)

/-! ## The invariant -/

end Refreshes

/-- The order reached paid. -/
def UsdtOrder.Settled (o : UsdtOrder) : Prop := o.status = .paid ∨ o.status = .confirmed

/-- What a refresh at that point knows of the order. -/
def RefreshPhase.Fits (o : UsdtOrder) : RefreshPhase → Prop
  | .loaded row => row.status = .paid → o.Settled
  | .selecting => o.Settled
  | .updating => o.Settled
  | .activating => o.status = .confirmed
  | _ => True

/-- What an `UPDATE` of the order leaves true. -/
structure UsdtOrder.Progress (o o' : UsdtOrder) : Prop where
  live : o.status ≠ .cancelled ∧ o.status ≠ .failed → o'.status ≠ .cancelled ∧ o'.status ≠ .failed
  settled : o.Settled → o'.Settled
  confirmed : o.status = .confirmed → o'.status = .confirmed
  plan : o'.plan = o.plan

theorem RefreshPhase.Fits.progress {o o' : UsdtOrder} {p : RefreshPhase} (h : p.Fits o)
    (ho : o.Progress o') : p.Fits o' := by
  cases p with
  | loading => trivial
  | loaded row => exact fun hpaid => ho.settled (h hpaid)
  | selecting => exact ho.settled h
  | updating => exact ho.settled h
  | activating => exact ho.confirmed h
  | ended => trivial

theorem UsdtOrder.Progress.refl (o : UsdtOrder) : o.Progress o := ⟨id, id, id, rfl⟩

theorem progress_markPaid (o : UsdtOrder) (txHash : String) (now : ℤ) :
    o.Progress ((o.markPaid txHash now).getD o) := by
  unfold UsdtOrder.markPaid
  split
  next h =>
    refine ⟨fun _ => ⟨by simp, by simp⟩, fun _ => .inl rfl, fun hc => ?_, rfl⟩
    rcases h with h | h <;> rw [h] at hc <;> cases hc
  · exact .refl o

theorem progress_markExpired (o : UsdtOrder) : o.Progress (o.markExpired.getD o) := by
  unfold UsdtOrder.markExpired
  split
  next h =>
    refine ⟨fun _ => ⟨by simp, by simp⟩, fun hs => ?_, fun hc => ?_, rfl⟩
    · rcases hs with hs | hs <;> rw [h] at hs <;> cases hs
    · rw [h] at hc
      cases hc
  · exact .refl o

theorem progress_markConfirmed (o : UsdtOrder) (now : ℤ) :
    o.Progress ((o.markConfirmed now).getD o) := by
  unfold UsdtOrder.markConfirmed
  split
  · exact ⟨fun _ => ⟨by simp, by simp⟩, fun _ => .inr rfl, fun _ => rfl, rfl⟩
  · exact .refl o

/-- After the paid `UPDATE` a live order is settled, whoever paid it. -/
theorem settled_markPaid {o : UsdtOrder} (h : o.status ≠ .cancelled ∧ o.status ≠ .failed)
    (txHash : String) (now : ℤ) : ((o.markPaid txHash now).getD o).Settled := by
  unfold UsdtOrder.markPaid
  split
  · exact .inl rfl
  next hst =>
    show o.Settled
    unfold UsdtOrder.Settled
    cases hs : o.status <;> simp_all

theorem markPaid_confirmed {o : UsdtOrder} {txHash : String} {now : ℤ}
    (h : ((o.markPaid txHash now).getD o).status = .confirmed) : o.status = .confirmed := by
  unfold UsdtOrder.markPaid at h
  split at h
  · cases h
  · exact h

theorem markExpired_confirmed {o : UsdtOrder} (h : (o.markExpired.getD o).status = .confirmed) :
    o.status = .confirmed := by
  unfold UsdtOrder.markExpired at h
  split at h
  · cases h
  · exact h

/-- A refresh goes straight to the confirmation only with a paid row. -/
theorem paid_of_confirm {pay : UsdtPayConfig} {now : ℤ} {tx : Option IncomingTransfer}
    {row : UsdtOrder} (h : row.refreshAction pay now tx = .confirm) : row.status = .paid := by
  unfold UsdtOrder.refreshAction at h
  split at h
  · cases h
  · split at h
    · assumption
    · split at h
      · cases h
      · split at h <;> cases h
    · split at h <;> cases h
    · cases h

namespace Refreshes

def isActivating : RefreshPhase → Bool
  | .activating => true
  | _ => false

/-- Each committed confirmation has its purchase committed or about to run. -/
structure Inv (billing : BillingConfig) (s₀ s : Refreshes) : Prop where
  orderId : s.orderId = s₀.orderId
  plan : s.order.plan = s₀.order.plan
  live : s.order.status ≠ .cancelled ∧ s.order.status ≠ .failed
  fits : ∀ p ∈ s.phases, p.Fits s.order
  balance : s.activations.length + s.phases.countP isActivating =
    if s.order.status = .confirmed then 1 else 0
  account : s.account =
    s.activations.foldl (Account.afterPurchase billing s₀.order.plan s₀.orderRef) s₀.account

section
variable {pay : UsdtPayConfig} {billing : BillingConfig} {s₀ s : Refreshes} {i : ℕ}
  {p p' : RefreshPhase}

theorem fits_goTo (h : Inv billing s₀ s) {o' : UsdtOrder} (ho : s.order.Progress o')
    (hp' : p'.Fits o') : ∀ q ∈ s.phases.set i p', q.Fits o' := by
  intro q hq
  rcases List.mem_or_eq_of_mem_set hq with hq | rfl
  · exact (h.fits q hq).progress ho
  · exact hp'

/-- A refresh moves between points before its confirmation, or ends there; the
order makes progress but is not confirmed. -/
theorem Inv.move (h : Inv billing s₀ s) {o' : UsdtOrder} (ho : s.order.Progress o')
    (hconf : o'.status = .confirmed → s.order.status = .confirmed) (hi : s.phases[i]? = some p)
    (hp : isActivating p = false) (hp' : isActivating p' = false) (hfits : p'.Fits o') :
    Inv billing s₀ (({ s with order := o' } : Refreshes).goTo i p') := by
  obtain ⟨hlt, hget⟩ := List.getElem?_eq_some_iff.mp hi
  refine ⟨h.orderId, ho.plan.trans h.plan, ho.live h.live, fits_goTo h ho hfits, ?_, h.account⟩
  show s.activations.length + (s.phases.set i p').countP isActivating =
    if o'.status = .confirmed then 1 else 0
  have hiff : o'.status = .confirmed ↔ s.order.status = .confirmed := ⟨hconf, ho.confirmed⟩
  have hbal := h.balance
  simp only [List.countP_set hlt, hget, hp, hp', hiff, Bool.false_eq_true, if_false]
  omega

theorem Inv.start (h : Inv billing s₀ s) :
    Inv billing s₀ { s with phases := s.phases ++ [.loading] } := by
  refine ⟨h.orderId, h.plan, h.live, ?_, ?_, h.account⟩
  · intro q hq
    rcases List.mem_append.mp hq with hq | hq
    · exact h.fits q hq
    · rw [List.mem_singleton.mp hq]
      trivial
  · rw [List.countP_append]
    exact h.balance

/-- The only confirmation: the refresh goes on to the purchase. -/
theorem Inv.confirm (h : Inv billing s₀ s) (now : ℤ) (hi : s.phases[i]? = some .updating)
    (hnot : s.order.status ≠ .confirmed) :
    Inv billing s₀ ((s.updated (UsdtOrder.markConfirmed now)).goTo i .activating) := by
  obtain ⟨hlt, hget⟩ := List.getElem?_eq_some_iff.mp hi
  have hpaid : s.order.status = .paid :=
    (h.fits _ (List.mem_of_getElem? hi)).resolve_right hnot
  have hprog := progress_markConfirmed s.order now
  have hconf : ((s.order.markConfirmed now).getD s.order).status = .confirmed := by
    simp [UsdtOrder.markConfirmed, hpaid]
  refine ⟨h.orderId, hprog.plan.trans h.plan, hprog.live h.live, fits_goTo h hprog hconf, ?_,
    h.account⟩
  show s.activations.length + (s.phases.set i .activating).countP isActivating =
    if ((s.order.markConfirmed now).getD s.order).status = .confirmed then 1 else 0
  have hbal := h.balance
  rw [if_neg hnot] at hbal
  simp only [List.countP_set hlt, hget, isActivating, if_pos hconf, Bool.false_eq_true, if_false,
    if_true]
  omega

/-- The purchase is committed. -/
theorem Inv.activate (h : Inv billing s₀ s) (now : ℤ) (hi : s.phases[i]? = some .activating) :
    Inv billing s₀ { s.goTo i .ended with
      account := s.account.afterPurchase billing s.order.plan s.orderRef now
      activations := s.activations ++ [now] } := by
  obtain ⟨hlt, hget⟩ := List.getElem?_eq_some_iff.mp hi
  have hcount : 0 < s.phases.countP isActivating :=
    List.countP_pos_iff.mpr ⟨_, List.mem_of_getElem? hi, rfl⟩
  refine ⟨h.orderId, h.plan, h.live, fits_goTo h (.refl _) trivial, ?_, ?_⟩
  · show (s.activations ++ [now]).length + (s.phases.set i .ended).countP isActivating =
      if s.order.status = .confirmed then 1 else 0
    have hbal := h.balance
    simp only [List.countP_set hlt, hget, isActivating, List.length_append, List.length_singleton,
      Bool.false_eq_true, if_false, if_true]
    omega
  · have href : s.orderRef = s₀.orderRef := by simp only [orderRef, h.orderId]
    show s.account.afterPurchase billing s.order.plan s.orderRef now = _
    rw [List.foldl_append, h.account, h.plan, href]
    rfl

/-- **Step lemma.** -/
theorem Inv.step {s' : Refreshes} {l : RefreshLabel} (h : Inv billing s₀ s)
    (hok : s.ConfirmedAlone l) (hs : s.step pay billing l = some s') : Inv billing s₀ s' := by
  cases l with
  | start =>
    obtain rfl := Option.some.inj hs
    exact h.start
  | load i =>
    simp only [Refreshes.step] at hs
    split at hs
    next hi =>
      obtain rfl := Option.some.inj hs
      exact h.move (.refl _) id hi rfl rfl fun hpaid => .inl hpaid
    · cases hs
  | write i now tx =>
    simp only [Refreshes.step] at hs
    split at hs
    next row hi =>
      split at hs
      · obtain rfl := Option.some.inj hs
        exact h.move (.refl _) id hi rfl rfl trivial
      next haction =>
        obtain rfl := Option.some.inj hs
        exact h.move (.refl _) id hi rfl rfl
          (h.fits _ (List.mem_of_getElem? hi) (paid_of_confirm haction))
      next txHash confirmNow haction =>
        obtain rfl := Option.some.inj hs
        have hsettled := settled_markPaid h.live txHash now
        refine h.move (progress_markPaid _ txHash now) markPaid_confirmed hi rfl ?_ ?_
        · cases confirmNow <;> rfl
        · cases confirmNow
          · trivial
          · exact hsettled
      · obtain rfl := Option.some.inj hs
        exact h.move (progress_markExpired _) markExpired_confirmed hi rfl rfl trivial
    · cases hs
  | select i =>
    simp only [Refreshes.step] at hs
    split at hs
    next hi =>
      obtain rfl := Option.some.inj hs
      have hsettled : s.order.Settled := h.fits _ (List.mem_of_getElem? hi)
      split
      · exact h.move (.refl _) id hi rfl rfl trivial
      · exact h.move (.refl _) id hi rfl rfl hsettled
    · cases hs
  | confirm i now =>
    simp only [Refreshes.step] at hs
    split at hs
    next hi =>
      obtain rfl := Option.some.inj hs
      exact h.confirm now hi hok
    · cases hs
  | activate i now =>
    simp only [Refreshes.step] at hs
    split at hs
    next hi =>
      obtain rfl := Option.some.inj hs
      exact h.activate now hi
    · cases hs
  | stop i =>
    simp only [Refreshes.step] at hs
    split at hs
    · cases hs
    · cases hs
    next p _ hi =>
      obtain rfl := Option.some.inj hs
      have hp : isActivating p = false := by
        cases p with
        | activating => exact absurd hi hok
        | _ => rfl
      exact h.move (.refl _) id hi hp rfl trivial

/-- A confirmed order stays confirmed. -/
theorem confirmed_step {s' : Refreshes} {l : RefreshLabel} (hs : s.step pay billing l = some s')
    (h : s.order.status = .confirmed) : s'.order.status = .confirmed := by
  cases l with
  | start =>
    obtain rfl := Option.some.inj hs
    exact h
  | write i now tx =>
    simp only [Refreshes.step] at hs
    split at hs
    next row hi =>
      split at hs <;> obtain rfl := Option.some.inj hs
      · exact h
      · exact h
      · exact (progress_markPaid ..).confirmed h
      · exact (progress_markExpired _).confirmed h
    · cases hs
  | confirm i now =>
    simp only [Refreshes.step] at hs
    split at hs
    · obtain rfl := Option.some.inj hs
      exact (progress_markConfirmed ..).confirmed h
    · cases hs
  | load i | select i | activate i now =>
    simp only [Refreshes.step] at hs
    split at hs
    · obtain rfl := Option.some.inj hs
      exact h
    · cases hs
  | stop i =>
    simp only [Refreshes.step] at hs
    split at hs
    · cases hs
    · cases hs
    · obtain rfl := Option.some.inj hs
      exact h

end

/-! ## Runs -/

/-- A new order, before any refresh. -/
def initial (orderId : ℕ) (order : UsdtOrder) (account : Account) : Refreshes where
  orderId := orderId
  order := order
  account := account

theorem inv_initial (billing : BillingConfig) (orderId : ℕ) {order : UsdtOrder}
    (h : order.status = .pending) (account : Account) :
    Inv billing (initial orderId order account) (initial orderId order account) where
  orderId := rfl
  plan := rfl
  live := by simp [initial, h]
  fits := by simp [initial]
  balance := by simp [initial, h]
  account := rfl

/-- With the balance of confirmations and purchases, the order was activated
exactly once wherever the claim asks for it. -/
theorem Inv.activatesOnce {pay : UsdtPayConfig} {billing : BillingConfig} {s₀ s : Refreshes}
    {labels : List RefreshLabel} (h : Inv billing s₀ s)
    (hr : run (Refreshes.step pay billing) s₀ labels = some s) :
    ActivatesOnce pay billing s₀ labels s := by
  have hbal := h.balance
  refine ⟨?_, h.account, ?_, ?_⟩
  · split at hbal <;> omega
  · intro hne
    by_contra hnot
    rw [if_neg hnot] at hbal
    have := List.length_pos_iff.mpr hne
    omega
  · intro as bs s₁ hsplit hr₁ hconf _ _ hquiet
    subst hsplit
    have hconf' : s.order.status = .confirmed :=
      run_invariant (fun _ _ _ hc hs => confirmed_step hs hc) hconf (run_append_of_eq_some hr₁ hr)
    have hnone : s.phases.countP isActivating = 0 := by
      rw [List.countP_eq_zero]
      intro p hp
      rw [hquiet p hp]
      decide
    rw [if_pos hconf', hnone] at hbal
    intro hnil
    rw [hnil] at hbal
    cases hbal

/-- **A paid order activates its membership exactly once**, in every state of
every run of interleaved refreshes where a confirming `UPDATE` finds the order
not confirmed yet and no refresh stops between its confirmation and its purchase. -/
theorem activatesOnce_of_confirmedAlone {pay : UsdtPayConfig} {billing : BillingConfig}
    {orderId : ℕ} {order : UsdtOrder} {account : Account} {labels : List RefreshLabel}
    {s : Refreshes} (hnew : order.status = .pending)
    (hok : AllSteps (step pay billing) ConfirmedAlone (initial orderId order account) labels)
    (hr : run (step pay billing) (initial orderId order account) labels = some s) :
    ActivatesOnce pay billing (initial orderId order account) labels s := by
  have hinv : Inv billing (initial orderId order account) s :=
    run_invariant_of_allSteps (fun _ _ _ h hok hs => h.step hok hs)
      (inv_initial billing orderId hnew account) hok hr
  exact hinv.activatesOnce hr

/-! ### Two refreshes at once, a purchase that fails, a confirmation done twice -/

/-- A monthly order of 19.901235 on BSC. -/
def bscOrder : UsdtOrder where
  userId := 1
  plan := .monthly
  chain := .bep20
  amountUsdt := 19901235 / 1000000
  amountSuffix := 1235 / 1000000
  expiresAt := 1700001800000000
  createdAt := 1700000000000000

/-- Its transfer, found by an explorer a minute after its block. -/
def bscTransfer : IncomingTransfer where
  txHash := "b7"
  blockTimestampMs := 1700000060000
  valueSmallestUnit := 19901235000000000000

/-- The first refresh pays, confirms and activates; the second, which had read the
pending row, finds the order confirmed. -/
def confirmedAlone : List RefreshLabel :=
  [.start, .start, .load 0, .load 1, .write 0 1700000120000000 (some bscTransfer), .select 0,
    .confirm 0 1700000120000000, .write 1 1700000121000000 (some bscTransfer), .select 1,
    .activate 0 1700000122]

theorem activatesOnce_of_confirmedAlone_twoRefreshes :
    ∃ s, run (step {} {}) (initial 7 bscOrder { credits := 0 }) confirmedAlone = some s ∧
      ActivatesOnce {} {} (initial 7 bscOrder { credits := 0 }) confirmedAlone s := by
  obtain ⟨s, hs⟩ := Option.isSome_iff_exists.mp
    (show (run (step {} {}) (initial 7 bscOrder { credits := 0 })
      confirmedAlone).isSome by decide +kernel)
  exact ⟨s, hs, activatesOnce_of_confirmedAlone rfl (by decide +kernel) hs⟩

/-- The confirmation is committed and the purchase fails. -/
def confirmedUnbought : List RefreshLabel :=
  [.start, .load 0, .write 0 1700000120000000 (some bscTransfer), .select 0,
    .confirm 0 1700000120000000, .stop 0]

/-- A later refresh, without failure. -/
def refreshAgain : List RefreshLabel := [.start, .load 1, .write 1 1700000150000000 none]

/-- Both refreshes select the paid row before either confirms it. -/
def confirmedTwice : List RefreshLabel :=
  [.start, .start, .load 0, .load 1, .write 0 1700000120000000 (some bscTransfer),
    .write 1 1700000120000000 (some bscTransfer), .select 0, .select 1,
    .confirm 0 1700000120000000, .confirm 1 1700000120000000, .activate 0 1700000121,
    .activate 1 1700000122]

/-- A failed purchase is never made up for, and two confirmations buy twice. -/
theorem activation_lost_or_doubled :
    (∃ s, run (step {} {}) (initial 7 bscOrder { credits := 0 })
        (confirmedUnbought ++ refreshAgain) = some s ∧
      ¬ ActivatesOnce {} {} (initial 7 bscOrder { credits := 0 })
        (confirmedUnbought ++ refreshAgain) s) ∧
    ∃ s, run (step {} {}) (initial 7 bscOrder { credits := 0 }) confirmedTwice = some s ∧
      ¬ ActivatesOnce {} {} (initial 7 bscOrder { credits := 0 }) confirmedTwice s := by
  constructor
  · obtain ⟨s₁, hs₁, hconf⟩ : ∃ s₁, run (step {} {})
        (initial 7 bscOrder { credits := 0 }) confirmedUnbought = some s₁ ∧
        s₁.order.status = .confirmed := exists_of_any (by decide +kernel)
    obtain ⟨s, hs, hquiet, hnone⟩ : ∃ s, run (step {} {})
        (initial 7 bscOrder { credits := 0 }) (confirmedUnbought ++ refreshAgain) = some s ∧
        s.Quiet ∧ s.activations = [] := exists_of_any (by decide +kernel)
    refine ⟨s, hs, fun h => ?_⟩
    exact h.eventually _ _ s₁ rfl hs₁ hconf (by decide) (by decide) hquiet hnone
  · obtain ⟨s, hs, htwice⟩ : ∃ s, run (step {} {})
        (initial 7 bscOrder { credits := 0 }) confirmedTwice = some s ∧
        s.activations.length = 2 := exists_of_any (by decide +kernel)
    refine ⟨s, hs, fun h => ?_⟩
    have := h.atMostOnce
    omega

end Refreshes

end AlgoTrade
