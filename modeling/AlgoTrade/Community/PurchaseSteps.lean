import AlgoTrade.Community.Marketplace
import Mathlib.Tactic.Linarith

/-! # Statements of a marketplace call

* `Tx.Settled`: the condition on a statement: a purchase overwrites a balance that
  is still what it read.
* `sale_ok`: the gross price is the fee and the seller's amount, in cents.
* `Tx.Ok`: what a call's versions of the rows hold.
* `Tx.Ok.keeps_advance`, `Tx.Ok.keeps_onError`: what one statement, and an
  exception in its place, do to it. -/

namespace AlgoTrade.Marketplace

/-! ## Results -/

/-- What a call's result changes in a user's balance. -/
def Result.change (userId : ℕ) : Result → ℚ
  | .purchased p =>
    (if userId = p.buyerId then -p.grossPrice else 0) +
      (if userId = p.sellerId then p.sellerAmount else 0)
  | .consumed user cost => if userId = user then -cost else 0
  | .passed => 0
  | .failed _ => 0

/-- What leaves the balances: the platform's fee, or the consumed amount. -/
def Result.cost : Result → ℚ
  | .purchased p => p.platformFee
  | .consumed _ cost => cost
  | .passed => 0
  | .failed _ => 0

namespace Proc

def change (userId : ℕ) : Proc → ℚ
  | .running _ => 0
  | .ended result => result.change userId

def cost : Proc → ℚ
  | .running _ => 0
  | .ended result => result.cost

def purchase? : Proc → Option Purchase
  | .ended (.purchased p) => some p
  | _ => none

end Proc

/-! ## The condition -/

namespace Tx

/-- Lifetime credits are due to the call's user. -/
def grantDue (cfg : MarketConfig) (db : Db) (t : Tx) : Bool :=
  decide (0 < cfg.billing.lifetimeCreditsMonthly) &&
    match CreditTx.grantPhase cfg.billing t.call.now
        ((t.account db t.call.user).getD { credits := 0 }).vip with
    | .bonusDue _ => true
    | _ => false

/-- The script template the call has delivered and not yet committed to. -/
def delivered (t : Tx) : Option (ℕ × ℕ) :=
  match t.phase with
  | .selling sale .count | .selling sale .commit =>
    if sale.isScript then some sale.purchase.key else none
  | _ => none

/-- No lifetime grant falls due, a balance about to be overwritten is still what
was read, and a sale that moves no credits has no price. -/
def Settled (cfg : MarketConfig) (db : Db) (t : Tx) : Bool :=
  match t.phase with
  | .granting _ grant => grant.phase = .start → t.grantDue cfg db = false
  | .selling sale (.debit buyerCredits) =>
    (db.users.get? sale.purchase.buyerId).map Account.credits = some buyerCredits
  | .selling sale (.credit sellerCredits) =>
    (db.users.get? sale.purchase.sellerId).map Account.credits = some sellerCredits
  | .selling sale .record => sale.charged = true ∨ sale.purchase.grossPrice = 0
  | _ => true

end Tx

/-! ## Amounts -/

theorem exists_cents (x : ℚ) : ∃ k : ℤ, money x = k / 100 := by
  unfold money quantizeHalfUp
  split
  · refine ⟨⌊x * 10 ^ 2 + 1 / 2⌋, ?_⟩
    ring
  · refine ⟨-⌊-x * 10 ^ 2 + 1 / 2⌋, ?_⟩
    push_cast
    ring

theorem quantize_cents (k : ℤ) : quantizeHalfUp 2 (k / 100) = k / 100 := by
  have hfloor : ⌊(k : ℚ) / 100 * 10 ^ 2 + 1 / 2⌋ = k := by
    rw [Int.floor_eq_iff]
    constructor
    · linarith
    · linarith
  unfold quantizeHalfUp
  rw [hfloor]
  norm_num

theorem money_cents (k : ℤ) : money (k / 100) = k / 100 := by
  unfold money
  split
  · exact quantize_cents k
  · have hneg := quantize_cents (-k)
    push_cast at hneg
    rw [← neg_div, hneg]
    ring

theorem money_sub (x y : ℚ) : money (money x - money y) = money x - money y := by
  obtain ⟨k, hk⟩ := exists_cents x
  obtain ⟨m, hm⟩ := exists_cents y
  have hcents := money_cents (k - m)
  push_cast at hcents
  rw [hk, hm, ← sub_div, hcents]

theorem money_mono {x y : ℚ} (hx : 0 ≤ x) (h : x ≤ y) : money x ≤ money y := by
  unfold money quantizeHalfUp
  rw [if_pos hx, if_pos (hx.trans h)]
  have hfloor : ⌊x * 10 ^ 2 + 1 / 2⌋ ≤ ⌊y * 10 ^ 2 + 1 / 2⌋ := Int.floor_mono (by linarith)
  have hcast : (⌊x * 10 ^ 2 + 1 / 2⌋ : ℚ) ≤ ⌊y * 10 ^ 2 + 1 / 2⌋ := by exact_mod_cast hfloor
  linarith

theorem feeRate_nonneg (cfg : MarketConfig) : 0 ≤ marketplacePlatformFeeRate cfg := by
  unfold marketplacePlatformFeeRate
  split
  · exact le_rfl
  next h =>
    split
    · exact zero_le_one
    · exact not_lt.mp h

theorem feeRate_le_one (cfg : MarketConfig) : marketplacePlatformFeeRate cfg ≤ 1 := by
  unfold marketplacePlatformFeeRate
  split
  · exact zero_le_one
  · split
    · exact le_rfl
    next h => exact not_lt.mp h

/-- Amounts of a sale: gross is fee and seller's amount, and none is negative. -/
structure Sale.Ok (sale : Sale) : Prop where
  key : sale.purchase.indicatorId = sale.asset.id
  ne : sale.purchase.sellerId ≠ sale.purchase.buyerId
  split : sale.purchase.grossPrice = sale.purchase.platformFee + sale.purchase.sellerAmount
  seller : 0 ≤ sale.purchase.grossPrice → 0 ≤ sale.purchase.sellerAmount
  free : sale.purchase.grossPrice = 0 → sale.purchase.platformFee = 0

theorem sale_ok (cfg : MarketConfig) (asset : Asset) {buyerId : ℕ} (isVip : Bool)
    (hne : asset.userId ≠ buyerId) : (asset.sale cfg buyerId isVip).Ok := by
  unfold Asset.sale splitMarketplaceAmounts
  dsimp only
  generalize hprice : (if ¬ cfg.billing.billingEnabled ∨ (asset.vipFree ∧ isVip) then 0
    else asset.price) = price
  clear hprice
  have hsub := money_sub price (money price * marketplacePlatformFeeRate cfg)
  refine ⟨rfl, hne, ?_, fun hgross => ?_, fun hzero => ?_⟩
  · dsimp only
    rw [hsub, add_sub_cancel]
  · dsimp only at hgross ⊢
    obtain ⟨k, hk⟩ := exists_cents price
    have hsame : money (money price) = money price := by rw [hk, money_cents]
    have hfee : money (money price * marketplacePlatformFeeRate cfg) ≤ money (money price) :=
      money_mono (mul_nonneg hgross (feeRate_nonneg cfg))
        (mul_le_of_le_one_right hgross (feeRate_le_one cfg))
    rw [hsub]
    linarith
  · dsimp only at hzero ⊢
    rw [hzero, zero_mul]
    simpa using money_cents 0

/-! ## One call -/

def MarketCall.cost : MarketCall → ℚ
  | .purchase _ _ _ => 0
  | .consume _ cost _ => cost

/-- Phases of a lifetime grant that gives no credits. -/
def Grants : CreditPhase → Prop
  | .start | .refused | .stamping | .logged => True
  | _ => False

/-- Phases of a consumption, which writes a positive cost only. -/
def Consumes (cost : ℚ) : CreditPhase → Prop
  | .start | .refused => True
  | .written _ _ | .logged => 0 < cost
  | _ => False

/-- Only a charged sale moves credits; it goes on to be recorded when it is one, or
is free. -/
def SaleStage.Ok (sale : Sale) : SaleStage → Prop
  | .debit balance => sale.charged = true ∧ sale.purchase.grossPrice ≤ balance
  | .buyerCredits | .logDebit _ | .sellerCredits | .credit _ | .logCredit _ => sale.charged = true
  | .record => True
  | .deliver | .count | .commit => sale.charged = true ∨ sale.purchase.grossPrice = 0

def Phase.Ok (call : MarketCall) : Phase → Prop
  | .granting _ grant => grant.call = .grant call.now ∧ Grants grant.phase
  | .selling sale stage => sale.Ok ∧ stage.Ok sale
  | .consuming tx => ∃ user cost ref, call = .consume user cost ref ∧
    tx.call = .consume cost ref ∧ Consumes cost tx.phase
  | _ => True

namespace Tx

/-- What the call has changed so far in its version of a user's balance. -/
def change (t : Tx) (userId : ℕ) : ℚ :=
  match t.phase with
  | .selling _ .buyerCredits | .selling _ (.debit _) => 0
  | .selling sale (.logDebit _) | .selling sale .sellerCredits | .selling sale (.credit _) =>
    if userId = sale.purchase.buyerId then -sale.purchase.grossPrice else 0
  | .selling sale _ =>
    if sale.charged then (Result.purchased sale.purchase).change userId else 0
  | .consuming { call := _, phase := .written _ _ } | .consuming { call := _, phase := .logged } =>
    if userId = t.call.user then -t.call.cost else 0
  | _ => 0

/-- The call's versions of the rows it has locked are the committed ones with its
change; what it has inserted is not committed. -/
structure Ok (db : Db) (t : Tx) : Prop where
  shape : t.phase.Ok t.call
  keys : t.rows.keys.Nodup
  rows : ∀ user a, t.rows.get? user = some a → 0 ≤ a.credits ∧
    ∃ a₀, db.users.get? user = some a₀ ∧ a.credits = a₀.credits + t.change user
  rest : ∀ user, t.rows.get? user = none → t.change user = 0
  unrecorded : ∀ p, t.pending = some p → p.key ∉ db.purchases.map Purchase.key
  known : ∀ p, t.pending = some p →
    db.users.get? p.buyerId ≠ none ∧ db.users.get? p.sellerId ≠ none

/-- The call holds no lock and has inserted nothing. -/
structure Idle (t : Tx) : Prop where
  shape : t.phase.Ok t.call
  rows : t.rows = {}
  change : ∀ user, t.change user = 0
  pending : t.pending = none

theorem Idle.ok {t : Tx} (h : t.Idle) (db : Db) : t.Ok db where
  shape := h.shape
  keys := by
    rw [h.rows]
    exact List.nodup_nil
  rows := fun user a ha => by
    rw [h.rows] at ha
    cases ha
  rest := fun user _ => h.change user
  unrecorded := fun p hp => by
    rw [h.pending] at hp
    cases hp
  known := fun p hp => by
    rw [h.pending] at hp
    cases hp

section
variable {db : Db} {t t' : Tx}

/-- The call goes on and its rows stay as they are. -/
theorem Ok.goTo (h : t.Ok db) {phase : Phase} (hshape : phase.Ok t.call)
    (hchange : ∀ user, (t.goTo phase).change user = t.change user)
    (hpending : (t.goTo phase).pending = t.pending) : (t.goTo phase).Ok db := by
  refine ⟨hshape, h.keys, fun user a ha => ?_, fun user hu => ?_, ?_, ?_⟩
  · rw [hchange]
    exact h.rows user a ha
  · rw [hchange]
    exact h.rest user hu
  · rw [hpending]
    exact h.unrecorded
  · rw [hpending]
    exact h.known

/-- The call writes one row. -/
theorem Ok.setRow (h : t.Ok db) {phase : Phase} {user : ℕ} {a a₀ : Account}
    (ht' : t' = { t with phase := phase, rows := t.rows.set user a }) (hshape : phase.Ok t.call)
    (ha₀ : db.users.get? user = some a₀) (hcredits : a.credits = a₀.credits + t'.change user)
    (hnonneg : 0 ≤ a.credits) (hchange : ∀ other, other ≠ user → t'.change other = t.change other)
    (hpending : t'.pending = none) : t'.Ok db := by
  subst ht'
  refine ⟨hshape, Dict.nodup_keys_set h.keys user a, fun other b hb => ?_, fun other hother => ?_,
    fun p hp => ?_, fun p hp => ?_⟩
  · dsimp only at hb
    rw [Dict.get?_set] at hb
    split at hb
    next heq =>
      subst heq
      obtain rfl := Option.some.inj hb
      exact ⟨hnonneg, a₀, ha₀, hcredits⟩
    next hne =>
      rw [hchange other (Ne.symm hne)]
      exact h.rows other b hb
  · dsimp only at hother
    rw [Dict.get?_set] at hother
    split at hother
    next => cases hother
    next hne =>
      rw [hchange other (Ne.symm hne)]
      exact h.rest other hother
  · rw [hpending] at hp
    cases hp
  · rw [hpending] at hp
    cases hp

/-- The version of a row the call sees: the committed one with its change. -/
theorem Ok.account (h : t.Ok db) (hnonneg : ∀ user a, db.users.get? user = some a → 0 ≤ a.credits)
    {user : ℕ} {a : Account} (ha : t.account db user = some a) : 0 ≤ a.credits ∧
      ∃ a₀, db.users.get? user = some a₀ ∧ a.credits = a₀.credits + t.change user := by
  unfold Tx.account at ha
  cases hrow : t.rows.get? user with
  | some b =>
    rw [hrow] at ha
    obtain rfl : b = a := Option.some.inj ha
    exact h.rows user b hrow
  | none =>
    rw [hrow, Option.none_or] at ha
    refine ⟨hnonneg user a ha, a, ha, ?_⟩
    rw [h.rest user hrow, add_zero]

end

end Tx

/-- The users of a result are known, and what it changes adds up to its cost. -/
def Result.Ok (users : List ℕ) : Result → Prop
  | .purchased p => p.buyerId ∈ users ∧ p.sellerId ∈ users ∧
    p.grossPrice = p.platformFee + p.sellerAmount
  | .consumed user _ => user ∈ users
  | .passed => True
  | .failed _ => True

/-- No key of `t'` is new but `key`. -/
def Tx.LocksOnly (t t' : Tx) (key : ℕ) : Prop :=
  ∀ user, (t'.rows.get? user).isSome = true → user = key ∨ (t.rows.get? user).isSome = true

/-- What a statement of `t` keeps, by what it asks for. -/
def Advance.Keeps (db : Db) (t : Tx) : Advance → Prop
  | .goes t' | .counts _ t' => t'.Ok db ∧
    (∀ user, (t'.rows.get? user).isSome = true → (t.rows.get? user).isSome = true) ∧
    t'.pending = t.pending ∧ ∀ key, t.delivered = some key → t'.delivered = some key
  | .locks user t' => t'.Ok db ∧ t.LocksOnly t' user ∧ t'.pending = none ∧ t.delivered = none
  | .records p t' => t'.rows = t.rows ∧ t'.pending = some p ∧ t.delivered = none ∧
    (p.key ∉ db.purchases.map Purchase.key → db.users.get? p.buyerId ≠ none →
      db.users.get? p.sellerId ≠ none → t'.Ok db)
  | .delivers source t' => t'.Ok db ∧ t'.rows = t.rows ∧ t'.pending = t.pending ∧
    (∃ p, t.pending = some p ∧ p.key = source.key) ∧ t.delivered = none ∧
    t'.delivered = some source.key
  | .commits (.inl t') => t'.Idle ∧ (∀ user, t.change user = 0) ∧ t.pending = none
  | .commits (.inr result) => result.Ok db.users.keys ∧
    (∀ user, result.change user = t.change user) ∧ (Proc.ended result).purchase? = t.pending ∧
    (t.pending = none ∨ ∃ sale, t.phase = .selling sale .commit)
  | .ends result => (∀ user, result.change user = 0) ∧ (Proc.ended result).purchase? = none ∧
    result.Ok db.users.keys ∧ t.delivered = none

theorem keeps_failed {db : Db} {t : Tx} (h : t.delivered = none) (message : String) :
    (Advance.ends (.failed message)).Keeps db t :=
  ⟨fun _ => rfl, rfl, trivial, h⟩

namespace Tx

section
variable {cfg : MarketConfig} {db : Db} {t : Tx}

/-- The call goes on, and neither inserts nor writes. -/
theorem Ok.keeps_goTo (h : t.Ok db) {phase : Phase} (hshape : phase.Ok t.call)
    (hchange : ∀ user, (t.goTo phase).change user = t.change user)
    (hpending : (t.goTo phase).pending = t.pending) (hdelivered : t.delivered = none) :
    (Advance.goes (t.goTo phase)).Keeps db t := by
  refine ⟨h.goTo hshape hchange hpending, fun user hu => hu, hpending, fun key hkey => ?_⟩
  rw [hdelivered] at hkey
  cases hkey

theorem locksOnly_set {t t' : Tx} {user : ℕ} {a : Account} (h : t'.rows = t.rows.set user a) :
    t.LocksOnly t' user := by
  intro other hother
  rw [h, Dict.get?_set] at hother
  split at hother
  next heq => exact .inl heq.symm
  next => exact .inr hother

/-- A credit call's `UPDATE`, in a call that has inserted nothing. -/
theorem Ok.keeps_update (h : t.Ok db)
    (hnonneg : ∀ user a, db.users.get? user = some a → 0 ≤ a.credits) {tx : CreditTx}
    {phase : CreditTx → Phase} {onCommit : Advance} {onRollback : Bool → Advance}
    {next : Account → Option Account × CreditTx} (hstmt : tx.stmt cfg.billing = .update next)
    (hpending : ∀ tx', (t.goTo (phase tx')).pending = none) (hold : t.pending = none)
    (hdelivered : t.delivered = none)
    (hmissing : (phase (next { credits := 0 }).2).Ok t.call ∧
      ∀ user, (t.goTo (phase (next { credits := 0 }).2)).change user = t.change user)
    (hunmatched : ∀ row tx', next row = (none, tx') →
      (phase tx').Ok t.call ∧ ∀ user, (t.goTo (phase tx')).change user = t.change user)
    (hwrite : ∀ row row' tx', 0 ≤ row.credits → next row = (some row', tx') →
      (phase tx').Ok t.call ∧ 0 ≤ row'.credits ∧ row'.credits =
        row.credits - t.change t.call.user + (t.goTo (phase tx')).change t.call.user ∧
        ∀ user, user ≠ t.call.user → (t.goTo (phase tx')).change user = t.change user) :
    (t.creditStatement cfg db tx phase onCommit onRollback).Keeps db t := by
  unfold creditStatement
  rw [hstmt]
  dsimp only
  cases haccount : t.account db t.call.user with
  | none =>
    obtain ⟨hshape, hchange⟩ := hmissing
    exact h.keeps_goTo hshape hchange ((hpending _).trans hold.symm) hdelivered
  | some row =>
    dsimp only
    obtain ⟨hrow, a₀, ha₀, hcredits⟩ := h.account hnonneg haccount
    rcases hnext : next row with ⟨_ | row', tx'⟩
    · obtain ⟨hshape, hchange⟩ := hunmatched row tx' hnext
      exact h.keeps_goTo hshape hchange ((hpending _).trans hold.symm) hdelivered
    · obtain ⟨hshape, hpos, hwritten, hchange⟩ := hwrite row row' tx' hrow hnext
      refine ⟨h.setRow rfl hshape ha₀ ?_ hpos hchange (hpending tx'), locksOnly_set rfl,
        hpending tx', hdelivered⟩
      rw [hwritten, hcredits, add_sub_cancel_right]
      rfl

/-- After the lifetime grant, in the call's own connection. -/
theorem idle_vipStatus (call : MarketCall) (asset : Asset) :
    ({ call := call, phase := .vipStatus asset } : Tx).Idle :=
  ⟨trivial, rfl, fun _ => rfl, rfl⟩

theorem keeps_vipStatus {call : MarketCall} {asset : Asset} {grant : CreditTx}
    {rows : Dict ℕ Account} :
    (Advance.goes { call := call, phase := .vipStatus asset }).Keeps db
      { call := call, phase := .granting asset grant, rows := rows } := by
  refine ⟨(idle_vipStatus call asset).ok db, fun user hu => ?_, rfl, fun key hkey => ?_⟩
  · cases hu
  · cases hkey

theorem grants_grantPhase {billing : BillingConfig} {now : ℤ} {vip : VipFields}
    (h : ∀ amount, CreditTx.grantPhase billing now vip ≠ .bonusDue amount) :
    Grants (CreditTx.grantPhase billing now vip) := by
  unfold CreditTx.grantPhase at h ⊢
  split
  next => trivial
  next hlifetime =>
    split
    next => trivial
    next last hlast =>
      split
      next => trivial
      next hperiods =>
        refine absurd ?_ (h (billing.lifetimeCreditsMonthly * grantPeriods now last : ℤ))
        rw [if_neg hlifetime, hlast]
        exact if_neg hperiods

/-- Inside `get_user_vip_status`, with no credits due. -/
theorem Ok.keeps_granting {call : MarketCall} {asset : Asset} {grant : CreditTx}
    {rows : Dict ℕ Account} (h : Ok db ⟨call, .granting asset grant, rows⟩)
    (hnonneg : ∀ user a, db.users.get? user = some a → 0 ≤ a.credits)
    (hset : Settled cfg db ⟨call, .granting asset grant, rows⟩ = true) :
    (advance cfg db ⟨call, .granting asset grant, rows⟩).Keeps db
      ⟨call, .granting asset grant, rows⟩ := by
  obtain ⟨hcall, hgrants⟩ := h.shape
  obtain ⟨gcall, gphase⟩ := grant
  obtain rfl : gcall = .grant call.now := hcall
  cases gphase with
  | start =>
    have hdue := of_decide_eq_true hset rfl
    by_cases hmonthly : cfg.billing.lifetimeCreditsMonthly ≤ 0
    · have hstmt : CreditTx.stmt cfg.billing { call := .grant call.now } = .rollback false :=
        if_pos hmonthly
      simp only [advance, creditStatement, hstmt]
      exact keeps_vipStatus
    · have hstmt : CreditTx.stmt cfg.billing { call := .grant call.now } = .read fun a =>
          ⟨.grant call.now, CreditTx.grantPhase cfg.billing call.now a.vip⟩ := if_neg hmonthly
      simp only [advance, creditStatement, hstmt]
      refine h.keeps_goTo ⟨rfl, ?_⟩ (fun _ => rfl) rfl rfl
      rw [grantDue, decide_eq_true (not_le.mp hmonthly), Bool.true_and] at hdue
      refine grants_grantPhase fun amount hbonus => ?_
      rw [hbonus] at hdue
      cases hdue
  | refused => exact keeps_vipStatus
  | stamping =>
    have hstmt : CreditTx.stmt cfg.billing ⟨.grant call.now, .stamping⟩ = .update fun a =>
      (some { a with vip := { a.vip with monthlyCreditsLastGrant := some call.now } },
        ⟨.grant call.now, .logged⟩) := rfl
    simp only [advance]
    refine h.keeps_update hnonneg hstmt (fun _ => rfl) rfl rfl ⟨⟨rfl, trivial⟩, fun _ => rfl⟩
      (fun row tx' hnext => by cases hnext) (fun row row' tx' hrow hnext => ?_)
    cases hnext
    refine ⟨⟨rfl, trivial⟩, hrow, ?_, fun _ _ => rfl⟩
    show row.credits = row.credits - 0 + 0
    rw [sub_zero, add_zero]
  | logged => exact ⟨idle_vipStatus call asset, fun _ => rfl, rfl⟩
  | _ => exact absurd hgrants id

/-- `check_and_consume`. -/
theorem Ok.keeps_consuming {call : MarketCall} {tx : CreditTx} {rows : Dict ℕ Account}
    (h : Ok db ⟨call, .consuming tx, rows⟩)
    (hnonneg : ∀ user a, db.users.get? user = some a → 0 ≤ a.credits) :
    (advance cfg db ⟨call, .consuming tx, rows⟩).Keeps db ⟨call, .consuming tx, rows⟩ := by
  obtain ⟨user, cost, ref, rfl, htx, hconsumes⟩ := h.shape
  obtain ⟨tcall, phase⟩ := tx
  obtain rfl : tcall = .consume cost ref := htx
  cases phase with
  | start =>
    by_cases hfree : ¬ cfg.billing.billingEnabled ∨ cost ≤ 0
    · have hstmt : CreditTx.stmt cfg.billing { call := .consume cost ref } = .rollback true :=
        if_pos hfree
      simp only [advance, creditStatement, hstmt]
      exact ⟨fun _ => rfl, rfl, trivial, rfl⟩
    · have hstmt : CreditTx.stmt cfg.billing { call := .consume cost ref } = .update fun a =>
          if cost ≤ a.credits then
            (some { a with credits := a.credits - cost },
              ⟨.consume cost ref, .written (-cost) (a.credits - cost)⟩)
          else (none, ⟨.consume cost ref, .refused⟩) := if_neg hfree
      have hrefused : (Phase.consuming ⟨.consume cost ref, .refused⟩).Ok (.consume user cost ref) ∧
          ∀ other, (Tx.mk (.consume user cost ref) (.consuming ⟨.consume cost ref, .refused⟩)
            rows).change other = 0 := ⟨⟨user, cost, ref, rfl, rfl, trivial⟩, fun _ => rfl⟩
      simp only [advance]
      refine h.keeps_update hnonneg hstmt (fun _ => rfl) rfl rfl ?_ (fun row tx' hnext => ?_)
        (fun row row' tx' hrow hnext => ?_)
      · have hle : ¬ cost ≤ (0 : ℚ) := fun hle => hfree (.inr hle)
        rw [if_neg hle]
        exact hrefused
      · split at hnext
        next => cases hnext
        next =>
          obtain rfl := (Prod.mk.inj hnext).2
          exact hrefused
      · split at hnext
        next hle =>
          obtain ⟨hrow', rfl⟩ := Prod.mk.inj hnext
          obtain rfl := Option.some.inj hrow'
          have hpos : 0 < cost := not_le.mp fun hle => hfree (.inr hle)
          refine ⟨⟨user, cost, ref, rfl, rfl, hpos⟩, sub_nonneg.mpr hle, ?_, fun other hne => ?_⟩
          · show row.credits - cost = row.credits - 0 + if user = user then -cost else 0
            rw [if_pos rfl]
            ring
          · exact if_neg hne
        next => cases hnext
  | refused => exact ⟨fun _ => rfl, rfl, trivial, rfl⟩
  | written amount balance =>
    have hstmt : CreditTx.stmt cfg.billing ⟨.consume cost ref, .written amount balance⟩ =
      .update fun a => (some { a with log := a.log ++ [⟨"consume", amount, balance, ref⟩] },
        ⟨.consume cost ref, .logged⟩) := rfl
    simp only [advance]
    refine h.keeps_update hnonneg hstmt (fun _ => rfl) rfl rfl
      ⟨⟨user, cost, ref, rfl, rfl, hconsumes⟩, fun _ => rfl⟩ (fun row tx' hnext => by cases hnext)
      (fun row row' tx' hrow hnext => ?_)
    cases hnext
    refine ⟨⟨user, cost, ref, rfl, rfl, hconsumes⟩, hrow, ?_, fun _ _ => rfl⟩
    rw [sub_add_eq_add_sub, eq_sub_iff_add_eq]
    rfl
  | logged =>
    refine ⟨?_, fun _ => rfl, rfl, .inl rfl⟩
    have hcost : (if user = user then -cost else 0) ≠ 0 := by
      rw [if_pos rfl]
      exact (neg_neg_of_pos hconsumes).ne
    cases hrow : rows.get? user with
    | none => exact absurd (h.rest user hrow) hcost
    | some a =>
      obtain ⟨-, a₀, ha₀, -⟩ := h.rows user a hrow
      exact Dict.mem_keys_of_get? ha₀
  | _ => exact absurd hconsumes id

/-- An absolute balance is written over the one that was read. -/
theorem Ok.keeps_writeCredits (h : t.Ok db) {user : ℕ} {read balance : ℚ}
    {phase : Phase} (hread : (db.users.get? user).map Account.credits = some read)
    (hbalance : 0 ≤ balance) (hshape : phase.Ok t.call)
    (hchange : (t.goTo phase).change user = balance - read)
    (hother : ∀ other, other ≠ user → (t.goTo phase).change other = t.change other)
    (hpending : (t.goTo phase).pending = none) (hdelivered : t.delivered = none) :
    (t.writeCredits db user balance phase).Keeps db t := by
  obtain ⟨a₀, ha₀, rfl⟩ := Option.map_eq_some_iff.mp hread
  unfold writeCredits
  cases haccount : t.account db user with
  | none =>
    rw [Tx.account, Option.or_eq_none_iff] at haccount
    rw [haccount.2] at ha₀
    cases ha₀
  | some row =>
    refine ⟨h.setRow rfl hshape ha₀ ?_ hbalance hother hpending, locksOnly_set rfl, hpending,
      hdelivered⟩
    show balance = a₀.credits + (t.goTo phase).change user
    rw [hchange]
    ring

/-- A log row is written beside a row the call has locked. -/
theorem Ok.keeps_writeLog (h : t.Ok db) {user : ℕ} {entry : CreditsLogRow} {phase : Phase}
    (hshape : phase.Ok t.call) (hchange : ∀ other, (t.goTo phase).change other = t.change other)
    (hpending : (t.goTo phase).pending = none) (hold : t.pending = none)
    (hdelivered : t.delivered = none) : (t.writeLog user entry phase).Keeps db t := by
  unfold writeLog
  cases hrow : t.rows.get? user with
  | none => exact keeps_failed hdelivered "error"
  | some row =>
    obtain ⟨hpos, a₀, ha₀, hcredits⟩ := h.rows user row hrow
    refine ⟨h.setRow rfl hshape ha₀ ?_ hpos (fun other _ => hchange other) hpending,
      fun other hother => ?_, hpending.trans hold.symm, fun key hkey => ?_⟩
    · show row.credits = a₀.credits + (t.goTo phase).change user
      rw [hchange, hcredits]
    · rcases locksOnly_set rfl other hother with rfl | hother
      · rw [hrow]
        rfl
      · exact hother
    · rw [hdelivered] at hkey
      cases hkey

theorem Ok.keeps_checkCredits {call : MarketCall} {sale : Sale} {rows : Dict ℕ Account}
    (h : Ok db ⟨call, .selling sale .buyerCredits, rows⟩) (read : ℚ) :
    (checkCredits ⟨call, .selling sale .buyerCredits, rows⟩ sale read).Keeps db
      ⟨call, .selling sale .buyerCredits, rows⟩ := by
  unfold checkCredits
  split
  next => exact keeps_failed rfl _
  next hle => exact h.keeps_goTo ⟨h.shape.1, h.shape.2, not_lt.mp hle⟩ (fun _ => rfl) rfl rfl

/-- A sale's statement. -/
theorem Ok.keeps_selling {call : MarketCall} {sale : Sale} {stage : SaleStage}
    {rows : Dict ℕ Account} (h : Ok db ⟨call, .selling sale stage, rows⟩)
    (hnonneg : ∀ user a, db.users.get? user = some a → 0 ≤ a.credits)
    (hset : Settled cfg db ⟨call, .selling sale stage, rows⟩ = true) :
    (saleStatement db ⟨call, .selling sale stage, rows⟩ sale stage).Keeps db
      ⟨call, .selling sale stage, rows⟩ := by
  obtain ⟨hsale, hstage⟩ := h.shape
  cases stage with
  | buyerCredits => exact h.keeps_checkCredits _
  | debit read =>
    have hread : (db.users.get? sale.purchase.buyerId).map Account.credits = some read :=
      of_decide_eq_true hset
    refine h.keeps_writeCredits hread (sub_nonneg.mpr hstage.2) ⟨hsale, hstage.1⟩ ?_
      (fun other hne => if_neg hne) rfl rfl
    show (if sale.purchase.buyerId = sale.purchase.buyerId then -sale.purchase.grossPrice else 0) = _
    rw [if_pos rfl]
    ring
  | logDebit balance =>
    exact h.keeps_writeLog ⟨hsale, hstage⟩ (fun _ => rfl) rfl rfl rfl
  | sellerCredits => exact h.keeps_goTo ⟨hsale, hstage⟩ (fun _ => rfl) rfl rfl
  | credit read =>
    have hread : (db.users.get? sale.purchase.sellerId).map Account.credits = some read :=
      of_decide_eq_true hset
    obtain ⟨a₀, ha₀, hcredits⟩ := Option.map_eq_some_iff.mp hread
    have hgross : 0 < sale.purchase.grossPrice := (of_decide_eq_true hstage).2
    have hbalance : 0 ≤ read + sale.purchase.sellerAmount := by
      have := hnonneg _ a₀ ha₀
      rw [hcredits] at this
      exact add_nonneg this (hsale.seller hgross.le)
    have hchange : ∀ other, (Tx.mk call (.selling sale (.logCredit (read +
        sale.purchase.sellerAmount))) rows).change other =
          (if other = sale.purchase.buyerId then -sale.purchase.grossPrice else 0) +
            (if other = sale.purchase.sellerId then sale.purchase.sellerAmount else 0) :=
      fun other => if_pos hstage
    refine h.keeps_writeCredits hread hbalance ⟨hsale, hstage⟩ ?_ (fun other hne => ?_) rfl rfl
    · refine (hchange _).trans ?_
      rw [if_neg hsale.ne, if_pos rfl]
      ring
    · refine (hchange other).trans ?_
      rw [if_neg hne, add_zero]
      rfl
  | logCredit balance =>
    exact h.keeps_writeLog ⟨hsale, trivial⟩ (fun _ => rfl) rfl rfl rfl
  | record =>
    have hfree : sale.charged = true ∨ sale.purchase.grossPrice = 0 := of_decide_eq_true hset
    refine ⟨rfl, rfl, rfl, fun hfresh hbuyer hseller => ?_⟩
    refine ⟨⟨hsale, hfree⟩, h.keys, h.rows, h.rest, fun p hp => ?_, fun p hp => ?_⟩
    · obtain rfl := Option.some.inj hp
      exact hfresh
    · obtain rfl := Option.some.inj hp
      exact ⟨hbuyer, hseller⟩
  | deliver =>
    have hkey : sale.purchase.key = sale.scriptSource.key := Prod.ext hsale.key rfl
    unfold saleStatement
    dsimp only
    split
    next hscript =>
      refine ⟨h.goTo ⟨hsale, hstage⟩ (fun _ => rfl) rfl, rfl, rfl, ⟨sale.purchase, rfl, hkey⟩, rfl, ?_⟩
      rw [← hkey]
      exact if_pos hscript
    next => exact h.keeps_goTo ⟨hsale, hstage⟩ (fun _ => rfl) rfl rfl
  | count =>
    exact ⟨h.goTo ⟨hsale, hstage⟩ (fun _ => rfl) rfl, fun _ hu => hu, rfl, fun _ hkey => hkey⟩
  | commit =>
    obtain ⟨hbuyer, hseller⟩ := h.known sale.purchase rfl
    rw [Ne, Dict.get?_eq_none_iff, not_not] at hbuyer hseller
    refine ⟨⟨hbuyer, hseller, hsale.split⟩, fun user => ?_, rfl, .inr ⟨sale, rfl⟩⟩
    show _ = if sale.charged then (Result.purchased sale.purchase).change user else 0
    split
    next => rfl
    next hcharged =>
      have hgross := hstage.resolve_left hcharged
      have hseller : sale.purchase.sellerAmount = 0 := by
        have := hsale.split
        rw [hgross, hsale.free hgross, zero_add] at this
        exact this.symm
      simp [Result.change, hgross, hseller]

/-- **One statement.** -/
theorem Ok.keeps_advance (h : t.Ok db)
    (hnonneg : ∀ user a, db.users.get? user = some a → 0 ≤ a.credits)
    (hset : t.Settled cfg db = true) : (t.advance cfg db).Keeps db t := by
  obtain ⟨call, phase, rows⟩ := t
  cases phase with
  | start =>
    cases call with
    | purchase buyerId indicatorId now =>
      simp only [advance, selectAsset]
      split
      next => exact keeps_failed rfl _
      next asset _ => exact h.keeps_goTo ⟨rfl, trivial⟩ (fun _ => rfl) rfl rfl
    | consume user cost ref => exact ⟨fun _ => rfl, rfl, trivial, rfl⟩
  | granting asset grant => exact h.keeps_granting hnonneg hset
  | vipStatus asset => exact h.keeps_goTo trivial (fun _ => rfl) rfl rfl
  | checking asset isVip =>
    simp only [advance, checkPurchase]
    split
    next => exact keeps_failed rfl _
    next hne =>
      split
      next => exact keeps_failed rfl _
      next =>
        have hsale := sale_ok cfg asset isVip hne
        split
        next hcharged => exact h.keeps_goTo ⟨hsale, hcharged⟩ (fun _ => rfl) rfl rfl
        next hcharged =>
          refine h.keeps_goTo ⟨hsale, trivial⟩ (fun user => ?_) rfl rfl
          exact if_neg hcharged
  | selling sale stage => exact h.keeps_selling hnonneg hset
  | consuming tx => exact h.keeps_consuming hnonneg

/-- **An exception** in place of a statement. -/
theorem Ok.keeps_onError (h : t.Ok db) (hdelivered : t.delivered = none) :
    t.onError.Keeps db t := by
  obtain ⟨call, phase, rows⟩ := t
  cases phase with
  | granting asset grant => exact keeps_vipStatus
  | vipStatus asset => exact h.keeps_goTo trivial (fun _ => rfl) rfl rfl
  | selling sale stage =>
    cases stage with
    | buyerCredits => exact h.keeps_checkCredits 0
    | sellerCredits => exact h.keeps_goTo h.shape (fun _ => rfl) rfl rfl
    | _ => exact keeps_failed hdelivered _
  | _ => exact keeps_failed hdelivered _

end

end Tx

end AlgoTrade.Marketplace
