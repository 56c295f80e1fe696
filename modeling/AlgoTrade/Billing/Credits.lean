import AlgoTrade.Lib.ReadCommitted
import Mathlib.Tactic.Linarith
import Mathlib.Tactic.NormNum

/-! # Credit calls as transactions on a user's row

`creditProgram` is the SQL of `check_and_consume`, `add_credits`, `set_credits`,
`purchase_membership` and the lifetime grant of `get_user_vip_status`, statement
by statement, on one row of `qd_users` and the user's rows of `qd_credits_log`.
The schema statements and the membership order row touch neither. -/

namespace AlgoTrade

open ReadCommitted

/-- Membership columns of `qd_users`; times in seconds. -/
structure VipFields where
  expiresAt : Option ℤ := none
  plan : String := ""
  isLifetime : Bool := false
  monthlyCreditsLastGrant : Option ℤ := none
  deriving DecidableEq, Repr

/-- A row of `qd_credits_log`. -/
structure CreditsLogRow where
  action : String
  amount : ℚ
  balanceAfter : ℚ
  referenceId : String := ""
  deriving DecidableEq, Repr

/-- The user's row and the user's log. -/
structure Account where
  credits : ℚ
  vip : VipFields := {}
  log : List CreditsLogRow := []
  deriving DecidableEq, Repr

/-- The sum of the amounts logged for the user. -/
def Account.logged (a : Account) : ℚ := (a.log.map CreditsLogRow.amount).sum

inductive MembershipPlan
  | monthly | yearly | lifetime
  deriving DecidableEq, Repr

def MembershipPlan.name : MembershipPlan → String
  | monthly => "monthly"
  | yearly => "yearly"
  | lifetime => "lifetime"

/-- Billing switch and membership plans. -/
structure BillingConfig where
  billingEnabled : Bool := true
  monthlyCreditsOnce : ℤ := 500
  yearlyCreditsOnce : ℤ := 8000
  lifetimeCreditsMonthly : ℤ := 800
  monthlyDurationDays : ℤ := 30
  yearlyDurationDays : ℤ := 365
  deriving DecidableEq, Repr

/-- The credits a purchase of the plan grants at once. -/
def BillingConfig.bonus (cfg : BillingConfig) : MembershipPlan → ℤ
  | .monthly => cfg.monthlyCreditsOnce
  | .yearly => cfg.yearlyCreditsOnce
  | .lifetime => cfg.lifetimeCreditsMonthly

def daySeconds : ℤ := 86400

/-- The membership columns a purchase writes. -/
def VipFields.purchased (cfg : BillingConfig) (vip : VipFields) (plan : MembershipPlan) (now : ℤ) :
    VipFields :=
  let baseTime := match vip.expiresAt with
    | some expires => if now < expires then expires else now
    | none => now
  match plan with
  | .monthly => { vip with
      expiresAt := some (baseTime + cfg.monthlyDurationDays * daySeconds)
      plan := plan.name
      isLifetime := false }
  | .yearly => { vip with
      expiresAt := some (baseTime + cfg.yearlyDurationDays * daySeconds)
      plan := plan.name
      isLifetime := false }
  | .lifetime => { vip with
      expiresAt := some (now + 365 * 100 * daySeconds)
      plan := plan.name
      isLifetime := true }

/-- Whole 30-day periods since the last grant, six at most. -/
def grantPeriods (now last : ℤ) : ℤ :=
  let deltaDays := (now - last) / daySeconds
  min 6 (deltaDays / 30)

/-! ## Calls -/

inductive CreditCall
  | consume (cost : ℚ) (referenceId : String)
  | add (amount : ℚ) (action referenceId : String)
  | set (amount : ℚ)
  | purchase (plan : MembershipPlan) (now : ℤ) (orderRef : String)
  | grant (now : ℤ)
  deriving DecidableEq, Repr

/-- Where a call stands, with what it has read. -/
inductive CreditPhase
  | start
  | refused
  | duplicate
  | rowLocked (amount credits : ℚ)
  | oldRead (amount old : ℚ)
  | vipRead (vip : VipFields)
  | bonusDue (amount : ℚ)
  | creditsRead (amount credits : ℚ)
  | written (amount balance : ℚ)
  | stamping
  | logged
  deriving DecidableEq, Repr

structure CreditTx where
  call : CreditCall
  phase : CreditPhase := .start
  deriving DecidableEq, Repr

namespace CreditTx

def goTo (t : CreditTx) (phase : CreditPhase) : CreditTx := { t with phase := phase }

/-- `action` and `reference_id` of the call's log row. -/
def logKey (t : CreditTx) : String × String :=
  match t.call with
  | .consume _ ref => ("consume", ref)
  | .add _ action ref => (action, ref)
  | .set _ => ("admin_adjust", "")
  | .purchase .lifetime _ ref => ("membership_monthly", ref)
  | .purchase _ _ ref => ("membership_bonus", ref)
  | .grant _ => ("membership_monthly", "")

/-- A log row with the call's action and nonempty reference exists. -/
def isDuplicate (t : CreditTx) (a : Account) : Bool :=
  t.logKey.2 ≠ "" ∧ a.log.any fun r => (r.action, r.referenceId) = t.logKey

/-- What follows the credits: the grant stamp, or the commit. -/
def afterCredits (t : CreditTx) : CreditPhase :=
  match t.call with
  | .purchase .lifetime _ _ | .grant _ => .stamping
  | _ => .logged

/-- `_add_credits_in_tx` when there is something to add. -/
def bonusPhase (t : CreditTx) (amount : ℤ) : CreditPhase :=
  if 0 < amount then .bonusDue amount else t.afterCredits

/-- After a purchase read the membership columns: a lifetime member who buys a
monthly or yearly plan keeps them. -/
def purchasePhase (cfg : BillingConfig) (t : CreditTx) (plan : MembershipPlan) (vip : VipFields) :
    CreditPhase :=
  if vip.isLifetime ∧ plan ≠ .lifetime then t.bonusPhase (cfg.bonus plan) else .vipRead vip

/-- After the grant read the membership columns. -/
def grantPhase (cfg : BillingConfig) (now : ℤ) (vip : VipFields) : CreditPhase :=
  if ¬ vip.isLifetime ∨ (∃ expires ∈ vip.expiresAt, expires ≤ now) then .refused
  else
    match vip.monthlyCreditsLastGrant with
    | none => .stamping
    | some last =>
      if grantPeriods now last ≤ 0 then .refused
      else .bonusDue (cfg.lifetimeCreditsMonthly * grantPeriods now last : ℤ)

/-- The first statement of a call. -/
def firstStmt (cfg : BillingConfig) (t : CreditTx) : Stmt Account CreditTx :=
  match t.call with
  | .consume cost _ =>
    if ¬ cfg.billingEnabled ∨ cost ≤ 0 then .rollback true
    else .update fun a =>
      if cost ≤ a.credits then
        (some { a with credits := a.credits - cost }, t.goTo (.written (-cost) (a.credits - cost)))
      else (none, t.goTo .refused)
  | .add amount _ _ =>
    if amount ≤ 0 then .rollback false
    else .update fun a => (some a, t.goTo (.rowLocked amount a.credits))
  | .set amount =>
    if amount < 0 then .rollback false else .read fun a => t.goTo (.oldRead amount a.credits)
  | .purchase plan _ _ => .read fun a => t.goTo (t.purchasePhase cfg plan a.vip)
  | .grant now =>
    if cfg.lifetimeCreditsMonthly ≤ 0 then .rollback false
    else .read fun a => t.goTo (grantPhase cfg now a.vip)

/-- The time a purchase or a grant stamps. -/
def stampTime (t : CreditTx) : Option ℤ :=
  match t.call with
  | .purchase _ now _ | .grant now => some now
  | _ => none

def stmt (cfg : BillingConfig) (t : CreditTx) : Stmt Account CreditTx :=
  match t.phase with
  | .start => t.firstStmt cfg
  | .refused => .rollback false
  | .duplicate => .rollback true
  | .rowLocked amount credits => .read fun a =>
    t.goTo (if t.isDuplicate a then .duplicate else .creditsRead amount credits)
  | .oldRead amount old => .update fun a =>
    (some { a with credits := amount }, t.goTo (.written (amount - old) amount))
  | .vipRead vip =>
    match t.call with
    | .purchase plan now _ => .update fun a =>
      (some { a with vip := vip.purchased cfg plan now }, t.goTo (t.bonusPhase (cfg.bonus plan)))
    | _ => .rollback false
  | .bonusDue amount => .read fun a => t.goTo (.creditsRead amount a.credits)
  | .creditsRead amount credits => .update fun a =>
    (some { a with credits := credits + amount }, t.goTo (.written amount (credits + amount)))
  | .written amount balance => .update fun a =>
    (some { a with log := a.log ++ [⟨t.logKey.1, amount, balance, t.logKey.2⟩] },
      t.goTo t.afterCredits)
  | .stamping => .update fun a =>
    (some { a with vip := { a.vip with monthlyCreditsLastGrant := t.stampTime } }, t.goTo .logged)
  | .logged => .commit

/-- `get_user_credits` answers 0 on an exception.  `_add_credits_in_tx` and the
stamp swallow theirs: the purchase goes on in an aborted transaction, whose
commit is a rollback, and reports success. -/
def onError (t : CreditTx) : CreditTx ⊕ Bool :=
  match t.call, t.phase with
  | .set amount, .start => .inl (t.goTo (.oldRead amount 0))
  | .purchase _ _ _, .bonusDue _ => .inr true
  | .purchase _ _ _, .creditsRead _ _ => .inr true
  | .purchase _ _ _, .written _ _ => .inr true
  | .purchase _ _ _, .stamping => .inr true
  | _, _ => .inr false

end CreditTx

def creditProgram (cfg : BillingConfig) : Program Account CreditTx where
  stmt := CreditTx.stmt cfg
  onError := CreditTx.onError

end AlgoTrade
