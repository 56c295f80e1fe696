import AlgoTrade.Billing.Credits
import AlgoTrade.Lib.Dict
import AlgoTrade.Payments.Chains

/-! # Marketplace purchases

`purchase_indicator` and `check_and_consume`, statement by statement, on the rows
of all users.  A call is one transaction; an `UPDATE` takes the row's lock and
keeps it, with the call's version of the row, until the call commits or ends.

* `get_user_credits` and `get_user_vip_status` read in connections of their own:
  what is committed.  The second grants a lifetime member's monthly credits there.
* A script template is delivered in a connection of its own, which commits; an
  indicator's copy is a row of the call's transaction. -/

namespace AlgoTrade.Marketplace

/-! ## Tables -/

inductive AssetType
  | indicator | scriptTemplate
  deriving DecidableEq, Repr

inductive ReviewStatus
  | pending | approved | rejected
  deriving DecidableEq, Repr

/-- What a buyer gets of an asset. -/
structure Content where
  name : String := ""
  description : String := ""
  code : String := ""
  assetType : AssetType := .indicator
  previewImage : String := ""
  isEncrypted : Bool := false
  deriving DecidableEq, Repr

/-- A published row of `qd_indicator_codes`. -/
structure Asset where
  id : ℕ
  userId : ℕ
  publishToCommunity : Bool := true
  reviewStatus : Option ReviewStatus := some .approved
  pricingType : String := "free"
  price : ℚ := 0
  vipFree : Bool := false
  content : Content := {}
  purchaseCount : ℕ := 0
  deriving DecidableEq, Repr

/-- A row of `qd_indicator_purchases`, unique by indicator and buyer. -/
structure Purchase where
  indicatorId : ℕ
  buyerId : ℕ
  sellerId : ℕ
  grossPrice : ℚ
  platformFee : ℚ
  sellerAmount : ℚ
  feeRate : ℚ
  snapshot : Content
  deriving DecidableEq, Repr

def Purchase.key (p : Purchase) : ℕ × ℕ := (p.indicatorId, p.buyerId)

/-- A buyer's copy of an indicator, in `qd_indicator_codes`. -/
structure LocalCopy where
  userId : ℕ
  sourceIndicatorId : ℕ
  content : Content
  vipFree : Bool
  deriving DecidableEq, Repr

def LocalCopy.key (c : LocalCopy) : ℕ × ℕ := (c.sourceIndicatorId, c.userId)

/-- A row of `qd_script_sources` made from a template. -/
structure ScriptSource where
  userId : ℕ
  sourceMarketplaceIndicatorId : ℕ
  name : String
  description : String
  code : String
  codeHidden : Bool
  deriving DecidableEq, Repr

def ScriptSource.key (c : ScriptSource) : ℕ × ℕ := (c.sourceMarketplaceIndicatorId, c.userId)

/-- What is committed. -/
structure Db where
  users : Dict ℕ Account
  assets : List Asset := []
  purchases : List Purchase := []
  copies : List LocalCopy := []
  scriptSources : List ScriptSource := []
  deriving DecidableEq, Repr

structure MarketConfig where
  billing : BillingConfig := {}
  /-- `MARKETPLACE_PLATFORM_FEE_RATE` as a ratio. -/
  platformFeeRate : ℚ := 0
  deriving DecidableEq, Repr

/-! ## Amounts -/

def marketplacePlatformFeeRate (cfg : MarketConfig) : ℚ :=
  if cfg.platformFeeRate < 0 then 0
  else if 1 < cfg.platformFeeRate then 1
  else cfg.platformFeeRate

/-- Cents, half away from zero. -/
def money (value : ℚ) : ℚ :=
  if 0 ≤ value then quantizeHalfUp 2 value else -quantizeHalfUp 2 (-value)

/-- Gross amount, platform fee, seller's amount, fee rate. -/
def splitMarketplaceAmounts (cfg : MarketConfig) (gross : ℚ) : ℚ × ℚ × ℚ × ℚ :=
  let grossAmount := money gross
  let feeRate := marketplacePlatformFeeRate cfg
  let platformFee := money (grossAmount * feeRate)
  let sellerAmount := money (grossAmount - platformFee)
  (grossAmount, platformFee, sellerAmount, feeRate)

/-- A purchase in progress: the asset as read, and the row to be recorded. -/
structure Sale where
  asset : Asset
  purchase : Purchase
  deriving DecidableEq, Repr

def Asset.sale (cfg : MarketConfig) (asset : Asset) (buyerId : ℕ) (isVip : Bool) : Sale :=
  let effectivePrice :=
    if ¬ cfg.billing.billingEnabled ∨ (asset.vipFree ∧ isVip) then 0 else asset.price
  let (grossPrice, platformFee, sellerAmount, feeRate) := splitMarketplaceAmounts cfg effectivePrice
  { asset := asset
    purchase :=
      { indicatorId := asset.id, buyerId := buyerId, sellerId := asset.userId
        grossPrice := grossPrice, platformFee := platformFee, sellerAmount := sellerAmount
        feeRate := feeRate, snapshot := asset.content } }

/-- Credits move. -/
def Sale.charged (sale : Sale) : Bool :=
  (if sale.asset.pricingType = "" then "free" else sale.asset.pricingType) ≠ "free" ∧
    0 < sale.purchase.grossPrice

def Sale.isScript (sale : Sale) : Bool := sale.asset.content.assetType = .scriptTemplate

def Sale.copy (sale : Sale) : LocalCopy where
  userId := sale.purchase.buyerId
  sourceIndicatorId := sale.asset.id
  content := sale.asset.content
  vipFree := sale.asset.vipFree

/-- `create_from_marketplace_asset`. -/
def Sale.scriptSource (sale : Sale) : ScriptSource where
  userId := sale.purchase.buyerId
  sourceMarketplaceIndicatorId := sale.asset.id
  name := if sale.asset.content.name = "" then "Purchased Script" else sale.asset.content.name
  description := sale.asset.content.description
  code := sale.asset.content.code
  codeHidden := sale.asset.content.isEncrypted

/-! ## Calls -/

inductive MarketCall
  | purchase (buyerId indicatorId : ℕ) (now : ℤ)
  | consume (userId : ℕ) (cost : ℚ) (referenceId : String)
  deriving DecidableEq, Repr

/-- The caller: the buyer, or the user who consumes. -/
def MarketCall.user : MarketCall → ℕ
  | .purchase buyerId _ _ => buyerId
  | .consume userId _ _ => userId

def MarketCall.now : MarketCall → ℤ
  | .purchase _ _ now => now
  | .consume _ _ _ => 0

/-- The next statement of a sale, with the balance read or written. -/
inductive SaleStage
  | buyerCredits
  | debit (buyerCredits : ℚ)
  | logDebit (balance : ℚ)
  | sellerCredits
  | credit (sellerCredits : ℚ)
  | logCredit (balance : ℚ)
  | record
  | deliver
  | count
  | commit
  deriving DecidableEq, Repr

inductive Phase
  | start
  | granting (asset : Asset) (grant : CreditTx)
  | vipStatus (asset : Asset)
  | checking (asset : Asset) (isVip : Bool)
  | selling (sale : Sale) (stage : SaleStage)
  | consuming (tx : CreditTx)
  deriving DecidableEq, Repr

/-- A running call, with its versions of the user rows it has locked. -/
structure Tx where
  call : MarketCall
  phase : Phase
  rows : Dict ℕ Account := {}
  deriving DecidableEq, Repr

/-- What a call returned.  `passed`: nothing was due for the feature. -/
inductive Result
  | purchased (purchase : Purchase)
  | consumed (userId : ℕ) (cost : ℚ)
  | passed
  | failed (message : String)
  deriving DecidableEq, Repr

def MarketCall.begin : MarketCall → Tx
  | .purchase buyerId indicatorId now => { call := .purchase buyerId indicatorId now, phase := .start }
  | .consume userId cost referenceId =>
    { call := .consume userId cost referenceId
      phase := .consuming { call := .consume cost referenceId } }

/-! ## One statement -/

/-- What a statement asks for: nothing, a row lock, the unique key of a purchase,
the lock of the asset's row; or it commits or ends the call. -/
inductive Advance
  | goes (t : Tx)
  | locks (userId : ℕ) (t : Tx)
  | records (purchase : Purchase) (t : Tx)
  | delivers (source : ScriptSource) (t : Tx)
  | counts (indicatorId : ℕ) (t : Tx)
  | commits (next : Tx ⊕ Result)
  | ends (result : Result)
  deriving DecidableEq, Repr

namespace Tx

def goTo (t : Tx) (phase : Phase) : Tx := { t with phase := phase }

/-- The call's version of a user row, else the committed one. -/
def account (t : Tx) (db : Db) (userId : ℕ) : Option Account :=
  (t.rows.get? userId).or (db.users.get? userId)

/-- A statement of a credit call on the row of the call's user.  To a `SELECT` a
missing row is an empty one, and an `UPDATE` does not match it. -/
def creditStatement (cfg : MarketConfig) (db : Db) (t : Tx) (tx : CreditTx)
    (phase : CreditTx → Phase) (onCommit : Advance) (onRollback : Bool → Advance) : Advance :=
  match tx.stmt cfg.billing with
  | .read next => .goes (t.goTo (phase (next ((t.account db t.call.user).getD { credits := 0 }))))
  | .update next =>
    match t.account db t.call.user with
    | none => .goes (t.goTo (phase (next { credits := 0 }).2))
    | some row =>
      match next row with
      | (none, tx') => .goes (t.goTo (phase tx'))
      | (some row', tx') =>
        .locks t.call.user { t with phase := phase tx', rows := t.rows.set t.call.user row' }
  | .commit => onCommit
  | .rollback ok => onRollback ok

/-- `SELECT` of the asset, then the lifetime grant inside `get_user_vip_status`. -/
def selectAsset (db : Db) (t : Tx) (indicatorId : ℕ) : Advance :=
  let found := db.assets.find? fun asset =>
    asset.id = indicatorId ∧ asset.publishToCommunity ∧
      (asset.reviewStatus = some .approved ∨ asset.reviewStatus = none)
  match found with
  | none => .ends (.failed "indicator_not_found")
  | some asset => .goes (t.goTo (.granting asset { call := .grant t.call.now }))

/-- `vip_expires_at` of the buyer. -/
def selectVip (db : Db) (t : Tx) (asset : Asset) : Advance :=
  let isVip := ((db.users.get? t.call.user).bind fun row => row.vip.expiresAt).any (t.call.now < ·)
  .goes (t.goTo (.checking asset isVip))

/-- The price, the own-asset check and the `SELECT` of an earlier purchase. -/
def checkPurchase (cfg : MarketConfig) (db : Db) (t : Tx) (asset : Asset) (isVip : Bool) : Advance :=
  let sale := asset.sale cfg t.call.user isVip
  if asset.userId = t.call.user then .ends (.failed "cannot_buy_own")
  else if db.purchases.any fun p => p.key = sale.purchase.key then
    .ends (.failed "already_purchased")
  else .goes (t.goTo (.selling sale (if sale.charged then .buyerCredits else .record)))

/-- After `get_user_credits(buyer_id)`. -/
def checkCredits (t : Tx) (sale : Sale) (buyerCredits : ℚ) : Advance :=
  if buyerCredits < sale.purchase.grossPrice then .ends (.failed "insufficient_credits")
  else .goes (t.goTo (.selling sale (.debit buyerCredits)))

/-- `UPDATE qd_users SET credits = ?` to an absolute value. -/
def writeCredits (db : Db) (t : Tx) (userId : ℕ) (balance : ℚ) (phase : Phase) : Advance :=
  match t.account db userId with
  | none => .goes (t.goTo phase)
  | some row =>
    .locks userId { t with phase := phase, rows := t.rows.set userId { row with credits := balance } }

/-- A row of `qd_credits_log`, whose user must exist. -/
def writeLog (t : Tx) (userId : ℕ) (entry : CreditsLogRow) (phase : Phase) : Advance :=
  match t.rows.get? userId with
  | none => .ends (.failed "error")
  | some row =>
    .goes { t with phase := phase, rows := t.rows.set userId { row with log := row.log ++ [entry] } }

def saleStatement (db : Db) (t : Tx) (sale : Sale) : SaleStage → Advance
  | .buyerCredits =>
    t.checkCredits sale (((db.users.get? sale.purchase.buyerId).map Account.credits).getD 0)
  | .debit buyerCredits =>
    let balance := buyerCredits - sale.purchase.grossPrice
    t.writeCredits db sale.purchase.buyerId balance (.selling sale (.logDebit balance))
  | .logDebit balance =>
    t.writeLog sale.purchase.buyerId
      ⟨"indicator_purchase", -sale.purchase.grossPrice, balance, toString sale.asset.id⟩
      (.selling sale .sellerCredits)
  | .sellerCredits =>
    .goes (t.goTo (.selling sale
      (.credit (((db.users.get? sale.purchase.sellerId).map Account.credits).getD 0))))
  | .credit sellerCredits =>
    let balance := sellerCredits + sale.purchase.sellerAmount
    t.writeCredits db sale.purchase.sellerId balance (.selling sale (.logCredit balance))
  | .logCredit balance =>
    t.writeLog sale.purchase.sellerId
      ⟨"indicator_sale", sale.purchase.sellerAmount, balance, toString sale.asset.id⟩
      (.selling sale .record)
  | .record => .records sale.purchase (t.goTo (.selling sale .deliver))
  | .deliver =>
    if sale.isScript then .delivers sale.scriptSource (t.goTo (.selling sale .count))
    else .goes (t.goTo (.selling sale .count))
  | .count => .counts sale.asset.id (t.goTo (.selling sale .commit))
  | .commit => .commits (.inr (.purchased sale.purchase))

/-- The next statement of a call. -/
def advance (cfg : MarketConfig) (db : Db) (t : Tx) : Advance :=
  match t.phase with
  | .start =>
    match t.call with
    | .purchase _ indicatorId _ => t.selectAsset db indicatorId
    | .consume _ _ _ => .ends .passed
  | .granting asset grant =>
    let after : Tx := { t with phase := .vipStatus asset, rows := {} }
    t.creditStatement cfg db grant (.granting asset) (.commits (.inl after)) fun _ => .goes after
  | .vipStatus asset => t.selectVip db asset
  | .checking asset isVip => t.checkPurchase cfg db asset isVip
  | .selling sale stage => t.saleStatement db sale stage
  | .consuming tx =>
    let result : Result := match t.call with
      | .consume userId cost _ => .consumed userId cost
      | .purchase _ _ _ => .passed
    t.creditStatement cfg db tx .consuming (.commits (.inr result)) fun ok =>
      .ends (if ok then .passed else .failed "insufficient_credits")

/-- An exception in place of the next statement.  `get_user_vip_status` swallows
its own, and `get_user_credits` answers 0. -/
def onError (t : Tx) : Advance :=
  match t.phase with
  | .granting asset _ => .goes { t with phase := .vipStatus asset, rows := {} }
  | .vipStatus asset => .goes (t.goTo (.checking asset false))
  | .selling sale .buyerCredits => t.checkCredits sale 0
  | .selling sale .sellerCredits => .goes (t.goTo (.selling sale (.credit 0)))
  | _ => .ends (.failed "error")

/-- The purchase the call has inserted and not committed. -/
def pending (t : Tx) : Option Purchase :=
  match t.phase with
  | .selling sale .deliver | .selling sale .count | .selling sale .commit => some sale.purchase
  | _ => none

/-- The asset row the call has locked. -/
def counted (t : Tx) : Option ℕ :=
  match t.phase with
  | .selling sale .commit => some sale.asset.id
  | _ => none

/-- What the call's commit writes. -/
def commit (t : Tx) (db : Db) : Db :=
  match t.phase with
  | .selling sale .commit =>
    { users := db.users.update t.rows
      assets := db.assets.map fun asset =>
        if asset.id = sale.asset.id then { asset with purchaseCount := asset.purchaseCount + 1 }
        else asset
      purchases := db.purchases ++ [sale.purchase]
      copies := if sale.isScript then db.copies else db.copies ++ [sale.copy]
      scriptSources := db.scriptSources }
  | _ => { db with users := db.users.update t.rows }

end Tx

/-! ## Calls interleaved -/

inductive Proc
  | running (t : Tx)
  | ended (result : Result)
  deriving DecidableEq, Repr

structure Market where
  db : Db
  procs : List Proc
  deriving DecidableEq, Repr

/-- One statement of a call, an exception in its place, or the end of its process. -/
inductive MarketLabel
  | step (i : ℕ)
  | error (i : ℕ)
  | lost (i : ℕ)
  deriving DecidableEq, Repr

namespace Market

def start (db : Db) (calls : List MarketCall) : Market where
  db := db
  procs := calls.map fun c => .running c.begin

/-- No running call but `i` has `p`. -/
def noOther (s : Market) (i : ℕ) (p : Tx → Bool) : Bool :=
  (List.range s.procs.length).all fun j => j = i ||
    match s.procs[j]? with
    | some (.running t) => !p t
    | _ => true

def set (s : Market) (i : ℕ) (p : Proc) : Market := { s with procs := s.procs.set i p }

/-- Let call `i` do what its statement asks for; none while another call has the
lock.  A second row for a purchase's key, or one of an unknown user, raises. -/
def apply (s : Market) (i : ℕ) (t : Tx) : Advance → Option Market
  | .goes t' => some (s.set i (.running t'))
  | .locks userId t' =>
    if s.noOther i fun u => (u.rows.get? userId).isSome then some (s.set i (.running t')) else none
  | .records purchase t' =>
    if s.noOther i fun u => u.pending.any fun p => p.key = purchase.key then
      if (s.db.purchases.any fun p => p.key = purchase.key) = true ∨
          s.db.users.get? purchase.buyerId = none ∨ s.db.users.get? purchase.sellerId = none then
        some (s.set i (.ended (.failed "error")))
      else some (s.set i (.running t'))
    else none
  | .delivers source t' =>
    some { s.set i (.running t') with
      db := { s.db with scriptSources := s.db.scriptSources ++ [source] } }
  | .counts indicatorId t' =>
    if s.noOther i fun u => u.counted = some indicatorId then some (s.set i (.running t')) else none
  | .commits (.inl t') => some { s.set i (.running t') with db := t.commit s.db }
  | .commits (.inr result) => some { s.set i (.ended result) with db := t.commit s.db }
  | .ends result => some (s.set i (.ended result))

end Market

def marketStep (cfg : MarketConfig) (s : Market) : MarketLabel → Option Market
  | .step i =>
    match s.procs[i]? with
    | some (.running t) => s.apply i t (t.advance cfg s.db)
    | _ => none
  | .error i =>
    match s.procs[i]? with
    | some (.running t) => s.apply i t t.onError
    | _ => none
  | .lost i =>
    match s.procs[i]? with
    | some (.running _) => some (s.set i (.ended (.failed "")))
    | _ => none

end AlgoTrade.Marketplace
