import AlgoTrade.Backtest.BrokerMoves
import Mathlib.Data.List.Induction
import Mathlib.Tactic.Linarith

/-! # Conservation of the simulation ledger

Cash and positions against the executions, at every point of a backtest, and the
audit `_reconcile` makes at its end.

* `Tally`: the amount of a position after its executions, and what was dropped
  each time it was removed as flat.
* `move_kept`: what a move keeps.
* `ledger_kept`: cash is what the executions leave, and an amount is the sum of
  its signed quantities less what was dropped; the audit reports no difference in
  cash, and in a quantity only after ten thousand drops. -/

namespace AlgoTrade.Backtest

/-! ## What the executions say -/

def executionsOf (key : PositionKey) (executions : List Execution) : List Execution :=
  executions.filter fun e => e.positionKey = key

/-- The sum of the signed quantities of a position key. -/
def netQuantity (key : PositionKey) (executions : List Execution) : ℚ :=
  ((executionsOf key executions).map Execution.signedQuantity).sum

/-- What an execution takes out of the cash. -/
def Execution.outlay (e : Execution) : ℚ := e.signedQuantity * e.price + e.commission

def cashLedger (cfg : BrokerConfig) (executions : List Execution) : ℚ :=
  cfg.initialCapital - (executions.map Execution.outlay).sum

/-- An amount, and the amounts it had when it was removed as flat without being
zero. -/
structure Tally where
  amount : ℚ := 0
  dropped : List ℚ := []
  deriving DecidableEq, Repr

def Tally.add (t : Tally) (quantity : ℚ) : Tally :=
  let amount := t.amount + quantity
  if |amount| ≤ amountEpsilon then
    { amount := 0, dropped := if amount = 0 then t.dropped else t.dropped ++ [amount] }
  else { t with amount }

def tally (key : PositionKey) (executions : List Execution) : Tally :=
  ((executionsOf key executions).map Execution.signedQuantity).foldl Tally.add {}

def Book.amountOf (b : Book) (key : PositionKey) : ℚ :=
  ((b.positions.get? key).map Position.amount).getD 0

/-! ## The audit -/

structure Reconciliation where
  executionCount : ℕ
  closedTradeCount : ℕ
  cashLedger : ℚ
  cashLedgerBeforeLiquidationAdjustment : ℚ
  liquidationAdjustment : ℚ
  ledgerEquity : ℚ
  reportedEquity : ℚ
  equityDifference : ℚ
  feeMismatchIndexes : List ℕ
  fillMismatchIndexes : List ℕ
  timingMismatchIndexes : List ℕ
  positionMismatchSymbols : List PositionKey
  passed : Bool
  deriving DecidableEq, Repr

def auditTolerance : ℚ := 1 / 10 ^ 8

/-- Off by more than the tolerance, and than a billionth of what is expected. -/
def offBy (actual expected : ℚ) : Bool :=
  max auditTolerance (|expected| * (1 / 10 ^ 9)) < |actual - expected|

def feeMismatch (cfg : BrokerConfig) (e : Execution) : Bool :=
  offBy e.commission (e.notional * cfg.commission)

def expectedPrice (cfg : BrokerConfig) (e : Execution) : ℚ := match e.fillReference with
  | .limit => e.limitPrice
  | .gapOpen => e.referencePrice
  | .barOpen =>
    e.referencePrice * if e.side = .buy then 1 + cfg.slippage else 1 - cfg.slippage

def fillMismatch (cfg : BrokerConfig) (e : Execution) : Bool :=
  e.referencePrice ≤ 0 || offBy e.price (expectedPrice cfg e)

def timingMismatch (e : Execution) : Bool := e.time < e.signalTime

def mismatchIndexes (mismatch : Execution → Bool) (executions : List Execution) : List ℕ :=
  (executions.zipIdx.filter fun e => mismatch e.1).map Prod.snd

/-- The keys whose amount is not the sum of their signed quantities; the source
sorts them. -/
def positionMismatches (b : Book) : List PositionKey :=
  ((b.executions.map Execution.positionKey ++ b.positions.keys).dedup).filter fun key =>
    auditTolerance < |netQuantity key b.executions - b.amountOf key|

/-- `_reconcile`. -/
def reconcile (cfg : BrokerConfig) (b : Broker) : Reconciliation :=
  let executions := b.book.executions
  let before := AlgoTrade.Backtest.cashLedger cfg executions
  let cash := before + b.liquidationAdjustment
  let equity := cash + b.book.positionsValue
  let fee := mismatchIndexes (feeMismatch cfg) executions
  let fill := mismatchIndexes (fillMismatch cfg) executions
  let timing := mismatchIndexes timingMismatch executions
  let positions := positionMismatches b.book
  { executionCount := executions.length
    closedTradeCount := b.book.closedTrades.length
    cashLedger := cash
    cashLedgerBeforeLiquidationAdjustment := before
    liquidationAdjustment := b.liquidationAdjustment
    ledgerEquity := equity
    reportedEquity := b.book.totalValue
    equityDifference := equity - b.book.totalValue
    feeMismatchIndexes := fee
    fillMismatchIndexes := fill
    timingMismatchIndexes := timing
    positionMismatchSymbols := positions
    passed := fee = [] ∧ fill = [] ∧ timing = [] ∧ positions = [] ∧
      |equity - b.book.totalValue| ≤ 1 / 10 ^ 6 }

/-! ## Tallies -/

section
variable (key : PositionKey) (executions : List Execution) (e : Execution)

theorem executionsOf_append : executionsOf key (executions ++ [e]) =
    executionsOf key executions ++ if e.positionKey = key then [e] else [] := by
  unfold executionsOf
  rw [List.filter_append]
  by_cases h : e.positionKey = key
  · simp [h]
  · simp [h]

theorem tally_append_self (h : e.positionKey = key) :
    tally key (executions ++ [e]) = (tally key executions).add e.signedQuantity := by
  unfold tally
  rw [executionsOf_append, if_pos h, List.map_append, List.foldl_append]
  rfl

theorem tally_append_ne (h : e.positionKey ≠ key) :
    tally key (executions ++ [e]) = tally key executions := by
  unfold tally
  rw [executionsOf_append, if_neg h, List.append_nil]

end

theorem Tally.add_amount (t : Tally) (q : ℚ) :
    (t.add q).amount = if |t.amount + q| ≤ amountEpsilon then 0 else t.amount + q := by
  unfold Tally.add
  dsimp only
  split
  · rfl
  · rfl

/-- A quantity goes into the amount, or into what is dropped. -/
theorem Tally.add_sum (t : Tally) (q : ℚ) :
    (t.add q).amount + (t.add q).dropped.sum = t.amount + t.dropped.sum + q := by
  unfold Tally.add
  dsimp only
  split
  · split
    next h => linarith
    next => simp only [List.sum_append, List.sum_singleton]; ring
  · ring

theorem Tally.add_dropped (t : Tally) (q : ℚ) (h : ∀ d ∈ t.dropped, |d| ≤ amountEpsilon ∧ d ≠ 0) :
    ∀ d ∈ (t.add q).dropped, |d| ≤ amountEpsilon ∧ d ≠ 0 := by
  unfold Tally.add
  dsimp only
  split
  next hflat =>
    split
    · exact h
    next hne =>
      intro d hd
      rcases List.mem_append.mp hd with hd | hd
      · exact h d hd
      · rw [List.mem_singleton.mp hd]
        exact ⟨hflat, hne⟩
  · exact h

/-- The signed quantities make the amount and what was dropped, each drop within
the tolerance. -/
theorem tally_spec (key : PositionKey) (executions : List Execution) :
    netQuantity key executions =
        (tally key executions).amount + (tally key executions).dropped.sum ∧
      ∀ d ∈ (tally key executions).dropped, |d| ≤ amountEpsilon ∧ d ≠ 0 := by
  unfold netQuantity tally
  induction (executionsOf key executions).map Execution.signedQuantity using
    List.reverseRecOn with
  | nil => exact ⟨(add_zero _).symm, fun d hd => by cases hd⟩
  | append_singleton qs q ih =>
    rw [List.foldl_append, List.sum_append, List.sum_singleton, ih.1]
    exact ⟨(Tally.add_sum _ q).symm, Tally.add_dropped _ q ih.2⟩

theorem abs_sum_le_length {ds : List ℚ} (h : ∀ d ∈ ds, |d| ≤ amountEpsilon) :
    |ds.sum| ≤ ds.length * amountEpsilon := by
  induction ds with
  | nil => simp
  | cons d ds ih =>
    rw [List.sum_cons, List.length_cons]
    have hd := h d List.mem_cons_self
    have hds := ih fun d' hd' => h d' (List.mem_cons_of_mem d hd')
    calc |d + ds.sum| ≤ |d| + |ds.sum| := abs_add_le d ds.sum
      _ ≤ amountEpsilon + ds.length * amountEpsilon := add_le_add hd hds
      _ = ((ds.length + 1 : ℕ) : ℚ) * amountEpsilon := by push_cast; ring

/-! ## Every move -/

/-- Cash and amounts are what the executions say. -/
structure LedgerKept (cfg : BrokerConfig) (b : Broker) : Prop where
  cash : b.book.availableCash = cashLedger cfg b.book.executions + b.liquidationAdjustment
  amount : ∀ key, b.book.amountOf key = (tally key b.book.executions).amount

theorem amountOf_positionOf (b : Book) (order : OrderIntent) :
    (b.positionOf order).amount = b.amountOf order.positionKey := by
  unfold Book.positionOf Book.amountOf
  cases b.positions.get? order.positionKey with
  | none => rfl
  | some pos => rfl

theorem amountOf_markToMarket (b : Book) (p : Portal) (key : PositionKey) :
    (b.markToMarket p).amountOf key = b.amountOf key := by
  unfold Book.amountOf Book.markToMarket
  dsimp only
  rw [Dict.get?_mapValues]
  cases b.positions.get? key with
  | none => rfl
  | some pos => rfl

/-- **One move keeps the ledger.** -/
theorem move_kept {cfg : BrokerConfig} (b b' : Broker) (h : Broker.Move cfg b b')
    (hb : LedgerKept cfg b) : LedgerKept cfg b' := by
  cases h with
  | mark p => exact ⟨hb.cash, fun key => (amountOf_markToMarket b.book p key).trans (hb.amount key)⟩
  | quiet haccounts hadjustment =>
    have hcash : b'.book.availableCash = b.book.availableCash := congrArg Accounts.cash haccounts
    have hpositions : b'.book.positions = b.book.positions :=
      congrArg Accounts.positions haccounts
    have hexecutions : b'.book.executions = b.book.executions :=
      congrArg Accounts.executions haccounts
    constructor
    · rw [hcash, hexecutions, hadjustment, hb.cash]
    · intro key
      unfold Book.amountOf
      rw [hpositions, hexecutions]
      exact hb.amount key
  | absorb deficit =>
    refine ⟨?_, hb.amount⟩
    show b.book.availableCash + deficit =
      cashLedger cfg b.book.executions + (b.liquidationAdjustment + deficit)
    rw [hb.cash, add_assoc]
  | fill timestamp order orderId openPrice z delta fillPrice lot reference cap constraint hz =>
    obtain ⟨e, hkey, hsigned, -, hprice, -, haccounts⟩ := fillOrder_spec cfg timestamp b.book order
      orderId openPrice z delta fillPrice lot reference cap constraint
    generalize (fillOrder cfg timestamp b.book order orderId openPrice z delta fillPrice lot
      reference cap constraint).book = book at haccounts ⊢
    have hcash : book.availableCash = b.book.availableCash - delta * fillPrice - e.commission :=
      congrArg Accounts.cash haccounts
    have hpositions := congrArg Accounts.positions haccounts
    have hexecutions : book.executions = b.book.executions ++ [e] :=
      congrArg Accounts.executions haccounts
    have hamount : z.current.amount = (tally order.positionKey b.book.executions).amount := by
      rw [hz, amountOf_positionOf, hb.amount]
    constructor
    · show book.availableCash = cashLedger cfg book.executions + b.liquidationAdjustment
      rw [hcash, hexecutions, hb.cash]
      unfold cashLedger
      rw [List.map_append, List.sum_append, List.map_singleton, List.sum_singleton,
        Execution.outlay, hsigned, hprice]
      ring
    · intro key
      show ((book.accounts.positions.get? key).map Position.amount).getD 0 =
        (tally key book.executions).amount
      rw [hpositions, hexecutions]
      by_cases hsame : order.positionKey = key
      · rw [tally_append_self key _ e (hkey.trans hsame), Tally.add_amount, ← hsame, ← hamount,
          hsigned]
        split
        next => rw [Dict.get?_pop, if_pos rfl]; rfl
        next => rw [Dict.get?_set_self]; rfl
      · rw [tally_append_ne key _ e fun h => hsame (hkey.symm.trans h), ← hb.amount key]
        split
        next => rw [Dict.get?_pop, if_neg hsame]; rfl
        next => rw [Dict.get?_set, if_neg hsame]; rfl

/-! ## Runs -/

/-- A bar ends with its equity recorded. -/
theorem Runner.bar_totalValue {G : Type} {cfg : BrokerConfig} {prog : Program G} {frames : Frames}
    {timestamp : Time} {r r' : Runner G} (h : r.bar cfg prog frames timestamp = some r') :
    r'.broker.book.totalValue = r'.broker.book.availableCash + r'.broker.book.positionsValue := by
  unfold Runner.bar at h
  split at h
  · obtain rfl := Option.some.inj h
    rfl
  · obtain ⟨o, -, h⟩ := Option.bind_eq_some_iff.mp h
    obtain ⟨e, -, h⟩ := Option.bind_eq_some_iff.mp h
    dsimp only at h
    split at h
    · obtain rfl := Option.some.inj h
      rfl
    · obtain ⟨r₁, -, h⟩ := Option.bind_eq_some_iff.mp h
      obtain ⟨r₂, -, rfl⟩ := Option.map_eq_some_iff.mp h
      rfl

section
variable {G : Type} {cfg : BrokerConfig} {prog : Program G} {frames : Frames} {ts : List Time}
  {r : Runner G}

theorem Runner.run_totalValue
    (hrun : Runs.run (Runner.bar cfg prog frames) (Runner.start cfg prog) ts = some r) :
    r.broker.book.totalValue = r.broker.book.availableCash + r.broker.book.positionsValue := by
  have hstep : ∀ (s : Runner G) (t : Time) (s' : Runner G),
      s.broker.book.totalValue = s.broker.book.availableCash + s.broker.book.positionsValue →
        Runner.bar cfg prog frames s t = some s' →
          s'.broker.book.totalValue = s'.broker.book.availableCash + s'.broker.book.positionsValue :=
    fun _ _ _ _ hbar => Runner.bar_totalValue hbar
  exact Runs.run_invariant hstep (add_zero _).symm hrun

theorem start_kept (cfg : BrokerConfig) (prog : Program G) :
    LedgerKept cfg (Runner.start cfg prog).broker where
  cash := by
    show cfg.initialCapital = cfg.initialCapital - 0 + 0
    rw [sub_zero, add_zero]
  amount _ := rfl

/-- **The ledger is conserved**, at every point `b` after any number of bars. -/
theorem ledger_kept
    (hrun : Runs.run (Runner.bar cfg prog frames) (Runner.start cfg prog) ts = some r) :
    (∀ b, Broker.Chain cfg r.broker b →
      b.book.availableCash = cashLedger cfg b.book.executions + b.liquidationAdjustment ∧
      ∀ key, netQuantity key b.book.executions =
          b.book.amountOf key + (tally key b.book.executions).dropped.sum ∧
        (∀ d ∈ (tally key b.book.executions).dropped, |d| ≤ amountEpsilon)) ∧
    (reconcile cfg r.broker).cashLedger = r.broker.book.availableCash ∧
    (reconcile cfg r.broker).equityDifference = 0 ∧
    ∀ key ∈ (reconcile cfg r.broker).positionMismatchSymbols,
      10 ^ 4 < (tally key r.broker.book.executions).dropped.length := by
  have hkept : ∀ b, Broker.Chain cfg r.broker b → LedgerKept cfg b := fun b hchain =>
    ((Runner.run_chain hrun).trans hchain).invariant move_kept (start_kept cfg prog)
  have hend := hkept r.broker (.refl _)
  refine ⟨fun b hchain => ⟨(hkept b hchain).cash, fun key => ?_⟩, hend.cash.symm, ?_,
    fun key hmem => ?_⟩
  · rw [(hkept b hchain).amount key]
    exact ⟨(tally_spec key _).1, fun d hd => ((tally_spec key _).2 d hd).1⟩
  · show cashLedger cfg r.broker.book.executions + r.broker.liquidationAdjustment +
      r.broker.book.positionsValue - r.broker.book.totalValue = 0
    rw [Runner.run_totalValue hrun, ← hend.cash, sub_self]
  · have hoff := of_decide_eq_true (List.mem_filter.mp hmem).2
    obtain ⟨hsum, hdropped⟩ := tally_spec key r.broker.book.executions
    have hbound := abs_sum_le_length fun d hd => (hdropped d hd).1
    rw [hsum, hend.amount, add_sub_cancel_left] at hoff
    have hlt : auditTolerance <
        (tally key r.broker.book.executions).dropped.length * amountEpsilon := hoff.trans_le hbound
    rw [auditTolerance, amountEpsilon] at hlt
    have : (10 ^ 4 : ℚ) < (tally key r.broker.book.executions).dropped.length := by linarith
    exact_mod_cast this

end

/-! ## Lots of two sizes -/

namespace Dust

def coin : Instrument := ⟨"Crypto", "BTC/USDT"⟩

def flatBar (lot : ℚ) : Bar where
  openPrice := 100
  volume := 1000000
  lotSize := lot
  high := 100
  low := 100
  close := 100

/-- The lot of the third bar is smaller by less than the tolerance. -/
def history : Frames where
  entries := [(coin, ⟨[(0, flatBar 1), (1, flatBar 1), (2, flatBar (1 - 1 / (2 * 10 ^ 12))),
    (3, flatBar 1)], by simp⟩)]

def config : BrokerConfig := .unlevered 10000

def silent : Callback Unit := fun _ s => some (s, [])

/-- One coin, none, one coin. -/
def inAndOut : Program Unit where
  init := ()
  beforeTradingStart := silent
  schedules := []
  onRebalance := silent
  handleData view s :=
    some (s, [.order { symbol := coin, kind := .targetQuantity,
                       value := if view.currentDt = 1 then 0 else 1 }])
  afterTradingEnd := silent

def key : PositionKey := ⟨coin, none⟩

end Dust

/-- A coin is bought, sold and bought again. -/
theorem ledger_kept_inAndOut :
    ∃ r, Runs.run (Runner.bar Dust.config Dust.inAndOut Dust.history)
        (Runner.start Dust.config Dust.inAndOut) [0, 1, 2, 3] = some r ∧
      r.broker.book.availableCash =
        cashLedger Dust.config r.broker.book.executions + r.broker.liquidationAdjustment := by
  obtain ⟨r, hr⟩ := Option.isSome_iff_exists.mp (show
    (Runs.run (Runner.bar Dust.config Dust.inAndOut Dust.history)
      (Runner.start Dust.config Dust.inAndOut) [0, 1, 2, 3]).isSome by decide +kernel)
  exact ⟨r, hr, ((ledger_kept hr).1 r.broker (.refl _)).1⟩

/-- What was dropped in between is missing from the amount. -/
theorem dropped_missing :
    ∃ r, Runner.run Dust.config Dust.inAndOut Dust.history none none = some r ∧
      ∃ pos, r.broker.book.positions.get? Dust.key = some pos ∧
        pos.amount ≠ netQuantity Dust.key r.broker.book.executions := by
  obtain ⟨r, hr, hp⟩ := Runs.exists_of_any
    (p := fun r : Runner Unit => r.broker.book.amountOf Dust.key = 1 ∧
      netQuantity Dust.key r.broker.book.executions ≠ 1)
    (show (Runner.run Dust.config Dust.inAndOut Dust.history none none).any _ = true by
      decide +kernel)
  refine ⟨r, hr, ?_⟩
  cases hpos : r.broker.book.positions.get? Dust.key with
  | none =>
    rw [Book.amountOf, hpos] at hp
    exact absurd hp.1 (by decide)
  | some pos =>
    rw [Book.amountOf, hpos] at hp
    have hamount : pos.amount = 1 := hp.1
    exact ⟨pos, rfl, fun heq => hp.2 (heq.symm.trans hamount)⟩

end AlgoTrade.Backtest
