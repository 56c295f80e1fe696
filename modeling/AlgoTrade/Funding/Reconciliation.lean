import AlgoTrade.Lib.Dict
import AlgoTrade.Payments.Chains
import Mathlib.Data.List.Infix

/-! # Funding reconciliation

`sync_strategy_funding` asks the exchange for the funding payments of a strategy's
symbol and `_insert_payments` splits each one by the positions of that moment.

* `positionAllocations`: who holds the symbol, and in which ratio.
* `insertPayment`: one row for each holder, unless that holder has one already.
* `syncStep`: syncs one after the other, with the positions, the exchange and the
  clock moving between any two payments.  A sync that raises is rolled back. -/

namespace AlgoTrade.Funding

/-! ## Symbols -/

def upper (s : List Char) : List Char := s.map Char.toUpper

/-- `s.strip()`. -/
def strip (s : List Char) : List Char :=
  ((s.dropWhile Char.isWhitespace).reverse.dropWhile Char.isWhitespace).reverse

def without (cs s : List Char) : List Char := s.filter (· ∉ cs)

def quotes : List (List Char) := ["USDT", "USDC", "USD", "BUSD", "EUR"].map String.toList

/-- `BTCUSDT`, `BTC-USDT` and `BTC/USDT` are `BTC/USDT`. -/
def normalizeStrategySymbol (symbol : List Char) : List Char :=
  let s := without ['-'] (upper (strip symbol))
  if s = [] ∨ '/' ∈ s then s
  else
    match quotes.find? fun quote => quote <:+ s ∧ quote.length < s.length with
    | some quote => s.take (s.length - quote.length) ++ '/' :: quote
    | none => s

/-! ## Rows -/

/-- A strategy with what its exchange configuration resolves to. -/
structure Strategy where
  id : ℕ
  userId : ℕ
  marketType : String := "swap"
  exchangeId : String
  credentialId : ℕ
  symbol : List Char
  createdAt : Option ℤ
  deriving DecidableEq, Repr

/-- A row of `qd_strategy_positions`; `strategyId` is 0 where the column is null. -/
structure PositionRow where
  strategyId : ℕ
  credentialId : ℕ
  symbol : List Char
  symbolCanonical : Option (List Char) := none
  size : ℚ
  deriving DecidableEq, Repr

/-- A funding payment as the exchange client returns it; time in milliseconds. -/
structure Payment where
  id : List Char
  symbol : List Char
  amount : ℚ
  asset : String := "USDT"
  time : ℤ
  deriving DecidableEq, Repr

/-- A payment settled on an exchange account. -/
structure AccountPayment where
  credentialId : ℕ
  exchangeId : String
  payment : Payment
  deriving DecidableEq, Repr

/-- Credential, exchange and external id. -/
def AccountPayment.key (q : AccountPayment) : ℕ × String × List Char :=
  (q.credentialId, q.exchangeId, strip q.payment.id)

/-- A row of `qd_strategy_funding_fees`, unique by key and strategy. -/
structure FundingFee where
  userId : ℕ
  strategyId : ℕ
  credentialId : ℕ
  exchangeId : String
  symbol : List Char
  asset : String
  amount : ℚ
  allocationRatio : ℚ
  externalId : List Char
  occurredAt : ℤ
  deriving DecidableEq, Repr

def FundingFee.key (r : FundingFee) : ℕ × String × List Char :=
  (r.credentialId, r.exchangeId, r.externalId)

/-- What a `DECIMAL` column of so many decimals stores. -/
def storedDecimal (decimals : ℕ) (x : ℚ) : ℚ :=
  if 0 ≤ x then quantizeHalfUp decimals x else -quantizeHalfUp decimals (-x)

theorem storedDecimal_eq_div (x : ℚ) : ∃ k : ℤ, storedDecimal 8 x = k / 10 ^ 8 := by
  unfold storedDecimal quantizeHalfUp
  split
  · exact ⟨_, rfl⟩
  · exact ⟨-⌊-x * 10 ^ 8 + 1 / 2⌋, by push_cast; ring⟩

theorem storedDecimal_div (k : ℤ) : storedDecimal 8 (k / 10 ^ 8) = k / 10 ^ 8 := by
  have hquantize : ∀ m : ℤ, quantizeHalfUp 8 (m / 10 ^ 8) = m / 10 ^ 8 := by
    intro m
    unfold quantizeHalfUp
    rw [div_mul_cancel₀ _ (by norm_num), Int.floor_intCast_add]
    norm_num
  unfold storedDecimal
  split
  · exact hquantize k
  · have := hquantize (-k)
    push_cast at this
    rw [neg_div] at this
    rw [this, neg_neg]

theorem storedDecimal_add {x y : ℚ} (hx : storedDecimal 8 x = x) (hy : storedDecimal 8 y = y) :
    storedDecimal 8 (x + y) = x + y := by
  obtain ⟨k, hk⟩ := storedDecimal_eq_div x
  obtain ⟨m, hm⟩ := storedDecimal_eq_div y
  have hsum : x + y = ((k + m : ℤ) : ℚ) / 10 ^ 8 := by
    rw [← hx, ← hy, hk, hm]
    push_cast
    ring
  rw [hsum, storedDecimal_div]

theorem storedDecimal_sub {x y : ℚ} (hx : storedDecimal 8 x = x) (hy : storedDecimal 8 y = y) :
    storedDecimal 8 (x - y) = x - y := by
  obtain ⟨k, hk⟩ := storedDecimal_eq_div x
  obtain ⟨m, hm⟩ := storedDecimal_eq_div y
  have hdiff : x - y = ((k - m : ℤ) : ℚ) / 10 ^ 8 := by
    rw [← hx, ← hy, hk, hm]
    push_cast
    ring
  rw [hdiff, storedDecimal_div]

theorem storedDecimal_storedDecimal (x : ℚ) :
    storedDecimal 8 (storedDecimal 8 x) = storedDecimal 8 x := by
  obtain ⟨k, hk⟩ := storedDecimal_eq_div x
  rw [hk, storedDecimal_div]

/-- A column holds nothing between zero and its last decimal. -/
theorem eq_zero_of_storedDecimal {x : ℚ} (hx : storedDecimal 8 x = x) (h : |x| ≤ 1 / 10 ^ 12) :
    x = 0 := by
  obtain ⟨k, hk⟩ := storedDecimal_eq_div x
  rw [hx] at hk
  have hsmall : |(k : ℚ)| < 1 := by
    rw [hk, abs_div, div_le_iff₀ (by positivity)] at h
    refine h.trans_lt ?_
    norm_num
  have hzero : k = 0 := Int.abs_lt_one_iff.mp (by exact_mod_cast hsmall)
  rw [hk, hzero]
  simp

/-! ## Allocation -/

/-- The size each strategy holds of a symbol, for the strategies that hold some. -/
def quantities (positions : List PositionRow) (credentialId : ℕ) (symbol : List Char) :
    List (ℕ × ℚ) :=
  let rows := positions.filter fun r =>
    r.credentialId = credentialId ∧ upper (r.symbolCanonical.getD r.symbol) = symbol ∧ 0 < |r.size|
  let grouped := (rows.map PositionRow.strategyId).dedup.map fun sid =>
    (sid, ((rows.filter fun r => r.strategyId = sid).map fun r => |r.size|).sum)
  grouped.filter fun q => 0 < q.1 ∧ 0 < q.2

/-- Each holder's part; all of it to the fallback when nobody holds the symbol. -/
def positionAllocations (positions : List PositionRow) (credentialId : ℕ) (symbol : List Char)
    (fallbackStrategyId : ℕ) : List (ℕ × ℚ) :=
  let held := quantities positions credentialId (upper (normalizeStrategySymbol symbol))
  let total := (held.map Prod.snd).sum
  if 0 < total then held.map fun q => (q.1, q.2 / total)
  else if 0 < fallbackStrategyId then [(fallbackStrategyId, 1)] else []

/-! ## Inserts -/

/-- What `_insert_payments` is called for. -/
structure SyncRequest where
  userId : ℕ
  strategyId : ℕ
  credentialId : ℕ
  exchangeId : String
  requestedSymbol : List Char
  deriving DecidableEq, Repr

def SyncRequest.key (req : SyncRequest) (p : Payment) : ℕ × String × List Char :=
  (req.credentialId, req.exchangeId, strip p.id)

/-- The payment's symbol as given, or the requested one. -/
def rawSymbol (req : SyncRequest) (p : Payment) : List Char :=
  upper (if p.symbol = [] then req.requestedSymbol else p.symbol)

/-- The payment is of the requested symbol, by its name or as a part of it. -/
def accepts (req : SyncRequest) (p : Payment) : Bool :=
  let requested := upper (normalizeStrategySymbol req.requestedSymbol)
  let raw := rawSymbol req p
  let symbol := upper (normalizeStrategySymbol raw)
  strip p.id ≠ [] ∧
    (requested = [] ∨ symbol = [] ∨ symbol = requested ∨
      without ['/'] requested <:+: without ['-', '_', '/'] raw)

/-- `_utc_from_ms`. -/
def utcFromMs (now ms : ℤ) : ℤ :=
  if ms ≤ 0 then now else if ms < 10000000000 then ms * 1000 else ms

/-- The row of one holder. -/
def feeRow (strategies : List Strategy) (now : ℤ) (req : SyncRequest) (p : Payment)
    (holder : ℕ × ℚ) : FundingFee where
  userId := ((strategies.find? fun st => st.id = holder.1).map Strategy.userId).getD req.userId
  strategyId := holder.1
  credentialId := req.credentialId
  exchangeId := req.exchangeId
  symbol :=
    let requested := upper (normalizeStrategySymbol req.requestedSymbol)
    if requested = [] then upper (normalizeStrategySymbol (rawSymbol req p)) else requested
  asset := p.asset
  amount := storedDecimal 8 (p.amount * holder.2)
  allocationRatio := storedDecimal 12 holder.2
  externalId := strip p.id
  occurredAt := utcFromMs now p.time

/-- `INSERT ... ON CONFLICT DO NOTHING`. -/
def insertFee (rows : List FundingFee) (r : FundingFee) : List FundingFee :=
  if rows.any fun r' => r'.key = r.key ∧ r'.strategyId = r.strategyId then rows else rows ++ [r]

def insertPayment (strategies : List Strategy) (now : ℤ) (req : SyncRequest) (p : Payment)
    (holders : List (ℕ × ℚ)) (rows : List FundingFee) : List FundingFee :=
  holders.foldl (fun rows holder => insertFee rows (feeRow strategies now req p holder)) rows

/-! ## Syncs -/

/-- A sync in progress: the payments still to insert, and the table as it sees it. -/
structure Sync where
  request : SyncRequest
  payments : List Payment
  rows : List FundingFee
  deriving DecidableEq, Repr

/-- Tables, the exchange's settled payments, `_last_sync` and the clock in
milliseconds, and the sync in progress. -/
structure Books where
  strategies : List Strategy := []
  positions : List PositionRow := []
  fees : List FundingFee := []
  settled : List AccountPayment := []
  lastSync : Dict ℕ ℤ := {}
  now : ℤ := 0
  sync : Option Sync := none
  deriving DecidableEq, Repr

def perpetualTypes : List String := ["swap", "future", "futures", "perp", "perpetual"]

def fundingExchanges : List String := ["binance", "okx", "bitget", "bybit", "gate", "htx"]

def weekMs : ℤ := 7 * 86400000

/-- The window a sync asks for: from the strategy's last row, or its creation, at
most seven days. -/
def Books.window (s : Books) (st : Strategy) : ℤ × ℤ :=
  let times := (s.fees.filter fun r => r.strategyId = st.id).map FundingFee.occurredAt
  let since := match times.max? with
    | some t => some t
    | none => st.createdAt
  let start := match since with
    | some t => t - 60000
    | none => s.now - weekMs
  (max 0 (max start (s.now - (weekMs - 60000))), s.now)

/-- The sync a strategy is up to, when it is one that has funding. -/
def Books.request (s : Books) (strategyId : ℕ) : Option (Strategy × SyncRequest) :=
  match s.strategies.find? fun st => st.id = strategyId with
  | none => none
  | some st =>
    if st.marketType ∉ perpetualTypes ∨ st.exchangeId ∉ fundingExchanges ∨ strip st.symbol = [] then
      none
    else
      some (st,
        { userId := st.userId, strategyId := st.id, credentialId := st.credentialId
          exchangeId := st.exchangeId, requestedSymbol := strip st.symbol })

inductive SyncLabel
  | ticks (ms : ℕ)
  | restarts
  | creates (st : Strategy)
  | moves (positions : List PositionRow)
  | settles (q : AccountPayment)
  | begins (strategyId : ℕ) (force : Bool) (response : List Payment)
  | inserts
  | commits
  | raises
  deriving DecidableEq, Repr

/-- A sync starts: it is throttled to one in 300 s for each strategy, and the
exchange answers with settled payments of the account in the window. -/
def Books.begin (s : Books) (strategyId : ℕ) (force : Bool) (response : List Payment) :
    Option Books :=
  if strategyId = 0 ∨ s.sync.isSome then none
  else if ¬ force ∧ s.now - (s.lastSync.get? strategyId).getD 0 < 300000 then some s
  else
    let noted := { s with lastSync := s.lastSync.set strategyId s.now }
    match s.request strategyId with
    | none => some noted
    | some (st, req) =>
      if response.all fun p => ⟨req.credentialId, req.exchangeId, p⟩ ∈ s.settled ∧
          (s.window st).1 ≤ p.time ∧ p.time ≤ (s.window st).2 then
        some { noted with sync := some { request := req, payments := response, rows := s.fees } }
      else none

/-- The sync's next payment.  A row of an unknown strategy raises. -/
def Books.insert (s : Books) (sync : Sync) : Option Books :=
  match sync.payments with
  | [] => none
  | p :: rest =>
    let req := sync.request
    if accepts req p then
      let holders := positionAllocations s.positions req.credentialId req.requestedSymbol req.strategyId
      if holders.all fun h => s.strategies.any fun st => st.id = h.1 then
        some { s with
          sync := some { sync with
            payments := rest
            rows := insertPayment s.strategies s.now req p holders sync.rows } }
      else some { s with sync := none }
    else some { s with sync := some { sync with payments := rest } }

def syncStep (s : Books) : SyncLabel → Option Books
  | .ticks ms => some { s with now := s.now + ms }
  | .restarts => some { s with lastSync := {}, sync := none }
  | .creates st =>
    if st.id = 0 ∨ s.strategies.any fun st' => st'.id = st.id then none
    else some { s with strategies := s.strategies ++ [st] }
  | .moves positions => some { s with positions := positions }
  | .settles q =>
    if s.settled.any fun q' => q'.key = q.key then none else some { s with settled := s.settled ++ [q] }
  | .begins strategyId force response => s.begin strategyId force response
  | .inserts => s.sync.bind s.insert
  | .commits =>
    match s.sync with
    | some sync => if sync.payments = [] then some { s with fees := sync.rows, sync := none } else none
    | none => none
  | .raises => if s.sync.isSome then some { s with sync := none } else none

end AlgoTrade.Funding
