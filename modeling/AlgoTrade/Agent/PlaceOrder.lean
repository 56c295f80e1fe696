import AlgoTrade.Lib.Dict
import AlgoTrade.Lib.Lists
import AlgoTrade.Streams.Normalizers
import Mathlib.Data.Rat.Floor

/-! # Live orders of agent tokens

`place_order` with live trading unlocked, one label for each transaction it
commits: the idempotency key, the job lookup, the notional reservation, the
pending order, the final status of the reservation, the recorded job and the
stored answer.  Between any two of them the call may raise or stop.

* `claimKey`: `_reserve_idempotency`.
* `reserveNotional`: `_reserve_live_notional`.
* `placeStep`: what one label does. -/

namespace AlgoTrade.Agent

abbrev Seconds := ℕ

/-- `date_trunc('day', …)`. -/
def utcDay (t : Seconds) : ℕ := t / 86400

/-! ## Tokens -/

inductive AgentScope
  | read | workspace | backtest | notify | credentials | trading
  deriving DecidableEq, Repr

def AgentScope.letter : AgentScope → Char
  | read => 'R'
  | workspace => 'W'
  | backtest => 'B'
  | notify => 'N'
  | credentials => 'C'
  | trading => 'T'

/-- `p.strip().upper()`. -/
def stripUpper (item : List Char) : List Char :=
  let front := item.dropWhile Char.isWhitespace
  ((front.reverse.dropWhile Char.isWhitespace).reverse).map Char.toUpper

/-- `parse_scopes`, before unknown scopes are dropped. -/
def parseScopes (raw : List Char) : List (List Char) := (raw.splitOn ',').map stripUpper

inductive TokenStatus
  | active | revoked
  deriving DecidableEq, Repr

/-- A live token; issuing one checks its limits. -/
structure Token where
  scopes : List AgentScope
  status : TokenStatus := .active
  maxOrderNotional : ℚ
  maxDailyNotional : ℚ
  order_pos : 0 < maxOrderNotional
  order_le_daily : maxOrderNotional ≤ maxDailyNotional
  deriving DecidableEq

namespace Token

variable (t : Token)

/-- The `scopes` column: `",".join(…)`. -/
def scopesText : List Char := [','].intercalate (t.scopes.map fun scope => [scope.letter])

/-- `agent_required(SCOPE_T)` lets the token in. -/
def letIn : Bool := t.status = .active && (parseScopes t.scopesText).contains ['T']

theorem letIn_iff : t.letIn = true ↔ t.status = .active ∧ .trading ∈ t.scopes := by
  have hletters : t.scopes ≠ [] →
      parseScopes t.scopesText = t.scopes.map fun scope => [scope.letter] := by
    intro hne
    unfold parseScopes scopesText
    rw [List.splitOn_intercalate ',' (fun l hl => ?_) (by simpa using hne), List.map_map]
    · refine List.map_congr_left fun scope _ => ?_
      cases scope <;> decide
    · obtain ⟨scope, -, rfl⟩ := List.mem_map.mp hl
      cases scope <;> decide
  have hmem : ['T'] ∈ parseScopes t.scopesText ↔ .trading ∈ t.scopes := by
    by_cases hne : t.scopes = []
    · unfold scopesText
      rw [hne]
      decide
    · rw [hletters hne, List.mem_map]
      constructor
      · rintro ⟨scope, hscope, heq⟩
        cases scope <;> first | exact hscope | exact absurd heq (by decide)
      · exact fun h => ⟨.trading, h, rfl⟩
  unfold letIn
  rw [Bool.and_eq_true, decide_eq_true_eq, List.contains_iff_mem, hmem]

/-- May trade up to 800 an order and 1000 a day. -/
def upTo800 : Token where
  scopes := [.read, .trading]
  maxOrderNotional := 800
  maxDailyNotional := 1000
  order_pos := by norm_num
  order_le_daily := by norm_num

end Token

/-! ## Rows -/

inductive IdempotencyStatus
  | started | completed
  deriving DecidableEq, Repr

/-- A row of `qd_agent_idempotency`. -/
structure IdempotencyRow where
  requestHash : String
  status : IdempotencyStatus := .started
  updatedAt : Seconds
  deriving DecidableEq, Repr

inductive ReservationStatus
  | reserved | executed | failed
  deriving DecidableEq, Repr

/-- Who asks, and under which `Idempotency-Key`. -/
structure RequestKey where
  token : ℕ
  key : String
  deriving DecidableEq, Repr

/-- A row of `qd_agent_notional_reservations`. -/
structure Reservation where
  request : RequestKey
  notional : ℚ
  status : ReservationStatus := .reserved
  createdAt : Seconds
  deriving DecidableEq, Repr

inductive QueueStatus
  | waiting | processing | sent | filled | failed | cancelled
  deriving DecidableEq, Repr

/-- What the exchange has of an order. -/
inductive ExchangeOrder
  | none | working | filled | cancelled
  deriving DecidableEq, Repr

/-- A live row of `pending_orders` that an agent token placed; `notional` is its
quantity at the reference price of the check. -/
structure AgentOrder where
  token : ℕ
  notional : ℚ
  createdAt : Seconds
  updatedAt : Seconds
  attempts : ℕ := 0
  status : QueueStatus := .waiting
  exchange : ExchangeOrder := .none
  deriving DecidableEq, Repr

/-! ## Calls -/

/-- A reservation a call has made. -/
structure Hold where
  notional : ℚ
  reservedAt : Seconds
  deriving DecidableEq, Repr

/-- How far a call has come. -/
inductive CallPhase
  /-- The token was let in. -/
  | letIn
  /-- The idempotency key is this call's. -/
  | keyed
  /-- There is no recorded job under the key. -/
  | fresh
  /-- The notional is reserved, the order not yet inserted. -/
  | reserved (hold : Hold)
  /-- An exception before the insert was caught. -/
  | raised (hold : Hold)
  /-- The order is inserted. -/
  | queued
  /-- An exception after the insert was caught. -/
  | raisedQueued
  | executed
  | answered
  | ended
  deriving DecidableEq, Repr

structure PlaceCall where
  request : RequestKey
  requestHash : String
  quantity : ℚ
  phase : CallPhase := .letIn
  deriving DecidableEq, Repr

structure AgentState where
  clock : Seconds := 0
  tokens : List Token
  idempotency : Dict RequestKey IdempotencyRow := {}
  jobs : List RequestKey := []
  reservations : List Reservation := []
  orders : List AgentOrder := []
  calls : List PlaceCall := []
  deriving DecidableEq

/-! ## The transactions -/

/-- The idempotency row after `_reserve_idempotency`, when it answers `reserved`:
a new key, or the same request started too long ago. -/
def claimKey (staleAfter : Seconds) (clock : Seconds) (requestHash : String) :
    Option IdempotencyRow → Option IdempotencyRow
  | none => some { requestHash, updatedAt := clock }
  | some row =>
    if row.requestHash = requestHash ∧ row.status = .started ∧ row.updatedAt + staleAfter < clock then
      some { row with updatedAt := clock }
    else none

/-- What a `DECIMAL(24,8)` column stores of a positive number. -/
def decimal8 (x : ℚ) : ℚ := ⌊x * 10 ^ 8 + 1 / 2⌋ / 10 ^ 8

/-- The reservation counts toward the token's limit of that day. -/
def Reservation.counted (token day : ℕ) (r : Reservation) : ℚ :=
  if r.request.token = token ∧ utcDay r.createdAt = day ∧ r.status ≠ .failed then r.notional else 0

/-- `used` of `_reserve_live_notional`. -/
def AgentState.used (s : AgentState) (token day : ℕ) : ℚ :=
  (s.reservations.map (Reservation.counted token day)).sum

/-- The insert of a reservation; a row under the same key stays as it is. -/
def insertReservation (rs : List Reservation) (r : Reservation) : List Reservation :=
  if r.request ∈ rs.map Reservation.request then rs else rs ++ [r]

/-- `_finish_live_notional`. -/
def finishNotional (rs : List Reservation) (request : RequestKey) (status : ReservationStatus) :
    List Reservation :=
  rs.map fun r => if r.request = request then { r with status } else r

/-- The notional passes both limits. -/
def Token.allows (t : Token) (used notional : ℚ) : Bool :=
  notional ≤ t.maxOrderNotional ∧ used + notional ≤ t.maxDailyNotional

inductive PlaceLabel
  | tick (seconds : Seconds)
  /-- A request of a token that `agent_required` lets in. -/
  | request (token : ℕ) (key requestHash : String) (quantity : ℚ)
  | claimKey (call : ℕ)
  | lookupJob (call : ℕ)
  | reserve (call : ℕ) (referencePrice : ℚ)
  | insert (call : ℕ)
  /-- An exception inside the dispatch, which `place_order` catches. -/
  | raises (call : ℕ)
  /-- `_finish_live_notional`, with the status the call has come to. -/
  | finish (call : ℕ)
  /-- An early answer, or an exception that `agent_required` turns into one. -/
  | answers (call : ℕ)
  | recordJob (call : ℕ)
  /-- `_complete_idempotency`. -/
  | complete (call : ℕ)
  /-- The process stops. -/
  | stops (call : ℕ)
  deriving DecidableEq, Repr

namespace AgentState

variable (s : AgentState)

def setCall (i : ℕ) (c : PlaceCall) (phase : CallPhase) : AgentState :=
  { s with calls := s.calls.set i { c with phase } }

/-- The reservation of a fresh call, when there is a price. -/
def reserveNotional (i : ℕ) (c : PlaceCall) (referencePrice : ℚ) : AgentState :=
  let notional := c.quantity * referencePrice
  let passes := 0 < referencePrice ∧
    (s.tokens[c.request.token]?).any fun t => t.allows (s.used c.request.token (utcDay s.clock)) notional
  if passes then
    { s.setCall i c (.reserved ⟨notional, s.clock⟩) with
      reservations := insertReservation s.reservations
        { request := c.request, notional := decimal8 notional, createdAt := s.clock } }
  else s.setCall i c .answered

def insertOrder (i : ℕ) (c : PlaceCall) (hold : Hold) : AgentState :=
  { s.setCall i c .queued with
    orders := s.orders ++
      [{ token := c.request.token, notional := hold.notional, createdAt := s.clock,
         updatedAt := s.clock }] }

def finish (i : ℕ) (c : PlaceCall) (status : ReservationStatus) (phase : CallPhase) : AgentState :=
  { s.setCall i c phase with reservations := finishNotional s.reservations c.request status }

end AgentState

/-- What a label does to the call it names, in the phase it needs. -/
def callStep (staleAfter : Seconds) (s : AgentState) (i : ℕ) (c : PlaceCall) :
    PlaceLabel → Option AgentState
  | .claimKey _ =>
    match c.phase with
    | .letIn =>
      match claimKey staleAfter s.clock c.requestHash (s.idempotency.get? c.request) with
      | some row =>
        some { s.setCall i c .keyed with idempotency := s.idempotency.set c.request row }
      | none => some (s.setCall i c .ended)
    | _ => none
  | .lookupJob _ =>
    match c.phase with
    | .keyed => some (s.setCall i c (if c.request ∈ s.jobs then .answered else .fresh))
    | _ => none
  | .reserve _ referencePrice =>
    match c.phase with
    | .fresh => some (s.reserveNotional i c referencePrice)
    | _ => none
  | .insert _ =>
    match c.phase with
    | .reserved hold => some (s.insertOrder i c hold)
    | _ => none
  | .raises _ =>
    match c.phase with
    | .reserved hold => some (s.setCall i c (.raised hold))
    | .queued => some (s.setCall i c .raisedQueued)
    | _ => none
  | .finish _ =>
    match c.phase with
    | .raised _ | .raisedQueued => some (s.finish i c .failed .answered)
    | .queued => some (s.finish i c .executed .executed)
    | _ => none
  | .answers _ =>
    match c.phase with
    | .keyed | .fresh | .raised _ | .queued | .raisedQueued | .executed =>
      some (s.setCall i c .answered)
    | _ => none
  | .recordJob _ =>
    match c.phase with
    | .executed => some { s.setCall i c .answered with jobs := c.request :: s.jobs }
    | _ => none
  | .complete _ =>
    match c.phase, s.idempotency.get? c.request with
    | .answered, some row =>
      some { s.setCall i c .ended with
        idempotency :=
          s.idempotency.set c.request { row with status := .completed, updatedAt := s.clock } }
    | _, _ => none
  | .stops _ => some (s.setCall i c .ended)
  | .tick _ | .request .. => none

/-- The call a label is about. -/
def PlaceLabel.call : PlaceLabel → Option ℕ
  | tick _ | request .. => none
  | claimKey i | lookupJob i | reserve i _ | insert i | raises i | finish i | answers i | recordJob i
  | complete i | stops i => some i

def placeStep (staleAfter : Seconds) (s : AgentState) (l : PlaceLabel) : Option AgentState :=
  match l with
  | .tick seconds => some { s with clock := s.clock + seconds }
  | .request token key requestHash quantity =>
    if (s.tokens[token]?).any Token.letIn ∧ 0 < quantity then
      some { s with calls := s.calls ++ [{ request := ⟨token, key⟩, requestHash, quantity }] }
    else none
  | l =>
    l.call.bind fun i => (s.calls[i]?).bind fun c => callStep staleAfter s i c l

end AlgoTrade.Agent
