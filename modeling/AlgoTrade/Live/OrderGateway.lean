import AlgoTrade.Lib.Lists
import AlgoTrade.Lib.Runs
import AlgoTrade.Lib.Text
import Mathlib.Algebra.Order.Ring.Rat
import Mathlib.Data.List.Nodup

/-! # The order gateway of live strategies

`StrategyV2OrderGateway.submit` queues an order under an idempotency key: an intent
row, a lookup of the pending order of the key, an insert `ON CONFLICT DO NOTHING`.

* `submit`, `createIntent`, `insertOrder`: the gateway and what it calls.
* `write`: the writers of the status of a queued order.
* `submit_cases`: the order that is handed back is the key's, or a new one.
* `answersServed_of_noDeadOrder`: no run hands back a dead order, if no request is made
  under the key of one. -/

namespace AlgoTrade.OrderGateway

open Runs

/-! ## Rows -/

inductive PendingStatus
  | pending | processing | sent | syncing | filled | partiallyFilled
  | failed | cancelled | canceled | deferred
  deriving DecidableEq, Repr

inductive IntentStatus
  | intentCreated | submitted | partiallyFilled | filled | cancelled | rejected | failed | ephemeral
  deriving DecidableEq, Repr

structure LiveOrderRequest where
  strategyId : ℤ
  strategyRunId : ℤ
  userId : ℤ
  symbol : String
  action : String
  quantity : ℚ
  referencePrice : ℚ
  signalTimestamp : ℤ
  marketType : String
  executionMode : String
  orderType : String := "market"
  executionAlgo : String := "market"
  limitPrice : ℚ := 0
  clientOrderId : String := ""
  deriving DecidableEq, Repr

/-- A row of `strategy_order_intents`. -/
structure IntentRow where
  id : ℕ
  strategyRunId : ℤ
  idempotencyKey : String
  status : IntentStatus
  deriving DecidableEq, Repr

/-- A row of `pending_orders`; the request is its payload. -/
structure PendingRow where
  id : ℕ
  idempotencyKey : String
  orderIntentId : ℕ
  status : PendingStatus
  request : LiveOrderRequest
  deriving DecidableEq, Repr

/-- The two tables and their id sequences. -/
structure Queue where
  intents : List IntentRow := []
  pending : List PendingRow := []
  nextIntent : ℕ := 1
  nextPending : ℕ := 1
  deriving DecidableEq, Repr

/-- The statements that the database fails. -/
structure Faults where
  lookup : Bool := false
  intent : Bool := false
  order : Bool := false
  deriving DecidableEq, Repr

/-! ## Algorithm -/

namespace LiveOrderRequest

def longActions : List String := ["open_long", "add_long", "reduce_long", "close_long"]

def shortActions : List String := ["open_short", "add_short", "reduce_short", "close_short"]

/-- `_validate`. -/
def validate (request : LiveOrderRequest) : Except String Unit :=
  let isCloseAll :=
    (request.action = "close_long" ∨ request.action = "close_short") ∧ request.quantity = 0
  if request.strategyId ≤ 0 ∨ request.userId ≤ 0 then .error "strategyV2.invalidRuntimeIdentity"
  else if request.strategyRunId ≤ 0 then .error "strategyV2.invalidRunIdentity"
  else if request.symbol = "" then .error "strategyV2.orderSymbolRequired"
  else if request.action ∉ longActions ++ shortActions then .error "strategyV2.orderActionUnsupported"
  else if (request.quantity ≤ 0 ∧ ¬ isCloseAll) ∨ request.referencePrice ≤ 0 then
    .error "strategyV2.invalidOrderSize"
  else if request.executionMode ∉ ["signal", "live"] then .error "strategyV2.invalidExecutionMode"
  else if request.marketType = "spot" ∧ request.action ∈ shortActions then
    .error "strategyV2.spotShortUnsupported"
  else if request.orderType ∉ ["market", "limit"] then .error "strategyV2.orderTypeUnsupported"
  else if request.executionAlgo ∉ ["market", "limit", "maker_then_market"] then
    .error "strategyV2.executionAlgoUnsupported"
  else if request.executionAlgo = "limit" ∧ request.limitPrice ≤ 0 then
    .error "strategyV2.limitPriceRequired"
  else .ok ()

/-- The head of both kinds of key. -/
def keyHead (request : LiveOrderRequest) : String :=
  "run:" ++ toString request.strategyRunId ++ ":strategy:" ++ toString request.strategyId ++ ":"

def buildSignalIdempotencyKey (request : LiveOrderRequest) : String :=
  Text.take (request.keyHead ++ request.symbol ++ ":" ++ request.action ++ ":" ++
    toString request.signalTimestamp) 180

/-- The `key` of `submit`. -/
def idempotencyKey (request : LiveOrderRequest) : String :=
  let clientOrderId := Text.take (Text.strip request.clientOrderId) 100
  Text.take
    (if clientOrderId ≠ "" then request.keyHead ++ "client:" ++ clientOrderId
      else request.buildSignalIdempotencyKey) 180

end LiveOrderRequest

structure OrderIntent where
  id : ℕ
  status : IntentStatus
  existing : Bool
  deriving DecidableEq, Repr

namespace Queue

def intentRow (q : Queue) (strategyRunId : ℤ) (key : String) : Option IntentRow :=
  q.intents.find? fun row => row.strategyRunId = strategyRunId ∧ row.idempotencyKey = key

def getByKey (q : Queue) (strategyRunId : ℤ) (key : String) (faults : Faults) :
    Option OrderIntent :=
  if faults.lookup then none
  else (q.intentRow strategyRunId key).map fun row => ⟨row.id, row.status, true⟩

/-- The `INSERT` of `create_intent`; a row in the way is read instead. -/
def insertIntent (q : Queue) (strategyRunId : ℤ) (key : String) : OrderIntent × Queue :=
  match q.intentRow strategyRunId key with
  | some row => (⟨row.id, row.status, true⟩, { q with nextIntent := q.nextIntent + 1 })
  | none =>
    (⟨q.nextIntent, .intentCreated, false⟩,
      { q with
        intents := q.intents ++ [⟨q.nextIntent, strategyRunId, key, .intentCreated⟩]
        nextIntent := q.nextIntent + 1 })

def createIntent (q : Queue) (strategyRunId : ℤ) (idempotencyKey : String) (faults : Faults) :
    Except String (OrderIntent × Queue) :=
  let key := Text.take (Text.strip idempotencyKey) 180
  if key = "" then .error "idempotency_key is required"
  else
    match (q.getByKey strategyRunId key faults).filter fun existing => 0 < existing.id with
    | some existing => .ok (existing, q)
    | none =>
      if faults.intent then .ok (⟨0, .ephemeral, false⟩, q)
      else .ok (q.insertIntent strategyRunId key)

def pendingRow (q : Queue) (key : String) : Option PendingRow :=
  q.pending.find? fun row => row.idempotencyKey = key

/-- `_pending_id`. -/
def pendingId (q : Queue) (key : String) : Option ℕ := (q.pendingRow key).map PendingRow.id

/-- The `INSERT … ON CONFLICT (idempotency_key) DO NOTHING RETURNING id`. -/
def insertOrder (q : Queue) (key : String) (intentId : ℕ) (request : LiveOrderRequest) :
    Option ℕ × Queue :=
  match q.pendingRow key with
  | some _ => (none, { q with nextPending := q.nextPending + 1 })
  | none =>
    (some q.nextPending,
      { q with
        pending := q.pending ++ [⟨q.nextPending, key, intentId, .pending, request⟩]
        nextPending := q.nextPending + 1 })

/-- The order of the key that an intent row speaks for. -/
def knownOrder (q : Queue) (intent : OrderIntent) (key : String) : Option ℕ :=
  if intent.existing ∧ intent.status ∉ [.failed, .cancelled, .rejected] then q.pendingId key
  else none

/-- `submit`, after the intent. -/
def queueOrder (q : Queue) (intent : OrderIntent) (request : LiveOrderRequest) (faults : Faults) :
    Except String (Option ℕ) × Queue :=
  let key := request.idempotencyKey
  match q.knownOrder intent key with
  | some id => (.ok (some id), q)
  | none =>
    if intent.id = 0 then (.error "strategyV2.orderIntentPersistenceFailed", q)
    else if faults.order then (.error "database", q)
    else
      let (inserted, q') := q.insertOrder key intent.id request
      (.ok (inserted.or (q'.pendingId key)), q')

def submit (q : Queue) (request : LiveOrderRequest) (faults : Faults) :
    Except String (Option ℕ) × Queue :=
  match request.validate with
  | .error e => (.error e, q)
  | .ok () =>
    match q.createIntent request.strategyRunId request.idempotencyKey faults with
    | .error e => (.error e, q)
    | .ok (intent, q') => q'.queueOrder intent request faults

end Queue

/-! ## Writers of a status -/

/-- A write to the status of a queued order, with the fill it reports. -/
inductive OrderWrite
  | markProcessing
  | requeueStaleProcessing
  | deadLetter
  | claimSent
  | requeueStaleSync
  | markSent (filled : ℚ) (finalFilled : Bool)
  | alpacaSnapshot (status : PendingStatus) (filled : ℚ)
  | liveSnapshot (status : PendingStatus) (filled : ℚ)
  | paperFill (status : PendingStatus)
  | streamFilled
  | markFailed
  | markDeferred
  | cancelOrder
  deriving DecidableEq, Repr

namespace OrderWrite

def pendingStatus (status : PendingStatus) : OrderWrite → PendingStatus
  | markProcessing => if status = .pending then .processing else status
  | requeueStaleProcessing => if status = .processing then .pending else status
  | deadLetter => if status = .pending ∨ status = .processing then .failed else status
  | claimSent => if status = .sent ∨ status = .filled then .syncing else status
  | requeueStaleSync => if status = .syncing then .sent else status
  | markSent _ finalFilled => if status = .filled ∨ finalFilled then .filled else .sent
  | alpacaSnapshot status' _ => status'
  | liveSnapshot status' _ => status'
  | paperFill status' => status'
  | streamFilled => if status = .failed ∨ status = .cancelled then status else .filled
  | markFailed => .failed
  | markDeferred => .deferred
  | cancelOrder => if status = .pending then .canceled else status

def filledStatus (filled : ℚ) : IntentStatus :=
  if 0 < filled then .partiallyFilled else .submitted

/-- The status that the order's intent gets, if the same transaction sets it. -/
def intentStatus : OrderWrite → Option IntentStatus
  | markSent filled finalFilled => some (if finalFilled then .filled else filledStatus filled)
  | alpacaSnapshot status filled =>
    some
      (if status = .filled then .filled
        else if status = .failed then .rejected
        else if status = .cancelled then .cancelled
        else filledStatus filled)
  | liveSnapshot status filled =>
    some
      (if status = .filled then .filled
        else if status = .cancelled then .cancelled
        else filledStatus filled)
  | markFailed => some .rejected
  | _ => none

end OrderWrite

namespace Queue

def setIntent (q : Queue) (intentId : ℕ) (status : IntentStatus) : Queue :=
  { q with
    intents := q.intents.map fun row => if row.id = intentId then { row with status } else row }

def write (q : Queue) (id : ℕ) (w : OrderWrite) : Queue :=
  let q' :=
    { q with
      pending := q.pending.map fun row =>
        if row.id = id then { row with status := w.pendingStatus row.status } else row }
  match q.pending.find? (fun row => row.id = id), w.intentStatus with
  | some row, some status => q'.setIntent row.orderIntentId status
  | _, _ => q'

/-- The fill record of an intent. -/
def recordFill (q : Queue) (intentId : ℕ) (quantity : ℚ) : Queue :=
  if 0 < quantity then q.setIntent intentId .partiallyFilled else q

/-- The dashboard's `DELETE`. -/
def deleteOrder (q : Queue) (id : ℕ) : Queue :=
  { q with
    pending := q.pending.filter fun row => ¬ (row.id = id ∧ row.status ≠ .processing) }

end Queue

/-! ## Runs -/

inductive Act
  | submit (request : LiveOrderRequest) (faults : Faults)
  | write (id : ℕ) (w : OrderWrite)
  | recordFill (intentId : ℕ) (quantity : ℚ)
  | deleteOrder (id : ℕ)
  deriving DecidableEq, Repr

/-- The queue, and the id that the last step handed back to a strategy. -/
structure State where
  queue : Queue := {}
  answer : Option (LiveOrderRequest × ℕ) := none
  deriving DecidableEq, Repr

/-- The id in what `submit` returned. -/
def idOf : Except String (Option ℕ) → Option ℕ
  | .ok id => id
  | .error _ => none

def step (s : State) : Act → Option State
  | .submit request faults =>
    let (result, queue) := s.queue.submit request faults
    some { queue, answer := (idOf result).map fun id => (request, id) }
  | .write id w => some { queue := s.queue.write id w }
  | .recordFill intentId quantity => some { queue := s.queue.recordFill intentId quantity }
  | .deleteOrder id => some { queue := s.queue.deleteOrder id }

/-! ## Statement -/

/-- What the strategy asked for, without the price and time it asked at. -/
structure StrategyIntent where
  strategyId : ℤ
  strategyRunId : ℤ
  reference : String
  symbol : String
  action : String
  quantity : ℚ
  marketType : String
  orderType : String
  executionAlgo : String
  limitPrice : ℚ
  deriving DecidableEq, Repr

def LiveOrderRequest.intent (r : LiveOrderRequest) : StrategyIntent :=
  { strategyId := r.strategyId, strategyRunId := r.strategyRunId
    reference := r.clientOrderId, symbol := r.symbol, action := r.action, quantity := r.quantity
    marketType := r.marketType, orderType := r.orderType, executionAlgo := r.executionAlgo
    limitPrice := r.limitPrice }

def PendingStatus.live : List PendingStatus := [.pending, .processing, .sent]

def PendingStatus.executed : List PendingStatus := [.filled, .partiallyFilled]

/-- The order is live, or was executed for this very intent. -/
def Serves (request : LiveOrderRequest) (row : PendingRow) : Prop :=
  row.status ∈ PendingStatus.live ∨
    (row.status ∈ PendingStatus.executed ∧ row.request.intent = request.intent)

instance (request : LiveOrderRequest) (row : PendingRow) : Decidable (Serves request row) :=
  inferInstanceAs (Decidable (_ ∨ (_ ∧ _)))

/-- The id that was handed back is the id of an order that serves the request. -/
def AnswerServed (s : State) : Prop :=
  ∀ answer ∈ s.answer,
    ∃ row ∈ s.queue.pending.find? fun row => row.id = answer.2, Serves answer.1 row

/-- No request is made under the key of an order that is dead, or that was executed for
another intent. -/
def NoDeadOrder (s : State) : Act → Prop
  | .submit request _ =>
    ∀ row ∈ s.queue.pending, row.idempotencyKey = request.idempotencyKey → Serves request row
  | _ => True

instance (s : State) : ∀ a, Decidable (NoDeadOrder s a)
  | .submit .. => inferInstanceAs (Decidable (∀ _ ∈ _, _ → _))
  | .write .. | .recordFill .. | .deleteOrder .. => inferInstanceAs (Decidable True)

instance (s : State) : Decidable (AnswerServed s) := by
  unfold AnswerServed
  infer_instance

/-! ## What a request does to the queue -/

section
variable {q q' : Queue} {request : LiveOrderRequest} {faults : Faults}

theorem insertIntent_pending (runId : ℤ) (key : String) :
    (q.insertIntent runId key).2.pending = q.pending ∧
      (q.insertIntent runId key).2.nextPending = q.nextPending := by
  unfold Queue.insertIntent
  split <;> exact ⟨rfl, rfl⟩

/-- An intent leaves the orders alone. -/
theorem createIntent_pending {runId : ℤ} {key : String} {intent : OrderIntent}
    (h : q.createIntent runId key faults = .ok (intent, q')) :
    q'.pending = q.pending ∧ q'.nextPending = q.nextPending := by
  unfold Queue.createIntent at h
  dsimp only at h
  split at h
  · cases h
  · split at h
    · cases h
      exact ⟨rfl, rfl⟩
    · split at h
      · cases h
        exact ⟨rfl, rfl⟩
      · have hq : (q.insertIntent runId (Text.take (Text.strip key) 180)).2 = q' :=
          congrArg Prod.snd (Except.ok.inj h)
        rw [← hq]
        exact insertIntent_pending _ _

/-- The orders are as they were, and the id that is handed back is the one of the key. -/
structure Kept (q : Queue) (request : LiveOrderRequest) (id : Option ℕ) (q' : Queue) : Prop where
  pending : q'.pending = q.pending
  next : q.nextPending ≤ q'.nextPending
  id : ∀ i ∈ id, ∃ row, q.pendingRow request.idempotencyKey = some row ∧ row.id = i

/-- A new order is queued under a key that had none. -/
structure Queued (q : Queue) (request : LiveOrderRequest) (id : Option ℕ) (q' : Queue) : Prop where
  free : q.pendingRow request.idempotencyKey = none
  pending : ∃ intentId, q'.pending =
    q.pending ++ [⟨q.nextPending, request.idempotencyKey, intentId, .pending, request⟩]
  next : q'.nextPending = q.nextPending + 1
  id : id = some q.nextPending

variable (q request faults) in
theorem queueOrder_cases (intent : OrderIntent) :
    Kept q request (idOf (q.queueOrder intent request faults).1)
        (q.queueOrder intent request faults).2 ∨
      Queued q request (idOf (q.queueOrder intent request faults).1)
        (q.queueOrder intent request faults).2 := by
  have hnone : Kept q request none q := ⟨rfl, le_rfl, fun i hi => nomatch hi⟩
  unfold Queue.queueOrder
  dsimp only
  split
  next id hid =>
    refine .inl ⟨rfl, le_rfl, fun i hi => ?_⟩
    obtain rfl := Option.some.inj hi
    unfold Queue.knownOrder at hid
    split at hid
    · obtain ⟨row, hrow, hid⟩ := Option.map_eq_some_iff.mp hid
      exact ⟨row, hrow, hid⟩
    · cases hid
  next =>
    split
    · exact .inl hnone
    split
    · exact .inl hnone
    · unfold Queue.insertOrder
      split
      next row hrow =>
        refine .inl ⟨rfl, Nat.le_succ _, fun i hi => ⟨row, hrow, ?_⟩⟩
        have hsame : ({ q with nextPending := q.nextPending + 1 } : Queue).pendingId
            request.idempotencyKey = some row.id := by
          unfold Queue.pendingId
          exact congrArg (Option.map PendingRow.id) hrow
        rw [Option.none_or, hsame] at hi
        exact Option.some.inj hi
      next hrow => exact .inr ⟨hrow, ⟨intent.id, rfl⟩, rfl, rfl⟩

variable (q request faults) in
/-- **The intent's status does not matter.**  `submit` hands back the order that holds
the key, whatever its status, and queues a new one only under a free key. -/
theorem submit_cases :
    Kept q request (idOf (q.submit request faults).1) (q.submit request faults).2 ∨
      Queued q request (idOf (q.submit request faults).1) (q.submit request faults).2 := by
  have hnone : Kept q request none q := ⟨rfl, le_rfl, fun i hi => nomatch hi⟩
  unfold Queue.submit
  split
  · exact .inl hnone
  split
  · exact .inl hnone
  next intent q₁ hintent =>
    obtain ⟨hpending, hnext⟩ := createIntent_pending hintent
    have hrow : q₁.pendingRow = q.pendingRow := by
      funext key
      unfold Queue.pendingRow
      rw [hpending]
    rcases queueOrder_cases q₁ request faults intent with h | h
    · refine .inl ⟨h.pending.trans hpending, hnext ▸ h.next, ?_⟩
      simpa only [hrow] using h.id
    · refine .inr ⟨hrow ▸ h.free, ?_, hnext ▸ h.next, hnext ▸ h.id⟩
      simpa only [hpending, hnext] using h.pending

end

/-! ## Invariant -/

/-- Ids and keys of the queued orders are unique. -/
structure Valid (q : Queue) : Prop where
  ids : (q.pending.map PendingRow.id).Nodup
  keys : (q.pending.map PendingRow.idempotencyKey).Nodup
  bound : ∀ row ∈ q.pending, row.id < q.nextPending

section
variable {q q' : Queue} {request : LiveOrderRequest} {id : Option ℕ}

theorem Valid.kept (h : Valid q) (hk : Kept q request id q') : Valid q' := by
  obtain ⟨hpending, hnext, -⟩ := hk
  refine ⟨hpending ▸ h.ids, hpending ▸ h.keys, fun row hrow => ?_⟩
  exact (h.bound row (hpending ▸ hrow)).trans_le hnext

theorem Valid.queued (h : Valid q) (hk : Queued q request id q') : Valid q' := by
  obtain ⟨hfree, ⟨intentId, hpending⟩, hnext, -⟩ := hk
  refine ⟨?_, ?_, ?_⟩
  · rw [hpending, List.map_append, List.map_singleton, ← List.concat_eq_append]
    refine List.Nodup.concat (fun hmem => ?_) h.ids
    obtain ⟨row, hrow, hid⟩ := List.mem_map.mp hmem
    exact absurd hid (h.bound row hrow).ne
  · rw [hpending, List.map_append, List.map_singleton, ← List.concat_eq_append]
    refine List.Nodup.concat (fun hmem => ?_) h.keys
    obtain ⟨row, hrow, hkey⟩ := List.mem_map.mp hmem
    exact absurd (decide_eq_true hkey) (List.find?_eq_none.mp hfree row hrow)
  · intro row hrow
    rw [hpending] at hrow
    rw [hnext]
    rcases List.mem_append.mp hrow with hrow | hrow
    · exact (h.bound row hrow).trans (Nat.lt_succ_self _)
    · obtain rfl := List.mem_singleton.mp hrow
      exact Nat.lt_succ_self _

/-- Writes that keep ids and keys. -/
theorem Valid.of_map {f : PendingRow → PendingRow} (h : Valid q)
    (hid : ∀ row, (f row).id = row.id) (hkey : ∀ row, (f row).idempotencyKey = row.idempotencyKey)
    (hpending : q'.pending = q.pending.map f) (hnext : q'.nextPending = q.nextPending) :
    Valid q' := by
  refine ⟨?_, ?_, ?_⟩
  · rw [hpending, List.map_map, show PendingRow.id ∘ f = PendingRow.id from funext hid]
    exact h.ids
  · rw [hpending, List.map_map,
      show PendingRow.idempotencyKey ∘ f = PendingRow.idempotencyKey from funext hkey]
    exact h.keys
  · intro row hrow
    rw [hpending] at hrow
    obtain ⟨old, hold, rfl⟩ := List.mem_map.mp hrow
    rw [hid, hnext]
    exact h.bound old hold

theorem Valid.write (h : Valid q) (i : ℕ) (w : OrderWrite) : Valid (q.write i w) := by
  have hmap : ∃ f : PendingRow → PendingRow, (∀ row, (f row).id = row.id) ∧
      (∀ row, (f row).idempotencyKey = row.idempotencyKey) ∧
      (q.write i w).pending = q.pending.map f ∧ (q.write i w).nextPending = q.nextPending := by
    refine ⟨fun row => if row.id = i then { row with status := w.pendingStatus row.status } else row,
      fun row => ?_, fun row => ?_, ?_, ?_⟩
    · dsimp only
      split <;> rfl
    · dsimp only
      split <;> rfl
    · unfold Queue.write
      dsimp only
      split <;> rfl
    · unfold Queue.write
      dsimp only
      split <;> rfl
  obtain ⟨f, hid, hkey, hpending, hnext⟩ := hmap
  exact h.of_map hid hkey hpending hnext

theorem Valid.recordFill (h : Valid q) (i : ℕ) (quantity : ℚ) :
    Valid (q.recordFill i quantity) := by
  unfold Queue.recordFill
  split
  · exact ⟨h.ids, h.keys, h.bound⟩
  · exact h

theorem Valid.deleteOrder (h : Valid q) (i : ℕ) : Valid (q.deleteOrder i) := by
  have hsub : (q.deleteOrder i).pending.Sublist q.pending := List.filter_sublist
  exact ⟨h.ids.sublist (hsub.map _), h.keys.sublist (hsub.map _),
    fun row hrow => h.bound row (hsub.subset hrow)⟩

end

/-! ## One step -/

section
variable {s s' : State} {a : Act}

theorem step_submit (s : State) (request : LiveOrderRequest) (faults : Faults) :
    step s (.submit request faults) =
      some
        { queue := (s.queue.submit request faults).2
          answer := (idOf (s.queue.submit request faults).1).map fun id => (request, id) } :=
  rfl

theorem valid_step (h : Valid s.queue) (hs : step s a = some s') : Valid s'.queue := by
  cases a with
  | submit request faults =>
    obtain rfl := Option.some.inj hs
    rcases submit_cases s.queue request faults with hk | hk
    · exact h.kept hk
    · exact h.queued hk
  | write i w =>
    obtain rfl := Option.some.inj hs
    exact h.write i w
  | recordFill i quantity =>
    obtain rfl := Option.some.inj hs
    exact h.recordFill i quantity
  | deleteOrder i =>
    obtain rfl := Option.some.inj hs
    exact h.deleteOrder i

theorem mem_of_pendingRow {q : Queue} {key : String} {row : PendingRow}
    (h : q.pendingRow key = some row) : row ∈ q.pending ∧ row.idempotencyKey = key := by
  unfold Queue.pendingRow at h
  exact ⟨List.mem_of_find?_eq_some h, by simpa using List.find?_some h⟩

/-- With unique ids, the row of an id is what a search for it finds. -/
theorem find?_id {q : Queue} {row : PendingRow} (h : Valid q) (hrow : row ∈ q.pending) :
    q.pending.find? (fun r => r.id = row.id) = some row := by
  obtain ⟨found, hfound⟩ := Option.isSome_iff_exists.mp
    (List.find?_isSome.mpr ⟨row, hrow, decide_eq_true rfl⟩ :
      (q.pending.find? fun r => r.id = row.id).isSome = true)
  have hid : found.id = row.id := by simpa using List.find?_some hfound
  have hmem : found ∈ q.pending := List.mem_of_find?_eq_some hfound
  rw [hfound, List.inj_on_of_nodup_map h.ids hmem hrow hid]

/-- What a request hands back serves it exactly when the key's order does, if it has one. -/
theorem answerServed_submit {request : LiveOrderRequest} {faults : Faults} (h : Valid s.queue)
    (hs : step s (.submit request faults) = some s') (hanswer : s'.answer.isSome = true) :
    AnswerServed s' ↔ NoDeadOrder s (.submit request faults) := by
  have hvalid := valid_step h hs
  obtain rfl := Option.some.inj (step_submit .. ▸ hs)
  obtain ⟨⟨r, i⟩, hi⟩ := Option.isSome_iff_exists.mp hanswer
  obtain ⟨i', hid, hpair⟩ := Option.map_eq_some_iff.mp hi
  obtain ⟨rfl, rfl⟩ := Prod.mk.inj hpair
  have hserved : ∀ row ∈ (s.queue.submit request faults).2.pending, row.id = i' →
      (AnswerServed { queue := (s.queue.submit request faults).2, answer := some (request, i') } ↔
        Serves request row) := by
    rintro row hrow rfl
    have hfind := find?_id hvalid hrow
    constructor
    · intro hall
      obtain ⟨found, hfound, hserves⟩ := hall _ rfl
      obtain rfl := Option.some.inj (hfind.symm.trans hfound)
      exact hserves
    · rintro hserves answer hanswer
      obtain rfl := Option.some.inj hanswer
      exact ⟨row, hfind, hserves⟩
  dsimp only at hi
  rw [hi]
  rcases submit_cases s.queue request faults with hk | hk
  · obtain ⟨row, hrow, hrowId⟩ := hk.id i' hid
    obtain ⟨hmem, hkey⟩ := mem_of_pendingRow hrow
    rw [hserved row (hk.pending ▸ hmem) hrowId]
    refine ⟨fun hserves other hother hotherKey => ?_, fun hall => hall row hmem hkey⟩
    rwa [List.inj_on_of_nodup_map h.keys hother hmem (hotherKey.trans hkey.symm)]
  · obtain ⟨intentId, hpending⟩ := hk.pending
    have hnew : i' = s.queue.nextPending := Option.some.inj (hid.symm.trans hk.id)
    have hmem : (⟨s.queue.nextPending, request.idempotencyKey, intentId, .pending, request⟩ :
        PendingRow) ∈ (s.queue.submit request faults).2.pending := by simp [hpending]
    rw [hserved _ hmem hnew.symm]
    refine ⟨fun _ other hother hotherKey => ?_, fun _ => .inl (by simp [PendingStatus.live])⟩
    exact absurd (decide_eq_true hotherKey) (List.find?_eq_none.mp hk.free other hother)

theorem answerServed_step (h : Valid s.queue) (hok : NoDeadOrder s a) (hs : step s a = some s') :
    AnswerServed s' := by
  cases a with
  | submit request faults =>
    by_cases hanswer : s'.answer.isSome = true
    · exact (answerServed_submit h hs hanswer).mpr hok
    · intro answer hmem
      exact absurd (Option.isSome_iff_exists.mpr ⟨answer, hmem⟩) hanswer
  | write | recordFill | deleteOrder =>
    obtain rfl := Option.some.inj hs
    exact fun answer hmem => nomatch hmem

end

/-! ## Main results -/

/-- **No dead order is handed back**, in any state of a run whose requests are all made
under a key that no dead order holds. -/
theorem answersServed_of_noDeadOrder {q : Queue} {acts : List Act} {t : State} (hq : Valid q)
    (hok : AllSteps step NoDeadOrder { queue := q } acts)
    (hrun : run step { queue := q } acts = some t) : AnswerServed t := by
  have hstart : Valid ({ queue := q } : State).queue ∧ AnswerServed { queue := q } :=
    ⟨hq, fun answer hmem => nomatch hmem⟩
  have hstep : ∀ s a s', Valid s.queue ∧ AnswerServed s → NoDeadOrder s a → step s a = some s' →
      Valid s'.queue ∧ AnswerServed s' := fun _ _ _ hinv hok hs =>
    ⟨valid_step hinv.1 hs, answerServed_step hinv.1 hok hs⟩
  exact (run_invariant_of_allSteps hstep hstart hok hrun).2

/-- A market order with a reference of its own. -/
def sampleRequest : LiveOrderRequest :=
  { strategyId := 7, strategyRunId := 42, userId := 12, symbol := "BTC/USDT", action := "open_long"
    quantity := 1 / 100, referencePrice := 60000, signalTimestamp := 123, marketType := "swap"
    executionMode := "live", clientOrderId := "entry-1" }

theorem sampleRequest_valid : sampleRequest.validate = .ok () := by decide +kernel

theorem sampleRequest_key :
    sampleRequest.idempotencyKey = "run:42:strategy:7:client:entry-1" := by decide +kernel

theorem sampleRequest_intentKey :
    Text.take (Text.strip "run:42:strategy:7:client:entry-1") 180 =
      "run:42:strategy:7:client:entry-1" := by decide +kernel

/-- The tables with the sample order in them. -/
def oneOrder (intent : IntentStatus) (order : PendingStatus) : Queue :=
  { intents := [⟨1, 42, "run:42:strategy:7:client:entry-1", intent⟩]
    pending := [⟨1, "run:42:strategy:7:client:entry-1", 1, order, sampleRequest⟩]
    nextIntent := 2
    nextPending := 2 }

theorem step_firstSubmit : step {} (.submit sampleRequest {}) =
    some { queue := oneOrder .intentCreated .pending, answer := some (sampleRequest, 1) } := by
  have hrun : sampleRequest.strategyRunId = 42 := rfl
  simp [step_submit, Queue.submit, sampleRequest_valid, sampleRequest_key, Queue.createIntent,
    sampleRequest_intentKey, hrun, Queue.getByKey, Queue.intentRow, Queue.insertIntent,
    Queue.queueOrder, Queue.knownOrder, Queue.insertOrder, Queue.pendingRow, idOf, oneOrder]

theorem step_secondSubmit (intent : IntentStatus) (order : PendingStatus) :
    ∃ next, step { queue := oneOrder intent order } (.submit sampleRequest {}) =
      some
        { queue := { oneOrder intent order with nextPending := next }
          answer := some (sampleRequest, 1) } := by
  have hrun : sampleRequest.strategyRunId = 42 := rfl
  cases intent <;>
    simp [step_submit, Queue.submit, sampleRequest_valid, sampleRequest_key, Queue.createIntent,
      sampleRequest_intentKey, hrun, Queue.getByKey, Queue.intentRow, Option.filter,
      Queue.queueOrder, Queue.knownOrder, Queue.insertOrder, Queue.pendingRow, Queue.pendingId,
      idOf, oneOrder]

theorem step_write (intent : IntentStatus) (order : PendingStatus) (w : OrderWrite)
    {a : Option (LiveOrderRequest × ℕ)} :
    step { queue := oneOrder intent order, answer := a } (.write 1 w) =
      some { queue := oneOrder (w.intentStatus.getD intent) (w.pendingStatus order) } := by
  cases h : w.intentStatus <;>
    simp [step, Queue.write, oneOrder, h, Queue.setIntent]

/-- The order is sent, and the strategy asks again under its reference. -/
theorem answersServed_resubmission :
    ∃ t, run step {} [.submit sampleRequest {}, .write 1 (.markSent 0 false),
        .submit sampleRequest {}] = some t ∧
      t.answer = some (sampleRequest, 1) ∧ AnswerServed t := by
  have hempty : Valid {} := ⟨List.nodup_nil, List.nodup_nil, fun row hrow => nomatch hrow⟩
  have hsent := step_write .intentCreated .pending (.markSent 0 false)
    (a := some (sampleRequest, 1))
  obtain ⟨next, hagain⟩ := step_secondSubmit .submitted .sent
  have hrun := run_cons_eq_some.mpr ⟨_, step_firstSubmit, run_cons_eq_some.mpr
    ⟨_, hsent, run_cons_eq_some.mpr ⟨_, hagain, run_nil _⟩⟩⟩
  refine ⟨_, hrun, rfl, answersServed_of_noDeadOrder hempty ?_ hrun⟩
  refine (allSteps_cons step_firstSubmit).mpr ⟨fun row hrow => (nomatch hrow), ?_⟩
  refine (allSteps_cons hsent).mpr ⟨trivial, (allSteps_cons hagain).mpr ⟨?_, trivial⟩⟩
  intro row hrow _
  obtain rfl := List.mem_singleton.mp hrow
  exact .inl (by decide)

/-- The order fails, and the strategy asks again: it is given the failed order. -/
theorem failedOrder_handedBack :
    ∃ t, run step {} [.submit sampleRequest {}, .write 1 .markProcessing, .write 1 .markFailed,
        .submit sampleRequest {}] = some t ∧
      t.answer = some (sampleRequest, 1) ∧
      t.queue.pending.map (fun row => (row.id, row.status)) = [(1, .failed)] ∧
      ¬ AnswerServed t := by
  have hclaimed := step_write .intentCreated .pending .markProcessing (a := some (sampleRequest, 1))
  have hfailed := step_write .intentCreated .processing .markFailed (a := none)
  obtain ⟨next, hagain⟩ := step_secondSubmit .rejected .failed
  have hrun := run_cons_eq_some.mpr ⟨_, step_firstSubmit, run_cons_eq_some.mpr
    ⟨_, hclaimed, run_cons_eq_some.mpr ⟨_, hfailed, run_cons_eq_some.mpr ⟨_, hagain, run_nil _⟩⟩⟩⟩
  refine ⟨_, hrun, rfl, rfl, ?_⟩
  simp [AnswerServed, oneOrder, Serves, PendingStatus.live, PendingStatus.executed]

end AlgoTrade.OrderGateway
