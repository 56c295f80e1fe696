import AlgoTrade.Lib.Casing
import AlgoTrade.Lib.Dict
import AlgoTrade.Lib.Runs
import AlgoTrade.Streams.Normalizers

/-! # The inbox of execution events

The adapters put the events of the exchanges into `qd_execution_events`; a processor in each
process takes them out again, oldest first.

* `ingest`, `pending`, `markProcessed`, `markFailed`: the repository.
* `step`: one call of an adapter or a processor, in any order.
* `step_cases`, `processEvent_cases`: what a call does.
* `Stored`: the rows are in the order of arrival, one to an event, with its fees once. -/

namespace AlgoTrade.Inbox

/-! ## The tables -/

structure FeeComponent where
  currency : String
  amount : ℚ
  feeType : String := "trade"
  source : String := "websocket"
  quoteAmount : Option ℚ := none
  deriving DecidableEq, Repr

/-- An event with the columns that decide its way through the inbox. -/
structure ExecutionEvent where
  eventKey : String
  fees : List FeeComponent := []
  deriving DecidableEq, Repr

/-- The columns of an event row that never change. -/
structure Receipt where
  id : ℕ
  eventKey : String
  receivedAt : ℚ
  deriving DecidableEq, Repr

/-- A row of `qd_execution_events`. -/
structure EventRow extends Receipt where
  processedAt : Option ℚ := none
  processAttempts : ℕ := 0
  processError : String := ""
  deriving DecidableEq, Repr

/-- A row of `qd_execution_fee_components`. -/
structure FeeRow where
  executionEventId : ℕ
  feeType : String
  currency : String
  amount : ℚ
  quoteAmount : Option ℚ
  source : String
  deriving DecidableEq, Repr

structure Database where
  events : List EventRow := []
  feeComponents : List FeeRow := []
  nextId : ℕ := 1
  deriving DecidableEq, Repr

/-! ## The repository -/

section
variable (py : Casing)

/-- The key `ingest` adds components up by. -/
def FeeComponent.key (c : FeeComponent) : String × String :=
  (textOr c.feeType "trade", String.ofList (py.upper c.currency.toList))

/-- A value of `aggregated`. -/
structure FeeTotal where
  amount : ℚ := 0
  quoteAmount : ℚ := 0
  quoteKnown : Bool := true
  source : String
  deriving DecidableEq, Repr

def FeeTotal.add (current : FeeTotal) (c : FeeComponent) : FeeTotal :=
  match c.quoteAmount with
  | none => { current with amount := current.amount + c.amount, quoteKnown := false }
  | some quote =>
    { current with
      amount := current.amount + c.amount
      quoteAmount := current.quoteAmount + quote }

def addComponent (aggregated : Dict (String × String) FeeTotal) (c : FeeComponent) :
    Dict (String × String) FeeTotal :=
  let current := (aggregated.get? (c.key py)).getD { source := textOr c.source "websocket" }
  aggregated.set (c.key py) (current.add c)

def aggregate (fees : List FeeComponent) : Dict (String × String) FeeTotal :=
  fees.foldl (addComponent py) Dict.empty

def FeeTotal.row (total : FeeTotal) (eventId : ℕ) (key : String × String) : FeeRow where
  executionEventId := eventId
  feeType := key.1
  currency := key.2
  amount := total.amount
  quoteAmount := if total.quoteKnown then some total.quoteAmount else none
  source := total.source

def FeeRow.sameFee (row new : FeeRow) : Bool :=
  row.executionEventId = new.executionEventId ∧ row.feeType = new.feeType ∧
    row.currency = new.currency

/-- `INSERT ... ON CONFLICT (execution_event_id, fee_type, currency) DO UPDATE`. -/
def insertFee (rows : List FeeRow) (new : FeeRow) : List FeeRow :=
  if rows.any (·.sameFee new) then
    rows.map fun row =>
      if row.sameFee new then
        { row with
          amount := new.amount
          quoteAmount := new.quoteAmount.or row.quoteAmount
          source := new.source }
      else row
  else rows ++ [new]

/-- `ingest`, with the id it returns.  A conflict uses up an id as well. -/
def ingest (db : Database) (event : ExecutionEvent) (now : ℚ) : Database × Option ℕ :=
  if db.events.any (·.eventKey = event.eventKey) then ({ db with nextId := db.nextId + 1 }, none)
  else
    ({ events := db.events ++ [{ id := db.nextId, eventKey := event.eventKey, receivedAt := now }]
       feeComponents := ((aggregate py event.fees).entries.map fun e => e.2.row db.nextId e.1).foldl
         insertFee db.feeComponents
       nextId := db.nextId + 1 }, some db.nextId)

end

def EventRow.isPending (row : EventRow) : Bool :=
  row.processedAt.isNone && decide (row.processAttempts < 20)

/-- `ORDER BY received_at ASC, id ASC`. -/
def EventRow.Before (a b : EventRow) : Prop :=
  a.receivedAt < b.receivedAt ∨ a.receivedAt = b.receivedAt ∧ a.id ≤ b.id

instance : DecidableRel EventRow.Before := fun _ _ => inferInstanceAs (Decidable (_ ∨ _))

def pending (db : Database) (limit : ℕ) : List EventRow :=
  ((db.events.filter EventRow.isPending).insertionSort EventRow.Before).take limit

/-- `UPDATE ... WHERE id = ...`. -/
def Database.update (db : Database) (id : ℕ) (f : EventRow → EventRow) : Database :=
  { db with events := db.events.map fun row => if row.id = id then f row else row }

def markProcessed (db : Database) (eventId : ℕ) (now : ℚ) : Database :=
  db.update eventId fun row => { row with processedAt := some now, processError := "" }

def markFailed (db : Database) (eventId : ℕ) (error : String) : Database :=
  db.update eventId fun row =>
    { row with processAttempts := row.processAttempts + 1, processError := Text.take error 2000 }

/-! ## The processors -/

/-- What comes of an event a processor takes up. -/
inductive Outcome
  /-- It was projected, now or before, or its owner has no projection. -/
  | projected
  /-- No order of ours is bound to it. -/
  | unbound
  | raised (error : String)
  deriving DecidableEq, Repr

/-- One round of the loop in `process_pending`, and what it adds to `processed`. -/
def processEvent (db : Database) (event : EventRow) (now : ℚ) : Outcome → Database × ℕ
  | .projected => (markProcessed db event.id now, 1)
  | .unbound =>
    let age := now - event.receivedAt
    if 120 ≤ age then (markProcessed db event.id now, 1) else (db, 0)
  | .raised error => (markFailed db event.id error, 0)

/-- A `process_pending` under way: the events it has yet to take up, and `processed`. -/
structure Sweep where
  events : List EventRow
  processed : ℕ := 0
  deriving DecidableEq, Repr

/-- The record of an event that was taken up. -/
structure Handling where
  eventId : ℕ
  outcome : Outcome
  time : ℚ
  deriving DecidableEq, Repr

/-- The database and `n` processors.  What was delivered and handled so far is recorded for
the statements; no call reads it. -/
structure State (n : ℕ) where
  clock : ℚ
  db : Database := {}
  sweeps : Fin n → Option Sweep := fun _ => none
  delivered : List ExecutionEvent := []
  handled : List Handling := []

inductive Action (n : ℕ)
  | ingest (event : ExecutionEvent)
  | start (p : Fin n) (limit : ℕ)
  | process (p : Fin n) (outcome : Outcome)
  | finish (p : Fin n)
  /-- The process ends, or `mark_failed` raises as well. -/
  | abort (p : Fin n)
  deriving DecidableEq, Repr

def act {n : ℕ} (py : Casing) (s : State n) (now : ℚ) : Action n → Option (State n)
  | .ingest event =>
    some { s with db := (ingest py s.db event now).1, delivered := s.delivered ++ [event] }
  | .start p limit =>
    match s.sweeps p with
    | none => some { s with sweeps := Function.update s.sweeps p (some ⟨pending s.db limit, 0⟩) }
    | some _ => none
  | .process p outcome =>
    match s.sweeps p with
    | some ⟨event :: events, processed⟩ =>
      let done := processEvent s.db event now outcome
      some { s with
        db := done.1
        sweeps := Function.update s.sweeps p (some ⟨events, processed + done.2⟩)
        handled := s.handled ++ [⟨event.id, outcome, now⟩] }
    | _ => none
  | .finish p =>
    match s.sweeps p with
    | some ⟨[], _⟩ => some { s with sweeps := Function.update s.sweeps p none }
    | _ => none
  | .abort p =>
    match s.sweeps p with
    | some _ => some { s with sweeps := Function.update s.sweeps p none }
    | none => none

/-- One call at a time of the clock; `none` when it cannot be the next. -/
def step {n : ℕ} (py : Casing) (s : State n) (call : ℚ × Action n) : Option (State n) :=
  if s.clock ≤ call.1 then
    (act py s call.1 call.2).map fun s' => { s' with clock := call.1 }
  else none

/-! ## The calls -/

/-- What each call does. -/
inductive Called {n : ℕ} (py : Casing) (s : State n) (now : ℚ) : Action n → State n → Prop
  | ingest (event : ExecutionEvent) : Called py s now (.ingest event)
      { s with
        clock := now
        db := (ingest py s.db event now).1
        delivered := s.delivered ++ [event] }
  | start (p : Fin n) (limit : ℕ) (hidle : s.sweeps p = none) : Called py s now (.start p limit)
      { s with
        clock := now
        sweeps := Function.update s.sweeps p (some ⟨pending s.db limit, 0⟩) }
  | process (p : Fin n) (outcome : Outcome) (event : EventRow) (events : List EventRow)
      (processed : ℕ) (hsweep : s.sweeps p = some ⟨event :: events, processed⟩) :
      Called py s now (.process p outcome)
        { s with
          clock := now
          db := (processEvent s.db event now outcome).1
          sweeps := Function.update s.sweeps p
            (some ⟨events, processed + (processEvent s.db event now outcome).2⟩)
          handled := s.handled ++ [⟨event.id, outcome, now⟩] }
  | finish (p : Fin n) (processed : ℕ) (hsweep : s.sweeps p = some ⟨[], processed⟩) :
      Called py s now (.finish p)
        { s with clock := now, sweeps := Function.update s.sweeps p none }
  | abort (p : Fin n) (sweep : Sweep) (hsweep : s.sweeps p = some sweep) :
      Called py s now (.abort p)
        { s with clock := now, sweeps := Function.update s.sweeps p none }

section
variable {n : ℕ} {py : Casing} {s s' : State n} {now : ℚ} {a : Action n}

theorem step_cases (h : step py s (now, a) = some s') : s.clock ≤ now ∧ Called py s now a s' := by
  unfold step at h
  split at h
  next hnow =>
    refine ⟨hnow, ?_⟩
    cases a with
    | ingest event =>
      obtain rfl := Option.some.inj h
      exact .ingest event
    | start p limit =>
      simp only [act] at h
      split at h
      next hidle =>
        obtain rfl := Option.some.inj h
        exact .start p limit hidle
      next => cases h
    | process p outcome =>
      simp only [act] at h
      split at h
      next event events processed hsweep =>
        obtain rfl := Option.some.inj h
        exact .process p outcome event events processed hsweep
      next => cases h
    | finish p =>
      simp only [act] at h
      split at h
      next processed hsweep =>
        obtain rfl := Option.some.inj h
        exact .finish p processed hsweep
      next => cases h
    | abort p =>
      simp only [act] at h
      split at h
      next sweep hsweep =>
        obtain rfl := Option.some.inj h
        exact .abort p sweep hsweep
      next => cases h
  next => cases h

/-- An event is marked as processed, left for later, or marked as failed. -/
theorem processEvent_cases (db : Database) (event : EventRow) (now : ℚ) (outcome : Outcome) :
    ((processEvent db event now outcome).1 = markProcessed db event.id now ∧
      (outcome = .projected ∨ outcome = .unbound ∧ event.receivedAt + 120 ≤ now)) ∨
    ((processEvent db event now outcome).1 = db ∧ outcome = .unbound ∧
      now < event.receivedAt + 120) ∨
    ∃ error, outcome = .raised error ∧
      (processEvent db event now outcome).1 = markFailed db event.id error := by
  cases outcome with
  | projected => exact .inl ⟨rfl, .inl rfl⟩
  | raised error => exact .inr (.inr ⟨error, rfl, rfl⟩)
  | unbound =>
    unfold processEvent
    dsimp only
    by_cases hage : 120 ≤ now - event.receivedAt
    · rw [if_pos hage]
      exact .inl ⟨rfl, .inr ⟨rfl, by linarith⟩⟩
    · rw [if_neg hage]
      exact .inr (.inl ⟨rfl, rfl, by linarith⟩)

/-! ## Fees -/

/-- The components of one key, added up. -/
structure FeeTotal.Sums (total : FeeTotal) (components : List FeeComponent) : Prop where
  amount : total.amount = (components.map FeeComponent.amount).sum
  quoteAmount : total.quoteAmount = (components.map fun c => c.quoteAmount.getD 0).sum
  quoteKnown : total.quoteKnown = components.all (·.quoteAmount.isSome)

theorem FeeTotal.Sums.add {total : FeeTotal} {components : List FeeComponent}
    (h : total.Sums components) (c : FeeComponent) : (total.add c).Sums (components ++ [c]) := by
  obtain ⟨hamount, hquote, hknown⟩ := h
  unfold FeeTotal.add
  constructor
  · rw [List.map_append, List.sum_append, ← hamount]
    split <;> simp
  · rw [List.map_append, List.sum_append, ← hquote]
    split
    next hc => simp [hc]
    next quote hc => simp [hc]
  · rw [List.all_append, ← hknown]
    split
    next hc => simp [hc]
    next quote hc => simp [hc]

/-- A key is there when a component has it, and holds the sums of those that do. -/
theorem get?_aggregate (py : Casing) (fees : List FeeComponent) (k : String × String) :
    ((aggregate py fees).get? k = none → fees.filter (·.key py = k) = []) ∧
      ∀ total, (aggregate py fees).get? k = some total →
        total.Sums (fees.filter (·.key py = k)) ∧ fees.filter (·.key py = k) ≠ [] := by
  induction fees using List.reverseRecOn with
  | nil => exact ⟨fun _ => rfl, fun total h => (Option.some_ne_none _ h.symm).elim⟩
  | append_singleton fees c ih =>
    have hlast : aggregate py (fees ++ [c]) = addComponent py (aggregate py fees) c := by
      unfold aggregate
      rw [List.foldl_append]
      rfl
    rw [hlast, List.filter_append, List.filter_singleton]
    unfold addComponent
    dsimp only
    rw [Dict.get?_set]
    by_cases hk : c.key py = k
    · rw [if_pos hk, decide_eq_true hk, cond_true]
      refine ⟨fun h => (Option.some_ne_none _ h).elim, fun total htotal => ⟨?_, by simp⟩⟩
      obtain rfl := Option.some.inj htotal
      apply FeeTotal.Sums.add
      subst hk
      cases hget : (aggregate py fees).get? (c.key py) with
      | none =>
        rw [ih.1 hget]
        exact ⟨rfl, rfl, rfl⟩
      | some total => exact (ih.2 total hget).1
    · rw [if_neg hk, decide_eq_false hk, cond_false, List.append_nil]
      exact ih

theorem nodup_keys_aggregate (py : Casing) (fees : List FeeComponent) :
    (aggregate py fees).keys.Nodup := by
  induction fees using List.reverseRecOn with
  | nil => exact List.nodup_nil
  | append_singleton fees c ih =>
    unfold aggregate
    rw [List.foldl_append]
    exact Dict.nodup_keys_set ih ..

/-- The rows of one event do not conflict. -/
theorem foldl_insertFee (news rows : List FeeRow)
    (hrows : ∀ new ∈ news, ∀ row ∈ rows, ¬ row.sameFee new = true)
    (hnews : news.Pairwise fun a b => ¬ a.sameFee b = true) :
    news.foldl insertFee rows = rows ++ news := by
  induction news generalizing rows with
  | nil => rw [List.foldl_nil, List.append_nil]
  | cons new news ih =>
    obtain ⟨hfirst, hnews⟩ := List.pairwise_cons.mp hnews
    have hinsert : insertFee rows new = rows ++ [new] := by
      unfold insertFee
      rw [if_neg]
      intro hany
      obtain ⟨row, hrow, hsame⟩ := List.any_eq_true.mp hany
      exact hrows new List.mem_cons_self row hrow hsame
    rw [List.foldl_cons, hinsert, ih _ ?_ hnews, List.append_assoc, List.singleton_append]
    intro new' hnew' row hrow
    rcases List.mem_append.mp hrow with hrow | hrow
    · exact hrows new' (List.mem_cons_of_mem _ hnew') row hrow
    · rw [List.mem_singleton.mp hrow]
      exact hfirst new' hnew'

/-! ## What is stored -/

def Database.receipts (db : Database) : List Receipt := db.events.map EventRow.toReceipt

/-- An event delivered has one row, in the order of arrival, with its fees once. -/
structure Stored (py : Casing) (s : State n) : Prop where
  ordered : s.db.receipts.Pairwise fun a b => a.id < b.id ∧ a.receivedAt ≤ b.receivedAt
  known : ∀ r ∈ s.db.receipts, r.id < s.db.nextId ∧ r.receivedAt ≤ s.clock
  keys : (s.db.receipts.map Receipt.eventKey).Nodup
  delivered : ∀ key, key ∈ s.db.receipts.map Receipt.eventKey ↔
    key ∈ s.delivered.map ExecutionEvent.eventKey
  fees : ∀ r ∈ s.db.receipts, ∃ event,
    s.delivered.find? (·.eventKey = r.eventKey) = some event ∧
      s.db.feeComponents.filter (·.executionEventId = r.id) =
        (aggregate py event.fees).entries.map fun e => e.2.row r.id e.1
  feesKnown : ∀ fee ∈ s.db.feeComponents, fee.executionEventId < s.db.nextId

/-- The tables with other marks on the events. -/
structure Database.Marked (db db' : Database) : Prop where
  receipts : db'.receipts = db.receipts
  feeComponents : db'.feeComponents = db.feeComponents
  nextId : db'.nextId = db.nextId

theorem Database.Marked.refl (db : Database) : db.Marked db := ⟨rfl, rfl, rfl⟩

theorem Database.Marked.update (db : Database) (id : ℕ) {f : EventRow → EventRow}
    (hf : ∀ row, (f row).toReceipt = row.toReceipt) : db.Marked (db.update id f) := by
  refine ⟨?_, rfl, rfl⟩
  unfold Database.receipts Database.update
  rw [List.map_map]
  refine List.map_congr_left fun row _ => ?_
  rw [Function.comp_apply]
  split
  · exact hf row
  · rfl

theorem marked_processEvent (db : Database) (event : EventRow) (now : ℚ) (outcome : Outcome) :
    db.Marked (processEvent db event now outcome).1 := by
  rcases processEvent_cases db event now outcome with ⟨h, -⟩ | ⟨h, -⟩ | ⟨error, -, h⟩
  · rw [h]
    exact .update db event.id fun _ => rfl
  · rw [h]
    exact .refl db
  · rw [h]
    exact .update db event.id fun _ => rfl

theorem Stored.mark (h : Stored py s) (hdb : s.db.Marked s'.db) (hclock : s.clock ≤ s'.clock)
    (hdelivered : s'.delivered = s.delivered) : Stored py s' := by
  obtain ⟨hreceipts, hfees, hnext⟩ := hdb
  constructor
  · rw [hreceipts]
    exact h.ordered
  · intro r hr
    rw [hreceipts] at hr
    obtain ⟨hid, htime⟩ := h.known r hr
    rw [hnext]
    exact ⟨hid, htime.trans hclock⟩
  · rw [hreceipts]
    exact h.keys
  · rw [hreceipts, hdelivered]
    exact h.delivered
  · rw [hreceipts, hdelivered, hfees]
    exact h.fees
  · rw [hfees, hnext]
    exact h.feesKnown

/-- Delivering an event again only uses up an id. -/
theorem Stored.again {event : ExecutionEvent} (h : Stored py s)
    (hold : s.db.events.any (·.eventKey = event.eventKey) = true) (hclock : s.clock ≤ now) :
    Stored py { s with
      clock := now
      db := { s.db with nextId := s.db.nextId + 1 }
      delivered := s.delivered ++ [event] } where
  ordered := h.ordered
  known r hr := ⟨(h.known r hr).1.trans (Nat.lt_succ_self _), (h.known r hr).2.trans hclock⟩
  keys := h.keys
  delivered key := by
    rw [List.map_append, List.mem_append, ← h.delivered key, List.map_singleton,
      List.mem_singleton]
    refine ⟨.inl, ?_⟩
    rintro (hkey | rfl)
    · exact hkey
    · obtain ⟨row, hrow, hkey⟩ := List.any_eq_true.mp hold
      exact List.mem_map.mpr ⟨row.toReceipt, List.mem_map_of_mem hrow, of_decide_eq_true hkey⟩
  fees r hr := by
    obtain ⟨first, hfirst, hfees⟩ := h.fees r hr
    exact ⟨first, by rw [List.find?_append, hfirst, Option.some_or], hfees⟩
  feesKnown fee hfee := (h.feesKnown fee hfee).trans (Nat.lt_succ_self _)

theorem pairwise_feeRows (py : Casing) (fees : List FeeComponent) (id : ℕ) :
    ((aggregate py fees).entries.map fun e => e.2.row id e.1).Pairwise
      fun a b => ¬ a.sameFee b = true := by
  have hnodup := nodup_keys_aggregate py fees
  unfold Dict.keys at hnodup
  refine List.pairwise_map.mpr ((List.pairwise_map.mp hnodup).imp fun {a b} hne => ?_)
  intro hsame
  obtain ⟨-, htype, hcurrency⟩ := of_decide_eq_true hsame
  exact hne (Prod.ext htype hcurrency)

theorem Stored.new {event : ExecutionEvent} (h : Stored py s)
    (hnew : ¬ s.db.events.any (·.eventKey = event.eventKey) = true) (hclock : s.clock ≤ now) :
    Stored py { s with
      clock := now
      db := (ingest py s.db event now).1
      delivered := s.delivered ++ [event] } := by
  have hkey : event.eventKey ∉ s.db.receipts.map Receipt.eventKey := by
    intro hmem
    obtain ⟨r, hr, hkey⟩ := List.mem_map.mp hmem
    obtain ⟨row, hrow, rfl⟩ := List.mem_map.mp hr
    exact hnew (List.any_eq_true.mpr ⟨row, hrow, decide_eq_true hkey⟩)
  have hrows : ∀ fee ∈ (aggregate py event.fees).entries.map fun e => e.2.row s.db.nextId e.1,
      fee.executionEventId = s.db.nextId := by
    intro fee hfee
    obtain ⟨e, -, rfl⟩ := List.mem_map.mp hfee
    rfl
  have hinsert := foldl_insertFee
    ((aggregate py event.fees).entries.map fun e => e.2.row s.db.nextId e.1) s.db.feeComponents
    (fun new hnew row hrow hsame => by
      have hid := (of_decide_eq_true hsame).1
      rw [hrows new hnew] at hid
      exact absurd (h.feesKnown row hrow) (by omega))
    (pairwise_feeRows py event.fees s.db.nextId)
  have hdb : (ingest py s.db event now).1 =
      { events := s.db.events ++
          [{ id := s.db.nextId, eventKey := event.eventKey, receivedAt := now }]
        feeComponents := s.db.feeComponents ++
          (aggregate py event.fees).entries.map fun e => e.2.row s.db.nextId e.1
        nextId := s.db.nextId + 1 } := by
    unfold ingest
    rw [if_neg hnew, hinsert]
  have hreceipts : (ingest py s.db event now).1.receipts =
      s.db.receipts ++ [⟨s.db.nextId, event.eventKey, now⟩] := by
    rw [hdb]
    exact List.map_append
  constructor
  · rw [hreceipts, List.pairwise_append]
    refine ⟨h.ordered, List.pairwise_singleton .., fun a ha b hb => ?_⟩
    rw [List.mem_singleton.mp hb]
    exact ⟨(h.known a ha).1, (h.known a ha).2.trans hclock⟩
  · intro r hr
    rw [hreceipts] at hr
    rw [hdb]
    rcases List.mem_append.mp hr with hr | hr
    · exact ⟨(h.known r hr).1.trans (Nat.lt_succ_self _), (h.known r hr).2.trans hclock⟩
    · rw [List.mem_singleton.mp hr]
      exact ⟨Nat.lt_succ_self _, le_rfl⟩
  · rw [hreceipts, List.map_append, List.nodup_append]
    refine ⟨h.keys, List.nodup_singleton _, fun a ha b hb => ?_⟩
    rw [List.mem_singleton.mp hb]
    rintro rfl
    exact hkey ha
  · intro key
    rw [hreceipts, List.map_append, List.map_append, List.mem_append, List.mem_append,
      h.delivered key]
    rfl
  · intro r hr
    rw [hreceipts] at hr
    rw [hdb]
    dsimp only
    rw [List.filter_append, List.find?_append]
    rcases List.mem_append.mp hr with hr | hr
    · obtain ⟨first, hfirst, hfees⟩ := h.fees r hr
      refine ⟨first, by rw [hfirst, Option.some_or], ?_⟩
      rw [hfees, List.filter_eq_nil_iff.mpr, List.append_nil]
      intro fee hfee hid
      have := (h.known r hr).1
      rw [← of_decide_eq_true hid, hrows fee hfee] at this
      exact lt_irrefl _ this
    · rw [List.mem_singleton.mp hr]
      refine ⟨event, ?_, ?_⟩
      · rw [List.find?_eq_none.mpr, Option.none_or]
        · exact List.find?_cons_of_pos (decide_eq_true rfl)
        · intro old hold hsame
          have := (h.delivered event.eventKey).mpr
            (List.mem_map.mpr ⟨old, hold, of_decide_eq_true hsame⟩)
          exact hkey this
      · rw [List.filter_eq_nil_iff.mpr, List.nil_append, List.filter_eq_self.mpr]
        · exact fun fee hfee => decide_eq_true (hrows fee hfee)
        · intro fee hfee hid
          have := h.feesKnown fee hfee
          rw [of_decide_eq_true hid] at this
          exact lt_irrefl _ this
  · intro fee hfee
    rw [hdb] at hfee ⊢
    rcases List.mem_append.mp hfee with hfee | hfee
    · exact (h.feesKnown fee hfee).trans (Nat.lt_succ_self _)
    · rw [hrows fee hfee]
      exact Nat.lt_succ_self _

theorem Stored.ingest (h : Stored py s) (event : ExecutionEvent) (hclock : s.clock ≤ now) :
    Stored py { s with
      clock := now
      db := (ingest py s.db event now).1
      delivered := s.delivered ++ [event] } := by
  by_cases hold : s.db.events.any (·.eventKey = event.eventKey) = true
  · rw [show (Inbox.ingest py s.db event now).1 = { s.db with nextId := s.db.nextId + 1 } by
      unfold Inbox.ingest
      rw [if_pos hold]]
    exact h.again hold hclock
  · exact h.new hold hclock

end

end AlgoTrade.Inbox
