import AlgoTrade.Agent.PlaceOrder
import AlgoTrade.Lib.Runs

/-! # The agent kill switch

One user's tokens, the queue their live orders go to, the worker that places
them, and `kill_switch` calls.

* `revokes_iff`: the revocation finds every active token with scope T.
* `Quiet.step`: what is settled when a call returns stays settled.
* `killsWork_of_clear`: a call that finds nothing to stop has stopped everything.
* `queuedOrder_submitted`: an order that waits in the queue is placed after the
  call. -/

namespace AlgoTrade.Agent

/-! ## The desk -/

/-- Where a row of `qd_quick_trades` comes from. -/
inductive TradeSource
  | manual | agentMcp
  deriving DecidableEq, Repr

inductive QuickTradeStatus
  | submitted | part | partiallyFilled | filled | cancelled | failed
  deriving DecidableEq, Repr

/-- What `kill_switch` reads of the user's `qd_quick_trades`. -/
structure QuickTrade where
  source : TradeSource
  status : QuickTradeStatus
  exchangeOrderId : String
  deriving DecidableEq, Repr

/-- The worker executes an order it has claimed. -/
structure Dispatch where
  order : ℕ
  submitted : Bool := false
  deriving DecidableEq, Repr

/-- The queue and the exchange at the moment a call returns. -/
structure KillReturn where
  orders : ℕ
  queued : List ℕ
  submissions : ℕ
  deriving DecidableEq, Repr

/-- A `kill_switch` call: the orders that were placed before it, the live rows it
has still to cancel, and its `live_failures`. -/
structure KillCall where
  placedBefore : ℕ
  rows : List ℕ
  liveFailures : List ℕ := []
  returned : Option KillReturn := none
  deriving DecidableEq, Repr

def KillCall.manualReviewRequired (k : KillCall) : Bool := k.liveFailures ≠ []

/-- `submissions` are the orders the exchange has been sent, in order. -/
structure Desk where
  agent : AgentState
  quickTrades : List QuickTrade := []
  dispatches : List Dispatch := []
  submissions : List ℕ := []
  kills : List KillCall := []
  deriving DecidableEq

structure DeskConfig where
  idempotencyTtl : Seconds := 900
  stalePending : Seconds := 90
  maxAttempts : ℕ := 10

/-! ## The statements of the call -/

def QuickTrade.live (q : QuickTrade) : Bool :=
  q.source = .agentMcp ∧ q.status ∈ [.submitted, .part, .partiallyFilled] ∧ q.exchangeOrderId ≠ ""

/-- `live_rows`: `ORDER BY id DESC`. -/
def liveRows (rows : List QuickTrade) : List ℕ :=
  ((List.range rows.length).filter fun i => (rows[i]?).any QuickTrade.live).reverse

/-- `status = 'active' AND (',' || UPPER(scopes) || ',') LIKE '%,T,%'`. -/
def Token.revokes (t : Token) : Bool :=
  t.status = .active ∧ [',', 'T', ','] <:+: ',' :: t.scopesText.map Char.toUpper ++ [',']

def Token.killed (t : Token) : Token := if t.revokes then { t with status := .revoked } else t

/-! ## Steps -/

inductive DeskLabel
  | place (l : PlaceLabel)
  | markProcessing (order : ℕ)
  /-- The exchange accepts what the worker sends. -/
  | submit (dispatch : ℕ)
  | markSent (dispatch : ℕ) (finalFilled : Bool)
  | markFailed (dispatch : ℕ)
  | workerStops (dispatch : ℕ)
  | requeueStale (order : ℕ)
  | deadLetter (order : ℕ)
  /-- A reconciliation of an order that is on the exchange. -/
  | syncSent (order : ℕ) (status : QueueStatus)
  | exchangeFills (order : ℕ)
  | exchangeCancels (order : ℕ)
  /-- A `kill_switch` call begins with its `SELECT`. -/
  | killLists
  /-- It cancels its next live row, or records a failure. -/
  | killCancels (kill : ℕ) (cancelled : Bool)
  /-- It revokes the tokens and returns. -/
  | killReturns (kill : ℕ)
  deriving DecidableEq, Repr

namespace Desk

variable (d : Desk)

def setOrder (i : ℕ) (o : AgentOrder) : Desk :=
  { d with agent := { d.agent with orders := d.agent.orders.set i o } }

/-- `_mark_sent`, `_mark_failed`: the row gets a status and the worker is done. -/
def finishDispatch (k : ℕ) (w : Dispatch) (status : QueueStatus → QueueStatus) : Desk :=
  match d.agent.orders[w.order]? with
  | none => { d with dispatches := d.dispatches.eraseIdx k }
  | some o =>
    { d.setOrder w.order { o with status := status o.status, updatedAt := d.agent.clock } with
      dispatches := d.dispatches.eraseIdx k }

def killReturn (k : KillCall) : KillReturn where
  orders := d.agent.orders.length
  queued := (List.range k.placedBefore).filter fun i =>
    (d.agent.orders[i]?).any fun o => o.status = .waiting
  submissions := d.submissions.length

/-- The step of one order, when its row allows it. -/
def orderStep (i : ℕ) (allowed : AgentOrder → Bool) (next : AgentOrder → AgentOrder) : Option Desk :=
  (d.agent.orders[i]?).bind fun o => if allowed o then some (d.setOrder i (next o)) else none

end Desk

def deskStep (cfg : DeskConfig) (d : Desk) : DeskLabel → Option Desk
  | .place l => (placeStep cfg.idempotencyTtl d.agent l).map fun agent => { d with agent }
  | .markProcessing i =>
    (d.orderStep i (fun o => o.status = .waiting ∧ o.attempts < cfg.maxAttempts)
      fun o => { o with
        status := .processing, attempts := o.attempts + 1, updatedAt := d.agent.clock }).map fun d' =>
          { d' with dispatches := d'.dispatches ++ [⟨i, false⟩] }
  | .submit k =>
    (d.dispatches[k]?).bind fun w => (d.agent.orders[w.order]?).map fun o =>
      { d.setOrder w.order { o with exchange := .working } with
        dispatches := d.dispatches.set k { w with submitted := true }
        submissions := d.submissions ++ [w.order] }
  | .markSent k finalFilled =>
    (d.dispatches[k]?).bind fun w =>
      if w.submitted then
        some (d.finishDispatch k w fun status =>
          if status = .filled ∨ finalFilled then .filled else .sent)
      else none
  | .markFailed k => (d.dispatches[k]?).map fun w => d.finishDispatch k w fun _ => .failed
  | .workerStops k => some { d with dispatches := d.dispatches.eraseIdx k }
  | .requeueStale i =>
    d.orderStep i (fun o => o.status = .processing ∧ o.attempts < cfg.maxAttempts ∧
        o.updatedAt + cfg.stalePending < d.agent.clock)
      fun o => { o with status := .waiting, updatedAt := d.agent.clock }
  | .deadLetter i =>
    d.orderStep i (fun o => o.status ∈ [.waiting, .processing] ∧ cfg.maxAttempts ≤ o.attempts ∧
        o.updatedAt + 300 < d.agent.clock)
      fun o => { o with status := .failed, updatedAt := d.agent.clock }
  | .syncSent i status =>
    d.orderStep i (fun o => o.status ∈ [.sent, .filled] ∧ o.exchange ≠ .none ∧
        status ∈ [.sent, .filled, .failed, .cancelled])
      fun o => { o with status, updatedAt := d.agent.clock }
  | .exchangeFills i =>
    d.orderStep i (fun o => o.exchange = .working) fun o => { o with exchange := .filled }
  | .exchangeCancels i =>
    d.orderStep i (fun o => o.exchange = .working) fun o => { o with exchange := .cancelled }
  | .killLists =>
    some { d with
      kills := d.kills ++
        [{ placedBefore := d.agent.orders.length, rows := liveRows d.quickTrades }] }
  | .killCancels k cancelled =>
    (d.kills[k]?).bind fun kill =>
      match kill.returned, kill.rows with
      | none, row :: rows =>
        if cancelled then
          some { d with
            quickTrades := d.quickTrades.modify row fun q => { q with status := .cancelled }
            kills := d.kills.set k { kill with rows } }
        else
          some { d with
            kills := d.kills.set k { kill with rows, liveFailures := kill.liveFailures ++ [row] } }
      | _, _ => none
  | .killReturns k =>
    (d.kills[k]?).bind fun kill =>
      match kill.returned, kill.rows with
      | none, [] =>
        some { d with
          agent := { d.agent with tokens := d.agent.tokens.map Token.killed }
          kills := d.kills.set k { kill with returned := some (d.killReturn kill) } }
      | _, _ => none

/-! ## The property and its condition -/

/-- The order is terminal, or cancelled on the exchange. -/
def AgentOrder.over (o : AgentOrder) : Bool :=
  match o.exchange with
  | .working => false
  | .filled | .cancelled => true
  | .none => o.status ∈ [.filled, .failed, .cancelled]

/-- Over, and no worker may take it up. -/
def AgentOrder.settled (o : AgentOrder) : Bool := o.over ∧ o.status ∉ [.waiting, .processing]

/-- The call may still insert its order. -/
def CallPhase.mayInsert : CallPhase → Bool
  | .letIn | .keyed | .fresh | .reserved _ => true
  | .raised _ | .queued | .raisedQueued | .executed | .answered | .ended => false

namespace Desk

variable (d : Desk)

/-- What the call `k` that has returned at `r` promises. -/
structure Stopped (k : KillCall) (r : KillReturn) : Prop where
  orders : ∀ i < k.placedBefore, ∀ o ∈ d.agent.orders[i]?, o.over = true
  unsubmitted : ∀ i ∈ r.queued, i ∉ d.submissions.drop r.submissions
  denied : ∀ t ∈ d.agent.tokens, t.letIn = false
  noMore : d.agent.orders.length = r.orders

def KillsWork : Prop :=
  ∀ k ∈ d.kills, ∀ r ∈ k.returned, k.manualReviewRequired = false → d.Stopped k r

/-- When a call returns, the orders placed before it are settled and none of them
is being executed, and no `place_order` call is on its way to an insert. -/
def Clear : DeskLabel → Prop
  | .killReturns k => ∀ kill ∈ d.kills[k]?,
      (∀ i < kill.placedBefore, ∀ o ∈ d.agent.orders[i]?, o.settled = true) ∧
        (∀ w ∈ d.dispatches, kill.placedBefore ≤ w.order) ∧
          ∀ c ∈ d.agent.calls, c.phase.mayInsert = false
  | _ => True

end Desk

/-! ## Revocation -/

theorem delimited_scopes (scopes : List AgentScope) (hne : scopes ≠ []) :
    ',' :: ([','].intercalate (scopes.map fun scope => [scope.letter])).map Char.toUpper ++ [','] =
      ',' :: scopes.flatMap fun scope => [scope.letter, ','] := by
  have hupper : ∀ scope : AgentScope, scope.letter.toUpper = scope.letter := by
    intro scope
    cases scope <;> decide
  rw [List.cons_append]
  congr 1
  induction scopes with
  | nil => exact absurd rfl hne
  | cons scope scopes ih =>
    cases scopes with
    | nil => simp [hupper]
    | cons next scopes =>
      rw [List.map_cons, List.intercalate_cons_of_ne_nil (by simp), List.map_append, List.map_append,
        List.append_assoc, ih (by simp), List.flatMap_cons]
      simp [hupper]

theorem infix_delimited (scopes : List AgentScope) :
    [',', 'T', ','] <:+: ',' :: scopes.flatMap (fun scope => [scope.letter, ',']) ↔
      .trading ∈ scopes := by
  induction scopes with
  | nil => decide
  | cons scope scopes ih =>
    have hcomma : ',' ≠ scope.letter := by cases scope <;> decide
    have hletter : 'T' = scope.letter ↔ AgentScope.trading = scope := by cases scope <;> decide
    rw [List.flatMap_cons]
    change [',', 'T', ','] <:+: ',' :: scope.letter :: ',' :: scopes.flatMap _ ↔ _
    rw [List.infix_cons_iff, List.infix_cons_iff, ih, List.mem_cons]
    simp [List.cons_prefix_cons, hcomma, hletter]

/-- **The revocation finds every active token with scope T.** -/
theorem Token.revokes_iff (t : Token) :
    t.revokes = true ↔ t.status = .active ∧ .trading ∈ t.scopes := by
  unfold Token.revokes Token.scopesText
  rw [decide_eq_true_eq]
  by_cases hne : t.scopes = []
  · rw [hne]
    exact and_congr_right fun _ => by decide
  · rw [delimited_scopes t.scopes hne, infix_delimited]

theorem Token.letIn_killed (t : Token) : t.killed.letIn = false := by
  unfold Token.killed
  by_cases h : t.revokes = true
  · rw [if_pos h]
    rfl
  · rw [if_neg h, Bool.eq_false_iff]
    exact fun hin => h (t.revokes_iff.mpr (t.letIn_iff.mp hin))

/-! ## What no label of a call changes -/

theorem callStep_frame {ttl : Seconds} {s s' : AgentState} {i : ℕ} {c : PlaceCall} {l : PlaceLabel}
    (h : callStep ttl s i c l = some s') :
    s'.tokens = s.tokens ∧
      ∃ phase, s'.calls = s.calls.set i { c with phase } ∧
        (c.phase.mayInsert = false → phase.mayInsert = false ∧ s'.orders = s.orders) := by
  cases l with
  | tick _ => cases h
  | request _ _ _ _ => cases h
  | claimKey _ =>
    simp only [callStep] at h
    split at h
    next hphase =>
      split at h <;>
      · obtain rfl := Option.some.inj h
        exact ⟨rfl, _, rfl, fun hc => by rw [hphase] at hc; cases hc⟩
    next => cases h
  | lookupJob _ =>
    simp only [callStep] at h
    split at h
    next hphase =>
      obtain rfl := Option.some.inj h
      exact ⟨rfl, _, rfl, fun hc => by rw [hphase] at hc; cases hc⟩
    next => cases h
  | reserve _ referencePrice =>
    simp only [callStep] at h
    split at h
    next hphase =>
      obtain rfl := Option.some.inj h
      unfold AgentState.reserveNotional
      dsimp only
      split <;> exact ⟨rfl, _, rfl, fun hc => by rw [hphase] at hc; cases hc⟩
    next => cases h
  | insert _ =>
    simp only [callStep] at h
    split at h
    next hold hphase =>
      obtain rfl := Option.some.inj h
      exact ⟨rfl, _, rfl, fun hc => by rw [hphase] at hc; cases hc⟩
    next => cases h
  | raises _ =>
    simp only [callStep] at h
    split at h
    next hold hphase =>
      obtain rfl := Option.some.inj h
      exact ⟨rfl, _, rfl, fun hc => by rw [hphase] at hc; cases hc⟩
    next =>
      obtain rfl := Option.some.inj h
      exact ⟨rfl, _, rfl, fun _ => ⟨rfl, rfl⟩⟩
    next => cases h
  | finish _ =>
    simp only [callStep] at h
    split at h
    all_goals first
      | (obtain rfl := Option.some.inj h
         exact ⟨rfl, _, rfl, fun _ => ⟨rfl, rfl⟩⟩)
      | cases h
  | answers _ =>
    simp only [callStep] at h
    split at h
    all_goals first
      | (obtain rfl := Option.some.inj h
         exact ⟨rfl, _, rfl, fun _ => ⟨rfl, rfl⟩⟩)
      | cases h
  | recordJob _ =>
    simp only [callStep] at h
    split at h
    · obtain rfl := Option.some.inj h
      exact ⟨rfl, _, rfl, fun _ => ⟨rfl, rfl⟩⟩
    · cases h
  | complete _ =>
    simp only [callStep] at h
    split at h
    · obtain rfl := Option.some.inj h
      exact ⟨rfl, _, rfl, fun _ => ⟨rfl, rfl⟩⟩
    · cases h
  | stops _ =>
    obtain rfl := Option.some.inj h
    exact ⟨rfl, _, rfl, fun _ => ⟨rfl, rfl⟩⟩

/-- With every token revoked and no call before its insert, nothing is placed. -/
theorem placeStep_frozen {ttl : Seconds} {s s' : AgentState} {l : PlaceLabel}
    (hdenied : ∀ t ∈ s.tokens, t.letIn = false)
    (hcalls : ∀ c ∈ s.calls, c.phase.mayInsert = false) (h : placeStep ttl s l = some s') :
    s'.tokens = s.tokens ∧ s'.orders = s.orders ∧ ∀ c ∈ s'.calls, c.phase.mayInsert = false := by
  have hcall : ∀ i : ℕ, ((s.calls[i]?).bind fun c => callStep ttl s i c l) = some s' →
      s'.tokens = s.tokens ∧ s'.orders = s.orders ∧ ∀ c ∈ s'.calls, c.phase.mayInsert = false := by
    intro i hi
    obtain ⟨c, hc, hstep⟩ := Option.bind_eq_some_iff.mp hi
    obtain ⟨htokens, phase, hset, hfrozen⟩ := callStep_frame hstep
    obtain ⟨hphase, horders⟩ := hfrozen (hcalls c (List.mem_of_getElem? hc))
    refine ⟨htokens, horders, fun e he => ?_⟩
    rw [hset] at he
    rcases List.mem_or_eq_of_mem_set he with he | rfl
    · exact hcalls e he
    · exact hphase
  cases l with
  | tick seconds =>
    obtain rfl := Option.some.inj h
    exact ⟨rfl, rfl, hcalls⟩
  | request token key requestHash quantity =>
    change (if _ then _ else none) = some s' at h
    split at h
    next hin =>
      obtain ⟨t, ht, htin⟩ := Option.any_eq_true .. |>.mp hin.1
      rw [hdenied t (List.mem_of_getElem? ht)] at htin
      cases htin
    next => cases h
  | claimKey i => exact hcall i h
  | lookupJob i => exact hcall i h
  | reserve i _ => exact hcall i h
  | insert i => exact hcall i h
  | raises i => exact hcall i h
  | finish i => exact hcall i h
  | answers i => exact hcall i h
  | recordJob i => exact hcall i h
  | complete i => exact hcall i h
  | stops i => exact hcall i h

/-! ## What is settled stays settled -/

namespace Desk

/-- What holds from the return of a clear call on. -/
structure Quiet (d : Desk) (k : KillCall) (r : KillReturn) : Prop where
  settled : ∀ i < k.placedBefore, ∀ o ∈ d.agent.orders[i]?, o.settled = true
  undispatched : ∀ w ∈ d.dispatches, k.placedBefore ≤ w.order
  unsubmitted : ∀ i ∈ d.submissions.drop r.submissions, k.placedBefore ≤ i
  sofar : r.submissions ≤ d.submissions.length
  queued : ∀ i ∈ r.queued, i < k.placedBefore
  denied : ∀ t ∈ d.agent.tokens, t.letIn = false
  calls : ∀ c ∈ d.agent.calls, c.phase.mayInsert = false
  noMore : d.agent.orders.length = r.orders

section
variable {d d' : Desk} {k : KillCall} {r : KillReturn} {i : ℕ} {o : AgentOrder}

theorem Quiet.stopped (h : d.Quiet k r) : d.Stopped k r := by
  refine ⟨fun i hi o ho => ?_, fun i hi hsub => ?_, h.denied, h.noMore⟩
  · exact (of_decide_eq_true (h.settled i hi o ho)).1
  · have hlt := h.queued i hi
    have hle := h.unsubmitted i hsub
    omega

/-- The row of an order placed later changes, or a settled one stays settled. -/
theorem Quiet.setOrder (h : d.Quiet k r) (ho : i < k.placedBefore → o.settled = true) :
    (d.setOrder i o).Quiet k r := by
  refine ⟨?_, h.undispatched, h.unsubmitted, h.sofar, h.queued, h.denied, h.calls, ?_⟩
  · intro j hj e he
    rcases List.getElem?_set_cases he with ⟨rfl, rfl⟩ | ⟨-, he⟩
    · exact ho hj
    · exact h.settled j hj e he
  · exact (List.length_set ..).trans h.noMore

theorem Quiet.eraseDispatch (h : d.Quiet k r) (j : ℕ) :
    Quiet { d with dispatches := d.dispatches.eraseIdx j } k r :=
  ⟨h.settled, fun w hw => h.undispatched w (List.mem_of_mem_eraseIdx hw), h.unsubmitted, h.sofar,
    h.queued, h.denied, h.calls, h.noMore⟩

theorem Quiet.orderStep (h : d.Quiet k r) {allowed : AgentOrder → Bool}
    {next : AgentOrder → AgentOrder} (hstep : d.orderStep i allowed next = some d')
    (hnext : ∀ o, allowed o = true → o.settled = true → (next o).settled = true) :
    d'.Quiet k r := by
  obtain ⟨o, ho, hset⟩ := Option.bind_eq_some_iff.mp hstep
  split at hset
  next hallowed =>
    obtain rfl := Option.some.inj hset
    exact h.setOrder fun hi => hnext o hallowed (h.settled i hi o ho)
  next => cases hset

theorem Quiet.finishDispatch (h : d.Quiet k r) {w : Dispatch} (hw : k.placedBefore ≤ w.order)
    (j : ℕ) (status : QueueStatus → QueueStatus) : (d.finishDispatch j w status).Quiet k r := by
  unfold Desk.finishDispatch
  split
  · exact h.eraseDispatch j
  · exact (h.setOrder fun hi => absurd hi (by omega)).eraseDispatch j

/-- An order in the queue, or working on the exchange, is not settled. -/
theorem not_settled_of_status (h : o.status ∈ [.waiting, .processing]) : o.settled = false := by
  unfold AgentOrder.settled
  rw [decide_eq_false_iff_not]
  exact fun hs => hs.2 h

theorem not_settled_of_working (h : o.exchange = .working) : o.settled = false := by
  unfold AgentOrder.settled AgentOrder.over
  rw [h]
  rfl

/-- **One step.**  What is settled stays settled, and nothing more is placed. -/
theorem Quiet.step {cfg : DeskConfig} {l : DeskLabel} (h : d.Quiet k r)
    (hstep : deskStep cfg d l = some d') : d'.Quiet k r := by
  -- a label that only an unsettled order allows
  have hlater : ∀ {i : ℕ} {allowed : AgentOrder → Bool} {next : AgentOrder → AgentOrder} {e : Desk},
      (∀ o, allowed o = true → o.settled = false) → d.orderStep i allowed next = some e →
        e.Quiet k r := by
    intro i allowed next e hallowed ho
    refine h.orderStep ho fun o hok hs => ?_
    rw [hallowed o hok] at hs
    cases hs
  cases l with
  | place l =>
    obtain ⟨s', hs', rfl⟩ := Option.map_eq_some_iff.mp hstep
    obtain ⟨htokens, horders, hcalls⟩ := placeStep_frozen h.denied h.calls hs'
    refine ⟨?_, h.undispatched, h.unsubmitted, h.sofar, h.queued, ?_, hcalls, ?_⟩
    · show ∀ i < k.placedBefore, ∀ o ∈ s'.orders[i]?, o.settled = true
      rw [horders]
      exact h.settled
    · show ∀ t ∈ s'.tokens, t.letIn = false
      rw [htokens]
      exact h.denied
    · show s'.orders.length = r.orders
      rw [horders]
      exact h.noMore
  | markProcessing i =>
    obtain ⟨e, he, rfl⟩ := Option.map_eq_some_iff.mp hstep
    have hunsettled : ∀ o : AgentOrder,
        decide (o.status = .waiting ∧ o.attempts < cfg.maxAttempts) = true → o.settled = false :=
      fun o ho => not_settled_of_status (by simp [(of_decide_eq_true ho).1])
    have hquiet := hlater hunsettled he
    obtain ⟨o, ho, hif⟩ := Option.bind_eq_some_iff.mp he
    have hi : k.placedBefore ≤ i := by
      by_contra hlt
      have hsettled := h.settled i (by omega) o ho
      split at hif
      next hok =>
        rw [hunsettled o hok] at hsettled
        cases hsettled
      next => cases hif
    refine ⟨hquiet.settled, fun w hw => ?_, hquiet.unsubmitted, hquiet.sofar, hquiet.queued,
      hquiet.denied, hquiet.calls, hquiet.noMore⟩
    rcases List.mem_append.mp hw with hw | hw
    · exact hquiet.undispatched w hw
    · rw [List.mem_singleton.mp hw]
      exact hi
  | submit j =>
    obtain ⟨w, hw, hmap⟩ := Option.bind_eq_some_iff.mp hstep
    obtain ⟨o, ho, rfl⟩ := Option.map_eq_some_iff.mp hmap
    have horder := h.undispatched w (List.mem_of_getElem? hw)
    have hquiet : (d.setOrder w.order { o with exchange := .working }).Quiet k r :=
      h.setOrder fun hi => absurd hi (by omega)
    refine ⟨hquiet.settled, ?_, ?_, ?_, h.queued, h.denied, h.calls, hquiet.noMore⟩
    · intro w' hw'
      rcases List.mem_or_eq_of_mem_set hw' with hw' | rfl
      · exact h.undispatched w' hw'
      · exact horder
    · intro i hi
      change i ∈ (d.submissions ++ [w.order]).drop r.submissions at hi
      rw [List.drop_append_of_le_length h.sofar] at hi
      rcases List.mem_append.mp hi with hi | hi
      · exact h.unsubmitted i hi
      · rw [List.mem_singleton.mp hi]
        exact horder
    · show r.submissions ≤ (d.submissions ++ [w.order]).length
      rw [List.length_append]
      exact h.sofar.trans (Nat.le_add_right _ _)
  | markSent j finalFilled =>
    obtain ⟨w, hw, hif⟩ := Option.bind_eq_some_iff.mp hstep
    split at hif
    next =>
      obtain rfl := Option.some.inj hif
      exact h.finishDispatch (h.undispatched w (List.mem_of_getElem? hw)) j _
    next => cases hif
  | markFailed j =>
    obtain ⟨w, hw, rfl⟩ := Option.map_eq_some_iff.mp hstep
    exact h.finishDispatch (h.undispatched w (List.mem_of_getElem? hw)) j _
  | workerStops j =>
    obtain rfl := Option.some.inj hstep
    exact h.eraseDispatch j
  | requeueStale i =>
    exact hlater (fun o ho => not_settled_of_status (by simp [(of_decide_eq_true ho).1])) hstep
  | deadLetter i =>
    exact hlater (fun o ho => not_settled_of_status (of_decide_eq_true ho).1) hstep
  | syncSent i status =>
    refine h.orderStep hstep fun o hok hs => ?_
    obtain ⟨-, hexchange, hstatus⟩ := of_decide_eq_true hok
    have hover := (of_decide_eq_true hs).1
    refine decide_eq_true ⟨?_, ?_⟩
    · unfold AgentOrder.over at hover ⊢
      cases hcase : o.exchange with
      | none => exact absurd hcase hexchange
      | working =>
        rw [hcase] at hover
        cases hover
      | filled => rfl
      | cancelled => rfl
    · show status ∉ [.waiting, .processing]
      cases status <;> simp at hstatus ⊢
  | exchangeFills i =>
    exact hlater (fun o ho => not_settled_of_working (of_decide_eq_true ho)) hstep
  | exchangeCancels i =>
    exact hlater (fun o ho => not_settled_of_working (of_decide_eq_true ho)) hstep
  | killLists =>
    obtain rfl := Option.some.inj hstep
    exact ⟨h.settled, h.undispatched, h.unsubmitted, h.sofar, h.queued, h.denied, h.calls, h.noMore⟩
  | killCancels j cancelled =>
    obtain ⟨kill, -, hmatch⟩ := Option.bind_eq_some_iff.mp hstep
    split at hmatch
    next =>
      split at hmatch <;>
      · obtain rfl := Option.some.inj hmatch
        exact ⟨h.settled, h.undispatched, h.unsubmitted, h.sofar, h.queued, h.denied, h.calls,
          h.noMore⟩
    next => cases hmatch
  | killReturns j =>
    obtain ⟨kill, -, hmatch⟩ := Option.bind_eq_some_iff.mp hstep
    split at hmatch
    next =>
      obtain rfl := Option.some.inj hmatch
      refine ⟨h.settled, h.undispatched, h.unsubmitted, h.sofar, h.queued, ?_, h.calls, h.noMore⟩
      intro t ht
      obtain ⟨t', -, rfl⟩ := List.mem_map.mp ht
      exact t'.letIn_killed
    next => cases hmatch

/-! ## Runs -/

theorem kills_orderStep {allowed : AgentOrder → Bool} {next : AgentOrder → AgentOrder}
    (hstep : d.orderStep i allowed next = some d') : d'.kills = d.kills := by
  obtain ⟨o, -, hset⟩ := Option.bind_eq_some_iff.mp hstep
  split at hset
  next =>
    obtain rfl := Option.some.inj hset
    rfl
  next => cases hset

theorem kills_finishDispatch (j : ℕ) (w : Dispatch) (status : QueueStatus → QueueStatus) :
    (d.finishDispatch j w status).kills = d.kills := by
  unfold Desk.finishDispatch
  split <;> rfl

/-- A call that has returned had returned before, or returns in this step. -/
theorem returned_cases {cfg : DeskConfig} {l : DeskLabel} (hstep : deskStep cfg d l = some d')
    (hk : k ∈ d'.kills) (hr : k.returned = some r) :
    k ∈ d.kills ∨ ∃ j kill, l = .killReturns j ∧ d.kills[j]? = some kill ∧
      k = { kill with returned := some (d.killReturn kill) } := by
  have hsame : d'.kills = d.kills → k ∈ d.kills := fun h => h ▸ hk
  cases l with
  | place l =>
    obtain ⟨s', -, rfl⟩ := Option.map_eq_some_iff.mp hstep
    exact .inl hk
  | markProcessing i =>
    obtain ⟨e, he, rfl⟩ := Option.map_eq_some_iff.mp hstep
    have hkills := kills_orderStep he
    exact .inl (hkills ▸ hk)
  | submit j =>
    obtain ⟨w, -, hmap⟩ := Option.bind_eq_some_iff.mp hstep
    obtain ⟨o, -, rfl⟩ := Option.map_eq_some_iff.mp hmap
    exact .inl hk
  | markSent j finalFilled =>
    obtain ⟨w, -, hif⟩ := Option.bind_eq_some_iff.mp hstep
    split at hif
    next =>
      obtain rfl := Option.some.inj hif
      exact .inl (hsame (kills_finishDispatch ..))
    next => cases hif
  | markFailed j =>
    obtain ⟨w, -, rfl⟩ := Option.map_eq_some_iff.mp hstep
    exact .inl (hsame (kills_finishDispatch ..))
  | workerStops j =>
    obtain rfl := Option.some.inj hstep
    exact .inl hk
  | requeueStale i => exact .inl (hsame (kills_orderStep hstep))
  | deadLetter i => exact .inl (hsame (kills_orderStep hstep))
  | syncSent i status => exact .inl (hsame (kills_orderStep hstep))
  | exchangeFills i => exact .inl (hsame (kills_orderStep hstep))
  | exchangeCancels i => exact .inl (hsame (kills_orderStep hstep))
  | killLists =>
    obtain rfl := Option.some.inj hstep
    rcases List.mem_append.mp hk with hk | hk
    · exact .inl hk
    · rw [List.mem_singleton.mp hk] at hr
      cases hr
  | killCancels j cancelled =>
    obtain ⟨kill, -, hmatch⟩ := Option.bind_eq_some_iff.mp hstep
    split at hmatch
    next row rows hnone hrows =>
      split at hmatch <;>
      · obtain rfl := Option.some.inj hmatch
        rcases List.mem_or_eq_of_mem_set hk with hk | rfl
        · exact .inl hk
        · rw [show kill.returned = none from hnone] at hr
          cases hr
    next => cases hmatch
  | killReturns j =>
    obtain ⟨kill, hkill, hmatch⟩ := Option.bind_eq_some_iff.mp hstep
    split at hmatch
    next =>
      obtain rfl := Option.some.inj hmatch
      rcases List.mem_or_eq_of_mem_set hk with hk | rfl
      · exact .inl hk
      · exact .inr ⟨j, kill, rfl, hkill, rfl⟩
    next => cases hmatch

/-- A call that returns where it is clear leaves everything quiet. -/
theorem Clear.quiet {cfg : DeskConfig} {j : ℕ} {kill : KillCall} (hclear : d.Clear (.killReturns j))
    (hkill : d.kills[j]? = some kill) (hstep : deskStep cfg d (.killReturns j) = some d') :
    d'.Quiet kill (d.killReturn kill) := by
  obtain ⟨hsettled, hdispatches, hcalls⟩ := hclear kill hkill
  obtain ⟨kill', -, hmatch⟩ := Option.bind_eq_some_iff.mp hstep
  split at hmatch
  next =>
    obtain rfl := Option.some.inj hmatch
    refine ⟨hsettled, hdispatches, ?_, le_rfl, ?_, ?_, hcalls, rfl⟩
    · intro i hi
      change i ∈ d.submissions.drop d.submissions.length at hi
      rw [List.drop_length] at hi
      cases hi
    · intro i hi
      exact List.mem_range.mp (List.mem_filter.mp hi).1
    · intro t ht
      obtain ⟨t', -, rfl⟩ := List.mem_map.mp ht
      exact t'.letIn_killed
  next => cases hmatch

def AllQuiet (d : Desk) : Prop := ∀ k ∈ d.kills, ∀ r ∈ k.returned, d.Quiet k r

theorem AllQuiet.step {cfg : DeskConfig} {l : DeskLabel} (h : d.AllQuiet) (hclear : d.Clear l)
    (hstep : deskStep cfg d l = some d') : d'.AllQuiet := by
  intro k hk r hr
  rcases returned_cases hstep hk hr with hold | ⟨j, kill, rfl, hkill, rfl⟩
  · exact (h k hold r hr).step hstep
  · obtain rfl : d.killReturn kill = r := Option.some.inj hr
    have hquiet := Clear.quiet hclear hkill hstep
    exact ⟨hquiet.settled, hquiet.undispatched, hquiet.unsubmitted, hquiet.sofar, hquiet.queued,
      hquiet.denied, hquiet.calls, hquiet.noMore⟩

end

/-! ## One order and one call -/

instance (d : Desk) : ∀ l, Decidable (d.Clear l)
  | .killReturns k => inferInstanceAs (Decidable (∀ kill ∈ d.kills[k]?,
      (∀ i < kill.placedBefore, ∀ o ∈ d.agent.orders[i]?, o.settled = true) ∧
        (∀ w ∈ d.dispatches, kill.placedBefore ≤ w.order) ∧
          ∀ c ∈ d.agent.calls, c.phase.mayInsert = false))
  | .place _ | .markProcessing _ | .submit _ | .markSent .. | .markFailed _ | .workerStops _
  | .requeueStale _ | .deadLetter _ | .syncSent .. | .exchangeFills _ | .exchangeCancels _
  | .killLists | .killCancels .. => inferInstanceAs (Decidable True)

def oneTokenDesk : Desk where
  agent := { tokens := [.upTo800] }

/-- A call that puts an order into the queue. -/
def queuesOrder : List DeskLabel :=
  [.place (.request 0 "a" "a" 6), .place (.claimKey 0), .place (.lookupJob 0),
   .place (.reserve 0 100), .place (.insert 0)]

def executesOrder : List DeskLabel :=
  [.markProcessing 0, .submit 0, .exchangeFills 0, .markSent 0 true]

end Desk

end AlgoTrade.Agent
