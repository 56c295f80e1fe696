import AlgoTrade.Backtest.OrderAttempts

/-! # The order desk of a run

The runner act by act, with every order numbered as it is queued and a log of what
happens to it.  The runner itself forgets which call an order comes from: a target
kept for retry, an order asked for again, an order under a reference cut to its
length.

* `Ticket`: an order with the reference it was asked under and its number.
* `Desk.step`: one act of a bar; the phases keep the order of `run`.
* `runActs`: the acts of the bars of a run. -/

namespace AlgoTrade.Backtest

/-! ## Tickets -/

/-- An order, the reference it was asked under, and its number. -/
structure Ticket where
  order : OrderIntent
  asked : ClientRef
  sequence : ℕ
  deriving DecidableEq

inductive DeskEvent
  | queued (tk : Ticket)
  /-- A cancel that succeeded, after `upTo` orders have been queued. -/
  | cancelled (reference : ClientRef) (upTo : ℕ)
  | filled (tk : Ticket)
  /-- Tried, and its target was already met. -/
  | met (tk : Ticket)
  /-- Handed over by a live session. -/
  | emitted (tk : Ticket)
  deriving DecidableEq

def DeskEvent.queued? : DeskEvent → Option Ticket
  | .queued tk => some tk
  | _ => none

def DeskEvent.cancelled? : DeskEvent → Option ClientRef
  | .cancelled reference _ => some reference
  | _ => none

def queuedIn (log : List DeskEvent) : List Ticket := log.filterMap DeskEvent.queued?

def cancelledIn (log : List DeskEvent) : List ClientRef := log.filterMap DeskEvent.cancelled?

theorem queuedIn_append (log log' : List DeskEvent) :
    queuedIn (log ++ log') = queuedIn log ++ queuedIn log' := List.filterMap_append

theorem cancelledIn_append (log log' : List DeskEvent) :
    cancelledIn (log ++ log') = cancelledIn log ++ cancelledIn log' := List.filterMap_append

theorem mem_queuedIn {log : List DeskEvent} {tk : Ticket} :
    tk ∈ queuedIn log ↔ .queued tk ∈ log := by
  unfold queuedIn
  rw [List.mem_filterMap]
  constructor
  · rintro ⟨e, he, htk⟩
    cases e with
    | queued tk' =>
      obtain rfl := Option.some.inj htk
      exact he
    | _ => cases htk
  · intro h
    exact ⟨_, h, rfl⟩

theorem mem_cancelledIn {log : List DeskEvent} {reference : ClientRef} :
    reference ∈ cancelledIn log ↔ ∃ upTo, .cancelled reference upTo ∈ log := by
  unfold cancelledIn
  rw [List.mem_filterMap]
  constructor
  · rintro ⟨e, he, hreference⟩
    cases e with
    | cancelled reference' upTo =>
      obtain rfl := Option.some.inj hreference
      exact ⟨upTo, he⟩
    | _ => cases hreference
  · rintro ⟨upTo, h⟩
    exact ⟨_, h, rfl⟩

/-! ## Requests -/

namespace Context

/-- What a request that leads from `c` to `c'` is to the desk. -/
def events (currentDt : Time) (c c' : Context) : Request → List DeskEvent
  | .order r => (c'.orders.drop c.orders.length).map fun order =>
      .queued ⟨order, r.reference currentDt c'.orderSequence, c'.orderSequence⟩
  | .cancelOrder reference => (c.cancels reference).toList.map fun reference =>
      .cancelled reference c.orderSequence
  | _ => []

/-- `performAll`, with the events. -/
def performLogged (symbols : List Instrument) (currentDt : Time) :
    Context → List Request → Option (Context × List DeskEvent)
  | c, [] => some (c, [])
  | c, r :: rs =>
    (c.perform symbols currentDt r).bind fun c' =>
      (performLogged symbols currentDt c' rs).map fun rest =>
        (rest.1, c.events currentDt c' r ++ rest.2)

theorem performLogged_fst (symbols : List Instrument) (currentDt : Time) (c : Context)
    (rs : List Request) :
    (c.performLogged symbols currentDt rs).map Prod.fst = c.performAll symbols currentDt rs := by
  induction rs generalizing c with
  | nil => rfl
  | cons r rs ih =>
    rw [performLogged, performAll]
    cases c.perform symbols currentDt r with
    | none => rfl
    | some c' =>
      rw [Option.bind_some, Option.map_map]
      exact ih c'

/-- What `queue` does to the context. -/
theorem queue_spec {symbols : List Instrument} {currentDt : Time} {c c' : Context}
    {r : OrderRequest} (h : c.queue symbols currentDt r = some c') :
    ∃ order : OrderIntent,
      order.clientOrderId = some (r.reference currentDt (c.orderSequence + 1)).stored ∧
      c' = { c with
        orders := c.orders ++ [order]
        orderSequence := c.orderSequence + 1
        orderStatuses :=
          match c.orderStatuses.get? (r.reference currentDt (c.orderSequence + 1)).stored with
          | some _ => c.orderStatuses
          | none => c.orderStatuses.set (r.reference currentDt (c.orderSequence + 1)).stored
              { status := .queued } } := by
  unfold queue at h
  dsimp only at h
  obtain ⟨-, h⟩ := Option.ite_none_left_eq_some.mp h
  obtain rfl := Option.some.inj h
  exact ⟨_, rfl, rfl⟩

/-- The events of a request: the order it queues, or the reference it cancels. -/
theorem events_order {currentDt : Time} {c c' : Context} {r : OrderRequest} {order : OrderIntent}
    (h : c'.orders = c.orders ++ [order]) :
    c.events currentDt c' (.order r) =
      [.queued ⟨order, r.reference currentDt c'.orderSequence, c'.orderSequence⟩] := by
  unfold events
  dsimp only
  rw [h, List.drop_left, List.map_singleton]

/-- **A request** queues at most one order, or cancels one reference. -/
theorem perform_events {symbols : List Instrument} {currentDt : Time} {c c' : Context}
    {r : Request} (h : c.perform symbols currentDt r = some c') :
    c'.orders = c.orders ++ (queuedIn (c.events currentDt c' r)).map Ticket.order ∧
      c'.cancelledOrderIds = c.cancelledOrderIds ++ cancelledIn (c.events currentDt c' r) := by
  cases r with
  | order r =>
    obtain ⟨order, -, rfl⟩ := queue_spec h
    rw [events_order rfl]
    exact ⟨rfl, (List.append_nil _).symm⟩
  | cancelOrder reference =>
    obtain rfl := Option.some.inj h
    unfold events cancelOrder
    dsimp only
    cases c.cancels reference with
    | none => exact ⟨(List.append_nil _).symm, (List.append_nil _).symm⟩
    | some reference => exact ⟨(List.append_nil _).symm, rfl⟩
  | setDefaultProtection values =>
    obtain rfl := Option.some.inj h
    exact ⟨(List.append_nil _).symm, (List.append_nil _).symm⟩
  | consumeLastExitReason symbol =>
    obtain rfl := Option.some.inj h
    exact ⟨(List.append_nil _).symm, (List.append_nil _).symm⟩

theorem performLogged_events {symbols : List Instrument} {currentDt : Time} {c : Context}
    {rs : List Request} {o : Context × List DeskEvent}
    (h : c.performLogged symbols currentDt rs = some o) :
    o.1.orders = c.orders ++ (queuedIn o.2).map Ticket.order ∧
      o.1.cancelledOrderIds = c.cancelledOrderIds ++ cancelledIn o.2 := by
  induction rs generalizing c o with
  | nil =>
    obtain rfl := Option.some.inj h
    exact ⟨(List.append_nil _).symm, (List.append_nil _).symm⟩
  | cons r rs ih =>
    obtain ⟨c', hc', h⟩ := Option.bind_eq_some_iff.mp h
    obtain ⟨rest, hrest, rfl⟩ := Option.map_eq_some_iff.mp h
    obtain ⟨horders, hcancelled⟩ := perform_events hc'
    obtain ⟨horders', hcancelled'⟩ := ih hrest
    dsimp only
    constructor
    · rw [horders', horders, queuedIn_append, List.map_append, List.append_assoc]
    · rw [hcancelled', hcancelled, cancelledIn_append, List.append_assoc]

end Context

/-! ## Numbers -/

/-- Two events of one callback, in turn: the later order has the larger number, and
a cancel counts the orders before it. -/
def DeskEvent.Ordered (e e' : DeskEvent) : Prop :=
  (∀ tk tk', e = .queued tk → e' = .queued tk' → tk.sequence < tk'.sequence) ∧
    (∀ tk reference upTo, e = .cancelled reference upTo → e' = .queued tk → upTo < tk.sequence) ∧
    ∀ tk reference upTo, e = .queued tk → e' = .cancelled reference upTo → tk.sequence ≤ upTo

/-- Events of requests that lead from `c` to `c'`. -/
structure Numbered (c c' : Context) (log : List DeskEvent) : Prop where
  le : c.orderSequence ≤ c'.orderSequence
  queued : ∀ tk, .queued tk ∈ log → c.orderSequence < tk.sequence ∧
    tk.sequence ≤ c'.orderSequence ∧ tk.order.clientOrderId = some tk.asked.stored
  cancelled : ∀ reference upTo, .cancelled reference upTo ∈ log →
    c.orderSequence ≤ upTo ∧ upTo ≤ c'.orderSequence
  requests : ∀ e ∈ log, (∃ tk, e = .queued tk) ∨ ∃ reference upTo, e = .cancelled reference upTo
  ordered : log.Pairwise DeskEvent.Ordered

namespace Numbered

variable {c c' c'' : Context} {log log' : List DeskEvent}

theorem refl (h : c.orderSequence = c'.orderSequence) : Numbered c c' [] := by
  refine ⟨h.le, ?_, ?_, ?_, List.Pairwise.nil⟩
  · intro tk htk
    cases htk
  · intro reference upTo he
    cases he
  · intro e he
    cases he

theorem trans (h : Numbered c c' log) (h' : Numbered c' c'' log') :
    Numbered c c'' (log ++ log') := by
  have hle := h.le
  have hle' := h'.le
  refine ⟨hle.trans hle', ?_, ?_, ?_, List.pairwise_append.mpr ⟨h.ordered, h'.ordered, ?_⟩⟩
  · intro tk htk
    rcases List.mem_append.mp htk with htk | htk
    · obtain ⟨hlt, hge, href⟩ := h.queued tk htk
      exact ⟨hlt, hge.trans hle', href⟩
    · obtain ⟨hlt, hge, href⟩ := h'.queued tk htk
      exact ⟨hle.trans_lt hlt, hge, href⟩
  · intro reference upTo he
    rcases List.mem_append.mp he with he | he
    · obtain ⟨hlt, hge⟩ := h.cancelled reference upTo he
      exact ⟨hlt, hge.trans hle'⟩
    · obtain ⟨hlt, hge⟩ := h'.cancelled reference upTo he
      exact ⟨hle.trans hlt, hge⟩
  · intro e he
    rcases List.mem_append.mp he with he | he
    · exact h.requests e he
    · exact h'.requests e he
  · intro e he e' he'
    refine ⟨?_, ?_, ?_⟩
    · rintro tk tk' rfl rfl
      exact ((h.queued tk he).2.1).trans_lt (h'.queued tk' he').1
    · rintro tk reference upTo rfl rfl
      exact ((h.cancelled reference upTo he).2).trans_lt (h'.queued tk he').1
    · rintro tk reference upTo rfl rfl
      exact ((h.queued tk he).2.1).trans (h'.cancelled reference upTo he').1

/-- **A request** is numbered. -/
theorem perform {symbols : List Instrument} {currentDt : Time} {r : Request}
    (h : c.perform symbols currentDt r = some c') : Numbered c c' (c.events currentDt c' r) := by
  cases r with
  | order r =>
    obtain ⟨order, hreference, rfl⟩ := Context.queue_spec h
    rw [Context.events_order rfl]
    refine ⟨Nat.le_succ _, ?_, ?_, ?_, List.pairwise_singleton _ _⟩
    · intro tk htk
      obtain rfl := DeskEvent.queued.inj (List.mem_singleton.mp htk)
      exact ⟨Nat.lt_succ_self _, le_rfl, hreference⟩
    · intro reference upTo he
      cases List.mem_singleton.mp he
    · intro e he
      exact .inl ⟨_, List.mem_singleton.mp he⟩
  | cancelOrder reference =>
    obtain rfl := Option.some.inj h
    unfold Context.events Context.cancelOrder
    dsimp only
    cases c.cancels reference with
    | none => exact refl rfl
    | some reference =>
      refine ⟨le_rfl, ?_, ?_, ?_, List.pairwise_singleton _ _⟩
      · intro tk htk
        cases List.mem_singleton.mp htk
      · intro reference' upTo he
        obtain ⟨rfl, rfl⟩ := DeskEvent.cancelled.inj (List.mem_singleton.mp he)
        exact ⟨le_rfl, le_rfl⟩
      · intro e he
        exact .inr ⟨_, _, List.mem_singleton.mp he⟩
  | setDefaultProtection values =>
    obtain rfl := Option.some.inj h
    exact refl rfl
  | consumeLastExitReason symbol =>
    obtain rfl := Option.some.inj h
    exact refl rfl

theorem performLogged {symbols : List Instrument} {currentDt : Time} {rs : List Request}
    {o : Context × List DeskEvent} (h : c.performLogged symbols currentDt rs = some o) :
    Numbered c o.1 o.2 := by
  induction rs generalizing c o with
  | nil =>
    obtain rfl := Option.some.inj h
    exact refl rfl
  | cons r rs ih =>
    obtain ⟨c', hc', h⟩ := Option.bind_eq_some_iff.mp h
    obtain ⟨rest, hrest, rfl⟩ := Option.map_eq_some_iff.mp h
    have htail : Numbered c' rest.1 rest.2 := ih hrest
    exact (perform hc').trans htail

end Numbered

/-! ## Batches -/

/-- The target of the order was met already; it is not tried again. -/
def Outcome.met (out : Outcome) : Bool :=
  out.deferred.isNone && out.book.orderLedger.getLast?.any fun e =>
    e.statusReason = .targetAlreadyMet

namespace Ticket

/-- The ticket of what is left of its order. -/
def kept (tk : Ticket) (out : Outcome) : Option Ticket :=
  out.deferred.map fun order => { tk with order }

def events (tk : Ticket) (out : Outcome) : List DeskEvent :=
  if out.fill.isSome then [.filled tk] else if out.met then [.met tk] else []

end Ticket

structure TicketBatch where
  out : BatchOutcome
  deferred : List Ticket := []
  events : List DeskEvent := []

/-- `executeOrders` on tickets. -/
def executeTickets (cfg : BrokerConfig) (p : Portal) (timestamp : Time) :
    Book → List Ticket → Option TicketBatch
  | b, [] => some { out := { book := b } }
  | b, tk :: tks =>
    (executeOrder cfg p timestamp {} b tk.order).bind fun out =>
      (executeTickets cfg p timestamp out.book tks).map fun rest =>
        { out := rest.out.after tk.order out
          deferred := (tk.kept out).toList ++ rest.deferred
          events := tk.events out ++ rest.events }

theorem executeTickets_out (cfg : BrokerConfig) (p : Portal) (timestamp : Time) (b : Book)
    (tks : List Ticket) :
    (executeTickets cfg p timestamp b tks).map TicketBatch.out =
      executeOrders cfg p timestamp {} b (tks.map Ticket.order) := by
  induction tks generalizing b with
  | nil => rfl
  | cons tk tks ih =>
    rw [executeTickets, List.map_cons, executeOrders]
    cases executeOrder cfg p timestamp {} b tk.order with
    | none => rfl
    | some out =>
      rw [Option.bind_some, Option.bind_some, Option.map_map, ← ih out.book, Option.map_map]
      rfl

theorem executeTickets_deferred {cfg : BrokerConfig} {p : Portal} {timestamp : Time} {b : Book}
    {tks : List Ticket} {o : TicketBatch} (h : executeTickets cfg p timestamp b tks = some o) :
    o.deferred.map Ticket.order = o.out.deferred := by
  induction tks generalizing b o with
  | nil =>
    obtain rfl := Option.some.inj h
    rfl
  | cons tk tks ih =>
    obtain ⟨out, -, h⟩ := Option.bind_eq_some_iff.mp h
    obtain ⟨rest, hrest, rfl⟩ := Option.map_eq_some_iff.mp h
    have htail : rest.deferred.map Ticket.order = rest.out.deferred := ih hrest
    show ((tk.kept out).toList ++ rest.deferred).map Ticket.order =
      out.deferred.toList ++ rest.out.deferred
    rw [List.map_append, htail, Ticket.kept]
    cases out.deferred with
    | none => rfl
    | some order => rfl

/-- The same call asked for both. -/
structure Ticket.Same (tk tk' : Ticket) : Prop where
  asked : tk.asked = tk'.asked
  sequence : tk.sequence = tk'.sequence
  kind : tk.order.kind = tk'.order.kind
  positionKey : tk.order.positionKey = tk'.order.positionKey
  clientOrderId : tk.order.clientOrderId = tk'.order.clientOrderId

/-- What is left of an order is the same order. -/
theorem Ticket.kept_same {cfg : BrokerConfig} {p : Portal} {timestamp : Time} {b : Book}
    {tk k : Ticket} {out : Outcome} (h : executeOrder cfg p timestamp {} b tk.order = some out)
    (hk : tk.kept out = some k) : k.Same tk := by
  obtain ⟨order, horder, rfl⟩ := Option.map_eq_some_iff.mp hk
  have hsame : order.kind = tk.order.kind ∧ order.positionKey = tk.order.positionKey ∧
      order.clientOrderId = tk.order.clientOrderId := by
    cases executeOrder_tried h with
    | blocked reason =>
      unfold blockOrder at horder
      split at horder
      · cases horder
      · obtain rfl := Option.some.inj horder
        exact ⟨rfl, rfl, rfl⟩
    | rejected reason requested => cases horder
    | resting openPrice z hsized =>
      obtain rfl := Option.some.inj horder
      exact ⟨rfl, rfl, rfl⟩
    | filled openPrice z fillPrice reference hsized hquote hlots =>
      unfold fillOrder at horder
      dsimp only at horder
      split at horder
      · obtain rfl := Option.some.inj horder
        unfold remainder
        dsimp only
        split
        · exact ⟨rfl, rfl, rfl⟩
        · exact ⟨rfl, rfl, rfl⟩
        · exact ⟨rfl, rfl, rfl⟩
      · cases horder
  exact ⟨rfl, rfl, hsame.1, hsame.2.1, hsame.2.2⟩

/-- What a batch keeps is left of its orders. -/
theorem executeTickets_kept {cfg : BrokerConfig} {p : Portal} {timestamp : Time} {b : Book}
    {tks : List Ticket} {o : TicketBatch} (h : executeTickets cfg p timestamp b tks = some o)
    {k : Ticket} (hk : k ∈ o.deferred) : ∃ tk ∈ tks, k.Same tk := by
  induction tks generalizing b o with
  | nil =>
    obtain rfl := Option.some.inj h
    cases hk
  | cons tk tks ih =>
    obtain ⟨out, hout, h⟩ := Option.bind_eq_some_iff.mp h
    obtain ⟨rest, hrest, rfl⟩ := Option.map_eq_some_iff.mp h
    rcases List.mem_append.mp hk with hk | hk
    · exact ⟨tk, List.mem_cons_self, Ticket.kept_same hout (Option.mem_toList.mp hk)⟩
    · obtain ⟨tk', htk', hsame⟩ := ih hrest hk
      exact ⟨tk', List.mem_cons_of_mem tk htk', hsame⟩

/-- What happens in a batch happens to its orders. -/
theorem executeTickets_events {cfg : BrokerConfig} {p : Portal} {timestamp : Time} {b : Book}
    {tks : List Ticket} {o : TicketBatch} (h : executeTickets cfg p timestamp b tks = some o)
    {e : DeskEvent} (he : e ∈ o.events) : ∃ tk ∈ tks, e = .filled tk ∨ e = .met tk := by
  induction tks generalizing b o with
  | nil =>
    obtain rfl := Option.some.inj h
    cases he
  | cons tk tks ih =>
    obtain ⟨out, hout, h⟩ := Option.bind_eq_some_iff.mp h
    obtain ⟨rest, hrest, rfl⟩ := Option.map_eq_some_iff.mp h
    rcases List.mem_append.mp he with he | he
    · refine ⟨tk, List.mem_cons_self, ?_⟩
      unfold Ticket.events at he
      split at he
      · exact .inl (List.mem_singleton.mp he)
      · split at he
        · exact .inr (List.mem_singleton.mp he)
        · cases he
    · obtain ⟨tk', htk', hcase⟩ := ih hrest he
      exact ⟨tk', List.mem_cons_of_mem tk htk', hcase⟩

/-! ## The pending list -/

/-- Two targets of one leg. -/
def Ticket.rivals (tk tk' : Ticket) : Prop :=
  tk.order.kind.isTarget ∧ tk'.order.kind.isTarget ∧ tk.order.positionKey = tk'.order.positionKey

instance (tk tk' : Ticket) : Decidable (tk.rivals tk') := inferInstanceAs (Decidable (_ ∧ _))

/-- `_merge_pending` on tickets. -/
def mergeTickets (current incoming : List Ticket) : List Ticket :=
  incoming.foldl (fun output tk => (output.filter fun item => ¬ item.rivals tk) ++ [tk]) current

theorem mergeTickets_order (current incoming : List Ticket) :
    (mergeTickets current incoming).map Ticket.order =
      mergePending (current.map Ticket.order) (incoming.map Ticket.order) := by
  unfold mergeTickets mergePending
  induction incoming generalizing current with
  | nil => rfl
  | cons tk incoming ih =>
    rw [List.foldl_cons, List.map_cons, List.foldl_cons, ih]
    congr 1
    rw [List.map_append, List.map_singleton]
    congr 1
    split
    next htarget =>
      rw [List.filter_map]
      congr 1
      refine List.filter_congr fun item _ => ?_
      unfold Ticket.rivals
      simp only [htarget, true_and, Function.comp_apply, and_comm]
    next htarget =>
      congr 1
      refine List.filter_eq_self.mpr fun item _ => decide_eq_true fun hrivals => ?_
      exact htarget hrivals.2.1

/-- What is merged was current or came in. -/
theorem mergeTickets_sublist (current incoming : List Ticket) :
    (mergeTickets current incoming).Sublist (current ++ incoming) := by
  unfold mergeTickets
  induction incoming generalizing current with
  | nil =>
    rw [List.append_nil]
    exact List.Sublist.refl _
  | cons tk incoming ih =>
    rw [List.foldl_cons]
    refine (ih _).trans ?_
    rw [List.append_assoc, List.singleton_append]
    exact List.filter_sublist.append_right _

theorem mem_mergeTickets_or {current incoming : List Ticket} {w : Ticket}
    (hw : w ∈ mergeTickets current incoming) : w ∈ current ∨ w ∈ incoming :=
  List.mem_append.mp ((mergeTickets_sublist current incoming).subset hw)

/-! ## Acts -/

/-- What the bar does next. -/
inductive Phase
  | pending | protections | opening | closing | after
  deriving DecidableEq, Repr

/-- The acts of a bar. -/
inductive Act (G : Type)
  | executePending (p : Portal) (timestamp : Time)
  | exitProtections (p : Portal) (timestamp : Time)
  | invokeOpening (p : Portal) (timestamp : Time) (callback : Callback G)
  | executeOpening (p : Portal) (timestamp : Time)
  | liquidate (p : Portal) (timestamp : Time)
  | invokeClosing (p : Portal) (timestamp : Time) (callback : Callback G)
  | finish (p : Portal) (timestamp : Time)

namespace Act

variable {G : Type}

/-- The phase an act is done in. -/
def before : Act G → Phase
  | .executePending .. => .pending
  | .exitProtections .. => .protections
  | .invokeOpening .. => .opening
  | .executeOpening .. => .opening
  | .liquidate .. => .closing
  | .invokeClosing .. => .after
  | .finish .. => .after

/-- The phase it leads to. -/
def after : Act G → Phase
  | .executePending .. => .protections
  | .exitProtections .. => .opening
  | .invokeOpening .. => .opening
  | .executeOpening .. => .closing
  | .liquidate .. => .after
  | .invokeClosing .. => .after
  | .finish .. => .pending

def isFinish : Act G → Bool
  | .finish .. => true
  | _ => false

end Act

/-- The runner with the tickets of its pending orders, the tickets queued before
the close, and the log. -/
structure Desk (G : Type) where
  broker : Broker
  session : Session G
  pending : List Ticket := []
  opening : List Ticket := []
  log : List DeskEvent := []
  phase : Phase := .pending
  deriving DecidableEq

namespace Desk

variable {G : Type}

/-- The runner the desk belongs to. -/
def runner (d : Desk G) : Runner G where
  broker := d.broker
  session := { d.session with pendingOrders := d.pending.map Ticket.order }

def start (cfg : BrokerConfig) (prog : Program G) : Desk G where
  broker := (Runner.start cfg prog).broker
  session := (Runner.start cfg prog).session

/-- `Broker.execute` on tickets. -/
def execute (cfg : BrokerConfig) (p : Portal) (timestamp : Time) (d : Desk G) (tks : List Ticket) :
    Option (Desk G × List Ticket) :=
  (executeTickets cfg p timestamp (d.broker.book.markToMarket p) tks).map fun o =>
    ({ d with
        broker := { d.broker with
          book := o.out.book.markToMarket p
          protections := o.out.fills.foldl
            (fun ps e => Broker.protectionsAfter ps timestamp e.1 e.2) d.broker.protections }
        session := d.session.syncOrderStatuses (o.out.book.markToMarket p)
        log := d.log ++ o.events },
      o.deferred)

/-- What a callback queues and cancels. -/
def events (p : Portal) (timestamp : Time) (callback : Callback G) (d : Desk G) :
    Option (List DeskEvent) :=
  (callback (viewOf p timestamp d.broker.book d.session) d.session.strategy).bind fun answer =>
    (d.session.context.performLogged p.symbols timestamp answer.2).map Prod.snd

/-- A callback, with the tickets it queues. -/
def invoke (p : Portal) (timestamp : Time) (callback : Callback G) (d : Desk G) :
    Option (Desk G × List Ticket) :=
  (callback (viewOf p timestamp d.broker.book d.session) d.session.strategy).bind fun answer =>
    (d.session.context.performLogged p.symbols timestamp answer.2).map fun o =>
      let cancelled := o.1.cancelledOrderIds
      ({ d with
          broker := { d.broker with book := d.broker.book.releaseResting cancelled }
          session := { d.session with
            strategy := answer.1
            context := { o.1 with cancelledOrderIds := [], orders := [] } }
          pending := d.pending.filter fun tk =>
            ¬ ∃ reference ∈ tk.order.clientOrderId, reference ∈ cancelled
          log := d.log ++ o.2 },
        queuedIn o.2)

/-- What an act does on an account that is not bankrupt. -/
def perform (cfg : BrokerConfig) (d : Desk G) : Act G → Option (Desk G)
  | .executePending p timestamp =>
    if d.pending = [] then some d
    else (d.execute cfg p timestamp d.pending).map fun e => { e.1 with pending := e.2 }
  | .exitProtections p timestamp =>
    (d.broker.processProtections cfg p timestamp).map fun e =>
      { d with broker := e.1, session := d.session.setExitReasons e.2 }
  | .invokeOpening p timestamp callback =>
    (d.invoke p timestamp callback).map fun o => { o.1 with opening := d.opening ++ o.2 }
  | .executeOpening p timestamp =>
    if d.opening = [] then some d
    else (d.execute cfg p timestamp d.opening).map fun e =>
      { e.1 with pending := mergeTickets d.pending e.2, opening := [] }
  | .liquidate p timestamp =>
    (d.broker.liquidateIfInsolvent cfg p timestamp).map fun e =>
      if e.2 then { d with broker := e.1, session := d.session.flushOrders, pending := [] }
      else { d with broker := e.1 }
  | .invokeClosing p timestamp callback =>
    (d.invoke p timestamp callback).map fun o =>
      { o.1 with pending := mergeTickets o.1.pending o.2 }
  | .finish p timestamp =>
    some { d with
      broker := d.broker.recordEquity p timestamp
      session := { d.session with previous := some timestamp } }

/-- **An act.**  A bankrupt account only goes on recording its equity. -/
def step (cfg : BrokerConfig) (d : Desk G) (a : Act G) : Option (Desk G) :=
  if d.phase = a.before then
    (if d.broker.bankrupt ∧ ¬ a.isFinish then some d else d.perform cfg a).map fun d' =>
      { d' with phase := a.after }
  else none

end Desk

/-- The acts of a bar of `run`. -/
def barActs {G : Type} (prog : Program G) (frames : Frames) (previous : Option Time) (t : Time) :
    List (Act G) :=
  let before := portalAt frames t false
  let after := portalAt frames t true
  .executePending before t :: .exitProtections before t ::
    ((prog.openingCallbacks t previous).map (.invokeOpening before t) ++
      [.executeOpening before t, .liquidate after t, .invokeClosing after t prog.handleData,
        .invokeClosing after t prog.afterTradingEnd, .finish after t])

/-- The acts of the bars at these times. -/
def runActs {G : Type} (prog : Program G) (frames : Frames) : Option Time → List Time → List (Act G)
  | _, [] => []
  | previous, t :: ts => barActs prog frames previous t ++ runActs prog frames (some t) ts

/-! ## What acts leave alone -/

namespace Desk

variable {G : Type} {cfg : BrokerConfig} {p : Portal} {timestamp : Time}

/-- Between acts nothing is queued or cancelled in the context. -/
structure Clear (d : Desk G) : Prop where
  orders : d.session.context.orders = []
  cancelled : d.session.context.cancelledOrderIds = []

theorem summarize_context (s : Session G) (event : OrderEvent) :
    (s.summarize event).context.orders = s.context.orders ∧
      (s.summarize event).context.cancelledOrderIds = s.context.cancelledOrderIds ∧
      (s.summarize event).context.orderSequence = s.context.orderSequence ∧
      (s.summarize event).previous = s.previous := by
  unfold Session.summarize
  split
  · exact ⟨rfl, rfl, rfl, rfl⟩
  · exact ⟨rfl, rfl, rfl, rfl⟩

theorem syncOrderStatuses_context (s : Session G) (b : Book) :
    (s.syncOrderStatuses b).context.orders = s.context.orders ∧
      (s.syncOrderStatuses b).context.cancelledOrderIds = s.context.cancelledOrderIds ∧
      (s.syncOrderStatuses b).context.orderSequence = s.context.orderSequence ∧
      (s.syncOrderStatuses b).previous = s.previous := by
  unfold Session.syncOrderStatuses
  dsimp only
  induction b.orderLedger.drop s.orderStatusCursor generalizing s with
  | nil => exact ⟨rfl, rfl, rfl, rfl⟩
  | cons event events ih =>
    obtain ⟨h₁, h₂, h₃, h₄⟩ := summarize_context s event
    obtain ⟨h₁', h₂', h₃', h₄'⟩ := ih (s.summarize event)
    rw [List.foldl_cons]
    exact ⟨h₁'.trans h₁, h₂'.trans h₂, h₃'.trans h₃, h₄'.trans h₄⟩

/-- **What an act does**: nothing, on a bankrupt account, or what `perform` says. -/
theorem step_spec {d d' : Desk G} {a : Act G} (h : d.step cfg a = some d') :
    d.phase = a.before ∧ ∃ d₁, d' = { d₁ with phase := a.after } ∧
      ((d₁ = d ∧ d.broker.bankrupt = true) ∨
        (d.broker.bankrupt = true → a.isFinish = true) ∧ d.perform cfg a = some d₁) := by
  unfold step at h
  split at h
  next hphase =>
    obtain ⟨d₁, hd₁, rfl⟩ := Option.map_eq_some_iff.mp h
    refine ⟨hphase, d₁, rfl, ?_⟩
    split at hd₁
    next hidle => exact .inl ⟨(Option.some.inj hd₁).symm, hidle.1⟩
    next hactive =>
      refine .inr ⟨fun hbankrupt => ?_, hd₁⟩
      by_contra hfinish
      exact hactive ⟨hbankrupt, hfinish⟩
  · cases h

/-- **What a callback does** to the desk. -/
theorem invoke_spec {d : Desk G} {callback : Callback G} {o : Desk G × List Ticket}
    (hclear : d.Clear) (h : d.invoke p timestamp callback = some o) :
    ∃ log, d.events p timestamp callback = some log ∧
      Numbered d.session.context o.1.session.context log ∧ o.2 = queuedIn log ∧
      o.1.log = d.log ++ log ∧ o.1.opening = d.opening ∧ o.1.Clear ∧
      o.1.broker.bankrupt = d.broker.bankrupt ∧
      o.1.pending = d.pending.filter fun tk =>
        ¬ ∃ reference ∈ tk.order.clientOrderId, reference ∈ cancelledIn log := by
  obtain ⟨answer, hanswer, h⟩ := Option.bind_eq_some_iff.mp h
  obtain ⟨logged, hlogged, rfl⟩ := Option.map_eq_some_iff.mp h
  have hevents : d.events p timestamp callback = some logged.2 :=
    Option.bind_eq_some_iff.mpr ⟨answer, hanswer, Option.map_eq_some_iff.mpr ⟨logged, hlogged, rfl⟩⟩
  have hcancelled : logged.1.cancelledOrderIds = cancelledIn logged.2 := by
    rw [(Context.performLogged_events hlogged).2, hclear.cancelled, List.nil_append]
  obtain ⟨hle, hqueued, hcancels, hrequests, hordered⟩ := Numbered.performLogged hlogged
  refine ⟨logged.2, hevents, ⟨hle, hqueued, hcancels, hrequests, hordered⟩, rfl, rfl, rfl,
    ⟨rfl, rfl⟩, rfl, ?_⟩
  dsimp only
  rw [hcancelled]

/-- Orders wait for the open only between the callbacks and the open. -/
structure Staged (d : Desk G) : Prop where
  clear : d.Clear
  opening : d.phase ≠ .opening → d.opening = []
  bankrupt : d.broker.bankrupt = true → d.opening = []

theorem execute_frame {d : Desk G} {tks : List Ticket} {e : Desk G × List Ticket}
    (h : d.execute cfg p timestamp tks = some e) :
    ∃ o, executeTickets cfg p timestamp (d.broker.book.markToMarket p) tks = some o ∧
      e.2 = o.deferred ∧ e.1.log = d.log ++ o.events ∧ e.1.opening = d.opening ∧
      e.1.broker.bankrupt = d.broker.bankrupt ∧ (d.Clear → e.1.Clear) ∧
      e.1.session.context.orderSequence = d.session.context.orderSequence := by
  obtain ⟨o, ho, rfl⟩ := Option.map_eq_some_iff.mp h
  obtain ⟨horders, hcancelled, hsequence, -⟩ :=
    syncOrderStatuses_context d.session (o.out.book.markToMarket p)
  exact ⟨o, ho, rfl, rfl, rfl, rfl,
    fun hclear => ⟨horders.trans hclear.orders, hcancelled.trans hclear.cancelled⟩, hsequence⟩

/-- **One act** keeps the orders staged. -/
theorem step_staged (d : Desk G) (a : Act G) (d' : Desk G) (hd : d.Staged)
    (h : d.step cfg a = some d') : d'.Staged := by
  obtain ⟨hphase, d₁, rfl, ⟨rfl, hbankrupt⟩ | ⟨hactive, hperform⟩⟩ := step_spec h
  · exact ⟨⟨hd.clear.orders, hd.clear.cancelled⟩, fun _ => hd.bankrupt hbankrupt, hd.bankrupt⟩
  have hearly : a.before ≠ .opening → d.opening = [] := fun hne => hd.opening (hphase ▸ hne)
  cases a with
  | executePending p timestamp =>
    have hnone : d.opening = [] := hearly Phase.noConfusion
    dsimp only [perform] at hperform
    split at hperform
    · obtain rfl := Option.some.inj hperform
      exact ⟨⟨hd.clear.orders, hd.clear.cancelled⟩, fun _ => hnone, fun _ => hnone⟩
    · obtain ⟨e, he, rfl⟩ := Option.map_eq_some_iff.mp hperform
      obtain ⟨o, -, -, -, hopening, -, hclear, -⟩ := execute_frame he
      have hnone' : e.1.opening = [] := hopening.trans hnone
      obtain ⟨horders, hcancelled⟩ := hclear hd.clear
      exact ⟨⟨horders, hcancelled⟩, fun _ => hnone', fun _ => hnone'⟩
  | exitProtections p timestamp =>
    have hnone : d.opening = [] := hearly Phase.noConfusion
    obtain ⟨e, -, rfl⟩ := Option.map_eq_some_iff.mp hperform
    exact ⟨⟨hd.clear.orders, hd.clear.cancelled⟩, fun _ => hnone, fun _ => hnone⟩
  | invokeOpening p timestamp callback =>
    obtain ⟨o, ho, rfl⟩ := Option.map_eq_some_iff.mp hperform
    obtain ⟨log, -, -, -, -, -, hclear, hbankrupt, -⟩ := invoke_spec hd.clear ho
    refine ⟨⟨hclear.orders, hclear.cancelled⟩, fun hne => absurd rfl hne, fun hb => ?_⟩
    exact absurd (hactive (hbankrupt.symm.trans hb)) Bool.false_ne_true
  | executeOpening p timestamp =>
    dsimp only [perform] at hperform
    split at hperform
    next hnone =>
      obtain rfl := Option.some.inj hperform
      exact ⟨⟨hd.clear.orders, hd.clear.cancelled⟩, fun _ => hnone, fun _ => hnone⟩
    · obtain ⟨e, he, rfl⟩ := Option.map_eq_some_iff.mp hperform
      obtain ⟨o, -, -, -, -, -, hclear, -⟩ := execute_frame he
      obtain ⟨horders, hcancelled⟩ := hclear hd.clear
      exact ⟨⟨horders, hcancelled⟩, fun _ => rfl, fun _ => rfl⟩
  | liquidate p timestamp =>
    have hnone : d.opening = [] := hearly Phase.noConfusion
    obtain ⟨e, -, rfl⟩ := Option.map_eq_some_iff.mp hperform
    split
    · exact ⟨⟨rfl, hd.clear.cancelled⟩, fun _ => hnone, fun _ => hnone⟩
    · exact ⟨⟨hd.clear.orders, hd.clear.cancelled⟩, fun _ => hnone, fun _ => hnone⟩
  | invokeClosing p timestamp callback =>
    have hnone : d.opening = [] := hearly Phase.noConfusion
    obtain ⟨o, ho, rfl⟩ := Option.map_eq_some_iff.mp hperform
    obtain ⟨log, -, -, -, -, hopening, hclear, -, -⟩ := invoke_spec hd.clear ho
    have hnone' : o.1.opening = [] := hopening.trans hnone
    exact ⟨⟨hclear.orders, hclear.cancelled⟩, fun _ => hnone', fun _ => hnone'⟩
  | finish p timestamp =>
    have hnone : d.opening = [] := hearly Phase.noConfusion
    obtain rfl := Option.some.inj hperform
    exact ⟨⟨hd.clear.orders, hd.clear.cancelled⟩, fun _ => hnone, fun _ => hnone⟩

theorem start_staged (cfg : BrokerConfig) (prog : Program G) : (start cfg prog).Staged :=
  ⟨⟨rfl, rfl⟩, fun _ => rfl, fun _ => rfl⟩

end Desk

end AlgoTrade.Backtest
