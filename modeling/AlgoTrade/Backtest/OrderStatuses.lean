import AlgoTrade.Backtest.LedgerRows

/-! # Order statuses

What `get_order_status` shows at the callbacks of a run, against the pending orders.

* `StatusTrue`: an order of an earlier bar with an open status is pending; one whose
  status is closed fills no more.
* `KeepsTrack`: no rest of a partial fill is lost, no target with an open status meets a
  newer one of its leg, and no id is cut.
* `statusTrue_of_keepsTrack`: every callback of a run. -/

namespace AlgoTrade.Backtest

variable {G : Type}

/-! ## The property -/

/-- A callback may be next. -/
def Desk.AtCallback (d : Desk G) : Prop :=
  d.broker.bankrupt = false ∧ (d.phase = .opening ∨ d.phase = .after)

instance (d : Desk G) : Decidable d.AtCallback := inferInstanceAs (Decidable (_ ∧ _))

/-- The status of an order at `d`, from where the run goes on to `d'`: an open order is
pending, and is so again when the pending orders are tried; the others fill no more. -/
structure StatusTrue (d d' : Desk G) (tk : Ticket) : Prop where
  waits : (d.session.context.statusOf tk.asked).isOpen = true →
    ∃ w ∈ d.pending, w.asked = tk.asked ∧ w.sequence = tk.sequence
  again : d'.broker.bankrupt = false → d'.phase = .pending →
    (d'.session.context.statusOf tk.asked).isOpen = true →
      ∃ w ∈ d'.pending, w.asked = tk.asked ∧ w.sequence = tk.sequence
  ends : (d.session.context.statusOf tk.asked).isOpen = false →
    ∀ w, .filled w ∈ d'.log.drop d.log.length → w.asked ≠ tk.asked

/-! ## The condition -/

/-- The strategy asks for each order under an id of its own. -/
def UsesFreshIds (d : Desk G) : Act G → Prop
  | .invokeOpening p timestamp callback | .invokeClosing p timestamp callback =>
    ∀ log ∈ d.events p timestamp callback,
      ((queuedIn d.log ++ queuedIn log).map Ticket.asked).Nodup
  | _ => True

instance (d : Desk G) (a : Act G) : Decidable (UsesFreshIds d a) :=
  match a with
  | .invokeOpening p timestamp callback | .invokeClosing p timestamp callback =>
    inferInstanceAs (Decidable (∀ log ∈ d.events p timestamp callback, _))
  | .executePending .. | .exitProtections .. | .executeOpening .. | .liquidate .. | .finish .. =>
    inferInstanceAs (Decidable True)

/-- The ids of the orders the callback asks for are kept whole. -/
def KeepsIds (d : Desk G) (p : Portal) (timestamp : Time) (callback : Callback G) : Prop :=
  ∀ log ∈ d.events p timestamp callback, ∀ tk ∈ queuedIn log, tk.asked.stored = tk.asked

instance (d : Desk G) (p : Portal) (timestamp : Time) (callback : Callback G) :
    Decidable (KeepsIds d p timestamp callback) :=
  inferInstanceAs (Decidable (∀ log ∈ d.events p timestamp callback, _))

/-- No target with an open status meets a newer target of its leg. -/
structure DropsNone (c : Context) (current incoming : List Ticket) : Prop where
  current : ∀ w ∈ current, ∀ k ∈ incoming, w.rivals k → (c.statusOf w.asked).isOpen = false
  incoming : incoming.Pairwise fun w k => w.rivals k → (c.statusOf w.asked).isOpen = false

instance (c : Context) (current incoming : List Ticket) :
    Decidable (DropsNone c current incoming) :=
  decidable_of_iff (_ ∧ _) ⟨fun h => ⟨h.1, h.2⟩, fun h => ⟨h.current, h.incoming⟩⟩

def KeepsTrack (cfg : BrokerConfig) (d : Desk G) : Act G → Prop
  | .executePending p timestamp =>
    RestsKept cfg p timestamp (d.broker.book.markToMarket p) d.pending
  | .invokeOpening p timestamp callback => KeepsIds d p timestamp callback
  | .executeOpening p timestamp =>
    RestsKept cfg p timestamp (d.broker.book.markToMarket p) d.opening ∧
      ∀ e ∈ d.execute cfg p timestamp d.opening,
        DropsNone e.1.session.context d.pending e.2
  | .invokeClosing p timestamp callback =>
    KeepsIds d p timestamp callback ∧
      ∀ o ∈ d.invoke p timestamp callback, DropsNone o.1.session.context o.1.pending o.2
  | _ => True

instance (cfg : BrokerConfig) (d : Desk G) (a : Act G) : Decidable (KeepsTrack cfg d a) :=
  match a with
  | .executePending p timestamp =>
    inferInstanceAs (Decidable (RestsKept cfg p timestamp (d.broker.book.markToMarket p) d.pending))
  | .invokeOpening p timestamp callback =>
    inferInstanceAs (Decidable (KeepsIds d p timestamp callback))
  | .executeOpening p timestamp =>
    inferInstanceAs (Decidable (RestsKept .. ∧ ∀ e ∈ d.execute cfg p timestamp d.opening, _))
  | .invokeClosing p timestamp callback =>
    inferInstanceAs (Decidable (KeepsIds .. ∧ ∀ o ∈ d.invoke p timestamp callback, _))
  | .exitProtections .. | .liquidate .. | .finish .. => inferInstanceAs (Decidable True)

/-! ## The merge -/

/-- Orders without a later rival are merged. -/
theorem mem_mergeTickets_of_none {current incoming : List Ticket} {w : Ticket}
    (hw : (w ∈ current ∧ ∀ k ∈ incoming, ¬ w.rivals k) ∨
      ∃ before after, incoming = before ++ w :: after ∧ ∀ k ∈ after, ¬ w.rivals k) :
    w ∈ mergeTickets current incoming := by
  unfold mergeTickets
  induction incoming generalizing current with
  | nil =>
    rcases hw with ⟨hw, -⟩ | ⟨before, after, heq, -⟩
    · exact hw
    · cases before with
      | nil => cases heq
      | cons tk before => cases heq
  | cons tk incoming ih =>
    rw [List.foldl_cons]
    refine ih ?_
    rcases hw with ⟨hw, hnone⟩ | ⟨before, after, heq, hnone⟩
    · refine .inl ⟨List.mem_append_left _ (List.mem_filter.mpr ⟨hw, decide_eq_true ?_⟩),
        fun k hk => hnone k (List.mem_cons_of_mem tk hk)⟩
      exact hnone tk List.mem_cons_self
    · cases before with
      | nil =>
        obtain ⟨rfl, rfl⟩ := List.cons.inj heq
        exact .inl ⟨List.mem_append_right _ (List.mem_singleton.mpr rfl), hnone⟩
      | cons tk' before =>
        obtain ⟨rfl, rfl⟩ := List.cons.inj heq
        exact .inr ⟨before, after, rfl, hnone⟩

theorem DropsNone.mem {c : Context} {current incoming : List Ticket}
    (h : DropsNone c current incoming) {w : Ticket} (hw : w ∈ current ++ incoming)
    (hopen : (c.statusOf w.asked).isOpen = true) : w ∈ mergeTickets current incoming := by
  refine mem_mergeTickets_of_none ?_
  rcases List.mem_append.mp hw with hw | hw
  · refine .inl ⟨hw, fun k hk hrivals => ?_⟩
    exact Bool.false_ne_true ((h.current w hw k hk hrivals).symm.trans hopen)
  · obtain ⟨before, after, rfl⟩ := List.append_of_mem hw
    refine .inr ⟨before, after, rfl, fun k hk hrivals => ?_⟩
    have hclosed := (List.pairwise_cons.mp (List.pairwise_append.mp h.incoming).2.1).1 k hk hrivals
    exact Bool.false_ne_true (hclosed.symm.trans hopen)

/-! ## Ids -/

theorem ClientRef.stripped_named {text : String} {reference : ClientRef}
    (h : ClientRef.named text = some reference) : reference.stripped = some reference := by
  unfold named at h
  split at h
  · cases h
  next hne =>
    obtain rfl := Option.some.inj h
    show named (Text.strip text) = _
    unfold named
    rw [Text.strip_strip, if_neg hne]

theorem OrderRequest.stripped_reference (r : OrderRequest) (currentDt : Time) (sequence : ℕ) :
    (r.reference currentDt sequence).stripped = some (r.reference currentDt sequence) := by
  unfold reference
  cases hid : r.clientOrderId.bind ClientRef.named with
  | none => rfl
  | some given =>
    obtain ⟨text, -, hnamed⟩ := Option.bind_eq_some_iff.mp hid
    exact ClientRef.stripped_named hnamed

/-! ## Requests -/

section
variable {symbols : List Instrument} {currentDt : Time} {c c' : Context}

/-- **A request** closes the status of the order it cancels, and no other. -/
theorem perform_statusOf {r : Request} (h : c.perform symbols currentDt r = some c')
    (reference : ClientRef) :
    (reference ∈ cancelledIn (c.events currentDt c' r) →
        (c'.statusOf reference).isOpen = false) ∧
      (reference ∉ cancelledIn (c.events currentDt c' r) →
        (c'.statusOf reference).isOpen = (c.statusOf reference).isOpen) := by
  cases r with
  | order r =>
    obtain ⟨order, -, rfl⟩ := Context.queue_spec h
    rw [Context.events_order rfl]
    refine ⟨fun hcancelled => (by cases hcancelled), fun _ => ?_⟩
    unfold Context.statusOf
    dsimp only
    split
    · rfl
    next hnone =>
      rw [Dict.get?_set]
      split
      next heq =>
        subst heq
        rw [hnone]
        rfl
      · rfl
  | cancelOrder reference' =>
    obtain rfl := Option.some.inj h
    unfold Context.events Context.cancelOrder
    dsimp only
    cases c.cancels reference' with
    | none => exact ⟨fun hcancelled => (by cases hcancelled), fun _ => rfl⟩
    | some cancelled =>
      have hlog : cancelledIn ((some cancelled).toList.map fun reference =>
          DeskEvent.cancelled reference c.orderSequence) = [cancelled] := rfl
      rw [hlog, List.mem_singleton]
      unfold Context.statusOf
      dsimp only
      rw [Dict.get?_set]
      refine ⟨fun heq => ?_, fun hne => ?_⟩
      · rw [if_pos heq.symm]
        rfl
      · rw [if_neg fun heq => hne heq.symm]
  | setDefaultProtection values =>
    obtain rfl := Option.some.inj h
    exact ⟨fun hcancelled => (by cases hcancelled), fun _ => rfl⟩
  | consumeLastExitReason symbol =>
    obtain rfl := Option.some.inj h
    exact ⟨fun hcancelled => (by cases hcancelled), fun _ => rfl⟩

theorem performLogged_statusOf {rs : List Request} {o : Context × List DeskEvent}
    (h : c.performLogged symbols currentDt rs = some o) (reference : ClientRef) :
    (reference ∈ cancelledIn o.2 → (o.1.statusOf reference).isOpen = false) ∧
      (reference ∉ cancelledIn o.2 →
        (o.1.statusOf reference).isOpen = (c.statusOf reference).isOpen) := by
  induction rs generalizing c o with
  | nil =>
    obtain rfl := Option.some.inj h
    exact ⟨fun hcancelled => (by cases hcancelled), fun _ => rfl⟩
  | cons r rs ih =>
    obtain ⟨c', hc', h⟩ := Option.bind_eq_some_iff.mp h
    obtain ⟨rest, hrest, rfl⟩ := Option.map_eq_some_iff.mp h
    obtain ⟨hin, hout⟩ := perform_statusOf hc' reference
    obtain ⟨hin', hout'⟩ := ih hrest
    dsimp only
    rw [cancelledIn_append, List.mem_append, not_or]
    refine ⟨fun hcancelled => ?_, fun hnone => (hout' hnone.2).trans (hout hnone.1)⟩
    by_cases hlater : reference ∈ cancelledIn rest.2
    · exact hin' hlater
    · exact (hout' hlater).trans (hin (hcancelled.resolve_right hlater))

/-- Orders are asked under stripped ids. -/
theorem performLogged_stripped {rs : List Request} {o : Context × List DeskEvent}
    (h : c.performLogged symbols currentDt rs = some o) :
    ∀ tk ∈ queuedIn o.2, tk.asked.stripped = some tk.asked := by
  induction rs generalizing c o with
  | nil =>
    obtain rfl := Option.some.inj h
    exact fun tk htk => (by cases htk)
  | cons r rs ih =>
    obtain ⟨c', hc', h⟩ := Option.bind_eq_some_iff.mp h
    obtain ⟨rest, hrest, rfl⟩ := Option.map_eq_some_iff.mp h
    dsimp only
    rw [queuedIn_append]
    intro tk htk
    rcases List.mem_append.mp htk with htk | htk
    · cases r with
      | order r =>
        obtain ⟨order, -, rfl⟩ := Context.queue_spec hc'
        rw [Context.events_order rfl] at htk
        obtain rfl := List.mem_singleton.mp htk
        exact r.stripped_reference currentDt _
      | cancelOrder reference =>
        obtain ⟨e, he, hqueued⟩ := List.mem_filterMap.mp htk
        obtain ⟨reference', -, rfl⟩ := List.mem_map.mp he
        cases hqueued
      | setDefaultProtection values => cases htk
      | consumeLastExitReason symbol => cases htk
    · exact ih hrest tk htk

end

/-- **A callback** closes the statuses it cancels and ends the resting periods of these
orders. -/
theorem invoke_statusOf {d : Desk G} {p : Portal} {timestamp : Time} {callback : Callback G}
    {o : Desk G × List Ticket} {log : List DeskEvent} (hclear : d.Clear)
    (hevents : d.events p timestamp callback = some log)
    (h : d.invoke p timestamp callback = some o) :
    (∀ reference, (reference ∈ cancelledIn log →
        (o.1.session.context.statusOf reference).isOpen = false) ∧
      (reference ∉ cancelledIn log → (o.1.session.context.statusOf reference).isOpen =
        (d.session.context.statusOf reference).isOpen)) ∧
      (∀ reference, o.1.broker.book.restingDeferredEvents.get? reference =
        if reference ∈ cancelledIn log then none
        else d.broker.book.restingDeferredEvents.get? reference) ∧
      (∀ tk ∈ queuedIn log, tk.asked.stripped = some tk.asked) ∧
      o.1.broker.book.orderLedger = d.broker.book.orderLedger ∧
      o.1.session.orderStatusCursor = d.session.orderStatusCursor := by
  obtain ⟨answer, hanswer, h⟩ := Option.bind_eq_some_iff.mp h
  obtain ⟨logged, hlogged, rfl⟩ := Option.map_eq_some_iff.mp h
  obtain ⟨answer', hanswer', hevents⟩ := Option.bind_eq_some_iff.mp hevents
  obtain rfl := Option.some.inj (hanswer.symm.trans hanswer')
  obtain ⟨logged', hlogged', rfl⟩ := Option.map_eq_some_iff.mp hevents
  obtain rfl := Option.some.inj (hlogged.symm.trans hlogged')
  have hcancelled : logged.1.cancelledOrderIds = cancelledIn logged.2 := by
    rw [(Context.performLogged_events hlogged).2, hclear.cancelled, List.nil_append]
  refine ⟨fun reference => performLogged_statusOf hlogged reference, fun reference => ?_,
    performLogged_stripped hlogged, rfl, rfl⟩
  show (logged.1.cancelledOrderIds.foldl Dict.pop _).get? reference = _
  rw [hcancelled, Dict.get?_foldl_pop]

/-! ## Every act -/

/-- What waits is told truly: an open status is an order's that waits, and the ledger
from the cursor on tells nothing of the strategy's orders. -/
structure Informed (d : Desk G) : Prop where
  staged : d.Staged
  named : ∀ w ∈ d.pending ++ d.opening, w.Named
  logged : ∀ w ∈ d.pending ++ d.opening,
    ∃ tk ∈ queuedIn d.log, w.asked = tk.asked ∧ w.sequence = tk.sequence
  distinct : ((d.pending ++ d.opening).map Ticket.asked).Nodup
  fresh : ((queuedIn d.log).map Ticket.asked).Nodup
  numbers : ∀ tk ∈ queuedIn d.log, tk.sequence ≤ d.session.context.orderSequence
  cursor : d.session.orderStatusCursor ≤ d.broker.book.orderLedger.length
  unread : ∀ row ∈ d.broker.book.told.drop d.session.orderStatusCursor, row.reference = none
  waits : ∀ tk ∈ queuedIn d.log, (d.session.context.statusOf tk.asked).isOpen = true →
    ∃ w ∈ d.pending ++ d.opening, w.asked = tk.asked
  rests : ∀ reference, (d.broker.book.restingDeferredEvents.get? reference).isSome = true →
    (d.session.context.statusOf reference).isOpen = true

/-- The orders of the bars up to the `n`th order: their statuses are open while they are
pending. -/
structure Answered (n : ℕ) (d : Desk G) : Prop where
  pending : ∀ w ∈ d.pending, w.sequence ≤ n →
    (d.session.context.statusOf w.asked).isOpen = true
  opening : ∀ w ∈ d.opening, n < w.sequence
  le : n ≤ d.session.context.orderSequence

/-- Nothing waits under the id, and nothing was filled under it `since`. -/
structure Silent (reference : ClientRef) (since : ℕ) (d : Desk G) : Prop where
  staged : d.Staged
  logged : reference ∈ (queuedIn d.log).map Ticket.asked
  fresh : ((queuedIn d.log).map Ticket.asked).Nodup
  waiting : ∀ w ∈ d.pending ++ d.opening, w.asked ≠ reference
  le : since ≤ d.log.length
  filled : ∀ w, .filled w ∈ d.log.drop since → w.asked ≠ reference

section
variable {cfg : BrokerConfig} {p : Portal} {timestamp : Time} {d d' : Desk G}

/-- Tickets of one id are one order's. -/
theorem Informed.sequence_eq (hd : Informed d) {tk tk' : Ticket} (htk : tk ∈ queuedIn d.log)
    (htk' : tk' ∈ queuedIn d.log) (h : tk.asked = tk'.asked) : tk.sequence = tk'.sequence :=
  congrArg Ticket.sequence (List.inj_on_of_nodup_map hd.fresh htk htk' h)

theorem statusOf_congr {c c' : Context} (h : c'.orderStatuses = c.orderStatuses)
    (reference : ClientRef) : c'.statusOf reference = c.statusOf reference := by
  unfold Context.statusOf
  rw [h]

/-- An act that only the broker's own orders take part in. -/
theorem Informed.quiet (hd : Informed d) (hstaged : d'.Staged) (hpending : d'.pending = d.pending)
    (hopening : d'.opening = d.opening) (hlog : d'.log = d.log)
    (hstatuses : d'.session.context.orderStatuses = d.session.context.orderStatuses)
    (hsequence : d'.session.context.orderSequence = d.session.context.orderSequence)
    (hcursor : d'.session.orderStatusCursor = d.session.orderStatusCursor)
    (hquiet : d.broker.book.Quiet d'.broker.book) : Informed d' := by
  obtain ⟨⟨rows, htold, hrows⟩, hrests⟩ := hquiet
  have hlength : d.session.orderStatusCursor ≤ d.broker.book.told.length := by
    unfold Book.told
    rw [List.length_map]
    exact hd.cursor
  refine ⟨hstaged, ?_, ?_, ?_, hlog ▸ hd.fresh, ?_, ?_, ?_, ?_, ?_⟩
  · rw [hpending, hopening]
    exact hd.named
  · rw [hpending, hopening, hlog]
    exact hd.logged
  · rw [hpending, hopening]
    exact hd.distinct
  · rw [hlog, hsequence]
    exact hd.numbers
  · have htold := congrArg List.length htold
    unfold Book.told at htold
    rw [List.length_append, List.length_map, List.length_map] at htold
    rw [hcursor, htold]
    exact Nat.le_add_right_of_le hd.cursor
  · rw [hcursor, htold, List.drop_append_of_le_length hlength]
    intro row hrow
    rcases List.mem_append.mp hrow with hrow | hrow
    · exact hd.unread row hrow
    · exact hrows row hrow
  · rw [hlog, hpending, hopening]
    intro tk htk hopen
    exact hd.waits tk htk (statusOf_congr hstatuses tk.asked ▸ hopen)
  · intro reference hrest
    rw [hrests] at hrest
    rw [statusOf_congr hstatuses]
    exact hd.rests reference hrest

theorem Answered.quiet {n : ℕ} (hd : Answered n d) (hpending : d'.pending = d.pending)
    (hopening : d'.opening = d.opening)
    (hstatuses : d'.session.context.orderStatuses = d.session.context.orderStatuses)
    (hsequence : d'.session.context.orderSequence = d.session.context.orderSequence) :
    Answered n d' := by
  refine ⟨?_, hopening ▸ hd.opening, hsequence ▸ hd.le⟩
  rw [hpending]
  intro w hw hle
  rw [statusOf_congr hstatuses]
  exact hd.pending w hw hle

/-! ### Batches -/

/-- What a batch of waiting orders leaves. -/
structure BatchLeft (d : Desk G) (tks : List Ticket) (e : Desk G × List Ticket) : Prop where
  others : ∀ reference, (∀ tk ∈ tks, tk.asked ≠ reference) →
    e.1.session.context.statusOf reference = d.session.context.statusOf reference
  isOpen : ∀ tk ∈ tks, ((e.1.session.context.statusOf tk.asked).isOpen = true ↔
    ∃ k ∈ e.2, k.asked = tk.asked)
  kept : ∀ k ∈ e.2, ∃ tk ∈ tks, k.Same tk
  sublist : (e.2.map Ticket.asked).Sublist (tks.map Ticket.asked)
  cursor : e.1.session.orderStatusCursor = e.1.broker.book.orderLedger.length
  rests : ∀ reference, (e.1.broker.book.restingDeferredEvents.get? reference).isSome = true →
    (e.1.session.context.statusOf reference).isOpen = true
  queued : queuedIn e.1.log = queuedIn d.log

theorem executeTickets_sublist {b : Book} {tks : List Ticket} {o : TicketBatch}
    (h : executeTickets cfg p timestamp b tks = some o) :
    (o.deferred.map Ticket.asked).Sublist (tks.map Ticket.asked) := by
  induction tks generalizing b o with
  | nil =>
    obtain rfl := Option.some.inj h
    exact List.Sublist.refl _
  | cons tk tks ih =>
    obtain ⟨out, -, h⟩ := Option.bind_eq_some_iff.mp h
    obtain ⟨rest, hrest, rfl⟩ := Option.map_eq_some_iff.mp h
    have htail : (rest.deferred.map Ticket.asked).Sublist (tks.map Ticket.asked) := ih hrest
    show (((tk.kept out).toList ++ rest.deferred).map Ticket.asked).Sublist _
    unfold Ticket.kept
    cases out.deferred with
    | none => exact htail.cons _
    | some order => exact htail.cons_cons _

/-- **A batch** of waiting orders. -/
theorem execute_left (hd : Informed d) {tks : List Ticket} {e : Desk G × List Ticket}
    (htks : tks.Sublist (d.pending ++ d.opening))
    (hkept : RestsKept cfg p timestamp (d.broker.book.markToMarket p) tks)
    (he : d.execute cfg p timestamp tks = some e) : BatchLeft d tks e := by
  obtain ⟨o, ho, rfl⟩ := Option.map_eq_some_iff.mp he
  obtain ⟨rows, htold, hown, hrests, hstays, hwaits⟩ := executeTickets_told ho
    (fun tk htk => hd.named tk (htks.subset htk)) (hd.distinct.sublist (htks.map _))
  have hopen : ∀ tk ∈ tks, ∀ state : OrderState,
      ((d.broker.book.restingDeferredEvents.get? tk.asked).isSome = true → state.isOpen = true) →
        ((statusAfter tk.asked state rows).isOpen = true ↔ ∃ k ∈ o.deferred, k.asked = tk.asked) :=
    fun tk htk state hstate => ⟨hwaits tk htk (.inr hkept) state hstate, hstays tk htk state hstate⟩
  have hlength : d.session.orderStatusCursor ≤ d.broker.book.told.length := by
    unfold Book.told
    rw [List.length_map]
    exact hd.cursor
  have hunread : ∀ {reference : ClientRef},
      ∀ row ∈ d.broker.book.told.drop d.session.orderStatusCursor, row.reference ≠ some reference := by
    intro reference row hrow heq
    cases (hd.unread row hrow).symm.trans heq
  have hstatus : ∀ reference, (d.session.syncOrderStatuses
      (o.out.book.markToMarket p)).context.statusOf reference =
        statusAfter reference (d.session.context.statusOf reference) rows := by
    intro reference
    have hmarked : (o.out.book.markToMarket p).told = d.broker.book.told ++ rows := htold
    rw [statusOf_syncOrderStatuses, hmarked, List.drop_append_of_le_length hlength,
      statusAfter_append, statusAfter_of_ne hunread]
  have hothers : ∀ reference, (∀ tk ∈ tks, tk.asked ≠ reference) →
      statusAfter reference (d.session.context.statusOf reference) rows =
        d.session.context.statusOf reference := by
    intro reference hne
    refine statusAfter_of_ne (fun row hrow heq => ?_) _
    obtain ⟨tk, htk, hrow⟩ := hown row hrow
    exact hne tk htk (Option.some.inj (hrow.symm.trans heq))
  refine ⟨fun reference hne => (hstatus reference).trans (hothers reference hne), ?_,
    fun k hk => executeTickets_kept ho hk, executeTickets_sublist ho, rfl, ?_, ?_⟩
  · intro tk htk
    show ((d.session.syncOrderStatuses _).context.statusOf tk.asked).isOpen = true ↔ _
    rw [hstatus]
    exact hopen tk htk _ (hd.rests tk.asked)
  · intro reference hrest
    show ((d.session.syncOrderStatuses _).context.statusOf reference).isOpen = true
    rw [hstatus]
    rcases hrests reference hrest with ⟨hrest, hne⟩ | ⟨k, hk, rfl⟩
    · rw [hothers reference hne]
      exact hd.rests reference hrest
    · obtain ⟨tk, htk, hsame⟩ := executeTickets_kept ho hk
      rw [hsame.asked]
      exact (hopen tk htk _ (hd.rests tk.asked)).mpr ⟨k, hk, hsame.asked⟩
  · show queuedIn (d.log ++ o.events) = _
    have hnone : queuedIn o.events = [] := by
      refine List.filterMap_eq_nil_iff.mpr fun event hevent => ?_
      obtain ⟨tk, -, rfl | rfl⟩ := executeTickets_events ho hevent
      · rfl
      · rfl
    rw [queuedIn_append, hnone, List.append_nil]

/-- A batch of the waiting orders `tks`; the `others` go on waiting. -/
theorem execute_informed (others : List Ticket) (hd : Informed d) {tks : List Ticket}
    {e : Desk G × List Ticket}
    (hsplit : d.pending ++ d.opening = others ++ tks)
    (hkept : RestsKept cfg p timestamp (d.broker.book.markToMarket p) tks)
    (he : d.execute cfg p timestamp tks = some e) (hstaged : d'.Staged)
    (hbroker : d'.broker = e.1.broker) (hsession : d'.session = e.1.session)
    (hlog : d'.log = e.1.log)
    (hwaiting : (d'.pending ++ d'.opening).Sublist (others ++ e.2))
    (hdrops : ∀ w ∈ others ++ e.2, (e.1.session.context.statusOf w.asked).isOpen = true →
      w ∈ d'.pending ++ d'.opening) : Informed d' := by
  have hsub : tks.Sublist (d.pending ++ d.opening) := hsplit ▸ List.sublist_append_right others tks
  have hleft := execute_left hd hsub hkept he
  obtain ⟨o, -, -, -, -, -, -, hsequence⟩ := Desk.execute_frame he
  -- a waiting order is one that waited
  have hold : ∀ w ∈ d'.pending ++ d'.opening, ∃ v ∈ d.pending ++ d.opening,
      w.asked = v.asked ∧ w.sequence = v.sequence ∧ w.Named := by
    intro w hw
    rcases List.mem_append.mp (hwaiting.subset hw) with hw | hw
    · have hw' : w ∈ d.pending ++ d.opening := hsplit ▸ List.mem_append_left tks hw
      exact ⟨w, hw', rfl, rfl, hd.named w hw'⟩
    · obtain ⟨tk, htk, hsame⟩ := hleft.kept w hw
      exact ⟨tk, hsub.subset htk, hsame.asked, hsame.sequence,
        (hd.named tk (hsub.subset htk)).same hsame⟩
  refine ⟨hstaged, ?_, ?_, ?_, ?_, ?_, ?_, ?_, ?_, ?_⟩
  · intro w hw
    obtain ⟨v, -, -, -, hnamed⟩ := hold w hw
    exact hnamed
  · intro w hw
    obtain ⟨v, hv, hasked, hnumber, -⟩ := hold w hw
    obtain ⟨tk, htk, hasked', hnumber'⟩ := hd.logged v hv
    rw [hlog, hleft.queued]
    exact ⟨tk, htk, hasked.trans hasked', hnumber.trans hnumber'⟩
  · have hdistinct := hd.distinct
    rw [hsplit, List.map_append] at hdistinct
    refine List.Nodup.sublist ((hwaiting.map _).trans ?_) hdistinct
    rw [List.map_append]
    exact hleft.sublist.append_left _
  · rw [hlog, hleft.queued]
    exact hd.fresh
  · rw [hlog, hleft.queued, hsession, hsequence]
    exact hd.numbers
  · rw [hsession, hbroker, hleft.cursor]
  · rw [hsession, hbroker, hleft.cursor, List.drop_eq_nil_of_le (by simp [Book.told])]
    exact fun row hrow => by cases hrow
  · rw [hlog, hleft.queued, hsession]
    intro tk htk hopen
    by_cases htried : ∃ v ∈ tks, v.asked = tk.asked
    · obtain ⟨v, hv, hasked⟩ := htried
      obtain ⟨k, hk, hkept⟩ := (hleft.isOpen v hv).mp (hasked.symm ▸ hopen)
      refine ⟨k, hdrops k (List.mem_append_right others hk) ?_, hkept.trans hasked⟩
      rwa [hkept.trans hasked]
    · have hne : ∀ v ∈ tks, v.asked ≠ tk.asked := fun v hv heq => htried ⟨v, hv, heq⟩
      obtain ⟨w, hw, hasked⟩ := hd.waits tk htk (hleft.others tk.asked hne ▸ hopen)
      rw [hsplit] at hw
      rcases List.mem_append.mp hw with hw | hw
      · refine ⟨w, hdrops w (List.mem_append_left _ hw) ?_, hasked⟩
        rwa [hasked]
      · exact absurd hasked (hne w hw)
  · rw [hsession, hbroker]
    exact hleft.rests

/-! ### Callbacks -/

/-- What a callback leaves; `log` is what it asks for. -/
structure CallbackLeft (d : Desk G) (o : Desk G × List Ticket) (log : List DeskEvent) : Prop where
  logged : o.1.log = d.log ++ log
  queued : o.2 = queuedIn log
  opening : o.1.opening = d.opening
  pending : o.1.pending.Sublist d.pending
  kept : ∀ w ∈ d.pending, w.asked ∉ cancelledIn log → w ∈ o.1.pending
  left : ∀ w ∈ o.1.pending, w.asked ∉ cancelledIn log
  named : ∀ w ∈ o.2, w.Named
  newer : ∀ w ∈ o.2, d.session.context.orderSequence < w.sequence ∧
    w.sequence ≤ o.1.session.context.orderSequence
  le : d.session.context.orderSequence ≤ o.1.session.context.orderSequence
  statuses : ∀ reference, reference ∉ cancelledIn log →
    (o.1.session.context.statusOf reference).isOpen =
      (d.session.context.statusOf reference).isOpen
  cancelled : ∀ reference ∈ cancelledIn log,
    (o.1.session.context.statusOf reference).isOpen = false
  rests : ∀ reference, o.1.broker.book.restingDeferredEvents.get? reference =
    if reference ∈ cancelledIn log then none
    else d.broker.book.restingDeferredEvents.get? reference
  ledger : o.1.broker.book.orderLedger = d.broker.book.orderLedger
  cursor : o.1.session.orderStatusCursor = d.session.orderStatusCursor
  bankrupt : o.1.broker.bankrupt = d.broker.bankrupt

theorem invoke_left (hd : Informed d) {callback : Callback G} {o : Desk G × List Ticket}
    (hids : KeepsIds d p timestamp callback) (ho : d.invoke p timestamp callback = some o) :
    ∃ log, d.events p timestamp callback = some log ∧ CallbackLeft d o log := by
  obtain ⟨log, hevents, hnumbered, hqueued, hlog, hopening, -, hbankrupt, hpending⟩ :=
    Desk.invoke_spec hd.staged.clear ho
  obtain ⟨hstatuses, hrests, hstripped, hledger, hcursor⟩ :=
    invoke_statusOf hd.staged.clear hevents ho
  have hown : ∀ w ∈ d.pending, w.order.clientOrderId = some w.asked := fun w hw =>
    (hd.named w (List.mem_append_left _ hw)).clientOrderId
  refine ⟨log, hevents, hlog, hqueued, hopening, ?_, ?_, ?_, ?_, ?_, hnumbered.le,
    fun reference => (hstatuses reference).2, fun reference => (hstatuses reference).1, hrests,
    hledger, hcursor, hbankrupt⟩
  · rw [hpending]
    exact List.filter_sublist
  · intro w hw hne
    rw [hpending, List.mem_filter]
    refine ⟨hw, decide_eq_true ?_⟩
    rintro ⟨reference, hreference, hcancelled⟩
    rw [hown w hw] at hreference
    obtain rfl := Option.some.inj hreference
    exact hne hcancelled
  · intro w hw hcancelled
    rw [hpending] at hw
    obtain ⟨hw, hnone⟩ := List.mem_filter.mp hw
    exact of_decide_eq_true hnone ⟨w.asked, hown w hw, hcancelled⟩
  · intro w hw
    rw [hqueued] at hw
    obtain ⟨-, -, hreference⟩ := hnumbered.queued w (mem_queuedIn.mp hw)
    rw [hids log hevents w hw] at hreference
    exact ⟨hreference, hstripped w hw⟩
  · intro w hw
    rw [hqueued] at hw
    obtain ⟨hlt, hle, -⟩ := hnumbered.queued w (mem_queuedIn.mp hw)
    exact ⟨hlt, hle⟩

/-- A callback's orders wait with those it leaves. -/
theorem callback_informed (hd : Informed d) {o : Desk G × List Ticket} {log : List DeskEvent}
    (hleft : CallbackLeft d o log)
    (hfresh : ((queuedIn d.log ++ queuedIn log).map Ticket.asked).Nodup) (hstaged : d'.Staged)
    (hbroker : d'.broker = o.1.broker) (hsession : d'.session = o.1.session)
    (hlog : d'.log = o.1.log)
    (hwaiting : (d'.pending ++ d'.opening).Sublist (o.1.pending ++ (d.opening ++ o.2)))
    (hdrops : ∀ w ∈ o.1.pending ++ (d.opening ++ o.2),
      (o.1.session.context.statusOf w.asked).isOpen = true → w ∈ d'.pending ++ d'.opening) :
    Informed d' := by
  have hqueued : queuedIn d'.log = queuedIn d.log ++ o.2 := by
    rw [hlog, hleft.logged, queuedIn_append, hleft.queued]
  rw [← hleft.queued] at hfresh
  have hold : (o.1.pending ++ d.opening).Sublist (d.pending ++ d.opening) :=
    hleft.pending.append_right _
  have hcases : ∀ w ∈ d'.pending ++ d'.opening, w ∈ d.pending ++ d.opening ∨ w ∈ o.2 := by
    intro w hw
    have hw' := hwaiting.subset hw
    rw [← List.append_assoc] at hw'
    exact (List.mem_append.mp hw').imp_left fun hw => hold.subset hw
  obtain ⟨-, -, hapart⟩ := List.nodup_append.mp (List.map_append ▸ hfresh)
  refine ⟨hstaged, ?_, ?_, ?_, ?_, ?_, ?_, ?_, ?_, ?_⟩
  · intro w hw
    rcases hcases w hw with hw | hw
    · exact hd.named w hw
    · exact hleft.named w hw
  · intro w hw
    rw [hqueued]
    rcases hcases w hw with hw | hw
    · obtain ⟨tk, htk, hasked⟩ := hd.logged w hw
      exact ⟨tk, List.mem_append_left _ htk, hasked⟩
    · exact ⟨w, List.mem_append_right _ hw, rfl, rfl⟩
  · refine List.Nodup.sublist (hwaiting.map _) ?_
    rw [← List.append_assoc, List.map_append]
    refine List.nodup_append.mpr ⟨hd.distinct.sublist (hold.map _),
      (List.nodup_append.mp (List.map_append ▸ hfresh)).2.1, ?_⟩
    intro reference hreference reference' hreference'
    obtain ⟨w, hw, rfl⟩ := List.mem_map.mp hreference
    obtain ⟨tk, htk, hasked, -⟩ := hd.logged w (hold.subset hw)
    exact hapart _ (hasked ▸ List.mem_map_of_mem htk) _ hreference'
  · rw [hqueued]
    exact hfresh
  · rw [hqueued, hsession]
    intro tk htk
    rcases List.mem_append.mp htk with htk | htk
    · exact (hd.numbers tk htk).trans hleft.le
    · exact (hleft.newer tk htk).2
  · rw [hsession, hbroker, hleft.cursor, hleft.ledger]
    exact hd.cursor
  · have htold : o.1.broker.book.told = d.broker.book.told :=
      congrArg (List.map OrderEvent.tells) hleft.ledger
    rw [hsession, hbroker, hleft.cursor, htold]
    exact hd.unread
  · rw [hqueued, hsession]
    intro tk htk hopen
    rcases List.mem_append.mp htk with htk | htk
    · have hnot : tk.asked ∉ cancelledIn log := fun hcancelled =>
        Bool.false_ne_true ((hleft.cancelled _ hcancelled).symm.trans hopen)
      obtain ⟨w, hw, hasked⟩ := hd.waits tk htk ((hleft.statuses _ hnot).symm.trans hopen)
      refine ⟨w, hdrops w ?_ (by rwa [hasked]), hasked⟩
      rcases List.mem_append.mp hw with hw | hw
      · exact List.mem_append_left _ (hleft.kept w hw (by rwa [hasked]))
      · exact List.mem_append_right _ (List.mem_append_left _ hw)
    · exact ⟨tk, hdrops tk (List.mem_append_right _ (List.mem_append_right _ htk)) hopen, rfl⟩
  · rw [hsession, hbroker]
    intro reference hrests
    rw [hleft.rests] at hrests
    split at hrests
    · cases hrests
    next hnot =>
      rw [hleft.statuses reference hnot]
      exact hd.rests reference hrests

theorem CallbackLeft.answered {n : ℕ} {o : Desk G × List Ticket} {log : List DeskEvent}
    (hleft : CallbackLeft d o log) (hd : Answered n d) (hsession : d'.session = o.1.session)
    (hpending : ∀ w ∈ d'.pending, w ∈ o.1.pending ∨ w ∈ o.2)
    (hopening : ∀ w ∈ d'.opening, w ∈ d.opening ∨ w ∈ o.2) : Answered n d' := by
  refine ⟨fun w hw hle => ?_, fun w hw => ?_, ?_⟩
  · rw [hsession]
    rcases hpending w hw with hw | hw
    · rw [hleft.statuses _ (hleft.left w hw)]
      exact hd.pending w (hleft.pending.subset hw) hle
    · exact absurd (hd.le.trans_lt (hleft.newer w hw).1) (not_lt.mpr hle)
  · rcases hopening w hw with hw | hw
    · exact hd.opening w hw
    · exact hd.le.trans_lt (hleft.newer w hw).1
  · rw [hsession]
    exact hd.le.trans hleft.le

/-! ### Acts -/

/-- After the pending orders were tried, those of earlier bars that still wait have an
open status. -/
theorem executePending_answered (hd : Informed d) {n : ℕ}
    (hle : n ≤ d.session.context.orderSequence) (hnone : d.opening = [])
    (hkept : RestsKept cfg p timestamp (d.broker.book.markToMarket p) d.pending)
    {e : Desk G × List Ticket} (he : d.execute cfg p timestamp d.pending = some e)
    (hpending : d'.pending = e.2) (hopening : d'.opening = []) (hsession : d'.session = e.1.session) :
    Answered n d' := by
  have hleft := execute_left hd (hnone ▸ (List.append_nil d.pending).symm ▸ List.Sublist.refl _)
    hkept he
  obtain ⟨o, -, -, -, -, -, -, hsequence⟩ := Desk.execute_frame he
  refine ⟨fun w hw _ => ?_, fun w hw => ?_, ?_⟩
  · rw [hpending] at hw
    obtain ⟨tk, htk, hsame⟩ := hleft.kept w hw
    rw [hsession, hsame.asked]
    exact (hleft.isOpen tk htk).mpr ⟨w, hw, hsame.asked⟩
  · rw [hopening] at hw
    cases hw
  · rw [hsession, hsequence]
    exact hle

theorem executeOpening_answered (hd : Informed d) {n : ℕ} (hanswered : Answered n d)
    (hkept : RestsKept cfg p timestamp (d.broker.book.markToMarket p) d.opening)
    {e : Desk G × List Ticket} (he : d.execute cfg p timestamp d.opening = some e)
    (hpending : ∀ w ∈ d'.pending, w ∈ d.pending ∨ w ∈ e.2) (hopening : d'.opening = [])
    (hsession : d'.session = e.1.session) : Answered n d' := by
  have hleft := execute_left hd (List.sublist_append_right ..) hkept he
  obtain ⟨o, -, -, -, -, -, -, hsequence⟩ := Desk.execute_frame he
  obtain ⟨-, -, hapart⟩ := List.nodup_append.mp (List.map_append ▸ hd.distinct)
  refine ⟨fun w hw hle => ?_, fun w hw => ?_, ?_⟩
  · rw [hsession]
    rcases hpending w hw with hw | hw
    · have hne : ∀ tk ∈ d.opening, tk.asked ≠ w.asked := fun tk htk heq =>
        hapart _ (List.mem_map_of_mem hw) _ (List.mem_map_of_mem htk) heq.symm
      rw [hleft.others w.asked hne]
      exact hanswered.pending w hw hle
    · obtain ⟨tk, htk, hsame⟩ := hleft.kept w hw
      exact absurd (hsame.sequence ▸ hanswered.opening tk htk) (not_lt.mpr hle)
  · rw [hopening] at hw
    cases hw
  · rw [hsession, hsequence]
    exact hanswered.le

/-- **One act** on an account that stays solvent. -/
theorem step_informed {n : ℕ} {a : Act G} (hd : Informed d)
    (hle : n ≤ d.session.context.orderSequence) (hanswered : d.phase = .pending ∨ Answered n d)
    (hfresh : UsesFreshIds d a) (hkeeps : KeepsTrack cfg d a) (h : d.step cfg a = some d') :
    d'.broker.bankrupt = true ∨ Informed d' ∧ Answered n d' := by
  have hstaged := Desk.step_staged d a d' hd.staged h
  obtain ⟨hphase, d₁, rfl, ⟨rfl, hbankrupt⟩ | ⟨-, hperform⟩⟩ := Desk.step_spec h
  · exact .inl hbankrupt
  have hlater : a.before ≠ .pending → Answered n d := fun hne =>
    hanswered.resolve_left fun heq => hne (hphase.symm.trans heq)
  have hnone : a.before ≠ .opening → d.opening = [] := fun hne =>
    hd.staged.opening fun heq => hne (hphase.symm.trans heq)
  cases a with
  | executePending p timestamp =>
    have hnone := hnone Phase.noConfusion
    refine .inr ?_
    dsimp only [Desk.perform] at hperform
    split at hperform
    next hempty =>
      obtain rfl := Option.some.inj hperform
      refine ⟨hd.quiet hstaged rfl rfl rfl rfl rfl rfl (.refl rfl rfl), ?_, ?_, hle⟩
      · rw [hempty]
        exact fun w hw => by cases hw
      · rw [hnone]
        exact fun w hw => by cases hw
    · obtain ⟨e, he, rfl⟩ := Option.map_eq_some_iff.mp hperform
      obtain ⟨o, -, -, -, hopening, -⟩ := Desk.execute_frame he
      have hopening : e.1.opening = [] := hopening.trans hnone
      refine ⟨execute_informed [] hd ?_ hkeeps he hstaged rfl rfl rfl ?_ ?_,
        executePending_answered hd hle hnone hkeeps he rfl hopening rfl⟩
      · rw [hnone, List.append_nil, List.nil_append]
      · dsimp only
        rw [hopening, List.append_nil, List.nil_append]
      · intro w hw _
        exact List.mem_append_left _ hw
  | exitProtections p timestamp =>
    obtain ⟨e, he, rfl⟩ := Option.map_eq_some_iff.mp hperform
    exact .inr ⟨hd.quiet hstaged rfl rfl rfl rfl rfl rfl (Broker.processProtections_quiet he),
      (hlater Phase.noConfusion).quiet rfl rfl rfl rfl⟩
  | invokeOpening p timestamp callback =>
    obtain ⟨o, ho, rfl⟩ := Option.map_eq_some_iff.mp hperform
    obtain ⟨log, hevents, hleft⟩ := invoke_left hd hkeeps ho
    refine .inr ⟨callback_informed hd hleft (hfresh log hevents) hstaged rfl rfl rfl
      (List.Sublist.refl _) (fun w hw _ => hw), ?_⟩
    exact hleft.answered (hlater Phase.noConfusion) rfl (fun w hw => .inl hw)
      fun w hw => List.mem_append.mp hw
  | executeOpening p timestamp =>
    have hanswered := hlater Phase.noConfusion
    refine .inr ?_
    dsimp only [Desk.perform] at hperform
    split at hperform
    · obtain rfl := Option.some.inj hperform
      exact ⟨hd.quiet hstaged rfl rfl rfl rfl rfl rfl (.refl rfl rfl),
        hanswered.quiet rfl rfl rfl rfl⟩
    · obtain ⟨e, he, rfl⟩ := Option.map_eq_some_iff.mp hperform
      obtain ⟨hrests, hdrops⟩ := hkeeps
      refine ⟨execute_informed d.pending hd rfl hrests he hstaged rfl rfl rfl ?_ ?_,
        executeOpening_answered hd hanswered hrests he (fun w hw => mem_mergeTickets_or hw)
          rfl rfl⟩
      · dsimp only
        rw [List.append_nil]
        exact mergeTickets_sublist _ _
      · intro w hw hopen
        exact List.mem_append_left _ ((hdrops e he).mem hw hopen)
  | liquidate p timestamp =>
    obtain ⟨e, he, rfl⟩ := Option.map_eq_some_iff.mp hperform
    split at hstaged
    next hinsolvent =>
      rw [if_pos hinsolvent]
      exact .inl ((Broker.liquidateIfInsolvent_bankrupt he).1 hinsolvent)
    next hsolvent =>
      rw [if_neg hsolvent]
      have hmark := Broker.liquidateIfInsolvent_solvent he (Bool.eq_false_of_not_eq_true hsolvent)
      refine .inr ⟨hd.quiet hstaged rfl rfl rfl rfl rfl rfl ?_,
        (hlater Phase.noConfusion).quiet rfl rfl rfl rfl⟩
      dsimp only
      rw [hmark]
      exact .refl rfl rfl
  | invokeClosing p timestamp callback =>
    have hnone := hnone Phase.noConfusion
    obtain ⟨o, ho, rfl⟩ := Option.map_eq_some_iff.mp hperform
    obtain ⟨hids, hdrops⟩ := hkeeps
    obtain ⟨log, hevents, hleft⟩ := invoke_left hd hids ho
    have hopening : o.1.opening = [] := hleft.opening.trans hnone
    refine .inr ⟨callback_informed hd hleft (hfresh log hevents) hstaged rfl rfl rfl ?_ ?_, ?_⟩
    · dsimp only
      rw [hopening, hnone, List.append_nil, List.nil_append]
      exact mergeTickets_sublist _ _
    · rw [hnone, List.nil_append]
      intro w hw hopen
      exact List.mem_append_left _ ((hdrops o ho).mem hw hopen)
    · refine hleft.answered (hlater Phase.noConfusion) rfl (fun w hw => mem_mergeTickets_or hw) ?_
      intro w hw
      dsimp only at hw
      rw [hopening] at hw
      cases hw
  | finish p timestamp =>
    obtain rfl := Option.some.inj hperform
    exact .inr ⟨hd.quiet hstaged rfl rfl rfl rfl rfl rfl (.refl rfl rfl),
      (hlater Phase.noConfusion).quiet rfl rfl rfl rfl⟩

/-! ### What still waits -/

/-- What an act adds to the log, and where what waits then comes from. -/
structure Moved (d d' : Desk G) (more : List DeskEvent) : Prop where
  logged : d'.log = d.log ++ more
  waiting : ∀ w ∈ d'.pending ++ d'.opening,
    (∃ v ∈ d.pending ++ d.opening, w.asked = v.asked) ∨ w ∈ queuedIn more
  filled : ∀ w, .filled w ∈ more → w ∈ d.pending ++ d.opening
  fresh : ((queuedIn d.log).map Ticket.asked).Nodup → ((queuedIn d'.log).map Ticket.asked).Nodup

theorem Moved.still (hpending : ∀ w ∈ d'.pending, w ∈ d.pending) (hopening : d'.opening = d.opening)
    (hlog : d'.log = d.log) : Moved d d' [] := by
  refine ⟨by rw [hlog, List.append_nil], fun w hw => ?_, fun w hw => (by cases hw), fun h => ?_⟩
  · rw [hopening] at hw
    refine .inl ⟨w, ?_, rfl⟩
    exact List.mem_append.mpr ((List.mem_append.mp hw).imp_left (hpending w))
  · rwa [hlog]

theorem execute_moved {tks : List Ticket} {e : Desk G × List Ticket}
    (htks : ∀ tk ∈ tks, tk ∈ d.pending ++ d.opening) (he : d.execute cfg p timestamp tks = some e)
    (hlog : d'.log = e.1.log)
    (hwaiting : ∀ w ∈ d'.pending ++ d'.opening, w ∈ d.pending ++ d.opening ∨ w ∈ e.2) :
    ∃ more, Moved d d' more := by
  obtain ⟨o, ho, hdeferred, hevents, -⟩ := Desk.execute_frame he
  have hnone : queuedIn o.events = [] := by
    refine List.filterMap_eq_nil_iff.mpr fun event hevent => ?_
    obtain ⟨tk, -, rfl | rfl⟩ := executeTickets_events ho hevent
    · rfl
    · rfl
  refine ⟨o.events, hlog.trans hevents, fun w hw => .inl ?_, fun w hw => ?_, fun h => ?_⟩
  · rcases hwaiting w hw with hw | hw
    · exact ⟨w, hw, rfl⟩
    · rw [hdeferred] at hw
      obtain ⟨tk, htk, hsame⟩ := executeTickets_kept ho hw
      exact ⟨tk, htks tk htk, hsame.asked⟩
  · obtain ⟨tk, htk, heq | heq⟩ := executeTickets_events ho hw
    · obtain rfl := DeskEvent.filled.inj heq
      exact htks w htk
    · cases heq
  · rwa [hlog, hevents, queuedIn_append, hnone, List.append_nil]

theorem invoke_moved (hd : d.Staged) {callback : Callback G} {o : Desk G × List Ticket}
    (hfresh : ∀ log ∈ d.events p timestamp callback,
      ((queuedIn d.log ++ queuedIn log).map Ticket.asked).Nodup)
    (ho : d.invoke p timestamp callback = some o) (hlog : d'.log = o.1.log)
    (hwaiting : ∀ w ∈ d'.pending ++ d'.opening, w ∈ o.1.pending ++ d.opening ∨ w ∈ o.2) :
    ∃ more, Moved d d' more := by
  obtain ⟨log, hevents, hnumbered, hqueued, hlogged, -, -, -, hpending⟩ :=
    Desk.invoke_spec hd.clear ho
  refine ⟨log, hlog.trans hlogged, fun w hw => ?_, fun w hw => ?_, fun _ => ?_⟩
  · rcases hwaiting w hw with hw | hw
    · refine .inl ⟨w, ?_, rfl⟩
      rw [hpending] at hw
      exact List.mem_append.mpr ((List.mem_append.mp hw).imp_left List.mem_of_mem_filter)
    · exact .inr (hqueued ▸ hw)
  · rcases hnumbered.requests _ hw with ⟨tk, heq⟩ | ⟨reference, upTo, heq⟩
    · cases heq
    · cases heq
  · rw [hlog, hlogged, queuedIn_append]
    exact hfresh log hevents

/-- **One act**: what waits then waited before, or was just asked for. -/
theorem step_moved {a : Act G} (hd : d.Staged) (hfresh : UsesFreshIds d a)
    (h : d.step cfg a = some d') : ∃ more, Moved d d' more := by
  obtain ⟨hphase, d₁, rfl, ⟨rfl, -⟩ | ⟨-, hperform⟩⟩ := Desk.step_spec h
  · exact ⟨[], .still (fun w hw => hw) rfl rfl⟩
  cases a with
  | executePending p timestamp =>
    dsimp only [Desk.perform] at hperform
    split at hperform
    · obtain rfl := Option.some.inj hperform
      exact ⟨[], .still (fun w hw => hw) rfl rfl⟩
    · obtain ⟨e, he, rfl⟩ := Option.map_eq_some_iff.mp hperform
      obtain ⟨o, -, -, -, hopening, -⟩ := Desk.execute_frame he
      refine execute_moved (fun tk htk => List.mem_append_left _ htk) he rfl fun w hw => ?_
      rcases List.mem_append.mp hw with hw | hw
      · exact .inr hw
      · exact .inl (List.mem_append_right _ (hopening ▸ hw))
  | exitProtections p timestamp =>
    obtain ⟨e, -, rfl⟩ := Option.map_eq_some_iff.mp hperform
    exact ⟨[], .still (fun w hw => hw) rfl rfl⟩
  | invokeOpening p timestamp callback =>
    obtain ⟨o, ho, rfl⟩ := Option.map_eq_some_iff.mp hperform
    refine invoke_moved hd hfresh ho rfl fun w hw => ?_
    rw [← List.append_assoc] at hw
    exact List.mem_append.mp hw
  | executeOpening p timestamp =>
    dsimp only [Desk.perform] at hperform
    split at hperform
    · obtain rfl := Option.some.inj hperform
      exact ⟨[], .still (fun w hw => hw) rfl rfl⟩
    · obtain ⟨e, he, rfl⟩ := Option.map_eq_some_iff.mp hperform
      refine execute_moved (fun tk htk => List.mem_append_right _ htk) he rfl fun w hw => ?_
      dsimp only at hw
      rw [List.append_nil] at hw
      exact (mem_mergeTickets_or hw).imp_left (List.mem_append_left _)
  | liquidate p timestamp =>
    obtain ⟨e, -, rfl⟩ := Option.map_eq_some_iff.mp hperform
    refine ⟨[], ?_⟩
    split
    · exact .still (fun w hw => (by cases hw)) rfl rfl
    · exact .still (fun w hw => hw) rfl rfl
  | invokeClosing p timestamp callback =>
    obtain ⟨o, ho, rfl⟩ := Option.map_eq_some_iff.mp hperform
    obtain ⟨log, -, -, -, -, hopening, -⟩ := Desk.invoke_spec hd.clear ho
    refine invoke_moved hd hfresh ho rfl fun w hw => ?_
    dsimp only at hw
    rw [hopening] at hw
    rcases List.mem_append.mp hw with hw | hw
    · exact (mem_mergeTickets_or hw).imp_left (List.mem_append_left _)
    · exact .inl (List.mem_append_right _ hw)
  | finish p timestamp =>
    obtain rfl := Option.some.inj hperform
    exact ⟨[], .still (fun w hw => hw) rfl rfl⟩

/-- What has left for good fills no more. -/
theorem step_silent {reference : ClientRef} {since : ℕ} (d : Desk G) (a : Act G) (d' : Desk G)
    (hd : Silent reference since d) (hfresh : UsesFreshIds d a) (h : d.step cfg a = some d') :
    Silent reference since d' := by
  obtain ⟨more, hlog, hwaiting, hfilled, hnodup⟩ := step_moved hd.staged hfresh h
  have hqueued : queuedIn d'.log = queuedIn d.log ++ queuedIn more := by
    rw [hlog, queuedIn_append]
  have hnodup' := hnodup hd.fresh
  rw [hqueued, List.map_append] at hnodup'
  refine ⟨Desk.step_staged d a d' hd.staged h, ?_, hnodup hd.fresh, ?_, ?_, ?_⟩
  · rw [hqueued, List.map_append]
    exact List.mem_append_left _ hd.logged
  · intro w hw heq
    rcases hwaiting w hw with ⟨v, hv, hasked⟩ | hw
    · exact hd.waiting v hv (hasked.symm.trans heq)
    · exact (List.nodup_append.mp hnodup').2.2 _ hd.logged _ (List.mem_map_of_mem hw) heq.symm
  · rw [hlog, List.length_append]
    exact Nat.le_add_right_of_le hd.le
  · rw [hlog, List.drop_append_of_le_length hd.le]
    intro w hw
    rcases List.mem_append.mp hw with hw | hw
    · exact hd.filled w hw
    · exact hd.waiting w (hfilled w hw)

/-! ## Every run -/

/-- An account that went bankrupt, or one whose orders up to the `n`th are told truly. -/
def ToldUpTo (n : ℕ) (d : Desk G) : Prop :=
  d.broker.bankrupt = true ∨
    Informed d ∧ n ≤ d.session.context.orderSequence ∧ (d.phase = .pending ∨ Answered n d)

theorem bankrupt_step {a : Act G} (hbankrupt : d.broker.bankrupt = true)
    (h : d.step cfg a = some d') : d'.broker.bankrupt = true := by
  obtain ⟨-, d₁, rfl, ⟨rfl, -⟩ | ⟨hfinish, hperform⟩⟩ := Desk.step_spec h
  · exact hbankrupt
  · cases a with
    | finish p timestamp =>
      obtain rfl := Option.some.inj hperform
      exact hbankrupt
    | _ => cases hfinish hbankrupt

theorem step_toldUpTo {n : ℕ} (d : Desk G) (a : Act G) (d' : Desk G) (hd : ToldUpTo n d)
    (hok : UsesFreshIds d a ∧ KeepsTrack cfg d a) (h : d.step cfg a = some d') : ToldUpTo n d' := by
  rcases hd with hbankrupt | ⟨hd, hle, hanswered⟩
  · exact .inl (bankrupt_step hbankrupt h)
  · refine (step_informed hd hle hanswered hok.1 hok.2 h).imp_right fun ⟨hd', hanswered'⟩ => ?_
    exact ⟨hd', hanswered'.le, .inr hanswered'⟩

theorem start_toldUpTo (cfg : BrokerConfig) (prog : Program G) : ToldUpTo 0 (Desk.start cfg prog) := by
  refine .inr ⟨⟨Desk.start_staged cfg prog, ?_, ?_, List.Pairwise.nil, List.Pairwise.nil, ?_, ?_, ?_,
    ?_, ?_⟩, le_rfl, .inl rfl⟩
  · exact fun w hw => by cases hw
  · exact fun w hw => by cases hw
  · exact fun tk htk => by cases htk
  · exact le_rfl
  · exact fun row hrow => by cases hrow
  · exact fun tk htk => by cases htk
  · exact fun reference hrests => by cases hrests

/-- The log only grows. -/
theorem run_logged {acts : List (Act G)} (hd : d.Staged)
    (hfresh : Runs.AllSteps (Desk.step cfg) UsesFreshIds d acts)
    (hrun : Runs.run (Desk.step cfg) d acts = some d') : ∃ more, d'.log = d.log ++ more := by
  have hstep : ∀ (s : Desk G) a s', (s.Staged ∧ ∃ more, s.log = d.log ++ more) →
      UsesFreshIds s a → Desk.step cfg s a = some s' →
        s'.Staged ∧ ∃ more, s'.log = d.log ++ more := by
    rintro s a s' ⟨hs, more, hlog⟩ hfresh h
    obtain ⟨more', hlog', -, -, -⟩ := step_moved hs hfresh h
    refine ⟨Desk.step_staged s a s' hs h, more ++ more', ?_⟩
    rw [hlog', hlog, List.append_assoc]
  exact (Runs.run_invariant_of_allSteps hstep ⟨hd, [], (List.append_nil _).symm⟩ hfresh hrun).2

/-- **Every callback** is told the truth about the orders of earlier bars, in a run that
keeps track of them. -/
theorem statusTrue_of_keepsTrack {prog : Program G} {before bar after : List (Act G)}
    {d₁ d₂ d₃ : Desk G}
    (hfresh : Runs.AllSteps (Desk.step cfg) UsesFreshIds (Desk.start cfg prog)
      (before ++ (bar ++ after)))
    (hkeeps : Runs.AllSteps (Desk.step cfg) (KeepsTrack cfg) (Desk.start cfg prog)
      (before ++ (bar ++ after)))
    (hbefore : Runs.run (Desk.step cfg) (Desk.start cfg prog) before = some d₁)
    (hphase : d₁.phase = .pending) (hbar : Runs.run (Desk.step cfg) d₁ bar = some d₂)
    (hcallback : d₂.AtCallback) (hafter : Runs.run (Desk.step cfg) d₂ after = some d₃) :
    ∀ tk ∈ queuedIn d₁.log, StatusTrue d₂ d₃ tk := by
  intro tk htk
  obtain ⟨hfresh₀, hfresh'⟩ := (Runs.allSteps_append hbefore).mp hfresh
  obtain ⟨hfresh₁, hfresh₂⟩ := (Runs.allSteps_append hbar).mp hfresh'
  obtain ⟨hok₀, hok'⟩ := (Runs.allSteps_append hbefore).mp (Runs.allSteps_and hfresh hkeeps)
  obtain ⟨hok₁, hok₂⟩ := (Runs.allSteps_append hbar).mp hok'
  have hstaged := Runs.run_invariant Desk.step_staged (Desk.start_staged cfg prog) hbefore
  have hstaged₂ := Runs.run_invariant Desk.step_staged hstaged hbar
  obtain ⟨more, hlog⟩ := run_logged hstaged hfresh₁ hbar
  obtain ⟨more', hlog'⟩ := run_logged hstaged₂ hfresh₂ hafter
  have htk₂ : tk ∈ queuedIn d₂.log := by
    rw [hlog, queuedIn_append]
    exact List.mem_append_left _ htk
  have htk₃ : tk ∈ queuedIn d₃.log := by
    rw [hlog', queuedIn_append]
    exact List.mem_append_left _ htk₂
  obtain ⟨hsolvent, hnext⟩ := hcallback
  have hstep : ∀ (d : Desk G) a d', d.broker.bankrupt = true → d.step cfg a = some d' →
      d'.broker.bankrupt = true := fun d a d' hd h => bankrupt_step hd h
  have hbankrupt : ¬ d₂.broker.bankrupt = true := by rw [hsolvent]; exact Bool.false_ne_true
  obtain ⟨hd₁, -, -⟩ := (Runs.run_invariant_of_allSteps step_toldUpTo (start_toldUpTo cfg prog)
    hok₀ hbefore).resolve_left fun h => hbankrupt (Runs.run_invariant hstep h hbar)
  have htold₂ := Runs.run_invariant_of_allSteps step_toldUpTo
    (.inr ⟨hd₁, le_rfl, .inl hphase⟩ : ToldUpTo d₁.session.context.orderSequence d₁) hok₁ hbar
  obtain ⟨hd₂, -, hanswered⟩ := htold₂.resolve_left hbankrupt
  have hanswered : Answered d₁.session.context.orderSequence d₂ :=
    hanswered.resolve_left fun heq => by rcases hnext with h | h <;> cases heq.symm.trans h
  have hle := hd₁.numbers tk htk
  -- what waits under the id is the order itself
  have hsame : ∀ {d : Desk G}, Informed d → tk ∈ queuedIn d.log → ∀ w ∈ d.pending ++ d.opening,
      w.asked = tk.asked → w.sequence = tk.sequence := by
    intro d hd htk w hw hasked
    obtain ⟨tk', htk', hasked', hnumber⟩ := hd.logged w hw
    exact hnumber.trans (hd.sequence_eq htk' htk (hasked'.symm.trans hasked))
  have hpending : ∀ w ∈ d₂.pending ++ d₂.opening, w.asked = tk.asked → w ∈ d₂.pending := by
    intro w hw hasked
    refine (List.mem_append.mp hw).resolve_right fun hopening => ?_
    exact absurd (hanswered.opening w hopening) (not_lt.mpr (hsame hd₂ htk₂ w hw hasked ▸ hle))
  refine ⟨fun hopen => ?_, fun hsolvent₃ hphase₃ hopen => ?_, fun hclosed => ?_⟩
  · obtain ⟨w, hw, hasked⟩ := hd₂.waits tk htk₂ hopen
    exact ⟨w, hpending w hw hasked, hasked, hsame hd₂ htk₂ w hw hasked⟩
  · obtain ⟨hd₃, -, -⟩ := (Runs.run_invariant_of_allSteps step_toldUpTo htold₂ hok₂
      hafter).resolve_left fun h => Bool.false_ne_true (hsolvent₃.symm.trans h)
    obtain ⟨w, hw, hasked⟩ := hd₃.waits tk htk₃ hopen
    have hnone : d₃.opening = [] := hd₃.staged.opening fun heq => by cases hphase₃.symm.trans heq
    refine ⟨w, ?_, hasked, hsame hd₃ htk₃ w hw hasked⟩
    rwa [hnone, List.append_nil] at hw
  · have hsilent : Silent tk.asked d₂.log.length d₂ := by
      refine ⟨hstaged₂, List.mem_map_of_mem htk₂, hd₂.fresh, fun w hw hasked => ?_, le_rfl, ?_⟩
      · have hopen := hanswered.pending w (hpending w hw hasked)
          (hsame hd₂ htk₂ w hw hasked ▸ hle)
        rw [hasked] at hopen
        exact Bool.false_ne_true (hclosed.symm.trans hopen)
      · rw [List.drop_length]
        exact fun w hw => by cases hw
    exact (Runs.run_invariant_of_allSteps step_silent hsilent hfresh₂ hafter).filled

end

/-! ## A resting target -/

namespace RestingTarget

def coin : Instrument := ⟨"Crypto", "BTC/USDT"⟩

def bar (low : ℚ) : Bar where
  openPrice := 100
  high := 100
  low := low
  close := 100

/-- The price falls to 60 at 4. -/
def history : Frames where
  entries := [(coin, ⟨[(1, bar 100), (2, bar 100), (3, bar 100), (4, bar 60)], by decide⟩)]

def config : BrokerConfig := .costless 10000

def silent : Callback Unit := fun _ s => some (s, [])

def limitTarget (id : String) (value limitPrice : ℚ) : Request :=
  .order { symbol := coin, kind := .targetQuantity, value, orderType := .limit
           limitPrice := some limitPrice, clientOrderId := some id }

/-- A resting target after the close of 1, and the `later` requests after that of 2. -/
def program (later : List Request) : Program Unit where
  init := ()
  beforeTradingStart := silent
  schedules := []
  onRebalance := silent
  handleData view s := some (s,
    if view.currentDt = 1 then [limitTarget "first" 10 80]
    else if view.currentDt = 2 then later else [])
  afterTradingEnd := silent

/-- The bars 1 and 2. -/
def before (prog : Program Unit) : List (Act Unit) := runActs prog history none [1, 2]

/-- The bar 3 up to the callbacks before its open. -/
def opens (prog : Program Unit) : List (Act Unit) := (barActs prog history (some 2) 3).take 2

def after (prog : Program Unit) : List (Act Unit) :=
  (barActs prog history (some 2) 3).drop 2 ++ runActs prog history (some 3) [4]

end RestingTarget

open RestingTarget in
/-- The target goes on resting, and is filled at 4. -/
theorem statusTrue_of_keepsTrack_resting :
    ∃ d₁ d₂ d₃, Runs.run (Desk.step config) (Desk.start config (program []))
        (before (program [])) = some d₁ ∧
      Runs.run (Desk.step config) d₁ (opens (program [])) = some d₂ ∧
      Runs.run (Desk.step config) d₂ (after (program [])) = some d₃ ∧
      (queuedIn d₁.log).length = 1 ∧ d₃.log.length = 2 ∧
      ∀ tk ∈ queuedIn d₁.log, StatusTrue d₂ d₃ tk := by
  obtain ⟨d₁, hbefore, hphase, hqueued⟩ := Runs.exists_of_any
    (p := fun d : Desk Unit => d.phase = .pending ∧ (queuedIn d.log).length = 1)
    (show (Runs.run (Desk.step config) (Desk.start config (program []))
      (before (program []))).any _ = true by decide +kernel)
  obtain ⟨d₂, hopens, hcallback⟩ := Runs.exists_of_any (p := Desk.AtCallback (G := Unit))
    (show (Runs.run (Desk.step config) (Desk.start config (program []))
      (before (program []) ++ opens (program []))).any _ = true by decide +kernel)
  obtain ⟨d₃, hafter, hlength⟩ := Runs.exists_of_any (p := fun d : Desk Unit => d.log.length = 2)
    (show (Runs.run (Desk.step config) (Desk.start config (program []))
      (before (program []) ++ opens (program []) ++ after (program []))).any _ = true by
        decide +kernel)
  have hbar := Runs.run_append_of_eq_some hbefore hopens
  have hrest := Runs.run_append_of_eq_some hopens hafter
  exact ⟨d₁, d₂, d₃, hbefore, hbar, hrest, hqueued, hlength, statusTrue_of_keepsTrack
    (by decide +kernel) (by decide +kernel) hbefore hphase hbar hcallback hrest⟩

open RestingTarget in
/-- A newer target after the close of 2 drops the first one from the pending orders; at 3
its status is still that of an order that waits. -/
theorem droppedTarget_untold :
    ∃ d₁ d₂, Runs.run (Desk.step config)
        (Desk.start config (program [limitTarget "second" 5 70]))
        (before (program [limitTarget "second" 5 70])) = some d₁ ∧ d₁.phase = .pending ∧
      Runs.run (Desk.step config) d₁ (opens (program [limitTarget "second" 5 70])) = some d₂ ∧
      d₂.AtCallback ∧
      Runs.AllSteps (Desk.step config) UsesFreshIds
        (Desk.start config (program [limitTarget "second" 5 70]))
        (before (program [limitTarget "second" 5 70]) ++
          opens (program [limitTarget "second" 5 70])) ∧
      ∃ tk ∈ queuedIn d₁.log, ¬ StatusTrue d₂ d₂ tk := by
  obtain ⟨d₁, hbefore, hphase, hqueued⟩ := Runs.exists_of_any
    (p := fun d : Desk Unit => d.phase = .pending ∧
      ∃ tk ∈ queuedIn d.log, tk.asked = .given "first")
    (show (Runs.run (Desk.step config) (Desk.start config (program [limitTarget "second" 5 70]))
      (before (program [limitTarget "second" 5 70]))).any _ = true by decide +kernel)
  obtain ⟨d₂, hopens, hcallback, hopen, hnone⟩ := Runs.exists_of_any
    (p := fun d : Desk Unit => d.AtCallback ∧
      (d.session.context.statusOf (.given "first")).isOpen = true ∧
      ∀ w ∈ d.pending, w.asked ≠ .given "first")
    (show (Runs.run (Desk.step config) (Desk.start config (program [limitTarget "second" 5 70]))
      (before (program [limitTarget "second" 5 70]) ++
        opens (program [limitTarget "second" 5 70]))).any _ = true by decide +kernel)
  obtain ⟨tk, htk, hasked⟩ := hqueued
  refine ⟨d₁, d₂, hbefore, hphase, Runs.run_append_of_eq_some hbefore hopens, hcallback,
    by decide +kernel, tk, htk, fun htrue => ?_⟩
  obtain ⟨w, hw, hsame, -⟩ := htrue.waits (hasked.symm ▸ hopen)
  exact hnone w hw (hsame.trans hasked)

end AlgoTrade.Backtest
