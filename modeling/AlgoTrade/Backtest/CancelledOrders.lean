import AlgoTrade.Backtest.DeskRuns

/-! # Cancelled orders

A cancel of the strategy against the orders queued under its reference before.

* `CancelFinal`: nothing is produced any more for an order that a successful cancel
  comes after.
* `CancelsReach`: `_remove_cancelled_orders` looks at the pending orders only, under
  the references they are kept under.
* `cancelFinal_of_cancelsReach`: every run of the desk. -/

namespace AlgoTrade.Backtest

/-! ## The property -/

/-- The order a fill or a live intent is for. -/
def DeskEvent.produced? : DeskEvent → Option Ticket
  | .filled tk => some tk
  | .emitted tk => some tk
  | _ => none

/-- Nothing is produced for an order queued under a reference before it was
cancelled. -/
def CancelFinal (log : List DeskEvent) : Prop :=
  log.Pairwise fun e e' => ∀ tk ∈ e'.produced?, ∀ upTo, e = .cancelled tk.asked upTo →
    upTo < tk.sequence

instance (e : DeskEvent) (tk : Ticket) :
    Decidable (∀ upTo, e = .cancelled tk.asked upTo → upTo < tk.sequence) :=
  match e with
  | .cancelled reference upTo => decidable_of_iff (reference = tk.asked → upTo < tk.sequence)
      ⟨fun h _ heq => by cases heq; exact h rfl, fun h heq => h upTo (heq ▸ rfl)⟩
  | .queued _ | .filled _ | .met _ | .emitted _ => .isTrue nofun

instance (log : List DeskEvent) : Decidable (CancelFinal log) :=
  inferInstanceAs (Decidable (log.Pairwise _))

/-- The order is newer than every cancel of its reference. -/
def NotCancelled (log : List DeskEvent) (w : Ticket) : Prop :=
  ∀ upTo, .cancelled w.asked upTo ∈ log → upTo < w.sequence

/-! ## The condition -/

/-- A callback cancels no reference it has queued an order under. -/
def CancelsFirst (log : List DeskEvent) : Prop :=
  log.Pairwise fun e e' => ∀ tk ∈ e.queued?, ∀ reference ∈ e'.cancelled?, tk.asked ≠ reference

instance (log : List DeskEvent) : Decidable (CancelsFirst log) :=
  inferInstanceAs (Decidable (log.Pairwise _))

/-- Every cancel of the callback finds the orders under its reference: none is in
the callback's own queue or waits for the open, and the pending ones are kept under
the whole reference. -/
def CallbackReaches {G : Type} (d : Desk G) (p : Portal) (timestamp : Time)
    (callback : Callback G) : Prop :=
  ∀ log ∈ d.events p timestamp callback, CancelsFirst log ∧
    ∀ reference ∈ cancelledIn log, (∀ tk ∈ d.opening, tk.asked ≠ reference) ∧
      ∀ tk ∈ d.pending, tk.asked = reference → reference.stored = reference

instance {G : Type} (d : Desk G) (p : Portal) (timestamp : Time) (callback : Callback G) :
    Decidable (CallbackReaches d p timestamp callback) :=
  inferInstanceAs (Decidable (∀ log ∈ d.events p timestamp callback, _))

def CancelsReach {G : Type} (d : Desk G) : Act G → Prop
  | .invokeOpening p timestamp callback => CallbackReaches d p timestamp callback
  | .invokeClosing p timestamp callback => CallbackReaches d p timestamp callback
  | _ => True

instance {G : Type} (d : Desk G) (a : Act G) : Decidable (CancelsReach d a) :=
  match a with
  | .invokeOpening .. | .invokeClosing .. => inferInstanceAs (Decidable (CallbackReaches ..))
  | .executePending .. | .exitProtections .. | .executeOpening .. | .liquidate .. | .finish .. =>
    inferInstanceAs (Decidable True)

/-! ## Requests -/

section
variable {log : List DeskEvent} {c c' : Context}

/-- What a callback adds to the log cancels nothing of what waits elsewhere. -/
theorem notCancelled_append {log' : List DeskEvent} {w : Ticket} (hw : NotCancelled log w)
    (hnew : w.asked ∉ cancelledIn log') : NotCancelled (log ++ log') w := by
  intro upTo he
  rcases List.mem_append.mp he with he | he
  · exact hw upTo he
  · exact absurd (mem_cancelledIn.mpr ⟨upTo, he⟩) hnew

/-- An order is newer than the cancels that its callback has made before. -/
theorem notCancelled_queued (hnumbered : Numbered c c' log) (hfirst : CancelsFirst log)
    {w : Ticket} (hw : .queued w ∈ log) : NotCancelled log w := by
  intro upTo he
  obtain ⟨before, after, heq⟩ := List.append_of_mem hw
  have hordered := hnumbered.ordered
  rw [heq] at he hordered
  rw [CancelsFirst, heq] at hfirst
  rcases List.mem_append.mp he with he | he
  · have hapart := (List.pairwise_append.mp hordered).2.2 _ he _ List.mem_cons_self
    exact hapart.2.1 w _ upTo rfl rfl
  · rcases List.mem_cons.mp he with he | he
    · cases he
    · have hlater := (List.pairwise_cons.mp (List.pairwise_append.mp hfirst).2.1).1 _ he
      exact absurd rfl (hlater w rfl w.asked rfl)

/-- Requests produce nothing. -/
theorem Numbered.produced (hnumbered : Numbered c c' log) {e : DeskEvent} (he : e ∈ log) :
    e.produced? = none := by
  rcases hnumbered.requests e he with ⟨tk, rfl⟩ | ⟨reference, upTo, rfl⟩
  · rfl
  · rfl

theorem cancelFinal_append {log' : List DeskEvent} (hlog : CancelFinal log)
    (hnew : ∀ e ∈ log', e.produced? = none) : CancelFinal (log ++ log') := by
  refine List.pairwise_append.mpr ⟨hlog, ?_, ?_⟩
  · refine List.pairwise_of_forall_mem_list ?_
    intro e _ e' he' tk htk
    rw [hnew e' he'] at htk
    cases htk
  · intro e _ e' he' tk htk
    rw [hnew e' he'] at htk
    cases htk

/-- Fills of orders that are newer than their cancels. -/
theorem cancelFinal_batch {log' : List DeskEvent} (hlog : CancelFinal log)
    (hnew : ∀ e ∈ log', ∃ tk, NotCancelled log tk ∧ (e = .filled tk ∨ e = .met tk)) :
    CancelFinal (log ++ log') := by
  refine List.pairwise_append.mpr ⟨hlog, ?_, ?_⟩
  · refine List.pairwise_of_forall_mem_list ?_
    rintro e he e' - tk - upTo rfl
    obtain ⟨tk', -, h | h⟩ := hnew _ he
    · cases h
    · cases h
  · rintro e he e' he' tk htk upTo rfl
    obtain ⟨tk', htk', rfl | rfl⟩ := hnew e' he'
    · obtain rfl := Option.some.inj htk
      exact htk' upTo he
    · cases htk

end

/-! ## Every act -/

/-- What waits is newer than every cancel of its reference, and is kept under its
stored reference. -/
structure NoneCancelled {G : Type} (d : Desk G) : Prop where
  staged : d.Staged
  log : CancelFinal d.log
  pending : ∀ w ∈ d.pending, NotCancelled d.log w ∧ w.order.clientOrderId = some w.asked.stored
  opening : ∀ w ∈ d.opening, NotCancelled d.log w ∧ w.order.clientOrderId = some w.asked.stored
  numbers : ∀ reference upTo, .cancelled reference upTo ∈ d.log →
    upTo ≤ d.session.context.orderSequence

section
variable {G : Type} {cfg : BrokerConfig} {p : Portal} {timestamp : Time} {d : Desk G}

/-- What a batch of the desk's own orders leaves. -/
theorem execute_noneCancelled (hd : NoneCancelled d) {tks : List Ticket}
    {e : Desk G × List Ticket} (he : d.execute cfg p timestamp tks = some e)
    (htks : ∀ tk ∈ tks, NotCancelled d.log tk ∧ tk.order.clientOrderId = some tk.asked.stored) :
    CancelFinal e.1.log ∧
      (∀ w, NotCancelled d.log w → NotCancelled e.1.log w) ∧
      (∀ w ∈ e.2, NotCancelled e.1.log w ∧ w.order.clientOrderId = some w.asked.stored) ∧
      ∀ reference upTo, .cancelled reference upTo ∈ e.1.log →
        upTo ≤ e.1.session.context.orderSequence := by
  obtain ⟨o, ho, hdeferred, hlog, -, -, -, hsequence⟩ := Desk.execute_frame he
  have hcancelled : ∀ reference upTo, .cancelled reference upTo ∈ d.log ++ o.events →
      .cancelled reference upTo ∈ d.log := by
    intro reference upTo hmem
    rcases List.mem_append.mp hmem with hmem | hmem
    · exact hmem
    · obtain ⟨tk, -, h | h⟩ := executeTickets_events ho hmem
      · cases h
      · cases h
  have hkeep : ∀ w, NotCancelled d.log w → NotCancelled (d.log ++ o.events) w :=
    fun w hw upTo hmem => hw upTo (hcancelled _ _ hmem)
  rw [hdeferred, hlog, hsequence]
  refine ⟨?_, hkeep, ?_, fun reference upTo hmem => hd.numbers _ _ (hcancelled _ _ hmem)⟩
  · refine cancelFinal_batch hd.log fun event hevent => ?_
    obtain ⟨tk, htk, hcase⟩ := executeTickets_events ho hevent
    exact ⟨tk, (htks tk htk).1, hcase⟩
  · intro w hw
    obtain ⟨tk, htk, hsame⟩ := executeTickets_kept ho hw
    obtain ⟨hnot, hreference⟩ := htks tk htk
    refine ⟨hkeep w ?_, by rw [hsame.clientOrderId, hreference, hsame.asked]⟩
    intro upTo hmem
    rw [hsame.asked] at hmem
    rw [hsame.sequence]
    exact hnot upTo hmem

/-- What a callback leaves. -/
theorem invoke_noneCancelled (hd : NoneCancelled d) {callback : Callback G}
    {o : Desk G × List Ticket} (hreaches : CallbackReaches d p timestamp callback)
    (ho : d.invoke p timestamp callback = some o) :
    CancelFinal o.1.log ∧
      (∀ w ∈ o.1.pending, NotCancelled o.1.log w ∧ w.order.clientOrderId = some w.asked.stored) ∧
      (∀ w ∈ o.1.opening, NotCancelled o.1.log w ∧ w.order.clientOrderId = some w.asked.stored) ∧
      (∀ w ∈ o.2, NotCancelled o.1.log w ∧ w.order.clientOrderId = some w.asked.stored) ∧
      (∀ reference upTo, .cancelled reference upTo ∈ o.1.log →
        upTo ≤ o.1.session.context.orderSequence) ∧ o.1.opening = d.opening := by
  obtain ⟨log, hevents, hnumbered, hqueued, hlog, hopening, -, -, hpending⟩ :=
    Desk.invoke_spec hd.staged.clear ho
  obtain ⟨hfirst, hreach⟩ := hreaches log hevents
  rw [hlog, hopening, hqueued, hpending]
  refine ⟨cancelFinal_append hd.log fun e he => hnumbered.produced he, ?_, ?_, ?_, ?_, rfl⟩
  · intro w hw
    obtain ⟨hmem, hkept⟩ := List.mem_filter.mp hw
    obtain ⟨hnot, hreference⟩ := hd.pending w hmem
    refine ⟨notCancelled_append hnot fun hcancelled => ?_, hreference⟩
    refine of_decide_eq_true hkept ⟨w.asked.stored, hreference, ?_⟩
    rw [(hreach w.asked hcancelled).2 w hmem rfl]
    exact hcancelled
  · intro w hw
    obtain ⟨hnot, hreference⟩ := hd.opening w hw
    exact ⟨notCancelled_append hnot fun hcancelled =>
      (hreach w.asked hcancelled).1 w hw rfl, hreference⟩
  · intro w hw
    obtain ⟨hlt, -, hreference⟩ := hnumbered.queued w (mem_queuedIn.mp hw)
    refine ⟨fun upTo he => ?_, hreference⟩
    rcases List.mem_append.mp he with he | he
    · exact (hd.numbers _ _ he).trans_lt hlt
    · exact notCancelled_queued hnumbered hfirst (mem_queuedIn.mp hw) upTo he
  · intro reference upTo he
    rcases List.mem_append.mp he with he | he
    · exact (hd.numbers _ _ he).trans hnumbered.le
    · exact (hnumbered.cancelled _ _ he).2

/-- **One act** produces nothing for a cancelled order. -/
theorem step_noneCancelled (d : Desk G) (a : Act G) (d' : Desk G) (hd : NoneCancelled d)
    (hcond : CancelsReach d a) (h : d.step cfg a = some d') : NoneCancelled d' := by
  have hstaged := Desk.step_staged d a d' hd.staged h
  obtain ⟨hphase, d₁, rfl, ⟨rfl, -⟩ | ⟨-, hperform⟩⟩ := Desk.step_spec h
  · exact ⟨hstaged, hd.log, hd.pending, hd.opening, hd.numbers⟩
  cases a with
  | executePending p timestamp =>
    dsimp only [Desk.perform] at hperform
    split at hperform
    · obtain rfl := Option.some.inj hperform
      exact ⟨hstaged, hd.log, hd.pending, hd.opening, hd.numbers⟩
    · obtain ⟨e, he, rfl⟩ := Option.map_eq_some_iff.mp hperform
      obtain ⟨hlog, hkeep, hleft, hnumbers⟩ := execute_noneCancelled hd he hd.pending
      obtain ⟨o, -, -, -, hopening, -⟩ := Desk.execute_frame he
      refine ⟨hstaged, hlog, hleft, fun w hw => ?_, hnumbers⟩
      obtain ⟨hnot, hreference⟩ := hd.opening w (hopening ▸ hw)
      exact ⟨hkeep w hnot, hreference⟩
  | exitProtections p timestamp =>
    obtain ⟨e, -, rfl⟩ := Option.map_eq_some_iff.mp hperform
    exact ⟨hstaged, hd.log, hd.pending, hd.opening, hd.numbers⟩
  | invokeOpening p timestamp callback =>
    obtain ⟨o, ho, rfl⟩ := Option.map_eq_some_iff.mp hperform
    obtain ⟨hlog, hpending, hopening, hqueued, hnumbers, hsame⟩ := invoke_noneCancelled hd hcond ho
    refine ⟨hstaged, hlog, hpending, fun w hw => ?_, hnumbers⟩
    rcases List.mem_append.mp hw with hw | hw
    · exact hopening w (hsame ▸ hw)
    · exact hqueued w hw
  | executeOpening p timestamp =>
    dsimp only [Desk.perform] at hperform
    split at hperform
    · obtain rfl := Option.some.inj hperform
      exact ⟨hstaged, hd.log, hd.pending, hd.opening, hd.numbers⟩
    · obtain ⟨e, he, rfl⟩ := Option.map_eq_some_iff.mp hperform
      obtain ⟨hlog, hkeep, hleft, hnumbers⟩ := execute_noneCancelled hd he hd.opening
      refine ⟨hstaged, hlog, fun w hw => ?_, fun w hw => ?_, hnumbers⟩
      · rcases mem_mergeTickets_or hw with hw | hw
        · obtain ⟨hnot, hreference⟩ := hd.pending w hw
          exact ⟨hkeep w hnot, hreference⟩
        · exact hleft w hw
      · cases hw
  | liquidate p timestamp =>
    obtain ⟨e, -, rfl⟩ := Option.map_eq_some_iff.mp hperform
    split at hstaged
    next hinsolvent =>
      rw [if_pos hinsolvent]
      refine ⟨hstaged, hd.log, fun w hw => ?_, hd.opening, hd.numbers⟩
      cases hw
    next hsolvent =>
      rw [if_neg hsolvent]
      exact ⟨hstaged, hd.log, hd.pending, hd.opening, hd.numbers⟩
  | invokeClosing p timestamp callback =>
    obtain ⟨o, ho, rfl⟩ := Option.map_eq_some_iff.mp hperform
    obtain ⟨hlog, hpending, hopening, hqueued, hnumbers, -⟩ := invoke_noneCancelled hd hcond ho
    refine ⟨hstaged, hlog, fun w hw => ?_, hopening, hnumbers⟩
    rcases mem_mergeTickets_or hw with hw | hw
    · exact hpending w hw
    · exact hqueued w hw
  | finish p timestamp =>
    obtain rfl := Option.some.inj hperform
    exact ⟨hstaged, hd.log, hd.pending, hd.opening, hd.numbers⟩

theorem start_noneCancelled (cfg : BrokerConfig) (prog : Program G) :
    NoneCancelled (Desk.start cfg prog) := by
  refine ⟨Desk.start_staged cfg prog, List.Pairwise.nil, ?_, ?_, ?_⟩
  · intro w hw
    cases hw
  · intro w hw
    cases hw
  · intro reference upTo he
    cases he

/-- **A cancel is final** in a run whose cancels all reach their orders. -/
theorem cancelFinal_of_cancelsReach {prog : Program G} {acts : List (Act G)}
    (hcond : Runs.AllSteps (Desk.step cfg) CancelsReach (Desk.start cfg prog) acts)
    {d : Desk G} (hrun : Runs.run (Desk.step cfg) (Desk.start cfg prog) acts = some d) :
    CancelFinal d.log :=
  (Runs.run_invariant_of_allSteps step_noneCancelled (start_noneCancelled cfg prog) hcond hrun).log

end

end AlgoTrade.Backtest
