import AlgoTrade.Backtest.CancelledOrders
import AlgoTrade.Live.Session

/-! # Cancels of a live session

A live session never looks at the references its strategy has cancelled: what is in
the queue of the context is handed over, and no cancel follows it to the gateway.

* `Counter`: the session with the tickets of its queue, those at the gateway, and a
  log.
* `step_tickets`: the tickets are those of the context's orders, and what a call
  hands over is logged.
* `cancel_final`: cancels are final, in a backtest and in a live session, when they
  all reach their orders. -/

namespace AlgoTrade.Live

open Backtest

/-! ## Moves -/

/-- The session with the tickets of the orders in its context, those that the gateway
works on, and the log. -/
structure Counter (G : Type) where
  session : Session G
  queue : List Ticket := []
  working : List Ticket := []
  log : List DeskEvent := []

/-- A call, or what becomes of an order at the gateway: a fill, or its end. -/
inductive Move (G : Type)
  | call (call : Call G)
  | fill (tk : Ticket)
  | close (tk : Ticket)

namespace Counter

variable {G : Type}

def start (prog : Program G) (portal : Portal) (initialCapital : ℚ) : Counter G where
  session := .start prog portal initialCapital

/-- A move; as many orders leave the queue for the gateway as there are intents of the
strategy. -/
def step (prog : Program G) (c : Counter G) : Move G → Option (Counter G)
  | .call call =>
    let called := c.session.call prog call
    let queue := c.queue ++ queuedIn called.2.events
    let emitted := queue.take (called.2.intents.getD []).length
    some
      { session := called.1
        queue := queue.drop (called.2.intents.getD []).length
        working := c.working ++ emitted
        log := c.log ++ called.2.events ++ emitted.map .emitted }
  | .fill tk => if tk ∈ c.working then some { c with log := c.log ++ [.filled tk] } else none
  | .close tk => some { c with working := c.working.erase tk }

end Counter

/-! ## The condition -/

/-- Every cancel of the call comes before the orders under its reference: none is in
the queue or at the gateway. -/
def CancelsReach {G : Type} (prog : Program G) (c : Counter G) : Move G → Prop
  | .call call =>
    let events := (c.session.call prog call).2.events
    CancelsFirst events ∧
      ∀ reference ∈ cancelledIn events, ∀ tk ∈ c.queue ++ c.working, tk.asked ≠ reference
  | _ => True

instance {G : Type} (prog : Program G) (c : Counter G) (m : Move G) :
    Decidable (CancelsReach prog c m) :=
  match m with
  | .call _ => inferInstanceAs (Decidable (_ ∧ _))
  | .fill _ | .close _ => inferInstanceAs (Decidable True)

/-! ## What calls queue -/

section
variable {G : Type}

theorem performUntil_numbered (symbols : List Instrument) (currentDt : Time) (c : Context)
    (rs : List Request) :
    Numbered c (c.performUntil symbols currentDt rs).1 (c.performUntil symbols currentDt rs).2.1 ∧
      (c.performUntil symbols currentDt rs).1.orders = c.orders ++
        (queuedIn (c.performUntil symbols currentDt rs).2.1).map Ticket.order := by
  induction rs generalizing c with
  | nil => exact ⟨.refl rfl, (List.append_nil _).symm⟩
  | cons r rs ih =>
    unfold Context.performUntil
    cases hc' : c.perform symbols currentDt r with
    | none => exact ⟨.refl rfl, (List.append_nil _).symm⟩
    | some c' =>
      obtain ⟨hnumbered, horders⟩ := ih c'
      refine ⟨(Numbered.perform hc').trans hnumbered, ?_⟩
      dsimp only
      rw [horders, (Context.perform_events hc').1, queuedIn_append, List.map_append,
        List.append_assoc]

/-- What callbacks leave in the context is numbered, and was in it or is new. -/
structure Queues (s s' : Session G) (events : List DeskEvent) : Prop where
  numbered : Numbered s.context s'.context events
  orders : s'.context.orders = s.context.orders ++ (queuedIn events).map Ticket.order

namespace Queues

variable {s s' s'' : Session G} {events events' : List DeskEvent}

theorem of_context (h : s'.context.orders = s.context.orders)
    (hsequence : s.context.orderSequence = s'.context.orderSequence) : Queues s s' [] :=
  ⟨.refl hsequence, h.trans (List.append_nil _).symm⟩

theorem trans (h : Queues s s' events) (h' : Queues s' s'' events') :
    Queues s s'' (events ++ events') := by
  refine ⟨h.numbered.trans h'.numbered, ?_⟩
  rw [h'.orders, h.orders, queuedIn_append, List.map_append, List.append_assoc]

theorem congr {s₁ s₁' : Session G} (h : Queues s s' events) (hs : s₁.context = s.context)
    (hs' : s₁'.context = s'.context) : Queues s₁ s₁' events :=
  ⟨hs ▸ hs' ▸ h.numbered, by rw [hs, hs', h.orders]⟩

theorem invoke (s : Session G) (currentDt : Time) (callback : Callback G) :
    Queues s (s.invoke currentDt callback).1 (s.invoke currentDt callback).2.1 := by
  obtain ⟨hnumbered, horders⟩ := performUntil_numbered s.portal.symbols currentDt s.context
    (callback (s.view currentDt s.lastProcessed) s.strategy).requests
  exact ⟨hnumbered, horders⟩

theorem invokeAll (s : Session G) (callbacks : List (Time × Callback G)) :
    Queues s (s.invokeAll callbacks).1 (s.invokeAll callbacks).2.1 := by
  induction callbacks generalizing s with
  | nil => exact of_context rfl rfl
  | cons e callbacks ih =>
    unfold Session.invokeAll
    dsimp only
    split
    · exact invoke ..
    · exact (invoke ..).trans (ih _)

end Queues

/-- Handing over empties the queue. -/
theorem handOver_context (s : Session G) :
    s.handOver.1.context = { s.context with orders := [] } ∧
      s.handOver.2 = s.context.orders := by
  have hcapture : ∀ (orders : List OrderIntent) (s : Session G),
      (orders.foldl Session.captureProtection s).context = s.context := by
    intro orders
    induction orders with
    | nil => intro s; rfl
    | cons order orders ih => intro s; exact ih _
  exact ⟨hcapture _ _, rfl⟩

/-- What a call leaves in the queue of `s'`: everything, or nothing of it. -/
def Leaves (s' after : Session G) (handed : Handed) : Prop :=
  (after.context = { s'.context with orders := [] } ∧ handed.intents = some s'.context.orders) ∨
    (after.context.orders = s'.context.orders ∧
      after.context.orderSequence = s'.context.orderSequence ∧ handed.intents.getD [] = [])

theorem Leaves.all {s' : Session G} {handed : Handed} (h : handed.intents.getD [] = []) :
    Leaves s' s' handed := .inr ⟨rfl, rfl, h⟩

theorem callHook_queues (s : Session G) (timestamp : Time) (callback : Callback G) :
    ∃ s', Queues s s' (s.callHook timestamp callback).2.events ∧
      Leaves s' (s.callHook timestamp callback).1 (s.callHook timestamp callback).2 := by
  refine ⟨(s.invoke timestamp callback).1, ?_, ?_⟩
  · unfold Session.callHook
    dsimp only
    split
    · exact .invoke ..
    · exact .invoke ..
  · unfold Session.callHook
    dsimp only
    split
    · exact .all rfl
    · obtain ⟨hcontext, horders⟩ := handOver_context (s.invoke timestamp callback).1
      exact .inl ⟨hcontext, congrArg some horders⟩

theorem process_queues (prog : Program G) (s : Session G) (frames : Frames) (clock : Time) :
    ∃ s', Queues s s' (s.process prog frames clock).2.events ∧
      Leaves s' (s.process prog frames clock).1 (s.process prog frames clock).2 := by
  unfold Session.process
  split
  · exact ⟨s, .of_context rfl rfl, .all rfl⟩
  next timestamp _ =>
    have hfirst : Queues s ((s.showData frames timestamp).invokeFirst prog timestamp clock).1
        ((s.showData frames timestamp).invokeFirst prog timestamp clock).2.1 :=
      (Queues.invokeAll (s.showData frames timestamp) _).congr rfl rfl
    generalize (s.showData frames timestamp).invokeFirst prog timestamp clock = first at hfirst ⊢
    dsimp only
    split
    · exact ⟨first.1, hfirst, .all rfl⟩
    · have hsecond : Queues first.1 (first.1.invokeBar prog timestamp clock).1
          (first.1.invokeBar prog timestamp clock).2.1 :=
        (Queues.invokeAll { first.1 with lastScheduleCheck := some clock } _).congr rfl rfl
      generalize first.1.invokeBar prog timestamp clock = second at hsecond ⊢
      split
      · exact ⟨second.1, hfirst.trans hsecond, .all rfl⟩
      · obtain ⟨hhanded, horders⟩ := handOver_context second.1
        exact ⟨second.1, hfirst.trans hsecond, .inl ⟨hhanded, congrArg some horders⟩⟩

theorem synchronizeProtection_context (now : Time) (s : Session G) (key : PositionKey)
    (position : Position) : (s.synchronizeProtection now key position).context = s.context := by
  unfold Session.synchronizeProtection
  split
  · rfl
  · split
    · rfl
    · extract_lets side opened
      split
      · rfl
      · split
        · rfl
        · split
          · rfl
          · rfl

theorem forgetExit_context (s : Session G) (key : PositionKey) :
    (s.forgetExit key).context = s.context := by
  unfold Session.forgetExit
  split
  · rfl
  · rfl

theorem synchronizePositions_context (now : Time) (rows : List Session.PositionRow)
    (availableCash totalValue : Option ℚ) (s : Session G) :
    (s.synchronizePositions now rows availableCash totalValue).context = s.context := by
  have hprotection : ∀ (entries : List (PositionKey × Position)) (s : Session G),
      (entries.foldl (fun s e => s.synchronizeProtection now e.1 e.2) s).context = s.context := by
    intro entries
    induction entries with
    | nil => intro s; rfl
    | cons e entries ih => intro s; exact (ih _).trans (synchronizeProtection_context ..)
  have hforget : ∀ (keys : List PositionKey) (s : Session G),
      (keys.foldl Session.forgetExit s).context = s.context := by
    intro keys
    induction keys with
    | nil => intro s; rfl
    | cons key keys ih => intro s; exact (ih _).trans (forgetExit_context ..)
  exact (hforget _ _).trans (hprotection _ _)

theorem evaluateProtections_context (prices : Dict PositionKey ℚ) (timestamp : Time)
    (s : Session G) :
    (s.evaluateProtections prices timestamp).1.context.orders = s.context.orders ∧
      (s.evaluateProtections prices timestamp).1.context.orderSequence =
        s.context.orderSequence := by
  unfold Session.evaluateProtections
  generalize s.protectionStates.entries = entries
  induction entries generalizing s with
  | nil => exact ⟨rfl, rfl⟩
  | cons e entries ih =>
    obtain ⟨horders, hsequence⟩ := ih (s.evaluateProtection prices timestamp e.1 e.2).1
    have hone : (s.evaluateProtection prices timestamp e.1 e.2).1.context.orders =
          s.context.orders ∧
        (s.evaluateProtection prices timestamp e.1 e.2).1.context.orderSequence =
          s.context.orderSequence := by
      unfold Session.evaluateProtection
      split
      · exact ⟨rfl, rfl⟩
      · split
        · exact ⟨rfl, rfl⟩
        · split
          · exact ⟨rfl, rfl⟩
          · split
            · exact ⟨rfl, rfl⟩
            · dsimp only
              split
              · exact ⟨rfl, rfl⟩
              · exact ⟨rfl, rfl⟩
    exact ⟨horders.trans hone.1, hsequence.trans hone.2⟩

/-- **A call** queues what it logs, and hands over its whole queue or nothing of it. -/
theorem call_queues (prog : Program G) (s : Session G) (call : Call G) :
    ∃ s', Queues s s' (s.call prog call).2.events ∧
      Leaves s' (s.call prog call).1 (s.call prog call).2 := by
  cases call with
  | process frames clock => exact process_queues prog s frames clock
  | equityRisk timestamp =>
    unfold Session.call Session.evaluateEquityRisk
    dsimp only
    split
    · exact ⟨s, .of_context rfl rfl, .all rfl⟩
    · exact callHook_queues ..
  | priceTick prices timestamp =>
    unfold Session.call Session.evaluatePriceTick
    dsimp only
    split
    · exact ⟨s, .of_context rfl rfl, .all rfl⟩
    · split
      · exact ⟨s, .of_context rfl rfl, .all rfl⟩
      · exact callHook_queues ..
  | synchronize now rows availableCash totalValue =>
    have hcontext := synchronizePositions_context now rows availableCash totalValue s
    refine ⟨s, .of_context rfl rfl, .inr ⟨?_, ?_, rfl⟩⟩
    · exact congrArg Context.orders hcontext
    · exact congrArg Context.orderSequence hcontext
  | protections prices timestamp =>
    obtain ⟨horders, hsequence⟩ := evaluateProtections_context prices timestamp s
    exact ⟨s, .of_context rfl rfl, .inr ⟨horders, hsequence, rfl⟩⟩
  | releaseProtection key => exact ⟨s, .of_context rfl rfl, .inr ⟨rfl, rfl, rfl⟩⟩
  | releaseEquityRisk => exact ⟨s, .of_context rfl rfl, .inr ⟨rfl, rfl, rfl⟩⟩
  | updateStatuses statuses => exact ⟨s, .of_context rfl rfl, .inr ⟨rfl, rfl, rfl⟩⟩

/-! ## Every call -/

/-- The tickets are those of the context's orders. -/
def Counter.Counts (c : Counter G) : Prop :=
  c.queue.map Ticket.order = c.session.context.orders

/-- **What a call does** to the tickets: all that are queued leave, or none. -/
theorem step_tickets {prog : Program G} {c c' : Counter G} {call : Call G} (hc : c.Counts)
    (h : c.step prog (.call call) = some c') :
    Counter.Counts c' ∧ ∃ events emitted, events = (c.session.call prog call).2.events ∧
      Numbered c.session.context c'.session.context events ∧
      c.queue ++ queuedIn events = emitted ++ c'.queue ∧
      emitted.map Ticket.order = (c.session.call prog call).2.intents.getD [] ∧
      c'.working = c.working ++ emitted ∧
      c'.log = c.log ++ events ++ emitted.map .emitted := by
  obtain rfl := Option.some.inj h
  obtain ⟨s', hqueues, hleaves⟩ := call_queues prog c.session call
  have horders : (c.queue ++ queuedIn (c.session.call prog call).2.events).map Ticket.order =
      s'.context.orders := by
    rw [List.map_append, hc, hqueues.orders]
  have hnumbered := hqueues.numbered
  rcases hleaves with ⟨hcontext, hintents⟩ | ⟨hsame, hsequence, hnone⟩
  · have hall : ((c.session.call prog call).2.intents.getD []).length =
        (c.queue ++ queuedIn (c.session.call prog call).2.events).length := by
      rw [hintents, Option.getD_some, ← horders, List.length_map]
    have hemitted := List.take_length (l := c.queue ++ queuedIn (c.session.call prog call).2.events)
    refine ⟨?_, _, c.queue ++ queuedIn (c.session.call prog call).2.events, rfl, ?_, ?_, ?_, ?_, ?_⟩
    · show (List.drop _ _).map Ticket.order = (c.session.call prog call).1.context.orders
      rw [hall, List.drop_length, hcontext]
      rfl
    · obtain ⟨hle, hqueued, hcancelled, hrequests, hordered⟩ := hnumbered
      have hnumber : (c.session.call prog call).1.context.orderSequence =
          s'.context.orderSequence := by rw [hcontext]
      exact ⟨hnumber ▸ hle, hnumber ▸ hqueued, hnumber ▸ hcancelled, hrequests, hordered⟩
    · show _ = _ ++ List.drop _ _
      rw [hall, List.drop_length, List.append_nil]
    · rw [horders, hintents, Option.getD_some]
    · show _ ++ List.take _ _ = _
      rw [hall, hemitted]
    · show _ ++ (List.take _ _).map DeskEvent.emitted = _
      rw [hall, hemitted]
  · refine ⟨?_, _, [], rfl, ?_, ?_, ?_, ?_, ?_⟩
    · show (List.drop _ _).map Ticket.order = (c.session.call prog call).1.context.orders
      rw [hnone, List.length_nil, List.drop_zero, horders, hsame]
    · obtain ⟨hle, hqueued, hcancelled, hrequests, hordered⟩ := hnumbered
      exact ⟨hsequence ▸ hle, hsequence ▸ hqueued, hsequence ▸ hcancelled, hrequests, hordered⟩
    · show _ = [] ++ List.drop _ _
      rw [hnone, List.length_nil, List.drop_zero, List.nil_append]
    · exact hnone.symm
    · show _ ++ List.take _ _ = _
      rw [hnone, List.length_nil, List.take_zero]
    · show _ ++ (List.take _ _).map DeskEvent.emitted = _
      rw [hnone, List.length_nil, List.take_zero]

/-- What waits and what the gateway works on is newer than every cancel of its
reference. -/
structure NoneCancelled (c : Counter G) : Prop where
  counts : c.Counts
  log : CancelFinal c.log
  waiting : ∀ w ∈ c.queue ++ c.working, NotCancelled c.log w
  numbers : ∀ reference upTo, .cancelled reference upTo ∈ c.log →
    upTo ≤ c.session.context.orderSequence

/-- A call hands over nothing that is cancelled. -/
theorem call_noneCancelled {prog : Program G} {c c' : Counter G} {call : Call G}
    (hc : NoneCancelled c) (hcond : CancelsReach prog c (.call call))
    (h : c.step prog (.call call) = some c') : NoneCancelled c' := by
  obtain ⟨hcounts, events, emitted, hevents, hnumbered, hsplit, -, hworking, hlog⟩ :=
    step_tickets hc.counts h
  obtain ⟨hfirst, hreach⟩ := hcond
  rw [← hevents] at hfirst hreach
  have hcancelled : ∀ reference upTo, .cancelled reference upTo ∈
      c.log ++ events ++ emitted.map .emitted → .cancelled reference upTo ∈ c.log ++ events := by
    intro reference upTo hmem
    rcases List.mem_append.mp hmem with hmem | hmem
    · exact hmem
    · obtain ⟨tk, -, htk⟩ := List.mem_map.mp hmem
      cases htk
  have hold : ∀ w ∈ c.queue ++ c.working, NotCancelled (c.log ++ events) w := fun w hw =>
    notCancelled_append (hc.waiting w hw) fun hmem => hreach w.asked hmem w hw rfl
  have hqueue : ∀ w ∈ c.queue ++ queuedIn events, NotCancelled (c.log ++ events) w := by
    intro w hw
    rcases List.mem_append.mp hw with hw | hw
    · exact hold w (List.mem_append_left _ hw)
    · intro upTo hmem
      rcases List.mem_append.mp hmem with hmem | hmem
      · exact (hc.numbers _ _ hmem).trans_lt (hnumbered.queued w (mem_queuedIn.mp hw)).1
      · exact notCancelled_queued hnumbered hfirst (mem_queuedIn.mp hw) upTo hmem
  rw [hsplit] at hqueue
  refine ⟨hcounts, ?_, ?_, ?_⟩
  · rw [hlog]
    refine List.pairwise_append.mpr
      ⟨cancelFinal_append hc.log fun e he => hnumbered.produced he, ?_, ?_⟩
    · refine List.pairwise_of_forall_mem_list ?_
      rintro e he e' - tk - upTo rfl
      obtain ⟨tk', -, htk'⟩ := List.mem_map.mp he
      cases htk'
    · rintro e he e' he' tk htk upTo rfl
      obtain ⟨tk', htk', rfl⟩ := List.mem_map.mp he'
      obtain rfl := Option.some.inj htk
      exact hqueue tk' (List.mem_append_left _ htk') upTo he
  · intro w hw upTo hmem
    rw [hlog] at hmem
    rw [hworking] at hw
    rcases List.mem_append.mp hw with hw | hw
    · exact hqueue w (List.mem_append_right _ hw) upTo (hcancelled _ _ hmem)
    · rcases List.mem_append.mp hw with hw | hw
      · exact hold w (List.mem_append_right _ hw) upTo (hcancelled _ _ hmem)
      · exact hqueue w (List.mem_append_left _ hw) upTo (hcancelled _ _ hmem)
  · intro reference upTo hmem
    rw [hlog] at hmem
    rcases List.mem_append.mp (hcancelled _ _ hmem) with hmem | hmem
    · exact (hc.numbers _ _ hmem).trans hnumbered.le
    · exact (hnumbered.cancelled _ _ hmem).2

/-- **One move** produces nothing for a cancelled order. -/
theorem step_noneCancelled {prog : Program G} (c : Counter G) (m : Move G) (c' : Counter G)
    (hc : NoneCancelled c) (hcond : CancelsReach prog c m) (h : c.step prog m = some c') :
    NoneCancelled c' := by
  cases m with
  | call call => exact call_noneCancelled hc hcond h
  | fill tk =>
    obtain ⟨hmem, h⟩ := Option.ite_none_right_eq_some.mp h
    obtain rfl := Option.some.inj h
    have hcancelled : ∀ reference upTo, .cancelled reference upTo ∈ c.log ++ [.filled tk] →
        .cancelled reference upTo ∈ c.log := by
      intro reference upTo he
      rcases List.mem_append.mp he with he | he
      · exact he
      · cases List.mem_singleton.mp he
    refine ⟨hc.counts, ?_, ?_, fun reference upTo he => hc.numbers _ _ (hcancelled _ _ he)⟩
    · refine cancelFinal_batch hc.log fun e he => ?_
      obtain rfl := List.mem_singleton.mp he
      exact ⟨tk, hc.waiting tk (List.mem_append_right _ hmem), .inl rfl⟩
    · intro w hw upTo he
      exact hc.waiting w hw upTo (hcancelled _ _ he)
  | close tk =>
    obtain rfl := Option.some.inj h
    refine ⟨hc.counts, hc.log, fun w hw => hc.waiting w ?_, hc.numbers⟩
    rcases List.mem_append.mp hw with hw | hw
    · exact List.mem_append_left _ hw
    · exact List.mem_append_right _ (List.mem_of_mem_erase hw)

theorem start_noneCancelled (prog : Program G) (portal : Portal) (initialCapital : ℚ) :
    NoneCancelled (Counter.start prog portal initialCapital) := by
  refine ⟨rfl, List.Pairwise.nil, ?_, ?_⟩
  · intro w hw
    cases hw
  · intro reference upTo he
    cases he

/-- Cancels of a live session whose calls cancel no reference with an order in the
queue or at the gateway are final. -/
theorem liveCancel_final {prog : Program G} {portal : Portal} {initialCapital : ℚ}
    {moves : List (Move G)}
    (hcond : Runs.AllSteps (Counter.step prog) (CancelsReach prog)
      (Counter.start prog portal initialCapital) moves) {c : Counter G}
    (hrun : Runs.run (Counter.step prog) (Counter.start prog portal initialCapital) moves = some c) :
    CancelFinal c.log :=
  (Runs.run_invariant_of_allSteps step_noneCancelled (start_noneCancelled prog portal initialCapital)
    hcond hrun).log

/-- **Cancels are final**, in a backtest and in a live session, in the runs whose
cancels all reach their orders. -/
theorem cancel_final :
    (∀ {cfg : BrokerConfig} {prog : Backtest.Program G} {acts : List (Act G)} {d : Desk G},
      Runs.AllSteps (Desk.step cfg) Backtest.CancelsReach (Desk.start cfg prog) acts →
      Runs.run (Desk.step cfg) (Desk.start cfg prog) acts = some d → CancelFinal d.log) ∧
    ∀ {prog : Program G} {portal : Portal} {initialCapital : ℚ} {moves : List (Move G)}
      {c : Counter G},
      Runs.AllSteps (Counter.step prog) (CancelsReach prog)
        (Counter.start prog portal initialCapital) moves →
      Runs.run (Counter.step prog) (Counter.start prog portal initialCapital) moves = some c →
      CancelFinal c.log :=
  ⟨fun hcond hrun => cancelFinal_of_cancelsReach hcond hrun,
    fun hcond hrun => liveCancel_final hcond hrun⟩

end

/-! ## Runs -/

namespace Cancelled

def coin : Instrument := ⟨"Crypto", "BTC/USDT"⟩

def bar (low : ℚ) : Bar where
  openPrice := 100
  high := 100
  low := low
  close := 100

/-- The price falls to 60 at 3. -/
def history : Frames where
  entries := [(coin, ⟨[(1, bar 100), (2, bar 100), (3, bar 60)], by decide⟩)]

def config : BrokerConfig := .costless 10000

def limitOrder : Request :=
  .order { symbol := coin, kind := .quantity, value := 1, orderType := .limit
           limitPrice := some 80, clientOrderId := some "a" }

def marketOrder : Request :=
  .order { symbol := coin, kind := .quantity, value := 1, clientOrderId := some "a" }

def cancel : Request := .cancelOrder (.given "a")

/-- Requests of `handle_data` at a bar. -/
def asks (requests : Time → List Request) : Backtest.Program Unit where
  init := ()
  beforeTradingStart := fun _ s => some (s, [])
  schedules := []
  onRebalance := fun _ s => some (s, [])
  handleData := fun view s => some (s, requests view.currentDt)
  afterTradingEnd := fun _ s => some (s, [])

/-- A resting order at 1, cancelled at 2. -/
def cancelsPending : Backtest.Program Unit :=
  asks fun t => if t = 1 then [limitOrder] else if t = 2 then [cancel] else []

/-- An order that its own callback cancels. -/
def cancelsQueued : Backtest.Program Unit :=
  asks fun t => if t = 1 then [marketOrder, cancel] else []

def silent : Callback Unit := fun _ s => { strategy := s }

def liveAsks (requests : List Request) : Program Unit where
  init := ()
  beforeTradingStart := silent
  onRebalance := silent
  handleData := fun _ s => { strategy := s, requests }

/-- The intent that the order of a call becomes. -/
def queued : OrderIntent where
  symbol := coin
  kind := .quantity
  value := 1
  signalTime := some 3
  clientOrderId := some (.given "a")

/-- A call of new data, and a fill of the order it has handed over. -/
def calls : List (Move Unit) :=
  [.call (.process history 3), .fill ⟨queued, .given "a", 1⟩]

end Cancelled

open Cancelled in
theorem cancel_final_pending :
    (∃ d, Runs.run (Desk.step config) (Desk.start config cancelsPending)
      (runActs cancelsPending history none [1, 2, 3]) = some d ∧ d.log.length = 2 ∧
        CancelFinal d.log) ∧
    ∃ c, Runs.run (Counter.step (liveAsks [cancel, marketOrder]))
      (Counter.start (liveAsks [cancel, marketOrder]) (portalAt history 1 true) 10000) calls =
        some c ∧ c.log.length = 4 ∧ CancelFinal c.log := by
  refine ⟨?_, ?_⟩
  · obtain ⟨d, hrun, hlength⟩ := Runs.exists_of_any (p := fun d : Desk Unit => d.log.length = 2)
      (show (Runs.run (Desk.step config) (Desk.start config cancelsPending)
        (runActs cancelsPending history none [1, 2, 3])).any _ = true by decide +kernel)
    exact ⟨d, hrun, hlength, cancel_final.1 (by decide +kernel) hrun⟩
  · obtain ⟨c, hrun, hlength⟩ := Runs.exists_of_any (p := fun c : Counter Unit => c.log.length = 4)
      (show (Runs.run (Counter.step (liveAsks [cancel, marketOrder]))
        (Counter.start (liveAsks [cancel, marketOrder]) (portalAt history 1 true) 10000)
          calls).any _ = true by decide +kernel)
    exact ⟨c, hrun, hlength, cancel_final.2 (by decide +kernel) hrun⟩

open Cancelled in
/-- A callback that cancels what it has just queued: the order is filled at the next
open of a backtest, and handed over by a live session. -/
theorem cancelledInCallback_fills :
    (∃ d, Runs.run (Desk.step config) (Desk.start config cancelsQueued)
      (runActs cancelsQueued history none [1, 2, 3]) = some d ∧ ¬ CancelFinal d.log) ∧
    ∃ c, Runs.run (Counter.step (liveAsks [marketOrder, cancel]))
      (Counter.start (liveAsks [marketOrder, cancel]) (portalAt history 1 true) 10000) calls =
        some c ∧ ¬ CancelFinal c.log :=
  ⟨Runs.exists_of_any (p := fun d : Desk Unit => ¬ CancelFinal d.log) (by decide +kernel),
    Runs.exists_of_any (p := fun c : Counter Unit => ¬ CancelFinal c.log) (by decide +kernel)⟩

end AlgoTrade.Live
