import AlgoTrade.Live.Snapshot

/-! # Sessions that go on from a snapshot

A session that comes back from a snapshot counts its orders anew, and shows the
strategy nothing of the count as long as the strategy names its orders itself.

* `Alike`: sessions that differ in the order counter and in the cancelled references.
* `respond_alike`: alike sessions answer a call alike.
* `snapshot_roundTrip`: what a snapshot brings back, and when it brings back all. -/

namespace AlgoTrade.Live

open Backtest Script

/-! ## Named orders -/

/-- An order under a reference of its own. -/
def Named : Request → Prop
  | .order r => (r.clientOrderId.bind ClientRef.named).isSome
  | _ => True

def Callback.NamesOrders {G : Type} (callback : Callback G) : Prop :=
  ∀ view strategy, ∀ r ∈ (callback view strategy).requests, Named r

/-- The strategy names all its orders. -/
structure Program.NamesOrders {G : Type} (prog : Program G) : Prop where
  beforeTradingStart : prog.beforeTradingStart.NamesOrders
  schedules : ∀ schedule ∈ prog.schedules, schedule.callback.NamesOrders
  onRebalance : prog.onRebalance.NamesOrders
  handleData : prog.handleData.NamesOrders
  equityRiskExit : ∀ callback ∈ prog.equityRiskExit, callback.NamesOrders
  onPriceTick : ∀ callback ∈ prog.onPriceTick, ∀ prices, (callback prices).NamesOrders

/-- The strategy's orders and the protection exits that a call answers with. -/
def Session.respond {G : Type} (prog : Program G) (s : Session G) :
    Call G → Session G × Option (List OrderIntent)
  | .protections prices timestamp =>
    ((s.evaluateProtections prices timestamp).1, some (s.evaluateProtections prices timestamp).2)
  | call => ((s.call prog call).1, (s.call prog call).2.intents)

/-- The answers to calls, one after the other. -/
def Session.responses {G : Type} (prog : Program G) :
    Session G → List (Call G) → List (Option (List OrderIntent))
  | _, [] => []
  | s, call :: calls =>
    (s.respond prog call).2 :: (s.respond prog call).1.responses prog calls

/-! ## Alike sessions -/

end AlgoTrade.Live

namespace AlgoTrade.Backtest.Context

/-- The context with another order counter and other cancelled references. -/
def counted (c : Context) (n : ℕ) (cancelled : List ClientRef) : Context :=
  { c with orderSequence := n, cancelledOrderIds := cancelled }

end AlgoTrade.Backtest.Context

namespace AlgoTrade.Live

open Backtest Script

section
variable {G : Type}

def Session.counted (s : Session G) (n : ℕ) (cancelled : List ClientRef) : Session G :=
  { s with context := s.context.counted n cancelled }

section
variable (s : Session G) (n : ℕ) (cancelled : List ClientRef)

theorem counted_specs : (s.counted n cancelled).protectionSpecs = s.protectionSpecs := rfl
theorem counted_states : (s.counted n cancelled).protectionStates = s.protectionStates := rfl
theorem counted_currentDt : (s.counted n cancelled).currentDt = s.currentDt := rfl
theorem counted_positions : (s.counted n cancelled).positions = s.positions := rfl
theorem counted_exitPending : (s.counted n cancelled).exitPending = s.exitPending := rfl

end

/-- The same but for the order counter and the cancelled references. -/
def Alike (s r : Session G) : Prop := ∃ n cancelled, r = s.counted n cancelled

theorem reference_named {r : OrderRequest} (h : Named (.order r)) (currentDt : Time) (n n' : ℕ) :
    r.reference currentDt n = r.reference currentDt n' := by
  obtain ⟨reference, hreference⟩ := Option.isSome_iff_exists.mp h
  unfold OrderRequest.reference
  rw [hreference]
  rfl

theorem perform_counted (symbols : List Instrument) (currentDt : Time) (c : Context) {r : Request}
    (h : Named r) (n : ℕ) (cancelled : List ClientRef) :
    ∃ n' cancelled', (c.counted n cancelled).perform symbols currentDt r =
      (c.perform symbols currentDt r).map (·.counted n' cancelled') := by
  cases r with
  | order r =>
    refine ⟨n + 1, cancelled, ?_⟩
    have hreference := reference_named h currentDt (n + 1) (c.orderSequence + 1)
    unfold Context.perform Context.queue
    dsimp only [Context.counted]
    rw [hreference, apply_ite (Option.map _)]
    rfl
  | cancelOrder reference =>
    have hcancels : (c.counted n cancelled).cancels reference = c.cancels reference := rfl
    cases hc : c.cancels reference with
    | none =>
      refine ⟨n, cancelled, ?_⟩
      unfold Context.perform Context.cancelOrder
      dsimp only
      rw [hcancels, hc]
      rfl
    | some reference' =>
      refine ⟨n, cancelled ++ [reference'], ?_⟩
      unfold Context.perform Context.cancelOrder
      dsimp only
      rw [hcancels, hc]
      rfl
  | setDefaultProtection values => exact ⟨n, cancelled, rfl⟩
  | consumeLastExitReason symbol => exact ⟨n, cancelled, rfl⟩

theorem performUntil_counted (symbols : List Instrument) (currentDt : Time) (c : Context)
    {rs : List Request} (h : ∀ r ∈ rs, Named r) (n : ℕ) (cancelled : List ClientRef) :
    ∃ n' cancelled', ((c.counted n cancelled).performUntil symbols currentDt rs).1 =
        (c.performUntil symbols currentDt rs).1.counted n' cancelled' ∧
      ((c.counted n cancelled).performUntil symbols currentDt rs).2.2 =
        (c.performUntil symbols currentDt rs).2.2 := by
  induction rs generalizing c n cancelled with
  | nil => exact ⟨n, cancelled, rfl, rfl⟩
  | cons r rs ih =>
    obtain ⟨n', cancelled', hperform⟩ :=
      perform_counted symbols currentDt c (h r List.mem_cons_self) n cancelled
    unfold Context.performUntil
    rw [hperform]
    cases c.perform symbols currentDt r with
    | none => exact ⟨n, cancelled, rfl, rfl⟩
    | some c' => exact ih c' (fun r' hr' => h r' (List.mem_cons_of_mem r hr')) n' cancelled'

namespace Alike

variable {s r : Session G}

/-- What does not look at the counter. -/
theorem of_counted {f : Session G → Session G} (hf : ∀ s n cancelled,
    f (Session.counted s n cancelled) = (f s).counted n cancelled) (h : Alike s r) :
    Alike (f s) (f r) := by
  obtain ⟨n, cancelled, rfl⟩ := h
  exact ⟨n, cancelled, hf s n cancelled⟩

theorem invoke (h : Alike s r) (currentDt : Time) {callback : Callback G}
    (hnames : callback.NamesOrders) :
    Alike (s.invoke currentDt callback).1 (r.invoke currentDt callback).1 ∧
      (r.invoke currentDt callback).2.2 = (s.invoke currentDt callback).2.2 := by
  obtain ⟨n, cancelled, rfl⟩ := h
  obtain ⟨n', cancelled', hcontext, hraises⟩ := performUntil_counted s.portal.symbols currentDt
    s.context (hnames (s.view currentDt s.lastProcessed) s.strategy) n cancelled
  refine ⟨⟨n', cancelled', ?_⟩, ?_⟩
  · exact congrArg (fun context => ({ s with
      strategy := (callback (s.view currentDt s.lastProcessed) s.strategy).strategy
      context := context
      currentDt := some currentDt } : Session G)) hcontext
  · exact congrArg (· || _) hraises

theorem invokeAll (h : Alike s r) {callbacks : List (Time × Callback G)}
    (hnames : ∀ e ∈ callbacks, e.2.NamesOrders) :
    Alike (s.invokeAll callbacks).1 (r.invokeAll callbacks).1 ∧
      (r.invokeAll callbacks).2.2 = (s.invokeAll callbacks).2.2 := by
  induction callbacks generalizing s r with
  | nil => exact ⟨h, rfl⟩
  | cons e callbacks ih =>
    obtain ⟨hfirst, hraises⟩ := h.invoke e.1 (hnames e List.mem_cons_self)
    obtain ⟨hrest, hraises'⟩ := ih hfirst fun e' he' => hnames e' (List.mem_cons_of_mem e he')
    unfold Session.invokeAll
    dsimp only
    rw [hraises]
    split
    · exact ⟨hfirst, hraises⟩
    · exact ⟨hrest, hraises'⟩

theorem handOver (h : Alike s r) : Alike s.handOver.1 r.handOver.1 ∧ r.handOver.2 = s.handOver.2 := by
  obtain ⟨n, cancelled, rfl⟩ := h
  have hcapture : ∀ (orders : List OrderIntent) (s : Session G),
      orders.foldl Session.captureProtection (s.counted n cancelled) =
        (orders.foldl Session.captureProtection s).counted n cancelled := by
    intro orders
    induction orders with
    | nil => intro s; rfl
    | cons order orders ih => intro s; exact ih (s.captureProtection order)
  exact ⟨⟨n, cancelled, hcapture s.context.orders
    { s with context := { s.context with orders := [] } }⟩, rfl⟩

theorem callHook (h : Alike s r) (timestamp : Time) {callback : Callback G}
    (hnames : callback.NamesOrders) :
    Alike (s.callHook timestamp callback).1 (r.callHook timestamp callback).1 ∧
      (r.callHook timestamp callback).2.intents = (s.callHook timestamp callback).2.intents := by
  obtain ⟨hcalled, hraises⟩ := h.invoke timestamp hnames
  obtain ⟨hhanded, hintents⟩ := hcalled.handOver
  unfold Session.callHook
  dsimp only
  rw [hraises]
  split
  · exact ⟨hcalled, rfl⟩
  · exact ⟨hhanded, congrArg some hintents⟩

theorem dueFirst_names {prog : Program G} (hprog : prog.NamesOrders) (s : Session G)
    (timestamp clock : Time) : ∀ e ∈ s.dueFirst prog timestamp clock, e.2.NamesOrders := by
  intro e he
  rcases List.mem_append.mp he with he | he
  · split at he
    · exact List.mem_singleton.mp he ▸ hprog.beforeTradingStart
    · cases he
  · split at he
    · cases he
    · split at he
      · obtain ⟨schedule, hschedule, rfl⟩ := List.mem_map.mp he
        exact hprog.schedules schedule (List.mem_of_mem_filter hschedule)
      · cases he

theorem dueOnBar_names {prog : Program G} (hprog : prog.NamesOrders) (s : Session G)
    (timestamp : Time) : ∀ e ∈ s.dueOnBar prog timestamp, e.2.NamesOrders := by
  intro e he
  unfold Session.dueOnBar at he
  split at he
  · rcases List.mem_append.mp he with he | he
    · split at he
      · exact List.mem_singleton.mp he ▸ hprog.onRebalance
      · cases he
    · exact List.mem_singleton.mp he ▸ hprog.handleData
  · cases he

theorem process {prog : Program G} (hprog : prog.NamesOrders) (h : Alike s r) (frames : Frames)
    (clock : Time) :
    Alike (s.process prog frames clock).1 (r.process prog frames clock).1 ∧
      (r.process prog frames clock).2.intents = (s.process prog frames clock).2.intents := by
  unfold Session.process
  split
  · exact ⟨h, rfl⟩
  next timestamp _ =>
    have hshown : Alike (s.showData frames timestamp) (r.showData frames timestamp) :=
      h.of_counted fun _ _ _ => rfl
    have hfirst : Alike ((s.showData frames timestamp).invokeFirst prog timestamp clock).1
          ((r.showData frames timestamp).invokeFirst prog timestamp clock).1 ∧
        ((r.showData frames timestamp).invokeFirst prog timestamp clock).2.2 =
          ((s.showData frames timestamp).invokeFirst prog timestamp clock).2.2 := by
      have hnames := dueFirst_names hprog (s.showData frames timestamp) timestamp clock
      have hsame : (r.showData frames timestamp).dueFirst prog timestamp clock =
          (s.showData frames timestamp).dueFirst prog timestamp clock := by
        obtain ⟨n, cancelled, hr⟩ := hshown
        rw [hr]
        rfl
      unfold Session.invokeFirst
      rw [hsame]
      exact hshown.invokeAll hnames
    generalize (s.showData frames timestamp).invokeFirst prog timestamp clock = first at hfirst ⊢
    generalize (r.showData frames timestamp).invokeFirst prog timestamp clock = first' at hfirst ⊢
    obtain ⟨hfirst, hraises⟩ := hfirst
    dsimp only
    rw [hraises]
    split
    · exact ⟨hfirst, rfl⟩
    · have hsecond : Alike (first.1.invokeBar prog timestamp clock).1
            (first'.1.invokeBar prog timestamp clock).1 ∧
          (first'.1.invokeBar prog timestamp clock).2.2 =
            (first.1.invokeBar prog timestamp clock).2.2 := by
        have hnames := dueOnBar_names hprog first.1 timestamp
        have hsame : first'.1.dueOnBar prog timestamp = first.1.dueOnBar prog timestamp := by
          obtain ⟨n, cancelled, hr⟩ := hfirst
          rw [hr]
          rfl
        have hchecked : Alike { first.1 with lastScheduleCheck := some clock }
            { first'.1 with lastScheduleCheck := some clock } := hfirst.of_counted
          (f := fun s => { s with lastScheduleCheck := some clock }) fun _ _ _ => rfl
        unfold Session.invokeBar
        rw [hsame]
        exact hchecked.invokeAll hnames
      generalize first.1.invokeBar prog timestamp clock = second at hsecond ⊢
      generalize first'.1.invokeBar prog timestamp clock = second' at hsecond ⊢
      obtain ⟨hsecond, hraises'⟩ := hsecond
      rw [hraises']
      split
      · exact ⟨hsecond, rfl⟩
      · obtain ⟨hhanded, hintents⟩ := hsecond.handOver
        have hadvanced := hhanded.of_counted (f := Session.advance timestamp) fun _ _ _ => rfl
        exact ⟨hadvanced, congrArg some hintents⟩

theorem synchronizeProtection_counted (now : Time) (s : Session G) (n : ℕ)
    (cancelled : List ClientRef) (key : PositionKey) (position : Position) :
    (s.counted n cancelled).synchronizeProtection now key position =
      (s.synchronizeProtection now key position).counted n cancelled := by
  unfold Session.synchronizeProtection
  simp only [counted_specs, counted_states, counted_currentDt]
  generalize (if 0 < position.amount then Side.long else Side.short) = side
  split
  · rfl
  · split
    · rfl
    · split
      · rfl
      · split
        · rfl
        · split
          · rfl
          · rfl

theorem forgetExit_counted (s : Session G) (n : ℕ) (cancelled : List ClientRef)
    (key : PositionKey) :
    (s.counted n cancelled).forgetExit key = (s.forgetExit key).counted n cancelled := by
  unfold Session.forgetExit
  rw [counted_positions]
  split
  · rfl
  · rfl

theorem synchronizePositions (h : Alike s r) (now : Time) (rows : List Session.PositionRow)
    (availableCash totalValue : Option ℚ) :
    Alike (s.synchronizePositions now rows availableCash totalValue)
      (r.synchronizePositions now rows availableCash totalValue) := by
  refine h.of_counted (f := fun s => s.synchronizePositions now rows availableCash totalValue) ?_
  intro s n cancelled
  have hprotection : ∀ (entries : List (PositionKey × Position)) (s : Session G),
      entries.foldl (fun s e => s.synchronizeProtection now e.1 e.2) (s.counted n cancelled) =
        (entries.foldl (fun s e => s.synchronizeProtection now e.1 e.2) s).counted n cancelled := by
    intro entries
    induction entries with
    | nil => intro s; rfl
    | cons e entries ih =>
      intro s
      rw [List.foldl_cons, List.foldl_cons, synchronizeProtection_counted, ih]
  have hforget : ∀ (keys : List PositionKey) (s : Session G),
      keys.foldl Session.forgetExit (s.counted n cancelled) =
        (keys.foldl Session.forgetExit s).counted n cancelled := by
    intro keys
    induction keys with
    | nil => intro s; rfl
    | cons key keys ih =>
      intro s
      rw [List.foldl_cons, List.foldl_cons, forgetExit_counted, ih]
  unfold Session.synchronizePositions
  extract_lets synced r₁ r₂ s₁ s₂
  have h₁ : r₁ = s₁.counted n cancelled := hprotection _ { s with positions := synced }
  have h₂ : r₂ = s₂.counted n cancelled := by
    unfold r₂
    rw [h₁]
    exact hforget _ _
  rw [h₂]
  rfl

theorem evaluateProtection_counted (prices : Dict PositionKey ℚ) (timestamp : Time)
    (s : Session G) (n : ℕ) (cancelled : List ClientRef) (key : PositionKey)
    (state : ProtectionState) :
    (s.counted n cancelled).evaluateProtection prices timestamp key state =
      (s.evaluateProtection prices timestamp key state).map (·.counted n cancelled) id := by
  unfold Session.evaluateProtection
  rw [counted_positions, counted_exitPending]
  split
  · rfl
  · split
    · rfl
    · split
      · rfl
      · split
        · rfl
        · dsimp only
          split
          · rfl
          · rfl

theorem evaluateProtections (h : Alike s r) (prices : Dict PositionKey ℚ) (timestamp : Time) :
    Alike (s.evaluateProtections prices timestamp).1 (r.evaluateProtections prices timestamp).1 ∧
      (r.evaluateProtections prices timestamp).2 = (s.evaluateProtections prices timestamp).2 := by
  obtain ⟨n, cancelled, rfl⟩ := h
  have hall : ∀ (entries : List (PositionKey × ProtectionState)) (s : Session G),
      (s.counted n cancelled).evaluateStates prices timestamp entries =
        (s.evaluateStates prices timestamp entries).map (·.counted n cancelled) id := by
    intro entries
    induction entries with
    | nil => intro s; rfl
    | cons e entries ih =>
      intro s
      unfold Session.evaluateStates
      dsimp only
      rw [evaluateProtection_counted, Prod.map_fst, Prod.map_snd, ih]
      rfl
  have hstates := hall s.protectionStates.entries s
  have hintents := congrArg Prod.snd hstates
  exact ⟨⟨n, cancelled, congrArg Prod.fst hstates⟩, hintents⟩

/-- **Alike sessions** answer a call alike. -/
theorem respond {prog : Program G} (hprog : prog.NamesOrders) (h : Alike s r) (call : Call G) :
    Alike (s.respond prog call).1 (r.respond prog call).1 ∧
      (r.respond prog call).2 = (s.respond prog call).2 := by
  cases call with
  | process frames clock => exact h.process hprog frames clock
  | equityRisk timestamp =>
    unfold Session.respond Session.call Session.evaluateEquityRisk
    dsimp only
    split
    · exact ⟨h, rfl⟩
    next callback hcallback => exact h.callHook timestamp (hprog.equityRiskExit callback hcallback)
  | priceTick prices timestamp =>
    have hsymbols : r.portal.symbols = s.portal.symbols := by
      obtain ⟨n, cancelled, rfl⟩ := h
      rfl
    unfold Session.respond Session.call Session.evaluatePriceTick
    dsimp only
    rw [hsymbols]
    split
    · exact ⟨h, rfl⟩
    next callback hcallback =>
      split
      · exact ⟨h, rfl⟩
      · exact h.callHook timestamp (hprog.onPriceTick callback hcallback _)
  | synchronize now rows availableCash totalValue =>
    exact ⟨h.synchronizePositions now rows availableCash totalValue, rfl⟩
  | protections prices timestamp =>
    obtain ⟨halike, hintents⟩ := h.evaluateProtections prices timestamp
    exact ⟨halike, congrArg some hintents⟩
  | releaseProtection key =>
    exact ⟨h.of_counted (f := fun s => s.releaseProtectionExit key) fun _ _ _ => rfl, rfl⟩
  | releaseEquityRisk =>
    exact ⟨h.of_counted (f := fun s => s.releaseEquityRiskExit prog) fun _ _ _ => rfl, rfl⟩
  | updateStatuses statuses =>
    exact ⟨h.of_counted (f := fun s => s.updateOrderStatuses statuses) fun _ _ _ => rfl, rfl⟩

theorem responses {prog : Program G} (hprog : prog.NamesOrders) (h : Alike s r)
    (calls : List (Call G)) : r.responses prog calls = s.responses prog calls := by
  induction calls generalizing s r with
  | nil => rfl
  | cons call calls ih =>
    obtain ⟨halike, hanswer⟩ := h.respond hprog call
    unfold Session.responses
    rw [hanswer, ih halike]

end Alike

/-! ## Reachable sessions -/

/-- The session after these calls. -/
def Session.after (prog : Program G) (s : Session G) (calls : List (Call G)) : Session G :=
  calls.foldl (fun s call => (s.respond prog call).1) s

theorem after_sound (prog : Program G) {s : Session G} (hs : Sound s) (calls : List (Call G)) :
    Sound (s.after prog calls) := by
  induction calls generalizing s with
  | nil => exact hs
  | cons call calls ih =>
    have hrespond : (s.respond prog call).1 = (s.call prog call).1 := by
      cases call with
      | _ => rfl
    refine ih (s := (s.respond prog call).1) ?_
    rw [hrespond]
    exact call_sound prog hs call

theorem start_sound (prog : Program G) (portal : Portal) (initialCapital : ℚ) :
    Sound (Session.start prog portal initialCapital) := by
  refine ⟨List.nodup_nil, List.nodup_nil, fun key state h => ?_, List.nodup_nil⟩
  have hnone : (Session.start prog portal initialCapital).protectionStates.get? key = none :=
    Dict.get?_empty key
  rw [hnone] at h
  cases h

end

/-! ## Restored sessions -/

/-- A session that has not processed anything. -/
structure Fresh (f : Session Vars) : Prop where
  lastProcessed : f.lastProcessed = none
  lastScheduleCheck : f.lastScheduleCheck = none
  statuses : f.context.orderStatuses = Dict.empty

/-- What a snapshot carries of a strategy's own: plain values, and references without
blanks around them. -/
structure Carried (stored : Bool) (s : Session Vars) : Prop where
  plain : StateValue.Plain stored s.strategy.value
  references : ∀ reference ∈ s.context.orderStatuses.keys, reference.stripped = some reference

/-- What comes back of `s`, when `r` is restored into the fresh session `f`. -/
structure Restored (persist : Bool) (f s r : Session Vars) : Prop where
  specs : r.protectionSpecs = s.protectionSpecs
  states : r.protectionStates = s.protectionStates.mapValues ProtectionState.enclosing
  exitPending : r.exitPending = s.exitPending
  strategy : r.strategy =
    if persist then f.strategy.setAll (s.strategy.attributes.entries.map fun e => (.text e.1, e.2))
    else f.strategy
  lastProcessed : r.lastProcessed = if persist then s.lastProcessed else none
  lastScheduleCheck : r.lastScheduleCheck = if persist then s.lastScheduleCheck else none
  context : r.context = { f.context with
    orderStatuses := if persist then s.context.orderStatuses else Dict.empty
    lastExitReasons := if persist then s.context.lastExitReasons else f.context.lastExitReasons }
  legExitReasons : r.legExitReasons = if persist then s.legExitReasons else f.legExitReasons
  portal : r.portal = f.portal
  currentDt : r.currentDt = f.currentDt
  availableCash : r.availableCash = f.availableCash
  totalValue : r.totalValue = f.totalValue
  positions : r.positions = f.positions

/-- What no snapshot holds is in the fresh session as in `s`, and no scale-in has moved
an entry price past its extremes. -/
structure Completes (f s : Session Vars) : Prop where
  portal : f.portal = s.portal
  currentDt : f.currentDt = s.currentDt
  availableCash : f.availableCash = s.availableCash
  totalValue : f.totalValue = s.totalValue
  positions : f.positions = s.positions
  orders : f.context.orders = s.context.orders
  defaultProtection : f.context.defaultProtection = s.context.defaultProtection
  attributes : f.strategy.attributes.keys <+: s.strategy.attributes.keys
  enclosed : ∀ state ∈ s.protectionStates.values,
    state.lowestPrice ≤ state.entryPrice ∧ state.entryPrice ≤ state.highestPrice

section
variable {pd : StateValue.Timestamps} {stored : Bool} {str : Value → String} {f s r : Session Vars}

variable (pd) in
theorem restorePersisted_eq {p : Persisted} {entries : List (Key × Value)}
    (h : StateValue.restore pd p.strategyState = some (.dict entries)) :
    f.restorePersisted pd p = some { f with
      strategy := f.strategy.setAll entries
      context := { f.context.updateOrderStatuses p.orderStatuses with
        lastExitReasons := p.exitReasons }
      legExitReasons := p.legExitReasons
      lastProcessed := p.lastProcessed.or f.lastProcessed
      lastScheduleCheck := p.lastScheduleCheck.or f.lastScheduleCheck } := by
  unfold Session.restorePersisted
  rw [h]

variable (pd stored str) in
/-- What a snapshot of a sound session brings back. -/
theorem restore_sound (hs : Sound s) (hf : Fresh f) (persist : Bool)
    (hcarried : persist = true → Carried stored s) :
    ∃ r, f.restoreSessionSnapshot pd persist ((s.sessionSnapshot pd persist).carried stored str) =
      some r ∧ Restored persist f s r := by
  have hspecs : (s.sessionSnapshot pd persist).specs.filterMapValues ProtectionSpec.fromValue =
      s.protectionSpecs := by
    refine (Dict.filterMapValues_eq (u := id) fun spec _ => fromValue_self spec).trans ?_
    unfold Dict.mapValues
    exact congrArg Dict.mk (List.map_id _)
  have hstates : (s.sessionSnapshot pd persist).states.filterMapValues
      ProtectionState.fromMetadata = s.protectionStates.mapValues ProtectionState.enclosing := by
    refine Dict.filterMapValues_eq fun state hstate => ?_
    obtain ⟨key, hkey⟩ := Dict.exists_get?_of_mem_values hs.states hstate
    exact fromMetadata_metadata (hs.priced key state hkey)
  cases persist with
  | false =>
    refine ⟨_, rfl, hspecs, hstates, rfl, rfl, hf.lastProcessed, hf.lastScheduleCheck, ?_, rfl,
      rfl, rfl, rfl, rfl, rfl⟩
    exact hf.statuses ▸ rfl
  | true =>
    obtain ⟨hplain, hreferences⟩ := hcarried rfl
    have hnamed : s.context.orderStatuses.entries.filterMap
        (fun e => e.1.stripped.map (·, e.2)) = s.context.orderStatuses.entries := by
      refine (List.filterMap_congr fun e he => ?_).trans List.filterMap_some
      rw [hreferences e.1 (List.mem_map_of_mem he)]
      rfl
    have hstatuses : f.context.orderStatuses.update
        ⟨s.context.orderStatuses.entries.filterMap fun e => e.1.stripped.map (·, e.2)⟩ =
          s.context.orderStatuses := by
      rw [hnamed, hf.statuses]
      exact Dict.empty_update hs.statuses
    have hvalue : StateValue.restore pd (StateValue.carried stored str
        (StateValue.snapshot pd s.strategy.value)) = some s.strategy.value :=
      StateValue.restore_sent hplain
    refine ⟨{ f with
      protectionSpecs := s.protectionSpecs
      protectionStates := s.protectionStates.mapValues ProtectionState.enclosing
      exitPending := s.exitPending
      strategy := f.strategy.setAll (s.strategy.attributes.entries.map fun e => (.text e.1, e.2))
      context := { f.context with
        orderStatuses := s.context.orderStatuses
        lastExitReasons := s.context.lastExitReasons }
      legExitReasons := s.legExitReasons
      lastProcessed := s.lastProcessed
      lastScheduleCheck := s.lastScheduleCheck }, ?_, rfl, rfl, rfl, rfl, rfl, rfl, rfl, rfl, rfl,
      rfl, rfl, rfl, rfl⟩
    have hpersisted := restorePersisted_eq pd
      (f := f.restoreProtectionSnapshot ((s.sessionSnapshot pd true).carried stored str))
      (p := ⟨_, s.lastProcessed, s.lastScheduleCheck, s.context.orderStatuses,
        s.context.lastExitReasons, s.legExitReasons⟩) hvalue
    refine hpersisted.trans (congrArg some ?_)
    simp only [Session.restoreProtectionSnapshot, Session.mk.injEq]
    refine ⟨trivial, trivial, ?_, trivial, trivial, trivial, trivial, ?_, ?_, hspecs, hstates, ?_, trivial⟩
    · unfold Context.updateOrderStatuses
      dsimp only
      rw [hstatuses]
    · rw [hf.lastProcessed, Option.or_none]
    · rw [hf.lastScheduleCheck, Option.or_none]
    · rfl

theorem Vars.ext {v w : Vars} (h : v.attributes = w.attributes) : v = w := by
  cases v
  cases w
  cases h
  rfl

/-- A session that is brought back whole is the session that was saved, but for its
count of orders. -/
theorem Restored.alike (h : Restored true f s r) (hf : Completes f s) :
    Alike s r := by
  have hstates : s.protectionStates.mapValues ProtectionState.enclosing = s.protectionStates := by
    refine (Dict.mapValues_congr (g := id) fun state hstate => ?_).trans ?_
    · obtain ⟨hlow, hhigh⟩ := hf.enclosed state hstate
      unfold ProtectionState.enclosing
      rw [max_eq_right hhigh, min_eq_right hlow]
      rfl
    · unfold Dict.mapValues
      exact congrArg Dict.mk (List.map_id _)
  have hstrategy : f.strategy.setAll
      (s.strategy.attributes.entries.map fun e => (.text e.1, e.2)) = s.strategy := by
    refine Vars.ext ?_
    show f.strategy.attributes.update ⟨_⟩ = _
    rw [List.map_map]
    show f.strategy.attributes.update ⟨s.strategy.attributes.entries.map id⟩ = _
    rw [List.map_id]
    exact Dict.update_of_prefix s.strategy.nodup hf.attributes
  have hcontext : r.context =
      s.context.counted f.context.orderSequence f.context.cancelledOrderIds := by
    rw [h.context]
    dsimp only
    rw [hf.orders, hf.defaultProtection]
    rfl
  refine ⟨f.context.orderSequence, f.context.cancelledOrderIds, ?_⟩
  have hr : r = ⟨r.strategy, r.portal, r.context, r.currentDt, r.availableCash, r.totalValue,
      r.positions, r.lastProcessed, r.lastScheduleCheck, r.protectionSpecs, r.protectionStates,
      r.exitPending, r.legExitReasons⟩ := rfl
  rw [hr, h.strategy, h.portal, hcontext, h.currentDt, h.availableCash, h.totalValue, h.positions,
    h.lastProcessed, h.lastScheduleCheck, h.specs, h.states, h.exitPending, h.legExitReasons,
    hf.portal, hf.currentDt, hf.availableCash, hf.totalValue, hf.positions, hstates]
  simp only [if_true, hstrategy]
  rfl

end

namespace Kept

/-- The text of the second 1, and a tally of the others. -/
def isoformat (t : ℤ) : String :=
  if t = 1 then "1970-01-01T00:00:01"
  else String.ofList ((if 0 ≤ t then '+' else '-') :: List.replicate t.natAbs '1')

def parse : Option Value → Option Value
  | some (.text s) =>
    if s = "1970-01-01T00:00:01" then some (.timestamp 1)
    else match s.toList with
      | '+' :: ones => some (.timestamp ones.length)
      | _ :: ones => some (.timestamp (-ones.length))
      | [] => none
  | _ => none

theorem parse_isoformat (t : ℤ) : parse (some (.text (isoformat t))) = some (.timestamp t) := by
  by_cases ht : t = 1
  · rw [ht]
    rfl
  · have hother : isoformat t ≠ "1970-01-01T00:00:01" := by
      intro heq
      have hhead := congrArg (fun s => s.toList.head?) heq
      unfold isoformat at hhead
      rw [if_neg ht, String.toList_ofList] at hhead
      split at hhead
      · exact absurd (Option.some.inj hhead) (by decide)
      · exact absurd (Option.some.inj hhead) (by decide)
    unfold parse
    dsimp only
    rw [if_neg hother, isoformat, if_neg ht, String.toList_ofList]
    by_cases hsign : 0 ≤ t
    · rw [if_pos hsign]
      show some (Value.timestamp (List.replicate t.natAbs '1').length) = _
      rw [List.length_replicate, Int.natAbs_of_nonneg hsign]
    · rw [if_neg hsign]
      show some (Value.timestamp (-(List.replicate t.natAbs '1').length)) = _
      rw [List.length_replicate, Int.ofNat_natAbs_of_nonpos (by omega), neg_neg]

def pd : StateValue.Timestamps where
  isoformat := isoformat
  parse := parse
  parse_isoformat := parse_isoformat

def coin : Instrument := ⟨"Crypto", "BTC/USDT"⟩

def bar : Bar where
  openPrice := 100
  high := 100
  low := 100
  close := 100

def history : Frames where
  entries := [(coin, ⟨[(1, bar)], by decide⟩)]

def holding (value : Value) : Vars where
  attributes := ⟨[("x", value)]⟩
  nodup := List.nodup_singleton "x"

/-- A protected order under the name `a`. -/
def order : Request :=
  .order { symbol := coin, kind := .quantity, value := 1, clientOrderId := some "a"
           protection := some { stopLossPct := 1 / 5, trailingStopPct := 1 / 20
                                trailingRebaseOnScaleIn := false } }

def silent : Callback Vars := fun _ s => { strategy := s }

/-- Keeps a value, and buys; it may raise then. -/
def keeps (value : Value) (raises : Bool) : Program Vars where
  init := holding .null
  beforeTradingStart := silent
  onRebalance := silent
  handleData := fun _ _ => { strategy := holding value, requests := [order], raises }

def row (amount avgCost : ℚ) : Session.PositionRow where
  symbol := coin
  amount := amount
  avgCost := avgCost

def price (p : ℚ) : Dict PositionKey ℚ := ⟨[(⟨coin, none⟩, p)]⟩

/-- The order, its fill at 100, and a price of 110. -/
def calls : List (Call Vars) :=
  [.process history 1, .synchronize 1 [row 1 100] none none, .protections (price 110) 2]

def saved (value : Value) (raises : Bool) (calls : List (Call Vars)) : Session Vars :=
  (Session.start (keeps value raises) (portalAt history 1 true) 1000).after (keeps value raises)
    calls

def value : Value := .list [.num 1, .dict [(.text "at", .timestamp 1)]]

/-- A fresh session at the point of the saved one. -/
def fresh : Session Vars :=
  { Session.start (keeps value false) (portalAt history 1 true) 1000 with
    portal := (saved value false calls).portal
    currentDt := (saved value false calls).currentDt
    positions := (saved value false calls).positions }

theorem keeps_names (value : Value) (raises : Bool) : (keeps value raises).NamesOrders where
  beforeTradingStart := fun _ _ _ hr => absurd hr List.not_mem_nil
  schedules := fun _ h => absurd h List.not_mem_nil
  onRebalance := fun _ _ _ hr => absurd hr List.not_mem_nil
  handleData := fun _ _ _ hr => by
    rw [List.mem_singleton.mp hr]
    show ((some "a").bind ClientRef.named).isSome = true
    decide
  equityRiskExit := nofun
  onPriceTick := nofun

theorem fresh_completes : Completes fresh (saved value false calls) where
  portal := rfl
  currentDt := rfl
  availableCash := by decide +kernel
  totalValue := by decide +kernel
  positions := rfl
  orders := by decide +kernel
  defaultProtection := by decide +kernel
  attributes := by decide +kernel
  enclosed := by decide +kernel

/-- The price falls to 104. -/
def later : List (Call Vars) := [.protections (price 104) 3]

end Kept

namespace Kept

/-- A fill at 140 of which no price was seen moves the entry price past the highest. -/
def scaledIn : List (Call Vars) := calls ++ [.synchronize 3 [row 2 120] none none]

/-- What the attribute is. -/
def kind (s : Session Vars) : String :=
  match s.strategy.attributes.get? "x" with
  | some .null => "NoneType"
  | some (.num _) => "float"
  | some (.list _) => "list"
  | some (.tuple _) => "tuple"
  | _ => ""

def new (value : Value) (raises : Bool) : Session Vars :=
  Session.start (keeps value raises) (portalAt history 1 true) 1000

end Kept

end AlgoTrade.Live
