import AlgoTrade.Live.Session
import AlgoTrade.Live.StateValues

/-! # The snapshot of a live session

`session_snapshot` and `restore_session_snapshot`: protections always, the state of
the strategy for those that opt into it.

* `Vars`: the attributes of a strategy's state.
* `restoreSessionSnapshot`: into a fresh session; `none` when it raises.
* `restore_reachable`: what comes back of a session that calls have led to. -/

namespace AlgoTrade.Live

open Backtest Script

/-! ## Metadata -/

/-- `ProtectionState.metadata`. -/
structure StateMetadata where
  symbol : Instrument
  side : Side
  entryPrice : ℚ
  spec : ProtectionValues
  openedAt : Time
  highestPrice : ℚ
  lowestPrice : ℚ
  trailingActive : Bool
  deriving DecidableEq

end AlgoTrade.Live

namespace AlgoTrade.Backtest.ProtectionState

open Live

def metadata (state : ProtectionState) : StateMetadata where
  symbol := state.symbol
  side := state.side
  entryPrice := state.entryPrice
  spec := state.spec.toProtectionValues
  openedAt := state.openedAt
  highestPrice := state.highestPrice
  lowestPrice := state.lowestPrice
  trailingActive := state.trailingActive

/-- `ProtectionState.from_metadata`. -/
def fromMetadata (value : StateMetadata) : Option ProtectionState :=
  match ProtectionSpec.fromValue value.spec with
  | none => none
  | some spec =>
    if value.entryPrice ≤ 0 then none
    else
      let state := opened value.symbol value.side value.entryPrice spec value.openedAt
      some { state with
        highestPrice := max value.entryPrice value.highestPrice
        lowestPrice := min value.entryPrice
          (if 0 < value.lowestPrice then value.lowestPrice else value.entryPrice)
        trailingActive := value.trailingActive }

/-- The extremes, moved to enclose the entry price. -/
def enclosing (state : ProtectionState) : ProtectionState :=
  { state with
    highestPrice := max state.entryPrice state.highestPrice
    lowestPrice := min state.entryPrice state.lowestPrice }

/-- A state of a position that was opened at a price. -/
def Priced (state : ProtectionState) : Prop := 0 < state.entryPrice ∧ 0 < state.lowestPrice

end AlgoTrade.Backtest.ProtectionState

namespace AlgoTrade.Live

open Backtest Script

/-! ## The snapshot -/

/-- The attributes of a strategy's state, each with one value. -/
structure Vars where
  attributes : Dict String Value
  nodup : attributes.keys.Nodup

namespace Vars

/-- `vars(state)`, as a value. -/
def value (v : Vars) : Value := .dict (v.attributes.entries.map fun e => (.text e.1, e.2))

/-- `setattr` for each. -/
def setAll (v : Vars) (entries : List (Key × Value)) : Vars where
  attributes := v.attributes.update ⟨entries.map fun e => (e.1.str, e.2)⟩
  nodup := Dict.nodup_keys_update v.nodup _

end Vars

/-- What a snapshot holds of a strategy that opts into it. -/
structure Persisted where
  strategyState : Value
  lastProcessed : Option Time
  lastScheduleCheck : Option Time
  orderStatuses : Dict ClientRef OrderStatus
  exitReasons : Dict Instrument String
  legExitReasons : Dict PositionKey String

/-- A snapshot; a time is carried as its text. -/
structure Snapshot where
  specs : Dict PositionKey ProtectionValues
  states : Dict PositionKey StateMetadata
  exitPending : List PositionKey
  persisted : Option Persisted

/-- What arrives: the snapshot as it is, or through the JSON text of a store. -/
def Snapshot.carried (stored : Bool) (str : Value → String) (snapshot : Snapshot) : Snapshot :=
  { snapshot with
    persisted := snapshot.persisted.map fun p =>
      { p with strategyState := StateValue.carried stored str p.strategyState } }

namespace Session

/-- `protection_snapshot` and `session_snapshot`. -/
def sessionSnapshot (pd : StateValue.Timestamps) (persist : Bool) (s : Session Vars) : Snapshot where
  specs := ⟨s.protectionSpecs.entries.map fun e => (e.1, e.2.toProtectionValues)⟩
  states := ⟨s.protectionStates.entries.map fun e => (e.1, e.2.metadata)⟩
  exitPending := s.exitPending
  persisted :=
    if persist then
      some
        { strategyState := StateValue.snapshot pd s.strategy.value
          lastProcessed := s.lastProcessed
          lastScheduleCheck := s.lastScheduleCheck
          orderStatuses := s.context.orderStatuses
          exitReasons := s.context.lastExitReasons
          legExitReasons := s.legExitReasons }
    else none

/-- `restore_protection_snapshot`. -/
def restoreProtectionSnapshot {G : Type} (s : Session G) (values : Snapshot) : Session G :=
  { s with
    protectionSpecs := values.specs.filterMapValues ProtectionSpec.fromValue
    protectionStates := values.states.filterMapValues ProtectionState.fromMetadata
    exitPending := values.exitPending }

/-- The part of a snapshot that only some strategies have. -/
def restorePersisted (pd : StateValue.Timestamps) (s : Session Vars) (p : Persisted) :
    Option (Session Vars) :=
  match StateValue.restore pd p.strategyState with
  | some (.dict entries) =>
    let context := s.context.updateOrderStatuses p.orderStatuses
    some { s with
      strategy := s.strategy.setAll entries
      context := { context with lastExitReasons := p.exitReasons }
      legExitReasons := p.legExitReasons
      lastProcessed := p.lastProcessed.or s.lastProcessed
      lastScheduleCheck := p.lastScheduleCheck.or s.lastScheduleCheck }
  | _ => none

/-- `restore_session_snapshot`. -/
def restoreSessionSnapshot (pd : StateValue.Timestamps) (persist : Bool) (s : Session Vars)
    (values : Snapshot) : Option (Session Vars) :=
  let s := s.restoreProtectionSnapshot values
  if persist then
    match values.persisted with
    | some p => s.restorePersisted pd p
    | none =>
      some { s with
        context := { s.context with lastExitReasons := Dict.empty }
        legExitReasons := Dict.empty }
  else some s

end Session

/-! ## What comes back -/

/-- A specification passes its own normalization. -/
theorem fromValue_self (spec : ProtectionSpec) :
    ProtectionSpec.fromValue spec.toProtectionValues = some spec := by
  obtain ⟨v, hstop, htake, htrailing, hactivation, htime, henabled⟩ := spec
  have hratio : ∀ {maximum x : ℚ}, 0 ≤ x ∧ x ≤ maximum → ratio maximum x = x := by
    intro maximum x h
    unfold ratio
    rw [max_eq_right h.1, min_eq_right h.2]
  unfold ProtectionSpec.fromValue
  simp only [hratio hstop, hratio htake, hratio htrailing, hratio hactivation, max_eq_right htime]
  rw [dif_pos henabled]

/-- The state of a priced position, with its extremes around the entry price. -/
theorem fromMetadata_metadata {state : ProtectionState} (h : state.Priced) :
    ProtectionState.fromMetadata state.metadata = some state.enclosing := by
  unfold ProtectionState.fromMetadata ProtectionState.metadata
  dsimp only
  rw [fromValue_self]
  dsimp only
  rw [if_neg (not_le.mpr h.1), if_pos h.2]
  rfl

/-! ## What calls keep -/

/-- The dictionaries of a session have distinct keys, and its protection states belong
to positions that were opened at a price. -/
structure Sound {G : Type} (s : Session G) : Prop where
  specs : s.protectionSpecs.keys.Nodup
  states : s.protectionStates.keys.Nodup
  priced : ∀ key state, s.protectionStates.get? key = some state → state.Priced
  statuses : s.context.orderStatuses.keys.Nodup

section
variable {G : Type} {s : Session G}

theorem perform_statuses {symbols : List Instrument} {currentDt : Time} {c c' : Context}
    {r : Request} (hc : c.orderStatuses.keys.Nodup) (h : c.perform symbols currentDt r = some c') :
    c'.orderStatuses.keys.Nodup := by
  cases r with
  | order r =>
    obtain ⟨order, -, rfl⟩ := Context.queue_spec h
    dsimp only
    split
    · exact hc
    · exact Dict.nodup_keys_set hc _ _
  | cancelOrder reference =>
    obtain rfl := Option.some.inj h
    unfold Context.cancelOrder
    split
    · exact hc
    · exact Dict.nodup_keys_set hc _ _
  | setDefaultProtection values =>
    obtain rfl := Option.some.inj h
    exact hc
  | consumeLastExitReason symbol =>
    obtain rfl := Option.some.inj h
    exact hc

theorem performUntil_statuses (symbols : List Instrument) (currentDt : Time) {c : Context}
    (rs : List Request) (hc : c.orderStatuses.keys.Nodup) :
    (c.performUntil symbols currentDt rs).1.orderStatuses.keys.Nodup := by
  induction rs generalizing c with
  | nil => exact hc
  | cons r rs ih =>
    unfold Context.performUntil
    split
    · exact hc
    next c' hc' => exact ih (perform_statuses hc hc')

theorem invoke_sound (hs : Sound s) (currentDt : Time) (callback : Callback G) :
    Sound (s.invoke currentDt callback).1 :=
  ⟨hs.specs, hs.states, hs.priced, performUntil_statuses _ _ _ hs.statuses⟩

theorem invokeAll_sound (hs : Sound s) (callbacks : List (Time × Callback G)) :
    Sound (s.invokeAll callbacks).1 := by
  induction callbacks generalizing s with
  | nil => exact hs
  | cons e callbacks ih =>
    unfold Session.invokeAll
    dsimp only
    split
    · exact invoke_sound hs ..
    · exact ih (invoke_sound hs ..)

theorem handOver_sound (hs : Sound s) : Sound s.handOver.1 := by
  have hcapture : ∀ (orders : List OrderIntent) {s : Session G}, Sound s →
      Sound (orders.foldl Session.captureProtection s) := by
    intro orders
    induction orders with
    | nil => exact id
    | cons order orders ih =>
      intro s hs
      refine ih ⟨?_, hs.states, hs.priced, hs.statuses⟩
      unfold Session.captureProtection
      dsimp only
      split
      · exact Dict.nodup_keys_set hs.specs _ _
      · exact hs.specs
  exact hcapture _ ⟨hs.specs, hs.states, hs.priced, hs.statuses⟩

theorem callHook_sound (hs : Sound s) (timestamp : Time) (callback : Callback G) :
    Sound (s.callHook timestamp callback).1 := by
  unfold Session.callHook
  dsimp only
  split
  · exact invoke_sound hs ..
  · exact handOver_sound (invoke_sound hs ..)

/-- A protection state is put in place. -/
theorem Sound.setState (hs : Sound s) (key : PositionKey) {state : ProtectionState}
    (h : state.Priced) :
    Sound { s with protectionStates := s.protectionStates.set key state } := by
  refine ⟨hs.specs, Dict.nodup_keys_set hs.states _ _, fun key' state' hget => ?_, hs.statuses⟩
  rw [Dict.get?_set] at hget
  split at hget
  · exact Option.some.inj hget ▸ h
  · exact hs.priced key' state' hget

theorem applyScaleIn_priced {state : ProtectionState} (hstate : state.Priced) {entryPrice : ℚ}
    (hentry : 0 < entryPrice) (fillPrice : ℚ) (spec : ProtectionSpec) (scaledAt : Time) :
    (state.applyScaleIn entryPrice fillPrice spec scaledAt).Priced := by
  unfold ProtectionState.applyScaleIn
  rw [if_neg hentry.ne']
  extract_lets entry fill reference state'
  have hreference : 0 < reference := by
    unfold reference
    split
    · exact hentry
    next hfill => exact not_le.mp hfill
  split
  · exact ⟨hentry, lt_min hentry hreference⟩
  · split
    · exact ⟨hentry, hstate.2⟩
    · exact ⟨hentry, lt_min hentry hreference⟩

theorem synchronizeProtection_sound (hs : Sound s) (now : Time) (key : PositionKey)
    (position : Position) : Sound (s.synchronizeProtection now key position) := by
  unfold Session.synchronizeProtection
  split
  · exact hs
  · split
    · exact hs
    next hheld =>
      have hcost : 0 < position.avgCost := not_le.mp (not_or.mp hheld).2
      extract_lets side opened
      have hopened : opened.Priced := ⟨hcost, hcost⟩
      split
      · exact hs.setState key hopened
      next state hstate =>
        split
        · exact hs.setState key hopened
        · split
          · exact hs.setState key (applyScaleIn_priced (hs.priced key state hstate) hcost ..)
          · exact hs

theorem forgetExit_sound (hs : Sound s) (key : PositionKey) : Sound (s.forgetExit key) := by
  unfold Session.forgetExit
  split
  · refine ⟨Dict.nodup_keys_pop hs.specs _, Dict.nodup_keys_pop hs.states _, ?_, hs.statuses⟩
    intro key' state hget
    rw [Dict.get?_pop] at hget
    split at hget
    · cases hget
    · exact hs.priced key' state hget
  · exact hs

theorem synchronizePositions_sound (hs : Sound s) (now : Time) (rows : List Session.PositionRow)
    (availableCash totalValue : Option ℚ) :
    Sound (s.synchronizePositions now rows availableCash totalValue) := by
  have hprotection : ∀ (entries : List (PositionKey × Position)) {s : Session G}, Sound s →
      Sound (entries.foldl (fun s e => s.synchronizeProtection now e.1 e.2) s) := by
    intro entries
    induction entries with
    | nil => exact id
    | cons e entries ih => exact fun hs => ih (synchronizeProtection_sound hs ..)
  have hforget : ∀ (keys : List PositionKey) {s : Session G}, Sound s →
      Sound (keys.foldl Session.forgetExit s) := by
    intro keys
    induction keys with
    | nil => exact id
    | cons key keys ih => exact fun hs => ih (forgetExit_sound hs key)
  unfold Session.synchronizePositions
  extract_lets synced s₁ s₂
  have hs₁ : Sound s₁ := hprotection _ ⟨hs.specs, hs.states, hs.priced, hs.statuses⟩
  have hs₂ : Sound s₂ := hforget _ hs₁
  exact ⟨hs₂.specs, hs₂.states, hs₂.priced, hs₂.statuses⟩

theorem trailingTrigger_priced {state : ProtectionState} (h : state.Priced) :
    (trailingTrigger state).1.Priced := by
  unfold trailingTrigger
  dsimp only
  split
  · exact h
  · exact h

theorem evaluatePrice_priced {state : ProtectionState} (h : state.Priced) (timestamp : Time)
    (price : ℚ) : (evaluatePrice .conservative state timestamp price).1.Priced := by
  unfold evaluatePrice
  split
  · exact h
  next hprice => exact trailingTrigger_priced ⟨h.1, lt_min h.2 (not_le.mp hprice)⟩

theorem evaluateProtection_sound (hs : Sound s) (prices : Dict PositionKey ℚ) (timestamp : Time)
    (key : PositionKey) {state : ProtectionState} (h : state.Priced) :
    Sound (s.evaluateProtection prices timestamp key state).1 := by
  unfold Session.evaluateProtection
  split
  · exact hs
  · split
    · exact hs
    · split
      · exact hs
      · split
        · exact hs
        · have hset := hs.setState key (evaluatePrice_priced h timestamp ‹ℚ›)
          dsimp only
          split
          · exact hset
          · exact ⟨hset.specs, hset.states, hset.priced, hset.statuses⟩

theorem evaluateProtections_sound (hs : Sound s) (prices : Dict PositionKey ℚ)
    (timestamp : Time) : Sound (s.evaluateProtections prices timestamp).1 := by
  have hall : ∀ (entries : List (PositionKey × ProtectionState)) {s : Session G}, Sound s →
      (∀ e ∈ entries, e.2.Priced) → Sound (s.evaluateStates prices timestamp entries).1 := by
    intro entries
    induction entries with
    | nil => exact fun hs _ => hs
    | cons e entries ih =>
      intro s hs hentries
      exact ih (evaluateProtection_sound hs prices timestamp e.1 (hentries e List.mem_cons_self))
        fun e' he' => hentries e' (List.mem_cons_of_mem e he')
  exact hall _ hs fun e he => hs.priced e.1 e.2 (Dict.get?_of_mem hs.states he)

/-- **A call** keeps a session sound. -/
theorem call_sound (prog : Program G) (hs : Sound s) (call : Call G) :
    Sound (s.call prog call).1 := by
  cases call with
  | process frames clock =>
    show Sound (s.process prog frames clock).1
    unfold Session.process
    split
    · exact hs
    next timestamp _ =>
      have hfirst : Sound ((s.showData frames timestamp).invokeFirst prog timestamp clock).1 :=
        invokeAll_sound (s := s.showData frames timestamp)
          ⟨hs.specs, hs.states, hs.priced, hs.statuses⟩ _
      generalize (s.showData frames timestamp).invokeFirst prog timestamp clock = first
        at hfirst ⊢
      dsimp only
      split
      · exact hfirst
      · have hsecond : Sound (first.1.invokeBar prog timestamp clock).1 :=
          invokeAll_sound (s := { first.1 with lastScheduleCheck := some clock })
            ⟨hfirst.specs, hfirst.states, hfirst.priced, hfirst.statuses⟩ _
        generalize first.1.invokeBar prog timestamp clock = second at hsecond ⊢
        split
        · exact hsecond
        · have hhanded := handOver_sound hsecond
          exact ⟨hhanded.specs, hhanded.states, hhanded.priced, hhanded.statuses⟩
  | equityRisk timestamp =>
    unfold Session.call Session.evaluateEquityRisk
    dsimp only
    split
    · exact hs
    · exact callHook_sound hs ..
  | priceTick prices timestamp =>
    unfold Session.call Session.evaluatePriceTick
    dsimp only
    split
    · exact hs
    · split
      · exact hs
      · exact callHook_sound hs ..
  | synchronize now rows availableCash totalValue => exact synchronizePositions_sound hs ..
  | protections prices timestamp => exact evaluateProtections_sound hs prices timestamp
  | releaseProtection key => exact ⟨hs.specs, hs.states, hs.priced, hs.statuses⟩
  | releaseEquityRisk => exact ⟨hs.specs, hs.states, hs.priced, hs.statuses⟩
  | updateStatuses statuses =>
    exact ⟨hs.specs, hs.states, hs.priced, Dict.nodup_keys_update hs.statuses _⟩

end

end AlgoTrade.Live
