import AlgoTrade.Backtest.Protection
import AlgoTrade.Lib.Runs
import Mathlib.Tactic.Linarith

/-! # Protections on price ticks

`evaluatePrice` is what the live session evaluates on a tick; a backtest evaluates the
same protections on bars.

* `candidates_flat`: on a flat bar the candidates are those of the tick.
* `watch_eq_iff`: bars and ticks leave the same states up to the same first exit exactly
  when no tick before it activates the trailing stop.
* `watch_exit_eq`: the first exit itself is always the same.
* `activatingTick_differs`: one tick that activates the trailing stop. -/

namespace AlgoTrade.Backtest

/-! ## Evaluation of a tick -/

/-- Whether a tick is at or beyond a trigger, above or below. -/
def hits (above : Bool) (trigger price : ℚ) : Bool :=
  if above then trigger ≤ price else price ≤ trigger

/-- `_price_candidates`. -/
def priceCandidates (state : ProtectionState) (timestamp : Time) (price : ℚ) :
    ProtectionState × List ProtectionDecision :=
  let spec := state.spec
  let isShort := state.side = .short
  let exit (reason : ExitReason) (trigger : ℚ) : ProtectionDecision :=
    ⟨state.symbol, state.side, reason, price, trigger, timestamp⟩
  let stop := state.entryPrice * (if isShort then 1 + spec.stopLossPct else 1 - spec.stopLossPct)
  let take := state.entryPrice * (if isShort then 1 - spec.takeProfitPct else 1 + spec.takeProfitPct)
  let (state, trailing) := trailingTrigger state
  let stopLoss := if 0 < spec.stopLossPct ∧ hits isShort stop price then [exit .stopLoss stop] else []
  let trailingStop := match trailing with
    | some trigger => if hits isShort trigger price then [exit .trailingStop trigger] else []
    | none => []
  let takeProfit :=
    if 0 < spec.takeProfitPct ∧ hits (¬ isShort) take price then [exit .takeProfit take] else []
  let timeLimit := if timeLimitReached state timestamp then [exit .timeLimit price] else []
  (state, stopLoss ++ trailingStop ++ takeProfit ++ timeLimit)

/-- The state after a price has moved its extremes. -/
def ProtectionState.extend (state : ProtectionState) (price : ℚ) : ProtectionState :=
  { state with
    highestPrice := max state.highestPrice price
    lowestPrice := min state.lowestPrice price }

/-- `evaluate_price`: the state it leaves, and the exit. -/
def evaluatePrice (mode : IntrabarMode) (state : ProtectionState) (timestamp : Time) (price : ℚ) :
    ProtectionState × Option ProtectionDecision :=
  if price ≤ 0 then (state, none)
  else
    let (state, candidates) := priceCandidates (state.extend price) timestamp price
    (state, choose mode candidates price)

/-- A flat bar at the price. -/
def evaluateFlatBar (mode : IntrabarMode) (state : ProtectionState) (timestamp : Time)
    (price : ℚ) : ProtectionState × Option ProtectionDecision :=
  evaluateBar mode state timestamp price price price

/-! ## The trailing stop -/

namespace ProtectionState

variable (state : ProtectionState)

/-- The extreme has reached the activation level. -/
def reached : Bool := match state.side with
  | .long => state.entryPrice * (1 + state.spec.trailingActivationPct) ≤ state.highestPrice
  | .short => state.lowestPrice ≤ state.entryPrice * (1 - state.spec.trailingActivationPct)

/-- The trailing stop is active, or will be found so at the next evaluation. -/
def armed : Bool := state.trailingActive || state.reached

/-- Where the trailing stop triggers when it is active. -/
def trail : ℚ := match state.side with
  | .long => state.highestPrice * (1 - state.spec.trailingStopPct)
  | .short => state.lowestPrice * (1 + state.spec.trailingStopPct)

/-- The price takes the extreme to the activation level. -/
def Activates (price : ℚ) : Prop :=
  0 < state.spec.trailingStopPct ∧ state.armed = false ∧ (state.extend price).reached = true

instance (price : ℚ) : Decidable (state.Activates price) := inferInstanceAs (Decidable (_ ∧ _ ∧ _))

/-- The price touches one of the triggers, or the time is up. -/
def Touches (timestamp : Time) (price : ℚ) : Prop :=
  let isShort := state.side = .short
  (0 < state.spec.stopLossPct ∧ hits isShort
      (state.entryPrice * (if isShort then 1 + state.spec.stopLossPct else 1 - state.spec.stopLossPct))
      price) ∨
    (0 < state.spec.trailingStopPct ∧ state.armed = true ∧ hits isShort state.trail price) ∨
    (0 < state.spec.takeProfitPct ∧ hits (¬ isShort)
      (state.entryPrice * (if isShort then 1 - state.spec.takeProfitPct
        else 1 + state.spec.takeProfitPct)) price) ∨
    timeLimitReached state timestamp = true

instance (timestamp : Time) (price : ℚ) : Decidable (state.Touches timestamp price) :=
  inferInstanceAs (Decidable (_ ∨ _ ∨ _ ∨ _))

/-- The state after its trailing stop was looked at. -/
def settled : ProtectionState :=
  if state.spec.trailingStopPct ≤ 0 then state else { state with trailingActive := state.armed }

end ProtectionState

theorem trailingTrigger_eq (state : ProtectionState) :
    trailingTrigger state =
      (state.settled,
        if 0 < state.spec.trailingStopPct ∧ state.armed = true then some state.trail else none) := by
  unfold trailingTrigger ProtectionState.settled
  dsimp only
  split
  next hoff => rw [if_neg fun h => absurd h.1 (not_lt.mpr hoff)]
  next hon =>
    have hpos := not_le.mp hon
    refine Prod.ext rfl ?_
    show (if state.armed = true then some state.trail else none) = _
    by_cases harmed : state.armed = true
    · rw [if_pos harmed, if_pos ⟨hpos, harmed⟩]
    · rw [if_neg harmed, if_neg fun h => harmed h.2]

/-- A price leaves the trailing stop as it is, or moves it and does not touch it. -/
theorem trail_extend {state : ProtectionState} {price : ℚ} (hprice : 0 < price)
    (hspec : 0 < state.spec.trailingStopPct) :
    ((state.extend price).trail = state.trail ∧ (state.extend price).armed = state.armed) ∨
      (hits (state.side = .short) state.trail price = false ∧
        hits (state.side = .short) (state.extend price).trail price = false) := by
  have hle := state.spec.trailingStop_mem.2
  obtain ⟨symbol, side, entryPrice, spec, openedAt, high, low, active⟩ := state
  dsimp only at hspec hle
  cases side with
  | long =>
    rcases le_or_gt price high with hinside | hbeyond
    · left
      have hhigh : max high price = high := max_eq_left hinside
      simp only [ProtectionState.extend, ProtectionState.trail, ProtectionState.armed,
        ProtectionState.reached, hhigh, and_self]
    · right
      have hhigh : max high price = price := max_eq_right hbeyond.le
      have hold : high * (1 - spec.trailingStopPct) < price := by
        rcases le_or_gt high 0 with hneg | hpos
        · exact (mul_nonpos_of_nonpos_of_nonneg hneg (sub_nonneg.mpr hle)).trans_lt hprice
        · nlinarith
      have hnew : price * (1 - spec.trailingStopPct) < price := by nlinarith
      simp only [ProtectionState.extend, ProtectionState.trail, hhigh, hits]
      exact ⟨decide_eq_false (not_le.mpr hold), decide_eq_false (not_le.mpr hnew)⟩
  | short =>
    rcases le_or_gt low price with hinside | hbeyond
    · left
      have hlow : min low price = low := min_eq_left hinside
      simp only [ProtectionState.extend, ProtectionState.trail, ProtectionState.armed,
        ProtectionState.reached, hlow, and_self]
    · right
      have hlow : min low price = price := min_eq_right hbeyond.le
      have hold : price < low * (1 + spec.trailingStopPct) := by nlinarith
      have hnew : price < price * (1 + spec.trailingStopPct) := by nlinarith
      simp only [ProtectionState.extend, ProtectionState.trail, hlow, hits]
      exact ⟨decide_eq_false (not_le.mpr hold), decide_eq_false (not_le.mpr hnew)⟩

/-! ## Candidates -/

/-- The trailing exit of a state, when its stop is on, armed and touched. -/
def trailingExit (state : ProtectionState) (timestamp : Time) (price : ℚ) :
    List ProtectionDecision :=
  if (0 < state.spec.trailingStopPct ∧ state.armed = true) ∧
      hits (state.side = .short) state.trail price then
    [⟨state.symbol, state.side, .trailingStop, price, state.trail, timestamp⟩]
  else []

/-- The other candidates, before and after the trailing exit. -/
def otherExits (state : ProtectionState) (timestamp : Time) (price : ℚ) :
    List ProtectionDecision × List ProtectionDecision :=
  let isShort := state.side = .short
  let exit (reason : ExitReason) (trigger : ℚ) : ProtectionDecision :=
    ⟨state.symbol, state.side, reason, price, trigger, timestamp⟩
  let stop := state.entryPrice *
    (if isShort then 1 + state.spec.stopLossPct else 1 - state.spec.stopLossPct)
  let take := state.entryPrice *
    (if isShort then 1 - state.spec.takeProfitPct else 1 + state.spec.takeProfitPct)
  (if 0 < state.spec.stopLossPct ∧ hits isShort stop price then [exit .stopLoss stop] else [],
    (if 0 < state.spec.takeProfitPct ∧ hits (¬ isShort) take price then [exit .takeProfit take]
      else []) ++
      if timeLimitReached state timestamp then [exit .timeLimit price] else [])

def candidatesOf (state : ProtectionState) (timestamp : Time) (price : ℚ) :
    List ProtectionDecision :=
  (otherExits state timestamp price).1 ++ trailingExit state timestamp price ++
    (otherExits state timestamp price).2

theorem touchedPrice_flat (above : Bool) (trigger price : ℚ) :
    touchedPrice above trigger price price price =
      if hits above trigger price then some price else none := by
  unfold touchedPrice hits
  cases above with
  | true =>
    by_cases h : trigger ≤ price
    · simp [h]
    · simp [h]
  | false =>
    by_cases h : price ≤ trigger
    · simp [h]
    · simp [h]

theorem timeLimitReached_settled (state : ProtectionState) (timestamp : Time) :
    timeLimitReached state.settled timestamp = timeLimitReached state timestamp := by
  unfold ProtectionState.settled
  split
  · rfl
  · rfl

theorem priceCandidates_eq (state : ProtectionState) (timestamp : Time) (price : ℚ) :
    priceCandidates state timestamp price = (state.settled, candidatesOf state timestamp price) := by
  unfold priceCandidates
  rw [trailingTrigger_eq]
  refine Prod.ext rfl ?_
  dsimp only
  rw [timeLimitReached_settled]
  unfold candidatesOf trailingExit
  by_cases harmed : 0 < state.spec.trailingStopPct ∧ state.armed = true
  · simp only [harmed, true_and]
    exact List.append_assoc ..
  · simp only [harmed, false_and, if_false]
    exact List.append_assoc ..

theorem map_touchedPrice (above : Bool) (trigger price : ℚ) (exit : ℚ → ProtectionDecision) :
    ((touchedPrice above trigger price price price).map exit).toList =
      if hits above trigger price then [exit price] else [] := by
  rw [touchedPrice_flat]
  split
  · rfl
  · rfl

/-- A flat bar has the candidates of its price. -/
theorem barCandidates_flat (state : ProtectionState) (timestamp : Time) (price : ℚ) :
    barCandidates state timestamp price price price =
      (state.settled, candidatesOf state timestamp price) := by
  unfold barCandidates
  rw [trailingTrigger_eq]
  refine Prod.ext rfl ?_
  dsimp only
  rw [timeLimitReached_settled]
  unfold candidatesOf trailingExit
  simp only [map_touchedPrice, ← ite_and]
  by_cases harmed : 0 < state.spec.trailingStopPct ∧ state.armed = true
  · simp only [harmed, true_and]
    exact List.append_assoc ..
  · simp only [harmed, false_and, if_false]
    exact List.append_assoc ..

/-- **The candidates of a price** do not depend on whether it has moved the extremes. -/
theorem candidates_extend {state : ProtectionState} {timestamp : Time} {price : ℚ}
    (hprice : 0 < price) :
    candidatesOf (state.extend price) timestamp price = candidatesOf state timestamp price := by
  have htrailing : trailingExit (state.extend price) timestamp price =
      trailingExit state timestamp price := by
    unfold trailingExit
    by_cases hspec : 0 < state.spec.trailingStopPct
    · rcases trail_extend hprice hspec with ⟨htrail, harmed⟩ | ⟨hbefore, hafter⟩
      · rw [htrail, harmed]
        rfl
      · have hside : (state.extend price).side = state.side := rfl
        rw [if_neg fun h => ?_, if_neg fun h => ?_]
        · rw [hbefore] at h
          cases h.2
        · rw [hside, hafter] at h
          cases h.2
    · rw [if_neg fun h => hspec h.1.1, if_neg fun h => hspec h.1.1]
  unfold candidatesOf
  rw [htrailing]
  rfl

theorem candidatesOf_ne_nil (state : ProtectionState) (timestamp : Time) (price : ℚ) :
    candidatesOf state timestamp price ≠ [] ↔ state.Touches timestamp price := by
  unfold candidatesOf trailingExit otherExits ProtectionState.Touches
  dsimp only
  simp only [ne_eq, List.append_eq_nil_iff, ite_eq_right_iff, List.cons_ne_nil, imp_false, not_and,
    and_assoc]
  tauto

theorem firstMin_eq_none {α : Type*} {key : α → ℚ} {l : List α} :
    firstMin key l = none ↔ l = [] := by
  cases l with
  | nil => exact ⟨fun _ => rfl, fun _ => rfl⟩
  | cons a as =>
    refine ⟨fun h => ?_, fun h => by cases h⟩
    unfold firstMin at h
    split at h
    · cases h
    · split at h
      · cases h
      · cases h

theorem choose_eq_none {mode : IntrabarMode} {candidates : List ProtectionDecision}
    {referencePrice : ℚ} : choose mode candidates referencePrice = none ↔ candidates = [] := by
  cases mode with
  | conservative => exact firstMin_eq_none
  | balanced => exact firstMin_eq_none
  | aggressive => exact firstMin_eq_none

/-! ## One evaluation -/

theorem evaluateFlatBar_eq (mode : IntrabarMode) (state : ProtectionState) (timestamp : Time)
    (price : ℚ) :
    evaluateFlatBar mode state timestamp price =
      match choose mode (candidatesOf state timestamp price) price with
      | some decision => (state.settled, some decision)
      | none => (state.settled.extend price, none) := by
  unfold evaluateFlatBar evaluateBar
  dsimp only
  rw [max_self, min_self, barCandidates_flat]
  rfl

theorem evaluatePrice_eq (mode : IntrabarMode) (state : ProtectionState) (timestamp : Time)
    {price : ℚ} (hprice : 0 < price) :
    evaluatePrice mode state timestamp price =
      ((state.extend price).settled, choose mode (candidatesOf state timestamp price) price) := by
  unfold evaluatePrice
  rw [if_neg (not_le.mpr hprice), priceCandidates_eq, candidates_extend hprice]

/-- Both exit on the same price, and the same way. -/
theorem exit_eq (mode : IntrabarMode) (state : ProtectionState) (timestamp : Time) {price : ℚ}
    (hprice : 0 < price) :
    (evaluateFlatBar mode state timestamp price).2 = (evaluatePrice mode state timestamp price).2 := by
  rw [evaluateFlatBar_eq, evaluatePrice_eq mode state timestamp hprice]
  split
  next decision h => exact h.symm
  next h => exact h.symm

theorem exit_isSome_iff (mode : IntrabarMode) (state : ProtectionState) (timestamp : Time)
    {price : ℚ} (hprice : 0 < price) :
    (evaluatePrice mode state timestamp price).2.isSome = true ↔ state.Touches timestamp price := by
  rw [evaluatePrice_eq mode state timestamp hprice, ← candidatesOf_ne_nil, Option.isSome_iff_ne_none]
  exact not_congr choose_eq_none

theorem settled_trailingActive (state : ProtectionState) :
    state.settled.trailingActive =
      (state.trailingActive || (decide (0 < state.spec.trailingStopPct) && state.reached)) := by
  unfold ProtectionState.settled
  split
  next hoff => rw [decide_eq_false (not_lt.mpr hoff), Bool.false_and, Bool.or_false]
  next hon =>
    rw [decide_eq_true (not_le.mp hon), Bool.true_and]
    rfl

theorem settled_extend (state : ProtectionState) (price : ℚ) :
    state.settled.extend price =
      { (state.extend price).settled with trailingActive := state.settled.trailingActive } := by
  unfold ProtectionState.settled
  split
  next hoff => rw [if_pos (show (state.extend price).spec.trailingStopPct ≤ 0 from hoff)]; rfl
  next hon => rw [if_neg (show ¬ (state.extend price).spec.trailingStopPct ≤ 0 from hon)]; rfl

/-- Once the extreme has reached the activation level it stays there. -/
theorem reached_extend {state : ProtectionState} {price : ℚ} (h : state.reached = true) :
    (state.extend price).reached = true := by
  obtain ⟨symbol, side, entryPrice, spec, openedAt, high, low, active⟩ := state
  unfold ProtectionState.reached at h ⊢
  cases side with
  | long => exact decide_eq_true ((of_decide_eq_true h).trans (le_max_left ..))
  | short => exact decide_eq_true ((min_le_left ..).trans (of_decide_eq_true h))

/-- **The states after a price that does not exit** are the same exactly when the price
does not activate the trailing stop. -/
theorem settled_extend_eq_iff (state : ProtectionState) (price : ℚ) :
    state.settled.extend price = (state.extend price).settled ↔ ¬ state.Activates price := by
  have hflag : state.settled.extend price = (state.extend price).settled ↔
      state.settled.trailingActive = (state.extend price).settled.trailingActive := by
    rw [settled_extend]
    constructor
    · intro h
      have := congrArg ProtectionState.trailingActive h
      exact this
    · intro h
      rw [h]
  have hactive : (state.extend price).trailingActive = state.trailingActive := rfl
  have hspec : (state.extend price).spec = state.spec := rfl
  rw [hflag, settled_trailingActive, settled_trailingActive, hactive, hspec]
  unfold ProtectionState.Activates ProtectionState.armed
  by_cases hon : 0 < state.spec.trailingStopPct
  · rw [decide_eq_true hon, Bool.true_and, Bool.true_and]
    cases hreached : state.reached with
    | true =>
      rw [reached_extend hreached]
      simp
    | false =>
      cases state.trailingActive with
      | true => simp
      | false => simp [hon]
  · simp [hon]

/-! ## Sequences of prices -/

/-- The states before the evaluations up to the first exit (or after the last one), and
that exit. -/
@[ext] structure Watch where
  states : List ProtectionState
  exit : Option ProtectionDecision
  deriving DecidableEq

def watch (evaluate : ProtectionState → Time → ℚ → ProtectionState × Option ProtectionDecision) :
    ProtectionState → List (Time × ℚ) → Watch
  | state, [] => ⟨[state], none⟩
  | state, tick :: ticks =>
    match evaluate state tick.1 tick.2 with
    | (_, some decision) => ⟨[state], some decision⟩
    | (next, none) =>
      let rest := watch evaluate next ticks
      ⟨state :: rest.states, rest.exit⟩

/-- What a tick that touches nothing leaves. -/
def quietTick (state : ProtectionState) (tick : Time × ℚ) : Option ProtectionState :=
  if state.Touches tick.1 tick.2 then none else some (state.extend tick.2).settled

/-- The tick activates the trailing stop only where it exits. -/
def ActivatesAtExit (state : ProtectionState) (tick : Time × ℚ) : Prop :=
  state.Touches tick.1 tick.2 ∨ ¬ state.Activates tick.2

instance (state : ProtectionState) (tick : Time × ℚ) : Decidable (ActivatesAtExit state tick) :=
  inferInstanceAs (Decidable (_ ∨ ¬ _))

theorem watch_exits
    {evaluate : ProtectionState → Time → ℚ → ProtectionState × Option ProtectionDecision}
    {state : ProtectionState} {tick : Time × ℚ} {ticks : List (Time × ℚ)}
    {decision : ProtectionDecision} (h : (evaluate state tick.1 tick.2).2 = some decision) :
    watch evaluate state (tick :: ticks) = ⟨[state], some decision⟩ := by
  unfold watch
  split
  next d heq =>
    rw [heq] at h
    rw [Option.some.inj h]
  next heq =>
    rw [heq] at h
    cases h

theorem watch_goesOn
    (evaluate : ProtectionState → Time → ℚ → ProtectionState × Option ProtectionDecision)
    {state : ProtectionState} {tick : Time × ℚ} {ticks : List (Time × ℚ)}
    (h : (evaluate state tick.1 tick.2).2 = none) :
    watch evaluate state (tick :: ticks) =
      ⟨state :: (watch evaluate (evaluate state tick.1 tick.2).1 ticks).states,
        (watch evaluate (evaluate state tick.1 tick.2).1 ticks).exit⟩ := by
  rw [watch]
  split
  next d heq =>
    rw [heq] at h
    cases h
  next next heq => rw [heq]

theorem head?_states
    (evaluate : ProtectionState → Time → ℚ → ProtectionState × Option ProtectionDecision)
    (state : ProtectionState) (ticks : List (Time × ℚ)) :
    (watch evaluate state ticks).states.head? = some state := by
  cases ticks with
  | nil => rfl
  | cons tick ticks =>
    unfold watch
    split
    · rfl
    · rfl

section
variable {mode : IntrabarMode} {state : ProtectionState} {timestamp : Time} {price : ℚ}

variable (mode) in
theorem quiet_evaluatePrice (hprice : 0 < price) (h : ¬ state.Touches timestamp price) :
    evaluatePrice mode state timestamp price = ((state.extend price).settled, none) := by
  have hnone : candidatesOf state timestamp price = [] :=
    not_not.mp fun hne => h ((candidatesOf_ne_nil ..).mp hne)
  rw [evaluatePrice_eq mode state timestamp hprice, choose_eq_none.mpr hnone]

variable (mode) in
theorem quiet_evaluateFlatBar (h : ¬ state.Touches timestamp price) :
    evaluateFlatBar mode state timestamp price = (state.settled.extend price, none) := by
  have hnone : candidatesOf state timestamp price = [] :=
    not_not.mp fun hne => h ((candidatesOf_ne_nil ..).mp hne)
  rw [evaluateFlatBar_eq, choose_eq_none.mpr hnone]

end

/-- **Bars and ticks agree** on the states up to the first exit, and on it, exactly when no
tick before it activates the trailing stop: the bar takes the stop for active only at the
next evaluation. -/
theorem watch_eq_iff (mode : IntrabarMode) (state : ProtectionState) (ticks : List (Time × ℚ))
    (hprices : ∀ tick ∈ ticks, 0 < tick.2) :
    watch (evaluateFlatBar mode) state ticks = watch (evaluatePrice mode) state ticks ↔
      Runs.AllSteps quietTick ActivatesAtExit state ticks := by
  induction ticks generalizing state with
  | nil => exact ⟨fun _ => trivial, fun _ => rfl⟩
  | cons tick ticks ih =>
    have hprice : 0 < tick.2 := hprices tick List.mem_cons_self
    have hrest : ∀ x ∈ ticks, 0 < x.2 := fun x hx => hprices x (List.mem_cons_of_mem _ hx)
    by_cases htouch : state.Touches tick.1 tick.2
    · have hsteps : Runs.AllSteps quietTick ActivatesAtExit state (tick :: ticks) := by
        refine ⟨.inl htouch, ?_⟩
        have hnone : quietTick state tick = none := if_pos htouch
        rw [hnone]
        trivial
      obtain ⟨decision, hdecision⟩ := Option.isSome_iff_exists.mp
        ((exit_isSome_iff mode state tick.1 hprice).mpr htouch)
      rw [watch_exits hdecision, watch_exits ((exit_eq mode state tick.1 hprice).trans hdecision)]
      exact ⟨fun _ => hsteps, fun _ => rfl⟩
    · have hnext : quietTick state tick = some (state.extend tick.2).settled := if_neg htouch
      have hbar := quiet_evaluateFlatBar mode htouch
      have htick := quiet_evaluatePrice mode hprice htouch
      rw [Runs.allSteps_cons hnext, ← ih _ hrest,
        watch_goesOn (evaluateFlatBar mode) (by rw [hbar]),
        watch_goesOn (evaluatePrice mode) (by rw [htick]), hbar, htick]
      have hok : ActivatesAtExit state tick ↔
          state.settled.extend tick.2 = (state.extend tick.2).settled := by
        rw [settled_extend_eq_iff]
        exact ⟨fun h => h.resolve_left htouch, .inr⟩
      rw [hok]
      dsimp only
      constructor
      · intro heq
        obtain ⟨hstates, hexit⟩ := Watch.mk.inj heq
        have hstates := (List.cons.inj hstates).2
        have hsame : state.settled.extend tick.2 = (state.extend tick.2).settled := by
          have hhead := congrArg List.head? hstates
          rw [head?_states, head?_states] at hhead
          exact Option.some.inj hhead
        rw [hsame] at hstates hexit
        exact ⟨hsame, Watch.ext hstates hexit⟩
      · rintro ⟨hsame, hrest⟩
        rw [hsame, hrest]

/-! ## The exit alone -/

/-- The states differ in the flag of the trailing stop at most, and the next evaluation
finds it active in both or in neither. -/
structure SameTriggers (s s' : ProtectionState) : Prop where
  fields : s' = { s with trailingActive := s'.trailingActive }
  armed : s.armed = s'.armed

theorem SameTriggers.refl (s : ProtectionState) : SameTriggers s s := ⟨rfl, rfl⟩

theorem SameTriggers.candidates_eq {s s' : ProtectionState} (h : SameTriggers s s')
    (timestamp : Time) (price : ℚ) :
    candidatesOf s' timestamp price = candidatesOf s timestamp price := by
  have htrail : s'.trail = s.trail := by rw [h.fields]; rfl
  have htrailing : trailingExit s' timestamp price = trailingExit s timestamp price := by
    unfold trailingExit
    rw [← h.armed, htrail, h.fields]
  have hothers : otherExits s' timestamp price = otherExits s timestamp price := by
    rw [h.fields]
    rfl
  unfold candidatesOf
  rw [htrailing, hothers]

theorem armed_settled (s : ProtectionState) : s.settled.armed = s.armed := by
  unfold ProtectionState.settled
  split
  · rfl
  · show (s.armed || s.reached) = s.armed
    unfold ProtectionState.armed
    rw [Bool.or_assoc, Bool.or_self]

theorem armed_extend (s : ProtectionState) (price : ℚ) :
    (s.extend price).armed = (s.armed || (s.extend price).reached) := by
  have hmono : s.reached = true → (s.extend price).reached = true := reached_extend
  show (s.trailingActive || (s.extend price).reached) = _
  unfold ProtectionState.armed
  cases hreached : s.reached with
  | false => rw [Bool.or_false]
  | true => rw [hmono hreached, Bool.or_true, Bool.or_true]

theorem SameTriggers.next {s s' : ProtectionState} (h : SameTriggers s s') (price : ℚ) :
    SameTriggers (s.settled.extend price) (s'.extend price).settled := by
  have hreached : (s'.extend price).reached = (s.extend price).reached := by rw [h.fields]; rfl
  have hsettled : (s.settled.extend price).reached = (s.extend price).reached := by
    rw [settled_extend]
    show (s.extend price).settled.reached = _
    unfold ProtectionState.settled
    split
    · rfl
    · rfl
  constructor
  · rw [settled_extend]
    show (s'.extend price).settled =
      { (s.extend price).settled with trailingActive := (s'.extend price).settled.trailingActive }
    have hfields := h.fields
    unfold ProtectionState.settled
    rw [hfields]
    split
    next hoff => rw [if_pos (show (s.extend price).spec.trailingStopPct ≤ 0 from hoff)]; rfl
    next hon => rw [if_neg (show ¬ (s.extend price).spec.trailingStopPct ≤ 0 from hon)]; rfl
  · rw [armed_settled, armed_extend, armed_extend, armed_settled, h.armed, hreached, hsettled]

/-- **The first exit** of bars and ticks is always the same, after as many prices. -/
theorem watch_exit_eq (mode : IntrabarMode) {s s' : ProtectionState} (h : SameTriggers s s')
    {ticks : List (Time × ℚ)} (hprices : ∀ tick ∈ ticks, 0 < tick.2) :
    (watch (evaluateFlatBar mode) s ticks).exit = (watch (evaluatePrice mode) s' ticks).exit ∧
      (watch (evaluateFlatBar mode) s ticks).states.length =
        (watch (evaluatePrice mode) s' ticks).states.length := by
  induction ticks generalizing s s' with
  | nil => exact ⟨rfl, rfl⟩
  | cons tick ticks ih =>
    have hprice : 0 < tick.2 := hprices tick List.mem_cons_self
    have hrest : ∀ x ∈ ticks, 0 < x.2 := fun x hx => hprices x (List.mem_cons_of_mem _ hx)
    have hexit : (evaluateFlatBar mode s tick.1 tick.2).2 =
        (evaluatePrice mode s' tick.1 tick.2).2 := by
      rw [exit_eq mode s tick.1 hprice, evaluatePrice_eq mode s tick.1 hprice,
        evaluatePrice_eq mode s' tick.1 hprice, h.candidates_eq]
    cases hdecision : (evaluatePrice mode s' tick.1 tick.2).2 with
    | some decision =>
      rw [watch_exits hdecision, watch_exits (hexit.trans hdecision)]
      exact ⟨rfl, rfl⟩
    | none =>
      have htouch : ¬ s'.Touches tick.1 tick.2 := fun htouch => by
        have := (exit_isSome_iff mode s' tick.1 hprice).mpr htouch
        rw [hdecision] at this
        cases this
      have htouch' : ¬ s.Touches tick.1 tick.2 := by
        rwa [← candidatesOf_ne_nil, h.candidates_eq, candidatesOf_ne_nil] at htouch
      have hbar := quiet_evaluateFlatBar mode htouch'
      have htick := quiet_evaluatePrice mode hprice htouch
      obtain ⟨hexits, hlength⟩ := ih (h.next tick.2) hrest
      rw [watch_goesOn _ (hexit.trans hdecision), watch_goesOn _ hdecision, hbar, htick]
      exact ⟨hexits, congrArg Nat.succ hlength⟩

/-! ## A tick that activates the stop -/

def trailingSpec : ProtectionSpec where
  trailingStopPct := 3 / 1000
  trailingActivationPct := 1 / 100
  stopLoss_mem := by decide +kernel
  takeProfit_mem := by decide +kernel
  trailingStop_mem := by decide +kernel
  trailingActivation_mem := by decide +kernel
  timeLimit_nonneg := by decide
  enabled := .inr (.inr (.inl (by decide +kernel)))

def longAt100 : ProtectionState :=
  .opened ⟨"Crypto", "BTC/USDT"⟩ .long 100 trailingSpec 0

/-- Prices that stay below the activation level. -/
theorem watch_eq_iff_quiet :
    watch (evaluateFlatBar .conservative) longAt100 [(60, 1005 / 10), (120, 99)] =
      watch (evaluatePrice .conservative) longAt100 [(60, 1005 / 10), (120, 99)] :=
  (watch_eq_iff .conservative longAt100 [(60, 1005 / 10), (120, 99)] (by decide +kernel)).mpr
    (by decide +kernel)

/-- The tick at 102 activates the stop of a position bought at 100; the flat bar at 102
leaves it inactive. -/
theorem activatingTick_differs :
    watch (evaluateFlatBar .conservative) longAt100 [(60, 102)] ≠
      watch (evaluatePrice .conservative) longAt100 [(60, 102)] := by
  decide +kernel

end AlgoTrade.Backtest
