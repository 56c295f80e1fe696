import AlgoTrade.Backtest.Market

/-! # Position protections

`ProtectionSpec`, `ProtectionState` and the bar evaluation of `ProtectionEngine`:
the candidates a bar touches, in the order the engine lists them, and the one the
intrabar mode chooses. -/

namespace AlgoTrade.Backtest

inductive Side
  | long | short
  deriving DecidableEq, Repr

/-- What a strategy asks for; ratios as they come. -/
structure ProtectionValues where
  stopLossPct : ℚ := 0
  takeProfitPct : ℚ := 0
  trailingStopPct : ℚ := 0
  trailingActivationPct : ℚ := 0
  timeLimitSeconds : ℤ := 0
  trailingRebaseOnScaleIn : Bool := true
  deriving DecidableEq, Repr

/-- `_ratio`. -/
def ratio (maximum value : ℚ) : ℚ := min maximum (max 0 value)

/-- Ratios in their ranges, and something to watch for. -/
structure ProtectionSpec extends ProtectionValues where
  stopLoss_mem : 0 ≤ stopLossPct ∧ stopLossPct ≤ 1
  takeProfit_mem : 0 ≤ takeProfitPct ∧ takeProfitPct ≤ 5
  trailingStop_mem : 0 ≤ trailingStopPct ∧ trailingStopPct ≤ 1
  trailingActivation_mem : 0 ≤ trailingActivationPct ∧ trailingActivationPct ≤ 5
  timeLimit_nonneg : 0 ≤ timeLimitSeconds
  enabled : 0 < stopLossPct ∨ 0 < takeProfitPct ∨ 0 < trailingStopPct ∨ 0 < timeLimitSeconds
  deriving DecidableEq

theorem ratio_mem {maximum : ℚ} (h : 0 ≤ maximum) (value : ℚ) :
    0 ≤ ratio maximum value ∧ ratio maximum value ≤ maximum :=
  ⟨le_min h (le_max_left 0 value), min_le_left ..⟩

/-- `ProtectionSpec.from_value`; `none` when nothing is enabled. -/
def ProtectionSpec.fromValue (v : ProtectionValues) : Option ProtectionSpec :=
  let clamped : ProtectionValues :=
    { stopLossPct := ratio 1 v.stopLossPct
      takeProfitPct := ratio 5 v.takeProfitPct
      trailingStopPct := ratio 1 v.trailingStopPct
      trailingActivationPct := ratio 5 v.trailingActivationPct
      timeLimitSeconds := max 0 v.timeLimitSeconds
      trailingRebaseOnScaleIn := v.trailingRebaseOnScaleIn }
  if h : 0 < clamped.stopLossPct ∨ 0 < clamped.takeProfitPct ∨ 0 < clamped.trailingStopPct ∨
      0 < clamped.timeLimitSeconds then
    some { clamped with
      stopLoss_mem := ratio_mem (by decide) _
      takeProfit_mem := ratio_mem (by decide) _
      trailingStop_mem := ratio_mem (by decide) _
      trailingActivation_mem := ratio_mem (by decide) _
      timeLimit_nonneg := le_max_left ..
      enabled := h }
  else none

structure ProtectionState where
  symbol : Instrument
  side : Side
  entryPrice : ℚ
  spec : ProtectionSpec
  openedAt : Time
  highestPrice : ℚ
  lowestPrice : ℚ
  trailingActive : Bool := false
  deriving DecidableEq

namespace ProtectionState

/-- `ProtectionState.open`. -/
def opened (symbol : Instrument) (side : Side) (entryPrice : ℚ) (spec : ProtectionSpec)
    (openedAt : Time) : ProtectionState where
  symbol := symbol
  side := side
  entryPrice := entryPrice
  spec := spec
  openedAt := openedAt
  highestPrice := entryPrice
  lowestPrice := entryPrice

def applyScaleIn (state : ProtectionState) (entryPrice fillPrice : ℚ) (spec : ProtectionSpec)
    (scaledAt : Time) : ProtectionState :=
  let entry := if entryPrice = 0 then state.entryPrice else entryPrice
  let fill := if fillPrice = 0 then entry else fillPrice
  let reference := if fill ≤ 0 then entry else fill
  let state := { state with entryPrice := entry, spec := spec }
  if spec.trailingRebaseOnScaleIn then
    { state with
      trailingActive := false
      highestPrice := max entry reference
      lowestPrice := min entry reference
      openedAt := scaledAt }
  else if state.trailingActive then state
  else { state with highestPrice := max entry reference, lowestPrice := min entry reference }

end ProtectionState

inductive ExitReason
  | stopLoss | trailingStop | takeProfit | timeLimit
  deriving DecidableEq, Repr

def ExitReason.name : ExitReason → String
  | stopLoss => "stop_loss"
  | trailingStop => "trailing_stop"
  | takeProfit => "take_profit"
  | timeLimit => "time_limit"

structure ProtectionDecision where
  symbol : Instrument
  side : Side
  reason : ExitReason
  price : ℚ
  triggerPrice : ℚ
  timestamp : Time
  deriving DecidableEq, Repr

inductive IntrabarMode
  | conservative | balanced | aggressive
  deriving DecidableEq, Repr

/-! ## Evaluation of a bar -/

/-- `_trailing_trigger`: activates the trailing stop, and its trigger price. -/
def trailingTrigger (state : ProtectionState) : ProtectionState × Option ℚ :=
  let spec := state.spec
  if spec.trailingStopPct ≤ 0 then (state, none)
  else
    let reached : Bool := match state.side with
      | .long => state.entryPrice * (1 + spec.trailingActivationPct) ≤ state.highestPrice
      | .short => state.lowestPrice ≤ state.entryPrice * (1 - spec.trailingActivationPct)
    let state := { state with trailingActive := state.trailingActive || reached }
    let trigger := match state.side with
      | .long => state.highestPrice * (1 - spec.trailingStopPct)
      | .short => state.lowestPrice * (1 + spec.trailingStopPct)
    (state, if state.trailingActive then some trigger else none)

def timeLimitReached (state : ProtectionState) (timestamp : Time) : Bool :=
  0 < state.spec.timeLimitSeconds ∧ state.spec.timeLimitSeconds ≤ timestamp - state.openedAt

/-- The price an exit below (`false`) or above (`true`) its trigger gets on the
bar: the open when it gaps through, else the trigger; `none` when not touched. -/
def touchedPrice (above : Bool) (trigger open_ high low : ℚ) : Option ℚ :=
  if above then if trigger ≤ high then some (if trigger ≤ open_ then open_ else trigger) else none
  else if low ≤ trigger then some (if open_ ≤ trigger then open_ else trigger) else none

/-- `_bar_candidates`. -/
def barCandidates (state : ProtectionState) (timestamp : Time) (open_ high low : ℚ) :
    ProtectionState × List ProtectionDecision :=
  let spec := state.spec
  let isShort := state.side = .short
  let exit (reason : ExitReason) (price trigger : ℚ) : ProtectionDecision :=
    ⟨state.symbol, state.side, reason, price, trigger, timestamp⟩
  let stop := state.entryPrice * (if isShort then 1 + spec.stopLossPct else 1 - spec.stopLossPct)
  let take := state.entryPrice * (if isShort then 1 - spec.takeProfitPct else 1 + spec.takeProfitPct)
  let (state, trailing) := trailingTrigger state
  let stopLoss :=
    if 0 < spec.stopLossPct then
      ((touchedPrice isShort stop open_ high low).map (exit .stopLoss · stop)).toList
    else []
  let trailingStop := match trailing with
    | some trigger =>
      ((touchedPrice isShort trigger open_ high low).map (exit .trailingStop · trigger)).toList
    | none => []
  let takeProfit :=
    if 0 < spec.takeProfitPct then
      ((touchedPrice (¬ isShort) take open_ high low).map (exit .takeProfit · take)).toList
    else []
  let timeLimit := if timeLimitReached state timestamp then [exit .timeLimit open_ open_] else []
  (state, stopLoss ++ trailingStop ++ takeProfit ++ timeLimit)

/-- The first element with the least key. -/
def firstMin {α : Type*} (key : α → ℚ) : List α → Option α
  | [] => none
  | a :: as =>
    match firstMin key as with
    | none => some a
    | some b => if key b < key a then some b else some a

def conservativePriority : ExitReason → ℚ
  | .stopLoss => 0
  | .trailingStop => 1
  | .timeLimit => 2
  | .takeProfit => 3

def aggressivePriority : ExitReason → ℚ
  | .takeProfit => 0
  | .trailingStop => 1
  | .timeLimit => 2
  | .stopLoss => 3

/-- `_choose`. -/
def choose (mode : IntrabarMode) (candidates : List ProtectionDecision) (referencePrice : ℚ) :
    Option ProtectionDecision :=
  match mode with
  | .aggressive => firstMin (fun d => aggressivePriority d.reason) candidates
  | .balanced => firstMin (fun d => |d.triggerPrice - referencePrice|) candidates
  | .conservative => firstMin (fun d => conservativePriority d.reason) candidates

/-- `evaluate_bar`: the state it leaves, and the exit. -/
def evaluateBar (mode : IntrabarMode) (state : ProtectionState) (timestamp : Time)
    (openPrice highPrice lowPrice : ℚ) : ProtectionState × Option ProtectionDecision :=
  let high := max openPrice highPrice
  let low := min openPrice lowPrice
  let (state, candidates) := barCandidates state timestamp openPrice high low
  match choose mode candidates openPrice with
  | some decision => (state, some decision)
  | none =>
    ({ state with
        highestPrice := max state.highestPrice high
        lowestPrice := min state.lowestPrice low }, none)

end AlgoTrade.Backtest
