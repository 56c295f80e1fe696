import AlgoTrade.Factors.Frame

/-! # Momentum factors

Returns, and oscillators that set the gains of a window against its losses or the close
against the extremes of a window. -/

namespace AlgoTrade.Factors

open Series

variable {K : Type} [Field K] [LinearOrder K]

/-- `_return`. -/
def return_ (frame : Frame K) (params : Params) : Except FactorError (Option K) := do
  let period ← period params
  let values := closes frame
  if values.length ≤ period then .error .insufficientHistory
  else return some (fromEnd values 0 / fromEnd values period - 1)

def gains (deltas : List K) : List K := deltas.map (max · 0)

def losses (deltas : List K) : List K := deltas.map (-min · 0)

/-- `_rsi`. -/
def rsi (frame : Frame K) (params : Params) : Except FactorError (Option K) := do
  let period ← period params
  let values ← require (closes frame) (period + 1)
  let deltas := diffs values
  let avgGain := wilder period (gains deltas)
  let avgLoss := wilder period (losses deltas)
  if avgLoss ≤ 0 then return some 100
  else return some (100 - 100 / (1 + avgGain / avgLoss))

/-- The close of the last bar of a window within the extremes of the window, in percent; NaN where
nothing moves. -/
def rawK (window : List (Bar K)) : Option K :=
  let highest := highest (highs window)
  let lowest := lowest (lows window)
  if highest - lowest = 0 then none
  else some (100 * (fromEnd (closes window) 0 - lowest) / (highest - lowest))

/-- A rolling mean is NaN where a number of its window is. -/
def rollingMean (n : ℕ) (values : List (Option K)) : List (Option K) :=
  (rolling n values).map meanAll

omit [LinearOrder K] in
theorem rollingMean_isSome {n : ℕ} {values : List (Option K)} (h : ∀ x ∈ values, x.isSome) :
    ∀ x ∈ rollingMean n values, x.isSome := fun x hx => by
  obtain ⟨window, hwindow, rfl⟩ := List.mem_map.mp hx
  exact meanAll_isSome fun y hy => h y (subset_of_mem_rolling hwindow hy)

omit [LinearOrder K] in
@[simp] theorem length_rollingMean (n : ℕ) (values : List (Option K)) :
    (rollingMean n values).length = values.length + 1 - n := by
  rw [rollingMean, List.length_map, length_rolling]

/-- `_stochastic`. -/
def stochastic (frame : Frame K) (params : Params) : Except FactorError (Option K) := do
  let period ← period params
  let smoothK ← intParam params "smooth_k" 1
  let smoothD ← intParam params "smooth_d" 1
  let _ ← requireRows frame (period + smoothK + smoothD - 2)
  let k := rollingMean smoothK ((rolling period frame).map rawK)
  let d := rollingMean smoothD k
  let output ← choice params [.k, .d] .k
  match (if output = .d then d else k).getLastD none with
  | none => .error .insufficientHistory
  | some value => return some value

/-- `rsv` of a window; half way where nothing moves. -/
def rsv (window : List (Bar K)) : K :=
  let highest := highest (highs window)
  let lowest := lowest (lows window)
  if highest ≤ lowest then 50
  else (fromEnd (closes window) 0 - lowest) / (highest - lowest) * 100

/-- The loop of `_kdj`, from 50 and 50. -/
def kdValues (frame : Frame K) (period kPeriod dPeriod : ℕ) : K × K :=
  (rolling period frame).foldl
    (fun s window =>
      let kValue := ((kPeriod - 1) * s.1 + rsv window) / kPeriod
      (kValue, ((dPeriod - 1) * s.2 + kValue) / dPeriod))
    (50, 50)

/-- `_kdj`. -/
def kdj (frame : Frame K) (params : Params) : Except FactorError (Option K) := do
  let period ← period params
  let kPeriod ← intParam params "k_period" 1
  let dPeriod ← intParam params "d_period" 1
  let _ ← requireRows frame period
  let values := kdValues frame period kPeriod dPeriod
  match ← choice params [.k, .d, .j] .j with
  | .k => return some values.1
  | .d => return some values.2
  | _ => return some (3 * values.1 - 2 * values.2)

/-- `_cci`. -/
def cci (frame : Frame K) (params : Params) : Except FactorError (Option K) := do
  let period ← period params
  let values := (← require (frame.map typical) period).rtake period
  let mean := mean values
  let deviation := Series.mean (values.map fun x => |x - mean|)
  return some (if deviation > 0 then (fromEnd values 0 - mean) / (15 / 1000 * deviation) else 0)

/-- `_williams_r`. -/
def williamsR (frame : Frame K) (params : Params) : Except FactorError (Option K) := do
  let period ← period params
  let _ ← requireRows frame period
  let high := highest ((highs frame).rtake period)
  let low := lowest ((lows frame).rtake period)
  let close := fromEnd (closes frame) 0
  return some (if high ≤ low then -50 else -100 * (high - close) / (high - low))

/-- `_ppo`. -/
def ppo (frame : Frame K) (params : Params) : Except FactorError (Option K) := do
  let fast ← intParam params "fast_period" 2
  let slow ← intParam params "slow_period" 2
  if fast ≥ slow then .error .invalidParameter
  else do
    let fastValue ← emaLast (closes frame) fast
    let slowValue ← emaLast (closes frame) slow
    return overNonzero (100 * (fastValue - slowValue)) slowValue

/-- `_cmo`. -/
def cmo (frame : Frame K) (params : Params) : Except FactorError (Option K) := do
  let period ← period params
  let changes := (diffs (← require (closes frame) (period + 1))).rtake period
  let gains := (gains changes).sum
  let losses := (losses changes).sum
  let total := gains + losses
  return some (if total = 0 then 0 else 100 * (gains - losses) / total)

/-- `_awesome_oscillator`. -/
def awesomeOscillator (frame : Frame K) (params : Params) : Except FactorError (Option K) := do
  let fast ← intParam params "fast_period" 2
  let slow ← intParam params "slow_period" 2
  if fast ≥ slow then .error .invalidParameter
  else do
    let values ← require (frame.map fun b => (b.high + b.low) / 2) slow
    return some (mean (values.rtake fast) - mean (values.rtake slow))

/-- The lowest and the highest price since the close before a bar; the first bar is on its own. -/
def reach (frame : Frame K) : List (K × K × K) :=
  overPrevious (fun b => (b.low, b.high, b.close))
    (fun prev b => (min b.low prev.close, max b.high prev.close, b.close)) frame

/-- `average` of `_ultimate_oscillator`: buying pressure over true range. -/
def pressure (frame : Frame K) (length : ℕ) : K :=
  let window := (reach frame).rtake length
  let denominator := (window.map fun r => r.2.1 - r.1).sum
  if denominator = 0 then 0 else (window.map fun r => r.2.2 - r.1).sum / denominator

/-- `_ultimate_oscillator`. -/
def ultimateOscillator (frame : Frame K) (params : Params) : Except FactorError (Option K) := do
  let fast ← intParam params "fast_period" 2
  let medium ← intParam params "medium_period" 2
  let slow ← intParam params "slow_period" 2
  if fast < medium ∧ medium < slow then do
    let _ ← requireRows frame (slow + 1)
    return some
      (100 * (4 * pressure frame fast + 2 * pressure frame medium + pressure frame slow) / 7)
  else .error .invalidParameter

/-- `_tsi`. -/
def tsi (frame : Frame K) (params : Params) : Except FactorError (Option K) := do
  let slow ← intParam params "slow_period" 2
  let fast ← intParam params "fast_period" 2
  let momentum := diffs (← require (closes frame) (slow + fast + 1))
  let numerator ← emaValues (← emaValues momentum slow) fast
  let denominator ← emaValues (← emaValues (momentum.map abs) slow) fast
  let scale := fromEnd denominator 0
  return some (if scale = 0 then 0 else 100 * fromEnd numerator 0 / scale)

/-- `_elder_ray`. -/
def elderRay (frame : Frame K) (params : Params) : Except FactorError (Option K) := do
  let period ← period params
  let average ← emaLast (closes frame) period
  let output ← choice params [.bull, .bear] .bull
  let field := if output = .bull then highs frame else lows frame
  return some (fromEnd field 0 - average)

end AlgoTrade.Factors
