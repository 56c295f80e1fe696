import AlgoTrade.Factors.Frame
import Mathlib.Data.Nat.Sqrt

/-! # Trend factors

Averages of the closes, their distances and slopes, and the movement of a frame in one
direction. -/

namespace AlgoTrade.Factors

open Series

variable {K : Type} [Field K] [LinearOrder K]

/-! ## Averages -/

/-- `_sma` before it is a float. -/
def smaLast (frame : Frame K) (period : ℕ) : Except FactorError K := do
  let values ← require (closes frame) period
  return mean (values.rtake period)

/-- `_sma`. -/
def sma (frame : Frame K) (params : Params) : Except FactorError (Option K) := do
  let period ← period params
  some <$> smaLast frame period

/-- `_ema`. -/
def ema (frame : Frame K) (params : Params) : Except FactorError (Option K) := do
  let period ← period params
  some <$> emaLast (closes frame) period

/-- `_ma_distance`. -/
def maDistance (average : Frame K → ℕ → Except FactorError K) (frame : Frame K) (params : Params) :
    Except FactorError (Option K) := do
  let average ← average frame (← period params)
  return if average = 0 then none else some (fromEnd (closes frame) 0 / average - 1)

def smaDistance : Frame K → Params → Except FactorError (Option K) := maDistance smaLast

def emaDistance : Frame K → Params → Except FactorError (Option K) :=
  maDistance fun frame period => emaLast (closes frame) period

/-- `_ema_slope`. -/
def emaSlope (frame : Frame K) (params : Params) : Except FactorError (Option K) := do
  let period ← period params
  let slopePeriod ← intParam params "slope_period" 1
  let values ← require (closes frame) (period + slopePeriod)
  let ema ← emaValues values period
  let base := fromEnd ema slopePeriod
  return if base = 0 then none else some (fromEnd ema 0 / base - 1)

/-- `_macd`. -/
def macd (frame : Frame K) (params : Params) : Except FactorError (Option K) := do
  let fast ← intParam params "fast_period" 2
  let slow ← intParam params "slow_period" 2
  let signal ← intParam params "signal_period" 2
  if fast ≥ slow then .error .invalidParameter
  else do
    let values ← require (closes frame) (slow + signal - 1)
    let fastValues ← emaValues values fast
    let slowValues ← emaValues values slow
    -- the two averages at the places where both are there
    let line := (fastValues.rtake slowValues.length).zipWith (· - ·) slowValues
    let signalValues ← emaValues line signal
    let macdValue := fromEnd line 0
    let signalValue := fromEnd signalValues 0
    match ← choice params [.line, .signal, .histogram] .histogram with
    | .line => return some macdValue
    | .signal => return some signalValue
    | _ => return some (macdValue - signalValue)

/-- `_trix`. -/
def trix (frame : Frame K) (params : Params) : Except FactorError (Option K) := do
  let period ← period params
  let values ← require (closes frame) (period * 3 + 1)
  let first ← emaValues values period
  let second ← emaValues first period
  let third ← emaValues second period
  if third.length < 2 ∨ fromEnd third 1 = 0 then .error .insufficientHistory
  else return some (fromEnd third 0 / fromEnd third 1 - 1)

/-- `_dema`. -/
def dema (frame : Frame K) (params : Params) : Except FactorError (Option K) := do
  let period ← period params
  let first ← emaValues (closes frame) period
  let second ← emaValues first period
  return some (2 * fromEnd first 0 - fromEnd second 0)

/-- `_tema`. -/
def tema (frame : Frame K) (params : Params) : Except FactorError (Option K) := do
  let period ← period params
  let first ← emaValues (closes frame) period
  let second ← emaValues first period
  let third ← emaValues second period
  return some (3 * fromEnd first 0 - 3 * fromEnd second 0 + fromEnd third 0)

/-- `_zlema`. -/
def zlema (frame : Frame K) (params : Params) : Except FactorError (Option K) := do
  let period ← period params
  let lag := max 1 ((period - 1) / 2)
  let close ← require (closes frame) (period + lag)
  let adjusted := (close.drop lag).zipWith (fun c before => c + (c - before)) close
  some <$> emaLast adjusted period

/-- The weighted mean of a window, the newest number weighing most. -/
def weightedMean (window : List K) : K :=
  let weights : List K := (List.range window.length).map fun i : ℕ => (i : K) + 1
  (window.zipWith (· * ·) weights).sum / weights.sum

/-- `_wma_values` without the places before the first window. -/
def wmaValues (values : List K) (period : ℕ) : Except FactorError (List K) := do
  let clean ← require values period
  return (rolling period clean).map weightedMean

omit [LinearOrder K] in
theorem wmaValues_of_le {values : List K} {n : ℕ} (h : n ≤ values.length) :
    wmaValues values n = .ok ((rolling n values).map weightedMean) := by
  rw [wmaValues, require_of_le h]
  rfl

/-- `_hma`. -/
def hma (frame : Frame K) (params : Params) : Except FactorError (Option K) := do
  let period ← period params
  let halfPeriod := max 1 (period / 2)
  let rootPeriod := max 1 period.sqrt
  let values ← require (closes frame) (period + rootPeriod)
  let half ← wmaValues values halfPeriod
  let full ← wmaValues values period
  let raw := (half.rtake full.length).zipWith (fun h f => 2 * h - f) full
  let averages ← wmaValues raw rootPeriod
  return some (fromEnd averages 0)

/-! ## Efficiency -/

/-- How far a window gets over how far it goes. -/
def efficiency (window : List K) : K :=
  let change := |fromEnd window 0 - window.headD 0|
  let volatility := ((diffs window).map abs).sum
  if volatility = 0 then 0 else change / volatility

/-- `_efficiency_ratio`. -/
def efficiencyRatio (frame : Frame K) (params : Params) : Except FactorError (Option K) := do
  let period ← period params
  let values ← require (closes frame) (period + 1)
  return some (efficiency (values.rtake (period + 1)))

/-- How far the adaptive average moves after a window. -/
def smoothing (fast slow : ℕ) (window : List K) : K :=
  let fastConstant : K := 2 / (fast + 1)
  let slowConstant : K := 2 / (slow + 1)
  (efficiency window * (fastConstant - slowConstant) + slowConstant) ^ 2

/-- `_kama`. -/
def kama (frame : Frame K) (params : Params) : Except FactorError (Option K) := do
  let period ← period params
  let fast ← intParam params "fast_period" 1
  let slow ← intParam params "slow_period" 2
  if fast ≥ slow then .error .invalidParameter
  else do
    let values ← require (closes frame) (period + 1)
    -- each later number ends a window that reaches back to the number a period before it
    return some <| (rolling (period + 1) values).foldl
      (fun kama window => kama + smoothing fast slow window * (fromEnd window 0 - kama))
      (mean (values.take period))

/-! ## Movement -/

/-- The true range and the movement up and down of a bar, as they are or smoothed. -/
structure Movement (K : Type) where
  range : K
  plus : K
  minus : K

def movement (prev b : Bar K) : Movement K :=
  let up := b.high - prev.high
  let down := prev.low - b.low
  { range := max (max (b.high - b.low) |b.high - prev.close|) |b.low - prev.close|
    plus := if up > down ∧ up > 0 then up else 0
    minus := if down > up ∧ down > 0 then down else 0 }

def Movement.total (moves : List (Movement K)) : Movement K :=
  ⟨(moves.map (·.range)).sum, (moves.map (·.plus)).sum, (moves.map (·.minus)).sum⟩

def Movement.smooth (period : ℕ) (s m : Movement K) : Movement K :=
  ⟨s.range - s.range / period + m.range, s.plus - s.plus / period + m.plus,
    s.minus - s.minus / period + m.minus⟩

def Movement.plusDi (s : Movement K) : K := if s.range = 0 then 0 else 100 * s.plus / s.range

def Movement.minusDi (s : Movement K) : K := if s.range = 0 then 0 else 100 * s.minus / s.range

def Movement.dx (s : Movement K) : K :=
  let total := s.plusDi + s.minusDi
  if total = 0 then 0 else 100 * |s.plusDi - s.minusDi| / total

/-- `_adx_components`: the index, and the movement that the two indicators are of. -/
def adxComponents (frame : Frame K) (period : ℕ) : Except FactorError (K × Movement K) := do
  let _ ← requireRows frame (period + 1)
  let moves := frame.zipWith movement frame.tail
  if moves.length < period then .error .insufficientHistory
  else
    let first := Movement.total (moves.take period)
    let smoothed := (moves.drop period).scanl (Movement.smooth period) first
    let dxValues := smoothed.map Movement.dx
    let adxValue := dxValues.tail.foldl (wilderStep period) (dxValues.headD 0)
    return (adxValue, smoothed.getLastD first)

/-- `_adx`. -/
def adx (frame : Frame K) (params : Params) : Except FactorError (Option K) := do
  let values ← adxComponents frame (← period params)
  match ← choice params [.adx, .plusDi, .minusDi] .adx with
  | .plusDi => return some values.2.plusDi
  | .minusDi => return some values.2.minusDi
  | _ => return some values.1

/-- `_aroon`. -/
def aroon (frame : Frame K) (params : Params) : Except FactorError (Option K) := do
  let period ← period params
  let _ ← requireRows frame period
  let high := (highs frame).rtake period
  let low := (lows frame).rtake period
  let up : K := 100 * ((high.idxOf (highest high) : ℕ) + 1) / period
  let down : K := 100 * ((low.idxOf (lowest low) : ℕ) + 1) / period
  match ← choice params [.up, .down, .oscillator] .oscillator with
  | .up => return some up
  | .down => return some down
  | _ => return some (up - down)

/-- The two final bands, the direction (up or not) and the line of `_supertrend`. -/
structure Band (K : Type) where
  upper : K
  lower : K
  rising : Bool

def Band.line (s : Band K) : K := if s.rising then s.lower else s.upper

/-- The bands at the first average. -/
def Band.start (multiplier : K) (b : Bar K) (average : K) : Band K :=
  let midpoint := (b.high + b.low) / 2
  ⟨midpoint + multiplier * average, midpoint - multiplier * average, true⟩

/-- One bar after another one. -/
def Band.next (multiplier : K) (s : Band K) (prev b : Bar K) (average : K) : Band K :=
  let midpoint := (b.high + b.low) / 2
  let basicUpper := midpoint + multiplier * average
  let basicLower := midpoint - multiplier * average
  let upper := if basicUpper < s.upper ∨ prev.close > s.upper then basicUpper else s.upper
  let lower := if basicLower > s.lower ∨ prev.close < s.lower then basicLower else s.lower
  { upper, lower
    rising :=
      if s.rising = false ∧ b.close > upper then true
      else if s.rising = true ∧ b.close < lower then false
      else s.rising }

/-- The loop over the bars after the first average, each with its average. -/
def supertrendBands (multiplier : K) : Band K → Bar K → List (Bar K) → List K → Band K
  | s, prev, b :: bars, average :: averages =>
    supertrendBands multiplier (s.next multiplier prev b average) b bars averages
  | s, _, _, _ => s

/-- `_supertrend`. -/
def supertrend (frame : Frame K) (params : Params) : Except FactorError (Option K) := do
  let period ← period params
  let multiplier ← positiveFloat params "multiplier" 3
  let _ ← requireRows frame (period + 1)
  let tr := trueRange frame
  let atrValues := (tr.drop period).scanl (wilderStep period) (mean (tr.take period))
  match frame.drop (period - 1), atrValues with
  | b :: bars, average :: averages =>
    let band := supertrendBands (multiplier : K) (Band.start multiplier b average) b bars averages
    match ← choice params [.direction, .line] .direction with
    | .direction => return some (if band.rising then 1 else -1)
    | _ => return some band.line
  | _, _ => .error .insufficientHistory

/-- `_vortex`; a frame that does not move has the value before the output is looked at. -/
def vortex (frame : Frame K) (params : Params) : Except FactorError (Option K) := do
  let period ← period params
  let _ ← requireRows frame (period + 1)
  let denominator := ((trueRange frame).rtake period).sum
  if denominator ≤ 0 then return some 0
  else do
    let moves := frame.zipWith (fun prev b => (|b.high - prev.low|, |b.low - prev.high|)) frame.tail
    let plus := ((moves.rtake period).map (·.1)).sum / denominator
    let minus := ((moves.rtake period).map (·.2)).sum / denominator
    match ← choice params [.plus, .minus, .oscillator] .oscillator with
    | .plus => return some plus
    | .minus => return some minus
    | _ => return some (plus - minus)

/-- `_choppiness`. -/
def choppiness (math : Analysis K) (frame : Frame K) (params : Params) :
    Except FactorError (Option K) := do
  let period ← period params
  let _ ← requireRows frame (period + 1)
  let priceRange := highest ((highs frame).rtake period) - lowest ((lows frame).rtake period)
  if priceRange ≤ 0 then return some 100
  else
    let ratio := ((trueRange frame).rtake period).sum / priceRange
    -- the logarithm of a number that is not positive raises
    if ratio ≤ 0 then .error .computeFailed
    else return some (100 * math.log10 ratio / math.log10 period)

end AlgoTrade.Factors
