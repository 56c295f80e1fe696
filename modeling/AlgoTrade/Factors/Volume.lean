import AlgoTrade.Factors.Volatility

/-! # Volume, liquidity and reversal factors -/

namespace AlgoTrade.Factors

open Series

variable {K : Type} [Field K] [LinearOrder K]

/-- `_zscore_last`. -/
def zscoreLast (math : Analysis K) (series : List K) (params : Params) :
    Except FactorError (Option K) := do
  let period ← period params
  if series.length < period then .error .insufficientHistory
  else
    let window := series.rtake period
    let std := std math 1 window
    return some (if std > 0 then (fromEnd window 0 - mean window) / std else 0)

def volumeZscore (math : Analysis K) (frame : Frame K) : Params → Except FactorError (Option K) :=
  zscoreLast math (volumes frame)

def meanReversionZscore (math : Analysis K) (frame : Frame K) :
    Params → Except FactorError (Option K) :=
  zscoreLast math (closes frame)

/-- `_turnover`. -/
def turnover (frame : Frame K) (params : Params) : Except FactorError (Option K) := do
  let period ← period params
  let values := frame.map fun b => b.close * b.volume
  if values.length < period then .error .insufficientHistory
  else return some (mean (values.rtake period))

/-- `_volume_ratio`. -/
def volumeRatio (frame : Frame K) (params : Params) : Except FactorError (Option K) := do
  let period ← period params
  let values ← require (volumes frame) period
  return overNonzero (fromEnd values 0) (mean (values.rtake period))

/-- `_mfi`. -/
def mfi (frame : Frame K) (params : Params) : Except FactorError (Option K) := do
  let period ← period params
  let _ ← requireRows frame (period + 1)
  -- the first bar has no direction
  let positive := ((overPrevious (fun _ => 0) (fun prev b =>
    if typical b - typical prev > 0 then typical b * b.volume else 0) frame).rtake period).sum
  let negative := ((overPrevious (fun _ => 0) (fun prev b =>
    if typical b - typical prev < 0 then typical b * b.volume else 0) frame).rtake period).sum
  if negative ≤ 0 then return some 100
  else return some (100 - 100 / (1 + positive / negative))

/-- `_normalized_slope`. -/
def normalizedSlope (values volumes : List K) (period : ℕ) : Except FactorError (Option K) :=
  if values.length ≤ period then .error .insufficientHistory
  else
    let denominator := ((volumes.rtake period).map abs).sum
    .ok (some (if denominator = 0 then 0
      else (fromEnd values 0 - fromEnd values period) / denominator))

/-- `_obv_series`. -/
def obvSeries (frame : Frame K) : List K :=
  cumsum (overPrevious (fun _ => 0) (fun prev b =>
    if b.close - prev.close > 0 then b.volume
    else if b.close - prev.close < 0 then -b.volume
    else 0) frame)

/-- The close between low and high, from -1 to 1; 0 where the two are the same. -/
def moneyFlow (b : Bar K) : K :=
  if b.high - b.low = 0 then 0 else ((b.close - b.low) - (b.high - b.close)) / (b.high - b.low)

/-- `_ad_series`. -/
def adSeries (frame : Frame K) : List K := cumsum (frame.map fun b => moneyFlow b * b.volume)

/-- A running total, or its slope over the volume. -/
def totalOrSlope (series : Frame K → List K) (frame : Frame K) (params : Params) :
    Except FactorError (Option K) := do
  let period ← period params
  let values := series frame
  match ← choice params [.value, .slope] .slope with
  | .value => return some (fromEnd values 0)
  | _ => normalizedSlope values (volumes frame) period

/-- `_obv`. -/
def obv : Frame K → Params → Except FactorError (Option K) := totalOrSlope obvSeries

/-- `_ad_line`. -/
def adLine : Frame K → Params → Except FactorError (Option K) := totalOrSlope adSeries

/-- `_chaikin`. -/
def chaikin (frame : Frame K) (params : Params) : Except FactorError (Option K) := do
  let fast ← intParam params "fast_period" 2
  let slow ← intParam params "slow_period" 2
  if fast ≥ slow then .error .invalidParameter
  else do
    let values := adSeries frame
    let fastValue ← emaLast values fast
    let slowValue ← emaLast values slow
    let scale := mean ((volumes frame).rtake slow)
    return some (if scale = 0 then 0 else (fastValue - slowValue) / scale)

/-- `_vwap`; without volume there is none, whatever the output. -/
def vwap (frame : Frame K) (params : Params) : Except FactorError (Option K) := do
  let period ← period params
  let _ ← requireRows frame period
  let window := frame.rtake period
  let denominator := (volumes window).sum
  if denominator ≤ 0 then return none
  else do
    let value := (window.map fun b => typical b * b.volume).sum / denominator
    match ← choice params [.value, .distance] .distance with
    | .value => return some value
    | _ => return some (fromEnd (closes frame) 0 / value - 1)

/-- `_cmf`. -/
def cmf (frame : Frame K) (params : Params) : Except FactorError (Option K) := do
  let period ← period params
  let _ ← requireRows frame period
  let window := frame.rtake period
  let denominator := (volumes window).sum
  return some (if denominator = 0 then 0
    else (window.map fun b => moneyFlow b * b.volume).sum / denominator)

/-- `_force_index`. -/
def forceIndex (frame : Frame K) (params : Params) : Except FactorError (Option K) := do
  let period ← period params
  let raw := frame.zipWith (fun prev b => (b.close - prev.close) * b.volume) frame.tail
  some <$> emaLast raw period

/-- `_amihud_illiquidity`; a bar without volume makes it NaN. -/
def amihudIlliquidity (frame : Frame K) (params : Params) : Except FactorError (Option K) := do
  let period ← period params
  let close ← require (closes frame) (period + 1)
  let returns := ((returns close).map abs).rtake period
  let tradedValue := (frame.rtake period).map fun b => b.close * b.volume
  return meanAll (returns.zipWith overNonzero tradedValue)

end AlgoTrade.Factors
