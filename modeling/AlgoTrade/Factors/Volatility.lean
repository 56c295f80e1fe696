import AlgoTrade.Factors.Frame

/-! # Volatility and risk factors -/

namespace AlgoTrade.Factors

open Series

variable {K : Type} [Field K] [LinearOrder K]

/-- `std(ddof=...)`. -/
def std (math : Analysis K) (ddof : ℕ) (values : List K) : K :=
  math.sqrt ((values.map fun x => (x - mean values) ^ 2).sum / (values.length - ddof : ℕ))

/-- The root of the mean of the squares. -/
def rootMeanSquare (math : Analysis K) (values : List K) : K :=
  math.sqrt (mean (values.map (· ^ 2)))

/-- The fall of each number below the highest one so far, as a part of it. -/
def drawdowns (values : List K) : List K :=
  values.zipWith (fun x top => x / top - 1) (cummax values)

@[simp] theorem length_drawdowns (values : List K) :
    (drawdowns values).length = values.length := by
  rw [drawdowns, List.length_zipWith, length_cummax, min_self]

/-- The place of a price between two bands. -/
def positionIn (lower upper price : K) : K :=
  if upper > lower then (price - lower) / (upper - lower) else 1 / 2

/-- `_bollinger`. -/
def bollinger (math : Analysis K) (frame : Frame K) (params : Params) :
    Except FactorError (Option K) := do
  let period ← period params
  let multiplier ← positiveFloat params "stddev" 2
  let values ← require (closes frame) period
  let window := values.rtake period
  let middle := mean window
  let std := std math 0 window
  let upper := middle + (multiplier : K) * std
  let lower := middle - (multiplier : K) * std
  match ← choice params [.upper, .middle, .lower, .bandwidth, .position] .position with
  | .upper => return some upper
  | .middle => return some middle
  | .lower => return some lower
  | .bandwidth => return overNonzero (upper - lower) middle
  | _ => return some (positionIn lower upper (fromEnd values 0))

/-- `_atr` before it is a float. -/
def atrLast (frame : Frame K) (period : ℕ) : Except FactorError K :=
  wilderLast (trueRange frame) period

/-- `_atr`. -/
def atr (frame : Frame K) (params : Params) : Except FactorError (Option K) := do
  let period ← period params
  some <$> atrLast frame period

/-- `_atr_pct`. -/
def atrPct (frame : Frame K) (params : Params) : Except FactorError (Option K) :=
  let lastClose := fromEnd (closes frame) 0
  if lastClose = 0 then .ok none
  else do
    let atr ← atrLast frame (← period params)
    return some (atr / lastClose)

/-- `_realized_vol`. -/
def realizedVolatility (math : Analysis K) (frame : Frame K) (params : Params) :
    Except FactorError (Option K) := do
  let period ← period params
  let returns := returns (closes frame)
  if returns.length < period then .error .insufficientHistory
  else return some (std math 1 (returns.rtake period) * math.sqrt 252)

/-- `_downside_volatility`. -/
def downsideVolatility (math : Analysis K) (frame : Frame K) (params : Params) :
    Except FactorError (Option K) := do
  let period ← period params
  let returns := (returns (← require (closes frame) (period + 1))).rtake period
  let downside := returns.map fun r => if r < 0 then r else 0
  return some (rootMeanSquare math downside * math.sqrt 252)

/-- `_max_drawdown`. -/
def maxDrawdown (frame : Frame K) (params : Params) : Except FactorError (Option K) := do
  let period ← period params
  let values := (← require (closes frame) period).rtake period
  return some (lowest (drawdowns values))

/-- `_donchian`. -/
def donchian (frame : Frame K) (params : Params) : Except FactorError (Option K) := do
  let period ← period params
  let _ ← requireRows frame period
  let upper := highest ((highs frame).rtake period)
  let lower := lowest ((lows frame).rtake period)
  match ← choice params [.upper, .middle, .lower, .position] .position with
  | .upper => return some upper
  | .middle => return some ((upper + lower) / 2)
  | .lower => return some lower
  | _ => return some (positionIn lower upper (fromEnd (closes frame) 0))

/-- `_keltner`. -/
def keltner (frame : Frame K) (params : Params) : Except FactorError (Option K) := do
  let period ← period params
  let atrPeriod ← intParam params "atr_period" 2
  let multiplier ← positiveFloat params "multiplier" 2
  let middle ← emaLast (closes frame) period
  let atrValue ← atrLast frame atrPeriod
  let upper := middle + (multiplier : K) * atrValue
  let lower := middle - (multiplier : K) * atrValue
  match ← choice params [.upper, .middle, .lower, .position] .position with
  | .upper => return some upper
  | .middle => return some middle
  | .lower => return some lower
  | _ => return some (positionIn lower upper (fromEnd (closes frame) 0))

/-- `_ulcer_index`. -/
def ulcerIndex (math : Analysis K) (frame : Frame K) (params : Params) :
    Except FactorError (Option K) := do
  let period ← period params
  let values := (← require (closes frame) period).rtake period
  return some (rootMeanSquare math ((drawdowns values).map (100 * ·)))

/-- `_parkinson_volatility`. -/
def parkinsonVolatility (math : Analysis K) (frame : Frame K) (params : Params) :
    Except FactorError (Option K) := do
  let period ← period params
  let _ ← requireRows frame period
  let logs := (frame.rtake period).map fun b => math.log (b.high / b.low) ^ 2
  let variance := mean logs / (4 * math.log 2)
  return some (math.sqrt (max 0 variance * 252))

/-- `_garman_klass_volatility`. -/
def garmanKlassVolatility (math : Analysis K) (frame : Frame K) (params : Params) :
    Except FactorError (Option K) := do
  let period ← period params
  let _ ← requireRows frame period
  let variance := (frame.rtake period).map fun b =>
    1 / 2 * math.log (b.high / b.low) ^ 2 -
      (2 * math.log 2 - 1) * math.log (b.close / b.openPrice) ^ 2
  return some (math.sqrt (max 0 (mean variance) * 252))

end AlgoTrade.Factors
