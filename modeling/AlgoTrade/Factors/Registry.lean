import AlgoTrade.Factors.Momentum
import AlgoTrade.Factors.Trend
import AlgoTrade.Factors.Volume

/-! # The registry of technical factors

Each factor with its defaults, the rows it declares as its warm-up, and what computes it. -/

namespace AlgoTrade.Factors

open scoped Series

/-- The technical factors of `_FACTORS`. -/
inductive TechnicalFactor
  | sma | ema | smaDistance | emaDistance | momentum | roc | rsi | macd | bollingerBands
  | stochastic | kdj | cci | williamsR | mfi | adx | aroon | trix | supertrend | atr
  | realizedVolatility | emaSlope | atrPct | downsideVolatility | maxDrawdown
  | donchianChannels | keltnerChannels | volumeZscore | volumeRatio | meanReversionZscore
  | turnoverProxy | obv | adLine | chaikinOscillator | vwap | cmf | dema | tema | zlema | hma
  | kama | ppo | cmo | awesomeOscillator | ultimateOscillator | tsi | vortex | choppiness
  | efficiencyRatio | elderRay | forceIndex | ulcerIndex | parkinsonVolatility
  | garmanKlassVolatility | amihudIlliquidity
  deriving DecidableEq

namespace TechnicalFactor

def ofPeriod (n : ℤ) : List (String × Value) := [("period", .int n)]

def withOutput (n : ℤ) (output : Output) : List (String × Value) :=
  [("period", .int n), ("output", .text output.text)]

/-- `default_params`. -/
def defaultParams : TechnicalFactor → List (String × Value)
  | sma => ofPeriod 20
  | ema => ofPeriod 20
  | smaDistance => ofPeriod 20
  | emaDistance => ofPeriod 20
  | momentum => ofPeriod 60
  | roc => ofPeriod 12
  | rsi => ofPeriod 14
  | macd => [("fast_period", .int 12), ("slow_period", .int 26), ("signal_period", .int 9),
      ("output", .text "histogram")]
  | bollingerBands => [("period", .int 20), ("stddev", .float 2 "2.0"),
      ("output", .text "position")]
  | stochastic => [("period", .int 14), ("smooth_k", .int 3), ("smooth_d", .int 3),
      ("output", .text "k")]
  | kdj => [("period", .int 9), ("k_period", .int 3), ("d_period", .int 3), ("output", .text "j")]
  | cci => ofPeriod 20
  | williamsR => ofPeriod 14
  | mfi => ofPeriod 14
  | adx => withOutput 14 .adx
  | aroon => withOutput 25 .oscillator
  | trix => ofPeriod 15
  | supertrend => [("period", .int 10), ("multiplier", .float 3 "3.0"),
      ("output", .text "direction")]
  | atr => ofPeriod 14
  | realizedVolatility => ofPeriod 20
  | emaSlope => [("period", .int 20), ("slope_period", .int 5)]
  | atrPct => ofPeriod 14
  | downsideVolatility => ofPeriod 20
  | maxDrawdown => ofPeriod 60
  | donchianChannels => withOutput 20 .position
  | keltnerChannels => [("period", .int 20), ("atr_period", .int 10),
      ("multiplier", .float 2 "2.0"), ("output", .text "position")]
  | volumeZscore => ofPeriod 20
  | volumeRatio => ofPeriod 20
  | meanReversionZscore => ofPeriod 20
  | turnoverProxy => ofPeriod 20
  | obv => withOutput 20 .slope
  | adLine => withOutput 20 .slope
  | chaikinOscillator => [("fast_period", .int 3), ("slow_period", .int 10)]
  | vwap => withOutput 20 .distance
  | cmf => ofPeriod 20
  | dema => ofPeriod 20
  | tema => ofPeriod 20
  | zlema => ofPeriod 20
  | hma => ofPeriod 20
  | kama => [("period", .int 10), ("fast_period", .int 2), ("slow_period", .int 30)]
  | ppo => [("fast_period", .int 12), ("slow_period", .int 26)]
  | cmo => ofPeriod 14
  | awesomeOscillator => [("fast_period", .int 5), ("slow_period", .int 34)]
  | ultimateOscillator => [("fast_period", .int 7), ("medium_period", .int 14),
      ("slow_period", .int 28)]
  | tsi => [("slow_period", .int 25), ("fast_period", .int 13)]
  | vortex => withOutput 14 .oscillator
  | choppiness => ofPeriod 14
  | efficiencyRatio => ofPeriod 10
  | elderRay => withOutput 13 .bull
  | forceIndex => ofPeriod 13
  | ulcerIndex => ofPeriod 14
  | parkinsonVolatility => ofPeriod 20
  | garmanKlassVolatility => ofPeriod 20
  | amihudIlliquidity => ofPeriod 20

/-- The parameters a factor is computed with: the given ones over its defaults. -/
def merged (factor : TechnicalFactor) (params : Params) : Params :=
  params.over fun key => factor.defaultParams.lookup key

/-- `_technical_warmup`; a conversion may raise. -/
def technicalWarmup (factor : TechnicalFactor) (params : Params) : Except Raised ℤ := do
  let period ← intOr params "period" 1
  match factor with
  | momentum | roc | rsi | downsideVolatility => return period + 1
  | emaSlope => return period + (← intOr params "slope_period" 1)
  | macd => return (← intOr params "slow_period" 26) + (← intOr params "signal_period" 9)
  | stochastic =>
    return period + (← intOr params "smooth_k" 1) + (← intOr params "smooth_d" 1) - 2
  | trix => return period * 3 + 1
  | dema => return period * 2
  | tema => return period * 3
  | hma =>
    -- the root of a negative number raises
    if period < 0 then .error .caught else return period + period.toNat.sqrt
  | cmo | efficiencyRatio | kama | ulcerIndex | choppiness | vortex => return period + 1
  | ppo | awesomeOscillator => intOr params "slow_period" period
  | ultimateOscillator => return (← intOr params "slow_period" 28) + 1
  | tsi => return (← intOr params "slow_period" 25) + (← intOr params "fast_period" 13) + 1
  | adx => return period * 2
  | chaikinOscillator => intOr params "slow_period" 10
  | obv | adLine => return period + 1
  | _ => return max 1 period

section
variable {K : Type} [Field K] [LinearOrder K]

/-- `compute`, of the parameters as they are merged. -/
def compute (math : Analysis K) (factor : TechnicalFactor) (frame : Frame K) (params : Params) :
    Except FactorError (Option K) :=
  match factor with
  | sma => Factors.sma frame params
  | ema => Factors.ema frame params
  | smaDistance => Factors.smaDistance frame params
  | emaDistance => Factors.emaDistance frame params
  | momentum => return_ frame params
  | roc => return_ frame params
  | rsi => Factors.rsi frame params
  | macd => Factors.macd frame params
  | bollingerBands => bollinger math frame params
  | stochastic => Factors.stochastic frame params
  | kdj => Factors.kdj frame params
  | cci => Factors.cci frame params
  | williamsR => Factors.williamsR frame params
  | mfi => Factors.mfi frame params
  | adx => Factors.adx frame params
  | aroon => Factors.aroon frame params
  | trix => Factors.trix frame params
  | supertrend => Factors.supertrend frame params
  | atr => Factors.atr frame params
  | realizedVolatility => Factors.realizedVolatility math frame params
  | emaSlope => Factors.emaSlope frame params
  | atrPct => Factors.atrPct frame params
  | downsideVolatility => Factors.downsideVolatility math frame params
  | maxDrawdown => Factors.maxDrawdown frame params
  | donchianChannels => donchian frame params
  | keltnerChannels => keltner frame params
  | volumeZscore => Factors.volumeZscore math frame params
  | volumeRatio => Factors.volumeRatio frame params
  | meanReversionZscore => Factors.meanReversionZscore math frame params
  | turnoverProxy => turnover frame params
  | obv => Factors.obv frame params
  | adLine => Factors.adLine frame params
  | chaikinOscillator => chaikin frame params
  | vwap => Factors.vwap frame params
  | cmf => Factors.cmf frame params
  | dema => Factors.dema frame params
  | tema => Factors.tema frame params
  | zlema => Factors.zlema frame params
  | hma => Factors.hma frame params
  | kama => Factors.kama frame params
  | ppo => Factors.ppo frame params
  | cmo => Factors.cmo frame params
  | awesomeOscillator => Factors.awesomeOscillator frame params
  | ultimateOscillator => Factors.ultimateOscillator frame params
  | tsi => Factors.tsi frame params
  | vortex => Factors.vortex frame params
  | choppiness => Factors.choppiness math frame params
  | efficiencyRatio => Factors.efficiencyRatio frame params
  | elderRay => Factors.elderRay frame params
  | forceIndex => Factors.forceIndex frame params
  | ulcerIndex => Factors.ulcerIndex math frame params
  | parkinsonVolatility => Factors.parkinsonVolatility math frame params
  | garmanKlassVolatility => Factors.garmanKlassVolatility math frame params
  | amihudIlliquidity => Factors.amihudIlliquidity frame params

end

end TechnicalFactor

/-- `compute_factor` of a technical factor; a frame of bars has every column. -/
def computeFactor {K : Type} [Field K] [LinearOrder K] (math : Analysis K)
    (factor : TechnicalFactor) (frame : Frame K) (params : Params) :
    Except FactorError (Option K) :=
  if frame.isEmpty then .error .noData else factor.compute math frame (factor.merged params)

end AlgoTrade.Factors
