import AlgoTrade.Factors.Frame
import AlgoTrade.Lib.AsOf
import Mathlib.Algebra.Order.Ring.Rat
import Mathlib.Data.Fintype.Pi
import Mathlib.Data.List.Sort
import Mathlib.Data.Prod.Lex

/-! # Fundamental factors and the frames they are computed on

A report has its values, the date it became public on, and an instrument.  A price
frame is enriched with the values that were public on the date of each bar; a factor
reads the last values of the columns it needs. -/

namespace AlgoTrade.Fundamentals

open scoped Series

/-- `FUNDAMENTAL_FIELDS`. -/
inductive Field
  | revenue
  | netIncome
  | bookValue
  | shareholderEquity
  | totalDebt
  | freeCashFlow
  | sharesOutstanding
  | marketCap
  | peRatio
  | pbRatio
  | returnOnEquity
  | revenueGrowth
  | debtToEquity
  deriving DecidableEq

def fundamentalFields : List Field :=
  [.revenue, .netIncome, .bookValue, .shareholderEquity, .totalDebt, .freeCashFlow,
    .sharesOutstanding, .marketCap, .peRatio, .pbRatio, .returnOnEquity, .revenueGrowth,
    .debtToEquity]

instance : Fintype Field := Fintype.ofList fundamentalFields fun field => by cases field <;> decide

/-- One row of the fundamental columns; nothing stands for NaN. -/
abbrev Values := Field → Option ℚ

/-- The fundamental columns that are there, and their rows. -/
structure Table where
  columns : List Field
  rows : List Values

/-! ## Factors -/

/-- `_numeric`: the numbers of a column. -/
def Table.numeric (t : Table) (field : Field) : List ℚ := t.rows.filterMap (· field)

/-- `_last_value`. -/
def lastValue (t : Table) (field : Field) : Except FactorError ℚ :=
  match (t.numeric field).getLast? with
  | none => .error .insufficientHistory
  | some value => .ok value

/-- `_ratio_last`; NaN over zero. -/
def ratioLast (t : Table) (numerator denominator : Field) : Except FactorError (Option ℚ) := do
  let numeratorValue ← lastValue t numerator
  let denominatorValue ← lastValue t denominator
  return if denominatorValue = 0 then none else some (numeratorValue / denominatorValue)

/-- The growth of the last number over the one before it. -/
def growth (values : List ℚ) : Except FactorError (Option ℚ) :=
  match values.reverse with
  | last :: previous :: _ => .ok (if previous = 0 then none else some (last / previous - 1))
  | _ => .error .insufficientHistory

/-- `_growth_last`. -/
def growthLast (t : Table) (field : Field) : Except FactorError (Option ℚ) :=
  growth (t.numeric field)

/-- The fundamental factors of the registry. -/
inductive Factor
  | marketCap
  | earningsYield
  | bookToPrice
  | returnOnEquity
  | revenueGrowth
  | debtToEquity
  | freeCashFlowYield
  deriving DecidableEq

def Factor.requiredFields : Factor → List Field
  | marketCap => [.marketCap]
  | earningsYield => [.netIncome, .marketCap]
  | bookToPrice => [.bookValue, .marketCap]
  | returnOnEquity => [.netIncome, .shareholderEquity]
  | revenueGrowth => [.revenue]
  | debtToEquity => [.totalDebt, .shareholderEquity]
  | freeCashFlowYield => [.freeCashFlow, .marketCap]

def Factor.compute (t : Table) : Factor → Except FactorError (Option ℚ)
  | marketCap => some <$> lastValue t .marketCap
  | earningsYield => ratioLast t .netIncome .marketCap
  | bookToPrice => ratioLast t .bookValue .marketCap
  | returnOnEquity => ratioLast t .netIncome .shareholderEquity
  | revenueGrowth => growthLast t .revenue
  | debtToEquity => ratioLast t .totalDebt .shareholderEquity
  | freeCashFlowYield => ratioLast t .freeCashFlow .marketCap

/-- `compute_factor` of a fundamental factor. -/
def computeFactor (factor : Factor) (t : Table) : Except FactorError (Option ℚ) :=
  if t.rows.isEmpty then .error .noData
  else if factor.requiredFields.any (· ∉ t.columns) then .error .missingFields
  else factor.compute t

/-! ## Reports -/

/-- A row of `qd_fundamental_snapshots`; dates are days, and a row that was written later has the
larger `ingestedAt`. -/
structure Observation where
  market : String
  symbol : String
  periodEnd : ℤ
  availableAt : ℤ
  ingestedAt : ℤ
  values : Values
  deriving DecidableEq

def Observation.isOf (market symbol : String) (o : Observation) : Bool :=
  o.market = market ∧ o.symbol = symbol

/-- `ORDER BY available_at, period_end, ingested_at`. -/
def Observation.ingestKey (o : Observation) : ℤ ×ₗ ℤ ×ₗ ℤ :=
  toLex (o.availableAt, toLex (o.periodEnd, o.ingestedAt))

/-- `sort_values(["available_at", "period_end"])`. -/
def Observation.reportKey (o : Observation) : ℤ ×ₗ ℤ := toLex (o.availableAt, o.periodEnd)

/-- `_load_rows`: what is public at the end. -/
def loadRows (snapshots : List Observation) (market symbol : String) (last : ℤ) :
    List Observation :=
  (snapshots.filter fun o => o.isOf market symbol && o.availableAt ≤ last).insertionSort
    fun a b => a.ingestKey ≤ b.ingestKey

/-- The rows in order, the last one of a date kept. -/
def sortObservations (rows : List Observation) : List Observation :=
  (rows.insertionSort fun a b => a.reportKey ≤ b.reportKey).pwFilter
    fun a b => a.availableAt ≠ b.availableAt

/-! ## Enrichment -/

/-- A bar: its time in seconds, its close and what it has of the fundamental columns. -/
structure Bar where
  time : ℤ
  close : ℚ
  values : Values

/-- `normalize`, as a day. -/
def Bar.date (b : Bar) : ℤ := b.time / 86400

/-- A price frame, with the fundamental columns it has already. -/
structure Frame where
  columns : List Field
  bars : List Bar

def Frame.table (f : Frame) : Table := ⟨f.columns, f.bars.map (·.values)⟩

/-- A missing market capitalisation is the close times the shares. -/
def filledValues (values : Values) (close : ℚ) : Values :=
  Function.update values .marketCap <|
    (values .marketCap).or ((values .sharesOutstanding).map (close * ·))

/-- The columns of one bar: `reindex(dates, method="ffill")` takes the newest report as it stands,
its missing values included. -/
def enrichedValues (observations : List Observation) (b : Bar) : Values :=
  filledValues
    (fun field => (observations.asOf Observation.availableAt b.date).bind (·.values field)) b.close

/-- `enrich_frame`; a load that raises leaves the frame as it is. -/
def enrichFrame (load : String → String → ℤ → Option (List Observation)) (market symbol : String)
    (f : Frame) : Frame :=
  match (f.bars.map Bar.date).max? with
  | none => f
  | some last =>
    if market = "" ∨ symbol = "" then f
    else
      match load market symbol last with
      | none => f
      | some rows =>
        if rows.isEmpty then f
        else
          let observations := sortObservations rows
          { columns := fundamentalFields
            bars := f.bars.map fun b => { b with values := enrichedValues observations b } }

/-- `enrich_frame` over the table of reports. -/
def enrichFrom (snapshots : List Observation) (market symbol : String) (f : Frame) : Frame :=
  enrichFrame (fun market symbol last => some (loadRows snapshots market symbol last)) market symbol
    f

/-- Every column that a factor asks for is there once a frame is enriched. -/
theorem requiredFields_subset (factor : Factor) :
    factor.requiredFields.any (· ∉ fundamentalFields) = false := by
  cases factor <;> rfl

end AlgoTrade.Fundamentals
