import AlgoTrade.Candles.Fetch
import AlgoTrade.Lib.Rounding
import Mathlib.Algebra.Order.Floor.Ring
import Mathlib.Data.Rat.Floor

/-! # Candles of a timeframe the exchange does not offer

`get_kline` fetches candles of a shorter timeframe and makes one of so many that
follow one another.

* `filterAndLimit`: the rows of a request, whatever they are made of.
* `getKline_eq`: each row that is returned is made of one bucket of fetched candles. -/

namespace AlgoTrade.Candles

/-! ## Timeframes -/

/-- `TIMEFRAME_MAP`: the names of the exchanges. -/
def timeframeMap : List (String × String) :=
  [("1m", "1m"), ("3m", "3m"), ("5m", "5m"), ("15m", "15m"), ("30m", "30m"), ("1H", "1h"),
    ("4H", "4h"), ("1D", "1d"), ("1W", "1w")]

def ccxtTimeframe (timeframe : String) : String := (timeframeMap.lookup timeframe).getD "1d"

/-- `_ccxt_to_qd_timeframe`. -/
def ccxtToQdTimeframe (ccxtTf fallback : String) : String :=
  ((timeframeMap.find? fun e => e.2 = ccxtTf).map Prod.fst).getD fallback

/-- `_RESAMPLE_CANDIDATES`. -/
def resampleCandidates : String → List (String × ℕ)
  | "3m" => [("1m", 3)]
  | "4h" => [("2h", 2), ("1h", 4)]
  | "1w" => [("1d", 7)]
  | _ => []

/-- `_pick_resample_source`: a timeframe that is offered, and how many make one. -/
def pickResampleSource (target : String) (offered : List String) : Option (String × ℕ) :=
  (resampleCandidates target).find? fun e => e.1 ∈ offered

/-! ## Buckets -/

/-- Fetched candles that become one. -/
structure Bucket where
  first : Candle
  rest : List Candle

namespace Bucket

variable (b : Bucket)

def rows : List Candle := b.first :: b.rest

def last : Candle := b.rows.getLast (List.cons_ne_nil _ _)

def aggregate : Candle where
  time := b.first.time
  openPrice := b.first.openPrice
  high := (b.rest.map Candle.high).foldl max b.first.high
  low := (b.rest.map Candle.low).foldl min b.first.low
  closePrice := b.last.closePrice
  volume := (b.rows.map Candle.volume).sum

end Bucket

/-- The full slices of a size; an incomplete one at the end is dropped. -/
def buckets (size : ℕ) (rows : List Candle) : List Bucket :=
  (List.range (rows.length / size)).filterMap fun i =>
    match (rows.drop (i * size)).take size with
    | [] => none
    | first :: rest => some ⟨first, rest⟩

/-- `_resample_ohlcv`. -/
def resampleOhlcv (rows : List Candle) (size : ℕ) : List Candle :=
  if size ≤ 1 then rows else (buckets size rows).map Bucket.aggregate

/-! ## Returned rows -/

structure Kline where
  time : ℤ
  openPrice : ℚ
  high : ℚ
  low : ℚ
  closePrice : ℚ
  volume : ℚ
  deriving DecidableEq

/-- `format_kline`, with the time in seconds. -/
def formatKline (c : Candle) : Kline where
  time := c.time.tdiv 1000
  openPrice := Rounding.roundTo 4 c.openPrice
  high := Rounding.roundTo 4 c.high
  low := Rounding.roundTo 4 c.low
  closePrice := Rounding.roundTo 4 c.closePrice
  volume := Rounding.roundTo 2 c.volume

/-- Whether a time, in seconds, is within the request. -/
def Request.asks (r : Request) (t : ℤ) : Bool :=
  r.beforeTime.all (t < ·) && r.afterTime.all (· ≤ t)

/-- `filter_and_limit`, on whatever has a time in seconds. -/
def filterAndLimit {α : Type} (time : α → ℤ) (r : Request) (rows : List α) : List α :=
  let rows := (rows.insertionSort fun a b => time a ≤ time b).filter fun a => r.asks (time a)
  -- `klines[-0:]` is all of them
  if r.afterTime = none ∧ 0 < r.limit ∧ r.limit < rows.length then
    rows.drop (rows.length - r.limit)
  else rows

/-- The rows of the source that are fetched for a request. -/
def sourceRows (ex : Exchange) (r : Request) (timeframe source : String) (size : ℕ) : List Candle :=
  fetchOhlcv ex { r with limit := min (r.limit * size) singleFetchHardCap }
    (ccxtToQdTimeframe source timeframe)

/-- `get_kline` of one exchange: its calls by the name of the timeframe, and the names
it offers. -/
def getKline (ex : String → Exchange) (offered : List String) (r : Request) (timeframe : String) :
    List Kline :=
  let target := ccxtTimeframe timeframe
  if offered = [] ∨ target ∈ offered then
    filterAndLimit Kline.time r ((fetchOhlcv (ex target) r timeframe).map formatKline)
  else
    match pickResampleSource target offered with
    | none => []
    | some (source, size) =>
      filterAndLimit Kline.time r
        ((resampleOhlcv (sourceRows (ex source) r timeframe source size) size).map formatKline)

/-- The buckets behind the rows that are returned. -/
def returnedBuckets (ex : Exchange) (r : Request) (timeframe source : String) (size : ℕ) :
    List Bucket :=
  filterAndLimit (fun b => b.first.time.tdiv 1000) r
    (buckets size (sourceRows ex r timeframe source size))

theorem filterAndLimit_map {α β : Type} (time : β → ℤ) (f : α → β) (r : Request) (rows : List α) :
    filterAndLimit time r (rows.map f) = (filterAndLimit (fun a => time (f a)) r rows).map f := by
  have hsort : (rows.map f).insertionSort (fun a b => time a ≤ time b) =
      (rows.insertionSort fun a b => time (f a) ≤ time (f b)).map f :=
    (List.map_insertionSort _ _ f rows fun _ _ _ _ => Iff.rfl).symm
  unfold filterAndLimit
  simp only [hsort, List.filter_map, List.length_map, Function.comp_def, ← List.map_drop,
    apply_ite (List.map f)]

theorem filterAndLimit_subset {α : Type} (time : α → ℤ) (r : Request) (rows : List α) :
    filterAndLimit time r rows ⊆ rows := by
  intro a ha
  have hmem : a ∈ (rows.insertionSort fun a b => time a ≤ time b).filter fun a => r.asks (time a) := by
    unfold filterAndLimit at ha
    dsimp only at ha
    split at ha
    · exact List.mem_of_mem_drop ha
    · exact ha
  exact (List.mem_insertionSort _).mp (List.mem_of_mem_filter hmem)

/-- What stands in for a timeframe is of more than one candle. -/
theorem one_lt_of_pick {target source : String} {offered : List String} {size : ℕ}
    (h : pickResampleSource target offered = some (source, size)) : 1 < size := by
  have hmem := List.mem_of_find?_eq_some h
  unfold resampleCandidates at hmem
  split at hmem
  all_goals
    simp only [List.mem_cons, List.not_mem_nil, or_false, Prod.mk.injEq] at hmem
    try omega

/-- **Each row** is made of a bucket. -/
theorem getKline_eq {ex : String → Exchange} {offered : List String} {r : Request}
    {timeframe source : String} {size : ℕ} (hoffered : offered ≠ [])
    (htarget : ccxtTimeframe timeframe ∉ offered)
    (hpick : pickResampleSource (ccxtTimeframe timeframe) offered = some (source, size)) :
    getKline ex offered r timeframe =
      (returnedBuckets (ex source) r timeframe source size).map fun b => formatKline b.aggregate := by
  unfold getKline returnedBuckets resampleOhlcv
  dsimp only
  rw [if_neg (not_or.mpr ⟨hoffered, htarget⟩), hpick]
  dsimp only
  rw [if_neg (not_le.mpr (one_lt_of_pick hpick)), List.map_map]
  exact filterAndLimit_map Kline.time _ r _

end AlgoTrade.Candles
