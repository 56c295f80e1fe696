import AlgoTrade.Lib.Dict
import Mathlib.Data.Int.Order.Basic
import Mathlib.Data.List.Sort
import Mathlib.Algebra.Order.Ring.Rat

/-! # Candles fetched page by page

A request for candles up to an end time, the pages an exchange answers it with, and
the rows that `_fetch_ohlcv` makes of them.  Times of candles are in milliseconds,
times of requests in seconds.

* `fetchPages`: the loop, with what is left of the page budget.
* `fetchOhlcv`: the rows by time, or those of the fallback. -/

namespace AlgoTrade.Candles

structure Candle where
  time : ℤ
  openPrice : ℚ
  high : ℚ
  low : ℚ
  closePrice : ℚ
  volume : ℚ
  deriving DecidableEq, Repr

/-- `TIMEFRAME_SECONDS`. -/
def timeframeTable : List (String × ℕ) :=
  [("1m", 60), ("3m", 180), ("5m", 300), ("15m", 900), ("30m", 1800), ("1H", 3600),
    ("4H", 14400), ("1D", 86400), ("1W", 604800)]

/-- `TIMEFRAME_SECONDS.get(timeframe, 86400)`. -/
def timeframeSeconds (timeframe : String) : ℕ := (timeframeTable.lookup timeframe).getD 86400

/-- The length of a candle in milliseconds. -/
def timeframeMs (timeframe : String) : ℤ := timeframeSeconds timeframe * 1000

/-- `calculate_time_range`: the range in seconds, a fifth longer than the candles. -/
def calculateTimeRange (timeframe : String) (limit : ℕ) : ℕ :=
  timeframeSeconds timeframe * limit * 12 / 10

/-! ## Requests -/

structure Request where
  limit : ℕ
  /-- `none` when it is missing or zero. -/
  beforeTime : Option ℤ
  afterTime : Option ℤ := none
  /-- Now, in seconds. -/
  now : ℤ

/-- From which time on, and up to which. -/
structure Window where
  since : ℤ
  endMs : ℤ
  deriving DecidableEq

/-- The window of a request that ends before a time. -/
def Request.window (r : Request) (timeframe : String) (beforeTime : ℤ) : Window :=
  let safeBefore := min beforeTime r.now
  let start := safeBefore - calculateTimeRange timeframe r.limit
  let start := match r.afterTime with
    | none => start
    | some after => min start after
  let nowMs := r.now * 1000
  let since := start * 1000
  { since := if nowMs ≤ since then max 0 (nowMs - timeframeMs timeframe) else since
    endMs := safeBefore * 1000 }

/-- `_RECENT_CANDLE_LIMITS`; nothing when the window ends before the oldest candle
the exchange still has, and no limit when it is 0. -/
def Window.recent (w : Window) (timeframe : String) (now : ℤ) (recentLimit : ℕ) : Option Window :=
  if 0 < recentLimit then
    let earliest := max 0 (now * 1000 - timeframeMs timeframe * (recentLimit - 1))
    if w.endMs < earliest then none else some { w with since := max w.since earliest }
  else some w

/-! ## Pages -/

/-- An exchange that answers every call; calls are numbered. -/
structure Exchange where
  recentLimit : ℕ := 0
  /-- `fetch_ohlcv(since, limit)`. -/
  fetch : ℕ → ℤ → ℕ → List Candle
  /-- `fetch_ohlcv(limit)`. -/
  fetchRecent : ℕ → List Candle
  /-- The seconds that have gone by at a page. -/
  elapsed : ℕ → ℚ

def batchLimit : ℕ := 300

def maxBatches : ℕ := 6000

def maxEmpty : ℕ := 6

def fetchBudgetSeconds : ℚ := 180

def singleFetchHardCap : ℕ := 300

/-- All rows, and whether the loop came to its end within the budgets. -/
structure Fetched where
  rows : List Candle
  finished : Bool

/-- The loop, with so many pages to go. -/
def fetchPages (ex : Exchange) (step endMs : ℤ) :
    ℕ → ℕ → ℤ → ℕ → List Candle → Fetched
  | 0, _, current, _, rows => ⟨rows, endMs ≤ current⟩
  | pages + 1, batch, current, emptyStreak, rows =>
    if endMs ≤ current then ⟨rows, true⟩
    else if fetchBudgetSeconds < ex.elapsed batch then ⟨rows, false⟩
    else
      match (ex.fetch batch current batchLimit).getLast? with
      | none =>
        if maxEmpty ≤ emptyStreak + 1 then ⟨rows, true⟩
        else fetchPages ex step endMs pages (batch + 1) (current + step * (min batchLimit 64 : ℕ))
          (emptyStreak + 1) rows
      | some last =>
        let rows := rows ++ ex.fetch batch current batchLimit
        if endMs ≤ last.time then ⟨rows, true⟩
        else if last.time + step ≤ current then ⟨rows, true⟩
        else fetchPages ex step endMs pages (batch + 1) (last.time + step) 0 rows

/-- One row for each time, in order. -/
def byTime (rows : List Candle) : List Candle :=
  (Dict.empty.update ⟨rows.map fun row => (row.time, row)⟩ : Dict ℤ Candle).values.insertionSort
    fun a b => a.time ≤ b.time

/-- `_fetch_ohlcv_fallback`: one page of the window, else the most recent candles. -/
def fetchOhlcvFallback (ex : Exchange) (r : Request) (timeframe : String) (beforeTime : ℤ) :
    List Candle :=
  let page := ex.fetch maxBatches (r.window timeframe beforeTime).since
    (min r.limit singleFetchHardCap)
  if page = [] then ex.fetchRecent (min r.limit singleFetchHardCap) else page

/-- `_fetch_ohlcv`. -/
def fetchOhlcv (ex : Exchange) (r : Request) (timeframe : String) : List Candle :=
  match r.beforeTime with
  | none => ex.fetchRecent (min r.limit singleFetchHardCap)
  | some beforeTime =>
    match (r.window timeframe beforeTime).recent timeframe r.now ex.recentLimit with
    | none => []
    | some w =>
      let rows := byTime
        (fetchPages ex (timeframeMs timeframe) w.endMs maxBatches 0 w.since 0 []).rows
      if rows = [] then fetchOhlcvFallback ex r timeframe beforeTime else rows

/-! ## What an exchange answers -/

/-- Candles of one length, at times that are a multiple of it apart. -/
structure History (step : ℤ) where
  candles : List Candle
  sorted : candles.Pairwise fun a b => a.time < b.time
  origin : ℤ
  grid : ∀ c ∈ candles, step ∣ c.time - origin

/-- Answers of a call: the first candles up to a cap, or those within a number of bars. -/
inductive Answers {step : ℤ} (h : History step) (since : ℤ) (limit : ℕ) : List Candle → Prop
  | first (cap : ℕ) (hcap : 0 < cap) :
      Answers h since limit ((h.candles.filter fun c => since ≤ c.time).take cap)
  | within : Answers h since limit
      (h.candles.filter fun c => since ≤ c.time ∧ c.time < since + limit * step)

section
variable {step : ℤ} {h : History step} {since : ℤ} {limit : ℕ} {page : List Candle}

theorem Answers.sublist (ha : Answers h since limit page) : page.Sublist h.candles := by
  cases ha with
  | first cap => exact (List.take_sublist ..).trans List.filter_sublist
  | within => exact List.filter_sublist

theorem Answers.since_le (ha : Answers h since limit page) {c : Candle} (hc : c ∈ page) :
    since ≤ c.time := by
  cases ha with
  | first cap => exact of_decide_eq_true (List.mem_filter.mp (List.mem_of_mem_take hc)).2
  | within => exact (of_decide_eq_true (List.mem_filter.mp hc).2).1

/-- Two candles of one time are one candle. -/
theorem History.eq_of_time {a b : Candle} (ha : a ∈ h.candles) (hb : b ∈ h.candles)
    (htime : a.time = b.time) : a = b := by
  have hinj : h.candles.Pairwise fun a b => a.time ≠ b.time := h.sorted.imp fun hlt => hlt.ne
  exact List.inj_on_of_nodup_map (List.pairwise_map.mpr hinj) ha hb htime

end

/-- Candles in the order of time are told by which they are. -/
theorem eq_of_mem_iff {l l' : List Candle} (hl : l.Pairwise fun a b => a.time < b.time)
    (hl' : l'.Pairwise fun a b => a.time < b.time) (hmem : ∀ c, c ∈ l ↔ c ∈ l') : l = l' := by
  have hne : ∀ {a b : Candle}, a.time < b.time → a ≠ b := fun hlt heq =>
    absurd (congrArg Candle.time heq) hlt.ne
  refine List.Perm.eq_of_pairwise (fun a b _ _ hab hba => absurd hab hba.asymm) hl hl' ?_
  exact (List.perm_ext_iff_of_nodup (hl.imp hne) (hl'.imp hne)).mpr hmem

end AlgoTrade.Candles
