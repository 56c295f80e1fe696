import AlgoTrade.Candles.CompleteHistory
import AlgoTrade.Candles.Resample

/-! # Resampled candles and windows of one grid

A bucket is so many fetched candles that follow one another.  It is a window of time
when no candle is missing in it, and two of them are windows of one grid when their
first candles are whole lengths apart; the fetch sees to neither.

* `drawn_fetchOhlcv`: what is fetched is of the history, in order.
* `windowed_iff`: buckets are windows of one grid exactly under the two conditions.
* `getKline_windowed`: so are the candles of two requests. -/

namespace AlgoTrade.Candles

section
variable {step : ℤ} {h : History step} {ex : Exchange} {r : Request}

/-! ## Fetched rows -/

/-- An exchange that answers every call from a history: a window of it, or its end. -/
structure Exchange.Serves (ex : Exchange) (h : History step) : Prop where
  fetch : ∀ call since limit, Answers h since limit (ex.fetch call since limit)
  recent : ∀ limit, ex.fetchRecent limit <:+ h.candles

/-- Rows in the order of time, all of the history. -/
structure Drawn (h : History step) (rows : List Candle) : Prop where
  sorted : rows.Pairwise fun a b => a.time < b.time
  mem : ∀ c ∈ rows, c ∈ h.candles

theorem Drawn.sublist {rows part : List Candle} (hrows : Drawn h rows) (hpart : part.Sublist rows) :
    Drawn h part where
  sorted := hrows.sorted.sublist hpart
  mem c hc := hrows.mem c (hpart.subset hc)

theorem History.drawn (h : History step) : Drawn h h.candles := ⟨h.sorted, fun _ hc => hc⟩

/-- The rows of the pages are of the history, with whatever step they are asked for. -/
theorem mem_fetchPages (hserves : ex.Serves h) {pageStep endMs current : ℤ}
    {pages batch emptyStreak : ℕ} {rows : List Candle} (hrows : ∀ c ∈ rows, c ∈ h.candles) :
    ∀ c ∈ (fetchPages ex pageStep endMs pages batch current emptyStreak rows).rows,
      c ∈ h.candles := by
  induction pages generalizing batch current emptyStreak rows with
  | zero => exact hrows
  | succ pages ih =>
    rw [fetchPages]
    split
    next => exact hrows
    next =>
      split
      next => exact hrows
      next =>
        split
        next =>
          split
          next => exact hrows
          next => exact ih hrows
        next last _ =>
          have hmore : ∀ c ∈ rows ++ ex.fetch batch current batchLimit, c ∈ h.candles := by
            intro c hc
            rcases List.mem_append.mp hc with hc | hc
            · exact hrows c hc
            · exact (hserves.fetch batch current batchLimit).sublist.subset hc
          dsimp only
          split
          next => exact hmore
          next =>
            split
            next => exact hmore
            next => exact ih hmore

theorem drawn_fallback (hserves : ex.Serves h) (timeframe : String) (beforeTime : ℤ) :
    Drawn h (fetchOhlcvFallback ex r timeframe beforeTime) := by
  unfold fetchOhlcvFallback
  dsimp only
  split
  next => exact h.drawn.sublist (hserves.recent _).sublist
  next => exact h.drawn.sublist (hserves.fetch _ _ _).sublist

/-- **Whatever is fetched** is drawn from the history. -/
theorem drawn_fetchOhlcv (hserves : ex.Serves h) (timeframe : String) :
    Drawn h (fetchOhlcv ex r timeframe) := by
  unfold fetchOhlcv
  split
  next => exact h.drawn.sublist (hserves.recent _).sublist
  next beforeTime _ =>
    split
    next => exact ⟨List.Pairwise.nil, fun _ hc => (List.not_mem_nil hc).elim⟩
    next w _ =>
      have hmem := @mem_fetchPages _ h ex hserves (timeframeMs timeframe) w.endMs w.since maxBatches
        0 0 [] fun c hc => (List.not_mem_nil hc).elim
      dsimp only
      split
      next => exact drawn_fallback hserves timeframe beforeTime
      next =>
        refine ⟨sorted_byTime _, fun c hc => hmem c ((mem_byTime fun a ha b hb htime => ?_).mp hc)⟩
        exact h.eq_of_time (hmem a ha) (hmem b hb) htime

/-! ## Buckets -/

/-- A bucket of so many candles of the history. -/
structure Bucket.Full (b : Bucket) (h : History step) (size : ℕ) : Prop where
  drawn : Drawn h b.rows
  length : b.rows.length = size

theorem full_buckets {rows : List Candle} (hrows : Drawn h rows) {size : ℕ} {b : Bucket}
    (hb : b ∈ buckets size rows) : b.Full h size := by
  obtain ⟨i, hi, hslice⟩ := List.mem_filterMap.mp hb
  have hi : i + 1 ≤ rows.length / size := List.mem_range.mp hi
  have hend : (i + 1) * size ≤ rows.length :=
    (Nat.mul_le_mul_right size hi).trans (Nat.div_mul_le_self _ _)
  have hlength : ((rows.drop (i * size)).take size).length = size := by
    rw [List.length_take, List.length_drop]
    rw [add_one_mul] at hend
    omega
  have hsub : ((rows.drop (i * size)).take size).Sublist rows :=
    (List.take_sublist ..).trans (List.drop_sublist ..)
  generalize (rows.drop (i * size)).take size = slice at hslice hlength hsub
  cases slice with
  | nil => cases hslice
  | cons first rest =>
    obtain rfl := Option.some.inj hslice
    exact ⟨hrows.sublist hsub, hlength⟩

/-- Times of the history are a multiple of the step apart. -/
theorem History.step_dvd {a b : Candle} (ha : a ∈ h.candles) (hb : b ∈ h.candles) :
    step ∣ a.time - b.time := by
  have hsub := dvd_sub (h.grid a ha) (h.grid b hb)
  rwa [sub_sub_sub_cancel_right] at hsub

/-- Rows that are so many places apart are as many steps apart, or more. -/
theorem Drawn.time_le {rows : List Candle} (hrows : Drawn h rows) (hstep : 0 < step) {i j : ℕ}
    (hij : i ≤ j) (hj : j < rows.length) : rows[i].time + (j - i) * step ≤ rows[j].time := by
  obtain ⟨n, rfl⟩ := Nat.exists_eq_add_of_le hij
  induction n with
  | zero => simp
  | succ n ih =>
    have hprev : i + n < rows.length := by omega
    have hlt : rows[i + n].time < rows[i + (n + 1)].time :=
      List.pairwise_iff_getElem.mp hrows.sorted (i + n) (i + (n + 1)) hprev hj (by omega)
    have hdvd : step ∣ rows[i + (n + 1)].time - rows[i + n].time :=
      History.step_dvd (hrows.mem _ (List.getElem_mem hj)) (hrows.mem _ (List.getElem_mem hprev))
    have hone := add_one_mul_le (n := 0) hstep hdvd (by linarith)
    have hbefore := ih (Nat.le_add_right i n) hprev
    push_cast at hbefore ⊢
    linarith

/-! ## Windows -/

/-- The candles of the history in one window of a grid. -/
def History.window (h : History step) (origin span k : ℤ) : List Candle :=
  h.candles.filter fun c => origin + k * span ≤ c.time ∧ c.time < origin + (k + 1) * span

/-- The buckets are windows of one grid, each with all of its candles. -/
def Windowed (h : History step) (span : ℤ) (bs : List Bucket) : Prop :=
  ∃ origin, ∀ b ∈ bs, ∃ k : ℤ, b.rows = h.window origin span k

/-- Windows of one grid are one window or have no candle in common. -/
theorem Windowed.apart {span : ℤ} {bs : List Bucket} (hspan : 0 < span) (hbs : Windowed h span bs)
    {b b' : Bucket} (hb : b ∈ bs) (hb' : b' ∈ bs) :
    b.rows = b'.rows ∨ ∀ c ∈ b.rows, c ∉ b'.rows := by
  obtain ⟨origin, hwindows⟩ := hbs
  obtain ⟨k, hk⟩ := hwindows b hb
  obtain ⟨k', hk'⟩ := hwindows b' hb'
  rw [or_iff_not_imp_right]
  intro hcommon
  push Not at hcommon
  obtain ⟨c, hc, hc'⟩ := hcommon
  rw [hk, History.window, List.mem_filter, decide_eq_true_eq] at hc
  rw [hk', History.window, List.mem_filter, decide_eq_true_eq] at hc'
  have hle : k < k' + 1 := lt_of_mul_lt_mul_right (a := span) (by linarith) hspan.le
  have hge : k' < k + 1 := lt_of_mul_lt_mul_right (a := span) (by linarith) hspan.le
  rw [hk, hk', le_antisymm (Int.le_of_lt_add_one hle) (Int.le_of_lt_add_one hge)]

/-- No candle is missing between the first and the last. -/
def Bucket.Unbroken (b : Bucket) (step : ℤ) : Prop :=
  b.last.time = b.first.time + (b.rows.length - 1) * step

instance (b : Bucket) (step : ℤ) : Decidable (b.Unbroken step) :=
  inferInstanceAs (Decidable (_ = _))

namespace Bucket

variable {b : Bucket} {size : ℕ}

theorem rows_pos (b : Bucket) : 0 < b.rows.length := Nat.succ_pos b.rest.length

theorem getElem_zero (b : Bucket) (hpos : 0 < b.rows.length) : b.rows[0] = b.first := rfl

theorem last_eq (b : Bucket) (hlt : b.rows.length - 1 < b.rows.length) :
    b.rows[b.rows.length - 1] = b.last := (List.getLast_eq_getElem _).symm

/-- A row is between where an unbroken bucket would have it and where the last row leaves
room for it. -/
theorem time_mem (hb : Drawn h b.rows) (hstep : 0 < step) {j : ℕ} (hj : j < b.rows.length) :
    b.first.time + j * step ≤ b.rows[j].time ∧
      b.rows[j].time + (b.rows.length - 1 - j) * step ≤ b.last.time := by
  have hpos := b.rows_pos
  have hend : b.rows.length - 1 < b.rows.length := by omega
  have hbefore := hb.time_le hstep (Nat.zero_le j) hj
  have hafter := hb.time_le hstep (by omega : j ≤ b.rows.length - 1) hend
  rw [b.getElem_zero hpos] at hbefore
  rw [b.last_eq hend, Nat.cast_sub hpos] at hafter
  constructor <;> push_cast at hbefore hafter <;> linarith

theorem mem_rows (hb : Drawn h b.rows) (hstep : 0 < step) (hunbroken : b.Unbroken step) {c : Candle} :
    c ∈ b.rows ↔ c ∈ h.candles ∧ b.first.time ≤ c.time ∧
      c.time < b.first.time + b.rows.length * step := by
  unfold Unbroken at hunbroken
  constructor
  · intro hc
    obtain ⟨j, hj, rfl⟩ := List.getElem_of_mem hc
    obtain ⟨hfrom, hto⟩ := time_mem hb hstep hj
    have hj0 : 0 ≤ (j : ℤ) * step := by positivity
    have hj1 : 0 ≤ ((b.rows.length : ℤ) - 1 - j) * step :=
      mul_nonneg (by omega) hstep.le
    refine ⟨hb.mem _ hc, by linarith, by linarith⟩
  · rintro ⟨hc, hfrom, hto⟩
    obtain ⟨k, hk⟩ := History.step_dvd hc (hb.mem b.first List.mem_cons_self)
    have hk0 : 0 ≤ k := by
      refine le_of_mul_le_mul_left (a := step) ?_ hstep
      linarith
    have hk1 : k < b.rows.length := by
      refine lt_of_mul_lt_mul_left (a := step) ?_ hstep.le
      linarith
    obtain ⟨j, rfl⟩ := Int.eq_ofNat_of_zero_le hk0
    have hj : j < b.rows.length := by exact_mod_cast hk1
    obtain ⟨hrow, hrow'⟩ := time_mem hb hstep hj
    have htime : b.rows[j].time = c.time := by linarith
    have hmem := List.getElem_mem hj
    rwa [h.eq_of_time (hb.mem _ hmem) hc htime] at hmem

/-- An unbroken bucket is the window that opens at its first candle. -/
theorem rows_eq_window (hb : Drawn h b.rows) (hstep : 0 < step) (hunbroken : b.Unbroken step)
    {origin k : ℤ} (hopen : origin + k * (b.rows.length * step) = b.first.time) :
    b.rows = h.window origin (b.rows.length * step) k := by
  refine eq_of_mem_iff hb.sorted (h.sorted.sublist List.filter_sublist) fun c => ?_
  have hclose : origin + (k + 1) * (b.rows.length * step) =
      b.first.time + b.rows.length * step := by linarith
  rw [mem_rows hb hstep hunbroken, History.window, List.mem_filter, decide_eq_true_eq, hopen, hclose]

/-- A bucket that is a window has no gap, and opens less than a step after it. -/
theorem unbroken_of_window (hb : Drawn h b.rows) (hstep : 0 < step) {origin k : ℤ}
    (hwindow : b.rows = h.window origin (b.rows.length * step) k) :
    b.Unbroken step ∧ origin + k * (b.rows.length * step) ≤ b.first.time ∧
      b.first.time < origin + k * (b.rows.length * step) + step := by
  have hin : ∀ c ∈ b.rows, origin + k * (b.rows.length * step) ≤ c.time ∧
      c.time < origin + (k + 1) * (b.rows.length * step) := by
    intro c hc
    rw [hwindow] at hc
    exact of_decide_eq_true (List.mem_filter.mp hc).2
  have hlast : b.last ∈ b.rows := List.getLast_mem _
  obtain ⟨hopen, -⟩ := hin b.first List.mem_cons_self
  obtain ⟨-, hclose⟩ := hin b.last hlast
  have hroom := (time_mem hb hstep b.rows_pos).2
  rw [b.getElem_zero b.rows_pos] at hroom
  push_cast at hroom
  have hdvd := History.step_dvd (hb.mem b.last hlast) (hb.mem b.first List.mem_cons_self)
  refine ⟨?_, hopen, by linarith⟩
  unfold Unbroken
  by_contra hbroken
  have hfar := add_one_mul_le (n := b.rows.length - 1) hstep hdvd
    (lt_of_le_of_ne (by linarith) fun heq => hbroken (by linarith))
  linarith

end Bucket

/-- **The grid of the buckets**: they are windows of one grid exactly when none has a gap
and all open whole lengths apart. -/
theorem windowed_iff {size : ℕ} (hstep : 0 < step) {bs : List Bucket}
    (hfull : ∀ b ∈ bs, b.Full h size) :
    Windowed h (size * step) bs ↔
      (∀ b ∈ bs, b.Unbroken step) ∧
        ∀ b ∈ bs, ∀ b' ∈ bs, size * step ∣ b.first.time - b'.first.time := by
  constructor
  · rintro ⟨origin, hwindows⟩
    have hspec : ∀ b ∈ bs, ∃ k : ℤ, b.Unbroken step ∧ origin + k * (size * step) ≤ b.first.time ∧
        b.first.time < origin + k * (size * step) + step := by
      intro b hb
      obtain ⟨k, hk⟩ := hwindows b hb
      rw [← (hfull b hb).length] at hk ⊢
      exact ⟨k, Bucket.unbroken_of_window (hfull b hb).drawn hstep hk⟩
    refine ⟨fun b hb => (hspec b hb).elim fun _ hk => hk.1, fun b hb b' hb' => ?_⟩
    obtain ⟨k, -, hopen, hnear⟩ := hspec b hb
    obtain ⟨k', -, hopen', hnear'⟩ := hspec b' hb'
    have hdvd := History.step_dvd ((hfull b hb).drawn.mem _ List.mem_cons_self)
      ((hfull b' hb').drawn.mem _ List.mem_cons_self)
    refine ⟨k - k', ?_⟩
    -- both are less than a step from their openings, and steps apart
    have hrest : step ∣ b.first.time - b'.first.time - size * step * (k - k') :=
      dvd_sub hdvd ((dvd_mul_left step _).mul_right _)
    have hzero := Int.eq_zero_of_abs_lt_dvd hrest (abs_lt.mpr ⟨by linarith, by linarith⟩)
    linarith
  · rintro ⟨hunbroken, happart⟩
    cases bs with
    | nil => exact ⟨0, fun b hb => (List.not_mem_nil hb).elim⟩
    | cons b₀ bs =>
      refine ⟨b₀.first.time, fun b hb => ?_⟩
      obtain ⟨k, hk⟩ := happart b hb b₀ List.mem_cons_self
      refine ⟨k, ?_⟩
      have hopen : b₀.first.time + k * (b.rows.length * step) = b.first.time := by
        rw [(hfull b hb).length]
        linarith
      have hrows := Bucket.rows_eq_window (hfull b hb).drawn hstep (hunbroken b hb) hopen
      rwa [(hfull b hb).length] at hrows

end

/-! ## Two requests -/

/-- The length of the candles that stand in for a timeframe, so many for one. -/
def sourceMs (timeframe : String) (size : ℕ) : ℤ := timeframeMs timeframe / size

/-- So many of the source make the timeframe exactly. -/
theorem size_mul_sourceMs {timeframe source : String} {offered : List String} {size : ℕ}
    (hpick : pickResampleSource (ccxtTimeframe timeframe) offered = some (source, size)) :
    size * sourceMs timeframe size = timeframeMs timeframe := by
  have hmem := List.mem_of_find?_eq_some hpick
  unfold ccxtTimeframe at hmem
  cases hlookup : timeframeMap.lookup timeframe with
  | none =>
    rw [hlookup] at hmem
    exact (List.not_mem_nil hmem).elim
  | some name =>
    rw [hlookup] at hmem
    obtain ⟨before, rest, heq, -⟩ := List.lookup_eq_some_iff.mp hlookup
    have hentry : (timeframe, name) ∈ timeframeMap := heq ▸ List.mem_append_right before List.mem_cons_self
    have hall : ∀ e ∈ timeframeMap, ∀ pick ∈ resampleCandidates e.2,
        pick.2 * (timeframeMs e.1 / pick.2) = timeframeMs e.1 := by decide
    exact hall _ hentry _ hmem

theorem sourceMs_pos {timeframe source : String} {offered : List String} {size : ℕ}
    (hpick : pickResampleSource (ccxtTimeframe timeframe) offered = some (source, size)) :
    0 < sourceMs timeframe size := by
  have hpos := timeframeMs_pos timeframe
  rw [← size_mul_sourceMs hpick] at hpos
  exact pos_of_mul_pos_right hpos (Int.natCast_nonneg size)

theorem full_returnedBuckets {step : ℤ} {h : History step} {ex : Exchange} (hserves : ex.Serves h)
    {r : Request} {timeframe source : String} {size : ℕ} {b : Bucket}
    (hb : b ∈ returnedBuckets ex r timeframe source size) : b.Full h size :=
  full_buckets (drawn_fetchOhlcv hserves _) (filterAndLimit_subset _ r _ hb)

/-- **Two requests**: each row that is returned is made of a bucket of fetched candles, and
these are windows of one grid exactly when none has a gap and all open whole lengths
of the timeframe apart. -/
theorem getKline_windowed {ex₁ ex₂ : String → Exchange} {offered : List String} {r₁ r₂ : Request}
    {timeframe source : String} {size : ℕ} (hoffered : offered ≠ [])
    (htarget : ccxtTimeframe timeframe ∉ offered)
    (hpick : pickResampleSource (ccxtTimeframe timeframe) offered = some (source, size))
    {h : History (sourceMs timeframe size)} (hserves₁ : (ex₁ source).Serves h)
    (hserves₂ : (ex₂ source).Serves h) :
    let bs₁ := returnedBuckets (ex₁ source) r₁ timeframe source size
    let bs₂ := returnedBuckets (ex₂ source) r₂ timeframe source size
    getKline ex₁ offered r₁ timeframe = bs₁.map (fun b => formatKline b.aggregate) ∧
    getKline ex₂ offered r₂ timeframe = bs₂.map (fun b => formatKline b.aggregate) ∧
    ((Windowed h (timeframeMs timeframe) (bs₁ ++ bs₂) ∧
        ∀ b ∈ bs₁ ++ bs₂, ∀ b' ∈ bs₁ ++ bs₂, b.rows = b'.rows ∨ ∀ c ∈ b.rows, c ∉ b'.rows) ↔
      (∀ b ∈ bs₁ ++ bs₂, b.Unbroken (sourceMs timeframe size)) ∧
        ∀ b ∈ bs₁ ++ bs₂, ∀ b' ∈ bs₁ ++ bs₂,
          timeframeMs timeframe ∣ b.first.time - b'.first.time) := by
  intro bs₁ bs₂
  refine ⟨getKline_eq hoffered htarget hpick, getKline_eq hoffered htarget hpick, ?_⟩
  have hfull : ∀ b ∈ bs₁ ++ bs₂, b.Full h size := by
    intro b hb
    rcases List.mem_append.mp hb with hb | hb
    · exact full_returnedBuckets hserves₁ hb
    · exact full_returnedBuckets hserves₂ hb
  have hiff := windowed_iff (sourceMs_pos hpick) hfull
  rw [size_mul_sourceMs hpick] at hiff
  rw [← hiff, and_iff_left_iff_imp]
  exact fun hwindowed b hb b' hb' => hwindowed.apart (timeframeMs_pos timeframe) hb hb'

/-- Minutes that have a candle each. -/
def minutes (n : ℕ) : History (sourceMs "3m" 3) where
  candles := (List.range n).map fun i : ℕ => ⟨i * 60000, 1, 2, 1, 2, 1⟩
  sorted := by
    rw [List.pairwise_map]
    exact List.pairwise_lt_range.imp fun hlt => by dsimp only; omega
  origin := 0
  grid := by
    intro c hc
    obtain ⟨i, -, rfl⟩ := List.mem_map.mp hc
    exact ⟨i, by rw [show sourceMs "3m" 3 = 60000 by decide]; dsimp only; ring⟩

/-- An exchange that has them, and gives the latest. -/
def ofMinutes (n : ℕ) : Exchange where
  fetch _ since _ := ((minutes n).candles.filter fun c => since ≤ c.time).take 300
  fetchRecent limit := (minutes n).candles.drop (n - limit)
  elapsed _ := 0

theorem serves_ofMinutes (n : ℕ) : (ofMinutes n).Serves (minutes n) where
  fetch _ _ _ := .first 300 (by norm_num)
  recent _ := List.drop_suffix ..

/-- Six minutes, and requests for one and for two candles of three. -/
theorem getKline_windowed_six :
    Windowed (minutes 6) (timeframeMs "3m")
      (returnedBuckets (ofMinutes 6) ⟨1, none, none, 360⟩ "3m" "1m" 3 ++
        returnedBuckets (ofMinutes 6) ⟨2, none, none, 360⟩ "3m" "1m" 3) :=
  ((@getKline_windowed (fun _ => ofMinutes 6) (fun _ => ofMinutes 6) ["1m"] _ _ "3m" "1m" 3
    (by decide) (by decide) (by decide) _ (serves_ofMinutes 6) (serves_ofMinutes 6)).2.2.mpr
      (by decide +kernel)).1

/-- Of four minutes, the last three are one candle of three and the first three another. -/
theorem three_of_four :
    getKline (fun _ => ofMinutes 4) ["1m"] ⟨1, none, none, 240⟩ "3m" = [⟨60, 1, 2, 1, 2, 3⟩] ∧
      getKline (fun _ => ofMinutes 4) ["1m"] ⟨2, none, none, 240⟩ "3m" = [⟨0, 1, 2, 1, 2, 3⟩] ∧
      ¬ Windowed (minutes 4) (timeframeMs "3m")
        (returnedBuckets (ofMinutes 4) ⟨1, none, none, 240⟩ "3m" "1m" 3 ++
          returnedBuckets (ofMinutes 4) ⟨2, none, none, 240⟩ "3m" "1m" 3) := by
  refine ⟨by decide +kernel, by decide +kernel, fun hwindowed => ?_⟩
  have hspan : timeframeMs "3m" = (3 : ℕ) * sourceMs "3m" 3 := by decide
  rw [hspan, windowed_iff (by decide)] at hwindowed
  · revert hwindowed
    decide +kernel
  · intro b hb
    rcases List.mem_append.mp hb with hb | hb
    · exact full_returnedBuckets (serves_ofMinutes 4) hb
    · exact full_returnedBuckets (serves_ofMinutes 4) hb

end AlgoTrade.Candles
