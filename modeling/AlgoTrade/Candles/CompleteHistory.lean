import AlgoTrade.Candles.Fetch
import Mathlib.Algebra.Ring.Divisibility.Basic
import Mathlib.Tactic.Linarith
import Mathlib.Tactic.Ring

/-! # The pages add up to the history

* `fetchPages_spec`: a loop that comes to its end has every candle of the range.
* `fetchPages_finishes`: with enough pages it does.
* `fetchOhlcv_complete`: each candle of the range once, in order. -/

namespace AlgoTrade.Candles

/-! ## Grid times -/

/-- A multiple of the step beyond so many steps is one step further. -/
theorem add_one_mul_le {step x n : ℤ} (hstep : 0 < step) (hdvd : step ∣ x) (hlt : n * step < x) :
    (n + 1) * step ≤ x := by
  obtain ⟨k, rfl⟩ := hdvd
  rw [mul_comm step k] at hlt ⊢
  exact mul_le_mul_of_nonneg_right (Int.add_one_le_of_lt (lt_of_mul_lt_mul_right hlt hstep.le)) hstep.le

/-- The first grid time from a time on. -/
theorem exists_grid {step : ℤ} (hstep : 0 < step) (origin start : ℤ) :
    ∃ t, step ∣ t - origin ∧ start ≤ t ∧ t < start + step := by
  refine ⟨start + (origin - start) % step, ⟨-((origin - start) / step), ?_⟩, ?_, ?_⟩
  · have hdiv := Int.emod_add_mul_ediv (origin - start) step
    linarith
  · linarith [Int.emod_nonneg (origin - start) hstep.ne']
  · linarith [Int.emod_lt_of_pos (origin - start) hstep]

section
variable {step : ℤ} {h : History step} {since endMs current : ℤ} {limit : ℕ} {page rows : List Candle}

/-- From the start of the range to its last candle, no `5 * 64 + 300` times of the grid
in a row are without a candle. -/
def History.Dense (h : History step) (since endMs : ℤ) : Prop :=
  ∀ c ∈ h.candles, since ≤ c.time → c.time < endMs → ∀ t, step ∣ t - h.origin → since ≤ t →
    t + (5 * 64 + 300) * step ≤ c.time →
      ∃ c' ∈ h.candles, t ≤ c'.time ∧ c'.time < t + (5 * 64 + 300) * step

/-- In a dense range, nothing is left after so long a time without candles. -/
theorem History.Dense.none_left (hdense : h.Dense since endMs) (hstep : 0 < step) {start : ℤ}
    (hstart : since ≤ start)
    (hblank : ∀ c ∈ h.candles, start ≤ c.time → start + (5 * 64 + 300) * step ≤ c.time) :
    ∀ c ∈ h.candles, start ≤ c.time → endMs ≤ c.time := by
  obtain ⟨t, hgrid, hle, hlt⟩ := exists_grid hstep h.origin start
  have hbeyond : ∀ c ∈ h.candles, start ≤ c.time → t + (5 * 64 + 300) * step ≤ c.time := by
    intro c hc hlater
    have hdvd : step ∣ c.time - t := by
      have hsub := dvd_sub (h.grid c hc) hgrid
      rwa [sub_sub_sub_cancel_right] at hsub
    have hfar := add_one_mul_le (n := 5 * 64 + 300 - 1) hstep hdvd
      (by linarith [hblank c hc hlater])
    linarith
  intro c hc hlater
  by_contra hin
  obtain ⟨c', hc', hfrom, hto⟩ := hdense c hc (hstart.trans hlater) (not_le.mp hin) t hgrid
    (hstart.trans hle) (hbeyond c hc hlater)
  linarith [hbeyond c' hc' (hle.trans hfrom)]

/-! ## Pages -/

/-- A page has every candle up to its last one. -/
theorem Answers.mem_of_le (ha : Answers h since limit page) {last : Candle}
    (hlast : page.getLast? = some last) {c : Candle} (hc : c ∈ h.candles) (hsince : since ≤ c.time)
    (hle : c.time ≤ last.time) : c ∈ page := by
  cases ha with
  | first cap hcap =>
    have hmem : c ∈ h.candles.filter fun c => since ≤ c.time :=
      List.mem_filter.mpr ⟨hc, decide_eq_true hsince⟩
    have hsorted : (h.candles.filter fun c => since ≤ c.time).Pairwise fun a b => a.time < b.time :=
      h.sorted.sublist List.filter_sublist
    generalize (h.candles.filter fun c => since ≤ c.time) = later at hmem hsorted hlast ⊢
    rw [← List.take_append_drop cap later, List.pairwise_append] at hsorted
    rw [← List.take_append_drop cap later, List.mem_append] at hmem
    rcases hmem with hmem | hmem
    · exact hmem
    · exact absurd hle (not_le.mpr (hsorted.2.2 last (List.mem_of_getLast? hlast) c hmem))
  | within =>
    have hto := (of_decide_eq_true (List.mem_filter.mp (List.mem_of_getLast? hlast)).2).2
    exact List.mem_filter.mpr ⟨hc, decide_eq_true ⟨hsince, hle.trans_lt hto⟩⟩

/-- After an empty page there is no candle within the limit. -/
theorem Answers.blank (ha : Answers h since limit page) (hempty : page.getLast? = none) {c : Candle}
    (hc : c ∈ h.candles) (hsince : since ≤ c.time) : since + limit * step ≤ c.time := by
  rw [List.getLast?_eq_none_iff] at hempty
  cases ha with
  | first cap hcap =>
    have hmem : c ∈ h.candles.filter fun c => since ≤ c.time :=
      List.mem_filter.mpr ⟨hc, decide_eq_true hsince⟩
    rcases List.take_eq_nil_iff.mp hempty with hzero | hnil
    · exact absurd hzero hcap.ne'
    · rw [hnil] at hmem
      cases hmem
  | within =>
    by_contra hto
    have hmem : c ∈ h.candles.filter fun c => since ≤ c.time ∧ c.time < since + limit * step :=
      List.mem_filter.mpr ⟨hc, decide_eq_true ⟨hsince, not_le.mp hto⟩⟩
    rw [hempty] at hmem
    cases hmem

/-! ## The loop -/

/-- What the loop has done before a page. -/
structure Progress (h : History step) (since current : ℤ) (emptyStreak : ℕ) (rows : List Candle) :
    Prop where
  found : ∀ c ∈ h.candles, since ≤ c.time → c.time < current → c ∈ rows
  sound : ∀ c ∈ rows, c ∈ h.candles ∧ since ≤ c.time
  /-- The empty pages of the streak leave no candle from its start on. -/
  blank : ∃ start, since ≤ start ∧ current = start + emptyStreak * (64 * step) ∧
    (0 < emptyStreak → ∀ c ∈ h.candles, start ≤ c.time → current + (300 - 64) * step ≤ c.time)

theorem progress_start (h : History step) (since : ℤ) : Progress h since since 0 [] where
  found _ _ hle hlt := absurd hle (not_le.mpr hlt)
  sound _ hc := (List.not_mem_nil hc).elim
  blank := ⟨since, le_rfl, by simp, fun hpos => absurd hpos (lt_irrefl 0)⟩

theorem Progress.since_le {emptyStreak : ℕ} (hp : Progress h since current emptyStreak rows)
    (hstep : 0 < step) : since ≤ current := by
  obtain ⟨start, hstart, rfl, -⟩ := hp.blank
  have hmore : 0 ≤ (emptyStreak : ℤ) * (64 * step) :=
    mul_nonneg (Int.natCast_nonneg _) (by linarith)
  linarith

/-- The blank of a streak and one more empty page. -/
theorem Progress.blank_page {emptyStreak : ℕ} (hp : Progress h since current emptyStreak rows)
    (hstep : 0 < step)
    (hpage : ∀ c ∈ h.candles, current ≤ c.time → current + 300 * step ≤ c.time) :
    ∃ start, since ≤ start ∧ current = start + emptyStreak * (64 * step) ∧
      ∀ c ∈ h.candles, start ≤ c.time → current + 300 * step ≤ c.time := by
  obtain ⟨start, hstart, hcurrent, hblank⟩ := hp.blank
  refine ⟨start, hstart, hcurrent, fun c hc hlater => hpage c hc ?_⟩
  rcases Nat.eq_zero_or_pos emptyStreak with rfl | hpos
  · rw [hcurrent]
    simpa using hlater
  · linarith [hblank hpos c hc hlater]

/-- **A page with candles.** -/
theorem Progress.addPage {emptyStreak : ℕ} (hp : Progress h since current emptyStreak rows)
    (hstep : 0 < step) (ha : Answers h current limit page) {last : Candle}
    (hlast : page.getLast? = some last) :
    Progress h since (last.time + step) 0 (rows ++ page) where
  found c hc hsince hlt := by
    rcases lt_or_ge c.time current with hbefore | hafter
    · exact List.mem_append_left _ (hp.found c hc hsince hbefore)
    · refine List.mem_append_right _ (ha.mem_of_le hlast hc hafter ?_)
      by_contra hbeyond
      have hmem := ha.sublist.subset (List.mem_of_getLast? hlast)
      have hdvd : step ∣ c.time - last.time := by
        have hsub := dvd_sub (h.grid c hc) (h.grid last hmem)
        rwa [sub_sub_sub_cancel_right] at hsub
      linarith [add_one_mul_le (n := 0) hstep hdvd (by linarith [not_le.mp hbeyond])]
  sound c hc := by
    rcases List.mem_append.mp hc with hc | hc
    · exact hp.sound c hc
    · exact ⟨ha.sublist.subset hc, (hp.since_le hstep).trans (ha.since_le hc)⟩
  blank := by
    have hlater := ha.since_le (List.mem_of_getLast? hlast)
    refine ⟨last.time + step, ?_, by simp, fun hpos => absurd hpos (lt_irrefl 0)⟩
    linarith [hp.since_le hstep]

/-- **An empty page.** -/
theorem Progress.addEmpty {emptyStreak : ℕ} (hp : Progress h since current emptyStreak rows)
    (hstep : 0 < step)
    (hpage : ∀ c ∈ h.candles, current ≤ c.time → current + 300 * step ≤ c.time) :
    Progress h since (current + step * 64) (emptyStreak + 1) rows where
  found c hc hsince hlt := by
    refine hp.found c hc hsince (not_le.mp fun hafter => ?_)
    linarith [hpage c hc hafter]
  sound := hp.sound
  blank := by
    obtain ⟨start, hstart, hcurrent, hblank⟩ := hp.blank_page hstep hpage
    refine ⟨start, hstart, ?_, fun _ c hc hlater => ?_⟩
    · rw [hcurrent]
      push_cast
      ring
    · linarith [hblank c hc hlater]

/-- **The loop**: its rows are of the range, and are all of them when it comes to its end. -/
theorem fetchPages_spec {ex : Exchange} (hstep : 0 < step)
    (hanswers : ∀ call since limit, Answers h since limit (ex.fetch call since limit))
    (hdense : h.Dense since endMs) {pages batch emptyStreak : ℕ}
    (hp : Progress h since current emptyStreak rows) :
    (∀ c ∈ (fetchPages ex step endMs pages batch current emptyStreak rows).rows,
        c ∈ h.candles ∧ since ≤ c.time) ∧
      ((fetchPages ex step endMs pages batch current emptyStreak rows).finished = true →
        ∀ c ∈ h.candles, since ≤ c.time → c.time < endMs →
          c ∈ (fetchPages ex step endMs pages batch current emptyStreak rows).rows) := by
  have hreached : ∀ {current emptyStreak rows}, Progress h since current emptyStreak rows →
      endMs ≤ current → ∀ c ∈ h.candles, since ≤ c.time → c.time < endMs → c ∈ rows :=
    fun hp hend c hc hsince hlt => hp.found c hc hsince (hlt.trans_le hend)
  induction pages generalizing batch current emptyStreak rows with
  | zero => exact ⟨hp.sound, fun hfinished => hreached hp (of_decide_eq_true hfinished)⟩
  | succ pages ih =>
    have ha := hanswers batch current batchLimit
    rw [fetchPages]
    split
    next hend => exact ⟨hp.sound, fun _ => hreached hp hend⟩
    next =>
      split
      next => exact ⟨hp.sound, fun hfinished => nomatch hfinished⟩
      next =>
        split
        next hempty =>
          have hpage : ∀ c ∈ h.candles, current ≤ c.time → current + 300 * step ≤ c.time :=
            fun c hc hlater => ha.blank hempty hc hlater
          split
          next hlong =>
            refine ⟨hp.sound, fun _ c hc hsince hlt => hp.found c hc hsince ?_⟩
            by_contra hafter
            obtain ⟨start, hstart, hcurrent, hblank⟩ := hp.blank_page hstep hpage
            have hstreak : (5 : ℤ) * (64 * step) ≤ emptyStreak * (64 * step) :=
              mul_le_mul_of_nonneg_right (by exact_mod_cast Nat.le_of_succ_le_succ hlong)
                (by linarith)
            refine absurd (hdense.none_left hstep hstart (fun c hc hlater => ?_) c hc ?_)
              (not_le.mpr hlt)
            · linarith [hblank c hc hlater]
            · linarith [not_lt.mp hafter]
          next => exact ih (hp.addEmpty hstep hpage)
        next last hlast =>
          have hp' := hp.addPage hstep ha hlast
          dsimp only
          split
          next hend =>
            refine ⟨hp'.sound, fun _ c hc hsince hlt => hp'.found c hc hsince ?_⟩
            linarith
          next =>
            split
            next hback => linarith [ha.since_le (List.mem_of_getLast? hlast)]
            next => exact ih hp'

/-- **The loop ends**: every page takes it a step further. -/
theorem fetchPages_finishes {ex : Exchange} (hstep : 0 < step)
    (hanswers : ∀ call since limit, Answers h since limit (ex.fetch call since limit))
    (htime : ∀ call, ex.elapsed call ≤ fetchBudgetSeconds) {pages batch emptyStreak : ℕ}
    (hpages : endMs - current ≤ pages * step) :
    (fetchPages ex step endMs pages batch current emptyStreak rows).finished = true := by
  induction pages generalizing batch current emptyStreak rows with
  | zero => exact decide_eq_true (by simpa using hpages)
  | succ pages ih =>
    have ha := hanswers batch current batchLimit
    push_cast at hpages
    rw [fetchPages]
    split
    next => rfl
    next =>
      rw [if_neg (not_lt.mpr (htime batch))]
      split
      next =>
        split
        next => rfl
        next =>
          refine ih ?_
          show endMs - (current + step * 64) ≤ pages * step
          linarith
      next last hlast =>
        dsimp only
        split
        next => rfl
        next =>
          split
          next => rfl
          next =>
            refine ih ?_
            linarith [ha.since_le (List.mem_of_getLast? hlast)]

/-! ## Rows by time -/

theorem nodup_keys_byTime (rows : List Candle) :
    (Dict.empty.update ⟨rows.map fun row => (row.time, row)⟩ : Dict ℤ Candle).keys.Nodup :=
  Dict.nodup_keys_update (d := Dict.empty) List.nodup_nil _

/-- A row stands under its time. -/
theorem time_of_get? {rows : List Candle} {t : ℤ} {c : Candle}
    (hc : (Dict.empty.update ⟨rows.map fun row => (row.time, row)⟩ : Dict ℤ Candle).get? t = some c) :
    c ∈ rows ∧ c.time = t := by
  rcases Dict.mem_of_get?_update hc with hmem | hempty
  · obtain ⟨row, hrow, heq⟩ := List.mem_map.mp hmem
    obtain ⟨rfl, rfl⟩ := Prod.mk.inj heq
    exact ⟨hrow, rfl⟩
  · cases hempty

/-- The rows by time are these rows, when no two have one time. -/
theorem mem_byTime (hunique : ∀ a ∈ rows, ∀ b ∈ rows, a.time = b.time → a = b) {c : Candle} :
    c ∈ byTime rows ↔ c ∈ rows := by
  unfold byTime
  rw [List.mem_insertionSort]
  constructor
  · intro hc
    obtain ⟨t, ht⟩ := Dict.exists_get?_of_mem_values (nodup_keys_byTime rows) hc
    exact (time_of_get? ht).1
  · intro hc
    have hkey : c.time ∈ (⟨rows.map fun row => (row.time, row)⟩ : Dict ℤ Candle).keys :=
      List.mem_map.mpr ⟨(c.time, c), List.mem_map_of_mem hc, rfl⟩
    obtain ⟨row, hrow⟩ := Option.isSome_iff_exists.mp
      (Dict.isSome_get?_update (d := Dict.empty) (.inl hkey))
    obtain ⟨hmem, htime⟩ := time_of_get? hrow
    obtain rfl := hunique row hmem c hc htime
    exact Dict.mem_values_of_get? hrow

theorem sorted_byTime (rows : List Candle) : (byTime rows).Pairwise fun a b => a.time < b.time := by
  have hnodup := nodup_keys_byTime rows
  have htimes : ((byTime rows).map Candle.time).Nodup := by
    refine ((List.perm_insertionSort _ _).map Candle.time).nodup_iff.mpr ?_
    refine (congrArg List.Nodup ?_).mp hnodup
    refine (List.map_congr_left fun e he => ?_).trans List.map_map.symm
    exact (time_of_get? (Dict.get?_of_mem hnodup he)).2.symm
  have hsorted : (byTime rows).Pairwise fun a b => a.time ≤ b.time := by
    have : Std.Total fun a b : Candle => a.time ≤ b.time := ⟨fun a b => le_total a.time b.time⟩
    have : IsTrans Candle fun a b => a.time ≤ b.time := ⟨fun _ _ _ => le_trans⟩
    exact List.pairwise_insertionSort ..
  refine hsorted.imp₂ (fun a b hle hne => lt_of_le_of_ne hle hne) ?_
  exact List.pairwise_map.mp htimes

/-! ## The whole range -/

theorem timeframeMs_pos (timeframe : String) : 0 < timeframeMs timeframe := by
  have hseconds : 0 < timeframeSeconds timeframe := by
    have htable : ∀ e ∈ timeframeTable, 0 < e.2 := by decide
    unfold timeframeSeconds
    cases hlookup : timeframeTable.lookup timeframe with
    | none => decide
    | some seconds =>
      obtain ⟨before, rest, heq, -⟩ := List.lookup_eq_some_iff.mp hlookup
      exact htable (timeframe, seconds) (heq ▸ List.mem_append_right before List.mem_cons_self)
  exact mul_pos (by exact_mod_cast hseconds) (by norm_num)

/-- **The history is complete**: with an end time, an exchange without a limit to recent
candles and a dense range, the loop ends, and when it ends within its budgets the rows
are in order, and those of the range are the candles of the range. -/
theorem fetchOhlcv_complete {ex : Exchange} {r : Request} {timeframe : String} {beforeTime : ℤ}
    (hbefore : r.beforeTime = some beforeTime) (hrecent : ex.recentLimit = 0)
    {h : History (timeframeMs timeframe)}
    (hanswers : ∀ call since limit, Answers h since limit (ex.fetch call since limit))
    (hdense : h.Dense (r.window timeframe beforeTime).since (r.window timeframe beforeTime).endMs)
    (hcandle : ∃ c ∈ h.candles, (r.window timeframe beforeTime).since ≤ c.time ∧
      c.time < (r.window timeframe beforeTime).endMs) :
    ((∀ call, ex.elapsed call ≤ fetchBudgetSeconds) → ∃ enough, ∀ pages, enough ≤ pages →
      (fetchPages ex (timeframeMs timeframe) (r.window timeframe beforeTime).endMs pages 0
        (r.window timeframe beforeTime).since 0 []).finished = true) ∧
    ((fetchPages ex (timeframeMs timeframe) (r.window timeframe beforeTime).endMs maxBatches 0
        (r.window timeframe beforeTime).since 0 []).finished = true →
      (fetchOhlcv ex r timeframe).Pairwise (fun a b => a.time < b.time) ∧
      (fetchOhlcv ex r timeframe).filter (fun c => (r.window timeframe beforeTime).since ≤ c.time ∧
          c.time < (r.window timeframe beforeTime).endMs) =
        h.candles.filter fun c => (r.window timeframe beforeTime).since ≤ c.time ∧
          c.time < (r.window timeframe beforeTime).endMs) := by
  have hstep : 0 < timeframeMs timeframe := timeframeMs_pos timeframe
  generalize hw : r.window timeframe beforeTime = w at hdense hcandle ⊢
  constructor
  · intro htime
    refine ⟨(w.endMs - w.since).toNat, fun pages hpages => ?_⟩
    refine fetchPages_finishes hstep hanswers htime ?_
    have hmany : w.endMs - w.since ≤ pages := Int.toNat_le.mp hpages
    have hlong : (pages : ℤ) * 1 ≤ pages * timeframeMs timeframe :=
      mul_le_mul_of_nonneg_left hstep (Int.natCast_nonneg pages)
    linarith
  · intro hfinished
    obtain ⟨hsound, hall⟩ := @fetchPages_spec _ h w.since w.endMs _ _ ex hstep hanswers hdense
      maxBatches 0 0 (progress_start h w.since)
    have hin := hall hfinished
    have hfetch : fetchOhlcv ex r timeframe =
        if byTime (fetchPages ex (timeframeMs timeframe) w.endMs maxBatches 0 w.since 0 []).rows = []
        then fetchOhlcvFallback ex r timeframe beforeTime
        else byTime (fetchPages ex (timeframeMs timeframe) w.endMs maxBatches 0 w.since 0 []).rows := by
      unfold fetchOhlcv
      rw [hbefore]
      dsimp only
      rw [hw, Window.recent, hrecent, if_neg (lt_irrefl 0)]
    generalize (fetchPages ex (timeframeMs timeframe) w.endMs maxBatches 0 w.since 0 []).rows = rows
      at hsound hin hfetch
    have hmem : ∀ {c}, c ∈ byTime rows ↔ c ∈ rows := mem_byTime fun a ha b hb htime =>
      h.eq_of_time (hsound a ha).1 (hsound b hb).1 htime
    obtain ⟨c, hc, hsince, hlt⟩ := hcandle
    rw [hfetch, if_neg (List.ne_nil_of_mem (hmem.mpr (hin c hc hsince hlt)))]
    refine ⟨sorted_byTime rows, ?_⟩
    have hsorted := (sorted_byTime rows).sublist (List.filter_sublist
      (p := fun c : Candle => decide (w.since ≤ c.time ∧ c.time < w.endMs)))
    have hsorted' := h.sorted.sublist (List.filter_sublist
      (p := fun c : Candle => decide (w.since ≤ c.time ∧ c.time < w.endMs)))
    refine eq_of_mem_iff hsorted hsorted' fun c => ?_
    rw [List.mem_filter, List.mem_filter, hmem, decide_eq_true_eq]
    exact and_congr_left fun hrange =>
      ⟨fun hc => (hsound c hc).1, fun hc => hin c hc hrange.1 hrange.2⟩

end

/-- Two candles five hours apart, and an exchange that answers one at a time. -/
theorem fetchOhlcv_two :
    let first : Candle := ⟨3600000, 1, 2, 1, 2, 5⟩
    let second : Candle := ⟨18000000, 2, 3, 2, 3, 5⟩
    let ex : Exchange :=
      { fetch := fun _ since _ => ([first, second].filter fun c => since ≤ c.time).take 1
        fetchRecent := fun _ => [], elapsed := fun _ => 0 }
    let r : Request := { limit := 5, beforeTime := some 21600, now := 100000 }
    (fetchOhlcv ex r "1H").filter (fun c => (r.window "1H" 21600).since ≤ c.time ∧
        c.time < (r.window "1H" 21600).endMs) =
      [first, second] := by
  intro first second ex r
  have hcomplete := @fetchOhlcv_complete ex r "1H" 21600 rfl rfl
    ⟨[first, second], by decide, 0, by decide⟩ (fun _ _ _ => .first 1 one_pos) ?_
    ⟨first, List.mem_cons_self, by decide⟩
  · exact (hcomplete.2 (by decide +kernel)).2.trans (by decide +kernel)
  · intro c hc _ hlt t _ hsince hfar
    have hend : (r.window "1H" 21600).endMs = 21600000 := by decide
    have hstart : (r.window "1H" 21600).since = 0 := by decide
    have hms : timeframeMs "1H" = 3600000 := by decide
    omega

end AlgoTrade.Candles
