import AlgoTrade.Factors.Oscillators
import AlgoTrade.Factors.Registry

/-! # Bounded factors stay in range

* `adx_mem`, `aroon_mem`, `efficiency_mem`, `drawdowns_mem`: factors with a range of their own.
* `sma_between`, `ema_between`, `kama_between`, `vwap_between`: averages.
* `computeFactor_bounded`: all of them. -/

namespace AlgoTrade.Factors

open Series Set

variable {K : Type} [Field K] [LinearOrder K]

/-- No lower than the lowest of the prices and no higher than the highest. -/
def Between (prices : List K) (v : K) : Prop := v ∈ Icc (lowest prices) (highest prices)

theorem mem_between {prices : List K} : ∀ x ∈ prices, Between prices x := fun _ hx =>
  ⟨lowest_le hx, le_highest hx⟩

/-- The bars of the last period. -/
def windowOf (frame : Frame K) (params : Params) : Frame K :=
  match period params with
  | .error _ => []
  | .ok period => frame.rtake period

/-- What is promised of the factors that have a range. -/
def TechnicalFactor.Bounded (frame : Frame K) (params : Params) (v : K) : TechnicalFactor → Prop
  | rsi | mfi | stochastic | adx | ultimateOscillator => v ∈ Icc (0 : K) 100
  | kdj => choice params [.k, .d, .j] .j ≠ .ok .j → v ∈ Icc (0 : K) 100
  | aroon =>
    choice params [.up, .down, .oscillator] .oscillator ≠ .ok .oscillator → v ∈ Icc (0 : K) 100
  | williamsR => v ∈ Icc (-100 : K) 0
  | cmo | tsi => v ∈ Icc (-100 : K) 100
  | cmf => v ∈ Icc (-1 : K) 1
  | efficiencyRatio => v ∈ Icc (0 : K) 1
  | maxDrawdown => v ∈ Icc (-1 : K) 0
  | sma => Between (closes (windowOf frame params)) v
  | ema | kama => Between (closes frame) v
  | vwap => choice params [.value, .distance] .distance = .ok .value →
      Between ((windowOf frame params).map typical) v
  | _ => True

section
variable [IsStrictOrderedRing K] {frame : Frame K} {params : Params} {v : K}

/-! ## Movement -/

/-- Movement that keeps within the range. -/
structure Movement.Within (m : Movement K) : Prop where
  plus_nonneg : 0 ≤ m.plus
  plus_le : m.plus ≤ m.range
  minus_nonneg : 0 ≤ m.minus
  minus_le : m.minus ≤ m.range

theorem movement_within {prev b : Bar K} (hprev : prev.Ordered) : (movement prev b).Within := by
  have hhigh : b.high - prev.high ≤ |b.high - prev.close| :=
    (sub_le_sub_left hprev.close_le_high _).trans (le_abs_self _)
  have hlow : prev.low - b.low ≤ |b.low - prev.close| := by
    rw [abs_sub_comm]
    exact (sub_le_sub_right hprev.low_le_close _).trans (le_abs_self _)
  have hrange : 0 ≤ (movement prev b).range := (abs_nonneg _).trans (le_max_right ..)
  have hplus : b.high - prev.high ≤ (movement prev b).range :=
    hhigh.trans ((le_max_right ..).trans (le_max_left ..))
  have hminus : prev.low - b.low ≤ (movement prev b).range := hlow.trans (le_max_right ..)
  constructor
  · unfold movement
    dsimp only
    split
    next h => exact h.2.le
    next => exact le_rfl
  · change (if b.high - prev.high > prev.low - b.low ∧ b.high - prev.high > 0 then
      b.high - prev.high else 0) ≤ _
    split
    next => exact hplus
    next => exact hrange
  · unfold movement
    dsimp only
    split
    next h => exact h.2.le
    next => exact le_rfl
  · change (if prev.low - b.low > b.high - prev.high ∧ prev.low - b.low > 0 then
      prev.low - b.low else 0) ≤ _
    split
    next => exact hminus
    next => exact hrange

theorem Movement.Within.total {moves : List (Movement K)} (h : ∀ m ∈ moves, m.Within) :
    (Movement.total moves).Within where
  plus_nonneg := List.sum_nonneg fun x hx => by
    obtain ⟨m, hm, rfl⟩ := List.mem_map.mp hx
    exact (h m hm).plus_nonneg
  plus_le := List.sum_le_sum fun m hm => (h m hm).plus_le
  minus_nonneg := List.sum_nonneg fun x hx => by
    obtain ⟨m, hm, rfl⟩ := List.mem_map.mp hx
    exact (h m hm).minus_nonneg
  minus_le := List.sum_le_sum fun m hm => (h m hm).minus_le

/-- A part of the old movement stays, and the new one comes to it. -/
theorem Movement.Within.smooth {s m : Movement K} (hs : s.Within) (hm : m.Within) {period : ℕ}
    (hp : period ≠ 0) : (s.smooth period m).Within := by
  have hone : (1 : K) ≤ period := Nat.one_le_cast.mpr (Nat.one_le_iff_ne_zero.mpr hp)
  have hpos : (0 : K) < period := lt_of_lt_of_le zero_lt_one hone
  have hpart : ∀ x : K, 0 ≤ x → 0 ≤ x - x / period := fun x hx =>
    sub_nonneg.mpr (div_le_self hx hone)
  have hmono : ∀ x y : K, x ≤ y → x - x / period ≤ y - y / period := fun x y hxy => by
    have h := hpart (y - x) (sub_nonneg.mpr hxy)
    rw [sub_div] at h
    linarith
  exact
    { plus_nonneg := add_nonneg (hpart _ hs.plus_nonneg) hm.plus_nonneg
      plus_le := add_le_add (hmono _ _ hs.plus_le) hm.plus_le
      minus_nonneg := add_nonneg (hpart _ hs.minus_nonneg) hm.minus_nonneg
      minus_le := add_le_add (hmono _ _ hs.minus_le) hm.minus_le }

/-- A part of the range in percent. -/
theorem percentOf_mem {x range : K} (hx : 0 ≤ x) (hle : x ≤ range) :
    (if range = 0 then 0 else 100 * x / range) ∈ Icc (0 : K) 100 := by
  split
  next => norm_num
  next hne =>
    have hpos := lt_of_le_of_ne (hx.trans hle) (Ne.symm hne)
    rw [mem_Icc, le_div_iff₀ hpos, div_le_iff₀ hpos]
    constructor <;> linarith

theorem Movement.Within.plusDi_mem {s : Movement K} (hs : s.Within) : s.plusDi ∈ Icc (0 : K) 100 :=
  percentOf_mem hs.plus_nonneg hs.plus_le

theorem Movement.Within.minusDi_mem {s : Movement K} (hs : s.Within) :
    s.minusDi ∈ Icc (0 : K) 100 :=
  percentOf_mem hs.minus_nonneg hs.minus_le

theorem Movement.Within.dx_mem {s : Movement K} (hs : s.Within) : s.dx ∈ Icc (0 : K) 100 := by
  obtain ⟨hplus, -⟩ := hs.plusDi_mem
  obtain ⟨hminus, -⟩ := hs.minusDi_mem
  refine percentOf_mem (abs_nonneg _) (abs_le.mpr ⟨?_, ?_⟩) <;> linarith

theorem adx_mem (hbars : ∀ b ∈ frame, b.Ordered) (h : adx frame params = .ok (some v)) :
    v ∈ Icc (0 : K) 100 := by
  simp only [adx, adxComponents, bind_eq_ok, requireRows_eq_ok] at h
  obtain ⟨period, hp, components, ⟨-, hrows, hcomponents⟩, output, -, h⟩ := h
  have hp2 := two_le_period hp
  have hmoves : ∀ m ∈ frame.zipWith movement frame.tail, m.Within :=
    forall_mem_zipWith fun prev hprev b _ => movement_within (hbars prev hprev)
  have htotal : (Movement.total ((frame.zipWith movement frame.tail).take period)).Within :=
    Movement.Within.total fun m hm => hmoves m (List.mem_of_mem_take hm)
  have hsmoothed := @scanl_mem _ _ {s : Movement K | s.Within} (Movement.smooth period)
    ((frame.zipWith movement frame.tail).drop period) _
    (fun s hs m hm => hs.smooth (hmoves m (List.mem_of_mem_drop hm)) (by omega)) htotal
  split at hcomponents
  next => cases hcomponents
  next =>
    obtain rfl := pure_eq_ok.mp hcomponents
    have hlast := getLastD_mem hsmoothed htotal
    have hdx : ∀ x ∈ (((frame.zipWith movement frame.tail).drop period).scanl
        (Movement.smooth period)
        (Movement.total ((frame.zipWith movement frame.tail).take period))).map Movement.dx,
        x ∈ Icc (0 : K) 100 := fun x hx => by
      obtain ⟨s, hs, rfl⟩ := List.mem_map.mp hx
      exact (hsmoothed s hs).dx_mem
    split at h
    next => rw [← Option.some.inj (pure_eq_ok.mp h)]; exact hlast.plusDi_mem
    next => rw [← Option.some.inj (pure_eq_ok.mp h)]; exact hlast.minusDi_mem
    next =>
      rw [← Option.some.inj (pure_eq_ok.mp h)]
      exact foldl_mem (fun _ hr x hx => wilderStep_mem (by omega) hr
        (hdx x (List.mem_of_mem_tail hx))) (headD_mem hdx (by norm_num))

/-! ## Places -/

/-- A place among so many in percent. -/
theorem place_mem {i n : ℕ} (h : i < n) : (100 * ((i : ℕ) + 1) / n : K) ∈ Icc (0 : K) 100 := by
  have hpos : (0 : K) < n := Nat.cast_pos.mpr (by omega)
  have hle : (i + 1 : K) ≤ n := by exact_mod_cast h
  have hnonneg : (0 : K) ≤ i := Nat.cast_nonneg i
  rw [mem_Icc, le_div_iff₀ hpos, div_le_iff₀ hpos]
  constructor <;> linarith

theorem aroon_mem (hosc : choice params [.up, .down, .oscillator] .oscillator ≠ .ok .oscillator)
    (h : aroon frame params = .ok (some v)) : v ∈ Icc (0 : K) 100 := by
  simp only [aroon, bind_eq_ok, requireRows_eq_ok] at h
  obtain ⟨period, hp, -, hrows, output, hout, h⟩ := h
  have hp2 := two_le_period hp
  have hhigh : ((highs frame).rtake period).length = period := by
    rw [length_rtake, length_highs]; omega
  have hlow : ((lows frame).rtake period).length = period := by
    rw [length_rtake, length_lows]; omega
  split at h
  next =>
    rw [← Option.some.inj (pure_eq_ok.mp h)]
    refine place_mem (lt_of_lt_of_eq (List.idxOf_lt_length_of_mem (highest_mem ?_)) hhigh)
    exact List.ne_nil_of_length_pos (by omega)
  next =>
    rw [← Option.some.inj (pure_eq_ok.mp h)]
    refine place_mem (lt_of_lt_of_eq (List.idxOf_lt_length_of_mem (lowest_mem ?_)) hlow)
    exact List.ne_nil_of_length_pos (by omega)
  next hup hdown =>
    rcases List.mem_cons.mp (choice_mem hout) with rfl | hmem
    · exact absurd rfl hup
    rcases List.mem_cons.mp hmem with rfl | hmem
    · exact absurd rfl hdown
    rw [List.mem_singleton.mp hmem] at hout
    exact absurd hout hosc

/-! ## Paths and falls -/

theorem efficiency_mem {window : List K} : efficiency window ∈ Icc (0 : K) 1 := by
  have hle : |fromEnd window 0 - window.headD 0| ≤ ((diffs window).map abs).sum := by
    cases window with
    | nil => simp [fromEnd, diffs]
    | cons x l =>
      have hlast : fromEnd (x :: l) 0 = l.getLastD x := by
        rw [fromEnd, List.getD_eq_getElem?_getD, ← List.head?_eq_getElem?, List.head?_reverse,
          List.getLast?_cons, Option.getD_some]
        exact (List.getLastD_eq_getLast? ..).symm
      rw [hlast]
      exact abs_change_le x l
  unfold efficiency
  dsimp only
  split
  next => norm_num
  next hne =>
    have hpos := lt_of_le_of_ne ((abs_nonneg _).trans hle) (Ne.symm hne)
    exact ⟨div_nonneg (abs_nonneg _) hpos.le, (div_le_one hpos).mpr hle⟩

theorem efficiencyRatio_mem (h : efficiencyRatio frame params = .ok (some v)) :
    v ∈ Icc (0 : K) 1 := by
  simp only [efficiencyRatio, bind_eq_ok] at h
  obtain ⟨period, -, values, -, h⟩ := h
  rw [← Option.some.inj (pure_eq_ok.mp h)]
  exact efficiency_mem

/-- A positive number falls from the highest one so far by no more than all of it. -/
theorem drawdowns_mem {values : List K} (hpos : ∀ x ∈ values, 0 < x) :
    ∀ d ∈ drawdowns values, d ∈ Icc (-1 : K) 0 := by
  intro d hd
  obtain ⟨x, top, hx, hle, rfl⟩ := mem_zipWith_of_forall₂ (forall₂_cummax values) hd
  have hx0 := hpos x hx
  have htop : 0 < top := hx0.trans_le hle
  have h1 : x / top ≤ 1 := (div_le_one htop).mpr hle
  have h0 : 0 < x / top := div_pos hx0 htop
  exact ⟨by linarith, by linarith⟩

theorem maxDrawdown_mem (h : maxDrawdown frame params = .ok (some v)) : v ∈ Icc (-1 : K) 0 := by
  simp only [maxDrawdown, bind_eq_ok, require_eq_ok] at h
  obtain ⟨period, hp, -, ⟨hlen, rfl⟩, h⟩ := h
  have hp2 := two_le_period hp
  rw [← Option.some.inj (pure_eq_ok.mp h)]
  refine drawdowns_mem (fun x hx => ?_) _ (lowest_mem ?_)
  · obtain ⟨b, -, rfl⟩ := List.mem_map.mp (mem_of_mem_rtake hx)
    exact b.close_pos
  · rw [← List.length_pos_iff, length_drawdowns, length_rtake]
    omega

/-! ## Averages -/

theorem sma_between (h : sma frame params = .ok (some v)) :
    Between (closes (windowOf frame params)) v := by
  simp only [sma, smaLast, bind_eq_ok, map_eq_ok, require_eq_ok, pure_eq_ok] at h
  obtain ⟨period, hp, -, ⟨-, ⟨hlen, rfl⟩, rfl⟩, h⟩ := h
  have hp2 := two_le_period hp
  obtain rfl := Option.some.inj h
  have hwindow : closes (windowOf frame params) = (closes frame).rtake period := by
    rw [windowOf, hp, closes, closes, rtake_map]
  rw [hwindow]
  refine mean_mem ?_ mem_between
  rw [← List.length_pos_iff, length_rtake]
  omega

theorem ema_between (h : ema frame params = .ok (some v)) : Between (closes frame) v := by
  simp only [ema, bind_eq_ok, map_eq_ok, emaLast_eq_ok] at h
  obtain ⟨period, hp, -, ⟨hlen, rfl⟩, h⟩ := h
  have hp2 := two_le_period hp
  obtain rfl := Option.some.inj h
  exact ema_mem (by omega) (List.ne_nil_of_length_pos (by omega)) mem_between _ <|
    fromEnd_mem (List.length_pos_of_ne_nil (ema_ne_nil _ _))

theorem smoothing_mem {fast slow : ℕ} (hfast : 1 ≤ fast) (hlt : fast < slow) (window : List K) :
    smoothing fast slow window ∈ Icc (0 : K) 1 := by
  obtain ⟨h0, h1⟩ := @efficiency_mem K _ _ _ window
  have hfast0 : (1 : K) ≤ fast := Nat.one_le_cast.mpr hfast
  have hslow0 : (fast : K) ≤ slow := Nat.cast_le.mpr hlt.le
  have hfastC : (2 / (fast + 1) : K) ≤ 1 := (div_le_one (by linarith)).mpr (by linarith)
  have hslowC : (0 : K) ≤ 2 / (slow + 1) := div_nonneg zero_le_two (by linarith)
  have hle : (2 / (slow + 1) : K) ≤ 2 / (fast + 1) :=
    div_le_div_of_nonneg_left zero_le_two (by linarith) (by linarith)
  have hlow := mul_nonneg h0 (sub_nonneg.mpr hle)
  have hhigh := mul_le_of_le_one_left (sub_nonneg.mpr hle) h1
  unfold smoothing
  dsimp only
  exact ⟨sq_nonneg _, pow_le_one₀ (by linarith) (by linarith)⟩

theorem kama_between (h : kama frame params = .ok (some v)) : Between (closes frame) v := by
  simp only [kama, bind_eq_ok] at h
  obtain ⟨period, hp, fast, hfast, slow, hslow, h⟩ := h
  have hp2 := two_le_period hp
  have hfast1 := le_intParam (m := 1) hfast
  split at h
  next => cases h
  next hlt =>
    obtain ⟨values, hrequire, h⟩ := bind_eq_ok.mp h
    obtain ⟨hlen, rfl⟩ := require_eq_ok.mp hrequire
    obtain rfl := Option.some.inj (pure_eq_ok.mp h)
    have hne : closes frame ≠ [] := List.ne_nil_of_length_pos (by omega)
    refine foldl_mem (S := Icc (lowest (closes frame)) (highest (closes frame)))
      (fun r hr window hwindow => ?_)
      (mean_mem (take_ne_nil (by omega) hne) fun x hx => mem_between x (List.mem_of_mem_take hx))
    have hlenw := length_of_mem_rolling hwindow
    exact towards_mem hr (mem_between _ (subset_of_mem_rolling hwindow (fromEnd_mem (by omega))))
      (smoothing_mem hfast1 (not_le.mp hlt) window)

theorem vwap_between (hout : choice params [.value, .distance] .distance = .ok .value)
    (h : vwap frame params = .ok (some v)) : Between ((windowOf frame params).map typical) v := by
  simp only [vwap, bind_eq_ok, requireRows_eq_ok] at h
  obtain ⟨period, hp, -, hrows, h⟩ := h
  split at h
  next => cases h
  next hpos =>
    rw [hout] at h
    obtain rfl := Option.some.inj (pure_eq_ok.mp h)
    rw [windowOf, hp]
    exact weightedMean_mem (fun b _ => b.volume_nonneg) (not_le.mp hpos) fun b hb =>
      mem_between _ (List.mem_map_of_mem hb)

/-! ## All factors -/

/-- **Bounded factors** stay in range, whatever the parameters. -/
theorem computeFactor_bounded (math : Analysis K) (factor : TechnicalFactor)
    (hbars : ∀ b ∈ frame, b.Ordered)
    (h : computeFactor math factor frame params = .ok (some v)) :
    factor.Bounded frame (factor.merged params) v := by
  unfold computeFactor at h
  split at h
  next => cases h
  cases factor with
  | rsi => exact rsi_mem h
  | mfi => exact mfi_mem h
  | stochastic => exact stochastic_mem hbars h
  | adx => exact adx_mem hbars h
  | ultimateOscillator => exact ultimateOscillator_mem hbars h
  | kdj => exact fun hj => kdj_mem hbars hj h
  | aroon => exact fun hosc => aroon_mem hosc h
  | williamsR => exact williamsR_mem hbars h
  | cmo => exact cmo_mem h
  | tsi => exact tsi_mem h
  | cmf => exact cmf_mem hbars h
  | efficiencyRatio => exact efficiencyRatio_mem h
  | maxDrawdown => exact maxDrawdown_mem h
  | sma => exact sma_between h
  | ema => exact ema_between h
  | kama => exact kama_between h
  | vwap => exact fun hout => vwap_between hout h
  | _ => trivial

end

/-! ## Three bars -/

/-- A bar on which nothing moves. -/
def levelBar (price : ℚ) (h : 0 < price) : Bar ℚ :=
  ⟨price, price, price, price, 1, h, h, h, h, zero_le_one⟩

theorem levelBar_ordered (price : ℚ) (h : 0 < price) : (levelBar price h).Ordered :=
  ⟨le_rfl, le_rfl, le_rfl, le_rfl⟩

/-- Two up and one down: two thirds of the way. -/
def upAndDown : Frame ℚ :=
  [levelBar 10 (by norm_num), levelBar 12 (by norm_num), levelBar 11 (by norm_num)]

def twoBars : Params := fun key => if key = "period" then some (.int 2) else none

/-- For factors that call no function of `math`. -/
def noAnalysis : Analysis ℚ := ⟨fun _ => 0, fun _ => 0, fun _ => 0⟩

theorem computeFactor_bounded_rsi :
    computeFactor noAnalysis .rsi upAndDown twoBars = .ok (some (200 / 3)) ∧
      (200 / 3 : ℚ) ∈ Icc (0 : ℚ) 100 := by
  have hvalue : computeFactor noAnalysis .rsi upAndDown twoBars = .ok (some (200 / 3)) := by
    decide +kernel
  refine ⟨hvalue, computeFactor_bounded noAnalysis .rsi (fun b hb => ?_) hvalue⟩
  simp only [upAndDown, List.mem_cons, List.not_mem_nil, or_false] at hb
  rcases hb with rfl | rfl | rfl <;> exact levelBar_ordered _ _

end AlgoTrade.Factors
