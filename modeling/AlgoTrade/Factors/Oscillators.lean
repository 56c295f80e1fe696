import AlgoTrade.Factors.Momentum
import AlgoTrade.Factors.Volume

/-! # Oscillators stay in range

* `rsi_mem`, `mfi_mem`: gains against losses.
* `stochastic_mem`, `kdj_mem`, `williamsR_mem`: the close between the extremes.
* `cmo_mem`, `tsi_mem`, `cmf_mem`: sums against the sums of their sizes.
* `ultimateOscillator_mem`: buying pressure against true range. -/

namespace AlgoTrade.Factors

open Series Set

variable {K : Type} [Field K] [LinearOrder K]

/-- The open and the close of a bar are between its low and its high. -/
structure Bar.Ordered (b : Bar K) : Prop where
  low_le_open : b.low ≤ b.openPrice
  open_le_high : b.openPrice ≤ b.high
  low_le_close : b.low ≤ b.close
  close_le_high : b.close ≤ b.high


/-- The last close of a window is within its extremes. -/
theorem close_mem {window : List (Bar K)} (hne : window ≠ []) (hbars : ∀ b ∈ window, b.Ordered) :
    fromEnd (closes window) 0 ∈ Icc (lowest (lows window)) (highest (highs window)) := by
  obtain ⟨b, hb, hclose⟩ := List.mem_map.mp <|
    @fromEnd_mem K _ (closes window) 0 (by rw [length_closes]; exact List.length_pos_of_ne_nil hne)
  rw [← hclose]
  exact ⟨(lowest_le (List.mem_map_of_mem hb)).trans (hbars b hb).low_le_close,
    (hbars b hb).close_le_high.trans (le_highest (List.mem_map_of_mem hb))⟩

theorem reach_ordered {frame : Frame K} (hbars : ∀ b ∈ frame, b.Ordered) :
    ∀ r ∈ reach frame, r.1 ≤ r.2.2 ∧ r.2.2 ≤ r.2.1 :=
  forall_mem_overPrevious (fun b hb => ⟨(hbars b hb).low_le_close, (hbars b hb).close_le_high⟩)
    fun _ _ b hb => ⟨(min_le_left ..).trans (hbars b hb).low_le_close,
      (hbars b hb).close_le_high.trans (le_max_left ..)⟩

theorem gains_nonneg (deltas : List K) : ∀ x ∈ gains deltas, 0 ≤ x := fun _ hx => by
  obtain ⟨d, -, rfl⟩ := List.mem_map.mp hx
  exact le_max_right d 0

section
variable [IsStrictOrderedRing K] {frame : Frame K} {params : Params} {v : K}

theorem typical_pos (b : Bar K) : 0 < typical b := by
  have := b.high_pos
  have := b.low_pos
  have := b.close_pos
  rw [typical]
  positivity

/-! ## Gains and losses -/

/-- The index that gains and losses make, whatever they are. -/
theorem index_mem {a b : K} (ha : 0 ≤ a) (hb : 0 < b) :
    100 - 100 / (1 + a / b) ∈ Icc (0 : K) 100 := by
  have hone : 1 ≤ 1 + a / b := le_add_of_nonneg_right (div_nonneg ha hb.le)
  have hle : 100 / (1 + a / b) ≤ 100 := div_le_self (by norm_num) hone
  have hpos : 0 < 100 / (1 + a / b) := by positivity
  exact ⟨by linarith, by linarith⟩

theorem losses_nonneg (deltas : List K) : ∀ x ∈ losses deltas, 0 ≤ x := fun _ hx => by
  obtain ⟨d, -, rfl⟩ := List.mem_map.mp hx
  exact neg_nonneg.mpr (min_le_right d 0)

theorem rsi_mem (h : rsi frame params = .ok (some v)) : v ∈ Icc (0 : K) 100 := by
  simp only [rsi, bind_eq_ok, require_eq_ok] at h
  obtain ⟨period, hp, -, ⟨hlen, rfl⟩, h⟩ := h
  have hp2 := two_le_period hp
  have hgains : gains (diffs (closes frame)) ≠ [] := by
    rw [← List.length_pos_iff, gains, List.length_map, length_diffs]
    omega
  have hgain : wilder period (gains (diffs (closes frame))) ∈ Ici (0 : K) :=
    wilder_mem (by omega) hgains (gains_nonneg _)
  split at h
  next => rw [← Option.some.inj (pure_eq_ok.mp h)]; norm_num
  next hloss =>
    rw [← Option.some.inj (pure_eq_ok.mp h)]
    exact index_mem hgain (not_le.mp hloss)

theorem mfi_mem (h : mfi frame params = .ok (some v)) : v ∈ Icc (0 : K) 100 := by
  simp only [mfi, bind_eq_ok, requireRows_eq_ok] at h
  obtain ⟨period, hp, -, hrows, h⟩ := h
  have hpositive : 0 ≤ ((overPrevious (fun _ => 0) (fun prev b =>
      if typical b - typical prev > 0 then typical b * b.volume else 0) frame).rtake period).sum :=
    List.sum_nonneg fun x hx => forall_mem_overPrevious (fun _ _ => le_rfl) (fun prev _ b _ => by
      split
      · exact mul_nonneg (typical_pos b).le b.volume_nonneg
      · exact le_rfl) x (mem_of_mem_rtake hx)
  split at h
  next => rw [← Option.some.inj (pure_eq_ok.mp h)]; norm_num
  next hnegative =>
    rw [← Option.some.inj (pure_eq_ok.mp h)]
    exact index_mem hpositive (not_le.mp hnegative)

/-- Gains less losses are within gains and losses. -/
theorem cmo_mem (h : cmo frame params = .ok (some v)) : v ∈ Icc (-100 : K) 100 := by
  simp only [cmo, bind_eq_ok, require_eq_ok] at h
  obtain ⟨period, hp, -, ⟨hlen, rfl⟩, h⟩ := h
  have hgains := List.sum_nonneg (gains_nonneg ((diffs (closes frame)).rtake period))
  have hlosses := List.sum_nonneg (losses_nonneg ((diffs (closes frame)).rtake period))
  rw [← Option.some.inj (pure_eq_ok.mp h)]
  split
  next => norm_num
  next hne =>
    have hpos := lt_of_le_of_ne (add_nonneg hgains hlosses) (Ne.symm hne)
    rw [mem_Icc, le_div_iff₀ hpos, div_le_iff₀ hpos]
    constructor <;> linarith

/-! ## The close between the extremes -/

/-- A place between two bounds in percent. -/
theorem percent_mem {x lo hi : K} (hx : x ∈ Icc lo hi) (hlt : lo < hi) :
    100 * (x - lo) / (hi - lo) ∈ Icc (0 : K) 100 := by
  obtain ⟨hlo, hhi⟩ := hx
  rw [mem_Icc, le_div_iff₀ (sub_pos.mpr hlt), div_le_iff₀ (sub_pos.mpr hlt)]
  constructor <;> linarith

theorem rawK_mem {window : List (Bar K)} (hne : window ≠ []) (hbars : ∀ b ∈ window, b.Ordered)
    {x : K} (h : rawK window = some x) : x ∈ Icc (0 : K) 100 := by
  have hclose := close_mem hne hbars
  unfold rawK at h
  dsimp only at h
  split at h
  next => cases h
  next hflat =>
    obtain rfl := Option.some.inj h
    refine percent_mem hclose (lt_of_le_of_ne (hclose.1.trans hclose.2) fun heq => hflat ?_)
    rw [heq, sub_self]

theorem rollingMean_mem {n : ℕ} (hn : n ≠ 0) {values : List (Option K)} {S : Set K}
    [S.OrdConnected] (hvalues : ∀ x, some x ∈ values → x ∈ S) :
    ∀ x, some x ∈ rollingMean n values → x ∈ S := by
  intro x hx
  obtain ⟨window, hwindow, hmean⟩ := List.mem_map.mp hx
  have hlen := length_of_mem_rolling hwindow
  exact meanAll_mem (List.ne_nil_of_length_pos (by omega)) hmean fun y hy =>
    hvalues y (subset_of_mem_rolling hwindow hy)

theorem stochastic_mem (hbars : ∀ b ∈ frame, b.Ordered)
    (h : stochastic frame params = .ok (some v)) : v ∈ Icc (0 : K) 100 := by
  simp only [stochastic, bind_eq_ok, requireRows_eq_ok] at h
  obtain ⟨period, hp, smoothK, hk, smoothD, hd, -, hrows, output, -, h⟩ := h
  have hp2 := two_le_period hp
  have hk1 := le_intParam (m := 1) hk
  have hd1 := le_intParam (m := 1) hd
  have hraw : ∀ x, some x ∈ (rolling period frame).map rawK → x ∈ Icc (0 : K) 100 := by
    intro x hx
    obtain ⟨window, hwindow, hx⟩ := List.mem_map.mp hx
    have hlen := length_of_mem_rolling hwindow
    exact rawK_mem (List.ne_nil_of_length_pos (by omega))
      (fun b hb => hbars b (subset_of_mem_rolling hwindow hb)) hx
  have hkMem := rollingMean_mem (by omega : smoothK ≠ 0) hraw
  have hdMem := rollingMean_mem (by omega : smoothD ≠ 0) hkMem
  split at h
  next => cases h
  next value hvalue =>
    obtain rfl := Option.some.inj (pure_eq_ok.mp h)
    split at hvalue
    · exact hdMem _ (mem_of_getLastD hvalue)
    · exact hkMem _ (mem_of_getLastD hvalue)

theorem rsv_mem {window : List (Bar K)} (hne : window ≠ []) (hbars : ∀ b ∈ window, b.Ordered) :
    rsv window ∈ Icc (0 : K) 100 := by
  have hclose := close_mem hne hbars
  unfold rsv
  dsimp only
  split
  next => norm_num
  next hlt =>
    have hmem := percent_mem hclose (not_le.mp hlt)
    rwa [mul_comm, ← mul_div_assoc]

theorem kdj_mem (hbars : ∀ b ∈ frame, b.Ordered) (hj : choice params [.k, .d, .j] .j ≠ .ok .j)
    (h : kdj frame params = .ok (some v)) : v ∈ Icc (0 : K) 100 := by
  simp only [kdj, bind_eq_ok, requireRows_eq_ok] at h
  obtain ⟨period, hp, kPeriod, hk, dPeriod, hd, -, hrows, output, hout, h⟩ := h
  have hp2 := two_le_period hp
  have hk1 := le_intParam (m := 1) hk
  have hd1 := le_intParam (m := 1) hd
  have hvalues : kdValues frame period kPeriod dPeriod ∈ Icc (0 : K) 100 ×ˢ Icc (0 : K) 100 := by
    refine foldl_mem (fun s hs window hwindow => ?_) (by constructor <;> norm_num)
    have hlen := length_of_mem_rolling hwindow
    have hrsv := rsv_mem (List.ne_nil_of_length_pos (by omega)) fun b hb =>
      hbars b (subset_of_mem_rolling hwindow hb)
    have hkValue : ((kPeriod - 1) * s.1 + rsv window) / kPeriod ∈ Icc (0 : K) 100 := by
      rw [mul_comm]
      exact wilderStep_mem (by omega) hs.1 hrsv
    refine ⟨hkValue, ?_⟩
    dsimp only
    rw [mul_comm]
    exact wilderStep_mem (by omega) hs.2 hkValue
  split at h
  next => rw [← Option.some.inj (pure_eq_ok.mp h)]; exact hvalues.1
  next => rw [← Option.some.inj (pure_eq_ok.mp h)]; exact hvalues.2
  next hnk hnd =>
    rcases List.mem_cons.mp (choice_mem hout) with rfl | hmem
    · exact absurd rfl hnk
    rcases List.mem_cons.mp hmem with rfl | hmem
    · exact absurd rfl hnd
    rw [List.mem_singleton.mp hmem] at hout
    exact absurd hout hj

theorem williamsR_mem (hbars : ∀ b ∈ frame, b.Ordered)
    (h : williamsR frame params = .ok (some v)) : v ∈ Icc (-100 : K) 0 := by
  simp only [williamsR, bind_eq_ok, requireRows_eq_ok] at h
  obtain ⟨period, hp, -, hrows, h⟩ := h
  have hp2 := two_le_period hp
  have hne : frame.rtake period ≠ [] := by
    rw [← List.length_pos_iff, length_rtake]
    omega
  have hclose := close_mem hne fun b hb => hbars b (mem_of_mem_rtake hb)
  rw [closes, highs, lows, ← rtake_map, ← rtake_map, ← rtake_map, fromEnd_rtake (by omega)]
    at hclose
  rw [← Option.some.inj (pure_eq_ok.mp h)]
  split
  next => norm_num
  next hlt =>
    obtain ⟨hlo, hhi⟩ := hclose
    have hpos := sub_pos.mpr (not_le.mp hlt)
    rw [mem_Icc, le_div_iff₀ hpos, div_le_iff₀ hpos]
    rw [← closes] at hlo hhi
    rw [← lows] at hlo
    rw [← highs] at hhi
    constructor <;> linarith

/-! ## Sums against the sums of their sizes -/

theorem tsi_mem (h : tsi frame params = .ok (some v)) : v ∈ Icc (-100 : K) 100 := by
  simp only [tsi, bind_eq_ok, require_eq_ok, emaValues_eq_ok] at h
  obtain ⟨slow, hslow, fast, hfast, -, ⟨hlen, rfl⟩, -, ⟨-, rfl⟩, -, ⟨-, rfl⟩, -, ⟨-, rfl⟩, -,
    ⟨-, rfl⟩, h⟩ := h
  have hslow2 := le_intParam (m := 2) hslow
  have hfast2 := le_intParam (m := 2) hfast
  have hsizes : ∀ l : List K, List.Forall₂ (fun x y => |x| ≤ y) l (l.map abs) := fun l =>
    List.forall₂_map_right_iff.mpr (List.forall₂_same.mpr fun _ _ => le_rfl)
  have habs := abs_ema_le (by omega : fast ≠ 0)
    (abs_ema_le (by omega : slow ≠ 0) (hsizes (diffs (closes frame))))
  have hlast := abs_fromEnd_le habs 0
  rw [← Option.some.inj (pure_eq_ok.mp h)]
  split
  next => norm_num
  next hne =>
    obtain ⟨hlo, hhi⟩ := abs_le.mp hlast
    have hpos := lt_of_le_of_ne ((abs_nonneg _).trans hlast) (Ne.symm hne)
    rw [mem_Icc, le_div_iff₀ hpos, div_le_iff₀ hpos]
    constructor <;> linarith

theorem moneyFlow_mem {b : Bar K} (hb : b.Ordered) : moneyFlow b ∈ Icc (-1 : K) 1 := by
  have hlow := hb.low_le_close
  have hhigh := hb.close_le_high
  unfold moneyFlow
  split
  next => norm_num
  next hne =>
    have hpos := lt_of_le_of_ne (sub_nonneg.mpr (hlow.trans hhigh)) (Ne.symm hne)
    rw [mem_Icc, le_div_iff₀ hpos, div_le_iff₀ hpos]
    constructor <;> linarith

/-- Volume that counts in part is within the volume. -/
theorem abs_moneyFlow_sum_le {window : List (Bar K)} (hbars : ∀ b ∈ window, b.Ordered) :
    |(window.map fun b => moneyFlow b * b.volume).sum| ≤ (volumes window).sum := by
  refine abs_sum_le (List.forall₂_map_right_iff.mpr (List.forall₂_map_left_iff.mpr ?_))
  refine List.forall₂_same.mpr fun b hb => ?_
  rw [abs_mul, abs_of_nonneg b.volume_nonneg]
  exact mul_le_of_le_one_left b.volume_nonneg (abs_le.mpr (moneyFlow_mem (hbars b hb)))

theorem cmf_mem (hbars : ∀ b ∈ frame, b.Ordered) (h : cmf frame params = .ok (some v)) :
    v ∈ Icc (-1 : K) 1 := by
  simp only [cmf, bind_eq_ok, requireRows_eq_ok] at h
  obtain ⟨period, hp, -, hrows, h⟩ := h
  have hflow := abs_moneyFlow_sum_le fun b hb => hbars b (@mem_of_mem_rtake _ period _ _ hb)
  rw [← Option.some.inj (pure_eq_ok.mp h)]
  split
  next => norm_num
  next hne =>
    obtain ⟨hlo, hhi⟩ := abs_le.mp hflow
    have hpos := lt_of_le_of_ne ((abs_nonneg _).trans hflow) (Ne.symm hne)
    rw [mem_Icc, le_div_iff₀ hpos, div_le_iff₀ hpos]
    constructor <;> linarith

/-! ## Pressure -/

theorem pressure_mem (hbars : ∀ b ∈ frame, b.Ordered) (length : ℕ) :
    pressure frame length ∈ Icc (0 : K) 1 := by
  have hreach : ∀ r ∈ (reach frame).rtake length, r.1 ≤ r.2.2 ∧ r.2.2 ≤ r.2.1 := fun r hr =>
    reach_ordered hbars r (mem_of_mem_rtake hr)
  have hnonneg : 0 ≤ (((reach frame).rtake length).map fun r => r.2.2 - r.1).sum :=
    List.sum_nonneg fun x hx => by
      obtain ⟨r, hr, rfl⟩ := List.mem_map.mp hx
      exact sub_nonneg.mpr (hreach r hr).1
  have hle : (((reach frame).rtake length).map fun r => r.2.2 - r.1).sum ≤
      (((reach frame).rtake length).map fun r => r.2.1 - r.1).sum :=
    List.sum_le_sum fun r hr => sub_le_sub_right (hreach r hr).2 _
  unfold pressure
  dsimp only
  split
  next => norm_num
  next hne =>
    have hpos := lt_of_le_of_ne (hnonneg.trans hle) (Ne.symm hne)
    exact ⟨div_nonneg hnonneg hpos.le, (div_le_one hpos).mpr hle⟩

theorem ultimateOscillator_mem (hbars : ∀ b ∈ frame, b.Ordered)
    (h : ultimateOscillator frame params = .ok (some v)) : v ∈ Icc (0 : K) 100 := by
  simp only [ultimateOscillator, bind_eq_ok] at h
  obtain ⟨fast, -, medium, -, slow, -, h⟩ := h
  split at h
  next =>
    obtain ⟨-, -, h⟩ := bind_eq_ok.mp h
    rw [← Option.some.inj (pure_eq_ok.mp h)]
    obtain ⟨hf0, hf1⟩ := pressure_mem hbars fast
    obtain ⟨hm0, hm1⟩ := pressure_mem hbars medium
    obtain ⟨hs0, hs1⟩ := pressure_mem hbars slow
    rw [mem_Icc, le_div_iff₀ (by norm_num), div_le_iff₀ (by norm_num)]
    constructor <;> linarith
  next => cases h

end

end AlgoTrade.Factors
