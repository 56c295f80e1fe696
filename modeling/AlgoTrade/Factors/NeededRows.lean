import AlgoTrade.Factors.Registry

/-! # The rows a factor needs

With parameters that can be read a factor has a value from a number of rows on, and never
before. -/

namespace AlgoTrade.Factors

open Series

variable {K : Type} [Field K] [LinearOrder K]

/-- High above low and some volume, on every bar. -/
def Sound (frame : Frame K) : Prop := ∀ b ∈ frame, b.low < b.high ∧ 0 < b.volume

/-- No value before a number of rows, and one on every sound frame from there on. -/
structure Fits (compute : Frame K → Except FactorError (Option K)) (rows : ℕ) : Prop where
  short : ∀ {frame}, frame ≠ [] → frame.length < rows → ∃ e, compute frame = .error e
  value : ∀ {frame}, Sound frame → frame ≠ [] → rows ≤ frame.length →
    ∃ v, compute frame = .ok (some v)

theorem Fits.iff {compute : Frame K → Except FactorError (Option K)} {rows : ℕ}
    (h : Fits compute rows) {frame : Frame K} (hsound : Sound frame) (hne : frame ≠ []) :
    (∃ v, compute frame = .ok (some v)) ↔ rows ≤ frame.length := by
  refine ⟨fun ⟨v, hv⟩ => ?_, h.value hsound hne⟩
  by_contra hlt
  obtain ⟨e, he⟩ := h.short hne (not_le.mp hlt)
  rw [hv] at he
  cases he

section
variable {params : Params} {p : ℕ}

/-! ## Trend -/

theorem sma_fits (hp : period params = .ok p) :
    Fits (fun frame : Frame K => sma frame params) p where
  short _ hlt := by simp [sma, smaLast, hp, require_closes_of_lt hlt]
  value _ _ hle := by simp [sma, smaLast, hp, require_closes_of_le hle]

theorem ema_fits (hp : period params = .ok p) :
    Fits (fun frame : Frame K => ema frame params) p where
  short _ hlt := by simp [ema, emaLast, emaValues, hp, hlt]
  value _ _ hle := by simp [ema, emaLast, emaValues, hp, not_lt.mpr hle]

theorem macd_fits {fast slow signal : ℕ} {output : Output}
    (hfast : intParam params "fast_period" 2 = .ok fast)
    (hslow : intParam params "slow_period" 2 = .ok slow)
    (hsignal : intParam params "signal_period" 2 = .ok signal) (hlt : fast < slow)
    (hout : choice params [.line, .signal, .histogram] .histogram = .ok output) :
    Fits (fun frame : Frame K => macd frame params) (slow + signal - 1) where
  short _ hshort := by simp [macd, hfast, hslow, hsignal, hlt.not_ge, require_closes_of_lt hshort]
  value {frame} _ _ hle := by
    have hsignal2 := le_intParam (m := 2) hsignal
    have hline : (((Series.ema fast (closes frame)).rtake
        (Series.ema slow (closes frame)).length).zipWith (· - ·)
        (Series.ema slow (closes frame))).length = frame.length - slow + 1 := by
      simp
      omega
    simp only [macd, hfast, hslow, hsignal, ok_bind, if_neg (not_le.mpr hlt), hout]
    rw [require_of_le (by simpa using hle), ok_bind, emaValues_of_le (by simp; omega), ok_bind,
      emaValues_of_le (by simp; omega), ok_bind, emaValues_of_le (by rw [hline]; omega), ok_bind]
    split <;> exact ⟨_, rfl⟩

theorem dema_fits (hp : period params = .ok p) :
    Fits (fun frame : Frame K => dema frame params) (2 * p - 1) where
  short {frame} _ hlt := by
    simp only [dema, hp, ok_bind]
    rcases lt_or_ge frame.length p with h | h
    · rw [emaValues_of_lt (by simpa using h), error_bind]
      exact ⟨_, rfl⟩
    · rw [emaValues_of_le (by simpa using h), ok_bind, emaValues_of_lt (by simp; omega), error_bind]
      exact ⟨_, rfl⟩
  value {frame} _ _ hle := by
    have hp2 := two_le_period hp
    simp only [dema, hp, ok_bind]
    rw [emaValues_of_le (by simp; omega), ok_bind, emaValues_of_le (by simp; omega), ok_bind]
    exact ⟨_, rfl⟩

theorem tema_fits (hp : period params = .ok p) :
    Fits (fun frame : Frame K => tema frame params) (3 * p - 2) where
  short {frame} _ hlt := by
    simp only [tema, hp, ok_bind]
    rcases lt_or_ge frame.length p with h | h
    · rw [emaValues_of_lt (by simpa using h), error_bind]
      exact ⟨_, rfl⟩
    rw [emaValues_of_le (by simpa using h), ok_bind]
    rcases lt_or_ge (frame.length - p + 1) p with h' | h'
    · rw [emaValues_of_lt (by simpa using h'), error_bind]
      exact ⟨_, rfl⟩
    · rw [emaValues_of_le (by simpa using h'), ok_bind, emaValues_of_lt (by simp; omega),
        error_bind]
      exact ⟨_, rfl⟩
  value {frame} _ _ hle := by
    have hp2 := two_le_period hp
    simp only [tema, hp, ok_bind]
    rw [emaValues_of_le (by simp; omega), ok_bind, emaValues_of_le (by simp; omega), ok_bind,
      emaValues_of_le (by simp; omega), ok_bind]
    exact ⟨_, rfl⟩

theorem zlema_fits (hp : period params = .ok p) :
    Fits (fun frame : Frame K => zlema frame params) (p + max 1 ((p - 1) / 2)) where
  short _ hlt := by simp [zlema, hp, require_closes_of_lt hlt]
  value {frame} _ _ hle := by
    simp only [zlema, hp, ok_bind]
    rw [require_of_le (by simpa using hle), ok_bind, emaLast_of_le (by simp; omega), map_ok]
    exact ⟨_, rfl⟩

theorem hma_fits (hp : period params = .ok p) :
    Fits (fun frame : Frame K => hma frame params) (p + max 1 p.sqrt) where
  short _ hlt := by simp [hma, hp, require_closes_of_lt hlt]
  value {frame} _ _ hle := by
    have hp2 := two_le_period hp
    have hraw : ((((rolling (max 1 (p / 2)) (closes frame)).map weightedMean).rtake
        ((rolling p (closes frame)).map weightedMean).length).zipWith (fun h f => 2 * h - f)
        ((rolling p (closes frame)).map weightedMean)).length = frame.length + 1 - p := by
      simp
      omega
    simp only [hma, hp, ok_bind]
    rw [require_of_le (by simpa using hle), ok_bind, wmaValues_of_le (by simp; omega), ok_bind,
      wmaValues_of_le (by simp; omega), ok_bind, wmaValues_of_le (by rw [hraw]; omega), ok_bind]
    exact ⟨_, rfl⟩

theorem efficiencyRatio_fits (hp : period params = .ok p) :
    Fits (fun frame : Frame K => efficiencyRatio frame params) (p + 1) where
  short _ hlt := by simp [efficiencyRatio, hp, require_closes_of_lt hlt]
  value _ _ hle := by simp [efficiencyRatio, hp, require_closes_of_le hle]

theorem kama_fits {fast slow : ℕ} (hp : period params = .ok p)
    (hfast : intParam params "fast_period" 1 = .ok fast)
    (hslow : intParam params "slow_period" 2 = .ok slow) (hlt : fast < slow) :
    Fits (fun frame : Frame K => kama frame params) (p + 1) where
  short _ hshort := by simp [kama, hp, hfast, hslow, hlt.not_ge, require_closes_of_lt hshort]
  value _ _ hle := by simp [kama, hp, hfast, hslow, hlt.not_ge, require_closes_of_le hle]

theorem adx_fits {output : Output} (hp : period params = .ok p)
    (hout : choice params [.adx, .plusDi, .minusDi] .adx = .ok output) :
    Fits (fun frame : Frame K => adx frame params) (p + 1) where
  short _ hlt := by simp [adx, adxComponents, hp, requireRows_of_lt hlt]
  value {frame} _ _ hle := by
    have hmoves : ¬(frame.zipWith movement frame.tail).length < p := by
      rw [List.length_zipWith, List.length_tail]
      omega
    simp only [adx, adxComponents, hp, ok_bind, requireRows_of_le hle,
      if_neg hmoves, pure_eq, hout]
    split <;> exact ⟨_, rfl⟩

theorem aroon_fits {output : Output} (hp : period params = .ok p)
    (hout : choice params [.up, .down, .oscillator] .oscillator = .ok output) :
    Fits (fun frame : Frame K => aroon frame params) p where
  short _ hlt := by simp [aroon, hp, requireRows_of_lt hlt]
  value _ _ hle := by
    simp only [aroon, hp, ok_bind, requireRows_of_le hle, hout]
    split <;> exact ⟨_, rfl⟩

theorem supertrend_fits {multiplier : ℚ} {output : Output} (hp : period params = .ok p)
    (hmult : positiveFloat params "multiplier" 3 = .ok multiplier)
    (hout : choice params [.direction, .line] .direction = .ok output) :
    Fits (fun frame : Frame K => supertrend frame params) (p + 1) where
  short _ hlt := by simp [supertrend, hp, hmult, requireRows_of_lt hlt]
  value {frame} _ _ hle := by
    simp only [supertrend, hp, hmult, ok_bind, requireRows_of_le hle, hout]
    split
    next => split <;> exact ⟨_, rfl⟩
    next hnone =>
      have hbars : frame.drop (p - 1) ≠ [] := by
        rw [← List.length_pos_iff, List.length_drop]
        omega
      obtain ⟨b, bars, hb⟩ := List.exists_cons_of_ne_nil hbars
      have hatr : ((trueRange frame).drop p).scanl (wilderStep p)
          (mean ((trueRange frame).take p)) ≠ [] := List.scanl_ne_nil
      obtain ⟨r, averages, hr⟩ := List.exists_cons_of_ne_nil hatr
      exact absurd hr (hnone b bars r averages hb)

/-! ## Momentum -/

theorem return_fits (hp : period params = .ok p) :
    Fits (fun frame : Frame K => return_ frame params) (p + 1) where
  short _ hlt := by simp [return_, hp, Nat.lt_succ_iff.mp hlt]
  value _ _ hle := by simp [return_, hp, Nat.not_le.mpr (Nat.lt_of_succ_le hle)]

theorem rsi_fits (hp : period params = .ok p) :
    Fits (fun frame : Frame K => rsi frame params) (p + 1) where
  short _ hlt := by simp [rsi, hp, require_closes_of_lt hlt]
  value _ _ hle := by
    simp only [rsi, hp, ok_bind, require_closes_of_le hle]
    split <;> exact ⟨_, rfl⟩

theorem kdj_fits {kPeriod dPeriod : ℕ} {output : Output} (hp : period params = .ok p)
    (hk : intParam params "k_period" 1 = .ok kPeriod)
    (hd : intParam params "d_period" 1 = .ok dPeriod)
    (hout : choice params [.k, .d, .j] .j = .ok output) :
    Fits (fun frame : Frame K => kdj frame params) p where
  short _ hlt := by simp [kdj, hp, hk, hd, requireRows_of_lt hlt]
  value _ _ hle := by
    simp only [kdj, hp, hk, hd, ok_bind, requireRows_of_le hle, hout]
    split <;> exact ⟨_, rfl⟩

theorem cci_fits (hp : period params = .ok p) :
    Fits (fun frame : Frame K => cci frame params) p where
  short _ hlt := by simp [cci, require, hp, hlt]
  value _ _ hle := by simp [cci, require, hp, not_lt.mpr hle]

theorem williamsR_fits (hp : period params = .ok p) :
    Fits (fun frame : Frame K => williamsR frame params) p where
  short _ hlt := by simp [williamsR, hp, requireRows_of_lt hlt]
  value _ _ hle := by simp [williamsR, hp, requireRows_of_le hle]

theorem cmo_fits (hp : period params = .ok p) :
    Fits (fun frame : Frame K => cmo frame params) (p + 1) where
  short _ hlt := by simp [cmo, hp, require_closes_of_lt hlt]
  value _ _ hle := by simp [cmo, hp, require_closes_of_le hle]

theorem awesomeOscillator_fits {fast slow : ℕ}
    (hfast : intParam params "fast_period" 2 = .ok fast)
    (hslow : intParam params "slow_period" 2 = .ok slow) (hlt : fast < slow) :
    Fits (fun frame : Frame K => awesomeOscillator frame params) slow where
  short _ hshort := by simp [awesomeOscillator, require, hfast, hslow, hlt.not_ge, hshort]
  value _ _ hle := by
    simp [awesomeOscillator, require, hfast, hslow, hlt.not_ge, not_lt.mpr hle]

theorem ultimateOscillator_fits {fast medium slow : ℕ}
    (hfast : intParam params "fast_period" 2 = .ok fast)
    (hmedium : intParam params "medium_period" 2 = .ok medium)
    (hslow : intParam params "slow_period" 2 = .ok slow) (hlt : fast < medium ∧ medium < slow) :
    Fits (fun frame : Frame K => ultimateOscillator frame params) (slow + 1) where
  short _ hshort := by
    simp [ultimateOscillator, hfast, hmedium, hslow, hlt, requireRows_of_lt hshort]
  value _ _ hle := by
    simp [ultimateOscillator, hfast, hmedium, hslow, hlt, requireRows_of_le hle]

theorem tsi_fits {fast slow : ℕ} (hslow : intParam params "slow_period" 2 = .ok slow)
    (hfast : intParam params "fast_period" 2 = .ok fast) :
    Fits (fun frame : Frame K => tsi frame params) (slow + fast + 1) where
  short _ hlt := by simp [tsi, hslow, hfast, require_closes_of_lt hlt]
  value {frame} _ _ hle := by
    have hfast2 := le_intParam (m := 2) hfast
    simp only [tsi, hslow, hfast, ok_bind]
    rw [require_of_le (by simpa using hle), ok_bind, emaValues_of_le (by simp; omega), ok_bind,
      emaValues_of_le (by simp; omega), ok_bind, emaValues_of_le (by simp; omega), ok_bind,
      emaValues_of_le (by simp; omega), ok_bind]
    exact ⟨_, rfl⟩

theorem elderRay_fits {output : Output} (hp : period params = .ok p)
    (hout : choice params [.bull, .bear] .bull = .ok output) :
    Fits (fun frame : Frame K => elderRay frame params) p where
  short _ hlt := by simp [elderRay, emaLast, emaValues, hp, hlt]
  value _ _ hle := by simp [elderRay, emaLast, emaValues, hp, hout, not_lt.mpr hle]

/-! ## Volatility -/

section
variable {math : Analysis K}

theorem atr_fits (hp : period params = .ok p) :
    Fits (fun frame : Frame K => atr frame params) p where
  short _ hlt := by simp [atr, atrLast, wilderLast, require, hp, hlt]
  value _ _ hle := by simp [atr, atrLast, wilderLast, require, hp, not_lt.mpr hle]

theorem realizedVolatility_fits (hp : period params = .ok p) :
    Fits (fun frame : Frame K => realizedVolatility math frame params) (p + 1) where
  short {frame} _ hlt := by
    have hp2 := two_le_period hp
    have hreturns : (returns (closes frame)).length < p := by simp; omega
    simp only [realizedVolatility, hp, ok_bind, if_pos hreturns]
    exact ⟨_, rfl⟩
  value {frame} _ _ hle := by
    have hreturns : ¬(returns (closes frame)).length < p := by simp; omega
    simp only [realizedVolatility, hp, ok_bind, if_neg hreturns]
    exact ⟨_, rfl⟩

theorem downsideVolatility_fits (hp : period params = .ok p) :
    Fits (fun frame : Frame K => downsideVolatility math frame params) (p + 1) where
  short _ hlt := by simp [downsideVolatility, hp, require_closes_of_lt hlt]
  value _ _ hle := by simp [downsideVolatility, hp, require_closes_of_le hle]

theorem maxDrawdown_fits (hp : period params = .ok p) :
    Fits (fun frame : Frame K => maxDrawdown frame params) p where
  short _ hlt := by simp [maxDrawdown, hp, require_closes_of_lt hlt]
  value _ _ hle := by simp [maxDrawdown, hp, require_closes_of_le hle]

theorem donchian_fits {output : Output} (hp : period params = .ok p)
    (hout : choice params [.upper, .middle, .lower, .position] .position = .ok output) :
    Fits (fun frame : Frame K => donchian frame params) p where
  short _ hlt := by simp [donchian, hp, requireRows_of_lt hlt]
  value _ _ hle := by
    simp only [donchian, hp, ok_bind, requireRows_of_le hle, hout]
    split <;> exact ⟨_, rfl⟩

theorem keltner_fits {atrPeriod : ℕ} {multiplier : ℚ} {output : Output}
    (hp : period params = .ok p) (hatr : intParam params "atr_period" 2 = .ok atrPeriod)
    (hmult : positiveFloat params "multiplier" 2 = .ok multiplier)
    (hout : choice params [.upper, .middle, .lower, .position] .position = .ok output) :
    Fits (fun frame : Frame K => keltner frame params) (max p atrPeriod) where
  short {frame} _ hlt := by
    simp only [keltner, hp, hatr, hmult, ok_bind, emaLast, atrLast, wilderLast]
    rcases lt_or_ge frame.length p with h | h
    · rw [emaValues_of_lt (by simpa using h)]
      exact ⟨_, rfl⟩
    · have hshort : frame.length < atrPeriod := by omega
      rw [emaValues_of_le (by simpa using h)]
      simp [require, hshort]
  value {frame} _ _ hle := by
    simp only [keltner, hp, hatr, hmult, ok_bind, atrLast, wilderLast, hout]
    rw [emaLast_of_le (by simp; omega), ok_bind, require_of_le (by simp; omega), map_ok, ok_bind]
    split <;> exact ⟨_, rfl⟩

theorem ulcerIndex_fits (hp : period params = .ok p) :
    Fits (fun frame : Frame K => ulcerIndex math frame params) p where
  short _ hlt := by simp [ulcerIndex, hp, require_closes_of_lt hlt]
  value _ _ hle := by simp [ulcerIndex, hp, require_closes_of_le hle]

theorem parkinsonVolatility_fits (hp : period params = .ok p) :
    Fits (fun frame : Frame K => parkinsonVolatility math frame params) p where
  short _ hlt := by simp [parkinsonVolatility, hp, requireRows_of_lt hlt]
  value _ _ hle := by simp [parkinsonVolatility, hp, requireRows_of_le hle]

theorem garmanKlassVolatility_fits (hp : period params = .ok p) :
    Fits (fun frame : Frame K => garmanKlassVolatility math frame params) p where
  short _ hlt := by simp [garmanKlassVolatility, hp, requireRows_of_lt hlt]
  value _ _ hle := by simp [garmanKlassVolatility, hp, requireRows_of_le hle]

/-! ## Volume -/

theorem volumeZscore_fits (hp : period params = .ok p) :
    Fits (fun frame : Frame K => volumeZscore math frame params) p where
  short _ hlt := by simp [volumeZscore, zscoreLast, hp, hlt]
  value _ _ hle := by simp [volumeZscore, zscoreLast, hp, not_lt.mpr hle]

theorem meanReversionZscore_fits (hp : period params = .ok p) :
    Fits (fun frame : Frame K => meanReversionZscore math frame params) p where
  short _ hlt := by simp [meanReversionZscore, zscoreLast, hp, hlt]
  value _ _ hle := by simp [meanReversionZscore, zscoreLast, hp, not_lt.mpr hle]

end

theorem turnover_fits (hp : period params = .ok p) :
    Fits (fun frame : Frame K => turnover frame params) p where
  short _ hlt := by simp [turnover, hp, hlt]
  value _ _ hle := by simp [turnover, hp, not_lt.mpr hle]

theorem mfi_fits (hp : period params = .ok p) :
    Fits (fun frame : Frame K => mfi frame params) (p + 1) where
  short _ hlt := by simp [mfi, hp, requireRows_of_lt hlt]
  value _ _ hle := by
    simp only [mfi, hp, ok_bind, requireRows_of_le hle]
    split <;> exact ⟨_, rfl⟩

/-- The running total is there on the first bar. -/
theorem totalOrSlope_value_fits {series : Frame K → List K} (hp : period params = .ok p)
    (hout : choice params [.value, .slope] .slope = .ok .value) :
    Fits (fun frame : Frame K => totalOrSlope series frame params) 1 where
  short hne hlt := absurd (List.length_pos_of_ne_nil hne) (not_lt.mpr (Nat.lt_one_iff.mp hlt).le)
  value _ _ _ := by simp [totalOrSlope, hp, hout]

theorem totalOrSlope_slope_fits {series : Frame K → List K}
    (hseries : ∀ frame, (series frame).length = frame.length) (hp : period params = .ok p)
    (hout : choice params [.value, .slope] .slope = .ok .slope) :
    Fits (fun frame : Frame K => totalOrSlope series frame params) (p + 1) where
  short _ hlt := by
    simp [totalOrSlope, normalizedSlope, hp, hout, hseries, Nat.lt_succ_iff.mp hlt]
  value _ _ hle := by
    simp [totalOrSlope, normalizedSlope, hp, hout, hseries, Nat.not_le.mpr (Nat.lt_of_succ_le hle)]

theorem chaikin_fits {fast slow : ℕ} (hfast : intParam params "fast_period" 2 = .ok fast)
    (hslow : intParam params "slow_period" 2 = .ok slow) (hlt : fast < slow) :
    Fits (fun frame : Frame K => chaikin frame params) slow where
  short {frame} _ hshort := by
    simp only [chaikin, hfast, hslow, ok_bind, if_neg hlt.not_ge, emaLast]
    rcases lt_or_ge frame.length fast with h | h
    · rw [emaValues_of_lt (by simpa [adSeries] using h)]
      exact ⟨_, rfl⟩
    · rw [emaValues_of_le (by simpa [adSeries] using h), map_ok, ok_bind,
        emaValues_of_lt (by simpa [adSeries] using hshort)]
      exact ⟨_, rfl⟩
  value {frame} _ _ hle := by
    simp only [chaikin, hfast, hslow, ok_bind, if_neg hlt.not_ge]
    rw [emaLast_of_le (by simp [adSeries]; omega), ok_bind,
      emaLast_of_le (by simp [adSeries]; omega), ok_bind]
    exact ⟨_, rfl⟩

theorem cmf_fits (hp : period params = .ok p) :
    Fits (fun frame : Frame K => cmf frame params) p where
  short _ hlt := by simp [cmf, hp, requireRows_of_lt hlt]
  value _ _ hle := by simp [cmf, hp, requireRows_of_le hle]

theorem forceIndex_fits (hp : period params = .ok p) :
    Fits (fun frame : Frame K => forceIndex frame params) (p + 1) where
  short {frame} _ hlt := by
    have hp2 := two_le_period hp
    simp only [forceIndex, hp, ok_bind, emaLast]
    rw [emaValues_of_lt (by simp; omega)]
    exact ⟨_, rfl⟩
  value {frame} _ _ hle := by
    simp only [forceIndex, hp, ok_bind]
    rw [emaLast_of_le (by simp; omega)]
    exact ⟨_, rfl⟩

end

/-! ## Factors that divide -/

theorem closes_pos (frame : Frame K) : ∀ x ∈ closes frame, x ∈ Set.Ioi (0 : K) := fun _ hx => by
  obtain ⟨b, -, rfl⟩ := List.mem_map.mp hx
  exact b.close_pos

theorem Sound.volumes_pos {frame : Frame K} (h : Sound frame) :
    ∀ x ∈ volumes frame, x ∈ Set.Ioi (0 : K) := fun _ hx => by
  obtain ⟨b, hb, rfl⟩ := List.mem_map.mp hx
  exact (h b hb).2

theorem closes_ne_nil {frame : Frame K} (h : frame ≠ []) : closes frame ≠ [] :=
  mt List.map_eq_nil_iff.mp h

theorem atrPct_fits {params : Params} {p : ℕ} (hp : period params = .ok p) :
    Fits (fun frame : Frame K => atrPct frame params) p where
  short {frame} hne hlt := by
    have hpos : 0 < fromEnd (closes frame) 0 :=
      closes_pos frame _ (fromEnd_mem (List.length_pos_of_ne_nil (closes_ne_nil hne)))
    simp [atrPct, atrLast, wilderLast, require, hp, hlt, hpos.ne']
  value {frame} _ hne hle := by
    have hpos : 0 < fromEnd (closes frame) 0 :=
      closes_pos frame _ (fromEnd_mem (List.length_pos_of_ne_nil (closes_ne_nil hne)))
    simp [atrPct, atrLast, wilderLast, require, hp, not_lt.mpr hle, hpos.ne']

section
variable [IsStrictOrderedRing K] {params : Params} {p : ℕ}

/-- An average of positive numbers, at any place, is no zero. -/
theorem fromEnd_ema_pos {values : List K} (hpos : ∀ x ∈ values, x ∈ Set.Ioi (0 : K)) {n back : ℕ}
    (hn : n ≠ 0) (hvalues : values ≠ []) (hback : back < (Series.ema n values).length) :
    0 < fromEnd (Series.ema n values) back :=
  ema_mem hn hvalues hpos _ (fromEnd_mem hback)

theorem mean_rtake_pos {values : List K} (hpos : ∀ x ∈ values, x ∈ Set.Ioi (0 : K)) {n : ℕ}
    (hn : n ≠ 0) (hvalues : values ≠ []) : 0 < mean (values.rtake n) :=
  mean_mem (S := Set.Ioi (0 : K)) (rtake_ne_nil hn hvalues) fun x hx => hpos x (mem_of_mem_rtake hx)

theorem smaDistance_fits (hp : period params = .ok p) :
    Fits (fun frame : Frame K => smaDistance frame params) p where
  short _ hlt := by simp [smaDistance, maDistance, smaLast, hp, require_closes_of_lt hlt]
  value {frame} _ hne hle := by
    have hp2 := two_le_period hp
    have hpos := mean_rtake_pos (closes_pos frame) (by omega : p ≠ 0) (closes_ne_nil hne)
    simp [smaDistance, maDistance, smaLast, hp, require_closes_of_le hle, hpos.ne']

theorem emaDistance_fits (hp : period params = .ok p) :
    Fits (fun frame : Frame K => emaDistance frame params) p where
  short _ hlt := by simp [emaDistance, maDistance, emaLast, emaValues, hp, hlt]
  value {frame} _ hne hle := by
    have hp2 := two_le_period hp
    have hpos := @fromEnd_ema_pos K _ _ _ _ (closes_pos frame) p 0 (by omega)
      (closes_ne_nil hne) (by simp)
    simp [emaDistance, maDistance, emaLast, emaValues, hp, not_lt.mpr hle, hpos.ne']

theorem emaSlope_fits {slopePeriod : ℕ} (hp : period params = .ok p)
    (hslope : intParam params "slope_period" 1 = .ok slopePeriod) :
    Fits (fun frame : Frame K => emaSlope frame params) (p + slopePeriod) where
  short _ hlt := by simp [emaSlope, hp, hslope, require_closes_of_lt hlt]
  value {frame} _ hne hle := by
    have hp2 := two_le_period hp
    have hpos := @fromEnd_ema_pos K _ _ _ _ (closes_pos frame) p slopePeriod (by omega)
      (closes_ne_nil hne) (by simp; omega)
    simp only [emaSlope, hp, hslope, ok_bind]
    rw [require_of_le (by simpa using hle), ok_bind, emaValues_of_le (by simp; omega), ok_bind,
      if_neg hpos.ne']
    exact ⟨_, rfl⟩

theorem trix_fits (hp : period params = .ok p) :
    Fits (fun frame : Frame K => trix frame params) (p * 3 + 1) where
  short _ hlt := by simp [trix, hp, require_closes_of_lt hlt]
  value {frame} _ hne hle := by
    have hp2 := two_le_period hp
    have hfirst := @ema_mem K _ _ _ (Set.Ioi 0) _ (closes frame) p (by omega) (closes_ne_nil hne)
      (closes_pos frame)
    have hsecond := @ema_mem K _ _ _ (Set.Ioi 0) _ _ p (by omega) (ema_ne_nil _ _) hfirst
    have hpos := @fromEnd_ema_pos K _ _ _ _ hsecond p 1 (by omega) (ema_ne_nil _ _) (by simp; omega)
    have hnot : ¬((Series.ema p (Series.ema p (Series.ema p (closes frame)))).length < 2 ∨
        fromEnd (Series.ema p (Series.ema p (Series.ema p (closes frame)))) 1 = 0) :=
      not_or.mpr ⟨by simp; omega, hpos.ne'⟩
    simp only [trix, hp, ok_bind]
    rw [require_of_le (by simpa using hle), ok_bind, emaValues_of_le (by simp; omega), ok_bind,
      emaValues_of_le (by simp; omega), ok_bind, emaValues_of_le (by simp; omega), ok_bind,
      if_neg hnot]
    exact ⟨_, rfl⟩

theorem ppo_fits {fast slow : ℕ} (hfast : intParam params "fast_period" 2 = .ok fast)
    (hslow : intParam params "slow_period" 2 = .ok slow) (hlt : fast < slow) :
    Fits (fun frame : Frame K => ppo frame params) slow where
  short {frame} _ hshort := by
    simp only [ppo, hfast, hslow, ok_bind, if_neg hlt.not_ge, emaLast]
    rcases lt_or_ge frame.length fast with h | h
    · rw [emaValues_of_lt (by simpa using h)]
      exact ⟨_, rfl⟩
    · rw [emaValues_of_le (by simpa using h), map_ok, ok_bind,
        emaValues_of_lt (by simpa using hshort)]
      exact ⟨_, rfl⟩
  value {frame} _ hne hle := by
    have hslow2 := le_intParam (m := 2) hslow
    have hpos := @fromEnd_ema_pos K _ _ _ _ (closes_pos frame) slow 0 (by omega)
      (closes_ne_nil hne) (by simp)
    simp only [ppo, hfast, hslow, ok_bind, if_neg hlt.not_ge]
    rw [emaLast_of_le (by simp; omega), ok_bind, emaLast_of_le (by simpa using hle), ok_bind,
      overNonzero, if_neg hpos.ne']
    exact ⟨_, rfl⟩

theorem bollinger_fits {math : Analysis K} {multiplier : ℚ} {output : Output}
    (hp : period params = .ok p) (hmult : positiveFloat params "stddev" 2 = .ok multiplier)
    (hout : choice params [.upper, .middle, .lower, .bandwidth, .position] .position = .ok output) :
    Fits (fun frame : Frame K => bollinger math frame params) p where
  short _ hlt := by simp [bollinger, hp, hmult, require_closes_of_lt hlt]
  value {frame} _ hne hle := by
    have hp2 := two_le_period hp
    have hpos := mean_rtake_pos (closes_pos frame) (by omega : p ≠ 0) (closes_ne_nil hne)
    simp only [bollinger, hp, hmult, ok_bind, hout]
    rw [require_of_le (by simpa using hle), ok_bind]
    split
    next => exact ⟨_, rfl⟩
    next => exact ⟨_, rfl⟩
    next => exact ⟨_, rfl⟩
    next =>
      rw [overNonzero, if_neg hpos.ne']
      exact ⟨_, rfl⟩
    next => exact ⟨_, rfl⟩

theorem volumeRatio_fits (hp : period params = .ok p) :
    Fits (fun frame : Frame K => volumeRatio frame params) p where
  short _ hlt := by simp [volumeRatio, require, hp, hlt]
  value {frame} hsound hne hle := by
    have hp2 := two_le_period hp
    have hpos := mean_rtake_pos hsound.volumes_pos (by omega : p ≠ 0)
      (mt List.map_eq_nil_iff.mp hne)
    simp only [volumeRatio, hp, ok_bind]
    rw [require_of_le (by simpa using hle), ok_bind, overNonzero, if_neg hpos.ne']
    exact ⟨_, rfl⟩

theorem vwap_fits {output : Output} (hp : period params = .ok p)
    (hout : choice params [.value, .distance] .distance = .ok output) :
    Fits (fun frame : Frame K => vwap frame params) p where
  short _ hlt := by simp [vwap, hp, requireRows_of_lt hlt]
  value {frame} hsound hne hle := by
    have hp2 := two_le_period hp
    have hpos : 0 < (volumes (frame.rtake p)).sum := by
      refine List.sum_pos _ (fun x hx => ?_)
        (mt List.map_eq_nil_iff.mp (rtake_ne_nil (by omega) hne))
      obtain ⟨b, hb, rfl⟩ := List.mem_map.mp hx
      exact (hsound b (mem_of_mem_rtake hb)).2
    simp only [vwap, hp, ok_bind, requireRows_of_le hle, if_neg (not_le.mpr hpos),
      hout]
    split <;> exact ⟨_, rfl⟩

theorem amihudIlliquidity_fits (hp : period params = .ok p) :
    Fits (fun frame : Frame K => amihudIlliquidity frame params) (p + 1) where
  short _ hlt := by simp [amihudIlliquidity, hp, require_closes_of_lt hlt]
  value {frame} hsound hne hle := by
    simp only [amihudIlliquidity, hp, ok_bind]
    rw [require_of_le (by simpa using hle), ok_bind]
    refine (Option.isSome_iff_exists.mp (meanAll_isSome ?_)).imp fun v hv => by rw [hv, pure_eq]
    refine forall_mem_zipWith fun r _ traded htraded => ?_
    obtain ⟨b, hb, rfl⟩ := List.mem_map.mp htraded
    have hpos := mul_pos b.close_pos (hsound b (mem_of_mem_rtake hb)).2
    rw [overNonzero, if_neg hpos.ne', Option.isSome_some]

/-! ## Factors of the range -/

theorem Sound.trueRange_pos {frame : Frame K} (h : Sound frame) :
    ∀ x ∈ trueRange frame, 0 < x :=
  forall_mem_overPrevious (fun b hb => sub_pos.mpr (h b hb).1) fun _ _ b hb =>
    (sub_pos.mpr (h b hb).1).trans_le ((le_max_left ..).trans (le_max_left ..))

theorem Sound.trueRange_sum_pos {frame : Frame K} (h : Sound frame) (hne : frame ≠ [])
    (hp : p ≠ 0) : 0 < ((trueRange frame).rtake p).sum := by
  refine List.sum_pos _ (fun x hx => h.trueRange_pos x (mem_of_mem_rtake hx)) ?_
  refine rtake_ne_nil hp (List.ne_nil_of_length_pos ?_)
  rw [length_trueRange]
  exact List.length_pos_of_ne_nil hne

theorem vortex_fits {output : Output} (hp : period params = .ok p)
    (hout : choice params [.plus, .minus, .oscillator] .oscillator = .ok output) :
    Fits (fun frame : Frame K => vortex frame params) (p + 1) where
  short _ hlt := by simp [vortex, hp, requireRows_of_lt hlt]
  value {frame} hsound hne hle := by
    have hp2 := two_le_period hp
    have hpos := hsound.trueRange_sum_pos hne (by omega : p ≠ 0)
    simp only [vortex, hp, ok_bind, requireRows_of_le hle, if_neg (not_le.mpr hpos),
      hout]
    split <;> exact ⟨_, rfl⟩

/-- With an output it does not have the factor has a value on a frame that does not move only. -/
theorem vortex_never {e : FactorError}
    (hout : choice params [.plus, .minus, .oscillator] .oscillator = .error e) {frame : Frame K}
    (hsound : Sound frame) (v : K) : vortex frame params ≠ .ok (some v) := by
  intro h
  simp only [vortex, bind_eq_ok, requireRows_eq_ok] at h
  obtain ⟨p, hp, _, hrows, h⟩ := h
  have hp2 := two_le_period hp
  have hpos := hsound.trueRange_sum_pos (List.ne_nil_of_length_pos (by omega)) (by omega : p ≠ 0)
  rw [if_neg (not_le.mpr hpos), hout] at h
  cases h

theorem choppiness_fits {math : Analysis K} (hp : period params = .ok p) :
    Fits (fun frame : Frame K => choppiness math frame params) (p + 1) where
  short _ hlt := by simp [choppiness, hp, requireRows_of_lt hlt]
  value {frame} hsound hne hle := by
    have hp2 := two_le_period hp
    have hpos := hsound.trueRange_sum_pos hne (by omega : p ≠ 0)
    simp only [choppiness, hp, ok_bind, requireRows_of_le hle]
    split
    next => exact ⟨_, rfl⟩
    next hrange =>
      rw [if_neg (not_le.mpr (div_pos hpos (not_le.mp hrange)))]
      exact ⟨_, rfl⟩

theorem Sound.rawK_isSome {window : List (Bar K)} (h : Sound window) (hne : window ≠ []) :
    (rawK window).isSome := by
  obtain ⟨b, hb⟩ := List.exists_mem_of_ne_nil window hne
  have hlt : lowest (lows window) < highest (highs window) :=
    (lowest_le (List.mem_map_of_mem hb)).trans_lt
      ((h b hb).1.trans_le (le_highest (List.mem_map_of_mem hb)))
  simp [rawK, (sub_pos.mpr hlt).ne']

theorem stochastic_fits {smoothK smoothD : ℕ} {output : Output} (hp : period params = .ok p)
    (hk : intParam params "smooth_k" 1 = .ok smoothK)
    (hd : intParam params "smooth_d" 1 = .ok smoothD)
    (hout : choice params [.k, .d] .k = .ok output) :
    Fits (fun frame : Frame K => stochastic frame params) (p + smoothK + smoothD - 2) where
  short _ hlt := by simp [stochastic, hp, hk, hd, requireRows_of_lt hlt]
  value {frame} hsound hne hle := by
    have hp2 := two_le_period hp
    have hk1 := le_intParam (m := 1) hk
    have hd1 := le_intParam (m := 1) hd
    have hraw : ∀ x ∈ (rolling p frame).map rawK, x.isSome := fun x hx => by
      obtain ⟨window, hwindow, rfl⟩ := List.mem_map.mp hx
      have hlen := length_of_mem_rolling hwindow
      exact Sound.rawK_isSome (fun b hb => hsound b (subset_of_mem_rolling hwindow hb))
        (List.ne_nil_of_length_pos (by omega))
    have hkSome := @rollingMean_isSome K _ smoothK _ hraw
    have hdSome := @rollingMean_isSome K _ smoothD _ hkSome
    have hlast : (if output = .d then rollingMean smoothD
        (rollingMean smoothK ((rolling p frame).map rawK)) else
        rollingMean smoothK ((rolling p frame).map rawK)) ≠ [] := by
      rw [← List.length_pos_iff]
      split <;> simp <;> omega
    obtain ⟨v, hv⟩ := exists_getLastD hlast (by split <;> assumption)
    simp only [stochastic, hp, hk, hd, ok_bind, requireRows_of_le hle, hout, hv]
    exact ⟨v, rfl⟩

end

end AlgoTrade.Factors
