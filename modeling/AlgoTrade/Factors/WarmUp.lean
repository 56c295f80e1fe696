import AlgoTrade.Factors.NeededRows
import Mathlib.Analysis.SpecialFunctions.Log.Base
import Mathlib.Analysis.SpecialFunctions.Sqrt

/-! # The declared warm-up

The rows a factor declares are set against the rows it needs.

* `intParam_cases`: a factor and its warm-up read a parameter alike, but for their defaults.
* `computeFactor_warmUp_iff`: when the declared rows are enough. -/

namespace AlgoTrade.Factors

open scoped Series

variable {K : Type} [Field K] [LinearOrder K]

/-- A parameter is passed, and it is no zero. -/
def Given (params : Params) (key : String) : Prop := (given params key).isSome = true

/-- When the declared rows are enough. -/
def TechnicalFactor.Suffices (params : Params) : TechnicalFactor → Prop
  -- one row of a difference is missing
  | realizedVolatility | mfi | supertrend | forceIndex | amihudIlliquidity => False
  -- the lag is missing
  | zlema => False
  | keltnerChannels => Given params "period" ∧
      ∀ p atrPeriod, period params = .ok p → intParam params "atr_period" 2 = .ok atrPeriod →
        atrPeriod ≤ p
  | obv | adLine => Given params "period" ∨ choice params [.value, .slope] .slope = .ok .value
  | vortex => Given params "period" ∧
      ∃ output, choice params [.plus, .minus, .oscillator] .oscillator = .ok output
  -- no period of their own, or a row to spare
  | macd | ppo | awesomeOscillator | ultimateOscillator | tsi | chaikinOscillator
  | ulcerIndex => True
  | _ => Given params "period"

section
variable {params : Params} {p len : ℕ}

/-- A factor and its warm-up read the same integer, or each its own default. -/
theorem intParam_cases {key : String} {minimum default q : ℤ} {n : ℕ}
    (hn : intParam params key minimum = .ok n) (hq : intOr params key default = .ok q)
    (hmin : 0 ≤ minimum := by decide) :
    Given params key ∧ q = n ∨ ¬Given params key ∧ (n : ℤ) = minimum ∧ q = default := by
  obtain ⟨value, hvalue, hle, -, rfl⟩ := intParam_eq_ok.mp hn
  unfold intOr at hvalue hq
  unfold Given
  cases hgiven : given params key with
  | none =>
    rw [hgiven] at hvalue hq
    cases hvalue
    cases hq
    exact .inr ⟨by simp, by omega, rfl⟩
  | some v =>
    rw [hgiven] at hvalue hq
    dsimp only at hvalue hq
    rw [hvalue] at hq
    cases hq
    exact .inl ⟨rfl, by omega⟩

/-! ## Shared warm-ups -/

/-- What is declared of a period is enough, but for what is declared of none. -/
theorem declared_rows {rows : ℕ} {declared : ℤ → ℤ} (hp : period params = .ok p)
    (hwarm : (do let q ← intOr params "period" 1; pure (declared q)) = Except.ok (len : ℤ))
    (hrows : 0 < rows) (henough : (rows : ℤ) ≤ declared p)
    (hnone : 0 < declared 1 ∧ (p = 2 → declared 1 < rows)) :
    0 < len ∧ (rows ≤ len ↔ Given params "period") := by
  obtain ⟨q, hq, hw⟩ := bind_eq_ok.mp hwarm
  have hw := pure_eq_ok.mp hw
  rcases intParam_cases hp hq with ⟨hgiven, hqp⟩ | ⟨hgiven, hpm, hqd⟩
  · subst hqp
    exact ⟨by omega, iff_of_true (by omega) hgiven⟩
  · subst hqd
    have hlt := hnone.2 (by omega)
    exact ⟨by omega, iff_of_false (by omega) hgiven⟩

/-- A period of rows is needed and declared. -/
theorem period_rows (hp : period params = .ok p)
    (hwarm : (do let q ← intOr params "period" 1; pure (max 1 q)) = Except.ok (len : ℤ)) :
    0 < len ∧ (p ≤ len ↔ Given params "period") :=
  have hp2 := two_le_period hp
  declared_rows hp hwarm (by omega) (by omega) (by omega)

/-- So is one more. -/
theorem next_rows (hp : period params = .ok p)
    (hwarm : (do let q ← intOr params "period" 1; pure (q + 1)) = Except.ok (len : ℤ)) :
    0 < len ∧ (p + 1 ≤ len ↔ Given params "period") :=
  declared_rows hp hwarm (by omega) (by omega) (by omega)

/-- More than a period of rows is needed and no more than one declared. -/
theorem fewer_rows {rows : ℕ} (hp : period params = .ok p) (hrows : p < rows)
    (hwarm : (do let q ← intOr params "period" 1; pure (max 1 q)) = Except.ok (len : ℤ)) :
    0 < len ∧ (rows ≤ len ↔ False) := by
  obtain ⟨q, hq, hw⟩ := bind_eq_ok.mp hwarm
  have hw := pure_eq_ok.mp hw
  have hp2 := two_le_period hp
  rcases intParam_cases hp hq with ⟨-, hqp⟩ | ⟨-, hpm, hqd⟩
  · exact ⟨by omega, iff_of_false (by omega) not_false⟩
  · exact ⟨by omega, iff_of_false (by omega) not_false⟩

/-- The slow one of two periods is longer than its default, so that it is passed. -/
theorem slow_rows {fast slow : ℕ} {default : ℤ}
    (hfast : intParam params "fast_period" 2 = .ok fast)
    (hslow : intParam params "slow_period" 2 = .ok slow) (hlt : fast < slow)
    (hwarm : intOr params "slow_period" default = .ok (len : ℤ)) :
    0 < len ∧ (slow ≤ len ↔ True) := by
  have hfast2 := le_intParam (m := 2) hfast
  have hsame := intParam_cases hslow hwarm
  exact ⟨by omega, iff_of_true (by omega) trivial⟩

end

/-- A running total is declared a period and a row, and may need one row only. -/
theorem totalOrSlope_rows {params : Params} {len : ℕ} {series : Frame K → List K}
    (hseries : ∀ frame, (series frame).length = frame.length) {other : Frame K} {v : K}
    (hvalue : totalOrSlope series other params = .ok (some v))
    (hwarm : (do let q ← intOr params "period" 1; pure (q + 1)) = Except.ok (len : ℤ)) :
    ∃ rows, Fits (fun frame : Frame K => totalOrSlope series frame params) rows ∧ 0 < len ∧
      (rows ≤ len ↔
        Given params "period" ∨ choice params [.value, .slope] .slope = .ok .value) := by
  obtain ⟨p, hp, hvalue⟩ := bind_eq_ok.mp hvalue
  obtain ⟨output, hout, -⟩ := bind_eq_ok.mp hvalue
  obtain ⟨hpos, hiff⟩ := next_rows hp hwarm
  rcases List.mem_cons.mp (choice_mem hout) with rfl | hmem
  · exact ⟨1, totalOrSlope_value_fits hp hout, hpos, iff_of_true hpos (.inr hout)⟩
  · obtain rfl := List.mem_singleton.mp hmem
    refine ⟨p + 1, totalOrSlope_slope_fits hseries hp hout, hpos, hiff.trans ?_⟩
    rw [hout]
    simp

section
variable {math : Analysis K} {factor : TechnicalFactor} {params : Params} {frame : Frame K}

/-- What a factor needs decides on a sound frame. -/
theorem settled {rows : ℕ} {S : Prop}
    (hfits : Fits (fun frame : Frame K => factor.compute math frame (factor.merged params)) rows)
    (hsound : Sound frame) (hrows : 0 < frame.length ∧ (rows ≤ frame.length ↔ S)) :
    (∃ v, computeFactor math factor frame params = .ok (some v)) ↔ S := by
  have hne := List.ne_nil_of_length_pos hrows.1
  have hcompute : computeFactor math factor frame params =
      factor.compute math frame (factor.merged params) :=
    if_neg (mt List.isEmpty_iff.mp hne)
  rw [hcompute]
  exact (hfits.iff hsound hne).trans hrows.2

variable {f : ℕ → Except FactorError (Option K)} {v : K}

/-- A factor that needs a period of rows and declares it. -/
theorem period_settled (hvalue : (period (factor.merged params) >>= f) = .ok (some v))
    (hfits : ∀ {p}, period (factor.merged params) = .ok p →
      Fits (fun frame : Frame K => factor.compute math frame (factor.merged params)) p)
    (hsound : Sound frame)
    (hwarm : (do let q ← intOr (factor.merged params) "period" 1; pure (max 1 q)) =
      Except.ok (frame.length : ℤ)) :
    (∃ v, computeFactor math factor frame params = .ok (some v)) ↔
      Given (factor.merged params) "period" := by
  obtain ⟨p, hp, -⟩ := bind_eq_ok.mp hvalue
  exact settled (hfits hp) hsound (period_rows hp hwarm)

/-- One that needs a row more and declares it. -/
theorem next_settled (hvalue : (period (factor.merged params) >>= f) = .ok (some v))
    (hfits : ∀ {p}, period (factor.merged params) = .ok p →
      Fits (fun frame : Frame K => factor.compute math frame (factor.merged params)) (p + 1))
    (hsound : Sound frame)
    (hwarm : (do let q ← intOr (factor.merged params) "period" 1; pure (q + 1)) =
      Except.ok (frame.length : ℤ)) :
    (∃ v, computeFactor math factor frame params = .ok (some v)) ↔
      Given (factor.merged params) "period" := by
  obtain ⟨p, hp, -⟩ := bind_eq_ok.mp hvalue
  exact settled (hfits hp) hsound (next_rows hp hwarm)

/-- One that needs a row more than it declares. -/
theorem short_settled (hvalue : (period (factor.merged params) >>= f) = .ok (some v))
    (hfits : ∀ {p}, period (factor.merged params) = .ok p →
      Fits (fun frame : Frame K => factor.compute math frame (factor.merged params)) (p + 1))
    (hsound : Sound frame)
    (hwarm : (do let q ← intOr (factor.merged params) "period" 1; pure (max 1 q)) =
      Except.ok (frame.length : ℤ)) :
    (∃ v, computeFactor math factor frame params = .ok (some v)) ↔ False := by
  obtain ⟨p, hp, -⟩ := bind_eq_ok.mp hvalue
  exact settled (hfits hp) hsound (fewer_rows hp (Nat.lt_succ_self p) hwarm)

theorem compute_of_computeFactor
    (h : computeFactor math factor frame params = .ok (some v)) :
    factor.compute math frame (factor.merged params) = .ok (some v) := by
  unfold computeFactor at h
  split at h
  · cases h
  · exact h

variable [IsStrictOrderedRing K]

/-- **The declared warm-up** is enough in the cases of `Suffices`, and in no others. -/
theorem computeFactor_warmUp_iff (math : Analysis K) (factor : TechnicalFactor)
    (hcomputable : ∃ (other : Frame K) (v : K),
      computeFactor math factor other params = .ok (some v))
    (hsound : Sound frame)
    (hwarm : factor.technicalWarmup (factor.merged params) = .ok (frame.length : ℤ)) :
    (∃ v, computeFactor math factor frame params = .ok (some v)) ↔
      factor.Suffices (factor.merged params) := by
  obtain ⟨other, v, hvalue⟩ := hcomputable
  have hvalue := compute_of_computeFactor hvalue
  cases factor with
  | sma => exact period_settled hvalue sma_fits hsound hwarm
  | ema => exact period_settled hvalue ema_fits hsound hwarm
  | smaDistance => exact period_settled hvalue smaDistance_fits hsound hwarm
  | emaDistance => exact period_settled hvalue emaDistance_fits hsound hwarm
  | cci => exact period_settled hvalue cci_fits hsound hwarm
  | williamsR => exact period_settled hvalue williamsR_fits hsound hwarm
  | atr => exact period_settled hvalue atr_fits hsound hwarm
  | maxDrawdown => exact period_settled hvalue maxDrawdown_fits hsound hwarm
  | volumeZscore => exact period_settled hvalue volumeZscore_fits hsound hwarm
  | volumeRatio => exact period_settled hvalue volumeRatio_fits hsound hwarm
  | meanReversionZscore => exact period_settled hvalue meanReversionZscore_fits hsound hwarm
  | turnoverProxy => exact period_settled hvalue turnover_fits hsound hwarm
  | cmf => exact period_settled hvalue cmf_fits hsound hwarm
  | parkinsonVolatility => exact period_settled hvalue parkinsonVolatility_fits hsound hwarm
  | garmanKlassVolatility => exact period_settled hvalue garmanKlassVolatility_fits hsound hwarm
  | momentum | roc => exact next_settled hvalue return_fits hsound hwarm
  | rsi => exact next_settled hvalue rsi_fits hsound hwarm
  | downsideVolatility => exact next_settled hvalue downsideVolatility_fits hsound hwarm
  | cmo => exact next_settled hvalue cmo_fits hsound hwarm
  | efficiencyRatio => exact next_settled hvalue efficiencyRatio_fits hsound hwarm
  | choppiness => exact next_settled hvalue choppiness_fits hsound hwarm
  | realizedVolatility => exact short_settled hvalue realizedVolatility_fits hsound hwarm
  | mfi => exact short_settled hvalue mfi_fits hsound hwarm
  | forceIndex => exact short_settled hvalue forceIndex_fits hsound hwarm
  | amihudIlliquidity => exact short_settled hvalue amihudIlliquidity_fits hsound hwarm
  | atrPct =>
    unfold TechnicalFactor.compute atrPct at hvalue
    dsimp only at hvalue
    split at hvalue
    next => cases hvalue
    next =>
      obtain ⟨p, hp, -⟩ := bind_eq_ok.mp hvalue
      exact settled (atrPct_fits hp) hsound (period_rows hp hwarm)
  | bollingerBands =>
    simp only [TechnicalFactor.compute, bollinger, bind_eq_ok] at hvalue
    obtain ⟨p, hp, _, hmult, _, -, _, hout, -⟩ := hvalue
    exact settled (bollinger_fits hp hmult hout) hsound (period_rows hp hwarm)
  | kdj =>
    simp only [TechnicalFactor.compute, kdj, bind_eq_ok] at hvalue
    obtain ⟨p, hp, _, hk, _, hd, _, -, _, hout, -⟩ := hvalue
    exact settled (kdj_fits hp hk hd hout) hsound (period_rows hp hwarm)
  | aroon =>
    simp only [TechnicalFactor.compute, aroon, bind_eq_ok] at hvalue
    obtain ⟨p, hp, _, -, _, hout, -⟩ := hvalue
    exact settled (aroon_fits hp hout) hsound (period_rows hp hwarm)
  | donchianChannels =>
    simp only [TechnicalFactor.compute, donchian, bind_eq_ok] at hvalue
    obtain ⟨p, hp, _, -, _, hout, -⟩ := hvalue
    exact settled (donchian_fits hp hout) hsound (period_rows hp hwarm)
  | elderRay =>
    simp only [TechnicalFactor.compute, elderRay, bind_eq_ok] at hvalue
    obtain ⟨p, hp, _, -, _, hout, -⟩ := hvalue
    exact settled (elderRay_fits hp hout) hsound (period_rows hp hwarm)
  | vwap =>
    simp only [TechnicalFactor.compute, vwap, bind_eq_ok] at hvalue
    obtain ⟨p, hp, _, -, hvalue⟩ := hvalue
    split at hvalue
    next => cases hvalue
    next =>
      obtain ⟨_, hout, -⟩ := bind_eq_ok.mp hvalue
      exact settled (vwap_fits hp hout) hsound (period_rows hp hwarm)
  | kama =>
    simp only [TechnicalFactor.compute, kama, bind_eq_ok] at hvalue
    obtain ⟨p, hp, _, hfast, _, hslow, hvalue⟩ := hvalue
    split at hvalue
    next => cases hvalue
    next hlt => exact settled (kama_fits hp hfast hslow (not_le.mp hlt)) hsound (next_rows hp hwarm)
  | supertrend =>
    simp only [TechnicalFactor.compute, supertrend, bind_eq_ok] at hvalue
    obtain ⟨p, hp, _, hmult, _, -, hvalue⟩ := hvalue
    split at hvalue
    next =>
      obtain ⟨_, hout, -⟩ := bind_eq_ok.mp hvalue
      exact settled (supertrend_fits hp hmult hout) hsound
        (fewer_rows hp (Nat.lt_succ_self p) hwarm)
    next => cases hvalue
  | zlema =>
    obtain ⟨p, hp, -⟩ := bind_eq_ok.mp hvalue
    exact settled (zlema_fits hp) hsound (fewer_rows hp (by omega) hwarm)
  | emaSlope =>
    obtain ⟨p, hp, hvalue⟩ := bind_eq_ok.mp hvalue
    obtain ⟨slope, hslope, -⟩ := bind_eq_ok.mp hvalue
    obtain ⟨q, hq, hwarm⟩ := bind_eq_ok.mp hwarm
    obtain ⟨r, hr, hw⟩ := bind_eq_ok.mp hwarm
    have hw := pure_eq_ok.mp hw
    have hp2 := two_le_period hp
    have hslope1 := le_intParam (m := 1) hslope
    have hsame := intParam_cases hslope hr
    refine settled (emaSlope_fits hp hslope) hsound ?_
    rcases intParam_cases hp hq with ⟨hgiven, hqp⟩ | ⟨hgiven, hpm, hqd⟩
    · exact ⟨by omega, iff_of_true (by omega) hgiven⟩
    · exact ⟨by omega, iff_of_false (by omega) hgiven⟩
  | stochastic =>
    simp only [TechnicalFactor.compute, stochastic, bind_eq_ok] at hvalue
    obtain ⟨p, hp, _, hk, _, hd, _, -, _, hout, -⟩ := hvalue
    obtain ⟨q, hq, hwarm⟩ := bind_eq_ok.mp hwarm
    obtain ⟨k, hk', hwarm⟩ := bind_eq_ok.mp hwarm
    obtain ⟨d, hd', hw⟩ := bind_eq_ok.mp hwarm
    have hw := pure_eq_ok.mp hw
    have hp2 := two_le_period hp
    have hk1 := le_intParam (m := 1) hk
    have hd1 := le_intParam (m := 1) hd
    have hsameK := intParam_cases hk hk'
    have hsameD := intParam_cases hd hd'
    refine settled (stochastic_fits hp hk hd hout) hsound ?_
    rcases intParam_cases hp hq with ⟨hgiven, hqp⟩ | ⟨hgiven, hpm, hqd⟩
    · exact ⟨by omega, iff_of_true (by omega) hgiven⟩
    · exact ⟨by omega, iff_of_false (by omega) hgiven⟩
  | trix =>
    obtain ⟨p, hp, -⟩ := bind_eq_ok.mp hvalue
    exact settled (trix_fits hp) hsound (declared_rows hp hwarm (by omega) (by omega) (by omega))
  | macd =>
    simp only [TechnicalFactor.compute, macd, bind_eq_ok] at hvalue
    obtain ⟨fast, hfast, slow, hslow, signal, hsignal, hvalue⟩ := hvalue
    split at hvalue
    next => cases hvalue
    next hlt =>
      simp only [bind_eq_ok] at hvalue
      obtain ⟨_, -, _, -, _, -, _, -, _, hout, -⟩ := hvalue
      obtain ⟨q, hq, hwarm⟩ := bind_eq_ok.mp hwarm
      obtain ⟨r, hr, hwarm⟩ := bind_eq_ok.mp hwarm
      obtain ⟨t, ht, hw⟩ := bind_eq_ok.mp hwarm
      have hw := pure_eq_ok.mp hw
      have hslow2 := le_intParam (m := 2) hslow
      have hsignal2 := le_intParam (m := 2) hsignal
      have hsameR := intParam_cases hslow hr
      have hsameT := intParam_cases hsignal ht
      refine settled (macd_fits hfast hslow hsignal (not_le.mp hlt) hout) hsound ?_
      exact ⟨by omega, iff_of_true (by omega) trivial⟩
  | dema =>
    obtain ⟨p, hp, -⟩ := bind_eq_ok.mp hvalue
    have hp2 := two_le_period hp
    exact settled (dema_fits hp) hsound (declared_rows hp hwarm (by omega) (by omega) (by omega))
  | tema =>
    obtain ⟨p, hp, -⟩ := bind_eq_ok.mp hvalue
    have hp2 := two_le_period hp
    exact settled (tema_fits hp) hsound (declared_rows hp hwarm (by omega) (by omega) (by omega))
  | adx =>
    obtain ⟨p, hp, hvalue⟩ := bind_eq_ok.mp hvalue
    obtain ⟨_, -, hvalue⟩ := bind_eq_ok.mp hvalue
    obtain ⟨_, hout, -⟩ := bind_eq_ok.mp hvalue
    have hp2 := two_le_period hp
    exact settled (adx_fits hp hout) hsound
      (declared_rows hp hwarm (by omega) (by omega) (by omega))
  | ulcerIndex =>
    obtain ⟨p, hp, -⟩ := bind_eq_ok.mp hvalue
    obtain ⟨q, hq, hw⟩ := bind_eq_ok.mp hwarm
    have hw := pure_eq_ok.mp hw
    have hp2 := two_le_period hp
    have hsame := intParam_cases hp hq
    exact settled (ulcerIndex_fits hp) hsound ⟨by omega, iff_of_true (by omega) trivial⟩
  | hma =>
    obtain ⟨p, hp, -⟩ := bind_eq_ok.mp hvalue
    obtain ⟨q, hq, hw⟩ := bind_eq_ok.mp hwarm
    have hp2 := two_le_period hp
    dsimp only at hw
    split at hw
    next => cases hw
    next =>
      have hw := pure_eq_ok.mp hw
      refine settled (hma_fits hp) hsound ?_
      rcases intParam_cases hp hq with ⟨hgiven, hqp⟩ | ⟨hgiven, hpm, hqd⟩
      · have hroot : 1 ≤ p.sqrt := Nat.le_sqrt.mpr (by omega)
        rw [hqp, Int.toNat_natCast] at hw
        exact ⟨by omega, iff_of_true (by omega) hgiven⟩
      · rw [hqd] at hw
        have hroot : Int.toNat 1 = 1 := rfl
        rw [hroot, Nat.sqrt_one] at hw
        exact ⟨by omega, iff_of_false (by omega) hgiven⟩
  | ppo =>
    obtain ⟨fast, hfast, hvalue⟩ := bind_eq_ok.mp hvalue
    obtain ⟨slow, hslow, hvalue⟩ := bind_eq_ok.mp hvalue
    split at hvalue
    next => cases hvalue
    next hlt =>
      obtain ⟨q, -, hw⟩ := bind_eq_ok.mp hwarm
      exact settled (ppo_fits hfast hslow (not_le.mp hlt)) hsound
        (slow_rows hfast hslow (not_le.mp hlt) hw)
  | awesomeOscillator =>
    obtain ⟨fast, hfast, hvalue⟩ := bind_eq_ok.mp hvalue
    obtain ⟨slow, hslow, hvalue⟩ := bind_eq_ok.mp hvalue
    split at hvalue
    next => cases hvalue
    next hlt =>
      obtain ⟨q, -, hw⟩ := bind_eq_ok.mp hwarm
      exact settled (awesomeOscillator_fits hfast hslow (not_le.mp hlt)) hsound
        (slow_rows hfast hslow (not_le.mp hlt) hw)
  | chaikinOscillator =>
    obtain ⟨fast, hfast, hvalue⟩ := bind_eq_ok.mp hvalue
    obtain ⟨slow, hslow, hvalue⟩ := bind_eq_ok.mp hvalue
    split at hvalue
    next => cases hvalue
    next hlt =>
      obtain ⟨q, -, hw⟩ := bind_eq_ok.mp hwarm
      exact settled (chaikin_fits hfast hslow (not_le.mp hlt)) hsound
        (slow_rows hfast hslow (not_le.mp hlt) hw)
  | ultimateOscillator =>
    obtain ⟨fast, hfast, hvalue⟩ := bind_eq_ok.mp hvalue
    obtain ⟨medium, hmedium, hvalue⟩ := bind_eq_ok.mp hvalue
    obtain ⟨slow, hslow, hvalue⟩ := bind_eq_ok.mp hvalue
    split at hvalue
    next hlt =>
      obtain ⟨q, -, hwarm⟩ := bind_eq_ok.mp hwarm
      obtain ⟨r, hr, hw⟩ := bind_eq_ok.mp hwarm
      have hw := pure_eq_ok.mp hw
      have hfast2 := le_intParam (m := 2) hfast
      have hsame := intParam_cases hslow hr
      exact settled (ultimateOscillator_fits hfast hmedium hslow hlt) hsound
        ⟨by omega, iff_of_true (by omega) trivial⟩
    next => cases hvalue
  | tsi =>
    obtain ⟨slow, hslow, hvalue⟩ := bind_eq_ok.mp hvalue
    obtain ⟨fast, hfast, -⟩ := bind_eq_ok.mp hvalue
    obtain ⟨q, -, hwarm⟩ := bind_eq_ok.mp hwarm
    obtain ⟨r, hr, hwarm⟩ := bind_eq_ok.mp hwarm
    obtain ⟨t, ht, hw⟩ := bind_eq_ok.mp hwarm
    have hw := pure_eq_ok.mp hw
    have hfast2 := le_intParam (m := 2) hfast
    have hsameR := intParam_cases hslow hr
    have hsameT := intParam_cases hfast ht
    exact settled (tsi_fits hslow hfast) hsound ⟨by omega, iff_of_true (by omega) trivial⟩
  | keltnerChannels =>
    simp only [TechnicalFactor.compute, keltner, bind_eq_ok] at hvalue
    obtain ⟨p, hp, a, hatr, _, hmult, _, -, _, -, _, hout, -⟩ := hvalue
    have hatr2 := le_intParam (m := 2) hatr
    have hp2 := two_le_period hp
    obtain ⟨q, hq, hw⟩ := bind_eq_ok.mp hwarm
    have hw := pure_eq_ok.mp hw
    refine settled (keltner_fits hp hatr hmult hout) hsound ?_
    rcases intParam_cases hp hq with ⟨hgiven, hqp⟩ | ⟨hgiven, hpm, hqd⟩
    · refine ⟨by omega, fun hle => ⟨hgiven, fun p' a' hp' ha' => ?_⟩, fun h => ?_⟩
      · obtain rfl := Except.ok.inj (hp.symm.trans hp')
        obtain rfl := Except.ok.inj (hatr.symm.trans ha')
        omega
      · have hle := h.2 p a hp hatr
        omega
    · exact ⟨by omega, iff_of_false (by omega) fun h => hgiven h.1⟩
  | obv =>
    obtain ⟨rows, hfits, hrows⟩ := totalOrSlope_rows (fun _ => by simp [obvSeries]) hvalue hwarm
    exact settled hfits hsound hrows
  | adLine =>
    obtain ⟨rows, hfits, hrows⟩ := totalOrSlope_rows (fun _ => by simp [adSeries]) hvalue hwarm
    exact settled hfits hsound hrows
  | vortex =>
    obtain ⟨p, hp, -⟩ := bind_eq_ok.mp hvalue
    cases hout : choice (TechnicalFactor.vortex.merged params) [.plus, .minus, .oscillator]
        .oscillator with
    | ok output =>
      obtain ⟨hpos, hiff⟩ := next_rows hp hwarm
      exact settled (vortex_fits hp hout) hsound
        ⟨hpos, hiff.trans (and_iff_left ⟨output, hout⟩).symm⟩
    | error e =>
      refine iff_of_false (fun hsome => ?_) fun hsuffices => ?_
      · obtain ⟨w, hw⟩ := hsome
        exact vortex_never hout hsound w (compute_of_computeFactor hw)
      · obtain ⟨-, output, hok⟩ := hsuffices
        rw [hout] at hok
        cases hok

end

/-! ## Twenty bars -/

/-- The functions themselves. -/
noncomputable def realAnalysis : Analysis ℝ := ⟨Real.sqrt, Real.log, Real.logb 10⟩

/-- A bar from 10 to 11 that closes low. -/
def narrowBar : Bar ℝ where
  openPrice := 10
  high := 11
  low := 10
  close := 10
  volume := 1
  open_pos := by norm_num
  high_pos := by norm_num
  low_pos := by norm_num
  close_pos := by norm_num
  volume_nonneg := by norm_num

def narrowBars (n : ℕ) : Frame ℝ := List.replicate n narrowBar

theorem narrowBars_sound (n : ℕ) : Sound (narrowBars n) := fun b hb => by
  rw [List.eq_of_mem_replicate hb]
  exact ⟨by norm_num [narrowBar], by norm_num [narrowBar]⟩

def noParams : Params := fun _ => none

/-- A simple average has its twenty rows. -/
theorem computeFactor_warmUp_iff_sma :
    ∃ v, computeFactor realAnalysis .sma (narrowBars 20) noParams = .ok (some v) :=
  (computeFactor_warmUp_iff realAnalysis .sma ⟨narrowBars 20, _, rfl⟩ (narrowBars_sound 20) rfl).mpr
    rfl

/-- Realized volatility declares twenty rows and needs one more. -/
theorem realizedVolatility_short :
    (∃ (frame : Frame ℝ) (v : ℝ),
      computeFactor realAnalysis .realizedVolatility frame noParams = .ok (some v)) ∧
    Sound (narrowBars 20) ∧
    TechnicalFactor.technicalWarmup .realizedVolatility
      (TechnicalFactor.merged .realizedVolatility noParams) = .ok ((narrowBars 20).length : ℤ) ∧
    computeFactor realAnalysis .realizedVolatility (narrowBars 20) noParams =
      .error .insufficientHistory :=
  ⟨⟨narrowBars 21, _, rfl⟩, narrowBars_sound 20, rfl, rfl⟩

end AlgoTrade.Factors
