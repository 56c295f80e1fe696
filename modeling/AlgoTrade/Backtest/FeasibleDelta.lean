import AlgoTrade.Backtest.OrderAttempts

/-! # Feasibility, exactly

`_feasible_delta` caps a change by the cash and by the position limit, and rounds
what is left to whole lots.  It never changes the direction.

* `limited`: what the two caps leave of a change, before it is rounded.
* `nextLot`: the smallest multiple of a lot above a quantity.
* `feasibleDelta_bounded_iff`: the change is enlarged in two cases only, when a
  position beyond its limit is reduced by less than the excess, and when a
  fraction of a lot is rounded up. -/

namespace AlgoTrade.Backtest

/-! ## Rounding -/

/-- The smallest multiple of the lot above the quantity. -/
def nextLot (lot quantity : ℚ) : ℚ := (⌊|quantity| / lot⌋ + 1) * lot

theorem lot_le_nextLot {lot : ℚ} (hlot : 0 < lot) (quantity : ℚ) : lot ≤ nextLot lot quantity := by
  have hfloor : 0 ≤ ⌊|quantity| / lot⌋ := Int.floor_nonneg.mpr (by positivity)
  have hunits : (1 : ℚ) ≤ ⌊|quantity| / lot⌋ + 1 := by
    have : (0 : ℚ) ≤ ⌊|quantity| / lot⌋ := Int.cast_nonneg hfloor
    linarith
  unfold nextLot
  nlinarith

theorem abs_roundToLot {lot : ℚ} (hlot : 0 < lot) (value : ℚ) :
    |roundToLot value lot| = ⌊|value| / lot + 1 / 10 ^ 8⌋ * lot := by
  have hunits : 0 ≤ ⌊|value| / lot + 1 / 10 ^ 8⌋ := Int.floor_nonneg.mpr (by positivity)
  unfold roundToLot
  rw [if_neg (not_le.mpr hlot)]
  dsimp only
  split
  next hzero => rw [abs_zero, hzero, Int.cast_zero, zero_mul]
  next => rw [abs_copysign, abs_mul, abs_of_pos hlot, abs_of_nonneg (Int.cast_nonneg hunits)]

/-- Rounding gives at most the quantity unless the next lot is within reach. -/
theorem abs_roundToLot_le_iff {lot : ℚ} (hlot : 0 < lot) (value quantity : ℚ) :
    |roundToLot value lot| ≤ |quantity| ↔ |value| + lot / 10 ^ 8 < nextLot lot quantity := by
  have hscale : |value| + lot / 10 ^ 8 = (|value| / lot + 1 / 10 ^ 8) * lot := by
    field_simp
  rw [abs_roundToLot hlot, ← le_div_iff₀ hlot, ← Int.le_floor, ← Int.lt_add_one_iff, Int.floor_lt,
    hscale, nextLot, mul_lt_mul_iff_left₀ hlot]
  push_cast
  rfl

/-- Rounding adds less than the tolerance. -/
theorem abs_roundToLot_le_add {lot : ℚ} (hlot : 0 < lot) (value : ℚ) :
    |roundToLot value lot| ≤ |value| + lot / 10 ^ 8 := by
  have hscale : |value| + lot / 10 ^ 8 = (|value| / lot + 1 / 10 ^ 8) * lot := by
    field_simp
  rw [abs_roundToLot hlot, hscale]
  exact mul_le_mul_of_nonneg_right (Int.floor_le _) hlot.le

/-! ## The caps -/

/-- The quantity the cash buys down to the borrowing floor. -/
def cashCap (cfg : BrokerConfig) (b : Book) (fillPrice equity : ℚ) : ℚ :=
  max 0 (b.availableCash + equity * (cfg.leverage - 1)) /
    max (fillPrice * (1 + cfg.commission)) amountEpsilon

theorem cashCap_nonneg (cfg : BrokerConfig) (b : Book) (fillPrice equity : ℚ) :
    0 ≤ cashCap cfg b fillPrice equity :=
  div_nonneg (le_max_left ..) (max_epsilon_pos _).le

/-- What the two caps leave of a change, before it is rounded. -/
def limited (cfg : BrokerConfig) (b : Book) (delta currentAmount fillPrice equity : ℚ)
    (positionKey : PositionKey) : ℚ :=
  if positionLimit cfg b fillPrice equity positionKey + amountEpsilon <
      |currentAmount + (cashCapped cfg b delta fillPrice equity).1| then
    copysign (positionLimit cfg b fillPrice equity positionKey)
      (currentAmount + (cashCapped cfg b delta fillPrice equity).1) - currentAmount
  else (cashCapped cfg b delta fillPrice equity).1

section

variable {cfg : BrokerConfig} {b : Book} {delta currentAmount fillPrice equity lot : ℚ}
  {positionKey : PositionKey}

theorem cashCapped_of_pos (hdelta : 0 < delta) :
    (cashCapped cfg b delta fillPrice equity).1 = min delta (cashCap cfg b fillPrice equity) := by
  unfold cashCapped cashCap
  dsimp only
  split
  next h => exact (min_eq_right h.2.le).symm
  next h => exact (min_eq_left (not_lt.mp fun hlt => h ⟨hdelta, hlt⟩)).symm

theorem cashCapped_of_nonpos (hdelta : delta ≤ 0) :
    (cashCapped cfg b delta fillPrice equity).1 = delta := by
  unfold cashCapped
  dsimp only
  rw [if_neg fun h => hdelta.not_gt h.1]

theorem feasibleDelta_limited :
    (feasibleDelta cfg b delta currentAmount fillPrice equity lot positionKey).1 =
      if direction delta ≠ 0 ∧
          direction (limited cfg b delta currentAmount fillPrice equity positionKey) ≠ 0 ∧
          direction (limited cfg b delta currentAmount fillPrice equity positionKey) ≠
            direction delta then 0
      else roundToLot (limited cfg b delta currentAmount fillPrice equity positionKey) lot := by
  obtain ⟨feasible, hfeasible, heq⟩ :=
    feasibleDelta_eq cfg b delta currentAmount fillPrice equity lot positionKey
  rw [heq, hfeasible]
  rfl

end

/-! ## Past the limit -/

theorem nonneg_of_capped {f delta : ℚ} (hcash : |f| ≤ |delta|) (hsame : 0 ≤ f * delta)
    (hdelta : 0 ≤ delta) : 0 ≤ f := by
  rcases hdelta.lt_or_eq with hpos | rfl
  · exact nonneg_of_mul_nonneg_left hsame hpos
  · rw [abs_zero, abs_nonpos_iff] at hcash
    exact hcash.ge

theorem nonpos_of_capped {f delta : ℚ} (hcash : |f| ≤ |delta|) (hsame : 0 ≤ f * delta)
    (hdelta : delta ≤ 0) : f ≤ 0 := by
  have hcash' : |-f| ≤ |-delta| := by rwa [abs_neg, abs_neg]
  have h := nonneg_of_capped hcash' (by rwa [neg_mul_neg]) (neg_nonneg.mpr hdelta)
  exact neg_nonneg.mp h

/-- On the side opposite to the change, what is left is the excess over the limit. -/
theorem copysign_sub_of_opposite {x f m delta : ℚ} (hnonneg : 0 ≤ m) (hm : m < |x + f|)
    (hside : (x + f) * delta ≤ 0) (hcash : |f| ≤ |delta|) (hsame : 0 ≤ f * delta) :
    |copysign m (x + f) - x| = |x| - m ∧ 0 ≤ (copysign m (x + f) - x) * delta ∧
      (copysign m (x + f) - x) * x ≤ 0 := by
  unfold copysign
  rw [abs_of_nonneg hnonneg]
  rcases lt_or_ge (x + f) 0 with ht | ht
  · rw [if_pos ht]
    rw [abs_of_neg ht] at hm
    have hdelta : 0 ≤ delta := nonneg_of_mul_nonpos_right hside ht
    have hf := nonneg_of_capped hcash hsame hdelta
    have hx : x < 0 := by linarith
    have hrest : 0 ≤ -m - x := by linarith
    rw [abs_of_nonneg hrest, abs_of_neg hx]
    exact ⟨by ring, mul_nonneg hrest hdelta, mul_nonpos_of_nonneg_of_nonpos hrest hx.le⟩
  · rw [if_neg ht.not_gt]
    rw [abs_of_nonneg ht] at hm
    have hdelta : delta ≤ 0 := nonpos_of_mul_nonpos_right hside (hnonneg.trans_lt hm)
    have hf := nonpos_of_capped hcash hsame hdelta
    have hx : 0 < x := by linarith
    have hrest : m - x ≤ 0 := by linarith
    rw [abs_of_nonpos hrest, abs_of_pos hx]
    exact ⟨by ring, mul_nonneg_of_nonpos_of_nonpos hrest hdelta,
      mul_nonpos_of_nonpos_of_nonneg hrest hx.le⟩

/-- On the side of the change, what is left is the room up to the limit. -/
theorem copysign_sub_of_beyond {x f m delta : ℚ} (hnonneg : 0 ≤ m) (hm : m < |x + f|)
    (hside : 0 < (x + f) * delta) :
    (copysign m (x + f) - x) * direction delta = m - direction delta * x ∧
      m - direction delta * x < |f| := by
  unfold copysign direction
  rw [abs_of_nonneg hnonneg]
  rcases pos_and_pos_or_neg_and_neg_of_mul_pos hside with ⟨ht, hd⟩ | ⟨ht, hd⟩
  · rw [if_neg ht.not_gt, if_pos hd]
    rw [abs_of_pos ht] at hm
    push_cast
    exact ⟨by ring, by linarith [le_abs_self f]⟩
  · rw [if_pos ht, if_neg hd.not_gt, if_pos hd]
    rw [abs_of_neg ht] at hm
    push_cast
    exact ⟨by ring, by linarith [neg_abs_le f]⟩

section

variable {cfg : BrokerConfig} {b : Book} {delta currentAmount fillPrice equity lot : ℚ}
  {positionKey : PositionKey}

theorem limited_of_within (h : |currentAmount + (cashCapped cfg b delta fillPrice equity).1| ≤
    positionLimit cfg b fillPrice equity positionKey + amountEpsilon) :
    limited cfg b delta currentAmount fillPrice equity positionKey =
      (cashCapped cfg b delta fillPrice equity).1 :=
  if_neg h.not_gt

theorem limited_of_over (h : positionLimit cfg b fillPrice equity positionKey + amountEpsilon <
    |currentAmount + (cashCapped cfg b delta fillPrice equity).1|) :
    limited cfg b delta currentAmount fillPrice equity positionKey =
      copysign (positionLimit cfg b fillPrice equity positionKey)
        (currentAmount + (cashCapped cfg b delta fillPrice equity).1) - currentAmount :=
  if_pos h

theorem lt_of_add_epsilon_lt {x y : ℚ} (h : x + amountEpsilon < y) : x < y :=
  (lt_add_of_pos_right x (by unfold amountEpsilon; norm_num)).trans h

/-- A position past its limit becomes the limit. -/
theorem limited_of_limitEnlarges
    (h : LimitEnlarges cfg b delta currentAmount fillPrice equity positionKey) :
    |limited cfg b delta currentAmount fillPrice equity positionKey| =
        |currentAmount| - positionLimit cfg b fillPrice equity positionKey ∧
      0 ≤ limited cfg b delta currentAmount fillPrice equity positionKey * delta ∧
      limited cfg b delta currentAmount fillPrice equity positionKey * currentAmount ≤ 0 := by
  obtain ⟨hcash, hsame⟩ := cashCapped_spec cfg b delta fillPrice equity
  rw [limited_of_over h.1]
  exact copysign_sub_of_opposite (positionLimit_nonneg ..) (lt_of_add_epsilon_lt h.1) h.2 hcash
    hsame

theorem not_limitEnlarges_iff
    (hover : positionLimit cfg b fillPrice equity positionKey + amountEpsilon <
      |currentAmount + (cashCapped cfg b delta fillPrice equity).1|) :
    ¬ LimitEnlarges cfg b delta currentAmount fillPrice equity positionKey ↔
      0 < (currentAmount + (cashCapped cfg b delta fillPrice equity).1) * delta :=
  ⟨fun h => not_le.mp fun hle => h ⟨hover, hle⟩, fun h hlimit => hlimit.2.not_gt h⟩

theorem mul_direction_of_nonneg {x y : ℚ} (hy : y ≠ 0) (h : 0 ≤ x * y) : x * direction y = |x| := by
  unfold direction
  rcases hy.lt_or_gt with hneg | hpos
  · rw [if_neg hneg.not_gt, if_pos hneg, abs_of_nonpos (nonpos_of_mul_nonneg_left h hneg)]
    push_cast
    ring
  · rw [if_pos hpos, abs_of_nonneg (nonneg_of_mul_nonneg_left h hpos)]
    push_cast
    ring

/-- Up to its limit, what is left of a change is the room to the limit. -/
theorem abs_limited_of_over
    (hover : positionLimit cfg b fillPrice equity positionKey + amountEpsilon <
      |currentAmount + (cashCapped cfg b delta fillPrice equity).1|)
    (h : ¬ LimitEnlarges cfg b delta currentAmount fillPrice equity positionKey)
    (hnonneg : 0 ≤ limited cfg b delta currentAmount fillPrice equity positionKey * delta) :
    |limited cfg b delta currentAmount fillPrice equity positionKey| =
        positionLimit cfg b fillPrice equity positionKey - direction delta * currentAmount ∧
      |limited cfg b delta currentAmount fillPrice equity positionKey| ≤
        |(cashCapped cfg b delta fillPrice equity).1| := by
  have hside := (not_limitEnlarges_iff hover).mp h
  obtain ⟨hroom, hlt⟩ := copysign_sub_of_beyond (positionLimit_nonneg ..)
    (lt_of_add_epsilon_lt hover) hside
  rw [← mul_direction_of_nonneg (right_ne_zero_of_mul hside.ne') hnonneg, limited_of_over hover,
    hroom]
  exact ⟨rfl, hlt.le⟩

/-! ## When a change is enlarged -/

end

/-- The next lot above the change is within a rounding step of the change, of what
the cash buys, and, past the limit, of the room up to it. -/
def NextLotFits (cfg : BrokerConfig) (b : Book) (delta currentAmount fillPrice equity lot : ℚ)
    (positionKey : PositionKey) : Prop :=
  nextLot lot delta ≤ |delta| + lot / 10 ^ 8 ∧
    (0 < delta → nextLot lot delta ≤ cashCap cfg b fillPrice equity + lot / 10 ^ 8) ∧
    (positionLimit cfg b fillPrice equity positionKey + amountEpsilon <
        |currentAmount + (cashCapped cfg b delta fillPrice equity).1| →
      nextLot lot delta ≤ positionLimit cfg b fillPrice equity positionKey -
        direction delta * currentAmount + lot / 10 ^ 8)

/-- The position is past its limit, on the side opposite to the change, by the next
lot above the change or more. -/
def ExcessEnlarges (cfg : BrokerConfig) (b : Book) (delta currentAmount fillPrice equity lot : ℚ)
    (positionKey : PositionKey) : Prop :=
  LimitEnlarges cfg b delta currentAmount fillPrice equity positionKey ∧
    nextLot lot delta ≤
      |currentAmount| - positionLimit cfg b fillPrice equity positionKey + lot / 10 ^ 8

/-- A fraction of a lot is rounded up to the next lot. -/
def RoundsUp (cfg : BrokerConfig) (b : Book) (delta currentAmount fillPrice equity lot : ℚ)
    (positionKey : PositionKey) : Prop :=
  ¬ LimitEnlarges cfg b delta currentAmount fillPrice equity positionKey ∧
    NextLotFits cfg b delta currentAmount fillPrice equity lot positionKey

section

variable {cfg : BrokerConfig} {b : Book} {delta currentAmount fillPrice equity lot : ℚ}
  {positionKey : PositionKey}

theorem abs_cashCapped_eq : |(cashCapped cfg b delta fillPrice equity).1| =
    if 0 < delta then min |delta| (cashCap cfg b fillPrice equity) else |delta| := by
  split
  next h =>
    rw [cashCapped_of_pos h, abs_of_pos h, abs_of_nonneg (le_min h.le (cashCap_nonneg ..))]
  next h => rw [cashCapped_of_nonpos (not_lt.mp h)]

theorem nextLot_le_cashCapped_iff : nextLot lot delta ≤
      |(cashCapped cfg b delta fillPrice equity).1| + lot / 10 ^ 8 ↔
    nextLot lot delta ≤ |delta| + lot / 10 ^ 8 ∧
      (0 < delta → nextLot lot delta ≤ cashCap cfg b fillPrice equity + lot / 10 ^ 8) := by
  rw [abs_cashCapped_eq]
  split
  next h => rw [← min_add_add_right, le_min_iff, imp_iff_right h]
  next h => exact ⟨fun hle => ⟨hle, fun hpos => absurd hpos h⟩, fun hle => hle.1⟩

/-- Up to the limit the next lot is reached exactly by rounding up. -/
theorem nextLotFits_iff
    (h : ¬ LimitEnlarges cfg b delta currentAmount fillPrice equity positionKey)
    (hnonneg : 0 ≤ limited cfg b delta currentAmount fillPrice equity positionKey * delta) :
    nextLot lot delta ≤
        |limited cfg b delta currentAmount fillPrice equity positionKey| + lot / 10 ^ 8 ↔
      NextLotFits cfg b delta currentAmount fillPrice equity lot positionKey := by
  unfold NextLotFits
  by_cases hover : positionLimit cfg b fillPrice equity positionKey + amountEpsilon <
      |currentAmount + (cashCapped cfg b delta fillPrice equity).1|
  · obtain ⟨hroom, hle⟩ := abs_limited_of_over hover h hnonneg
    rw [imp_iff_right hover, ← hroom, ← and_assoc, ← nextLot_le_cashCapped_iff]
    exact ⟨fun hnext => ⟨hnext.trans (by linarith), hnext⟩, fun hnext => hnext.2⟩
  · rw [limited_of_within (not_lt.mp hover), nextLot_le_cashCapped_iff]
    exact ⟨fun hnext => ⟨hnext.1, hnext.2, fun hlt => absurd hlt hover⟩,
      fun hnext => ⟨hnext.1, hnext.2.1⟩⟩

/-- An order turned against itself gives nothing, and nothing is rounded up. -/
theorem not_roundsUp_of_opposed (hlot : 0 < lot)
    (h : limited cfg b delta currentAmount fillPrice equity positionKey * delta < 0) :
    ¬ RoundsUp cfg b delta currentAmount fillPrice equity lot positionKey := by
  rintro ⟨hlimit, -, -, hroom⟩
  obtain ⟨-, hsame⟩ := cashCapped_spec cfg b delta fillPrice equity
  have hover : positionLimit cfg b fillPrice equity positionKey + amountEpsilon <
      |currentAmount + (cashCapped cfg b delta fillPrice equity).1| := by
    by_contra hwithin
    rw [limited_of_within (not_lt.mp hwithin)] at h
    exact h.not_ge hsame
  have hside := (not_limitEnlarges_iff hover).mp hlimit
  obtain ⟨heq, -⟩ := copysign_sub_of_beyond (positionLimit_nonneg ..)
    (lt_of_add_epsilon_lt hover) hside
  rw [← limited_of_over hover] at heq
  have hneg : limited cfg b delta currentAmount fillPrice equity positionKey * direction delta ≤ 0 := by
    have habs := mul_direction_of_nonneg (x := -limited cfg b delta currentAmount fillPrice equity
      positionKey) (right_ne_zero_of_mul hside.ne') (by linarith)
    have := abs_nonneg (-limited cfg b delta currentAmount fillPrice equity positionKey)
    linarith
  have hnext := lot_le_nextLot hlot delta
  have hsmall : lot / 10 ^ 8 < lot := by
    rw [div_lt_iff₀ (by norm_num)]
    linarith
  linarith [hroom hover]

end

/-! ## The change that is feasible -/

/-- The change is zero or in the direction of the request, and no larger. -/
def Bounded (result delta : ℚ) : Prop :=
  (result = 0 ∨ direction result = direction delta) ∧ |result| ≤ |delta|

instance (result delta : ℚ) : Decidable (Bounded result delta) := inferInstanceAs (Decidable (_ ∧ _))

theorem direction_eq_of_mul_pos {x y : ℚ} (h : 0 < x * y) : direction x = direction y := by
  unfold direction
  rcases pos_and_pos_or_neg_and_neg_of_mul_pos h with ⟨hx, hy⟩ | ⟨hx, hy⟩
  · rw [if_pos hx, if_pos hy]
  · rw [if_neg hx.not_gt, if_pos hx, if_neg hy.not_gt, if_pos hy]

theorem bounded_iff {result delta : ℚ} (hsame : 0 ≤ result * delta) :
    Bounded result delta ↔ |result| ≤ |delta| := by
  refine ⟨fun h => h.2, fun h => ⟨?_, h⟩⟩
  rcases hsame.lt_or_eq with hpos | hzero
  · exact .inr (direction_eq_of_mul_pos hpos)
  · rcases mul_eq_zero.mp hzero.symm with hresult | rfl
    · exact .inl hresult
    · rw [abs_zero, abs_nonpos_iff] at h
      exact .inl h

theorem roundToLot_mul_nonneg {lot value delta : ℚ} (hlot : 0 < lot) (h : 0 ≤ value * delta) :
    0 ≤ roundToLot value lot * delta := by
  obtain ⟨-, hround⟩ := roundToLot_spec hlot value
  rcases lt_trichotomy value 0 with hneg | rfl | hpos
  · exact mul_nonneg_of_nonpos_of_nonpos (nonpos_of_mul_nonneg_left hround hneg)
      (nonpos_of_mul_nonneg_right h hneg)
  · have hzero : |roundToLot 0 lot| ≤ (0 : ℕ) * lot :=
      abs_roundToLot_le hlot (by rw [abs_zero, Nat.cast_zero, zero_mul])
    rw [Nat.cast_zero, zero_mul] at hzero
    rw [abs_nonpos_iff.mp hzero, zero_mul]
  · exact mul_nonneg (nonneg_of_mul_nonneg_left hround hpos) (nonneg_of_mul_nonneg_right h hpos)

theorem opposed_iff {x y : ℚ} :
    (direction y ≠ 0 ∧ direction x ≠ 0 ∧ direction x ≠ direction y) ↔ x * y < 0 := by
  refine ⟨fun h => not_le.mp fun hle => ?_, fun h => ?_⟩
  · rcases hle.lt_or_eq with hpos | hzero
    · exact h.2.2 (direction_eq_of_mul_pos hpos)
    · rcases mul_eq_zero.mp hzero.symm with rfl | rfl
      · exact h.2.1 (by simp [direction])
      · exact h.1 (by simp [direction])
  · by_contra hsame
    exact h.not_ge (mul_nonneg_of_direction hsame)

section

variable {cfg : BrokerConfig} {b : Book} {delta currentAmount fillPrice equity lot : ℚ}
  {positionKey : PositionKey}

theorem feasibleDelta_of_opposed
    (h : limited cfg b delta currentAmount fillPrice equity positionKey * delta < 0) :
    (feasibleDelta cfg b delta currentAmount fillPrice equity lot positionKey).1 = 0 := by
  rw [feasibleDelta_limited, if_pos (opposed_iff.mpr h)]

theorem feasibleDelta_of_same
    (h : 0 ≤ limited cfg b delta currentAmount fillPrice equity positionKey * delta) :
    (feasibleDelta cfg b delta currentAmount fillPrice equity lot positionKey).1 =
      roundToLot (limited cfg b delta currentAmount fillPrice equity positionKey) lot := by
  rw [feasibleDelta_limited, if_neg fun hopposed => (opposed_iff.mp hopposed).not_ge h]

/-- A feasible change never turns against the request. -/
theorem feasibleDelta_mul_nonneg (hlot : 0 < lot) :
    0 ≤ (feasibleDelta cfg b delta currentAmount fillPrice equity lot positionKey).1 * delta := by
  rcases lt_or_ge (limited cfg b delta currentAmount fillPrice equity positionKey * delta) 0
    with h | h
  · rw [feasibleDelta_of_opposed h, zero_mul]
  · rw [feasibleDelta_of_same h]
    exact roundToLot_mul_nonneg hlot h

theorem abs_feasibleDelta_le_iff (hlot : 0 < lot) :
    |(feasibleDelta cfg b delta currentAmount fillPrice equity lot positionKey).1| ≤ |delta| ↔
      ¬ ExcessEnlarges cfg b delta currentAmount fillPrice equity lot positionKey ∧
        ¬ RoundsUp cfg b delta currentAmount fillPrice equity lot positionKey := by
  rcases lt_or_ge (limited cfg b delta currentAmount fillPrice equity positionKey * delta) 0
    with h | h
  · rw [feasibleDelta_of_opposed h, abs_zero]
    refine ⟨fun _ => ⟨fun hexcess => ?_, not_roundsUp_of_opposed hlot h⟩, fun _ => abs_nonneg delta⟩
    exact h.not_ge (limited_of_limitEnlarges hexcess.1).2.1
  · rw [feasibleDelta_of_same h, abs_roundToLot_le_iff hlot]
    by_cases hlimit : LimitEnlarges cfg b delta currentAmount fillPrice equity positionKey
    · rw [(limited_of_limitEnlarges hlimit).1, ← not_le]
      exact ⟨fun hnext => ⟨fun hexcess => hnext hexcess.2, fun hround => hround.1 hlimit⟩,
        fun hnext hle => hnext.1 ⟨hlimit, hle⟩⟩
    · rw [← not_le, nextLotFits_iff hlimit h]
      exact ⟨fun hnext => ⟨fun hexcess => hlimit hexcess.1, fun hround => hnext hround.2⟩,
        fun hnext hfits => hnext.2 ⟨hlimit, hfits⟩⟩

end

/-- **A feasible change** is bounded by the request except where the excess over the
position limit replaces it, or where a fraction of a lot is rounded up. -/
theorem feasibleDelta_bounded_iff (cfg : BrokerConfig) (b : Book)
    (delta currentAmount fillPrice equity : ℚ) (symbol : Instrument) (bar : Option OpenBar)
    (positionKey : PositionKey) :
    Bounded (feasibleDelta cfg b delta currentAmount fillPrice equity (lotSize symbol bar)
        positionKey).1 delta ↔
      ¬ ExcessEnlarges cfg b delta currentAmount fillPrice equity (lotSize symbol bar) positionKey ∧
        ¬ RoundsUp cfg b delta currentAmount fillPrice equity (lotSize symbol bar) positionKey := by
  rw [bounded_iff (feasibleDelta_mul_nonneg (lotSize_pos symbol bar)),
    abs_feasibleDelta_le_iff (lotSize_pos symbol bar)]

/-- A broker at leverage four, without costs. -/
def fourfold : BrokerConfig where
  initialCapital := 3
  leverage := 4
  commission := 0
  slippage := 0
  one_le_leverage := by norm_num
  commission_nonneg := BrokerConfig.free_nonneg
  slippage_nonneg := BrokerConfig.free_nonneg

/-- Ten bought at 1.15 with a capital of 3, after the price has fallen to 1. -/
def tenHeld : Book where
  availableCash := -17 / 2
  positions := Dict.empty.set ⟨⟨"USStock", "AAPL"⟩, none⟩
    { symbol := ⟨"USStock", "AAPL"⟩, amount := 10, avgCost := 23 / 20, lastPrice := 1 }
  totalValue := 3 / 2

/-- Ten are held at a limit of six: an order that sells one sells four. -/
theorem sellOne_sellsFour :
    (feasibleDelta fourfold tenHeld (-1) 10 1 (3 / 2) (lotSize ⟨"USStock", "AAPL"⟩ none)
        ⟨⟨"USStock", "AAPL"⟩, none⟩).1 = -4 ∧
      ¬ Bounded (feasibleDelta fourfold tenHeld (-1) 10 1 (3 / 2)
        (lotSize ⟨"USStock", "AAPL"⟩ none) ⟨⟨"USStock", "AAPL"⟩, none⟩).1 (-1) := by
  decide +kernel

end AlgoTrade.Backtest
