import AlgoTrade.Ledger.FillRecords
import Mathlib.Algebra.BigOperators.Ring.List
import Mathlib.Algebra.Order.Field.Basic
import Mathlib.Algebra.Order.BigOperators.Group.List
import Mathlib.Tactic.FieldSimp

/-! # A fill that is recorded in parts

An order's fees come for the whole of it, its quantity in parts, and each part takes
its share of the fees.

* `spotPositionFillQuantity_smul`: a part of a fill moves the same part of its quantity.
* `proportional_sum`: the parts add up to the whole. -/

namespace AlgoTrade

/-- `proportional_spot_position_fill_quantity`, with the base currency of the symbol. -/
def proportionalSpotPositionFillQuantity (market : MarketType) (base : String) (signal : SignalType)
    (recordedQuantity cumulativeQuantity : ℚ) (cumulativeFeesByCcy : Fees) : ℚ :=
  let recorded := max 0 recordedQuantity
  let cumulative := max 0 cumulativeQuantity
  let share := if 0 < cumulative then min 1 (recorded / cumulative) else 1
  spotPositionFillQuantity market base signal recorded
    (cumulativeFeesByCcy.map fun e => (e.1, e.2 * share))

section
variable {market : MarketType} {base : String} {signal : SignalType} {fees : Fees} {q r share : ℚ}

theorem get_share (fees : Fees) (base : String) (share : ℚ) :
    Fees.get (fees.map fun e => (e.1, e.2 * share)) base = fees.get base * share := by
  induction fees with
  | nil => exact (zero_mul share).symm
  | cons e fees ih =>
    unfold Fees.get at ih ⊢
    rw [List.map_cons, List.lookup_cons, List.lookup_cons]
    split
    · rfl
    · exact ih

/-- **A part of a fill** moves the same part of what the whole moves. -/
theorem spotPositionFillQuantity_smul (hshare : 0 ≤ share) :
    spotPositionFillQuantity market base signal (q * share)
        (fees.map fun e => (e.1, e.2 * share)) =
      spotPositionFillQuantity market base signal q fees * share := by
  have hmax : ∀ x : ℚ, max 0 (x * share) = max 0 x * share := fun x => by
    rw [max_mul_of_nonneg _ _ hshare, zero_mul]
  unfold spotPositionFillQuantity
  rw [get_share, hmax]
  cases market with
  | swap => rfl
  | spot =>
    dsimp only
    rw [hmax]
    split
    · rw [← sub_mul, hmax]
    · rw [← sub_mul, hmax]
    · exact (add_mul _ _ _).symm
    · exact (add_mul _ _ _).symm
    · rfl

/-- The share of a part. -/
theorem proportional_eq (hr : 0 ≤ r) (hle : r ≤ q) (hq : 0 < q) :
    proportionalSpotPositionFillQuantity market base signal r q fees =
      spotPositionFillQuantity market base signal q fees * (r / q) := by
  have hshare : 0 ≤ r / q := div_nonneg hr hq.le
  have hpart : r = q * (r / q) := by field_simp
  unfold proportionalSpotPositionFillQuantity
  dsimp only
  rw [max_eq_right hr, max_eq_right hq.le, if_pos hq, min_eq_right ((div_le_one hq).mpr hle)]
  conv_lhs => arg 4; rw [hpart]
  exact spotPositionFillQuantity_smul hshare

/-- With nothing filled, a part is as good as the whole. -/
theorem proportional_zero :
    proportionalSpotPositionFillQuantity market base signal 0 0 fees =
      spotPositionFillQuantity market base signal 0 fees := by
  unfold proportionalSpotPositionFillQuantity
  simp

/-- `close_long` and `reduce_long` on a spot market: the fee comes out of what is held. -/
def LongExit (market : MarketType) (signal : SignalType) : Prop :=
  market = .spot ∧ (signal = .closeLong ∨ signal = .reduceLong)

/-- A position moves by no more than the quantity, or by the quantity and the fee on a
long exit. -/
theorem spotPositionFillQuantity_mem (hq : 0 ≤ q) :
    (¬ LongExit market signal → 0 ≤ spotPositionFillQuantity market base signal q fees ∧
      spotPositionFillQuantity market base signal q fees ≤ q) ∧
    (LongExit market signal → spotPositionFillQuantity market base signal q fees =
      q + max 0 (fees.get base)) := by
  have hfee : 0 ≤ max 0 (fees.get base) := le_max_left _ _
  unfold spotPositionFillQuantity LongExit
  rw [max_eq_right hq]
  cases market with
  | swap => exact ⟨fun _ => ⟨hq, le_rfl⟩, fun h => nomatch h.1⟩
  | spot =>
    dsimp only
    cases signal
    case openLong | addLong =>
      exact ⟨fun _ => ⟨le_max_left _ _, max_le hq (by linarith)⟩, fun h => by simp at h⟩
    case closeLong | reduceLong => exact ⟨fun h => by simp at h, fun _ => rfl⟩
    all_goals exact ⟨fun _ => ⟨hq, le_rfl⟩, fun h => by simp at h⟩

/-- **The parts add up**: what the position moves by for the parts is what it moves by for
the whole, and each part moves it by no more than its quantity, or on a long exit by
its quantity and its share of the fee.  When nothing is filled each part is the whole. -/
theorem proportional_sum {recorded : List ℚ} (hrecorded : ∀ r ∈ recorded, 0 ≤ r) :
    (recorded.map fun r =>
        proportionalSpotPositionFillQuantity market base signal r recorded.sum fees).sum =
      (if recorded.sum = 0 then (recorded.length : ℚ) else 1) *
        spotPositionFillQuantity market base signal recorded.sum fees ∧
    ∀ r ∈ recorded,
      (¬ LongExit market signal →
        0 ≤ proportionalSpotPositionFillQuantity market base signal r recorded.sum fees ∧
          proportionalSpotPositionFillQuantity market base signal r recorded.sum fees ≤ r) ∧
      (LongExit market signal →
        proportionalSpotPositionFillQuantity market base signal r recorded.sum fees =
          r + max 0 (fees.get base) * if recorded.sum = 0 then 1 else r / recorded.sum) := by
  have hsum : 0 ≤ recorded.sum := List.sum_nonneg hrecorded
  by_cases hzero : recorded.sum = 0
  · have hall : ∀ r ∈ recorded, r = 0 := fun r hr =>
      List.all_zero_of_le_zero_le_of_sum_eq_zero hrecorded hzero hr
    rw [if_pos hzero, hzero]
    refine ⟨?_, fun r hr => ?_⟩
    · have hsame : ∀ r ∈ recorded, proportionalSpotPositionFillQuantity market base signal r 0 fees =
          spotPositionFillQuantity market base signal 0 fees := fun r hr => by
        rw [hall r hr, proportional_zero]
      rw [List.map_congr_left hsame, List.map_const', List.sum_replicate, nsmul_eq_mul]
    · rw [hall r hr, proportional_zero, if_pos rfl, mul_one]
      exact spotPositionFillQuantity_mem le_rfl
  · have hpos : 0 < recorded.sum := lt_of_le_of_ne hsum (Ne.symm hzero)
    have hle : ∀ r ∈ recorded, r ≤ recorded.sum := List.single_le_sum hrecorded
    rw [if_neg hzero, one_mul]
    refine ⟨?_, fun r hr => ?_⟩
    · rw [List.map_congr_left fun r hr => proportional_eq (hrecorded r hr) (hle r hr) hpos,
        List.sum_map_mul_left]
      have hshares : (recorded.map fun r => r / recorded.sum).sum = 1 := by
        simp only [div_eq_mul_inv, List.sum_map_mul_right, List.map_id', mul_inv_cancel₀ hzero]
      rw [hshares, mul_one]
    · have hshare : 0 ≤ r / recorded.sum := div_nonneg (hrecorded r hr) hsum
      rw [proportional_eq (hrecorded r hr) (hle r hr) hpos, if_neg hzero]
      obtain ⟨hother, hexit⟩ := @spotPositionFillQuantity_mem market base signal fees _ hsum
      constructor
      · intro h
        obtain ⟨hnonneg, hgross⟩ := hother h
        refine ⟨mul_nonneg hnonneg hshare, ?_⟩
        calc _ ≤ recorded.sum * (r / recorded.sum) := mul_le_mul_of_nonneg_right hgross hshare
          _ = r := mul_div_cancel₀ r hzero
      · intro h
        rw [hexit h, add_mul, mul_div_cancel₀ r hzero]

/-- A purchase of 10 with a fee of 1 / 100 in the base currency, recorded in two parts. -/
theorem proportional_sum_purchase :
    ([4, 6].map fun r => proportionalSpotPositionFillQuantity .spot "SOL" .openLong r
      ([4, 6] : List ℚ).sum [("SOL", 1 / 100)]).sum = 999 / 100 := by
  refine (proportional_sum (by decide +kernel)).1.trans ?_
  decide +kernel

/-- A sale of 10 takes the fee off the position as well, and two parts of a sale that
filled nothing take it off twice. -/
theorem sale_above_gross :
    ¬ proportionalSpotPositionFillQuantity .spot "SOL" .closeLong 10 10 [("SOL", 1 / 100)] ≤ 10 ∧
      ([0, 0].map fun r => proportionalSpotPositionFillQuantity .spot "SOL" .closeLong r
          ([0, 0] : List ℚ).sum [("SOL", 1 / 100)]).sum ≠
        spotPositionFillQuantity .spot "SOL" .closeLong ([0, 0] : List ℚ).sum [("SOL", 1 / 100)] := by
  decide +kernel

end

end AlgoTrade
