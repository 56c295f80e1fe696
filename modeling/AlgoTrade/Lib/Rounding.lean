import Mathlib.Algebra.Order.Field.Basic
import Mathlib.Algebra.Order.Floor.Ring
import Mathlib.Algebra.Ring.Int.Parity
import Mathlib.Data.Int.ConditionallyCompleteOrder
import Mathlib.Tactic.Linarith

/-! # Rounding to the nearest, ties to even

* `halfEven`: the nearest integer, the even one of two.
* `roundTo`: the nearest number with so many decimals.
* `roundTo_mono`, `roundTo_lt`: rounding keeps the order, and numbers apart that are more
  than one unit of the last decimal apart. -/

namespace Rounding

variable {α : Type*} [Field α] [LinearOrder α] [FloorRing α]

/-- The nearest integer; of two at the same distance the even one. -/
def halfEven (x : α) : ℤ :=
  if Int.fract x < 1 / 2 then ⌊x⌋
  else if 1 / 2 < Int.fract x then ⌊x⌋ + 1
  else if Even ⌊x⌋ then ⌊x⌋
  else ⌊x⌋ + 1

/-- Python's `round(x, digits)`. -/
def roundTo (digits : ℕ) (x : α) : α := halfEven (x * 10 ^ digits) / 10 ^ digits

theorem floor_le_halfEven (x : α) : ⌊x⌋ ≤ halfEven x := by
  unfold halfEven
  split_ifs <;> omega

theorem halfEven_le_floor (x : α) : halfEven x ≤ ⌊x⌋ + 1 := by
  unfold halfEven
  split_ifs <;> omega

variable [IsStrictOrderedRing α]

theorem halfEven_mono : Monotone (halfEven : α → ℤ) := by
  intro x y hxy
  rcases (Int.floor_le_floor hxy).lt_or_eq with hlt | heq
  · exact (halfEven_le_floor x).trans ((Int.add_one_le_iff.mpr hlt).trans (floor_le_halfEven y))
  · have hfract : Int.fract x ≤ Int.fract y := by
      unfold Int.fract
      rw [heq]
      exact sub_le_sub_right hxy _
    unfold halfEven
    rw [heq]
    split_ifs <;> first | omega | (exfalso; linarith)

theorem abs_halfEven_sub_le (x : α) : |(halfEven x : α) - x| ≤ 1 / 2 := by
  have hfract : x = ⌊x⌋ + Int.fract x := (Int.floor_add_fract x).symm
  have hnonneg := Int.fract_nonneg x
  have hlt := Int.fract_lt_one x
  rw [abs_le]
  unfold halfEven
  split_ifs <;> push_cast <;> constructor <;> linarith

/-- Numbers more than one apart are rounded to different integers. -/
theorem halfEven_lt {x y : α} (h : x + 1 < y) : halfEven x < halfEven y := by
  have hx := (abs_le.mp (abs_halfEven_sub_le x)).2
  have hy := (abs_le.mp (abs_halfEven_sub_le y)).1
  have hlt : (halfEven x : α) < halfEven y := by linarith
  exact_mod_cast hlt

theorem roundTo_mono (digits : ℕ) : Monotone (roundTo digits : α → α) := by
  intro x y hxy
  have hpow : (0 : α) < 10 ^ digits := pow_pos (by norm_num) _
  have hround := halfEven_mono (mul_le_mul_of_nonneg_right hxy hpow.le)
  exact div_le_div_of_nonneg_right (by exact_mod_cast hround) hpow.le

theorem roundTo_lt {digits : ℕ} {x y : α} (h : 1 < (y - x) * 10 ^ digits) :
    roundTo digits x < roundTo digits y := by
  have hpow : (0 : α) < 10 ^ digits := pow_pos (by norm_num) _
  have hround := halfEven_lt (x := x * 10 ^ digits) (y := y * 10 ^ digits) (by linarith)
  exact div_lt_div_of_pos_right (by exact_mod_cast hround) hpow

end Rounding
