import Mathlib.Data.Rat.Defs
import Mathlib.Algebra.Order.Ring.Unbundled.Rat

/-! # Scalar members of a JSON object

What `obj.get(key)` yields for a key that holds a number: nothing, a number, or
a string that spells one.  Reading through aliases is Python's `or`: the first
truthy member wins, and a string is truthy even when it spells zero.

* `Scalar.asFloat_or`: a member read through an alias gives the member's value
  as soon as the alias does not contradict a zero. -/

namespace Json

/-- `text v` is a nonempty string that `float` reads as `v`; a string that is
not a number reads as zero. -/
inductive Scalar
  | absent
  | num (value : ℚ)
  | text (value : ℚ)
  deriving DecidableEq, Repr

namespace Scalar

def truthy : Scalar → Bool
  | absent => false
  | num value => value ≠ 0
  | text _ => true

/-- Python's `or`. -/
def or (a b : Scalar) : Scalar := if a.truthy then a else b

/-- `float(value or 0.0)`, zero when it does not parse. -/
def asFloat : Scalar → ℚ
  | absent => 0
  | num value => value
  | text value => value

/-- `value not in (None, "")`. -/
def given : Scalar → Bool
  | absent => false
  | _ => true

@[simp] theorem asFloat_absent : absent.asFloat = 0 := rfl
@[simp] theorem asFloat_num (v : ℚ) : (num v).asFloat = v := rfl
@[simp] theorem asFloat_text (v : ℚ) : (text v).asFloat = v := rfl
@[simp] theorem absent_or (b : Scalar) : absent.or b = b := rfl

theorem or_of_truthy {a : Scalar} (h : a.truthy = true) (b : Scalar) : a.or b = a := if_pos h

theorem or_of_not_truthy {a : Scalar} (h : a.truthy = false) (b : Scalar) : a.or b = b :=
  if_neg (Bool.eq_false_iff.mp h)

theorem asFloat_eq_zero_of_not_truthy {a : Scalar} (h : a.truthy = false) : a.asFloat = 0 := by
  cases a with
  | absent => rfl
  | num value => simpa [truthy] using h
  | text value => simp [truthy] at h

/-- The alias is read only when the member is zero or missing. -/
theorem asFloat_or {a b : Scalar} {v : ℚ} (ha : a.asFloat = v) (hb : v = 0 → b.asFloat = 0) :
    (a.or b).asFloat = v := by
  unfold or
  split
  · exact ha
  next h =>
    have hzero : v = 0 := ha ▸ asFloat_eq_zero_of_not_truthy (Bool.eq_false_iff.mpr h)
    rw [hb hzero, hzero]

end Scalar

end Json
