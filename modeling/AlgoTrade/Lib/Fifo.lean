import Mathlib.Algebra.Order.Ring.Defs
import Mathlib.Algebra.BigOperators.Group.List.Basic
import Mathlib.Algebra.Order.BigOperators.Group.List
import Mathlib.Tactic.Linarith
import Mathlib.Tactic.Ring

/-! # Lots used up first in, first out

A queue of lots, each of an amount with a cost per unit.

* `first`: the cost of the first units of a queue.
* `drop`: the queue without its first units; `drop_drop`, `first_drop`: stretches that
  follow one another.
* `drop_append`, `first_append`: lots that come later change nothing before them. -/

namespace Fifo

@[ext] structure Lot (α : Type*) where
  amount : α
  unitCost : α
  deriving DecidableEq, Repr

variable {α : Type*}

section
variable [CommRing α]

def size (lots : List (Lot α)) : α := (lots.map Lot.amount).sum

/-- What all the lots cost. -/
def total (lots : List (Lot α)) : α := (lots.map fun lot => lot.amount * lot.unitCost).sum

@[simp] theorem size_nil : size ([] : List (Lot α)) = 0 := rfl

@[simp] theorem size_cons (lot : Lot α) (lots : List (Lot α)) :
    size (lot :: lots) = lot.amount + size lots := List.sum_cons

@[simp] theorem total_nil : total ([] : List (Lot α)) = 0 := rfl

@[simp] theorem total_cons (lot : Lot α) (lots : List (Lot α)) :
    total (lot :: lots) = lot.amount * lot.unitCost + total lots := List.sum_cons

theorem size_append (lots later : List (Lot α)) : size (lots ++ later) = size lots + size later := by
  unfold size
  rw [List.map_append, List.sum_append]

theorem total_append (lots later : List (Lot α)) :
    total (lots ++ later) = total lots + total later := by
  unfold total
  rw [List.map_append, List.sum_append]

end

variable [CommRing α] [LinearOrder α]

/-- The cost of the first `x` units, or of all when there are fewer. -/
def first : List (Lot α) → α → α
  | [], _ => 0
  | lot :: lots, x =>
    if x < lot.amount then x * lot.unitCost
    else lot.amount * lot.unitCost + first lots (x - lot.amount)

/-- The lots without the first `x` units. -/
def drop : List (Lot α) → α → List (Lot α)
  | [], _ => []
  | lot :: lots, x =>
    if x < lot.amount then ⟨lot.amount - x, lot.unitCost⟩ :: lots else drop lots (x - lot.amount)

/-- Every lot has units. -/
def Positive (lots : List (Lot α)) : Prop := ∀ lot ∈ lots, 0 < lot.amount

section
variable {lots : List (Lot α)}

theorem Positive.tail {lot : Lot α} (h : Positive (lot :: lots)) : Positive lots :=
  fun l hl => h l (List.mem_cons_of_mem lot hl)

/-- Nothing taken. -/
theorem drop_zero (h : Positive lots) : drop lots 0 = lots := by
  cases lots with
  | nil => rfl
  | cons lot lots => rw [drop, if_pos (h lot List.mem_cons_self), sub_zero]

theorem first_zero (h : Positive lots) : first lots 0 = 0 := by
  cases lots with
  | nil => rfl
  | cons lot lots => rw [first, if_pos (h lot List.mem_cons_self), zero_mul]

end

variable [IsStrictOrderedRing α] {lots later : List (Lot α)} {x y : α}

theorem size_nonneg (h : Positive lots) : 0 ≤ size lots :=
  List.sum_nonneg fun a ha => by
    obtain ⟨lot, hlot, rfl⟩ := List.mem_map.mp ha
    exact (h lot hlot).le

theorem positive_drop (h : Positive lots) (x : α) : Positive (drop lots x) := by
  induction lots generalizing x with
  | nil => exact h
  | cons lot lots ih =>
    rw [drop]
    split
    next hx =>
      intro l hl
      rcases List.mem_cons.mp hl with rfl | hl
      · exact sub_pos.mpr hx
      · exact h.tail l hl
    next => exact ih h.tail _

/-! ## Everything taken -/

theorem first_of_size_le (h : Positive lots) (hx : size lots ≤ x) : first lots x = total lots := by
  induction lots generalizing x with
  | nil => rfl
  | cons lot lots ih =>
    rw [size_cons] at hx
    have hle : lot.amount ≤ x := by linarith [size_nonneg h.tail]
    rw [first, if_neg (not_lt.mpr hle), ih h.tail (by linarith), total_cons]

theorem drop_of_size_le (h : Positive lots) (hx : size lots ≤ x) : drop lots x = [] := by
  induction lots generalizing x with
  | nil => rfl
  | cons lot lots ih =>
    rw [size_cons] at hx
    have hle : lot.amount ≤ x := by linarith [size_nonneg h.tail]
    rw [drop, if_neg (not_lt.mpr hle), ih h.tail (by linarith)]

/-! ## Later lots -/

theorem first_append (hlater : Positive later) (h0 : 0 ≤ x) (hx : x ≤ size lots) :
    first (lots ++ later) x = first lots x := by
  induction lots generalizing x with
  | nil =>
    obtain rfl : x = 0 := le_antisymm hx h0
    exact first_zero hlater
  | cons lot lots ih =>
    rw [size_cons] at hx
    rw [List.cons_append, first, first]
    split
    next => rfl
    next hlot => rw [ih (sub_nonneg.mpr (not_lt.mp hlot)) (by linarith)]

theorem drop_append (hlater : Positive later) (h0 : 0 ≤ x) (hx : x ≤ size lots) :
    drop (lots ++ later) x = drop lots x ++ later := by
  induction lots generalizing x with
  | nil =>
    obtain rfl : x = 0 := le_antisymm hx h0
    exact drop_zero hlater
  | cons lot lots ih =>
    rw [size_cons] at hx
    rw [List.cons_append, drop, drop]
    split
    next => rfl
    next hlot => rw [ih (sub_nonneg.mpr (not_lt.mp hlot)) (by linarith)]

/-! ## Stretches -/

theorem drop_drop (h : Positive lots) (hx : 0 ≤ x) (hy : 0 ≤ y) :
    drop (drop lots x) y = drop lots (x + y) := by
  induction lots generalizing x with
  | nil => rfl
  | cons lot lots ih =>
    rw [drop, drop]
    by_cases hlot : x < lot.amount
    · rw [if_pos hlot, drop]
      dsimp only
      by_cases hboth : x + y < lot.amount
      · rw [if_pos (by linarith), if_pos hboth]
        refine congrArg (· :: lots) (Lot.ext ?_ rfl)
        dsimp only
        ring
      · rw [if_neg (by linarith), if_neg hboth]
        exact congrArg (drop lots) (by ring)
    · rw [if_neg hlot, if_neg (by linarith), ih h.tail (by linarith)]
      exact congrArg (drop lots) (by ring)

/-- The cost of a stretch. -/
theorem first_drop (h : Positive lots) (hx : 0 ≤ x) (hy : 0 ≤ y) :
    first (drop lots x) y = first lots (x + y) - first lots x := by
  induction lots generalizing x with
  | nil => exact (sub_self 0).symm
  | cons lot lots ih =>
    rw [drop, first, first]
    by_cases hlot : x < lot.amount
    · rw [if_pos hlot, if_pos hlot, first]
      dsimp only
      by_cases hboth : x + y < lot.amount
      · rw [if_pos (by linarith), if_pos hboth]
        ring
      · rw [if_neg (by linarith), if_neg hboth]
        have hrest : y - (lot.amount - x) = x + y - lot.amount := by ring
        rw [hrest]
        ring
    · have hrest : x - lot.amount + y = x + y - lot.amount := by ring
      rw [if_neg hlot, if_neg hlot, if_neg (by linarith), ih h.tail (by linarith), hrest]
      ring

/-- With no cost below zero, some of the units cost no more than all. -/
theorem first_le_total (h : Positive lots) (hcost : ∀ lot ∈ lots, 0 ≤ lot.amount * lot.unitCost)
    (hx : 0 ≤ x) : first lots x ≤ total lots := by
  have htotal : ∀ {lots : List (Lot α)}, (∀ lot ∈ lots, 0 ≤ lot.amount * lot.unitCost) →
      0 ≤ total lots := fun hcost => List.sum_nonneg fun a ha => by
    obtain ⟨lot, hlot, rfl⟩ := List.mem_map.mp ha
    exact hcost lot hlot
  induction lots generalizing x with
  | nil => exact le_rfl
  | cons lot lots ih =>
    have hlot := h lot List.mem_cons_self
    have hcosts : ∀ l ∈ lots, 0 ≤ l.amount * l.unitCost :=
      fun l hl => hcost l (List.mem_cons_of_mem lot hl)
    have hunit : 0 ≤ lot.unitCost := nonneg_of_mul_nonneg_right (hcost lot List.mem_cons_self) hlot
    rw [first, total_cons]
    split
    next hlt =>
      have hpart : x * lot.unitCost ≤ lot.amount * lot.unitCost :=
        mul_le_mul_of_nonneg_right hlt.le hunit
      linarith [htotal hcosts]
    next hle =>
      exact add_le_add_right (ih h.tail hcosts (sub_nonneg.mpr (not_lt.mp hle))) _

end Fifo
