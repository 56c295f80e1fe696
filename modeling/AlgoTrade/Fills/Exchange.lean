import AlgoTrade.Fills.Stream
import Mathlib.Algebra.Order.BigOperators.Group.List

/-! # The exchange's side of one order

The fills of one order as the exchange makes them, and which of them the private
stream has already reported.  A stream event reports one fill, once, under a
fresh key: by the fill's own quantity, or by the cumulative quantity right after
it. -/

namespace AlgoTrade

structure Exchange where
  fills : List ℚ := []
  reported : List Nat := []
  keys : List Nat := []
  deriving DecidableEq, Repr

namespace Exchange

/-- The cumulative filled quantity. -/
def filled (x : Exchange) : ℚ := x.fills.sum

/-- The cumulative quantity right after the fill at `i`. -/
def filledAt (x : Exchange) (i : Nat) : ℚ := (x.fills.take (i + 1)).sum

/-- The next fill. -/
def fill (x : Exchange) (quantity : ℚ) : Exchange := { x with fills := x.fills ++ [quantity] }

/-- The fill at `index` is reported by `ev`. -/
def report (x : Exchange) (index : Nat) (ev : ExecutionEvent) : Exchange :=
  { x with reported := index :: x.reported, keys := ev.id :: x.keys }

/-- `ev` reports the fill at `index` for the first time, under a fresh key. -/
def reports (x : Exchange) (index : Nat) (ev : ExecutionEvent) : Bool :=
  index < x.fills.length ∧ index ∉ x.reported ∧ 0 < ev.id ∧ ev.id ∉ x.keys ∧
    if ev.cumulativeMode then ev.cumulativeQuantity = x.filledAt index
    else x.fills[index]? = some ev.quantity

/-- Every fill has a positive quantity. -/
def Positive (x : Exchange) : Prop := ∀ q ∈ x.fills, 0 < q

instance (x : Exchange) : Decidable x.Positive := inferInstanceAs (Decidable (∀ q ∈ x.fills, 0 < q))

@[simp] theorem filled_report (x : Exchange) (i : Nat) (ev : ExecutionEvent) :
    (x.report i ev).filled = x.filled := rfl

@[simp] theorem filled_fill (x : Exchange) (q : ℚ) : (x.fill q).filled = x.filled + q := by
  simp [filled, fill]

theorem Positive.fill {x : Exchange} (h : x.Positive) {q : ℚ} (hq : 0 < q) : (x.fill q).Positive := by
  intro r hr
  rcases List.mem_append.mp hr with hr | hr
  · exact h r hr
  · exact List.mem_singleton.mp hr ▸ hq

theorem Positive.filled_nonneg {x : Exchange} (h : x.Positive) : 0 ≤ x.filled :=
  List.sum_nonneg fun q hq => (h q hq).le

theorem Positive.filledAt_le {x : Exchange} (h : x.Positive) (i : Nat) : x.filledAt i ≤ x.filled := by
  have hdrop : 0 ≤ (x.fills.drop (i + 1)).sum :=
    List.sum_nonneg fun q hq => (h q (List.mem_of_mem_drop hq)).le
  have := List.sum_take_add_sum_drop x.fills (i + 1)
  unfold filledAt filled
  linarith

/-- A cumulative report never exceeds what the exchange filled. -/
theorem reports_cumulative {x : Exchange} {i : Nat} {ev : ExecutionEvent} (h : x.Positive)
    (hr : x.reports i ev = true) (hmode : ev.cumulativeMode = true) :
    max 0 ev.cumulativeQuantity ≤ x.filled := by
  simp only [reports, hmode, if_true, decide_eq_true_eq] at hr
  rw [hr.2.2.2.2]
  exact max_le h.filled_nonneg (h.filledAt_le i)

/-- An incremental report carries the fill's own, positive quantity. -/
theorem reports_incremental {x : Exchange} {i : Nat} {ev : ExecutionEvent} (h : x.Positive)
    (hr : x.reports i ev = true) (hmode : ev.cumulativeMode = false) : 0 < ev.quantity := by
  simp only [reports, hmode, Bool.false_eq_true, if_false, decide_eq_true_eq] at hr
  exact h _ (List.mem_of_getElem? hr.2.2.2.2)

theorem reports_key {x : Exchange} {i : Nat} {ev : ExecutionEvent} (hr : x.reports i ev = true) :
    0 < ev.id ∧ ev.id ∉ x.keys := by
  simp only [reports, decide_eq_true_eq] at hr
  exact ⟨hr.2.2.1, hr.2.2.2.1⟩

end Exchange

end AlgoTrade
