import Mathlib.Tactic.FieldSimp
import AlgoTrade.Robot.MartingaleLevels

/-! # The budget of a martingale cycle

What the levels may come to is bounded before the last level is bought, and the last
level takes what the others leave of the capital.

* `cost`: what the levels of the cycle may come to; `cost_submit` is what it becomes
  with the last level.
* `cycleBudget_kept`: the budget, one order for each level, and the final sweep.
* `forgottenFill_overspends`: a partial fill before a rejection is spent again. -/

namespace AlgoTrade.Robot.Martingale

variable {n : ℕ}

/-! ## The cost of the levels -/

/-- What a level may come to. -/
def levelCost (cfg : Config n) (levels : Fin n → Level) (i : Fin n) : ℚ :=
  if IsLast i then
    if (levels i).ref = none then 0 else (levels i).planned * (1 + cfg.feeRate)
  else if (levels i).status = .filled then (levels i).spend
  else cfg.startingCash * cfg.amountWeights i * (1 + cfg.feeRate)

def cost (cfg : Config n) (levels : Fin n → Level) : ℚ := ∑ i, levelCost cfg levels i

/-- What a pending level may still spend beyond its reservation: the spend that is taken
off the plan has its fee in it, the plan has not. -/
def levelGap (feeRate : ℚ) (l : Level) : ℚ :=
  if l.status = .pending then l.planned * (1 + feeRate) - l.spend - reservation feeRate l else 0

def gapTotal (cfg : Config n) (levels : Fin n → Level) : ℚ :=
  ∑ i, if IsLast i then 0 else levelGap cfg.feeRate (levels i)

/-- Once the last level is bought, the levels come to the capital and at most `slack`. -/
def LastOk (cfg : Config n) (slack : ℚ) (c : Purchases n) : Prop :=
  ∀ i, IsLast i → (c.levels i).ref ≠ none → cost cfg c.levels ≤ cfg.startingCash + slack

variable {cfg : Config n} {c c' : Purchases n}

theorem weighted_nonneg (cfg : Config n) (i : Fin n) :
    0 ≤ cfg.startingCash * cfg.amountWeights i :=
  mul_nonneg cfg.startingCash_nonneg (cfg.weights_nonneg i)

theorem levelCost_of_isLast {levels : Fin n → Level} {i : Fin n} (h : IsLast i) :
    levelCost cfg levels i =
      if (levels i).ref = none then 0 else (levels i).planned * (1 + cfg.feeRate) :=
  if_pos h

theorem levelCost_of_not_isLast {levels : Fin n → Level} {i : Fin n} (h : ¬ IsLast i) :
    levelCost cfg levels i =
      if (levels i).status = .filled then (levels i).spend
      else cfg.startingCash * cfg.amountWeights i * (1 + cfg.feeRate) :=
  if_neg h

/-- An order spends on a level at most its plan and the fee of it. -/
theorem share_le {o : LevelOrder n} (ho : OrderOk o) {planned : ℚ} (h : 0 ≤ planned) :
    share cfg o planned ≤ planned * (1 + cfg.feeRate) := by
  have hrate : o.filled / o.quote ≤ 1 := (div_le_one ho.quote_pos).mpr ho.filled_le
  calc share cfg o planned = o.filled / o.quote * (planned * (1 + cfg.feeRate)) := by
        unfold share
        ring
    _ ≤ 1 * (planned * (1 + cfg.feeRate)) :=
        mul_le_mul_of_nonneg_right hrate (mul_nonneg h (feeFactor_pos cfg).le)
    _ = planned * (1 + cfg.feeRate) := one_mul _

namespace Inv

theorem spend_le_planned (h : Inv cfg c) {i : Fin n} {r : Ref} (hr : (c.levels i).ref = some r) :
    (c.levels i).spend ≤ (c.levels i).planned * (1 + cfg.feeRate) := by
  obtain ⟨o, hb, hl⟩ := h.held i r hr
  exact hl.spend_le.trans (share_le (h.orders o (mem_of_find hb.find)) hl.planned_pos.le)

/-- A level that is not ready has a reference. -/
theorem ref_of_ne_ready (h : Inv cfg c) {i : Fin n} (hi : (c.levels i).status ≠ .ready) :
    ∃ r, (c.levels i).ref = some r := by
  cases hr : (c.levels i).ref with
  | none => exact absurd (h.free i hr).1 hi
  | some r => exact ⟨r, rfl⟩

theorem planned_eq (h : Inv cfg c) {i : Fin n} (hi : (c.levels i).status ≠ .ready)
    (hlast : ¬ IsLast i) : (c.levels i).planned = cfg.startingCash * cfg.amountWeights i := by
  obtain ⟨r, hr⟩ := h.ref_of_ne_ready hi
  obtain ⟨o, -, hl⟩ := h.held i r hr
  exact hl.planned_eq hlast

theorem spend_le_weighted (h : Inv cfg c) {i : Fin n} (hi : (c.levels i).status ≠ .ready)
    (hlast : ¬ IsLast i) :
    (c.levels i).spend ≤ cfg.startingCash * cfg.amountWeights i * (1 + cfg.feeRate) := by
  obtain ⟨r, hr⟩ := h.ref_of_ne_ready hi
  exact h.planned_eq hi hlast ▸ h.spend_le_planned hr

/-- Every level but the last costs at most its weight and the fee of it. -/
theorem levelCost_le_weighted (h : Inv cfg c) {i : Fin n} (hlast : ¬ IsLast i) :
    levelCost cfg c.levels i ≤ cfg.startingCash * cfg.amountWeights i * (1 + cfg.feeRate) := by
  rw [levelCost_of_not_isLast hlast]
  split
  next hf => exact h.spend_le_weighted (by rw [hf]; decide) hlast
  next => exact le_rfl

theorem spend_le_levelCost (h : Inv cfg c) {i : Fin n} (hf : (c.levels i).status = .filled) :
    (c.levels i).spend ≤ levelCost cfg c.levels i := by
  by_cases hlast : IsLast i
  · obtain ⟨r, hr⟩ := h.ref_of_ne_ready (i := i) (by rw [hf]; decide)
    rw [levelCost_of_isLast hlast, hr, if_neg (Option.some_ne_none r)]
    exact h.spend_le_planned hr
  · rw [levelCost_of_not_isLast hlast, if_pos hf]

/-- The order of a level costs no more than the level. -/
theorem committed_le_levelCost (h : Inv cfg c) (i : Fin n) :
    (match c.orderOf i with
      | some o => o.committed * (o.tag.part i / o.quote)
      | none => 0) * (1 + cfg.feeRate) ≤ levelCost cfg c.levels i := by
  rcases h.orderOf_cases i with ⟨hr, hnone⟩ | ⟨r, o, hr, ho, hb, hl, hok⟩
  · rw [hnone, zero_mul]
    by_cases hlast : IsLast i
    · rw [levelCost_of_isLast hlast, if_pos hr]
    · have hready : (c.levels i).status ≠ .filled := by
        rw [(h.free i hr).1]
        decide
      rw [levelCost_of_not_isLast hlast, if_neg hready]
      exact mul_nonneg (weighted_nonneg cfg i) (feeFactor_pos cfg).le
  · have hpart : o.tag.part i = (c.levels i).planned := by rw [hb.part, if_pos hr]
    have hle : o.committed * ((c.levels i).planned / o.quote) * (1 + cfg.feeRate) ≤
        (c.levels i).planned * (1 + cfg.feeRate) := by
      refine mul_le_mul_of_nonneg_right ?_ (feeFactor_pos cfg).le
      have hquote := hok.quote_pos
      have hcommitted : o.committed ≤ o.quote := by
        rw [hok.committed_eq]
        exact mul_le_of_le_one_right hquote.le hok.rate_le_one
      rw [mul_div_assoc', div_le_iff₀ hquote, mul_comm]
      exact mul_le_mul_of_nonneg_left hcommitted hl.planned_pos.le
    rw [ho]
    dsimp only
    rw [hpart]
    by_cases hlast : IsLast i
    · rw [levelCost_of_isLast hlast, hr, if_neg (Option.some_ne_none r)]
      exact hle
    · rw [levelCost_of_not_isLast hlast]
      split
      next hf =>
        obtain ⟨hstatus, hspend⟩ := hl.filled hf
        have hcommitted : o.committed = o.filled := by
          unfold Order.committed
          rw [hstatus, if_neg (by decide)]
        rw [hcommitted, hspend]
        unfold share
        exact le_of_eq (by ring)
      next => exact hl.planned_eq hlast ▸ hle

end Inv

/-- The sweeps of a cycle count for what they are. -/
theorem totalIn_ofSweep (orders : List (LevelOrder n)) (cycle : ℕ) (φ : LevelOrder n → ℚ) :
    totalIn orders cycle (ofSweep φ) =
      ((orders.filter fun o => o.tag.cycle = cycle ∧ o.tag.sweep).map φ).sum := by
  induction orders with
  | nil => rfl
  | cons o orders ih =>
    rw [totalIn_cons, ih, List.filter_cons]
    by_cases hc : o.tag.cycle = cycle
    · cases hs : o.tag.sweep with
      | true => simp [hc, hs, ofSweep]
      | false => simp [hc, hs, ofSweep]
    · simp [hc]

/-- An amount that no dead order has, over the orders of the cycle. -/
theorem Inv.totalIn_eq (h : Inv cfg c) {φ : LevelOrder n → ℚ}
    (hφ : ∀ o ∈ c.orders, o.rate = 0 → φ o = 0) :
    totalIn c.orders c.cycleNo φ = (c.sweeps.map φ).sum +
      ∑ i, match c.orderOf i with
        | some o => φ o * (o.tag.part i / o.quote)
        | none => 0 := by
  rw [totalIn_eq_sweep_add h.orders, totalIn_ofSweep]
  congr 1
  refine Finset.sum_congr rfl fun i _ => ?_
  let ψ : LevelOrder n → ℚ := fun o => if o.rate = 0 then 0 else φ o * (o.tag.part i / o.quote)
  have hψ : ∀ o ∈ c.orders, φ o * (o.tag.part i / o.quote) = ψ o := by
    intro o ho
    show _ = if o.rate = 0 then 0 else _
    split
    next hrate => rw [hφ o ho hrate, zero_mul]
    next => rfl
  have hcount := h.counted i ψ fun o ho => if_pos ho
  have htotal : totalIn c.orders c.cycleNo (partOf i fun o => φ o * (o.tag.part i / o.quote)) =
      totalIn c.orders c.cycleNo (partOf i ψ) := by
    refine totalIn_congr fun o ho => ?_
    unfold partOf
    split
    · rfl
    · exact hψ o ho
  rw [htotal, hcount]
  rcases h.orderOf_cases i with ⟨-, hnone⟩ | ⟨r, o, -, ho, hb, -, -⟩
  · rw [hnone]
  · rw [ho]
    exact (hψ o (mem_of_find hb.find)).symm

theorem Inv.committed_eq_zero (h : Inv cfg c) {o : LevelOrder n} (ho : o ∈ c.orders)
    (hrate : o.rate = 0) : o.committed = 0 := by
  rw [(h.orders o ho).committed_eq, hrate, mul_zero]

theorem Inv.filled_eq_zero (h : Inv cfg c) {o : LevelOrder n} (ho : o ∈ c.orders)
    (hrate : o.rate = 0) : o.filled = 0 :=
  le_antisymm (((h.orders o ho).filled_le_committed).trans (h.committed_eq_zero ho hrate).le)
    (h.orders o ho).filled_nonneg

/-- Without a sweep, the orders come to no more than the levels. -/
theorem Inv.committed_le_cost (h : Inv cfg c) (hno : c.sweeps = []) :
    totalIn c.orders c.cycleNo Order.committed * (1 + cfg.feeRate) ≤ cost cfg c.levels := by
  rw [h.totalIn_eq fun o ho => h.committed_eq_zero ho, hno, List.map_nil, List.sum_nil, zero_add,
    Finset.sum_mul]
  exact Finset.sum_le_sum fun i _ => h.committed_le_levelCost i

/-- With every level filled, their orders come to what was spent on them. -/
theorem Inv.spent_of_filled (h : Inv cfg c) (hf : ∀ i, (c.levels i).status = .filled)
    {φ : LevelOrder n → ℚ} (hφ : ∀ o ∈ c.orders, o.rate = 0 → φ o = 0)
    (heq : ∀ o ∈ c.orders, o.status = .filled → φ o = o.filled) :
    totalIn c.orders c.cycleNo φ * (1 + cfg.feeRate) =
      (c.sweeps.map φ).sum * (1 + cfg.feeRate) + spentTotal c.levels := by
  rw [h.totalIn_eq hφ, add_mul, Finset.sum_mul]
  congr 1
  refine Finset.sum_congr rfl fun i _ => ?_
  obtain ⟨r, hr⟩ := h.ref_of_ne_ready (i := i) (by rw [hf i]; decide)
  obtain ⟨o, hb, hl⟩ := h.held i r hr
  obtain ⟨hstatus, hspend⟩ := hl.filled (hf i)
  rw [hb.orderOf_eq hr]
  dsimp only
  rw [heq o (mem_of_find hb.find) hstatus, hb.part, if_pos hr, hspend]
  unfold share
  ring

/-! ## What the last level makes of the cost -/

/-- The levels cost at most the capital and its fee. -/
theorem Inv.cost_le (h : Inv cfg c) (hlast : LastOk cfg (cfg.startingCash * cfg.feeRate) c) :
    cost cfg c.levels ≤ cfg.startingCash * (1 + cfg.feeRate) := by
  by_cases hbought : ∃ i, IsLast i ∧ (c.levels i).ref ≠ none
  · obtain ⟨i, hi, hr⟩ := hbought
    exact (hlast i hi hr).trans (le_of_eq (by ring))
  · have hle : ∀ i, levelCost cfg c.levels i ≤
        cfg.startingCash * cfg.amountWeights i * (1 + cfg.feeRate) := by
      intro i
      by_cases hi : IsLast i
      · have hr : (c.levels i).ref = none := by
          by_contra hr
          exact hbought ⟨i, hi, hr⟩
        rw [levelCost_of_isLast hi, if_pos hr]
        exact mul_nonneg (weighted_nonneg cfg i) (feeFactor_pos cfg).le
      · exact h.levelCost_le_weighted hi
    calc cost cfg c.levels
        ≤ ∑ i, cfg.startingCash * cfg.amountWeights i * (1 + cfg.feeRate) :=
          Finset.sum_le_sum fun i _ => hle i
      _ = cfg.startingCash * (1 + cfg.feeRate) := by
          rw [← Finset.sum_mul, ← Finset.mul_sum, cfg.weights_sum, mul_one]

/-- **The budget** of the cycle, with what its orders may still fill. -/
theorem Inv.committed_le (h : Inv cfg c) (hlast : LastOk cfg (cfg.startingCash * cfg.feeRate) c) :
    totalIn c.orders c.cycleNo Order.committed * (1 + cfg.feeRate) ≤
      cfg.startingCash * (1 + cfg.feeRate) := by
  rcases h.sweep with hno | ⟨x, hone⟩
  · exact (h.committed_le_cost hno.sweeps).trans (h.cost_le hlast)
  · have hmem : x ∈ c.sweeps := by
      rw [hone.sweeps]
      exact List.mem_singleton_self x
    have hx := h.orders x (List.mem_of_mem_filter hmem)
    have hcommitted : x.committed ≤ x.quote := by
      rw [hx.committed_eq]
      exact mul_le_of_le_one_right hx.quote_pos.le hx.rate_le_one
    have hfilled : ∀ o ∈ c.orders, o.status = .filled → o.committed = o.filled := by
      intro o _ ho
      unfold Order.committed
      rw [ho, if_neg (by decide)]
    rw [h.spent_of_filled hone.filled (fun o ho => h.committed_eq_zero ho) hfilled, hone.sweeps,
      List.map_singleton, List.sum_singleton]
    have hfee := mul_le_mul_of_nonneg_right hcommitted (feeFactor_pos cfg).le
    have hcash : cfg.startingCash ≤ cfg.startingCash * (1 + cfg.feeRate) :=
      le_mul_of_one_le_right cfg.startingCash_nonneg (one_le_feeFactor cfg)
    linarith [hone.quote]

theorem reservation_of_pending {feeRate : ℚ} {l : Level} (h : l.status = .pending) :
    reservation feeRate l = max 0 (l.planned - l.spend) * (1 + feeRate) :=
  if_pos h

theorem levelGap_of_not_pending {feeRate : ℚ} {l : Level} (h : l.status ≠ .pending) :
    levelGap feeRate l = 0 :=
  if_neg h

/-- At most the fee of the plan is left out of a reservation. -/
theorem levelGap_le {feeRate : ℚ} {l : Level} (hf : 0 ≤ feeRate) (hl : 0 ≤ l.planned) :
    levelGap feeRate l ≤ feeRate * l.planned := by
  unfold levelGap
  split
  next hp =>
    rw [reservation_of_pending hp]
    rcases le_total l.spend l.planned with hle | hle
    · rw [max_eq_right (sub_nonneg.mpr hle)]
      have := mul_le_mul_of_nonneg_left hle hf
      linarith
    · rw [max_eq_left (sub_nonpos.mpr hle)]
      linarith
  next => exact mul_nonneg hf hl

theorem Inv.gapTotal_le (h : Inv cfg c) : gapTotal cfg c.levels ≤ cfg.startingCash * cfg.feeRate := by
  calc gapTotal cfg c.levels ≤ ∑ i, cfg.startingCash * cfg.amountWeights i * cfg.feeRate := by
        refine Finset.sum_le_sum fun i _ => ?_
        have hweight := mul_nonneg (weighted_nonneg cfg i) cfg.feeRate_nonneg
        split
        next => exact hweight
        next hlast =>
          by_cases hp : (c.levels i).status = .pending
          · have hplanned := h.planned_eq (by rw [hp]; decide) hlast
            have := levelGap_le (l := c.levels i) cfg.feeRate_nonneg
              (hplanned ▸ weighted_nonneg cfg i)
            rw [hplanned] at this
            linarith
          · rw [levelGap_of_not_pending hp]
            exact hweight
    _ = cfg.startingCash * cfg.feeRate := by
        rw [← Finset.sum_mul, ← Finset.mul_sum, cfg.weights_sum, mul_one]

section submit

variable {batch : Finset (Fin n)} {r : Ref}

/-- A level other than the last, where the last is in the batch: it costs what it spent, what
is reserved for it, and its gap. -/
theorem Submission.levelCost_eq (hs : Submission cfg c c' batch r) (h : Inv cfg c) {i j : Fin n}
    (hi : i ∈ batch) (hlast : IsLast i) (hj : ¬ IsLast j) :
    levelCost cfg c'.levels j = (c'.levels j).spend + reservation cfg.feeRate (c'.levels j) +
      levelGap cfg.feeRate (c.levels j) := by
  rw [levelCost_of_not_isLast hj]
  by_cases hjb : j ∈ batch
  · have hpending : (c'.levels j).status = .pending := by
      rw [hs.mem j hjb]
      rfl
    have hspend : (c'.levels j).spend = 0 := by
      rw [hs.mem j hjb]
      exact (hs.free h hjb).2
    have hready : (c.levels j).status ≠ .pending := by
      rw [hs.ready j hjb]
      decide
    rw [hpending, if_neg (by decide), reservation_of_pending hpending, hspend,
      levelGap_of_not_pending hready, hs.planned hjb, plannedQuote_of_not_isLast hj, sub_zero,
      max_eq_right (weighted_nonneg cfg j), zero_add, add_zero]
  · rw [hs.notMem j hjb]
    cases hstatus : (c.levels j).status with
    | ready =>
      have hnone := h.ref_of_ready hstatus
      have hquote := hs.last i hi hlast j hj hstatus hjb
      rw [plannedQuote_of_not_isLast hj] at hquote
      have hzero : cfg.startingCash * cfg.amountWeights j = 0 :=
        le_antisymm hquote (weighted_nonneg cfg j)
      unfold reservation
      rw [if_neg (by decide), hzero, zero_mul, (h.free j hnone).2, hstatus,
        if_neg (by decide), levelGap_of_not_pending (by rw [hstatus]; decide), add_zero, add_zero]
    | pending =>
      have hplanned := h.planned_eq (by rw [hstatus]; decide) hj
      unfold levelGap
      rw [if_neg (by decide), if_pos hstatus, hplanned]
      ring
    | filled =>
      unfold reservation
      rw [if_pos rfl, hstatus, if_neg (by decide),
        levelGap_of_not_pending (by rw [hstatus]; decide), add_zero, add_zero]

/-- **With the last level**, the levels cost the capital and what the reservations missed. -/
theorem Submission.cost_eq (hs : Submission cfg c c' batch r) (h : Inv cfg c) {i : Fin n}
    (hi : i ∈ batch) (hlast : IsLast i) :
    cost cfg c'.levels = cfg.startingCash + gapTotal cfg c.levels := by
  let reserved := ∑ j : Fin n, if j.val + 1 < n then reservation cfg.feeRate (c'.levels j) else 0
  have hspend : (c'.levels i).spend = 0 := by
    rw [hs.mem i hi]
    exact (hs.free h hi).2
  have hquote : plannedQuote cfg c'.levels i * (1 + cfg.feeRate) =
      cfg.startingCash - spentTotal c'.levels - reserved := by
    have heq : plannedQuote cfg c'.levels i =
        max 0 (cfg.startingCash - spentTotal c'.levels - reserved) / (1 + cfg.feeRate) := if_neg hlast
    have hpos := hs.quote_pos i hi
    rw [heq] at hpos ⊢
    rw [div_mul_cancel₀ _ (feeFactor_pos cfg).ne']
    rcases max_choice 0 (cfg.startingCash - spentTotal c'.levels - reserved) with hmax | hmax
    · rw [hmax, zero_div] at hpos
      exact absurd hpos (lt_irrefl 0)
    · exact hmax
  have heach : ∀ j, levelCost cfg c'.levels j = (c'.levels j).spend +
      (if j.val + 1 < n then reservation cfg.feeRate (c'.levels j) else 0) +
      (if IsLast j then 0 else levelGap cfg.feeRate (c.levels j)) +
      if j = i then plannedQuote cfg c'.levels i * (1 + cfg.feeRate) else 0 := by
    intro j
    by_cases hj : IsLast j
    · obtain rfl : j = i := by
        have h1 := j.isLt
        have h2 := i.isLt
        unfold IsLast at hj hlast
        exact Fin.ext (by omega)
      rw [levelCost_of_isLast hj, (hs.ref_iff h j).mpr hi, if_neg (Option.some_ne_none r),
        hs.planned hi, hspend, if_neg hj, if_pos hj, if_pos rfl, zero_add, zero_add, zero_add]
    · have hne : j ≠ i := fun heq => hj (heq ▸ hlast)
      rw [hs.levelCost_eq h hi hlast hj, if_pos (not_not.mp hj), if_neg hj, if_neg hne, add_zero]
  unfold cost
  rw [Finset.sum_congr rfl fun j _ => heach j, Finset.sum_add_distrib, Finset.sum_add_distrib,
    Finset.sum_add_distrib, Finset.sum_ite_eq' Finset.univ i, if_pos (Finset.mem_univ i), hquote]
  show spentTotal c'.levels + reserved + gapTotal cfg c.levels + _ = _
  ring

/-- Without the last level, a batch costs what was set aside for it. -/
theorem Submission.cost_of_notMem (hs : Submission cfg c c' batch r) {i : Fin n}
    (hi : i ∉ batch) (hlast : IsLast i) : cost cfg c'.levels = cost cfg c.levels := by
  refine Finset.sum_congr rfl fun j _ => ?_
  by_cases hj : j ∈ batch
  · have hnot : ¬ IsLast j := by
      intro hjl
      obtain rfl : j = i := by
        have h1 := j.isLt
        have h2 := i.isLt
        unfold IsLast at hjl hlast
        exact Fin.ext (by omega)
      exact hi hj
    have hpending : (c'.levels j).status = .pending := by
      rw [hs.mem j hj]
      rfl
    rw [levelCost_of_not_isLast hnot, levelCost_of_not_isLast hnot, hpending, hs.ready j hj,
      if_neg (by decide), if_neg (by decide)]
  · unfold levelCost
    rw [hs.notMem j hj]

theorem LastOk.submit {slack : ℚ} (hl : LastOk cfg slack c) (hs : Submission cfg c c' batch r)
    (h : Inv cfg c) (hgap : ∀ i ∈ batch, IsLast i → gapTotal cfg c.levels ≤ slack) :
    LastOk cfg slack c' := by
  intro i hlast hr
  by_cases hi : i ∈ batch
  · rw [hs.cost_eq h hi hlast]
    exact add_le_add_right (hgap i hi hlast) cfg.startingCash
  · rw [hs.cost_of_notMem hi hlast]
    rw [hs.notMem i hi] at hr
    exact hl i hlast hr

end submit

/-- Reports make no level dearer. -/
theorem Inv.levelCost_reconcile (h : Inv cfg c) (i : Fin n) :
    levelCost cfg (c.reconcile cfg).levels i ≤ levelCost cfg c.levels i := by
  cases h.reconciled i with
  | free hr heq =>
    unfold levelCost
    rw [heq]
  | failed hr hb ho heq =>
    have hnot : (c.levels i).status ≠ .filled := by
      intro hf
      obtain ⟨o', hb', hl⟩ := h.held i _ hr
      obtain rfl := Option.some.inj (hb'.find.symm.trans hb.find)
      rw [(hl.filled hf).1] at ho
      cases ho
    by_cases hlast : IsLast i
    · obtain ⟨o', hb', hl⟩ := h.held i _ hr
      rw [levelCost_of_isLast hlast, levelCost_of_isLast hlast, heq, if_pos rfl, hr,
        if_neg (Option.some_ne_none _)]
      exact mul_nonneg hl.planned_pos.le (feeFactor_pos cfg).le
    · have hready : ((c.reconcile cfg).levels i).status ≠ .filled := by
        rw [heq]
        exact fun hf => by cases hf
      rw [levelCost_of_not_isLast hlast, levelCost_of_not_isLast hlast, if_neg hready,
        if_neg hnot]
  | @kept r o status hr hb ho hstatus hfilled heq =>
    by_cases hlast : IsLast i
    · rw [levelCost_of_isLast hlast, levelCost_of_isLast hlast, heq]
      exact le_rfl
    · by_cases hf : (c.levels i).status = .filled
      · obtain ⟨hf', hspend⟩ := h.filled_reconcile hf
        rw [levelCost_of_not_isLast hlast, levelCost_of_not_isLast hlast, if_pos hf, if_pos hf',
          hspend]
      · have hdear : levelCost cfg c.levels i =
            cfg.startingCash * cfg.amountWeights i * (1 + cfg.feeRate) := by
          rw [levelCost_of_not_isLast hlast, if_neg hf]
        rw [hdear]
        exact h.reconcile.levelCost_le_weighted hlast

theorem LastOk.reconcile {slack : ℚ} (hl : LastOk cfg slack c) (h : Inv cfg c) :
    LastOk cfg slack (c.reconcile cfg) := by
  intro i hlast hr
  obtain ⟨r, hr'⟩ := Option.ne_none_iff_exists'.mp hr
  obtain ⟨o, status, href, -⟩ := h.ref_reconcile hr'
  have hcost : cost cfg (c.reconcile cfg).levels ≤ cost cfg c.levels :=
    Finset.sum_le_sum fun j _ => h.levelCost_reconcile j
  exact hcost.trans (hl i hlast (by rw [href]; exact Option.some_ne_none r))

/-! ## Moves and runs -/

section moves

variable {P : (Fin n → Level) → Prop} {slack : ℚ}

/-- A move keeps what the last level may come to, if it is bought with little enough missed. -/
theorem Move.lastOk (hm : Move cfg P c c') (h : Inv cfg c) (hl : LastOk cfg slack c)
    (hgap : P c.levels → gapTotal cfg c.levels ≤ slack) : LastOk cfg slack c' := by
  cases hm with
  | order => exact hl
  | reconcile => exact hl.reconcile h
  | sweepEnds => exact hl
  | newCycle => exact fun i _ hr => absurd rfl hr
  | submit hs hP => exact hl.submit hs h fun i hi hlast => hgap (hP i hi hlast)
  | sweep => exact hl
  | sweepSpared => exact hl

/-- What every move keeps, whatever was missed. -/
def Kept (cfg : Config n) (c : Purchases n) : Prop :=
  Inv cfg c ∧ LastOk cfg (cfg.startingCash * cfg.feeRate) c

theorem Move.kept (hm : Move cfg P c c') (h : Kept cfg c) : Kept cfg c' := by
  obtain ⟨hinv, hlast⟩ := h
  refine ⟨?_, hm.lastOk hinv hlast fun _ => hinv.gapTotal_le⟩
  cases hm with
  | order h hfail => exact hinv.moves h hfail
  | reconcile => exact hinv.reconcile
  | sweepEnds href => exact hinv.sweepEnds href
  | newCycle => exact hinv.newCycle (hinv.committed_le hlast)
  | submit hs => exact hinv.submit hs
  | sweep _ hfilled hdone href hmin => exact hinv.sweepOpens hfilled hdone href hmin
  | sweepSpared hfilled hmin => exact hinv.sweepSpared hfilled hmin

theorem Chain.kept (hc : Chain cfg P c c') (h : Kept cfg c) : Kept cfg c' := by
  induction hc with
  | refl => exact h
  | tail _ hm ih => exact hm.kept ih

theorem Chain.lastOk (hc : Chain cfg P c c') (h : Kept cfg c) (hl : LastOk cfg slack c)
    (hgap : ∀ levels, P levels → gapTotal cfg levels ≤ slack) : LastOk cfg slack c' := by
  induction hc with
  | refl => exact hl
  | tail hpre hm ih => exact hm.lastOk (Chain.kept hpre h).1 ih (hgap _)

end moves

/-! ## What the reservations miss -/

/-- What a callback misses of a working order when it takes its spend, with the fee, off
its plan, without. -/
def missedOf (cfg : Config n) (o : LevelOrder n) : ℚ :=
  if o.tag.sweep = false ∧ o.status = .working then
    (1 + cfg.feeRate) * min (cfg.feeRate * o.filled) (o.quote - o.filled)
  else 0

/-- The same over the orders of the cycle. -/
def System.missed (cfg : Config n) (s : System n) : ℚ :=
  totalIn s.orders s.g.cycleNo (missedOf cfg)

theorem missedOf_nonneg {o : LevelOrder n} (h : OrderOk o) : 0 ≤ missedOf cfg o := by
  unfold missedOf
  split
  next =>
    refine mul_nonneg (feeFactor_pos cfg).le (le_min ?_ (sub_nonneg.mpr h.filled_le))
    exact mul_nonneg cfg.feeRate_nonneg h.filled_nonneg
  next => exact le_rfl

/-- The gap of a level whose order works. -/
theorem levelGap_le_missedOf {o : LevelOrder n} {l : Level} (ho : OrderOk o)
    (hlevel : o.tag.sweep = false) (hw : o.status = .working) (hl : 0 ≤ l.planned) :
    levelGap cfg.feeRate (l.settle (share cfg o l.planned) .pending) ≤
      missedOf cfg o * (l.planned / o.quote) := by
  have hpart : 0 ≤ l.planned / o.quote := div_nonneg hl ho.quote_pos.le
  have hplan : l.planned * (1 + cfg.feeRate) - share cfg o l.planned =
      (1 + cfg.feeRate) * (o.quote - o.filled) * (l.planned / o.quote) := by
    have := ho.quote_pos.ne'
    unfold share
    field_simp
  have hfee : cfg.feeRate * share cfg o l.planned =
      (1 + cfg.feeRate) * (cfg.feeRate * o.filled) * (l.planned / o.quote) := by
    unfold share
    ring
  have hgap : levelGap cfg.feeRate (l.settle (share cfg o l.planned) .pending) =
      l.planned * (1 + cfg.feeRate) - share cfg o l.planned -
        max 0 (l.planned - share cfg o l.planned) * (1 + cfg.feeRate) := rfl
  have hmissed : missedOf cfg o =
      (1 + cfg.feeRate) * min (cfg.feeRate * o.filled) (o.quote - o.filled) := if_pos ⟨hlevel, hw⟩
  rw [hgap, hmissed]
  rcases min_choice (cfg.feeRate * o.filled) (o.quote - o.filled) with hmin | hmin
  · rw [hmin, ← hfee]
    have := mul_le_mul_of_nonneg_right (le_max_right 0 (l.planned - share cfg o l.planned))
      (feeFactor_pos cfg).le
    linarith
  · rw [hmin, ← hplan]
    have := mul_nonneg (le_max_left 0 (l.planned - share cfg o l.planned)) (feeFactor_pos cfg).le
    linarith

/-- **The gap** of the levels as the reports leave them. -/
theorem Inv.gapTotal_reconcile_le (h : Inv cfg c) :
    gapTotal cfg (c.reconcile cfg).levels ≤ totalIn c.orders c.cycleNo (missedOf cfg) := by
  have hdead : ∀ o ∈ c.orders, o.rate = 0 → missedOf cfg o = 0 := by
    intro o _ ho
    refine if_neg fun hw => ?_
    have hrate : o.rate = 1 := if_pos hw.2
    rw [hrate] at ho
    exact one_ne_zero ho
  have hsweeps : 0 ≤ (c.sweeps.map (missedOf cfg)).sum := by
    refine List.sum_nonneg fun x hx => ?_
    obtain ⟨o, ho, rfl⟩ := List.mem_map.mp hx
    exact missedOf_nonneg (h.orders o (List.mem_of_mem_filter ho))
  rw [h.totalIn_eq hdead]
  refine le_add_of_nonneg_of_le hsweeps (Finset.sum_le_sum fun i _ => ?_)
  have hnonneg : 0 ≤ match c.orderOf i with
      | some o => missedOf cfg o * (o.tag.part i / o.quote)
      | none => 0 := by
    rcases h.orderOf_cases i with ⟨-, hnone⟩ | ⟨r, o, -, ho, -, -, hok⟩
    · rw [hnone]
    · rw [ho]
      exact mul_nonneg (missedOf_nonneg hok) (div_nonneg (hok.part_nonneg i) hok.quote_pos.le)
  split
  next => exact hnonneg
  next =>
    cases h.reconciled i with
    | free hr heq =>
      have hready : (c.levels i).status ≠ .pending := by
        rw [(h.free i hr).1]
        decide
      rw [heq, levelGap_of_not_pending hready]
      exact hnonneg
    | failed _ _ _ heq =>
      rw [heq, levelGap_of_not_pending (fun hp => by cases hp)]
      exact hnonneg
    | @kept r o status hr hb ho hstatus hfilled heq =>
      obtain ⟨o', hb', hl⟩ := h.held i r hr
      obtain rfl := Option.some.inj (hb'.find.symm.trans hb.find)
      have hok := h.orders o' (mem_of_find hb.find)
      rw [heq]
      cases status with
      | ready => exact absurd rfl hstatus
      | filled =>
        rw [levelGap_of_not_pending (fun hp => by cases hp)]
        exact hnonneg
      | pending =>
        have hworking : o'.status = .working := by
          have hne : o'.status ≠ .filled := fun hf => by cases hfilled.mpr hf
          cases hs : o'.status with
          | working => rfl
          | filled => exact absurd hs hne
          | rejected | failed | cancelled | canceled | expired =>
            rw [hs] at ho
            cases ho
        rw [hb.orderOf_eq hr]
        dsimp only
        rw [hb.part, if_pos hr]
        exact levelGap_le_missedOf hok hb.level hworking hl.planned_pos.le

/-- The last level is only bought while the reservations miss at most what a sweep leaves. -/
def ReservesEnough (cfg : Config n) (s : System n) : Label → Prop :=
  BuysLastFrom cfg (fun _ => s.missed cfg ≤ finalSweepMinQuote) s

instance (s : System n) (l : Label) : Decidable (ReservesEnough cfg s l) :=
  inferInstanceAs (Decidable (BuysLastFrom cfg (fun _ => s.missed cfg ≤ finalSweepMinQuote) s l))

theorem ReservesEnough.buysLastFrom {s : System n} {l : Label} (hr : ReservesEnough cfg s l)
    (h : Inv cfg s.purchases) :
    BuysLastFrom cfg (fun levels => gapTotal cfg levels ≤ finalSweepMinQuote) s l := by
  have hgap : gapTotal cfg (reconcileLevels (s.status cfg) s.g.levels) ≤ s.missed cfg :=
    h.gapTotal_reconcile_le
  cases l with
  | tick price seen =>
    intro hgo hdue
    have hlevels : (tickEntry cfg price seen s).1.g.levels =
        reconcileLevels (s.status cfg) s.g.levels :=
      (chain_tickEntry (P := fun _ => True) price seen s).2 hgo
    rw [hlevels]
    exact hgap.trans (hr hgo hdue)
  | bar low high close seen =>
    intro hgo hdue
    have hlevels : (barEntry cfg close seen s).1.g.levels =
        reconcileLevels (s.status cfg) s.g.levels :=
      (chain_barEntry (P := fun _ => True) close seen s).2 hgo
    rw [hlevels]
    exact hgap.trans (hr hgo hdue)
  | _ => trivial

theorem buysLastFrom_true (s : System n) (l : Label) : BuysLastFrom cfg (fun _ => True) s l := by
  cases l with
  | tick | bar => exact fun _ _ => trivial
  | _ => trivial

/-! ## The budget over runs -/

theorem kept_start : Kept cfg (start : System n).purchases := by
  refine ⟨⟨fun o ho => ?_, fun o ho => ?_, fun _ _ => ⟨rfl, rfl⟩, fun _ _ hr => (by cases hr),
    fun _ _ hr => (by cases hr), fun _ _ _ => rfl, .inl ⟨rfl, rfl, fun hd => (by cases hd)⟩,
    fun cycle _ => ?_⟩, fun _ _ hr => absurd rfl hr⟩
  · cases ho
  · cases ho
  · have hzero : ∀ φ : LevelOrder n → ℚ, totalIn (start : System n).purchases.orders cycle φ = 0 :=
      fun _ => rfl
    rw [hzero, zero_mul]
    refine ⟨mul_nonneg cfg.startingCash_nonneg (feeFactor_pos cfg).le, fun i => ?_⟩
    rw [hzero]
    exact zero_le_one

theorem kept_of_step (s : System n) (l : Label) (s' : System n) (h : Kept cfg s.purchases)
    (hfail : NoPartialFailure s l) (hs : step cfg s l = some s') : Kept cfg s'.purchases :=
  Chain.kept (chain_of_step hs hfail (buysLastFrom_true s l)) h

theorem kept_of_run {labels : List Label} {s : System n}
    (hrun : Runs.run (step cfg) start labels = some s)
    (hfail : Runs.AllSteps (step cfg) NoPartialFailure start labels) : Kept cfg s.purchases :=
  Runs.run_invariant_of_allSteps kept_of_step kept_start hfail hrun

theorem lastOk_of_run {labels : List Label} {s : System n}
    (hrun : Runs.run (step cfg) start labels = some s)
    (hfail : Runs.AllSteps (step cfg) NoPartialFailure start labels)
    (hres : Runs.AllSteps (step cfg) (ReservesEnough cfg) start labels) :
    LastOk cfg finalSweepMinQuote s.purchases := by
  have hboth : Runs.AllSteps (step cfg) (fun s l => NoPartialFailure s l ∧ ReservesEnough cfg s l)
      start labels := Runs.allSteps_and hfail hres
  have hlast : ∀ (s : System n) (l : Label) (s' : System n),
      Kept cfg s.purchases ∧ LastOk cfg finalSweepMinQuote s.purchases →
      NoPartialFailure s l ∧ ReservesEnough cfg s l → step cfg s l = some s' →
      Kept cfg s'.purchases ∧ LastOk cfg finalSweepMinQuote s'.purchases := by
    rintro s l s' ⟨hkept, hl⟩ ⟨hok, hr⟩ hs
    have hchain := chain_of_step hs hok (hr.buysLastFrom hkept.1)
    exact ⟨Chain.kept hchain hkept, Chain.lastOk hchain hkept hl fun _ hgap => hgap⟩
  exact (Runs.run_invariant_of_allSteps hlast ⟨kept_start, fun _ _ hr => absurd rfl hr⟩ hboth hrun).2

theorem Inv.committed_le_of_cycle (h : Kept cfg c) (cycle : ℕ) :
    totalIn c.orders cycle Order.committed * (1 + cfg.feeRate) ≤
        cfg.startingCash * (1 + cfg.feeRate) ∧
      ∀ i, totalIn c.orders cycle (partOf i live) ≤ 1 := by
  obtain ⟨hinv, hlast⟩ := h
  rcases lt_trichotomy cycle c.cycleNo with hlt | rfl | hgt
  · exact hinv.past cycle hlt
  · exact ⟨hinv.committed_le hlast, hinv.live_le_one⟩
  · have hnone : ∀ o ∈ c.orders, o.tag.cycle ≠ cycle :=
      fun o ho => ((hinv.cycles o ho).trans_lt hgt).ne
    rw [totalIn_eq_zero hnone, zero_mul]
    refine ⟨mul_nonneg cfg.startingCash_nonneg (feeFactor_pos cfg).le, fun i => ?_⟩
    rw [totalIn_eq_zero hnone]
    exact zero_le_one

theorem spentIn_eq (s : System n) (cycle : ℕ) :
    s.spentIn cfg cycle = totalIn s.orders cycle Order.filled * (1 + cfg.feeRate) := by
  unfold System.spentIn totalIn
  rw [← List.sum_map_mul_right]
  congr 2
  funext o
  rw [ite_mul, zero_mul]

/-- The orders of a cycle that filled something for a level. -/
def System.fillersOf (s : System n) (cycle : ℕ) (i : Fin n) : List (LevelOrder n) :=
  s.orders.filter fun o => o.tag.cycle = cycle ∧ o.tag.part i ≠ 0 ∧ 0 < o.filled

/-- Orders that each count for one are no more than the total. -/
theorem length_filter_le_totalIn {orders : List (LevelOrder n)} {cycle : ℕ}
    {p : LevelOrder n → Prop} [DecidablePred p] {φ : LevelOrder n → ℚ}
    (h0 : ∀ o ∈ orders, 0 ≤ φ o) (h1 : ∀ o ∈ orders, p o → 1 ≤ φ o) :
    ((orders.filter fun o => o.tag.cycle = cycle ∧ p o).length : ℚ) ≤ totalIn orders cycle φ := by
  induction orders with
  | nil => exact le_rfl
  | cons o orders ih =>
    have hrest := ih (fun o ho => h0 o (List.mem_cons_of_mem _ ho))
      fun o ho => h1 o (List.mem_cons_of_mem _ ho)
    rw [totalIn_cons, List.filter_cons]
    by_cases hc : o.tag.cycle = cycle
    · by_cases hp : p o
      · rw [if_pos (decide_eq_true ⟨hc, hp⟩), if_pos hc, List.length_cons, Nat.cast_succ]
        have := h1 o List.mem_cons_self hp
        linarith
      · rw [if_neg (by simp [hp]), if_pos hc]
        have := h0 o List.mem_cons_self
        linarith
    · rw [if_neg (by simp [hc]), if_neg hc, zero_add]
      exact hrest

theorem fillersOf_length_le {s : System n} (h : ∀ o ∈ s.orders, OrderOk o) (cycle : ℕ)
    (i : Fin n) : ((s.fillersOf cycle i).length : ℚ) ≤ totalIn s.orders cycle (partOf i live) := by
  refine length_filter_le_totalIn (p := fun o => o.tag.part i ≠ 0 ∧ 0 < o.filled)
    (fun o _ => ?_) fun o ho hp => ?_
  · unfold partOf live
    split
    · exact le_rfl
    · split
      · exact le_rfl
      · exact zero_le_one
  · have hrate : o.rate ≠ 0 := by
      unfold Order.rate
      split
      · exact one_ne_zero
      · exact (div_pos hp.2 (h o ho).quote_pos).ne'
    unfold partOf live
    rw [if_neg hp.1, if_neg hrate]

/-- The sweep of the cycle is filled, up to what would not be worth a sweep. -/
def System.SweepFilled (cfg : Config n) (s : System n) : Prop :=
  ∀ o ∈ s.orders, o.tag.cycle = s.g.cycleNo → o.tag.sweep = true →
    (o.quote - o.filled) * (1 + cfg.feeRate) ≤ finalSweepMinQuote

/-- With every level filled and the sweep done, the cycle spent the capital. -/
theorem spentIn_near {s : System n} (h : Inv cfg s.purchases)
    (hlast : LastOk cfg finalSweepMinQuote s.purchases) (hn : n ≠ 0)
    (hf : ∀ i, (s.g.levels i).status = .filled) (hdone : s.g.finalSweepDone = true)
    (hsweep : s.SweepFilled cfg) :
    |s.spentIn cfg s.g.cycleNo - cfg.startingCash| ≤ finalSweepMinQuote := by
  have hmin : (0 : ℚ) ≤ finalSweepMinQuote := by decide +kernel
  have hspent : s.spentIn cfg s.g.cycleNo =
      (s.purchases.sweeps.map Order.filled).sum * (1 + cfg.feeRate) + spentTotal s.g.levels := by
    rw [spentIn_eq]
    exact h.spent_of_filled hf (fun o ho => h.filled_eq_zero ho) fun o _ _ => rfl
  rw [hspent]
  rcases h.sweep with hno | ⟨o, hone⟩
  · rw [hno.sweeps, List.map_nil, List.sum_nil, zero_mul, zero_add, abs_le]
    have hleft := (hno.done hdone).2
    have hcost : spentTotal s.g.levels ≤ cost cfg s.g.levels :=
      Finset.sum_le_sum fun i _ => h.spend_le_levelCost (hf i)
    have hlt : n - 1 < n := Nat.sub_one_lt hn
    have hi : IsLast (⟨n - 1, hlt⟩ : Fin n) := by
      unfold IsLast
      dsimp only
      omega
    obtain ⟨r, hr⟩ := h.ref_of_ne_ready (i := ⟨n - 1, hlt⟩) (by
      show (s.g.levels _).status ≠ .ready
      rw [hf]
      decide)
    have hcap := hlast _ hi (by rw [hr]; exact Option.some_ne_none r)
    constructor
    · have : cfg.startingCash - spentTotal s.g.levels < finalSweepMinQuote := hleft
      linarith
    · have : cost cfg s.g.levels ≤ cfg.startingCash + finalSweepMinQuote := hcap
      linarith
  · have hmem : o ∈ s.purchases.sweeps := by
      rw [hone.sweeps]
      exact List.mem_singleton_self o
    obtain ⟨ho, htag⟩ := List.mem_filter.mp hmem
    obtain ⟨hc, hs⟩ := of_decide_eq_true htag
    have hquote : spentTotal s.g.levels + o.quote * (1 + cfg.feeRate) = cfg.startingCash := hone.quote
    have hfilled := hsweep o ho hc hs
    have hle := mul_le_mul_of_nonneg_right (h.orders o ho).filled_le (feeFactor_pos cfg).le
    rw [hone.sweeps, List.map_singleton, List.sum_singleton, abs_le]
    constructor
    · linarith
    · linarith

/-- **The budget.**  In every run in which no order of a level fails after a partial fill:
no cycle spends more than the capital and its fee, and each level is filled by one order.
When the last level is bought with little enough missed, a finished cycle has spent the
capital up to what is not worth a sweep. -/
theorem cycleBudget_kept (cfg : Config n) (labels : List Label) (s : System n)
    (hrun : Runs.run (step cfg) start labels = some s)
    (hfail : Runs.AllSteps (step cfg) NoPartialFailure start labels) :
    (∀ cycle, s.spentIn cfg cycle ≤ cfg.startingCash * (1 + cfg.feeRate)) ∧
      (∀ cycle i, (s.fillersOf cycle i).length ≤ 1) ∧
      (Runs.AllSteps (step cfg) (ReservesEnough cfg) start labels → s.g.allFilled = true →
        s.g.finalSweepDone = true → s.SweepFilled cfg →
        |s.spentIn cfg s.g.cycleNo - cfg.startingCash| ≤ finalSweepMinQuote) := by
  have hkept := kept_of_run hrun hfail
  have horders : ∀ o ∈ s.orders, OrderOk o := hkept.1.orders
  refine ⟨fun cycle => ?_, fun cycle i => ?_, fun hres hf hdone hsweep => ?_⟩
  · have hbudget := (Inv.committed_le_of_cycle hkept cycle).1
    rw [spentIn_eq]
    refine (mul_le_mul_of_nonneg_right ?_ (feeFactor_pos cfg).le).trans hbudget
    exact totalIn_mono fun o ho => (horders o ho).filled_le_committed
  · have hone := (Inv.committed_le_of_cycle hkept cycle).2 i
    have hle := (fillersOf_length_le horders cycle i).trans hone
    exact_mod_cast hle
  · have hn : n ≠ 0 := by
      rintro rfl
      have := cfg.weights_sum
      rw [Finset.univ_eq_empty, Finset.sum_empty] at this
      exact zero_ne_one this
    exact spentIn_near hkept.1 (lastOk_of_run hrun hfail hres) hn (of_decide_eq_true hf) hdone hsweep

/-! ## Two levels of a half each -/

/-- Levels at 100 and 90 for a capital of 1000, without fees. -/
def halves : Config 2 where
  priceLevels := ![100, 90]
  amountWeights := ![1 / 2, 1 / 2]
  startingCash := 1000
  commissionParam := some 0
  startingCash_nonneg := by decide +kernel
  weights_nonneg := by decide +kernel
  weights_sum := by decide +kernel

/-- A bar that touches both levels buys both in one order. -/
theorem cycleBudget_kept_oneBatch :
    ∃ s, Runs.run (step halves) start
        [.bar 85 100 90 {}, .fills (.levels 1 0 1 0) 1000, .ends (.levels 1 0 1 0) .filled,
          .bar 85 100 90 { amount := 10, average := 100, totalValue := 1000 }] = some s ∧
      |s.spentIn halves s.g.cycleNo - 1000| ≤ finalSweepMinQuote := by
  obtain ⟨s, hs, hfilled, hdone, hsweep⟩ := Runs.exists_of_any
    (o := Runs.run (step halves) start
      [.bar 85 100 90 {}, .fills (.levels 1 0 1 0) 1000, .ends (.levels 1 0 1 0) .filled,
        .bar 85 100 90 { amount := 10, average := 100, totalValue := 1000 }])
    (p := fun s => s.g.allFilled = true ∧ s.g.finalSweepDone = true ∧ s.orders.all fun o =>
      !o.tag.sweep) (by decide +kernel)
  refine ⟨s, hs, (cycleBudget_kept halves _ s hs (by decide +kernel)).2.2 (by decide +kernel) hfilled
    hdone fun o ho _ hsw => ?_⟩
  have := List.all_eq_true.mp hsweep o ho
  rw [hsw] at this
  cases this

/-- **A forgotten fill.**  The first order is cancelled after 400 of its 500; the level is
bought again in full, and the last level does not know of the 400 either. -/
theorem forgottenFill_overspends :
    ∃ s, Runs.run (step halves) start
        [.bar 95 100 100 {}, .fills (.levels 1 0 0 0) 400, .ends (.levels 1 0 0 0) .cancelled,
          .bar 95 100 100 { amount := 4, average := 100, totalValue := 1000 },
          .fills (.levels 1 0 0 1) 500, .ends (.levels 1 0 0 1) .filled,
          .bar 85 100 90 { amount := 9, average := 100, totalValue := 1000 },
          .fills (.levels 1 1 1 0) 500, .ends (.levels 1 1 1 0) .filled] = some s ∧
      halves.startingCash * (1 + halves.feeRate) < s.spentIn halves 1 ∧
      (s.fillersOf 1 0).length = 2 :=
  Runs.exists_of_any (by decide +kernel)

end AlgoTrade.Robot.Martingale
