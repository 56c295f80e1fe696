import Mathlib.Data.List.FinRange
import Mathlib.Logic.Relation
import AlgoTrade.Lib.Runs
import AlgoTrade.Robot.Martingale

/-! # What a martingale step does to its purchases

A callback reconciles, may start a new cycle, and may submit a batch and a sweep.  Of
all this only the `Purchases` matter to the budget.

* `Submission`: a batch, said level by level.
* `Move`: one change of the purchases.
* `moves_of_step`: every step of the robot is a sequence of moves. -/

namespace AlgoTrade.Robot.Martingale

variable {n : ℕ}

/-- The part of a state that buys. -/
structure Purchases (n : ℕ) where
  levels : Fin n → Level
  cycleNo : ℕ
  finalSweepRef : Option Ref
  finalSweepDone : Bool
  orders : List (LevelOrder n)

def State.purchases (g : State n) (orders : List (LevelOrder n)) : Purchases n :=
  ⟨g.levels, g.cycleNo, g.finalSweepRef, g.finalSweepDone, orders⟩

def System.purchases (s : System n) : Purchases n := s.g.purchases s.orders

/-- The last level is the one that takes what the others leave. -/
def IsLast (i : Fin n) : Prop := ¬ i.val + 1 < n

instance (i : Fin n) : Decidable (IsLast i) := inferInstanceAs (Decidable (¬ _))

/-! ## A batch, level by level -/

/-- The order of a batch. -/
def batchOrder (cfg : Config n) (cycle : ℕ) (levels : Fin n → Level) (batch : Finset (Fin n))
    (r : Ref) : LevelOrder n :=
  let part : Fin n → ℚ := fun i => if i ∈ batch then plannedQuote cfg levels i else 0
  ⟨r, ⟨cycle, false, part⟩, ∑ i, part i, 0, .working⟩

/-- `c'` is `c` after a batch with reference `r`. -/
structure Submission (cfg : Config n) (c c' : Purchases n) (batch : Finset (Fin n)) (r : Ref) :
    Prop where
  ready : ∀ i ∈ batch, (c.levels i).status = .ready
  first : ∃ i ∈ batch, ∃ last attempt, r = .levels c.cycleNo i.val last attempt
  quote_pos : ∀ i ∈ batch, 0 < plannedQuote cfg c'.levels i
  mem : ∀ i ∈ batch, c'.levels i = ((c.levels i).plan (plannedQuote cfg c'.levels i)).refer r
  notMem : ∀ i, i ∉ batch → c'.levels i = c.levels i
  /-- With the last level, every other one that is ready is in the batch. -/
  last : ∀ i ∈ batch, IsLast i → ∀ j, ¬ IsLast j → (c.levels j).status = .ready → j ∉ batch →
    plannedQuote cfg c'.levels j ≤ 0
  orders : c'.orders = batchOrder cfg c.cycleNo c'.levels batch r :: c.orders
  cycleNo : c'.cycleNo = c.cycleNo
  finalSweepRef : c'.finalSweepRef = c.finalSweepRef
  finalSweepDone : c'.finalSweepDone = c.finalSweepDone

/-- One change of the purchases; `P` holds of the levels where the last one is bought. -/
inductive Move (cfg : Config n) (P : (Fin n → Level) → Prop) : Purchases n → Purchases n → Prop
  | order {c : Purchases n} {r : Ref} {orders' : List (LevelOrder n)} {o o' : LevelOrder n}
      (h : Moves r c.orders orders' o o')
      (hfail : o'.tag.sweep = false → o'.status.isFailure = true → o'.filled = 0) :
      Move cfg P c { c with orders := orders' }
  | reconcile (c : Purchases n) :
      Move cfg P c
        { c with levels := reconcileLevels (getOrderStatus cfg.feeRate c.orders) c.levels }
  | sweepEnds {c : Purchases n} (h : c.finalSweepRef ≠ none) :
      Move cfg P c { c with finalSweepRef := none, finalSweepDone := true }
  | newCycle (c : Purchases n) :
      Move cfg P c ⟨fun _ => {}, c.cycleNo + 1, none, false, c.orders⟩
  | submit {c c' : Purchases n} {batch : Finset (Fin n)} {r : Ref}
      (h : Submission cfg c c' batch r) (hP : ∀ i ∈ batch, IsLast i → P c.levels) :
      Move cfg P c c'
  | sweep {c : Purchases n} (hn : n ≠ 0) (hfilled : ∀ i, (c.levels i).status = .filled)
      (hdone : c.finalSweepDone = false) (href : c.finalSweepRef = none)
      (hmin : finalSweepMinQuote ≤ cfg.startingCash - spentTotal c.levels) :
      Move cfg P c
        { c with
          finalSweepRef := some (.finalSweep c.cycleNo)
          orders := ⟨.finalSweep c.cycleNo, ⟨c.cycleNo, true, 0⟩,
            (cfg.startingCash - spentTotal c.levels) / (1 + cfg.feeRate), 0, .working⟩ :: c.orders }
  | sweepSpared {c : Purchases n} (hfilled : ∀ i, (c.levels i).status = .filled)
      (hmin : cfg.startingCash - spentTotal c.levels < finalSweepMinQuote) :
      Move cfg P c { c with finalSweepDone := true }

/-! ## Planning -/

theorem plannedQuote_of_not_isLast {cfg : Config n} {i : Fin n} (h : ¬ IsLast i)
    (levels : Fin n → Level) :
    plannedQuote cfg levels i = cfg.startingCash * cfg.amountWeights i :=
  if_pos (not_not.mp h)

/-- The last level leaves itself out of what is reserved. -/
theorem plannedQuote_update {cfg : Config n} {levels : Fin n → Level} {i : Fin n} (h : IsLast i)
    {l : Level} (hspend : l.spend = (levels i).spend) :
    plannedQuote cfg (Function.update levels i l) i = plannedQuote cfg levels i := by
  have hspent : spentTotal (Function.update levels i l) = spentTotal levels := by
    refine Finset.sum_congr rfl fun j _ => ?_
    by_cases hj : j = i
    · rw [hj, Function.update_self, hspend]
    · rw [Function.update_of_ne hj]
  have hreserved : (∑ j : Fin n, if j.val + 1 < n then
        reservation cfg.feeRate (Function.update levels i l j) else 0) =
      ∑ j : Fin n, if j.val + 1 < n then reservation cfg.feeRate (levels j) else 0 := by
    refine Finset.sum_congr rfl fun j _ => ?_
    by_cases hj : j = i
    · rw [hj, if_neg h, if_neg h]
    · rw [Function.update_of_ne hj]
  unfold plannedQuote
  rw [if_neg h, if_neg h, hspent, hreserved]

/-- What the loop over the due levels leaves: those with a quote are planned. -/
theorem foldl_planLevel {cfg : Config n} {indexes : List (Fin n)}
    (hsorted : indexes.Pairwise (· < ·)) (levels : Fin n → Level) (batch : List (Fin n)) :
    ∃ levels' added, indexes.foldl (planLevel cfg) (levels, batch) = (levels', batch ++ added) ∧
      added.Sublist indexes ∧
      (∀ i ∈ added, 0 < plannedQuote cfg levels' i ∧
        levels' i = (levels i).plan (plannedQuote cfg levels' i)) ∧
      (∀ i, i ∉ added → levels' i = levels i) ∧
      ∀ i ∈ indexes, i ∉ added → plannedQuote cfg levels' i ≤ 0 := by
  induction indexes generalizing levels batch with
  | nil =>
    exact ⟨levels, [], by rw [List.append_nil]; rfl, .slnil, by simp, fun _ _ => rfl, by simp⟩
  | cons i rest ih =>
    obtain ⟨hlt, hrest⟩ := List.pairwise_cons.mp hsorted
    have hi : i ∉ rest := fun h => (hlt i h).false
    -- the levels that come later do not change what is planned for this one
    have hsame : ∀ (added : List (Fin n)) (l l' : Fin n → Level), added.Sublist rest →
        (∀ j, j ∉ added → l' j = l j) → plannedQuote cfg l' i = plannedQuote cfg l i := by
      intro added l l' hsub hl
      by_cases hlast : IsLast i
      · have hnil : rest = [] := by
          rw [List.eq_nil_iff_forall_not_mem]
          intro j hj
          have h1 := hlt j hj
          have h2 := j.isLt
          unfold IsLast at hlast
          omega
        subst hnil
        rw [List.sublist_nil.mp hsub] at hl
        rw [funext fun j => hl j List.not_mem_nil]
      · rw [plannedQuote_of_not_isLast hlast, plannedQuote_of_not_isLast hlast]
    rw [List.foldl_cons, planLevel]
    dsimp only
    split
    next hquote =>
      obtain ⟨levels', added, heq, hsub, hin, hout, hskip⟩ := ih hrest levels batch
      have hnot : i ∉ added := fun h => hi (hsub.subset h)
      refine ⟨levels', added, heq, hsub.trans (List.sublist_cons_self i rest), hin, hout, ?_⟩
      intro j hj hja
      rcases List.mem_cons.mp hj with rfl | hj
      · rw [hsame added levels levels' hsub hout]
        exact hquote
      · exact hskip j hj hja
    next hquote =>
      obtain ⟨levels', added, heq, hsub, hin, hout, hskip⟩ :=
        ih hrest (Function.update levels i ((levels i).plan (plannedQuote cfg levels i)))
          (batch ++ [i])
      have hnot : i ∉ added := fun h => hi (hsub.subset h)
      have hq : plannedQuote cfg levels' i = plannedQuote cfg levels i := by
        rw [hsame added _ levels' hsub hout]
        by_cases hlast : IsLast i
        · exact plannedQuote_update hlast rfl
        · rw [plannedQuote_of_not_isLast hlast, plannedQuote_of_not_isLast hlast]
      refine ⟨levels', i :: added, ?_, hsub.cons_cons i, ?_, ?_, ?_⟩
      · rw [heq, List.append_assoc]
        rfl
      · intro j hj
        rcases List.mem_cons.mp hj with rfl | hj
        · rw [hq, hout j hnot, Function.update_self]
          exact ⟨not_le.mp hquote, rfl⟩
        · have hne : j ≠ i := fun h => hnot (h ▸ hj)
          obtain ⟨hpos, hlevel⟩ := hin j hj
          rw [Function.update_of_ne hne] at hlevel
          exact ⟨hpos, hlevel⟩
      · intro j hj
        rw [hout j fun h => hj (List.mem_cons_of_mem i h),
          Function.update_of_ne fun h => hj (List.mem_cons.mpr (.inl h))]
      · intro j hj hja
        rcases List.mem_cons.mp hj with rfl | hj
        · exact absurd List.mem_cons_self hja
        · exact hskip j hj fun h => hja (List.mem_cons_of_mem i h)

theorem plannedQuote_congr {cfg : Config n} {levels levels' : Fin n → Level}
    (h : ∀ i, (levels' i).status = (levels i).status ∧ (levels' i).spend = (levels i).spend ∧
      (levels' i).planned = (levels i).planned) (i : Fin n) :
    plannedQuote cfg levels' i = plannedQuote cfg levels i := by
  unfold plannedQuote spentTotal reservation
  simp only [h]

/-! ## Submitting -/

/-- What a batch with a quote leaves. -/
theorem submitLevels_purchases {cfg : Config n} {indexes batch : List (Fin n)} {s : System n}
    {levels' : Fin n → Level} {r : Ref}
    (hfold : indexes.foldl (planLevel cfg) (s.g.levels, []) = (levels', batch))
    (hr : batchRef s.g levels' batch = some r)
    (hpos : 0 < (batch.map fun i => (levels' i).planned).sum) :
    (submitLevels cfg indexes s).purchases =
      ⟨fun i => if i ∈ batch then (levels' i).refer r else levels' i, s.g.cycleNo,
        s.g.finalSweepRef, s.g.finalSweepDone,
        ⟨r, ⟨s.g.cycleNo, false, batchPart levels' batch⟩,
          (batch.map fun i => (levels' i).planned).sum, 0, .working⟩ :: s.orders⟩ := by
  unfold submitLevels
  rw [hfold]
  dsimp only
  rw [hr]
  dsimp only
  rw [if_neg (not_le.mpr hpos)]
  rfl

/-- **A batch of due levels.**  Nothing has a quote, or the batch is submitted. -/
theorem submitLevels_cases {cfg : Config n} {indexes : List (Fin n)} {s : System n}
    (hsorted : indexes.Pairwise (· < ·)) (hready : ∀ i ∈ indexes, (s.g.levels i).status = .ready)
    (hclosed : ∀ i ∈ indexes, ∀ j < i, (s.g.levels j).status = .ready → j ∈ indexes) :
    (submitLevels cfg indexes s).purchases = s.purchases ∨
      ∃ batch r, Submission cfg s.purchases (submitLevels cfg indexes s).purchases batch r ∧
        ∀ i ∈ batch, i ∈ indexes := by
  obtain ⟨levels', added, heq, hsub, hin, hout, hskip⟩ :=
    @foldl_planLevel n cfg indexes hsorted s.g.levels []
  rw [List.nil_append] at heq
  cases added with
  | nil =>
    have hsame : levels' = s.g.levels := funext fun i => hout i List.not_mem_nil
    left
    unfold submitLevels
    rw [heq, hsame]
    rfl
  | cons a rest =>
    right
    have hnodup : (a :: rest).Nodup := (hsorted.imp fun h => h.ne).sublist hsub
    have hplanned : ∀ i ∈ a :: rest, (levels' i).planned = plannedQuote cfg levels' i := by
      intro i hi
      rw [(hin i hi).2]
      rfl
    have hpos : 0 < ((a :: rest).map fun i => (levels' i).planned).sum := by
      refine List.sum_pos _ (fun x hx => ?_) (by simp)
      obtain ⟨i, hi, rfl⟩ := List.mem_map.mp hx
      rw [hplanned i hi]
      exact (hin i hi).1
    have hbatch : ∃ r last attempt, batchRef s.g levels' (a :: rest) = some r ∧
        r = .levels s.g.cycleNo a.val last attempt := by
      unfold batchRef
      rw [List.head?_cons, List.getLast?_cons]
      exact ⟨_, _, _, rfl, rfl⟩
    obtain ⟨r, last, attempt, hr, hform⟩ := hbatch
    rw [submitLevels_purchases heq hr hpos]
    have hquote : ∀ i, plannedQuote cfg
        (fun i => if i ∈ a :: rest then (levels' i).refer r else levels' i) i =
          plannedQuote cfg levels' i := by
      refine plannedQuote_congr fun i => ?_
      split
      · exact ⟨rfl, rfl, rfl⟩
      · exact ⟨rfl, rfl, rfl⟩
    refine ⟨(a :: rest).toFinset, r, ⟨?_, ?_, ?_, ?_, ?_, ?_, ?_, rfl, rfl, rfl⟩, ?_⟩
    · intro i hi
      exact hready i (hsub.subset (List.mem_toFinset.mp hi))
    · exact ⟨a, by simp, last, attempt, hform⟩
    · intro i hi
      rw [hquote]
      exact (hin i (List.mem_toFinset.mp hi)).1
    · intro i hi
      have hlevel := (hin i (List.mem_toFinset.mp hi)).2
      show (if i ∈ a :: rest then (levels' i).refer r else levels' i) = _
      rw [if_pos (List.mem_toFinset.mp hi), hquote]
      exact congrArg (Level.refer · r) hlevel
    · intro i hi
      have hnot : i ∉ a :: rest := fun h => hi (List.mem_toFinset.mpr h)
      show (if i ∈ a :: rest then (levels' i).refer r else levels' i) = _
      rw [if_neg hnot, hout i hnot]
      rfl
    · intro i hi hlast j hj hrj hjb
      have hlt : j < i := by
        unfold IsLast at hlast hj
        have := i.isLt
        show j.val < i.val
        omega
      rw [hquote]
      exact hskip j (hclosed i (hsub.subset (List.mem_toFinset.mp hi)) j hlt hrj)
        fun h => hjb (List.mem_toFinset.mpr h)
    · have hpart : ∀ i, batchPart levels' (a :: rest) i =
          if i ∈ (a :: rest).toFinset then plannedQuote cfg
            (fun i => if i ∈ a :: rest then (levels' i).refer r else levels' i) i else 0 := by
        intro i
        unfold batchPart
        by_cases hi : i ∈ a :: rest
        · rw [if_pos hi, if_pos (List.mem_toFinset.mpr hi), hplanned i hi, hquote]
        · rw [if_neg hi, if_neg fun h => hi (List.mem_toFinset.mp h)]
      have hsum : ((a :: rest).map fun i => (levels' i).planned).sum =
          ∑ i, batchPart levels' (a :: rest) i := by
        rw [← List.sum_toFinset _ hnodup]
        unfold batchPart
        simp only [← List.mem_toFinset]
        rw [Finset.sum_ite_mem, Finset.univ_inter]
      unfold batchOrder
      dsimp only
      rw [hsum, funext hpart]
      rfl
    · exact fun i hi => hsub.subset (List.mem_toFinset.mp hi)

/-! ## Due levels -/

theorem mem_takeWhile_of_lt {l : List (Fin n)} (hl : l.Pairwise (· < ·)) {p : Fin n → Bool}
    {i j : Fin n} (hi : i ∈ l.takeWhile p) (hj : j ∈ l) (hlt : j < i) : j ∈ l.takeWhile p := by
  induction l with
  | nil => cases hj
  | cons x xs ih =>
    obtain ⟨hx, hxs⟩ := List.pairwise_cons.mp hl
    rw [List.takeWhile_cons] at hi ⊢
    split at hi
    next hp =>
      rw [if_pos hp]
      rcases List.mem_cons.mp hj with rfl | hj
      · exact List.mem_cons_self
      · rcases List.mem_cons.mp hi with heq | hi
        · exact absurd (hx j hj) (heq ▸ hlt).not_gt
        · exact List.mem_cons_of_mem x (ih hxs hi hj)
    next => cases hi

section due

variable (cfg : Config n) (crossed : ℚ → Bool) (g : State n)

theorem pairwise_readyLevels :
    ((List.finRange n).filter fun i => (g.levels i).isReady).Pairwise (· < ·) :=
  (List.pairwise_lt_finRange n).filter _

theorem pairwise_dueLevels : (dueLevels cfg crossed g).Pairwise (· < ·) :=
  (pairwise_readyLevels g).sublist (List.takeWhile_sublist _)

theorem ready_of_mem_dueLevels {i : Fin n} (h : i ∈ dueLevels cfg crossed g) :
    (g.levels i).status = .ready := by
  have := (List.mem_filter.mp ((List.takeWhile_sublist _).subset h)).2
  exact of_decide_eq_true this

theorem mem_dueLevels_of_lt {i j : Fin n} (hi : i ∈ dueLevels cfg crossed g) (hlt : j < i)
    (hj : (g.levels j).status = .ready) : j ∈ dueLevels cfg crossed g :=
  mem_takeWhile_of_lt (pairwise_readyLevels g) hi
    (List.mem_filter.mpr ⟨List.mem_finRange j, decide_eq_true hj⟩) hlt

end due

/-! ## Callbacks -/

section moves

variable {cfg : Config n} {P : (Fin n → Level) → Prop}

/-- Any number of moves. -/
abbrev Chain (cfg : Config n) (P : (Fin n → Level) → Prop) : Purchases n → Purchases n → Prop :=
  Relation.ReflTransGen (Move cfg P)

theorem chain_reconcile (g : State n) (orders : List (LevelOrder n)) :
    Chain cfg P (g.purchases orders)
      ((reconcileFinalSweep (getOrderStatus cfg.feeRate orders)
        (reconcileOrders (getOrderStatus cfg.feeRate orders) g)).purchases orders) := by
  refine .trans (.single (.reconcile _)) ?_
  unfold reconcileFinalSweep
  split
  · exact .refl
  next r hr =>
    dsimp only
    split
    · refine .single (.sweepEnds ?_)
      show (reconcileOrders (getOrderStatus cfg.feeRate orders) g).finalSweepRef ≠ none
      rw [hr]
      exact Option.some_ne_none r
    · exact .refl

theorem chain_settleReports (seen : Seen) (g : State n) (orders : List (LevelOrder n)) :
    Chain cfg P (g.purchases orders)
      ((settleReports (getOrderStatus cfg.feeRate orders) seen g).purchases orders) := by
  unfold settleReports
  dsimp only
  split
  · exact chain_reconcile g orders
  · exact chain_reconcile g orders

theorem chain_flatTransition (seen : Seen) (g : State n) (orders : List (LevelOrder n)) :
    Chain cfg P (g.purchases orders) ((handleFlatTransition cfg seen g).1.purchases orders) := by
  unfold handleFlatTransition
  split
  · exact .refl
  · split
    · exact .refl
    · refine .single ?_
      dsimp only
      split
      · exact .newCycle _
      · exact .newCycle _

theorem chain_enterCycle (seen : Seen) (g : State n) (orders : List (LevelOrder n)) :
    Chain cfg P (g.purchases orders) ((enterCycle cfg seen g).1.purchases orders) := by
  unfold enterCycle
  dsimp only
  split
  · exact chain_flatTransition seen g orders
  · split
    · exact .refl
    · split
      · exact .refl
      · exact .refl

theorem chain_prepare (seen : Seen) (s : System n) :
    Chain cfg P s.purchases (prepare cfg seen s).1.purchases := by
  show Chain cfg P (s.g.purchases s.orders)
    ((prepareCycle cfg (s.status cfg) seen s.g).1.purchases s.orders)
  unfold prepareCycle
  dsimp only
  split
  · exact .refl
  · split
    · exact .refl
    · exact (chain_settleReports seen { s.g with initialized := true } s.orders).trans
        (chain_enterCycle seen _ s.orders)

theorem levels_settleReports (getStatus : Ref → Report) (seen : Seen) (g : State n) :
    (settleReports getStatus seen g).levels = reconcileLevels getStatus g.levels := by
  have hsweep : (reconcileFinalSweep getStatus (reconcileOrders getStatus g)).levels =
      reconcileLevels getStatus g.levels := by
    unfold reconcileFinalSweep
    split
    · rfl
    · dsimp only
      split
      · rfl
      · rfl
  unfold settleReports
  dsimp only
  split
  · exact hsweep
  · exact hsweep

theorem levels_enterCycle {seen : Seen} {g : State n} (h : (enterCycle cfg seen g).2 = true) :
    (enterCycle cfg seen g).1.levels = g.levels := by
  unfold enterCycle at h ⊢
  dsimp only at h ⊢
  split at h
  · cases h
  next hflat =>
    rw [if_neg hflat]
    split at h
    · cases h
    next hhalted =>
      rw [if_neg hhalted]
      split at h
      · cases h
      next hcool =>
        rw [if_neg hcool]

/-- A callback that goes on has the levels as their reports left them. -/
theorem levels_prepare {seen : Seen} {s : System n} (h : (prepare cfg seen s).2 = true) :
    (prepare cfg seen s).1.g.levels = reconcileLevels (s.status cfg) s.g.levels := by
  replace h : (prepareCycle cfg (s.status cfg) seen s.g).2 = true := h
  show (prepareCycle cfg (s.status cfg) seen s.g).1.levels = _
  unfold prepareCycle at h ⊢
  dsimp only at h ⊢
  split at h
  · cases h
  next hfound =>
    rw [if_neg hfound]
    split at h
    · cases h
    next hrecovery =>
      rw [if_neg hrecovery]
      exact (levels_enterCycle h).trans (levels_settleReports _ seen _)

/-! ## Steps -/

/-- The last level is due at these prices. -/
def LastDue (cfg : Config n) (low high price : ℚ) (g : State n) : Prop :=
  ∃ i, IsLast i ∧ i ∈ dueLevels cfg (crossedBy cfg low high) (withAnchor cfg price g)

theorem levels_withAnchor (price : ℚ) (g : State n) :
    (withAnchor cfg price g).levels = g.levels := by
  unfold withAnchor
  split
  · rfl
  · rfl

theorem chain_submitLevels {low high price : ℚ} {s : System n}
    (hP : LastDue cfg low high price s.g → P s.g.levels) :
    let g := withAnchor cfg price s.g
    Chain cfg P s.purchases
      (submitLevels cfg (dueLevels cfg (crossedBy cfg low high) g) { s with g := g }).purchases := by
  intro g
  have hlevels : g.levels = s.g.levels := levels_withAnchor price s.g
  have hsame : (System.mk g s.orders s.exits).purchases = s.purchases := by
    show State.purchases (withAnchor cfg price s.g) s.orders = _
    unfold withAnchor
    split
    · rfl
    · rfl
  have hcases := @submitLevels_cases n cfg _ { s with g := g }
    (pairwise_dueLevels cfg (crossedBy cfg low high) g)
    (fun i hi => ready_of_mem_dueLevels cfg (crossedBy cfg low high) g hi)
    (fun i hi j hlt hj => mem_dueLevels_of_lt cfg (crossedBy cfg low high) g hi hlt hj)
  rcases hcases with heq | ⟨batch, r, hsub, hmem⟩
  · rw [heq, hsame]
  · rw [hsame] at hsub
    exact .single (.submit hsub fun i hi hlast => hP ⟨i, hlast, hmem i hi⟩)

theorem chain_submitFinalSweep (s : System n) :
    Chain cfg P s.purchases (submitFinalSweep cfg s).purchases := by
  unfold submitFinalSweep
  split
  · exact .refl
  next hopen =>
    obtain ⟨hdone, href⟩ := not_or.mp hopen
    split
    · exact .refl
    next hfilled =>
      obtain ⟨hn, hall⟩ := not_or.mp hfilled
      have hall' : ∀ i, (s.g.levels i).status = .filled :=
        of_decide_eq_true (Bool.eq_true_of_not_eq_false hall)
      dsimp only
      split
      next hmin =>
        refine .single (.sweepSpared hall' ?_)
        exact (le_max_right 0 _).trans_lt hmin
      next hmin =>
        have hle : finalSweepMinQuote ≤ max 0 (cfg.startingCash - spentTotal s.g.levels) :=
          not_lt.mp hmin
        have hmax : max 0 (cfg.startingCash - spentTotal s.g.levels) =
            cfg.startingCash - spentTotal s.g.levels := by
          rcases max_choice 0 (cfg.startingCash - spentTotal s.g.levels) with h | h
          · rw [h] at hle
            exact absurd hle (by decide +kernel)
          · exact h
        rw [hmax] at hle ⊢
        exact .single (.sweep hn hall' (eq_false_of_ne_true hdone)
          (Option.not_isSome_iff_eq_none.mp href) hle)

theorem chain_submitDue {low high price : ℚ} {s : System n}
    (hP : LastDue cfg low high price s.g → P s.g.levels) :
    Chain cfg P s.purchases (submitDue cfg low high price s).purchases :=
  (chain_submitLevels hP).trans (chain_submitFinalSweep _)

theorem purchases_equityRiskExit (seen : Seen) (s : System n) :
    (equityRiskExit cfg seen s).1.purchases = s.purchases := by
  unfold equityRiskExit
  split
  · rfl
  · dsimp only
    split
    · rfl
    · rfl

theorem purchases_riskExit (price : ℚ) (seen : Seen) (s : System n) :
    (riskExit cfg price seen s).1.purchases = s.purchases := by
  unfold riskExit
  split
  · rfl
  · dsimp only
    split
    · rfl
    · split
      · rfl
      · rfl

theorem chain_tickEntry (price : ℚ) (seen : Seen) (s : System n) :
    Chain cfg P s.purchases (tickEntry cfg price seen s).1.purchases ∧
      ((tickEntry cfg price seen s).2 = true →
        (tickEntry cfg price seen s).1.g.levels = reconcileLevels (s.status cfg) s.g.levels) := by
  unfold tickEntry
  split
  · exact ⟨.refl, fun h => by cases h⟩
  · have hprepare : Chain cfg P s.purchases _ :=
      chain_prepare seen { s with g := { s.g with priceTickSeen := true } }
    exact ⟨hprepare, levels_prepare⟩

theorem chain_barEntry (close : ℚ) (seen : Seen) (s : System n) :
    Chain cfg P s.purchases (barEntry cfg close seen s).1.purchases ∧
      ((barEntry cfg close seen s).2 = true →
        (barEntry cfg close seen s).1.g.levels = reconcileLevels (s.status cfg) s.g.levels) := by
  have hprepare : Chain cfg P s.purchases (prepare cfg seen s).1.purchases := chain_prepare seen s
  unfold barEntry
  split
  · exact ⟨.refl, fun h => by cases h⟩
  · dsimp only
    split
    · exact ⟨hprepare, fun h => by cases h⟩
    next hgo =>
      have hequity : (equityRiskExit cfg seen (prepare cfg seen s).1).1.purchases =
          (prepare cfg seen s).1.purchases := purchases_equityRiskExit seen _
      split
      · exact ⟨hequity ▸ hprepare, fun h => by cases h⟩
      · have hsame : (riskExit cfg close seen
            (equityRiskExit cfg seen (prepare cfg seen s).1).1).1.purchases =
            (prepare cfg seen s).1.purchases := (purchases_riskExit close seen _).trans hequity
        refine ⟨hsame ▸ hprepare, fun _ => ?_⟩
        have hlevels := levels_prepare (Bool.eq_true_of_not_eq_false (not_or.mp hgo).1)
        exact (congrArg Purchases.levels hsame).trans hlevels

/-- At a callback that buys the last level, the levels it buys it from meet `P`. -/
def BuysLastFrom (cfg : Config n) (P : (Fin n → Level) → Prop) (s : System n) : Label → Prop
  | .tick price seen =>
    let o := tickEntry cfg price seen s
    o.2 = true → LastDue cfg price price price o.1.g → P o.1.g.levels
  | .bar low high close seen =>
    let o := barEntry cfg close seen s
    o.2 = true → LastDue cfg low high close o.1.g → P o.1.g.levels
  | _ => True

/-- No order of a level ends in a failure after it filled something. -/
def NoPartialFailure (s : System n) : Label → Prop
  | .ends r name =>
    ∀ o ∈ find s.orders r, o.tag.sweep = false → name.isFailure = true → o.filled = 0
  | _ => True

instance (low high price : ℚ) (g : State n) : Decidable (LastDue cfg low high price g) :=
  inferInstanceAs (Decidable (∃ _, _))

instance [DecidablePred P] (s : System n) : ∀ l, Decidable (BuysLastFrom cfg P s l)
  | .tick .. | .bar .. => inferInstanceAs (Decidable (_ → _ → _))
  | .equityRisk _ | .releaseEquityRisk | .fills .. | .ends .. => inferInstanceAs (Decidable True)

instance (s : System n) : ∀ l, Decidable (NoPartialFailure s l)
  | .ends .. => inferInstanceAs (Decidable (∀ _ ∈ _, _))
  | .tick .. | .bar .. | .equityRisk _ | .releaseEquityRisk | .fills .. =>
    inferInstanceAs (Decidable True)

/-- **What a step does to the purchases.** -/
theorem chain_of_step {s s' : System n} {l : Label} (hs : step cfg s l = some s')
    (hfail : NoPartialFailure s l) (hP : BuysLastFrom cfg P s l) :
    Chain cfg P s.purchases s'.purchases := by
  cases l with
  | tick price seen =>
    obtain rfl := Option.some.inj hs
    have hentry : Chain cfg P s.purchases (tickEntry cfg price seen s).1.purchases :=
      (chain_tickEntry price seen s).1
    unfold onPriceTick
    dsimp only
    split
    next hgo => exact hentry.trans (chain_submitDue (hP hgo))
    next => exact hentry
  | bar low high close seen =>
    obtain rfl := Option.some.inj hs
    have hentry : Chain cfg P s.purchases (barEntry cfg close seen s).1.purchases :=
      (chain_barEntry close seen s).1
    unfold handleData
    dsimp only
    split
    next hgo => exact hentry.trans (chain_submitDue (hP hgo))
    next => exact hentry
  | equityRisk seen =>
    obtain rfl := Option.some.inj hs
    rw [purchases_equityRiskExit]
  | releaseEquityRisk =>
    obtain rfl := Option.some.inj hs
    exact .refl
  | fills r amount =>
    obtain ⟨orders, ho, rfl⟩ := Option.map_eq_some_iff.mp hs
    obtain ⟨o, hm⟩ := moves_of_fillMore ho
    refine .single (.order hm fun _ hfailed => ?_)
    have hworking : o.status.isFailure = true := hfailed
    rw [hm.working] at hworking
    cases hworking
  | ends r name =>
    obtain ⟨orders, ho, rfl⟩ := Option.map_eq_some_iff.mp hs
    obtain ⟨o, hm, -⟩ := moves_of_endWith ho
    exact .single (.order hm fun hsweep hfailed => hfail o hm.find hsweep hfailed)

end moves

end AlgoTrade.Robot.Martingale
