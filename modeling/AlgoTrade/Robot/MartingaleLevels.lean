import Mathlib.Algebra.BigOperators.Fin
import Mathlib.Algebra.Order.BigOperators.Group.Finset
import Mathlib.Tactic.FieldSimp
import AlgoTrade.Robot.MartingaleMoves

/-! # The levels of a martingale and their orders

Every level is paid for by the order its reference means, and by no other order that
filled anything: `Inv.counted` says so for any amount that is counted over the orders
of the cycle at once.

* `Inv`: what every move keeps.
* `Inv.moves`, `Inv.reconcile`, `Inv.submit`, `Inv.newCycle`, `Inv.sweepOpens`: that each
  move keeps it. -/

namespace AlgoTrade.Robot.Martingale

variable {n : ℕ}

/-! ## Totals over the orders of a cycle -/

/-- What `φ` counts over the orders of a cycle. -/
def totalIn (orders : List (LevelOrder n)) (cycle : ℕ) (φ : LevelOrder n → ℚ) : ℚ :=
  (orders.map fun o => if o.tag.cycle = cycle then φ o else 0).sum

/-- The orders that are for a level. -/
def partOf (i : Fin n) (φ : LevelOrder n → ℚ) : LevelOrder n → ℚ :=
  fun o => if o.tag.part i = 0 then 0 else φ o

/-- An order that may still count. -/
def live (o : LevelOrder n) : ℚ := if o.rate = 0 then 0 else 1

def ofSweep (φ : LevelOrder n → ℚ) : LevelOrder n → ℚ := fun o => if o.tag.sweep then φ o else 0

structure OrderOk (o : LevelOrder n) : Prop extends o.Ok where
  part_nonneg : ∀ i, 0 ≤ o.tag.part i
  sweep_part : o.tag.sweep = true → o.tag.part = 0
  quote_eq : o.tag.sweep = false → o.quote = ∑ i, o.tag.part i
  failure : o.tag.sweep = false → o.status.isFailure = true → o.filled = 0

theorem totalIn_cons (o : LevelOrder n) (orders : List (LevelOrder n)) (cycle : ℕ)
    (φ : LevelOrder n → ℚ) :
    totalIn (o :: orders) cycle φ =
      (if o.tag.cycle = cycle then φ o else 0) + totalIn orders cycle φ := by
  unfold totalIn
  rw [List.map_cons, List.sum_cons]

theorem totalIn_nonneg {orders : List (LevelOrder n)} {cycle : ℕ} {φ : LevelOrder n → ℚ}
    (h : ∀ o ∈ orders, 0 ≤ φ o) : 0 ≤ totalIn orders cycle φ := by
  refine List.sum_nonneg fun x hx => ?_
  obtain ⟨o, ho, rfl⟩ := List.mem_map.mp hx
  split
  · exact h o ho
  · exact le_rfl

theorem totalIn_mono {orders : List (LevelOrder n)} {cycle : ℕ} {φ ψ : LevelOrder n → ℚ}
    (h : ∀ o ∈ orders, φ o ≤ ψ o) : totalIn orders cycle φ ≤ totalIn orders cycle ψ := by
  refine List.sum_le_sum fun o ho => ?_
  split
  · exact h o ho
  · exact le_rfl

theorem totalIn_congr {orders : List (LevelOrder n)} {cycle : ℕ} {φ ψ : LevelOrder n → ℚ}
    (h : ∀ o ∈ orders, φ o = ψ o) : totalIn orders cycle φ = totalIn orders cycle ψ :=
  le_antisymm (totalIn_mono fun o ho => (h o ho).le) (totalIn_mono fun o ho => (h o ho).ge)

/-- An order that counts is in the total. -/
theorem le_totalIn {orders : List (LevelOrder n)} {cycle : ℕ} {φ : LevelOrder n → ℚ}
    (h : ∀ o ∈ orders, 0 ≤ φ o) {o : LevelOrder n} (ho : o ∈ orders) (hc : o.tag.cycle = cycle) :
    φ o ≤ totalIn orders cycle φ := by
  induction orders with
  | nil => cases ho
  | cons x xs ih =>
    rw [totalIn_cons]
    have hxs : ∀ o ∈ xs, 0 ≤ φ o := fun o ho => h o (List.mem_cons_of_mem x ho)
    rcases List.mem_cons.mp ho with rfl | ho
    · rw [if_pos hc]
      exact le_add_of_nonneg_right (totalIn_nonneg hxs)
    · refine (ih hxs ho).trans (le_add_of_nonneg_left ?_)
      split
      · exact h x List.mem_cons_self
      · exact le_rfl

theorem totalIn_eq_zero {orders : List (LevelOrder n)} {cycle : ℕ}
    (h : ∀ o ∈ orders, o.tag.cycle ≠ cycle) (φ : LevelOrder n → ℚ) :
    totalIn orders cycle φ = 0 := by
  refine List.sum_eq_zero fun x hx => ?_
  obtain ⟨o, ho, rfl⟩ := List.mem_map.mp hx
  exact if_neg (h o ho)

/-- A total after one order moved. -/
theorem totalIn_replace {orders orders' : List (LevelOrder n)} {r : Ref} {o o' : LevelOrder n}
    (h : Moves r orders orders' o o') (cycle : ℕ) (φ : LevelOrder n → ℚ) :
    totalIn orders' cycle φ = totalIn orders cycle φ -
      (if o.tag.cycle = cycle then φ o else 0) + if o.tag.cycle = cycle then φ o' else 0 := by
  unfold totalIn
  rw [h.eq, sum_replace h.find h.reference, h.tag]

theorem totalIn_replace_le {orders orders' : List (LevelOrder n)} {r : Ref} {o o' : LevelOrder n}
    (h : Moves r orders orders' o o') (cycle : ℕ) {φ : LevelOrder n → ℚ} (hφ : φ o' ≤ φ o) :
    totalIn orders' cycle φ ≤ totalIn orders cycle φ := by
  rw [totalIn_replace h]
  split
  · linarith
  · linarith

/-- An amount is what counts for the sweeps and for each level, by its part. -/
theorem totalIn_eq_sweep_add {orders : List (LevelOrder n)} (hok : ∀ o ∈ orders, OrderOk o)
    (cycle : ℕ) (φ : LevelOrder n → ℚ) :
    totalIn orders cycle φ = totalIn orders cycle (ofSweep φ) +
      ∑ i, totalIn orders cycle (partOf i fun o => φ o * (o.tag.part i / o.quote)) := by
  induction orders with
  | nil => simp [totalIn]
  | cons x xs ih =>
    have hx := hok x List.mem_cons_self
    have hone : φ x = ofSweep φ x + ∑ i, partOf i (fun o => φ o * (o.tag.part i / o.quote)) x := by
      have hpart : ∀ i, partOf i (fun o => φ o * (o.tag.part i / o.quote)) x =
          φ x / x.quote * x.tag.part i := by
        intro i
        unfold partOf
        split
        next h => rw [h, mul_zero]
        next => ring
      simp only [hpart]
      rw [← Finset.mul_sum]
      unfold ofSweep
      cases hs : x.tag.sweep with
      | true =>
        rw [hx.sweep_part hs]
        simp
      | false =>
        rw [← hx.quote_eq hs, div_mul_cancel₀ _ hx.quote_pos.ne']
        simp
    rw [totalIn_cons, totalIn_cons, ih fun o ho => hok o (List.mem_cons_of_mem x ho)]
    simp only [totalIn_cons]
    rw [Finset.sum_add_distrib]
    split
    · rw [hone]
      ring
    · rw [Finset.sum_const_zero]
      ring

/-! ## The invariant -/

/-- What an order has spent on a level that planned `planned` of it. -/
def share (cfg : Config n) (o : LevelOrder n) (planned : ℚ) : ℚ :=
  o.filled * (1 + cfg.feeRate) * (planned / o.quote)

/-- `o` is the order of this cycle that `r` means, for exactly the levels that have `r`. -/
structure Backs (c : Purchases n) (r : Ref) (o : LevelOrder n) : Prop where
  find : find c.orders r = some o
  cycle : o.tag.cycle = c.cycleNo
  level : o.tag.sweep = false
  part : ∀ j, o.tag.part j = if (c.levels j).ref = some r then (c.levels j).planned else 0

/-- A level that has the order `o`. -/
structure LevelOk (cfg : Config n) (i : Fin n) (l : Level) (o : LevelOrder n) : Prop where
  planned_pos : 0 < l.planned
  status_ne : l.status ≠ .ready
  spend_nonneg : 0 ≤ l.spend
  spend_le : l.spend ≤ share cfg o l.planned
  filled : l.status = .filled → o.status = .filled ∧ l.spend = share cfg o l.planned
  planned_eq : ¬ IsLast i → l.planned = cfg.startingCash * cfg.amountWeights i

/-- The order of a level. -/
def Purchases.orderOf (c : Purchases n) (i : Fin n) : Option (LevelOrder n) :=
  (c.levels i).ref.bind (find c.orders)

def Purchases.sweeps (c : Purchases n) : List (LevelOrder n) :=
  c.orders.filter fun o => o.tag.cycle = c.cycleNo ∧ o.tag.sweep

/-- No sweep yet: the levels are not all bought, or nothing worth a sweep is left. -/
structure NoSweep (cfg : Config n) (c : Purchases n) : Prop where
  sweeps : c.sweeps = []
  ref : c.finalSweepRef = none
  done : c.finalSweepDone = true → (∀ i, (c.levels i).status = .filled) ∧
    cfg.startingCash - spentTotal c.levels < finalSweepMinQuote

/-- The sweep takes what the levels left. -/
structure OneSweep (cfg : Config n) (c : Purchases n) (o : LevelOrder n) : Prop where
  sweeps : c.sweeps = [o]
  opened : c.finalSweepRef = none → c.finalSweepDone = true
  filled : ∀ i, (c.levels i).status = .filled
  quote : spentTotal c.levels + o.quote * (1 + cfg.feeRate) = cfg.startingCash

structure Inv (cfg : Config n) (c : Purchases n) : Prop where
  orders : ∀ o ∈ c.orders, OrderOk o
  cycles : ∀ o ∈ c.orders, o.tag.cycle ≤ c.cycleNo
  free : ∀ i, (c.levels i).ref = none → (c.levels i).status = .ready ∧ (c.levels i).spend = 0
  held : ∀ i r, (c.levels i).ref = some r → ∃ o, Backs c r o ∧ LevelOk cfg i (c.levels i) o
  form : ∀ i r, (c.levels i).ref = some r → ∃ j : Fin n, (c.levels j).ref = some r ∧
    ∃ last attempt, r = .levels c.cycleNo j.val last attempt
  counted : ∀ (i : Fin n) (φ : LevelOrder n → ℚ), (∀ o, o.rate = 0 → φ o = 0) →
    totalIn c.orders c.cycleNo (partOf i φ) =
      match c.orderOf i with
      | some o => φ o
      | none => 0
  sweep : NoSweep cfg c ∨ ∃ o, OneSweep cfg c o
  past : ∀ cycle < c.cycleNo,
    totalIn c.orders cycle Order.committed * (1 + cfg.feeRate) ≤
        cfg.startingCash * (1 + cfg.feeRate) ∧
      ∀ i, totalIn c.orders cycle (partOf i live) ≤ 1

variable {cfg : Config n} {c c' : Purchases n}

theorem one_le_feeFactor (cfg : Config n) : 1 ≤ 1 + cfg.feeRate :=
  le_add_of_nonneg_right cfg.feeRate_nonneg

theorem feeFactor_pos (cfg : Config n) : 0 < 1 + cfg.feeRate :=
  zero_lt_one.trans_le (one_le_feeFactor cfg)

theorem Backs.orderOf_eq {i : Fin n} {r : Ref} {o : LevelOrder n} (ho : Backs c r o)
    (hr : (c.levels i).ref = some r) : c.orderOf i = some o := by
  unfold Purchases.orderOf
  rw [hr, Option.bind_some, ho.find]

namespace Inv

/-- A ready level has no order. -/
theorem ref_of_ready (h : Inv cfg c) {i : Fin n} (hi : (c.levels i).status = .ready) :
    (c.levels i).ref = none := by
  cases hr : (c.levels i).ref with
  | none => rfl
  | some r =>
    obtain ⟨o, -, hlevel⟩ := h.held i r hr
    exact absurd hi hlevel.status_ne

/-- The order of a level and what it plans for it. -/
theorem orderOf_cases (h : Inv cfg c) (i : Fin n) :
    ((c.levels i).ref = none ∧ c.orderOf i = none) ∨
      ∃ r o, (c.levels i).ref = some r ∧ c.orderOf i = some o ∧ Backs c r o ∧
        LevelOk cfg i (c.levels i) o ∧ OrderOk o := by
  cases hr : (c.levels i).ref with
  | none =>
    left
    unfold Purchases.orderOf
    rw [hr]
    exact ⟨rfl, rfl⟩
  | some r =>
    obtain ⟨o, hb, hl⟩ := h.held i r hr
    exact .inr ⟨r, o, rfl, hb.orderOf_eq hr, hb, hl, h.orders o (mem_of_find hb.find)⟩

/-- A working order of the cycle that is for a level is the one its reference means. -/
theorem ref_of_working (h : Inv cfg c) {r : Ref} {o : LevelOrder n} {i : Fin n}
    (ho : find c.orders r = some o) (hw : o.status = .working) (hc : o.tag.cycle = c.cycleNo)
    (hpart : o.tag.part i ≠ 0) : (c.levels i).ref = some r := by
  let ψ : LevelOrder n → ℚ := fun x => if x.reference = r ∧ x.status = .working then 1 else 0
  have hψ : ∀ x, x.rate = 0 → ψ x = 0 := by
    intro x hx
    refine if_neg fun hxw => ?_
    have hrate : x.rate = 1 := if_pos hxw.2
    rw [hrate] at hx
    exact one_ne_zero hx
  have hnonneg : ∀ x ∈ c.orders, 0 ≤ partOf i ψ x := by
    intro x _
    unfold partOf
    split
    · exact le_rfl
    · show 0 ≤ if x.reference = r ∧ x.status = .working then (1 : ℚ) else 0
      split
      · exact zero_le_one
      · exact le_rfl
  have hone : partOf i ψ o = 1 := by
    unfold partOf
    rw [if_neg hpart]
    exact if_pos ⟨reference_of_find ho, hw⟩
  have hle : 1 ≤ totalIn c.orders c.cycleNo (partOf i ψ) :=
    hone ▸ le_totalIn hnonneg (mem_of_find ho) hc
  rw [h.counted i ψ hψ] at hle
  rcases h.orderOf_cases i with ⟨-, hnone⟩ | ⟨r', x, hr', hx, hb, -, -⟩
  · rw [hnone] at hle
    exact absurd hle (by norm_num)
  · rw [hx] at hle
    have hxr : x.reference = r := by
      by_contra hne
      have hzero : ψ x = 0 := if_neg fun hx => hne hx.1
      simp only [hzero] at hle
      exact absurd hle (by norm_num)
    rw [hr', ← hxr, reference_of_find hb.find]

end Inv

/-! ## An order moves -/

theorem share_mono {o o' : LevelOrder n} {planned : ℚ} (hq : o'.quote = o.quote)
    (hfilled : o.filled ≤ o'.filled) (hpos : 0 < o.quote) (hplanned : 0 ≤ planned) :
    share cfg o planned ≤ share cfg o' planned := by
  unfold share
  rw [hq]
  refine mul_le_mul_of_nonneg_right ?_ (div_nonneg hplanned hpos.le)
  exact mul_le_mul_of_nonneg_right hfilled (feeFactor_pos cfg).le

section order

variable {r : Ref} {orders' : List (LevelOrder n)} {o o' : LevelOrder n}

theorem OrderOk.moves (h : OrderOk o) (hm : Moves r c.orders orders' o o')
    (hfail : o'.tag.sweep = false → o'.status.isFailure = true → o'.filled = 0) : OrderOk o' where
  toOk := hm.ok h.toOk
  part_nonneg := hm.tag ▸ h.part_nonneg
  sweep_part := hm.tag ▸ h.sweep_part
  quote_eq := by
    rw [hm.tag, hm.quote]
    exact h.quote_eq
  failure := hfail

/-- A reference means the order that moved, or what it meant. -/
theorem Backs.moves {r' : Ref} {x : LevelOrder n} (hb : Backs c r' x)
    (hm : Moves r c.orders orders' o o') :
    ∃ x', Backs { c with orders := orders' } r' x' ∧ (x' = x ∨ r' = r ∧ x = o ∧ x' = o') := by
  have hfind := find_replace hm.find hm.reference r'
  rw [← hm.eq] at hfind
  by_cases hr : r' = r
  · rw [if_pos hr] at hfind
    have hx : x = o := by
      have := hb.find
      rw [hr, hm.find] at this
      exact (Option.some.inj this).symm
    subst hx
    exact ⟨o', ⟨hfind, hm.tag ▸ hb.cycle, hm.tag ▸ hb.level, hm.tag ▸ hb.part⟩,
      .inr ⟨hr, rfl, rfl⟩⟩
  · rw [if_neg hr] at hfind
    exact ⟨x, ⟨hfind.trans hb.find, hb.cycle, hb.level, hb.part⟩, .inl rfl⟩

theorem LevelOk.moves {i : Fin n} {l : Level} (h : LevelOk cfg i l o) (ho : OrderOk o)
    (hm : Moves r c.orders orders' o o') : LevelOk cfg i l o' where
  planned_pos := h.planned_pos
  status_ne := h.status_ne
  spend_nonneg := h.spend_nonneg
  spend_le :=
    h.spend_le.trans (share_mono hm.quote hm.filled_ge ho.quote_pos h.planned_pos.le)
  filled hf := by
    have := (h.filled hf).1
    rw [hm.working] at this
    cases this
  planned_eq := h.planned_eq

theorem live_le_one (x : LevelOrder n) : live x ≤ 1 := by
  unfold live
  split
  · exact zero_le_one
  · exact le_rfl

theorem live_of_working {x : LevelOrder n} (h : x.status = .working) : live x = 1 := by
  unfold live
  have hrate : x.rate = 1 := if_pos h
  rw [hrate, if_neg one_ne_zero]

/-- What is counted for a level follows its order. -/
theorem counted_moves (h : Inv cfg c) (hm : Moves r c.orders orders' o o') (i : Fin n)
    {φ : LevelOrder n → ℚ} (hφ : ∀ o, o.rate = 0 → φ o = 0) :
    totalIn orders' c.cycleNo (partOf i φ) =
      match ({ c with orders := orders' } : Purchases n).orderOf i with
      | some o => φ o
      | none => 0 := by
  rw [totalIn_replace hm, h.counted i φ hφ]
  have hpart : ∀ x : LevelOrder n, x.tag = o.tag →
      partOf i φ x = if o.tag.part i = 0 then 0 else φ x := by
    intro x hx
    unfold partOf
    rw [hx]
  rw [hpart o rfl, hpart o' hm.tag]
  by_cases hr : (c.levels i).ref = some r
  · obtain ⟨x, hb, hl⟩ := h.held i r hr
    obtain rfl : x = o := Option.some.inj (hb.find.symm.trans hm.find)
    have hfind := find_replace hm.find hm.reference r
    rw [← hm.eq, if_pos rfl] at hfind
    have horder' : ({ c with orders := orders' } : Purchases n).orderOf i = some o' := by
      unfold Purchases.orderOf
      dsimp only
      rw [hr, Option.bind_some, hfind]
    have hne : x.tag.part i ≠ 0 := by
      rw [hb.part, if_pos hr]
      exact hl.planned_pos.ne'
    rw [hb.orderOf_eq hr, horder', if_pos hb.cycle, if_pos hb.cycle, if_neg hne, if_neg hne]
    dsimp only
    ring
  · -- the order is for other levels, or of an older cycle
    have hzero : ∀ y : ℚ, (if o.tag.cycle = c.cycleNo then if o.tag.part i = 0 then 0 else y
        else 0) = 0 := by
      intro y
      split
      next hc =>
        refine if_pos ?_
        by_contra hpart
        exact hr (h.ref_of_working hm.find hm.working hc hpart)
      next => rfl
    have horder' : ({ c with orders := orders' } : Purchases n).orderOf i = c.orderOf i := by
      unfold Purchases.orderOf
      dsimp only
      cases hi : (c.levels i).ref with
      | none => rfl
      | some r' =>
        have hne : r' ≠ r := fun heq => hr (heq ▸ hi)
        rw [Option.bind_some, Option.bind_some, hm.eq, find_replace hm.find hm.reference,
          if_neg hne]
    rw [horder', hzero, hzero, sub_zero, add_zero]

theorem sweeps_moves (hm : Moves r c.orders orders' o o') :
    ({ c with orders := orders' } : Purchases n).sweeps =
      if o.tag.cycle = c.cycleNo ∧ o.tag.sweep = true then replace o' c.sweeps else c.sweeps := by
  unfold Purchases.sweeps
  dsimp only
  rw [hm.eq, filter_replace hm.find hm.reference (by rw [hm.tag])]
  simp only [decide_eq_true_eq]

theorem NoSweep.moves (h : NoSweep cfg c) (hm : Moves r c.orders orders' o o') :
    NoSweep cfg { c with orders := orders' } where
  sweeps := by
    rw [sweeps_moves hm, h.sweeps]
    split
    · rfl
    · rfl
  ref := h.ref
  done := h.done

theorem OneSweep.moves {x : LevelOrder n} (h : OneSweep cfg c x)
    (hm : Moves r c.orders orders' o o') :
    ∃ x', OneSweep cfg { c with orders := orders' } x' := by
  have hsweeps := sweeps_moves hm
  split at hsweeps
  next hcur =>
    have hmem : o ∈ c.sweeps := List.mem_filter.mpr ⟨mem_of_find hm.find, decide_eq_true hcur⟩
    rw [h.sweeps, List.mem_singleton] at hmem
    subst hmem
    have href : o.reference = o'.reference := (reference_of_find hm.find).trans hm.reference.symm
    rw [h.sweeps, replace_cons, if_pos href] at hsweeps
    exact ⟨o', hsweeps, h.opened, h.filled, hm.quote ▸ h.quote⟩
  next => exact ⟨x, hsweeps.trans h.sweeps, h.opened, h.filled, h.quote⟩

/-- **An order that fills or ends** keeps the invariant. -/
theorem Inv.moves (h : Inv cfg c) (hm : Moves r c.orders orders' o o')
    (hfail : o'.tag.sweep = false → o'.status.isFailure = true → o'.filled = 0) :
    Inv cfg { c with orders := orders' } where
  orders := by
    intro x hx
    dsimp only at hx
    rw [hm.eq] at hx
    rcases mem_replace hx with rfl | hx
    · exact (h.orders o (mem_of_find hm.find)).moves hm hfail
    · exact h.orders x hx
  cycles := by
    intro x hx
    dsimp only at hx
    rw [hm.eq] at hx
    rcases mem_replace hx with rfl | hx
    · exact hm.tag ▸ h.cycles o (mem_of_find hm.find)
    · exact h.cycles x hx
  free := h.free
  held := by
    intro i r' hr'
    obtain ⟨x, hb, hl⟩ := h.held i r' hr'
    obtain ⟨x', hb', rfl | ⟨-, rfl, rfl⟩⟩ := hb.moves hm
    · exact ⟨x', hb', hl⟩
    · exact ⟨x', hb', hl.moves (h.orders x (mem_of_find hb.find)) hm⟩
  form := h.form
  counted := fun i φ hφ => counted_moves h hm i hφ
  sweep := h.sweep.imp (fun hs => hs.moves hm) fun ⟨_, hs⟩ => hs.moves hm
  past := by
    intro cycle hlt
    obtain ⟨hspent, honce⟩ := h.past cycle hlt
    have ho := h.orders o (mem_of_find hm.find)
    constructor
    · refine (mul_le_mul_of_nonneg_right ?_ (feeFactor_pos cfg).le).trans hspent
      exact totalIn_replace_le hm cycle (hm.committed_le ho.toOk)
    · intro i
      refine (totalIn_replace_le hm cycle ?_).trans (honce i)
      unfold partOf
      rw [hm.tag]
      split
      · exact le_rfl
      · exact (live_le_one o').trans (live_of_working hm.working).ge

end order

/-! ## The levels follow their orders -/

/-- The levels as the reports of their orders leave them. -/
def Purchases.reconcile (cfg : Config n) (c : Purchases n) : Purchases n :=
  { c with levels := reconcileLevels (getOrderStatus cfg.feeRate c.orders) c.levels }

def Level.settle (l : Level) (spend : ℚ) (status : LevelStatus) : Level :=
  { l with spend := spend, status := status }

theorem plannedTotal_eq {r : Ref} {o : LevelOrder n} (hb : Backs c r o) (ho : OrderOk o) :
    plannedTotal c.levels r = o.quote := by
  rw [ho.quote_eq hb.level]
  exact Finset.sum_congr rfl fun j _ => (hb.part j).symm

/-- A report brings the spend of a level up to its share. -/
theorem spend_reconcile {i : Fin n} {l : Level} {o : LevelOrder n} (hl : LevelOk cfg i l o)
    (ho : OrderOk o) :
    (if 0 < o.filled + cfg.feeRate * o.filled ∧ 0 < o.quote then
        max l.spend ((o.filled + cfg.feeRate * o.filled) * (l.planned / o.quote))
      else l.spend) = share cfg o l.planned := by
  have hshare : (o.filled + cfg.feeRate * o.filled) * (l.planned / o.quote) =
      share cfg o l.planned := by
    unfold share
    ring
  split
  next => rw [hshare, max_eq_right hl.spend_le]
  next hnot =>
    have hzero : o.filled = 0 := by
      refine le_antisymm (not_lt.mp fun hpos => hnot ⟨?_, ho.quote_pos⟩) ho.filled_nonneg
      have := mul_nonneg cfg.feeRate_nonneg hpos.le
      linarith
    have hs : share cfg o l.planned = 0 := by
      unfold share
      rw [hzero, zero_mul, zero_mul]
    exact le_antisymm hl.spend_le (hs ▸ hl.spend_nonneg)

/-- **One level.**  Its order is filled, ended without a fill, or still works. -/
theorem reconcileLevels_eq {i : Fin n} {r : Ref} {o : LevelOrder n}
    (hr : (c.levels i).ref = some r) (hb : Backs c r o) (hl : LevelOk cfg i (c.levels i) o)
    (ho : OrderOk o) :
    (c.reconcile cfg).levels i =
      if o.status = .filled then (c.levels i).settle (share cfg o (c.levels i).planned) .filled
      else if o.status.isFailure then { attempts := (c.levels i).attempts + 1 }
      else (c.levels i).settle (share cfg o (c.levels i).planned) .pending := by
  show reconcileLevels (getOrderStatus cfg.feeRate c.orders) c.levels i = _
  unfold reconcileLevels
  rw [hr]
  dsimp only
  have hreport : getOrderStatus cfg.feeRate c.orders r = o.report cfg.feeRate := by
    unfold getOrderStatus
    rw [hb.find]
  rw [plannedTotal_eq hb ho, hreport]
  unfold Level.reconcile Order.report
  dsimp only
  rw [spend_reconcile hl ho]
  rfl

theorem reconcileLevels_of_free {i : Fin n} (hr : (c.levels i).ref = none) :
    (c.reconcile cfg).levels i = c.levels i := by
  show reconcileLevels (getOrderStatus cfg.feeRate c.orders) c.levels i = _
  unfold reconcileLevels
  rw [hr]

/-- What a level is after the reports. -/
inductive Reconciled (cfg : Config n) (c : Purchases n) (i : Fin n) : Prop
  | free (hr : (c.levels i).ref = none) (heq : (c.reconcile cfg).levels i = c.levels i)
  | failed {r : Ref} {o : LevelOrder n} (hr : (c.levels i).ref = some r) (hb : Backs c r o)
      (ho : o.status.isFailure = true)
      (heq : (c.reconcile cfg).levels i = { attempts := (c.levels i).attempts + 1 })
  | kept {r : Ref} {o : LevelOrder n} {status : LevelStatus} (hr : (c.levels i).ref = some r)
      (hb : Backs c r o) (ho : o.status.isFailure = false) (hstatus : status ≠ .ready)
      (hfilled : status = .filled ↔ o.status = .filled)
      (heq : (c.reconcile cfg).levels i =
        (c.levels i).settle (share cfg o (c.levels i).planned) status)

theorem Inv.reconciled (h : Inv cfg c) (i : Fin n) : Reconciled cfg c i := by
  rcases h.orderOf_cases i with ⟨hr, -⟩ | ⟨r, o, hr, -, hb, hl, ho⟩
  · exact .free hr (reconcileLevels_of_free hr)
  · have heq := reconcileLevels_eq hr hb hl ho
    split at heq
    next hf =>
      have hnot : o.status.isFailure = false := by
        rw [hf]
        rfl
      exact .kept hr hb hnot (by decide) (iff_of_true rfl hf) heq
    next hf =>
      split at heq
      next hfail => exact .failed hr hb hfail heq
      next hfail =>
        exact .kept hr hb (eq_false_of_ne_true hfail) (by decide) (iff_of_false (by decide) hf) heq

/-- A level that still has an order had it before, and that order has not failed. -/
theorem Inv.ref_reconcile (h : Inv cfg c) {i : Fin n} {r : Ref}
    (hr : ((c.reconcile cfg).levels i).ref = some r) :
    ∃ o status, (c.levels i).ref = some r ∧ Backs c r o ∧ o.status.isFailure = false ∧
      status ≠ .ready ∧ (status = .filled ↔ o.status = .filled) ∧
      (c.reconcile cfg).levels i =
        (c.levels i).settle (share cfg o (c.levels i).planned) status := by
  cases h.reconciled i with
  | free hnone heq =>
    rw [heq, hnone] at hr
    cases hr
  | failed _ _ _ heq =>
    rw [heq] at hr
    cases hr
  | @kept r' o status hr' hb ho hstatus hfilled heq =>
    rw [heq] at hr
    obtain rfl : r' = r := Option.some.inj (hr'.symm.trans hr)
    exact ⟨o, status, hr', hb, ho, hstatus, hfilled, heq⟩

/-- With an order that has not failed, a level keeps its reference and its plan. -/
theorem Inv.kept_reconcile (h : Inv cfg c) {i : Fin n} {r : Ref} {o : LevelOrder n}
    (hr : (c.levels i).ref = some r) (hb : Backs c r o) (ho : o.status.isFailure = false) :
    ((c.reconcile cfg).levels i).ref = some r ∧
      ((c.reconcile cfg).levels i).planned = (c.levels i).planned := by
  cases h.reconciled i with
  | free hnone => rw [hnone] at hr; cases hr
  | @failed r' o' hr' hb' ho' =>
    obtain rfl : r' = r := Option.some.inj (hr'.symm.trans hr)
    obtain rfl : o' = o := Option.some.inj (hb'.find.symm.trans hb.find)
    rw [ho] at ho'
    cases ho'
  | kept _ _ _ _ _ heq =>
    rw [heq]
    exact ⟨hr, rfl⟩

theorem Backs.reconcile {r : Ref} {o : LevelOrder n} (hb : Backs c r o) (h : Inv cfg c)
    (ho : o.status.isFailure = false) : Backs (c.reconcile cfg) r o where
  find := hb.find
  cycle := hb.cycle
  level := hb.level
  part j := by
    rw [hb.part]
    by_cases hj : (c.levels j).ref = some r
    · obtain ⟨href, hplanned⟩ := h.kept_reconcile hj hb ho
      rw [if_pos hj, if_pos href, hplanned]
    · rw [if_neg hj, if_neg fun href => hj ?_]
      obtain ⟨-, -, href', -⟩ := h.ref_reconcile href
      exact href'

/-- A failed order of a level counts for nothing. -/
theorem OrderOk.rate_of_failure {o : LevelOrder n} (h : OrderOk o) (hs : o.tag.sweep = false)
    (hf : o.status.isFailure = true) : o.rate = 0 := by
  have hworking : o.status ≠ .working := by
    intro hw
    rw [hw] at hf
    cases hf
  unfold Order.rate
  rw [if_neg hworking, h.failure hs hf, zero_div]

/-- A filled level stays as it is. -/
theorem Inv.filled_reconcile (h : Inv cfg c) {i : Fin n} (hf : (c.levels i).status = .filled) :
    ((c.reconcile cfg).levels i).status = .filled ∧
      ((c.reconcile cfg).levels i).spend = (c.levels i).spend := by
  cases h.reconciled i with
  | free hr heq =>
    rw [heq]
    exact ⟨hf, rfl⟩
  | failed hr hb ho =>
    obtain ⟨o', hb', hl⟩ := h.held i _ hr
    obtain rfl := Option.some.inj (hb'.find.symm.trans hb.find)
    rw [(hl.filled hf).1] at ho
    cases ho
  | kept hr hb ho hstatus hfilled heq =>
    obtain ⟨o', hb', hl⟩ := h.held i _ hr
    obtain rfl := Option.some.inj (hb'.find.symm.trans hb.find)
    rw [heq]
    exact ⟨hfilled.mpr (hl.filled hf).1, (hl.filled hf).2.symm⟩

theorem Inv.spentTotal_reconcile (h : Inv cfg c) (hf : ∀ i, (c.levels i).status = .filled) :
    spentTotal (c.reconcile cfg).levels = spentTotal c.levels :=
  Finset.sum_congr rfl fun i _ => (h.filled_reconcile (hf i)).2

/-- **Reconciling** keeps the invariant. -/
theorem Inv.reconcile (h : Inv cfg c) : Inv cfg (c.reconcile cfg) where
  orders := h.orders
  cycles := h.cycles
  free i hr := by
    cases h.reconciled i with
    | free hnone heq =>
      rw [heq]
      exact h.free i hnone
    | failed _ _ _ heq =>
      rw [heq]
      exact ⟨rfl, rfl⟩
    | kept hr' _ _ _ _ heq =>
      rw [heq] at hr
      exact absurd (hr'.symm.trans hr) (Option.some_ne_none _)
  held i r hr := by
    obtain ⟨o, status, hr', hb, ho, hstatus, hfilled, heq⟩ := h.ref_reconcile hr
    obtain ⟨o', hb', hl⟩ := h.held i r hr'
    obtain rfl := Option.some.inj (hb'.find.symm.trans hb.find)
    refine ⟨o', hb.reconcile h ho, ?_⟩
    rw [heq]
    exact
      { planned_pos := hl.planned_pos
        status_ne := hstatus
        spend_nonneg := hl.spend_nonneg.trans hl.spend_le
        spend_le := le_rfl
        filled := fun hf => ⟨hfilled.mp hf, rfl⟩
        planned_eq := hl.planned_eq }
  form i r hr := by
    obtain ⟨o, -, hr', hb, ho, -⟩ := h.ref_reconcile hr
    obtain ⟨j, hj, hform⟩ := h.form i r hr'
    exact ⟨j, (h.kept_reconcile hj hb ho).1, hform⟩
  counted i φ hφ := by
    have hcounted := h.counted i φ hφ
    show totalIn c.orders c.cycleNo (partOf i φ) = _
    rw [hcounted]
    cases h.reconciled i with
    | free hr heq =>
      have : (c.reconcile cfg).orderOf i = c.orderOf i := by
        unfold Purchases.orderOf
        rw [heq]
        rfl
      rw [this]
    | failed hr hb ho heq =>
      have hnone : (c.reconcile cfg).orderOf i = none := by
        unfold Purchases.orderOf
        rw [heq]
        rfl
      rw [hb.orderOf_eq hr, hnone]
      exact hφ _ ((h.orders _ (mem_of_find hb.find)).rate_of_failure hb.level ho)
    | kept hr hb ho _ _ heq =>
      have hr' := (h.kept_reconcile hr hb ho).1
      rw [hb.orderOf_eq hr, (hb.reconcile h ho).orderOf_eq hr']
  sweep := by
    rcases h.sweep with hs | ⟨o, hs⟩
    · refine .inl ⟨hs.sweeps, hs.ref, fun hd => ?_⟩
      obtain ⟨hf, hmin⟩ := hs.done hd
      exact ⟨fun i => (h.filled_reconcile (hf i)).1, (h.spentTotal_reconcile hf).symm ▸ hmin⟩
    · refine .inr ⟨o, hs.sweeps, hs.opened, fun i => (h.filled_reconcile (hs.filled i)).1, ?_⟩
      rw [h.spentTotal_reconcile hs.filled]
      exact hs.quote
  past := h.past

/-! ## A batch -/

section submit

variable {batch : Finset (Fin n)} {r : Ref}

theorem Submission.free (hs : Submission cfg c c' batch r) (h : Inv cfg c) {i : Fin n}
    (hi : i ∈ batch) : (c.levels i).ref = none ∧ (c.levels i).spend = 0 := by
  have hnone := h.ref_of_ready (hs.ready i hi)
  exact ⟨hnone, (h.free i hnone).2⟩

/-- No level has the reference of the batch yet. -/
theorem Submission.fresh (hs : Submission cfg c c' batch r) (h : Inv cfg c) (i : Fin n) :
    (c.levels i).ref ≠ some r := by
  intro hr
  obtain ⟨j, hj, last, attempt, hform⟩ := h.form i r hr
  obtain ⟨k, hk, last', attempt', hform'⟩ := hs.first
  rw [hform'] at hform
  have hval : k.val = j.val := (Ref.levels.inj hform).2.1
  obtain rfl : k = j := Fin.ext hval
  exact Option.some_ne_none r (hj.symm.trans (hs.free h hk).1)

theorem Submission.ref_iff (hs : Submission cfg c c' batch r) (h : Inv cfg c) (i : Fin n) :
    (c'.levels i).ref = some r ↔ i ∈ batch := by
  constructor
  · intro hr
    by_contra hi
    rw [hs.notMem i hi] at hr
    exact hs.fresh h i hr
  · intro hi
    rw [hs.mem i hi]
    rfl

theorem Submission.planned (hs : Submission cfg c c' batch r) {i : Fin n} (hi : i ∈ batch) :
    (c'.levels i).planned = plannedQuote cfg c'.levels i := by
  rw [hs.mem i hi]
  rfl

theorem Submission.part_nonneg (hs : Submission cfg c c' batch r) (i : Fin n) :
    0 ≤ (batchOrder cfg c.cycleNo c'.levels batch r).tag.part i := by
  show 0 ≤ if i ∈ batch then plannedQuote cfg c'.levels i else 0
  split
  next hi => exact (hs.quote_pos i hi).le
  next => exact le_rfl

theorem Submission.orderOk (hs : Submission cfg c c' batch r) :
    OrderOk (batchOrder cfg c.cycleNo c'.levels batch r) where
  quote_pos := by
    obtain ⟨i, hi, -⟩ := hs.first
    have hle : (batchOrder cfg c.cycleNo c'.levels batch r).tag.part i ≤
        (batchOrder cfg c.cycleNo c'.levels batch r).quote :=
      Finset.single_le_sum (fun j _ => hs.part_nonneg j) (Finset.mem_univ i)
    refine lt_of_lt_of_le ?_ hle
    show 0 < if i ∈ batch then plannedQuote cfg c'.levels i else 0
    rw [if_pos hi]
    exact hs.quote_pos i hi
  filled_nonneg := le_rfl
  filled_le := Finset.sum_nonneg fun j _ => hs.part_nonneg j
  part_nonneg := hs.part_nonneg
  sweep_part h := by cases h
  quote_eq _ := rfl
  failure _ h := by cases h

theorem Submission.find (hs : Submission cfg c c' batch r) (r' : Ref) :
    Robot.find c'.orders r' =
      if r = r' then some (batchOrder cfg c.cycleNo c'.levels batch r)
      else Robot.find c.orders r' := by
  rw [hs.orders, find_cons]
  rfl

theorem Submission.backs (hs : Submission cfg c c' batch r) (h : Inv cfg c) :
    Backs c' r (batchOrder cfg c.cycleNo c'.levels batch r) where
  find := by rw [hs.find, if_pos rfl]
  cycle := hs.cycleNo.symm
  level := rfl
  part j := by
    show (if j ∈ batch then plannedQuote cfg c'.levels j else 0) = _
    by_cases hj : j ∈ batch
    · rw [if_pos hj, if_pos ((hs.ref_iff h j).mpr hj), hs.planned hj]
    · rw [if_neg hj, if_neg fun hr => hj ((hs.ref_iff h j).mp hr)]

/-- The other references mean what they meant. -/
theorem Backs.submit {r' : Ref} {o : LevelOrder n} (hb : Backs c r' o)
    (hs : Submission cfg c c' batch r) (h : Inv cfg c) (hne : r ≠ r') : Backs c' r' o where
  find := by rw [hs.find, if_neg hne, hb.find]
  cycle := hb.cycle.trans hs.cycleNo.symm
  level := hb.level
  part j := by
    rw [hb.part]
    by_cases hj : j ∈ batch
    · have hother : (c'.levels j).ref ≠ some r' := by
        rw [(hs.ref_iff h j).mpr hj]
        exact fun heq => hne (Option.some.inj heq)
      rw [if_neg hother, (hs.free h hj).1, if_neg (Option.some_ne_none r').symm]
    · rw [hs.notMem j hj]

theorem Submission.sweeps (hs : Submission cfg c c' batch r) : c'.sweeps = c.sweeps := by
  unfold Purchases.sweeps
  rw [hs.orders, hs.cycleNo, List.filter_cons_of_neg]
  simp [batchOrder]

/-- **Submitting a batch** keeps the invariant. -/
theorem Inv.submit (h : Inv cfg c) (hs : Submission cfg c c' batch r) : Inv cfg c' where
  orders := by
    intro o ho
    rw [hs.orders] at ho
    rcases List.mem_cons.mp ho with rfl | ho
    · exact hs.orderOk
    · exact h.orders o ho
  cycles := by
    intro o ho
    rw [hs.orders] at ho
    rw [hs.cycleNo]
    rcases List.mem_cons.mp ho with rfl | ho
    · exact le_rfl
    · exact h.cycles o ho
  free := by
    intro i hr
    by_cases hi : i ∈ batch
    · rw [(hs.ref_iff h i).mpr hi] at hr
      cases hr
    · rw [hs.notMem i hi] at hr ⊢
      exact h.free i hr
  held := by
    intro i r' hr'
    by_cases hi : i ∈ batch
    · obtain rfl : r = r' := Option.some.inj (((hs.ref_iff h i).mpr hi).symm.trans hr')
      have hspend : (c'.levels i).spend = 0 := by
        rw [hs.mem i hi]
        exact (hs.free h hi).2
      have hstatus : (c'.levels i).status = .pending := by
        rw [hs.mem i hi]
        rfl
      have hshare : share cfg (batchOrder cfg c.cycleNo c'.levels batch r)
          (c'.levels i).planned = 0 := by
        unfold share
        rw [batchOrder, zero_mul, zero_mul]
      refine ⟨_, hs.backs h, ?_, ?_, hspend.ge, ?_, ?_, ?_⟩
      · rw [hs.planned hi]
        exact hs.quote_pos i hi
      · rw [hstatus]
        decide
      · rw [hspend, hshare]
      · intro hf
        rw [hstatus] at hf
        cases hf
      · intro hlast
        rw [hs.planned hi, plannedQuote_of_not_isLast hlast]
    · rw [hs.notMem i hi] at hr' ⊢
      obtain ⟨o, hb, hl⟩ := h.held i r' hr'
      exact ⟨o, hb.submit hs h fun heq => hs.fresh h i (heq ▸ hr'), hl⟩
  form := by
    intro i r' hr'
    rw [hs.cycleNo]
    by_cases hi : i ∈ batch
    · obtain rfl : r = r' := Option.some.inj (((hs.ref_iff h i).mpr hi).symm.trans hr')
      obtain ⟨j, hj, hform⟩ := hs.first
      exact ⟨j, (hs.ref_iff h j).mpr hj, hform⟩
    · rw [hs.notMem i hi] at hr'
      obtain ⟨j, hj, hform⟩ := h.form i r' hr'
      have hjb : j ∉ batch := by
        intro hjb
        rw [(hs.free h hjb).1] at hj
        cases hj
      exact ⟨j, by rw [hs.notMem j hjb, hj], hform⟩
  counted := by
    intro i φ hφ
    have hcycle : (batchOrder cfg c.cycleNo c'.levels batch r).tag.cycle = c.cycleNo := rfl
    rw [hs.orders, totalIn_cons, hs.cycleNo, if_pos hcycle, h.counted i φ hφ]
    by_cases hi : i ∈ batch
    · have hnone : c.orderOf i = none := by
        unfold Purchases.orderOf
        rw [(hs.free h hi).1]
        rfl
      have hpart : (batchOrder cfg c.cycleNo c'.levels batch r).tag.part i ≠ 0 := by
        show (if i ∈ batch then plannedQuote cfg c'.levels i else 0) ≠ 0
        rw [if_pos hi]
        exact (hs.quote_pos i hi).ne'
      rw [hnone, (hs.backs h).orderOf_eq ((hs.ref_iff h i).mpr hi)]
      unfold partOf
      rw [if_neg hpart, add_zero]
    · have hpart : (batchOrder cfg c.cycleNo c'.levels batch r).tag.part i = 0 := if_neg hi
      have hsame : c'.orderOf i = c.orderOf i := by
        unfold Purchases.orderOf
        rw [hs.notMem i hi]
        cases hr : (c.levels i).ref with
        | none => rfl
        | some r' =>
          have hne : r ≠ r' := fun heq => hs.fresh h i (heq ▸ hr)
          rw [Option.bind_some, Option.bind_some, hs.find, if_neg hne]
      rw [hsame]
      unfold partOf
      rw [if_pos hpart, zero_add]
  sweep := by
    -- a level of the batch was ready, so not every level was filled
    obtain ⟨i, hi, -⟩ := hs.first
    have hready : ¬ ∀ i, (c.levels i).status = .filled := by
      intro hall
      have := (hs.ready i hi).symm.trans (hall i)
      cases this
    rcases h.sweep with hno | ⟨o, hone⟩
    · refine .inl ⟨hs.sweeps.trans hno.sweeps, hs.finalSweepRef.trans hno.ref, fun hd => ?_⟩
      rw [hs.finalSweepDone] at hd
      exact absurd (hno.done hd).1 hready
    · exact absurd hone.filled hready
  past := by
    intro cycle hlt
    rw [hs.cycleNo] at hlt
    have hother : (batchOrder cfg c.cycleNo c'.levels batch r).tag.cycle ≠ cycle := hlt.ne'
    rw [hs.orders]
    simp only [totalIn_cons, if_neg hother, zero_add]
    exact h.past cycle hlt

end submit

/-! ## The sweep and the next cycle -/

/-- What a sweep asks for. -/
def sweepOrder (cfg : Config n) (c : Purchases n) : LevelOrder n :=
  ⟨.finalSweep c.cycleNo, ⟨c.cycleNo, true, 0⟩,
    (cfg.startingCash - spentTotal c.levels) / (1 + cfg.feeRate), 0, .working⟩

def Purchases.openSweep (cfg : Config n) (c : Purchases n) : Purchases n :=
  { c with
    finalSweepRef := some (.finalSweep c.cycleNo)
    orders := sweepOrder cfg c :: c.orders }

/-- A level never has the reference of a sweep. -/
theorem Inv.ref_ne_finalSweep (h : Inv cfg c) (i : Fin n) (cycle : ℕ) :
    (c.levels i).ref ≠ some (.finalSweep cycle) := by
  intro hr
  obtain ⟨j, -, last, attempt, hform⟩ := h.form i _ hr
  cases hform

theorem Inv.sweepOpens (h : Inv cfg c) (hfilled : ∀ i, (c.levels i).status = .filled)
    (hdone : c.finalSweepDone = false) (href : c.finalSweepRef = none)
    (hmin : finalSweepMinQuote ≤ cfg.startingCash - spentTotal c.levels) :
    Inv cfg (c.openSweep cfg) where
  orders := by
    intro o ho
    rcases List.mem_cons.mp ho with rfl | ho
    · have hrest : 0 < cfg.startingCash - spentTotal c.levels :=
        lt_of_lt_of_le (by decide +kernel) hmin
      have hquote : 0 < (sweepOrder cfg c).quote := div_pos hrest (feeFactor_pos cfg)
      exact
        { quote_pos := hquote
          filled_nonneg := le_rfl
          filled_le := hquote.le
          part_nonneg := fun _ => le_rfl
          sweep_part := fun _ => rfl
          quote_eq := fun hs => by cases hs
          failure := fun hs => by cases hs }
    · exact h.orders o ho
  cycles := by
    intro o ho
    rcases List.mem_cons.mp ho with rfl | ho
    · exact le_rfl
    · exact h.cycles o ho
  free := h.free
  held := by
    intro i r hr
    obtain ⟨o, hb, hl⟩ := h.held i r hr
    have hne : Ref.finalSweep c.cycleNo ≠ r := fun heq => h.ref_ne_finalSweep i _ (heq ▸ hr)
    refine ⟨o, ⟨?_, hb.cycle, hb.level, hb.part⟩, hl⟩
    show find (sweepOrder cfg c :: c.orders) r = some o
    rw [find_cons, sweepOrder, if_neg hne, hb.find]
  form := h.form
  counted := by
    intro i φ hφ
    show totalIn (sweepOrder cfg c :: c.orders) c.cycleNo (partOf i φ) = _
    have hpart : partOf i φ (sweepOrder cfg c) = 0 := if_pos rfl
    have hsame : (c.openSweep cfg).orderOf i = c.orderOf i := by
      unfold Purchases.orderOf Purchases.openSweep
      dsimp only
      cases hr : (c.levels i).ref with
      | none => rfl
      | some r =>
        have hne : Ref.finalSweep c.cycleNo ≠ r := fun heq => h.ref_ne_finalSweep i _ (heq ▸ hr)
        rw [Option.bind_some, Option.bind_some, find_cons, sweepOrder, if_neg hne]
    rw [totalIn_cons, hpart, ite_self, zero_add, h.counted i φ hφ, hsame]
  sweep := by
    have hsweeps : (c.openSweep cfg).sweeps = sweepOrder cfg c :: c.sweeps := by
      unfold Purchases.sweeps Purchases.openSweep
      exact List.filter_cons_of_pos (by simp [sweepOrder])
    rcases h.sweep with hno | ⟨o, hone⟩
    · refine .inr ⟨sweepOrder cfg c, ?_, (fun hs => by cases hs), hfilled, ?_⟩
      · rw [hsweeps, hno.sweeps]
      · show spentTotal c.levels +
          (cfg.startingCash - spentTotal c.levels) / (1 + cfg.feeRate) * (1 + cfg.feeRate) = _
        rw [div_mul_cancel₀ _ (feeFactor_pos cfg).ne']
        ring
    · have := hone.opened href
      rw [hdone] at this
      cases this
  past := by
    intro cycle hlt
    have hother : (sweepOrder cfg c).tag.cycle ≠ cycle := hlt.ne'
    show totalIn (sweepOrder cfg c :: c.orders) cycle Order.committed * (1 + cfg.feeRate) ≤ _ ∧
      ∀ i, totalIn (sweepOrder cfg c :: c.orders) cycle (partOf i live) ≤ 1
    simp only [totalIn_cons, if_neg hother, zero_add]
    exact h.past cycle hlt

/-- The sweep is done with; what it was does not matter any more. -/
theorem Inv.sweepDone (h : Inv cfg c) (ref : Option Ref)
    (hsweep : NoSweep cfg { c with finalSweepRef := ref, finalSweepDone := true } ∨
      ∃ o, OneSweep cfg c o) :
    Inv cfg { c with finalSweepRef := ref, finalSweepDone := true } where
  orders := h.orders
  cycles := h.cycles
  free := h.free
  held i r hr := by
    obtain ⟨o, hb, hl⟩ := h.held i r hr
    exact ⟨o, ⟨hb.find, hb.cycle, hb.level, hb.part⟩, hl⟩
  form := h.form
  counted := h.counted
  sweep := hsweep.imp_right fun ⟨o, hs⟩ => ⟨o, hs.sweeps, fun _ => rfl, hs.filled, hs.quote⟩
  past := h.past

theorem Inv.sweepEnds (h : Inv cfg c) (href : c.finalSweepRef ≠ none) :
    Inv cfg { c with finalSweepRef := none, finalSweepDone := true } := by
  refine h.sweepDone none (.inr ?_)
  rcases h.sweep with hno | hone
  · exact absurd hno.ref href
  · exact hone

theorem Inv.sweepSpared (h : Inv cfg c) (hfilled : ∀ i, (c.levels i).status = .filled)
    (hmin : cfg.startingCash - spentTotal c.levels < finalSweepMinQuote) :
    Inv cfg { c with finalSweepDone := true } := by
  refine h.sweepDone c.finalSweepRef ?_
  rcases h.sweep with hno | hone
  · exact .inl ⟨hno.sweeps, hno.ref, fun _ => ⟨hfilled, hmin⟩⟩
  · exact .inr hone

/-- An order counts for its level once. -/
theorem Inv.live_le_one (h : Inv cfg c) (i : Fin n) :
    totalIn c.orders c.cycleNo (partOf i live) ≤ 1 := by
  rw [h.counted i live fun o ho => if_pos ho]
  split
  next o _ => exact Martingale.live_le_one o
  next => exact zero_le_one

/-- **The next cycle** starts with no orders; this one must have kept its budget. -/
theorem Inv.newCycle (h : Inv cfg c)
    (hbudget : totalIn c.orders c.cycleNo Order.committed * (1 + cfg.feeRate) ≤
      cfg.startingCash * (1 + cfg.feeRate)) :
    Inv cfg ⟨fun _ => {}, c.cycleNo + 1, none, false, c.orders⟩ := by
  have hnew : ∀ o ∈ c.orders, o.tag.cycle ≠ c.cycleNo + 1 :=
    fun o ho => (Nat.lt_succ_of_le (h.cycles o ho)).ne
  refine ⟨h.orders, fun o ho => (h.cycles o ho).trans (Nat.le_succ _), fun _ _ => ⟨rfl, rfl⟩,
    fun _ _ hr => (by cases hr), fun _ _ hr => (by cases hr), fun i φ _ => ?_, .inl ⟨?_, rfl, ?_⟩,
    fun cycle hlt => ?_⟩
  · rw [totalIn_eq_zero hnew]
    rfl
  · refine List.filter_eq_nil_iff.mpr fun o ho => ?_
    rw [decide_eq_true_eq]
    exact fun hs => hnew o ho hs.1
  · intro hd
    cases hd
  · rcases Nat.lt_succ_iff_lt_or_eq.mp hlt with hlt | rfl
    · exact h.past cycle hlt
    · exact ⟨hbudget, h.live_le_one⟩

end AlgoTrade.Robot.Martingale
