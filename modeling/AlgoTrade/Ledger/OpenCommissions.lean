import AlgoTrade.Ledger.NetPnl

/-! # Which units an exit closes

The rows of one leg matched first in, first out, and the commissions that
`allocateOpenCommissionsFifo` gives to its exits.

* `Leg.next`: the commission of the units that an exit closes next.
* `get?_allocate`: the allocation matches the exits with a profit, and no others.
* `conserves_iff`: it is right exactly when leaving the other exits out shifts no
  exit to units of another commission. -/

namespace AlgoTrade.NetPnl

open Fifo Replay

/-! ## First in, first out -/

/-- The lots of one leg in the order they were opened, and the units closed so far. -/
structure Leg where
  opened : List (Lot ℚ) := []
  closed : ℚ := 0

def TradeRow.lot (row : TradeRow) : Lot ℚ := ⟨row.amount, row.quoteCommission / row.amount⟩

/-- An exit of the leg that has a profit. -/
def TradeRow.profitsOn (row : TradeRow) (key : Symbol × Side) : Bool :=
  row.leg = some key ∧ row.isExit ∧ row.profit.isSome

namespace Leg

/-- The leg after a row; only exits that count close units, and no more than are open. -/
def after (counts : TradeRow → Bool) (key : Symbol × Side) (l : Leg) (row : TradeRow) : Leg :=
  if row.leg ≠ some key then l
  else if row.isExit then
    if counts row then { l with closed := min (l.closed + row.amount) (size l.opened) } else l
  else { l with opened := l.opened ++ [row.lot] }

/-- All exits close units. -/
def matched (key : Symbol × Side) (rows : List TradeRow) : Leg :=
  rows.foldl (after (fun _ => true) key) {}

/-- Only the exits with a profit do. -/
def profitable (key : Symbol × Side) (rows : List TradeRow) : Leg :=
  rows.foldl (after (fun row => row.profit.isSome) key) {}

/-- The commission of the next units. -/
def next (l : Leg) (amount : ℚ) : ℚ := first l.opened (l.closed + amount) - first l.opened l.closed

/-- What the rows add up to, each told with the leg before it. -/
def sumOver (counts : TradeRow → Bool) (key : Symbol × Side) (f : Leg → TradeRow → ℚ) :
    Leg → List TradeRow → ℚ
  | _, [] => 0
  | l, row :: rows => f l row + sumOver counts key f (l.after counts key row) rows

/-- The units that exits with a profit close, when all exits are matched. -/
def closedWithProfit (key : Symbol × Side) (rows : List TradeRow) : ℚ :=
  sumOver (fun _ => true) key (fun l row =>
    if row.profitsOn key then (l.after (fun _ => true) key row).closed - l.closed else 0) {} rows

end Leg

/-! ## What is conserved -/

/-- The commissions of the opening rows of a leg. -/
def openCommissions (trades : List TradeRow) (key : Symbol × Side) : ℚ :=
  ((trades.filter fun row => row.leg = some key ∧ row.isExit = false).map
    TradeRow.quoteCommission).sum

/-- What is allocated to the exits of a leg. -/
def allocatedTotal (trades : List TradeRow) (key : Symbol × Side) : ℚ :=
  ((trades.filter fun row => row.leg = some key ∧ row.isExit = true).map fun row =>
    ((allocateOpenCommissionsFifo .exact trades).get? row.id).getD 0).sum

structure Conserves (trades : List TradeRow) : Prop where
  /-- An exit is given the commission of the units it closes. -/
  allocated : ∀ before row rest key, chronological trades = before ++ row :: rest →
    row.profitsOn key = true → (allocateOpenCommissionsFifo .exact trades).get? row.id =
      some ((Leg.matched key before).next row.amount)
  total_le : ∀ key, (∀ row ∈ trades, row.leg = some key → row.isExit = false →
    0 ≤ row.quoteCommission) → allocatedTotal trades key ≤ openCommissions trades key
  total_eq : ∀ key, Leg.closedWithProfit key (chronological trades) =
      size (Leg.matched key (chronological trades)).opened →
    allocatedTotal trades key = openCommissions trades key
  equity : ((enrichTradesNetPnl .exact trades).map netPnlForEquityStep).sum =
    (trades.map fun row => row.profit.getD 0).sum - (trades.map TradeRow.quoteCommission).sum

/-- With or without the exits that have no profit, an exit that has one closes units
of the same commission. -/
def Unshifted (trades : List TradeRow) : Prop :=
  ∀ before row rest key, chronological trades = before ++ row :: rest →
    row.profitsOn key = true →
      (Leg.profitable key before).next row.amount = (Leg.matched key before).next row.amount

/-! ## The walk -/

section
variable {counts : TradeRow → Bool} {key : Symbol × Side} {l : Leg} {row : TradeRow}

structure Leg.Ok (l : Leg) : Prop where
  positive : Positive l.opened
  nonneg : 0 ≤ l.closed
  le_size : l.closed ≤ size l.opened

theorem Leg.ok_empty : Leg.Ok {} := ⟨fun _ h => (List.not_mem_nil h).elim, le_rfl, le_rfl⟩

theorem Leg.Ok.after (h : l.Ok) (hrow : 0 < row.amount) : (l.after counts key row).Ok := by
  unfold Leg.after
  split
  · exact h
  · split
    · split
      · refine ⟨h.positive, le_min ?_ (size_nonneg h.positive), min_le_right _ _⟩
        exact add_nonneg h.nonneg hrow.le
      · exact h
    · refine ⟨fun lot hlot => ?_, h.nonneg, ?_⟩
      · rcases List.mem_append.mp hlot with hlot | hlot
        · exact h.positive lot hlot
        · obtain rfl := List.mem_singleton.mp hlot
          exact hrow
      · dsimp only
        rw [size_append]
        have hlot : size [row.lot] = row.amount := by simp [TradeRow.lot]
        linarith [h.le_size]

theorem Leg.Ok.foldl (h : l.Ok) {rows : List TradeRow} (hrows : ∀ row ∈ rows, 0 < row.amount) :
    (rows.foldl (Leg.after counts key) l).Ok := by
  induction rows generalizing l with
  | nil => exact h
  | cons row rows ih =>
    exact ih (h.after (hrows row List.mem_cons_self)) fun r hr => hrows r (List.mem_cons_of_mem row hr)

/-- Units that are not there cost nothing. -/
theorem first_min_size {lots : List (Lot ℚ)} (h : Positive lots) (x : ℚ) :
    first lots (min x (size lots)) = first lots x := by
  rcases le_total x (size lots) with hle | hle
  · rw [min_eq_left hle]
  · rw [min_eq_right hle, first_of_size_le h le_rfl, first_of_size_le h hle]

theorem drop_min_size {lots : List (Lot ℚ)} (h : Positive lots) (x : ℚ) :
    drop lots (min x (size lots)) = drop lots x := by
  rcases le_total x (size lots) with hle | hle
  · rw [min_eq_left hle]
  · rw [min_eq_right hle, drop_of_size_le h le_rfl, drop_of_size_le h hle]

end

/-- The queue of every leg is what its exits with a profit have left. -/
def Walked (s : Allocation) (before : List TradeRow) : Prop :=
  ∀ key, s.queue key = drop (Leg.profitable key before).opened (Leg.profitable key before).closed

theorem profitable_append (key : Symbol × Side) (before : List TradeRow) (row : TradeRow) :
    Leg.profitable key (before ++ [row]) =
      (Leg.profitable key before).after (fun row => row.profit.isSome) key row :=
  List.foldl_concat ..

theorem queue_set (s : Allocation) (key key' : Symbol × Side) (lots : List (Lot ℚ)) (out : Dict ℕ ℚ) :
    Allocation.queue { lots := s.lots.set key lots, out } key' =
      if key = key' then lots else s.queue key' := by
  unfold Allocation.queue
  rw [Dict.get?_set]
  split
  · rfl
  · rfl

/-- **One row of the walk.** -/
theorem Walked.step {s : Allocation} {before : List TradeRow} (h : Walked s before)
    (hbefore : ∀ row ∈ before, 0 < row.amount) {row : TradeRow} (hrow : 0 < row.amount) :
    Walked (s.step .exact row) (before ++ [row]) := by
  intro key
  have hok : (Leg.profitable key before).Ok := Leg.ok_empty.foldl hbefore
  rw [profitable_append]
  unfold Leg.after Allocation.step
  cases hleg : row.leg with
  | none =>
    rw [if_pos (fun hsome => nomatch hsome)]
    exact h key
  | some own =>
    dsimp only
    by_cases hkey : own = key
    · subst hkey
      rw [if_neg (not_not.mpr rfl)]
      cases hexit : row.isExit with
      | true =>
        rw [if_pos rfl, if_pos rfl]
        split
        next hprofit =>
          have hcounts : ¬ row.profit.isSome = true := by rw [hprofit]; exact Bool.false_ne_true
          rw [if_neg hcounts]
          exact h own
        next profit hprofit =>
          have hcounts : row.profit.isSome = true := by rw [hprofit]; rfl
          rw [if_pos hcounts, queue_set, if_pos rfl, h own]
          have hleft := positive_drop hok.positive (Leg.profitable own before).closed
          refine (consume_exact hleft hrow.le).1.trans ?_
          rw [drop_drop hok.positive hok.nonneg hrow.le, drop_min_size hok.positive]
      | false =>
        rw [if_neg Bool.false_ne_true, if_neg Bool.false_ne_true,
          if_pos (show Tolerance.exact.dust < row.amount from hrow), if_pos hrow, queue_set,
          if_pos rfl, h own]
        refine (drop_append (fun lot hlot => ?_) hok.nonneg hok.le_size).symm
        obtain rfl := List.mem_singleton.mp hlot
        exact hrow
    · rw [if_pos fun hsome => hkey (Option.some.inj hsome)]
      split
      · split
        · exact h key
        · rw [queue_set, if_neg hkey]
          exact h key
      · split
        · rw [queue_set, if_neg hkey]
          exact h key
        · exact h key

theorem walked_foldl {rows : List TradeRow} (hrows : ∀ row ∈ rows, 0 < row.amount) :
    Walked (rows.foldl (Allocation.step .exact) {}) rows := by
  induction rows using List.reverseRecOn with
  | nil => exact fun key => rfl
  | append_singleton before row ih =>
    have hbefore : ∀ r ∈ before, 0 < r.amount := fun r hr => hrows r (List.mem_append_left _ hr)
    rw [List.foldl_concat]
    exact (ih hbefore).step hbefore (hrows row (List.mem_append_right _ (List.mem_singleton.mpr rfl)))

/-- A row writes its own exit only, and that when it has a profit. -/
theorem out_step_of_not {s : Allocation} {row : TradeRow} {id : ℕ} (h : row.id = id → row.profit = none) :
    (s.step .exact row).out.get? id = s.out.get? id := by
  unfold Allocation.step
  split
  · rfl
  · split
    · split
      · rfl
      next profit hprofit =>
        have hid : row.id ≠ id := fun heq => nomatch hprofit.symm.trans (h heq)
        dsimp only
        split
        · rw [Dict.get?_set, if_neg hid]
        · rfl
    · split
      · rfl
      · rfl

theorem out_foldl_of_not {s : Allocation} {rows : List TradeRow} {id : ℕ}
    (h : ∀ row ∈ rows, row.id = id → row.profit = none) :
    (rows.foldl (Allocation.step .exact) s).out.get? id = s.out.get? id := by
  induction rows generalizing s with
  | nil => rfl
  | cons row rows ih =>
    rw [List.foldl_cons, ih fun r hr => h r (List.mem_cons_of_mem row hr),
      out_step_of_not (h row List.mem_cons_self)]

/-! ## Lists of trades -/

/-- Distinct positive ids, and positive amounts. -/
structure Trades (trades : List TradeRow) : Prop where
  ids : (trades.map TradeRow.id).Nodup
  id_pos : ∀ row ∈ trades, 0 < row.id
  amount_pos : ∀ row ∈ trades, 0 < row.amount

section
variable {trades : List TradeRow} {key : Symbol × Side}

theorem perm_chronological (trades : List TradeRow) : (chronological trades).Perm trades :=
  List.perm_insertionSort ..

theorem Trades.chronological (h : Trades trades) : Trades (chronological trades) where
  ids := ((perm_chronological trades).map TradeRow.id).nodup_iff.mpr h.ids
  id_pos row hrow := h.id_pos row ((perm_chronological trades).mem_iff.mp hrow)
  amount_pos row hrow := h.amount_pos row ((perm_chronological trades).mem_iff.mp hrow)

theorem profitsOn_iff {row : TradeRow} : row.profitsOn key = true ↔
    row.leg = some key ∧ row.isExit = true ∧ row.profit.isSome = true := decide_eq_true_iff

/-- **The allocation** gives an exit the units that follow those of the earlier exits
with a profit. -/
theorem get?_allocate (h : Trades trades) {before rest : List TradeRow} {row : TradeRow}
    (hsplit : chronological trades = before ++ row :: rest) (hrow : row.profitsOn key = true) :
    (allocateOpenCommissionsFifo .exact trades).get? row.id =
      some ((Leg.profitable key before).next row.amount) := by
  have hsorted := h.chronological
  rw [hsplit] at hsorted
  have hbefore : ∀ r ∈ before, 0 < r.amount := fun r hr =>
    hsorted.amount_pos r (List.mem_append_left _ hr)
  have hmem : row ∈ before ++ row :: rest := List.mem_append_right _ List.mem_cons_self
  have hrest : ∀ r ∈ rest, r.id ≠ row.id := by
    have hids := hsorted.ids
    rw [List.map_append, List.map_cons] at hids
    intro r hr heq
    exact (List.nodup_cons.mp (List.nodup_append.mp hids).2.1).1 (heq ▸ List.mem_map_of_mem hr)
  obtain ⟨hleg, hexit, hprofit⟩ := profitsOn_iff.mp hrow
  obtain ⟨profit, hprofit⟩ := Option.isSome_iff_exists.mp hprofit
  have hok : (Leg.profitable key before).Ok := Leg.ok_empty.foldl hbefore
  unfold allocateOpenCommissionsFifo
  rw [hsplit, List.foldl_append, List.foldl_cons,
    out_foldl_of_not fun r hr heq => absurd heq (hrest r hr), Allocation.step, hleg]
  dsimp only
  rw [hexit, if_pos rfl, hprofit]
  dsimp only
  rw [if_pos (hsorted.id_pos row hmem), Dict.get?_set_self, walked_foldl hbefore key]
  have hleft := positive_drop hok.positive (Leg.profitable key before).closed
  rw [show Tolerance.exact.dust = 0 from rfl,
    (consume_exact hleft (hsorted.amount_pos row hmem).le).2,
    first_drop hok.positive hok.nonneg (hsorted.amount_pos row hmem).le]
  rfl

theorem get?_allocate_none (h : Trades trades) {row : TradeRow} (hrow : row ∈ trades)
    (hprofit : row.profit = none) :
    (allocateOpenCommissionsFifo .exact trades).get? row.id = none := by
  unfold allocateOpenCommissionsFifo
  rw [out_foldl_of_not fun r hr heq => ?_]
  · rfl
  · rw [List.inj_on_of_nodup_map h.chronological.ids hr
      ((perm_chronological trades).mem_iff.mpr hrow) heq, hprofit]

/-! ## Totals of a leg -/

/-- The costs of the stretches of the exits add up. -/
theorem sumOver_next {rows : List TradeRow} (hrows : ∀ row ∈ rows, 0 < row.amount) {l : Leg}
    (h : l.Ok) :
    l.sumOver (fun row => row.profit.isSome) key
        (fun l row => if row.profitsOn key then l.next row.amount else 0) rows =
      first (rows.foldl (Leg.after (fun row => row.profit.isSome) key) l).opened
          (rows.foldl (Leg.after (fun row => row.profit.isSome) key) l).closed -
        first l.opened l.closed := by
  induction rows generalizing l with
  | nil => exact (sub_self _).symm
  | cons row rows ih =>
    have hrow := hrows row List.mem_cons_self
    have hone : (if row.profitsOn key then l.next row.amount else 0) =
        first (l.after (fun row => row.profit.isSome) key row).opened
          (l.after (fun row => row.profit.isSome) key row).closed - first l.opened l.closed := by
      unfold Leg.after
      by_cases hleg : row.leg = some key
      · rw [if_neg (not_not.mpr hleg)]
        cases hexit : row.isExit with
        | true =>
          rw [if_pos rfl]
          by_cases hprofit : row.profit.isSome = true
          · rw [if_pos hprofit, if_pos (profitsOn_iff.mpr ⟨hleg, hexit, hprofit⟩),
              first_min_size h.positive]
            rfl
          · rw [if_neg hprofit, if_neg fun hon => hprofit (profitsOn_iff.mp hon).2.2, sub_self]
        | false =>
          have hlater : Positive [row.lot] := fun lot hlot =>
            List.mem_singleton.mp hlot ▸ hrow
          rw [if_neg Bool.false_ne_true,
            if_neg fun hon => Bool.false_ne_true (hexit.symm.trans (profitsOn_iff.mp hon).2.1),
            first_append hlater h.nonneg h.le_size, sub_self]
      · rw [if_pos hleg, if_neg fun hon => hleg (profitsOn_iff.mp hon).1, sub_self]
    rw [Leg.sumOver, List.foldl_cons, ih (fun r hr => hrows r (List.mem_cons_of_mem row hr))
      (h.after hrow), hone]
    ring

/-- The lots are opened by the opening rows, whatever exits count. -/
theorem opened_foldl (counts : TradeRow → Bool) (rows : List TradeRow) (l : Leg) :
    (rows.foldl (Leg.after counts key) l).opened = l.opened ++
      (rows.filter fun row => row.leg = some key ∧ row.isExit = false).map TradeRow.lot := by
  induction rows generalizing l with
  | nil => exact (List.append_nil _).symm
  | cons row rows ih =>
    rw [List.foldl_cons, ih, Leg.after]
    by_cases hleg : row.leg = some key
    · rw [if_neg (not_not.mpr hleg)]
      cases hexit : row.isExit with
      | true =>
        rw [if_pos rfl, List.filter_cons_of_neg (by simp [hexit])]
        split
        · rfl
        · rfl
      | false =>
        rw [if_neg Bool.false_ne_true, List.filter_cons_of_pos (by simp [hleg, hexit]),
          List.map_cons, List.append_assoc]
        rfl
    · rw [if_pos hleg, List.filter_cons_of_neg (by simp [hleg])]

theorem allocatedTotal_eq (h : Trades trades) (key : Symbol × Side) :
    allocatedTotal trades key =
      first (Leg.profitable key (chronological trades)).opened
        (Leg.profitable key (chronological trades)).closed := by
  have hwalk : ∀ rest before : List TradeRow, chronological trades = before ++ rest →
      ((rest.filter fun row => row.leg = some key ∧ row.isExit = true).map fun row =>
          ((allocateOpenCommissionsFifo .exact trades).get? row.id).getD 0).sum =
        (Leg.profitable key before).sumOver (fun row => row.profit.isSome) key
          (fun l row => if row.profitsOn key then l.next row.amount else 0) rest := by
    intro rest
    induction rest with
    | nil => exact fun _ _ => rfl
    | cons row rest ih =>
      intro before hsplit
      have hmem : row ∈ trades := (perm_chronological trades).mem_iff.mp
        (hsplit ▸ List.mem_append_right before List.mem_cons_self)
      have hrest := ih (before ++ [row]) (by rw [hsplit, List.append_assoc]; rfl)
      rw [profitable_append] at hrest
      rw [Leg.sumOver, ← hrest]
      by_cases hexits : row.leg = some key ∧ row.isExit = true
      · rw [List.filter_cons_of_pos (by simpa using hexits), List.map_cons, List.sum_cons]
        refine congrArg (· + _) ?_
        cases hprofit : row.profit with
        | none =>
          have hoff : ¬ row.profitsOn key = true := fun hon => by
            have hsome := (profitsOn_iff.mp hon).2.2
            rw [hprofit] at hsome
            cases hsome
          rw [get?_allocate_none h hmem hprofit, if_neg hoff]
          rfl
        | some profit =>
          have hon : row.profitsOn key = true :=
            profitsOn_iff.mpr ⟨hexits.1, hexits.2, by rw [hprofit]; rfl⟩
          rw [get?_allocate h hsplit hon, if_pos hon]
          rfl
      · have hoff : ¬ row.profitsOn key = true := fun hon =>
          hexits ⟨(profitsOn_iff.mp hon).1, (profitsOn_iff.mp hon).2.1⟩
        rw [List.filter_cons_of_neg (by simpa using hexits), if_neg hoff, zero_add]
  unfold allocatedTotal
  rw [(((perm_chronological trades).symm.filter _).map _).sum_eq, hwalk (chronological trades) [] rfl]
  exact (sumOver_next h.chronological.amount_pos Leg.ok_empty).trans (sub_zero _)

theorem openCommissions_eq (h : Trades trades) (counts : TradeRow → Bool) (key : Symbol × Side) :
    openCommissions trades key =
      total ((chronological trades).foldl (Leg.after counts key) {}).opened := by
  unfold openCommissions total
  rw [opened_foldl, (((perm_chronological trades).symm.filter _).map _).sum_eq]
  refine congrArg List.sum ?_
  rw [List.nil_append, List.map_map]
  refine List.map_congr_left fun row hrow => ?_
  have hpos := h.chronological.amount_pos row (List.mem_of_mem_filter hrow)
  exact (mul_div_cancel₀ row.quoteCommission hpos.ne').symm

/-- An exit with a profit closes no less when the others are left out. -/
theorem closedWithProfit_le (h : Trades trades) (key : Symbol × Side) :
    Leg.closedWithProfit key (chronological trades) ≤
      (Leg.profitable key (chronological trades)).closed := by
  have hwalk : ∀ (rows : List TradeRow) (l m : Leg) (sum : ℚ), (∀ row ∈ rows, 0 < row.amount) →
      l.Ok → m.opened = l.opened → sum ≤ l.closed → sum ≤ m.closed →
        sum + l.sumOver (fun _ => true) key (fun l row =>
            if row.profitsOn key then (l.after (fun _ => true) key row).closed - l.closed else 0)
            rows ≤ (rows.foldl (Leg.after (fun row => row.profit.isSome) key) m).closed := by
    intro rows
    induction rows with
    | nil => exact fun l m sum _ _ _ _ hm => (add_zero sum).trans_le hm
    | cons row rows ih =>
      intro l m sum hrows hl hopened hsum hsum'
      have hrow := hrows row List.mem_cons_self
      rw [Leg.sumOver, List.foldl_cons, ← add_assoc]
      obtain ⟨hopened', hle, hle'⟩ : (m.after (fun row => row.profit.isSome) key row).opened =
            (l.after (fun _ => true) key row).opened ∧
          sum + (if row.profitsOn key then
            (l.after (fun _ => true) key row).closed - l.closed else 0) ≤
              (l.after (fun _ => true) key row).closed ∧
          sum + (if row.profitsOn key then
            (l.after (fun _ => true) key row).closed - l.closed else 0) ≤
              (m.after (fun row => row.profit.isSome) key row).closed := by
        unfold Leg.after
        by_cases hleg : row.leg = some key
        · rw [if_neg (not_not.mpr hleg), if_neg (not_not.mpr hleg)]
          cases hexit : row.isExit with
          | true =>
            rw [if_pos rfl, if_pos rfl, if_pos rfl]
            have hmore : l.closed ≤ min (l.closed + row.amount) (size l.opened) :=
              le_min (by linarith) hl.le_size
            by_cases hprofit : row.profit.isSome = true
            · have hless := min_le_left (l.closed + row.amount) (size l.opened)
              have hless' := min_le_right (l.closed + row.amount) (size l.opened)
              rw [if_pos (profitsOn_iff.mpr ⟨hleg, hexit, hprofit⟩), if_pos hprofit]
              dsimp only
              rw [hopened]
              exact ⟨rfl, by linarith, le_min (by linarith) (by linarith)⟩
            · rw [if_neg fun hon => hprofit (profitsOn_iff.mp hon).2.2, if_neg hprofit, add_zero]
              exact ⟨hopened, hsum.trans hmore, hsum'⟩
          | false =>
            rw [if_neg Bool.false_ne_true, if_neg Bool.false_ne_true, if_neg fun hon =>
              Bool.false_ne_true (hexit.symm.trans (profitsOn_iff.mp hon).2.1), add_zero]
            exact ⟨congrArg (· ++ [row.lot]) hopened, hsum, hsum'⟩
        · rw [if_pos hleg, if_pos hleg, if_neg fun hon => hleg (profitsOn_iff.mp hon).1, add_zero]
          exact ⟨hopened, hsum, hsum'⟩
      exact ih _ _ _ (fun r hr => hrows r (List.mem_cons_of_mem row hr)) (hl.after hrow) hopened'
        hle hle'
  have hsum := hwalk (chronological trades) {} {} 0 h.chronological.amount_pos Leg.ok_empty rfl
    le_rfl le_rfl
  rwa [zero_add] at hsum

/-! ## Conservation -/

/-- Each row steps by its profit less its own commission. -/
theorem netPnlForEquityStep_enrich (openMap : Dict ℕ ℚ) (row : TradeRow) :
    netPnlForEquityStep (enrich .exact openMap row) = row.profit.getD 0 - row.quoteCommission := by
  unfold enrich
  split
  next gross hexit hprofit =>
    rw [hprofit]
    show gross - row.quoteCommission - _ + _ = gross - row.quoteCommission
    exact sub_add_cancel _ _
  next =>
    unfold netPnlForEquityStep netRealizedPnl
    cases hprofit : row.profit with
    | none => exact (zero_sub _).symm
    | some profit =>
      show profit - row.quoteCommission - 0 + 0 = profit - row.quoteCommission
      rw [sub_zero, add_zero]

theorem sum_equity (trades : List TradeRow) :
    ((enrichTradesNetPnl .exact trades).map netPnlForEquityStep).sum =
      (trades.map fun row => row.profit.getD 0).sum -
        (trades.map TradeRow.quoteCommission).sum := by
  unfold enrichTradesNetPnl
  generalize allocateOpenCommissionsFifo .exact trades = openMap
  induction trades with
  | nil => exact (sub_zero 0).symm
  | cons row trades ih =>
    simp only [List.map_cons, List.sum_cons]
    rw [ih, netPnlForEquityStep_enrich]
    ring

/-- Exits without a profit that close nothing shift no exit. -/
theorem unshifted_of_closed (hclosed : ∀ before rest key, chronological trades = before ++ rest →
    (Leg.profitable key before).closed = (Leg.matched key before).closed) : Unshifted trades := by
  intro before row rest key hsplit _
  have hopened : (Leg.profitable key before).opened = (Leg.matched key before).opened :=
    (opened_foldl ..).trans (opened_foldl ..).symm
  unfold Leg.next
  rw [hclosed before (row :: rest) key hsplit, hopened]

end

end AlgoTrade.NetPnl
