import AlgoTrade.Fills.RestSync
import AlgoTrade.Lib.Runs
import Mathlib.Algebra.Order.BigOperators.Group.List

/-! # An order that only REST reconciles

The exchange fills the order at any prices; every poll is answered with the state
of the order after some of its fills, possibly an old one, possibly without the
price, or is not answered at all.

* `Right`: what is booked, the baseline it is booked over, and what a final
  snapshot finds booked.
* `right_of_sound`: in every run in which a snapshot is not below the baseline, an
  increment has a price and is above the threshold, and the baseline still knows
  the price it stands for.
* `unpriced_unbooked`, `stale_bookedTwice`: what the other snapshots do. -/

namespace AlgoTrade.RestOnly

open Runs

/-! ## The exchange -/

structure Execution where
  quantity : ℚ
  price : ℚ
  deriving DecidableEq, Repr

def filledOf (fills : List Execution) : ℚ := (fills.map Execution.quantity).sum

def notionalOf (fills : List Execution) : ℚ := (fills.map fun e => e.quantity * e.price).sum

def avgPriceOf (fills : List Execution) : ℚ := notionalOf fills / filledOf fills

/-- An answer: the order as it was after `count` fills, with its price or without. -/
structure Snapshot where
  count : ℕ
  priced : Bool := true
  exchangeStatus : ExchangeStatus := .partialFill
  fees : Fees := []
  feeToQuote : Fees → ℚ → Option ℚ := fun _ _ => none
  executable : ℚ → ℚ := id

def Snapshot.answer (x : Snapshot) (fills : List Execution) : SyncAnswer where
  cumulativeFilled := filledOf (fills.take x.count)
  cumulativeAvg := if x.priced then avgPriceOf (fills.take x.count) else 0
  exchangeStatus := x.exchangeStatus
  fees := x.fees
  feeToQuote := x.feeToQuote
  executable := x.executable

/-! ## The runs -/

def bookedNotional (l : Ledger) : ℚ := (l.trades.map TradeRow.value).sum

/-- The baseline the next poll starts from. -/
def baseline (ctx : OrderContext) (s : OrderState) : ℚ × ℚ :=
  trackedFillBaseline s.pending ctx.exchangeOrderId (max 0 s.pending.filled)
    (max 0 s.pending.avgPrice)

/-- What the ledger held of the order before this leg of it. -/
structure Before where
  trades : ℚ := 0
  position : ℚ := 0
  notional : ℚ := 0

/-- `largest` is the largest quantity a poll has seen, `baselines` every baseline so
far, and `last` the last snapshot. -/
structure World where
  order : OrderState
  before : Before := {}
  fills : List Execution := []
  largest : ℚ := 0
  baselines : List ℚ := []
  last : Option (ℚ × ℚ) := none

namespace World

def trades (w : World) : ℚ := w.order.ledger.bookedTrades - w.before.trades

def position (w : World) : ℚ := w.order.ledger.bookedPosition - w.before.position

def notional (w : World) : ℚ := bookedNotional w.order.ledger - w.before.notional

/-- A poll that comes back with `order`. -/
def polled (ctx : OrderContext) (w : World) (order : OrderState) : World :=
  { w with order, baselines := w.baselines ++ [(baseline ctx order).1] }

end World

inductive Act
  | fill (e : Execution)
  | poll (retryDue : Bool) (answer : Option Snapshot)

def step (ctx : OrderContext) (w : World) : Act → Option World
  | .fill e =>
    if 0 < e.quantity ∧ 0 < e.price then some { w with fills := w.fills ++ [e] } else none
  | .poll retryDue none =>
    some (w.polled ctx (syncOneLiveSentOrder ctx retryDue none w.order))
  | .poll retryDue (some x) =>
    let ans := x.answer w.fills
    let w' := w.polled ctx (syncOneLiveSentOrder ctx retryDue (some ans) w.order)
    if syncReads ctx retryDue (some ans) w.order then
      some { w' with
        largest := max w.largest ans.cumulativeFilled
        last := some (ans.cumulativeFilled, ans.cumulativeAvg) }
    else some w'

/-- A snapshot of everything that is filled may be the final one. -/
structure Right (w : World) : Prop where
  within : w.trades ≤ w.largest ∧ w.position ≤ w.largest
  steady : w.baselines.Pairwise (· ≤ ·)
  final : ∀ Q P, w.last = some (Q, P) → Q = filledOf w.fills → 0 < P →
    w.trades = Q ∧ w.position = Q ∧ w.notional = Q * P

/-- A snapshot shows the baseline's quantity, or a priced increment above the
threshold; and then the baseline knows the price it stands for, unless that is still
the price of the whole. -/
def Increment (w : World) (b : ℚ × ℚ) (ans : SyncAnswer) : Prop :=
  ans.cumulativeFilled = b.1 ∨
    (alpacaFillDeltaEpsilon < ans.cumulativeFilled - b.1 ∧ 0 < ans.cumulativeAvg ∧
      (b.1 = 0 ∨ 0 < b.2 ∨ w.notional = b.1 * ans.cumulativeAvg))

/-- A poll without an answer drops the stored snapshot; the row's own counters are the
baseline then. -/
def Sound (ctx : OrderContext) (w : World) : Act → Prop
  | .fill _ => True
  | .poll retryDue none => claimable ctx retryDue w.order →
      (max 0 w.order.pending.filled, max 0 w.order.pending.avgPrice) = baseline ctx w.order
  | .poll retryDue (some x) => syncReads ctx retryDue (some (x.answer w.fills)) w.order →
      Increment w (baseline ctx w.order) (x.answer w.fills)

instance (w : World) (b : ℚ × ℚ) (ans : SyncAnswer) : Decidable (Increment w b ans) :=
  inferInstanceAs (Decidable (_ ∨ _))

instance (ctx : OrderContext) (w : World) (a : Act) : Decidable (Sound ctx w a) :=
  match a with
  | .fill _ => .isTrue trivial
  | .poll _ none => inferInstanceAs (Decidable (_ → _))
  | .poll _ (some _) => inferInstanceAs (Decidable (_ → _))

/-- The baseline is what was filled after `count` fills, and all of it is booked. -/
structure InvAt (ctx : OrderContext) (w : World) (count : ℕ) : Prop where
  positive : ∀ e ∈ w.fills, 0 < e.quantity ∧ 0 < e.price
  count_le : count ≤ w.fills.length
  quantity : (baseline ctx w.order).1 = filledOf (w.fills.take count)
  price : 0 < (baseline ctx w.order).1 → 0 < (baseline ctx w.order).2 →
    (baseline ctx w.order).2 = avgPriceOf (w.fills.take count)
  trades : w.trades = filledOf (w.fills.take count)
  position : w.position = filledOf (w.fills.take count)
  notional : w.notional = notionalOf (w.fills.take count)
  largest : w.largest = filledOf (w.fills.take count)
  steady : w.baselines.Pairwise (· ≤ ·)
  reached : ∀ b ∈ w.baselines, b ≤ filledOf (w.fills.take count)
  last : ∀ Q P, w.last = some (Q, P) →
    Q = filledOf (w.fills.take count) ∧ (0 < P → P = avgPriceOf (w.fills.take count))

def Inv (ctx : OrderContext) (w : World) : Prop := ∃ count, InvAt ctx w count

/-! ## Prefixes -/

section
variable {fills : List Execution}

theorem sum_take_lt {f : Execution → ℚ} (hf : ∀ e ∈ fills, 0 < f e) {i j : ℕ} (hij : i < j)
    (hj : j ≤ fills.length) : ((fills.take i).map f).sum < ((fills.take j).map f).sum := by
  have hsplit : fills.take j = fills.take i ++ (fills.drop i).take (j - i) := by
    rw [← List.take_add]
    congr 1
    omega
  have hne : (fills.drop i).take (j - i) ≠ [] := by
    rw [← List.length_pos_iff_ne_nil, List.length_take, List.length_drop]
    omega
  rw [hsplit, List.map_append, List.sum_append]
  refine lt_add_of_pos_right _ (List.sum_pos _ (fun x hx => ?_) (by simpa using hne))
  obtain ⟨e, he, rfl⟩ := List.mem_map.mp hx
  exact hf e (List.mem_of_mem_drop (List.mem_of_mem_take he))

theorem sum_take_le {f : Execution → ℚ} (hf : ∀ e ∈ fills, 0 < f e) {i j : ℕ} (hij : i ≤ j)
    (hj : j ≤ fills.length) : ((fills.take i).map f).sum ≤ ((fills.take j).map f).sum := by
  rcases hij.lt_or_eq with hlt | rfl
  · exact (sum_take_lt hf hlt hj).le
  · exact le_refl _

variable (hpos : ∀ e ∈ fills, 0 < e.quantity ∧ 0 < e.price)
include hpos

theorem filledOf_nonneg : 0 ≤ filledOf fills :=
  List.sum_nonneg fun x hx => by
    obtain ⟨e, he, rfl⟩ := List.mem_map.mp hx
    exact (hpos e he).1.le

theorem positive_take (count : ℕ) : ∀ e ∈ fills.take count, 0 < e.quantity ∧ 0 < e.price :=
  fun e he => hpos e (List.mem_of_mem_take he)

/-- More quantity is more fills, so more notional. -/
theorem lt_of_filledOf_lt {i j : ℕ} (hi : i ≤ fills.length)
    (h : filledOf (fills.take i) < filledOf (fills.take j)) : i < j := by
  by_contra hle
  exact absurd h (not_lt.mpr (sum_take_le (fun e he => (hpos e he).1) (not_lt.mp hle) hi))

theorem eq_of_filledOf_eq {i j : ℕ} (hi : i ≤ fills.length) (hj : j ≤ fills.length)
    (h : filledOf (fills.take i) = filledOf (fills.take j)) : i = j := by
  rcases lt_trichotomy i j with hlt | heq | hgt
  · exact absurd h (sum_take_lt (fun e he => (hpos e he).1) hlt hj).ne
  · exact heq
  · exact absurd h (sum_take_lt (fun e he => (hpos e he).1) hgt hi).ne'

omit hpos in
theorem notionalOf_eq (h : filledOf fills ≠ 0) : filledOf fills * avgPriceOf fills = notionalOf fills := by
  rw [avgPriceOf, mul_div_cancel₀ _ h]

end

/-! ## One poll -/

section
variable {ctx : OrderContext} {ans : SyncAnswer} {s : OrderState} {p : PendingOrder} {l : Ledger}

theorem baseline_reconcile : baseline ctx (reconcile ctx ans s) =
    (max 0 ans.cumulativeFilled, max 0 ans.cumulativeAvg) := by
  simp [baseline, reconcile, updateLiveSentOrderSnapshot, trackedFillBaseline]

theorem baseline_unanswered {retryDue : Bool}
    (h : claimable ctx retryDue s →
      (max 0 s.pending.filled, max 0 s.pending.avgPrice) = baseline ctx s) :
    baseline ctx (syncOneLiveSentOrder ctx retryDue none s) = baseline ctx s := by
  unfold syncOneLiveSentOrder
  split
  next hclaim =>
    dsimp only
    split
    · rfl
    · rw [← h hclaim]
      simp [baseline, updateLiveSentOrderSnapshot, trackedFillBaseline]
  next => rfl

theorem baseline_unread {retryDue : Bool} (h : syncReads ctx retryDue (some ans) s = false) :
    baseline ctx (syncOneLiveSentOrder ctx retryDue (some ans) s) = baseline ctx s := by
  unfold syncOneLiveSentOrder
  split
  next hclaim =>
    dsimp only
    split
    · rfl
    next hctx =>
      obtain ⟨hsid, hsym⟩ := not_or.mp hctx
      simp [syncReads, hclaim, not_le.mp hsid, hsym] at h
  next => rfl

theorem ledger_poll (answer : Option SyncAnswer) {retryDue : Bool}
    (h : syncReads ctx retryDue answer s = false) :
    (syncOneLiveSentOrder ctx retryDue answer s).ledger = s.ledger :=
  (syncOneLiveSentOrder_idle h).2

theorem bookedNotional_backfill (fees : Fees) (quote : Option ℚ) (l : Ledger) :
    bookedNotional { l with trades := backfillZeroCommissionTrades fees quote l.trades } =
      bookedNotional l := by
  unfold bookedNotional
  rw [map_backfill _ fun _ _ _ _ => rfl]

theorem bookedNotional_unbooked (h : ¬ (alpacaFillDeltaEpsilon < syncDelta ctx ans.cumulativeFilled p ∧
    0 < max 0 ans.cumulativeAvg)) : bookedNotional (syncLedger ctx ans p l) = bookedNotional l := by
  simp only [syncLedger, h, if_false]
  split
  · exact bookedNotional_backfill _ _ _
  · rfl

theorem bookedNotional_booked (hd : alpacaFillDeltaEpsilon < syncDelta ctx ans.cumulativeFilled p)
    (hp : 0 < ans.cumulativeAvg) : bookedNotional (syncLedger ctx ans p l) = bookedNotional l +
      syncDelta ctx ans.cumulativeFilled p * (syncFill ctx ans p).avgPrice := by
  have hbook : bookedNotional (persistStrategyFill (syncFill ctx ans p) l) = bookedNotional l +
      syncDelta ctx ans.cumulativeFilled p * (syncFill ctx ans p).avgPrice := by
    obtain ⟨profitOut, heq⟩ := persistStrategyFill_eq (f := syncFill ctx ans p) (l := l)
      (fillEpsilon_lt_alpaca.trans hd) (by simp [hasTradeOf, syncFill])
    rw [heq]
    simp [bookedNotional, tradeOf, syncFill]
  simp only [syncLedger, hd, lt_max_of_lt_right hp, and_self, if_true]
  split
  · rw [bookedNotional_backfill]
    exact hbook
  · exact hbook

/-- **The price of an increment** makes up the notional of the whole. -/
theorem mul_deltaAvg {q q' a a' n : ℚ} (hq : 0 ≤ q) (hlt : q < q')
    (hn : 0 < q → 0 < a → q * a = n) (hzero : q = 0 → n = 0) (hmore : n < q' * a')
    (hknown : q = 0 ∨ 0 < a ∨ n = q * a') :
    (q' - q) * deltaAvg q' a' q a (q' - q) = q' * a' - n := by
  have hne : q' - q ≠ 0 := (sub_pos.mpr hlt).ne'
  unfold deltaAvg
  dsimp only
  split
  next h =>
    rw [mul_div_cancel₀ _ hne, hn h.1.1 h.1.2]
  next h =>
    rcases hknown with hq0 | hapos | hsame
    · rw [hzero hq0, hq0]
      ring
    · rcases hq.eq_or_lt with hq0 | hqpos
      · rw [hzero hq0.symm, ← hq0]
        ring
      · exact absurd ⟨⟨hqpos, hapos⟩, by rw [hn hqpos hapos]; linarith⟩ h
    · rw [hsame]
      ring

end

/-! ## Runs -/

section
variable {ctx : OrderContext} {w w' : World} {count : ℕ}

theorem InvAt.right (h : InvAt ctx w count) : Right w := by
  refine ⟨⟨?_, ?_⟩, h.steady, fun Q P hlast hQ hP => ?_⟩
  · rw [h.trades, h.largest]
  · rw [h.position, h.largest]
  · obtain ⟨hquantity, hprice⟩ := h.last Q P hlast
    refine ⟨h.trades.trans hquantity.symm, h.position.trans hquantity.symm, ?_⟩
    have hne : filledOf (w.fills.take count) ≠ 0 := by
      intro hzero
      rw [hprice hP, avgPriceOf, hzero, div_zero] at hP
      exact lt_irrefl _ hP
    rw [h.notional, hquantity, hprice hP, notionalOf_eq hne]

/-- A fill leaves the fills before it as they were. -/
theorem InvAt.fill (h : InvAt ctx w count) {e : Execution} (he : 0 < e.quantity ∧ 0 < e.price) :
    InvAt ctx { w with fills := w.fills ++ [e] } count := by
  have htake : (w.fills ++ [e]).take count = w.fills.take count :=
    List.take_append_of_le_length h.count_le
  refine ⟨fun e' he' => ?_, ?_, ?_, ?_, ?_, ?_, ?_, ?_, h.steady, ?_, ?_⟩
  · rcases List.mem_append.mp he' with he' | he'
    · exact h.positive e' he'
    · exact List.mem_singleton.mp he' ▸ he
  · show count ≤ (w.fills ++ [e]).length
    rw [List.length_append]
    exact h.count_le.trans (Nat.le_add_right ..)
  all_goals dsimp only; rw [htake]
  · exact h.quantity
  · exact h.price
  · exact h.trades
  · exact h.position
  · exact h.notional
  · exact h.largest
  · exact h.reached
  · exact h.last

/-- A poll that books nothing and leaves the baseline. -/
theorem InvAt.polled (h : InvAt ctx w count) {order : OrderState}
    (hledger : order.ledger = w.order.ledger) (hbase : baseline ctx order = baseline ctx w.order) :
    InvAt ctx (w.polled ctx order) count where
  positive := h.positive
  count_le := h.count_le
  quantity := hbase.symm ▸ h.quantity
  price := hbase.symm ▸ h.price
  trades := (congrArg (Ledger.bookedTrades · - w.before.trades) hledger).trans h.trades
  position := (congrArg (Ledger.bookedPosition · - w.before.position) hledger).trans h.position
  notional := (congrArg (bookedNotional · - w.before.notional) hledger).trans h.notional
  largest := h.largest
  steady := by
    refine List.pairwise_append.mpr ⟨h.steady, List.pairwise_singleton .., fun b hb b' hb' => ?_⟩
    rw [List.mem_singleton.mp hb', hbase, h.quantity]
    exact h.reached b hb
  reached b hb := by
    rcases List.mem_append.mp hb with hb | hb
    · exact h.reached b hb
    · rw [List.mem_singleton.mp hb, hbase, h.quantity]
      exact le_refl _
  last := h.last

/-- A poll that leaves everything up to `count'` booked. -/
theorem InvAt.seen (h : InvAt ctx w count) {ans : SyncAnswer} {order : OrderState} {count' : ℕ}
    (hle : count' ≤ w.fills.length) (hcount : count ≤ count')
    (hquantity : ans.cumulativeFilled = filledOf (w.fills.take count'))
    (hprice : ans.cumulativeAvg = avgPriceOf (w.fills.take count') ∨ ans.cumulativeAvg = 0)
    (hbase : baseline ctx order = (max 0 ans.cumulativeFilled, max 0 ans.cumulativeAvg))
    (htrades : order.ledger.bookedTrades - w.before.trades = filledOf (w.fills.take count'))
    (hposition : order.ledger.bookedPosition - w.before.position = filledOf (w.fills.take count'))
    (hnotional : bookedNotional order.ledger - w.before.notional =
      notionalOf (w.fills.take count')) :
    InvAt ctx { w.polled ctx order with
      largest := max w.largest ans.cumulativeFilled
      last := some (ans.cumulativeFilled, ans.cumulativeAvg) } count' := by
  have hmono : filledOf (w.fills.take count) ≤ filledOf (w.fills.take count') :=
    sum_take_le (fun e he => (h.positive e he).1) hcount hle
  have hfst : (baseline ctx order).1 = filledOf (w.fills.take count') := by
    rw [hbase, hquantity]
    exact max_eq_right (filledOf_nonneg (positive_take h.positive count'))
  have hpriced : 0 < ans.cumulativeAvg →
      ans.cumulativeAvg = avgPriceOf (w.fills.take count') := fun hpos =>
    hprice.resolve_right hpos.ne'
  refine ⟨h.positive, hle, hfst, fun _ hpos => ?_, htrades, hposition, hnotional, ?_, ?_, ?_, ?_⟩
  · have hsnd : (baseline ctx order).2 = max 0 ans.cumulativeAvg := by rw [hbase]
    change 0 < (baseline ctx order).2 at hpos
    show (baseline ctx order).2 = _
    rw [hsnd] at hpos ⊢
    have havg := (lt_max_iff.mp hpos).resolve_left (lt_irrefl _)
    rw [max_eq_right havg.le]
    exact hpriced havg
  · show max w.largest ans.cumulativeFilled = filledOf (w.fills.take count')
    rw [h.largest, hquantity, max_eq_right hmono]
  · refine List.pairwise_append.mpr ⟨h.steady, List.pairwise_singleton .., fun b hb b' hb' => ?_⟩
    rw [List.mem_singleton.mp hb', hfst]
    exact (h.reached b hb).trans hmono
  · intro b hb
    rcases List.mem_append.mp hb with hb | hb
    · exact (h.reached b hb).trans hmono
    · rw [List.mem_singleton.mp hb, hfst]
      exact le_refl _
  · rintro Q P hlast
    obtain ⟨rfl, rfl⟩ := Prod.mk.inj (Option.some.inj hlast)
    exact ⟨hquantity, hpriced⟩

/-- **A snapshot is read.** -/
theorem InvAt.read (h : InvAt ctx w count) {x : Snapshot}
    (hinc : Increment w (baseline ctx w.order) (x.answer w.fills)) :
    Inv ctx { w.polled ctx (reconcile ctx (x.answer w.fills) (claimLiveSentOrder w.order)) with
      largest := max w.largest (x.answer w.fills).cumulativeFilled
      last := some ((x.answer w.fills).cumulativeFilled, (x.answer w.fills).cumulativeAvg) } := by
  obtain ⟨count', hle, htake⟩ : ∃ count' ≤ w.fills.length,
      w.fills.take x.count = w.fills.take count' :=
    ⟨min x.count w.fills.length, Nat.min_le_right .., List.take_eq_take_iff.mpr (by simp)⟩
  have hquantity : (x.answer w.fills).cumulativeFilled = filledOf (w.fills.take count') := by
    rw [← htake]
    rfl
  have hprice : (x.answer w.fills).cumulativeAvg = avgPriceOf (w.fills.take count') ∨
      (x.answer w.fills).cumulativeAvg = 0 := by
    rw [← htake]
    unfold Snapshot.answer
    split
    · exact .inl rfl
    · exact .inr rfl
  have hnonneg := filledOf_nonneg (positive_take h.positive count')
  have hnonneg' := filledOf_nonneg (positive_take h.positive count)
  have hdelta : syncDelta ctx (x.answer w.fills).cumulativeFilled
      (claimLiveSentOrder w.order).pending =
        filledOf (w.fills.take count') - filledOf (w.fills.take count) := by
    rw [syncDelta_claim, syncDelta, hquantity, max_eq_right hnonneg]
    exact congrArg _ h.quantity
  rcases hinc with hsame | ⟨hmore, havg, hknown⟩
  · -- the baseline's quantity again
    obtain rfl : count = count' := eq_of_filledOf_eq h.positive h.count_le hle
      (by rw [← h.quantity, ← hsame, hquantity])
    have hnot : ¬ (alpacaFillDeltaEpsilon < syncDelta ctx (x.answer w.fills).cumulativeFilled
        (claimLiveSentOrder w.order).pending ∧ 0 < max 0 (x.answer w.fills).cumulativeAvg) := by
      rw [hdelta, sub_self]
      exact fun hlt => absurd hlt.1 (not_lt.mpr alpacaFillDeltaEpsilon_pos.le)
    obtain ⟨hposition, htrades⟩ := syncLedger_unbooked ctx _ _ w.order.ledger hnot
    refine ⟨count, h.seen hle (le_refl _) hquantity hprice baseline_reconcile ?_ ?_ ?_⟩
    · rw [ledger_reconcile]
      exact (congrArg (· - _) htrades).trans h.trades
    · rw [ledger_reconcile]
      exact (congrArg (· - _) hposition).trans h.position
    · rw [ledger_reconcile]
      exact (congrArg (· - _) (bookedNotional_unbooked hnot)).trans h.notional
  · rw [h.quantity, hquantity] at hmore
    have hlt : filledOf (w.fills.take count) < filledOf (w.fills.take count') :=
      sub_pos.mp (alpacaFillDeltaEpsilon_pos.trans hmore)
    have hcount := lt_of_filledOf_lt h.positive h.count_le hlt
    obtain ⟨hposition, htrades⟩ := booked_syncLedger (l := w.order.ledger)
      (hdelta.symm ▸ hmore) havg
    have hnotional := bookedNotional_booked (l := w.order.ledger) (hdelta.symm ▸ hmore) havg
    rw [hdelta] at htrades hposition hnotional
    refine ⟨count', h.seen hle hcount.le hquantity hprice baseline_reconcile ?_ ?_ ?_⟩
    · have := h.trades
      unfold World.trades at this
      rw [ledger_reconcile]
      change (syncLedger ctx _ _ w.order.ledger).bookedTrades - _ = _
      rw [htrades]
      linarith
    · have := h.position
      unfold World.position at this
      rw [ledger_reconcile]
      change (syncLedger ctx _ _ w.order.ledger).bookedPosition - _ = _
      rw [hposition]
      linarith
    · have havg' : (x.answer w.fills).cumulativeAvg = avgPriceOf (w.fills.take count') :=
        hprice.resolve_right havg.ne'
      have hfill : (syncFill ctx (x.answer w.fills) (claimLiveSentOrder w.order).pending).avgPrice =
          deltaAvg (filledOf (w.fills.take count')) (x.answer w.fills).cumulativeAvg
            (filledOf (w.fills.take count)) (baseline ctx w.order).2
            (filledOf (w.fills.take count') - filledOf (w.fills.take count)) := by
        change deltaAvg (max 0 (x.answer w.fills).cumulativeFilled) (max 0 _)
          (baseline ctx w.order).1 (baseline ctx w.order).2 (syncDelta ctx _ _) = _
        rw [hdelta, hquantity, max_eq_right hnonneg, max_eq_right havg.le, h.quantity]
      have hwhole : filledOf (w.fills.take count') * (x.answer w.fills).cumulativeAvg =
          notionalOf (w.fills.take count') := by
        rw [havg', notionalOf_eq (hnonneg'.trans_lt hlt).ne']
      have hmul := mul_deltaAvg (n := notionalOf (w.fills.take count)) hnonneg' hlt
        (fun hq ha => by
          rw [h.price (h.quantity ▸ hq) ha, notionalOf_eq hq.ne'])
        (fun hzero => by
          rw [eq_of_filledOf_eq h.positive h.count_le (Nat.zero_le _) (j := 0) hzero]
          rfl)
        (by
          rw [hwhole]
          exact sum_take_lt (fun e he => mul_pos (h.positive e he).1 (h.positive e he).2) hcount hle)
        (by rw [← h.quantity, ← h.notional]; exact hknown)
      have := h.notional
      unfold World.notional at this
      rw [ledger_reconcile]
      change bookedNotional (syncLedger ctx _ _ w.order.ledger) - _ = _
      rw [hnotional, hfill, hmul, hwhole]
      linarith

/-- **A step.** -/
theorem InvAt.step {a : Act} (h : InvAt ctx w count) (hsound : Sound ctx w a)
    (hs : step ctx w a = some w') : Inv ctx w' := by
  cases a with
  | fill e =>
    obtain ⟨he, hw'⟩ := Option.ite_none_right_eq_some.mp hs
    obtain rfl := Option.some.inj hw'
    exact ⟨count, h.fill he⟩
  | poll retryDue answer =>
    cases answer with
    | none =>
      obtain rfl := Option.some.inj hs
      exact ⟨count, h.polled (ledger_poll none (by simp [syncReads])) (baseline_unanswered hsound)⟩
    | some x =>
      dsimp only [RestOnly.step] at hs
      split at hs
      next hread =>
        obtain rfl := Option.some.inj hs
        rw [syncOneLiveSentOrder_reads hread]
        exact h.read (hsound hread)
      next hread =>
        obtain rfl := Option.some.inj hs
        have hread := (Bool.not_eq_true _).mp hread
        exact ⟨count, h.polled (ledger_poll _ hread) (baseline_unread hread)⟩

/-- Right after submission: the baseline is what was filled then, and the executor has
booked it. -/
structure Submitted (ctx : OrderContext) (w : World) (count : ℕ) : Prop where
  positive : ∀ e ∈ w.fills, 0 < e.quantity ∧ 0 < e.price
  count_le : count ≤ w.fills.length
  baseline : baseline ctx w.order = (filledOf (w.fills.take count), avgPriceOf (w.fills.take count))
  trades : w.trades = filledOf (w.fills.take count)
  position : w.position = filledOf (w.fills.take count)
  notional : w.notional = notionalOf (w.fills.take count)
  largest : w.largest = filledOf (w.fills.take count)
  baselines : w.baselines = [filledOf (w.fills.take count)]
  last : w.last = none

theorem Submitted.inv (h : Submitted ctx w count) : Inv ctx w := by
  refine ⟨count, h.positive, h.count_le, by rw [h.baseline], fun _ _ => by rw [h.baseline],
    h.trades, h.position, h.notional, h.largest, ?_, fun b hb => ?_, fun Q P hlast => ?_⟩
  · rw [h.baselines]
    exact List.pairwise_singleton ..
  · rw [h.baselines] at hb
    exact (List.mem_singleton.mp hb).le
  · rw [h.last] at hlast
    cases hlast

/-- **What REST books is right** in every state of a run whose snapshots are not below
the baseline and whose increments are priced. -/
theorem right_of_sound {acts : List Act} (hstart : Submitted ctx w count)
    (hrun : Runs.run (RestOnly.step ctx) w acts = some w')
    (hsound : AllSteps (RestOnly.step ctx) (Sound ctx) w acts) : Right w' := by
  obtain ⟨_, h⟩ : Inv ctx w' := run_invariant_of_allSteps
    (fun _ _ _ h hok hs => h.elim fun _ h => h.step hok hs) hstart.inv hsound hrun
  exact h.right

end

/-! ## Old and unpriced snapshots -/

def buyThree : OrderContext where
  orderId := 1
  strategyId := 1
  symbol := "BTC/USDT"
  baseCurrency := "BTC"
  signal := .openLong
  market := .swap
  exchangeId := "binance"
  exchangeOrderId := "77"
  amount := 3

def sent : World where
  order :=
    { pending := { filled := 0, avgPrice := 0, status := .sent }
      ledger := { position := { row := none, applied := 0 }, trades := [] } }
  baselines := [0]

theorem sent_submitted : Submitted buyThree sent 0 where
  positive _ h := nomatch h
  count_le := Nat.zero_le _
  baseline := by decide +kernel
  trades := by decide +kernel
  position := by decide +kernel
  notional := by decide +kernel
  largest := by decide +kernel
  baselines := by decide +kernel
  last := rfl

def twoFills : List Act :=
  [.fill ⟨1, 100⟩, .poll true (some { count := 1 }), .poll true none, .fill ⟨2, 130⟩,
    .poll true (some { count := 1 }), .poll true (some { count := 2, exchangeStatus := .filled })]

theorem right_of_sound_twoFills :
    ∃ w, Runs.run (RestOnly.step buyThree) sent twoFills = some w ∧
      (w.trades = 3 ∧ w.notional = 360) ∧ Right w := by
  obtain ⟨w, hrun, hbooked⟩ := exists_of_any (show (Runs.run (RestOnly.step buyThree) sent
    twoFills).any (fun w => w.trades = 3 ∧ w.notional = 360) = true by decide +kernel)
  exact ⟨w, hrun, hbooked, right_of_sound sent_submitted hrun (by decide +kernel)⟩

/-- Two fills of one are seen, then the first alone, then both. -/
def staleSnapshot : List Act :=
  [.fill ⟨1, 100⟩, .fill ⟨1, 100⟩, .poll true (some { count := 2 }),
    .poll true (some { count := 1 }), .poll true (some { count := 2 })]

/-- The second fill is booked twice. -/
theorem stale_bookedTwice :
    ∃ w, Runs.run (RestOnly.step buyThree) sent staleSnapshot = some w ∧
      w.trades = 3 ∧ w.largest = 2 ∧ ¬ Right w := by
  obtain ⟨w, hrun, htrades, hlargest⟩ := exists_of_any (show (Runs.run (RestOnly.step buyThree)
    sent staleSnapshot).any (fun w => w.trades = 3 ∧ w.largest = 2) = true by decide +kernel)
  refine ⟨w, hrun, htrades, hlargest, fun h => ?_⟩
  have := h.within.1
  rw [htrades, hlargest] at this
  exact absurd this (by norm_num)

/-- The fill is seen without its price first. -/
def unpricedSnapshot : List Act :=
  [.fill ⟨1, 100⟩, .poll true (some { count := 1, priced := false }),
    .poll true (some { count := 1 })]

/-- The fill is never booked. -/
theorem unpriced_unbooked :
    ∃ w, Runs.run (RestOnly.step buyThree) sent unpricedSnapshot = some w ∧
      (w.trades = 0 ∧ w.last = some (1, 100) ∧ filledOf w.fills = 1) ∧ ¬ Right w := by
  obtain ⟨w, hrun, htrades, hlast, hfilled⟩ := exists_of_any (show (Runs.run
    (RestOnly.step buyThree) sent unpricedSnapshot).any (fun w => w.trades = 0 ∧
      w.last = some (1, 100) ∧ filledOf w.fills = 1) = true by decide +kernel)
  refine ⟨w, hrun, ⟨htrades, hlast, hfilled⟩, fun h => ?_⟩
  have := (h.final 1 100 hlast hfilled.symm (by norm_num)).1
  rw [htrades] at this
  exact absurd this (by norm_num)

end AlgoTrade.RestOnly
