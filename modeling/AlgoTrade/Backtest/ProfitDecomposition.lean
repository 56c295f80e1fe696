import AlgoTrade.Backtest.LedgerConservation
import Mathlib.Tactic.FieldSimp

/-! # Where the profit of a backtest comes from

Open entries against positions, and the final equity against closed trades, open
positions and the liquidation adjustment, for executions that buy or sell more
than the tolerance at a positive price and leave a position flat only at zero.

* `Settled`: what recording a fill does to an entry and to the profits.
* `recordClosedTrade_settled`: a scale-in, a partial close, a close or a reversal.
* `move_decomposed`: what a move keeps.
* `profit_decomposed`: the decomposition at the end of every run. -/

namespace AlgoTrade.Backtest

def Side.ofAmount (amount : ℚ) : Side := if 0 < amount then .long else .short

/-- The entry of a position. -/
structure Entry.Matches (entry : Entry) (pos : Position) : Prop where
  quantity : entry.quantity = |pos.amount|
  side : entry.side = .ofAmount pos.amount
  price : entry.price = pos.avgCost
  commission : 0 ≤ entry.commission

namespace Book

def realizedProfit (b : Book) : ℚ := (b.closedTrades.map ClosedTrade.profit).sum

/-- The commission still attributed to the open entry. -/
def entryCommission (b : Book) (key : PositionKey) : ℚ :=
  ((b.entries.get? key).map Entry.commission).getD 0

/-- What a position has cost, with the commission of its entry. -/
def openCost (b : Book) (key : PositionKey) (pos : Position) : ℚ :=
  pos.amount * pos.avgCost + b.entryCommission key

theorem entryCommission_of_some {b : Book} {key : PositionKey} {entry : Entry}
    (h : b.entries.get? key = some entry) : b.entryCommission key = entry.commission := by
  rw [entryCommission, h]
  rfl

theorem entryCommission_of_none {b : Book} {key : PositionKey} (h : b.entries.get? key = none) :
    b.entryCommission key = 0 := by
  rw [entryCommission, h]
  rfl

end Book

/-! ## Recording a fill -/

/-- The entry follows the position, and the profits what it cost. -/
structure Settled (b b' : Book) (key : PositionKey) (pos : Position) (e : Execution) : Prop where
  frame : ∀ key', key' ≠ key → b'.entries.get? key' = b.entries.get? key'
  closed : pos.amount + e.signedQuantity = 0 → b'.entries.get? key = none
  matched : pos.amount + e.signedQuantity ≠ 0 → ∃ entry, b'.entries.get? key = some entry ∧
    entry.Matches (pos.filled e.signedQuantity e.price)
  profit : b'.realizedProfit - b'.openCost key (pos.filled e.signedQuantity e.price) =
    b.realizedProfit - b.openCost key pos - e.signedQuantity * e.price - e.commission

theorem Settled.of_eq {b b₁ b₂ : Book} {key : PositionKey} {pos : Position} {e : Execution}
    (h : Settled b b₁ key pos e) (hentries : b₂.entries = b₁.entries)
    (hclosed : b₂.closedTrades = b₁.closedTrades) : Settled b b₂ key pos e := by
  refine ⟨?_, ?_, ?_, ?_⟩
  · rw [hentries]
    exact h.frame
  · rw [hentries]
    exact h.closed
  · rw [hentries]
    exact h.matched
  · rw [Book.realizedProfit, Book.openCost, Book.entryCommission, hentries, hclosed]
    exact h.profit

/-- A position and its entry, or neither. -/
def Tracked (b : Book) (key : PositionKey) (pos : Position) : Prop :=
  pos.amount = 0 ∧ b.entries.get? key = none ∨
    amountEpsilon < |pos.amount| ∧ 0 < pos.avgCost ∧
      ∃ entry, b.entries.get? key = some entry ∧ entry.Matches pos

section
variable {b : Book} {pos : Position} {e : Execution}

theorem Position.filled_amount (pos : Position) (delta price : ℚ) :
    (pos.filled delta price).amount = pos.amount + delta := rfl

theorem Position.filled_avgCost (pos : Position) (delta price : ℚ) :
    (pos.filled delta price).avgCost = nextAverageCost pos.amount pos.avgCost delta price := rfl

theorem amountEpsilon_pos : 0 < amountEpsilon := by
  unfold amountEpsilon
  norm_num

/-! ## The parts of a fill -/

theorem recordClosedTrade_of_open {oldAmount oldCost targetAmount : ℚ}
    (hq : amountEpsilon < |e.signedQuantity|) (hsame : 0 ≤ oldAmount * e.signedQuantity) :
    b.recordClosedTrade e oldAmount oldCost targetAmount =
      b.openEntry e targetAmount |e.signedQuantity| e.commission := by
  obtain ⟨closing, closeFee, opening, openFee, hclosing, hopening, hcloseFee, hopenFee, heq⟩ :=
    Book.recordClosedTrade_eq e oldAmount oldCost targetAmount
  obtain ⟨b', hb', heq⟩ := heq b
  have hzero : closing = 0 := by rw [hclosing, if_neg (not_lt.mpr hsame)]
  have hopen : opening = |e.signedQuantity| := by
    rw [hopening, hzero, sub_zero, max_eq_right (abs_nonneg _)]
  have hfee : openFee = e.commission := by
    rw [hopenFee, hcloseFee, hzero, mul_zero, zero_div, sub_zero]
  rw [if_neg (by rw [hzero]; exact not_lt.mpr amountEpsilon_pos.le)] at hb'
  rw [heq, hopen, if_pos hq, hfee, hb']

theorem recordClosedTrade_of_close {oldAmount oldCost targetAmount : ℚ}
    (hq : amountEpsilon < |e.signedQuantity|) (hagainst : oldAmount * e.signedQuantity < 0)
    (hle : |e.signedQuantity| ≤ |oldAmount|) :
    b.recordClosedTrade e oldAmount oldCost targetAmount =
      b.closeEntry e oldAmount oldCost targetAmount |e.signedQuantity| e.commission := by
  obtain ⟨closing, closeFee, opening, openFee, hclosing, hopening, hcloseFee, hopenFee, heq⟩ :=
    Book.recordClosedTrade_eq e oldAmount oldCost targetAmount
  obtain ⟨b', hb', heq⟩ := heq b
  have hall : closing = |e.signedQuantity| := by
    rw [hclosing, if_pos hagainst, min_eq_right hle]
  have hopen : opening = 0 := by rw [hopening, hall, sub_self, max_self]
  have hfee : closeFee = e.commission := by
    have hpos : |e.signedQuantity| ≠ 0 := (amountEpsilon_pos.trans hq).ne'
    rw [hcloseFee, hall, max_eq_left hq.le, mul_div_assoc, div_self hpos, mul_one]
  rw [hall, if_pos hq, hfee] at hb'
  rw [heq, hopen, if_neg (not_lt.mpr amountEpsilon_pos.le), hb']

theorem recordClosedTrade_of_reverse {oldAmount oldCost targetAmount : ℚ}
    (hold : amountEpsilon < |oldAmount|) (hagainst : oldAmount * e.signedQuantity < 0)
    (hrest : amountEpsilon < |e.signedQuantity| - |oldAmount|) :
    b.recordClosedTrade e oldAmount oldCost targetAmount =
      (b.closeEntry e oldAmount oldCost targetAmount |oldAmount|
          (e.commission * |oldAmount| / |e.signedQuantity|)).openEntry e targetAmount
        (|e.signedQuantity| - |oldAmount|)
        (e.commission - e.commission * |oldAmount| / |e.signedQuantity|) := by
  obtain ⟨closing, closeFee, opening, openFee, hclosing, hopening, hcloseFee, hopenFee, heq⟩ :=
    Book.recordClosedTrade_eq e oldAmount oldCost targetAmount
  obtain ⟨b', hb', heq⟩ := heq b
  have hε := amountEpsilon_pos
  have hall : closing = |oldAmount| := by
    rw [hclosing, if_pos hagainst, min_eq_left (by linarith)]
  have hopen : opening = |e.signedQuantity| - |oldAmount| := by
    rw [hopening, hall, max_eq_right (by linarith)]
  have hfee : closeFee = e.commission * |oldAmount| / |e.signedQuantity| := by
    rw [hcloseFee, hall, max_eq_left (by linarith [abs_nonneg oldAmount])]
  rw [hall, if_pos hold, hfee] at hb'
  rw [heq, hopen, if_pos hrest, hopenFee, hfee, hb']

/-- Closing part of a matched entry. -/
theorem closeEntry_of_matches {entry : Entry} (targetAmount : ℚ) {closing : ℚ} (closeFee : ℚ)
    (hentry : b.entries.get? e.positionKey = some entry) (hmatch : entry.Matches pos)
    (hle : closing ≤ |pos.amount|) :
    (b.closeEntry e pos.amount pos.avgCost targetAmount closing closeFee).realizedProfit =
        b.realizedProfit + ((e.price - pos.avgCost) * closing * (if 0 < pos.amount then 1 else -1) -
          entry.commission * closing / |pos.amount| - closeFee) ∧
      (b.closeEntry e pos.amount pos.avgCost targetAmount closing closeFee).entries =
        if amountEpsilon < |pos.amount| - closing ∧ 0 ≤ pos.amount * targetAmount then
          b.entries.set e.positionKey
            { entry with quantity := |pos.amount| - closing
                         commission := max 0
                          (entry.commission - entry.commission * closing / |pos.amount|) }
        else b.entries.pop e.positionKey := by
  have hprice : (if entry.price = 0 then pos.avgCost else entry.price) = pos.avgCost := by
    rw [hmatch.price, ite_self]
  have hquantity : max entry.quantity closing = |pos.amount| := by
    rw [hmatch.quantity, max_eq_left hle]
  have hremaining : max 0 (|pos.amount| - closing) = |pos.amount| - closing :=
    max_eq_right (sub_nonneg.mpr hle)
  constructor
  · unfold Book.realizedProfit Book.closeEntry
    dsimp only
    rw [List.map_append, List.sum_append, List.map_singleton, List.sum_singleton, hentry,
      Option.getD_some, hprice, hquantity]
  · unfold Book.closeEntry
    dsimp only
    rw [hentry, Option.getD_some, hquantity, hremaining]

/-- A new entry where there is none. -/
theorem openEntry_of_none {targetAmount opening openFee : ℚ}
    (hentry : b.entries.get? e.positionKey = none) :
    (b.openEntry e targetAmount opening openFee).entries =
      b.entries.set e.positionKey
        { time := e.time, price := e.price, quantity := opening, commission := openFee,
          side := .ofAmount targetAmount } := by
  unfold Book.openEntry
  dsimp only
  rw [hentry]
  rfl

/-- More of the same side. -/
theorem openEntry_of_side {entry : Entry} {targetAmount opening openFee : ℚ}
    (hentry : b.entries.get? e.positionKey = some entry)
    (hside : entry.side = .ofAmount targetAmount) (hprice : entry.price ≠ 0) :
    (b.openEntry e targetAmount opening openFee).entries =
      b.entries.set e.positionKey
        { entry with
          price := (entry.price * entry.quantity + e.price * opening) / (entry.quantity + opening)
          quantity := entry.quantity + opening
          commission := entry.commission + openFee } := by
  unfold Book.openEntry
  dsimp only
  rw [hentry]
  dsimp only
  rw [if_pos (show entry.side = if 0 < targetAmount then Side.long else Side.short from hside),
    if_neg hprice]

/-! ## A fill of a tracked position -/

theorem nextAverageCost_flat (oldAmount oldCost delta price : ℚ) (h : oldAmount + delta = 0) :
    nextAverageCost oldAmount oldCost delta price = 0 := by
  unfold nextAverageCost
  dsimp only
  rw [h, abs_zero, if_pos amountEpsilon_pos.le]

theorem nextAverageCost_grown {oldAmount oldCost delta price : ℚ}
    (hnew : amountEpsilon < |oldAmount + delta|) (h : oldAmount = 0 ∨ 0 < oldAmount * delta) :
    nextAverageCost oldAmount oldCost delta price =
      (oldAmount * oldCost + delta * price) / (oldAmount + delta) := by
  unfold nextAverageCost
  rw [if_neg (not_le.mpr hnew), if_pos h]

theorem nextAverageCost_reduced {oldAmount oldCost delta price : ℚ}
    (hnew : amountEpsilon < |oldAmount + delta|) (h : oldAmount * delta < 0)
    (hsign : 0 ≤ oldAmount * (oldAmount + delta)) :
    nextAverageCost oldAmount oldCost delta price = oldCost := by
  have hne : oldAmount ≠ 0 := left_ne_zero_of_mul h.ne
  unfold nextAverageCost
  rw [if_neg (not_le.mpr hnew), if_neg (by simp [hne, h.le]), if_neg (not_lt.mpr hsign)]

theorem nextAverageCost_reversed {oldAmount oldCost delta price : ℚ}
    (hnew : amountEpsilon < |oldAmount + delta|) (h : oldAmount * delta < 0)
    (hsign : oldAmount * (oldAmount + delta) < 0) :
    nextAverageCost oldAmount oldCost delta price = price := by
  have hne : oldAmount ≠ 0 := left_ne_zero_of_mul h.ne
  unfold nextAverageCost
  rw [if_neg (not_le.mpr hnew), if_neg (by simp [hne, h.le]), if_pos hsign]

/-- A position is opened. -/
theorem settled_of_opened (hq : amountEpsilon < |e.signedQuantity|) (hfee : 0 ≤ e.commission)
    (hzero : pos.amount = 0) (hentry : b.entries.get? e.positionKey = none) :
    Settled b (b.recordClosedTrade e pos.amount pos.avgCost (pos.amount + e.signedQuantity))
      e.positionKey pos e := by
  have hne : e.signedQuantity ≠ 0 := fun h => by
    rw [h, abs_zero] at hq
    exact absurd hq (not_lt.mpr amountEpsilon_pos.le)
  have havg : nextAverageCost 0 pos.avgCost e.signedQuantity e.price = e.price := by
    rw [nextAverageCost_grown (by rwa [zero_add]) (.inl rfl), zero_mul, zero_add, zero_add,
      mul_div_cancel_left₀ _ hne]
  rw [recordClosedTrade_of_open hq (by rw [hzero, zero_mul])]
  have hentries : (b.openEntry e (pos.amount + e.signedQuantity) |e.signedQuantity|
      e.commission).entries = _ := openEntry_of_none hentry
  generalize hb' : b.openEntry e (pos.amount + e.signedQuantity) |e.signedQuantity| e.commission =
    b' at hentries ⊢
  have hnew : b'.entries.get? e.positionKey = some ⟨e.time, e.price, |e.signedQuantity|,
      e.commission, .ofAmount (pos.amount + e.signedQuantity)⟩ := by
    rw [hentries, Dict.get?_set_self]
  constructor
  · intro key hkey
    rw [hentries, Dict.get?_set, if_neg (Ne.symm hkey)]
  · exact fun h => absurd (by rwa [hzero, zero_add] at h) hne
  · refine fun _ => ⟨_, hnew, ?_, rfl, ?_, hfee⟩
    · rw [Position.filled_amount, hzero, zero_add]
    · rw [Position.filled_avgCost, hzero, havg]
  · have hprofit : b'.realizedProfit = b.realizedProfit := by
      rw [← hb']
      rfl
    rw [hprofit, Book.openCost, Book.openCost, Book.entryCommission_of_some hnew,
      Book.entryCommission_of_none hentry, Position.filled_amount, Position.filled_avgCost, hzero,
      havg]
    ring

/-- Amounts of one sign add up in size, and keep the side. -/
theorem abs_add_of_mul_pos {x y : ℚ} (h : 0 < x * y) :
    |x + y| = |x| + |y| ∧ Side.ofAmount (x + y) = .ofAmount x ∧
      ∀ c p : ℚ, (c * |x| + p * |y|) / (|x| + |y|) = (x * c + y * p) / (x + y) := by
  unfold Side.ofAmount
  rcases pos_and_pos_or_neg_and_neg_of_mul_pos h with ⟨hx, hy⟩ | ⟨hx, hy⟩
  · rw [abs_of_pos hx, abs_of_pos hy, abs_of_pos (add_pos hx hy), if_pos (add_pos hx hy),
      if_pos hx]
    refine ⟨rfl, rfl, fun c p => ?_⟩
    rw [mul_comm c, mul_comm p]
  · rw [abs_of_neg hx, abs_of_neg hy, abs_of_neg (add_neg hx hy), if_neg (add_neg hx hy).not_gt,
      if_neg hx.not_gt]
    refine ⟨neg_add x y, rfl, fun c p => ?_⟩
    rw [← neg_add, ← neg_div_neg_eq (x * c + y * p)]
    congr 1
    ring

/-- A position grows. -/
theorem settled_of_grown {entry : Entry} (hq : amountEpsilon < |e.signedQuantity|)
    (hfee : 0 ≤ e.commission) (hsame : 0 < pos.amount * e.signedQuantity) (hcost : 0 < pos.avgCost)
    (hentry : b.entries.get? e.positionKey = some entry) (hmatch : entry.Matches pos) :
    Settled b (b.recordClosedTrade e pos.amount pos.avgCost (pos.amount + e.signedQuantity))
      e.positionKey pos e := by
  obtain ⟨habs, hside, haverage⟩ := abs_add_of_mul_pos hsame
  have hnew : amountEpsilon < |pos.amount + e.signedQuantity| := by
    rw [habs]
    linarith [abs_nonneg pos.amount]
  have hne : pos.amount + e.signedQuantity ≠ 0 := fun h => by
    rw [h, abs_zero] at hnew
    exact absurd hnew (not_lt.mpr amountEpsilon_pos.le)
  have havg : nextAverageCost pos.amount pos.avgCost e.signedQuantity e.price = _ :=
    nextAverageCost_grown hnew (.inr hsame)
  rw [recordClosedTrade_of_open hq hsame.le]
  have hentries : (b.openEntry e (pos.amount + e.signedQuantity) |e.signedQuantity|
      e.commission).entries = _ :=
    openEntry_of_side hentry (hmatch.side.trans hside.symm) (by rw [hmatch.price]; exact hcost.ne')
  generalize hb' : b.openEntry e (pos.amount + e.signedQuantity) |e.signedQuantity| e.commission =
    b' at hentries ⊢
  have hget := Dict.get?_set_self b.entries e.positionKey { entry with
    price := (entry.price * entry.quantity + e.price * |e.signedQuantity|) /
      (entry.quantity + |e.signedQuantity|)
    quantity := entry.quantity + |e.signedQuantity|
    commission := entry.commission + e.commission }
  rw [← hentries] at hget
  constructor
  · intro key hkey
    rw [hentries, Dict.get?_set, if_neg (Ne.symm hkey)]
  · exact fun h => absurd h hne
  · refine fun _ => ⟨_, hget, ?_, hmatch.side.trans hside.symm, ?_, ?_⟩
    · rw [Position.filled_amount, habs, ← hmatch.quantity]
    · rw [Position.filled_avgCost, havg, ← haverage, ← hmatch.quantity, ← hmatch.price]
    · exact add_nonneg hmatch.commission hfee
  · have hprofit : b'.realizedProfit = b.realizedProfit := by
      rw [← hb']
      rfl
    have hvalue : (pos.amount + e.signedQuantity) *
        ((pos.amount * pos.avgCost + e.signedQuantity * e.price) /
          (pos.amount + e.signedQuantity)) =
        pos.amount * pos.avgCost + e.signedQuantity * e.price := mul_div_cancel₀ _ hne
    rw [hprofit, Book.openCost, Book.openCost, Book.entryCommission_of_some hget,
      Book.entryCommission_of_some hentry, Position.filled_amount, Position.filled_avgCost, havg,
      hvalue]
    ring

/-- The sign of the closed direction. -/
theorem mul_sign_of_mul_neg {x y : ℚ} (h : x * y < 0) : |y| * (if 0 < x then 1 else -1) = -y := by
  rcases mul_neg_iff.mp h with ⟨hx, hy⟩ | ⟨hx, hy⟩
  · rw [if_pos hx, abs_of_neg hy, mul_one]
  · rw [if_neg hx.not_gt, abs_of_pos hy, mul_neg, mul_one]

/-- What is taken from an amount and does not exceed it keeps the side of the rest. -/
theorem abs_add_of_mul_neg {x y : ℚ} (h : x * y < 0) (hle : |y| ≤ |x|) :
    |x + y| = |x| - |y| ∧ 0 ≤ x * (x + y) ∧
      (x + y ≠ 0 → Side.ofAmount (x + y) = .ofAmount x) := by
  unfold Side.ofAmount
  rcases mul_neg_iff.mp h with ⟨hx, hy⟩ | ⟨hx, hy⟩
  · rw [abs_of_pos hx, abs_of_neg hy] at hle ⊢
    have hsum : 0 ≤ x + y := by linarith
    rw [abs_of_nonneg hsum, if_pos hx]
    exact ⟨by ring, mul_nonneg hx.le hsum, fun hne => if_pos (lt_of_le_of_ne hsum hne.symm)⟩
  · rw [abs_of_neg hx, abs_of_pos hy] at hle ⊢
    have hsum : x + y ≤ 0 := by linarith
    rw [abs_of_nonpos hsum, if_neg hx.not_gt, if_neg (not_lt.mpr hsum)]
    exact ⟨by ring, mul_nonneg_of_nonpos_of_nonpos hx.le hsum, fun _ => rfl⟩

/-- A fill against a position, of no more than the position. -/
theorem settled_of_reduced {entry : Entry} (hq : amountEpsilon < |e.signedQuantity|)
    (hagainst : pos.amount * e.signedQuantity < 0) (hle : |e.signedQuantity| ≤ |pos.amount|)
    (hflat : |pos.amount + e.signedQuantity| ≤ amountEpsilon → pos.amount + e.signedQuantity = 0)
    (hentry : b.entries.get? e.positionKey = some entry) (hmatch : entry.Matches pos) :
    Settled b (b.recordClosedTrade e pos.amount pos.avgCost (pos.amount + e.signedQuantity))
      e.positionKey pos e := by
  obtain ⟨habs, hsign, hside⟩ := abs_add_of_mul_neg hagainst hle
  have hdirection := mul_sign_of_mul_neg hagainst
  have hpos : 0 < |pos.amount| := (amountEpsilon_pos.trans hq).trans_le hle
  rw [recordClosedTrade_of_close hq hagainst hle]
  obtain ⟨hprofit, hentries⟩ :=
    closeEntry_of_matches (pos.amount + e.signedQuantity) e.commission hentry hmatch hle
  generalize b.closeEntry e pos.amount pos.avgCost (pos.amount + e.signedQuantity)
    |e.signedQuantity| e.commission = b' at hprofit hentries ⊢
  rw [mul_assoc, hdirection] at hprofit
  rw [← habs] at hentries
  by_cases hzero : pos.amount + e.signedQuantity = 0
  · have hgone : b'.entries = b.entries.pop e.positionKey := by
      rw [hentries, hzero, abs_zero, if_neg fun h => absurd h.1 (not_lt.mpr amountEpsilon_pos.le)]
    have hget : b'.entries.get? e.positionKey = none := by rw [hgone, Dict.get?_pop, if_pos rfl]
    have hall : |e.signedQuantity| = |pos.amount| := by
      rw [hzero, abs_zero] at habs
      linarith
    have hshare : entry.commission * |e.signedQuantity| / |pos.amount| = entry.commission := by
      rw [hall, mul_div_cancel_right₀ _ hpos.ne']
    constructor
    · intro key hkey
      rw [hgone, Dict.get?_pop, if_neg (Ne.symm hkey)]
    · exact fun _ => hget
    · exact fun h => absurd hzero h
    · rw [hprofit, hshare, Book.openCost, Book.openCost, Book.entryCommission_of_none hget,
        Book.entryCommission_of_some hentry, Position.filled_amount, hzero]
      have hamount : pos.amount = -e.signedQuantity := by linarith
      rw [hamount]
      ring
  · have hnew : amountEpsilon < |pos.amount + e.signedQuantity| :=
      lt_of_not_ge fun h => hzero (hflat h)
    have hshare : entry.commission * |e.signedQuantity| / |pos.amount| ≤ entry.commission := by
      rw [div_le_iff₀ hpos]
      exact mul_le_mul_of_nonneg_left hle hmatch.commission
    rw [if_pos ⟨hnew, hsign⟩, max_eq_right (sub_nonneg.mpr hshare)] at hentries
    have hget := Dict.get?_set_self b.entries e.positionKey { entry with
      quantity := |pos.amount + e.signedQuantity|
      commission := entry.commission - entry.commission * |e.signedQuantity| / |pos.amount| }
    rw [← hentries] at hget
    have havg : nextAverageCost pos.amount pos.avgCost e.signedQuantity e.price = pos.avgCost :=
      nextAverageCost_reduced hnew hagainst hsign
    constructor
    · intro key hkey
      rw [hentries, Dict.get?_set, if_neg (Ne.symm hkey)]
    · exact fun h => absurd h hzero
    · refine fun _ => ⟨_, hget, rfl, hmatch.side.trans (hside hzero).symm, ?_,
        sub_nonneg.mpr hshare⟩
      rw [Position.filled_avgCost, havg, ← hmatch.price]
    · rw [hprofit, Book.openCost, Book.openCost, Book.entryCommission_of_some hget,
        Book.entryCommission_of_some hentry, Position.filled_amount, Position.filled_avgCost, havg]
      ring

/-- What exceeds an amount on the other side is left over. -/
theorem abs_add_of_reversed {x y : ℚ} (h : x * y < 0) (hlt : |x| < |y|) :
    |x + y| = |y| - |x| ∧ x * (x + y) < 0 := by
  rcases mul_neg_iff.mp h with ⟨hx, hy⟩ | ⟨hx, hy⟩
  · rw [abs_of_pos hx, abs_of_neg hy] at hlt ⊢
    have hsum : x + y < 0 := by linarith
    rw [abs_of_neg hsum]
    exact ⟨by ring, mul_neg_of_pos_of_neg hx hsum⟩
  · rw [abs_of_neg hx, abs_of_pos hy] at hlt ⊢
    have hsum : 0 < x + y := by linarith
    rw [abs_of_pos hsum]
    exact ⟨by ring, mul_neg_of_neg_of_pos hx hsum⟩

/-- A fill that takes a position to the other side. -/
theorem settled_of_reversed {entry : Entry} (hold : amountEpsilon < |pos.amount|)
    (hfee : 0 ≤ e.commission) (hagainst : pos.amount * e.signedQuantity < 0)
    (hlt : |pos.amount| < |e.signedQuantity|)
    (hflat : |pos.amount + e.signedQuantity| ≤ amountEpsilon → pos.amount + e.signedQuantity = 0)
    (hentry : b.entries.get? e.positionKey = some entry) (hmatch : entry.Matches pos) :
    Settled b (b.recordClosedTrade e pos.amount pos.avgCost (pos.amount + e.signedQuantity))
      e.positionKey pos e := by
  obtain ⟨habs, hsign⟩ := abs_add_of_reversed hagainst hlt
  have hne : pos.amount + e.signedQuantity ≠ 0 := right_ne_zero_of_mul hsign.ne
  have hnew : amountEpsilon < |pos.amount + e.signedQuantity| :=
    lt_of_not_ge fun h => hne (hflat h)
  have havg : nextAverageCost pos.amount pos.avgCost e.signedQuantity e.price = e.price :=
    nextAverageCost_reversed hnew hagainst hsign
  have hdirection : |pos.amount| * (if 0 < pos.amount then 1 else -1) = pos.amount := by
    have hself : pos.amount * -pos.amount < 0 := by
      rw [mul_neg, neg_neg_iff_pos]
      exact mul_self_pos.mpr (left_ne_zero_of_mul hagainst.ne)
    have := mul_sign_of_mul_neg hself
    rwa [abs_neg, neg_neg] at this
  have hpos : 0 < |pos.amount| := amountEpsilon_pos.trans hold
  rw [recordClosedTrade_of_reverse hold hagainst (by rwa [← habs])]
  set openFee := e.commission - e.commission * |pos.amount| / |e.signedQuantity| with hopenFee
  have hopen : 0 ≤ openFee := by
    rw [hopenFee, sub_nonneg, div_le_iff₀ (hpos.trans hlt)]
    exact mul_le_mul_of_nonneg_left hlt.le hfee
  obtain ⟨hprofit, hentries⟩ := closeEntry_of_matches (pos.amount + e.signedQuantity)
    (e.commission * |pos.amount| / |e.signedQuantity|) hentry hmatch le_rfl
  generalize b.closeEntry e pos.amount pos.avgCost (pos.amount + e.signedQuantity) |pos.amount|
    (e.commission * |pos.amount| / |e.signedQuantity|) = closed at hprofit hentries ⊢
  rw [sub_self, if_neg fun h => absurd h.1 (not_lt.mpr amountEpsilon_pos.le)] at hentries
  rw [mul_assoc, hdirection, mul_div_cancel_right₀ _ hpos.ne'] at hprofit
  have hgone : closed.entries.get? e.positionKey = none := by
    rw [hentries, Dict.get?_pop, if_pos rfl]
  have hopened : (closed.openEntry e (pos.amount + e.signedQuantity)
      (|e.signedQuantity| - |pos.amount|) openFee).entries = _ := openEntry_of_none hgone
  generalize hb' : closed.openEntry e (pos.amount + e.signedQuantity)
    (|e.signedQuantity| - |pos.amount|) openFee = b' at hopened ⊢
  have hget : b'.entries.get? e.positionKey = some ⟨e.time, e.price,
      |e.signedQuantity| - |pos.amount|, openFee, .ofAmount (pos.amount + e.signedQuantity)⟩ := by
    rw [hopened, Dict.get?_set_self]
  constructor
  · intro key hkey
    rw [hopened, Dict.get?_set, if_neg (Ne.symm hkey), hentries, Dict.get?_pop,
      if_neg (Ne.symm hkey)]
  · exact fun h => absurd h hne
  · refine fun _ => ⟨_, hget, habs.symm, rfl, ?_, hopen⟩
    rw [Position.filled_avgCost, havg]
  · have hsame : b'.realizedProfit = closed.realizedProfit := by
      rw [← hb']
      rfl
    rw [hsame, hprofit, Book.openCost, Book.openCost, Book.entryCommission_of_some hget,
      Book.entryCommission_of_some hentry, Position.filled_amount, Position.filled_avgCost, havg,
      hopenFee]
    ring

/-- **Recording a fill** of a tracked position: it is opened, grows, shrinks, is
closed, or changes its side. -/
theorem recordClosedTrade_settled (hq : amountEpsilon < |e.signedQuantity|)
    (hfee : 0 ≤ e.commission)
    (hflat : |pos.amount + e.signedQuantity| ≤ amountEpsilon → pos.amount + e.signedQuantity = 0)
    (htracked : Tracked b e.positionKey pos) :
    Settled b (b.recordClosedTrade e pos.amount pos.avgCost (pos.amount + e.signedQuantity))
      e.positionKey pos e := by
  rcases htracked with ⟨hzero, hentry⟩ | ⟨hold, hcost, entry, hentry, hmatch⟩
  · exact settled_of_opened hq hfee hzero hentry
  · have hamount : pos.amount ≠ 0 := fun h => by
      rw [h, abs_zero] at hold
      exact absurd hold (not_lt.mpr amountEpsilon_pos.le)
    have hdelta : e.signedQuantity ≠ 0 := fun h => by
      rw [h, abs_zero] at hq
      exact absurd hq (not_lt.mpr amountEpsilon_pos.le)
    rcases (mul_ne_zero hamount hdelta).lt_or_gt with hagainst | hsame
    · rcases le_or_gt |e.signedQuantity| |pos.amount| with hle | hlt
      · exact settled_of_reduced hq hagainst hle hflat hentry hmatch
      · exact settled_of_reversed hold hfee hagainst hlt hflat hentry hmatch
    · exact settled_of_grown hq hfee hsame hcost hentry hmatch

theorem nextAverageCost_pos {oldAmount oldCost delta price : ℚ} (hprice : 0 < price)
    (hnew : amountEpsilon < |oldAmount + delta|) (hold : oldAmount = 0 ∨ 0 < oldCost) :
    0 < nextAverageCost oldAmount oldCost delta price := by
  have hne : oldAmount + delta ≠ 0 := fun h => by
    rw [h, abs_zero] at hnew
    exact absurd hnew (not_lt.mpr amountEpsilon_pos.le)
  by_cases hzero : oldAmount = 0
  · rw [nextAverageCost_grown hnew (.inl hzero), hzero, zero_mul, zero_add, zero_add]
    rw [hzero, zero_add] at hne
    rwa [mul_div_cancel_left₀ _ hne]
  · have hcost : 0 < oldCost := hold.resolve_left hzero
    by_cases hsame : 0 < oldAmount * delta
    · obtain ⟨-, -, haverage⟩ := abs_add_of_mul_pos hsame
      rw [nextAverageCost_grown hnew (.inr hsame), ← haverage]
      have hx : 0 < |oldAmount| := abs_pos.mpr hzero
      have hy : 0 < |delta| := abs_pos.mpr (right_ne_zero_of_mul hsame.ne')
      positivity
    · unfold nextAverageCost
      rw [if_neg (not_le.mpr hnew), if_neg (not_or.mpr ⟨hzero, hsame⟩)]
      split
      · exact hprice
      · exact hcost

end

/-! ## Every move -/

/-- Every execution is of more than the tolerance at a positive price, and a
position has been removed as flat only at zero. -/
structure RegularExecutions (executions : List Execution) : Prop where
  quantity : ∀ e ∈ executions, amountEpsilon < e.quantity
  price : ∀ e ∈ executions, 0 < e.price
  exact : ∀ key, (tally key executions).dropped = []

theorem Tally.dropped_add {t : Tally} {q : ℚ} (h : (t.add q).dropped = []) :
    t.dropped = [] ∧ (|t.amount + q| ≤ amountEpsilon → t.amount + q = 0) := by
  unfold Tally.add at h
  dsimp only at h
  split at h
  next hflat =>
    split at h
    next hzero => exact ⟨h, fun _ => hzero⟩
    next => exact absurd h (by simp)
  next hnew => exact ⟨h, fun hflat => absurd hflat hnew⟩

theorem RegularExecutions.of_append {executions : List Execution} {e : Execution}
    (h : RegularExecutions (executions ++ [e])) :
    RegularExecutions executions ∧ amountEpsilon < e.quantity ∧ 0 < e.price ∧
      (|(tally e.positionKey executions).amount + e.signedQuantity| ≤ amountEpsilon →
        (tally e.positionKey executions).amount + e.signedQuantity = 0) := by
  have hlast : e ∈ executions ++ [e] := by simp
  have hself := h.exact e.positionKey
  rw [tally_append_self _ _ _ rfl] at hself
  refine ⟨⟨fun d hd => h.quantity d (List.mem_append_left _ hd),
    fun d hd => h.price d (List.mem_append_left _ hd), fun key => ?_⟩, h.quantity e hlast,
    h.price e hlast, (Tally.dropped_add hself).2⟩
  by_cases hkey : e.positionKey = key
  · exact hkey ▸ (Tally.dropped_add hself).1
  · exact tally_append_ne key executions e hkey ▸ h.exact key

/-- Only the keys of the executions need a look. -/
theorem regularExecutions_iff (executions : List Execution) :
    RegularExecutions executions ↔
      ∀ e ∈ executions, amountEpsilon < e.quantity ∧ 0 < e.price ∧
        (tally e.positionKey executions).dropped = [] := by
  constructor
  · exact fun h e he => ⟨h.quantity e he, h.price e he, h.exact e.positionKey⟩
  · refine fun h => ⟨fun e he => (h e he).1, fun e he => (h e he).2.1, fun key => ?_⟩
    by_cases hkey : ∃ e ∈ executions, e.positionKey = key
    · obtain ⟨e, he, rfl⟩ := hkey
      exact (h e he).2.2
    · have hnone : executionsOf key executions = [] :=
        List.filter_eq_nil_iff.mpr fun e he heq => hkey ⟨e, he, of_decide_eq_true heq⟩
      rw [tally, hnone]
      rfl

instance (executions : List Execution) : Decidable (RegularExecutions executions) :=
  decidable_of_iff' _ (regularExecutions_iff executions)

def Book.positionAt (b : Book) (key : PositionKey) : Position :=
  (b.positions.get? key).getD { symbol := key.symbol, positionSide := key.side }

/-- Entries follow positions, and the cash is what trades have brought and
positions have cost. -/
structure Decomposed (cfg : BrokerConfig) (b : Broker) : Prop where
  keys : b.book.positions.keys.Nodup
  stored : ∀ key pos, b.book.positions.get? key = some pos → amountEpsilon < |pos.amount|
  tracked : ∀ key, Tracked b.book key (b.book.positionAt key)
  cash : b.book.availableCash = cfg.initialCapital + b.liquidationAdjustment +
    b.book.realizedProfit - b.book.positions.total b.book.openCost

theorem Book.positionAt_amount (b : Book) (key : PositionKey) :
    (b.positionAt key).amount = b.amountOf key := by
  unfold positionAt amountOf
  cases b.positions.get? key with
  | none => rfl
  | some pos => rfl

/-- The open costs are those of the other positions and of this one. -/
theorem Book.total_openCost {b : Book} (hkeys : b.positions.keys.Nodup) {key : PositionKey}
    (htracked : Tracked b key (b.positionAt key)) :
    b.positions.total b.openCost =
      (b.positions.pop key).total b.openCost + b.openCost key (b.positionAt key) := by
  rw [Dict.total_eq_pop hkeys key]
  cases hpos : b.positions.get? key with
  | some pos => rw [positionAt, hpos, Option.getD_some, Option.elim_some]
  | none =>
    rw [positionAt, hpos] at htracked
    rcases htracked with ⟨-, hentry⟩ | ⟨habs, -⟩
    · rw [positionAt, hpos, Option.getD_none, Option.elim_none, openCost,
        entryCommission_of_none hentry, zero_mul, add_zero, add_zero, add_zero]
    · exact absurd habs (by rw [Option.getD_none, abs_zero]; exact not_lt.mpr amountEpsilon_pos.le)

theorem Decomposed.of_fields {cfg : BrokerConfig} {b b' : Broker} (h : Decomposed cfg b)
    (haccounts : b'.book.accounts = b.book.accounts)
    (hadjustment : b'.liquidationAdjustment = b.liquidationAdjustment) : Decomposed cfg b' := by
  have hcash : b'.book.availableCash = b.book.availableCash := congrArg Accounts.cash haccounts
  have hpositions : b'.book.positions = b.book.positions := congrArg Accounts.positions haccounts
  have hclosed : b'.book.closedTrades = b.book.closedTrades :=
    congrArg Accounts.closedTrades haccounts
  have hentries : b'.book.entries = b.book.entries := congrArg Accounts.entries haccounts
  have hcost : b'.book.openCost = b.book.openCost := by
    funext key pos
    rw [Book.openCost, Book.openCost, Book.entryCommission, Book.entryCommission, hentries]
  refine ⟨hpositions ▸ h.keys, fun key pos hpos => h.stored key pos (hpositions ▸ hpos),
    fun key => ?_, ?_⟩
  · have := h.tracked key
    rw [Tracked, Book.positionAt] at this ⊢
    rwa [hpositions, hentries]
  · rw [hcash, hadjustment, hpositions, hcost, Book.realizedProfit, hclosed]
    exact h.cash

theorem Decomposed.mark {cfg : BrokerConfig} {b : Broker} (h : Decomposed cfg b) (p : Portal) :
    Decomposed cfg (b.mark p) := by
  have hget : ∀ key, (b.mark p).book.positions.get? key =
      (b.book.positions.get? key).map fun pos => { pos with lastPrice := markPrice p pos } :=
    fun key => Dict.get?_mapValues ..
  refine ⟨?_, fun key pos hpos => ?_, fun key => ?_, ?_⟩
  · show (b.book.positions.mapValues _).keys.Nodup
    rw [Dict.keys_mapValues]
    exact h.keys
  · rw [hget, Option.map_eq_some_iff] at hpos
    obtain ⟨pos', hpos', rfl⟩ := hpos
    exact h.stored key pos' hpos'
  · have htracked := h.tracked key
    unfold Tracked Book.positionAt at htracked ⊢
    rw [hget]
    cases hpos : b.book.positions.get? key with
    | none => rwa [hpos] at htracked
    | some pos =>
      rw [hpos] at htracked
      refine htracked.imp_right fun ⟨hlarge, hcost, entry, hentry, hmatch⟩ => ?_
      exact ⟨hlarge, hcost, entry, hentry, hmatch.quantity, hmatch.side, hmatch.price,
        hmatch.commission⟩
  · show b.book.availableCash = cfg.initialCapital + b.liquidationAdjustment +
      b.book.realizedProfit - (b.book.positions.mapValues _).total b.book.openCost
    rw [Dict.total_mapValues]
    exact h.cash

/-- A fill of the position at a key. -/
theorem Decomposed.fill {cfg : BrokerConfig} {b : Broker} (h : Decomposed cfg b)
    {key : PositionKey} {book : Book} {e : Execution}
    (hcash : book.availableCash =
      b.book.availableCash - e.signedQuantity * e.price - e.commission)
    (hpositions : book.positions =
      if |(b.book.positionAt key).amount + e.signedQuantity| ≤ amountEpsilon then
        b.book.positions.pop key
      else b.book.positions.set key ((b.book.positionAt key).filled e.signedQuantity e.price))
    (hsettled : Settled b.book book key (b.book.positionAt key) e) (hprice : 0 < e.price)
    (hflat : |(b.book.positionAt key).amount + e.signedQuantity| ≤ amountEpsilon →
      (b.book.positionAt key).amount + e.signedQuantity = 0) :
    Decomposed cfg (b.withBook book) := by
  have htotal := Book.total_openCost h.keys (h.tracked key)
  have hold : (b.book.positionAt key).amount = 0 ∨ 0 < (b.book.positionAt key).avgCost :=
    (h.tracked key).imp And.left fun ht => ht.2.1
  have hother : ∀ key', key' ≠ key → book.positions.get? key' = b.book.positions.get? key' := by
    intro key' hne
    rw [hpositions]
    split
    · rw [Dict.get?_pop, if_neg (Ne.symm hne)]
    · rw [Dict.get?_set, if_neg (Ne.symm hne)]
  have hcosts : (b.book.positions.pop key).total book.openCost =
      (b.book.positions.pop key).total b.book.openCost :=
    Dict.total_pop_congr fun key' pos' hne => by
      rw [Book.openCost, Book.openCost, Book.entryCommission, Book.entryCommission,
        hsettled.frame key' hne]
  have hrest : ∀ key', key' ≠ key → Tracked book key' (book.positionAt key') := by
    intro key' hne
    have := h.tracked key'
    unfold Tracked Book.positionAt at this ⊢
    rwa [hother key' hne, hsettled.frame key' hne]
  have hprofit := hsettled.profit
  have hbefore := h.cash
  rw [htotal] at hbefore
  generalize b.book.positionAt key = pos at *
  by_cases hzero : |pos.amount + e.signedQuantity| ≤ amountEpsilon
  · have hsum := hflat hzero
    have hentry := hsettled.closed hsum
    rw [if_pos hzero] at hpositions
    have hgone : book.positions.get? key = none := by rw [hpositions, Dict.get?_pop, if_pos rfl]
    refine ⟨?_, fun key' pos' hpos' => ?_, fun key' => ?_, ?_⟩
    · show book.positions.keys.Nodup
      rw [hpositions]
      exact Dict.nodup_keys_pop h.keys key
    · by_cases hsame : key' = key
      · have hnone : book.positions.get? key' = none := hsame ▸ hgone
        exact absurd (hnone.symm.trans hpos') (by simp)
      · exact h.stored key' pos' ((hother key' hsame).symm.trans hpos')
    · by_cases hsame : key' = key
      · refine .inl ⟨?_, hsame ▸ hentry⟩
        show (book.positionAt key').amount = 0
        rw [Book.positionAt, hsame, hgone]
        rfl
      · exact hrest key' hsame
    · show book.availableCash = cfg.initialCapital + b.liquidationAdjustment +
        book.realizedProfit - book.positions.total book.openCost
      have hnothing : book.openCost key (pos.filled e.signedQuantity e.price) = 0 := by
        rw [Book.openCost, Book.entryCommission_of_none hentry, Position.filled_amount, hsum,
          zero_mul, add_zero]
      rw [hpositions, hcosts]
      linarith
  · have hlarge : amountEpsilon < |pos.amount + e.signedQuantity| := not_le.mp hzero
    have hne : pos.amount + e.signedQuantity ≠ 0 := fun hsum => by
      rw [hsum, abs_zero] at hlarge
      exact absurd hlarge (not_lt.mpr amountEpsilon_pos.le)
    rw [if_neg hzero] at hpositions
    have hget : book.positions.get? key = some (pos.filled e.signedQuantity e.price) := by
      rw [hpositions, Dict.get?_set_self]
    refine ⟨?_, fun key' pos' hpos' => ?_, fun key' => ?_, ?_⟩
    · show book.positions.keys.Nodup
      rw [hpositions]
      exact Dict.nodup_keys_set h.keys key _
    · by_cases hsame : key' = key
      · have hself : book.positions.get? key' = some (pos.filled e.signedQuantity e.price) :=
          hsame ▸ hget
        obtain rfl : pos.filled e.signedQuantity e.price = pos' :=
          Option.some.inj (hself.symm.trans hpos')
        exact hlarge
      · exact h.stored key' pos' ((hother key' hsame).symm.trans hpos')
    · by_cases hsame : key' = key
      · show Tracked book key' (book.positionAt key')
        rw [Book.positionAt, hsame, hget, Option.getD_some]
        exact .inr ⟨hlarge, nextAverageCost_pos hprice hlarge hold, hsettled.matched hne⟩
      · exact hrest key' hsame
    · show book.availableCash = cfg.initialCapital + b.liquidationAdjustment +
        book.realizedProfit - book.positions.total book.openCost
      rw [hpositions, Dict.total_set h.keys, hcosts]
      linarith

/-- **One move keeps the decomposition.** -/
theorem move_decomposed {cfg : BrokerConfig} (b b' : Broker) (h : Broker.Move cfg b b')
    (hb : LedgerKept cfg b ∧ (RegularExecutions b.book.executions → Decomposed cfg b)) :
    LedgerKept cfg b' ∧ (RegularExecutions b'.book.executions → Decomposed cfg b') := by
  refine ⟨move_kept b b' h hb.1, ?_⟩
  cases h with
  | mark p => exact fun hregular => (hb.2 hregular).mark p
  | quiet haccounts hadjustment =>
    intro hregular
    have hexecutions : b'.book.executions = b.book.executions :=
      congrArg Accounts.executions haccounts
    exact (hb.2 (hexecutions ▸ hregular)).of_fields haccounts hadjustment
  | absorb deficit =>
    intro hregular
    have hd := hb.2 hregular
    refine ⟨hd.keys, hd.stored, hd.tracked, ?_⟩
    show b.book.availableCash + deficit = cfg.initialCapital + (b.liquidationAdjustment + deficit) +
      b.book.realizedProfit - b.book.positions.total b.book.openCost
    rw [hd.cash]
    ring
  | fill timestamp order orderId openPrice z delta fillPrice lot reference cap constraint hz =>
    obtain ⟨e, hkey, hsigned, hquantity, hprice, hfee, haccounts⟩ := fillOrder_spec cfg timestamp
      b.book order orderId openPrice z delta fillPrice lot reference cap constraint
    generalize (fillOrder cfg timestamp b.book order orderId openPrice z delta fillPrice lot
      reference cap constraint).book = book at haccounts ⊢
    have hexecutions : book.executions = b.book.executions ++ [e] :=
      congrArg Accounts.executions haccounts
    intro hregular
    obtain ⟨hbefore, hlarge, hpositive, hflat⟩ :=
      RegularExecutions.of_append (hexecutions ▸ hregular : RegularExecutions (_ ++ [e]))
    have hd := hb.2 hbefore
    have hcurrent : z.current = b.book.positionAt order.positionKey := hz
    rw [← hb.1.amount, ← Book.positionAt_amount, hkey] at hflat
    have hcommission : 0 ≤ e.commission := by
      rw [hfee]
      exact mul_nonneg (abs_nonneg _) cfg.commission_nonneg
    subst hsigned hprice
    rw [hcurrent] at haccounts
    have hsettled : Settled b.book _ e.positionKey (b.book.positionAt order.positionKey) e :=
      recordClosedTrade_settled (hquantity ▸ hlarge) hcommission hflat
        (hkey ▸ hd.tracked order.positionKey)
    exact hd.fill (congrArg Accounts.cash haccounts) (congrArg Accounts.positions haccounts)
      (hkey ▸ hsettled.of_eq (congrArg Accounts.entries haccounts)
        (congrArg Accounts.closedTrades haccounts)) hpositive hflat

/-! ## Runs -/

/-- The open entry of a key has the quantity, the side and the price of its
position; without a position there is none. -/
def EntryFollows (b : Book) (key : PositionKey) : Prop :=
  match b.positions.get? key, b.entries.get? key with
  | none, none => True
  | some pos, some entry =>
    entry.quantity = |pos.amount| ∧ entry.side = .ofAmount pos.amount ∧ entry.price = pos.avgCost
  | _, _ => False

theorem Decomposed.entryFollows {cfg : BrokerConfig} {b : Broker} (h : Decomposed cfg b)
    (key : PositionKey) : EntryFollows b.book key := by
  have htracked := h.tracked key
  unfold Book.positionAt at htracked
  unfold EntryFollows
  cases hpos : b.book.positions.get? key with
  | none =>
    rw [hpos] at htracked
    rcases htracked with ⟨-, hentry⟩ | ⟨habs, -⟩
    · rw [hentry]
      trivial
    · exact absurd habs (by rw [Option.getD_none, abs_zero]; exact not_lt.mpr amountEpsilon_pos.le)
  | some pos =>
    rw [hpos] at htracked
    rcases htracked with ⟨hzero, -⟩ | ⟨-, -, entry, hentry, hmatch⟩
    · have hlarge := h.stored key pos hpos
      rw [Option.getD_some] at hzero
      rw [hzero, abs_zero] at hlarge
      exact absurd hlarge (not_lt.mpr amountEpsilon_pos.le)
    · rw [hentry]
      exact ⟨hmatch.quantity, hmatch.side, hmatch.price⟩

/-- What an open position contributes to the final equity. -/
def Book.openProfit (b : Book) (key : PositionKey) (pos : Position) : ℚ :=
  (pos.lastPrice - pos.avgCost) * pos.amount - b.entryCommission key

theorem Book.positionsValue_eq (b : Book) :
    b.positionsValue = b.positions.total b.openProfit + b.positions.total b.openCost := by
  unfold positionsValue Dict.values Dict.total
  rw [List.map_map, ← List.sum_map_add]
  refine congrArg List.sum (List.map_congr_left fun entry _ => ?_)
  show entry.2.amount * entry.2.lastPrice = _
  rw [openProfit, openCost]
  ring

theorem start_decomposed {G : Type} (cfg : BrokerConfig) (prog : Program G) :
    Decomposed cfg (Runner.start cfg prog).broker where
  keys := List.nodup_nil
  stored _ _ h := by cases h
  tracked _ := .inl ⟨rfl, rfl⟩
  cash := by
    show cfg.initialCapital = cfg.initialCapital + 0 + 0 - 0
    ring

/-- **Profit decomposition.**  With regular executions, entries follow positions
at every point `b` after any number of bars, and the equity has grown by the profits
of the closed trades, of the open positions, and by the liquidation adjustment. -/
theorem profit_decomposed {G : Type} {cfg : BrokerConfig} {prog : Program G} {frames : Frames}
    {ts : List Time} {r : Runner G}
    (hrun : Runs.run (Runner.bar cfg prog frames) (Runner.start cfg prog) ts = some r) :
    (∀ b, Broker.Chain cfg r.broker b → RegularExecutions b.book.executions →
      ∀ key, EntryFollows b.book key) ∧
    (RegularExecutions r.broker.book.executions →
      r.broker.book.totalValue - cfg.initialCapital =
        r.broker.book.realizedProfit + r.broker.book.positions.total r.broker.book.openProfit +
          r.broker.liquidationAdjustment) := by
  have hdecomposed : ∀ b, Broker.Chain cfg r.broker b → RegularExecutions b.book.executions →
      Decomposed cfg b := fun b hchain =>
    (((Runner.run_chain hrun).trans hchain).invariant move_decomposed
      ⟨start_kept cfg prog, fun _ => start_decomposed cfg prog⟩).2
  refine ⟨fun b hchain hregular => (hdecomposed b hchain hregular).entryFollows, fun hregular => ?_⟩
  have hcash := (hdecomposed r.broker (.refl _) hregular).cash
  rw [Runner.run_totalValue hrun, Book.positionsValue_eq, hcash]
  ring

/-! ## A dropped amount -/

/-- One size of lots. -/
def Dust.evenHistory : Frames where
  entries := [(Dust.coin, ⟨[(0, Dust.flatBar 1), (1, Dust.flatBar 1), (2, Dust.flatBar 1),
    (3, Dust.flatBar 1)], by simp⟩)]

/-- A coin is bought, sold and bought again. -/
theorem profit_decomposed_inAndOut :
    ∃ r, Runs.run (Runner.bar Dust.config Dust.inAndOut Dust.evenHistory)
        (Runner.start Dust.config Dust.inAndOut) [0, 1, 2, 3] = some r ∧
      r.broker.book.closedTrades.length = 1 ∧ (∀ key, EntryFollows r.broker.book key) ∧
      r.broker.book.totalValue - Dust.config.initialCapital =
        r.broker.book.realizedProfit + r.broker.book.positions.total r.broker.book.openProfit +
          r.broker.liquidationAdjustment := by
  obtain ⟨r, hr, hregular, htrades⟩ := Runs.exists_of_any
    (p := fun r : Runner Unit => RegularExecutions r.broker.book.executions ∧
      r.broker.book.closedTrades.length = 1)
    (show (Runs.run (Runner.bar Dust.config Dust.inAndOut Dust.evenHistory)
      (Runner.start Dust.config Dust.inAndOut) [0, 1, 2, 3]).any _ = true by decide +kernel)
  obtain ⟨hfollows, hprofit⟩ := profit_decomposed hr
  exact ⟨r, hr, htrades, hfollows r.broker (.refl _) hregular, hprofit hregular⟩

/-- With a dropped amount the cost of that amount is in no closed trade. -/
theorem dropped_cost_missing :
    ∃ r, Runner.run Dust.config Dust.inAndOut Dust.history none none = some r ∧
      r.broker.book.totalValue - Dust.config.initialCapital ≠
        r.broker.book.realizedProfit + r.broker.book.positions.total r.broker.book.openProfit +
          r.broker.liquidationAdjustment :=
  Runs.exists_of_any (show (Runner.run Dust.config Dust.inAndOut Dust.history none none).any _ = true
    by decide +kernel)

end AlgoTrade.Backtest
