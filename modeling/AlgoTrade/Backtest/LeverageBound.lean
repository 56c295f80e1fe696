import AlgoTrade.Backtest.FeasibleDelta
import AlgoTrade.Backtest.Bankruptcy
import AlgoTrade.Backtest.LedgerConservation

/-! # The leverage bound

What a fill that enlarges its position leaves: the gross exposure against the
leverage limit, and the cash against the borrowing floor.

* `abs_add_feasible_le`: the new amount is within the position limit, up to the
  tolerances of amounts and of rounding.
* `feasible_mul_le`: a buy costs no more than the cash above the floor, up to the
  rounding.
* `exposure_bounded`: both, for every order of every run. -/

namespace AlgoTrade.Backtest

/-! ## The change that enlarges a position -/

/-- Rounding a change that goes back towards zero does not take it past the other side. -/
theorem abs_add_le_of_opposite {c v r lot : ℚ} (hlot : 0 < lot) (hsame : 0 ≤ r * v)
    (hround : |r| ≤ |v| + lot / 10 ^ 8) (hle : |v| ≤ |c|) (hopposite : v * c ≤ 0)
    (hunits : r = 0 ∨ lot ≤ |r|) : |c + r| ≤ |c| := by
  rcases hunits with rfl | hunits
  · rw [add_zero]
  have htol : lot / 10 ^ 8 ≤ lot / 2 := by
    refine div_le_div_of_nonneg_left hlot.le (by norm_num) (by norm_num)
  have hv : 0 < |v| := by linarith
  rcases (abs_pos.mp hv).lt_or_gt with hneg | hpos
  · have hc : 0 ≤ c := nonneg_of_mul_nonpos_right hopposite hneg
    have hr : r ≤ 0 := nonpos_of_mul_nonneg_left hsame hneg
    rw [abs_of_nonpos hr] at hround hunits
    rw [abs_of_nonneg hc] at hle ⊢
    exact abs_le.mpr ⟨by linarith, by linarith⟩
  · have hc : c ≤ 0 := nonpos_of_mul_nonpos_right hopposite hpos
    have hr : 0 ≤ r := nonneg_of_mul_nonneg_left hsame hpos
    rw [abs_of_nonneg hr] at hround hunits
    rw [abs_of_nonpos hc] at hle ⊢
    exact abs_le.mpr ⟨by linarith, by linarith⟩

/-- A rounded change that enlarges the amount leaves it where the change would, or
rounds up. -/
theorem abs_add_rounded_le {c v r tolerance : ℚ} (hsame : 0 ≤ r * v) (hround : |r| ≤ |v| + tolerance)
    (hgrows : |c| < |c + r|) :
    |c + r| ≤ |c + v| ∨ (|v| < |r| ∧ |c + r| ≤ |c + v| + tolerance) := by
  rcases le_or_gt |r| |v| with hle | hlt
  · left
    rcases mul_nonneg_iff.mp hsame with ⟨hr, hv⟩ | ⟨hr, hv⟩
    · rw [abs_of_nonneg hr, abs_of_nonneg hv] at hle
      have hmax : |c + r| ≤ max |c| |c + v| := abs_le_max_abs_abs (by linarith) (by linarith)
      exact (le_max_iff.mp hmax).resolve_left hgrows.not_ge
    · rw [abs_of_nonpos hr, abs_of_nonpos hv] at hle
      have hmax : |c + r| ≤ max |c + v| |c| := abs_le_max_abs_abs (by linarith) (by linarith)
      exact (le_max_iff.mp hmax).resolve_right hgrows.not_ge
  · right
    have hdiff : |r - v| ≤ tolerance := by
      rcases mul_nonneg_iff.mp hsame with ⟨hr, hv⟩ | ⟨hr, hv⟩
      · rw [abs_of_nonneg hr, abs_of_nonneg hv] at hlt hround
        exact abs_le.mpr ⟨by linarith, by linarith⟩
      · rw [abs_of_nonpos hr, abs_of_nonpos hv] at hlt hround
        exact abs_le.mpr ⟨by linarith, by linarith⟩
    refine ⟨hlt, ?_⟩
    calc |c + r| = |c + v + (r - v)| := by ring_nf
      _ ≤ |c + v| + |r - v| := abs_add_le ..
      _ ≤ |c + v| + tolerance := by linarith

theorem eq_zero_or_lot_le {lot : ℚ} (hlot : 0 < lot) (value : ℚ) :
    roundToLot value lot = 0 ∨ lot ≤ |roundToLot value lot| := by
  obtain ⟨⟨n, hn⟩, -⟩ := roundToLot_spec hlot value
  rw [hn]
  cases n with
  | zero =>
    rw [Nat.cast_zero, zero_mul] at hn
    exact .inl (abs_eq_zero.mp hn)
  | succ n =>
    right
    push_cast
    have : (0 : ℚ) ≤ n * lot := by positivity
    linarith

section

variable {cfg : BrokerConfig} {b : Book} {delta currentAmount fillPrice equity lot : ℚ}
  {positionKey : PositionKey}

variable (cfg b delta currentAmount fillPrice equity positionKey) in
/-- What the caps leave takes the position no further than its limit. -/
theorem abs_add_limited_le :
    |currentAmount + limited cfg b delta currentAmount fillPrice equity positionKey| ≤
      positionLimit cfg b fillPrice equity positionKey + amountEpsilon := by
  by_cases hover : positionLimit cfg b fillPrice equity positionKey + amountEpsilon <
      |currentAmount + (cashCapped cfg b delta fillPrice equity).1|
  · rw [limited_of_over hover, add_sub_cancel, abs_copysign, abs_of_nonneg (positionLimit_nonneg ..)]
    unfold amountEpsilon
    linarith
  · rw [limited_of_within (not_lt.mp hover)]
    exact not_lt.mp hover

/-- A change that enlarges the position is a rounded one. -/
theorem feasibleDelta_of_grows (hgrows : |currentAmount| < |currentAmount +
      (feasibleDelta cfg b delta currentAmount fillPrice equity lot positionKey).1|) :
    0 ≤ limited cfg b delta currentAmount fillPrice equity positionKey * delta := by
  refine not_lt.mp fun h => ?_
  rw [feasibleDelta_of_opposed h, add_zero] at hgrows
  exact hgrows.false

/-- A change past the limit on the other side does not enlarge the position. -/
theorem not_limitEnlarges_of_grows (hlot : 0 < lot)
    (hgrows : |currentAmount| < |currentAmount +
      (feasibleDelta cfg b delta currentAmount fillPrice equity lot positionKey).1|) :
    ¬ LimitEnlarges cfg b delta currentAmount fillPrice equity positionKey := by
  intro hlimit
  obtain ⟨habs, hsame, hopposite⟩ := limited_of_limitEnlarges hlimit
  have hnonneg := positionLimit_nonneg cfg b fillPrice equity positionKey
  rw [feasibleDelta_of_same hsame] at hgrows
  exact hgrows.not_ge (abs_add_le_of_opposite hlot (roundToLot_spec hlot _).2
    (abs_roundToLot_le_add hlot _) (by linarith) hopposite (eq_zero_or_lot_le hlot _))

/-- **The position limit** bounds the new amount, up to the tolerances, and leaves
room for the change. -/
theorem abs_add_feasible_le (hlot : 0 < lot) (hcoarse : 2 * (amountEpsilon + lot / 10 ^ 8) ≤ lot)
    (hgrows : |currentAmount| < |currentAmount +
      (feasibleDelta cfg b delta currentAmount fillPrice equity lot positionKey).1|)
    (hopen : amountEpsilon < |currentAmount +
      (feasibleDelta cfg b delta currentAmount fillPrice equity lot positionKey).1|) :
    |currentAmount + (feasibleDelta cfg b delta currentAmount fillPrice equity lot positionKey).1| ≤
        positionLimit cfg b fillPrice equity positionKey + lot ∧
      0 < positionLimit cfg b fillPrice equity positionKey := by
  have hsame := feasibleDelta_of_grows hgrows
  have hlimit := abs_add_limited_le cfg b delta currentAmount fillPrice equity positionKey
  rw [feasibleDelta_of_same hsame] at hgrows hopen ⊢
  have htol : 0 < lot / 10 ^ 8 := by positivity
  have hepsilon : 0 < amountEpsilon := by unfold amountEpsilon; norm_num
  rcases abs_add_rounded_le (roundToLot_spec hlot _).2 (abs_roundToLot_le_add hlot _) hgrows with
    h | ⟨hup, h⟩
  · refine ⟨by linarith, ?_⟩
    linarith
  · refine ⟨by linarith, ?_⟩
    -- a lot does not fit between two amounts below the tolerances
    have hunits : lot ≤ |roundToLot (limited cfg b delta currentAmount fillPrice equity positionKey)
        lot| := by
      refine (eq_zero_or_lot_le hlot _).resolve_left fun hzero => ?_
      rw [hzero, abs_zero] at hup
      exact hup.not_ge (abs_nonneg _)
    have htriangle := abs_sub (currentAmount + roundToLot
      (limited cfg b delta currentAmount fillPrice equity positionKey) lot) currentAmount
    rw [add_sub_cancel_left] at htriangle
    linarith

theorem abs_limited_le_cashCapped
    (hlimit : ¬ LimitEnlarges cfg b delta currentAmount fillPrice equity positionKey)
    (hsame : 0 ≤ limited cfg b delta currentAmount fillPrice equity positionKey * delta) :
    |limited cfg b delta currentAmount fillPrice equity positionKey| ≤
      |(cashCapped cfg b delta fillPrice equity).1| := by
  by_cases hover : positionLimit cfg b fillPrice equity positionKey + amountEpsilon <
      |currentAmount + (cashCapped cfg b delta fillPrice equity).1|
  · exact (abs_limited_of_over hover hlimit hsame).2
  · rw [limited_of_within (not_lt.mp hover)]

theorem abs_cashCapped_le_cashCap (hdelta : 0 ≤ delta) :
    |(cashCapped cfg b delta fillPrice equity).1| ≤ cashCap cfg b fillPrice equity := by
  rw [abs_cashCapped_eq]
  split
  · exact min_le_right ..
  next h =>
    rw [le_antisymm (not_lt.mp h) hdelta, abs_zero]
    exact cashCap_nonneg ..

variable (cfg b fillPrice equity) in
theorem cashCap_mul_le :
    cashCap cfg b fillPrice equity * (fillPrice * (1 + cfg.commission)) ≤
      max 0 (b.availableCash + equity * (cfg.leverage - 1)) := by
  have hpos := max_epsilon_pos (fillPrice * (1 + cfg.commission))
  calc cashCap cfg b fillPrice equity * (fillPrice * (1 + cfg.commission))
      ≤ cashCap cfg b fillPrice equity * max (fillPrice * (1 + cfg.commission)) amountEpsilon :=
        mul_le_mul_of_nonneg_left (le_max_left ..) (cashCap_nonneg ..)
    _ = max 0 (b.availableCash + equity * (cfg.leverage - 1)) := div_mul_cancel₀ _ hpos.ne'

/-- **The cash** above the floor pays for a buy, up to the rounding. -/
theorem feasible_mul_le (hlot : 0 < lot) (hprice : 0 ≤ fillPrice)
    (hgrows : |currentAmount| < |currentAmount +
      (feasibleDelta cfg b delta currentAmount fillPrice equity lot positionKey).1|)
    (hbuy : 0 < (feasibleDelta cfg b delta currentAmount fillPrice equity lot positionKey).1) :
    (feasibleDelta cfg b delta currentAmount fillPrice equity lot positionKey).1 *
        (fillPrice * (1 + cfg.commission)) ≤
      b.availableCash + equity * (cfg.leverage - 1) + lot * (fillPrice * (1 + cfg.commission)) := by
  have hlimit := not_limitEnlarges_of_grows hlot hgrows
  have hsame := feasibleDelta_of_grows hgrows
  have hdelta : 0 ≤ delta := nonneg_of_mul_nonneg_right (feasibleDelta_mul_nonneg hlot) hbuy
  have hcap := (abs_limited_le_cashCapped hlimit hsame).trans (abs_cashCapped_le_cashCap hdelta)
  rw [feasibleDelta_of_same hsame] at hbuy ⊢
  have hround := abs_roundToLot_le_add hlot
    (limited cfg b delta currentAmount fillPrice equity positionKey)
  have hunits := (eq_zero_or_lot_le hlot
    (limited cfg b delta currentAmount fillPrice equity positionKey)).resolve_left hbuy.ne'
  rw [abs_of_pos hbuy] at hround hunits
  have hcost : 0 ≤ fillPrice * (1 + cfg.commission) :=
    mul_nonneg hprice (by linarith [cfg.commission_nonneg])
  have htol : lot / 10 ^ 8 < lot := by
    rw [div_lt_iff₀ (by norm_num)]
    linarith
  have hspend := cashCap_mul_le cfg b fillPrice equity
  have hpaid := mul_le_mul_of_nonneg_right (hround.trans (add_le_add_left hcap _)) hcost
  rw [add_mul] at hpaid
  have hrest := mul_le_mul_of_nonneg_right htol.le hcost
  rcases le_or_gt 0 (b.availableCash + equity * (cfg.leverage - 1)) with hfloor | hfloor
  · rw [max_eq_right hfloor] at hspend
    linarith
  · -- below the floor nothing is bought
    have hzero : cashCap cfg b fillPrice equity = 0 := by
      rw [cashCap, max_eq_left hfloor.le, zero_div]
    linarith

end

/-! ## The exposure after a fill -/

/-- The gross exposure at the last prices of the positions. -/
def Book.grossExposure (b : Book) : ℚ := b.positions.total fun _ pos => |pos.marketValue|

theorem Book.grossValue_eq (b : Book) (key : PositionKey) :
    b.grossValue key = (b.positions.pop key).total fun _ pos => |pos.marketValue| := by
  unfold grossValue Dict.pop Dict.total
  induction b.positions.entries with
  | nil => rfl
  | cons e es ih =>
    by_cases hkey : e.1 = key
    · rw [List.map_cons, List.sum_cons, if_pos hkey, zero_add, ih,
        List.filter_cons_of_neg (by simp [hkey])]
    · rw [List.map_cons, List.sum_cons, if_neg hkey, ih,
        List.filter_cons_of_pos (by simp [hkey]), List.map_cons, List.sum_cons]

/-- Amounts below the tolerances do not add up to a lot. -/
def CoarseLot (lot : ℚ) : Prop := 2 * (amountEpsilon + lot / 10 ^ 8) ≤ lot

instance (lot : ℚ) : Decidable (CoarseLot lot) := inferInstanceAs (Decidable (_ ≤ _))

theorem price_of_reached {p₁ p₂ p₃ p₄ : Prop} [Decidable p₁] [Decidable p₂] [Decidable p₃]
    [Decidable p₄] {openPrice limitPrice fillPrice : ℚ} {reference : FillReference}
    (h : (if p₁ then Quote.fills openPrice .gapOpen
      else if p₂ then .fills limitPrice .limit
      else if p₃ then .fills openPrice .gapOpen
      else if p₄ then .fills limitPrice .limit
      else .notReached) = .fills fillPrice reference) :
    fillPrice = openPrice ∨ fillPrice = limitPrice := by
  split at h
  · exact .inl (Quote.fills.inj h).1.symm
  · split at h
    · exact .inr (Quote.fills.inj h).1.symm
    · split at h
      · exact .inl (Quote.fills.inj h).1.symm
      · split at h
        · exact .inr (Quote.fills.inj h).1.symm
        · cases h

theorem quote_nonneg {cfg : BrokerConfig} {order : OrderIntent} {delta openPrice fillPrice : ℚ}
    {bar : Option Bar} {reference : FillReference} (hslippage : cfg.slippage ≤ 1)
    (hopen : 0 < openPrice) (h : quote cfg order delta openPrice bar = .fills fillPrice reference) :
    0 ≤ fillPrice := by
  unfold quote at h
  split at h
  next hlimit =>
    dsimp only at h
    split at h
    · cases h
    next hpositive =>
      have hreached := price_of_reached h
      rcases hreached with rfl | rfl
      · exact hopen.le
      · exact (not_le.mp hpositive).le
  next =>
    obtain ⟨rfl, -⟩ := Quote.fills.inj h
    refine mul_nonneg hopen.le ?_
    split
    · linarith [cfg.slippage_nonneg]
    · linarith

/-- The gross exposure after a fill is that of the others and of the new position. -/
theorem grossExposure_le {cfg : BrokerConfig} {b : Book} {equity fillPrice lot amount : ℚ}
    {key : PositionKey} (hprice : 0 ≤ fillPrice)
    (hroom : 0 < positionLimit cfg b fillPrice equity key)
    (hamount : |amount| ≤ positionLimit cfg b fillPrice equity key + lot) :
    b.grossValue key + |amount * fillPrice| ≤ cfg.leverage * equity + lot * fillPrice := by
  have hpos := max_epsilon_pos fillPrice
  have hgross : 0 < max 0 (equity * cfg.leverage - b.grossValue key) :=
    (div_pos_iff_of_pos_right hpos).mp hroom
  have heq : max 0 (equity * cfg.leverage - b.grossValue key) =
      equity * cfg.leverage - b.grossValue key :=
    max_eq_right (lt_max_iff.mp hgross |>.resolve_left (lt_irrefl 0)).le
  have hmul : positionLimit cfg b fillPrice equity key * fillPrice ≤
      equity * cfg.leverage - b.grossValue key := by
    calc positionLimit cfg b fillPrice equity key * fillPrice
        ≤ positionLimit cfg b fillPrice equity key * max fillPrice amountEpsilon :=
          mul_le_mul_of_nonneg_left (le_max_left ..) hroom.le
      _ = equity * cfg.leverage - b.grossValue key := by
          rw [positionLimit, div_mul_cancel₀ _ hpos.ne', heq]
  have hscaled := mul_le_mul_of_nonneg_right hamount hprice
  rw [abs_mul, abs_of_nonneg hprice]
  linarith

/-- A fill of a feasible change on a filed book. -/
theorem fill_bounded {cfg : BrokerConfig} {b b' : Book} {order : OrderIntent}
    {requested amount equity delta price lot : ℚ} {pos : Position} (hfiled : Filed b) (hprice : 0 ≤ price) (hpos : 0 < lot) (hlot : CoarseLot lot)
    (hmarket : pos.amount = amount + delta ∧ pos.lastPrice = price)
    (hdelta : (feasibleDelta cfg b requested amount price equity lot order.positionKey).1 = delta)
    (hgrows : |amount| < |amount + delta|) (hopen : amountEpsilon < |amount + delta|)
    (hpositions : b'.positions = b.positions.set order.positionKey pos)
    (hcash : b'.availableCash = b.availableCash - delta * price - |delta * price| * cfg.commission) :
    b'.grossExposure ≤ cfg.leverage * equity + lot * (price * (1 + cfg.commission)) ∧
      (0 < delta → -equity * (cfg.leverage - 1) - lot * (price * (1 + cfg.commission)) ≤
        b'.availableCash) := by
  subst hdelta
  obtain ⟨hamount, hroom⟩ := abs_add_feasible_le hpos hlot hgrows hopen
  have hcommission := mul_nonneg (mul_nonneg hpos.le hprice) cfg.commission_nonneg
  refine ⟨?_, fun hbuy => ?_⟩
  · have htotal : b'.grossExposure = b.grossValue order.positionKey + |pos.marketValue| := by
      rw [Book.grossExposure, hpositions, Dict.total_set hfiled.nodup, Book.grossValue_eq]
    have hle := grossExposure_le hprice hroom hamount
    rw [htotal, Position.marketValue, hmarket.1, hmarket.2]
    linarith
  · have hpaid := feasible_mul_le hpos hprice hgrows hbuy
    rw [hcash, abs_of_nonneg (mul_nonneg hbuy.le hprice)]
    linarith

/-- **The exposure is bounded**, at every order of every run that enlarges its
position, with a slippage of at most one and a lot that the tolerances do not fill. -/
theorem exposure_bounded {G : Type} {cfg : BrokerConfig} {prog : Program G} {frames : Frames}
    {ts : List Time} {r : Runner G} {b : Broker} {p : Portal} {timestamp : Time}
    {priceOverrides : Dict Instrument ℚ} {order : OrderIntent} {out : Outcome}
    (hrun : Runs.run (Runner.bar cfg prog frames) (Runner.start cfg prog) ts = some r)
    (hchain : Broker.Chain cfg r.broker b)
    (hexecute : executeOrder cfg p timestamp priceOverrides b.book order = some out)
    (hforced : order.reason ≠ "margin_liquidation") (hslippage : cfg.slippage ≤ 1)
    (hlot : CoarseLot (lotOf p order))
    (hgrows : |b.book.amountOf order.positionKey| < |out.book.amountOf order.positionKey|) :
    ∃ fill, out.fill = some fill ∧
      out.book.grossExposure ≤ cfg.leverage * (b.book.sized p).totalValue +
        lotOf p order * (fill.price * (1 + cfg.commission)) ∧
      (b.book.amountOf order.positionKey < out.book.amountOf order.positionKey →
        -(b.book.sized p).totalValue * (cfg.leverage - 1) -
            lotOf p order * (fill.price * (1 + cfg.commission)) ≤
          out.book.availableCash) := by
  have hfiled : Filed b.book := ((Runner.run_chain hrun).trans hchain).invariant
    (P := fun b => Filed b.book) move_filed (start_filed cfg prog)
  have hnext : Filed b.book.nextOrder := hfiled.of_positions rfl
  have hmarked : Filed (b.book.sized p) := hnext.mark p
  have hsame : ∀ key, (b.book.sized p).amountOf key = b.book.amountOf key :=
    amountOf_markToMarket b.book.nextOrder p
  cases executeOrder_tried hexecute with
  | blocked reason =>
    have hkeep : (blockOrder timestamp b.book.nextOrder order (orderIdAt b.book timestamp)
        reason).book.positions = b.book.positions := by
      unfold blockOrder
      split
      · rfl
      · rfl
    rw [Book.amountOf, Book.amountOf, hkeep] at hgrows
    exact absurd hgrows (lt_irrefl _)
  | rejected reason requested =>
    exact absurd ((hsame order.positionKey ▸ hgrows : |(b.book.sized p).amountOf order.positionKey| <
      |(b.book.sized p).amountOf order.positionKey|)) (lt_irrefl _)
  | resting openPrice z hsized =>
    have hkeep : ((b.book.sized p).appendRestingEvent
        { orderEvent (orderIdAt b.book timestamp) order timestamp .deferred .limitNotReached with
          requestedQuantity := |z.delta|
          price := order.limitPrice }).positions = (b.book.sized p).positions :=
      congrArg Accounts.positions (Book.appendRestingEvent_accounts ..)
    rw [← hsame, Book.amountOf, Book.amountOf, hkeep] at hgrows
    exact absurd hgrows (lt_irrefl _)
  | filled openPrice z fillPrice reference hsized hquote hlots =>
    refine ⟨_, rfl, ?_⟩
    obtain ⟨targetQty, htarget, hz⟩ := Option.map_eq_some_iff.mp hsized.sized
    have hcurrent : z.current.amount = b.book.amountOf order.positionKey := by
      rw [← hz, ← hsame]
      exact amountOf_positionOf ..
    have hequity : z.equity = (b.book.sized p).totalValue := by rw [← hz]
    obtain ⟨e, -, -, -, -, hfee, haccounts⟩ := fillOrder_spec cfg timestamp (b.book.sized p) order
      (orderIdAt b.book timestamp) openPrice z (settledOf cfg p b.book order z fillPrice).1 fillPrice
      (lotOf p order) reference (capOf order (p.openBarAt order.symbol))
      (settledOf cfg p b.book order z fillPrice).2
    have hpositions := congrArg Accounts.positions haccounts
    have hcash := congrArg Accounts.cash haccounts
    have hdelta : (feasibleDelta cfg (b.book.sized p) (cappedDelta order (p.openBarAt order.symbol) z)
        z.current.amount fillPrice z.equity (lotOf p order) order.positionKey).1 =
        (settledOf cfg p b.book order z fillPrice).1 := by
      rw [settledOf, settledDelta, if_neg hforced]
      rfl
    rw [hfee] at hcash
    dsimp only [Book.accounts] at hpositions hcash
    generalize (settledOf cfg p b.book order z fillPrice).1 = delta at *
    generalize (fillOrder cfg timestamp (b.book.sized p) order (orderIdAt b.book timestamp)
      openPrice z delta fillPrice (lotOf p order) reference
      (capOf order (p.openBarAt order.symbol)) (settledOf cfg p b.book order z fillPrice).2).book =
        after at *
    have hopen : amountEpsilon < |z.current.amount + delta| := by
      refine not_le.mp fun hle => ?_
      rw [if_pos hle] at hpositions
      have hgone : after.amountOf order.positionKey = 0 := by
        rw [Book.amountOf, hpositions, Dict.get?_pop, if_pos rfl]
        rfl
      rw [hgone, abs_zero] at hgrows
      exact hgrows.not_ge (abs_nonneg _)
    rw [if_neg hopen.not_ge] at hpositions
    have hafter : after.amountOf order.positionKey = z.current.amount + delta := by
      rw [Book.amountOf, hpositions, Dict.get?_set_self]
      rfl
    rw [hafter, ← hcurrent] at hgrows ⊢
    obtain ⟨hgross, hfloor⟩ := fill_bounded hmarked
      (quote_nonneg hslippage (openPrice_pos hforced hsized.unblocked hsized.opens) hquote)
      (lotSize_pos ..) hlot ⟨rfl, rfl⟩ hdelta hgrows hopen hpositions hcash
    rw [hequity] at hgross hfloor
    exact ⟨hgross, fun hbuy => hfloor (by linarith)⟩

/-- A coin is bought. -/
theorem exposure_bounded_oneCoin :
    ∃ out, executeOrder Dust.config (portalAt Dust.history 0 false) 0 Dict.empty
        (Runner.start Dust.config Dust.inAndOut).broker.book
        { symbol := Dust.coin, kind := .quantity, value := 1 } = some out ∧
      ∃ fill, out.fill = some fill ∧
        out.book.grossExposure ≤ 10000 + 1 * (fill.price * (1 + 1 / 2000)) := by
  obtain ⟨out, hout, hgrows⟩ := Runs.exists_of_any
    (p := fun out : Outcome =>
      |(Runner.start Dust.config Dust.inAndOut).broker.book.amountOf Dust.key| <
        |out.book.amountOf Dust.key|)
    (show (executeOrder Dust.config (portalAt Dust.history 0 false) 0 Dict.empty
      (Runner.start Dust.config Dust.inAndOut).broker.book
      { symbol := Dust.coin, kind := .quantity, value := 1 }).any _ = true by decide +kernel)
  have hrun : Runs.run (Runner.bar Dust.config Dust.inAndOut Dust.history)
      (Runner.start Dust.config Dust.inAndOut) [] = some _ := rfl
  obtain ⟨fill, hfill, hgross, -⟩ := exposure_bounded hrun
    (.refl _) hout (by decide) (by decide +kernel) (by decide +kernel) hgrows
  refine ⟨out, hout, fill, hfill, hgross.trans_eq ?_⟩
  rw [show lotOf (portalAt Dust.history 0 false)
      { symbol := Dust.coin, kind := .quantity, value := 1 } = 1 by decide +kernel]
  congr 1
  decide +kernel

namespace Overrun

def config (slippage : ℚ) (hslippage : 0 ≤ slippage) : BrokerConfig where
  initialCapital := 10000
  commission := 0
  slippage := slippage
  one_le_leverage := BrokerConfig.one_le_unlevered
  commission_nonneg := BrokerConfig.free_nonneg
  slippage_nonneg := hslippage

def history (lot : ℚ) : Frames where
  entries := [(Dust.coin, ⟨[(0, Dust.flatBar lot)], by simp⟩)]

/-- The first order of a run is a sale at the price of 100. -/
def sold (cfg : BrokerConfig) (lot quantity : ℚ) : Option Outcome :=
  executeOrder cfg (portalAt (history lot) 0 false) 0 Dict.empty
    (Runner.start cfg Dust.inAndOut).broker.book
    { symbol := Dust.coin, kind := .quantity, value := -quantity }

/-- The exposure is above the limit by more than a lot and its fee. -/
def Exceeds (cfg : BrokerConfig) (lot : ℚ) (out : Outcome) : Prop :=
  (Runner.start cfg Dust.inAndOut).broker.book.totalValue = 10000 ∧
    ∀ fill ∈ out.fill, cfg.leverage * 10000 + lot * (|fill.price| * (1 + cfg.commission)) <
      out.book.grossExposure

instance (cfg : BrokerConfig) (lot : ℚ) (out : Outcome) : Decidable (Exceeds cfg lot out) :=
  inferInstanceAs (Decidable (_ ∧ ∀ fill ∈ out.fill, _))

end Overrun

open Overrun in
/-- A slippage of two sells at a negative price, which no limit holds; a lot below the
tolerance of amounts is less than what the limit lets pass. -/
theorem exposure_exceeds :
    (∃ out, sold (config 2 (by decide)) 1 200 = some out ∧ out.fill.isSome ∧
      Exceeds (config 2 (by decide)) 1 out) ∧
    ∃ out, sold (config 0 le_rfl) (1 / 10 ^ 13) (100 + 1 / 10 ^ 12) = some out ∧ out.fill.isSome ∧
      Exceeds (config 0 le_rfl) (1 / 10 ^ 13) out := by
  constructor
  · exact Runs.exists_of_any (show (sold (config 2 (by decide)) 1 200).any _ = true by
      decide +kernel)
  · exact Runs.exists_of_any
      (show (sold (config 0 le_rfl) (1 / 10 ^ 13) (100 + 1 / 10 ^ 12)).any _ = true by
        decide +kernel)

end AlgoTrade.Backtest
