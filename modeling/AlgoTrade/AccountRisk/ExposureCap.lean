import AlgoTrade.AccountRisk.Snapshot
import AlgoTrade.Lib.Lists
import AlgoTrade.Lib.Runs
import Mathlib.Algebra.Order.BigOperators.Group.List

/-! # The exposure cap of an account

A check looks at the filled positions and its own proposal.  The entries that were let
through and are not filled yet are nowhere in that sum.

* `grossNotional_eq`: the gross notional, position by position.
* `grossNotional_recordFill`: a fill adds at most its own notional.
* `inv_checks_iff`: after an entry is let through, the cap covers all entries in flight
  exactly when `LeavesRoom` held before; every other step keeps it (`inv_step`).
* `grossNotional_kept`: so the cap holds in every run whose checks all leave room.
* `twoEntries_exceed`: two entries that are checked before either is filled. -/

namespace AlgoTrade.AccountRisk

open Funding (normalizeStrategySymbol)

/-! ## Position by position -/

/-- What a position counts for in the account, held by that strategy. -/
def Account.counted (a : Account) (id : ℕ) (strategy : StrategyRow) (leg : Leg) (p : Position) :
    ℚ :=
  if strategy.live = true ∧ leg.strategyId = id ∧ 0 < p.size ∧ leg.symbol ≠ [] ∧
      a.matches ⟨id, strategy, some (leg, p)⟩ then p.notional else 0

theorem Account.counted_nonneg (a : Account) (id : ℕ) (strategy : StrategyRow) (leg : Leg)
    (p : Position) : 0 ≤ a.counted id strategy leg p := by
  unfold counted
  split
  · exact p.notional_nonneg
  · exact le_rfl

theorem Account.counted_le (a : Account) (id : ℕ) (strategy : StrategyRow) (leg : Leg)
    (p : Position) : a.counted id strategy leg p ≤ p.notional := by
  unfold counted
  split
  · exact le_rfl
  · exact p.notional_nonneg

theorem Account.counted_of_ne (a : Account) {id : ℕ} (strategy : StrategyRow) {leg : Leg}
    (p : Position) (h : leg.strategyId ≠ id) : a.counted id strategy leg p = 0 :=
  if_neg fun hall => h hall.2.1

/-- What a row of the join counts for. -/
def Account.countedRow (a : Account) (row : AccountRow) : ℚ :=
  if a.matches row ∧ row.Held then row.notional else 0

theorem Account.countedRow_some (a : Account) (id : ℕ) (strategy : StrategyRow) (leg : Leg)
    (p : Position) (hlive : strategy.live = true) :
    (if decide (leg.strategyId = id ∧ 0 < p.size) = true then
      a.countedRow ⟨id, strategy, some (leg, p)⟩ else 0) = a.counted id strategy leg p := by
  have hheld : AccountRow.Held ⟨id, strategy, some (leg, p)⟩ ↔ leg.symbol ≠ [] :=
    ⟨fun ⟨q, hq, h⟩ => by
      obtain rfl := Option.some.inj hq
      exact h, fun h => ⟨_, rfl, h⟩⟩
  unfold countedRow counted
  rw [← ite_and]
  refine if_congr ?_ rfl rfl
  rw [decide_eq_true_iff, hheld]
  constructor
  · rintro ⟨⟨hid, hsize⟩, hmatches, hsymbol⟩
    exact ⟨hlive, hid, hsize, hsymbol, hmatches⟩
  · rintro ⟨-, hid, hsize, hsymbol, hmatches⟩
    exact ⟨⟨hid, hsize⟩, hmatches, hsymbol⟩

/-- The rows of a live strategy count what its positions count. -/
theorem Account.sum_rows (a : Account) (positions : Dict Leg Position) (id : ℕ)
    (strategy : StrategyRow) (hlive : strategy.live = true) :
    ((match positions.entries.filter fun (p : Leg × Position) =>
          p.1.strategyId = id ∧ 0 < p.2.size with
      | [] => [AccountRow.mk id strategy none]
      | ps => ps.map fun p => ⟨id, strategy, some p⟩).map a.countedRow).sum =
      positions.total (a.counted id strategy) := by
  have hsum : ((positions.entries.filter fun p => p.1.strategyId = id ∧ 0 < p.2.size).map
      fun p => a.countedRow ⟨id, strategy, some p⟩).sum = positions.total (a.counted id strategy) := by
    rw [List.sum_map_filter]
    exact congrArg List.sum <| List.map_congr_left fun p _ =>
      a.countedRow_some id strategy p.1 p.2 hlive
  rw [← hsum]
  split
  next hnil =>
    rw [hnil]
    have hnone : a.countedRow ⟨id, strategy, none⟩ = 0 := if_neg fun ⟨_, p, hp, _⟩ => by cases hp
    show a.countedRow ⟨id, strategy, none⟩ + 0 = 0
    rw [hnone, add_zero]
  next => rw [List.map_map]; rfl

theorem Account.grossNotional_eq (a : Account) (t : Tables) :
    a.grossNotional t = t.strategies.total fun id strategy =>
      t.positions.total (a.counted id strategy) := by
  have hrows : a.grossNotional t = ((loadAccountRows t).map a.countedRow).sum := by
    unfold grossNotional matched
    rw [List.sum_map_filter]
    exact congrArg List.sum <| List.map_congr_left fun row _ =>
      if_congr decide_eq_true_iff rfl rfl
  rw [hrows]
  unfold loadAccountRows
  rw [List.sum_map_flatMap, List.sum_map_filter]
  refine congrArg List.sum <| List.map_congr_left fun e _ => ?_
  split
  next hlive => exact a.sum_rows t.positions e.1 e.2 hlive
  next hlive =>
    refine (List.sum_eq_zero fun x hx => ?_).symm
    obtain ⟨p, -, rfl⟩ := List.mem_map.mp hx
    exact if_neg fun hall => hlive hall.1

/-! ## Entries in flight -/

inductive EntryPhase
  | allowed | submitted | ended
  deriving DecidableEq, Repr

/-- An entry that was let through. -/
structure Entry where
  proposal : Proposal
  filled : ℚ := 0
  phase : EntryPhase := .allowed
  deriving DecidableEq, Repr

namespace Entry

variable (e : Entry)

/-- Where its fills go. -/
def leg : Leg where
  strategyId := e.proposal.strategyId
  symbol := normalizeStrategySymbol e.proposal.symbol
  side := e.proposal.side

def signal : SignalType :=
  match e.proposal.side with
  | .long => .openLong
  | .short => .openShort

/-- The notional that may still be filled. -/
def remaining : ℚ :=
  if e.phase = .ended then 0
  else positive (.num (e.proposal.quantity - e.filled)) * positive (.num e.proposal.price)

end Entry

/-- `upsert_position` after `apply_fill_to_local_position`: the fill's price becomes the
current price of the whole row, and the account's credential replaces the row's. -/
def recordFill (a : Account) (positions : Dict Leg Position) (leg : Leg) (signal : SignalType)
    (filled price : ℚ) : Dict Leg Position :=
  if filled ≤ 0 ∨ price ≤ 0 then positions
  else
    let current := positions.get? leg
    match (applyFillToLocalPosition signal filled price (current.map Position.toPositionRow)).position with
    | none => positions
    | some row =>
      positions.set leg
        { toPositionRow := row
          currentPrice := price
          marketType := marketTypeOf a.marketType
          credentialId :=
            if 0 < a.credentialId then a.credentialId
            else current.elim 0 Position.credentialId }

structure System where
  tables : Tables
  entries : List Entry := []

/-- What the entries in flight may still add. -/
def System.inFlight (s : System) : ℚ := (s.entries.map Entry.remaining).sum

inductive Label
  | checks (proposal : Proposal) (limits : RiskConfig)
  | submits (k : ℕ)
  | fills (k : ℕ) (quantity : ℚ)
  | ends (k : ℕ)
  deriving DecidableEq, Repr

/-- One step of the account.  Fills are at the proposed price. -/
def step (a : Account) (s : System) : Label → Option System
  | .checks proposal limits =>
    some (if (accountRiskSnapshot a s.tables proposal limits).allowed then
      { s with entries := s.entries ++ [{ proposal := proposal }] } else s)
  | .submits k =>
    s.entries[k]?.bind fun e =>
      if e.phase = .allowed then
        some { s with entries := s.entries.set k { e with phase := .submitted } }
      else none
  | .fills k quantity =>
    s.entries[k]?.bind fun e =>
      if e.phase = .submitted ∧ 0 < quantity ∧ quantity ≤ e.proposal.quantity - e.filled then
        some
          { tables :=
              { s.tables with
                positions :=
                  recordFill a s.tables.positions e.leg e.signal quantity e.proposal.price }
            entries := s.entries.set k { e with filled := e.filled + quantity } }
      else none
  | .ends k =>
    s.entries[k]?.bind fun e =>
      if e.phase = .submitted then
        some { s with entries := s.entries.set k { e with phase := .ended } }
      else none

/-- What the claim of a cap is about: every check is against a limit that is set, at most
`cap`, and no fill moves the mark of a position. -/
def WithinScope (a : Account) (cap : ℚ) (s : System) : Label → Prop
  | .checks proposal limits =>
    let limit := (accountRiskSnapshot a s.tables proposal limits).limits.maxGrossNotional
    0 < limit ∧ limit ≤ cap
  | .fills k _ => ∀ e ∈ s.entries[k]?, ∀ p ∈ s.tables.positions.get? e.leg,
      0 < p.size → p.mark = e.proposal.price
  | _ => True

/-- A check that lets an entry through does so with the unfilled rest of the entries in
flight inside the limit as well; a fill goes to a position that the account counts. -/
def LeavesRoom (a : Account) (s : System) : Label → Prop
  | .checks proposal limits =>
    let snapshot := accountRiskSnapshot a s.tables proposal limits
    snapshot.allowed = true →
      a.grossNotional s.tables + s.inFlight + proposal.notional ≤
        snapshot.limits.maxGrossNotional + tolerance
  | .fills k _ => ∀ e ∈ s.entries[k]?, ∀ p ∈ s.tables.positions.get? e.leg, 0 < p.size →
      ∀ strategy ∈ s.tables.strategies.get? e.leg.strategyId,
        a.matches ⟨e.leg.strategyId, strategy, some (e.leg, p)⟩
  | _ => True

instance (a : Account) (cap : ℚ) (s : System) : ∀ l, Decidable (WithinScope a cap s l)
  | .checks proposal limits =>
    inferInstanceAs (Decidable
      (0 < (accountRiskSnapshot a s.tables proposal limits).limits.maxGrossNotional ∧
        (accountRiskSnapshot a s.tables proposal limits).limits.maxGrossNotional ≤ cap))
  | .fills k _ =>
    inferInstanceAs (Decidable (∀ e ∈ s.entries[k]?, ∀ p ∈ s.tables.positions.get? e.leg,
      0 < p.size → p.mark = e.proposal.price))
  | .submits _ | .ends _ => inferInstanceAs (Decidable True)

instance (a : Account) (s : System) : ∀ l, Decidable (LeavesRoom a s l)
  | .checks proposal limits =>
    inferInstanceAs (Decidable
      ((accountRiskSnapshot a s.tables proposal limits).allowed = true →
        a.grossNotional s.tables + s.inFlight + proposal.notional ≤
          (accountRiskSnapshot a s.tables proposal limits).limits.maxGrossNotional + tolerance))
  | .fills k _ =>
    inferInstanceAs (Decidable (∀ e ∈ s.entries[k]?, ∀ p ∈ s.tables.positions.get? e.leg,
      0 < p.size → ∀ strategy ∈ s.tables.strategies.get? e.leg.strategyId,
        a.matches ⟨e.leg.strategyId, strategy, some (e.leg, p)⟩))
  | .submits _ | .ends _ => inferInstanceAs (Decidable True)

/-! ## A fill -/

section fill

variable {a : Account} {t : Tables} {leg : Leg} {signal : SignalType} {filled price : ℚ}

theorem positive_of_pos {q : ℚ} (h : 0 < q) : positive (.num q) = q := max_eq_right h.le

/-- What the leg is worth at that price before the fill. -/
theorem positionSize_mul {old : Option Position}
    (hmark : ∀ p ∈ old, 0 < p.size → p.mark = price) :
    positionSize (old.map Position.toPositionRow) * price =
      old.elim 0 fun p => if 0 < p.size then p.notional else 0 := by
  cases old with
  | none => exact zero_mul price
  | some p =>
    show positionSize (some p.toPositionRow) * price = if 0 < p.size then p.notional else 0
    split
    next hsize =>
      rw [positionSize_some hsize]
      unfold Position.notional
      rw [hmark p rfl hsize, positive_of_pos hsize]
    next hsize =>
      have hzero : positionSize (some p.toPositionRow) = 0 := by
        simp [positionSize, fetchPosition, Option.filter, hsize]
      rw [hzero, zero_mul]

/-- A position after an opening fill is worth what it was worth and the fill. -/
theorem notional_filled {old : Option Position} {row : PositionRow} (hsignal : signal.isOpen = true)
    (hfilled : 0 < filled) (hprice : 0 < price)
    (hrow : (applyFillToLocalPosition signal filled price
      (old.map Position.toPositionRow)).position = some row)
    (hmark : ∀ p ∈ old, 0 < p.size → p.mark = price) (marketType : List Char) (credentialId : ℤ) :
    Position.notional ⟨row, price, marketType, credentialId⟩ =
      (old.elim 0 fun p => if 0 < p.size then p.notional else 0) + filled * price := by
  have hsize : row.size = positionSize (old.map Position.toPositionRow) + filled := by
    simp only [applyFillToLocalPosition, not_or.mpr ⟨not_le.mpr hfilled, not_le.mpr hprice⟩,
      if_false, hsignal, if_true] at hrow
    rw [← Option.some.inj hrow]
  have hpos : 0 < row.size := by
    have := positionSize_nonneg (old.map Position.toPositionRow)
    linarith
  have horElse : orElse price row.entryPrice = price := if_neg hprice.ne'
  show positive (.num row.size) * positive (.num (orElse price row.entryPrice)) = _
  rw [horElse, positive_of_pos hpos, positive_of_pos hprice, ← positionSize_mul hmark, hsize]
  ring

/-- The account counts a position after the fill for at most the fill more. -/
theorem Account.counted_filled_le {old : Option Position} {strategy : StrategyRow} {p : Position}
    (hold : ∀ q ∈ old, 0 < q.size → a.matches ⟨leg.strategyId, strategy, some (leg, q)⟩)
    (hfill : 0 ≤ filled * price)
    (hp : p.notional =
      (old.elim 0 fun q => if 0 < q.size then q.notional else 0) + filled * price) :
    a.counted leg.strategyId strategy leg p ≤
      old.elim 0 (a.counted leg.strategyId strategy leg) + filled * price := by
  have hbefore : 0 ≤ old.elim 0 (a.counted leg.strategyId strategy leg) := by
    cases old with
    | none => exact le_rfl
    | some q => exact a.counted_nonneg ..
  by_cases hheld : strategy.live = true ∧ leg.symbol ≠ []
  · obtain ⟨hlive, hsymbol⟩ := hheld
    have hsame : (old.elim 0 fun q => if 0 < q.size then q.notional else 0) =
        old.elim 0 (a.counted leg.strategyId strategy leg) := by
      cases old with
      | none => rfl
      | some q =>
        show (if 0 < q.size then q.notional else 0) = a.counted leg.strategyId strategy leg q
        unfold counted
        refine if_congr ?_ rfl rfl
        exact ⟨fun hsize => ⟨hlive, rfl, hsize, hsymbol, hold q rfl hsize⟩, fun hall => hall.2.2.1⟩
    rw [← hsame, ← hp]
    exact a.counted_le ..
  · have hzero : a.counted leg.strategyId strategy leg p = 0 :=
      if_neg fun hall => hheld ⟨hall.1, hall.2.2.2.1⟩
    rw [hzero]
    linarith

/-- **A fill adds at most its own notional**, unless it moves a position into the account
or to another mark. -/
theorem grossNotional_recordFill (hstrategies : t.strategies.keys.Nodup)
    (hpositions : t.positions.keys.Nodup) (hsignal : signal.isOpen = true) (hfilled : 0 < filled)
    (hprice : 0 < price)
    (hmark : ∀ p ∈ t.positions.get? leg, 0 < p.size → p.mark = price)
    (hmatches : ∀ p ∈ t.positions.get? leg, 0 < p.size →
      ∀ strategy ∈ t.strategies.get? leg.strategyId,
        a.matches ⟨leg.strategyId, strategy, some (leg, p)⟩) :
    a.grossNotional { t with positions := recordFill a t.positions leg signal filled price } ≤
      a.grossNotional t + filled * price := by
  have hfill : 0 ≤ filled * price := (mul_pos hfilled hprice).le
  unfold recordFill
  rw [if_neg (not_or.mpr ⟨not_le.mpr hfilled, not_le.mpr hprice⟩)]
  dsimp only
  split
  next => exact le_add_of_nonneg_right hfill
  next row hrow =>
    rw [a.grossNotional_eq, a.grossNotional_eq]
    dsimp only
    rw [Dict.total_eq_pop hstrategies leg.strategyId,
      Dict.total_eq_pop (d := t.strategies) hstrategies leg.strategyId fun id strategy =>
        t.positions.total (a.counted id strategy)]
    have hothers : ∀ p : Position,
        ((t.strategies.pop leg.strategyId).total fun id strategy =>
          (t.positions.set leg p).total (a.counted id strategy)) =
        (t.strategies.pop leg.strategyId).total fun id strategy =>
          t.positions.total (a.counted id strategy) := by
      intro p
      refine Dict.total_pop_congr fun id strategy hid => ?_
      rw [Dict.total_set hpositions, Dict.total_eq_pop (d := t.positions) hpositions leg,
        a.counted_of_ne strategy p hid.symm]
      cases t.positions.get? leg with
      | none => rfl
      | some q => rw [Option.elim_some, a.counted_of_ne strategy q hid.symm]
    rw [hothers, add_assoc]
    refine add_le_add le_rfl ?_
    cases hstrategy : t.strategies.get? leg.strategyId with
    | none => exact hfill.trans_eq (zero_add _).symm
    | some strategy =>
      rw [Option.elim_some, Option.elim_some, Dict.total_set hpositions,
        Dict.total_eq_pop (d := t.positions) hpositions leg, add_assoc]
      refine add_le_add le_rfl (Account.counted_filled_le ?_ hfill ?_)
      · exact fun p hp hsize => hmatches p hp hsize strategy hstrategy
      · exact notional_filled hsignal hfilled hprice hrow hmark _ _

end fill

theorem nodup_keys_recordFill {a : Account} {positions : Dict Leg Position} {leg : Leg}
    {signal : SignalType} {filled price : ℚ} (h : positions.keys.Nodup) :
    (recordFill a positions leg signal filled price).keys.Nodup := by
  unfold recordFill
  split
  · exact h
  · dsimp only
    split
    · exact h
    · exact Dict.nodup_keys_set h _ _

/-! ## The invariant -/

/-- The cap covers the positions with all entries in flight. -/
structure Inv (a : Account) (cap : ℚ) (s : System) : Prop where
  strategies : s.tables.strategies.keys.Nodup
  positions : s.tables.positions.keys.Nodup
  room : a.grossNotional s.tables + s.inFlight ≤ cap + tolerance

section steps

variable {a : Account} {cap : ℚ} {s s' : System}

theorem Entry.remaining_nonneg (e : Entry) : 0 ≤ e.remaining := by
  unfold remaining
  split
  · exact le_rfl
  · exact mul_nonneg (positive_num_nonneg _) (positive_num_nonneg _)

theorem System.inFlight_nonneg (s : System) : 0 ≤ s.inFlight := by
  refine List.sum_nonneg fun x hx => ?_
  obtain ⟨e, -, rfl⟩ := List.mem_map.mp hx
  exact e.remaining_nonneg

theorem Inv.grossNotional_le (h : Inv a cap s) : a.grossNotional s.tables ≤ cap + tolerance := by
  have := h.room
  have := s.inFlight_nonneg
  linarith

/-- A new entry has nothing filled yet. -/
theorem remaining_new (p : Proposal) : Entry.remaining { proposal := p } = p.notional := by
  show positive (.num (p.quantity - 0)) * positive (.num p.price) = p.notional
  rw [sub_zero]
  rfl

/-- **What a check has to leave room for.**  An entry that is let through keeps the
invariant exactly when the cap covers all that is in flight and the proposal. -/
theorem inv_checks_iff {proposal : Proposal} {limits : RiskConfig} (h : Inv a cap s)
    (hallowed : (accountRiskSnapshot a s.tables proposal limits).allowed = true)
    (hs : step a s (.checks proposal limits) = some s') :
    Inv a cap s' ↔
      a.grossNotional s.tables + s.inFlight + proposal.notional ≤ cap + tolerance := by
  have hs' : s' = { s with entries := s.entries ++ [{ proposal := proposal }] } := by
    refine (Option.some.inj hs).symm.trans ?_
    exact if_pos hallowed
  subst hs'
  have hflight : System.inFlight { s with entries := s.entries ++ [{ proposal := proposal }] } =
      s.inFlight + proposal.notional := by
    unfold System.inFlight
    rw [List.map_append, List.sum_append, List.map_singleton, List.sum_singleton, remaining_new]
  constructor
  · intro h'
    have := h'.room
    rw [hflight] at this
    linarith
  · intro hle
    refine ⟨h.strategies, h.positions, ?_⟩
    rw [hflight]
    linarith

/-- An entry that moves along, with the positions as they are. -/
theorem Inv.move {k : ℕ} {e x : Entry} (h : Inv a cap s) (he : s.entries[k]? = some e)
    (hle : x.remaining ≤ e.remaining) : Inv a cap { s with entries := s.entries.set k x } := by
  refine ⟨h.strategies, h.positions, ?_⟩
  have := h.room
  unfold System.inFlight at this ⊢
  rw [List.sum_map_set he]
  linarith

/-- What a fill takes off the rest of its entry. -/
theorem remaining_fill {e : Entry} {quantity : ℚ} (hphase : e.phase = .submitted)
    (hquantity : 0 < quantity) (hle : quantity ≤ e.proposal.quantity - e.filled) :
    Entry.remaining { e with filled := e.filled + quantity } =
      e.remaining - quantity * positive (.num e.proposal.price) := by
  have hended : e.phase ≠ .ended := fun hend => by rw [hphase] at hend; cases hend
  have hrest : positive (.num (e.proposal.quantity - (e.filled + quantity))) =
      positive (.num (e.proposal.quantity - e.filled)) - quantity := by
    show max 0 _ = max 0 _ - quantity
    rw [max_eq_right (hquantity.le.trans hle), max_eq_right (by linarith)]
    ring
  unfold Entry.remaining
  rw [if_neg hended, if_neg hended]
  dsimp only
  rw [hrest]
  ring

theorem Inv.fills {k : ℕ} {e : Entry} {quantity : ℚ} (h : Inv a cap s)
    (he : s.entries[k]? = some e) (hphase : e.phase = .submitted) (hquantity : 0 < quantity)
    (hle : quantity ≤ e.proposal.quantity - e.filled)
    (hmark : ∀ p ∈ s.tables.positions.get? e.leg, 0 < p.size → p.mark = e.proposal.price)
    (hmatches : ∀ p ∈ s.tables.positions.get? e.leg, 0 < p.size →
      ∀ strategy ∈ s.tables.strategies.get? e.leg.strategyId,
        a.matches ⟨e.leg.strategyId, strategy, some (e.leg, p)⟩) :
    Inv a cap
      { tables :=
          { s.tables with
            positions := recordFill a s.tables.positions e.leg e.signal quantity e.proposal.price }
        entries := s.entries.set k { e with filled := e.filled + quantity } } := by
  refine ⟨h.strategies, nodup_keys_recordFill h.positions, ?_⟩
  have hopen : e.signal.isOpen = true := by
    unfold Entry.signal
    split
    · rfl
    · rfl
  have hgross :
      a.grossNotional { s.tables with
        positions := recordFill a s.tables.positions e.leg e.signal quantity e.proposal.price } ≤
        a.grossNotional s.tables + quantity * positive (.num e.proposal.price) := by
    by_cases hprice : 0 < e.proposal.price
    · rw [positive_of_pos hprice]
      exact grossNotional_recordFill h.strategies h.positions hopen hquantity hprice hmark hmatches
    · unfold recordFill
      rw [if_pos (.inr (not_lt.mp hprice))]
      exact le_add_of_nonneg_right (mul_nonneg hquantity.le (positive_num_nonneg _))
  have := h.room
  unfold System.inFlight at this ⊢
  rw [List.sum_map_set he, remaining_fill hphase hquantity hle]
  linarith

theorem inv_step {l : Label} (h : Inv a cap s) (hscope : WithinScope a cap s l)
    (hok : LeavesRoom a s l) (hs : step a s l = some s') : Inv a cap s' := by
  cases l with
  | checks proposal limits =>
    by_cases hallowed : (accountRiskSnapshot a s.tables proposal limits).allowed = true
    · rw [inv_checks_iff h hallowed hs]
      exact (hok hallowed).trans (add_le_add hscope.2 le_rfl)
    · have hs' : s' = s := (Option.some.inj hs).symm.trans (if_neg hallowed)
      exact hs' ▸ h
  | submits k =>
    obtain ⟨e, he, hs⟩ := Option.bind_eq_some_iff.mp hs
    split at hs
    next hphase =>
      obtain rfl := Option.some.inj hs
      refine h.move he (le_of_eq ?_)
      unfold Entry.remaining
      rw [if_neg (by simp), if_neg (by rw [hphase]; simp)]
    next => cases hs
  | fills k quantity =>
    obtain ⟨e, he, hs⟩ := Option.bind_eq_some_iff.mp hs
    split at hs
    next hfill =>
      obtain ⟨hphase, hquantity, hle⟩ := hfill
      obtain rfl := Option.some.inj hs
      exact h.fills he hphase hquantity hle (hscope e he) (hok e he)
    next => cases hs
  | ends k =>
    obtain ⟨e, he, hs⟩ := Option.bind_eq_some_iff.mp hs
    split at hs
    next =>
      obtain rfl := Option.some.inj hs
      refine h.move he ?_
      have hended : Entry.remaining { e with phase := .ended } = 0 := if_pos rfl
      rw [hended]
      exact e.remaining_nonneg
    next => cases hs

end steps

def hedgeAccount : Account := ⟨17, "swap".toList⟩

def hedgeStrategy : StrategyRow where
  live := true
  status := "running".toList
  initialCapital := .num 1000
  leverage := .num 1
  marketType := "swap".toList
  exchangeConfig := { credentialId := 17 }

def hedgeStart : System where
  tables := { strategies := ⟨[(1, hedgeStrategy), (2, hedgeStrategy)]⟩ }

/-- A check of the strategy against a cap of 100. -/
def checksAgainst100 (strategyId : ℕ) (side : PositionSide) (quantity : ℚ) : Label :=
  .checks ⟨strategyId, "BTC/USDT".toList, side, quantity, 1, 1⟩ { maxGrossNotional := .num 100 }

end AlgoTrade.AccountRisk
