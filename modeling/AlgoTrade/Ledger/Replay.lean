import AlgoTrade.Funding.Reconciliation
import AlgoTrade.Ledger.FillRecords
import AlgoTrade.Lib.Runs
import AlgoTrade.Lib.Text

/-! # Positions rebuilt from trades

The position rows of a strategy by symbol and side, kept live by
`persist_strategy_fill`, and `rebuild_positions_from_trades`, which replays the trade
rows.  Both write through `apply_fill_to_local_position`.

* `Agree`: replay and live rows have the same sizes and entry prices.
* `applyFill_canonical`: a symbol and its canonical form work the same row.
* `agree_of_matches`: in every run in which a trade row works what the fill worked.
* `baseFee_differs`: a fee in the base currency is in the position only. -/

namespace AlgoTrade.Replay

open Funding (normalizeStrategySymbol strip upper without storedDecimal storedDecimal_div storedDecimal_add
  storedDecimal_sub storedDecimal_storedDecimal)

/-! ## Positions -/

abbrev Symbol := List Char

inductive Side
  | long | short
  deriving DecidableEq, Repr

def sideOf (signal : SignalType) : Side := if signal.isLong then .long else .short

/-- The rows of `qd_strategy_positions` of one strategy. -/
abbrev Positions := Dict (Symbol × Side) PositionRow

/-- `_position_symbol_candidates`; a repeated one changes nothing. -/
def positionSymbolCandidates (symbol : Symbol) : List Symbol :=
  let raw := strip symbol
  if raw = [] then []
  else
    let norm := normalizeStrategySymbol raw
    [raw, upper raw, norm, without ['/'] norm, without ['/', '-'] (upper raw)].filter (· ≠ [])

/-- The symbol a row is written under. -/
def writeSymbol (symbol : Symbol) : Symbol :=
  if normalizeStrategySymbol symbol = [] then strip symbol else normalizeStrategySymbol symbol

/-- `_fetch_position_fuzzy`. -/
def fetchPositionFuzzy (t : Positions) (symbol : Symbol) (side : Side) : Option PositionRow :=
  (positionSymbolCandidates symbol).findSome? fun c => fetchPosition (t.get? (c, side))

def stored (r : PositionRow) : PositionRow where
  size := storedDecimal 8 r.size
  entryPrice := storedDecimal 8 r.entryPrice
  highestPrice := storedDecimal 8 r.highestPrice
  lowestPrice := storedDecimal 8 r.lowestPrice

/-- `_purge_position_symbol_duplicates`. -/
def purgeDuplicates (t : Positions) (side : Side) (canonical : Symbol) : Positions where
  entries := t.entries.filter fun e => ¬ (e.1.2 = side ∧ strip e.1.1 ≠ [] ∧
    strip e.1.1 ≠ canonical ∧ normalizeStrategySymbol (strip e.1.1) = canonical)

/-- `upsert_position`; marks that are not positive keep the old ones. -/
def upsertPosition (t : Positions) (symbol : Symbol) (side : Side) (row : PositionRow) :
    Positions :=
  let key := (writeSymbol symbol, side)
  let row := stored row
  let row := match t.get? key with
    | none => row
    | some old =>
      { row with
        highestPrice := if 0 < row.highestPrice then row.highestPrice else old.highestPrice
        lowestPrice := if 0 < row.lowestPrice then row.lowestPrice else old.lowestPrice }
  purgeDuplicates (t.set key row) side (writeSymbol symbol)

/-- `_delete_position`. -/
def deletePosition (t : Positions) (symbol : Symbol) (side : Side) : Positions :=
  (positionSymbolCandidates symbol).foldl (fun t c => t.pop (c, side)) t

/-- `apply_fill_to_local_position` on the table. -/
def applyFill (t : Positions) (symbol : Symbol) (signal : SignalType) (filled avgPrice : ℚ) :
    Positions :=
  if filled ≤ 0 ∨ avgPrice ≤ 0 then t
  else
    let row := fetchPositionFuzzy t symbol (sideOf signal)
    match (applyFillToLocalPosition signal filled avgPrice row).position with
    | some row => upsertPosition t (writeSymbol symbol) (sideOf signal) row
    | none => deletePosition t (writeSymbol symbol) (sideOf signal)

/-! ## Trades -/

/-- The columns of `qd_strategy_trades` a replay reads, and the event's id. -/
structure Trade where
  symbol : Symbol
  type : SignalType
  amount : ℚ
  price : ℚ
  executionEventId : ℕ
  deriving DecidableEq, Repr

/-- The positions and the trades of a strategy. -/
structure Books where
  positions : Positions := {}
  trades : List Trade := []
  deriving DecidableEq, Repr

/-- A trade row of the event is there. -/
def hasEvent (trades : List Trade) (id : ℕ) : Bool :=
  0 < id ∧ trades.any fun tr => tr.executionEventId = id

/-- `record_trade`. -/
def recordTrade (trades : List Trade) (symbol : Symbol) (f : StrategyFill) : List Trade :=
  if hasEvent trades f.executionEventId then trades
  else trades ++ [{
    symbol := writeSymbol symbol
    type := f.signal
    amount := storedDecimal 8 f.filled
    price := storedDecimal 8 f.avgPrice
    executionEventId := f.executionEventId }]

/-- `persist_strategy_fill`. -/
def persistStrategyFill (b : Books) (symbol : Symbol) (f : StrategyFill) : Books :=
  if |f.filled| ≤ fillEpsilon then b
  else
    { positions := applyFill b.positions symbol f.signal f.positionQty f.avgPrice
      trades := recordTrade b.trades symbol f }

/-- One trade of the replay. -/
def replay (t : Positions) (tr : Trade) : Positions :=
  let symbol := normalizeStrategySymbol tr.symbol
  applyFill t (if symbol = [] then tr.symbol else symbol) tr.type tr.amount tr.price

/-- `rebuild_positions_from_trades`, from no positions. -/
def rebuildPositionsFromTrades (trades : List Trade) : Positions := trades.foldl replay {}

/-! ## The law -/

def sizeAndEntry (t : Positions) (symbol : Symbol) (side : Side) : Option (ℚ × ℚ) :=
  (t.get? (symbol, side)).map fun r => (r.size, r.entryPrice)

def Agree (b : Books) : Prop := ∀ symbol side,
  sizeAndEntry (rebuildPositionsFromTrades b.trades) symbol side = sizeAndEntry b.positions symbol side

abbrev Fill := Symbol × StrategyFill

def step (b : Books) (f : Fill) : Option Books := some (persistStrategyFill b f.1 f.2)

/-- The quantity and price a row takes. -/
def worked (filled avgPrice : ℚ) : Option (ℚ × ℚ) :=
  if filled ≤ 0 ∨ avgPrice ≤ 0 then none else some (filled, avgPrice)

/-- What the live row takes of a fill. -/
def live (f : StrategyFill) : Option (ℚ × ℚ) := worked f.positionQty f.avgPrice

/-- What the replay takes of its trade row. -/
def booked (trades : List Trade) (f : StrategyFill) : Option (ℚ × ℚ) :=
  if hasEvent trades f.executionEventId then none
  else worked (storedDecimal 8 f.filled) (storedDecimal 8 f.avgPrice)

/-- A symbol whose canonical form is canonical. -/
def WellFormed (symbol : Symbol) : Prop :=
  normalizeStrategySymbol symbol ≠ [] ∧
    normalizeStrategySymbol (normalizeStrategySymbol symbol) = normalizeStrategySymbol symbol

/-- The trade row takes what the live row takes, or both close all there is. -/
def Matches (b : Books) (f : Fill) : Prop :=
  |f.2.filled| ≤ fillEpsilon ∨ WellFormed f.1 ∧ (live f.2 = booked b.trades f.2 ∨
    f.2.signal.isOpen = false ∧
      let held := positionSize (fetchPositionFuzzy b.positions f.1 (sideOf f.2.signal))
      held ≤ ((live f.2).map Prod.fst).getD 0 ∧
        held ≤ ((booked b.trades f.2).map Prod.fst).getD 0)

instance (symbol : Symbol) : Decidable (WellFormed symbol) := inferInstanceAs (Decidable (_ ∧ _))

instance (b : Books) (f : Fill) : Decidable (Matches b f) := inferInstanceAs (Decidable (_ ∨ _))

/-! ## Symbols -/

/-- A small letter, or nothing changes. -/
theorem toUpper_cases (c : Char) :
    c.toUpper = c ∨ 97 ≤ c.toNat ∧ c.toNat ≤ 122 ∧ c.toUpper.toNat = c.toNat - 32 := by
  unfold Char.toUpper
  split
  next h =>
    have hlow : 97 ≤ c.toNat := UInt32.le_iff_toNat_le.mp h.1
    have hhigh : c.toNat ≤ 122 := UInt32.le_iff_toNat_le.mp h.2
    refine .inr ⟨hlow, hhigh, ?_⟩
    show (c.val + ('A'.val - 'a'.val)).toNat = _
    rw [UInt32.toNat_add]
    change (c.toNat + 4294967264) % 2 ^ 32 = _
    omega
  next => exact .inl rfl

theorem isWhitespace_toUpper (c : Char) : c.toUpper.isWhitespace = c.isWhitespace := by
  have hsmall : ∀ d : Char, 33 ≤ d.toNat → d.isWhitespace = false := by
    intro d hd
    by_contra hspace
    have hspace := (Bool.not_eq_false _).mp hspace
    simp only [Char.isWhitespace, Bool.or_eq_true, decide_eq_true_eq] at hspace
    rcases hspace with ((rfl | rfl) | rfl) | rfl <;> revert hd <;> decide
  rcases toUpper_cases c with h | ⟨hlow, hhigh, h⟩
  · rw [h]
  · rw [hsmall c (by omega), hsmall c.toUpper (by omega)]

theorem toUpper_toUpper (c : Char) : c.toUpper.toUpper = c.toUpper := by
  rcases toUpper_cases c.toUpper with h | ⟨hlow, -⟩
  · exact h
  · rcases toUpper_cases c with h | ⟨-, hhigh, h⟩
    · rw [h, h]
    · omega

theorem strip_strip (s : Symbol) : strip (strip s) = strip s := by
  have hstrip : ∀ t : Symbol, strip t = (t.dropWhile Char.isWhitespace).rdropWhile
      Char.isWhitespace := fun _ => rfl
  rw [hstrip (strip s), hstrip s, Text.dropWhile_rdropWhile, List.rdropWhile_idempotent]

theorem dropWhile_upper (s : Symbol) :
    (upper s).dropWhile Char.isWhitespace = upper (s.dropWhile Char.isWhitespace) := by
  unfold upper
  rw [List.dropWhile_map]
  congr 2
  funext c
  exact isWhitespace_toUpper c

theorem strip_upper (s : Symbol) : strip (upper s) = upper (strip s) := by
  unfold strip
  rw [dropWhile_upper]
  have hreverse : ∀ t : Symbol, (upper t).reverse = upper t.reverse := fun t =>
    (List.map_reverse ..).symm
  rw [hreverse, dropWhile_upper, hreverse]

theorem upper_upper (s : Symbol) : upper (upper s) = upper s := by
  rw [upper, upper, List.map_map]
  exact List.map_congr_left fun c _ => toUpper_toUpper c

theorem normalize_strip (s : Symbol) :
    normalizeStrategySymbol (strip s) = normalizeStrategySymbol s := by
  unfold normalizeStrategySymbol
  rw [strip_strip]

theorem normalize_upper_strip (s : Symbol) :
    normalizeStrategySymbol (upper (strip s)) = normalizeStrategySymbol s := by
  unfold normalizeStrategySymbol
  rw [strip_upper, strip_strip, upper_upper]

theorem without_without (s : Symbol) : without ['/'] (without ['-'] s) = without ['/', '-'] s := by
  unfold without
  rw [List.filter_filter]
  congr 1
  funext c
  simp [not_or]

/-- The compact form, computed either way. -/
theorem without_normalize (s : Symbol) :
    without ['/'] (normalizeStrategySymbol s) = without ['/', '-'] (upper (strip s)) := by
  rw [← without_without]
  unfold normalizeStrategySymbol
  dsimp only
  split
  · rfl
  next hslash =>
    split
    next quote hquote =>
      have hsuffix := List.find?_some hquote
      simp only [decide_eq_true_eq] at hsuffix
      obtain ⟨start, hstart⟩ := hsuffix.1
      have htake : (without ['-'] (upper (strip s))).take
          ((without ['-'] (upper (strip s))).length - quote.length) = start := by
        rw [← hstart, List.length_append, Nat.add_sub_cancel, List.take_left]
      rw [htake]
      unfold without at hstart ⊢
      rw [List.filter_append, List.filter_cons_of_neg (by simp), ← List.filter_append, hstart]
    · rfl

/-! ## Tables -/

/-- Rows stand under canonical symbols and hold what a column can. -/
def Tidy (t : Positions) : Prop := ∀ e ∈ t.entries,
  (e.1.1 ≠ [] ∧ normalizeStrategySymbol e.1.1 = e.1.1) ∧
    0 < e.2.size ∧ storedDecimal 8 e.2.size = e.2.size

section
variable {t : Positions} {symbol : Symbol} {side : Side} {signal : SignalType} {q p : ℚ}

theorem Tidy.fetch (ht : Tidy t) (key : Symbol × Side) :
    fetchPosition (t.get? key) = t.get? key := by
  cases h : t.get? key with
  | none => rfl
  | some r =>
    exact Option.filter_eq_some_iff.mpr
      ⟨rfl, decide_eq_true (ht _ (Dict.mem_entries_of_get? h)).2.1⟩

/-- A row that is found stands under its own canonical symbol. -/
theorem Tidy.canonical (ht : Tidy t) {c : Symbol} {r : PositionRow}
    (h : t.get? (c, side) = some r) : c ≠ [] ∧ normalizeStrategySymbol c = c :=
  (ht _ (Dict.mem_entries_of_get? h)).1

theorem findSome?_filter_ne_nil {β : Type*} {g : Symbol → Option β} (hg : g [] = none)
    (l : List Symbol) : (l.filter (· ≠ [])).findSome? g = l.findSome? g := by
  induction l with
  | nil => rfl
  | cons c l ih =>
    by_cases hc : c = []
    · subst hc
      rw [List.filter_cons_of_neg (by simp), ih, List.findSome?_cons, hg]
    · rw [List.filter_cons_of_pos (by simpa using hc), List.findSome?_cons, List.findSome?_cons, ih]

/-- Of five candidates, the first two find nothing else. -/
theorem findSome?_candidates {β : Type*} {g : Symbol → Option β} {a b n c : Symbol}
    (ha : g a = none ∨ a = n) (hb : g b = none ∨ b = n) :
    [a, b, n, c, c].findSome? g = (g n).or (g c) := by
  simp only [List.findSome?_cons, List.findSome?_nil]
  rcases ha with ha | rfl
  · rcases hb with hb | rfl
    · rw [ha, hb]
      cases g n <;> cases g c <;> rfl
    · rw [ha]
      cases g b <;> cases g c <;> rfl
  · rcases hb with hb | rfl
    · rw [hb]
      cases g a <;> cases g c <;> rfl
    · cases g b <;> cases g c <;> rfl

theorem strip_ne_nil (h : normalizeStrategySymbol symbol ≠ []) : strip symbol ≠ [] := by
  intro hnil
  rw [← normalize_strip, hnil] at h
  exact h rfl

theorem writeSymbol_eq (h : normalizeStrategySymbol symbol ≠ []) :
    writeSymbol symbol = normalizeStrategySymbol symbol := if_neg h

/-- **A lookup** finds the row of the canonical symbol, or that of its compact form. -/
theorem Tidy.fetchPositionFuzzy (ht : Tidy t) (hne : normalizeStrategySymbol symbol ≠ []) :
    fetchPositionFuzzy t symbol side =
      (t.get? (normalizeStrategySymbol symbol, side)).or
        (t.get? (without ['/'] (normalizeStrategySymbol symbol), side)) := by
  have hnil : t.get? (([] : Symbol), side) = none := by
    cases h : t.get? (([] : Symbol), side) with
    | none => rfl
    | some r => exact absurd rfl (ht.canonical h).1
  have hother : ∀ c, normalizeStrategySymbol c = normalizeStrategySymbol symbol →
      t.get? (c, side) = none ∨ c = normalizeStrategySymbol symbol := by
    intro c hc
    cases h : t.get? (c, side) with
    | none => exact .inl rfl
    | some r => exact .inr ((ht.canonical h).2.symm.trans hc)
  unfold Replay.fetchPositionFuzzy positionSymbolCandidates
  dsimp only
  rw [if_neg (strip_ne_nil hne)]
  simp only [ht.fetch]
  rw [findSome?_filter_ne_nil hnil, normalize_strip, ← without_normalize]
  exact findSome?_candidates (hother _ (normalize_strip symbol))
    (hother _ (normalize_upper_strip symbol))

/-- Every candidate has the symbol's canonical form, or is its compact form. -/
theorem mem_candidates (hfix : normalizeStrategySymbol symbol = symbol) {c : Symbol}
    (hc : c ∈ positionSymbolCandidates symbol) :
    normalizeStrategySymbol c = symbol ∨ c = without ['/'] symbol := by
  unfold positionSymbolCandidates at hc
  dsimp only at hc
  split at hc
  · cases hc
  · rw [normalize_strip, ← without_normalize, hfix] at hc
    have hc := (List.mem_filter.mp hc).1
    simp only [List.mem_cons, List.not_mem_nil, or_false] at hc
    rcases hc with rfl | rfl | rfl | rfl | rfl
    · exact .inl ((normalize_strip symbol).trans hfix)
    · exact .inl ((normalize_upper_strip symbol).trans hfix)
    · exact .inl hfix
    · exact .inr rfl
    · exact .inr rfl

theorem pop_of_get?_eq_none {key : Symbol × Side} (h : t.get? key = none) : t.pop key = t := by
  have hkey := Dict.get?_eq_none_iff.mp h
  unfold Dict.pop
  congr 1
  rw [List.filter_eq_self]
  intro e he
  exact decide_eq_true fun heq => hkey (heq ▸ List.mem_map_of_mem he)

/-- Nothing is deleted where nothing is found. -/
theorem Tidy.deletePosition (ht : Tidy t) (hfix : normalizeStrategySymbol symbol = symbol)
    (hne : symbol ≠ []) (hnone : Replay.fetchPositionFuzzy t symbol side = none) :
    deletePosition t symbol side = t := by
  rw [ht.fetchPositionFuzzy (hfix.symm ▸ hne), hfix, Option.or_eq_none_iff] at hnone
  have hpop : ∀ c ∈ positionSymbolCandidates symbol, t.pop (c, side) = t := by
    intro c hc
    refine pop_of_get?_eq_none ?_
    cases h : t.get? (c, side) with
    | none => rfl
    | some r =>
      rcases mem_candidates hfix hc with hsame | rfl
      · rw [(ht.canonical h).2] at hsame
        rw [← h, hsame, hnone.1]
      · rw [← h, hnone.2]
  unfold Replay.deletePosition
  generalize positionSymbolCandidates symbol = l at hpop
  induction l with
  | nil => rfl
  | cons c l ih =>
    rw [List.foldl_cons, hpop c List.mem_cons_self]
    exact ih fun c' hc' => hpop c' (List.mem_cons_of_mem _ hc')

/-- **A symbol and its canonical form** work the same rows. -/
theorem applyFill_canonical (ht : Tidy t) (hw : WellFormed symbol) :
    applyFill t (normalizeStrategySymbol symbol) signal q p = applyFill t symbol signal q p := by
  obtain ⟨hne, hfix⟩ := hw
  have hwrite : writeSymbol (normalizeStrategySymbol symbol) = writeSymbol symbol := by
    rw [writeSymbol_eq hne, writeSymbol_eq (hfix.symm ▸ hne), hfix]
  unfold applyFill
  rw [ht.fetchPositionFuzzy hne, ht.fetchPositionFuzzy (hfix.symm ▸ hne), hfix, hwrite]

/-- A fill of no less than what is held closes it. -/
theorem applyFill_closes (ht : Tidy t) (hw : WellFormed symbol) (hopen : signal.isOpen = false)
    (hheld : positionSize (fetchPositionFuzzy t symbol (sideOf signal)) ≤
      ((worked q p).map Prod.fst).getD 0) :
    applyFill t symbol signal q p =
      deletePosition t (normalizeStrategySymbol symbol) (sideOf signal) := by
  obtain ⟨hne, hfix⟩ := hw
  unfold worked at hheld
  unfold applyFill
  split
  next hnone =>
    rw [if_pos hnone] at hheld
    refine (ht.deletePosition hfix hne ?_).symm
    have hsame : fetchPositionFuzzy t (normalizeStrategySymbol symbol) (sideOf signal) =
        fetchPositionFuzzy t symbol (sideOf signal) := by
      rw [ht.fetchPositionFuzzy hne, ht.fetchPositionFuzzy (hfix.symm ▸ hne), hfix]
    rw [hsame]
    cases h : fetchPositionFuzzy t symbol (sideOf signal) with
    | none => rfl
    | some r =>
      have hpos : 0 < r.size := by
        rw [ht.fetchPositionFuzzy hne] at h
        rcases Option.or_eq_some_iff.mp h with h | ⟨-, h⟩
        · exact (ht _ (Dict.mem_entries_of_get? h)).2.1
        · exact (ht _ (Dict.mem_entries_of_get? h)).2.1
      rw [h, positionSize_some hpos] at hheld
      exact absurd hpos (not_lt.mpr hheld)
  next hsome =>
    rw [if_neg hsome] at hheld
    dsimp only
    have hclosed : (applyFillToLocalPosition signal q p
        (fetchPositionFuzzy t symbol (sideOf signal))).position = none := by
      unfold applyFillToLocalPosition
      rw [if_neg hsome]
      simp only [hopen, Bool.false_eq_true, if_false]
      exact if_pos (sub_nonpos.mpr hheld)
    rw [hclosed, writeSymbol_eq hne]

/-! ## What is kept -/

theorem mem_entries_set {key : Symbol × Side} {r : PositionRow} {e : (Symbol × Side) × PositionRow}
    (he : e ∈ (t.set key r).entries) : e = (key, r) ∨ e ∈ t.entries := by
  unfold Dict.set at he
  dsimp only at he
  split at he
  · obtain ⟨e', he', heq⟩ := List.mem_map.mp he
    split at heq
    · exact .inl heq.symm
    · exact .inr (heq ▸ he')
  · rcases List.mem_append.mp he with he | he
    · exact .inr he
    · exact .inl (List.mem_singleton.mp he)

theorem Tidy.delete (ht : Tidy t) (symbol : Symbol) (side : Side) :
    Tidy (Replay.deletePosition t symbol side) := by
  unfold Replay.deletePosition
  generalize positionSymbolCandidates symbol = l
  induction l generalizing t with
  | nil => exact ht
  | cons c l ih => exact ih fun e he => ht e (List.mem_filter.mp he).1

/-- The row a fill leaves has a size that a column holds. -/
theorem size_position {row : Option PositionRow} {r : PositionRow}
    (hrow : ∀ r ∈ row, storedDecimal 8 r.size = r.size) (hq : storedDecimal 8 q = q)
    (hsome : ¬ (q ≤ 0 ∨ p ≤ 0))
    (h : (applyFillToLocalPosition signal q p row).position = some r) :
    0 < r.size ∧ storedDecimal 8 r.size = r.size := by
  have hheld : storedDecimal 8 (positionSize row) = positionSize row := by
    unfold positionSize
    split
    · simpa using storedDecimal_div 0
    next r' hr' => exact hrow r' (Option.filter_eq_some_iff.mp hr').1
  unfold applyFillToLocalPosition at h
  rw [if_neg hsome] at h
  dsimp only at h
  split at h
  · obtain rfl := Option.some.inj h
    have := positionSize_nonneg row
    exact ⟨add_pos_of_nonneg_of_pos this (not_le.mp (not_or.mp hsome).1),
      storedDecimal_add hheld hq⟩
  · dsimp only at h
    split at h
    · cases h
    next hleft =>
      obtain rfl := Option.some.inj h
      exact ⟨not_le.mp hleft, storedDecimal_sub hheld hq⟩

theorem Tidy.applyFill (ht : Tidy t) (hw : WellFormed symbol) (hq : storedDecimal 8 q = q) :
    Tidy (Replay.applyFill t symbol signal q p) := by
  obtain ⟨hne, hfix⟩ := hw
  unfold Replay.applyFill
  split
  · exact ht
  next hsome =>
    dsimp only
    split
    next r hr =>
      have hsize := size_position (fun r hr => by
        rw [ht.fetchPositionFuzzy hne] at hr
        rcases Option.or_eq_some_iff.mp hr with h | ⟨-, h⟩
        · exact (ht _ (Dict.mem_entries_of_get? h)).2.2
        · exact (ht _ (Dict.mem_entries_of_get? h)).2.2) hq hsome hr
      have hkey : writeSymbol (writeSymbol symbol) = normalizeStrategySymbol symbol := by
        rw [writeSymbol_eq hne, writeSymbol_eq (hfix.symm ▸ hne), hfix]
      intro e he
      have he := (List.mem_filter.mp he).1
      rw [hkey] at he
      rcases mem_entries_set he with rfl | he
      · refine ⟨⟨hne, hfix⟩, ?_⟩
        have hstored : storedDecimal 8 r.size = r.size := hsize.2
        split
        · show 0 < storedDecimal 8 r.size ∧
            storedDecimal 8 (storedDecimal 8 r.size) = storedDecimal 8 r.size
          rw [hstored]
          exact hsize
        · show 0 < storedDecimal 8 r.size ∧
            storedDecimal 8 (storedDecimal 8 r.size) = storedDecimal 8 r.size
          rw [hstored]
          exact hsize
      · exact ht e he
    · exact ht.delete _ _

end

/-! ## Runs -/

/-- The live rows are those of the replay. -/
structure Inv (b : Books) : Prop where
  same : b.positions = rebuildPositionsFromTrades b.trades
  tidy : Tidy b.positions

theorem Inv.agree {b : Books} (h : Inv b) : Agree b := fun _ _ => by rw [h.same]

/-- A fill that is worked works the same from the trade row. -/
theorem applyFill_eq_of_worked {t : Positions} {symbol : Symbol} {signal : SignalType} {q p q' p' : ℚ}
    (h : worked q p = worked q' p') :
    applyFill t symbol signal q p = applyFill t symbol signal q' p' := by
  unfold worked at h
  split at h
  next hnone =>
    split at h
    next hnone' => rw [applyFill, if_pos hnone, applyFill, if_pos hnone']
    next => cases h
  next =>
    split at h
    next => cases h
    next =>
      obtain ⟨rfl, rfl⟩ := Prod.mk.inj (Option.some.inj h)
      rfl

theorem applyFill_of_worked_none {t : Positions} {symbol : Symbol} {signal : SignalType} {q p : ℚ}
    (h : worked q p = none) : applyFill t symbol signal q p = t := by
  unfold worked at h
  split at h
  next hnone => rw [applyFill, if_pos hnone]
  next => cases h

/-- **A fill** keeps replay and live rows equal when its trade row works the same. -/
theorem Inv.persist {b : Books} (h : Inv b) {f : Fill} (hmatch : Matches b f) :
    Inv (persistStrategyFill b f.1 f.2) := by
  obtain ⟨symbol, f⟩ := f
  unfold persistStrategyFill
  split
  · exact h
  next hlarge =>
    obtain ⟨hw, hmatch⟩ := hmatch.resolve_left hlarge
    have hreplay : ∀ tr : Trade, tr.symbol = normalizeStrategySymbol symbol →
        replay b.positions tr = applyFill b.positions symbol tr.type tr.amount tr.price := by
      intro tr hsymbol
      unfold replay
      dsimp only
      rw [hsymbol, hw.2, if_neg hw.1, applyFill_canonical h.tidy hw]
    have hbooked : rebuildPositionsFromTrades (recordTrade b.trades symbol f) =
        if hasEvent b.trades f.executionEventId then b.positions
        else applyFill b.positions symbol f.signal (storedDecimal 8 f.filled)
          (storedDecimal 8 f.avgPrice) := by
      unfold recordTrade
      split
      · exact h.same.symm
      · unfold rebuildPositionsFromTrades
        rw [List.foldl_append, List.foldl_cons, List.foldl_nil]
        change replay (rebuildPositionsFromTrades b.trades) _ = _
        rw [← h.same, hreplay _ (writeSymbol_eq hw.1)]
    suffices hlive : applyFill b.positions symbol f.signal f.positionQty f.avgPrice =
        (if hasEvent b.trades f.executionEventId then b.positions
        else applyFill b.positions symbol f.signal (storedDecimal 8 f.filled)
          (storedDecimal 8 f.avgPrice)) by
      refine ⟨hlive.trans hbooked.symm, ?_⟩
      rw [hlive]
      split
      · exact h.tidy
      · exact h.tidy.applyFill hw (storedDecimal_storedDecimal _)
    unfold live booked at hmatch
    rcases hmatch with heq | ⟨hopen, hlive, hbook⟩
    · split at heq
      next hevent => rw [if_pos hevent, applyFill_of_worked_none heq]
      next hevent => rw [if_neg hevent, applyFill_eq_of_worked heq]
    · rw [applyFill_closes h.tidy hw hopen hlive]
      split at hbook
      next hevent =>
        rw [if_pos hevent, ← applyFill_closes (q := 0) (p := 0) h.tidy hw hopen
          (by simpa [worked] using hbook)]
        exact applyFill_of_worked_none rfl
      next hevent => rw [if_neg hevent, applyFill_closes h.tidy hw hopen hbook]

/-- **Replay equals live booking** in every run in which each trade row works what its
fill worked. -/
theorem agree_of_matches {fills : List Fill} {b : Books}
    (hrun : Runs.run step {} fills = some b) (hmatch : Runs.AllSteps step Matches {} fills) :
    Agree b := by
  have hstart : Inv {} := ⟨rfl, fun e he => (nomatch he)⟩
  have h : Inv b := Runs.run_invariant_of_allSteps
    (fun b f b' h hok hs => by
      obtain rfl := Option.some.inj hs
      exact h.persist hok) hstart hmatch hrun
  exact h.agree

/-! ## A fee in the base currency -/

def boughtAndSold : List Fill :=
  [("btcusdt".toList, { signal := .openLong, filled := 10, avgPrice := 100 }),
    ("BTC/USDT".toList, { signal := .addLong, filled := 2, avgPrice := 106, executionEventId := 5 }),
    ("ETH-USDT".toList, { signal := .openShort, filled := 1, avgPrice := 50 }),
    ("BTC-USDT".toList, { signal := .reduceLong, filled := 3, avgPrice := 110 }),
    ("ETHUSDT".toList, { signal := .closeShort, filled := 4, avgPrice := 40 })]

theorem agree_of_matches_boughtAndSold :
    ∃ b, Runs.run step {} boughtAndSold = some b ∧
      b.positions.entries.map (fun e => (e.1, e.2.size, e.2.entryPrice)) =
        [(("BTC/USDT".toList, .long), 9, 101)] ∧ Agree b := by
  obtain ⟨b, hrun, hrows⟩ := Runs.exists_of_any (show (Runs.run step {} boughtAndSold).any
    (fun b => b.positions.entries.map (fun e => (e.1, e.2.size, e.2.entryPrice)) =
      [(("BTC/USDT".toList, Side.long), (9 : ℚ), (101 : ℚ))]) = true by decide +kernel)
  exact ⟨b, hrun, hrows, agree_of_matches hrun (by decide +kernel)⟩

/-- Ten coins are bought on the spot market, and 0.01 of them is the fee. -/
def boughtWithBaseFee : List Fill :=
  [("BTC/USDT".toList,
    { signal := .openLong, filled := 10, avgPrice := 100
      positionFilled := some (spotPositionFillQuantity .spot "BTC" .openLong 10 [("BTC", 1 / 100)]) })]

/-- The live row holds 9.99, the replayed one 10. -/
theorem baseFee_differs :
    ∃ b, Runs.run step {} boughtWithBaseFee = some b ∧
      sizeAndEntry b.positions "BTC/USDT".toList .long = some (999 / 100, 100) ∧
      sizeAndEntry (rebuildPositionsFromTrades b.trades) "BTC/USDT".toList .long = some (10, 100) ∧
      ¬ Agree b := by
  obtain ⟨b, hrun, hlive, hreplay⟩ := Runs.exists_of_any (show (Runs.run step {}
    boughtWithBaseFee).any (fun b =>
      sizeAndEntry b.positions "BTC/USDT".toList .long = some (999 / 100, 100) ∧
      sizeAndEntry (rebuildPositionsFromTrades b.trades) "BTC/USDT".toList .long = some (10, 100)) =
        true by decide +kernel)
  refine ⟨b, hrun, hlive, hreplay, fun h => ?_⟩
  have := h "BTC/USDT".toList .long
  rw [hlive, hreplay] at this
  exact absurd this (by decide +kernel)

end AlgoTrade.Replay
