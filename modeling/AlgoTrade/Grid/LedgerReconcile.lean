import AlgoTrade.Ledger.Replay

/-! # Clearing a phantom grid ledger

`clear_phantom_grid_ledger` deletes the initial market trades and all positions of a
grid strategy whose exchange looks flat, and replays the trades that stay.  Each
deletion and each write of the replay is a transaction of its own, and a call that
fails leaves the ledger as the last of them left it.

* `rebuildCommits_last`: the writes of the replay end in the replayed positions.
* `safe_iff`: when the ledger is cleared on a flat exchange only.
* `consistent_iff`: when positions stay the replay of the trades throughout.
* `clearPhantomGridLedger_iff`: both at once. -/

namespace AlgoTrade.LedgerReconcile

open Replay

/-! ## The exchange -/

/-- What the exchange answers; `none` where a call raises. -/
structure ExchangeAnswer where
  /-- Whether a client can be created. -/
  connected : Bool
  size : Side → Option ℚ
  hedgeMode : Option (Option Bool × String)

structure DualLegSnapshot where
  longSize : ℚ
  shortSize : ℚ
  hedgeMode : Option Bool
  positionModeLabel : String
  deriving DecidableEq

/-- `fetch_exchange_dual_leg_snapshot`: a leg whose query raises has the size 0. -/
def fetchExchangeDualLegSnapshot (a : ExchangeAnswer) : Option DualLegSnapshot :=
  a.hedgeMode.map fun mode =>
    { longSize := (a.size .long).getD 0
      shortSize := (a.size .short).getD 0
      hedgeMode := mode.1
      positionModeLabel := mode.2 }

/-- The snapshot, or `None` after an exception. -/
def ExchangeAnswer.snapshot (a : ExchangeAnswer) : Option DualLegSnapshot :=
  if a.connected then fetchExchangeDualLegSnapshot a else none

/-- `_EPS` -/
def epsilon : ℚ := 1 / 10 ^ 8

/-- `exchange_is_flat`: no snapshot has no sizes. -/
def exchangeIsFlat (snapshot : Option DualLegSnapshot) : Bool :=
  (snapshot.map DualLegSnapshot.longSize).getD 0 ≤ epsilon ∧
    (snapshot.map DualLegSnapshot.shortSize).getD 0 ≤ epsilon

/-! ## The ledger -/

structure StoredTrade extends Trade where
  closeReason : String
  deriving DecidableEq

/-- `_INITIAL_REASONS` -/
def initialReasons : List String := ["grid_initial_long", "grid_initial_short"]

def StoredTrade.initial (tr : StoredTrade) : Bool := tr.closeReason ∈ initialReasons

structure BotParams where
  gridDirection : Option String := none
  /-- `grid_direction` -/
  gridDirectionAlias : Option String := none
  initialPositionPct : Option ℚ := none
  /-- `initial_position_pct` -/
  initialPositionPctAlias : Option ℚ := none
  deriving DecidableEq

/-- `sanitize_grid_bot_params` -/
def sanitizeGridBotParams (bp : BotParams) : BotParams :=
  let given := fun s : Option String => s.filter (· ≠ "")
  let direction := ((given bp.gridDirection).or (given bp.gridDirectionAlias)).getD "long"
  if (Text.strip direction).toLower = "neutral" then
    { bp with initialPositionPct := some 0, initialPositionPctAlias := none }
  else bp

/-- What of the trading configuration is read and written. -/
structure TradingConfig where
  /-- `resolve_bot_type` -/
  botType : String
  initialMarketDone : Option Bool := none
  botParams : BotParams := {}
  deriving DecidableEq

structure GridLedger where
  /-- `none` when there is no such strategy. -/
  config : Option TradingConfig
  positions : Positions := {}
  trades : List StoredTrade := []
  deriving DecidableEq

namespace GridLedger

def initialTrades (b : GridLedger) : List StoredTrade := b.trades.filter StoredTrade.initial

/-- The trades that stay. -/
def keptTrades (b : GridLedger) : List StoredTrade := b.trades.filter fun tr => ¬ tr.initial

def books (b : GridLedger) : Books := ⟨b.positions, b.trades.map StoredTrade.toTrade⟩

end GridLedger

/-- `ledger_has_open_legs` -/
def ledgerHasOpenLegs (positions : Positions) : Bool :=
  positions.values.any fun row => epsilon < row.size

/-- `should_clear_phantom_ledger` -/
def shouldClearPhantomLedger (snapshot : Option DualLegSnapshot) (positions : Positions)
    (initialTrades : List StoredTrade) (force : Bool) : Bool × String :=
  if initialTrades = [] ∧ ledgerHasOpenLegs positions = false then
    (false, "no initial trades or ledger legs to clear")
  else if force then (true, "forced by operator")
  else if exchangeIsFlat snapshot ∧ ledgerHasOpenLegs positions then
    (true, "exchange flat but strategy ledger shows open legs")
  else if exchangeIsFlat snapshot ∧ initialTrades ≠ [] then
    (true, "exchange flat but initial market trades exist in ledger")
  else (false, "exchange still holds positions; use --force to clear ledger anyway")

/-! ## The replay, write by write -/

/-- The first write of `upsert_position`. -/
def insertPosition (t : Positions) (symbol : Symbol) (side : Side) (row : PositionRow) :
    Positions :=
  let key := (writeSymbol symbol, side)
  let row := stored row
  t.set key <| match t.get? key with
    | none => row
    | some old =>
      { row with
        highestPrice := if 0 < row.highestPrice then row.highestPrice else old.highestPrice
        lowestPrice := if 0 < row.lowestPrice then row.lowestPrice else old.lowestPrice }

theorem upsertPosition_eq (t : Positions) (symbol : Symbol) (side : Side) (row : PositionRow) :
    upsertPosition t symbol side row =
      purgeDuplicates (insertPosition t symbol side row) side (writeSymbol symbol) := rfl

/-- The tables that `apply_fill_to_local_position` commits. -/
def applyFillCommits (t : Positions) (symbol : Symbol) (signal : SignalType)
    (filled avgPrice : ℚ) : List Positions :=
  if filled ≤ 0 ∨ avgPrice ≤ 0 then []
  else
    let row := fetchPositionFuzzy t symbol (sideOf signal)
    match (applyFillToLocalPosition signal filled avgPrice row).position with
    | some row =>
      let inserted := insertPosition t (writeSymbol symbol) (sideOf signal) row
      [inserted, purgeDuplicates inserted (sideOf signal) (writeSymbol (writeSymbol symbol))]
    | none => [deletePosition t (writeSymbol symbol) (sideOf signal)]

def replayCommits (t : Positions) (tr : Trade) : List Positions :=
  let symbol := Funding.normalizeStrategySymbol tr.symbol
  applyFillCommits t (if symbol = [] then tr.symbol else symbol) tr.type tr.amount tr.price

/-- The tables that `rebuild_positions_from_trades` commits. -/
def rebuildCommits : Positions → List Trade → List Positions
  | _, [] => []
  | t, tr :: rest => replayCommits t tr ++ rebuildCommits (replay t tr) rest

/-! ## The call -/

structure Flags where
  apply : Bool := false
  force : Bool := false
  resetInitialFlag : Bool := true
  sanitizeNeutralInitialPct : Bool := true

structure Report where
  reason : String
  cleared : Bool := false
  dryRun : Bool := false
  deletedTrades : ℕ := 0
  deletedPositions : ℕ := 0
  rebuiltFromRemainingTrades : Bool := false
  sanitizedInitialPositionPct : Bool := false
  deriving DecidableEq

/-- The last two writes; the second writes back the configuration that was read at first. -/
def configCommits (flags : Flags) (config : TradingConfig) (b : GridLedger) : List GridLedger :=
  let reset := { b with config := b.config.map fun c => { c with initialMarketDone := some false } }
  let sanitized := sanitizeGridBotParams config.botParams
  (if flags.resetInitialFlag then [reset] else []) ++
    if flags.sanitizeNeutralInitialPct ∧ sanitized ≠ config.botParams then
      [{ b with config := some { config with botParams := sanitized } }]
    else []

/-- `clear_phantom_grid_ledger`: the ledgers it commits, one after the other, and its report. -/
def clearPhantomGridLedger (a : ExchangeAnswer) (flags : Flags) (b : GridLedger) :
    List GridLedger × Report :=
  match b.config with
  | none => ([], { reason := "strategy not found" })
  | some config =>
    if config.botType ≠ "grid" then
      let botType := if config.botType = "" then "unknown" else config.botType
      ([], { reason := "not a grid strategy (bot_type=" ++ botType ++ ")" })
    else
      let verdict := shouldClearPhantomLedger a.snapshot b.positions b.initialTrades flags.force
      if verdict.1 = false then ([], { reason := verdict.2 })
      else if flags.apply = false then ([], { reason := verdict.2, dryRun := true })
      else
        let kept := b.keptTrades.map StoredTrade.toTrade
        let withoutTrades := { b with trades := b.keptTrades }
        let emptied := { withoutTrades with positions := {} }
        let rebuilt := { emptied with positions := rebuildPositionsFromTrades kept }
        ((if b.initialTrades = [] then [] else [withoutTrades]) ++ [emptied] ++
            (rebuildCommits {} kept).map (fun t => { emptied with positions := t }) ++
            configCommits flags config rebuilt,
          { reason := verdict.2
            cleared := true
            deletedTrades := b.initialTrades.length
            deletedPositions := b.positions.entries.length
            rebuiltFromRemainingTrades := kept ≠ []
            sanitizedInitialPositionPct := flags.sanitizeNeutralInitialPct ∧
              sanitizeGridBotParams config.botParams ≠ config.botParams })

/-- The writes of a fill end in the table after it. -/
theorem applyFillCommits_last (t : Positions) (symbol : Symbol) (signal : SignalType) (q p : ℚ) :
    (applyFillCommits t symbol signal q p).getLast?.getD t = applyFill t symbol signal q p := by
  unfold applyFillCommits applyFill
  split
  · rfl
  · dsimp only
    cases (applyFillToLocalPosition signal q p
      (fetchPositionFuzzy t symbol (sideOf signal))).position with
    | some row => exact (upsertPosition_eq t (writeSymbol symbol) (sideOf signal) row).symm
    | none => rfl

/-- **The writes of the replay** end in the replayed positions. -/
theorem rebuildCommits_last (t : Positions) (trades : List Trade) :
    (rebuildCommits t trades).getLast?.getD t = trades.foldl replay t := by
  induction trades generalizing t with
  | nil => rfl
  | cons tr rest ih =>
    rw [List.foldl_cons, ← ih (replay t tr), rebuildCommits, List.getLast?_append]
    have hlast : (replayCommits t tr).getLast?.getD t = replay t tr := applyFillCommits_last ..
    rw [← hlast]
    cases (rebuildCommits ((replayCommits t tr).getLast?.getD t) rest).getLast? <;> rfl

/-! ## Nothing to replay -/

/-- A trade that puts a row into an empty table. -/
def Opens (tr : Trade) : Prop := tr.type.isOpen = true ∧ 0 < tr.amount ∧ 0 < tr.price

theorem eq_empty_of_sizeAndEntry {t : Positions}
    (h : ∀ symbol side, sizeAndEntry t symbol side = none) : t = {} := by
  have hvalues : t.values = [] :=
    Dict.values_eq_nil fun key => Option.map_eq_none_iff.mp (h key.1 key.2)
  obtain ⟨entries⟩ := t
  exact congrArg Dict.mk (List.map_eq_nil_iff.mp hvalues)

theorem fetchPositionFuzzy_empty (symbol : Symbol) (side : Side) :
    fetchPositionFuzzy {} symbol side = none := by
  unfold fetchPositionFuzzy
  rw [List.findSome?_eq_none_iff]
  exact fun _ _ => rfl

theorem deletePosition_empty (symbol : Symbol) (side : Side) :
    deletePosition {} symbol side = {} := by
  unfold deletePosition
  induction positionSymbolCandidates symbol with
  | nil => rfl
  | cons c l ih => exact ih

theorem insertPosition_ne_empty (t : Positions) (symbol : Symbol) (side : Side) (row : PositionRow) :
    insertPosition t symbol side row ≠ {} := by
  intro hempty
  have hget := congrArg (fun t : Positions => t.get? (writeSymbol symbol, side)) hempty
  unfold insertPosition at hget
  dsimp only at hget
  rw [Dict.get?_set_self] at hget
  cases hget

section
variable {tr : Trade}

/-- A trade that opens nothing leaves an empty table empty. -/
theorem replayCommits_of_not_opens (h : ¬ Opens tr) :
    (∀ t ∈ replayCommits {} tr, t = {}) ∧ replay {} tr = {} := by
  have hempty : ∀ t ∈ replayCommits {} tr, t = {} := by
    unfold replayCommits applyFillCommits
    dsimp only
    split
    next => exact fun t ht => (List.not_mem_nil ht).elim
    next hworked =>
      have hclose : tr.type.isOpen = false := Bool.eq_false_iff.mpr fun hopen =>
        h ⟨hopen, not_le.mp (not_or.mp hworked).1, not_le.mp (not_or.mp hworked).2⟩
      have hnone : (applyFillToLocalPosition tr.type tr.amount tr.price none).position = none := by
        unfold applyFillToLocalPosition
        rw [if_neg hworked]
        simp only [hclose, Bool.false_eq_true, if_false]
        refine if_pos ?_
        show 0 - tr.amount ≤ 0
        linarith [not_le.mp (not_or.mp hworked).1]
      rw [fetchPositionFuzzy_empty, hnone]
      intro t ht
      rw [List.mem_singleton.mp ht, deletePosition_empty]
  have hlast : (replayCommits {} tr).getLast?.getD {} = replay {} tr := applyFillCommits_last ..
  refine ⟨hempty, ?_⟩
  rw [← hlast]
  cases hcommits : (replayCommits {} tr).getLast? with
  | none => rfl
  | some t => exact hempty t (List.mem_of_getLast? hcommits)

/-- One that opens commits a table with a row. -/
theorem replayCommits_of_opens (h : Opens tr) : ∃ t ∈ replayCommits {} tr, t ≠ {} := by
  obtain ⟨hopen, hamount, hprice⟩ := h
  have hworked : ¬ (tr.amount ≤ 0 ∨ tr.price ≤ 0) :=
    not_or.mpr ⟨not_le.mpr hamount, not_le.mpr hprice⟩
  unfold replayCommits applyFillCommits
  dsimp only
  rw [if_neg hworked, fetchPositionFuzzy_empty]
  obtain ⟨row, hrow⟩ : ∃ row,
      (applyFillToLocalPosition tr.type tr.amount tr.price none).position = some row := by
    unfold applyFillToLocalPosition
    rw [if_neg hworked]
    simp only [hopen, if_true]
    exact ⟨_, rfl⟩
  rw [hrow]
  exact ⟨_, List.mem_cons_self, insertPosition_ne_empty _ _ _ row⟩

end

/-- **A replay** that commits no row is one of trades that open nothing. -/
theorem rebuildCommits_empty_iff (trades : List Trade) :
    (∀ t ∈ rebuildCommits {} trades, t = {}) ↔ ∀ tr ∈ trades, ¬ Opens tr := by
  induction trades with
  | nil => exact ⟨fun _ tr htr => (List.not_mem_nil htr).elim, fun _ t ht => (List.not_mem_nil ht).elim⟩
  | cons tr rest ih =>
    rw [rebuildCommits, List.forall_mem_append, List.forall_mem_cons]
    by_cases hopens : Opens tr
    · refine iff_of_false (fun h => ?_) fun h => h.1 hopens
      obtain ⟨t, ht, hne⟩ := replayCommits_of_opens hopens
      exact hne (h.1 t ht)
    · obtain ⟨hcommits, hreplay⟩ := replayCommits_of_not_opens hopens
      rw [hreplay, ih]
      exact and_congr_left fun _ => iff_of_true hcommits hopens

theorem rebuild_of_not_opens {trades : List Trade} (h : ∀ tr ∈ trades, ¬ Opens tr) :
    rebuildPositionsFromTrades trades = {} := by
  unfold rebuildPositionsFromTrades
  rw [← rebuildCommits_last]
  cases hcommits : (rebuildCommits {} trades).getLast? with
  | none => rfl
  | some t => exact (rebuildCommits_empty_iff trades).mpr h t (List.mem_of_getLast? hcommits)

/-- When a call gets to its transactions. -/
def Clears (a : ExchangeAnswer) (flags : Flags) (b : GridLedger) : Prop :=
  b.config.map TradingConfig.botType = some "grid" ∧
    (shouldClearPhantomLedger a.snapshot b.positions b.initialTrades flags.force).1 = true ∧
    flags.apply = true

instance (a : ExchangeAnswer) (flags : Flags) (b : GridLedger) : Decidable (Clears a flags b) :=
  inferInstanceAs (Decidable (_ ∧ _))

section
variable {a : ExchangeAnswer} {flags : Flags} {b s : GridLedger}

theorem commits_eq_nil (h : ¬ Clears a flags b) : (clearPhantomGridLedger a flags b).1 = [] := by
  unfold clearPhantomGridLedger
  cases hconfig : b.config with
  | none => rfl
  | some config =>
    dsimp only
    split
    · rfl
    next htype =>
      split
      · rfl
      next hverdict =>
        split
        · rfl
        next happly =>
          refine absurd ⟨?_, Bool.eq_true_of_not_eq_false hverdict,
            Bool.eq_true_of_not_eq_false happly⟩ h
          rw [hconfig]
          exact congrArg some (not_not.mp htype)

/-- **The ledgers a call leaves.** -/
theorem mem_commits (h : Clears a flags b) :
    s ∈ (clearPhantomGridLedger a flags b).1 ↔
      (b.initialTrades ≠ [] ∧ s = { b with trades := b.keptTrades }) ∨
      s = { b with trades := b.keptTrades, positions := {} } ∨
      (∃ t ∈ rebuildCommits {} (b.keptTrades.map StoredTrade.toTrade),
        s = { b with trades := b.keptTrades, positions := t }) ∨
      ∃ config, b.config = some config ∧ s ∈ configCommits flags config
        { b with
          trades := b.keptTrades
          positions := rebuildPositionsFromTrades (b.keptTrades.map StoredTrade.toTrade) } := by
  obtain ⟨htype, hverdict, happly⟩ := h
  cases hconfig : b.config with
  | none =>
    rw [hconfig] at htype
    cases htype
  | some config =>
    rw [hconfig] at htype
    have hgrid : config.botType = "grid" := Option.some.inj htype
    unfold clearPhantomGridLedger
    rw [hconfig]
    dsimp only
    rw [if_neg (not_not.mpr hgrid), hverdict, if_neg nofun, happly, if_neg nofun]
    simp only [List.mem_append, List.mem_map, List.mem_singleton, or_assoc, Option.some.injEq,
      exists_eq_left', eq_comm (b := s)]
    refine or_congr ?_ Iff.rfl
    by_cases hinitial : b.initialTrades = []
    · simp [hinitial]
    · simp [hinitial]

theorem books_configCommits {config : TradingConfig} (hs : s ∈ configCommits flags config b) :
    s.books = b.books := by
  unfold configCommits at hs
  rw [List.mem_append] at hs
  rcases hs with hs | hs
  · split at hs
    · rw [List.mem_singleton.mp hs]
      rfl
    · cases hs
  · split at hs
    · rw [List.mem_singleton.mp hs]
      rfl
    · cases hs

/-! ## A flat exchange -/

/-- Every call to the exchange is answered. -/
def ExchangeAnswer.Complete (a : ExchangeAnswer) : Prop :=
  a.connected = true ∧ a.hedgeMode.isSome = true ∧ ∀ side, (a.size side).isSome = true

/-- A snapshot that was fetched, and shows neither leg. -/
def ExchangeAnswer.ShowsFlat (a : ExchangeAnswer) : Prop :=
  a.connected = true ∧ a.hedgeMode.isSome = true ∧ ∀ side, ∃ q ∈ a.size side, q ≤ epsilon

/-- Trades or positions are deleted by force, or on a flat exchange. -/
def Safe (a : ExchangeAnswer) (flags : Flags) (b : GridLedger) : Prop :=
  ∀ s ∈ (clearPhantomGridLedger a flags b).1, s.trades ≠ b.trades ∨ s.positions ≠ b.positions →
    flags.force = true ∨ a.ShowsFlat

/-- A snapshot is flat with what was not answered left out. -/
theorem showsFlat_iff (h : exchangeIsFlat a.snapshot = true) : a.ShowsFlat ↔ a.Complete := by
  unfold ExchangeAnswer.ShowsFlat ExchangeAnswer.Complete
  refine and_congr_right fun hconnected => and_congr_right fun hmode => forall_congr' fun side => ?_
  obtain ⟨mode, hmode⟩ := Option.isSome_iff_exists.mp hmode
  unfold exchangeIsFlat ExchangeAnswer.snapshot fetchExchangeDualLegSnapshot at h
  rw [hconnected, hmode] at h
  have hflat : ∀ side, (a.size side).getD 0 ≤ epsilon := by
    have h := of_decide_eq_true h
    intro side
    cases side
    · exact h.1
    · exact h.2
  constructor
  · rintro ⟨q, hq, -⟩
    exact Option.isSome_of_mem hq
  · intro hsome
    obtain ⟨q, hq⟩ := Option.isSome_iff_exists.mp hsome
    have hside := hflat side
    rw [hq] at hside
    exact ⟨q, hq, hside⟩

/-- What is cleared is not empty, and without force the snapshot is flat. -/
theorem Clears.cases (h : Clears a flags b) :
    (b.initialTrades ≠ [] ∨ ledgerHasOpenLegs b.positions = true) ∧
      (flags.force = true ∨ exchangeIsFlat a.snapshot = true) := by
  have hverdict := h.2.1
  unfold shouldClearPhantomLedger at hverdict
  split at hverdict
  · cases hverdict
  next hsome =>
    refine ⟨?_, ?_⟩
    · rcases not_and_or.mp hsome with hinitial | hlegs
      · exact .inl hinitial
      · exact .inr (Bool.eq_true_of_not_eq_false hlegs)
    · split at hverdict
      next hforce => exact .inl hforce
      · split at hverdict
        next hflat => exact .inr hflat.1
        · split at hverdict
          next hflat => exact .inr hflat.1
          · cases hverdict

/-- A call that clears deletes something. -/
theorem Clears.deletes (h : Clears a flags b) :
    ∃ s ∈ (clearPhantomGridLedger a flags b).1, s.trades ≠ b.trades ∨ s.positions ≠ b.positions := by
  refine ⟨_, (mem_commits h).mpr (.inr (.inl rfl)), ?_⟩
  rcases h.cases.1 with hinitial | hlegs
  · refine .inl fun hsame => hinitial ?_
    have hkept : b.keptTrades = b.trades := hsame
    refine List.filter_eq_nil_iff.mpr fun tr htr => ?_
    have hstays := List.filter_eq_self.mp hkept tr htr
    simpa using hstays
  · refine .inr fun hsame => ?_
    have hempty : b.positions = {} := hsame.symm
    rw [hempty] at hlegs
    cases hlegs

/-- **When a ledger is cleared on a flat exchange only**: unless the call clears without
force and with a question to the exchange unanswered. -/
theorem safe_iff : Safe a flags b ↔ (Clears a flags b → flags.force = true ∨ a.Complete) := by
  by_cases h : Clears a flags b
  · have hflat : flags.force = true ∨ a.ShowsFlat ↔ flags.force = true ∨ a.Complete := by
      rcases h.cases.2 with hforce | hflat
      · exact iff_of_true (.inl hforce) (.inl hforce)
      · exact or_congr_right (showsFlat_iff hflat)
    rw [imp_iff_right h, ← hflat]
    constructor
    · intro hsafe
      obtain ⟨s, hs, hdeletes⟩ := h.deletes
      exact hsafe s hs hdeletes
    · exact fun hforce _ _ _ => hforce
  · refine iff_of_true (fun s hs => ?_) fun hclears => absurd hclears h
    rw [commits_eq_nil h] at hs
    cases hs

/-! ## Positions and trades -/

/-- Positions that were the replay of the trades are so after each transaction. -/
def Consistent (a : ExchangeAnswer) (flags : Flags) (b : GridLedger) : Prop :=
  Agree b.books → ∀ s ∈ (clearPhantomGridLedger a flags b).1, Agree s.books

/-- **When positions stay the replay of the trades**: unless a call clears positions, or
trades that open a position stay. -/
theorem consistent_iff : Consistent a flags b ↔
    (Clears a flags b → Agree b.books → b.positions = {} ∧
      ∀ tr ∈ b.keptTrades, ¬ Opens tr.toTrade) := by
  by_cases h : Clears a flags b
  · unfold Consistent
    rw [imp_iff_right h]
    refine imp_congr_right fun hagree => ?_
    have hopens : (∀ tr ∈ b.keptTrades, ¬ Opens tr.toTrade) ↔
        ∀ tr ∈ b.keptTrades.map StoredTrade.toTrade, ¬ Opens tr :=
      (List.forall_mem_map (P := fun tr => ¬ Opens tr)).symm
    rw [hopens]
    constructor
    · intro hall
      have hrebuilt : ∀ symbol side, sizeAndEntry (rebuildPositionsFromTrades
          (b.keptTrades.map StoredTrade.toTrade)) symbol side = none := fun symbol side =>
        hall _ ((mem_commits h).mpr (.inr (.inl rfl))) symbol side
      constructor
      · refine eq_empty_of_sizeAndEntry fun symbol side => ?_
        rw [← hrebuilt symbol side]
        by_cases hinitial : b.initialTrades = []
        · have hkept : b.keptTrades = b.trades := List.filter_eq_self.mpr fun tr htr => by
            simpa using List.filter_eq_nil_iff.mp hinitial tr htr
          rw [hkept]
          exact (hagree symbol side).symm
        · exact (hall _ ((mem_commits h).mpr (.inl ⟨hinitial, rfl⟩)) symbol side).symm
      · refine (rebuildCommits_empty_iff _).mp fun t ht => ?_
        refine eq_empty_of_sizeAndEntry fun symbol side => ?_
        rw [← hrebuilt symbol side]
        exact (hall _ ((mem_commits h).mpr (.inr (.inr (.inl ⟨t, ht, rfl⟩)))) symbol side).symm
    · rintro ⟨hpositions, hkept⟩ s hs
      have hrebuilt := rebuild_of_not_opens hkept
      have hbooks : s.books = ⟨{}, b.keptTrades.map StoredTrade.toTrade⟩ := by
        rcases (mem_commits h).mp hs with ⟨-, rfl⟩ | rfl | ⟨t, ht, rfl⟩ | ⟨config, -, hs⟩
        · exact congrArg (Books.mk · _) hpositions
        · rfl
        · exact congrArg (Books.mk · _) ((rebuildCommits_empty_iff _).mpr hkept t ht)
        · rw [books_configCommits hs]
          exact congrArg (Books.mk · _) hrebuilt
      intro symbol side
      rw [hbooks]
      exact congrArg (sizeAndEntry · symbol side) hrebuilt
  · refine iff_of_true (fun _ s hs => ?_) fun hclears => absurd hclears h
    rw [commits_eq_nil h] at hs
    cases hs

/-- **A safe call**: the ledger is cleared on a flat exchange only and positions stay the
replay of the trades, exactly when a call that clears is forced or fully answered, and
clears no positions and leaves no trade that opens one. -/
theorem clearPhantomGridLedger_iff : Safe a flags b ∧ Consistent a flags b ↔
    (Clears a flags b → (flags.force = true ∨ a.Complete) ∧
      (Agree b.books → b.positions = {} ∧ ∀ tr ∈ b.keptTrades, ¬ Opens tr.toTrade)) := by
  rw [safe_iff, consistent_iff, ← imp_and]

end

/-- A grid that holds its initial position of 2. -/
def initialLong : GridLedger where
  config := some { botType := "grid" }
  positions := ⟨[(("BTC/USDT".toList, .long), ⟨2, 100, 100, 100⟩)]⟩
  trades := [{
    symbol := "BTC/USDT".toList
    type := .openLong
    amount := 2
    price := 100
    executionEventId := 0
    closeReason := "grid_initial_long" }]

/-- An exchange that no client can be created for. -/
def unreachable : ExchangeAnswer := ⟨false, fun _ => none, none⟩

/-- The initial trade of 2 is deleted though nothing was learned of the exchange, and if
the call fails then, the position of 2 has no trades. -/
theorem initial_deleted :
    Agree initialLong.books ∧ ¬ unreachable.ShowsFlat ∧
      ∃ s ∈ (clearPhantomGridLedger unreachable { apply := true } initialLong).1,
        s.trades = [] ∧ s.positions = initialLong.positions ∧ ¬ Agree s.books := by
  refine ⟨?_, fun hflat => Bool.false_ne_true hflat.1,
    { initialLong with trades := [] }, ?_, rfl, rfl, fun hagree => ?_⟩
  · intro symbol side
    have hsame : rebuildPositionsFromTrades initialLong.books.trades = initialLong.positions := by
      decide +kernel
    rw [hsame]
    rfl
  · decide +kernel
  · have hgone := hagree "BTC/USDT".toList .long
    revert hgone
    decide +kernel

end AlgoTrade.LedgerReconcile
