import AlgoTrade.Grid.EntrySync
import AlgoTrade.Lib.Runs

/-! # One call of `sync_grid_orders`

The call as a run of its turns, each with what the exchange answers to it.  What
counts is what the exchange keeps: an order may stay there that was not recorded.

* `SyncSafe`: no more entries than slots, one a cell, on cells without an open entry or
  inventory, each on its side of the price.
* `turnsLeft_lt`: a turn leaves fewer turns.
* `syncCall_safe`: every call ends; where every kept order is recorded, it is safe exactly
  when no entry is placed on a cell on which the other leg's entry rests. -/

namespace AlgoTrade

open Runs

/-! ## Turns -/

/-- What the exchange answers to a turn; `strands` when it keeps an order whose
placement raised, or that was not recorded and could not be withdrawn. -/
structure TurnVenue where
  venue : GridVenue
  strands : Bool := false

/-- An entry that the exchange keeps, with what the cell was like before. -/
structure PlacedEntry where
  cellIndex : ℕ
  purpose : GridPurpose
  price : ℚ
  cellState : CellState
  /-- The open entries on the cell. -/
  resting : ℕ
  deriving DecidableEq, Repr

structure SyncCall where
  engine : GridEngine
  sync : Option EntrySync
  entries : List PlacedEntry := []

namespace GridEngine

/-- The purpose and the cell whose entry the next turn tries. -/
def attempt (sync : EntrySync) (e : GridEngine) : Option (GridPurpose × ℕ) :=
  match sync.purposes with
  | [] => none
  | p :: _ =>
    if sync.slots = 0 ∨ ¬ sync.allowed p then none
    else
      match (sync.candidates p).dropWhile fun idx => !allowsEntry sync.cellStates e p idx with
      | [] => none
      | idx :: _ => some (p, idx)

def openEntriesOn (idx : ℕ) (e : GridEngine) : ℕ :=
  e.orders.countP fun o => isOpenEntry o && o.cellIndex = idx

/-- `_place_limit` sends the entry. -/
def Asks (cfg : GridConfig) (v : GridVenue) (p : GridPurpose) (price : ℚ) (e : GridEngine) : Prop :=
  ¬ (price ≤ 0 ∨ orderQuantity cfg v e p price none ≤ 0 ∨ ¬ v.entryAllowed)

instance (cfg : GridConfig) (v : GridVenue) (p : GridPurpose) (price : ℚ) (e : GridEngine) :
    Decidable (e.Asks cfg v p price) :=
  inferInstanceAs (Decidable (¬ (_ ∨ _ ∨ _)))

/-- The entry that a turn leaves at the exchange. -/
def turnEntry (cfg : GridConfig) (t : TurnVenue) (sync : EntrySync) (e : GridEngine) :
    Option PlacedEntry :=
  (e.attempt sync).bind fun (p, idx) =>
    let price := p.line (e.cells idx)
    if e.Asks cfg t.venue p price ∧ (t.venue.accepts ∧ t.venue.inserts ∨ t.strands) then
      some
        { cellIndex := idx, purpose := p, price
          cellState := (e.cells idx).state, resting := e.openEntriesOn idx }
    else none

end GridEngine

namespace SyncCall

open GridEngine

/-- The call before its first turn. -/
def start (cfg : GridEntryConfig) (inp : SyncInputs) (e : GridEngine) : SyncCall :=
  { engine := (e.syncStart cfg inp).1, sync := (e.syncStart cfg inp).2 }

def turn (cfg : GridEntryConfig) (c : SyncCall) (t : TurnVenue) : Option SyncCall :=
  match c.sync with
  | none => none
  | some sync =>
    let next := c.engine.syncTurn cfg t.venue sync
    some
      { engine := next.1, sync := next.2
        entries := c.entries ++ (c.engine.turnEntry cfg.toGridConfig t sync).toList }

/-! ## Statement -/

/-- `s` is the call before its turns, `c` after them. -/
structure SyncSafe (cfg : GridEntryConfig) (inp : SyncInputs) (s c : SyncCall) : Prop where
  slots : c.entries.length ≤ cfg.maxOpenOrders - s.engine.openEntries
  once : (c.entries.map PlacedEntry.cellIndex).Nodup
  noInventory : ∀ x ∈ c.entries, x.cellState ≠ .longHeld ∧ x.cellState ≠ .shortHeld
  noEntry : ∀ x ∈ c.entries, x.resting = 0
  outside : ∀ x ∈ c.entries, x.purpose = .longEntry ∧ x.price < inp.price ∨
    x.purpose = .shortEntry ∧ inp.price < x.price

/-- The entry the turn leaves at the exchange, if any, is a recorded one. -/
def Recorded (cfg : GridEntryConfig) (c : SyncCall) (t : TurnVenue) : Prop :=
  ∀ sync ∈ c.sync, (c.engine.turnEntry cfg.toGridConfig t sync).isSome = true →
    t.venue.accepts = true ∧ t.venue.inserts = true

/-- The entry of the other leg. -/
def otherEntry (p : GridPurpose) : GridPurpose := if p.isLong then .shortEntry else .longEntry

/-- The turn leaves no entry on a cell on which the other leg's entry rests. -/
def NotCrossed (cfg : GridEntryConfig) (c : SyncCall) (t : TurnVenue) : Prop :=
  ∀ sync ∈ c.sync, ∀ x ∈ c.engine.turnEntry cfg.toGridConfig t sync,
    c.engine.hasOpenForCell x.cellIndex (otherEntry x.purpose) = false

instance (cfg : GridEntryConfig) (c : SyncCall) (t : TurnVenue) : Decidable (Recorded cfg c t) :=
  inferInstanceAs (Decidable (∀ sync ∈ c.sync, _ → _))

instance (cfg : GridEntryConfig) (c : SyncCall) (t : TurnVenue) : Decidable (NotCrossed cfg c t) :=
  inferInstanceAs (Decidable (∀ sync ∈ c.sync, ∀ x ∈ c.engine.turnEntry cfg.toGridConfig t sync, _))

end SyncCall

/-! ## One turn -/

namespace GridEngine

section
variable {cfg : GridEntryConfig} {e : GridEngine} {sync : EntrySync} {v : GridVenue}
  {t : TurnVenue}

/-- A turn is over, passes the purpose on, or tries an entry. -/
theorem syncTurn_attempt (cfg : GridEntryConfig) (v : GridVenue) (sync : EntrySync) (e : GridEngine) :
    e.attempt sync = none ∧ (e.syncTurn cfg v sync = (e, none) ∨
        ∃ p rest candidates, sync.purposes = p :: rest ∧
          (∀ q, (candidates q).Sublist (sync.candidates q)) ∧
          e.syncTurn cfg v sync =
            (e, some { sync with purposes := rest, candidates := candidates })) ∨
      ∃ p idx rest cells, e.attempt sync = some (p, idx) ∧ sync.purposes = p :: rest ∧
        sync.slots ≠ 0 ∧ allowsEntry sync.cellStates e p idx = true ∧
        (idx :: cells).Sublist (sync.candidates p) ∧
        e.syncTurn cfg v sync =
          let placed := e.placeLimit cfg.toGridConfig v idx p (p.line (e.cells idx)) none
          let openByPurpose := Function.update sync.openByPurpose p (sync.openByPurpose p + 1)
          let candidates := Function.update sync.candidates p cells
          (placed.1, some (if placed.2 then
            { sync with
              slots := sync.slots - 1
              cellStates := Function.update sync.cellStates idx p.placedState
              openByPurpose := openByPurpose
              purposes := roundOf cfg.direction openByPurpose
              candidates := candidates }
            else { sync with
              candidates := candidates
              purposes := if cfg.direction = .neutral then rest else p :: rest })) := by
  unfold attempt syncTurn
  cases hpurposes : sync.purposes with
  | nil => exact .inl ⟨rfl, .inl rfl⟩
  | cons p rest =>
    dsimp only
    by_cases hslots : sync.slots = 0
    · rw [if_pos (.inl hslots), if_pos hslots]
      exact .inl ⟨rfl, .inl rfl⟩
    by_cases hallowed : sync.allowed p = true
    · rw [if_neg (by simp [hslots, hallowed]), if_neg hslots, if_neg (by simp [hallowed])]
      cases hdrop : (sync.candidates p).dropWhile
          fun idx => !allowsEntry sync.cellStates e p idx with
      | nil =>
        refine .inl ⟨rfl, .inr ⟨p, rest, _, rfl, fun q => ?_, rfl⟩⟩
        by_cases hq : q = p
        · subst hq
          rw [Function.update_self]
          exact List.nil_sublist _
        · rw [Function.update_of_ne hq]
      | cons idx cells =>
        have hallows : allowsEntry sync.cellStates e p idx = true := by
          have := List.head?_dropWhile_not (fun idx => !allowsEntry sync.cellStates e p idx)
            (sync.candidates p)
          rw [hdrop] at this
          simpa using this
        have hsub : (idx :: cells).Sublist (sync.candidates p) :=
          hdrop ▸ List.dropWhile_sublist _
        refine .inr ⟨p, idx, rest, cells, rfl, rfl, hslots, hallows, hsub, ?_⟩
        dsimp only
        split <;> rfl
    · rw [if_pos (.inr hallowed), if_neg hslots, if_pos hallowed]
      exact .inl ⟨rfl, .inr ⟨p, rest, sync.candidates, rfl, fun q => List.Sublist.refl _, rfl⟩⟩

/-- When a placement is recorded. -/
theorem placeLimit_snd {cfg : GridConfig} {idx : ℕ} {p : GridPurpose} (hentry : p.isExit = false)
    (price : ℚ) : (e.placeLimit cfg v idx p price none).2 = true ↔
      e.Asks cfg v p price ∧ v.accepts = true ∧ v.inserts = true := by
  have hquantity : orderQuantity cfg v e p price none ≤ 0 ↔
      normalizeGridBaseQty v (qtyFromUsdt cfg price) price ≤ 0 := by
    unfold orderQuantity
    simp only [Option.getD_none, hentry]
    split
    next h => exact iff_of_true le_rfl h
    next => exact Iff.rfl
  unfold placeLimit Asks
  simp only [Option.getD_none, hentry, hquantity]
  by_cases hprice : price ≤ 0
  · simp [hprice]
  by_cases hqty : normalizeGridBaseQty v (qtyFromUsdt cfg price) price ≤ 0
  · simp [hqty]
  by_cases hallowed : v.entryAllowed = true <;> by_cases haccepts : v.accepts = true <;>
    by_cases hinserts : v.inserts = true <;>
      simp [hprice, hqty, hallowed, haccepts, hinserts]

theorem turnEntry_of_attempt {cfg : GridConfig} {p : GridPurpose} {idx : ℕ}
    (h : e.attempt sync = some (p, idx)) :
    e.turnEntry cfg t sync =
      if e.Asks cfg t.venue p (p.line (e.cells idx)) ∧
          (t.venue.accepts = true ∧ t.venue.inserts = true ∨ t.strands = true) then
        some
          { cellIndex := idx, purpose := p, price := p.line (e.cells idx)
            cellState := (e.cells idx).state, resting := e.openEntriesOn idx }
      else none := by
  unfold turnEntry
  rw [h]
  rfl

variable (e v) in
/-- What a placement does to the cells. -/
theorem placeLimit_cells_eq (cfg : GridConfig) (idx : ℕ) (p : GridPurpose) (price : ℚ) :
    ((e.placeLimit cfg v idx p price none).2 = false ∧
        (e.placeLimit cfg v idx p price none).1.cells = e.cells) ∨
      ((e.placeLimit cfg v idx p price none).2 = true ∧ ∃ qty,
        (e.placeLimit cfg v idx p price none).1.cells =
          Function.update e.cells idx (placedCell (e.cells idx) p price qty)) := by
  rcases placeLimit_cases cfg v idx p price none e with
    ⟨_, heq⟩ | ⟨-, -, heq⟩ | ⟨qty, -, -, -, heq⟩
  · rw [heq]
    exact .inl ⟨rfl, rfl⟩
  · rw [heq]
    exact .inl ⟨rfl, cells_cancelRefused _ _ _⟩
  · rw [heq]
    exact .inr ⟨rfl, qty, rfl⟩

theorem line_placedCell (q p : GridPurpose) (c : GridCell) (price qty : ℚ) :
    q.line (placedCell c p price qty) = q.line c := by
  cases q <;> rfl

end

end GridEngine

namespace SyncCall

open GridEngine

/-! ## Termination -/

/-- Bounds the turns that are left. -/
def turnsLeft (sync : EntrySync) : ℕ :=
  3 * ((sync.candidates .longEntry).length + (sync.candidates .shortEntry).length) +
    sync.purposes.length

/-- Only entries are tried. -/
def EntriesOnly (sync : EntrySync) : Prop :=
  ∀ p ∈ sync.purposes, p = .longEntry ∨ p = .shortEntry

section
variable {cfg : GridEntryConfig} {e : GridEngine} {sync : EntrySync} {v : GridVenue}

theorem mem_roundOf {dir : GridDirection} {openByPurpose : GridPurpose → ℕ} {p : GridPurpose}
    (h : p ∈ roundOf dir openByPurpose) : p = .longEntry ∨ p = .shortEntry := by
  unfold roundOf entryPurposes at h
  cases dir with
  | neutral =>
    split at h
    · exact (List.mem_pair.mp h).symm
    · exact List.mem_pair.mp h
  | long => exact .inl (by simpa using h)
  | short => exact .inr (by simpa using h)

theorem length_roundOf_le (dir : GridDirection) (openByPurpose : GridPurpose → ℕ) :
    (roundOf dir openByPurpose).length ≤ 2 := by
  unfold roundOf entryPurposes
  cases dir <;> split <;> simp

theorem entriesOnly_syncTurn (h : EntriesOnly sync) {sync' : EntrySync}
    (hsync : (e.syncTurn cfg v sync).2 = some sync') : EntriesOnly sync' := by
  rcases syncTurn_attempt cfg v sync e with
    ⟨-, heq | ⟨p, rest, _, hpurposes, -, heq⟩⟩ | ⟨p, idx, rest, cells, -, hpurposes, -, -, -, heq⟩
  · rw [heq] at hsync
    cases hsync
  · rw [heq] at hsync
    obtain rfl := Option.some.inj hsync
    exact fun q hq => h q (hpurposes ▸ List.mem_cons_of_mem p hq)
  · rw [heq] at hsync
    obtain rfl := Option.some.inj hsync
    intro q hq
    split at hq
    · exact mem_roundOf hq
    · dsimp only at hq
      split at hq
      · exact h q (hpurposes ▸ List.mem_cons_of_mem p hq)
      · exact h q (hpurposes ▸ hq)

/-- Every turn uses up a candidate or a purpose of the round. -/
theorem turnsLeft_lt (h : EntriesOnly sync) {sync' : EntrySync}
    (hsync : (e.syncTurn cfg v sync).2 = some sync') : turnsLeft sync' < turnsLeft sync := by
  rcases syncTurn_attempt cfg v sync e with
    ⟨-, heq | ⟨p, rest, _, hpurposes, hsub, heq⟩⟩ |
      ⟨p, idx, rest, cells, -, hpurposes, -, -, hsub, heq⟩
  · rw [heq] at hsync
    cases hsync
  · rw [heq] at hsync
    obtain rfl := Option.some.inj hsync
    have hlong := (hsub .longEntry).length_le
    have hshort := (hsub .shortEntry).length_le
    simp only [turnsLeft, hpurposes, List.length_cons]
    omega
  · rw [heq] at hsync
    obtain rfl := Option.some.inj hsync
    have hlt : cells.length + 1 ≤ (sync.candidates p).length := hsub.length_le
    have hcandidates : ((Function.update sync.candidates p cells) .longEntry).length +
        ((Function.update sync.candidates p cells) .shortEntry).length + 1 ≤
          (sync.candidates .longEntry).length + (sync.candidates .shortEntry).length := by
      rcases h p (hpurposes ▸ List.mem_cons_self) with rfl | rfl
      · rw [Function.update_self, Function.update_of_ne (by decide)]
        omega
      · rw [Function.update_self, Function.update_of_ne (by decide)]
        omega
    have hround := length_roundOf_le cfg.direction
      (Function.update sync.openByPurpose p (sync.openByPurpose p + 1))
    split
    · simp only [turnsLeft, hpurposes, List.length_cons]
      omega
    · simp only [turnsLeft, hpurposes, List.length_cons]
      split
      · omega
      · rw [List.length_cons]
        omega

end

section
variable {cfg : GridEntryConfig} {c : SyncCall}

variable (cfg) in
/-- The call ends, whatever the exchange answers. -/
theorem exists_end (h : ∀ sync ∈ c.sync, EntriesOnly sync) (venue : ℕ → TurnVenue) (i : ℕ) :
    ∃ n t, run (turn cfg) c ((List.range' i n).map venue) = some t ∧ t.sync = none := by
  cases hsync : c.sync with
  | none => exact ⟨0, c, rfl, hsync⟩
  | some sync =>
    induction hleft : turnsLeft sync using Nat.strong_induction_on generalizing c sync i with
    | _ left ih =>
      have hturn : turn cfg c (venue i) = some
          { engine := (c.engine.syncTurn cfg (venue i).venue sync).1
            sync := (c.engine.syncTurn cfg (venue i).venue sync).2
            entries := c.entries ++
              (c.engine.turnEntry cfg.toGridConfig (venue i) sync).toList } := by
        unfold turn
        rw [hsync]
      have honly := h sync hsync
      cases hnext : (c.engine.syncTurn cfg (venue i).venue sync).2 with
      | none =>
        refine ⟨1, _, run_cons_eq_some.mpr ⟨_, hturn, rfl⟩, hnext⟩
      | some sync' =>
        obtain ⟨n, t, hrun, hdone⟩ := ih (turnsLeft sync') (hleft ▸ turnsLeft_lt honly hnext)
          (c := { engine := (c.engine.syncTurn cfg (venue i).venue sync).1
                  sync := (c.engine.syncTurn cfg (venue i).venue sync).2
                  entries := c.entries ++
                    (c.engine.turnEntry cfg.toGridConfig (venue i) sync).toList })
          (fun s hs => by
            obtain rfl := Option.some.inj (hnext.symm.trans hs)
            exact entriesOnly_syncTurn honly hnext)
          (i + 1) sync' hnext rfl
        exact ⟨n + 1, t, by rw [List.range'_succ]; exact run_cons_eq_some.mpr ⟨_, hturn, hrun⟩,
          hdone⟩

end

/-! ## Invariant -/

/-- The candidates lie on their side of the price, and the call knows the cells' states
and the cells it used. -/
structure SyncOk (price : ℚ) (c : SyncCall) (sync : EntrySync) : Prop where
  purposes : EntriesOnly sync
  states : ∀ idx, sync.cellStates idx = (c.engine.cells idx).state
  long : ∀ idx ∈ sync.candidates .longEntry, GridPurpose.longEntry.line (c.engine.cells idx) < price
  short : ∀ idx ∈ sync.candidates .shortEntry,
    price < GridPurpose.shortEntry.line (c.engine.cells idx)
  used : ∀ x ∈ c.entries, sync.cellStates x.cellIndex ≠ .idle

/-- Entries and slots that are left keep to `free`. -/
structure Inv (price : ℚ) (free : ℕ) (c : SyncCall) : Prop where
  slots : c.entries.length + (c.sync.map EntrySync.slots).getD 0 ≤ free
  once : (c.entries.map PlacedEntry.cellIndex).Nodup
  noInventory : ∀ x ∈ c.entries, x.cellState = .idle
  outside : ∀ x ∈ c.entries, x.purpose = .longEntry ∧ x.price < price ∨
    x.purpose = .shortEntry ∧ price < x.price
  sync : ∀ sync ∈ c.sync, SyncOk price c sync

section
variable {cfg : GridEntryConfig} {inp : SyncInputs} {e : GridEngine} {c c' : SyncCall}
  {t : TurnVenue} {price : ℚ} {free : ℕ}

theorem mem_entryCandidates {dir : GridDirection} {idx : ℕ} :
    (idx ∈ e.entryCandidates dir price .longEntry →
        GridPurpose.longEntry.line (e.cells idx) < price) ∧
      (idx ∈ e.entryCandidates dir price .shortEntry →
        price < GridPurpose.shortEntry.line (e.cells idx)) := by
  unfold entryCandidates
  constructor
  · intro h
    dsimp only at h
    rw [if_pos (show GridPurpose.longEntry.isLong = true from rfl)] at h
    have hmem : idx ∈ (List.range e.cellCount).filter fun idx => (e.cells idx).lowerPrice < price := by
      split at h
      · exact List.mem_mergeSort.mp h
      · exact h
    exact of_decide_eq_true (List.mem_filter.mp hmem).2
  · intro h
    dsimp only at h
    rw [if_neg (show ¬ GridPurpose.shortEntry.isLong = true by decide)] at h
    have hmem : idx ∈ (List.range e.cellCount).filter fun idx => price < (e.cells idx).upperPrice := by
      split at h
      · exact List.mem_mergeSort.mp h
      · exact h
    exact of_decide_eq_true (List.mem_filter.mp hmem).2

theorem syncOk_start {sync : EntrySync} (hsync : (start cfg inp e).sync = some sync) :
    SyncOk inp.price (start cfg inp e) sync := by
  unfold start syncStart at hsync ⊢
  dsimp only at hsync ⊢
  split at hsync
  · cases hsync
  next hadmitted =>
    rw [if_neg hadmitted]
    split at hsync
    · cases hsync
    next hdue =>
      rw [if_neg hdue]
      generalize (if inp.lists = true then
        (e.clearRefused cfg inp).dedupeEntries.orders else []) = listed at hsync ⊢
      split at hsync
      · cases hsync
      next hslots =>
        rw [if_neg hslots]
        obtain rfl := Option.some.inj hsync
        refine ⟨fun p hp => ?_, fun idx => rfl, fun idx h => mem_entryCandidates.1 h,
          fun idx h => mem_entryCandidates.2 h, fun x hx => nomatch hx⟩
        dsimp only at hp
        exact mem_roundOf hp

theorem inv_start (hlists : inp.lists = true) :
    Inv inp.price (cfg.maxOpenOrders - (start cfg inp e).engine.openEntries) (start cfg inp e) := by
  refine ⟨?_, List.nodup_nil, fun x hx => (nomatch hx), fun x hx => (nomatch hx),
    fun sync hsync => syncOk_start hsync⟩
  change 0 + ((e.syncStart cfg inp).2.map EntrySync.slots).getD 0 ≤
    cfg.maxOpenOrders - (e.syncStart cfg inp).1.openEntries
  cases hsync : (e.syncStart cfg inp).2 with
  | none => simp
  | some sync =>
    have hslots := openEntries_add_slots hsync hlists
    simp only [Option.map_some, Option.getD_some]
    omega

/-- What a turn that leaves no entry keeps. -/
theorem Inv.keep {sync sync' : EntrySync} (h : Inv price free c) (hsync : c.sync = some sync)
    (hcells : c'.engine.cells = c.engine.cells) (hentries : c'.entries = c.entries)
    (hsync' : c'.sync = some sync') (honly : EntriesOnly sync') (hslots : sync'.slots = sync.slots)
    (hstates : sync'.cellStates = sync.cellStates)
    (hsub : ∀ q, sync'.candidates q ⊆ sync.candidates q) : Inv price free c' := by
  have hok := h.sync sync hsync
  have hleft := h.slots
  rw [hsync, Option.map_some, Option.getD_some] at hleft
  refine ⟨?_, hentries ▸ h.once, hentries ▸ h.noInventory, hentries ▸ h.outside, ?_⟩
  · rw [hsync', hentries, Option.map_some, Option.getD_some, hslots]
    exact hleft
  · intro s hs
    obtain rfl := Option.some.inj (hsync'.symm.trans hs)
    refine ⟨honly, ?_, ?_, ?_, ?_⟩
    · rw [hstates, hcells]
      exact hok.states
    · rw [hcells]
      exact fun idx hidx => hok.long idx (hsub _ hidx)
    · rw [hcells]
      exact fun idx hidx => hok.short idx (hsub _ hidx)
    · rw [hstates, hentries]
      exact hok.used

/-- What a turn whose entry is recorded keeps. -/
theorem Inv.record {sync sync' : EntrySync} {x : PlacedEntry} {qty : ℚ} (h : Inv price free c)
    (hsync : c.sync = some sync) (hslots : sync.slots ≠ 0)
    (hidle : sync.cellStates x.cellIndex = .idle)
    (hstate : x.cellState = (c.engine.cells x.cellIndex).state)
    (hside : x.purpose = .longEntry ∧ x.price < price ∨ x.purpose = .shortEntry ∧ price < x.price)
    (hcells : c'.engine.cells = Function.update c.engine.cells x.cellIndex
      (placedCell (c.engine.cells x.cellIndex) x.purpose x.price qty))
    (hentries : c'.entries = c.entries ++ [x]) (hsync' : c'.sync = some sync')
    (honly : EntriesOnly sync') (hslots' : sync'.slots = sync.slots - 1)
    (hstates : sync'.cellStates =
      Function.update sync.cellStates x.cellIndex x.purpose.placedState)
    (hsub : ∀ q, sync'.candidates q ⊆ sync.candidates q) : Inv price free c' := by
  have hok := h.sync sync hsync
  have hleft := h.slots
  rw [hsync, Option.map_some, Option.getD_some] at hleft
  have hnew : ∀ y ∈ c.entries, y.cellIndex ≠ x.cellIndex := fun y hy heq =>
    hok.used y hy (heq ▸ hidle)
  have hlines : ∀ (q : GridPurpose) j, q.line (c'.engine.cells j) = q.line (c.engine.cells j) :=
    fun q j => by
      rw [hcells]
      by_cases hj : j = x.cellIndex
      · rw [hj, Function.update_self, line_placedCell]
      · rw [Function.update_of_ne hj]
  have hall : ∀ {P : PlacedEntry → Prop}, (∀ y ∈ c.entries, P y) → P x → ∀ y ∈ c'.entries, P y := by
    intro P hold hx y hy
    rcases List.mem_append.mp (hentries ▸ hy) with hy | hy
    · exact hold y hy
    · exact List.mem_singleton.mp hy ▸ hx
  refine ⟨?_, ?_, hall h.noInventory ?_, hall h.outside hside, fun s hs => ?_⟩
  · rw [hsync', hentries, Option.map_some, Option.getD_some, hslots', List.length_append,
      List.length_singleton]
    omega
  · rw [hentries, List.map_append, List.map_singleton]
    refine List.nodup_append.mpr ⟨h.once, List.nodup_singleton _, fun a ha b hb => ?_⟩
    obtain ⟨y, hy, rfl⟩ := List.mem_map.mp ha
    obtain rfl := List.mem_singleton.mp hb
    exact hnew y hy
  · rw [hstate, ← hok.states, hidle]
  · obtain rfl := Option.some.inj (hsync'.symm.trans hs)
    refine ⟨honly, fun j => ?_, fun j hj => ?_, fun j hj => ?_, hall (fun y hy => ?_) ?_⟩
    · rw [hstates, hcells]
      by_cases hj : j = x.cellIndex
      · rw [hj, Function.update_self, Function.update_self]
        rfl
      · rw [Function.update_of_ne hj, Function.update_of_ne hj]
        exact hok.states j
    · rw [hlines]
      exact hok.long j (hsub _ hj)
    · rw [hlines]
      exact hok.short j (hsub _ hj)
    · rw [hstates, Function.update_of_ne (hnew y hy)]
      exact hok.used y hy
    · rw [hstates, Function.update_self]
      rcases hside with ⟨hp, -⟩ | ⟨hp, -⟩ <;> rw [hp] <;> decide

theorem turn_eq_some {sync : EntrySync} (hsync : c.sync = some sync) (hturn : turn cfg c t = some c') :
    c' = { engine := (c.engine.syncTurn cfg t.venue sync).1
           sync := (c.engine.syncTurn cfg t.venue sync).2
           entries := c.entries ++ (c.engine.turnEntry cfg.toGridConfig t sync).toList } := by
  unfold turn at hturn
  rw [hsync] at hturn
  exact (Option.some.inj hturn).symm

theorem exists_sync (hturn : turn cfg c t = some c') : ∃ sync, c.sync = some sync := by
  unfold turn at hturn
  split at hturn
  · cases hturn
  next sync hsync => exact ⟨sync, hsync⟩

theorem turnEntry_of_none {sync : EntrySync} (h : e.attempt sync = none) {cfg : GridConfig} :
    e.turnEntry cfg t sync = none := by
  unfold turnEntry
  rw [h]
  rfl

/-- **One turn.** -/
theorem Inv.turn (h : Inv price free c) (hrecorded : Recorded cfg c t)
    (hturn : turn cfg c t = some c') : Inv price free c' := by
  obtain ⟨sync, hsync⟩ := exists_sync hturn
  obtain rfl := turn_eq_some hsync hturn
  have hok := h.sync sync hsync
  have hleft := h.slots
  rw [hsync, Option.map_some, Option.getD_some] at hleft
  rcases syncTurn_attempt cfg t.venue sync c.engine with
    ⟨hnone, heq | ⟨p, rest, candidates, hpurposes, hsub, heq⟩⟩ |
      ⟨p, idx, rest, cells, hattempt, hpurposes, hslots, hallows, hsub, heq⟩
  · rw [turnEntry_of_none hnone, heq, Option.toList_none, List.append_nil]
    exact ⟨(Nat.le_add_right _ _).trans hleft, h.once, h.noInventory, h.outside,
      fun _ hs => nomatch hs⟩
  · rw [turnEntry_of_none hnone, heq, Option.toList_none, List.append_nil]
    exact h.keep hsync rfl rfl rfl
      (fun q hq => hok.purposes q (hpurposes ▸ List.mem_cons_of_mem p hq)) rfl rfl
      fun q => (hsub q).subset
  · have hp := hok.purposes p (hpurposes ▸ List.mem_cons_self)
    have hentry : p.isExit = false := by rcases hp with rfl | rfl <;> rfl
    have honly := @entriesOnly_syncTurn _ _ _ _ hok.purposes _ (congrArg Prod.snd heq)
    have hsubAt : ∀ q, Function.update sync.candidates p cells q ⊆ sync.candidates q := fun q => by
      by_cases hq : q = p
      · subst hq
        rw [Function.update_self]
        exact fun j hj => hsub.subset (List.mem_cons_of_mem idx hj)
      · rw [Function.update_of_ne hq]
        exact List.Subset.refl _
    have hplaced : (c.engine.placeLimit cfg.toGridConfig t.venue idx p
        (p.line (c.engine.cells idx)) none).2 = true ↔ _ := placeLimit_snd hentry _
    rcases placeLimit_cells_eq c.engine t.venue cfg.toGridConfig idx p
      (p.line (c.engine.cells idx)) with
      ⟨hfailed, hcells⟩ | ⟨hdone, qty, hcells⟩
    · have hnone : c.engine.turnEntry cfg.toGridConfig t sync = none := by
        rw [turnEntry_of_attempt hattempt]
        refine if_neg fun hleaves => ?_
        have hrec := hrecorded sync hsync (by
          rw [turnEntry_of_attempt hattempt, if_pos hleaves]
          rfl)
        rw [hplaced.mpr ⟨hleaves.1, hrec⟩] at hfailed
        cases hfailed
      rw [heq]
      dsimp only
      rw [hfailed] at honly ⊢
      rw [hnone, Option.toList_none, List.append_nil]
      exact h.keep hsync hcells rfl rfl honly rfl rfl hsubAt
    · have hleaves := hplaced.mp hdone
      rw [turnEntry_of_attempt hattempt, if_pos ⟨hleaves.1, .inl hleaves.2⟩]
      rw [heq]
      dsimp only
      rw [hdone] at honly ⊢
      have hidle : sync.cellStates idx = .idle := by
        unfold allowsEntry at hallows
        exact (of_decide_eq_true hallows).1
      have hmem : idx ∈ sync.candidates p := hsub.subset List.mem_cons_self
      have hside : p = .longEntry ∧ p.line (c.engine.cells idx) < price ∨
          p = .shortEntry ∧ price < p.line (c.engine.cells idx) := by
        rcases hp with rfl | rfl
        · exact .inl ⟨rfl, hok.long idx hmem⟩
        · exact .inr ⟨rfl, hok.short idx hmem⟩
      exact h.record hsync hslots hidle rfl hside hcells rfl rfl honly rfl rfl hsubAt

theorem hasOpenForCell_eq_false {idx : ℕ} {p : GridPurpose} :
    e.hasOpenForCell idx p = false ↔
      ∀ o ∈ e.orders, isOpen o = true → o.cellIndex = idx → o.purpose ≠ p := by
  unfold hasOpenForCell openOrdersForCell
  rw [Bool.not_eq_false', List.isEmpty_iff, List.filter_eq_nil_iff]
  simp only [decide_eq_true_eq]
  exact forall₂_congr fun o ho => ⟨fun h hopen hidx hp => h ⟨hopen, hidx, hp⟩,
    fun h ⟨hopen, hidx, hp⟩ => h hopen hidx hp⟩

/-- A cell has an open entry when it has one of either leg. -/
theorem openEntriesOn_eq_zero {idx : ℕ} : e.openEntriesOn idx = 0 ↔
    e.hasOpenForCell idx .longEntry = false ∧ e.hasOpenForCell idx .shortEntry = false := by
  unfold openEntriesOn
  rw [List.countP_eq_zero, hasOpenForCell_eq_false, hasOpenForCell_eq_false, ← forall₂_and]
  refine forall₂_congr fun o ho => ?_
  unfold isOpenEntry
  cases hopen : isOpen o <;> cases o.purpose <;> simp [GridPurpose.isExit]

/-- An entry is tried where its own leg has none. -/
theorem resting_eq_zero_iff {sync : EntrySync} (honly : EntriesOnly sync) {x : PlacedEntry}
    (hx : e.turnEntry cfg.toGridConfig t sync = some x) :
    x.resting = 0 ↔ e.hasOpenForCell x.cellIndex (otherEntry x.purpose) = false := by
  rcases syncTurn_attempt cfg t.venue sync e with
    ⟨hnone, -⟩ | ⟨p, idx, rest, cells, hattempt, hpurposes, -, hallows, -, -⟩
  · rw [turnEntry_of_none hnone] at hx
    cases hx
  · rw [turnEntry_of_attempt hattempt] at hx
    split at hx
    · obtain rfl := Option.some.inj hx
      unfold allowsEntry at hallows
      have hown : e.hasOpenForCell idx p.entry = false := by
        simpa using (of_decide_eq_true hallows).2.1
      rcases honly p (hpurposes ▸ List.mem_cons_self) with rfl | rfl
      · exact openEntriesOn_eq_zero.trans (and_iff_right hown)
      · exact openEntriesOn_eq_zero.trans (and_iff_left hown)
    · cases hx

theorem noEntry_turn (honly : ∀ sync ∈ c.sync, EntriesOnly sync) (hturn : turn cfg c t = some c') :
    (∀ x ∈ c'.entries, x.resting = 0) ↔ (∀ x ∈ c.entries, x.resting = 0) ∧ NotCrossed cfg c t := by
  obtain ⟨sync, hsync⟩ := exists_sync hturn
  obtain rfl := turn_eq_some hsync hturn
  have hcrossed : NotCrossed cfg c t ↔
      ∀ x ∈ c.engine.turnEntry cfg.toGridConfig t sync, x.resting = 0 := by
    unfold NotCrossed
    simp only [hsync, Option.mem_some_iff, forall_eq']
    exact forall₂_congr fun x hx => (resting_eq_zero_iff (honly sync hsync) hx).symm
  simp only [List.mem_append, Option.mem_toList, or_imp, forall_and, hcrossed, Option.mem_def]

theorem noEntry_run (honly : ∀ sync ∈ c.sync, EntriesOnly sync) {ts : List TurnVenue}
    (hrun : run (turn cfg) c ts = some c') :
    (∀ x ∈ c'.entries, x.resting = 0) ↔
      (∀ x ∈ c.entries, x.resting = 0) ∧ AllSteps (turn cfg) (NotCrossed cfg) c ts := by
  induction ts generalizing c with
  | nil =>
    obtain rfl := Option.some.inj hrun
    exact (and_iff_left trivial).symm
  | cons t ts ih =>
    obtain ⟨next, hturn, hrun⟩ := run_cons_eq_some.mp hrun
    have hnext : ∀ sync ∈ next.sync, EntriesOnly sync := fun sync' hsync' => by
      obtain ⟨sync, hsync⟩ := exists_sync hturn
      obtain rfl := turn_eq_some hsync hturn
      exact entriesOnly_syncTurn (honly sync hsync) hsync'
    rw [ih hnext hrun, noEntry_turn honly hturn, allSteps_cons hturn, and_assoc]

end

/-! ## Main result -/

/-- A long grid over 90, 110 and 130 that may rest two entries. -/
def longGrid : GridEntryConfig :=
  { direction := .long, boundaryAction := .hold, market := .swap, leverage := 1
    gridBudgetUsdt := 900, maxOpenOrders := 2 }

def answering : TurnVenue := { venue := { safeTotal := 1000 } }

/-- The sync at a price of 125. -/
def syncAt125 : SyncInputs := { price := 125, long := answering.venue, short := answering.venue }

def idleCells : GridEngine :=
  { cells := fun idx => ⟨90 + 20 * idx, 110 + 20 * idx, .idle, 0, 0⟩, cellCount := 2 }

/-- A neutral grid with one cell. -/
def neutralGrid : GridEntryConfig :=
  { longGrid with direction := .neutral }

def syncAt100 : SyncInputs := { syncAt125 with price := 100 }

/-- The rest of a long entry is open; what it bought was sold again. -/
def reopenedCell : GridEngine :=
  { cells := fun _ => ⟨90, 110, .idle, 0, 0⟩, cellCount := 1
    orders := [{ id := 1, cellIndex := 0, purpose := .longEntry, price := 90, quantity := 10
                 status := .partialFill, filledQuantity := 4, processedFillQty := 4 }] }

/-- What the call knows of `reopenedCell` before its turns. -/
def reopenedSync : EntrySync :=
  { slots := 1
    allowed := fun _ => true
    cellStates := fun _ => .idle
    candidates := fun _ => [0]
    openByPurpose := fun p =>
      reopenedCell.dedupeEntries.orders.countP fun o => isOpen o && o.purpose = p
    purposes := [.shortEntry, .longEntry] }

theorem start_reopenedCell : start neutralGrid syncAt100 reopenedCell =
    { engine := reopenedCell.dedupeEntries, sync := some reopenedSync } := by
  have hcandidates : reopenedCell.dedupeEntries.entryCandidates .neutral 100 = fun _ => [0] := by
    have hlong : (List.range 1).filter (fun idx =>
        (reopenedCell.dedupeEntries.cells idx).lowerPrice < 100) = [0] := by decide +kernel
    have hshort : (List.range 1).filter (fun idx =>
        100 < (reopenedCell.dedupeEntries.cells idx).upperPrice) = [0] := by decide +kernel
    have hcount : reopenedCell.dedupeEntries.cellCount = 1 := rfl
    funext p
    unfold entryCandidates
    rw [hcount]
    dsimp only
    rw [hlong, hshort, if_pos rfl, if_pos rfl, List.mergeSort_singleton,
      List.mergeSort_singleton, ite_self]
  have hcleared : reopenedCell.clearRefused neutralGrid syncAt100 = reopenedCell := rfl
  have hslots : neutralGrid.maxOpenOrders - reopenedCell.dedupeEntries.orders.countP isOpenEntry =
      1 := by decide +kernel
  have hround : roundOf .neutral reopenedSync.openByPurpose = [.shortEntry, .longEntry] := by
    decide +kernel
  unfold start syncStart
  dsimp only
  rw [if_neg (by decide +kernel), hcleared, if_neg (by decide +kernel), if_neg (by decide +kernel)]
  refine congrArg (fun sync : EntrySync =>
    ({ engine := reopenedCell.dedupeEntries, sync := some sync } : SyncCall)) ?_
  rw [reopenedSync, EntrySync.mk.injEq]
  exact ⟨hslots, funext fun _ => ite_self _, rfl, hcandidates, rfl, hround⟩

end SyncCall

end AlgoTrade
