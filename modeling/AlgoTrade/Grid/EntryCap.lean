import AlgoTrade.Grid.Interleaving

/-! # How many entries rest at once

A sync counts the open entries and takes as many slots as `max_open_orders`
leaves.  An entry that an exit's fill hangs again takes no slot, and neither does
a reader that opens a closed row again.

* `Inv.step`: the open entries and the slots of a running sync stay within the cap.
* `openEntries_le_of_room`: so the open entries do, while every re-hung entry and
  every reopened row finds a slot nobody holds. -/

namespace AlgoTrade

open Runs GridEngine

namespace GridEngine

/-- Writing the row opens an entry again that was closed. -/
def reopens (row : GridRestingOrder) (e : GridEngine) : Bool :=
  e.orders.any fun o => !o.purpose.isExit && (o.id = row.id && !isOpen o && isOpen row)

end GridEngine

namespace GridTable

/-- The open entries, and the slots a running sync has not used yet. -/
def taken (s : GridTable) : ℕ := s.engine.openEntries + (s.sync.map EntrySync.slots).getD 0

/-- No sync is running, and the cap is kept. -/
structure Start (cfg : GridEntryConfig) (s : GridTable) : Prop where
  ids : s.engine.IdsOk
  sync : s.sync = none
  cap : s.engine.openEntries ≤ cfg.maxOpenOrders

/-- What adds an open entry without a slot finds one free; a sync that counts the
open entries gets to read them. -/
def Room (cfg : GridEntryConfig) (s : GridTable) : GridAct → Prop
  | .syncStart inp => inp.lists = true
  | .poll o ans raises _ =>
    ans.status ≠ .unknown → s.engine.reopens (pollOrder ans raises o).order = true →
      s.taken < cfg.maxOpenOrders
  | .event id ev _ _ =>
    ∀ o ∈ s.engine.orders.find? fun o => o.id = id,
      s.engine.reopens (projectGridRow ev o) = true → s.taken < cfg.maxOpenOrders
  | .rehang _ v =>
    v.entryAllowed = true → v.accepts = true → v.inserts = true → s.taken < cfg.maxOpenOrders
  | _ => True

instance (cfg : GridEntryConfig) (s : GridTable) : ∀ act, Decidable (s.Room cfg act)
  | .syncStart _ => inferInstanceAs (Decidable (_ = true))
  | .poll .. => inferInstanceAs (Decidable (_ → _ → _))
  | .event .. => inferInstanceAs (Decidable (∀ _ ∈ _, _ → _))
  | .rehang .. => inferInstanceAs (Decidable (_ → _ → _ → _))
  | .syncTurn _ | .rehangExit .. | .seedExit .. | .dedupeExits _ | .cancelPosition ..
  | .pause .. | .shutdown | .list => inferInstanceAs (Decidable True)

/-- The cap counts the slots of a running sync. -/
structure Inv (cfg : GridEntryConfig) (s : GridTable) : Prop where
  ids : s.engine.IdsOk
  cap : s.taken ≤ cfg.maxOpenOrders

end GridTable

/-! ## Rows that are written -/

namespace GridEngine

section
variable {e e' : GridEngine}

theorem reopens_eq (row : GridRestingOrder) (e : GridEngine) :
    e.reopens row = e.entryOrders.any fun o => o.id = row.id && !isOpen o && isOpen row := by
  unfold reopens entryOrders
  rw [List.any_filter]

theorem ExitsOnly.reopens (h : ExitsOnly e e') (row : GridRestingOrder) :
    e'.reopens row = e.reopens row := by
  rw [reopens_eq, reopens_eq, h.entries]

theorem openEntries_raiseProcessed (id : ℕ) (total : ℚ) :
    (e.raiseProcessed id total).openEntries = e.openEntries := by
  unfold openEntries raiseProcessed
  dsimp only
  rw [List.countP_map]
  refine List.countP_congr fun o _ => ?_
  rw [Function.comp_apply]
  unfold raisedBy
  split <;> rfl

/-- A row that is written adds an open entry only where it was closed. -/
theorem openEntries_writeRow_le (hids : e.IdsOk) (row : GridRestingOrder) :
    (e.writeRow row).openEntries ≤
      e.openEntries + if e.reopens row = true then 1 else 0 := by
  unfold openEntries writeRow
  dsimp only
  by_cases hreopens : e.reopens row = true
  · rw [if_pos hreopens]
    exact List.countP_map_update_le hids.nodup row.id _ _
  · rw [if_neg hreopens, List.countP_map]
    refine List.countP_mono_left fun o ho hopen => ?_
    rw [Function.comp_apply] at hopen
    unfold writtenBy at hopen
    split at hopen
    next hid =>
      by_contra hclosed
      refine hreopens (List.any_eq_true.mpr ⟨o, ho, ?_⟩)
      unfold isOpenEntry at hopen hclosed
      obtain ⟨hrow, hentry⟩ := Bool.and_eq_true_iff.mp hopen
      have ho' : isOpen o = false := by
        cases h : isOpen o with
        | false => rfl
        | true => exact absurd (Bool.and_eq_true_iff.mpr ⟨h, hentry⟩) hclosed
      have hrow' : isOpen row = true := hrow
      have hentry' : (!o.purpose.isExit) = true := hentry
      rw [hentry', ho', hrow', decide_eq_true hid]
      rfl
    next => exact hopen

end

end GridEngine

/-! ## Steps and runs -/

namespace GridTable

section
variable {cfg : GridEntryConfig} {s s' t : GridTable}

/-- Nothing that counts is added. -/
theorem Inv.mono (h : s.Inv cfg) (hids : s'.engine.IdsOk)
    (hle : s'.engine.openEntries ≤ s.engine.openEntries) (hsync : s'.sync = s.sync) :
    s'.Inv cfg := by
  refine ⟨hids, ?_⟩
  unfold taken
  rw [hsync]
  exact (Nat.add_le_add_right hle _).trans h.cap

theorem Inv.exitsOnly (h : s.Inv cfg) (hexits : ExitsOnly s.engine s'.engine)
    (hsync : s'.sync = s.sync) : s'.Inv cfg :=
  h.mono (hexits.ids h.ids) hexits.openEntries.le hsync

/-- At most one open entry is added, and only where a slot is free. -/
theorem Inv.add (h : s.Inv cfg) {p : Prop} [Decidable p] (hids : s'.engine.IdsOk)
    (hle : s'.engine.openEntries ≤ s.engine.openEntries + if p then 1 else 0)
    (hsync : s'.sync = s.sync) (hroom : p → s.taken < cfg.maxOpenOrders) : s'.Inv cfg := by
  refine ⟨hids, ?_⟩
  have hcap := h.cap
  unfold taken at *
  rw [hsync]
  split at hle
  next hp =>
    have hfree := hroom hp
    omega
  next => omega

theorem Inv.syncStart (h : s.Inv cfg) (hidle : s.sync = none) {inp : SyncInputs}
    (hlists : inp.lists = true) :
    Inv cfg { s with
      engine := (s.engine.syncStart cfg inp).1, sync := (s.engine.syncStart cfg inp).2 } := by
  refine ⟨h.ids.syncStart inp, ?_⟩
  unfold taken
  dsimp only
  cases hsync : (s.engine.syncStart cfg inp).2 with
  | none =>
    have hcap := h.cap
    unfold taken at hcap
    rw [hidle] at hcap
    exact (openEntries_syncStart_le inp).trans hcap
  | some sync => exact (openEntries_add_slots hsync hlists).le

theorem Inv.syncTurn (h : s.Inv cfg) {sync : EntrySync} (hsync : s.sync = some sync)
    (v : GridVenue) :
    Inv cfg { s with
      engine := (s.engine.syncTurn cfg v sync).1, sync := (s.engine.syncTurn cfg v sync).2 } := by
  refine ⟨h.ids.syncTurn v sync, ?_⟩
  have hcap := h.cap
  unfold taken at hcap
  rw [hsync] at hcap
  exact (openEntries_syncTurn v sync).trans hcap

/-- A poll hands the fill over and writes the row. -/
theorem Inv.poll (h : s.Inv cfg) {o : GridRestingOrder} {ans : PollAnswer} {raises : Bool}
    {v : GridVenue} (hroom : s.Room cfg (.poll o ans raises v)) :
    Inv cfg (s.poll cfg.toGridConfig o ans raises v) := by
  unfold GridTable.poll
  dsimp only
  split
  · exact h
  next hans =>
    have hfree := hroom hans
    split
    · exact h.add (h.ids.writeRow _) (openEntries_writeRow_le h.ids _) rfl hfree
    next b _ =>
      have hfill : ExitsOnly s.engine (s.engine.fillCell cfg.toGridConfig v o b.quantity b.price).1 :=
        .fillCell o b.quantity b.price
      have hids := hfill.ids h.ids
      have hwritten := openEntries_writeRow_le hids (pollOrder ans raises o).order
      rw [hfill.openEntries, hfill.reopens] at hwritten
      exact h.add (hids.writeRow _) hwritten rfl hfree

/-- An event writes the row and hands the fill over. -/
theorem Inv.event (h : s.Inv cfg) {id : ℕ} {ev : ExecutionEvent} {runner : Bool} {v : GridVenue}
    (hroom : s.Room cfg (.event id ev runner v)) :
    Inv cfg (s.event cfg.toGridConfig id ev runner v) := by
  unfold GridTable.event
  split
  · exact h
  next o hrow =>
    have hfree := hroom o hrow
    have hids := h.ids.writeRow (projectGridRow ev o)
    have hwritten := openEntries_writeRow_le h.ids (projectGridRow ev o)
    dsimp only
    split
    · have hfill : ExitsOnly (s.engine.writeRow (projectGridRow ev o))
          ((s.engine.writeRow (projectGridRow ev o)).fillCell cfg.toGridConfig v o (gridDelta ev o)
            (gridPrice ev o)).1 := .fillCell o _ _
      refine h.add ((hfill.ids hids).raiseProcessed id _) ?_ rfl hfree
      rw [openEntries_raiseProcessed, hfill.openEntries]
      exact hwritten
    · exact h.add hids hwritten rfl hfree

/-- An entry hung again. -/
theorem Inv.rehang (h : s.Inv cfg) {r : Rehang} {v : GridVenue} (hroom : s.Room cfg (.rehang r v)) :
    Inv cfg { s with
      engine := s.engine.placeRehang cfg.toGridConfig v r, rehangs := s.rehangs.erase r } := by
  refine h.add (h.ids.placeLimit _ _ _ _) (openEntries_placeLimit_le _ _ _ _) rfl
    fun ⟨hplaced, hentry⟩ => ?_
  rcases placeLimit_cases cfg.toGridConfig v r.cellIndex r.purpose
      (r.purpose.line (s.engine.cells r.cellIndex)) (some r.quantity) s.engine with
    ⟨_, heq⟩ | ⟨-, -, heq⟩ | ⟨_, hallowed, haccepts, hinserts, heq⟩
  · rw [heq] at hplaced
    cases hplaced
  · rw [heq] at hplaced
    cases hplaced
  · exact hroom (hallowed hentry) haccepts hinserts

/-- **One step** under its condition. -/
theorem Inv.step {act : GridAct} (h : s.Inv cfg) (hroom : s.Room cfg act)
    (hs : GridTable.step cfg s act = some s') : s'.Inv cfg := by
  cases act with
  | syncStart inp =>
    dsimp only [GridTable.step] at hs
    split at hs
    · cases hs
    next hidle =>
      obtain rfl := Option.some.inj hs
      exact h.syncStart hidle hroom
  | syncTurn v =>
    dsimp only [GridTable.step] at hs
    split at hs
    · cases hs
    next sync hsync =>
      obtain rfl := Option.some.inj hs
      exact h.syncTurn hsync v
  | rehangExit v idx =>
    obtain rfl := Option.some.inj hs
    exact h.exitsOnly (.rehangExit idx) rfl
  | seedExit v idx uncoveredQty =>
    obtain rfl := Option.some.inj hs
    exact h.exitsOnly (.seedExit idx uncoveredQty) rfl
  | dedupeExits purpose =>
    dsimp only [GridTable.step] at hs
    split at hs
    · obtain rfl := Option.some.inj hs
      exact h.mono (h.ids.cancelWhere _) (openEntries_cancelWhere_le _) rfl
    · cases hs
  | cancelPosition v long exits =>
    obtain rfl := Option.some.inj hs
    exact h.mono (h.ids.cancelPositionOrders v long exits)
      (openEntries_cancelPositionOrders_le v long exits) rfl
  | pause entries waterfall =>
    obtain rfl := Option.some.inj hs
    exact h.mono h.ids le_rfl rfl
  | shutdown =>
    obtain rfl := Option.some.inj hs
    exact h.mono (h.ids.cancelWhere _) (openEntries_cancelWhere_le _) rfl
  | list =>
    obtain rfl := Option.some.inj hs
    exact h.mono h.ids le_rfl rfl
  | poll o ans raises v =>
    dsimp only [GridTable.step] at hs
    split at hs
    · obtain rfl := Option.some.inj hs
      exact Inv.poll (s := { s with listed := s.listed.erase o }) (h.mono h.ids le_rfl rfl) hroom
    · cases hs
  | event id ev runner v =>
    obtain rfl := Option.some.inj hs
    exact h.event hroom
  | rehang r v =>
    dsimp only [GridTable.step] at hs
    split at hs
    · obtain rfl := Option.some.inj hs
      exact h.rehang hroom
    · cases hs

theorem Start.inv (h : s.Start cfg) : s.Inv cfg := by
  refine ⟨h.ids, ?_⟩
  unfold taken
  rw [h.sync]
  exact h.cap

/-- **The cap is kept** in every run where what is added without a slot finds one
that no sync holds. -/
theorem openEntries_le_of_room {acts : List GridAct} (hstart : s.Start cfg)
    (hroom : AllSteps (GridTable.step cfg) (Room cfg) s acts)
    (hrun : run (GridTable.step cfg) s acts = some t) : t.engine.openEntries ≤ cfg.maxOpenOrders := by
  have h : t.Inv cfg := run_invariant_of_allSteps
    (fun _ _ _ hinv hok hs => hinv.step hok hs) hstart.inv hroom hrun
  exact (Nat.le_add_right _ _).trans h.cap

end

/-! ## An exit beside a running sync -/

/-- Both entries rest; the one at 90 fills, its exit at 100 fills, and it is hung
again. -/
def exitWithRoom : List GridAct :=
  [syncAt 105, .syncTurn openVenue, .syncTurn openVenue, .syncTurn openVenue, filledEvent 1 10 90,
    filledEvent 3 10 100, .rehang ⟨0, .longEntry, 10⟩ openVenue]

theorem emptyTable_start (cfg : GridEntryConfig) : emptyTable.Start cfg := ⟨rfl, rfl, Nat.zero_le _⟩

theorem openEntries_le_of_room_twoEntries :
    ∃ t, run (GridTable.step { oneEntryGrid with maxOpenOrders := 2 }) emptyTable exitWithRoom =
        some t ∧ t.engine.orders.length = 4 ∧ t.engine.openEntries ≤ 2 := by
  obtain ⟨t, hrun, hplaced⟩ := exists_of_any (show (run (GridTable.step
    { oneEntryGrid with maxOpenOrders := 2 }) emptyTable exitWithRoom).any
      (fun t => t.engine.orders.length = 4) = true by decide +kernel)
  exact ⟨t, hrun, hplaced, openEntries_le_of_room (emptyTable_start _) (by decide +kernel) hrun⟩

/-- The entry at 90 fills, a sync places the one at 100 and ends, and the exit at
100 hangs the entry at 90 again. -/
def exitAfterSync : List GridAct :=
  [syncAt 105, .syncTurn openVenue, .syncTurn openVenue, filledEvent 1 10 90, syncAt 105,
    .syncTurn openVenue, .syncTurn openVenue, filledEvent 2 10 100,
    .rehang ⟨0, .longEntry, 10⟩ openVenue]

/-- Two entries rest where one may. -/
theorem exitAfterSync_exceedsCap :
    emptyTable.Start oneEntryGrid ∧ 0 < oneEntryGrid.maxOpenOrders ∧
      ∃ t, run (GridTable.step oneEntryGrid) emptyTable exitAfterSync = some t ∧
        oneEntryGrid.maxOpenOrders < t.engine.openEntries :=
  ⟨emptyTable_start _, by decide, exists_of_any (by decide +kernel)⟩

end GridTable

end AlgoTrade
