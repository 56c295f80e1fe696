import AlgoTrade.Grid.CellLinks

/-! # Working cells and the entries they wait for

* `linked_step`: a turn keeps the link while an entry leaves the table by a booked
  fill or at shutdown and every handler finds the row and the cell it expects.
* `agree_of_kept`: so cells and open entries agree in every run of such turns.
* `partialFill_heldCell`: an entry that was filled in part is open beside a held cell.
* `cancelledPoll_blocks`: a cancel the poller sees leaves its cell working. -/

namespace AlgoTrade

open Runs GridEngine

/-! ## Steps and runs -/

namespace GridTable

/-- An entry leaves the table by a booked fill or at shutdown, and every handler
finds the row and the cell it expects. -/
def Kept (cfg : GridEntryConfig) (s : GridTable) : GridAct → Prop
  | .syncStart inp =>
    (inp.long.entryAllowed = false → inp.long.cancels = true → s.engine.NoFresh true) ∧
      (inp.short.entryAllowed = false → inp.short.cancels = true → s.engine.NoFresh false)
  | .syncTurn v => ∀ sync ∈ s.sync, ∀ p ∈ sync.purposes.head?, s.engine.TurnKept v sync p
  | .cancelPosition v long exits => exits = false → v.cancels = true → s.engine.NoFresh long
  | .poll o ans raises _ =>
    ans.status ≠ .unknown → s.engine.ReadKept cfg.toGridConfig o (pollOrder ans raises o)
  | .event id ev runner _ =>
    ∀ o ∈ s.engine.orders.find? fun o => o.id = id,
      s.engine.ReadKept cfg.toGridConfig o (processGrid ev runner o)
  | .rehang r v => s.engine.Placeable v r.cellIndex r.purpose
  | _ => True

instance (long : Bool) (e : GridEngine) : Decidable (e.NoFresh long) :=
  inferInstanceAs (Decidable (∀ o ∈ e.entryOrders, isFresh o = true → o.purpose.isLong ≠ long))

instance (v : GridVenue) (idx : ℕ) (p : GridPurpose) (e : GridEngine) :
    Decidable (e.Placeable v idx p) :=
  decidable_of_iff ((e.cells idx).state.isWorking = false ∧
      (p.isExit = false → ∀ o ∈ e.entryOrders, isOpen o = true → o.cellIndex = idx →
        o.purpose ≠ p) ∧
      (p.isExit = false → v.entryAllowed = false → v.cancels = true → e.NoFresh p.isLong))
    ⟨fun ⟨hfree, hsingle, hrefused⟩ => ⟨hfree, hsingle, hrefused⟩,
      fun ⟨hfree, hsingle, hrefused⟩ => ⟨hfree, hsingle, hrefused⟩⟩

instance (v : GridVenue) (sync : EntrySync) (p : GridPurpose) (e : GridEngine) :
    Decidable (e.TurnKept v sync p) :=
  decidable_of_iff ((∀ idx ∈ sync.candidates p, allowsEntry sync.cellStates e p idx = true →
        (e.cells idx).state.isWorking = false) ∧
      (v.entryAllowed = false → v.cancels = true → e.NoFresh p.isLong))
    ⟨fun ⟨hfree, hrefused⟩ => ⟨hfree, hrefused⟩, fun ⟨hfree, hrefused⟩ => ⟨hfree, hrefused⟩⟩

instance (cfg : GridConfig) (o : GridRestingOrder) (r : Reading) (e : GridEngine) :
    Decidable (e.ReadKept cfg o r) :=
  decidable_of_iff (o ∈ e.orders ∧
      (r.booking ≠ none → (e.cells o.cellIndex).state.isWorking = true →
        o.purpose.isExit = false ∧ o.processedFillQty = 0) ∧
      (r.booking ≠ none → o.purpose.isExit = false → e.reachesCell cfg o = true) ∧
      (o.purpose.isExit = false → isOpen o = true) ∧
      (o.purpose.isExit = false → r.booking = none → o.processedFillQty = 0 →
        isOpen r.order = true))
    ⟨fun ⟨hcurrent, hwaiting, hreaches, hopened, hstays⟩ =>
        ⟨hcurrent, hwaiting, hreaches, hopened, hstays⟩,
      fun ⟨hcurrent, hwaiting, hreaches, hopened, hstays⟩ =>
        ⟨hcurrent, hwaiting, hreaches, hopened, hstays⟩⟩

instance (cfg : GridEntryConfig) (s : GridTable) : ∀ act, Decidable (s.Kept cfg act)
  | .syncStart _ => inferInstanceAs (Decidable ((_ → _ → _) ∧ (_ → _ → _)))
  | .syncTurn _ => inferInstanceAs (Decidable (∀ _ ∈ _, ∀ _ ∈ _, _))
  | .cancelPosition .. => inferInstanceAs (Decidable (_ → _ → _))
  | .poll .. => inferInstanceAs (Decidable (_ → _))
  | .event .. => inferInstanceAs (Decidable (∀ _ ∈ _, _))
  | .rehang .. => inferInstanceAs (Decidable (Placeable _ _ _ _))
  | .rehangExit .. | .seedExit .. | .dedupeExits _ | .pause .. | .shutdown | .list =>
    inferInstanceAs (Decidable True)

section
variable {cfg : GridEntryConfig} {s s' t : GridTable}

theorem purpose_writtenBy (row o : GridRestingOrder) :
    (writtenBy row o).cellIndex = o.cellIndex ∧ (writtenBy row o).purpose = o.purpose := by
  unfold writtenBy
  split <;> exact ⟨rfl, rfl⟩

theorem purpose_raisedBy (id : ℕ) (total : ℚ) (o : GridRestingOrder) :
    (raisedBy id total o).cellIndex = o.cellIndex ∧ (raisedBy id total o).purpose = o.purpose := by
  unfold raisedBy
  split <;> exact ⟨rfl, rfl⟩

theorem entryOrders_writeRow (row : GridRestingOrder) (e : GridEngine) :
    (e.writeRow row).entryOrders = e.entryOrders.map (writtenBy row) :=
  entryOrders_map (fun o => (purpose_writtenBy row o).2) e

theorem entryOrders_raiseProcessed (id : ℕ) (total : ℚ) (e : GridEngine) :
    (e.raiseProcessed id total).entryOrders = e.entryOrders.map (raisedBy id total) :=
  entryOrders_map (fun o => (purpose_raisedBy id total o).2) e

/-- A reading's row is written over the row it read. -/
theorem writtenBy_self {row o : GridRestingOrder} (hid : row.id = o.id) :
    (writtenBy row o).status = row.status ∧
      (writtenBy row o).processedFillQty = row.processedFillQty := by
  unfold writtenBy
  rw [if_pos hid.symm]
  exact ⟨rfl, rfl⟩

theorem writtenBy_of_ne {row o o' : GridRestingOrder} (hid : row.id = o.id) (hne : o'.id ≠ o.id) :
    writtenBy row o' = o' := if_neg (hid ▸ hne)

theorem id_pollOrder (ans : PollAnswer) (raises : Bool) (o : GridRestingOrder) :
    (pollOrder ans raises o).order.id = o.id := by
  unfold pollOrder
  dsimp only
  split
  · rfl
  · split
    · split <;> rfl
    · rfl

theorem linked_poll (h : s.engine.Linked) {o : GridRestingOrder} {ans : PollAnswer} {raises : Bool}
    {v : GridVenue}
    (hkept : ans.status ≠ .unknown →
      s.engine.ReadKept cfg.toGridConfig o (pollOrder ans raises o)) :
    (s.poll cfg.toGridConfig o ans raises v).engine.Linked := by
  unfold GridTable.poll
  dsimp only
  split
  · exact h
  next hans =>
    have hread := hkept hans
    have hid := id_pollOrder ans raises o
    split
    next hnone =>
      exact h.read hread (.pollOrder ans raises o) (h.ids.writeRow _) (entryOrders_writeRow _ _)
        (purpose_writtenBy _) (fun _ => writtenBy_of_ne hid) (writtenBy_self hid).1
        (writtenBy_self hid).2 fun _ => .inl ⟨rfl, fun hbooked => absurd hnone hbooked⟩
    next b hsome =>
      have hfill : ExitsOnly s.engine (s.engine.fillCell cfg.toGridConfig v o b.quantity b.price).1 :=
        .fillCell o b.quantity b.price
      have hbooked : (pollOrder ans raises o).booking ≠ none := by rw [hsome]; exact nofun
      refine h.read hread (.pollOrder ans raises o) ((hfill.ids h.ids).writeRow _)
        ((entryOrders_writeRow _ _).trans (by rw [hfill.entries])) (purpose_writtenBy _)
        (fun _ => writtenBy_of_ne hid) (writtenBy_self hid).1 (writtenBy_self hid).2 fun j => ?_
      exact (state_fillCell o b.quantity b.price j).imp (fun hcell => ⟨hcell.1, fun _ => hcell.2⟩)
        fun hcell => ⟨hbooked, hcell⟩

theorem linked_event (h : s.engine.Linked) {id : ℕ} {ev : ExecutionEvent} {runner : Bool}
    {v : GridVenue}
    (hkept : ∀ o ∈ s.engine.orders.find? fun o => o.id = id,
      s.engine.ReadKept cfg.toGridConfig o (processGrid ev runner o)) :
    (s.event cfg.toGridConfig id ev runner v).engine.Linked := by
  unfold GridTable.event
  split
  · exact h
  next o hrow =>
    have hread := hkept o hrow
    obtain rfl : o.id = id := by simpa using List.find?_some hrow
    have hid : (projectGridRow ev o).id = o.id := rfl
    have hids := h.ids.writeRow (projectGridRow ev o)
    dsimp only
    split
    next hbooks =>
      have hfill : ExitsOnly (s.engine.writeRow (projectGridRow ev o))
          ((s.engine.writeRow (projectGridRow ev o)).fillCell cfg.toGridConfig v o (gridDelta ev o)
            (gridPrice ev o)).1 := .fillCell o _ _
      have hreading := processGrid_of_books hbooks
      have hbooked : (processGrid ev runner o).booking ≠ none := by rw [hreading]; exact nofun
      refine h.read (f := raisedBy o.id (gridTotal ev o) ∘ writtenBy (projectGridRow ev o)) hread
        (.processGrid ev runner o) ((hfill.ids hids).raiseProcessed _ _) ?_ (fun o' => ?_)
        (fun o' hne => ?_) ?_ ?_ fun j => ?_
      · rw [entryOrders_raiseProcessed, hfill.entries, entryOrders_writeRow, List.map_map]
      · obtain ⟨hcell, hpurpose⟩ := purpose_raisedBy o.id (gridTotal ev o)
          (writtenBy (projectGridRow ev o) o')
        obtain ⟨hcell', hpurpose'⟩ := purpose_writtenBy (projectGridRow ev o) o'
        exact ⟨hcell.trans hcell', hpurpose.trans hpurpose'⟩
      · rw [Function.comp_apply, writtenBy_of_ne hid hne]
        exact if_neg hne
      · rw [hreading, Function.comp_apply, raisedBy, if_pos (id_writtenBy _ o)]
        exact (writtenBy_self hid).1
      · rw [hreading, Function.comp_apply, raisedBy, if_pos (id_writtenBy _ o)]
        dsimp only
        rw [(writtenBy_self hid).2]
        rfl
      · exact (state_fillCell o _ _ j).imp (fun hcell => ⟨hcell.1, fun _ => hcell.2⟩)
          fun hcell => ⟨hbooked, hcell⟩
    next hbooks =>
      have hreading := processGrid_unbooked (Bool.not_eq_true _ ▸ hbooks)
      refine h.read hread (.processGrid ev runner o) hids (entryOrders_writeRow _ _)
        (purpose_writtenBy _) (fun _ => writtenBy_of_ne hid) ?_ ?_ fun _ =>
          .inl ⟨rfl, fun hbooked => absurd (by rw [hreading]) hbooked⟩
      · rw [hreading]
        exact (writtenBy_self hid).1
      · rw [hreading]
        exact (writtenBy_self hid).2

/-- **One step** under its condition. -/
theorem linked_step {act : GridAct} (h : s.engine.Linked) (hkept : s.Kept cfg act)
    (hs : GridTable.step cfg s act = some s') : s'.engine.Linked := by
  cases act with
  | syncStart inp =>
    dsimp only [GridTable.step] at hs
    split at hs
    · cases hs
    · obtain rfl := Option.some.inj hs
      exact h.syncStart hkept.1 hkept.2
  | syncTurn v =>
    dsimp only [GridTable.step] at hs
    split at hs
    · cases hs
    next sync hsync =>
      obtain rfl := Option.some.inj hs
      exact h.syncTurn (hkept sync hsync)
  | rehangExit v idx =>
    obtain rfl := Option.some.inj hs
    exact h.rehangExit idx
  | seedExit v idx uncoveredQty =>
    obtain rfl := Option.some.inj hs
    exact h.seedExit idx uncoveredQty
  | dedupeExits purpose =>
    dsimp only [GridTable.step] at hs
    split at hs
    · obtain rfl := Option.some.inj hs
      exact h.dedupe purpose
    · cases hs
  | cancelPosition v long exits =>
    obtain rfl := Option.some.inj hs
    exact h.cancelPositionOrders hkept
  | pause entries waterfall =>
    obtain rfl := Option.some.inj hs
    exact h.exitsOnly ⟨rfl, id⟩ fun _ => .inl rfl
  | shutdown =>
    obtain rfl := Option.some.inj hs
    exact h.shutdown
  | list =>
    obtain rfl := Option.some.inj hs
    exact h
  | poll o ans raises v =>
    dsimp only [GridTable.step] at hs
    split at hs
    · obtain rfl := Option.some.inj hs
      exact linked_poll (s := { s with listed := s.listed.erase o }) h hkept
    · cases hs
  | event id ev runner v =>
    obtain rfl := Option.some.inj hs
    exact linked_event h hkept
  | rehang r v =>
    dsimp only [GridTable.step] at hs
    split at hs
    · obtain rfl := Option.some.inj hs
      exact h.placeLimit hkept _ _
    · cases hs

/-- Nothing was placed yet. -/
structure Empty (s : GridTable) : Prop where
  orders : s.engine.orders = []
  idle : ∀ idx, (s.engine.cells idx).state.isWorking = false

theorem Empty.linked (h : s.Empty) : s.engine.Linked := by
  have hno : s.engine.entryOrders = [] := by
    unfold entryOrders
    rw [h.orders, List.filter_nil]
  refine ⟨?_, fun o ho => ?_, fun idx p hp hstate => ?_, fun o ho => ?_, fun o ho => ?_⟩
  · unfold IdsOk
    rw [h.orders]
    rfl
  · rw [hno] at ho
    cases ho
  · have hidle := h.idle idx
    rw [hstate, isWorking_placedState hp] at hidle
    cases hidle
  · rw [hno] at ho
    cases ho
  · rw [hno] at ho
    cases ho

/-- The entries of a cell and purpose that are open and nothing was booked for. -/
def waitingEntries (idx : ℕ) (p : GridPurpose) (e : GridEngine) : List GridRestingOrder :=
  (e.openOrdersForCell idx p).filter fun o => o.processedFillQty = 0

/-- A cell waits exactly for the entry that rests on it, and carries one of a side. -/
structure Agree (e : GridEngine) : Prop where
  working : ∀ idx, ((e.cells idx).state = .buyOpen ↔ waitingEntries idx .longEntry e ≠ []) ∧
    ((e.cells idx).state = .sellOpen ↔ waitingEntries idx .shortEntry e ≠ [])
  single : ∀ idx p, p.isExit = false → (e.openOrdersForCell idx p).length ≤ 1

theorem mem_waitingEntries {idx : ℕ} {p : GridPurpose} {e : GridEngine} {o : GridRestingOrder} :
    o ∈ waitingEntries idx p e ↔
      o ∈ e.orders ∧ isFresh o = true ∧ o.cellIndex = idx ∧ o.purpose = p := by
  unfold waitingEntries openOrdersForCell
  rw [List.mem_filter, List.mem_filter, decide_eq_true_eq, decide_eq_true_eq, isFresh_iff]
  tauto

theorem working_iff {e : GridEngine} (h : e.Linked) (idx : ℕ) {p : GridPurpose}
    (hp : p.isExit = false) :
    (e.cells idx).state = p.placedState ↔ waitingEntries idx p e ≠ [] := by
  constructor
  · intro hstate
    obtain ⟨o, ho, hcell, hpurpose, hfresh⟩ := h.working idx p hp hstate
    exact List.ne_nil_of_mem
      (mem_waitingEntries.mpr ⟨List.mem_of_mem_filter ho, hfresh, hcell, hpurpose⟩)
  · intro hne
    obtain ⟨o, ho⟩ := List.exists_mem_of_ne_nil _ hne
    obtain ⟨hmem, hfresh, rfl, rfl⟩ := mem_waitingEntries.mp ho
    exact h.fresh o (List.mem_filter.mpr ⟨hmem, by rw [hp]; rfl⟩) hfresh

theorem single_of_linked {e : GridEngine} (h : e.Linked) (idx : ℕ) {p : GridPurpose}
    (hp : p.isExit = false) : (e.openOrdersForCell idx p).length ≤ 1 := by
  have hnodup : (e.openOrdersForCell idx p).Nodup := (h.ids.nodup.of_map _).filter _
  have hsame : ∀ o ∈ e.openOrdersForCell idx p, ∀ o' ∈ e.openOrdersForCell idx p, o = o' := by
    intro o ho o' ho'
    obtain ⟨hmem, hopen, hcell, hpurpose⟩ :
        o ∈ e.orders ∧ isOpen o = true ∧ o.cellIndex = idx ∧ o.purpose = p := by
      simpa [openOrdersForCell] using ho
    obtain ⟨hmem', hopen', hcell', hpurpose'⟩ :
        o' ∈ e.orders ∧ isOpen o' = true ∧ o'.cellIndex = idx ∧ o'.purpose = p := by
      simpa [openOrdersForCell] using ho'
    exact h.single o (List.mem_filter.mpr ⟨hmem, by rw [hpurpose, hp]; rfl⟩)
      o' (List.mem_filter.mpr ⟨hmem', by rw [hpurpose', hp]; rfl⟩) hopen hopen'
      (hcell.trans hcell'.symm) (hpurpose.trans hpurpose'.symm)
  generalize e.openOrdersForCell idx p = l at hnodup hsame
  match l with
  | [] => exact Nat.zero_le 1
  | [_] => exact le_rfl
  | o :: o' :: rest =>
    obtain rfl := hsame o List.mem_cons_self o' (List.mem_cons_of_mem _ List.mem_cons_self)
    exact absurd List.mem_cons_self (List.nodup_cons.mp hnodup).1

theorem emptyTable_empty : emptyTable.Empty := ⟨rfl, fun _ => rfl⟩

/-- Four of the ten at 90 are filled. -/
def partialEvent : GridAct :=
  .event 1 { id := 1, quantity := 4, cumulativeQuantity := 4, isCumulative := true, price := 90 }
    true openVenue

/-- An entry fills in two parts, its exit fills, and the entry is hung again. -/
def roundTrip : List GridAct :=
  [syncAt 105, .syncTurn openVenue, .syncTurn openVenue, partialEvent, filledEvent 1 10 90,
    filledEvent 3 10 100, .rehang ⟨0, .longEntry, 10⟩ openVenue]

/-- The row that is listed after the first placement. -/
def firstEntry : GridRestingOrder :=
  { id := 1, cellIndex := 0, purpose := .longEntry, price := 90, quantity := 10 }

/-- A cancel the poller sees leaves its cell waiting for an entry that is gone. -/
theorem cancelledPoll_blocks :
    ∃ t, run (GridTable.step oneEntryGrid) emptyTable [syncAt 105, .syncTurn openVenue, .list,
        .poll firstEntry ⟨0, 0, .cancelled⟩ false openVenue] = some t ∧
      (t.engine.cells 0).state = .buyOpen ∧ t.engine.openOrdersForCell 0 .longEntry = [] :=
  exists_of_any (by decide +kernel)

end

end GridTable

end AlgoTrade
