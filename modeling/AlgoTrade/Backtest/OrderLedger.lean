import AlgoTrade.Backtest.LedgerRows
import AlgoTrade.Lib.Lists

/-! # The order ledger

What `_append_order_event` keeps of the events it is given, and what
`_sync_order_statuses` reads off it, in any order of appends, polls of resting
orders, cancellations and syncs.

* `Audit`: the ledger beside the list of all events, with the row each went to.
* `NothingLost`: what the ledger still says of them.
* `executeOrder_recorded`: an attempt of the broker is one such append or poll. -/

namespace AlgoTrade.Backtest

/-! ## Rows -/

/-- `max(1, int(item.get("occurrenceCount") or 1))`. -/
def OrderEvent.occurrences (e : OrderEvent) : ℕ :=
  max 1 ((e.resting.map RestingWindow.occurrenceCount).getD 1)

/-- A row that polls of its order are folded into. -/
def OrderEvent.isResting (e : OrderEvent) : Bool :=
  e.status = .deferred ∧ e.statusReason = .limitNotReached ∧ e.resting.isSome

/-- The row that a poll is folded into. -/
def Book.foldedInto (b : Book) (event : OrderEvent) : Option ℕ :=
  (event.clientOrderId.bind ClientRef.stripped).bind fun reference =>
    (b.restingDeferredEvents.get? reference).filter fun index =>
      (b.orderLedger[index]?).any OrderEvent.isResting

/-- The index `_append_order_event` returns for a poll. -/
def Book.rowOfPoll (b : Book) (event : OrderEvent) : ℕ :=
  (b.foldedInto event).getD b.orderLedger.length

/-- The first row of a resting period. -/
def OrderEvent.opening (event : OrderEvent) : OrderEvent :=
  { event with
    resting := some
      { firstEventTime := event.eventTime
        lastEventTime := event.eventTime
        minRequestedQuantity := event.requestedQuantity
        maxRequestedQuantity := event.requestedQuantity } }

/-- Where a poll goes. -/
inductive Polled (b : Book) (event : OrderEvent) : Book → ℕ → Prop
  | unnamed (h : event.clientOrderId.bind ClientRef.stripped = none) :
      Polled b event { b with orderLedger := b.orderLedger ++ [event] } b.orderLedger.length
  | opened (reference : ClientRef) (h : event.clientOrderId.bind ClientRef.stripped = some reference) :
      Polled b event
        { b with
          orderLedger := b.orderLedger ++ [event.opening]
          restingDeferredEvents := b.restingDeferredEvents.set reference b.orderLedger.length }
        b.orderLedger.length
  | folded (reference : ClientRef) (index : ℕ) (existing : OrderEvent) (w : RestingWindow)
      (h : event.clientOrderId.bind ClientRef.stripped = some reference)
      (hindex : b.restingDeferredEvents.get? reference = some index)
      (hexisting : b.orderLedger[index]? = some existing) (hstatus : existing.status = .deferred)
      (hw : existing.resting = some w) :
      Polled b event { b with orderLedger := b.orderLedger.set index (existing.poll event w) } index

theorem appendRestingEvent_polled (b : Book) (event : OrderEvent) :
    Polled b event (b.appendRestingEvent event) (b.rowOfPoll event) := by
  unfold Book.appendRestingEvent Book.rowOfPoll Book.foldedInto
  cases href : event.clientOrderId.bind ClientRef.stripped with
  | none => exact .unnamed href
  | some reference =>
    dsimp only [Option.bind_some]
    cases hindex : b.restingDeferredEvents.get? reference with
    | none => exact .opened reference href
    | some index =>
      dsimp only
      cases hexisting : b.orderLedger[index]? with
      | none =>
        rw [Option.filter_some, hexisting]
        exact .opened reference href
      | some existing =>
        rw [Option.filter_some, hexisting, Option.any_some]
        dsimp only
        split
        next w hstatus hreason hw =>
          rw [if_pos (by rw [OrderEvent.isResting, hstatus, hreason, hw]; rfl)]
          exact .folded reference index existing w href hindex hexisting hstatus hw
        next hother =>
          rw [if_neg]
          · exact .opened reference href
          · intro hresting
            obtain ⟨hstatus, hreason, hsome⟩ := of_decide_eq_true hresting
            obtain ⟨w, hw⟩ := Option.isSome_iff_exists.mp hsome
            exact hother w hstatus hreason hw

/-! ## Fills in the ledger -/

/-- What the rows say was filled under an id. -/
def filledIn (reference : ClientRef) (rows : List Telling) : ℚ :=
  (rows.map fun row => if row.reference = some reference then row.quantity else 0).sum

theorem filledIn_append (reference : ClientRef) (rows rows' : List Telling) :
    filledIn reference (rows ++ rows') = filledIn reference rows + filledIn reference rows' := by
  unfold filledIn
  rw [List.map_append, List.sum_append]

section
variable {G : Type}

/-- The summaries and the statuses tell these quantities. -/
def FillsTold (s : Session G) (filled : ClientRef → ℚ) : Prop :=
  ∀ reference, ((s.orderStatusSummaries.get? reference).getD {}).filledQuantity = filled reference ∧
    ((s.context.orderStatuses.get? reference).getD {}).filledQuantity = filled reference

theorem FillsTold.summarize {s : Session G} {filled : ClientRef → ℚ} (h : FillsTold s filled)
    (event : OrderEvent) : FillsTold (s.summarize event) fun reference =>
      filled reference + filledIn reference [event.tells] := by
  intro reference
  have hsingle : filledIn reference [event.tells] =
      if event.clientOrderId.bind ClientRef.stripped = some reference then
        max 0 event.filledQuantity else 0 := List.sum_singleton
  dsimp only
  rw [hsingle]
  unfold Session.summarize
  cases event.clientOrderId.bind ClientRef.stripped with
  | none =>
    rw [if_neg (fun heq => nomatch heq), add_zero]
    exact h reference
  | some own =>
    dsimp only
    simp only [Dict.get?_set]
    by_cases heq : own = reference
    · subst heq
      rw [if_pos rfl, if_pos rfl, if_pos rfl, ← (h own).1]
      exact ⟨rfl, rfl⟩
    · rw [if_neg heq, if_neg heq, if_neg fun hsome => heq (Option.some.inj hsome), add_zero]
      exact h reference

/-- **The sync** adds what the rows after its cursor tell. -/
theorem FillsTold.sync {s : Session G} {filled : ClientRef → ℚ} (h : FillsTold s filled) (b : Book) :
    FillsTold (s.syncOrderStatuses b) fun reference =>
      filled reference + filledIn reference (b.told.drop s.orderStatusCursor) := by
  have hfold : ∀ (events : List OrderEvent) (s : Session G) (filled : ClientRef → ℚ),
      FillsTold s filled → FillsTold (events.foldl Session.summarize s) fun reference =>
        filled reference + filledIn reference (events.map OrderEvent.tells) := by
    intro events
    induction events with
    | nil =>
      intro s filled h reference
      dsimp only
      rw [List.map_nil, show filledIn reference [] = 0 from rfl, add_zero]
      exact h reference
    | cons event events ih =>
      intro s filled h reference
      dsimp only
      rw [List.foldl_cons, List.map_cons, ← List.singleton_append, filledIn_append, ← add_assoc]
      exact ih (s.summarize event) _ (h.summarize event) reference
  rw [Book.told, ← List.map_drop]
  exact hfold (b.orderLedger.drop s.orderStatusCursor) s filled h

end

/-! ## Calls -/

/-- An event of one attempt, and what was executed then. -/
structure Appended where
  event : OrderEvent
  execution : Option Execution
  fresh : event.resting = none
  filled : event.filledQuantity = (execution.map fun e => |e.quantity|).getD 0
  isFill : execution.isSome = true ↔ event.status = .filled ∨ event.status = .partFilled

/-- A resting limit order that was not reached; `execute` polls it for a quantity. -/
structure RestingPoll where
  event : OrderEvent
  fresh : event.resting = none
  status : event.status = .deferred
  statusReason : event.statusReason = .limitNotReached
  requested_pos : 0 < event.requestedQuantity
  unfilled : event.filledQuantity = 0

def RestingPoll.appended (p : RestingPoll) : Appended where
  event := p.event
  execution := none
  fresh := p.fresh
  filled := p.unfilled
  isFill := by
    rw [p.status]
    decide

inductive LedgerCall
  | append (a : Appended)
  /-- With `coalesce_resting`. -/
  | poll (p : RestingPoll)
  /-- `release_resting_order_references` -/
  | release (references : List ClientRef)
  /-- `_sync_order_statuses` -/
  | sync

/-- The book and the session beside every event so far and the row it went to. -/
structure Audit (G : Type) where
  book : Book
  session : Session G
  appended : List (Appended × ℕ) := []

namespace Audit

variable {G : Type}

/-- Nothing recorded yet. -/
def start (b : Book) (g : G) : Audit G where
  book := { b with orderLedger := [], restingDeferredEvents := {} }
  session := { strategy := g }

def step (s : Audit G) : LedgerCall → Audit G
  | .append a =>
    { s with
      book := s.book.appendOrderEvent a.event
      appended := s.appended ++ [(a, s.book.orderLedger.length)] }
  | .poll p =>
    { s with
      book := s.book.appendRestingEvent p.event
      appended := s.appended ++ [(p.appended, s.book.rowOfPoll p.event)] }
  | .release references => { s with book := s.book.releaseResting references }
  | .sync => { s with session := s.session.syncOrderStatuses s.book }

def run (s : Audit G) (calls : List LedgerCall) : Audit G := calls.foldl step s

/-- An event is about this order and has this status. -/
def tells (reference : Option ClientRef) (status : EventStatus) (e : OrderEvent) : Bool :=
  e.tells.reference = reference ∧ e.status = status

/-- What was executed under a reference. -/
def executedUnder (s : Audit G) (reference : ClientRef) : ℚ :=
  (s.appended.map fun a =>
    if a.1.event.tells.reference = some reference then
      (a.1.execution.map fun e => |e.quantity|).getD 0
    else 0).sum

/-- **Nothing is lost**: occurrences are counted, a fill has a row that is its own,
and a row bounds the quantities of all events in it. -/
structure NothingLost (s : Audit G) : Prop where
  counts : ∀ reference status,
    ((s.book.orderLedger.filter (tells reference status)).map OrderEvent.occurrences).sum =
      s.appended.countP fun a => tells reference status a.1.event
  fills : ∀ a ∈ s.appended, a.1.execution.isSome = true →
    s.book.orderLedger[a.2]? = some a.1.event ∧ (s.appended.filter fun c => c.2 = a.2) = [a]
  bounds : ∀ a ∈ s.appended, ∃ row, s.book.orderLedger[a.2]? = some row ∧
    row.tells.reference = a.1.event.tells.reference ∧ ∀ w ∈ row.resting,
      w.minRequestedQuantity ≤ a.1.event.requestedQuantity ∧
        a.1.event.requestedQuantity ≤ w.maxRequestedQuantity

/-- The statuses show what was executed. -/
def FillsShown (s : Audit G) : Prop :=
  ∀ reference, ((s.session.context.orderStatuses.get? reference).getD {}).filledQuantity =
    s.executedUnder reference

/-! ## The invariant -/

/-- What every call keeps. -/
structure Kept (s : Audit G) : Prop extends NothingLost s where
  positive : ∀ row ∈ s.book.orderLedger, ∀ w ∈ row.resting,
    1 ≤ w.occurrenceCount ∧ 0 < w.minRequestedQuantity ∧ 0 < w.maxRequestedQuantity
  windows : ∀ reference index, s.book.restingDeferredEvents.get? reference = some index →
    ∃ row, s.book.orderLedger[index]? = some row ∧ row.tells.reference = some reference
  told : ∀ reference, filledIn reference s.book.told = s.executedUnder reference
  cursor : s.session.orderStatusCursor ≤ s.book.told.length
  shown : FillsTold s.session fun reference =>
    filledIn reference (s.book.told.take s.session.orderStatusCursor)

theorem kept_start (b : Book) (g : G) : Kept (start b g) where
  counts _ _ := rfl
  fills _ ha := (List.not_mem_nil ha).elim
  bounds _ ha := (List.not_mem_nil ha).elim
  positive _ hrow := (List.not_mem_nil hrow).elim
  windows _ _ h := nomatch h
  told _ := rfl
  cursor := le_rfl
  shown _ := ⟨rfl, rfl⟩

variable {s : Audit G}

theorem executedUnder_append (s : Audit G) (book : Book) (a : Appended) (index : ℕ)
    (reference : ClientRef) :
    ({ s with book, appended := s.appended ++ [(a, index)] } : Audit G).executedUnder reference =
      s.executedUnder reference + filledIn reference [a.event.tells] := by
  have hquantity : a.event.tells.quantity = (a.execution.map fun e => |e.quantity|).getD 0 := by
    show max 0 a.event.filledQuantity = _
    rw [a.filled]
    cases a.execution with
    | none => exact max_self 0
    | some e => exact max_eq_right (abs_nonneg e.quantity)
  show ((s.appended ++ [(a, index)]).map _).sum = _
  rw [List.map_append, List.sum_append, List.map_singleton, List.sum_singleton]
  refine congrArg (s.executedUnder reference + ·) ?_
  rw [filledIn, List.map_singleton, List.sum_singleton, hquantity]

/-- Every event has a row, so that the next row is new. -/
theorem NothingLost.row_lt (h : NothingLost s) {a : Appended × ℕ} (ha : a ∈ s.appended) :
    a.2 < s.book.orderLedger.length := by
  obtain ⟨row, hrow, -⟩ := h.bounds a ha
  exact (List.getElem?_eq_some_iff.mp hrow).1

/-- **A new row** for an event. -/
theorem Kept.add (h : Kept s) (a : Appended) (row : OrderEvent) (resting : Dict ClientRef ℕ)
    (htells : row.tells = a.event.tells) (hone : row.occurrences = 1)
    (hfill : a.execution.isSome = true → row = a.event)
    (hwindow : ∀ w ∈ row.resting, 1 ≤ w.occurrenceCount ∧ 0 < w.minRequestedQuantity ∧
      w.minRequestedQuantity ≤ a.event.requestedQuantity ∧
        a.event.requestedQuantity ≤ w.maxRequestedQuantity)
    (hresting : ∀ reference index, resting.get? reference = some index →
      s.book.restingDeferredEvents.get? reference = some index ∨
        index = s.book.orderLedger.length ∧ row.tells.reference = some reference) :
    Kept
      { s with
        book := { s.book with
          orderLedger := s.book.orderLedger ++ [row]
          restingDeferredEvents := resting }
        appended := s.appended ++ [(a, s.book.orderLedger.length)] } := by
  have hlast : (s.book.orderLedger ++ [row])[s.book.orderLedger.length]? = some row := by
    rw [List.getElem?_append_right le_rfl, Nat.sub_self]
    rfl
  have hearlier : ∀ {index : ℕ} {r : OrderEvent}, s.book.orderLedger[index]? = some r →
      (s.book.orderLedger ++ [row])[index]? = some r := fun hr => by
    rw [List.getElem?_append_left (List.getElem?_eq_some_iff.mp hr).1, hr]
  have hsame : ∀ reference status, tells reference status row = tells reference status a.event := by
    intro reference status
    have href := congrArg Telling.reference htells
    have hstatus : row.status = a.event.status := congrArg Telling.status htells
    rw [tells, tells, href, hstatus]
  refine ⟨⟨fun reference status => ?_, fun c hc hexecuted => ?_, fun c hc => ?_⟩, fun r hr w hw => ?_,
    fun reference index hindex => ?_, fun reference => ?_, ?_, ?_⟩
  · show (((s.book.orderLedger ++ [row]).filter _).map _).sum = (s.appended ++ [_]).countP _
    rw [List.filter_append, List.map_append, List.sum_append, h.counts, List.countP_append,
      List.countP_singleton, ← hsame]
    refine congrArg (List.countP _ _ + ·) ?_
    cases hrow : tells reference status row with
    | false =>
      rw [List.filter_cons_of_neg (Bool.eq_false_iff.mp hrow)]
      rfl
    | true =>
      rw [List.filter_cons_of_pos hrow]
      exact hone
  · rcases List.mem_append.mp hc with hc | hc
    · obtain ⟨hrow, hown⟩ := h.fills c hc hexecuted
      refine ⟨hearlier hrow, ?_⟩
      have hne : ([(a, s.book.orderLedger.length)].filter fun d => d.2 = c.2) = [] :=
        List.filter_cons_of_neg fun heq => (h.row_lt hc).ne' (of_decide_eq_true heq)
      rw [List.filter_append, hown, hne, List.append_nil]
    · obtain rfl := List.mem_singleton.mp hc
      refine ⟨hlast.trans (congrArg some (hfill hexecuted)), ?_⟩
      have hnone : (s.appended.filter fun c => c.2 = s.book.orderLedger.length) = [] :=
        List.filter_eq_nil_iff.mpr fun c hc heq => (h.row_lt hc).ne (of_decide_eq_true heq)
      rw [List.filter_append, hnone, List.nil_append]
      exact List.filter_cons_of_pos (decide_eq_true rfl)
  · rcases List.mem_append.mp hc with hc | hc
    · obtain ⟨r, hr, hrest⟩ := h.bounds c hc
      exact ⟨r, hearlier hr, hrest⟩
    · obtain rfl := List.mem_singleton.mp hc
      exact ⟨row, hlast, congrArg Telling.reference htells, fun w hw => (hwindow w hw).2.2⟩
  · rcases List.mem_append.mp hr with hr | hr
    · exact h.positive r hr w hw
    · obtain rfl := List.mem_singleton.mp hr
      obtain ⟨hcount, hmin, hle, hle'⟩ := hwindow w hw
      exact ⟨hcount, hmin, lt_of_lt_of_le hmin (hle.trans hle')⟩
  · rcases hresting reference index hindex with hold | ⟨rfl, href⟩
    · obtain ⟨r, hr, href⟩ := h.windows reference index hold
      exact ⟨r, hearlier hr, href⟩
    · exact ⟨row, hlast, href⟩
  · rw [executedUnder_append, ← h.told, ← htells, ← filledIn_append]
    exact congrArg (filledIn reference) List.map_append
  · show s.session.orderStatusCursor ≤ ((s.book.orderLedger ++ [row]).map _).length
    have hcursor := h.cursor
    rw [Book.told, List.length_map] at hcursor
    rw [List.length_map, List.length_append]
    exact hcursor.trans (Nat.le_add_right _ _)
  · have htake : ((s.book.orderLedger ++ [row]).map OrderEvent.tells).take
        s.session.orderStatusCursor = s.book.told.take s.session.orderStatusCursor := by
      rw [List.map_append]
      exact List.take_append_of_le_length h.cursor
    intro reference
    have hshown := h.shown reference
    rw [← htake] at hshown
    exact hshown

/-- **One more poll** of the order of a row. -/
theorem Kept.fold (h : Kept s) (p : RestingPoll) {reference : ClientRef} {index : ℕ}
    {existing : OrderEvent} {w : RestingWindow}
    (href : p.event.clientOrderId.bind ClientRef.stripped = some reference)
    (hindex : s.book.restingDeferredEvents.get? reference = some index)
    (hexisting : s.book.orderLedger[index]? = some existing) (hstatus : existing.status = .deferred)
    (hw : existing.resting = some w) :
    Kept
      { s with
        book := { s.book with
          orderLedger := s.book.orderLedger.set index (existing.poll p.event w) }
        appended := s.appended ++ [(p.appended, index)] } := by
  obtain ⟨hcount, hmin, hmax⟩ :=
    h.positive existing (List.mem_of_getElem? hexisting) w hw
  have hown : existing.tells.reference = some reference := by
    obtain ⟨row, hrow, hown⟩ := h.windows reference index hindex
    obtain rfl := Option.some.inj (hexisting.symm.trans hrow)
    exact hown
  -- the stored bounds are positive, so that none is taken for a missing one
  obtain ⟨w', hw', hcount', hmin', hmax'⟩ : ∃ w', (existing.poll p.event w).resting = some w' ∧
      w'.occurrenceCount = w.occurrenceCount + 1 ∧
      w'.minRequestedQuantity = min w.minRequestedQuantity p.event.requestedQuantity ∧
      w'.maxRequestedQuantity = max w.maxRequestedQuantity p.event.requestedQuantity := by
    refine ⟨_, rfl, rfl, ?_, ?_⟩
    · dsimp only
      rw [if_neg hmin.ne']
    · dsimp only
      rw [if_neg hmax.ne']
  have hset : (s.book.orderLedger.set index (existing.poll p.event w))[index]? =
      some (existing.poll p.event w) := by
    rw [List.getElem?_set_self (List.getElem?_eq_some_iff.mp hexisting).1]
  have htold := @told_poll _ _ _ p.event w hexisting
  refine ⟨⟨fun asked status => ?_, fun c hc hexecuted => ?_, fun c hc => ?_⟩, fun r hr v hv => ?_,
    fun asked place hplace => ?_, fun asked => ?_, ?_, ?_⟩
  · have hsame : tells asked status existing = tells asked status p.event := by
      rw [tells, tells, hown, hstatus, p.status]
      exact congrArg (fun r => decide (r = asked ∧ EventStatus.deferred = status)) href.symm
    have hmore : (existing.poll p.event w).occurrences = existing.occurrences + 1 := by
      rw [OrderEvent.occurrences, OrderEvent.occurrences, hw', hw]
      show max 1 w'.occurrenceCount = max 1 w.occurrenceCount + 1
      rw [hcount', max_eq_right hcount, max_eq_right (Nat.le_add_left 1 _)]
    show (((s.book.orderLedger.set index _).filter _).map _).sum = (s.appended ++ [_]).countP _
    rw [List.countP_append, List.countP_singleton, ← h.counts, List.sum_map_filter,
      List.sum_map_filter]
    refine List.sum_map_set_add hexisting ?_
    show (if tells asked status existing = true then (existing.poll p.event w).occurrences else 0) =
      _ + if tells asked status p.event = true then 1 else 0
    rw [hmore, hsame]
    split <;> rfl
  · rcases List.mem_append.mp hc with hc | hc
    · obtain ⟨hrow, hone⟩ := h.fills c hc hexecuted
      have hne : index ≠ c.2 := by
        rintro rfl
        obtain rfl := Option.some.inj (hexisting.symm.trans hrow)
        rcases c.1.isFill.mp hexecuted with hfilled | hfilled
        · exact nomatch hstatus.symm.trans hfilled
        · exact nomatch hstatus.symm.trans hfilled
      have hother : ([(p.appended, index)].filter fun d => d.2 = c.2) = [] :=
        List.filter_cons_of_neg fun heq => hne (of_decide_eq_true heq)
      refine ⟨(List.getElem?_set_ne hne).trans hrow, ?_⟩
      rw [List.filter_append, hone, hother, List.append_nil]
    · obtain rfl := List.mem_singleton.mp hc
      cases hexecuted
  · have hwindow : ∀ {q : ℚ}, w.minRequestedQuantity ≤ q → q ≤ w.maxRequestedQuantity →
        ∀ v ∈ (existing.poll p.event w).resting,
          v.minRequestedQuantity ≤ q ∧ q ≤ v.maxRequestedQuantity := by
      intro q hle hle' v hv
      obtain rfl := Option.some.inj (hw'.symm.trans hv)
      rw [hmin', hmax']
      exact ⟨min_le_of_left_le hle, le_max_of_le_left hle'⟩
    rcases List.mem_append.mp hc with hc | hc
    · obtain ⟨row, hrow, hasked, hbounds⟩ := h.bounds c hc
      by_cases hplace : index = c.2
      · subst hplace
        obtain rfl := Option.some.inj (hexisting.symm.trans hrow)
        obtain ⟨hle, hle'⟩ := hbounds w hw
        exact ⟨_, hset, hasked, hwindow hle hle'⟩
      · exact ⟨row, (List.getElem?_set_ne hplace).trans hrow, hasked, hbounds⟩
    · obtain rfl := List.mem_singleton.mp hc
      refine ⟨_, hset, hown.trans href.symm, fun v hv => ?_⟩
      obtain rfl := Option.some.inj (hw'.symm.trans hv)
      rw [hmin', hmax']
      exact ⟨min_le_right _ _, le_max_right _ _⟩
  · rcases List.mem_or_eq_of_mem_set hr with hr | rfl
    · exact h.positive r hr v hv
    · obtain rfl := Option.some.inj (hw'.symm.trans hv)
      rw [hcount', hmin', hmax']
      exact ⟨Nat.le_add_left 1 _, lt_min hmin p.requested_pos, lt_max_of_lt_left hmax⟩
  · obtain ⟨row, hrow, hasked⟩ := h.windows asked place hplace
    by_cases hsame : index = place
    · subst hsame
      obtain rfl := Option.some.inj (hexisting.symm.trans hrow)
      exact ⟨_, hset, hasked⟩
    · exact ⟨row, (List.getElem?_set_ne hsame).trans hrow, hasked⟩
  · have hnone : filledIn asked [p.event.tells] = 0 := by
      rw [filledIn, List.map_singleton, List.sum_singleton]
      show (if _ then max 0 p.event.filledQuantity else 0) = 0
      rw [p.unfilled, max_self, ite_self]
    rw [executedUnder_append, ← h.told]
    refine (congrArg (filledIn asked) htold).trans ?_
    rw [show filledIn asked [p.appended.event.tells] = 0 from hnone, add_zero, Book.told]
  · show s.session.orderStatusCursor ≤ ((s.book.orderLedger.set index _).map _).length
    rw [htold]
    exact h.cursor
  · show FillsTold s.session fun asked =>
      filledIn asked (((s.book.orderLedger.set index _).map _).take s.session.orderStatusCursor)
    rw [htold]
    exact h.shown

/-! ## Runs -/

theorem Kept.polled (h : Kept s) (p : RestingPoll) {book : Book} {row : ℕ}
    (hpolled : Polled s.book p.event book row) :
    Kept { s with book, appended := s.appended ++ [(p.appended, row)] } := by
  cases hpolled with
  | unnamed href =>
    refine h.add p.appended p.event s.book.restingDeferredEvents rfl ?_ (fun hfill => nomatch hfill)
      (fun w hw => ?_) fun reference index hindex => .inl hindex
    · rw [OrderEvent.occurrences, p.fresh]
      rfl
    · rw [p.fresh] at hw
      cases hw
  | opened reference href =>
    refine h.add p.appended p.event.opening _ rfl rfl (fun hfill => nomatch hfill)
      (fun w hw => ?_) fun asked index hindex => ?_
    · obtain rfl := Option.some.inj hw
      exact ⟨le_rfl, p.requested_pos, le_rfl, le_rfl⟩
    · rw [Dict.get?_set] at hindex
      split at hindex
      next hsame => exact .inr ⟨(Option.some.inj hindex).symm, hsame ▸ href⟩
      next => exact .inl hindex
  | folded reference index existing w href hindex hexisting hstatus hw =>
    exact h.fold p href hindex hexisting hstatus hw

theorem Kept.append (h : Kept s) (a : Appended) : Kept (s.step (.append a)) := by
  refine h.add a a.event _ rfl ?_ (fun _ => rfl) (fun w hw => ?_) fun reference index hindex => ?_
  · rw [OrderEvent.occurrences, a.fresh]
    rfl
  · rw [a.fresh] at hw
    cases hw
  · left
    split at hindex
    · exact hindex
    · rw [Dict.get?_pop] at hindex
      split at hindex
      · cases hindex
      · exact hindex

theorem Kept.release (h : Kept s) (references : List ClientRef) :
    Kept (s.step (.release references)) where
  counts := h.counts
  fills := h.fills
  bounds := h.bounds
  positive := h.positive
  windows reference index hindex := by
    refine h.windows reference index ?_
    have hpopped : (references.foldl Dict.pop s.book.restingDeferredEvents).get? reference =
        some index := hindex
    rw [Dict.get?_foldl_pop] at hpopped
    split at hpopped
    · cases hpopped
    · exact hpopped
  told := h.told
  cursor := h.cursor
  shown := h.shown

/-- A sync shows every row. -/
theorem Kept.shown_sync (h : Kept s) : FillsTold (s.session.syncOrderStatuses s.book) fun reference =>
    filledIn reference s.book.told := by
  have hsync := h.shown.sync s.book
  intro reference
  have hshown := hsync reference
  dsimp only at hshown
  rw [← filledIn_append, List.take_append_drop] at hshown
  exact hshown

theorem Kept.sync (h : Kept s) : Kept (s.step .sync) where
  counts := h.counts
  fills := h.fills
  bounds := h.bounds
  positive := h.positive
  windows := h.windows
  told := h.told
  cursor := (List.length_map _).ge
  shown := by
    have htake : s.book.told.take s.book.orderLedger.length = s.book.told :=
      List.take_of_length_le (List.length_map _).le
    show FillsTold _ fun reference => filledIn reference (s.book.told.take s.book.orderLedger.length)
    rw [htake]
    exact h.shown_sync

/-- **One call** keeps the ledger. -/
theorem Kept.step (h : Kept s) : ∀ call : LedgerCall, Kept (s.step call)
  | .append a => h.append a
  | .poll p => h.polled p (appendRestingEvent_polled s.book p.event)
  | .release references => h.release references
  | .sync => h.sync

theorem Kept.run (h : Kept s) (calls : List LedgerCall) : Kept (s.run calls) := by
  induction calls generalizing s with
  | nil => exact h
  | cons call calls ih => exact ih (h.step call)

/-- **Compaction loses nothing**: whatever is recorded, in any order, the rows have
every occurrence, every fill and every requested quantity, and a sync shows what was
executed under each order. -/
theorem ledger_lossless (b : Book) (g : G) (calls : List LedgerCall) :
    NothingLost ((start b g).run calls) ∧ FillsShown ((start b g).run (calls ++ [.sync])) := by
  have hkept := (kept_start b g).run calls
  refine ⟨hkept.toNothingLost, fun reference => ?_⟩
  have hlast : (start b g).run (calls ++ [.sync]) = ((start b g).run calls).step .sync :=
    List.foldl_concat ..
  rw [hlast]
  exact (hkept.shown_sync reference).2.trans (hkept.told reference)

end Audit

/-! ## The broker's calls -/

/-- Books with the same rows and resting periods. -/
structure Book.SameLedger (b b' : Book) : Prop where
  orderLedger : b.orderLedger = b'.orderLedger
  restingDeferredEvents : b.restingDeferredEvents = b'.restingDeferredEvents

theorem Book.SameLedger.trans {b b' b'' : Book} (h : b.SameLedger b') (h' : b'.SameLedger b'') :
    b.SameLedger b'' :=
  ⟨h.orderLedger.trans h'.orderLedger, h.restingDeferredEvents.trans h'.restingDeferredEvents⟩

theorem Book.SameLedger.appendOrderEvent {b b' : Book} (h : b.SameLedger b') (event : OrderEvent) :
    (b.appendOrderEvent event).SameLedger (b'.appendOrderEvent event) := by
  obtain ⟨hledger, hresting⟩ := h
  unfold Book.appendOrderEvent
  rw [hledger, hresting]
  exact ⟨rfl, rfl⟩

theorem Book.SameLedger.appendRestingEvent {b b' : Book} (h : b.SameLedger b') (event : OrderEvent) :
    (b.appendRestingEvent event).SameLedger (b'.appendRestingEvent event) := by
  obtain ⟨hledger, hresting⟩ := h
  unfold Book.appendRestingEvent
  rw [hledger, hresting]
  split
  · exact ⟨rfl, rfl⟩
  · dsimp only
    split
    · exact ⟨rfl, rfl⟩
    · split
      · exact ⟨rfl, rfl⟩
      · split
        · exact ⟨rfl, rfl⟩
        · exact ⟨rfl, rfl⟩

/-- What an attempt records is what a call does. -/
def Recorded (b b' : Book) : Prop :=
  (∃ a : Appended, (b.appendOrderEvent a.event).SameLedger b' ∧
    b'.executions = b.executions ++ a.execution.toList) ∨
  ∃ p : RestingPoll, (b.appendRestingEvent p.event).SameLedger b' ∧ b'.executions = b.executions

theorem Recorded.congr {b b' b'' : Book} (h : Recorded b' b'') (hsame : b.SameLedger b')
    (hexecutions : b.executions = b'.executions) : Recorded b b'' := by
  unfold Recorded
  rw [hexecutions]
  rcases h with ⟨a, ha, hexecuted⟩ | ⟨p, hp, hexecuted⟩
  · exact .inl ⟨a, (hsame.appendOrderEvent a.event).trans ha, hexecuted⟩
  · exact .inr ⟨p, (hsame.appendRestingEvent p.event).trans hp, hexecuted⟩

/-- An event without a fill. -/
theorem Recorded.unfilled (b : Book) {event : OrderEvent} (hfresh : event.resting = none)
    (hfilled : event.filledQuantity = 0) (hstatus : event.status ≠ .filled)
    (hstatus' : event.status ≠ .partFilled) : Recorded b (b.appendOrderEvent event) := by
  refine .inl ⟨⟨event, none, hfresh, hfilled, ?_⟩, ⟨rfl, rfl⟩, (List.append_nil _).symm⟩
  exact ⟨fun h => (nomatch h), fun h => h.elim (absurd · hstatus) (absurd · hstatus')⟩

/-- An event with the execution before it. -/
theorem Recorded.filled {b b' : Book} {event : OrderEvent} {e : Execution} (hsame : b.SameLedger b')
    (hexecutions : b'.executions = b.executions ++ [e]) (hfresh : event.resting = none)
    (hfilled : event.filledQuantity = |e.quantity|)
    (hstatus : event.status = .filled ∨ event.status = .partFilled)
    (oldAmount oldCost targetAmount : ℚ) :
    Recorded b ((b'.appendOrderEvent event).recordClosedTrade e oldAmount oldCost targetAmount) := by
  obtain ⟨hledger, hresting⟩ :=
    told_recordClosedTrade (b'.appendOrderEvent event) e oldAmount oldCost targetAmount
  refine .inl ⟨⟨event, some e, hfresh, hfilled, fun _ => hstatus, fun _ => rfl⟩,
    (hsame.appendOrderEvent event).trans ⟨hledger.symm, hresting.symm⟩, ?_⟩
  exact (Book.recordClosedTrade_keeps Book.executions (fun _ _ _ _ _ _ _ => rfl)
    (fun _ _ _ _ _ => rfl) ..).trans hexecutions

theorem blockOrder_recorded (timestamp : Time) (b : Book) (order : OrderIntent) (orderId : OrderId)
    (reason : StatusReason) :
    Recorded b (blockOrder timestamp b order orderId reason).book := by
  unfold blockOrder
  split
  · exact .unfilled b rfl rfl EventStatus.noConfusion EventStatus.noConfusion
  · exact .unfilled b rfl rfl EventStatus.noConfusion EventStatus.noConfusion

theorem fillOrder_recorded (cfg : BrokerConfig) (timestamp : Time) (b : Book) (order : OrderIntent)
    (orderId : OrderId) (openPrice : ℚ) (z : Sizing) (delta fillPrice lot : ℚ)
    (reference : FillReference) (cap : Option ℚ) (constraint : Option StatusReason) :
    Recorded b (fillOrder cfg timestamp b order orderId openPrice z delta fillPrice lot reference cap
      constraint).book := by
  have hstatus : ∀ (tradable : Prop) [Decidable tradable],
      (if tradable then EventStatus.partFilled else .filled) = .filled ∨
        (if tradable then EventStatus.partFilled else .filled) = .partFilled := by
    intro tradable _
    split
    · exact .inr rfl
    · exact .inl rfl
  unfold fillOrder
  dsimp only
  refine .filled ?_ ?_ ?_ ?_ ?_ ..
  · exact ⟨rfl, rfl⟩
  · rfl
  · rfl
  · exact (abs_abs delta).symm
  · exact hstatus _

/-- **Each attempt** of the broker is one call: a target that is met is rejected, so
that a resting order is polled for a quantity. -/
theorem executeOrder_recorded {cfg : BrokerConfig} {p : Portal} {timestamp : Time}
    {priceOverrides : Dict Instrument ℚ} {b : Book} {order : OrderIntent} {out : Outcome}
    (h : executeOrder cfg p timestamp priceOverrides b order = some out) : Recorded b out.book := by
  cases executeOrder_tried h with
  | blocked reason =>
    exact (blockOrder_recorded timestamp b.nextOrder order (orderIdAt b timestamp) reason).congr
      ⟨rfl, rfl⟩ rfl
  | rejected reason requested =>
    exact (Recorded.unfilled (b.sized p) rfl rfl EventStatus.noConfusion
      EventStatus.noConfusion).congr ⟨rfl, rfl⟩ rfl
  | resting openPrice z hsized =>
    have hpos : 0 < |z.delta| := by
      have hunmet := hsized.unmet
      rw [Sizing.alreadyMet, decide_eq_true_eq, not_or, not_or, not_le] at hunmet
      refine lt_trans ?_ hunmet.2.1
      norm_num [amountEpsilon]
    have hsame : b.SameLedger (b.sized p) := ⟨rfl, rfl⟩
    refine .inr ⟨⟨_, rfl, rfl, rfl, hpos, rfl⟩, hsame.appendRestingEvent _, ?_⟩
    exact congrArg Accounts.executions (Book.appendRestingEvent_accounts (b.sized p) _)
  | filled openPrice z fillPrice reference hsized hquote hlots =>
    exact (fillOrder_recorded cfg timestamp (b.sized p) order (orderIdAt b timestamp) openPrice z
      (settledOf cfg p b order z fillPrice).1 fillPrice (lotOf p order) reference
      (capOf order (p.openBarAt order.symbol))
      (settledOf cfg p b order z fillPrice).2).congr ⟨rfl, rfl⟩ rfl

end AlgoTrade.Backtest
