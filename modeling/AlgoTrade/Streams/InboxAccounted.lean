import AlgoTrade.Streams.EventInbox
import Mathlib.Data.Fintype.Card

/-! # Accounting for execution events

Several processors take up the events of one inbox, each at its own pace.

* `Tried`: the marks of an event say how it was handled.
* `holders`: the processors that have yet to take up an event; what bounds its failures.
* `Kept.step`: what every call keeps.
* `run_accounted`: each event is one row, with its fees once, and waits until it is settled or
  has failed twenty times. -/

namespace AlgoTrade.Inbox

section
variable {n : ℕ} {py : Casing} {s s' : State n} {now : ℚ} {a : Action n}

/-! ## What is tried -/

def Outcome.raises : Outcome → Bool
  | .raised _ => true
  | _ => false

/-- How often taking up the event has failed. -/
def failures (handled : List Handling) (eventId : ℕ) : ℕ :=
  handled.countP fun h => decide (h.eventId = eventId) && h.outcome.raises

/-- The ids a processor has yet to take up. -/
def held : Option Sweep → List ℕ
  | none => []
  | some sweep => sweep.events.map fun event => event.id

/-- How many processors have yet to take up the event. -/
def holders (sweeps : Fin n → Option Sweep) (eventId : ℕ) : ℕ :=
  (Finset.univ.filter fun p => eventId ∈ held (sweeps p)).card

/-- The marks of the events say what was handled, and how. -/
structure Tried (s : State n) : Prop where
  attempts : ∀ row ∈ s.db.events, row.processAttempts = failures s.handled row.id
  settled : ∀ row ∈ s.db.events, ∀ t, row.processedAt = some t →
    ∃ h ∈ s.handled, h.eventId = row.id ∧ h.time = t ∧
      (h.outcome = .projected ∨ h.outcome = .unbound ∧ row.receivedAt + 120 ≤ t)
  handled : ∀ h ∈ s.handled, h.eventId < s.db.nextId
  snapshots : ∀ p sweep, s.sweeps p = some sweep →
    ∀ event ∈ sweep.events, event.toReceipt ∈ s.db.receipts
  once : ∀ p, (held (s.sweeps p)).Nodup
  /-- Past the twentieth, a failure is of a processor that had the event before. -/
  crowd : ∀ row ∈ s.db.events, 20 ≤ row.processAttempts →
    row.processAttempts + holders s.sweeps row.id ≤ 19 + n

theorem holders_le (sweeps : Fin n → Option Sweep) (eventId : ℕ) : holders sweeps eventId ≤ n :=
  (Finset.card_le_univ _).trans_eq (Fintype.card_fin n)

theorem holders_mono {sweeps sweeps' : Fin n → Option Sweep} {eventId : ℕ}
    (h : ∀ p, eventId ∈ held (sweeps' p) → eventId ∈ held (sweeps p)) :
    holders sweeps' eventId ≤ holders sweeps eventId := by
  apply Finset.card_le_card
  intro p hp
  rw [Finset.mem_filter] at hp ⊢
  exact ⟨hp.1, h p hp.2⟩

theorem holders_lt {sweeps sweeps' : Fin n → Option Sweep} {eventId : ℕ}
    (h : ∀ p, eventId ∈ held (sweeps' p) → eventId ∈ held (sweeps p)) {p : Fin n}
    (hp : eventId ∈ held (sweeps p)) (hp' : eventId ∉ held (sweeps' p)) :
    holders sweeps' eventId < holders sweeps eventId := by
  apply Finset.card_lt_card
  rw [Finset.ssubset_iff_of_subset]
  · refine ⟨p, Finset.mem_filter.mpr ⟨Finset.mem_univ p, hp⟩, fun hmem => ?_⟩
    exact hp' (Finset.mem_filter.mp hmem).2
  · intro x hx
    rw [Finset.mem_filter] at hx ⊢
    exact ⟨hx.1, h x hx.2⟩

theorem held_update_of_subset {sweeps : Fin n → Option Sweep} {p : Fin n} {sweep : Option Sweep}
    {eventId : ℕ} (h : eventId ∈ held sweep → eventId ∈ held (sweeps p)) (x : Fin n)
    (hx : eventId ∈ held (Function.update sweeps p sweep x)) : eventId ∈ held (sweeps x) := by
  by_cases hxp : x = p
  · subst hxp
    rw [Function.update_self] at hx
    exact h hx
  · rwa [Function.update_of_ne hxp] at hx

theorem mem_update {db : Database} {id : ℕ} {f : EventRow → EventRow} {row : EventRow}
    (h : row ∈ (db.update id f).events) :
    ∃ old ∈ db.events, (old.id = id ∧ row = f old) ∨ (old.id ≠ id ∧ row = old) := by
  obtain ⟨old, hold, rfl⟩ := List.mem_map.mp h
  refine ⟨old, hold, ?_⟩
  by_cases hid : old.id = id
  · exact .inl ⟨hid, if_pos hid⟩
  · exact .inr ⟨hid, if_neg hid⟩

theorem failures_append (handled : List Handling) (h : Handling) (eventId : ℕ) :
    failures (handled ++ [h]) eventId =
      failures handled eventId +
        if h.eventId = eventId ∧ h.outcome.raises = true then 1 else 0 := by
  unfold failures
  rw [List.countP_append, List.countP_singleton]
  congr 1
  by_cases hid : h.eventId = eventId
  · rw [decide_eq_true hid, Bool.true_and]
    by_cases hraises : h.outcome.raises = true
    · rw [if_pos hraises, if_pos ⟨hid, hraises⟩]
    · rw [if_neg hraises, if_neg fun hall => hraises hall.2]
  · rw [decide_eq_false hid, Bool.false_and, if_neg Bool.false_ne_true,
      if_neg fun hall => hid hall.1]

/-- A processor drops what it has, or takes up events that wait. -/
theorem Tried.resweep {p : Fin n} (h : Tried s) (sweep : Option Sweep)
    (hsnapshots : ∀ sweep', sweep = some sweep' →
      ∀ event ∈ sweep'.events, event.toReceipt ∈ s.db.receipts)
    (honce : (held sweep).Nodup)
    (hfresh : ∀ row ∈ s.db.events, row.id ∈ held sweep → row.processAttempts < 20) (now : ℚ) :
    Tried { s with clock := now, sweeps := Function.update s.sweeps p sweep } where
  attempts := h.attempts
  settled := h.settled
  handled := h.handled
  snapshots x sweep' hx := by
    dsimp only at hx
    by_cases hxp : x = p
    · subst hxp
      rw [Function.update_self] at hx
      exact hsnapshots sweep' hx
    · rw [Function.update_of_ne hxp] at hx
      exact h.snapshots x sweep' hx
  once x := by
    dsimp only
    by_cases hxp : x = p
    · subst hxp
      rwa [Function.update_self]
    · rw [Function.update_of_ne hxp]
      exact h.once x
  crowd row hrow hmany := by
    have hle : holders (Function.update s.sweeps p sweep) row.id ≤ holders s.sweeps row.id :=
      holders_mono (held_update_of_subset fun hmem =>
        absurd (hfresh row hrow hmem) (Nat.not_lt.mpr hmany))
    have := h.crowd row hrow hmany
    exact (Nat.add_le_add_left hle _).trans this

theorem mem_pending {db : Database} {limit : ℕ} {row : EventRow} (h : row ∈ pending db limit) :
    row ∈ db.events ∧ row.isPending = true :=
  List.mem_filter.mp ((List.mem_insertionSort ..).mp (List.mem_of_mem_take h))

theorem attempts_of_isPending {row : EventRow} (h : row.isPending = true) :
    row.processAttempts < 20 :=
  of_decide_eq_true (Bool.and_eq_true _ _ ▸ h).2

/-- Ids tell rows apart. -/
theorem Stored.eq_of_id (h : Stored py s) {a b : Receipt} (ha : a ∈ s.db.receipts)
    (hb : b ∈ s.db.receipts) (hid : a.id = b.id) : a = b := by
  have hids : (s.db.receipts.map Receipt.id).Nodup :=
    List.pairwise_map.mpr (h.ordered.imp fun {a b} hab => Nat.ne_of_lt hab.1)
  exact List.inj_on_of_nodup_map hids ha hb hid

theorem Stored.nodup_pending (h : Stored py s) (limit : ℕ) :
    ((pending s.db limit).map fun event => event.id).Nodup := by
  have hids : (s.db.events.map fun event => event.id).Nodup := by
    have hpairs := List.pairwise_map.mp h.ordered
    exact List.pairwise_map.mpr (hpairs.imp fun {a b} hab => Nat.ne_of_lt hab.1)
  have hfilter := (List.filter_sublist (l := s.db.events) (p := EventRow.isPending)).map
    fun event => event.id
  have hsorted := ((List.perm_insertionSort EventRow.Before
    (s.db.events.filter EventRow.isPending)).map fun event => event.id).nodup_iff.mpr
      (hids.sublist hfilter)
  exact hsorted.sublist ((List.take_sublist ..).map _)

theorem Tried.start (h : Tried s) (hstored : Stored py s) (p : Fin n) (limit : ℕ) (now : ℚ) :
    Tried { s with
      clock := now
      sweeps := Function.update s.sweeps p (some ⟨pending s.db limit, 0⟩) } := by
  refine h.resweep (some ⟨pending s.db limit, 0⟩) (fun sweep hsweep event hevent => ?_)
    (hstored.nodup_pending limit) (fun row hrow hheld => ?_) now
  · obtain rfl := Option.some.inj hsweep
    exact List.mem_map_of_mem (mem_pending hevent).1
  · obtain ⟨event, hevent, hid⟩ := List.mem_map.mp hheld
    obtain ⟨hmem, hpending⟩ := mem_pending hevent
    have hsame : event = row := by
      have hids := List.pairwise_map.mp hstored.ordered
      by_contra hne
      rcases List.pairwise_iff_getElem.mp hids with hids
      obtain ⟨i, hi, rfl⟩ := List.getElem_of_mem hmem
      obtain ⟨j, hj, rfl⟩ := List.getElem_of_mem hrow
      rcases Nat.lt_trichotomy i j with hij | rfl | hij
      · exact absurd (hids i j hi hj hij).1 (by omega)
      · exact hne rfl
      · exact absurd (hids j i hj hi hij).1 (by omega)
    rw [← hsame]
    exact attempts_of_isPending hpending

theorem Tried.ingest (h : Tried s) (event : ExecutionEvent) (now : ℚ) :
    Tried { s with
      clock := now
      db := (ingest py s.db event now).1
      delivered := s.delivered ++ [event] } := by
  have hevents : ∀ row ∈ (Inbox.ingest py s.db event now).1.events, row ∈ s.db.events ∨
      row = { id := s.db.nextId, eventKey := event.eventKey, receivedAt := now } := by
    intro row hrow
    unfold Inbox.ingest at hrow
    split at hrow
    · exact .inl hrow
    · exact (List.mem_append.mp hrow).imp_right List.mem_singleton.mp
  have hmem : ∀ r ∈ s.db.receipts, r ∈ (Inbox.ingest py s.db event now).1.receipts := by
    intro r hr
    unfold Inbox.ingest
    split
    · exact hr
    · obtain ⟨row, hrow, rfl⟩ := List.mem_map.mp hr
      exact List.mem_map_of_mem (List.mem_append_left _ hrow)
  have hnext : (Inbox.ingest py s.db event now).1.nextId = s.db.nextId + 1 := by
    unfold Inbox.ingest
    split <;> rfl
  constructor
  · intro row hrow
    rcases hevents row hrow with hold | rfl
    · exact h.attempts row hold
    · refine (List.countP_eq_zero.mpr fun handling hhandling hid => ?_).symm
      rw [Bool.and_eq_true, decide_eq_true_iff] at hid
      exact absurd (h.handled handling hhandling) (hid.1 ▸ lt_irrefl _)
  · intro row hrow t ht
    rcases hevents row hrow with hold | rfl
    · exact h.settled row hold t ht
    · cases ht
  · intro handling hhandling
    rw [hnext]
    exact (h.handled handling hhandling).trans (Nat.lt_succ_self _)
  · intro p sweep hsweep event' hevent'
    exact hmem _ (h.snapshots p sweep hsweep event' hevent')
  · exact h.once
  · intro row hrow hmany
    rcases hevents row hrow with hold | rfl
    · exact h.crowd row hold hmany
    · exact absurd hmany (Nat.not_succ_le_zero 19)

/-- What taking up an event changes of each row. -/
theorem mem_processEvent {db : Database} {event : EventRow} {outcome : Outcome} {row : EventRow}
    (h : row ∈ (processEvent db event now outcome).1.events) :
    ∃ old ∈ db.events, row.toReceipt = old.toReceipt ∧
      row.processAttempts = old.processAttempts +
        (if event.id = old.id ∧ outcome.raises = true then 1 else 0) ∧
      ∀ t, row.processedAt = some t → old.processedAt = some t ∨
        event.id = old.id ∧ t = now ∧
          (outcome = .projected ∨ outcome = .unbound ∧ event.receivedAt + 120 ≤ now) := by
  rcases processEvent_cases db event now outcome with ⟨hdb, hsettled⟩ | ⟨hdb, rfl, -⟩ |
    ⟨error, rfl, hdb⟩
  · have hraises : ¬ outcome.raises = true := by
      rcases hsettled with rfl | ⟨rfl, -⟩ <;> exact Bool.false_ne_true
    rw [hdb] at h
    obtain ⟨old, hold, ⟨hid, rfl⟩ | ⟨-, rfl⟩⟩ := mem_update h
    · refine ⟨old, hold, rfl, by rw [if_neg fun hall => hraises hall.2]; rfl, fun t ht => ?_⟩
      exact .inr ⟨hid.symm, (Option.some.inj ht).symm, hsettled⟩
    · exact ⟨row, hold, rfl, by rw [if_neg fun hall => hraises hall.2]; rfl, fun t ht => .inl ht⟩
  · rw [hdb] at h
    refine ⟨row, h, rfl, ?_, fun t ht => .inl ht⟩
    rw [if_neg fun hall => Bool.false_ne_true hall.2]
    rfl
  · rw [hdb] at h
    obtain ⟨old, hold, ⟨hid, rfl⟩ | ⟨hid, rfl⟩⟩ := mem_update h
    · exact ⟨old, hold, rfl, by rw [if_pos ⟨hid.symm, rfl⟩], fun t ht => .inl ht⟩
    · exact ⟨row, hold, rfl, by rw [if_neg fun hall => hid hall.1.symm]; rfl, fun t ht => .inl ht⟩

theorem Tried.process (h : Tried s) (hstored : Stored py s) {p : Fin n} {event : EventRow}
    {events : List EventRow} {processed : ℕ}
    (hsweep : s.sweeps p = some ⟨event :: events, processed⟩)
    (outcome : Outcome) (now : ℚ) :
    Tried { s with
      clock := now
      db := (processEvent s.db event now outcome).1
      sweeps := Function.update s.sweeps p
        (some ⟨events, processed + (processEvent s.db event now outcome).2⟩)
      handled := s.handled ++ [⟨event.id, outcome, now⟩] } := by
  obtain ⟨hreceipts, -, hnext⟩ := marked_processEvent s.db event now outcome
  have hevent : event.toReceipt ∈ s.db.receipts :=
    h.snapshots p _ hsweep event List.mem_cons_self
  have honce : event.id ∉ events.map (fun e => e.id) ∧ (events.map fun e => e.id).Nodup := by
    have := h.once p
    rw [hsweep] at this
    exact List.nodup_cons.mp this
  have hkeep : ∀ eventId x, eventId ∈ held (Function.update s.sweeps p
      (some ⟨events, processed + (processEvent s.db event now outcome).2⟩) x) →
        eventId ∈ held (s.sweeps x) := fun eventId =>
    held_update_of_subset fun hmem => by
      rw [hsweep]
      exact List.mem_cons_of_mem _ hmem
  constructor
  · intro row hrow
    obtain ⟨old, hold, hreceipt, hattempts, -⟩ := mem_processEvent hrow
    rw [failures_append, hattempts, h.attempts old hold, congrArg Receipt.id hreceipt]
  · intro row hrow t ht
    obtain ⟨old, hold, hreceipt, -, hsettled⟩ := mem_processEvent hrow
    rcases hsettled t ht with ht | ⟨hid, rfl, hhow⟩
    · obtain ⟨handling, hmem, hhandling⟩ := h.settled old hold t ht
      refine ⟨handling, List.mem_append_left _ hmem, ?_⟩
      rwa [congrArg Receipt.id hreceipt, congrArg Receipt.receivedAt hreceipt]
    · have hsame := hstored.eq_of_id hevent (List.mem_map_of_mem hold) hid
      refine ⟨_, List.mem_append_right _ List.mem_cons_self, ?_, rfl, ?_⟩
      · rw [hreceipt, ← hsame]
      · rw [hreceipt, ← hsame]
        exact hhow
  · intro handling hhandling
    rw [hnext]
    rcases List.mem_append.mp hhandling with hhandling | hhandling
    · exact h.handled handling hhandling
    · rw [List.mem_singleton.mp hhandling]
      exact (hstored.known _ hevent).1
  · intro x sweep hx e he
    rw [hreceipts]
    dsimp only at hx
    by_cases hxp : x = p
    · subst hxp
      rw [Function.update_self] at hx
      obtain rfl := Option.some.inj hx
      exact h.snapshots x _ hsweep e (List.mem_cons_of_mem _ he)
    · rw [Function.update_of_ne hxp] at hx
      exact h.snapshots x sweep hx e he
  · intro x
    dsimp only
    by_cases hxp : x = p
    · subst hxp
      rw [Function.update_self]
      exact honce.2
    · rw [Function.update_of_ne hxp]
      exact h.once x
  · intro row hrow hmany
    obtain ⟨old, hold, hreceipt, hattempts, -⟩ := mem_processEvent hrow
    rw [show row.id = old.id from congrArg Receipt.id hreceipt]
    dsimp only at hmany ⊢
    by_cases hfail : event.id = old.id ∧ outcome.raises = true
    · -- the processor that fails had the event, and has it no longer
      rw [if_pos hfail] at hattempts
      have hlt : holders (Function.update s.sweeps p
          (some ⟨events, processed + (processEvent s.db event now outcome).2⟩)) old.id <
            holders s.sweeps old.id := by
        refine holders_lt (hkeep old.id) (p := p) ?_ ?_
        · rw [hsweep, ← hfail.1]
          exact List.mem_cons_self
        · rw [Function.update_self, ← hfail.1]
          exact honce.1
      have hle := holders_le s.sweeps old.id
      by_cases hbefore : 20 ≤ old.processAttempts
      · have := h.crowd old hold hbefore
        omega
      · omega
    · rw [if_neg hfail] at hattempts
      have hle := holders_mono (hkeep old.id)
      have := h.crowd old hold (by omega)
      omega

/-! ## Runs -/

/-- What every call keeps. -/
structure Kept (py : Casing) (s : State n) : Prop where
  stored : Stored py s
  tried : Tried s

theorem Kept.empty (py : Casing) (t : ℚ) : Kept py (⟨t, {}, fun _ => none, [], []⟩ : State n) where
  stored :=
    { ordered := .nil
      known := fun _ hr => absurd hr List.not_mem_nil
      keys := .nil
      delivered := fun _ => Iff.rfl
      fees := fun _ hr => absurd hr List.not_mem_nil
      feesKnown := fun _ hfee => absurd hfee List.not_mem_nil }
  tried :=
    { attempts := fun _ hrow => absurd hrow List.not_mem_nil
      settled := fun _ hrow => absurd hrow List.not_mem_nil
      handled := fun _ hh => absurd hh List.not_mem_nil
      snapshots := fun _ _ hsweep => (Option.some_ne_none _ hsweep.symm).elim
      once := fun _ => .nil
      crowd := fun _ hrow => absurd hrow List.not_mem_nil }

theorem Kept.called (h : Kept py s) (hclock : s.clock ≤ now) (hcall : Called py s now a s') :
    Kept py s' := by
  obtain ⟨hstored, htried⟩ := h
  cases hcall with
  | ingest event => exact ⟨hstored.ingest event hclock, htried.ingest event now⟩
  | start p limit hidle =>
    exact ⟨hstored.mark (.refl _) hclock rfl, htried.start hstored p limit now⟩
  | process p outcome event events processed hsweep =>
    exact ⟨hstored.mark (marked_processEvent ..) hclock rfl,
      htried.process hstored hsweep outcome now⟩
  | finish p processed hsweep =>
    exact ⟨hstored.mark (.refl _) hclock rfl,
      htried.resweep none (fun _ hnone => (Option.some_ne_none _ hnone.symm).elim) .nil
        (fun _ _ hheld => absurd hheld List.not_mem_nil) now⟩
  | abort p sweep hsweep =>
    exact ⟨hstored.mark (.refl _) hclock rfl,
      htried.resweep none (fun _ hnone => (Option.some_ne_none _ hnone.symm).elim) .nil
        (fun _ _ hheld => absurd hheld List.not_mem_nil) now⟩

/-- **Each call** keeps what is kept. -/
theorem Kept.step (h : Kept py s) {call : ℚ × Action n} (hstep : step py s call = some s') :
    Kept py s' :=
  h.called (step_cases hstep).1 (step_cases hstep).2

theorem Kept.run (h : Kept py s) {calls : List (ℚ × Action n)}
    (hrun : Runs.run (Inbox.step py) s calls = some s') : Kept py s' :=
  Runs.run_invariant (fun _ _ _ hs hstep => hs.step hstep) h hrun

/-! ## Every event is accounted for -/

/-- An event's fee rows: one for each key its components have, with their sum. -/
structure FeesOnce (py : Casing) (fees : List FeeComponent) (rows : List FeeRow) (eventId : ℕ) :
    Prop where
  once : ∀ c ∈ fees, rows.countP (fun fee => fee.executionEventId = eventId ∧
    (fee.feeType, fee.currency) = c.key py) = 1
  sums : ∀ fee ∈ rows, fee.executionEventId = eventId →
    let components := fees.filter (·.key py = (fee.feeType, fee.currency))
    components ≠ [] ∧ fee.amount = (components.map FeeComponent.amount).sum ∧
      fee.quoteAmount = if components.all (·.quoteAmount.isSome) then
        some (components.map fun c => c.quoteAmount.getD 0).sum else none

theorem feesOnce_of_filter {fees : List FeeComponent} {rows : List FeeRow} {eventId : ℕ}
    (h : rows.filter (·.executionEventId = eventId) =
      (aggregate py fees).entries.map fun e => e.2.row eventId e.1) :
    FeesOnce py fees rows eventId := by
  have hnodup := nodup_keys_aggregate py fees
  constructor
  · intro c hc
    obtain ⟨hnone, -⟩ := get?_aggregate py fees (c.key py)
    have hkey : c.key py ∈ (aggregate py fees).keys := by
      by_contra habsent
      have hempty := hnone (Dict.get?_eq_none_iff.mpr habsent)
      exact List.not_mem_nil (hempty ▸ List.mem_filter.mpr ⟨hc, decide_eq_true rfl⟩)
    calc rows.countP (fun fee => fee.executionEventId = eventId ∧
          (fee.feeType, fee.currency) = c.key py)
        = (rows.filter (·.executionEventId = eventId)).countP
            (fun fee => (fee.feeType, fee.currency) = c.key py) := by
          rw [List.countP_filter]
          refine List.countP_congr fun fee _ => ?_
          rw [decide_eq_true_iff, Bool.and_eq_true, decide_eq_true_iff, decide_eq_true_iff]
          exact and_comm
      _ = (aggregate py fees).keys.count (c.key py) := by
          rw [h, List.countP_map]
          unfold Dict.keys List.count
          rw [List.countP_map]
          refine List.countP_congr fun e _ => ?_
          rw [Function.comp_apply, Function.comp_apply, decide_eq_true_iff, beq_iff_eq]
          rfl
      _ = 1 := List.count_eq_one_of_mem hnodup hkey
  · intro fee hfee hid
    have hmem : fee ∈ rows.filter (·.executionEventId = eventId) :=
      List.mem_filter.mpr ⟨hfee, decide_eq_true hid⟩
    rw [h] at hmem
    obtain ⟨e, he, rfl⟩ := List.mem_map.mp hmem
    obtain ⟨hsums, hne⟩ := (get?_aggregate py fees e.1).2 e.2 (Dict.get?_of_mem hnodup he)
    refine ⟨hne, hsums.amount, ?_⟩
    show (if e.2.quoteKnown then some e.2.quoteAmount else none) = _
    rw [hsums.quoteKnown, hsums.quoteAmount]
    rfl

/-- Each event delivered has one row; the row holds the fees of its first delivery, counts its
failures, waits until it is settled or has failed twenty times, and fails no more than once
for each other processor after that. -/
structure Accounted (py : Casing) (s : State n) : Prop where
  oneRow : ∀ event ∈ s.delivered, ∃! row, row ∈ s.db.events ∧ row.eventKey = event.eventKey
  fees : ∀ row ∈ s.db.events, ∃ event,
    s.delivered.find? (·.eventKey = row.eventKey) = some event ∧
      FeesOnce py event.fees s.db.feeComponents row.id
  attempts : ∀ row ∈ s.db.events,
    row.processAttempts = failures s.handled row.id ∧ row.processAttempts ≤ 19 + n
  settled : ∀ row ∈ s.db.events, ∀ t, row.processedAt = some t →
    ∃ h ∈ s.handled, h.eventId = row.id ∧ h.time = t ∧
      (h.outcome = .projected ∨ h.outcome = .unbound ∧ row.receivedAt + 120 ≤ t)
  waiting : ∀ row ∈ s.db.events, row.processedAt = none → failures s.handled row.id < 20 →
    row ∈ pending s.db s.db.events.length

theorem Stored.existsUnique_row (h : Stored py s) {event : ExecutionEvent}
    (hevent : event ∈ s.delivered) :
    ∃! row, row ∈ s.db.events ∧ row.eventKey = event.eventKey := by
  obtain ⟨r, hr, hkey⟩ := List.mem_map.mp
    ((h.delivered event.eventKey).mpr (List.mem_map_of_mem hevent))
  obtain ⟨row, hrow, rfl⟩ := List.mem_map.mp hr
  refine ⟨row, ⟨hrow, hkey⟩, fun row' ⟨hrow', hkey'⟩ => ?_⟩
  have hkeys : (s.db.events.map fun row => row.eventKey).Nodup := by
    have := h.keys
    rwa [Database.receipts, List.map_map] at this
  exact List.inj_on_of_nodup_map hkeys hrow' hrow (hkey'.trans hkey.symm)

theorem mem_pending_all {db : Database} {row : EventRow} (hrow : row ∈ db.events)
    (hpending : row.isPending = true) : row ∈ pending db db.events.length := by
  unfold pending
  rw [List.take_of_length_le, List.mem_insertionSort]
  · exact List.mem_filter.mpr ⟨hrow, hpending⟩
  · rw [List.length_insertionSort]
    exact List.length_filter_le ..

theorem Kept.accounted (h : Kept py s) : Accounted py s where
  oneRow _ hevent := h.stored.existsUnique_row hevent
  fees row hrow := by
    obtain ⟨event, hevent, hfees⟩ := h.stored.fees _ (List.mem_map_of_mem hrow)
    exact ⟨event, hevent, feesOnce_of_filter hfees⟩
  attempts row hrow := by
    refine ⟨h.tried.attempts row hrow, ?_⟩
    by_cases hmany : 20 ≤ row.processAttempts
    · exact (Nat.le_add_right ..).trans (h.tried.crowd row hrow hmany)
    · omega
  settled := h.tried.settled
  waiting row hrow hnone hfew := by
    apply mem_pending_all hrow
    unfold EventRow.isPending
    rw [hnone, h.tried.attempts row hrow, decide_eq_true hfew]
    rfl

end

end AlgoTrade.Inbox
