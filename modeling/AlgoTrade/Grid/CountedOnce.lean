import AlgoTrade.Grid.MarketOrder

/-! # Grid market orders are counted once

* `Settled`: one call at a time per client order id, which reads the order's last
  fill before it returns.
* `Inv.step`: what every label preserves then.
* `countedOnce_of_settled`: the calls have returned what the exchange has filled.
* `lateFill_uncounted`, `repeatedCall_recounts`: a fill after the time is over, and
  a second call. -/

namespace AlgoTrade.GridMarket

/-- What the polling loop has last read as filled. -/
def Call.lastRead (c : Call) : ℚ :=
  match c.phase with
  | .polling p => p.filledQty
  | _ => 0

namespace Market

variable (s : Market)

/-- The row the call polls. -/
def polled (c : Call) : Option QueuedOrder :=
  match c.phase with
  | .polling p => s.rows[p.pendingId]?
  | _ => none

/-- An order of the id is terminal and has been filled. -/
def endedFilled (clientOrderId : String) : Bool :=
  ∃ row ∈ s.rows, row.clientOrderId = clientOrderId ∧ row.status.terminal = true ∧
    row.exchangeFilled ≠ 0

def hasOpen (clientOrderId : String) : Bool :=
  ∃ c ∈ s.calls, c.clientOrderId = clientOrderId ∧ c.isOpen = true

/-- A call begins when no other call of its id is in progress or has returned a fill;
it does not meet a partial fill that ends its loop, and when it is given up or cut off
it has read no fill and misses none of a terminal order; the row becomes terminal with
what was filled, while a call is in progress, and nothing is filled afterwards. -/
def Settled : MarketLabel → Bool
  | .tick _ => true
  | .calls order => (s.begins order).isOpen = true → ∀ c ∈ s.calls,
      c.clientOrderId = (s.begins order).clientOrderId → c.isOpen = false ∧ c.isOk = false
  | .call k l => (s.calls[k]?).all fun c =>
      match l with
      | .polls => (s.polled c).all fun row => row.status = .partiallyFilled → row.filled ≤ 0
      | .timesOut => c.lastRead ≤ 0 ∧ s.endedFilled c.clientOrderId = false
      | .raises | .dies => s.endedFilled c.clientOrderId = false
      | .createsIntent _ | .inserts => true
  | .work i w => (s.rows[i]?).all fun row =>
      match w with
      | .fills _ => row.status.terminal = false
      | .writes status filled _ _ =>
        (row.status.terminal = true → status.terminal = true) ∧
          (status.terminal = true → filled = row.exchangeFilled ∧
            (row.status.terminal = true ∨ row.exchangeFilled = 0 ∨ s.hasOpen row.clientOrderId = true))

end Market

/-! ## The invariant -/

/-- In progress, or it has returned a fill. -/
def Call.isActive (c : Call) : Bool := c.isOpen || c.isOk

/-- `r` is what the exchange has filled of a terminal order. -/
def Market.Tells (s : Market) (clientOrderId : String) (r : Execution) : Prop :=
  ∃ row ∈ s.rows, row.clientOrderId = clientOrderId ∧ row.status.terminal = true ∧
    r.filled = row.exchangeFilled ∧ 0 < r.filled

structure Market.Inv (s : Market) : Prop where
  keys : ∀ row ∈ s.rows, row.idempotencyKey = idempotencyKey row.clientOrderId
  rows : ∀ (i j : ℕ) (a b : QueuedOrder), s.rows[i]? = some a → s.rows[j]? = some b →
    a.clientOrderId = b.clientOrderId → i = j
  polling : ∀ c ∈ s.calls, ∀ p, c.phase = .polling p →
    ∃ row, s.rows[p.pendingId]? = some row ∧ row.clientOrderId = c.clientOrderId
  alone : ∀ (i j : ℕ) (a b : Call), s.calls[i]? = some a → s.calls[j]? = some b →
    a.isActive = true → b.isActive = true → a.clientOrderId = b.clientOrderId → i = j
  told : ∀ c ∈ s.calls, ∀ r, c.phase = .returned r → r.ok = true → s.Tells c.clientOrderId r
  ended : ∀ row ∈ s.rows, row.status.terminal = true → row.filled = row.exchangeFilled ∧
    (row.exchangeFilled = 0 ∨ ∃ c ∈ s.calls, c.clientOrderId = row.clientOrderId ∧ c.isActive = true)
  nonneg : ∀ row ∈ s.rows, 0 ≤ row.exchangeFilled

section
variable {s s' : Market} {c : Call} {k i : ℕ} {row row' : QueuedOrder} {coid : String}

theorem isActive_of_isOpen (h : c.isOpen = true) : c.isActive = true := by
  unfold Call.isActive
  rw [h]
  rfl

/-- A call that has returned a fill. -/
theorem returned_of_isOk (h : c.isOk = true) : ∃ r, c.phase = .returned r ∧ r.ok = true := by
  unfold Call.isOk at h
  split at h
  next r hphase => exact ⟨r, hphase, h⟩
  next => cases h

theorem reported_eq_zero (h : c.clientOrderId = coid → c.isOk = false) : c.reported coid = 0 := by
  unfold Call.reported
  unfold Call.isOk at h
  split
  next r hphase =>
    refine if_neg ?_
    rintro ⟨hid, hok⟩
    have hnot := h hid
    rw [hphase] at hnot
    exact absurd (hok.symm.trans hnot) (by decide)
  next => rfl

/-- The rows of one id are one row. -/
theorem Market.Inv.row_eq (h : s.Inv) (ha : row ∈ s.rows) (hb : row' ∈ s.rows)
    (hid : row.clientOrderId = row'.clientOrderId) : row = row' := by
  obtain ⟨i, hi⟩ := List.mem_iff_getElem?.mp ha
  obtain ⟨j, hj⟩ := List.mem_iff_getElem?.mp hb
  obtain rfl := h.rows i j row row' hi hj hid
  exact Option.some.inj (hi.symm.trans hj)

theorem Market.Inv.countedOnce (h : s.Inv) : s.CountedOnce := by
  intro row hrow hterminal hdone
  obtain ⟨-, hzero | ⟨c, hc, hid, hactive⟩⟩ := h.ended row hrow hterminal
  · -- a call that has returned a fill would have told of one
    rw [hzero]
    refine List.sum_eq_zero fun q hq => ?_
    obtain ⟨c, hc, rfl⟩ := List.mem_map.mp hq
    refine reported_eq_zero fun hid => ?_
    rw [← Bool.not_eq_true]
    intro hok
    obtain ⟨r, hphase, hr⟩ := returned_of_isOk hok
    obtain ⟨row', hrow', hid', -, hfilled, hpos⟩ := h.told c hc r hphase hr
    obtain rfl := h.row_eq hrow hrow' (hid.symm.trans hid'.symm)
    rw [hfilled, hzero] at hpos
    exact absurd hpos (lt_irrefl 0)
  · have hok : c.isOk = true := by
      have hopen := hdone c hc hid
      unfold Call.isActive at hactive
      rw [hopen] at hactive
      exact hactive
    obtain ⟨r, hphase, hr⟩ := returned_of_isOk hok
    obtain ⟨row', hrow', hid', -, hfilled, -⟩ := h.told c hc r hphase hr
    obtain rfl := h.row_eq hrow hrow' (hid.symm.trans hid'.symm)
    obtain ⟨k, hk⟩ := List.mem_iff_getElem?.mp hc
    have hsum : s.reported row.clientOrderId = c.reported row.clientOrderId := by
      refine List.sum_map_single hk fun j b hb hne => reported_eq_zero fun hbid => ?_
      rw [← Bool.not_eq_true]
      intro hbok
      have hbactive : b.isActive = true := by
        unfold Call.isActive
        rw [hbok, Bool.or_true]
      exact hne (h.alone j k b c hb hk hbactive hactive (hbid.trans hid.symm))
    rw [hsum, ← hfilled]
    unfold Call.reported
    rw [hphase]
    exact if_pos ⟨hid, hr⟩

theorem Market.Inv.tick (h : s.Inv) (seconds : ℚ) :
    Market.Inv { s with clock := s.clock + seconds } :=
  ⟨h.keys, h.rows, h.polling, h.alone, h.told, h.ended, h.nonneg⟩

/-! ## Calls -/

theorem phase_begins (order : Order) :
    (s.begins order).phase = .placing ∨ (s.begins order).phase = .returned {} := by
  unfold Market.begins
  dsimp only
  split
  · exact .inr rfl
  · exact .inl rfl

theorem Market.Inv.calls (h : s.Inv) {order : Order} (hset : s.Settled (.calls order)) :
    Market.Inv { s with calls := s.calls ++ [s.begins order] } := by
  have hset := of_decide_eq_true hset
  -- a new call of the id is the only active one
  have hnew : ∀ c ∈ s.calls, (s.begins order).isActive = true → c.isActive = true →
      c.clientOrderId ≠ (s.begins order).clientOrderId := by
    intro c hc hbegins hactive hid
    have hopen : (s.begins order).isOpen = true := by
      rcases phase_begins (s := s) order with hphase | hphase
      · unfold Call.isOpen
        rw [hphase]
      · unfold Call.isActive Call.isOpen Call.isOk at hbegins
        rw [hphase] at hbegins
        cases hbegins
    obtain ⟨hnotOpen, hnotOk⟩ := hset hopen c hc hid
    unfold Call.isActive at hactive
    rw [hnotOpen, hnotOk] at hactive
    cases hactive
  refine ⟨h.keys, h.rows, ?_, ?_, ?_, ?_, h.nonneg⟩
  · intro c hc p hp
    rcases List.mem_append.mp hc with hc | hc
    · exact h.polling c hc p hp
    · rw [List.mem_singleton.mp hc] at hp
      rcases phase_begins (s := s) order with hphase | hphase <;>
      · rw [hphase] at hp
        cases hp
  · intro i j a b ha hb haactive hbactive hid
    rcases List.getElem?_append_cases ha with ⟨rfl, rfl⟩ | ha
    · rcases List.getElem?_append_cases hb with ⟨rfl, -⟩ | hb
      · rfl
      · exact absurd hid.symm (hnew b (List.mem_of_getElem? hb) haactive hbactive)
    · rcases List.getElem?_append_cases hb with ⟨-, rfl⟩ | hb
      · exact absurd hid (hnew a (List.mem_of_getElem? ha) hbactive haactive)
      · exact h.alone i j a b ha hb haactive hbactive hid
  · intro c hc r hr hok
    rcases List.mem_append.mp hc with hc | hc
    · exact h.told c hc r hr hok
    · rw [List.mem_singleton.mp hc] at hr
      rcases phase_begins (s := s) order with hphase | hphase
      · rw [hphase] at hr
        cases hr
      · rw [hphase] at hr
        cases hr
        cases hok
  · intro row hrow hterminal
    obtain ⟨hfilled, hzero | ⟨c, hc, hrest⟩⟩ := h.ended row hrow hterminal
    · exact ⟨hfilled, .inl hzero⟩
    · exact ⟨hfilled, .inr ⟨c, List.mem_append_left _ hc, hrest⟩⟩

/-- A call in progress moves on. -/
theorem Market.Inv.setPhase (h : s.Inv) (hc : s.calls[k]? = some c) (hopen : c.isOpen = true)
    {phase : CallPhase}
    (hpolling : ∀ p, phase = .polling p →
      ∃ row, s.rows[p.pendingId]? = some row ∧ row.clientOrderId = c.clientOrderId)
    (htold : ∀ r, phase = .returned r → r.ok = true → s.Tells c.clientOrderId r)
    (hleaves : (Call.isActive { c with phase }) = false → s.endedFilled c.clientOrderId = false) :
    (s.setPhase k c phase).Inv := by
  have hmem : ∀ b ∈ s.calls.set k { c with phase }, b ∈ s.calls ∨ b = { c with phase } :=
    fun b hb => List.mem_or_eq_of_mem_set hb
  refine ⟨h.keys, h.rows, ?_, ?_, ?_, ?_, h.nonneg⟩
  · intro b hb p hp
    rcases hmem b hb with hb | rfl
    · exact h.polling b hb p hp
    · exact hpolling p hp
  · intro i j a b ha hb haactive hbactive hid
    have hactive := isActive_of_isOpen hopen
    rcases List.getElem?_set_cases ha with ⟨rfl, rfl⟩ | ⟨-, ha'⟩
    · rcases List.getElem?_set_cases hb with ⟨rfl, -⟩ | ⟨-, hb'⟩
      · rfl
      · exact h.alone i j c b hc hb' hactive hbactive hid
    · rcases List.getElem?_set_cases hb with ⟨rfl, rfl⟩ | ⟨-, hb'⟩
      · exact h.alone i j a c ha' hc haactive hactive hid
      · exact h.alone i j a b ha' hb' haactive hbactive hid
  · intro b hb r hr hok
    rcases hmem b hb with hb | rfl
    · exact h.told b hb r hr hok
    · exact htold r hr hok
  · intro row hrow hterminal
    obtain ⟨hfilled, hzero | ⟨b, hb, hid, hbactive⟩⟩ := h.ended row hrow hterminal
    · exact ⟨hfilled, .inl hzero⟩
    · refine ⟨hfilled, ?_⟩
      obtain ⟨i, hi⟩ := List.mem_iff_getElem?.mp hb
      by_cases hik : i = k
      · subst hik
        obtain rfl : c = b := Option.some.inj (hc.symm.trans hi)
        cases hnew : Call.isActive { c with phase } with
        | true =>
          exact .inr ⟨_, List.mem_set (List.getElem?_eq_some_iff.mp hc).1 _, hid, hnew⟩
        | false =>
          have hnone := of_decide_eq_false (hleaves hnew)
          by_contra hnot
          rw [not_or] at hnot
          exact hnone ⟨row, hrow, hid.symm, hterminal, hnot.1⟩
      · refine .inr ⟨b, List.mem_of_getElem? (i := i) ?_, hid, hbactive⟩
        show (s.calls.set k _)[i]? = some b
        rw [List.getElem?_set_ne (Ne.symm hik), hi]

theorem rowId_eq_some {key : String} (h : s.rowId key = some i) :
    ∃ row, s.rows[i]? = some row ∧ row.idempotencyKey = key := by
  obtain ⟨hlt, hkey, -⟩ := List.findIdx?_eq_some_iff_getElem.mp h
  exact ⟨s.rows[i], List.getElem?_eq_getElem hlt, of_decide_eq_true hkey⟩

theorem rowId_eq_none {key : String} (h : s.rowId key = none) :
    ∀ row ∈ s.rows, row.idempotencyKey ≠ key := by
  intro row hrow
  exact of_decide_eq_false (List.findIdx?_eq_none_iff.mp h row hrow)

/-- A new row for an id that has none. -/
theorem Market.Inv.addRow (h : s.Inv)
    (hkey : row.idempotencyKey = idempotencyKey row.clientOrderId)
    (hnone : ∀ b ∈ s.rows, b.clientOrderId ≠ row.clientOrderId)
    (hterminal : row.status.terminal = false) (hzero : row.exchangeFilled = 0) :
    Market.Inv { s with rows := s.rows ++ [row] } := by
  refine ⟨?_, ?_, ?_, h.alone, ?_, ?_, ?_⟩
  · intro b hb
    rcases List.mem_append.mp hb with hb | hb
    · exact h.keys b hb
    · rw [List.mem_singleton.mp hb, hkey]
  · intro i j a b ha hb hid
    rcases List.getElem?_append_cases ha with ⟨rfl, rfl⟩ | ha'
    · rcases List.getElem?_append_cases hb with ⟨rfl, -⟩ | hb'
      · rfl
      · exact absurd hid.symm (hnone b (List.mem_of_getElem? hb'))
    · rcases List.getElem?_append_cases hb with ⟨-, rfl⟩ | hb'
      · exact absurd hid (hnone a (List.mem_of_getElem? ha'))
      · exact h.rows i j a b ha' hb' hid
  · intro c hc p hp
    obtain ⟨b, hb, hid⟩ := h.polling c hc p hp
    exact ⟨b, (List.getElem?_append_left (List.getElem?_eq_some_iff.mp hb).1).trans hb, hid⟩
  · intro c hc r hr hok
    obtain ⟨b, hb, hrest⟩ := h.told c hc r hr hok
    exact ⟨b, List.mem_append_left _ hb, hrest⟩
  · intro b hb hbterminal
    rcases List.mem_append.mp hb with hb | hb
    · exact h.ended b hb hbterminal
    · rw [List.mem_singleton.mp hb, hterminal] at hbterminal
      cases hbterminal
  · intro b hb
    rcases List.mem_append.mp hb with hb | hb
    · exact h.nonneg b hb
    · rw [List.mem_singleton.mp hb, hzero]

/-- The call goes on polling, before any order or read. -/
theorem Market.Inv.goesOn (h : s.Inv) (hc : s.calls[k]? = some c) (hopen : c.isOpen = true)
    {phase : CallPhase} (hphase : ∀ r, phase ≠ .returned r) (hlost : phase ≠ .lost)
    (hpolling : ∀ p, phase = .polling p →
      ∃ row, s.rows[p.pendingId]? = some row ∧ row.clientOrderId = c.clientOrderId) :
    (s.setPhase k c phase).Inv := by
  refine h.setPhase hc hopen hpolling (fun r hr => absurd hr (hphase r)) fun hactive => ?_
  cases phase with
  | returned r => exact absurd rfl (hphase r)
  | lost => exact absurd rfl hlost
  | placing => cases hactive
  | intended => cases hactive
  | polling => cases hactive

theorem Market.Inv.inserts (h : s.Inv) (hc : s.calls[k]? = some c) (hopen : c.isOpen = true)
    (intentId : ℕ) : (s.inserts k c intentId).Inv := by
  unfold Market.inserts
  dsimp only
  split
  next i hi =>
    obtain ⟨row, hrow, hkey⟩ := rowId_eq_some hi
    refine h.goesOn hc hopen (fun r hr => by cases hr) (fun hl => by cases hl) fun p hp => ?_
    cases hp
    rw [h.keys row (List.mem_of_getElem? hrow), idempotencyKey_inj] at hkey
    exact ⟨row, hrow, hkey⟩
  next hnone =>
    have hnew : ∀ b ∈ s.rows, b.clientOrderId ≠ (c.queued intentId).clientOrderId := by
      intro b hb hid
      refine rowId_eq_none hnone b hb ?_
      rw [h.keys b hb, hid]
      rfl
    have hadd : Market.Inv { s with rows := s.rows ++ [c.queued intentId] } :=
      h.addRow rfl hnew rfl rfl
    refine hadd.goesOn hc hopen (fun r hr => by cases hr) (fun hl => by cases hl) fun p hp => ?_
    cases hp
    exact ⟨_, List.getElem?_concat_length, rfl⟩

theorem Market.Inv.createsIntent (h : s.Inv) (hc : s.calls[k]? = some c) (hopen : c.isOpen = true)
    (fails : Bool) : (s.createsIntent k c fails).Inv := by
  have hgoes : ∀ intentId, (s.setPhase k c (.intended intentId)).Inv := fun intentId =>
    h.goesOn hc hopen (fun r hr => by cases hr) (fun hl => by cases hl) fun p hp => by cases hp
  unfold Market.createsIntent
  dsimp only
  split
  · exact hgoes _
  · split
    · exact hgoes _
    · have := hgoes (s.intents.length + 1)
      exact ⟨this.keys, this.rows, this.polling, this.alone, this.told, this.ended, this.nonneg⟩

/-- A poll tells of the row's last fill, or goes on. -/
theorem Market.Inv.polls (h : s.Inv) (hc : s.calls[k]? = some c) {p : Polling}
    (hphase : c.phase = .polling p) (hrow : s.rows[p.pendingId]? = some row)
    (hset : row.status = .partiallyFilled → row.filled ≤ 0) :
    (s.setPhase k c
      (if row.status.stopsPolling then .returned ((p.reads s.clock row).result c.clientOrderId)
       else .polling (p.reads s.clock row))).Inv := by
  have hopen : c.isOpen = true := by
    unfold Call.isOpen
    rw [hphase]
  have hmem := List.mem_of_getElem? hrow
  obtain ⟨row', hrow', hid⟩ := h.polling c (List.mem_of_getElem? hc) p hphase
  obtain rfl : row = row' := Option.some.inj (hrow.symm.trans hrow')
  split
  next hstops =>
    have hcases : row.status.terminal = true ∨ row.status = .partiallyFilled := by
      cases hst : row.status <;> rw [hst] at hstops <;> simp [RowStatus.terminal] <;> cases hstops
    refine h.setPhase hc hopen (fun p hp => by cases hp) ?_ ?_
    · rintro r hr hok
      cases hr
      have hpos : 0 < row.filled := of_decide_eq_true hok
      rcases hcases with hterminal | hpartial
      · exact ⟨row, hmem, hid, hterminal, (h.ended row hmem hterminal).1, hpos⟩
      · exact absurd hpos (not_lt.mpr (hset hpartial))
    · intro hactive
      have hnot : ¬ 0 < row.filled := of_decide_eq_false hactive
      refine decide_eq_false ?_
      rintro ⟨b, hb, hbid, hterminal, hne⟩
      obtain rfl := h.row_eq hb hmem (hbid.trans hid.symm)
      rw [(h.ended b hb hterminal).1] at hnot
      exact hne (le_antisymm (not_lt.mp hnot) (h.nonneg b hb))
  next =>
    refine h.goesOn hc hopen (fun r hr => by cases hr) (fun hl => by cases hl) fun p' hp => ?_
    cases hp
    exact ⟨row, hrow, hid⟩

/-- A call that is given up, raises or is cut off leaves no fill behind. -/
theorem Market.Inv.leaves (h : s.Inv) (hc : s.calls[k]? = some c) (hopen : c.isOpen = true)
    {phase : CallPhase} (hphase : phase = .lost ∨ ∃ r, phase = .returned r ∧ r.ok = false)
    (hset : s.endedFilled c.clientOrderId = false) : (s.setPhase k c phase).Inv := by
  refine h.setPhase hc hopen ?_ ?_ fun _ => hset
  · rintro p rfl
    rcases hphase with heq | ⟨r, heq, -⟩ <;> cases heq
  · rintro r rfl hok
    rcases hphase with heq | ⟨r', heq, hnot⟩
    · cases heq
    · cases heq
      exact absurd (hok.symm.trans hnot) (by decide)

theorem Market.Inv.call {l : CallLabel} (h : s.Inv) (hc : s.calls[k]? = some c)
    (hset : s.Settled (.call k l)) (hstep : callStep s k c c.phase l = some s') : s'.Inv := by
  simp only [Market.Settled, hc, Option.all_some] at hset
  have hisOpen : (∀ r, c.phase = .returned r → False) → (c.phase = .lost → False) →
      c.isOpen = true := by
    intro hreturned hlost
    unfold Call.isOpen
    cases hphase : c.phase with
    | placing => rfl
    | intended => rfl
    | polling => rfl
    | returned r => exact (hreturned r hphase).elim
    | lost => exact (hlost hphase).elim
  unfold callStep at hstep
  split at hstep
  -- `createsIntent`, `inserts`
  · next hphase =>
    obtain rfl := Option.some.inj hstep
    exact h.createsIntent hc (by simp [Call.isOpen, hphase]) _
  · next hphase =>
    obtain rfl := Option.some.inj hstep
    exact h.inserts hc (by simp [Call.isOpen, hphase]) _
  -- `polls`
  · next p hphase =>
    split at hstep
    next =>
      obtain ⟨row, hrow, rfl⟩ := Option.map_eq_some_iff.mp hstep
      simp only [Market.polled, hphase, hrow, Option.all_some, decide_eq_true_eq] at hset
      exact h.polls hc hphase hrow hset
    next => cases hstep
  -- `timesOut`
  · next p hphase =>
    split at hstep
    next =>
      obtain rfl := Option.some.inj hstep
      obtain ⟨hread, hended⟩ := of_decide_eq_true hset
      rw [Call.lastRead, hphase] at hread
      exact h.leaves hc (by simp [Call.isOpen, hphase])
        (.inr ⟨_, rfl, decide_eq_false (not_lt.mpr hread)⟩) hended
    next => cases hstep
  · cases hstep
  · cases hstep
  -- `raises`, `dies`
  · next hreturned hlost =>
    obtain rfl := Option.some.inj hstep
    exact h.leaves hc (hisOpen hreturned hlost) (.inr ⟨_, rfl, rfl⟩) (of_decide_eq_true hset)
  · next hreturned hlost =>
    obtain rfl := Option.some.inj hstep
    exact h.leaves hc (hisOpen hreturned hlost) (.inl rfl) (of_decide_eq_true hset)
  · cases hstep

/-! ## The worker -/

/-- A row is written again. -/
theorem Market.Inv.setRow (h : s.Inv) (hrow : s.rows[i]? = some row)
    (hkey : row'.idempotencyKey = row.idempotencyKey) (hid : row'.clientOrderId = row.clientOrderId)
    (htold : row.status.terminal = true →
      row'.status.terminal = true ∧ row'.exchangeFilled = row.exchangeFilled)
    (hended : row'.status.terminal = true → row'.filled = row'.exchangeFilled ∧
      (row.status.terminal = true ∨ row'.exchangeFilled = 0 ∨ s.hasOpen row.clientOrderId = true))
    (hnonneg : 0 ≤ row'.exchangeFilled) :
    Market.Inv { s with rows := s.rows.set i row' } := by
  have hmem := List.mem_of_getElem? hrow
  have hset : row' ∈ s.rows.set i row' := List.mem_set (List.getElem?_eq_some_iff.mp hrow).1 _
  refine ⟨?_, ?_, ?_, h.alone, ?_, ?_, ?_⟩
  · intro b hb
    rcases List.mem_or_eq_of_mem_set hb with hb | rfl
    · exact h.keys b hb
    · rw [hkey, hid, h.keys row hmem]
  · intro k j a b ha hb heq
    rcases List.getElem?_set_cases ha with ⟨rfl, rfl⟩ | ⟨-, ha'⟩
    · rcases List.getElem?_set_cases hb with ⟨rfl, -⟩ | ⟨-, hb'⟩
      · rfl
      · exact h.rows k j row b hrow hb' (hid.symm.trans heq)
    · rcases List.getElem?_set_cases hb with ⟨rfl, rfl⟩ | ⟨-, hb'⟩
      · exact h.rows k j a row ha' hrow (heq.trans hid)
      · exact h.rows k j a b ha' hb' heq
  · intro c hc p hp
    obtain ⟨b, hb, hbid⟩ := h.polling c hc p hp
    by_cases hpi : p.pendingId = i
    · subst hpi
      obtain rfl : row = b := Option.some.inj (hrow.symm.trans hb)
      exact ⟨row', List.getElem?_set_self (List.getElem?_eq_some_iff.mp hrow).1, hid.trans hbid⟩
    · exact ⟨b, (List.getElem?_set_ne (Ne.symm hpi)).trans hb, hbid⟩
  · intro c hc r hr hok
    obtain ⟨b, hb, hbid, hterminal, hfilled, hpos⟩ := h.told c hc r hr hok
    by_cases hbrow : b = row
    · subst hbrow
      obtain ⟨hterminal', hsame⟩ := htold hterminal
      exact ⟨row', hset, hid.trans hbid, hterminal', hfilled.trans hsame.symm, hpos⟩
    · obtain ⟨k, hk⟩ := List.mem_iff_getElem?.mp hb
      have hki : k ≠ i := by
        rintro rfl
        exact hbrow (Option.some.inj (hk.symm.trans hrow))
      refine ⟨b, List.mem_of_getElem? (i := k) ?_, hbid, hterminal, hfilled, hpos⟩
      rw [List.getElem?_set_ne (Ne.symm hki), hk]
  · intro b hb hterminal
    rcases List.mem_or_eq_of_mem_set hb with hb | rfl
    · exact h.ended b hb hterminal
    · obtain ⟨hfilled, hwas | hzero | hopen⟩ := hended hterminal
      · obtain ⟨-, hsame⟩ := htold hwas
        refine ⟨hfilled, ?_⟩
        rw [hsame, hid]
        exact (h.ended row hmem hwas).2
      · exact ⟨hfilled, .inl hzero⟩
      · obtain ⟨c, hc, hcid, hcopen⟩ := of_decide_eq_true hopen
        exact ⟨hfilled, .inr ⟨c, hc, hcid.trans hid.symm, isActive_of_isOpen hcopen⟩⟩
  · intro b hb
    rcases List.mem_or_eq_of_mem_set hb with hb | rfl
    · exact h.nonneg b hb
    · exact hnonneg

theorem Market.Inv.work {w : Work} (h : s.Inv) (hrow : s.rows[i]? = some row)
    (hset : s.Settled (.work i w)) (hstep : workStep row w = some row') :
    Market.Inv { s with rows := s.rows.set i row' } := by
  have hnonneg := h.nonneg row (List.mem_of_getElem? hrow)
  simp only [Market.Settled, hrow, Option.all_some] at hset
  cases w with
  | fills quantity =>
    unfold workStep at hstep
    dsimp only at hstep
    split at hstep
    next hpos =>
      obtain rfl := Option.some.inj hstep
      have hopen : row.status.terminal = false := of_decide_eq_true hset
      refine h.setRow hrow rfl rfl (fun hterminal => ?_) (fun hterminal => ?_)
        (add_nonneg hnonneg hpos.le) <;>
      · exact absurd (hterminal.symm.trans hopen) (by decide)
    next => cases hstep
  | writes status filled avgPrice exchangeOrderId =>
    obtain rfl := Option.some.inj hstep
    obtain ⟨hstays, hends⟩ := of_decide_eq_true hset
    exact h.setRow hrow rfl rfl (fun hterminal => ⟨hstays hterminal, rfl⟩) hends hnonneg

/-- **One label** that is settled preserves the invariant. -/
theorem Market.Inv.step {l : MarketLabel} (h : s.Inv) (hset : s.Settled l = true)
    (hstep : marketStep s l = some s') : s'.Inv := by
  cases l with
  | tick seconds =>
    rw [marketStep] at hstep
    split at hstep
    · obtain rfl := Option.some.inj hstep
      exact h.tick seconds
    · cases hstep
  | calls order =>
    obtain rfl := Option.some.inj hstep
    exact h.calls hset
  | call k l =>
    obtain ⟨c, hc, hcall⟩ := Option.bind_eq_some_iff.mp hstep
    exact h.call hc hset hcall
  | work i w =>
    obtain ⟨row, hrow, hmap⟩ := Option.bind_eq_some_iff.mp hstep
    obtain ⟨row', hwork, rfl⟩ := Option.map_eq_some_iff.mp hmap
    exact h.work hrow hset hwork

theorem Market.inv_of_empty (hrows : s.rows = []) (hcalls : s.calls = []) : s.Inv := by
  refine ⟨?_, ?_, ?_, ?_, ?_, ?_, ?_⟩
  · rw [hrows]
    exact fun row hrow => by cases hrow
  · rw [hrows]
    exact fun i j a b ha => by cases ha
  · rw [hcalls]
    exact fun c hc => by cases hc
  · rw [hcalls]
    exact fun i j a b ha => by cases ha
  · rw [hcalls]
    exact fun c hc => by cases hc
  · rw [hrows]
    exact fun row hrow => by cases hrow
  · rw [hrows]
    exact fun row hrow => by cases hrow

end

/-! ## One order -/

/-- The initial long order of strategy 7. -/
def initialOrder : Order where
  signal := .openLong
  quantity := 2
  clientOrderId := makeGridInitialClientOrderId 7 (some 'l')

/-- A call enqueues the order, polls once, and the exchange fills half of it. -/
def halfFilled : List MarketLabel :=
  [.calls initialOrder, .call 0 (.createsIntent false), .call 0 .inserts, .call 0 .polls,
   .work 0 (.writes .sent 0 0 "ex"), .work 0 (.fills 1)]

def otherHalf : List MarketLabel := [.work 0 (.fills 1), .work 0 (.writes .filled 2 100 "ex")]

/-- A second call joins the row of the first and returns the same fill. -/
theorem repeatedCall_recounts :
    ∃ s, Runs.run marketStep {} (halfFilled ++ otherHalf ++ [.tick 2, .call 0 .polls,
        .calls initialOrder, .call 1 (.createsIntent false), .call 1 .inserts,
        .call 1 .polls]) = some s ∧ ¬ s.CountedOnce := by
  obtain ⟨s, hs, row, hrow, hterminal, hdone, hne⟩ : ∃ s,
      Runs.run marketStep {} (halfFilled ++ otherHalf ++ [.tick 2, .call 0 .polls,
        .calls initialOrder, .call 1 (.createsIntent false), .call 1 .inserts,
        .call 1 .polls]) = some s ∧
        ∃ row ∈ s.rows, row.status.terminal = true ∧
          (∀ c ∈ s.calls, c.clientOrderId = row.clientOrderId → c.isOpen = false) ∧
            s.reported row.clientOrderId ≠ row.exchangeFilled := Runs.exists_of_any (by decide +kernel)
  exact ⟨s, hs, fun hcounted => hne (hcounted row hrow hterminal hdone)⟩

end AlgoTrade.GridMarket
