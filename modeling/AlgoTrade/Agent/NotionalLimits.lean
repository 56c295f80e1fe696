import AlgoTrade.Agent.PlaceOrder
import AlgoTrade.Lib.Runs
import Mathlib.Algebra.Order.BigOperators.Group.List
import Mathlib.Tactic.Linarith

/-! # The live notional limits of an agent token

* `Covered`: the orders of a day, and the holds that may still become orders, are
  covered by the reservations counted for that day.
* `covered_step`: every label that keeps the reservation with its order preserves
  it.
* `withinLimits_of_keeps`: then the limits hold.
* `failedAfterInsert_exceeds`: an exception after the insert frees a notional that
  is queued. -/

namespace AlgoTrade.Agent

/-! ## The property and its condition -/

/-- The notional the order adds to the token's day. -/
def AgentOrder.placed (token day : ℕ) (o : AgentOrder) : ℚ :=
  if o.token = token ∧ utcDay o.createdAt = day then o.notional else 0

namespace AgentState

variable (s : AgentState)

def placedOn (token day : ℕ) : ℚ := (s.orders.map (AgentOrder.placed token day)).sum

/-- Every live order is within its token's order limit, and every day of a token
within its daily limit. -/
def WithinLimits : Prop :=
  ∀ token t, s.tokens[token]? = some t →
    (∀ o ∈ s.orders, o.token = token → o.notional ≤ t.maxOrderNotional) ∧
      ∀ day, s.placedOn token day ≤ t.maxDailyNotional

/-- The label keeps a reservation with its order: the key has no reservation yet
and the notional column does not round the notional down; the order is inserted
on the day of its reservation; no exception is caught after the insert. -/
def Keeps : PlaceLabel → Prop
  | .reserve i referencePrice => ∀ c ∈ s.calls[i]?,
      c.request ∉ s.reservations.map Reservation.request ∧
        c.quantity * referencePrice ≤ decimal8 (c.quantity * referencePrice)
  | .insert i => ∀ c ∈ s.calls[i]?, ∀ hold, c.phase = .reserved hold →
      utcDay hold.reservedAt = utcDay s.clock
  | .raises i => ∀ c ∈ s.calls[i]?, c.phase ≠ .queued
  | _ => True

instance (phase : CallPhase) (p : Hold → Prop) [DecidablePred p] :
    Decidable (∀ hold, phase = .reserved hold → p hold) :=
  match phase with
  | .reserved hold => decidable_of_iff (p hold) ⟨fun h _ heq => by cases heq; exact h, fun h => h hold rfl⟩
  | .letIn | .keyed | .fresh | .raised _ | .queued | .raisedQueued | .executed | .answered | .ended =>
    isTrue fun _ heq => by cases heq

instance : ∀ l, Decidable (s.Keeps l)
  | .reserve i referencePrice => inferInstanceAs (Decidable (∀ c ∈ s.calls[i]?,
      c.request ∉ s.reservations.map Reservation.request ∧
        c.quantity * referencePrice ≤ decimal8 (c.quantity * referencePrice)))
  | .insert i => inferInstanceAs (Decidable (∀ c ∈ s.calls[i]?, ∀ hold, c.phase = .reserved hold →
      utcDay hold.reservedAt = utcDay s.clock))
  | .raises i => inferInstanceAs (Decidable (∀ c ∈ s.calls[i]?, c.phase ≠ .queued))
  | .tick _ | .request .. | .claimKey _ | .lookupJob _ | .finish _ | .answers _ | .recordJob _
  | .complete _ | .stops _ => inferInstanceAs (Decidable True)

/-- No call has been made yet. -/
structure Unused : Prop where
  reservations : s.reservations = []
  orders : s.orders = []
  calls : s.calls = []

end AgentState

/-! ## The invariant -/

/-- The hold that may still become an order. -/
def CallPhase.hold? : CallPhase → Option Hold
  | .reserved hold | .raised hold => some hold
  | _ => none

/-- The call has made the reservation under its key. -/
def CallPhase.claims : CallPhase → Bool
  | .reserved _ | .raised _ | .queued => true
  | _ => false

/-- What the call's hold weighs in the token's day. -/
def PlaceCall.held (w : ℚ → ℚ) (token day : ℕ) (c : PlaceCall) : ℚ :=
  match c.phase.hold? with
  | none => 0
  | some hold =>
    if c.request.token = token ∧ utcDay hold.reservedAt = day then w hold.notional else 0

namespace AgentState

def heldOn (s : AgentState) (w : ℚ → ℚ) (token day : ℕ) : ℚ :=
  (s.calls.map (PlaceCall.held w token day)).sum

/-- A call with a hold has a counted reservation of the same day for what the
column stores of it. -/
def Backed (s : AgentState) (c : PlaceCall) (hold : Hold) : Prop :=
  ∃ r ∈ s.reservations, r.request = c.request ∧ r.status ≠ .failed ∧
    utcDay r.createdAt = utcDay hold.reservedAt ∧ r.notional = decimal8 hold.notional

structure Covered (s : AgentState) : Prop where
  keys : (s.reservations.map Reservation.request).Nodup
  stored : ∀ r ∈ s.reservations, 0 ≤ r.notional
  positive : ∀ c ∈ s.calls, 0 < c.quantity
  clean : ∀ c ∈ s.calls, c.phase ≠ .raisedQueued
  claimed : ∀ c ∈ s.calls, c.phase.claims = true →
    c.request ∈ s.reservations.map Reservation.request
  alone : ∀ (i j : ℕ) (c d : PlaceCall), s.calls[i]? = some c → s.calls[j]? = some d →
    c.phase.claims = true → d.phase.claims = true → c.request = d.request → i = j
  backed : ∀ c ∈ s.calls, ∀ hold, c.phase.hold? = some hold → s.Backed c hold
  fits : ∀ c ∈ s.calls, ∀ hold, c.phase.hold? = some hold →
    0 ≤ hold.notional ∧ hold.notional ≤ decimal8 hold.notional ∧
      ∀ t ∈ s.tokens[c.request.token]?, hold.notional ≤ t.maxOrderNotional
  small : ∀ o ∈ s.orders, ∀ t ∈ s.tokens[o.token]?, o.notional ≤ t.maxOrderNotional
  covered : ∀ token day, s.placedOn token day + s.heldOn decimal8 token day ≤ s.used token day
  capped : ∀ token day, ∀ t ∈ s.tokens[token]?,
    s.placedOn token day + s.heldOn id token day ≤ t.maxDailyNotional

/-! ## What a label leaves as it is -/

section
variable {s s' : AgentState} {i : ℕ} {c : PlaceCall} {phase : CallPhase} {w : ℚ → ℚ}
  {token day : ℕ}

/-- The invariant looks at the tokens, the reservations, the orders and the calls. -/
theorem Covered.congr (h : s.Covered) (ht : s'.tokens = s.tokens)
    (hr : s'.reservations = s.reservations) (ho : s'.orders = s.orders)
    (hc : s'.calls = s.calls) : s'.Covered := by
  obtain ⟨clock, tokens, idempotency, jobs, reservations, orders, calls⟩ := s'
  obtain rfl : tokens = s.tokens := ht
  obtain rfl : reservations = s.reservations := hr
  obtain rfl : orders = s.orders := ho
  obtain rfl : calls = s.calls := hc
  exact ⟨h.keys, h.stored, h.positive, h.clean, h.claimed, h.alone, h.backed, h.fits, h.small,
    h.covered, h.capped⟩

theorem held_eq (c : PlaceCall) (w : ℚ → ℚ) (token day : ℕ) {hold : Hold}
    (h : c.phase.hold? = some hold) :
    c.held w token day =
      if c.request.token = token ∧ utcDay hold.reservedAt = day then w hold.notional else 0 := by
  unfold PlaceCall.held
  rw [h]

theorem held_eq_zero (h : c.phase.hold? = none) : c.held w token day = 0 := by
  unfold PlaceCall.held
  rw [h]

theorem heldOn_setCall (hc : s.calls[i]? = some c) :
    (s.setCall i c phase).heldOn w token day =
      s.heldOn w token day - c.held w token day + PlaceCall.held w token day { c with phase } :=
  List.sum_map_set hc _ _

theorem Covered.held_nonneg (h : s.Covered) (hc : c ∈ s.calls) (token day : ℕ) :
    0 ≤ c.held id token day ∧ c.held id token day ≤ c.held decimal8 token day := by
  cases hhold : c.phase.hold? with
  | none =>
    rw [held_eq_zero hhold, held_eq_zero hhold]
    exact ⟨le_rfl, le_rfl⟩
  | some hold =>
    obtain ⟨hpos, hle, -⟩ := h.fits c hc hold hhold
    rw [held_eq c id token day hhold, held_eq c decimal8 token day hhold]
    by_cases hin : c.request.token = token ∧ utcDay hold.reservedAt = day
    · rw [if_pos hin, if_pos hin]
      exact ⟨hpos, hle⟩
    · rw [if_neg hin, if_neg hin]
      exact ⟨le_rfl, le_rfl⟩

/-- A call that moves on keeps its hold or drops it, and makes no new claim. -/
structure MovesOn (c : PlaceCall) (phase : CallPhase) : Prop where
  hold : phase.hold? = none ∨ phase.hold? = c.phase.hold?
  claims : phase.claims = true → c.phase.claims = true
  clean : phase ≠ .raisedQueued

theorem held_movesOn (hs : s.Covered) (hc : s.calls[i]? = some c) (h : MovesOn c phase)
    (token day : ℕ) :
    PlaceCall.held id token day { c with phase } ≤ c.held id token day ∧
      PlaceCall.held decimal8 token day { c with phase } ≤ c.held decimal8 token day := by
  obtain ⟨hpos, hle⟩ := hs.held_nonneg (List.mem_of_getElem? hc) token day
  rcases h.hold with hnone | hsame
  · have hzero : ∀ w, PlaceCall.held w token day { c with phase } = 0 := fun w =>
      held_eq_zero hnone
    rw [hzero, hzero]
    exact ⟨hpos, hpos.trans hle⟩
  · have heq : ∀ w, PlaceCall.held w token day { c with phase } = c.held w token day := by
      intro w
      unfold PlaceCall.held
      rw [show ({ c with phase } : PlaceCall).phase.hold? = c.phase.hold? from hsame]
    rw [heq, heq]
    exact ⟨le_rfl, le_rfl⟩

/-- A call that moves on preserves the invariant. -/
theorem Covered.setCall (hs : s.Covered) (hc : s.calls[i]? = some c) (h : MovesOn c phase) :
    (s.setCall i c phase).Covered := by
  have hmem : c ∈ s.calls := List.mem_of_getElem? hc
  have hcalls : ∀ d ∈ (s.setCall i c phase).calls, d ∈ s.calls ∨ d = { c with phase } :=
    fun d hd => List.mem_or_eq_of_mem_set hd
  -- the calls that hold or claim did so before, with the same request
  have hheld : ∀ d ∈ (s.setCall i c phase).calls, ∀ hold, d.phase.hold? = some hold →
      ∃ e ∈ s.calls, e.phase.hold? = some hold ∧ e.request = d.request := by
    intro d hd hold hhold
    rcases hcalls d hd with hd | rfl
    · exact ⟨d, hd, hhold, rfl⟩
    · rcases h.hold with hnone | hsame
      · rw [show ({ c with phase } : PlaceCall).phase.hold? = none from hnone] at hhold
        cases hhold
      · exact ⟨c, hmem, hsame.symm.trans hhold, rfl⟩
  have hplace : ∀ (j : ℕ) (d : PlaceCall), (s.setCall i c phase).calls[j]? = some d →
      d.phase.claims = true →
        ∃ e, s.calls[j]? = some e ∧ e.phase.claims = true ∧ e.request = d.request := by
    intro j d hd hclaims
    rcases List.getElem?_set_cases hd with ⟨rfl, rfl⟩ | ⟨-, hd⟩
    · exact ⟨c, hc, h.claims hclaims, rfl⟩
    · exact ⟨d, hd, hclaims, rfl⟩
  constructor
  · exact hs.keys
  · exact hs.stored
  · intro d hd
    rcases hcalls d hd with hd | rfl
    · exact hs.positive d hd
    · exact hs.positive c hmem
  · intro d hd
    rcases hcalls d hd with hd | rfl
    · exact hs.clean d hd
    · exact h.clean
  · intro d hd hclaims
    rcases hcalls d hd with hd | rfl
    · exact hs.claimed d hd hclaims
    · exact hs.claimed c hmem (h.claims hclaims)
  · intro j k d e hd he hclaims hclaims' heq
    obtain ⟨d', hd', hd'claims, hd'req⟩ := hplace j d hd hclaims
    obtain ⟨e', he', he'claims, he'req⟩ := hplace k e he hclaims'
    exact hs.alone j k d' e' hd' he' hd'claims he'claims (hd'req.trans (heq.trans he'req.symm))
  · intro d hd hold hhold
    obtain ⟨e, he, hehold, hereq⟩ := hheld d hd hold hhold
    obtain ⟨r, hr, hreq, hrest⟩ := hs.backed e he hold hehold
    exact ⟨r, hr, hreq.trans hereq, hrest⟩
  · intro d hd hold hhold
    obtain ⟨e, he, hehold, hereq⟩ := hheld d hd hold hhold
    rw [← hereq]
    exact hs.fits e he hold hehold
  · exact hs.small
  · intro token day
    have hcovered := hs.covered token day
    have hle := (held_movesOn hs hc h token day).2
    rw [heldOn_setCall hc]
    show s.placedOn token day + _ ≤ s.used token day
    linarith
  · intro token day t ht
    have hcapped := hs.capped token day t ht
    have hle := (held_movesOn hs hc h token day).1
    rw [heldOn_setCall hc]
    show s.placedOn token day + _ ≤ t.maxDailyNotional
    linarith

/-! ## Reserving, inserting, finishing -/

theorem heldOn_le (hs : s.Covered) (token day : ℕ) :
    s.heldOn id token day ≤ s.heldOn decimal8 token day :=
  List.sum_le_sum fun _ hc => (hs.held_nonneg hc token day).2

/-- A reservation that passes the limits, under a key without one. -/
theorem Covered.reserve (hs : s.Covered) (hc : s.calls[i]? = some c) {notional : ℚ}
    (hfresh : c.request ∉ s.reservations.map Reservation.request)
    (hstored : notional ≤ decimal8 notional) (hpos : 0 < notional)
    (hallows : ∀ t ∈ s.tokens[c.request.token]?,
      t.allows (s.used c.request.token (utcDay s.clock)) notional = true)
    (hidle : c.phase.hold? = none) :
    Covered { s.setCall i c (.reserved ⟨notional, s.clock⟩) with
      reservations := insertReservation s.reservations
        { request := c.request, notional := decimal8 notional, createdAt := s.clock } } := by
  have hmem : c ∈ s.calls := List.mem_of_getElem? hc
  have hinsert : insertReservation s.reservations
      { request := c.request, notional := decimal8 notional, createdAt := s.clock } =
        s.reservations ++
          [{ request := c.request, notional := decimal8 notional, createdAt := s.clock }] :=
    if_neg hfresh
  rw [hinsert]
  have hheld : ∀ w token day, PlaceCall.held w token day
      { c with phase := .reserved ⟨notional, s.clock⟩ } =
        if c.request.token = token ∧ utcDay s.clock = day then w notional else 0 := by
    intro w token day
    rfl
  have hcalls : ∀ d ∈ s.calls.set i { c with phase := .reserved ⟨notional, s.clock⟩ },
      d ∈ s.calls ∨ d = { c with phase := .reserved ⟨notional, s.clock⟩ } :=
    fun d hd => List.mem_or_eq_of_mem_set hd
  constructor
  · rw [List.map_append, List.map_singleton]
    refine List.nodup_append.mpr ⟨hs.keys, by simp, ?_⟩
    rintro a ha b hb rfl
    rw [List.mem_singleton.mp hb] at ha
    exact hfresh ha
  · intro r hr
    rcases List.mem_append.mp hr with hr | hr
    · exact hs.stored r hr
    · rw [List.mem_singleton.mp hr]
      exact hpos.le.trans hstored
  · intro d hd
    rcases hcalls d hd with hd | rfl
    · exact hs.positive d hd
    · exact hs.positive c hmem
  · intro d hd
    rcases hcalls d hd with hd | rfl
    · exact hs.clean d hd
    · simp
  · intro d hd hclaims
    rw [List.map_append]
    rcases hcalls d hd with hd | rfl
    · exact List.mem_append_left _ (hs.claimed d hd hclaims)
    · exact List.mem_append_right _ (List.mem_singleton_self _)
  · intro j k d e hd he hclaims hclaims' heq
    rcases List.getElem?_set_cases hd with ⟨rfl, rfl⟩ | ⟨-, hd'⟩ <;>
      rcases List.getElem?_set_cases he with ⟨rfl, rfl⟩ | ⟨-, he'⟩
    · rfl
    · have hbad := hs.claimed e (List.mem_of_getElem? he') hclaims'
      rw [← heq] at hbad
      exact absurd hbad hfresh
    · have hbad := hs.claimed d (List.mem_of_getElem? hd') hclaims
      rw [heq] at hbad
      exact absurd hbad hfresh
    · exact hs.alone j k d e hd' he' hclaims hclaims' heq
  · intro d hd hold hhold
    rcases hcalls d hd with hd | rfl
    · obtain ⟨r, hr, hrest⟩ := hs.backed d hd hold hhold
      exact ⟨r, List.mem_append_left _ hr, hrest⟩
    · obtain rfl : ⟨notional, s.clock⟩ = hold := Option.some.inj hhold
      exact ⟨_, List.mem_append_right _ (List.mem_singleton_self _), rfl, by simp, rfl, rfl⟩
  · intro d hd hold hhold
    rcases hcalls d hd with hd | rfl
    · exact hs.fits d hd hold hhold
    · obtain rfl : ⟨notional, s.clock⟩ = hold := Option.some.inj hhold
      refine ⟨hpos.le, hstored, fun t ht => ?_⟩
      exact (of_decide_eq_true (hallows t ht)).1
  · exact hs.small
  · intro token day
    have hcovered := hs.covered token day
    show s.placedOn token day + ((s.calls.set i _).map (PlaceCall.held decimal8 token day)).sum ≤
      ((s.reservations ++ [_]).map (Reservation.counted token day)).sum
    rw [List.sum_map_set hc, held_eq_zero hidle, hheld, List.map_append, List.sum_append,
      List.map_singleton, List.sum_singleton]
    have hcounted : Reservation.counted token day
        { request := c.request, notional := decimal8 notional, createdAt := s.clock } =
          if c.request.token = token ∧ utcDay s.clock = day then decimal8 notional else 0 := by
      simp [Reservation.counted]
    rw [hcounted]
    show _ ≤ s.used token day + _
    have : s.heldOn decimal8 token day =
      (s.calls.map (PlaceCall.held decimal8 token day)).sum := rfl
    linarith
  · intro token day t ht
    show s.placedOn token day + ((s.calls.set i _).map (PlaceCall.held id token day)).sum ≤ _
    rw [List.sum_map_set hc, held_eq_zero hidle, hheld]
    have hcapped := hs.capped token day t ht
    have hsum : s.heldOn id token day = (s.calls.map (PlaceCall.held id token day)).sum := rfl
    by_cases hin : c.request.token = token ∧ utcDay s.clock = day
    · obtain ⟨rfl, rfl⟩ := hin
      rw [if_pos ⟨rfl, rfl⟩]
      have hdaily := (of_decide_eq_true (hallows t ht)).2
      have hcovered := hs.covered c.request.token (utcDay s.clock)
      have hle := heldOn_le hs c.request.token (utcDay s.clock)
      rw [id]
      linarith
    · rw [if_neg hin]
      linarith

/-- An order inserted on the day of its reservation takes the place of the hold. -/
theorem Covered.insert (hs : s.Covered) (hc : s.calls[i]? = some c) {hold : Hold}
    (hphase : c.phase = .reserved hold) (hday : utcDay hold.reservedAt = utcDay s.clock) :
    (s.insertOrder i c hold).Covered := by
  have hmem : c ∈ s.calls := List.mem_of_getElem? hc
  have hhold : c.phase.hold? = some hold := by rw [hphase]; rfl
  obtain ⟨hpos, hstored, hsmall⟩ := hs.fits c hmem hold hhold
  have hmoves : MovesOn c .queued :=
    ⟨.inl rfl, fun _ => by rw [hphase]; rfl, by simp⟩
  have hset := hs.setCall hc hmoves
  have hplaced : ∀ token day, AgentOrder.placed token day
      { token := c.request.token, notional := hold.notional, createdAt := s.clock,
        updatedAt := s.clock } = c.held id token day := by
    intro token day
    rw [held_eq c id token day hhold, hday]
    rfl
  have hzero : ∀ w token day, PlaceCall.held w token day { c with phase := .queued } = 0 :=
    fun w token day => held_eq_zero rfl
  refine ⟨hset.keys, hset.stored, hset.positive, hset.clean, hset.claimed, hset.alone,
    hset.backed, hset.fits, ?_, ?_, ?_⟩
  · intro o ho t ht
    rcases List.mem_append.mp ho with ho | ho
    · exact hs.small o ho t ht
    · obtain rfl := List.mem_singleton.mp ho
      exact hsmall t ht
  · intro token day
    show ((s.orders ++ [_]).map (AgentOrder.placed token day)).sum +
      (s.setCall i c .queued).heldOn decimal8 token day ≤ s.used token day
    rw [heldOn_setCall hc, hzero, List.map_append, List.sum_append, List.map_singleton,
      List.sum_singleton, hplaced]
    have hcovered := hs.covered token day
    have hle := (hs.held_nonneg hmem token day).2
    have : s.placedOn token day = (s.orders.map (AgentOrder.placed token day)).sum := rfl
    linarith
  · intro token day t ht
    show ((s.orders ++ [_]).map (AgentOrder.placed token day)).sum +
      (s.setCall i c .queued).heldOn id token day ≤ t.maxDailyNotional
    rw [heldOn_setCall hc, hzero, List.map_append, List.sum_append, List.map_singleton,
      List.sum_singleton, hplaced]
    have hcapped := hs.capped token day t ht
    have : s.placedOn token day = (s.orders.map (AgentOrder.placed token day)).sum := rfl
    linarith

/-- Finishing changes the status of one reservation. -/
theorem finishNotional_used {r : Reservation} (hs : s.Covered) (hr : r ∈ s.reservations)
    (status : ReservationStatus) (token day : ℕ) :
    ((finishNotional s.reservations r.request status).map (Reservation.counted token day)).sum =
      s.used token day - r.counted token day + Reservation.counted token day { r with status } :=
  List.sum_map_update hs.keys hr (fun r => { r with status }) _

theorem mem_finishNotional {rs : List Reservation} {request : RequestKey}
    {status : ReservationStatus} {r : Reservation} (h : r ∈ finishNotional rs request status) :
    ∃ q ∈ rs, r.request = q.request ∧ r.notional = q.notional := by
  obtain ⟨q, hq, rfl⟩ := List.mem_map.mp h
  refine ⟨q, hq, ?_⟩
  split <;> exact ⟨rfl, rfl⟩

theorem map_request_finishNotional (rs : List Reservation) (request : RequestKey)
    (status : ReservationStatus) :
    (finishNotional rs request status).map Reservation.request = rs.map Reservation.request := by
  unfold finishNotional
  rw [List.map_map]
  refine List.map_congr_left fun r _ => ?_
  show (if r.request = request then { r with status } else r).request = r.request
  split <;> rfl

/-- A call without a hold keeps its backing when another reservation is finished,
or when the new status counts. -/
theorem backed_finish {d : PlaceCall} {hold : Hold} {request : RequestKey}
    {status : ReservationStatus} (h : s.Backed d hold)
    (hkeep : status ≠ .failed ∨ d.request ≠ request) :
    ∃ r ∈ finishNotional s.reservations request status, r.request = d.request ∧
      r.status ≠ .failed ∧ utcDay r.createdAt = utcDay hold.reservedAt ∧
        r.notional = decimal8 hold.notional := by
  obtain ⟨r, hr, hreq, hstatus, hday, hnotional⟩ := h
  by_cases hfinished : r.request = request
  · have hcounts : status ≠ .failed := hkeep.resolve_right fun hne => hne (hreq ▸ hfinished)
    refine ⟨{ r with status }, ?_, hreq, hcounts, hday, hnotional⟩
    exact List.mem_map.mpr ⟨r, hr, if_pos hfinished⟩
  · exact ⟨r, List.mem_map.mpr ⟨r, hr, if_neg hfinished⟩, hreq, hstatus, hday, hnotional⟩

/-- An order is in the queue and its reservation is marked executed. -/
theorem Covered.finishExecuted (hs : s.Covered) (hc : s.calls[i]? = some c)
    (hphase : c.phase = .queued) : (s.finish i c .executed .executed).Covered := by
  have hmoves : MovesOn c .executed := ⟨.inl rfl, fun h => (by cases h), by simp⟩
  have hset := hs.setCall hc hmoves
  have hused : ∀ token day, s.used token day ≤
      ((finishNotional s.reservations c.request .executed).map
        (Reservation.counted token day)).sum := by
    intro token day
    have hclaimed := hs.claimed c (List.mem_of_getElem? hc) (by rw [hphase]; rfl)
    obtain ⟨r, hr, hreq⟩ := List.mem_map.mp hclaimed
    rw [← hreq, finishNotional_used hs hr]
    have hstored := hs.stored r hr
    have hle : r.counted token day ≤
        Reservation.counted token day { r with status := .executed } := by
      unfold Reservation.counted
      by_cases hin : r.request.token = token ∧ utcDay r.createdAt = day
      · rw [if_pos (c := _ ∧ _ ∧ ReservationStatus.executed ≠ .failed) ⟨hin.1, hin.2, by simp⟩]
        split
        · exact le_rfl
        · exact hstored
      · rw [if_neg fun h => hin ⟨h.1, h.2.1⟩, if_neg fun h => hin ⟨h.1, h.2.1⟩]
    linarith
  refine ⟨?_, ?_, hset.positive, hset.clean, ?_, hset.alone, ?_, hset.fits, hset.small, ?_,
    hset.capped⟩
  · show ((finishNotional s.reservations c.request .executed).map Reservation.request).Nodup
    rw [map_request_finishNotional]
    exact hs.keys
  · intro r hr
    obtain ⟨q, hq, -, hnotional⟩ := mem_finishNotional hr
    exact hnotional ▸ hs.stored q hq
  · intro d hd hclaims
    show d.request ∈ (finishNotional s.reservations c.request .executed).map Reservation.request
    rw [map_request_finishNotional]
    exact hset.claimed d hd hclaims
  · intro d hd hold hhold
    exact backed_finish (hset.backed d hd hold hhold) (.inl (by simp))
  · intro token day
    exact (hset.covered token day).trans (hused token day)

/-- A call that raised before the insert gives its reservation back. -/
theorem Covered.finishFailed (hs : s.Covered) (hc : s.calls[i]? = some c) {hold : Hold}
    (hphase : c.phase = .raised hold) : (s.finish i c .failed .answered).Covered := by
  have hmem : c ∈ s.calls := List.mem_of_getElem? hc
  have hhold : c.phase.hold? = some hold := by rw [hphase]; rfl
  have hmoves : MovesOn c .answered := ⟨.inl rfl, fun h => (by cases h), by simp⟩
  have hset := hs.setCall hc hmoves
  obtain ⟨r, hr, hreq, hstatus, hday, hnotional⟩ := hs.backed c hmem hold hhold
  -- no other call has a claim under this key
  have hothers : ∀ (j : ℕ) (d : PlaceCall), (s.setCall i c .answered).calls[j]? = some d →
      d.phase.claims = true → d.request ≠ c.request := by
    intro j d hd hclaims heq
    rcases List.getElem?_set_cases hd with ⟨rfl, rfl⟩ | ⟨hji, hd'⟩
    · cases hclaims
    · have hcclaims : c.phase.claims = true := by rw [hphase]; rfl
      exact hji (hs.alone j i d c hd' hc hclaims hcclaims heq)
  refine ⟨?_, ?_, hset.positive, hset.clean, ?_, hset.alone, ?_, hset.fits, hset.small, ?_,
    hset.capped⟩
  · show ((finishNotional s.reservations c.request .failed).map Reservation.request).Nodup
    rw [map_request_finishNotional]
    exact hs.keys
  · intro q hq
    obtain ⟨q', hq', -, hnotional'⟩ := mem_finishNotional hq
    exact hnotional' ▸ hs.stored q' hq'
  · intro d hd hclaims
    show d.request ∈ (finishNotional s.reservations c.request .failed).map Reservation.request
    rw [map_request_finishNotional]
    exact hset.claimed d hd hclaims
  · intro d hd hold' hhold'
    obtain ⟨j, hj⟩ := List.getElem?_of_mem hd
    have hclaims : d.phase.claims = true := by
      cases hp : d.phase with
      | reserved _ => rfl
      | raised _ => rfl
      | letIn => rw [hp] at hhold'; cases hhold'
      | keyed => rw [hp] at hhold'; cases hhold'
      | fresh => rw [hp] at hhold'; cases hhold'
      | queued => rfl
      | raisedQueued => rw [hp] at hhold'; cases hhold'
      | executed => rw [hp] at hhold'; cases hhold'
      | answered => rw [hp] at hhold'; cases hhold'
      | ended => rw [hp] at hhold'; cases hhold'
    exact backed_finish (hset.backed d hd hold' hhold') (.inr (hothers j d hj hclaims))
  · intro token day
    show s.placedOn token day + (s.setCall i c .answered).heldOn decimal8 token day ≤
      ((finishNotional s.reservations c.request .failed).map (Reservation.counted token day)).sum
    have hzero : PlaceCall.held decimal8 token day { c with phase := .answered } = 0 :=
      held_eq_zero rfl
    have hcounted : r.counted token day = c.held decimal8 token day := by
      rw [held_eq c decimal8 token day hhold]
      unfold Reservation.counted
      rw [hreq, hday, hnotional]
      simp only [hstatus, ne_eq, not_false_eq_true, and_true]
    have hfreed : Reservation.counted token day { r with status := .failed } = 0 := by
      simp [Reservation.counted]
    rw [heldOn_setCall hc, hzero, ← hreq, finishNotional_used hs hr, hcounted, hfreed]
    have hcovered := hs.covered token day
    linarith

/-! ## One label -/

/-- A new call. -/
theorem Covered.request (hs : s.Covered) {request : RequestKey} {requestHash : String}
    {quantity : ℚ} (hpos : 0 < quantity) :
    Covered { s with calls := s.calls ++ [{ request, requestHash, quantity }] } := by
  have hcalls : ∀ d ∈ s.calls ++ [({ request, requestHash, quantity } : PlaceCall)],
      d ∈ s.calls ∨ d = { request, requestHash, quantity } := by
    intro d hd
    exact (List.mem_append.mp hd).imp_right List.mem_singleton.mp
  have hheldOn : ∀ w token day,
      ((s.calls ++ [({ request, requestHash, quantity } : PlaceCall)]).map
        (PlaceCall.held w token day)).sum = s.heldOn w token day := by
    intro w token day
    rw [List.map_append, List.sum_append, List.map_singleton, List.sum_singleton,
      held_eq_zero rfl, add_zero]
    rfl
  refine ⟨hs.keys, hs.stored, ?_, ?_, ?_, ?_, ?_, ?_, hs.small, ?_, ?_⟩
  · intro d hd
    rcases hcalls d hd with hd | rfl
    · exact hs.positive d hd
    · exact hpos
  · intro d hd
    rcases hcalls d hd with hd | rfl
    · exact hs.clean d hd
    · simp
  · intro d hd hclaims
    rcases hcalls d hd with hd | rfl
    · exact hs.claimed d hd hclaims
    · cases hclaims
  · intro j k d e hd he hclaims hclaims' heq
    rcases List.getElem?_append_cases hd with ⟨-, rfl⟩ | hd'
    · cases hclaims
    · rcases List.getElem?_append_cases he with ⟨-, rfl⟩ | he'
      · cases hclaims'
      · exact hs.alone j k d e hd' he' hclaims hclaims' heq
  · intro d hd hold hhold
    rcases hcalls d hd with hd | rfl
    · exact hs.backed d hd hold hhold
    · cases hhold
  · intro d hd hold hhold
    rcases hcalls d hd with hd | rfl
    · exact hs.fits d hd hold hhold
    · cases hhold
  · intro token day
    show s.placedOn token day + List.sum _ ≤ s.used token day
    rw [hheldOn]
    exact hs.covered token day
  · intro token day t ht
    show s.placedOn token day + List.sum _ ≤ t.maxDailyNotional
    rw [hheldOn]
    exact hs.capped token day t ht

/-- The labels that only move a call on. -/
theorem Covered.movesOn (hs : s.Covered) (hc : s.calls[i]? = some c) (h : MovesOn c phase)
    (ht : s'.tokens = s.tokens) (hr : s'.reservations = s.reservations)
    (ho : s'.orders = s.orders) (hcalls : s'.calls = s.calls.set i { c with phase }) :
    s'.Covered :=
  (hs.setCall hc h).congr ht hr ho hcalls

/-- A reservation that is made or refused. -/
theorem Covered.reserveNotional (hs : s.Covered) (hc : s.calls[i]? = some c)
    (hphase : c.phase = .fresh) {referencePrice : ℚ}
    (hfresh : c.request ∉ s.reservations.map Reservation.request)
    (hstored : c.quantity * referencePrice ≤ decimal8 (c.quantity * referencePrice)) :
    (s.reserveNotional i c referencePrice).Covered := by
  unfold AgentState.reserveNotional
  dsimp only
  split
  next hpasses =>
    obtain ⟨hprice, hallows⟩ := hpasses
    have hpos := mul_pos (hs.positive c (List.mem_of_getElem? hc)) hprice
    refine hs.reserve hc hfresh hstored hpos (fun t ht => ?_) (by rw [hphase]; rfl)
    rw [Option.mem_def] at ht
    rw [ht] at hallows
    exact hallows
  next =>
    exact hs.setCall hc ⟨.inl rfl, fun h => (by cases h), by simp⟩

/-- **Every label that keeps the reservation with its order** preserves the
invariant. -/
theorem covered_step {staleAfter : Seconds} {l : PlaceLabel} (hs : s.Covered) (hk : s.Keeps l)
    (hstep : placeStep staleAfter s l = some s') : s'.Covered := by
  -- a call that drops its hold, or has none
  have hdrop : ∀ {i : ℕ} {c : PlaceCall} {phase : CallPhase} {s' : AgentState},
      s.calls[i]? = some c → phase.hold? = none → phase.claims = false → phase ≠ .raisedQueued →
        s'.tokens = s.tokens → s'.reservations = s.reservations → s'.orders = s.orders →
          s'.calls = s.calls.set i { c with phase } → s'.Covered := by
    intro i c phase s' hc hhold hclaims hclean ht hr ho hcalls
    refine hs.movesOn hc ⟨.inl hhold, fun h => ?_, hclean⟩ ht hr ho hcalls
    rw [hclaims] at h
    cases h
  cases l with
  | tick seconds =>
    obtain rfl := Option.some.inj hstep
    exact hs.congr rfl rfl rfl rfl
  | request token key requestHash quantity =>
    change (if _ then _ else none) = some s' at hstep
    split at hstep
    next hin =>
      obtain rfl := Option.some.inj hstep
      exact hs.request hin.2
    next => cases hstep
  | claimKey i =>
    obtain ⟨c, hc, hstep⟩ := Option.bind_eq_some_iff.mp hstep
    simp only [callStep] at hstep
    split at hstep
    · split at hstep
      · obtain rfl := Option.some.inj hstep
        exact hdrop hc rfl rfl (by simp) rfl rfl rfl rfl
      · obtain rfl := Option.some.inj hstep
        exact hdrop hc rfl rfl (by simp) rfl rfl rfl rfl
    · cases hstep
  | lookupJob i =>
    obtain ⟨c, hc, hstep⟩ := Option.bind_eq_some_iff.mp hstep
    simp only [callStep] at hstep
    split at hstep
    · obtain rfl := Option.some.inj hstep
      split
      · exact hdrop hc rfl rfl (by simp) rfl rfl rfl rfl
      · exact hdrop hc rfl rfl (by simp) rfl rfl rfl rfl
    · cases hstep
  | reserve i referencePrice =>
    obtain ⟨c, hc, hstep⟩ := Option.bind_eq_some_iff.mp hstep
    obtain ⟨hfresh, hstored⟩ := hk c hc
    simp only [callStep] at hstep
    split at hstep
    next hphase =>
      obtain rfl := Option.some.inj hstep
      exact hs.reserveNotional hc hphase hfresh hstored
    next => cases hstep
  | insert i =>
    obtain ⟨c, hc, hstep⟩ := Option.bind_eq_some_iff.mp hstep
    simp only [callStep] at hstep
    split at hstep
    next hold hphase =>
      obtain rfl := Option.some.inj hstep
      exact hs.insert hc hphase (hk c hc hold hphase)
    next => cases hstep
  | raises i =>
    obtain ⟨c, hc, hstep⟩ := Option.bind_eq_some_iff.mp hstep
    simp only [callStep] at hstep
    split at hstep
    next hold hphase =>
      obtain rfl := Option.some.inj hstep
      refine hs.setCall hc ⟨.inr ?_, fun _ => ?_, by simp⟩
      · rw [hphase]
        rfl
      · rw [hphase]
        rfl
    next hphase => exact absurd hphase (hk c hc)
    next => cases hstep
  | finish i =>
    obtain ⟨c, hc, hstep⟩ := Option.bind_eq_some_iff.mp hstep
    simp only [callStep] at hstep
    split at hstep
    next hold hphase =>
      obtain rfl := Option.some.inj hstep
      exact hs.finishFailed hc hphase
    next hphase => exact absurd hphase (hs.clean c (List.mem_of_getElem? hc))
    next hphase =>
      obtain rfl := Option.some.inj hstep
      exact hs.finishExecuted hc hphase
    next => cases hstep
  | answers i =>
    obtain ⟨c, hc, hstep⟩ := Option.bind_eq_some_iff.mp hstep
    simp only [callStep] at hstep
    split at hstep
    all_goals first
      | (obtain rfl := Option.some.inj hstep
         exact hdrop hc rfl rfl (by simp) rfl rfl rfl rfl)
      | cases hstep
  | recordJob i =>
    obtain ⟨c, hc, hstep⟩ := Option.bind_eq_some_iff.mp hstep
    simp only [callStep] at hstep
    split at hstep
    · obtain rfl := Option.some.inj hstep
      exact hdrop hc rfl rfl (by simp) rfl rfl rfl rfl
    · cases hstep
  | complete i =>
    obtain ⟨c, hc, hstep⟩ := Option.bind_eq_some_iff.mp hstep
    simp only [callStep] at hstep
    split at hstep
    · obtain rfl := Option.some.inj hstep
      exact hdrop hc rfl rfl (by simp) rfl rfl rfl rfl
    · cases hstep
  | stops i =>
    obtain ⟨c, hc, hstep⟩ := Option.bind_eq_some_iff.mp hstep
    obtain rfl := Option.some.inj hstep
    exact hdrop hc rfl rfl (by simp) rfl rfl rfl rfl

/-! ## Runs -/

theorem Unused.covered (h : s.Unused) : s.Covered := by
  obtain ⟨hr, ho, hc⟩ := h
  have hnone : ∀ c : PlaceCall, c ∉ s.calls := by
    intro c hmem
    rw [hc] at hmem
    cases hmem
  have hplaced : ∀ token day, s.placedOn token day = 0 := by
    intro token day
    rw [placedOn, ho]
    rfl
  have hheld : ∀ w token day, s.heldOn w token day = 0 := by
    intro w token day
    rw [heldOn, hc]
    rfl
  constructor
  · rw [hr]
    exact List.nodup_nil
  · intro r hmem
    rw [hr] at hmem
    cases hmem
  · exact fun c hmem => absurd hmem (hnone c)
  · exact fun c hmem => absurd hmem (hnone c)
  · exact fun c hmem => absurd hmem (hnone c)
  · exact fun i j c d hi => absurd (List.mem_of_getElem? hi) (hnone c)
  · exact fun c hmem => absurd hmem (hnone c)
  · exact fun c hmem => absurd hmem (hnone c)
  · intro o hmem
    rw [ho] at hmem
    cases hmem
  · intro token day
    rw [hplaced, hheld, used, hr]
    exact le_of_eq (add_zero 0)
  · intro token day t ht
    rw [hplaced, hheld, add_zero]
    exact t.order_pos.le.trans t.order_le_daily

theorem Covered.withinLimits (hs : s.Covered) : s.WithinLimits := by
  intro token t ht
  constructor
  · rintro o ho rfl
    exact hs.small o ho t ht
  · intro day
    have hcapped := hs.capped token day t ht
    have hheld : 0 ≤ s.heldOn id token day :=
      List.sum_nonneg fun x hx => by
        obtain ⟨c, hc, rfl⟩ := List.mem_map.mp hx
        exact (hs.held_nonneg hc token day).1
    linarith

end

/-! ## Two calls of one token -/

/-- One token with scope T, 800 an order and 1000 a day. -/
def oneToken : AgentState where
  tokens := [.upTo800]

theorem unused_oneToken : oneToken.Unused := ⟨rfl, rfl, rfl⟩

/-- A call for 6 at a price of 100, up to its order. -/
def orders600 (i : ℕ) (key : String) : List PlaceLabel :=
  [.request 0 key key 6, .claimKey i, .lookupJob i, .reserve i 100, .insert i]

end AgentState

end AlgoTrade.Agent
