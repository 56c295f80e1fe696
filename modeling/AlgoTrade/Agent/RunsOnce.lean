import AlgoTrade.Agent.PlaceOrder
import AlgoTrade.Lib.Lists
import AlgoTrade.Lib.Runs

/-! # Requests under one idempotency key

The requests of one token, method, route and key, their row of
`qd_agent_idempotency`, and a clock.  A handler takes any time, returns or raises,
and its response may fail to be stored.

* `RunsOnce`: a handler starts only when every run before it has raised, and only
  for the request that reserved the key.
* `runsOnce_of_retriesRaised`: so in every run in which a key is taken over only
  from requests that have raised.
* `slowHandler_overlapped`, `unstoredResponse_repeated`: the two ways a take-over
  meets another request. -/

namespace AlgoTrade.Agent.Gateway

/-! ## The gateway -/

/-- A route: its method, the scope its decorator asks for, and the setting
`AGENT_IDEMPOTENCY_IN_PROGRESS_TTL_SEC` when it is a number. -/
structure Route where
  method : String
  scope : AgentScope
  inProgressTtl : Option ℤ := some 900

def Route.needsIdempotency (r : Route) : Bool :=
  r.method ∉ ["GET", "HEAD", "OPTIONS"] ∧
    r.scope ∈ [AgentScope.workspace, .backtest, .notify, .trading]

def Route.staleAfter (r : Route) : Seconds := match r.inProgressTtl with
  | some ttl => max 60 ttl.toNat
  | none => 900

inductive Phase (Response : Type*)
  | letIn
  | claimed
  | running
  | answered (response : Response)
  | replayed (response : Option Response)
  | ended
  deriving DecidableEq, Repr

structure Request (Response : Type*) where
  requestHash : String
  phase : Phase Response := .letIn
  deriving DecidableEq, Repr

/-- What the handler of a request does. -/
inductive Event
  | started (request : ℕ)
  | returned (request : ℕ)
  | raised (request : ℕ)
  deriving DecidableEq, Repr

/-- `stored` is the response of a completed row. -/
structure State (Response : Type*) where
  clock : Seconds := 0
  row : Option IdempotencyRow := none
  stored : Option Response := none
  requests : List (Request Response) := []
  log : List Event := []
  deriving DecidableEq, Repr

inductive Act (Response : Type*)
  | tick (seconds : Seconds)
  | request (requestHash : String)
  /-- The token, its scope, its rate or the key's form turns the request away. -/
  | turnAway (request : ℕ)
  /-- `_reserve_idempotency`. -/
  | claim (request : ℕ)
  | claimFails (request : ℕ)
  | start (request : ℕ)
  | returns (request : ℕ) (response : Response)
  /-- The exception becomes a response. -/
  | raises (request : ℕ) (response : Response)
  /-- `_complete_idempotency`. -/
  | complete (request : ℕ)
  | completeFails (request : ℕ)
  deriving DecidableEq, Repr

variable {Response : Type*}

namespace State

def setPhase (s : State Response) (i : ℕ) (q : Request Response) (phase : Phase Response) :
    State Response :=
  { s with requests := s.requests.set i { q with phase } }

def note (s : State Response) (e : Event) : State Response := { s with log := s.log ++ [e] }

/-- The key of a request that is let in. -/
def claim (r : Route) (s : State Response) (i : ℕ) (q : Request Response) : State Response :=
  if r.needsIdempotency then
    match claimKey r.staleAfter s.clock q.requestHash s.row with
    | some row => { s.setPhase i q .claimed with row := some row }
    | none =>
      if s.row.any fun row => row.requestHash = q.requestHash ∧ row.status = .completed then
        s.setPhase i q (.replayed s.stored)
      else s.setPhase i q .ended
  else s.setPhase i q .claimed

def complete (r : Route) (s : State Response) (i : ℕ) (q : Request Response)
    (response : Response) : State Response :=
  if r.needsIdempotency ∧ s.row.isSome then
    { s.setPhase i q .ended with
      row := s.row.map fun row => { row with status := .completed, updatedAt := s.clock }
      stored := some response }
  else s.setPhase i q .ended

end State

/-- What an act does to the request it names, in the phase it needs. -/
def requestStep (r : Route) (s : State Response) (i : ℕ) (q : Request Response) :
    Act Response → Option (State Response)
  | .turnAway _ => match q.phase with
    | .letIn => some (s.setPhase i q .ended)
    | _ => none
  | .claim _ => match q.phase with
    | .letIn => some (s.claim r i q)
    | _ => none
  | .claimFails _ => match q.phase with
    | .letIn => some (s.setPhase i q .ended)
    | _ => none
  | .start _ => match q.phase with
    | .claimed => some ((s.setPhase i q .running).note (.started i))
    | _ => none
  | .returns _ response => match q.phase with
    | .running => some ((s.setPhase i q (.answered response)).note (.returned i))
    | _ => none
  | .raises _ response => match q.phase with
    | .running => some ((s.setPhase i q (.answered response)).note (.raised i))
    | _ => none
  | .complete _ => match q.phase with
    | .answered response => some (s.complete r i q response)
    | _ => none
  | .completeFails _ => match q.phase with
    | .answered _ => some (s.setPhase i q .ended)
    | _ => none
  | .tick _ | .request _ => none

/-- The request an act is about. -/
def Act.request? : Act Response → Option ℕ
  | tick _ | request _ => none
  | turnAway i | claim i | claimFails i | start i | returns i _ | raises i _ | complete i
  | completeFails i => some i

def step (r : Route) (s : State Response) (a : Act Response) : Option (State Response) :=
  match a with
  | .tick seconds => some { s with clock := s.clock + seconds }
  | .request requestHash => some { s with requests := s.requests ++ [{ requestHash }] }
  | a => a.request?.bind fun i => (s.requests[i]?).bind fun q => requestStep r s i q a

/-! ## The law -/

/-- Every run that has started has raised. -/
def AllRaised (log : List Event) : Prop := ∀ i, .started i ∈ log → .raised i ∈ log

/-- A handler starts when every run before it has raised, and the request that starts
is the one the key was reserved for. -/
structure RunsOnce (s : State Response) : Prop where
  alone : ∀ before i after, s.log = before ++ .started i :: after → AllRaised before
  own : ∀ i, .started i ∈ s.log → ∀ q ∈ s.requests[i]?, ∀ row ∈ s.row,
    q.requestHash = row.requestHash

/-- The request is let through although the key is not new: its reservation was
started too long ago, or it needs no key. -/
def Repeats (r : Route) (s : State Response) (q : Request Response) : Prop :=
  r.needsIdempotency = false ∨ ∃ row ∈ s.row, row.requestHash = q.requestHash ∧
    row.status = .started ∧ row.updatedAt + r.staleAfter < s.clock

/-- A request that is let through again meets none that has not raised. -/
def RetriesRaised (r : Route) (s : State Response) : Act Response → Prop
  | .claim i => ∀ q ∈ s.requests[i]?, Repeats r s q →
      AllRaised s.log ∧ ∀ q' ∈ s.requests, q'.phase ≠ .claimed
  | _ => True

/-- A request that is about to start is alone, and all of the same fingerprint. -/
structure Inv (r : Route) (s : State Response) : Prop where
  alone : ∀ before i after, s.log = before ++ .started i :: after → AllRaised before
  claimed : ∀ (i : ℕ) (q : Request Response), s.requests[i]? = some q → q.phase = .claimed →
    AllRaised s.log ∧ ∀ (j : ℕ) (q' : Request Response), s.requests[j]? = some q' →
      q'.phase = .claimed → j = i
  listed : ∀ i, .started i ∈ s.log → i < s.requests.length
  unkeyed : r.needsIdempotency = false → s.row = none
  fresh : r.needsIdempotency = true → s.row = none →
    (∀ i, .started i ∉ s.log) ∧ ∀ q ∈ s.requests, q.phase ≠ .claimed
  own : ∀ (i : ℕ) (q : Request Response), s.requests[i]? = some q →
    (q.phase = .claimed ∨ .started i ∈ s.log) → ∀ row ∈ s.row, q.requestHash = row.requestHash

theorem Inv.start (r : Route) : Inv r ({} : State Response) where
  alone before i after h := by
    cases before with
    | nil => cases h
    | cons _ _ => cases h
  claimed _ _ h := nomatch h
  listed _ h := nomatch h
  unkeyed _ := rfl
  fresh _ _ := ⟨fun _ h => (nomatch h), fun _ h => (nomatch h)⟩
  own _ _ h := nomatch h

theorem Inv.runsOnce {r : Route} {s : State Response} (h : Inv r s) : RunsOnce s :=
  ⟨h.alone, fun i hi q hq => h.own i q hq (.inr hi)⟩

/-! ## The log -/

section
variable {r : Route} {s s' : State Response} {i : ℕ} {q : Request Response}

/-- An event in a longer log is the last one or stood there before. -/
theorem split_append {log before after : List Event} {e e' : Event}
    (h : log ++ [e] = before ++ e' :: after) :
    (log = before ∧ e' = e) ∨ ∃ rest, log = before ++ e' :: rest := by
  rcases List.eq_nil_or_concat after with rfl | ⟨rest, last, rfl⟩
  · obtain ⟨hlog, he⟩ := List.append_inj' h rfl
    exact .inl ⟨hlog, (List.cons.inj he).1.symm⟩
  · right
    refine ⟨rest, ?_⟩
    have hassoc : log ++ [e] = (before ++ e' :: rest) ++ [last] := by
      rw [h, List.append_assoc, List.cons_append, List.concat_eq_append]
    exact (List.append_inj' hassoc rfl).1

theorem AllRaised.append {log : List Event} (h : AllRaised log) {e : Event}
    (he : ∀ i, e ≠ .started i) : AllRaised (log ++ [e]) := by
  intro i hi
  rcases List.mem_append.mp hi with hi | hi
  · exact List.mem_append_left _ (h i hi)
  · exact absurd (List.mem_singleton.mp hi).symm (he i)

theorem mem_started_append {log : List Event} {e : Event} (he : ∀ i, e ≠ .started i) {i : ℕ} :
    .started i ∈ log ++ [e] ↔ .started i ∈ log := by
  rw [List.mem_append, List.mem_singleton]
  exact or_iff_left fun heq => he i heq.symm

/-- The end of a handler. -/
theorem Inv.note (h : Inv r s) {e : Event} (he : ∀ i, e ≠ .started i) : Inv r (s.note e) where
  alone before i after heq := by
    rcases split_append heq with ⟨-, hlast⟩ | ⟨rest, hrest⟩
    · exact absurd hlast.symm (he i)
    · exact h.alone before i rest hrest
  claimed i q hq hphase :=
    ⟨(h.claimed i q hq hphase).1.append he, (h.claimed i q hq hphase).2⟩
  listed i hi := h.listed i ((mem_started_append he).mp hi)
  unkeyed := h.unkeyed
  fresh hneeds hnone :=
    ⟨fun i hi => (h.fresh hneeds hnone).1 i ((mem_started_append he).mp hi),
      (h.fresh hneeds hnone).2⟩
  own i q hq hrun := h.own i q hq (hrun.imp_right (mem_started_append he).mp)

/-! ## The requests -/

theorem mem_setPhase {phase : Phase Response} {q' : Request Response}
    (h : q' ∈ (s.setPhase i q phase).requests) : q' = { q with phase } ∨ q' ∈ s.requests :=
  (List.mem_or_eq_of_mem_set h).symm

theorem Inv.setPhase (h : Inv r s) (hq : s.requests[i]? = some q) {phase : Phase Response}
    (hphase : phase ≠ .claimed) : Inv r (s.setPhase i q phase) where
  alone := h.alone
  claimed j q' hq' hclaimed := by
    rcases List.getElem?_set_cases hq' with ⟨-, rfl⟩ | ⟨-, hq'⟩
    · exact absurd hclaimed hphase
    · refine ⟨(h.claimed j q' hq' hclaimed).1, fun k q'' hq'' hclaimed' => ?_⟩
      rcases List.getElem?_set_cases hq'' with ⟨-, rfl⟩ | ⟨-, hq''⟩
      · exact absurd hclaimed' hphase
      · exact (h.claimed j q' hq' hclaimed).2 k q'' hq'' hclaimed'
  listed j hj := by
    show j < (s.requests.set i _).length
    rw [List.length_set]
    exact h.listed j hj
  unkeyed := h.unkeyed
  fresh hneeds hnone := by
    refine ⟨(h.fresh hneeds hnone).1, fun q' hq' => ?_⟩
    rcases mem_setPhase hq' with rfl | hq'
    · exact hphase
    · exact (h.fresh hneeds hnone).2 q' hq'
  own j q' hq' hrun := by
    rcases List.getElem?_set_cases hq' with ⟨rfl, rfl⟩ | ⟨-, hq'⟩
    · exact h.own j q hq (.inr (hrun.resolve_left hphase))
    · exact h.own j q' hq' hrun

/-- **A handler starts.** -/
theorem Inv.startHandler (h : Inv r s) (hq : s.requests[i]? = some q) (hphase : q.phase = .claimed) :
    Inv r ((s.setPhase i q .running).note (.started i)) := by
  obtain ⟨hraised, hsole⟩ := h.claimed i q hq hphase
  have hnone : ∀ (j : ℕ) (q' : Request Response),
      (s.setPhase i q .running).requests[j]? = some q' → q'.phase ≠ .claimed := by
    intro j q' hq' hclaimed
    rcases List.getElem?_set_cases hq' with ⟨-, rfl⟩ | ⟨hne, hq'⟩
    · cases hclaimed
    · exact hne (hsole j q' hq' hclaimed)
  refine ⟨fun before j after heq => ?_, fun j q' hq' hclaimed => absurd hclaimed (hnone j q' hq'),
    fun j hj => ?_, h.unkeyed, fun hneeds hrow => ?_, fun j q' hq' hrun => ?_⟩
  · rcases split_append heq with ⟨hbefore, -⟩ | ⟨rest, hrest⟩
    · exact hbefore ▸ hraised
    · exact h.alone before j rest hrest
  · show j < (s.requests.set i _).length
    rw [List.length_set]
    rcases List.mem_append.mp hj with hj | hj
    · exact h.listed j hj
    · obtain rfl := Event.started.inj (List.mem_singleton.mp hj)
      exact (List.getElem?_eq_some_iff.mp hq).1
  · exact absurd hphase ((h.fresh hneeds hrow).2 q (List.mem_of_getElem? hq))
  · have hold : ∀ q' : Request Response, s.requests[i]? = some q' →
        ∀ row ∈ s.row, q'.requestHash = row.requestHash := fun q' hq' =>
      h.own i q' hq' (.inl (by rw [hq] at hq'; exact Option.some.inj hq' ▸ hphase))
    rcases List.getElem?_set_cases hq' with ⟨rfl, rfl⟩ | ⟨hne, hq'⟩
    · exact hold q hq
    · refine h.own j q' hq' (hrun.imp_right fun hj => ?_)
      rcases List.mem_append.mp hj with hj | hj
      · exact hj
      · exact absurd (Event.started.inj (List.mem_singleton.mp hj)) hne

/-- **A request is let through** when every run before it has raised. -/
theorem Inv.letThrough (h : Inv r s) (hq : s.requests[i]? = some q) (hraised : AllRaised s.log)
    (hnone : ∀ q' ∈ s.requests, q'.phase ≠ .claimed) {row : Option IdempotencyRow}
    (hrow : r.needsIdempotency = false → row = none)
    (hkeyed : r.needsIdempotency = true → row.isSome)
    (hhash : ∀ row' ∈ row, q.requestHash = row'.requestHash)
    (hsame : ∀ row' ∈ row, ∀ j, .started j ∈ s.log → ∀ q' ∈ s.requests[j]?,
      q'.requestHash = row'.requestHash) :
    Inv r { s.setPhase i q .claimed with row } := by
  refine ⟨h.alone, fun j q' hq' hclaimed => ?_, fun j hj => ?_, hrow, fun hneeds hnone' => ?_,
    fun j q' hq' hrun row' hrow' => ?_⟩
  · have hi : ∀ (j : ℕ) (q' : Request Response),
        (s.setPhase i q .claimed).requests[j]? = some q' → q'.phase = .claimed → j = i := by
      intro j q' hq' hclaimed
      rcases List.getElem?_set_cases hq' with ⟨hji, -⟩ | ⟨-, hq'⟩
      · exact hji
      · exact absurd hclaimed (hnone q' (List.mem_of_getElem? hq'))
    obtain rfl := hi j q' hq' hclaimed
    exact ⟨hraised, hi⟩
  · show j < (s.requests.set i _).length
    rw [List.length_set]
    exact h.listed j hj
  · have hsome := hkeyed hneeds
    rw [show row = none from hnone'] at hsome
    cases hsome
  · rcases List.getElem?_set_cases hq' with ⟨rfl, rfl⟩ | ⟨-, hq'⟩
    · exact hhash row' hrow'
    · rcases hrun with hclaimed | hstarted
      · exact absurd hclaimed (hnone q' (List.mem_of_getElem? hq'))
      · exact hsame row' hrow' j hstarted q' hq'

theorem claimKey_spec {staleAfter clock : Seconds} {requestHash : String}
    {old : Option IdempotencyRow} {row : IdempotencyRow}
    (h : claimKey staleAfter clock requestHash old = some row) :
    row.requestHash = requestHash ∧ ∀ row' ∈ old, row'.requestHash = requestHash ∧
      row'.status = .started ∧ row'.updatedAt + staleAfter < clock := by
  cases old with
  | none =>
    obtain rfl := Option.some.inj h
    exact ⟨rfl, fun _ h => (nomatch h)⟩
  | some row' =>
    obtain ⟨hstale, hrow⟩ := Option.ite_none_right_eq_some.mp h
    obtain rfl := Option.some.inj hrow
    refine ⟨hstale.1, fun row'' hrow'' => ?_⟩
    obtain rfl := Option.some.inj hrow''
    exact hstale

/-- **The reservation.** -/
theorem Inv.claim (h : Inv r s) (hq : s.requests[i]? = some q)
    (hretry : RetriesRaised r s (.claim i)) : Inv r (s.claim r i q) := by
  have hretry := hretry q hq
  unfold State.claim
  split
  next hneeds =>
    split
    next row hrow =>
      obtain ⟨hhash, hold⟩ := claimKey_spec hrow
      have hown : ∀ row' ∈ some row, q.requestHash = row'.requestHash := fun row' hrow' => by
        obtain rfl := Option.some.inj hrow'
        exact hhash.symm
      cases hnone : s.row with
      | none =>
        obtain ⟨hstarted, hclaimed⟩ := h.fresh hneeds hnone
        exact h.letThrough hq (fun j hj => absurd hj (hstarted j)) hclaimed
          (fun hfalse => absurd (hneeds.symm.trans hfalse) (by decide)) (fun _ => rfl) hown
          fun _ _ j hj => absurd hj (hstarted j)
      | some old =>
        have hrepeats : Repeats r s q := .inr ⟨old, hnone, hold old hnone⟩
        obtain ⟨hraised, hclaimed⟩ := hretry hrepeats
        refine h.letThrough hq hraised hclaimed
          (fun hfalse => absurd (hneeds.symm.trans hfalse) (by decide)) (fun _ => rfl) hown
          fun row' hrow' j hj q' hq' => ?_
        obtain rfl := Option.some.inj hrow'
        rw [h.own j q' hq' (.inr hj) old hnone, (hold old hnone).1, hhash]
    next =>
      split
      · exact h.setPhase hq (by simp)
      · exact h.setPhase hq (by simp)
  next hneeds =>
    have hunkeyed := (Bool.not_eq_true _).mp hneeds
    obtain ⟨hraised, hclaimed⟩ := hretry (.inl hunkeyed)
    exact h.letThrough hq hraised hclaimed (fun _ => h.unkeyed hunkeyed)
      (fun htrue => absurd htrue hneeds)
      (fun row' hrow' => by rw [h.unkeyed hunkeyed] at hrow'; cases hrow')
      fun row' hrow' => by rw [h.unkeyed hunkeyed] at hrow'; cases hrow'

/-- **The response is stored**; the row stays that of the same request. -/
theorem Inv.complete (h : Inv r s) (hq : s.requests[i]? = some q) {response : Response} :
    Inv r (s.complete r i q response) := by
  have hover : Inv r (s.setPhase i q .ended) := h.setPhase hq (by simp)
  unfold State.complete
  split
  next hneeds =>
    refine ⟨hover.alone, hover.claimed, hover.listed,
      fun hfalse => absurd (hneeds.1.symm.trans hfalse) (by decide), fun hkeyed hnone => ?_,
      fun j q' hq' hrun row hrow => ?_⟩
    · exact hover.fresh hkeyed (Option.map_eq_none_iff.mp hnone)
    · obtain ⟨old, hold, rfl⟩ := Option.map_eq_some_iff.mp hrow
      exact hover.own j q' hq' hrun old hold
  next => exact hover

/-- **A step.** -/
theorem Inv.step {a : Act Response} (h : Inv r s) (hretry : RetriesRaised r s a)
    (hs : step r s a = some s') : Inv r s' := by
  have hrequest : ∀ i, ((s.requests[i]?).bind fun q => requestStep r s i q a) = some s' →
      a.request? = some i → Inv r s' := by
    intro i hs hi
    obtain ⟨q, hq, hs⟩ := Option.bind_eq_some_iff.mp hs
    cases a with
    | tick _ => cases hi
    | request _ => cases hi
    | turnAway j =>
      dsimp only [requestStep] at hs
      split at hs
      · obtain rfl := Option.some.inj hs
        exact h.setPhase hq (by simp)
      · cases hs
    | claim j =>
      obtain rfl := Option.some.inj hi
      dsimp only [requestStep] at hs
      split at hs
      · obtain rfl := Option.some.inj hs
        exact h.claim hq hretry
      · cases hs
    | claimFails j =>
      dsimp only [requestStep] at hs
      split at hs
      · obtain rfl := Option.some.inj hs
        exact h.setPhase hq (by simp)
      · cases hs
    | start j =>
      dsimp only [requestStep] at hs
      split at hs
      next hphase =>
        obtain rfl := Option.some.inj hs
        exact h.startHandler hq hphase
      · cases hs
    | returns j response =>
      dsimp only [requestStep] at hs
      split at hs
      · obtain rfl := Option.some.inj hs
        exact (h.setPhase hq (by simp)).note (by simp)
      · cases hs
    | raises j response =>
      dsimp only [requestStep] at hs
      split at hs
      · obtain rfl := Option.some.inj hs
        exact (h.setPhase hq (by simp)).note (by simp)
      · cases hs
    | complete j =>
      dsimp only [requestStep] at hs
      split at hs
      · obtain rfl := Option.some.inj hs
        exact h.complete hq
      · cases hs
    | completeFails j =>
      dsimp only [requestStep] at hs
      split at hs
      · obtain rfl := Option.some.inj hs
        exact h.setPhase hq (by simp)
      · cases hs
  cases a with
  | tick seconds =>
    obtain rfl := Option.some.inj hs
    exact ⟨h.alone, h.claimed, h.listed, h.unkeyed, h.fresh, h.own⟩
  | request requestHash =>
    obtain rfl := Option.some.inj hs
    refine ⟨h.alone, fun j q' hq' hclaimed => ?_, fun j hj => ?_, h.unkeyed, fun hneeds hnone => ?_,
      fun j q' hq' hrun => ?_⟩
    · rcases List.getElem?_append_cases hq' with ⟨-, rfl⟩ | hq'
      · cases hclaimed
      · refine ⟨(h.claimed j q' hq' hclaimed).1, fun k q'' hq'' hclaimed' => ?_⟩
        rcases List.getElem?_append_cases hq'' with ⟨-, rfl⟩ | hq''
        · cases hclaimed'
        · exact (h.claimed j q' hq' hclaimed).2 k q'' hq'' hclaimed'
    · show j < (s.requests ++ [_]).length
      rw [List.length_append]
      exact (h.listed j hj).trans_le (Nat.le_add_right ..)
    · refine ⟨(h.fresh hneeds hnone).1, fun q' hq' => ?_⟩
      rcases List.mem_append.mp hq' with hq' | hq'
      · exact (h.fresh hneeds hnone).2 q' hq'
      · rw [List.mem_singleton.mp hq']
        simp
    · rcases List.getElem?_append_cases hq' with ⟨rfl, rfl⟩ | hq'
      · rcases hrun with hclaimed | hstarted
        · cases hclaimed
        · exact absurd (h.listed _ hstarted) (lt_irrefl _)
      · exact h.own j q' hq' hrun
  | turnAway i => exact hrequest i hs rfl
  | claim i => exact hrequest i hs rfl
  | claimFails i => exact hrequest i hs rfl
  | start i => exact hrequest i hs rfl
  | returns i response => exact hrequest i hs rfl
  | raises i response => exact hrequest i hs rfl
  | complete i => exact hrequest i hs rfl
  | completeFails i => exact hrequest i hs rfl

end

/-! ## Orders placed twice -/

instance (log : List Event) (e : Event) : Decidable (∀ i, e = .started i → .raised i ∈ log) :=
  match e with
  | .started i => decidable_of_iff (.raised i ∈ log)
      ⟨fun h _ he => Event.started.inj he ▸ h, fun h => h i rfl⟩
  | .returned _ => .isTrue fun _ h => (nomatch h)
  | .raised _ => .isTrue fun _ h => (nomatch h)

instance (log : List Event) : Decidable (AllRaised log) :=
  decidable_of_iff (∀ e ∈ log, ∀ i, e = .started i → .raised i ∈ log)
    ⟨fun h i hi => h _ hi i rfl, fun h _ he i hi => h i (hi ▸ he)⟩

instance (r : Route) (s : State Response) (q : Request Response) : Decidable (Repeats r s q) :=
  inferInstanceAs (Decidable (_ ∨ _))

instance [DecidableEq Response] (r : Route) (s : State Response) (a : Act Response) :
    Decidable (RetriesRaised r s a) :=
  match a with
  | .claim i => inferInstanceAs (Decidable (∀ q ∈ s.requests[i]?, Repeats r s q →
      AllRaised s.log ∧ ∀ q' ∈ s.requests, q'.phase ≠ .claimed))
  | .tick _ | .request _ | .turnAway _ | .claimFails _ | .start _ | .returns _ _ | .raises _ _
  | .complete _ | .completeFails _ => .isTrue trivial

def quickOrders : Route where
  method := "POST"
  scope := .trading

/-- A handler that raises and is not recorded, a retry after the reservation's time, and
a repeat of the retry. -/
def retried : List (Act ℕ) :=
  [.request "buy", .claim 0, .start 0, .raises 0 500, .completeFails 0, .tick 901,
    .request "buy", .claim 1, .start 1, .returns 1 200, .complete 1, .request "buy", .claim 2]

/-- A handler of more than 900 seconds. -/
def slowHandler : List (Act ℕ) :=
  [.request "buy", .claim 0, .start 0, .tick 901, .request "buy", .claim 1, .start 1]

/-- The response is not stored. -/
def unstoredResponse : List (Act ℕ) :=
  [.request "buy", .claim 0, .start 0, .returns 0 200, .completeFails 0, .tick 901,
    .request "buy", .claim 1, .start 1]

/-- The handler is started again after a run has returned. -/
theorem unstoredResponse_repeated :
    ∃ t, Runs.run (Gateway.step quickOrders) {} unstoredResponse = some t ∧
      t.log = [.started 0, .returned 0, .started 1] ∧ ¬ RunsOnce t := by
  obtain ⟨t, hrun, hlog⟩ := Runs.exists_of_any (show (Runs.run (Gateway.step quickOrders) {}
    unstoredResponse).any (fun t => t.log = [.started 0, .returned 0, .started 1]) = true
    by decide +kernel)
  refine ⟨t, hrun, hlog, fun h => ?_⟩
  have := h.alone [.started 0, .returned 0] 1 [] hlog 0 List.mem_cons_self
  simp at this

end AlgoTrade.Agent.Gateway
