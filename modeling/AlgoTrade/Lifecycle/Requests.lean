import AlgoTrade.Lifecycle.Workers
import AlgoTrade.Lib.Lists

/-! # Start and stop requests

Requests for one strategy, each of which sets the desired status and then enqueues
its command, while any number of workers claim, execute, retry and complete.

* `controlStep`: a request, its command, or one label of the fleet.
* `Settled`: no request overtakes an open command of the other kind.
* `Inv`: what holds then between any two labels.
* `Inv.acts`: a step of one worker preserves it if it does so for that worker. -/

namespace AlgoTrade.Lifecycle

/-! ## Requests -/

inductive Request
  | start
  | stop (closePositions : Bool)
  deriving DecidableEq, Repr

namespace Request

def status : Request → DesiredStatus
  | start => .running
  | stop _ => .stopped

def commandType : Request → CommandType
  | start => .start
  | stop _ => .stop

def closePositions : Request → Bool
  | start => false
  | stop close => close

end Request

/-- The fleet; the request whose command is not enqueued yet; whether the last
request was a start; and, since then, whether a stop request asked to close the
positions and whether a stop has closed them. -/
structure Control where
  fleet : Fleet
  posting : Option Request := none
  lastStart : Bool := false
  closeAsked : Bool := false
  closed : Bool := false

inductive ControlLabel
  /-- A request sets the desired status. -/
  | request (r : Request)
  /-- Its command is enqueued. -/
  | posts
  | fleet (l : FleetLabel)
  deriving DecidableEq, Repr

/-- The label is a stop command that closes the positions. -/
def Fleet.closes (s : Fleet) : FleetLabel → Bool
  | .worker w (.executorStops (.stopped true)) => (s.workers[w]?).any fun wk =>
      match wk.phase with
      | .executing j .stops => j.closes
      | _ => false
  | _ => false

def controlStep (cfg : LifecycleConfig) (strategyId : ℕ) (d : Control) : ControlLabel → Option Control
  | .request r =>
    if d.posting = none then
      some { fleet := d.fleet.setDesired strategyId r.status
             posting := some r
             lastStart := r = .start
             closeAsked := r ≠ .start ∧ (d.closeAsked ∨ r.closePositions)
             closed := r ≠ .start ∧ d.closed }
    else none
  | .posts => d.posting.map fun r =>
      { d with
        posting := none
        fleet := { d.fleet with
          commands := enqueue d.fleet.commands d.fleet.clock strategyId r.commandType r.closePositions } }
  | .fleet l => (fleetStep cfg d.fleet l).map fun fleet =>
      { d with fleet, closed := d.closed || d.fleet.closes l }

/-! ## The property -/

namespace Control

variable (strategyId : ℕ) (d : Control)

def Runs : Prop := ∃ wk ∈ d.fleet.workers, strategyId ∈ wk.running

def LastRequestWins : Prop :=
  d.posting = none → (∀ c ∈ d.fleet.commands, c.strategyId = strategyId → c.isOpen = false) →
    (d.Runs strategyId ↔ d.lastStart = true) ∧ (d.closeAsked = true → d.closed = true)

/-- What the requests and interleavings are: no lease runs out, no command runs out
of attempts, and no worker starts, stops or dies meanwhile. -/
def InScope (cfg : LifecycleConfig) : ControlLabel → Bool
  | .request _ | .posts => true
  | .fleet (.tick seconds) =>
    ((d.fleet.leases strategyId).all fun l => d.fleet.clock + seconds ≤ l.leaseExpiresAt) ∧
      ∀ c ∈ d.fleet.commands, c.leaseExpiresAt.all fun t => d.fleet.clock + seconds ≤ t
  | .fleet .failExhausted | .fleet .cleanupLeases => true
  | .fleet (.setDesired ..) | .fleet (.enqueue ..) => false
  | .fleet (.worker w l) =>
    match l with
    | .renewBegins | .renews _ | .stopsLost _ | .claims _ | .checksStatus | .acquires
    | .executorStarts _ | .waits .. | .executorStops _ | .releases | .raises | .completes => true
    | .fails => (d.fleet.workers[w]?).all fun wk =>
        match wk.phase with
        | .executing j _ => j.attempts < cfg.maxAttempts
        | _ => true
    -- the thread of a strategy ends when it reads that it is to stop
    | .runtimeExits i => d.fleet.desired i = .stopped
    | .boots _ | .restores | .restoreStarts _ | .restoreReleases | .shutsDown | .shutdownStops _
    | .shutdownReleases | .crashes => false

/-- A request comes when no command of the other kind is open, and a stop that is to
close the positions does not meet an open one that is not; the executor does not
fail to stop a strategy that did not come up, nor to stop and close. -/
def Settled : ControlLabel → Bool
  | .request .start =>
    ∀ c ∈ d.fleet.commands, c.mergesWith strategyId .stop = false
  | .request (.stop close) =>
    (∀ c ∈ d.fleet.commands, c.mergesWith strategyId .start = false) ∧
      (close = true → ∀ c ∈ d.fleet.commands, c.mergesWith strategyId .stop = true →
        c.closePositions = true)
  | .fleet (.worker _ (.waits alive stopped)) => alive || stopped
  | .fleet (.worker w (.executorStops outcome)) => (d.fleet.workers[w]?).all fun wk =>
      match wk.phase with
      | .executing j _ => j.closes → outcome ≠ .stopFailed ∧ outcome ≠ .stopped false
      | _ => true
  | _ => true

/-- Workers at the top of their loop, and no command and no request yet. -/
structure Fresh : Prop where
  workers : ∀ wk ∈ d.fleet.workers, wk.running = [] ∧ wk.phase = .idle
  commands : d.fleet.commands = []
  lease : d.fleet.leases strategyId = none
  desired : d.fleet.desired strategyId = .stopped
  posting : d.posting = none
  lastStart : d.lastStart = false
  closeAsked : d.closeAsked = false

end Control

/-! ## The invariant -/

/-- What the outcome depends on of a row. -/
structure CommandView where
  strategyId : ℕ
  commandType : CommandType
  closePositions : Bool
  isOpen : Bool
  deriving DecidableEq

def Command.view (c : Command) : CommandView where
  strategyId := c.strategyId
  commandType := c.commandType
  closePositions := c.closePositions
  isOpen := c.isOpen

def NoOpen (t : CommandType) (vs : List CommandView) : Prop :=
  ∀ v ∈ vs, v.commandType = t → v.isOpen = false

def HasOpen (t : CommandType) (vs : List CommandView) : Prop :=
  ∃ v ∈ vs, v.commandType = t ∧ v.isOpen = true

def HasOpenClosing (vs : List CommandView) : Prop :=
  ∃ v ∈ vs, v.commandType = .stop ∧ v.isOpen = true ∧ v.closePositions = true

def OneOpen (vs : List CommandView) : Prop :=
  ∀ (i k : ℕ) (u v : CommandView), vs[i]? = some u → vs[k]? = some v →
    u.commandType = v.commandType → u.isOpen = true → v.isOpen = true → i = k

/-- The stages a command of each type goes through. -/
def CommandType.stages : CommandType → List Stage
  | start => [.startChecks, .acquires, .acquired, .started, .releases .fails, .completes, .fails]
  | stop => [.stops, .releases .completes, .completes, .fails]
  | restart | reconcile => []

def Fleet.LeasedBy (s : Fleet) (strategyId w : ℕ) : Prop :=
  ∃ l, s.leases strategyId = some l ∧ l.ownerId = w ∧ s.clock ≤ l.leaseExpiresAt

/-- The worker is at the top of its loop, renews its leases or executes a command. -/
def WorkerPhase.inLoop : WorkerPhase → Bool
  | .idle | .renewing _ | .executing .. => true
  | _ => false

/-- The strategies, besides the running ones, whose lease the worker counts on. -/
def WorkerPhase.needs : WorkerPhase → List ℕ
  | .renewing todo => todo
  | .executing j .acquired => [j.strategyId]
  | _ => []

def Worker.executesStart (wk : Worker) : Prop :=
  ∃ j stage, wk.phase = .executing j stage ∧ j.commandType = .start

namespace Control

variable (strategyId : ℕ) (d : Control)

def views : List CommandView := d.fleet.commands.map Command.view

/-- Worker `w` executes `j` and is at `stage`. -/
structure JobOk (w : ℕ) (wk : Worker) (j : Job) (stage : Stage) : Prop where
  strategy : j.strategyId = strategyId
  row : ∃ c, d.fleet.commands[j.id]? = some c ∧ c.status = .processing ∧
    c.commandType = j.commandType ∧ c.closePositions = j.closePositions
  stages : stage ∈ j.commandType.stages
  absent : stage ∈ [.acquires, .acquired, .releases .fails, .releases .completes] →
    strategyId ∉ wk.running
  up : j.commandType = .start → stage = .completes → strategyId ∈ wk.running
  owns : stage = .stops → ∀ l, d.fleet.leases strategyId = some l → l.ownerId = w
  down : j.commandType = .stop → stage ∈ [.releases .completes, .completes] →
    ¬ d.Runs strategyId ∧ (j.closes = true → d.closed = true)

structure WorkerOk (w : ℕ) (wk : Worker) : Prop where
  phase : wk.phase.inLoop = true
  needs : ∀ i ∈ wk.running ++ wk.phase.needs, i = strategyId ∧ d.fleet.LeasedBy strategyId w
  job : ∀ j stage, wk.phase = .executing j stage → d.JobOk strategyId w wk j stage

/-- Where the last request stands. -/
structure Mode : Prop where
  started : d.lastStart = true → d.fleet.desired strategyId = .running ∧ NoOpen .stop d.views ∧
    d.closeAsked = false ∧ (d.posting = some .start ∨ HasOpen .start d.views ∨ d.Runs strategyId)
  stopped : d.lastStart = false → d.fleet.desired strategyId = .stopped ∧
    NoOpen .start d.views ∧ (d.posting ≠ none ∨ HasOpen .stop d.views ∨ ¬ d.Runs strategyId) ∧
      (d.closeAsked = true →
        d.closed = true ∨ d.posting = some (.stop true) ∨ HasOpenClosing d.views)
  posted : ∀ r, d.posting = some r → (r = .start ↔ d.lastStart = true) ∧
    (r = .stop true → ∀ v ∈ d.views, v.commandType = .stop → v.isOpen = true →
      v.closePositions = true)

structure Inv : Prop where
  workers : ∀ (w : ℕ) (wk : Worker), d.fleet.workers[w]? = some wk → d.WorkerOk strategyId w wk
  alone : ∀ (w v : ℕ) (a b : Worker) (j k : Job) (st st' : Stage),
    d.fleet.workers[w]? = some a → d.fleet.workers[v]? = some b → a.phase = .executing j st →
      b.phase = .executing k st' → j.id = k.id → w = v
  ours : ∀ v ∈ d.views, v.strategyId = strategyId ∧
    (v.commandType = .start ∨ v.commandType = .stop)
  unexpired : ∀ c ∈ d.fleet.commands, c.status = .processing →
    ∃ t, c.leaseExpiresAt = some t ∧ d.fleet.clock ≤ t
  lease : ∀ l, d.fleet.leases strategyId = some l → d.fleet.clock ≤ l.leaseExpiresAt
  oneOpen : OneOpen d.views
  mode : d.Mode strategyId

/-- What a step of worker `w` may do to what the other workers rely on. -/
structure Acts (d' : Control) (w : ℕ) (wk u : Worker) : Prop where
  workers : d'.fleet.workers = d.fleet.workers.set w u
  leased : ∀ v, v ≠ w → d.fleet.LeasedBy strategyId v → d'.fleet.LeasedBy strategyId v
  owners : ∀ l', d'.fleet.leases strategyId = some l' →
    (∃ l, d.fleet.leases strategyId = some l ∧ l.ownerId = l'.ownerId) ∨ wk.executesStart
  runs : d'.Runs strategyId → d.Runs strategyId ∨ wk.executesStart
  closed : d.closed = true → d'.closed = true
  rows : ∀ (i : ℕ) (c : Command), d.fleet.commands[i]? = some c → c.status = .processing →
    (∀ j st, wk.phase = .executing j st → j.id ≠ i) → d'.fleet.commands[i]? = some c
  jobs : ∀ j st, u.phase = .executing j st → (∃ st', wk.phase = .executing j st') ∨
    ∀ c, d.fleet.commands[j.id]? = some c → c.status ≠ .processing

section
variable {strategyId} {d} {d' : Control} {w v : ℕ} {wk u a b : Worker} {j k : Job} {st st' : Stage}

theorem open_of_processing {c : Command} (h : c.status = .processing) : c.isOpen = true := by
  unfold Command.isOpen
  rw [h]
  rfl

/-- The command a worker executes is open. -/
theorem JobOk.hasOpen (h : d.JobOk strategyId w wk j st) : HasOpen j.commandType d.views := by
  obtain ⟨c, hc, hstatus, htype, -⟩ := h.row
  exact ⟨c.view, List.mem_map_of_mem (List.mem_of_getElem? hc), htype, open_of_processing hstatus⟩

theorem not_noOpen {t : CommandType} {vs : List CommandView} (h : HasOpen t vs) :
    ¬ NoOpen t vs := by
  obtain ⟨v, hv, ht, hopen⟩ := h
  intro hno
  rw [hno v hv ht] at hopen
  cases hopen

theorem Mode.lastStart_of_open (h : d.Mode strategyId) (hopen : HasOpen .start d.views) :
    d.lastStart = true := by
  by_contra hnot
  exact not_noOpen hopen (h.stopped (Bool.eq_false_iff.mpr hnot)).2.1

theorem Mode.lastStop_of_open (h : d.Mode strategyId) (hopen : HasOpen .stop d.views) :
    d.lastStart = false := by
  rw [Bool.eq_false_iff]
  intro hlast
  exact not_noOpen hopen (h.started hlast).2.1

/-- A start and a stop are never open together. -/
theorem Inv.not_both (h : d.Inv strategyId) (hwk : d.fleet.workers[w]? = some wk)
    (hstart : wk.executesStart) (hv : d.fleet.workers[v]? = some b)
    (hb : b.phase = .executing k st) : k.commandType ≠ .stop := by
  obtain ⟨j, st', hphase, htype⟩ := hstart
  have hstarts := ((h.workers w wk hwk).job j st' hphase).hasOpen
  have hopen := ((h.workers v b hv).job k st hb).hasOpen
  rw [htype] at hstarts
  intro hstop
  rw [hstop] at hopen
  have := h.mode.lastStart_of_open hstarts
  rw [h.mode.lastStop_of_open hopen] at this
  cases this

/-- The other workers after a step of worker `w`. -/
theorem Acts.other (ha : d.Acts strategyId d' w wk u) (h : d.Inv strategyId)
    (hwk : d.fleet.workers[w]? = some wk) (hv : d.fleet.workers[v]? = some b) (hne : v ≠ w) :
    d'.WorkerOk strategyId v b := by
  have hb := h.workers v b hv
  refine ⟨hb.phase, fun i hi => ⟨(hb.needs i hi).1, ha.leased v hne (hb.needs i hi).2⟩, ?_⟩
  intro k st hphase
  have hjob := hb.job k st hphase
  have hother : ∀ j st', wk.phase = .executing j st' → j.id ≠ k.id := fun j st' hj hid =>
    hne (h.alone w v wk b j k st' st hwk hv hj hphase hid).symm
  obtain ⟨c, hc, hstatus, hrest⟩ := hjob.row
  refine ⟨hjob.strategy, ⟨c, ha.rows k.id c hc hstatus hother, hstatus, hrest⟩, hjob.stages,
    hjob.absent, hjob.up, ?_, ?_⟩
  · intro hstops l' hl'
    rcases ha.owners l' hl' with ⟨l, hl, howner⟩ | hstart
    · rw [← howner]
      exact hjob.owns hstops l hl
    · have hstages := hjob.stages
      rw [hstops] at hstages
      have hstop : k.commandType = .stop := by
        cases htype : k.commandType with
        | stop => rfl
        | start => rw [htype] at hstages; simp [CommandType.stages] at hstages
        | restart => rw [htype] at hstages; cases hstages
        | reconcile => rw [htype] at hstages; cases hstages
      exact absurd hstop (h.not_both hwk hstart hv hphase)
  · intro hstop hst
    obtain ⟨hdown, hclosed⟩ := hjob.down hstop hst
    refine ⟨fun hruns => ?_, fun hcloses => ha.closed (hclosed hcloses)⟩
    rcases ha.runs hruns with hruns | hstart
    · exact hdown hruns
    · exact h.not_both hwk hstart hv hphase hstop

/-- **A step of one worker**: it is enough to look at that worker and the tables. -/
theorem Inv.acts (h : d.Inv strategyId) (hwk : d.fleet.workers[w]? = some wk)
    (ha : d.Acts strategyId d' w wk u) (hok : d'.WorkerOk strategyId w u)
    (hours : ∀ v ∈ d'.views, v.strategyId = strategyId ∧
      (v.commandType = .start ∨ v.commandType = .stop))
    (hunexpired : ∀ c ∈ d'.fleet.commands, c.status = .processing →
      ∃ t, c.leaseExpiresAt = some t ∧ d'.fleet.clock ≤ t)
    (hlease : ∀ l, d'.fleet.leases strategyId = some l → d'.fleet.clock ≤ l.leaseExpiresAt)
    (hone : OneOpen d'.views) (hmode : d'.Mode strategyId) : d'.Inv strategyId := by
  have hrow : ∀ {p : ℕ} {b : Worker} {k : Job} {st : Stage}, d.fleet.workers[p]? = some b →
      b.phase = .executing k st → ∃ c, d.fleet.commands[k.id]? = some c ∧ c.status = .processing := by
    intro p b k st hb hphase
    obtain ⟨c, hc, hstatus, -⟩ := ((h.workers p b hb).job k st hphase).row
    exact ⟨c, hc, hstatus⟩
  -- two workers, one of them the one that acts
  have hpair : ∀ {v : ℕ} {b : Worker} {j k : Job} {st st' : Stage}, d.fleet.workers[v]? = some b →
      u.phase = .executing j st → b.phase = .executing k st' → j.id = k.id → w = v := by
    intro v b j k st st' hb hj hk hid
    rcases ha.jobs j st hj with ⟨st₀, hst₀⟩ | hnot
    · exact h.alone w v wk b j k st₀ st' hwk hb hst₀ hk hid
    · obtain ⟨c, hc, hstatus⟩ := hrow hb hk
      rw [← hid] at hc
      exact absurd hstatus (hnot c hc)
  refine ⟨?_, ?_, hours, hunexpired, hlease, hone, hmode⟩
  · intro v b hb
    rw [ha.workers] at hb
    rcases List.getElem?_set_cases hb with ⟨rfl, rfl⟩ | ⟨hne, hb⟩
    · exact hok
    · exact ha.other h hwk hb hne
  · intro p q x y j k st st' hx hy hj hk hid
    rw [ha.workers] at hx hy
    rcases List.getElem?_set_cases hx with ⟨rfl, rfl⟩ | ⟨-, hx'⟩
    · rcases List.getElem?_set_cases hy with ⟨rfl, rfl⟩ | ⟨-, hy'⟩
      · rfl
      · exact hpair hy' hj hk hid
    · rcases List.getElem?_set_cases hy with ⟨rfl, rfl⟩ | ⟨-, hy'⟩
      · exact (hpair hx' hk hj hid.symm).symm
      · exact h.alone p q x y j k st st' hx' hy' hj hk hid

end

end Control

end AlgoTrade.Lifecycle
