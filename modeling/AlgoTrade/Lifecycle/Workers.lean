import AlgoTrade.Lifecycle.Commands
import AlgoTrade.Lib.Runs
import Mathlib.Logic.Function.Basic

/-! # Trading workers

Any number of trading workers over one database.  A worker restores, renews its
leases, claims a command and executes it; each statement, each call of its
executor and each exception is a label of its own, and time may pass between any
two.

* `Stage`: where `_execute` is.
* `workerStep`: what one worker does.
* `fleetStep`: one label of the system. -/

namespace AlgoTrade.Lifecycle

/-! ## Workers -/

/-- Where the execution goes on after a lease was released. -/
inductive AfterRelease
  | startChecks | completes | fails
  deriving DecidableEq, Repr

/-- Where `_execute` is. -/
inductive Stage
  /-- `_start` is about to read the desired status. -/
  | startChecks
  /-- It is about to acquire the runtime lease. -/
  | acquires
  /-- It has the lease and is about to call the executor. -/
  | acquired
  /-- The executor has started the strategy, `wait_strategy_running` waits. -/
  | started
  /-- `_stop_strategy` is about to call the executor. -/
  | stops
  | releases (next : AfterRelease)
  | completes
  | fails
  deriving DecidableEq, Repr

def AfterRelease.stage : AfterRelease → Stage
  | startChecks => .startChecks
  | completes => .completes
  | fails => .fails

/-- The command as `claim_next` returned it. -/
structure Job where
  id : ℕ
  strategyId : ℕ
  commandType : CommandType
  closePositions : Bool
  attempts : ℕ
  deriving DecidableEq, Repr

inductive WorkerPhase
  | offline
  | restoring (todo : List ℕ)
  | restoreAcquired (strategyId : ℕ) (todo : List ℕ)
  | restoreReleases (strategyId : ℕ) (todo : List ℕ)
  /-- At the top of the loop. -/
  | idle
  | renewing (todo : List ℕ)
  | leaseLost (strategyId : ℕ) (todo : List ℕ)
  | executing (job : Job) (stage : Stage)
  | shutting (todo : List ℕ)
  | shutdownReleases (strategyId : ℕ) (todo : List ℕ)
  deriving DecidableEq, Repr

/-- `running` are the keys of the executor's `running_strategies`. -/
structure Worker where
  running : List ℕ := []
  lastRenewal : ℕ := 0
  phase : WorkerPhase := .offline
  deriving DecidableEq, Repr

/-- The desired status of a strategy. -/
inductive DesiredStatus
  | running | stopped
  deriving DecidableEq, Repr

/-- The database and the workers. -/
structure Fleet where
  clock : ℕ := 0
  desired : ℕ → DesiredStatus := fun _ => .stopped
  commands : List Command := []
  leases : ℕ → Option Lease := fun _ => none
  workers : List Worker := []

/-- What the executor's stop of a strategy comes to. -/
inductive StopOutcome
  | raises
  | stopFailed
  /-- The strategy is no longer running, and its positions were closed or not. -/
  | stopped (closed : Bool)
  deriving DecidableEq, Repr

inductive WorkerLabel
  | boots (rows : List ℕ)
  | restores
  | restoreStarts (started : Bool)
  | restoreReleases
  | renewBegins
  | renews (raises : Bool)
  | stopsLost (stopped : Bool)
  | claims (locked : List ℕ)
  | checksStatus
  | acquires
  | executorStarts (started : Bool)
  | waits (alive stopped : Bool)
  | executorStops (outcome : StopOutcome)
  | releases
  /-- An exception inside `_execute`. -/
  | raises
  | completes
  | fails
  /-- The strategy's thread ends and takes itself out of `running_strategies`. -/
  | runtimeExits (strategyId : ℕ)
  /-- The loop ends, or an exception leaves it. -/
  | shutsDown
  | shutdownStops (stopped : Bool)
  | shutdownReleases
  /-- The process dies. -/
  | crashes
  deriving DecidableEq, Repr

inductive FleetLabel
  | tick (seconds : ℕ)
  | setDesired (strategyId : ℕ) (status : DesiredStatus)
  | enqueue (strategyId : ℕ) (commandType : CommandType) (closePositions : Bool)
  | failExhausted
  /-- `cleanup_runtime_metadata`, of the runtime leases. -/
  | cleanupLeases
  | worker (w : ℕ) (l : WorkerLabel)
  deriving DecidableEq, Repr

def Job.closes (j : Job) : Bool := j.commandType = .stop ∧ j.closePositions

/-- The first stage of a command. -/
def CommandType.stage : CommandType → Stage
  | start => .startChecks
  | stop | restart => .stops
  | reconcile => .completes

namespace Worker

variable (wk : Worker)

def drops (strategyId : ℕ) : Worker := { wk with running := wk.running.filter (· ≠ strategyId) }

/-- The executor's stop, when it does not fail. -/
def dropsIf (stopped : Bool) (strategyId : ℕ) : Worker := if stopped then wk.drops strategyId else wk

end Worker

theorem mem_of_mem_dropsIf {wk : Worker} {stopped : Bool} {strategyId other : ℕ}
    (h : other ∈ (wk.dropsIf stopped strategyId).running) : other ∈ wk.running := by
  unfold Worker.dropsIf at h
  split at h
  · exact (List.mem_filter.mp h).1
  · exact h

namespace Fleet

variable (s : Fleet)

def setWorker (w : ℕ) (wk : Worker) (phase : WorkerPhase) : Fleet :=
  { s with workers := s.workers.set w { wk with phase } }

def setLease (strategyId : ℕ) (lease : Option Lease) : Fleet :=
  { s with leases := Function.update s.leases strategyId lease }

def setDesired (strategyId : ℕ) (status : DesiredStatus) : Fleet :=
  { s with desired := Function.update s.desired strategyId status }

theorem setDesired_of_eq {s : Fleet} {strategyId : ℕ} {status : DesiredStatus}
    (h : s.desired strategyId = status) : s.setDesired strategyId status = s := by
  unfold setDesired
  rw [← h, Function.update_eq_self]

def releases (w strategyId : ℕ) : Fleet :=
  s.setLease strategyId (releaseStrategyLease w (s.leases strategyId))

def updateCommand (i : ℕ) (f : Command → Command) : Fleet :=
  { s with commands := s.commands.modify i f }

/-- `acquire_strategy_lease`, and where each answer leads. -/
def acquires (cfg : LifecycleConfig) (w : ℕ) (wk : Worker) (strategyId : ℕ)
    (acquired refused : WorkerPhase) : Fleet :=
  match acquireStrategyLease cfg s.clock w (s.leases strategyId) with
  | some lease => (s.setWorker w wk acquired).setLease strategyId (some lease)
  | none => s.setWorker w wk refused

/-- `fail`: again after a delay, or for good. -/
def failJob (cfg : LifecycleConfig) (j : Job) : Fleet :=
  if j.attempts < cfg.maxAttempts then
    s.updateCommand j.id fun c => c.retried s.clock (retryDelay j.attempts)
  else if j.commandType ∈ [.start, .restart] then
    (s.updateCommand j.id fun c => c.finished .failed).setDesired j.strategyId .stopped
  else s.updateCommand j.id fun c => c.finished .failed

/-- The executor's stop inside a stop or restart command. -/
def executorStops (w : ℕ) (wk : Worker) (j : Job) : StopOutcome → Fleet
  | .raises => s.setWorker w wk (.executing j .fails)
  | .stopFailed =>
    s.setWorker w wk (.executing j (if j.closes then .releases .completes else .fails))
  | .stopped _ =>
    let next := if j.commandType = .restart then AfterRelease.startChecks else .completes
    let s' := s.setWorker w (wk.drops j.strategyId) (.executing j (.releases next))
    if j.closes then s'.setDesired j.strategyId .stopped else s'

end Fleet

/-- `_execute`. -/
def executeStep (cfg : LifecycleConfig) (s : Fleet) (w : ℕ) (wk : Worker) (j : Job) :
    Stage → WorkerLabel → Option Fleet
  | .startChecks, .checksStatus =>
    some (s.setWorker w wk (.executing j
      (if s.desired j.strategyId = .stopped ∨ j.strategyId ∈ wk.running then .completes
       else .acquires)))
  | .acquires, .acquires =>
    some (s.acquires cfg w wk j.strategyId (.executing j .acquired) (.executing j .fails))
  | .acquired, .executorStarts started =>
    if started ∧ j.strategyId ∉ wk.running then
      some (s.setWorker w { wk with running := j.strategyId :: wk.running } (.executing j .started))
    else some (s.setWorker w wk (.executing j (.releases .fails)))
  | .started, .waits alive stopped =>
    if alive ∧ j.strategyId ∈ wk.running then some (s.setWorker w wk (.executing j .completes))
    else some (s.setWorker w (wk.dropsIf stopped j.strategyId) (.executing j (.releases .fails)))
  | .stops, .executorStops outcome => some (s.executorStops w wk j outcome)
  | .releases next, .releases =>
    some ((s.setWorker w wk (.executing j next.stage)).releases w j.strategyId)
  | .completes, .completes =>
    some ((s.setWorker w wk .idle).updateCommand j.id fun c => c.finished .succeeded)
  | .fails, .fails => some ((s.setWorker w wk .idle).failJob cfg j)
  | .fails, .raises => none
  | _, .raises => some (s.setWorker w wk (.executing j .fails))
  | _, _ => none

def workerStep (cfg : LifecycleConfig) (s : Fleet) (w : ℕ) (wk : Worker) :
    WorkerPhase → WorkerLabel → Option Fleet
  | _, .runtimeExits strategyId =>
    if strategyId ∈ wk.running then some (s.setWorker w (wk.drops strategyId) wk.phase) else none
  | _, .crashes => some (s.setWorker w { wk with running := [] } .offline)
  | .offline, .boots rows => some (s.setWorker w { wk with running := [] } (.restoring rows))
  | .offline, _ => none
  | _, .shutsDown => some (s.setWorker w wk (.shutting wk.running))
  | .restoring [], .restores => some (s.setWorker w wk .idle)
  | .restoring (strategyId :: todo), .restores =>
    some (s.acquires cfg w wk strategyId (.restoreAcquired strategyId todo) (.restoring todo))
  | .restoreAcquired strategyId todo, .restoreStarts started =>
    if started ∧ strategyId ∉ wk.running then
      some (s.setWorker w { wk with running := strategyId :: wk.running } (.restoring todo))
    else some (s.setWorker w wk (.restoreReleases strategyId todo))
  | .restoreReleases strategyId todo, .restoreReleases =>
    some (((s.setWorker w wk (.restoring todo)).releases w strategyId).setDesired strategyId .stopped)
  | .idle, .renewBegins =>
    if max 3 cfg.strategyLease ≤ 3 * (s.clock - wk.lastRenewal) then
      some (s.setWorker w { wk with lastRenewal := s.clock } (.renewing wk.running))
    else none
  | .renewing [], .renews _ => some (s.setWorker w wk .idle)
  | .renewing (_ :: todo), .renews true => some (s.setWorker w wk (.renewing todo))
  | .renewing (strategyId :: todo), .renews false =>
    match renewStrategyLease cfg s.clock w (s.leases strategyId) with
    | some lease => some ((s.setWorker w wk (.renewing todo)).setLease strategyId (some lease))
    | none => some (s.setWorker w wk (.leaseLost strategyId todo))
  | .leaseLost strategyId todo, .stopsLost stopped =>
    some (s.setWorker w (wk.dropsIf stopped strategyId) (.renewing todo))
  | .idle, .claims locked =>
    (claimNext cfg s.commands s.clock s.leases w locked).bind fun i =>
      (s.commands[i]?).map fun c =>
        (s.setWorker w wk (.executing
          ⟨i, c.strategyId, c.commandType, c.closePositions, c.attempts + 1⟩
          c.commandType.stage)).updateCommand i fun c => c.claimed cfg s.clock w
  | .executing j stage, l => executeStep cfg s w wk j stage l
  | .shutting [], .shutdownStops _ => some (s.setWorker w { wk with running := [] } .offline)
  | .shutting (strategyId :: todo), .shutdownStops stopped =>
    some (s.setWorker w (wk.dropsIf stopped strategyId) (.shutdownReleases strategyId todo))
  | .shutdownReleases strategyId todo, .shutdownReleases =>
    some ((s.setWorker w wk (.shutting todo)).releases w strategyId)
  | _, _ => none

def fleetStep (cfg : LifecycleConfig) (s : Fleet) : FleetLabel → Option Fleet
  | .tick seconds => some { s with clock := s.clock + seconds }
  | .setDesired strategyId status => some (s.setDesired strategyId status)
  | .enqueue strategyId commandType closePositions =>
    some { s with commands := enqueue s.commands s.clock strategyId commandType closePositions }
  | .failExhausted => some { s with commands := failExhausted cfg s.commands s.clock }
  | .cleanupLeases =>
    some { s with leases := fun strategyId =>
      (s.leases strategyId).filter fun l => s.clock ≤ l.leaseExpiresAt + 86400 }
  | .worker w l => (s.workers[w]?).bind fun wk => workerStep cfg s w wk wk.phase l

end AlgoTrade.Lifecycle
