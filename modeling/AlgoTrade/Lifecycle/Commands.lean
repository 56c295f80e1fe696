import Mathlib.Algebra.Group.Nat.Defs
import Mathlib.Data.List.Basic

/-! # Lifecycle commands and runtime leases

The rows of `qd_strategy_commands` and `qd_strategy_runtime_leases` and the
statements of `StrategyCommandRepository`.

* `enqueue`: a request is merged into an open command of its type.
* `claimNext`: the first claimable row that no other transaction has locked.
* `acquireStrategyLease`, `renewStrategyLease`, `releaseStrategyLease`. -/

namespace AlgoTrade.Lifecycle

/-- Times are in seconds. -/
structure LifecycleConfig where
  commandLease : ℕ := 30
  strategyLease : ℕ := 30
  maxAttempts : ℕ := 3

/-! ## Commands -/

inductive CommandType
  | start | stop | restart | reconcile
  deriving DecidableEq, Repr

inductive CommandStatus
  | pending | processing | succeeded | failed | cancelled
  deriving DecidableEq, Repr

/-- `TERMINAL_COMMAND_STATUSES`. -/
def CommandStatus.terminal : CommandStatus → Bool
  | succeeded | failed | cancelled => true
  | pending | processing => false

/-- A row of `qd_strategy_commands`; its id is its place in the table. -/
structure Command where
  strategyId : ℕ
  commandType : CommandType
  closePositions : Bool := false
  status : CommandStatus := .pending
  attempts : ℕ := 0
  availableAt : ℕ
  claimedBy : Option ℕ := none
  leaseExpiresAt : Option ℕ := none
  deriving DecidableEq, Repr

/-- A row of `qd_strategy_runtime_leases`. -/
structure Lease where
  ownerId : ℕ
  fencingToken : ℕ := 1
  leaseExpiresAt : ℕ
  deriving DecidableEq, Repr

namespace Command

variable (c : Command)

def isOpen : Bool := !c.status.terminal

/-- An open command the request is merged into. -/
def mergesWith (strategyId : ℕ) (commandType : CommandType) : Bool :=
  c.strategyId = strategyId ∧ c.commandType = commandType ∧ c.isOpen

/-- The `WHERE` clause of `claim_next`. -/
def claimable (cfg : LifecycleConfig) (clock : ℕ) (lease : Option Lease) (owner : ℕ) : Bool :=
  c.attempts < cfg.maxAttempts ∧
    ((c.status = .pending ∧ c.availableAt ≤ clock) ∨
      (c.status = .processing ∧ c.leaseExpiresAt.any fun t => t < clock)) ∧
    (c.commandType ∈ [.start, .reconcile] ∨ lease = none ∨
      lease.any fun l => l.ownerId = owner ∨ l.leaseExpiresAt < clock)

/-- The row `claim_next` returns. -/
def claimed (cfg : LifecycleConfig) (clock : ℕ) (owner : ℕ) : Command :=
  { c with status := .processing, claimedBy := some owner, attempts := c.attempts + 1,
           leaseExpiresAt := some (clock + cfg.commandLease) }

/-- `_finish`. -/
def finished (status : CommandStatus) : Command := { c with status, leaseExpiresAt := none }

/-- `fail` with a retry delay. -/
def retried (clock delay : ℕ) : Command :=
  { c with status := .pending, availableAt := clock + delay, leaseExpiresAt := none }

/-- The rows `fail_exhausted_commands` updates. -/
def exhausted (cfg : LifecycleConfig) (clock : ℕ) : Bool :=
  c.status = .processing ∧ (c.leaseExpiresAt.any fun t => t < clock) ∧ cfg.maxAttempts ≤ c.attempts

end Command

def enqueue (commands : List Command) (clock : ℕ) (strategyId : ℕ) (commandType : CommandType)
    (closePositions : Bool) : List Command :=
  if commands.any fun c => c.mergesWith strategyId commandType then commands
  else commands ++ [{ strategyId, commandType, closePositions, availableAt := clock }]

/-- The row to claim: in order of ids, `SKIP LOCKED`. -/
def claimNext (cfg : LifecycleConfig) (commands : List Command) (clock : ℕ)
    (leases : ℕ → Option Lease) (owner : ℕ) (locked : List ℕ) : Option ℕ :=
  (List.range commands.length).find? fun i =>
    i ∉ locked ∧ (commands[i]?).any fun c => c.claimable cfg clock (leases c.strategyId) owner

theorem claimable_of_claimNext {cfg : LifecycleConfig} {commands : List Command} {clock owner i : ℕ}
    {leases : ℕ → Option Lease} {locked : List ℕ} {c : Command}
    (h : claimNext cfg commands clock leases owner locked = some i) (hc : commands[i]? = some c) :
    c.claimable cfg clock (leases c.strategyId) owner = true := by
  unfold claimNext at h
  have hfound := List.find?_some h
  simp only [hc, Option.any_some, decide_eq_true_eq] at hfound
  exact hfound.2

def failExhausted (cfg : LifecycleConfig) (commands : List Command) (clock : ℕ) : List Command :=
  commands.map fun c => if c.exhausted cfg clock then c.finished .failed else c

/-- `min(60, 2 ** max(0, attempts - 1))`. -/
def retryDelay (attempts : ℕ) : ℕ := min 60 (2 ^ (attempts - 1))

/-! ## Leases -/

/-- The row after `acquire_strategy_lease`, when it returns a token. -/
def acquireStrategyLease (cfg : LifecycleConfig) (clock : ℕ) (owner : ℕ) :
    Option Lease → Option Lease
  | none => some { ownerId := owner, leaseExpiresAt := clock + cfg.strategyLease }
  | some l =>
    if l.ownerId = owner ∨ l.leaseExpiresAt < clock then
      some { ownerId := owner
             fencingToken := if l.ownerId = owner then l.fencingToken else l.fencingToken + 1
             leaseExpiresAt := clock + cfg.strategyLease }
    else none

/-- The row after `renew_strategy_lease`, when it renews. -/
def renewStrategyLease (cfg : LifecycleConfig) (clock : ℕ) (owner : ℕ) :
    Option Lease → Option Lease
  | none => none
  | some l =>
    if l.ownerId = owner ∧ clock ≤ l.leaseExpiresAt then
      some { l with leaseExpiresAt := clock + cfg.strategyLease }
    else none

def releaseStrategyLease (owner : ℕ) (lease : Option Lease) : Option Lease :=
  lease.filter fun l => l.ownerId ≠ owner

/-- The lease is another worker's and has not expired. -/
theorem acquireStrategyLease_eq_none {cfg : LifecycleConfig} {clock : ℕ} {owner : ℕ}
    {lease : Option Lease} :
    acquireStrategyLease cfg clock owner lease = none ↔
      ∃ l, lease = some l ∧ l.ownerId ≠ owner ∧ clock ≤ l.leaseExpiresAt := by
  cases lease with
  | none => simp [acquireStrategyLease]
  | some l =>
    unfold acquireStrategyLease
    dsimp only
    split
    next h =>
      refine ⟨fun hnone => (by cases hnone), ?_⟩
      rintro ⟨l', hl', hne, hle⟩
      obtain rfl := Option.some.inj hl'
      rcases h with h | h
      · exact absurd h hne
      · exact absurd h (Nat.not_lt.mpr hle)
    next h =>
      rw [not_or] at h
      exact ⟨fun _ => ⟨l, rfl, h.1, Nat.not_lt.mp h.2⟩, fun _ => rfl⟩

theorem owner_acquireStrategyLease {cfg : LifecycleConfig} {clock : ℕ} {owner : ℕ}
    {lease : Option Lease} {l : Lease} (h : acquireStrategyLease cfg clock owner lease = some l) :
    l.ownerId = owner ∧ l.leaseExpiresAt = clock + cfg.strategyLease := by
  cases lease with
  | none =>
    obtain rfl := Option.some.inj h
    exact ⟨rfl, rfl⟩
  | some l₀ =>
    unfold acquireStrategyLease at h
    dsimp only at h
    split at h
    · obtain rfl := Option.some.inj h
      exact ⟨rfl, rfl⟩
    · cases h

/-- A lease that is renewed was the owner's, and stays so. -/
theorem renewStrategyLease_eq_some {cfg : LifecycleConfig} {clock : ℕ} {owner : ℕ}
    {lease : Option Lease} {l : Lease} (h : renewStrategyLease cfg clock owner lease = some l) :
    (∃ l₀, lease = some l₀ ∧ l₀.ownerId = owner) ∧
      l.ownerId = owner ∧ l.leaseExpiresAt = clock + cfg.strategyLease := by
  cases lease with
  | none => cases h
  | some l₀ =>
    unfold renewStrategyLease at h
    dsimp only at h
    split at h
    next hown =>
      obtain rfl := Option.some.inj h
      exact ⟨⟨l₀, rfl, hown.1⟩, hown.1, rfl⟩
    next => cases h

theorem releaseStrategyLease_eq_some {owner : ℕ} {lease : Option Lease} {l : Lease}
    (h : releaseStrategyLease owner lease = some l) : lease = some l :=
  (Option.filter_eq_some_iff.mp h).1

theorem releaseStrategyLease_of_ne {owner : ℕ} {l : Lease} (h : l.ownerId ≠ owner) :
    releaseStrategyLease owner (some l) = some l := by
  unfold releaseStrategyLease
  rw [Option.filter_some, if_pos (by simpa using h)]

end AlgoTrade.Lifecycle
