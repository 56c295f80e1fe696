import AlgoTrade.Lib.Runs
import Mathlib.Algebra.Order.Field.Rat
import Mathlib.Data.Rat.Floor
import Mathlib.Logic.Function.Basic

/-! # The rate limit of agent tokens

Every call of an agent is counted against its token and against its user.  The counters are
in Redis, one a minute; when Redis does not answer, a worker process falls back on its own
log of the last minute.

* `memoryRateLimit`, `increment`, `redisRateLimit`: the two limiters.
* `step`: one call of a limiter, by one of the threads of one of the workers. -/

namespace AlgoTrade.Agent.RateLimit

/-! ## The limiters -/

/-- `token:...` and `tenant:...`. -/
inductive Key
  | token (id : ℤ)
  | tenant (id : ℤ)
  deriving DecidableEq, Repr

structure Decision where
  allowed : Bool
  limit : ℤ
  remaining : ℤ
  reset : ℤ
  deriving DecidableEq, Repr

/-- `int(...)` of a number of seconds. -/
def wholeSeconds (x : ℚ) : ℤ := if 0 ≤ x then ⌊x⌋ else ⌈x⌉

/-- `_memory_rate_limit`, with the bucket it leaves. -/
def memoryRateLimit (bucket : List ℚ) (limitPerMin : ℤ) (now : ℚ) : Decision × List ℚ :=
  let windowStart := now - 60
  let bucket := bucket.filter (windowStart ≤ ·)
  if max 1 limitPerMin ≤ bucket.length then
    let reset := match bucket with
      | [] => 60
      | first :: _ => max 1 (wholeSeconds (first + 60 - now))
    (⟨false, max 1 limitPerMin, 0, reset⟩, bucket)
  else
    let bucket := bucket ++ [now]
    (⟨true, max 1 limitPerMin, max 0 (limitPerMin - bucket.length),
      max 1 (wholeSeconds (bucket.headD now + 60 - now))⟩, bucket)

/-- A Redis counter and the time it expires. -/
structure Counter where
  count : ℕ
  expiresAt : ℚ
  deriving DecidableEq, Repr

/-- The script: `INCR`, and `EXPIRE` for a new counter. -/
def increment (counter : Option Counter) (t : ℚ) : Counter :=
  match counter with
  | none => ⟨1, t + 65⟩
  | some c => if t < c.expiresAt then { c with count := c.count + 1 } else ⟨1, t + 65⟩

/-- The answer to the script; the counter's rest of life is what Redis says it is. -/
def redisRateLimit (limit : ℤ) (count : ℕ) (ttl : ℤ) : Decision where
  allowed := (count : ℤ) ≤ limit
  limit := limit
  remaining := max 0 (limit - count)
  reset := max 1 ttl

/-- The minute of a clock reading. -/
def minuteOf (reading : ℚ) : ℤ := ⌊reading / 60⌋

/-! ## Requests -/

/-- Where a decision comes from: Redis, or the memory of a worker. -/
structure Grant (workers : ℕ) where
  key : Key
  time : ℚ
  source : Option (Fin workers)
  deriving DecidableEq, Repr

inductive Stage
  | limiting
  /-- The clock is read for the minute of the counter. -/
  | asking (reading : ℚ)
  | fallback
  /-- The clock is read, and the lock is not held yet. -/
  | locking (now : ℚ)
  deriving DecidableEq, Repr

/-- A request in `_check_rate_limit`; `held` is what its token was granted. -/
structure Request (workers : ℕ) where
  tokenId : ℤ
  userId : ℤ
  held : Option (Decision × Grant workers) := none
  stage : Stage := .limiting
  deriving DecidableEq, Repr

def Request.key {workers : ℕ} (r : Request workers) : Key := match r.held with
  | none => .token r.tokenId
  | some _ => .tenant r.userId

/-- A request that is let through, with the decision it goes on with. -/
structure Passed (workers : ℕ) where
  tokenId : ℤ
  userId : ℤ
  decision : Decision
  token : Grant workers
  tenant : Grant workers
  deriving DecidableEq, Repr

/-- The limits, and the hash of the keys. -/
structure Config where
  /-- The column `rate_limit_per_min` of each token. -/
  rateLimitPerMin : ℤ → Option ℤ
  /-- `AGENT_TENANT_RATE_LIMIT_PER_MIN`, where it is a number. -/
  tenantSetting : Option ℤ
  hash : Key → ℤ

/-- The limit `_rate_limit_one` is called with. -/
def Config.limitPerMin (cfg : Config) : Key → ℤ
  | .token id => match cfg.rateLimitPerMin id with
    | none => 60
    | some limit => if limit = 0 then 60 else limit
  | .tenant _ => match cfg.tenantSetting with
    | none => 600
    | some limit => max 1 limit

def Config.limit (cfg : Config) (key : Key) : ℤ := max 1 (cfg.limitPerMin key)

structure State (workers threads : ℕ) where
  clock : ℚ
  redis : Key × ℤ → Option Counter
  memory : Fin workers × ℤ → List ℚ
  requests : Fin workers × Fin threads → Option (Request workers)
  grants : List (Grant workers)
  passed : List (Passed workers)

def State.start (workers threads : ℕ) (t : ℚ) : State workers threads :=
  ⟨t, fun _ => none, fun _ => [], fun _ => none, [], []⟩

inductive Action (workers threads : ℕ)
  | arrive (thread : Fin workers × Fin threads) (tokenId userId : ℤ)
  /-- The settings ask for the memory of the process. -/
  | memoryOnly (thread : Fin workers × Fin threads)
  | ask (thread : Fin workers × Fin threads)
  /-- Redis runs the script, and its answer comes. -/
  | answer (thread : Fin workers × Fin threads) (ttl : ℤ)
  /-- No answer comes, whether Redis has run the script or not. -/
  | fail (thread : Fin workers × Fin threads) (executed : Bool)
  /-- Redis runs a script whose request has given up. -/
  | stray (key : Key) (minute : ℤ)
  | readClock (thread : Fin workers × Fin threads)
  | lock (thread : Fin workers × Fin threads)
  deriving DecidableEq, Repr

section
variable {workers threads : ℕ}

def State.moveOn (s : State workers threads) (thread : Fin workers × Fin threads)
    (request : Option (Request workers)) : State workers threads :=
  { s with requests := Function.update s.requests thread request }

def State.executed (s : State workers threads) (key : Key) (minute : ℤ) (t : ℚ) :
    State workers threads :=
  { s with
    redis := Function.update s.redis (key, minute) (some (increment (s.redis (key, minute)) t)) }

/-- What a request does with a decision: a refusal is its answer; its token's grant is held
while its user is checked; with both it passes. -/
def State.decide (s : State workers threads) (thread : Fin workers × Fin threads)
    (r : Request workers) (decision : Decision) (time : ℚ) (source : Option (Fin workers)) :
    State workers threads :=
  if decision.allowed then
    let grant : Grant workers := ⟨r.key, time, source⟩
    let s := { s with grants := s.grants ++ [grant] }
    match r.held with
    | none => s.moveOn thread (some { r with held := some (decision, grant), stage := .limiting })
    | some (held, token) =>
      { s.moveOn thread none with
        passed := s.passed ++ [⟨r.tokenId, r.userId, held, token, grant⟩] }
  else s.moveOn thread none

/-- The minutes Redis is asked about have begun. -/
def step (cfg : Config) (s : State workers threads) (call : ℚ × Action workers threads) :
    Option (State workers threads) :=
  let t := call.1
  if t < s.clock then none
  else
    let s := { s with clock := t }
    match call.2 with
    | .arrive thread tokenId userId => match s.requests thread with
      | none => some (s.moveOn thread (some { tokenId, userId }))
      | some _ => none
    | .memoryOnly thread => match s.requests thread with
      | some r =>
        if r.stage = .limiting then some (s.moveOn thread (some { r with stage := .fallback }))
        else none
      | none => none
    | .ask thread => match s.requests thread with
      | some r =>
        if r.stage = .limiting then some (s.moveOn thread (some { r with stage := .asking t }))
        else none
      | none => none
    | .answer thread ttl => match s.requests thread with
      | some r => match r.stage with
        | .asking reading =>
          let counter := increment (s.redis (r.key, minuteOf reading)) t
          some ((s.executed r.key (minuteOf reading) t).decide thread r
            (redisRateLimit (cfg.limit r.key) counter.count ttl) reading none)
        | _ => none
      | none => none
    | .fail thread executed => match s.requests thread with
      | some r => match r.stage with
        | .asking reading =>
          let s := if executed then s.executed r.key (minuteOf reading) t else s
          some (s.moveOn thread (some { r with stage := .fallback }))
        | _ => none
      | none => none
    | .stray key minute => if 60 * (minute : ℚ) ≤ t then some (s.executed key minute t) else none
    | .readClock thread => match s.requests thread with
      | some r =>
        if r.stage = .fallback then some (s.moveOn thread (some { r with stage := .locking t }))
        else none
      | none => none
    | .lock thread => match s.requests thread with
      | some r => match r.stage with
        | .locking now =>
          let slot := (thread.1, cfg.hash r.key)
          let out := memoryRateLimit (s.memory slot) (cfg.limit r.key) now
          some ({ s with memory := Function.update s.memory slot out.2 }.decide thread r out.1 now
            (some thread.1))
        | _ => none
      | none => none

/-! ## What a step does -/

inductive Called (cfg : Config) (s : State workers threads) :
    Action workers threads → State workers threads → Prop
  | arrive (thread : Fin workers × Fin threads) (tokenId userId : ℤ)
      (hfree : s.requests thread = none) :
      Called cfg s (.arrive thread tokenId userId) (s.moveOn thread (some { tokenId, userId }))
  /-- To a stage without a reading, or with one of this time. -/
  | turn (thread : Fin workers × Fin threads) (r : Request workers) (stage : Stage)
      (a : Action workers threads) (hr : s.requests thread = some r)
      (hstage : r.stage = .limiting ∧ (stage = .fallback ∨ stage = .asking s.clock) ∨
        r.stage = .fallback ∧ stage = .locking s.clock) :
      Called cfg s a (s.moveOn thread (some { r with stage := stage }))
  | answer (thread : Fin workers × Fin threads) (r : Request workers) (reading : ℚ) (ttl : ℤ)
      (hr : s.requests thread = some r) (hstage : r.stage = .asking reading) :
      Called cfg s (.answer thread ttl)
        ((s.executed r.key (minuteOf reading) s.clock).decide thread r
          (redisRateLimit (cfg.limit r.key)
            (increment (s.redis (r.key, minuteOf reading)) s.clock).count ttl) reading none)
  | fail (thread : Fin workers × Fin threads) (r : Request workers) (reading : ℚ) (executed : Bool)
      (hr : s.requests thread = some r) (hstage : r.stage = .asking reading) :
      Called cfg s (.fail thread executed)
        ((if executed then s.executed r.key (minuteOf reading) s.clock else s).moveOn thread
          (some { r with stage := .fallback }))
  | stray (key : Key) (minute : ℤ) (hbegun : 60 * (minute : ℚ) ≤ s.clock) :
      Called cfg s (.stray key minute) (s.executed key minute s.clock)
  | lock (thread : Fin workers × Fin threads) (r : Request workers) (now : ℚ)
      (hr : s.requests thread = some r) (hstage : r.stage = .locking now) :
      Called cfg s (.lock thread) (State.decide
        { s with
          memory := Function.update s.memory (thread.1, cfg.hash r.key)
            (memoryRateLimit (s.memory (thread.1, cfg.hash r.key)) (cfg.limit r.key) now).2 }
        thread r (memoryRateLimit (s.memory (thread.1, cfg.hash r.key)) (cfg.limit r.key) now).1 now
        (some thread.1))

theorem step_cases {cfg : Config} {s s' : State workers threads} {t : ℚ}
    {a : Action workers threads} (h : step cfg s (t, a) = some s') :
    s.clock ≤ t ∧ Called cfg { s with clock := t } a s' := by
  unfold step at h
  dsimp only at h
  split at h
  next => cases h
  next ht =>
    refine ⟨not_lt.mp ht, ?_⟩
    cases a with
    | arrive thread tokenId userId =>
      dsimp only at h
      split at h
      next hfree =>
        obtain rfl := Option.some.inj h
        exact .arrive thread tokenId userId hfree
      next => cases h
    | memoryOnly thread =>
      dsimp only at h
      split at h
      next r hr =>
        split at h
        next hstage =>
          obtain rfl := Option.some.inj h
          exact .turn thread r _ _ hr (.inl ⟨hstage, .inl rfl⟩)
        next => cases h
      next => cases h
    | ask thread =>
      dsimp only at h
      split at h
      next r hr =>
        split at h
        next hstage =>
          obtain rfl := Option.some.inj h
          exact .turn thread r _ _ hr (.inl ⟨hstage, .inr rfl⟩)
        next => cases h
      next => cases h
    | answer thread ttl =>
      dsimp only at h
      split at h
      next r hr =>
        split at h
        next reading hstage =>
          obtain rfl := Option.some.inj h
          exact .answer thread r reading ttl hr hstage
        next => cases h
      next => cases h
    | fail thread executed =>
      dsimp only at h
      split at h
      next r hr =>
        split at h
        next reading hstage =>
          obtain rfl := Option.some.inj h
          exact .fail thread r reading executed hr hstage
        next => cases h
      next => cases h
    | stray key minute =>
      dsimp only at h
      split at h
      next hbegun =>
        obtain rfl := Option.some.inj h
        exact .stray key minute hbegun
      next => cases h
    | readClock thread =>
      dsimp only at h
      split at h
      next r hr =>
        split at h
        next hstage =>
          obtain rfl := Option.some.inj h
          exact .turn thread r _ _ hr (.inr ⟨hstage, rfl⟩)
        next => cases h
      next => cases h
    | lock thread =>
      dsimp only at h
      split at h
      next r hr =>
        split at h
        next now hstage =>
          obtain rfl := Option.some.inj h
          exact .lock thread r now hr hstage
        next => cases h
      next => cases h

end

end AlgoTrade.Agent.RateLimit
