import AlgoTrade.Lib.Runs
import AlgoTrade.Lib.Dict
import AlgoTrade.Lib.Lists
import Mathlib.Data.Finset.Card
import Mathlib.Data.Finset.Dedup

/-! # The pool of broker connections

`ConnectionPool` spreads the symbols of one broker account over several
connections and tracks every requested mode; the broker is told the highest one.
An adapter call succeeds and changes the broker's side, or comes to nothing.

* `Pool`: the tracking and, in `adapters`, what the broker sends on each connection.
* `subscribeInner`, `unsubscribe`, `unsubscribeAll`, `recover`: the operations.
* `subscribe_eq_run`: `subscribe` is a subscription, and after an auth failure a
  recovery and one more. -/

namespace AlgoTrade.ConnectionPool

open Runs

/-- `(symbol, exchange)`. -/
abbrev Pair := String × String

/-- `(symbol, exchange, mode)`. -/
abbrev SubKey := Pair × ℕ

/-- What the broker sends for a pair. -/
structure Feed where
  mode : ℕ
  depth : ℕ
  deriving DecidableEq, Repr

/-- The broker's side of one connection. -/
abbrev Adapter := Pair → Option Feed

/-- How an adapter call ends; `auth` says that `_is_auth_error` knows the message. -/
inductive Answer
  | success
  | error (auth : Bool)
  | raises (auth : Bool)
  deriving DecidableEq, Repr

structure PoolLimits where
  maxSymbols : ℕ
  maxConnections : ℕ
  symbols_pos : 0 < maxSymbols
  connections_pos : 0 < maxConnections

/-- `orphans` are connections the pool has dropped and failed to close. -/
structure Pool where
  adapters : List Adapter := []
  symbolCounts : List ℕ := []
  subscriptionMap : Dict SubKey ℕ := {}
  subscriptionDepths : Dict SubKey ℕ := {}
  initialized : Bool := false
  orphans : List Adapter := []

/-- `status` of a result, and whether an error's message is an auth failure. -/
inductive Status
  | success
  | error (auth : Bool)
  deriving DecidableEq, Repr

namespace Pool

/-! ## Tracking -/

/-- `_get_existing_modes`. -/
def existingModes (p : Pool) (pair : Pair) : Dict ℕ ℕ where
  entries := p.subscriptionMap.entries.filterMap fun e =>
    if e.1.1 = pair then some (e.1.2, e.2) else none

/-- The highest existing mode, and the connection it is on. -/
def highest (p : Pool) (pair : Pair) : Option (ℕ × ℕ) :=
  (p.existingModes pair).keys.max?.bind fun mode =>
    ((p.existingModes pair).get? mode).map fun idx => (mode, idx)

def track (p : Pool) (key : SubKey) (idx depth : ℕ) : Pool :=
  { p with
    subscriptionMap := p.subscriptionMap.set key idx
    subscriptionDepths := p.subscriptionDepths.set key depth }

def untrack (p : Pool) (key : SubKey) : Pool :=
  { p with
    subscriptionMap := p.subscriptionMap.pop key
    subscriptionDepths := p.subscriptionDepths.pop key }

/-- A call on connection `idx` that succeeds. -/
def setFeed (p : Pool) (idx : ℕ) (pair : Pair) (feed : Option Feed) : Pool :=
  { p with adapters := p.adapters.modify idx fun a => Function.update a pair feed }

/-- A call that changes the broker's side when it succeeds. -/
def call (ans : Answer) (p : Pool) (idx : ℕ) (pair : Pair) (feed : Option Feed) : Pool :=
  if ans = .success then p.setFeed idx pair feed else p

def changeCount (p : Pool) (idx : ℕ) (f : ℕ → ℕ) : Pool :=
  { p with symbolCounts := p.symbolCounts.modify idx f }

def addConnection (p : Pool) : Pool :=
  { p with adapters := p.adapters ++ [fun _ => none], symbolCounts := p.symbolCounts ++ [0] }

/-! ## Subscribing -/

/-- The calls of one subscription; the first two are for a new connection. -/
structure SubscribeCalls where
  init : Answer := .success
  connect : Answer := .success
  subscribe : Answer := .success

def Answer.raised : Answer → Option Bool
  | .raises auth => some auth
  | _ => none

/-- `_get_adapter_with_capacity`: the connection, or the error it raises.  What the
calls on a new connection return is not looked at. -/
def adapterWithCapacity (lim : PoolLimits) (calls : SubscribeCalls) (p : Pool) :
    Pool × Except Bool ℕ :=
  match p.symbolCounts.findIdx? fun count => count < lim.maxSymbols with
  | some idx => (p, .ok idx)
  | none =>
    if lim.maxConnections ≤ p.adapters.length then (p, .error false)
    else
      match (Answer.raised calls.init).or (Answer.raised calls.connect) with
      | some auth => (p, .error auth)
      | none => (p.addConnection, .ok p.adapters.length)

/-- `_subscribe_inner`. -/
def subscribeInner (lim : PoolLimits) (calls : SubscribeCalls) (pair : Pair) (mode depth : ℕ)
    (p : Pool) : Pool × Status :=
  match p.subscriptionMap.get? (pair, mode) with
  | some _ => (p, .success)
  | none =>
    match p.highest pair with
    | some (highest, idx) =>
      if highest < mode then
        match calls.subscribe with
        | .success =>
          ((p.setFeed idx pair (some ⟨mode, depth⟩)).track (pair, mode) idx depth, .success)
        | .error auth | .raises auth => (p, .error auth)
      else (p.track (pair, mode) idx depth, .success)
    | none =>
      match p.adapterWithCapacity lim calls with
      | (p', .error auth) => (p', .error auth)
      | (p', .ok idx) =>
        match calls.subscribe with
        | .success =>
          (((p'.setFeed idx pair (some ⟨mode, depth⟩)).track (pair, mode) idx depth).changeCount idx
            (· + 1), .success)
        | .error auth | .raises auth => (p', .error auth)

/-! ## Unsubscribing -/

/-- The calls of one `unsubscribe`; the last two are for a downgrade. -/
structure UnsubscribeCalls where
  unsubscribe : Answer := .success
  subscribe : Answer := .success
  rollback : Answer := .success

def Answer.failed : Answer → Status
  | .success => .success
  | .error auth | .raises auth => .error auth

/-- `unsubscribe`. -/
def unsubscribe (calls : UnsubscribeCalls) (pair : Pair) (mode : ℕ) (p : Pool) : Pool × Status :=
  match p.subscriptionMap.get? (pair, mode) with
  | none => (p, .error false)
  | some idx =>
    let oldDepth := (p.subscriptionDepths.get? (pair, mode)).getD 5
    let p₁ := p.untrack (pair, mode)
    match p₁.highest pair with
    | none =>
      match calls.unsubscribe with
      | .success => ((p₁.setFeed idx pair none).changeCount idx (· - 1), .success)
      | ans => (p₁.track (pair, mode) idx oldDepth, Answer.failed ans)
    | some (newHighest, _) =>
      if newHighest < mode then
        match calls.unsubscribe with
        | .raises auth => (p₁.track (pair, mode) idx oldDepth, .error auth)
        | ans =>
          let p₂ := call ans p₁ idx pair none
          match calls.subscribe with
          | .success => (p₂.setFeed idx pair (some ⟨newHighest, 5⟩), .success)
          | .raises auth => (p₂.track (pair, mode) idx oldDepth, .error auth)
          | .error _ =>
            (call calls.rollback (p₂.track (pair, mode) idx oldDepth) idx pair
              (some ⟨mode, oldDepth⟩), .error false)
      else (p₁, .success)

/-- The answer of connection `idx` to `unsubscribe_all`; without a method of that
name nothing is called. -/
def clearAnswer (has : Bool) (answers : ℕ → Answer) (idx : ℕ) : Answer :=
  if has then answers idx else .error false

/-- The first connection whose call raises. -/
def firstRaise (has : Bool) (answers : ℕ → Answer) (p : Pool) : Option ℕ :=
  (List.range p.adapters.length).find? fun idx =>
    (Answer.raised (clearAnswer has answers idx)).isSome

/-- The broker's side of some connections is cleared. -/
def clear (cleared : ℕ → Bool) (p : Pool) : Pool :=
  { p with adapters := p.adapters.mapIdx fun idx a => if cleared idx then fun _ => none else a }

/-- `unsubscribe_all`; `has` says whether the adapters have a method of that name. -/
def unsubscribeAll (has : Bool) (answers : ℕ → Answer) (p : Pool) : Pool :=
  match p.firstRaise has answers with
  | some last => p.clear fun idx => idx < last ∧ clearAnswer has answers idx = .success
  | none =>
    { p.clear fun idx => clearAnswer has answers idx = .success with
      subscriptionMap := {}
      subscriptionDepths := {}
      symbolCounts := List.replicate p.adapters.length 0 }

/-! ## Recovery -/

/-- The calls of one auth recovery: of each old connection, of the new one, and of
each subscription that is restored. -/
structure RecoveryCalls where
  disconnect : ℕ → Answer := fun _ => .success
  init : Answer := .success
  connect : Answer := .success
  restore : ℕ → SubscribeCalls := fun _ => {}

/-- The old connections are closed and forgotten. -/
def teardown (disconnect : ℕ → Answer) (p : Pool) : Pool where
  orphans := p.orphans ++
    (p.adapters.zipIdx.filter fun a => disconnect a.2 ≠ .success).map Prod.fst

/-- The first connection, made by `initialize`. -/
def firstConnection (ans : Answer) (p : Pool) : Pool × Bool :=
  if ans = .success then ({ p.addConnection with initialized := true }, true) else (p, false)

/-- `initialize()`. -/
def initializePool (ans : Answer) (p : Pool) : Pool :=
  if p.initialized then p else (p.firstConnection ans).1

/-- `initialize(force=True)`. -/
def forceInitialize (calls : RecoveryCalls) (p : Pool) : Pool × Bool :=
  (if p.initialized then p.teardown calls.disconnect else p).firstConnection calls.init

/-- The subscriptions taken up again after a recovery. -/
def restore (lim : PoolLimits) (calls : ℕ → SubscribeCalls) (subs : List (SubKey × ℕ)) (p : Pool) :
    Pool :=
  subs.zipIdx.foldl (fun p sub =>
    (p.subscribeInner lim (calls sub.2) sub.1.1.1 sub.1.1.2 sub.1.2).1) p

/-- How a recovery ends: `connect` of the new connection is outside any `try`. -/
inductive Recovery
  | done | failed | raised
  deriving DecidableEq, Repr

/-- `_attempt_auth_recovery`. -/
def recover (lim : PoolLimits) (calls : RecoveryCalls) (p : Pool) : Pool × Recovery :=
  let priorSubs := p.subscriptionMap.keys.map fun key =>
    (key, (p.subscriptionDepths.get? key).getD 5)
  match p.forceInitialize calls with
  | (p₁, false) => (p₁, .failed)
  | (p₁, true) =>
    match calls.connect with
    | .error _ => (p₁, .failed)
    | .raises _ => (p₁, .raised)
    | .success => (p₁.restore lim calls.restore priorSubs, .done)

/-- `subscribe`; `none` when the recovery raises. -/
def subscribe (lim : PoolLimits) (calls : SubscribeCalls) (recovery : RecoveryCalls)
    (again : SubscribeCalls) (pair : Pair) (mode depth : ℕ) (p : Pool) : Pool × Option Status :=
  match p.subscribeInner lim calls pair mode depth with
  | (p₁, .error true) =>
    match p₁.recover lim recovery with
    | (p₂, .done) =>
      let second := p₂.subscribeInner lim again pair mode depth
      (second.1, some second.2)
    | (p₂, .failed) => (p₂, some (.error true))
    | (p₂, .raised) => (p₂, none)
  | (p₁, status) => (p₁, some status)

/-! ## What is tracked -/

/-- The distinct pairs tracked on a connection. -/
def pairsOn (p : Pool) (idx : ℕ) : Finset Pair :=
  ((p.subscriptionMap.entries.filter fun e => e.2 = idx).map fun e => e.1.1).toFinset

/-- What the broker sends for the pair on connection `idx`. -/
def feed (p : Pool) (idx : ℕ) (pair : Pair) : Option Feed := p.adapters[idx]?.bind fun a => a pair

/-- `mode` is the highest tracked mode of the pair, on connection `idx`. -/
def Top (p : Pool) (pair : Pair) (mode idx : ℕ) : Prop :=
  p.subscriptionMap.get? (pair, mode) = some idx ∧
    ∀ mode', p.subscriptionMap.get? (pair, mode') ≠ none → mode' ≤ mode

theorem get?_existingModes (p : Pool) (pair : Pair) (mode : ℕ) :
    (p.existingModes pair).get? mode = p.subscriptionMap.get? (pair, mode) := by
  unfold existingModes
  obtain ⟨l⟩ := p.subscriptionMap
  induction l with
  | nil => rfl
  | cons e l ih =>
    obtain ⟨⟨pair', mode'⟩, idx⟩ := e
    rw [Dict.get?_cons]
    by_cases hpair : pair' = pair
    · subst hpair
      simp only [List.filterMap_cons, if_true, Dict.get?_cons, ih, Prod.mk.injEq, true_and]
    · simp only [List.filterMap_cons, hpair, if_false, ih, Prod.mk.injEq, false_and]

theorem highest_eq_some_iff {p : Pool} {pair : Pair} {mode idx : ℕ} :
    p.highest pair = some (mode, idx) ↔ p.Top pair mode idx := by
  have hkeys : ∀ m, m ∈ (p.existingModes pair).keys ↔
      p.subscriptionMap.get? (pair, m) ≠ none := fun m => by
    rw [← get?_existingModes, Ne, Dict.get?_eq_none_iff, not_not]
  unfold highest Top
  rw [Option.bind_eq_some_iff]
  constructor
  · rintro ⟨m, hmax, hget⟩
    obtain ⟨i, hi, heq⟩ := Option.map_eq_some_iff.mp hget
    obtain ⟨rfl, rfl⟩ := Prod.mk.inj heq
    rw [get?_existingModes] at hi
    exact ⟨hi, fun m' hm' => (List.max?_eq_some_iff.mp hmax).2 m' ((hkeys m').mpr hm')⟩
  · rintro ⟨hget, hmax⟩
    refine ⟨mode, List.max?_eq_some_iff.mpr ⟨(hkeys mode).mpr ?_, fun m hm => ?_⟩, ?_⟩
    · rw [hget]
      exact Option.some_ne_none idx
    · exact hmax m ((hkeys m).mp hm)
    · rw [get?_existingModes, hget, Option.map_some]

theorem highest_eq_none_iff {p : Pool} {pair : Pair} :
    p.highest pair = none ↔ ∀ mode, p.subscriptionMap.get? (pair, mode) = none := by
  constructor
  · intro hnone mode
    by_contra hsome
    have hne : (p.existingModes pair).keys ≠ [] := by
      refine List.ne_nil_of_mem (a := mode) ?_
      rwa [← get?_existingModes, Dict.get?_eq_none_iff, not_not] at hsome
    obtain ⟨m, hmax⟩ := Option.isSome_iff_exists.mp (List.isSome_max?_of_ne_nil hne)
    obtain ⟨i, hi⟩ := Dict.exists_get?_of_mem (List.max?_eq_some_iff.mp hmax).1
    unfold highest at hnone
    rw [hmax, Option.bind_some, hi] at hnone
    cases hnone
  · intro hnone
    cases hhigh : p.highest pair with
    | none => rfl
    | some top =>
      obtain ⟨mode, idx⟩ := top
      have htop := (highest_eq_some_iff.mp hhigh).1
      rw [hnone mode] at htop
      cases htop

theorem mem_pairsOn {p : Pool} (hkeys : p.subscriptionMap.keys.Nodup) {pair : Pair} {idx : ℕ} :
    pair ∈ p.pairsOn idx ↔ ∃ mode, p.subscriptionMap.get? (pair, mode) = some idx := by
  unfold pairsOn
  rw [List.mem_toFinset, List.mem_map]
  constructor
  · rintro ⟨⟨⟨pair', mode⟩, i⟩, he, rfl⟩
    obtain ⟨hmem, hidx⟩ := List.mem_filter.mp he
    have hget := Dict.get?_of_mem hkeys hmem
    rw [of_decide_eq_true hidx] at hget
    exact ⟨mode, hget⟩
  · rintro ⟨mode, hget⟩
    exact ⟨((pair, mode), idx),
      List.mem_filter.mpr ⟨Dict.mem_entries_of_get? hget, decide_eq_true rfl⟩, rfl⟩

end Pool

/-! ## Steps -/

inductive Act
  | initial (ans : Answer)
  | subscribe (pair : Pair) (mode depth : ℕ) (calls : Pool.SubscribeCalls)
  | unsubscribe (pair : Pair) (mode : ℕ) (calls : Pool.UnsubscribeCalls)
  | unsubscribeAll (has : Bool) (answers : ℕ → Answer)
  | recover (calls : Pool.RecoveryCalls)

def step (lim : PoolLimits) (p : Pool) : Act → Option Pool
  | .initial ans => some (p.initializePool ans)
  | .subscribe pair mode depth calls => some (p.subscribeInner lim calls pair mode depth).1
  | .unsubscribe pair mode calls => some (p.unsubscribe calls pair mode).1
  | .unsubscribeAll has answers => some (p.unsubscribeAll has answers)
  | .recover calls => some (p.recover lim calls).1

/-- `subscribe` is a run of at most three steps. -/
theorem subscribe_eq_run (lim : PoolLimits) (calls : Pool.SubscribeCalls)
    (recovery : Pool.RecoveryCalls) (again : Pool.SubscribeCalls) (pair : Pair) (mode depth : ℕ)
    (p : Pool) :
    ∃ acts, acts <+: [.subscribe pair mode depth calls, .recover recovery,
        .subscribe pair mode depth again] ∧
      run (step lim) p acts =
        some (p.subscribe lim calls recovery again pair mode depth).1 := by
  unfold Pool.subscribe
  split
  next p₁ hfirst =>
    split
    next p₂ hdone =>
      refine ⟨_, List.prefix_rfl, ?_⟩
      simp only [run, step, hfirst, hdone]
    next p₂ hfailed =>
      refine ⟨[.subscribe pair mode depth calls, .recover recovery], ⟨[_], rfl⟩, ?_⟩
      simp only [run, step, hfirst, hfailed]
    next p₂ hraised =>
      refine ⟨[.subscribe pair mode depth calls, .recover recovery], ⟨[_], rfl⟩, ?_⟩
      simp only [run, step, hfirst, hraised]
  next p₁ status _ hfirst =>
    refine ⟨[.subscribe pair mode depth calls], ⟨[_, _], rfl⟩, ?_⟩
    simp only [run, step, hfirst]

end AlgoTrade.ConnectionPool
