import AlgoTrade.Lib.RaisedFlags
import AlgoTrade.Lifecycle.LiveGuard
import AlgoTrade.Lifecycle.OneRunner

/-! # The legs of live strategies

The status of a strategy is its flag: a request raises it, a worker makes sure that it is up,
and the preflight looks at the flags of the others before the strategy's thread is started.

* `liveStep`: the fleet with its preflights.
* `legs_apart`: two strategies that run on one instrument own different legs, or one of them
  has been set to stopped since its status was read. -/

namespace AlgoTrade.LiveGuard

open Lifecycle

/-! ## The fleet with its preflights -/

structure StrategyTable where
  rows : List LiveStrategy
  nodup : (rows.map LiveStrategy.id).Nodup

/-- Whether a worker runs a strategy. -/
def runs (fleet : Fleet) (p : ℕ × ℕ) : Bool :=
  (fleet.workers[p.1]?).any fun wk => decide (p.2 ∈ wk.running)

/-- Of a worker and a strategy; `wanted` and `hedge` are history. -/
structure LiveFleet where
  fleet : Fleet
  /-- The preflight of the worker's call of its executor has passed. -/
  cleared : ℕ × ℕ → Bool
  /-- The strategy is to run ever since the worker read its status. -/
  wanted : ℕ × ℕ → Bool
  /-- The position mode the last preflight was told. -/
  hedge : ℕ × ℕ → Option Bool

def LiveFleet.start (fleet : Fleet) : LiveFleet :=
  ⟨fleet, fun _ => false, fun _ => false, fun _ => none⟩

inductive LiveLabel
  | preflight (w : ℕ) (mode : HedgeMode)
  | fleet (l : FleetLabel)
  deriving DecidableEq, Repr

namespace LiveFleet

variable (s : LiveFleet)

/-- A thread is started after its preflight, and a worker restores strategies that are to
run. -/
def admits (l : FleetLabel) (fleet : Fleet) : Bool :=
  (fleet.workers.zipIdx.all fun wk => wk.1.running.all fun strategyId =>
    runs s.fleet (wk.2, strategyId) || s.cleared (wk.2, strategyId)) &&
  match l with
  | .worker _ (.boots rows) => rows.all fun strategyId => s.fleet.desired strategyId = .running
  | _ => true

/-- The strategies whose status a worker reads before it starts them. -/
def checked : FleetLabel → List (ℕ × ℕ)
  | .worker w (.boots rows) => rows.map (w, ·)
  | .worker w .checksStatus =>
    match (s.fleet.workers[w]?).map Worker.phase with
    | some (.executing j .startChecks) => [(w, j.strategyId)]
    | _ => []
  | _ => []

/-- A preflight counts for the worker's next statement; a thread may end at any time. -/
def clearedAfter (p : ℕ × ℕ) : FleetLabel → Bool
  | .worker _ (.runtimeExits _) => s.cleared p
  | .worker w _ => if p.1 = w then false else s.cleared p
  | _ => s.cleared p

/-- After a label that leads the fleet to `fleet`. -/
def after (l : FleetLabel) (fleet : Fleet) : LiveFleet where
  fleet := fleet
  cleared p := s.clearedAfter p l
  wanted p := (s.wanted p || (decide (p ∈ s.checked l) && !runs fleet p)) &&
    decide (fleet.desired p.2 = .running)
  hedge := s.hedge

end LiveFleet

def liveStep (cfg : LifecycleConfig) (table : StrategyTable) (s : LiveFleet) :
    LiveLabel → Option LiveFleet
  | .preflight w mode =>
    (s.fleet.workers[w]?).bind fun wk =>
      match wk.phase.acquired with
      | strategyId :: _ =>
        if strategyId ∈ wk.running then none
        else match preflightLiveStrategy table.rows s.fleet.desired strategyId mode with
          | .error _ => some { s with cleared := Function.update s.cleared (w, strategyId) false }
          | .ok () => some
            { s with cleared := Function.update s.cleared (w, strategyId) true
                     hedge := Function.update s.hedge (w, strategyId) mode.isHedge }
      | [] => none
  | .fleet l =>
    (fleetStep cfg s.fleet l).bind fun fleet =>
      if s.admits l fleet then some (s.after l fleet) else none

/-! ## Flags -/

/-- Whose thread runs, or is about to be started, with what its preflight was told. -/
def LiveFleet.inside (s : LiveFleet) (p : ℕ × ℕ) : Option (Option Bool) :=
  if (runs s.fleet p || s.cleared p) = true then some (s.hedge p) else none

def LiveFleet.flags (s : LiveFleet) : RaisedFlags.State (ℕ × ℕ) (Option Bool) where
  up p := s.fleet.desired p.2 = .running
  steady p := s.wanted p = true
  inside := s.inside

/-- The one, with the position mode its preflight was told, may run beside the other. -/
def MayRun (table : StrategyTable) (p : ℕ × ℕ) (isHedge : Option Bool) (q : ℕ × ℕ) : Prop :=
  ∀ a ∈ table.rows, ∀ b ∈ table.rows, a.id = p.2 → b.id = q.2 → b.id ≠ a.id →
    b.executionMode = "live" → ∀ instrument side otherSide,
      strategyLiveLockKey a a.userId = some (instrument, side) →
        strategyLiveLockKey b b.userId = some (instrument, otherSide) →
          a.allowOppositeLeg isHedge = true ∧ ∀ leg ∈ a.ownedLegs, leg ∉ b.ownedLegs

section
variable {cfg : LifecycleConfig} {table : StrategyTable} {s s' : LiveFleet} {l : FleetLabel}
  {fleet : Fleet} {p : ℕ × ℕ}

theorem StrategyTable.find_eq {a : LiveStrategy} (ha : a ∈ table.rows) :
    table.rows.find? (·.id = a.id) = some a := by
  obtain ⟨b, hb⟩ := Option.isSome_iff_exists.mp
    (List.find?_isSome.mpr ⟨a, ha, decide_eq_true rfl⟩ : (table.rows.find? (·.id = a.id)).isSome)
  have hid : b.id = a.id := by simpa using List.find?_some hb
  rw [hb, List.inj_on_of_nodup_map table.nodup (List.mem_of_find?_eq_some hb) ha hid]

theorem LiveFleet.inside_eq_some {isHedge : Option Bool} :
    s.inside p = some isHedge ↔
      (runs s.fleet p = true ∨ s.cleared p = true) ∧ s.hedge p = isHedge := by
  unfold LiveFleet.inside
  rw [Option.ite_none_right_eq_some, Bool.or_eq_true, Option.some.injEq]

/-- A preflight is a look at the flags of all others. -/
theorem flags_preflight {w : ℕ} {mode : HedgeMode}
    (hwanted : ∀ p, s.wanted p = true → s.fleet.desired p.2 = .running)
    (h : liveStep cfg table s (.preflight w mode) = some s') :
    RaisedFlags.Step (MayRun table) s.flags s'.flags := by
  obtain ⟨wk, hwk, h⟩ := Option.bind_eq_some_iff.mp h
  split at h
  next strategyId _ _ =>
    split at h
    next => cases h
    next =>
      -- who is inside but has not been looked at was there before
      have hold : ∀ {b : Bool} {hedge : ℕ × ℕ → Option Bool} {p : ℕ × ℕ} {isHedge : Option Bool},
          p ≠ (w, strategyId) → hedge p = s.hedge p →
          LiveFleet.inside ⟨s.fleet, Function.update s.cleared (w, strategyId) b, s.wanted, hedge⟩
            p = some isHedge → s.inside p = some isHedge := by
        intro b hedge p isHedge hp hsame hin
        obtain ⟨hin, hhedge⟩ := LiveFleet.inside_eq_some.mp hin
        dsimp only at hin hhedge
        rw [Function.update_of_ne hp] at hin
        exact LiveFleet.inside_eq_some.mpr ⟨hin, hsame.symm.trans hhedge⟩
      split at h
      next =>
        obtain rfl := Option.some.inj h
        refine ⟨fun p hp => ⟨hwanted p hp, .inl hp⟩, fun p isHedge hin => .inl ?_⟩
        by_cases hp : p = (w, strategyId)
        · obtain ⟨hin, hhedge⟩ := LiveFleet.inside_eq_some.mp hin
          dsimp only at hin hhedge
          rw [hp, Function.update_self, ← hp] at hin
          exact LiveFleet.inside_eq_some.mpr ⟨.inl (hin.resolve_right Bool.false_ne_true), hhedge⟩
        · exact hold hp rfl hin
      next hpassed =>
        obtain rfl := Option.some.inj h
        refine ⟨fun p hp => ⟨hwanted p hp, .inl hp⟩, fun p isHedge hin => ?_⟩
        by_cases hp : p = (w, strategyId)
        · -- the flags that are up now are those the preflight has seen
          right
          rintro q - hup a ha b hb hap hbq hne hlive instrument side otherSide ha' hb'
          have hhedge := (LiveFleet.inside_eq_some.mp hin).2
          dsimp only at hhedge
          rw [hp, Function.update_self] at hhedge
          subst hhedge
          have hid : a.id = strategyId := hap.trans (congrArg Prod.snd hp)
          rw [← hid] at hpassed
          have hrunning : s.fleet.desired b.id = .running := hbq ▸ hup
          exact apart_of_preflight hpassed (StrategyTable.find_eq ha) ha' hb hrunning hlive hne hb'
        · exact .inl (hold hp (Function.update_of_ne hp ..) hin)
  next => cases h

theorem cleared_of_after (h : s.clearedAfter p l = true) : s.cleared p = true := by
  unfold LiveFleet.clearedAfter at h
  split at h
  · exact h
  · split at h
    · cases h
    · exact h
  · exact h

/-- Who runs after a label ran before, or has passed its preflight. -/
theorem runs_of_admits (h : s.admits l fleet = true) (hruns : runs fleet p = true) :
    runs s.fleet p = true ∨ s.cleared p = true := by
  obtain ⟨wk, hwk, hrunning⟩ := (Option.any_eq_true ..).mp hruns
  have hall := List.all_eq_true.mp ((Bool.and_eq_true ..).mp h).1 (wk, p.1)
    (List.mem_zipIdx_iff_getElem?.mpr hwk)
  exact (Bool.or_eq_true ..).mp (List.all_eq_true.mp hall p.2 (of_decide_eq_true hrunning))

/-- Who is checked is not about to be started. -/
theorem cleared_of_checked (h : p ∈ s.checked l) : s.clearedAfter p l = false := by
  unfold LiveFleet.checked at h
  split at h
  · obtain ⟨strategyId, -, rfl⟩ := List.mem_map.mp h
    exact if_pos rfl
  · split at h
    · obtain rfl := List.mem_singleton.mp h
      exact if_pos rfl
    · cases h
  · cases h

/-- A label of the fleet puts nobody inside. -/
theorem flags_fleet (h : liveStep cfg table s (.fleet l) = some s') :
    RaisedFlags.Step (MayRun table) s.flags s'.flags := by
  obtain ⟨fleet, -, h⟩ := Option.bind_eq_some_iff.mp h
  obtain ⟨hadmits, hafter⟩ := Option.ite_none_right_eq_some.mp h
  obtain rfl := Option.some.inj hafter
  refine ⟨fun p hp => ?_, fun p isHedge hin => .inl ?_⟩
  · obtain ⟨hwanted, hdesired⟩ := (Bool.and_eq_true ..).mp hp
    have hup : fleet.desired p.2 = .running := of_decide_eq_true hdesired
    refine ⟨hup, ((Bool.or_eq_true ..).mp hwanted).imp_right fun hnow => ?_⟩
    obtain ⟨hchecked, hidle⟩ := (Bool.and_eq_true ..).mp hnow
    show (if (runs fleet p || s.clearedAfter p l) = true then _ else none) = none
    rw [Bool.eq_false_of_not_eq_true' hidle, cleared_of_checked (of_decide_eq_true hchecked)]
    exact if_neg Bool.false_ne_true
  · obtain ⟨hin, hhedge⟩ := LiveFleet.inside_eq_some.mp hin
    refine LiveFleet.inside_eq_some.mpr ⟨?_, hhedge⟩
    rcases hin with hruns | hcleared
    · exact runs_of_admits hadmits hruns
    · exact .inr (cleared_of_after hcleared)

theorem kept_step {l : LiveLabel} (h : RaisedFlags.Kept (MayRun table) s.flags)
    (hs : liveStep cfg table s l = some s') : RaisedFlags.Kept (MayRun table) s'.flags := by
  cases l with
  | preflight w mode => exact h.step (flags_preflight h.raised hs)
  | fleet l => exact h.step (flags_fleet hs)

theorem kept_run {fleet : Fleet} {labels : List LiveLabel}
    (hrun : Runs.run (liveStep cfg table) (LiveFleet.start fleet) labels = some s) :
    RaisedFlags.Kept (MayRun table) s.flags := by
  refine Runs.run_invariant (fun s l s' h hs => kept_step h hs) ?_ hrun
  exact RaisedFlags.Kept.start fun _ => Bool.false_ne_true

end

/-- What two strategies on one instrument share. -/
structure LegsApart (a b : LiveStrategy) (aHedge bHedge : Option Bool) : Prop where
  legs : ∀ leg ∈ a.ownedLegs, leg ∉ b.ownedLegs
  /-- The later of their preflights has allowed the opposite leg. -/
  allowed : a.allowOppositeLeg aHedge = true ∨ b.allowOppositeLeg bHedge = true

/-- **Legs are not shared** by strategies that are to run since their workers read it. -/
theorem legs_apart {cfg : LifecycleConfig} {table : StrategyTable} {fleet : Fleet}
    {labels : List LiveLabel} {s : LiveFleet}
    (hrun : Runs.run (liveStep cfg table) (LiveFleet.start fleet) labels = some s)
    {a b : LiveStrategy} (ha : a ∈ table.rows) (hb : b ∈ table.rows) (hne : a.id ≠ b.id)
    (halive : a.executionMode = "live") (hblive : b.executionMode = "live")
    {instrument : Instrument} {aSide bSide : String}
    (hakey : strategyLiveLockKey a a.userId = some (instrument, aSide))
    (hbkey : strategyLiveLockKey b b.userId = some (instrument, bSide)) {w v : ℕ}
    (haruns : runs s.fleet (w, a.id) = true) (hbruns : runs s.fleet (v, b.id) = true)
    (hawanted : s.wanted (w, a.id) = true) (hbwanted : s.wanted (v, b.id) = true) :
    LegsApart a b (s.hedge (w, a.id)) (s.hedge (v, b.id)) := by
  have hinside : ∀ {p}, runs s.fleet p = true → s.inside p = some (s.hedge p) :=
    fun h => LiveFleet.inside_eq_some.mpr ⟨.inl h, rfl⟩
  have hpairs : (w, a.id) ≠ (v, b.id) := fun h => hne (congrArg Prod.snd h)
  rcases (kept_run hrun).apart _ _ _ _ hpairs (hinside haruns) (hinside hbruns) hawanted hbwanted
    with h | h
  · obtain ⟨hallowed, hlegs⟩ := h a ha b hb rfl rfl hne.symm hblive _ _ _ hakey hbkey
    exact ⟨hlegs, .inl hallowed⟩
  · obtain ⟨hallowed, hlegs⟩ := h b hb a ha rfl rfl hne halive _ _ _ hbkey hakey
    exact ⟨fun leg hleg hleg' => hlegs leg hleg' hleg, .inr hallowed⟩

/-! ## Runs -/

namespace Example

/-- A strategy on the perpetual of one account. -/
def strategy (id : ℕ) (direction : String) : LiveStrategy where
  id := id
  userId := 1
  marketType := "swap"
  symbol := "BTC/USDT"
  directionValues := [direction]
  resolvedExchange := { exchangeId := "binance", credentialId := 7 }

def instrument : Instrument := ⟨1, .inl 7, "binance", "swap", "BTC/USDT".toList⟩

theorem longKey : strategyLiveLockKey (strategy 1 "long") 1 = some (instrument, "long") := by
  decide +kernel

theorem shortKey : strategyLiveLockKey (strategy 3 "short") 1 = some (instrument, "short") := by
  decide +kernel

def table : StrategyTable where
  rows := [strategy 1 "long", strategy 2 "long", strategy 3 "short"]
  nodup := by decide

def twoWorkers : LiveFleet := LiveFleet.start { workers := [{}, {}] }

def boots (w : ℕ) : List LiveLabel :=
  [.fleet (.worker w (.boots [])), .fleet (.worker w .restores)]

def requestsStart (strategyId : ℕ) : List LiveLabel :=
  [.fleet (.setDesired strategyId .running), .fleet (.enqueue strategyId .start false)]

/-- The worker claims a start and executes it, in an account in hedge mode. -/
def executesStart (w : ℕ) : List LiveLabel :=
  [.fleet (.worker w (.claims [])), .fleet (.worker w .checksStatus), .fleet (.worker w .acquires),
    .preflight w ⟨some true, "binance_hedge_mode"⟩, .fleet (.worker w (.executorStarts true)),
    .fleet (.worker w (.waits true false)), .fleet (.worker w .completes)]

/-- A stop that fails, another start meanwhile, and a start of the first strategy again. -/
def restarts : List LiveLabel :=
  [.fleet (.enqueue 1 .stop false), .fleet (.setDesired 1 .stopped)] ++ requestsStart 2 ++
    [.fleet (.worker 0 (.claims [])), .fleet (.worker 0 (.executorStops .raises)),
      .fleet (.worker 0 .fails)] ++ executesStart 1 ++ requestsStart 1 ++
    [.fleet (.worker 0 (.claims [])), .fleet (.worker 0 .checksStatus),
      .fleet (.worker 0 .completes)]

end Example

/-- A long and a short strategy run side by side. -/
theorem legs_apart_longAndShort : ∃ s : LiveFleet,
    Runs.run (liveStep {} Example.table) Example.twoWorkers
      (Example.boots 0 ++ Example.boots 1 ++ Example.requestsStart 1 ++ Example.executesStart 0 ++
        Example.requestsStart 3 ++ Example.executesStart 1) = some s ∧
    LegsApart (Example.strategy 1 "long") (Example.strategy 3 "short") (s.hedge (0, 1))
      (s.hedge (1, 3)) := by
  obtain ⟨s, hs, hruns, hruns', hwanted, hwanted'⟩ := Runs.exists_of_any
    (p := fun s : LiveFleet => runs s.fleet (0, 1) = true ∧ runs s.fleet (1, 3) = true ∧
      s.wanted (0, 1) = true ∧ s.wanted (1, 3) = true)
    (show (Runs.run (liveStep {} Example.table) Example.twoWorkers
      (Example.boots 0 ++ Example.boots 1 ++ Example.requestsStart 1 ++ Example.executesStart 0 ++
        Example.requestsStart 3 ++ Example.executesStart 1)).any _ = true by decide +kernel)
  exact ⟨s, hs, legs_apart hs (.head _) (.tail _ (.tail _ (.head _))) (by decide) rfl rfl
    Example.longKey Example.shortKey hruns hruns' hwanted hwanted'⟩

/-- A strategy that is asked to start again before its stop went through shares its leg. -/
theorem legs_shared_byRestart : ∃ s : LiveFleet,
    Runs.run (liveStep {} Example.table) Example.twoWorkers
      (Example.boots 0 ++ Example.boots 1 ++ Example.requestsStart 1 ++ Example.executesStart 0 ++
        Example.restarts) = some s ∧
    (runs s.fleet (0, 1) = true ∧ runs s.fleet (1, 2) = true) ∧
    s.fleet.desired 1 = .running ∧ s.fleet.desired 2 = .running ∧
    (Example.strategy 1 "long").ownedLegs = (Example.strategy 2 "long").ownedLegs :=
  Runs.exists_of_any (show (Runs.run (liveStep {} Example.table) Example.twoWorkers
    (Example.boots 0 ++ Example.boots 1 ++ Example.requestsStart 1 ++ Example.executesStart 0 ++
      Example.restarts)).any _ = true by decide +kernel)

end AlgoTrade.LiveGuard
