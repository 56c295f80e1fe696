import AlgoTrade.Lifecycle.Workers
import AlgoTrade.Lib.Lists

/-! # At most one worker runs a strategy

* `workerStep_leaseEffect`: what a worker can do to the leases and to what it runs.
* `leased_step`: a worker that runs or starts a strategy has its lease, as long as
  the lease does not run out and is not given back meanwhile.
* `oneRunner_of_inTime`: then at most one worker runs it.
* `busyHolder_overlaps`: a holder that renews too late keeps the strategy while
  another worker starts it. -/

namespace AlgoTrade.Lifecycle

/-! ## What a worker runs or starts -/

/-- The strategy whose lease the worker has acquired and which it is about to start. -/
def WorkerPhase.acquired : WorkerPhase → List ℕ
  | .restoreAcquired strategyId _ => [strategyId]
  | .executing j .acquired => [j.strategyId]
  | _ => []

/-- The strategy whose lease the worker is about to give back. -/
def WorkerPhase.gives : WorkerPhase → Option ℕ
  | .restoreReleases strategyId _ | .shutdownReleases strategyId _ => some strategyId
  | .executing j (.releases _) => some j.strategyId
  | _ => none

/-- The statement `release_strategy_lease`. -/
def WorkerLabel.isRelease : WorkerLabel → Bool
  | .releases | .restoreReleases | .shutdownReleases => true
  | _ => false

def Worker.held (wk : Worker) : List ℕ := wk.running ++ wk.phase.acquired

namespace Fleet

variable (s : Fleet)

/-- At most one worker has a strategy among its running strategies. -/
def OneRunner : Prop :=
  ∀ (w v : ℕ) (a b : Worker), s.workers[w]? = some a → s.workers[v]? = some b →
    ∀ strategyId ∈ a.running, strategyId ∈ b.running → w = v

/-- No lease runs out while its worker runs or starts the strategy, and a worker
gives no lease back of a strategy it still runs. -/
def InTime : FleetLabel → Prop
  | .tick seconds => ∀ wk ∈ s.workers, ∀ strategyId ∈ wk.held, ∀ l ∈ s.leases strategyId,
      s.clock + seconds ≤ l.leaseExpiresAt
  | .worker w l => l.isRelease = true →
      ∀ wk ∈ s.workers[w]?, ∀ strategyId ∈ wk.phase.gives, strategyId ∉ wk.running
  | _ => True

/-- No worker has been started. -/
def Offline : Prop := ∀ wk ∈ s.workers, wk.running = [] ∧ wk.phase = .offline

/-- Whatever a worker runs or starts, it has the lease of. -/
def Leased : Prop :=
  ∀ (w : ℕ) (wk : Worker), s.workers[w]? = some wk → ∀ strategyId ∈ wk.held,
    ∃ l, s.leases strategyId = some l ∧ l.ownerId = w ∧ s.clock ≤ l.leaseExpiresAt

end Fleet

/-! ## What a worker's step can do -/

/-- A step of worker `w` leaves the leases, takes or renews one, or gives one back. -/
inductive LeaseEffect (s : Fleet) (w : ℕ) (wk wk' : Worker) (l : WorkerLabel) (s' : Fleet) : Prop
  | keeps (leases : s'.leases = s.leases) (held : ∀ strategyId ∈ wk'.held, strategyId ∈ wk.held)
  | takes (strategyId : ℕ) (lease : Lease)
      (free : ∀ lease, s.leases strategyId = some lease →
        lease.ownerId = w ∨ lease.leaseExpiresAt < s.clock)
      (owner : lease.ownerId = w) (expires : s.clock ≤ lease.leaseExpiresAt)
      (leases : s'.leases = Function.update s.leases strategyId (some lease))
      (held : ∀ other ∈ wk'.held, other ∈ wk.held ∨ other = strategyId)
  | gives (strategyId : ℕ) (gives : wk.phase.gives = some strategyId) (release : l.isRelease = true)
      (leases : s'.leases =
        Function.update s.leases strategyId (releaseStrategyLease w (s.leases strategyId)))
      (held : wk'.held = wk.running)

/-- The worker after the step, and its effect on the leases. -/
def Fleet.ActsAs (s : Fleet) (w : ℕ) (wk : Worker) (l : WorkerLabel) (s' : Fleet) : Prop :=
  ∃ wk', s'.workers = s.workers.set w wk' ∧ s'.clock = s.clock ∧ LeaseEffect s w wk wk' l s'

section
variable {cfg : LifecycleConfig} {s s' : Fleet} {w : ℕ} {wk : Worker} {l : WorkerLabel}

theorem mem_held {wk : Worker} {strategyId : ℕ} (h : strategyId ∈ wk.running) :
    strategyId ∈ wk.held := List.mem_append_left _ h

/-- The worker runs no more than before and starts nothing. -/
theorem actsAs_setWorker {wk' : Worker} {phase : WorkerPhase} (hphase : phase.acquired = [])
    (hrunning : ∀ strategyId ∈ wk'.running, strategyId ∈ wk.running) :
    s.ActsAs w wk l (s.setWorker w wk' phase) := by
  refine ⟨{ wk' with phase }, rfl, rfl, .keeps rfl fun strategyId h => ?_⟩
  rcases List.mem_append.mp h with h | h
  · exact mem_held (hrunning strategyId h)
  · change strategyId ∈ phase.acquired at h
    rw [hphase] at h
    cases h

theorem actsAs_idle : s.ActsAs w wk l (s.setWorker w wk .idle) := actsAs_setWorker rfl fun _ h => h

theorem actsAs_acquires {strategyId : ℕ} {acquired refused : WorkerPhase}
    (hacquired : acquired.acquired = [strategyId]) (hrefused : refused.acquired = []) :
    s.ActsAs w wk l (s.acquires cfg w wk strategyId acquired refused) := by
  unfold Fleet.acquires
  split
  next lease hlease =>
    obtain ⟨howner, hexpires⟩ := owner_acquireStrategyLease hlease
    refine ⟨{ wk with phase := acquired }, rfl, rfl,
      .takes strategyId lease ?_ howner (hexpires ▸ Nat.le_add_right _ _) rfl ?_⟩
    · intro l hl
      by_contra hnot
      rw [not_or, Nat.not_lt] at hnot
      have hnone : acquireStrategyLease cfg s.clock w (s.leases strategyId) = none :=
        acquireStrategyLease_eq_none.mpr ⟨l, hl, hnot⟩
      rw [hnone] at hlease
      cases hlease
    · intro other hother
      rcases List.mem_append.mp hother with h | h
      · exact .inl (mem_held h)
      · change other ∈ acquired.acquired at h
        rw [hacquired] at h
        exact .inr (List.mem_singleton.mp h)
  next => exact actsAs_setWorker hrefused fun _ h => h

/-- The strategy the worker has acquired is running. -/
theorem actsAs_starts {strategyId : ℕ} {phase : WorkerPhase} (hphase : phase.acquired = [])
    (hwk : strategyId ∈ wk.phase.acquired) :
    s.ActsAs w wk l (s.setWorker w { wk with running := strategyId :: wk.running } phase) := by
  refine ⟨_, rfl, rfl, .keeps rfl fun other h => ?_⟩
  rcases List.mem_append.mp h with h | h
  · rcases List.mem_cons.mp h with rfl | h
    · exact List.mem_append_right _ hwk
    · exact mem_held h
  · change other ∈ phase.acquired at h
    rw [hphase] at h
    cases h

theorem actsAs_releases {strategyId : ℕ} {phase : WorkerPhase} (hphase : phase.acquired = [])
    (hwk : wk.phase.gives = some strategyId) (hl : l.isRelease = true) :
    s.ActsAs w wk l ((s.setWorker w wk phase).releases w strategyId) := by
  refine ⟨{ wk with phase }, rfl, rfl, .gives strategyId hwk hl rfl ?_⟩
  show wk.running ++ phase.acquired = wk.running
  rw [hphase, List.append_nil]

/-- The effect does not depend on the commands and the desired statuses. -/
theorem Fleet.ActsAs.congr {t : Fleet} (h : s.ActsAs w wk l t) (hworkers : s'.workers = t.workers)
    (hclock : s'.clock = t.clock) (hleases : s'.leases = t.leases) : s.ActsAs w wk l s' := by
  obtain ⟨wk', hset, hc, heffect⟩ := h
  refine ⟨wk', hworkers.trans hset, hclock.trans hc, ?_⟩
  cases heffect with
  | keeps leases held => exact .keeps (hleases.trans leases) held
  | takes strategyId lease free owner expires leases held =>
    exact .takes strategyId lease free owner expires (hleases.trans leases) held
  | gives strategyId gives release leases held =>
    exact .gives strategyId gives release (hleases.trans leases) held

theorem failJob_frame (j : Job) :
    (s.failJob cfg j).workers = s.workers ∧ (s.failJob cfg j).clock = s.clock ∧
      (s.failJob cfg j).leases = s.leases := by
  unfold Fleet.failJob
  split
  · exact ⟨rfl, rfl, rfl⟩
  · split <;> exact ⟨rfl, rfl, rfl⟩

theorem executorStops_actsAs {j : Job} (outcome : StopOutcome) :
    s.ActsAs w wk l (s.executorStops w wk j outcome) := by
  cases outcome with
  | raises => exact actsAs_setWorker rfl fun _ h => h
  | stopFailed =>
    refine actsAs_setWorker ?_ fun _ h => h
    split <;> rfl
  | stopped closed =>
    have hdrops : ∀ next, s.ActsAs w wk l
        (s.setWorker w (wk.drops j.strategyId) (.executing j (.releases next))) :=
      fun next => actsAs_setWorker rfl fun _ h => (List.mem_filter.mp h).1
    unfold Fleet.executorStops
    dsimp only
    split
    · exact (hdrops _).congr rfl rfl rfl
    · exact hdrops _

theorem executeStep_actsAs {j : Job} {stage : Stage}
    (hphase : wk.phase = .executing j stage) (h : executeStep cfg s w wk j stage l = some s') :
    s.ActsAs w wk l s' := by
  unfold executeStep at h
  split at h
  -- `startChecks`
  · obtain rfl := Option.some.inj h
    refine actsAs_setWorker ?_ fun _ h => h
    split <;> rfl
  -- `acquires`
  · obtain rfl := Option.some.inj h
    exact actsAs_acquires rfl rfl
  -- `acquired`
  · split at h
    · obtain rfl := Option.some.inj h
      refine actsAs_starts rfl ?_
      rw [hphase]
      exact List.mem_singleton_self _
    · obtain rfl := Option.some.inj h
      exact actsAs_setWorker rfl fun _ h => h
  -- `started`
  · split at h
    · obtain rfl := Option.some.inj h
      exact actsAs_setWorker rfl fun _ h => h
    · obtain rfl := Option.some.inj h
      exact actsAs_setWorker rfl fun _ h => mem_of_mem_dropsIf h
  -- `stops`
  · obtain rfl := Option.some.inj h
    exact executorStops_actsAs _
  -- `releases`
  · obtain rfl := Option.some.inj h
    next next =>
      refine actsAs_releases ?_ (by rw [hphase]; rfl) rfl
      cases next <;> rfl
  -- `completes`
  · obtain rfl := Option.some.inj h
    exact actsAs_idle.congr rfl rfl rfl
  -- `fails`
  · obtain rfl := Option.some.inj h
    obtain ⟨hworkers, hclock, hleases⟩ := @failJob_frame cfg (s.setWorker w wk .idle) j
    exact actsAs_idle.congr hworkers hclock hleases
  · cases h
  -- an exception
  · obtain rfl := Option.some.inj h
    exact actsAs_setWorker rfl fun _ h => h
  · cases h

theorem actsAs_renews {strategyId : ℕ} {todo : List ℕ} {lease : Lease}
    (h : renewStrategyLease cfg s.clock w (s.leases strategyId) = some lease) :
    s.ActsAs w wk l ((s.setWorker w wk (.renewing todo)).setLease strategyId (some lease)) := by
  obtain ⟨⟨l₀, hl₀, hown⟩, howner, hexpires⟩ := renewStrategyLease_eq_some h
  refine ⟨{ wk with phase := .renewing todo }, rfl, rfl,
    .takes strategyId lease ?_ howner (hexpires ▸ Nat.le_add_right _ _) rfl ?_⟩
  · intro l hl
    rw [hl₀] at hl
    exact .inl (Option.some.inj hl ▸ hown)
  · intro other hother
    rcases List.mem_append.mp hother with h | h
    · exact .inl (mem_held h)
    · cases h

theorem workerStep_actsAs (h : workerStep cfg s w wk wk.phase l = some s') :
    s.ActsAs w wk l s' := by
  have hnothing : ∀ strategyId, strategyId ∈ ([] : List ℕ) → strategyId ∈ wk.running :=
    fun _ hmem => by cases hmem
  unfold workerStep at h
  split at h
  -- `runtimeExits`
  · split at h
    · obtain rfl := Option.some.inj h
      refine ⟨_, rfl, rfl, .keeps rfl fun other hother => ?_⟩
      rcases List.mem_append.mp hother with hmem | hmem
      · exact mem_held (List.mem_filter.mp hmem).1
      · exact List.mem_append_right _ hmem
    · cases h
  -- `crashes`
  · obtain rfl := Option.some.inj h
    exact actsAs_setWorker rfl hnothing
  -- `boots`
  · obtain rfl := Option.some.inj h
    exact actsAs_setWorker rfl hnothing
  · cases h
  -- `shutsDown`
  · obtain rfl := Option.some.inj h
    exact actsAs_setWorker rfl fun _ h => h
  -- `restores`
  · obtain rfl := Option.some.inj h
    exact actsAs_idle
  · obtain rfl := Option.some.inj h
    exact actsAs_acquires rfl rfl
  -- `restoreStarts`
  · next hphase =>
    split at h
    · obtain rfl := Option.some.inj h
      refine actsAs_starts rfl ?_
      rw [hphase]
      exact List.mem_singleton_self _
    · obtain rfl := Option.some.inj h
      exact actsAs_setWorker rfl fun _ h => h
  -- `restoreReleases`
  · next hphase =>
    obtain rfl := Option.some.inj h
    exact (actsAs_releases rfl (by rw [hphase]; rfl) rfl).congr rfl rfl rfl
  -- `renewBegins`
  · split at h
    · obtain rfl := Option.some.inj h
      exact actsAs_setWorker rfl fun _ h => h
    · cases h
  -- `renews`
  · obtain rfl := Option.some.inj h
    exact actsAs_idle
  · obtain rfl := Option.some.inj h
    exact actsAs_setWorker rfl fun _ h => h
  · split at h
    next hrenewed =>
      obtain rfl := Option.some.inj h
      exact actsAs_renews hrenewed
    next =>
      obtain rfl := Option.some.inj h
      exact actsAs_setWorker rfl fun _ h => h
  -- `stopsLost`
  · obtain rfl := Option.some.inj h
    exact actsAs_setWorker rfl fun _ h => mem_of_mem_dropsIf h
  -- `claims`
  · obtain ⟨i, -, hmap⟩ := Option.bind_eq_some_iff.mp h
    obtain ⟨c, -, rfl⟩ := Option.map_eq_some_iff.mp hmap
    have hclaimed : ∀ l, s.ActsAs w wk l (s.setWorker w wk (.executing
        ⟨i, c.strategyId, c.commandType, c.closePositions, c.attempts + 1⟩ c.commandType.stage)) := by
      intro l
      refine actsAs_setWorker ?_ fun _ h => h
      cases c.commandType <;> rfl
    exact (hclaimed _).congr rfl rfl rfl
  -- `executing`
  · exact executeStep_actsAs (by assumption) h
  -- `shutdownStops`
  · obtain rfl := Option.some.inj h
    exact actsAs_setWorker rfl hnothing
  · obtain rfl := Option.some.inj h
    exact actsAs_setWorker rfl fun _ h => mem_of_mem_dropsIf h
  -- `shutdownReleases`
  · next hphase =>
    obtain rfl := Option.some.inj h
    exact actsAs_releases rfl (by rw [hphase]; rfl) rfl
  · cases h

/-! ## Leases and running strategies -/

/-- An effect of a worker that gives back no lease it needs keeps every worker's
strategies leased. -/
theorem Fleet.Leased.acts (hs : s.Leased) (hwk : s.workers[w]? = some wk)
    (hgives : l.isRelease = true → ∀ strategyId ∈ wk.phase.gives, strategyId ∉ wk.running) (h : s.ActsAs w wk l s') :
    s'.Leased := by
  obtain ⟨wk', hset, hclock, heffect⟩ := h
  intro v b hb strategyId hheld
  rw [hset] at hb
  rw [hclock]
  cases heffect with
  | keeps leases held =>
    rw [leases]
    rcases List.getElem?_set_cases hb with ⟨rfl, rfl⟩ | ⟨-, hb⟩
    · exact hs v wk hwk strategyId (held strategyId hheld)
    · exact hs v b hb strategyId hheld
  | takes taken lease free owner expires leases held =>
    rw [leases]
    by_cases heq : strategyId = taken
    · subst heq
      rw [Function.update_self]
      rcases List.getElem?_set_cases hb with ⟨rfl, rfl⟩ | ⟨hne, hb⟩
      · exact ⟨lease, rfl, owner, expires⟩
      · -- another worker's lease is neither the taker's nor expired
        obtain ⟨l, hl, hown, hle⟩ := hs v b hb strategyId hheld
        rcases free l hl with hw | hlt
        · exact absurd (hown.symm.trans hw) hne
        · omega
    · rw [Function.update_of_ne heq]
      rcases List.getElem?_set_cases hb with ⟨rfl, rfl⟩ | ⟨-, hb⟩
      · exact hs v wk hwk strategyId ((held strategyId hheld).resolve_right heq)
      · exact hs v b hb strategyId hheld
  | gives given hgiven release leases held =>
    rw [leases]
    by_cases heq : strategyId = given
    · subst heq
      rcases List.getElem?_set_cases hb with ⟨rfl, rfl⟩ | ⟨hne, hb⟩
      · rw [held] at hheld
        exact absurd hheld (hgives release strategyId hgiven)
      · obtain ⟨l, hl, hown, hle⟩ := hs v b hb strategyId hheld
        refine ⟨l, ?_, hown, hle⟩
        rw [Function.update_self, hl]
        exact releaseStrategyLease_of_ne (by omega)
    · rw [Function.update_of_ne heq]
      rcases List.getElem?_set_cases hb with ⟨rfl, rfl⟩ | ⟨-, hb⟩
      · rw [held] at hheld
        exact hs v wk hwk strategyId (mem_held hheld)
      · exact hs v b hb strategyId hheld

/-- **One label.**  As long as the leases are in time, every running strategy stays
leased. -/
theorem leased_step {l : FleetLabel} (hs : s.Leased) (hin : s.InTime l)
    (h : fleetStep cfg s l = some s') : s'.Leased := by
  cases l with
  | tick seconds =>
    obtain rfl := Option.some.inj h
    intro v b hb strategyId hheld
    obtain ⟨l, hl, hown, -⟩ := hs v b hb strategyId hheld
    exact ⟨l, hl, hown, hin b (List.mem_of_getElem? hb) strategyId hheld l hl⟩
  | setDesired strategyId status =>
    obtain rfl := Option.some.inj h
    exact hs
  | enqueue strategyId commandType closePositions =>
    obtain rfl := Option.some.inj h
    exact hs
  | failExhausted =>
    obtain rfl := Option.some.inj h
    exact hs
  | cleanupLeases =>
    obtain rfl := Option.some.inj h
    intro v b hb strategyId hheld
    obtain ⟨l, hl, hown, hle⟩ := hs v b hb strategyId hheld
    refine ⟨l, ?_, hown, hle⟩
    show (s.leases strategyId).filter _ = some l
    rw [hl, Option.filter_some, if_pos]
    exact decide_eq_true (Nat.le_add_right_of_le hle)
  | worker w l =>
    obtain ⟨wk, hwk, hstep⟩ := Option.bind_eq_some_iff.mp h
    exact hs.acts hwk (fun hl => hin hl wk hwk) (workerStep_actsAs hstep)

theorem Fleet.Offline.leased (h : s.Offline) : s.Leased := by
  intro w wk hwk strategyId hheld
  obtain ⟨hrunning, hphase⟩ := h wk (List.mem_of_getElem? hwk)
  unfold Worker.held at hheld
  rw [hrunning, hphase] at hheld
  cases hheld

theorem Fleet.Leased.oneRunner (h : s.Leased) : s.OneRunner := by
  intro w v a b ha hb strategyId hina hinb
  obtain ⟨l, hl, hown, -⟩ := h w a ha strategyId (mem_held hina)
  obtain ⟨l', hl', hown', -⟩ := h v b hb strategyId (mem_held hinb)
  rw [hl, Option.some.injEq] at hl'
  exact hown.symm.trans (hl' ▸ hown')

/-- **At most one worker runs a strategy**, in every run in which no lease runs out,
or is given back, while its worker runs or starts the strategy. -/
theorem oneRunner_of_inTime {ls : List FleetLabel} (hs : s.Offline)
    (hin : Runs.AllSteps (fleetStep cfg) Fleet.InTime s ls)
    (hrun : Runs.run (fleetStep cfg) s ls = some s') : s'.OneRunner :=
  (Runs.run_invariant_of_allSteps (fun _ _ _ h hi hstep => leased_step h hi hstep) hs.leased hin
    hrun).oneRunner

end

/-! ## Two workers -/

instance (s : Fleet) : ∀ l, Decidable (s.InTime l)
  | .tick seconds => inferInstanceAs (Decidable (∀ wk ∈ s.workers, ∀ strategyId ∈ wk.held,
      ∀ l ∈ s.leases strategyId, s.clock + seconds ≤ l.leaseExpiresAt))
  | .worker w l => inferInstanceAs (Decidable (l.isRelease = true →
      ∀ wk ∈ s.workers[w]?, ∀ strategyId ∈ wk.phase.gives, strategyId ∉ wk.running))
  | .setDesired .. | .enqueue .. | .failExhausted | .cleanupLeases =>
    inferInstanceAs (Decidable True)

def twoWorkers : Fleet where
  workers := [{}, {}]

theorem offline_twoWorkers : twoWorkers.Offline := by
  intro wk hwk
  simp only [twoWorkers, List.mem_cons, List.not_mem_nil, or_false, or_self] at hwk
  subst hwk
  exact ⟨rfl, rfl⟩

/-- The strategy is to run, and the first worker starts it. -/
def firstStarts : List FleetLabel :=
  [.worker 0 (.boots []), .worker 0 .restores, .worker 1 (.boots []), .worker 1 .restores,
   .setDesired 7 .running, .enqueue 7 .start false, .worker 0 (.claims []),
   .worker 0 .checksStatus, .worker 0 .acquires, .worker 0 (.executorStarts true),
   .worker 0 (.waits true true), .worker 0 .completes]

/-- A restart request that the second worker executes as soon as it may claim it. -/
def secondStarts : List FleetLabel :=
  [.enqueue 7 .restart false, .worker 1 (.claims []), .worker 1 (.executorStops (.stopped false)),
   .worker 1 .releases, .worker 1 .checksStatus, .worker 1 .acquires,
   .worker 1 (.executorStarts true)]

theorem oneRunner_of_inTime_renewed :
    ∃ s, Runs.run (fleetStep {}) twoWorkers (firstStarts ++
        [.tick 20, .worker 0 .renewBegins, .worker 0 (.renews false), .worker 0 (.renews false),
         .tick 20, .enqueue 7 .start false, .worker 1 (.claims []), .worker 1 .checksStatus,
         .worker 1 .acquires]) = some s ∧ s.OneRunner := by
  obtain ⟨s, hs⟩ := Option.isSome_iff_exists.mp
    (show (Runs.run (fleetStep {}) twoWorkers (firstStarts ++
      [.tick 20, .worker 0 .renewBegins, .worker 0 (.renews false), .worker 0 (.renews false),
       .tick 20, .enqueue 7 .start false, .worker 1 (.claims []), .worker 1 .checksStatus,
       .worker 1 .acquires])).isSome by decide +kernel)
  exact ⟨s, hs, oneRunner_of_inTime offline_twoWorkers (by decide +kernel) hs⟩

/-- The first worker is kept busy for longer than its lease. -/
theorem busyHolder_overlaps :
    ∃ s, Runs.run (fleetStep {}) twoWorkers (firstStarts ++ [.tick 31] ++ secondStarts) = some s ∧
      ¬ s.OneRunner := by
  obtain ⟨s, hs, hfirst, hsecond⟩ : ∃ s,
      Runs.run (fleetStep {}) twoWorkers (firstStarts ++ [.tick 31] ++ secondStarts) = some s ∧
        (s.workers[0]?).map Worker.running = some [7] ∧
          (s.workers[1]?).map Worker.running = some [7] := Runs.exists_of_any (by decide +kernel)
  refine ⟨s, hs, fun hone => ?_⟩
  obtain ⟨a, ha, hina⟩ := Option.map_eq_some_iff.mp hfirst
  obtain ⟨b, hb, hinb⟩ := Option.map_eq_some_iff.mp hsecond
  have := hone 0 1 a b ha hb 7 (by rw [hina]; decide) (by rw [hinb]; decide)
  omega

end AlgoTrade.Lifecycle
