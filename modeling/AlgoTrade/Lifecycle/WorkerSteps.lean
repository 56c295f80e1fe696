import AlgoTrade.Lifecycle.RequestSteps

/-! # The steps of a worker under requests

* `Inv.goesOn`: a worker goes on with its command.
* `Inv.acquires`, `Inv.executorStops`, `Inv.releases`: the lease and the executor.
* `Inv.result`: the worker is done with its command.
* `Inv.claims`, `Inv.renews`: it claims one, or renews a lease. -/

namespace AlgoTrade.Lifecycle.Control

variable {cfg : LifecycleConfig} {strategyId : ℕ} {d d' : Control} {w : ℕ} {wk u : Worker}
  {j : Job} {stage : Stage}

/-! ## Steps of a worker -/

theorem runs_set (hworkers : d'.fleet.workers = d.fleet.workers.set w u)
    (h : d'.Runs strategyId) : d.Runs strategyId ∨ strategyId ∈ u.running := by
  obtain ⟨b, hb, hrunning⟩ := h
  rw [hworkers] at hb
  rcases List.mem_or_eq_of_mem_set hb with hb | rfl
  · exact .inl ⟨b, hb, hrunning⟩
  · exact .inr hrunning

/-- A worker that runs no more than before. -/
theorem runs_of_set (hwk : d.fleet.workers[w]? = some wk)
    (hworkers : d'.fleet.workers = d.fleet.workers.set w u)
    (hrunning : strategyId ∈ u.running → strategyId ∈ wk.running)
    (h : d'.Runs strategyId) : d.Runs strategyId := by
  rcases runs_set hworkers h with h | h
  · exact h
  · exact ⟨wk, List.mem_of_getElem? hwk, hrunning h⟩

theorem runs_of_worker (hwk : d.fleet.workers[w]? = some wk)
    (hworkers : d'.fleet.workers = d.fleet.workers.set w u)
    (hrunning : strategyId ∈ wk.running → strategyId ∈ u.running)
    (h : d.Runs strategyId) : d'.Runs strategyId := by
  obtain ⟨b, hb, hmem⟩ := h
  obtain ⟨v, hv⟩ := List.mem_iff_getElem?.mp hb
  have hlt : w < d.fleet.workers.length := (List.getElem?_eq_some_iff.mp hwk).1
  by_cases hvw : v = w
  · subst hvw
    obtain rfl : wk = b := Option.some.inj (hwk.symm.trans hv)
    refine ⟨u, ?_, hrunning hmem⟩
    rw [hworkers]
    exact List.mem_set hlt _
  · refine ⟨b, ?_, hmem⟩
    rw [hworkers]
    refine List.mem_of_getElem? (i := v) ?_
    rw [List.getElem?_set_ne (Ne.symm hvw), hv]

/-- A step that leaves the leases and the commands. -/
theorem Acts.quiet (hwk : d.fleet.workers[w]? = some wk)
    (hworkers : d'.fleet.workers = d.fleet.workers.set w u)
    (hcommands : d'.fleet.commands = d.fleet.commands) (hclock : d'.fleet.clock = d.fleet.clock)
    (hleases : d'.fleet.leases = d.fleet.leases) (hclosed : d.closed = true → d'.closed = true)
    (hruns : strategyId ∈ u.running → strategyId ∈ wk.running ∨ wk.executesStart)
    (hjobs : ∀ j st, u.phase = .executing j st → ∃ st', wk.phase = .executing j st') :
    d.Acts strategyId d' w wk u := by
  refine ⟨hworkers, ?_, ?_, ?_, hclosed, ?_, fun j st hj => .inl (hjobs j st hj)⟩
  · rintro v - ⟨l, hl, howner, hle⟩
    exact ⟨l, by rw [hleases, hl], howner, by rw [hclock]; exact hle⟩
  · intro l hl
    rw [hleases] at hl
    exact .inl ⟨l, hl, rfl⟩
  · intro h
    rcases runs_set hworkers h with h | h
    · exact .inl h
    · exact (hruns h).imp_left fun hrunning => ⟨wk, List.mem_of_getElem? hwk, hrunning⟩
  · intro i c hc _ _
    rw [hcommands, hc]

/-- A step of a worker after which the same commands are open. -/
theorem Inv.keepsOpen (h : d.Inv strategyId) (hwk : d.fleet.workers[w]? = some wk)
    (ha : d.Acts strategyId d' w wk u) (hok : d'.WorkerOk strategyId w u)
    (hviews : d'.views = d.views)
    (hunexpired : ∀ c ∈ d'.fleet.commands, c.status = .processing →
      ∃ t, c.leaseExpiresAt = some t ∧ d'.fleet.clock ≤ t)
    (hlease : ∀ l, d'.fleet.leases strategyId = some l → d'.fleet.clock ≤ l.leaseExpiresAt)
    (hmode : d'.Mode strategyId) : d'.Inv strategyId := by
  refine h.acts hwk ha hok ?_ hunexpired hlease ?_ hmode
  · rw [hviews]
    exact h.ours
  · rw [hviews]
    exact h.oneOpen

/-- A step of a worker that leaves the commands. -/
theorem Inv.moves (h : d.Inv strategyId) (hwk : d.fleet.workers[w]? = some wk)
    (ha : d.Acts strategyId d' w wk u) (hok : d'.WorkerOk strategyId w u)
    (hcommands : d'.fleet.commands = d.fleet.commands) (hclock : d'.fleet.clock = d.fleet.clock)
    (hlease : ∀ l, d'.fleet.leases strategyId = some l → d.fleet.clock ≤ l.leaseExpiresAt)
    (hmode : d'.Mode strategyId) : d'.Inv strategyId := by
  refine h.keepsOpen hwk ha hok (congrArg (List.map Command.view) hcommands) ?_ ?_ hmode
  · rw [hcommands, hclock]
    exact h.unexpired
  · rw [hclock]
    exact hlease

theorem JobOk.type (h : d.JobOk strategyId w wk j stage) :
    j.commandType = .start ∨ j.commandType = .stop := by
  have hst := h.stages
  cases htype : j.commandType with
  | start => exact .inl rfl
  | stop => exact .inr rfl
  | restart => rw [htype] at hst; cases hst
  | reconcile => rw [htype] at hst; cases hst

/-- The command being executed tells which request was last. -/
theorem JobOk.hasOpen_of_last (h : d.JobOk strategyId w wk j stage) (hm : d.Mode strategyId) :
    (d.lastStart = true → HasOpen .start d.views) ∧ (d.lastStart = false → HasOpen .stop d.views) := by
  have hopen := h.hasOpen
  rcases h.type with htype | htype <;> rw [htype] at hopen
  · refine ⟨fun _ => hopen, fun hlast => ?_⟩
    rw [hm.lastStart_of_open hopen] at hlast
    cases hlast
  · refine ⟨fun hlast => ?_, fun _ => hopen⟩
    rw [hm.lastStop_of_open hopen] at hlast
    cases hlast

/-- A worker that starts a strategy has the lease it counts on. -/
theorem JobOk.executesStart (h : d.JobOk strategyId w wk j stage)
    (hphase : wk.phase = .executing j stage) {i : ℕ} (hi : i ∈ wk.phase.needs) :
    wk.executesStart := by
  have hst := h.stages
  refine ⟨j, stage, hphase, h.type.resolve_right fun hstop => ?_⟩
  rw [hstop] at hst
  rw [hphase] at hi
  simp only [CommandType.stages, List.mem_cons, List.not_mem_nil, or_false] at hst
  rcases hst with rfl | rfl | rfl | rfl <;> cases hi

/-- A worker goes on with its command. -/
theorem Inv.goesOn {c : Bool} {stage' : Stage} (h : d.Inv strategyId)
    (hwk : d.fleet.workers[w]? = some wk) (hphase : wk.phase = .executing j stage)
    (hclosed : d.closed = true → c = true)
    (hrunning : ∀ i ∈ u.running, i ∈ wk.running ∨ i ∈ wk.phase.needs)
    (hstages : stage' ∈ j.commandType.stages) (hacquired : stage' ≠ .acquired)
    (hstops : stage' ≠ .stops)
    (habsent : stage' ∈ [.acquires, .acquired, .releases .fails, .releases .completes] →
      strategyId ∉ u.running)
    (hup : j.commandType = .start → stage' = .completes → strategyId ∈ u.running)
    (hdown : j.commandType = .stop → stage' ∈ [.releases .completes, .completes] →
      (∀ v b, v ≠ w → d.fleet.workers[v]? = some b → strategyId ∉ b.running) ∧
        strategyId ∉ u.running ∧ (j.closes = true → c = true)) :
    Control.Inv strategyId
      { d with fleet := d.fleet.setWorker w u (.executing j stage'), closed := c } := by
  have hok := h.workers w wk hwk
  have hj := hok.job j stage hphase
  have hneeds : (WorkerPhase.executing j stage').needs = [] := by
    cases stage' with
    | acquired => exact absurd rfl hacquired
    | startChecks => rfl
    | acquires => rfl
    | started => rfl
    | stops => rfl
    | releases => rfl
    | completes => rfl
    | fails => rfl
  refine h.moves (u := { u with phase := .executing j stage' }) hwk
    (Acts.quiet hwk rfl rfl rfl rfl hclosed (fun hmem => ?_) (fun k st hk => ?_)) ⟨rfl, ?_, ?_⟩
    rfl rfl h.lease ?_
  · exact (hrunning _ hmem).imp_right fun hmem => hj.executesStart hphase hmem
  · cases hk
    exact ⟨stage, hphase⟩
  · intro i hi
    rw [hneeds, List.append_nil] at hi
    exact hok.needs i (List.mem_append.mpr (hrunning i hi))
  · intro k st hk
    cases hk
    refine ⟨hj.strategy, hj.row, hstages, habsent, hup, fun heq => absurd heq hstops, ?_⟩
    intro htype hst
    obtain ⟨hothers, hself, hcl⟩ := hdown htype hst
    refine ⟨?_, hcl⟩
    rintro ⟨b, hb, hmem⟩
    obtain ⟨v, hv⟩ := List.mem_iff_getElem?.mp hb
    rcases List.getElem?_set_cases hv with ⟨-, rfl⟩ | ⟨hne, hv⟩
    · exact hself hmem
    · exact hothers v b hne hv hmem
  · exact h.mode.frame rfl rfl rfl rfl rfl hclosed
      (fun hlast => .inl ((hj.hasOpen_of_last h.mode).1 hlast))
      (fun hlast => .inl ((hj.hasOpen_of_last h.mode).2 hlast))

theorem JobOk.isStart (h : d.JobOk strategyId w wk j stage)
    (hst : stage ∈ [.startChecks, .acquires, .acquired, .started]) : j.commandType = .start := by
  have hmem := h.stages
  refine h.type.resolve_right fun hstop => ?_
  rw [hstop] at hmem
  simp only [CommandType.stages, List.mem_cons, List.not_mem_nil, or_false] at hmem
  rcases hmem with rfl | rfl | rfl | rfl <;> simp at hst

theorem JobOk.isStop (h : d.JobOk strategyId w wk j .stops) : j.commandType = .stop := by
  have hmem := h.stages
  refine h.type.resolve_left fun hstart => ?_
  rw [hstart] at hmem
  simp [CommandType.stages] at hmem

theorem JobOk.fails_mem (h : d.JobOk strategyId w wk j stage) :
    Stage.fails ∈ j.commandType.stages := by
  rcases h.type with htype | htype <;>
  · rw [htype]
    simp [CommandType.stages]

/-- An exception, or an executor that fails: the command is about to fail. -/
theorem Inv.toFails {c : Bool} (h : d.Inv strategyId) (hwk : d.fleet.workers[w]? = some wk)
    (hphase : wk.phase = .executing j stage) (hclosed : d.closed = true → c = true) :
    Control.Inv strategyId
      { d with fleet := d.fleet.setWorker w wk (.executing j .fails), closed := c } :=
  h.goesOn hwk hphase hclosed (fun _ hi => .inl hi) ((h.workers w wk hwk).job j stage hphase).fails_mem
    (by decide) (by decide) (fun hmem => by simp at hmem) (fun _ heq => by cases heq)
    (fun _ hmem => by simp at hmem)

theorem Inv.checksStatus {c : Bool} (h : d.Inv strategyId) (hwk : d.fleet.workers[w]? = some wk)
    (hphase : wk.phase = .executing j .startChecks) (hclosed : d.closed = true → c = true) :
    Control.Inv strategyId
      { d with
        fleet := d.fleet.setWorker w wk (.executing j
          (if d.fleet.desired j.strategyId = .stopped ∨ j.strategyId ∈ wk.running then .completes
           else .acquires))
        closed := c } := by
  have hj := (h.workers w wk hwk).job j _ hphase
  have htype := hj.isStart (by simp)
  have hopen := hj.hasOpen
  rw [htype] at hopen
  have hdesired := (h.mode.started (h.mode.lastStart_of_open hopen)).1
  have hrunning : ∀ i ∈ wk.running, i ∈ wk.running ∨ i ∈ wk.phase.needs := fun _ hi => .inl hi
  rw [hj.strategy]
  split
  next hdone =>
    -- the last request is a start, so the status does not say stopped
    have hmem : strategyId ∈ wk.running := hdone.resolve_left (by rw [hdesired]; decide)
    exact h.goesOn hwk hphase hclosed hrunning (by rw [htype]; simp [CommandType.stages])
      (by decide) (by decide) (fun hst => by simp at hst) (fun _ _ => hmem)
      (fun hstop => by rw [htype] at hstop; cases hstop)
  next hdone =>
    exact h.goesOn hwk hphase hclosed hrunning (by rw [htype]; simp [CommandType.stages])
      (by decide) (by decide) (fun _ hmem => hdone (.inr hmem)) (fun _ heq => by cases heq)
      (fun hstop => by rw [htype] at hstop; cases hstop)

theorem Inv.acquires {c : Bool} (h : d.Inv strategyId) (hwk : d.fleet.workers[w]? = some wk)
    (hphase : wk.phase = .executing j .acquires) (hclosed : d.closed = true → c = true) :
    Control.Inv strategyId
      { d with
        fleet := d.fleet.acquires cfg w wk j.strategyId (.executing j .acquired) (.executing j .fails)
        closed := c } := by
  have hok := h.workers w wk hwk
  have hj := hok.job j _ hphase
  have htype := hj.isStart (by simp)
  have hstart : wk.executesStart := ⟨j, _, hphase, htype⟩
  unfold Fleet.acquires
  rw [hj.strategy]
  split
  swap
  · exact h.toFails hwk hphase hclosed
  next lease hlease =>
  obtain ⟨howner, hexpires⟩ := owner_acquireStrategyLease hlease
  have hle : d.fleet.clock ≤ lease.leaseExpiresAt := hexpires ▸ Nat.le_add_right _ _
  refine h.moves (u := { wk with phase := .executing j .acquired }) hwk
    ⟨rfl, ?_, fun _ _ => .inr hstart, ?_, hclosed, fun i c hc _ _ => hc, ?_⟩ ⟨rfl, ?_, ?_⟩ rfl rfl ?_
    (h.mode.frame rfl rfl rfl rfl rfl hclosed
      (fun hlast => .inl ((hj.hasOpen_of_last h.mode).1 hlast))
      (fun hlast => .inl ((hj.hasOpen_of_last h.mode).2 hlast)))
  · rintro v hne ⟨l, hl, hown, hunexpired⟩
    -- the lease of another worker would not have been given
    have hnone : acquireStrategyLease cfg d.fleet.clock w (d.fleet.leases strategyId) = none :=
      acquireStrategyLease_eq_none.mpr ⟨l, hl, hown.trans_ne hne, hunexpired⟩
    rw [hnone] at hlease
    cases hlease
  · intro hruns
    exact (runs_set (u := { wk with phase := .executing j .acquired }) rfl hruns).imp_right
      fun _ => hstart
  · intro k st hk
    cases hk
    exact .inl ⟨_, hphase⟩
  · intro i hi
    have hid : i = strategyId := by
      rcases List.mem_append.mp hi with hi | hi
      · exact (hok.needs i (List.mem_append_left _ hi)).1
      · rw [List.mem_singleton.mp hi, hj.strategy]
    exact ⟨hid, lease, Function.update_self .., howner, hle⟩
  · intro k st hk
    cases hk
    exact ⟨hj.strategy, hj.row, by rw [htype]; simp [CommandType.stages],
      fun _ => hj.absent (by simp), fun _ heq => (by cases heq), fun heq => (by cases heq),
      fun hstop => (by rw [htype] at hstop; cases hstop)⟩
  · intro l hl
    change Function.update d.fleet.leases strategyId (some lease) strategyId = some l at hl
    rw [Function.update_self, Option.some.injEq] at hl
    exact hl ▸ hle

theorem Inv.executorStarts {c started : Bool} (h : d.Inv strategyId)
    (hwk : d.fleet.workers[w]? = some wk) (hphase : wk.phase = .executing j .acquired)
    (hclosed : d.closed = true → c = true) :
    Control.Inv strategyId
      { d with
        fleet := if started = true ∧ j.strategyId ∉ wk.running then
            d.fleet.setWorker w { wk with running := j.strategyId :: wk.running } (.executing j .started)
          else d.fleet.setWorker w wk (.executing j (.releases .fails))
        closed := c } := by
  have hj := (h.workers w wk hwk).job j _ hphase
  have htype := hj.isStart (by simp)
  split
  · refine h.goesOn hwk hphase hclosed ?_ (by rw [htype]; simp [CommandType.stages]) (by decide)
      (by decide) (fun hst => by simp at hst) (fun _ heq => by cases heq)
      (fun hstop => by rw [htype] at hstop; cases hstop)
    intro i hi
    rcases List.mem_cons.mp hi with rfl | hi
    · rw [hphase]
      exact .inr (List.mem_singleton_self _)
    · exact .inl hi
  · exact h.goesOn hwk hphase hclosed (fun _ hi => .inl hi)
      (by rw [htype]; simp [CommandType.stages]) (by decide) (by decide)
      (fun _ => hj.absent (by simp)) (fun _ heq => by cases heq)
      (fun hstop => by rw [htype] at hstop; cases hstop)

theorem Inv.waits {c alive stopped : Bool} (h : d.Inv strategyId)
    (hwk : d.fleet.workers[w]? = some wk) (hphase : wk.phase = .executing j .started)
    (hset : alive = true ∨ stopped = true) (hclosed : d.closed = true → c = true) :
    Control.Inv strategyId
      { d with
        fleet := if alive = true ∧ j.strategyId ∈ wk.running then
            d.fleet.setWorker w wk (.executing j .completes)
          else d.fleet.setWorker w (wk.dropsIf stopped j.strategyId) (.executing j (.releases .fails))
        closed := c } := by
  have hj := (h.workers w wk hwk).job j _ hphase
  have htype := hj.isStart (by simp)
  split
  next hup =>
    rw [hj.strategy] at hup
    exact h.goesOn hwk hphase hclosed (fun _ hi => .inl hi)
      (by rw [htype]; simp [CommandType.stages]) (by decide) (by decide)
      (fun hst => by simp at hst) (fun _ _ => hup.2)
      (fun hstop => by rw [htype] at hstop; cases hstop)
  next hup =>
    rw [hj.strategy] at hup ⊢
    refine h.goesOn hwk hphase hclosed (fun _ hi => .inl (mem_of_mem_dropsIf hi))
      (by rw [htype]; simp [CommandType.stages]) (by decide) (by decide) (fun _ hmem => ?_)
      (fun _ heq => by cases heq) (fun hstop => by rw [htype] at hstop; cases hstop)
    -- it was up and is stopped, or it did not come up
    cases stopped with
    | true => exact of_decide_eq_true (List.mem_filter.mp hmem).2 rfl
    | false => exact hup ⟨hset.resolve_right (by decide), hmem⟩

theorem Inv.executorStops {c : Bool} {outcome : StopOutcome} (h : d.Inv strategyId)
    (hwk : d.fleet.workers[w]? = some wk) (hphase : wk.phase = .executing j .stops)
    (hset : j.closes = true → outcome ≠ .stopFailed ∧ outcome ≠ .stopped false)
    (hclosed : d.closed = true → c = true)
    (hcloses : outcome = .stopped true → j.closes = true → c = true) :
    Control.Inv strategyId
      { d with fleet := d.fleet.executorStops w wk j outcome, closed := c } := by
  have hok := h.workers w wk hwk
  have hj := hok.job j _ hphase
  have htype := hj.isStop
  have hopen := hj.hasOpen
  rw [htype] at hopen
  have hdesired := (h.mode.stopped (h.mode.lastStop_of_open hopen)).1
  cases outcome with
  | raises => exact h.toFails hwk hphase hclosed
  | stopFailed =>
    have hnot : ¬ j.closes = true := fun hj => (hset hj).1 rfl
    unfold Fleet.executorStops
    rw [if_neg hnot]
    exact h.toFails hwk hphase hclosed
  | stopped closed =>
    have hnext : (if j.commandType = .restart then AfterRelease.startChecks else .completes) =
        .completes := if_neg (by rw [htype]; decide)
    unfold Fleet.executorStops
    dsimp only
    rw [hj.strategy, hnext, Fleet.setDesired_of_eq]
    swap
    · exact hdesired
    rw [ite_self]
    refine h.goesOn hwk hphase hclosed (fun _ hi => .inl (List.mem_filter.mp hi).1)
      (by rw [htype]; simp [CommandType.stages]) (by decide) (by decide)
      (fun _ hmem => of_decide_eq_true (List.mem_filter.mp hmem).2 rfl)
      (fun hstart => by rw [htype] at hstart; cases hstart) (fun _ _ => ⟨?_, ?_, ?_⟩)
    · -- only this worker can have had the lease
      intro v b hne hb hmem
      obtain ⟨-, l, hl, howner, -⟩ := (h.workers v b hb).needs strategyId (List.mem_append_left _ hmem)
      exact hne (howner.symm.trans (hj.owns rfl l hl))
    · exact fun hmem => of_decide_eq_true (List.mem_filter.mp hmem).2 rfl
    · intro hj
      cases closed with
      | true => exact hcloses rfl hj
      | false => exact absurd rfl (hset hj).2

theorem Inv.releases {c : Bool} {next : AfterRelease} (h : d.Inv strategyId)
    (hwk : d.fleet.workers[w]? = some wk) (hphase : wk.phase = .executing j (.releases next))
    (hclosed : d.closed = true → c = true) :
    Control.Inv strategyId
      { d with
        fleet := (d.fleet.setWorker w wk (.executing j next.stage)).releases w j.strategyId
        closed := c } := by
  have hok := h.workers w wk hwk
  have hj := hok.job j _ hphase
  have hnext : next = .fails ∨ next = .completes ∧ j.commandType = .stop := by
    have hmem := hj.stages
    rcases hj.type with htype | htype <;>
    · rw [htype] at hmem
      cases next <;> simp_all [CommandType.stages]
  have habsent : strategyId ∉ wk.running := hj.absent (by rcases hnext with rfl | ⟨rfl, -⟩ <;> simp)
  have hneeds : (WorkerPhase.executing j next.stage).needs = [] := by
    rcases hnext with rfl | ⟨rfl, -⟩ <;> rfl
  have hlease : ∀ l, (Function.update d.fleet.leases strategyId
      (releaseStrategyLease w (d.fleet.leases strategyId))) strategyId = some l →
        d.fleet.leases strategyId = some l := by
    intro l hl
    rw [Function.update_self] at hl
    exact releaseStrategyLease_eq_some hl
  rw [hj.strategy]
  refine h.moves (u := { wk with phase := .executing j next.stage }) hwk
    ⟨rfl, ?_, fun l hl => .inl ⟨l, hlease l hl, rfl⟩, ?_, hclosed, fun i c hc _ _ => hc, ?_⟩
    ⟨rfl, ?_, ?_⟩ rfl rfl (fun l hl => h.lease l (hlease l hl))
    (h.mode.frame rfl rfl rfl rfl rfl hclosed
      (fun hlast => .inl ((hj.hasOpen_of_last h.mode).1 hlast))
      (fun hlast => .inl ((hj.hasOpen_of_last h.mode).2 hlast)))
  · rintro v hne ⟨l, hl, howner, hle⟩
    refine ⟨l, ?_, howner, hle⟩
    show Function.update _ _ _ strategyId = _
    rw [Function.update_self]
    show releaseStrategyLease w (d.fleet.leases strategyId) = some l
    rw [hl]
    exact releaseStrategyLease_of_ne (howner.trans_ne hne)
  · intro hruns
    exact (runs_set (u := { wk with phase := .executing j next.stage }) rfl hruns).imp_right
      fun hmem => absurd hmem habsent
  · intro k st hk
    cases hk
    exact .inl ⟨_, hphase⟩
  · intro i hi
    rw [hneeds, List.append_nil] at hi
    -- it runs nothing
    have hid := (hok.needs i (List.mem_append_left _ hi)).1
    exact absurd (hid ▸ hi) habsent
  · intro k st hk
    cases hk
    rcases hnext with rfl | ⟨rfl, htype⟩
    · exact ⟨hj.strategy, hj.row, hj.fails_mem, fun hmem => (by simp [AfterRelease.stage] at hmem),
        fun _ heq => (by cases heq), fun heq => (by cases heq),
        fun _ hmem => (by simp [AfterRelease.stage] at hmem)⟩
    · obtain ⟨hruns, hcl⟩ := hj.down htype (by simp)
      refine ⟨hj.strategy, hj.row, by rw [htype]; simp [CommandType.stages, AfterRelease.stage],
        fun hmem => (by simp [AfterRelease.stage] at hmem),
        fun hstart => (by rw [htype] at hstart; cases hstart), fun heq => (by cases heq),
        fun _ _ => ⟨fun hr => ?_, fun hcloses => hclosed (hcl hcloses)⟩⟩
      exact (runs_set (u := { wk with phase := .executing j .completes }) rfl hr).elim hruns habsent

/-! ## Results -/

theorem WorkerOk.idle (h : d.WorkerOk strategyId w wk) (hleases : d'.fleet.leases = d.fleet.leases)
    (hclock : d'.fleet.clock = d.fleet.clock) :
    d'.WorkerOk strategyId w { wk with phase := .idle } := by
  refine ⟨rfl, fun i hi => ?_, fun k st hk => by cases hk⟩
  obtain ⟨hid, l, hl, howner, hle⟩ := h.needs i (List.mem_append_left _ (by simpa [WorkerPhase.needs] using hi))
  exact ⟨hid, l, by rw [hleases, hl], howner, by rw [hclock]; exact hle⟩

theorem mem_modify {commands : List Command} {i : ℕ} {f : Command → Command} {c : Command}
    (h : c ∈ commands.modify i f) : c ∈ commands ∨ ∃ c₀, c = f c₀ := by
  obtain ⟨k, hk⟩ := List.mem_iff_getElem?.mp h
  rw [List.getElem?_modify] at hk
  cases hc : commands[k]? with
  | none =>
    rw [hc] at hk
    cases hk
  | some c₀ =>
    rw [hc] at hk
    simp only [Option.map_eq_map, Option.map_some, Option.some.injEq] at hk
    split at hk
    · exact .inr ⟨c₀, hk.symm⟩
    · exact .inl (hk ▸ List.mem_of_getElem? hc)

/-- A worker writes the result of its command and goes back to the top of its loop. -/
theorem Inv.result {c : Bool} {f : Command → Command} (h : d.Inv strategyId)
    (hwk : d.fleet.workers[w]? = some wk) (hphase : wk.phase = .executing j stage)
    (hclosed : d.closed = true → c = true) (hf : ∀ c, (f c).status ≠ .processing)
    (hnarrows : Narrows d.views ((d.fleet.commands.modify j.id f).map Command.view))
    (hmode : Control.Mode strategyId
      { d with fleet := (d.fleet.setWorker w wk .idle).updateCommand j.id f, closed := c }) :
    Control.Inv strategyId
      { d with fleet := (d.fleet.setWorker w wk .idle).updateCommand j.id f, closed := c } := by
  refine h.acts (u := { wk with phase := .idle }) hwk
    ⟨rfl, fun v _ hv => hv, fun l hl => .inl ⟨l, hl, rfl⟩, ?_, hclosed, ?_, fun k st hk => by cases hk⟩
    ((h.workers w wk hwk).idle rfl rfl) ?_ ?_ h.lease (hnarrows.oneOpen h.oneOpen) hmode
  · intro hruns
    rcases runs_set (u := { wk with phase := .idle }) rfl hruns with hruns | hmem
    · exact .inl hruns
    · exact .inl ⟨wk, List.mem_of_getElem? hwk, hmem⟩
  · intro i c hc _ hne
    rw [← hc]
    exact List.getElem?_modify_ne f _ (hne j stage hphase)
  · intro v hv
    obtain ⟨u, hu, hs, ht, -⟩ := hnarrows.mem hv
    rw [← hs, ← ht]
    exact h.ours u hu
  · intro c hc hstatus
    rcases mem_modify hc with hc | ⟨c₀, rfl⟩
    · exact h.unexpired c hc hstatus
    · exact absurd hstatus (hf c₀)

theorem Inv.completes {c : Bool} (h : d.Inv strategyId) (hwk : d.fleet.workers[w]? = some wk)
    (hphase : wk.phase = .executing j .completes) (hclosed : d.closed = true → c = true) :
    Control.Inv strategyId
      { d with
        fleet := (d.fleet.setWorker w wk .idle).updateCommand j.id fun c => c.finished .succeeded
        closed := c } := by
  have hj := (h.workers w wk hwk).job j _ hphase
  have hopen := hj.hasOpen
  have hnarrows : Narrows d.views
      ((d.fleet.commands.modify j.id fun c => c.finished .succeeded).map Command.view) :=
    narrows_finished d.fleet.commands j.id .succeeded rfl
  refine h.result hwk hphase hclosed (fun c => by simp [Command.finished]) hnarrows ⟨?_, ?_, ?_⟩
  · intro hlast
    obtain ⟨hdesired, hno, hasked, -⟩ := h.mode.started hlast
    refine ⟨hdesired, hnarrows.noOpen hno, hasked, .inr (.inr ?_)⟩
    have htype : j.commandType = .start := hj.type.resolve_right fun hstop => by
      rw [hstop] at hopen
      exact not_noOpen hopen hno
    exact runs_of_worker (u := { wk with phase := .idle }) hwk rfl id
      ⟨wk, List.mem_of_getElem? hwk, hj.up htype rfl⟩
  · intro hlast
    obtain ⟨hdesired, hno, -, hcl⟩ := h.mode.stopped hlast
    have htype : j.commandType = .stop := hj.type.resolve_left fun hstart => by
      rw [hstart] at hopen
      exact not_noOpen hopen hno
    obtain ⟨hruns, hjcl⟩ := hj.down htype (by simp)
    refine ⟨hdesired, hnarrows.noOpen hno, .inr (.inr fun hr => ?_), fun hask => ?_⟩
    · rcases runs_set (u := { wk with phase := .idle }) rfl hr with hr | hmem
      · exact hruns hr
      · exact hruns ⟨wk, List.mem_of_getElem? hwk, hmem⟩
    · rcases hcl hask with hcl | hposted | ⟨v, hv, hvtype, hvopen, hvclose⟩
      · exact .inl (hclosed hcl)
      · exact .inr (.inl hposted)
      · -- the open stop that closes the positions is the one that is done now
        obtain ⟨c, hc, hstatus, hctype, hcclose⟩ := hj.row
        obtain ⟨k, hk⟩ := List.mem_iff_getElem?.mp hv
        have hrow : d.views[j.id]? = some c.view := by
          unfold Control.views
          rw [List.getElem?_map, hc]
          rfl
        have hkj : k = j.id := h.oneOpen k j.id v c.view hk hrow
          (hvtype.trans (hctype.trans htype).symm) hvopen (open_of_processing hstatus)
        rw [hkj, hrow, Option.some.injEq] at hk
        have hjclose : j.closePositions = true := by
          rw [← hcclose]
          exact (congrArg CommandView.closePositions hk).trans hvclose
        exact .inl (hclosed (hjcl (decide_eq_true ⟨htype, hjclose⟩)))
  · intro r hr
    obtain ⟨hiff, hcl⟩ := h.mode.posted r hr
    refine ⟨hiff, fun hstop v hv ht hvopen => ?_⟩
    obtain ⟨u, hu, -, -, hsame⟩ := hnarrows.mem hv
    rw [hsame hvopen] at hu
    exact hcl hstop v hu ht hvopen

theorem Inv.fails {c : Bool} (h : d.Inv strategyId) (hwk : d.fleet.workers[w]? = some wk)
    (hphase : wk.phase = .executing j .fails) (hattempts : j.attempts < cfg.maxAttempts)
    (hclosed : d.closed = true → c = true) :
    Control.Inv strategyId
      { d with fleet := (d.fleet.setWorker w wk .idle).failJob cfg j, closed := c } := by
  have hj := (h.workers w wk hwk).job j _ hphase
  obtain ⟨c₀, hc₀, hstatus, -⟩ := hj.row
  have hviews : (d.fleet.commands.modify j.id fun c =>
      c.retried d.fleet.clock (retryDelay j.attempts)).map Command.view = d.views := by
    refine views_modify fun c hc => ?_
    -- the command is open, and stays so
    obtain rfl : c₀ = c := Option.some.inj (hc₀.symm.trans hc)
    unfold Command.view
    rw [open_of_processing hstatus]
    rfl
  have hnarrows : Narrows d.views ((d.fleet.commands.modify j.id fun c =>
      c.retried d.fleet.clock (retryDelay j.attempts)).map Command.view) := by
    rw [hviews]
    exact fun _ v hv => ⟨v, hv, rfl, rfl, fun _ => rfl⟩
  unfold Fleet.failJob
  rw [if_pos hattempts]
  exact h.result hwk hphase hclosed (fun c => by simp [Command.retried]) hnarrows
    (h.mode.frame hviews rfl rfl rfl rfl hclosed
      (fun hlast => .inl ((hj.hasOpen_of_last h.mode).1 hlast))
      (fun hlast => .inl ((hj.hasOpen_of_last h.mode).2 hlast)))

/-! ## Claims and renewals -/

/-- A claimed command was pending: the claim of one that is being processed has not
run out. -/
theorem Inv.pending_of_claimable (h : d.Inv strategyId) {c : Command}
    (hc : c ∈ d.fleet.commands) {lease : Option Lease}
    (hclaim : c.claimable cfg d.fleet.clock lease w = true) : c.status = .pending := by
  obtain ⟨-, ⟨hstatus, -⟩ | ⟨hstatus, hexpired⟩, -⟩ := of_decide_eq_true hclaim
  · exact hstatus
  · obtain ⟨t, ht, hle⟩ := h.unexpired c hc hstatus
    rw [ht] at hexpired
    exact absurd (of_decide_eq_true hexpired) (Nat.not_lt.mpr hle)

theorem Inv.claims {c : Bool} {i : ℕ} {row : Command} (h : d.Inv strategyId)
    (hwk : d.fleet.workers[w]? = some wk)
    (hrow : d.fleet.commands[i]? = some row)
    (hclaim : row.claimable cfg d.fleet.clock (d.fleet.leases row.strategyId) w = true)
    (hclosed : d.closed = true → c = true) :
    Control.Inv strategyId
      { d with
        fleet := (d.fleet.setWorker w wk (.executing
          ⟨i, row.strategyId, row.commandType, row.closePositions, row.attempts + 1⟩
          row.commandType.stage)).updateCommand i fun c => c.claimed cfg d.fleet.clock w
        closed := c } := by
  have hmem := List.mem_of_getElem? hrow
  have hstatus := h.pending_of_claimable hmem hclaim
  obtain ⟨hstrategy, htype⟩ := h.ours row.view (List.mem_map_of_mem hmem)
  have hviews : (d.fleet.commands.modify i fun c => c.claimed cfg d.fleet.clock w).map
      Command.view = d.views := by
    refine views_modify fun c hc => ?_
    obtain rfl : row = c := Option.some.inj (hrow.symm.trans hc)
    unfold Command.view Command.isOpen
    rw [hstatus]
    rfl
  have hstage : row.commandType.stage ∈ row.commandType.stages ∧
      row.commandType.stage ∈ [.startChecks, .stops] := by
    rcases htype with htype | htype <;>
    · rw [show row.commandType = _ from htype]
      decide
  obtain ⟨hstages, hfirst⟩ := hstage
  have howns : row.commandType.stage = .stops → ∀ l, d.fleet.leases strategyId = some l →
      l.ownerId = w := by
    intro hstops l hl
    have hstop : row.commandType = .stop := htype.resolve_left fun hstart => by
      rw [show row.commandType = _ from hstart] at hstops
      cases hstops
    obtain ⟨-, -, hfree⟩ := of_decide_eq_true hclaim
    rw [show row.strategyId = _ from hstrategy, hl, hstop] at hfree
    rcases hfree with hfree | hfree | hfree
    · simp at hfree
    · cases hfree
    · rcases of_decide_eq_true hfree with howner | hexpired
      · exact howner
      · exact absurd hexpired (Nat.not_lt.mpr (h.lease l hl))
  set j : Job := ⟨i, row.strategyId, row.commandType, row.closePositions, row.attempts + 1⟩ with hj
  have hneeds : (WorkerPhase.executing j row.commandType.stage).needs = [] := by
    rcases List.mem_cons.mp hfirst with heq | heq
    · rw [heq]
      rfl
    · rw [List.mem_singleton.mp heq]
      rfl
  have hpast : row.commandType.stage ∉
      [.acquires, .acquired, .releases .fails, .releases .completes, .completes] := by
    rcases List.mem_cons.mp hfirst with heq | heq
    · rw [heq]
      decide
    · rw [List.mem_singleton.mp heq]
      decide
  have hruns : Control.Runs strategyId
      { d with
        fleet := (d.fleet.setWorker w wk (.executing j row.commandType.stage)).updateCommand i
          fun c => c.claimed cfg d.fleet.clock w
        closed := c } → d.Runs strategyId :=
    runs_of_set (u := { wk with phase := .executing j row.commandType.stage }) hwk rfl id
  refine h.keepsOpen (u := { wk with phase := .executing j row.commandType.stage }) hwk
    ⟨rfl, fun v _ hv => hv, fun l hl => .inl ⟨l, hl, rfl⟩, ?_, hclosed, ?_, ?_⟩ ⟨rfl, ?_, ?_⟩
    hviews ?_ h.lease
    (h.mode.frame hviews rfl rfl rfl rfl hclosed
      (fun _ => .inr fun hr => runs_of_worker hwk rfl id hr) (fun _ => .inr hruns))
  · exact fun hr => .inl (hruns hr)
  · intro k c hc hprocessing _
    have hne : i ≠ k := by
      rintro rfl
      rw [Option.some.inj (hrow.symm.trans hc), hprocessing] at hstatus
      cases hstatus
    rw [← hc]
    exact List.getElem?_modify_ne _ _ hne
  · intro k st hk
    cases hk
    refine .inr fun c hc hprocessing => ?_
    rw [Option.some.inj (hrow.symm.trans hc), hprocessing] at hstatus
    cases hstatus
  · intro k hk
    rw [hneeds, List.append_nil] at hk
    exact (h.workers w wk hwk).needs k (List.mem_append_left _ hk)
  · intro k st hk
    cases hk
    refine ⟨hstrategy, ⟨row.claimed cfg d.fleet.clock w, ?_, rfl, rfl, rfl⟩, hstages, ?_, ?_, howns, ?_⟩
    · show (d.fleet.commands.modify i _)[i]? = _
      rw [List.getElem?_modify_eq, hrow]
      rfl
    · intro hst
      exact (hpast (List.mem_append_left [Stage.completes] hst)).elim
    · intro _ hst
      exact (hpast (by rw [hst]; simp)).elim
    · intro _ hst
      exact (hpast (List.mem_append_right
        [Stage.acquires, Stage.acquired, Stage.releases .fails] hst)).elim
  · intro c hc hprocessing
    rcases mem_modify hc with hc | ⟨c₀, rfl⟩
    · exact h.unexpired c hc hprocessing
    · exact ⟨_, rfl, Nat.le_add_right _ _⟩

theorem Inv.renewBegins {c : Bool} (h : d.Inv strategyId) (hwk : d.fleet.workers[w]? = some wk)
    (hclosed : d.closed = true → c = true) :
    Control.Inv strategyId
      { d with
        fleet := d.fleet.setWorker w { wk with lastRenewal := d.fleet.clock } (.renewing wk.running)
        closed := c } := by
  have hok := h.workers w wk hwk
  refine h.moves (u := { wk with lastRenewal := d.fleet.clock, phase := .renewing wk.running }) hwk
    (Acts.quiet hwk rfl rfl rfl rfl hclosed .inl fun k st hk => by cases hk)
    ⟨rfl, fun i hi => ?_, fun k st hk => by cases hk⟩ rfl rfl h.lease
    (h.mode.frame rfl rfl rfl rfl rfl hclosed (fun _ => .inr (runs_of_worker hwk rfl id))
      (fun _ => .inr (runs_of_set hwk rfl id)))
  rcases List.mem_append.mp hi with hi | hi <;>
  · exact hok.needs i (List.mem_append_left _ hi)

/-- The worker goes on to its next lease, or has none left. -/
theorem Inv.renewsNext {c : Bool} {todo : List ℕ} {phase : WorkerPhase} (h : d.Inv strategyId)
    (hwk : d.fleet.workers[w]? = some wk) (hphase : wk.phase = .renewing todo)
    (hnext : (∃ todo', phase = .renewing todo' ∧ ∀ i ∈ todo', i ∈ todo) ∨ phase = .idle)
    (hclosed : d.closed = true → c = true) :
    Control.Inv strategyId { d with fleet := d.fleet.setWorker w wk phase, closed := c } := by
  have hok := h.workers w wk hwk
  refine h.moves (u := { wk with phase }) hwk
    (Acts.quiet hwk rfl rfl rfl rfl hclosed .inl fun k st hk => ?_) ⟨?_, fun i hi => ?_, ?_⟩
    rfl rfl h.lease
    (h.mode.frame rfl rfl rfl rfl rfl hclosed (fun _ => .inr (runs_of_worker hwk rfl id))
      (fun _ => .inr (runs_of_set hwk rfl id)))
  · rcases hnext with ⟨todo', rfl, -⟩ | rfl <;> cases hk
  · rcases hnext with ⟨todo', rfl, -⟩ | rfl <;> rfl
  · refine hok.needs i ?_
    rw [hphase]
    rcases List.mem_append.mp hi with hi | hi
    · exact List.mem_append_left _ hi
    · rcases hnext with ⟨todo', rfl, hsub⟩ | rfl
      · exact List.mem_append_right _ (hsub i hi)
      · cases hi
  · intro k st hk
    rcases hnext with ⟨todo', rfl, -⟩ | rfl <;> cases hk

/-- It still has the lease it renews. -/
theorem Inv.renews (cfg : LifecycleConfig) {c : Bool} {i : ℕ} {todo : List ℕ} (h : d.Inv strategyId)
    (hwk : d.fleet.workers[w]? = some wk) (hphase : wk.phase = .renewing (i :: todo))
    (hclosed : d.closed = true → c = true) :
    ∃ lease, renewStrategyLease cfg d.fleet.clock w (d.fleet.leases i) = some lease ∧
      Control.Inv strategyId
        { d with
          fleet := (d.fleet.setWorker w wk (.renewing todo)).setLease i (some lease), closed := c } := by
  have hok := h.workers w wk hwk
  obtain ⟨rfl, l, hl, howner, hle⟩ := hok.needs i
    (List.mem_append_right _ (by rw [hphase]; exact List.mem_cons_self))
  have hrenewed : renewStrategyLease cfg d.fleet.clock w (d.fleet.leases i) =
      some { l with leaseExpiresAt := d.fleet.clock + cfg.strategyLease } := by
    rw [hl]
    exact if_pos ⟨howner, hle⟩
  refine ⟨_, hrenewed, ?_⟩
  refine h.moves (u := { wk with phase := .renewing todo }) hwk
    ⟨rfl, ?_, ?_,
      fun hr => .inl (runs_of_set (u := { wk with phase := .renewing todo }) hwk rfl id hr), hclosed,
      fun _ _ hc _ _ => hc, fun k st hk => by cases hk⟩
    ⟨rfl, fun k hk => ?_, fun k st hk => by cases hk⟩ rfl rfl ?_
    (h.mode.frame rfl rfl rfl rfl rfl hclosed (fun _ => .inr (runs_of_worker hwk rfl id))
      (fun _ => .inr (runs_of_set hwk rfl id)))
  · rintro v hne ⟨l', hl', howner', -⟩
    rw [hl, Option.some.injEq] at hl'
    exact absurd (howner'.symm.trans (hl' ▸ howner)) hne
  · intro l' hl'
    change Function.update d.fleet.leases i _ i = some l' at hl'
    rw [Function.update_self, Option.some.injEq] at hl'
    exact .inl ⟨l, hl, hl' ▸ rfl⟩
  · refine ⟨(hok.needs k ?_).1, _, Function.update_self .., howner, Nat.le_add_right _ _⟩
    rw [hphase]
    exact (List.mem_append.mp hk).elim (List.mem_append_left _)
      fun hk => List.mem_append_right _ (List.mem_cons_of_mem _ hk)
  · intro l' hl'
    change Function.update d.fleet.leases i _ i = some l' at hl'
    rw [Function.update_self, Option.some.injEq] at hl'
    exact hl' ▸ Nat.le_add_right _ _

/-- The strategy's thread ends because it is to stop. -/
theorem Inv.runtimeExits {c : Bool} {i : ℕ} (h : d.Inv strategyId)
    (hwk : d.fleet.workers[w]? = some wk) (hi : i ∈ wk.running)
    (hdesired : d.fleet.desired i = .stopped) (hclosed : d.closed = true → c = true) :
    Control.Inv strategyId
      { d with fleet := d.fleet.setWorker w (wk.drops i) wk.phase, closed := c } := by
  have hok := h.workers w wk hwk
  obtain rfl := (hok.needs i (List.mem_append_left _ hi)).1
  have hlast : d.lastStart ≠ true := fun hlast => by
    rw [(h.mode.started hlast).1] at hdesired
    cases hdesired
  have hsub : ∀ k ∈ (wk.drops i).running, k ∈ wk.running := fun k hk => (List.mem_filter.mp hk).1
  have hruns : Control.Runs i
      { d with fleet := d.fleet.setWorker w (wk.drops i) wk.phase, closed := c } → d.Runs i :=
    runs_of_set (u := wk.drops i) hwk rfl (hsub i)
  refine h.moves (u := wk.drops i) hwk
    (Acts.quiet hwk rfl rfl rfl rfl hclosed (fun hk => .inl (hsub i hk)) fun k st hk => ⟨st, hk⟩)
    ⟨hok.phase, fun k hk => ?_, fun k st hk => ?_⟩ rfl rfl h.lease
    (h.mode.frame rfl rfl rfl rfl rfl hclosed (fun h1 => absurd h1 hlast) (fun _ => .inr hruns))
  · refine hok.needs k ?_
    exact (List.mem_append.mp hk).elim (fun hk => List.mem_append_left _ (hsub k hk))
      (List.mem_append_right _)
  · have hj := hok.job k st hk
    refine ⟨hj.strategy, hj.row, hj.stages, fun hst hmem => hj.absent hst (hsub i hmem), ?_, hj.owns, ?_⟩
    · intro htype _
      have hopen := hj.hasOpen
      rw [htype] at hopen
      exact absurd (h.mode.lastStart_of_open hopen) hlast
    · intro htype hst
      obtain ⟨hdown, hcl⟩ := hj.down htype hst
      exact ⟨fun hr => hdown (hruns hr), fun hcloses => hclosed (hcl hcloses)⟩

end AlgoTrade.Lifecycle.Control
