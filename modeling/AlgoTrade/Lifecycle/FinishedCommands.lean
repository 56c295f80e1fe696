import AlgoTrade.Lifecycle.Workers
import AlgoTrade.Lib.Lists

/-! # Finished commands

* `fleetStep_row`: what one label does to a row of `qd_strategy_commands`.
* `finishedStays_of_current`: as long as only the worker of the current claim
  writes a result, a finished command keeps its row and every claim has one result.
* `lateFailure_reopens`: a worker whose lease ran out fails a command that another
  worker has finished. -/

namespace AlgoTrade.Lifecycle

/-! ## Rows -/

/-- The command a worker executes. -/
def WorkerPhase.job : WorkerPhase → Option Job
  | .executing j _ => some j
  | _ => none

/-- What one label does to the row `i`. -/
inductive RowMove (cfg : LifecycleConfig) (s : Fleet) (i : ℕ) (c : Command) :
    FleetLabel → Command → Prop
  | same (l : FleetLabel) : RowMove cfg s i c l c
  | claimed (w : ℕ) (locked : List ℕ)
      (claimable : c.claimable cfg s.clock (s.leases c.strategyId) w = true) :
      RowMove cfg s i c (.worker w (.claims locked)) (c.claimed cfg s.clock w)
  | completed (w : ℕ) (wk : Worker) (j : Job) (worker : s.workers[w]? = some wk)
      (phase : wk.phase = .executing j .completes) (id : j.id = i) :
      RowMove cfg s i c (.worker w .completes) (c.finished .succeeded)
  | retried (w : ℕ) (wk : Worker) (j : Job) (worker : s.workers[w]? = some wk)
      (phase : wk.phase = .executing j .fails) (id : j.id = i)
      (attempts : j.attempts < cfg.maxAttempts) :
      RowMove cfg s i c (.worker w .fails) (c.retried s.clock (retryDelay j.attempts))
  | failed (w : ℕ) (wk : Worker) (j : Job) (worker : s.workers[w]? = some wk)
      (phase : wk.phase = .executing j .fails) (id : j.id = i)
      (attempts : cfg.maxAttempts ≤ j.attempts) :
      RowMove cfg s i c (.worker w .fails) (c.finished .failed)
  | exhausted (exhausted : c.exhausted cfg s.clock = true) :
      RowMove cfg s i c .failExhausted (c.finished .failed)

section
variable {cfg : LifecycleConfig} {s s' : Fleet} {w i : ℕ} {wk : Worker} {c : Command}

theorem getElem?_modify_self {commands : List Command} (h : commands[i]? = some c)
    (f : Command → Command) : (commands.modify i f)[i]? = some (f c) := by
  rw [List.getElem?_modify_eq, h]
  rfl

theorem getElem?_modify_ne {commands : List Command} {j : ℕ} (h : j ≠ i)
    (f : Command → Command) : (commands.modify j f)[i]? = commands[i]? :=
  List.getElem?_modify_ne f commands h

/-- The row stays as it is. -/
theorem rowMove_same {l : FleetLabel} (hi : s.commands[i]? = some c)
    (h : s'.commands = s.commands) :
    ∃ c', s'.commands[i]? = some c' ∧ RowMove cfg s i c l c' :=
  ⟨c, by rw [h, hi], .same l⟩

theorem commands_acquires (strategyId : ℕ) (acquired refused : WorkerPhase) :
    (s.acquires cfg w wk strategyId acquired refused).commands = s.commands := by
  unfold Fleet.acquires
  split <;> rfl

theorem commands_executorStops (j : Job) (outcome : StopOutcome) :
    (s.executorStops w wk j outcome).commands = s.commands := by
  cases outcome with
  | raises => rfl
  | stopFailed => rfl
  | stopped closed =>
    unfold Fleet.executorStops
    dsimp only
    split <;> rfl

theorem executeStep_row {j : Job} {stage : Stage} {l : WorkerLabel}
    (hwk : s.workers[w]? = some wk) (hphase : wk.phase = .executing j stage)
    (hi : s.commands[i]? = some c) (h : executeStep cfg s w wk j stage l = some s') :
    ∃ c', s'.commands[i]? = some c' ∧ RowMove cfg s i c (.worker w l) c' := by
  unfold executeStep at h
  split at h
  -- `startChecks`
  · obtain rfl := Option.some.inj h
    exact rowMove_same hi rfl
  -- `acquires`
  · obtain rfl := Option.some.inj h
    exact rowMove_same hi (commands_acquires ..)
  -- `acquired`
  · split at h <;>
    · obtain rfl := Option.some.inj h
      exact rowMove_same hi rfl
  -- `started`
  · split at h <;>
    · obtain rfl := Option.some.inj h
      exact rowMove_same hi rfl
  -- `stops`
  · obtain rfl := Option.some.inj h
    exact rowMove_same hi (commands_executorStops ..)
  -- `releases`
  · obtain rfl := Option.some.inj h
    exact rowMove_same hi rfl
  -- `completes`
  · obtain rfl := Option.some.inj h
    by_cases hid : j.id = i
    · subst hid
      exact ⟨_, getElem?_modify_self hi _, .completed w wk j hwk hphase rfl⟩
    · exact ⟨c, (getElem?_modify_ne hid _).trans hi, .same _⟩
  -- `fails`
  · obtain rfl := Option.some.inj h
    unfold Fleet.failJob
    split
    next hlt =>
      by_cases hid : j.id = i
      · subst hid
        exact ⟨_, getElem?_modify_self hi _, .retried w wk j hwk hphase rfl hlt⟩
      · exact ⟨c, (getElem?_modify_ne hid _).trans hi, .same _⟩
    next hge =>
      split <;>
      · by_cases hid : j.id = i
        · subst hid
          exact ⟨_, getElem?_modify_self hi _, .failed w wk j hwk hphase rfl (by omega)⟩
        · exact ⟨c, (getElem?_modify_ne hid _).trans hi, .same _⟩
  · cases h
  -- an exception
  · obtain rfl := Option.some.inj h
    exact rowMove_same hi rfl
  · cases h

theorem workerStep_row {l : WorkerLabel} (hwk : s.workers[w]? = some wk)
    (hi : s.commands[i]? = some c) (h : workerStep cfg s w wk wk.phase l = some s') :
    ∃ c', s'.commands[i]? = some c' ∧ RowMove cfg s i c (.worker w l) c' := by
  unfold workerStep at h
  split at h
  -- `runtimeExits`
  · split at h
    · obtain rfl := Option.some.inj h
      exact rowMove_same hi rfl
    · cases h
  -- `crashes`, `boots`
  · obtain rfl := Option.some.inj h
    exact rowMove_same hi rfl
  · obtain rfl := Option.some.inj h
    exact rowMove_same hi rfl
  · cases h
  -- `shutsDown`
  · obtain rfl := Option.some.inj h
    exact rowMove_same hi rfl
  -- `restores`
  · obtain rfl := Option.some.inj h
    exact rowMove_same hi rfl
  · obtain rfl := Option.some.inj h
    exact rowMove_same hi (commands_acquires ..)
  -- `restoreStarts`
  · split at h <;>
    · obtain rfl := Option.some.inj h
      exact rowMove_same hi rfl
  -- `restoreReleases`
  · obtain rfl := Option.some.inj h
    exact rowMove_same hi rfl
  -- `renewBegins`
  · split at h
    · obtain rfl := Option.some.inj h
      exact rowMove_same hi rfl
    · cases h
  -- `renews`
  · obtain rfl := Option.some.inj h
    exact rowMove_same hi rfl
  · obtain rfl := Option.some.inj h
    exact rowMove_same hi rfl
  · split at h <;>
    · obtain rfl := Option.some.inj h
      exact rowMove_same hi rfl
  -- `stopsLost`
  · obtain rfl := Option.some.inj h
    exact rowMove_same hi rfl
  -- `claims`
  · obtain ⟨k, hk, hmap⟩ := Option.bind_eq_some_iff.mp h
    obtain ⟨e, he, rfl⟩ := Option.map_eq_some_iff.mp hmap
    by_cases hki : k = i
    · subst hki
      obtain rfl : e = c := Option.some.inj (he.symm.trans hi)
      exact ⟨_, getElem?_modify_self he _, .claimed w _ (claimable_of_claimNext hk he)⟩
    · exact ⟨c, (getElem?_modify_ne hki _).trans hi, .same _⟩
  -- `executing`
  · exact executeStep_row hwk (by assumption) hi h
  -- `shutdownStops`, `shutdownReleases`
  · obtain rfl := Option.some.inj h
    exact rowMove_same hi rfl
  · obtain rfl := Option.some.inj h
    exact rowMove_same hi rfl
  · obtain rfl := Option.some.inj h
    exact rowMove_same hi rfl
  · cases h

/-- **A row under one label**: it stays, it is claimed, or a result is written. -/
theorem fleetStep_row {l : FleetLabel} (hi : s.commands[i]? = some c)
    (h : fleetStep cfg s l = some s') :
    ∃ c', s'.commands[i]? = some c' ∧ RowMove cfg s i c l c' := by
  cases l with
  | tick seconds =>
    obtain rfl := Option.some.inj h
    exact rowMove_same hi rfl
  | setDesired strategyId status =>
    obtain rfl := Option.some.inj h
    exact rowMove_same hi rfl
  | enqueue strategyId commandType closePositions =>
    obtain rfl := Option.some.inj h
    refine ⟨c, ?_, .same _⟩
    show (enqueue s.commands s.clock strategyId commandType closePositions)[i]? = some c
    unfold enqueue
    split
    · exact hi
    · rw [List.getElem?_append_left (List.getElem?_eq_some_iff.mp hi).1, hi]
  | failExhausted =>
    obtain rfl := Option.some.inj h
    have hrow : (failExhausted cfg s.commands s.clock)[i]? =
        some (if c.exhausted cfg s.clock then c.finished .failed else c) := by
      unfold failExhausted
      rw [List.getElem?_map, hi]
      rfl
    by_cases hex : c.exhausted cfg s.clock = true
    · exact ⟨_, hrow, by rw [if_pos hex]; exact .exhausted hex⟩
    · exact ⟨_, hrow, by rw [if_neg hex]; exact .same _⟩
  | cleanupLeases =>
    obtain rfl := Option.some.inj h
    exact rowMove_same hi rfl
  | worker w l =>
    obtain ⟨wk, hwk, hstep⟩ := Option.bind_eq_some_iff.mp h
    exact workerStep_row hwk hi hstep

end

/-! ## Results -/

/-- The command whose result a worker is about to write. -/
def Fleet.writes (s : Fleet) : FleetLabel → Option Job
  | .worker w .completes | .worker w .fails => (s.workers[w]?).bind fun wk => wk.phase.job
  | _ => none

/-- The fleet, and the claims a worker's result has decided: the command and the
number of the claim it was under. -/
structure Audit where
  fleet : Fleet
  decided : List (ℕ × ℕ) := []

/-- The claim that a result decides. -/
def Fleet.decides (s : Fleet) (l : FleetLabel) : Option (ℕ × ℕ) :=
  (s.writes l).bind fun j => (s.commands[j.id]?).map fun c => (j.id, c.attempts)

def auditStep (cfg : LifecycleConfig) (a : Audit) (l : FleetLabel) : Option Audit :=
  (fleetStep cfg a.fleet l).map fun fleet =>
    { fleet, decided := a.decided ++ (a.fleet.decides l).toList }

/-- A result is written by the worker of the current claim, while it lasts. -/
def Fleet.Current (s : Fleet) (l : FleetLabel) : Prop :=
  ∀ j ∈ s.writes l, ∀ c ∈ s.commands[j.id]?, c.status = .processing ∧ c.attempts = j.attempts

namespace Audit

/-- No command that is finished in `a` is touched in `b`. -/
def Keeps (a b : Audit) : Prop :=
  ∀ (i : ℕ) (c : Command), a.fleet.commands[i]? = some c → c.status.terminal = true →
    b.fleet.commands[i]? = some c

/-- No claim is decided twice, and a decided claim is over. -/
structure Decided (a : Audit) : Prop where
  once : a.decided.Nodup
  past : ∀ e ∈ a.decided, ∃ c, a.fleet.commands[e.1]? = some c ∧
    (e.2 < c.attempts ∨ e.2 = c.attempts ∧ c.status ≠ .processing)

end Audit

section
variable {cfg : LifecycleConfig} {s s' : Fleet} {a b d : Audit} {i : ℕ} {c c' : Command}
  {l : FleetLabel}

theorem status_of_claimable {lease : Option Lease} {clock w : ℕ}
    (h : c.claimable cfg clock lease w = true) : c.status.terminal = false := by
  obtain ⟨-, hstatus, -⟩ := of_decide_eq_true h
  rcases hstatus with ⟨hstatus, -⟩ | ⟨hstatus, -⟩ <;>
  · rw [hstatus]
    rfl

/-- A current result does not touch a finished row. -/
theorem RowMove.kept (h : RowMove cfg s i c l c') (hcur : s.Current l)
    (hi : s.commands[i]? = some c) (hc : c.status.terminal = true) : c' = c := by
  have hwritten : ∀ j, s.writes l = some j → j.id = i → c' = c := by
    rintro j hj rfl
    obtain ⟨hstatus, -⟩ := hcur j hj c hi
    rw [hstatus] at hc
    cases hc
  cases h with
  | same => rfl
  | claimed w locked hclaimable =>
    rw [status_of_claimable hclaimable] at hc
    cases hc
  | completed w wk j hwk hphase hid =>
    exact hwritten j (by simp [Fleet.writes, hwk, hphase, WorkerPhase.job]) hid
  | retried w wk j hwk hphase hid hattempts =>
    exact hwritten j (by simp [Fleet.writes, hwk, hphase, WorkerPhase.job]) hid
  | failed w wk j hwk hphase hid hattempts =>
    exact hwritten j (by simp [Fleet.writes, hwk, hphase, WorkerPhase.job]) hid
  | exhausted hex =>
    rw [(of_decide_eq_true hex).1] at hc
    cases hc

/-- A claim that is over stays over. -/
theorem RowMove.over (h : RowMove cfg s i c l c') {n : ℕ}
    (hn : n < c.attempts ∨ n = c.attempts ∧ c.status ≠ .processing) :
    n < c'.attempts ∨ n = c'.attempts ∧ c'.status ≠ .processing := by
  have hle : n ≤ c.attempts := hn.elim Nat.le_of_lt fun h => Nat.le_of_eq h.1
  have hwritten : c'.attempts = c.attempts → c'.status ≠ .processing →
      n < c'.attempts ∨ n = c'.attempts ∧ c'.status ≠ .processing := by
    intro hattempts hstatus
    rw [hattempts]
    exact hn.imp_right fun h => ⟨h.1, hstatus⟩
  cases h with
  | same => exact hn
  | claimed => exact .inl (Nat.lt_succ_of_le hle)
  | completed => exact hwritten rfl (by simp [Command.finished])
  | retried => exact hwritten rfl (by simp [Command.retried])
  | failed => exact hwritten rfl (by simp [Command.finished])
  | exhausted => exact hwritten rfl (by simp [Command.finished])

theorem executeStep_completes {w : ℕ} {wk : Worker} {j : Job} {stage : Stage}
    (h : executeStep cfg s w wk j stage .completes = some s') :
    s' = (s.setWorker w wk .idle).updateCommand j.id fun c => c.finished .succeeded := by
  cases stage with
  | completes => exact (Option.some.inj h).symm
  | startChecks => cases h
  | acquires => cases h
  | acquired => cases h
  | started => cases h
  | stops => cases h
  | releases => cases h
  | fails => cases h

theorem executeStep_fails {w : ℕ} {wk : Worker} {j : Job} {stage : Stage}
    (h : executeStep cfg s w wk j stage .fails = some s') :
    s' = (s.setWorker w wk .idle).failJob cfg j := by
  cases stage with
  | fails => exact (Option.some.inj h).symm
  | startChecks => cases h
  | acquires => cases h
  | acquired => cases h
  | started => cases h
  | stops => cases h
  | releases => cases h
  | completes => cases h

theorem commands_failJob (j : Job) (hc : s.commands[j.id]? = some c) :
    ∃ c', (s.failJob cfg j).commands[j.id]? = some c' ∧ c'.attempts = c.attempts ∧
      c'.status ≠ .processing := by
  unfold Fleet.failJob
  split
  · exact ⟨_, getElem?_modify_self hc _, rfl, by simp [Command.retried]⟩
  · split <;> exact ⟨_, getElem?_modify_self hc _, rfl, by simp [Command.finished]⟩

theorem phase_of_job {phase : WorkerPhase} {j : Job} (h : phase.job = some j) :
    ∃ stage, phase = .executing j stage := by
  cases phase with
  | executing j' stage =>
    obtain rfl := Option.some.inj h
    exact ⟨stage, rfl⟩
  | offline => cases h
  | restoring => cases h
  | restoreAcquired => cases h
  | restoreReleases => cases h
  | idle => cases h
  | renewing => cases h
  | leaseLost => cases h
  | shutting => cases h
  | shutdownReleases => cases h

/-- A result ends the claim it decides. -/
theorem row_of_writes {j : Job} (h : fleetStep cfg s l = some s') (hj : s.writes l = some j)
    (hc : s.commands[j.id]? = some c) :
    ∃ c', s'.commands[j.id]? = some c' ∧ c'.attempts = c.attempts ∧ c'.status ≠ .processing := by
  unfold Fleet.writes at hj
  split at hj
  · obtain ⟨wk, hwk, hjob⟩ := Option.bind_eq_some_iff.mp hj
    obtain ⟨stage, hphase⟩ := phase_of_job hjob
    obtain ⟨wk', hwk', hstep⟩ := Option.bind_eq_some_iff.mp h
    obtain rfl : wk = wk' := Option.some.inj (hwk.symm.trans hwk')
    rw [hphase] at hstep
    rw [executeStep_completes hstep]
    exact ⟨_, getElem?_modify_self hc _, rfl, by simp [Command.finished]⟩
  · obtain ⟨wk, hwk, hjob⟩ := Option.bind_eq_some_iff.mp hj
    obtain ⟨stage, hphase⟩ := phase_of_job hjob
    obtain ⟨wk', hwk', hstep⟩ := Option.bind_eq_some_iff.mp h
    obtain rfl : wk = wk' := Option.some.inj (hwk.symm.trans hwk')
    rw [hphase] at hstep
    rw [executeStep_fails hstep]
    exact commands_failJob j hc
  · cases hj

theorem Audit.Decided.step (ha : a.Decided) (hcur : a.fleet.Current l)
    (h : auditStep cfg a l = some b) : b.Decided := by
  obtain ⟨s', hs', rfl⟩ := Option.map_eq_some_iff.mp h
  have hold : ∀ e ∈ a.decided, ∃ c, s'.commands[e.1]? = some c ∧
      (e.2 < c.attempts ∨ e.2 = c.attempts ∧ c.status ≠ .processing) := by
    intro e he
    obtain ⟨c, hc, hover⟩ := ha.past e he
    obtain ⟨c', hc', hmove⟩ := fleetStep_row hc hs'
    exact ⟨c', hc', hmove.over hover⟩
  cases hdecides : a.fleet.decides l with
  | none =>
    refine ⟨?_, ?_⟩
    · show (a.decided ++ _).Nodup
      rw [Option.toList_none, List.append_nil]
      exact ha.once
    · intro e he
      change e ∈ a.decided ++ [] at he
      rw [List.append_nil] at he
      exact hold e he
  | some e₀ =>
    obtain ⟨j, hj, hmap⟩ := Option.bind_eq_some_iff.mp hdecides
    obtain ⟨c, hc, rfl⟩ := Option.map_eq_some_iff.mp hmap
    obtain ⟨hstatus, -⟩ := hcur j hj c hc
    refine ⟨?_, ?_⟩
    · show (a.decided ++ _).Nodup
      rw [Option.toList_some]
      refine List.nodup_append.mpr ⟨ha.once, by simp, ?_⟩
      rintro e he e' he' rfl
      rw [List.mem_singleton.mp he'] at he
      -- the claim was not over yet
      obtain ⟨c₁, hc₁, hover⟩ := ha.past _ he
      obtain rfl : c₁ = c := Option.some.inj (hc₁.symm.trans hc)
      rcases hover with hlt | ⟨-, hne⟩
      · exact absurd hlt (Nat.lt_irrefl _)
      · exact hne hstatus
    · intro e he
      rcases List.mem_append.mp he with he | he
      · exact hold e he
      · rw [List.mem_singleton.mp he]
        obtain ⟨c', hc', hattempts, hover⟩ := row_of_writes hs' hj hc
        exact ⟨c', hc', .inr ⟨hattempts.symm, hover⟩⟩

theorem Audit.Keeps.step (hab : a.Keeps b) (hcur : b.fleet.Current l)
    (h : auditStep cfg b l = some d) : a.Keeps d := by
  obtain ⟨s', hs', rfl⟩ := Option.map_eq_some_iff.mp h
  intro i c hi hc
  have hb := hab i c hi hc
  obtain ⟨c', hc', hmove⟩ := fleetStep_row hb hs'
  rw [hmove.kept hcur hb hc] at hc'
  exact hc'

/-- **Finished commands stay finished.**  In every run whose results are current, no
row that is finished at some point changes later, and no claim is decided twice. -/
theorem finishedStays_of_current {ls ls' : List FleetLabel} (hnew : a.decided = [])
    (hcur : Runs.AllSteps (auditStep cfg) (fun a => a.fleet.Current) a ls)
    (hmid : Runs.run (auditStep cfg) a ls = some b)
    (hcur' : Runs.AllSteps (auditStep cfg) (fun a => a.fleet.Current) b ls')
    (hend : Runs.run (auditStep cfg) b ls' = some d) : b.Keeps d ∧ d.decided.Nodup := by
  have hstart : a.Decided := ⟨by rw [hnew]; exact List.nodup_nil, by simp [hnew]⟩
  have hb := Runs.run_invariant_of_allSteps (fun _ _ _ h hc hstep => Audit.Decided.step h hc hstep)
    hstart hcur hmid
  have hd := Runs.run_invariant_of_allSteps (fun _ _ _ h hc hstep => Audit.Decided.step h hc hstep)
    hb hcur' hend
  have hkeeps : b.Keeps d := Runs.run_invariant_of_allSteps
    (fun _ _ _ h hc hstep => Audit.Keeps.step h hc hstep) (fun _ _ hi _ => hi) hcur' hend
  exact ⟨hkeeps, hd.once⟩

end

/-! ## Two attempts -/

instance (s : Fleet) (l : FleetLabel) : Decidable (s.Current l) :=
  inferInstanceAs (Decidable (∀ j ∈ s.writes l, ∀ c ∈ s.commands[j.id]?,
    c.status = .processing ∧ c.attempts = j.attempts))

/-- Two workers, and a command the first of them has claimed. -/
def firstClaims : List FleetLabel :=
  [.worker 0 (.boots []), .worker 0 .restores, .worker 1 (.boots []), .worker 1 .restores,
   .enqueue 7 .reconcile false, .worker 0 (.claims [])]

/-- The second worker claims it again and finishes it. -/
def secondFinishes : List FleetLabel := [.worker 1 (.claims []), .worker 1 .completes]

def twoIdle : Audit where
  fleet := { workers := [{}, {}] }

theorem finishedStays_of_current_retried :
    ∃ b d, Runs.run (auditStep {}) twoIdle
        (firstClaims ++ [.worker 0 .raises, .worker 0 .fails, .tick 1] ++ secondFinishes) = some b ∧
      Runs.run (auditStep {}) b [.tick 60, .failExhausted] = some d ∧
        b.Keeps d ∧ d.decided.Nodup := by
  obtain ⟨b, hb⟩ := Option.isSome_iff_exists.mp
    (show (Runs.run (auditStep {}) twoIdle
      (firstClaims ++ [.worker 0 .raises, .worker 0 .fails, .tick 1] ++ secondFinishes)).isSome by
        decide +kernel)
  obtain ⟨d, hd⟩ : ∃ d, Runs.run (auditStep {}) b [.tick 60, .failExhausted] = some d := ⟨_, rfl⟩
  have hlater : Runs.AllSteps (auditStep {}) (fun a => a.fleet.Current) b
      [.tick 60, .failExhausted] :=
    ⟨fun j hj => (by cases hj), fun j hj => (by cases hj), trivial⟩
  exact ⟨b, d, hb, hd, finishedStays_of_current rfl (by decide +kernel) hb hlater hd⟩

/-- The first worker's lease runs out; it fails the command the second one has
finished. -/
theorem lateFailure_reopens :
    ∃ b d, Runs.run (auditStep {}) twoIdle (firstClaims ++ [.tick 31] ++ secondFinishes) = some b ∧
      Runs.run (auditStep {}) b [.worker 0 .raises, .worker 0 .fails] = some d ∧ ¬ b.Keeps d := by
  obtain ⟨d, hd, hstatus⟩ : ∃ d, Runs.run (auditStep {}) twoIdle
      (firstClaims ++ [.tick 31] ++ secondFinishes ++ [.worker 0 .raises, .worker 0 .fails]) = some d ∧
        (d.fleet.commands[0]?).map Command.status = some .pending :=
    Runs.exists_of_any (by decide +kernel)
  obtain ⟨b, hb, hfinished⟩ : ∃ b, Runs.run (auditStep {}) twoIdle
      (firstClaims ++ [.tick 31] ++ secondFinishes) = some b ∧
        (b.fleet.commands[0]?).map Command.status = some .succeeded :=
    Runs.exists_of_any (by decide +kernel)
  refine ⟨b, d, hb, Runs.run_append_of_eq_some hb hd, fun hkeeps => ?_⟩
  obtain ⟨c, hc, hsucceeded⟩ := Option.map_eq_some_iff.mp hfinished
  have hkept := hkeeps 0 c hc (by rw [hsucceeded]; rfl)
  rw [hkept, Option.map_some, hsucceeded] at hstatus
  exact absurd hstatus (by decide)

end AlgoTrade.Lifecycle
