import AlgoTrade.Lifecycle.WorkerSteps

/-! # The last lifecycle request wins

* `Inv.step`: what every label preserves when the requests are settled.
* `lastRequestWins_of_settled`: once no command is open, the strategy runs exactly
  when the last request was a start.
* `delayedStop_wins`: a stop that is retried after a later start. -/

namespace AlgoTrade.Lifecycle.Control

variable {cfg : LifecycleConfig} {strategyId : ℕ} {d d' : Control} {w : ℕ} {wk u : Worker}
  {j : Job} {stage : Stage}

/-! ## Runs -/

theorem Inv.executeStep {l : WorkerLabel} {s' : Fleet} (h : d.Inv strategyId)
    (hwk : d.fleet.workers[w]? = some wk) (hphase : wk.phase = .executing j stage)
    (hin : d.InScope strategyId cfg (.fleet (.worker w l)))
    (hset : d.Settled strategyId (.fleet (.worker w l)))
    (hstep : Lifecycle.executeStep cfg d.fleet w wk j stage l = some s') :
    Control.Inv strategyId
      { d with fleet := s', closed := d.closed || d.fleet.closes (.worker w l) } := by
  have hclosed : d.closed = true → (d.closed || d.fleet.closes (.worker w l)) = true := by
    intro h
    rw [h]
    rfl
  unfold Lifecycle.executeStep at hstep
  split at hstep
  · obtain rfl := Option.some.inj hstep
    exact h.checksStatus hwk hphase hclosed
  · obtain rfl := Option.some.inj hstep
    exact h.acquires hwk hphase hclosed
  -- `executorStarts`
  · rw [← apply_ite some, Option.some.injEq] at hstep
    subst hstep
    exact h.executorStarts hwk hphase hclosed
  -- `waits`
  · rw [← apply_ite some, Option.some.injEq] at hstep
    subst hstep
    exact h.waits hwk hphase (by simpa [Settled] using hset) hclosed
  -- `executorStops`
  · next outcome =>
    obtain rfl := Option.some.inj hstep
    simp only [Settled, hwk, Option.all_some, hphase, decide_eq_true_eq] at hset
    refine h.executorStops hwk hphase hset hclosed ?_
    rintro rfl hcloses
    simp [Fleet.closes, hwk, hphase, hcloses]
  · obtain rfl := Option.some.inj hstep
    exact h.releases hwk hphase hclosed
  · obtain rfl := Option.some.inj hstep
    exact h.completes hwk hphase hclosed
  -- `fails`
  · obtain rfl := Option.some.inj hstep
    simp only [InScope, hwk, Option.all_some, hphase, decide_eq_true_eq] at hin
    exact h.fails hwk hphase hin hclosed
  · cases hstep
  -- an exception
  · obtain rfl := Option.some.inj hstep
    exact h.toFails hwk hphase hclosed
  · cases hstep

theorem Inv.workerStep {l : WorkerLabel} {s' : Fleet} (h : d.Inv strategyId)
    (hwk : d.fleet.workers[w]? = some wk) (hin : d.InScope strategyId cfg (.fleet (.worker w l)))
    (hset : d.Settled strategyId (.fleet (.worker w l)))
    (hstep : Lifecycle.workerStep cfg d.fleet w wk wk.phase l = some s') :
    Control.Inv strategyId
      { d with fleet := s', closed := d.closed || d.fleet.closes (.worker w l) } := by
  have hclosed : d.closed = true → (d.closed || d.fleet.closes (.worker w l)) = true := by
    intro h
    rw [h]
    rfl
  have hloop := (h.workers w wk hwk).phase
  unfold Lifecycle.workerStep at hstep
  split at hstep
  -- `runtimeExits`
  · split at hstep
    next hi =>
      obtain rfl := Option.some.inj hstep
      exact h.runtimeExits hwk hi (of_decide_eq_true hin) hclosed
    next => cases hstep
  · cases hin
  · cases hin
  · cases hstep
  · cases hin
  · cases hin
  · cases hin
  · cases hin
  · cases hin
  -- `renewBegins`
  · split at hstep
    · obtain rfl := Option.some.inj hstep
      exact h.renewBegins hwk hclosed
    · cases hstep
  -- `renews`
  · obtain rfl := Option.some.inj hstep
    exact h.renewsNext hwk (by assumption) (.inr rfl) hclosed
  · obtain rfl := Option.some.inj hstep
    exact h.renewsNext hwk (by assumption) (.inl ⟨_, rfl, fun _ hi => List.mem_cons_of_mem _ hi⟩)
      hclosed
  · next hphase =>
    obtain ⟨lease, hlease, hinv⟩ := h.renews cfg hwk hphase hclosed
    rw [hlease] at hstep
    obtain rfl := Option.some.inj hstep
    exact hinv
  -- `stopsLost`
  · next hphase =>
    rw [hphase] at hloop
    cases hloop
  -- `claims`
  · obtain ⟨i, hi, hmap⟩ := Option.bind_eq_some_iff.mp hstep
    obtain ⟨c, hc, rfl⟩ := Option.map_eq_some_iff.mp hmap
    exact h.claims hwk hc (claimable_of_claimNext hi hc) hclosed
  -- `executing`
  · exact h.executeStep hwk (by assumption) hin hset hstep
  · cases hin
  · cases hin
  · cases hin
  · cases hstep

/-- **One label** that is in scope and settled preserves the invariant. -/
theorem Inv.step {l : ControlLabel} (h : d.Inv strategyId)
    (hok : d.InScope strategyId cfg l = true ∧ d.Settled strategyId l = true)
    (hstep : controlStep cfg strategyId d l = some d') : d'.Inv strategyId := by
  obtain ⟨hin, hset⟩ := hok
  cases l with
  | request r => exact h.request hset hstep
  | posts => exact h.posts hstep
  | fleet l =>
    cases l with
    | tick seconds => exact h.tick hin hstep
    | setDesired => cases hin
    | enqueue => cases hin
    | failExhausted => exact h.failExhausted hstep
    | cleanupLeases => exact h.cleanupLeases hstep
    | worker w l =>
      obtain ⟨s', hs', rfl⟩ := controlStep_fleet hstep
      obtain ⟨wk, hwk, hworker⟩ := Option.bind_eq_some_iff.mp hs'
      exact h.workerStep hwk hin hset hworker

theorem Fresh.inv (h : d.Fresh strategyId) : d.Inv strategyId := by
  have hviews : d.views = [] := by
    unfold Control.views
    rw [h.commands]
    rfl
  have hidle : ∀ {w : ℕ} {wk : Worker}, d.fleet.workers[w]? = some wk →
      wk.running = [] ∧ wk.phase = .idle := fun hwk => h.workers _ (List.mem_of_getElem? hwk)
  refine ⟨?_, ?_, ?_, ?_, ?_, ?_, ?_, ?_, ?_⟩
  · intro w wk hwk
    obtain ⟨hrunning, hphase⟩ := hidle hwk
    refine ⟨by rw [hphase]; rfl, fun i hi => ?_, fun j st hj => ?_⟩
    · rw [hrunning, hphase] at hi
      cases hi
    · rw [hphase] at hj
      cases hj
  · intro w v a b j k st st' ha _ hj
    rw [(hidle ha).2] at hj
    cases hj
  · rw [hviews]
    intro v hv
    cases hv
  · rw [h.commands]
    intro c hc
    cases hc
  · rw [h.lease]
    intro l hl
    cases hl
  · rw [hviews]
    intro i k u v hu
    cases hu
  · rw [h.lastStart]
    intro hlast
    cases hlast
  · intro _
    rw [hviews, h.closeAsked]
    refine ⟨h.desired, fun v hv => (by cases hv), .inr (.inr ?_), fun hask => (by cases hask)⟩
    rintro ⟨wk, hwk, hmem⟩
    rw [(h.workers wk hwk).1] at hmem
    cases hmem
  · rw [h.posting]
    intro r hr
    cases hr

theorem Inv.lastRequestWins (h : d.Inv strategyId) : d.LastRequestWins strategyId := by
  intro hposting hdone
  have hno : ∀ t, ¬ HasOpen t d.views := by
    rintro t ⟨v, hv, -, hopen⟩
    have hstrategy := (h.ours v hv).1
    obtain ⟨c, hc, rfl⟩ := List.mem_map.mp hv
    rw [show c.view.isOpen = c.isOpen from rfl, hdone c hc hstrategy] at hopen
    cases hopen
  cases hlast : d.lastStart with
  | true =>
    obtain ⟨-, -, hasked, hposted | hopen | hruns⟩ := h.mode.started hlast
    · rw [hposting] at hposted
      cases hposted
    · exact absurd hopen (hno _)
    · refine ⟨⟨fun _ => rfl, fun _ => hruns⟩, fun hask => ?_⟩
      rw [hasked] at hask
      cases hask
  | false =>
    obtain ⟨-, -, hstop, hcl⟩ := h.mode.stopped hlast
    refine ⟨⟨fun hruns => ?_, fun h => by cases h⟩, fun hask => ?_⟩
    · rcases hstop with hposted | hopen | hnot
      · exact absurd hposting hposted
      · exact absurd hopen (hno _)
      · exact absurd hruns hnot
    · rcases hcl hask with hclosed | hposted | ⟨v, hv, htype, hopen, -⟩
      · exact hclosed
      · rw [hposting] at hposted
        cases hposted
      · exact absurd ⟨v, hv, htype, hopen⟩ (hno .stop)

/-- **The last request wins** in every run, of what the requests and interleavings
are, whose requests are settled. -/
theorem lastRequestWins_of_settled {ls : List ControlLabel} (hd : d.Fresh strategyId)
    (hin : Runs.AllSteps (controlStep cfg strategyId)
      (fun d l => d.InScope strategyId cfg l = true ∧ d.Settled strategyId l = true) d ls)
    (hrun : Runs.run (controlStep cfg strategyId) d ls = some d') : d'.LastRequestWins strategyId :=
  (Runs.run_invariant_of_allSteps (fun _ _ _ h hok hstep => Inv.step h hok hstep) hd.inv hin
    hrun).lastRequestWins

/-! ## One worker -/

def oneIdle : Control where
  fleet := { workers := [{ phase := .idle }] }

theorem fresh_oneIdle : oneIdle.Fresh strategyId := by
  refine ⟨fun wk hwk => ?_, rfl, rfl, rfl, rfl, rfl, rfl⟩
  rw [List.mem_singleton.mp hwk]
  exact ⟨rfl, rfl⟩

def act (l : WorkerLabel) : ControlLabel := .fleet (.worker 0 l)

/-- A start request, and the worker executes it. -/
def startExecuted : List ControlLabel :=
  [.request .start, .posts, act (.claims []), act .checksStatus, act .acquires,
   act (.executorStarts true), act (.waits true true), act .completes]

/-- A stop request whose first attempt fails. -/
def stopRetried : List ControlLabel :=
  [.request (.stop false), .posts, act (.claims []), act (.executorStops .stopFailed), act .fails]

/-- The later attempt. -/
def stopExecuted : List ControlLabel :=
  [.fleet (.tick 1), act (.claims []), act (.executorStops (.stopped false)), act .releases,
   act .completes]

theorem lastRequestWins_of_settled_retried :
    ∃ d, Runs.run (controlStep {} 7) oneIdle (startExecuted ++ stopRetried ++ stopExecuted) = some d ∧
      d.LastRequestWins 7 := by
  obtain ⟨d, hd⟩ := Option.isSome_iff_exists.mp
    (show (Runs.run (controlStep {} 7) oneIdle
      (startExecuted ++ stopRetried ++ stopExecuted)).isSome by decide +kernel)
  exact ⟨d, hd, lastRequestWins_of_settled fresh_oneIdle (by decide +kernel) hd⟩

/-- The later attempt stops the strategy after a newer start request. -/
theorem delayedStop_wins :
    ∃ ls d, ls = startExecuted ++ stopRetried ++
        [.request .start, .posts, act (.claims []), act .checksStatus, act .completes] ++ stopExecuted ∧
      Runs.AllSteps (controlStep {} 7) (fun d l => d.InScope 7 {} l = true) oneIdle ls ∧
      Runs.run (controlStep {} 7) oneIdle ls = some d ∧ ¬ d.LastRequestWins 7 := by
  obtain ⟨d, hd, hposting, hdone, hlast, hidle⟩ : ∃ d,
      Runs.run (controlStep {} 7) oneIdle (startExecuted ++ stopRetried ++
          [.request .start, .posts, act (.claims []), act .checksStatus, act .completes] ++
            stopExecuted) = some d ∧
        d.posting = none ∧ (∀ c ∈ d.fleet.commands, c.strategyId = 7 → c.isOpen = false) ∧
          d.lastStart = true ∧ ∀ wk ∈ d.fleet.workers, 7 ∉ wk.running :=
    Runs.exists_of_any (by decide +kernel)
  refine ⟨_, d, rfl, by decide +kernel, hd, fun hwins => ?_⟩
  obtain ⟨wk, hwk, hmem⟩ := (hwins hposting hdone).1.mpr hlast
  exact hidle wk hwk hmem

/-- A stop request that is to close the positions meets an open one that is not. -/
theorem mergedStop_keepsPositions :
    ∃ d, Runs.run (controlStep {} 7) oneIdle (startExecuted ++
        [.request (.stop false), .posts, .request (.stop true), .posts, act (.claims []),
         act (.executorStops (.stopped false)), act .releases, act .completes]) = some d ∧
      ¬ d.LastRequestWins 7 := by
  obtain ⟨d, hd, hposting, hdone, hasked, hclosed⟩ : ∃ d,
      Runs.run (controlStep {} 7) oneIdle (startExecuted ++
          [.request (.stop false), .posts, .request (.stop true), .posts, act (.claims []),
           act (.executorStops (.stopped false)), act .releases, act .completes]) = some d ∧
        d.posting = none ∧ (∀ c ∈ d.fleet.commands, c.strategyId = 7 → c.isOpen = false) ∧
          d.closeAsked = true ∧ d.closed = false :=
    Runs.exists_of_any (by decide +kernel)
  refine ⟨d, hd, fun hwins => ?_⟩
  rw [(hwins hposting hdone).2 hasked] at hclosed
  cases hclosed

end AlgoTrade.Lifecycle.Control
