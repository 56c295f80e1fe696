import AlgoTrade.Agent.RateLimit
import AlgoTrade.Lib.SlidingWindow
import Mathlib.Algebra.Order.BigOperators.Group.Finset
import Mathlib.Data.Fintype.BigOperators
import Mathlib.Data.Fintype.Prod
import Mathlib.Tactic.Linarith

/-! # The windows of the rate limit

What is let through in a window of a minute, wherever it begins.

* `Counted`: a counter of Redis has counted what it granted, while its minute lasts.
* `Logged`: the log of a worker is a sliding window of the general kind.
* `Held`: a request that passes was granted for its token and for its user.
* `passed_bounded`: the bound, with Redis failing at any time. -/

namespace AlgoTrade.Agent.RateLimit

section
variable {workers threads : ℕ} {cfg : Config} {s s' : State workers threads} {t : ℚ}
  {a : Action workers threads}

/-! ## Decisions -/

/-- After a decision a thread is back at the start of a limiter, or done. -/
theorem decide_eq (s : State workers threads) (thread : Fin workers × Fin threads)
    (r : Request workers) (d : Decision) (time : ℚ) (source : Option (Fin workers)) :
    ∃ (next : Option (Request workers)) (passed : List (Passed workers)),
      (∀ r' ∈ next, r'.stage = .limiting) ∧
      s.decide thread r d time source =
        { s.moveOn thread next with
          grants := s.grants ++ if d.allowed then [⟨r.key, time, source⟩] else []
          passed := passed } := by
  unfold State.decide
  split
  · split
    · refine ⟨_, _, fun r' hr' => ?_, rfl⟩
      rw [← Option.some.inj hr']
    · exact ⟨none, _, fun r' hr' => (Option.not_mem_none r' hr').elim, rfl⟩
  · refine ⟨none, s.passed, fun r' hr' => (Option.not_mem_none r' hr').elim, ?_⟩
    rw [List.append_nil]
    rfl

/-! ## Counters -/

/-- What Redis has granted under the key in the minute. -/
def grantedIn (grants : List (Grant workers)) (key : Key) (minute : ℤ) : ℕ :=
  grants.countP fun g => decide (g.key = key) && (decide (g.source = none) &&
    decide (minuteOf g.time = minute))

/-- An answer of Redis comes before the counter of its minute can expire. -/
def inTime (s : State workers threads) (call : ℚ × Action workers threads) : Bool :=
  match call.2 with
  | .answer thread _ => (s.requests thread).all fun r => match r.stage with
    | .asking reading => call.1 ≤ reading + 5
    | _ => true
  | _ => true

def Prompt (s : State workers threads) (call : ℚ × Action workers threads) : Prop :=
  inTime s call = true

instance (s : State workers threads) (call : ℚ × Action workers threads) :
    Decidable (Prompt s call) := inferInstanceAs (Decidable (_ = true))

theorem Prompt.answer {thread : Fin workers × Fin threads} {ttl : ℤ} {r : Request workers}
    {reading : ℚ} (h : Prompt s (t, .answer thread ttl)) (hr : s.requests thread = some r)
    (hstage : r.stage = .asking reading) : t ≤ reading + 5 := by
  unfold Prompt inTime at h
  dsimp only at h
  rw [hr, Option.all_some, hstage] at h
  exact of_decide_eq_true h

structure Counted (cfg : Config) (s : State workers threads) : Prop where
  asked : ∀ thread, ∀ r ∈ s.requests thread, ∀ reading, r.stage = .asking reading →
    reading ≤ s.clock
  expiry : ∀ key (minute : ℤ), ∀ c ∈ s.redis (key, minute), 60 * (minute : ℚ) + 65 ≤ c.expiresAt
  granted : ∀ key minute, (grantedIn s.grants key minute : ℤ) ≤ cfg.limit key
  counted : ∀ key (minute : ℤ), s.clock < 60 * (minute : ℚ) + 65 →
    grantedIn s.grants key minute ≤ (s.redis (key, minute)).elim 0 Counter.count

theorem le_limit (cfg : Config) (key : Key) : 1 ≤ cfg.limit key := le_max_left ..

theorem sixty_minuteOf_le (reading : ℚ) : 60 * (minuteOf reading : ℚ) ≤ reading := by
  have := Int.floor_le (reading / 60)
  unfold minuteOf
  linarith

theorem lt_minuteOf (reading : ℚ) : reading < 60 * (minuteOf reading : ℚ) + 60 := by
  have := Int.lt_floor_add_one (reading / 60)
  unfold minuteOf
  linarith

theorem Counted.start (cfg : Config) (workers threads : ℕ) (t : ℚ) :
    Counted cfg (State.start workers threads t) where
  asked _ r hr := (Option.not_mem_none r hr).elim
  expiry _ _ c hc := (Option.not_mem_none c hc).elim
  granted key _ := zero_le_one.trans (le_limit cfg key)
  counted _ _ _ := Nat.zero_le _

theorem Counted.wait (h : Counted cfg s) (ht : s.clock ≤ t) :
    Counted cfg { s with clock := t } where
  asked thread r hr reading hstage := (h.asked thread r hr reading hstage).trans ht
  expiry := h.expiry
  granted := h.granted
  counted key minute hlt := h.counted key minute (ht.trans_lt hlt)

theorem increment_expiry {counter : Option Counter} {minute : ℤ}
    (hcounter : ∀ c ∈ counter, 60 * (minute : ℚ) + 65 ≤ c.expiresAt) (ht : 60 * (minute : ℚ) ≤ t) :
    60 * (minute : ℚ) + 65 ≤ (increment counter t).expiresAt := by
  unfold increment
  split
  next => exact add_le_add_left ht 65
  next c =>
    split
    next => exact hcounter c rfl
    next => exact add_le_add_left ht 65

theorem increment_count (counter : Option Counter) (t : ℚ)
    (hlive : ∀ c ∈ counter, t < c.expiresAt) :
    (increment counter t).count = counter.elim 0 Counter.count + 1 := by
  unfold increment
  split
  next => rfl
  next c => rw [if_pos (hlive c rfl)]; rfl

/-- Redis runs a script. -/
theorem Counted.executed (h : Counted cfg s) {key : Key} {minute : ℤ}
    (hbegun : 60 * (minute : ℚ) ≤ s.clock) : Counted cfg (s.executed key minute s.clock) where
  asked := h.asked
  expiry key' minute' c hc := by
    unfold State.executed at hc
    by_cases heq : (key', minute') = (key, minute)
    · obtain ⟨rfl, rfl⟩ := Prod.mk.inj heq
      dsimp only at hc
      rw [Function.update_self] at hc
      obtain rfl := Option.some.inj hc
      exact increment_expiry (h.expiry key' minute') hbegun
    · dsimp only at hc
      rw [Function.update_of_ne heq] at hc
      exact h.expiry key' minute' c hc
  granted := h.granted
  counted key' minute' hlt := by
    have hcounted := h.counted key' minute' hlt
    unfold State.executed
    by_cases heq : (key', minute') = (key, minute)
    · obtain ⟨rfl, rfl⟩ := Prod.mk.inj heq
      dsimp only
      rw [Function.update_self]
      refine hcounted.trans ?_
      show _ ≤ (increment ..).count
      rw [increment_count _ s.clock fun c hc => hlt.trans_le (h.expiry key' minute' c hc)]
      exact Nat.le_succ _
    · dsimp only
      rw [Function.update_of_ne heq]
      exact hcounted

theorem Counted.moveOn (h : Counted cfg s) {thread : Fin workers × Fin threads}
    {next : Option (Request workers)}
    (hnext : ∀ r ∈ next, ∀ reading, r.stage = .asking reading → reading ≤ s.clock) :
    Counted cfg (s.moveOn thread next) where
  asked thread' r hr := by
    unfold State.moveOn at hr
    dsimp only at hr
    by_cases heq : thread' = thread
    · rw [heq, Function.update_self] at hr
      exact hnext r hr
    · rw [Function.update_of_ne heq] at hr
      exact h.asked thread' r hr
  expiry := h.expiry
  granted := h.granted
  counted := h.counted

theorem grantedIn_append (grants : List (Grant workers)) (g : Grant workers) (key : Key)
    (minute : ℤ) :
    grantedIn (grants ++ [g]) key minute = grantedIn grants key minute +
      if g.key = key ∧ g.source = none ∧ minuteOf g.time = minute then 1 else 0 := by
  unfold grantedIn
  rw [List.countP_append, List.countP_singleton]
  congr 1
  refine if_congr ?_ rfl rfl
  rw [Bool.and_eq_true, Bool.and_eq_true, decide_eq_true_iff, decide_eq_true_iff,
    decide_eq_true_iff]

/-- A decision, for which Redis has counted if it is of Redis. -/
theorem Counted.decided (h : Counted cfg s) (thread : Fin workers × Fin threads)
    (r : Request workers) {d : Decision} {time : ℚ} {source : Option (Fin workers)}
    (hroom : d.allowed = true → source = none →
      (grantedIn s.grants r.key (minuteOf time) + 1 : ℤ) ≤ cfg.limit r.key ∧
        grantedIn s.grants r.key (minuteOf time) + 1 ≤
          (s.redis (r.key, minuteOf time)).elim 0 Counter.count) :
    Counted cfg (s.decide thread r d time source) := by
  obtain ⟨next, passed, hnext, heq⟩ := decide_eq s thread r d time source
  have hmoved : Counted cfg (s.moveOn thread next) := h.moveOn fun r' hr' reading hstage => by
    rw [hnext r' hr'] at hstage
    cases hstage
  rw [heq]
  refine ⟨hmoved.asked, h.expiry, fun key minute => ?_, fun key minute hlt => ?_⟩
  · have hkey := h.granted key minute
    dsimp only
    split
    next hallowed =>
      rw [grantedIn_append]
      split
      next hin =>
        obtain ⟨rfl, hsource, rfl⟩ := hin
        push_cast
        exact (hroom hallowed hsource).1
      next => exact hkey
    next =>
      rw [List.append_nil]
      exact hkey
  · have hkey := h.counted key minute hlt
    dsimp only
    split
    next hallowed =>
      rw [grantedIn_append]
      split
      next hin =>
        obtain ⟨rfl, hsource, rfl⟩ := hin
        exact (hroom hallowed hsource).2
      next => exact hkey
    next =>
      rw [List.append_nil]
      exact hkey

/-- **Each call** keeps it, when the answers come in time. -/
theorem Counted.called (h : Counted cfg s) (hcalled : Called cfg s a s')
    (hprompt : Prompt s (s.clock, a)) : Counted cfg s' := by
  cases hcalled with
  | arrive thread tokenId userId hfree =>
    refine h.moveOn fun r hr reading hstage => ?_
    obtain rfl := Option.some.inj hr
    cases hstage
  | turn thread r stage a hr hstage =>
    refine h.moveOn fun r' hr' reading hstage' => ?_
    obtain rfl := Option.some.inj hr'
    rcases hstage with ⟨-, rfl | rfl⟩ | ⟨-, rfl⟩
    · cases hstage'
    · exact (Stage.asking.inj hstage').ge
    · cases hstage'
  | answer thread r reading ttl hr hstage =>
    have hbegun : 60 * (minuteOf reading : ℚ) ≤ s.clock :=
      (sixty_minuteOf_le reading).trans (h.asked thread r hr reading hstage)
    have hlive : s.clock < 60 * (minuteOf reading : ℚ) + 65 := by
      have hintime : s.clock ≤ reading + 5 := hprompt.answer hr hstage
      have := lt_minuteOf reading
      linarith
    have hcount := increment_count (s.redis (r.key, minuteOf reading)) s.clock
      fun c hc => hlive.trans_le (h.expiry r.key _ c hc)
    refine (h.executed hbegun).decided thread r fun hallowed _ => ?_
    have hbefore := h.counted r.key _ hlive
    have hle : ((increment (s.redis (r.key, minuteOf reading)) s.clock).count : ℤ) ≤
        cfg.limit r.key := of_decide_eq_true hallowed
    have hnow : ((s.executed r.key (minuteOf reading) s.clock).redis
        (r.key, minuteOf reading)).elim 0 Counter.count =
          (increment (s.redis (r.key, minuteOf reading)) s.clock).count := by
      unfold State.executed
      dsimp only
      rw [Function.update_self]
      rfl
    rw [hnow]
    show ((grantedIn s.grants r.key (minuteOf reading) : ℤ) + 1 ≤ _) ∧
      grantedIn s.grants r.key (minuteOf reading) + 1 ≤ _
    omega
  | fail thread r reading executed hr hstage =>
    have hbegun : 60 * (minuteOf reading : ℚ) ≤ s.clock :=
      (sixty_minuteOf_le reading).trans (h.asked thread r hr reading hstage)
    have hstopped : ∀ {u : State workers threads}, Counted cfg u →
        Counted cfg (u.moveOn thread (some { r with stage := .fallback })) := fun hu => by
      refine hu.moveOn fun r' hr' reading' hstage' => ?_
      obtain rfl := Option.some.inj hr'
      cases hstage'
    split
    next => exact hstopped (h.executed hbegun)
    next => exact hstopped h
  | stray key minute hbegun => exact h.executed hbegun
  | lock thread r now hr hstage =>
    have hmemory : Counted cfg { s with
        memory := Function.update s.memory (thread.1, cfg.hash r.key)
          (memoryRateLimit (s.memory (thread.1, cfg.hash r.key)) (cfg.limit r.key) now).2 } :=
      ⟨h.asked, h.expiry, h.granted, h.counted⟩
    exact hmemory.decided thread r fun _ hsource => by cases hsource

theorem Counted.run {calls : List (ℚ × Action workers threads)} (h : Counted cfg s)
    (hprompt : Runs.AllSteps (step cfg) Prompt s calls)
    (hrun : Runs.run (step cfg) s calls = some s') : Counted cfg s' := by
  refine Runs.run_invariant_of_allSteps (fun s call s' hs hok hstep => ?_) h hprompt hrun
  obtain ⟨ht, hcalled⟩ := step_cases (t := call.1) (a := call.2) hstep
  exact (hs.wait ht).called hcalled hok

/-! ## Logs -/

/-- The reading a request brings to the log of its hash. -/
def Request.reading (cfg : Config) (hash : ℤ) (r : Request workers) : Option ℚ :=
  match r.stage with
  | .locking now => if cfg.hash r.key = hash then some now else none
  | _ => none

/-- A grant of the worker's log of the hash. -/
def Grant.logged (cfg : Config) (slot : Fin workers × ℤ) (g : Grant workers) :
    Option (SlidingWindow.Grant Key ℚ) :=
  if g.source = some slot.1 ∧ cfg.hash g.key = slot.2 then some ⟨g.key, g.time⟩ else none

/-- The log of a worker for a hash, with what it granted and the threads on their way to it. -/
def State.log (cfg : Config) (s : State workers threads) (slot : Fin workers × ℤ) :
    SlidingWindow.State Key ℚ (Fin threads) where
  clock := s.clock
  log := s.memory slot
  granted := s.grants.filterMap (Grant.logged cfg slot)
  readings i := (s.requests (slot.1, i)).bind (Request.reading cfg slot.2)

def Logged (cfg : Config) (s : State workers threads) : Prop :=
  ∀ slot, SlidingWindow.Kept 60 (fun key => (cfg.limit key).toNat) (s.log cfg slot)

theorem Logged.start (cfg : Config) (workers threads : ℕ) (t : ℚ) :
    Logged cfg (State.start workers threads t) := fun _ => SlidingWindow.Kept.start 60 _ t

theorem reading_eq_none {r : Request workers} {hash : ℤ} (h : ∀ now, r.stage ≠ .locking now) :
    r.reading cfg hash = none := by
  unfold Request.reading
  split
  next now hstage => exact absurd hstage (h now)
  next => rfl

/-- A thread that moves on brings its new reading, if any. -/
theorem log_moveOn (slot : Fin workers × ℤ) (thread : Fin workers × Fin threads)
    (next : Option (Request workers)) :
    (s.moveOn thread next).log cfg slot =
      if thread.1 = slot.1 then
        { s.log cfg slot with
          readings := Function.update (s.log cfg slot).readings thread.2
            (next.bind (Request.reading cfg slot.2)) }
      else s.log cfg slot := by
  unfold State.moveOn State.log
  dsimp only
  split
  next hworker =>
    congr 1
    funext i
    by_cases hi : i = thread.2
    · subst hi
      rw [Function.update_self, ← hworker, Function.update_self]
    · rw [Function.update_of_ne hi, Function.update_of_ne fun h => hi (Prod.mk.inj h).2]
  next hworker =>
    congr 1
    funext i
    rw [Function.update_of_ne fun h => hworker (congrArg Prod.fst h).symm]

/-- Where a thread has no reading before or after, a log does not see it. -/
theorem log_moveOn_of_none {thread : Fin workers × Fin threads} {next : Option (Request workers)}
    (slot : Fin workers × ℤ)
    (hbefore : thread.1 = slot.1 →
      (s.requests thread).bind (Request.reading cfg slot.2) = none)
    (hafter : next.bind (Request.reading cfg slot.2) = none) :
    (s.moveOn thread next).log cfg slot = s.log cfg slot := by
  rw [log_moveOn]
  split
  next hworker =>
    have hreading : (s.log cfg slot).readings thread.2 = none := by
      unfold State.log
      dsimp only
      rw [← hworker]
      exact hbefore hworker
    rw [hafter, ← hreading, Function.update_eq_self]
  next => rfl

theorem log_decide (cfg : Config) (slot : Fin workers × ℤ) (thread : Fin workers × Fin threads)
    (r : Request workers) (d : Decision) (time : ℚ) (source : Option (Fin workers)) :
    ∃ next : Option (Request workers), (∀ r' ∈ next, r'.stage = .limiting) ∧
      (s.decide thread r d time source).log cfg slot =
        { (s.moveOn thread next).log cfg slot with
          granted := (s.log cfg slot).granted ++
            (if d.allowed then [⟨r.key, time, source⟩] else []).filterMap
              (Grant.logged cfg slot) } := by
  obtain ⟨next, passed, hnext, heq⟩ := decide_eq s thread r d time source
  refine ⟨next, hnext, ?_⟩
  unfold State.log
  rw [heq, List.filterMap_append]

theorem memoryRateLimit_log (bucket : List ℚ) (limit : ℤ) (now : ℚ) :
    (memoryRateLimit bucket limit now).2 = SlidingWindow.recent 60 bucket now ++
      if (memoryRateLimit bucket limit now).1.allowed then [now] else [] := by
  unfold memoryRateLimit SlidingWindow.recent
  dsimp only
  split
  · exact (List.append_nil _).symm
  · rfl

theorem memoryRateLimit_allowed (bucket : List ℚ) (limit : ℤ) (now : ℚ)
    (h : (memoryRateLimit bucket limit now).1.allowed = true) :
    ((SlidingWindow.recent 60 bucket now).length : ℤ) < max 1 limit := by
  unfold memoryRateLimit at h
  dsimp only at h
  split at h
  next => cases h
  next hroom => exact not_le.mp hroom

theorem bind_reading_eq_none {next : Option (Request workers)} {hash : ℤ}
    (h : ∀ r ∈ next, ∀ now, r.stage ≠ .locking now) :
    next.bind (Request.reading cfg hash) = none := by
  cases next with
  | none => rfl
  | some r => exact reading_eq_none (h r rfl)

/-- A worker's thread gets to the log. -/
theorem Logged.lock (h : Logged cfg s) {thread : Fin workers × Fin threads}
    {r : Request workers} {now : ℚ} (hr : s.requests thread = some r)
    (hstage : r.stage = .locking now) :
    Logged cfg (State.decide
      { s with
        memory := Function.update s.memory (thread.1, cfg.hash r.key)
          (memoryRateLimit (s.memory (thread.1, cfg.hash r.key)) (cfg.limit r.key) now).2 }
      thread r (memoryRateLimit (s.memory (thread.1, cfg.hash r.key)) (cfg.limit r.key) now).1 now
      (some thread.1)) := by
  intro slot
  obtain ⟨next, hnext, hlog⟩ := log_decide (s := { s with
    memory := Function.update s.memory (thread.1, cfg.hash r.key)
      (memoryRateLimit (s.memory (thread.1, cfg.hash r.key)) (cfg.limit r.key) now).2 })
    cfg slot thread r
    (memoryRateLimit (s.memory (thread.1, cfg.hash r.key)) (cfg.limit r.key) now).1 now
    (some thread.1)
  have hafter : next.bind (Request.reading cfg slot.2) = none :=
    bind_reading_eq_none fun r' hr' now' hlocking => by
      rw [hnext r' hr'] at hlocking
      cases hlocking
  rw [hlog]
  generalize hout :
    memoryRateLimit (s.memory (thread.1, cfg.hash r.key)) (cfg.limit r.key) now = out
  have hbucket := memoryRateLimit_log (s.memory (thread.1, cfg.hash r.key)) (cfg.limit r.key) now
  have hroom := memoryRateLimit_allowed (s.memory (thread.1, cfg.hash r.key)) (cfg.limit r.key) now
  rw [hout] at hbucket hroom
  by_cases hslot : slot = (thread.1, cfg.hash r.key)
  · subst hslot
    have hreading : (s.log cfg (thread.1, cfg.hash r.key)).readings thread.2 = some now := by
      show (s.requests thread).bind (Request.reading cfg (cfg.hash r.key)) = some now
      rw [hr]
      show r.reading cfg (cfg.hash r.key) = some now
      unfold Request.reading
      rw [hstage]
      exact if_pos rfl
    have hmeet := (h (thread.1, cfg.hash r.key)).meet (t := s.clock)
      (if out.1.allowed then some r.key else none) le_rfl hreading fun key hkey => by
        split at hkey
        next hallowed =>
          obtain rfl := Option.some.inj hkey
          have := hroom hallowed
          have hlimit := le_limit cfg r.key
          rw [max_eq_right hlimit] at this
          exact (Int.lt_toNat).mpr this
        next => cases hkey
    refine Eq.mp (congrArg (SlidingWindow.Kept 60 _) ?_) hmeet
    rw [log_moveOn, if_pos rfl, hafter]
    unfold State.log
    dsimp only
    rw [Function.update_self, hbucket]
    split
    next =>
      have hlogged : Grant.logged cfg (thread.1, cfg.hash r.key) ⟨r.key, now, some thread.1⟩ =
          some ⟨r.key, now⟩ := if_pos ⟨rfl, rfl⟩
      rw [List.filterMap_cons_some hlogged]
      rfl
    next => rfl
  · have hbefore : thread.1 = slot.1 →
        (s.requests thread).bind (Request.reading cfg slot.2) = none := fun hworker => by
      rw [hr]
      show r.reading cfg slot.2 = none
      unfold Request.reading
      rw [hstage]
      exact if_neg fun hhash => hslot (Prod.ext hworker.symm hhash.symm)
    have hmoved := log_moveOn_of_none (s := s) slot hbefore hafter
    have hlogged : Grant.logged cfg slot ⟨r.key, now, some thread.1⟩ = none :=
      if_neg fun hboth => hslot (Prod.ext (Option.some.inj hboth.1).symm hboth.2.symm)
    refine Eq.mp (congrArg (SlidingWindow.Kept 60 _) ?_) (h slot)
    rw [← hmoved]
    unfold State.moveOn State.log
    dsimp only
    rw [Function.update_of_ne hslot]
    congr 1
    split
    next => rw [List.filterMap_cons_none hlogged, List.filterMap_nil, List.append_nil]
    next => exact (List.append_nil _).symm

theorem Logged.wait (h : Logged cfg s) (ht : s.clock ≤ t) : Logged cfg { s with clock := t } :=
  fun slot => (h slot).step (.wait _ t ht)

/-- A thread that moves on without a reading. -/
theorem Logged.moveOn (h : Logged cfg s) {thread : Fin workers × Fin threads}
    {next : Option (Request workers)}
    (hbefore : ∀ r ∈ s.requests thread, ∀ now, r.stage ≠ .locking now)
    (hafter : ∀ r ∈ next, ∀ now, r.stage ≠ .locking now) : Logged cfg (s.moveOn thread next) := by
  intro slot
  rw [log_moveOn_of_none slot (fun _ => bind_reading_eq_none hbefore) (bind_reading_eq_none hafter)]
  exact h slot

/-- **Each call** keeps it. -/
theorem Logged.called (h : Logged cfg s) (hcalled : Called cfg s a s') : Logged cfg s' := by
  cases hcalled with
  | arrive thread tokenId userId hfree =>
    refine h.moveOn (fun r hr => ?_) fun r hr now hstage => ?_
    · rw [hfree] at hr
      exact (Option.not_mem_none r hr).elim
    · obtain rfl := Option.some.inj hr
      cases hstage
  | turn thread r stage a hr hstage =>
    have hbefore : ∀ r' ∈ s.requests thread, ∀ now, r'.stage ≠ .locking now := by
      intro r' hr' now hlocking
      obtain rfl := Option.some.inj (hr.symm.trans hr')
      rcases hstage with ⟨hstage, -⟩ | ⟨hstage, -⟩
      · rw [hstage] at hlocking
        cases hlocking
      · rw [hstage] at hlocking
        cases hlocking
    rcases hstage with ⟨-, rfl | rfl⟩ | ⟨-, rfl⟩
    · refine h.moveOn hbefore fun r' hr' now hlocking => ?_
      obtain rfl := Option.some.inj hr'
      cases hlocking
    · refine h.moveOn hbefore fun r' hr' now hlocking => ?_
      obtain rfl := Option.some.inj hr'
      cases hlocking
    · -- a reading for the log of the request's hash
      intro slot
      rw [log_moveOn]
      split
      next hworker =>
        have hfree : (s.log cfg slot).readings thread.2 = none := by
          show (s.requests (slot.1, thread.2)).bind _ = none
          rw [← hworker]
          exact bind_reading_eq_none hbefore
        by_cases hhash : cfg.hash r.key = slot.2
        · have hreading : (some { r with stage := .locking s.clock }).bind
              (Request.reading cfg slot.2) = some s.clock := if_pos hhash
          rw [hreading]
          exact (h slot).step (.read _ thread.2 s.clock le_rfl hfree)
        · have hreading : (some { r with stage := .locking s.clock }).bind
              (Request.reading cfg slot.2) = none := if_neg hhash
          rw [hreading, ← hfree, Function.update_eq_self]
          exact h slot
      next => exact h slot
  | answer thread r reading ttl hr hstage =>
    intro slot
    obtain ⟨next, hnext, hlog⟩ := log_decide (s := s.executed r.key (minuteOf reading) s.clock) cfg
      slot thread r (redisRateLimit (cfg.limit r.key)
        (increment (s.redis (r.key, minuteOf reading)) s.clock).count ttl) reading none
    have hmoved : Logged cfg (s.moveOn thread next) := by
      refine h.moveOn (fun r' hr' now hlocking => ?_) fun r' hr' now hlocking => ?_
      · obtain rfl := Option.some.inj (hr.symm.trans hr')
        rw [hstage] at hlocking
        cases hlocking
      · rw [hnext r' hr'] at hlocking
        cases hlocking
    rw [hlog]
    refine Eq.mp (congrArg (SlidingWindow.Kept 60 _) ?_) (hmoved slot)
    split
    next =>
      have hlogged : Grant.logged cfg slot ⟨r.key, reading, none⟩ = none :=
        if_neg fun hboth => Option.some_ne_none _ hboth.1.symm
      rw [List.filterMap_cons_none hlogged, List.filterMap_nil, List.append_nil]
      rfl
    next =>
      rw [List.filterMap_nil, List.append_nil]
      rfl
  | fail thread r reading executed hr hstage =>
    have hbefore : ∀ r' ∈ s.requests thread, ∀ now, r'.stage ≠ .locking now := by
      intro r' hr' now hlocking
      obtain rfl := Option.some.inj (hr.symm.trans hr')
      rw [hstage] at hlocking
      cases hlocking
    have hmoved : Logged cfg (s.moveOn thread (some { r with stage := .fallback })) := by
      refine h.moveOn hbefore fun r' hr' now hlocking => ?_
      obtain rfl := Option.some.inj hr'
      cases hlocking
    split
    next => exact hmoved
    next => exact hmoved
  | stray key minute hbegun => exact h
  | lock thread r now hr hstage => exact h.lock hr hstage

theorem Logged.run {calls : List (ℚ × Action workers threads)} (h : Logged cfg s)
    (hrun : Runs.run (step cfg) s calls = some s') : Logged cfg s' := by
  refine Runs.run_invariant (fun s call s' hs hstep => ?_) h hrun
  obtain ⟨ht, hcalled⟩ := step_cases (t := call.1) (a := call.2) hstep
  exact (hs.wait ht).called hcalled

/-! ## Requests that pass -/

/-- The threads whose request holds such a grant of its token. -/
def holders (requests : Fin workers × Fin threads → Option (Request workers))
    (q : Grant workers → Bool) : Finset (Fin workers × Fin threads) :=
  Finset.univ.filter fun thread =>
    ((requests thread).bind Request.held).any (fun held => q held.2) = true

structure Held (s : State workers threads) : Prop where
  keys : ∀ thread, ∀ r ∈ s.requests thread, ∀ held ∈ r.held, held.2.key = .token r.tokenId
  passed : ∀ p ∈ s.passed, p.token.key = .token p.tokenId ∧ p.tenant.key = .tenant p.userId
  tokens : ∀ q : Grant workers → Bool,
    s.passed.countP (fun p => q p.token) + (holders s.requests q).card ≤ s.grants.countP q
  tenants : ∀ q : Grant workers → Bool,
    s.passed.countP (fun p => q p.tenant) ≤ s.grants.countP q

theorem mem_holders {requests : Fin workers × Fin threads → Option (Request workers)}
    {q : Grant workers → Bool} {thread : Fin workers × Fin threads} :
    thread ∈ holders requests q ↔
      ((requests thread).bind Request.held).any (fun held => q held.2) = true := by
  unfold holders
  rw [Finset.mem_filter, and_iff_right (Finset.mem_univ thread)]

theorem holders_update (requests : Fin workers × Fin threads → Option (Request workers))
    (q : Grant workers → Bool) (thread : Fin workers × Fin threads)
    (next : Option (Request workers)) :
    (holders (Function.update requests thread next) q).card ≤
      ((holders requests q).erase thread).card +
        if (next.bind Request.held).any (fun held => q held.2) = true then 1 else 0 := by
  have hsub : ∀ other, other ∈ holders (Function.update requests thread next) q →
      other ∈ (holders requests q).erase thread ∨ other = thread ∧
        (next.bind Request.held).any (fun held => q held.2) = true := by
    intro other hother
    rw [mem_holders] at hother
    by_cases heq : other = thread
    · rw [heq, Function.update_self] at hother
      exact .inr ⟨heq, hother⟩
    · rw [Function.update_of_ne heq] at hother
      exact .inl (Finset.mem_erase.mpr ⟨heq, mem_holders.mpr hother⟩)
  split
  next =>
    refine (Finset.card_le_card fun other hother => ?_).trans (Finset.card_insert_le thread _)
    rcases hsub other hother with hin | ⟨rfl, -⟩
    · exact Finset.mem_insert_of_mem hin
    · exact Finset.mem_insert_self ..
  next hnone =>
    refine Finset.card_le_card fun other hother => ?_
    exact (hsub other hother).resolve_right fun h => hnone h.2

theorem Held.start (workers threads : ℕ) (t : ℚ) : Held (State.start workers threads t) where
  keys _ r hr := (Option.not_mem_none r hr).elim
  passed _ hp := absurd hp List.not_mem_nil
  tokens q := by
    have hnone : holders (State.start workers threads t).requests q = ∅ := by
      refine Finset.eq_empty_of_forall_notMem fun thread hthread => ?_
      cases mem_holders.mp hthread
    rw [hnone]
    exact Nat.zero_le _
  tenants _ := Nat.zero_le _

/-- A thread that moves on with what its request held, or with nothing. -/
theorem Held.moveOn (h : Held s) {thread : Fin workers × Fin threads}
    {next : Option (Request workers)}
    (hnext : ∀ r ∈ next, r.held = none ∨
      ∃ r' ∈ s.requests thread, r.held = r'.held ∧ r.tokenId = r'.tokenId) :
    Held (s.moveOn thread next) where
  keys other r hr held hheld := by
    unfold State.moveOn at hr
    dsimp only at hr
    by_cases heq : other = thread
    · rw [heq, Function.update_self] at hr
      rcases hnext r hr with hnone | ⟨r', hr', hsame, htoken⟩
      · rw [hnone] at hheld
        exact (Option.not_mem_none held hheld).elim
      · rw [htoken]
        exact h.keys thread r' hr' held (hsame ▸ hheld)
    · rw [Function.update_of_ne heq] at hr
      exact h.keys other r hr held hheld
  passed := h.passed
  tokens q := by
    refine (Nat.add_le_add_left ?_ _).trans (h.tokens q)
    refine (holders_update s.requests q thread next).trans ?_
    split
    next hany =>
      have hin : thread ∈ holders s.requests q := by
        rw [mem_holders]
        cases next with
        | none => cases hany
        | some r =>
          rcases hnext r rfl with hnone | ⟨r', hr', hsame, -⟩
          · rw [Option.bind_some, hnone] at hany
            cases hany
          · rw [Option.bind_some, hsame] at hany
            rw [hr', Option.bind_some]
            exact hany
      exact (Finset.card_erase_add_one hin).le
    next => exact Finset.card_erase_le
  tenants := h.tenants

/-- The token's grant is held. -/
theorem Held.hold (h : Held s) {thread : Fin workers × Fin threads} (tokenId userId : ℤ)
    (d : Decision) {g : Grant workers} (hkey : g.key = .token tokenId) :
    Held { s.moveOn thread (some ⟨tokenId, userId, some (d, g), .limiting⟩) with
      grants := s.grants ++ [g] } where
  keys other r hr held hheld := by
    unfold State.moveOn at hr
    dsimp only at hr
    by_cases heq : other = thread
    · rw [heq, Function.update_self] at hr
      obtain rfl := Option.some.inj hr
      obtain rfl := Option.some.inj hheld
      exact hkey
    · rw [Function.update_of_ne heq] at hr
      exact h.keys other r hr held hheld
  passed := h.passed
  tokens q := by
    have htokens := h.tokens q
    have hcard := holders_update s.requests q thread
      (some ⟨tokenId, userId, some (d, g), .limiting⟩)
    have herase : ((holders s.requests q).erase thread).card ≤ (holders s.requests q).card :=
      Finset.card_erase_le
    show s.passed.countP _ + (holders (Function.update s.requests thread _) q).card ≤
      (s.grants ++ [g]).countP q
    rw [List.countP_append, List.countP_singleton]
    rw [Option.bind_some, Option.any_some] at hcard
    dsimp only at hcard
    omega
  tenants q := by
    rw [List.countP_append]
    exact (h.tenants q).trans (Nat.le_add_right ..)

/-- The tenant's grant comes to the token's, and the request passes. -/
theorem Held.pass (h : Held s) {thread : Fin workers × Fin threads} {r : Request workers}
    {held : Decision × Grant workers} (hr : s.requests thread = some r)
    (hheld : r.held = some held) {g : Grant workers} (hkey : g.key = .tenant r.userId) :
    Held { s.moveOn thread none with
      grants := s.grants ++ [g]
      passed := s.passed ++ [⟨r.tokenId, r.userId, held.1, held.2, g⟩] } where
  keys := (show Held (s.moveOn thread none) from h.moveOn fun r' hr' =>
    (Option.not_mem_none r' hr').elim).keys
  passed p hp := by
    rcases List.mem_append.mp hp with hp | hp
    · exact h.passed p hp
    · obtain rfl := List.mem_singleton.mp hp
      exact ⟨h.keys thread r hr held hheld, hkey⟩
  tokens q := by
    have htokens := h.tokens q
    have hcard : (holders (Function.update s.requests thread none) q).card ≤
        ((holders s.requests q).erase thread).card := holders_update s.requests q thread none
    show (s.passed ++ [_]).countP _ + (holders (Function.update s.requests thread none) q).card ≤
      (s.grants ++ [g]).countP q
    rw [List.countP_append, List.countP_append, List.countP_singleton]
    refine le_trans ?_ (htokens.trans (Nat.le_add_right ..))
    split
    next hq =>
      have hin : thread ∈ holders s.requests q := by
        rw [mem_holders, hr, Option.bind_some, hheld]
        exact hq
      have := Finset.card_erase_add_one hin
      omega
    next =>
      have herase : ((holders s.requests q).erase thread).card ≤ (holders s.requests q).card :=
        Finset.card_erase_le
      omega
  tenants q := by
    rw [List.countP_append, List.countP_append, List.countP_singleton, List.countP_singleton]
    exact Nat.add_le_add_right (h.tenants q) _

theorem Held.decided (h : Held s) {thread : Fin workers × Fin threads} {r : Request workers}
    (hr : s.requests thread = some r) (d : Decision) (time : ℚ) (source : Option (Fin workers)) :
    Held (s.decide thread r d time source) := by
  unfold State.decide
  split
  next =>
    dsimp only
    split
    next hheld =>
      refine h.hold r.tokenId r.userId d ?_
      unfold Request.key
      rw [hheld]
    next held token hheld =>
      refine h.pass hr hheld ?_
      unfold Request.key
      rw [hheld]
  next => exact h.moveOn fun r' hr' => (Option.not_mem_none r' hr').elim

theorem Held.called (h : Held s) (hcalled : Called cfg s a s') : Held s' := by
  have hkept : ∀ {u : State workers threads} {thread : Fin workers × Fin threads}
      {r : Request workers} (stage : Stage), Held u → u.requests thread = some r →
        Held (u.moveOn thread (some { r with stage := stage })) := by
    intro u thread r stage hu hr
    refine hu.moveOn fun r' hr' => .inr ⟨r, hr, ?_⟩
    obtain rfl := Option.some.inj hr'
    exact ⟨rfl, rfl⟩
  have hexecuted : ∀ (key : Key) (minute : ℤ), Held (s.executed key minute s.clock) :=
    fun _ _ => ⟨h.keys, h.passed, h.tokens, h.tenants⟩
  cases hcalled with
  | arrive thread tokenId userId hfree =>
    refine h.moveOn fun r hr => .inl ?_
    obtain rfl := Option.some.inj hr
    rfl
  | turn thread r stage a hr hstage => exact hkept stage h hr
  | answer thread r reading ttl hr hstage => exact (hexecuted _ _).decided hr _ _ _
  | fail thread r reading executed hr hstage =>
    split
    next => exact hkept _ (hexecuted _ _) hr
    next => exact hkept _ h hr
  | stray key minute hbegun => exact hexecuted key minute
  | lock thread r now hr hstage =>
    have hmemory : Held { s with
        memory := Function.update s.memory (thread.1, cfg.hash r.key)
          (memoryRateLimit (s.memory (thread.1, cfg.hash r.key)) (cfg.limit r.key) now).2 } :=
      ⟨h.keys, h.passed, h.tokens, h.tenants⟩
    exact hmemory.decided hr _ _ _

theorem Held.run {calls : List (ℚ × Action workers threads)} (h : Held s)
    (hrun : Runs.run (step cfg) s calls = some s') : Held s' := by
  refine Runs.run_invariant (fun s call s' hs hstep => ?_) h hrun
  obtain ⟨-, hcalled⟩ := step_cases (t := call.1) (a := call.2) hstep
  have hwait : Held { s with clock := call.1 } := ⟨hs.keys, hs.passed, hs.tokens, hs.tenants⟩
  exact hwait.called hcalled

/-! ## A window -/

theorem countP_le_add {α : Type*} {l : List α} {p q r : α → Bool}
    (h : ∀ a ∈ l, p a = true → q a = true ∨ r a = true) :
    l.countP p ≤ l.countP q + l.countP r := by
  induction l with
  | nil => exact Nat.zero_le _
  | cons a l ih =>
    have hl := ih fun b hb => h b (List.mem_cons_of_mem a hb)
    have ha := h a List.mem_cons_self
    rw [List.countP_cons, List.countP_cons, List.countP_cons]
    by_cases hp : p a = true
    · rw [if_pos hp]
      rcases ha hp with hq | hr
      · rw [if_pos hq]
        omega
      · rw [if_pos hr]
        omega
    · rw [if_neg hp]
      omega

/-- A count by what `f` says of the members. -/
theorem countP_eq_sum {α β : Type*} [Fintype β] [DecidableEq β] (f : α → β) (p : α → Bool)
    (l : List α) : l.countP p = ∑ b, l.countP fun a => p a && decide (f a = b) := by
  induction l with
  | nil => exact Finset.sum_const_zero.symm
  | cons a l ih =>
    simp only [List.countP_cons, Finset.sum_add_distrib]
    rw [ih]
    congr 1
    cases p a with
    | false => simp
    | true => simp

def Grant.within (x : ℚ) (g : Grant workers) : Bool :=
  decide (x ≤ g.time) && decide (g.time ≤ x + 60)

/-- What Redis grants in a minute falls into two minutes of its counters. -/
theorem Counted.redis_le (h : Counted cfg s) (key : Key) (x : ℚ) :
    s.grants.countP (fun g => decide (g.key = key) && (g.within x && decide (g.source = none))) ≤
      2 * (cfg.limit key).toNat := by
  have hgranted : ∀ minute, grantedIn s.grants key minute ≤ (cfg.limit key).toNat := fun minute =>
    Int.le_toNat ((zero_le_one).trans (le_limit cfg key)) |>.mpr (h.granted key minute)
  have hsplit : ∀ g ∈ s.grants,
      (decide (g.key = key) && (g.within x && decide (g.source = none))) = true →
        (decide (g.key = key) && (decide (g.source = none) &&
          decide (minuteOf g.time = minuteOf x))) = true ∨
        (decide (g.key = key) && (decide (g.source = none) &&
          decide (minuteOf g.time = minuteOf x + 1))) = true := by
    intro g _ hg
    unfold Grant.within at hg
    simp only [Bool.and_eq_true, decide_eq_true_iff] at hg
    obtain ⟨hkey, ⟨hfirst, hlast⟩, hsource⟩ := hg
    have hlow : minuteOf x ≤ minuteOf g.time := Int.floor_le_floor (by linarith)
    have hhigh : minuteOf g.time < minuteOf x + 2 := by
      have hg' := sixty_minuteOf_le g.time
      have hx := lt_minuteOf x
      have : (minuteOf g.time : ℚ) < minuteOf x + 2 := by linarith
      exact_mod_cast this
    rw [hkey, hsource]
    simp only [decide_true, Bool.true_and, decide_eq_true_iff]
    omega
  have := hgranted (minuteOf x)
  have := hgranted (minuteOf x + 1)
  exact (countP_le_add hsplit).trans (by unfold grantedIn at *; omega)

/-- What the log of a worker grants in a minute. -/
theorem Logged.memory_le (h : Logged cfg s) (key : Key) (x : ℚ) (worker : Fin workers) :
    s.grants.countP (fun g => decide (g.key = key) && (g.within x &&
        decide (g.source = some worker))) ≤ (cfg.limit key).toNat + (threads - 1) := by
  have hbounded := (h (worker, cfg.hash key)).bounded key x
  rw [Fintype.card_fin] at hbounded
  refine Eq.trans_le ?_ hbounded
  unfold SlidingWindow.count State.log
  dsimp only
  rw [List.countP_filterMap]
  refine List.countP_congr fun g _ => ?_
  unfold Grant.logged Grant.within
  by_cases hsource : g.source = some worker ∧ g.key = key
  · obtain ⟨hworker, rfl⟩ := hsource
    rw [if_pos ⟨hworker, rfl⟩, hworker]
    simp
  · constructor
    · intro hg
      simp only [Bool.and_eq_true, decide_eq_true_iff] at hg
      exact absurd ⟨hg.2.2, hg.1⟩ hsource
    · intro hg
      split at hg
      next hlogged =>
        simp only [Option.map_some, Option.getD_some, Bool.and_eq_true, decide_eq_true_iff] at hg
        exact absurd ⟨hlogged.1, hg.1⟩ hsource
      next => cases hg

/-- What is granted in a minute. -/
theorem grants_le (hcounted : Counted cfg s) (hlogged : Logged cfg s) (key : Key) (x : ℚ) :
    s.grants.countP (fun g => decide (g.key = key) && g.within x) ≤
      2 * (cfg.limit key).toNat + workers * ((cfg.limit key).toNat + (threads - 1)) := by
  rw [countP_eq_sum Grant.source, Fintype.sum_option]
  have hmemory : ∑ worker : Fin workers, s.grants.countP (fun g =>
      (decide (g.key = key) && g.within x) && decide (g.source = some worker)) ≤
        workers * ((cfg.limit key).toNat + (threads - 1)) := by
    have hsum := Finset.sum_le_card_nsmul Finset.univ (fun worker : Fin workers =>
      s.grants.countP fun g => (decide (g.key = key) && g.within x) &&
        decide (g.source = some worker)) ((cfg.limit key).toNat + (threads - 1)) fun worker _ => by
      simp only [Bool.and_assoc]
      exact hlogged.memory_le key x worker
    rwa [Finset.card_univ, Fintype.card_fin, Nat.nsmul_eq_mul] at hsum
  refine Nat.add_le_add ?_ hmemory
  simp only [Bool.and_assoc]
  exact hcounted.redis_le key x

/-- The requests let through in the minute from `x` on, by token and by tenant; and those of
them that Redis let through. -/
structure RateKept (cfg : Config) (s : State workers threads) (x : ℚ) : Prop where
  token : ∀ id, s.passed.countP (fun p => decide (p.tokenId = id) && p.token.within x) ≤
    2 * (cfg.limit (.token id)).toNat + workers * ((cfg.limit (.token id)).toNat + (threads - 1))
  tenant : ∀ id, s.passed.countP (fun p => decide (p.userId = id) && p.tenant.within x) ≤
    2 * (cfg.limit (.tenant id)).toNat + workers * ((cfg.limit (.tenant id)).toNat + (threads - 1))
  tokenRedis : ∀ id, s.passed.countP (fun p => decide (p.tokenId = id) &&
    (p.token.within x && decide (p.token.source = none))) ≤ 2 * (cfg.limit (.token id)).toNat
  tenantRedis : ∀ id, s.passed.countP (fun p => decide (p.userId = id) &&
    (p.tenant.within x && decide (p.tenant.source = none))) ≤ 2 * (cfg.limit (.tenant id)).toNat

theorem Held.token_le (h : Held s) (id : ℤ) (q : Grant workers → Bool) :
    s.passed.countP (fun p => decide (p.tokenId = id) && q p.token) ≤
      s.grants.countP fun g => decide (g.key = .token id) && q g := by
  refine (List.countP_mono_left fun p hp hq => ?_).trans
    ((Nat.le_add_right ..).trans (h.tokens fun g => decide (g.key = .token id) && q g))
  rw [Bool.and_eq_true, decide_eq_true_iff] at hq ⊢
  exact ⟨(h.passed p hp).1.trans (congrArg Key.token hq.1), hq.2⟩

theorem Held.tenant_le (h : Held s) (id : ℤ) (q : Grant workers → Bool) :
    s.passed.countP (fun p => decide (p.userId = id) && q p.tenant) ≤
      s.grants.countP fun g => decide (g.key = .tenant id) && q g := by
  refine (List.countP_mono_left fun p hp hq => ?_).trans
    (h.tenants fun g => decide (g.key = .tenant id) && q g)
  rw [Bool.and_eq_true, decide_eq_true_iff] at hq ⊢
  exact ⟨(h.passed p hp).2.trans (congrArg Key.tenant hq.1), hq.2⟩

end

/-- **The rate is kept** in every window of a minute, whenever Redis fails. -/
theorem passed_bounded {workers threads : ℕ} {cfg : Config} {t : ℚ}
    {calls : List (ℚ × Action workers threads)} {s : State workers threads}
    (hrun : Runs.run (step cfg) (State.start workers threads t) calls = some s)
    (hprompt : Runs.AllSteps (step cfg) Prompt (State.start workers threads t) calls) (x : ℚ) :
    RateKept cfg s x := by
  have hcounted := (Counted.start cfg workers threads t).run hprompt hrun
  have hlogged := (Logged.start cfg workers threads t).run hrun
  have hheld := (Held.start workers threads t).run hrun
  exact ⟨fun id => (hheld.token_le id _).trans (grants_le hcounted hlogged _ x),
    fun id => (hheld.tenant_le id _).trans (grants_le hcounted hlogged _ x),
    fun id => (hheld.token_le id fun g => g.within x && decide (g.source = none)).trans
      (hcounted.redis_le _ x),
    fun id => (hheld.tenant_le id fun g => g.within x && decide (g.source = none)).trans
      (hcounted.redis_le _ x)⟩

/-! ## Three requests -/

namespace Example

/-- One request a minute. -/
def config : Config where
  rateLimitPerMin _ := some 1
  tenantSetting := none
  hash _ := 0

def thread : Fin 1 × Fin 1 := (0, 0)

/-- A request that Redis answers. -/
def answered (t : ℚ) : List (ℚ × Action 1 1) :=
  [(t, .arrive thread 1 1), (t, .ask thread), (t, .answer thread 65), (t, .ask thread),
    (t, .answer thread 65)]

/-- A request for which it does not. -/
def remembered (t : ℚ) : List (ℚ × Action 1 1) :=
  [(t, .arrive thread 1 1), (t, .ask thread), (t, .fail thread false), (t, .readClock thread),
    (t, .lock thread), (t, .ask thread), (t, .answer thread 65)]

end Example

/-- Around a minute's end, and with Redis down for a moment, the bound is reached. -/
theorem passed_bounded_threeInAMinute : ∃ s : State 1 1,
    Runs.run (step Example.config) (State.start 1 1 0)
      (Example.answered 59 ++ Example.answered 61 ++ Example.remembered 62) = some s ∧
    s.passed.length = 3 ∧ RateKept Example.config s 59 := by
  obtain ⟨s, hs, hthree⟩ := Runs.exists_of_any
    (p := fun s : State 1 1 => s.passed.length = 3)
    (show (Runs.run (step Example.config) (State.start 1 1 0)
      (Example.answered 59 ++ Example.answered 61 ++ Example.remembered 62)).any _ = true by
        decide +kernel)
  refine ⟨s, hs, hthree, passed_bounded hs ?_ 59⟩
  decide +kernel

end AlgoTrade.Agent.RateLimit
