import AlgoTrade.Lifecycle.Requests

/-! # Requests, their commands and time

* `Narrows`: the open commands after a result.
* `Inv.frame`: a label of a party other than a worker.
* `Inv.request`, `Inv.posts`: a request, and the command it becomes. -/

namespace AlgoTrade.Lifecycle.Control

variable {cfg : LifecycleConfig} {strategyId : ℕ} {d d' : Control} {w : ℕ} {wk u : Worker}
  {j : Job} {stage : Stage}

/-! ## Open commands -/

/-- The rows of `vs'` are those of `vs`, and the open ones among them unchanged. -/
def Narrows (vs vs' : List CommandView) : Prop :=
  ∀ (i : ℕ) (v : CommandView), vs'[i]? = some v → ∃ u, vs[i]? = some u ∧
    u.strategyId = v.strategyId ∧ u.commandType = v.commandType ∧ (v.isOpen = true → u = v)

section
variable {vs vs' : List CommandView} {t : CommandType}

theorem Narrows.mem (h : Narrows vs vs') {v : CommandView} (hv : v ∈ vs') :
    ∃ u ∈ vs, u.strategyId = v.strategyId ∧ u.commandType = v.commandType ∧
      (v.isOpen = true → u = v) := by
  obtain ⟨i, hi⟩ := List.mem_iff_getElem?.mp hv
  obtain ⟨u, hu, hrest⟩ := h i v hi
  exact ⟨u, List.mem_of_getElem? hu, hrest⟩

theorem Narrows.noOpen (h : Narrows vs vs') (hno : NoOpen t vs) : NoOpen t vs' := by
  intro v hv ht
  obtain ⟨u, hu, -, hut, hopen⟩ := h.mem hv
  by_contra hnot
  rw [Bool.not_eq_false] at hnot
  have hclosed := hno u hu (hut.trans ht)
  rw [hopen hnot, hnot] at hclosed
  cases hclosed

theorem Narrows.oneOpen (h : Narrows vs vs') (hone : OneOpen vs) : OneOpen vs' := by
  intro i k u v hu hv ht huo hvo
  obtain ⟨u', hu', -, -, hopen⟩ := h i u hu
  obtain ⟨v', hv', -, -, hopen'⟩ := h k v hv
  rw [hopen huo] at hu'
  rw [hopen' hvo] at hv'
  exact hone i k u v hu' hv' ht huo hvo

/-- A row that is finished narrows the table. -/
theorem narrows_finished (commands : List Command) (i : ℕ) (status : CommandStatus)
    (hterminal : status.terminal = true) :
    Narrows (commands.map Command.view)
      ((commands.modify i fun c => c.finished status).map Command.view) := by
  intro k v hv
  rw [List.getElem?_map, List.getElem?_modify] at hv
  rw [List.getElem?_map]
  cases hc : commands[k]? with
  | none =>
    rw [hc] at hv
    cases hv
  | some c =>
    rw [hc] at hv
    refine ⟨c.view, rfl, ?_⟩
    simp only [Option.map_eq_map, Option.map_some, Option.some.injEq] at hv
    subst hv
    split
    · refine ⟨rfl, rfl, fun hopen => ?_⟩
      change (!status.terminal) = true at hopen
      rw [hterminal] at hopen
      cases hopen
    · exact ⟨rfl, rfl, fun _ => rfl⟩

/-- A row that stays open leaves what the outcome depends on. -/
theorem views_modify {commands : List Command} {i : ℕ} {f : Command → Command}
    (h : ∀ c, commands[i]? = some c → (f c).view = c.view) :
    (commands.modify i f).map Command.view = commands.map Command.view := by
  refine List.ext_getElem? fun k => ?_
  rw [List.getElem?_map, List.getElem?_map, List.getElem?_modify]
  cases hc : commands[k]? with
  | none => rfl
  | some c =>
    simp only [Option.map_eq_map, Option.map_some, Option.some.injEq]
    split
    next hik => exact h c (hik ▸ hc)
    next => rfl

end

/-! ## Requests and time -/

/-- A worker under a label of another party. -/
theorem WorkerOk.frame (h : d.WorkerOk strategyId w wk)
    (hleases : d'.fleet.leases strategyId = d.fleet.leases strategyId)
    (hclock : ∀ l, d.fleet.leases strategyId = some l → d'.fleet.clock ≤ l.leaseExpiresAt)
    (hworkers : d'.fleet.workers = d.fleet.workers)
    (hrows : ∀ (i : ℕ) (c : Command), d.fleet.commands[i]? = some c →
      d'.fleet.commands[i]? = some c)
    (hclosed : HasOpen .stop d.views → d.closed = true → d'.closed = true) :
    d'.WorkerOk strategyId w wk := by
  refine ⟨h.phase, ?_, ?_⟩
  · intro i hi
    obtain ⟨hid, l, hl, howner, -⟩ := h.needs i hi
    exact ⟨hid, l, hleases.trans hl, howner, hclock l hl⟩
  · intro j stage hphase
    have hj := h.job j stage hphase
    obtain ⟨c, hc, hrest⟩ := hj.row
    refine ⟨hj.strategy, ⟨c, hrows _ c hc, hrest⟩, hj.stages, hj.absent, hj.up, ?_, ?_⟩
    · rw [hleases]
      exact hj.owns
    · intro hstop hst
      obtain ⟨hdown, hcl⟩ := hj.down hstop hst
      have hopen := hj.hasOpen
      rw [hstop] at hopen
      refine ⟨?_, fun hcloses => hclosed hopen (hcl hcloses)⟩
      unfold Control.Runs
      rw [hworkers]
      exact hdown

/-- The invariant after a label of another party. -/
theorem Inv.frame (h : d.Inv strategyId)
    (hleases : d'.fleet.leases strategyId = d.fleet.leases strategyId)
    (hclock : ∀ l, d.fleet.leases strategyId = some l → d'.fleet.clock ≤ l.leaseExpiresAt)
    (hworkers : d'.fleet.workers = d.fleet.workers)
    (hrows : ∀ (i : ℕ) (c : Command), d.fleet.commands[i]? = some c →
      d'.fleet.commands[i]? = some c)
    (hclosed : HasOpen .stop d.views → d.closed = true → d'.closed = true)
    (hours : ∀ v ∈ d'.views, v.strategyId = strategyId ∧
      (v.commandType = .start ∨ v.commandType = .stop))
    (hunexpired : ∀ c ∈ d'.fleet.commands, c.status = .processing →
      ∃ t, c.leaseExpiresAt = some t ∧ d'.fleet.clock ≤ t)
    (hone : OneOpen d'.views) (hmode : d'.Mode strategyId) : d'.Inv strategyId := by
  refine ⟨?_, ?_, hours, hunexpired, ?_, hone, hmode⟩
  · intro v b hb
    rw [hworkers] at hb
    exact (h.workers v b hb).frame hleases hclock hworkers hrows hclosed
  · rw [hworkers]
    exact h.alone
  · intro l hl
    exact hclock l (hleases.symm.trans hl)

/-- Where the last request stands, when the commands stay as they are. -/
theorem Mode.frame (h : d.Mode strategyId) (hviews : d'.views = d.views)
    (hdesired : d'.fleet.desired strategyId = d.fleet.desired strategyId)
    (hposting : d'.posting = d.posting) (hlast : d'.lastStart = d.lastStart)
    (hasked : d'.closeAsked = d.closeAsked) (hclosed : d.closed = true → d'.closed = true)
    (hstart : d.lastStart = true → HasOpen .start d.views ∨ (d.Runs strategyId → d'.Runs strategyId))
    (hstop : d.lastStart = false → HasOpen .stop d.views ∨ (d'.Runs strategyId → d.Runs strategyId)) :
    d'.Mode strategyId := by
  refine ⟨?_, ?_, ?_⟩
  · rw [hlast, hdesired, hviews, hasked, hposting]
    intro h1
    obtain ⟨hdes, hno, hask, hruns⟩ := h.started h1
    refine ⟨hdes, hno, hask, ?_⟩
    rcases hstart h1 with hopen | hmono
    · exact .inr (.inl hopen)
    · exact hruns.imp_right (Or.imp_right hmono)
  · rw [hlast, hdesired, hviews, hasked, hposting]
    intro h1
    obtain ⟨hdes, hno, hruns, hcl⟩ := h.stopped h1
    refine ⟨hdes, hno, ?_, fun hask => (hcl hask).imp_left hclosed⟩
    rcases hstop h1 with hopen | hmono
    · exact .inr (.inl hopen)
    · exact hruns.imp_right (Or.imp_right fun hnot hruns => hnot (hmono hruns))
  · rw [hlast, hviews, hposting]
    exact h.posted

/-- No open command of the type is in the way of a request. -/
theorem Inv.noOpen (h : d.Inv strategyId) {t : CommandType}
    (hno : ∀ c ∈ d.fleet.commands, c.mergesWith strategyId t = false) : NoOpen t d.views := by
  intro v hv ht
  obtain ⟨c, hc, rfl⟩ := List.mem_map.mp hv
  have hmerge := of_decide_eq_false (hno c hc)
  by_contra hopen
  rw [Bool.not_eq_false] at hopen
  exact hmerge ⟨(h.ours _ hv).1, ht, hopen⟩

theorem Inv.request (h : d.Inv strategyId) {r : Request} (hset : d.Settled strategyId (.request r))
    (hstep : controlStep cfg strategyId d (.request r) = some d') : d'.Inv strategyId := by
  rw [controlStep] at hstep
  split at hstep
  swap
  · cases hstep
  next hposting =>
  obtain rfl := Option.some.inj hstep
  cases r with
  | start =>
    have hno : NoOpen .stop d.views := h.noOpen (of_decide_eq_true hset)
    refine h.frame rfl h.lease rfl (fun _ _ hc => hc) (fun hopen => absurd hno (not_noOpen hopen))
      h.ours h.unexpired h.oneOpen ⟨?_, ?_, ?_⟩
    · intro _
      exact ⟨Function.update_self .., hno, rfl, .inl rfl⟩
    · intro hlast
      cases hlast
    · intro r hr
      obtain rfl := Option.some.inj hr
      exact ⟨⟨fun _ => rfl, fun _ => rfl⟩, fun hstop => by cases hstop⟩
  | stop close =>
    obtain ⟨hno, hcloses⟩ := of_decide_eq_true hset
    have hmode := h.mode
    have hne : Request.stop close ≠ .start := fun heq => by cases heq
    refine h.frame rfl h.lease rfl (fun _ _ hc => hc) (fun _ hclosed => ?_)
      h.ours h.unexpired h.oneOpen ⟨?_, ?_, ?_⟩
    · show decide (_ ∧ d.closed = true) = true
      exact decide_eq_true ⟨hne, hclosed⟩
    · intro hlast
      cases hlast
    · intro _
      refine ⟨Function.update_self .., h.noOpen hno, .inl (by simp), ?_⟩
      intro hasked
      obtain ⟨-, hasked | hasked⟩ := of_decide_eq_true hasked
      · cases hlast : d.lastStart with
        | true =>
          rw [(hmode.started hlast).2.2.1] at hasked
          cases hasked
        | false =>
          obtain hclosed | hposted | hopen := (hmode.stopped hlast).2.2.2 hasked
          · exact .inl (decide_eq_true ⟨hne, hclosed⟩)
          · rw [hposting] at hposted
            cases hposted
          · exact .inr (.inr hopen)
      · obtain rfl : close = true := hasked
        exact .inr (.inl rfl)
    · intro r hr
      obtain rfl := Option.some.inj hr
      refine ⟨by simp, fun hstop v hv ht hopen => ?_⟩
      obtain rfl : close = true := by cases hstop; rfl
      obtain ⟨c, hc, rfl⟩ := List.mem_map.mp hv
      exact hcloses rfl c hc (decide_eq_true ⟨(h.ours _ hv).1, ht, hopen⟩)

section
variable {commands : List Command} {clock : ℕ} {t : CommandType} {close : Bool}

/-- A request is merged into an open command of its type, or opens one. -/
theorem enqueue_cases (strategyId : ℕ) (commands : List Command) (clock : ℕ) (t : CommandType)
    (close : Bool) :
    (enqueue commands clock strategyId t close = commands ∧
      ∃ c ∈ commands, c.mergesWith strategyId t = true) ∨
    ((enqueue commands clock strategyId t close).map Command.view =
        commands.map Command.view ++ [⟨strategyId, t, close, true⟩] ∧
      ∀ c ∈ commands, c.mergesWith strategyId t = false) := by
  unfold enqueue
  split
  next hany => exact .inl ⟨rfl, by simpa using hany⟩
  next hany =>
    refine .inr ⟨by rw [List.map_append]; rfl, fun c hc => ?_⟩
    rw [Bool.not_eq_true, List.any_eq_false] at hany
    exact Bool.not_eq_true _ ▸ hany c hc

theorem mem_enqueue {c : Command} (h : c ∈ enqueue commands clock strategyId t close) :
    c ∈ commands ∨ c.status = .pending := by
  unfold enqueue at h
  split at h
  · exact .inl h
  · rcases List.mem_append.mp h with h | h
    · exact .inl h
    · rw [List.mem_singleton.mp h]
      exact .inr rfl

theorem mem_views_enqueue {v : CommandView}
    (h : v ∈ (enqueue commands clock strategyId t close).map Command.view) :
    v ∈ commands.map Command.view ∨ v = ⟨strategyId, t, close, true⟩ := by
  rcases enqueue_cases strategyId commands clock t close with ⟨hsame, -⟩ | ⟨hviews, -⟩
  · rw [hsame] at h
    exact .inl h
  · rw [hviews] at h
    exact (List.mem_append.mp h).imp_right List.mem_singleton.mp

theorem getElem?_enqueue {i : ℕ} {c : Command} (h : commands[i]? = some c) :
    (enqueue commands clock strategyId t close)[i]? = some c := by
  unfold enqueue
  split
  · exact h
  · rw [List.getElem?_append_left (List.getElem?_eq_some_iff.mp h).1, h]

theorem mem_views_of_mem {v : CommandView} (h : v ∈ commands.map Command.view) :
    v ∈ (enqueue commands clock strategyId t close).map Command.view := by
  obtain ⟨c, hc, rfl⟩ := List.mem_map.mp h
  obtain ⟨i, hi⟩ := List.mem_iff_getElem?.mp hc
  exact List.mem_map_of_mem (List.mem_of_getElem? (getElem?_enqueue hi))

theorem oneOpen_enqueue (hours : ∀ v ∈ commands.map Command.view, v.strategyId = strategyId)
    (h : OneOpen (commands.map Command.view)) :
    OneOpen ((enqueue commands clock strategyId t close).map Command.view) := by
  rcases enqueue_cases strategyId commands clock t close with ⟨hsame, -⟩ | ⟨hviews, hno⟩
  · rw [hsame]
    exact h
  · rw [hviews]
    have hnone : ∀ v ∈ commands.map Command.view, v.commandType = t → v.isOpen = true → False := by
      intro v hv ht hopen
      have hstrategy := hours v hv
      obtain ⟨c, hc, rfl⟩ := List.mem_map.mp hv
      exact of_decide_eq_false (hno c hc) ⟨hstrategy, ht, hopen⟩
    intro i k u v hu hv ht huo hvo
    rcases List.getElem?_append_cases hu with ⟨rfl, rfl⟩ | hu
    · rcases List.getElem?_append_cases hv with ⟨rfl, -⟩ | hv
      · rfl
      · exact (hnone v (List.mem_of_getElem? hv) ht.symm hvo).elim
    · rcases List.getElem?_append_cases hv with ⟨-, rfl⟩ | hv
      · exact (hnone u (List.mem_of_getElem? hu) ht huo).elim
      · exact h i k u v hu hv ht huo hvo

end

/-- The command of a request is open once it is enqueued, and no other becomes so. -/
theorem Inv.posts (h : d.Inv strategyId)
    (hstep : controlStep cfg strategyId d .posts = some d') : d'.Inv strategyId := by
  obtain ⟨r, hr, rfl⟩ := Option.map_eq_some_iff.mp hstep
  obtain ⟨hiff, hcloses⟩ := h.mode.posted r hr
  set commands := enqueue d.fleet.commands d.fleet.clock strategyId r.commandType r.closePositions
    with hcommands
  -- the open command the request became, or was merged into
  have hopen : ∃ v ∈ commands.map Command.view, v.commandType = r.commandType ∧ v.isOpen = true ∧
      (r = .stop true → v.closePositions = true) := by
    rcases enqueue_cases strategyId d.fleet.commands d.fleet.clock r.commandType r.closePositions with
      ⟨hsame, c, hc, hmerge⟩ | ⟨hviews, -⟩
    · obtain ⟨-, htype, hisOpen⟩ := of_decide_eq_true hmerge
      have hv : c.view ∈ d.views := List.mem_map_of_mem hc
      refine ⟨c.view, mem_views_of_mem hv, htype, hisOpen, fun hstop => ?_⟩
      exact hcloses hstop c.view hv (htype.trans (by rw [hstop]; rfl)) hisOpen
    · refine ⟨⟨strategyId, r.commandType, r.closePositions, true⟩, ?_, rfl, rfl, ?_⟩
      · rw [hviews]
        exact List.mem_append_right _ (List.mem_singleton_self _)
      · rintro rfl
        rfl
  have hnoOpen : ∀ t, t ≠ r.commandType → NoOpen t d.views → NoOpen t (commands.map Command.view) := by
    intro t ht hno v hv htype
    rcases mem_views_enqueue hv with hv | rfl
    · exact hno v hv htype
    · exact absurd htype.symm ht
  obtain ⟨v, hv, htype, hisOpen, hclosing⟩ := hopen
  refine h.frame rfl h.lease rfl (fun _ _ hc => getElem?_enqueue hc) (fun _ hclosed => hclosed) ?_ ?_
    (oneOpen_enqueue (fun v hv => (h.ours v hv).1) h.oneOpen) ⟨?_, ?_, fun r hr => by cases hr⟩
  · intro v hv
    rcases mem_views_enqueue hv with hv | rfl
    · exact h.ours v hv
    · cases r with
      | start => exact ⟨rfl, .inl rfl⟩
      | stop close => exact ⟨rfl, .inr rfl⟩
  · intro c hc hstatus
    rcases mem_enqueue hc with hc | hpending
    · exact h.unexpired c hc hstatus
    · rw [hpending] at hstatus
      cases hstatus
  · intro hlast
    obtain ⟨hdesired, hno, hasked, -⟩ := h.mode.started hlast
    obtain rfl := hiff.mpr hlast
    exact ⟨hdesired, hnoOpen .stop (by decide) hno, hasked, .inr (.inl ⟨v, hv, htype, hisOpen⟩)⟩
  · intro hlast
    obtain ⟨hdesired, hno, -, hasked⟩ := h.mode.stopped hlast
    have hstop : r.commandType = .stop := by
      cases r with
      | start => exact absurd ((hiff.mp rfl).symm.trans hlast) (by decide)
      | stop close => rfl
    rw [hstop] at htype
    refine ⟨hdesired, hnoOpen .start (by rw [hstop]; decide) hno,
      .inr (.inl ⟨v, hv, htype, hisOpen⟩), fun hask => ?_⟩
    rcases hasked hask with hclosed | hposted | ⟨u, hu, hrest⟩
    · exact .inl hclosed
    · rw [hr] at hposted
      exact .inr (.inr ⟨v, hv, htype, hisOpen, hclosing (Option.some.inj hposted)⟩)
    · exact .inr (.inr ⟨u, mem_views_of_mem hu, hrest⟩)

theorem controlStep_fleet {l : FleetLabel}
    (h : controlStep cfg strategyId d (.fleet l) = some d') :
    ∃ s', fleetStep cfg d.fleet l = some s' ∧
      d' = { d with fleet := s', closed := d.closed || d.fleet.closes l } := by
  rw [controlStep, Option.map_eq_some_iff] at h
  obtain ⟨s', hs', rfl⟩ := h
  exact ⟨s', hs', rfl⟩

theorem Inv.tick (h : d.Inv strategyId) {seconds : ℕ}
    (hin : d.InScope strategyId cfg (.fleet (.tick seconds)))
    (hstep : controlStep cfg strategyId d (.fleet (.tick seconds)) = some d') :
    d'.Inv strategyId := by
  obtain ⟨s', hs', rfl⟩ := controlStep_fleet hstep
  obtain rfl := Option.some.inj hs'
  obtain ⟨hlease, hcommands⟩ := of_decide_eq_true hin
  have hclock : ∀ l, d.fleet.leases strategyId = some l →
      d.fleet.clock + seconds ≤ l.leaseExpiresAt := by
    intro l hl
    rw [hl] at hlease
    exact of_decide_eq_true hlease
  refine h.frame rfl hclock rfl (fun _ _ hc => hc) (fun _ hclosed => ?_) h.ours ?_ h.oneOpen
    (h.mode.frame rfl rfl rfl rfl rfl (fun hclosed => ?_) (fun _ => .inr id) fun _ => .inr id)
  · rw [hclosed]
    rfl
  · intro c hc hstatus
    obtain ⟨t, ht, -⟩ := h.unexpired c hc hstatus
    have hle := hcommands c hc
    rw [ht] at hle
    exact ⟨t, ht, of_decide_eq_true hle⟩
  · rw [hclosed]
    rfl

/-- No claim has run out, so no command has. -/
theorem Inv.failExhausted (h : d.Inv strategyId)
    (hstep : controlStep cfg strategyId d (.fleet .failExhausted) = some d') :
    d'.Inv strategyId := by
  obtain ⟨s', hs', rfl⟩ := controlStep_fleet hstep
  obtain rfl := Option.some.inj hs'
  have hsame : Lifecycle.failExhausted cfg d.fleet.commands d.fleet.clock = d.fleet.commands := by
    refine (List.map_congr_left fun c hc => if_neg fun hex => ?_).trans (List.map_id _)
    obtain ⟨hstatus, hexpired, -⟩ := of_decide_eq_true hex
    obtain ⟨t, ht, hle⟩ := h.unexpired c hc hstatus
    rw [ht] at hexpired
    exact absurd (of_decide_eq_true hexpired) (Nat.not_lt.mpr hle)
  have hcloses : d.fleet.closes .failExhausted = false := rfl
  rw [hsame, hcloses, Bool.or_false]
  exact h

theorem Inv.cleanupLeases (h : d.Inv strategyId)
    (hstep : controlStep cfg strategyId d (.fleet .cleanupLeases) = some d') :
    d'.Inv strategyId := by
  obtain ⟨s', hs', rfl⟩ := controlStep_fleet hstep
  obtain rfl := Option.some.inj hs'
  have hsame : (d.fleet.leases strategyId).filter
      (fun l => d.fleet.clock ≤ l.leaseExpiresAt + 86400) = d.fleet.leases strategyId := by
    cases hl : d.fleet.leases strategyId with
    | none => rfl
    | some l =>
      rw [Option.filter_some, if_pos]
      exact decide_eq_true (Nat.le_add_right_of_le (h.lease l hl))
  refine h.frame hsame h.lease rfl (fun _ _ hc => hc) (fun _ hclosed => ?_) h.ours h.unexpired
    h.oneOpen
    (h.mode.frame rfl rfl rfl rfl rfl (fun hclosed => ?_) (fun _ => .inr id) fun _ => .inr id) <;>
  · rw [hclosed]
    rfl

end AlgoTrade.Lifecycle.Control
