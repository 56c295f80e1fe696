import AlgoTrade.Live.Loop
import AlgoTrade.Live.SnapshotRoundTrip

/-! # The exit latch of the live loop

A leg with an exit under way is left alone by its protection.  The mark is set before
the exit is submitted, and only a protection's own exit takes it back when it fails.

* `LatchSafe`: a marked leg with an open position has an exit on its way.
* `ExitsHold`: every exit that marks an open leg is accepted, and holds.
* `latchSafe_of_exitsHold`: every run of the loop. -/

namespace AlgoTrade.Live

open Backtest Script

/-! ## The property -/

/-- A marked leg with an open position has a closing intent that was accepted since it
was opened and has not failed, when none is being submitted. -/
def LatchSafe (l : Loop) : Prop :=
  l.outstanding = [] → ∀ key ∈ l.session.exitPending, IsOpen l.table key → key ∈ l.covered

instance (l : Loop) : Decidable (LatchSafe l) := inferInstanceAs (Decidable (_ → _))

/-! ## The condition -/

/-- A closing intent of the leg is still to be submitted. -/
def ToClose (outstanding : List (Source × OrderIntent)) (key : PositionKey) : Prop :=
  ∃ e ∈ outstanding, Closes e.2 key

instance (outstanding : List (Source × OrderIntent)) (key : PositionKey) :
    Decidable (ToClose outstanding key) := inferInstanceAs (Decidable (∃ e ∈ _, _))

/-- Nothing is to be closed, or it is on its way. -/
def Settled (l : Loop) (key : PositionKey) : Prop := IsOpen l.table key → key ∈ l.covered

instance (l : Loop) (key : PositionKey) : Decidable (Settled l key) :=
  inferInstanceAs (Decidable (_ → _))

def ExitsHold (l : Loop) : LoopAct → Prop
  | .submit .raised => ∀ e ∈ l.outstanding, Closes e.2 e.2.positionKey → Settled l e.2.positionKey
  | .submit .rejected =>
    match l.outstanding with
    | [] => True
    | (source, intent) :: rest =>
      source = .protection ∨ (Closes intent intent.positionKey →
        Settled l intent.positionKey ∨ ToClose rest intent.positionKey)
  | .trade table =>
    ∀ key ∈ l.session.exitPending, Opens l.table table key → ToClose l.outstanding key
  | .fail key =>
    key ∈ l.session.exitPending → IsOpen l.table key → ToClose l.outstanding key
  | .restart => ∀ snapshot ∈ l.saved, ∀ key ∈ snapshot.exitPending, Settled l key
  | _ => True

instance (l : Loop) (a : LoopAct) : Decidable (ExitsHold l a) :=
  match a with
  | .submit .raised => inferInstanceAs (Decidable (∀ e ∈ l.outstanding, _ → Settled _ _))
  | .submit .rejected =>
    match h : l.outstanding with
    | [] => .isTrue (by simp [ExitsHold, h])
    | (source, intent) :: rest =>
      decidable_of_iff (source = .protection ∨ (Closes intent intent.positionKey →
        Settled l intent.positionKey ∨ ToClose rest intent.positionKey)) (by simp [ExitsHold, h])
  | .trade table => inferInstanceAs (Decidable (∀ key ∈ l.session.exitPending, _ → _))
  | .fail key => inferInstanceAs (Decidable (_ → _ → _))
  | .restart => inferInstanceAs (Decidable (∀ snapshot ∈ l.saved, _))
  | .submit .accepted | .updateStatuses .. | .readPositions | .synchronize .. | .equityRisk ..
  | .releaseEquityRisk | .protections .. | .process .. | .save => .isTrue trivial

/-! ## What evaluations mark -/

section
variable {G : Type} {s : Session G}

/-- A mark is an exit that is handed over, or was there before. -/
def Marks (s s' : Session G) (intents : List OrderIntent) : Prop :=
  s'.positions = s.positions ∧ s'.exitPending.Nodup ∧
    ∀ key ∈ s'.exitPending, key ∈ s.exitPending ∨ ∃ intent ∈ intents, Closes intent key

theorem Marks.refl (hs : s.exitPending.Nodup) : Marks s s [] :=
  ⟨rfl, hs, fun _ hkey => .inl hkey⟩

theorem invokeAll_marks (s : Session G) (callbacks : List (Time × Callback G)) :
    (s.invokeAll callbacks).1.exitPending = s.exitPending ∧
      (s.invokeAll callbacks).1.positions = s.positions := by
  induction callbacks generalizing s with
  | nil => exact ⟨rfl, rfl⟩
  | cons e callbacks ih =>
    unfold Session.invokeAll
    dsimp only
    split
    · exact ⟨rfl, rfl⟩
    · exact ih _

theorem handOver_marks (hs : s.exitPending.Nodup) : Marks s s.handOver.1 s.handOver.2 := by
  have hcapture : ∀ (orders : List OrderIntent) (s : Session G), s.exitPending.Nodup →
      Marks s (orders.foldl Session.captureProtection s) orders := by
    intro orders
    induction orders with
    | nil => exact fun s hs => .refl hs
    | cons order orders ih =>
      intro s hs
      have hnodup : (s.captureProtection order).exitPending.Nodup := by
        unfold Session.captureProtection
        dsimp only
        split
        · exact hs.insert
        · exact hs
      obtain ⟨hpositions, hrest, hmarks⟩ := ih _ hnodup
      refine ⟨hpositions, hrest, fun key hkey => ?_⟩
      rcases hmarks key hkey with hkey | ⟨intent, hintent, hcloses⟩
      · unfold Session.captureProtection at hkey
        dsimp only at hkey
        split at hkey
        next hzero =>
          rcases List.mem_insert_iff.mp hkey with rfl | hkey
          · exact .inr ⟨order, List.mem_cons_self, rfl, hzero⟩
          · exact .inl hkey
        · exact .inl hkey
      · exact .inr ⟨intent, List.mem_cons_of_mem order hintent, hcloses⟩
  exact hcapture s.context.orders { s with context := { s.context with orders := [] } } hs

theorem callHook_marks (hs : s.exitPending.Nodup) (timestamp : Time) (callback : Callback G) :
    Marks s (s.callHook timestamp callback).1
      ((s.callHook timestamp callback).2.intents.getD []) := by
  unfold Session.callHook
  dsimp only
  split
  · exact .refl hs
  · exact handOver_marks (s := (s.invoke timestamp callback).1) hs

theorem evaluateEquityRisk_marks (prog : Program G) (hs : s.exitPending.Nodup) (timestamp : Time) :
    Marks s (s.evaluateEquityRisk prog timestamp).1
      ((s.evaluateEquityRisk prog timestamp).2.intents.getD []) := by
  unfold Session.evaluateEquityRisk
  split
  · exact .refl hs
  · exact callHook_marks hs ..

theorem process_marks (prog : Program G) (hs : s.exitPending.Nodup) (frames : Frames)
    (clock : Time) :
    Marks s (s.process prog frames clock).1 ((s.process prog frames clock).2.intents.getD []) := by
  unfold Session.process
  split
  · exact .refl hs
  next timestamp _ =>
    have hfirst : ((s.showData frames timestamp).invokeFirst prog timestamp clock).1.exitPending =
          s.exitPending ∧
        ((s.showData frames timestamp).invokeFirst prog timestamp clock).1.positions =
          s.positions := invokeAll_marks (s.showData frames timestamp) _
    generalize (s.showData frames timestamp).invokeFirst prog timestamp clock = first at hfirst ⊢
    dsimp only
    split
    · exact ⟨hfirst.2, hfirst.1 ▸ hs, fun _ hkey => .inl (hfirst.1 ▸ hkey)⟩
    · have hsecond : (first.1.invokeBar prog timestamp clock).1.exitPending = s.exitPending ∧
          (first.1.invokeBar prog timestamp clock).1.positions = s.positions := by
        obtain ⟨hpending, hpositions⟩ :=
          invokeAll_marks { first.1 with lastScheduleCheck := some clock }
            (first.1.dueOnBar prog timestamp)
        exact ⟨hpending.trans hfirst.1, hpositions.trans hfirst.2⟩
      generalize first.1.invokeBar prog timestamp clock = second at hsecond ⊢
      split
      · exact ⟨hsecond.2, hsecond.1 ▸ hs, fun _ hkey => .inl (hsecond.1 ▸ hkey)⟩
      · obtain ⟨hpositions, hnodup, hmarks⟩ := handOver_marks (s := second.1) (hsecond.1 ▸ hs)
        exact ⟨hpositions.trans hsecond.2, hnodup, fun key hkey => hsecond.1 ▸ hmarks key hkey⟩

/-- Positions are kept under the keys of their legs. -/
def Keyed (s : Session G) : Prop :=
  ∀ key position, s.positions.get? key = some position →
    key = ⟨position.symbol, position.positionSide⟩

theorem exitIntent_closes (position : Position) (reason : ExitReason) :
    Closes (Session.exitIntent position reason) ⟨position.symbol, position.positionSide⟩ := by
  refine ⟨rfl, rfl, ?_⟩
  show |(0 : ℚ)| ≤ amountEpsilon
  rw [abs_zero]
  decide +kernel

theorem evaluateProtection_marks (hs : s.exitPending.Nodup) (hkeyed : Keyed s)
    (prices : Dict PositionKey ℚ) (timestamp : Time) (key : PositionKey)
    (state : ProtectionState) :
    Marks s (s.evaluateProtection prices timestamp key state).1
      (s.evaluateProtection prices timestamp key state).2.toList := by
  unfold Session.evaluateProtection
  split
  · exact .refl hs
  · split
    · exact .refl hs
    next position hposition =>
      split
      · exact .refl hs
      · split
        · exact .refl hs
        · dsimp only
          split
          · exact ⟨rfl, hs, fun _ hkey => .inl hkey⟩
          next decision _ =>
            refine ⟨rfl, hs.insert, fun key' hkey' => ?_⟩
            rcases List.mem_insert_iff.mp hkey' with rfl | hkey'
            · refine .inr ⟨_, List.mem_singleton_self _, ?_⟩
              rw [hkeyed key' position hposition]
              exact exitIntent_closes position decision.reason
            · exact .inl hkey'

theorem evaluateProtections_marks (hs : s.exitPending.Nodup) (hkeyed : Keyed s)
    (prices : Dict PositionKey ℚ) (timestamp : Time) :
    Marks s (s.evaluateProtections prices timestamp).1
      (s.evaluateProtections prices timestamp).2 := by
  have hall : ∀ (entries : List (PositionKey × ProtectionState)) (s : Session G),
      s.exitPending.Nodup → Keyed s → Marks s (s.evaluateStates prices timestamp entries).1
        (s.evaluateStates prices timestamp entries).2 := by
    intro entries
    induction entries with
    | nil => exact fun s hs _ => .refl hs
    | cons e entries ih =>
      intro s hs hkeyed
      obtain ⟨hpositions, hnodup, hmarks⟩ :=
        evaluateProtection_marks hs hkeyed prices timestamp e.1 e.2
      obtain ⟨hpositions', hnodup', hmarks'⟩ := ih (s.evaluateProtection prices timestamp e.1 e.2).1
        hnodup (fun key position h => hkeyed key position (hpositions ▸ h))
      refine ⟨hpositions'.trans hpositions, hnodup', fun key hkey => ?_⟩
      rcases hmarks' key hkey with hkey | ⟨intent, hintent, hcloses⟩
      · rcases hmarks key hkey with hkey | ⟨intent, hintent, hcloses⟩
        · exact .inl hkey
        · exact .inr ⟨intent, List.mem_append_left _ hintent, hcloses⟩
      · exact .inr ⟨intent, List.mem_append_right _ hintent, hcloses⟩
  exact hall s.protectionStates.entries s hs hkeyed

theorem synchronizeProtection_marks (s : Session G) (now : Time) (key : PositionKey)
    (position : Position) :
    (s.synchronizeProtection now key position).exitPending = s.exitPending ∧
      (s.synchronizeProtection now key position).positions = s.positions := by
  unfold Session.synchronizeProtection
  split
  · exact ⟨rfl, rfl⟩
  · split
    · exact ⟨rfl, rfl⟩
    · extract_lets side opened
      split
      · exact ⟨rfl, rfl⟩
      · split
        · exact ⟨rfl, rfl⟩
        · split
          · exact ⟨rfl, rfl⟩
          · exact ⟨rfl, rfl⟩

/-- A synchronization marks no leg. -/
theorem synchronizePositions_marks (hs : s.exitPending.Nodup) (now : Time)
    (rows : List Session.PositionRow) (availableCash totalValue : Option ℚ) :
    (s.synchronizePositions now rows availableCash totalValue).exitPending.Nodup ∧
      (∀ key ∈ (s.synchronizePositions now rows availableCash totalValue).exitPending,
        key ∈ s.exitPending) ∧
      (s.synchronizePositions now rows availableCash totalValue).positions =
        Session.positionsOf rows := by
  have hprotection : ∀ (entries : List (PositionKey × Position)) (s : Session G),
      (entries.foldl (fun s e => s.synchronizeProtection now e.1 e.2) s).exitPending =
          s.exitPending ∧
        (entries.foldl (fun s e => s.synchronizeProtection now e.1 e.2) s).positions =
          s.positions := by
    intro entries
    induction entries with
    | nil => exact fun s => ⟨rfl, rfl⟩
    | cons e entries ih =>
      intro s
      obtain ⟨hpending, hpositions⟩ := synchronizeProtection_marks s now e.1 e.2
      exact ⟨(ih _).1.trans hpending, (ih _).2.trans hpositions⟩
  have hforget : ∀ (keys : List PositionKey) (s : Session G),
      (keys.foldl Session.forgetExit s).exitPending.Sublist s.exitPending ∧
        (keys.foldl Session.forgetExit s).positions = s.positions := by
    intro keys
    induction keys with
    | nil => exact fun s => ⟨List.Sublist.refl _, rfl⟩
    | cons key keys ih =>
      intro s
      have hone : (s.forgetExit key).exitPending.Sublist s.exitPending ∧
          (s.forgetExit key).positions = s.positions := by
        unfold Session.forgetExit
        split
        · exact ⟨List.erase_sublist, rfl⟩
        · exact ⟨List.Sublist.refl _, rfl⟩
      exact ⟨(ih _).1.trans hone.1, (ih _).2.trans hone.2⟩
  unfold Session.synchronizePositions
  extract_lets synced s₁ s₂
  obtain ⟨hpending₁, hpositions₁⟩ := hprotection synced.entries { s with positions := synced }
  obtain ⟨hpending₂, hpositions₂⟩ := hforget s₁.exitPending s₁
  have hsub : s₂.exitPending.Sublist s.exitPending := hpending₁ ▸ hpending₂
  exact ⟨hs.sublist hsub, fun key hkey => hsub.subset hkey, hpositions₂.trans hpositions₁⟩

theorem positionsOf_keyed (rows : List Session.PositionRow) {key : PositionKey}
    {position : Position} (h : (Session.positionsOf rows).get? key = some position) :
    key = ⟨position.symbol, position.positionSide⟩ := by
  have hfold : ∀ (rows : List Session.PositionRow) (d : Dict PositionKey Position),
      (∀ key position, d.get? key = some position →
        key = ⟨position.symbol, position.positionSide⟩) →
      ∀ key position,
        (rows.foldl (fun d row => d.set row.key row.position) d).get? key = some position →
          key = ⟨position.symbol, position.positionSide⟩ := by
    intro rows
    induction rows with
    | nil => exact fun d hd => hd
    | cons row rows ih =>
      intro d hd
      refine ih _ fun key position hget => ?_
      rw [Dict.get?_set] at hget
      split at hget
      next hkey =>
        obtain rfl := Option.some.inj hget
        exact hkey.symm
      · exact hd key position hget
  refine hfold rows Dict.empty (fun key position hget => ?_) key position h
  rw [Dict.get?_empty] at hget
  cases hget

end

theorem restore_marks {pd : StateValue.Timestamps} {persist : Bool} {f r : Session Vars}
    {values : Snapshot} (h : f.restoreSessionSnapshot pd persist values = some r) :
    r.exitPending = values.exitPending ∧ r.positions = f.positions := by
  unfold Session.restoreSessionSnapshot at h
  dsimp only at h
  split at h
  · split at h
    · unfold Session.restorePersisted at h
      split at h
      · obtain rfl := Option.some.inj h
        exact ⟨rfl, rfl⟩
      · cases h
    · obtain rfl := Option.some.inj h
      exact ⟨rfl, rfl⟩
  · obtain rfl := Option.some.inj h
    exact ⟨rfl, rfl⟩

/-! ## Every act -/

/-- A marked leg with an open position has an exit on its way or about to be submitted;
the exits of protections close their legs. -/
structure Latched (l : Loop) : Prop where
  nodup : l.session.exitPending.Nodup
  keyed : Keyed l.session
  exits : ∀ e ∈ l.outstanding, e.1 = .protection → Closes e.2 e.2.positionKey
  safe : ∀ key ∈ l.session.exitPending, Settled l key ∨ ToClose l.outstanding key
  saved : ∀ snapshot ∈ l.saved, snapshot.exitPending.Nodup

section
variable {cfg : LoopConfig} {l l' : Loop}

/-- What an evaluation with nothing outstanding leaves. -/
theorem evaluated_latched (hl : Latched l) (hidle : l.outstanding = []) (source : Source)
    {session : Session Vars} {intents intents' : List OrderIntent}
    (hmarks : Marks l.session session intents)
    (hintents : ∀ intent ∈ intents, intent ∈ intents' ∨
      intent.positionKey ∈ l.session.exitPending)
    (hexits : source = .protection → ∀ intent ∈ intents', Closes intent intent.positionKey) :
    Latched (l.evaluated source session intents') := by
  obtain ⟨hpositions, hnodup, hmarks⟩ := hmarks
  have hold : ∀ key ∈ l.session.exitPending, Settled l key := by
    intro key hkey
    rcases hl.safe key hkey with hsettled | ⟨e, he, -⟩
    · exact hsettled
    · rw [hidle] at he
      cases he
  refine ⟨hnodup, fun key position h => hl.keyed key position (hpositions ▸ h), ?_, ?_, hl.saved⟩
  · intro e he hsource
    obtain ⟨intent, hintent, rfl⟩ := List.mem_map.mp he
    exact hexits hsource intent hintent
  · intro key hkey
    rcases hmarks key hkey with hkey | ⟨intent, hintent, hcloses⟩
    · exact .inl (hold key hkey)
    · rcases hintents intent hintent with hintent | hprotected
      · exact .inr ⟨(source, intent), List.mem_map_of_mem hintent, hcloses⟩
      · exact .inl (hold key (hcloses.1 ▸ hprotected))

theorem evaluateProtections_closes (s : Session Vars) (prices : Dict PositionKey ℚ)
    (timestamp : Time) :
    ∀ intent ∈ (s.evaluateProtections prices timestamp).2, Closes intent intent.positionKey := by
  have hall : ∀ (entries : List (PositionKey × ProtectionState)) (s : Session Vars),
      ∀ intent ∈ (s.evaluateStates prices timestamp entries).2,
        Closes intent intent.positionKey := by
    intro entries
    induction entries with
    | nil => exact fun s intent h => absurd h List.not_mem_nil
    | cons e entries ih =>
      intro s intent hintent
      rcases List.mem_append.mp hintent with hintent | hintent
      · unfold Session.evaluateProtection at hintent
        split at hintent
        · cases hintent
        · split at hintent
          · cases hintent
          · split at hintent
            · cases hintent
            · split at hintent
              · cases hintent
              · dsimp only at hintent
                split at hintent
                · cases hintent
                · rw [List.mem_singleton.mp hintent]
                  exact exitIntent_closes ..
      · exact ih _ intent hintent
  exact hall s.protectionStates.entries s

theorem report_marks (s : Session Vars) (intent : OrderIntent) (submitted : Bool) :
    (Loop.report s intent submitted).exitPending = s.exitPending ∧
      (Loop.report s intent submitted).positions = s.positions := by
  unfold Loop.report
  split
  · exact ⟨rfl, rfl⟩
  · exact ⟨rfl, rfl⟩

/-- A closer of another intent is among the rest. -/
theorem toClose_rest {e : Source × OrderIntent} {rest : List (Source × OrderIntent)}
    {key : PositionKey} (h : ToClose (e :: rest) key) (hother : ¬ Closes e.2 key) :
    ToClose rest key := by
  obtain ⟨e', he', hcloses⟩ := h
  rcases List.mem_cons.mp he' with rfl | he'
  · exact absurd hcloses hother
  · exact ⟨e', he', hcloses⟩

/-- **A submission** that fails takes the mark back when it is a protection's. -/
theorem submit_latched (hl : Latched l) {source : Source} {intent : OrderIntent}
    {rest : List (Source × OrderIntent)} (hrest : l.outstanding = (source, intent) :: rest)
    (outcome : Outcome) (hcond : ExitsHold l (.submit outcome)) :
    Latched (l.submit source intent rest outcome) := by
  have hexits : ∀ e ∈ rest, e.1 = .protection → Closes e.2 e.2.positionKey :=
    fun e he => hl.exits e (hrest ▸ List.mem_cons_of_mem _ he)
  cases outcome with
  | raised =>
    refine ⟨hl.nodup, hl.keyed, fun e he => absurd he List.not_mem_nil, ?_, hl.saved⟩
    intro key hkey
    rcases hl.safe key hkey with hsettled | ⟨e, he, hcloses⟩
    · exact .inl hsettled
    · obtain ⟨rfl, hzero⟩ := hcloses
      exact .inl (hcond e he ⟨rfl, hzero⟩)
  | accepted =>
    obtain ⟨hpending, hpositions⟩ := report_marks l.session intent true
    refine ⟨?_, ?_, hexits, ?_, hl.saved⟩
    · show (Loop.report l.session intent true).exitPending.Nodup
      rw [hpending]
      exact hl.nodup
    · intro key position h
      exact hl.keyed key position (hpositions ▸ h)
    · intro key hkey
      have hkey : key ∈ (Loop.report l.session intent true).exitPending := hkey
      rw [hpending] at hkey
      by_cases hcloses : Closes intent key
      · refine .inl fun _ => ?_
        obtain ⟨rfl, hzero⟩ := hcloses
        show _ ∈ ite _ _ _
        rw [if_pos ⟨rfl, hzero⟩]
        exact List.mem_insert_self
      · rcases hl.safe key hkey with hsettled | hclose
        · refine .inl fun hopen => ?_
          show _ ∈ ite _ _ _
          split
          · exact List.mem_insert_of_mem (hsettled hopen)
          · exact hsettled hopen
        · exact .inr (toClose_rest (hrest ▸ hclose) hcloses)
  | rejected =>
    have hcond : source = .protection ∨ (Closes intent intent.positionKey →
        Settled l intent.positionKey ∨ ToClose rest intent.positionKey) := by
      unfold ExitsHold at hcond
      rw [hrest] at hcond
      exact hcond
    by_cases hsource : source = .protection
    · obtain ⟨hpending, hpositions⟩ := report_marks
        (l.session.releaseProtectionExit intent.positionKey) intent
        (l.submitted source intent .rejected)
      have hsession : (l.submit source intent rest .rejected).session = Loop.report
          (l.session.releaseProtectionExit intent.positionKey) intent
            (l.submitted source intent .rejected) := by
        unfold Loop.submit
        dsimp only
        rw [if_pos hsource]
      refine ⟨?_, ?_, hexits, ?_, hl.saved⟩
      · rw [hsession, hpending]
        exact hl.nodup.erase _
      · intro key position h
        rw [hsession, hpositions] at h
        exact hl.keyed key position h
      · intro key hkey
        rw [hsession, hpending] at hkey
        obtain ⟨hne, hkey⟩ := hl.nodup.mem_erase_iff.mp hkey
        rcases hl.safe key hkey with hsettled | hclose
        · exact .inl hsettled
        · exact .inr (toClose_rest (hrest ▸ hclose) fun hcloses => hne hcloses.1.symm)
    · obtain ⟨hpending, hpositions⟩ := report_marks l.session intent
        (l.submitted source intent .rejected)
      have hsession : (l.submit source intent rest .rejected).session =
          Loop.report l.session intent (l.submitted source intent .rejected) := by
        unfold Loop.submit
        dsimp only
        rw [if_neg hsource]
      refine ⟨?_, ?_, hexits, ?_, hl.saved⟩
      · rw [hsession, hpending]
        exact hl.nodup
      · intro key position h
        rw [hsession, hpositions] at h
        exact hl.keyed key position h
      · intro key hkey
        rw [hsession, hpending] at hkey
        by_cases hcloses : Closes intent key
        · obtain ⟨rfl, hzero⟩ := hcloses
          exact (hcond.resolve_left hsource) ⟨rfl, hzero⟩
        · rcases hl.safe key hkey with hsettled | hclose
          · exact .inl hsettled
          · exact .inr (toClose_rest (hrest ▸ hclose) hcloses)

/-- An act with nothing outstanding. -/
theorem idle_latched (hl : Latched l) (hidle : l.outstanding = []) {a : LoopAct}
    (h : l.idle cfg a = some l') : Latched l' := by
  have hclosed : ∀ {s : Session Vars}, s.exitPending = l.session.exitPending →
      s.positions = l.session.positions → Latched { l with session := s } := by
    intro s hpending hpositions
    refine ⟨?_, fun key position h => hl.keyed key position (hpositions ▸ h), hl.exits, ?_, hl.saved⟩
    · rw [hpending]
      exact hl.nodup
    · intro key hkey
      rw [hpending] at hkey
      exact hl.safe key hkey
  cases a with
  | updateStatuses statuses =>
    obtain rfl := Option.some.inj h
    exact hclosed rfl rfl
  | readPositions =>
    obtain rfl := Option.some.inj h
    exact ⟨hl.nodup, hl.keyed, hl.exits, hl.safe, hl.saved⟩
  | synchronize now totalValue =>
    obtain rfl := Option.some.inj h
    obtain ⟨hnodup, hmarks, hpositions⟩ :=
      synchronizePositions_marks hl.nodup now l.read none totalValue
    refine ⟨hnodup, ?_, hl.exits, fun key hkey => hl.safe key (hmarks key hkey), hl.saved⟩
    intro key position hget
    have hget : (l.session.synchronizePositions now l.read none totalValue).positions.get? key =
      some position := hget
    rw [hpositions] at hget
    exact positionsOf_keyed l.read hget
  | equityRisk timestamp =>
    obtain rfl := Option.some.inj h
    exact evaluated_latched hl hidle .equityRisk
      (evaluateEquityRisk_marks cfg.prog hl.nodup timestamp) (fun _ hintent => .inl hintent) nofun
  | releaseEquityRisk =>
    obtain rfl := Option.some.inj h
    exact hclosed rfl rfl
  | protections prices timestamp =>
    obtain rfl := Option.some.inj h
    exact evaluated_latched hl hidle .protection
      (evaluateProtections_marks hl.nodup hl.keyed prices timestamp)
      (fun _ hintent => .inl hintent) fun _ => evaluateProtections_closes l.session prices timestamp
  | process frames clock =>
    obtain rfl := Option.some.inj h
    refine evaluated_latched hl hidle .strategy (process_marks cfg.prog hl.nodup frames clock) ?_
      nofun
    intro intent hintent
    by_cases hprotected : intent.positionKey ∈ l.session.exitPending
    · exact .inr hprotected
    · exact .inl (List.mem_filter.mpr ⟨hintent, decide_eq_true hprotected⟩)
  | save =>
    obtain rfl := Option.some.inj h
    refine ⟨hl.nodup, hl.keyed, hl.exits, hl.safe, fun snapshot hsnapshot => ?_⟩
    obtain rfl := Option.some.inj hsnapshot
    exact hl.nodup
  | submit outcome => cases h
  | restart => cases h
  | trade table => cases h
  | fail key => cases h

/-- **One act** leaves no marked leg without an exit. -/
theorem step_latched (l : Loop) (a : LoopAct) (l' : Loop) (hl : Latched l) (hcond : ExitsHold l a)
    (h : l.step cfg a = some l') : Latched l' := by
  have hidle : ∀ {a}, (if l.outstanding = [] then l.idle cfg a else none) = some l' →
      Latched l' := by
    intro a h
    obtain ⟨hnone, h⟩ := Option.ite_none_right_eq_some.mp h
    exact idle_latched hl hnone h
  cases a with
  | submit outcome =>
    unfold Loop.step at h
    dsimp only at h
    split at h
    · cases h
    next source intent rest hrest =>
      obtain rfl := Option.some.inj h
      exact submit_latched hl hrest outcome hcond
  | restart =>
    obtain ⟨session, hsession, rfl⟩ := Option.map_eq_some_iff.mp h
    unfold Loop.restarted at hsession
    dsimp only at hsession
    split at hsession
    next hnone =>
      obtain rfl := Option.some.inj hsession
      refine ⟨List.nodup_nil, ?_, ?_, ?_, hl.saved⟩
      · intro key position hget
        cases hget
      · exact fun e he => absurd he List.not_mem_nil
      · exact fun key hkey => absurd hkey List.not_mem_nil
    next snapshot hsnapshot =>
      obtain ⟨hpending, hpositions⟩ := restore_marks hsession
      have hpending : session.exitPending = snapshot.exitPending := hpending
      refine ⟨?_, ?_, fun e he => absurd he List.not_mem_nil, ?_, hl.saved⟩
      · rw [hpending]
        exact hl.saved snapshot hsnapshot
      · intro key position hget
        rw [hpositions] at hget
        cases hget
      · intro key hkey
        rw [hpending] at hkey
        exact .inl (hcond snapshot hsnapshot key hkey)
  | trade table =>
    obtain rfl := Option.some.inj h
    refine ⟨hl.nodup, hl.keyed, hl.exits, fun key hkey => ?_, hl.saved⟩
    by_cases hopens : Opens l.table table key
    · exact .inr (hcond key hkey hopens)
    · rcases hl.safe key hkey with hsettled | hclose
      · refine .inl fun hopen => List.mem_filter.mpr ⟨hsettled ?_, decide_eq_true hopens⟩
        by_contra hclosed
        exact hopens ⟨hopen, fun hsame => hclosed hsame.1⟩
      · exact .inr hclose
  | fail key =>
    obtain rfl := Option.some.inj h
    refine ⟨hl.nodup, hl.keyed, hl.exits, fun key' hkey' => ?_, hl.saved⟩
    by_cases hsame : key' = key
    · subst hsame
      by_cases hopen : IsOpen l.table key'
      · exact .inr (hcond hkey' hopen)
      · exact .inl fun hopen' => absurd hopen' hopen
    · rcases hl.safe key' hkey' with hsettled | hclose
      · exact .inl fun hopen => List.mem_filter.mpr ⟨hsettled hopen, decide_eq_true hsame⟩
      · exact .inr hclose
  | updateStatuses statuses => exact hidle h
  | readPositions => exact hidle h
  | synchronize now totalValue => exact hidle h
  | equityRisk timestamp => exact hidle h
  | releaseEquityRisk => exact hidle h
  | protections prices timestamp => exact hidle h
  | process frames clock => exact hidle h
  | save => exact hidle h

theorem start_latched (cfg : LoopConfig) : Latched (Loop.start cfg) := by
  refine ⟨List.nodup_nil, ?_, ?_, ?_, ?_⟩
  · intro key position hget
    cases hget
  · exact fun e he => absurd he List.not_mem_nil
  · exact fun key hkey => absurd hkey List.not_mem_nil
  · exact fun snapshot hsnapshot => by cases hsnapshot

/-- **The exit latch is safe** in a run whose exits all hold. -/
theorem latchSafe_of_exitsHold {acts : List LoopAct}
    (hcond : Runs.AllSteps (Loop.step cfg) ExitsHold (Loop.start cfg) acts)
    (hrun : Runs.run (Loop.step cfg) (Loop.start cfg) acts = some l) : LatchSafe l := by
  have hl : Latched l :=
    Runs.run_invariant_of_allSteps step_latched (start_latched cfg) hcond hrun
  intro hidle key hkey hopen
  rcases hl.safe key hkey with hsettled | ⟨e, he, -⟩
  · exact hsettled hopen
  · rw [hidle] at he
    cases he

end

/-! ## Runs -/

namespace Exits

open Kept (coin bar row price)

def first : Frames := Kept.history

def second : Frames where
  entries := [(coin, ⟨[(1, bar), (2, bar)], by decide⟩)]

def close : Request := .order { symbol := coin, kind := .targetQuantity, value := 0 }

/-- Buys with a protection at the first bar and closes at the second; its equity exit
closes too. -/
def prog : Program Vars where
  init := Kept.holding .null
  beforeTradingStart := Kept.silent
  onRebalance := Kept.silent
  handleData := fun view s =>
    { strategy := s, requests := if view.currentDt = 1 then [Kept.order] else [close] }
  equityRiskExit := some fun _ s => { strategy := s, requests := [close] }

def config : LoopConfig where
  prog := prog
  persist := false
  pd := Kept.pd
  str := fun _ => ""
  portal := portalAt first 1 true
  initialCapital := 1000

/-- A bought position, as the loop has read it. -/
def bought : List LoopAct :=
  [.process first 1, .submit .accepted, .trade [row 1 100], .readPositions, .synchronize 1 none]

/-- A stop loss that is rejected at first, and a restart. -/
def stopped : List LoopAct :=
  bought ++ [.protections (price 50) 2, .submit .rejected, .protections (price 50) 3,
    .submit .accepted, .save, .restart, .readPositions, .synchronize 4 none]

/-- The price falls after a target of the strategy was rejected. -/
def rejected : List LoopAct :=
  bought ++ [.process second 2, .submit .rejected, .readPositions, .synchronize 3 none,
    .protections (price 50) 3]

/-- The price falls after an equity exit was rejected. -/
def equityRejected : List LoopAct :=
  bought ++ [.equityRisk 2, .submit .rejected, .releaseEquityRisk, .readPositions,
    .synchronize 3 none, .protections (price 50) 3]

end Exits

open Exits in
theorem latchSafe_of_exitsHold_stopped :
    ∃ l, Runs.run (Loop.step config) (Loop.start config) stopped = some l ∧
      l.session.exitPending.length = 1 ∧ LatchSafe l := by
  obtain ⟨l, hrun, hlength⟩ := Runs.exists_of_any
    (p := fun l : Loop => l.session.exitPending.length = 1)
    (show (Runs.run (Loop.step config) (Loop.start config) stopped).any _ = true by decide +kernel)
  exact ⟨l, hrun, hlength, latchSafe_of_exitsHold (by decide +kernel) hrun⟩

open Exits in
/-- A rejected target of the strategy, and a rejected equity exit, leave the leg marked:
its stop loss no longer fires. -/
theorem rejectedExit_suppresses :
    (∃ l, Runs.run (Loop.step config) (Loop.start config) rejected = some l ∧
      l.outstanding = [] ∧ ¬ LatchSafe l) ∧
    ∃ l, Runs.run (Loop.step config) (Loop.start config) equityRejected = some l ∧
      l.outstanding = [] ∧ ¬ LatchSafe l :=
  ⟨Runs.exists_of_any (p := fun l : Loop => l.outstanding = [] ∧ ¬ LatchSafe l)
      (by decide +kernel),
    Runs.exists_of_any (p := fun l : Loop => l.outstanding = [] ∧ ¬ LatchSafe l)
      (by decide +kernel)⟩

end AlgoTrade.Live
