import AlgoTrade.Backtest.DeskRuns

/-! # Stale targets

A newer target of a leg against the older ones that still wait for a retry.

* `NeverStale`: no target fills after a newer one of its leg has filled or was met.
* `NoneOutlived`: a target is not done with at the open while a rival still waits;
  `_merge_pending` drops rivals only for targets that are kept for a retry.
* `neverStale_of_noneOutlived`: every run of the desk. -/

namespace AlgoTrade.Backtest

/-! ## The property -/

namespace DeskEvent

def filled? : DeskEvent → Option Ticket
  | .filled tk => some tk
  | _ => none

/-- The order that produced a fill or was completed. -/
def done? : DeskEvent → Option Ticket
  | .filled tk => some tk
  | .met tk => some tk
  | _ => none

end DeskEvent

/-- No target fills after a newer target of its leg has filled or was met. -/
def NeverStale (log : List DeskEvent) : Prop :=
  log.Pairwise fun e e' => ∀ tk ∈ e.done?, ∀ tk' ∈ e'.filled?,
    tk.rivals tk' → tk.sequence ≤ tk'.sequence

instance (log : List DeskEvent) : Decidable (NeverStale log) :=
  inferInstanceAs (Decidable (log.Pairwise _))

/-! ## The condition -/

/-- No order of the batch is done with, filled or met and not kept for a retry,
while a rival waits: in `waiting`, or kept earlier in the batch. -/
def NoneOutlived (cfg : BrokerConfig) (p : Portal) (timestamp : Time) :
    List Ticket → Book → List Ticket → Prop
  | _, _, [] => True
  | waiting, b, tk :: tks =>
    ∀ out ∈ executeOrder cfg p timestamp {} b tk.order,
      (tk.events out ≠ [] → out.deferred = none → ∀ w ∈ waiting, ¬ w.rivals tk) ∧
        NoneOutlived cfg p timestamp (waiting ++ (tk.kept out).toList) out.book tks

instance decidableNoneOutlived (cfg : BrokerConfig) (p : Portal) (timestamp : Time) :
    ∀ waiting b tks, Decidable (NoneOutlived cfg p timestamp waiting b tks)
  | _, _, [] => inferInstanceAs (Decidable True)
  | waiting, b, tk :: tks =>
    have : ∀ out, Decidable
        (NoneOutlived cfg p timestamp (waiting ++ (tk.kept out).toList) out.book tks) :=
      fun _ => decidableNoneOutlived ..
    inferInstanceAs (Decidable (∀ out ∈ executeOrder cfg p timestamp {} b tk.order, _))

/-- The orders of the callbacks before the close leave no rival behind. -/
def TargetsSupersede {G : Type} (cfg : BrokerConfig) (d : Desk G) : Act G → Prop
  | .executeOpening p timestamp =>
    NoneOutlived cfg p timestamp d.pending (d.broker.book.markToMarket p) d.opening
  | _ => True

instance {G : Type} (cfg : BrokerConfig) (d : Desk G) (a : Act G) :
    Decidable (TargetsSupersede cfg d a) :=
  match a with
  | .executeOpening .. => inferInstanceAs (Decidable (NoneOutlived ..))
  | .executePending .. | .exitProtections .. | .invokeOpening .. | .liquidate ..
  | .invokeClosing .. | .finish .. => inferInstanceAs (Decidable True)

/-! ## Rivals -/

namespace Ticket

variable {tk tk' w k : Ticket}

theorem rivals_symm (h : tk.rivals tk') : tk'.rivals tk := ⟨h.2.1, h.1, h.2.2.symm⟩

theorem Same.rivals (hsame : k.Same tk) (h : w.rivals k) : w.rivals tk :=
  ⟨h.1, hsame.kind ▸ h.2.1, h.2.2.trans hsame.positionKey⟩

theorem Same.rivals' (hsame : k.Same tk) (h : w.rivals tk) : w.rivals k :=
  ⟨h.1, hsame.kind ▸ h.2.1, h.2.2.trans hsame.positionKey.symm⟩

end Ticket

/-- No target done with in the log is newer than the waiting one, of its leg. -/
def NotOutdated (log : List DeskEvent) (w : Ticket) : Prop :=
  ∀ e ∈ log, ∀ tk ∈ e.done?, tk.rivals w → tk.sequence ≤ w.sequence

/-- No later order of the list is a rival: the merge keeps it. -/
def Survives (w : Ticket) (tks : List Ticket) : Prop :=
  ∃ before after, tks = before ++ w :: after ∧ ∀ k ∈ after, ¬ w.rivals k

theorem survives_of_pairwise {w : Ticket} {tks : List Ticket}
    (h : tks.Pairwise fun tk tk' => ¬ tk.rivals tk') (hw : w ∈ tks) : Survives w tks := by
  obtain ⟨before, after, rfl⟩ := List.append_of_mem hw
  refine ⟨before, after, rfl, ?_⟩
  exact (List.pairwise_cons.mp (List.pairwise_append.mp h).2.1).1

/-- What the merge keeps: current orders without a rival among the incoming ones,
incoming orders without a later one. -/
theorem mem_mergeTickets {current incoming : List Ticket} {w : Ticket}
    (hw : w ∈ mergeTickets current incoming) :
    (w ∈ current ∧ ∀ k ∈ incoming, ¬ w.rivals k) ∨
      ∃ before after, incoming = before ++ w :: after ∧ ∀ k ∈ after, ¬ w.rivals k := by
  unfold mergeTickets at hw
  induction incoming generalizing current with
  | nil => exact .inl ⟨hw, fun k hk => by cases hk⟩
  | cons tk incoming ih =>
    rw [List.foldl_cons] at hw
    rcases ih hw with ⟨hmem, hrest⟩ | ⟨before, after, rfl, hafter⟩
    · rcases List.mem_append.mp hmem with hmem | hmem
      · obtain ⟨hcurrent, htk⟩ := List.mem_filter.mp hmem
        refine .inl ⟨hcurrent, fun k hk => ?_⟩
        rcases List.mem_cons.mp hk with rfl | hk
        · exact of_decide_eq_true htk
        · exact hrest k hk
      · obtain rfl := List.mem_singleton.mp hmem
        exact .inr ⟨[], incoming, rfl, hrest⟩
    · exact .inr ⟨tk :: before, after, rfl, hafter⟩

theorem survives_of_mem_mergeTickets {current incoming : List Ticket} {w : Ticket}
    (hcurrent : current.Pairwise fun tk tk' => ¬ tk.rivals tk')
    (hw : w ∈ mergeTickets current incoming) : Survives w (current ++ incoming) := by
  rcases mem_mergeTickets hw with ⟨hmem, hrest⟩ | ⟨before, after, rfl, hafter⟩
  · obtain ⟨before, after, rfl, hafter⟩ := survives_of_pairwise hcurrent hmem
    refine ⟨before, after ++ incoming, by rw [List.append_assoc, List.cons_append], ?_⟩
    intro k hk
    rcases List.mem_append.mp hk with hk | hk
    · exact hafter k hk
    · exact hrest k hk
  · exact ⟨current ++ before, after, by rw [List.append_assoc], hafter⟩

/-- The merge leaves one target of a leg. -/
theorem mergeTickets_pairwise {current incoming : List Ticket}
    (hcurrent : current.Pairwise fun tk tk' => ¬ tk.rivals tk') :
    (mergeTickets current incoming).Pairwise fun tk tk' => ¬ tk.rivals tk' := by
  unfold mergeTickets
  induction incoming generalizing current with
  | nil => exact hcurrent
  | cons tk incoming ih =>
    rw [List.foldl_cons]
    refine ih (List.pairwise_append.mpr ⟨hcurrent.filter _, List.pairwise_singleton _ _, ?_⟩)
    intro item hitem tk' htk'
    rw [List.mem_singleton.mp htk']
    exact of_decide_eq_true (List.mem_filter.mp hitem).2

/-! ## A batch -/

section
variable {cfg : BrokerConfig} {p : Portal} {timestamp : Time}

theorem done_of_events {tk tk' : Ticket} {out : Outcome} {e : DeskEvent} (he : e ∈ tk.events out)
    (htk' : tk' ∈ e.done?) : tk' = tk ∧ tk.events out ≠ [] := by
  refine ⟨?_, List.ne_nil_of_mem he⟩
  unfold Ticket.events at he
  split at he
  · rw [List.mem_singleton.mp he] at htk'
    exact (Option.some.inj htk').symm
  · split at he
    · rw [List.mem_singleton.mp he] at htk'
      exact (Option.some.inj htk').symm
    · cases he

/-- One order more: what was done with and what waits stay apart. -/
theorem notOutdated_after {log : List DeskEvent} {waiting : List Ticket} {b : Book} {tk : Ticket}
    {out : Outcome} (hout : executeOrder cfg p timestamp {} b tk.order = some out)
    (hcond : tk.events out ≠ [] → out.deferred = none → ∀ w ∈ waiting, ¬ w.rivals tk)
    (htk : NotOutdated log tk) (hwait : ∀ w, Survives w waiting → NotOutdated log w) :
    ∀ w, Survives w (waiting ++ (tk.kept out).toList) → NotOutdated (log ++ tk.events out) w := by
  intro w hw e he tk' htk' hrivals
  cases hkept : tk.kept out with
  | none =>
    rw [hkept, Option.toList_none, List.append_nil] at hw
    rcases List.mem_append.mp he with he | he
    · exact hwait w hw e he tk' htk' hrivals
    · obtain ⟨rfl, hevents⟩ := done_of_events he htk'
      have hdeferred : out.deferred = none := by
        unfold Ticket.kept at hkept
        exact Option.map_eq_none_iff.mp hkept
      obtain ⟨before, after, rfl, -⟩ := hw
      have hmem : w ∈ before ++ w :: after := List.mem_append_right before List.mem_cons_self
      exact absurd (Ticket.rivals_symm hrivals) (hcond hevents hdeferred w hmem)
  | some k =>
    have hsame := Ticket.kept_same hout hkept
    rw [hkept, Option.toList_some] at hw
    obtain ⟨before, after, heq, hafter⟩ := hw
    rcases List.eq_nil_or_concat after with rfl | ⟨rest, last, rfl⟩
    · -- the order that has just been tried
      obtain ⟨-, hlast⟩ := List.append_inj' heq rfl
      obtain rfl : k = w := (List.cons.inj hlast).1
      rw [hsame.sequence]
      rcases List.mem_append.mp he with he | he
      · exact htk e he tk' htk' (hsame.rivals hrivals)
      · rw [(done_of_events he htk').1]
    · have hsplit : waiting ++ [k] = (before ++ w :: rest) ++ [last] := by
        rw [heq, List.concat_eq_append, List.append_assoc, List.cons_append]
      obtain ⟨rfl, hlast⟩ := List.append_inj' hsplit rfl
      obtain rfl : k = last := (List.cons.inj hlast).1
      have hapart : ¬ w.rivals k := hafter k (by simp)
      rcases List.mem_append.mp he with he | he
      · refine hwait w ⟨before, rest, rfl, fun k' hk' => hafter k' ?_⟩ e he tk' htk' hrivals
        rw [List.concat_eq_append]
        exact List.mem_append_left _ hk'
      · rw [(done_of_events he htk').1] at hrivals
        exact absurd (hsame.rivals' (Ticket.rivals_symm hrivals)) hapart

/-- **A batch** that leaves no rival behind, of orders that nothing outdates. -/
theorem executeTickets_notOutdated {b : Book} {tks : List Ticket} {o : TicketBatch}
    {log : List DeskEvent} {waiting : List Ticket}
    (ho : executeTickets cfg p timestamp b tks = some o)
    (hcond : NoneOutlived cfg p timestamp waiting b tks)
    (htks : ∀ tk ∈ tks, NotOutdated log tk)
    (hsorted : tks.Pairwise fun tk tk' => tk.rivals tk' → tk.sequence ≤ tk'.sequence)
    (hlog : NeverStale log) (hwait : ∀ w, Survives w waiting → NotOutdated log w) :
    NeverStale (log ++ o.events) ∧
      ∀ w, Survives w (waiting ++ o.deferred) → NotOutdated (log ++ o.events) w := by
  induction tks generalizing b log waiting o with
  | nil =>
    obtain rfl := Option.some.inj ho
    rw [List.append_nil, List.append_nil]
    exact ⟨hlog, hwait⟩
  | cons tk tks ih =>
    obtain ⟨out, hout, ho⟩ := Option.bind_eq_some_iff.mp ho
    obtain ⟨rest, hrest, rfl⟩ := Option.map_eq_some_iff.mp ho
    obtain ⟨hfirst, htail⟩ := List.pairwise_cons.mp hsorted
    obtain ⟨hkeeps, hcond⟩ := hcond out hout
    have htk := htks tk List.mem_cons_self
    have hlog' : NeverStale (log ++ tk.events out) := by
      refine List.pairwise_append.mpr ⟨hlog, ?_, ?_⟩
      · unfold Ticket.events
        split
        · exact List.pairwise_singleton _ _
        · split
          · exact List.pairwise_singleton _ _
          · exact List.Pairwise.nil
      · intro e he e' he' tk₁ htk₁ tk₂ htk₂ hrivals
        have hdone : tk₂ ∈ e'.done? := by
          cases e' with
          | filled tk' => exact htk₂
          | _ => cases htk₂
        rw [(done_of_events he' hdone).1] at hrivals ⊢
        exact htk e he tk₁ htk₁ hrivals
    have htks' : ∀ tk' ∈ tks, NotOutdated (log ++ tk.events out) tk' := by
      intro tk' htk' e he tk₁ htk₁ hrivals
      rcases List.mem_append.mp he with he | he
      · exact htks tk' (List.mem_cons_of_mem tk htk') e he tk₁ htk₁ hrivals
      · rw [(done_of_events he htk₁).1] at hrivals ⊢
        exact hfirst tk' htk' hrivals
    have hbatch := ih hrest hcond htks' htail hlog' (notOutdated_after hout hkeeps htk hwait)
    rwa [List.append_assoc, List.append_assoc] at hbatch

/-- Orders of different legs leave no rival behind. -/
theorem noneOutlived_of_pairwise {b : Book} {tks waiting : List Ticket}
    (h : tks.Pairwise fun tk tk' => ¬ tk.rivals tk')
    (hwaiting : ∀ w ∈ waiting, ∀ tk ∈ tks, ¬ w.rivals tk) :
    NoneOutlived cfg p timestamp waiting b tks := by
  induction tks generalizing b waiting with
  | nil => trivial
  | cons tk tks ih =>
    obtain ⟨hfirst, htail⟩ := List.pairwise_cons.mp h
    intro out hout
    refine ⟨fun _ _ w hw => hwaiting w hw tk List.mem_cons_self, ih htail fun w hw tk' htk' => ?_⟩
    rcases List.mem_append.mp hw with hw | hw
    · exact hwaiting w hw tk' (List.mem_cons_of_mem tk htk')
    · have hsame := Ticket.kept_same hout (Option.mem_toList.mp hw)
      intro hrivals
      exact hfirst tk' htk' (Ticket.rivals_symm (hsame.rivals (Ticket.rivals_symm hrivals)))

/-- What is left of orders of different legs is of different legs. -/
theorem executeTickets_pairwise {b : Book} {tks : List Ticket} {o : TicketBatch}
    (ho : executeTickets cfg p timestamp b tks = some o)
    (h : tks.Pairwise fun tk tk' => ¬ tk.rivals tk') :
    o.deferred.Pairwise fun tk tk' => ¬ tk.rivals tk' := by
  induction tks generalizing b o with
  | nil =>
    obtain rfl := Option.some.inj ho
    exact List.Pairwise.nil
  | cons tk tks ih =>
    obtain ⟨out, hout, ho⟩ := Option.bind_eq_some_iff.mp ho
    obtain ⟨rest, hrest, rfl⟩ := Option.map_eq_some_iff.mp ho
    obtain ⟨hfirst, htail⟩ := List.pairwise_cons.mp h
    have hdeferred : rest.deferred.Pairwise fun tk tk' => ¬ tk.rivals tk' := ih hrest htail
    refine List.pairwise_append.mpr ⟨?_, hdeferred, ?_⟩
    · cases tk.kept out with
      | none => exact List.Pairwise.nil
      | some k => exact List.pairwise_singleton _ _
    · intro k hk k' hk' hrivals
      have hsame := Ticket.kept_same hout (Option.mem_toList.mp hk)
      obtain ⟨tk', htk', hsame'⟩ := executeTickets_kept hrest hk'
      exact hfirst tk' htk' (Ticket.rivals_symm (hsame.rivals (Ticket.rivals_symm
        (hsame'.rivals hrivals))))

end

/-! ## Every act -/

/-- Nothing that waits is outdated. -/
structure UpToDate {G : Type} (d : Desk G) : Prop where
  staged : d.Staged
  log : NeverStale d.log
  pending : ∀ w ∈ d.pending, NotOutdated d.log w
  opening : ∀ w ∈ d.opening, NotOutdated d.log w
  distinct : d.pending.Pairwise fun tk tk' => ¬ tk.rivals tk'
  sorted : d.opening.Pairwise fun tk tk' => tk.sequence ≤ tk'.sequence
  pendingNumbers : ∀ w ∈ d.pending, w.sequence ≤ d.session.context.orderSequence
  openingNumbers : ∀ w ∈ d.opening, w.sequence ≤ d.session.context.orderSequence
  doneNumbers : ∀ e ∈ d.log, ∀ tk ∈ e.done?, tk.sequence ≤ d.session.context.orderSequence

section
variable {G : Type} {cfg : BrokerConfig} {p : Portal} {timestamp : Time} {d : Desk G}

/-- What a batch of the desk's own orders does to the log. -/
theorem execute_upToDate (hd : UpToDate d) {tks : List Ticket} {e : Desk G × List Ticket}
    {waiting : List Ticket} (he : d.execute cfg p timestamp tks = some e)
    (hcond : NoneOutlived cfg p timestamp waiting (d.broker.book.markToMarket p) tks)
    (htks : ∀ tk ∈ tks, NotOutdated d.log tk ∧ tk.sequence ≤ d.session.context.orderSequence)
    (hsorted : tks.Pairwise fun tk tk' => tk.rivals tk' → tk.sequence ≤ tk'.sequence)
    (hwait : ∀ w, Survives w waiting → NotOutdated d.log w) :
    NeverStale e.1.log ∧ (∀ w, Survives w (waiting ++ e.2) → NotOutdated e.1.log w) ∧
      (∀ w ∈ e.2, w.sequence ≤ e.1.session.context.orderSequence) ∧
      ∀ event ∈ e.1.log, ∀ tk ∈ event.done?, tk.sequence ≤ e.1.session.context.orderSequence := by
  obtain ⟨o, ho, hdeferred, hlog, -, -, -, hsequence⟩ := Desk.execute_frame he
  obtain ⟨hstale, hfresh⟩ := executeTickets_notOutdated ho hcond (fun tk htk => (htks tk htk).1)
    hsorted hd.log hwait
  rw [hdeferred, hlog, hsequence]
  refine ⟨hstale, hfresh, ?_, ?_⟩
  · intro w hw
    obtain ⟨tk, htk, hsame⟩ := executeTickets_kept ho hw
    rw [hsame.sequence]
    exact (htks tk htk).2
  · intro event hevent tk htk
    rcases List.mem_append.mp hevent with hevent | hevent
    · exact hd.doneNumbers event hevent tk htk
    · obtain ⟨tk', htk', rfl | rfl⟩ := executeTickets_events ho hevent
      · obtain rfl := Option.some.inj htk
        exact (htks _ htk').2
      · obtain rfl := Option.some.inj htk
        exact (htks _ htk').2

/-- What a callback does to the log and to what waits. -/
theorem invoke_upToDate (hd : UpToDate d) {callback : Callback G} {o : Desk G × List Ticket}
    (ho : d.invoke p timestamp callback = some o) :
    NeverStale o.1.log ∧
      (∀ w, NotOutdated d.log w → NotOutdated o.1.log w) ∧
      (∀ w ∈ o.2, NotOutdated o.1.log w ∧ d.session.context.orderSequence < w.sequence ∧
        w.sequence ≤ o.1.session.context.orderSequence) ∧
      o.2.Pairwise (fun tk tk' => tk.sequence ≤ tk'.sequence) ∧
      (∀ event ∈ o.1.log, ∀ tk ∈ event.done?, tk.sequence ≤ d.session.context.orderSequence) ∧
      d.session.context.orderSequence ≤ o.1.session.context.orderSequence ∧
      o.1.pending.Sublist d.pending ∧ o.1.opening = d.opening := by
  obtain ⟨log, -, hnumbered, hqueued, hlog, hopening, -, -, hpending⟩ :=
    Desk.invoke_spec hd.staged.clear ho
  have hrequests : ∀ e ∈ log, e.done? = none ∧ e.filled? = none := by
    intro e he
    rcases hnumbered.requests e he with ⟨tk, rfl⟩ | ⟨reference, upTo, rfl⟩
    · exact ⟨rfl, rfl⟩
    · exact ⟨rfl, rfl⟩
  have hdone : ∀ e ∈ d.log ++ log, ∀ tk ∈ e.done?, e ∈ d.log := by
    intro e he tk htk
    rcases List.mem_append.mp he with he | he
    · exact he
    · rw [(hrequests e he).1] at htk
      cases htk
  rw [hlog, hqueued, hpending]
  refine ⟨?_, ?_, ?_, ?_, ?_, hnumbered.le, List.filter_sublist, hopening⟩
  · refine List.pairwise_append.mpr ⟨hd.log, ?_, ?_⟩
    · refine List.Pairwise.imp_of_mem ?_ hnumbered.ordered
      intro e e' he he' _ tk htk
      rw [(hrequests e he).1] at htk
      cases htk
    · intro e _ e' he' tk _ tk' htk'
      rw [(hrequests e' he').2] at htk'
      cases htk'
  · intro w hw e he tk htk hrivals
    exact hw e (hdone e he tk htk) tk htk hrivals
  · intro w hw
    obtain ⟨hlt, hle, -⟩ := hnumbered.queued w (mem_queuedIn.mp hw)
    refine ⟨?_, hlt, hle⟩
    intro e he tk htk _
    exact (hd.doneNumbers e (hdone e he tk htk) tk htk).trans hlt.le
  · unfold queuedIn
    refine List.pairwise_filterMap.mpr (hnumbered.ordered.imp ?_)
    intro e e' hordered tk htk tk' htk'
    cases e with
    | queued tk₁ =>
      cases e' with
      | queued tk₂ =>
        obtain rfl := Option.some.inj htk
        obtain rfl := Option.some.inj htk'
        exact (hordered.1 _ _ rfl rfl).le
      | _ => cases htk'
    | _ => cases htk
  · intro e he tk htk
    exact hd.doneNumbers e (hdone e he tk htk) tk htk

/-- **One act** leaves nothing outdated. -/
theorem step_upToDate (d : Desk G) (a : Act G) (d' : Desk G) (hd : UpToDate d)
    (hcond : TargetsSupersede cfg d a) (h : d.step cfg a = some d') : UpToDate d' := by
  have hstaged := Desk.step_staged d a d' hd.staged h
  obtain ⟨hphase, d₁, rfl, ⟨rfl, -⟩ | ⟨-, hperform⟩⟩ := Desk.step_spec h
  · exact ⟨hstaged, hd.log, hd.pending, hd.opening, hd.distinct, hd.sorted, hd.pendingNumbers,
      hd.openingNumbers, hd.doneNumbers⟩
  cases a with
  | executePending p timestamp =>
    have hnone : d.opening = [] := hd.staged.opening (hphase ▸ Phase.noConfusion)
    dsimp only [Desk.perform] at hperform
    split at hperform
    · obtain rfl := Option.some.inj hperform
      exact ⟨hstaged, hd.log, hd.pending, hd.opening, hd.distinct, hd.sorted, hd.pendingNumbers,
        hd.openingNumbers, hd.doneNumbers⟩
    · obtain ⟨e, he, rfl⟩ := Option.map_eq_some_iff.mp hperform
      have hcond' : NoneOutlived cfg p timestamp [] (d.broker.book.markToMarket p) d.pending :=
        noneOutlived_of_pairwise hd.distinct fun w hw => by cases hw
      have hsurvives : ∀ w, Survives w [] → NotOutdated d.log w := by
        rintro w ⟨before, after, hnil, -⟩
        cases before with
        | nil => cases hnil
        | cons => cases hnil
      obtain ⟨hlog, hfresh, hnumbers, hdone⟩ := execute_upToDate hd he hcond'
        (fun tk htk => ⟨hd.pending tk htk, hd.pendingNumbers tk htk⟩)
        (hd.distinct.imp fun hne hrivals => absurd hrivals hne) hsurvives
      obtain ⟨o, ho, hdeferred, -, hopening, -⟩ := Desk.execute_frame he
      have hdistinct := executeTickets_pairwise ho hd.distinct
      rw [← hdeferred] at hdistinct
      have hempty : e.1.opening = [] := hopening.trans hnone
      refine ⟨hstaged, hlog, ?_, ?_, hdistinct, ?_, hnumbers, ?_, hdone⟩
      · intro w hw
        exact hfresh w (survives_of_pairwise hdistinct hw)
      · intro w hw
        rw [show w ∈ e.1.opening ↔ w ∈ ([] : List Ticket) by rw [hempty]] at hw
        cases hw
      · show e.1.opening.Pairwise _
        rw [hempty]
        exact List.Pairwise.nil
      · intro w hw
        rw [show w ∈ e.1.opening ↔ w ∈ ([] : List Ticket) by rw [hempty]] at hw
        cases hw
  | exitProtections p timestamp =>
    obtain ⟨e, -, rfl⟩ := Option.map_eq_some_iff.mp hperform
    exact ⟨hstaged, hd.log, hd.pending, hd.opening, hd.distinct, hd.sorted, hd.pendingNumbers,
      hd.openingNumbers, hd.doneNumbers⟩
  | invokeOpening p timestamp callback =>
    obtain ⟨o, ho, rfl⟩ := Option.map_eq_some_iff.mp hperform
    obtain ⟨hlog, hold, hnew, hsorted, hdone, hle, hpending, -⟩ := invoke_upToDate hd ho
    refine ⟨hstaged, hlog, fun w hw => hold w (hd.pending w (hpending.subset hw)), ?_,
      hd.distinct.sublist hpending, ?_, fun w hw => (hd.pendingNumbers w (hpending.subset hw)).trans
        hle, ?_, fun event hevent tk htk => (hdone event hevent tk htk).trans hle⟩
    · intro w hw
      rcases List.mem_append.mp hw with hw | hw
      · exact hold w (hd.opening w hw)
      · exact (hnew w hw).1
    · refine List.pairwise_append.mpr ⟨hd.sorted, hsorted, fun w hw w' hw' => ?_⟩
      exact (hd.openingNumbers w hw).trans (hnew w' hw').2.1.le
    · intro w hw
      rcases List.mem_append.mp hw with hw | hw
      · exact (hd.openingNumbers w hw).trans hle
      · exact (hnew w hw).2.2
  | executeOpening p timestamp =>
    dsimp only [Desk.perform] at hperform
    split at hperform
    · obtain rfl := Option.some.inj hperform
      exact ⟨hstaged, hd.log, hd.pending, hd.opening, hd.distinct, hd.sorted, hd.pendingNumbers,
        hd.openingNumbers, hd.doneNumbers⟩
    · obtain ⟨e, he, rfl⟩ := Option.map_eq_some_iff.mp hperform
      have hsurvives : ∀ w, Survives w d.pending → NotOutdated d.log w := by
        rintro w ⟨before, after, heq, -⟩
        exact hd.pending w (heq ▸ List.mem_append_right before List.mem_cons_self)
      have hsorted : d.opening.Pairwise fun tk tk' => tk.rivals tk' → tk.sequence ≤ tk'.sequence := by
        refine hd.sorted.imp ?_
        intro tk tk' hle _
        exact hle
      obtain ⟨hlog, hfresh, hnumbers, hdone⟩ := execute_upToDate hd he hcond
        (fun tk htk => ⟨hd.opening tk htk, hd.openingNumbers tk htk⟩) hsorted hsurvives
      obtain ⟨o, -, -, -, -, -, -, hsequence⟩ := Desk.execute_frame he
      refine ⟨hstaged, hlog, ?_, ?_, mergeTickets_pairwise hd.distinct, List.Pairwise.nil, ?_, ?_,
        hdone⟩
      · intro w hw
        exact hfresh w (survives_of_mem_mergeTickets hd.distinct hw)
      · intro w hw
        cases hw
      · intro w hw
        rcases mem_mergeTickets hw with ⟨hmem, -⟩ | ⟨before, after, heq, -⟩
        · exact (hd.pendingNumbers w hmem).trans hsequence.ge
        · exact hnumbers w (heq ▸ List.mem_append_right before List.mem_cons_self)
      · intro w hw
        cases hw
  | liquidate p timestamp =>
    obtain ⟨e, -, rfl⟩ := Option.map_eq_some_iff.mp hperform
    split at hstaged
    next hinsolvent =>
      rw [if_pos hinsolvent]
      refine ⟨hstaged, hd.log, ?_, hd.opening, List.Pairwise.nil, hd.sorted, ?_, hd.openingNumbers,
        hd.doneNumbers⟩
      · intro w hw
        cases hw
      · intro w hw
        cases hw
    next hsolvent =>
      rw [if_neg hsolvent]
      exact ⟨hstaged, hd.log, hd.pending, hd.opening, hd.distinct, hd.sorted, hd.pendingNumbers,
        hd.openingNumbers, hd.doneNumbers⟩
  | invokeClosing p timestamp callback =>
    obtain ⟨o, ho, rfl⟩ := Option.map_eq_some_iff.mp hperform
    obtain ⟨hlog, hold, hnew, -, hdone, hle, hpending, hopening⟩ := invoke_upToDate hd ho
    refine ⟨hstaged, hlog, ?_, ?_, mergeTickets_pairwise (hd.distinct.sublist hpending), ?_, ?_, ?_,
      fun event hevent tk htk => (hdone event hevent tk htk).trans hle⟩
    · intro w hw
      rcases mem_mergeTickets hw with ⟨hmem, -⟩ | ⟨before, after, heq, -⟩
      · exact hold w (hd.pending w (hpending.subset hmem))
      · exact (hnew w (heq ▸ List.mem_append_right before List.mem_cons_self)).1
    · intro w hw
      exact hold w (hd.opening w (hopening ▸ hw))
    · show o.1.opening.Pairwise _
      rw [hopening]
      exact hd.sorted
    · intro w hw
      rcases mem_mergeTickets hw with ⟨hmem, -⟩ | ⟨before, after, heq, -⟩
      · exact (hd.pendingNumbers w (hpending.subset hmem)).trans hle
      · exact (hnew w (heq ▸ List.mem_append_right before List.mem_cons_self)).2.2
    · intro w hw
      exact (hd.openingNumbers w (hopening ▸ hw)).trans hle
  | finish p timestamp =>
    obtain rfl := Option.some.inj hperform
    exact ⟨hstaged, hd.log, hd.pending, hd.opening, hd.distinct, hd.sorted, hd.pendingNumbers,
      hd.openingNumbers, hd.doneNumbers⟩

theorem start_upToDate (cfg : BrokerConfig) (prog : Program G) :
    UpToDate (Desk.start cfg prog) := by
  refine ⟨Desk.start_staged cfg prog, List.Pairwise.nil, ?_, ?_, List.Pairwise.nil,
    List.Pairwise.nil, ?_, ?_, ?_⟩
  · intro w hw
    cases hw
  · intro w hw
    cases hw
  · intro w hw
    cases hw
  · intro w hw
    cases hw
  · intro e he
    cases he

/-- **A stale target never overrides a newer one** in a run whose batches at the open
leave no rival behind. -/
theorem neverStale_of_noneOutlived {prog : Program G} {acts : List (Act G)}
    (hcond : Runs.AllSteps (Desk.step cfg) (TargetsSupersede cfg) (Desk.start cfg prog) acts)
    {d : Desk G} (hrun : Runs.run (Desk.step cfg) (Desk.start cfg prog) acts = some d) :
    NeverStale d.log :=
  (Runs.run_invariant_of_allSteps step_upToDate (start_upToDate cfg prog) hcond hrun).log

end

/-! ## Runs -/

namespace Stale

def coin : Instrument := ⟨"Crypto", "BTC/USDT"⟩

def bar (low : ℚ) : Bar where
  openPrice := 100
  high := 100
  low := low
  close := 100

/-- The price falls to 60 at 3. -/
def history : Frames where
  entries := [(coin, ⟨[(1, bar 100), (2, bar 100), (3, bar 60), (4, bar 60)], by decide⟩)]

def config : BrokerConfig := .costless 10000

def silent : Callback Unit := fun _ s => some (s, [])

def limitTarget (value limitPrice : ℚ) : Request :=
  .order { symbol := coin, kind := .targetQuantity, value, orderType := .limit
           limitPrice := some limitPrice }

/-- A resting target of 10 after the close of 1; a newer target of 5 at 2. -/
def lowersTarget (newer : Request) : Program Unit where
  init := ()
  beforeTradingStart view s := some (s, if view.currentDt = 2 then [newer] else [])
  schedules := []
  onRebalance := silent
  handleData view s := some (s, if view.currentDt = 1 then [limitTarget 10 80] else [])
  afterTradingEnd := silent

/-- The newer target rests at 70, and the older one is dropped. -/
def restingActs : List (Act Unit) :=
  runActs (lowersTarget (limitTarget 5 70)) history none [1, 2, 3, 4]

def filledActs : List (Act Unit) :=
  runActs (lowersTarget (.order { symbol := coin, kind := .targetQuantity, value := 5 })) history
    none [1, 2, 3, 4]

end Stale

open Stale in
theorem neverStale_of_noneOutlived_resting :
    ∃ d, Runs.run (Desk.step config) (Desk.start config (lowersTarget (limitTarget 5 70)))
      restingActs = some d ∧ d.log.length = 3 ∧ NeverStale d.log := by
  obtain ⟨d, hrun, hlength⟩ := Runs.exists_of_any (p := fun d : Desk Unit => d.log.length = 3)
    (show (Runs.run (Desk.step config) (Desk.start config (lowersTarget (limitTarget 5 70)))
      restingActs).any _ = true by decide +kernel)
  exact ⟨d, hrun, hlength, neverStale_of_noneOutlived (by decide +kernel) hrun⟩

open Stale in
/-- The newer target is filled at once, and the older one, still pending, raises the
position to 10 again when its price is reached. -/
theorem olderTarget_overrides :
    ∃ d, Runs.run (Desk.step config) (Desk.start config (lowersTarget (.order
        { symbol := coin, kind := .targetQuantity, value := 5 }))) filledActs = some d ∧
      ¬ NeverStale d.log :=
  Runs.exists_of_any (p := fun d : Desk Unit => ¬ NeverStale d.log) (by decide +kernel)

end AlgoTrade.Backtest
