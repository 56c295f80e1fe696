import AlgoTrade.Lib.RetryQueue
import AlgoTrade.Streams.InboxAccounted

/-! # How long an execution event waits

The rows of the inbox are a retry queue: a processor that sweeps without interruption, long
enough after an event came in, settles each of the first events or has it fail once more.

* `Database.Follows`: no call takes a mark back.
* `Due`: an event that a processor has yet to take up, or that has moved on.
* `served`: an uninterrupted sweep serves the queue.
* `wait_bounded`: how many sweeps an event waits. -/

namespace AlgoTrade.Inbox

/-- `row'` is `row` with further marks. -/
structure EventRow.Follows (row' row : EventRow) : Prop where
  receipt : row'.toReceipt = row.toReceipt
  attempts : row.processAttempts ≤ row'.processAttempts
  processed : row.processedAt.isSome = true → row'.processedAt.isSome = true

/-- Every row stays where it is. -/
def Database.Follows (db' db : Database) : Prop :=
  ∀ (i : ℕ) (row : EventRow), db.events[i]? = some row →
    ∃ row', db'.events[i]? = some row' ∧ row'.Follows row

section
variable {n : ℕ} {py : Casing} {s s' : State n} {db db' db'' : Database} {now : ℚ} {a : Action n}

theorem EventRow.Follows.refl (row : EventRow) : row.Follows row := ⟨rfl, le_rfl, id⟩

theorem EventRow.Follows.trans {row row' row'' : EventRow} (h : row'.Follows row)
    (h' : row''.Follows row') : row''.Follows row :=
  ⟨h'.receipt.trans h.receipt, h.attempts.trans h'.attempts, h'.processed ∘ h.processed⟩

theorem Database.Follows.refl (db : Database) : db.Follows db :=
  fun _ row hrow => ⟨row, hrow, .refl row⟩

theorem Database.Follows.trans (h : db'.Follows db) (h' : db''.Follows db') :
    db''.Follows db := by
  intro i row hrow
  obtain ⟨row', hrow', hfollows⟩ := h i row hrow
  obtain ⟨row'', hrow'', hfollows'⟩ := h' i row' hrow'
  exact ⟨row'', hrow'', hfollows.trans hfollows'⟩

theorem getElem?_update {id i : ℕ} {f : EventRow → EventRow} {row : EventRow}
    (hrow : db.events[i]? = some row) :
    (db.update id f).events[i]? = some (if row.id = id then f row else row) := by
  unfold Database.update
  rw [List.getElem?_map, hrow, Option.map_some]

theorem follows_update (id : ℕ) {f : EventRow → EventRow} (hf : ∀ row, (f row).Follows row) :
    (db.update id f).Follows db := by
  intro i row hrow
  refine ⟨_, getElem?_update hrow, ?_⟩
  split
  · exact hf row
  · exact .refl row

theorem follows_processEvent (db : Database) (event : EventRow) (now : ℚ) (outcome : Outcome) :
    (processEvent db event now outcome).1.Follows db := by
  rcases processEvent_cases db event now outcome with ⟨h, -⟩ | ⟨h, -⟩ | ⟨error, -, h⟩
  · rw [h]
    exact follows_update _ fun row => ⟨rfl, le_rfl, fun _ => rfl⟩
  · rw [h]
    exact .refl db
  · rw [h]
    exact follows_update _ fun row => ⟨rfl, Nat.le_succ _, id⟩

theorem follows_ingest (py : Casing) (db : Database) (event : ExecutionEvent) (now : ℚ) :
    (ingest py db event now).1.Follows db := by
  intro i row hrow
  refine ⟨row, ?_, .refl row⟩
  unfold ingest
  split
  · exact hrow
  · exact (List.getElem?_append_left (List.getElem?_eq_some_iff.mp hrow).1).trans hrow

theorem follows_called (h : Called py s now a s') : s'.db.Follows s.db := by
  cases h with
  | ingest event => exact follows_ingest py s.db event now
  | start => exact .refl _
  | process p outcome event => exact follows_processEvent s.db event now outcome
  | finish => exact .refl _
  | abort => exact .refl _

theorem follows_run {calls : List (ℚ × Action n)} (h : Runs.run (step py) s calls = some s') :
    s'.db.Follows s.db := by
  have hstep : ∀ (t : State n) call t', t.db.Follows s.db → step py t call = some t' →
      t'.db.Follows s.db := fun t call t' ht hstep =>
    ht.trans (follows_called (step_cases hstep).2)
  exact Runs.run_invariant hstep (.refl _) h

/-! ## One sweep -/

/-- The calls of a processor other than taking up an event. -/
def Action.interrupts (p : Fin n) : Action n → Bool
  | .start p' _ => decide (p' = p)
  | .finish p' => decide (p' = p)
  | .abort p' => decide (p' = p)
  | _ => false

/-- The event of this row is among those the processor has yet to take up, or the row has
been settled or tried since. -/
def Due (p : Fin n) (row : EventRow) (i : ℕ) (s : State n) : Prop :=
  ∃ row', s.db.events[i]? = some row' ∧ row'.Follows row ∧
    (row'.processedAt.isSome = true ∨ row.processAttempts < row'.processAttempts ∨
      ∃ sweep, s.sweeps p = some sweep ∧ row ∈ sweep.events)

theorem Due.process {p p' : Fin n} {row event : EventRow} {i : ℕ} {outcome : Outcome}
    {events : List EventRow} {processed : ℕ} (h : Due p row i s)
    (hold : row.receivedAt + 120 ≤ now)
    (hsweep : s.sweeps p' = some ⟨event :: events, processed⟩) :
    Due p row i { s with
      clock := now
      db := (processEvent s.db event now outcome).1
      sweeps := Function.update s.sweeps p'
        (some ⟨events, processed + (processEvent s.db event now outcome).2⟩)
      handled := s.handled ++ [⟨event.id, outcome, now⟩] } := by
  obtain ⟨cur, hcur, hfollows, hdue⟩ := h
  obtain ⟨row', hrow', hfollows'⟩ := follows_processEvent s.db event now outcome i cur hcur
  refine ⟨row', hrow', hfollows.trans hfollows', ?_⟩
  rcases hdue with hsettled | htried | ⟨sweep, hp, hmem⟩
  · exact .inl (hfollows'.processed hsettled)
  · exact .inr (.inl (htried.trans_le hfollows'.attempts))
  · by_cases hpp : p = p'
    · subst hpp
      obtain rfl := Option.some.inj (hsweep.symm.trans hp)
      rcases List.mem_cons.mp hmem with rfl | hmem
      · -- the processor takes up this very event
        have hid : cur.id = row.id := congrArg Receipt.id hfollows.receipt
        rcases processEvent_cases s.db row now outcome with ⟨hdb, -⟩ | ⟨-, -, hyoung⟩ |
          ⟨error, -, hdb⟩
        · rw [hdb] at hrow'
          have hmarked := (getElem?_update hcur).symm.trans hrow'
          rw [if_pos hid] at hmarked
          obtain rfl := Option.some.inj hmarked
          exact .inl rfl
        · exact absurd hold (not_le.mpr hyoung)
        · rw [hdb] at hrow'
          have hmarked := (getElem?_update hcur).symm.trans hrow'
          rw [if_pos hid] at hmarked
          obtain rfl := Option.some.inj hmarked
          exact .inr (.inl (Nat.lt_succ_of_le hfollows.attempts))
      · exact .inr (.inr ⟨_, Function.update_self .., hmem⟩)
    · exact .inr (.inr ⟨sweep, (Function.update_of_ne hpp ..).trans hp, hmem⟩)

theorem Due.called {p : Fin n} {row : EventRow} {i : ℕ} (h : Due p row i s)
    (hold : row.receivedAt + 120 ≤ now) (hcall : Called py s now a s')
    (ha : a.interrupts p = false) : Due p row i s' := by
  cases hcall with
  | ingest event =>
    obtain ⟨cur, hcur, hfollows, hdue⟩ := h
    obtain ⟨row', hrow', hfollows'⟩ := follows_ingest py s.db event now i cur hcur
    refine ⟨row', hrow', hfollows.trans hfollows', ?_⟩
    rcases hdue with hsettled | htried | hsweep
    · exact .inl (hfollows'.processed hsettled)
    · exact .inr (.inl (htried.trans_le hfollows'.attempts))
    · exact .inr (.inr hsweep)
  | start p' limit hidle =>
    obtain ⟨cur, hcur, hfollows, hdue⟩ := h
    refine ⟨cur, hcur, hfollows, hdue.imp_right (.imp_right ?_)⟩
    rintro ⟨sweep, hp, hmem⟩
    exact ⟨sweep, (Function.update_of_ne (Ne.symm (of_decide_eq_false ha)) ..).trans hp, hmem⟩
  | process p' outcome event events processed hsweep => exact h.process hold hsweep
  | finish p' processed hsweep =>
    obtain ⟨cur, hcur, hfollows, hdue⟩ := h
    refine ⟨cur, hcur, hfollows, hdue.imp_right (.imp_right ?_)⟩
    rintro ⟨sweep, hp, hmem⟩
    exact ⟨sweep, (Function.update_of_ne (Ne.symm (of_decide_eq_false ha)) ..).trans hp, hmem⟩
  | abort p' sweep' hsweep =>
    obtain ⟨cur, hcur, hfollows, hdue⟩ := h
    refine ⟨cur, hcur, hfollows, hdue.imp_right (.imp_right ?_)⟩
    rintro ⟨sweep, hp, hmem⟩
    exact ⟨sweep, (Function.update_of_ne (Ne.symm (of_decide_eq_false ha)) ..).trans hp, hmem⟩

theorem Due.run {p : Fin n} {row : EventRow} {i : ℕ} {calls : List (ℚ × Action n)}
    (h : Due p row i s) (hold : row.receivedAt + 120 ≤ s.clock)
    (hcalls : ∀ call ∈ calls, call.2.interrupts p = false)
    (hrun : Runs.run (step py) s calls = some s') : Due p row i s' := by
  induction calls generalizing s with
  | nil => exact Option.some.inj hrun ▸ h
  | cons call calls ih =>
    obtain ⟨now, a⟩ := call
    obtain ⟨t, ht, hrun⟩ := Runs.run_cons_eq_some.mp hrun
    obtain ⟨hclock, hcall⟩ := step_cases ht
    have hclock' : t.clock = now := by cases hcall <;> rfl
    exact ih (h.called (hold.trans hclock) hcall (hcalls _ List.mem_cons_self))
      (hclock' ▸ hold.trans hclock) (fun c hc => hcalls c (List.mem_cons_of_mem _ hc)) hrun

/-! ## As a retry queue -/

/-- The first `k` rows as a retry queue. -/
def Database.queue (db : Database) (k : ℕ) : List RetryQueue.Entry :=
  (db.events.take k).map fun row => ⟨row.processAttempts, row.processedAt.isSome⟩

theorem queue_getElem? {k i : ℕ} {e : RetryQueue.Entry} :
    (db.queue k)[i]? = some e ↔ i < k ∧ ∃ row, db.events[i]? = some row ∧
      e = ⟨row.processAttempts, row.processedAt.isSome⟩ := by
  unfold Database.queue
  rw [List.getElem?_map, List.getElem?_take]
  split
  next hi =>
    constructor
    · intro h
      obtain ⟨row, hrow, rfl⟩ := Option.map_eq_some_iff.mp h
      exact ⟨hi, row, hrow, rfl⟩
    · rintro ⟨-, row, hrow, rfl⟩
      rw [hrow, Option.map_some]
  next hi =>
    constructor
    · intro h
      cases h
    · rintro ⟨hlt, -⟩
      exact absurd hlt hi

theorem advances_queue (h : db'.Follows db) (k : ℕ) :
    RetryQueue.Advances (db.queue k) (db'.queue k) := by
  intro i e he
  obtain ⟨hi, row, hrow, rfl⟩ := queue_getElem?.mp he
  obtain ⟨row', hrow', hfollows⟩ := h i row hrow
  exact ⟨_, queue_getElem?.mpr ⟨hi, row', hrow', rfl⟩, hfollows.attempts, hfollows.processed⟩

theorem waits_iff (row : EventRow) :
    (RetryQueue.Entry.mk row.processAttempts row.processedAt.isSome).waits 20 = row.isPending := by
  unfold RetryQueue.Entry.waits EventRow.isPending
  rw [Option.not_isSome]

theorem ahead_queue {k i : ℕ} (hi : i ≤ k) :
    RetryQueue.ahead 20 (db.queue k) i = (db.events.take i).countP EventRow.isPending := by
  unfold RetryQueue.ahead Database.queue
  rw [← List.map_take, List.take_take, Nat.min_eq_left hi, List.countP_map]
  refine List.countP_congr fun row _ => ?_
  rw [Function.comp_apply, waits_iff]

/-- The rows stand in the order they are swept in. -/
theorem Stored.pending_eq (h : Stored py s) (limit : ℕ) :
    pending s.db limit = (s.db.events.filter EventRow.isPending).take limit := by
  unfold pending
  rw [List.Pairwise.insertionSort_eq]
  refine ((List.pairwise_map.mp h.ordered).sublist List.filter_sublist).imp fun {a b} hab => ?_
  rcases hab.2.lt_or_eq with hlt | heq
  · exact .inl hlt
  · exact .inr ⟨heq, hab.1.le⟩

theorem mem_take_filter_iff {α : Type*} {l : List α} {q : α → Bool} {k : ℕ} {x : α} :
    x ∈ (l.filter q).take k ↔
      ∃ i, l[i]? = some x ∧ q x = true ∧ (l.take i).countP q < k := by
  induction l generalizing k with
  | nil =>
    constructor
    · intro h
      rw [List.filter_nil, List.take_nil] at h
      exact absurd h List.not_mem_nil
    · rintro ⟨i, hi, -⟩
      cases hi
  | cons y l ih =>
    by_cases hy : q y = true
    · rw [List.filter_cons_of_pos hy]
      rcases k with - | k
      · constructor
        · intro h
          exact absurd h List.not_mem_nil
        · rintro ⟨i, -, -, hlt⟩
          omega
      · rw [List.take_succ_cons, List.mem_cons, ih]
        constructor
        · rintro (rfl | ⟨i, hi, hx, hlt⟩)
          · exact ⟨0, rfl, hy, Nat.succ_pos k⟩
          · refine ⟨i + 1, hi, hx, ?_⟩
            rw [List.take_succ_cons, List.countP_cons_of_pos hy]
            omega
        · rintro ⟨i, hi, hx, hlt⟩
          rcases i with - | i
          · exact .inl (Option.some.inj hi).symm
          · rw [List.take_succ_cons, List.countP_cons_of_pos hy] at hlt
            exact .inr ⟨i, hi, hx, by omega⟩
    · rw [List.filter_cons_of_neg hy, ih]
      constructor
      · rintro ⟨i, hi, hx, hlt⟩
        refine ⟨i + 1, hi, hx, ?_⟩
        rwa [List.take_succ_cons, List.countP_cons_of_neg hy]
      · rintro ⟨i, hi, hx, hlt⟩
        rcases i with - | i
        · exact absurd (Option.some.inj hi ▸ hx) hy
        · rw [List.take_succ_cons, List.countP_cons_of_neg hy] at hlt
          exact ⟨i, hi, hx, hlt⟩

theorem Stored.mem_pending_iff (h : Stored py s) {limit : ℕ} {row : EventRow} :
    row ∈ pending s.db limit ↔ ∃ i, s.db.events[i]? = some row ∧ row.isPending = true ∧
      (s.db.events.take i).countP EventRow.isPending < limit := by
  rw [h.pending_eq, mem_take_filter_iff]

theorem Stored.received_le (h : Stored py s) {i j : ℕ} (hij : i ≤ j) {row row' : EventRow}
    (hrow : s.db.events[i]? = some row) (hrow' : s.db.events[j]? = some row') :
    row.receivedAt ≤ row'.receivedAt := by
  obtain ⟨hi, rfl⟩ := List.getElem?_eq_some_iff.mp hrow
  obtain ⟨hj, rfl⟩ := List.getElem?_eq_some_iff.mp hrow'
  rcases hij.lt_or_eq with hlt | rfl
  · exact (List.pairwise_iff_getElem.mp (List.pairwise_map.mp h.ordered) i j hi hj hlt).2
  · exact le_rfl

/-- An uninterrupted sweep of processor `p`, with whatever the others do meanwhile. -/
def Swept (py : Casing) (p : Fin n) (limit : ℕ) (since : ℚ) (s s' : State n) : Prop :=
  ∃ t calls t', since ≤ t ∧ (∀ call ∈ calls, call.2.interrupts p = false) ∧
    Runs.run (step py) s ((t, .start p limit) :: calls ++ [(t', .finish p)]) = some s'

theorem served {p : Fin n} {limit i : ℕ} {row : EventRow} (h : Kept py s)
    (hrow : s.db.events[i]? = some row) (hswept : Swept py p limit (row.receivedAt + 120) s s') :
    RetryQueue.Served 20 limit (s.db.queue (i + 1)) (s'.db.queue (i + 1)) := by
  obtain ⟨t, calls, t', hsince, hcalls, hrun⟩ := hswept
  refine ⟨advances_queue (follows_run hrun) _, fun j e he hwaits hahead => ?_⟩
  obtain ⟨hj, waiting, hwaiting, rfl⟩ := queue_getElem?.mp he
  rw [waits_iff] at hwaits
  rw [ahead_queue hj.le] at hahead
  have hpending : waiting ∈ pending s.db limit :=
    h.stored.mem_pending_iff.mpr ⟨j, hwaiting, hwaits, hahead⟩
  have hold : waiting.receivedAt + 120 ≤ t := by
    have := h.stored.received_le (Nat.lt_succ_iff.mp hj) hwaiting hrow
    linarith
  rw [List.cons_append, Runs.run_cons_eq_some] at hrun
  obtain ⟨s₁, hstart, hrun⟩ := hrun
  obtain ⟨s₂, hbetween, hlast⟩ := Runs.run_append_eq_some.mp hrun
  obtain ⟨s₃, hfinish, hlast⟩ := Runs.run_cons_eq_some.mp hlast
  obtain rfl := Option.some.inj hlast
  obtain ⟨-, hstart⟩ := step_cases hstart
  obtain ⟨-, hfinish⟩ := step_cases hfinish
  have hdue : Due p waiting j s₁ := by
    cases hstart with
    | start p limit hidle =>
      exact ⟨waiting, hwaiting, .refl _, .inr (.inr ⟨_, Function.update_self .., hpending⟩)⟩
  have hclock : s₁.clock = t := by cases hstart; rfl
  obtain ⟨row', hrow', hfollows, hdue⟩ := hdue.run (hclock ▸ hold) hcalls hbetween
  obtain ⟨last, hlast, hfollows'⟩ := follows_called hfinish j row' hrow'
  refine ⟨_, queue_getElem?.mpr ⟨hj, last, hlast, rfl⟩, ?_⟩
  rcases hdue with hsettled | htried | ⟨sweep, hsweep, hmem⟩
  · exact .inl (hfollows'.processed hsettled)
  · exact .inr (htried.trans_le hfollows'.attempts)
  · cases hfinish with
    | finish p processed hempty =>
      obtain rfl := Option.some.inj (hempty.symm.trans hsweep)
      exact absurd hmem List.not_mem_nil

/-- A number of uninterrupted sweeps of processor `p`, and any calls in between. -/
inductive Sweeps (py : Casing) (p : Fin n) (limit : ℕ) (since : ℚ) (s : State n) :
    ℕ → State n → Prop
  | start : Sweeps py p limit since s 0 s
  | other {k : ℕ} {t u : State n} {calls : List (ℚ × Action n)} (h : Sweeps py p limit since s k t)
      (hrun : Runs.run (step py) t calls = some u) : Sweeps py p limit since s k u
  | sweep {k : ℕ} {t u : State n} (h : Sweeps py p limit since s k t)
      (hswept : Swept py p limit since t u) : Sweeps py p limit since s (k + 1) u

/-- The same calls over and over. -/
theorem Sweeps.replicate {p : Fin n} {limit : ℕ} {since t t' : ℚ} {calls : List (ℚ × Action n)}
    (hsince : since ≤ t) (hcalls : ∀ call ∈ calls, call.2.interrupts p = false) (k : ℕ)
    (hrun : Runs.run (step py) s (List.replicate k
      ((t, .start p limit) :: calls ++ [(t', .finish p)])).flatten = some s') :
    Sweeps py p limit since s k s' := by
  induction k generalizing s' with
  | zero => exact Option.some.inj hrun ▸ .start
  | succ k ih =>
    rw [List.replicate_succ', List.flatten_append, Runs.run_append_eq_some] at hrun
    obtain ⟨u, hfirst, hlast⟩ := hrun
    rw [List.flatten_singleton] at hlast
    exact .sweep (ih hfirst) ⟨t, calls, t', hsince, hcalls, hlast⟩

theorem Sweeps.kept {p : Fin n} {limit k : ℕ} {since : ℚ} (h : Kept py s)
    (hsweeps : Sweeps py p limit since s k s') : Kept py s' ∧ s'.db.Follows s.db := by
  induction hsweeps with
  | start => exact ⟨h, .refl _⟩
  | other _ hrun ih => exact ⟨ih.1.run hrun, ih.2.trans (follows_run hrun)⟩
  | sweep _ hswept ih =>
    obtain ⟨t, calls, t', -, -, hrun⟩ := hswept
    exact ⟨ih.1.run hrun, ih.2.trans (follows_run hrun)⟩

theorem Sweeps.queue {p : Fin n} {limit k i : ℕ} {row : EventRow} (h : Kept py s)
    (hrow : s.db.events[i]? = some row)
    (hsweeps : Sweeps py p limit (row.receivedAt + 120) s k s') :
    RetryQueue.Sweeps 20 limit (s.db.queue (i + 1)) k (s'.db.queue (i + 1)) := by
  induction hsweeps with
  | start => exact .start
  | other _ hrun ih => exact .other ih (advances_queue (follows_run hrun) _)
  | sweep hsweeps hswept ih =>
    obtain ⟨hkept, hfollows⟩ := hsweeps.kept h
    obtain ⟨row', hrow', hreceipt, -, -⟩ := hfollows i row hrow
    rw [← show row'.receivedAt = row.receivedAt from congrArg Receipt.receivedAt hreceipt] at hswept
    exact .sweep ih (served hkept hrow' hswept)

end

/-- **The wait is bounded.**  An event among the first `limit * m` that wait is settled, or has
failed twenty times, once a processor has made `20 * m` uninterrupted sweeps from 120 seconds
after the event came in, whatever comes of the events and whatever else comes in. -/
theorem wait_bounded {n : ℕ} {py : Casing} {t : ℚ} {calls : List (ℚ × Action n)}
    {s s' : State n} {p : Fin n} {limit m : ℕ} {row : EventRow}
    (hrun : Runs.run (step py) ⟨t, {}, fun _ => none, [], []⟩ calls = some s)
    (hrow : row ∈ pending s.db (limit * m))
    (hsweeps : Sweeps py p limit (row.receivedAt + 120) s (20 * m) s') :
    ∃ row' ∈ s'.db.events, row'.toReceipt = row.toReceipt ∧
      (row'.processedAt.isSome = true ∨ 20 ≤ failures s'.handled row'.id) := by
  have hkept := (Kept.empty py t).run hrun
  obtain ⟨hkept', hfollows⟩ := Sweeps.kept hkept hsweeps
  obtain ⟨i, hi, hpending, hahead⟩ := hkept.stored.mem_pending_iff.mp hrow
  obtain ⟨row', hrow', hreceipt, -, -⟩ := hfollows i row hi
  have hmem := List.mem_of_getElem? hrow'
  refine ⟨row', hmem, hreceipt, ?_⟩
  rw [← ahead_queue (Nat.le_succ i)] at hahead
  obtain ⟨e, he, hdone⟩ := (Sweeps.queue hkept hi hsweeps).done le_rfl
    (queue_getElem?.mpr ⟨Nat.lt_succ_self i, row, hi, rfl⟩) hahead
  obtain ⟨-, last, hlast, rfl⟩ := queue_getElem?.mp he
  obtain rfl := Option.some.inj (hrow'.symm.trans hlast)
  rw [waits_iff] at hdone
  by_cases hsettled : row'.processedAt.isSome = true
  · exact .inl hsettled
  · right
    rw [← (hkept'.tried.attempts row' hmem)]
    unfold EventRow.isPending at hdone
    rw [Bool.not_eq_true, Option.isSome_eq_false_iff] at hsettled
    rw [hsettled, Bool.true_and, decide_eq_false_iff_not] at hdone
    omega

/-- An event that fails whenever it is taken up is given up after twenty sweeps. -/
theorem wait_bounded_givenUp : ∃ (s s' : State 1) (row : EventRow),
    row ∈ pending s.db (200 * 1) ∧
      Sweeps Casing.ascii 0 200 (row.receivedAt + 120) s (20 * 1) s' ∧
      ∃ row' ∈ s'.db.events, row'.toReceipt = row.toReceipt ∧
        (row'.processedAt.isSome = true ∨ 20 ≤ failures s'.handled row'.id) := by
  let s : State 1 :=
    ⟨0, ⟨[{ id := 1, eventKey := "fill", receivedAt := 0 }], [], 2⟩, fun _ => none,
      [⟨"fill", []⟩], []⟩
  let row : EventRow := { id := 1, eventKey := "fill", receivedAt := 0 }
  have hrun : Runs.run (step Casing.ascii) ⟨0, {}, fun _ => none, [], []⟩
      [(0, .ingest ⟨"fill", []⟩)] = some s := rfl
  have hrow : row ∈ pending s.db (200 * 1) := by decide
  have hsome : (Runs.run (step Casing.ascii) s (List.replicate 20
      ((120, .start 0 200) :: [(120, .process 0 (.raised "timeout"))] ++
        [(120, .finish 0)])).flatten).isSome = true := by decide +kernel
  obtain ⟨s', hs'⟩ := Option.isSome_iff_exists.mp hsome
  have hsweeps : Sweeps Casing.ascii 0 200 (row.receivedAt + 120) s 20 s' :=
    .replicate (zero_add (120 : ℚ)).le (fun call hcall => List.mem_singleton.mp hcall ▸ rfl) 20 hs'
  exact ⟨s, s', row, hrow, hsweeps, wait_bounded hrun hrow hsweeps⟩

end AlgoTrade.Inbox
