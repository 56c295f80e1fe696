import AlgoTrade.Backtest.Bankruptcy
import AlgoTrade.Backtest.ProfitDecomposition
import AlgoTrade.Backtest.Report
import Mathlib.Algebra.BigOperators.Ring.List

/-! # What the totals of a report add up to

* `Tallied`: the ledger has an occurrence for every attempt, and a fill for every execution.
* `attempts_reported`: the counts of the report against the attempts of the run.
* `attribution_totals`: the rows of the attribution add up to the trades, the executions and
  the positions.
* `profit_reported`: the profit of a run from its attribution. -/

namespace AlgoTrade.Backtest

/-! ## Attempts -/

def Book.occurrences (b : Book) : ℕ := (b.orderLedger.map OrderEvent.occurrences).sum

/-- Every attempt is one occurrence, and every execution one row that says filled. -/
structure Tallied (b : Book) : Prop where
  occurrences : b.occurrences = b.orderSequence
  fills : b.statusCount .filled + b.statusCount .partFilled = b.executions.length
  resting : ∀ e ∈ b.orderLedger, ∀ w, e.resting = some w →
    1 ≤ w.occurrenceCount ∧ e.status = .deferred

section
variable {b b' : Book} {event : OrderEvent}

theorem occurrences_of_fresh (h : event.resting = none) : event.occurrences = 1 := by
  unfold OrderEvent.occurrences
  rw [h]
  rfl

theorem statusCount_append (rows : List OrderEvent) (status : EventStatus) :
    ((rows ++ [event]).filter fun e => e.status = status).map OrderEvent.occurrences =
      (rows.filter fun e => e.status = status).map OrderEvent.occurrences ++
        if event.status = status then [event.occurrences] else [] := by
  rw [List.filter_append, List.map_append, List.filter_singleton]
  by_cases h : event.status = status
  · rw [decide_eq_true h, if_pos h]
    rfl
  · rw [decide_eq_false h, if_neg h]
    rfl

/-- One row more, with the attempt it is of. -/
theorem Tallied.row (h : Tallied b) {executions : List Execution}
    (hledger : b'.orderLedger = b.orderLedger ++ [event])
    (hsequence : b'.orderSequence = b.orderSequence + 1)
    (hexecutions : b'.executions = b.executions ++ executions)
    (hone : event.occurrences = 1)
    (hcount : (if event.status = .filled then 1 else 0) +
      (if event.status = .partFilled then 1 else 0) = executions.length)
    (hresting : ∀ w, event.resting = some w → 1 ≤ w.occurrenceCount ∧ event.status = .deferred) :
    Tallied b' where
  occurrences := by
    unfold Book.occurrences
    rw [hledger, hsequence, List.map_append, List.sum_append, List.map_singleton,
      List.sum_singleton, hone]
    exact congrArg (· + 1) h.occurrences
  fills := by
    have hstatus : ∀ status, b'.statusCount status =
        b.statusCount status + if event.status = status then 1 else 0 := by
      intro status
      unfold Book.statusCount
      rw [hledger, statusCount_append, List.sum_append, hone]
      split <;> rfl
    have hfills := h.fills
    rw [hstatus, hstatus, hexecutions, List.length_append]
    omega
  resting e he w hw := by
    rw [hledger] at he
    rcases List.mem_append.mp he with he | he
    · exact h.resting e he w hw
    · rw [List.mem_singleton.mp he] at hw ⊢
      exact hresting w hw

theorem occurrences_poll {existing : OrderEvent} {w : RestingWindow}
    (hw : existing.resting = some w) (hone : 1 ≤ w.occurrenceCount) :
    (existing.poll event w).occurrences = existing.occurrences + 1 := by
  unfold OrderEvent.occurrences OrderEvent.poll
  rw [hw]
  dsimp only
  rw [Option.map_some, Option.map_some, Option.getD_some, Option.getD_some, max_eq_right hone,
    max_eq_right (Nat.le_add_left 1 w.occurrenceCount)]

/-- A poll folded into the row of its order. -/
theorem Tallied.fold (h : Tallied b) {index : ℕ} {existing : OrderEvent} {w : RestingWindow}
    (hexisting : b.orderLedger[index]? = some existing) (hstatus : existing.status = .deferred)
    (hw : existing.resting = some w)
    (hledger : b'.orderLedger = b.orderLedger.set index (existing.poll event w))
    (hsequence : b'.orderSequence = b.orderSequence + 1)
    (hexecutions : b'.executions = b.executions) : Tallied b' where
  occurrences := by
    have hone := (h.resting existing (List.mem_of_getElem? hexisting) w hw).1
    unfold Book.occurrences
    rw [hledger, hsequence, List.sum_map_set_add hexisting (occurrences_poll hw hone)]
    exact congrArg (· + 1) h.occurrences
  fills := by
    have hsame : ∀ status, status ≠ .deferred → b'.statusCount status = b.statusCount status := by
      intro status hne
      unfold Book.statusCount
      have hold : ¬ decide (existing.status = status) = true := by
        rw [decide_eq_true_iff, hstatus]
        exact hne.symm
      have hnew : ¬ decide ((existing.poll event w).status = status) = true := hold
      rw [hledger, List.sum_map_filter, List.sum_map_filter]
      refine (List.sum_map_set_add hexisting ?_).trans (add_zero _)
      rw [if_neg hold, if_neg hnew]
      rfl
    rw [hsame _ EventStatus.noConfusion, hsame _ EventStatus.noConfusion, hexecutions]
    exact h.fills
  resting e he w' hw' := by
    rw [hledger] at he
    rcases List.mem_or_eq_of_mem_set he with he | rfl
    · exact h.resting e he w' hw'
    · obtain rfl := Option.some.inj hw'
      exact ⟨Nat.le_add_left 1 _, hstatus⟩

theorem orderSequence_append (b : Book) (event : OrderEvent) :
    (b.appendOrderEvent event).orderSequence = b.orderSequence := rfl

theorem orderSequence_appendResting (b : Book) (event : OrderEvent) :
    (b.appendRestingEvent event).orderSequence = b.orderSequence := by
  unfold Book.appendRestingEvent
  split
  · rfl
  · dsimp only
    split
    · rfl
    · split
      · rfl
      · split
        · rfl
        · rfl

/-- **An attempt** uses up one number. -/
theorem executeOrder_sequence {cfg : BrokerConfig} {p : Portal} {timestamp : Time}
    {priceOverrides : Dict Instrument ℚ} {order : OrderIntent} {out : Outcome}
    (h : executeOrder cfg p timestamp priceOverrides b order = some out) :
    out.book.orderSequence = b.orderSequence + 1 := by
  cases executeOrder_tried h with
  | blocked reason =>
    unfold blockOrder
    split
    · rfl
    · rfl
  | rejected reason requested => rfl
  | resting openPrice z hsized => exact orderSequence_appendResting (b.sized p) _
  | filled openPrice z fillPrice reference hsized hquote hlots =>
    exact Book.recordClosedTrade_keeps Book.orderSequence (fun _ _ _ _ _ _ _ => rfl)
      (fun _ _ _ _ _ => rfl) ..

theorem Tallied.attempt (h : Tallied b) (hrecorded : Recorded b b')
    (hsequence : b'.orderSequence = b.orderSequence + 1) : Tallied b' := by
  rcases hrecorded with ⟨a, hledger, hexecutions⟩ | ⟨poll, hledger, hexecutions⟩
  · refine h.row hledger.orderLedger.symm hsequence hexecutions (occurrences_of_fresh a.fresh) ?_
      fun w hw => absurd (hw.symm.trans a.fresh) (Option.some_ne_none w)
    cases hexecution : a.execution with
    | none =>
      have hnot := a.isFill.not.mp (by rw [hexecution]; exact Bool.false_ne_true)
      rw [not_or] at hnot
      rw [if_neg hnot.1, if_neg hnot.2]
      rfl
    | some e =>
      rcases a.isFill.mp (by rw [hexecution]; rfl) with hfilled | hpart
      · rw [hfilled]
        rfl
      · rw [hpart]
        rfl
  · have hdeferred : (if poll.event.status = .filled then 1 else 0) +
        (if poll.event.status = .partFilled then 1 else 0) = ([] : List Execution).length := by
      rw [poll.status]
      rfl
    have hexecutions' : b'.executions = b.executions ++ [] := by
      rw [hexecutions, List.append_nil]
    have hrow := hledger.orderLedger.symm
    have hpolled := appendRestingEvent_polled b poll.event
    generalize b.appendRestingEvent poll.event = appended at hrow hpolled
    generalize b.rowOfPoll poll.event = row at hpolled
    cases hpolled with
    | unnamed =>
      exact h.row hrow hsequence hexecutions' (occurrences_of_fresh poll.fresh) hdeferred
        fun w hw => absurd (hw.symm.trans poll.fresh) (Option.some_ne_none w)
    | opened reference =>
      refine h.row hrow hsequence hexecutions' rfl hdeferred fun w hw => ?_
      obtain rfl := Option.some.inj hw
      exact ⟨le_rfl, poll.status⟩
    | folded reference index existing w _ _ hexisting hstatus hw =>
      exact h.fold hexisting hstatus hw hrow hsequence hexecutions

theorem Tallied.call {cfg : BrokerConfig} (h : Tallied b) (hcall : Book.Call cfg b b') :
    Tallied b' := by
  cases hcall with
  | attempt hout => exact h.attempt (executeOrder_recorded hout) (executeOrder_sequence hout)
  | mark p => exact ⟨h.occurrences, h.fills, h.resting⟩
  | release references => exact ⟨h.occurrences, h.fills, h.resting⟩
  | adjust cash total => exact ⟨h.occurrences, h.fills, h.resting⟩

theorem Tallied.calls {cfg : BrokerConfig} (h : Tallied b) (hcalls : Book.Calls cfg b b') :
    Tallied b' := by
  induction hcalls with
  | refl => exact h
  | tail _ hcall ih => exact ih.call hcall

/-- Each row has one of the four statuses. -/
theorem sum_statusCount (b : Book) :
    b.statusCount .filled + b.statusCount .partFilled + b.statusCount .deferred +
      b.statusCount .rejected = b.occurrences := by
  unfold Book.statusCount Book.occurrences
  induction b.orderLedger with
  | nil => rfl
  | cons e rows ih =>
    rw [List.map_cons, List.sum_cons, ← ih]
    cases hstatus : e.status <;> simp [hstatus] <;> omega

end

/-- **The attempts of a run.**  Each is one occurrence in the ledger, filled, partly filled,
deferred or rejected, and the filled ones are the executions. -/
theorem attempts_reported {G : Type} {cfg : BrokerConfig} {prog : Program G} {frames : Frames}
    {times : List Time} {r : Runner G} (le : PositionKey → PositionKey → Bool)
    (hrun : Runs.run (Runner.bar cfg prog frames) (Runner.start cfg prog) times = some r) :
    let R := result le cfg r.broker
    R.orderLedgerStats.eventOccurrences = r.broker.book.orderSequence ∧
      R.orderLedgerStats.eventOccurrences =
        R.orderLedgerStats.storedEvents + R.orderLedgerStats.compactedOccurrences ∧
      R.attribution.filled + R.attribution.partFilled = R.totalExecutions ∧
      R.totalExecutions + R.attribution.deferred + R.attribution.rejected =
        r.broker.book.orderSequence := by
  have htallied : Tallied r.broker.book := by
    refine Tallied.calls ?_ (Runner.run_calls hrun)
    exact ⟨rfl, rfl, fun _ he => absurd he List.not_mem_nil⟩
  have hlength : r.broker.book.orderLedger.length ≤ r.broker.book.occurrences := by
    unfold Book.occurrences
    induction r.broker.book.orderLedger with
    | nil => exact le_rfl
    | cons e rows ih =>
      rw [List.length_cons, List.map_cons, List.sum_cons]
      have hone : 1 ≤ e.occurrences := le_max_left ..
      omega
  have hsum := sum_statusCount r.broker.book
  refine ⟨htallied.occurrences, ?_, htallied.fills, ?_⟩
  · show r.broker.book.occurrences = r.broker.book.orderLedger.length +
      (r.broker.book.occurrences - r.broker.book.orderLedger.length)
    omega
  · rw [← htallied.occurrences, ← hsum, htallied.fills]
    rfl

/-- A coin is bought, sold and bought again. -/
theorem attempts_reported_inAndOut :
    ∃ r, Runs.run (Runner.bar Dust.config Dust.inAndOut Dust.history)
        (Runner.start Dust.config Dust.inAndOut) [0, 1, 2, 3] = some r ∧
      (result (fun _ _ => true) Dust.config r.broker).totalExecutions = 3 ∧
      (result (fun _ _ => true) Dust.config r.broker).attribution.filled +
        (result (fun _ _ => true) Dust.config r.broker).attribution.partFilled =
          (result (fun _ _ => true) Dust.config r.broker).totalExecutions := by
  obtain ⟨r, hr, hthree⟩ := Runs.exists_of_any
    (p := fun r : Runner Unit => r.broker.book.executions.length = 3)
    (show (Runs.run (Runner.bar Dust.config Dust.inAndOut Dust.history)
      (Runner.start Dust.config Dust.inAndOut) [0, 1, 2, 3]).any _ = true by decide +kernel)
  exact ⟨r, hr, hthree, (attempts_reported (fun _ _ => true) hr).2.2.1⟩

/-! ## Attribution -/

theorem nodup_keys_totalsOf (entries : List (PositionKey × ℚ)) : (totalsOf entries).keys.Nodup := by
  unfold totalsOf
  induction entries using List.reverseRecOn with
  | nil => exact List.nodup_nil
  | append_singleton entries e ih =>
    rw [List.foldl_append]
    exact Dict.nodup_keys_set ih ..

theorem total_totalsOf (entries : List (PositionKey × ℚ)) :
    (totalsOf entries).total (fun _ amount => amount) = (entries.map Prod.snd).sum := by
  induction entries using List.reverseRecOn with
  | nil => rfl
  | append_singleton entries e ih =>
    have hnodup := nodup_keys_totalsOf entries
    have hlast : totalsOf (entries ++ [e]) = addTo (totalsOf entries) e := by
      unfold totalsOf
      rw [List.foldl_append]
      rfl
    rw [hlast, addTo, Dict.total_set hnodup, List.map_append, List.sum_append, ← ih,
      Dict.total_eq_pop hnodup e.1]
    cases (totalsOf entries).get? e.1 with
    | none => simp
    | some amount =>
      rw [Option.getD_some, Option.elim_some, List.map_singleton, List.sum_singleton]
      ring

/-- A total over any keys that are all there, each once. -/
theorem sum_elim_eq_total {α : Type} {d : Dict PositionKey α} (hd : d.keys.Nodup)
    {keys : List PositionKey} (hkeys : keys.Nodup) (hall : ∀ k ∈ d.keys, k ∈ keys)
    (f : PositionKey → α → ℚ) :
    (keys.map fun k => (d.get? k).elim 0 (f k)).sum = d.total f := by
  induction keys generalizing d with
  | nil =>
    have hempty : d.entries = [] := by
      rw [List.eq_nil_iff_forall_not_mem]
      intro e he
      exact List.not_mem_nil (hall e.1 (List.mem_map_of_mem he))
    unfold Dict.total
    rw [hempty]
    rfl
  | cons k keys ih =>
    obtain ⟨hk, hkeys⟩ := List.nodup_cons.mp hkeys
    have hrest : ∀ x ∈ (d.pop k).keys, x ∈ keys := by
      intro x hx
      obtain ⟨v, hv⟩ := Dict.exists_get?_of_mem hx
      rw [Dict.get?_pop] at hv
      split at hv
      · cases hv
      next hne =>
        exact (List.mem_cons.mp (hall x (Dict.mem_keys_of_get? hv))).resolve_left (Ne.symm hne)
    rw [List.map_cons, List.sum_cons, Dict.total_eq_pop hd k f,
      ← ih (Dict.nodup_keys_pop hd k) hkeys hrest, add_comm]
    congr 2
    refine List.map_congr_left fun x hx => ?_
    rw [Dict.get?_pop, if_neg (show ¬ k = x from fun hkx => hk (hkx ▸ hx))]

/-- The positions a report attributes to, in the order of their names. -/
def Book.attributed (le : PositionKey → PositionKey → Bool) (b : Book) : List PositionKey :=
  ((totalsOf (b.executions.map fun e => (e.positionKey, e.commission))).keys ++
    (totalsOf (b.closedTrades.map fun t => (t.symbol, t.profit))).keys ++
      b.positions.keys).dedup.mergeSort le

/-- The profit a position has not realized. -/
def Position.unrealized (pos : Position) : ℚ := (pos.lastPrice - pos.avgCost) * pos.amount

/-- The rows of an attribution and its totals. -/
structure AttributionTotals (b : Book) (initial : ℚ) (a : Attribution) : Prop where
  distinct : (a.symbols.map SymbolRow.symbol).Nodup
  realized : (a.symbols.map SymbolRow.realizedProfit).sum = b.realizedProfit
  unrealized : (a.symbols.map SymbolRow.unrealizedProfit).sum =
    b.positions.total fun _ pos => pos.unrealized
  commission : (a.symbols.map SymbolRow.commission).sum = a.commission
  commission_eq : a.commission = (b.executions.map Execution.commission).sum
  net : initial ≠ 0 → initial * a.netContribution =
    (a.symbols.map SymbolRow.realizedProfit).sum + (a.symbols.map SymbolRow.unrealizedProfit).sum
  feeDrag : initial ≠ 0 → initial * a.feeDrag = a.commission

theorem attribution_totals (le : PositionKey → PositionKey → Bool) {b : Book}
    (hb : b.positions.keys.Nodup) (initial : ℚ) :
    AttributionTotals b initial (attribution le b initial) := by
  have hsymbols : (attribution le b initial).symbols.map SymbolRow.symbol = b.attributed le := by
    unfold attribution
    dsimp only
    rw [List.map_map]
    exact List.map_id _
  have hnodup : (b.attributed le).Nodup :=
    (List.mergeSort_perm ..).nodup_iff.mpr (List.nodup_dedup _)
  have hmem : ∀ {k}, k ∈ b.attributed le ↔
      (k ∈ (totalsOf (b.executions.map fun e => (e.positionKey, e.commission))).keys ∨
        k ∈ (totalsOf (b.closedTrades.map fun t => (t.symbol, t.profit))).keys) ∨
          k ∈ b.positions.keys := by
    intro k
    unfold Book.attributed
    rw [List.mem_mergeSort, List.mem_dedup, List.mem_append, List.mem_append]
  have hcommission :
      (totalsOf (b.executions.map fun e => (e.positionKey, e.commission))).values.sum =
        (b.executions.map Execution.commission).sum := by
    have htotal := total_totalsOf (b.executions.map fun e => (e.positionKey, e.commission))
    rw [List.map_map] at htotal
    exact htotal
  have hrealized : ((attribution le b initial).symbols.map SymbolRow.realizedProfit).sum =
      b.realizedProfit := by
    have htotal := total_totalsOf (b.closedTrades.map fun t => (t.symbol, t.profit))
    rw [List.map_map] at htotal
    have hsum := sum_elim_eq_total (nodup_keys_totalsOf _) hnodup
      (fun k hk => hmem.mpr (.inl (.inr hk))) fun _ amount => amount
    unfold attribution
    dsimp only
    rw [List.map_map]
    refine (congrArg List.sum (List.map_congr_left fun k _ => ?_)).trans (hsum.trans htotal)
    rw [Function.comp_apply]
    cases (totalsOf (b.closedTrades.map fun t => (t.symbol, t.profit))).get? k <;> rfl
  refine ⟨hsymbols ▸ hnodup, hrealized, ?_, ?_, hcommission, fun hinitial => ?_, fun hinitial => ?_⟩
  · have hsum := sum_elim_eq_total hb hnodup (fun k hk => hmem.mpr (.inr hk))
      fun _ pos => pos.unrealized
    unfold attribution
    dsimp only
    rw [List.map_map]
    exact hsum
  · have hsum := sum_elim_eq_total (nodup_keys_totalsOf _) hnodup
      (fun k hk => hmem.mpr (.inl (.inl hk))) fun _ amount => amount
    unfold attribution
    dsimp only
    rw [List.map_map]
    refine (congrArg List.sum (List.map_congr_left fun k _ => ?_)).trans hsum
    rw [Function.comp_apply]
    cases (totalsOf (b.executions.map fun e => (e.positionKey, e.commission))).get? k <;> rfl
  · unfold attribution
    dsimp only
    rw [List.map_map, List.map_map, List.map_map, ← List.sum_map_add, ← List.sum_map_mul_left]
    refine congrArg List.sum (List.map_congr_left fun k _ => ?_)
    rw [Function.comp_apply, Function.comp_apply, Function.comp_apply]
    dsimp only
    rw [if_pos hinitial, mul_div_cancel₀ _ hinitial]
  · unfold attribution
    dsimp only
    rw [if_pos hinitial, mul_div_cancel₀ _ hinitial]

/-! ## Trades and profit -/

theorem sum_eq_wins_add_losses (profits : List ℚ) :
    profits.sum = (profits.filter (0 < ·)).sum + (profits.filter (· < 0)).sum := by
  induction profits with
  | nil => rw [List.filter_nil, List.filter_nil, List.sum_nil, zero_add]
  | cons x profits ih =>
    rw [List.sum_cons, ih, List.filter_cons, List.filter_cons]
    rcases lt_trichotomy 0 x with hx | rfl | hx
    · rw [if_pos (decide_eq_true hx), decide_eq_false hx.not_gt, if_neg Bool.false_ne_true,
        List.sum_cons]
      ring
    · rw [decide_eq_false (lt_irrefl (0 : ℚ)), if_neg Bool.false_ne_true,
        if_neg Bool.false_ne_true, zero_add]
    · rw [decide_eq_false hx.not_gt, if_neg Bool.false_ne_true, if_pos (decide_eq_true hx),
        List.sum_cons]
      ring

theorem sum_losses_nonpos (profits : List ℚ) : (profits.filter (· < 0)).sum ≤ 0 := by
  induction profits with
  | nil => rw [List.filter_nil, List.sum_nil]
  | cons x profits ih =>
    rw [List.filter_cons]
    split
    next hx =>
      rw [List.sum_cons]
      have hneg := of_decide_eq_true hx
      linarith
    next => exact ih

/-- The figures of the closed trades. -/
structure TradesReported (b : Book) (R : Report) : Prop where
  gross : R.grossProfit - R.grossLoss = b.realizedProfit
  average : R.avgTrade * R.totalTrades = b.realizedProfit
  counts : R.winningTrades + R.losingTrades ≤ R.totalTrades
  best : ∀ t ∈ b.closedTrades, R.worstTrade ≤ t.profit ∧ t.profit ≤ R.bestTrade

theorem trades_reported (le : PositionKey → PositionKey → Bool) (cfg : BrokerConfig) (b : Broker) :
    TradesReported b.book (result le cfg b) where
  gross := by
    have hsum := sum_eq_wins_add_losses (b.book.closedTrades.map ClosedTrade.profit)
    have hlosses := sum_losses_nonpos (b.book.closedTrades.map ClosedTrade.profit)
    show (List.filter (0 < ·) (b.book.closedTrades.map ClosedTrade.profit)).sum -
      |(List.filter (· < 0) (b.book.closedTrades.map ClosedTrade.profit)).sum| = _
    rw [abs_of_nonpos hlosses, sub_neg_eq_add]
    exact hsum.symm
  average := by
    show (if b.book.closedTrades.map ClosedTrade.profit = [] then 0
      else (b.book.closedTrades.map ClosedTrade.profit).sum /
        (b.book.closedTrades.map ClosedTrade.profit).length) * (b.book.closedTrades.length : ℚ) =
      (b.book.closedTrades.map ClosedTrade.profit).sum
    split
    next hnone => rw [hnone, zero_mul, List.sum_nil]
    next hsome =>
      rw [List.length_map]
      refine div_mul_cancel₀ _ (Nat.cast_ne_zero.mpr fun hzero => hsome ?_)
      rw [List.length_eq_zero_iff.mp hzero, List.map_nil]
  counts := by
    show (List.filter (0 < ·) (b.book.closedTrades.map ClosedTrade.profit)).length +
      (List.filter (· < 0) (b.book.closedTrades.map ClosedTrade.profit)).length ≤
        b.book.closedTrades.length
    rw [← List.length_map (f := ClosedTrade.profit)]
    induction b.book.closedTrades.map ClosedTrade.profit with
    | nil => exact le_rfl
    | cons x profits ih =>
      rw [List.filter_cons, List.filter_cons, List.length_cons]
      split
      next hpos =>
        have hneg : ¬ decide (x < 0) = true := fun h =>
          (of_decide_eq_true hpos).not_gt (of_decide_eq_true h)
        rw [if_neg hneg, List.length_cons]
        omega
      next =>
        split
        · rw [List.length_cons]
          omega
        · omega
  best t ht := by
    have hmem : t.profit ∈ b.book.closedTrades.map ClosedTrade.profit := List.mem_map_of_mem ht
    show (b.book.closedTrades.map ClosedTrade.profit).min?.getD 0 ≤ _ ∧
      _ ≤ (b.book.closedTrades.map ClosedTrade.profit).max?.getD 0
    constructor
    · cases hmin : (b.book.closedTrades.map ClosedTrade.profit).min? with
      | none => rw [List.min?_eq_none_iff.mp hmin] at hmem; exact absurd hmem List.not_mem_nil
      | some x => exact (List.min?_eq_some_iff.mp hmin).2 _ hmem
    · cases hmax : (b.book.closedTrades.map ClosedTrade.profit).max? with
      | none => rw [List.max?_eq_none_iff.mp hmax] at hmem; exact absurd hmem List.not_mem_nil
      | some x => exact (List.max?_eq_some_iff.mp hmax).2 _ hmem

/-- The commissions of open entries, which are in no closed trade yet. -/
def Book.openCommissions (b : Book) : ℚ := b.positions.total fun key _ => b.entryCommission key

theorem Book.total_openProfit (b : Book) :
    b.positions.total b.openProfit =
      (b.positions.total fun _ pos => pos.unrealized) - b.openCommissions := by
  unfold openCommissions Dict.total
  rw [eq_sub_iff_add_eq, ← List.sum_map_add]
  refine congrArg List.sum (List.map_congr_left fun e _ => ?_)
  unfold openProfit Position.unrealized
  ring

/-- **The profit of a run** from its report: the rows of the attribution are the trades, the
executions and the positions, and with regular executions they explain the whole profit but for
the commissions of open entries and the deficits absorbed. -/
theorem profit_reported {G : Type} {cfg : BrokerConfig} {prog : Program G} {frames : Frames}
    {times : List Time} {r : Runner G} (le : PositionKey → PositionKey → Bool)
    (hrun : Runs.run (Runner.bar cfg prog frames) (Runner.start cfg prog) times = some r) :
    let R := result le cfg r.broker
    TradesReported r.broker.book R ∧
      AttributionTotals r.broker.book R.initialCapital R.attribution ∧
      R.totalCommission = R.attribution.commission ∧
      (RegularExecutions r.broker.book.executions → R.initialCapital ≠ 0 →
        R.totalProfit = R.initialCapital * R.attribution.netContribution -
          r.broker.book.openCommissions + R.liquidationAdjustment) := by
  have hfiled : Filed r.broker.book :=
    (Runner.run_chain hrun).invariant move_filed (start_filed cfg prog)
  have htotals := attribution_totals le hfiled.nodup cfg.initialCapital
  refine ⟨trades_reported le cfg r.broker, htotals, htotals.commission_eq.symm,
    fun hregular hinitial => ?_⟩
  have hdecomposed := ((Runner.run_chain hrun).invariant move_decomposed
    ⟨start_kept cfg prog, fun _ => start_decomposed cfg prog⟩).2 hregular
  show r.broker.book.totalValue - cfg.initialCapital = cfg.initialCapital *
    (attribution le r.broker.book cfg.initialCapital).netContribution -
      r.broker.book.openCommissions + r.broker.liquidationAdjustment
  rw [htotals.net hinitial, htotals.realized, htotals.unrealized, Runner.run_totalValue hrun,
    Book.positionsValue_eq, hdecomposed.cash, Book.total_openProfit]
  ring

/-- The same coin in lots of one size. -/
theorem profit_reported_inAndOut :
    ∃ r, Runs.run (Runner.bar Dust.config Dust.inAndOut Dust.evenHistory)
        (Runner.start Dust.config Dust.inAndOut) [0, 1, 2, 3] = some r ∧
      (result (fun _ _ => true) Dust.config r.broker).totalTrades = 1 ∧
      (result (fun _ _ => true) Dust.config r.broker).totalProfit =
        Dust.config.initialCapital *
          (result (fun _ _ => true) Dust.config r.broker).attribution.netContribution -
            r.broker.book.openCommissions +
          (result (fun _ _ => true) Dust.config r.broker).liquidationAdjustment := by
  obtain ⟨r, hr, hregular, htrades⟩ := Runs.exists_of_any
    (p := fun r : Runner Unit => RegularExecutions r.broker.book.executions ∧
      r.broker.book.closedTrades.length = 1)
    (show (Runs.run (Runner.bar Dust.config Dust.inAndOut Dust.evenHistory)
      (Runner.start Dust.config Dust.inAndOut) [0, 1, 2, 3]).any _ = true by decide +kernel)
  refine ⟨r, hr, htrades, ?_⟩
  exact (profit_reported (fun _ _ => true) hr).2.2.2 hregular (show (10000 : ℚ) ≠ 0 by norm_num)

end AlgoTrade.Backtest
