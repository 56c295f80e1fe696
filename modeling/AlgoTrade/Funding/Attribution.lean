import AlgoTrade.Funding.Reconciliation
import AlgoTrade.Lib.Runs
import Mathlib.Data.List.Dedup
import Mathlib.Tactic.Linarith

/-! # Funding payments are attributed once and in full

* `sum_ratios`: the holders' ratios add up to one.
* `Books.Settled`: a payment is not attributed to new holders once it is recorded,
  and the rounding of its shares cancels.
* `attributed_of_settled`: every payment recorded at all is recorded in full.
* `laterHolder_overAttributed`: the holders change between two syncs. -/

namespace AlgoTrade.Funding

open Runs

/-! ## What is claimed -/

/-- The rows recorded for a payment. -/
def recorded (rows : List FundingFee) (key : ℕ × String × List Char) : List FundingFee :=
  rows.filter fun r => r.key = key

/-- Every settled payment that is recorded at all is recorded in full. -/
def Books.Attributed (s : Books) : Prop :=
  ∀ q ∈ s.settled, recorded s.fees q.key ≠ [] →
    ((recorded s.fees q.key).map FundingFee.amount).sum = q.payment.amount

/-! ## The condition -/

/-- Who gets a share of the payment now. -/
def Books.holders (s : Books) (req : SyncRequest) : List (ℕ × ℚ) :=
  positionAllocations s.positions req.credentialId req.requestedSymbol req.strategyId

/-- What the column stores more or less than the share. -/
def roundingError (p : Payment) (holder : ℕ × ℚ) : ℚ :=
  storedDecimal 8 (p.amount * holder.2) - p.amount * holder.2

/-- A payment that is inserted is new, and the rounding of its shares cancels, or
every holder of now has a row for it. -/
def Books.Settled (s : Books) : SyncLabel → Bool
  | .inserts =>
    match s.sync with
    | some ⟨req, p :: _, rows⟩ => accepts req p = true →
        if recorded rows (req.key p) = [] then
          ((s.holders req).map (roundingError p)).sum = 0
        else (s.holders req).all fun h => (recorded rows (req.key p)).any fun r => r.strategyId = h.1
    | _ => true
  | _ => true

/-! ## Allocation -/

theorem nodup_quantities (positions : List PositionRow) (credentialId : ℕ) (symbol : List Char) :
    ((quantities positions credentialId symbol).map Prod.fst).Nodup := by
  unfold quantities
  refine List.Nodup.sublist (List.Sublist.map Prod.fst List.filter_sublist) ?_
  rw [List.map_map]
  exact (List.map_id _).symm ▸ List.nodup_dedup _

/-- A holder has one share. -/
theorem nodup_holders (positions : List PositionRow) (credentialId : ℕ) (symbol : List Char)
    (fallback : ℕ) : ((positionAllocations positions credentialId symbol fallback).map Prod.fst).Nodup := by
  unfold positionAllocations
  dsimp only
  split
  · rw [List.map_map]
    exact nodup_quantities positions credentialId _
  · split
    · exact List.nodup_singleton fallback
    · exact List.nodup_nil

/-- The ratios add up to one. -/
theorem sum_ratios (positions : List PositionRow) (credentialId : ℕ) (symbol : List Char)
    {fallback : ℕ} (hfallback : 0 < fallback) :
    ((positionAllocations positions credentialId symbol fallback).map Prod.snd).sum = 1 := by
  unfold positionAllocations
  dsimp only
  split
  next htotal =>
    rw [List.map_map]
    have hdiv : ∀ (l : List (ℕ × ℚ)) (t : ℚ),
        (l.map (Prod.snd ∘ fun q : ℕ × ℚ => (q.1, q.2 / t))).sum = (l.map Prod.snd).sum / t := by
      intro l t
      induction l with
      | nil => simp
      | cons q l ih =>
        simp only [List.map_cons, List.sum_cons, ih, Function.comp_apply]
        ring
    rw [hdiv, div_self htotal.ne']
  next => rw [List.map_singleton, List.sum_singleton]

/-- What is stored of a payment's shares is the payment and the rounding errors. -/
theorem sum_stored (p : Payment) (holders : List (ℕ × ℚ)) :
    (holders.map fun h => storedDecimal 8 (p.amount * h.2)).sum =
      p.amount * (holders.map Prod.snd).sum + (holders.map (roundingError p)).sum := by
  induction holders with
  | nil => simp
  | cons h holders ih =>
    simp only [List.map_cons, List.sum_cons, ih, roundingError]
    ring

/-! ## Inserts -/

section
variable {strategies : List Strategy} {now : ℤ} {req : SyncRequest} {p : Payment}
  {holders : List (ℕ × ℚ)} {rows : List FundingFee}

/-- Rows of other payments stay as they are. -/
theorem recorded_insertPayment_of_ne {key : ℕ × String × List Char} (hne : req.key p ≠ key) :
    recorded (insertPayment strategies now req p holders rows) key = recorded rows key := by
  unfold insertPayment
  induction holders generalizing rows with
  | nil => rfl
  | cons h holders ih =>
    rw [List.foldl_cons, ih]
    unfold insertFee recorded
    split
    · rfl
    · rw [List.filter_append, List.filter_singleton]
      have hother : (feeRow strategies now req p h).key ≠ key := hne
      rw [decide_eq_false hother]
      exact List.append_nil _

/-- Nothing is inserted for holders that have a row each. -/
theorem insertPayment_of_recorded
    (h : ∀ holder ∈ holders, ∃ r ∈ recorded rows (req.key p), r.strategyId = holder.1) :
    insertPayment strategies now req p holders rows = rows := by
  unfold insertPayment
  induction holders with
  | nil => rfl
  | cons holder holders ih =>
    obtain ⟨r, hr, hid⟩ := h holder List.mem_cons_self
    obtain ⟨hmem, hkey⟩ := List.mem_filter.mp hr
    have hconflict : insertFee rows (feeRow strategies now req p holder) = rows :=
      if_pos (List.any_eq_true.mpr ⟨r, hmem, decide_eq_true ⟨of_decide_eq_true hkey, hid⟩⟩)
    rw [List.foldl_cons, hconflict]
    exact ih fun h' hh' => h h' (List.mem_cons_of_mem holder hh')

/-- A payment without rows gets one for each holder. -/
theorem insertPayment_of_new (hnodup : (holders.map Prod.fst).Nodup)
    (h : ∀ holder ∈ holders, ∀ r ∈ recorded rows (req.key p), r.strategyId ≠ holder.1) :
    insertPayment strategies now req p holders rows =
      rows ++ holders.map (feeRow strategies now req p) := by
  unfold insertPayment
  induction holders generalizing rows with
  | nil => exact (List.append_nil rows).symm
  | cons holder holders ih =>
    obtain ⟨hnew, hnodup⟩ := List.nodup_cons.mp hnodup
    have hinsert : insertFee rows (feeRow strategies now req p holder) =
        rows ++ [feeRow strategies now req p holder] := by
      refine if_neg fun hany => ?_
      obtain ⟨r, hr, heq⟩ := List.any_eq_true.mp hany
      obtain ⟨hkey, hid⟩ := of_decide_eq_true heq
      exact h holder List.mem_cons_self r (List.mem_filter.mpr ⟨hr, decide_eq_true hkey⟩) hid
    rw [List.foldl_cons, hinsert, ih hnodup ?_, List.map_cons, List.append_assoc]
    · rfl
    · intro holder' hholder' r hr
      rw [recorded, List.filter_append, List.mem_append] at hr
      rcases hr with hr | hr
      · exact h holder' (List.mem_cons_of_mem holder hholder') r hr
      · obtain rfl := List.mem_singleton.mp (List.mem_filter.mp hr).1
        intro hid
        have hsame : holder.1 = holder'.1 := hid
        exact hnew (hsame ▸ List.mem_map_of_mem hholder')

theorem keys_insertPayment {r : FundingFee}
    (hr : r ∈ insertPayment strategies now req p holders rows) : r ∈ rows ∨ r.key = req.key p := by
  unfold insertPayment at hr
  induction holders generalizing rows with
  | nil => exact .inl hr
  | cons holder holders ih =>
    rcases ih hr with hmem | hkey
    · have hfee : r ∈ insertFee rows (feeRow strategies now req p holder) := hmem
      unfold insertFee at hfee
      split at hfee
      · exact .inl hfee
      · rcases List.mem_append.mp hfee with hold | hnew
        · exact .inl hold
        · exact .inr (List.mem_singleton.mp hnew ▸ rfl)
    · exact .inr hkey

end

/-! ## The invariant -/

/-- Recorded in full, or not at all. -/
def Full (rows : List FundingFee) (q : AccountPayment) : Prop :=
  recorded rows q.key = [] ∨
    ((recorded rows q.key).map FundingFee.amount).sum = q.payment.amount

/-- The table, and the table as the sync in progress sees it, hold rows of settled
payments only and every payment in full. -/
structure RowsOk (settled : List AccountPayment) (rows : List FundingFee) : Prop where
  keys : ∀ r ∈ rows, r.key ∈ settled.map AccountPayment.key
  full : ∀ q ∈ settled, Full rows q

structure Inv (s : Books) : Prop where
  settled : (s.settled.map AccountPayment.key).Nodup
  fees : RowsOk s.settled s.fees
  request : ∀ sync, s.sync = some sync → 0 < sync.request.strategyId
  payments : ∀ sync, s.sync = some sync → ∀ p ∈ sync.payments,
    ⟨sync.request.credentialId, sync.request.exchangeId, p⟩ ∈ s.settled
  rows : ∀ sync, s.sync = some sync → RowsOk s.settled sync.rows
  ids : ∀ st ∈ s.strategies, 0 < st.id

section
variable {s s' : Books}

/-- A payment of the sync in progress, inserted. -/
theorem RowsOk.insertPayment {settled : List AccountPayment} {rows : List FundingFee}
    (h : RowsOk settled rows) (hsettled : (settled.map AccountPayment.key).Nodup)
    {strategies : List Strategy} {now : ℤ} {req : SyncRequest} {p : Payment}
    (hp : ⟨req.credentialId, req.exchangeId, p⟩ ∈ settled) {holders : List (ℕ × ℚ)}
    (hnodup : (holders.map Prod.fst).Nodup) (hratios : (holders.map Prod.snd).sum = 1)
    (hset : if recorded rows (req.key p) = [] then (holders.map (roundingError p)).sum = 0
      else ∀ holder ∈ holders, ∃ r ∈ recorded rows (req.key p), r.strategyId = holder.1) :
    RowsOk settled (insertPayment strategies now req p holders rows) := by
  refine ⟨fun r hr => ?_, fun q hq => ?_⟩
  · rcases keys_insertPayment hr with hold | hnew
    · exact h.keys r hold
    · rw [hnew]
      exact List.mem_map_of_mem hp
  · by_cases hkey : req.key p = q.key
    · obtain rfl : q = ⟨req.credentialId, req.exchangeId, p⟩ :=
        List.inj_on_of_nodup_map hsettled hq hp hkey.symm
      split at hset
      next hnone =>
        right
        have hnew : ∀ holder ∈ holders, ∀ r ∈ recorded rows (req.key p),
            r.strategyId ≠ holder.1 := by
          intro holder _ r hr
          rw [hnone] at hr
          cases hr
        have hkeys : ∀ r ∈ holders.map (feeRow strategies now req p), decide (r.key = req.key p) = true := by
          intro r hr
          obtain ⟨holder, -, rfl⟩ := List.mem_map.mp hr
          exact decide_eq_true rfl
        have hrows : recorded (Funding.insertPayment strategies now req p holders rows) (req.key p) =
            holders.map (feeRow strategies now req p) := by
          rw [insertPayment_of_new hnodup hnew, recorded, List.filter_append,
            List.filter_eq_self.mpr hkeys]
          exact (congrArg (· ++ _) hnone).trans (List.nil_append _)
        show ((recorded _ (req.key p)).map FundingFee.amount).sum = p.amount
        rw [hrows, List.map_map]
        refine (sum_stored p holders).trans ?_
        rw [hratios, hset, mul_one, add_zero]
      next =>
        rw [insertPayment_of_recorded hset]
        exact h.full _ hq
    · unfold Full
      rw [recorded_insertPayment_of_ne hkey]
      exact h.full q hq

theorem request_strategyId {strategyId : ℕ} {st : Strategy} {req : SyncRequest}
    (h : s.request strategyId = some (st, req)) : st ∈ s.strategies ∧ req.strategyId = st.id := by
  unfold Books.request at h
  split at h
  next => cases h
  next st' hfind =>
    split at h
    next => cases h
    next =>
      obtain ⟨rfl, rfl⟩ := Prod.mk.inj (Option.some.inj h)
      exact ⟨List.mem_of_find?_eq_some hfind, rfl⟩

theorem Inv.begin {strategyId : ℕ} {force : Bool} {response : List Payment} (h : Inv s)
    (hs : s.begin strategyId force response = some s') : Inv s' := by
  unfold Books.begin at hs
  split at hs
  next => cases hs
  next =>
    split at hs
    next =>
      obtain rfl := Option.some.inj hs
      exact h
    next =>
      dsimp only at hs
      split at hs
      next =>
        obtain rfl := Option.some.inj hs
        exact ⟨h.settled, h.fees, h.request, h.payments, h.rows, h.ids⟩
      next st req hreq =>
        obtain ⟨hall, rfl⟩ := Option.ite_none_right_eq_some.mp hs |>.imp_right Option.some.inj
        obtain ⟨hst, hid⟩ := request_strategyId hreq
        refine ⟨h.settled, h.fees, fun sync hsync => ?_, fun sync hsync p hp => ?_,
          fun sync hsync => ?_, h.ids⟩
        · obtain rfl := Option.some.inj hsync
          show 0 < req.strategyId
          rw [hid]
          exact h.ids st hst
        · obtain rfl := Option.some.inj hsync
          exact (of_decide_eq_true (List.all_eq_true.mp hall p hp)).1
        · obtain rfl := Option.some.inj hsync
          exact h.fees

/-- Without a sync in progress, what is left to keep is the table. -/
theorem Inv.idle (h : Inv s) {fees : List FundingFee} (hfees : RowsOk s.settled fees)
    {lastSync : Dict ℕ ℤ} : Inv { s with fees := fees, lastSync := lastSync, sync := none } :=
  ⟨h.settled, hfees, (fun _ heq => by cases heq), (fun _ heq => by cases heq),
    (fun _ heq => by cases heq), h.ids⟩

theorem Inv.insert {sync : Sync} (h : Inv s) (hsync : s.sync = some sync)
    (hset : s.Settled .inserts = true) (hs : s.insert sync = some s') : Inv s' := by
  obtain ⟨req, payments, rows⟩ := sync
  have hrows := h.rows _ hsync
  cases payments with
  | nil => cases hs
  | cons p rest =>
    have hp := h.payments _ hsync p List.mem_cons_self
    have hrest : ∀ p' ∈ rest, ⟨req.credentialId, req.exchangeId, p'⟩ ∈ s.settled :=
      fun p' hp' => h.payments _ hsync p' (List.mem_cons_of_mem p hp')
    have hnext : ∀ rows', RowsOk s.settled rows' → Inv { s with sync := some ⟨req, rest, rows'⟩ } := by
      intro rows' hrows'
      refine ⟨h.settled, h.fees, fun sync' heq => ?_, fun sync' heq => ?_, fun sync' heq => ?_, h.ids⟩
      · obtain rfl := Option.some.inj heq
        exact h.request ⟨req, p :: rest, rows⟩ hsync
      · obtain rfl := Option.some.inj heq
        exact hrest
      · obtain rfl := Option.some.inj heq
        exact hrows'
    simp only [Books.insert] at hs
    split at hs
    next haccepts =>
      split at hs
      next =>
        obtain rfl := Option.some.inj hs
        simp only [Books.Settled, hsync, decide_eq_true_eq] at hset
        refine hnext _ (hrows.insertPayment h.settled hp (nodup_holders ..)
          (sum_ratios _ _ _ (h.request _ hsync)) ?_)
        have hcases := hset haccepts
        split at hcases
        next hnone =>
          rw [if_pos hnone]
          exact hcases
        next hsome =>
          rw [if_neg hsome]
          intro holder hholder
          obtain ⟨r, hr, hid⟩ := List.any_eq_true.mp (List.all_eq_true.mp hcases holder hholder)
          exact ⟨r, hr, of_decide_eq_true hid⟩
      next =>
        obtain rfl := Option.some.inj hs
        exact h.idle h.fees
    next =>
      obtain rfl := Option.some.inj hs
      exact hnext rows hrows

/-- The exchange settles a payment. -/
theorem RowsOk.settles {settled : List AccountPayment} {rows : List FundingFee}
    (h : RowsOk settled rows) {q : AccountPayment} (hnew : q.key ∉ settled.map AccountPayment.key) :
    RowsOk (settled ++ [q]) rows := by
  refine ⟨fun r hr => ?_, fun q' hq' => ?_⟩
  · rw [List.map_append]
    exact List.mem_append_left _ (h.keys r hr)
  · rcases List.mem_append.mp hq' with hold | hlast
    · exact h.full q' hold
    · obtain rfl := List.mem_singleton.mp hlast
      refine .inl (List.filter_eq_nil_iff.mpr fun r hr hkey => hnew ?_)
      rw [← of_decide_eq_true hkey]
      exact h.keys r hr

/-- **One label** that is settled preserves the invariant. -/
theorem Inv.step {l : SyncLabel} (h : Inv s) (hset : s.Settled l = true)
    (hs : syncStep s l = some s') : Inv s' := by
  cases l with
  | ticks ms =>
    obtain rfl := Option.some.inj hs
    exact ⟨h.settled, h.fees, h.request, h.payments, h.rows, h.ids⟩
  | restarts =>
    obtain rfl := Option.some.inj hs
    exact h.idle h.fees
  | creates st =>
    rw [syncStep] at hs
    split at hs
    next => cases hs
    next hnew =>
      obtain rfl := Option.some.inj hs
      rw [not_or] at hnew
      refine ⟨h.settled, h.fees, h.request, h.payments, h.rows, fun st' hst' => ?_⟩
      rcases List.mem_append.mp hst' with hold | hlast
      · exact h.ids st' hold
      · obtain rfl := List.mem_singleton.mp hlast
        exact Nat.pos_of_ne_zero hnew.1
  | moves positions =>
    obtain rfl := Option.some.inj hs
    exact ⟨h.settled, h.fees, h.request, h.payments, h.rows, h.ids⟩
  | settles q =>
    rw [syncStep] at hs
    split at hs
    next => cases hs
    next hany =>
      obtain rfl := Option.some.inj hs
      have hnew : q.key ∉ s.settled.map AccountPayment.key := by
        intro hmem
        obtain ⟨q', hq', hkey⟩ := List.mem_map.mp hmem
        exact hany (List.any_eq_true.mpr ⟨q', hq', decide_eq_true hkey⟩)
      refine ⟨?_, h.fees.settles hnew, h.request, fun sync hsync p hp => ?_,
        fun sync hsync => (h.rows sync hsync).settles hnew, h.ids⟩
      · show ((s.settled ++ [q]).map AccountPayment.key).Nodup
        rw [List.map_append]
        exact List.nodup_append.mpr ⟨h.settled, List.nodup_singleton _, fun a ha b hb hab =>
          hnew (List.mem_singleton.mp hb ▸ hab ▸ ha)⟩
      · exact List.mem_append_left _ (h.payments sync hsync p hp)
  | begins strategyId force response => exact h.begin hs
  | inserts =>
    obtain ⟨sync, hsync, hinsert⟩ := Option.bind_eq_some_iff.mp hs
    exact h.insert hsync hset hinsert
  | commits =>
    rw [syncStep] at hs
    split at hs
    next sync hsync =>
      obtain ⟨-, rfl⟩ := Option.ite_none_right_eq_some.mp hs |>.imp_right Option.some.inj
      exact h.idle (h.rows sync hsync)
    next => cases hs
  | raises =>
    obtain ⟨-, rfl⟩ := Option.ite_none_right_eq_some.mp hs |>.imp_right Option.some.inj
    exact h.idle h.fees

/-- **Funding payments are attributed in full and once** in every run of settled
labels, from tables without funding rows. -/
theorem attributed_of_settled {labels : List SyncLabel} (hfees : s.fees = []) (hsync : s.sync = none)
    (hsettled : s.settled = []) (hids : ∀ st ∈ s.strategies, 0 < st.id)
    (hset : AllSteps syncStep (fun s l => s.Settled l = true) s labels)
    (hrun : run syncStep s labels = some s') : s'.Attributed := by
  have hstart : Inv s := by
    refine ⟨?_, ⟨?_, ?_⟩, ?_, ?_, ?_, hids⟩
    · rw [hsettled]
      exact List.nodup_nil
    · rw [hfees]
      exact fun r hr => by cases hr
    · rw [hsettled]
      exact fun q hq => by cases hq
    · rw [hsync]
      exact fun sync heq => by cases heq
    · rw [hsync]
      exact fun sync heq => by cases heq
    · rw [hsync]
      exact fun sync heq => by cases heq
  have hinv : Inv s' :=
    run_invariant_of_allSteps (fun _ _ _ h hok hstep => Inv.step h hok hstep) hstart hset hrun
  exact fun q hq hne => (hinv.fees.full q hq).resolve_left hne

end

/-! ## Two strategies -/

def longBtc (strategyId : ℕ) (size : ℚ) : PositionRow where
  strategyId := strategyId
  credentialId := 5
  symbol := "BTC/USDT".toList
  symbolCanonical := some "BTC/USDT".toList
  size := size

/-- Strategies 1 and 2 trade BTC/USDT with one credential. -/
def twoStrategies : Books where
  strategies :=
    [{ id := 1, userId := 1, exchangeId := "binance", credentialId := 5
       symbol := "BTC/USDT".toList, createdAt := some 0 },
     { id := 2, userId := 1, exchangeId := "binance", credentialId := 5
       symbol := "BTCUSDT".toList, createdAt := some 0 }]
  now := 1700000000000

/-- Funding of -3. -/
def funding : Payment where
  id := "77".toList
  symbol := "BTCUSDT".toList
  amount := -3
  time := 1699999990000

/-- A sync of the one payment. -/
def syncs (strategyId : ℕ) : List SyncLabel :=
  [.begins strategyId true [funding], .inserts, .commits]

theorem attributed_of_settled_closing :
    ∃ s, run syncStep twoStrategies
        ([.settles ⟨5, "binance", funding⟩, .moves [longBtc 1 1, longBtc 2 (-2)]] ++ syncs 1 ++
          [.moves [longBtc 2 (-2)], .ticks 300000] ++ syncs 2) = some s ∧ s.Attributed := by
  obtain ⟨s, hs⟩ := Option.isSome_iff_exists.mp
    (show (run syncStep twoStrategies
        ([.settles ⟨5, "binance", funding⟩, .moves [longBtc 1 1, longBtc 2 (-2)]] ++ syncs 1 ++
          [.moves [longBtc 2 (-2)], .ticks 300000] ++ syncs 2)).isSome by decide +kernel)
  exact ⟨s, hs, attributed_of_settled rfl rfl rfl (by decide +kernel) (by decide +kernel) hs⟩

/-- Strategy 2 opens its position after strategy 1 has been given the whole
payment, and is given its part of it as well. -/
theorem laterHolder_overAttributed :
    ∃ s, run syncStep twoStrategies
        ([.settles ⟨5, "binance", funding⟩, .moves [longBtc 1 1]] ++ syncs 1 ++
          [.moves [longBtc 1 1, longBtc 2 1]] ++ syncs 2) = some s ∧ ¬ s.Attributed := by
  obtain ⟨s, hs, q, hq, hne, hsum⟩ : ∃ s, run syncStep twoStrategies
      ([.settles ⟨5, "binance", funding⟩, .moves [longBtc 1 1]] ++ syncs 1 ++
        [.moves [longBtc 1 1, longBtc 2 1]] ++ syncs 2) = some s ∧
        ∃ q ∈ s.settled, recorded s.fees q.key ≠ [] ∧
          ((recorded s.fees q.key).map FundingFee.amount).sum ≠ q.payment.amount :=
    exists_of_any (by decide +kernel)
  exact ⟨s, hs, fun hall => hsum (hall q hq hne)⟩

end AlgoTrade.Funding
