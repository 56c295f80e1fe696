import AlgoTrade.Streams.Normalizers
import Mathlib.Data.List.Nodup
import Mathlib.Algebra.Order.BigOperators.Group.List

/-! # Projection of stream events into a quick trade

`project` is the transaction of `_process_quick_trade` on the row of
`qd_quick_trades`; `attempt` is a call of it, which applies an event at most once.

* `runs_eq`: any attempts amount to projecting the events in the order of their
  first success.
* `filledAmount_incremental`, `filledAmount_cumulative`: the quantity after that.
* `commission_projected`: the commission after that.
* `exact_iff_restLeftOut`: both are the exchange's exactly when the REST result had
  recorded what the projection leaves out. -/

namespace AlgoTrade.QuickTrade

/-! ## Rows -/

/-- A row of `qd_execution_fee_components`. -/
structure FeeRow where
  currency : String
  amount : ℚ
  quoteAmount : Option ℚ := none
  deriving DecidableEq, Repr

/-- A row of `qd_execution_events`, with its fee components. -/
structure Event where
  id : ℕ
  quantity : ℚ := 0
  cumulativeQuantity : ℚ := 0
  isCumulative : Bool := false
  price : ℚ := 0
  orderStatus : EventStatus := .other
  fees : List FeeRow := []
  deriving DecidableEq, Repr

inductive TradeStatus
  | submitted | partiallyFilled | filled | failed | cancelled
  deriving DecidableEq, Repr

/-- A row of `qd_quick_trades`. -/
structure Trade where
  filledAmount : ℚ := 0
  avgFillPrice : ℚ := 0
  commission : ℚ := 0
  commissionCcy : String := ""
  commissionQuote : Option ℚ := none
  status : TradeStatus := .submitted
  deriving DecidableEq, Repr

/-! ## The projection -/

/-- `not s.strip()`. -/
def blank (s : String) : Bool := s.toList.all Char.isWhitespace

/-- `s.upper()`. -/
def upper (s : String) : String := String.ofList (s.toList.map Char.toUpper)

def byCcy (fees : List FeeRow) : Fees :=
  fees.foldl (fun acc fee => addFee acc (upper fee.currency, fee.amount)) []

/-- The commission and the currency of an event that has fees. -/
def eventCommission (fees : List FeeRow) : ℚ × String :=
  match byCcy fees with
  | [(currency, amount)] => (amount, currency)
  | _ => (0, "MIXED")

/-- The quote fee, when every component has one. -/
def eventQuote (fees : List FeeRow) : Option ℚ :=
  if fees.all fun fee => fee.quoteAmount.isSome then
    some (fees.map fun fee => fee.quoteAmount.getD 0).sum
  else none

def Event.cumulative (e : Event) : Bool := e.isCumulative ∨ 0 < max 0 e.cumulativeQuantity

def total (t : Trade) (e : Event) : ℚ :=
  if e.cumulative then max t.filledAmount (max 0 e.cumulativeQuantity)
  -- the synchronous result already has the final fill
  else if e.orderStatus = .filled ∧ t.status = .filled ∧ 0 < t.filledAmount then t.filledAmount
  else t.filledAmount + max 0 e.quantity

def averagePrice (t : Trade) (e : Event) : ℚ :=
  let delta := max 0 (total t e - t.filledAmount)
  if 0 < total t e ∧ 0 < delta ∧ 0 < e.price then
    (t.filledAmount * t.avgFillPrice + delta * e.price) / total t e
  else orElse t.avgFillPrice e.price

/-- The row takes the event's fees only while it has no fee currency. -/
def takesFees (t : Trade) (e : Event) : Bool := e.fees ≠ [] ∧ blank t.commissionCcy

def project (t : Trade) (e : Event) : Trade :=
  { filledAmount := max t.filledAmount (total t e)
    avgFillPrice := if 0 < averagePrice t e then averagePrice t e else t.avgFillPrice
    commission := if takesFees t e then t.commission + (eventCommission e.fees).1 else t.commission
    commissionCcy := if takesFees t e then (eventCommission e.fees).2 else t.commissionCcy
    commissionQuote :=
      if blank t.commissionCcy then
        match if takesFees t e then eventQuote e.fees else t.commissionQuote with
        | some quote => some (t.commissionQuote.getD 0 + quote)
        | none => t.commissionQuote
      else t.commissionQuote
    status := if e.orderStatus = .filled then .filled else t.status }

/-- The row, and the events of `qd_execution_owner_projections`. -/
structure Projection where
  trade : Trade
  projected : List ℕ := []
  deriving DecidableEq, Repr

/-- A call of `_process_quick_trade`; one that fails is rolled back. -/
def attempt (s : Projection) (a : Event × Bool) : Projection :=
  if a.1.id ∈ s.projected ∨ a.2 = true then s
  else { trade := project s.trade a.1, projected := s.projected ++ [a.1.id] }

/-! ## Attempts -/

/-- The events in the order in which they are applied. -/
def applied (attempts : List (Event × Bool)) : List Event :=
  attempts.foldl
    (fun es a => if a.1.id ∈ es.map Event.id ∨ a.2 = true then es else es ++ [a.1]) []

section
variable {t : Trade} {attempts : List (Event × Bool)} {es : List Event} {e : Event}

/-- **Attempts** amount to applying each event once. -/
theorem runs_eq (t : Trade) (attempts : List (Event × Bool)) :
    attempts.foldl attempt { trade := t } =
      { trade := (applied attempts).foldl project t, projected := (applied attempts).map Event.id } := by
  have hgen : ∀ es : List Event,
      attempts.foldl attempt { trade := es.foldl project t, projected := es.map Event.id } =
        { trade := (attempts.foldl (fun es a =>
            if a.1.id ∈ es.map Event.id ∨ a.2 = true then es else es ++ [a.1]) es).foldl project t
          projected := (attempts.foldl (fun es a =>
            if a.1.id ∈ es.map Event.id ∨ a.2 = true then es else es ++ [a.1]) es).map Event.id } := by
    induction attempts with
    | nil => exact fun es => rfl
    | cons a as ih =>
      intro es
      rw [List.foldl_cons, List.foldl_cons, attempt]
      split
      · exact ih es
      · have := ih (es ++ [a.1])
        rw [List.foldl_append, List.map_append] at this
        exact this
  exact hgen []

theorem mem_applied (h : e ∈ applied attempts) : ∃ a ∈ attempts, a.1 = e := by
  have hgen : ∀ es : List Event, e ∈ attempts.foldl (fun es a =>
      if a.1.id ∈ es.map Event.id ∨ a.2 = true then es else es ++ [a.1]) es →
        e ∈ es ∨ ∃ a ∈ attempts, a.1 = e := by
    clear h
    induction attempts with
    | nil => exact fun es h => .inl h
    | cons a as ih =>
      intro es h
      rw [List.foldl_cons] at h
      rcases ih _ h with h | ⟨b, hb, rfl⟩
      · split at h
        · exact .inl h
        · rcases List.mem_append.mp h with h | h
          · exact .inl h
          · exact .inr ⟨a, List.mem_cons_self, (List.mem_singleton.mp h).symm⟩
      · exact .inr ⟨b, List.mem_cons_of_mem _ hb, rfl⟩
  exact (hgen [] h).resolve_left fun hnil => by cases hnil

theorem nodup_applied (attempts : List (Event × Bool)) :
    ((applied attempts).map Event.id).Nodup := by
  have hgen : ∀ es : List Event, (es.map Event.id).Nodup →
      ((attempts.foldl (fun es a =>
        if a.1.id ∈ es.map Event.id ∨ a.2 = true then es else es ++ [a.1]) es).map Event.id).Nodup := by
    induction attempts with
    | nil => exact fun es h => h
    | cons a as ih =>
      intro es h
      rw [List.foldl_cons]
      refine ih _ ?_
      split
      · exact h
      next hnew =>
        rw [List.map_append, List.nodup_append]
        refine ⟨h, List.nodup_singleton _, ?_⟩
        rintro x hx y hy rfl
        exact hnew (.inl (List.mem_singleton.mp hy ▸ hx))
  exact hgen [] List.nodup_nil

/-- Once every event has been processed, they have been applied in some order. -/
theorem applied_perm {events : List Event} (hids : (events.map Event.id).Nodup)
    (hfrom : ∀ a ∈ attempts, a.1 ∈ events)
    (hall : ∀ e ∈ events, e.id ∈ (attempts.foldl attempt { trade := t }).projected) :
    (applied attempts).Perm events := by
  rw [runs_eq] at hall
  have hsub : ∀ e ∈ applied attempts, e ∈ events := by
    intro e he
    obtain ⟨a, ha, rfl⟩ := mem_applied he
    exact hfrom a ha
  refine (List.perm_ext_iff_of_nodup (List.Nodup.of_map Event.id (nodup_applied attempts))
    (List.Nodup.of_map Event.id hids)).mpr fun e => ?_
  constructor
  · exact hsub e
  · intro he
    obtain ⟨e', he', hid⟩ := List.mem_map.mp (hall e he)
    exact List.inj_on_of_nodup_map hids (hsub e' he') he hid ▸ he'

/-! ## The quantity -/

theorem filledAmount_project (t : Trade) (e : Event) :
    (project t e).filledAmount = total t e := by
  refine max_eq_right ?_
  unfold total
  split
  · exact le_max_left _ _
  · split
    · exact le_rfl
    · exact le_add_of_nonneg_right (le_max_left _ _)

/-- Cumulative events up to the exchange's total, one of which tells it. -/
theorem filledAmount_cumulative {whole : ℚ} (hes : ∀ e ∈ es, e.cumulative = true)
    (hle : ∀ e ∈ es, max 0 e.cumulativeQuantity ≤ whole) (ht : t.filledAmount ≤ whole)
    (hlast : t.filledAmount = whole ∨ ∃ e ∈ es, max 0 e.cumulativeQuantity = whole) :
    (es.foldl project t).filledAmount = whole := by
  induction es generalizing t with
  | nil => exact hlast.resolve_right (by rintro ⟨e, he, -⟩; cases he)
  | cons e es ih =>
    have htotal : (project t e).filledAmount = max t.filledAmount (max 0 e.cumulativeQuantity) := by
      rw [filledAmount_project, total, if_pos (hes e List.mem_cons_self)]
    have hbound := hle e List.mem_cons_self
    refine ih (fun x hx => hes x (List.mem_cons_of_mem _ hx))
      (fun x hx => hle x (List.mem_cons_of_mem _ hx)) ?_ ?_
    · rw [htotal]
      exact max_le ht hbound
    · rw [htotal]
      rcases hlast with heq | ⟨x, hx, heq⟩
      · exact .inl ((max_eq_left (heq ▸ hbound)).trans heq)
      · rcases List.mem_cons.mp hx with rfl | hx
        · exact .inl ((max_eq_right (heq ▸ ht)).trans heq)
        · exact .inr ⟨x, hx, heq⟩

/-- Incremental events none of which completes the order. -/
theorem filledAmount_added (hes : ∀ e ∈ es, e.cumulative = false ∧ 0 ≤ e.quantity)
    (hopen : ∀ e ∈ es, e.orderStatus ≠ .filled) :
    (es.foldl project t).filledAmount = t.filledAmount + (es.map Event.quantity).sum ∧
      (es.foldl project t).status = t.status := by
  induction es generalizing t with
  | nil => exact ⟨(add_zero _).symm, rfl⟩
  | cons e es ih =>
    obtain ⟨hinc, hnonneg⟩ := hes e List.mem_cons_self
    have hnot := hopen e List.mem_cons_self
    have htotal : (project t e).filledAmount = t.filledAmount + e.quantity := by
      rw [filledAmount_project, total, if_neg (by rw [hinc]; decide), if_neg fun h => hnot h.1,
        max_eq_right hnonneg]
    have hstatus : (project t e).status = t.status := if_neg hnot
    obtain ⟨hfilled, hst⟩ := ih (t := project t e) (fun x hx => hes x (List.mem_cons_of_mem _ hx))
      fun x hx => hopen x (List.mem_cons_of_mem _ hx)
    refine ⟨?_, hst.trans hstatus⟩
    rw [List.foldl_cons, hfilled, htotal, List.map_cons, List.sum_cons, add_assoc]

/-- The quantity the projection leaves out of incremental events: the one of the
completing fill, when the row is filled before it. -/
def leftOutQuantity (rest : Trade) (order : List Event) : ℚ :=
  match order.find? fun e => e.orderStatus = .filled with
  | some e =>
    if rest.status = .filled ∧ (0 < rest.filledAmount ∨ order.head? ≠ some e) then e.quantity else 0
  | none => 0

theorem head_ne_iff {a b : List Event} (he : e ∉ a) : (a ++ e :: b).head? ≠ some e ↔ a ≠ [] := by
  cases a with
  | nil => simp
  | cons x a =>
    refine ⟨fun _ => List.cons_ne_nil x a, fun _ heq => he ?_⟩
    rw [List.cons_append, List.head?_cons, Option.some.injEq] at heq
    exact heq ▸ List.mem_cons_self

theorem filledAmount_incremental (hes : ∀ e ∈ es, e.cumulative = false ∧ 0 < e.quantity)
    (hone : es.Pairwise fun x y => ¬ (x.orderStatus = .filled ∧ y.orderStatus = .filled))
    (ht : 0 ≤ t.filledAmount) :
    (es.foldl project t).filledAmount =
      t.filledAmount + (es.map Event.quantity).sum - leftOutQuantity t es := by
  have hle : ∀ e ∈ es, e.cumulative = false ∧ 0 ≤ e.quantity := fun e he => ⟨(hes e he).1, (hes e he).2.le⟩
  unfold leftOutQuantity
  cases hfind : es.find? fun e => e.orderStatus = .filled with
  | none =>
    have hopen : ∀ e ∈ es, e.orderStatus ≠ .filled := by
      intro e he
      simpa using List.find?_eq_none.mp hfind e he
    rw [(filledAmount_added hle hopen).1, sub_zero]
  | some e =>
    obtain ⟨he, a, b, rfl, hbefore⟩ := List.find?_eq_some_iff_append.mp hfind
    have hfilled : e.orderStatus = .filled := of_decide_eq_true he
    have hopena : ∀ x ∈ a, x.orderStatus ≠ .filled := fun x hx => by simpa using hbefore x hx
    have hopenb : ∀ x ∈ b, x.orderStatus ≠ .filled := by
      intro x hx hxfilled
      exact (List.pairwise_cons.mp (List.pairwise_append.mp hone).2.1).1 x hx ⟨hfilled, hxfilled⟩
    have hnota : e ∉ a := fun hmem => hopena e hmem hfilled
    have hea := fun x hx => hle x (List.mem_append_left _ hx)
    have heb := fun x hx => hle x (List.mem_append_right _ (List.mem_cons_of_mem _ hx))
    obtain ⟨hinc, hpos⟩ := hes e (List.mem_append_right _ List.mem_cons_self)
    obtain ⟨hsuma, hstatus⟩ := filledAmount_added (t := t) hea hopena
    -- the row holds something before the completing event
    have hprev : 0 < (a.foldl project t).filledAmount ↔ 0 < t.filledAmount ∨ a ≠ [] := by
      rw [hsuma]
      have hnonneg : ∀ q ∈ a.map Event.quantity, 0 ≤ q := by
        intro q hq
        obtain ⟨x, hx, rfl⟩ := List.mem_map.mp hq
        exact (hea x hx).2
      constructor
      · intro hlt
        rw [or_iff_not_imp_right, not_not]
        rintro rfl
        simpa using hlt
      · rintro (hlt | hne)
        · exact add_pos_of_pos_of_nonneg hlt (List.sum_nonneg hnonneg)
        · obtain ⟨x, a', rfl⟩ := List.exists_cons_of_ne_nil hne
          have hx := (hes x (List.mem_append_left _ List.mem_cons_self)).2
          rw [List.map_cons, List.sum_cons]
          refine add_pos_of_nonneg_of_pos ht (add_pos_of_pos_of_nonneg hx (List.sum_nonneg ?_))
          exact fun q hq => hnonneg q (List.mem_cons_of_mem _ hq)
    have htotal : (project (a.foldl project t) e).filledAmount =
        t.filledAmount + (a.map Event.quantity).sum + e.quantity -
          (if t.status = .filled ∧ (0 < t.filledAmount ∨ (a ++ e :: b).head? ≠ some e) then e.quantity
           else 0) := by
      have hskips : (e.orderStatus = .filled ∧ (a.foldl project t).status = .filled ∧
          0 < (a.foldl project t).filledAmount) ↔
          t.status = .filled ∧ (0 < t.filledAmount ∨ (a ++ e :: b).head? ≠ some e) := by
        rw [hstatus, hprev, head_ne_iff hnota]
        exact ⟨And.right, fun h => ⟨hfilled, h⟩⟩
      rw [filledAmount_project, total, if_neg (by rw [hinc]; decide)]
      by_cases hskip : t.status = .filled ∧ (0 < t.filledAmount ∨ (a ++ e :: b).head? ≠ some e)
      · rw [if_pos (hskips.mpr hskip), if_pos hskip, hsuma]
        ring
      · rw [if_neg fun h => hskip (hskips.mp h), if_neg hskip, max_eq_right hpos.le, hsuma]
        ring
    rw [List.foldl_append, List.foldl_cons, (filledAmount_added heb hopenb).1, htotal, List.map_append,
      List.sum_append, List.map_cons, List.sum_cons]
    ring

/-! ## The commission -/

def feeTotal (fees : List FeeRow) : ℚ := (fees.map FeeRow.amount).sum

/-- The fees the projection leaves out: all of them when the row has a fee currency,
else those of every event but the first that has fees, and the first's as well when
they are in several currencies. -/
def leftOutFees (rest : Trade) (order : List Event) : ℚ :=
  match order.filter fun e => e.fees ≠ [] with
  | [] => 0
  | e :: later =>
    (if blank rest.commissionCcy then feeTotal e.fees - (eventCommission e.fees).1
     else feeTotal e.fees) + (later.map fun e => feeTotal e.fees).sum

theorem commission_kept (h : takesFees t e = false) :
    (project t e).commission = t.commission ∧ (project t e).commissionCcy = t.commissionCcy := by
  constructor
  · show (if takesFees t e then _ else _) = _
    rw [h]
    rfl
  · show (if takesFees t e then _ else _) = _
    rw [h]
    rfl

theorem takesFees_of_nil (h : e.fees = []) : takesFees t e = false :=
  decide_eq_false fun hboth => hboth.1 h

theorem takesFees_of_known (h : blank t.commissionCcy = false) : takesFees t e = false :=
  decide_eq_false fun hboth => by
    rw [h] at hboth
    cases hboth.2

/-- A row with a fee currency keeps its commission. -/
theorem commission_known (h : blank t.commissionCcy = false) :
    (es.foldl project t).commission = t.commission := by
  induction es generalizing t with
  | nil => rfl
  | cons e es ih =>
    obtain ⟨hcommission, hccy⟩ := commission_kept (takesFees_of_known (e := e) h)
    rw [List.foldl_cons, ih (hccy ▸ h), hcommission]

/-- Fees whose currencies have names. -/
def Named (fees : List FeeRow) : Prop := ∀ fee ∈ fees, blank (upper fee.currency) = false

theorem named_addFee {fees : Fees} (component : FeeComponent)
    (hfees : ∀ x ∈ fees, blank x.1 = false) (hc : blank component.1 = false) :
    addFee fees component ≠ [] ∧ ∀ x ∈ addFee fees component, blank x.1 = false := by
  unfold addFee
  split
  next hany =>
    refine ⟨fun hnil => ?_, ?_⟩
    · rw [List.map_eq_nil_iff] at hnil
      rw [hnil] at hany
      cases hany
    · intro x hx
      obtain ⟨y, hy, rfl⟩ := List.mem_map.mp hx
      split
      · exact hfees y hy
      · exact hfees y hy
  next =>
    refine ⟨by simp, fun x hx => ?_⟩
    rcases List.mem_append.mp hx with hx | hx
    · exact hfees x hx
    · rw [List.mem_singleton.mp hx]
      exact hc

theorem blank_eventCommission {fees : List FeeRow} (hne : fees ≠ []) (hnamed : Named fees) :
    blank (eventCommission fees).2 = false := by
  have hgen : ∀ acc : Fees, (acc ≠ [] ∨ fees ≠ []) → (∀ x ∈ acc, blank x.1 = false) →
      fees.foldl (fun acc fee => addFee acc (upper fee.currency, fee.amount)) acc ≠ [] ∧
        ∀ x ∈ fees.foldl (fun acc fee => addFee acc (upper fee.currency, fee.amount)) acc,
          blank x.1 = false := by
    clear hne
    induction fees with
    | nil => exact fun acc h hacc => ⟨h.resolve_right fun h => h rfl, hacc⟩
    | cons fee fees ih =>
      intro acc _ hacc
      obtain ⟨hne, hacc'⟩ := named_addFee (upper fee.currency, fee.amount) hacc
        (hnamed fee List.mem_cons_self)
      exact ih (fun x hx => hnamed x (List.mem_cons_of_mem _ hx)) _ (.inl hne) hacc'
  obtain ⟨-, hall⟩ := hgen [] (.inr hne) fun x hx => by cases hx
  unfold eventCommission
  split
  next currency amount hby => exact hall (currency, amount) (by
    show _ ∈ byCcy fees
    rw [hby]
    exact List.mem_singleton_self _)
  next => decide

theorem sum_withFees (es : List Event) :
    ((es.filter fun e => e.fees ≠ []).map fun e => feeTotal e.fees).sum =
      (es.map fun e => feeTotal e.fees).sum := by
  induction es with
  | nil => rfl
  | cons e es ih =>
    by_cases h : e.fees = []
    · rw [List.filter_cons_of_neg (by simpa using h), ih, List.map_cons, List.sum_cons, h]
      exact (zero_add _).symm
    · rw [List.filter_cons_of_pos (by simpa using h), List.map_cons, List.map_cons, List.sum_cons,
        List.sum_cons, ih]

/-- **The commission** misses what the projection leaves out. -/
theorem commission_projected (hnamed : ∀ e ∈ es, Named e.fees) :
    (es.foldl project t).commission =
      t.commission + (es.map fun e => feeTotal e.fees).sum - leftOutFees t es := by
  induction es generalizing t with
  | nil =>
    show t.commission = t.commission + 0 - 0
    rw [add_zero, sub_zero]
  | cons e es ih =>
    have hlater := fun x hx => hnamed x (List.mem_cons_of_mem e hx)
    by_cases hfees : e.fees = []
    · obtain ⟨hcommission, hccy⟩ := commission_kept (takesFees_of_nil (t := t) hfees)
      have hleft : leftOutFees t (e :: es) = leftOutFees (project t e) es := by
        unfold leftOutFees
        rw [List.filter_cons_of_neg (by simpa using hfees), hccy]
      rw [List.foldl_cons, ih hlater, hcommission, hleft, List.map_cons, List.sum_cons, hfees]
      show _ = t.commission + (0 + _) - _
      rw [zero_add]
    · have hleft : leftOutFees t (e :: es) =
          (if blank t.commissionCcy then feeTotal e.fees - (eventCommission e.fees).1
           else feeTotal e.fees) + (es.map fun e => feeTotal e.fees).sum := by
        unfold leftOutFees
        rw [List.filter_cons_of_pos (by simpa using hfees)]
        exact congrArg _ (sum_withFees es)
      rw [hleft, List.map_cons, List.sum_cons]
      cases hblank : blank t.commissionCcy with
      | false =>
        rw [commission_known hblank, if_neg (by decide)]
        ring
      | true =>
        have htakes : takesFees t e = true := decide_eq_true ⟨hfees, hblank⟩
        have hcommission : (project t e).commission = t.commission + (eventCommission e.fees).1 := by
          show (if takesFees t e then _ else _) = _
          rw [htakes]
          rfl
        have hccy : blank (project t e).commissionCcy = false := by
          show blank (if takesFees t e then _ else _) = false
          rw [htakes]
          exact blank_eventCommission hfees (hnamed e List.mem_cons_self)
        rw [List.foldl_cons, commission_known hccy, hcommission, if_pos rfl]
        ring

end

/-! ## The stream -/

/-- One fill of the order. -/
structure Fill where
  quantity : ℚ
  fees : List FeeRow
  deriving DecidableEq, Repr

/-- The stream reports each fill once, with its fees, by increments or cumulatively,
and only the last one as completing the order. -/
structure Streams (fills : List Fill) (events : List Event) (cumulative : Bool) : Prop where
  positive : ∀ f ∈ fills, 0 < f.quantity ∧ Named f.fees
  length : events.length = fills.length
  ids : (events.map Event.id).Nodup
  reports : ∀ (i : ℕ) (f : Fill) (e : Event), fills[i]? = some f → events[i]? = some e →
    e.fees = f.fees ∧ (e.orderStatus = .filled → i + 1 = fills.length) ∧
      if cumulative then e.cumulativeQuantity = ((fills.take (i + 1)).map Fill.quantity).sum
      else e.isCumulative = false ∧ e.cumulativeQuantity = 0 ∧ e.quantity = f.quantity

/-- The row has what the exchange has filled and charged. -/
def Exact (fills : List Fill) (t : Trade) : Prop :=
  t.filledAmount = (fills.map Fill.quantity).sum ∧
    t.commission = (fills.map fun f => feeTotal f.fees).sum

/-- The synchronous result had recorded what the projection leaves out. -/
def RestLeftOut (rest : Trade) (cumulative : Bool) (order : List Event) : Prop :=
  (cumulative = true ∨ rest.filledAmount = leftOutQuantity rest order) ∧
    rest.commission = leftOutFees rest order

section
variable {fills : List Fill} {events order : List Event} {cumulative : Bool} {rest : Trade}

/-- Fills and events at the same place. -/
theorem Streams.map_eq {β : Type*} (h : Streams fills events cumulative) {g : Event → β} {f : Fill → β}
    (hgf : ∀ (i : ℕ) (x : Fill) (e : Event), fills[i]? = some x → events[i]? = some e → g e = f x) :
    events.map g = fills.map f := by
  refine List.ext_getElem? fun i => ?_
  rw [List.getElem?_map, List.getElem?_map]
  rcases Nat.lt_or_ge i fills.length with hlt | hge
  · have hlt' : i < events.length := h.length ▸ hlt
    rw [List.getElem?_eq_getElem hlt, List.getElem?_eq_getElem hlt']
    exact congrArg some (hgf i _ _ (List.getElem?_eq_getElem hlt) (List.getElem?_eq_getElem hlt'))
  · rw [List.getElem?_eq_none hge, List.getElem?_eq_none (h.length ▸ hge)]
    rfl

theorem Streams.fill_of_mem (h : Streams fills events cumulative) {e : Event} (he : e ∈ events) :
    ∃ (i : ℕ) (f : Fill), fills[i]? = some f ∧ events[i]? = some e := by
  obtain ⟨i, hi⟩ := List.mem_iff_getElem?.mp he
  have hlt : i < fills.length := h.length ▸ (List.getElem?_eq_some_iff.mp hi).1
  exact ⟨i, fills[i], List.getElem?_eq_getElem hlt, hi⟩

theorem Streams.fees (h : Streams fills events cumulative) :
    events.map (fun e => feeTotal e.fees) = fills.map fun f => feeTotal f.fees :=
  h.map_eq fun i f e hf he => congrArg feeTotal (h.reports i f e hf he).1

theorem Streams.named (h : Streams fills events cumulative) {e : Event} (he : e ∈ events) :
    Named e.fees := by
  obtain ⟨i, f, hf, hi⟩ := h.fill_of_mem he
  rw [(h.reports i f e hf hi).1]
  exact (h.positive f (List.mem_of_getElem? hf)).2

theorem Streams.sum_take_le (h : Streams fills events cumulative) (k : ℕ) :
    ((fills.take k).map Fill.quantity).sum ≤ (fills.map Fill.quantity).sum := by
  have hdrop : 0 ≤ ((fills.drop k).map Fill.quantity).sum := by
    refine List.sum_nonneg fun q hq => ?_
    obtain ⟨f, hf, rfl⟩ := List.mem_map.mp hq
    exact (h.positive f (List.mem_of_mem_drop hf)).1.le
  calc ((fills.take k).map Fill.quantity).sum
      ≤ ((fills.take k).map Fill.quantity).sum + ((fills.drop k).map Fill.quantity).sum :=
        le_add_of_nonneg_right hdrop
    _ = (fills.map Fill.quantity).sum := by
        rw [← List.sum_append, ← List.map_append, List.take_append_drop]

theorem Streams.sum_take_nonneg (h : Streams fills events cumulative) (k : ℕ) :
    0 ≤ ((fills.take k).map Fill.quantity).sum := by
  refine List.sum_nonneg fun q hq => ?_
  obtain ⟨f, hf, rfl⟩ := List.mem_map.mp hq
  exact (h.positive f (List.mem_of_mem_take hf)).1.le

theorem Streams.cumulativeQuantity (h : Streams fills events true) {e : Event} (he : e ∈ events) :
    ∃ k, k < fills.length ∧ events[k]? = some e ∧
      e.cumulativeQuantity = ((fills.take (k + 1)).map Fill.quantity).sum := by
  obtain ⟨i, f, hf, hi⟩ := h.fill_of_mem he
  exact ⟨i, (List.getElem?_eq_some_iff.mp hf).1, hi, (h.reports i f e hf hi).2.2⟩

/-- Cumulative events end at the exchange's quantity. -/
theorem Streams.filledAmount_of_cumulative (h : Streams fills events true) (hperm : order.Perm events)
    {m : ℕ} (hrest : rest.filledAmount = ((fills.take m).map Fill.quantity).sum) :
    (order.foldl project rest).filledAmount = (fills.map Fill.quantity).sum := by
  have hmax : ∀ e ∈ order, max 0 e.cumulativeQuantity = e.cumulativeQuantity ∧
      e.cumulativeQuantity ≤ (fills.map Fill.quantity).sum := by
    intro e he
    obtain ⟨k, -, -, hcum⟩ := h.cumulativeQuantity (hperm.mem_iff.mp he)
    rw [hcum]
    exact ⟨max_eq_right (h.sum_take_nonneg _), h.sum_take_le _⟩
  refine filledAmount_cumulative ?_ (fun e he => ?_) (hrest ▸ h.sum_take_le m) ?_
  · intro e he
    obtain ⟨k, hk, hi, hcum⟩ := h.cumulativeQuantity (hperm.mem_iff.mp he)
    have hpos : 0 < e.cumulativeQuantity := by
      rw [hcum, List.take_succ_eq_append_getElem hk, List.map_append, List.sum_append]
      have hlast := (h.positive fills[k] (List.getElem_mem hk)).1
      exact add_pos_of_nonneg_of_pos (h.sum_take_nonneg k) (by simpa using hlast)
    exact decide_eq_true (.inr (lt_max_of_lt_right hpos))
  · obtain ⟨heq, hle⟩ := hmax e he
    rw [heq]
    exact hle
  · cases hlen : fills.length with
    | zero =>
      rw [List.length_eq_zero_iff] at hlen
      rw [hrest, hlen]
      simp
    | succ n =>
      -- the event of the last fill tells the whole quantity
      have hlt : n < events.length := by rw [h.length, hlen]; exact Nat.lt_succ_self n
      have hltf : n < fills.length := by rw [hlen]; exact Nat.lt_succ_self n
      have hmem : events[n] ∈ order := hperm.mem_iff.mpr (List.getElem_mem hlt)
      have hreports := (h.reports n fills[n] events[n] (List.getElem?_eq_getElem hltf)
        (List.getElem?_eq_getElem hlt)).2.2
      rw [if_pos rfl, ← hlen, List.take_length] at hreports
      exact .inr ⟨events[n], hmem, (hmax _ hmem).1.trans hreports⟩

/-- At most one event completes the order. -/
theorem Streams.completes_once (h : Streams fills events cumulative) (hperm : order.Perm events) :
    order.Pairwise fun x y => ¬ (x.orderStatus = .filled ∧ y.orderStatus = .filled) := by
  have hnodup : order.Nodup := hperm.nodup_iff.mpr (List.Nodup.of_map Event.id h.ids)
  refine List.Pairwise.imp_of_mem ?_ hnodup
  rintro x y hx hy hne ⟨hxf, hyf⟩
  obtain ⟨i, f, hf, hi⟩ := h.fill_of_mem (hperm.mem_iff.mp hx)
  obtain ⟨j, g, hg, hj⟩ := h.fill_of_mem (hperm.mem_iff.mp hy)
  have hij : i + 1 = j + 1 :=
    ((h.reports i f x hf hi).2.1 hxf).trans ((h.reports j g y hg hj).2.1 hyf).symm
  rw [Nat.add_right_cancel hij] at hi
  exact hne (Option.some.inj (hi.symm.trans hj))

theorem Streams.filledAmount_of_incremental (h : Streams fills events false)
    (hperm : order.Perm events) {m : ℕ}
    (hrest : rest.filledAmount = ((fills.take m).map Fill.quantity).sum) :
    (order.foldl project rest).filledAmount =
      rest.filledAmount + (fills.map Fill.quantity).sum - leftOutQuantity rest order := by
  have hquantity : events.map Event.quantity = fills.map Fill.quantity :=
    h.map_eq fun i f e hf he => (h.reports i f e hf he).2.2.2.2
  have hes : ∀ e ∈ order, e.cumulative = false ∧ 0 < e.quantity := by
    intro e he
    obtain ⟨i, f, hf, hi⟩ := h.fill_of_mem (hperm.mem_iff.mp he)
    obtain ⟨hinc, hzero, hq⟩ := (h.reports i f e hf hi).2.2
    refine ⟨decide_eq_false ?_, hq ▸ (h.positive f (List.mem_of_getElem? hf)).1⟩
    rw [hinc, hzero]
    decide
  rw [filledAmount_incremental hes (h.completes_once hperm) (hrest ▸ h.sum_take_nonneg m),
    (hperm.map Event.quantity).sum_eq, hquantity]

/-- **The projection is exact** after all events, in any order and with any repeated
or failed attempts, exactly when the synchronous result had recorded what the
projection leaves out. -/
theorem exact_iff_restLeftOut {attempts : List (Event × Bool)} {m : ℕ}
    (hstream : Streams fills events cumulative)
    (hrest : rest.filledAmount = ((fills.take m).map Fill.quantity).sum)
    (hfrom : ∀ a ∈ attempts, a.1 ∈ events)
    (hall : ∀ e ∈ events, e.id ∈ (attempts.foldl attempt { trade := rest }).projected) :
    Exact fills (attempts.foldl attempt { trade := rest }).trade ↔
      RestLeftOut rest cumulative (applied attempts) := by
  have hperm := applied_perm hstream.ids hfrom hall
  rw [runs_eq]
  have hcommission : ((applied attempts).foldl project rest).commission =
      (fills.map fun f => feeTotal f.fees).sum ↔ rest.commission = leftOutFees rest (applied attempts) := by
    rw [commission_projected fun e he => hstream.named (hperm.mem_iff.mp he),
      (hperm.map fun e => feeTotal e.fees).sum_eq, hstream.fees]
    constructor <;> intro h <;> linarith
  have hfilled : ((applied attempts).foldl project rest).filledAmount =
      (fills.map Fill.quantity).sum ↔
        cumulative = true ∨ rest.filledAmount = leftOutQuantity rest (applied attempts) := by
    cases cumulative with
    | true => exact iff_of_true (hstream.filledAmount_of_cumulative hperm hrest) (.inl rfl)
    | false =>
      rw [hstream.filledAmount_of_incremental hperm hrest]
      constructor
      · intro h
        exact .inr (by linarith)
      · rintro (h | h)
        · cases h
        · linarith
  exact and_congr hfilled hcommission

end

/-! ## One order -/

instance (fees : List FeeRow) : Decidable (Named fees) :=
  inferInstanceAs (Decidable (∀ fee ∈ fees, blank (upper fee.currency) = false))

/-- Two fills with fees in one currency. -/
def twoFills : List Fill :=
  [⟨1, [⟨"USDT", 1 / 10, none⟩]⟩, ⟨2, [⟨"USDT", 1 / 5, none⟩]⟩]

def twoIncrements : List Event :=
  [{ id := 1, quantity := 1, price := 100, fees := [⟨"USDT", 1 / 10, none⟩] },
   { id := 2, quantity := 2, price := 100, orderStatus := .filled, fees := [⟨"USDT", 1 / 5, none⟩] }]

theorem streams_twoIncrements : Streams twoFills twoIncrements false := by
  refine ⟨by decide +kernel, rfl, by decide, fun i f e hf he => ?_⟩
  match i with
  | 0 =>
    obtain rfl := Option.some.inj hf
    obtain rfl := Option.some.inj he
    decide +kernel
  | 1 =>
    obtain rfl := Option.some.inj hf
    obtain rfl := Option.some.inj he
    decide +kernel
  | i + 2 => cases hf

theorem streams_wholeOrder :
    Streams (twoFills.drop 1) (twoIncrements.drop 1) false := by
  refine ⟨by decide +kernel, rfl, by decide, fun i f e hf he => ?_⟩
  match i with
  | 0 =>
    obtain rfl := Option.some.inj hf
    obtain rfl := Option.some.inj he
    decide +kernel
  | i + 1 => cases hf

/-- An order of one fill that the result had whole, without a fee. -/
theorem exact_iff_restLeftOut_wholeOrder :
    Exact (twoFills.drop 1) ([(twoIncrements[1], true), (twoIncrements[1], false),
      (twoIncrements[1], false)].foldl attempt
        { trade := { filledAmount := 2, avgFillPrice := 100, status := .filled } }).trade :=
  (exact_iff_restLeftOut (m := 1) streams_wholeOrder (by decide +kernel) (by decide +kernel)
    (by decide +kernel)).mpr ⟨.inr (by decide +kernel), by decide +kernel⟩

/-- The result was taken after the first fill and named no fee. -/
def afterFirst : Trade where
  filledAmount := 1
  avgFillPrice := 100
  status := .partiallyFilled

/-- The first fill is added again, and the second one's fee is dropped. -/
theorem partialSnapshot_misprojects :
    Streams twoFills twoIncrements false ∧
      afterFirst.filledAmount = ((twoFills.take 1).map Fill.quantity).sum ∧
        ∃ t, (twoIncrements.map fun e => (e, false)).foldl attempt { trade := afterFirst } =
            { trade := t, projected := twoIncrements.map Event.id } ∧
          t.filledAmount = 4 ∧ t.commission = 1 / 10 ∧ ¬ Exact twoFills t := by
  refine ⟨streams_twoIncrements, by decide +kernel, _, rfl, by decide +kernel, by decide +kernel, ?_⟩
  intro h
  exact absurd h.1 (by decide +kernel)

end AlgoTrade.QuickTrade
