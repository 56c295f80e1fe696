import AlgoTrade.Funding.BrokerActivities
import AlgoTrade.Lib.Runs
import Mathlib.Algebra.Order.BigOperators.Group.List
import Mathlib.Tactic.Linarith

/-! # Broker activities are attributed within the account's amount

* `Books.Attributed`: the rows of an activity are within its amount, and the rows of an
  order's commissions with what its trades booked cover the commissions.
* `Books.Settled`: an activity gets its rows in one sync, within its amount, and a booked
  commission is taken off once.
* `activities_attributed`: the law in every run of settled labels.
* `twoCommissions_fallShort`, `laterPosition_exceeds`: the two ways it fails. -/

namespace AlgoTrade.BrokerActivities

open Runs
open Funding (strip storedDecimal)

/-! ## What is claimed -/

/-- The rows of an activity. -/
def recordedFor (rows : List ActivityRow) (key : ℕ × List Char) : List ActivityRow :=
  rows.filter fun r => r.key = key

/-- What the rows of an activity come to. -/
def total (rows : List ActivityRow) (key : ℕ × List Char) : ℚ :=
  ((recordedFor rows key).map fun r => |r.amount|).sum

/-- What a strategy's rows of an activity come to. -/
def recordedBy (rows : List ActivityRow) (key : ℕ × List Char) (strategyId : ℕ) : ℚ :=
  (((recordedFor rows key).filter fun r => r.strategyId = strategyId).map fun r => |r.amount|).sum

/-- The commission booked with an order's trades. -/
def bookedCommission (t : Tables) (credentialId : ℕ) (orderId : String) : ℚ :=
  max 0 ((((orderOwners t credentialId).get? orderId).map Owner.recordedCommission).getD 0)

/-- The commissions charged for a strategy's order. -/
def Recorded.commissionsOf (rec : Recorded) (credentialId strategyId : ℕ) (orderId : String) :
    List OrderCharge :=
  rec.commissions.filter fun e =>
    e.charge.credentialId = credentialId ∧ e.strategyId = strategyId ∧ e.orderId = orderId

def charged (es : List OrderCharge) : ℚ := (es.map fun e => |e.charge.activity.netAmount|).sum

def coverage (rows : List ActivityRow) (es : List OrderCharge) : ℚ :=
  (es.map fun e => recordedBy rows e.charge.key e.strategyId).sum

/-- Nothing is attributed beyond an activity's amount, and no commission falls short. -/
structure Books.Attributed (s : Books) : Prop where
  within : ∀ q ∈ s.charges, total s.recorded.rows q.key ≤ |q.activity.netAmount|
  covered : ∀ credentialId strategyId orderId,
    charged (s.recorded.commissionsOf credentialId strategyId orderId) ≤
      coverage s.recorded.rows (s.recorded.commissionsOf credentialId strategyId orderId) +
        bookedCommission s.tables credentialId orderId

/-! ## The condition -/

/-- The shares of an activity without rows are within its amount; an activity that has
rows gets none for another strategy. -/
def Sync.SharesOnce (sync : Sync) (t : Tables) (a : Activity) : Prop :=
  let key := (sync.credentialId, strip a.id)
  let shares := (sync.allocations t a).filter fun al => al.valid a
  if recordedFor sync.recorded.rows key = [] then
    (shares.map fun al => |storedDecimal 8 (allocatedAmount a al)|).sum ≤ |a.netAmount|
  else ∀ al ∈ shares, ∃ r ∈ recordedFor sync.recorded.rows key, r.strategyId = al.strategyId

/-- A commission that is new for the order's strategy fits the column, and what the
trades booked covers what is taken off it and was taken off before. -/
def Sync.OffsetOnce (sync : Sync) (a : Activity) : Prop :=
  ∀ e owner, sync.orderCharge a = some (e, owner) → e ∉ sync.recorded.commissions →
    let es := sync.recorded.commissionsOf sync.credentialId e.strategyId e.orderId
    let booked := max 0 owner.recordedCommission
    (∀ r ∈ recordedFor sync.recorded.rows e.charge.key, r.strategyId ≠ e.strategyId) ∧
      storedDecimal 8 a.netAmount = a.netAmount ∧ storedDecimal 8 booked = booked ∧
      charged es - coverage sync.recorded.rows es + min booked |a.netAmount| ≤ booked

/-- The orders whose booked commission something rests on. -/
def Books.watched (s : Books) : List (ℕ × String) :=
  let ordersOf := fun rec : Recorded =>
    rec.commissions.map fun e => (e.charge.credentialId, e.orderId)
  ordersOf s.recorded ++ match s.sync with
    | none => []
    | some sync => ordersOf sync.recorded ++ sync.owners.keys.map fun o => (sync.credentialId, o)

def Books.Settled (s : Books) : Label → Prop
  | .changes tables => ∀ w ∈ s.watched,
      bookedCommission s.tables w.1 w.2 ≤ bookedCommission tables w.1 w.2
  | .inserts => ∀ sync ∈ s.sync, ∀ a ∈ sync.activities.head?, accepts a = true →
      sync.SharesOnce s.tables a ∧ sync.OffsetOnce a
  | _ => True

instance (sync : Sync) (t : Tables) (a : Activity) : Decidable (sync.SharesOnce t a) :=
  inferInstanceAs (Decidable (ite _ _ _))

instance (sync : Sync) (a : Activity) : Decidable (sync.OffsetOnce a) :=
  decidable_of_iff (∀ p ∈ sync.orderCharge a, p.1 ∉ sync.recorded.commissions →
    let es := sync.recorded.commissionsOf sync.credentialId p.1.strategyId p.1.orderId
    let booked := max 0 p.2.recordedCommission
    (∀ r ∈ recordedFor sync.recorded.rows p.1.charge.key, r.strategyId ≠ p.1.strategyId) ∧
      storedDecimal 8 a.netAmount = a.netAmount ∧ storedDecimal 8 booked = booked ∧
      charged es - coverage sync.recorded.rows es + min booked |a.netAmount| ≤ booked)
    ⟨fun h e owner heq => h (e, owner) heq, fun h p heq => h p.1 p.2 heq⟩

instance (s : Books) (l : Label) : Decidable (s.Settled l) :=
  match l with
  | .changes _ => inferInstanceAs (Decidable (∀ w ∈ s.watched, _))
  | .inserts => inferInstanceAs (Decidable (∀ sync ∈ s.sync, ∀ a ∈ sync.activities.head?,
      accepts a = true → sync.SharesOnce s.tables a ∧ sync.OffsetOnce a))
  | .deletes _ | .charges _ | .begins .. | .commits | .raises => .isTrue trivial

/-! ## Rows -/

section
variable {rows rows' : List ActivityRow} {key : ℕ × List Char} {credentialId : ℕ} {a : Activity}
  {als : List Allocation} {al : Allocation}

theorem total_append (rows : List ActivityRow) (r : ActivityRow) :
    total (rows ++ [r]) key = total rows key + if r.key = key then |r.amount| else 0 := by
  unfold total recordedFor
  rw [List.filter_append, List.map_append, List.sum_append, List.filter_singleton]
  by_cases h : r.key = key
  · rw [if_pos h, decide_eq_true h]
    simp
  · rw [if_neg h, decide_eq_false h]
    simp

theorem recordedBy_append (rows : List ActivityRow) (r : ActivityRow) {strategyId : ℕ} :
    recordedBy (rows ++ [r]) key strategyId = recordedBy rows key strategyId +
      if r.key = key ∧ r.strategyId = strategyId then |r.amount| else 0 := by
  unfold recordedBy recordedFor
  rw [List.filter_append, List.filter_append, List.map_append, List.sum_append,
    List.filter_singleton]
  by_cases h : r.key = key
  · by_cases hid : r.strategyId = strategyId
    · rw [if_pos ⟨h, hid⟩, decide_eq_true h]
      simp [hid]
    · rw [if_neg fun hboth => hid hboth.2, decide_eq_true h]
      simp [hid]
  · rw [if_neg fun hboth => h hboth.1, decide_eq_false h]
    simp

/-- A row is inserted, or there is one of the strategy. -/
theorem insertRow_cases (rows : List ActivityRow) (r : ActivityRow) :
    insertRow rows r = rows ++ [r] ∨
      insertRow rows r = rows ∧ ∃ r' ∈ recordedFor rows r.key, r'.strategyId = r.strategyId := by
  unfold insertRow
  split
  next h =>
    obtain ⟨r', hr', heq⟩ := List.any_eq_true.mp h
    obtain ⟨hkey, hid⟩ := of_decide_eq_true heq
    exact .inr ⟨rfl, r', List.mem_filter.mpr ⟨hr', decide_eq_true hkey⟩, hid⟩
  next => exact .inl rfl

theorem mem_insertActivity {r : ActivityRow} (hr : r ∈ insertActivity credentialId a als rows) :
    r ∈ rows ∨ r.key = (credentialId, strip a.id) := by
  unfold insertActivity at hr
  induction als generalizing rows with
  | nil => exact .inl hr
  | cons al als ih =>
    rcases ih hr with hmem | hkey
    · dsimp only at hmem
      split at hmem
      · rcases insertRow_cases rows (activityRow credentialId a al) with heq | ⟨heq, -⟩
        · rw [heq] at hmem
          rcases List.mem_append.mp hmem with hold | hnew
          · exact .inl hold
          · exact .inr (List.mem_singleton.mp hnew ▸ rfl)
        · exact .inl (heq ▸ hmem)
      · exact .inl hmem
    · exact .inr hkey

theorem total_insertActivity_of_ne (hne : (credentialId, strip a.id) ≠ key) :
    total (insertActivity credentialId a als rows) key = total rows key := by
  unfold insertActivity
  induction als generalizing rows with
  | nil => rfl
  | cons al als ih =>
    rw [List.foldl_cons, ih]
    split
    · rcases insertRow_cases rows (activityRow credentialId a al) with heq | ⟨heq, -⟩
      · have hother : (activityRow credentialId a al).key ≠ key := hne
        rw [heq, total_append, if_neg hother, add_zero]
      · rw [heq]
    · rfl

/-- The rows come to no more than the shares on top. -/
theorem total_insertActivity_le :
    total (insertActivity credentialId a als rows) (credentialId, strip a.id) ≤
      total rows (credentialId, strip a.id) + ((als.filter fun al => al.valid a).map fun al =>
        |storedDecimal 8 (allocatedAmount a al)|).sum := by
  unfold insertActivity
  induction als generalizing rows with
  | nil => simp
  | cons al als ih =>
    rw [List.foldl_cons]
    refine ih.trans ?_
    by_cases hvalid : al.valid a = true
    · rw [if_pos hvalid, List.filter_cons_of_pos hvalid, List.map_cons, List.sum_cons]
      rcases insertRow_cases rows (activityRow credentialId a al) with heq | ⟨heq, -⟩
      · have hkey : (activityRow credentialId a al).key = (credentialId, strip a.id) := rfl
        have hamount : (activityRow credentialId a al).amount =
            storedDecimal 8 (allocatedAmount a al) := rfl
        rw [heq, total_append, if_pos hkey, hamount]
        linarith
      · have := abs_nonneg (storedDecimal 8 (allocatedAmount a al))
        rw [heq]
        linarith
    · rw [if_neg hvalid, List.filter_cons_of_neg hvalid]

/-- Nothing is inserted when every share has its row. -/
theorem insertActivity_of_recorded
    (h : ∀ al ∈ als.filter fun al => al.valid a,
      ∃ r ∈ recordedFor rows (credentialId, strip a.id), r.strategyId = al.strategyId) :
    insertActivity credentialId a als rows = rows := by
  unfold insertActivity
  induction als with
  | nil => rfl
  | cons al als ih =>
    rw [List.foldl_cons]
    by_cases hvalid : al.valid a = true
    · rw [List.filter_cons_of_pos hvalid] at h
      obtain ⟨r, hr, hid⟩ := h al List.mem_cons_self
      obtain ⟨hmem, hkey⟩ := List.mem_filter.mp hr
      have hconflict : insertRow rows (activityRow credentialId a al) = rows :=
        if_pos (List.any_eq_true.mpr ⟨r, hmem, decide_eq_true ⟨of_decide_eq_true hkey, hid⟩⟩)
      rw [if_pos hvalid, hconflict]
      exact ih fun al' hal' => h al' (List.mem_cons_of_mem al hal')
    · rw [List.filter_cons_of_neg hvalid] at h
      rw [if_neg hvalid]
      exact ih h

theorem recordedBy_le_insertActivity (strategyId : ℕ) :
    recordedBy rows key strategyId ≤
      recordedBy (insertActivity credentialId a als rows) key strategyId := by
  unfold insertActivity
  induction als generalizing rows with
  | nil => exact le_refl _
  | cons al als ih =>
    rw [List.foldl_cons]
    refine le_trans ?_ ih
    split
    · rcases insertRow_cases rows (activityRow credentialId a al) with heq | ⟨heq, -⟩
      · rw [heq, recordedBy_append]
        split
        · exact le_add_of_nonneg_right (abs_nonneg _)
        · rw [add_zero]
      · rw [heq]
    · exact le_refl _

theorem coverage_le_insertActivity (es : List OrderCharge) :
    coverage rows es ≤ coverage (insertActivity credentialId a als rows) es :=
  List.sum_le_sum fun e _ => recordedBy_le_insertActivity e.strategyId

/-- A single new share is recorded. -/
theorem recordedBy_insertActivity
    (hnew : ∀ r ∈ recordedFor rows (credentialId, strip a.id), r.strategyId ≠ al.strategyId)
    (hvalid : al.valid a = true) :
    |storedDecimal 8 (allocatedAmount a al)| ≤
      recordedBy (insertActivity credentialId a [al] rows) (credentialId, strip a.id)
        al.strategyId := by
  have hinsert : insertActivity credentialId a [al] rows =
      rows ++ [activityRow credentialId a al] := by
    show (if al.valid a then insertRow rows (activityRow credentialId a al) else rows) = _
    rw [if_pos hvalid]
    rcases insertRow_cases rows (activityRow credentialId a al) with heq | ⟨-, r, hr, hid⟩
    · exact heq
    · exact absurd hid (hnew r hr)
  rw [hinsert, recordedBy_append, if_pos ⟨rfl, rfl⟩]
  refine le_add_of_nonneg_left (List.sum_nonneg fun x hx => ?_)
  obtain ⟨r, -, rfl⟩ := List.mem_map.mp hx
  exact abs_nonneg _

end

/-! ## The invariant -/

/-- What a table holds is of the account's activities and within the law. -/
structure RecordedOk (charges : List Charge) (booked : ℕ → String → ℚ) (rec : Recorded) : Prop where
  keys : ∀ r ∈ rec.rows, r.key ∈ charges.map Charge.key
  within : ∀ q ∈ charges, total rec.rows q.key ≤ |q.activity.netAmount|
  covered : ∀ credentialId strategyId orderId,
    charged (rec.commissionsOf credentialId strategyId orderId) ≤
      coverage rec.rows (rec.commissionsOf credentialId strategyId orderId) +
        booked credentialId orderId

structure Inv (s : Books) : Prop where
  charges : (s.charges.map Charge.key).Nodup
  recorded : RecordedOk s.charges (bookedCommission s.tables) s.recorded
  activities : ∀ sync, s.sync = some sync → ∀ a ∈ sync.activities,
    ⟨sync.credentialId, a⟩ ∈ s.charges
  sync : ∀ sync, s.sync = some sync →
    RecordedOk s.charges (bookedCommission s.tables) sync.recorded
  owners : ∀ sync, s.sync = some sync → ∀ o owner, sync.owners.get? o = some owner →
    max 0 owner.recordedCommission ≤ bookedCommission s.tables sync.credentialId o

theorem Inv.attributed {s : Books} (h : Inv s) : s.Attributed :=
  ⟨h.recorded.within, h.recorded.covered⟩

theorem bookedCommission_nonneg (t : Tables) (credentialId : ℕ) (orderId : String) :
    0 ≤ bookedCommission t credentialId orderId := le_max_left _ _

section
variable {charges : List Charge} {booked booked' : ℕ → String → ℚ} {rec : Recorded}

/-- The booked commissions change, and none that matters decreases. -/
theorem RecordedOk.rebook (h : RecordedOk charges booked rec) (hnonneg : ∀ c o, 0 ≤ booked' c o)
    (hle : ∀ e ∈ rec.commissions, booked e.charge.credentialId e.orderId ≤
      booked' e.charge.credentialId e.orderId) : RecordedOk charges booked' rec := by
  refine ⟨h.keys, h.within, fun c sid o => ?_⟩
  cases hes : rec.commissionsOf c sid o with
  | nil =>
    have := hnonneg c o
    simpa [charged, coverage] using this
  | cons e es =>
    have he : e ∈ rec.commissionsOf c sid o := hes ▸ List.mem_cons_self
    obtain ⟨hmem, hof⟩ := List.mem_filter.mp he
    obtain ⟨rfl, -, rfl⟩ := of_decide_eq_true hof
    have hcovered := h.covered e.charge.credentialId sid e.orderId
    have := hle e hmem
    rw [← hes]
    linarith

theorem RecordedOk.charge (h : RecordedOk charges booked rec) {q : Charge}
    (hnew : q.key ∉ charges.map Charge.key) : RecordedOk (charges ++ [q]) booked rec := by
  refine ⟨fun r hr => ?_, fun q' hq' => ?_, h.covered⟩
  · rw [List.map_append]
    exact List.mem_append_left _ (h.keys r hr)
  · rcases List.mem_append.mp hq' with hold | hlast
    · exact h.within q' hold
    · obtain rfl := List.mem_singleton.mp hlast
      have hnone : recordedFor rec.rows q'.key = [] :=
        List.filter_eq_nil_iff.mpr fun r hr hkey => hnew (of_decide_eq_true hkey ▸ h.keys r hr)
      rw [total, hnone]
      exact abs_nonneg _

theorem recordedBy_delete {rows : List ActivityRow} {key : ℕ × List Char} {strategyId sid : ℕ}
    (hne : sid ≠ strategyId) :
    recordedBy (rows.filter fun r => r.strategyId ≠ strategyId) key sid = recordedBy rows key sid := by
  unfold recordedBy recordedFor
  congr 2
  rw [List.filter_filter, List.filter_filter, List.filter_filter]
  refine List.filter_congr fun r _ => ?_
  by_cases hsid : r.strategyId = sid
  · simp [hsid, hne]
  · simp [hsid]

/-- A strategy is deleted with its rows. -/
theorem RecordedOk.delete (h : RecordedOk charges booked rec) (hnonneg : ∀ c o, 0 ≤ booked c o)
    (strategyId : ℕ) : RecordedOk charges booked (rec.delete strategyId) := by
  refine ⟨fun r hr => h.keys r (List.mem_filter.mp hr).1, fun q hq => ?_, fun c sid o => ?_⟩
  · refine le_trans ?_ (h.within q hq)
    unfold total recordedFor Recorded.delete
    dsimp only
    refine List.Sublist.sum_le_sum ((List.filter_sublist.filter _).map _) fun x hx => ?_
    obtain ⟨r, -, rfl⟩ := List.mem_map.mp hx
    exact abs_nonneg _
  · by_cases hsid : sid = strategyId
    · have hnone : (rec.delete strategyId).commissionsOf c sid o = [] := by
        refine List.filter_eq_nil_iff.mpr fun e he hof => ?_
        have hkept := of_decide_eq_true (List.mem_filter.mp he).2
        exact hkept ((of_decide_eq_true hof).2.1.trans hsid)
      have := hnonneg c o
      rw [hnone]
      simpa [charged, coverage] using this
    · have hsame : (rec.delete strategyId).commissionsOf c sid o = rec.commissionsOf c sid o := by
        unfold Recorded.commissionsOf Recorded.delete
        rw [List.filter_filter]
        refine List.filter_congr fun e _ => ?_
        by_cases he : e.strategyId = sid
        · simp [he, hsid]
        · simp [he]
      have hcovered : coverage (rec.delete strategyId).rows
          (rec.commissionsOf c sid o) = coverage rec.rows (rec.commissionsOf c sid o) := by
        unfold coverage
        refine congrArg List.sum (List.map_congr_left fun e he => ?_)
        have hof := (of_decide_eq_true (List.mem_filter.mp he).2).2.1
        exact recordedBy_delete (hof ▸ hsid)
      rw [hsame, hcovered]
      exact h.covered c sid o

end

/-! ## One activity -/

section
variable {charges : List Charge} {booked : ℕ → String → ℚ} {sync : Sync} {t : Tables}
  {a : Activity} {e : OrderCharge} {owner : Owner}

/-- What is allocated of a commission is what the trades have not booked. -/
theorem abs_allocatedAmount {al : Allocation} (hcom : activitySubtype a = "COM")
    (hneg : a.netAmount < 0) (hratio : al.ratio = 1) :
    |allocatedAmount a al| = |a.netAmount| - min (max 0 al.recordedCommission) |a.netAmount| := by
  have hamount : a.netAmount * max 0 (min 1 al.ratio) = a.netAmount := by
    rw [hratio]
    norm_num
  unfold allocatedAmount
  dsimp only
  rw [hamount, abs_of_neg hneg]
  by_cases hbooked : 0 < al.recordedCommission
  · rw [if_pos ⟨hcom, hneg, hbooked⟩, max_eq_right hbooked.le]
    rcases le_total (a.netAmount + al.recordedCommission) 0 with hle | hle
    · rw [min_eq_right hle, abs_of_nonpos hle, min_eq_left (by linarith)]
      ring
    · rw [min_eq_left hle, abs_zero, min_eq_right (by linarith), sub_self]
  · rw [if_neg fun h => hbooked h.2.2, max_eq_left (not_lt.mp hbooked), abs_of_neg hneg,
      min_eq_left (by linarith), sub_zero]

theorem storedDecimal_allocatedAmount {al : Allocation} (hratio : al.ratio = 1)
    (hnet : storedDecimal 8 a.netAmount = a.netAmount)
    (hbooked : storedDecimal 8 (max 0 al.recordedCommission) = max 0 al.recordedCommission) :
    storedDecimal 8 (allocatedAmount a al) = allocatedAmount a al := by
  have hamount : a.netAmount * max 0 (min 1 al.ratio) = a.netAmount := by
    rw [hratio]
    norm_num
  unfold allocatedAmount
  dsimp only
  rw [hamount]
  split
  next h =>
    rw [max_eq_right h.2.2.le] at hbooked
    rcases min_choice 0 (a.netAmount + al.recordedCommission) with heq | heq
    · rw [heq]
      simpa using Funding.storedDecimal_div 0
    · rw [heq]
      exact Funding.storedDecimal_add hnet hbooked
  next => exact hnet

/-- What an order charge is. -/
theorem Sync.orderCharge_spec (h : sync.orderCharge a = some (e, owner)) :
    e = ⟨⟨sync.credentialId, a⟩, owner.strategyId, orderIdOf a sync.fills⟩ ∧
      sync.owners.get? (orderIdOf a sync.fills) = some owner ∧
      activitySubtype a = "COM" ∧ a.netAmount < 0 ∧ 0 < owner.strategyId ∧ 0 < owner.userId := by
  unfold Sync.orderCharge at h
  dsimp only at h
  split at h
  next => cases h
  next owner' howner =>
    obtain ⟨hcom, heq⟩ := Option.ite_none_right_eq_some.mp h
    obtain ⟨rfl, rfl⟩ := Prod.mk.inj (Option.some.inj heq)
    exact ⟨rfl, howner, hcom⟩

/-- **A commission of an owned order** is recorded but for what the trades booked. -/
theorem Sync.recordedBy_insert (h : sync.orderCharge a = some (e, owner))
    (hnew : ∀ r ∈ recordedFor sync.recorded.rows e.charge.key, r.strategyId ≠ e.strategyId)
    (hnet : storedDecimal 8 a.netAmount = a.netAmount)
    (hbooked : storedDecimal 8 (max 0 owner.recordedCommission) = max 0 owner.recordedCommission) :
    |a.netAmount| - min (max 0 owner.recordedCommission) |a.netAmount| ≤
      recordedBy (sync.insert t a).rows e.charge.key e.strategyId := by
  obtain ⟨rfl, howner, hcom, hneg, hsid, huid⟩ := sync.orderCharge_spec h
  obtain ⟨al, hal, hratio, hsame, halsid, haluid⟩ : ∃ al : Allocation, sync.allocations t a = [al] ∧
      al.ratio = 1 ∧ al.recordedCommission = owner.recordedCommission ∧
      al.strategyId = owner.strategyId ∧ al.userId = owner.userId := by
    unfold Sync.allocations activityAllocations
    rw [howner]
    exact ⟨_, rfl, rfl, rfl, rfl, rfl⟩
  have hstored : storedDecimal 8 (allocatedAmount a al) = allocatedAmount a al :=
    storedDecimal_allocatedAmount hratio hnet (hsame ▸ hbooked)
  have habs : |allocatedAmount a al| = _ := abs_allocatedAmount hcom hneg hratio
  rw [hsame] at habs
  rw [← habs]
  unfold Sync.insert
  dsimp only
  rw [hal]
  by_cases hdust : |allocatedAmount a al| ≤ dust
  · rw [Funding.eq_zero_of_storedDecimal hstored hdust, abs_zero]
    refine List.sum_nonneg fun x hx => ?_
    obtain ⟨r, -, rfl⟩ := List.mem_map.mp hx
    exact abs_nonneg _
  · have hvalid : al.valid a = true :=
      decide_eq_true ⟨halsid ▸ hsid, haluid ▸ huid, not_le.mp hdust⟩
    have hrecorded : |storedDecimal 8 (allocatedAmount a al)| ≤
        recordedBy (insertActivity sync.credentialId a [al] sync.recorded.rows)
          (sync.credentialId, strip a.id) al.strategyId :=
      recordedBy_insertActivity (by rw [halsid]; exact hnew) hvalid
    rw [hstored, halsid] at hrecorded
    exact hrecorded

theorem charged_append (es es' : List OrderCharge) : charged (es ++ es') = charged es + charged es' := by
  unfold charged
  rw [List.map_append, List.sum_append]

theorem coverage_append (rows : List ActivityRow) (es es' : List OrderCharge) :
    coverage rows (es ++ es') = coverage rows es + coverage rows es' := by
  unfold coverage
  rw [List.map_append, List.sum_append]

/-- **One activity** of the sync in progress. -/
theorem RecordedOk.insert (h : RecordedOk charges booked sync.recorded)
    (hcharges : (charges.map Charge.key).Nodup) (ha : ⟨sync.credentialId, a⟩ ∈ charges)
    (howners : ∀ o owner, sync.owners.get? o = some owner →
      max 0 owner.recordedCommission ≤ booked sync.credentialId o)
    (hshares : sync.SharesOnce t a) (hoffset : sync.OffsetOnce a) :
    RecordedOk charges booked (sync.insert t a) := by
  refine ⟨fun r hr => ?_, fun q hq => ?_, fun c sid o => ?_⟩
  · rcases mem_insertActivity hr with hold | hkey
    · exact h.keys r hold
    · rw [hkey]
      exact List.mem_map_of_mem ha
  · by_cases hkey : (sync.credentialId, strip a.id) = q.key
    · obtain rfl : q = ⟨sync.credentialId, a⟩ :=
        List.inj_on_of_nodup_map hcharges hq ha hkey.symm
      unfold Sync.SharesOnce at hshares
      dsimp only at hshares
      split at hshares
      next hnone =>
        refine (total_insertActivity_le).trans ?_
        rw [total, hnone, List.map_nil, List.sum_nil, zero_add]
        exact hshares
      next =>
        show total (insertActivity _ _ _ _) _ ≤ _
        rw [insertActivity_of_recorded hshares]
        exact h.within _ hq
    · show total (insertActivity _ _ _ _) _ ≤ _
      rw [total_insertActivity_of_ne hkey]
      exact h.within q hq
  · have hcovered := h.covered c sid o
    have hmono : coverage sync.recorded.rows (sync.recorded.commissionsOf c sid o) ≤
        coverage (insertActivity sync.credentialId a (sync.allocations t a) sync.recorded.rows)
          (sync.recorded.commissionsOf c sid o) := coverage_le_insertActivity _
    have hold : charged (sync.recorded.commissionsOf c sid o) ≤
        coverage (sync.insert t a).rows (sync.recorded.commissionsOf c sid o) + booked c o :=
      hcovered.trans (add_le_add_left hmono _)
    have hkept : (sync.insert t a).commissions = sync.recorded.commissions →
        charged ((sync.insert t a).commissionsOf c sid o) ≤
          coverage (sync.insert t a).rows ((sync.insert t a).commissionsOf c sid o) +
            booked c o := by
      intro heq
      unfold Recorded.commissionsOf at hold ⊢
      rw [heq]
      exact hold
    cases hcharge : sync.orderCharge a with
    | none => exact hkept (by unfold Sync.insert; rw [hcharge])
    | some pair =>
      obtain ⟨e, owner⟩ := pair
      by_cases hmem : e ∈ sync.recorded.commissions
      · exact hkept (by unfold Sync.insert; rw [hcharge]; exact if_pos hmem)
      · have happend : (sync.insert t a).commissions = sync.recorded.commissions ++ [e] := by
          unfold Sync.insert
          rw [hcharge]
          exact if_neg hmem
        obtain ⟨hnew, hnet, hstored, hroom⟩ := hoffset e owner hcharge hmem
        have hrecorded := sync.recordedBy_insert (t := t) hcharge hnew hnet hstored
        obtain ⟨rfl, howner, -⟩ := sync.orderCharge_spec hcharge
        have hbooked := howners _ owner howner
        have hof : (sync.insert t a).commissionsOf c sid o =
            sync.recorded.commissionsOf c sid o ++
              if sync.credentialId = c ∧ owner.strategyId = sid ∧ orderIdOf a sync.fills = o then
                [⟨⟨sync.credentialId, a⟩, owner.strategyId, orderIdOf a sync.fills⟩] else [] := by
          unfold Recorded.commissionsOf
          rw [happend, List.filter_append, List.filter_singleton]
          congr 1
          by_cases hthis : sync.credentialId = c ∧ owner.strategyId = sid ∧
              orderIdOf a sync.fills = o
          · rw [if_pos hthis, decide_eq_true hthis]
            rfl
          · rw [if_neg hthis, decide_eq_false hthis]
            rfl
        rw [hof]
        split
        next hthis =>
          obtain ⟨rfl, rfl, rfl⟩ := hthis
          rw [charged_append, coverage_append]
          have hcharged : charged [(⟨⟨sync.credentialId, a⟩, owner.strategyId,
              orderIdOf a sync.fills⟩ : OrderCharge)] = |a.netAmount| := by simp [charged]
          have hcoverage : coverage (sync.insert t a).rows [(⟨⟨sync.credentialId, a⟩,
              owner.strategyId, orderIdOf a sync.fills⟩ : OrderCharge)] =
                recordedBy (sync.insert t a).rows (sync.credentialId, strip a.id)
                  owner.strategyId := by
            simp [coverage, Charge.key]
          rw [hcharged, hcoverage]
          change _ ≤ recordedBy _ (sync.credentialId, strip a.id) owner.strategyId at hrecorded
          change _ ≤ coverage (sync.insert t a).rows _ at hmono
          linarith
        next =>
          rw [List.append_nil]
          exact hold

end

/-! ## Runs -/

section
variable {s s' : Books}

/-- Without a sync in progress, what is left to keep is the table. -/
theorem Inv.idle (h : Inv s) {recorded : Recorded}
    (hrecorded : RecordedOk s.charges (bookedCommission s.tables) recorded) :
    Inv { s with recorded, sync := none } :=
  ⟨h.charges, hrecorded, (fun _ heq => by cases heq), (fun _ heq => by cases heq),
    (fun _ heq => by cases heq)⟩

/-- The local tables change. -/
theorem Inv.changes (h : Inv s) {tables : Tables} (hset : s.Settled (.changes tables)) :
    Inv { s with tables } := by
  refine ⟨h.charges, ?_, h.activities, fun sync hsync => ?_, fun sync hsync o owner howner => ?_⟩
  · refine h.recorded.rebook (bookedCommission_nonneg tables) fun e he => ?_
    exact hset (e.charge.credentialId, e.orderId)
      (List.mem_append_left _ (List.mem_map.mpr ⟨e, he, rfl⟩))
  · refine (h.sync sync hsync).rebook (bookedCommission_nonneg tables) fun e he => ?_
    refine hset (e.charge.credentialId, e.orderId) (List.mem_append_right _ ?_)
    rw [show s.sync = some sync from hsync]
    exact List.mem_append_left _ (List.mem_map.mpr ⟨e, he, rfl⟩)
  · refine (h.owners sync hsync o owner howner).trans ?_
    refine hset (sync.credentialId, o) (List.mem_append_right _ ?_)
    rw [show s.sync = some sync from hsync]
    exact List.mem_append_right _ (List.mem_map.mpr ⟨o, Dict.mem_keys_of_get? howner, rfl⟩)

theorem Inv.deletes (h : Inv s) (strategyId : ℕ) :
    Inv { s with
      recorded := s.recorded.delete strategyId
      sync := s.sync.map fun sync => { sync with recorded := sync.recorded.delete strategyId } } := by
  have hnonneg := bookedCommission_nonneg s.tables
  refine ⟨h.charges, h.recorded.delete hnonneg strategyId, fun sync hsync => ?_,
    fun sync hsync => ?_, fun sync hsync => ?_⟩
  · obtain ⟨old, hold, rfl⟩ := Option.map_eq_some_iff.mp hsync
    exact h.activities old hold
  · obtain ⟨old, hold, rfl⟩ := Option.map_eq_some_iff.mp hsync
    exact (h.sync old hold).delete hnonneg strategyId
  · obtain ⟨old, hold, rfl⟩ := Option.map_eq_some_iff.mp hsync
    exact h.owners old hold

theorem Inv.charge (h : Inv s) {q : Charge} (hnew : q.key ∉ s.charges.map Charge.key) :
    Inv { s with charges := s.charges ++ [q] } := by
  refine ⟨?_, h.recorded.charge hnew, fun sync hsync a ha => ?_,
    fun sync hsync => (h.sync sync hsync).charge hnew, h.owners⟩
  · show ((s.charges ++ [q]).map Charge.key).Nodup
    rw [List.map_append]
    exact List.nodup_append.mpr ⟨h.charges, List.nodup_singleton _, fun a ha b hb hab =>
      hnew (List.mem_singleton.mp hb ▸ hab ▸ ha)⟩
  · exact List.mem_append_left _ (h.activities sync hsync a ha)

theorem Inv.insert {sync : Sync} (h : Inv s) (hsync : s.sync = some sync)
    (hset : s.Settled .inserts) (hs : s.insert sync = some s') : Inv s' := by
  unfold Books.insert at hs
  cases hactivities : sync.activities with
  | nil =>
    rw [hactivities] at hs
    cases hs
  | cons a rest =>
    rw [hactivities] at hs
    obtain rfl := Option.some.inj hs
    have ha : ⟨sync.credentialId, a⟩ ∈ s.charges :=
      h.activities sync hsync a (hactivities ▸ List.mem_cons_self)
    refine ⟨h.charges, h.recorded, fun sync' heq => ?_, fun sync' heq => ?_, fun sync' heq => ?_⟩
    · obtain rfl := Option.some.inj heq
      exact fun a' ha' =>
        h.activities sync hsync a' (hactivities ▸ List.mem_cons_of_mem a ha')
    · obtain rfl := Option.some.inj heq
      dsimp only
      split
      next haccepts =>
        obtain ⟨hshares, hoffset⟩ := hset sync hsync a (by rw [hactivities]; rfl) haccepts
        exact (h.sync sync hsync).insert h.charges ha (h.owners sync hsync) hshares hoffset
      next => exact h.sync sync hsync
    · obtain rfl := Option.some.inj heq
      exact h.owners sync hsync

/-- A sync begins. -/
theorem Inv.begins (h : Inv s) {credentialId : ℕ} {activities fills : List Activity}
    {accountPositions : List AccountPosition}
    (hactivities : ∀ a ∈ activities, ⟨credentialId, a⟩ ∈ s.charges) :
    Inv { s with
      sync := some {
        credentialId, fills, accountPositions, activities
        owners := orderOwners s.tables credentialId
        recorded := s.recorded } } := by
  refine ⟨h.charges, h.recorded, fun sync heq => ?_, fun sync heq => ?_, fun sync heq => ?_⟩
  · obtain rfl := Option.some.inj heq
    exact hactivities
  · obtain rfl := Option.some.inj heq
    exact h.recorded
  · obtain rfl := Option.some.inj heq
    intro o owner howner
    show _ ≤ bookedCommission s.tables credentialId o
    unfold bookedCommission
    rw [show (orderOwners s.tables credentialId).get? o = some owner from howner]
    exact le_refl _

/-- **One label** that is settled. -/
theorem Inv.step {l : Label} (h : Inv s) (hset : s.Settled l) (hs : step s l = some s') :
    Inv s' := by
  cases l with
  | changes tables =>
    obtain rfl := Option.some.inj hs
    exact h.changes hset
  | deletes strategyId =>
    obtain rfl := Option.some.inj hs
    exact h.deletes strategyId
  | charges q =>
    rw [BrokerActivities.step] at hs
    split at hs
    next => cases hs
    next hany =>
      obtain rfl := Option.some.inj hs
      refine h.charge fun hmem => ?_
      obtain ⟨q', hq', hkey⟩ := List.mem_map.mp hmem
      exact hany (List.any_eq_true.mpr ⟨q', hq', decide_eq_true hkey⟩)
  | begins credentialId activities fills accountPositions =>
    rw [BrokerActivities.step] at hs
    split at hs
    next => cases hs
    next hok =>
      obtain rfl := Option.some.inj hs
      have hall := not_not.mp (not_or.mp hok).2
      exact h.begins fun a ha => of_decide_eq_true (List.all_eq_true.mp hall a ha)
  | inserts =>
    obtain ⟨sync, hsync, hinsert⟩ := Option.bind_eq_some_iff.mp hs
    exact h.insert hsync hset hinsert
  | commits =>
    rw [BrokerActivities.step] at hs
    split at hs
    next sync hsync =>
      obtain ⟨-, hs⟩ := Option.ite_none_right_eq_some.mp hs
      obtain rfl := Option.some.inj hs
      exact h.idle (h.sync sync hsync)
    next => cases hs
  | raises =>
    obtain ⟨-, hs⟩ := Option.ite_none_right_eq_some.mp hs
    obtain rfl := Option.some.inj hs
    exact h.idle h.recorded

end

/-! ## Two strategies of one account -/

namespace OneAccount

/-- Strategy 1 placed the order `b1`, whose trade booked a commission of two. -/
def tables : Tables where
  positions := [{ strategyId := 1, userId := 7, credentialId := 3, symbol := "AAPL".toList, size := 1,
                  currentPrice := some 100 }]
  orders := [{ id := 4, credentialId := 3, exchangeId := "alpaca", exchangeOrderId := "b1"
               strategyId := some 1, userId := 7 }]
  trades := [{ pendingOrderId := 4, commission := some 2 }]

def commission (id : String) (amount : ℚ) : Activity where
  id := id.toList
  givenSubtype := "COM"
  netAmount := amount
  orderId := "b1"

def interest : Activity where
  id := "i1".toList
  activityType := "INT"
  netAmount := -10

def account : List AccountPosition := [{ symbol := "AAPL".toList, marketValue := 100 }]

def sync (activities : List Activity) : List Label :=
  .begins 3 activities [] account :: activities.map (fun _ => .inserts) ++ [.commits]

/-- A commission and the margin interest, in two syncs. -/
def settled : List Label :=
  [.charges ⟨3, commission "c1" (-3)⟩, .charges ⟨3, interest⟩] ++
    sync [commission "c1" (-3), interest] ++ sync [interest, commission "c1" (-3)]

end OneAccount

namespace OneAccount

/-- The order is charged three and two. -/
def twoCommissions : List Label :=
  [.charges ⟨3, commission "c1" (-3)⟩, .charges ⟨3, commission "c2" (-2)⟩] ++
    sync [commission "c1" (-3), commission "c2" (-2)]

/-- Strategy 2 holds the position when the next sync comes. -/
def laterPosition : List Label :=
  .charges ⟨3, interest⟩ :: sync [interest] ++
    .changes { tables with
      positions := [{ strategyId := 2, userId := 7, credentialId := 3, symbol := "AAPL".toList
                      size := 1, currentPrice := some 100 }] } ::
    sync [interest]

end OneAccount

/-- Interest of ten is recorded twice. -/
theorem laterPosition_exceeds :
    ∃ s, run BrokerActivities.step { tables := OneAccount.tables } OneAccount.laterPosition = some s ∧
      s.recorded.rows.map (fun r => (r.strategyId, r.amount)) = [(1, -10), (2, -10)] ∧
      ¬ s.Attributed := by
  obtain ⟨s, hrun, hrows, hlaw⟩ := exists_of_any (show (run BrokerActivities.step
    { tables := OneAccount.tables } OneAccount.laterPosition).any (fun s =>
      s.recorded.rows.map (fun r => (r.strategyId, r.amount)) = [(1, -10), (2, -10)] ∧
        ¬ ∀ q ∈ s.charges, total s.recorded.rows q.key ≤ |q.activity.netAmount|) = true
    by decide +kernel)
  exact ⟨s, hrun, hrows, fun h => hlaw h.within⟩

end AlgoTrade.BrokerActivities
