import AlgoTrade.Execution.Dispatch

/-! # The broker is asked for no more than the order

`WithinOrder`: the broker's orders of one pending order come to no more than its
quantity.

* `withinOrder_of_submitsOnce`: so in every state of a run whose steps all meet
  `SubmitsOnce`: no execution starts while another runs, or after another had an order
  accepted that the ledger and a lookup do not lead back to; a lookup misses no order; a
  limit order makes way for exactly what it left.
* `crashThenRequeued_doubles`: a market order that is accepted, whose execution dies
  and whose adapter cannot look up, is submitted twice. -/

namespace AlgoTrade.Dispatch

/-! ## Statement -/

def WithinOrder (o : Order) (s : State) : Prop := countedIn s.orders ≤ o.asked s.ledgerRead

/-- A new execution is led back to the order an earlier one may have placed. -/
def Recoverable (o : Order) (s : State) : Prop :=
  s.orders = [] ∨ (o.ledgered = true ∧ o.looksUp = true ∧ reconciled s.ledger = true)

/-- A market order of this execution would be sized in quote currency at a known price. -/
def QuoteKnown (o : Order) (reads : SizingReads) (limitPrice : ℚ) : Prop :=
  o.buysInQuote = true → (o.mode = .market ∨ (o.mode = .limitThenMarket ∧ limitPrice ≤ 0)) →
    marketBuyUsesQuote o reads (ownedQuantity o reads) = true

/-- The limit order is out of the market, with the fill its last report showed; what is
left of it is not sized in quote currency, unless that is all of it. -/
def MakesWay (o : Order) (s : State) (x : Execution) : Prop :=
  match x.phase with
  | .cancelling k reported =>
    reported < x.sized.quantity →
      (∀ order ∈ s.orders[k]?,
        order.filled = reported ∧ order.withdrawn = order.quantity - order.filled) ∧
        (o.buysInQuote = true → reported = 0 ∧ x.sized.quote.isSome = true)
  | _ => True

instance (o : Order) (s : State) (x : Execution) : Decidable (MakesWay o s x) := by
  unfold MakesWay
  cases x.phase <;> infer_instance

def SubmitsOnce (o : Order) (s : State) : Act → Prop
  | .claim => (∀ x ∈ s.executions, x.phase = .ended) ∧ Recoverable o s
  | .execution _ (.size reads limitPrice) => QuoteKnown o reads limitPrice
  | .execution _ (.lookUp found) => found = false → s.orders = []
  | .execution i .cancelled => ∀ x ∈ s.executions[i]?, MakesWay o s x
  | _ => True

instance (o : Order) (s : State) : ∀ a, Decidable (SubmitsOnce o s a)
  | .claim => inferInstanceAs (Decidable (_ ∧ (_ ∨ _)))
  | .execution _ (.size ..) => inferInstanceAs (Decidable (_ → _ → _))
  | .execution _ (.lookUp _) => inferInstanceAs (Decidable (_ → _))
  | .execution i .cancelled => inferInstanceAs (Decidable (∀ x ∈ s.executions[i]?, _))
  | .deadLetter | .requeueStale | .fill .. | .withdraw _
  | .execution _ .readLedger | .execution _ .insertAttempt | .execution _ (.submit _)
  | .execution _ (.returns _) | .execution _ (.raises _) | .execution _ (.waited _)
  | .execution _ .logEnd | .execution _ (.markSent _) | .execution _ .markFailed
  | .execution _ .crash => inferInstanceAs (Decidable True)

/-! ## Invariant -/

/-- The limit order is the only order. -/
def LimitOnly (s : State) (sized : Sized) (k : ℕ) : Prop :=
  k = 0 ∧ ∃ order, s.orders = [order] ∧ order.leg = .limit ∧ order.quantity = sized.quantity

/-- Where an execution stands, what it may still submit fits. -/
def PhaseFits (o : Order) (s : State) (sized : Sized) : Phase → Prop
  | .checks => Recoverable o s
  | .ledger => Recoverable o s ∧ singleSize o sized ≤ o.asked s.ledgerRead
  | .insert _ => s.orders = [] ∧ singleSize o sized ≤ o.asked s.ledgerRead
  | .lookUp => singleSize o sized ≤ o.asked s.ledgerRead
  | .placing leg size =>
    countedIn s.orders + size ≤ o.asked s.ledgerRead ∧
      (leg = .limit → s.orders = [] ∧ size = sized.quantity)
  | .answering leg order => leg = .limit → ∀ k, order = some k → LimitOnly s sized k
  | .waiting leg k => leg = .limit → LimitOnly s sized k
  | .cancelling k _ => LimitOnly s sized k
  | .logging _ => True
  | .finishing _ => True
  | .ended => True

structure SizedFits (bound : ℚ) (sized : Sized) : Prop where
  quantity : sized.quantity ≤ bound
  quote : ∀ v, sized.quote = some v → v ≤ bound

/-- Only one execution runs, and what it may still submit fits. -/
structure RunFits (o : Order) (s : State) : Prop where
  counted : countedIn s.orders ≤ o.asked s.ledgerRead
  running : ∀ (i : ℕ) (x : Execution), s.executions[i]? = some x → x.phase ≠ .ended →
    (∀ (j : ℕ) (y : Execution), j ≠ i → s.executions[j]? = some y → y.phase = .ended) ∧
      SizedFits (o.asked s.ledgerRead) x.sized ∧ PhaseFits o s x.sized x.phase

section
variable {o : Order} {s t : State} {i : ℕ} {x : Execution}

/-- The running execution goes on; the others are over. -/
theorem runFits_goOn {phase : Phase}
    (hothers : ∀ (j : ℕ) (y : Execution), j ≠ i → t.executions[j]? = some y → y.phase = .ended)
    (hcounted : countedIn t.orders ≤ o.asked t.ledgerRead) (hsized : SizedFits (o.asked t.ledgerRead) x.sized)
    (hphase : PhaseFits o t x.sized phase) : RunFits o (t.goOn i x phase) := by
  refine ⟨hcounted, fun j y hj hy => ?_⟩
  simp only [State.goOn, List.getElem?_set] at hj
  split at hj
  next hij =>
    split at hj
    next hlt =>
      simp only [Option.some.injEq] at hj
      subst hj hij
      refine ⟨fun k z hk hz => hothers k z hk ?_, hsized, hphase⟩
      simpa only [State.goOn, List.getElem?_set, hk.symm, if_false] using hz
    next hlt => cases hj
  next hij => exact absurd (hothers j y (Ne.symm hij) hj) hy

theorem countedIn_append (orders : List BrokerOrder) (order : BrokerOrder) :
    countedIn (orders ++ [order]) = countedIn orders + order.counted := by
  simp [countedIn]

/-! ## Moves of an execution -/

/-- Where the size of a market order comes from. -/
theorem marketSize_le {sized : Sized} (h : SizedFits (o.asked s.ledgerRead) sized)
    (hquote : o.buysInQuote = true → sized.quote.isSome = true) :
    sized.marketSize o sized.quantity ≤ o.asked s.ledgerRead := by
  unfold Sized.marketSize
  split
  next hbuys =>
    obtain ⟨v, hv⟩ := Option.isSome_iff_exists.mp (hquote hbuys)
    rw [hv, Option.getD_some]
    exact h.quote v hv
  next => exact h.quantity

theorem ledgered_eq_false (h : o.mode = .limit ∨ o.mode = .limitThenMarket) :
    o.ledgered = false := by
  rcases h with h | h <;> simp [Order.ledgered, h]

theorem orders_eq_nil (h : Recoverable o s) (hmode : o.ledgered = false) : s.orders = [] :=
  h.resolve_right fun hr => by simp [hmode] at hr

theorem mode_of_stock (h : o.stock = true) : o.mode = .stock := by
  simp [Order.mode, h]

/-- The first phase after the quantity is known. -/
theorem fits_firstPhase {sized : Sized} {limitPrice : ℚ} (hrec : Recoverable o s)
    (hsized : SizedFits (o.asked s.ledgerRead) sized)
    (hquote : o.buysInQuote = true →
      (o.mode = .market ∨ (o.mode = .limitThenMarket ∧ limitPrice ≤ 0)) →
        sized.quote.isSome = true) :
    PhaseFits o s sized (firstPhase o sized limitPrice) := by
  unfold firstPhase
  cases hmode : o.mode with
  | market =>
    refine ⟨hrec, ?_⟩
    simp only [singleSize, hmode]
    exact marketSize_le hsized fun hbuys => hquote hbuys (.inl hmode)
  | stock =>
    refine ⟨hrec, ?_⟩
    simp only [singleSize, hmode]
    exact hsized.quantity
  | limit =>
    have hnil := orders_eq_nil hrec (ledgered_eq_false (.inl hmode))
    dsimp only
    split
    · trivial
    · exact ⟨by simpa [hnil, countedIn] using hsized.quantity, by simp⟩
  | limitThenMarket =>
    have hnil := orders_eq_nil hrec (ledgered_eq_false (.inr hmode))
    dsimp only
    split
    next hprice =>
      have hsize := marketSize_le hsized fun hbuys => hquote hbuys (.inr ⟨hmode, hprice⟩)
      exact ⟨by simpa [hnil, countedIn] using hsize, by simp⟩
    next hprice => exact ⟨by simpa [hnil, countedIn] using hsized.quantity, fun _ => ⟨hnil, rfl⟩⟩

/-- A size is at most what its reads allow. -/
theorem fits_sizeOrder {reads : SizingReads} {sized : Sized} {a : ℚ}
    (h : sizeOrder o reads = some sized) (hread : reads.ledgerSize ≤ a) :
    SizedFits (o.asked a) sized :=
  ⟨(quantity_sizeOrder_le h).trans (o.asked_mono hread),
    fun _ hv => (quote_sizeOrder_le h hv).trans (o.asked_mono hread)⟩

theorem fits_placedPhase {leg : Leg} {order : Option ℕ} {success : Bool}
    (h : PhaseFits o s x.sized (.answering leg order)) :
    PhaseFits o s x.sized (placedPhase o leg order success) := by
  unfold placedPhase
  split
  · trivial
  · trivial
  next k _ _ => exact fun hleg => h hleg k rfl
  · trivial

theorem fits_raisedPhase {logged : Bool} {exception : Raised} :
    PhaseFits o s x.sized (raisedPhase o logged exception) := by
  unfold raisedPhase
  split
  · split <;> trivial
  · split <;> trivial
  · trivial
  · trivial

theorem fits_waitedPhase {leg : Leg} {k : ℕ} {fill : Option FillSnapshot}
    (h : PhaseFits o s x.sized (.waiting leg k)) :
    PhaseFits o s x.sized (waitedPhase o x leg k fill) := by
  unfold waitedPhase
  split
  · split
    · trivial
    · exact h rfl
  · split <;> trivial

/-- The market order asks for what the limit order leaves. -/
theorem fits_cancelledPhase {k : ℕ} {reported : ℚ} (hphase : x.phase = .cancelling k reported)
    (h : LimitOnly s x.sized k) (hsized : SizedFits (o.asked s.ledgerRead) x.sized) (hway : MakesWay o s x) :
    PhaseFits o s x.sized (cancelledPhase o x reported) := by
  unfold cancelledPhase
  dsimp only
  split
  · trivial
  next hremaining =>
  have hleft : reported < x.sized.quantity := by simpa using hremaining
  rw [MakesWay, hphase] at hway
  obtain ⟨horder, hquote⟩ := hway hleft
  obtain ⟨rfl, order, horders, hleg, hquantity⟩ := h
  obtain ⟨hfilled, hwithdrawn⟩ := horder order (by rw [horders]; rfl)
  have hcounted : countedIn s.orders = reported := by
    simp [countedIn, horders, BrokerOrder.counted, hleg, hwithdrawn, hfilled]
  refine ⟨?_, by simp⟩
  rw [hcounted]
  unfold Sized.marketSize
  split
  next hbuys =>
    obtain ⟨rfl, hsome⟩ := hquote hbuys
    obtain ⟨v, hv⟩ := Option.isSome_iff_exists.mp hsome
    rw [hv, Option.getD_some, zero_add]
    exact hsized.quote v hv
  next =>
    have hmax : max 0 (x.sized.quantity - reported) = x.sized.quantity - reported :=
      max_eq_right (sub_nonneg.mpr hleft.le)
    rw [hmax, add_sub_cancel]
    exact hsized.quantity

/-! ## Steps -/

/-- One move of the running execution. -/
theorem runFits_move {m : Move}
    (hothers : ∀ (j : ℕ) (y : Execution), j ≠ i → s.executions[j]? = some y → y.phase = .ended)
    (hcounted : countedIn s.orders ≤ o.asked s.ledgerRead) (hsized : SizedFits (o.asked s.ledgerRead) x.sized)
    (hphase : PhaseFits o s x.sized x.phase) (hx : s.executions[i]? = some x)
    (hok : SubmitsOnce o s (.execution i m)) (h : s.move o i x m = some t) : RunFits o t := by
  cases m with
  | size reads limitPrice =>
    simp only [State.move, ne_eq, Option.ite_none_left_eq_some, not_not] at h
    obtain ⟨hchecks, h⟩ := h
    rw [hchecks] at hphase
    split at h
    next hstock =>
      simp only [Option.some.injEq] at h
      subst h
      have hfits : SizedFits (o.asked s.ledgerRead) { quantity := o.amount } := ⟨o.amount_le_asked, by simp⟩
      have hsingle : singleSize o { quantity := o.amount } = o.amount := by
        simp [singleSize, mode_of_stock hstock]
      exact runFits_goOn (x := { x with sized := { quantity := o.amount } }) hothers hcounted hfits
        ⟨hphase, hsingle.trans_le o.amount_le_asked⟩
    next hstock =>
    have hread : s.ledgerRead ≤ max s.ledgerRead reads.ledgerSize := le_max_left ..
    have hcounted' := hcounted.trans (o.asked_mono hread)
    split at h
    next hnone =>
      simp only [Option.some.injEq] at h
      subst h
      exact runFits_goOn hothers hcounted' ⟨hsized.quantity.trans (o.asked_mono hread),
        fun v hv => (hsized.quote v hv).trans (o.asked_mono hread)⟩ trivial
    next sized hsome =>
      simp only [Option.some.injEq] at h
      subst h
      have hfits : SizedFits (o.asked (max s.ledgerRead reads.ledgerSize)) sized :=
        fits_sizeOrder hsome (le_max_right ..)
      exact runFits_goOn (x := { x with sized := sized }) hothers hcounted' hfits
        (fits_firstPhase hphase hfits fun hbuys hmode =>
          quote_sizeOrder_isSome hsome (hok hbuys hmode))
  | readLedger =>
    simp only [State.move, ne_eq, Option.ite_none_left_eq_some, not_not] at h
    obtain ⟨hledger, h⟩ := h
    rw [hledger] at hphase
    obtain ⟨hrec, hsize⟩ := hphase
    split at h
    next hseen =>
      simp only [Option.some.injEq] at h
      subst h
      exact runFits_goOn hothers hcounted hsized ⟨hrec.resolve_right fun hr => hseen hr.2.2, hsize⟩
    next hseen =>
    split at h
    next hlooks =>
      simp only [Option.some.injEq] at h
      subst h
      exact runFits_goOn hothers hcounted hsized hsize
    next hlooks =>
      simp only [Option.some.injEq] at h
      subst h
      have hnil : s.orders = [] := hrec.resolve_right fun hr => hlooks hr.2.1
      exact runFits_goOn hothers hcounted hsized ⟨by simpa [hnil, countedIn] using hsize, by simp⟩
  | insertAttempt =>
    simp only [State.move] at h
    split at h
    next number hinsert =>
      simp only [Option.ite_none_left_eq_some, Option.some.injEq] at h
      obtain ⟨-, rfl⟩ := h
      rw [hinsert] at hphase
      obtain ⟨hnil, hsize⟩ := hphase
      exact runFits_goOn (x := { x with logged := true }) hothers hcounted hsized
        ⟨by simpa [hnil, countedIn] using hsize, by simp⟩
    next => cases h
  | lookUp found =>
    simp only [State.move, ne_eq, Option.ite_none_left_eq_some, not_not] at h
    obtain ⟨hlookUp, h⟩ := h
    rw [hlookUp] at hphase
    split at h
    next hfound =>
      simp only [Option.some.injEq] at h
      subst h
      exact runFits_goOn hothers hcounted hsized trivial
    next hfound =>
      simp only [Option.some.injEq] at h
      subst h
      have hnil : s.orders = [] := hok (by simpa using hfound)
      exact runFits_goOn hothers hcounted hsized
        ⟨by simpa [hnil, countedIn, PhaseFits] using hphase, by simp⟩
  | submit accepted =>
    simp only [State.move] at h
    split at h
    next leg size hplacing =>
      rw [hplacing] at hphase
      obtain ⟨hroom, hlimit⟩ := hphase
      split at h
      next =>
        simp only [Option.some.injEq] at h
        subst h
        refine runFits_goOn hothers ?_ hsized ?_
        · simpa [countedIn_append, BrokerOrder.counted] using hroom
        · rintro hleg k ⟨⟩
          obtain ⟨hnil, hquantity⟩ := hlimit hleg
          exact ⟨by simp [hnil], ⟨leg, size, 0, 0⟩, by simp [hnil], hleg, hquantity⟩
      next =>
        simp only [Option.some.injEq] at h
        subst h
        exact runFits_goOn hothers hcounted hsized (by simp [PhaseFits])
    next => cases h
  | returns success =>
    simp only [State.move] at h
    split at h
    next leg order hanswering =>
      simp only [Option.ite_none_left_eq_some, Option.some.injEq] at h
      obtain ⟨-, rfl⟩ := h
      exact runFits_goOn hothers hcounted hsized (fits_placedPhase (hanswering ▸ hphase))
    next => cases h
  | raises exception =>
    simp only [State.move] at h
    split at h
    · simp only [Option.some.injEq] at h
      exact h ▸ runFits_goOn hothers hcounted hsized fits_raisedPhase
    · simp only [Option.some.injEq] at h
      exact h ▸ runFits_goOn hothers hcounted hsized fits_raisedPhase
    · cases h
  | waited fill =>
    simp only [State.move] at h
    split at h
    next leg k hwaiting =>
      simp only [Option.some.injEq] at h
      subst h
      exact runFits_goOn hothers hcounted hsized (fits_waitedPhase (hwaiting ▸ hphase))
    next => cases h
  | cancelled =>
    simp only [State.move] at h
    split at h
    next k reported hcancelling =>
      simp only [Option.some.injEq] at h
      subst h
      rw [hcancelling] at hphase
      exact runFits_goOn hothers hcounted hsized
        (fits_cancelledPhase hcancelling hphase hsized (hok x hx))
    next => cases h
  | logEnd =>
    simp only [State.move] at h
    split at h
    next status hlogging =>
      simp only [Option.some.injEq] at h
      exact h ▸ runFits_goOn hothers hcounted hsized trivial
    next => cases h
  | markSent finalFilled =>
    simp only [State.move, ne_eq, Option.ite_none_left_eq_some, Option.some.injEq] at h
    exact h.2 ▸ runFits_goOn hothers hcounted hsized trivial
  | markFailed =>
    simp only [State.move, Option.some.injEq] at h
    exact h ▸ runFits_goOn hothers hcounted hsized trivial
  | crash =>
    simp only [State.move, Option.some.injEq] at h
    exact h ▸ runFits_goOn hothers hcounted hsized trivial

/-- What the broker does with an order leaves the order's leg and quantity, and what it
counts for does not grow. -/
theorem countedIn_modify_le {orders : List BrokerOrder} {k : ℕ} {f : BrokerOrder → BrokerOrder}
    (hf : ∀ order ∈ orders[k]?, (f order).counted ≤ order.counted) :
    countedIn (orders.modify k f) ≤ countedIn orders := by
  induction orders generalizing k with
  | nil => simp
  | cons order orders ih =>
    cases k with
    | zero => simpa [countedIn] using hf order (by simp)
    | succ k =>
      have hrest := ih (k := k) (fun order' h => hf order' (by simpa using h))
      simpa [countedIn] using hrest

theorem runFits_modify {k : ℕ} {f : BrokerOrder → BrokerOrder} (hinv : RunFits o s)
    (hleg : ∀ order, (f order).leg = order.leg) (hquantity : ∀ order, (f order).quantity = order.quantity)
    (hcounted : ∀ order ∈ s.orders[k]?, (f order).counted ≤ order.counted) :
    RunFits o (s.modify k f) := by
  have hle := countedIn_modify_le hcounted
  have hnil : s.orders = [] → (s.modify k f).orders = [] := fun h => by simp [State.modify, h]
  have honly : ∀ {sized : Sized} {k' : ℕ}, LimitOnly s sized k' → LimitOnly (s.modify k f) sized k' := by
    rintro sized k' ⟨rfl, order, horders, hlimit, hsize⟩
    cases k with
    | zero =>
      exact ⟨rfl, f order, by simp [State.modify, horders], (hleg order).trans hlimit,
        (hquantity order).trans hsize⟩
    | succ k => exact ⟨rfl, order, by simp [State.modify, horders], hlimit, hsize⟩
  have hrec : Recoverable o s → Recoverable o (s.modify k f) := Or.imp_left hnil
  refine ⟨hle.trans hinv.counted, fun i x hx hover => ?_⟩
  obtain ⟨hothers, hsized, hphase⟩ := hinv.running i x hx hover
  refine ⟨hothers, hsized, ?_⟩
  cases hx : x.phase with
  | checks => exact hrec (by simpa [hx, PhaseFits] using hphase)
  | ledger =>
    rw [hx] at hphase
    exact ⟨hrec hphase.1, hphase.2⟩
  | insert number =>
    rw [hx] at hphase
    exact ⟨hnil hphase.1, hphase.2⟩
  | lookUp =>
    rw [hx] at hphase
    exact hphase
  | placing leg size =>
    rw [hx] at hphase
    exact ⟨(add_le_add_left hle size).trans hphase.1, fun h => ⟨hnil (hphase.2 h).1, (hphase.2 h).2⟩⟩
  | answering leg order =>
    rw [hx] at hphase
    exact fun h k hk => honly (hphase h k hk)
  | waiting leg k =>
    rw [hx] at hphase
    exact fun h => honly (hphase h)
  | cancelling k reported =>
    rw [hx] at hphase
    exact honly hphase
  | logging status => trivial
  | finishing success => trivial
  | ended => trivial

/-- **Step lemma.** -/
theorem runFits_step {a : Act} (hinv : RunFits o s) (hok : SubmitsOnce o s a)
    (h : step o s a = some t) : RunFits o t := by
  cases a with
  | deadLetter =>
    simp only [step, Option.ite_none_right_eq_some, Option.some.injEq] at h
    exact h.2 ▸ ⟨hinv.counted, hinv.running⟩
  | requeueStale =>
    simp only [step, Option.ite_none_right_eq_some, Option.some.injEq] at h
    exact h.2 ▸ ⟨hinv.counted, hinv.running⟩
  | claim =>
    simp only [step, Option.ite_none_right_eq_some, Option.some.injEq] at h
    obtain ⟨-, rfl⟩ := h
    obtain ⟨hover, hrec⟩ := hok
    have hold : ∀ (j : ℕ) (y : Execution), s.executions[j]? = some y → y.phase = .ended := fun j y hy =>
      hover y (List.mem_of_getElem? hy)
    refine ⟨hinv.counted, fun i x hx hrunning => ?_⟩
    rw [List.getElem?_append] at hx
    split at hx
    next hlt => exact absurd (hold i x hx) hrunning
    next hge =>
    obtain ⟨hi, rfl⟩ : i - s.executions.length = 0 ∧ x = {} := by
      rw [List.getElem?_singleton] at hx
      split at hx
      next h0 => exact ⟨h0, (Option.some.inj hx).symm⟩
      next => cases hx
    refine ⟨fun j y hj hy => ?_, ⟨o.asked_nonneg, by simp⟩, hrec⟩
    rw [List.getElem?_append] at hy
    split at hy
    next hlt => exact hold j y hy
    next hge' =>
      rw [List.getElem?_eq_none (by simp; omega)] at hy
      cases hy
  | execution i m =>
    simp only [step, State.execute] at h
    split at h
    next => cases h
    next x hx =>
      simp only [Option.ite_none_left_eq_some] at h
      obtain ⟨hover, h⟩ := h
      obtain ⟨hothers, hsized, hphase⟩ := hinv.running i x hx hover
      exact runFits_move hothers hinv.counted hsized hphase hx hok h
  | fill k quantity =>
    simp only [step] at h
    split at h
    next => cases h
    next order horder =>
      simp only [Option.ite_none_right_eq_some, Option.some.injEq] at h
      exact h.2 ▸ runFits_modify hinv (fun _ => rfl) (fun _ => rfl) fun _ _ => le_rfl
  | withdraw k =>
    simp only [step] at h
    split at h
    next => cases h
    next order horder =>
      simp only [Option.some.injEq] at h
      refine h ▸ runFits_modify hinv (fun _ => rfl) (fun _ => rfl) fun order _ => ?_
      unfold BrokerOrder.counted
      dsimp only
      split
      · exact sub_le_sub_left (le_max_left ..) _
      · exact le_rfl

/-! ## Main result -/

/-- **The broker is asked for no more than the order.**  In every state of a run whose
steps all meet `SubmitsOnce`. -/
theorem withinOrder_of_submitsOnce {as : List Act} (hok : Runs.AllSteps (step o) (SubmitsOnce o) {} as)
    (hr : Runs.run (step o) {} as = some t) : WithinOrder o t := by
  have hstart : RunFits o {} :=
    ⟨by simpa [countedIn] using o.asked_nonneg, by simp⟩
  exact (Runs.run_invariant_of_allSteps (fun s a s' hs hok h => runFits_step hs hok h) hstart hok
    hr).counted

end

/-! ## Crashes after the broker accepted -/

namespace Crashes

def exact : StepSize where
  floor := id
  floor_le _ _ := le_rfl

def reads : SizingReads := { baseStep := exact, quoteStep := exact }

/-- A market order for 1 through an adapter that cannot look up. -/
def marketOrder : Order := { amount := 1, side := .buy }

/-- An execution up to the accepted submission. -/
def submitted (i : ℕ) : List Act :=
  [.claim, .execution i (.size reads 0), .execution i .readLedger, .execution i .insertAttempt,
    .execution i (.submit true)]

/-- The execution dies; the next one finds the order in the ledger and no way to look it
up. -/
def requeued : List Act :=
  submitted 0 ++ [.execution 0 .crash, .requeueStale, .claim, .execution 1 (.size reads 0),
    .execution 1 .readLedger, .execution 1 (.submit true)]

/-- The same, and the next one finds the order by its client id. -/
def lookedUp : List Act :=
  submitted 0 ++ [.execution 0 .crash, .requeueStale, .claim, .execution 1 (.size reads 0),
    .execution 1 .readLedger, .execution 1 (.lookUp true), .execution 1 (.markSent false)]

end Crashes

open Crashes in
theorem withinOrder_of_submitsOnce_lookedUp :
    ∃ t, Runs.run (step { marketOrder with looksUp := true }) {} lookedUp = some t ∧
      countedIn t.orders = 1 ∧ WithinOrder { marketOrder with looksUp := true } t := by
  obtain ⟨t, hrun, hcounted⟩ := Runs.exists_of_any (p := fun t : State => countedIn t.orders = 1)
    (show (Runs.run (step { marketOrder with looksUp := true }) {} lookedUp).any _ = true by
      decide +kernel)
  exact ⟨t, hrun, hcounted, withinOrder_of_submitsOnce (by decide +kernel) hrun⟩

open Crashes in
/-- Submitted twice. -/
theorem crashThenRequeued_doubles :
    ∃ t, Runs.run (step marketOrder) {} requeued = some t ∧ countedIn t.orders = 2 ∧
      ¬ WithinOrder marketOrder t := by
  obtain ⟨t, hrun, hcounted, hnot⟩ := Runs.exists_of_any
    (p := fun t : State => countedIn t.orders = 2 ∧
      ¬ countedIn t.orders ≤ marketOrder.asked t.ledgerRead)
    (show (Runs.run (step marketOrder) {} requeued).any _ = true by decide +kernel)
  exact ⟨t, hrun, hcounted, hnot⟩

end AlgoTrade.Dispatch
