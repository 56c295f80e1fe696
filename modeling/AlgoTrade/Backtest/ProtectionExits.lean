import AlgoTrade.Backtest.PriceTicks

/-! # The exit of a protected position

The engine keeps running extremes and a latch; what it decides over a series of bars is
said here from the bars alone.

* `DueAt`: an exit is due at a bar; the trailing stop is at the extreme of all bars before.
* `ExitsOn`: at what price, and for which reason.
* `ratcheted_seeing`: the trailing stop only moves with the position.
* `firstExit_iff`: the first exit is on the first bar at which one is due. -/

namespace AlgoTrade.Backtest

/-! ## Bars -/

/-- What `evaluate_bar` is given. -/
structure PriceBar where
  timestamp : Time
  openPrice : ℚ
  highPrice : ℚ
  lowPrice : ℚ
  deriving DecidableEq, Repr

namespace PriceBar

def high (bar : PriceBar) : ℚ := max bar.openPrice bar.highPrice

def low (bar : PriceBar) : ℚ := min bar.openPrice bar.lowPrice

/-- Whether the bar gets as far as a trigger, above or below. -/
def reaches (bar : PriceBar) (above : Bool) (trigger : ℚ) : Bool :=
  if above then trigger ≤ bar.high else bar.low ≤ trigger

/-- The price of an exit at a trigger: the trigger, or the open beyond it. -/
def exitPrice (bar : PriceBar) (above : Bool) (trigger : ℚ) : ℚ :=
  if above then max trigger bar.openPrice else min trigger bar.openPrice

theorem touchedPrice_eq (bar : PriceBar) (above : Bool) (trigger : ℚ) :
    touchedPrice above trigger bar.openPrice bar.high bar.low =
      if bar.reaches above trigger then some (bar.exitPrice above trigger) else none := by
  unfold touchedPrice reaches exitPrice
  cases above with
  | true =>
    by_cases h : trigger ≤ bar.high
    · simp only [if_true, h, decide_true]
      split
      next hopen => rw [max_eq_right hopen]
      next hopen => rw [max_eq_left (not_le.mp hopen).le]
    · simp [h]
  | false =>
    by_cases h : bar.low ≤ trigger
    · simp only [Bool.false_eq_true, if_false, h, decide_true, if_true]
      split
      next hopen => rw [min_eq_right hopen]
      next hopen => rw [min_eq_left (not_le.mp hopen).le]
    · simp [h]

/-- An exit at a trigger that is reached is within the bar. -/
theorem exitPrice_mem {bar : PriceBar} {above : Bool} {trigger : ℚ}
    (h : bar.reaches above trigger = true) :
    bar.low ≤ bar.exitPrice above trigger ∧ bar.exitPrice above trigger ≤ bar.high := by
  have hlow : bar.low ≤ bar.openPrice := min_le_left _ _
  have hhigh : bar.openPrice ≤ bar.high := le_max_left _ _
  unfold reaches at h
  unfold exitPrice
  cases above with
  | true =>
    rw [if_pos rfl] at h ⊢
    exact ⟨hlow.trans (le_max_right _ _), max_le (of_decide_eq_true h) hhigh⟩
  | false =>
    rw [if_neg Bool.false_ne_true] at h ⊢
    exact ⟨le_min (of_decide_eq_true h) hlow, (min_le_right _ _).trans hhigh⟩

end PriceBar

/-! ## One bar -/

namespace ProtectionState

variable (state : ProtectionState)

/-- A short position is stopped above, and takes its profit below. -/
def isShort : Bool := state.side = .short

def stopPrice : ℚ :=
  state.entryPrice *
    (if state.side = .short then 1 + state.spec.stopLossPct else 1 - state.spec.stopLossPct)

def takePrice : ℚ :=
  state.entryPrice *
    (if state.side = .short then 1 - state.spec.takeProfitPct else 1 + state.spec.takeProfitPct)

/-- The state after a bar has moved its extremes. -/
def extendBar (bar : PriceBar) : ProtectionState :=
  { state with
    highestPrice := max state.highestPrice bar.high
    lowestPrice := min state.lowestPrice bar.low }

/-- The exit of this reason, when it is on and the bar gets to its trigger. -/
def exitOn (bar : PriceBar) (reason : ExitReason) (above : Bool) (trigger : ℚ) :
    ProtectionDecision :=
  ⟨state.symbol, state.side, reason, bar.exitPrice above trigger, trigger, bar.timestamp⟩

/-- The exits a bar may lead to: whether each does, and the exit. -/
def exits (bar : PriceBar) : List (Bool × ProtectionDecision) :=
  [(0 < state.spec.stopLossPct ∧ bar.reaches state.isShort state.stopPrice,
      state.exitOn bar .stopLoss state.isShort state.stopPrice),
    ((0 < state.spec.trailingStopPct ∧ state.armed = true) ∧ bar.reaches state.isShort state.trail,
      state.exitOn bar .trailingStop state.isShort state.trail),
    (0 < state.spec.takeProfitPct ∧ bar.reaches (!state.isShort) state.takePrice,
      state.exitOn bar .takeProfit (!state.isShort) state.takePrice),
    (timeLimitReached state bar.timestamp,
      ⟨state.symbol, state.side, .timeLimit, bar.openPrice, bar.openPrice, bar.timestamp⟩)]

/-- Some exit is due on the bar. -/
def Due (bar : PriceBar) : Prop := ∃ e ∈ state.exits bar, e.1 = true

instance (bar : PriceBar) : Decidable (state.Due bar) :=
  inferInstanceAs (Decidable (∃ e ∈ state.exits bar, _))

end ProtectionState

theorem map_snd_filter {α : Type*} (l : List (Bool × α)) :
    (l.filter Prod.fst).map Prod.snd = l.flatMap fun e => if e.1 = true then [e.2] else [] := by
  induction l with
  | nil => rfl
  | cons e l ih =>
    rw [List.flatMap_cons, ← ih]
    by_cases h : e.1 = true
    · rw [List.filter_cons_of_pos h, List.map_cons, if_pos h, List.singleton_append]
    · rw [List.filter_cons_of_neg h, if_neg h, List.nil_append]

/-- **The candidates** are the exits that are due. -/
theorem barCandidates_eq (state : ProtectionState) (bar : PriceBar) :
    barCandidates state bar.timestamp bar.openPrice bar.high bar.low =
      (state.settled, ((state.exits bar).filter Prod.fst).map Prod.snd) := by
  have hone : ∀ (p : Prop) [Decidable p] (reason : ExitReason) (above : Bool) (trigger : ℚ),
      (if p then ((touchedPrice above trigger bar.openPrice bar.high bar.low).map
        (fun price => ⟨state.symbol, state.side, reason, price, trigger, bar.timestamp⟩)).toList
          else []) =
        if decide (p ∧ bar.reaches above trigger = true) = true then
          [state.exitOn bar reason above trigger] else [] := by
    intro p _ reason above trigger
    rw [bar.touchedPrice_eq]
    by_cases hp : p
    · by_cases hreach : bar.reaches above trigger = true
      · rw [if_pos hp, if_pos hreach, if_pos (decide_eq_true ⟨hp, hreach⟩)]
        rfl
      · rw [if_pos hp, if_neg hreach, if_neg fun h => hreach (of_decide_eq_true h).2]
        rfl
    · rw [if_neg hp, if_neg fun h => hp (of_decide_eq_true h).1]
  have hstop := hone (0 < state.spec.stopLossPct) .stopLoss state.isShort state.stopPrice
  have htrail := hone (0 < state.spec.trailingStopPct ∧ state.armed = true) .trailingStop
    state.isShort state.trail
  have htake := hone (0 < state.spec.takeProfitPct) .takeProfit (!state.isShort) state.takePrice
  have htime := timeLimitReached_settled state bar.timestamp
  rw [map_snd_filter]
  unfold ProtectionState.exits
  rw [List.flatMap_cons, List.flatMap_cons, List.flatMap_cons, List.flatMap_singleton, ← hstop,
    ← htrail, ← htake]
  unfold barCandidates
  rw [trailingTrigger_eq]
  refine Prod.ext rfl ?_
  dsimp only
  rw [htime, List.append_assoc, List.append_assoc, decide_not]
  refine congrArg (_ ++ ·) (congrArg (· ++ _) ?_)
  split
  next trigger h =>
    obtain ⟨hon, htrigger⟩ := Option.ite_none_right_eq_some.mp h
    obtain rfl := Option.some.inj htrigger
    rw [if_pos hon]
    rfl
  next h => rw [if_neg fun hon => by rw [if_pos hon] at h; cases h]

theorem evaluateBar_eq (mode : IntrabarMode) (state : ProtectionState) (bar : PriceBar) :
    evaluateBar mode state bar.timestamp bar.openPrice bar.highPrice bar.lowPrice =
      match choose mode (((state.exits bar).filter Prod.fst).map Prod.snd) bar.openPrice with
      | some decision => (state.settled, some decision)
      | none => (state.settled.extendBar bar, none) := by
  have hcandidates := barCandidates_eq state bar
  unfold PriceBar.high PriceBar.low at hcandidates
  unfold evaluateBar
  dsimp only
  rw [hcandidates]
  rfl

theorem due_iff (state : ProtectionState) (bar : PriceBar) :
    state.Due bar ↔ ((state.exits bar).filter Prod.fst).map Prod.snd ≠ [] := by
  rw [ne_eq, List.map_eq_nil_iff, List.filter_eq_nil_iff]
  unfold ProtectionState.Due
  push Not
  rfl

/-! ## A series of bars -/

/-- The number of the first bar with an exit, and the exit. -/
def firstExit (mode : IntrabarMode) :
    ProtectionState → List PriceBar → Option (ℕ × ProtectionDecision)
  | _, [] => none
  | state, bar :: bars =>
    match evaluateBar mode state bar.timestamp bar.openPrice bar.highPrice bar.lowPrice with
    | (_, some decision) => some (0, decision)
    | (next, none) => (firstExit mode next bars).map fun e => (e.1 + 1, e.2)

/-- The state with the extremes of these bars. -/
def ProtectionState.seeing (state : ProtectionState) (bars : List PriceBar) : ProtectionState :=
  { state with
    highestPrice := (bars.map PriceBar.high).foldl max state.highestPrice
    lowestPrice := (bars.map PriceBar.low).foldl min state.lowestPrice }

/-- An exit is due at a bar: the trailing stop is where the bars before it put it. -/
def DueAt (state : ProtectionState) (bars : List PriceBar) (i : ℕ) : Prop :=
  ∃ bar ∈ bars[i]?, (state.seeing (bars.take i)).Due bar

instance (state : ProtectionState) (bars : List PriceBar) (i : ℕ) :
    Decidable (DueAt state bars i) := inferInstanceAs (Decidable (∃ bar ∈ bars[i]?, _))

section
variable {state s s' : ProtectionState} {bar : PriceBar} {bars : List PriceBar}

theorem extendBar_eq (state : ProtectionState) (bar : PriceBar) :
    state.extendBar bar = (state.extend bar.high).extend bar.low := by
  have hle : bar.low ≤ bar.high := (min_le_left _ _).trans (le_max_left _ _)
  unfold ProtectionState.extendBar ProtectionState.extend
  dsimp only
  rw [max_assoc, max_eq_left hle, min_assoc, min_eq_right hle]

theorem armed_extendBar (state : ProtectionState) (bar : PriceBar) :
    (state.extendBar bar).armed = (state.armed || (state.extendBar bar).reached) := by
  rw [extendBar_eq, armed_extend, armed_extend]
  cases hreached : (state.extend bar.high).reached with
  | false => rw [Bool.or_false]
  | true => rw [reached_extend hreached, Bool.or_true, Bool.or_true]

theorem SameTriggers.exits_eq (h : SameTriggers s s') (bar : PriceBar) :
    s'.exits bar = s.exits bar := by
  have htrail : s'.trail = s.trail := by
    rw [h.fields]
    rfl
  unfold ProtectionState.exits
  rw [← h.armed, htrail, h.fields]
  rfl

theorem SameTriggers.extendBar (h : SameTriggers s s') (bar : PriceBar) :
    SameTriggers (s.extendBar bar) (s'.settled.extendBar bar) := by
  have hfields : s'.settled.extendBar bar =
      { s.extendBar bar with trailingActive := (s'.settled.extendBar bar).trailingActive } := by
    unfold ProtectionState.settled
    rw [h.fields]
    split
    · rfl
    · rfl
  refine ⟨hfields, ?_⟩
  have hreached : (s'.settled.extendBar bar).reached = (s.extendBar bar).reached := by
    rw [hfields]
    rfl
  rw [armed_extendBar, armed_extendBar, armed_settled, h.armed, hreached]

theorem dueAt_zero : DueAt state (bar :: bars) 0 ↔ state.Due bar := by
  unfold DueAt
  simp only [List.getElem?_cons_zero, Option.mem_def, Option.some.injEq, exists_eq_left']
  rfl

theorem dueAt_succ (i : ℕ) :
    DueAt state (bar :: bars) (i + 1) ↔ DueAt (state.extendBar bar) bars i := Iff.rfl

end

/-! ## The exit -/

theorem firstMin_spec {α : Type*} {key : α → ℚ} {l : List α} {a : α} (h : firstMin key l = some a) :
    a ∈ l ∧ ∀ b ∈ l, key a ≤ key b := by
  induction l generalizing a with
  | nil => cases h
  | cons x l ih =>
    unfold firstMin at h
    split at h
    next hnone =>
      obtain rfl := Option.some.inj h
      obtain rfl := firstMin_eq_none.mp hnone
      refine ⟨List.mem_cons_self, fun b hb => ?_⟩
      obtain rfl := List.mem_singleton.mp hb
      exact le_rfl
    next y hy =>
      obtain ⟨hmem, hmin⟩ := ih hy
      split at h
      next hlt =>
        obtain rfl := Option.some.inj h
        refine ⟨List.mem_cons_of_mem x hmem, fun b hb => ?_⟩
        rcases List.mem_cons.mp hb with rfl | hb
        · exact hlt.le
        · exact hmin b hb
      next hge =>
        obtain rfl := Option.some.inj h
        refine ⟨List.mem_cons_self, fun b hb => ?_⟩
        rcases List.mem_cons.mp hb with rfl | hb
        · exact le_rfl
        · exact (not_lt.mp hge).trans (hmin b hb)

theorem choose_mem {mode : IntrabarMode} {candidates : List ProtectionDecision}
    {referencePrice : ℚ} {d : ProtectionDecision}
    (h : choose mode candidates referencePrice = some d) : d ∈ candidates := by
  cases mode with
  | conservative => exact (firstMin_spec h).1
  | balanced => exact (firstMin_spec h).1
  | aggressive => exact (firstMin_spec h).1

/-- What an exit is like: due, within its bar, at its trigger or beyond it, and what the
two strict modes put first. -/
structure ExitsOn (mode : IntrabarMode) (state : ProtectionState) (bar : PriceBar)
    (d : ProtectionDecision) : Prop where
  due : (true, d) ∈ state.exits bar
  within : bar.low ≤ d.price ∧ d.price ≤ bar.high
  stopped : d.reason = .stopLoss ∨ d.reason = .trailingStop →
    if state.side = .short then d.triggerPrice ≤ d.price else d.price ≤ d.triggerPrice
  taken : d.reason = .takeProfit →
    if state.side = .short then d.price ≤ d.triggerPrice else d.triggerPrice ≤ d.price
  conservative : mode = .conservative → 0 < state.spec.stopLossPct →
    bar.reaches state.isShort state.stopPrice = true → d.reason = .stopLoss
  aggressive : mode = .aggressive → 0 < state.spec.takeProfitPct →
    bar.reaches (!state.isShort) state.takePrice = true → d.reason = .takeProfit

theorem mem_exits {state : ProtectionState} {bar : PriceBar} {due : Bool}
    {d : ProtectionDecision} : (due, d) ∈ state.exits bar ↔
      (due = decide (0 < state.spec.stopLossPct ∧
          bar.reaches state.isShort state.stopPrice = true) ∧
        d = state.exitOn bar .stopLoss state.isShort state.stopPrice) ∨
      (due = decide ((0 < state.spec.trailingStopPct ∧ state.armed = true) ∧
          bar.reaches state.isShort state.trail = true) ∧
        d = state.exitOn bar .trailingStop state.isShort state.trail) ∨
      (due = decide (0 < state.spec.takeProfitPct ∧
          bar.reaches (!state.isShort) state.takePrice = true) ∧
        d = state.exitOn bar .takeProfit (!state.isShort) state.takePrice) ∨
      (due = timeLimitReached state bar.timestamp ∧
        d = ⟨state.symbol, state.side, .timeLimit, bar.openPrice, bar.openPrice,
          bar.timestamp⟩) := by
  unfold ProtectionState.exits
  simp only [List.mem_cons, List.not_mem_nil, or_false, Prod.mk.injEq]

theorem exitPrice_beyond (bar : PriceBar) (trigger : ℚ) :
    trigger ≤ bar.exitPrice true trigger ∧ bar.exitPrice false trigger ≤ trigger :=
  ⟨le_max_left _ _, min_le_left _ _⟩

/-- An exit below the position when it is long, above it when it is short. -/
theorem exitPrice_stopped (state : ProtectionState) (bar : PriceBar) (trigger : ℚ) :
    if state.side = .short then trigger ≤ bar.exitPrice state.isShort trigger
      else bar.exitPrice state.isShort trigger ≤ trigger := by
  unfold ProtectionState.isShort
  split
  next h =>
    rw [decide_eq_true h]
    exact (exitPrice_beyond bar trigger).1
  next h =>
    rw [decide_eq_false h]
    exact (exitPrice_beyond bar trigger).2

theorem exitPrice_taken (state : ProtectionState) (bar : PriceBar) (trigger : ℚ) :
    if state.side = .short then bar.exitPrice (!state.isShort) trigger ≤ trigger
      else trigger ≤ bar.exitPrice (!state.isShort) trigger := by
  unfold ProtectionState.isShort
  split
  next h =>
    rw [decide_eq_true h]
    exact (exitPrice_beyond bar trigger).2
  next h =>
    rw [decide_eq_false h]
    exact (exitPrice_beyond bar trigger).1

theorem eq_stopLoss_of_priority {reason : ExitReason}
    (h : conservativePriority reason ≤ conservativePriority .stopLoss) : reason = .stopLoss := by
  cases reason with
  | stopLoss => rfl
  | trailingStop => exact absurd h (by decide)
  | takeProfit => exact absurd h (by decide)
  | timeLimit => exact absurd h (by decide)

theorem eq_takeProfit_of_priority {reason : ExitReason}
    (h : aggressivePriority reason ≤ aggressivePriority .takeProfit) : reason = .takeProfit := by
  cases reason with
  | takeProfit => rfl
  | stopLoss => exact absurd h (by decide)
  | trailingStop => exact absurd h (by decide)
  | timeLimit => exact absurd h (by decide)

/-- **The exit** of a bar. -/
theorem exitsOn_of_choose {mode : IntrabarMode} {state : ProtectionState} {bar : PriceBar}
    {d : ProtectionDecision}
    (h : choose mode (((state.exits bar).filter Prod.fst).map Prod.snd) bar.openPrice = some d) :
    ExitsOn mode state bar d := by
  have hcandidate : ∀ e, e ∈ ((state.exits bar).filter Prod.fst).map Prod.snd ↔
      (true, e) ∈ state.exits bar := by
    intro e
    rw [List.mem_map]
    constructor
    · rintro ⟨x, hx, rfl⟩
      obtain ⟨hmem, hdue⟩ := List.mem_filter.mp hx
      rwa [← hdue]
    · intro hmem
      exact ⟨(true, e), List.mem_filter.mpr ⟨hmem, rfl⟩, rfl⟩
  have hdue : (true, d) ∈ state.exits bar := (hcandidate d).mp (choose_mem h)
  refine ⟨hdue, ?_, ?_, ?_, ?_, ?_⟩
  · rcases mem_exits.mp hdue with ⟨hon, rfl⟩ | ⟨hon, rfl⟩ | ⟨hon, rfl⟩ | ⟨-, rfl⟩
    · exact PriceBar.exitPrice_mem (of_decide_eq_true hon.symm).2
    · exact PriceBar.exitPrice_mem (of_decide_eq_true hon.symm).2
    · exact PriceBar.exitPrice_mem (of_decide_eq_true hon.symm).2
    · exact ⟨min_le_left _ _, le_max_left _ _⟩
  · intro hreason
    rcases mem_exits.mp hdue with ⟨-, rfl⟩ | ⟨-, rfl⟩ | ⟨-, rfl⟩ | ⟨-, rfl⟩
    · exact exitPrice_stopped state bar _
    · exact exitPrice_stopped state bar _
    · rcases hreason with hreason | hreason <;> cases hreason
    · rcases hreason with hreason | hreason <;> cases hreason
  · intro hreason
    rcases mem_exits.mp hdue with ⟨-, rfl⟩ | ⟨-, rfl⟩ | ⟨-, rfl⟩ | ⟨-, rfl⟩
    · cases hreason
    · cases hreason
    · exact exitPrice_taken state bar _
    · cases hreason
  · rintro rfl hon hreach
    have hle := (firstMin_spec h).2 _ ((hcandidate _).mpr (mem_exits.mpr
      (.inl ⟨(decide_eq_true ⟨hon, hreach⟩).symm, rfl⟩)))
    exact eq_stopLoss_of_priority hle
  · rintro rfl hon hreach
    have hle := (firstMin_spec h).2 _ ((hcandidate _).mpr (mem_exits.mpr
      (.inr (.inr (.inl ⟨(decide_eq_true ⟨hon, hreach⟩).symm, rfl⟩)))))
    exact eq_takeProfit_of_priority hle

theorem ExitsOn.congr {mode : IntrabarMode} {s s' : ProtectionState} {bar : PriceBar}
    {d : ProtectionDecision} (h : SameTriggers s s') (hd : ExitsOn mode s' bar d) :
    ExitsOn mode s bar d := by
  obtain ⟨hdue, hwithin, hstopped, htaken, hconservative, haggressive⟩ := hd
  rw [h.exits_eq] at hdue
  rw [h.fields] at hstopped htaken hconservative haggressive
  exact ⟨hdue, hwithin, hstopped, htaken, hconservative, haggressive⟩

/-- **The first exit** is on the first bar at which one is due. -/
theorem firstExit_spec (mode : IntrabarMode) {s s' : ProtectionState} (h : SameTriggers s s')
    (bars : List PriceBar) :
    match firstExit mode s' bars with
    | none => ∀ i, ¬ DueAt s bars i
    | some (i, d) => (∀ j < i, ¬ DueAt s bars j) ∧
      ∃ bar ∈ bars[i]?, ExitsOn mode (s.seeing (bars.take i)) bar d := by
  induction bars generalizing s s' with
  | nil =>
    rintro i ⟨bar, hbar, -⟩
    cases hbar
  | cons bar bars ih =>
    have hexits := h.exits_eq bar
    unfold firstExit
    rw [evaluateBar_eq, hexits]
    cases hchoice : choose mode (((s.exits bar).filter Prod.fst).map Prod.snd) bar.openPrice with
    | some d =>
      exact ⟨fun j hj => absurd hj (Nat.not_lt_zero j), bar, rfl, exitsOn_of_choose hchoice⟩
    | none =>
      have hquiet : ¬ s.Due bar := fun hdue => (due_iff s bar).mp hdue (choose_eq_none.mp hchoice)
      have hrest := ih (h.extendBar bar)
      dsimp only
      cases hexit : firstExit mode (s'.settled.extendBar bar) bars with
      | none =>
        rw [hexit] at hrest
        intro i hi
        cases i with
        | zero => exact hquiet (dueAt_zero.mp hi)
        | succ i => exact hrest i hi
      | some e =>
        rw [hexit] at hrest
        obtain ⟨hearlier, hon⟩ := hrest
        refine ⟨fun j hj => ?_, hon⟩
        cases j with
        | zero => exact fun hi => hquiet (dueAt_zero.mp hi)
        | succ j => exact hearlier j (Nat.lt_of_succ_lt_succ hj)

/-! ## The trailing stop -/

/-- The trailing stop of the second state is armed when that of the first is, and is no
farther from the extreme price the position hopes for. -/
structure Ratcheted (s s' : ProtectionState) : Prop where
  armed : s.armed = true → s'.armed = true
  trail : if s.side = .short then s'.trail ≤ s.trail else s.trail ≤ s'.trail

theorem Ratcheted.refl (s : ProtectionState) : Ratcheted s s := by
  refine ⟨id, ?_⟩
  split
  · exact le_rfl
  · exact le_rfl

theorem ratcheted_extendBar (s : ProtectionState) (bar : PriceBar) :
    Ratcheted s (s.extendBar bar) := by
  refine ⟨fun harmed => ?_, ?_⟩
  · rw [armed_extendBar, harmed, Bool.true_or]
  · have hshort : 0 ≤ 1 + s.spec.trailingStopPct := by linarith [s.spec.trailingStop_mem.1]
    have hlong : 0 ≤ 1 - s.spec.trailingStopPct := by linarith [s.spec.trailingStop_mem.2]
    unfold ProtectionState.trail
    have hsame : (s.extendBar bar).side = s.side := rfl
    cases hside : s.side with
    | short =>
      rw [if_pos rfl, hsame, hside]
      exact mul_le_mul_of_nonneg_right (min_le_left _ _) hshort
    | long =>
      rw [if_neg (by decide), hsame, hside]
      exact mul_le_mul_of_nonneg_right (le_max_left _ _) hlong

theorem Ratcheted.trans {s s' s'' : ProtectionState} (h : Ratcheted s s') (h' : Ratcheted s' s'')
    (hside : s'.side = s.side) : Ratcheted s s'' := by
  obtain ⟨harmed, htrail⟩ := h
  obtain ⟨harmed', htrail'⟩ := h'
  refine ⟨fun hs => harmed' (harmed hs), ?_⟩
  rw [hside] at htrail'
  split
  next hshort =>
    rw [if_pos hshort] at htrail htrail'
    exact htrail'.trans htrail
  next hlong =>
    rw [if_neg hlong] at htrail htrail'
    exact htrail.trans htrail'

/-- **The trailing stop** only moves with the position. -/
theorem ratcheted_seeing (s : ProtectionState) (bars : List PriceBar) :
    Ratcheted s (s.seeing bars) := by
  induction bars generalizing s with
  | nil => exact .refl s
  | cons bar bars ih => exact (ratcheted_extendBar s bar).trans (ih (s.extendBar bar)) rfl

theorem seeing_append (s : ProtectionState) (bars bars' : List PriceBar) :
    s.seeing (bars ++ bars') = (s.seeing bars).seeing bars' := by
  unfold ProtectionState.seeing
  rw [List.map_append, List.map_append, List.foldl_append, List.foldl_append]

theorem ratcheted_take (s : ProtectionState) (bars : List PriceBar) {i j : ℕ} (h : i ≤ j) :
    Ratcheted (s.seeing (bars.take i)) (s.seeing (bars.take j)) := by
  obtain ⟨k, rfl⟩ := Nat.exists_eq_add_of_le h
  rw [List.take_add, seeing_append]
  exact ratcheted_seeing _ _

/-- **The exit of a position.**  In every intrabar mode it comes on the first bar at which
one is due. -/
theorem firstExit_iff (mode : IntrabarMode) (state : ProtectionState) (bars : List PriceBar) :
    (∀ i, (∃ d, firstExit mode state bars = some (i, d)) ↔
      DueAt state bars i ∧ ∀ j < i, ¬ DueAt state bars j) ∧
    (∀ i d, firstExit mode state bars = some (i, d) →
      ∃ bar ∈ bars[i]?, ExitsOn mode (state.seeing (bars.take i)) bar d) ∧
    ∀ i j, i ≤ j → Ratcheted (state.seeing (bars.take i)) (state.seeing (bars.take j)) := by
  have hspec := firstExit_spec mode (SameTriggers.refl state) bars
  refine ⟨fun i => ⟨?_, ?_⟩, fun i d hexit => ?_, fun i j => ratcheted_take state bars⟩
  · rintro ⟨d, hexit⟩
    rw [hexit] at hspec
    obtain ⟨hearlier, bar, hbar, hon⟩ := hspec
    exact ⟨⟨bar, hbar, (true, d), hon.due, rfl⟩, hearlier⟩
  · rintro ⟨hdue, hearlier⟩
    cases hexit : firstExit mode state bars with
    | none =>
      rw [hexit] at hspec
      exact absurd hdue (hspec i)
    | some e =>
      rw [hexit] at hspec
      obtain ⟨hearlier', bar, hbar, hon⟩ := hspec
      have hdue' : DueAt state bars e.1 := ⟨bar, hbar, (true, e.2), hon.due, rfl⟩
      rcases Nat.lt_trichotomy i e.1 with hlt | heq | hgt
      · exact absurd hdue (hearlier' i hlt)
      · exact ⟨e.2, by rw [heq]⟩
      · exact absurd hdue' (hearlier e.1 hgt)
  · rw [hexit] at hspec
    exact hspec.2

end AlgoTrade.Backtest
