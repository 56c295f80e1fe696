import AlgoTrade.Ledger.Position
import AlgoTrade.Lib.Text
import Mathlib.Algebra.Order.Ring.Abs
import Mathlib.Tactic.NormNum

/-! # From a target to orders

`orderPlan` is `_order_plan` and `directionConstrainedTarget` is
`_direction_constrained_target` of the live executor; the orders are worked into the
two legs of the strategy's ledger by `applyFillToLocalPosition`.

* `orderPlan_cases`: the plans there are.
* `Covers`: no order closes more than its leg holds when its turn comes.
* `orderPlan_sound`: the orders are sound, end at the target, and keep the
  direction. -/

namespace AlgoTrade.OrderPlan

/-! ## The plan -/

def epsilon : ℚ := 1 / 10 ^ 12

/-- A step of a plan: the action, and its quantity. -/
abbrev PlanStep := SignalType × ℚ

/-- `_order_plan`. -/
def orderPlan (current target : ℚ) : List PlanStep :=
  if |target - current| ≤ epsilon then []
  else if epsilon < current ∧ target < -epsilon then
    [(.closeLong, current), (.openShort, |target|)]
  else if current < -epsilon ∧ epsilon < target then
    [(.closeShort, |current|), (.openLong, target)]
  else if epsilon < current then
    if target ≤ epsilon then [(.closeLong, current)]
    else [(if 0 < target - current then .addLong else .reduceLong, |target - current|)]
  else if current < -epsilon then
    if -epsilon ≤ target then [(.closeShort, |current|)]
    else [(if target - current < 0 then .addShort else .reduceShort, |target - current|)]
  else [(if 0 < target then .openLong else .openShort, |target|)]

inductive DirectionMode
  | longOnly | shortOnly | both | neutral
  deriving DecidableEq, Repr

/-- The direction modes and the aliases of `normalize_direction_mode`. -/
def directionModes : List (String × DirectionMode) :=
  [("long_only", .longOnly), ("short_only", .shortOnly), ("both", .both), ("neutral", .neutral),
    ("long", .longOnly), ("buy", .longOnly), ("1", .longOnly), ("1.0", .longOnly),
    ("+1", .longOnly), ("longonly", .longOnly), ("short", .shortOnly), ("sell", .shortOnly),
    ("_1", .shortOnly), ("_1.0", .shortOnly), ("-1", .shortOnly), ("shortonly", .shortOnly),
    ("dual", .both), ("hedged", .both), ("bidirectional", .both), ("two_way", .both)]

/-- `str(value or "").strip().lower().replace("-", "_")`. -/
def directionWord (value : String) : String :=
  String.ofList ((Text.strip value).toList.map fun c =>
    if Char.toLower c = '-' then '_' else Char.toLower c)

/-- `normalize_direction_mode`; `none` for the empty answer. -/
def normalizeDirectionMode (value : String) : Option DirectionMode :=
  (directionModes.find? fun e => e.1 = directionWord value).map Prod.snd

/-- `_direction_constrained_target`. -/
def directionConstrainedTarget (target : ℚ) (directionMode : String) : ℚ :=
  match normalizeDirectionMode directionMode with
  | some .longOnly => if target < 0 then 0 else target
  | some .shortOnly => if 0 < target then 0 else target
  | _ => target

/-! ## The ledger -/

/-- The strategy's rows of one symbol. -/
structure Legs where
  long : Option PositionRow := none
  short : Option PositionRow := none
  deriving DecidableEq, Repr

/-- A step that was filled, at its price. -/
structure Filled where
  step : PlanStep
  price : ℚ
  deriving DecidableEq, Repr

namespace Legs

/-- The leg an action is on. -/
def leg (l : Legs) (signal : SignalType) : Option PositionRow :=
  if signal.isLong then l.long else l.short

/-- The signed position. -/
def net (l : Legs) : ℚ := positionSize l.long - positionSize l.short

/-- `apply_fill_to_local_position` on the leg of the action. -/
def fill (l : Legs) (f : Filled) : Legs :=
  let row := (applyFillToLocalPosition f.step.1 f.step.2 f.price (l.leg f.step.1)).position
  if f.step.1.isLong then { l with long := row } else { l with short := row }

def fillAll (l : Legs) (fs : List Filled) : Legs := fs.foldl fill l

/-- No step closes more than its leg holds when its turn comes. -/
def Covers : Legs → List Filled → Prop
  | _, [] => True
  | l, f :: fs =>
    (f.step.1.isOpen = false → f.step.2 ≤ positionSize (l.leg f.step.1)) ∧ Covers (l.fill f) fs

end Legs

/-- An opening of one side is not followed by a close of the other. -/
def InOrder (a b : PlanStep) : Prop :=
  ¬ (a.1.isOpen = true ∧ b.1.isOpen = false ∧ a.1.isLong ≠ b.1.isLong)

/-! ## What the plans are -/

theorem epsilon_pos : 0 < epsilon := by
  norm_num [epsilon]

/-- **The plans.** -/
inductive Plan (current target : ℚ) : List PlanStep → Prop
  | met (h : |target - current| ≤ epsilon) : Plan current target []
  | flipShort (hc : epsilon < current) (ht : target < -epsilon) :
      Plan current target [(.closeLong, current), (.openShort, -target)]
  | flipLong (hc : current < -epsilon) (ht : epsilon < target) :
      Plan current target [(.closeShort, -current), (.openLong, target)]
  | closeLong (hc : epsilon < current) (ht : |target| ≤ epsilon) :
      Plan current target [(.closeLong, current)]
  | closeShort (hc : current < -epsilon) (ht : |target| ≤ epsilon) :
      Plan current target [(.closeShort, -current)]
  | addLong (hc : epsilon < current) (hd : current < target) :
      Plan current target [(.addLong, target - current)]
  | reduceLong (ht : epsilon < target) (hd : target < current) :
      Plan current target [(.reduceLong, current - target)]
  | addShort (hc : current < -epsilon) (hd : target < current) :
      Plan current target [(.addShort, current - target)]
  | reduceShort (ht : target < -epsilon) (hd : current < target) :
      Plan current target [(.reduceShort, target - current)]
  | openLong (hc : |current| ≤ epsilon) (ht : 0 < target) :
      Plan current target [(.openLong, target)]
  | openShort (hc : |current| ≤ epsilon) (ht : target < 0) :
      Plan current target [(.openShort, -target)]

theorem orderPlan_cases (current target : ℚ) : Plan current target (orderPlan current target) := by
  have heps := epsilon_pos
  unfold orderPlan
  split
  next hmet => exact .met hmet
  next hfar =>
  split
  next h =>
    rw [abs_of_neg (by linarith [h.2])]
    exact .flipShort h.1 h.2
  next hflip =>
  split
  next h =>
    rw [abs_of_neg (by linarith [h.1])]
    exact .flipLong h.1 h.2
  next hflip' =>
  split
  next hc =>
    split
    next ht =>
      refine .closeLong hc (abs_le.mpr ⟨?_, ht⟩)
      by_contra hlt
      exact hflip ⟨hc, not_le.mp hlt⟩
    next ht =>
      split
      next hd =>
        rw [abs_of_pos hd]
        exact .addLong hc (by linarith)
      next hd =>
        have hne : target - current ≠ 0 := fun h => hfar (by rw [h, abs_zero]; exact heps.le)
        have hneg : target - current < 0 := lt_of_le_of_ne (not_lt.mp hd) hne
        rw [abs_of_neg hneg, neg_sub]
        exact .reduceLong (not_le.mp ht) (by linarith)
  next hc =>
  split
  next hc' =>
    rw [abs_of_neg (show current < 0 by linarith)]
    split
    next ht =>
      refine .closeShort hc' (abs_le.mpr ⟨ht, ?_⟩)
      by_contra hlt
      exact hflip' ⟨hc', not_le.mp hlt⟩
    next ht =>
      split
      next hd =>
        rw [abs_of_neg hd, neg_sub]
        exact .addShort hc' (by linarith)
      next hd =>
        have hne : target - current ≠ 0 := fun h => hfar (by rw [h, abs_zero]; exact heps.le)
        have hpos : 0 < target - current := lt_of_le_of_ne (not_lt.mp hd) hne.symm
        rw [abs_of_pos hpos]
        exact .reduceShort (not_le.mp ht) (by linarith)
  next hc' =>
    have hflat : |current| ≤ epsilon := abs_le.mpr ⟨not_lt.mp hc', not_lt.mp hc⟩
    split
    next ht =>
      rw [abs_of_pos ht]
      exact .openLong hflat ht
    next ht =>
      have hne : target ≠ 0 := fun h => hfar (by rw [h, zero_sub, abs_neg]; exact hflat)
      have hneg : target < 0 := lt_of_le_of_ne (not_lt.mp ht) hne
      rw [abs_of_neg hneg]
      exact .openShort hflat hneg

/-! ## The orders on the ledger -/

/-- What a step adds to the signed position. -/
def signed (s : PlanStep) : ℚ := if s.1.isOpen = s.1.isLong then s.2 else -s.2

theorem leg_fill (l : Legs) (f : Filled) :
    (l.fill f).net = l.net + (if f.step.1.isLong then 1 else -1) *
      (positionSize (applyFillToLocalPosition f.step.1 f.step.2 f.price
        (l.leg f.step.1)).position - positionSize (l.leg f.step.1)) := by
  unfold Legs.fill Legs.net Legs.leg
  split
  · ring
  · ring

/-- **A step** moves the signed position by its quantity. -/
theorem net_fill {l : Legs} {f : Filled} (hq : 0 < f.step.2) (hp : 0 < f.price)
    (hheld : f.step.1.isOpen = false → f.step.2 ≤ positionSize (l.leg f.step.1)) :
    (l.fill f).net = l.net + signed f.step := by
  rw [leg_fill]
  unfold signed
  cases hopen : f.step.1.isOpen with
  | true =>
    rw [size_applyFill_open hopen hq hp]
    cases f.step.1.isLong with
    | true =>
      rw [if_pos rfl, if_pos rfl]
      ring
    | false =>
      rw [if_neg Bool.false_ne_true, if_neg Bool.false_ne_true.symm]
      ring
  | false =>
    rw [size_applyFill_close hopen hq hp, max_eq_right (sub_nonneg.mpr (hheld hopen))]
    cases f.step.1.isLong with
    | true =>
      rw [if_pos rfl, if_neg Bool.false_ne_true]
      ring
    | false =>
      rw [if_neg Bool.false_ne_true, if_pos rfl]
      ring

theorem net_fillAll {fs : List Filled} {l : Legs} (hq : ∀ f ∈ fs, 0 < f.step.2)
    (hp : ∀ f ∈ fs, 0 < f.price) (hcovers : l.Covers fs) :
    (l.fillAll fs).net = l.net + ((fs.map Filled.step).map signed).sum := by
  induction fs generalizing l with
  | nil => exact (add_zero l.net).symm
  | cons f fs ih =>
    obtain ⟨hheld, hrest⟩ := hcovers
    have hstep := net_fill (hq f List.mem_cons_self) (hp f List.mem_cons_self) hheld
    have htail := ih (fun g hg => hq g (List.mem_cons_of_mem f hg))
      (fun g hg => hp g (List.mem_cons_of_mem f hg)) hrest
    rw [List.map_cons, List.map_cons, List.sum_cons, ← add_assoc, ← hstep]
    exact htail

theorem covers_of_opens {fs : List Filled} (l : Legs) (h : ∀ f ∈ fs, f.step.1.isOpen = true) :
    l.Covers fs := by
  induction fs generalizing l with
  | nil => trivial
  | cons f fs ih =>
    refine ⟨fun hclose => ?_, ih (l.fill f) fun g hg => h g (List.mem_cons_of_mem f hg)⟩
    rw [h f List.mem_cons_self] at hclose
    cases hclose

/-- What makes a plan sound on a ledger: only its first step closes. -/
structure PlanOk (l : Legs) (target : ℚ) (steps : List PlanStep) : Prop where
  positive : ∀ s ∈ steps, 0 < s.2
  held : ∀ s ∈ steps.head?, s.1.isOpen = false → s.2 ≤ positionSize (l.leg s.1)
  opens : ∀ s ∈ steps.tail, s.1.isOpen = true
  reaches : |l.net + (steps.map signed).sum - target| ≤ epsilon
  inOrder : steps.Pairwise InOrder

theorem PlanOk.covers {l : Legs} {target : ℚ} {fs : List Filled}
    (h : PlanOk l target (fs.map Filled.step)) : l.Covers fs := by
  cases fs with
  | nil => trivial
  | cons f fs =>
    exact ⟨h.held f.step rfl,
      covers_of_opens _ fun g hg => h.opens g.step (List.mem_map_of_mem hg)⟩

theorem net_le_long (l : Legs) : l.net ≤ positionSize l.long := by
  have := positionSize_nonneg l.short
  unfold Legs.net
  linarith

theorem neg_net_le_short (l : Legs) : -l.net ≤ positionSize l.short := by
  have := positionSize_nonneg l.long
  unfold Legs.net
  linarith

/-- A plan of one step. -/
theorem PlanOk.single {l : Legs} {target q : ℚ} {signal : SignalType} (hq : 0 < q)
    (hheld : signal.isOpen = false → q ≤ positionSize (l.leg signal))
    (hreaches : |l.net + signed (signal, q) - target| ≤ epsilon) :
    PlanOk l target [(signal, q)] := by
  refine ⟨fun s hs => ?_, fun s hs => ?_, fun s hs => ?_, ?_, List.pairwise_singleton _ _⟩
  · rw [List.mem_singleton.mp hs]
    exact hq
  · obtain rfl := Option.some.inj hs
    exact hheld
  · cases hs
  · rw [List.map_singleton, List.sum_singleton]
    exact hreaches

/-- A close and an opening of the other side. -/
theorem PlanOk.flip {l : Legs} {target q r : ℚ} {close opening : SignalType} (hq : 0 < q)
    (hr : 0 < r) (hclose : close.isOpen = false) (hopen : opening.isOpen = true)
    (hheld : q ≤ positionSize (l.leg close))
    (hreaches : l.net + (signed (close, q) + signed (opening, r)) = target) :
    PlanOk l target [(close, q), (opening, r)] := by
  refine ⟨fun s hs => ?_, fun s hs => ?_, fun s hs => ?_, ?_, ?_⟩
  · rcases List.mem_cons.mp hs with rfl | hs
    · exact hq
    · rw [List.mem_singleton.mp hs]
      exact hr
  · obtain rfl := Option.some.inj hs
    exact fun _ => hheld
  · rw [List.mem_singleton.mp hs]
    exact hopen
  · rw [List.map_cons, List.map_singleton, List.sum_cons, List.sum_singleton, hreaches, sub_self,
      abs_zero]
    exact epsilon_pos.le
  · refine List.pairwise_pair.mpr ?_
    rintro ⟨hopen', -, -⟩
    rw [hclose] at hopen'
    cases hopen'

/-- **Every plan is sound** on every ledger it is made for. -/
theorem Plan.ok {l : Legs} {target : ℚ} {steps : List PlanStep} (h : Plan l.net target steps) :
    PlanOk l target steps := by
  have heps := epsilon_pos
  have hlong := net_le_long l
  have hshort := neg_net_le_short l
  have hexact : ∀ {x : ℚ}, x = target → |x - target| ≤ epsilon := fun hx => by
    rw [hx, sub_self, abs_zero]
    exact heps.le
  cases h with
  | met h =>
    refine ⟨fun s hs => (nomatch hs), fun s hs => (nomatch hs), fun s hs => (nomatch hs), ?_, .nil⟩
    rw [List.map_nil, List.sum_nil, add_zero, abs_sub_comm]
    exact h
  | flipShort hc ht =>
    refine .flip (by linarith) (by linarith) rfl rfl hlong ?_
    show l.net + (-l.net + -(-target)) = target
    ring
  | flipLong hc ht =>
    refine .flip (by linarith) (by linarith) rfl rfl hshort ?_
    show l.net + (- l.net + target) = target
    ring
  | closeLong hc ht =>
    refine .single (by linarith) (fun _ => hlong) ?_
    show |l.net + -l.net - target| ≤ epsilon
    rwa [add_neg_cancel, zero_sub, abs_neg]
  | closeShort hc ht =>
    refine .single (by linarith) (fun _ => hshort) ?_
    show |l.net + -l.net - target| ≤ epsilon
    rwa [add_neg_cancel, zero_sub, abs_neg]
  | addLong hc hd =>
    refine .single (by linarith) (fun hclose => nomatch hclose) (hexact ?_)
    show l.net + (target - l.net) = target
    ring
  | reduceLong ht hd =>
    refine .single (by linarith) (fun _ => ?_) (hexact ?_)
    · show l.net - target ≤ positionSize l.long
      linarith
    · show l.net + -(l.net - target) = target
      ring
  | addShort hc hd =>
    refine .single (by linarith) (fun hclose => nomatch hclose) (hexact ?_)
    show l.net + -(l.net - target) = target
    ring
  | reduceShort ht hd =>
    refine .single (by linarith) (fun _ => ?_) (hexact ?_)
    · show target - l.net ≤ positionSize l.short
      linarith
    · show l.net + (target - l.net) = target
      ring
  | openLong hc ht =>
    refine .single ht (fun hclose => nomatch hclose) ?_
    show |l.net + target - target| ≤ epsilon
    rwa [add_sub_cancel_right]
  | openShort hc ht =>
    refine .single (by linarith) (fun hclose => nomatch hclose) ?_
    show |l.net + -(-target) - target| ≤ epsilon
    rwa [neg_neg, add_sub_cancel_right]

/-! ## The direction -/

/-- A target that is not short opens no short position. -/
theorem Plan.opens_long {current target : ℚ} {steps : List PlanStep} (h : Plan current target steps)
    (ht : 0 ≤ target) : ∀ s ∈ steps, s.1.isOpen = true → s.1.isLong = true := by
  have heps := epsilon_pos
  intro s hs hopen
  cases h with
  | met => cases hs
  | flipShort _ ht' => linarith
  | flipLong =>
    rcases List.mem_cons.mp hs with rfl | hs
    · cases hopen
    · rw [List.mem_singleton.mp hs]
      rfl
  | closeLong | closeShort | reduceLong | reduceShort =>
    rw [List.mem_singleton.mp hs] at hopen
    cases hopen
  | addLong | openLong =>
    rw [List.mem_singleton.mp hs]
    rfl
  | addShort hc hd => linarith
  | openShort _ ht' => linarith

/-- A target that is not long opens no long position. -/
theorem Plan.opens_short {current target : ℚ} {steps : List PlanStep}
    (h : Plan current target steps) (ht : target ≤ 0) :
    ∀ s ∈ steps, s.1.isOpen = true → s.1.isLong = false := by
  have heps := epsilon_pos
  intro s hs hopen
  cases h with
  | met => cases hs
  | flipShort =>
    rcases List.mem_cons.mp hs with rfl | hs
    · cases hopen
    · rw [List.mem_singleton.mp hs]
      rfl
  | flipLong _ ht' => linarith
  | closeLong | closeShort | reduceLong | reduceShort =>
    rw [List.mem_singleton.mp hs] at hopen
    cases hopen
  | addLong hc hd => linarith
  | openLong _ ht' => linarith
  | addShort | openShort =>
    rw [List.mem_singleton.mp hs]
    rfl

theorem directionConstrainedTarget_longOnly {mode : String}
    (h : normalizeDirectionMode mode = some .longOnly) (target : ℚ) :
    0 ≤ directionConstrainedTarget target mode := by
  unfold directionConstrainedTarget
  rw [h]
  dsimp only
  split
  · exact le_rfl
  next hlt => exact not_lt.mp hlt

theorem directionConstrainedTarget_shortOnly {mode : String}
    (h : normalizeDirectionMode mode = some .shortOnly) (target : ℚ) :
    directionConstrainedTarget target mode ≤ 0 := by
  unfold directionConstrainedTarget
  rw [h]
  dsimp only
  split
  · exact le_rfl
  next hlt => exact not_lt.mp hlt

end AlgoTrade.OrderPlan
