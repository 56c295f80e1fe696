import Mathlib.Data.List.Pairwise
import Mathlib.Logic.Relation
import AlgoTrade.Lib.Runs
import AlgoTrade.Robot.Dca

/-! # The budget of a DCA cycle

The pending purchase is the newest order and the only one that works; what the others
filled is counted in `spentValue` and `orderCount`.

* `Move`: one change of the purchases; `moves_of_step` for a step of the robot.
* `Inv`: one purchase at a time, an interval apart.
* `Within`: the budget and the number of purchases.
* `purchases_kept`: both, over every run.
* `forgottenPurchase_overspends`: a partial fill before a cancellation is not counted. -/

namespace AlgoTrade.Robot.Dca

/-- The part of a state that buys. -/
structure Book where
  orderCount : ℕ
  lastScheduleAt : Option ℚ
  spentValue : ℚ
  cycleCapital : ℚ
  pendingRef : Option Ref
  pendingValue : ℚ
  cycleNo : ℕ
  orders : List Purchase

def State.book (g : State) (orders : List Purchase) : Book :=
  ⟨g.orderCount, g.lastScheduleAt, g.spentValue, g.cycleCapital, g.pendingRef, g.pendingValue,
    g.cycleNo, orders⟩

def System.book (s : System) : Book := s.g.book s.orders

/-! ## Moves -/

/-- A book after a schedule that may have set the capital. -/
def Book.scheduled (b : Book) (now capital : ℚ) : Book :=
  { b with lastScheduleAt := some now, cycleCapital := capital }

/-- A book after the purchase `o` with this capital. -/
def Book.buy (b : Book) (o : Purchase) : Book :=
  { b with
    lastScheduleAt := some o.tag.time
    cycleCapital := o.tag.capital
    pendingRef := some o.reference
    pendingValue := o.quote
    orders := o :: b.orders }

/-- The capital of a cycle is set once. -/
def Book.CapitalIs (b : Book) (capital : ℚ) : Prop :=
  b.cycleCapital ≤ 0 ∨ capital = b.cycleCapital

/-- The next purchase of a book. -/
structure Buys (cfg : Config) (b : Book) (o : Purchase) : Prop where
  idle : b.pendingRef = none
  count : b.orderCount < cfg.maxOrders
  inTime : ∀ last, b.lastScheduleAt = some last → last + 60 * cfg.intervalMinutes ≤ o.tag.time
  cycle : o.tag.cycle = b.cycleNo
  capital : b.CapitalIs o.tag.capital
  quote : o.quote = purchaseValue cfg o.tag.capital b.spentValue
  quote_pos : 0 < o.quote
  filled : o.filled = 0
  working : o.status = .working

/-- One change of the purchases.  With `exact`, no purchase fails after a partial fill and
none counts for less than it filled. -/
inductive Move (cfg : Config) (exact : Prop) : Book → Book → Prop
  | order {b : Book} {r : Ref} {orders' : List Purchase} {o o' : Purchase}
      (h : Moves r b.orders orders' o o')
      (hfail : exact → o'.status.isFailure = true → o'.filled = 0) :
      Move cfg exact b { b with orders := orders' }
  | settle {b : Book} {r : Ref} {value : ℚ} (hr : b.pendingRef = some r)
      (hs : ∀ o, find b.orders r = some o → o.status = .filled)
      (hvalue : exact → ∀ o, find b.orders r = some o → o.filled ≤ b.pendingValue →
        o.filled ≤ value) :
      Move cfg exact b
        { b with
          spentValue := b.spentValue + value
          orderCount := b.orderCount + 1
          pendingRef := none
          pendingValue := 0 }
  | failed {b : Book} {r : Ref} (hr : b.pendingRef = some r)
      (hs : ∀ o, find b.orders r = some o → o.status.isFailure = true) :
      Move cfg exact b { b with pendingRef := none, pendingValue := 0 }
  | reset {b : Book} (hr : b.pendingRef = none) :
      Move cfg exact b ⟨0, none, 0, 0, none, 0, b.cycleNo + 1, b.orders⟩
  | skip {b : Book} {now capital : ℚ} (hr : b.pendingRef = none) (hcapital : b.CapitalIs capital)
      (htime : ∀ last, b.lastScheduleAt = some last → last ≤ now) :
      Move cfg exact b (b.scheduled now capital)
  | buy {b : Book} {o : Purchase} (h : Buys cfg b o) : Move cfg exact b (b.buy o)

section moves

variable {cfg : Config} {exact : Prop}

abbrev Chain (cfg : Config) (exact : Prop) : Book → Book → Prop :=
  Relation.ReflTransGen (Move cfg exact)

theorem le_settledValue {status : Report} {pending : ℚ} (hfee : 0 ≤ status.fee)
    (hle : status.filledNotional ≤ pending) :
    status.filledNotional ≤ settledValue status pending := by
  unfold settledValue
  split
  · exact hle
  · exact le_add_of_nonneg_right hfee

theorem status_of_find {s : System} {r : Ref} {o : Purchase} (h : find s.orders r = some o)
    (seen : Seen) : s.status seen r = ⟨o.status, o.filled, seen.fee⟩ := by
  unfold System.status getOrderStatus
  rw [h]
  rfl

theorem chain_reconcile {s : System} {seen : Seen} (hfee : exact → 0 ≤ seen.fee) :
    Chain cfg exact s.book ((reconcilePurchase (s.status seen) s.g).book s.orders) := by
  unfold reconcilePurchase
  split
  · exact .refl
  next r hr =>
    dsimp only
    split
    next hf =>
      refine .single (.settle hr (fun o ho => ?_) fun he o ho hle => ?_)
      · rw [status_of_find ho] at hf
        exact hf
      · rw [status_of_find ho]
        exact le_settledValue (hfee he) hle
    next =>
      split
      next hf =>
        refine .single (.failed hr fun o ho => ?_)
        rw [status_of_find ho] at hf
        exact hf
      next => exact .refl

theorem book_equityRiskExit (seen : Seen) (s : System) :
    (equityRiskExit cfg seen s).1.book = s.book := by
  unfold equityRiskExit
  split
  · rfl
  · dsimp only
    split
    · rfl
    · rfl

theorem book_riskExit (price : ℚ) (seen : Seen) (s : System) :
    (riskExit cfg price seen s).1.book = s.book := by
  unfold riskExit
  split
  · rfl
  · dsimp only
    split
    · rfl
    · split
      · rfl
      · rfl

theorem book_priceFilter (price : ℚ) (g : State) (orders : List Purchase) :
    (priceFilterAllows cfg price g).1.book orders = g.book orders := by
  unfold priceFilterAllows
  dsimp only
  split
  · split
    · rfl
    · rfl
  · rfl

theorem capitalIs_cycleCapital (seen : Seen) (g : State) (orders : List Purchase) :
    (g.book orders).CapitalIs (cycleCapital seen g) := by
  unfold cycleCapital
  by_cases h : g.cycleCapital ≤ 0
  · exact .inl h
  · exact .inr (if_neg h)

/-- Not too soon is an interval later. -/
theorem le_of_not_tooSoon {now last : ℚ} {lastScheduleAt : Option ℚ}
    (h : tooSoon cfg now lastScheduleAt = false) (hl : lastScheduleAt = some last) :
    last + 60 * cfg.intervalMinutes ≤ now := by
  rw [hl] at h
  have hle : (cfg.intervalMinutes : ℚ) ≤ (now - last) / 60 :=
    not_lt.mp (of_decide_eq_false h)
  rw [le_div_iff₀ (by norm_num)] at hle
  linarith

theorem chain_purchase {now : ℚ} {seen : Seen} {s s' : System} (hr : s.g.pendingRef = none)
    (hcount : s.g.orderCount < cfg.maxOrders)
    (hsoon : ∀ last, s.g.lastScheduleAt = some last → last + 60 * cfg.intervalMinutes ≤ now)
    (hbook : s'.book = s.book.scheduled now s.g.cycleCapital)
    (hcapital : s.book.CapitalIs (cycleCapital seen s'.g)) :
    Chain cfg exact s.book (purchase cfg seen now s').book := by
  have hinterval : (0 : ℚ) < cfg.intervalMinutes := by exact_mod_cast cfg.intervalMinutes_pos
  unfold purchase
  dsimp only
  split
  next =>
    have heq : ({ s' with g := { s'.g with cycleCapital := cycleCapital seen s'.g } } : System).book =
        s.book.scheduled now (cycleCapital seen s'.g) :=
      congrArg (fun b : Book => { b with cycleCapital := cycleCapital seen s'.g }) hbook
    rw [heq]
    refine .single (.skip hr hcapital fun last hl => ?_)
    have := hsoon last hl
    linarith
  next hvalue =>
    let o : Purchase := ⟨⟨s'.g.cycleNo, s'.g.orderCount + 1, s'.g.attempt⟩,
      ⟨s'.g.cycleNo, cycleCapital seen s'.g, now⟩,
      purchaseValue cfg (cycleCapital seen s'.g) s'.g.spentValue, 0, .working⟩
    have hcycle : s'.g.cycleNo = s.g.cycleNo := congrArg Book.cycleNo hbook
    have hspent : s'.g.spentValue = s.g.spentValue := congrArg Book.spentValue hbook
    have hbuys : Buys cfg s.book o :=
      { idle := hr
        count := hcount
        inTime := hsoon
        cycle := hcycle
        capital := hcapital
        quote := congrArg (purchaseValue cfg (cycleCapital seen s'.g)) hspent
        quote_pos := not_le.mp hvalue
        filled := rfl
        working := rfl }
    refine .single ?_
    convert Move.buy hbuys using 1
    exact congrArg (fun b : Book => { b with
      cycleCapital := cycleCapital seen s'.g
      pendingRef := some o.reference
      pendingValue := o.quote
      orders := o :: b.orders }) hbook

theorem chain_schedule {price : ℚ} {seen : Seen} {s : System} (hr : s.g.pendingRef = none) :
    Chain cfg exact s.book (schedule cfg price seen s).book := by
  have hinterval : (0 : ℚ) < cfg.intervalMinutes := by exact_mod_cast cfg.intervalMinutes_pos
  unfold schedule
  split
  · exact .refl
  next hcount =>
    split
    · exact .refl
    next now hnow =>
      split
      · exact .refl
      next hsoon =>
        have hlater : ∀ last, s.g.lastScheduleAt = some last →
            last + 60 * cfg.intervalMinutes ≤ now :=
          fun last hl => le_of_not_tooSoon (eq_false_of_ne_true hsoon) hl
        have hbook : ((priceFilterAllows cfg price (s.g.scheduled now)).1.book s.orders) =
            s.book.scheduled now s.g.cycleCapital := book_priceFilter price _ _
        dsimp only
        split
        next =>
          refine chain_purchase hr (not_le.mp hcount) hlater hbook ?_
          have hcapital := capitalIs_cycleCapital seen
            (priceFilterAllows cfg price (s.g.scheduled now)).1 s.orders
          rw [hbook] at hcapital
          exact hcapital
        next =>
          show Chain cfg exact s.book
            ((priceFilterAllows cfg price (s.g.scheduled now)).1.book s.orders)
          rw [hbook]
          refine .single (.skip hr (.inr rfl) fun last hl => ?_)
          have := hlater last hl
          linarith

theorem chain_flatTransition (seen : Seen) (g : State) (orders : List Purchase) :
    Chain cfg exact (g.book orders) ((flatTransition seen g).1.book orders) := by
  unfold flatTransition
  split
  next hflat =>
    have hreset : Chain cfg exact (g.book orders) (g.reset.book orders) :=
      .single (.reset hflat.2)
    dsimp only
    generalize (if g.exitPending = true ∨ 0 < g.orderCount then seen.lastExitReason else none) =
      exitReason
    split
    · exact hreset
    · exact .refl
  next => exact .refl

theorem chain_handleData {seen : Seen} {s : System} (hfee : exact → 0 ≤ seen.fee) :
    Chain cfg exact s.book (handleData cfg seen s).book := by
  unfold handleData
  split
  · exact .refl
  next price _ =>
    dsimp only
    refine .trans (chain_reconcile hfee) ?_
    split
    · exact chain_flatTransition seen _ s.orders
    · split
      · exact .refl
      next hopen =>
        obtain ⟨-, hr, -⟩ := not_or.mp hopen |>.imp_right not_or.mp
        have hnone := Option.not_isSome_iff_eq_none.mp hr
        let s₁ : System := { s with g := reconcilePurchase (s.status seen) s.g }
        have hequity : (equityRiskExit cfg seen s₁).1.book = s₁.book := book_equityRiskExit seen s₁
        have hrisk : (riskExit cfg price seen (equityRiskExit cfg seen s₁).1).1.book = s₁.book :=
          (book_riskExit price seen _).trans hequity
        show Chain cfg exact s₁.book _
        split
        · rw [hequity]
        · split
          · rw [hrisk]
          · have hpending : (riskExit cfg price seen (equityRiskExit cfg seen s₁).1).1.g.pendingRef =
                none := (congrArg Book.pendingRef hrisk).trans hnone
            exact hrisk ▸ chain_schedule hpending

/-- No purchase ends in a failure after it filled something, and no fee is negative. -/
def Settled (s : System) : Label → Prop
  | .bar seen => 0 ≤ seen.fee
  | .ends r name => ∀ o ∈ find s.orders r, name.isFailure = true → o.filled = 0
  | _ => True

instance (s : System) : ∀ l, Decidable (Settled s l)
  | .bar _ => inferInstanceAs (Decidable (_ ≤ _))
  | .ends .. => inferInstanceAs (Decidable (∀ _ ∈ _, _))
  | .equityRisk _ | .releaseEquityRisk | .fills .. => inferInstanceAs (Decidable True)

/-- **What a step does to the purchases.** -/
theorem chain_of_step {s s' : System} {l : Label} (hs : step cfg s l = some s')
    (hok : exact → Settled s l) : Chain cfg exact s.book s'.book := by
  cases l with
  | bar seen =>
    obtain rfl := Option.some.inj hs
    exact chain_handleData hok
  | equityRisk seen =>
    obtain rfl := Option.some.inj hs
    rw [book_equityRiskExit]
  | releaseEquityRisk =>
    obtain rfl := Option.some.inj hs
    exact .refl
  | fills r amount =>
    obtain ⟨orders, ho, rfl⟩ := Option.map_eq_some_iff.mp hs
    obtain ⟨o, hm⟩ := moves_of_fillMore ho
    refine .single (.order hm fun _ hfailed => ?_)
    have hworking : o.status.isFailure = true := hfailed
    rw [hm.working] at hworking
    cases hworking
  | ends r name =>
    obtain ⟨orders, ho, rfl⟩ := Option.map_eq_some_iff.mp hs
    obtain ⟨o, hm, -⟩ := moves_of_endWith ho
    exact .single (.order hm fun he hfailed => hok he o hm.find hfailed)

end moves

/-! ## One purchase at a time -/

/-- The purchase that is pending, in front of those that ended. -/
structure Pending (b : Book) (r : Ref) (o : Purchase) (rest : List Purchase) : Prop where
  orders : b.orders = o :: rest
  reference : o.reference = r
  cycle : o.tag.cycle = b.cycleNo
  quote : o.quote = b.pendingValue
  rest : ∀ x ∈ rest, x.status ≠ .working

/-- Purchases of one cycle are an interval apart. -/
def Apart (cfg : Config) (orders : List Purchase) : Prop :=
  orders.Pairwise fun newer older : Purchase => newer.tag.cycle = older.tag.cycle →
    older.tag.time + 60 * cfg.intervalMinutes ≤ newer.tag.time

structure Inv (cfg : Config) (b : Book) : Prop where
  orders : ∀ o ∈ b.orders, o.Ok
  cycles : ∀ o ∈ b.orders, o.tag.cycle ≤ b.cycleNo
  idle : b.pendingRef = none → ∀ o ∈ b.orders, o.status ≠ .working
  pending : ∀ r, b.pendingRef = some r → ∃ o rest, Pending b r o rest
  apart : Apart cfg b.orders
  last : ∀ o ∈ b.orders, o.tag.cycle = b.cycleNo →
    ∃ t, b.lastScheduleAt = some t ∧ o.tag.time ≤ t
  capital : ∀ o ∈ b.orders, o.tag.cycle = b.cycleNo →
    o.tag.capital = b.cycleCapital ∧ 0 < b.cycleCapital

section inv

variable {cfg : Config} {exact : Prop} {b b' : Book}

theorem Pending.find {r : Ref} {o : Purchase} {rest : List Purchase} (hp : Pending b r o rest) :
    Robot.find b.orders r = some o := by
  rw [hp.orders, find_cons, if_pos hp.reference]

/-- Only the pending purchase can move. -/
theorem Inv.pending_of_moves (h : Inv cfg b) {r : Ref} {orders' : List Purchase} {o o' : Purchase}
    (hm : Moves r b.orders orders' o o') :
    ∃ rest, b.pendingRef = some r ∧ Pending b r o rest ∧ orders' = o' :: rest := by
  have hmem := mem_of_find hm.find
  cases hr : b.pendingRef with
  | none => exact absurd hm.working (h.idle hr o hmem)
  | some r' =>
    obtain ⟨p, rest, hp⟩ := h.pending r' hr
    rw [hp.orders] at hmem
    rcases List.mem_cons.mp hmem with rfl | hrest
    · obtain rfl : r' = r := hp.reference.symm.trans (reference_of_find hm.find)
      refine ⟨rest, rfl, hp, ?_⟩
      rw [hm.eq, hp.orders, replace_cons, if_pos (hp.reference.trans hm.reference.symm)]
    · exact absurd hm.working (hp.rest o hrest)

theorem Config.totalBudgetPct_nonneg (cfg : Config) : 0 ≤ cfg.totalBudgetPct :=
  le_min zero_le_one (le_max_left 0 _)

theorem Config.orderPct_nonneg (cfg : Config) : 0 ≤ cfg.orderPct :=
  le_min cfg.totalBudgetPct_nonneg (le_max_left 0 _)

theorem Buys.capital_pos {o : Purchase} (hb : Buys cfg b o) : 0 < o.tag.capital := by
  by_contra hle
  have hpos := hb.quote_pos
  rw [hb.quote] at hpos
  have hzero : o.tag.capital * cfg.orderPct ≤ 0 :=
    mul_nonpos_of_nonpos_of_nonneg (not_lt.mp hle) cfg.orderPct_nonneg
  exact absurd ((min_le_left _ _).trans hzero) (not_le.mpr hpos)

/-- A purchase fits what is left of the budget. -/
theorem Buys.quote_le {o : Purchase} (hb : Buys cfg b o) :
    o.quote + b.spentValue ≤ o.tag.capital * cfg.totalBudgetPct := by
  have hle : o.quote ≤ max 0 (o.tag.capital * cfg.totalBudgetPct - b.spentValue) := by
    rw [hb.quote]
    exact min_le_right _ _
  rcases le_max_iff.mp hle with h | h
  · exact absurd hb.quote_pos h.not_gt
  · linarith

/-- The purchases of the cycle have the capital that the next schedule finds. -/
theorem Inv.capital_of (h : Inv cfg b) {capital : ℚ} (hc : b.CapitalIs capital) {o : Purchase}
    (ho : o ∈ b.orders) (hcycle : o.tag.cycle = b.cycleNo) :
    o.tag.capital = capital ∧ 0 < capital := by
  obtain ⟨heq, hpos⟩ := h.capital o ho hcycle
  rcases hc with hle | rfl
  · exact absurd hpos hle.not_gt
  · exact ⟨heq, hpos⟩

theorem Inv.order (h : Inv cfg b) {r : Ref} {orders' : List Purchase} {o o' : Purchase}
    (hm : Moves r b.orders orders' o o') : Inv cfg { b with orders := orders' } := by
  obtain ⟨rest, hr, hp, rfl⟩ := h.pending_of_moves hm
  have hmem : o ∈ b.orders := mem_of_find hm.find
  have hrest : ∀ x ∈ rest, x ∈ b.orders := by
    intro x hx
    rw [hp.orders]
    exact List.mem_cons_of_mem o hx
  refine ⟨?_, ?_, fun hnone => ?_, fun r' hr' => ?_, ?_, ?_, ?_⟩
  · intro x hx
    rcases List.mem_cons.mp hx with rfl | hx
    · exact hm.ok (h.orders o hmem)
    · exact h.orders x (hrest x hx)
  · intro x hx
    rcases List.mem_cons.mp hx with rfl | hx
    · exact hm.tag ▸ h.cycles o hmem
    · exact h.cycles x (hrest x hx)
  · cases hr.symm.trans hnone
  · obtain rfl : r = r' := Option.some.inj (hr.symm.trans hr')
    exact ⟨o', rest, rfl, hm.reference, hm.tag ▸ hp.cycle, hm.quote.trans hp.quote, hp.rest⟩
  · have hapart := h.apart
    unfold Apart at hapart ⊢
    rw [hp.orders, List.pairwise_cons] at hapart
    rw [List.pairwise_cons, hm.tag]
    exact hapart
  · intro x hx hcycle
    rcases List.mem_cons.mp hx with rfl | hx
    · rw [hm.tag] at hcycle ⊢
      exact h.last o hmem hcycle
    · exact h.last x (hrest x hx) hcycle
  · intro x hx hcycle
    rcases List.mem_cons.mp hx with rfl | hx
    · rw [hm.tag] at hcycle ⊢
      exact h.capital o hmem hcycle
    · exact h.capital x (hrest x hx) hcycle

/-- A purchase that has ended is not pending any more. -/
theorem Inv.clear (h : Inv cfg b) {r : Ref} (hr : b.pendingRef = some r)
    (hs : ∀ o, find b.orders r = some o → o.status ≠ .working) (count : ℕ) (spent : ℚ) :
    Inv cfg { b with
      spentValue := spent, orderCount := count, pendingRef := none, pendingValue := 0 } where
  orders := h.orders
  cycles := h.cycles
  idle := by
    intro _ x hx
    obtain ⟨o, rest, hp⟩ := h.pending r hr
    dsimp only at hx
    rw [hp.orders] at hx
    rcases List.mem_cons.mp hx with rfl | hx
    · exact hs x hp.find
    · exact hp.rest x hx
  pending := fun _ hr => by cases hr
  apart := h.apart
  last := h.last
  capital := h.capital

theorem Inv.reset (h : Inv cfg b) (hr : b.pendingRef = none) :
    Inv cfg ⟨0, none, 0, 0, none, 0, b.cycleNo + 1, b.orders⟩ := by
  have hnew : ∀ o ∈ b.orders, o.tag.cycle ≠ b.cycleNo + 1 :=
    fun o ho => (Nat.lt_succ_of_le (h.cycles o ho)).ne
  exact
    { orders := h.orders
      cycles := fun o ho => (h.cycles o ho).trans (Nat.le_succ _)
      idle := fun _ => h.idle hr
      pending := fun _ hr => by cases hr
      apart := h.apart
      last := fun o ho hc => absurd hc (hnew o ho)
      capital := fun o ho hc => absurd hc (hnew o ho) }

theorem Inv.skip (h : Inv cfg b) {now capital : ℚ} (hc : b.CapitalIs capital)
    (ht : ∀ last, b.lastScheduleAt = some last → last ≤ now) :
    Inv cfg (b.scheduled now capital) where
  orders := h.orders
  cycles := h.cycles
  idle := h.idle
  pending r hr := by
    obtain ⟨o, rest, hp⟩ := h.pending r hr
    exact ⟨o, rest, hp.orders, hp.reference, hp.cycle, hp.quote, hp.rest⟩
  apart := h.apart
  last o ho hcycle := by
    obtain ⟨t, hlast, hle⟩ := h.last o ho hcycle
    exact ⟨now, rfl, hle.trans (ht t hlast)⟩
  capital o ho hcycle := h.capital_of hc ho hcycle

theorem Inv.buy (h : Inv cfg b) {o : Purchase} (hb : Buys cfg b o) : Inv cfg (b.buy o) where
  orders := by
    intro x hx
    rcases List.mem_cons.mp hx with rfl | hx
    · exact ⟨hb.quote_pos, hb.filled.ge, hb.filled ▸ hb.quote_pos.le⟩
    · exact h.orders x hx
  cycles := by
    intro x hx
    rcases List.mem_cons.mp hx with rfl | hx
    · exact hb.cycle.le
    · exact h.cycles x hx
  idle := fun hr => by cases hr
  pending := by
    intro r hr
    exact ⟨o, b.orders, rfl, Option.some.inj hr, hb.cycle, rfl, h.idle hb.idle⟩
  apart := by
    refine List.pairwise_cons.mpr ⟨fun x hx hcycle => ?_, h.apart⟩
    obtain ⟨t, hlast, hle⟩ := h.last x hx (hcycle.symm.trans hb.cycle)
    have := hb.inTime t hlast
    linarith
  last := by
    have hinterval : (0 : ℚ) < cfg.intervalMinutes := by exact_mod_cast cfg.intervalMinutes_pos
    intro x hx hcycle
    refine ⟨o.tag.time, rfl, ?_⟩
    rcases List.mem_cons.mp hx with rfl | hx
    · exact le_rfl
    · obtain ⟨t, hlast, hle⟩ := h.last x hx hcycle
      have := hb.inTime t hlast
      linarith
  capital := by
    intro x hx hcycle
    rcases List.mem_cons.mp hx with rfl | hx
    · exact ⟨rfl, hb.capital_pos⟩
    · exact h.capital_of hb.capital hx hcycle

theorem Inv.move (h : Inv cfg b) (hm : Move cfg exact b b') : Inv cfg b' := by
  cases hm with
  | order hm => exact h.order hm
  | settle hr hs =>
    refine h.clear hr (fun o ho => ?_) _ _
    rw [hs o ho]
    decide
  | failed hr hs =>
    refine h.clear hr (fun o ho hw => ?_) _ _
    have := hs o ho
    rw [hw] at this
    cases this
  | reset hr => exact h.reset hr
  | skip _ hc ht => exact h.skip hc ht
  | buy hb => exact h.buy hb

end inv

/-! ## The budget -/

/-- The purchases that are not pending. -/
def Book.settled (b : Book) : List Purchase :=
  if b.pendingRef = none then b.orders else b.orders.tail

/-- A cycle is within its budget and its number of purchases. -/
def CycleOk (cfg : Config) (orders : List Purchase) (o : Purchase) : Prop :=
  filledIn orders o.tag.cycle ≤ o.tag.capital * cfg.totalBudgetPct ∧
    (purchasesIn orders o.tag.cycle).length ≤ cfg.maxOrders

structure Within (cfg : Config) (b : Book) : Prop where
  spent : filledIn b.settled b.cycleNo ≤ b.spentValue
  count : (purchasesIn b.settled b.cycleNo).length ≤ b.orderCount
  room : b.pendingRef ≠ none →
    b.pendingValue + b.spentValue ≤ b.cycleCapital * cfg.totalBudgetPct ∧
      b.orderCount < cfg.maxOrders
  failure : ∀ o ∈ b.orders, o.status.isFailure = true → o.filled = 0
  kept : ∀ o ∈ b.orders, CycleOk cfg b.orders o

theorem filledIn_cons (o : Purchase) (orders : List Purchase) (cycle : ℕ) :
    filledIn (o :: orders) cycle =
      (if o.tag.cycle = cycle then o.filled else 0) + filledIn orders cycle := by
  unfold filledIn
  rw [List.map_cons, List.sum_cons]

theorem filledIn_eq_zero {orders : List Purchase} {cycle : ℕ}
    (h : ∀ o ∈ orders, o.tag.cycle ≠ cycle) : filledIn orders cycle = 0 := by
  refine List.sum_eq_zero fun x hx => ?_
  obtain ⟨o, ho, rfl⟩ := List.mem_map.mp hx
  exact if_neg (h o ho)

theorem purchasesIn_cons (o : Purchase) (orders : List Purchase) (cycle : ℕ) :
    purchasesIn (o :: orders) cycle =
      if o.tag.cycle = cycle ∧ 0 < o.filled then o :: purchasesIn orders cycle
      else purchasesIn orders cycle := by
  unfold purchasesIn
  rw [List.filter_cons]
  simp only [decide_eq_true_eq]

theorem purchasesIn_eq_nil {orders : List Purchase} {cycle : ℕ}
    (h : ∀ o ∈ orders, o.tag.cycle ≠ cycle) : purchasesIn orders cycle = [] := by
  refine List.filter_eq_nil_iff.mpr fun o ho => ?_
  rw [decide_eq_true_eq]
  exact fun hc => h o ho hc.1

theorem purchasesIn_cons_le (o : Purchase) (orders : List Purchase) (cycle : ℕ) :
    (purchasesIn (o :: orders) cycle).length ≤ (purchasesIn orders cycle).length + 1 := by
  rw [purchasesIn_cons]
  split
  · exact le_rfl
  · exact Nat.le_succ _

section within

variable {cfg : Config} {b b' : Book}

theorem settled_of_pending {r : Ref} {o : Purchase} {rest : List Purchase}
    (hr : b.pendingRef = some r) (hp : Pending b r o rest) : b.settled = rest := by
  unfold Book.settled
  rw [hr, if_neg (Option.some_ne_none r), hp.orders, List.tail_cons]

theorem settled_of_idle (hr : b.pendingRef = none) : b.settled = b.orders := if_pos hr

/-- Another cycle does not see the pending purchase. -/
theorem cycleOk_cons {o x : Purchase} {rest : List Purchase} (hne : o.tag.cycle ≠ x.tag.cycle) :
    CycleOk cfg (o :: rest) x ↔ CycleOk cfg rest x := by
  unfold CycleOk
  rw [filledIn_cons, if_neg hne, zero_add, purchasesIn_cons, if_neg fun h => hne h.1]

/-- With room for the pending purchase, the cycle is within its bounds. -/
theorem cycleOk_of_pending (h : Inv cfg b) {r : Ref} {o : Purchase} {rest : List Purchase}
    (hp : Pending b r o rest) (hspent : filledIn rest b.cycleNo ≤ b.spentValue)
    (hcount : (purchasesIn rest b.cycleNo).length ≤ b.orderCount)
    (hroom : b.pendingValue + b.spentValue ≤ b.cycleCapital * cfg.totalBudgetPct ∧
      b.orderCount < cfg.maxOrders)
    (hpast : ∀ x ∈ rest, x.tag.cycle ≠ b.cycleNo → CycleOk cfg rest x) {x : Purchase}
    (hx : x ∈ b.orders) : CycleOk cfg b.orders x := by
  have ho : o ∈ b.orders := mem_of_find hp.find
  by_cases hcycle : x.tag.cycle = b.cycleNo
  · have hle : o.filled ≤ b.pendingValue := hp.quote ▸ (h.orders o ho).filled_le
    unfold CycleOk
    rw [(h.capital x hx hcycle).1, hcycle, hp.orders, filledIn_cons, if_pos hp.cycle]
    refine ⟨by linarith [hroom.1], ?_⟩
    exact (purchasesIn_cons_le o rest b.cycleNo).trans
      ((Nat.succ_le_succ hcount).trans hroom.2)
  · have hne : o.tag.cycle ≠ x.tag.cycle := fun heq => hcycle (heq.symm.trans hp.cycle)
    rw [hp.orders] at hx ⊢
    rcases List.mem_cons.mp hx with rfl | hx
    · exact absurd hp.cycle hcycle
    · exact (cycleOk_cons hne).mpr (hpast x hx hcycle)

theorem Within.past (hw : Within cfg b) {r : Ref} {o : Purchase} {rest : List Purchase}
    (hp : Pending b r o rest) {x : Purchase} (hx : x ∈ rest) (hcycle : x.tag.cycle ≠ b.cycleNo) :
    CycleOk cfg rest x := by
  have hne : o.tag.cycle ≠ x.tag.cycle := fun heq => hcycle (heq.symm.trans hp.cycle)
  have hkept := hw.kept x (by rw [hp.orders]; exact List.mem_cons_of_mem o hx)
  rw [hp.orders] at hkept
  exact (cycleOk_cons hne).mp hkept

theorem Within.order (hw : Within cfg b) (h : Inv cfg b) {r : Ref} {orders' : List Purchase}
    {o o' : Purchase} (hm : Moves r b.orders orders' o o')
    (hfail : o'.status.isFailure = true → o'.filled = 0) :
    Within cfg { b with orders := orders' } := by
  have h' := h.order hm
  obtain ⟨rest, hr, hp, rfl⟩ := h.pending_of_moves hm
  have hp' : Pending { b with orders := o' :: rest } r o' rest :=
    ⟨rfl, hm.reference, hm.tag ▸ hp.cycle, hm.quote.trans hp.quote, hp.rest⟩
  have hspent := hw.spent
  have hcount := hw.count
  rw [settled_of_pending hr hp] at hspent hcount
  have hroom := hw.room (by rw [hr]; exact Option.some_ne_none r)
  have hsettled := settled_of_pending (b := { b with orders := o' :: rest }) hr hp'
  refine ⟨?_, ?_, fun _ => hroom, fun x hx => ?_, fun x hx => ?_⟩
  · rw [hsettled]
    exact hspent
  · rw [hsettled]
    exact hcount
  · rcases List.mem_cons.mp hx with rfl | hx
    · exact hfail
    · exact hw.failure x (by rw [hp.orders]; exact List.mem_cons_of_mem o hx)
  · exact cycleOk_of_pending h' hp' hspent hcount hroom (fun x hx hc => hw.past hp hx hc) hx

/-- A filled purchase is counted, for no less than it filled. -/
theorem Within.settle (hw : Within cfg b) (h : Inv cfg b) {r : Ref} {value : ℚ}
    (hr : b.pendingRef = some r)
    (hvalue : ∀ o, find b.orders r = some o → o.filled ≤ b.pendingValue → o.filled ≤ value) :
    Within cfg { b with
      spentValue := b.spentValue + value
      orderCount := b.orderCount + 1
      pendingRef := none
      pendingValue := 0 } := by
  obtain ⟨o, rest, hp⟩ := h.pending r hr
  have hspent := hw.spent
  have hcount := hw.count
  rw [settled_of_pending hr hp] at hspent hcount
  have hle : o.filled ≤ b.pendingValue := hp.quote ▸ (h.orders o (mem_of_find hp.find)).filled_le
  refine ⟨?_, ?_, fun hne => absurd rfl hne, hw.failure, hw.kept⟩
  · rw [settled_of_idle rfl]
    dsimp only
    rw [hp.orders, filledIn_cons, if_pos hp.cycle]
    linarith [hvalue o hp.find hle]
  · rw [settled_of_idle rfl]
    dsimp only
    rw [hp.orders]
    exact (purchasesIn_cons_le o rest b.cycleNo).trans (Nat.succ_le_succ hcount)

/-- A failed purchase has filled nothing. -/
theorem Within.failed (hw : Within cfg b) (h : Inv cfg b) {r : Ref} (hr : b.pendingRef = some r)
    (hs : ∀ o, find b.orders r = some o → o.status.isFailure = true) :
    Within cfg { b with pendingRef := none, pendingValue := 0 } := by
  obtain ⟨o, rest, hp⟩ := h.pending r hr
  have hspent := hw.spent
  have hcount := hw.count
  rw [settled_of_pending hr hp] at hspent hcount
  have hzero : o.filled = 0 := hw.failure o (mem_of_find hp.find) (hs o hp.find)
  refine ⟨?_, ?_, fun hne => absurd rfl hne, hw.failure, hw.kept⟩
  · rw [settled_of_idle rfl]
    dsimp only
    rw [hp.orders, filledIn_cons, hzero, ite_self, zero_add]
    exact hspent
  · rw [settled_of_idle rfl]
    dsimp only
    rw [hp.orders, purchasesIn_cons, hzero, if_neg fun hpos => lt_irrefl 0 hpos.2]
    exact hcount

theorem Within.reset (hw : Within cfg b) (h : Inv cfg b) :
    Within cfg ⟨0, none, 0, 0, none, 0, b.cycleNo + 1, b.orders⟩ := by
  have hnew : ∀ o ∈ b.orders, o.tag.cycle ≠ b.cycleNo + 1 :=
    fun o ho => (Nat.lt_succ_of_le (h.cycles o ho)).ne
  refine ⟨?_, ?_, fun hne => absurd rfl hne, hw.failure, hw.kept⟩
  · rw [settled_of_idle rfl]
    exact (filledIn_eq_zero hnew).le
  · rw [settled_of_idle rfl]
    dsimp only
    rw [purchasesIn_eq_nil hnew]
    exact le_rfl

theorem Within.buy (hw : Within cfg b) (h : Inv cfg b) {o : Purchase} (hb : Buys cfg b o) :
    Within cfg (b.buy o) := by
  have h' := h.buy hb
  have hp' : Pending (b.buy o) o.reference o b.orders := ⟨rfl, rfl, hb.cycle, rfl, h.idle hb.idle⟩
  have hspent := hw.spent
  have hcount := hw.count
  rw [settled_of_idle hb.idle] at hspent hcount
  have hroom : o.quote + b.spentValue ≤ o.tag.capital * cfg.totalBudgetPct ∧
      b.orderCount < cfg.maxOrders := ⟨hb.quote_le, hb.count⟩
  refine ⟨hspent, hcount, fun _ => hroom, fun x hx => ?_, fun x hx => ?_⟩
  · rcases List.mem_cons.mp hx with rfl | hx
    · exact fun _ => hb.filled
    · exact hw.failure x hx
  · exact cycleOk_of_pending h' hp' hspent hcount hroom (fun x hx _ => hw.kept x hx) hx

theorem Within.move (hw : Within cfg b) (h : Inv cfg b) (hm : Move cfg True b b') :
    Within cfg b' := by
  cases hm with
  | order hm hfail => exact hw.order h hm (hfail trivial)
  | settle hr _ hvalue => exact hw.settle h hr (hvalue trivial)
  | failed hr hs => exact hw.failed h hr hs
  | reset => exact hw.reset h
  | skip hr =>
    exact ⟨hw.spent, hw.count, fun hne => absurd hr hne, hw.failure, hw.kept⟩
  | buy hb => exact hw.buy h hb

end within

/-! ## The budget over runs -/

section runs

variable {cfg : Config} {exact : Prop} {b b' : Book}

theorem Chain.inv (hc : Chain cfg exact b b') (h : Inv cfg b) : Inv cfg b' := by
  induction hc with
  | refl => exact h
  | tail _ hm ih => exact ih.move hm

theorem Chain.within (hc : Chain cfg True b b') (h : Inv cfg b) (hw : Within cfg b) :
    Within cfg b' := by
  induction hc with
  | refl => exact hw
  | tail hpre hm ih => exact ih.move (Chain.inv hpre h) hm

theorem inv_start : Inv cfg start.book where
  orders _ ho := by cases ho
  cycles _ ho := by cases ho
  idle _ _ ho := by cases ho
  pending _ hr := by cases hr
  apart := .nil
  last _ ho := by cases ho
  capital _ ho := by cases ho

theorem within_start : Within cfg start.book where
  spent := le_rfl
  count := le_rfl
  room hne := absurd rfl hne
  failure _ ho := by cases ho
  kept _ ho := by cases ho

theorem inv_of_step (s : System) (l : Label) (s' : System) (h : Inv cfg s.book)
    (hs : step cfg s l = some s') : Inv cfg s'.book := by
  have hchain : Chain cfg False s.book s'.book := chain_of_step hs False.elim
  exact Chain.inv hchain h

theorem within_of_step (s : System) (l : Label) (s' : System)
    (h : Inv cfg s.book ∧ Within cfg s.book) (hok : Settled s l) (hs : step cfg s l = some s') :
    Inv cfg s'.book ∧ Within cfg s'.book := by
  have hchain : Chain cfg True s.book s'.book := chain_of_step hs fun _ => hok
  exact ⟨Chain.inv hchain h.1, Chain.within hchain h.1 h.2⟩

/-- At most one purchase works. -/
theorem Inv.working_length_le (h : Inv cfg b) :
    (b.orders.filter fun o => o.status = .working).length ≤ 1 := by
  have hnone : ∀ orders : List Purchase, (∀ o ∈ orders, o.status ≠ .working) →
      orders.filter (fun o => o.status = .working) = [] := by
    intro orders ho
    refine List.filter_eq_nil_iff.mpr fun o hmem => ?_
    rw [decide_eq_true_eq]
    exact ho o hmem
  cases hr : b.pendingRef with
  | none =>
    rw [hnone b.orders (h.idle hr)]
    exact Nat.zero_le 1
  | some r =>
    obtain ⟨o, rest, hp⟩ := h.pending r hr
    rw [hp.orders, List.filter_cons, hnone rest hp.rest]
    split
    · exact le_rfl
    · exact Nat.zero_le 1

/-- **The budget.**  In every run at most one purchase is pending, and the purchases of a
cycle are an interval apart.  When no purchase fails after a partial fill, every cycle is
within its budget and its number of purchases. -/
theorem purchases_kept (cfg : Config) (labels : List Label) (s : System)
    (hrun : Runs.run (step cfg) start labels = some s) :
    (s.orders.filter fun o => o.status = .working).length ≤ 1 ∧ Apart cfg s.orders ∧
      (Runs.AllSteps (step cfg) Settled start labels →
        ∀ o ∈ s.orders, CycleOk cfg s.orders o) := by
  have hinv : Inv cfg s.book := Runs.run_invariant inv_of_step inv_start hrun
  refine ⟨hinv.working_length_le, hinv.apart, fun hok => ?_⟩
  have hboth := Runs.run_invariant_of_allSteps within_of_step ⟨inv_start, within_start⟩ hok hrun
  exact hboth.2.kept

end runs

/-! ## A budget of half the capital -/

/-- Two purchases of a quarter, an hour apart. -/
def quarters : Config where
  dcaIntervalMinutes := 60
  dcaMaxOrders := 2
  dcaTotalBudgetPct := 1 / 2
  dcaOrderPct := 1 / 4

/-- A bar at 100, with 1000 to start from, so many hours after the first. -/
def barAt (k : ℚ) : Label :=
  .bar { close := some 100, amount := 1, average := 100, totalValue := 1000, startingCash := 1000,
         currentDt := some (3600 * k) }

/-- The second purchase comes after the first one failed, and is the first that counts. -/
theorem purchases_kept_afterFailure :
    ∃ s, Runs.run (step quarters) start
        [barAt 0, .ends ⟨1, 1, 0⟩ .rejected, barAt 1, .fills ⟨1, 1, 1⟩ 250,
          .ends ⟨1, 1, 1⟩ .filled] = some s ∧
      (s.orders.filter fun o => o.status = .working).length ≤ 1 ∧
      ∀ o ∈ s.orders, CycleOk quarters s.orders o := by
  obtain ⟨s, hs⟩ := Option.isSome_iff_exists.mp
    (show (Runs.run (step quarters) start
      [barAt 0, .ends ⟨1, 1, 0⟩ .rejected, barAt 1, .fills ⟨1, 1, 1⟩ 250,
        .ends ⟨1, 1, 1⟩ .filled]).isSome by decide +kernel)
  have hkept := purchases_kept quarters _ s hs
  exact ⟨s, hs, hkept.1, hkept.2.2 (by decide +kernel)⟩

/-- **A forgotten fill.**  The first purchase is cancelled after 200 of its 250; the two that
follow are bought in full. -/
theorem forgottenPurchase_overspends :
    ∃ s, Runs.run (step quarters) start
        [barAt 0, .fills ⟨1, 1, 0⟩ 200, .ends ⟨1, 1, 0⟩ .cancelled,
          barAt 1, .fills ⟨1, 1, 1⟩ 250, .ends ⟨1, 1, 1⟩ .filled,
          barAt 2, .fills ⟨1, 2, 0⟩ 250, .ends ⟨1, 2, 0⟩ .filled] = some s ∧
      s.g.cycleCapital * quarters.totalBudgetPct < filledIn s.orders 1 ∧
      quarters.maxOrders < (purchasesIn s.orders 1).length :=
  Runs.exists_of_any (by decide +kernel)

end AlgoTrade.Robot.Dca
