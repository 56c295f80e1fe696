import AlgoTrade.Billing.Credits
import AlgoTrade.Lib.Runs
import Mathlib.Algebra.Order.Floor.Ring
import Mathlib.Data.Rat.Floor
import Mathlib.Tactic.Positivity

/-! # Monthly grants over a sequence of status checks

Every `get_user_vip_status` of a lifetime member grants the whole 30-day periods
since the last grant and moves the clock to the check.

* `grantLifetimeMonthly`: the grant of one check, at any time.
* `Accrued`: the grants since `t₀` are the whole periods since `t₀`.
* `accrued_iff_noneLost`: it holds after every check of a run exactly when no check
  meets a period that is made up of remainders. -/

namespace AlgoTrade.LifetimeGrants

open Runs

/-- Times in seconds. -/
abbrev Seconds := ℚ

def periodSeconds : Seconds := 30 * 86400

/-- A log row of a monthly grant; `periods` is the `x` of its remark. -/
structure MonthlyGrant where
  amount : ℤ
  periods : ℤ
  balanceAfter : ℚ
  deriving DecidableEq, Repr

/-- The membership columns of a user, the credits, and the grants logged. -/
structure Member where
  isLifetime : Bool := true
  expiresAt : Option Seconds := none
  monthlyCreditsLastGrant : Option Seconds := none
  credits : ℚ := 0
  log : List MonthlyGrant := []
  deriving DecidableEq, Repr

namespace Member

/-- `_add_credits_in_tx` of a monthly grant. -/
def addCredits (m : Member) (amount periods : ℤ) : Member :=
  { m with
    credits := m.credits + amount
    log := m.log ++ [⟨amount, periods, m.credits + amount⟩] }

/-- The member is one that is granted credits at `now`. -/
def entitled (monthlyCredits : ℤ) (now : Seconds) (m : Member) : Bool :=
  0 < monthlyCredits ∧ m.isLifetime ∧ ¬ ∃ expires ∈ m.expiresAt, expires ≤ now

/-- `delta_days // 30`. -/
def periodsSince (now last : Seconds) : ℤ :=
  let deltaDays := ⌊(now - last) / 86400⌋
  deltaDays / 30

/-- `_grant_lifetime_monthly_credits_best_effort`. -/
def grantLifetimeMonthly (monthlyCredits : ℤ) (now : Seconds) (m : Member) : Member :=
  if ¬ m.entitled monthlyCredits now then m
  else
    match m.monthlyCreditsLastGrant with
    | none => { m with monthlyCreditsLastGrant := some now }
    | some last =>
      if periodsSince now last ≤ 0 then m
      else
        let periods := if 6 < periodsSince now last then 6 else periodsSince now last
        { m.addCredits (monthlyCredits * periods) periods with monthlyCreditsLastGrant := some now }

/-- The monthly grants logged. -/
def granted (m : Member) : ℤ := (m.log.map MonthlyGrant.periods).sum

/-- At whole seconds these are the periods of the transaction model. -/
theorem grantPeriods_eq (now last : ℤ) :
    grantPeriods now last = min 6 (periodsSince now last) := by
  unfold grantPeriods periodsSince daySeconds
  have hfloor : ⌊((now : ℚ) - last) / 86400⌋ = (now - last) / 86400 := by
    have h := Rat.floor_intCast_div_natCast (now - last) 86400
    push_cast at h
    exact h
  rw [hfloor]

end Member

/-! ## Checks -/

/-- The member, and the time of the last check. -/
structure Watch where
  member : Member
  clock : Seconds
  deriving DecidableEq, Repr

/-- A check, no sooner than the last one and within six periods of it. -/
def check (monthlyCredits : ℤ) (w : Watch) (now : Seconds) : Option Watch :=
  if w.clock ≤ now ∧ now - w.clock ≤ 6 * periodSeconds then
    some ⟨w.member.grantLifetimeMonthly monthlyCredits now, now⟩
  else none

/-- A lifetime member whose grant clock was set at `t₀`. -/
def watchFrom (expiresAt : Option Seconds) (credits : ℚ) (t₀ : Seconds) : Watch where
  member := { expiresAt, monthlyCreditsLastGrant := some t₀, credits }
  clock := t₀

/-- **The law**: the grants are the whole periods since `t₀`. -/
def Watch.Accrued (t₀ : Seconds) (w : Watch) : Prop :=
  w.member.granted = ⌊(w.clock - t₀) / periodSeconds⌋

/-- **The condition**: what the last grant left over and what has elapsed since make
up no period together, and a whole period elapses for an entitled member only. -/
def NoneLost (monthlyCredits : ℤ) (t₀ : Seconds) (w : Watch) (now : Seconds) : Prop :=
  ∀ last ∈ w.member.monthlyCreditsLastGrant,
    Int.fract ((last - t₀) / periodSeconds) + Int.fract ((now - last) / periodSeconds) < 1 ∧
      (periodSeconds ≤ now - last → w.member.entitled monthlyCredits now = true)

instance (monthlyCredits : ℤ) (t₀ : Seconds) (w : Watch) (now : Seconds) :
    Decidable (NoneLost monthlyCredits t₀ w now) :=
  inferInstanceAs (Decidable (∀ last ∈ w.member.monthlyCreditsLastGrant, _ ∧ (_ → _)))

/-! ## Whole periods -/

theorem periodSeconds_pos : 0 < periodSeconds := by
  unfold periodSeconds
  norm_num

theorem periodsSince_eq (now last : Seconds) :
    Member.periodsSince now last = ⌊(now - last) / periodSeconds⌋ := by
  have hperiod : (now - last) / periodSeconds = (now - last) / 86400 / (30 : ℕ) := by
    unfold periodSeconds
    rw [div_div, mul_comm]
    norm_num
  rw [hperiod, Int.floor_div_natCast]
  rfl

/-- A sum of two spans has the whole periods of both, and one more when their
remainders make one up. -/
theorem floor_add_eq (a b : ℚ) : ⌊a + b⌋ = ⌊a⌋ + ⌊b⌋ + ⌊Int.fract a + Int.fract b⌋ := by
  have hsplit : a + b = ((⌊a⌋ + ⌊b⌋ : ℤ) : ℚ) + (Int.fract a + Int.fract b) := by
    rw [Int.cast_add, add_add_add_comm, Int.floor_add_fract, Int.floor_add_fract]
  rw [hsplit, Int.floor_intCast_add]

theorem floor_fract_add_eq_zero {a b : ℚ} :
    ⌊Int.fract a + Int.fract b⌋ = 0 ↔ Int.fract a + Int.fract b < 1 := by
  rw [Int.floor_eq_zero_iff, Set.mem_Ico]
  exact ⟨fun h => h.2, fun h => ⟨add_nonneg (Int.fract_nonneg a) (Int.fract_nonneg b), h⟩⟩

theorem floor_fract_add_nonneg (a b : ℚ) : 0 ≤ ⌊Int.fract a + Int.fract b⌋ :=
  Int.floor_nonneg.mpr (add_nonneg (Int.fract_nonneg a) (Int.fract_nonneg b))

theorem span_split (t₀ last now : Seconds) :
    (now - t₀) / periodSeconds = (last - t₀) / periodSeconds + (now - last) / periodSeconds := by
  ring

/-! ## One check -/

/-- What holds between checks while no period is lost. -/
structure Inv (t₀ : Seconds) (w : Watch) : Prop where
  accrued : w.Accrued t₀
  last : ∃ last, w.member.monthlyCreditsLastGrant = some last ∧
    w.member.granted = ⌊(last - t₀) / periodSeconds⌋ ∧ last ≤ w.clock ∧
    w.clock - last < periodSeconds

section
variable {monthlyCredits : ℤ} {t₀ now last : Seconds} {m : Member} {w w' : Watch}

theorem granted_addCredits (amount periods : ℤ) :
    (m.addCredits amount periods).granted = m.granted + periods := by
  unfold Member.granted Member.addCredits
  rw [List.map_append, List.sum_append, List.map_singleton, List.sum_singleton]

/-- What a check finds, with the clock at `last`. -/
theorem grantLifetimeMonthly_cases (monthlyCredits : ℤ)
    (hlast : m.monthlyCreditsLastGrant = some last)
    (hcap : now - last < 7 * periodSeconds) :
    (m.grantLifetimeMonthly monthlyCredits now = m ∧
      (m.entitled monthlyCredits now = true → now - last < periodSeconds)) ∨
    m.entitled monthlyCredits now = true ∧ periodSeconds ≤ now - last ∧
      (m.grantLifetimeMonthly monthlyCredits now).monthlyCreditsLastGrant = some now ∧
      (m.grantLifetimeMonthly monthlyCredits now).granted =
        m.granted + ⌊(now - last) / periodSeconds⌋ := by
  unfold Member.grantLifetimeMonthly
  split
  next hnot => exact .inl ⟨rfl, fun h => absurd h hnot⟩
  next hentitled =>
    rw [hlast]
    dsimp only
    split
    next hnone =>
      refine .inl ⟨rfl, fun _ => ?_⟩
      rw [periodsSince_eq] at hnone
      have hlt : (now - last) / periodSeconds < 1 := by
        have h := Int.floor_lt.mp (Int.lt_add_one_iff.mpr hnone)
        rwa [zero_add, Int.cast_one] at h
      rwa [div_lt_one periodSeconds_pos] at hlt
    next hsome =>
      have hpos : 0 < ⌊(now - last) / periodSeconds⌋ := periodsSince_eq now last ▸ not_le.mp hsome
      have hle : ⌊(now - last) / periodSeconds⌋ ≤ 6 := by
        refine Int.lt_add_one_iff.mp (Int.floor_lt.mpr ?_)
        rw [div_lt_iff₀ periodSeconds_pos]
        norm_num
        exact hcap
      refine .inr ⟨not_not.mp hentitled, ?_, rfl, ?_⟩
      · have h := Int.floor_pos.mp hpos
        rwa [one_le_div periodSeconds_pos] at h
      · rw [periodsSince_eq, if_neg (not_lt.mpr hle)]
        exact granted_addCredits _ _

/-- **One check**: the law holds after it exactly when nothing was lost. -/
theorem Inv.check (h : Inv t₀ w) (hs : check monthlyCredits w now = some w') :
    (w'.Accrued t₀ → NoneLost monthlyCredits t₀ w now) ∧
      (NoneLost monthlyCredits t₀ w now → Inv t₀ w') := by
  obtain ⟨last, hlast, hgranted, hle, hlt⟩ := h.last
  unfold LifetimeGrants.check at hs
  split at hs
  case isFalse => cases hs
  next hnow =>
  obtain ⟨hmono, hgap⟩ := hnow
  obtain rfl := Option.some.inj hs
  have hcap : now - last < 7 * periodSeconds := by linarith
  have hsum : ⌊(now - t₀) / periodSeconds⌋ = ⌊(last - t₀) / periodSeconds⌋ +
      ⌊(now - last) / periodSeconds⌋ +
      ⌊Int.fract ((last - t₀) / periodSeconds) + Int.fract ((now - last) / periodSeconds)⌋ := by
    rw [span_split t₀ last now]
    exact floor_add_eq _ _
  have hnonneg : 0 ≤ (now - last) / periodSeconds :=
    div_nonneg (by linarith) periodSeconds_pos.le
  have hfract := floor_fract_add_nonneg ((last - t₀) / periodSeconds) ((now - last) / periodSeconds)
  have hlost : NoneLost monthlyCredits t₀ w now ↔
      ⌊Int.fract ((last - t₀) / periodSeconds) + Int.fract ((now - last) / periodSeconds)⌋ = 0 ∧
        (periodSeconds ≤ now - last → w.member.entitled monthlyCredits now = true) := by
    unfold NoneLost
    rw [floor_fract_add_eq_zero, hlast]
    simp only [Option.mem_some_iff, forall_eq']
  rw [hlost]
  unfold Watch.Accrued
  dsimp only
  rcases grantLifetimeMonthly_cases monthlyCredits hlast hcap with
    ⟨hsame, hshort⟩ | ⟨hentitled, hlong, hstamped, hadded⟩
  · rw [hsame, hgranted, hsum]
    have hfloor := Int.floor_nonneg.mpr hnonneg
    constructor
    · intro haccrued
      have hzero : ⌊(now - last) / periodSeconds⌋ = 0 := by omega
      refine ⟨by omega, fun hlong => ?_⟩
      have hlt : (now - last) / periodSeconds < 1 := (Int.floor_eq_zero_iff.mp hzero).2
      rw [div_lt_one periodSeconds_pos] at hlt
      exact absurd hlong (not_le.mpr hlt)
    · rintro ⟨hnone, hentitled⟩
      have hshort' : now - last < periodSeconds := by
        by_contra hlong
        exact hlong (hshort (hentitled (not_lt.mp hlong)))
      have hzero : ⌊(now - last) / periodSeconds⌋ = 0 :=
        Int.floor_eq_zero_iff.mpr ⟨hnonneg, (div_lt_one periodSeconds_pos).mpr hshort'⟩
      refine ⟨?_, last, hlast, hgranted, hle.trans hmono, hshort'⟩
      unfold Watch.Accrued
      dsimp only
      omega
  · constructor
    · intro haccrued
      exact ⟨by omega, fun _ => hentitled⟩
    · rintro ⟨hnone, -⟩
      have hall : (w.member.grantLifetimeMonthly monthlyCredits now).granted =
          ⌊(now - t₀) / periodSeconds⌋ := by omega
      refine ⟨hall, now, hstamped, hall, le_rfl, ?_⟩
      rw [sub_self]
      exact periodSeconds_pos

/-- The clock as it was set. -/
theorem inv_watchFrom (expiresAt : Option Seconds) (credits : ℚ) (t₀ : Seconds) :
    Inv t₀ (watchFrom expiresAt credits t₀) := by
  have hzero : (0 : ℤ) = ⌊(t₀ - t₀) / periodSeconds⌋ := by rw [sub_self, zero_div, Int.floor_zero]
  refine ⟨hzero, t₀, rfl, hzero, le_rfl, ?_⟩
  show t₀ - t₀ < periodSeconds
  rw [sub_self]
  exact periodSeconds_pos

end

/-! ## Every sequence of checks -/

/-- **Credits accrue by elapsed time** after every check of a run exactly when no
check of it loses a period. -/
theorem accrued_iff_noneLost (monthlyCredits : ℤ) (expiresAt : Option Seconds) (credits : ℚ)
    (t₀ : Seconds) {times : List Seconds} {w : Watch}
    (hrun : run (check monthlyCredits) (watchFrom expiresAt credits t₀) times = some w) :
    (∀ ts, ts <+: times → ∀ u,
        run (check monthlyCredits) (watchFrom expiresAt credits t₀) ts = some u → u.Accrued t₀) ↔
      AllSteps (check monthlyCredits) (NoneLost monthlyCredits t₀) (watchFrom expiresAt credits t₀)
        times :=
  forall_prefix_iff_allSteps_of_invariant (fun _ h => h.accrued)
    (fun _ _ _ h hok hs => (h.check hs).2 hok) (fun _ _ _ h hs hp => (h.check hs).1 hp)
    (inv_watchFrom expiresAt credits t₀) hrun

def days (n : ℕ) : Seconds := n * 86400

/-- Checked on the thirtieth and the sixtieth day, and twice in between. -/
theorem accrued_iff_noneLost_onTime :
    ∃ w, run (check 800) (watchFrom none 0 0) [days 30, days 40, days 59, days 60] = some w ∧
      w.member.credits = 1600 ∧ w.Accrued 0 := by
  obtain ⟨w, hrun, hcredits⟩ := exists_of_any (p := fun w : Watch => w.member.credits = 1600)
    (show (run (check 800) (watchFrom none 0 0) [days 30, days 40, days 59, days 60]).any _ = true by
      decide +kernel)
  have hall := (accrued_iff_noneLost 800 none 0 0 hrun).mpr (by decide +kernel)
  exact ⟨w, hrun, hcredits, hall _ List.prefix_rfl w hrun⟩

/-- Two periods have passed on the sixtieth day, and one was granted. -/
theorem lateCheck_losesPeriod :
    ∃ w, run (check 800) (watchFrom none 0 0) [days 45, days 60] = some w ∧
      w.member.granted = 1 ∧ ¬ w.Accrued 0 := by
  obtain ⟨w, hrun, hgranted, hlaw⟩ := exists_of_any (p := fun w : Watch =>
    w.member.granted = 1 ∧ ¬ w.member.granted = ⌊(w.clock - 0) / periodSeconds⌋)
    (show (run (check 800) (watchFrom none 0 0) [days 45, days 60]).any _ = true by decide +kernel)
  exact ⟨w, hrun, hgranted, hlaw⟩

end AlgoTrade.LifetimeGrants
