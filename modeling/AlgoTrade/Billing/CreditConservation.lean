import AlgoTrade.Billing.Credits

/-! # Conservation of a user's credits

Any number of credit calls on one user run interleaved, statement by statement.

* `Balanced`: what a call alone keeps at every statement: the balance and the
  log move together, and the balance stays nonnegative.
* `creditsConserved_of_readsCurrent`: a run whose lock-taking statements find
  their reads current conserves the credits in every state. -/

namespace AlgoTrade

open ReadCommitted Runs

/-- No call of `calls` has started. -/
def creditStart (calls : List CreditCall) (a : Account) : Sys Account CreditTx :=
  initial (calls.map fun c => ⟨c, .start⟩) a

/-- Statements of a call before it can take the lock, with the first one. -/
def lockDepth : Nat := 3

/-- The reads of the step's call are current; an exception is reported. -/
def CreditReadsCurrent (cfg : BillingConfig) (calls : List CreditCall) (s : Sys Account CreditTx)
    (a : Label) : Prop :=
  ReadsCurrent (creditProgram cfg) (calls.map fun c => ⟨c, .start⟩) lockDepth s a

instance (cfg : BillingConfig) (calls : List CreditCall) (s : Sys Account CreditTx) (a : Label) :
    Decidable (CreditReadsCurrent cfg calls s a) :=
  inferInstanceAs (Decidable (ReadsCurrent ..))

/-- The committed balance is the one some serial order of the successful calls
leaves, it is the initial one plus what was logged since, and not negative. -/
structure CreditsConserved (cfg : BillingConfig) (calls : List CreditCall) (a₀ : Account)
    (s : Sys Account CreditTx) : Prop where
  serial : ∃ order b, order.Nodup ∧ (∀ i, i ∈ order ↔ s.procs[i]? = some (.ended true)) ∧
    Serial (creditProgram cfg) (calls.map fun c => ⟨c, .start⟩) a₀ order b ∧
    s.row.credits = b.credits
  logged : s.row.credits = a₀.credits + (s.row.logged - a₀.logged)
  nonneg : 0 ≤ s.row.credits

/-! ## One call alone -/

/-- The amount that is in the balance and not yet in the log. -/
def CreditPhase.unlogged : CreditPhase → ℚ
  | .written amount _ => amount
  | _ => 0

/-- What a phase promises: what it has read of the balance is the balance, and
what it is going to add or write is not negative. -/
def CreditPhase.Reads (credits : ℚ) : CreditPhase → Prop
  | .rowLocked amount old => old = credits ∧ 0 ≤ amount
  | .creditsRead amount old => old = credits ∧ 0 ≤ amount
  | .oldRead amount old => old = credits ∧ 0 ≤ amount
  | .bonusDue amount => 0 ≤ amount
  | _ => True

/-- A call alone, started on `a`, in the middle of its statements. -/
structure Balanced (a : Account) (p : CreditTx × Account) : Prop where
  nonneg : 0 ≤ p.2.credits
  balanced : p.2.credits - p.2.logged = a.credits - a.logged + p.1.phase.unlogged
  reads : p.1.phase.Reads p.2.credits

theorem Account.logged_append (a : Account) (r : CreditsLogRow) :
    ({ a with log := a.log ++ [r] } : Account).logged = a.logged + r.amount := by
  simp [Account.logged]

/-- The phase neither holds an unlogged amount nor promises anything. -/
structure CreditPhase.Quiet (ph : CreditPhase) : Prop where
  unlogged : ph.unlogged = 0
  reads : ∀ c, ph.Reads c

theorem quiet_afterCredits (t : CreditTx) : t.afterCredits.Quiet := by
  unfold CreditTx.afterCredits
  split <;> exact ⟨rfl, fun _ => trivial⟩

theorem quiet_bonusPhase (t : CreditTx) (amount : ℤ) : (t.bonusPhase amount).Quiet := by
  unfold CreditTx.bonusPhase
  split
  next h => exact ⟨rfl, fun _ => by show (0 : ℚ) ≤ amount; exact_mod_cast h.le⟩
  next => exact quiet_afterCredits t

theorem quiet_purchasePhase (cfg : BillingConfig) (t : CreditTx) (plan : MembershipPlan)
    (vip : VipFields) : (t.purchasePhase cfg plan vip).Quiet := by
  unfold CreditTx.purchasePhase
  split
  · exact quiet_bonusPhase ..
  · exact ⟨rfl, fun _ => trivial⟩

theorem quiet_grantPhase {cfg : BillingConfig} (h : 0 < cfg.lifetimeCreditsMonthly) (now : ℤ)
    (vip : VipFields) : (CreditTx.grantPhase cfg now vip).Quiet := by
  unfold CreditTx.grantPhase
  split
  · exact ⟨rfl, fun _ => trivial⟩
  · split
    · exact ⟨rfl, fun _ => trivial⟩
    · split
      · exact ⟨rfl, fun _ => trivial⟩
      next hperiods =>
        refine ⟨rfl, fun _ => ?_⟩
        show (0 : ℚ) ≤ ((cfg.lifetimeCreditsMonthly * grantPeriods _ _ : ℤ) : ℚ)
        exact_mod_cast (mul_pos h (not_le.mp hperiods)).le

/-- The call moves to a quiet phase and leaves balance and log as they are. -/
theorem Balanced.quiet {a v v' : Account} {t : CreditTx} {ph : CreditPhase}
    (h : Balanced a (t, v)) (hold : t.phase.unlogged = 0) (hph : ph.Quiet)
    (hcredits : v'.credits = v.credits) (hlog : v'.log = v.log) : Balanced a (t.goTo ph, v') := by
  have hlogged : v'.logged = v.logged := by simp only [Account.logged, hlog]
  have hbalanced := h.balanced
  refine ⟨?_, ?_, hph.reads _⟩
  · rw [show v'.credits = v.credits from hcredits]
    exact h.nonneg
  · show v'.credits - v'.logged = _ + ph.unlogged
    rw [hcredits, hlogged, hph.unlogged]
    rwa [hold] at hbalanced

/-- The first statement of a call. -/
theorem balanced_firstStmt {cfg : BillingConfig} {a v : Account} {t : CreditTx}
    (h : Balanced a (t, v)) (hold : t.phase.unlogged = 0) :
    (t.firstStmt cfg).Ensures (Balanced a) v := by
  have hbalanced : v.credits - v.logged = a.credits - a.logged := by
    rw [h.balanced, hold, add_zero]
  unfold CreditTx.firstStmt
  cases t.call with
  | consume cost ref =>
    dsimp only
    split
    · trivial
    · dsimp only [Stmt.Ensures]
      split
      next hle =>
        refine ⟨sub_nonneg.mpr hle, ?_, trivial⟩
        show v.credits - cost - v.logged = a.credits - a.logged + -cost
        linarith
      next => exact h.quiet hold ⟨rfl, fun _ => trivial⟩ rfl rfl
  | add amount action ref =>
    dsimp only
    split
    · trivial
    next hpos =>
      refine ⟨h.nonneg, ?_, rfl, (not_le.mp hpos).le⟩
      show v.credits - v.logged = a.credits - a.logged + 0
      rw [hbalanced, add_zero]
  | set amount =>
    dsimp only
    split
    · trivial
    next hneg =>
      refine ⟨h.nonneg, ?_, rfl, not_lt.mp hneg⟩
      show v.credits - v.logged = a.credits - a.logged + 0
      rw [hbalanced, add_zero]
  | purchase plan now ref => exact h.quiet hold (quiet_purchasePhase ..) rfl rfl
  | grant now =>
    dsimp only
    split
    · trivial
    next hpos => exact h.quiet hold (quiet_grantPhase (not_le.mp hpos) ..) rfl rfl

/-- Every statement of a call alone keeps balance and log together. -/
theorem balanced_stmt (cfg : BillingConfig) (a : Account) (t : CreditTx) (v : Account)
    (h : Balanced a (t, v)) : ((creditProgram cfg).stmt t).Ensures (Balanced a) v := by
  have hbalanced := h.balanced
  have hreads := h.reads
  show (t.stmt cfg).Ensures (Balanced a) v
  unfold CreditTx.stmt
  cases hph : t.phase with
  | start => exact balanced_firstStmt h (by rw [hph]; rfl)
  | refused => trivial
  | duplicate => trivial
  | rowLocked amount credits =>
    rw [hph] at hbalanced hreads
    show Balanced a (t.goTo (if t.isDuplicate v then .duplicate else .creditsRead amount credits), v)
    split
    · exact ⟨h.nonneg, hbalanced, trivial⟩
    · exact ⟨h.nonneg, hbalanced, hreads⟩
  | oldRead amount old =>
    rw [hph] at hbalanced hreads
    obtain ⟨hold, hpos⟩ : old = v.credits ∧ 0 ≤ amount := hreads
    refine ⟨hpos, ?_, trivial⟩
    show amount - v.logged = a.credits - a.logged + (amount - old)
    have : v.credits - v.logged = a.credits - a.logged + 0 := hbalanced
    linarith
  | vipRead vip =>
    cases t.call with
    | purchase plan now ref =>
      exact h.quiet (by rw [hph]; rfl) (quiet_bonusPhase ..) rfl rfl
    | consume | add | set | grant => trivial
  | bonusDue amount =>
    rw [hph] at hbalanced hreads
    exact ⟨h.nonneg, hbalanced, rfl, hreads⟩
  | creditsRead amount credits =>
    rw [hph] at hbalanced hreads
    obtain ⟨hold, hpos⟩ : credits = v.credits ∧ 0 ≤ amount := hreads
    have hnonneg : 0 ≤ v.credits := h.nonneg
    refine ⟨?_, ?_, trivial⟩
    · show 0 ≤ credits + amount
      linarith
    · show credits + amount - v.logged = a.credits - a.logged + amount
      have : v.credits - v.logged = a.credits - a.logged + 0 := hbalanced
      linarith
  | written amount balance =>
    rw [hph] at hbalanced
    refine ⟨h.nonneg, ?_, (quiet_afterCredits t).reads _⟩
    show v.credits - ({ v with log := v.log ++ [_] } : Account).logged =
      a.credits - a.logged + t.afterCredits.unlogged
    rw [Account.logged_append, (quiet_afterCredits t).unlogged]
    have : v.credits - v.logged = a.credits - a.logged + amount := hbalanced
    linarith
  | stamping => exact h.quiet (by rw [hph]; rfl) ⟨rfl, fun _ => trivial⟩ rfl rfl
  | logged => trivial

theorem phase_of_commit {cfg : BillingConfig} {t : CreditTx}
    (h : (creditProgram cfg).stmt t = .commit) : t.phase = .logged := by
  have h : t.stmt cfg = .commit := h
  unfold CreditTx.stmt at h
  cases hph : t.phase with
  | logged => rfl
  | start =>
    simp only [hph, CreditTx.firstStmt] at h
    cases hc : t.call with
    | purchase plan now ref => simp [hc] at h
    | consume | add | set | grant =>
      simp only [hc] at h
      split at h <;> cases h
  | vipRead vip =>
    simp only [hph] at h
    split at h <;> cases h
  | _ => simp [hph] at h

/-- **One call.**  A call that succeeds alone moves the balance by what it logs
and leaves it nonnegative. -/
theorem balance_of_succeeds {cfg : BillingConfig} {c : CreditCall} {a b : Account}
    (ha : 0 ≤ a.credits) (h : Succeeds (creditProgram cfg) ⟨c, .start⟩ a b) :
    0 ≤ b.credits ∧ b.credits - b.logged = a.credits - a.logged := by
  obtain ⟨n, t, v, halone, hend⟩ := h
  have hstart : Balanced a (⟨c, .start⟩, a) :=
    ⟨ha, (add_zero _).symm, trivial⟩
  have hbal : Balanced a (t, v) := halone.invariant (balanced_stmt cfg a) hstart
  rcases hend with ⟨hcommit, rfl⟩ | ⟨-, rfl⟩
  · have hlogged : t.phase = .logged := phase_of_commit hcommit
    have hbalanced := hbal.balanced
    rw [hlogged] at hbalanced
    exact ⟨hbal.nonneg, hbalanced.trans (add_zero _)⟩
  · exact ⟨ha, rfl⟩

/-! ## All calls -/

/-- **Conservation of credits.**  A run whose steps all find their reads current
conserves the user's credits. -/
theorem creditsConserved_of_readsCurrent {cfg : BillingConfig} {calls : List CreditCall}
    {a₀ : Account} (hstart : 0 ≤ a₀.credits) {labels : List Label} {s : Sys Account CreditTx}
    (hok : AllSteps (step (creditProgram cfg)) (CreditReadsCurrent cfg calls)
      (creditStart calls a₀) labels)
    (hs : run (step (creditProgram cfg)) (creditStart calls a₀) labels = some s) :
    CreditsConserved cfg calls a₀ s := by
  obtain ⟨order, hnodup, hmem, hserial⟩ := (serializable_run hok hs).history
  have hbalance : 0 ≤ s.row.credits ∧ s.row.credits - s.row.logged = a₀.credits - a₀.logged := by
    refine hserial.invariant (I := fun b : Account =>
      0 ≤ b.credits ∧ b.credits - b.logged = a₀.credits - a₀.logged)
      (fun t ht a b ha hab => ?_) ⟨hstart, rfl⟩
    obtain ⟨c, -, rfl⟩ := List.mem_map.mp ht
    obtain ⟨hnonneg, hmoved⟩ := balance_of_succeeds ha.1 hab
    exact ⟨hnonneg, hmoved.trans ha.2⟩
  refine ⟨⟨order, s.row, hnodup, hmem, hserial, rfl⟩, ?_, hbalance.1⟩
  linarith [hbalance.2]

def hundredCredits : Account where
  credits := 100

/-- A monthly purchase and a consumption interleave; an admin then sets 50. -/
theorem creditsConserved_purchaseConsumeSet :
    ∃ s, run (step (creditProgram {}))
        (creditStart [.purchase .monthly 0 "usdt:1", .consume 30 "r1", .set 50] hundredCredits)
        [.step 0, .step 1, .step 1, .step 1, .step 0, .step 0, .step 0, .step 0, .step 0,
          .step 2, .step 2, .step 2, .step 2] = some s ∧
      CreditsConserved {} [.purchase .monthly 0 "usdt:1", .consume 30 "r1", .set 50]
        hundredCredits s := by
  obtain ⟨s, hs⟩ := Option.isSome_iff_exists.mp (show (run (step (creditProgram {}))
      (creditStart [.purchase .monthly 0 "usdt:1", .consume 30 "r1", .set 50] hundredCredits)
      [.step 0, .step 1, .step 1, .step 1, .step 0, .step 0, .step 0, .step 0, .step 0,
        .step 2, .step 2, .step 2, .step 2]).isSome by decide +kernel)
  exact ⟨s, hs, creditsConserved_of_readsCurrent (by decide +kernel) (by decide +kernel) hs⟩

/-- `set_credits` reads 100, a consumption of 30 commits, `set_credits` writes 50
and logs -50: the log says 20 and the balance is 50. -/
theorem staleSet_breaksLog :
    ∃ s, run (step (creditProgram {})) (creditStart [.set 50, .consume 30 "r1"] hundredCredits)
        [.step 0, .step 1, .step 1, .step 1, .step 0, .step 0, .step 0] = some s ∧
      s.procs = [.ended true, .ended true] ∧ s.row.credits = 50 ∧ s.row.logged = -80 ∧
      ¬ CreditsConserved {} [.set 50, .consume 30 "r1"] hundredCredits s := by
  obtain ⟨s, hs, hended, hcredits, hlogged⟩ : ∃ s, run (step (creditProgram {}))
        (creditStart [.set 50, .consume 30 "r1"] hundredCredits)
        [.step 0, .step 1, .step 1, .step 1, .step 0, .step 0, .step 0] = some s ∧
      s.procs = [.ended true, .ended true] ∧ s.row.credits = 50 ∧ s.row.logged = -80 :=
    exists_of_any (by decide +kernel)
  refine ⟨s, hs, hended, hcredits, hlogged, fun h => ?_⟩
  have := h.logged
  rw [hcredits, hlogged] at this
  norm_num [hundredCredits, Account.logged] at this

end AlgoTrade
