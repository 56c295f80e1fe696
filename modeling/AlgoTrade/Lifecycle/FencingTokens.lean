import AlgoTrade.Lifecycle.Commands
import Mathlib.Order.Nat

/-! # Fencing tokens

The lease row of one strategy under any workers' acquisitions, renewals, releases and
clean-ups, beside the tokens that were given.

* `increasing_iff`: each token is above those of other workers exactly when no worker
  finds the row gone after another one was given a token. -/

namespace AlgoTrade.Lifecycle

/-! ## The lease of one strategy -/

/-- A token given to a worker. -/
structure Grant where
  ownerId : ℕ
  fencingToken : ℕ
  deriving DecidableEq

structure LeaseHistory where
  clock : ℕ := 0
  lease : Option Lease := none
  /-- Every token so far, the latest last. -/
  granted : List Grant := []

inductive LeaseCall
  | acquire (owner leaseSeconds : ℕ)
  | renew (owner leaseSeconds : ℕ)
  | release (owner : ℕ)
  | cleanup
  | tick (seconds : ℕ)

/-- The rows that `cleanup_runtime_metadata` leaves. -/
def cleanupStrategyLease (clock : ℕ) (lease : Option Lease) : Option Lease :=
  lease.filter fun l => ¬ l.leaseExpiresAt + 86400 < clock

namespace LeaseHistory

def step (s : LeaseHistory) : LeaseCall → LeaseHistory
  | .acquire owner leaseSeconds =>
    match acquireStrategyLease { strategyLease := leaseSeconds } s.clock owner s.lease with
    | none => s
    | some l => { s with lease := some l, granted := s.granted ++ [⟨owner, l.fencingToken⟩] }
  | .renew owner leaseSeconds =>
    match renewStrategyLease { strategyLease := leaseSeconds } s.clock owner s.lease with
    | none => s
    | some l => { s with lease := some l }
  | .release owner => { s with lease := releaseStrategyLease owner s.lease }
  | .cleanup => { s with lease := cleanupStrategyLease s.clock s.lease }
  | .tick seconds => { s with clock := s.clock + seconds }

def run (s : LeaseHistory) (calls : List LeaseCall) : LeaseHistory := calls.foldl step s

/-- A token is above all that other workers were given before. -/
def Increasing (s : LeaseHistory) : Prop :=
  s.granted.Pairwise fun earlier later =>
    earlier.ownerId ≠ later.ownerId → earlier.fencingToken < later.fencingToken

/-- A worker that finds no row is the only one that was ever given a token. -/
def FindsRow (s : LeaseHistory) : LeaseCall → Prop
  | .acquire owner _ => s.lease = none → ∀ g ∈ s.granted, g.ownerId = owner
  | _ => True

/-- Each call of the run finds the row. -/
def AlwaysFindsRow (s : LeaseHistory) : List LeaseCall → Prop
  | [] => True
  | call :: calls => s.FindsRow call ∧ (s.step call).AlwaysFindsRow calls

instance (s : LeaseHistory) : Decidable s.Increasing := inferInstanceAs (Decidable (List.Pairwise _ _))

/-! ## The invariant -/

/-- What the calls keep. -/
structure Fenced (s : LeaseHistory) : Prop where
  increasing : s.Increasing
  one_le : ∀ g ∈ s.granted, 1 ≤ g.fencingToken
  /-- Only a takeover gives a token above 1. -/
  takenOver : ∀ g ∈ s.granted, 1 < g.fencingToken → ∃ g' ∈ s.granted, g'.ownerId ≠ g.ownerId
  given : ∀ l ∈ s.lease, ⟨l.ownerId, l.fencingToken⟩ ∈ s.granted
  latest : ∀ l ∈ s.lease, ∀ g ∈ s.granted, g.fencingToken ≤ l.fencingToken ∧
    (g.fencingToken = l.fencingToken → g.ownerId = l.ownerId)

theorem fenced_start : Fenced {} where
  increasing := List.Pairwise.nil
  one_le _ h := (List.not_mem_nil h).elim
  takenOver _ h := (List.not_mem_nil h).elim
  given _ h := nomatch h
  latest _ h := nomatch h

variable {s : LeaseHistory}

theorem Increasing.append {g : Grant} (h : s.Increasing) (lease : Option Lease)
    (habove : ∀ g' ∈ s.granted, g'.ownerId ≠ g.ownerId → g'.fencingToken < g.fencingToken) :
    Increasing { s with lease, granted := s.granted ++ [g] } := by
  refine List.pairwise_append.mpr ⟨h, List.pairwise_singleton _ _, fun g' hg' g'' hg'' => ?_⟩
  obtain rfl := List.mem_singleton.mp hg''
  exact habove g' hg'

/-- The latest token can be given up, not changed. -/
theorem Fenced.keep (h : Fenced s) {lease : Option Lease}
    (hlease : ∀ l ∈ lease, ∃ l' ∈ s.lease, l'.ownerId = l.ownerId ∧ l'.fencingToken = l.fencingToken) :
    Fenced { s with lease } where
  increasing := h.increasing
  one_le := h.one_le
  takenOver := h.takenOver
  given l hl := by
    obtain ⟨l', hl', howner, htoken⟩ := hlease l hl
    rw [← howner, ← htoken]
    exact h.given l' hl'
  latest l hl := by
    obtain ⟨l', hl', howner, htoken⟩ := hlease l hl
    rw [← howner, ← htoken]
    exact h.latest l' hl'

/-- **A worker is given the latest token.** -/
theorem Fenced.grant (h : Fenced s) (l : Lease) (hone : 1 ≤ l.fencingToken)
    (habove : ∀ g ∈ s.granted, g.fencingToken ≤ l.fencingToken ∧
      (g.fencingToken = l.fencingToken → g.ownerId = l.ownerId))
    (htaken : 1 < l.fencingToken → ∃ g ∈ s.granted, g.ownerId ≠ l.ownerId) :
    Fenced { s with lease := some l, granted := s.granted ++ [⟨l.ownerId, l.fencingToken⟩] } where
  increasing := h.increasing.append (g := ⟨l.ownerId, l.fencingToken⟩) _ fun g hg hne =>
    lt_of_le_of_ne (habove g hg).1 fun heq => hne ((habove g hg).2 heq)
  one_le g hg := by
    rcases List.mem_append.mp hg with hg | hg
    · exact h.one_le g hg
    · obtain rfl := List.mem_singleton.mp hg
      exact hone
  takenOver g hg hlt := by
    rcases List.mem_append.mp hg with hg | hg
    · obtain ⟨g', hg', hne⟩ := h.takenOver g hg hlt
      exact ⟨g', List.mem_append_left _ hg', hne⟩
    · obtain rfl := List.mem_singleton.mp hg
      obtain ⟨g', hg', hne⟩ := htaken hlt
      exact ⟨g', List.mem_append_left _ hg', hne⟩
  given l' hl' := by
    obtain rfl := Option.some.inj hl'
    exact List.mem_append_right _ (List.mem_singleton.mpr rfl)
  latest l' hl' g hg := by
    obtain rfl := Option.some.inj hl'
    rcases List.mem_append.mp hg with hg | hg
    · exact habove g hg
    · obtain rfl := List.mem_singleton.mp hg
      exact ⟨le_rfl, fun _ => rfl⟩

theorem Fenced.acquire (h : Fenced s) {owner leaseSeconds : ℕ}
    (hfinds : s.FindsRow (.acquire owner leaseSeconds)) :
    Fenced (s.step (.acquire owner leaseSeconds)) := by
  unfold step
  dsimp only
  split
  next => exact h
  next l hl =>
    cases hlease : s.lease with
    | none =>
      rw [hlease] at hl
      obtain rfl := Option.some.inj hl
      -- whoever was given a token is this worker, and was never taken over
      have hones : ∀ g ∈ s.granted, g.fencingToken = 1 := by
        intro g hg
        refine le_antisymm (not_lt.mp fun hlt => ?_) (h.one_le g hg)
        obtain ⟨g', hg', hne⟩ := h.takenOver g hg hlt
        exact hne ((hfinds hlease g' hg').trans (hfinds hlease g hg).symm)
      exact h.grant _ le_rfl (fun g hg => ⟨(hones g hg).le, fun _ => hfinds hlease g hg⟩)
        fun hlt => absurd hlt (lt_irrefl 1)
    | some l₀ =>
      rw [hlease] at hl
      unfold acquireStrategyLease at hl
      dsimp only at hl
      split at hl
      next =>
        obtain rfl := Option.some.inj hl
        have hlatest := h.latest l₀ hlease
        have hgiven := h.given l₀ hlease
        by_cases hown : l₀.ownerId = owner
        · subst hown
          refine h.grant ⟨l₀.ownerId, if l₀.ownerId = l₀.ownerId then _ else _, _⟩ ?_ ?_ ?_
          all_goals
            dsimp only
            rw [if_pos rfl]
          · exact h.one_le _ hgiven
          · exact hlatest
          · exact h.takenOver _ hgiven
        · refine h.grant ⟨owner, if l₀.ownerId = owner then _ else _, _⟩ ?_ ?_ ?_
          all_goals
            dsimp only
            rw [if_neg hown]
          · exact Nat.le_add_left 1 _
          · intro g hg
            have hlt := Nat.lt_succ_of_le (hlatest g hg).1
            exact ⟨hlt.le, fun heq => absurd heq hlt.ne⟩
          · exact fun _ => ⟨_, hgiven, hown⟩
      next => cases hl

/-- **One call** that finds the row. -/
theorem Fenced.step (h : Fenced s) {call : LeaseCall} (hfinds : s.FindsRow call) :
    Fenced (s.step call) := by
  cases call with
  | acquire owner leaseSeconds => exact h.acquire hfinds
  | renew owner leaseSeconds =>
    unfold LeaseHistory.step
    dsimp only
    split
    next => exact h
    next l hl =>
      refine h.keep fun l' hl' => ?_
      obtain rfl := Option.some.inj hl'
      unfold renewStrategyLease at hl
      split at hl
      next => cases hl
      next l₀ hlease =>
        split at hl
        next =>
          obtain rfl := Option.some.inj hl
          exact ⟨l₀, hlease, rfl, rfl⟩
        next => cases hl
  | release owner =>
    exact h.keep fun l hl => ⟨l, releaseStrategyLease_eq_some hl, rfl, rfl⟩
  | cleanup =>
    exact h.keep fun l hl => ⟨l, (Option.filter_eq_some_iff.mp hl).1, rfl, rfl⟩
  | tick seconds => exact ⟨h.increasing, h.one_le, h.takenOver, h.given, h.latest⟩

/-! ## Runs -/

/-- Tokens are never taken back. -/
theorem granted_step (s : LeaseHistory) (call : LeaseCall) :
    s.granted <+: (s.step call).granted := by
  cases call with
  | acquire owner leaseSeconds =>
    unfold step
    dsimp only
    split
    · exact List.prefix_rfl
    · exact List.prefix_append ..
  | renew owner leaseSeconds =>
    unfold step
    dsimp only
    split
    · exact List.prefix_rfl
    · exact List.prefix_rfl
  | release owner => exact List.prefix_rfl
  | cleanup => exact List.prefix_rfl
  | tick seconds => exact List.prefix_rfl

theorem granted_run (s : LeaseHistory) (calls : List LeaseCall) :
    s.granted <+: (s.run calls).granted := by
  induction calls generalizing s with
  | nil => exact List.prefix_rfl
  | cons call calls ih => exact (granted_step s call).trans (ih (s.step call))

/-- The row starts at 1 again, which is above no token. -/
theorem Fenced.findsRow (h : Fenced s) {call : LeaseCall} (hincreasing : (s.step call).Increasing) :
    s.FindsRow call := by
  cases call with
  | acquire owner leaseSeconds =>
    intro hlease g hg
    by_contra hne
    unfold LeaseHistory.step at hincreasing
    rw [hlease] at hincreasing
    have hlt : g.fencingToken < 1 :=
      (List.pairwise_append.mp hincreasing).2.2 g hg _ (List.mem_singleton.mpr rfl) hne
    exact absurd (h.one_le g hg) (Nat.not_le.mpr hlt)
  | renew owner leaseSeconds => trivial
  | release owner => trivial
  | cleanup => trivial
  | tick seconds => trivial

theorem Fenced.increasing_run (h : Fenced s) (calls : List LeaseCall) :
    (s.run calls).Increasing ↔ s.AlwaysFindsRow calls := by
  induction calls generalizing s with
  | nil => exact iff_of_true h.increasing trivial
  | cons call calls ih =>
    refine ⟨fun hincreasing => ?_, fun ⟨hfinds, hrest⟩ => (ih (h.step hfinds)).mpr hrest⟩
    have hstep : (s.step call).Increasing :=
      hincreasing.sublist (granted_run (s.step call) calls).sublist
    have hfinds := h.findsRow hstep
    exact ⟨hfinds, (ih (h.step hfinds)).mp hincreasing⟩

/-- **Tokens increase**, in any order of calls, exactly when no worker finds the row
gone after another one was given a token. -/
theorem increasing_iff (calls : List LeaseCall) :
    (run {} calls).Increasing ↔ AlwaysFindsRow {} calls := fenced_start.increasing_run calls

/-- A worker gives its lease back, and the next one is given the same token. -/
theorem token_repeats :
    ¬ (run {} [.acquire 1 30, .tick 5, .release 1, .acquire 2 30]).Increasing := by decide

end LeaseHistory

end AlgoTrade.Lifecycle
