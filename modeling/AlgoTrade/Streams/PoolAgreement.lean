import AlgoTrade.Streams.PoolTracking

/-! # Every answered run ends in agreement

* `Agree`: what is tracked, what the counts say, and what the broker sends.
* `Answered`: the condition on one step.
* `tracks_unsubscribeAll`, `tracks_recover`: the operations on the whole pool.
* `agree_of_answered`: every run whose steps are answered ends in agreement; a
  downgrade whose rollback fails too leaves a tracked pair that the broker has
  dropped. -/

namespace AlgoTrade.ConnectionPool

open Runs Pool

structure Agree (lim : PoolLimits) (p : Pool) : Prop where
  together : ∀ pair mode mode' idx idx', p.subscriptionMap.get? (pair, mode) = some idx →
    p.subscriptionMap.get? (pair, mode') = some idx' → idx = idx'
  counts : p.symbolCounts.length = p.adapters.length
  counted : ∀ idx n, p.symbolCounts[idx]? = some n →
    n = (p.pairsOn idx).card ∧ n ≤ lim.maxSymbols
  connections : p.adapters.length ≤ lim.maxConnections
  tracked : ∀ pair mode idx, p.Top pair mode idx → (p.feed idx pair).map Feed.mode = some mode
  untracked : ∀ pair, (∀ mode, p.subscriptionMap.get? (pair, mode) = none) →
    (∀ idx, p.feed idx pair = none) ∧ ∀ a ∈ p.orphans, a pair = none

/-- Every connection that carries a pair answers the call with success. -/
def Pool.CarryingAnswer (p : Pool) (answers : ℕ → Answer) : Prop :=
  ∀ idx < p.adapters.length, p.pairsOn idx ≠ ∅ → answers idx = .success

/-- **The condition.**  A downgrade that took the pair off the broker puts it on
again; `unsubscribe_all` clears every connection that carries a pair, or raises
before the first of them is cleared; a rebuild closes them; and one that finds the
pool uninitialised has room for a connection. -/
def Answered (lim : PoolLimits) (p : Pool) : Act → Prop
  | .initial ans => ¬ p.initialized → ans = .success → p.adapters.length < lim.maxConnections
  | .subscribe .. => True
  | .unsubscribe pair mode calls =>
    p.subscriptionMap.get? (pair, mode) ≠ none → p.Downgrades pair mode → calls.Sound
  | .unsubscribeAll has answers =>
    match p.firstRaise has answers with
    | none => p.CarryingAnswer (clearAnswer has answers)
    | some last => ∀ idx < last, p.pairsOn idx ≠ ∅ → clearAnswer has answers idx ≠ .success
  | .recover calls =>
    if p.initialized then p.CarryingAnswer calls.disconnect
    else calls.init = .success → p.adapters.length < lim.maxConnections

instance (p : Pool) (pair : Pair) (mode : ℕ) : Decidable (p.Downgrades pair mode) :=
  inferInstanceAs (Decidable (_ = true))

instance (p : Pool) (answers : ℕ → Answer) : Decidable (p.CarryingAnswer answers) :=
  inferInstanceAs (Decidable (∀ idx < _, _ → _))

instance (lim : PoolLimits) (p : Pool) : ∀ act, Decidable (Answered lim p act)
  | .initial _ => inferInstanceAs (Decidable (_ → _ → _))
  | .subscribe .. => inferInstanceAs (Decidable True)
  | .unsubscribe .. => inferInstanceAs (Decidable (_ → _ → _))
  | .unsubscribeAll has answers => by
    dsimp only [Answered]
    split
    · infer_instance
    · infer_instance
  | .recover calls =>
    inferInstanceAs (Decidable (if p.initialized then p.CarryingAnswer calls.disconnect else _ → _))

section
variable {lim : PoolLimits} {p : Pool}

theorem Tracks.agree (h : Tracks lim p) : Agree lim p where
  together := h.together
  counts := h.counts
  counted := h.counted
  connections := h.connections
  tracked pair mode idx htop := (h.feeds ..).mpr htop
  untracked pair hnone := by
    refine ⟨fun idx => ?_, fun a ha => h.orphans a ha pair⟩
    cases hfeed : p.feed idx pair with
    | none => rfl
    | some feed =>
      have htop := (h.feeds idx pair feed.mode).mp (by rw [hfeed, Option.map_some])
      exact absurd ((hnone feed.mode).symm.trans htop.1) (Option.some_ne_none idx).symm

/-! ## The whole pool -/

/-- A connection that carries no pair is sent nothing. -/
theorem Tracks.feed_eq_none (h : Tracks lim p) {idx : ℕ} (hempty : p.pairsOn idx = ∅) (pair : Pair) :
    p.feed idx pair = none := by
  cases hfeed : p.feed idx pair with
  | none => rfl
  | some feed =>
    have htop := (h.feeds idx pair feed.mode).mp (by rw [hfeed, Option.map_some])
    have hmem := (mem_pairsOn h.keys).mpr ⟨feed.mode, htop.1⟩
    rw [hempty] at hmem
    exact absurd hmem (Finset.notMem_empty pair)

/-- A pool that tracks nothing. -/
theorem tracks_of_empty (hmap : p.subscriptionMap = {})
    (hcounts : p.symbolCounts = List.replicate p.adapters.length 0)
    (hconn : p.adapters.length ≤ lim.maxConnections) (hfeeds : ∀ idx pair, p.feed idx pair = none)
    (horphans : ∀ a ∈ p.orphans, ∀ pair, a pair = none) : Tracks lim p where
  keys := hmap ▸ List.nodup_nil
  counts := by rw [hcounts, List.length_replicate]
  connections := hconn
  placed key idx hget := by
    rw [hmap] at hget
    cases hget
  together pair mode mode' idx idx' hget := by
    rw [hmap] at hget
    cases hget
  counted idx n hn := by
    rw [hcounts] at hn
    obtain rfl := List.eq_of_mem_replicate (List.mem_of_getElem? hn)
    refine ⟨?_, Nat.zero_le _⟩
    unfold pairsOn
    rw [hmap]
    rfl
  feeds idx pair mode := by
    rw [hfeeds]
    refine ⟨fun heq => (nomatch heq), fun htop => ?_⟩
    have hget := htop.1
    rw [hmap] at hget
    cases hget
  orphans := horphans

theorem feed_clear (cleared : ℕ → Bool) (idx : ℕ) (pair : Pair) :
    (p.clear cleared).feed idx pair = if cleared idx then none else p.feed idx pair := by
  unfold Pool.feed Pool.clear
  dsimp only
  rw [List.getElem?_mapIdx]
  cases p.adapters[idx]? with
  | none => exact (ite_self none).symm
  | some a => exact apply_ite (fun a : Adapter => a pair) _ _ _

theorem length_clear (cleared : ℕ → Bool) :
    (p.clear cleared).adapters.length = p.adapters.length :=
  List.length_mapIdx

theorem tracks_unsubscribeAll (h : Tracks lim p) {has : Bool} {answers : ℕ → Answer}
    (hok : Answered lim p (.unsubscribeAll has answers)) :
    Tracks lim (p.unsubscribeAll has answers) := by
  dsimp only [Answered] at hok
  unfold Pool.unsubscribeAll
  split
  next last hlast =>
    rw [hlast] at hok
    exact { h with
      counts := h.counts.trans (length_clear _).symm
      connections := (length_clear _).trans_le h.connections
      placed := fun key idx hget => (h.placed key idx hget).trans_eq (length_clear _).symm
      feeds := fun idx pair mode => by
        rw [feed_clear]
        split
        next hclear =>
          obtain ⟨hlt, hans⟩ := of_decide_eq_true hclear
          have hempty : p.pairsOn idx = ∅ := by
            by_contra hne
            exact hok idx hlt hne hans
          rw [← h.feed_eq_none hempty pair]
          exact h.feeds idx pair mode
        next => exact h.feeds idx pair mode }
  next hnone =>
    rw [hnone] at hok
    refine tracks_of_empty rfl (congrArg (List.replicate · 0) (length_clear _).symm)
      ((length_clear _).trans_le h.connections) (fun idx pair => ?_) h.orphans
    refine (feed_clear _ idx pair).trans ?_
    split
    next => rfl
    next hclear =>
      by_cases hidx : idx < p.adapters.length
      · have hempty : p.pairsOn idx = ∅ := by
          by_contra hne
          exact hclear (decide_eq_true (hok idx hidx hne))
        exact h.feed_eq_none hempty pair
      · unfold Pool.feed
        rw [List.getElem?_eq_none (Nat.le_of_not_lt hidx), Option.bind_none]

/-! ## Recovery -/

theorem tracks_firstConnection (h : Tracks lim p) {ans : Answer}
    (hok : ans = .success → p.adapters.length < lim.maxConnections) :
    Tracks lim (p.firstConnection ans).1 := by
  unfold firstConnection
  split
  next hans => exact { h.addConnection (hok hans) with }
  next => exact h

theorem tracks_initializePool (h : Tracks lim p) {ans : Answer}
    (hok : Answered lim p (.initial ans)) : Tracks lim (p.initializePool ans) := by
  unfold initializePool
  split
  next => exact h
  next hinit => exact tracks_firstConnection h (hok hinit)

theorem tracks_teardown (h : Tracks lim p) {disconnect : ℕ → Answer}
    (hok : p.CarryingAnswer disconnect) : Tracks lim (p.teardown disconnect) := by
  refine tracks_of_empty rfl rfl (Nat.zero_le _) (fun _ _ => rfl) fun a ha pair => ?_
  rcases List.mem_append.mp ha with ha | ha
  · exact h.orphans a ha pair
  · obtain ⟨⟨a', idx⟩, hmem, rfl⟩ := List.mem_map.mp ha
    obtain ⟨hzip, hans⟩ := List.mem_filter.mp hmem
    have hget := List.mem_zipIdx_iff_getElem?.mp hzip
    have hempty : p.pairsOn idx = ∅ := by
      by_contra hne
      exact of_decide_eq_true hans (hok idx (List.getElem?_eq_some_iff.mp hget).1 hne)
    have hfeed := h.feed_eq_none hempty pair
    unfold Pool.feed at hfeed
    rwa [hget, Option.bind_some] at hfeed

theorem tracks_restore (h : Tracks lim p) (calls : ℕ → SubscribeCalls) (subs : List (SubKey × ℕ)) :
    Tracks lim (p.restore lim calls subs) := by
  unfold restore
  induction subs.zipIdx generalizing p with
  | nil => exact h
  | cons sub subs ih => exact ih (tracks_subscribeInner h (calls sub.2) sub.1.1.1 sub.1.1.2 sub.1.2)

theorem tracks_recover (h : Tracks lim p) {calls : RecoveryCalls}
    (hok : Answered lim p (.recover calls)) : Tracks lim (p.recover lim calls).1 := by
  have hre : Tracks lim (p.forceInitialize calls).1 := by
    dsimp only [Answered] at hok
    unfold forceInitialize
    split
    next hinit =>
      rw [if_pos hinit] at hok
      exact tracks_firstConnection (tracks_teardown h hok) fun _ => lim.connections_pos
    next hinit =>
      rw [if_neg hinit] at hok
      exact tracks_firstConnection h hok
  unfold recover
  dsimp only
  split
  next p₁ heq =>
    rw [heq] at hre
    exact hre
  next p₁ heq =>
    rw [heq] at hre
    split
    · exact hre
    · exact hre
    · exact tracks_restore hre calls.restore _

/-- **What a step keeps**, when it is answered. -/
theorem Tracks.step (h : Tracks lim p) {act : Act} {p' : Pool} (hok : Answered lim p act)
    (hs : step lim p act = some p') : Tracks lim p' := by
  cases act with
  | initial ans => exact Option.some.inj hs ▸ tracks_initializePool h hok
  | subscribe pair mode depth calls =>
    exact Option.some.inj hs ▸ tracks_subscribeInner h calls pair mode depth
  | unsubscribe pair mode calls => exact Option.some.inj hs ▸ tracks_unsubscribe h hok
  | unsubscribeAll has answers => exact Option.some.inj hs ▸ tracks_unsubscribeAll h hok
  | recover calls => exact Option.some.inj hs ▸ tracks_recover h hok

/-- The pool as it is built. -/
theorem tracks_empty (lim : PoolLimits) : Tracks lim {} :=
  tracks_of_empty rfl rfl (Nat.zero_le _) (fun _ _ => rfl) fun _ ha => nomatch ha

end

/-! ## Every run -/

/-- **Every answered run ends in agreement.** -/
theorem agree_of_answered {lim : PoolLimits} {acts : List Act} {p : Pool}
    (hok : AllSteps (step lim) (Answered lim) {} acts) (hrun : run (step lim) {} acts = some p) :
    Agree lim p := by
  have h : Tracks lim p := run_invariant_of_allSteps (fun _ _ _ hinv hok hs => hinv.step hok hs)
    (tracks_empty lim) hok hrun
  exact h.agree

def defaultLimits : PoolLimits := ⟨1000, 3, by decide, by decide⟩

/-- A symbol taken up, upgraded, downgraded, and carried through a recovery. -/
def answeredRun : List Act :=
  [.initial .success, .subscribe ("SBIN", "NSE") 1 5 {}, .subscribe ("SBIN", "NSE") 3 20 {},
    .unsubscribe ("SBIN", "NSE") 3 {}, .recover {}]

theorem agree_of_answered_downgrade :
    ∃ p, run (step defaultLimits) {} answeredRun = some p ∧ Agree defaultLimits p ∧
      p.highest ("SBIN", "NSE") = some (1, 0) ∧ p.feed 0 ("SBIN", "NSE") = some ⟨1, 5⟩ := by
  obtain ⟨p, hrun, hhigh, hfeed⟩ := exists_of_any (p := fun p : Pool =>
    p.highest ("SBIN", "NSE") = some (1, 0) ∧ p.feed 0 ("SBIN", "NSE") = some ⟨1, 5⟩)
    (show (run (step defaultLimits) {} answeredRun).any _ = true by decide +kernel)
  exact ⟨p, hrun, agree_of_answered (by decide +kernel) hrun, hhigh, hfeed⟩

/-- The broker drops the pair, refuses the lower mode, and refuses the old one too. -/
theorem failedRollback_disagrees :
    ∃ p, run (step defaultLimits) {}
        [.initial .success, .subscribe ("SBIN", "NSE") 1 5 {}, .subscribe ("SBIN", "NSE") 2 5 {},
          .unsubscribe ("SBIN", "NSE") 2
            { subscribe := .error false, rollback := .error false }] = some p ∧
      p.Top ("SBIN", "NSE") 2 0 ∧ p.feed 0 ("SBIN", "NSE") = none ∧ ¬ Agree defaultLimits p := by
  obtain ⟨p, hrun, hhigh, hfeed⟩ := exists_of_any (p := fun p : Pool =>
    p.highest ("SBIN", "NSE") = some (2, 0) ∧ p.feed 0 ("SBIN", "NSE") = none)
    (show (run (step defaultLimits) {} [.initial .success, .subscribe ("SBIN", "NSE") 1 5 {},
      .subscribe ("SBIN", "NSE") 2 5 {}, .unsubscribe ("SBIN", "NSE") 2
        { subscribe := .error false, rollback := .error false }]).any _ = true by decide +kernel)
  have htop := highest_eq_some_iff.mp hhigh
  refine ⟨p, hrun, htop, hfeed, fun hagree => ?_⟩
  have hmode := hagree.tracked _ _ _ htop
  rw [hfeed] at hmode
  cases hmode

end AlgoTrade.ConnectionPool
