import Mathlib.Algebra.Order.Group.Basic
import Mathlib.Algebra.Order.Sub.Basic
import Mathlib.Data.Finset.Card
import Mathlib.Data.Fintype.Card

/-! # Sliding windows

A limiter logs the times of what it lets through and lets the next one through while the log
of the last `window` is shorter than the limit.  A thread reads the clock first and meets the
limiter later, so that the readings need not come in order.

* `Step`: a thread reads the clock, and is let through or refused.
* `Kept`: for each window, either nothing of it has left the log, or all who are yet to come
  read the clock before its end and count already.
* `Kept.step`: each step keeps it.
* `Kept.bounded`: what a window lets through. -/

namespace SlidingWindow

variable {κ τ ι : Type*} [LinearOrder τ]

/-- What is let through, and under which key; several keys may share one log. -/
structure Grant (κ τ : Type*) where
  key : κ
  time : τ
  deriving DecidableEq

structure State (κ τ ι : Type*) where
  clock : τ
  log : List τ
  granted : List (Grant κ τ)
  /-- What the threads on their way to the limiter have read. -/
  readings : ι → Option τ

def State.start (κ ι : Type*) {τ : Type*} (t : τ) : State κ τ ι := ⟨t, [], [], fun _ => none⟩

section
variable [AddCommGroup τ]

/-- The log as the limiter finds it. -/
def recent (window : τ) (log : List τ) (now : τ) : List τ := log.filter (now - window ≤ ·)

inductive Step [DecidableEq ι] (window : τ) (limit : κ → ℕ) : State κ τ ι → State κ τ ι → Prop
  | read (s : State κ τ ι) (i : ι) (now : τ) (hnow : s.clock ≤ now) (hfree : s.readings i = none) :
      Step window limit s
        { s with clock := now, readings := Function.update s.readings i (some now) }
  | meet (s : State κ τ ι) (i : ι) (now t : τ) (outcome : Option κ) (ht : s.clock ≤ t)
      (hreading : s.readings i = some now)
      (hroom : ∀ key ∈ outcome, (recent window s.log now).length < limit key) :
      Step window limit s ⟨t, recent window s.log now ++ outcome.toList.map fun _ => now,
        s.granted ++ outcome.toList.map (⟨·, now⟩), Function.update s.readings i none⟩
  | wait (s : State κ τ ι) (t : τ) (ht : s.clock ≤ t) : Step window limit s { s with clock := t }

/-! ## What is kept -/

/-- What the window from `x` on has let through under the key. -/
def count [DecidableEq κ] (window : τ) (granted : List (Grant κ τ)) (key : κ) (x : τ) : ℕ :=
  granted.countP fun g =>
    decide (g.key = key) && (decide (x ≤ g.time) && decide (g.time ≤ x + window))

/-- Nothing since `x` has left the log. -/
def Whole (s : State κ τ ι) (x : τ) : Prop :=
  ∀ y, x ≤ y → s.log.countP (y ≤ ·) = s.granted.countP fun g => y ≤ g.time

/-- The threads with a reading in the window from `x` on, or before it. -/
def late [Fintype ι] (window : τ) (readings : ι → Option τ) (x : τ) : Finset ι :=
  Finset.univ.filter fun i => ∃ now, readings i = some now ∧ now ≤ x + window

structure Kept [DecidableEq κ] [Fintype ι] (window : τ) (limit : κ → ℕ) (s : State κ τ ι) :
    Prop where
  past : ∀ i now, s.readings i = some now → now ≤ s.clock
  windows : ∀ x, Whole s x ∧ (∀ key, count window s.granted key x ≤ limit key) ∨
    x + window < s.clock ∧ ∀ key, count window s.granted key x + (late window s.readings x).card ≤
      limit key + (Fintype.card ι - 1)

section
variable {window : τ} {limit : κ → ℕ} {s s' : State κ τ ι} {x : τ}

/-- What the limiter drops from the log is older than its window. -/
theorem countP_recent {log : List τ} {now y : τ} (hy : now - window ≤ y) :
    (recent window log now).countP (y ≤ ·) = log.countP (y ≤ ·) := by
  unfold recent
  rw [List.countP_filter]
  refine List.countP_congr fun t _ => ?_
  rw [Bool.and_eq_true, decide_eq_true_iff, decide_eq_true_iff]
  exact and_iff_left_of_imp hy.trans

section
variable [IsOrderedAddMonoid τ]

theorem Whole.meet (h : Whole s x) {now t : τ} (hnow : now ≤ x + window) (outcome : Option κ)
    (readings : ι → Option τ) :
    Whole ⟨t, recent window s.log now ++ outcome.toList.map fun _ => now,
      s.granted ++ outcome.toList.map (⟨·, now⟩), readings⟩ x := by
  intro y hy
  show (recent window s.log now ++ _).countP _ = (s.granted ++ _).countP _
  rw [List.countP_append, List.countP_append, countP_recent ((sub_le_iff_le_add.mpr hnow).trans hy),
    h y hy, List.countP_map, List.countP_map]
  rfl

end

variable [DecidableEq κ]

theorem count_append (granted : List (Grant κ τ)) (g : Grant κ τ) (key : κ) (x : τ) :
    count window (granted ++ [g]) key x = count window granted key x +
      if g.key = key ∧ x ≤ g.time ∧ g.time ≤ x + window then 1 else 0 := by
  unfold count
  rw [List.countP_append, List.countP_singleton]
  congr 1
  refine if_congr ?_ rfl rfl
  rw [Bool.and_eq_true, Bool.and_eq_true, decide_eq_true_iff, decide_eq_true_iff,
    decide_eq_true_iff]

/-- While nothing has left the log, the limiter sees all the window has let through. -/
theorem count_le_recent [IsOrderedAddMonoid τ] (hwhole : Whole s x) {now : τ}
    (hnow : now ≤ x + window) (key : κ) :
    count window s.granted key x ≤ (recent window s.log now).length := by
  have hfirst : now - window ≤ x := sub_le_iff_le_add.mpr hnow
  calc count window s.granted key x
      ≤ s.granted.countP fun g => x ≤ g.time := by
        refine List.countP_mono_left fun g _ hg => ?_
        rw [Bool.and_eq_true, Bool.and_eq_true] at hg
        exact hg.2.1
    _ = s.log.countP (x ≤ ·) := (hwhole x le_rfl).symm
    _ = (recent window s.log now).countP (x ≤ ·) := (countP_recent hfirst).symm
    _ ≤ (recent window s.log now).length := List.countP_le_length

variable [Fintype ι]

theorem Kept.start (window : τ) (limit : κ → ℕ) (t : τ) :
    Kept window limit (State.start κ ι t) where
  past i now h := by cases h
  windows x := .inl ⟨fun y _ => rfl, fun key => Nat.zero_le _⟩

theorem mem_late {readings : ι → Option τ} {x : τ} {i : ι} :
    i ∈ late window readings x ↔ ∃ now, readings i = some now ∧ now ≤ x + window := by
  unfold late
  rw [Finset.mem_filter, and_iff_right (Finset.mem_univ i)]

/-- **A window** lets through the limit, and one more for each other thread. -/
theorem Kept.bounded (h : Kept window limit s) (key : κ) (x : τ) :
    count window s.granted key x ≤ limit key + (Fintype.card ι - 1) := by
  rcases h.windows x with ⟨-, hle⟩ | ⟨-, hle⟩
  · exact (hle key).trans (Nat.le_add_right ..)
  · exact (Nat.le_add_right ..).trans (hle key)

variable [DecidableEq ι]

theorem late_update_none (readings : ι → Option τ) (x : τ) (i : ι) :
    late window (Function.update readings i none) x = (late window readings x).erase i := by
  ext j
  rw [Finset.mem_erase, mem_late, mem_late]
  by_cases hj : j = i
  · subst hj
    rw [Function.update_self]
    constructor
    · rintro ⟨now, h, -⟩
      cases h
    · rintro ⟨h, -⟩
      exact absurd rfl h
  · rw [Function.update_of_ne hj]
    exact (and_iff_right hj).symm

theorem late_update_some {readings : ι → Option τ} {x now : τ} {i : ι} (hfree : readings i = none)
    (hnow : x + window < now) :
    late window (Function.update readings i (some now)) x = late window readings x := by
  ext j
  rw [mem_late, mem_late]
  by_cases hj : j = i
  · subst hj
    rw [Function.update_self, hfree]
    constructor
    · rintro ⟨now', h, hle⟩
      obtain rfl := Option.some.inj h
      exact absurd hle (not_le.mpr hnow)
    · rintro ⟨now', h, -⟩
      cases h
  · rw [Function.update_of_ne hj]

variable [IsOrderedAddMonoid τ]

/-- A thread meets the limiter. -/
theorem Kept.meet (h : Kept window limit s) {i : ι} {now t : τ} (outcome : Option κ)
    (ht : s.clock ≤ t) (hreading : s.readings i = some now)
    (hroom : ∀ key ∈ outcome, (recent window s.log now).length < limit key) :
    Kept window limit ⟨t, recent window s.log now ++ outcome.toList.map fun _ => now,
      s.granted ++ outcome.toList.map (⟨·, now⟩), Function.update s.readings i none⟩ where
  past j now' hj := by
    dsimp only at hj ⊢
    by_cases hji : j = i
    · subst hji
      rw [Function.update_self] at hj
      cases hj
    · rw [Function.update_of_ne hji] at hj
      exact (h.past j now' hj).trans ht
  windows x := by
    dsimp only
    rw [late_update_none]
    have hcount : ∀ key, count window (s.granted ++ outcome.toList.map (⟨·, now⟩)) key x =
        count window s.granted key x +
          if outcome = some key ∧ x ≤ now ∧ now ≤ x + window then 1 else 0 := by
      intro key
      cases outcome with
      | none => simp
      | some key' =>
        simp only [Option.some.injEq]
        exact count_append s.granted ⟨key', now⟩ key x
    simp only [hcount]
    rcases h.windows x with ⟨hwhole, hle⟩ | ⟨hover, hle⟩
    · by_cases hnow : now ≤ x + window
      · refine .inl ⟨hwhole.meet hnow outcome _, fun key => ?_⟩
        split
        next hin => exact (count_le_recent hwhole hnow key).trans_lt (hroom key hin.1)
        next => exact hle key
      · -- the first reading beyond the window: all others on their way may still come
        refine .inr ⟨(not_le.mp hnow).trans_le ((h.past i now hreading).trans ht), fun key => ?_⟩
        rw [if_neg fun hin => hnow hin.2.2, Nat.add_zero (count ..)]
        refine Nat.add_le_add (hle key) ((Finset.card_le_card ?_).trans_eq
          (Finset.card_erase_of_mem (Finset.mem_univ i)))
        exact Finset.erase_subset_erase i (Finset.subset_univ _)
    · refine .inr ⟨hover.trans_le ht, fun key => ?_⟩
      have hkey := hle key
      by_cases hnow : now ≤ x + window
      · have hcard := Finset.card_erase_add_one (mem_late.mpr ⟨now, hreading, hnow⟩)
        split
        next => omega
        next => omega
      · rw [if_neg fun hin => hnow hin.2.2, Nat.add_zero (count ..)]
        exact (Nat.add_le_add_left (Finset.card_erase_le ..) _).trans hkey

/-- **Each step** keeps it. -/
theorem Kept.step (h : Kept window limit s) (hs : Step window limit s s') :
    Kept window limit s' := by
  cases hs with
  | read i now hnow hfree =>
    refine ⟨fun j now' hj => ?_, fun x => ?_⟩
    · dsimp only at hj ⊢
      by_cases hji : j = i
      · subst hji
        rw [Function.update_self] at hj
        exact (Option.some.inj hj).ge
      · rw [Function.update_of_ne hji] at hj
        exact (h.past j now' hj).trans hnow
    · dsimp only
      rcases h.windows x with hin | ⟨hover, hle⟩
      · exact .inl hin
      · rw [late_update_some hfree (hover.trans_le hnow)]
        exact .inr ⟨hover.trans_le hnow, hle⟩
  | meet i now t outcome ht hreading hroom => exact h.meet outcome ht hreading hroom
  | wait t ht =>
    refine ⟨fun j now hj => (h.past j now hj).trans ht, fun x => ?_⟩
    exact (h.windows x).imp_right fun hover => ⟨hover.1.trans_le ht, hover.2⟩

end

end

end SlidingWindow
