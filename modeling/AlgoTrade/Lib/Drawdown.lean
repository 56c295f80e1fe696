import Mathlib.Algebra.Order.Field.Basic
import Mathlib.Data.List.Induction
import Mathlib.Tactic.Linarith

/-! # Drawdowns

One pass over a series of values keeps the highest value so far and the deepest fall from
one, with the times of both.

* `Scan.add`: one value more; a peak that is not positive is replaced by any value.
* `Found`: what the pass has found, in terms of the values alone.
* `found_scan`: the fall found is the deepest from any earlier value to any later one that is
  not negative, and is the fall between the two points named. -/

namespace Drawdown

variable {K T : Type*} [Field K] [LinearOrder K]

/-- The fall from `peak` to `value`, in percent. -/
def fall (peak value : K) : K := (value / peak - 1) * 100

structure Scan (K T : Type*) where
  peak : K
  peakTime : T
  worst : K
  worstPeak : K
  worstTrough : K
  worstPeakTime : Option T := none
  worstTroughTime : Option T := none
  deriving DecidableEq, Repr

def Scan.start (initial : K) (time : T) : Scan K T :=
  ⟨initial, time, 0, initial, initial, none, none⟩

/-- The peak and its time, the new value counted. -/
def Scan.rise (s : Scan K T) (p : T × K) : T × K :=
  if s.peak ≤ 0 ∨ s.peak < p.2 then p else (s.peakTime, s.peak)

/-- How far the new value is below the peak. -/
def Scan.drawdown (s : Scan K T) (p : T × K) : K :=
  if 0 < (s.rise p).2 then fall (s.rise p).2 p.2 else 0

def Scan.add (s : Scan K T) (p : T × K) : Scan K T :=
  let top := s.rise p
  if s.drawdown p < s.worst then
    ⟨top.2, top.1, s.drawdown p, top.2, p.2, some top.1, some p.1⟩
  else { s with peak := top.2, peakTime := top.1 }

/-- The fall at each value in turn. -/
def drawdowns : Scan K T → List (T × K) → List K
  | _, [] => []
  | s, p :: ps => s.drawdown p :: drawdowns (s.add p) ps

/-- What is found in the values after the first one, `start`. -/
structure Found (start : T × K) (points : List (T × K)) (s : Scan K T) : Prop where
  peak : (s.peakTime, s.peak) ∈ start :: points
  highest : ∀ p ∈ start :: points, 0 < p.2 → p.2 ≤ s.peak
  worst : s.worst ≤ 0
  /-- No value falls further below an earlier one. -/
  deepest : ∀ before q after, points = before ++ q :: after → 0 ≤ q.2 →
    ∀ p ∈ start :: before, 0 < p.2 → s.worst ≤ fall p.2 q.2
  /-- Nothing has fallen, or the fall is between the points named. -/
  named : s.worst = 0 ∧ s.worstPeak = start.2 ∧ s.worstTrough = start.2 ∧
      s.worstPeakTime = none ∧ s.worstTroughTime = none ∨
    ∃ before q after p, points = before ++ q :: after ∧ p ∈ start :: before ∧ 0 < p.2 ∧
      q.2 < p.2 ∧ s.worst = fall p.2 q.2 ∧ s.worstPeak = p.2 ∧ s.worstTrough = q.2 ∧
      s.worstPeakTime = some p.1 ∧ s.worstTroughTime = some q.1

section
variable {s : Scan K T} {start p : T × K} {points : List (T × K)}

theorem found_start (start : T × K) : Found start [] (Scan.start start.2 start.1) where
  peak := List.mem_singleton.mpr rfl
  highest p hp _ := by rw [List.mem_singleton.mp hp]; exact le_rfl
  worst := le_rfl
  deepest before q after h := by
    exact absurd h.symm (List.append_ne_nil_of_right_ne_nil before (List.cons_ne_nil q after))
  named := .inl ⟨rfl, rfl, rfl, rfl, rfl⟩

/-- The peak after one value more. -/
theorem Found.rise (h : Found start points s) (p : T × K) :
    (s.rise p ∈ start :: (points ++ [p])) ∧
      ∀ q ∈ start :: (points ++ [p]), 0 < q.2 → q.2 ≤ (s.rise p).2 := by
  rw [← List.cons_append]
  unfold Scan.rise
  split
  next hnew =>
    refine ⟨List.mem_append_right _ (List.mem_singleton.mpr rfl), fun q hq hpos => ?_⟩
    rcases List.mem_append.mp hq with hq | hq
    · have hle := h.highest q hq hpos
      rcases hnew with hnonpos | hlt
      · exact absurd hpos (hle.trans hnonpos).not_gt
      · exact hle.trans hlt.le
    · rw [List.mem_singleton.mp hq]
  next hold =>
    rw [not_or, not_le, not_lt] at hold
    refine ⟨List.mem_append_left _ h.peak, fun q hq hpos => ?_⟩
    rcases List.mem_append.mp hq with hq | hq
    · exact h.highest q hq hpos
    · rw [List.mem_singleton.mp hq]
      exact hold.2

theorem Scan.add_peak (s : Scan K T) (p : T × K) :
    ((s.add p).peakTime, (s.add p).peak) = s.rise p := by
  unfold Scan.add
  dsimp only
  split <;> rfl

theorem Scan.add_worst (s : Scan K T) (p : T × K) :
    (s.add p).worst = min (s.drawdown p) s.worst := by
  unfold Scan.add
  dsimp only
  split
  next h => exact (min_eq_left h.le).symm
  next h => exact (min_eq_right (not_lt.mp h)).symm

theorem split_concat {α : Type*} {points before after : List α} {p q : α}
    (h : points ++ [p] = before ++ q :: after) :
    (before = points ∧ q = p ∧ after = []) ∨
      ∃ after', after = after' ++ [p] ∧ points = before ++ q :: after' := by
  rcases List.eq_nil_or_concat after with rfl | ⟨after', last, rfl⟩
  · obtain ⟨hbefore, hq⟩ := List.append_inj' h rfl
    exact .inl ⟨hbefore.symm, (List.cons.inj hq).1.symm, rfl⟩
  · rw [List.concat_eq_append, ← List.cons_append, ← List.append_assoc] at h
    obtain ⟨hpoints, hlast⟩ := List.append_inj' h rfl
    exact .inr ⟨after', by rw [List.concat_eq_append, (List.cons.inj hlast).1], hpoints⟩

variable [IsStrictOrderedRing K]

theorem fall_mono {x y v : K} (hx : 0 < x) (hxy : x ≤ y) (hv : 0 ≤ v) : fall y v ≤ fall x v := by
  unfold fall
  have hdiv : v / y ≤ v / x := div_le_div_of_nonneg_left hv hx hxy
  linarith

theorem fall_neg_iff {x v : K} (hx : 0 < x) : fall x v < 0 ↔ v < x := by
  unfold fall
  constructor
  · intro h
    by_contra hle
    have hdiv : 1 ≤ v / x := (one_le_div hx).mpr (not_lt.mp hle)
    linarith
  · intro h
    have hdiv : v / x < 1 := (div_lt_one hx).mpr h
    linarith

theorem neg_hundred_le_fall {x v : K} (hx : 0 < x) (hv : 0 ≤ v) : -100 ≤ fall x v := by
  unfold fall
  have hdiv : 0 ≤ v / x := div_nonneg hv hx.le
  linarith

/-- A fall that counts is from a peak that was there before. -/
theorem rise_of_drawdown_neg (h : s.drawdown p < 0) :
    s.rise p = (s.peakTime, s.peak) ∧ 0 < s.peak ∧ p.2 < s.peak ∧
      s.drawdown p = fall s.peak p.2 := by
  unfold Scan.drawdown at h ⊢
  split at h
  next hpos =>
    have hlt := (fall_neg_iff hpos).mp h
    unfold Scan.rise at hpos hlt ⊢
    split at hlt
    next => exact absurd hlt (lt_irrefl _)
    next hold =>
      rw [if_neg hold] at hpos ⊢
      exact ⟨rfl, hpos, hlt, if_pos hpos⟩
  next => exact absurd h (lt_irrefl _)

theorem Found.deepest_add (h : Found start points s) (p : T × K) :
    ∀ before q after, points ++ [p] = before ++ q :: after → 0 ≤ q.2 →
      ∀ x ∈ start :: before, 0 < x.2 → (s.add p).worst ≤ fall x.2 q.2 := by
  intro before q after hsplit hq x hx hpos
  rw [Scan.add_worst]
  rcases split_concat hsplit with ⟨rfl, rfl, -⟩ | ⟨after', -, hpoints⟩
  · obtain ⟨-, hhighest⟩ := h.rise q
    have hle := hhighest x (by
      rw [← List.cons_append]
      exact List.mem_append_left _ hx) hpos
    refine (min_le_left ..).trans ?_
    unfold Scan.drawdown
    rw [if_pos (hpos.trans_le hle)]
    exact fall_mono hpos hle hq
  · exact (min_le_right ..).trans (h.deepest before q after' hpoints hq x hx hpos)

/-- **One value more.** -/
theorem Found.add (h : Found start points s) (p : T × K) :
    Found start (points ++ [p]) (s.add p) where
  peak := by
    rw [Scan.add_peak]
    exact (h.rise p).1
  highest q hq hpos := by
    have := congrArg Prod.snd (s.add_peak p)
    exact ((h.rise p).2 q hq hpos).trans_eq this.symm
  worst := by
    rw [Scan.add_worst]
    exact (min_le_right ..).trans h.worst
  deepest := h.deepest_add p
  named := by
    unfold Scan.add
    dsimp only
    split
    next hworse =>
      obtain ⟨hrise, hpos, hlt, hfall⟩ := rise_of_drawdown_neg (hworse.trans_le h.worst)
      rw [hrise]
      exact .inr ⟨points, p, [], _, rfl, h.peak, hpos, hlt, hfall, rfl, rfl, rfl, rfl⟩
    next =>
      rcases h.named with hnone | ⟨before, q, after, x, rfl, hx, hnamed⟩
      · exact .inl hnone
      · exact .inr ⟨before, q, after ++ [p], x, by simp, hx, hnamed⟩

/-- **The pass over all values.** -/
theorem found_scan (start : T × K) (points : List (T × K)) :
    Found start points (points.foldl Scan.add (.start start.2 start.1)) := by
  induction points using List.reverseRecOn with
  | nil => exact found_start start
  | append_singleton points p ih =>
    rw [List.foldl_append]
    exact ih.add p

/-- The falls in turn are never rises, nor worse than the worst, nor of more than everything. -/
theorem mem_drawdowns {d : K} (hd : d ∈ drawdowns s points) :
    d ≤ 0 ∧ (points.foldl Scan.add s).worst ≤ d ∧ ((∀ q ∈ points, 0 ≤ q.2) → -100 ≤ d) := by
  induction points generalizing s with
  | nil => exact absurd hd List.not_mem_nil
  | cons p points ih =>
    rcases List.mem_cons.mp hd with rfl | hd
    · refine ⟨?_, ?_, fun hnonneg => ?_⟩
      · by_contra hpos
        rw [not_le] at hpos
        unfold Scan.drawdown at hpos
        split at hpos
        next htop =>
          have hle : p.2 ≤ (s.rise p).2 := by
            unfold Scan.rise
            split
            next => exact le_rfl
            next hold => exact not_lt.mp fun hlt => hold (.inr hlt)
          have hdiv : p.2 / (s.rise p).2 ≤ 1 := (div_le_one htop).mpr hle
          unfold fall at hpos
          linarith
        next => exact lt_irrefl _ hpos
      · have hworst : ∀ (ps : List (T × K)) (t : Scan K T),
            (ps.foldl Scan.add t).worst ≤ t.worst := by
          intro ps
          induction ps with
          | nil => exact fun _ => le_rfl
          | cons q ps ih => exact fun t => (ih (t.add q)).trans (t.add_worst q ▸ min_le_right ..)
        exact (hworst points (s.add p)).trans (s.add_worst p ▸ min_le_left ..)
      · unfold Scan.drawdown
        split
        next htop => exact neg_hundred_le_fall htop (hnonneg p List.mem_cons_self)
        next => linarith
    · obtain ⟨hnonpos, hworst, hall⟩ := ih hd
      exact ⟨hnonpos, hworst, fun h => hall fun q hq => h q (List.mem_cons_of_mem _ hq)⟩

end

end Drawdown
