import Mathlib.Algebra.BigOperators.Group.List.Lemmas
import Mathlib.Algebra.Order.BigOperators.Group.List
import Mathlib.Analysis.Convex.Basic
import Mathlib.Data.List.DropRight
import Mathlib.Tactic.FieldSimp
import Mathlib.Tactic.Linarith
import Mathlib.Tactic.Positivity

/-! # Series of numbers

Rows of numbers in the order of time, and what an indicator makes of them: averages of a
window, averages that move on with each number, sums, extremes and differences.

* `mean_mem`, `ema_mem`, `wilder_mem`: an average is between the numbers it is of.
* `abs_ema_le`: an average of numbers is within the average of their sizes.
* `abs_change_le`: what a series gains in all is within its path. -/

namespace Series

variable {α K : Type*}

/-! ## Numerals -/

-- a numeral of a field then needs no proof of its own
scoped instance atLeastTwo_two : Nat.AtLeastTwo 2 := ⟨by decide⟩

scoped instance atLeastTwo_three : Nat.AtLeastTwo 3 := ⟨by decide⟩

scoped instance atLeastTwo_four : Nat.AtLeastTwo 4 := ⟨by decide⟩

scoped instance atLeastTwo_seven : Nat.AtLeastTwo 7 := ⟨by decide⟩

scoped instance atLeastTwo_ten : Nat.AtLeastTwo 10 := ⟨by decide⟩

scoped instance atLeastTwo_fifty : Nat.AtLeastTwo 50 := ⟨by decide⟩

scoped instance atLeastTwo_hundred : Nat.AtLeastTwo 100 := ⟨by decide⟩

/-! ## Windows -/

/-- The windows of a length, oldest first. -/
def rolling (n : ℕ) (l : List α) : List (List α) :=
  (List.range (l.length + 1 - n)).map fun i => (l.drop i).take n

@[simp] theorem length_rolling (n : ℕ) (l : List α) :
    (rolling n l).length = l.length + 1 - n := by
  rw [rolling, List.length_map, List.length_range]

theorem length_of_mem_rolling {n : ℕ} {l w : List α} (hw : w ∈ rolling n l) : w.length = n := by
  obtain ⟨i, hi, rfl⟩ := List.mem_map.mp hw
  have hi := List.mem_range.mp hi
  rw [List.length_take, List.length_drop]
  omega

theorem subset_of_mem_rolling {n : ℕ} {l w : List α} (hw : w ∈ rolling n l) : w ⊆ l := by
  obtain ⟨i, -, rfl⟩ := List.mem_map.mp hw
  exact fun x hx => List.mem_of_mem_drop (List.mem_of_mem_take hx)

@[simp] theorem length_rtake (n : ℕ) (l : List α) : (l.rtake n).length = min n l.length := by
  rw [List.rtake, List.length_drop]
  omega

theorem rtake_ne_nil {n : ℕ} {l : List α} (hn : n ≠ 0) (hl : l ≠ []) : l.rtake n ≠ [] := by
  have := List.length_pos_of_ne_nil hl
  rw [← List.length_pos_iff, length_rtake]
  omega

theorem take_ne_nil {n : ℕ} {l : List α} (hn : n ≠ 0) (hl : l ≠ []) : l.take n ≠ [] := by
  have := List.length_pos_of_ne_nil hl
  rw [← List.length_pos_iff, List.length_take]
  omega

theorem mem_of_mem_rtake {n : ℕ} {l : List α} {x : α} (hx : x ∈ l.rtake n) : x ∈ l :=
  List.mem_of_mem_drop hx

theorem rtake_map {β : Type*} (f : α → β) (n : ℕ) (l : List α) :
    (l.map f).rtake n = (l.rtake n).map f := by
  rw [List.rtake, List.rtake, List.length_map, List.map_drop]

theorem forall_mem_zipWith {β γ : Type*} {f : α → β → γ} {l : List α} {m : List β} {Q : γ → Prop}
    (h : ∀ a ∈ l, ∀ b ∈ m, Q (f a b)) : ∀ x ∈ l.zipWith f m, Q x := by
  intro x hx
  rw [← List.map_uncurry_zip_eq_zipWith] at hx
  obtain ⟨⟨a, b⟩, hab, rfl⟩ := List.mem_map.mp hx
  exact h a (List.of_mem_zip hab).1 b (List.of_mem_zip hab).2

/-- Members that are paired keep what relates the pairs. -/
theorem mem_zipWith_of_forall₂ {β γ : Type*} {f : α → β → γ} {R : α → β → Prop} {l : List α}
    {m : List β} (h : List.Forall₂ R l m) {x : γ} (hx : x ∈ l.zipWith f m) :
    ∃ a b, a ∈ l ∧ R a b ∧ f a b = x := by
  induction h with
  | nil => cases hx
  | @cons a b l m hab _ ih =>
    rcases List.mem_cons.mp hx with rfl | hx
    · exact ⟨a, b, List.mem_cons_self, hab, rfl⟩
    · obtain ⟨a', b', ha, hr, heq⟩ := ih hx
      exact ⟨a', b', List.mem_cons_of_mem a ha, hr, heq⟩

/-! ## Folds -/

/-- A fold stays in what its steps keep. -/
theorem foldl_mem {β : Type*} {S : Set β} {f : β → α → β} {l : List α} {b : β}
    (hf : ∀ b ∈ S, ∀ a ∈ l, f b a ∈ S) (hb : b ∈ S) : l.foldl f b ∈ S := by
  induction l generalizing b with
  | nil => exact hb
  | cons a l ih =>
    exact ih (fun b hb a ha => hf b hb a (List.mem_cons_of_mem _ ha))
      (hf b hb a List.mem_cons_self)

theorem scanl_mem {β : Type*} {S : Set β} {f : β → α → β} {l : List α} {b : β}
    (hf : ∀ b ∈ S, ∀ a ∈ l, f b a ∈ S) (hb : b ∈ S) : ∀ x ∈ l.scanl f b, x ∈ S := by
  induction l generalizing b with
  | nil => simpa using hb
  | cons a l ih =>
    rw [List.scanl_cons]
    intro x hx
    rcases List.mem_cons.mp hx with rfl | hx
    · exact hb
    · exact ih (fun b hb a ha => hf b hb a (List.mem_cons_of_mem _ ha))
        (hf b hb a List.mem_cons_self) x hx

theorem getLastD_mem {S : Set α} {l : List α} {d : α} (hl : ∀ x ∈ l, x ∈ S) (hd : d ∈ S) :
    l.getLastD d ∈ S := by
  rcases List.eq_nil_or_concat' l with rfl | ⟨l, x, rfl⟩
  · exact hd
  · rw [List.getLastD_concat]
    exact hl x (List.mem_append_right l List.mem_cons_self)

theorem headD_mem {S : Set α} {l : List α} {d : α} (hl : ∀ x ∈ l, x ∈ S) (hd : d ∈ S) :
    l.headD d ∈ S := by
  cases l with
  | nil => exact hd
  | cons x l => exact hl x List.mem_cons_self

/-- Two folds keep to each other at every place. -/
theorem forall₂_scanl {R : α → α → Prop} {f : α → α → α}
    (hf : ∀ r r' x x', R r r' → R x x' → R (f r x) (f r' x')) {l m : List α}
    (h : List.Forall₂ R l m) {r r' : α} (hr : R r r') :
    List.Forall₂ R (l.scanl f r) (m.scanl f r') := by
  induction h generalizing r r' with
  | nil => simpa using hr
  | cons hxy _ ih =>
    rw [List.scanl_cons, List.scanl_cons]
    exact .cons hr (ih (hf _ _ _ _ hr hxy))

section Order
variable [LinearOrder K] [Zero K] {l : List K} {x : K}

/-- The largest number; 0 where there is none. -/
def highest (l : List K) : K := l.max?.getD 0

/-- The smallest number. -/
def lowest (l : List K) : K := l.min?.getD 0

theorem le_highest (hx : x ∈ l) : x ≤ highest l := by
  obtain ⟨m, hm⟩ := Option.isSome_iff_exists.mp (List.isSome_max?_of_mem hx)
  rw [highest, hm]
  exact (List.max?_eq_some_iff.mp hm).2 x hx

theorem lowest_le (hx : x ∈ l) : lowest l ≤ x := by
  obtain ⟨m, hm⟩ := Option.isSome_iff_exists.mp (List.isSome_min?_of_mem hx)
  rw [lowest, hm]
  exact (List.min?_eq_some_iff.mp hm).2 x hx

theorem highest_mem (hl : l ≠ []) : highest l ∈ l := by
  obtain ⟨m, hm⟩ := Option.isSome_iff_exists.mp (List.isSome_max?_of_ne_nil hl)
  rw [highest, hm]
  exact (List.max?_eq_some_iff.mp hm).1

theorem lowest_mem (hl : l ≠ []) : lowest l ∈ l := by
  obtain ⟨m, hm⟩ := Option.isSome_iff_exists.mp (List.isSome_min?_of_ne_nil hl)
  rw [lowest, hm]
  exact (List.min?_eq_some_iff.mp hm).1

/-- What each number is followed up by so far: the largest one. -/
def cummax : List K → List K
  | [] => []
  | x :: l => l.scanl max x

omit [Zero K] in
@[simp] theorem length_cummax (l : List K) : (cummax l).length = l.length := by
  cases l with
  | nil => rfl
  | cons x l => rw [cummax, List.length_scanl, List.length_cons]

omit [Zero K] in
theorem forall₂_cummax (l : List K) : List.Forall₂ (· ≤ ·) l (cummax l) := by
  have hscan : ∀ (l : List K) (x a : K), x ≤ a → List.Forall₂ (· ≤ ·) (x :: l) (l.scanl max a) := by
    intro l
    induction l with
    | nil => exact fun x a hx => by simpa using hx
    | cons y l ih =>
      intro x a hx
      rw [List.scanl_cons]
      exact .cons hx (ih y _ (le_max_right a y))
  cases l with
  | nil => exact .nil
  | cons x l => exact hscan l x x le_rfl

end Order

section Field
variable [Field K]

/-! ## Averages -/

def mean (l : List K) : K := l.sum / l.length

/-- The mean where every number is there. -/
def meanAll (l : List (Option K)) : Option K :=
  if l.any Option.isNone then none else some (mean (l.filterMap id))

theorem meanAll_eq_some {l : List (Option K)} {m : K} :
    meanAll l = some m ↔ (∀ x ∈ l, x.isSome) ∧ mean (l.filterMap id) = m := by
  have hall : (¬l.any Option.isNone = true) ↔ ∀ x ∈ l, x.isSome := by
    simp only [List.any_eq_true, Option.isNone_iff_eq_none, Option.isSome_iff_ne_none, not_exists,
      not_and, ne_eq]
  unfold meanAll
  split
  next h => simp [← hall, h]
  next h => simp [← hall, h]

theorem meanAll_isSome {l : List (Option K)} (h : ∀ x ∈ l, x.isSome) : (meanAll l).isSome :=
  Option.isSome_iff_exists.mpr ⟨_, meanAll_eq_some.mpr ⟨h, rfl⟩⟩

/-- The differences of the numbers to the ones before them. -/
def diffs (l : List K) : List K := l.tail.zipWith (· - ·) l

/-- The sums so far. -/
def cumsum (l : List K) : List K := (l.scanl (· + ·) 0).tail

/-- One step of an average that moves a part of the way to each number. -/
def towards (t r x : K) : K := r + t * (x - r)

/-- The exponential average: the mean of the first `n` numbers, and what each later one makes
of it. -/
def ema (n : ℕ) (l : List K) : List K :=
  (l.drop n).scanl (fun e x => (x - e) * (2 / (n + 1)) + e) (mean (l.take n))

/-- Wilder's average with one more number. -/
def wilderStep (n : ℕ) (r x : K) : K := (r * (n - 1) + x) / n

/-- Wilder's average after the last number. -/
def wilder (n : ℕ) (l : List K) : K := (l.drop n).foldl (wilderStep n) (mean (l.take n))

@[simp] theorem length_diffs (l : List K) : (diffs l).length = l.length - 1 := by
  rw [diffs, List.length_zipWith, List.length_tail]
  omega

@[simp] theorem length_cumsum (l : List K) : (cumsum l).length = l.length := by
  rw [cumsum, List.length_tail, List.length_scanl, Nat.add_sub_cancel]

@[simp] theorem length_ema (n : ℕ) (l : List K) : (ema n l).length = l.length - n + 1 := by
  rw [ema, List.length_scanl, List.length_drop]

theorem ema_ne_nil (n : ℕ) (l : List K) : ema n l ≠ [] := List.scanl_ne_nil

theorem wilderStep_eq {n : ℕ} (hn : (n : K) ≠ 0) (r x : K) :
    wilderStep n r x = towards (1 / n : K) r x := by
  rw [wilderStep, towards]
  field_simp
  ring

theorem ema_step (n : ℕ) (r x : K) :
    (x - r) * (2 / (n + 1)) + r = towards (2 / (n + 1) : K) r x := by
  rw [towards]
  ring

variable [LinearOrder K] [IsStrictOrderedRing K] {S : Set K} [hS : S.OrdConnected] {l : List K}
  {n : ℕ}

theorem mean_mem (hl : l ≠ []) (hmem : ∀ x ∈ l, x ∈ S) : mean l ∈ S := by
  have hlen : (0 : K) < l.length := Nat.cast_pos.mpr (List.length_pos_of_ne_nil hl)
  refine hS.out (hmem _ (lowest_mem hl)) (hmem _ (highest_mem hl)) ⟨?_, ?_⟩
  · rw [mean, le_div_iff₀ hlen, mul_comm, ← nsmul_eq_mul]
    exact List.card_nsmul_le_sum l _ fun x hx => lowest_le hx
  · rw [mean, div_le_iff₀ hlen, mul_comm, ← nsmul_eq_mul]
    exact List.sum_le_card_nsmul l _ fun x hx => le_highest hx

/-- A mean by weight is. -/
theorem weightedMean_mem {l : List α} {f w : α → K} {lo hi : K} (hw : ∀ a ∈ l, 0 ≤ w a)
    (hpos : 0 < (l.map w).sum) (hf : ∀ a ∈ l, f a ∈ Set.Icc lo hi) :
    (l.map fun a => f a * w a).sum / (l.map w).sum ∈ Set.Icc lo hi := by
  rw [Set.mem_Icc, le_div_iff₀ hpos, div_le_iff₀ hpos, ← List.sum_map_mul_left,
    ← List.sum_map_mul_left]
  exact ⟨List.sum_le_sum fun a ha => mul_le_mul_of_nonneg_right (hf a ha).1 (hw a ha),
    List.sum_le_sum fun a ha => mul_le_mul_of_nonneg_right (hf a ha).2 (hw a ha)⟩

theorem meanAll_mem {l : List (Option K)} {m : K} (hl : l ≠ []) (hm : meanAll l = some m)
    (hmem : ∀ x, some x ∈ l → x ∈ S) : m ∈ S := by
  obtain ⟨hall, rfl⟩ := meanAll_eq_some.mp hm
  obtain ⟨y, hy⟩ := List.exists_mem_of_ne_nil l hl
  obtain ⟨x, rfl⟩ := Option.isSome_iff_exists.mp (hall y hy)
  exact mean_mem (List.ne_nil_of_mem (List.mem_filterMap.mpr ⟨_, hy, rfl⟩)) fun z hz => by
    obtain ⟨w, hw, hwz⟩ := List.mem_filterMap.mp hz
    exact hmem z (hwz ▸ hw)

theorem towards_mem {t r x : K} (hr : r ∈ S) (hx : x ∈ S) (ht : t ∈ Set.Icc (0 : K) 1) :
    towards t r x ∈ S := by
  rcases le_total r x with hle | hle
  · refine hS.out hr hx ⟨?_, ?_⟩
    · rw [towards]
      nlinarith [mul_nonneg ht.1 (sub_nonneg.mpr hle)]
    · rw [towards]
      nlinarith [mul_nonneg (sub_nonneg.mpr ht.2) (sub_nonneg.mpr hle)]
  · refine hS.out hx hr ⟨?_, ?_⟩
    · rw [towards]
      nlinarith [mul_nonneg (sub_nonneg.mpr ht.2) (sub_nonneg.mpr hle)]
    · rw [towards]
      nlinarith [mul_nonneg ht.1 (sub_nonneg.mpr hle)]

/-- How far an exponential average moves. -/
theorem ema_part_mem (hn : n ≠ 0) : (2 / (n + 1) : K) ∈ Set.Icc (0 : K) 1 := by
  have hpos : (0 : K) ≤ n := Nat.cast_nonneg n
  have hone : (1 : K) ≤ n := Nat.one_le_cast.mpr (Nat.one_le_iff_ne_zero.mpr hn)
  exact ⟨by positivity, (div_le_one (by positivity)).mpr (by linarith)⟩

/-- **Exponential averages** are between the numbers they are of. -/
theorem ema_mem (hn : n ≠ 0) (hl : l ≠ []) (hmem : ∀ x ∈ l, x ∈ S) : ∀ e ∈ ema n l, e ∈ S := by
  refine scanl_mem (fun r hr x hx => ?_)
    (mean_mem (take_ne_nil hn hl) fun x hx => hmem x (List.mem_of_mem_take hx))
  rw [ema_step]
  exact towards_mem hr (hmem x (List.mem_of_mem_drop hx)) (ema_part_mem hn)

theorem wilderStep_mem (hn : n ≠ 0) {r x : K} (hr : r ∈ S) (hx : x ∈ S) :
    wilderStep n r x ∈ S := by
  have hpos : (0 : K) < n := Nat.cast_pos.mpr (Nat.pos_of_ne_zero hn)
  rw [wilderStep_eq hpos.ne']
  refine towards_mem hr hx ⟨by positivity, ?_⟩
  rw [div_le_one hpos]
  exact Nat.one_le_cast.mpr (Nat.one_le_iff_ne_zero.mpr hn)

/-- **Wilder's average** is. -/
theorem wilder_mem (hn : n ≠ 0) (hl : l ≠ []) (hmem : ∀ x ∈ l, x ∈ S) : wilder n l ∈ S :=
  foldl_mem (fun _ hr x hx => wilderStep_mem hn hr (hmem x (List.mem_of_mem_drop hx)))
    (mean_mem (take_ne_nil hn hl) fun x hx => hmem x (List.mem_of_mem_take hx))

/-! ## Sizes -/

/-- Numbers within bounds, place by place. -/
theorem abs_sum_le {l m : List K} (h : List.Forall₂ (fun x y => |x| ≤ y) l m) :
    |l.sum| ≤ m.sum := by
  induction h with
  | nil => simp
  | cons hxy _ ih =>
    rw [List.sum_cons, List.sum_cons]
    exact (abs_add_le _ _).trans (add_le_add hxy ih)

theorem abs_mean_le {l m : List K} (h : List.Forall₂ (fun x y => |x| ≤ y) l m) :
    |mean l| ≤ mean m := by
  rw [mean, mean, h.length_eq, abs_div, Nat.abs_cast]
  exact div_le_div_of_nonneg_right (abs_sum_le h) (Nat.cast_nonneg _)

theorem abs_towards_le {t r x r' x' : K} (ht : t ∈ Set.Icc (0 : K) 1) (hr : |r| ≤ r')
    (hx : |x| ≤ x') : |towards t r x| ≤ towards t r' x' := by
  have h1 : |(1 - t) * r| ≤ (1 - t) * r' := by
    rw [abs_mul, abs_of_nonneg (sub_nonneg.mpr ht.2)]
    exact mul_le_mul_of_nonneg_left hr (sub_nonneg.mpr ht.2)
  have h2 : |t * x| ≤ t * x' := by
    rw [abs_mul, abs_of_nonneg ht.1]
    exact mul_le_mul_of_nonneg_left hx ht.1
  calc |towards t r x| = |(1 - t) * r + t * x| := by rw [towards]; ring_nf
    _ ≤ |(1 - t) * r| + |t * x| := abs_add_le _ _
    _ ≤ (1 - t) * r' + t * x' := add_le_add h1 h2
    _ = towards t r' x' := by rw [towards]; ring

/-- **An average of numbers** is within that of their bounds, at every place. -/
theorem abs_ema_le (hn : n ≠ 0) {l m : List K} (h : List.Forall₂ (fun x y => |x| ≤ y) l m) :
    List.Forall₂ (fun x y => |x| ≤ y) (ema n l) (ema n m) := by
  have hstep : ∀ r r' x x' : K, |r| ≤ r' → |x| ≤ x' →
      |(x - r) * (2 / (n + 1)) + r| ≤ (x' - r') * (2 / (n + 1)) + r' := fun r r' x x' hr hx => by
    rw [ema_step, ema_step]
    exact abs_towards_le (ema_part_mem hn) hr hx
  exact forall₂_scanl hstep (List.forall₂_drop n h) (abs_mean_le (List.forall₂_take n h))

/-! ## Paths -/

/-- **The way** from the first number to the last one is within the path. -/
theorem abs_change_le (x : K) (l : List K) :
    |l.getLastD x - x| ≤ ((diffs (x :: l)).map abs).sum := by
  induction l generalizing x with
  | nil => simp [diffs]
  | cons y l ih =>
    have hdiffs : diffs (x :: y :: l) = (y - x) :: diffs (y :: l) := rfl
    rw [hdiffs, List.map_cons, List.sum_cons, List.getLastD_cons]
    calc |l.getLastD y - x| = |(y - x) + (l.getLastD y - y)| := by ring_nf
      _ ≤ |y - x| + |l.getLastD y - y| := abs_add_le _ _
      _ ≤ |y - x| + ((diffs (y :: l)).map abs).sum := by gcongr; exact ih y

end Field

end Series
