import Mathlib.Algebra.Order.Group.Basic
import Mathlib.Data.List.Perm.Basic
import Mathlib.Tactic.Abel

/-! # Lockouts

A lockout counts the failures in a window and refuses tries for a while after too many.  A
try is admitted first and fails later, so that others are admitted in between.

* `Step`: a try is admitted, fails, or ends without a failure; the failures are cleared.
* `Kept`: what every failure says of the failures its try had seen.
* `Kept.step`: each step keeps it.
* `Kept.bounded`: how many failures a window holds, with at most `c` tries under way. -/

namespace Lockout

variable {τ : Type*} [LinearOrder τ]

structure Policy (τ : Type*) where
  limit : ℕ
  window : τ
  block : τ

/-- A failure, and how many there were when its try was admitted. -/
structure Failure (τ : Type*) where
  time : τ
  seen : ℕ

/-- The failures, and for each try under way how many there were when it was admitted. -/
structure State (τ : Type*) where
  clock : τ
  failures : List (Failure τ) := []
  underway : List ℕ := []

/-- Failures in order, up to a time and after it. -/
theorem exists_split {failures : List (Failure τ)}
    (hsorted : failures.Pairwise fun f g => f.time ≤ g.time) (t : τ) :
    ∃ before after, failures = before ++ after ∧ (∀ f ∈ before, f.time ≤ t) ∧
      ∀ f ∈ after, t < f.time := by
  induction failures with
  | nil => exact ⟨[], [], rfl, fun _ h => absurd h List.not_mem_nil,
      fun _ h => absurd h List.not_mem_nil⟩
  | cons f failures ih =>
    obtain ⟨hfirst, hsorted⟩ := List.pairwise_cons.mp hsorted
    by_cases hle : f.time ≤ t
    · obtain ⟨before, after, rfl, hbefore, hafter⟩ := ih hsorted
      refine ⟨f :: before, after, rfl, fun g hg => ?_, hafter⟩
      rcases List.mem_cons.mp hg with rfl | hg
      · exact hle
      · exact hbefore g hg
    · refine ⟨[], f :: failures, rfl, fun _ h => absurd h List.not_mem_nil, fun g hg => ?_⟩
      rcases List.mem_cons.mp hg with rfl | hg
      · exact not_le.mp hle
      · exact (not_le.mp hle).trans_le (hfirst g hg)

variable [AddCommGroup τ]

/-- Enough failures in the window before `now`, and one whose block lasts at `later`. -/
def Policy.Blocks (p : Policy τ) (times : List τ) (now later : τ) : Prop :=
  p.limit ≤ times.countP (now - p.window < ·) ∧
    ∃ t ∈ times, now - p.window < t ∧ later < t + p.block

inductive Step (p : Policy τ) (c : ℕ) : State τ → State τ → Prop
  | enter (s : State τ) (now later : τ) (hnow : s.clock ≤ now) (hlater : now ≤ later)
      (hfree : ¬ p.Blocks (s.failures.map Failure.time) now later)
      (hroom : s.underway.length < c) :
      Step p c s { s with clock := later, underway := s.failures.length :: s.underway }
  | fail (s : State τ) (seen : ℕ) (t : τ) (hseen : seen ∈ s.underway) (ht : s.clock ≤ t) :
      Step p c s ⟨t, s.failures ++ [⟨t, seen⟩], s.underway.erase seen⟩
  | leave (s : State τ) (seen : ℕ) (t : τ) (ht : s.clock ≤ t) :
      Step p c s { s with clock := t, underway := s.underway.erase seen }
  | clear (s : State τ) (t : τ) (ht : s.clock ≤ t) :
      Step p c s ⟨t, [], s.underway.map fun _ => 0⟩
  | wait (s : State τ) (t : τ) (ht : s.clock ≤ t) : Step p c s { s with clock := t }

/-! ## What is kept -/

/-- A try that saw the first `seen` failures may fail at `t`. -/
def Free (p : Policy τ) (failures : List (Failure τ)) (seen : ℕ) (t : τ) : Prop :=
  p.limit ≤ (failures.take seen).countP (fun f => t - p.window < f.time) →
    ∀ f ∈ failures.take seen, t - p.window < f.time → f.time + p.block ≤ t

/-- The failures are in order, each from a try that was free to fail; and for every failure
the tries admitted before it, failed or under way, are fewer than `c` besides its own. -/
structure Kept (p : Policy τ) (c : ℕ) (s : State τ) : Prop where
  sorted : s.failures.Pairwise fun f g => f.time ≤ g.time
  past : ∀ f ∈ s.failures, f.time ≤ s.clock
  free : ∀ (i : ℕ) (f : Failure τ), s.failures[i]? = some f →
    f.seen ≤ i ∧ Free p s.failures f.seen f.time
  tries : ∀ seen ∈ s.underway,
    seen ≤ s.failures.length ∧ ∀ t, s.clock ≤ t → Free p s.failures seen t
  room : s.underway.length ≤ c
  crowd : ∀ i < s.failures.length,
    (s.failures.drop (i + 1)).countP (fun f => f.seen ≤ i) + s.underway.countP (· ≤ i) < c

theorem Kept.start (p : Policy τ) (c : ℕ) (t : τ) : Kept p c ⟨t, [], []⟩ where
  sorted := .nil
  past _ hf := absurd hf List.not_mem_nil
  free i f hf := by cases hf
  tries _ hseen := absurd hseen List.not_mem_nil
  room := Nat.zero_le c
  crowd _ hi := absurd hi (Nat.not_lt_zero _)

section
variable {p : Policy τ} {c : ℕ} {s s' : State τ}

theorem free_append {failures later : List (Failure τ)} {seen : ℕ} {t : τ}
    (hseen : seen ≤ failures.length) :
    Free p (failures ++ later) seen t ↔ Free p failures seen t := by
  unfold Free
  rw [List.take_append_of_le_length hseen]

theorem countP_erase_add {α : Type*} [BEq α] [LawfulBEq α] {l : List α} {a : α} (h : a ∈ l)
    (q : α → Bool) :
    (l.erase a).countP q + (if q a = true then 1 else 0) = l.countP q := by
  rw [(List.perm_cons_erase h).countP_eq q, List.countP_cons]

theorem Kept.fail {seen : ℕ} {t : τ} (h : Kept p c s) (hseen : seen ∈ s.underway)
    (ht : s.clock ≤ t) :
    Kept p c ⟨t, s.failures ++ [⟨t, seen⟩], s.underway.erase seen⟩ where
  sorted := by
    refine List.pairwise_append.mpr ⟨h.sorted, List.pairwise_singleton .., fun f hf g hg => ?_⟩
    rw [List.mem_singleton.mp hg]
    exact (h.past f hf).trans ht
  past f hf := by
    rcases List.mem_append.mp hf with hf | hf
    · exact (h.past f hf).trans ht
    · rw [List.mem_singleton.mp hf]
  free i f hf := by
    by_cases hi : i < s.failures.length
    · rw [List.getElem?_append_left hi] at hf
      obtain ⟨hle, hlast⟩ := h.free i f hf
      exact ⟨hle, (free_append (hle.trans hi.le)).mpr hlast⟩
    · rw [List.getElem?_append_right (not_lt.mp hi)] at hf
      obtain rfl := List.mem_singleton.mp (List.mem_of_getElem? hf)
      obtain ⟨hle, hlast⟩ := h.tries seen hseen
      exact ⟨hle.trans (not_lt.mp hi), (free_append hle).mpr (hlast t ht)⟩
  tries n hn := by
    obtain ⟨hle, hlast⟩ := h.tries n (List.mem_of_mem_erase hn)
    refine ⟨hle.trans (by rw [List.length_append]; exact Nat.le_add_right ..), fun t' ht' => ?_⟩
    exact (free_append hle).mpr (hlast t' (ht.trans ht'))
  room := (List.length_erase_of_mem hseen).trans_le ((Nat.sub_le ..).trans h.room)
  crowd i hi := by
    rw [List.length_append, List.length_singleton, Nat.lt_succ_iff] at hi
    have hcount := countP_erase_add hseen fun n => n ≤ i
    rcases hi.lt_or_eq with hi | rfl
    · have hcrowd := h.crowd i hi
      rw [List.drop_append_of_le_length (show i + 1 ≤ s.failures.length from hi),
        List.countP_append, List.countP_singleton]
      show _ + (if decide (seen ≤ i) = true then 1 else 0) + (s.underway.erase seen).countP _ < c
      omega
    · have hlength := List.length_erase_of_mem hseen
      have hpos := List.length_pos_of_mem hseen
      have hroom := h.room
      have hle := List.countP_le_length (p := fun n => n ≤ s.failures.length)
        (l := s.underway.erase seen)
      rw [List.drop_eq_nil_of_le (by rw [List.length_append, List.length_singleton]),
        List.countP_nil]
      show 0 + (s.underway.erase seen).countP _ < c
      omega

theorem Kept.leave {t : τ} (h : Kept p c s) (seen : ℕ) (ht : s.clock ≤ t) :
    Kept p c { s with clock := t, underway := s.underway.erase seen } where
  sorted := h.sorted
  past f hf := (h.past f hf).trans ht
  free := h.free
  tries n hn := by
    obtain ⟨hle, hlast⟩ := h.tries n (List.mem_of_mem_erase hn)
    exact ⟨hle, fun t' ht' => hlast t' (ht.trans ht')⟩
  room := (List.erase_sublist.length_le).trans h.room
  crowd i hi := by
    have hcrowd := h.crowd i hi
    have hle : (s.underway.erase seen).countP (· ≤ i) ≤ s.underway.countP (· ≤ i) :=
      List.erase_sublist.countP_le
    show (s.failures.drop (i + 1)).countP _ + (s.underway.erase seen).countP _ < c
    omega

theorem Kept.clear {t : τ} (h : Kept p c s) : Kept p c ⟨t, [], s.underway.map fun _ => 0⟩ where
  sorted := .nil
  past _ hf := absurd hf List.not_mem_nil
  free i f hf := by cases hf
  tries n hn := by
    obtain ⟨-, -, rfl⟩ := List.mem_map.mp hn
    exact ⟨le_rfl, fun t _ _ f hf => absurd hf List.not_mem_nil⟩
  room := (List.length_map ..).trans_le h.room
  crowd _ hi := absurd hi (Nat.not_lt_zero _)

theorem Kept.wait {t : τ} (h : Kept p c s) (ht : s.clock ≤ t) : Kept p c { s with clock := t } where
  sorted := h.sorted
  past f hf := (h.past f hf).trans ht
  free := h.free
  tries n hn := ⟨(h.tries n hn).1, fun t' ht' => (h.tries n hn).2 t' (ht.trans ht')⟩
  room := h.room
  crowd := h.crowd

theorem Kept.time_le (h : Kept p c s) {i j : ℕ} {f g : Failure τ} (hf : s.failures[i]? = some f)
    (hg : s.failures[j]? = some g) (hij : i ≤ j) : f.time ≤ g.time := by
  obtain ⟨hi, rfl⟩ := List.getElem?_eq_some_iff.mp hf
  obtain ⟨hj, rfl⟩ := List.getElem?_eq_some_iff.mp hg
  rcases hij.lt_or_eq with hij | rfl
  · exact List.pairwise_iff_getElem.mp h.sorted i j hi hj hij
  · exact le_rfl

/-- Among `c` failures in a row one is of a try admitted after the failure before them. -/
theorem Kept.exists_later (h : Kept p c s) {i : ℕ} (hi : i + c < s.failures.length) :
    ∃ j e, i < j ∧ j ≤ i + c ∧ s.failures[j]? = some e ∧ i < e.seen := by
  by_contra hnone
  push Not at hnone
  have hcrowd := h.crowd i (by omega)
  have hall : ((s.failures.drop (i + 1)).take c).countP (fun f => f.seen ≤ i) = c := by
    rw [List.countP_eq_length.mpr fun e he => ?_, List.length_take, List.length_drop]
    · omega
    · obtain ⟨x, hx⟩ := List.mem_iff_getElem?.mp he
      rw [List.getElem?_take] at hx
      split at hx
      next hlt =>
        rw [List.getElem?_drop] at hx
        exact decide_eq_true (hnone (i + 1 + x) e (by omega) (by omega) hx)
      next => cases hx
  have hle := (List.take_sublist c (s.failures.drop (i + 1))).countP_le
    (p := fun f => f.seen ≤ i)
  omega

/-- The failures of a window stand together. -/
theorem Kept.exists_window (h : Kept p c s) (start : τ) :
    ∃ before inside after, s.failures = before ++ inside ++ after ∧
      (∀ f ∈ inside, start < f.time ∧ f.time ≤ start + p.window) ∧
      s.failures.countP (fun f => start < f.time ∧ f.time ≤ start + p.window) = inside.length := by
  obtain ⟨upTo, after, hsplit, hupTo, hafter⟩ := exists_split h.sorted (start + p.window)
  have hsorted := h.sorted
  rw [hsplit] at hsorted
  obtain ⟨before, inside, rfl, hbefore, hinside⟩ :=
    exists_split (List.pairwise_append.mp hsorted).1 start
  have hwithin : ∀ f ∈ inside, start < f.time ∧ f.time ≤ start + p.window := fun f hf =>
    ⟨hinside f hf, hupTo f (List.mem_append_right _ hf)⟩
  refine ⟨before, inside, after, hsplit, hwithin, ?_⟩
  rw [hsplit, List.countP_append, List.countP_append, List.countP_eq_zero.mpr,
    List.countP_eq_length.mpr, List.countP_eq_zero.mpr, zero_add, add_zero]
  · exact fun f hf hin => (of_decide_eq_true hin).2.not_gt (hafter f hf)
  · exact fun f hf => decide_eq_true (hwithin f hf)
  · exact fun f hf hin => (of_decide_eq_true hin).1.not_ge (hbefore f hf)

variable [IsOrderedAddMonoid τ]

/-- Where all failures have been seen, a try that is not blocked is free from then on. -/
theorem free_of_not_blocks {failures : List (Failure τ)} {now later t : τ}
    (hfree : ¬ p.Blocks (failures.map Failure.time) now later) (hlater : now ≤ later)
    (ht : later ≤ t) : Free p failures failures.length t := by
  unfold Free
  rw [List.take_length]
  intro hcount f hf hwindow
  have hrecent : ∀ g : Failure τ, t - p.window < g.time → now - p.window < g.time :=
    fun g hg => (sub_le_sub_right (hlater.trans ht) p.window).trans_lt hg
  by_contra hblock
  refine hfree ⟨?_, f.time, List.mem_map_of_mem hf, hrecent f hwindow, ?_⟩
  · rw [List.countP_map]
    refine hcount.trans (List.countP_mono_left fun g _ hg => ?_)
    exact decide_eq_true (hrecent g (of_decide_eq_true hg))
  · exact ht.trans_lt (not_le.mp hblock)

theorem Kept.enter {now later : τ} (h : Kept p c s) (hnow : s.clock ≤ now) (hlater : now ≤ later)
    (hfree : ¬ p.Blocks (s.failures.map Failure.time) now later)
    (hroom : s.underway.length < c) :
    Kept p c { s with clock := later, underway := s.failures.length :: s.underway } where
  sorted := h.sorted
  past f hf := (h.past f hf).trans (hnow.trans hlater)
  free := h.free
  tries seen hseen := by
    rcases List.mem_cons.mp hseen with rfl | hseen
    · exact ⟨le_rfl, fun t ht => free_of_not_blocks hfree hlater ht⟩
    · obtain ⟨hle, hlast⟩ := h.tries seen hseen
      exact ⟨hle, fun t ht => hlast t ((hnow.trans hlater).trans ht)⟩
  room := hroom
  crowd i hi := by
    -- the new try has seen every failure
    rw [List.countP_cons_of_neg fun hle => (of_decide_eq_true hle).not_gt hi]
    exact h.crowd i hi

/-- **Each step** keeps what is kept. -/
theorem Kept.step (h : Kept p c s) (hstep : Step p c s s') : Kept p c s' := by
  cases hstep with
  | enter now later hnow hlater hfree hroom => exact h.enter hnow hlater hfree hroom
  | fail seen t hseen ht => exact h.fail hseen ht
  | leave seen t ht => exact h.leave seen ht
  | clear t ht => exact h.clear
  | wait t ht => exact h.wait ht

/-! ## The bound -/

/-- Past the limit, `c` failures take as long as a block. -/
theorem Kept.gap (h : Kept p c s) (hlimit : 0 < p.limit) {i : ℕ} {f g : Failure τ}
    (hf : s.failures[i]? = some f) (hg : s.failures[i + c]? = some g)
    (hcount : p.limit ≤
      (s.failures.take (i + 1)).countP fun e => g.time - p.window < e.time) :
    f.time + p.block ≤ g.time := by
  have hi := (List.getElem?_eq_some_iff.mp hg).1
  obtain ⟨j, e, hij, hjc, he, hseen⟩ := h.exists_later hi
  obtain ⟨-, hfree⟩ := h.free j e he
  have hlast : e.time ≤ g.time := h.time_le he hg hjc
  have hearly : s.failures.take (i + 1) <+: s.failures.take e.seen := by
    rw [List.prefix_take_iff]
    exact ⟨List.take_prefix .., by rw [List.length_take]; omega⟩
  have hwindow : ∀ m : Failure τ, g.time - p.window < m.time → e.time - p.window < m.time :=
    fun m hm => (sub_le_sub_right hlast p.window).trans_lt hm
  have hmem : f ∈ s.failures.take (i + 1) :=
    List.mem_iff_getElem?.mpr ⟨i, by rw [List.getElem?_take, if_pos (Nat.lt_succ_self i)]; exact hf⟩
  have hrecent : g.time - p.window < f.time := by
    obtain ⟨m, hm, hmtime⟩ := List.countP_pos_iff.mp (hlimit.trans_le hcount)
    obtain ⟨x, hx⟩ := List.mem_iff_getElem?.mp hm
    rw [List.getElem?_take] at hx
    split at hx
    next hlt => exact (of_decide_eq_true hmtime).trans_le (h.time_le hx hf (Nat.lt_succ_iff.mp hlt))
    next => cases hx
  refine (hfree ?_ f (hearly.subset hmem) (hwindow f hrecent)).trans hlast
  refine hcount.trans ((List.countP_mono_left fun m _ hm => ?_).trans
    hearly.sublist.countP_le)
  exact decide_eq_true (hwindow m (of_decide_eq_true hm))

/-- **The bound.**  A window holds fewer failures than the limit, or those beyond it take a
block for every `c` of them. -/
theorem Kept.bounded (h : Kept p c s) (hlimit : 0 < p.limit) (start : τ) :
    s.failures.countP (fun f => start < f.time ∧ f.time ≤ start + p.window) < p.limit ∨
      ((s.failures.countP (fun f => start < f.time ∧ f.time ≤ start + p.window) - p.limit) / c) •
        p.block < p.window := by
  obtain ⟨before, inside, after, hsplit, hwithin, hcount⟩ := h.exists_window start
  rw [hcount]
  refine or_iff_not_imp_left.mpr fun hmany => ?_
  rw [not_lt] at hmany
  have hindex : ∀ x, x < inside.length → s.failures[before.length + x]? = inside[x]? := by
    intro x hx
    rw [hsplit, List.append_assoc, List.getElem?_append_right (Nat.le_add_right ..),
      Nat.add_sub_cancel_left, List.getElem?_append_left hx]
  -- `c` failures inside the window, past the limit
  have hgap : ∀ x f g, p.limit ≤ x + 1 → inside[x]? = some f → inside[x + c]? = some g →
      f.time + p.block ≤ g.time := by
    intro x f g hx hf hg
    have hlt := (List.getElem?_eq_some_iff.mp hf).1
    have hlt' := (List.getElem?_eq_some_iff.mp hg).1
    refine h.gap hlimit ((hindex x hlt).trans hf)
      (by rw [Nat.add_assoc]; exact (hindex (x + c) hlt').trans hg) ?_
    have htake : inside.take (x + 1) <:+: s.failures.take (before.length + x + 1) := by
      rw [hsplit, List.append_assoc, Nat.add_assoc, List.take_length_add_append,
        List.take_append_of_le_length hlt]
      exact ⟨before, [], by rw [List.append_nil]⟩
    have hlast := (hwithin g (List.mem_of_getElem? hg)).2
    calc p.limit ≤ (inside.take (x + 1)).length := by rw [List.length_take]; omega
      _ = (inside.take (x + 1)).countP fun e => g.time - p.window < e.time := by
        refine (List.countP_eq_length.mpr fun e he => decide_eq_true ?_).symm
        exact (sub_le_iff_le_add.mpr hlast).trans_lt (hwithin e (List.mem_of_mem_take he)).1
      _ ≤ _ := htake.sublist.countP_le
  have hgaps : ∀ n f g, inside[p.limit - 1]? = some f →
      inside[p.limit - 1 + n * c]? = some g → f.time + n • p.block ≤ g.time := by
    intro n
    induction n with
    | zero =>
      intro f g hf hg
      rw [Nat.zero_mul, Nat.add_zero] at hg
      rw [zero_nsmul, add_zero, Option.some.inj (hf.symm.trans hg)]
    | succ n ih =>
      intro f g hf hg
      rw [Nat.succ_mul, ← Nat.add_assoc] at hg
      have hlt := (List.getElem?_eq_some_iff.mp hg).1
      obtain ⟨m, hm⟩ : ∃ m, inside[p.limit - 1 + n * c]? = some m :=
        ⟨_, List.getElem?_eq_getElem (by omega)⟩
      have hstep := hgap _ m g (by omega) hm hg
      calc f.time + (n + 1) • p.block = f.time + n • p.block + p.block := by
            rw [succ_nsmul, add_assoc]
        _ ≤ m.time + p.block := by
            have hsteps := ih f m hf hm
            gcongr
        _ ≤ g.time := hstep
  have hquotient := Nat.div_mul_le_self (inside.length - p.limit) c
  obtain ⟨f, hf⟩ : ∃ f, inside[p.limit - 1]? = some f :=
    ⟨_, List.getElem?_eq_getElem (by omega)⟩
  obtain ⟨g, hg⟩ : ∃ g, inside[p.limit - 1 + (inside.length - p.limit) / c * c]? = some g :=
    ⟨_, List.getElem?_eq_getElem (by omega)⟩
  have hlong := hgaps _ f g hf hg
  have hfirst := (hwithin f (List.mem_of_getElem? hf)).1
  have hlast := (hwithin g (List.mem_of_getElem? hg)).2
  have hlt : start + ((inside.length - p.limit) / c) • p.block < start + p.window :=
    calc start + ((inside.length - p.limit) / c) • p.block
        < f.time + ((inside.length - p.limit) / c) • p.block := by gcongr
      _ ≤ start + p.window := hlong.trans hlast
  exact lt_of_add_lt_add_left hlt

end

end Lockout
