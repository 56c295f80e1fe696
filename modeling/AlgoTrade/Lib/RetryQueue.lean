import Mathlib.Data.List.Basic
import Mathlib.Data.Nat.Find
import Mathlib.Order.Basic

/-! # Retry queues

A queue keeps its entries in order and gets new ones at its end only.  An entry waits until
it is settled or has been tried too often; a sweep tries the first few that wait.

* `Advances`: no entry leaves the queue, is tried less or is unsettled.
* `Served`: a sweep, with whatever else happens meanwhile.
* `Sweeps`: several of them.
* `Sweeps.done`: an entry with fewer than `limit * m` before it waits `most * m` sweeps at
  most, whatever comes of the tries. -/

namespace RetryQueue

structure Entry where
  tries : ℕ := 0
  settled : Bool := false
  deriving DecidableEq, Repr

/-- Not settled, and tried fewer than `most` times. -/
def Entry.waits (most : ℕ) (e : Entry) : Bool := !e.settled && decide (e.tries < most)

/-- At least as far as `e`. -/
def Entry.Reaches (e' e : Entry) : Prop :=
  e.tries ≤ e'.tries ∧ (e.settled = true → e'.settled = true)

def Advances (q q' : List Entry) : Prop :=
  ∀ (i : ℕ) (e : Entry), q[i]? = some e → ∃ e', q'[i]? = some e' ∧ e'.Reaches e

/-- How many entries wait before the one at `i`. -/
def ahead (most : ℕ) (q : List Entry) (i : ℕ) : ℕ := (q.take i).countP (Entry.waits most)

/-- The first `limit` entries that wait are settled or tried again. -/
structure Served (most limit : ℕ) (q q' : List Entry) : Prop where
  advances : Advances q q'
  tried : ∀ (i : ℕ) (e : Entry), q[i]? = some e → e.waits most = true → ahead most q i < limit →
    ∃ e', q'[i]? = some e' ∧ (e'.settled = true ∨ e.tries < e'.tries)

/-- A number of sweeps, and anything in between. -/
inductive Sweeps (most limit : ℕ) (q : List Entry) : ℕ → List Entry → Prop
  | start : Sweeps most limit q 0 q
  | other {n : ℕ} {q' q'' : List Entry} (h : Sweeps most limit q n q') (hstep : Advances q' q'') :
      Sweeps most limit q n q''
  | sweep {n : ℕ} {q' q'' : List Entry} (h : Sweeps most limit q n q')
      (hstep : Served most limit q' q'') : Sweeps most limit q (n + 1) q''

section
variable {most limit n i j : ℕ} {e e' : Entry} {q q' q'' : List Entry}

theorem Entry.Reaches.waits (h : e'.Reaches e) (hwaits : e'.waits most = true) :
    e.waits most = true := by
  unfold Entry.waits at hwaits ⊢
  rw [Bool.and_eq_true, Bool.not_eq_true', decide_eq_true_iff] at hwaits ⊢
  obtain ⟨htries, hsettled⟩ := h
  constructor
  · by_contra hne
    rw [Bool.not_eq_false] at hne
    rw [hsettled hne] at hwaits
    exact Bool.noConfusion hwaits.1
  · omega

theorem Entry.not_waits_of_settled (h : e.settled = true) : e.waits most = false := by
  unfold Entry.waits
  rw [h]
  rfl

theorem Entry.not_waits_of_le (h : e.waits most = true → most ≤ e.tries) :
    e.waits most = false := by
  by_contra hwaits
  rw [Bool.not_eq_false] at hwaits
  have hle := h hwaits
  unfold Entry.waits at hwaits
  rw [Bool.and_eq_true, decide_eq_true_iff] at hwaits
  omega

theorem Advances.refl (q : List Entry) : Advances q q :=
  fun _ e he => ⟨e, he, Nat.le_refl _, id⟩

theorem Advances.trans (h : Advances q q') (h' : Advances q' q'') : Advances q q'' := by
  intro i e he
  obtain ⟨e', he', htries, hsettled⟩ := h i e he
  obtain ⟨e'', he'', htries', hsettled'⟩ := h' i e' he'
  exact ⟨e'', he'', Nat.le_trans htries htries', hsettled' ∘ hsettled⟩

/-! ## The entries before one -/

@[simp] theorem ahead_zero : ahead most q 0 = 0 := rfl

theorem ahead_succ (he : q[i]? = some e) :
    ahead most q (i + 1) = ahead most q i + if e.waits most = true then 1 else 0 := by
  unfold ahead
  rw [List.take_add_one, he, List.countP_append, Option.toList_some, List.countP_singleton]

theorem ahead_succ_le (most : ℕ) (q : List Entry) (i : ℕ) :
    ahead most q (i + 1) ≤ ahead most q i + 1 := by
  cases he : q[i]? with
  | none =>
    unfold ahead
    rw [List.take_add_one, he, Option.toList_none, List.append_nil]
    omega
  | some e =>
    rw [ahead_succ he]
    split <;> omega

theorem exists_of_lt_length (hi : i < q.length) : ∃ e, q[i]? = some e :=
  ⟨_, List.getElem?_eq_getElem hi⟩

/-- Where the queue advances, no more entries wait between two places. -/
theorem Advances.ahead_le (most : ℕ) (h : Advances q q') (hji : j ≤ i) (hi : i ≤ q.length) :
    ahead most q' i + ahead most q j ≤ ahead most q i + ahead most q' j := by
  induction i with
  | zero =>
    rw [Nat.le_zero.mp hji]
    omega
  | succ i ih =>
    rcases Nat.lt_or_eq_of_le hji with hlt | rfl
    · obtain ⟨e, he⟩ := exists_of_lt_length (show i < q.length from hi)
      obtain ⟨e', he', hreaches⟩ := h i e he
      have ih := ih (by omega) (by omega)
      rw [ahead_succ he, ahead_succ he']
      by_cases hwaits : e'.waits most = true
      · rw [if_pos hwaits, if_pos (hreaches.waits hwaits)]
        omega
      · rw [if_neg hwaits]
        split <;> omega
    · omega

theorem Advances.ahead_anti (most : ℕ) (h : Advances q q') (hi : i ≤ q.length) :
    ahead most q' i ≤ ahead most q i := by
  have hle := h.ahead_le most (Nat.zero_le i) hi
  rw [ahead_zero, ahead_zero] at hle
  omega

/-- The place that has exactly `limit` entries waiting before it. -/
theorem exists_ahead_eq (h : limit ≤ ahead most q i) :
    ∃ j ≤ i, ahead most q j = limit ∧ ∀ x < j, ahead most q x < limit := by
  have hex : ∃ j, limit ≤ ahead most q j := ⟨i, h⟩
  refine ⟨Nat.find hex, Nat.find_min' hex h, ?_, fun x hx => Nat.not_le.mp (Nat.find_min hex hx)⟩
  have hle := Nat.find_spec hex
  rcases hfind : Nat.find hex with - | j
  · rw [hfind, ahead_zero] at hle
    rw [ahead_zero]
    omega
  · have hlt := Nat.find_min hex (show j < Nat.find hex by omega)
    have hsucc := ahead_succ_le most q j
    rw [hfind] at hle
    omega

theorem ahead_eq_zero (h : ∀ x < j, ∀ e, q[x]? = some e → e.waits most = false) :
    ahead most q j = 0 := by
  unfold ahead
  rw [List.countP_eq_zero]
  intro e he
  obtain ⟨x, hx⟩ := List.mem_iff_getElem?.mp he
  rw [List.getElem?_take] at hx
  split at hx
  next hlt => rw [h x hlt e hx]; exact Bool.false_ne_true
  next => cases hx

/-! ## Sweeps -/

theorem Sweeps.advances (h : Sweeps most limit q n q') : Advances q q' := by
  induction h with
  | start => exact .refl _
  | other _ hstep ih => exact ih.trans hstep
  | sweep _ hstep ih => exact ih.trans hstep.advances

theorem Sweeps.split (h : Sweeps most limit q n q'') {m : ℕ} (hm : m ≤ n) :
    ∃ q', Sweeps most limit q m q' ∧ Sweeps most limit q' (n - m) q'' := by
  induction h with
  | start =>
    obtain rfl := Nat.le_zero.mp hm
    exact ⟨q, .start, .start⟩
  | other _ hstep ih =>
    obtain ⟨q', hfirst, hlast⟩ := ih hm
    exact ⟨q', hfirst, .other hlast hstep⟩
  | @sweep n q' q'' h hstep ih =>
    rcases Nat.lt_or_eq_of_le hm with hlt | rfl
    · obtain ⟨q', hfirst, hlast⟩ := ih (by omega)
      rw [show n + 1 - m = n - m + 1 by omega]
      exact ⟨q', hfirst, .sweep hlast hstep⟩
    · rw [Nat.sub_self]
      exact ⟨q'', .sweep h hstep, .start⟩

/-- An entry among the first `limit` is tried in every sweep until it no longer waits. -/
theorem Sweeps.first (h : Sweeps most limit q n q') (he : q[i]? = some e)
    (hi : ahead most q i < limit) :
    ∃ e', q'[i]? = some e' ∧ (e'.waits most = true → n ≤ e'.tries) := by
  have hlength : i < q.length := (List.getElem?_eq_some_iff.mp he).1
  induction h with
  | start => exact ⟨e, he, fun _ => Nat.zero_le _⟩
  | other _ hstep ih =>
    obtain ⟨e', he', hn⟩ := ih
    obtain ⟨e'', he'', hreaches⟩ := hstep i e' he'
    exact ⟨e'', he'', fun hwaits => Nat.le_trans (hn (hreaches.waits hwaits)) hreaches.1⟩
  | sweep hsweeps hstep ih =>
    obtain ⟨e', he', hn⟩ := ih
    obtain ⟨e'', he'', hreaches⟩ := hstep.advances i e' he'
    refine ⟨e'', he'', fun hwaits => ?_⟩
    have hwaits' := hreaches.waits hwaits
    have hahead := hsweeps.advances.ahead_anti most (i := i) (by omega)
    obtain ⟨x, hx, hsettled | htries⟩ := hstep.tried i e' he' hwaits' (by omega)
    · obtain rfl := Option.some.inj (he''.symm.trans hx)
      rw [Entry.not_waits_of_settled hsettled] at hwaits
      exact Bool.noConfusion hwaits
    · obtain rfl := Option.some.inj (he''.symm.trans hx)
      have := hn hwaits'
      omega

/-- After `most` sweeps the first `limit` have left. -/
theorem Sweeps.ahead_le (h : Sweeps most limit q most q') (hi : i ≤ q.length) :
    ahead most q' i ≤ ahead most q i - limit := by
  rcases Nat.lt_or_ge (ahead most q i) limit with hlt | hge
  · rw [ahead_eq_zero fun x hx e' he' => ?_]
    · omega
    · obtain ⟨e, he⟩ := exists_of_lt_length (show x < q.length by omega)
      have hx : ahead most q x ≤ ahead most q i :=
        ((List.take_sublist_take_left (by omega)).countP_le)
      obtain ⟨e'', he'', hmost⟩ := h.first he (by omega)
      obtain rfl := Option.some.inj (he'.symm.trans he'')
      exact Entry.not_waits_of_le hmost
  · obtain ⟨j, hji, hj, hfirst⟩ := exists_ahead_eq hge
    have hzero : ahead most q' j = 0 := ahead_eq_zero fun x hx e' he' => by
      obtain ⟨e, he⟩ := exists_of_lt_length (show x < q.length by omega)
      obtain ⟨e'', he'', hmost⟩ := h.first he (hfirst x hx)
      obtain rfl := Option.some.inj (he'.symm.trans he'')
      exact Entry.not_waits_of_le hmost
    have hle := h.advances.ahead_le most hji hi
    omega

/-- **The wait is bounded.** -/
theorem Sweeps.done {m : ℕ} (h : Sweeps most limit q n q') (hn : most * m ≤ n)
    (he : q[i]? = some e) (hi : ahead most q i < limit * m) :
    ∃ e', q'[i]? = some e' ∧ e'.waits most = false := by
  induction m generalizing n q e with
  | zero => omega
  | succ m ih =>
    obtain ⟨q₁, hfirst, hlast⟩ := h.split (m := most) (by rw [Nat.mul_succ] at hn; omega)
    have hlength : i < q.length := (List.getElem?_eq_some_iff.mp he).1
    rcases Nat.lt_or_ge (ahead most q i) limit with hlt | hge
    · obtain ⟨e₁, he₁, hmost⟩ := hfirst.first he hlt
      obtain ⟨e', he', hreaches⟩ := hlast.advances i e₁ he₁
      refine ⟨e', he', Entry.not_waits_of_le fun hwaits => ?_⟩
      exact Nat.le_trans (hmost (hreaches.waits hwaits)) hreaches.1
    · obtain ⟨e₁, he₁, -⟩ := hfirst.advances i e he
      have hle := hfirst.ahead_le (Nat.le_of_lt hlength)
      rw [Nat.mul_succ] at hi hn
      exact ih hlast (by omega) he₁ (by omega)

end

end RetryQueue
