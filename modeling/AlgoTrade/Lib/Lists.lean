import Mathlib.Algebra.BigOperators.Group.List.Basic
import Mathlib.Tactic.Abel

/-! # Lists that are updated in place

* `getElem?_set_cases`, `map_set_of_eq`: what stands where after one place is overwritten.
* `sum_map_set_add`, `sum_map_set`: one place is overwritten.
* `sum_map_update`: the one member with a key is changed.
* `sum_map_single`: one place is all that counts.
* `sum_map_ite_of_nodup`: one member is all that counts.
* `filterMap_set_perm`: one place that gave nothing gives something.
* `filter_map_of_forall`: the members with a property are left alone.
* `countP_map_update_le`: at most the one member with a key is changed. -/

namespace List

variable {α κ M : Type*}

/-- A place holds the new member, or what it held before. -/
theorem getElem?_set_cases {l : List α} {i j : ℕ} {a b : α} (h : (l.set i b)[j]? = some a) :
    j = i ∧ a = b ∨ j ≠ i ∧ l[j]? = some a := by
  rw [getElem?_set] at h
  split at h
  next hij =>
    split at h
    · exact .inl ⟨hij.symm, (Option.some.inj h).symm⟩
    · cases h
  next hij => exact .inr ⟨fun hji => hij hji.symm, h⟩

/-- Or one place more. -/
theorem getElem?_append_cases {l : List α} {j : ℕ} {a b : α} (h : (l ++ [b])[j]? = some a) :
    j = l.length ∧ a = b ∨ l[j]? = some a := by
  rcases Nat.lt_trichotomy j l.length with hlt | heq | hgt
  · rw [getElem?_append_left hlt] at h
    exact .inr h
  · subst heq
    rw [getElem?_append_right le_rfl, Nat.sub_self] at h
    exact .inl ⟨rfl, (Option.some.inj h).symm⟩
  · rw [getElem?_append_right hgt.le, getElem?_eq_none (by simp; omega)] at h
    cases h

/-- A place keeps what `f` says of it. -/
theorem map_set_of_eq {l : List α} {i : ℕ} {a b : α} {f : α → κ} (ha : l[i]? = some a)
    (hf : f b = f a) : (l.set i b).map f = l.map f := by
  refine ext_getElem? fun j => ?_
  rw [getElem?_map, getElem?_map, getElem?_set]
  split
  next hij =>
    subst hij
    rw [ha, if_pos (getElem?_eq_some_iff.mp ha).1, Option.map_some, Option.map_some, hf]
  next => rfl

/-- A filtered sum, member by member. -/
theorem sum_map_filter [AddMonoid M] (l : List α) (p : α → Bool) (f : α → M) :
    ((l.filter p).map f).sum = (l.map fun x => if p x = true then f x else 0).sum := by
  induction l with
  | nil => rfl
  | cons x l ih =>
    rw [map_cons, sum_cons, ← ih]
    split
    next h => rw [filter_cons_of_pos h, map_cons, sum_cons]
    next h => rw [filter_cons_of_neg h, zero_add]

theorem sum_map_flatMap [AddMonoid M] (l : List α) (g : α → List κ) (f : κ → M) :
    ((l.flatMap g).map f).sum = (l.map fun x => ((g x).map f).sum).sum := by
  induction l with
  | nil => rfl
  | cons x l ih => rw [flatMap_cons, map_append, sum_append, ih, map_cons, sum_cons]

/-- A change of the members without a property leaves those with it alone. -/
theorem filter_map_of_forall {l : List α} {p : α → Bool} {g : α → α}
    (hkeep : ∀ x ∈ l, p x = true → g x = x) (hlose : ∀ x ∈ l, p x = false → p (g x) = false) :
    (l.map g).filter p = l.filter p := by
  induction l with
  | nil => rfl
  | cons x l ih =>
    have ih' := ih (fun y hy => hkeep y (mem_cons_of_mem x hy))
      fun y hy => hlose y (mem_cons_of_mem x hy)
    rw [map_cons]
    cases hx : p x with
    | true => rw [hkeep x mem_cons_self hx, filter_cons_of_pos hx, filter_cons_of_pos hx, ih']
    | false =>
      have hgx := hlose x mem_cons_self hx
      rw [filter_cons_of_neg (by simp [hgx]), filter_cons_of_neg (by simp [hx]), ih']

/-- Changing the one member with a key counts at most one more. -/
theorem countP_map_update_le {l : List α} {key : α → κ} [DecidableEq κ]
    (hkeys : (l.map key).Nodup) (k : κ) (g : α → α) (p : α → Bool) :
    (l.map fun x => if key x = k then g x else x).countP p ≤ l.countP p + 1 := by
  induction l with
  | nil => exact Nat.zero_le _
  | cons x l ih =>
    rw [map_cons, nodup_cons] at hkeys
    obtain ⟨hx, hl⟩ := hkeys
    rw [map_cons, countP_cons, countP_cons]
    by_cases hk : key x = k
    · have hsame : (l.map fun y => if key y = k then g y else y) = l := by
        refine (map_congr_left fun y hy => ?_).trans (map_id l)
        exact if_neg fun heq : key y = k => hx (hk.trans heq.symm ▸ mem_map_of_mem hy)
      rw [hsame, if_pos hk, Nat.add_assoc]
      refine Nat.add_le_add_left ?_ _
      split
      · exact Nat.le_add_left 1 _
      · exact Nat.zero_le _
    · rw [if_neg hk, Nat.add_right_comm]
      exact Nat.add_le_add_right (ih hl) _

/-- Overwriting one place adds what is more there. -/
theorem sum_map_set_add [AddCommMonoid M] {l : List α} {i : ℕ} {a b : α} {f : α → M} {c : M}
    (h : l[i]? = some a) (hb : f b = f a + c) : ((l.set i b).map f).sum = (l.map f).sum + c := by
  induction l generalizing i with
  | nil => cases h
  | cons x l ih =>
    cases i with
    | zero =>
      obtain rfl : x = a := Option.some.inj h
      rw [set_cons_zero, map_cons, map_cons, sum_cons, sum_cons, hb]
      abel
    | succ i =>
      rw [set_cons_succ, map_cons, map_cons, sum_cons, sum_cons, ih h]
      abel

variable [AddCommGroup M]

/-- Overwriting one place changes the sum by the difference there. -/
theorem sum_map_set {l : List α} {i : ℕ} {a : α} (h : l[i]? = some a) (b : α) (f : α → M) :
    ((l.set i b).map f).sum = (l.map f).sum - f a + f b := by
  have hb : f b = f a + (f b - f a) := by abel
  rw [sum_map_set_add h hb]
  abel

/-- Only one place counts. -/
theorem sum_map_single {l : List α} {f : α → M} {i : ℕ} {a : α} (ha : l[i]? = some a)
    (h : ∀ j b, l[j]? = some b → j ≠ i → f b = 0) : (l.map f).sum = f a := by
  induction l generalizing i with
  | nil => cases ha
  | cons x l ih =>
    rw [map_cons, sum_cons]
    cases i with
    | zero =>
      obtain rfl : x = a := Option.some.inj ha
      have hzero : ∀ y ∈ l.map f, y = 0 := by
        intro y hy
        obtain ⟨b, hb, rfl⟩ := mem_map.mp hy
        obtain ⟨j, hj⟩ := mem_iff_getElem?.mp hb
        exact h (j + 1) b hj (Nat.succ_ne_zero j)
      rw [sum_eq_zero hzero, add_zero]
    | succ i =>
      rw [h 0 x rfl (Nat.succ_ne_zero i).symm, zero_add]
      exact ih ha fun j b hb hne => h (j + 1) b hb fun heq => hne (Nat.succ.inj heq)

/-- A place that gave nothing gives one member more. -/
theorem filterMap_set_perm {l : List α} {i : ℕ} {a b : α} {f : α → Option κ} {y : κ}
    (ha : l[i]? = some a) (hfa : f a = none) (hfb : f b = some y) :
    ((l.set i b).filterMap f).Perm (l.filterMap f ++ [y]) := by
  induction l generalizing i with
  | nil => cases ha
  | cons x l ih =>
    cases i with
    | zero =>
      obtain rfl : x = a := Option.some.inj ha
      rw [set_cons_zero, filterMap_cons_some hfb, filterMap_cons_none hfa]
      exact (perm_append_singleton y _).symm
    | succ i =>
      rw [set_cons_succ]
      cases hx : f x with
      | none =>
        rw [filterMap_cons_none hx, filterMap_cons_none hx]
        exact ih ha
      | some z =>
        rw [filterMap_cons_some hx, filterMap_cons_some hx]
        exact (ih ha).cons z

/-- A place that gives nothing before and after does not count. -/
theorem filterMap_set_of_none {l : List α} {i : ℕ} {a b : α} {f : α → Option κ}
    (ha : l[i]? = some a) (hfa : f a = none) (hfb : f b = none) :
    (l.set i b).filterMap f = l.filterMap f := by
  induction l generalizing i with
  | nil => cases ha
  | cons x l ih =>
    cases i with
    | zero =>
      obtain rfl : x = a := Option.some.inj ha
      rw [set_cons_zero, filterMap_cons_none hfb, filterMap_cons_none hfa]
    | succ i =>
      rw [set_cons_succ, filterMap_cons, filterMap_cons, ih ha]

variable [DecidableEq κ]

/-- Only one member counts. -/
theorem sum_map_ite_of_nodup {l : List κ} (hl : l.Nodup) {k : κ} (hk : k ∈ l) (m : M) :
    (l.map fun k' => if k' = k then m else 0).sum = m := by
  rw [sum_map_ite_eq, hl.count, if_pos hk, sub_zero, one_nsmul, sum_map_zero, add_zero]

/-- Changing the one member with a key changes the sum by the difference there. -/
theorem sum_map_update {l : List α} {key : α → κ} (hkeys : (l.map key).Nodup) {a : α} (ha : a ∈ l)
    (g : α → α) (f : α → M) :
    ((l.map fun x => if key x = key a then g x else x).map f).sum =
      (l.map f).sum - f a + f (g a) := by
  induction l with
  | nil => cases ha
  | cons x l ih =>
    rw [map_cons, nodup_cons] at hkeys
    obtain ⟨hx, hl⟩ := hkeys
    rw [map_cons, map_cons, map_cons, sum_cons, sum_cons]
    rcases mem_cons.mp ha with rfl | ha
    · have hsame : (l.map fun x => if key x = key a then g x else x) = l := by
        refine (map_congr_left fun y hy => ?_).trans (map_id l)
        exact if_neg fun heq : key y = key a => hx (heq ▸ mem_map_of_mem hy)
      rw [hsame, if_pos rfl]
      abel
    · have hne : key x ≠ key a := fun heq => hx (heq ▸ mem_map_of_mem ha)
      rw [if_neg hne, ih hl ha]
      abel

end List
