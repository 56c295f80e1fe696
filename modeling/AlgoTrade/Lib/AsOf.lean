import Mathlib.Data.List.Basic
import Mathlib.Data.List.Induction
import Mathlib.Order.Lattice

/-! # The newest entry of a series

A series in the order of its keys, read at a time: what counts is its newest entry then.

* `asOf_key`: an entry is the newest one at its own key.
* `filterMap_asOf`: what is read at times in order, entry by entry.
* `getLast?_flatMap_of_forall`: the last of what is read. -/

namespace List

variable {α β γ κ : Type*}

section
variable [LinearOrder κ] {key : α → κ} {time : β → κ} {l : List α} {ts : List β} {a : α} {t : κ}

/-- The newest entry at a time. -/
def asOf (key : α → κ) (l : List α) (t : κ) : Option α := (l.filter fun a => key a ≤ t).getLast?

theorem asOf_concat_of_le (h : key a ≤ t) : asOf key (l ++ [a]) t = some a := by
  rw [asOf, filter_append, filter_cons_of_pos (by simpa using h), filter_nil, getLast?_concat]

theorem asOf_concat_of_lt (h : t < key a) : asOf key (l ++ [a]) t = asOf key l t := by
  rw [asOf, filter_append, filter_cons_of_neg (by simpa using h), filter_nil, append_nil, asOf]

theorem mem_of_asOf (h : asOf key l t = some a) : a ∈ l := (mem_filter.mp (mem_of_getLast? h)).1

theorem asOf_key (hl : l.Pairwise fun a b => key a < key b) (ha : a ∈ l) :
    asOf key l (key a) = some a := by
  induction l using List.reverseRecOn with
  | nil => cases ha
  | append_singleton l b ih =>
    obtain ⟨hl, -, hb⟩ := pairwise_append.mp hl
    rcases mem_append.mp ha with ha | ha
    · rw [asOf_concat_of_lt (hb a ha b mem_cons_self), ih hl ha]
    · rw [mem_singleton.mp ha]
      exact asOf_concat_of_le le_rfl

/-- Times in order, before a time and from it on. -/
theorem exists_split_at (hts : ts.Pairwise fun b c => time b < time c) (t : κ) :
    ∃ before after, ts = before ++ after ∧ (∀ b ∈ before, time b < t) ∧
      ∀ b ∈ after, t ≤ time b := by
  induction ts with
  | nil => exact ⟨[], [], rfl, by simp, by simp⟩
  | cons b ts ih =>
    obtain ⟨hb, hts⟩ := pairwise_cons.mp hts
    rcases le_or_gt t (time b) with hle | hlt
    · refine ⟨[], b :: ts, rfl, by simp, fun c hc => ?_⟩
      rcases mem_cons.mp hc with rfl | hc
      · exact hle
      · exact hle.trans (hb c hc).le
    · obtain ⟨before, after, rfl, hbefore, hafter⟩ := ih hts
      refine ⟨b :: before, after, rfl, fun c hc => ?_, hafter⟩
      rcases mem_cons.mp hc with rfl | hc
      · exact hlt
      · exact hbefore c hc

variable [DecidableEq α]

/-- The times at which an entry is the newest. -/
def whileNewest (key : α → κ) (l : List α) (time : β → κ) (ts : List β) (a : α) : List β :=
  ts.filter fun b => asOf key l (time b) = some a

theorem whileNewest_ne_nil (hl : l.Pairwise fun a b => key a < key b) (ha : a ∈ l)
    (hts : ∃ b ∈ ts, time b = key a) : whileNewest key l time ts a ≠ [] := by
  obtain ⟨b, hb, htime⟩ := hts
  refine ne_nil_of_mem (a := b) (mem_filter.mpr ⟨hb, ?_⟩)
  rw [decide_eq_true_eq, htime, asOf_key hl ha]

/-- What a later entry takes over is from its own key on. -/
theorem whileNewest_concat_of_lt {x : α} (hlt : key x < key a) {before after : List β}
    (hbefore : ∀ b ∈ before, time b < key a) (hafter : ∀ b ∈ after, key a ≤ time b) :
    whileNewest key (l ++ [a]) time (before ++ after) x = whileNewest key l time before x := by
  have hnone : after.filter (fun b => asOf key (l ++ [a]) (time b) = some x) = [] := by
    refine filter_eq_nil_iff.mpr fun b hb h => ?_
    rw [decide_eq_true_eq, asOf_concat_of_le (hafter b hb)] at h
    exact hlt.ne (congrArg key (Option.some.inj h)).symm
  rw [whileNewest, filter_append, hnone, append_nil, whileNewest]
  exact filter_congr fun b hb => by rw [asOf_concat_of_lt (hbefore b hb)]

theorem whileNewest_concat_self (ha : a ∉ l) {before after : List β}
    (hbefore : ∀ b ∈ before, time b < key a) (hafter : ∀ b ∈ after, key a ≤ time b) :
    whileNewest key (l ++ [a]) time (before ++ after) a = after := by
  have hnone : before.filter (fun b => asOf key (l ++ [a]) (time b) = some a) = [] := by
    refine filter_eq_nil_iff.mpr fun b hb h => ha ?_
    rw [decide_eq_true_eq, asOf_concat_of_lt (hbefore b hb)] at h
    exact mem_of_asOf h
  rw [whileNewest, filter_append, hnone, nil_append]
  exact filter_eq_self.mpr fun b hb => decide_eq_true (asOf_concat_of_le (hafter b hb))

/-- **What is read** at times in order: of each entry in turn, as long as it is the newest. -/
theorem filterMap_asOf (hl : l.Pairwise fun a b => key a < key b)
    (hts : ts.Pairwise fun b c => time b < time c) (g : α → β → Option γ) :
    (ts.filterMap fun b => (asOf key l (time b)).bind fun a => g a b) =
      l.flatMap fun a => (whileNewest key l time ts a).filterMap (g a) := by
  induction l using List.reverseRecOn generalizing ts with
  | nil => exact filterMap_eq_nil_iff.mpr fun _ _ => rfl
  | append_singleton l a ih =>
    obtain ⟨hl, -, ha⟩ := pairwise_append.mp hl
    have ha : ∀ x ∈ l, key x < key a := fun x hx => ha x hx a mem_cons_self
    have hnew : a ∉ l := fun h => (ha a h).false
    -- from its key on the last entry is the newest, before it the others are read
    obtain ⟨before, after, rfl, hbefore, hafter⟩ := exists_split_at hts (key a)
    have hold : before.filterMap (fun b => (asOf key (l ++ [a]) (time b)).bind fun a => g a b) =
        before.filterMap fun b => (asOf key l (time b)).bind fun a => g a b :=
      filterMap_congr fun b hb => by rw [asOf_concat_of_lt (hbefore b hb)]
    have hown : after.filterMap (fun b => (asOf key (l ++ [a]) (time b)).bind fun a => g a b) =
        after.filterMap (g a) :=
      filterMap_congr fun b hb => by rw [asOf_concat_of_le (hafter b hb), Option.bind_some]
    rw [filterMap_append, hold, hown, ih hl (hts.sublist (sublist_append_left ..)), flatMap_append,
      flatMap_singleton, whileNewest_concat_self hnew hbefore hafter]
    congr 1
    exact flatMap_congr fun x hx => by
      rw [whileNewest_concat_of_lt (ha x hx) hbefore hafter]

end

/-! ## The last reading -/

/-- The last of the values that all entries give. -/
theorem getLast?_flatMap_of_forall {l : List α} {F : α → List γ} {h : α → Option γ}
    (hF : ∀ a ∈ l, (F a).getLast? = h a) :
    (l.flatMap F).getLast? = (l.filterMap h).getLast? := by
  induction l using List.reverseRecOn with
  | nil => rfl
  | append_singleton l a ih =>
    have ih := ih fun x hx => hF x (mem_append_left _ hx)
    have ha := hF a (mem_append_right _ mem_cons_self)
    rw [flatMap_append, flatMap_singleton, filterMap_append, getLast?_append, getLast?_append, ih,
      ha]
    cases hval : h a <;> simp [hval]

/-- Members that give nothing may be left out. -/
theorem flatMap_filter_of_forall {l : List α} {p : α → Bool} {F : α → List γ}
    (hF : ∀ a ∈ l, p a = false → F a = []) : (l.filter p).flatMap F = l.flatMap F := by
  induction l with
  | nil => rfl
  | cons a l ih =>
    have ih := ih fun x hx => hF x (mem_cons_of_mem a hx)
    rw [flatMap_cons, ← ih]
    cases ha : p a with
    | true => rw [filter_cons_of_pos ha, flatMap_cons]
    | false =>
      rw [filter_cons_of_neg (ne_true_of_eq_false ha), hF a mem_cons_self ha, nil_append]

/-- Where all are given or none is, the last value is that of the last member. -/
theorem getLast?_filterMap_of_isSome {l : List β} {g : β → Option γ}
    (hg : ∀ b ∈ l, ∀ c ∈ l, (g b).isSome = (g c).isSome) :
    (l.filterMap g).getLast? = l.getLast?.bind g := by
  rcases eq_nil_or_concat' l with rfl | ⟨l, b, rfl⟩
  · rfl
  rw [getLast?_concat, Option.bind_some, filterMap_append, getLast?_append]
  cases hb : g b with
  | some v => simp [hb]
  | none =>
    have hnone : l.filterMap g = [] := filterMap_eq_nil_iff.mpr fun c hc => by
      have h := hg c (mem_append_left _ hc) b (mem_append_right _ mem_cons_self)
      rwa [hb, Option.isSome_none, Option.isSome_eq_false_iff, Option.isNone_iff_eq_none] at h
    simp [hb, hnone]

end List
