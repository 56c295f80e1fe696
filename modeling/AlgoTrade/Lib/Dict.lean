import Mathlib.Algebra.BigOperators.Group.List.Basic
import Mathlib.Data.List.Nodup

/-! # Insertion-ordered dictionaries

A key keeps its place when its value is replaced, and a new key comes last.

* `get?_set`, `get?_update`: what a key reads afterwards.
* `keys_update`: an update of keys that are there keeps the keys.
* `map_values_eq`: with distinct keys, the values are what the keys read.
* `total_eq_pop`, `total_set`: a total over the entries, with one key apart. -/

structure Dict (κ α : Type*) where
  entries : List (κ × α) := []
  deriving DecidableEq, Repr

namespace Dict

variable {κ α : Type*}

def empty : Dict κ α := {}

def keys (d : Dict κ α) : List κ := d.entries.map Prod.fst

def values (d : Dict κ α) : List α := d.entries.map Prod.snd

/-- Change every value where it stands. -/
def mapValues (d : Dict κ α) (f : α → α) : Dict κ α where
  entries := d.entries.map fun e => (e.1, f e.2)

/-- Values that `f` and `g` agree on are changed alike. -/
theorem mapValues_congr {d : Dict κ α} {f g : α → α} (h : ∀ a ∈ d.values, f a = g a) :
    d.mapValues f = d.mapValues g := by
  simp only [mapValues, Dict.mk.injEq]
  refine List.map_congr_left fun e he => ?_
  rw [h e.2 (List.mem_map_of_mem he)]

theorem keys_mapValues (d : Dict κ α) (f : α → α) : (d.mapValues f).keys = d.keys := by
  unfold mapValues keys
  rw [List.map_map]
  rfl

/-- Every value that `f` answers for, with its answer. -/
def filterMapValues {β : Type*} (d : Dict κ α) (f : α → Option β) : Dict κ β where
  entries := d.entries.filterMap fun e => (f e.2).map (e.1, ·)

theorem filterMapValues_eq {β : Type*} {d : Dict κ α} {f : α → β} {g : β → Option α} {u : α → α}
    (h : ∀ a ∈ d.values, g (f a) = some (u a)) :
    (⟨d.entries.map fun e => (e.1, f e.2)⟩ : Dict κ β).filterMapValues g = d.mapValues u := by
  unfold filterMapValues mapValues
  rw [List.filterMap_map, ← List.filterMap_eq_map]
  refine congrArg Dict.mk (List.filterMap_congr fun e he => ?_)
  rw [Function.comp_apply, h e.2 (List.mem_map_of_mem he)]
  rfl

section

variable {M : Type*} [AddCommMonoid M]

/-- What `f` counts over the entries. -/
def total (d : Dict κ α) (f : κ → α → M) : M := (d.entries.map fun e => f e.1 e.2).sum

theorem total_congr {d : Dict κ α} {f g : κ → α → M} (h : ∀ e ∈ d.entries, f e.1 e.2 = g e.1 e.2) :
    d.total f = d.total g := by
  unfold total
  rw [List.map_congr_left h]

theorem total_mapValues (d : Dict κ α) (u : α → α) (f : κ → α → M) :
    (d.mapValues u).total f = d.total fun k v => f k (u v) := by
  unfold total mapValues
  rw [List.map_map]
  rfl

end

variable [DecidableEq κ]

def get? (d : Dict κ α) (k : κ) : Option α := (d.entries.find? fun e => e.1 = k).map Prod.snd

theorem mem_entries_of_get? {d : Dict κ α} {k : κ} {v : α} (h : d.get? k = some v) :
    (k, v) ∈ d.entries := by
  obtain ⟨e, he, rfl⟩ := Option.map_eq_some_iff.mp h
  have hk : e.1 = k := by simpa using List.find?_some he
  exact hk ▸ List.mem_of_find?_eq_some he

theorem mem_keys_of_get? {d : Dict κ α} {k : κ} {v : α} (h : d.get? k = some v) : k ∈ d.keys :=
  List.mem_map_of_mem (mem_entries_of_get? h)

def set (d : Dict κ α) (k : κ) (v : α) : Dict κ α where
  entries :=
    if d.entries.any fun e => e.1 = k then d.entries.map fun e => if e.1 = k then (k, v) else e
    else d.entries ++ [(k, v)]

def pop (d : Dict κ α) (k : κ) : Dict κ α where
  entries := d.entries.filter fun e => e.1 ≠ k

/-- Set every key of `e`. -/
def update (d e : Dict κ α) : Dict κ α := e.entries.foldl (fun d p => d.set p.1 p.2) d

/-! ## What a key reads -/

@[simp] theorem get?_empty (k : κ) : (empty : Dict κ α).get? k = none := rfl

theorem get?_cons (p : κ × α) (l : List (κ × α)) (k : κ) :
    (Dict.mk (p :: l)).get? k = if p.1 = k then some p.2 else (Dict.mk l).get? k := by
  unfold get?
  rw [List.find?_cons]
  split
  next h => rw [if_pos (of_decide_eq_true h), Option.map_some]
  next h => rw [if_neg (of_decide_eq_false h)]

theorem get?_eq_none_iff {d : Dict κ α} {k : κ} : d.get? k = none ↔ k ∉ d.keys := by
  rw [get?, Option.map_eq_none_iff, List.find?_eq_none]
  refine ⟨fun h hk => ?_, fun h e he => ?_⟩
  · obtain ⟨e, he, rfl⟩ := List.mem_map.mp hk
    exact h e he (decide_eq_true rfl)
  · exact fun hek => h (List.mem_map.mpr ⟨e, he, of_decide_eq_true hek⟩)

theorem exists_get?_of_mem {d : Dict κ α} {k : κ} (h : k ∈ d.keys) : ∃ v, d.get? k = some v := by
  cases hv : d.get? k with
  | none => exact absurd h (get?_eq_none_iff.mp hv)
  | some v => exact ⟨v, rfl⟩

theorem values_eq_nil {d : Dict κ α} (h : ∀ k, d.get? k = none) : d.values = [] := by
  refine List.eq_nil_iff_forall_not_mem.mpr fun v hv => ?_
  obtain ⟨e, he, -⟩ := List.mem_map.mp hv
  exact get?_eq_none_iff.mp (h e.1) (List.mem_map_of_mem he)

/-- Replacing the value of one key changes what that key reads. -/
theorem get?_map_replace (l : List (κ × α)) (k : κ) (v : α) (k' : κ) :
    (Dict.mk (l.map fun e => if e.1 = k then (k, v) else e)).get? k' =
      if k = k' then ((Dict.mk l).get? k).map fun _ => v else (Dict.mk l).get? k' := by
  induction l with
  | nil =>
    split
    · rfl
    · rfl
  | cons p l ih =>
    rw [List.map_cons, get?_cons, get?_cons, get?_cons, ih]
    by_cases hp : p.1 = k
    · rw [if_pos hp, if_pos hp, hp, Option.map_some]
      split
      · rfl
      · rfl
    · rw [if_neg hp, if_neg hp]
      by_cases hk : k = k'
      · rw [if_pos hk, if_pos hk, if_neg fun h => hp (h.trans hk.symm)]
      · rw [if_neg hk, if_neg hk]

/-- A key reads what was set last. -/
theorem get?_set (d : Dict κ α) (k : κ) (v : α) (k' : κ) :
    (d.set k v).get? k' = if k = k' then some v else d.get? k' := by
  unfold set
  split
  next hany =>
    rw [get?_map_replace]
    obtain ⟨e, he, hek⟩ := List.any_eq_true.mp hany
    obtain ⟨w, hw⟩ := exists_get?_of_mem (d := d) (List.mem_map.mpr ⟨e, he, of_decide_eq_true hek⟩)
    rw [hw, Option.map_some]
  next hnone =>
    have habsent : d.get? k = none := by
      rw [get?_eq_none_iff]
      intro hmem
      obtain ⟨e, he, hek⟩ := List.mem_map.mp hmem
      exact hnone (List.any_eq_true.mpr ⟨e, he, decide_eq_true hek⟩)
    unfold get? at habsent ⊢
    rw [List.find?_append, List.find?_cons]
    by_cases hk : k = k'
    · rw [← hk, Option.map_eq_none_iff.mp habsent]
      simp
    · simp [hk]

theorem get?_set_self (d : Dict κ α) (k : κ) (v : α) : (d.set k v).get? k = some v := by
  rw [get?_set, if_pos rfl]

theorem keys_set {d : Dict κ α} {k : κ} (h : k ∈ d.keys) (v : α) : (d.set k v).keys = d.keys := by
  obtain ⟨e, he, hek⟩ := List.mem_map.mp h
  have hany : (d.entries.any fun e => e.1 = k) = true :=
    List.any_eq_true.mpr ⟨e, he, decide_eq_true hek⟩
  unfold set keys
  rw [if_pos hany, List.map_map]
  refine List.map_congr_left fun e _ => ?_
  show (if e.1 = k then (k, v) else e).1 = e.1
  split
  next hk => exact hk.symm
  next => rfl

theorem keys_set_of_get?_eq_none {d : Dict κ α} {k : κ} (h : d.get? k = none) (v : α) :
    (d.set k v).keys = d.keys ++ [k] := by
  have hany : ¬ (d.entries.any fun e => e.1 = k) = true := by
    intro hany
    obtain ⟨e, he, hek⟩ := List.any_eq_true.mp hany
    exact get?_eq_none_iff.mp h (List.mem_map.mpr ⟨e, he, of_decide_eq_true hek⟩)
  unfold set keys
  rw [if_neg hany, List.map_append]
  rfl

theorem nodup_keys_set {d : Dict κ α} (h : d.keys.Nodup) (k : κ) (v : α) :
    (d.set k v).keys.Nodup := by
  cases hk : d.get? k with
  | none =>
    rw [keys_set_of_get?_eq_none hk]
    exact List.nodup_append.mpr ⟨h, List.nodup_singleton k, fun a ha b hb hab =>
      get?_eq_none_iff.mp hk (List.mem_singleton.mp hb ▸ hab ▸ ha)⟩
  | some w => rwa [keys_set (mem_keys_of_get? hk)]

theorem get?_pop (d : Dict κ α) (k k' : κ) :
    (d.pop k).get? k' = if k = k' then none else d.get? k' := by
  obtain ⟨l⟩ := d
  show (Dict.mk (l.filter fun e => e.1 ≠ k)).get? k' = _
  induction l with
  | nil => rw [List.filter_nil]; exact (ite_self none).symm
  | cons p l ih =>
    rw [get?_cons]
    by_cases hp : p.1 = k
    · rw [List.filter_cons_of_neg (by simp [hp]), ih, hp]
      by_cases hk : k = k'
      · rw [if_pos hk, if_pos hk]
      · rw [if_neg hk, if_neg hk, if_neg hk]
    · rw [List.filter_cons_of_pos (by simp [hp]), get?_cons, ih]
      by_cases hk : k = k'
      · rw [if_pos hk, if_pos hk, if_neg fun h => hp (h.trans hk.symm)]
      · rw [if_neg hk, if_neg hk]

theorem get?_foldl_pop (d : Dict κ α) (ks : List κ) (k : κ) :
    (ks.foldl pop d).get? k = if k ∈ ks then none else d.get? k := by
  induction ks generalizing d with
  | nil => rfl
  | cons k' ks ih =>
    rw [List.foldl_cons, ih, get?_pop]
    by_cases hk : k' = k
    · subst hk
      simp
    · by_cases hmem : k ∈ ks
      · simp [hmem]
      · simp [hmem, hk, Ne.symm hk]

theorem nodup_keys_pop {d : Dict κ α} (h : d.keys.Nodup) (k : κ) : (d.pop k).keys.Nodup :=
  h.sublist (List.filter_sublist.map Prod.fst)

theorem get?_mapValues (d : Dict κ α) (f : α → α) (k : κ) :
    (d.mapValues f).get? k = (d.get? k).map f := by
  obtain ⟨l⟩ := d
  unfold mapValues
  dsimp only
  induction l with
  | nil => rfl
  | cons p l ih =>
    rw [List.map_cons, get?_cons, get?_cons, ih]
    split
    · rfl
    · rfl

omit [DecidableEq κ] in
theorem nodup_keys_filterMapValues {β : Type*} {d : Dict κ α} (h : d.keys.Nodup) (f : α → Option β) :
    (d.filterMapValues f).keys.Nodup := by
  have hkeys : (d.filterMapValues f).keys =
      (d.entries.filter fun e => (f e.2).isSome).map Prod.fst := by
    unfold keys filterMapValues
    dsimp only
    rw [List.map_filterMap, ← List.filterMap_eq_map, List.filterMap_filter]
    refine List.filterMap_congr fun e _ => ?_
    rw [Option.map_map]
    cases f e.2 <;> rfl
  rw [hkeys]
  exact h.sublist (List.filter_sublist.map Prod.fst)

theorem get?_filterMapValues {β : Type*} {d : Dict κ α} (h : d.keys.Nodup) (f : α → Option β) (k : κ) :
    (d.filterMapValues f).get? k = (d.get? k).bind f := by
  obtain ⟨l⟩ := d
  unfold filterMapValues
  dsimp only
  induction l with
  | nil => rfl
  | cons p l ih =>
    obtain ⟨hp, hl⟩ := List.nodup_cons.mp h
    rw [get?_cons]
    by_cases hk : p.1 = k
    · subst hk
      have hnone : (Dict.mk l).get? p.1 = none := get?_eq_none_iff.mpr hp
      rw [if_pos rfl, Option.bind_some]
      cases hf : f p.2 with
      | none =>
        rw [List.filterMap_cons_none (by rw [hf]; rfl), ih hl, hnone]
        rfl
      | some b =>
        rw [List.filterMap_cons_some (by rw [hf]; rfl), get?_cons, if_pos rfl]
    · rw [if_neg hk, ← ih hl]
      cases hf : f p.2 with
      | none => rw [List.filterMap_cons_none (by rw [hf]; rfl)]
      | some b => rw [List.filterMap_cons_some (by rw [hf]; rfl), get?_cons, if_neg hk]

/-- What a key reads was updated, or was there. -/
theorem mem_of_get?_update {d e : Dict κ α} {k : κ} {v : α} (h : (d.update e).get? k = some v) :
    (k, v) ∈ e.entries ∨ d.get? k = some v := by
  obtain ⟨l⟩ := e
  unfold update at h
  induction l generalizing d with
  | nil => exact .inr h
  | cons p l ih =>
    rcases ih h with hmem | hset
    · exact .inl (List.mem_cons_of_mem p hmem)
    · rw [get?_set] at hset
      split at hset
      next hk =>
        obtain rfl := Option.some.inj hset
        exact .inl (hk ▸ List.mem_cons_self)
      next => exact .inr hset

/-- A key that was updated, or was there, reads something. -/
theorem isSome_get?_update {d e : Dict κ α} {k : κ} (h : k ∈ e.keys ∨ (d.get? k).isSome = true) :
    ((d.update e).get? k).isSome = true := by
  obtain ⟨l⟩ := e
  unfold update
  induction l generalizing d with
  | nil => exact h.resolve_left (List.not_mem_nil)
  | cons p l ih =>
    refine ih ?_
    by_cases hp : p.1 = k
    · subst hp
      right
      rw [get?_set_self]
      rfl
    · rcases h with h | h
      · exact .inl ((List.mem_cons.mp h).resolve_left (Ne.symm hp))
      · right
        rwa [get?_set, if_neg hp]

/-- A key reads what was updated, else what it read before. -/
theorem get?_update {d e : Dict κ α} (he : e.keys.Nodup) (k : κ) :
    (d.update e).get? k = (e.get? k).or (d.get? k) := by
  obtain ⟨l⟩ := e
  unfold update
  induction l generalizing d with
  | nil => rfl
  | cons p l ih =>
    obtain ⟨hp, hl⟩ := List.nodup_cons.mp he
    rw [List.foldl_cons, ih hl, get?_cons, get?_set]
    by_cases hk : p.1 = k
    · have hnone : (Dict.mk l).get? k = none := get?_eq_none_iff.mpr (hk ▸ hp)
      rw [if_pos hk, if_pos hk, hnone]
      rfl
    · rw [if_neg hk, if_neg hk]

theorem set_of_notMem {d : Dict κ α} {k : κ} (h : k ∉ d.keys) (v : α) :
    d.set k v = ⟨d.entries ++ [(k, v)]⟩ := by
  unfold set
  rw [if_neg]
  intro hany
  obtain ⟨e, he, hek⟩ := List.any_eq_true.mp hany
  exact h (of_decide_eq_true hek ▸ List.mem_map_of_mem he)

/-- New keys come last, in their order. -/
theorem update_append {d : Dict κ α} {es : List (κ × α)} (h : (d.keys ++ es.map Prod.fst).Nodup) :
    d.update ⟨es⟩ = ⟨d.entries ++ es⟩ := by
  unfold update
  induction es generalizing d with
  | nil => rw [List.append_nil]; rfl
  | cons p es ih =>
    have hp : p.1 ∉ d.keys := fun hmem =>
      (List.nodup_append.mp h).2.2 _ hmem _ List.mem_cons_self rfl
    have hkeys : (⟨d.entries ++ [p]⟩ : Dict κ α).keys = d.keys ++ [p.1] := by
      unfold keys
      rw [List.map_append]
      rfl
    rw [List.foldl_cons, set_of_notMem hp, ih, List.append_assoc]
    · rfl
    · rw [hkeys, List.append_assoc]
      exact h

theorem empty_update {e : Dict κ α} (h : e.keys.Nodup) : empty.update e = e := update_append h

theorem nodup_keys_update {d : Dict κ α} (hd : d.keys.Nodup) (e : Dict κ α) :
    (d.update e).keys.Nodup := by
  obtain ⟨l⟩ := e
  unfold update
  induction l generalizing d with
  | nil => exact hd
  | cons p l ih => exact ih (nodup_keys_set hd p.1 p.2)

theorem keys_update {d e : Dict κ α} (h : ∀ k ∈ e.keys, k ∈ d.keys) :
    (d.update e).keys = d.keys := by
  obtain ⟨l⟩ := e
  unfold update
  induction l generalizing d with
  | nil => rfl
  | cons p l ih =>
    have hkeys : (d.set p.1 p.2).keys = d.keys := keys_set (h p.1 List.mem_cons_self) p.2
    rw [List.foldl_cons, ih fun k hk => ?_, hkeys]
    rw [hkeys]
    exact h k (List.mem_cons_of_mem p.1 hk)

/-- With distinct keys, a key reads its own entry. -/
theorem get?_of_mem {d : Dict κ α} (hd : d.keys.Nodup) {p : κ × α} (hp : p ∈ d.entries) :
    d.get? p.1 = some p.2 := by
  obtain ⟨l⟩ := d
  induction l with
  | nil => cases hp
  | cons q l ih =>
    obtain ⟨hq, hl⟩ := List.nodup_cons.mp hd
    rw [get?_cons]
    rcases List.mem_cons.mp hp with rfl | hp
    · rw [if_pos rfl]
    · have hne : q.1 ≠ p.1 := fun heq => hq (heq ▸ List.mem_map_of_mem hp)
      rw [if_neg hne]
      exact ih hl hp

/-- The entries, read off the keys. -/
theorem entries_eq_filterMap {d : Dict κ α} (hd : d.keys.Nodup) :
    d.entries = d.keys.filterMap fun k => (d.get? k).map (k, ·) := by
  unfold keys
  rw [List.filterMap_map]
  refine (List.filterMap_some (l := d.entries)).symm.trans (List.filterMap_congr fun e he => ?_)
  rw [Function.comp_apply, get?_of_mem hd he, Option.map_some]

theorem ext_of_keys {d e : Dict κ α} (hd : d.keys.Nodup) (hkeys : d.keys = e.keys)
    (h : ∀ k, d.get? k = e.get? k) : d = e := by
  have hentries : d.entries = e.entries := by
    rw [entries_eq_filterMap hd, entries_eq_filterMap (hkeys ▸ hd), hkeys]
    exact List.filterMap_congr fun k _ => by rw [h k]
  cases d
  cases e
  exact congrArg Dict.mk hentries

/-- A dictionary that goes on from the keys of another takes its place. -/
theorem update_of_prefix {d e : Dict κ α} (he : e.keys.Nodup) (h : d.keys <+: e.keys) :
    d.update e = e := by
  obtain ⟨tail, htail⟩ := h
  have hsplit := List.take_append_drop d.keys.length e.entries
  have hfirst : (e.entries.take d.keys.length).map Prod.fst = d.keys := by
    rw [List.map_take]
    show e.keys.take _ = _
    rw [← htail, List.take_left]
  have hnodup : ((e.entries.take d.keys.length).map Prod.fst ++
      (e.entries.drop d.keys.length).map Prod.fst).Nodup := by
    rw [← List.map_append, hsplit]
    exact he
  have hkeys : (d.update ⟨e.entries.take d.keys.length⟩).keys = d.keys :=
    keys_update fun k hk => hfirst ▸ hk
  have hnodup' := (List.nodup_append.mp hnodup).1
  have hsame : d.update ⟨e.entries.take d.keys.length⟩ = ⟨e.entries.take d.keys.length⟩ := by
    refine ext_of_keys (by rw [hkeys, ← hfirst]; exact hnodup') (hkeys.trans hfirst.symm) fun k => ?_
    rw [get?_update hnodup']
    by_cases hk : k ∈ d.keys
    · have hmem : k ∈ (⟨e.entries.take d.keys.length⟩ : Dict κ α).keys := by
        show k ∈ (e.entries.take d.keys.length).map Prod.fst
        rw [hfirst]
        exact hk
      obtain ⟨v, hv⟩ := exists_get?_of_mem hmem
      rw [hv]
      rfl
    · rw [get?_eq_none_iff.mpr hk, Option.or_none]
  calc d.update e
      = (d.update ⟨e.entries.take d.keys.length⟩).update ⟨e.entries.drop d.keys.length⟩ := by
        unfold update
        rw [← List.foldl_append, hsplit]
    _ = ⟨e.entries⟩ := by rw [hsame, update_append hnodup, hsplit]


theorem exists_get?_of_mem_values {d : Dict κ α} (hd : d.keys.Nodup) {v : α} (hv : v ∈ d.values) :
    ∃ k, d.get? k = some v := by
  obtain ⟨p, hp, rfl⟩ := List.mem_map.mp hv
  exact ⟨p.1, get?_of_mem hd hp⟩

theorem mem_values_of_get? {d : Dict κ α} {k : κ} {v : α} (h : d.get? k = some v) :
    v ∈ d.values :=
  List.mem_map_of_mem (mem_entries_of_get? h)

/-- With distinct keys, the values are what the keys read. -/
theorem map_values_eq {β : Type*} {d : Dict κ α} (hd : d.keys.Nodup) {f : α → β} {g : κ → β}
    (h : ∀ k v, d.get? k = some v → f v = g k) : d.values.map f = d.keys.map g := by
  unfold values keys
  rw [List.map_map, List.map_map]
  exact List.map_congr_left fun p hp => h p.1 p.2 (get?_of_mem hd hp)

/-! ## Totals -/

section total

variable {M : Type*} [AddCommMonoid M]

theorem entries_pop_of_notMem {l : List (κ × α)} {k : κ} (h : k ∉ l.map Prod.fst) :
    (Dict.mk l).pop k = Dict.mk l := by
  unfold pop
  congr 1
  refine List.filter_eq_self.mpr fun e he => decide_eq_true fun heq => h ?_
  exact heq ▸ List.mem_map_of_mem he

/-- A total is what the key counts for and the total without it. -/
theorem total_eq_pop {d : Dict κ α} (hd : d.keys.Nodup) (k : κ) (f : κ → α → M) :
    d.total f = (d.pop k).total f + (d.get? k).elim 0 (f k) := by
  obtain ⟨l⟩ := d
  induction l with
  | nil =>
    show (0 : M) = 0 + 0
    rw [add_zero]
  | cons p l ih =>
    obtain ⟨hp, hl⟩ := List.nodup_cons.mp hd
    have hcons : (Dict.mk (p :: l)).total f = f p.1 p.2 + (Dict.mk l).total f := List.sum_cons
    rw [hcons, get?_cons]
    by_cases hk : p.1 = k
    · have hpop : (Dict.mk (p :: l)).pop k = Dict.mk l := by
        have hrest := entries_pop_of_notMem (l := l) (k := k) (hk ▸ hp)
        unfold pop at hrest ⊢
        rwa [List.filter_cons_of_neg (by simp [hk])]
      rw [if_pos hk, hpop, Option.elim_some, hk, add_comm]
    · have hpop : (Dict.mk (p :: l)).pop k = Dict.mk (p :: ((Dict.mk l).pop k).entries) := by
        unfold pop
        rw [List.filter_cons_of_pos (by simp [hk])]
      have hrest : (Dict.mk (p :: ((Dict.mk l).pop k).entries)).total f =
          f p.1 p.2 + ((Dict.mk l).pop k).total f := List.sum_cons
      rw [if_neg hk, hpop, hrest, ih hl, add_assoc]

theorem pop_set {d : Dict κ α} (k : κ) (v : α) : (d.set k v).pop k = d.pop k := by
  unfold set pop
  split
  · dsimp only
    congr 1
    induction d.entries with
    | nil => rfl
    | cons p l ih =>
      by_cases hk : p.1 = k
      · rw [List.map_cons, if_pos hk, List.filter_cons_of_neg (by simp),
          List.filter_cons_of_neg (by simp [hk]), ih]
      · rw [List.map_cons, if_neg hk, List.filter_cons_of_pos (by simp [hk]),
          List.filter_cons_of_pos (by simp [hk]), ih]
  · dsimp only
    rw [List.filter_append, List.filter_cons_of_neg (by simp), List.filter_nil, List.append_nil]

theorem total_set {d : Dict κ α} (hd : d.keys.Nodup) (k : κ) (v : α) (f : κ → α → M) :
    (d.set k v).total f = (d.pop k).total f + f k v := by
  rw [total_eq_pop (nodup_keys_set hd k v) k f, pop_set, get?_set_self, Option.elim_some]

/-- Without a key, what is counted for it does not matter. -/
theorem total_pop_congr {d : Dict κ α} {k : κ} {f g : κ → α → M}
    (h : ∀ k' v, k' ≠ k → f k' v = g k' v) : (d.pop k).total f = (d.pop k).total g := by
  refine total_congr fun e he => h e.1 e.2 ?_
  exact of_decide_eq_true (List.mem_filter.mp he).2

end total

end Dict
