import AlgoTrade.Lib.Text
import Mathlib

/-! # Texts with all their letters

Texts are lists of characters, and what is a letter, a blank or a digit is a
parameter: `Casing` is what upper and lower case keep of a text, `Casing.ascii` the
part of it below 128.

* `strip`, `upper`: with what one keeps of the other.
* `splitFirst`, `splitLast`: a text cut once at a separator. -/

/-- Blanks, digits and the two cases of a text. -/
structure Casing where
  isSpace : Char → Bool
  isDigit : Char → Bool
  /-- The capitals of a character; there can be several. -/
  upperChar : Char → List Char
  /-- Of a whole text, since a letter can depend on its neighbours. -/
  lower : List Char → List Char
  isSpace_ascii : ∀ c, isSpace c = true → c.toNat < 128 → c.toNat ≤ 32
  isDigit_ascii : ∀ c, c.toNat < 128 → isDigit c = c.isDigit
  upperChar_ascii : ∀ c, c.toNat < 128 → upperChar c = [c.toUpper]
  upperChar_ne_nil : ∀ c, upperChar c ≠ []
  upperChar_idem : ∀ c, ∀ d ∈ upperChar c, upperChar d = [d]
  isSpace_upperChar : ∀ c, ∀ d ∈ upperChar c, isSpace d = isSpace c
  /-- Only letters turn into letters. -/
  eq_of_mem_upperChar : ∀ c, ∀ d ∈ upperChar c, d.toNat < 128 → d.isAlpha = false → d = c
  lower_ascii : ∀ s, (∀ c ∈ s, c.toNat < 128) → lower s = s.map Char.toLower
  lower_idem : ∀ s, lower (lower s) = lower s
  lower_eq_nil : ∀ s, lower s = [] → s = []
  mem_lower : ∀ s d, d.toNat < 128 → d.isAlpha = false → (d ∈ lower s ↔ d ∈ s)
  lower_strip : ∀ s, lower ((s.dropWhile isSpace).rdropWhile isSpace) =
    ((lower s).dropWhile isSpace).rdropWhile isSpace

namespace Casing

variable (py : Casing)

/-- `str.strip`. -/
def strip (s : List Char) : List Char := (s.dropWhile py.isSpace).rdropWhile py.isSpace

/-- `str.upper`. -/
def upper (s : List Char) : List Char := s.flatMap py.upperChar

/-! ## Blanks -/

variable {py} {s : List Char} {c d : Char}

theorem dropWhile_strip : (py.strip s).dropWhile py.isSpace = py.strip s :=
  Text.dropWhile_rdropWhile ..

@[simp] theorem strip_strip : py.strip (py.strip s) = py.strip s := by
  show ((py.strip s).dropWhile py.isSpace).rdropWhile py.isSpace = py.strip s
  rw [dropWhile_strip]
  exact List.rdropWhile_idempotent ..

theorem strip_sublist : (py.strip s).Sublist s :=
  (List.rdropWhile_prefix ..).sublist.trans (List.dropWhile_sublist ..)

/-- A text that ends in no blank. -/
theorem strip_eq_self (hhead : ∀ c ∈ s.head?, py.isSpace c = false)
    (hlast : ∀ c ∈ s.getLast?, py.isSpace c = false) : py.strip s = s := by
  have hdrop : s.dropWhile py.isSpace = s := by
    cases s with
    | nil => rfl
    | cons c s => rw [List.dropWhile_cons, hhead c rfl, if_neg Bool.false_ne_true]
  rw [strip, hdrop, List.rdropWhile_eq_self_iff]
  intro hne
  rw [hlast _ (List.getLast?_eq_some_getLast hne)]
  exact Bool.false_ne_true

theorem isSpace_head_strip (h : c ∈ (py.strip s).head?) : py.isSpace c = false := by
  have hdrop := @dropWhile_strip py s
  cases hs : py.strip s with
  | nil =>
    rw [hs] at h
    cases h
  | cons d t =>
    rw [hs] at h hdrop
    obtain rfl := Option.some.inj h
    rw [List.dropWhile_cons] at hdrop
    split at hdrop
    · exact absurd (congrArg List.length hdrop)
        (Nat.ne_of_lt (Nat.lt_succ_of_le (List.length_dropWhile_le ..)))
    next hc => exact Bool.eq_false_iff.mpr hc

theorem isSpace_last_strip (h : c ∈ (py.strip s).getLast?) : py.isSpace c = false := by
  have hne : py.strip s ≠ [] := by
    rintro hnil
    rw [hnil] at h
    cases h
  rw [List.getLast?_eq_some_getLast hne] at h
  obtain rfl := Option.some.inj h
  exact Bool.eq_false_iff.mpr (List.rdropWhile_last_not _ _ hne)

theorem mem_dropWhile_iff (hc : py.isSpace c = false) : c ∈ s.dropWhile py.isSpace ↔ c ∈ s := by
  refine ⟨fun h => (List.dropWhile_sublist _).mem h, fun h => ?_⟩
  rw [← List.takeWhile_append_dropWhile (p := py.isSpace) (l := s), List.mem_append] at h
  rcases h with h | h
  · rw [List.mem_takeWhile_imp h] at hc
    cases hc
  · exact h

theorem mem_strip_iff (hc : py.isSpace c = false) : c ∈ py.strip s ↔ c ∈ s := by
  rw [strip, List.rdropWhile, List.mem_reverse, mem_dropWhile_iff hc, List.mem_reverse,
    mem_dropWhile_iff hc]

/-! ## Cases -/

theorem upper_eq_self (h : ∀ c ∈ s, py.upperChar c = [c]) : py.upper s = s := by
  induction s with
  | nil => rfl
  | cons c s ih =>
    rw [upper, List.flatMap_cons, h c List.mem_cons_self]
    exact congrArg (c :: ·) (ih fun d hd => h d (List.mem_cons_of_mem c hd))

theorem upperChar_of_mem_upper (h : d ∈ py.upper s) : py.upperChar d = [d] := by
  obtain ⟨c, -, hd⟩ := List.mem_flatMap.mp h
  exact py.upperChar_idem c d hd

@[simp] theorem upper_upper : py.upper (py.upper s) = py.upper s :=
  upper_eq_self fun _ => upperChar_of_mem_upper

/-- Signs stay where they are. -/
theorem mem_upper_iff (hd : d.toNat < 128) (hsign : d.isAlpha = false) :
    d ∈ py.upper s ↔ d ∈ s := by
  constructor
  · intro h
    obtain ⟨c, hc, hmem⟩ := List.mem_flatMap.mp h
    exact py.eq_of_mem_upperChar c d hmem hd hsign ▸ hc
  · intro h
    refine List.mem_flatMap.mpr ⟨d, h, ?_⟩
    rw [py.upperChar_ascii d hd, List.mem_singleton, Char.toUpper, dif_neg]
    rintro ⟨hle, hge⟩
    have hlower : d.isLower = true := by
      rw [Char.isLower, Bool.and_eq_true]
      exact ⟨decide_eq_true hle, decide_eq_true hge⟩
    rw [Char.isAlpha, hlower, Bool.or_true] at hsign
    cases hsign

/-- What is stripped stays so in capitals. -/
theorem strip_upper_strip : py.strip (py.upper (py.strip s)) = py.upper (py.strip s) := by
  refine strip_eq_self (fun c hc => ?_) fun c hc => ?_
  · cases hs : py.strip s with
    | nil =>
      rw [hs] at hc
      cases hc
    | cons d t =>
      rw [hs, upper, List.flatMap_cons, List.head?_append_of_ne_nil _ (py.upperChar_ne_nil d)] at hc
      rw [py.isSpace_upperChar d c (List.mem_of_mem_head? hc)]
      exact isSpace_head_strip (by rw [hs]; rfl)
  · by_cases hne : py.strip s = []
    · rw [hne] at hc
      cases hc
    · rw [← List.dropLast_append_getLast hne, upper, List.flatMap_append, List.flatMap_singleton,
        List.getLast?_append_of_ne_nil _ (py.upperChar_ne_nil _)] at hc
      rw [py.isSpace_upperChar _ c (List.mem_of_mem_getLast? hc)]
      exact isSpace_last_strip (List.getLast?_eq_some_getLast hne)

theorem strip_lower_strip : py.strip (py.lower (py.strip s)) = py.lower (py.strip s) := by
  rw [strip, ← py.lower_strip]
  exact congrArg py.lower strip_strip

end Casing

/-! ## Separators -/

namespace Casing

/-- `s.split(sep, 1)`. -/
def splitFirst (sep : Char) (s : List Char) : List Char × List Char :=
  (s.takeWhile (· ≠ sep), (s.dropWhile (· ≠ sep)).tail)

/-- `s.rsplit(sep, 1)`. -/
def splitLast (sep : Char) (s : List Char) : List Char × List Char :=
  ((splitFirst sep s.reverse).2.reverse, (splitFirst sep s.reverse).1.reverse)

variable {sep : Char} {a b s : List Char}

theorem splitFirst_append (h : sep ∉ a) : splitFirst sep (a ++ sep :: b) = (a, b) := by
  have hp : ∀ c ∈ a, decide (c ≠ sep) = true := fun c hc =>
    decide_eq_true fun heq => h (heq ▸ hc)
  rw [splitFirst, List.takeWhile_append_of_pos hp, List.dropWhile_append_of_pos hp]
  simp

theorem splitLast_append (h : sep ∉ b) : splitLast sep (a ++ sep :: b) = (a, b) := by
  have hrev : (a ++ sep :: b).reverse = b.reverse ++ sep :: a.reverse := by simp
  rw [splitLast, hrev, splitFirst_append (by rwa [List.mem_reverse]), List.reverse_reverse,
    List.reverse_reverse]

/-- A separator cuts a text at its first place. -/
theorem splitFirst_spec (h : sep ∈ s) :
    s = (splitFirst sep s).1 ++ sep :: (splitFirst sep s).2 ∧ sep ∉ (splitFirst sep s).1 := by
  obtain ⟨a, b, rfl, ha⟩ := List.eq_append_cons_of_mem h
  rw [splitFirst_append ha]
  exact ⟨rfl, ha⟩

/-- And at its last. -/
theorem splitLast_spec (h : sep ∈ s) :
    s = (splitLast sep s).1 ++ sep :: (splitLast sep s).2 ∧ sep ∉ (splitLast sep s).2 := by
  obtain ⟨hs, hfirst⟩ := splitFirst_spec (s := s.reverse) (List.mem_reverse.mpr h)
  refine ⟨?_, by rwa [splitLast, List.mem_reverse]⟩
  calc s = s.reverse.reverse := (List.reverse_reverse s).symm
    _ = ((splitFirst sep s.reverse).1 ++ sep :: (splitFirst sep s.reverse).2).reverse :=
      congrArg List.reverse hs
    _ = (splitLast sep s).1 ++ sep :: (splitLast sep s).2 := by
      simp only [splitLast, List.reverse_append, List.reverse_cons, List.append_assoc,
        List.singleton_append]

end Casing

/-! ## Below 128 -/

namespace Casing

def asciiSpace (c : Char) : Bool := c.toNat ∈ [9, 10, 11, 12, 13, 28, 29, 30, 31, 32]

theorem asciiSpace_eq_false (h : 33 ≤ c.toNat) : asciiSpace c = false := by
  refine decide_eq_false fun hmem => ?_
  simp only [List.mem_cons, List.not_mem_nil, or_false] at hmem
  omega

theorem asciiSpace_toUpper (c : Char) : asciiSpace c.toUpper = asciiSpace c := by
  by_cases hlower : c.isLower = true
  · have hlow : 97 ≤ c.toNat := by
      rw [Char.isLower, Bool.and_eq_true] at hlower
      exact UInt32.le_iff_toNat_le.mp (of_decide_eq_true hlower.1)
    have hupper : 65 ≤ c.toUpper.toNat := by
      have hup : c.toUpper.isUpper = true := by
        rw [Char.isUpper_toUpper_eq_isAlpha, Char.isAlpha, hlower, Bool.or_true]
      exact UInt32.le_iff_toNat_le.mp (of_decide_eq_true hup).1
    rw [asciiSpace_eq_false (by omega), asciiSpace_eq_false (by omega)]
  · rw [Char.toUpper_eq_of_not_isLower hlower]

theorem asciiSpace_toLower (c : Char) : asciiSpace c.toLower = asciiSpace c := by
  rw [← asciiSpace_toUpper c.toLower, Char.toUpper_toLower_eq_toUpper, asciiSpace_toUpper]

/-- The letters of ASCII, and every other character as it is. -/
def ascii : Casing where
  isSpace := asciiSpace
  isDigit := Char.isDigit
  upperChar c := [c.toUpper]
  lower s := s.map Char.toLower
  isSpace_ascii c hc _ := by
    have hmem := of_decide_eq_true hc
    simp only [List.mem_cons, List.not_mem_nil, or_false] at hmem
    omega
  isDigit_ascii _ _ := rfl
  upperChar_ascii _ _ := rfl
  upperChar_ne_nil _ := List.cons_ne_nil _ _
  upperChar_idem c d hd := by
    obtain rfl := List.mem_singleton.mp hd
    rw [Char.toUpper_toUpper_eq_toUpper]
  isSpace_upperChar c d hd := by
    obtain rfl := List.mem_singleton.mp hd
    exact asciiSpace_toUpper c
  eq_of_mem_upperChar c d hd _ hsign := by
    obtain rfl := List.mem_singleton.mp hd
    rw [Char.isAlpha_toUpper_eq_isAlpha, Char.isAlpha, Bool.or_eq_false_iff] at hsign
    exact Char.toUpper_eq_of_not_isLower (Bool.eq_false_iff.mp hsign.2)
  lower_ascii _ _ := rfl
  lower_idem s := by
    rw [List.map_map]
    exact List.map_congr_left fun c _ => Char.toLower_toLower_eq_toLower c
  lower_eq_nil _ h := List.map_eq_nil_iff.mp h
  mem_lower s d _ hsign := by
    have hkept : ∀ c : Char, c.isAlpha = false → c.toLower = c := fun c hc => by
      rw [Char.isAlpha, Bool.or_eq_false_iff] at hc
      exact Char.toLower_eq_of_not_isUpper (Bool.eq_false_iff.mp hc.1)
    constructor
    · intro h
      obtain ⟨c, hc, rfl⟩ := List.mem_map.mp h
      rw [Char.isAlpha_toLower_eq_isAlpha] at hsign
      rwa [hkept c hsign]
    · exact fun h => List.mem_map.mpr ⟨d, h, hkept d hsign⟩
  lower_strip s := by
    have hspace : asciiSpace ∘ Char.toLower = asciiSpace := funext asciiSpace_toLower
    rw [List.rdropWhile, List.rdropWhile, List.dropWhile_map, hspace, ← List.map_reverse,
      List.dropWhile_map, hspace, List.map_reverse]

end Casing
