import Mathlib.Data.List.DropRight
import Mathlib.Data.List.TakeWhile

/-! # Texts

* `strip`: a text without the blanks around it.
* `strip_strip`, `strip_eq_self`: what is stripped, or has no blanks, stays as it is. -/

namespace Text

/-- `str.strip`. -/
def strip (s : String) : String :=
  let inner := s.toList.dropWhile Char.isWhitespace
  String.ofList (inner.reverse.dropWhile Char.isWhitespace).reverse

/-- `s[:n]`. -/
def take (s : String) (n : Nat) : String := String.ofList (s.toList.take n)

/-- What is cut off at the end leaves the start as it is. -/
theorem dropWhile_rdropWhile {α : Type*} (p : α → Bool) (l : List α) :
    ((l.dropWhile p).rdropWhile p).dropWhile p = (l.dropWhile p).rdropWhile p := by
  have hpre := List.rdropWhile_prefix p (l := l.dropWhile p)
  rw [List.dropWhile_eq_self_iff]
  intro hl
  rw [hpre.getElem hl]
  exact List.dropWhile_eq_self_iff.mp (List.dropWhile_idempotent ..) _

theorem strip_strip (s : String) : strip (strip s) = strip s := by
  have hstrip : ∀ t : String, strip t = String.ofList
      ((t.toList.dropWhile Char.isWhitespace).rdropWhile Char.isWhitespace) := fun _ => rfl
  rw [hstrip (strip s), hstrip s, String.toList_ofList, dropWhile_rdropWhile,
    List.rdropWhile_idempotent]

/-- A text without blanks. -/
theorem strip_eq_self {s : String} (h : ∀ c ∈ s.toList, ¬ c.isWhitespace = true) : strip s = s := by
  have hdrop : ∀ {l : List Char}, (∀ c ∈ l, ¬ c.isWhitespace = true) →
      l.dropWhile Char.isWhitespace = l := fun hl =>
    List.dropWhile_eq_self_iff.mpr fun hpos => hl _ (List.getElem_mem hpos)
  unfold strip
  dsimp only
  rw [hdrop h, hdrop fun c hc => h c (List.mem_reverse.mp hc), List.reverse_reverse,
    String.ofList_toList]

/-- A text that is no longer than the cut. -/
theorem take_eq_self {s : String} {n : Nat} (h : s.toList.length ≤ n) : take s n = s := by
  unfold take
  rw [List.take_of_length_le h, String.ofList_toList]

end Text
