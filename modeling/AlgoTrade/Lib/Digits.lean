import Mathlib.Algebra.Group.Nat.Defs
import Mathlib.Data.List.Basic
import Mathlib.Tactic.Common

/-! # Decimal digits

* `pad`: a number in decimal, filled up with zeros.
* `pad_inj`: the zeros do not hide the number.
* `take_pad`: the leading digits are the digits of a quotient.
* `append_separator_inj`: a separator tells what it separates apart. -/

namespace Digits

/-- `n` in decimal, with leading zeros up to `width` digits. -/
def pad (width n : ℕ) : List Char :=
  List.replicate (width - (Nat.toDigits 10 n).length) '0' ++ Nat.toDigits 10 n

section
variable {width n m d : ℕ}

theorem isDigit_of_mem_toDigits {c : Char} (h : c ∈ Nat.toDigits 10 n) : c.isDigit = true :=
  Nat.isDigit_of_mem_toDigits (by decide) (by decide) h

theorem toDigits_inj : Nat.toDigits 10 n = Nat.toDigits 10 m ↔ n = m := by
  refine ⟨fun h => ?_, fun h => h ▸ rfl⟩
  have := congrArg (fun digits => Nat.ofDigitChars 10 digits 0) h
  simpa using this

theorem isDigit_of_mem_pad {c : Char} (h : c ∈ pad width n) : c.isDigit = true := by
  rcases List.mem_append.mp h with h | h
  · rw [List.eq_of_mem_replicate h]
    rfl
  · exact isDigit_of_mem_toDigits h

theorem notMem_pad {c : Char} (h : c.isDigit = false) : c ∉ pad width n := fun hc => by
  rw [isDigit_of_mem_pad hc] at h
  cases h

theorem length_pad : (pad width n).length = max width (Nat.toDigits 10 n).length := by
  unfold pad
  rw [List.length_append, List.length_replicate]
  omega

theorem pad_inj : pad width n = pad width m ↔ n = m := by
  refine ⟨fun h => ?_, fun h => h ▸ rfl⟩
  have := congrArg (fun digits => Nat.ofDigitChars 10 digits 0) h
  simpa [pad, Nat.ofDigitChars_append] using this

theorem pad_eq_toDigits (h : width ≤ (Nat.toDigits 10 n).length) :
    pad width n = Nat.toDigits 10 n := by
  unfold pad
  rw [Nat.sub_eq_zero_of_le h, List.replicate_zero, List.nil_append]

theorem length_pad_of_lt (hwidth : 0 < width) (h : n < 10 ^ width) : (pad width n).length = width := by
  rw [length_pad]
  exact Nat.max_eq_left ((Nat.length_toDigits_le_iff (by decide) hwidth).mpr h)

/-- The last digit. -/
theorem pad_succ (hwidth : 0 < width) :
    pad (width + 1) n = pad width (n / 10) ++ [Nat.digitChar (n % 10)] := by
  unfold pad
  rcases Nat.lt_or_ge n 10 with h | h
  · obtain ⟨k, rfl⟩ := Nat.exists_eq_add_of_lt hwidth
    rw [Nat.div_eq_of_lt h, Nat.mod_eq_of_lt h, Nat.toDigits_zero, Nat.toDigits_of_lt_base h]
    simp [List.replicate_succ']
  · rw [Nat.toDigits_of_base_le (by decide) h, List.length_append, List.length_singleton,
      Nat.add_sub_add_right, List.append_assoc]

/-- The leading digits. -/
theorem take_pad (hwidth : 0 < width) : n < 10 ^ (width + d) →
    (pad (width + d) n).take width = pad width (n / 10 ^ d) := by
  induction d generalizing n with
  | zero =>
    intro h
    rw [Nat.pow_zero, Nat.div_one, Nat.add_zero, List.take_of_length_le]
    exact Nat.le_of_eq (length_pad_of_lt hwidth h)
  | succ d ih =>
    intro h
    have hdiv : n / 10 < 10 ^ (width + d) := by
      rw [Nat.div_lt_iff_lt_mul (by decide), ← Nat.pow_succ]
      exact h
    have hlength := length_pad_of_lt (Nat.add_pos_left hwidth d) hdiv
    have hle : width ≤ (pad (width + d) (n / 10)).length := by
      rw [hlength]
      exact Nat.le_add_right width d
    rw [← Nat.add_assoc, pad_succ (Nat.add_pos_left hwidth d),
      List.take_append_of_le_length hle, ih hdiv, Nat.div_div_eq_div_mul, Nat.pow_succ']

/-- The leading digits of two numbers agree when the quotients do. -/
theorem take_pad_inj {d' : ℕ} (hn : n < 10 ^ (width + d)) (hm : m < 10 ^ (width + d')) :
    (pad (width + d) n).take width = (pad (width + d') m).take width ↔
      n / 10 ^ d = m / 10 ^ d' := by
  rcases Nat.eq_zero_or_pos width with rfl | hwidth
  · rw [Nat.zero_add] at hn hm
    simp [Nat.div_eq_of_lt hn, Nat.div_eq_of_lt hm]
  · rw [take_pad hwidth hn, take_pad hwidth hm, pad_inj]

/-- Neither first part holds the separator. -/
theorem append_separator_inj {α : Type*} {s : α} {x y z w : List α} (hx : s ∉ x) (hy : s ∉ y) :
    x ++ s :: z = y ++ s :: w ↔ x = y ∧ z = w := by
  refine ⟨fun h => ?_, fun ⟨hxy, hzw⟩ => hxy ▸ hzw ▸ rfl⟩
  rcases List.append_eq_append_iff.mp h with ⟨u, rfl, hz⟩ | ⟨u, rfl, hw⟩
  · cases u with
    | nil => exact ⟨(List.append_nil x).symm, List.tail_eq_of_cons_eq hz⟩
    | cons c u =>
      obtain rfl := List.head_eq_of_cons_eq hz
      exact absurd (List.mem_append_right x List.mem_cons_self) hy
  · cases u with
    | nil => exact ⟨List.append_nil y, (List.tail_eq_of_cons_eq hw).symm⟩
    | cons c u =>
      obtain rfl := List.head_eq_of_cons_eq hw
      exact absurd (List.mem_append_right y List.mem_cons_self) hx

end

end Digits
