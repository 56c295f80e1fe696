import Mathlib.Logic.Basic

/-! # Raised flags

Each party raises its flag, makes sure that it is up, looks at the flags of the others and
goes in if it may be inside beside those that are up.  Of two parties that have kept their
flags up, the later to look saw the flag of the other.

* `Step`: a party makes sure of its flag only while it is out, and goes in after a look.
* `Kept.step`: each step keeps that two steady parties may be inside together. -/

namespace RaisedFlags

variable {ι α : Type*}

structure State (ι α : Type*) where
  up : ι → Prop
  /-- The flag has been up ever since its party made sure of it. -/
  steady : ι → Prop
  /-- The parties inside, with what each found when it looked. -/
  inside : ι → Option α

/-- One step of any party; `may i a j` says that `i`, who found `a`, may be inside beside `j`. -/
structure Step (may : ι → α → ι → Prop) (s s' : State ι α) : Prop where
  raised : ∀ i, s'.steady i → s'.up i ∧ (s.steady i ∨ s'.inside i = none)
  looked : ∀ i a, s'.inside i = some a → s.inside i = some a ∨ ∀ j, j ≠ i → s.up j → may i a j

structure Kept (may : ι → α → ι → Prop) (s : State ι α) : Prop where
  raised : ∀ i, s.steady i → s.up i
  apart : ∀ i j a b, i ≠ j → s.inside i = some a → s.inside j = some b → s.steady i →
    s.steady j → may i a j ∨ may j b i

variable {may : ι → α → ι → Prop} {s s' : State ι α}

theorem Kept.start (hsteady : ∀ i, ¬ s.steady i) : Kept may s where
  raised i hi := absurd hi (hsteady i)
  apart i _ _ _ _ _ _ hi := absurd hi (hsteady i)

/-- Who is inside and steady was steady before. -/
theorem Step.steady (h : Step may s s') {i : ι} {a : α} (hin : s'.inside i = some a)
    (hi : s'.steady i) : s.steady i := by
  rcases (h.raised i hi).2 with hbefore | hout
  · exact hbefore
  · rw [hout] at hin
    cases hin

/-- **Each step** keeps it. -/
theorem Kept.step (h : Kept may s) (hs : Step may s s') : Kept may s' where
  raised i hi := (hs.raised i hi).1
  apart i j a b hne ha hb hi hj := by
    have histeady := hs.steady ha hi
    have hjsteady := hs.steady hb hj
    rcases hs.looked i a ha with hia | hnew
    · rcases hs.looked j b hb with hjb | hnew
      · exact h.apart i j a b hne hia hjb histeady hjsteady
      · exact .inr (hnew i hne (h.raised i histeady))
    · exact .inl (hnew j hne.symm (h.raised j hjsteady))

end RaisedFlags
