import Mathlib.Logic.Basic
import Mathlib.Data.Option.Basic

/-! # Runs of a guarded step function

A system is a `step : σ → α → Option σ`: the next state under a label, or
`none` when the label is not enabled there.  A run executes a list of labels in
order.  Three rules carry every result about whole runs:

* `run_invariant`: what each step of a run preserves, the run preserves.
* `run_invariant_of_allSteps`: the same when only the steps that meet a side
  condition preserve it, for the runs whose steps all meet it (`AllSteps`).
* `forall_prefix_iff_allSteps`, `forall_prefix_iff_allSteps_of_invariant`: the same
  as an equivalence, when a step that breaks the side condition breaks the
  property. -/

namespace Runs

variable {σ α : Type*}

/-- Execute the labels in order; `none` as soon as one is not enabled. -/
def run (step : σ → α → Option σ) : σ → List α → Option σ
  | s, [] => some s
  | s, a :: as =>
    match step s a with
    | none => none
    | some s' => run step s' as

/-- Every step the run takes meets `ok`, a condition on the state before the
step and the label. -/
def AllSteps (step : σ → α → Option σ) (ok : σ → α → Prop) : σ → List α → Prop
  | _, [] => True
  | s, a :: as =>
    ok s a ∧
      match step s a with
      | none => True
      | some s' => AllSteps step ok s' as

section
variable {step : σ → α → Option σ} {ok : σ → α → Prop}

@[simp] theorem run_nil (s : σ) : run step s [] = some s := rfl

theorem run_cons (s : σ) (a : α) (as : List α) :
    run step s (a :: as) = (match step s a with
      | none => none
      | some s' => run step s' as) := rfl

theorem run_cons_eq_some {s t : σ} {a : α} {as : List α} :
    run step s (a :: as) = some t ↔ ∃ s', step s a = some s' ∧ run step s' as = some t := by
  constructor
  · intro hr
    cases hs : step s a with
    | none =>
      rw [run_cons, hs] at hr
      cases hr
    | some s' =>
      rw [run_cons, hs] at hr
      exact ⟨s', rfl, hr⟩
  · rintro ⟨s', hs, hr⟩
    rw [run_cons, hs]
    exact hr

theorem run_append_eq_some {s u : σ} {as bs : List α} :
    run step s (as ++ bs) = some u ↔ ∃ t, run step s as = some t ∧ run step t bs = some u := by
  induction as generalizing s with
  | nil => simp
  | cons a as ih =>
    rw [List.cons_append, run_cons_eq_some]
    constructor
    · rintro ⟨s', hs', hr⟩
      obtain ⟨t, ht, hu⟩ := ih.mp hr
      exact ⟨t, run_cons_eq_some.mpr ⟨s', hs', ht⟩, hu⟩
    · rintro ⟨t, ht, hu⟩
      obtain ⟨s', hs', hr⟩ := run_cons_eq_some.mp ht
      exact ⟨s', hs', ih.mpr ⟨t, hr, hu⟩⟩

theorem allSteps_cons {s s' : σ} {a : α} {as : List α} (h : step s a = some s') :
    AllSteps step ok s (a :: as) ↔ ok s a ∧ AllSteps step ok s' as := by
  show (ok s a ∧ match step s a with
    | none => True
    | some s' => AllSteps step ok s' as) ↔ _
  rw [h]

/-- The side condition along a run in two parts. -/
theorem allSteps_append {s t : σ} {as bs : List α} (hs : run step s as = some t) :
    AllSteps step ok s (as ++ bs) ↔ AllSteps step ok s as ∧ AllSteps step ok t bs := by
  induction as generalizing s with
  | nil =>
    rw [run_nil, Option.some.injEq] at hs
    subst hs
    exact ⟨fun h => ⟨trivial, h⟩, fun h => h.2⟩
  | cons a as ih =>
    obtain ⟨s', hs', hr⟩ := run_cons_eq_some.mp hs
    rw [List.cons_append, allSteps_cons hs', allSteps_cons hs', ih hr, and_assoc]

theorem allSteps_and {ok' : σ → α → Prop} {as : List α} {s : σ} (h : AllSteps step ok s as)
    (h' : AllSteps step ok' s as) : AllSteps step (fun s a => ok s a ∧ ok' s a) s as := by
  induction as generalizing s with
  | nil => trivial
  | cons a as ih =>
    refine ⟨⟨h.1, h'.1⟩, ?_⟩
    cases hs : step s a with
    | none => trivial
    | some s' => exact ih ((allSteps_cons hs).mp h).2 ((allSteps_cons hs).mp h').2

/-- A run goes on from every state it passes. -/
theorem run_append_of_eq_some {s t u : σ} {as bs : List α} (hs : run step s as = some t)
    (hr : run step s (as ++ bs) = some u) : run step t bs = some u := by
  obtain ⟨t', ht', hu⟩ := run_append_eq_some.mp hr
  rw [hs, Option.some.injEq] at ht'
  exact ht' ▸ hu

/-- **Invariant rule under a side condition.**  A property that every step
meeting `ok` preserves holds at the end of every run whose steps all meet `ok`. -/
theorem run_invariant_of_allSteps {Inv : σ → Prop}
    (hstep : ∀ s a s', Inv s → ok s a → step s a = some s' → Inv s') :
    ∀ {as : List α} {s t : σ}, Inv s → AllSteps step ok s as → run step s as = some t → Inv t := by
  intro as
  induction as with
  | nil =>
    intro s t hs _ hr
    simp only [run_nil, Option.some.injEq] at hr
    exact hr ▸ hs
  | cons a as ih =>
    intro s t hs hok hr
    obtain ⟨s', hs', hr'⟩ := run_cons_eq_some.mp hr
    obtain ⟨hoka, hokas⟩ := (allSteps_cons hs').mp hok
    exact ih (hstep s a s' hs hoka hs') hokas hr'

/-- Where a step keeps the property exactly when it meets `ok`, the property holds
in every state of a run exactly when all its steps meet `ok`. -/
theorem forall_prefix_iff_allSteps {Inv : σ → Prop}
    (hstep : ∀ s a s', Inv s → step s a = some s' → (Inv s' ↔ ok s a)) {as : List α} {s t : σ}
    (hs : Inv s) (hr : run step s as = some t) :
    (∀ bs, bs <+: as → ∀ u, run step s bs = some u → Inv u) ↔ AllSteps step ok s as := by
  induction as generalizing s with
  | nil =>
    refine ⟨fun _ => trivial, fun _ bs hbs u hu => ?_⟩
    rw [List.prefix_nil.mp hbs, run_nil, Option.some.injEq] at hu
    exact hu ▸ hs
  | cons a as ih =>
    obtain ⟨s', hs', hr'⟩ := run_cons_eq_some.mp hr
    rw [allSteps_cons hs']
    constructor
    · intro hall
      have hInv' : Inv s' :=
        hall [a] (by simp) s' (run_cons_eq_some.mpr ⟨s', hs', rfl⟩)
      refine ⟨(hstep s a s' hs hs').mp hInv', (ih hInv' hr').mp fun bs hbs u hu => ?_⟩
      exact hall (a :: bs) (List.cons_prefix_cons.mpr ⟨rfl, hbs⟩) u
        (run_cons_eq_some.mpr ⟨s', hs', hu⟩)
    · rintro ⟨hok, hoks⟩ bs hbs u hu
      have hInv' : Inv s' := (hstep s a s' hs hs').mpr hok
      cases bs with
      | nil =>
        rw [run_nil, Option.some.injEq] at hu
        exact hu ▸ hs
      | cons b bs =>
        obtain ⟨rfl, hbs'⟩ := List.cons_prefix_cons.mp hbs
        obtain ⟨s'', hs'', hu'⟩ := run_cons_eq_some.mp hu
        rw [hs', Option.some.injEq] at hs''
        subst hs''
        exact (ih hInv' hr').mpr hoks bs hbs' u hu'

/-- The same for a property `P` that a stronger invariant carries along: the steps
that meet `ok` keep the invariant, the others lose `P`. -/
theorem forall_prefix_iff_allSteps_of_invariant {Inv P : σ → Prop} (hP : ∀ s, Inv s → P s)
    (hkeep : ∀ s a s', Inv s → ok s a → step s a = some s' → Inv s')
    (hlose : ∀ s a s', Inv s → step s a = some s' → P s' → ok s a) {as : List α} {s t : σ}
    (hs : Inv s) (hr : run step s as = some t) :
    (∀ bs, bs <+: as → ∀ u, run step s bs = some u → P u) ↔ AllSteps step ok s as := by
  have hiff : ∀ s a s', Inv s → step s a = some s' → (Inv s' ↔ ok s a) := fun s a s' hInv hs' =>
    ⟨fun h => hlose s a s' hInv hs' (hP s' h), fun h => hkeep s a s' hInv h hs'⟩
  refine ⟨fun hall => ?_, fun hok bs hbs u hu =>
    hP u ((forall_prefix_iff_allSteps hiff hs hr).mpr hok bs hbs u hu)⟩
  induction as generalizing s with
  | nil => trivial
  | cons a as ih =>
    obtain ⟨s', hs', hr'⟩ := run_cons_eq_some.mp hr
    have hoka : ok s a :=
      hlose s a s' hs hs' (hall [a] (by simp) s' (run_cons_eq_some.mpr ⟨s', hs', rfl⟩))
    refine (allSteps_cons hs').mpr ⟨hoka, ih (hkeep s a s' hs hoka hs') hr' fun bs hbs u hu => ?_⟩
    exact hall (a :: bs) (List.cons_prefix_cons.mpr ⟨rfl, hbs⟩) u
      (run_cons_eq_some.mpr ⟨s', hs', hu⟩)

/-- Steps that agree on the labels of a run make the same run. -/
theorem run_congr {step' : σ → α → Option σ} {as : List α}
    (h : ∀ a ∈ as, ∀ s, step s a = step' s a) (s : σ) : run step s as = run step' s as := by
  induction as generalizing s with
  | nil => rfl
  | cons a as ih =>
    rw [run_cons, run_cons, h a List.mem_cons_self s]
    split
    · rfl
    · exact ih (fun b hb => h b (List.mem_cons_of_mem a hb)) _

/-- **Invariant rule.** -/
theorem run_invariant {Inv : σ → Prop}
    (hstep : ∀ s a s', Inv s → step s a = some s' → Inv s') {as : List α} {s t : σ}
    (hs : Inv s) (hr : run step s as = some t) : Inv t := by
  induction as generalizing s with
  | nil =>
    simp only [run_nil, Option.some.injEq] at hr
    exact hr ▸ hs
  | cons a as ih =>
    obtain ⟨s', hs', hr'⟩ := run_cons_eq_some.mp hr
    exact ih (hstep s a s' hs hs') hr'

end

/-- A run on fixed labels reaches a state with `p` when evaluating it says so. -/
theorem exists_of_any {o : Option σ} {p : σ → Prop} [DecidablePred p]
    (h : o.any (fun s => decide (p s)) = true) : ∃ s, o = some s ∧ p s := by
  obtain ⟨s, hs, hp⟩ := (Option.any_eq_true ..).mp h
  exact ⟨s, hs, of_decide_eq_true hp⟩

instance decidableAllSteps (step : σ → α → Option σ) (ok : σ → α → Prop)
    [∀ s a, Decidable (ok s a)] : ∀ s as, Decidable (AllSteps step ok s as)
  | _, [] => inferInstanceAs (Decidable True)
  | s, a :: as =>
    have : Decidable (match step s a with
        | none => True
        | some s' => AllSteps step ok s' as) :=
      match step s a with
      | none => inferInstanceAs (Decidable True)
      | some s' => decidableAllSteps step ok s' as
    inferInstanceAs (Decidable (_ ∧ _))

end Runs
