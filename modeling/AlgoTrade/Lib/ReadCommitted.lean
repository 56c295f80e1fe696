import AlgoTrade.Lib.Runs
import Mathlib.Data.List.Nodup

/-! # Transactions on one row under read committed

A call is a program of SQL statements with a local state.  A plain `SELECT` sees
the call's own version of the row, else the committed one, and takes no lock.
An `UPDATE`, a `SELECT ... FOR UPDATE` or an `INSERT` after one works under the
row lock, waits for it, and keeps it until the call commits or rolls back.

* `Serial`: calls run one after the other, alone.
* `serializable_run`: if every call that takes the lock is in the local state it
  would have reached alone on the committed row, what is committed is what a
  serial run of the successful calls leaves, in commit order. -/

namespace ReadCommitted

open Runs

variable {σ ℓ : Type*}

/-- One statement.  An `update` yields the new version, or none when it matches
no row and locks nothing. -/
inductive Stmt (σ ℓ : Type*)
  | read (next : σ → ℓ)
  | update (next : σ → Option σ × ℓ)
  | commit
  | rollback (ok : Bool)

/-- `onError`: what the call does when a statement raises.  It goes on in
another connection, or rolls back and reports a result. -/
structure Program (σ ℓ : Type*) where
  stmt : ℓ → Stmt σ ℓ
  onError : ℓ → ℓ ⊕ Bool

inductive Proc (ℓ : Type*)
  | running (l : ℓ)
  | ended (ok : Bool)
  deriving DecidableEq, Repr

/-- The committed row, the version of the call that holds the lock, the calls. -/
structure Sys (σ ℓ : Type*) where
  row : σ
  holder : Option (Nat × σ) := none
  procs : List (Proc ℓ)
  deriving DecidableEq, Repr

/-- One statement of a call, an exception in its place, or the end of its
connection. -/
inductive Label
  | step (i : Nat)
  | error (i : Nat)
  | lost (i : Nat)
  deriving DecidableEq, Repr

namespace Sys

/-- The version call `i` sees. -/
def visible (s : Sys σ ℓ) (i : Nat) : σ :=
  match s.holder with
  | none => s.row
  | some (j, v) => if j = i then v else s.row

/-- Call `i` holds the lock. -/
def owns (s : Sys σ ℓ) (i : Nat) : Bool :=
  match s.holder with
  | none => false
  | some (j, _) => j = i

def set (s : Sys σ ℓ) (i : Nat) (p : Proc ℓ) : Sys σ ℓ := { s with procs := s.procs.set i p }

/-- Call `i` ends and its lock is free. -/
def finish (s : Sys σ ℓ) (i : Nat) (ok : Bool) : Sys σ ℓ :=
  { s with holder := if s.owns i then none else s.holder, procs := s.procs.set i (.ended ok) }

end Sys

/-- The next state; `none` when the call is not running or waits for the lock. -/
def step (prog : Program σ ℓ) (s : Sys σ ℓ) : Label → Option (Sys σ ℓ)
  | .step i =>
    match s.procs[i]? with
    | some (.running l) =>
      match prog.stmt l with
      | .read next => some (s.set i (.running (next (s.visible i))))
      | .update next =>
        if s.owns i || s.holder.isNone then
          match next (s.visible i) with
          | (none, l') => some (s.set i (.running l'))
          | (some v, l') => some { s.set i (.running l') with holder := some (i, v) }
        else none
      | .commit => some { s.finish i true with row := s.visible i }
      | .rollback ok => some (s.finish i ok)
    | _ => none
  | .error i =>
    match s.procs[i]? with
    | some (.running l) =>
      match prog.onError l with
      | .inl l' => some (s.set i (.running l'))
      | .inr ok => some (s.finish i ok)
    | _ => none
  | .lost i =>
    match s.procs[i]? with
    | some (.running _) => some (s.finish i false)
    | _ => none

/-! ## Calls alone -/

/-- One statement of a call that runs alone, on its version of the row. -/
def aloneStep (prog : Program σ ℓ) (p : ℓ × σ) (_ : Unit) : Option (ℓ × σ) :=
  match prog.stmt p.1 with
  | .read next => some (next p.2, p.2)
  | .update next => some ((next p.2).2, (next p.2).1.getD p.2)
  | .commit => none
  | .rollback _ => none

/-- Alone, `n` statements lead from `p` to `q`. -/
def AloneIn (prog : Program σ ℓ) (n : Nat) (p q : ℓ × σ) : Prop :=
  run (aloneStep prog) p (List.replicate n ()) = some q

/-- The call `l` alone succeeds on `a` and leaves `b`. -/
def Succeeds (prog : Program σ ℓ) (l : ℓ) (a b : σ) : Prop :=
  ∃ n l' v, AloneIn prog n (l, a) (l', v) ∧
    (prog.stmt l' = .commit ∧ b = v ∨ prog.stmt l' = .rollback true ∧ b = a)

/-- The calls of `order` succeed one after the other, alone. -/
inductive Serial (prog : Program σ ℓ) (calls : List ℓ) : σ → List Nat → σ → Prop
  | nil (a : σ) : Serial prog calls a [] a
  | snoc {a b c : σ} {order : List Nat} {i : Nat} {l : ℓ} (h : Serial prog calls a order b)
      (hl : calls[i]? = some l) (hs : Succeeds prog l b c) : Serial prog calls a (order ++ [i]) c

/-- What every successful call keeps, a serial run keeps. -/
theorem Serial.invariant {prog : Program σ ℓ} {calls : List ℓ} {I : σ → Prop}
    (hcall : ∀ l ∈ calls, ∀ a b, I a → Succeeds prog l a b → I b) {a b : σ} {order : List Nat}
    (h : Serial prog calls a order b) (ha : I a) : I b := by
  induction h with
  | nil => exact ha
  | snoc _ hl hs ih => exact hcall _ (List.mem_of_getElem? hl) _ _ ih hs

/-- The statement, run alone on the version `v`, ends in `P`. -/
def Stmt.Ensures (P : ℓ × σ → Prop) (v : σ) : Stmt σ ℓ → Prop
  | .read next => P (next v, v)
  | .update next => P ((next v).2, (next v).1.getD v)
  | .commit => True
  | .rollback _ => True

theorem aloneStep_ensures {prog : Program σ ℓ} {P : ℓ × σ → Prop} {l : ℓ} {v : σ} {q : ℓ × σ}
    (h : (prog.stmt l).Ensures P v) (hs : aloneStep prog (l, v) () = some q) : P q := by
  unfold aloneStep at hs
  cases hstmt : prog.stmt l with
  | read next =>
    rw [hstmt] at h hs
    exact Option.some.inj hs ▸ h
  | update next =>
    rw [hstmt] at h hs
    exact Option.some.inj hs ▸ h
  | commit => simp [hstmt] at hs
  | rollback ok => simp [hstmt] at hs

/-- What every statement alone keeps holds as long as the call runs alone. -/
theorem AloneIn.invariant {prog : Program σ ℓ} {I : ℓ × σ → Prop}
    (hstep : ∀ l v, I (l, v) → (prog.stmt l).Ensures I v) {n : Nat} {p q : ℓ × σ}
    (h : AloneIn prog n p q) (hp : I p) : I q := by
  refine run_invariant (fun p _ r hI hs => ?_) hp h
  exact aloneStep_ensures (hstep p.1 p.2 hI) hs

theorem AloneIn.succ {prog : Program σ ℓ} {n : Nat} {p q r : ℓ × σ} (h : AloneIn prog n p q)
    (hs : aloneStep prog q () = some r) : AloneIn prog (n + 1) p r := by
  unfold AloneIn at h ⊢
  induction n generalizing p with
  | zero =>
    obtain rfl : p = q := Option.some.inj h
    exact run_cons_eq_some.mpr ⟨r, hs, rfl⟩
  | succ n ih =>
    obtain ⟨p', hp', hrest⟩ := run_cons_eq_some.mp h
    exact run_cons_eq_some.mpr ⟨p', hp', ih hrest⟩

/-! ## The condition -/

/-- `l` is the local state the call `l₀` reaches alone on `a`, in fewer than
`bound` statements. -/
def Current (prog : Program σ ℓ) (bound : Nat) (l₀ l : ℓ) (a : σ) : Prop :=
  ∃ n < bound, AloneIn prog n (l₀, a) (l, a)

/-- A statement that takes the lock, or ends with success a call that never took
it, finds what the call has read still current. -/
def StmtCurrent (prog : Program σ ℓ) (bound : Nat) (s : Sys σ ℓ) (i : Nat) (l₀ l : ℓ) :
    Stmt σ ℓ → Prop
  | .read _ => True
  | .update next =>
    s.holder.isNone = true → (next s.row).1.isSome = true → Current prog bound l₀ l s.row
  | .commit => s.owns i = false → Current prog bound l₀ l s.row
  | .rollback ok => ok = true → s.owns i = false → Current prog bound l₀ l s.row

/-- An exception ends the call as a failure, or finds it without the lock. -/
def ErrorReported (s : Sys σ ℓ) (i : Nat) : ℓ ⊕ Bool → Prop
  | .inl _ => s.owns i = false
  | .inr ok => ok = false

/-- `P` of a call that is running. -/
def Proc.WhileRunning (P : ℓ → Prop) : Proc ℓ → Prop
  | .running l => P l
  | .ended _ => True

/-- The step finds the call's reads current; an exception is reported. -/
def ReadsCurrent (prog : Program σ ℓ) (calls : List ℓ) (bound : Nat) (s : Sys σ ℓ) :
    Label → Prop
  | .step i => ∀ l₀ ∈ calls[i]?, ∀ p ∈ s.procs[i]?,
    p.WhileRunning fun l => StmtCurrent prog bound s i l₀ l (prog.stmt l)
  | .error i => ∀ p ∈ s.procs[i]?, p.WhileRunning fun l => ErrorReported s i (prog.onError l)
  | .lost _ => True

section
variable [DecidableEq σ] [DecidableEq ℓ]

instance (prog : Program σ ℓ) (n : Nat) (p q : ℓ × σ) : Decidable (AloneIn prog n p q) :=
  inferInstanceAs (Decidable (_ = _))

instance (prog : Program σ ℓ) (bound : Nat) (l₀ l : ℓ) (a : σ) :
    Decidable (Current prog bound l₀ l a) :=
  inferInstanceAs (Decidable (∃ n < bound, AloneIn prog n (l₀, a) (l, a)))

instance (prog : Program σ ℓ) (bound : Nat) (s : Sys σ ℓ) (i : Nat) (l₀ l : ℓ) :
    ∀ stmt, Decidable (StmtCurrent prog bound s i l₀ l stmt)
  | .read _ => inferInstanceAs (Decidable True)
  | .update _ => inferInstanceAs (Decidable (_ → _ → _))
  | .commit => inferInstanceAs (Decidable (_ → _))
  | .rollback _ => inferInstanceAs (Decidable (_ → _ → _))

instance (s : Sys σ ℓ) (i : Nat) : ∀ e, Decidable (ErrorReported s i e)
  | .inl _ => inferInstanceAs (Decidable (_ = _))
  | .inr _ => inferInstanceAs (Decidable (_ = _))

instance (P : ℓ → Prop) [DecidablePred P] : ∀ p : Proc ℓ, Decidable (p.WhileRunning P)
  | .running l => inferInstanceAs (Decidable (P l))
  | .ended _ => inferInstanceAs (Decidable True)

instance (prog : Program σ ℓ) (calls : List ℓ) (bound : Nat) (s : Sys σ ℓ) :
    ∀ a, Decidable (ReadsCurrent prog calls bound s a)
  | .step i => inferInstanceAs (Decidable (∀ l₀ ∈ calls[i]?, ∀ p ∈ s.procs[i]?, p.WhileRunning _))
  | .error i => inferInstanceAs (Decidable (∀ p ∈ s.procs[i]?, p.WhileRunning _))
  | .lost _ => inferInstanceAs (Decidable True)

end

/-! ## Serializability -/

/-- Everything committed is a serial run of the calls that ended with success,
and the lock holder is where it would be alone on the committed row. -/
structure Serializable (prog : Program σ ℓ) (calls : List ℓ) (a₀ : σ) (s : Sys σ ℓ) : Prop where
  length : s.procs.length = calls.length
  history : ∃ order : List Nat, order.Nodup ∧
    (∀ i, i ∈ order ↔ s.procs[i]? = some (.ended true)) ∧ Serial prog calls a₀ order s.row
  holder : ∀ i v, s.holder = some (i, v) → ∃ l₀ l n, calls[i]? = some l₀ ∧
    s.procs[i]? = some (.running l) ∧ AloneIn prog n (l₀, s.row) (l, v)

/-- No call has run a statement yet. -/
def initial (calls : List ℓ) (a : σ) : Sys σ ℓ where
  row := a
  procs := calls.map .running

theorem serializable_initial (prog : Program σ ℓ) (calls : List ℓ) (a : σ) :
    Serializable prog calls a (initial calls a) where
  length := by simp [initial]
  history := by
    refine ⟨[], List.nodup_nil, fun i => ?_, .nil a⟩
    simp [initial]
  holder := by
    intro i v h
    cases h

section
variable {prog : Program σ ℓ} {calls : List ℓ} {a₀ : σ} {s : Sys σ ℓ} {i : Nat} {l : ℓ}

theorem visible_of_owns {v : σ} (h : s.holder = some (i, v)) : s.visible i = v := by
  simp [Sys.visible, h]

theorem visible_of_not_owns (h : s.owns i = false) : s.visible i = s.row := by
  unfold Sys.owns at h
  unfold Sys.visible
  split at h
  next => rfl
  next => exact if_neg (by simpa using h)

theorem owns_iff : s.owns i = true ↔ ∃ v, s.holder = some (i, v) := by
  unfold Sys.owns
  cases h : s.holder with
  | none => simp
  | some p => simp [Prod.ext_iff, eq_comm]

theorem Serializable.call (h : Serializable prog calls a₀ s) (hp : s.procs[i]? = some (.running l)) :
    ∃ l₀, calls[i]? = some l₀ := by
  have hi : i < s.procs.length := (List.getElem?_eq_some_iff.mp hp).1
  rw [h.length] at hi
  exact ⟨calls[i], List.getElem?_eq_getElem hi⟩

/-- Where a lock holder is, alone. -/
theorem Serializable.alone (h : Serializable prog calls a₀ s)
    (hp : s.procs[i]? = some (.running l)) (ho : s.owns i = true) :
    ∃ l₀ n, calls[i]? = some l₀ ∧ AloneIn prog n (l₀, s.row) (l, s.visible i) := by
  obtain ⟨v, hv⟩ := owns_iff.mp ho
  obtain ⟨l₀, l', n, hl₀, hp', hn⟩ := h.holder i v hv
  obtain rfl : l' = l := by
    rw [hp] at hp'
    exact (Proc.running.inj (Option.some.inj hp')).symm
  exact ⟨l₀, n, hl₀, by rwa [visible_of_owns hv]⟩

/-- A running call moves on to `l'`, with the lock kept, taken or not there. -/
theorem Serializable.moved (h : Serializable prog calls a₀ s)
    (hp : s.procs[i]? = some (.running l)) {l' : ℓ} {holder : Option (Nat × σ)}
    (hown : ∀ v, holder = some (i, v) → ∃ l₀ n, calls[i]? = some l₀ ∧
      AloneIn prog n (l₀, s.row) (l', v))
    (hother : ∀ j v, j ≠ i → holder = some (j, v) → s.holder = some (j, v)) :
    Serializable prog calls a₀ { s.set i (.running l') with holder := holder } := by
  have hi : i < s.procs.length := (List.getElem?_eq_some_iff.mp hp).1
  refine ⟨by simpa [Sys.set] using h.length, ?_, ?_⟩
  · obtain ⟨order, hnodup, hmem, hserial⟩ := h.history
    refine ⟨order, hnodup, fun j => (hmem j).trans ?_, hserial⟩
    show _ ↔ (s.procs.set i (.running l'))[j]? = _
    by_cases hj : j = i
    · subst hj
      rw [hp, List.getElem?_set_self hi]
      simp
    · rw [List.getElem?_set_ne (Ne.symm hj)]
  · intro j v hv
    by_cases hj : j = i
    · subst hj
      obtain ⟨l₀, n, hl₀, hn⟩ := hown v hv
      exact ⟨l₀, l', n, hl₀, List.getElem?_set_self hi, hn⟩
    · obtain ⟨l₀, lj, n, hl₀, hpj, hn⟩ := h.holder j v (hother j v hj hv)
      exact ⟨l₀, lj, n, hl₀, (List.getElem?_set_ne (Ne.symm hj)).trans hpj, hn⟩

/-- A running call ends; with success its effect is appended. -/
theorem Serializable.ended (h : Serializable prog calls a₀ s)
    (hp : s.procs[i]? = some (.running l)) {ok : Bool} {b : σ}
    (hrow : s.owns i = true ∨ b = s.row)
    (hok : ok = true → ∃ l₀, calls[i]? = some l₀ ∧ Succeeds prog l₀ s.row b)
    (hfail : ok = false → b = s.row) :
    Serializable prog calls a₀ { s.finish i ok with row := b } := by
  have hi : i < s.procs.length := (List.getElem?_eq_some_iff.mp hp).1
  refine ⟨by simpa [Sys.finish] using h.length, ?_, ?_⟩
  · obtain ⟨order, hnodup, hmem, hserial⟩ := h.history
    have hnew : i ∉ order := by
      rw [hmem, hp]
      simp
    have hset : ∀ j, j ≠ i → (s.procs.set i (.ended ok))[j]? = s.procs[j]? :=
      fun j hj => List.getElem?_set_ne (Ne.symm hj)
    cases ok with
    | false =>
      refine ⟨order, hnodup, fun j => (hmem j).trans ?_, by rw [hfail rfl]; exact hserial⟩
      show _ ↔ (s.procs.set i (.ended false))[j]? = _
      by_cases hj : j = i
      · subst hj
        rw [hp, List.getElem?_set_self hi]
        simp
      · rw [hset j hj]
    | true =>
      obtain ⟨l₀, hl₀, hs⟩ := hok rfl
      refine ⟨order ++ [i], ?_, fun j => ?_, .snoc hserial hl₀ hs⟩
      · refine List.nodup_append.mpr ⟨hnodup, List.nodup_singleton i, fun j hj k hk hjk => ?_⟩
        rw [List.mem_singleton.mp hk] at hjk
        exact hnew (hjk ▸ hj)
      · show _ ↔ (s.procs.set i (.ended true))[j]? = _
        by_cases hj : j = i
        · subst hj
          rw [List.getElem?_set_self hi]
          simp
        · rw [hset j hj, ← hmem j]
          simp [hj]
  · intro j v hv
    have hheld : s.owns i = false ∧ s.holder = some (j, v) := by
      simp only [Sys.finish] at hv
      split at hv
      · cases hv
      next ho => exact ⟨by simpa using ho, hv⟩
    have hj : j ≠ i := by
      rintro rfl
      rw [owns_iff.mpr ⟨v, hheld.2⟩] at hheld
      cases hheld.1
    obtain ⟨l₀, lj, n, hl₀, hpj, hn⟩ := h.holder j v hheld.2
    rcases hrow with ho | rfl
    · rw [hheld.1] at ho
      cases ho
    · exact ⟨l₀, lj, n, hl₀, (List.getElem?_set_ne (Ne.symm hj)).trans hpj, hn⟩

theorem Serializable.read (h : Serializable prog calls a₀ s)
    (hp : s.procs[i]? = some (.running l)) {next : σ → ℓ} (hstmt : prog.stmt l = .read next) :
    Serializable prog calls a₀ (s.set i (.running (next (s.visible i)))) := by
  refine h.moved hp (fun v hv => ?_) (fun j v _ hv => hv)
  obtain ⟨l₀, n, hl₀, hn⟩ := h.alone hp (owns_iff.mpr ⟨v, hv⟩)
  rw [visible_of_owns hv] at hn ⊢
  exact ⟨l₀, n + 1, hl₀, hn.succ (by simp [aloneStep, hstmt])⟩

theorem Serializable.unmatched (h : Serializable prog calls a₀ s)
    (hp : s.procs[i]? = some (.running l)) {next : σ → Option σ × ℓ} {l' : ℓ}
    (hstmt : prog.stmt l = .update next) (hnext : next (s.visible i) = (none, l')) :
    Serializable prog calls a₀ (s.set i (.running l')) := by
  refine h.moved hp (fun v hv => ?_) (fun j v _ hv => hv)
  obtain ⟨l₀, n, hl₀, hn⟩ := h.alone hp (owns_iff.mpr ⟨v, hv⟩)
  rw [visible_of_owns hv] at hn hnext
  exact ⟨l₀, n + 1, hl₀, hn.succ (by simp [aloneStep, hstmt, hnext])⟩

/-- The one step that takes the lock: the call must be where it would be alone. -/
theorem Serializable.update (h : Serializable prog calls a₀ s) (bound : Nat)
    (hp : s.procs[i]? = some (.running l)) {next : σ → Option σ × ℓ} {v : σ} {l' : ℓ}
    (hstmt : prog.stmt l = .update next) (hnext : next (s.visible i) = (some v, l'))
    (hfree : s.owns i = true ∨ s.holder.isNone = true)
    (hcurrent : ∀ l₀, calls[i]? = some l₀ → s.holder.isNone = true →
      (next s.row).1.isSome = true → Current prog bound l₀ l s.row) :
    Serializable prog calls a₀ { s.set i (.running l') with holder := some (i, v) } := by
  refine h.moved hp (fun w hw => ?_) (fun j w hj hw => ?_)
  · obtain rfl : v = w := by simpa using hw
    rcases hfree with ho | hnone
    · obtain ⟨l₀, n, hl₀, hn⟩ := h.alone hp ho
      exact ⟨l₀, n + 1, hl₀, hn.succ (by simp [aloneStep, hstmt, hnext])⟩
    · obtain ⟨l₀, hl₀⟩ := h.call hp
      have hrow : s.visible i = s.row := by
        simp only [Sys.visible, Option.isNone_iff_eq_none.mp hnone]
      rw [hrow] at hnext
      obtain ⟨n, -, hn⟩ := hcurrent l₀ hl₀ hnone (by rw [hnext]; rfl)
      exact ⟨l₀, n + 1, hl₀, hn.succ (by simp [aloneStep, hstmt, hnext])⟩
  · simp only [Option.some.injEq, Prod.mk.injEq] at hw
    exact absurd hw.1.symm hj

/-- A call that ends with success has done alone what it leaves. -/
theorem Serializable.succeeds (h : Serializable prog calls a₀ s) (bound : Nat)
    (hp : s.procs[i]? = some (.running l))
    (hcurrent : ∀ l₀, calls[i]? = some l₀ → s.owns i = false → Current prog bound l₀ l s.row) :
    ∃ l₀ n, calls[i]? = some l₀ ∧ AloneIn prog n (l₀, s.row) (l, s.visible i) := by
  cases ho : s.owns i with
  | true => exact h.alone hp ho
  | false =>
    obtain ⟨l₀, hl₀⟩ := h.call hp
    obtain ⟨n, -, hn⟩ := hcurrent l₀ hl₀ ho
    exact ⟨l₀, n, hl₀, by rwa [visible_of_not_owns ho]⟩

end

/-- A step that finds its reads current keeps the run serializable. -/
theorem serializable_step {prog : Program σ ℓ} {calls : List ℓ} {bound : Nat} {a₀ : σ}
    (s : Sys σ ℓ) (a : Label) (s' : Sys σ ℓ) (h : Serializable prog calls a₀ s)
    (hok : ReadsCurrent prog calls bound s a) (hs : step prog s a = some s') :
    Serializable prog calls a₀ s' := by
  cases a with
  | step i =>
    cases hp : s.procs[i]? with
    | none => simp [step, hp] at hs
    | some p =>
      cases p with
      | ended ok => simp [step, hp] at hs
      | running l =>
        have hcond : ∀ l₀, calls[i]? = some l₀ → StmtCurrent prog bound s i l₀ l (prog.stmt l) :=
          fun l₀ hl₀ => hok l₀ hl₀ _ hp
        cases hstmt : prog.stmt l with
        | read next =>
          simp only [step, hp, hstmt, Option.some.injEq] at hs
          exact hs ▸ h.read hp hstmt
        | update next =>
          simp only [step, hp, hstmt, Option.ite_none_right_eq_some, Bool.or_eq_true] at hs
          obtain ⟨hfree, hs⟩ := hs
          rcases hnext : next (s.visible i) with ⟨_ | v, l'⟩
          · simp only [hnext, Option.some.injEq] at hs
            exact hs ▸ h.unmatched hp hstmt hnext
          · simp only [hnext, Option.some.injEq] at hs
            refine hs ▸ h.update bound hp hstmt hnext hfree fun l₀ hl₀ => ?_
            have := hcond l₀ hl₀
            rwa [hstmt] at this
        | commit =>
          simp only [step, hp, hstmt, Option.some.injEq] at hs
          obtain ⟨l₀, n, hl₀, hn⟩ := h.succeeds bound hp fun l₀ hl₀ => by
            have := hcond l₀ hl₀
            rwa [hstmt] at this
          refine hs ▸ h.ended hp ?_ (fun _ => ⟨l₀, hl₀, n, l, _, hn, .inl ⟨hstmt, rfl⟩⟩) (by simp)
          cases ho : s.owns i with
          | true => exact .inl rfl
          | false => exact .inr (visible_of_not_owns ho)
        | rollback ok =>
          simp only [step, hp, hstmt, Option.some.injEq] at hs
          refine hs ▸ h.ended hp (.inr rfl) (fun htrue => ?_) (fun _ => rfl)
          subst htrue
          obtain ⟨l₀, n, hl₀, hn⟩ := h.succeeds bound hp fun l₀ hl₀ => by
            have := hcond l₀ hl₀
            rw [hstmt] at this
            exact this rfl
          exact ⟨l₀, hl₀, n, l, _, hn, .inr ⟨hstmt, rfl⟩⟩
  | error i =>
    cases hp : s.procs[i]? with
    | none => simp [step, hp] at hs
    | some p =>
      cases p with
      | ended ok => simp [step, hp] at hs
      | running l =>
        have hok : ErrorReported s i (prog.onError l) := hok _ hp
        cases herr : prog.onError l with
        | inl l' =>
          simp only [step, hp, herr, Option.some.injEq] at hs
          have hfree : s.owns i = false := by rwa [herr] at hok
          refine hs ▸ h.moved hp (fun v hv => ?_) (fun j v _ hv => hv)
          rw [owns_iff.mpr ⟨v, hv⟩] at hfree
          cases hfree
        | inr ok =>
          simp only [step, hp, herr, Option.some.injEq] at hs
          have hfailed : ok = false := by rwa [herr] at hok
          refine hs ▸ h.ended hp (.inr rfl) (fun htrue => ?_) (fun _ => rfl)
          rw [htrue] at hfailed
          cases hfailed
  | lost i =>
    cases hp : s.procs[i]? with
    | none => simp [step, hp] at hs
    | some p =>
      cases p with
      | ended ok => simp [step, hp] at hs
      | running l =>
        simp only [step, hp, Option.some.injEq] at hs
        exact hs ▸ h.ended hp (.inr rfl) (by simp) (fun _ => rfl)

/-- **Serializability.**  A run whose steps all find their reads current commits
what a serial run of its successful calls commits. -/
theorem serializable_run {prog : Program σ ℓ} {calls : List ℓ} {bound : Nat} {a₀ : σ}
    {labels : List Label} {s : Sys σ ℓ}
    (hok : AllSteps (step prog) (ReadsCurrent prog calls bound) (initial calls a₀) labels)
    (hs : run (step prog) (initial calls a₀) labels = some s) : Serializable prog calls a₀ s :=
  run_invariant_of_allSteps serializable_step (serializable_initial prog calls a₀) hok hs

end ReadCommitted
