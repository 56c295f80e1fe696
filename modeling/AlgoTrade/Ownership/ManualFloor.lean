import Mathlib.Algebra.Order.BigOperators.Group.List
import AlgoTrade.Lib.Runs
import AlgoTrade.Ownership.ExitQuantity

/-! # Protected manual inventory is not sold

Each resolution leaves the protected quantity out of one picture of the account, and
knows nothing of the exits that are still in flight.

* `resolve_eq`: what a resolution comes to.
* `inv_resolves_iff`: there is room for all exits in flight after a resolution exactly
  when `RoomFor` held before it; every other step keeps it (`inv_of_step`).
* `floor_kept`: so the account stays at or above the protected quantity in every run
  whose resolutions all find room.
* `overlappingExits_breach`: two strategies that resolve before either is filled. -/

namespace AlgoTrade.Ownership

/-! ## What a resolution comes to -/

/-- What the strategy's ledger leaves of a request. -/
def ledgerCap (requestedAmount dbSize : ℚ) : ℚ := (capByLedger requestedAmount dbSize false).1

theorem ledgerCap_nonneg (requestedAmount dbSize : ℚ) : 0 ≤ ledgerCap requestedAmount dbSize := by
  unfold ledgerCap capByLedger
  dsimp only
  split
  next hdb =>
    split
    · exact hdb.le
    · split
      · exact hdb.le
      · exact le_max_left _ _
  next => exact le_rfl

theorem ledgerCap_le {requestedAmount dbSize : ℚ} (h : 0 ≤ dbSize) :
    ledgerCap requestedAmount dbSize ≤ dbSize := by
  unfold ledgerCap capByLedger
  dsimp only
  split
  next =>
    split
    · exact le_rfl
    · split
      · exact le_rfl
      · next hle => exact not_lt.mp hle
  next => exact h

theorem capByExchange_fst {exchSize : ℚ} (x : ℚ × CloseMeta) (h : 0 < exchSize) :
    (capByExchange false exchSize x).1 = min x.1 exchSize := by
  unfold capByExchange
  rw [if_pos h, if_neg fun hx => Bool.false_ne_true hx.2]
  split
  next hlt => exact (min_eq_right hlt.le).symm
  next hle => exact (min_eq_left (not_lt.mp hle)).symm

theorem capByExchange_fst_of_nonpos {exchSize : ℚ} (x : ℚ × CloseMeta) (h : exchSize ≤ 0) :
    (capByExchange false exchSize x).1 = x.1 := by
  unfold capByExchange
  rw [if_neg (not_lt.mpr h)]
  split
  · rfl
  · rfl

theorem capByProtected_fst (protectedQty exchSize : ℚ) (x : ℚ × CloseMeta) :
    (capByProtected protectedQty exchSize x).1 = min x.1 (max 0 (exchSize - protectedQty)) := by
  unfold capByProtected
  dsimp only
  split
  next hlt => exact (min_eq_right hlt.le).symm
  next hle => exact (min_eq_left (not_lt.mp hle)).symm

/-- On a protected leg the exchange's own cut makes no difference. -/
theorem resolveReduceOnlyQuantity_eq {requestedAmount dbSize exchSize : ℚ} {userId credentialId : ℕ}
    {row : Option Reservation} (hu : 0 < userId) (hc : 0 < credentialId) :
    (resolveReduceOnlyQuantity requestedAmount dbSize exchSize false userId credentialId row).1 =
      min (ledgerCap requestedAmount dbSize) (max 0 (exchSize - protectedQuantity row)) := by
  have hP := protectedQuantity_nonneg row
  unfold resolveReduceOnlyQuantity
  dsimp only
  rw [if_pos ⟨hu, hc⟩, capByProtected_fst]
  by_cases hx : 0 < exchSize
  · rw [capByExchange_fst _ hx, min_assoc, min_eq_right (max_le hx.le (sub_le_self exchSize hP))]
    rfl
  · rw [capByExchange_fst_of_nonpos _ (not_lt.mp hx)]
    rfl

namespace System

variable {s s' : System}

theorem floor_nonneg (s : System) : 0 ≤ s.floor := protectedQuantity_nonneg _

theorem resolve_eq (s : System) (strategyId : ℕ) (requestedAmount : ℚ) (answers : Bool) :
    (s.resolve strategyId requestedAmount answers).1 =
      min (ledgerCap requestedAmount (s.ledgerSize strategyId))
        (max 0 (s.exchangeSize answers - s.floor)) :=
  resolveReduceOnlyQuantity_eq s.leg.userId_pos s.leg.credentialId_pos

theorem resolve_nonneg (s : System) (strategyId : ℕ) (requestedAmount : ℚ) (answers : Bool) :
    0 ≤ (s.resolve strategyId requestedAmount answers).1 := by
  rw [resolve_eq]
  exact le_min (ledgerCap_nonneg _ _) (le_max_left _ _)

theorem resolve_le_ledgerSize (s : System) (strategyId : ℕ) (requestedAmount : ℚ) (answers : Bool) :
    (s.resolve strategyId requestedAmount answers).1 ≤ s.ledgerSize strategyId := by
  rw [resolve_eq]
  exact (min_le_left _ _).trans (ledgerCap_le (positionSize_nonneg _))

end System

/-! ## Room for the exits in flight -/

/-- Where the exchange answers, no exit is in flight, or the quantity above the floor
covers those in flight and all that the ledger allows to the new one. -/
def RoomFor (s : System) : Label → Prop
  | .resolves strategyId requestedAmount answers =>
    answers = false ∨ s.inFlight = 0 ∨
      s.floor + s.inFlight + ledgerCap requestedAmount (s.ledgerSize strategyId) ≤ s.account
  | _ => True

instance (s : System) (l : Label) : Decidable (RoomFor s l) := by
  unfold RoomFor
  split
  · infer_instance
  · exact instDecidableTrue

structure Exit.Ok (e : Exit) : Prop where
  quantity_nonneg : 0 ≤ e.quantity
  quantity_le : e.quantity ≤ e.ledgerSize
  filled_le : e.filled ≤ e.quantity

structure Inv (s : System) : Prop where
  room : s.floor + s.inFlight ≤ s.account
  exits : ∀ e ∈ s.exits, e.Ok

theorem Exit.Ok.remaining_nonneg {e : Exit} (h : e.Ok) : 0 ≤ e.remaining := by
  unfold Exit.remaining
  split
  · exact le_rfl
  · exact sub_nonneg.mpr h.filled_le

namespace Inv

variable {s s' : System}

theorem inFlight_nonneg (h : Inv s) : 0 ≤ s.inFlight := by
  refine List.sum_nonneg fun x hx => ?_
  obtain ⟨e, he, rfl⟩ := List.mem_map.mp hx
  exact (h.exits e he).remaining_nonneg

theorem floor_le_account (h : Inv s) : s.floor ≤ s.account := by
  have := h.room
  have := h.inFlight_nonneg
  linarith

end Inv

section steps

variable {s s' : System}

theorem inFlight_set {l : List Exit} {k : ℕ} {e : Exit} (he : l[k]? = some e) (e' : Exit) :
    ((l.set k e').map Exit.remaining).sum =
      (l.map Exit.remaining).sum - e.remaining + e'.remaining :=
  List.sum_map_set he e' Exit.remaining

/-- An exit that moves along keeps the others. -/
theorem Inv.set {k : ℕ} {e x : Exit} (h : Inv s) (he : s.exits[k]? = some e) (hok : x.Ok)
    (hfloor : s'.reservation = s.reservation) (hexits : s'.exits = s.exits.set k x)
    (hroom : s.account - s'.account ≤ e.remaining - x.remaining) : Inv s' where
  room := by
    have hP : s'.floor = s.floor := congrArg protectedQuantity hfloor
    have hF : s'.inFlight = s.inFlight - e.remaining + x.remaining := by
      unfold System.inFlight
      rw [hexits, inFlight_set he]
    have := h.room
    rw [hP, hF]
    linarith
  exits := by
    intro y hy
    rw [hexits] at hy
    rcases List.mem_or_eq_of_mem_set hy with hy | rfl
    · exact h.exits y hy
    · exact hok

/-- A resolution keeps the invariant when its quantity still fits above the floor. -/
theorem inv_resolves_iff_fits {strategyId : ℕ} {requestedAmount : ℚ} {answers : Bool} (h : Inv s)
    (hs : step s (.resolves strategyId requestedAmount answers) = some s') :
    Inv s' ↔
      s.floor + s.inFlight + (s.resolve strategyId requestedAmount answers).1 ≤ s.account := by
  obtain rfl := Option.some.inj hs
  constructor
  · intro h'
    have := h'.room
    simpa [System.inFlight, System.floor, Exit.remaining, add_assoc] using this
  · intro hle
    refine ⟨?_, fun e he => ?_⟩
    · simpa [System.inFlight, System.floor, Exit.remaining, add_assoc] using hle
    · rcases List.mem_append.mp he with he | he
      · exact h.exits e he
      · obtain rfl := List.mem_singleton.mp he
        have hnonneg := s.resolve_nonneg strategyId requestedAmount answers
        exact ⟨hnonneg, s.resolve_le_ledgerSize strategyId requestedAmount answers, hnonneg⟩

/-- Without an answer from the exchange nothing is resolved. -/
theorem System.resolve_unanswered (s : System) (strategyId : ℕ) (requestedAmount : ℚ) :
    (s.resolve strategyId requestedAmount false).1 = 0 := by
  have hle : s.exchangeSize false - s.floor ≤ 0 := by
    show 0 - s.floor ≤ 0
    linarith [s.floor_nonneg]
  rw [System.resolve_eq, max_eq_left hle, min_eq_right (ledgerCap_nonneg _ _)]

theorem Inv.resolve_answered (h : Inv s) (strategyId : ℕ) (requestedAmount : ℚ) :
    (s.resolve strategyId requestedAmount true).1 =
      min (ledgerCap requestedAmount (s.ledgerSize strategyId)) (s.account - s.floor) := by
  have hx : s.exchangeSize true = s.account := max_eq_right (s.floor_nonneg.trans h.floor_le_account)
  rw [System.resolve_eq, hx, max_eq_right (sub_nonneg.mpr h.floor_le_account)]

/-- **What a resolution does to the room.** -/
theorem inv_resolves_iff {strategyId : ℕ} {requestedAmount : ℚ} {answers : Bool} (h : Inv s)
    (hs : step s (.resolves strategyId requestedAmount answers) = some s') :
    Inv s' ↔ RoomFor s (.resolves strategyId requestedAmount answers) := by
  rw [inv_resolves_iff_fits h hs]
  have hroom := h.room
  have hF := h.inFlight_nonneg
  cases answers with
  | false =>
    rw [s.resolve_unanswered, add_zero]
    exact ⟨fun _ => .inl rfl, fun _ => hroom⟩
  | true =>
    rw [h.resolve_answered]
    constructor
    · intro hle
      rcases min_choice (ledgerCap requestedAmount (s.ledgerSize strategyId)) (s.account - s.floor)
        with hmin | hmin
      · exact .inr (.inr (hmin ▸ hle))
      · rw [hmin] at hle
        exact .inr (.inl (by linarith))
    · rintro (hfalse | hzero | hle)
      · cases hfalse
      · have := min_le_right (ledgerCap requestedAmount (s.ledgerSize strategyId))
          (s.account - s.floor)
        linarith
      · have := min_le_left (ledgerCap requestedAmount (s.ledgerSize strategyId))
          (s.account - s.floor)
        linarith

/-- **One step.**  Where a resolution finds room, so do all exits in flight after it. -/
theorem inv_of_step {l : Label} (h : Inv s) (hr : RoomFor s l) (hs : step s l = some s') :
    Inv s' := by
  cases l with
  | resolves strategyId requestedAmount answers => exact (inv_resolves_iff h hs).mpr hr
  | submits k =>
    obtain ⟨e, he, hs⟩ := Option.bind_eq_some_iff.mp hs
    obtain ⟨⟨hst, -⟩, rfl⟩ := Option.ite_none_right_eq_some.mp hs |>.imp_right Option.some.inj
    have hok := h.exits e (List.mem_of_getElem? he)
    refine h.set he (x := { e with stage := .submitted })
      ⟨hok.quantity_nonneg, hok.quantity_le, hok.filled_le⟩ rfl rfl ?_
    simp [Exit.remaining, hst]
  | fills k quantity =>
    obtain ⟨e, he, hs⟩ := Option.bind_eq_some_iff.mp hs
    obtain ⟨⟨hst, -, hle⟩, rfl⟩ := Option.ite_none_right_eq_some.mp hs |>.imp_right Option.some.inj
    have hok := h.exits e (List.mem_of_getElem? he)
    refine h.set he (x := { e with filled := e.filled + quantity })
      ⟨hok.quantity_nonneg, hok.quantity_le, by dsimp only; linarith⟩ rfl rfl ?_
    simp only [Exit.remaining, hst, reduceCtorEq, if_false]
    linarith
  | ends k =>
    obtain ⟨e, he, hs⟩ := Option.bind_eq_some_iff.mp hs
    obtain ⟨-, rfl⟩ := Option.ite_none_right_eq_some.mp hs |>.imp_right Option.some.inj
    have hok := h.exits e (List.mem_of_getElem? he)
    refine h.set he (x := { e with stage := .ended })
      ⟨hok.quantity_nonneg, hok.quantity_le, hok.filled_le⟩ rfl rfl ?_
    have hzero : ({ e with stage := .ended } : Exit).remaining = 0 := rfl
    rw [hzero, sub_self, sub_zero]
    exact hok.remaining_nonneg
  | books k signal quantity price =>
    obtain ⟨e, he, hs⟩ := Option.bind_eq_some_iff.mp hs
    obtain ⟨-, rfl⟩ := Option.ite_none_right_eq_some.mp hs |>.imp_right Option.some.inj
    have hok := h.exits e (List.mem_of_getElem? he)
    refine h.set he (x := { e with booked := e.booked + quantity })
      ⟨hok.quantity_nonneg, hok.quantity_le, hok.filled_le⟩ rfl rfl ?_
    show s.account - s.account ≤ e.remaining - e.remaining
    rw [sub_self, sub_self]

end steps

/-! ## Main results -/

/-- **The floor holds.**  In every run whose resolutions all find room, the account
stays at or above the protected quantity, and every resolved quantity is between zero
and the ledger of its strategy at that time. -/
theorem floor_kept {s t : System} {labels : List Label} (hexits : s.exits = [])
    (hstart : s.floor ≤ s.account) (hroom : Runs.AllSteps step RoomFor s labels)
    (hrun : Runs.run step s labels = some t) :
    t.floor ≤ t.account ∧
      ∀ e ∈ t.exits, 0 ≤ e.quantity ∧ e.quantity ≤ e.ledgerSize := by
  have hs : Inv s := by
    refine ⟨?_, fun e he => ?_⟩
    · simpa [System.inFlight, hexits] using hstart
    · rw [hexits] at he
      cases he
  have ht : Inv t := Runs.run_invariant_of_allSteps (fun _ _ _ => inv_of_step) hs hroom hrun
  exact ⟨ht.floor_le_account, fun e he =>
    ⟨(ht.exits e he).quantity_nonneg, (ht.exits e he).quantity_le⟩⟩

/-- Ten on the account, five of them protected. -/
def tenWithFiveProtected : System where
  leg := ⟨1, 1, one_pos, one_pos⟩
  account := 10
  reservation := some { coexistenceMode := .advanced, manualReservedQty := 5 }
  rows := ⟨[(1, ⟨5, 100, 100, 100⟩), (2, ⟨5, 100, 100, 100⟩)]⟩

/-- The second strategy resolves after the first exit is filled. -/
def oneAfterTheOther : List Label :=
  [.resolves 1 5 true, .submits 0, .fills 0 3, .fills 0 2, .books 0 .closeLong 5 100,
    .resolves 2 5 true, .ends 1]

theorem floor_kept_oneAfterTheOther :
    ∃ t, Runs.run step tenWithFiveProtected oneAfterTheOther = some t ∧
      t.floor ≤ t.account ∧ ∀ e ∈ t.exits, 0 ≤ e.quantity ∧ e.quantity ≤ e.ledgerSize := by
  obtain ⟨t, ht⟩ := Option.isSome_iff_exists.mp
    (show (Runs.run step tenWithFiveProtected oneAfterTheOther).isSome by decide +kernel)
  exact ⟨t, ht, floor_kept rfl (by decide +kernel) (by decide +kernel) ht⟩

/-- Both resolve before either is filled, and the protected five are sold. -/
theorem overlappingExits_breach :
    tenWithFiveProtected.exits = [] ∧ tenWithFiveProtected.floor ≤ tenWithFiveProtected.account ∧
      ∃ t, Runs.run step tenWithFiveProtected
          [.resolves 1 5 true, .resolves 2 5 true, .submits 0, .submits 1, .fills 0 5,
            .fills 1 5] = some t ∧
        t.account < t.floor :=
  ⟨rfl, by decide +kernel, Runs.exists_of_any (by decide +kernel)⟩

end AlgoTrade.Ownership
