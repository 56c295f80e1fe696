import AlgoTrade.Community.PurchaseSteps
import AlgoTrade.Lib.Lists
import AlgoTrade.Lib.Runs

/-! # Conservation of credits across purchases

Any number of purchases and consumptions of any users run interleaved.

* `Market.Settled`: every statement is settled, and no call fails once its script
  template is delivered.
* `Inv.apply`: what one statement of one call preserves then.
* `conserved_of_settled`: every run of settled steps conserves the credits.
* `concurrentSales_lost`: two sales of one seller at once. -/

namespace AlgoTrade.Marketplace

open Runs

/-! ## What is claimed -/

namespace Db

/-- Deliveries of an asset to a buyer. -/
def deliveries (db : Db) (key : ℕ × ℕ) : ℕ :=
  (db.copies.countP fun c => c.key = key) + db.scriptSources.countP fun c => c.key = key

def total (db : Db) : ℚ := (db.users.values.map Account.credits).sum

/-- The tables as they are found: no negative balance, every purchase recorded
once, and nothing delivered twice or without a purchase. -/
structure WellFormed (db : Db) : Prop where
  users : db.users.keys.Nodup
  nonneg : ∀ user a, db.users.get? user = some a → 0 ≤ a.credits
  purchases : (db.purchases.map Purchase.key).Nodup
  deliveries : ∀ key, db.deliveries key ≤ 1
  delivered : ∀ key, 0 < db.deliveries key → key ∈ db.purchases.map Purchase.key

end Db

/-- Every purchase is one of the successful calls' and the only one of its buyer
and asset; nothing is delivered twice; the balances are what the successful calls
make of the first ones. -/
structure Conserved (s₀ s : Market) : Prop where
  charged : s.db.purchases.Perm (s₀.db.purchases ++ s.procs.filterMap Proc.purchase?)
  chargedOnce : (s.db.purchases.map Purchase.key).Nodup
  deliveredOnce : ∀ key, s.db.deliveries key ≤ 1
  users : s.db.users.keys = s₀.db.users.keys
  balances : ∀ user a₀, s₀.db.users.get? user = some a₀ → ∃ a, s.db.users.get? user = some a ∧
    a.credits = a₀.credits + (s.procs.map (Proc.change user)).sum
  nonneg : ∀ user a, s.db.users.get? user = some a → 0 ≤ a.credits
  total : s.db.total = s₀.db.total - (s.procs.map Proc.cost).sum

/-! ## The condition -/

/-- The step's statement is settled; a call does not fail once its script template
is delivered. -/
def Market.Settled (cfg : MarketConfig) (s : Market) : MarketLabel → Bool
  | .step i =>
    match s.procs[i]? with
    | some (.running t) => t.Settled cfg s.db
    | _ => true
  | .error i | .lost i =>
    match s.procs[i]? with
    | some (.running t) => t.delivered = none
    | _ => true

/-! ## The invariant -/

/-- Locks and inserted keys are exclusive, every running call is `Tx.Ok`, and a
delivery without a recorded purchase is a running call's. -/
structure Inv (s₀ s : Market) : Prop where
  users : s.db.users.keys = s₀.db.users.keys
  nonneg : ∀ user a, s.db.users.get? user = some a → 0 ≤ a.credits
  balances : ∀ user a₀, s₀.db.users.get? user = some a₀ → ∃ a, s.db.users.get? user = some a ∧
    a.credits = a₀.credits + (s.procs.map (Proc.change user)).sum
  ok : ∀ (i : ℕ) (t : Tx), s.procs[i]? = some (.running t) → t.Ok s.db
  locks : ∀ (i j : ℕ) (t u : Tx), s.procs[i]? = some (.running t) →
    s.procs[j]? = some (.running u) → i ≠ j → ∀ user, (t.rows.get? user).isSome = true → u.rows.get? user = none
  inserts : ∀ (i j : ℕ) (t u : Tx) (p q : Purchase), s.procs[i]? = some (.running t) →
    s.procs[j]? = some (.running u) → t.pending = some p → u.pending = some q → p.key = q.key → i = j
  results : ∀ (i : ℕ) (r : Result), s.procs[i]? = some (.ended r) → r.Ok s₀.db.users.keys
  charged : s.db.purchases.Perm (s₀.db.purchases ++ s.procs.filterMap Proc.purchase?)
  chargedOnce : (s.db.purchases.map Purchase.key).Nodup
  deliveredOnce : ∀ key, s.db.deliveries key ≤ 1
  delivered : ∀ key, 0 < s.db.deliveries key → key ∈ s.db.purchases.map Purchase.key ∨
    ∃ (i : ℕ) (t : Tx), s.procs[i]? = some (.running t) ∧ t.delivered = some key

theorem Tx.pending_of_delivered {t : Tx} {key : ℕ × ℕ} (h : t.delivered = some key) :
    ∃ p, t.pending = some p ∧ p.key = key := by
  unfold Tx.delivered at h
  unfold Tx.pending
  split at h
  next sale hphase =>
    rw [Option.ite_none_right_eq_some] at h
    exact ⟨sale.purchase, by rw [hphase], Option.some.inj h.2⟩
  next sale hphase =>
    rw [Option.ite_none_right_eq_some] at h
    exact ⟨sale.purchase, by rw [hphase], Option.some.inj h.2⟩
  next => cases h

theorem noOther_iff {s : Market} {i : ℕ} {p : Tx → Bool} : s.noOther i p = true ↔
    ∀ (j : ℕ) (u : Tx), s.procs[j]? = some (.running u) → j ≠ i → p u = false := by
  unfold Market.noOther
  rw [List.all_eq_true]
  constructor
  · intro h j u hu hne
    have hj := h j (List.mem_range.mpr (List.getElem?_eq_some_iff.mp hu).1)
    rw [decide_eq_false hne, Bool.false_or, hu] at hj
    simpa using hj
  · intro h j _
    by_cases hji : j = i
    · rw [decide_eq_true hji, Bool.true_or]
    · split
      next u hu => rw [h j u hu hji, Bool.not_false, Bool.or_true]
      next => rw [Bool.or_true]

section
variable {s₀ s : Market} {i : ℕ} {t t' : Tx}

/-- A running call goes on; what it locks or inserts now, no other call has. -/
theorem Inv.moves (h : Inv s₀ s) (ht : s.procs[i]? = some (.running t)) (hok : t'.Ok s.db)
    (hlocks : ∀ user, (t'.rows.get? user).isSome = true → (t.rows.get? user).isSome = true ∨
      ∀ (j : ℕ) (u : Tx), s.procs[j]? = some (.running u) → j ≠ i → u.rows.get? user = none)
    (hinserts : ∀ p, t'.pending = some p → t.pending = some p ∨
      ∀ (j : ℕ) (u : Tx), s.procs[j]? = some (.running u) → j ≠ i →
        ∀ q, u.pending = some q → q.key ≠ p.key)
    (hdelivered : ∀ key, t.delivered = some key → t'.delivered = some key) :
    Inv s₀ (s.set i (.running t')) := by
  have hrunning : ∀ (j : ℕ) (u : Tx), (s.procs.set i (.running t'))[j]? = some (.running u) →
      j = i ∧ u = t' ∨ j ≠ i ∧ s.procs[j]? = some (.running u) := by
    intro j u hu
    rcases List.getElem?_set_cases hu with ⟨hji, heq⟩ | hj
    · exact .inl ⟨hji, Proc.running.inj heq⟩
    · exact .inr hj
  have hfree : ∀ (j : ℕ) (u : Tx), s.procs[j]? = some (.running u) → j ≠ i → ∀ user,
      (t'.rows.get? user).isSome = true → u.rows.get? user = none := by
    intro j u hu hne user hlocked
    rcases hlocks user hlocked with hold | hnone
    · exact h.locks i j t u ht hu (Ne.symm hne) user hold
    · exact hnone j u hu hne
  have hkeys : ∀ (j : ℕ) (u : Tx), s.procs[j]? = some (.running u) → j ≠ i → ∀ p q, t'.pending = some p →
      u.pending = some q → q.key ≠ p.key := by
    intro j u hu hne p q hp hq hkey
    rcases hinserts p hp with hold | hnone
    · exact hne (h.inserts j i u t q p hu ht hq hold hkey)
    · exact hnone j u hu hne q hq hkey
  refine ⟨h.users, h.nonneg, fun user a₀ ha₀ => ?_, fun j u hu => ?_, ?_, ?_, fun j r hr => ?_, ?_,
    h.chargedOnce, h.deliveredOnce, fun key hkey => ?_⟩
  · obtain ⟨a, ha, hcredits⟩ := h.balances user a₀ ha₀
    refine ⟨a, ha, hcredits.trans ?_⟩
    rw [Market.set, List.sum_map_set ht]
    simp [Proc.change]
  · rcases hrunning j u hu with ⟨rfl, rfl⟩ | ⟨-, hu⟩
    · exact hok
    · exact h.ok j u hu
  · intro j k u v hu hv hne user hlocked
    rcases hrunning j u hu with ⟨rfl, rfl⟩ | ⟨hj, hu'⟩
    · rcases hrunning k v hv with ⟨rfl, -⟩ | ⟨hk, hv'⟩
      · exact absurd rfl hne
      · exact hfree k v hv' hk user hlocked
    · rcases hrunning k v hv with ⟨rfl, rfl⟩ | ⟨hk, hv'⟩
      · cases hnew : v.rows.get? user with
        | none => rfl
        | some a =>
          rw [hfree j u hu' hj user (by rw [hnew]; rfl)] at hlocked
          cases hlocked
      · exact h.locks j k u v hu' hv' hne user hlocked
  · intro j k u v p q hu hv hp hq hkey
    rcases hrunning j u hu with ⟨rfl, rfl⟩ | ⟨hj, hu'⟩
    · rcases hrunning k v hv with ⟨rfl, -⟩ | ⟨hk, hv'⟩
      · rfl
      · exact absurd hkey.symm (hkeys k v hv' hk p q hp hq)
    · rcases hrunning k v hv with ⟨rfl, rfl⟩ | ⟨hk, hv'⟩
      · exact absurd hkey (hkeys j u hu' hj q p hq hp)
      · exact h.inserts j k u v p q hu' hv' hp hq hkey
  · rcases List.getElem?_set_cases hr with ⟨-, heq⟩ | ⟨-, hr⟩
    · cases heq
    · exact h.results j r hr
  · show s.db.purchases.Perm (s₀.db.purchases ++ (s.procs.set i _).filterMap Proc.purchase?)
    rw [List.filterMap_set_of_none ht rfl rfl]
    exact h.charged
  · rcases h.delivered key hkey with hmem | ⟨j, u, hu, hudelivered⟩
    · exact .inl hmem
    · right
      by_cases hji : j = i
      · subst hji
        obtain rfl := Proc.running.inj (Option.some.inj (hu.symm.trans ht))
        exact ⟨j, t', List.getElem?_set_self (List.getElem?_eq_some_iff.mp ht).1,
          hdelivered key hudelivered⟩
      · exact ⟨j, u, (List.getElem?_set_ne (Ne.symm hji)).trans hu, hudelivered⟩

/-- What a call is about to deliver has not been delivered. -/
theorem Inv.undelivered (h : Inv s₀ s) (ht : s.procs[i]? = some (.running t)) {p : Purchase}
    (hp : t.pending = some p) (hnone : t.delivered = none) : s.db.deliveries p.key = 0 := by
  refine Nat.eq_zero_of_not_pos fun hpos => ?_
  rcases h.delivered p.key hpos with hmem | ⟨j, u, hu, hudelivered⟩
  · exact (h.ok i t ht).unrecorded p hp hmem
  · obtain ⟨q, hq, hkey⟩ := Tx.pending_of_delivered hudelivered
    obtain rfl := h.inserts i j t u p q ht hu hp hq hkey.symm
    obtain rfl := Proc.running.inj (Option.some.inj (ht.symm.trans hu))
    rw [hnone] at hudelivered
    cases hudelivered

/-- A script template is delivered beside the call's transaction. -/
theorem Inv.delivers (h : Inv s₀ s) (ht : s.procs[i]? = some (.running t)) {source : ScriptSource}
    (hzero : s.db.deliveries source.key = 0) (hdelivered : t.delivered = some source.key) :
    Inv s₀ { s with db := { s.db with scriptSources := s.db.scriptSources ++ [source] } } := by
  have hcount : ∀ key, ({ s.db with scriptSources := s.db.scriptSources ++ [source] } : Db).deliveries
      key = s.db.deliveries key + if source.key = key then 1 else 0 := by
    intro key
    simp only [Db.deliveries, List.countP_append, List.countP_singleton, decide_eq_true_eq]
    rw [Nat.add_assoc]
  refine ⟨h.users, h.nonneg, h.balances, fun j u hu => ?_, h.locks, h.inserts, h.results, h.charged,
    h.chargedOnce, fun key => ?_, fun key hkey => ?_⟩
  · have hok := h.ok j u hu
    exact ⟨hok.shape, hok.keys, hok.rows, hok.rest, hok.unrecorded, hok.known⟩
  · rw [hcount]
    split
    next heq => rw [← heq, hzero]
    next => exact h.deliveredOnce key
  · rw [hcount] at hkey
    split at hkey
    next heq => exact .inr ⟨i, t, ht, heq ▸ hdelivered⟩
    next => exact h.delivered key hkey

/-- A call ends, or ends one of its transactions: what it had locked is written, and
what it had inserted is recorded, or nothing is. -/
theorem Inv.leaves (h : Inv s₀ s) (ht : s.procs[i]? = some (.running t)) {db' : Db} {p' : Proc}
    (hnext : ∀ t', p' = .running t' → t'.Idle)
    (hresult : ∀ r, p' = .ended r → r.Ok s₀.db.users.keys)
    (hkeys : db'.users.keys = s.db.users.keys)
    (hwritten : ∀ user a₀, s.db.users.get? user = some a₀ → ∃ a, db'.users.get? user = some a ∧
      0 ≤ a.credits ∧ a.credits = a₀.credits + p'.change user)
    (hothers : ∀ user, t.rows.get? user = none → db'.users.get? user = s.db.users.get? user)
    (hpurchases : db'.purchases = s.db.purchases ++ p'.purchase?.toList)
    (hpending : ∀ p, p'.purchase? = some p → t.pending = some p)
    (hdeliveries : ∀ key, db'.deliveries key = s.db.deliveries key ∨
      db'.deliveries key = s.db.deliveries key + 1 ∧ t.delivered = none ∧
        ∃ p, p'.purchase? = some p ∧ p.key = key)
    (hdelivered : ∀ key, t.delivered = some key → ∃ p, p'.purchase? = some p ∧ p.key = key) :
    Inv s₀ ⟨db', s.procs.set i p'⟩ := by
  have hrecorded : ∀ p, p'.purchase? = some p → p.key ∈ db'.purchases.map Purchase.key := by
    intro p hp
    rw [hpurchases, hp]
    exact List.mem_map_of_mem (List.mem_append_right _ (List.mem_singleton_self p))
  have hnone : ∀ user, db'.users.get? user = none ↔ s.db.users.get? user = none := by
    intro user
    rw [Dict.get?_eq_none_iff, Dict.get?_eq_none_iff, hkeys]
  have hrunning : ∀ (j : ℕ) (u : Tx), (s.procs.set i p')[j]? = some (.running u) →
      u.Idle ∨ j ≠ i ∧ s.procs[j]? = some (.running u) := by
    intro j u hu
    rcases List.getElem?_set_cases hu with ⟨-, heq⟩ | hj
    · exact .inl (hnext u heq.symm)
    · exact .inr hj
  refine ⟨hkeys.trans h.users, fun user a ha => ?_, fun user a₀ ha₀ => ?_, fun j u hu => ?_, ?_, ?_,
    fun j r hr => ?_, ?_, ?_, fun key => ?_, fun key hkey => ?_⟩
  · cases hold : s.db.users.get? user with
    | none =>
      rw [(hnone user).mpr hold] at ha
      cases ha
    | some a₀ =>
      obtain ⟨b, hb, hpos, -⟩ := hwritten user a₀ hold
      obtain rfl := Option.some.inj (hb.symm.trans ha)
      exact hpos
  · obtain ⟨b, hb, hcredits⟩ := h.balances user a₀ ha₀
    obtain ⟨a, ha, -, hnew⟩ := hwritten user b hb
    refine ⟨a, ha, ?_⟩
    rw [hnew, hcredits, List.sum_map_set ht]
    simp [Proc.change]
    ring
  · rcases hrunning j u hu with hidle | ⟨hj, hu'⟩
    · exact hidle.ok db'
    · have hok := h.ok j u hu'
      refine ⟨hok.shape, hok.keys, fun user a ha => ?_, hok.rest, fun p hp => ?_, fun p hp => ?_⟩
      · rw [hothers user (h.locks j i u t hu' ht hj user (by rw [ha]; rfl))]
        exact hok.rows user a ha
      · rw [hpurchases, List.map_append, List.mem_append]
        rintro (hmem | hmem)
        · exact hok.unrecorded p hp hmem
        · obtain ⟨q, hq, hkey⟩ := List.mem_map.mp hmem
          exact hj (h.inserts j i u t p q hu' ht hp (hpending q (Option.mem_toList.mp hq)) hkey.symm)
      · rw [Ne, Ne, hnone, hnone]
        exact hok.known p hp
  · intro j k u v hu hv hne user hlocked
    rcases hrunning j u hu with hidle | ⟨hj, hu'⟩
    · rw [hidle.rows] at hlocked
      cases hlocked
    · rcases hrunning k v hv with hidle | ⟨hk, hv'⟩
      · rw [hidle.rows]
        rfl
      · exact h.locks j k u v hu' hv' hne user hlocked
  · intro j k u v p q hu hv hp hq hkey
    rcases hrunning j u hu with hidle | ⟨hj, hu'⟩
    · rw [hidle.pending] at hp
      cases hp
    · rcases hrunning k v hv with hidle | ⟨hk, hv'⟩
      · rw [hidle.pending] at hq
        cases hq
      · exact h.inserts j k u v p q hu' hv' hp hq hkey
  · rcases List.getElem?_set_cases hr with ⟨-, heq⟩ | ⟨-, hr'⟩
    · exact hresult r heq.symm
    · exact h.results j r hr'
  · show db'.purchases.Perm (s₀.db.purchases ++ (s.procs.set i p').filterMap Proc.purchase?)
    rw [hpurchases]
    cases hp : p'.purchase? with
    | none =>
      rw [List.filterMap_set_of_none ht rfl hp, Option.toList_none, List.append_nil]
      exact h.charged
    | some p =>
      refine (h.charged.append_right _).trans ?_
      rw [List.append_assoc]
      exact (List.filterMap_set_perm ht rfl hp).symm.append_left _
  · show (db'.purchases.map Purchase.key).Nodup
    rw [hpurchases]
    cases hp : p'.purchase? with
    | none =>
      rw [Option.toList_none, List.append_nil]
      exact h.chargedOnce
    | some p =>
      rw [Option.toList_some, List.map_append]
      refine List.nodup_append.mpr ⟨h.chargedOnce, List.nodup_singleton _, fun a ha b hb hab => ?_⟩
      rw [List.map_singleton, List.mem_singleton] at hb
      exact (h.ok i t ht).unrecorded p (hpending p hp) (hb ▸ hab ▸ ha)
  · rcases hdeliveries key with heq | ⟨heq, hnotyet, p, hp, rfl⟩
    · rw [heq]
      exact h.deliveredOnce key
    · rw [heq, h.undelivered ht (hpending p hp) hnotyet]
  · rcases hdeliveries key with heq | ⟨heq, -, p, hp, rfl⟩
    · rw [heq] at hkey
      rcases h.delivered key hkey with hmem | ⟨j, u, hu, hudelivered⟩
      · left
        show key ∈ db'.purchases.map Purchase.key
        rw [hpurchases, List.map_append]
        exact List.mem_append_left _ hmem
      · by_cases hji : j = i
        · subst hji
          obtain rfl := Proc.running.inj (Option.some.inj (ht.symm.trans hu))
          obtain ⟨p, hp, rfl⟩ := hdelivered key hudelivered
          exact .inl (hrecorded p hp)
        · exact .inr ⟨j, u, (List.getElem?_set_ne (Ne.symm hji)).trans hu, hudelivered⟩
    · exact .inl (hrecorded p hp)

/-! ## Steps -/

/-- The call fails, or has nothing to pay. -/
theorem Inv.ends (h : Inv s₀ s) (ht : s.procs[i]? = some (.running t)) {r : Result}
    (hk : (Advance.ends r).Keeps s.db t) : Inv s₀ (s.set i (.ended r)) := by
  obtain ⟨hchange, hpurchase, hresult, hdelivered⟩ := hk
  refine h.leaves ht (fun _ heq => by cases heq) (fun r' heq => ?_) rfl (fun user a₀ ha₀ => ?_)
    (fun _ _ => rfl) ?_ (fun p hp => ?_) (fun _ => .inl rfl) (fun key hkey => ?_)
  · obtain rfl := Proc.ended.inj heq
    rw [← h.users]
    exact hresult
  · refine ⟨a₀, ha₀, h.nonneg user a₀ ha₀, ?_⟩
    rw [Proc.change, hchange, add_zero]
  · rw [hpurchase, Option.toList_none, List.append_nil]
  · rw [hpurchase] at hp
    cases hp
  · rw [hdelivered] at hkey
    cases hkey

/-- What a commit writes over the users' rows. -/
theorem Tx.Ok.written {db : Db} (h : t.Ok db)
    (hnonneg : ∀ user a, db.users.get? user = some a → 0 ≤ a.credits) {user : ℕ} {a₀ : Account}
    (ha₀ : db.users.get? user = some a₀) : ∃ a, (db.users.update t.rows).get? user = some a ∧
      0 ≤ a.credits ∧ a.credits = a₀.credits + t.change user := by
  rw [Dict.get?_update h.keys]
  cases hrow : t.rows.get? user with
  | some a =>
    obtain ⟨hpos, b, hb, hcredits⟩ := h.rows user a hrow
    obtain rfl := Option.some.inj (hb.symm.trans ha₀)
    exact ⟨a, rfl, hpos, hcredits⟩
  | none =>
    refine ⟨a₀, ha₀, hnonneg user a₀ ha₀, ?_⟩
    rw [h.rest user hrow, add_zero]

theorem Tx.Ok.keys_update {db : Db} (h : t.Ok db) : (db.users.update t.rows).keys = db.users.keys := by
  refine Dict.keys_update fun user hmem => ?_
  obtain ⟨a, ha⟩ := Dict.exists_get?_of_mem hmem
  obtain ⟨-, b, hb, -⟩ := h.rows user a ha
  exact Dict.mem_keys_of_get? hb

theorem Tx.commit_of_pending (h : t.pending = none) (db : Db) :
    t.commit db = { db with users := db.users.update t.rows } := by
  unfold Tx.commit
  split
  next sale hphase =>
    rw [Tx.pending, hphase] at h
    cases h
  next => rfl

/-- A transaction without a purchase commits. -/
theorem Inv.commits (h : Inv s₀ s) (ht : s.procs[i]? = some (.running t)) {p' : Proc}
    (hnext : ∀ t', p' = .running t' → t'.Idle)
    (hresult : ∀ r, p' = .ended r → r.Ok s₀.db.users.keys)
    (hchange : ∀ user, p'.change user = t.change user) (hpurchase : p'.purchase? = none)
    (hpending : t.pending = none) : Inv s₀ ⟨t.commit s.db, s.procs.set i p'⟩ := by
  have hok := h.ok i t ht
  rw [Tx.commit_of_pending hpending]
  refine h.leaves ht hnext hresult hok.keys_update (fun user a₀ ha₀ => ?_) (fun user hrow => ?_) ?_
    (fun p hp => ?_) (fun _ => .inl rfl) (fun key hkey => ?_)
  · rw [hchange]
    exact hok.written h.nonneg ha₀
  · rw [Dict.get?_update hok.keys, hrow, Option.none_or]
  · rw [hpurchase, Option.toList_none, List.append_nil]
  · rw [hpurchase] at hp
    cases hp
  · obtain ⟨p, hp, -⟩ := Tx.pending_of_delivered hkey
    rw [hpending] at hp
    cases hp

/-- A purchase commits. -/
theorem Inv.purchases (h : Inv s₀ s) {call : MarketCall} {sale : Sale} {rows : Dict ℕ Account}
    (ht : s.procs[i]? = some (.running ⟨call, .selling sale .commit, rows⟩))
    (hk : (Advance.commits (.inr (.purchased sale.purchase))).Keeps s.db
      ⟨call, .selling sale .commit, rows⟩) :
    Inv s₀ ⟨Tx.commit ⟨call, .selling sale .commit, rows⟩ s.db,
      s.procs.set i (.ended (.purchased sale.purchase))⟩ := by
  have hok := h.ok i _ ht
  obtain ⟨hresult, hchange, -, -⟩ := hk
  have hkey : sale.purchase.key = sale.copy.key := Prod.ext hok.shape.1.key rfl
  refine h.leaves ht (fun _ heq => by cases heq) (fun r heq => ?_) hok.keys_update
    (fun user a₀ ha₀ => ?_) (fun user hrow => ?_) rfl (fun p hp => hp) (fun key => ?_)
    (fun key hdelivered => ?_)
  · obtain rfl := Proc.ended.inj heq
    rw [← h.users]
    exact hresult
  · rw [Proc.change, hchange]
    exact hok.written h.nonneg ha₀
  · show (s.db.users.update rows).get? user = _
    rw [Dict.get?_update hok.keys, hrow, Option.none_or]
  · by_cases hscript : sale.isScript = true
    · left
      simp only [Tx.commit, Db.deliveries, if_pos hscript]
    · by_cases hsame : sale.purchase.key = key
      · refine .inr ⟨?_, if_neg hscript, sale.purchase, rfl, hsame⟩
        simp only [Tx.commit, Db.deliveries, if_neg hscript, List.countP_append,
          List.countP_singleton, ← hkey, hsame, decide_true, if_true]
        omega
      · left
        simp only [Tx.commit, Db.deliveries, if_neg hscript, List.countP_append,
          List.countP_singleton, ← hkey, hsame, decide_false, Bool.false_eq_true, if_false, add_zero]
  · obtain ⟨p, hp, hpkey⟩ := Tx.pending_of_delivered hdelivered
    exact ⟨p, hp, hpkey⟩

theorem eq_purchased {r : Result} {p : Purchase} (h : (Proc.ended r).purchase? = some p) :
    r = .purchased p := by
  cases r with
  | purchased q => exact congrArg Result.purchased (Option.some.inj h)
  | _ => cases h

/-- What one statement of one call asks for, done. -/
theorem Inv.apply (h : Inv s₀ s) (ht : s.procs[i]? = some (.running t)) {a : Advance}
    (hk : a.Keeps s.db t) {s' : Market} (hs : s.apply i t a = some s') : Inv s₀ s' := by
  cases a with
  | goes t' =>
    obtain rfl := Option.some.inj hs
    obtain ⟨hok, hlocks, hpending, hdelivered⟩ := hk
    exact h.moves ht hok (fun user hu => .inl (hlocks user hu)) (fun p hp => .inl (hpending ▸ hp))
      hdelivered
  | locks user t' =>
    obtain ⟨hfree, rfl⟩ := Option.ite_none_right_eq_some.mp hs |>.imp_right Option.some.inj
    obtain ⟨hok, hlocks, hpending, hdelivered⟩ := hk
    refine h.moves ht hok (fun other hother => ?_) (fun p hp => ?_) (fun key hkey => ?_)
    · rcases hlocks other hother with rfl | hold
      · right
        intro j u hu hne
        simpa using noOther_iff.mp hfree j u hu hne
      · exact .inl hold
    · rw [hpending] at hp
      cases hp
    · rw [hdelivered] at hkey
      cases hkey
  | records p t' =>
    obtain ⟨hfree, hs⟩ := Option.ite_none_right_eq_some.mp hs
    obtain ⟨hrows, hpending, hdelivered, hok⟩ := hk
    split at hs
    next =>
      obtain rfl := Option.some.inj hs
      exact h.ends ht (keeps_failed hdelivered "error")
    next hfresh =>
      obtain rfl := Option.some.inj hs
      rw [not_or, not_or] at hfresh
      obtain ⟨hnew, hbuyer, hseller⟩ := hfresh
      refine h.moves ht (hok (fun hmem => hnew ?_) hbuyer hseller) (fun user hu => ?_)
        (fun q hq => ?_) (fun key hkey => ?_)
      · obtain ⟨q, hq, hkey⟩ := List.mem_map.mp hmem
        exact List.any_eq_true.mpr ⟨q, hq, decide_eq_true hkey⟩
      · rw [hrows] at hu
        exact .inl hu
      · right
        intro j u hu hne r hr heq
        obtain rfl := Option.some.inj (hq.symm.trans hpending)
        have := noOther_iff.mp hfree j u hu hne
        rw [hr, Option.any_some, decide_eq_true heq] at this
        cases this
      · rw [hdelivered] at hkey
        cases hkey
  | delivers source t' =>
    obtain rfl := Option.some.inj hs
    obtain ⟨hok, hrows, hpending, ⟨p, hp, hkey⟩, hnone, hdelivered⟩ := hk
    have hzero : s.db.deliveries source.key = 0 := hkey ▸ h.undelivered ht hp hnone
    have hmoved : Inv s₀ (s.set i (.running t')) := by
      refine h.moves ht hok (fun user hu => .inl (hrows ▸ hu)) (fun q hq => .inl (hpending ▸ hq))
        (fun key hkey => ?_)
      rw [hnone] at hkey
      cases hkey
    exact hmoved.delivers (List.getElem?_set_self (List.getElem?_eq_some_iff.mp ht).1) hzero
      hdelivered
  | counts indicatorId t' =>
    obtain ⟨-, rfl⟩ := Option.ite_none_right_eq_some.mp hs |>.imp_right Option.some.inj
    obtain ⟨hok, hlocks, hpending, hdelivered⟩ := hk
    exact h.moves ht hok (fun user hu => .inl (hlocks user hu)) (fun p hp => .inl (hpending ▸ hp))
      hdelivered
  | commits next =>
    cases next with
    | inl t' =>
      obtain rfl := Option.some.inj hs
      obtain ⟨hidle, hchange, hpending⟩ := hk
      refine h.commits ht (fun u heq => ?_) (fun r heq => by cases heq) (fun user => ?_) rfl hpending
      · obtain rfl := Proc.running.inj heq
        exact hidle
      · exact (hchange user).symm
    | inr r =>
      obtain rfl := Option.some.inj hs
      rcases hk.2.2.2 with hnone | ⟨sale, hphase⟩
      · obtain ⟨hresult, hchange, hpurchase, -⟩ := hk
        refine h.commits ht (fun u heq => by cases heq) (fun r' heq => ?_) hchange
          (hpurchase.trans hnone) hnone
        obtain rfl := Proc.ended.inj heq
        rw [← h.users]
        exact hresult
      · obtain ⟨call, phase, rows⟩ := t
        obtain rfl : phase = .selling sale .commit := hphase
        obtain rfl : r = .purchased sale.purchase := eq_purchased hk.2.2.1
        exact h.purchases ht hk
  | ends r =>
    obtain rfl := Option.some.inj hs
    exact h.ends ht hk

/-- **One label** that is settled preserves the invariant. -/
theorem Inv.step {cfg : MarketConfig} {l : MarketLabel} {s' : Market} (h : Inv s₀ s)
    (hset : s.Settled cfg l = true) (hs : marketStep cfg s l = some s') : Inv s₀ s' := by
  cases l with
  | step i =>
    rw [marketStep] at hs
    split at hs
    next t ht =>
      simp only [Market.Settled, ht] at hset
      exact h.apply ht ((h.ok i t ht).keeps_advance h.nonneg hset) hs
    next => cases hs
  | error i =>
    rw [marketStep] at hs
    split at hs
    next t ht =>
      simp only [Market.Settled, ht] at hset
      exact h.apply ht ((h.ok i t ht).keeps_onError (of_decide_eq_true hset)) hs
    next => cases hs
  | lost i =>
    rw [marketStep] at hs
    split at hs
    next t ht =>
      simp only [Market.Settled, ht] at hset
      obtain rfl := Option.some.inj hs
      exact h.ends ht (keeps_failed (of_decide_eq_true hset) "")
    next => cases hs

end

/-! ## Runs -/

section
variable {db : Db} {calls : List MarketCall}

theorem idle_begin (c : MarketCall) : c.begin.Idle := by
  cases c with
  | purchase buyerId indicatorId now => exact ⟨trivial, rfl, fun _ => rfl, rfl⟩
  | consume userId cost ref =>
    exact ⟨⟨userId, cost, ref, rfl, rfl, trivial⟩, rfl, fun _ => rfl, rfl⟩

theorem inv_start (h : db.WellFormed) : Inv (Market.start db calls) (Market.start db calls) := by
  have hprocs : ∀ (i : ℕ) (p : Proc), (Market.start db calls).procs[i]? = some p →
      ∃ t : Tx, p = .running t ∧ t.Idle := by
    intro i p hp
    obtain ⟨c, -, rfl⟩ := List.mem_map.mp (List.mem_of_getElem? hp)
    exact ⟨c.begin, rfl, idle_begin c⟩
  have hidle : ∀ (i : ℕ) (t : Tx), (Market.start db calls).procs[i]? = some (.running t) → t.Idle := by
    intro i t ht
    obtain ⟨u, heq, hu⟩ := hprocs i _ ht
    obtain rfl := Proc.running.inj heq
    exact hu
  have hall : ∀ p ∈ (Market.start db calls).procs, ∃ t : Tx, p = .running t := by
    intro p hp
    obtain ⟨i, hi⟩ := List.mem_iff_getElem?.mp hp
    obtain ⟨t, heq, -⟩ := hprocs i p hi
    exact ⟨t, heq⟩
  refine ⟨rfl, h.nonneg, fun user a₀ ha₀ => ⟨a₀, ha₀, ?_⟩, fun i t ht => (hidle i t ht).ok db, ?_, ?_,
    fun i r hr => ?_, ?_, h.purchases, h.deliveries, fun key hkey => .inl (h.delivered key hkey)⟩
  · rw [List.sum_eq_zero, add_zero]
    intro x hx
    obtain ⟨p, hp, rfl⟩ := List.mem_map.mp hx
    obtain ⟨t, rfl⟩ := hall p hp
    rfl
  · intro i j t u ht _ _ user hlocked
    rw [(hidle i t ht).rows] at hlocked
    cases hlocked
  · intro i j t u p q ht _ hp
    rw [(hidle i t ht).pending] at hp
    cases hp
  · obtain ⟨t, heq, -⟩ := hprocs i _ hr
    cases heq
  · have hnone : (Market.start db calls).procs.filterMap Proc.purchase? = [] := by
      rw [List.filterMap_eq_nil_iff]
      intro p hp
      obtain ⟨t, rfl⟩ := hall p hp
      rfl
    rw [hnone, List.append_nil]

/-- A result's changes add up to its cost. -/
theorem Result.sum_change {users : List ℕ} (husers : users.Nodup) {r : Result} (h : r.Ok users) :
    (users.map fun user => r.change user).sum = -r.cost := by
  cases r with
  | purchased p =>
    obtain ⟨hbuyer, hseller, hsplit⟩ := h
    simp only [Result.change, Result.cost]
    rw [List.sum_map_add, List.sum_map_ite_of_nodup husers hbuyer,
      List.sum_map_ite_of_nodup husers hseller, hsplit]
    ring
  | consumed user cost => exact List.sum_map_ite_of_nodup husers h (-cost)
  | passed => simp [Result.change, Result.cost]
  | failed message => simp [Result.change, Result.cost]

/-- What all calls change, over all users, is what leaves the balances. -/
theorem sum_changes {users : List ℕ} (husers : users.Nodup) {procs : List Proc}
    (h : ∀ r, Proc.ended r ∈ procs → r.Ok users) :
    (users.map fun user => (procs.map (Proc.change user)).sum).sum = -(procs.map Proc.cost).sum := by
  induction procs with
  | nil => simp
  | cons p procs ih =>
    have hhead : (users.map fun user => Proc.change user p).sum = -p.cost := by
      cases p with
      | running t => simp [Proc.change, Proc.cost]
      | ended r => exact Result.sum_change husers (h r List.mem_cons_self)
    simp only [List.map_cons, List.sum_cons]
    rw [List.sum_map_add, hhead, ih fun r hr => h r (List.mem_cons_of_mem p hr), neg_add]

theorem Inv.total {s₀ s : Market} (h : Inv s₀ s) (husers : s₀.db.users.keys.Nodup) :
    s.db.total = s₀.db.total - (s.procs.map Proc.cost).sum := by
  have hkeys : s.db.users.keys.Nodup := h.users ▸ husers
  have hfirst : s₀.db.users.values.map Account.credits =
      s₀.db.users.keys.map fun user => ((s₀.db.users.get? user).map Account.credits).getD 0 :=
    Dict.map_values_eq husers fun user a ha => by rw [ha]; rfl
  have hlast : s.db.users.values.map Account.credits = s.db.users.keys.map fun user =>
      ((s₀.db.users.get? user).map Account.credits).getD 0 + (s.procs.map (Proc.change user)).sum := by
    refine Dict.map_values_eq hkeys fun user a ha => ?_
    have hmem : user ∈ s₀.db.users.keys := h.users ▸ Dict.mem_keys_of_get? ha
    obtain ⟨a₀, ha₀⟩ := Dict.exists_get?_of_mem hmem
    obtain ⟨b, hb, hcredits⟩ := h.balances user a₀ ha₀
    obtain rfl := Option.some.inj (hb.symm.trans ha)
    rw [ha₀, hcredits]
    rfl
  have hresults : ∀ r, Proc.ended r ∈ s.procs → r.Ok s₀.db.users.keys := by
    intro r hr
    obtain ⟨i, hi⟩ := List.mem_iff_getElem?.mp hr
    exact h.results i r hi
  unfold Db.total
  rw [hlast, hfirst, h.users, List.sum_map_add, sum_changes husers hresults]
  ring

/-- **Purchases conserve credits** in every run of settled labels. -/
theorem conserved_of_settled {cfg : MarketConfig} {labels : List MarketLabel} {s : Market}
    (hdb : db.WellFormed)
    (hset : AllSteps (marketStep cfg) (fun s l => s.Settled cfg l = true) (Market.start db calls) labels)
    (hrun : run (marketStep cfg) (Market.start db calls) labels = some s) :
    Conserved (Market.start db calls) s := by
  have h : Inv (Market.start db calls) s :=
    run_invariant_of_allSteps (fun _ _ _ h hok hstep => h.step hok hstep) (inv_start hdb) hset hrun
  exact ⟨h.charged, h.chargedOnce, h.deliveredOnce, h.users, h.balances, h.nonneg, h.total hdb.users⟩

/-- Tables with users only, before anything was bought. -/
theorem wellFormed_of_new (husers : db.users.keys.Nodup)
    (hnonneg : ∀ e ∈ db.users.entries, 0 ≤ e.2.credits) (hpurchases : db.purchases = [])
    (hcopies : db.copies = []) (hscripts : db.scriptSources = []) : db.WellFormed := by
  have hzero : ∀ key, db.deliveries key = 0 := by
    intro key
    rw [Db.deliveries, hcopies, hscripts]
    rfl
  refine ⟨husers, fun user a ha => ?_, ?_, fun key => ?_, fun key hkey => ?_⟩
  · obtain ⟨e, he, rfl⟩ := Option.map_eq_some_iff.mp ha
    exact hnonneg e (List.mem_of_find?_eq_some he)
  · rw [hpurchases]
    exact List.nodup_nil
  · rw [hzero]
    exact Nat.zero_le 1
  · rw [hzero] at hkey
    exact absurd hkey (Nat.lt_irrefl 0)

end

/-! ## One seller -/

/-- Users 1 and 3 have credits; user 2 sells an indicator and a script template. -/
def oneSeller : Db where
  users := ⟨[(1, { credits := 100 }), (2, { credits := 0 }), (3, { credits := 50 })]⟩
  assets :=
    [{ id := 10, userId := 2, pricingType := "paid", price := 10 },
     { id := 11, userId := 2, pricingType := "paid", price := 5
       content := { assetType := .scriptTemplate } }]

theorem wellFormed_oneSeller : oneSeller.WellFormed :=
  wellFormed_of_new (by decide) (by decide +kernel) rfl rfl rfl

/-- A tenth goes to the platform. -/
def tenPercent : MarketConfig := { platformFeeRate := 1 / 10 }

/-- So many statements of one call. -/
def statements (i n : ℕ) : List MarketLabel := List.replicate n (.step i)

/-- The second sale reads the seller's balance after the first has committed; the
buyer consumes credits, buys again, and a third sale is cut off. -/
def settledSales : List MarketLabel :=
  statements 0 9 ++ statements 1 8 ++ statements 0 6 ++ statements 2 3 ++ statements 1 7 ++
    statements 3 5 ++ statements 4 8 ++ [.lost 4]

def fiveCalls : List MarketCall :=
  [.purchase 1 10 0, .purchase 3 11 0, .consume 1 7 "chat", .purchase 1 10 0, .purchase 3 10 0]

theorem conserved_of_settled_oneSeller :
    ∃ s, run (marketStep tenPercent) (Market.start oneSeller fiveCalls) settledSales = some s ∧
      Conserved (Market.start oneSeller fiveCalls) s := by
  obtain ⟨s, hs⟩ := Option.isSome_iff_exists.mp
    (show (run (marketStep tenPercent) (Market.start oneSeller fiveCalls) settledSales).isSome by
      decide +kernel)
  exact ⟨s, hs, conserved_of_settled wellFormed_oneSeller (by decide +kernel) hs⟩

/-- Both sales read the seller's balance before either has committed. -/
theorem concurrentSales_lost :
    oneSeller.WellFormed ∧
      ∃ s, run (marketStep tenPercent)
          (Market.start oneSeller [.purchase 1 10 0, .purchase 3 11 0])
          (statements 0 9 ++ statements 1 9 ++ statements 0 6 ++ statements 1 6) = some s ∧
        ¬ Conserved (Market.start oneSeller [.purchase 1 10 0, .purchase 3 11 0]) s := by
  refine ⟨wellFormed_oneSeller, ?_⟩
  obtain ⟨s, hs, hne⟩ : ∃ s, run (marketStep tenPercent)
      (Market.start oneSeller [.purchase 1 10 0, .purchase 3 11 0])
      (statements 0 9 ++ statements 1 9 ++ statements 0 6 ++ statements 1 6) = some s ∧
        s.db.total ≠ oneSeller.total - (s.procs.map Proc.cost).sum := exists_of_any (by decide +kernel)
  exact ⟨s, hs, fun hconserved => hne hconserved.total⟩

/-- The call is cut off after its script template is delivered, and made again. -/
theorem retriedSale_deliveredTwice :
    oneSeller.WellFormed ∧
      ∃ s, run (marketStep tenPercent)
          (Market.start oneSeller [.purchase 3 11 0, .purchase 3 11 0])
          (statements 0 13 ++ [.lost 0] ++ statements 1 13) = some s ∧
        ¬ Conserved (Market.start oneSeller [.purchase 3 11 0, .purchase 3 11 0]) s := by
  refine ⟨wellFormed_oneSeller, ?_⟩
  obtain ⟨s, hs, htwice⟩ : ∃ s, run (marketStep tenPercent)
      (Market.start oneSeller [.purchase 3 11 0, .purchase 3 11 0])
      (statements 0 13 ++ [.lost 0] ++ statements 1 13) = some s ∧
        s.db.deliveries (11, 3) = 2 := exists_of_any (by decide +kernel)
  refine ⟨s, hs, fun hconserved => ?_⟩
  have := hconserved.deliveredOnce (11, 3)
  omega

end AlgoTrade.Marketplace
