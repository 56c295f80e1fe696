import AlgoTrade.Streams.ConnectionPool

/-! # The pool's tracking agrees with the broker

* `Tracks`: where the modes of a pair are, what the counts count, and what the
  broker sends.
* `Tracks.pairwise`: an operation on one pair is judged by that pair and its
  connection alone.
* `tracks_subscribeInner`, `tracks_unsubscribe`: the two operations on one pair, the
  second when a downgrade is `Sound`. -/

namespace AlgoTrade.ConnectionPool

open Pool

/-! ## A sound downgrade -/

/-- The broker has lost the pair only if the downgrade or its rollback took it up. -/
def Pool.UnsubscribeCalls.Sound (calls : UnsubscribeCalls) : Prop :=
  calls.unsubscribe = .success →
    calls.subscribe = .success ∨
      Answer.raised calls.subscribe = none ∧ calls.rollback = .success

instance (calls : UnsubscribeCalls) : Decidable calls.Sound := by
  unfold UnsubscribeCalls.Sound
  infer_instance

/-- Removing the mode leaves lower ones only. -/
def Pool.Downgrades (p : Pool) (pair : Pair) (mode : ℕ) : Prop :=
  ((p.untrack (pair, mode)).highest pair).any fun top => top.1 < mode

/-! ## The tracking -/

structure Tracks (lim : PoolLimits) (p : Pool) : Prop where
  keys : p.subscriptionMap.keys.Nodup
  counts : p.symbolCounts.length = p.adapters.length
  connections : p.adapters.length ≤ lim.maxConnections
  placed : ∀ key idx, p.subscriptionMap.get? key = some idx → idx < p.adapters.length
  together : ∀ pair mode mode' idx idx', p.subscriptionMap.get? (pair, mode) = some idx →
    p.subscriptionMap.get? (pair, mode') = some idx' → idx = idx'
  counted : ∀ idx n, p.symbolCounts[idx]? = some n →
    n = (p.pairsOn idx).card ∧ n ≤ lim.maxSymbols
  feeds : ∀ idx pair mode, (p.feed idx pair).map Feed.mode = some mode ↔ p.Top pair mode idx
  orphans : ∀ a ∈ p.orphans, ∀ pair, a pair = none

section
variable {lim : PoolLimits} {p p' : Pool} {pair : Pair} {mode idx : ℕ}

/-! ## One pair -/

theorem top_unique {m i m' i' : ℕ} (h : p.Top pair m i) (h' : p.Top pair m' i') :
    m = m' ∧ i = i' := by
  have hne := h.2 m' (h'.1 ▸ Option.some_ne_none i')
  have hne' := h'.2 m (h.1 ▸ Option.some_ne_none i)
  obtain rfl := Nat.le_antisymm hne' hne
  exact ⟨rfl, Option.some.inj (h.1.symm.trans h'.1)⟩

theorem exists_top {m i : ℕ} (h : p.subscriptionMap.get? (pair, m) = some i) :
    ∃ mode idx, p.Top pair mode idx := by
  cases hhigh : p.highest pair with
  | none =>
    rw [highest_eq_none_iff.mp hhigh m] at h
    cases h
  | some top => exact ⟨top.1, top.2, highest_eq_some_iff.mp hhigh⟩

/-- Nothing but one pair and its connection differs. -/
structure OnlyPair (p p' : Pool) (pair : Pair) (idx : ℕ) : Prop where
  keys : p'.subscriptionMap.keys.Nodup
  map : ∀ q mode, q ≠ pair →
    p'.subscriptionMap.get? (q, mode) = p.subscriptionMap.get? (q, mode)
  placed : ∀ mode i, p'.subscriptionMap.get? (pair, mode) = some i → i = idx
  adapters : p'.adapters.length = p.adapters.length
  counts : p'.symbolCounts.length = p.symbolCounts.length
  counted : ∀ i, i ≠ idx → p'.symbolCounts[i]? = p.symbolCounts[i]?
  feeds : ∀ i q, q ≠ pair ∨ i ≠ idx → p'.feed i q = p.feed i q
  orphans : p'.orphans = p.orphans

/-- What holds of one pair and the connection that carries it. -/
structure PairTracks (lim : PoolLimits) (p : Pool) (pair : Pair) (idx : ℕ) : Prop where
  counted : ∀ n, p.symbolCounts[idx]? = some n → n = (p.pairsOn idx).card ∧ n ≤ lim.maxSymbols
  feeds : ∀ mode, (p.feed idx pair).map Feed.mode = some mode ↔ p.Top pair mode idx

theorem OnlyPair.top (h : OnlyPair p p' pair idx) {q : Pair} (hq : q ≠ pair) (m i : ℕ) :
    p'.Top q m i ↔ p.Top q m i := by
  unfold Pool.Top
  rw [h.map q m hq]
  simp only [h.map q _ hq]

/-- **An operation on one pair** keeps the tracking when it does so for the pair. -/
theorem Tracks.pairwise (h : Tracks lim p) (honly : OnlyPair p p' pair idx)
    (hidx : idx < p.adapters.length)
    (hold : ∀ m i, p.subscriptionMap.get? (pair, m) = some i → i = idx)
    (hpair : PairTracks lim p' pair idx) : Tracks lim p' := by
  refine ⟨honly.keys, honly.counts.trans (h.counts.trans honly.adapters.symm),
    honly.adapters ▸ h.connections, fun key i hget => ?_, fun q m m' i i' hm hm' => ?_,
    fun i n hn => ?_, fun i q m => ?_, honly.orphans ▸ h.orphans⟩
  · obtain ⟨q, m⟩ := key
    rw [honly.adapters]
    by_cases hq : q = pair
    · subst hq
      rw [honly.placed m i hget]
      exact hidx
    · rw [honly.map q m hq] at hget
      exact h.placed _ i hget
  · by_cases hq : q = pair
    · subst hq
      rw [honly.placed m i hm, honly.placed m' i' hm']
    · rw [honly.map q _ hq] at hm hm'
      exact h.together q m m' i i' hm hm'
  · by_cases hi : i = idx
    · subst hi
      exact hpair.counted n hn
    · rw [honly.counted i hi] at hn
      have hsame : p'.pairsOn i = p.pairsOn i := by
        ext q
        rw [mem_pairsOn honly.keys, mem_pairsOn h.keys]
        by_cases hq : q = pair
        · subst hq
          exact ⟨fun ⟨m, hm⟩ => absurd (honly.placed m i hm) hi,
            fun ⟨m, hm⟩ => absurd (hold m i hm) hi⟩
        · simp only [honly.map q _ hq]
      rw [hsame]
      exact h.counted i n hn
  · by_cases hq : q = pair
    · subst hq
      by_cases hi : i = idx
      · subst hi
        exact hpair.feeds m
      · rw [honly.feeds i q (.inr hi), h.feeds i q m]
        exact ⟨fun htop => absurd (hold m i htop.1) hi,
          fun htop => absurd (honly.placed m i htop.1) hi⟩
    · rw [honly.feeds i q (.inl hq), h.feeds i q m, honly.top hq]

/-! ## Tracking -/

theorem get?_track (key : SubKey) (i depth : ℕ) (key' : SubKey) :
    (p.track key i depth).subscriptionMap.get? key' =
      if key = key' then some i else p.subscriptionMap.get? key' :=
  Dict.get?_set ..

theorem get?_untrack (key key' : SubKey) :
    (p.untrack key).subscriptionMap.get? key' =
      if key = key' then none else p.subscriptionMap.get? key' :=
  Dict.get?_pop ..

theorem feed_setFeed (i : ℕ) (feed : Option Feed) (j : ℕ) (q : Pair) :
    (p.setFeed i pair feed).feed j q =
      if i = j ∧ q = pair ∧ j < p.adapters.length then feed else p.feed j q := by
  unfold Pool.feed Pool.setFeed
  dsimp only
  rw [List.getElem?_modify]
  by_cases hj : j < p.adapters.length
  · rw [List.getElem?_eq_getElem hj]
    show (if i = j then Function.update p.adapters[j] pair feed else p.adapters[j]) q =
      if _ then feed else p.adapters[j] q
    by_cases hi : i = j
    · rw [if_pos hi, Function.update_apply]
      simp only [hi, hj, true_and, and_true]
    · rw [if_neg hi, if_neg fun h => hi h.1]
  · rw [List.getElem?_eq_none (Nat.le_of_not_lt hj), if_neg fun h => hj h.2.2]
    rfl

theorem OnlyPair.refl (hkeys : p.subscriptionMap.keys.Nodup)
    (hplaced : ∀ m i, p.subscriptionMap.get? (pair, m) = some i → i = idx) :
    OnlyPair p p pair idx :=
  ⟨hkeys, fun _ _ _ => rfl, hplaced, rfl, rfl, fun _ _ => rfl, fun _ _ _ => rfl, rfl⟩

theorem OnlyPair.track (h : OnlyPair p p' pair idx) (m depth : ℕ) :
    OnlyPair p (p'.track (pair, m) idx depth) pair idx :=
  { h with
    keys := Dict.nodup_keys_set h.keys _ _
    map := fun q m' hq => by
      rw [get?_track, if_neg fun heq => hq (Prod.mk.inj heq).1.symm, h.map q m' hq]
    placed := fun m' i hm' => by
      rw [get?_track] at hm'
      split at hm'
      · exact (Option.some.inj hm').symm
      · exact h.placed m' i hm' }

theorem OnlyPair.untrack (h : OnlyPair p p' pair idx) (m : ℕ) :
    OnlyPair p (p'.untrack (pair, m)) pair idx :=
  { h with
    keys := Dict.nodup_keys_pop h.keys _
    map := fun q m' hq => by
      rw [get?_untrack, if_neg fun heq => hq (Prod.mk.inj heq).1.symm, h.map q m' hq]
    placed := fun m' i hm' => by
      rw [get?_untrack] at hm'
      split at hm'
      · cases hm'
      · exact h.placed m' i hm' }

theorem OnlyPair.setFeed (h : OnlyPair p p' pair idx) (feed : Option Feed) :
    OnlyPair p (p'.setFeed idx pair feed) pair idx :=
  { h with
    adapters := by
      unfold Pool.setFeed
      rw [List.length_modify, h.adapters]
    feeds := fun i q hq => by
      rw [feed_setFeed, if_neg, h.feeds i q hq]
      exact fun heq => hq.elim (fun hne => hne heq.2.1) fun hne => hne heq.1.symm }

theorem OnlyPair.changeCount (h : OnlyPair p p' pair idx) (f : ℕ → ℕ) :
    OnlyPair p (p'.changeCount idx f) pair idx :=
  { h with
    counts := by
      unfold Pool.changeCount
      rw [List.length_modify, h.counts]
    counted := fun i hi => by
      unfold Pool.changeCount
      dsimp only
      simp only [List.getElem?_modify, hi.symm, if_false, id_map', h.counted i hi] }

theorem OnlyPair.call (h : OnlyPair p p' pair idx) (ans : Answer) (feed : Option Feed) :
    OnlyPair p (call ans p' idx pair feed) pair idx := by
  unfold Pool.call
  split
  · exact h.setFeed feed
  · exact h

theorem OnlyPair.pairsOn_of_get? (h : OnlyPair p p' pair idx) (hkeys : p.subscriptionMap.keys.Nodup)
    (hget : p'.subscriptionMap.get? (pair, mode) = some idx) :
    p'.pairsOn idx = insert pair (p.pairsOn idx) := by
  ext q
  rw [Finset.mem_insert, mem_pairsOn h.keys, mem_pairsOn hkeys]
  by_cases hq : q = pair
  · subst hq
    exact ⟨fun _ => .inl rfl, fun _ => ⟨mode, hget⟩⟩
  · simp only [h.map q _ hq, hq, false_or]

theorem OnlyPair.pairsOn_of_none (h : OnlyPair p p' pair idx) (hkeys : p.subscriptionMap.keys.Nodup)
    (hget : ∀ m, p'.subscriptionMap.get? (pair, m) = none) :
    p'.pairsOn idx = (p.pairsOn idx).erase pair := by
  ext q
  rw [Finset.mem_erase, mem_pairsOn h.keys, mem_pairsOn hkeys]
  by_cases hq : q = pair
  · subst hq
    simp only [hget, ne_eq, not_true_eq_false, false_and, reduceCtorEq, exists_false]
  · simp only [h.map q _ hq, ne_eq, hq, not_false_eq_true, true_and]

/-- The broker's side of a tracked pair is right when its mode is the highest. -/
theorem feeds_of_top (htop : p.Top pair mode idx)
    (hfeed : (p.feed idx pair).map Feed.mode = some mode) (m : ℕ) :
    (p.feed idx pair).map Feed.mode = some m ↔ p.Top pair m idx := by
  rw [hfeed, Option.some.injEq]
  exact ⟨fun heq => heq ▸ htop, fun h => (top_unique htop h).1⟩

/-- The pair is tracked on its connection before and after. -/
theorem Tracks.of_tracked (h : Tracks lim p) (honly : OnlyPair p p' pair idx) {m : ℕ}
    (hget : p.subscriptionMap.get? (pair, m) = some idx) (htop : p'.Top pair mode idx)
    (hcounts : p'.symbolCounts = p.symbolCounts)
    (hfeed : (p'.feed idx pair).map Feed.mode = some mode) : Tracks lim p' := by
  refine h.pairwise honly (h.placed _ _ hget) (fun m' i hm' => h.together _ _ _ _ _ hm' hget)
    ⟨fun n hn => ?_, feeds_of_top htop hfeed⟩
  rw [honly.pairsOn_of_get? h.keys htop.1,
    Finset.insert_eq_of_mem ((mem_pairsOn h.keys).mpr ⟨m, hget⟩)]
  exact h.counted idx n (hcounts ▸ hn)

/-- Tracking a mode above the others. -/
theorem top_track (hle : ∀ m, p.subscriptionMap.get? (pair, m) ≠ none → m ≤ mode) (i depth : ℕ) :
    (p.track (pair, mode) i depth).Top pair mode i := by
  refine ⟨by rw [get?_track, if_pos rfl], fun m hm => ?_⟩
  rw [get?_track] at hm
  split at hm
  next heq => exact (Prod.mk.inj heq).2.ge
  next => exact hle m hm

/-- Tracking a mode the highest one covers. -/
theorem top_track_of_le {top : ℕ} (h : p.Top pair top idx) (hle : mode ≤ top) (depth : ℕ) :
    (p.track (pair, mode) idx depth).Top pair top idx := by
  refine ⟨?_, fun m hm => ?_⟩
  · rw [get?_track]
    split
    · rfl
    · exact h.1
  · rw [get?_track] at hm
    split at hm
    next heq => exact (Prod.mk.inj heq).2 ▸ hle
    next => exact h.2 m hm

theorem feed_setFeed_self (hidx : idx < p.adapters.length) (feed : Option Feed) :
    (p.setFeed idx pair feed).feed idx pair = feed := by
  rw [feed_setFeed, if_pos ⟨rfl, rfl, hidx⟩]

/-! ## Subscribing -/

theorem feed_addConnection (p : Pool) (i : ℕ) (q : Pair) :
    p.addConnection.feed i q = p.feed i q := by
  unfold Pool.feed Pool.addConnection
  dsimp only
  rw [List.getElem?_append]
  split
  · rfl
  next hi =>
    rw [List.getElem?_eq_none (Nat.le_of_not_lt hi), List.getElem?_singleton]
    split
    · rfl
    · rfl

/-- A connection that carries nothing yet. -/
theorem Tracks.addConnection (h : Tracks lim p) (hroom : p.adapters.length < lim.maxConnections) :
    Tracks lim p.addConnection :=
  { h with
    counts := by
      unfold Pool.addConnection
      rw [List.length_append, List.length_append, h.counts]
      rfl
    connections := by
      unfold Pool.addConnection
      rw [List.length_append]
      exact hroom
    placed := fun key i hget => by
      unfold Pool.addConnection
      rw [List.length_append]
      exact Nat.lt_succ_of_lt (h.placed key i hget)
    counted := fun i n hn => by
      unfold Pool.addConnection at hn
      dsimp only at hn
      rw [List.getElem?_append] at hn
      split at hn
      · exact h.counted i n hn
      next hi =>
        obtain rfl := List.mem_singleton.mp (List.mem_of_getElem? hn)
        have hnone : p.pairsOn i = ∅ := by
          refine Finset.eq_empty_of_forall_notMem fun q hq => ?_
          obtain ⟨m, hm⟩ := (mem_pairsOn h.keys).mp hq
          exact hi (h.counts ▸ h.placed _ i hm)
        exact ⟨(Finset.card_eq_zero.mpr hnone).symm, Nat.zero_le _⟩
    feeds := fun i q m => by
      rw [feed_addConnection]
      exact h.feeds i q m }

theorem adapterWithCapacity_cases (h : Tracks lim p) (calls : SubscribeCalls) :
    (∃ auth, p.adapterWithCapacity lim calls = (p, .error auth)) ∨
      ∃ p' idx, p.adapterWithCapacity lim calls = (p', .ok idx) ∧ Tracks lim p' ∧
        p'.subscriptionMap = p.subscriptionMap ∧
        ∃ n, p'.symbolCounts[idx]? = some n ∧ n < lim.maxSymbols := by
  unfold adapterWithCapacity
  split
  next idx hidx =>
    obtain ⟨hlt, hroom, -⟩ := List.findIdx?_eq_some_iff_getElem.mp hidx
    exact .inr ⟨p, idx, rfl, h, rfl, _, List.getElem?_eq_getElem hlt, of_decide_eq_true hroom⟩
  next =>
    split
    · exact .inl ⟨false, rfl⟩
    next hroom =>
      split
      next auth _ => exact .inl ⟨auth, rfl⟩
      next =>
        refine .inr ⟨_, _, rfl, h.addConnection (Nat.lt_of_not_le hroom), rfl, 0, ?_,
          lim.symbols_pos⟩
        unfold Pool.addConnection
        rw [← h.counts]
        exact List.getElem?_concat_length

/-- **A subscription** keeps the tracking, whatever the broker answers. -/
theorem tracks_subscribeInner (h : Tracks lim p) (calls : SubscribeCalls) (pair : Pair)
    (mode depth : ℕ) : Tracks lim (p.subscribeInner lim calls pair mode depth).1 := by
  unfold subscribeInner
  split
  · exact h
  split
  next highest idx hhigh =>
    have htop := highest_eq_some_iff.mp hhigh
    have honly : OnlyPair p p pair idx :=
      .refl h.keys fun m i hm => h.together _ _ _ _ _ hm htop.1
    split
    next hlt =>
      split
      · refine h.of_tracked ((honly.setFeed _).track mode depth) htop.1
          (top_track (fun m hm => (htop.2 m hm).trans hlt.le) idx depth) rfl ?_
        show ((p.setFeed idx pair _).feed idx pair).map Feed.mode = _
        rw [feed_setFeed_self (h.placed _ _ htop.1), Option.map_some]
      · exact h
      · exact h
    next hle =>
      exact h.of_tracked (honly.track mode depth) htop.1
        (top_track_of_le htop (Nat.le_of_not_lt hle) depth) rfl ((h.feeds ..).mpr htop)
  next hnone =>
    have habsent := highest_eq_none_iff.mp hnone
    rcases adapterWithCapacity_cases h calls with ⟨auth, heq⟩ | ⟨p₁, idx, heq, h₁, hmap, n, hn, hlt⟩
    · rw [heq]
      exact h
    rw [heq]
    dsimp only
    split
    · have hnone₁ : ∀ m, p₁.subscriptionMap.get? (pair, m) = none := hmap ▸ habsent
      have hidx : idx < p₁.adapters.length := h₁.counts ▸ (List.getElem?_eq_some_iff.mp hn).1
      have hold : ∀ m i, p₁.subscriptionMap.get? (pair, m) = some i → i = idx := fun m i hm => by
        rw [hnone₁ m] at hm
        cases hm
      have honly := ((OnlyPair.refl h₁.keys hold).setFeed (some ⟨mode, depth⟩)).track mode depth
      have htop : ((p₁.setFeed idx pair (some ⟨mode, depth⟩)).track (pair, mode) idx depth).Top pair
          mode idx := top_track (fun m hm => absurd (hnone₁ m) hm) idx depth
      refine h₁.pairwise (honly.changeCount (· + 1)) hidx hold ⟨fun n' hn' => ?_,
        feeds_of_top htop ?_⟩
      · have hnew : pair ∉ p₁.pairsOn idx := fun hmem => by
          obtain ⟨m, hm⟩ := (mem_pairsOn h₁.keys).mp hmem
          rw [hnone₁ m] at hm
          cases hm
        obtain ⟨hcard, -⟩ := h₁.counted idx n hn
        have hn₁ : n' = n + 1 := by
          refine Option.some.inj (hn'.symm.trans ?_)
          show (p₁.symbolCounts.modify idx (· + 1))[idx]? = _
          rw [List.getElem?_modify_eq, hn]
          rfl
        rw [hn₁, (honly.changeCount (· + 1)).pairsOn_of_get? h₁.keys htop.1,
          Finset.card_insert_of_notMem hnew, ← hcard]
        exact ⟨rfl, hlt⟩
      · show ((p₁.setFeed idx pair _).feed idx pair).map Feed.mode = _
        rw [feed_setFeed_self hidx, Option.map_some]
    · exact h₁
    · exact h₁

/-! ## Unsubscribing -/

theorem feed_call (ans : Answer) (hidx : idx < p.adapters.length) (feed : Option Feed) :
    (call ans p idx pair feed).feed idx pair =
      if ans = .success then feed else p.feed idx pair := by
  unfold Pool.call
  split
  · exact feed_setFeed_self hidx feed
  · rfl

theorem call_tracking (ans : Answer) (p : Pool) (idx : ℕ) (pair : Pair) (feed : Option Feed) :
    (call ans p idx pair feed).subscriptionMap = p.subscriptionMap ∧
      (call ans p idx pair feed).symbolCounts = p.symbolCounts ∧
      (call ans p idx pair feed).adapters.length = p.adapters.length := by
  unfold Pool.call
  split
  · exact ⟨rfl, rfl, List.length_modify ..⟩
  · exact ⟨rfl, rfl, rfl⟩

/-- The mode that is removed was the highest. -/
theorem top_of_untrack (hget : p.subscriptionMap.get? (pair, mode) = some idx)
    (hle : ∀ m, (p.untrack (pair, mode)).subscriptionMap.get? (pair, m) ≠ none → m ≤ mode) :
    p.Top pair mode idx := by
  refine ⟨hget, fun m hm => ?_⟩
  by_cases heq : mode = m
  · exact heq.ge
  · refine hle m ?_
    rw [get?_untrack, if_neg fun h => heq (Prod.mk.inj h).2]
    exact hm

/-- A removal that is taken back. -/
theorem Tracks.rollback (h : Tracks lim p) (hget : p.subscriptionMap.get? (pair, mode) = some idx)
    (hle : ∀ m, (p.untrack (pair, mode)).subscriptionMap.get? (pair, m) ≠ none → m ≤ mode)
    (depth : ℕ) : Tracks lim ((p.untrack (pair, mode)).track (pair, mode) idx depth) :=
  h.of_tracked
    (((OnlyPair.refl h.keys fun _ _ hm => h.together _ _ _ _ _ hm hget).untrack mode).track mode depth)
    hget (top_track hle idx depth) rfl ((h.feeds ..).mpr (top_of_untrack hget hle))

/-- The removal is taken back after the broker was asked to drop the pair. -/
theorem Tracks.rollback_called (h : Tracks lim p)
    (hget : p.subscriptionMap.get? (pair, mode) = some idx)
    (hle : ∀ m, (p.untrack (pair, mode)).subscriptionMap.get? (pair, m) ≠ none → m ≤ mode)
    (depth : ℕ) {ans ans' : Answer} {feed : Feed} (hmode : feed.mode = mode)
    (hok : ans = .success → ans' = .success) :
    Tracks lim (call ans' ((call ans (p.untrack (pair, mode)) idx pair none).track (pair, mode) idx
      depth) idx pair (some feed)) := by
  have honly : OnlyPair p (p.untrack (pair, mode)) pair idx :=
    (OnlyPair.refl h.keys fun _ _ hm => h.together _ _ _ _ _ hm hget).untrack mode
  obtain ⟨hmap, hcounts, hlen⟩ := call_tracking ans (p.untrack (pair, mode)) idx pair none
  obtain ⟨hmap', hcounts', -⟩ := call_tracking ans'
    ((call ans (p.untrack (pair, mode)) idx pair none).track (pair, mode) idx depth) idx pair
    (some feed)
  have hidx := h.placed _ _ hget
  have htop : (call ans' ((call ans (p.untrack (pair, mode)) idx pair none).track (pair, mode) idx
      depth) idx pair (some feed)).Top pair mode idx := by
    unfold Pool.Top
    rw [hmap']
    exact top_track (by rw [hmap]; exact hle) idx depth
  refine h.of_tracked (((honly.call ans none).track mode depth).call ans' (some feed)) hget htop
    (hcounts'.trans hcounts) ?_
  · rw [feed_call _ (hlen.symm ▸ hidx)]
    split
    · rw [Option.map_some, hmode]
    next hne =>
      show ((call ans (p.untrack (pair, mode)) idx pair none).feed idx pair).map Feed.mode = _
      rw [feed_call (p := p.untrack (pair, mode)) _ hidx, if_neg fun hans => hne (hok hans)]
      exact (h.feeds ..).mpr (top_of_untrack hget hle)

/-- **An unsubscription** keeps the tracking when a downgrade is sound. -/
theorem tracks_unsubscribe (h : Tracks lim p) {calls : UnsubscribeCalls}
    (hok : p.subscriptionMap.get? (pair, mode) ≠ none → p.Downgrades pair mode → calls.Sound) :
    Tracks lim (p.unsubscribe calls pair mode).1 := by
  unfold Pool.unsubscribe
  split
  · exact h
  next idx hget =>
  have hidx := h.placed _ _ hget
  have honly : OnlyPair p (p.untrack (pair, mode)) pair idx :=
    (OnlyPair.refl h.keys fun _ _ hm => h.together _ _ _ _ _ hm hget).untrack mode
  dsimp only
  split
  next hnone =>
    have habsent := highest_eq_none_iff.mp hnone
    have hback := h.rollback hget fun m hm => absurd (habsent m) hm
    split
    · have honly' := (honly.setFeed none).changeCount (· - 1)
      refine h.pairwise honly' hidx (fun _ _ hm => h.together _ _ _ _ _ hm hget)
        ⟨fun n hn => ?_, fun m => ?_⟩
      · have hmem : pair ∈ p.pairsOn idx := (mem_pairsOn h.keys).mpr ⟨mode, hget⟩
        have hlen : idx < p.symbolCounts.length := h.counts ▸ hidx
        obtain ⟨hcard, hle⟩ := h.counted idx _ (List.getElem?_eq_getElem hlen)
        have hn₁ : n = p.symbolCounts[idx] - 1 := by
          refine Option.some.inj (hn.symm.trans ?_)
          show (p.symbolCounts.modify idx (· - 1))[idx]? = _
          rw [List.getElem?_modify_eq, List.getElem?_eq_getElem hlen]
          rfl
        rw [hn₁, honly'.pairsOn_of_none h.keys habsent, Finset.card_erase_of_mem hmem, ← hcard]
        exact ⟨rfl, (Nat.sub_le _ 1).trans hle⟩
      · have hfeed : (((p.untrack (pair, mode)).setFeed idx pair none).changeCount idx
            (· - 1)).feed idx pair = none := feed_setFeed_self hidx none
        rw [hfeed]
        refine ⟨fun heq => (nomatch heq), fun htop => ?_⟩
        have hsome := htop.1.symm.trans (habsent m)
        cases hsome
    · exact hback _
  next newHighest i hhigh =>
    have htop := highest_eq_some_iff.mp hhigh
    obtain rfl : idx = i := (honly.placed _ _ htop.1).symm
    split
    next hlt =>
      have hle : ∀ m, (p.untrack (pair, mode)).subscriptionMap.get? (pair, m) ≠ none → m ≤ mode :=
        fun m hm => (htop.2 m hm).trans hlt.le
      have hsound : calls.Sound := hok (hget ▸ Option.some_ne_none idx) <| by
        unfold Downgrades
        rw [hhigh]
        exact decide_eq_true hlt
      split
      · exact h.rollback hget hle _
      split
      · obtain ⟨hmap, hcounts, hlen⟩ :=
          call_tracking calls.unsubscribe (p.untrack (pair, mode)) idx pair none
        have htop' : (call calls.unsubscribe (p.untrack (pair, mode)) idx pair none).Top pair
            newHighest idx := by
          unfold Pool.Top
          rw [hmap]
          exact htop
        refine h.of_tracked ((honly.call calls.unsubscribe none).setFeed _) hget htop' hcounts ?_
        rw [feed_setFeed_self (hlen.symm ▸ hidx), Option.map_some]
      next auth hsub =>
        -- nothing is called after an exception, so the broker must have kept the pair
        have hkept : calls.unsubscribe = .success → (.error false : Answer) = .success := by
          intro hans
          rcases hsound hans with hsucc | ⟨hraised, -⟩
          · rw [hsub] at hsucc
            cases hsucc
          · rw [hsub] at hraised
            cases hraised
        exact h.rollback_called hget hle _ (rfl : (Feed.mk mode 0).mode = mode) hkept
      next auth hsub =>
        refine h.rollback_called hget hle _ rfl fun hans => ?_
        rcases hsound hans with hsucc | ⟨-, hroll⟩
        · rw [hsub] at hsucc
          cases hsucc
        · exact hroll
    next hge =>
      have htop' : p.Top pair newHighest idx := by
        refine ⟨?_, fun m hm => ?_⟩
        · have hnew := htop.1
          rw [get?_untrack] at hnew
          split at hnew
          · cases hnew
          · exact hnew
        · by_cases heq : mode = m
          · exact heq ▸ Nat.le_of_not_lt hge
          · refine htop.2 m ?_
            rw [get?_untrack, if_neg fun h => heq (Prod.mk.inj h).2]
            exact hm
      exact h.of_tracked honly hget htop rfl ((h.feeds ..).mpr htop')

end

end AlgoTrade.ConnectionPool
