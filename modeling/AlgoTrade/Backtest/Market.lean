import AlgoTrade.Lib.Dict
import Mathlib.Algebra.Order.Field.Rat
import Mathlib.Data.Int.ConditionallyCompleteOrder
import Mathlib.Data.List.Dedup
import Mathlib.Data.List.Sort

/-! # Bar histories and the data portal

* `portalAt`: what `MultiAssetDataPortal` shows with its clock at a time, before
  the current bar is closed (`includeCurrent := false`) and after.
* `visible_of_open`: before the close, exactly the earlier rows are visible.
* `portalAt_congr`: the portal reads nothing later than its clock. -/

namespace AlgoTrade.Backtest

/-- Seconds. -/
abbrev Time := ℤ

/-- A canonical instrument key: the market before the colon, and the rest. -/
structure Instrument where
  market : String
  symbol : String
  deriving DecidableEq, Repr

/-- What a bar tells at its open. -/
structure OpenBar where
  openPrice : ℚ
  volume : ℚ := 0
  suspended : Bool := false
  limitUp : Bool := false
  limitDown : Bool := false
  lotSize : ℚ := 0
  deriving DecidableEq, Repr

structure Bar extends OpenBar where
  high : ℚ
  low : ℚ
  close : ℚ
  deriving DecidableEq, Repr

/-- The rows of one instrument, in time order without duplicates. -/
structure Frame where
  rows : List (Time × Bar)
  sorted : rows.Pairwise fun r r' => r.1 < r'.1

/-- The history of every instrument. -/
abbrev Frames := Dict Instrument Frame

def Frame.times (f : Frame) : List Time := f.rows.map Prod.fst

/-- The sorted times of all rows. -/
def timestamps (frames : Frames) : List Time :=
  (frames.keys.flatMap fun k => ((frames.get? k).map Frame.times).getD []).dedup.insertionSort
    (· ≤ ·)

/-- The latest time whose rows are visible. -/
def visibleDt (frames : Frames) (now : Time) (includeCurrent : Bool) : Option Time :=
  if includeCurrent then some now else ((timestamps frames).filter (· < now)).getLast?

/-- What the portal shows with its clock at some time. -/
structure Portal where
  symbols : List Instrument
  barAt : Instrument → Option Bar
  visible : Instrument → List (Time × Bar)

def Frame.barAt (f : Frame) (t : Time) : Option Bar := (f.rows.find? fun r => r.1 = t).map Prod.snd

def Frame.upTo (f : Frame) (t : Time) : List (Time × Bar) := f.rows.filter fun r => r.1 ≤ t

def portalAt (frames : Frames) (now : Time) (includeCurrent : Bool) : Portal where
  symbols := frames.keys
  barAt symbol := (frames.get? symbol).bind fun f => f.barAt now
  visible symbol :=
    match visibleDt frames now includeCurrent, frames.get? symbol with
    | some t, some f => f.upTo t
    | _, _ => []

namespace Portal

def openBarAt (p : Portal) (symbol : Instrument) : Option OpenBar :=
  (p.barAt symbol).map Bar.toOpenBar

/-- `close_at`: a positive close of the current bar. -/
def closeAt (p : Portal) (symbol : Instrument) : Option ℚ :=
  (p.barAt symbol).bind fun bar => if 0 < bar.close then some bar.close else none

/-- `current(symbol, "close", default)`: the last visible close. -/
def current (p : Portal) (symbol : Instrument) (default : ℚ) : ℚ :=
  match (p.visible symbol).getLast? with
  | some row => row.2.close
  | none => default

end Portal

/-! ## What is visible -/

def Frame.before (f : Frame) (t : Time) : List (Time × Bar) := f.rows.filter fun r => r.1 < t

theorem mem_timestamps {frames : Frames} {t : Time} :
    t ∈ timestamps frames ↔ ∃ k ∈ frames.keys, ∃ f ∈ frames.get? k, t ∈ f.times := by
  rw [timestamps, List.mem_insertionSort, List.mem_dedup, List.mem_flatMap]
  refine exists_congr fun k => and_congr_right fun _ => ?_
  cases frames.get? k <;> simp

theorem sortedLT_timestamps (frames : Frames) : (timestamps frames).SortedLT :=
  (List.sortedLE_insertionSort (l := _)).sortedLT_of_nodup
    ((List.perm_insertionSort _ _).nodup_iff.mpr (List.nodup_dedup _))

theorem le_getLast_of_sortedLT {l : List Time} (hl : l.SortedLT) {v x : Time}
    (hv : l.getLast? = some v) (hx : x ∈ l) : x ≤ v := by
  obtain ⟨ys, rfl⟩ := List.getLast?_eq_some_iff.mp hv
  rcases List.mem_append.mp hx with hx | hx
  · exact ((List.pairwise_append.mp hl.pairwise).2.2 x hx v (by simp)).le
  · rw [List.mem_singleton.mp hx]

theorem mem_times_of_mem {f : Frame} {r : Time × Bar} (h : r ∈ f.rows) : r.1 ∈ f.times :=
  List.mem_map_of_mem h

theorem mem_keys_of_get? {frames : Frames} {k : Instrument} {f : Frame}
    (h : frames.get? k = some f) : k ∈ frames.keys :=
  Dict.mem_keys_of_get? h

/-- Before the close of the current bar, exactly the earlier rows are visible. -/
theorem visible_portalAt_open (frames : Frames) (now : Time) (k : Instrument) :
    (portalAt frames now false).visible k = ((frames.get? k).map fun f => f.before now).getD [] := by
  cases hf : frames.get? k with
  | none => cases hv : visibleDt frames now false <;> simp [portalAt, hf, hv]
  | some f =>
    have hmem : ∀ r ∈ f.rows, r.1 < now → r.1 ∈ (timestamps frames).filter (· < now) := by
      intro r hr hlt
      have hts : r.1 ∈ timestamps frames :=
        mem_timestamps.mpr ⟨k, mem_keys_of_get? hf, f, hf, mem_times_of_mem hr⟩
      exact List.mem_filter.mpr ⟨hts, decide_eq_true hlt⟩
    cases hv : visibleDt frames now false with
    | none =>
      have hnil : (timestamps frames).filter (· < now) = [] := List.getLast?_eq_none_iff.mp hv
      have hbefore : f.before now = [] := by
        refine List.filter_eq_nil_iff.mpr fun r hr hlt => ?_
        have := hmem r hr (of_decide_eq_true hlt)
        rw [hnil] at this
        cases this
      simp [portalAt, hv, hbefore]
    | some v =>
      have hlast : ((timestamps frames).filter (· < now)).getLast? = some v := hv
      have hlt : v < now := of_decide_eq_true (List.mem_filter.mp (List.mem_of_getLast? hlast)).2
      have hsorted : ((timestamps frames).filter (· < now)).SortedLT :=
        ((sortedLT_timestamps frames).pairwise.filter _).sortedLT
      have hup : f.upTo v = f.before now := by
        refine List.filter_congr fun r hr => decide_eq_decide.mpr ⟨fun h => h.trans_lt hlt, ?_⟩
        exact fun h => le_getLast_of_sortedLT hsorted hlast (hmem r hr h)
      simp [portalAt, hf, hv, hup]

/-! ## Histories that agree -/

/-- The histories agree on every bar before `t`. -/
structure AgreeBefore (t : Time) (h h' : Frames) : Prop where
  keys : h.keys = h'.keys
  rows : ∀ k, (h.get? k).map (fun f => f.before t) = (h'.get? k).map fun f => f.before t

/-- They agree on every bar before `t`, and on what the bars at `t` tell at their
open. -/
structure AgreeAtOpen (t : Time) (h h' : Frames) : Prop extends AgreeBefore t h h' where
  openBar : ∀ k, (portalAt h t false).openBarAt k = (portalAt h' t false).openBarAt k

theorem AgreeBefore.symm {t : Time} {h h' : Frames} (hag : AgreeBefore t h h') :
    AgreeBefore t h' h :=
  ⟨hag.keys.symm, fun k => (hag.rows k).symm⟩

section
variable {t s : Time} {h h' : Frames}

/-- Both histories lack the instrument, or have it with the same rows before `t`. -/
theorem AgreeBefore.get?_cases (hag : AgreeBefore t h h') (k : Instrument) :
    h.get? k = none ∧ h'.get? k = none ∨
      ∃ f f', h.get? k = some f ∧ h'.get? k = some f' ∧ f.before t = f'.before t := by
  have hrows := hag.rows k
  cases hf : h.get? k with
  | none =>
    rw [hf, Option.map_none, eq_comm, Option.map_eq_none_iff] at hrows
    exact .inl ⟨rfl, hrows⟩
  | some f =>
    rw [hf, Option.map_some, eq_comm, Option.map_eq_some_iff] at hrows
    obtain ⟨f', hf', heq⟩ := hrows
    exact .inr ⟨f, f', rfl, hf', heq.symm⟩

theorem Frame.barAt_eq_before (f : Frame) (hst : s < t) :
    f.barAt s = ((f.before t).find? fun r => r.1 = s).map Prod.snd := by
  have : (f.before t).find? (fun r => r.1 = s) = f.rows.find? fun r => r.1 = s := by
    rw [Frame.before, List.find?_filter]
    congr 1
    funext r
    by_cases hr : r.1 = s <;> simp [hr, hst]
  rw [Frame.barAt, this]

theorem Frame.upTo_eq_before (f : Frame) (hst : s < t) :
    f.upTo s = (f.before t).filter fun r => r.1 ≤ s := by
  rw [Frame.upTo, Frame.before, List.filter_filter]
  refine List.filter_congr fun r _ => ?_
  by_cases hr : r.1 ≤ s
  · simp [hr, hr.trans_lt hst]
  · simp [hr]

theorem Frame.before_eq_before (f : Frame) (hst : s ≤ t) :
    f.before s = (f.before t).filter fun r => r.1 < s := by
  rw [Frame.before, Frame.before, List.filter_filter]
  refine List.filter_congr fun r _ => ?_
  by_cases hr : r.1 < s
  · simp [hr, hr.trans_le hst]
  · simp [hr]

theorem Frame.mem_times_iff_before (f : Frame) (hst : s < t) :
    s ∈ f.times ↔ s ∈ (f.before t).map Prod.fst := by
  rw [Frame.times, List.mem_map, List.mem_map]
  refine exists_congr fun r => ?_
  rw [Frame.before, List.mem_filter, decide_eq_true_iff]
  constructor
  · rintro ⟨hr, rfl⟩
    exact ⟨⟨hr, hst⟩, rfl⟩
  · rintro ⟨⟨hr, -⟩, rfl⟩
    exact ⟨hr, rfl⟩

theorem AgreeBefore.mem_timestamps_of (hag : AgreeBefore t h h') (hst : s < t)
    (hs : s ∈ timestamps h) : s ∈ timestamps h' := by
  obtain ⟨k, hk, f, hf, hmem⟩ := mem_timestamps.mp hs
  rcases hag.get?_cases k with ⟨hnone, -⟩ | ⟨g, g', hg, hg', heq⟩
  · rw [hnone] at hf
    cases hf
  · obtain rfl : g = f := Option.some.inj (hg.symm.trans hf)
    refine mem_timestamps.mpr ⟨k, hag.keys ▸ hk, g', hg', ?_⟩
    rw [g'.mem_times_iff_before hst, ← heq]
    exact (g.mem_times_iff_before hst).mp hmem

/-- The times before `t` are the same. -/
theorem AgreeBefore.timestamps_eq (hag : AgreeBefore t h h') (hst : s ≤ t) :
    (timestamps h).filter (· < s) = (timestamps h').filter (· < s) := by
  have hsorted : ∀ g : Frames, ((timestamps g).filter (· < s)).SortedLT := fun g =>
    ((sortedLT_timestamps g).pairwise.filter _).sortedLT
  refine (hsorted h).eq_of_mem_iff (hsorted h') fun x => ?_
  rw [List.mem_filter, List.mem_filter, decide_eq_true_iff]
  refine and_congr_left fun hx => ?_
  exact ⟨hag.mem_timestamps_of (hx.trans_le hst), hag.symm.mem_timestamps_of (hx.trans_le hst)⟩

/-- The portal with its clock before `t` is the same. -/
theorem AgreeBefore.portalAt_eq (hag : AgreeBefore t h h') (hst : s < t) (includeCurrent : Bool) :
    portalAt h s includeCurrent = portalAt h' s includeCurrent := by
  have hbar : (portalAt h s includeCurrent).barAt = (portalAt h' s includeCurrent).barAt := by
    funext k
    show (h.get? k).bind (fun f => f.barAt s) = (h'.get? k).bind fun f => f.barAt s
    rcases hag.get?_cases k with ⟨hf, hf'⟩ | ⟨f, f', hf, hf', heq⟩
    · rw [hf, hf']
    · rw [hf, hf', Option.bind_some, Option.bind_some, f.barAt_eq_before hst,
        f'.barAt_eq_before hst, heq]
  have hvisible :
      (portalAt h s includeCurrent).visible = (portalAt h' s includeCurrent).visible := by
    funext k
    cases includeCurrent with
    | true =>
      show (match some s, h.get? k with | some t, some f => f.upTo t | _, _ => []) =
        match some s, h'.get? k with | some t, some f => f.upTo t | _, _ => []
      rcases hag.get?_cases k with ⟨hf, hf'⟩ | ⟨f, f', hf, hf', heq⟩
      · rw [hf, hf']
      · simp only [hf, hf', f.upTo_eq_before hst, f'.upTo_eq_before hst, heq]
    | false =>
      rw [visible_portalAt_open, visible_portalAt_open]
      rcases hag.get?_cases k with ⟨hf, hf'⟩ | ⟨f, f', hf, hf', heq⟩
      · rw [hf, hf']
      · simp only [hf, hf', Option.map_some, Option.getD_some, f.before_eq_before hst.le,
          f'.before_eq_before hst.le, heq]
  show (⟨h.keys, _, _⟩ : Portal) = ⟨h'.keys, _, _⟩
  rw [Portal.mk.injEq]
  exact ⟨hag.keys, hbar, hvisible⟩

/-- Before the close of the bar at `t` the same rows are visible. -/
theorem AgreeBefore.visible_eq (hag : AgreeBefore t h h') :
    (portalAt h t false).visible = (portalAt h' t false).visible := by
  funext k
  rw [visible_portalAt_open, visible_portalAt_open, hag.rows k]

end

end AlgoTrade.Backtest
