import AlgoTrade.Factors.Fundamentals
import Mathlib.Tactic.FieldSimp
import Mathlib.Tactic.Linarith

/-! # Fundamental factors on bars and on reports

Enrichment repeats a report on every bar until the next one.  The last value of a column is
the same on the bars as on the reports; the value before the last is not.

* `numeric_enriched`: a column of an enriched frame, report by report.
* `lastValue_enriched`: its last value is that of the reports.
* `growth_enriched_iff`: when the growth is.
* `computeFactor_enriched_iff`: all factors. -/

namespace AlgoTrade.Fundamentals

open scoped Series

/-- The reports of an instrument in order. -/
def reports (snapshots : List Observation) (market symbol : String) : List Observation :=
  (snapshots.filter (·.isOf market symbol)).insertionSort fun a b => a.ingestKey ≤ b.ingestKey

/-- The bars on which a report is the newest one. -/
def newestOn (observations : List Observation) (bars : List Bar) (o : Observation) : List Bar :=
  List.whileNewest Observation.availableAt observations Bar.date bars o

/-- The row of a report, a missing market capitalisation at the last bar on which it is newest. -/
def reportRow (observations : List Observation) (bars : List Bar) (o : Observation) : Values :=
  match (newestOn observations bars o).getLast? with
  | none => o.values
  | some b => filledValues o.values b.close

def reportTable (observations : List Observation) (bars : List Bar) : Table :=
  ⟨fundamentalFields, observations.map (reportRow observations bars)⟩

def Observation.tellsRevenue (o : Observation) : Bool := (o.values .revenue).isSome

/-- The newest report that tells the revenue is newest on a single bar only, or the one before it
tells the same revenue, or none tells it. -/
def RevenueStands (observations : List Observation) (bars : List Bar) : Prop :=
  match (observations.filter Observation.tellsRevenue).reverse with
  | [] => True
  | newest :: earlier =>
    (newestOn observations bars newest).length = 1 ∨
      ∃ previous ∈ earlier.head?, previous.values .revenue = newest.values .revenue

/-- A daily frame for an instrument that has reports: none two of one date, and a bar on each
date. -/
structure Covers (frame : Frame) (snapshots : List Observation) (market symbol : String) :
    Prop where
  market_ne : market ≠ ""
  symbol_ne : symbol ≠ ""
  daily : frame.bars.Pairwise fun a b => a.date < b.date
  reported : ∃ o ∈ snapshots, o.isOf market symbol = true
  distinct : ((snapshots.filter (·.isOf market symbol)).map (·.availableAt)).Nodup
  dated : ∀ o ∈ snapshots, o.isOf market symbol = true → ∃ b ∈ frame.bars, b.date = o.availableAt

section
variable {snapshots : List Observation} {market symbol : String} {frame : Frame}

/-! ## The reports in order -/

theorem mem_reports {o : Observation} :
    o ∈ reports snapshots market symbol ↔ o ∈ snapshots ∧ o.isOf market symbol = true := by
  rw [reports, List.mem_insertionSort, List.mem_filter]

theorem pairwise_reports : (reports snapshots market symbol).Pairwise
    fun a b => a.ingestKey ≤ b.ingestKey :=
  have : Std.Total fun a b : Observation => a.ingestKey ≤ b.ingestKey :=
    ⟨fun a b => le_total a.ingestKey b.ingestKey⟩
  have : IsTrans Observation fun a b => a.ingestKey ≤ b.ingestKey := ⟨fun _ _ _ => le_trans⟩
  List.pairwise_insertionSort ..

theorem Covers.sorted (h : Covers frame snapshots market symbol) :
    (reports snapshots market symbol).Pairwise fun a b => a.availableAt < b.availableAt := by
  have hne : (reports snapshots market symbol).Pairwise fun a b => a.availableAt ≠ b.availableAt :=
    List.pairwise_map.mp
      (((List.perm_insertionSort ..).map Observation.availableAt).nodup_iff.mpr h.distinct)
  refine (pairwise_reports.and hne).imp fun {a b} hab => lt_of_le_of_ne ?_ hab.2
  exact Prod.Lex.monotone_fst _ _ hab.1

/-- The rows that are loaded are the reports, and they are in order as they come. -/
theorem Covers.loaded (h : Covers frame snapshots market symbol) {last : ℤ}
    (hlast : ∀ b ∈ frame.bars, b.date ≤ last) :
    sortObservations (loadRows snapshots market symbol last) = reports snapshots market symbol := by
  have hall : (snapshots.filter fun o => o.isOf market symbol && decide (o.availableAt ≤ last)) =
      snapshots.filter (·.isOf market symbol) := by
    refine List.filter_congr fun o ho => ?_
    cases hof : o.isOf market symbol with
    | false => rfl
    | true =>
      obtain ⟨b, hb, hdate⟩ := h.dated o ho hof
      exact decide_eq_true (hdate ▸ hlast b hb)
  have hload : loadRows snapshots market symbol last = reports snapshots market symbol := by
    rw [loadRows, hall, reports]
  have hkey : (reports snapshots market symbol).Pairwise fun a b => a.reportKey ≤ b.reportKey :=
    h.sorted.imp fun hab => Prod.Lex.toLex_le_toLex.mpr (.inl hab)
  rw [sortObservations, hload, hkey.insertionSort_eq]
  exact List.pwFilter_eq_self.mpr (h.sorted.imp ne_of_lt)

/-! ## Columns -/

/-- The table of an enriched frame. -/
theorem Covers.enrichFrame_table (h : Covers frame snapshots market symbol) :
    (enrichFrom snapshots market symbol frame).table =
      ⟨fundamentalFields,
        frame.bars.map (enrichedValues (reports snapshots market symbol))⟩ := by
  obtain ⟨o, ho, hof⟩ := h.reported
  obtain ⟨b, hb, -⟩ := h.dated o ho hof
  unfold enrichFrom enrichFrame
  cases hmax : (frame.bars.map Bar.date).max? with
  | none =>
    rw [List.max?_eq_none_iff, List.map_eq_nil_iff] at hmax
    exact absurd hb (hmax ▸ List.not_mem_nil)
  | some last =>
    have hloaded := h.loaded fun c hc =>
      (List.max?_eq_some_iff.mp hmax).2 _ (List.mem_map_of_mem hc)
    have hne : (loadRows snapshots market symbol last).isEmpty = false := by
      rw [List.isEmpty_eq_false_iff]
      intro hnil
      rw [hnil] at hloaded
      exact List.not_mem_nil (hloaded ▸ mem_reports.mpr ⟨ho, hof⟩)
    dsimp only
    rw [if_neg (not_or.mpr ⟨h.market_ne, h.symbol_ne⟩), hne, if_neg Bool.false_ne_true, hloaded,
      Frame.table, List.map_map]
    rfl

theorem enrichedValues_eq (observations : List Observation) (b : Bar) (field : Field) :
    enrichedValues observations b field =
      (observations.asOf Observation.availableAt b.date).bind fun o =>
        filledValues o.values b.close field := by
  unfold enrichedValues
  cases observations.asOf Observation.availableAt b.date with
  | some o => rfl
  | none => cases field <;> rfl

/-- **A column of an enriched frame** has each report's values in turn, as long as the report is
the newest one. -/
theorem Covers.numeric_enriched (h : Covers frame snapshots market symbol) (field : Field) :
    (enrichFrom snapshots market symbol frame).table.numeric field =
      (reports snapshots market symbol).flatMap fun o =>
        (newestOn (reports snapshots market symbol) frame.bars o).filterMap fun b =>
          filledValues o.values b.close field := by
  rw [h.enrichFrame_table, Table.numeric, List.filterMap_map]
  exact (List.filterMap_congr fun b _ => enrichedValues_eq _ b field).trans
    (List.filterMap_asOf h.sorted h.daily fun o b => filledValues o.values b.close field)

theorem Covers.newestOn_ne_nil (h : Covers frame snapshots market symbol) {o : Observation}
    (ho : o ∈ reports snapshots market symbol) :
    newestOn (reports snapshots market symbol) frame.bars o ≠ [] :=
  List.whileNewest_ne_nil h.sorted ho <|
    h.dated o (mem_reports.mp ho).1 (mem_reports.mp ho).2

/-- Whether a value is there does not depend on the bar. -/
theorem isSome_filledValues (values : Values) (c d : ℚ) (field : Field) :
    (filledValues values c field).isSome = (filledValues values d field).isSome := by
  rcases eq_or_ne field .marketCap with rfl | hfield
  · rw [filledValues, filledValues, Function.update_self, Function.update_self, Option.isSome_or,
      Option.isSome_or, Option.isSome_map, Option.isSome_map]
  · rw [filledValues, filledValues, Function.update_of_ne hfield, Function.update_of_ne hfield]

/-! ## Factors -/

/-- **The last value** of a column is that of the reports. -/
theorem Covers.lastValue_enriched (h : Covers frame snapshots market symbol) (field : Field) :
    lastValue (enrichFrom snapshots market symbol frame).table field =
      lastValue (reportTable (reports snapshots market symbol) frame.bars) field := by
  have hlast := @List.getLast?_flatMap_of_forall _ _ (reports snapshots market symbol)
    (fun o => (newestOn (reports snapshots market symbol) frame.bars o).filterMap fun b =>
      filledValues o.values b.close field)
    (fun o => reportRow (reports snapshots market symbol) frame.bars o field) fun o ho => by
      rw [List.getLast?_filterMap_of_isSome fun b _ c _ => isSome_filledValues .., reportRow]
      cases hbar : (newestOn (reports snapshots market symbol) frame.bars o).getLast? with
      | none => exact absurd (List.getLast?_eq_none_iff.mp hbar) (h.newestOn_ne_nil ho)
      | some b => rfl
  rw [lastValue, lastValue, h.numeric_enriched, hlast, reportTable, Table.numeric,
    List.filterMap_map]
  rfl

/-- Growth is over the number before the last. -/
theorem growth_concat (values : List ℚ) (v : ℚ) :
    growth (values ++ [v]) = match values.getLast? with
      | none => .error .insufficientHistory
      | some p => .ok (if p = 0 then none else some (v / p - 1)) := by
  rcases List.eq_nil_or_concat' values with rfl | ⟨values, p, rfl⟩
  · rfl
  · simp [growth]

/-- Growth from a number to itself is growth from another one only if that is the same. -/
theorem growth_self_iff (v p : ℚ) :
    (if v = 0 then none else some (v / v - 1)) = (if p = 0 then none else some (v / p - 1)) ↔
      p = v := by
  by_cases hv : v = 0 <;> by_cases hp : p = 0
  · simp [hv, hp]
  · simp [hv, hp]
  · simp [hv, hp, Ne.symm hv]
  · rw [if_neg hv, if_neg hp, div_self hv, Option.some_inj]
    refine ⟨fun h => ?_, fun h => by rw [h, div_self hv]⟩
    have hone : v / p = 1 := by linarith
    exact ((div_eq_one_iff_eq hp).mp hone).symm

/-- Repeating the last number changes the growth, unless it was the number before it already. -/
theorem growth_repeated_iff {before earlier : List ℚ} {v : ℚ} {n : ℕ} (hn : n ≠ 0)
    (hlast : before.getLast? = earlier.getLast?) :
    growth (before ++ List.replicate n v) = growth (earlier ++ [v]) ↔
      n = 1 ∨ earlier.getLast? = some v := by
  match n with
  | 1 => rw [List.replicate_one, growth_concat, growth_concat, hlast]; simp
  | n + 2 =>
    have hprev : (before ++ List.replicate (n + 1) v).getLast? = some v := by
      rw [List.replicate_succ', ← List.append_assoc, List.getLast?_concat]
    rw [List.replicate_succ', ← List.append_assoc, growth_concat, growth_concat, hprev]
    cases earlier.getLast? with
    | none => simp
    | some p => simpa [eq_comm] using growth_self_iff v p

/-- The revenue on the bars of a report is the report's, over and over. -/
theorem filterMap_revenue (observations : List Observation) (bars : List Bar) (o : Observation) :
    ((newestOn observations bars o).filterMap fun b => filledValues o.values b.close .revenue) =
      match o.values .revenue with
      | none => []
      | some v => List.replicate (newestOn observations bars o).length v := by
  have hcol : (fun b : Bar => filledValues o.values b.close .revenue) =
      fun _ => o.values .revenue := by
    funext b
    rw [filledValues, Function.update_of_ne (by decide)]
  rw [hcol]
  cases o.values .revenue with
  | none => simp
  | some v => simp [List.map_const']

theorem Covers.revenue_enriched (h : Covers frame snapshots market symbol) :
    (enrichFrom snapshots market symbol frame).table.numeric .revenue =
      ((reports snapshots market symbol).filter Observation.tellsRevenue).flatMap fun o =>
        (newestOn (reports snapshots market symbol) frame.bars o).filterMap fun b =>
          filledValues o.values b.close .revenue := by
  rw [h.numeric_enriched, List.flatMap_filter_of_forall]
  intro o _ ho
  rw [filterMap_revenue]
  rw [Observation.tellsRevenue, Option.isSome_eq_false_iff, Option.isNone_iff_eq_none] at ho
  rw [ho]

theorem revenue_reportTable (observations : List Observation) (bars : List Bar) :
    (reportTable observations bars).numeric .revenue =
      (observations.filter Observation.tellsRevenue).filterMap (·.values .revenue) := by
  rw [reportTable, Table.numeric, List.filterMap_map, List.filterMap_filter]
  refine List.filterMap_congr fun o _ => ?_
  have hrow : reportRow observations bars o .revenue = o.values .revenue := by
    unfold reportRow
    cases (newestOn observations bars o).getLast? with
    | none => rfl
    | some b => exact Function.update_of_ne (by decide) ..
  rw [Function.comp_apply, hrow, Observation.tellsRevenue]
  cases o.values .revenue <;> rfl

/-- **Revenue growth** on bars is that of the reports in the cases of `RevenueStands`. -/
theorem Covers.growth_enriched_iff (h : Covers frame snapshots market symbol) :
    growthLast (enrichFrom snapshots market symbol frame).table .revenue =
      growthLast (reportTable (reports snapshots market symbol) frame.bars) .revenue ↔
    RevenueStands (reports snapshots market symbol) frame.bars := by
  rw [growthLast, growthLast, h.revenue_enriched, revenue_reportTable, RevenueStands]
  have hmem : ∀ o ∈ (reports snapshots market symbol).filter Observation.tellsRevenue,
      o ∈ reports snapshots market symbol ∧ (o.values .revenue).isSome :=
    fun o ho => List.mem_filter.mp ho
  generalize (reports snapshots market symbol).filter Observation.tellsRevenue = told at hmem ⊢
  rcases List.eq_nil_or_concat' told with rfl | ⟨earlier, newest, rfl⟩
  · simp
  -- the newest report stands on some bars, the last earlier one just before them
  obtain ⟨hnewest, hsome⟩ := hmem newest (List.mem_append_right _ List.mem_cons_self)
  obtain ⟨v, hv⟩ := Option.isSome_iff_exists.mp hsome
  have hbars := h.newestOn_ne_nil hnewest
  have hearlier : ∀ o ∈ earlier, (o.values .revenue).isSome := fun o ho =>
    (hmem o (List.mem_append_left _ ho)).2
  have hlast : (earlier.flatMap fun o =>
        (newestOn (reports snapshots market symbol) frame.bars o).filterMap fun b =>
          filledValues o.values b.close .revenue).getLast? =
      (earlier.filterMap (·.values .revenue)).getLast? := by
    refine List.getLast?_flatMap_of_forall fun o ho => ?_
    obtain ⟨u, hu⟩ := Option.isSome_iff_exists.mp (hearlier o ho)
    have hne := h.newestOn_ne_nil (hmem o (List.mem_append_left _ ho)).1
    rw [filterMap_revenue, hu]
    simp [List.getLast?_replicate, hne]
  have hprev : (earlier.filterMap (·.values .revenue)).getLast? =
      earlier.reverse.head?.bind (·.values .revenue) := by
    rw [List.getLast?_filterMap_of_isSome fun o ho o' ho' => by
      rw [hearlier o ho, hearlier o' ho'], List.head?_reverse]
  have htold : [newest].filterMap (·.values .revenue) = [v] := by simp [hv]
  rw [List.flatMap_append, List.flatMap_singleton, filterMap_revenue, hv, List.filterMap_append,
    htold, growth_repeated_iff (mt List.length_eq_zero_iff.mp hbars) hlast, hprev,
    List.reverse_append, List.reverse_singleton, List.singleton_append]
  simp only [hv, Option.bind_eq_some_iff, Option.mem_def]

/-- **Fundamental factors** on an enriched frame are those of the reports, but for revenue growth,
which is so in the cases of `RevenueStands` only. -/
theorem computeFactor_enriched_iff (factor : Factor)
    (h : Covers frame snapshots market symbol) :
    computeFactor factor (enrichFrom snapshots market symbol frame).table =
      computeFactor factor (reportTable (reports snapshots market symbol) frame.bars) ↔
    (factor = .revenueGrowth → RevenueStands (reports snapshots market symbol) frame.bars) := by
  obtain ⟨o, ho, hof⟩ := h.reported
  obtain ⟨b, hb, -⟩ := h.dated o ho hof
  have hrows : (enrichFrom snapshots market symbol frame).table.rows.isEmpty = false := by
    rw [h.enrichFrame_table, List.isEmpty_map, List.isEmpty_eq_false_iff]
    exact List.ne_nil_of_mem hb
  have hcolumns : (enrichFrom snapshots market symbol frame).table.columns = fundamentalFields := by
    rw [h.enrichFrame_table]
  have hreports : (reportTable (reports snapshots market symbol) frame.bars).rows.isEmpty =
      false := by
    rw [reportTable, List.isEmpty_map, List.isEmpty_eq_false_iff]
    exact List.ne_nil_of_mem (mem_reports.mpr ⟨ho, hof⟩)
  have hsubset := requiredFields_subset factor
  rw [computeFactor, computeFactor, hrows, hreports, if_neg Bool.false_ne_true,
    if_neg Bool.false_ne_true, hcolumns]
  rw [show (reportTable (reports snapshots market symbol) frame.bars).columns = fundamentalFields
    from rfl, hsubset, if_neg Bool.false_ne_true, if_neg Bool.false_ne_true]
  cases factor with
  | revenueGrowth => simpa [Factor.compute] using h.growth_enriched_iff
  | _ => simp [Factor.compute, ratioLast, h.lastValue_enriched]

end

/-! ## Two reports -/

def revenueReport (day : ℤ) (revenue : ℚ) : Observation where
  market := "USStock"
  symbol := "AAPL"
  periodEnd := day - 30
  availableAt := day
  ingestedAt := day
  values field := if field = .revenue then some revenue else none

def barsOn (days : List ℤ) : Frame :=
  ⟨[], days.map fun day => ⟨day * 86400, 10, fun _ => none⟩⟩

/-- On the day of the second report its growth is there. -/
theorem computeFactor_enriched_iff_sameDay :
    computeFactor .revenueGrowth
        (enrichFrom [revenueReport 90 110, revenueReport 0 100] "USStock" "AAPL"
          (barsOn [0, 1, 90])).table =
      computeFactor .revenueGrowth
        (reportTable (reports [revenueReport 90 110, revenueReport 0 100] "USStock" "AAPL")
          (barsOn [0, 1, 90]).bars) :=
  (computeFactor_enriched_iff .revenueGrowth
    { market_ne := by decide
      symbol_ne := by decide
      daily := by decide +kernel
      reported := ⟨revenueReport 0 100, by decide +kernel⟩
      distinct := by decide +kernel
      dated := by decide +kernel }).mpr fun _ => .inl (by decide +kernel)

/-- A day later growth is nothing on the bars, and a tenth on the reports. -/
theorem dayLater_growthLost :
    Covers (barsOn [0, 1, 90, 91]) [revenueReport 90 110, revenueReport 0 100] "USStock" "AAPL" ∧
    computeFactor .revenueGrowth
        (enrichFrom [revenueReport 90 110, revenueReport 0 100] "USStock" "AAPL"
          (barsOn [0, 1, 90, 91])).table = .ok (some 0) ∧
    computeFactor .revenueGrowth
        (reportTable (reports [revenueReport 90 110, revenueReport 0 100] "USStock" "AAPL")
          (barsOn [0, 1, 90, 91]).bars) = .ok (some (1 / 10)) :=
  ⟨{  market_ne := by decide
      symbol_ne := by decide
      daily := by decide +kernel
      reported := ⟨revenueReport 0 100, by decide +kernel⟩
      distinct := by decide +kernel
      dated := by decide +kernel }, by decide +kernel, by decide +kernel⟩

end AlgoTrade.Fundamentals
