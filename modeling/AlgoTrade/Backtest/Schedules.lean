import AlgoTrade.Lib.Calendar
import AlgoTrade.Backtest.Market

/-! # Scheduled callbacks

`scheduleDue` decides at each clock time whether a schedule fires, from the instant of the
current day, week or month and the previous clock time.

* `scheduledAt_eq`: that instant is the one of the current period.
* `scheduleDue_iff`: it fires exactly when an instant has come since the previous time,
  where `SeesInstants` holds.
* `firesOnce_iff`: so every instant of a sequence of times fires once, and nothing else
  does, exactly when `SeesInstants` holds in every gap.
* `mondayInstant_lost`: a gap that crosses midnight. -/

namespace AlgoTrade.Backtest

open Calendar

/-! ## Schedules -/

inductive Frequency
  | daily | weekly | monthly
  deriving DecidableEq, Repr

/-- What `_parse_schedule_time` reads; 0:00 when it reads nothing. -/
structure TimeOfDay where
  hours : ℕ := 0
  minutes : ℕ := 0
  deriving DecidableEq, Repr

def TimeOfDay.seconds (t : TimeOfDay) : ℤ := 3600 * t.hours + 60 * t.minutes

/-- `ScheduleSpec`, without the name of its callback; `time` is `none` for an empty text. -/
structure ScheduleSpec where
  frequency : Frequency
  time : Option TimeOfDay := none
  weekday : Option ℤ := none
  monthday : Option ℤ := none
  deriving DecidableEq, Repr

/-- `_is_intraday_frequency`: minutes or hours, by the last letter. -/
def isIntradayFrequency (frequency : List Char) : Bool :=
  let last := (frequency.reverse.dropWhile Char.isWhitespace).head?.map Char.toLower
  last = some 'm' ∨ last = some 'h'

/-- `int(value or 1)`. -/
def orOne (value : Option ℤ) : ℤ := if value.getD 0 = 0 then 1 else value.getD 0

namespace ScheduleSpec

variable (schedule : ScheduleSpec)

/-- The weekday from Monday on, 0 to 6. -/
def targetWeekday : ℤ := max 1 (min 7 (orOne schedule.weekday)) - 1

def targetDay : ℤ := max 1 (orOne schedule.monthday)

/-- `scheduled_date`, as a day: of the current day, week or month. -/
def scheduledDate (day : ℤ) : ℤ :=
  match schedule.frequency with
  | .daily => day
  | .weekly => day + (schedule.targetWeekday - Calendar.weekday day)
  | .monthly =>
    let month := monthIndex day
    let lastDay := monthStart (month + 1) - monthStart month
    monthStart month + (min schedule.targetDay lastDay - 1)

/-- The seconds into the day; bars of a day or more ignore the time. -/
def secondsOn (barFrequency : List Char) : ℤ :=
  if isIntradayFrequency barFrequency then (schedule.time.map TimeOfDay.seconds).getD 0 else 0

/-- `scheduled_at`. -/
def scheduledAt (barFrequency : List Char) (current : Time) : Time :=
  schedule.scheduledDate (current / secondsPerDay) * secondsPerDay + schedule.secondsOn barFrequency

/-- `_schedule_due`. -/
def scheduleDue (current : Time) (previous : Option Time) (barFrequency : List Char) : Bool :=
  let scheduledAt := schedule.scheduledAt barFrequency current
  if current < scheduledAt then false
  else
    match previous with
    | none => true
    | some previous =>
      if schedule.frequency = .daily ∧ ¬ isIntradayFrequency barFrequency then
        current / secondsPerDay ≠ previous / secondsPerDay
      else previous < scheduledAt ∧ scheduledAt ≤ current

/-! ## The instants of a schedule -/

def periods : Periods :=
  match schedule.frequency with
  | .daily => days
  | .weekly => weeks
  | .monthly => months

/-- The days from the first of the period to the scheduled one. -/
def dayOffset (k : ℤ) : ℤ :=
  match schedule.frequency with
  | .daily => 0
  | .weekly => schedule.targetWeekday
  | .monthly => min schedule.targetDay (monthStart (k + 1) - monthStart k) - 1

theorem targetWeekday_mem : 0 ≤ schedule.targetWeekday ∧ schedule.targetWeekday < 7 := by
  unfold targetWeekday
  omega

theorem dayOffset_mem (k : ℤ) :
    0 ≤ schedule.dayOffset k ∧
      schedule.periods.start k + schedule.dayOffset k < schedule.periods.start (k + 1) := by
  obtain ⟨frequency, time, weekday, monthday⟩ := schedule
  cases frequency with
  | daily => exact ⟨le_rfl, by show k + 0 < k + 1; omega⟩
  | weekly =>
    have := targetWeekday_mem ⟨.weekly, time, weekday, monthday⟩
    refine ⟨this.1, ?_⟩
    show 7 * k - 3 + targetWeekday ⟨.weekly, time, weekday, monthday⟩ < 7 * (k + 1) - 3
    omega
  | monthly =>
    have hday : 1 ≤ targetDay ⟨.monthly, time, weekday, monthday⟩ := le_max_left _ _
    have hmonth : monthStart k < monthStart (k + 1) := months.start_lt k
    unfold dayOffset periods
    dsimp only
    show _ ∧ monthStart k + _ < monthStart (k + 1)
    omega

theorem secondsOn_nonneg (barFrequency : List Char) : 0 ≤ schedule.secondsOn barFrequency := by
  unfold secondsOn
  split
  · cases schedule.time with
    | none => exact le_rfl
    | some t =>
      show 0 ≤ 3600 * (t.hours : ℤ) + 60 * t.minutes
      omega
  · exact le_rfl

/-- One instant in each day, week or month. -/
def plan (barFrequency : List Char) : Plan where
  periods := schedule.periods
  dayOffset := schedule.dayOffset
  seconds := schedule.secondsOn barFrequency
  dayOffset_nonneg := fun k => (schedule.dayOffset_mem k).1
  dayOffset_lt := fun k => (schedule.dayOffset_mem k).2
  seconds_nonneg := schedule.secondsOn_nonneg barFrequency

/-- **The instant of the current period.** -/
theorem scheduledAt_eq (barFrequency : List Char) (current : Time) :
    schedule.scheduledAt barFrequency current =
      (schedule.plan barFrequency).instantOf ((schedule.plan barFrequency).now current) := by
  have hdate : ∀ day, schedule.scheduledDate day =
      schedule.periods.start (schedule.periods.index day) +
        schedule.dayOffset (schedule.periods.index day) := by
    intro day
    obtain ⟨frequency, time, weekday, monthday⟩ := schedule
    cases frequency with
    | daily => exact (add_zero day).symm
    | weekly =>
      show day + (targetWeekday _ - Calendar.weekday day) =
        weeks.start (weeks.index day) + targetWeekday _
      rw [weeks_start]
      omega
    | monthly => rfl
  unfold scheduledAt Plan.instantOf Plan.now
  rw [hdate]
  rfl

/-- A time shows the instants that have come since the previous one: none of an earlier
period has, while that of its own is still to come. -/
def SeesInstants (barFrequency : List Char) (gap : Time × Time) : Prop :=
  ∀ s, (schedule.plan barFrequency).IsInstant s → gap.1 < s → s ≤ gap.2 →
    schedule.scheduledAt barFrequency gap.2 ≤ gap.2

variable {schedule} {barFrequency : List Char}

/-- On daily bars the current day's instant is the start of the day. -/
theorem due_daily_iff {previous current : ℤ} (hlt : previous < current)
    (hdaily : schedule.frequency = .daily) (hbars : ¬ isIntradayFrequency barFrequency) :
    current / secondsPerDay ≠ previous / secondsPerDay ↔
      previous < schedule.scheduledAt barFrequency current := by
  have hat : schedule.scheduledAt barFrequency current =
      current / secondsPerDay * secondsPerDay := by
    have hdate : schedule.scheduledDate (current / secondsPerDay) = current / secondsPerDay := by
      unfold scheduledDate
      rw [hdaily]
    have hseconds : schedule.secondsOn barFrequency = 0 := if_neg hbars
    unfold scheduledAt
    rw [hdate, hseconds, add_zero]
  rw [hat]
  unfold secondsPerDay
  omega

/-- The schedule fires when the current period's instant has come since the previous time. -/
theorem scheduleDue_iff_scheduledAt {previous current : ℤ} (hlt : previous < current) :
    schedule.scheduleDue current (some previous) barFrequency = true ↔
      previous < schedule.scheduledAt barFrequency current ∧
        schedule.scheduledAt barFrequency current ≤ current := by
  unfold scheduleDue
  dsimp only
  split
  next hahead =>
    constructor
    · intro h
      cases h
    · intro h
      exact absurd h.2 (not_le.mpr hahead)
  next hcome =>
    split
    next hdaily =>
      rw [decide_eq_true_iff, due_daily_iff hlt hdaily.1 hdaily.2]
      exact ⟨fun h => ⟨h, not_lt.mp hcome⟩, fun h => h.1⟩
    next => exact decide_eq_true_iff

/-- An instant in the gap is of the current period or an earlier one, so the current
period's instant comes no earlier. -/
theorem lt_scheduledAt_of_instant {s previous current : ℤ}
    (hs : (schedule.plan barFrequency).IsInstant s) (hprevious : previous < s)
    (hcurrent : s ≤ current) : previous < schedule.scheduledAt barFrequency current := by
  obtain ⟨k, rfl⟩ := hs
  rw [scheduledAt_eq]
  have hk : k ≤ (schedule.plan barFrequency).now current := by
    by_contra hlater
    exact absurd hcurrent (not_le.mpr (Plan.lt_instantOf_of_now_lt _ (not_le.mp hlater)))
  exact hprevious.trans_le ((schedule.plan barFrequency).instantOf_strictMono.monotone hk)

/-- **A firing.**  The schedule fires exactly when an instant has come since the previous
time, if and only if the gap shows its instants. -/
theorem scheduleDue_iff {previous current : ℤ} (hlt : previous < current) :
    (schedule.scheduleDue current (some previous) barFrequency = true ↔
        ∃ s, (schedule.plan barFrequency).IsInstant s ∧ previous < s ∧ s ≤ current) ↔
      schedule.SeesInstants barFrequency (previous, current) := by
  rw [scheduleDue_iff_scheduledAt hlt]
  constructor
  · intro h s hs hprevious hcurrent
    exact (h.mpr ⟨s, hs, hprevious, hcurrent⟩).2
  · intro hsees
    constructor
    · rintro ⟨hprevious, hcurrent⟩
      exact ⟨_, ⟨_, schedule.scheduledAt_eq barFrequency current⟩, hprevious, hcurrent⟩
    · rintro ⟨s, hs, hprevious, hcurrent⟩
      exact ⟨lt_scheduledAt_of_instant hs hprevious hcurrent, hsees s hs hprevious hcurrent⟩

/-! ## Sequences of clock times -/

/-- Each time with the one before it. -/
def gaps : Time → List Time → List (Time × Time)
  | _, [] => []
  | t, next :: ts => (t, next) :: gaps next ts

variable (schedule) in
/-- Each instant after the first time, up to the last one, has exactly one gap in which the
schedule fires, at the first time that is not before it; and the schedule fires only at
such times. -/
structure FiresOnce (barFrequency : List Char) (t : Time) (ts : List Time) : Prop where
  fires : ∀ s, (schedule.plan barFrequency).IsInstant s → t < s →
    s ≤ (t :: ts).getLast (List.cons_ne_nil t ts) →
      ∃! gap, gap ∈ gaps t ts ∧ gap.1 < s ∧ s ≤ gap.2 ∧
        schedule.scheduleDue gap.2 (some gap.1) barFrequency = true
  only : ∀ gap ∈ gaps t ts, schedule.scheduleDue gap.2 (some gap.1) barFrequency = true →
    ∃ s, (schedule.plan barFrequency).IsInstant s ∧ gap.1 < s ∧ s ≤ gap.2

section
variable {t : ℤ} {ts : List ℤ}

theorem gaps_lt (h : (t :: ts).Pairwise (· < ·)) {gap : ℤ × ℤ} (hgap : gap ∈ gaps t ts) :
    t ≤ gap.1 ∧ gap.1 < gap.2 ∧ gap.2 ≤ (t :: ts).getLast (List.cons_ne_nil t ts) := by
  induction ts generalizing t with
  | nil => cases hgap
  | cons next ts ih =>
    obtain ⟨hfirst, hrest⟩ := List.pairwise_cons.mp h
    have hnext := hfirst next List.mem_cons_self
    rw [List.getLast_cons (List.cons_ne_nil next ts)]
    rcases List.mem_cons.mp hgap with rfl | hgap
    · refine ⟨le_rfl, hnext, ?_⟩
      rcases List.mem_cons.mp (List.getLast_mem (List.cons_ne_nil next ts)) with heq | hmem
      · exact heq.ge
      · exact ((List.pairwise_cons.mp hrest).1 _ hmem).le
    · obtain ⟨h₁, h₂, h₃⟩ := ih hrest hgap
      exact ⟨hnext.le.trans h₁, h₂, h₃⟩

/-- Exactly one gap holds an instant between the first and the last time. -/
theorem existsUnique_gap (h : (t :: ts).Pairwise (· < ·)) {s : ℤ} (hs : t < s)
    (hs' : s ≤ (t :: ts).getLast (List.cons_ne_nil t ts)) :
    ∃! gap, gap ∈ gaps t ts ∧ gap.1 < s ∧ s ≤ gap.2 := by
  induction ts generalizing t with
  | nil => exact absurd hs' (not_le.mpr hs)
  | cons next ts ih =>
    obtain ⟨-, hrest⟩ := List.pairwise_cons.mp h
    rw [List.getLast_cons (List.cons_ne_nil next ts)] at hs'
    rcases le_or_gt s next with hle | hgt
    · refine ⟨(t, next), ⟨List.mem_cons_self, hs, hle⟩, ?_⟩
      rintro gap ⟨hgap, hlt, -⟩
      rcases List.mem_cons.mp hgap with rfl | hgap
      · rfl
      · exact absurd (hlt.trans_le hle) (not_lt.mpr (gaps_lt hrest hgap).1)
    · obtain ⟨gap, ⟨hgap, hlt, hle⟩, hunique⟩ := ih hrest hgt hs'
      refine ⟨gap, ⟨List.mem_cons_of_mem _ hgap, hlt, hle⟩, ?_⟩
      rintro gap' ⟨hgap', hlt', hle'⟩
      rcases List.mem_cons.mp hgap' with rfl | hgap'
      · dsimp only at hle'
        omega
      · exact hunique gap' ⟨hgap', hlt', hle'⟩

/-- **Scheduled callbacks fire exactly once**, and only then, over any increasing sequence
of times, if and only if every gap shows its instants. -/
theorem firesOnce_iff (h : (t :: ts).Pairwise (· < ·)) :
    schedule.FiresOnce barFrequency t ts ↔
      ∀ gap ∈ gaps t ts, schedule.SeesInstants barFrequency gap := by
  constructor
  · intro hfires gap hgap
    obtain ⟨hfirst, hlt, hlast⟩ := gaps_lt h hgap
    refine (scheduleDue_iff hlt).mp ⟨hfires.only gap hgap, ?_⟩
    rintro ⟨s, hs, hprevious, hcurrent⟩
    obtain ⟨gap', ⟨hgap', hprevious', hcurrent', hdue⟩, -⟩ :=
      hfires.fires s hs (hfirst.trans_lt hprevious) (hcurrent.trans hlast)
    obtain ⟨found, -, hunique⟩ := existsUnique_gap h (hfirst.trans_lt hprevious)
      (hcurrent.trans hlast)
    have hsame : gap' = gap :=
      (hunique gap' ⟨hgap', hprevious', hcurrent'⟩).trans
        (hunique gap ⟨hgap, hprevious, hcurrent⟩).symm
    exact hsame ▸ hdue
  · intro hsees
    refine ⟨fun s hs hfirst hlast => ?_, fun gap hgap hdue => ?_⟩
    · obtain ⟨gap, ⟨hgap, hprevious, hcurrent⟩, hunique⟩ := existsUnique_gap h hfirst hlast
      have hdue := ((scheduleDue_iff (gaps_lt h hgap).2.1).mpr (hsees gap hgap)).mpr
        ⟨s, hs, hprevious, hcurrent⟩
      exact ⟨gap, ⟨hgap, hprevious, hcurrent, hdue⟩, fun gap' h' =>
        hunique gap' ⟨h'.1, h'.2.1, h'.2.2.1⟩⟩
    · exact ((scheduleDue_iff (gaps_lt h hgap).2.1).mpr (hsees gap hgap)).mp hdue

end

/-! ## A daily callback at 9:35 -/

def dailyAt935 : ScheduleSpec where
  frequency := .daily
  time := some ⟨9, 35⟩

/-- A time on the day of 2026-01-05, a Monday, or so many days later. -/
def clock (days hours minutes : ℤ) : Time :=
  (20458 + days) * secondsPerDay + 3600 * hours + 60 * minutes

example : Calendar.weekday 20458 = 0 ∧ monthStart (monthIndex 20458) = 20454 := by decide

/-- Times of one day. -/
theorem firesOnce_iff_monday :
    dailyAt935.FiresOnce "5m".toList (clock 0 9 30) [clock 0 9 40, clock 0 10 0] := by
  refine (firesOnce_iff (by decide)).mpr fun gap hgap => ?_
  rcases List.mem_cons.mp hgap with rfl | hgap
  · exact fun _ _ _ _ => by decide
  · rcases List.mem_cons.mp hgap with rfl | hgap
    · exact fun _ _ _ _ => by decide
    · cases hgap

/-- From Monday 9:30 to Tuesday 9:00: Monday's callback never fires. -/
theorem mondayInstant_lost :
    ¬ dailyAt935.FiresOnce "5m".toList (clock 0 9 30) [clock 1 9 0] := by
  intro h
  obtain ⟨gap, ⟨hgap, -, -, hdue⟩, -⟩ := h.fires (clock 0 9 35) ⟨20458, by decide⟩ (by decide)
    (by decide)
  rcases List.mem_cons.mp hgap with rfl | hgap
  · exact absurd hdue (by decide)
  · cases hgap

end ScheduleSpec

end AlgoTrade.Backtest
