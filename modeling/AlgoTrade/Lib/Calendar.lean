import Mathlib.Algebra.Order.Ring.Int
import Mathlib.Data.Int.ConditionallyCompleteOrder
import Mathlib.Order.Monotone.Basic
import Mathlib.Order.SuccPred.IntervalSucc
import Mathlib.Tactic.IntervalCases
import Mathlib.Tactic.SplitIfs

/-! # Days, weeks and months

Days are numbered from 1970-01-01.  `Periods` cuts them into consecutive periods.

* `days`, `weeks`, `months`: the periods of the Gregorian calendar.
* `Plan.instantOf_strictMono`: one instant in each period, in the order of the periods.
* `Plan.lt_instantOf_of_now_lt`: the instants of later periods are later than now. -/

namespace Calendar

/-- Period `k` begins on the day `start k`; `index d` is the period of the day `d`. -/
structure Periods where
  start : ℤ → ℤ
  index : ℤ → ℤ
  start_lt : ∀ k, start k < start (k + 1)
  start_index_le : ∀ d, start (index d) ≤ d
  lt_start_index : ∀ d, d < start (index d + 1)

def days : Periods where
  start := id
  index := id
  start_lt := fun k => by simp
  start_index_le := fun _ => le_rfl
  lt_start_index := fun d => by simp

/-- 0 is a Monday. -/
def weekday (day : ℤ) : ℤ := (day + 3) % 7

/-- From Monday on. -/
def weeks : Periods where
  start k := 7 * k - 3
  index d := (d + 3) / 7
  start_lt := fun k => by omega
  start_index_le := fun d => by omega
  lt_start_index := fun d => by omega

theorem weeks_start (day : ℤ) : weeks.start (weeks.index day) = day - weekday day := by
  unfold weekday
  show 7 * ((day + 3) / 7) - 3 = _
  omega

/-! ## Months -/

/-- The days before the year that follows `y` whole years. -/
def yearStart (y : ℤ) : ℤ := 365 * y + y / 4 - y / 100 + y / 400

/-- 1 in a leap year. -/
def leapDay (y : ℤ) : ℤ := yearStart (y + 1) - yearStart y - 365

theorem leapDay_cases (y : ℤ) : leapDay y = 0 ∨ leapDay y = 1 := by
  unfold leapDay yearStart
  omega

/-- The year of a day, both counted from the year 1. -/
def yearOf (day : ℤ) : ℤ :=
  let y := day * 400 / 146097
  if day < yearStart y then y - 1 else if yearStart (y + 1) ≤ day then y + 1 else y

theorem yearOf_spec (day : ℤ) : yearStart (yearOf day) ≤ day ∧ day < yearStart (yearOf day + 1) := by
  unfold yearOf
  dsimp only
  split
  next h =>
    unfold yearStart at h ⊢
    omega
  next h =>
    split
    next h' =>
      unfold yearStart at h h' ⊢
      omega
    next h' => exact ⟨not_lt.mp h, not_le.mp h'⟩

/-- The days of the year before the month, with 0 for January. -/
def monthOffset (leap month : ℤ) : ℤ :=
  if month ≤ 0 then 0
  else if month = 1 then 31
  else if month = 2 then 59 + leap
  else if month = 3 then 90 + leap
  else if month = 4 then 120 + leap
  else if month = 5 then 151 + leap
  else if month = 6 then 181 + leap
  else if month = 7 then 212 + leap
  else if month = 8 then 243 + leap
  else if month = 9 then 273 + leap
  else if month = 10 then 304 + leap
  else if month = 11 then 334 + leap
  else 365 + leap

/-- The last of the first months that begins by the day. -/
def lastBegun (leap dayOfYear : ℤ) : ℕ → ℤ
  | 0 => 0
  | n + 1 => if monthOffset leap (n + 1) ≤ dayOfYear then n + 1 else lastBegun leap dayOfYear n

def monthOf (leap dayOfYear : ℤ) : ℤ := lastBegun leap dayOfYear 11

/-- 1970-01-01, counted from the first day of the year 1. -/
def epoch : ℤ := 719162

/-- The first day of the month, counted from January of the year 1. -/
def monthStart (k : ℤ) : ℤ :=
  yearStart (k / 12) + monthOffset (leapDay (k / 12)) (k % 12) - epoch

def monthIndex (day : ℤ) : ℤ :=
  let y := yearOf (day + epoch)
  12 * y + monthOf (leapDay y) (day + epoch - yearStart y)

theorem monthOffset_values (leap : ℤ) :
    monthOffset leap 0 = 0 ∧ monthOffset leap 1 = 31 ∧ monthOffset leap 2 = 59 + leap ∧
      monthOffset leap 3 = 90 + leap ∧ monthOffset leap 4 = 120 + leap ∧
      monthOffset leap 5 = 151 + leap ∧ monthOffset leap 6 = 181 + leap ∧
      monthOffset leap 7 = 212 + leap ∧ monthOffset leap 8 = 243 + leap ∧
      monthOffset leap 9 = 273 + leap ∧ monthOffset leap 10 = 304 + leap ∧
      monthOffset leap 11 = 334 + leap ∧ monthOffset leap 12 = 365 + leap :=
  ⟨rfl, rfl, rfl, rfl, rfl, rfl, rfl, rfl, rfl, rfl, rfl, rfl, rfl⟩

theorem lastBegun_spec {leap dayOfYear : ℤ} (h : 0 ≤ dayOfYear) (n : ℕ) :
    0 ≤ lastBegun leap dayOfYear n ∧ lastBegun leap dayOfYear n ≤ n ∧
      monthOffset leap (lastBegun leap dayOfYear n) ≤ dayOfYear ∧
      (dayOfYear < monthOffset leap (n + 1) →
        dayOfYear < monthOffset leap (lastBegun leap dayOfYear n + 1)) := by
  induction n with
  | zero => exact ⟨le_rfl, le_rfl, h, id⟩
  | succ n ih =>
    unfold lastBegun
    split
    next hbegun => exact ⟨by omega, by omega, hbegun, fun hlt => by exact_mod_cast hlt⟩
    next hahead =>
      obtain ⟨hnonneg, hle, hbegun, hlast⟩ := ih
      exact ⟨hnonneg, by omega, hbegun, fun _ => hlast (not_le.mp hahead)⟩

theorem monthOf_spec {leap dayOfYear : ℤ} (h : 0 ≤ dayOfYear) (h' : dayOfYear < 365 + leap) :
    0 ≤ monthOf leap dayOfYear ∧ monthOf leap dayOfYear < 12 ∧
      monthOffset leap (monthOf leap dayOfYear) ≤ dayOfYear ∧
      dayOfYear < monthOffset leap (monthOf leap dayOfYear + 1) := by
  have hspec : 0 ≤ monthOf leap dayOfYear ∧ monthOf leap dayOfYear ≤ (11 : ℕ) ∧
      monthOffset leap (monthOf leap dayOfYear) ≤ dayOfYear ∧
      (dayOfYear < 365 + leap → dayOfYear < monthOffset leap (monthOf leap dayOfYear + 1)) :=
    lastBegun_spec h 11
  exact ⟨hspec.1, by have := hspec.2.1; omega, hspec.2.2.1, hspec.2.2.2 h'⟩

/-- A month has at least 28 days. -/
theorem monthOffset_succ {leap month : ℤ} (hleap : leap = 0 ∨ leap = 1) (h : 0 ≤ month)
    (h' : month < 12) : monthOffset leap month + 28 ≤ monthOffset leap (month + 1) := by
  obtain ⟨h₀, h₁, h₂, h₃, h₄, h₅, h₆, h₇, h₈, h₉, h₁₀, h₁₁, h₁₂⟩ := monthOffset_values leap
  interval_cases month <;> simp only [Int.reduceAdd] <;> omega

/-- The month that follows begins where the month ends, also over the end of a year. -/
theorem monthStart_succ (k : ℤ) :
    monthStart (k + 1) =
      yearStart (k / 12) + monthOffset (leapDay (k / 12)) (k % 12 + 1) - epoch := by
  rcases lt_or_eq_of_le (show k % 12 ≤ 11 by omega) with hlt | heq
  · have hyear : (k + 1) / 12 = k / 12 := by omega
    have hmonth : (k + 1) % 12 = k % 12 + 1 := by omega
    unfold monthStart
    rw [hyear, hmonth]
  · have hyear : (k + 1) / 12 = k / 12 + 1 := by omega
    have hmonth : (k + 1) % 12 = 0 := by omega
    have hdays : yearStart (k / 12 + 1) = yearStart (k / 12) + (365 + leapDay (k / 12)) := by
      unfold leapDay
      omega
    have hfirst : monthOffset (leapDay (k / 12 + 1)) 0 = 0 := rfl
    have hlast : monthOffset (leapDay (k / 12)) (11 + 1) = 365 + leapDay (k / 12) := rfl
    unfold monthStart
    rw [hyear, hmonth, heq, hlast, hfirst, hdays]
    omega

theorem monthIndex_spec (day : ℤ) :
    monthStart (monthIndex day) ≤ day ∧ day < monthStart (monthIndex day + 1) := by
  obtain ⟨hyear, hyear'⟩ := yearOf_spec (day + epoch)
  have hlength : yearStart (yearOf (day + epoch) + 1) =
      yearStart (yearOf (day + epoch)) + (365 + leapDay (yearOf (day + epoch))) := by
    unfold leapDay
    omega
  obtain ⟨hmonth, hmonth', hle, hlt⟩ :=
    monthOf_spec (show 0 ≤ day + epoch - yearStart (yearOf (day + epoch)) by omega)
      (show _ < 365 + leapDay (yearOf (day + epoch)) by omega)
  have hindex : monthIndex day = 12 * yearOf (day + epoch) +
      monthOf (leapDay (yearOf (day + epoch))) (day + epoch - yearStart (yearOf (day + epoch))) :=
    rfl
  have hquotient : monthIndex day / 12 = yearOf (day + epoch) := by omega
  have hremainder : monthIndex day % 12 = monthOf (leapDay (yearOf (day + epoch)))
      (day + epoch - yearStart (yearOf (day + epoch))) := by omega
  rw [monthStart_succ]
  unfold monthStart
  rw [hquotient, hremainder]
  omega

def months : Periods where
  start := monthStart
  index := monthIndex
  start_lt := fun k => by
    rw [monthStart_succ]
    have := monthOffset_succ (leapDay_cases (k / 12)) (show 0 ≤ k % 12 by omega) (by omega)
    unfold monthStart
    omega
  start_index_le := fun d => (monthIndex_spec d).1
  lt_start_index := fun d => (monthIndex_spec d).2

/-! ## One instant in each period -/

def secondsPerDay : ℤ := 86400

/-- An instant in each period: so many days after its first, so many seconds into that day. -/
structure Plan where
  periods : Periods
  dayOffset : ℤ → ℤ
  seconds : ℤ
  dayOffset_nonneg : ∀ k, 0 ≤ dayOffset k
  dayOffset_lt : ∀ k, periods.start k + dayOffset k < periods.start (k + 1)
  seconds_nonneg : 0 ≤ seconds

namespace Plan

variable (plan : Plan)

/-- The instant of a period. -/
def instantOf (k : ℤ) : ℤ :=
  (plan.periods.start k + plan.dayOffset k) * secondsPerDay + plan.seconds

def IsInstant (s : ℤ) : Prop := ∃ k, s = plan.instantOf k

/-- The period of a time. -/
def now (t : ℤ) : ℤ := plan.periods.index (t / secondsPerDay)

theorem instantOf_strictMono : StrictMono plan.instantOf := by
  refine strictMono_int_of_lt_succ fun k => ?_
  have := plan.dayOffset_lt k
  have := plan.dayOffset_nonneg (k + 1)
  unfold instantOf secondsPerDay
  omega

/-- The instants of later periods are still to come. -/
theorem lt_instantOf_of_now_lt {t k : ℤ} (h : plan.now t < k) : t < plan.instantOf k := by
  have hday : t / secondsPerDay < plan.periods.start (plan.now t + 1) :=
    plan.periods.lt_start_index _
  have hoffset := plan.dayOffset_nonneg (plan.now t + 1)
  have hseconds := plan.seconds_nonneg
  have hnext : t < plan.instantOf (plan.now t + 1) := by
    unfold instantOf
    unfold secondsPerDay at hday ⊢
    omega
  exact hnext.trans_le (plan.instantOf_strictMono.monotone (by omega))

end Plan

end Calendar
