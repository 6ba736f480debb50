import Mathlib.Tactic.IntervalCases
import Stencil.Calendar.Date

/-! Days and dates. The date of a day is one that the calendar has, and counting up to it gives the
day again, however far from 1970 it lies. -/

namespace Stencil.Calendar.Date

/-- The day after so many others of a year that starts in March. -/
def ofMarch (year : Int) (before : Nat) : Date :=
  let month := (5 * before + 2) / 153
  ⟨if month < 10 then year else year + 1, if month < 10 then month + 3 else month - 9,
    before - (153 * month + 2) / 5 + 1⟩

/-- Which year of the reckoning a day lies in: the cycles, centuries, spans of four years and years
that have passed. -/
structure Reckoning where
  cycle : Int
  century : Nat
  span : Nat
  year : Nat
  before : Nat
  century_le : century ≤ 3
  span_le : span ≤ 24
  year_le : year ≤ 3
  before_le : before ≤ 365
  /-- only the last year of a span is long, and of the last span only in the last century -/
  leap : before = 365 → year = 3 ∧ (span = 24 → century = 3)

namespace Reckoning

def toYear (r : Reckoning) : Int := 400 * r.cycle + 100 * r.century + 4 * r.span + r.year

def toDays (r : Reckoning) : Int :=
  146097 * r.cycle + 36524 * r.century + 1461 * r.span + 365 * r.year + r.before

theorem toDays_eq (r : Reckoning) :
    r.toDays = 365 * r.toYear + r.toYear / 4 - r.toYear / 100 + r.toYear / 400 + r.before := by
  have hcentury := r.century_le
  have hspan := r.span_le
  have hyear := r.year_le
  have h4 : r.toYear / 4 = 100 * r.cycle + 25 * r.century + r.span := by rw [toYear]; omega
  have h100 : r.toYear / 100 = 4 * r.cycle + r.century := by rw [toYear]; omega
  have h400 : r.toYear / 400 = r.cycle := by rw [toYear]; omega
  rw [h4, h100, h400, toYear, toDays]
  omega

theorem isLeap_of_before (r : Reckoning) (h : r.before = 365) : isLeap (r.toYear + 1) = true := by
  obtain ⟨hlast, hend⟩ := r.leap h
  have hcentury := r.century_le
  have hspan := r.span_le
  have h4 : (r.toYear + 1) % 4 = 0 := by rw [toYear]; omega
  have h100 : (r.toYear + 1) % 100 ≠ 0 ∨ (r.toYear + 1) % 400 = 0 := by rw [toYear]; omega
  simpa [isLeap, h4] using h100

end Reckoning

def reckon (days : Int) : Reckoning :=
  let n := ((days + epoch) % 146097).toNat
  let century := min (n / 36524) 3
  let inCentury := n - 36524 * century
  let span := inCentury / 1461
  let inSpan := inCentury - 1461 * span
  let year := min (inSpan / 365) 3
  have hn : n < 146097 := by omega
  { cycle := (days + epoch) / 146097
    century, span, year
    before := inSpan - 365 * year
    century_le := Nat.min_le_right _ _
    span_le := by omega
    year_le := Nat.min_le_right _ _
    before_le := by omega
    leap := by omega }

theorem ofDays_eq (days : Int) : ofDays days = ofMarch (reckon days).toYear (reckon days).before :=
  rfl

theorem toDays_reckon (days : Int) : (reckon days).toDays = days + epoch := by
  simp only [reckon, Reckoning.toDays]
  omega

/-! The months of a year that starts in March. -/

theorem toDays_ofMarch (year : Int) {before : Nat} (h : before ≤ 365) :
    (ofMarch year before).toDays =
      365 * year + year / 4 - year / 100 + year / 400 + before - epoch := by
  have hmonth : (5 * before + 2) / 153 ≤ 11 := by omega
  rw [ofMarch, toDays]
  by_cases hlt : (5 * before + 2) / 153 < 10
  · have hlate : ¬ (5 * before + 2) / 153 + 3 ≤ 2 := by omega
    simp only [hlt, hlate, if_true, if_false]
    omega
  · have hearly : (5 * before + 2) / 153 - 9 ≤ 2 := by omega
    simp only [hlt, hearly, if_true, if_false]
    omega

theorem toDays_ofDays (days : Int) : (ofDays days).toDays = days := by
  rw [ofDays_eq, toDays_ofMarch _ (reckon days).before_le, ← Reckoning.toDays_eq, toDays_reckon]
  omega

structure IsValid (d : Date) : Prop where
  month_pos : 1 ≤ d.month
  month_le : d.month ≤ 12
  day_pos : 1 ≤ d.day
  day_le : d.day ≤ monthLength d.year d.month

/-- All months but February, which ends the year, are as long as the days up to them tell. -/
theorem monthLength_of_lt {month : Nat} (h : month < 11) (year : Int) :
    monthLength year (if month < 10 then month + 3 else month - 9) =
      (153 * (month + 1) + 2) / 5 - (153 * month + 2) / 5 := by
  interval_cases month <;> rfl

theorem isValid_ofMarch {year : Int} {before : Nat} (h : before ≤ 365)
    (hleap : before = 365 → isLeap (year + 1) = true) : (ofMarch year before).IsValid := by
  obtain ⟨month, hmonth⟩ : ∃ month, month = (5 * before + 2) / 153 := ⟨_, rfl⟩
  have hle : month ≤ 11 := by omega
  rw [ofMarch]
  simp only [← hmonth]
  refine ⟨?_, ?_, Nat.le_add_left 1 _, ?_⟩
  · show 1 ≤ if month < 10 then month + 3 else month - 9
    split <;> omega
  · show (if month < 10 then month + 3 else month - 9) ≤ 12
    split <;> omega
  · show before - (153 * month + 2) / 5 + 1 ≤ monthLength (if month < 10 then year else year + 1)
      (if month < 10 then month + 3 else month - 9)
    by_cases hlt : month < 11
    · rw [monthLength_of_lt hlt]
      omega
    · obtain rfl : month = 11 := by omega
      have hfebruary : monthLength (year + 1) 2 = if isLeap (year + 1) then 29 else 28 := rfl
      show before - 337 + 1 ≤ monthLength (year + 1) 2
      rw [hfebruary]
      by_cases hlong : before = 365
      · rw [hleap hlong]
        simp [hlong]
      · split <;> omega

theorem isValid_ofDays (days : Int) : (ofDays days).IsValid := by
  rw [ofDays_eq]
  exact isValid_ofMarch (reckon days).before_le (reckon days).isLeap_of_before

theorem ofParts?_of_isValid {d : Date} (h : d.IsValid) (hmin : minYear ≤ d.year)
    (hmax : d.year ≤ maxYear) : ofParts? d.year d.month d.day = some d := by
  simp [ofParts?, hmin, hmax, h.month_pos, h.month_le, h.day_pos, h.day_le]

theorem year_ofMarch (year : Int) (before : Nat) :
    (ofMarch year before).year = if before < 306 then year else year + 1 := by
  have h : (5 * before + 2) / 153 < 10 ↔ before < 306 := by omega
  rw [ofMarch]
  simp only [h]

/-- From 0000-01-01, two months before the first cycle, to 9999-12-31, two months before the end of
the 25th. -/
theorem Reckoning.year_bounds {r : Reckoning} (hmin : -60 ≤ r.toDays) (hmax : r.toDays ≤ 3652364) :
    0 ≤ (ofMarch r.toYear r.before).year ∧ (ofMarch r.toYear r.before).year ≤ 9999 := by
  have hcentury := r.century_le
  have hspan := r.span_le
  have hyear := r.year_le
  have hbefore := r.before_le
  rw [toDays] at hmin hmax
  rw [year_ofMarch, toYear]
  have hcycle : -1 ≤ r.cycle ∧ r.cycle ≤ 24 := by omega
  by_cases hfirst : r.cycle = -1
  · have hend : r.century = 3 ∧ r.span = 24 ∧ r.year = 3 := by omega
    split <;> omega
  · by_cases hlast : r.cycle = 24 ∧ r.century = 3 ∧ r.span = 24 ∧ r.year = 3
    · split <;> omega
    · split <;> omega

theorem year_ofDays {days : Int} (hmin : toDays ⟨0, 1, 1⟩ ≤ days)
    (hmax : days ≤ toDays ⟨9999, 12, 31⟩) : 0 ≤ (ofDays days).year ∧ (ofDays days).year ≤ 9999 := by
  have hfirst : toDays ⟨0, 1, 1⟩ = -60 - epoch := by decide
  have hlast : toDays ⟨9999, 12, 31⟩ = 3652364 - epoch := by decide
  rw [ofDays_eq]
  apply Reckoning.year_bounds <;> rw [toDays_reckon] <;> omega

end Stencil.Calendar.Date
