import Mathlib

/-!
# Cxx.Calendar

The Gregorian calendar, for all days there are. Years begin with March and months are counted through:
month `m` is month `m % 12` of year `m / 12`, and a leap day is the last day of its year. Day 0 is the first
of March of year 0.

* `monthOf_spec`: every day is in the month that `monthOf` finds.
* `date_lt`: a later day has a later month, or a later day of the same month.
-/

namespace Cxx
namespace Calendar

def isLeap (y : Int) : Bool := y % 4 == 0 && (y % 100 != 0 || y % 400 == 0)

/-- The days of a month. April, June, September and November have 30. -/
def daysIn (m : Int) : Int :=
  if m % 12 = 11 then if isLeap (m / 12 + 1) then 29 else 28
  else if m % 12 ∈ [1, 3, 6, 8] then 30 else 31

def yearStart (y : Int) : Int := 365 * y + y / 4 - y / 100 + y / 400

/-- The first day of a month. The months of a year begin after multiples of 30.6 days. -/
def monthStart (m : Int) : Int := yearStart (m / 12) + (153 * (m % 12) + 2) / 5

/-- An estimate from the mean length of a year, put right. -/
def yearOf (day : Int) : Int :=
  let y := 400 * day / 146097
  if day < yearStart y then y - 1 else if yearStart (y + 1) ≤ day then y + 1 else y

def monthOf (day : Int) : Int := 12 * yearOf day + (5 * (day - yearStart (yearOf day)) + 2) / 153

/-- The day of the month, from 1 on. -/
def dayOf (day : Int) : Int := day - monthStart (monthOf day) + 1

theorem isLeap_iff (y : Int) : isLeap y = true ↔ y % 4 = 0 ∧ (y % 100 ≠ 0 ∨ y % 400 = 0) := by
  simp [isLeap]

theorem yearStart_succ (y : Int) :
    yearStart (y + 1) = yearStart y + if isLeap (y + 1) then 366 else 365 := by
  split
  · rename_i h
    have hleap := (isLeap_iff (y + 1)).mp h
    unfold yearStart
    omega
  · rename_i h
    have hleap := mt (isLeap_iff (y + 1)).mpr h
    unfold yearStart
    omega

theorem monthStart_of (y : Int) {k : Int} (hlo : 0 ≤ k) (hhi : k < 12) :
    monthStart (12 * y + k) = yearStart y + (153 * k + 2) / 5 := by
  have hdiv : (12 * y + k) / 12 = y := by omega
  have hmod : (12 * y + k) % 12 = k := by omega
  rw [monthStart, hdiv, hmod]

theorem monthStart_succ (m : Int) : monthStart (m + 1) = monthStart m + daysIn m := by
  obtain ⟨y, k, hlo, hhi, rfl⟩ : ∃ y k, 0 ≤ k ∧ k < 12 ∧ m = 12 * y + k :=
    ⟨m / 12, m % 12, by omega, by omega, by omega⟩
  have hdiv : (12 * y + k) / 12 = y := by omega
  have hmod : (12 * y + k) % 12 = k := by omega
  rw [daysIn, hdiv, hmod, monthStart_of y hlo hhi]
  by_cases hlast : k = 11
  · have hnext : 12 * y + k + 1 = 12 * (y + 1) + 0 := by omega
    rw [if_pos hlast, hlast] at *
    rw [hnext, monthStart_of (y + 1) (by decide) (by decide), yearStart_succ]
    split <;> omega
  · have hnext : 12 * y + k + 1 = 12 * y + (k + 1) := by omega
    rw [if_neg hlast, hnext, monthStart_of y (by omega) (by omega), add_assoc]
    congr 1
    interval_cases k <;> first | rfl | exact absurd rfl hlast

theorem daysIn_bounds (m : Int) : 28 ≤ daysIn m ∧ daysIn m ≤ 31 := by
  unfold daysIn
  split
  · split <;> omega
  · split <;> omega

theorem monthStart_strictMono : StrictMono monthStart :=
  strictMono_int_of_lt_succ fun m => by
    have hnext := monthStart_succ m
    have hdays := (daysIn_bounds m).1
    omega

theorem yearOf_spec (day : Int) : yearStart (yearOf day) ≤ day ∧ day < yearStart (yearOf day + 1) := by
  unfold yearOf yearStart
  dsimp only
  split
  · omega
  · split <;> omega

theorem monthOf_spec (day : Int) :
    monthStart (monthOf day) ≤ day ∧ day < monthStart (monthOf day + 1) := by
  obtain ⟨hstart, hend⟩ := yearOf_spec day
  have hyear := yearStart_succ (yearOf day)
  have hdays : day - yearStart (yearOf day) < 366 := by split at hyear <;> omega
  unfold monthOf
  generalize hk : (5 * (day - yearStart (yearOf day)) + 2) / 153 = k
  rw [monthStart_of _ (by omega) (by omega)]
  refine ⟨by omega, ?_⟩
  by_cases hlast : k = 11
  · have hnext : 12 * yearOf day + k + 1 = 12 * (yearOf day + 1) + 0 := by omega
    rw [hnext, monthStart_of _ (by decide) (by decide)]
    omega
  · have hnext : 12 * yearOf day + k + 1 = 12 * yearOf day + (k + 1) := by omega
    rw [hnext, monthStart_of _ (by omega) (by omega)]
    omega

theorem dayOf_bounds (day : Int) : 1 ≤ dayOf day ∧ dayOf day ≤ 31 := by
  obtain ⟨hstart, hend⟩ := monthOf_spec day
  have hnext := monthStart_succ (monthOf day)
  have hdays := (daysIn_bounds (monthOf day)).2
  unfold dayOf
  omega

/-- The day is found again from its date. -/
theorem day_of_date (day : Int) : monthStart (monthOf day) + dayOf day - 1 = day := by
  unfold dayOf
  omega

theorem date_lt {day day' : Int} (h : day < day') :
    monthOf day < monthOf day' ∨ monthOf day = monthOf day' ∧ dayOf day < dayOf day' := by
  rcases Int.lt_trichotomy (monthOf day) (monthOf day') with hlt | heq | hgt
  · exact .inl hlt
  · refine .inr ⟨heq, ?_⟩
    unfold dayOf
    rw [heq]
    omega
  · -- the month of the later day has ended before that of the other one begins
    have hstart := (monthOf_spec day).1
    have hend := (monthOf_spec day').2
    have hle : monthStart (monthOf day' + 1) ≤ monthStart (monthOf day) :=
      monthStart_strictMono.monotone hgt
    omega

/-- The first of January 1970. -/
example : monthStart (12 * 1969 + 10) = 719468 := by decide

end Calendar
end Cxx
