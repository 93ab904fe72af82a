import Mathlib.Algebra.BigOperators.Intervals
import Mathlib.Tactic

/-!
# The Gregorian calendar

Dates from the first of January of the year 1 on. `dayNumber` counts the days before a date, month
by month and year by year, and `weekday` counts on from the first day, which is a Monday. Every
number is the day number of a date (`exists_date`); `daysBeforeYear_eq` is the closed form with the
leap days.
-/

namespace UBoot.Lib.Calendar

def Leap (y : ℕ) : Prop := y % 4 = 0 ∧ (y % 100 ≠ 0 ∨ y % 400 = 0)

instance (y : ℕ) : Decidable (Leap y) := inferInstanceAs (Decidable (_ ∧ _))

def yearLength (y : ℕ) : ℕ := if Leap y then 366 else 365

def monthLength (y m : ℕ) : ℕ :=
  if m = 2 then if Leap y then 29 else 28
  else if m = 4 ∨ m = 6 ∨ m = 9 ∨ m = 11 then 30
  else 31

/-- The days of the years before `y`. -/
def daysBeforeYear (y : ℕ) : ℕ := ∑ k ∈ Finset.Ico 1 y, yearLength k

/-- The days of the months of year `y` before month `m`. -/
def daysBeforeMonth (y m : ℕ) : ℕ := ∑ k ∈ Finset.Ico 1 m, monthLength y k

structure IsDate (y m d : ℕ) : Prop where
  year : 1 ≤ y
  month : 1 ≤ m ∧ m ≤ 12
  day : 1 ≤ d ∧ d ≤ monthLength y m

def dayNumber (y m d : ℕ) : ℕ := daysBeforeYear y + daysBeforeMonth y m + (d - 1)

@[simp] theorem dayNumber_first {y : ℕ} : dayNumber y 1 1 = daysBeforeYear y := rfl

def weekday (y m d : ℕ) : ℕ := (dayNumber y m d + 1) % 7

variable {y y' m m' d d' n : ℕ}

theorem daysBeforeYear_succ (hy : 1 ≤ y) :
    daysBeforeYear (y + 1) = daysBeforeYear y + yearLength y := Finset.sum_Ico_succ_top hy _

@[simp] theorem daysBeforeMonth_one : daysBeforeMonth y 1 = 0 := rfl

theorem daysBeforeMonth_succ (hm : 1 ≤ m) :
    daysBeforeMonth y (m + 1) = daysBeforeMonth y m + monthLength y m :=
  Finset.sum_Ico_succ_top hm _

/-- **The closed form of the years**: each has 365 days, and the leap years one more. -/
theorem daysBeforeYear_eq (hy : 1 ≤ y) : daysBeforeYear y + (y - 1) / 100 =
    365 * (y - 1) + (y - 1) / 4 + (y - 1) / 400 := by
  induction y, hy using Nat.le_induction with
  | base => rfl
  | succ y hy ih =>
    rw [daysBeforeYear_succ hy, Nat.add_sub_cancel]
    by_cases hleap : Leap y
    · rw [yearLength, if_pos hleap]
      obtain ⟨hfour, hcentury⟩ := hleap
      omega
    · rw [yearLength, if_neg hleap]
      unfold Leap at hleap
      omega

/-- The closed form of the months, by the number of days before each in a common year. -/
theorem daysBeforeMonth_eq (hm : 1 ≤ m ∧ m ≤ 12) : daysBeforeMonth y m =
    [0, 31, 59, 90, 120, 151, 181, 212, 243, 273, 304, 334].getD (m - 1) 0 +
      if 2 < m ∧ Leap y then 1 else 0 := by
  obtain ⟨hm, hm'⟩ := hm
  induction m, hm using Nat.le_induction with
  | base => rfl
  | succ m hm ih =>
    rw [daysBeforeMonth_succ hm, ih (by omega)]
    have hlt : m < 12 := hm'
    clear ih hm'
    interval_cases m <;> by_cases hleap : Leap y <;> simp only [monthLength, hleap] <;> rfl

/-- A day of the week for every year, 0 and those before it too; the calendar repeats every 400
years. -/
def dayOfWeek (y : ℤ) (m d : ℕ) : ℕ := weekday (y % 400 + 400).toNat m d

theorem leap_mod : Leap (y % 400 + 400) ↔ Leap y := by
  unfold Leap
  omega

theorem dayOfWeek_natCast (hy : 1 ≤ y) (hm : 1 ≤ m ∧ m ≤ 12) : dayOfWeek y m d = weekday y m d := by
  have hyear : ((y : ℤ) % 400 + 400).toNat = y % 400 + 400 := by omega
  have hyears := daysBeforeYear_eq hy
  have hperiod := daysBeforeYear_eq (y := y % 400 + 400) (by omega)
  have hmonths : daysBeforeMonth (y % 400 + 400) m = daysBeforeMonth y m := by
    rw [daysBeforeMonth_eq hm, daysBeforeMonth_eq hm]
    simp only [leap_mod]
  have hdays : daysBeforeYear y + 146097 =
      daysBeforeYear (y % 400 + 400) + 146097 * (y / 400) := by
    have h4 : (y - 1) / 4 + 100 = (y % 400 + 400 - 1) / 4 + 100 * (y / 400) := by omega
    have h100 : (y - 1) / 100 + 4 = (y % 400 + 400 - 1) / 100 + 4 * (y / 400) := by omega
    have h400 : (y - 1) / 400 + 1 = (y % 400 + 400 - 1) / 400 + y / 400 := by omega
    omega
  rw [dayOfWeek, hyear, weekday, weekday, dayNumber, dayNumber, hmonths]
  omega

theorem daysBeforeMonth_end : daysBeforeMonth y 13 = yearLength y := by
  rw [daysBeforeMonth_succ (by decide), daysBeforeMonth_eq (by decide), yearLength, monthLength]
  by_cases hleap : Leap y <;> simp [hleap]

theorem monthLength_pos : 0 < monthLength y m := by
  rw [monthLength]
  split_ifs <;> decide

theorem daysBeforeYear_mono (h : y ≤ y') : daysBeforeYear y ≤ daysBeforeYear y' :=
  Finset.sum_le_sum_of_subset (Finset.Ico_subset_Ico_right h)

theorem daysBeforeMonth_mono (h : m ≤ m') : daysBeforeMonth y m ≤ daysBeforeMonth y m' :=
  Finset.sum_le_sum_of_subset (Finset.Ico_subset_Ico_right h)

theorem IsDate.lt_month (h : IsDate y m d) :
    daysBeforeMonth y m + (d - 1) < daysBeforeMonth y (m + 1) := by
  have hd := h.day
  rw [daysBeforeMonth_succ h.month.1]
  omega

theorem IsDate.lt_year (h : IsDate y m d) : daysBeforeMonth y m + (d - 1) < yearLength y := by
  rw [← daysBeforeMonth_end]
  exact h.lt_month.trans_le (daysBeforeMonth_mono (Nat.succ_le_succ h.month.2))

/-- **Every day has a date.** -/
theorem exists_date (n : ℕ) : ∃ y m d, IsDate y m d ∧ dayNumber y m d = n := by
  induction n with
  | zero => exact ⟨1, 1, 1, ⟨le_refl 1, by decide, by decide⟩, by decide⟩
  | succ n ih =>
    obtain ⟨y, m, d, ⟨hy, hm, hd⟩, rfl⟩ := ih
    by_cases hmonth : d < monthLength y m
    · refine ⟨y, m, d + 1, ⟨hy, hm, by omega⟩, ?_⟩
      rw [dayNumber, dayNumber]
      omega
    have hlast : d = monthLength y m := by omega
    by_cases hyear : m < 12
    · refine ⟨y, m + 1, 1, ⟨hy, by omega, le_refl 1, monthLength_pos⟩, ?_⟩
      rw [dayNumber, dayNumber, daysBeforeMonth_succ hm.1]
      omega
    · obtain rfl : m = 12 := by omega
      refine ⟨y + 1, 1, 1, ⟨by omega, by decide, le_refl 1, monthLength_pos⟩, ?_⟩
      have hend : daysBeforeMonth y 13 = yearLength y := daysBeforeMonth_end
      rw [daysBeforeMonth_succ (by decide)] at hend
      rw [dayNumber, dayNumber, daysBeforeYear_succ hy, daysBeforeMonth_one]
      omega

end UBoot.Lib.Calendar
