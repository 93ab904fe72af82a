import Mathlib.Data.UInt
import UBoot.Lib.CInt

/-!
# Dates and seconds (`rtc/date.c`)

`toTm` takes the fields of a date out of a number of seconds since 1970, by a loop over years and
a loop over months, and `mktime` counts the seconds from the fields, by a closed form in which
the year starts with March. `gregorianDay` computes the day of the week. `int` and `long` are
integers that wrap at 32 bits (`int32`), `unsigned int` and `unsigned long` are `UInt32`.
-/

namespace UBoot.Rtc

open UBoot.Lib

/-- `struct rtc_time` -/
structure RtcTime where
  tm_sec : ℤ
  tm_min : ℤ
  tm_hour : ℤ
  tm_mday : ℤ
  tm_mon : ℤ
  tm_year : ℤ
  tm_wday : ℤ
  tm_yday : ℤ
  tm_isdst : ℤ
  deriving DecidableEq, Repr

def startOfTime : ℤ := 1970

def secDay : ℤ := 86400

/-- `leapyear`, for years that are not centuries. -/
def leapyear (year : ℤ) : Prop := year.tmod 4 = 0

instance (year : ℤ) : Decidable (leapyear year) := inferInstanceAs (Decidable (_ = _))

def daysInYear (a : ℤ) : ℤ := if leapyear a then 366 else 365

def monthDays : List ℤ := [31, 28, 31, 30, 31, 30, 31, 31, 30, 31, 30, 31]

def monthOffset : List ℤ := [0, 31, 59, 90, 120, 151, 181, 212, 243, 273, 304, 334]

/-- A day past the 29th of February of a leap year. -/
def pastLeapDay (tm : RtcTime) : Prop :=
  tm.tm_year.tmod 4 = 0 ∧ (tm.tm_year.tmod 100 ≠ 0 ∨ tm.tm_year.tmod 400 = 0) ∧ 2 < tm.tm_mon

instance (tm : RtcTime) : Decidable (pastLeapDay tm) := inferInstanceAs (Decidable (_ ∧ _ ∧ _))

/-- The day number of which `GregorianDay` takes the remainder. -/
def dayCount (tm : RtcTime) : ℤ :=
  let lastYear := int32 (tm.tm_year - 1)
  let leapsToDate := int32 (int32 (lastYear.tdiv 4 - lastYear.tdiv 100) + lastYear.tdiv 400)
  let day := if pastLeapDay tm then 1 else 0
  int32 (day + int32 (int32 (int32 (int32 (lastYear * 365) + leapsToDate) +
    monthOffset.getD (tm.tm_mon - 1).toNat 0) + tm.tm_mday))

def gregorianDay (tm : RtcTime) : RtcTime := { tm with tm_wday := (dayCount tm).tmod 7 }

theorem daysInYear_pos {a : ℤ} : 0 < daysInYear a := by
  rw [daysInYear]
  split_ifs <;> decide

/-- The loop that counts off years, with the year and the days left. -/
def yearLoop (i day : ℤ) : ℤ × ℤ :=
  if daysInYear i ≤ day then yearLoop (i + 1) (day - daysInYear i) else (i, day)
termination_by day.toNat
decreasing_by
  have hpos : 0 < daysInYear i := daysInYear_pos
  omega

/-- The loop that counts off the months of the table from month `i` on. -/
def monthLoop (i day : ℤ) : List ℤ → ℤ × ℤ
  | [] => (i, day)
  | days :: table => if days ≤ day then monthLoop (i + 1) (day - days) table else (i, day)

def toTm (tim : ℤ) (tm : RtcTime) : RtcTime :=
  let day := tim.tdiv secDay
  let hms := tim.tmod secDay
  let (year, day) := yearLoop startOfTime day
  let table := if leapyear year then monthDays.set 1 29 else monthDays
  let (mon, day) := monthLoop 1 day table
  gregorianDay { tm with
    tm_hour := hms.tdiv 3600
    tm_min := (hms.tmod 3600).tdiv 60
    tm_sec := (hms.tmod 3600).tmod 60
    tm_year := year
    tm_mon := mon
    tm_mday := day + 1 }

/-- The months that go with the year before, January and February. -/
def marchBased (year mon : UInt32) : UInt32 × UInt32 :=
  let mon := mon - 2
  if mon.toInt32 ≤ 0 then (year - 1, mon + 12) else (year, mon)

def mktime (year mon day hour min sec : UInt32) : UInt32 :=
  let (year, mon) := marchBased year mon
  ((((year / 4 - year / 100 + year / 400 + 367 * mon / 12 + day) +
    year * 365 - 719499) * 24 + hour) * 60 + min) * 60 + sec

/-- The call of `mktime` on the fields of a time. -/
def RtcTime.mktime (tm : RtcTime) : UInt32 :=
  Rtc.mktime (UInt32.ofInt tm.tm_year) (UInt32.ofInt tm.tm_mon) (UInt32.ofInt tm.tm_mday)
    (UInt32.ofInt tm.tm_hour) (UInt32.ofInt tm.tm_min) (UInt32.ofInt tm.tm_sec)

end UBoot.Rtc
