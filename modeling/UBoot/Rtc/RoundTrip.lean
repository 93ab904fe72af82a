import UBoot.Lib.Calendar
import UBoot.Rtc.Date

/-!
# Dates and seconds, there and back (`rtc/date.c`)

`seconds` counts the seconds of a date by its day number in the calendar. `toTm_seconds` says that
`to_tm` takes the date out of them, by the invariants of its two loops, and `mktime_eq` that
`mktime` computes them. Every day has a date, so each direction undoes the other. The day of the
week is right as long as the day number fits into an `int`.
-/

namespace UBoot.Rtc

open UBoot.Lib UBoot.Lib.Calendar

variable {y m d h mi s i r n : ℕ} {tm : RtcTime}

/-! ## The loops of `to_tm` -/

theorem leapyear_iff (hy : 1901 ≤ y) (hy' : y ≤ 2099) : leapyear y ↔ Leap y := by
  rw [leapyear, Int.tmod_eq_emod_of_nonneg (by omega)]
  unfold Leap
  omega

theorem daysInYear_eq (hy : 1901 ≤ y) (hy' : y ≤ 2099) : daysInYear y = yearLength y := by
  by_cases hleap : Leap y
  · rw [daysInYear, if_pos ((leapyear_iff hy hy').mpr hleap), yearLength, if_pos hleap]
    rfl
  · rw [daysInYear, if_neg (mt (leapyear_iff hy hy').mp hleap), yearLength, if_neg hleap]
    rfl

theorem yearLoop_eq (hi : 1901 ≤ i) (hiy : i ≤ y) (hy : y ≤ 2099) (hr : r < yearLength y) :
    yearLoop i (daysBeforeYear y - daysBeforeYear i + r) = (↑y, ↑r) := by
  obtain ⟨n, rfl⟩ := Nat.exists_eq_add_of_le hiy
  induction n generalizing i with
  | zero =>
    rw [yearLoop, daysInYear_eq hi (by omega), if_neg, Nat.add_zero, sub_self, zero_add]
    rw [Nat.add_zero] at hr ⊢
    omega
  | succ n ih =>
    have hsucc : daysBeforeYear (i + 1) = daysBeforeYear i + yearLength i :=
      daysBeforeYear_succ (by omega)
    have hmono : daysBeforeYear (i + 1) ≤ daysBeforeYear (i + (n + 1)) :=
      daysBeforeYear_mono (by omega)
    have hnext := ih (i := i + 1) (by omega) (by omega) (by omega)
      (by rwa [Nat.add_right_comm, Nat.add_assoc])
    rw [show i + 1 + n = i + (n + 1) by omega] at hnext
    rw [yearLoop, daysInYear_eq hi (by omega), if_pos (by omega), ← hnext, hsucc]
    congr 1
    push_cast
    ring

theorem monthTable_eq (hy : 1901 ≤ y) (hy' : y ≤ 2099) :
    (if leapyear y then monthDays.set 1 29 else monthDays) =
      (List.range' 1 12).map fun k => (monthLength y k : ℤ) := by
  by_cases hleap : Leap y
  · rw [if_pos ((leapyear_iff hy hy').mpr hleap)]
    simp [List.range', monthDays, monthLength, hleap]
  · rw [if_neg (mt (leapyear_iff hy hy').mp hleap)]
    simp [List.range', monthDays, monthLength, hleap]

theorem monthLoop_eq (hi : 1 ≤ i) (him : i ≤ m) (hm : m < i + n) (hr : r < monthLength y m) :
    monthLoop i (daysBeforeMonth y m - daysBeforeMonth y i + r)
      ((List.range' i n).map fun k => (monthLength y k : ℤ)) = (↑m, ↑r) := by
  induction n generalizing i with
  | zero => omega
  | succ n ih =>
    rw [List.range'_succ, List.map_cons, monthLoop]
    obtain rfl | hlt := Nat.eq_or_lt_of_le him
    · rw [if_neg (by omega), sub_self, zero_add]
    · have hsucc : daysBeforeMonth y (i + 1) = daysBeforeMonth y i + monthLength y i :=
        daysBeforeMonth_succ hi
      have hmono : daysBeforeMonth y (i + 1) ≤ daysBeforeMonth y m := daysBeforeMonth_mono hlt
      rw [if_pos (by omega), ← ih (i := i + 1) (by omega) hlt (by omega), hsucc]
      congr 1
      push_cast
      ring

theorem startOfTime_eq : startOfTime = (1970 : ℕ) := rfl

/-! ## Seconds -/

/-- The seconds from the start of 1970 to a time of a day. -/
def seconds (y m d h mi s : ℕ) : ℕ :=
  (((dayNumber y m d - dayNumber 1970 1 1) * 24 + h) * 60 + mi) * 60 + s

structure IsTime (y m d h mi s : ℕ) : Prop extends IsDate y m d where
  hour : h < 24
  min : mi < 60
  sec : s < 60

theorem dayNumber_start : dayNumber 1970 1 1 = 719162 := by
  have hyears := daysBeforeYear_eq (y := 1970) (by omega)
  rw [dayNumber_first]
  omega

theorem start_le (hy : 1970 ≤ y) : dayNumber 1970 1 1 ≤ dayNumber y m d := by
  have hmono : daysBeforeYear 1970 ≤ daysBeforeYear y := daysBeforeYear_mono hy
  rw [dayNumber_first, dayNumber]
  omega

theorem seconds_split (hh : h < 24) (hmi : mi < 60) (hs : s < 60) :
    (seconds y m d h mi s : ℤ).tdiv secDay = (dayNumber y m d - dayNumber 1970 1 1 : ℕ) ∧
    (seconds y m d h mi s : ℤ).tmod secDay = (h * 3600 + mi * 60 + s : ℕ) := by
  rw [Int.tdiv_eq_ediv_of_nonneg (by omega), Int.tmod_eq_emod_of_nonneg (by omega), seconds, secDay]
  generalize dayNumber y m d - dayNumber 1970 1 1 = days
  omega

theorem hms_eq (hmi : mi < 60) (hs : s < 60) :
    ((h * 3600 + mi * 60 + s : ℕ) : ℤ).tdiv 3600 = h ∧
    (((h * 3600 + mi * 60 + s : ℕ) : ℤ).tmod 3600).tdiv 60 = mi ∧
    (((h * 3600 + mi * 60 + s : ℕ) : ℤ).tmod 3600).tmod 60 = s := by
  have hmod : ((h * 3600 + mi * 60 + s : ℕ) : ℤ).tmod 3600 = (mi * 60 + s : ℕ) := by
    rw [Int.tmod_eq_emod_of_nonneg (by omega)]
    omega
  rw [hmod, Int.tdiv_eq_ediv_of_nonneg (by omega), Int.tdiv_eq_ediv_of_nonneg (by omega),
    Int.tmod_eq_emod_of_nonneg (by omega)]
  omega

theorem toTm_eq {tim day hms year left mon mday : ℤ} (hday : tim.tdiv secDay = day)
    (hhms : tim.tmod secDay = hms) (hyear : yearLoop startOfTime day = (year, left))
    (hmonth : monthLoop 1 left (if leapyear year then monthDays.set 1 29 else monthDays) =
      (mon, mday)) :
    toTm tim tm = gregorianDay { tm with
      tm_hour := hms.tdiv 3600
      tm_min := (hms.tmod 3600).tdiv 60
      tm_sec := (hms.tmod 3600).tmod 60
      tm_year := year
      tm_mon := mon
      tm_mday := mday + 1 } := by
  rw [toTm, hday, hhms]
  simp only [hyear, hmonth]

theorem toTm_seconds (ht : IsTime y m d h mi s) (hy : 1970 ≤ y) (hy' : y ≤ 2099) :
    toTm (seconds y m d h mi s) tm = gregorianDay { tm with
      tm_hour := h, tm_min := mi, tm_sec := s, tm_year := y, tm_mon := m, tm_mday := d } := by
  have hstart : dayNumber 1970 1 1 ≤ dayNumber y m d := start_le hy
  have hfirst : dayNumber 1970 1 1 = daysBeforeYear 1970 := dayNumber_first
  have hnum : dayNumber y m d = daysBeforeYear y + daysBeforeMonth y m + (d - 1) := rfl
  obtain ⟨hdate, hhour, hmin, hsec⟩ := ht
  obtain ⟨hd, hd'⟩ := hdate.day
  obtain ⟨hm, hm'⟩ := hdate.month
  have hday : (seconds y m d h mi s : ℤ).tdiv secDay =
      daysBeforeYear y - daysBeforeYear 1970 + (daysBeforeMonth y m + (d - 1) : ℕ) := by
    rw [(seconds_split hhour hmin hsec).1, Nat.cast_sub hstart, hfirst, hnum]
    push_cast
    ring
  have hhms : (seconds y m d h mi s : ℤ).tmod secDay = (h * 3600 + mi * 60 + s : ℕ) :=
    (seconds_split hhour hmin hsec).2
  have hyear : yearLoop startOfTime (daysBeforeYear y - daysBeforeYear 1970 +
      (daysBeforeMonth y m + (d - 1) : ℕ)) = (↑y, ↑(daysBeforeMonth y m + (d - 1))) := by
    rw [startOfTime_eq]
    exact yearLoop_eq (by omega) hy hy' hdate.lt_year
  have hmonth : monthLoop 1 (daysBeforeMonth y m + (d - 1) : ℕ)
      ((List.range' 1 12).map fun k => (monthLength y k : ℤ)) = (↑m, ↑(d - 1)) := by
    rw [← monthLoop_eq (y := y) (i := 1) (n := 12) (r := d - 1) (by omega) hm
      (by omega) (by omega), daysBeforeMonth_one, Nat.cast_add, Nat.cast_zero, sub_zero]
    rfl
  have hmday : ((d - 1 : ℕ) : ℤ) + 1 = d := by omega
  obtain ⟨hh, hm, hs⟩ := hms_eq (h := h) hmin hsec
  rw [← monthTable_eq (by omega) hy'] at hmonth
  rw [toTm_eq hday hhms hyear hmonth, hh, hm, hs, hmday]

/-! ## The closed form of `mktime` -/

theorem daysBeforeMonth_march (hm : 2 < m) (hm' : m ≤ 12) :
    daysBeforeMonth y m + 336 = 367 * (m - 2) / 12 + yearLength y := by
  have hoffset : [0, 31, 59, 90, 120, 151, 181, 212, 243, 273, 304, 334].getD (m - 1) 0 =
      367 * (m - 2) / 12 + 29 := by
    interval_cases m <;> rfl
  rw [daysBeforeMonth_eq ⟨by omega, hm'⟩, hoffset, yearLength]
  by_cases hleap : Leap y
  · rw [if_pos ⟨hm, hleap⟩, if_pos hleap]
  · rw [if_neg (mt And.right hleap), if_neg hleap]

theorem marchDays_eq (hdate : IsDate y m d) (hy : 1970 ≤ y) {y' m' : ℕ}
    (hmarch : m ≤ 2 ∧ y' = y - 1 ∧ m' = m + 10 ∨ 2 < m ∧ y' = y ∧ m' = m - 2) :
    y' / 4 - y' / 100 + y' / 400 + 367 * m' / 12 + d + y' * 365 - 719499 =
      dayNumber y m d - dayNumber 1970 1 1 := by
  obtain ⟨hm, hm'⟩ := hdate.month
  obtain ⟨hd, -⟩ := hdate.day
  rw [dayNumber_start, dayNumber]
  obtain ⟨hle, rfl, rfl⟩ | ⟨hlt, rfl, rfl⟩ := hmarch
  · have hyears := daysBeforeYear_eq (y := y) (by omega)
    have hmonths : daysBeforeMonth y m + 336 = 367 * (m + 10) / 12 + 0 := by
      rw [daysBeforeMonth_eq hdate.month, if_neg (by omega)]
      interval_cases m <;> rfl
    omega
  · have hyears := daysBeforeYear_eq (y := y' + 1) (by omega)
    rw [daysBeforeYear_succ (by omega), Nat.add_sub_cancel] at hyears
    have hmonths := daysBeforeMonth_march (y := y') hlt hm'
    omega

theorem marchBased_eq (hm : 1 ≤ m) (hm' : m ≤ 12) (hy : 1 ≤ y) : ∃ y' m',
    (m ≤ 2 ∧ y' = y - 1 ∧ m' = m + 10 ∨ 2 < m ∧ y' = y ∧ m' = m - 2) ∧
    marchBased (UInt32.ofNat y) (UInt32.ofNat m) = (UInt32.ofNat y', UInt32.ofNat m') := by
  have hpred : UInt32.ofNat (y - 1) = UInt32.ofNat y - 1 := UInt32.ofNat_sub hy
  by_cases hle : m ≤ 2
  · refine ⟨y - 1, m + 10, .inl ⟨hle, rfl, rfl⟩, ?_⟩
    rw [hpred]
    interval_cases m <;> rfl
  · refine ⟨y, m - 2, .inr ⟨by omega, rfl, rfl⟩, ?_⟩
    interval_cases m <;> first | omega | rfl

/-- **`mktime` counts the seconds of a date**, modulo the width of its result. -/
theorem mktime_eq (hdate : IsDate y m d) (hy : 1970 ≤ y) (hy' : y < 2 ^ 32) :
    mktime (UInt32.ofNat y) (UInt32.ofNat m) (UInt32.ofNat d) (UInt32.ofNat h) (UInt32.ofNat mi)
      (UInt32.ofNat s) = UInt32.ofNat (seconds y m d h mi s) := by
  obtain ⟨hm, hm'⟩ := hdate.month
  obtain ⟨hd, -⟩ := hdate.day
  obtain ⟨y', m', hmarch, heq⟩ := marchBased_eq hm hm' (by omega : 1 ≤ y)
  have hdays := marchDays_eq hdate hy hmarch
  have hcentury : y' / 100 ≤ y' / 4 := by omega
  have hstart : 719499 ≤
      y' / 4 - y' / 100 + y' / 400 + 367 * m' / 12 + d + y' * 365 := by omega
  rw [seconds, ← hdays, mktime, heq]
  simp only [UInt32.ofNat_add, UInt32.ofNat_mul, UInt32.ofNat_sub hstart,
    UInt32.ofNat_sub hcentury]
  rw [UInt32.ofNat_div (a := y') (b := 4) (by omega) (by omega),
    UInt32.ofNat_div (a := y') (b := 100) (by omega) (by omega),
    UInt32.ofNat_div (a := y') (b := 400) (by omega) (by omega),
    UInt32.ofNat_div (a := 367 * m') (b := 12) (by omega) (by omega), UInt32.ofNat_mul]
  rfl

/-! ## The day of the week -/

theorem pastLeapDay_iff (hy : tm.tm_year = y) (hm : tm.tm_mon = m) :
    pastLeapDay tm ↔ 2 < m ∧ Leap y := by
  unfold pastLeapDay Leap
  rw [hy, hm, Int.tmod_eq_emod_of_nonneg (by omega), Int.tmod_eq_emod_of_nonneg (by omega),
    Int.tmod_eq_emod_of_nonneg (by omega)]
  omega

theorem monthOffset_eq (hm : m ≤ 12) : monthOffset.getD ((m : ℤ) - 1).toNat 0 =
    ([0, 31, 59, 90, 120, 151, 181, 212, 243, 273, 304, 334].getD (m - 1) 0 : ℕ) := by
  interval_cases m <;> rfl

theorem leapsToDate_eq (hlt : n < 2 ^ 31) :
    int32 (int32 ((n : ℤ).tdiv 4 - (n : ℤ).tdiv 100) + (n : ℤ).tdiv 400) =
      (n / 4 - n / 100 + n / 400 : ℕ) := by
  rw [Int.tdiv_eq_ediv_of_nonneg (by omega), Int.tdiv_eq_ediv_of_nonneg (by omega),
    Int.tdiv_eq_ediv_of_nonneg (by omega), int32_of_lt (z := (n : ℤ) / 4 - n / 100) (by omega)
      (by omega), int32_of_lt (by omega) (by omega)]
  omega

/-- `GregorianDay` counts the days, as far as an `int` can; a day past the end of its month counts
on. -/
theorem dayCount_eq (hyear : 1 ≤ y) (hmonth : 1 ≤ m ∧ m ≤ 12) (hday : 1 ≤ d)
    (hy : tm.tm_year = y) (hm : tm.tm_mon = m) (hd : tm.tm_mday = d)
    (hlt : dayNumber y m d + 1 < 2 ^ 31) : dayCount tm = (dayNumber y m d + 1 : ℕ) := by
  have hyears := daysBeforeYear_eq hyear
  have hmonths := daysBeforeMonth_eq (y := y) hmonth
  have hleap : (if pastLeapDay tm then 1 else 0 : ℤ) = (if 2 < m ∧ Leap y then 1 else 0 : ℕ) := by
    by_cases hpast : 2 < m ∧ Leap y
    · rw [if_pos hpast, if_pos ((pastLeapDay_iff hy hm).mpr hpast)]
      rfl
    · rw [if_neg hpast, if_neg (mt (pastLeapDay_iff hy hm).mp hpast)]
      rfl
  rw [dayNumber, hmonths] at hlt ⊢
  generalize (if 2 < m ∧ Leap y then 1 else 0) = leap at hlt hleap ⊢
  rw [dayCount, hleap, hm, hd, monthOffset_eq hmonth.2]
  generalize [0, 31, 59, 90, 120, 151, 181, 212, 243, 273, 304, 334].getD (m - 1) 0 = offset
    at hlt ⊢
  have hlast : int32 (tm.tm_year - 1) = (y - 1 : ℕ) := by
    rw [hy, int32_of_lt (by omega) (by omega)]
    omega
  have hdays : int32 (((y - 1 : ℕ) : ℤ) * 365) = ((y - 1) * 365 : ℕ) := by
    rw [int32_of_lt (by omega) (by omega)]
    omega
  rw [hlast, leapsToDate_eq (by omega), hdays, int32_add (by omega), int32_add (by omega),
    int32_add (by omega), int32_add (by omega)]
  omega

theorem gregorianDay_wday (hyear : 1 ≤ y) (hmonth : 1 ≤ m ∧ m ≤ 12) (hday : 1 ≤ d)
    (hy : tm.tm_year = y) (hm : tm.tm_mon = m) (hd : tm.tm_mday = d)
    (hlt : dayNumber y m d + 1 < 2 ^ 31) :
    gregorianDay tm = { tm with tm_wday := weekday y m d } := by
  rw [gregorianDay, dayCount_eq hyear hmonth hday hy hm hd hlt, weekday,
    Int.tmod_eq_emod_of_nonneg (by omega)]
  rfl

/-! ## There and back -/

/-- The fields of the record are the date and the time. -/
structure RtcTime.Shows (tm : RtcTime) (y m d h mi s : ℕ) : Prop where
  year : tm.tm_year = y
  mon : tm.tm_mon = m
  mday : tm.tm_mday = d
  hour : tm.tm_hour = h
  min : tm.tm_min = mi
  sec : tm.tm_sec = s

theorem toTm_shows (ht : IsTime y m d h mi s) (hy : 1970 ≤ y) (hy' : y ≤ 2099) :
    (toTm (seconds y m d h mi s) tm).Shows y m d h mi s := by
  rw [toTm_seconds ht hy hy']
  exact ⟨rfl, rfl, rfl, rfl, rfl, rfl⟩

theorem ofInt_natCast (k : ℕ) : UInt32.ofInt k = UInt32.ofNat k := by
  rw [UInt32.ofInt, ← UInt32.toNat_inj, UInt32.toNat_ofNat', UInt32.toNat_ofNat']
  omega

theorem RtcTime.Shows.mktime_eq (hs : tm.Shows y m d h mi s) : tm.mktime =
    Rtc.mktime (UInt32.ofNat y) (UInt32.ofNat m) (UInt32.ofNat d) (UInt32.ofNat h)
      (UInt32.ofNat mi) (UInt32.ofNat s) := by
  rw [RtcTime.mktime, hs.year, hs.mon, hs.mday, hs.hour, hs.min, hs.sec]
  simp only [ofInt_natCast]

/-- Every number of seconds that an `int` holds is that of a time until 2038. -/
theorem exists_time (hn : n < 2 ^ 31) : ∃ y m d h mi s,
    IsTime y m d h mi s ∧ 1970 ≤ y ∧ y ≤ 2038 ∧ seconds y m d h mi s = n := by
  obtain ⟨y, m, d, hdate, hnum⟩ := exists_date (dayNumber 1970 1 1 + n / 86400)
  rw [dayNumber_start, dayNumber] at hnum
  have hlt := hdate.lt_year
  have hfirst : daysBeforeYear 1970 = 719162 := dayNumber_first.symm.trans dayNumber_start
  have hlast : daysBeforeYear 2039 = 744364 := by
    have hyears := daysBeforeYear_eq (y := 2039) (by omega)
    omega
  have hge : 1970 ≤ y := by
    by_contra! hy
    have hmono : daysBeforeYear (y + 1) ≤ daysBeforeYear 1970 := daysBeforeYear_mono hy
    rw [daysBeforeYear_succ hdate.year] at hmono
    omega
  have hle : y ≤ 2038 := by
    by_contra! hy
    have hmono : daysBeforeYear 2039 ≤ daysBeforeYear y := daysBeforeYear_mono hy
    omega
  refine ⟨y, m, d, n / 3600 % 24, n / 60 % 60, n % 60,
    ⟨hdate, by omega, by omega, by omega⟩, hge, hle, ?_⟩
  rw [seconds, dayNumber_start, dayNumber]
  omega

theorem seconds_lt (ht : IsTime y m d h mi s) (hy : y ≤ 2037) : seconds y m d h mi s < 2 ^ 31 := by
  have hmono : daysBeforeYear (y + 1) ≤ daysBeforeYear 2038 := daysBeforeYear_mono (by omega)
  rw [daysBeforeYear_succ ht.year] at hmono
  have hyears := daysBeforeYear_eq (y := 2038) (by omega)
  have hlt := ht.toIsDate.lt_year
  obtain ⟨-, hhour, hmin, hsec⟩ := ht
  rw [seconds, dayNumber_start, dayNumber]
  omega

/-- A number of seconds below `2 ^ 31` is the same as `unsigned long` and as `int`. -/
theorem toInt_ofNat (hn : n < 2 ^ 31) : (UInt32.ofNat n).toInt32.toInt = n :=
  Int32.toInt_ofNat_of_lt hn

/-- **Dates and seconds convert back and forth.** `mktime` gives the seconds back that `to_tm` took
the date from, `to_tm` the date from 1970 to 2037 that `mktime` counted the seconds of, and the day
of the week is right for every date whose day number an `int` holds. -/
theorem calendar_conversion :
    (∀ (t : ℕ) (tm : RtcTime), t < 2 ^ 31 → (toTm t tm).mktime.toNat = t) ∧
    (∀ (y m d h mi s : ℕ) (tm tm' : RtcTime), IsTime y m d h mi s → 1970 ≤ y → y ≤ 2037 →
      tm.Shows y m d h mi s → (toTm tm.mktime.toInt32.toInt tm').Shows y m d h mi s) ∧
    (∀ (y m d : ℕ) (tm : RtcTime), IsDate y m d → tm.tm_year = y → tm.tm_mon = m →
      tm.tm_mday = d → dayNumber y m d + 1 < 2 ^ 31 →
      gregorianDay tm = { tm with tm_wday := weekday y m d }) := by
  refine ⟨fun t tm ht => ?_, fun y m d h mi s tm tm' ht hy hy' hs => ?_,
    fun y m d tm hdate hy hm hd hlt =>
      gregorianDay_wday hdate.year hdate.month hdate.day.1 hy hm hd hlt⟩
  · obtain ⟨y, m, d, h, mi, s, htime, hy, hy', rfl⟩ := exists_time ht
    rw [(toTm_shows htime hy (by omega)).mktime_eq, mktime_eq htime.toIsDate hy (by omega),
      UInt32.toNat_ofNat_of_lt' (ht.trans (by decide))]
  · rw [hs.mktime_eq, mktime_eq ht.toIsDate hy (by omega), toInt_ofNat (seconds_lt ht hy')]
    exact toTm_shows ht hy (by omega)

/-- The start of 1970, with no day of the week yet. -/
def startTime : RtcTime := ⟨0, 0, 0, 1, 1, 1970, 0, 0, 0⟩

/-- A minute and a second before the end of 29 February 2004. -/
def leapTime : RtcTime := ⟨59, 58, 23, 29, 2, 2004, 0, 0, 0⟩

theorem dayNumber_leap : dayNumber 2004 2 29 = 731639 := by
  have hyears := daysBeforeYear_eq (y := 2004) (by omega)
  have hmonths : daysBeforeMonth 2004 2 = 31 := (daysBeforeMonth_eq (by omega)).trans (by decide)
  rw [dayNumber]
  omega

theorem calendar_conversion_leap :
    (toTm (1078099139 : ℕ) leapTime).mktime.toNat = 1078099139 ∧
    (toTm leapTime.mktime.toInt32.toInt startTime).Shows 2004 2 29 23 58 59 ∧
    gregorianDay leapTime = { leapTime with tm_wday := weekday 2004 2 29 } :=
  have hdate : IsDate 2004 2 29 := ⟨by omega, by decide, by decide⟩
  ⟨calendar_conversion.1 1078099139 leapTime (by decide),
    calendar_conversion.2.1 2004 2 29 23 58 59 leapTime startTime
      ⟨hdate, by decide, by decide, by decide⟩ (by omega) (by omega) ⟨rfl, rfl, rfl, rfl, rfl, rfl⟩,
    calendar_conversion.2.2 2004 2 29 leapTime hdate rfl rfl rfl
      (by rw [dayNumber_leap]; decide)⟩

/-- At the end of the year 5879611 the day number is past the largest `int`, and the remainder that
should be a day of the week is negative. -/
theorem gregorianDay_wraps :
    IsDate 5879611 12 31 ∧
    gregorianDay { startTime with tm_year := 5879611, tm_mon := 12, tm_mday := 31 } ≠
      { startTime with tm_year := 5879611, tm_mon := 12, tm_mday := 31,
                       tm_wday := weekday 5879611 12 31 } := by
  refine ⟨⟨by omega, by decide, by decide⟩, fun heq => ?_⟩
  have hwday : (-5 : ℤ) = weekday 5879611 12 31 := congrArg RtcTime.tm_wday heq
  omega

end UBoot.Rtc
