import UBoot.Lib.Area
import UBoot.Rtc.RoundTrip

/-!
# Dates as strings (`common/cmd_date.c`)

`mkDate` reads `MMDDhhmm[[CC]YY][.ss]`; a `Stamp` is a string of that form. `mkDate_text` is what
it does with a stamp, and no other string is accepted (`mkDate_form`). `mk_date_iff`: for which
stamps the time is the one that the digits give.
-/

namespace UBoot.Rtc

open UBoot.Lib UBoot.Lib.Calendar

/-- `cnvrt2`; at its end a string has a NUL, which is no digit. -/
def cnvrt2 : List UInt8 → Option ℤ
  | a :: b :: _ =>
    if a < 48 ∨ 57 < a then none
    else if b < 48 ∨ 57 < b then none
    else some (10 * ((a.toNat : ℤ) - 48) + ((b.toNat : ℤ) - 48))
  | _ => none

/-- `GregorianDay`, with the index into its table. -/
def gregorianDayAt (tm : RtcTime) : Except Oob RtcTime :=
  if 0 ≤ tm.tm_mon - 1 ∧ tm.tm_mon - 1 < monthOffset.length then .ok (gregorianDay tm)
  else .error .read

/-- The year of a string of `len` characters in front of the seconds. -/
def mkYear (datestr : List UInt8) (tm : RtcTime) : Option RtcTime :=
  if datestr.length = 12 then
    match cnvrt2 (datestr.drop 8), cnvrt2 (datestr.drop 10) with
    | some century, some year => some { tm with tm_year := int32 (int32 (100 * century) + year) }
    | _, _ => none
  else if datestr.length = 10 then
    let century := tm.tm_year.tdiv 100
    match cnvrt2 (datestr.drop 8) with
    | some year => some { tm with tm_year := int32 (int32 (100 * century) + year) }
    | none => none
  else some tm

def mkFields (datestr : List UInt8) (tm : RtcTime) : Except Oob (Option RtcTime) :=
  if datestr.length = 8 ∨ datestr.length = 10 ∨ datestr.length = 12 then
    match cnvrt2 datestr with
    | none => .ok none
    | some mon =>
      if mon > 12 then .ok none
      else match cnvrt2 (datestr.drop 2) with
      | none => .ok none
      | some mday =>
        if mday > if mon = 2 then 29 else 31 then .ok none
        else match cnvrt2 (datestr.drop 4) with
        | none => .ok none
        | some hour =>
          if hour > 23 then .ok none
          else match cnvrt2 (datestr.drop 6) with
          | none => .ok none
          | some min =>
            if min > 59 then .ok none
            else (gregorianDayAt
              { tm with tm_mon := mon, tm_mday := mday, tm_hour := hour, tm_min := min }).map some
  else .ok none

/-- `mk_date`; `none` is the result -1. -/
def mkDate (datestr : List UInt8) (tm : RtcTime) : Except Oob (Option RtcTime) :=
  let front := datestr.takeWhile (· ≠ 46)
  let timed : Option RtcTime := match datestr.dropWhile (· ≠ 46) with
    | _ :: ptr =>
      if ptr.length ≠ 2 then none
      else (cnvrt2 ptr).map fun sec => { tm with tm_sec := sec }
    | [] => some { tm with tm_sec := 0 }
  match timed.bind (mkYear front) with
  | none => .ok none
  | some tm => mkFields front tm

/-! ## The form of the string -/

inductive YearDigits where
  | kept
  | yy (y : Fin 100)
  | ccyy (c y : Fin 100)

/-- A string of the form `MMDDhhmm[[CC]YY][.ss]`. -/
@[ext] structure Stamp where
  mon : Fin 100
  mday : Fin 100
  hour : Fin 100
  min : Fin 100
  year : YearDigits
  sec : Option (Fin 100)

def digits2 (n : Fin 100) : List UInt8 :=
  [UInt8.ofNat (48 + n.val / 10), UInt8.ofNat (48 + n.val % 10)]

def YearDigits.text : YearDigits → List UInt8
  | kept => []
  | yy y => digits2 y
  | ccyy c y => digits2 c ++ digits2 y

def Stamp.front (f : Stamp) : List UInt8 :=
  digits2 f.mon ++ (digits2 f.mday ++ (digits2 f.hour ++ (digits2 f.min ++ f.year.text)))

def Stamp.text (f : Stamp) : List UInt8 :=
  f.front ++ match f.sec with
    | some s => 46 :: digits2 s
    | none => []

def Stamp.secs (f : Stamp) : ℕ :=
  match f.sec with
  | some s => s.val
  | none => 0

/-- The year that `mk_date` computes. -/
def YearDigits.mk (tm : RtcTime) : YearDigits → ℤ
  | kept => tm.tm_year
  | yy y => int32 (int32 (100 * tm.tm_year.tdiv 100) + y.val)
  | ccyy c y => int32 (int32 (100 * c.val) + y.val)

/-- The fields that `mk_date` sets. -/
def Stamp.fill (f : Stamp) (tm : RtcTime) : RtcTime :=
  { tm with
    tm_sec := f.secs
    tm_year := f.year.mk tm
    tm_mon := f.mon.val
    tm_mday := f.mday.val
    tm_hour := f.hour.val
    tm_min := f.min.val }

/-- The tests of `mk_date`. -/
def Stamp.Passes (f : Stamp) : Prop :=
  f.mon.val ≤ 12 ∧ f.mday.val ≤ (if f.mon.val = 2 then 29 else 31) ∧ f.hour.val ≤ 23 ∧
    f.min.val ≤ 59

instance (f : Stamp) : Decidable f.Passes := inferInstanceAs (Decidable (_ ∧ _ ∧ _ ∧ _))

section
variable {n : Fin 100} {l s : List UInt8} {z : ℤ} {f : Stamp} {tm tm' : RtcTime}

@[simp] theorem digits2_length : (digits2 n).length = 2 := rfl

theorem cnvrt2_digits2 (n : Fin 100) (l : List UInt8) : cnvrt2 (digits2 n ++ l) = some ↑n.val := by
  have hn := n.isLt
  have htens : (UInt8.ofNat (48 + n.val / 10)).toNat = 48 + n.val / 10 := by
    rw [UInt8.toNat_ofNat']
    omega
  have hones : (UInt8.ofNat (48 + n.val % 10)).toNat = 48 + n.val % 10 := by
    rw [UInt8.toNat_ofNat']
    omega
  simp only [digits2, List.cons_append, cnvrt2, UInt8.lt_iff_toNat_lt, htens, hones,
    UInt8.reduceToNat]
  rw [if_neg (by omega), if_neg (by omega)]
  congr 1
  omega

@[simp] theorem cnvrt2_digits2_end (n : Fin 100) : cnvrt2 (digits2 n) = some ↑n.val := by
  simpa using cnvrt2_digits2 n []

theorem cnvrt2_some (h : cnvrt2 l = some z) :
    ∃ n : Fin 100, z = n.val ∧ l = digits2 n ++ l.drop 2 := by
  match l with
  | [] => cases h
  | [_] => cases h
  | a :: b :: l =>
    rw [cnvrt2] at h
    split_ifs at h with ha hb
    simp only [UInt8.lt_iff_toNat_lt, UInt8.reduceToNat, not_or, not_lt] at ha hb
    refine ⟨⟨10 * (a.toNat - 48) + (b.toNat - 48), by omega⟩, ?_, ?_⟩
    · cases h
      push_cast [ha.1, hb.1]
      rfl
    · have htens : 48 + (10 * (a.toNat - 48) + (b.toNat - 48)) / 10 = a.toNat := by omega
      have hones : 48 + (10 * (a.toNat - 48) + (b.toNat - 48)) % 10 = b.toNat := by omega
      simp only [digits2, htens, hones, UInt8.ofNat_toNat, List.drop_succ_cons, List.drop_zero,
        List.cons_append, List.nil_append]

theorem digits2_ne_dot (n : Fin 100) : ∀ c ∈ digits2 n, c ≠ 46 := by
  have hn := n.isLt
  intro c hc hdot
  rw [digits2, List.mem_pair] at hc
  rcases hc with rfl | rfl <;> rw [← UInt8.toNat_inj, UInt8.toNat_ofNat'] at hdot <;>
    simp only [UInt8.reduceToNat] at hdot <;> omega

theorem Stamp.front_ne_dot (f : Stamp) : ∀ c ∈ f.front, c ≠ 46 := by
  have hyear : ∀ c ∈ f.year.text, c ≠ 46 := by
    cases f.year with
    | kept => exact fun _ h => absurd h List.not_mem_nil
    | yy y => exact digits2_ne_dot y
    | ccyy c y => exact List.forall_mem_append.mpr ⟨digits2_ne_dot c, digits2_ne_dot y⟩
  simp only [Stamp.front, List.forall_mem_append]
  exact ⟨digits2_ne_dot _, digits2_ne_dot _, digits2_ne_dot _, digits2_ne_dot _, hyear⟩

theorem Stamp.text_split (f : Stamp) : f.text.takeWhile (· ≠ 46) = f.front ∧
    f.text.dropWhile (· ≠ 46) = match f.sec with
      | some s => 46 :: digits2 s
      | none => [] := by
  have hfront : ∀ c ∈ f.front, decide (c ≠ 46) = true := fun c hc =>
    decide_eq_true (f.front_ne_dot c hc)
  rw [Stamp.text, List.takeWhile_append_of_pos hfront, List.dropWhile_append_of_pos hfront]
  cases f.sec with
  | none => exact ⟨List.append_nil _, rfl⟩
  | some s => exact ⟨List.append_nil _, rfl⟩

theorem mkYear_front (f : Stamp) (tm : RtcTime) :
    mkYear f.front tm = some { tm with tm_year := f.year.mk tm } := by
  have hdrop : f.front.drop 8 = f.year.text := rfl
  have hdrop' : f.front.drop 10 = f.year.text.drop 2 := rfl
  have hlen : f.front.length = 8 + f.year.text.length := by
    simp only [Stamp.front, List.length_append, digits2_length]
    omega
  rw [mkYear, hdrop, hdrop', hlen]
  cases f.year with
  | kept => rfl
  | yy y =>
    simp only [YearDigits.text, digits2_length, cnvrt2_digits2_end, YearDigits.mk]
    rfl
  | ccyy c y =>
    have hdrop : (digits2 c ++ digits2 y).drop 2 = digits2 y := rfl
    simp only [YearDigits.text, List.length_append, digits2_length, cnvrt2_digits2, hdrop,
      cnvrt2_digits2_end, YearDigits.mk]
    rfl

theorem mkFields_front (f : Stamp) (tm : RtcTime) :
    mkFields f.front tm =
      if f.Passes then (gregorianDayAt { tm with
        tm_mon := f.mon.val, tm_mday := f.mday.val, tm_hour := f.hour.val,
        tm_min := f.min.val }).map some
      else .ok none := by
  have hlen : f.front.length = 8 ∨ f.front.length = 10 ∨ f.front.length = 12 := by
    simp only [Stamp.front, List.length_append, digits2_length]
    cases f.year with
    | kept => exact .inl rfl
    | yy y => exact .inr (.inl rfl)
    | ccyy c y => exact .inr (.inr rfl)
  have hdrop2 : f.front.drop 2 = digits2 f.mday ++ _ := rfl
  have hdrop4 : f.front.drop 4 = digits2 f.hour ++ _ := rfl
  have hdrop6 : f.front.drop 6 = digits2 f.min ++ _ := rfl
  rw [mkFields, if_pos hlen, hdrop2, hdrop4, hdrop6, Stamp.front]
  simp only [cnvrt2_digits2]
  have hmday : ((f.mday.val : ℤ) > if (f.mon.val : ℤ) = 2 then 29 else 31) ↔
      ¬ f.mday.val ≤ if f.mon.val = 2 then 29 else 31 := by
    split_ifs <;> omega
  have hmon : (f.mon.val : ℤ) > 12 ↔ ¬ f.mon.val ≤ 12 := by omega
  have hhour : (f.hour.val : ℤ) > 23 ↔ ¬ f.hour.val ≤ 23 := by omega
  have hmin : (f.min.val : ℤ) > 59 ↔ ¬ f.min.val ≤ 59 := by omega
  simp only [hmon, hmday, hhour, hmin, ite_not]
  by_cases hpasses : f.Passes
  · obtain ⟨h1, h2, h3, h4⟩ := id hpasses
    rw [if_pos hpasses, if_pos h1, if_pos h2, if_pos h3, if_pos h4]
  · rw [if_neg hpasses]
    rw [Stamp.Passes] at hpasses
    generalize (if f.mon.val = 2 then 29 else 31) = last at hpasses ⊢
    split_ifs with h1 h2 h3 h4
    · exact absurd ⟨h1, h2, h3, h4⟩ hpasses
    all_goals rfl

theorem mkDate_text (f : Stamp) (tm : RtcTime) : mkDate f.text tm =
    if f.Passes then (gregorianDayAt (f.fill tm)).map some else .ok none := by
  obtain ⟨hfront, hback⟩ := f.text_split
  rw [mkDate, hfront, hback]
  have hfill : f.fill tm = { { { tm with tm_sec := f.secs } with tm_year := f.year.mk tm } with
      tm_mon := f.mon.val, tm_mday := f.mday.val, tm_hour := f.hour.val,
      tm_min := f.min.val } := rfl
  have hyear : f.year.mk { tm with tm_sec := f.secs } = f.year.mk tm := by
    cases f.year <;> rfl
  rw [hfill, ← hyear, ← mkFields_front, Stamp.secs]
  cases f.sec with
  | none => simp only [Option.bind_some, mkYear_front, Nat.cast_zero]
  | some s =>
    simp only [digits2_length, ne_eq, not_true, if_false, cnvrt2_digits2_end, Option.map_some,
      Option.bind_some, mkYear_front]

/-! ## No other string -/

theorem mkFields_form (h : mkFields l tm ≠ .ok none) :
    (l.length = 8 ∨ l.length = 10 ∨ l.length = 12) ∧ ∃ mon mday hour min, l =
      digits2 mon ++ (digits2 mday ++ (digits2 hour ++ (digits2 min ++ l.drop 8))) := by
  by_cases hlen : l.length = 8 ∨ l.length = 10 ∨ l.length = 12
  · rw [mkFields, if_pos hlen] at h
    cases hmon : cnvrt2 l with
    | none => simp [hmon] at h
    | some a =>
      cases hmday : cnvrt2 (l.drop 2) with
      | none => simp [hmon, hmday] at h
      | some b =>
        cases hhour : cnvrt2 (l.drop 4) with
        | none => simp [hmon, hmday, hhour] at h
        | some c =>
          cases hmin : cnvrt2 (l.drop 6) with
          | none => simp [hmon, hmday, hhour, hmin] at h
          | some d =>
            obtain ⟨mon, -, hl⟩ := cnvrt2_some hmon
            obtain ⟨mday, -, hl2⟩ := cnvrt2_some hmday
            obtain ⟨hour, -, hl4⟩ := cnvrt2_some hhour
            obtain ⟨min, -, hl6⟩ := cnvrt2_some hmin
            rw [List.drop_drop] at hl2 hl4 hl6
            refine ⟨hlen, mon, mday, hour, min, ?_⟩
            rw [← hl6, ← hl4, ← hl2, ← hl]
  · rw [mkFields, if_neg hlen] at h
    exact absurd rfl h

theorem mkYear_form (hlen : l.length = 8 ∨ l.length = 10 ∨ l.length = 12)
    (h : mkYear l tm = some tm') : ∃ y : YearDigits, l.drop 8 = y.text := by
  rw [mkYear] at h
  rcases hlen with hlen | hlen | hlen
  · refine ⟨.kept, ?_⟩
    rw [List.drop_of_length_le hlen.le]
    rfl
  · rw [if_neg (by omega), if_pos hlen] at h
    cases hyear : cnvrt2 (l.drop 8) with
    | none => simp [hyear] at h
    | some a =>
      obtain ⟨y, -, hl⟩ := cnvrt2_some hyear
      rw [List.drop_drop, List.drop_of_length_le hlen.le, List.append_nil] at hl
      exact ⟨.yy y, hl⟩
  · rw [if_pos hlen] at h
    cases hcentury : cnvrt2 (l.drop 8) with
    | none => simp [hcentury] at h
    | some a =>
      cases hyear : cnvrt2 (l.drop 10) with
      | none => simp [hcentury, hyear] at h
      | some b =>
        obtain ⟨c, -, hl⟩ := cnvrt2_some hcentury
        obtain ⟨y, -, hl'⟩ := cnvrt2_some hyear
        rw [List.drop_drop] at hl hl'
        rw [hl', List.drop_of_length_le hlen.le, List.append_nil] at hl
        exact ⟨.ccyy c y, hl⟩

/-- What is in front of the seconds, where year and fields are read of it. -/
theorem front_form (sec : Option (Fin 100))
    (h : (match mkYear l tm with
      | none => .ok none
      | some tm => mkFields l tm) ≠ (.ok none : Except Oob (Option RtcTime))) :
    ∃ f : Stamp, l = f.front ∧ f.sec = sec := by
  cases hyear : mkYear l tm with
  | none =>
    rw [hyear] at h
    exact absurd rfl h
  | some tm' =>
    rw [hyear] at h
    obtain ⟨hlen, mon, mday, hour, min, hl⟩ := mkFields_form h
    obtain ⟨y, hy⟩ := mkYear_form hlen hyear
    rw [hy] at hl
    exact ⟨⟨mon, mday, hour, min, y, sec⟩, hl, rfl⟩

theorem mkDate_form (h : mkDate s tm ≠ .ok none) : ∃ f : Stamp, s = f.text := by
  rw [mkDate] at h
  have hsplit : s.takeWhile (· ≠ 46) ++ s.dropWhile (· ≠ 46) = s := List.takeWhile_append_dropWhile
  have hdot : ∀ dot ptr, s.dropWhile (· ≠ 46) = dot :: ptr → dot = 46 := by
    intro dot ptr hback
    have hhead := List.head?_dropWhile_not (· ≠ (46 : UInt8)) s
    rw [hback] at hhead
    simpa using hhead
  cases hback : s.dropWhile (· ≠ 46) with
  | nil =>
    rw [hback] at h hsplit
    simp only [Option.bind_some] at h
    obtain ⟨f, hfront, hsec⟩ := front_form none h
    exact ⟨f, by rw [Stamp.text, hsec, ← hfront, hsplit]⟩
  | cons dot ptr =>
    obtain rfl := hdot dot ptr hback
    rw [hback] at h hsplit
    simp only at h
    by_cases hptr : ptr.length = 2
    · rw [if_neg (not_not.mpr hptr)] at h
      cases hsec : cnvrt2 ptr with
      | none =>
        rw [hsec] at h
        exact absurd rfl h
      | some a =>
        obtain ⟨sec, -, hl⟩ := cnvrt2_some hsec
        rw [List.drop_of_length_le hptr.le, List.append_nil] at hl
        rw [hsec, Option.map_some, Option.bind_some] at h
        obtain ⟨f, hfront, hsec⟩ := front_form (some sec) h
        have htext : f.text = f.front ++ 46 :: digits2 sec := by rw [Stamp.text, hsec]
        exact ⟨f, by rw [htext, ← hfront, ← hl, hsplit]⟩
    · rw [if_pos hptr] at h
      exact absurd rfl h

end

theorem digits2_injective {n n' : Fin 100} (h : digits2 n = digits2 n') : n = n' := by
  have hval := cnvrt2_digits2 n []
  rw [h, cnvrt2_digits2] at hval
  exact Fin.ext (Int.ofNat_inj.mp (Option.some.inj hval)).symm

theorem YearDigits.text_injective {y y' : YearDigits} (h : y.text = y'.text) : y = y' := by
  have hlen := congrArg List.length h
  cases y with
  | kept =>
    cases y' with
    | kept => rfl
    | yy _ | ccyy _ _ => simp [YearDigits.text] at hlen
  | yy y =>
    cases y' with
    | yy y' => rw [digits2_injective h]
    | kept | ccyy _ _ => simp [YearDigits.text] at hlen
  | ccyy c y =>
    cases y' with
    | ccyy c' y' =>
      obtain ⟨hc, hy⟩ := List.append_inj h rfl
      rw [digits2_injective hc, digits2_injective hy]
    | kept | yy _ => simp [YearDigits.text] at hlen

theorem Stamp.text_injective {f f' : Stamp} (h : f.text = f'.text) : f = f' := by
  have hfront : f.front = f'.front := by rw [← f.text_split.1, h, f'.text_split.1]
  have hback := f.text_split.2
  rw [h, f'.text_split.2] at hback
  obtain ⟨hmon, hrest⟩ := List.append_inj hfront rfl
  obtain ⟨hmday, hrest⟩ := List.append_inj hrest rfl
  obtain ⟨hhour, hrest⟩ := List.append_inj hrest rfl
  obtain ⟨hmin, hyear⟩ := List.append_inj hrest rfl
  refine Stamp.ext (digits2_injective hmon) (digits2_injective hmday) (digits2_injective hhour)
    (digits2_injective hmin) (YearDigits.text_injective hyear) ?_
  cases hsec : f.sec with
  | none =>
    cases hsec' : f'.sec with
    | none => rfl
    | some s' => simp [hsec, hsec'] at hback
  | some s =>
    cases hsec' : f'.sec with
    | none => simp [hsec, hsec'] at hback
    | some s' =>
      rw [hsec, hsec'] at hback
      rw [digits2_injective (List.cons.inj hback).2]

/-! ## The date that is meant -/

/-- The year that the digits give: with two the century is kept, with none the year is. -/
def Stamp.yearOf (f : Stamp) (tm : RtcTime) : ℤ :=
  match f.year with
  | .kept => tm.tm_year
  | .yy y => 100 * (tm.tm_year / 100) + y.val
  | .ccyy c y => 100 * c.val + y.val

/-- The digits are those of a month, a day of some such month, and a time of day. -/
structure Stamp.InRange (f : Stamp) : Prop where
  mon : 1 ≤ f.mon.val ∧ f.mon.val ≤ 12
  mday : 1 ≤ f.mday.val ∧ f.mday.val ≤ if f.mon.val = 2 then 29 else 31
  hour : f.hour.val ≤ 23
  min : f.min.val ≤ 59
  sec : f.secs ≤ 59

/-- The date exists, in the year that is meant. -/
structure Stamp.Exists (f : Stamp) (tm : RtcTime) : Prop extends f.InRange where
  month : f.mday.val ≤ monthLength (f.yearOf tm % 400 + 400).toNat f.mon.val

def Stamp.time (f : Stamp) (tm : RtcTime) : RtcTime :=
  { tm with
    tm_sec := f.secs
    tm_year := f.yearOf tm
    tm_mon := f.mon.val
    tm_mday := f.mday.val
    tm_hour := f.hour.val
    tm_min := f.min.val
    tm_wday := dayOfWeek (f.yearOf tm) f.mon.val f.mday.val }

/-- What `mk_date` is for. -/
structure MakesDate (s : List UInt8) (tm : RtcTime) : Prop where
  inTable : ∀ e, mkDate s tm ≠ .error e
  accepted : ∀ tm', mkDate s tm = .ok (some tm') → (∃ f : Stamp, s = f.text) ∧
    ∀ f : Stamp, s = f.text → f.InRange ∧ tm' = f.time tm
  accepts : ∀ f : Stamp, s = f.text → f.Exists tm → ∃ tm', mkDate s tm = .ok (some tm')

/-- If the string passes the tests, month and day are not 0, the seconds are those of a minute, and
the year is one from 1 on whose days an `int` counts. -/
def Sound (s : List UInt8) (tm : RtcTime) : Prop :=
  ∀ f : Stamp, s = f.text → f.Passes → 1 ≤ f.mon.val ∧ 1 ≤ f.mday.val ∧ f.secs ≤ 59 ∧
    1 ≤ f.yearOf tm ∧ dayNumber (f.yearOf tm).toNat f.mon.val f.mday.val + 1 < 2 ^ 31

section
variable {s : List UInt8} {f : Stamp} {tm : RtcTime} {m d : ℕ}

theorem gregorianDayAt_of_month (hm : 1 ≤ tm.tm_mon ∧ tm.tm_mon ≤ 12) :
    gregorianDayAt tm = .ok (gregorianDay tm) := by
  have hlen : (monthOffset.length : ℤ) = 12 := rfl
  exact if_pos (by omega)

theorem mkDate_of_passes (hpasses : f.Passes) (hmon : 1 ≤ f.mon.val) :
    mkDate f.text tm = .ok (some (gregorianDay (f.fill tm))) := by
  have hm : 1 ≤ (f.fill tm).tm_mon ∧ (f.fill tm).tm_mon ≤ 12 :=
    ⟨Int.ofNat_le.mpr hmon, Int.ofNat_le.mpr hpasses.1⟩
  rw [mkDate_text, if_pos hpasses, gregorianDayAt_of_month hm]
  rfl

theorem Stamp.InRange.passes (h : f.InRange) : f.Passes := ⟨h.mon.2, h.mday.2, h.hour, h.min⟩

theorem Stamp.mk_year (hyear : 0 ≤ f.yearOf tm) (hlt : f.yearOf tm < 2 ^ 31) :
    f.year.mk tm = f.yearOf tm := by
  rw [Stamp.yearOf] at hyear hlt ⊢
  generalize f.year = digits at hyear hlt ⊢
  cases digits with
  | kept => rfl
  | yy y =>
    dsimp only at hyear hlt ⊢
    have hy := y.isLt
    have hnow : 0 ≤ tm.tm_year := by omega
    rw [YearDigits.mk, Int.tdiv_eq_ediv_of_nonneg hnow,
      int32_of_lt (z := 100 * (tm.tm_year / 100)) (by omega) (by omega), int32_of_lt hyear hlt]
  | ccyy c y =>
    dsimp only at hyear hlt ⊢
    have hc := c.isLt
    rw [YearDigits.mk, int32_of_lt (z := 100 * (c.val : ℤ)) (by omega) (by omega),
      int32_of_lt hyear hlt]

theorem Stamp.fill_eq_time (hmon : 1 ≤ f.mon.val ∧ f.mon.val ≤ 12) (hmday : 1 ≤ f.mday.val)
    (hyear : 1 ≤ f.yearOf tm)
    (hlt : dayNumber (f.yearOf tm).toNat f.mon.val f.mday.val + 1 < 2 ^ 31) :
    gregorianDay (f.fill tm) = f.time tm := by
  obtain ⟨y, hy⟩ := Int.eq_ofNat_of_zero_le (hyear.trans' zero_le_one)
  have hpos : 1 ≤ y := by omega
  have htoNat : (f.yearOf tm).toNat = y := by rw [hy, Int.toNat_natCast]
  have hdays := daysBeforeYear_eq hpos
  rw [htoNat] at hlt
  have hylt : y < 2 ^ 31 := by
    rw [dayNumber] at hlt
    omega
  have hmk : f.year.mk tm = f.yearOf tm := Stamp.mk_year (by omega) (by omega)
  have hfill : (f.fill tm).tm_year = y := hmk.trans hy
  rw [gregorianDay_wday hpos hmon hmday hfill rfl rfl hlt, Stamp.time, Stamp.fill, hmk, hy,
    dayOfWeek_natCast hpos hmon]

/-- In the year 0 the remainder is never the day of the week. -/
theorem gregorianDay_zero (hy : tm.tm_year = 0) (hm : tm.tm_mon = m) (hm' : 1 ≤ m ∧ m ≤ 12)
    (hd : tm.tm_mday = d) (hd' : 1 ≤ d ∧ d ≤ 31) :
    (gregorianDay tm).tm_wday ≠ dayOfWeek 0 m d := by
  have hsmall (z : ℤ) (hz : -1000 ≤ z) (hz' : z ≤ 1000) : int32 z = z :=
    Int.bmod_eq_of_le (by omega) (by omega)
  have hyears := daysBeforeYear_eq (y := 400) (by decide)
  have hmonths := daysBeforeMonth_eq (y := 400) hm'
  have hle : daysBeforeMonth 400 m ≤ daysBeforeMonth 400 13 := daysBeforeMonth_mono (by omega)
  have hend : daysBeforeMonth 400 13 = 366 := daysBeforeMonth_end
  have hleap : (if pastLeapDay tm then 1 else 0 : ℤ) = (if 2 < m ∧ Leap 400 then 1 else 0 : ℕ) := by
    have hiff : pastLeapDay tm ↔ 2 < m ∧ Leap 400 := pastLeapDay_iff (y := 0) hy hm
    simp only [hiff]
    split_ifs <;> rfl
  have hcount : dayCount tm = daysBeforeMonth 400 m + d - 365 := by
    generalize (if 2 < m ∧ Leap 400 then 1 else 0) = leap at hmonths hleap
    rw [dayCount, hleap, hm, hd, hy, monthOffset_eq hm'.2]
    generalize [0, 31, 59, 90, 120, 151, 181, 212, 243, 273, 304, 334].getD (m - 1) 0 = offset
      at hmonths ⊢
    have hyear : int32 (int32 (int32 (0 - 1) * 365) + int32 (int32 ((int32 (0 - 1)).tdiv 4 -
        (int32 (0 - 1)).tdiv 100) + (int32 (0 - 1)).tdiv 400)) = -365 := by decide
    rw [hyear, hsmall (-365 + offset) (by omega) (by omega), hsmall (-365 + offset + d) (by omega)
      (by omega), hsmall _ (by omega) (by omega)]
    omega
  have hday : dayOfWeek 0 m d = (145731 + daysBeforeMonth 400 m + d) % 7 := by
    have hyear : ((0 : ℤ) % 400 + 400).toNat = 400 := rfl
    rw [dayOfWeek, hyear, weekday, dayNumber]
    omega
  -- the count is one more than a multiple of 7 away from that of the calendar
  rw [gregorianDay, hcount, hday]
  intro heq
  have hdvd := Int.tmod_add_mul_tdiv (daysBeforeMonth 400 m + d - 365) 7
  dsimp only at heq
  omega

theorem Stamp.Exists.passes (h : f.Exists tm) : f.Passes := h.toInRange.passes

theorem accepts_of_exists (h : f.Exists tm) : ∃ tm', mkDate f.text tm = .ok (some tm') :=
  ⟨_, mkDate_of_passes h.passes h.mon.1⟩

theorem makesDate_of_sound (hsound : Sound s tm) : MakesDate s tm := by
  have haccepted (f : Stamp) (hf : s = f.text) (hpasses : f.Passes) :
      f.InRange ∧ mkDate s tm = .ok (some (f.time tm)) := by
    obtain ⟨hmon, hmday, hsec, hyear, hlt⟩ := hsound f hf hpasses
    obtain ⟨hmon', hmday', hhour, hmin⟩ := id hpasses
    refine ⟨⟨⟨hmon, hmon'⟩, ⟨hmday, hmday'⟩, hhour, hmin, hsec⟩, ?_⟩
    rw [hf, mkDate_of_passes hpasses hmon, Stamp.fill_eq_time ⟨hmon, hmon'⟩ hmday hyear hlt]
  have hpasses (f : Stamp) (hf : s = f.text) (h : mkDate s tm ≠ .ok none) : f.Passes := by
    by_contra hnot
    rw [hf, mkDate_text, if_neg hnot] at h
    exact h rfl
  refine ⟨fun e he => ?_, fun tm' htm' => ?_, fun f hf hexists => hf ▸ accepts_of_exists hexists⟩
  · have hne : mkDate s tm ≠ .ok none := by rw [he]; exact fun h => by cases h
    obtain ⟨f, hf⟩ := mkDate_form hne
    have htime := (haccepted f hf (hpasses f hf hne)).2
    rw [he] at htime
    cases htime
  · have hne : mkDate s tm ≠ .ok none := by rw [htm']; exact fun h => by cases h
    refine ⟨mkDate_form hne, fun f hf => ?_⟩
    obtain ⟨hrange, htime⟩ := haccepted f hf (hpasses f hf hne)
    rw [htm'] at htime
    cases htime
    exact ⟨hrange, rfl⟩

/-- With a current time of years from 0 on, the condition is also necessary. -/
theorem sound_of_makesDate (hnow : 0 ≤ tm.tm_year) (hnow' : tm.tm_year ≤ 5000000)
    (h : MakesDate s tm) : Sound s tm := by
  intro f hf hpasses
  have hmon : 1 ≤ f.mon.val := by
    by_contra hmon
    have hindex : ¬ (0 ≤ (f.fill tm).tm_mon - 1 ∧
        (f.fill tm).tm_mon - 1 < monthOffset.length) := by
      have hzero : (f.fill tm).tm_mon = f.mon.val := rfl
      omega
    refine h.inTable .read ?_
    rw [hf, mkDate_text, if_pos hpasses, gregorianDayAt, if_neg hindex]
    rfl
  have hmk : mkDate f.text tm = _ := mkDate_of_passes hpasses hmon
  rw [← hf] at hmk
  obtain ⟨hrange, htime⟩ := (h.accepted _ hmk).2 f hf
  have hmon' := hpasses.1
  have hyear : 0 ≤ f.yearOf tm ∧ f.yearOf tm ≤ 5000099 := by
    rw [Stamp.yearOf]
    cases f.year with
    | kept => exact ⟨hnow, by dsimp only; omega⟩
    | yy y => dsimp only; omega
    | ccyy c y => dsimp only; omega
  have hmonth : daysBeforeMonth (f.yearOf tm).toNat f.mon.val ≤ 366 := by
    have hle : daysBeforeMonth (f.yearOf tm).toNat f.mon.val ≤
        daysBeforeMonth (f.yearOf tm).toNat 13 := daysBeforeMonth_mono (by omega)
    rw [daysBeforeMonth_end, yearLength] at hle
    split_ifs at hle <;> omega
  have hmday := hrange.mday
  have hpos : 1 ≤ f.yearOf tm := by
    by_contra hzero
    have hzero' : f.yearOf tm = 0 := by omega
    have hfill : (f.fill tm).tm_year = 0 := (Stamp.mk_year (by omega) (by omega)).trans hzero'
    have hlast : f.mday.val ≤ 31 := hmday.2.trans (by split_ifs <;> decide)
    refine gregorianDay_zero hfill rfl hrange.mon rfl ⟨hmday.1, hlast⟩ ?_
    rw [htime, Stamp.time, hzero']
  refine ⟨hmon, hmday.1, hrange.sec, hpos, ?_⟩
  have hdays := daysBeforeYear_eq (y := (f.yearOf tm).toNat) (by omega)
  have hlt := f.mday.isLt
  rw [dayNumber]
  omega

end

/-- **Date strings.** What `mk_date` makes of a string is the date that is meant if it is `Sound`,
and only then with a current year from 0 to 5000000: outside of these the day of the week is right
by chance at most. -/
theorem mk_date_iff (s : List UInt8) (tm : RtcTime) :
    (Sound s tm → MakesDate s tm) ∧
    (0 ≤ tm.tm_year → tm.tm_year ≤ 5000000 → MakesDate s tm → Sound s tm) :=
  ⟨makesDate_of_sound, sound_of_makesDate⟩

/-- `010100002000`, the start of the year 2000. -/
def stampOne : Stamp := ⟨1, 1, 0, 0, .ccyy 20 0, none⟩

theorem mk_date_iff_one : Sound stampOne.text startTime ∧ MakesDate stampOne.text startTime := by
  have hsound : Sound stampOne.text startTime := by
    intro f hf _
    obtain rfl := Stamp.text_injective hf
    have hdays := daysBeforeYear_eq (y := 2000) (by decide)
    have hyear : (stampOne.yearOf startTime).toNat = 2000 := rfl
    have hmon : stampOne.mon.val = 1 := rfl
    have hmday : stampOne.mday.val = 1 := rfl
    refine ⟨by decide, by decide, by decide, by decide, ?_⟩
    rw [hyear, hmon, hmday, dayNumber_first]
    omega
  have hmakes : MakesDate stampOne.text startTime := (mk_date_iff _ _).1 hsound
  exact ⟨(mk_date_iff _ _).2 (by decide) (by decide) hmakes, hmakes⟩

/-- `00010000`: month 0 indexes the table in front of its start. -/
theorem mk_date_month_zero : ¬ MakesDate (⟨0, 1, 0, 0, .kept, none⟩ : Stamp).text startTime := by
  intro h
  refine h.inTable .read ?_
  rw [mkDate_text, if_pos (by decide)]
  rfl

end UBoot.Rtc
