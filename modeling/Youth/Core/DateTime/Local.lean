/-
  Youth.Core.DateTime.Local

  Month and year arithmetic of `youth/core/DateTime.cc`, in local time.

  Local time is a fixed offset from UTC (`Zone`).  `localtime` and `mktime` are those of
  the C library for such a zone; `mktime` gives a value to every `tm` whose fields are out
  of range too, as the standard asks, and undoes `localtime` (`mktime_localtime`).

  The source takes an instant apart with divisions that round towards zero, shifts the
  whole seconds and puts the rest back.  `addMonths_eq` and `addYears_eq` say so without
  the machine's arithmetic: as long as the years are those that the clock can represent,
  the seconds move as `Zone.shift` moves them.
-/

import Youth.Core.DateTime
import Youth.Lib.Calendar

namespace Youth.Core

open Youth.Lib.Calendar

/-- `std::tm`, as far as it is read: the month counts from 0 and the year from 1900. -/
structure Tm where
  sec : Int
  min : Int
  hour : Int
  mday : Int
  mon : Int
  year : Int
deriving DecidableEq

/-- Seconds by which local time is ahead of UTC.  A POSIX zone stays below 25 hours. -/
structure Zone where
  offset : Int
  low : -90000 < offset
  high : offset < 90000

namespace Zone

variable (z : Zone)

def utc : Zone := ⟨0, by decide, by decide⟩

/-- The local date at the second `t`. -/
def date (t : Int) : Date := Date.ofDay ((t + z.offset) / 86400)

/-- Seconds since local midnight. -/
def timeOfDay (t : Int) : Int := (t + z.offset) % 86400

/-- `std::localtime` -/
def localtime (t : Int) : Tm where
  sec := z.timeOfDay t % 60
  min := z.timeOfDay t / 60 % 60
  hour := z.timeOfDay t / 3600
  mday := (z.date t).day
  mon := (z.date t).month - 1
  year := (z.date t).year - 1900

/-- `std::mktime` -/
def mktime (tm : Tm) : Int :=
  86400 * (firstDay (12 * (tm.year + 1900) + tm.mon) + tm.mday - 1) + 3600 * tm.hour +
    60 * tm.min + tm.sec - z.offset

/-- The second with a given local date and time. -/
def second (d : Date) (time : Int) : Int := 86400 * d.toDay + time - z.offset

/-- The same local time, `k` months later. -/
def shift (t k : Int) : Int := z.second ((z.date t).addMonths k) (z.timeOfDay t)

end Zone

/-- `daysOfMonth`, with the remainders of the machine. -/
def daysOfMonth (year month : Int) : Int :=
  if month = 2 then
    if (year.tmod 4 = 0 ∧ year.tmod 100 ≠ 0) ∨ year.tmod 400 = 0 then 29 else 28
  else if month = 4 ∨ month = 6 ∨ month = 9 ∨ month = 11 then 30 else 31

namespace DateTime

/-- The `system_clock`'s time point of an instant, in nanoseconds. -/
def timePoint (us : DateTime) : Int := int64 (us * 1000)

/-- `system_clock::to_time_t` -/
def toTimeT (tp : Int) : Int := tp.tdiv 1000000000

/-- `system_clock::from_time_t` -/
def fromTimeT (t : Int) : Int := int64 (t * 1000000000)

/-- `duration_cast<microseconds>` of a time point. -/
def microseconds (tp : Int) : Int := tp.tdiv 1000

/-- The branch of `addMonths` for a positive number of months. -/
def carryMonths (tm : Tm) : Tm :=
  { tm with year := int32 (tm.year + tm.mon.tdiv 12), mon := tm.mon.tmod 12 }

/-- The loop of `addMonths` for the others. -/
def borrowMonths (tm : Tm) : Tm :=
  if tm.mon < 0 then borrowMonths { tm with mon := tm.mon + 12, year := int32 (tm.year - 1) }
  else tm
termination_by (-tm.mon).toNat
decreasing_by
  show (-(tm.mon + 12)).toNat < (-tm.mon).toNat
  omega

/-- `tm.tm_mday = std::min(tm.tm_mday, daysOfMonth(tm.tm_year + 1900, tm.tm_mon + 1))` -/
def clampDay (tm : Tm) : Tm :=
  { tm with mday := min tm.mday (daysOfMonth (int32 (tm.year + 1900)) (tm.mon + 1)) }

def addMonths (z : Zone) (us : DateTime) (months : Int) : DateTime :=
  let tm := z.localtime (toTimeT (timePoint us))
  let tm := { tm with mon := int32 (int64 (tm.mon + months)) }
  let tm := if 0 < months then carryMonths tm else borrowMonths tm
  let t := z.mktime (clampDay tm)
  int64 (microseconds (fromTimeT t) + us.tmod 1000000)

def addYears (z : Zone) (us : DateTime) (years : Int) : DateTime :=
  let tm := z.localtime (toTimeT (timePoint us))
  let tm := { tm with year := int32 (int64 (tm.year + years)) }
  let t := z.mktime (clampDay tm)
  int64 (microseconds (fromTimeT t) + us.tmod 100000)

end DateTime

/-! ## The library's functions -/

theorem tmod_eq_zero_iff (a : Int) {b : Int} : a.tmod b = 0 ↔ a % b = 0 := by
  rw [← Int.dvd_iff_tmod_eq_zero, ← Int.dvd_iff_emod_eq_zero]

theorem daysOfMonth_eq (year month : Int) : daysOfMonth year month = monthLength year month := by
  have hleap : ((year.tmod 4 = 0 ∧ year.tmod 100 ≠ 0) ∨ year.tmod 400 = 0) ↔ IsLeap year := by
    unfold IsLeap
    simp only [ne_eq, tmod_eq_zero_iff]
  unfold daysOfMonth monthLength
  simp only [hleap]

namespace Zone

variable {z : Zone}

theorem timeOfDay_range (z : Zone) (t : Int) : 0 ≤ z.timeOfDay t ∧ z.timeOfDay t < 86400 := by
  unfold timeOfDay
  omega

@[simp] theorem second_date (t : Int) : z.second (z.date t) (z.timeOfDay t) = t := by
  unfold second date timeOfDay
  rw [Date.toDay_ofDay]
  omega

theorem date_second (d : Date) {time : Int} (h : 0 ≤ time ∧ time < 86400) :
    z.date (z.second d time) = d := by
  have hday : (z.second d time + z.offset) / 86400 = d.toDay := by
    unfold second
    omega
  rw [date, hday, Date.ofDay_toDay]

theorem timeOfDay_second (d : Date) {time : Int} (h : 0 ≤ time ∧ time < 86400) :
    z.timeOfDay (z.second d time) = time := by
  unfold timeOfDay second
  omega

/-- The month of `localtime` is that of the date. -/
theorem localtime_index (t : Int) :
    12 * ((z.localtime t).year + 1900) + (z.localtime t).mon = (z.date t).index := by
  show 12 * ((z.date t).index / 12 - 1900 + 1900) + ((z.date t).index % 12 + 1 - 1) = _
  omega

theorem localtime_mon (t : Int) : 0 ≤ (z.localtime t).mon ∧ (z.localtime t).mon < 12 := by
  show 0 ≤ (z.date t).index % 12 + 1 - 1 ∧ (z.date t).index % 12 + 1 - 1 < 12
  omega

/-- A `tm` with the clock time of `t` and a date of its own. -/
theorem mktime_eq {t : Int} {tm : Tm} {d : Date} (hsec : tm.sec = (z.localtime t).sec)
    (hmin : tm.min = (z.localtime t).min) (hhour : tm.hour = (z.localtime t).hour)
    (hindex : 12 * (tm.year + 1900) + tm.mon = d.index) (hday : tm.mday = d.day) :
    z.mktime tm = z.second d (z.timeOfDay t) := by
  have hclock : 3600 * tm.hour + 60 * tm.min + tm.sec = z.timeOfDay t := by
    rw [hsec, hmin, hhour]
    show 3600 * (z.timeOfDay t / 3600) + 60 * (z.timeOfDay t / 60 % 60) + z.timeOfDay t % 60 = _
    omega
  unfold mktime second Date.toDay
  rw [hindex, hday]
  omega

theorem mktime_localtime (t : Int) : z.mktime (z.localtime t) = t := by
  rw [mktime_eq (t := t) (d := z.date t) rfl rfl rfl (localtime_index t) rfl, second_date]

end Zone

/-! ## The shift of the whole seconds -/

namespace DateTime

/-- Both normalisations are the division with remainder by twelve. -/
theorem carryMonths_eq {tm : Tm} (h0 : 0 ≤ tm.mon) (hlow : -0x80000000 ≤ tm.year)
    (hhigh : tm.year + tm.mon / 12 < 0x80000000) :
    carryMonths tm = { tm with year := tm.year + tm.mon / 12, mon := tm.mon % 12 } := by
  unfold carryMonths
  rw [Int.tdiv_eq_ediv_of_nonneg h0, Int.tmod_eq_emod_of_nonneg h0,
    int32_of_inRange (by omega) hhigh]

theorem borrowMonths_eq {tm : Tm} (h12 : tm.mon < 12) (hlow : -0x80000000 ≤ tm.year + tm.mon / 12)
    (hhigh : tm.year < 0x80000000) :
    borrowMonths tm = { tm with year := tm.year + tm.mon / 12, mon := tm.mon % 12 } := by
  -- along the loop: the year goes down as the quotient goes up
  induction tm using borrowMonths.induct with
  | case1 tm hneg ih =>
    have hyear : int32 (tm.year - 1) = tm.year - 1 := int32_of_inRange (by omega) (by omega)
    have hdiv : (tm.mon + 12) / 12 = tm.mon / 12 + 1 := by omega
    have hmod : (tm.mon + 12) % 12 = tm.mon % 12 := by omega
    have hsum : tm.year - 1 + (tm.mon / 12 + 1) = tm.year + tm.mon / 12 := by omega
    rw [borrowMonths, if_pos hneg]
    simp only [hyear, hdiv, hmod, hsum] at ih ⊢
    exact ih (by omega) hlow (by omega)
  | case2 tm hneg =>
    have hdiv : tm.mon / 12 = 0 := by omega
    have hmod : tm.mon % 12 = tm.mon := by omega
    rw [borrowMonths, if_neg hneg, hdiv, hmod, Int.add_zero]

/-- The `tm` that `mktime` gets, for a month index `i` near the years of the clock: the clock
    time of `t` on its day of the month, or the last one. -/
theorem mktime_clampDay {z : Zone} {t k : Int} {tm : Tm} (hsec : tm.sec = (z.localtime t).sec)
    (hmin : tm.min = (z.localtime t).min) (hhour : tm.hour = (z.localtime t).hour)
    (hday : tm.mday = (z.localtime t).mday) (hmon : 0 ≤ tm.mon ∧ tm.mon < 12)
    (hindex : 12 * (tm.year + 1900) + tm.mon = (z.date t).index + k)
    (hyear : -0x80000000 ≤ tm.year + 1900 ∧ tm.year + 1900 < 0x80000000) :
    z.mktime (clampDay tm) = z.shift t k := by
  refine Zone.mktime_eq hsec hmin hhour hindex ?_
  show min tm.mday (daysOfMonth (int32 (tm.year + 1900)) (tm.mon + 1)) =
    min (z.date t).day (lengthOf ((z.date t).index + k))
  have hyearOf : yearOf ((z.date t).index + k) = tm.year + 1900 := by
    unfold yearOf
    omega
  have hmonthOf : monthOf ((z.date t).index + k) = tm.mon + 1 := by
    unfold monthOf
    omega
  rw [int32_of_inRange hyear.1 hyear.2, daysOfMonth_eq, lengthOf, hyearOf, hmonthOf, hday]
  rfl

/-- The months from January 1678 to January 2262, whose instants the clock can represent. -/
def Near (i : Int) : Prop := 12 * 1678 ≤ i ∧ i ≤ 12 * 2262

theorem second_of_near {z : Zone} {d : Date} {time : Int} (h : Near d.index)
    (htime : 0 ≤ time ∧ time < 86400) :
    -9218000000 ≤ z.second d time ∧ z.second d time ≤ 9218000000 := by
  have hfirst : firstDay (12 * 1678) ≤ firstDay d.index := firstDay_mono h.1
  have hlast : firstDay d.index ≤ firstDay (12 * 2262) := firstDay_mono h.2
  have h1678 : firstDay (12 * 1678) = -106650 := by decide
  have h2262 : firstDay (12 * 2262) = 106651 := by decide
  have hlength := lengthOf_range d.index
  have hday := d.one_le
  have hle := d.le_length
  have hzlow := z.low
  have hzhigh := z.high
  unfold Zone.second Date.toDay
  omega

theorem toTimeT_timePoint {us : Int} (hlow : -9218000001000000 ≤ us) (hhigh : us ≤ 9218000001000000) :
    toTimeT (timePoint us) = us.tdiv 1000000 := by
  unfold toTimeT timePoint
  rw [int64_of_inRange (by omega) (by omega),
    show (1000000000 : Int) = 1000000 * 1000 from rfl, Int.mul_tdiv_mul_of_pos_left _ _ (by decide)]

theorem microseconds_fromTimeT {t : Int} (hlow : -9218000000 ≤ t) (hhigh : t ≤ 9218000000) :
    microseconds (fromTimeT t) = t * 1000000 := by
  unfold microseconds fromTimeT
  rw [int64_of_inRange (by omega) (by omega),
    show t * 1000000000 = t * 1000000 * 1000 by omega, Int.mul_tdiv_cancel _ (by decide)]

theorem tmod_range (us : Int) {b : Int} (hb : 0 < b) : -b < us.tmod b ∧ us.tmod b < b := by
  have hlow := Int.lt_tmod_of_pos us hb
  have hhigh := Int.tmod_lt_of_pos us hb
  omega

/-- An instant is between its whole seconds and the next ones, towards zero or not. -/
theorem us_of_near {z : Zone} {us : Int} (h : Near (z.date (us.tdiv 1000000)).index) :
    -9218000001000000 ≤ us ∧ us ≤ 9218000001000000 := by
  have hsecond := second_of_near (z := z) h (z.timeOfDay_range (us.tdiv 1000000))
  rw [Zone.second_date] at hsecond
  have hsplit := Int.mul_tdiv_add_tmod us 1000000
  have hrest := tmod_range us (b := 1000000) (by decide)
  omega

section

variable {z : Zone} {t : Int} (h : Near (z.date t).index)

include h

/-- Whichever branch `addMonths` takes, the index of the month goes up by `k`. -/
theorem mktime_addMonths {k : Int} (hk : Near ((z.date t).index + k)) {tm : Tm}
    (htm : tm = { z.localtime t with mon := int32 (int64 ((z.localtime t).mon + k)) }) :
    z.mktime (clampDay (if 0 < k then carryMonths tm else borrowMonths tm)) = z.shift t k := by
  have hindex := z.localtime_index t
  have hmon := z.localtime_mon t
  unfold Near at h hk
  have hsum : int32 (int64 ((z.localtime t).mon + k)) = (z.localtime t).mon + k := by
    rw [int64_of_inRange (by omega) (by omega), int32_of_inRange (by omega) (by omega)]
  rw [hsum] at htm
  have hyear : tm.year = (z.localtime t).year := by rw [htm]
  have hmonth : tm.mon = (z.localtime t).mon + k := by rw [htm]
  have hnormal : (if 0 < k then carryMonths tm else borrowMonths tm) =
      { tm with year := tm.year + tm.mon / 12, mon := tm.mon % 12 } := by
    split_ifs with hpos
    · exact carryMonths_eq (by omega) (by omega) (by omega)
    · exact borrowMonths_eq (by omega) (by omega) (by omega)
  rw [hnormal]
  refine mktime_clampDay ?_ ?_ ?_ ?_ ?_ ?_ ?_
  · rw [htm]
  · rw [htm]
  · rw [htm]
  · rw [htm]
  · show 0 ≤ tm.mon % 12 ∧ tm.mon % 12 < 12
    omega
  · show 12 * (tm.year + tm.mon / 12 + 1900) + tm.mon % 12 = _
    omega
  · show -0x80000000 ≤ tm.year + tm.mon / 12 + 1900 ∧ tm.year + tm.mon / 12 + 1900 < 0x80000000
    omega

theorem mktime_addYears {n : Int} (hn : Near ((z.date t).index + 12 * n)) :
    z.mktime (clampDay { z.localtime t with year := int32 (int64 ((z.localtime t).year + n)) }) =
      z.shift t (12 * n) := by
  have hindex := z.localtime_index t
  have hmon := z.localtime_mon t
  unfold Near at h hn
  have hsum : int32 (int64 ((z.localtime t).year + n)) = (z.localtime t).year + n := by
    rw [int64_of_inRange (by omega) (by omega), int32_of_inRange (by omega) (by omega)]
  rw [hsum]
  refine mktime_clampDay rfl rfl rfl rfl hmon ?_ ?_
  · show 12 * ((z.localtime t).year + n + 1900) + (z.localtime t).mon = _
    omega
  · show -0x80000000 ≤ (z.localtime t).year + n + 1900 ∧ (z.localtime t).year + n + 1900 < 0x80000000
    omega

end

/-- The seconds put back together with what the division left. -/
theorem int64_recombine {z : Zone} {t k r : Int} (hk : Near ((z.date t).index + k))
    (hr : -1000000 < r ∧ r < 1000000) :
    int64 (microseconds (fromTimeT (z.shift t k)) + r) = z.shift t k * 1000000 + r := by
  have hsecond : -9218000000 ≤ z.shift t k ∧ z.shift t k ≤ 9218000000 :=
    second_of_near (d := (z.date t).addMonths k) hk (z.timeOfDay_range t)
  rw [microseconds_fromTimeT hsecond.1 hsecond.2, int64_of_inRange (by omega) (by omega)]

theorem addMonths_eq {z : Zone} {us k : Int} (h : Near (z.date (us.tdiv 1000000)).index)
    (hk : Near ((z.date (us.tdiv 1000000)).index + k)) :
    addMonths z us k = z.shift (us.tdiv 1000000) k * 1000000 + us.tmod 1000000 := by
  have hus := us_of_near h
  unfold addMonths
  dsimp only
  rw [toTimeT_timePoint hus.1 hus.2, mktime_addMonths h hk rfl]
  exact int64_recombine hk (tmod_range us (by decide))

theorem addYears_eq {z : Zone} {us n : Int} (h : Near (z.date (us.tdiv 1000000)).index)
    (hn : Near ((z.date (us.tdiv 1000000)).index + 12 * n)) :
    addYears z us n = z.shift (us.tdiv 1000000) (12 * n) * 1000000 + us.tmod 100000 := by
  have hus := us_of_near h
  have hrest := tmod_range us (b := 100000) (by decide)
  unfold addYears
  dsimp only
  rw [toTimeT_timePoint hus.1 hus.2, mktime_addYears h hn]
  exact int64_recombine hn (by omega)

end DateTime
end Youth.Core
