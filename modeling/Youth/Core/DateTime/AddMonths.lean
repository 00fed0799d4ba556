/-
  Youth.Core.DateTime.AddMonths

  What `addMonths` and `addYears` are for, and where they miss it.

  A local clock shows seven fields at every instant (`clock`, with rounding down also
  before the epoch).  `MonthsLater` says what they are `months` later; `shifted` is the one
  instant where the clock shows that (`monthsLater_iff`).

  The source rounds towards zero.  Before the epoch it therefore moves the second that
  follows the instant, which is harmless unless that one lies on the next day: then the two
  days have to stay next to each other.  `addMonths_eq_shifted_iff` has the exact condition.
  `addYears` moves the same second and loses part of the rest.
-/

import Youth.Core.DateTime.Local

namespace Youth.Core
namespace DateTime

open Youth.Lib.Calendar

/-- What a local clock shows. -/
structure Clock where
  year : Int
  month : Int
  day : Int
  hour : Int
  minute : Int
  second : Int
  microsecond : Int
deriving DecidableEq

/-- The fields at an instant; the whole seconds are those that have passed. -/
def clock (z : Zone) (us : DateTime) : Clock :=
  let tm := z.localtime (us / 1000000)
  ⟨tm.year + 1900, tm.mon + 1, tm.mday, tm.hour, tm.min, tm.sec, us % 1000000⟩

/-- The index of the month. -/
def Clock.index (c : Clock) : Int := 12 * c.year + c.month - 1

/-- `c'` is `months` after `c`: the month counts on, the day is kept if the month has it, and
    the time of day stays. -/
structure MonthsLater (months : Int) (c c' : Clock) : Prop where
  month : 12 * c'.year + c'.month = 12 * c.year + c.month + months
  day : c'.day = min c.day (monthLength c'.year c'.month)
  hour : c'.hour = c.hour
  minute : c'.minute = c.minute
  second : c'.second = c.second
  microsecond : c'.microsecond = c.microsecond

/-- The years that the clock can represent as a whole. -/
def InYears (y : Int) : Prop := 1678 ≤ y ∧ y ≤ 2261

instance (y : Int) : Decidable (InYears y) := inferInstanceAs (Decidable (_ ∧ _))

/-- The instant `months` after another. -/
def shifted (z : Zone) (us : DateTime) (months : Int) : Int :=
  z.shift (us / 1000000) months * 1000000 + us % 1000000

/-- Rounding towards zero does no harm: the instant is not before the epoch, or is a whole
    second, or not in the last second of its local day, or that day and the next stay
    neighbours. -/
def Aligned (z : Zone) (us : DateTime) (months : Int) : Prop :=
  let c := clock z us
  0 ≤ us ∨ us % 1000000 = 0 ∨ ¬ (c.hour = 23 ∧ c.minute = 59 ∧ c.second = 59) ∨
    c.day < lengthOf c.index ∧ c.day < lengthOf (c.index + months) ∨
    c.day = lengthOf c.index ∧ lengthOf (c.index + months) ≤ c.day

instance (z : Zone) (us : DateTime) (months : Int) : Decidable (Aligned z us months) :=
  inferInstanceAs (Decidable (_ ∨ _ ∨ _ ∨ _ ∨ _))

variable {z : Zone} {us k : Int}

/-! ## The instant that is meant -/

theorem clock_index (z : Zone) (us : DateTime) : (clock z us).index = (z.date (us / 1000000)).index := by
  have hindex := z.localtime_index (us / 1000000)
  show 12 * ((z.localtime (us / 1000000)).year + 1900) + ((z.localtime (us / 1000000)).mon + 1) - 1 = _
  omega

theorem clock_lengthOf (z : Zone) (us : DateTime) :
    monthLength (clock z us).year (clock z us).month = lengthOf (z.date (us / 1000000)).index := by
  show monthLength ((z.date (us / 1000000)).year - 1900 + 1900) ((z.date (us / 1000000)).month - 1 + 1) = _
  rw [Int.sub_add_cancel, Int.sub_add_cancel]
  rfl

/-- Hour, minute and second are the same iff the seconds since midnight are. -/
theorem timeOfDay_eq_iff (z : Zone) (us us' : DateTime) :
    z.timeOfDay (us' / 1000000) = z.timeOfDay (us / 1000000) ↔
      (clock z us').hour = (clock z us).hour ∧ (clock z us').minute = (clock z us).minute ∧
        (clock z us').second = (clock z us).second := by
  show z.timeOfDay (us' / 1000000) = z.timeOfDay (us / 1000000) ↔
    z.timeOfDay (us' / 1000000) / 3600 = z.timeOfDay (us / 1000000) / 3600 ∧
      z.timeOfDay (us' / 1000000) / 60 % 60 = z.timeOfDay (us / 1000000) / 60 % 60 ∧
      z.timeOfDay (us' / 1000000) % 60 = z.timeOfDay (us / 1000000) % 60
  generalize z.timeOfDay (us / 1000000) = a
  generalize z.timeOfDay (us' / 1000000) = b
  constructor
  · rintro rfl
    exact ⟨rfl, rfl, rfl⟩
  · omega

theorem shifted_ediv (z : Zone) (us k : Int) : shifted z us k / 1000000 = z.shift (us / 1000000) k := by
  unfold shifted
  omega

theorem date_shifted (z : Zone) (us k : Int) :
    z.date (shifted z us k / 1000000) = (z.date (us / 1000000)).addMonths k := by
  rw [shifted_ediv, Zone.shift, Zone.date_second _ (z.timeOfDay_range _)]

theorem timeOfDay_shifted (z : Zone) (us k : Int) :
    z.timeOfDay (shifted z us k / 1000000) = z.timeOfDay (us / 1000000) := by
  rw [shifted_ediv, Zone.shift, Zone.timeOfDay_second _ (z.timeOfDay_range _)]

/-- The clock shows what it has to at one instant only. -/
theorem monthsLater_iff {r : Int} :
    MonthsLater k (clock z us) (clock z r) ↔ r = shifted z us k := by
  constructor
  · intro h
    -- the fields give the date and the second of the day, and these the instant
    have hindex : (z.date (r / 1000000)).index = (z.date (us / 1000000)).index + k := by
      have hmonth := h.month
      have hr := clock_index z r
      have hus := clock_index z us
      unfold Clock.index at hr hus
      omega
    have hday : (z.date (r / 1000000)).day =
        min (z.date (us / 1000000)).day (lengthOf (z.date (r / 1000000)).index) := by
      rw [← clock_lengthOf]
      exact h.day
    have hdate : z.date (r / 1000000) = (z.date (us / 1000000)).addMonths k := by
      refine Date.ext hindex ?_
      rw [hday, hindex]
      rfl
    have htime := (timeOfDay_eq_iff z us r).mpr ⟨h.hour, h.minute, h.second⟩
    have hsecond := z.second_date (r / 1000000)
    rw [hdate, htime] at hsecond
    have hmicro : r % 1000000 = us % 1000000 := h.microsecond
    unfold shifted Zone.shift
    omega
  · rintro rfl
    obtain ⟨hhour, hminute, hsecond⟩ := (timeOfDay_eq_iff z us _).mp (timeOfDay_shifted z us k)
    refine ⟨?_, ?_, hhour, hminute, hsecond, ?_⟩
    · have hindex := congrArg Date.index (date_shifted z us k)
      rw [← clock_index] at hindex
      have hus := clock_index z us
      change _ = (z.date (us / 1000000)).index + k at hindex
      unfold Clock.index at hindex hus
      omega
    · rw [clock_lengthOf, date_shifted]
      exact congrArg Date.day (date_shifted z us k)
    · show (z.shift (us / 1000000) k * 1000000 + us % 1000000) % 1000000 = us % 1000000
      omega

/-! ## Rounding -/

theorem tdiv_of_aligned (h : 0 ≤ us ∨ us % 1000000 = 0) :
    us.tdiv 1000000 = us / 1000000 ∧ us.tmod 1000000 = us % 1000000 := by
  have hdvd : 0 ≤ us ∨ (1000000 : Int) ∣ us := h.imp_right Int.dvd_of_emod_eq_zero
  rw [Int.tdiv_eq_ediv, Int.tmod_eq_emod, if_pos hdvd, if_pos hdvd]
  omega

/-- Before the epoch a fraction of a second counts to the next one. -/
theorem tdiv_of_fraction (h : ¬ (0 ≤ us ∨ us % 1000000 = 0)) :
    us.tdiv 1000000 = us / 1000000 + 1 ∧ us.tmod 1000000 = us % 1000000 - 1000000 := by
  have hdvd : ¬ (0 ≤ us ∨ (1000000 : Int) ∣ us) := fun hd => h (hd.imp_right Int.emod_eq_zero_of_dvd)
  rw [Int.tdiv_eq_ediv, Int.tmod_eq_emod, if_neg hdvd, if_neg hdvd]
  exact ⟨rfl, rfl⟩

/-- The second after, on the same day. -/
theorem date_succ_of_lt {t : Int} (h : z.timeOfDay t < 86399) :
    z.date (t + 1) = z.date t ∧ z.timeOfDay (t + 1) = z.timeOfDay t + 1 := by
  unfold Zone.date Zone.timeOfDay at *
  have hday : (t + 1 + z.offset) / 86400 = (t + z.offset) / 86400 := by omega
  refine ⟨?_, by omega⟩
  rw [hday]

/-- The second after midnight. -/
theorem date_succ_of_eq {t : Int} (h : z.timeOfDay t = 86399) :
    z.date (t + 1) = (z.date t).next ∧ z.timeOfDay (t + 1) = 0 := by
  unfold Zone.date Zone.timeOfDay Date.next at *
  have hday : (t + 1 + z.offset) / 86400 = (t + z.offset) / 86400 + 1 := by omega
  refine ⟨?_, by omega⟩
  rw [hday, Date.toDay_ofDay]

theorem date_succ_index (t : Int) :
    (z.date (t + 1)).index = (z.date t).index ∨ (z.date (t + 1)).index = (z.date t).index + 1 := by
  have htime := z.timeOfDay_range t
  by_cases hlast : z.timeOfDay t < 86399
  · rw [(date_succ_of_lt hlast).1]
    exact .inl rfl
  · have hle := (z.date t).le_length
    rw [(date_succ_of_eq (by omega)).1]
    by_cases hturn : (z.date t).day < lengthOf (z.date t).index
    · exact .inl (Date.next_of_lt hturn).1
    · exact .inr (Date.next_of_eq (by omega)).1

/-- Two seconds in a row stay so, unless midnight between them does not. -/
theorem shift_succ_iff (z : Zone) (t k : Int) :
    z.shift (t + 1) k = z.shift t k + 1 ↔ z.timeOfDay t ≠ 86399 ∨ (z.date t).KeepsNext k := by
  have htime := z.timeOfDay_range t
  by_cases hlast : z.timeOfDay t = 86399
  · obtain ⟨hdate, hmidnight⟩ := date_succ_of_eq hlast
    rw [← Date.toDay_addMonths_next_iff]
    unfold Zone.shift Zone.second
    rw [hdate, hmidnight, hlast]
    omega
  · obtain ⟨hdate, hsecond⟩ := date_succ_of_lt (z := z) (t := t) (by omega)
    unfold Zone.shift Zone.second
    rw [hdate, hsecond]
    exact ⟨fun _ => .inl hlast, fun _ => by omega⟩

/-! ## `addMonths` -/

theorem aligned_iff (z : Zone) (us k : Int) :
    Aligned z us k ↔ (0 ≤ us ∨ us % 1000000 = 0) ∨ z.timeOfDay (us / 1000000) ≠ 86399 ∨
      (z.date (us / 1000000)).KeepsNext k := by
  have htime := z.timeOfDay_range (us / 1000000)
  have hlast : ((clock z us).hour = 23 ∧ (clock z us).minute = 59 ∧ (clock z us).second = 59) ↔
      z.timeOfDay (us / 1000000) = 86399 := by
    show z.timeOfDay (us / 1000000) / 3600 = 23 ∧ z.timeOfDay (us / 1000000) / 60 % 60 = 59 ∧
      z.timeOfDay (us / 1000000) % 60 = 59 ↔ _
    omega
  unfold Aligned Date.KeepsNext
  dsimp only
  rw [hlast, clock_index, or_assoc]
  rfl

/-- The months around an instant and its image are those of the clock. -/
theorem near_tdiv (h : InYears (clock z us).year) (hk : InYears (yearOf ((clock z us).index + k))) :
    Near (z.date (us.tdiv 1000000)).index ∧ Near ((z.date (us.tdiv 1000000)).index + k) := by
  have hyear : yearOf (clock z us).index = (clock z us).year := by
    rw [clock_index]
    exact (Int.sub_add_cancel _ _).symm
  rw [← hyear, clock_index] at h
  rw [clock_index] at hk
  unfold InYears yearOf at h hk
  unfold Near
  by_cases hround : 0 ≤ us ∨ us % 1000000 = 0
  · rw [(tdiv_of_aligned hround).1]
    omega
  · -- one second later the month may be the next one
    rw [(tdiv_of_fraction hround).1]
    have hsucc := date_succ_index (z := z) (us / 1000000)
    omega

theorem addMonths_eq_shifted_iff (h : InYears (clock z us).year)
    (hk : InYears (yearOf ((clock z us).index + k))) :
    addMonths z us k = shifted z us k ↔ Aligned z us k := by
  obtain ⟨hnear, hnear'⟩ := near_tdiv h hk
  rw [addMonths_eq hnear hnear', aligned_iff, shifted]
  by_cases hround : 0 ≤ us ∨ us % 1000000 = 0
  · obtain ⟨hdiv, hmod⟩ := tdiv_of_aligned hround
    rw [hdiv, hmod]
    exact ⟨fun _ => .inl hround, fun _ => rfl⟩
  · -- the second after the instant is moved; it has to stay the second after
    obtain ⟨hdiv, hmod⟩ := tdiv_of_fraction hround
    rw [hdiv, hmod, or_iff_right hround, ← shift_succ_iff]
    show (z.shift (us / 1000000 + 1) k * 1000000 + (us % 1000000 - 1000000) : Int) =
      z.shift (us / 1000000) k * 1000000 + us % 1000000 ↔ _
    omega

/-- The index of the month of the shifted instant, and that its year is the one asked for. -/
theorem clock_shifted (z : Zone) (us k : Int) :
    (clock z (shifted z us k)).index = (clock z us).index + k ∧
      (clock z (shifted z us k)).year = yearOf ((clock z us).index + k) := by
  rw [clock_index, clock_index]
  refine ⟨congrArg Date.index (date_shifted z us k), ?_⟩
  show (z.date (shifted z us k / 1000000)).year - 1900 + 1900 = _
  rw [date_shifted, Int.sub_add_cancel]
  rfl

/-- Up to the 28th the instants that are meant add up. -/
theorem shifted_shifted (hday : (clock z us).day ≤ 28) (a b : Int) :
    shifted z (shifted z us a) b = shifted z us (a + b) := by
  have hmicro : shifted z us a % 1000000 = us % 1000000 := by
    unfold shifted
    omega
  rw [shifted, hmicro, Zone.shift, date_shifted, timeOfDay_shifted, Date.addMonths_addMonths hday]
  rfl

/-- `addMonths` gives the fields that are meant exactly where the rounding does no harm, and
    there two shifts in a row from a day up to the 28th are one. -/
theorem addMonths_law (z : Zone) (us : DateTime) (h : InYears (clock z us).year) :
    (∀ months, InYears (yearOf ((clock z us).index + months)) →
      (MonthsLater months (clock z us) (clock z (addMonths z us months)) ↔ Aligned z us months)) ∧
    (∀ a b, InYears (yearOf ((clock z us).index + a)) →
      InYears (yearOf ((clock z us).index + (a + b))) → (clock z us).day ≤ 28 →
      Aligned z us a → Aligned z us (a + b) → Aligned z (shifted z us a) b →
        addMonths z (addMonths z us a) b = addMonths z us (a + b)) := by
  constructor
  · intro months hmonths
    rw [monthsLater_iff, addMonths_eq_shifted_iff h hmonths]
  · intro a b ha hab hday hfirst hboth hsecond
    obtain ⟨hindex, hyear⟩ := clock_shifted z us a
    have hb : InYears (yearOf ((clock z (shifted z us a)).index + b)) := by
      rw [hindex, Int.add_assoc]
      exact hab
    calc addMonths z (addMonths z us a) b
        = addMonths z (shifted z us a) b := by rw [(addMonths_eq_shifted_iff h ha).mpr hfirst]
      _ = shifted z (shifted z us a) b := (addMonths_eq_shifted_iff (hyear ▸ ha) hb).mpr hsecond
      _ = shifted z us (a + b) := shifted_shifted hday a b
      _ = addMonths z us (a + b) := ((addMonths_eq_shifted_iff h hab).mpr hboth).symm

/-- From the 27th of February 1969, half a second before midnight, by one month and then by
    another. -/
theorem addMonths_law_before_epoch :
    MonthsLater 1 (clock .utc (-26524800500000)) (clock .utc (addMonths .utc (-26524800500000) 1)) ∧
      addMonths .utc (addMonths .utc (-26524800500000) 1) 1 = addMonths .utc (-26524800500000) 2 :=
  have hlaw := addMonths_law .utc (-26524800500000) (by decide +kernel)
  ⟨(hlaw.1 1 (by decide +kernel)).mpr (by decide +kernel),
    hlaw.2 1 1 (by decide +kernel) (by decide +kernel) (by decide +kernel) (by decide +kernel)
      (by decide +kernel) (by decide +kernel)⟩

/-- A day later, on the 28th, the second that is moved lies in March: the result is the last of
    March. -/
theorem addMonths_end_of_february :
    InYears (clock .utc (-26438400500000)).year ∧
      InYears (yearOf ((clock .utc (-26438400500000)).index + 1)) ∧
      clock .utc (-26438400500000) = ⟨1969, 2, 28, 23, 59, 59, 500000⟩ ∧
      clock .utc (addMonths .utc (-26438400500000) 1) = ⟨1969, 3, 31, 23, 59, 59, 500000⟩ ∧
      ¬ MonthsLater 1 (clock .utc (-26438400500000)) (clock .utc (addMonths .utc (-26438400500000) 1)) :=
  ⟨by decide +kernel, by decide +kernel, by decide +kernel, by decide +kernel,
    fun h => absurd h.day (by decide +kernel)⟩

/-! ## `addYears` -/

/-- The two remainders agree iff the larger one is small. -/
theorem tmod_eq_tmod_iff (us : Int) :
    us.tmod 100000 = us.tmod 1000000 ↔ (us.tmod 1000000).natAbs < 100000 := by
  have hrest : (us.tmod 1000000).tmod 100000 = us.tmod 100000 :=
    Int.tmod_tmod_of_dvd us (by decide)
  have hrange := tmod_range us (b := 100000) (by decide)
  constructor
  · intro h
    omega
  · intro h
    rw [← hrest]
    rcases Int.le_total 0 (us.tmod 1000000) with hpos | hneg
    · exact Int.tmod_eq_of_lt hpos (by omega)
    · have hflip : (-us.tmod 1000000).tmod 100000 = -us.tmod 1000000 :=
        Int.tmod_eq_of_lt (by omega) (by omega)
      rw [Int.neg_tmod] at hflip
      omega

theorem shift_zero (z : Zone) (t : Int) : z.shift t 0 = t := by
  rw [Zone.shift, Date.addMonths_zero, Zone.second_date]

/-- Years are twelve months each, nothing is no change, and the microseconds stay, all exactly
    when the part that `% 100000` drops is zero. -/
theorem addYears_law (z : Zone) (us : DateTime) (years : Int) (h : InYears (clock z us).year)
    (hyears : InYears ((clock z us).year + years)) :
    (addYears z us years = addMonths z us (12 * years) ∧ (years = 0 → addYears z us years = us) ∧
      (clock z (addYears z us years)).microsecond = (clock z us).microsecond) ↔
      (us.tmod 1000000).natAbs < 100000 := by
  have hk : InYears (yearOf ((clock z us).index + 12 * years)) := by
    have hyear : (clock z us).year = yearOf (clock z us).index := by
      rw [clock_index]
      exact Int.sub_add_cancel _ _
    have hsum : yearOf ((clock z us).index + 12 * years) = (clock z us).year + years := by
      rw [hyear]
      unfold yearOf
      omega
    rwa [hsum]
  obtain ⟨hnear, hnear'⟩ := near_tdiv h hk
  rw [← tmod_eq_tmod_iff, addYears_eq hnear hnear', addMonths_eq hnear hnear']
  constructor
  · rintro ⟨hsame, -⟩
    exact Int.add_left_cancel hsame
  · intro hrest
    have hsplit := Int.mul_tdiv_add_tmod us 1000000
    rw [hrest]
    refine ⟨rfl, ?_, ?_⟩
    · rintro rfl
      show z.shift (us.tdiv 1000000) 0 * 1000000 + us.tmod 1000000 = us
      rw [shift_zero]
      omega
    · show (z.shift (us.tdiv 1000000) (12 * years) * 1000000 + us.tmod 1000000) % 1000000 = us % 1000000
      omega

/-- The 29th of February 2020, at noon and 99999 microseconds, and a year more. -/
theorem addYears_law_leap_day :
    addYears .utc 1582977600099999 1 = addMonths .utc 1582977600099999 12 ∧
      (clock .utc (addYears .utc 1582977600099999 1)).microsecond = 99999 :=
  have hlaw := (addYears_law .utc 1582977600099999 1 (by decide +kernel) (by decide +kernel)).mpr
    (by decide +kernel)
  ⟨hlaw.1, hlaw.2.2⟩

/-- A tenth of a second after the epoch is lost when no year is added. -/
theorem addYears_tenth_of_second :
    InYears (clock .utc 100000).year ∧ addYears .utc 100000 0 = 0 ∧
      ¬ (addYears .utc 100000 0 = addMonths .utc 100000 (12 * 0) ∧
        (0 = 0 → addYears .utc 100000 0 = 100000) ∧
        (clock .utc (addYears .utc 100000 0)).microsecond = (clock .utc 100000).microsecond) :=
  ⟨by decide +kernel, by decide +kernel, fun h => absurd (h.2.1 rfl) (by decide +kernel)⟩

end DateTime
end Youth.Core
