/-
  Youth.Lib.Calendar

  The Gregorian calendar, on all integers.

  A month is its index `12 * year + (month - 1)`, so that shifting by months is an
  addition and January follows December by itself.  `firstDay i` is the day number of the
  first of a month, counted from 1970-01-01; it grows by the length of the month
  (`firstDay_succ`), so each day number lies in exactly one month.  `Date.ofDay` finds it,
  and is the inverse of `Date.toDay`.
-/

import Mathlib.Order.Interval.Basic
import Mathlib.Order.Monotone.Basic
import Mathlib.Tactic.IntervalCases

namespace Youth.Lib

namespace Calendar

def IsLeap (y : Int) : Prop := y % 4 = 0 ∧ y % 100 ≠ 0 ∨ y % 400 = 0

instance (y : Int) : Decidable (IsLeap y) :=
  inferInstanceAs (Decidable (y % 4 = 0 ∧ y % 100 ≠ 0 ∨ y % 400 = 0))

/-- The year of a month, by its index. -/
def yearOf (i : Int) : Int := i / 12

/-- The month in its year, from 1 to 12. -/
def monthOf (i : Int) : Int := i % 12 + 1

/-- The length of the month `m` of the year `y`. -/
def monthLength (y m : Int) : Int :=
  if m = 2 then if IsLeap y then 29 else 28
  else if m = 4 ∨ m = 6 ∨ m = 9 ∨ m = 11 then 30 else 31

def lengthOf (i : Int) : Int := monthLength (yearOf i) (monthOf i)

/-- Days from the first of January of the year 1 to that of the year `y`. -/
def daysBeforeYear (y : Int) : Int :=
  365 * (y - 1) + (y - 1) / 4 - (y - 1) / 100 + (y - 1) / 400

/-- What February lacks to 30 days. -/
def shortFebruary (y : Int) : Int := if IsLeap y then 1 else 2

/-- Days from the first of January to the first of the month `m`.  The quotient is right for
    a February of 30 days. -/
def daysBeforeMonth (y m : Int) : Int :=
  (367 * m - 362) / 12 - if m ≤ 2 then 0 else shortFebruary y

/-- The first of January 1970, from the first of January of the year 1. -/
def epochDay : Int := 719162

def firstDay (i : Int) : Int :=
  daysBeforeYear (yearOf i) + daysBeforeMonth (yearOf i) (monthOf i) - epochDay

theorem lengthOf_range (i : Int) : 28 ≤ lengthOf i ∧ lengthOf i ≤ 31 := by
  unfold lengthOf monthLength
  split_ifs <;> omega

theorem daysBeforeYear_succ (y : Int) :
    daysBeforeYear (y + 1) = daysBeforeYear y + if IsLeap y then 366 else 365 := by
  unfold daysBeforeYear IsLeap
  split_ifs with h <;> omega

theorem daysBeforeMonth_succ (y : Int) {m : Int} (h1 : 1 ≤ m) (h12 : m < 12) :
    daysBeforeMonth y (m + 1) = daysBeforeMonth y m + monthLength y m := by
  unfold daysBeforeMonth monthLength shortFebruary
  interval_cases m <;> by_cases hleap : IsLeap y <;> simp [hleap]

theorem daysBeforeMonth_december (y : Int) :
    daysBeforeMonth y 12 + monthLength y 12 = if IsLeap y then 366 else 365 := by
  unfold daysBeforeMonth monthLength shortFebruary
  by_cases hleap : IsLeap y <;> simp [hleap]

/-- The month after is longer away by the length of this one. -/
theorem firstDay_succ (i : Int) : firstDay (i + 1) = firstDay i + lengthOf i := by
  unfold firstDay lengthOf
  by_cases hlast : i % 12 = 11
  · -- from December to January
    have hyear : yearOf (i + 1) = yearOf i + 1 := by
      unfold yearOf
      omega
    have hjanuary : monthOf (i + 1) = 1 := by
      unfold monthOf
      omega
    have hdecember : monthOf i = 12 := by
      unfold monthOf
      omega
    have hzero : daysBeforeMonth (yearOf i + 1) 1 = 0 := rfl
    have hwhole := daysBeforeMonth_december (yearOf i)
    rw [hyear, hjanuary, hdecember, daysBeforeYear_succ, hzero]
    omega
  · have hyear : yearOf (i + 1) = yearOf i := by
      unfold yearOf
      omega
    have hmonth : monthOf (i + 1) = monthOf i + 1 := by
      unfold monthOf
      omega
    have hrange : 1 ≤ monthOf i ∧ monthOf i < 12 := by
      unfold monthOf
      omega
    rw [hyear, hmonth, daysBeforeMonth_succ _ hrange.1 hrange.2]
    omega

theorem firstDay_lt_iff {i j : Int} : firstDay i < firstDay j ↔ i < j := by
  have hmono : StrictMono firstDay := by
    refine strictMono_int_of_lt_succ fun i => ?_
    have hlength := lengthOf_range i
    have hsucc := firstDay_succ i
    omega
  exact hmono.lt_iff_lt

theorem firstDay_mono {i j : Int} (h : i ≤ j) : firstDay i ≤ firstDay j := by
  have hlt := firstDay_lt_iff (i := j) (j := i)
  omega

/-- Two months that hold the same day are the same. -/
theorem index_unique {i j n : Int} (hi : firstDay i ≤ n ∧ n < firstDay (i + 1))
    (hj : firstDay j ≤ n ∧ n < firstDay (j + 1)) : i = j := by
  have hij : i < j + 1 := firstDay_lt_iff.mp (by omega)
  have hji : j < i + 1 := firstDay_lt_iff.mp (by omega)
  omega

/-! ## The month of a day -/

/-- The year that holds the day `k` after the first of January of the year 1: 400 years have
    146097 days, and the quotient is one year short at most. -/
def yearOfDay (k : Int) : Int :=
  let y := 400 * k / 146097 + 1
  if daysBeforeYear (y + 1) ≤ k then y + 1 else y

theorem yearOfDay_spec (k : Int) :
    daysBeforeYear (yearOfDay k) ≤ k ∧ k < daysBeforeYear (yearOfDay k + 1) := by
  unfold yearOfDay daysBeforeYear
  dsimp only
  split_ifs with h <;> omega

/-- The month of the day `d` of a year, from 0 on. -/
def monthOfDay (y d : Int) : Int :=
  (12 * (d + if d < daysBeforeMonth y 3 then 0 else shortFebruary y) + 373) / 367

theorem monthOfDay_spec (y : Int) {d : Int} (h0 : 0 ≤ d) (h : d < if IsLeap y then 366 else 365) :
    1 ≤ monthOfDay y d ∧ monthOfDay y d ≤ 12 ∧ daysBeforeMonth y (monthOfDay y d) ≤ d ∧
      d < daysBeforeMonth y (monthOfDay y d) + monthLength y (monthOfDay y d) := by
  have hmarch : daysBeforeMonth y 3 = 61 - shortFebruary y := rfl
  have hshort : shortFebruary y = if IsLeap y then 1 else 2 := rfl
  obtain ⟨m, hm⟩ : ∃ m, m = monthOfDay y d := ⟨_, rfl⟩
  rw [← hm]
  unfold monthOfDay at hm
  rw [hmarch, hshort] at hm
  have hrange : 1 ≤ m ∧ m ≤ 12 := by
    split_ifs at h hm <;> omega
  refine ⟨hrange.1, hrange.2, ?_⟩
  obtain ⟨h1, h12⟩ := hrange
  -- the two halves of the year, before and from March on, with and without the leap day
  unfold daysBeforeMonth monthLength
  rw [hshort]
  by_cases hleap : IsLeap y
  · simp only [hleap, if_true] at h hm ⊢
    split_ifs at hm ⊢ <;> omega
  · simp only [hleap, if_false] at h hm ⊢
    split_ifs at hm ⊢ <;> omega

/-- The month that holds the day `n`, by its index. -/
def indexOfDay (n : Int) : Int :=
  let y := yearOfDay (n + epochDay)
  12 * y + monthOfDay y (n + epochDay - daysBeforeYear y) - 1

theorem indexOfDay_spec (n : Int) :
    firstDay (indexOfDay n) ≤ n ∧ n < firstDay (indexOfDay n + 1) := by
  rw [firstDay_succ]
  unfold firstDay lengthOf indexOfDay
  dsimp only
  obtain ⟨y, hy⟩ : ∃ y, y = yearOfDay (n + epochDay) := ⟨_, rfl⟩
  have hspec := yearOfDay_spec (n + epochDay)
  rw [← hy, daysBeforeYear_succ] at hspec
  rw [← hy]
  obtain ⟨h1, h12, hle, hlt⟩ := monthOfDay_spec y (d := n + epochDay - daysBeforeYear y)
    (by omega) (by omega)
  obtain ⟨m, hm⟩ : ∃ m, m = monthOfDay y (n + epochDay - daysBeforeYear y) := ⟨_, rfl⟩
  rw [← hm] at h1 h12 hle hlt ⊢
  have hyear : yearOf (12 * y + m - 1) = y := by
    unfold yearOf
    omega
  have hmonth : monthOf (12 * y + m - 1) = m := by
    unfold monthOf
    omega
  rw [hyear, hmonth]
  omega

/-! ## Dates -/

/-- A day, by the index of its month and its place there. -/
@[ext]
structure Date where
  index : Int
  day : Int
  one_le : 1 ≤ day
  le_length : day ≤ lengthOf index
deriving DecidableEq

namespace Date

def year (d : Date) : Int := yearOf d.index

def month (d : Date) : Int := monthOf d.index

/-- The number of the day, counted from 1970-01-01. -/
def toDay (d : Date) : Int := firstDay d.index + d.day - 1

def ofDay (n : Int) : Date where
  index := indexOfDay n
  day := n - firstDay (indexOfDay n) + 1
  one_le := by
    have hspec := indexOfDay_spec n
    omega
  le_length := by
    have hspec := indexOfDay_spec n
    have hsucc := firstDay_succ (indexOfDay n)
    omega

@[simp] theorem toDay_ofDay (n : Int) : (ofDay n).toDay = n := by
  show firstDay (indexOfDay n) + (n - firstDay (indexOfDay n) + 1) - 1 = n
  omega

@[simp] theorem ofDay_toDay (d : Date) : ofDay d.toDay = d := by
  have hindex : indexOfDay d.toDay = d.index := by
    refine index_unique (indexOfDay_spec _) ?_
    have hsucc := firstDay_succ d.index
    have hlow := d.one_le
    have hhigh := d.le_length
    unfold toDay
    omega
  ext
  · exact hindex
  · show d.toDay - firstDay (indexOfDay d.toDay) + 1 = d.day
    rw [hindex, toDay]
    omega

theorem toDay_inj {d e : Date} : d.toDay = e.toDay ↔ d = e := by
  refine ⟨fun h => ?_, fun h => h ▸ rfl⟩
  rw [← ofDay_toDay d, h, ofDay_toDay]

/-- Days are ordered by their months first. -/
theorem toDay_lt_iff {d e : Date} :
    d.toDay < e.toDay ↔ d.index < e.index ∨ d.index = e.index ∧ d.day < e.day := by
  have hd := d.one_le
  have he := e.one_le
  have hdle := d.le_length
  have hele := e.le_length
  have hdsucc := firstDay_succ d.index
  have hesucc := firstDay_succ e.index
  unfold toDay
  rcases Int.lt_trichotomy d.index e.index with hlt | heq | hgt
  · have hmono : firstDay (d.index + 1) ≤ firstDay e.index := firstDay_mono (by omega)
    omega
  · rw [heq]
    omega
  · have hmono : firstDay (e.index + 1) ≤ firstDay d.index := firstDay_mono (by omega)
    omega

/-- The same day `k` months later, or the last one of that month if it is shorter. -/
def addMonths (d : Date) (k : Int) : Date where
  index := d.index + k
  day := min d.day (lengthOf (d.index + k))
  one_le := by
    have hday := d.one_le
    have hlength := lengthOf_range (d.index + k)
    omega
  le_length := Int.min_le_right _ _

theorem addMonths_zero (d : Date) : d.addMonths 0 = d := by
  have hle := d.le_length
  ext
  · exact Int.add_zero _
  · show min d.day (lengthOf (d.index + 0)) = d.day
    rw [Int.add_zero]
    omega

/-- Up to the 28th no month is too short, and the shifts add up. -/
theorem addMonths_addMonths {d : Date} (h : d.day ≤ 28) (a b : Int) :
    (d.addMonths a).addMonths b = d.addMonths (a + b) := by
  have ha := lengthOf_range (d.index + a)
  have hindex : d.index + a + b = d.index + (a + b) := by omega
  ext
  · exact hindex
  · show min (min d.day (lengthOf (d.index + a))) (lengthOf (d.index + a + b)) =
      min d.day (lengthOf (d.index + (a + b)))
    rw [hindex]
    omega

/-- The day after. -/
def next (d : Date) : Date := ofDay (d.toDay + 1)

theorem next_of_lt {d : Date} (h : d.day < lengthOf d.index) :
    d.next.index = d.index ∧ d.next.day = d.day + 1 := by
  have hlow := d.one_le
  have hnext : d.next = ⟨d.index, d.day + 1, by omega, by omega⟩ := by
    rw [← toDay_inj, next, toDay_ofDay]
    show firstDay d.index + d.day - 1 + 1 = firstDay d.index + (d.day + 1) - 1
    omega
  rw [hnext]
  exact ⟨rfl, rfl⟩

theorem next_of_eq {d : Date} (h : d.day = lengthOf d.index) :
    d.next.index = d.index + 1 ∧ d.next.day = 1 := by
  have hlength := lengthOf_range (d.index + 1)
  have hnext : d.next = ⟨d.index + 1, 1, by omega, by omega⟩ := by
    have hsucc := firstDay_succ d.index
    rw [← toDay_inj, next, toDay_ofDay]
    show firstDay d.index + d.day - 1 + 1 = firstDay (d.index + 1) + 1 - 1
    omega
  rw [hnext]
  exact ⟨rfl, rfl⟩

/-- Neither `d` nor the day after it is cut off `k` months later, or both lie at the turn of
    the month there as they do here. -/
def KeepsNext (d : Date) (k : Int) : Prop :=
  d.day < lengthOf d.index ∧ d.day < lengthOf (d.index + k) ∨
    d.day = lengthOf d.index ∧ lengthOf (d.index + k) ≤ d.day

/-- Shifting by months and going to the next day can be exchanged in these cases only. -/
theorem toDay_addMonths_next_iff (d : Date) (k : Int) :
    (d.next.addMonths k).toDay = (d.addMonths k).toDay + 1 ↔ d.KeepsNext k := by
  have hle := d.le_length
  unfold KeepsNext
  by_cases hlast : d.day < lengthOf d.index
  · obtain ⟨hindex, hday⟩ := next_of_lt hlast
    show firstDay (d.next.index + k) + min d.next.day (lengthOf (d.next.index + k)) - 1 =
      firstDay (d.index + k) + min d.day (lengthOf (d.index + k)) - 1 + 1 ↔ _
    rw [hindex, hday]
    omega
  · obtain ⟨hindex, hday⟩ := next_of_eq (d := d) (by omega)
    have hlength := lengthOf_range (d.index + 1 + k)
    have hshift : d.index + 1 + k = d.index + k + 1 := by omega
    have hsucc := firstDay_succ (d.index + k)
    show firstDay (d.next.index + k) + min d.next.day (lengthOf (d.next.index + k)) - 1 =
      firstDay (d.index + k) + min d.day (lengthOf (d.index + k)) - 1 + 1 ↔ _
    rw [hindex, hday]
    rw [hshift] at hlength ⊢
    omega

end Date
end Calendar
end Youth.Lib
