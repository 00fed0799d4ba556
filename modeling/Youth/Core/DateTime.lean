/-
  Youth.Core.DateTime

  The instants of `youth/core/DateTime.hpp`: a count of microseconds in an `int64_t`,
  compared and shifted as such.  The sums and products wrap round, as the machine's do
  (the source has no test for an overflow).
-/

import Mathlib.Tactic.Basic

namespace Youth.Core

/-- What is left of a result in an `int64_t`. -/
def int64 (n : Int) : Int := n.bmod 0x10000000000000000

theorem int64_lt (n : Int) : int64 n < 0x8000000000000000 := Int.bmod_lt (by decide)

theorem int64_of_inRange {n : Int} (hle : -0x8000000000000000 ≤ n) (hlt : n < 0x8000000000000000) :
    int64 n = n := Int.bmod_eq_of_le hle hlt

/-- What is left of a result in an `int`. -/
def int32 (n : Int) : Int := n.bmod 0x100000000

theorem int32_of_inRange {n : Int} (hle : -0x80000000 ≤ n) (hlt : n < 0x80000000) :
    int32 n = n := Int.bmod_eq_of_le hle hlt

/-- Microseconds since the epoch. -/
abbrev DateTime := Int

namespace DateTime

def addMicroSeconds (t : DateTime) (microseconds : Int) : DateTime := int64 (t + microseconds)

def addMilliSeconds (t : DateTime) (milliseconds : Int) : DateTime :=
  addMicroSeconds t (int64 (milliseconds * 1000))

def addSeconds (t : DateTime) (seconds : Int) : DateTime := addMilliSeconds t (int64 (seconds * 1000))

def addMinutes (t : DateTime) (minutes : Int) : DateTime := addSeconds t (int64 (minutes * 60))

def addHours (t : DateTime) (hours : Int) : DateTime := addMinutes t (int64 (hours * 60))

def addDays (t : DateTime) (days : Int) : DateTime := addHours t (int64 (days * 24))

end DateTime
end Youth.Core
