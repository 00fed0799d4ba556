/-
  Youth.Core.DateTime.Format

  Instants as text: `toString`, `toStandardFormat` and `fromString` of
  `youth/core/DateTime.cc`.

  The text has the whole seconds, towards zero.  Reading it back gives these
  (`fromString_toString`), and texts whose fields go from the year down to the second are
  in the order of the instants (`toString_lt_iff`).  The microseconds of
  `toStandardFormat` refine this order from the epoch on; before, they have a sign.
-/

import Youth.Core.DateTime.Local
import Youth.Lib.Printf
import Youth.Lib.TimeFormat

namespace Youth.Core

open Youth.Lib Youth.Lib.Calendar Youth.Lib.TimeFormat

/-- The fields as they are printed. -/
def Tm.fields (tm : Tm) : Field → Nat
  | .year => (tm.year + 1900).toNat
  | .month => (tm.mon + 1).toNat
  | .day => tm.mday.toNat
  | .hour => tm.hour.toNat
  | .minute => tm.min.toNat
  | .second => tm.sec.toNat

def Tm.ofFields (v : Field → Nat) : Tm where
  sec := v .second
  min := v .minute
  hour := v .hour
  mday := v .day
  mon := v .month - 1
  year := v .year - 1900

/-- `strftime` into a buffer; when the text does not fit, what is left there is unspecified. -/
def strftime (size : Nat) (fmt : List Item) (tm : Tm) : Option (List Char) :=
  if (format tm.fields fmt).length < size then some (format tm.fields fmt) else none

namespace DateTime

/-- `"%Y-%m-%d %H:%M:%S"` -/
def standardFormat : List Item :=
  [.field .year, .lit '-', .field .month, .lit '-', .field .day, .lit ' ', .field .hour, .lit ':',
   .field .minute, .lit ':', .field .second]

/-- `"%06d"` -/
def formatUsec : Int → List Char
  | .ofNat n => padded 6 n
  | .negSucc n => '-' :: padded 5 (n + 1)

def toString (z : Zone) (us : DateTime) (fmt : List Item) : Option (List Char) :=
  strftime 32 fmt (z.localtime (toTimeT (timePoint us)))

def toStandardFormat (z : Zone) (us : DateTime) : Option (List Char) :=
  (strftime 32 standardFormat (z.localtime (toTimeT (timePoint us)))).map fun buf =>
    buf ++ snprintf (32 - buf.length) ('.' :: formatUsec (us.tmod 1000000))

/-- The fields of a `tm` of zeros. -/
def zeroFields : Field → Nat
  | .year => 1900
  | .month => 1
  | _ => 0

/-- The stream skips spaces in front of the text. -/
def fromString (z : Zone) (dateTime : List Char) (fmt : List Item) : DateTime :=
  let tm := Tm.ofFields (scan fmt (dateTime.dropWhile isSpace) zeroFields)
  microseconds (fromTimeT (z.mktime tm))

/-! ## Local time as fields -/

section Fields

variable {z : Zone} {t u : Int}

/-- The years that the clock can represent have four digits. -/
theorem localtime_inRange (h : Near (z.date t).index) : InRange (z.localtime t).fields := by
  have hday := (z.date t).one_le
  have hle := (z.date t).le_length
  have hlength := lengthOf_range (z.date t).index
  have htime := z.timeOfDay_range t
  unfold Near at h
  intro f
  cases f with
  | year =>
      show 0 ≤ ((z.date t).index / 12 - 1900 + 1900).toNat ∧
        ((z.date t).index / 12 - 1900 + 1900).toNat ≤ 9999
      omega
  | month =>
      show 1 ≤ ((z.date t).index % 12 + 1 - 1 + 1).toNat ∧
        ((z.date t).index % 12 + 1 - 1 + 1).toNat ≤ 12
      omega
  | day =>
      show 1 ≤ (z.date t).day.toNat ∧ (z.date t).day.toNat ≤ 31
      omega
  | hour =>
      show 0 ≤ (z.timeOfDay t / 3600).toNat ∧ (z.timeOfDay t / 3600).toNat ≤ 23
      omega
  | minute =>
      show 0 ≤ (z.timeOfDay t / 60 % 60).toNat ∧ (z.timeOfDay t / 60 % 60).toNat ≤ 59
      omega
  | second =>
      show 0 ≤ (z.timeOfDay t % 60).toNat ∧ (z.timeOfDay t % 60).toNat ≤ 60
      omega

theorem ofFields_fields {tm : Tm} (hyear : 0 ≤ tm.year + 1900) (hmon : 0 ≤ tm.mon)
    (hday : 0 ≤ tm.mday) (hhour : 0 ≤ tm.hour) (hmin : 0 ≤ tm.min) (hsec : 0 ≤ tm.sec) :
    Tm.ofFields tm.fields = tm := by
  cases tm
  simp only [Tm.ofFields, Tm.fields, Tm.mk.injEq] at *
  omega

theorem ofFields_localtime (h : Near (z.date t).index) :
    Tm.ofFields (z.localtime t).fields = z.localtime t := by
  have hday := (z.date t).one_le
  have htime := z.timeOfDay_range t
  have hmon := z.localtime_mon t
  have hindex := z.localtime_index t
  unfold Near at h
  refine ofFields_fields (by omega) (by omega) ?_ ?_ ?_ ?_
  · show 0 ≤ (z.date t).day
    omega
  · show 0 ≤ z.timeOfDay t / 3600
    omega
  · show 0 ≤ z.timeOfDay t / 60 % 60
    omega
  · show 0 ≤ z.timeOfDay t % 60
    omega

/-- Quotient and remainder, in this order, tell the order of two numbers. -/
theorem divMod_lt_iff {n : Int} (hn : 0 < n) (i j : Int) (R : Prop) :
    (i / n < j / n ∨ i / n = j / n ∧ (i % n < j % n ∨ i % n = j % n ∧ R)) ↔ i < j ∨ i = j ∧ R := by
  have hi := Int.mul_ediv_add_emod i n
  have hj := Int.mul_ediv_add_emod j n
  have hilt := Int.emod_lt_of_pos i hn
  have hjlt := Int.emod_lt_of_pos j hn
  have hipos := Int.emod_nonneg i (Int.ne_of_gt hn)
  have hjpos := Int.emod_nonneg j (Int.ne_of_gt hn)
  rcases Int.lt_trichotomy (i / n) (j / n) with hlt | heq | hgt
  · have hmul : n * (i / n + 1) ≤ n * (j / n) := Int.mul_le_mul_of_nonneg_left hlt (Int.le_of_lt hn)
    rw [Int.mul_add, Int.mul_one] at hmul
    exact iff_of_true (.inl hlt) (.inl (by omega))
  · rw [heq] at hi ⊢
    have hltIff : i < j ↔ i % n < j % n := by omega
    have heqIff : i = j ↔ i % n = j % n := by omega
    simp [hltIff, heqIff]
  · have hmul : n * (j / n + 1) ≤ n * (i / n) := Int.mul_le_mul_of_nonneg_left hgt (Int.le_of_lt hn)
    rw [Int.mul_add, Int.mul_one] at hmul
    refine iff_of_false ?_ ?_
    · rintro (hlt | ⟨heq, -⟩) <;> omega
    · rintro (hlt | ⟨heq, -⟩) <;> omega

theorem toNat_lt_iff {a b : Int} (ha : 0 ≤ a) (hb : 0 ≤ b) (R : Prop) :
    (a.toNat < b.toNat ∨ a.toNat = b.toNat ∧ R) ↔ a < b ∨ a = b ∧ R := by
  have hlt : a.toNat < b.toNat ↔ a < b := by omega
  have heq : a.toNat = b.toNat ↔ a = b := by omega
  rw [hlt, heq]

/-- The fields from the year down to the second. -/
def descending : List Field := [.year, .month, .day, .hour, .minute, .second]

/-- The numbers behind the fields have the order of the seconds. -/
theorem localtime_lt_iff (t u : Int) (R : Prop) :
    ((z.date t).index < (z.date u).index ∨ (z.date t).index = (z.date u).index ∧
      ((z.date t).day < (z.date u).day ∨ (z.date t).day = (z.date u).day ∧
        (z.timeOfDay t < z.timeOfDay u ∨ z.timeOfDay t = z.timeOfDay u ∧ R))) ↔
      t < u ∨ t = u ∧ R := by
  have hdays : (z.date t).toDay < (z.date u).toDay ↔ (z.date t).index < (z.date u).index ∨
      (z.date t).index = (z.date u).index ∧ (z.date t).day < (z.date u).day := Date.toDay_lt_iff
  have hsame : (z.date t).toDay = (z.date u).toDay ↔
      (z.date t).index = (z.date u).index ∧ (z.date t).day = (z.date u).day := by
    rw [Date.toDay_inj, Date.ext_iff]
  have htday : t = z.second (z.date t) (z.timeOfDay t) := (Zone.second_date t).symm
  have huday : u = z.second (z.date u) (z.timeOfDay u) := (Zone.second_date u).symm
  have httime := z.timeOfDay_range t
  have hutime := z.timeOfDay_range u
  unfold Zone.second at htday huday
  by_cases hR : R
  · simp only [hR, and_true]
    omega
  · simp only [hR, and_false, or_false]
    omega

/-- They tell the order of two seconds in one zone. -/
theorem fieldsLt_localtime (ht : Near (z.date t).index) (hu : Near (z.date u).index) (R : Prop) :
    FieldsLt (z.localtime t).fields (z.localtime u).fields R descending ↔ t < u ∨ t = u ∧ R := by
  have httime := z.timeOfDay_range t
  have hutime := z.timeOfDay_range u
  have htday := (z.date t).one_le
  have huday := (z.date u).one_le
  unfold Near at ht hu
  rw [← localtime_lt_iff (z := z) t u R]
  have hyear : ∀ i : Int, i / 12 - 1900 + 1900 = i / 12 := fun i => Int.sub_add_cancel _ _
  have hmonth : ∀ i : Int, i % 12 + 1 - 1 + 1 = i % 12 + 1 := fun i => by omega
  have hclock : ∀ x : Int, x / 3600 = x / 60 / 60 := fun x => by omega
  show (((z.date t).index / 12 - 1900 + 1900).toNat < ((z.date u).index / 12 - 1900 + 1900).toNat ∨
    ((z.date t).index / 12 - 1900 + 1900).toNat = ((z.date u).index / 12 - 1900 + 1900).toNat ∧
    (((z.date t).index % 12 + 1 - 1 + 1).toNat < ((z.date u).index % 12 + 1 - 1 + 1).toNat ∨
    ((z.date t).index % 12 + 1 - 1 + 1).toNat = ((z.date u).index % 12 + 1 - 1 + 1).toNat ∧
    ((z.date t).day.toNat < (z.date u).day.toNat ∨
    (z.date t).day.toNat = (z.date u).day.toNat ∧
    ((z.timeOfDay t / 3600).toNat < (z.timeOfDay u / 3600).toNat ∨
    (z.timeOfDay t / 3600).toNat = (z.timeOfDay u / 3600).toNat ∧
    ((z.timeOfDay t / 60 % 60).toNat < (z.timeOfDay u / 60 % 60).toNat ∨
    (z.timeOfDay t / 60 % 60).toNat = (z.timeOfDay u / 60 % 60).toNat ∧
    ((z.timeOfDay t % 60).toNat < (z.timeOfDay u % 60).toNat ∨
    (z.timeOfDay t % 60).toNat = (z.timeOfDay u % 60).toNat ∧ R)))))) ↔ _
  rw [toNat_lt_iff (by omega) (by omega), toNat_lt_iff (by omega) (by omega),
    toNat_lt_iff (by omega) (by omega), toNat_lt_iff (by omega) (by omega),
    toNat_lt_iff (by omega) (by omega), toNat_lt_iff (by omega) (by omega)]
  simp only [hyear, hmonth, hclock, Int.add_lt_add_iff_right, Int.add_left_inj]
  rw [divMod_lt_iff (by decide), divMod_lt_iff (by decide), divMod_lt_iff (by decide)]

end Fields

/-! ## `toString` and `fromString` -/

section Text

variable {z : Zone} {us us' : Int} {fmt : List Item}

theorem toTimeT_of_near (h : Near (z.date (us.tdiv 1000000)).index) :
    toTimeT (timePoint us) = us.tdiv 1000000 :=
  toTimeT_timePoint (us_of_near h).1 (us_of_near h).2

/-- Every conversion has its width, so whether the text fits is up to the format. -/
theorem toString_eq (h : Near (z.date (us.tdiv 1000000)).index)
    (hfits : (fmt.map Item.width).sum < 32) :
    toString z us fmt = some (format (z.localtime (us.tdiv 1000000)).fields fmt) := by
  rw [toString, toTimeT_of_near h, strftime, (localtime_inRange h).length_format, if_pos hfits]

end Text

/-- In a zone of fixed offset: an instant that is written with all six fields and read back loses
    its microseconds, for every format of these and of literals that fits into the buffer. -/
theorem fromString_toString (z : Zone) (us : DateTime) (fmt : List Item)
    (h : Near (z.date (us.tdiv 1000000)).index) (hall : ∀ f, .field f ∈ fmt)
    (hfits : (fmt.map Item.width).sum < 32) :
    (toString z us fmt).map (fun text => fromString z text fmt) =
      some (us.tdiv 1000000 * 1000000) := by
  have hread : read (z.localtime (us.tdiv 1000000)).fields fmt zeroFields =
      (z.localtime (us.tdiv 1000000)).fields := by
    funext f
    exact if_pos (hall f)
  have hsecond := second_of_near (z := z) h (z.timeOfDay_range (us.tdiv 1000000))
  rw [Zone.second_date] at hsecond
  rw [toString_eq h hfits, Option.map_some, fromString, scan_format (localtime_inRange h), hread,
    ofFields_localtime h, Zone.mktime_localtime, microseconds_fromTimeT hsecond.1 hsecond.2]

/-- The time of the test of `fromString`, 2020-01-31 08:44:03, with some microseconds. -/
theorem fromString_toString_test :
    (toString .utc 1580460243000042 standardFormat).map
      (fun text => fromString .utc text standardFormat) = some 1580460243000000 :=
  fromString_toString .utc 1580460243000042 standardFormat ⟨by decide, by decide⟩
    (fun f => by cases f <;> decide) (by decide)

/-- Texts of one format and one zone, with the fields from the year down to the second, are
    in the order of the seconds. -/
theorem toString_lt_iff (z : Zone) (us us' : DateTime) (fmt : List Item)
    (h : Near (z.date (us.tdiv 1000000)).index) (h' : Near (z.date (us'.tdiv 1000000)).index)
    (hfits : (fmt.map Item.width).sum < 32) (horder : fmt.filterMap Item.field? = descending) :
    ∃ text text', toString z us fmt = some text ∧ toString z us' fmt = some text' ∧
      (text < text' ↔ us.tdiv 1000000 < us'.tdiv 1000000) := by
  refine ⟨_, _, toString_eq h hfits, toString_eq h' hfits, ?_⟩
  rw [format_lt_iff (localtime_inRange h) (localtime_inRange h'), horder, fieldsLt_localtime h h']
  simp only [and_false, or_false]

example :
    ∃ text text', toString .utc 1580460242999999 standardFormat = some text ∧
      toString .utc 1580460243000000 standardFormat = some text' ∧ text < text' := by
  obtain ⟨text, text', htext, htext', hlt⟩ := toString_lt_iff .utc 1580460242999999
    1580460243000000 standardFormat ⟨by decide, by decide⟩ ⟨by decide, by decide⟩ (by decide)
    (by decide)
  exact ⟨text, text', htext, htext', hlt.mpr (by decide)⟩

/-! ## `toStandardFormat` -/

section Standard

variable {z : Zone} {us us' : Int}

theorem formatUsec_natCast (n : Nat) : formatUsec n = padded 6 n := rfl

theorem toStandardFormat_eq (h : Near (z.date (us.tdiv 1000000)).index) (hpos : 0 ≤ us) :
    toStandardFormat z us = some (format (z.localtime (us.tdiv 1000000)).fields standardFormat ++
      '.' :: padded 6 (us.tmod 1000000).toNat) := by
  have hlen : (format (z.localtime (us.tdiv 1000000)).fields standardFormat).length = 19 :=
    (localtime_inRange h).length_format standardFormat
  obtain ⟨n, hn⟩ := Int.eq_ofNat_of_zero_le (Int.tmod_nonneg 1000000 hpos)
  have hlt := Int.tmod_lt_of_pos us (b := 1000000) (by decide)
  have husec : (padded 6 n).length = 6 := length_padded (by decide) (by omega)
  rw [toStandardFormat, toTimeT_of_near h, strftime, if_pos (by rw [hlen]; decide), Option.map_some,
    hn, hlen, formatUsec_natCast, snprintf_eq_self, Int.toNat_natCast]
  rw [List.length_cons, husec]
  decide

/-- Whole seconds first, then microseconds. -/
theorem split_lt_iff (hpos : 0 ≤ us) (hpos' : 0 ≤ us') :
    (us.tdiv 1000000 < us'.tdiv 1000000 ∨ us.tdiv 1000000 = us'.tdiv 1000000 ∧
      (us.tmod 1000000).toNat < (us'.tmod 1000000).toNat) ↔ us < us' := by
  have hlt := Int.tmod_lt_of_pos us (b := 1000000) (by decide)
  have hlt' := Int.tmod_lt_of_pos us' (b := 1000000) (by decide)
  have hnonneg := Int.tmod_nonneg 1000000 hpos
  have hnonneg' := Int.tmod_nonneg 1000000 hpos'
  have hsplit := Int.mul_tdiv_add_tmod us 1000000
  have hsplit' := Int.mul_tdiv_add_tmod us' 1000000
  omega

end Standard

/-- From the epoch on and in the years that the clock can represent, texts of the standard format
    are in the order of the instants, in every zone of fixed offset. -/
theorem toStandardFormat_lt_iff (z : Zone) (us us' : DateTime)
    (h : Near (z.date (us.tdiv 1000000)).index) (h' : Near (z.date (us'.tdiv 1000000)).index)
    (hpos : 0 ≤ us) (hpos' : 0 ≤ us') :
    ∃ text text', toStandardFormat z us = some text ∧ toStandardFormat z us' = some text' ∧
      (text < text' ↔ us < us') := by
  refine ⟨_, _, toStandardFormat_eq h hpos, toStandardFormat_eq h' hpos', ?_⟩
  have hrest : ∀ {n : Int}, 0 ≤ n → (n.tmod 1000000).toNat < 10 ^ 6 := fun {n} hn => by
    have hlt := Int.tmod_lt_of_pos n (b := 1000000) (by decide)
    omega
  rw [format_append_lt (localtime_inRange h) (localtime_inRange h'),
    show standardFormat.filterMap Item.field? = descending from rfl, fieldsLt_localtime h h',
    List.cons_lt_cons_iff, padded_lt_iff (by decide) (hrest hpos) (hrest hpos'),
    ← split_lt_iff hpos hpos']
  simp only [Char.lt_irrefl, true_and, false_or]

theorem toStandardFormat_lt_iff_test :
    ∃ text text', toStandardFormat .utc 1580460242999999 = some text ∧
      toStandardFormat .utc 1580460243000001 = some text' ∧ text < text' := by
  obtain ⟨text, text', htext, htext', hlt⟩ := toStandardFormat_lt_iff .utc 1580460242999999
    1580460243000001 ⟨by decide, by decide⟩ ⟨by decide, by decide⟩ (by decide) (by decide)
  exact ⟨text, text', htext, htext', hlt.mpr (by decide)⟩

/-- The texts that the test of `addMicroSeconds` expects, and one with a sign. -/
example : toStandardFormat .utc 1580460243000001 = some "2020-01-31 08:44:03.000001".toList ∧
    toStandardFormat .utc (-1) = some "1970-01-01 00:00:00.-00001".toList := by
  decide +kernel

end DateTime
end Youth.Core
