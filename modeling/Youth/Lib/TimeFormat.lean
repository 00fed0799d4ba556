/-
  Youth.Lib.TimeFormat

  Dates and times as text: `strftime` and `get_time` of the C and C++ libraries, for the
  numeric conversions `%Y %m %d %H %M %S`.

  A format is the list of its conversions and its other characters.  What is written by a
  format is read back by it (`scan_format`), and texts of one format are ordered as the
  values of its fields, the first field first (`format_lt_iff`): every field has its width.
-/

import Mathlib.Algebra.GroupWithZero.Nat
import Mathlib.Data.List.DropRight
import Mathlib.Logic.Function.Basic
import Mathlib.Order.Basic
import Youth.Lib.Printf

namespace Youth.Lib.TimeFormat

/-- `%Y %m %d %H %M %S`; years count from 0, months and days from 1. -/
inductive Field
  | year
  | month
  | day
  | hour
  | minute
  | second
  deriving DecidableEq, Repr

def Field.width : Field → Nat
  | .year => 4
  | _ => 2

/-- The values that are read. -/
def Field.low : Field → Nat
  | .month | .day => 1
  | _ => 0

def Field.high : Field → Nat
  | .year => 9999
  | .month => 12
  | .day => 31
  | .hour => 23
  | .minute => 59
  | .second => 60

inductive Item
  | field (f : Field)
  | lit (c : Char)
  deriving DecidableEq, Repr

/-! ## Numbers of a given width -/

/-- `"%0wu"`. -/
def padded (w n : Nat) : List Char := (formatNat n).leftpad w '0'

def value (cs : List Char) : Nat := Nat.ofDigitChars 10 cs 0

@[simp] theorem value_padded (w n : Nat) : value (padded w n) = n := by
  rw [value, padded, List.leftpad, Nat.ofDigitChars_append, Nat.ofDigitChars_replicate_zero,
    Nat.mul_zero]
  exact Nat.ofDigitChars_ten_toDigits

theorem length_padded {w n : Nat} (hw : 0 < w) (hn : n < 10 ^ w) : (padded w n).length = w := by
  have hle := length_formatNat hw hn
  rw [padded, List.leftpad, List.length_append, List.length_replicate]
  omega

theorem isDigit_of_mem_padded {w n : Nat} {c : Char} (h : c ∈ padded w n) : c.isDigit = true := by
  rcases List.mem_append.mp h with h | h
  · rw [List.eq_of_mem_replicate h]
    rfl
  · exact isDigit_of_mem_formatNat h

theorem toNat_of_isDigit {c : Char} (h : c.isDigit = true) : 48 ≤ c.toNat ∧ c.toNat ≤ 57 := by
  simp only [Char.isDigit, Bool.and_eq_true, decide_eq_true_eq] at h
  exact h

theorem value_cons (c : Char) (cs : List Char) :
    value (c :: cs) = 10 ^ cs.length * (c.toNat - 48) + value cs := by
  rw [value, Nat.ofDigitChars_cons, Nat.ofDigitChars_eq_ofDigitChars_zero, Nat.mul_zero, Nat.zero_add]
  rfl

theorem value_lt {cs : List Char} (h : ∀ c ∈ cs, c.isDigit = true) : value cs < 10 ^ cs.length := by
  induction cs with
  | nil => simp [value]
  | cons c cs ih =>
      have hc := toNat_of_isDigit (h c List.mem_cons_self)
      have hrest := ih fun d hd => h d (List.mem_cons_of_mem _ hd)
      have hmul : 10 ^ cs.length * (c.toNat - 48) ≤ 10 ^ cs.length * 9 :=
        Nat.mul_le_mul_left _ (by omega)
      rw [value_cons, List.length_cons, Nat.pow_succ]
      omega

/-- Numbers of one width in front of a text are compared first. -/
theorem digits_append_lt {cs ds xs ys : List Char} (hlen : cs.length = ds.length)
    (hcs : ∀ c ∈ cs, c.isDigit = true) (hds : ∀ d ∈ ds, d.isDigit = true) :
    cs ++ xs < ds ++ ys ↔ value cs < value ds ∨ value cs = value ds ∧ xs < ys := by
  induction cs generalizing ds with
  | nil =>
      obtain rfl : ds = [] := List.length_eq_zero_iff.mp hlen.symm
      simp
  | cons c cs ih =>
      rcases ds with _ | ⟨d, ds⟩
      · cases hlen
      have hlen' : cs.length = ds.length := Nat.succ.inj hlen
      have hcs' : ∀ c ∈ cs, c.isDigit = true := fun c hc => hcs c (List.mem_cons_of_mem _ hc)
      have hds' : ∀ d ∈ ds, d.isDigit = true := fun d hd => hds d (List.mem_cons_of_mem _ hd)
      have hc := toNat_of_isDigit (hcs c List.mem_cons_self)
      have hd := toNat_of_isDigit (hds d List.mem_cons_self)
      have hvc := value_lt hcs'
      have hvd := value_lt hds'
      rw [hlen'] at hvc
      rw [List.cons_append, List.cons_append, List.cons_lt_cons_iff, ih hlen' hcs' hds',
        value_cons, value_cons, hlen']
      rcases Nat.lt_trichotomy c.toNat d.toNat with hlt | heq | hgt
      · -- the first digit decides
        have hmul : 10 ^ ds.length * (c.toNat - 48 + 1) ≤ 10 ^ ds.length * (d.toNat - 48) :=
          Nat.mul_le_mul_left _ (by omega)
        rw [Nat.mul_add_one] at hmul
        exact iff_of_true (.inl hlt) (.inl (by omega))
      · obtain rfl : c = d := Char.toNat_inj.mp heq
        simp
      · have hmul : 10 ^ ds.length * (d.toNat - 48 + 1) ≤ 10 ^ ds.length * (c.toNat - 48) :=
          Nat.mul_le_mul_left _ (by omega)
        rw [Nat.mul_add_one] at hmul
        refine iff_of_false ?_ ?_
        · rintro (hlt | ⟨rfl, -⟩)
          · have hlt' : c.toNat < d.toNat := hlt
            omega
          · omega
        · omega

/-! ## Writing -/

variable (v : Field → Nat)

def Item.text : Item → List Char
  | .field f => padded f.width (v f)
  | .lit c => [c]

/-- `strftime` -/
def format (fmt : List Item) : List Char := fmt.flatMap (Item.text v)

/-- The value is one that is written in the width of its field, and that is read. -/
def InRange : Prop := ∀ f : Field, f.low ≤ v f ∧ v f ≤ f.high

variable {v}

theorem InRange.lt (h : InRange v) (f : Field) : v f < 10 ^ f.width := by
  have hhigh := (h f).2
  cases f <;> simp only [Field.high, Field.width] at hhigh ⊢ <;> omega

theorem Field.width_pos (f : Field) : 0 < f.width := by cases f <;> decide

theorem InRange.length_padded (h : InRange v) (f : Field) :
    (padded f.width (v f)).length = f.width :=
  TimeFormat.length_padded f.width_pos (h.lt f)

def Item.width : Item → Nat
  | .field f => f.width
  | .lit _ => 1

theorem InRange.length_format (h : InRange v) (fmt : List Item) :
    (format v fmt).length = (fmt.map Item.width).sum := by
  induction fmt with
  | nil => rfl
  | cons i fmt ih =>
      rw [format, List.flatMap_cons, List.length_append, List.map_cons, List.sum_cons, ← ih]
      congr 1
      cases i with
      | field f => exact h.length_padded f
      | lit c => rfl

/-! ## Reading -/

/-- `isspace` -/
def isSpace (c : Char) : Bool := c = ' ' || (9 ≤ c.toNat && c.toNat ≤ 13)

/-- A number of the full width; a shorter one or one out of range fails. -/
def readNumber (f : Field) (input : List Char) : Option (Nat × List Char) :=
  let digits := input.take f.width
  if digits.length = f.width ∧ digits.all Char.isDigit ∧
      f.low ≤ value digits ∧ value digits ≤ f.high then
    some (value digits, input.drop f.width)
  else none

/-- `time_get::get`: the fields are stored as they are read, up to the first failure. -/
def scan : List Item → List Char → (Field → Nat) → Field → Nat
  | [], _, v => v
  | .field f :: fmt, input, v =>
    match readNumber f input with
    | some (n, rest) => scan fmt rest (Function.update v f n)
    | none => v
  | .lit c :: fmt, input, v =>
    if isSpace c then scan fmt (input.dropWhile isSpace) v
    else
      match input with
      | d :: rest => if d = c then scan fmt rest v else v
      | [] => v

theorem readNumber_padded (h : InRange v) (f : Field) (rest : List Char) :
    readNumber f (padded f.width (v f) ++ rest) = some (v f, rest) := by
  have hlen := h.length_padded f
  have htake : (padded f.width (v f) ++ rest).take f.width = padded f.width (v f) :=
    List.take_left' hlen
  have hdrop : (padded f.width (v f) ++ rest).drop f.width = rest := List.drop_left' hlen
  rw [readNumber, htake, hdrop, value_padded]
  exact if_pos ⟨hlen, List.all_eq_true.mpr fun _ => isDigit_of_mem_padded, (h f).1, (h f).2⟩

theorem isSpace_eq_false {c : Char} (h : c.isDigit = true) : isSpace c = false := by
  have hc := toNat_of_isDigit h
  have hne : c ≠ ' ' := by
    rintro rfl
    cases h
  simp [isSpace, hne]
  omega

/-- A number does not begin with a space. -/
theorem dropWhile_padded (h : InRange v) (f : Field) (rest : List Char) :
    (padded f.width (v f) ++ rest).dropWhile isSpace = padded f.width (v f) ++ rest := by
  rcases hp : padded f.width (v f) with _ | ⟨c, cs⟩
  · have hlen := h.length_padded f
    have hpos := f.width_pos
    rw [hp, List.length_nil] at hlen
    omega
  · have hdigit : c.isDigit = true := isDigit_of_mem_padded (hp ▸ List.mem_cons_self)
    rw [List.cons_append, List.dropWhile_cons_of_neg (by simp [isSpace_eq_false hdigit])]

/-- The fields of the format have the values that were written; the others stay. -/
def read (v : Field → Nat) (fmt : List Item) (old : Field → Nat) : Field → Nat :=
  fun f => if .field f ∈ fmt then v f else old f

theorem read_field (f : Field) (fmt : List Item) (old : Field → Nat) :
    read v fmt (Function.update old f (v f)) = read v (.field f :: fmt) old := by
  funext g
  unfold read
  by_cases hg : g = f
  · subst hg
    simp
  · simp [hg]

theorem read_lit (c : Char) (fmt : List Item) (old : Field → Nat) :
    read v (.lit c :: fmt) old = read v fmt old := by
  funext g
  simp [read]

/-- Spaces in front are skipped where the format has one, so both texts are read alike. -/
theorem scan_format_and (h : InRange v) (fmt : List Item) (old : Field → Nat) :
    scan fmt (format v fmt) old = read v fmt old ∧
      scan fmt ((format v fmt).dropWhile isSpace) old = read v fmt old := by
  induction fmt generalizing old with
  | nil => exact ⟨rfl, rfl⟩
  | cons i fmt ih =>
      cases i with
      | field f =>
          have htext : format v (.field f :: fmt) = padded f.width (v f) ++ format v fmt := rfl
          rw [htext, dropWhile_padded h]
          have hscan : scan (.field f :: fmt) (padded f.width (v f) ++ format v fmt) old =
              read v (.field f :: fmt) old := by
            rw [scan, readNumber_padded h]
            exact (ih _).1.trans (read_field f fmt old)
          exact ⟨hscan, hscan⟩
      | lit c =>
          have htext : format v (.lit c :: fmt) = c :: format v fmt := rfl
          rw [htext, read_lit]
          by_cases hc : isSpace c = true
          · have hskip : ∀ input, scan (.lit c :: fmt) input old =
                scan fmt (input.dropWhile isSpace) old := by
              intro input
              cases input <;> simp [scan, hc]
            rw [List.dropWhile_cons_of_pos hc, hskip, hskip, List.dropWhile_cons_of_pos hc,
              List.dropWhile_idempotent]
            exact ⟨(ih old).2, (ih old).2⟩
          · have hmatch : scan (.lit c :: fmt) (c :: format v fmt) old =
                scan fmt (format v fmt) old := by simp [scan, hc]
            rw [List.dropWhile_cons_of_neg hc, hmatch]
            exact ⟨(ih old).1, (ih old).1⟩

/-- What a format writes, it reads. -/
theorem scan_format (h : InRange v) (fmt : List Item) (old : Field → Nat) :
    scan fmt ((format v fmt).dropWhile isSpace) old = read v fmt old :=
  (scan_format_and h fmt old).2

/-! ## The order of the texts -/

/-- The values of the fields are compared, the first one first, and then what follows. -/
def FieldsLt (v w : Field → Nat) (rest : Prop) : List Field → Prop
  | [] => rest
  | f :: fs => v f < w f ∨ v f = w f ∧ FieldsLt v w rest fs

def Item.field? : Item → Option Field
  | .field f => some f
  | .lit _ => none

theorem format_append_lt {w : Field → Nat} (hv : InRange v) (hw : InRange w) (fmt : List Item)
    (xs ys : List Char) :
    format v fmt ++ xs < format w fmt ++ ys ↔
      FieldsLt v w (xs < ys) (fmt.filterMap Item.field?) := by
  induction fmt with
  | nil => exact Iff.rfl
  | cons i fmt ih =>
      cases i with
      | field f =>
          have hlen : (padded f.width (v f)).length = (padded f.width (w f)).length := by
            rw [hv.length_padded, hw.length_padded]
          show padded f.width (v f) ++ format v fmt ++ xs <
            padded f.width (w f) ++ format w fmt ++ ys ↔
              v f < w f ∨ v f = w f ∧ FieldsLt v w (xs < ys) (fmt.filterMap Item.field?)
          rw [List.append_assoc, List.append_assoc,
            digits_append_lt hlen (fun _ => isDigit_of_mem_padded) (fun _ => isDigit_of_mem_padded),
            value_padded, value_padded, ih]
      | lit c =>
          show c :: (format v fmt ++ xs) < c :: (format w fmt ++ ys) ↔
            FieldsLt v w (xs < ys) (fmt.filterMap Item.field?)
          rw [List.cons_lt_cons_iff, ih]
          simp

theorem format_lt_iff {w : Field → Nat} (hv : InRange v) (hw : InRange w) (fmt : List Item) :
    format v fmt < format w fmt ↔ FieldsLt v w False (fmt.filterMap Item.field?) := by
  have h := format_append_lt hv hw fmt [] []
  rwa [List.append_nil, List.append_nil, iff_false_intro (List.not_lt_nil [])] at h

/-- Numbers of one width are compared as numbers. -/
theorem padded_lt_iff {w m n : Nat} (hw : 0 < w) (hm : m < 10 ^ w) (hn : n < 10 ^ w) :
    padded w m < padded w n ↔ m < n := by
  have hlen : (padded w m).length = (padded w n).length := by
    rw [length_padded hw hm, length_padded hw hn]
  have h : padded w m ++ [] < padded w n ++ [] ↔ _ :=
    digits_append_lt hlen (fun _ => isDigit_of_mem_padded) (fun _ => isDigit_of_mem_padded)
  simpa using h

end Youth.Lib.TimeFormat
