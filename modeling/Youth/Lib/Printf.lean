/-
  Youth.Lib.Printf

  Formatted output of the C library, on texts as lists of characters: `snprintf` into a
  buffer of a given size, and the conversions that the code uses.
-/

import Mathlib.Algebra.Group.Nat.Defs

namespace Youth.Lib

/-- The bytes of a text of ASCII characters. -/
def ascii (cs : List Char) : List UInt8 := cs.map fun c => UInt8.ofNat c.toNat

theorem length_ascii (cs : List Char) : (ascii cs).length = cs.length := List.length_map _

/-- What `snprintf` leaves in a buffer of `size` bytes that was to take `text`. -/
def snprintf (size : Nat) (text : List Char) : List Char := text.take (size - 1)

theorem snprintf_eq_self {size : Nat} {text : List Char} (h : text.length < size) :
    snprintf size text = text :=
  List.take_of_length_le (Nat.le_sub_one_of_lt h)

/-- `"%u"`, and `"%zd"` of a size. -/
def formatNat (n : Nat) : List Char := Nat.toDigits 10 n

/-- `"%d"`. -/
def formatInt : Int → List Char
  | .ofNat n => formatNat n
  | .negSucc n => '-' :: formatNat (n + 1)

/-- `"%x"`. -/
def formatHex (n : Nat) : List Char := Nat.toDigits 16 n

theorem length_formatNat {n k : Nat} (hk : 0 < k) (hn : n < 10 ^ k) : (formatNat n).length ≤ k :=
  (Nat.length_toDigits_le_iff (by decide) hk).mpr hn

theorem length_formatHex {n k : Nat} (hk : 0 < k) (hn : n < 16 ^ k) : (formatHex n).length ≤ k :=
  (Nat.length_toDigits_le_iff (by decide) hk).mpr hn

theorem isDigit_of_mem_formatNat {n : Nat} {c : Char} (h : c ∈ formatNat n) : c.isDigit = true :=
  Nat.isDigit_of_mem_toDigits (by decide) (by decide) h

theorem formatNat_injective {m n : Nat} (h : formatNat m = formatNat n) : m = n := by
  have hread := congrArg (fun cs => Nat.ofDigitChars 10 cs 0) h
  simpa only [formatNat, Nat.ofDigitChars_ten_toDigits] using hread

end Youth.Lib
