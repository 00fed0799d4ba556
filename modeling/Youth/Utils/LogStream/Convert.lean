/-
  Youth.Utils.LogStream.Convert

  `convert` and `convertHex` of `youth/utils/LogStream.cpp`.

  `convert` never negates its value: the remainders of a negative number are negative, and
  the table of digits is mirrored around its middle.  An integer type is its width and
  whether it is signed; `cast` is the conversion that `i /= 10` ends with.  A function
  gives the characters it leaves in `buf`, the `'\0'` included, and the length it
  returns; `none` stands for an index outside a table.
-/

import Youth.Lib.Numeral

namespace Youth.Utils

open Youth.Lib

/-- An integer type of at most 64 bits. -/
structure IntType where
  bits : Nat
  signed : Bool
  pos : 0 < bits
  le : bits ≤ 64

namespace IntType

/-- Twice the bound of the signed values, or the bound of the unsigned ones. -/
def modulus (T : IntType) : Nat := 2 ^ T.bits

def min (T : IntType) : Int := if T.signed then -(2 ^ (T.bits - 1)) else 0

def max (T : IntType) : Int := if T.signed then 2 ^ (T.bits - 1) - 1 else 2 ^ T.bits - 1

/-- The conversion of a number to the type. -/
def cast (T : IntType) (n : Int) : Int := if T.signed then n.bmod T.modulus else n % T.modulus

/-- The values of the type. -/
abbrev Value (T : IntType) := { n : Int // T.min ≤ n ∧ n ≤ T.max }

theorem cast_of_value {T : IntType} {n : Int} (hmin : T.min ≤ n) (hmax : n ≤ T.max) :
    T.cast n = n := by
  have hpow : 2 ^ T.bits = 2 * 2 ^ (T.bits - 1) := by
    rw [← Nat.pow_succ', Nat.succ_eq_add_one, Nat.sub_add_cancel T.pos]
  have hcast : ((2 ^ (T.bits - 1) : Nat) : Int) = 2 ^ (T.bits - 1) := by norm_cast
  have hfull : ((2 ^ T.bits : Nat) : Int) = 2 ^ T.bits := by norm_cast
  unfold cast modulus
  unfold min at hmin
  unfold max at hmax
  split
  next hsigned =>
    rw [if_pos hsigned] at hmin hmax
    exact Int.bmod_eq_of_le_mul_two (by omega) (by omega)
  next hsigned =>
    rw [if_neg hsigned] at hmin hmax
    exact Int.emod_eq_of_lt hmin (by omega)

/-- A quotient towards zero stays in the type. -/
theorem tdiv_value {T : IntType} {n : Int} (hmin : T.min ≤ n) (hmax : n ≤ T.max) :
    T.min ≤ n.tdiv 10 ∧ n.tdiv 10 ≤ T.max := by
  have hle : T.min ≤ 0 := by
    unfold min
    split <;> simp
  have hge : 0 ≤ T.max := by
    have hpos (k : Nat) : (0 : Int) < 2 ^ k := by positivity
    unfold max
    split
    · have := hpos (T.bits - 1)
      omega
    · have := hpos T.bits
      omega
  have hsign : Int.sign 10 = 1 := rfl
  rw [Int.tdiv_eq_ediv, hsign]
  split_ifs <;> omega

end IntType

namespace LogStream

def nul : Char := Char.ofNat 0

/-- `digits` -/
def digits : List Char := "9876543210123456789".toList

/-- `zero[lsd]`, where `zero` is `digits + 9`. -/
def zeroAt (lsd : Int) : Option Char := if 0 ≤ 9 + lsd then digits[(9 + lsd).toNat]? else none

/-- `digitsHex` -/
def digitsHex : List Char := "0123456789ABCDEF".toList

/-- One turn of the loop of `convert`. -/
def convertTurn (T : IntType) (i : Int) : Turn (Option Char) Int :=
  let lsd := i.tmod 10
  let i := T.cast (i.tdiv 10)
  if i = 0 then .stop [zeroAt lsd] i else .next [zeroAt lsd] i

/-- What is left to do with the characters in front of `p`. -/
def finish (cs : List Char) : List Char × Nat := (cs.reverse ++ [nul], cs.length)

def convert (T : IntType) (value : Int) : Option (List Char × Nat) :=
  (loop (convertTurn T) (value.natAbs + 1) value).bind fun x =>
    (x.1.mapM id).map fun cs => finish (if value < 0 then cs ++ ['-'] else cs)

def convertHexTurn (i : UInt64) : Turn (Option Char) UInt64 :=
  let lsd := i % 16
  let i := i / 16
  if i = 0 then .stop [digitsHex[lsd.toNat]?] i else .next [digitsHex[lsd.toNat]?] i

def convertHex (value : UInt64) : Option (List Char × Nat) :=
  (loop convertHexTurn (value.toNat + 1) value).bind fun x => (x.1.mapM id).map finish

/-! ## What they write -/

def decimal : Alphabet := ⟨"0123456789".toList, by decide, by decide⟩

def upperHex : Alphabet := ⟨digitsHex, by decide, by decide⟩

/-- Decimal digits, with a sign in front of a negative number. -/
def CanonicalInt (cs : List Char) : Prop :=
  decimal.Canonical cs ∨ ∃ ds, cs = '-' :: ds ∧ decimal.Canonical ds ∧ ds ≠ [decimal.digit 0]

def parseInt (cs : List Char) : Option Int :=
  if cs.head? = some '-' then (decimal.parse cs.tail).map fun n : Nat => -(n : Int)
  else (decimal.parse cs).map fun n : Nat => (n : Int)

def decimalInt (n : Int) : List Char :=
  if n < 0 then '-' :: decimal.numeral n.natAbs else decimal.numeral n.natAbs

theorem canonicalInt_decimalInt (n : Int) : CanonicalInt (decimalInt n) := by
  unfold decimalInt
  split
  next hneg =>
    refine .inr ⟨_, rfl, decimal.canonical_numeral _, fun hzero => ?_⟩
    -- zero is the only number that is written so
    have hread := decimal.parse_numeral n.natAbs
    have hnone : decimal.parse [decimal.digit 0] = some 0 := by decide
    rw [hzero, hnone] at hread
    have habs : n.natAbs = 0 := (Option.some.inj hread).symm
    omega
  next => exact .inl (decimal.canonical_numeral _)

theorem parseInt_decimalInt (n : Int) : parseInt (decimalInt n) = some n := by
  unfold decimalInt
  split
  next hneg =>
    rw [parseInt, List.head?_cons, if_pos rfl, List.tail_cons, decimal.parse_numeral, Option.map_some]
    congr 1
    omega
  next hneg =>
    have hdigit : (decimal.numeral n.natAbs).head? ≠ some '-' := by
      intro hhead
      have hmem := (decimal.canonical_numeral n.natAbs).2.1 '-' (List.mem_of_mem_head? hhead)
      exact absurd hmem (by decide)
    rw [parseInt, if_neg hdigit, decimal.parse_numeral, Option.map_some]
    congr 1
    omega

theorem mapM_some (cs : List Char) : (cs.map some).mapM id = some cs := by
  induction cs with
  | nil => rfl
  | cons c cs ih => simp [ih]

/-- The table is mirrored: a remainder and its negative have the same digit. -/
theorem zeroAt_tmod (i : Int) : zeroAt (i.tmod 10) = some (decimal.digit (i.natAbs % 10)) := by
  have hrange : -9 ≤ i.tmod 10 ∧ i.tmod 10 ≤ 9 := by
    rw [Int.tmod_eq_emod]
    split_ifs <;> omega
  have habs : i.natAbs % 10 = (i.tmod 10).natAbs := (Int.natAbs_tmod i 10).symm
  rw [habs]
  obtain ⟨hlow, hhigh⟩ := hrange
  generalize i.tmod 10 = lsd at hlow hhigh
  interval_cases lsd <;> decide

theorem convertTurn_eq {T : IntType} {i : Int} (hmin : T.min ≤ i) (hmax : i ≤ T.max) :
    convertTurn T i =
      if (i.tdiv 10).natAbs = 0 then .stop [some (decimal.digit (i.natAbs % decimal.base))] (i.tdiv 10)
      else .next [some (decimal.digit (i.natAbs % decimal.base))] (i.tdiv 10) := by
  obtain ⟨hqmin, hqmax⟩ := T.tdiv_value hmin hmax
  have hbase : decimal.base = 10 := rfl
  simp only [convertTurn, zeroAt_tmod, IntType.cast_of_value hqmin hqmax, Int.natAbs_eq_zero, hbase]

theorem convert_eq (T : IntType) (value : T.Value) :
    convert T value = some (decimalInt value ++ [nul], (decimalInt value).length) := by
  have hturn : ∀ i : Int, T.min ≤ i ∧ i ≤ T.max → ∃ t : Int, (T.min ≤ t ∧ t ≤ T.max) ∧
      t.natAbs = i.natAbs / decimal.base ∧ convertTurn T i =
        if t.natAbs = 0 then .stop [some (decimal.digit (i.natAbs % decimal.base))] t
        else .next [some (decimal.digit (i.natAbs % decimal.base))] t := by
    intro i hi
    -- the quotient of a value is a value, so `i /= 10` does not wrap
    refine ⟨i.tdiv 10, T.tdiv_value hi.1 hi.2, ?_, convertTurn_eq hi.1 hi.2⟩
    exact Int.natAbs_tdiv i 10
  obtain ⟨t, hloop⟩ := Alphabet.loop_low some hturn value.2 (Nat.lt_succ_self _)
  rw [convert, hloop, Option.bind_some, mapM_some, Option.map_some]
  unfold decimalInt
  split
  next => simp [finish, Alphabet.numeral]
  next => simp [finish, Alphabet.numeral]

theorem convertHex_eq (value : UInt64) :
    convertHex value = some (upperHex.numeral value.toNat ++ [nul], (upperHex.numeral value.toNat).length) := by
  have hbase : upperHex.base = 16 := rfl
  have hturn : ∀ i : UInt64, convertHexTurn i =
      if (i / 16).toNat = 0 then .stop [some (upperHex.digit (i.toNat % upperHex.base))] (i / 16)
      else .next [some (upperHex.digit (i.toNat % upperHex.base))] (i / 16) := by
    intro i
    have hlsd : digitsHex[(i % 16).toNat]? = some (upperHex.digit (i.toNat % 16)) := by
      have hlt : i.toNat % 16 < digitsHex.length := Nat.mod_lt _ (by decide)
      rw [show (i % 16).toNat = i.toNat % 16 from rfl, List.getElem?_eq_getElem hlt]
      exact congrArg some (List.getD_eq_getElem _ _ hlt).symm
    have hzero : i / 16 = 0 ↔ (i / 16).toNat = 0 := by
      rw [← UInt64.toNat_inj]
      rfl
    simp only [convertHexTurn, hlsd, hbase, hzero]
  have hnext : ∀ i : UInt64, True → ∃ t : UInt64, True ∧ t.toNat = i.toNat / upperHex.base ∧
      convertHexTurn i =
        if t.toNat = 0 then .stop [some (upperHex.digit (i.toNat % upperHex.base))] t
        else .next [some (upperHex.digit (i.toNat % upperHex.base))] t :=
    fun i _ => ⟨i / 16, trivial, rfl, hturn i⟩
  obtain ⟨t, hloop⟩ := Alphabet.loop_low some hnext (s := value) trivial (Nat.lt_succ_self _)
  rw [convertHex, hloop, Option.bind_some, mapM_some, Option.map_some]
  simp [finish, Alphabet.numeral]

/-- **Integer formatting is exact**: for every value of every integer type `convert` leaves
    its decimal text and returns the length of it, and `convertHex` does the same in
    hexadecimal; the texts are canonical and are read back as the values. -/
theorem convert_exact :
    (∀ (T : IntType) (value : T.Value), ∃ text,
      convert T value = some (text ++ [nul], text.length) ∧ CanonicalInt text ∧
        parseInt text = some (value : Int)) ∧
    ∀ value : UInt64, ∃ text,
      convertHex value = some (text ++ [nul], text.length) ∧ upperHex.Canonical text ∧
        upperHex.parse text = some value.toNat := by
  constructor
  · intro T value
    exact ⟨decimalInt value, convert_eq T value, canonicalInt_decimalInt value, parseInt_decimalInt value⟩
  · intro value
    exact ⟨upperHex.numeral value.toNat, convertHex_eq value, upperHex.canonical_numeral _,
      upperHex.parse_numeral _⟩

example : convert ⟨8, true, by decide, by decide⟩ (-128) = some (['-', '1', '2', '8', nul], 4) := by
  decide

end LogStream
end Youth.Utils
