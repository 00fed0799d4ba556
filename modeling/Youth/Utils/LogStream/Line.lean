/-
  Youth.Utils.LogStream.Line

  A log line: the insertions of `youth/utils/LogStream.cpp` into the buffer of
  `youth/utils/LogBuffer.h`, between the header and the end that `youth/utils/LogOut.cpp`
  puts around them.

  Of the three ways to write into a `LogBuffer` only `append` compares with the end of
  `m_data`, and `LogStream` does not use it.  So the cursor may leave the buffer; here it
  is an offset from `m_data`, and `copies` keeps the ranges that were written to, wherever
  they lie.  `line_inside_iff` says which lines stay inside.

  The texts that come from outside (the time, the thread, the file) are fields of `LogOut`.
  Left out: the insertions of floating-point numbers.
-/

import Mathlib.Data.List.TakeWhile
import Youth.Lib.Printf
import Youth.Utils.LogStream.Convert

namespace Youth.Utils

open Youth.Lib

def normalBuffer : Nat := 4000

namespace IntType

def int : IntType := ⟨32, true, by decide, by decide⟩

def size : IntType := ⟨64, false, by decide, by decide⟩

end IntType

namespace LogStream

abbrev Bytes := List UInt8

/-- `m_logBuffer`, without the bounds of its array. -/
structure Buffer where
  /-- `m_dataP - m_data` -/
  dataP : Int := 0
  /-- The bytes put in front of `m_dataP`. -/
  text : Bytes := []
  /-- The ranges that were written to: where they start, and how many bytes they have. -/
  copies : List (Int × Nat) := []

namespace Buffer

/-- `memcpy` takes the length as a `size_t`. -/
def appendString (b : Buffer) (pString : Bytes) (Len : Int) : Buffer :=
  let count := (IntType.size.cast Len).toNat
  { dataP := b.dataP + Len
    text := b.text ++ pString.take count
    copies := b.copies ++ [(b.dataP, count)] }

/-- Something written at `current()` and then counted by `appendLen`. -/
def appendLen (b : Buffer) (written : Bytes) (Len : Int) : Buffer where
  dataP := b.dataP + Len
  text := b.text ++ written.take Len.toNat
  copies := b.copies ++ [(b.dataP, written.length)]

end Buffer

/-- What can be inserted. -/
inductive Item
  | bool (value : Bool)
  | integer (T : IntType) (value : T.Value)
  /-- The memory at a `char *`; the string ends in front of the first zero. -/
  | chars (pChar : Bytes)
  | string (strString : Bytes)
  | pointer (value : UInt64)

/-- What `strlen` counts. -/
def cString (pChar : Bytes) : Bytes := pChar.takeWhile (· ≠ 0)

def insertChars (b : Buffer) (pChar : Bytes) : Buffer :=
  b.appendString (cString pChar) (IntType.int.cast (cString pChar).length)

/-- `operator<<` -/
def insert (b : Buffer) : Item → Buffer
  | .bool value => insertChars b (ascii (if value then "true".toList else "false".toList))
  | .integer T value =>
    match convert T value with
    | some x => b.appendLen (ascii x.1) (IntType.int.cast x.2)
    | none => b
  | .chars pChar => insertChars b pChar
  | .string strString => insertChars b strString
  | .pointer value =>
    match convertHex value with
    | some x => b.appendLen (ascii ('0' :: 'x' :: x.1)) (IntType.int.cast (x.2 + 2))
    | none => b

end LogStream

open LogStream (Bytes Item)

structure LogOut where
  /-- `m_dateTime.toStandardFormat()` -/
  dateTime : Bytes
  tidString : Bytes
  level : Bytes
  file : Bytes
  line : IntType.int.Value
  /-- `errno` and its text, for `outError`. -/
  error : Option (IntType.int.Value × Bytes) := none

namespace LogOut

def text (s : String) : Item := .chars (ascii s.toList)

/-- What the constructor inserts. -/
def header (out : LogOut) : List Item :=
  [.string out.dateTime, text " ", .chars out.tidString, text " ", .chars out.level] ++
    match out.error with
    | none => []
    | some (errno, strerror) =>
      [text " Error: ", .integer .int errno, text " ", .chars strerror, text ". "]

def finishLog (out : LogOut) : List Item :=
  [text " - ", .chars out.file, text ":", .integer .int out.line, text "\n"]

/-- Everything that goes into the buffer for one line. -/
def inserted (out : LogOut) (items : List Item) : List Item := out.header ++ items ++ out.finishLog

end LogOut

namespace LogStream

/-! ## One insertion -/

/-- By how much the cursor moves. -/
def Item.width : Item → Int
  | .bool value => if value then 4 else 5
  | .integer _ value => (decimalInt value).length
  | .chars pChar => IntType.int.cast (cString pChar).length
  | .string strString => IntType.int.cast (cString strString).length
  | .pointer value => (upperHex.numeral value.toNat).length + 2

/-- How many bytes are written at the cursor: a conversion leaves a zero behind its text. -/
def Item.count : Item → Nat
  | .integer _ value => (decimalInt value).length + 1
  | .pointer value => (upperHex.numeral value.toNat).length + 3
  | item => (IntType.size.cast item.width).toNat

theorem int_cast_of_lt {n : Nat} (h : n < 2 ^ 31) : IntType.int.cast n = n := by
  have hmin : IntType.int.min = -2 ^ 31 := by decide
  have hmax : IntType.int.max = 2 ^ 31 - 1 := by decide
  exact IntType.cast_of_value (by omega) (by omega)

theorem length_decimalInt_le {T : IntType} (value : T.Value) : (decimalInt value).length ≤ 21 := by
  have hpow : (2 : Int) ^ T.bits ≤ 2 ^ 64 := pow_le_pow_right₀ (by decide) T.le
  have hhalf : (2 : Int) ^ (T.bits - 1) ≤ 2 ^ 64 :=
    pow_le_pow_right₀ (by decide) (Nat.le_trans (Nat.sub_le _ _) T.le)
  have hlow : -(2 ^ 64) ≤ T.min := by
    unfold IntType.min
    split <;> omega
  have hhigh : T.max ≤ 2 ^ 64 := by
    unfold IntType.max
    split <;> omega
  obtain ⟨hmin, hmax⟩ := value.2
  have habs : (value : Int).natAbs < decimal.base ^ 20 := by
    rw [show decimal.base = 10 from rfl]
    omega
  have hlen := decimal.length_numeral_le (by decide) habs
  unfold decimalInt
  split
  · rw [List.length_cons]
    omega
  · omega

theorem length_upperHex_le (value : UInt64) : (upperHex.numeral value.toNat).length ≤ 16 := by
  have hlt : value.toNat < upperHex.base ^ 16 := by
    rw [show upperHex.base = 16 from rfl]
    exact value.toNat_lt
  exact upperHex.length_numeral_le (by decide) hlt

theorem insert_dataP (b : Buffer) (item : Item) : (insert b item).dataP = b.dataP + item.width := by
  cases item with
  | bool value => cases value <;> rfl
  | integer T value =>
      have hlen := length_decimalInt_le value
      simp only [insert, convert_eq, Buffer.appendLen, Item.width, int_cast_of_lt (by omega :
        (decimalInt value).length < 2 ^ 31)]
  | chars pChar => rfl
  | string strString => rfl
  | pointer value =>
      have hlen := length_upperHex_le value
      have hcast := int_cast_of_lt (by omega : (upperHex.numeral value.toNat).length + 2 < 2 ^ 31)
      push_cast at hcast
      simp only [insert, convertHex_eq, Buffer.appendLen, Item.width, hcast]

theorem insert_copies (b : Buffer) (item : Item) :
    (insert b item).copies = b.copies ++ [(b.dataP, item.count)] := by
  cases item with
  | bool value => cases value <;> rfl
  | integer T value => simp [insert, convert_eq, Buffer.appendLen, Item.count, length_ascii]
  | chars pChar => rfl
  | string strString => rfl
  | pointer value => simp [insert, convertHex_eq, Buffer.appendLen, Item.count, length_ascii]

theorem int_cast_range (n : Int) : -2 ^ 31 ≤ IntType.int.cast n ∧ IntType.int.cast n < 2 ^ 31 := by
  have hlow := Int.le_bmod (x := n) (m := 2 ^ 32) (by decide)
  have hhigh := Int.bmod_lt (x := n) (m := 2 ^ 32) (by decide)
  have hcast : IntType.int.cast n = n.bmod (2 ^ 32) := rfl
  rw [hcast]
  omega

theorem width_range (item : Item) : -2 ^ 31 ≤ item.width ∧ item.width < 2 ^ 31 := by
  cases item with
  | bool value => cases value <;> decide
  | integer T value =>
      have hlen := length_decimalInt_le value
      simp only [Item.width]
      omega
  | chars pChar => exact int_cast_range _
  | string strString => exact int_cast_range _
  | pointer value =>
      have hlen := length_upperHex_le value
      simp only [Item.width]
      omega

theorem size_cast_eq (n : Int) : IntType.size.cast n = n % 2 ^ 64 := rfl

/-- A negative length is a huge one for `memcpy`. -/
theorem count_of_neg {item : Item} (h : item.width < 0) : 2 ^ 63 ≤ item.count := by
  have hrange := width_range item
  have hhuge : 2 ^ 63 ≤ (IntType.size.cast item.width).toNat := by
    rw [size_cast_eq]
    omega
  cases item with
  | bool value => exact hhuge
  | integer T value => exact absurd h (by simp [Item.width])
  | chars pChar => exact hhuge
  | string strString => exact hhuge
  | pointer value =>
      simp only [Item.width] at h
      omega

/-- At most one byte behind the text is written. -/
theorem count_le {item : Item} (h : 0 ≤ item.width) : (item.count : Int) ≤ item.width + 1 := by
  have hrange := width_range item
  have hsize : ((IntType.size.cast item.width).toNat : Int) ≤ item.width + 1 := by
    rw [size_cast_eq]
    omega
  cases item with
  | bool value => exact hsize
  | integer T value => simp [Item.count, Item.width]
  | chars pChar => exact hsize
  | string strString => exact hsize
  | pointer value =>
      simp only [Item.count, Item.width]
      omega

/-! ## A line -/

def total (items : List Item) : Int := (items.map Item.width).sum

@[simp] theorem total_nil : total [] = 0 := rfl

@[simp] theorem total_cons (item : Item) (items : List Item) :
    total (item :: items) = item.width + total items := rfl

@[simp] theorem total_append (xs ys : List Item) : total (xs ++ ys) = total xs + total ys := by
  simp [total]

theorem total_nonneg {items : List Item} (h : ∀ item ∈ items, 0 ≤ item.width) : 0 ≤ total items := by
  induction items with
  | nil => exact Int.le_refl 0
  | cons item items ih =>
      obtain ⟨hitem, hitems⟩ := List.forall_mem_cons.mp h
      have := ih hitems
      rw [total_cons]
      omega

theorem foldl_dataP (items : List Item) (b : Buffer) :
    (items.foldl insert b).dataP = b.dataP + total items := by
  induction items generalizing b with
  | nil => simp
  | cons item items ih =>
      rw [List.foldl_cons, ih, insert_dataP, total_cons]
      omega

/-- Each insertion writes where the ones before it have left the cursor. -/
theorem mem_foldl_copies {items : List Item} {b : Buffer} {c : Int × Nat} :
    c ∈ (items.foldl insert b).copies ↔ c ∈ b.copies ∨
      ∃ pre item post, items = pre ++ item :: post ∧ c = (b.dataP + total pre, item.count) := by
  induction items generalizing b with
  | nil => simp
  | cons x items ih =>
      rw [List.foldl_cons, ih, insert_copies, insert_dataP, List.mem_append, List.mem_singleton,
        or_assoc]
      refine or_congr_right ⟨?_, ?_⟩
      · rintro (rfl | ⟨pre, item, post, rfl, rfl⟩)
        · exact ⟨[], x, items, rfl, by simp⟩
        · refine ⟨x :: pre, item, post, rfl, ?_⟩
          rw [total_cons, Int.add_assoc]
      · rintro ⟨pre, item, post, hsplit, rfl⟩
        rcases pre with _ | ⟨y, pre⟩
        · cases hsplit
          exact .inl (by simp)
        · cases hsplit
          refine .inr ⟨pre, item, post, rfl, ?_⟩
          rw [total_cons, Int.add_assoc]

/-- The cursor and everything that was written are inside `m_data`. -/
def Inside (b : Buffer) : Prop :=
  0 ≤ b.dataP ∧ b.dataP ≤ normalBuffer ∧ ∀ c ∈ b.copies, 0 ≤ c.1 ∧ c.1 + c.2 ≤ normalBuffer

instance (b : Buffer) : Decidable (Inside b) :=
  inferInstanceAs (Decidable (_ ∧ _ ∧ ∀ c ∈ b.copies, 0 ≤ c.1 ∧ c.1 + c.2 ≤ normalBuffer))

/-- The line stays inside the buffer all along. -/
def StaysInside (items : List Item) : Prop :=
  ∀ pre post, items = pre ++ post → Inside (pre.foldl insert {})

/-- A part of a line is no longer than the whole. -/
theorem total_le_whole {xs ys : List Item} (h : ∀ item ∈ xs ++ ys, 0 ≤ item.width) :
    0 ≤ total xs ∧ total xs ≤ total (xs ++ ys) := by
  have hxs := total_nonneg fun item hitem => h item (List.mem_append_left _ hitem)
  have hys := total_nonneg fun item hitem => h item (List.mem_append_right _ hitem)
  rw [total_append]
  omega

/-- Nothing is written behind the end of a line whose last insertion writes its text only: the
    zero behind a number is written over by what follows, and something does. -/
theorem copy_le_total {items before after : List Item} {last item : Item} (hlast : 0 < last.width)
    (hcount : (last.count : Int) = last.width) (hwidths : ∀ x ∈ items ++ [last], 0 ≤ x.width)
    (hall : items ++ [last] = before ++ item :: after) :
    total before + item.count ≤ total (items ++ [last]) := by
  rcases List.eq_nil_or_concat after with rfl | ⟨rest, final, rfl⟩
  · obtain ⟨hsame, hitem⟩ := List.append_inj' hall rfl
    cases hitem
    rw [hsame, total_append, total_cons, total_nil]
    omega
  · rw [List.concat_eq_append, ← List.cons_append, ← List.append_assoc] at hall
    obtain ⟨hsame, hfinal⟩ := List.append_inj' hall rfl
    cases hfinal
    rw [hsame] at hwidths ⊢
    have hle := count_le (hwidths item (by simp))
    have hrest : 0 ≤ total rest := total_nonneg fun x hx => hwidths x (by simp [hx])
    simp only [total_append, total_cons, total_nil]
    omega

/-- A negative length is copied from inside `m_data` to far behind it. -/
theorem StaysInside.width_nonneg {items : List Item} (h : StaysInside items) {item : Item}
    (hitem : item ∈ items) : 0 ≤ item.width := by
  by_contra hneg
  obtain ⟨pre, post, hsplit⟩ := List.append_of_mem hitem
  obtain ⟨-, -, hcopies⟩ := h (pre ++ [item]) post (by simp [hsplit])
  have hcopy := hcopies (total pre, item.count) (mem_foldl_copies.mpr
    (.inr ⟨pre, item, [], rfl, by simp⟩))
  have hhuge := count_of_neg (Int.not_le.mp hneg)
  have hstart : 0 ≤ total pre := hcopy.1
  have hend : total pre + (item.count : Int) ≤ (4000 : Nat) := hcopy.2
  omega

theorem staysInside_iff {items : List Item} {last : Item} (hlast : 0 < last.width)
    (hcount : (last.count : Int) = last.width) :
    StaysInside (items ++ [last]) ↔
      (∀ item ∈ items ++ [last], 0 ≤ item.width) ∧ total (items ++ [last]) ≤ normalBuffer := by
  constructor
  · intro h
    refine ⟨fun item hitem => h.width_nonneg hitem, ?_⟩
    obtain ⟨-, hend, -⟩ := h (items ++ [last]) [] (by simp)
    rw [foldl_dataP] at hend
    simpa using hend
  · rintro ⟨hwidths, htotal⟩ pre post hsplit
    obtain ⟨hpre, hle⟩ := total_le_whole (hsplit ▸ hwidths)
    rw [← hsplit] at hle
    have hcursor : (pre.foldl insert {}).dataP = total pre := by
      rw [foldl_dataP]
      exact Int.zero_add _
    refine ⟨hcursor ▸ hpre, hcursor ▸ hle.trans htotal, fun c hc => ?_⟩
    rcases mem_foldl_copies.mp hc with hnone | ⟨before, item, after, rfl, rfl⟩
    · cases hnone
    have hall : items ++ [last] = before ++ item :: (after ++ post) := by
      rw [hsplit, List.append_assoc, List.cons_append]
    have hbefore := (total_le_whole (hall ▸ hwidths)).1
    have hend := copy_le_total hlast hcount hwidths hall
    show 0 ≤ (0 : Int) + total before ∧ (0 : Int) + total before + item.count ≤ normalBuffer
    omega

/-- **A log line stays inside its buffer** if and only if no length is negative as an `int`,
    and all of them together are at most 4000. -/
theorem line_inside_iff (out : LogOut) (items : List Item) :
    StaysInside (out.inserted items) ↔
      (∀ item ∈ out.inserted items, 0 ≤ item.width) ∧ total (out.inserted items) ≤ normalBuffer := by
  have hsplit : out.inserted items = (out.header ++ items ++ [LogOut.text " - ", .chars out.file,
      LogOut.text ":", .integer .int out.line]) ++ [LogOut.text "\n"] := by
    simp [LogOut.inserted, LogOut.finishLog]
  rw [hsplit]
  exact staysInside_iff (by decide) (by decide)

/-- What `LOG_INFO` makes of a path in `HttpMethodFactory::defaultCall`. -/
def pathItems (path : Bytes) : List Item :=
  [LogOut.text "Headers ", .string (ascii "GET".toList), LogOut.text " ", .string path]

def sampleOut : LogOut where
  dateTime := ascii "2020-01-31 08:44:03.000000".toList
  tidString := ascii " 4242 ".toList
  level := ascii "[INFO] ".toList
  file := ascii "HttpMethod.cc".toList
  line := ⟨45, by decide⟩

theorem total_pathItems (path : Bytes) :
    total (sampleOut.inserted (pathItems path)) = 73 + (Item.string path).width := by
  have hfront : total (sampleOut.header ++ [LogOut.text "Headers ", .string (ascii "GET".toList),
      LogOut.text " "]) = 53 := by decide
  have hback : total sampleOut.finishLog = 20 := by decide
  have hline : sampleOut.inserted (pathItems path) =
      (sampleOut.header ++ [LogOut.text "Headers ", .string (ascii "GET".toList), LogOut.text " "]) ++
        .string path :: sampleOut.finishLog := by
    simp [LogOut.inserted, pathItems]
  rw [hline, total_append, total_cons, hfront, hback]
  omega

/-- A path of 4000 bytes. -/
theorem long_path_not_inside :
    ¬StaysInside (sampleOut.inserted (pathItems (List.replicate 4000 97))) := by
  intro h
  obtain ⟨-, hend, -⟩ := h _ [] (List.append_nil _).symm
  have hstring : cString (List.replicate 4000 97) = List.replicate 4000 97 :=
    List.takeWhile_eq_self_iff.mpr fun x hx => by rw [List.eq_of_mem_replicate hx]; decide
  have hwidth : (Item.string (List.replicate 4000 97)).width = (4000 : Nat) := by
    rw [Item.width, hstring, List.length_replicate]
    exact int_cast_of_lt (by decide)
  rw [foldl_dataP, total_pathItems, hwidth] at hend
  exact absurd hend (by decide)

end LogStream
end Youth.Utils
