/-
  Youth.Net.Buffer.Integers

  Integers in network order, through a `Buffer` and back.

  The four widths go through the same steps, so `Typed` is a value with its width, and
  `appendTyped`, `prependTyped` and `readTyped` are the calls for it.  Appended values are
  read back in their order, whatever the appends did to the vector on the way, since each
  of them only adds the bytes of its value behind the readable ones (`append_yields`).

  What `hostToNetwork64` and its like do is said on the memory of the host: the value they
  return has the big-endian bytes as its image, on a host of either byte order
  (`stored_eq`, `loaded_eq`).
-/

import Youth.Net.Buffer.Spec
import Youth.Net.SocketFunc

namespace Youth.Net
namespace Buffer

open Youth.Lib
open SocketFunc (hostToNetwork networkToHost image_hostToNetwork hostToNetwork_lt networkToHost_value)

/-! ## Conversions -/

/-- The conversion of a signed value to the unsigned type of its width. -/
def unsigned (w : Nat) (x : Int) : Nat := (x % (256 ^ w : Nat)).toNat

/-- The conversion of an unsigned value to the signed type of its width. -/
def signed (w n : Nat) : Int := Int.bmod n (256 ^ w)

theorem unsigned_signed {w n : Nat} (h : n < 256 ^ w) : unsigned w (signed w n) = n := by
  rw [unsigned, signed, Int.bmod_emod, Int.emod_eq_of_lt (by omega) (by omega), Int.toNat_natCast]

/-! ## Values with their width -/

inductive Width
  | int8
  | int16
  | int32
  | int64
  deriving DecidableEq, Repr

/-- `sizeof`. -/
def Width.bytes : Width → Nat
  | .int8 => 1
  | .int16 => 2
  | .int32 => 4
  | .int64 => 8

/-- A value of one of the signed types. -/
structure Typed where
  width : Width
  value : Int
  min_le : -(256 ^ width.bytes : Nat) ≤ 2 * value
  le_max : 2 * value < (256 ^ width.bytes : Nat)

/-- The two's-complement bytes of a value, the most significant one first. -/
def Typed.encoding (v : Typed) : List UInt8 := beBytesInt v.width.bytes v.value

/-- What `appendInt8` and the others hand to `append`: the memory of `x`, or of the signed
    variable that `hostToNetwork` was assigned to. -/
def Typed.stored (e : Endian) (v : Typed) : List UInt8 :=
  match v.width with
  | .int8 => e.image 1 (unsigned 1 v.value)
  | w =>
    let be := signed w.bytes (hostToNetwork e w.bytes (unsigned w.bytes v.value))
    e.image w.bytes (unsigned w.bytes be)

/-- What `peekInt8` and the others return for the bytes at `peek()`. -/
def Width.loaded (e : Endian) (w : Width) (bs : List UInt8) : Int :=
  match w with
  | .int8 => signed 1 (e.value bs)
  | w =>
    let be := signed w.bytes (e.value bs)
    signed w.bytes (networkToHost e w.bytes (unsigned w.bytes be))

/-- The bytes of the network order, for every byte order of the host. -/
theorem stored_eq (e : Endian) (v : Typed) : v.stored e = v.encoding := by
  obtain ⟨width, value, -, -⟩ := v
  have hswap : ∀ w n, e.image w (unsigned w (signed w (hostToNetwork e w n))) = beBytes w n := by
    intro w n
    rw [unsigned_signed (hostToNetwork_lt e w n), image_hostToNetwork]
  cases width with
  | int8 => cases e <;> rfl
  | int16 => exact hswap 2 _
  | int32 => exact hswap 4 _
  | int64 => exact hswap 8 _

theorem loaded_eq (e : Endian) (w : Width) {bs : List UInt8} (h : bs.length = w.bytes) :
    w.loaded e bs = beInt w.bytes bs := by
  have hswap : ∀ n, bs.length = n →
      signed n (networkToHost e n (unsigned n (signed n (e.value bs)))) = beInt n bs := by
    intro n hn
    rw [unsigned_signed (e.value_lt hn), networkToHost_value e hn]
    rfl
  cases w with
  | int8 =>
      -- a single byte has no order
      obtain ⟨byte, rfl⟩ := List.length_eq_one_iff.mp h
      cases e <;> rfl
  | int16 => exact hswap 2 h
  | int32 => exact hswap 4 h
  | int64 => exact hswap 8 h

/-! ## The calls -/

def appendTyped (b : Buffer) (v : Typed) : Checked Assert Buffer :=
  match v.width with
  | .int8 => b.appendInt8 v.value
  | .int16 => b.appendInt16 v.value
  | .int32 => b.appendInt32 v.value
  | .int64 => b.appendInt64 v.value

def prependTyped (b : Buffer) (v : Typed) : Checked Assert Buffer :=
  match v.width with
  | .int8 => b.prependInt8 v.value
  | .int16 => b.prependInt16 v.value
  | .int32 => b.prependInt32 v.value
  | .int64 => b.prependInt64 v.value

def readTyped (b : Buffer) : Width → Checked Assert (Int × Buffer)
  | .int8 => b.readInt8
  | .int16 => b.readInt16
  | .int32 => b.readInt32
  | .int64 => b.readInt64

/-- Values appended one after the other. -/
def appendAll (b : Buffer) : List Typed → Checked Assert Buffer
  | [] => pure b
  | v :: values => do
    let b ← b.appendTyped v
    b.appendAll values

/-- Values read one after the other. -/
def readEach (b : Buffer) : List Width → Checked Assert (List Int × Buffer)
  | [] => pure ([], b)
  | w :: widths => do
    let first ← b.readTyped w
    let rest ← first.2.readEach widths
    pure (first.1 :: rest.1, rest.2)

section Calls

variable {b : Buffer}

theorem appendTyped_eq (b : Buffer) (v : Typed) : b.appendTyped v = b.append v.encoding := by
  obtain ⟨width, value, -, -⟩ := v
  cases width <;> rfl

theorem prependTyped_eq (b : Buffer) (v : Typed) : b.prependTyped v = b.prepend v.encoding := by
  obtain ⟨width, value, -, -⟩ := v
  cases width <;> rfl

theorem readTyped_eq (b : Buffer) (w : Width) : b.readTyped w = b.readInt w.bytes := by
  cases w <;> rfl

theorem length_encoding (v : Typed) : v.encoding.length = v.width.bytes := length_beBytesInt _ _

/-- A value whose bytes come first is read, and its bytes alone are taken. -/
theorem readTyped_encoding (h : b.Inv) (v : Typed) {rest : List UInt8}
    (hb : b.readable = v.encoding ++ rest) :
    (b.readTyped v.width).Ok ∧ (b.readTyped v.width).val.1 = v.value ∧
      (b.readTyped v.width).val.2.Inv ∧ (b.readTyped v.width).val.2.readable = rest := by
  have hlen := length_encoding v
  have hroom : v.width.bytes ≤ b.readableBytes := by
    rw [← length_readable h, hb, List.length_append]
    omega
  have hretrieve := retrieve_yields h hroom
  have hpeek := peekInt_val h hroom
  have htake : b.readable.take v.width.bytes = v.encoding := by
    rw [hb, ← hlen, List.take_left]
  have hdrop : b.readable.drop v.width.bytes = rest := by
    rw [hb, ← hlen, List.drop_left]
  have hpeekOk : (b.peekInt v.width.bytes).Ok := by simp [peekInt, hroom]
  rw [readTyped_eq, readInt]
  refine ⟨?_, ?_, hretrieve.inv, ?_⟩
  · simp only [Checked.ok_bind, Checked.ok_pure, and_true]
    exact ⟨hpeekOk, hretrieve.ok⟩
  · show (b.peekInt v.width.bytes).val = v.value
    rw [hpeek, htake]
    exact beInt_beBytesInt v.min_le v.le_max
  · show (b.retrieve v.width.bytes).val.readable = rest
    rw [hretrieve.readable, hdrop]

theorem appendAll_yields (h : b.Inv) (values : List Typed) :
    Yields (b.appendAll values) (b.readable ++ values.flatMap Typed.encoding) := by
  induction values generalizing b with
  | nil => exact ⟨rfl, h, by simp [appendAll]⟩
  | cons v values ih =>
      have hfirst := append_yields h v.encoding
      have hrest := ih hfirst.inv
      rw [hfirst.readable, List.append_assoc, ← List.flatMap_cons] at hrest
      rw [appendAll, appendTyped_eq]
      exact ⟨Checked.ok_bind.mpr ⟨hfirst.ok, hrest.ok⟩, hrest.inv, hrest.readable⟩

/-- Values whose bytes come first are read in their order. -/
theorem readEach_encoding (h : b.Inv) (values : List Typed) {rest : List UInt8}
    (hb : b.readable = values.flatMap Typed.encoding ++ rest) :
    (b.readEach (values.map Typed.width)).Ok ∧
      (b.readEach (values.map Typed.width)).val.1 = values.map Typed.value ∧
      (b.readEach (values.map Typed.width)).val.2.readable = rest := by
  induction values generalizing b with
  | nil => exact ⟨rfl, rfl, hb⟩
  | cons v values ih =>
      rw [List.flatMap_cons, List.append_assoc] at hb
      obtain ⟨hok, hval, hinv, hreadable⟩ := readTyped_encoding h v hb
      obtain ⟨hoks, hvals, hrest⟩ := ih hinv hreadable
      refine ⟨?_, ?_, hrest⟩
      · simp only [List.map_cons, readEach, Checked.ok_bind, Checked.ok_pure, and_true]
        exact ⟨hok, hoks⟩
      · show (b.readTyped v.width).val.1 :: _ = _
        rw [hval, List.map_cons]
        exact congrArg _ hvals

end Calls

/-- **Integers come back.**  In every buffer: of values appended one after the other, once
    the bytes that were readable before are retrieved, the reads with the same widths give
    the same values and leave nothing; and a value prepended to a buffer with room for it is
    read back and leaves what was readable.  No assertion fails, and what lies in the buffer
    in between is the big-endian two's complement of the values, on every host. -/
theorem integers_round_trip (b : Buffer) (h : b.Inv) :
    (∀ values : List Typed,
      (b.appendAll values).Ok ∧
      (b.appendAll values).val.readable = b.readable ++ values.flatMap Typed.encoding ∧
      ((b.appendAll values).val.retrieve b.readableBytes).Ok ∧
      ∀ b', ((b.appendAll values).val.retrieve b.readableBytes).val = b' →
        (b'.readEach (values.map Typed.width)).Ok ∧
        (b'.readEach (values.map Typed.width)).val.1 = values.map Typed.value ∧
        (b'.readEach (values.map Typed.width)).val.2.readable = []) ∧
    (∀ v : Typed, v.width.bytes ≤ b.prependableBytes →
      (b.prependTyped v).Ok ∧ (b.prependTyped v).val.readable = v.encoding ++ b.readable ∧
      ((b.prependTyped v).val.readTyped v.width).Ok ∧
      ((b.prependTyped v).val.readTyped v.width).val.1 = v.value ∧
      ((b.prependTyped v).val.readTyped v.width).val.2.readable = b.readable) ∧
    ∀ (e : Endian) (v : Typed), v.stored e = v.encoding ∧ v.width.loaded e v.encoding = v.value := by
  refine ⟨fun values => ?_, fun v hroom => ?_, fun e v => ⟨stored_eq e v, ?_⟩⟩
  · have happ := appendAll_yields h values
    have hold : b.readableBytes ≤ (b.appendAll values).val.readableBytes := by
      rw [← length_readable h, ← length_readable happ.inv, happ.readable, List.length_append]
      omega
    have hretrieve := retrieve_yields happ.inv hold
    refine ⟨happ.ok, happ.readable, hretrieve.ok, ?_⟩
    rintro b' rfl
    refine readEach_encoding hretrieve.inv values ?_
    rw [hretrieve.readable, happ.readable, ← length_readable h, List.drop_left, List.append_nil]
  · have hlen := length_encoding v
    have hfits : v.encoding.length ≤ b.prependableBytes := by omega
    have hpre := prepend_yields h hfits
    rw [prependTyped_eq]
    obtain ⟨hok, hval, -, hrest⟩ := readTyped_encoding hpre.inv v hpre.readable
    exact ⟨hpre.ok, hpre.readable, hok, hval, hrest⟩
  · rw [loaded_eq e v.width (length_encoding v)]
    exact beInt_beBytesInt v.min_le v.le_max

/-- `int32_t(-2)` -/
def minusTwo : Typed := ⟨.int32, -2, by decide, by decide⟩

/-- Appended to a new buffer, and prepended to one. -/
theorem integers_round_trip_minusTwo :
    (new kInitialSize).Inv ∧ minusTwo.width.bytes ≤ (new kInitialSize).prependableBytes ∧
    (((((new kInitialSize).appendAll [minusTwo]).val.retrieve
      (new kInitialSize).readableBytes).val).readEach [.int32]).val.1 = [-2] ∧
    (((new kInitialSize).prependTyped minusTwo).val.readTyped .int32).val.1 = -2 := by
  have h := integers_round_trip (new kInitialSize) (new_inv kInitialSize)
  have hroom : minusTwo.width.bytes ≤ (new kInitialSize).prependableBytes := by decide
  exact ⟨new_inv kInitialSize, hroom, ((h.1 [minusTwo]).2.2.2 _ rfl).2.1,
    (h.2.1 minusTwo hroom).2.2.2.1⟩

end Buffer
end Youth.Net
