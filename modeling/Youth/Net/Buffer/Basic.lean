/-
  Youth.Net.Buffer.Basic

  The growable byte buffer of `youth/net/Buffer.h` and `youth/net/Buffer.cpp`.

  A `Buffer` is a vector with two indices into it:

      |  prependable  |     readable      |   writable   |
      0      <=   readerIndex   <=   writerIndex   <=   size

  Every function with an `assert` is a `Checked` computation: `.val` is the
  default build, where the assertions are compiled out, `.faults` the assertions
  that fail on the way.  `size_t` is `Nat` (sizes of objects in memory do not
  wrap); the one conversion to `int`, in `toStringPiece`, is kept.  A `char *`
  into the buffer is its index in `bufferVec`.
-/

import Youth.Lib.Checked
import Youth.Lib.Machine
import Youth.Lib.Splice
import Youth.Lib.BigEndian

namespace Youth.Net

open Youth.Lib

structure Buffer where
  bufferVec : List UInt8
  readerIndex : Nat
  writerIndex : Nat
  deriving DecidableEq, Repr

/-- `static_cast<int>` of a `size_t` or another unsigned long. -/
def intOfSize (n : Nat) : Int := Int.bmod n (2 ^ 32)

/-- `static_cast<size_t>` of an `int`. -/
def sizeOfInt (i : Int) : Nat := (i % 2 ^ 64).toNat

/-- `static_cast<uint32_t>` of an `int`. -/
def uint32OfInt (i : Int) : Nat := (i % 2 ^ 32).toNat

theorem intOfSize_of_lt {n : Nat} (h : n < 2 ^ 31) : intOfSize n = n :=
  Int.bmod_eq_of_le_mul_two (by omega) (by omega)

theorem intOfSize_lt (n : Nat) : intOfSize n < 2 ^ 31 := by
  have hlt := Int.bmod_lt (x := (n : Int)) (m := 2 ^ 32) (by decide)
  unfold intOfSize
  omega

theorem sizeOfInt_natCast {n : Nat} (h : n < 2 ^ 64) : sizeOfInt n = n := by
  rw [sizeOfInt]
  omega

theorem uint32OfInt_natCast {n : Nat} (h : n < 2 ^ 32) : uint32OfInt n = n := by
  rw [uint32OfInt]
  omega

theorem sizeOfInt_intOfSize {n : Nat} (h : n < 2 ^ 31) : sizeOfInt (intOfSize n) = n := by
  rw [intOfSize_of_lt h, sizeOfInt_natCast (by omega)]

/-- An `int` written as four bytes in network order is read back as it was. -/
theorem beInt_intOfSize (n : Nat) : beInt 4 (beBytesInt 4 (intOfSize n)) = intOfSize n := by
  have hlo := Int.le_bmod (x := (n : Int)) (m := 2 ^ 32) (by decide)
  have hhi := Int.bmod_lt (x := (n : Int)) (m := 2 ^ 32) (by decide)
  unfold intOfSize
  exact beInt_beBytesInt (by omega) (by omega)

namespace Buffer

/-- The assertions of `Buffer.cpp`, by the function they stand in. -/
inductive Assert
  | retrieve
  | retrieveUntilBegin
  | retrieveUntilEnd
  | retrieveAsString
  | ensureWritableBytes
  | hasWritten
  | unwrite
  | peekInt
  | prepend
  | makeSpaceMove
  | makeSpaceReadable
  deriving DecidableEq, Repr

def kCheapPrepend : Nat := 8

def kInitialSize : Nat := 1024

/-- `Buffer::Buffer(size_t initialSize)`. -/
def new (initialSize : Nat) : Buffer where
  bufferVec := List.replicate (kCheapPrepend + initialSize) 0
  readerIndex := kCheapPrepend
  writerIndex := kCheapPrepend

def readableBytes (b : Buffer) : Nat := b.writerIndex - b.readerIndex

def writableBytes (b : Buffer) : Nat := b.bufferVec.length - b.writerIndex

def prependableBytes (b : Buffer) : Nat := b.readerIndex

/-- The bytes of `[m_readerIndex, m_writerIndex)`. -/
def readable (b : Buffer) : List UInt8 := slice b.bufferVec b.readerIndex b.writerIndex

def retrieveAll (b : Buffer) : Buffer :=
  { b with readerIndex := kCheapPrepend, writerIndex := kCheapPrepend }

def retrieve (b : Buffer) (len : Nat) : Checked Assert Buffer := do
  Checked.check (len ≤ b.readableBytes) .retrieve
  if len < b.readableBytes then
    pure { b with readerIndex := b.readerIndex + len }
  else
    pure b.retrieveAll

def retrieveUntil (b : Buffer) (stop : Nat) : Checked Assert Buffer := do
  Checked.check (b.readerIndex ≤ stop) .retrieveUntilBegin
  Checked.check (stop ≤ b.writerIndex) .retrieveUntilEnd
  b.retrieve (stop - b.readerIndex)

def retrieveAsString (b : Buffer) (len : Nat) : Checked Assert (List UInt8 × Buffer) := do
  Checked.check (len ≤ b.readableBytes) .retrieveAsString
  let result := slice b.bufferVec b.readerIndex (b.readerIndex + len)
  let b ← b.retrieve len
  pure (result, b)

def retrieveAllAsString (b : Buffer) : Checked Assert (List UInt8 × Buffer) :=
  b.retrieveAsString b.readableBytes

/-- `string_view(peek(), int(readableBytes()))`. -/
def toStringPiece (b : Buffer) : List UInt8 :=
  slice b.bufferVec b.readerIndex (b.readerIndex + sizeOfInt (intOfSize b.readableBytes))

def makeSpace (b : Buffer) (len : Nat) : Checked Assert Buffer :=
  if b.writableBytes + b.prependableBytes < len + kCheapPrepend then
    pure { b with bufferVec := resize 0 (b.writerIndex + len) b.bufferVec }
  else do
    -- move readable data to the front, make space inside buffer
    Checked.check (kCheapPrepend < b.readerIndex) .makeSpaceMove
    let readable := b.readableBytes
    let b' : Buffer :=
      { bufferVec := copyWithin b.bufferVec b.readerIndex kCheapPrepend (b.writerIndex - b.readerIndex)
        readerIndex := kCheapPrepend
        writerIndex := kCheapPrepend + readable }
    Checked.check (readable = b'.readableBytes) .makeSpaceReadable
    pure b'

def ensureWritableBytes (b : Buffer) (len : Nat) : Checked Assert Buffer := do
  let b ← if b.writableBytes < len then b.makeSpace len else pure b
  Checked.check (len ≤ b.writableBytes) .ensureWritableBytes
  pure b

/-- The caller's bytes stored at `beginWrite()`, before `hasWritten` publishes them. -/
def storeAtBeginWrite (b : Buffer) (data : List UInt8) : Buffer :=
  { b with bufferVec := splice b.bufferVec b.writerIndex data }

def hasWritten (b : Buffer) (len : Nat) : Checked Assert Buffer := do
  Checked.check (len ≤ b.writableBytes) .hasWritten
  pure { b with writerIndex := b.writerIndex + len }

def unwrite (b : Buffer) (len : Nat) : Checked Assert Buffer := do
  Checked.check (len ≤ b.readableBytes) .unwrite
  pure { b with writerIndex := b.writerIndex - len }

def append (b : Buffer) (data : List UInt8) : Checked Assert Buffer := do
  let b ← b.ensureWritableBytes data.length
  (b.storeAtBeginWrite data).hasWritten data.length

def prepend (b : Buffer) (data : List UInt8) : Checked Assert Buffer := do
  Checked.check (data.length ≤ b.prependableBytes) .prepend
  let readerIndex := b.readerIndex - data.length
  pure { b with readerIndex, bufferVec := splice b.bufferVec readerIndex data }

/-- `swap(rhs)`: the new `*this` and the new `rhs`. -/
def swap (b rhs : Buffer) : Buffer × Buffer := (rhs, b)

def shrink (b : Buffer) (reserve : Nat) : Checked Assert Buffer := do
  let other := new kInitialSize
  let other ← other.ensureWritableBytes (b.readableBytes + reserve)
  let other ← other.append b.toStringPiece
  pure (b.swap other).1

/-! ## Reading from a descriptor -/

/-- `sizeof extrabuf`. -/
def kExtraBuf : Nat := 65536

/-- The bytes one `readv` may deliver: the writable region, and `extrabuf` when
    the region is smaller than it (`iovcnt` is 2 then, else 1). -/
def readvCapacity (b : Buffer) : Nat :=
  if b.writableBytes < kExtraBuf then b.writableBytes + kExtraBuf else b.writableBytes

/-- `readFd`, given what `readv` did: an `errno`, or the bytes it delivered.
    `readv` fills its blocks in order, so the first `writableBytes()` of them are
    in the buffer and the others in `extrabuf`.  Returns `n`, or the `errno`. -/
def readFd (b : Buffer) : Except Nat (List UInt8) → Checked Assert (Except Nat Nat × Buffer)
  | .error savedErrno => pure (.error savedErrno, b)
  | .ok data => do
    let n := data.length
    let writable := b.writableBytes
    let filled := b.storeAtBeginWrite (data.take writable)
    let extrabuf := data.drop writable
    if n ≤ writable then
      pure (.ok n, { filled with writerIndex := filled.writerIndex + n })
    else do
      let full := { filled with writerIndex := filled.bufferVec.length }
      let b ← full.append (extrabuf.take (n - writable))
      pure (.ok n, b)

/-! ## Integers in network order -/

def appendInt (w : Nat) (b : Buffer) (x : Int) : Checked Assert Buffer := b.append (beBytesInt w x)

def appendInt64 : Buffer → Int → Checked Assert Buffer := appendInt 8
def appendInt32 : Buffer → Int → Checked Assert Buffer := appendInt 4
def appendInt16 : Buffer → Int → Checked Assert Buffer := appendInt 2
def appendInt8 : Buffer → Int → Checked Assert Buffer := appendInt 1

/-- The `w` bytes at `peek()`, as a signed number. -/
def peekInt (w : Nat) (b : Buffer) : Checked Assert Int := do
  Checked.check (w ≤ b.readableBytes) .peekInt
  pure (beInt w (slice b.bufferVec b.readerIndex (b.readerIndex + w)))

def peekInt64 : Buffer → Checked Assert Int := peekInt 8
def peekInt32 : Buffer → Checked Assert Int := peekInt 4
def peekInt16 : Buffer → Checked Assert Int := peekInt 2
def peekInt8 : Buffer → Checked Assert Int := peekInt 1

def readInt (w : Nat) (b : Buffer) : Checked Assert (Int × Buffer) := do
  let result ← b.peekInt w
  let b ← b.retrieve w
  pure (result, b)

def readInt64 : Buffer → Checked Assert (Int × Buffer) := readInt 8
def readInt32 : Buffer → Checked Assert (Int × Buffer) := readInt 4
def readInt16 : Buffer → Checked Assert (Int × Buffer) := readInt 2
def readInt8 : Buffer → Checked Assert (Int × Buffer) := readInt 1

def prependInt (w : Nat) (b : Buffer) (x : Int) : Checked Assert Buffer :=
  b.prepend (beBytesInt w x)

def prependInt64 : Buffer → Int → Checked Assert Buffer := prependInt 8
def prependInt32 : Buffer → Int → Checked Assert Buffer := prependInt 4
def prependInt16 : Buffer → Int → Checked Assert Buffer := prependInt 2
def prependInt8 : Buffer → Int → Checked Assert Buffer := prependInt 1

end Buffer
end Youth.Net
