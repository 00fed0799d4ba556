/-
  Youth.Rpc.ProtobufCodecLite.Basic

  The length-prefixed, checksummed message frames of
  `youth/net/rpc/ProtobufCodecLite.cc`:

      be32 len | tag | payload | be32 adler32(tag, payload)

  The protobuf message class and zlib's `adler32` are not part of the
  repository; they are fields of the codec, and `Protobuf.Lawful` states what the
  code relies on.  `int` arithmetic is `Int`, with the conversions from and to
  `size_t` where the source has them.
-/

import Youth.Lib.Loop
import Youth.Net.Buffer.Spec

namespace Youth.Rpc

open Youth.Lib Youth.Net

/-- A protobuf message class, as far as the codec uses it. -/
structure Protobuf (Msg : Type) where
  byteSizeLong : Msg → Nat
  /-- The bytes `SerializeWithCachedSizesToArray` writes. -/
  serializeToArray : Msg → List UInt8
  /-- `New()` followed by `ParseFromArray`; `none` when that returns `false`. -/
  parseFromArray : List UInt8 → Option Msg

/-- Serialising writes `ByteSizeLong()` bytes, and parsing undoes it. -/
structure Protobuf.Lawful {Msg : Type} (pb : Protobuf Msg) : Prop where
  byteSizeLong_eq : ∀ m, pb.byteSizeLong m = (pb.serializeToArray m).length
  parse_serialize : ∀ m, pb.parseFromArray (pb.serializeToArray m) = some m

inductive ErrorCode
  | kNoError
  | kInvalidLength
  | kCheckSumError
  | kInvalidNameLen
  | kUnknownMessageType
  | kParseError
  deriving DecidableEq, Repr

/-- What the codec's callbacks are called with. -/
inductive CodecEvent (Msg : Type)
  | raw (frame : List UInt8)
  | message (m : Msg)
  | error (code : ErrorCode)
  deriving DecidableEq, Repr

/-- A codec object: its tag, the code it uses from elsewhere and its callbacks.
    The error callback is given the buffer and may change it. -/
structure ProtobufCodecLite (Msg : Type) where
  tag : List UInt8
  pb : Protobuf Msg
  adler32 : List UInt8 → Nat
  rawCb : Option (List UInt8 → Bool) := none
  errorCallback : ErrorCode → Buffer → Buffer := fun _ buf => buf

namespace ProtobufCodecLite

variable {Msg : Type}

/-- The assertions of the codec, and those of the buffer it writes to. -/
inductive Assert
  | buffer (a : Buffer.Assert)
  | emptyBuffer
  | frameLength
  deriving DecidableEq, Repr

def kHeaderLen : Int := 4

def kChecksumLen : Int := 4

def kMaxMessageLen : Int := 64 * 1024 * 1024

/-- `static_cast<int>(tagArg.size() + kChecksumLen)`. -/
def kMinMessageLen (c : ProtobufCodecLite Msg) : Int := intOfSize (c.tag.length + 4)

/-- `asInt32`: the four bytes from `buf` on. -/
def asInt32 (buf : List UInt8) : Int := beInt 4 (buf.take 4)

/-- `static_cast<int32_t>(::adler32(1, buf, len))`; zlib takes its length as a `uInt`. -/
def checksum (c : ProtobufCodecLite Msg) (buf : List UInt8) (len : Int) : Int :=
  intOfSize (c.adler32 (buf.take (uint32OfInt len)))

def validateChecksum (c : ProtobufCodecLite Msg) (buf : List UInt8) (len : Int) : Bool :=
  let expectedCheckSum := asInt32 (buf.drop (len - kChecksumLen).toNat)
  let checkSum := c.checksum buf (len - kChecksumLen)
  checkSum = expectedCheckSum

def parseFromBuffer (c : ProtobufCodecLite Msg) (buf : List UInt8) : Option Msg :=
  c.pb.parseFromArray buf

/-- `parse(buf, len, message)`; `buf` is the memory from the pointer on. -/
def parse (c : ProtobufCodecLite Msg) (buf : List UInt8) (len : Int) : Except ErrorCode Msg :=
  if c.validateChecksum buf len then
    if buf.take c.tag.length = c.tag then
      let data := buf.drop c.tag.length
      let dataLen := len - kChecksumLen - intOfSize c.tag.length
      match c.parseFromBuffer (data.take (sizeOfInt dataLen)) with
      | some message => .ok message
      | none => .error .kParseError
    else .error .kUnknownMessageType
  else .error .kCheckSumError

/-! ## Encoding -/

/-- Appends the payload and returns its size. -/
def serializeToBuffer (c : ProtobufCodecLite Msg) (message : Msg) (buf : Buffer) :
    Checked Buffer.Assert (Nat × Buffer) := do
  let byteSize := c.pb.byteSizeLong message
  let buf ← buf.ensureWritableBytes (byteSize + 4)
  let buf ← (buf.storeAtBeginWrite (c.pb.serializeToArray message)).hasWritten byteSize
  pure (byteSize, buf)

def fillEmptyBuffer (c : ProtobufCodecLite Msg) (buf : Buffer) (message : Msg) :
    Checked Assert Buffer := do
  Checked.check (buf.readableBytes = 0) .emptyBuffer
  let buf ← (buf.append c.tag).mapFaults .buffer
  let r ← (c.serializeToBuffer message buf).mapFaults .buffer
  let checkSum := c.checksum (r.2.bufferVec.drop r.2.readerIndex) (intOfSize r.2.readableBytes)
  let buf ← (r.2.appendInt32 checkSum).mapFaults .buffer
  Checked.check (buf.readableBytes = c.tag.length + r.1 + 4) .frameLength
  (buf.prependInt32 (intOfSize buf.readableBytes)).mapFaults .buffer

/-! ## Decoding -/

/-- The call of the raw callback on a complete frame, if there is one. -/
def callRawCb (c : ProtobufCodecLite Msg) (frame : List UInt8) : Option Bool :=
  c.rawCb.map fun rawCb => rawCb frame

/-- The branch for a complete frame of `frameLen` bytes: the raw callback, then
    `parse` on what follows the length field. -/
def onFrame (c : ProtobufCodecLite Msg) (buf : Buffer) (len : Int) (frameLen : Nat) : Turn (CodecEvent Msg) Buffer :=
  let memory := buf.bufferVec.drop buf.readerIndex
  let frame := memory.take frameLen
  let called := if c.rawCb.isSome then [.raw frame] else []
  if c.callRawCb frame = some false then
    -- the raw callback has dealt with the frame
    .next called (buf.retrieve frameLen).val
  else
    match c.parse (memory.drop 4) len with
    | .ok message => .next (called ++ [.message message]) (buf.retrieve frameLen).val
    | .error errorCode => .stop (called ++ [.error errorCode]) (c.errorCallback errorCode buf)

/-- One turn of the `while` loop of `onMessage`. -/
def onMessageTurn (c : ProtobufCodecLite Msg) (buf : Buffer) : Turn (CodecEvent Msg) Buffer :=
  if uint32OfInt (c.kMinMessageLen + kHeaderLen) ≤ buf.readableBytes then
    let len := buf.peekInt32.val
    if kMaxMessageLen < len ∨ len < c.kMinMessageLen then
      .stop [.error .kInvalidLength] (c.errorCallback .kInvalidLength buf)
    else if sizeOfInt (kHeaderLen + len) ≤ buf.readableBytes then
      c.onFrame buf len (sizeOfInt (kHeaderLen + len))
    else
      .stop [] buf
  else
    .stop [] buf

/-- `onMessage`.  A turn that goes on takes a byte at least (for every tag whose
    length is an `int`), so the fuel is one more than the bytes there are. -/
def onMessage (c : ProtobufCodecLite Msg) (buf : Buffer) : Option (List (CodecEvent Msg) × Buffer) :=
  loop c.onMessageTurn (buf.readableBytes + 1) buf

/-- The chunks arrive one after the other; `onMessage` is called after each. -/
def onChunks (c : ProtobufCodecLite Msg) : Buffer → List (List UInt8) →
    Option (List (CodecEvent Msg) × Buffer)
  | buf, [] => some ([], buf)
  | buf, chunk :: chunks =>
    (c.onMessage (buf.append chunk).val).bind fun p =>
      (c.onChunks p.2 chunks).map fun q => (p.1 ++ q.1, q.2)

end ProtobufCodecLite
end Youth.Rpc
