/-
  Youth.Rpc.RpcChannel.Proto

  The messages of `youth/net/rpc/rpc.proto` in the wire format of proto3.

  A message is its fields that are set, each a tag byte and a value: an enumeration in one
  byte, a `fixed64` in eight bytes with the lowest first, a string or `bytes` behind its
  length as a varint.  A field without presence is left out when it has its default.  The
  parser takes fields in any order, and the last one of a kind counts; it is total, for
  the check that a `string` is UTF-8 is left out.
-/

import Youth.Lib.BigEndian
import Youth.Rpc.ProtobufCodecLite.Basic
import Youth.Rpc.RpcChannel.Basic

namespace Youth.Rpc.RpcMessage

open Youth.Lib

/-! ## Values -/

/-- Base 128, lowest digit first; all bytes but the last have the high bit.  `n` itself is
    fuel enough. -/
def varintFrom : Nat → Nat → Bytes
  | 0, n => [UInt8.ofNat n]
  | fuel + 1, n =>
    if n < 128 then [UInt8.ofNat n]
    else UInt8.ofNat (128 + n % 128) :: varintFrom fuel (n / 128)

def varint (n : Nat) : Bytes := varintFrom n n

/-- A varint and what follows it. -/
def readVarint : Bytes → Option (Nat × Bytes)
  | [] => none
  | b :: bs =>
    if b.toNat < 128 then some (b.toNat, bs)
    else (readVarint bs).map fun p => (b.toNat - 128 + 128 * p.1, p.2)

theorem readVarint_varintFrom (fuel n : Nat) (hfuel : n < 128 * 2 ^ fuel) (rest : Bytes) :
    readVarint (varintFrom fuel n ++ rest) = some (n, rest) := by
  induction fuel generalizing n with
  | zero =>
      have hn : (UInt8.ofNat n).toNat = n := by
        rw [UInt8.toNat_ofNat']
        omega
      rw [varintFrom, List.singleton_append, readVarint, hn, if_pos (by omega)]
  | succ fuel ih =>
      rw [varintFrom]
      split
      next hlt =>
        have hn : (UInt8.ofNat n).toNat = n := by
          rw [UInt8.toNat_ofNat']
          omega
        rw [List.singleton_append, readVarint, hn, if_pos hlt]
      next hge =>
        have hb : (UInt8.ofNat (128 + n % 128)).toNat = 128 + n % 128 := by
          rw [UInt8.toNat_ofNat']
          omega
        have hsmaller : n / 128 < 128 * 2 ^ fuel := by
          rw [Nat.pow_succ] at hfuel
          omega
        rw [List.cons_append, readVarint, hb, if_neg (by omega), ih _ hsmaller, Option.map_some]
        congr 2
        omega

theorem readVarint_varint (n : Nat) (rest : Bytes) :
    readVarint (varint n ++ rest) = some (n, rest) := by
  refine readVarint_varintFrom n n ?_ rest
  have := Nat.lt_two_pow_self (n := n)
  omega

/-- A string behind its length. -/
def lengthDelimited (bs : Bytes) : Bytes := varint bs.length ++ bs

def readLengthDelimited (bs : Bytes) : Option (Bytes × Bytes) :=
  (readVarint bs).bind fun p =>
    if p.1 ≤ p.2.length then some (p.2.take p.1, p.2.drop p.1) else none

theorem readLengthDelimited_append (bs rest : Bytes) :
    readLengthDelimited (lengthDelimited bs ++ rest) = some (bs, rest) := by
  rw [readLengthDelimited, lengthDelimited, List.append_assoc, readVarint_varint, Option.bind_some,
    if_pos (by rw [List.length_append]; omega), List.take_left, List.drop_left]

def fixed64 (id : UInt64) : Bytes := (beBytes 8 id.toNat).reverse

def readFixed64 (bs : Bytes) : Option (UInt64 × Bytes) :=
  if 8 ≤ bs.length then some (UInt64.ofNat (beNat (bs.take 8).reverse), bs.drop 8) else none

theorem readFixed64_append (id : UInt64) (rest : Bytes) :
    readFixed64 (fixed64 id ++ rest) = some (id, rest) := by
  have hlen : (fixed64 id).length = 8 := by rw [fixed64, List.length_reverse, length_beBytes]
  have hid : UInt64.ofNat (beNat (fixed64 id).reverse) = id := by
    rw [fixed64, List.reverse_reverse, beNat_beBytes]
    apply UInt64.toNat_inj.mp
    rw [UInt64.toNat_ofNat', show 256 ^ 8 = 2 ^ 64 from rfl, Nat.mod_mod]
    exact Nat.mod_eq_of_lt id.toNat_lt
  rw [readFixed64, if_pos (by rw [List.length_append]; omega), ← hlen, List.take_left,
    List.drop_left, hid]

def MessageType.number : MessageType → UInt8
  | .UNKNOWN => 0
  | .REQUEST => 1
  | .RESPONSE => 2
  | .ERROR => 3

def readMessageType : Bytes → Option (MessageType × Bytes)
  | 0 :: bs => some (.UNKNOWN, bs)
  | 1 :: bs => some (.REQUEST, bs)
  | 2 :: bs => some (.RESPONSE, bs)
  | 3 :: bs => some (.ERROR, bs)
  | _ => none

def ErrorCode.number : ErrorCode → UInt8
  | .NO_ERROR => 0
  | .WRONG_PROTO => 1
  | .NO_SERVICE => 2
  | .NO_METHOD => 3
  | .INVALID_REQUEST => 4
  | .INVALID_RESPONSE => 5
  | .TIMEOUT => 6

def readErrorCode : Bytes → Option (ErrorCode × Bytes)
  | 0 :: bs => some (.NO_ERROR, bs)
  | 1 :: bs => some (.WRONG_PROTO, bs)
  | 2 :: bs => some (.NO_SERVICE, bs)
  | 3 :: bs => some (.NO_METHOD, bs)
  | 4 :: bs => some (.INVALID_REQUEST, bs)
  | 5 :: bs => some (.INVALID_RESPONSE, bs)
  | 6 :: bs => some (.TIMEOUT, bs)
  | _ => none

theorem readMessageType_number (t : MessageType) (rest : Bytes) :
    readMessageType (t.number :: rest) = some (t, rest) := by
  cases t <;> rfl

theorem readErrorCode_number (e : ErrorCode) (rest : Bytes) :
    readErrorCode (e.number :: rest) = some (e, rest) := by
  cases e <;> rfl

/-! ## Fields -/

/-- A field with presence is its tag and its value. -/
def optionalField {α : Type} (tag : UInt8) (write : α → Bytes) : Option α → Bytes
  | none => []
  | some a => tag :: write a

/-- A field without presence is left out when it has its default. -/
def implicitField {α : Type} [DecidableEq α] (tag : UInt8) (write : α → Bytes) (default a : α) :
    Bytes :=
  if a = default then [] else tag :: write a

def serialize (m : RpcMessage) : Bytes :=
  implicitField 0x08 (fun t => [MessageType.number t]) .UNKNOWN m.type ++
  (implicitField 0x11 fixed64 0 m.id ++
  (optionalField 0x1a lengthDelimited m.service ++
  (optionalField 0x22 lengthDelimited m.method ++
  (optionalField 0x2a lengthDelimited m.request ++
  (optionalField 0x32 lengthDelimited m.response ++
  optionalField 0x38 (fun e => [ErrorCode.number e]) m.error)))))

/-- The value behind a tag goes into its field. -/
def readField (tag : UInt8) (bs : Bytes) (m : RpcMessage) : Option (RpcMessage × Bytes) :=
  match tag with
  | 0x08 => (readMessageType bs).map fun p => ({ m with type := p.1 }, p.2)
  | 0x11 => (readFixed64 bs).map fun p => ({ m with id := p.1 }, p.2)
  | 0x1a => (readLengthDelimited bs).map fun p => ({ m with service := some p.1 }, p.2)
  | 0x22 => (readLengthDelimited bs).map fun p => ({ m with method := some p.1 }, p.2)
  | 0x2a => (readLengthDelimited bs).map fun p => ({ m with request := some p.1 }, p.2)
  | 0x32 => (readLengthDelimited bs).map fun p => ({ m with response := some p.1 }, p.2)
  | 0x38 => (readErrorCode bs).map fun p => ({ m with error := some p.1 }, p.2)
  | _ => none

/-- A field takes a byte at least, so the length of the input is fuel enough. -/
def readFields : Nat → Bytes → RpcMessage → Option RpcMessage
  | _, [], m => some m
  | 0, _ :: _, _ => none
  | fuel + 1, tag :: bs, m => (readField tag bs m).bind fun p => readFields fuel p.2 p.1

def parse (bs : Bytes) : Option RpcMessage := readFields bs.length bs {}

/-- With fuel enough, reading `bs` turns `m` into `m'`. -/
def Reads (bs : Bytes) (m m' : RpcMessage) : Prop :=
  ∀ fuel, bs.length ≤ fuel → readFields fuel bs m = some m'

theorem Reads.nil (m : RpcMessage) : Reads [] m m := by
  intro fuel _
  cases fuel <;> rfl

theorem Reads.field {tag : UInt8} {value rest : Bytes} {m m' m'' : RpcMessage}
    (hfield : readField tag (value ++ rest) m = some (m', rest)) (h : Reads rest m' m'') :
    Reads (tag :: value ++ rest) m m'' := by
  intro fuel hfuel
  rw [List.cons_append, List.length_cons] at hfuel
  obtain ⟨fuel, rfl⟩ := Nat.exists_eq_succ_of_ne_zero (n := fuel) (by omega)
  rw [List.cons_append, readFields, hfield, Option.bind_some]
  refine h fuel ?_
  rw [List.length_append] at hfuel
  omega

/-- A field with presence: it is written, or it was not set and still is not. -/
theorem Reads.optional {α : Type} {tag : UInt8} {write : α → Bytes} {value : Option α}
    {rest : Bytes} {m m'' : RpcMessage} {s : Option α → RpcMessage} (hnone : s none = m)
    (hfield : ∀ a, readField tag (write a ++ rest) m = some (s (some a), rest))
    (h : Reads rest (s value) m'') : Reads (optionalField tag write value ++ rest) m m'' := by
  cases value with
  | none => rwa [hnone] at h
  | some a => exact h.field (hfield a)

theorem Reads.implicit {α : Type} [DecidableEq α] {tag : UInt8} {write : α → Bytes}
    {default a : α} {rest : Bytes} {m m'' : RpcMessage} {s : α → RpcMessage}
    (hdefault : s default = m)
    (hfield : readField tag (write a ++ rest) m = some (s a, rest))
    (h : Reads rest (s a) m'') : Reads (implicitField tag write default a ++ rest) m m'' := by
  unfold implicitField
  split
  next heq =>
    rw [heq, hdefault] at h
    exact h
  next => exact h.field hfield

theorem parse_serialize (m : RpcMessage) : parse (serialize m) = some m := by
  refine (?_ : Reads (serialize m) {} m) _ (Nat.le_refl _)
  obtain ⟨type, id, service, method, request, response, error⟩ := m
  -- field by field, in the order of their numbers
  refine Reads.implicit (s := fun v => { type := v }) rfl ?_ ?_
  · rw [readField, List.singleton_append, readMessageType_number, Option.map_some]
  refine Reads.implicit (s := fun v => { type := type, id := v }) rfl ?_ ?_
  · rw [readField, readFixed64_append, Option.map_some]
  refine Reads.optional (s := fun v => ⟨type, id, v, none, none, none, none⟩) rfl ?_ ?_
  · exact fun bs => by rw [readField, readLengthDelimited_append, Option.map_some]
  refine Reads.optional (s := fun v => ⟨type, id, service, v, none, none, none⟩) rfl ?_ ?_
  · exact fun bs => by rw [readField, readLengthDelimited_append, Option.map_some]
  refine Reads.optional (s := fun v => ⟨type, id, service, method, v, none, none⟩) rfl ?_ ?_
  · exact fun bs => by rw [readField, readLengthDelimited_append, Option.map_some]
  refine Reads.optional (s := fun v => ⟨type, id, service, method, request, v, none⟩) rfl ?_ ?_
  · exact fun bs => by rw [readField, readLengthDelimited_append, Option.map_some]
  rw [← List.append_nil (optionalField _ _ _)]
  refine Reads.optional (s := fun v => ⟨type, id, service, method, request, response, v⟩) rfl ?_
    (Reads.nil _)
  exact fun e => by rw [readField, List.singleton_append, readErrorCode_number, Option.map_some]

end RpcMessage

/-- `RpcMessage` as the codec uses it. -/
def rpcProtobuf : Protobuf RpcMessage where
  byteSizeLong m := (RpcMessage.serialize m).length
  serializeToArray := RpcMessage.serialize
  parseFromArray := RpcMessage.parse

theorem rpcProtobuf_lawful : rpcProtobuf.Lawful := ⟨fun _ => rfl, RpcMessage.parse_serialize⟩

end Youth.Rpc
