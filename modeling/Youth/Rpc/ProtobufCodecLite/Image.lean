/-
  Youth.Rpc.ProtobufCodecLite.Image

  What the decoder accepts, and which bytes it looks at to find out.

  The length field comes from the peer, and the offsets of all other reads are computed
  from it.  Between `kMinMessageLen` and `kMaxMessageLen` it keeps them inside the readable
  bytes, provided that `kMinMessageLen` is what its name says: the length of the tag is cut
  down to an `int`.  So the tags are the exact condition (`decodes_image_iff`).
-/

import Youth.Rpc.ProtobufCodecLite.RoundTrip

namespace Youth.Rpc
namespace ProtobufCodecLite

open Youth.Lib Youth.Net

variable {Msg : Type}

/-- The frame of the payload `p`: length, tag, payload, checksum. -/
def image (c : ProtobufCodecLite Msg) (p : List UInt8) : List UInt8 :=
  beBytesInt 4 (c.tag.length + p.length + 4 : Nat) ++
    (c.tag ++ p ++ beBytesInt 4 (intOfSize (c.adler32 (c.tag ++ p))))

/-! ## What the code looks at -/

/-- A read of `length` bytes, `offset` bytes behind `peek()`. -/
structure Access where
  offset : Int
  length : Nat
  deriving DecidableEq, Repr

/-- The read lies in the first `n` bytes. -/
def Access.Inside (a : Access) (n : Nat) : Prop := 0 ≤ a.offset ∧ a.offset + a.length ≤ n

/-- What `parse(buf, len, message)` passes to `parseFromBuffer`, if it gets there. -/
def payload (c : ProtobufCodecLite Msg) (buf : List UInt8) (len : Int) : Option (List UInt8) :=
  if c.validateChecksum buf len = true ∧ buf.take c.tag.length = c.tag then
    some ((buf.drop c.tag.length).take (sizeOfInt (len - kChecksumLen - intOfSize c.tag.length)))
  else none

/-- The reads of `parse(buf->peek() + kHeaderLen, len, message)`: the checksum, what it is a
    checksum of, the tag, and the payload. -/
def parseReads (c : ProtobufCodecLite Msg) (buf : List UInt8) (len : Int) : List Access :=
  ⟨kHeaderLen + len - kChecksumLen, 4⟩ :: ⟨kHeaderLen, uint32OfInt (len - kChecksumLen)⟩ ::
    if c.validateChecksum buf len then
      ⟨kHeaderLen, c.tag.length⟩ ::
        if buf.take c.tag.length = c.tag then
          [⟨kHeaderLen + c.tag.length, sizeOfInt (len - kChecksumLen - intOfSize c.tag.length)⟩]
        else []
    else []

/-- The buffer is long enough for the shortest frame. -/
def HasHeader (c : ProtobufCodecLite Msg) (buf : Buffer) : Prop :=
  uint32OfInt (c.kMinMessageLen + kHeaderLen) ≤ buf.readableBytes

/-- The length field is accepted, and the frame is complete. -/
def HasFrame (c : ProtobufCodecLite Msg) (buf : Buffer) : Prop :=
  c.HasHeader buf ∧
    ¬(kMaxMessageLen < buf.peekInt32.val ∨ buf.peekInt32.val < c.kMinMessageLen) ∧
    sizeOfInt (kHeaderLen + buf.peekInt32.val) ≤ buf.readableBytes

instance (c : ProtobufCodecLite Msg) (buf : Buffer) : Decidable (c.HasHeader buf) :=
  inferInstanceAs (Decidable (_ ≤ _))

instance (c : ProtobufCodecLite Msg) (buf : Buffer) : Decidable (c.HasFrame buf) :=
  inferInstanceAs (Decidable (_ ∧ _))

/-- The bytes of the frame in front. -/
def frontFrame (buf : Buffer) : List UInt8 :=
  (buf.bufferVec.drop buf.readerIndex).take (sizeOfInt (kHeaderLen + buf.peekInt32.val))

/-- The raw callback leaves the frame in front to the codec. -/
def Parses (c : ProtobufCodecLite Msg) (buf : Buffer) : Prop :=
  c.HasFrame buf ∧ c.callRawCb (frontFrame buf) ≠ some false

instance (c : ProtobufCodecLite Msg) (buf : Buffer) : Decidable (c.Parses buf) :=
  inferInstanceAs (Decidable (_ ∧ _))

/-- What a turn of `onMessage` passes to `parseFromBuffer`. -/
def turnPayload (c : ProtobufCodecLite Msg) (buf : Buffer) : Option (List UInt8) :=
  if c.Parses buf then
    c.payload ((buf.bufferVec.drop buf.readerIndex).drop 4) buf.peekInt32.val
  else none

/-- The reads of a turn; those of the raw callback are inside the view that it is given. -/
def turnReads (c : ProtobufCodecLite Msg) (buf : Buffer) : List Access :=
  (if c.HasHeader buf then [⟨0, 4⟩] else []) ++
    (if c.HasFrame buf ∧ c.rawCb.isSome then
      [⟨0, sizeOfInt (kHeaderLen + buf.peekInt32.val)⟩]
    else []) ++
    (if c.Parses buf then
      c.parseReads ((buf.bufferVec.drop buf.readerIndex).drop 4) buf.peekInt32.val
    else [])

variable {c : ProtobufCodecLite Msg} {buf b : Buffer}

/-! ## A turn by its payload -/

/-- A message is what `parseFromBuffer` makes of the payload. -/
theorem payload_of_parse {buf : List UInt8} {len : Int} {m : Msg} (h : c.parse buf len = .ok m) :
    ∃ p, c.payload buf len = some p ∧ c.pb.parseFromArray p = some m := by
  rw [parse] at h
  split at h
  next hsum =>
    split at h
    next htag =>
      dsimp only at h
      split at h
      next message hmessage =>
        cases h
        exact ⟨_, if_pos ⟨hsum, htag⟩, hmessage⟩
      · cases h
    · cases h
  · cases h

/-- A turn without a frame waits, or reports the length. -/
theorem onMessageTurn_of_not_hasFrame (h : ¬c.HasFrame buf) :
    c.onMessageTurn buf = .stop [] buf ∨
      c.onMessageTurn buf = .stop [.error .kInvalidLength] (c.errorCallback .kInvalidLength buf) := by
  unfold onMessageTurn
  split
  next hheader =>
    dsimp only
    split
    · exact .inr rfl
    next hrange =>
      split
      next hwhole => exact absurd ⟨hheader, hrange, hwhole⟩ h
      · exact .inl rfl
  · exact .inl rfl

theorem onMessageTurn_of_hasFrame (h : c.HasFrame buf) :
    c.onMessageTurn buf = c.onFrame buf buf.peekInt32.val (sizeOfInt (kHeaderLen + buf.peekInt32.val)) := by
  obtain ⟨hheader, hrange, hwhole⟩ := h
  unfold HasHeader at hheader
  simp only [onMessageTurn, if_pos hheader, if_neg hrange, if_pos hwhole]

/-! ## The bytes behind the length field -/

section Payload

variable {mem p : List UInt8} {n : Nat} (htag : c.tag.length + 4 ≤ n) (hlt : n < 2 ^ 31)

include htag hlt

/-- The offsets that `parse` computes from the length field `n`. -/
theorem parse_offsets :
    ((n : Int) - kChecksumLen).toNat = n - 4 ∧ uint32OfInt (n - kChecksumLen) = n - 4 ∧
      sizeOfInt (n - kChecksumLen - intOfSize c.tag.length) = n - 4 - c.tag.length := by
  rw [intOfSize_of_lt (by omega)]
  unfold kChecksumLen uint32OfInt sizeOfInt
  omega

/-- The checks of `parse` in terms of its three pieces of memory. -/
theorem payload_eq : c.payload mem n =
    if intOfSize (c.adler32 (mem.take (n - 4))) = beInt 4 ((mem.drop (n - 4)).take 4) ∧
        mem.take c.tag.length = c.tag then
      some ((mem.drop c.tag.length).take (n - 4 - c.tag.length))
    else none := by
  obtain ⟨hsum, hactual, hdata⟩ := parse_offsets htag hlt
  simp only [payload, validateChecksum, checksum, asInt32, hsum, hactual, hdata, decide_eq_true_eq]

/-- `parse` gets to the payload of the frames of the encoder's form, and no others. -/
theorem payload_eq_some_iff (hn : n ≤ mem.length) :
    c.payload mem n = some p ↔
      mem.take n = c.tag ++ p ++ beBytesInt 4 (intOfSize (c.adler32 (c.tag ++ p))) := by
  rw [payload_eq htag hlt, Option.ite_none_right_eq_some]
  have hwhole : mem.take n = mem.take (n - 4) ++ (mem.drop (n - 4)).take 4 := by
    rw [← List.take_add]
    congr 1
    omega
  have hfront : mem.take (n - 4) = mem.take c.tag.length ++
      (mem.drop c.tag.length).take (n - 4 - c.tag.length) := by
    rw [← List.take_add]
    congr 1
    omega
  have hsumLen : ((mem.drop (n - 4)).take 4).length = 4 := by
    rw [List.length_take, List.length_drop]
    omega
  constructor
  · rintro ⟨⟨hsum, hfound⟩, hp⟩
    rw [Option.some.injEq] at hp
    rw [hfound, hp] at hfront
    rw [hfront] at hsum
    rw [hwhole, hfront, hsum, beBytesInt_beInt hsumLen]
  · intro hbytes
    rw [hwhole] at hbytes
    have hlen := congrArg List.length hbytes
    simp only [List.length_append, hsumLen, length_beBytesInt] at hlen
    -- the two sides have the same last four bytes
    obtain ⟨hsame, hsum⟩ := List.append_inj' hbytes (by rw [hsumLen, length_beBytesInt])
    have htagLen : (mem.take c.tag.length).length = c.tag.length := by
      rw [List.length_take]
      omega
    rw [hfront] at hsame
    obtain ⟨hfound, hp⟩ := List.append_inj hsame htagLen
    refine ⟨⟨?_, hfound⟩, by rw [hp]⟩
    rw [hfront, hfound, hp, hsum, beInt_intOfSize]

end Payload

/-! ## One turn -/

/-- A turn that goes on has dropped the frame in front; a message that it delivered was
    parsed from the payload. -/
theorem onMessageTurn_next {events : List (CodecEvent Msg)} (hnext : c.onMessageTurn buf = .next events b) :
    c.HasFrame buf ∧ b = (buf.retrieve (sizeOfInt (kHeaderLen + buf.peekInt32.val))).val ∧
      ∀ m, .message m ∈ events → ∃ p, c.turnPayload buf = some p ∧ c.pb.parseFromArray p = some m := by
  have hframe : c.HasFrame buf := by
    by_contra hno
    rcases onMessageTurn_of_not_hasFrame hno with hstop | hstop <;> (rw [hstop] at hnext; cases hnext)
  rw [onMessageTurn_of_hasFrame hframe, onFrame] at hnext
  refine ⟨hframe, ?_⟩
  have hraw : ∀ m : Msg, .message m ∉ (if c.rawCb.isSome then
      [.raw (frontFrame buf)] else [] : List (CodecEvent Msg)) := by
    intro m
    split <;> simp
  split at hnext
  · cases hnext
    exact ⟨rfl, fun m hm => absurd hm (hraw m)⟩
  next hcalled =>
    have hparses : c.Parses buf := ⟨hframe, hcalled⟩
    split at hnext
    next message hparse =>
      cases hnext
      obtain ⟨p, hpayload, hmessage⟩ := payload_of_parse hparse
      refine ⟨rfl, fun m hm => ⟨p, ?_, ?_⟩⟩
      · rw [turnPayload, if_pos hparses, hpayload]
      · rcases List.mem_append.mp hm with hm | hm
        · exact absurd hm (hraw m)
        · cases List.mem_singleton.mp hm
          exact hmessage
    · cases hnext

/-- The error callback is given the buffer with the frame at fault still in front. -/
theorem onMessageTurn_error {events : List (CodecEvent Msg)} {code : ErrorCode}
    (hstop : c.onMessageTurn buf = .stop events b) (hcode : .error code ∈ events) :
    b = c.errorCallback code buf := by
  by_cases hframe : c.HasFrame buf
  · rw [onMessageTurn_of_hasFrame hframe, onFrame] at hstop
    have hraw : .error code ∉ (if c.rawCb.isSome then
        [.raw (frontFrame buf)] else [] : List (CodecEvent Msg)) := by
      split <;> simp
    split at hstop
    · cases hstop
    · split at hstop
      · cases hstop
      next errorCode _ =>
        cases hstop
        rcases List.mem_append.mp hcode with hcode | hcode
        · exact absurd hcode hraw
        · cases List.mem_singleton.mp hcode
          rfl
  · rcases onMessageTurn_of_not_hasFrame hframe with hwait | hlength
    · rw [hwait] at hstop
      cases hstop
      cases hcode
    · rw [hlength] at hstop
      cases hstop
      cases List.mem_singleton.mp hcode
      rfl

/-- Where a frame is dropped the rest of the bytes stays. -/
theorem onMessageTurn_next_readable {events : List (CodecEvent Msg)} (h : buf.Inv)
    (hnext : c.onMessageTurn buf = .next events b) : b.Inv ∧ b.readable <:+ buf.readable := by
  obtain ⟨⟨-, -, hwhole⟩, rfl, -⟩ := onMessageTurn_next hnext
  have hy := Buffer.retrieve_yields h hwhole
  refine ⟨hy.inv, ?_⟩
  rw [hy.readable]
  exact List.drop_suffix _ _

/-! ## Tags whose length is an `int` -/

/-- The length of the shortest frame is an `int`, or it is cut down to one that is too long. -/
def TagFits (tag : List UInt8) : Prop :=
  tag.length + 4 < 2 ^ 31 ∨ kMaxMessageLen < intOfSize (tag.length + 4)

section Fits

variable (hfit : TagFits c.tag)

include hfit

theorem four_le_of_hasHeader (h : c.HasHeader buf) : 4 ≤ buf.readableBytes := by
  have hlt := intOfSize_lt (c.tag.length + 4)
  unfold HasHeader kMinMessageLen kHeaderLen uint32OfInt at h
  rcases hfit with hsmall | hlong
  · rw [intOfSize_of_lt hsmall] at h
    omega
  · unfold kMaxMessageLen at hlong
    omega

/-- The length field of a complete frame, and where the frame ends. -/
theorem HasFrame.bounds (hframe : c.HasFrame buf) (h : buf.Inv) :
    ∃ n : Nat, buf.peekInt32.val = n ∧ c.tag.length + 4 ≤ n ∧ n ≤ 64 * 1024 * 1024 ∧
      4 + n ≤ buf.readableBytes ∧ sizeOfInt (kHeaderLen + n) = 4 + n ∧
      buf.readable.take 4 = beBytesInt 4 n := by
  obtain ⟨hheader, hrange, hwhole⟩ := hframe
  -- the length field itself, and the four bytes that it was read from
  have h4 := four_le_of_hasHeader hfit hheader
  have hpeek : buf.peekInt32.val = beInt 4 (buf.readable.take 4) := Buffer.peekInt_val h h4
  have hlen := Buffer.length_readable h
  have hbytes : beBytesInt 4 buf.peekInt32.val = buf.readable.take 4 := by
    rw [hpeek]
    apply beBytesInt_beInt
    rw [List.length_take]
    omega
  unfold kMinMessageLen kMaxMessageLen at hrange
  rcases hfit with hsmall | hlong
  · rw [intOfSize_of_lt hsmall] at hrange
    obtain ⟨n, hn⟩ := Int.eq_ofNat_of_zero_le (show 0 ≤ buf.peekInt32.val by omega)
    rw [hn] at hrange hwhole hbytes
    have hsize : sizeOfInt (kHeaderLen + n) = 4 + n := by
      unfold sizeOfInt kHeaderLen
      omega
    exact ⟨n, hn, by omega, by omega, by omega, hsize, hbytes.symm⟩
  · -- between the two bounds there is no length
    unfold kMaxMessageLen at hlong
    omega

omit hfit in
/-- The memory behind the length field starts with the readable bytes there. -/
theorem take_memory (h : buf.Inv) {n : Nat} (hn : 4 + n ≤ buf.readableBytes) :
    ((buf.bufferVec.drop buf.readerIndex).drop 4).take n = (buf.readable.drop 4).take n ∧
      n ≤ ((buf.bufferVec.drop buf.readerIndex).drop 4).length := by
  have hlen := Buffer.length_readable h
  rw [Buffer.drop_readerIndex h, List.drop_append_of_le_length (by omega)]
  constructor
  · apply List.take_append_of_le_length
    rw [List.length_drop]
    omega
  · rw [List.length_append, List.length_drop]
    omega

/-- The payload that a turn passes on stands in a frame of the encoder's form. -/
theorem readable_of_turnPayload (h : buf.Inv) {p : List UInt8} (hp : c.turnPayload buf = some p) :
    ∃ more, buf.readable = c.image p ++ more := by
  obtain ⟨⟨hframe, -⟩, hpayload⟩ := Option.ite_none_right_eq_some.mp hp
  obtain ⟨n, hn, htag, hmax, hwhole, -, hheader⟩ := hframe.bounds hfit h
  obtain ⟨hmem, hlong⟩ := take_memory h hwhole
  rw [hn, payload_eq_some_iff htag (by omega) hlong, hmem] at hpayload
  -- the length field counts tag, payload and checksum
  have hlen := congrArg List.length hpayload
  have hreadable := Buffer.length_readable h
  simp only [List.length_append, List.length_take, List.length_drop, length_beBytesInt] at hlen
  have hcount : c.tag.length + p.length + 4 = n := by omega
  refine ⟨buf.readable.drop (4 + n), ?_⟩
  calc buf.readable
      = buf.readable.take 4 ++ ((buf.readable.drop 4).take n ++ buf.readable.drop (4 + n)) := by
        rw [← List.drop_drop, List.take_append_drop, List.take_append_drop]
    _ = c.image p ++ buf.readable.drop (4 + n) := by
        rw [hheader, hpayload, image, hcount, ← List.append_assoc]

theorem reads_inside (h : buf.Inv) : ∀ a ∈ c.turnReads buf, a.Inside buf.readableBytes := by
  intro a ha
  unfold turnReads at ha
  rw [List.mem_append, List.mem_append] at ha
  rcases ha with (ha | ha) | ha
  · -- the length field
    obtain ⟨hheader, ha⟩ := List.mem_ite_nil_right.mp ha
    have h4 := four_le_of_hasHeader hfit hheader
    cases List.mem_singleton.mp ha
    dsimp only [Access.Inside]
    omega
  · -- the raw callback's view
    obtain ⟨⟨hframe, -⟩, ha⟩ := List.mem_ite_nil_right.mp ha
    obtain ⟨-, -, hwhole⟩ := hframe
    cases List.mem_singleton.mp ha
    dsimp only [Access.Inside]
    omega
  · obtain ⟨⟨hframe, -⟩, ha⟩ := List.mem_ite_nil_right.mp ha
    obtain ⟨n, hn, htag, hmax, hwhole, -, -⟩ := hframe.bounds hfit h
    -- checksum, what it covers, tag and payload: each ends with the frame at the latest
    obtain ⟨-, hactual, hdata⟩ := parse_offsets htag (by omega)
    rw [hn, parseReads, hactual, hdata] at ha
    unfold kHeaderLen kChecksumLen at ha
    unfold Access.Inside
    rcases List.mem_cons.mp ha with rfl | ha
    · dsimp only
      omega
    rcases List.mem_cons.mp ha with rfl | ha
    · dsimp only
      omega
    obtain ⟨-, ha⟩ := List.mem_ite_nil_right.mp ha
    rcases List.mem_cons.mp ha with rfl | ha
    · dsimp only
      omega
    obtain ⟨-, ha⟩ := List.mem_ite_nil_right.mp ha
    cases List.mem_singleton.mp ha
    dsimp only
    omega

/-- Every further turn has dropped a frame. -/
theorem readableBytes_lt {events : List (CodecEvent Msg)} (h : buf.Inv)
    (hnext : c.onMessageTurn buf = .next events b) : b.Inv ∧ b.readableBytes < buf.readableBytes := by
  obtain ⟨hframe, rfl, -⟩ := onMessageTurn_next hnext
  obtain ⟨n, hn, -, -, hwhole, hsize, -⟩ := hframe.bounds hfit h
  rw [hn, hsize]
  have hy := Buffer.retrieve_yields h hwhole
  have hlen := Buffer.length_readable hy.inv
  rw [hy.readable, List.length_drop, Buffer.length_readable h] at hlen
  exact ⟨hy.inv, by omega⟩

theorem onMessage_terminates (h : buf.Inv) : ∃ events b, c.onMessage buf = some (events, b) := by
  have hdec : ∀ (s : Buffer) (events : List (CodecEvent Msg)) (u : Buffer), s.Inv →
      c.onMessageTurn s = .next events u → u.Inv ∧ u.readableBytes < s.readableBytes :=
    fun _ _ _ hs hnext => readableBytes_lt hfit hs hnext
  obtain ⟨events, b, hloops⟩ := exists_loops hdec h
  exact ⟨events, b, loop_of_loops hdec hloops h (Nat.lt_succ_self _)⟩

end Fits

/-! ## The encoder's frames -/

theorem length_image (p : List UInt8) : (c.image p).length = 4 + (c.tag.length + p.length + 4) := by
  simp only [image, List.length_append, length_beBytesInt]

/-- What `fillEmptyBuffer` writes has this form. -/
theorem frame_eq_image (m : Msg) : c.frame m = c.image (c.pb.serializeToArray m) := by
  have hlength : beBytesInt 4 (intOfSize (c.body m).length) = beBytesInt 4 ((c.body m).length : Nat) := by
    unfold beBytesInt intOfSize
    rw [show (256 ^ 4 : Nat) = 2 ^ 32 from rfl, Int.bmod_emod]
  rw [frame, hlength, image, length_body]
  rfl

/-- A complete frame that fits is passed on, unless the raw callback keeps it. -/
theorem turnPayload_of_image (h : buf.Inv) {p more : List UInt8}
    (hbytes : buf.readable = c.image p ++ more)
    (hmax : (c.tag.length + p.length + 4 : Int) ≤ kMaxMessageLen)
    (hraw : c.callRawCb (c.image p) ≠ some false) : c.turnPayload buf = some p := by
  unfold kMaxMessageLen at hmax
  have hlen := Buffer.length_readable h
  rw [hbytes, List.length_append, length_image] at hlen
  obtain ⟨n, hn⟩ : ∃ n, n = c.tag.length + p.length + 4 := ⟨_, rfl⟩
  have hpeek : buf.peekInt32.val = n := by
    have hint : intOfSize n = n := intOfSize_of_lt (by omega)
    rw [Buffer.peekInt32, Buffer.peekInt_val h (by omega), hbytes, image, List.append_assoc,
      List.take_left' (length_beBytesInt 4 _), ← hn, ← hint, beInt_intOfSize, hint]
  have hsize : sizeOfInt (kHeaderLen + n) = 4 + n := by
    unfold sizeOfInt kHeaderLen
    omega
  have hframe : c.HasFrame buf := by
    refine ⟨?_, ?_, ?_⟩
    · rw [HasHeader, guard_eq (by omega)]
      omega
    · rw [hpeek, kMinMessageLen, intOfSize_of_lt (by omega), kMaxMessageLen]
      omega
    · rw [hpeek, hsize]
      omega
  have hfront : frontFrame buf = c.image p := by
    rw [frontFrame, hpeek, hsize, Buffer.drop_readerIndex h, hbytes, List.append_assoc]
    apply List.take_left'
    rw [length_image, hn]
  obtain ⟨hmem, hlong⟩ := take_memory h (show 4 + n ≤ buf.readableBytes by omega)
  rw [turnPayload, if_pos ⟨hframe, by rw [hfront]; exact hraw⟩, hpeek,
    payload_eq_some_iff (by omega) (by omega) hlong, hmem, hbytes, image, List.append_assoc,
    List.drop_left' (length_beBytesInt 4 _)]
  apply List.take_left'
  simp only [List.length_append, length_beBytesInt]
  omega

/-! ## Tags whose length is none -/

theorem exists_buffer (bytes : List UInt8) :
    ∃ buf : Buffer, buf.Inv ∧ buf.readable = bytes ∧ buf.readableBytes = bytes.length := by
  have hy := Buffer.append_yields (Buffer.new_inv 0) bytes
  have hread := hy.readable
  rw [Buffer.readable_new, List.nil_append] at hread
  refine ⟨_, hy.inv, hread, ?_⟩
  rw [← Buffer.length_readable hy.inv, hread]

/-- A length field that is accepted leads to `parse`. -/
theorem parses_of_length (hraw : c.rawCb = none) (h : buf.Inv) {len : Int} {rest : List UInt8}
    (hbytes : buf.readable = beBytesInt 4 len ++ rest) (hlow : -2 ^ 31 ≤ len)
    (hhigh : len ≤ kMaxMessageLen) (hmin : c.kMinMessageLen ≤ len) (hheader : c.HasHeader buf)
    (hwhole : sizeOfInt (kHeaderLen + len) ≤ buf.readableBytes) :
    c.Parses buf ∧ buf.peekInt32.val = len := by
  have hlen := Buffer.length_readable h
  rw [hbytes, List.length_append, length_beBytesInt] at hlen
  unfold kMaxMessageLen at hhigh
  have hpeek : buf.peekInt32.val = len := by
    rw [Buffer.peekInt32, Buffer.peekInt_val h (by omega), hbytes,
      List.take_left' (length_beBytesInt 4 _)]
    exact beInt_beBytesInt (by omega) (by omega)
  refine ⟨⟨⟨hheader, ?_, ?_⟩, callRawCb_of_none hraw _⟩, hpeek⟩
  · rw [hpeek, kMaxMessageLen]
    omega
  · rw [hpeek]
    exact hwhole

theorem mem_turnReads (hparses : c.Parses buf) {a : Access}
    (ha : a ∈ c.parseReads ((buf.bufferVec.drop buf.readerIndex).drop 4) buf.peekInt32.val) :
    a ∈ c.turnReads buf := by
  rw [turnReads, if_pos hparses]
  exact List.mem_append_right _ ha

section Unfit

variable (hraw : c.rawCb = none) (hlong : 2 ^ 31 ≤ c.tag.length + 4)

include hraw

/-- A negative length: the checksum is looked for in front of the buffer. -/
theorem reads_before_of_negative (hneg : c.kMinMessageLen < 0) :
    ∃ buf : Buffer, buf.Inv ∧ (⟨-1, 4⟩ : Access) ∈ c.turnReads buf := by
  obtain ⟨buf, hinv, hbytes, hlen⟩ := exists_buffer
    (beBytesInt 4 (-1) ++ List.replicate (uint32OfInt (c.kMinMessageLen + kHeaderLen)) 0)
  rw [List.length_append, length_beBytesInt, List.length_replicate] at hlen
  have hheader : c.HasHeader buf := by
    unfold HasHeader
    omega
  -- a frame of three bytes is complete
  have hsize : sizeOfInt (kHeaderLen + -1) = 3 := rfl
  obtain ⟨hparses, hpeek⟩ := parses_of_length hraw hinv hbytes (by omega) (by decide) (by omega)
    hheader (by rw [hsize]; omega)
  refine ⟨buf, hinv, mem_turnReads hparses ?_⟩
  rw [hpeek, parseReads]
  exact List.mem_cons_self

/-- A length field that is exactly `kMinMessageLen`, and as many bytes behind it. -/
theorem parses_of_minimal {n : Nat} (hn : c.kMinMessageLen = n) (hmax : (n : Int) ≤ kMaxMessageLen)
    (h : buf.Inv) {rest : List UInt8} (hbytes : buf.readable = beBytesInt 4 (n : Int) ++ rest)
    (hrest : rest.length = n) : c.Parses buf ∧ buf.peekInt32.val = n := by
  have hlen := Buffer.length_readable h
  rw [hbytes, List.length_append, length_beBytesInt, hrest] at hlen
  have hbound : (n : Int) ≤ 67108864 := hmax
  refine parses_of_length hraw h hbytes (by omega) hmax (by omega) ?_ ?_
  · rw [HasHeader, hn]
    unfold uint32OfInt kHeaderLen
    omega
  · unfold sizeOfInt kHeaderLen
    omega

/-- A length below that of a checksum: what is left of it is no `uInt`. -/
theorem reads_outside_of_short {n : Nat} (hn : c.kMinMessageLen = n) (hshort : n < 4) :
    ∃ buf : Buffer, buf.Inv ∧ ∃ a ∈ c.turnReads buf, ¬a.Inside buf.readableBytes := by
  obtain ⟨buf, hinv, hbytes, hlen⟩ := exists_buffer (beBytesInt 4 (n : Int) ++ List.replicate n 0)
  rw [List.length_append, length_beBytesInt, List.length_replicate] at hlen
  have hread : (⟨kHeaderLen, uint32OfInt (n - kChecksumLen)⟩ : Access) ∈ c.turnReads buf := by
    have hmax : (n : Int) ≤ kMaxMessageLen := by
      unfold kMaxMessageLen
      omega
    obtain ⟨hparses, hpeek⟩ := parses_of_minimal hraw hn hmax hinv hbytes List.length_replicate
    apply mem_turnReads hparses
    rw [hpeek, parseReads]
    exact List.mem_cons_of_mem _ List.mem_cons_self
  refine ⟨buf, hinv, _, hread, ?_⟩
  rintro ⟨-, hend⟩
  unfold kHeaderLen uint32OfInt kChecksumLen at hend
  dsimp only at hend
  omega

include hlong in
/-- Any other length: behind the checksum the tag is compared with bytes behind the frame. -/
theorem reads_outside_of_minimal {n : Nat} (hn : c.kMinMessageLen = n)
    (hmax : (n : Int) ≤ kMaxMessageLen) (hfour : 4 ≤ n) :
    ∃ buf : Buffer, buf.Inv ∧ ∃ a ∈ c.turnReads buf, ¬a.Inside buf.readableBytes := by
  have hbound : (n : Int) ≤ 67108864 := hmax
  have hdrop : ((n : Int) - kChecksumLen).toNat = n - 4 := by
    unfold kChecksumLen
    omega
  have htake : uint32OfInt ((n : Int) - kChecksumLen) = n - 4 := by
    unfold uint32OfInt kChecksumLen
    omega
  -- zeros, and their checksum behind them
  obtain ⟨zeros, hzeros⟩ : ∃ zeros : List UInt8, zeros.length = n - 4 :=
    ⟨List.replicate (n - 4) 0, List.length_replicate⟩
  obtain ⟨buf, hinv, hbytes, hlen⟩ := exists_buffer
    (beBytesInt 4 (n : Int) ++ (zeros ++ beBytesInt 4 (intOfSize (c.adler32 zeros))))
  simp only [List.length_append, length_beBytesInt] at hlen
  have hmem : (buf.bufferVec.drop buf.readerIndex).drop 4 =
      zeros ++ (beBytesInt 4 (intOfSize (c.adler32 zeros)) ++ buf.bufferVec.drop buf.writerIndex) := by
    rw [Buffer.drop_readerIndex hinv, hbytes, List.append_assoc,
      List.drop_left' (length_beBytesInt 4 _), List.append_assoc]
  have hchecked : c.validateChecksum ((buf.bufferVec.drop buf.readerIndex).drop 4) n = true := by
    rw [hmem, validateChecksum, checksum, hdrop, htake, List.take_left' hzeros,
      List.drop_left' hzeros, asInt32, List.take_left' (length_beBytesInt 4 _), beInt_intOfSize]
    exact decide_eq_true rfl
  have hread : (⟨kHeaderLen, c.tag.length⟩ : Access) ∈ c.turnReads buf := by
    have hrest : (zeros ++ beBytesInt 4 (intOfSize (c.adler32 zeros))).length = n := by
      rw [List.length_append, length_beBytesInt]
      omega
    obtain ⟨hparses, hpeek⟩ := parses_of_minimal hraw hn hmax hinv hbytes hrest
    apply mem_turnReads hparses
    rw [hpeek, parseReads, if_pos hchecked]
    exact List.mem_cons_of_mem _ (List.mem_cons_of_mem _ List.mem_cons_self)
  refine ⟨buf, hinv, _, hread, ?_⟩
  rintro ⟨-, hend⟩
  unfold kHeaderLen at hend
  dsimp only at hend
  omega

end Unfit

theorem reads_outside (hraw : c.rawCb = none) (hno : ¬TagFits c.tag) :
    ∃ buf : Buffer, buf.Inv ∧ ∃ a ∈ c.turnReads buf, ¬a.Inside buf.readableBytes := by
  rw [TagFits, not_or] at hno
  obtain ⟨hlong, hmin⟩ := hno
  by_cases hneg : c.kMinMessageLen < 0
  · obtain ⟨buf, hinv, hread⟩ := reads_before_of_negative hraw hneg
    exact ⟨buf, hinv, _, hread, fun hinside => absurd hinside.1 (by decide)⟩
  · obtain ⟨n, hn⟩ := Int.eq_ofNat_of_zero_le (show 0 ≤ c.kMinMessageLen by omega)
    by_cases hshort : n < 4
    · exact reads_outside_of_short hraw hn hshort
    · have hmax : (n : Int) ≤ kMaxMessageLen := by
        rw [← hn]
        exact Int.not_lt.mp hmin
      exact reads_outside_of_minimal hraw (by omega) hn hmax (by omega)

/-! ## The result -/

/-- The decoder of a codec accepts the frames of the encoder's form and no others, stays
    inside the readable bytes and comes to an end, whatever these bytes are. -/
structure DecodesImage (c : ProtobufCodecLite Msg) : Prop where
  encoder : c.pb.Lawful → ∀ m buf, c.Fits m → buf.Inv → buf.readable = [] →
    Buffer.kCheapPrepend ≤ buf.readerIndex →
    (c.fillEmptyBuffer buf m).val.readable = c.image (c.pb.serializeToArray m)
  terminates : ∀ buf : Buffer, buf.Inv → ∃ events b, c.onMessage buf = some (events, b)
  reads : ∀ buf b, buf.Inv → Heads c.onMessageTurn buf b →
    ∀ a ∈ c.turnReads b, a.Inside b.readableBytes
  accepted : ∀ buf b p, buf.Inv → Heads c.onMessageTurn buf b → c.turnPayload b = some p →
    ∃ more, b.readable = c.image p ++ more
  delivered : ∀ buf b events u m, buf.Inv → Heads c.onMessageTurn buf b →
    c.onMessageTurn b = .next events u → .message m ∈ events →
    ∃ p, c.turnPayload b = some p ∧ c.pb.parseFromArray p = some m
  complete : ∀ buf b p more, buf.Inv → Heads c.onMessageTurn buf b →
    b.readable = c.image p ++ more → (c.tag.length + p.length + 4 : Int) ≤ kMaxMessageLen →
    c.callRawCb (c.image p) ≠ some false → c.turnPayload b = some p
  rejected : ∀ buf b events u code, buf.Inv → Heads c.onMessageTurn buf b →
    c.onMessageTurn b = .stop events u → .error code ∈ events →
    u = c.errorCallback code b ∧ b.readable <:+ buf.readable

theorem heads_readable (h : buf.Inv) (hhead : Heads c.onMessageTurn buf b) :
    b.Inv ∧ b.readable <:+ buf.readable := by
  refine hhead.invariant (I := fun u => u.Inv ∧ u.readable <:+ buf.readable) ?_
    ⟨h, List.suffix_refl _⟩
  intro s events t hs hnext
  obtain ⟨hinv, hsuffix⟩ := onMessageTurn_next_readable hs.1 hnext
  exact ⟨hinv, hsuffix.trans hs.2⟩

theorem decodesImage_of_tagFits (hfit : TagFits c.tag) : DecodesImage c where
  encoder := by
    intro hlaw m buf hm h hempty hroom
    rw [(fillEmptyBuffer_readable hlaw hm h hempty hroom).2, frame_eq_image]
  terminates := fun _ h => onMessage_terminates hfit h
  reads := fun _ _ h hhead => reads_inside hfit (heads_readable h hhead).1
  accepted := fun _ _ _ h hhead hp => readable_of_turnPayload hfit (heads_readable h hhead).1 hp
  delivered := fun _ _ _ _ m _ _ hnext hm => (onMessageTurn_next hnext).2.2 m hm
  complete := fun _ _ _ _ h hhead => turnPayload_of_image (heads_readable h hhead).1
  rejected := fun _ _ _ _ _ h hhead hstop hcode =>
    ⟨onMessageTurn_error hstop hcode, (heads_readable h hhead).2⟩

/-- **The decoder accepts the encoder's image.**  With every pair of callbacks, if and only
    if the length of the tag and a checksum is an `int`, or is cut down to an `int` above
    `kMaxMessageLen`. -/
theorem decodes_image_iff (pb : Protobuf Msg) (adler32 : List UInt8 → Nat) (tag : List UInt8) :
    (∀ (rawCb : Option (List UInt8 → Bool)) (errorCallback : ErrorCode → Buffer → Buffer),
      DecodesImage { tag := tag, pb := pb, adler32 := adler32, rawCb := rawCb
                     errorCallback := errorCallback }) ↔
      tag.length + 4 < 2 ^ 31 ∨ kMaxMessageLen < intOfSize (tag.length + 4) := by
  constructor
  · intro hall
    by_contra hno
    have hdecodes := hall none fun _ buf => buf
    obtain ⟨buf, hinv, a, ha, hout⟩ := reads_outside
      (c := { tag := tag, pb := pb, adler32 := adler32, rawCb := none
              errorCallback := fun _ buf => buf }) rfl hno
    exact hout (hdecodes.reads buf buf hinv .first a ha)
  · intro hfit rawCb errorCallback
    exact decodesImage_of_tagFits hfit

/-- `sampleCodec` with a tag of 2^31 bytes: `kMinMessageLen` is negative, and a length field of
    -1 is accepted. -/
theorem long_tag_reads_before_buffer :
    (∃ buf : Buffer, buf.Inv ∧
      (⟨-1, 4⟩ : Access) ∈ turnReads { sampleCodec with tag := List.replicate (2 ^ 31) 0 } buf) ∧
    ¬DecodesImage { sampleCodec with tag := List.replicate (2 ^ 31) 0 } := by
  -- only the length of the tag is needed
  obtain ⟨tag, htag⟩ : ∃ tag : List UInt8, tag = List.replicate (2 ^ 31) 0 := ⟨_, rfl⟩
  have hlen : tag.length = 2 ^ 31 := by rw [htag, List.length_replicate]
  rw [← htag]
  have hneg : kMinMessageLen { sampleCodec with tag := tag } < 0 := by
    rw [kMinMessageLen, hlen]
    decide
  obtain ⟨buf, hinv, hread⟩ := reads_before_of_negative rfl hneg
  refine ⟨⟨buf, hinv, hread⟩, fun hdecodes => ?_⟩
  have hinside := hdecodes.reads buf buf hinv .first _ hread
  exact absurd hinside.1 (by decide)

end ProtobufCodecLite
end Youth.Rpc
